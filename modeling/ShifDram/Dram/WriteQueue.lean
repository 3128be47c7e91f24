import ShifDram.Dram.Queues

/-!
The index of the write queue.

`isInWriteQueue` holds the burst addresses of ordinary packets. A row op is queued without
entering it, but on its way out takes the burst address of its dest row off it.
-/

namespace ShifDram

open List

namespace DRAMCtrl

variable {p : DRAMParams} {s s' : DRAMCtrl} {d : DRAMPacket}

/-- Burst addresses of the ordinary packets on the write queue. -/
def ordinaryBursts (p : DRAMParams) (s : DRAMCtrl) : List ℕ :=
  (s.writeQueue.filter fun d => !d.isRowOp).map fun d => p.burstAlign d.addr

/-- The index is the ordinary packets', whose bursts differ, without row ops. -/
structure Indexed (p : DRAMParams) (s : DRAMCtrl) : Prop where
  index : s.isInWriteQueue = (s.ordinaryBursts p).toFinset
  nodup : (s.ordinaryBursts p).Nodup
  apart : ∀ d ∈ s.writeQueue, d.isRowOp = true → p.burstAlign d.addr ∉ s.isInWriteQueue

lemma Indexed.congr (h : Indexed p s) (hqueue : s'.writeQueue = s.writeQueue)
    (hindex : s'.isInWriteQueue = s.isInWriteQueue) : Indexed p s' := by
  have hbursts : s'.ordinaryBursts p = s.ordinaryBursts p := by rw [ordinaryBursts, hqueue]; rfl
  refine ⟨by rw [hindex, hbursts, h.index], by rw [hbursts]; exact h.nodup, ?_⟩
  rw [hqueue, hindex]
  exact h.apart

lemma Indexed.withRowOp (h : Indexed p s) (hd : d.isRowOp = true)
    (hapart : p.burstAlign d.addr ∉ s.isInWriteQueue) : Indexed p (s.withRowOp d) := by
  have hbursts : (s.withRowOp d).ordinaryBursts p = s.ordinaryBursts p := by
    simp [ordinaryBursts, DRAMCtrl.withRowOp, filter_append, hd]
  refine ⟨h.index.trans (by rw [hbursts]), by rw [hbursts]; exact h.nodup, fun q hq hrow => ?_⟩
  rcases mem_snoc.mp hq with hq | rfl
  · exact h.apart q hq hrow
  · exact hapart

lemma Indexed.withWrite (h : Indexed p s) (hd : d.isRowOp = false)
    (hnew : p.burstAlign d.addr ∉ s.isInWriteQueue)
    (hapart : ∀ q ∈ s.writeQueue, q.isRowOp = true → p.burstAlign q.addr ≠ p.burstAlign d.addr) :
    Indexed p (s.withWrite p d) := by
  have hbursts : (s.withWrite p d).ordinaryBursts p =
      s.ordinaryBursts p ++ [p.burstAlign d.addr] := by
    simp [ordinaryBursts, DRAMCtrl.withWrite, filter_append, hd]
  refine ⟨?_, ?_, fun q hq hrow => ?_⟩
  · rw [hbursts, toFinset_append, ← h.index]
    simp [DRAMCtrl.withWrite]
  · rw [hbursts, nodup_append]
    refine ⟨h.nodup, nodup_singleton _, fun a ha b hb hab => hnew ?_⟩
    obtain rfl := mem_singleton.mp hb
    rw [h.index, mem_toFinset, ← hab]
    exact ha
  · rcases mem_snoc.mp hq with hq | rfl
    · refine fun hmem => ?_
      rcases Finset.mem_insert.mp hmem with heq | hmem
      · exact hapart q hq hrow heq
      · exact h.apart q hq hrow hmem
    · rw [hd] at hrow
      cases hrow

/-- A packet that leaves takes its entry off the index; a row op has none. -/
lemma Indexed.dequeue (h : Indexed p s) {front back : List DRAMPacket}
    (hqueue : s.writeQueue = front ++ d :: back) (hqueue' : s'.writeQueue = front ++ back)
    (hindex : s'.isInWriteQueue = s.isInWriteQueue.erase (p.burstAlign d.addr)) :
    Indexed p s' := by
  have hmem : ∀ q ∈ s'.writeQueue, q ∈ s.writeQueue := by
    rw [hqueue, hqueue']
    exact fun q => ((sublist_cons_self d back).append_left front).mem
  have hapart : ∀ q ∈ s'.writeQueue, q.isRowOp = true →
      p.burstAlign q.addr ∉ s'.isInWriteQueue := by
    intro q hq hrow hin
    rw [hindex] at hin
    exact h.apart q (hmem q hq) hrow (Finset.mem_of_mem_erase hin)
  cases hd : d.isRowOp with
  | true =>
    have hbursts : s'.ordinaryBursts p = s.ordinaryBursts p := by
      simp [ordinaryBursts, hqueue, hqueue', filter_append, hd]
    have hnot := h.apart d (hqueue ▸ mem_append_right _ mem_cons_self) hd
    refine ⟨?_, by rw [hbursts]; exact h.nodup, hapart⟩
    rw [hindex, Finset.erase_eq_of_notMem hnot, hbursts, h.index]
  | false =>
    obtain ⟨F, B, hbursts, hbursts'⟩ : ∃ F B, s.ordinaryBursts p = F ++ p.burstAlign d.addr :: B ∧
        s'.ordinaryBursts p = F ++ B :=
      ⟨(front.filter fun d => !d.isRowOp).map fun d => p.burstAlign d.addr,
        (back.filter fun d => !d.isRowOp).map fun d => p.burstAlign d.addr,
        by simp [ordinaryBursts, hqueue, filter_append, hd],
        by simp [ordinaryBursts, hqueue', filter_append]⟩
    have hnodup := h.nodup
    rw [hbursts, nodup_middle, nodup_cons] at hnodup
    refine ⟨?_, by rw [hbursts']; exact hnodup.2, hapart⟩
    ext a
    rw [hindex, h.index, hbursts, hbursts']
    simp only [Finset.mem_erase, mem_toFinset, mem_append, mem_cons, ne_eq]
    constructor
    · rintro ⟨hne, ha | ha | ha⟩
      · exact Or.inl ha
      · exact absurd ha hne
      · exact Or.inr ha
    · intro ha
      refine ⟨?_, ha.imp_right Or.inr⟩
      rintro rfl
      exact hnodup.1 (mem_append.mpr ha)

lemma Indexed.served (h : Indexed p s) (hserved : Served p s s') : Indexed p s' := by
  cases hserved with
  | stall same bus => exact h.congr same.writeQueue same.isInWriteQueue
  | idle same hturned bus => exact h.congr same.writeQueue same.isInWriteQueue
  | read front back d t hturned hqueue same bus => exact h.congr same.writeQueue same.isInWriteQueue
  | write front back d t hturned hqueue same bus =>
    exact h.dequeue hqueue same.writeQueue same.isInWriteQueue

/-- An arriving write shares no burst with a queued row op, nor a row op's dest row a queued
write's. -/
def WritesApart (p : DRAMParams) (s : DRAMCtrl) : Act → Prop
  | .arrive pkt _ =>
    pkt.isWrite = true → ∀ d ∈ s.writeQueue,
      if pkt.isRowOp then d.isRowOp = false → p.burstAlign d.addr ≠ p.burstAlign pkt.rowOp.dest
      else d.isRowOp = true → ∀ i < dramPktCount p pkt,
        p.burstAlign d.addr ≠ (pkt.addr / p.burstSize + i) * p.burstSize
  | _ => True

lemma Indexed.writeStep (h : Indexed p s) {a : Act} (hstep : WriteStep p s a s')
    (hapart : WritesApart p s a) : Indexed p s' := by
  cases hstep with
  | quiet hsame => exact h.congr hsame.writeQueue hsame.isInWriteQueue
  | served hserved => exact h.served hserved
  | rowOp d hwrite hrow hd h₁ hnew h₂ =>
    have hrowOp : d.isRowOp = true := by rw [DRAMPacket.isRowOp, hd.rowOp]; rfl
    refine ((h.congr h₁.writeQueue h₁.isInWriteQueue).withRowOp hrowOp ?_).congr
      h₂.writeQueue h₂.isInWriteQueue
    intro hmem
    rw [h₁.isInWriteQueue, h.index, mem_toFinset, ordinaryBursts, mem_map] at hmem
    obtain ⟨q, hq, heq⟩ := hmem
    obtain ⟨hq, hordinary⟩ := mem_filter.mp hq
    have hne := hapart hwrite q hq
    rw [if_pos hrow] at hne
    exact hne (by simpa using hordinary) (by rw [heq, hd.addr])
  | @write pkt delay s₁ s₂ _ hwrite hrow h₁ hbursts h₂ =>
    -- along the loop the row ops on the queue stay those of the start
    have hloop : Indexed p s₂ ∧ ∀ q ∈ s₂.writeQueue, q.isRowOp = true → q ∈ s.writeQueue := by
      refine addWriteBursts_ok (P := fun s₂ => Indexed p s₂ ∧
        ∀ q ∈ s₂.writeQueue, q.isRowOp = true → q ∈ s.writeQueue) ?_ ⟨h.congr h₁.writeQueue
          h₁.isInWriteQueue, fun q hq _ => h₁.writeQueue ▸ hq⟩ hbursts
      rintro s₃ d i hi ⟨h₃, hrows⟩ hnew hd halign
      have hordinary : d.isRowOp = false := by rw [DRAMPacket.isRowOp, hd.rowOp]; rfl
      refine ⟨h₃.withWrite hordinary hnew fun q hq hqrow => ?_, fun q hq hqrow => ?_⟩
      · have hne := hapart hwrite q (hrows q hq hqrow)
        rw [hrow, if_neg Bool.false_ne_true] at hne
        rw [halign]
        exact hne hqrow i hi
      · rcases mem_snoc.mp hq with hq | rfl
        · exact hrows q hq hqrow
        · rw [hordinary] at hqrow
          cases hqrow
    exact hloop.1.congr h₂.writeQueue h₂.isInWriteQueue

lemma Run.indexed (h : Run p (WritesApart p) s) : Indexed p s := by
  induction h with
  | start t mem => exact ⟨rfl, nodup_nil, fun d hd => absurd hd not_mem_nil⟩
  | act _ _ hapart hperform ih => exact ih.writeStep (writeStep_perform hperform) hapart

/-- **The index of the write queue**: in every run whose writes and row ops keep apart, it holds
exactly the bursts of the ordinary packets, each once. -/
theorem isInWriteQueue_eq (hrun : Run p (WritesApart p) s) :
    s.isInWriteQueue = (s.ordinaryBursts p).toFinset ∧ (s.ordinaryBursts p).Nodup :=
  ⟨hrun.indexed.index, hrun.indexed.nodup⟩

def blank : AbstractMemory := ⟨0, 2 ^ 33 - 1, 0, fun _ => 0#8, []⟩

def writeBurst0 : Packet :=
  { cmd := .writeReq, req := (Request.virt 0 64 0#32 0).setPaddr 0, addr := 0, size := 64
    memInhibit := false, data := List.replicate 64 1#8, rowOp := ⟨.rowAnd, 0, 0, 0⟩ }

/-- The row at 0 takes the complement of the row at 8192. -/
def notRow0 : Packet :=
  .createRowOp ((Request.virt 0 32 (Request.uncacheable ||| Request.rowop) 0).setPaddr 0)
    ⟨.rowNot, 0, 8192, 0⟩

lemma Run.performOne {condition : DRAMCtrl → Act → Prop} {a : Act} (h : Run p condition s)
    (hs : performAll p s [a] = some s') (ha : condition s a) : Run p condition s' := by
  rw [performAll] at hs
  split_ifs at hs with hlegal
  split at hs
  · next s₁ hperform =>
    cases hs
    exact h.act hlegal.1 ha hperform
  · cases hs

/-- A write behind a row op of another row: both wait, the write is indexed. -/
theorem isInWriteQueue_eq_write : ∃ s : DRAMCtrl, s.writeQueue.map (·.isRowOp) = [true, false] ∧
      s.isInWriteQueue = (s.ordinaryBursts (.ddr3_1600_x64 .frfcfs)).toFinset ∧
      (s.ordinaryBursts (.ddr3_1600_x64 .frfcfs)).Nodup := by
  have hboth : (performAll (.ddr3_1600_x64 .frfcfs) (init (.ddr3_1600_x64 .frfcfs) 0 blank)
      [.arrive notRow0 0]).bind (fun s => (performAll (.ddr3_1600_x64 .frfcfs) s
        [.arrive { writeBurst0 with addr := 16384 } 0]).map fun s' =>
          (s.writeQueue.map (·.addr), s'.writeQueue.map (·.isRowOp))) =
      some ([0], [true, false]) := by decide +kernel
  obtain ⟨s, hs, hboth⟩ := Option.bind_eq_some_iff.mp hboth
  obtain ⟨s', hs', hqueues⟩ := Option.map_eq_some_iff.mp hboth
  obtain ⟨haddr, hrows⟩ := Prod.mk.inj hqueues
  have hrun : Run (.ddr3_1600_x64 .frfcfs) (WritesApart (.ddr3_1600_x64 .frfcfs)) s :=
    (Run.start 0 blank).performOne hs fun _ d hd => absurd hd not_mem_nil
  have hrun' : Run (.ddr3_1600_x64 .frfcfs) (WritesApart (.ddr3_1600_x64 .frfcfs)) s' := by
    refine hrun.performOne hs' fun _ d hd => ?_
    have hd : d.addr ∈ [0] := haddr ▸ mem_map_of_mem hd
    rw [mem_singleton.mp hd]
    exact fun _ => by decide
  exact ⟨s', hrows, isInWriteQueue_eq hrun'⟩

/-- A row op, a write of its dest row's first burst, the row op's issue, the write again. -/
def sharedBurst : List Act :=
  [.arrive notRow0 0, .arrive writeBurst0 0, .event .nextReq 0, .event .nextReq 0,
    .arrive writeBurst0 0]

/-- An event-queue-order run that leaves two writes of burst 0 on the queue. -/
def SharesBurst (policy : MemSched) : Prop :=
  ∃ s, performAll (.ddr3_1600_x64 policy) (init (.ddr3_1600_x64 policy) 0 blank)
    sharedBurst = some s ∧
    Run (.ddr3_1600_x64 policy) Ordered s ∧ s.ordinaryBursts (.ddr3_1600_x64 policy) = [0, 0]

lemma sharesBurst_of_bursts {policy : MemSched}
    (h : (performAll (.ddr3_1600_x64 policy) (init (.ddr3_1600_x64 policy) 0 blank) sharedBurst).map
      (fun s => s.ordinaryBursts (.ddr3_1600_x64 policy)) = some [0, 0]) : SharesBurst policy := by
  obtain ⟨s, hs, hbursts⟩ := Option.map_eq_some_iff.mp h
  exact ⟨s, hs, run_performAll (.start 0 blank) hs, hbursts⟩

/-- The second write is not merged, under either policy. -/
theorem isInWriteQueue_shared : SharesBurst .fcfs ∧ SharesBurst .frfcfs :=
  ⟨sharesBurst_of_bursts (by decide +kernel), sharesBurst_of_bursts (by decide +kernel)⟩

end DRAMCtrl

end ShifDram
