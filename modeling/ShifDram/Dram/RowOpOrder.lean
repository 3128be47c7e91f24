import ShifDram.Dram.Queues

/-!
Row ops go before reads.

While a row op waits, the bus turns to writes after at most one more read burst and does not turn
back before every row op has been issued.
-/

namespace ShifDram

open List

namespace DRAMCtrl

variable {p : DRAMParams} {s s' : DRAMCtrl} {n : ℕ} {d : DRAMPacket} {log : List Cmd} {k k' : ℕ}

def Cmd.isReadIssue : Cmd → Bool
  | .issue d => d.isRead
  | _ => false

def readsIn (log : List Cmd) : ℕ := log.countP Cmd.isReadIssue

lemma readsIn_eq_zero {new : List Cmd} (h : ∀ c ∈ new, Cmd.isIssue c = false) :
    readsIn new = 0 := by
  refine countP_eq_zero.mpr fun c hc => ?_
  have hissue := h c hc
  cases c <;> simp_all [Cmd.isReadIssue, Cmd.isIssue]

/-- Since row op `n`'s only entry, at most `k` read bursts. -/
def Since (log : List Cmd) (n k : ℕ) : Prop :=
  ∃ mid older, log = mid ++ .enqueueRowOp n :: older ∧ .enqueueRowOp n ∉ mid ∧
    .enqueueRowOp n ∉ older ∧ readsIn mid ≤ k

lemma Since.mono (h : Since log n k) (hk : k ≤ k') :
    Since log n k' := by
  obtain ⟨mid, older, hlog, hmid, holder, hreads⟩ := h
  exact ⟨mid, older, hlog, hmid, holder, hreads.trans hk⟩

lemma Since.append {k : ℕ} (h : Since log n k) (new : List Cmd)
    (hnew : .enqueueRowOp n ∉ new) : Since (new ++ log) n (readsIn new + k) := by
  obtain ⟨mid, older, rfl, hmid, holder, hreads⟩ := h
  refine ⟨new ++ mid, older, by rw [append_assoc], ?_, holder, ?_⟩
  · rw [mem_append, not_or]
    exact ⟨hnew, hmid⟩
  · rw [readsIn, countP_append]
    exact Nat.add_le_add_left hreads _

def Writing : BusState → Prop
  | .readToWrite | .write => True
  | .read | .writeToRead => False

/-- At most one read burst went first, none unless the bus is turning to writes. -/
def Waited (s : DRAMCtrl) (n : ℕ) : Prop := Since s.log n 0 ∨ Since s.log n 1 ∧ Writing s.busState

/-- Reads and writes are on their queues; row ops are counted, numbered, and have waited for at most
one read burst. -/
structure RowOpsFirst (s : DRAMCtrl) : Prop where
  reads : ∀ d ∈ s.readQueue, IsReadBurst d
  writes : ∀ d ∈ s.writeQueue, d.isRead = false
  count : s.pendingRowOps = s.writeQueue.countP DRAMPacket.isRowOp
  numbered : ∀ n, .enqueueRowOp n ∈ s.log → n < s.arrivals.length
  waiting : ∀ d ∈ s.writeQueue, d.isRowOp = true → Waited s d.pkt
  issued : ∀ newer d rest, s.log = newer ++ .issue d :: rest → d.isRowOp = true →
    Since rest d.pkt 1

lemma Waited.since (h : Waited s n) : Since s.log n 1 := by
  rcases h with h | h
  · exact h.mono (Nat.zero_le 1)
  · exact h.1

lemma exists_of_append_eq {new log newer rest : List Cmd} (hnew : ∀ c ∈ new, Cmd.isIssue c = false)
    (h : new ++ log = newer ++ .issue d :: rest) :
    ∃ newer', log = newer' ++ .issue d :: rest := by
  rcases append_eq_append_iff.mp h with ⟨l, -, hlog⟩ | ⟨l, hl, hrest⟩
  · exact ⟨l, hlog⟩
  · cases l with
    | nil => exact ⟨[], by exact hrest.symm⟩
    | cons c l =>
      obtain ⟨rfl, -⟩ := cons.inj hrest
      have hmem : Cmd.issue d ∈ new := hl ▸ mem_append_right _ mem_cons_self
      exact absurd (hnew _ hmem) (by simp [Cmd.isIssue])

section

variable (h : RowOpsFirst s)

include h

lemma RowOpsFirst.quiet (hsame : SameWrites s s') : RowOpsFirst s' := by
  obtain ⟨new, hlog, hnew⟩ := hsame.log
  have hnot : ∀ n, .enqueueRowOp n ∉ new := fun n hmem =>
    absurd (hnew _ hmem) (by simp [Cmd.isIssue])
  have hsince : ∀ {n k}, Since s.log n k → Since s'.log n k := by
    intro n k hk
    rw [hlog]
    exact (hk.append new (hnot n)).mono (by rw [readsIn_eq_zero hnew, zero_add])
  refine ⟨fun d hd => ?_, ?_, ?_, fun n hn => ?_, fun d hd hrow => ?_,
    fun newer d rest heq hrow => ?_⟩
  · rcases hsame.readQueue d hd with hd | hd
    · exact h.reads d hd
    · exact hd
  · rw [hsame.writeQueue]
    exact h.writes
  · rw [hsame.pendingRowOps, hsame.writeQueue]
    exact h.count
  · rw [hlog] at hn
    rcases mem_append.mp hn with hn | hn
    · exact absurd hn (hnot n)
    · exact (h.numbered n hn).trans_le hsame.arrivals
  · rw [hsame.writeQueue] at hd
    refine (h.waiting d hd hrow).imp hsince fun hw => ⟨hsince hw.1, ?_⟩
    rw [hsame.busState]
    exact hw.2
  · rw [hlog] at heq
    obtain ⟨newer', heq'⟩ := exists_of_append_eq hnew heq
    exact h.issued newer' d rest heq' hrow

lemma RowOpsFirst.withRowOp (hd : d.isRowOp = true) (hread : d.isRead = false)
    (hnew : .enqueueRowOp d.pkt ∉ s.log) (hnumber : d.pkt < s.arrivals.length) :
    RowOpsFirst (s.withRowOp d) := by
  refine ⟨h.reads, fun q hq => ?_, ?_, fun n hn => ?_, fun q hq hrow => ?_,
    fun newer q rest heq hrow => ?_⟩
  · rcases mem_snoc.mp hq with hq | rfl
    · exact h.writes q hq
    · exact hread
  · change s.pendingRowOps + 1 = ((s.writeQueue ++ [d]).countP DRAMPacket.isRowOp : ℕ)
    rw [countP_append, h.count]
    simp [hd]
  · rcases mem_cons.mp hn with hn | hn
    · obtain rfl := Cmd.enqueueRowOp.inj hn
      exact hnumber
    · exact h.numbered n hn
  · rcases mem_snoc.mp hq with hq | rfl
    · -- an older row op has another number
      have hne : q.pkt ≠ d.pkt := by
        intro heq
        obtain ⟨mid, older, hlog, -⟩ := (h.waiting q hq hrow).since
        exact hnew (by rw [hlog, heq]; simp)
      have hsince : ∀ {k}, Since s.log q.pkt k → Since (.enqueueRowOp d.pkt :: s.log) q.pkt k := by
        intro k hk
        refine (hk.append [.enqueueRowOp d.pkt] (by simpa using hne)).mono ?_
        simp [readsIn, Cmd.isReadIssue]
      exact (h.waiting q hq hrow).imp hsince fun hw => ⟨hsince hw.1, hw.2⟩
    · exact Or.inl ⟨[], s.log, rfl, not_mem_nil, hnew, le_rfl⟩
  · cases newer with
    | nil => cases heq
    | cons c newer => exact h.issued newer q rest (cons.inj heq).2 hrow

lemma RowOpsFirst.withWrite (hd : d.isRowOp = false) (hread : d.isRead = false) :
    RowOpsFirst (s.withWrite p d) := by
  refine ⟨h.reads, fun q hq => ?_, ?_, h.numbered, fun q hq hrow => ?_, h.issued⟩
  · rcases mem_snoc.mp hq with hq | rfl
    · exact h.writes q hq
    · exact hread
  · change s.pendingRowOps = ((s.writeQueue ++ [d]).countP DRAMPacket.isRowOp : ℕ)
    rw [countP_append, h.count]
    simp [hd]
  · rcases mem_snoc.mp hq with hq | rfl
    · exact h.waiting q hq hrow
    · rw [hd] at hrow
      cases hrow

omit h in
lemma Since.issue (h : Since log n k)
    (hk : (if d.isRead then 1 else 0) + k ≤ k') : Since (.issue d :: log) n k' := by
  refine (h.append [.issue d] (by simp)).mono ?_
  cases hread : d.isRead <;> simpa [readsIn, Cmd.isReadIssue, hread] using hk

lemma RowOpsFirst.issued_cons (hd : d.isRowOp = true → Since s.log d.pkt 1) {newer rest : List Cmd}
    {q : DRAMPacket} (heq : .issue d :: s.log = newer ++ .issue q :: rest)
    (hrow : q.isRowOp = true) : Since rest q.pkt 1 := by
  cases newer with
  | nil =>
    obtain ⟨hq, rfl⟩ := cons.inj heq
    obtain rfl := Cmd.issue.inj hq
    exact hd hrow
  | cons c newer => exact h.issued newer q rest (cons.inj heq).2 hrow

omit h in
lemma Waited.of_reading (h : Waited s n) (hturned : turned s.busState = .read) :
    Since s.log n 0 := by
  rcases h with h | ⟨-, hbus⟩
  · exact h
  · cases hstate : s.busState <;> rw [hstate] at hturned hbus
    · exact absurd hbus id
    · cases hturned
    · cases hturned
    · exact absurd hbus id

omit h in
lemma pos_of_waiting (h : s.pendingRowOps = s.writeQueue.countP DRAMPacket.isRowOp)
    (hd : d ∈ s.writeQueue) (hrow : d.isRowOp = true) : 0 < s.pendingRowOps := by
  rw [h]
  exact_mod_cast countP_pos_iff.mpr ⟨d, hd, hrow⟩

lemma RowOpsFirst.same (same : SameQueues s s')
    (hwaited : ∀ n, Waited s n → Since s.log n 0 ∨ Since s.log n 1 ∧ Writing s'.busState) :
    RowOpsFirst s' := by
  refine ⟨same.readQueue ▸ h.reads, same.writeQueue ▸ h.writes, ?_, ?_, fun q hq hrow => ?_, ?_⟩
  · rw [same.pendingRowOps, same.writeQueue, h.count]
  · rw [same.log, same.arrivals]
    exact h.numbered
  · rw [same.writeQueue] at hq
    rw [Waited, same.log]
    exact hwaited q.pkt (h.waiting q hq hrow)
  · rw [same.log]
    exact h.issued

lemma RowOpsFirst.issue (hread : ∀ q ∈ s'.readQueue, q ∈ s.readQueue)
    (hwrite : ∀ q ∈ s'.writeQueue, q ∈ s.writeQueue)
    (hcount : s'.pendingRowOps = s'.writeQueue.countP DRAMPacket.isRowOp)
    (harrivals : s'.arrivals = s.arrivals) (hlog : s'.log = .issue d :: s.log)
    (hd : d.isRowOp = true → Since s.log d.pkt 1) (hsince : ∀ n, Waited s n → Since s'.log n 1)
    (hbus : Writing s'.busState ∨ s'.pendingRowOps ≤ 0) : RowOpsFirst s' := by
  refine ⟨fun q hq => h.reads q (hread q hq), fun q hq => h.writes q (hwrite q hq), hcount,
    fun n hn => ?_, fun q hq hrow => Or.inr ⟨hsince _ (h.waiting q (hwrite q hq) hrow), ?_⟩,
    fun newer q rest heq hrow => h.issued_cons hd (hlog ▸ heq) hrow⟩
  · rw [hlog] at hn
    rw [harrivals]
    exact h.numbered n ((mem_cons.mp hn).resolve_left (by simp))
  · have hpos := pos_of_waiting hcount hq hrow
    exact hbus.resolve_right fun hle => absurd hpos (not_lt.mpr hle)

/-- **A request event**: a read goes before a waiting row op only if none has, and the bus turns; it
does not turn back while a row op waits. -/
lemma RowOpsFirst.served (hserved : Served p s s') : RowOpsFirst s' := by
  cases hserved with
  | stall same bus =>
    refine h.same same fun n hwaited => hwaited.imp_right fun hw => ⟨hw.1, ?_⟩
    have hbus := hw.2
    rcases bus with bus | bus <;> rw [bus]
    · exact hbus
    · cases hstate : s.busState <;> simp_all [Writing, turned]
  | idle same hturned bus =>
    exact h.same same fun n hwaited => Or.inl (hwaited.of_reading hturned)
  | read front back d t hturned hqueue same bus =>
    obtain ⟨hread, hop⟩ := h.reads d (hqueue ▸ mem_append_right _ mem_cons_self)
    have hrowOp : d.isRowOp = false := by rw [DRAMPacket.isRowOp, hop]; rfl
    refine h.issue (d := { d with readyTime := t }) (fun q hq => ?_) (fun q hq => ?_) ?_
      same.arrivals same.log (fun hd => absurd (hd.symm.trans hrowOp) (by simp)) (fun n hw => ?_) ?_
    · rw [same.readQueue] at hq
      exact hqueue ▸ ((sublist_cons_self d back).append_left front).mem hq
    · rwa [same.writeQueue] at hq
    · rw [same.pendingRowOps, same.writeQueue]
      simp only [hrowOp, Bool.false_eq_true, if_false]
      exact h.count
    · rw [same.log]
      exact (hw.of_reading hturned).issue (by simp [hread])
    · exact bus.imp (fun bus => by rw [bus]; trivial) (·.2)
  | write front back d t hturned hqueue same bus =>
    have hmem : d ∈ s.writeQueue := hqueue ▸ mem_append_right _ mem_cons_self
    have hread : d.isRead = false := h.writes d hmem
    refine h.issue (d := { d with readyTime := t }) (fun q hq => ?_) (fun q hq => ?_) ?_
      same.arrivals same.log (fun hd => (h.waiting d hmem hd).since) (fun n hw => ?_) ?_
    · rwa [same.readQueue] at hq
    · rw [same.writeQueue] at hq
      exact hqueue ▸ ((sublist_cons_self d back).append_left front).mem hq
    · rw [same.pendingRowOps, same.writeQueue]
      change (if d.isRowOp then s.pendingRowOps - 1 else s.pendingRowOps) =
        ((front ++ back).countP DRAMPacket.isRowOp : ℕ)
      rw [h.count, hqueue, countP_append, countP_append, countP_cons]
      cases hrow : d.isRowOp <;> simp
      omega
    · rw [same.log]
      exact hw.since.issue (by simp [hread])
    · exact bus.imp (fun bus => by rw [bus]; trivial) (·.2.le)

lemma RowOpsFirst.writeStep {a : Act} (hstep : WriteStep p s a s') : RowOpsFirst s' := by
  cases hstep with
  | quiet hsame => exact h.quiet hsame
  | served hserved => exact h.served hserved
  | rowOp d hwrite hrow hd h₁ hnew h₂ =>
    have hrowOp : d.isRowOp = true := by rw [DRAMPacket.isRowOp, hd.rowOp]; rfl
    refine ((h.quiet h₁).withRowOp hrowOp hd.isRead (fun hmem => ?_) ?_).quiet h₂
    · -- no packet has had this number yet
      obtain ⟨new, hlog, hissue⟩ := h₁.log
      rw [hlog] at hmem
      rcases mem_append.mp hmem with hmem | hmem
      · exact absurd (hissue _ hmem) (by simp [Cmd.isIssue])
      · have hlt := h.numbered _ hmem
        rw [hd.number] at hlt
        exact lt_irrefl _ hlt
    · rw [hd.number]
      exact hnew
  | write hwrite hrow h₁ hbursts h₂ =>
    refine RowOpsFirst.quiet ?_ h₂
    refine addWriteBursts_ok (P := RowOpsFirst) ?_ (h.quiet h₁) hbursts
    intro s₃ d i _ h₃ _ hd _
    exact h₃.withWrite (by rw [DRAMPacket.isRowOp, hd.rowOp]; rfl) hd.isRead

end

lemma Run.rowOpsFirst {condition : DRAMCtrl → Act → Prop} (h : Run p condition s) :
    RowOpsFirst s := by
  induction h with
  | start t mem =>
    refine ⟨?_, ?_, rfl, ?_, ?_, ?_⟩ <;> simp [init]
  | act _ _ _ hperform ih => exact ih.writeStep (writeStep_perform hperform)

/-- **Row ops go before reads.** In every run `pendingRowOps` counts the row ops on the write
queue; and at most one read burst has been issued since a row op that waits was enqueued, or had
been before one that was issued. -/
theorem pendingRowOps_eq_and_reads_le_one (hrun : Run p (fun _ _ => True) s) :
    s.pendingRowOps = s.writeQueue.countP DRAMPacket.isRowOp ∧
      (∀ d ∈ s.writeQueue, d.isRowOp = true → Since s.log d.pkt 1) ∧
      ∀ newer d rest, s.log = newer ++ .issue d :: rest → d.isRowOp = true → Since rest d.pkt 1 :=
  ⟨hrun.rowOpsFirst.count, fun d hd hrow => (hrun.rowOpsFirst.waiting d hd hrow).since,
    hrun.rowOpsFirst.issued⟩

def readBurst (addr : ℕ) : Packet :=
  { cmd := .readReq, req := (Request.virt addr 64 0#32 0).setPaddr addr, addr := addr, size := 64
    memInhibit := false, data := [], rowOp := ⟨.rowAnd, 0, 0, 0⟩ }

/-- Two reads and a row op; a request event issues a read, the next one the row op. -/
def readsThenRowOp : List Act :=
  [.arrive (readBurst 0) 0, .arrive (readBurst 64) 0,
    .arrive (.createRowOp ((Request.virt 0 32 (Request.uncacheable ||| Request.rowop) 0).setPaddr 0)
      ⟨.rowNot, 8192, 16384, 0⟩) 0,
    .event .nextReq 0, .event (.activate 0) 0, .event (.power 0) 0, .event .nextReq 5000]

/-- The row op overtakes the second read. -/
theorem rowOp_overtakes_read :
    ∃ s d rest, Run (.ddr3_1600_x64 .frfcfs) (fun _ _ => True) s ∧ s.log = .issue d :: rest ∧
      d.isRowOp = true ∧ s.readQueue.length = 1 ∧ Since rest d.pkt 1 := by
  have hlast : (performAll (.ddr3_1600_x64 .frfcfs)
      (init (.ddr3_1600_x64 .frfcfs) 0 ⟨0, 2 ^ 33 - 1, 0, fun _ => 0#8, []⟩) readsThenRowOp).map
      (fun s => (s.readQueue.length, s.log.head?.map fun c =>
        match c with
        | .issue d => d.isRowOp
        | _ => false)) = some (1, some true) := by decide +kernel
  obtain ⟨s, hs, hlast⟩ := Option.map_eq_some_iff.mp hlast
  obtain ⟨hreads, hhead⟩ := Prod.mk.inj hlast
  obtain ⟨c, hc, hrow⟩ := Option.map_eq_some_iff.mp hhead
  obtain ⟨rest, hlog⟩ := head?_eq_some_iff.mp hc
  have hrun : Run (.ddr3_1600_x64 .frfcfs) (fun _ _ => True) s :=
    (run_performAll (.start 0 _) hs).mono fun _ _ _ => trivial
  cases c with
  | issue d =>
    exact ⟨s, d, rest, hrun, hlog, hrow, hreads,
      (pendingRowOps_eq_and_reads_le_one hrun).2.2 [] d rest hlog hrow⟩
  | _ => cases hrow

end DRAMCtrl

end ShifDram
