import ShifDram.Dram.RowOpOrder

/-!
The bursts of the reads.

A burst of a read is found in the write queue on arrival, or goes through the read queue and the
response queue; the packet is answered with its last burst, which a shared counter tells.
-/

namespace ShifDram

open Fallible List Function

/-- The addresses of `cnt` bursts from `addr` on. -/
def DRAMParams.burstAddrs (p : DRAMParams) : ℕ → ℕ → List ℕ
  | 0, _ => []
  | cnt + 1, addr => addr :: p.burstAddrs cnt (p.nextBurst addr)

@[simp] lemma DRAMParams.length_burstAddrs (p : DRAMParams) (cnt addr : ℕ) :
    (p.burstAddrs cnt addr).length = cnt := by
  induction cnt generalizing addr with
  | zero => rfl
  | succ cnt ih => rw [burstAddrs, length_cons, ih]

lemma DRAMParams.lt_nextBurst (p : DRAMParams) (addr : ℕ) : addr < p.nextBurst addr := by
  rw [nextBurst, mul_comm]
  exact Nat.lt_mul_div_succ addr (Nat.two_pow_pos _)

lemma DRAMParams.le_of_mem_burstAddrs (p : DRAMParams) {cnt addr x : ℕ}
    (h : x ∈ p.burstAddrs cnt addr) : addr ≤ x := by
  induction cnt generalizing addr with
  | zero => cases h
  | succ cnt ih =>
    rcases mem_cons.mp h with rfl | h
    · exact le_rfl
    · exact (p.lt_nextBurst addr).le.trans (ih h)

lemma DRAMParams.nodup_burstAddrs (p : DRAMParams) (cnt addr : ℕ) :
    (p.burstAddrs cnt addr).Nodup := by
  induction cnt generalizing addr with
  | zero => exact nodup_nil
  | succ cnt ih =>
    refine nodup_cons.mpr ⟨fun h => ?_, ih _⟩
    exact absurd (p.le_of_mem_burstAddrs h) (not_le.mpr (p.lt_nextBurst addr))

namespace DRAMCtrl

def readBursts (p : DRAMParams) (pkt : Packet) : List ℕ :=
  p.burstAddrs (dramPktCount p pkt) pkt.addr

/-- The read bursts of packet `n`. -/
def burstsOf (p : DRAMParams) (arrivals : List Arrival) (n : ℕ) : List ℕ :=
  match arrivals[n]? with
  | some a => if a.pkt.isRead then readBursts p a.pkt else []
  | none => []

lemma burstsOf_append (p : DRAMParams) (arrivals : List Arrival) (a : Arrival) (n : ℕ) :
    burstsOf p (arrivals ++ [a]) n = if n = arrivals.length then
      (if a.pkt.isRead then readBursts p a.pkt else []) else burstsOf p arrivals n := by
  rw [burstsOf, burstsOf, List.getElem?_append]
  rcases lt_trichotomy n arrivals.length with h | rfl | h
  · rw [if_pos h, if_neg h.ne]
  · simp
  · rw [if_neg h.not_gt, if_neg h.ne', List.getElem?_eq_none h.le,
      List.getElem?_eq_none (by simp; omega)]

lemma burstsOf_of_le {p : DRAMParams} {arrivals : List Arrival} {n : ℕ} (h : arrivals.length ≤ n) :
    burstsOf p arrivals n = [] := by
  rw [burstsOf, List.getElem?_eq_none h]

lemma nodup_burstsOf (p : DRAMParams) (arrivals : List Arrival) (n : ℕ) :
    (burstsOf p arrivals n).Nodup := by
  rw [burstsOf]
  split
  · split_ifs
    · exact p.nodup_burstAddrs _ _
    · exact nodup_nil
  · exact nodup_nil

structure ReadSide where
  arrivals : List Arrival
  readQueue : List DRAMPacket
  respQueue : List DRAMPacket
  helpers : ℕ → Option BurstHelper
  log : List Cmd

def readSide (s : DRAMCtrl) : ReadSide := ⟨s.arrivals, s.readQueue, s.respQueue, s.helpers, s.log⟩

/-- A DRAM packet of the burst at `addr` of packet `n`. -/
def ofBurst (n addr : ℕ) (d : DRAMPacket) : Bool := d.pkt = n ∧ d.addr = addr

/-- A read of packet `n`'s burst at `addr` is issued. -/
def Cmd.issues (n addr : ℕ) : Cmd → Bool
  | .issue d => d.isRead && ofBurst n addr d
  | _ => false

/-- A burst of packet `n` is found, or heads the response queue. -/
def Cmd.serves (n : ℕ) : Cmd → Bool
  | .found m _ | .done m _ => m = n
  | _ => false

def Cmd.Neutral : Cmd → Prop
  | .accept _ | .enqueueRowOp _ => True
  | .issue d => d.isRead = false
  | _ => False

namespace ReadSide

variable {p : DRAMParams} {k : ReadSide} {n m addr serviced : ℕ} {d : DRAMPacket} {c : Cmd}
  {todo : List ℕ} {rest : List DRAMPacket} {helpers : ℕ → Option BurstHelper}

/-- The bursts of packet `n` in the two queues. -/
def outstanding (k : ReadSide) (n : ℕ) : ℕ := (k.readQueue ++ k.respQueue).countP (·.pkt = n)

/-- The bursts of packet `n` found or gone through the queues. -/
def served (k : ReadSide) (n : ℕ) : ℕ := k.log.countP (Cmd.serves n)

/-- What an entry rests on: a burst at the head was issued; an answered packet's bursts were found
or there. -/
def rests (p : DRAMParams) (arrivals : List Arrival) : Cmd → List Cmd → Prop
  | .respond n, older => ∀ addr ∈ burstsOf p arrivals n,
      .found n addr ∈ older ∨ .done n addr ∈ older
  | .done n addr, older => ∃ d, .issue d ∈ older ∧ d.isRead = true ∧ d.pkt = n ∧ d.addr = addr
  | _, _ => True

/-- Every burst, but for packet `m`'s to come, was found or enqueued; enqueued and is queued or
issued; issued and awaits its response or is done. -/
structure Tally (p : DRAMParams) (k : ReadSide) (m : ℕ) (todo : List ℕ) : Prop where
  entered : ∀ n addr, k.log.count (.found n addr) + k.log.count (.enqueue n addr) +
    (if n = m then todo.count addr else 0) = (burstsOf p k.arrivals n).count addr
  waiting : ∀ n addr, k.log.count (.enqueue n addr) =
    k.readQueue.countP (ofBurst n addr) + k.log.countP (Cmd.issues n addr)
  ready : ∀ n addr, k.log.countP (Cmd.issues n addr) =
    k.respQueue.countP (ofBurst n addr) + k.log.count (.done n addr)
  total : ∀ n, k.served n + k.outstanding n + (if n = m then todo.length else 0) =
    (burstsOf p k.arrivals n).length
  shared : ∀ d ∈ k.readQueue ++ k.respQueue,
    d.helper = decide (1 < (burstsOf p k.arrivals d.pkt).length)
  backed : Backed (rests p k.arrivals) k.log

/-- Packet `n` was answered once if none of its bursts is queued, else not at all; its counter is
right. -/
structure Answers (p : DRAMParams) (k : ReadSide) (n : ℕ) : Prop where
  respond : k.log.count (.respond n) =
    if n < k.arrivals.length ∧ k.outstanding n = 0 then 1 else 0
  helper : k.helpers n =
    if k.outstanding n ≠ 0 ∧ 1 < (burstsOf p k.arrivals n).length then
      some ⟨(burstsOf p k.arrivals n).length, k.served n⟩ else none

structure ReadInv (p : DRAMParams) (k : ReadSide) : Prop where
  tally : Tally p k 0 []
  answers : ∀ n, Answers p k n

/-- While packet `m` enters: `todo` are the bursts to come, `serviced` counts those found. -/
structure Entering (p : DRAMParams) (k : ReadSide) (m : ℕ) (todo : List ℕ) (serviced : ℕ) :
    Prop where
  last : k.arrivals.length = m + 1
  tally : Tally p k m todo
  others : ∀ n ≠ m, Answers p k n
  silent : k.log.count (.respond m) = 0
  helper : k.helpers m =
    if k.outstanding m ≠ 0 ∧ 1 < (burstsOf p k.arrivals m).length then
      some ⟨(burstsOf p k.arrivals m).length, 0⟩ else none
  served : k.served m = serviced

/-! ### Packets that enter -/

lemma Tally.mem_lt (h : Tally p k m todo) (hd : d ∈ k.readQueue ++ k.respQueue) :
    d.pkt < k.arrivals.length := by
  by_contra hle
  have hpos : 0 < k.outstanding d.pkt := countP_pos_iff.mpr ⟨d, hd, by simp⟩
  have htotal := h.total d.pkt
  rw [burstsOf_of_le (not_lt.mp hle), length_nil] at htotal
  omega

lemma Tally.neutral (h : Tally p k m todo) (hc : Cmd.Neutral c) :
    Tally p { k with log := c :: k.log } m todo := by
  obtain ⟨hentered, hwaiting, hready, htotal, hshared, hbacked⟩ := h
  cases c with
  | found | enqueue | done | respond => exact hc.elim
  | accept i | enqueueRowOp i =>
    refine ⟨fun n addr => ?_, fun n addr => ?_, fun n addr => ?_, fun n => ?_, hshared,
      hbacked.cons trivial⟩
    · simpa [count_cons] using hentered n addr
    · simpa [count_cons, Cmd.issues] using hwaiting n addr
    · simpa [count_cons, Cmd.issues] using hready n addr
    · simpa [served, outstanding, Cmd.serves] using htotal n
  | issue q =>
    have hq : q.isRead = false := hc
    refine ⟨fun n addr => ?_, fun n addr => ?_, fun n addr => ?_, fun n => ?_, hshared,
      hbacked.cons trivial⟩
    · simpa [count_cons] using hentered n addr
    · simpa [count_cons, Cmd.issues, hq] using hwaiting n addr
    · simpa [count_cons, Cmd.issues, hq] using hready n addr
    · simpa [served, outstanding, Cmd.serves] using htotal n

lemma Answers.neutral (h : Answers p k n) (hc : Cmd.Neutral c) :
    Answers p { k with log := c :: k.log } n := by
  have hcounts : ({ k with log := c :: k.log } : ReadSide).served n = k.served n ∧
      (c :: k.log).count (.respond n) = k.log.count (.respond n) := by
    cases c with
    | found | enqueue | done | respond => exact hc.elim
    | accept | enqueueRowOp | issue => simp [served, Cmd.serves]
  refine ⟨hcounts.2.trans h.respond, ?_⟩
  rw [hcounts.1]
  exact h.helper

lemma Entering.neutral (h : Entering p k m todo serviced) (hc : Cmd.Neutral c) :
    Entering p { k with log := c :: k.log } m todo serviced := by
  refine ⟨h.last, h.tally.neutral hc, fun n hn => (h.others n hn).neutral hc, ?_, h.helper, ?_⟩
  · rw [← h.silent]
    cases c with
    | found | enqueue | done | respond => exact hc.elim
    | accept | enqueueRowOp | issue => simp
  · rw [← h.served]
    cases c with
    | found | enqueue | done | respond => exact hc.elim
    | accept | enqueueRowOp | issue => simp [ReadSide.served, Cmd.serves]

lemma ReadInv.neutral (h : ReadInv p k) (hc : Cmd.Neutral c) :
    ReadInv p { k with log := c :: k.log } :=
  ⟨h.tally.neutral hc, fun n => (h.answers n).neutral hc⟩

/-- **A packet arrives**; if a read, its bursts are to be entered. -/
lemma ReadInv.accept (h : ReadInv p k) (a : Arrival) : Entering p
      { k with arrivals := k.arrivals ++ [a], log := .accept k.arrivals.length :: k.log }
      k.arrivals.length (if a.pkt.isRead then readBursts p a.pkt else []) 0 := by
  refine Entering.neutral (k := { k with arrivals := k.arrivals ++ [a] }) ?_ trivial
  -- nothing has been said yet about a packet with the new number
  have hnone : burstsOf p k.arrivals k.arrivals.length = [] := burstsOf_of_le le_rfl
  have htotal := h.tally.total k.arrivals.length
  have hanswer := h.answers k.arrivals.length
  rw [hnone] at htotal
  simp only [length_nil, ite_self] at htotal
  have hother : ∀ n ≠ k.arrivals.length,
      burstsOf p (k.arrivals ++ [a]) n = burstsOf p k.arrivals n := fun n hn => by
    rw [burstsOf_append, if_neg hn]
  refine ⟨by simp, ⟨fun n addr => ?_, h.tally.waiting, h.tally.ready, fun n => ?_,
    fun d hd => ?_, ?_⟩,
    fun n hn => ⟨?_, ?_⟩, ?_, ?_, ?_⟩
  · have hentered := h.tally.entered n addr
    simp only [count_nil, ite_self, add_zero] at hentered
    rw [burstsOf_append]
    by_cases hn : n = k.arrivals.length
    · rw [hn, hnone, count_nil] at hentered
      rw [if_pos hn, if_pos hn, hn, hentered, zero_add]
    · rw [if_neg hn, if_neg hn, add_zero, hentered]
  · rw [burstsOf_append]
    by_cases hn : n = k.arrivals.length
    · rw [if_pos hn, if_pos hn, hn]
      exact (congrArg (· + _) htotal).trans (zero_add _)
    · rw [if_neg hn, if_neg hn]
      exact (congrArg (_ + ·) (ite_self 0).symm).trans (h.tally.total n)
  · rw [hother _ (h.tally.mem_lt hd).ne]
    exact h.tally.shared d hd
  · refine h.tally.backed.mono fun c hc older hrests => ?_
    cases c with
    | respond n =>
      -- a packet that was answered is not the new one
      have hn : n ≠ k.arrivals.length := by
        rintro rfl
        have hpos := count_pos_iff.mpr hc
        rw [hanswer.respond] at hpos
        simp at hpos
      change ∀ addr ∈ burstsOf p (k.arrivals ++ [a]) n, _
      rw [hother n hn]
      exact hrests
    | _ => exact hrests
  · have hlt : n < (k.arrivals ++ [a]).length ↔ n < k.arrivals.length := by simp; omega
    rw [if_congr (and_congr_left' hlt) rfl rfl]
    exact (h.answers n).respond
  · simp only [hother n hn]
    exact (h.answers n).helper
  · rw [hanswer.respond]
    simp
  · refine hanswer.helper.trans ?_
    have hzero : k.outstanding k.arrivals.length = 0 := by omega
    rw [if_neg (fun hne => hne.1 hzero), if_neg (fun hne => hne.1 hzero)]
  · change k.served k.arrivals.length = 0
    omega

/-- **A burst is found in the write queue.** -/
lemma Entering.found (h : Entering p k m (addr :: todo) serviced) :
    Entering p { k with log := .found m addr :: k.log } m todo (serviced + 1) := by
  have hserved : ∀ n, ({ k with log := .found m addr :: k.log } : ReadSide).served n =
      k.served n + if m = n then 1 else 0 := fun n => by
    simp [ReadSide.served, countP_cons, Cmd.serves]
  refine ⟨h.last, ⟨fun n x => ?_, fun n x => ?_, fun n x => ?_, fun n => ?_, h.tally.shared,
    h.tally.backed.cons trivial⟩, fun n hn => ⟨?_, ?_⟩, ?_, h.helper, ?_⟩
  · have hentered := h.tally.entered n x
    change _ = (burstsOf p k.arrivals n).count x
    rw [← hentered]
    by_cases hn : n = m
    · subst hn
      simp only [count_cons, beq_iff_eq, Cmd.found.injEq, reduceCtorEq, if_false, true_and, if_true]
      omega
    · simp [Ne.symm hn, hn]
  · simpa [count_cons, Cmd.issues] using h.tally.waiting n x
  · simpa [count_cons, Cmd.issues] using h.tally.ready n x
  · have htotal := h.tally.total n
    rw [hserved]
    change k.served n + _ + k.outstanding n + _ = (burstsOf p k.arrivals n).length
    rw [← htotal, length_cons]
    by_cases hn : n = m
    · rw [if_pos hn.symm, if_pos hn, if_pos hn]
      omega
    · rw [if_neg (Ne.symm hn), if_neg hn, if_neg hn]
      omega
  · refine Eq.trans ?_ (h.others n hn).respond
    simp
  · rw [hserved, if_neg hn.symm]
    exact (h.others n hn).helper
  · simpa using h.silent
  · rw [hserved, if_pos rfl, h.served]

/-- **A burst is queued**; a split packet has its counter from then on. -/
lemma Entering.enqueue
    (h : Entering p k m (addr :: todo) serviced) (hpkt : d.pkt = m) (haddr : d.addr = addr)
    (hshared : d.helper = decide (1 < (burstsOf p k.arrivals m).length))
    (hhelper : helpers m = if 1 < (burstsOf p k.arrivals m).length then
      some ⟨(burstsOf p k.arrivals m).length, 0⟩ else none)
    (hothers : ∀ n ≠ m, helpers n = k.helpers n) :
    Entering p { k with
        readQueue := k.readQueue ++ [d], helpers := helpers, log := .enqueue m addr :: k.log }
      m todo serviced := by
  subst hpkt haddr
  have hout : ∀ n, ({ k with
      readQueue := k.readQueue ++ [d], helpers := helpers,
      log := .enqueue d.pkt d.addr :: k.log } : ReadSide).outstanding n =
      k.outstanding n + if d.pkt = n then 1 else 0 := fun n => by
    simp only [outstanding, countP_append, countP_singleton, decide_eq_true_eq]
    omega
  have hserved : ∀ n, ({ k with
      readQueue := k.readQueue ++ [d], helpers := helpers,
      log := .enqueue d.pkt d.addr :: k.log } : ReadSide).served n = k.served n := fun n => by
    simp [ReadSide.served, Cmd.serves]
  refine ⟨h.last, ⟨fun n x => ?_, fun n x => ?_, fun n x => ?_, fun n => ?_, fun q hq => ?_,
    h.tally.backed.cons trivial⟩, fun n hn => ⟨?_, ?_⟩, ?_, ?_, ?_⟩
  · have hentered := h.tally.entered n x
    change _ = (burstsOf p k.arrivals n).count x
    rw [← hentered]
    by_cases hn : n = d.pkt
    · subst hn
      simp only [count_cons, beq_iff_eq, Cmd.enqueue.injEq, reduceCtorEq, if_false, true_and,
        if_true]
      omega
    · simp [Ne.symm hn, hn]
  · have hwaiting := h.tally.waiting n x
    simp only [count_cons, countP_cons, countP_append, countP_nil, beq_iff_eq,
      Cmd.enqueue.injEq, Cmd.issues, ofBurst, decide_eq_true_eq, Bool.false_eq_true, if_false]
    omega
  · simpa [count_cons, Cmd.issues] using h.tally.ready n x
  · have htotal := h.tally.total n
    rw [hout, hserved]
    change _ = (burstsOf p k.arrivals n).length
    rw [← htotal, length_cons]
    by_cases hn : n = d.pkt
    · rw [if_pos hn.symm, if_pos hn, if_pos hn]
      omega
    · rw [if_neg (Ne.symm hn), if_neg hn, if_neg hn]
      omega
  · rw [append_assoc, mem_append, singleton_append, mem_cons] at hq
    rcases hq with hq | rfl | hq
    · exact h.tally.shared q (mem_append_left _ hq)
    · exact hshared
    · exact h.tally.shared q (mem_append_right _ hq)
  · rw [hout, if_neg hn.symm]
    simpa using (h.others n hn).respond
  · rw [hout, if_neg hn.symm]
    refine (hothers n hn).trans ?_
    exact (h.others n hn).helper
  · simpa using h.silent
  · rw [hout, if_pos rfl]
    simpa using hhelper
  · rw [hserved, h.served]

lemma Tally.respond (h : Tally p k m []) (hout : k.outstanding n = 0) :
    Tally p { k with log := .respond n :: k.log } 0 [] := by
  have hrests : rests p k.arrivals (.respond n) k.log := by
    intro addr haddr
    have hpos := count_pos_iff.mpr haddr
    have hentered := h.entered n addr
    have hwaiting := h.waiting n addr
    have hready := h.ready n addr
    simp only [count_nil, ite_self, add_zero] at hentered
    -- a burst in a queue would be outstanding
    have hno : ∀ l : List DRAMPacket, (∀ q ∈ l, q ∈ k.readQueue ++ k.respQueue) →
        l.countP (ofBurst n addr) = 0 := by
      refine fun l hl => countP_eq_zero.mpr fun q hq hburst => ?_
      have hne := countP_eq_zero.mp hout q (hl q hq)
      exact hne (decide_eq_true (of_decide_eq_true hburst).1)
    have hread := hno k.readQueue fun q => mem_append_left _
    have hresp := hno k.respQueue fun q => mem_append_right _
    by_cases hfound : .found n addr ∈ k.log
    · exact Or.inl hfound
    · refine Or.inr (count_pos_iff.mp ?_)
      have hzero := count_eq_zero.mpr hfound
      omega
  refine ⟨fun n x => ?_, fun n x => ?_, fun n x => ?_, fun n => ?_, h.shared, h.backed.cons hrests⟩
  · simpa [count_cons] using h.entered n x
  · simpa [count_cons, Cmd.issues] using h.waiting n x
  · simpa [count_cons, Cmd.issues] using h.ready n x
  · simpa [served, outstanding, Cmd.serves] using h.total n

lemma Answers.respond_of_ne (h : Answers p k n) (hn : n ≠ m) :
    Answers p { k with log := .respond m :: k.log } n := by
  refine ⟨Eq.trans ?_ h.respond, ?_⟩
  · simp [Ne.symm hn]
  · simpa [served, outstanding, Cmd.serves] using h.helper

/-- **Every burst was found**, or there is none: the packet is answered. -/
lemma Entering.respond (h : Entering p k m [] serviced) (hout : k.outstanding m = 0) :
    ReadInv p { k with log := .respond m :: k.log } := by
  refine ⟨h.tally.respond hout, fun n => ?_⟩
  by_cases hn : n = m
  · subst hn
    refine ⟨?_, ?_⟩
    · change (Cmd.respond n :: k.log).count (.respond n) =
        if n < k.arrivals.length ∧ k.outstanding n = 0 then 1 else 0
      rw [count_cons_self, h.silent, if_pos ⟨by rw [h.last]; omega, hout⟩]
    · refine h.helper.trans ?_
      rw [if_neg (fun hne => hne.1 hout)]
      exact (if_neg (fun hne => hne.1 hout)).symm
  · exact (h.others n hn).respond_of_ne hn

/-- **A burst waits**: the counter starts with the bursts found. -/
lemma Entering.wait (h : Entering p k m [] serviced) (hout : k.outstanding m ≠ 0) : ReadInv p
      { k with
        helpers := update k.helpers m
          ((k.helpers m).map fun helper => { helper with burstsServiced := serviced }) } := by
  refine ⟨{ h.tally with entered := fun n x => ?_, total := fun n => ?_ }, fun n => ?_⟩
  · simpa using h.tally.entered n x
  · simpa [ReadSide.served, outstanding] using h.tally.total n
  · by_cases hn : n = m
    · subst hn
      refine ⟨?_, ?_⟩
      · rw [if_neg (fun hand => hout hand.2)]
        exact h.silent
      · refine (update_self _ _ _).trans ?_
        by_cases hsplit : k.outstanding n ≠ 0 ∧ 1 < (burstsOf p k.arrivals n).length
        · rw [h.helper, if_pos hsplit, ← h.served]
          exact (if_pos hsplit).symm
        · rw [h.helper, if_neg hsplit]
          exact (if_neg hsplit).symm
    · refine ⟨(h.others n hn).respond, ?_⟩
      exact (update_of_ne hn _ _).trans (h.others n hn).helper

/-! ### Bursts that go through the queues -/

/-- **A burst is issued** and moves to the response queue. -/
lemma ReadInv.issue {front back : List DRAMPacket} {t : ℕ} (h : ReadInv p k)
    (hqueue : k.readQueue = front ++ d :: back) (hread : d.isRead = true) :
    ReadInv p { k with
        readQueue := front ++ back
        respQueue := k.respQueue ++ [{ d with readyTime := t }]
        log := .issue { d with readyTime := t } :: k.log } := by
  have hout : ∀ n, (front ++ back ++ (k.respQueue ++ [{ d with readyTime := t }])).countP
      (fun q : DRAMPacket => q.pkt = n) = k.outstanding n := fun n => by
    simp only [outstanding, hqueue, countP_append, countP_cons, countP_nil]
    omega
  have hserved : ∀ n, ((Cmd.issue { d with readyTime := t } :: k.log).countP (Cmd.serves n)) =
      k.served n := fun n => by
    simp [served, Cmd.serves]
  refine ⟨⟨fun n x => ?_, fun n x => ?_, fun n x => ?_, fun n => ?_, fun q hq => ?_,
    h.tally.backed.cons trivial⟩, fun n => ⟨?_, ?_⟩⟩
  · simpa [count_cons] using h.tally.entered n x
  · have hwaiting := h.tally.waiting n x
    simp only [hqueue, count_cons, countP_append, countP_cons, Cmd.issues, ofBurst,
      hread, Bool.true_and, beq_iff_eq, reduceCtorEq, if_false, decide_eq_true_eq] at hwaiting ⊢
    omega
  · have hready := h.tally.ready n x
    simp only [count_cons, countP_append, countP_cons, countP_nil, Cmd.issues,
      ofBurst, hread, Bool.true_and, beq_iff_eq, reduceCtorEq, if_false, decide_eq_true_eq]
      at hready ⊢
    omega
  · refine Eq.trans ?_ (h.tally.total n)
    exact congrArg₂ (· + · + _) (hserved n) (hout n)
  · rw [← append_assoc, mem_append, mem_singleton] at hq
    have hmem : ∀ q ∈ front ++ back ++ k.respQueue, q ∈ k.readQueue ++ k.respQueue := by
      intro q hq
      rw [hqueue]
      simp only [mem_append, mem_cons] at hq ⊢
      tauto
    rcases hq with hq | rfl
    · exact h.tally.shared q (hmem q hq)
    · exact h.tally.shared d (by rw [hqueue]; simp)
  · refine Eq.trans ?_ (h.answers n).respond |>.trans ?_
    · simp
    · exact if_congr (and_congr_right' (by rw [← hout n]; rfl)) rfl rfl
  · refine (h.answers n).helper.trans ?_
    rw [← hout n, ← hserved n]
    rfl

lemma ReadInv.outstanding_pos (hqueue : k.respQueue = d :: rest) : 0 < k.outstanding d.pkt :=
  countP_pos_iff.mpr ⟨d, by rw [hqueue]; simp, by simp⟩

/-- The counts when the head of the response queue is done. -/
lemma Tally.done (h : Tally p k 0 []) (hqueue : k.respQueue = d :: rest) : Tally p { k with
        respQueue := rest, helpers := helpers, log := .done d.pkt d.addr :: k.log } 0 [] := by
  refine ⟨fun n x => ?_, fun n x => ?_, fun n x => ?_, fun n => ?_, fun q hq => ?_,
    h.backed.cons ?_⟩
  · simpa [count_cons] using h.entered n x
  · simpa [count_cons, Cmd.issues] using h.waiting n x
  · have hready := h.ready n x
    simp only [hqueue, count_cons, countP_cons, Cmd.issues, ofBurst, beq_iff_eq,
      Cmd.done.injEq, decide_eq_true_eq, Bool.false_eq_true, if_false] at hready ⊢
    omega
  · have htotal := h.total n
    simp only [served, outstanding, hqueue, countP_append, countP_cons, Cmd.serves,
      decide_eq_true_eq] at htotal ⊢
    omega
  · refine h.shared q ?_
    rw [hqueue]
    simp only [mem_append, mem_cons] at hq ⊢
    tauto
  · -- the burst is on the response queue, so it was issued
    have hready := h.ready d.pkt d.addr
    have hpos : 0 < k.respQueue.countP (ofBurst d.pkt d.addr) :=
      countP_pos_iff.mpr ⟨d, by rw [hqueue]; simp, by simp [ofBurst]⟩
    obtain ⟨c, hc, hissues⟩ := countP_pos_iff.mp (hready ▸ Nat.lt_add_right _ hpos)
    cases c with
    | issue q =>
      simp only [Cmd.issues, ofBurst, Bool.and_eq_true, decide_eq_true_eq] at hissues
      exact ⟨q, hc, hissues.1, hissues.2.1, hissues.2.2⟩
    | _ => cases hissues

def withDone (k : ReadSide) (d : DRAMPacket) (rest : List DRAMPacket)
    (helpers : ℕ → Option BurstHelper) : ReadSide :=
  { k with respQueue := rest, helpers := helpers, log := .done d.pkt d.addr :: k.log }

lemma outstanding_withDone (helpers : ℕ → Option BurstHelper)
    (hqueue : k.respQueue = d :: rest) (n : ℕ) :
    k.outstanding n = (k.withDone d rest helpers).outstanding n + if d.pkt = n then 1 else 0 := by
  simp only [outstanding, withDone, hqueue, countP_append, countP_cons, decide_eq_true_eq]
  omega

lemma served_withDone (k : ReadSide) (d : DRAMPacket) (rest : List DRAMPacket)
    (helpers : ℕ → Option BurstHelper) (n : ℕ) :
    (k.withDone d rest helpers).served n = k.served n + if d.pkt = n then 1 else 0 := by
  simp [served, withDone, countP_cons, Cmd.serves]

lemma Answers.done_of_ne (h : Answers p k n) (hqueue : k.respQueue = d :: rest) (hn : n ≠ d.pkt)
    (hhelpers : helpers n = k.helpers n) : Answers p (k.withDone d rest helpers) n := by
  have hout := outstanding_withDone helpers hqueue n
  have hserved := served_withDone k d rest helpers n
  rw [if_neg hn.symm, add_zero] at hout hserved
  refine ⟨?_, ?_⟩
  · rw [← hout]
    refine Eq.trans ?_ h.respond
    simp [withDone]
  · rw [← hout, hserved]
    exact hhelpers.trans h.helper

/-- **A packet's last burst is done**: it is answered. -/
lemma ReadInv.finish_last
    (h : ReadInv p k) (hqueue : k.respQueue = d :: rest) (hlast : k.outstanding d.pkt = 1)
    (hnone : helpers d.pkt = none) (hothers : ∀ n ≠ d.pkt, helpers n = k.helpers n) :
    ReadInv p { k.withDone d rest helpers with
      log := .respond d.pkt :: (k.withDone d rest helpers).log } := by
  have hout := outstanding_withDone helpers hqueue d.pkt
  rw [if_pos rfl, hlast] at hout
  have hzero : (k.withDone d rest helpers).outstanding d.pkt = 0 := by omega
  refine ⟨(h.tally.done hqueue).respond hzero, fun n => ?_⟩
  by_cases hn : n = d.pkt
  · subst hn
    have hlt : d.pkt < k.arrivals.length := h.tally.mem_lt (d := d) (by rw [hqueue]; simp)
    have hrespond := (h.answers d.pkt).respond
    rw [if_neg (fun hand => by omega)] at hrespond
    refine ⟨?_, hnone.trans (if_neg fun hand => hand.1 hzero).symm⟩
    refine Eq.trans ?_ (if_pos ⟨hlt, hzero⟩).symm
    simpa [withDone] using hrespond
  · exact ((h.answers n).done_of_ne hqueue hn (hothers n hn)).respond_of_ne hn

/-- **A burst with more to come is done**: the counter goes on. -/
lemma ReadInv.finish_more (h : ReadInv p k)
    (hqueue : k.respQueue = d :: rest) (hmore : k.outstanding d.pkt ≠ 1) :
    ReadInv p (k.withDone d rest (Function.update k.helpers d.pkt
      (some ⟨(burstsOf p k.arrivals d.pkt).length, k.served d.pkt + 1⟩))) := by
  generalize hhelpers : update k.helpers d.pkt
    (some ⟨(burstsOf p k.arrivals d.pkt).length, k.served d.pkt + 1⟩) = helpers
  have hout := outstanding_withDone helpers hqueue d.pkt
  rw [if_pos rfl] at hout
  refine ⟨h.tally.done hqueue, fun n => ?_⟩
  by_cases hn : n = d.pkt
  · subst hn
    have htotal := h.tally.total d.pkt
    have hrespond := (h.answers d.pkt).respond
    rw [if_neg (fun hand => by omega)] at hrespond
    refine ⟨?_, ?_⟩
    · rw [if_neg (fun hand => by omega)]
      simpa [withDone] using hrespond
    · have hsplit : (k.withDone d rest helpers).outstanding d.pkt ≠ 0 ∧
          1 < (burstsOf p k.arrivals d.pkt).length := by
        omega
      refine Eq.trans ?_ (if_pos hsplit).symm
      rw [served_withDone, if_pos rfl]
      change helpers d.pkt = _
      rw [← hhelpers, update_self]
      rfl
  · refine (h.answers n).done_of_ne hqueue hn ?_
    rw [← hhelpers, update_of_ne hn]

end ReadSide

/-! ### The functions of the controller -/

open ReadSide

variable {p : DRAMParams} {s s' : DRAMCtrl} {n m : ℕ} {d : DRAMPacket} {pkt : Packet} {k : ReadSide}
  {pktCount : ℕ} {delay : ℕ}

lemma withHelper_self {c : Prop} [Decidable c]
    (h : s.helpers n = if c ∧ 1 < pktCount then some ⟨pktCount, 0⟩ else none) :
    s.withHelper n pktCount n = if 1 < pktCount then some ⟨pktCount, 0⟩ else none := by
  rw [withHelper]
  by_cases hmake : 1 < pktCount ∧ s.helpers n = none
  · rw [if_pos hmake, update_self, if_pos hmake.1]
  · rw [if_neg hmake, h]
    by_cases hsplit : 1 < pktCount
    · -- it has been made before
      have hc : c := by_contra fun hc => hmake ⟨hsplit, by rw [h, if_neg fun hand => hc hand.1]⟩
      rw [if_pos ⟨hc, hsplit⟩, if_pos hsplit]
    · rw [if_neg fun hand => hsplit hand.2, if_neg hsplit]

lemma withHelper_of_ne (s : DRAMCtrl) (pktCount : ℕ) (hne : n ≠ m) :
    s.withHelper m pktCount n = s.helpers n := by
  rw [withHelper]
  split_ifs
  · exact update_of_ne hne _ _
  · rfl

lemma entering_withRead {serviced : ℕ} {todo : List ℕ}
    (hs : Entering p s.readSide d.pkt (d.addr :: todo) serviced) :
    Entering p (s.withRead (burstsOf p s.arrivals d.pkt).length d).readSide d.pkt todo
      serviced := by
  have hhelper : s.withHelper d.pkt (burstsOf p s.arrivals d.pkt).length d.pkt = _ :=
    withHelper_self hs.helper
  refine hs.enqueue (d := { d with
    helper := (s.withHelper d.pkt (burstsOf p s.arrivals d.pkt).length d.pkt).isSome }) rfl rfl ?_
    hhelper fun n hn => withHelper_of_ne s _ hn
  change (s.withHelper d.pkt (burstsOf p s.arrivals d.pkt).length d.pkt).isSome =
    decide (1 < (burstsOf p s.arrivals d.pkt).length)
  rw [hhelper]
  split_ifs with hsplit
  · rw [decide_eq_true hsplit]
    rfl
  · rw [decide_eq_false hsplit]
    rfl

lemma readInv_addToReadQueue (h : s.addToReadQueue p m pkt (dramPktCount p pkt) = .ok s')
    (hs : Entering p s.readSide m (readBursts p pkt) 0)
    (hbursts : burstsOf p s.arrivals m = readBursts p pkt) :
    ReadInv p s'.readSide ∧ s'.arrivals = s.arrivals := by
  have hcount : (burstsOf p s.arrivals m).length = dramPktCount p pkt := by
    rw [hbursts, readBursts, DRAMParams.length_burstAddrs]
  obtain ⟨s₁, serviced, hloop, chan, -, hend⟩ := addToReadQueue_ok h
  -- along the loop the bursts to come are still to be entered
  obtain ⟨addr, h₁, harrivals⟩ := (meets_addReadBursts (P := fun _ => True)
    (Q := fun cnt addr s₁ k =>
    Entering p s₁.readSide m (p.burstAddrs cnt addr) k ∧ s₁.arrivals = s.arrivals) trivial
    (fun _ _ _ _ _ _ => trivial) (fun _ _ _ _ h₁ => ⟨h₁.1.found, h₁.2⟩)
    (fun cnt s₁ k d h₁ hd => ⟨by
      obtain rfl := hd.number
      have hnext := entering_withRead h₁.1
      rwa [h₁.2, hcount] at hnext, h₁.2⟩) ⟨hs, rfl⟩).result hloop
  dsimp only at h₁ harrivals
  -- what was not found is in the read queue
  have htotal : serviced + s₁.readSide.outstanding m = dramPktCount p pkt := by
    have htotal := h₁.tally.total m
    rw [h₁.served] at htotal
    rw [← hcount, ← harrivals]
    simpa [readSide] using htotal
  rcases hend with ⟨hall, mem, rfl⟩ | ⟨hall, rfl⟩
  · exact ⟨h₁.respond (by omega), harrivals⟩
  · exact ⟨h₁.wait (by omega), harrivals⟩

lemma ReadSide.Entering.respond_nil (h : Entering p k m [] 0)
    (hbursts : burstsOf p k.arrivals m = []) : ReadInv p { k with log := .respond m :: k.log } := by
  have htotal := h.tally.total m
  rw [hbursts, length_nil] at htotal
  exact h.respond (by omega)

lemma readInv_addToWriteQueue
    (h : s.addToWriteQueue p m pkt pktCount = .ok s') (hs : Entering p s.readSide m [] 0)
    (hbursts : burstsOf p s.arrivals m = []) : ReadInv p s'.readSide := by
  obtain ⟨s₁, chan, mem, rfl, -, hqueue⟩ := addToWriteQueue_ok h
  have h₁ : Entering p s₁.readSide m [] 0 ∧ s₁.arrivals = s.arrivals := by
    rcases hqueue with ⟨-, d, -, -, rfl⟩ | ⟨-, hqueue⟩
    · exact ⟨hs.neutral (c := .enqueueRowOp d.pkt) trivial, rfl⟩
    · exact addWriteBursts_ok
        (P := fun s₁ => Entering p s₁.readSide m [] 0 ∧ s₁.arrivals = s.arrivals)
        (fun _ _ _ _ h _ _ _ => h) ⟨hs, rfl⟩ hqueue
  refine h₁.1.respond_nil ?_
  change burstsOf p s₁.arrivals m = []
  rw [h₁.2, hbursts]

lemma burstsOf_accept (s : DRAMCtrl) (pkt : Packet) (delay : ℕ) :
    burstsOf p (s.accept pkt delay).arrivals s.arrivals.length =
      if pkt.isRead then readBursts p pkt else [] := by
  rw [accept, burstsOf_append, if_pos rfl]

section

variable (hs : ReadInv p s.readSide)

include hs

lemma readInv_received {accepted : Bool} (h : Received p s pkt delay s' accepted) :
    ReadInv p s'.readSide := by
  have haccept : Entering p (s.accept pkt delay).readSide s.arrivals.length _ 0 :=
    hs.accept ⟨pkt, delay⟩
  have hbursts := burstsOf_accept (p := p) s pkt delay
  cases h with
  | dropped | refused => exact hs
  | read hread hroom hadd =>
    simp only [if_pos hread] at haccept hbursts
    exact (readInv_addToReadQueue hadd haccept hbursts).1
  | write hread hwrite hsize hroom hadd =>
    simp only [if_neg hread] at haccept hbursts
    exact readInv_addToWriteQueue hadd haccept hbursts
  | other hread chan mem =>
    simp only [if_neg hread] at haccept hbursts
    exact haccept.respond_nil hbursts

lemma readInv_finishBurst {rest : List DRAMPacket} (hqueue : s.respQueue = d :: rest)
    (h : s.finishBurst p d = .ok s') : ReadInv p { s'.readSide with respQueue := rest } := by
  have hpos : 0 < s.readSide.outstanding d.pkt := ReadInv.outstanding_pos hqueue
  have htotal := hs.tally.total d.pkt
  have hshared := hs.tally.shared d (by change d ∈ s.readQueue ++ s.respQueue; rw [hqueue]; simp)
  have hhelper := (hs.answers d.pkt).helper
  simp only [length_nil, ite_self, add_zero] at htotal
  rw [finishBurst] at h
  by_cases hno : (!d.helper) = true
  · -- the only burst of its packet
    rw [if_pos hno] at h
    rw [Bool.not_eq_true', hshared, decide_eq_false_iff_not] at hno
    obtain ⟨chan, mem, rfl, -⟩ := accessAndRespond_ok h
    refine hs.finish_last hqueue (by omega) ?_ fun n _ => rfl
    exact hhelper.trans (if_neg fun hand => hno hand.2)
  · have hsplit : 1 < (burstsOf p s.readSide.arrivals d.pkt).length := by
      rw [Bool.not_eq_true', Bool.not_eq_false, hshared] at hno
      exact of_decide_eq_true hno
    have hsome : s.helpers d.pkt = some ⟨_, _⟩ := hhelper.trans (if_pos ⟨hpos.ne', hsplit⟩)
    simp only [hsome] at h
    split_ifs at h with hlast
    · obtain ⟨s₁, hrespond, rfl⟩ := map_ok h
      have hnone : update s.helpers d.pkt none d.pkt = none := update_self _ _ _
      have hfinish := hs.finish_last hqueue (by omega) hnone fun n hn => update_of_ne hn _ _
      obtain ⟨chan, mem, rfl, -⟩ := accessAndRespond_ok hrespond
      exact hfinish
    · cases h
      exact hs.finish_more hqueue (by omega)

omit hs in
lemma SameQueues.readSide (h : SameQueues s s') : s'.readSide = s.readSide := by
  rw [DRAMCtrl.readSide, h.arrivals, h.readQueue, h.respQueue, h.helpers, h.log]
  rfl

lemma readInv_served (hfirst : RowOpsFirst s) (h : Served p s s') : ReadInv p s'.readSide := by
  cases h with
  | stall same bus => exact same.readSide ▸ hs
  | idle same hturned bus => exact same.readSide ▸ hs
  | read front back d t hturned hqueue same bus =>
    rw [same.readSide]
    exact hs.issue hqueue (hfirst.reads d (by rw [hqueue]; simp)).1
  | write front back d t hturned hqueue same bus =>
    rw [same.readSide]
    exact hs.neutral (c := .issue { d with readyTime := t })
      (hfirst.writes d (by rw [hqueue]; simp))

lemma readInv_perform {a : Act} (hfirst : RowOpsFirst s) (h : s.perform p a = .ok s') :
    ReadInv p s'.readSide := by
  cases perform_ok h with
  | arrive hrecv => exact readInv_received hs hrecv
  | request hserved => exact readInv_served hs hfirst hserved
  | @respond t _ hrespond =>
    obtain ⟨d, rest, s₁, chan, drain, hqueue, hfinish, rfl, -⟩ := processRespondEvent_ok hrespond
    exact readInv_finishBurst (s := s.takeEvent .respond t) hs hqueue hfinish
  | aside => exact hs

omit hs in
lemma Run.readInv {condition : DRAMCtrl → Act → Prop} (h : Run p condition s) :
    ReadInv p s.readSide := by
  induction h with
  | start t mem =>
    refine ⟨⟨?_, ?_, ?_, ?_, ?_, trivial⟩, fun n => ⟨?_, ?_⟩⟩ <;>
      simp [init, readSide, burstsOf, outstanding, served]
  | act hrun _ _ hperform ih => exact readInv_perform ih hrun.rowOpsFirst hperform

lemma arrivals_recvTimingReq (hread : pkt.isRead = true) (hinhibit : pkt.memInhibit = false)
    (h : s.recvTimingReq p pkt delay = .ok (s', true)) :
    s'.arrivals = s.arrivals ++ [⟨pkt, delay⟩] := by
  have hclean : pkt.cmd ≠ .cleanEvict := by
    intro hcmd
    rw [Packet.isRead, hcmd] at hread
    cases hread
  cases recvTimingReq_ok h with
  | dropped hdrop =>
    rw [hinhibit] at hdrop
    exact absurd hdrop (by simp [hclean])
  | read _ _ hadd =>
    have haccept := hs.accept ⟨pkt, delay⟩
    have hbursts := burstsOf_accept (p := p) s pkt delay
    simp only [if_pos hread] at haccept hbursts
    exact (readInv_addToReadQueue hadd haccept hbursts).2
  | write hnot => exact absurd hread hnot
  | other hnot => exact absurd hread hnot

end

end DRAMCtrl

end ShifDram
