import ShifDram.Cache.Arrivals
import ShifDram.Cache.Timing

/-!
Row ops as barriers on the memory side of a cache.

The checks of `getNextMSHR` compare block addresses and the ready list compares ready times, so
neither sees the rows of a row op. `InOrder` says which actions keep the order all the same.
-/

namespace ShifDram

open List Option

namespace Cache

variable {c c' : Cache} {prefetch : Option Packet} {pkt : Packet} {now : ℕ}
  {isCachedAbove : Packet → Bool} {time : ℕ} {e : BufferEntry} {q : MSHRQueue} {fills : List Packet}
  {p : RowOpPayload}

def arrivals (c : Cache) : Arrivals :=
  ⟨c.blkSize, c.writeBuffer.pending, c.mshrQueue.entries, c.order⟩

/-! ### Actions in order -/

/-- The writes that a request brings keep the order, and it joins no miss older than a waiting row
op. -/
structure AcceptInOrder (c : Cache) (pkt : Packet) (victim : Victim) (forwardTime : ℕ) : Prop where
  writebacks : ∀ x, c.access pkt victim = some x → ∀ e ∈ x.writebacks,
    c.arrivals.WriteInOrder (c.blockAlign e.addr) e forwardTime
  write : ∀ x, c.access pkt victim = some x → x.satisfied = false →
    c.missAction pkt = some .write → c.arrivals.WriteInOrder (c.blockAlign pkt.addr) pkt forwardTime
  coalesce : ∀ x r, c.access pkt victim = some x → x.satisfied = false →
    c.missAction pkt = some (.coalesce r) → c.arrivals.CoalesceInOrder (c.mshrQueue.registers r)

instance (c : Cache) (pkt : Packet) (victim : Victim) (forwardTime : ℕ) :
    Decidable (c.AcceptInOrder pkt victim forwardTime) :=
  decidable_of_iff (∀ x ∈ c.access pkt victim,
      (∀ e ∈ x.writebacks, c.arrivals.WriteInOrder (c.blockAlign e.addr) e forwardTime) ∧
      (x.satisfied = false → c.missAction pkt = some .write →
        c.arrivals.WriteInOrder (c.blockAlign pkt.addr) pkt forwardTime) ∧
      (x.satisfied = false → ∀ r ∈ c.outstanding pkt, c.missAction pkt = some (.coalesce r) →
        c.arrivals.CoalesceInOrder (c.mshrQueue.registers r)))
    ⟨fun h => ⟨fun x hx => (h x hx).1, fun x hx => (h x hx).2.1,
        fun x r hx hsat hr => (h x hx).2.2 hsat r (outstanding_of_missAction hr) hr⟩,
      fun h x hx => ⟨h.writebacks x hx, h.write x hx, fun hsat r _ hr => h.coalesce x r hx hsat hr⟩⟩

/-- `getNextMSHR` is called in order. -/
structure SendInOrder (c : Cache) (now : ℕ) (prefetch : Option Packet) : Prop where
  /-- A ready miss on an older row op's destination row is on its payload's block, or writes go
  first. -/
  misses : ∀ w p, c.arrivals.Waits w p → ∀ m ∈ c.mshrQueue.pending, m.readyTime ≤ now →
    w.order < m.order → MeetsRow c.blkSize p.dest m.blkAddr →
    (m.blkAddr = w.blkAddr ∧ m.isSecure = w.isSecure) ∨ c.DrainsWrites now
  /-- While an older writeback of its rows waits, no miss on its payload's block is ready, or writes
  go first. -/
  writebacks : ∀ w p, c.arrivals.Waits w p → ∀ x ∈ c.writeBuffer.pending, x.isWriteback = true →
    MeetsRows c.blkSize p x.blkAddr → x.order < w.order → ∀ m ∈ c.mshrQueue.pending,
    m.readyTime ≤ now → m.blkAddr = w.blkAddr → m.isSecure = w.isSecure → c.DrainsWrites now
  /-- No block of the destination row is prefetched. -/
  prefetch : c.mshrQueue.getNextMSHR now = none → c.writeBuffer.getNextMSHR now = none →
    ∀ pkt, prefetch = some pkt → ∀ w p, c.arrivals.Waits w p →
      ¬ MeetsRow c.blkSize p.dest (c.blockAlign pkt.addr)

set_option synthInstance.maxSize 512 in
instance (c : Cache) (now : ℕ) (prefetch : Option Packet) :
    Decidable (c.SendInOrder now prefetch) :=
  decidable_of_iff (∀ w ∈ c.writeBuffer.pending, ∀ p ∈ w.rowOp,
      (∀ m ∈ c.mshrQueue.pending, m.readyTime ≤ now → w.order < m.order →
        MeetsRow c.blkSize p.dest m.blkAddr →
        (m.blkAddr = w.blkAddr ∧ m.isSecure = w.isSecure) ∨ c.DrainsWrites now) ∧
      (∀ x ∈ c.writeBuffer.pending, x.isWriteback = true → MeetsRows c.blkSize p x.blkAddr →
        x.order < w.order → ∀ m ∈ c.mshrQueue.pending, m.readyTime ≤ now →
        m.blkAddr = w.blkAddr → m.isSecure = w.isSecure → c.DrainsWrites now) ∧
      (c.mshrQueue.getNextMSHR now = none → c.writeBuffer.getNextMSHR now = none →
        ∀ pkt ∈ prefetch, ¬ MeetsRow c.blkSize p.dest (c.blockAlign pkt.addr)))
    ⟨fun h => ⟨fun w p hw => (h w hw.1 p hw.2).1, fun w p hw => (h w hw.1 p hw.2).2.1,
        fun hm hw pkt hpkt w p hwait => (h w hwait.1 p hwait.2).2.2 hm hw pkt hpkt⟩,
      fun h w hw p hp => ⟨h.misses w p ⟨hw, hp⟩, h.writebacks w p ⟨hw, hp⟩,
        fun hm hw' pkt hpkt => h.prefetch hm hw' pkt hpkt w p ⟨hw, hp⟩⟩⟩

def InOrder (c : Cache) : Act → Prop
  | .recvTimingReq pkt victim _ forwardTime =>
    c.AcceptInOrder (c.promoteWholeLineWrites pkt) victim forwardTime
  | .sendDeferredPacket now prefetch _ => c.SendInOrder now prefetch
  | .recvTimingResp _ _ _ evicted _ forwardTime => ∀ x ∈ evicted,
      c.arrivals.WriteInOrder (c.blockAlign x.1) (c.evictBlk x.1 x.2.1 x.2.2) forwardTime
  | .recvTimingSnoopReq _ _ => True
  | .setTags _ => True

instance (c : Cache) : ∀ a, Decidable (c.InOrder a)
  | .recvTimingReq pkt victim _ forwardTime =>
    inferInstanceAs (Decidable (c.AcceptInOrder (c.promoteWholeLineWrites pkt) victim forwardTime))
  | .sendDeferredPacket now prefetch _ => inferInstanceAs (Decidable (c.SendInOrder now prefetch))
  | .recvTimingResp _ _ _ evicted _ forwardTime => inferInstanceAs (Decidable (∀ x ∈ evicted,
      c.arrivals.WriteInOrder (c.blockAlign x.1) (c.evictBlk x.1 x.2.1 x.2.2) forwardTime))
  | .recvTimingSnoopReq _ _ => inferInstanceAs (Decidable True)
  | .setTags _ => inferInstanceAs (Decidable True)

/-- The queues hang together, no write has deferred targets, the buffers are in order. -/
structure InArrivalOrder (c : Cache) : Prop where
  misses : c.mshrQueue.WellFormed
  writes : c.writeBuffer.WellFormed
  deferred_nil : ∀ w ∈ c.writeBuffer.entries, w.deferredTargets.list = []
  ordered : c.arrivals.Ordered

lemma inArrivalOrder_init (blkBits : ℕ) (doFastWrites : Bool) (m d w : ℕ) :
    (init blkBits doFastWrites m d w).InArrivalOrder where
  misses := MSHRQueue.wellFormed_init _ _ _
  writes := MSHRQueue.wellFormed_init _ _ _
  deferred_nil _ hw := absurd hw not_mem_nil
  ordered := ⟨List.Pairwise.nil, fun _ h => absurd h not_mem_nil,
    fun _ h => absurd h not_mem_nil, List.Pairwise.nil,
    fun _ _ h => absurd h.1 not_mem_nil⟩

lemma InArrivalOrder.of_misses (h : c.InArrivalOrder) (hq : q.WellFormed)
    (hdesc : c.mshrQueue.Descends q) {next : ℕ} (hnext : c.order ≤ next) :
    InArrivalOrder { c with mshrQueue := q, order := next } :=
  ⟨hq, h.writes, h.deferred_nil, h.ordered.shrink (List.Sublist.refl _) hdesc hnext⟩

lemma InArrivalOrder.of_writes (h : c.InArrivalOrder) (hq : q.WellFormed)
    (hdesc : c.writeBuffer.Descends q) (hpending : q.pending.Sublist c.writeBuffer.pending) :
    InArrivalOrder { c with writeBuffer := q } := by
  refine ⟨h.misses, hq, fun w hw => ?_,
    h.ordered.shrink hpending (MSHRQueue.Descends.refl _) le_rfl⟩
  obtain ⟨w₀, hw₀, hfollows⟩ := hdesc w hw
  exact hfollows.deferred (h.deferred_nil w₀ hw₀)

/-! ### Requests -/

/-- An allocation in the write buffer. -/
structure Written (c c' : Cache) (pkt : Packet) (time : ℕ) : Prop where
  blkBits : c'.blkBits = c.blkBits
  mshrQueue : c'.mshrQueue = c.mshrQueue
  fresh : ∃ a : MSHR, a.IsFresh (c.blockAlign pkt.addr) pkt time c.order ∧
    c'.arrivals = ⟨c.blkSize, Timed.insert MSHR.readyTime a c.writeBuffer.pending,
      c.mshrQueue.entries, c.order + 1⟩

lemma InArrivalOrder.allocateWriteBuffer (h : c.InArrivalOrder)
    (hpkt : c.arrivals.WriteInOrder (c.blockAlign pkt.addr) pkt time)
    (hc : c.allocateWriteBuffer pkt time = some c') :
    c'.InArrivalOrder ∧ Written c c' pkt time := by
  rw [Cache.allocateWriteBuffer] at hc
  split_ifs at hc
  obtain ⟨⟨q, r⟩, hq, rfl⟩ := map_eq_some_iff.mp hc
  obtain ⟨hfresh, hwf, hpending, hentries, -⟩ := MSHRQueue.allocate_spec h.writes hq
  have harrivals : arrivals { c with writeBuffer := q, order := c.order + 1 } =
      ⟨c.blkSize, Timed.insert MSHR.readyTime (q.registers r) c.writeBuffer.pending,
        c.mshrQueue.entries, c.order + 1⟩ := by
    rw [arrivals, ← hpending]
    rfl
  refine ⟨⟨h.misses, hwf, fun w hw => ?_, ?_⟩, rfl, rfl, _, hfresh, harrivals⟩
  · rw [hentries] at hw
    rcases mem_snoc.mp hw with hw | rfl
    · exact h.deferred_nil w hw
    · rw [hfresh.deferred]
  · rw [harrivals]
    exact h.ordered.write hfresh hpkt

/-- Evictions leave the misses, the row ops, and what else may be written in order. -/
structure Evicted (c c' : Cache) (time : ℕ) : Prop where
  blkBits : c'.blkBits = c.blkBits
  mshrQueue : c'.mshrQueue = c.mshrQueue
  write : ∀ blk pkt, c.arrivals.WriteInOrder blk pkt time → c'.arrivals.WriteInOrder blk pkt time
  waits : ∀ w p, c'.arrivals.Waits w p → c.arrivals.Waits w p

lemma Evicted.trans {c₁ c₂ c₃ : Cache} (h : Evicted c₁ c₂ time)
    (h' : Evicted c₂ c₃ time) : Evicted c₁ c₃ time :=
  ⟨h'.blkBits.trans h.blkBits, h'.mshrQueue.trans h.mshrQueue,
    fun blk pkt hw => h'.write blk pkt (h.write blk pkt hw),
    fun w p hw => h.waits w p (h'.waits w p hw)⟩

lemma Evicted.blockAlign (h : Evicted c c' time) (addr : ℕ) :
    c'.blockAlign addr = c.blockAlign addr := by
  rw [Cache.blockAlign, Cache.blockAlign, blkSize, blkSize, h.blkBits]

lemma Evicted.coalesce {time r : ℕ} (h : Evicted c c' time)
    (hc : c.arrivals.CoalesceInOrder (c.mshrQueue.registers r)) :
    c'.arrivals.CoalesceInOrder (c'.mshrQueue.registers r) := by
  have hsize : c'.arrivals.blkSize = c.arrivals.blkSize := congrArg (2 ^ ·) h.blkBits
  intro w p hw hmeets
  rw [h.mshrQueue] at hmeets ⊢
  rw [hsize] at hmeets
  exact hc w p (h.waits w p hw) hmeets

lemma Written.evicted (h : Written c c' pkt time)
    (hpkt : pkt.payload = none) : Evicted c c' time := by
  obtain ⟨a, ha, harrivals⟩ := h.fresh
  refine ⟨h.blkBits, h.mshrQueue, fun blk p hw => ?_, fun w p hw => ?_⟩
  · rw [harrivals]
    exact hw.insert ha _ _
  · rw [harrivals] at hw
    rcases Timed.mem_insert.mp hw.1 with rfl | hmem
    · rw [Arrivals.Waits, ha.rowOp, hpkt] at hw
      cases hw.2
    · exact ⟨hmem, hw.2⟩

section

variable (h : c.InArrivalOrder)

include h

/-- Evictions are written in order when each of them is. -/
lemma InArrivalOrder.doWritebacks {writebacks : List Packet}
    (hpayload : ∀ e ∈ writebacks, e.payload = none)
    (horder : ∀ e ∈ writebacks, c.arrivals.WriteInOrder (c.blockAlign e.addr) e time)
    (hc : c.doWritebacks isCachedAbove time writebacks = some c') :
    c'.InArrivalOrder ∧ Evicted c c' time := by
  induction writebacks generalizing c with
  | nil =>
    cases hc
    exact ⟨h, rfl, rfl, fun _ _ hw => hw, fun _ _ hw => hw⟩
  | cons pkt writebacks ih =>
    have hpayload' := fun e he => hpayload e (mem_cons_of_mem pkt he)
    have horder' := fun e he => horder e (mem_cons_of_mem pkt he)
    rw [Cache.doWritebacks] at hc
    split_ifs at hc
    · exact ih h hpayload' horder' hc
    · obtain ⟨c₁, hc₁, hc⟩ := bind_eq_some_iff.mp hc
      obtain ⟨h₁, hwritten⟩ := h.allocateWriteBuffer (horder pkt mem_cons_self) hc₁
      have hevicted := hwritten.evicted (hpayload pkt mem_cons_self)
      have horder₁ : ∀ e ∈ writebacks,
          c₁.arrivals.WriteInOrder (c₁.blockAlign e.addr) e time := fun e he => by
        rw [hevicted.blockAlign]
        exact hevicted.write _ _ (horder' e he)
      obtain ⟨h', hevicted'⟩ := ih h₁ hpayload' horder₁ hc
      exact ⟨h', hevicted.trans hevicted'⟩

lemma InArrivalOrder.allocateMissBuffer {time r : ℕ}
    (hc : c.allocateMissBuffer pkt time = some (c', r)) :
    c'.InArrivalOrder ∧ c'.writeBuffer = c.writeBuffer ∧
      (c'.mshrQueue.registers r).IsFresh (c.blockAlign pkt.addr) pkt time c.order := by
  obtain ⟨⟨q, r'⟩, hq, hx⟩ := map_eq_some_iff.mp hc
  cases hx
  obtain ⟨hfresh, hwf, -, hentries, -⟩ := MSHRQueue.allocate_spec h.misses hq
  refine ⟨⟨hwf, h.writes, h.deferred_nil, ?_⟩, rfl, hfresh⟩
  have hordered := h.ordered.miss hfresh
  rwa [arrivals, ← hentries] at hordered

lemma InArrivalOrder.coalesce {r time : ℕ} (hr : r ∈ c.mshrQueue.allocatedList)
    (horder : c.arrivals.CoalesceInOrder (c.mshrQueue.registers r))
    (hc : c.coalesce r pkt time = some c') : c'.InArrivalOrder := by
  obtain ⟨m, hm, rfl⟩ := map_eq_some_iff.mp hc
  obtain ⟨hblk, -, hstamps⟩ := MSHR.mem_stamps_allocateTarget hm
  obtain ⟨hin, htime, hdeferred⟩ := MSHR.allocateTarget_of_pending hm
  have hwf : (c.mshrQueue.setRegister r m).WellFormed := h.misses.setRegister hin fun hready =>
    ⟨htime, by rw [hdeferred ((h.misses.mem_readyList r).mp hready).2,
      h.misses.deferred_nil r hready]⟩
  refine ⟨hwf, h.writes, h.deferred_nil,
    h.ordered.coalesce (mem_map_of_mem hr) horder fun m' hm' => ?_⟩
  obtain ⟨x, hx, rfl⟩ := mem_map.mp hm'
  by_cases hxr : x = r
  · rw [hxr, MSHRQueue.registers_setRegister_self]
    exact .inr ⟨hblk, hstamps⟩
  · rw [MSHRQueue.registers_setRegister_of_ne _ hxr]
    exact .inl (mem_map_of_mem hx)

omit h in
lemma missAction_congr (hbits : c'.blkBits = c.blkBits) (hmshr : c'.mshrQueue = c.mshrQueue)
    (pkt : Packet) : c'.missAction pkt = c.missAction pkt := by
  rw [missAction, missAction, outstanding, outstanding, blockAlign, blockAlign, blkSize, blkSize,
    hbits, hmshr]

lemma InArrivalOrder.setTags (tags : Tags) : InArrivalOrder { c with tags := tags } := { h with }

lemma InArrivalOrder.markUnreadable (pkt : Packet) : (c.markUnreadable pkt).InArrivalOrder := by
  rw [Cache.markUnreadable]
  cases c.tags (c.blockAlign pkt.addr) pkt.isSecure with
  | none => exact h
  | some blk => exact h.setTags _

/-- **A request** that is accepted in order. -/
lemma InArrivalOrder.recvTimingReq {victim : Victim}
    (horder : c.AcceptInOrder (c.promoteWholeLineWrites pkt) victim time)
    (hc : c.recvTimingReq pkt victim isCachedAbove time = some c') : c'.InArrivalOrder := by
  rw [Cache.recvTimingReq] at hc
  split_ifs at hc
  · cases hc
    exact h
  · generalize c.promoteWholeLineWrites pkt = pkt at horder hc
    obtain ⟨x, hx, hc⟩ := bind_eq_some_iff.mp hc
    obtain ⟨c₁, hc₁, hc⟩ := bind_eq_some_iff.mp hc
    obtain ⟨h₁, hevicted⟩ := (h.setTags x.tags).doWritebacks
      (fun e he => by rw [Packet.payload, (isEviction_access hx e he).isRowOp]; rfl)
      (horder.writebacks x hx) hc₁
    by_cases hsat : x.satisfied = true
    · rw [if_pos hsat] at hc
      cases hc
      exact h₁
    · rw [if_neg hsat] at hc
      have hsat' : x.satisfied = false := by simpa using hsat
      obtain ⟨action, haction, hc⟩ := bind_eq_some_iff.mp hc
      have haction' : c.missAction pkt = some action := by
        rw [← haction]
        exact (missAction_congr hevicted.blkBits hevicted.mshrQueue pkt).symm
      cases action with
      | drop =>
        cases hc
        exact h₁
      | coalesce r =>
        exact h₁.coalesce (mem_allocatedList_of_missAction haction)
          (hevicted.coalesce (horder.coalesce x r hx hsat' haction')) hc
      | write =>
        refine (h₁.allocateWriteBuffer ?_ hc).1
        rw [hevicted.blockAlign]
        exact hevicted.write _ _ (horder.write x hx hsat' haction')
      | miss =>
        obtain ⟨⟨c₂, r⟩, hc₂, rfl⟩ := map_eq_some_iff.mp hc
        exact ((h₁.markUnreadable pkt).allocateMissBuffer hc₂).1

/-! ### Sends, responses and snoops -/

omit h in
lemma getNextMSHR_cases {e : Option BufferEntry} (hc : c.getNextMSHR now prefetch = some (c', e)) :
    (c' = c ∧ e = c.choose now) ∨ ∃ pkt r, prefetch = some pkt ∧ c.choose now = none ∧
      c.allocateMissBuffer pkt now = some (c', r) ∧ e = some (.miss r) := by
  unfold Cache.getNextMSHR at hc
  cases hchoose : c.choose now with
  | some x =>
    rw [hchoose] at hc
    cases hc
    exact .inl ⟨rfl, rfl⟩
  | none =>
    rw [hchoose] at hc
    cases prefetch with
    | none =>
      cases hc
      exact .inl ⟨rfl, rfl⟩
    | some pkt =>
      dsimp only at hc
      split_ifs at hc
      · obtain ⟨⟨c₁, r⟩, hc₁, hx⟩ := map_eq_some_iff.mp hc
        cases hx
        exact .inr ⟨pkt, r, rfl, rfl, hc₁, rfl⟩
      · cases hc
        exact .inl ⟨rfl, rfl⟩

lemma InArrivalOrder.getNextMSHR {e : Option BufferEntry}
    (hc : c.getNextMSHR now prefetch = some (c', e)) :
    c'.InArrivalOrder ∧ ∀ x, e = some x → c'.IsPending x := by
  rcases getNextMSHR_cases hc with ⟨rfl, rfl⟩ | ⟨pkt, r, -, -, hc₁, rfl⟩
  · exact ⟨h, fun x hx => isPending_choose hx⟩
  · refine ⟨(h.allocateMissBuffer hc₁).1, fun x hx => ?_⟩
    cases hx
    obtain ⟨⟨q, r'⟩, hq, hx⟩ := map_eq_some_iff.mp hc₁
    cases hx
    exact (MSHRQueue.allocate_spec h.misses hq).2.2.2.2.1

lemma InArrivalOrder.markInService {isForward dirty : Bool} (he : c.IsPending e)
    (hc : c.markInService isForward dirty e = some c') : c'.InArrivalOrder := by
  cases e with
  | miss r =>
    obtain ⟨q, hq, rfl⟩ := map_eq_some_iff.mp hc
    obtain ⟨hwf, -, hdesc⟩ := MSHRQueue.markInService_setForward_spec h.misses
      ((h.misses.mem_readyList r).mp he).1 hq
    exact h.of_misses hwf hdesc le_rfl
  | write r =>
    obtain ⟨q, hq, rfl⟩ := map_eq_some_iff.mp hc
    obtain ⟨hwf, hpending, hdesc⟩ := MSHRQueue.markInService_setForward_spec h.writes
      ((h.writes.mem_readyList r).mp he).1 hq
    exact h.of_writes hwf hdesc (hpending ▸ c.writeBuffer.erase_sublist_pending r)

lemma InArrivalOrder.squashPrefetch (he : c.IsPending e) (hc : c.squashPrefetch now e = some c') :
    c'.InArrivalOrder := by
  cases e with
  | miss r =>
    rw [Cache.squashPrefetch] at hc
    split_ifs at hc
    obtain ⟨q, hq, rfl⟩ := map_eq_some_iff.mp hc
    obtain ⟨hwf, hdesc, -⟩ := MSHRQueue.forceDeallocateTarget_spec h.misses
      ((h.misses.mem_readyList r).mp he).1 hq
    exact h.of_misses hwf hdesc le_rfl
  | write r => cases hc

lemma InArrivalOrder.sendDeferredPacket {outcome : SendOutcome}
    (hc : c.sendDeferredPacket now prefetch outcome = some c') : c'.InArrivalOrder := by
  obtain ⟨⟨c₁, e⟩, hc₁, hc⟩ := bind_eq_some_iff.mp hc
  obtain ⟨h₁, hpending⟩ := h.getNextMSHR hc₁
  cases e with
  | none =>
    cases hc
    exact h₁
  | some e =>
    cases outcome with
    | retry =>
      cases hc
      exact h₁
    | sent isForward dirty => exact h₁.markInService (hpending e rfl) hc
    | squashed => exact h₁.squashPrefetch (hpending e rfl) hc

lemma InArrivalOrder.respond (hc : c.respond fills now e = some c') :
    c'.InArrivalOrder ∧ c'.blkBits = c.blkBits ∧
      c'.writeBuffer.pending.Sublist c.writeBuffer.pending := by
  cases e with
  | miss r =>
    rw [Cache.respond] at hc
    split_ifs at hc with hr
    obtain ⟨q, hq, rfl⟩ := map_eq_some_iff.mp hc
    obtain ⟨hwf, hdesc, -⟩ := MSHRQueue.respond_spec h.misses hr.1 hr.2 hq
    exact ⟨h.of_misses hwf hdesc le_rfl, rfl, List.Sublist.refl _⟩
  | write r =>
    rw [Cache.respond] at hc
    split_ifs at hc with hr
    obtain ⟨q, hq, rfl⟩ := map_eq_some_iff.mp hc
    obtain ⟨hwf, hdesc, hpending⟩ := MSHRQueue.respond_spec h.writes hr.1 hr.2 hq
    have hsub := hpending (h.deferred_nil _ (mem_map_of_mem hr.1))
    exact ⟨h.of_writes hwf hdesc hsub, rfl, hsub⟩

/-- **A response** whose evictions are in order. -/
lemma InArrivalOrder.recvTimingResp {now time : ℕ} {evicted : List (ℕ × Bool × CacheBlk)}
    (horder : ∀ x ∈ evicted,
      c.arrivals.WriteInOrder (c.blockAlign x.1) (c.evictBlk x.1 x.2.1 x.2.2) time)
    (hc : c.recvTimingResp e fills now evicted isCachedAbove time = some c') :
    c'.InArrivalOrder := by
  obtain ⟨c₁, hc₁, hc⟩ := bind_eq_some_iff.mp hc
  obtain ⟨h₁, hbits, hpending⟩ := h.respond hc₁
  refine (h₁.doWritebacks (fun e he => ?_) (fun e he => ?_) hc).1
  · obtain ⟨x, -, rfl⟩ := mem_map.mp he
    rw [Packet.payload, IsEviction.isRowOp (c := c₁) ⟨_, _, _, rfl⟩]
    rfl
  · obtain ⟨x, hx, rfl⟩ := mem_map.mp he
    have hsize : c₁.blkSize = c.blkSize := congrArg (2 ^ ·) hbits
    have hblk : c₁.blockAlign x.1 = c.blockAlign x.1 := by
      rw [Cache.blockAlign, Cache.blockAlign, hsize]
    have hevict : c₁.evictBlk x.1 x.2.1 x.2.2 = c.evictBlk x.1 x.2.1 x.2.2 := by
      rw [evictBlk, evictBlk, evictReq, evictReq, hsize]
    change c₁.arrivals.WriteInOrder (c₁.blockAlign x.1) _ time
    rw [hblk, hevict]
    exact (horder x hx).mono hsize hpending.subset

lemma InArrivalOrder.snoopWriteBuffer (hc : c.snoopWriteBuffer pkt = some c') :
    c'.InArrivalOrder := by
  rw [Cache.snoopWriteBuffer] at hc
  split at hc
  · cases hc
    exact h
  · rename_i r hmatch
    split_ifs at hc
    · obtain ⟨q, hq, rfl⟩ := map_eq_some_iff.mp hc
      have hr : r ∈ c.writeBuffer.allocatedList := mem_of_mem_filter (hmatch ▸ mem_cons_self)
      obtain ⟨hwf, hpending, hdesc, -⟩ := MSHRQueue.markInService_spec h.writes hr hq
      exact h.of_writes hwf hdesc (hpending ▸ c.writeBuffer.erase_sublist_pending r)
    · cases hc
      exact h
  · cases hc

/-- **A snoop** brings no arrival. -/
lemma InArrivalOrder.recvTimingSnoopReq (hc : c.recvTimingSnoopReq pkt now = some c') :
    c'.InArrivalOrder := by
  unfold Cache.recvTimingSnoopReq at hc
  cases hmatch : c.mshrQueue.findMatch (c.blockAlign pkt.addr) pkt.isSecure with
  | none =>
    rw [hmatch] at hc
    exact h.snoopWriteBuffer hc
  | some r =>
    rw [hmatch] at hc
    dsimp only at hc
    split_ifs at hc
    · cases hc
      exact h
    all_goals
      have hfollows := (c.mshrQueue.registers r).follows_handleSnoop pkt now c.order
      obtain ⟨hin, htime⟩ := (c.mshrQueue.registers r).handleSnoop_inService pkt now c.order
      have hwf := h.misses.setRegister hin fun hready =>
        ⟨htime, hfollows.deferred (h.misses.deferred_nil r hready)⟩
      have h₁ := h.of_misses hwf (MSHRQueue.descends_setRegister hfollows) (Nat.le_succ c.order)
    · cases hc
      exact h₁
    · exact h₁.snoopWriteBuffer hc

/-- **One action** in order keeps the arrivals in order. -/
lemma InArrivalOrder.perform {a : Act} (ha : c.InOrder a) (hc : c.perform a = some c') :
    c'.InArrivalOrder := by
  cases a with
  | recvTimingReq pkt victim isCachedAbove forwardTime => exact h.recvTimingReq ha hc
  | sendDeferredPacket now prefetch outcome => exact h.sendDeferredPacket hc
  | recvTimingResp e fills now evicted isCachedAbove forwardTime => exact h.recvTimingResp ha hc
  | recvTimingSnoopReq pkt now => exact h.recvTimingSnoopReq hc
  | setTags tags =>
    cases hc
    exact h.setTags tags

omit h in
/-- **Every run** of actions in order keeps the arrival order. -/
lemma Run.inArrivalOrder (h : Run InOrder c) : c.InArrivalOrder := by
  induction h with
  | init blkBits doFastWrites m d w => exact inArrivalOrder_init blkBits doFastWrites m d w
  | step _ ha hstep ih => exact ih.perform ha hstep

/-! ### The barrier -/

omit h in
lemma mem_pending {r : ℕ} (hr : r ∈ q.readyList) : q.registers r ∈ q.pending := mem_map_of_mem hr

lemma InArrivalOrder.first_mayPrecede {now x r : ℕ} (hx : c.writeBuffer.getNextMSHR now = some x)
    (hr : r ∈ c.writeBuffer.readyList) (hne : r ≠ x) :
    MayPrecede c.blkSize (c.writeBuffer.registers x) (c.writeBuffer.registers r) := by
  obtain ⟨⟨l, hl⟩, -⟩ := MSHRQueue.getNextMSHR_eq_some hx
  have hpairs : (c.writeBuffer.readyList.map c.writeBuffer.registers).Pairwise
      (MayPrecede c.blkSize) := h.ordered.pairs
  rw [hl, map_cons] at hpairs
  rw [hl] at hr
  exact (pairwise_cons.mp hpairs).1 _ (mem_map_of_mem ((mem_cons.mp hr).resolve_left hne))

/-- No younger miss on the destination row is chosen. -/
lemma InArrivalOrder.not_lt_of_choose_miss (hsend : c.SendInOrder now prefetch) {m r : ℕ}
    (hchoose : c.choose now = some (.miss m)) (hr : r ∈ c.writeBuffer.readyList)
    (hp : (c.writeBuffer.registers r).rowOp = some p)
    (hmeets : MeetsRow c.blkSize p.dest (c.mshrQueue.registers m).blkAddr) :
    ¬ (c.writeBuffer.registers r).order < (c.mshrQueue.registers m).order := by
  intro hlt
  rcases choose_eq_some hchoose with ⟨x, hx, he⟩ | ⟨m', hm', he, hdrains⟩
  · -- the miss goes before the younger write `x` to its block, which stands
    -- before the row op
    obtain ⟨-, hblk, horder⟩ := chooseWrite_eq_miss he
    by_cases hne : r = x
    · subst hne
      exact hlt.asymm horder
    · rw [hblk] at hmeets
      have hle := (h.first_mayPrecede hx hr hne).dest p hp hmeets
      omega
  · obtain ⟨rfl, hnone⟩ := chooseMiss_eq_miss he
    obtain ⟨⟨l, hl⟩, hready⟩ := MSHRQueue.getNextMSHR_eq_some hm'
    have hm : c.mshrQueue.registers m ∈ c.mshrQueue.pending := mem_pending (hl ▸ mem_cons_self)
    rcases hsend.misses _ p ⟨mem_pending hr, hp⟩ _ hm hready hlt hmeets with ⟨hblk, hsec⟩ | hd
    · exact MSHRQueue.findPending_eq_none hnone hr hblk.symm hsec.symm
    · exact hdrains hd

lemma InArrivalOrder.le_of_choose_write (hsend : c.SendInOrder now prefetch) {r x : ℕ}
    (hchoose : c.choose now = some (.write r)) (hp : (c.writeBuffer.registers r).rowOp = some p)
    (hx : x ∈ c.writeBuffer.readyList) (hwb : (c.writeBuffer.registers x).isWriteback = true)
    (hmeets : MeetsRows c.blkSize p (c.writeBuffer.registers x).blkAddr) :
    (c.writeBuffer.registers r).order ≤ (c.writeBuffer.registers x).order := by
  by_contra hlt
  rcases choose_eq_some hchoose with ⟨w, hw, he⟩ | ⟨m, hm, he, hdrains⟩
  · obtain rfl := chooseWrite_eq_write he
    by_cases hne : x = r
    · exact hlt (hne ▸ le_rfl)
    · exact hlt ((h.first_mayPrecede hw hx hne).rows p hp hwb hmeets).le
  · obtain ⟨hr, hblk, hsec⟩ := chooseMiss_eq_write he
    obtain ⟨⟨l, hl⟩, hready⟩ := MSHRQueue.getNextMSHR_eq_some hm
    exact hdrains (hsend.writebacks _ p ⟨mem_pending hr, hp⟩ _ (mem_pending hx) hwb hmeets
      (not_le.mp hlt) _ (mem_pending (hl ▸ mem_cons_self)) hready hblk.symm hsec.symm)

end

/-- **Row ops are barriers**, in every run whose actions are in order: while one waits,
`getNextMSHR` returns no miss on its destination row with a younger request, and not the row op
while an older writeback of its rows waits. -/
theorem getNextMSHR_barrier (hc : Run InOrder c) {now : ℕ} {prefetch : Option Packet}
    (hsend : c.SendInOrder now prefetch) {e : BufferEntry}
    (h : c.getNextMSHR now prefetch = some (c', some e)) {r : ℕ}
    (hr : r ∈ c.writeBuffer.readyList) {p : RowOpPayload}
    (hp : (c.writeBuffer.registers r).rowOp = some p) :
    (∀ m, e = .miss m → MeetsRow c.blkSize p.dest (c'.mshrQueue.registers m).blkAddr →
      ∀ o ∈ (c'.mshrQueue.registers m).targets.requests, o < (c.writeBuffer.registers r).order) ∧
    (e = .write r → ∀ x ∈ c.writeBuffer.readyList, (c.writeBuffer.registers x).isWriteback = true →
      MeetsRows c.blkSize p (c.writeBuffer.registers x).blkAddr →
      (c.writeBuffer.registers r).order ≤ (c.writeBuffer.registers x).order) := by
  have hinv := hc.inArrivalOrder
  rcases getNextMSHR_cases h with ⟨rfl, he⟩ | ⟨pkt, i, hpf, hnone, halloc, he⟩
  · refine ⟨?_, ?_⟩
    · rintro m rfl hmeets o ho
      have hm : c'.mshrQueue.registers m ∈ c'.mshrQueue.entries :=
        hinv.misses.mem_entries_of_pending (mem_pending (isPending_choose he.symm))
      have hstamp : o ∈ (c'.mshrQueue.registers m).stamps := MSHR.mem_stamps.mpr (.inr (.inl ho))
      rcases hinv.ordered.oneSide _ p ⟨mem_pending hr, hp⟩ _ hm hmeets with hside | hside
      · exact hside o hstamp
      · exact absurd (hside _ mem_cons_self) (hinv.not_lt_of_choose_miss hsend he.symm hr hp hmeets)
    · rintro rfl x hx hwb hmeets
      exact hinv.le_of_choose_write hsend he.symm hp hx hwb hmeets
  · -- a prefetch, which is on no block of the destination row
    cases he
    obtain ⟨hmshr, hwrite⟩ := choose_eq_none hnone
    refine ⟨fun m hm hmeets => ?_, fun hwr => by cases hwr⟩
    obtain rfl := BufferEntry.miss.inj hm
    rw [(hinv.allocateMissBuffer halloc).2.2.blkAddr] at hmeets
    exact absurd hmeets (hsend.prefetch hmshr hwrite pkt hpf _ p ⟨mem_pending hr, hp⟩)

/-- A data cache with 64-byte blocks after some actions. -/
def after (acts : List Act) : Cache :=
  ((init 6 false 4 1 8).performAll acts).getD (init 6 false 4 1 8)

lemma run_after {condition : Cache → Act → Prop} {acts : List Act}
    (hmeet : AllMeet condition (init 6 false 4 1 8) acts)
    (hsome : ((init 6 false 4 1 8).performAll acts).isSome = true) :
    Run condition (after acts) := by
  refine (Run.init 6 false 4 1 8).performAll hmeet ?_
  rw [after]
  cases hc : (init 6 false 4 1 8).performAll acts with
  | none => rw [hc] at hsome; cases hsome
  | some c => rfl

/-- The row op `NOT 0x14000 <- 0x16000`, ready at `time`. -/
def acceptRowOp (time : ℕ) : Act :=
  .recvTimingReq (.createRowOp
    ((Request.virt 0 32 (Request.uncacheable ||| Request.rowop) 0).setPaddr 0)
    ⟨.rowNot, 0x14000, 0x16000, 0⟩) .none (fun _ => false) time

def acceptLoad (time : ℕ) : Act :=
  .recvTimingReq ⟨.readReq, (Request.virt 0x4040 8 0#32 0).setPaddr 0x14040, 0x14040, 8, false, [],
    ⟨.rowAnd, 0, 0, 0⟩, false, false, false⟩ .none (fun _ => false) time

/-- A writeback from above of a block of the source row. -/
def acceptWriteback (time : ℕ) : Act :=
  .recvTimingReq ⟨.writeback, (Request.virt 0 64 0#32 0).setPaddr 0x16000, 0x16000, 64, false, [],
    ⟨.rowAnd, 0, 0, 0⟩, false, false, false⟩ .none (fun _ => false) time

theorem getNextMSHR_barrier_rowNot :
    (after [acceptRowOp 6, acceptWriteback 7, acceptLoad 20]).choose 10 = some (.write 0) ∧
      ((after [acceptRowOp 6, acceptWriteback 7, acceptLoad 20]).writeBuffer.registers 0).order ≤
        ((after [acceptRowOp 6, acceptWriteback 7,
          acceptLoad 20]).writeBuffer.registers 1).order := by
  have hchoose : (after [acceptRowOp 6, acceptWriteback 7, acceptLoad 20]).choose 10 =
      some (.write 0) := by decide +kernel
  refine ⟨hchoose, (getNextMSHR_barrier (run_after (by decide +kernel) (by decide +kernel))
    (by decide +kernel) (getNextMSHR_of_choose hchoose none) (by decide +kernel)
    (p := ⟨.rowNot, 0x14000, 0x16000, 0⟩) (by decide +kernel)).2 rfl 1 ?_ ?_ ?_⟩
  · decide +kernel
  · decide +kernel
  · decide +kernel

/-- A load from the destination row of a waiting row op goes first; a row op goes before an older
writeback of its source row. -/
theorem getNextMSHR_overtakes : (∃ c, Run (fun _ _ => True) c ∧ 0 ∈ c.writeBuffer.readyList ∧
      (c.writeBuffer.registers 0).rowOp = some ⟨.rowNot, 0x14000, 0x16000, 0⟩ ∧
      c.getNextMSHR 10 none = some (c, some (.miss 0)) ∧
      MeetsRow c.blkSize 0x14000 (c.mshrQueue.registers 0).blkAddr ∧
      (c.writeBuffer.registers 0).order < (c.mshrQueue.registers 0).order) ∧
    ∃ c, Run (fun _ _ => True) c ∧ 0 ∈ c.writeBuffer.readyList ∧
      (c.writeBuffer.registers 1).rowOp = some ⟨.rowNot, 0x14000, 0x16000, 0⟩ ∧
      c.getNextMSHR 10 none = some (c, some (.write 1)) ∧
      (c.writeBuffer.registers 0).isWriteback = true ∧
      (c.writeBuffer.registers 0).blkAddr = 0x16000 ∧
      (c.writeBuffer.registers 0).order < (c.writeBuffer.registers 1).order := by
  refine ⟨⟨after [acceptRowOp 6, .sendDeferredPacket 6 none .retry, acceptLoad 7],
      run_after (by decide +kernel) (by decide +kernel),
      ?_, ?_, getNextMSHR_of_choose ?_ none, ?_, ?_⟩,
    ⟨after [acceptWriteback 30, acceptRowOp 6], run_after (by decide +kernel) (by decide +kernel),
      ?_, ?_, getNextMSHR_of_choose ?_ none, ?_, ?_, ?_⟩⟩
  all_goals decide +kernel

end Cache

end ShifDram
