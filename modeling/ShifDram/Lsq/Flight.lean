import ShifDram.Lsq.Counters
import ShifDram.Lsq.Handshake

/-!
The packets of the stores, from the queue to the response.

`left` are the packets not yet taken, all of the store at the write-back index; other packets in
flight are of stores before it, and the sender states count both.
-/

namespace ShifDram

open RingBuffer ProgramOrder List Option

/-- Program order, the first packet of a store before the second. -/
def StorePkt.Before (p q : StorePkt) : Prop :=
  p.seqNum < q.seqNum ∨ p.seqNum = q.seqNum ∧ p.second = false ∧ q.second = true

lemma LSQUnit.storePostSend_port (s : LSQUnit) :
    s.storePostSend.sqEntries = s.sqEntries ∧ s.storePostSend.needsTSO = s.needsTSO ∧
      (s.needsTSO = true → s.storePostSend.storeInFlight = true) := by
  have hunstall : ∀ e, (s.unstall e).sqEntries = s.sqEntries ∧
      (s.unstall e).needsTSO = s.needsTSO := fun e => by
    rw [unstall]
    split_ifs <;> exact ⟨rfl, rfl⟩
  rw [storePostSend]
  cases s.storeQueue s.storeWBIdx with
  | none => exact ⟨rfl, rfl, fun h => by rw [h]; rfl⟩
  | some e => exact ⟨(hunstall e).1, (hunstall e).2, fun h => by rw [(hunstall e).2, h]; rfl⟩

namespace LSQPort

/-- The number of packets of the store `seqNum`. -/
def countOf (seqNum : ℕ) (l : List StorePkt) : ℕ := l.countP fun p => p.seqNum == seqNum

structure Flight (x : LSQPort) (left : List StorePkt) (a : ProgramOrder) : Prop where
  /-- What is left is of the store at the write-back index. -/
  sending : ∀ p ∈ left, ∃ e W, a.waiting = e :: W ∧ e.canWB = true ∧ p.seqNum = e.seqNum ∧
    p.idx = x.storeWBIdx
  /-- What is in flight is of that store, or of one not completed. -/
  flying : ∀ p ∈ x.inFlight, (∃ q ∈ left, q.seqNum = p.seqNum) ∨
    ∃ e ∈ a.sent, e.seqNum = p.seqNum ∧ e.completed = false ∧ e.sqIdx = some p.idx
  states : ∀ p ∈ x.inFlight ++ left, (x.senderStates p.seqNum).map LSQSenderState.waits =
    some (p.idx, countOf p.seqNum (x.inFlight ++ left))
  aligned : x.hasUnalignedMemAcc = false →
    ∀ p ∈ x.inFlight ++ left, countOf p.seqNum (x.inFlight ++ left) = 1

/-- The packets made so far, and the stores passed. -/
structure Log (x : LSQPort) (left : List StorePkt) (a : ProgramOrder) : Prop where
  created : x.created = x.accepted ++ left
  order : x.created.Pairwise StorePkt.Before
  le_waiting : ∀ p ∈ x.created, ∀ e ∈ a.waiting, p.seqNum ≤ e.seqNum
  lt_waiting : left = [] → ∀ p ∈ x.created, ∀ e ∈ a.waiting, p.seqNum < e.seqNum
  posted : x.posted.Pairwise (· < ·)
  posted_lt : ∀ n ∈ x.posted, ∀ e ∈ a.waiting, n < e.seqNum

structure Single (x : LSQPort) (left : List StorePkt) : Prop where
  eq : ∀ p ∈ x.inFlight ++ left, ∀ q ∈ x.inFlight ++ left, p.seqNum = q.seqNum
  known : left = [] → x.inFlight ≠ [] → x.storeInFlight = true

/-- Everything is of an instruction up to `last`. -/
structure UpTo (x : LSQPort) (a : ProgramOrder) (last : ℕ) : Prop where
  loads : ∀ ld ∈ a.loads, ld.seqNum ≤ last
  stores : ∀ e ∈ a.stores, e.seqNum ≤ last
  created : ∀ p ∈ x.created, p.seqNum ≤ last
  posted : ∀ n ∈ x.posted, n ≤ last

/-- **The queues and the port** between any two operations. -/
structure PortInv (x : LSQPort) (left : List StorePkt) (a : ProgramOrder) (last : ℕ) : Prop where
  tracks : x.toLSQUnit.Tracks a
  flight : x.Flight left a
  log : x.Log left a
  single : x.needsTSO = true → x.Single left
  upTo : x.UpTo a last
  small : x.sqEntries ≤ 256

/-- The port has gone on from `x` to `x'`. -/
structure Runs (x x' : LSQPort) (a a' : ProgramOrder) (last : ℕ) : Prop where
  wf : x'.Wf
  inv : x'.PortInv x'.unsent a' last
  done : a'.done = a.done
  safe : x.Safe → x'.Safe

variable {x x' : LSQPort} {left : List StorePkt} {a a' : ProgramOrder} {last last' : ℕ}
  {l : List StorePkt} {p : StorePkt} {e' : StoreKey}

lemma Runs.trans {x'' : LSQPort} {a'' : ProgramOrder} (h : x.Runs x' a a' last)
    (h' : x'.Runs x'' a' a'' last) : x.Runs x'' a a'' last :=
  ⟨h'.wf, h'.inv, h'.done.trans h.done, fun hx => h'.safe (h.safe hx)⟩

lemma countOf_append (n : ℕ) (l l' : List StorePkt) :
    countOf n (l ++ l') = countOf n l + countOf n l' := countP_append

lemma countOf_eq_zero {n : ℕ} (h : ∀ p ∈ l, p.seqNum ≠ n) : countOf n l = 0 :=
  countP_eq_zero.mpr fun p hp => by simpa using h p hp

section Head

variable {e : StoreKey} {W : List StoreKey}

section

variable (h : x.PortInv left a last)

include h

lemma PortInv.storeWBIdx_lt : x.storeWBIdx < 256 := by
  have hslots := h.tracks.storeSide.toSlots
  have hlen := hslots.stores.length_lt
  rw [length_map, ProgramOrder.stores, length_append] at hlen
  have hlt := index_lt hslots.stores.head_lt (show a.sent.length < x.sqEntries by omega)
  rw [← hslots.storeWBIdx] at hlt
  have := h.small
  omega

lemma PortInv.sqIdx_head (hw : a.waiting = e :: W) : e.sqIdx = some x.storeWBIdx := by
  have hslots := h.tracks.storeSide.toSlots
  have hk : a.sent.length < a.stores.length := by simp [ProgramOrder.stores, hw]
  have hidx := hslots.sqIdx a.sent.length hk
  rw [← hslots.storeWBIdx] at hidx
  rw [← hidx]
  simp [ProgramOrder.stores, hw]

lemma PortInv.sent_lt (hw : a.waiting = e :: W) (he' : e' ∈ a.sent) : e'.seqNum < e.seqNum := by
  have hsorted := h.tracks.storeSide.sorted
  rw [ProgramOrder.stores, pairwise_append] at hsorted
  exact hsorted.2.2 e' he' e (hw ▸ mem_cons_self)

lemma PortInv.lt_rest (hw : a.waiting = e :: W) (he' : e' ∈ W) : e.seqNum < e'.seqNum := by
  have hsorted := h.tracks.storeSide.sorted
  rw [ProgramOrder.stores, hw, pairwise_append, pairwise_cons] at hsorted
  exact hsorted.2.1.1 e' he'

end

end Head

/-! ### A store begins to be sent -/

section Begin

variable {n : ℕ} {split : Bool}

lemma mem_packets (hp : p ∈ x.packets n split) : p.seqNum = n ∧ p.idx = x.storeWBIdx % 256 := by
  cases split with
  | false =>
    obtain rfl := mem_singleton.mp hp
    exact ⟨rfl, rfl⟩
  | true =>
    rcases mem_pair.mp hp with rfl | rfl
    · exact ⟨rfl, rfl⟩
    · exact ⟨rfl, rfl⟩

lemma countOf_packets : countOf n (x.packets n split) = if split then 2 else 1 := by
  cases split <;> simp [countOf, packets, firstPkt, secondPkt]

lemma packets_pairwise (x : LSQPort) (n : ℕ) (split : Bool) :
    (x.packets n split).Pairwise StorePkt.Before := by
  cases split with
  | false => exact pairwise_singleton _ _
  | true => exact pairwise_pair.mpr (.inr ⟨rfl, rfl, rfl⟩)

variable {e : StoreKey} {W : List StoreKey}

section

variable (h : x.PortInv [] a last)

include h

lemma PortInv.ne_of_inFlight (hw : a.waiting = e :: W) (hp : p ∈ x.inFlight) :
    p.seqNum ≠ e.seqNum := by
  rcases h.flight.flying p hp with ⟨q, hq, -⟩ | ⟨e', he', hseq, -⟩
  · cases hq
  · have := h.sent_lt hw he'
    omega

lemma PortInv.inFlight_eq_nil (htso : x.needsTSO = false ∨ x.storeInFlight = false)
    (hneeds : x.needsTSO = true) : x.inFlight = [] := by
  by_contra hne
  have hknown := (h.single hneeds).known rfl hne
  rcases htso with hno | hno
  · cases hno.symm.trans hneeds
  · cases hno.symm.trans hknown

lemma PortInv.flight_makePackets (hw : a.waiting = e :: W) (hwb : e.canWB = true)
    (hsplit : split = true → x.hasUnalignedMemAcc = true) :
    (x.makePackets e.seqNum split).Flight (x.packets e.seqNum split) a := by
  have hmod : x.storeWBIdx % 256 = x.storeWBIdx := Nat.mod_eq_of_lt h.storeWBIdx_lt
  have hzero : countOf e.seqNum x.inFlight = 0 := countOf_eq_zero fun p hp => h.ne_of_inFlight hw hp
  have hother : ∀ p ∈ x.inFlight, countOf p.seqNum (x.packets e.seqNum split) = 0 := fun p hp =>
    countOf_eq_zero fun q hq hqp => h.ne_of_inFlight hw hp (hqp.symm.trans (mem_packets hq).1)
  have hnew : ∀ p ∈ x.packets e.seqNum split,
      countOf p.seqNum (x.inFlight ++ x.packets e.seqNum split) = if split then 2 else 1 := by
    intro p hp
    rw [(mem_packets hp).1, countOf_append, hzero, countOf_packets, Nat.zero_add]
  refine ⟨fun p hp => ⟨e, W, hw, hwb, (mem_packets hp).1, (mem_packets hp).2.trans hmod⟩,
    fun p hp => .inr ?_, fun p hp => ?_, fun hno p hp => ?_⟩
  · rcases h.flight.flying p hp with ⟨q, hq, -⟩ | hsent
    · cases hq
    · exact hsent
  · rcases mem_append.mp hp with hp' | hp'
    · have hold := h.flight.states p (mem_append_left _ hp')
      rw [append_nil] at hold
      have hne : p.seqNum ≠ e.seqNum := h.ne_of_inFlight hw hp'
      rw [show (x.makePackets e.seqNum split).senderStates p.seqNum = x.senderStates p.seqNum from
        senderStates_setState_of_ne x hne _, hold, countOf_append]
      rw [show countOf p.seqNum (x.packets e.seqNum split) = 0 from hother p hp']
      rfl
    · rw [show countOf p.seqNum ((x.makePackets e.seqNum split).inFlight ++ _) = _ from hnew p hp']
      obtain ⟨hseq, hidx⟩ := mem_packets hp'
      rw [hseq, hidx, show (x.makePackets e.seqNum split).senderStates e.seqNum = some _ from
        senderStates_setState_self x _ _]
      rfl
  · have hfalse : split = false := by
      by_contra hs
      cases hno.symm.trans (hsplit (by simpa using hs))
    rcases mem_append.mp hp with hp' | hp'
    · have hold := h.flight.aligned hno p (mem_append_left _ hp')
      rw [append_nil] at hold
      exact (countOf_append _ _ _).trans (by rw [hother p hp', Nat.add_zero]; exact hold)
    · exact (hnew p hp').trans (by rw [hfalse]; rfl)

lemma PortInv.log_makePackets (hw : a.waiting = e :: W) :
    (x.makePackets e.seqNum split).Log (x.packets e.seqNum split) a := by
  have hcreated := h.log.created
  rw [append_nil] at hcreated
  have hmem : e ∈ a.waiting := hw ▸ mem_cons_self
  refine ⟨?_, ?_, fun p hp e' he' => ?_, fun hnil => ?_, h.log.posted, h.log.posted_lt⟩
  · exact congrArg (· ++ _) hcreated
  · refine pairwise_append.mpr ⟨h.log.order, packets_pairwise x _ _, fun p hp q hq => .inl ?_⟩
    rw [(mem_packets hq).1]
    exact h.log.lt_waiting rfl p hp e hmem
  · rcases mem_append.mp hp with hp | hp
    · exact h.log.le_waiting p hp e' he'
    · rw [(mem_packets hp).1]
      rw [hw] at he'
      rcases mem_cons.mp he' with rfl | he'
      · exact le_rfl
      · exact (h.lt_rest hw he').le
  · cases split <;> cases hnil

lemma PortInv.makePackets (hw : a.waiting = e :: W) (hwb : e.canWB = true)
    (hsplit : split = true → x.hasUnalignedMemAcc = true)
    (htso : x.needsTSO = false ∨ x.storeInFlight = false) :
    (x.makePackets e.seqNum split).PortInv (x.packets e.seqNum split) a last := by
  have hmem : e ∈ a.stores := by simp [ProgramOrder.stores, hw]
  refine ⟨h.tracks, h.flight_makePackets hw hwb hsplit, h.log_makePackets hw, fun hneeds => ?_,
    { h.upTo with created := fun p hp => ?_ }, h.small⟩
  · have hnil : (x.makePackets e.seqNum split).inFlight = [] := h.inFlight_eq_nil htso hneeds
    refine ⟨fun p hp q hq => ?_, fun _ hne => absurd hnil hne⟩
    rw [hnil, nil_append] at hp hq
    exact (mem_packets hp).1.trans (mem_packets hq).1.symm
  · rcases mem_append.mp hp with hp | hp
    · exact h.upTo.created p hp
    · rw [(mem_packets hp).1]
      exact h.upTo.stores e hmem

end

end Begin

/-! ### Packets are taken -/

section Take

variable {y : LSQPort} {taken rest : List StorePkt}

lemma Flight.seqNum_eq (h : x.Flight left a) {p q : StorePkt} (hp : p ∈ left) (hq : q ∈ left) :
    p.seqNum = q.seqNum := by
  obtain ⟨e, W, hw, -, hpe, -⟩ := h.sending p hp
  obtain ⟨e', W', hw', -, hqe, -⟩ := h.sending q hq
  obtain rfl := (cons.inj (hw.symm.trans hw')).1
  rw [hpe, hqe]

lemma Flight.idx_eq (h : x.Flight left a) {p q : StorePkt} (hp : p ∈ x.inFlight ++ left)
    (hq : q ∈ x.inFlight ++ left) (hseq : p.seqNum = q.seqNum) : p.idx = q.idx := by
  have hstate := h.states q hq
  rw [← hseq, h.states p hp] at hstate
  exact congrArg Prod.fst (some.inj hstate)

lemma Took.states_eq (ht : x.Took y taken) (h : x.Flight (taken ++ rest) a) :
    ∀ p ∈ y.inFlight ++ rest, (y.senderStates p.seqNum).map LSQSenderState.waits =
      some (p.idx, countOf p.seqNum (y.inFlight ++ rest)) := by
  rw [ht.inFlight, append_assoc]
  intro p hp
  rw [ht.states]
  exact h.states p hp

lemma Took.aligned (ht : x.Took y taken) (h : x.Flight (taken ++ rest) a) :
    y.hasUnalignedMemAcc = false →
      ∀ p ∈ y.inFlight ++ rest, countOf p.seqNum (y.inFlight ++ rest) = 1 := by
  rw [ht.inFlight, append_assoc, ht.hasUnalignedMemAcc]
  exact h.aligned

/-- Packets are taken and others are left. -/
lemma PortInv.took (h : x.PortInv (taken ++ rest) a last) (ht : x.Took y taken)
    (hrest : rest ≠ []) :
    y.PortInv rest a last := by
  obtain ⟨r, hr⟩ := exists_mem_of_ne_nil rest hrest
  have hr' : r ∈ taken ++ rest := mem_append_right _ hr
  refine ⟨ht.unit ▸ h.tracks, ⟨fun p hp => ?_, fun p hp => ?_,
    ht.states_eq h.flight, ht.aligned h.flight⟩, ⟨?_, ?_, ?_, fun hno => absurd hno hrest, ?_, ?_⟩,
    fun hneeds => ⟨?_, fun hno => absurd hno hrest⟩, ⟨h.upTo.loads, h.upTo.stores, ?_, ?_⟩, ?_⟩
  · rw [ht.unit]
    exact h.flight.sending p (mem_append_right _ hp)
  · rw [ht.inFlight] at hp
    rcases mem_append.mp hp with hp | hp
    · refine (h.flight.flying p hp).imp_left fun ⟨q, hq, hqp⟩ => ⟨r, hr, ?_⟩
      exact (h.flight.seqNum_eq hr' hq).trans hqp
    · exact .inl ⟨r, hr, h.flight.seqNum_eq hr' (mem_append_left _ hp)⟩
  · rw [ht.created, ht.accepted, append_assoc]
    exact h.log.created
  · rw [ht.created]
    exact h.log.order
  · rw [ht.created]
    exact h.log.le_waiting
  · rw [ht.posted]
    exact h.log.posted
  · rw [ht.posted]
    exact h.log.posted_lt
  · rw [ht.inFlight, append_assoc]
    rw [ht.unit] at hneeds
    exact (h.single hneeds).eq
  · rw [ht.created]
    exact h.upTo.created
  · rw [ht.posted]
    exact h.upTo.posted
  · rw [ht.unit]
    exact h.small

/-- The last packets are taken, and the write-back index passes the store. -/
lemma PortInv.post (h : x.PortInv taken a last) (ht : x.Took y taken) (hne : taken ≠ []) :
    y.storePostSend.PortInv [] a.send last := by
  obtain ⟨r, hr⟩ := exists_mem_of_ne_nil taken hne
  obtain ⟨e, W, hw, hwb, hre, hridx⟩ := h.flight.sending r hr
  have hsent : a.send.sent = a.sent ++ [e] := by rw [LSQUnit.send_eq hw]
  have hrest : a.send.waiting = W := by rw [LSQUnit.send_eq hw]
  have hstores := LSQUnit.stores_send hw
  have hinFlight : y.storePostSend.inFlight = x.inFlight ++ taken := ht.inFlight
  have hmem : e ∈ a.waiting := hw ▸ mem_cons_self
  have hposted : y.storePostSend.posted = x.posted ++ [e.seqNum] := by
    have hget := h.tracks.storeSide.toSlots.waiting
    rw [hw] at hget
    obtain ⟨entry, hentry, rfl⟩ := LSQUnit.exists_of_storeKeys hget.uncons.2.1
    rw [LSQPort.storePostSend, ht.posted, ht.unit, hentry]
    rfl
  obtain ⟨hsq, hneeds', hflag⟩ := LSQUnit.storePostSend_port x.toLSQUnit
  have hunit : y.storePostSend.toLSQUnit = x.toLSQUnit.storePostSend := by
    rw [LSQPort.storePostSend, ht.unit]
  refine ⟨?_, ⟨fun p hp => absurd hp not_mem_nil, fun p hp => .inr ?_, ?_, ?_⟩,
    ⟨?_, ?_, ?_, ?_, ?_, ?_⟩, fun hneeds => ⟨?_, fun _ _ => ?_⟩, ⟨?_, ?_, ?_, ?_⟩, ?_⟩
  · rw [hunit]
    exact h.tracks.storePostSend hw hwb
  · rw [hsent]
    rw [hinFlight] at hp
    -- the packets of the store that is passed, and those of earlier stores
    have hown : p.seqNum = r.seqNum → ∃ e' ∈ a.sent ++ [e], e'.seqNum = p.seqNum ∧
        e'.completed = false ∧ e'.sqIdx = some p.idx := by
      intro hseq
      refine ⟨e, by simp, ?_, h.tracks.storeSide.waiting e hmem, ?_⟩
      · rw [hseq, hre]
      · rw [h.sqIdx_head hw, ← hridx, h.flight.idx_eq hp (mem_append_right _ hr) hseq]
    rcases mem_append.mp hp with hp' | hp'
    · rcases h.flight.flying p hp' with ⟨q, hq, hqp⟩ | ⟨e', he', hrest'⟩
      · exact hown (hqp.symm.trans (h.flight.seqNum_eq hq hr))
      · exact ⟨e', mem_append_left _ he', hrest'⟩
    · exact hown (h.flight.seqNum_eq hp' hr)
  · rw [← append_nil taken] at h
    exact ht.states_eq h.flight
  · rw [← append_nil taken] at h
    exact ht.aligned h.flight
  · rw [append_nil]
    exact ht.created.trans (h.log.created.trans ht.accepted.symm)
  · exact ht.created.symm ▸ h.log.order
  · rw [hrest]
    intro p hp e' he'
    rw [show y.storePostSend.created = x.created from ht.created] at hp
    exact (h.log.le_waiting p hp e hmem).trans (h.lt_rest hw he').le
  · rw [hrest]
    intro _ p hp e' he'
    rw [show y.storePostSend.created = x.created from ht.created] at hp
    exact (h.log.le_waiting p hp e hmem).trans_lt (h.lt_rest hw he')
  · rw [hposted]
    exact pairwise_snoc.mpr ⟨h.log.posted, fun n hn => h.log.posted_lt n hn e hmem⟩
  · rw [hrest, hposted]
    intro n hn e' he'
    rcases mem_snoc.mp hn with hn | rfl
    · exact (h.log.posted_lt n hn e hmem).trans (h.lt_rest hw he')
    · exact h.lt_rest hw he'
  · rw [hinFlight, append_nil]
    rw [hunit, hneeds'] at hneeds
    exact (h.single hneeds).eq
  · rw [hunit, hneeds'] at hneeds
    rw [hunit]
    exact hflag hneeds
  · exact h.upTo.loads
  · rw [hstores]
    exact h.upTo.stores
  · exact ht.created.symm ▸ h.upTo.created
  · rw [hposted]
    intro n hn
    rcases mem_snoc.mp hn with hn | rfl
    · exact h.upTo.posted n hn
    · exact h.upTo.stores e (mem_append_right _ hmem)
  · rw [hunit, hsq]
    exact h.small

/-- **Sending packets** keeps the invariant. -/
lemma PortInv.moved (h : x.PortInv (taken ++ rest) a last) (hne : taken ++ rest ≠ [])
    (hm : x.Moved x' taken rest) :
    ∃ a', x.Runs x' a a' last ∧ (x'.unsent = [] → a'.waiting.length < a.waiting.length) := by
  obtain ⟨r, hr⟩ := exists_mem_of_ne_nil _ hne
  obtain ⟨e, W, hw, -⟩ := h.flight.sending r hr
  have hsafe := hm.safe
  obtain ⟨hwf, hunsent, y, ht, rfl⟩ := hm
  by_cases hrest : rest = []
  · subst hrest
    rw [append_nil] at h hne
    rw [if_pos rfl] at hwf hunsent hsafe ⊢
    exact ⟨a.send, ⟨hwf, hunsent ▸ h.post ht hne, rfl, hsafe⟩,
      fun _ => by simp [LSQUnit.send_eq hw, hw]⟩
  · rw [if_neg hrest] at hwf hunsent hsafe ⊢
    exact ⟨a, ⟨hwf, hunsent ▸ h.took ht hrest, rfl, hsafe⟩,
      fun hno => absurd (hunsent.symm.trans hno) hrest⟩

end Take

/-! ### Stores are completed -/

section Complete

lemma mem_sent_completed {n head k : ℕ} {e : StoreKey} (he : e ∈ a.sent)
    (hcompl : e.completed = false) (hidx : e.sqIdx ≠ some (index n head k)) :
    e ∈ (LSQUnit.completed a n head k).sent := by
  have hmem : e ∈ (a.complete (index n head k)).sent := by
    refine mem_map.mpr ⟨e, he, ?_⟩
    rw [atSlot, if_neg hidx]
  rw [LSQUnit.completed]
  split_ifs
  · have hsplit := takeWhile_append_dropWhile (p := fun e : StoreKey => e.completed)
      (l := (a.complete (index n head k)).sent)
    rw [← hsplit] at hmem
    rcases mem_append.mp hmem with hmem | hmem
    · cases hcompl.symm.trans (mem_takeWhile_imp hmem)
    · exact hmem
  · exact hmem

/-- A sent store with no packet in flight is completed. -/
lemma PortInv.completeAt (h : x.PortInv left a last) {k : ℕ} (hk : k < a.sent.length)
    (hcompl : a.sent[k].completed = false) (hno : ∀ p ∈ x.inFlight, p.seqNum ≠ a.sent[k].seqNum)
    (htso : x.needsTSO = true → left = [] → x.inFlight = []) :
    (x.setUnit (x.completeStore (index x.sqEntries x.storeHead k))).PortInv left
      (LSQUnit.completed a x.sqEntries x.storeHead k) last := by
  have hslots := h.tracks.storeSide.toSlots
  have htracks := h.tracks.complete hk hcompl
  obtain ⟨entry, hentry, -⟩ := hslots.exists_sent hk
  obtain ⟨q, head, m, b, n, f, heq, -⟩ := LSQUnit.completeStore_frame hentry
  obtain ⟨hloads, hwaiting, -⟩ := LSQUnit.completed_rest a x.sqEntries x.storeHead k
  obtain ⟨hks, hget⟩ := LSQUnit.getElem_stores hk
  refine ⟨htracks, ⟨?_, fun p hp => (h.flight.flying p hp).imp_right ?_, h.flight.states,
    h.flight.aligned⟩, ⟨h.log.created, h.log.order, ?_, ?_, h.log.posted, ?_⟩,
    fun hneeds => ⟨?_, fun hleft hne => ?_⟩, ⟨?_, fun e he => ?_, h.upTo.created,
      h.upTo.posted⟩, ?_⟩
  · rw [hwaiting, heq]
    exact h.flight.sending
  · rintro ⟨e, he, hseq, hopen, hidx⟩
    refine ⟨e, mem_sent_completed he hopen fun hsame => ?_, hseq, hopen, hidx⟩
    refine hno p hp ?_
    rw [← hseq, ← hget, hslots.eq_of_sqIdx (mem_append_left _ he) (getElem_mem hks)
      (hsame.trans (hslots.sqIdx k hks).symm)]
  · rw [hwaiting]
    exact h.log.le_waiting
  · rw [hwaiting]
    exact h.log.lt_waiting
  · rw [hwaiting]
    exact h.log.posted_lt
  · rw [heq] at hneeds
    exact (h.single hneeds).eq
  · rw [heq] at hneeds
    exact absurd (htso hneeds hleft) hne
  · rw [hloads]
    exact h.upTo.loads
  · rcases mem_append.mp he with he | he
    · obtain ⟨e', he', rfl⟩ := LSQUnit.mem_sent_of_completed he
      rw [(keepsPlaces_setCompleted.atSlot _).seqNum]
      exact h.upTo.stores e' (mem_append_left _ he')
    · rw [hwaiting] at he
      exact h.upTo.stores e (mem_append_right _ he)
  · rw [heq]
    exact h.small

variable {e : StoreKey} {W : List StoreKey}

/-- The write-back index passes a store without packets. -/
lemma PortInv.skip (h : x.PortInv [] a last) (hw : a.waiting = e :: W) (hwb : e.canWB = true) :
    (x.setUnit { x.toLSQUnit with storeWBIdx := x.incrStIdx x.storeWBIdx }).PortInv [] a.send
      last := by
  have hrest : a.send.waiting = W := by rw [LSQUnit.send_eq hw]
  have hmem : ∀ e' ∈ W, e' ∈ a.waiting := fun e' he' => hw ▸ mem_cons_of_mem e he'
  refine ⟨h.tracks.send hw hwb, ⟨fun p hp => absurd hp not_mem_nil, fun p hp => ?_,
    h.flight.states, h.flight.aligned⟩, ⟨h.log.created, h.log.order, ?_, ?_, h.log.posted, ?_⟩,
    fun hneeds => ⟨(h.single hneeds).eq, (h.single hneeds).known⟩,
    { h.upTo with stores := LSQUnit.stores_send hw ▸ h.upTo.stores }, h.small⟩
  · refine (h.flight.flying p hp).imp_right fun ⟨e', he', hp'⟩ => ⟨e', ?_, hp'⟩
    exact mem_append_left _ he'
  · rw [hrest]
    exact fun p hp e' he' => h.log.le_waiting p hp e' (hmem e' he')
  · rw [hrest]
    exact fun hnil p hp e' he' => h.log.lt_waiting hnil p hp e' (hmem e' he')
  · rw [hrest]
    exact fun n hn e' he' => h.log.posted_lt n hn e' (hmem e' he')

/-- A store without packets is **completed on the spot**. -/
lemma PortInv.completeHere (h : x.PortInv [] a last) (hw : a.waiting = e :: W)
    (hwb : e.canWB = true) (htso : x.needsTSO = false ∨ x.storeInFlight = false) :
    ∃ a', a'.done = a.done ∧ x.completeHere.PortInv [] a' last ∧
      a'.waiting.length < a.waiting.length := by
  have hsent : a.send.sent = a.sent ++ [e] := by rw [LSQUnit.send_eq hw]
  have hk : a.sent.length < a.send.sent.length := by simp [hsent]
  have hget : a.send.sent[a.sent.length] = e := by simp [hsent]
  have hcompl : a.send.sent[a.sent.length].completed = false := by
    rw [hget]
    exact h.tracks.storeSide.waiting e (hw ▸ mem_cons_self)
  have hdone := (h.skip hw hwb).completeAt hk hcompl
    (fun p hp => hget ▸ h.ne_of_inFlight hw hp) fun hneeds _ => h.inFlight_eq_nil htso hneeds
  have hidx : index x.sqEntries x.storeHead a.sent.length = x.storeWBIdx :=
    h.tracks.storeSide.toSlots.storeWBIdx.symm
  dsimp only [setUnit] at hdone
  rw [LSQUnit.completeStore_setWB, hidx] at hdone
  refine ⟨_, LSQUnit.done_completed a.send _ _ _, hdone, ?_⟩
  rw [(LSQUnit.completed_rest a.send _ _ _).2.1]
  simp [LSQUnit.send_eq hw, hw]

end Complete

/-! ### Responses -/

section Respond

variable {pkt : StorePkt}

lemma countOf_erase (n : ℕ) (hp : pkt ∈ l) :
    countOf n (l.erase pkt) = countOf n l - if pkt.seqNum = n then 1 else 0 := by
  rw [countOf, countP_erase]
  simp [countOf, hp]

lemma countOf_pos (hp : p ∈ l) : 0 < countOf p.seqNum l := countP_pos_iff.mpr ⟨p, hp, by simp⟩

/-- A response to a packet comes. -/
lemma PortInv.respond (h : x.PortInv left a last) (hp : pkt ∈ x.inFlight)
    {st : Option LSQSenderState}
    (hst : ∀ n, countOf pkt.seqNum (x.inFlight ++ left) = n + 1 → n ≠ 0 →
      st.map LSQSenderState.waits = some (pkt.idx, n)) :
    PortInv ((x.answered pkt).setState pkt.seqNum st) left a last := by
  have hsub : ∀ p ∈ x.inFlight.erase pkt ++ left, p ∈ x.inFlight ++ left := fun p hp' =>
    mem_append.mpr ((mem_append.mp hp').imp_left fun h => erase_subset h)
  have hcount : ∀ n, countOf n (x.inFlight.erase pkt ++ left) =
      countOf n (x.inFlight ++ left) - if pkt.seqNum = n then 1 else 0 := by
    intro n
    rw [countOf_append, countOf_append, countOf_erase n hp]
    by_cases hn : pkt.seqNum = n
    · have := countOf_pos hp
      rw [hn] at this
      rw [if_pos hn]
      omega
    · rw [if_neg hn, Nat.sub_zero, Nat.sub_zero]
  refine ⟨h.tracks, ⟨h.flight.sending, fun p hp' => h.flight.flying p (erase_subset hp'),
    fun p hp' => ?_, fun hno p hp' => ?_⟩, { h.log with }, fun hneeds => ⟨fun p hp' q hq' => ?_,
    fun hleft hne => ?_⟩, { h.upTo with }, h.small⟩
  · have hold := h.flight.states p (hsub p hp')
    have hpos : 0 < countOf p.seqNum (x.inFlight.erase pkt ++ left) := countOf_pos hp'
    change _ = some (p.idx, countOf p.seqNum (x.inFlight.erase pkt ++ left))
    rw [hcount] at hpos ⊢
    by_cases hn : p.seqNum = pkt.seqNum
    · have hidx := h.flight.idx_eq (hsub p hp') (mem_append_left _ hp) hn
      rw [hn, if_pos rfl] at hpos ⊢
      rw [senderStates_setState_self, hidx]
      exact hst _ (by omega) (by omega)
    · rw [senderStates_setState_of_ne _ hn, if_neg (Ne.symm hn), Nat.sub_zero]
      exact hold
  · have hpos : 0 < countOf p.seqNum (x.inFlight.erase pkt ++ left) := countOf_pos hp'
    change countOf p.seqNum (x.inFlight.erase pkt ++ left) = 1
    have hold := h.flight.aligned hno p (hsub p hp')
    rw [hcount] at hpos ⊢
    omega
  · exact (h.single hneeds).eq p (hsub p hp') q (hsub q hq')
  · exact (h.single hneeds).known hleft (ne_nil_of_mem hp)

lemma PortInv.responded (hwf : x.Wf) (h : x.PortInv x.unsent a last) (hp : pkt ∈ x.inFlight)
    (st : Option LSQSenderState)
    (hst : ∀ n, countOf pkt.seqNum (x.inFlight ++ x.unsent) = n + 1 → n ≠ 0 →
      st.map LSQSenderState.waits = some (pkt.idx, n))
    (hrem : ∀ p, x.front = some p → p.seqNum = pkt.seqNum →
      st.map LSQSenderState.remembers = (x.senderStates pkt.seqNum).map LSQSenderState.remembers) :
    ((x.answered pkt).setState pkt.seqNum st).Wf ∧
      ((x.answered pkt).setState pkt.seqNum st).unsent = x.unsent ∧
      ((x.answered pkt).setState pkt.seqNum st).PortInv x.unsent a last := by
  have hwf' : (x.answered pkt).Wf := { hwf with }
  have hunsent : ((x.answered pkt).setState pkt.seqNum st).unsent = x.unsent := unsent_setState hrem
  exact ⟨hwf'.setState hrem, hunsent, h.respond hp hst⟩

lemma PortInv.completeDataAccess (hwf : x.Wf) (h : x.PortInv x.unsent a last)
    (hp : pkt ∈ x.inFlight) {isSquashed : Bool}
    (hr : x.completeDataAccess pkt isSquashed = .ok x') :
    ∃ a', x.Runs x' a a' last := by
  have hmem : pkt ∈ x.inFlight ++ x.unsent := mem_append_left _ hp
  obtain ⟨st, hst, hwaits⟩ := map_eq_some_iff.mp (h.flight.states pkt hmem)
  have hcount : st.outstanding = countOf pkt.seqNum (x.inFlight ++ x.unsent) :=
    congrArg Prod.snd hwaits
  have hidx : st.idx = pkt.idx := congrArg Prod.fst hwaits
  rw [LSQPort.completeDataAccess, hst] at hr
  dsimp only at hr
  split at hr
  · -- another packet of the store has no response yet
    cases hr
    obtain ⟨hwf', hunsent, hinv⟩ := h.responded hwf hp
      (some { st with outstanding := st.outstanding - 1 })
      (fun n hn _ => by
        simp only [LSQSenderState.waits, map_some, hidx]
        rw [hcount, hn, Nat.add_sub_cancel])
      (fun _ _ _ => by rw [hst]; rfl)
    exact ⟨a, hwf', hunsent ▸ hinv, rfl, id⟩
  · next hlast =>
    -- it was the last one
    have hone : countOf pkt.seqNum (x.inFlight ++ x.unsent) = 1 := by
      rw [Bool.and_eq_true, bne_iff_ne, not_and_or, not_not, Bool.not_eq_true] at hlast
      rcases hlast with hno | hone
      · exact h.flight.aligned hno pkt hmem
      · rw [← hcount, hone]
    rw [countOf_append] at hone
    have hpos := countOf_pos hp
    have hleft : ∀ p ∈ x.unsent, p.seqNum ≠ pkt.seqNum := fun p hp' hseq => by
      have := countOf_pos hp'
      rw [hseq] at this
      omega
    obtain ⟨hwf', hunsent, hinv⟩ := h.responded hwf hp none
      (fun n hn hne => by rw [countOf_append] at hn; omega)
      (fun p hfront hseq => absurd hseq (hleft p (mem_unsent_of_front hfront)))
    split at hr
    · cases hr
      exact ⟨a, hwf', hunsent ▸ hinv, rfl, id⟩
    · cases hr
      obtain ⟨e, he, hseq, hopen, hsq⟩ : ∃ e ∈ a.sent, e.seqNum = pkt.seqNum ∧
          e.completed = false ∧ e.sqIdx = some pkt.idx := by
        rcases h.flight.flying pkt hp with ⟨q, hq, hqp⟩ | hsent
        · exact absurd hqp (hleft q hq)
        · exact hsent
      obtain ⟨k, hk, rfl⟩ := mem_iff_getElem.mp he
      have hslots := h.tracks.storeSide.toSlots
      have hks : k < a.stores.length := by
        rw [ProgramOrder.stores, length_append]
        omega
      have hat : index x.sqEntries x.storeHead k = st.idx := by
        have hplace := hslots.sqIdx k hks
        rw [show a.stores[k] = a.sent[k] from getElem_append_left hk, hsq] at hplace
        rw [hidx, some.inj hplace]
      have hgone : countOf pkt.seqNum (x.inFlight.erase pkt) = 0 := by
        rw [countOf_erase _ hp, if_pos rfl]
        omega
      have hother : ∀ p ∈ x.inFlight.erase pkt, p.seqNum ≠ pkt.seqNum := fun p hp' hpk => by
        have hpos := countOf_pos hp'
        rw [hpk, hgone] at hpos
        omega
      have hdone := hinv.completeAt hk hopen (fun p hp' => hseq ▸ hother p hp') fun hneeds _ => by
        refine eq_nil_iff_forall_not_mem.mpr fun p hp' => hother p hp' ?_
        exact (h.single hneeds).eq p (mem_append_left _ (erase_subset hp')) pkt hmem
      refine ⟨LSQUnit.completed a x.sqEntries x.storeHead k, hwf'.setUnit _, ?_,
        LSQUnit.done_completed a _ _ _, id⟩
      rw [unsent_setUnit, hunsent, ← hat]
      exact hdone

end Respond

/-- Stores sent or about to be are kept; new ones are younger than `last`. -/
structure Keeps (a a' : ProgramOrder) (last : ℕ) : Prop where
  sent : ∀ e ∈ a.sent, ∃ e' ∈ a'.sent,
    e'.seqNum = e.seqNum ∧ e'.completed = e.completed ∧ e'.sqIdx = e.sqIdx
  head : ∀ e W, a.waiting = e :: W → e.canWB = true →
    ∃ e' W', a'.waiting = e' :: W' ∧ e'.canWB = true ∧ e'.seqNum = e.seqNum
  waiting : ∀ e' ∈ a'.waiting, (∃ e ∈ a.waiting, e.seqNum = e'.seqNum) ∨ last < e'.seqNum

lemma Keeps.refl (a : ProgramOrder) (last : ℕ) : Keeps a a last :=
  ⟨fun e he => ⟨e, he, rfl, rfl, rfl⟩, fun e W hw hwb => ⟨e, W, hw, hwb, rfl⟩,
    fun e he => .inl ⟨e, he, rfl⟩⟩

/-- **What the pipeline does** to the queues keeps the invariant. -/
lemma PortInv.of_keeps (h : x.PortInv left a last) {s : LSQUnit}
    (hs : LSQUnit.SamePort x.toLSQUnit s)
    (htracks : s.Tracks a') (hkeeps : Keeps a a' last) (hle : last ≤ last')
    (hloads : ∀ ld ∈ a'.loads, ld.seqNum ≤ last') (hstores : ∀ e ∈ a'.stores, e.seqNum ≤ last') :
    (x.setUnit s).PortInv left a' last' := by
  refine ⟨htracks, ⟨fun p hp => ?_, fun p hp => (h.flight.flying p hp).imp_right ?_,
    h.flight.states, h.flight.aligned⟩, ⟨h.log.created, h.log.order, fun p hp e' he' => ?_,
    fun hnil p hp e' he' => ?_, h.log.posted, fun n hn e' he' => ?_⟩,
    fun hneeds => ⟨?_, fun hleft hne => ?_⟩,
    ⟨hloads, hstores, fun p hp => (h.upTo.created p hp).trans hle,
      fun n hn => (h.upTo.posted n hn).trans hle⟩, hs.sqEntries.trans_le h.small⟩
  · obtain ⟨e, W, hw, hwb, hseq, hidx⟩ := h.flight.sending p hp
    obtain ⟨e', W', hw', hwb', hseq'⟩ := hkeeps.head e W hw hwb
    exact ⟨e', W', hw', hwb', hseq.trans hseq'.symm, hidx.trans hs.storeWBIdx.symm⟩
  · rintro ⟨e, he, hseq, hopen, hidx⟩
    obtain ⟨e', he', hseq', hopen', hidx'⟩ := hkeeps.sent e he
    exact ⟨e', he', hseq'.trans hseq, hopen'.trans hopen, hidx'.trans hidx⟩
  · rcases hkeeps.waiting e' he' with ⟨e, he, hseq⟩ | hlt
    · exact hseq ▸ h.log.le_waiting p hp e he
    · exact (h.upTo.created p hp).trans hlt.le
  · rcases hkeeps.waiting e' he' with ⟨e, he, hseq⟩ | hlt
    · exact hseq ▸ h.log.lt_waiting hnil p hp e he
    · exact (h.upTo.created p hp).trans_lt hlt
  · rcases hkeeps.waiting e' he' with ⟨e, he, hseq⟩ | hlt
    · exact hseq ▸ h.log.posted_lt n hn e he
    · exact (h.upTo.posted n hn).trans_lt hlt
  · exact (h.single (hs.needsTSO.symm.trans hneeds)).eq
  · exact hs.storeInFlight.trans ((h.single (hs.needsTSO.symm.trans hneeds)).known hleft hne)

end LSQPort

end ShifDram
