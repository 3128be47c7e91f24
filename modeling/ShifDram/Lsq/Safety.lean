import ShifDram.Lsq.Forward
import ShifDram.Lsq.Interleave

/-!
What holds of the queues and of the packets in every interleaving.
-/

namespace ShifDram

open RingBuffer Fallible List Option

namespace LSQUnit

/-- The store `k` places after the head may write back and is not completed. -/
def pendingAt (s : LSQUnit) (k : ℕ) : Bool :=
  (s.storeQueue (index s.sqEntries s.storeHead k)).any fun e => e.canWB && !e.completed

/-- What indices and counters say about the queues. -/
structure Consistent (s : LSQUnit) : Prop where
  loads : s.loads = distance s.lqEntries s.loadHead s.loadTail
  stores : s.stores = distance s.sqEntries s.storeHead s.storeTail
  loadSlots : ∀ k < s.loads, (s.loadQueue (index s.lqEntries s.loadHead k)).isSome = true
  storeSlots : ∀ k < s.stores, (s.storeQueue (index s.sqEntries s.storeHead k)).isSome = true
  loadOrder : ∀ k m, k < m → m < s.loads → ∀ ld ld',
    s.loadQueue (index s.lqEntries s.loadHead k) = some ld →
    s.loadQueue (index s.lqEntries s.loadHead m) = some ld' → ld.seqNum < ld'.seqNum
  storeOrder : ∀ k m, k < m → m < s.stores → ∀ e e',
    s.storeQueue (index s.sqEntries s.storeHead k) = some e →
    s.storeQueue (index s.sqEntries s.storeHead m) = some e' → e.inst.seqNum < e'.inst.seqNum
  storeWBIdx : s.storeWBIdx < s.sqEntries ∧
    distance s.sqEntries s.storeHead s.storeWBIdx ≤ s.stores
  storesToWB : s.storesToWB = (List.range s.stores).countP s.pendingAt
  completed : ∀ k < s.stores, ∀ e, s.storeQueue (index s.sqEntries s.storeHead k) = some e →
    e.completed = true → k < distance s.sqEntries s.storeHead s.storeWBIdx

variable {s : LSQUnit} {a : ProgramOrder}

lemma LoadSide.get (h : s.LoadSide a) {k : ℕ} (hk : k < s.loads) :
    ∃ (hk' : k < a.loads.length) (ld : LsqInst),
      s.loadQueue (index s.lqEntries s.loadHead k) = some ld ∧ a.loads[k] = ld.key := by
  rw [h.loads_eq] at hk
  have hget := h.loads.get k (by simpa using hk)
  rw [getElem_map] at hget
  obtain ⟨ld, hld, hkey⟩ := exists_of_loadKeys hget
  exact ⟨hk, ld, hld, hkey.symm⟩

lemma StoreSide.get (h : s.StoreSide a) {k : ℕ} (hk : k < s.stores) :
    ∃ (hk' : k < a.stores.length) (e : SQEntry),
      s.storeQueue (index s.sqEntries s.storeHead k) = some e ∧ a.stores[k] = e.key := by
  rw [h.stores_eq] at hk
  have hget := h.stores.get k (by simpa using hk)
  rw [getElem_map] at hget
  obtain ⟨e, he, hkey⟩ := exists_of_storeKeys hget
  exact ⟨hk, e, he, hkey.symm⟩

lemma Tracks.countP_pendingAt (h : s.Tracks a) :
    s.storesToWB = (List.range s.stores).countP s.pendingAt := by
  obtain ⟨S, hS, hheld⟩ := h.storeSide.toSlots.exists_stores
  have hlen : s.stores = (S.map some).length := by
    rw [h.storeSide.stores_eq, ← hS, length_map, length_map]
  have hrange := hheld.map_range
  rw [← hlen] at hrange
  calc s.storesToWB = (S.map SQEntry.key).countP StoreKey.pending := by rw [hS, h.storesToWB]
    _ = (S.map some).countP fun e => e.any fun e => e.canWB && !e.completed := by
        rw [countP_map, countP_map]
        rfl
    _ = (range s.stores).countP s.pendingAt := by
        rw [← hrange, countP_map]
        rfl

lemma Tracks.consistent (h : s.Tracks a) : s.Consistent := by
  have hlen := h.storeSide.stores.length_lt
  have hloads := h.loadSide.loads.length_eq_distance
  have hstores := h.storeSide.stores.length_eq_distance
  rw [length_map] at hlen hloads hstores
  have hsplit : a.stores.length = a.sent.length + a.waiting.length := length_append
  have hwb : distance s.sqEntries s.storeHead s.storeWBIdx = a.sent.length := by
    rw [h.storeSide.storeWBIdx, distance_index h.storeSide.stores.head_lt (by omega)]
  refine ⟨h.loadSide.loads_eq.trans hloads, h.storeSide.stores_eq.trans hstores, fun k hk => ?_,
    fun k hk => ?_, fun k m hkm hm ld ld' hld hld' => ?_, fun k m hkm hm e e' he he' => ?_,
    ⟨?_, ?_⟩, h.countP_pendingAt, fun k hk e he hcompl => ?_⟩
  · obtain ⟨-, ld, hld, -⟩ := h.loadSide.get hk
    rw [hld]
    rfl
  · obtain ⟨-, e, he, -⟩ := h.storeSide.get hk
    rw [he]
    rfl
  · obtain ⟨hk', x, hx, hxk⟩ := h.loadSide.get (hkm.trans hm)
    obtain ⟨hm', y, hy, hym⟩ := h.loadSide.get hm
    obtain rfl := some.inj (hx.symm.trans hld)
    obtain rfl := some.inj (hy.symm.trans hld')
    have hlt := pairwise_iff_getElem.mp h.loadSide.sorted k m hk' hm' hkm
    rwa [hxk, hym] at hlt
  · obtain ⟨hk', x, hx, hxk⟩ := h.storeSide.get (hkm.trans hm)
    obtain ⟨hm', y, hy, hym⟩ := h.storeSide.get hm
    obtain rfl := some.inj (hx.symm.trans he)
    obtain rfl := some.inj (hy.symm.trans he')
    have hlt := pairwise_iff_getElem.mp h.storeSide.sorted k m hk' hm' hkm
    rwa [hxk, hym] at hlt
  · rw [h.storeSide.storeWBIdx]
    exact index_lt h.storeSide.stores.head_lt (by omega)
  · rw [hwb, h.storeSide.stores_eq]
    omega
  · obtain ⟨hk', x, hx, hxk⟩ := h.storeSide.get hk
    obtain rfl := some.inj (hx.symm.trans he)
    rw [hwb]
    by_contra hle
    have hget : a.stores[k] = a.waiting[k - a.sent.length] := getElem_append_right (not_lt.mp hle)
    have hno := h.storeSide.waiting _ (getElem_mem (by omega) : a.waiting[k - a.sent.length] ∈ _)
    rw [← hget, hxk] at hno
    cases hno.symm.trans hcompl

end LSQUnit

namespace Pipeline

variable {r : Pipeline}

/-- **The queues are consistent** in every interleaving: the counters are the distances and numbers
they stand for, the sequence numbers increase, completed stores have been passed by `storeWBIdx`,
and no squash of uncommitted instructions panics. The loop of `writebackStores` ends by itself. -/
theorem queues_consistent (h : Reachable (fun _ => True) r) : r.port.Consistent ∧
    (∀ squashed, r.doneSeqNum ≤ squashed → r.port.squash squashed ≠ none) ∧
    ∀ usedPorts pending answers x,
      (if r.port.hasUnalignedMemAcc then r.port.writebackPendingStore pending else .ok r.port) =
        .ok x →
      ∀ rounds ≥ x.sqEntries, LSQPort.writebackLoop rounds answers x usedPorts =
        LSQPort.writebackLoop x.sqEntries answers x usedPorts := by
  obtain ⟨a, hwf, hinv, hdone⟩ := h.good
  refine ⟨hinv.tracks.consistent, fun y hy => ?_,
    fun usedPorts pending answers x hx rounds hle => ?_⟩
  · obtain ⟨s, hs, -⟩ := hinv.tracks.squash (hdone ▸ hy)
    rw [hs]
    exact some_ne_none s
  · obtain ⟨a', hruns, hno⟩ := LSQPort.PortInv.pendingSent hwf hinv hx
    exact hruns.inv.writebackLoop_of_le hruns.wf
      (fun hp => absurd (hno.symm.trans hp) (by simp)) hle

end Pipeline

def onePort (pendingPkt : Option StorePkt) : LSQPort := .init 4 4 0 1 false false true pendingPkt

def splitAcc : StoreAcc :=
  .ofWriteMem (executedAt 0 0 0 false)
    ⟨eightBytes 0x3ffc 0x3ffc, some { eightBytes 0x3ffc 0x3ffc with size := 4 },
      some { eightBytes 0x4000 0x4000 with size := 4 }, List.replicate 8 7#8, ⟨.rowAnd, 0, 0, 0⟩⟩

def splitStored (pendingPkt : Option StorePkt) : Pipeline :=
  ⟨(onePort pendingPkt).setUnit ((oneStore.afterStore onlyStore splitAcc).commitStores 1), 1, 1⟩

lemma reachable_splitStored {start : LSQPort → Prop} {pendingPkt : Option StorePkt}
    (hstart : start (onePort pendingPkt)) :
    Pipeline.Reachable start (splitStored pendingPkt) := by
  have h₁ : Pipeline.Reachable start ⟨(onePort pendingPkt).setUnit oneStore, 0, 1⟩ :=
    .step (.init (by decide) (by decide) hstart)
      (@Pipeline.Step.insertStore _ (.dispatched 1 false) _ Nat.one_pos rfl)
  have h₂ : Pipeline.Reachable start
      ⟨(onePort pendingPkt).setUnit (oneStore.afterStore onlyStore splitAcc), 0, 1⟩ :=
    .step h₁ (@Pipeline.Step.executeStore _ onlyStore splitAcc _ ⟨0, Nat.one_pos, rfl⟩
      (fun hcond => by cases hcond) rfl)
  exact .step h₂ (.commitStores (Nat.zero_le 1))

namespace Pipeline

theorem queues_consistent_splitStored : (splitStored none).port.Consistent ∧
      ∀ squashed, 1 ≤ squashed → (splitStored none).port.squash squashed ≠ none :=
  have h := queues_consistent (reachable_splitStored trivial)
  ⟨h.1, h.2.1⟩

end Pipeline

structure LSQPort.PacketsInOrder (x : LSQPort) : Prop where
  /-- Packets are taken at most once, in program order, a store's first before the second. -/
  accepted : x.accepted.Pairwise StorePkt.Before
  /-- `storePostSend` runs at most once for a store. -/
  posted : x.posted.Nodup
  /-- It runs after all packets of the store are taken. -/
  postedAll : ∀ n ∈ x.posted, ∀ p ∈ x.created, p.seqNum = n → p ∈ x.accepted
  /-- A packet not taken is of the store at the write-back index. -/
  unaccepted : ∀ p ∈ x.created, p ∉ x.accepted → x.storeWBIdx ≠ x.storeTail ∧
    ∃ e, x.storeQueue x.storeWBIdx = some e ∧ e.inst.seqNum = p.seqNum
  /-- With total store order at most one store is in flight. -/
  inFlight : x.needsTSO = true → ∀ p ∈ x.inFlight, ∀ q ∈ x.inFlight, p.seqNum = q.seqNum
  /-- No assertion about `retryPkt` or `pendingPkt` fails. -/
  writebackStores : ∀ usedPorts pending answers,
    FailsWith (fun err => ¬ PacketAssert err) (x.writebackStores usedPorts pending answers)
  recvRetry : ∀ first second,
    FailsWith (fun err => ¬ PacketAssert err) (x.recvRetry first second)

namespace Pipeline

variable {r : Pipeline}

/-- **Packets go out in order** in every interleaving, if `pendingPkt` is null at first. -/
theorem packets_in_order (h : Reachable LSQPort.Safe r) : r.port.PacketsInOrder := by
  obtain ⟨a, hwf, hinv, -⟩ := h.good
  have hcreated := hinv.log.created
  have hslots := hinv.tracks.storeSide.toSlots
  refine ⟨?_, hinv.log.posted.imp fun hlt => hlt.ne, fun n hn p hp hpn => ?_, fun p hp hno => ?_,
    fun hneeds p hp q hq => ?_, hinv.failsWith_writebackStores hwf h.safe,
    LSQPort.failsWith_recvRetry hwf⟩
  · have horder := hinv.log.order
    rw [hcreated] at horder
    exact (pairwise_append.mp horder).1
  · rw [hcreated] at hp
    rcases mem_append.mp hp with hp | hp
    · exact hp
    · obtain ⟨e, W, hw, -, hseq, -⟩ := hinv.flight.sending p hp
      have := hinv.log.posted_lt n hn e (hw ▸ mem_cons_self)
      omega
  · rw [hcreated] at hp
    obtain ⟨e, W, hw, -, hseq, -⟩ := hinv.flight.sending p ((mem_append.mp hp).resolve_left hno)
    have hheld := hslots.waiting
    rw [hw] at hheld
    obtain ⟨hne, hget, -⟩ := hheld.uncons
    obtain ⟨entry, hentry, rfl⟩ := LSQUnit.exists_of_storeKeys hget
    exact ⟨hne, entry, hentry, hseq.symm⟩
  · exact (hinv.single hneeds).eq p (mem_append_left _ hp) q (mem_append_left _ hq)

/-- The split store's second packet waits for a port. -/
def parked : LSQPort :=
  ((splitStored none).port.writebackStores 0 false fun _ => ⟨true, true, true⟩).toOption.getD
    (onePort none)

lemma reachable_parked : Reachable LSQPort.Safe ⟨parked, 1, 1⟩ :=
  .step (reachable_splitStored fun _ _ => rfl)
    (@Step.writebackStores _ 0 false (fun _ => ⟨true, true, true⟩) parked rfl)

theorem packets_in_order_parked :
    parked.created = [⟨1, 0, false⟩, ⟨1, 0, true⟩] ∧ parked.accepted = [⟨1, 0, false⟩] ∧
      parked.PacketsInOrder :=
  ⟨by decide, by decide, packets_in_order reachable_parked⟩

/-- With a left-over pointer, the first store to wait for a port fails the assertion. -/
theorem pendingPkt_assert_fails : Reachable (fun _ => True) (splitStored (some ⟨0, 0, false⟩)) ∧
      (splitStored (some ⟨0, 0, false⟩)).port.hasPendingPkt = false ∧
      (splitStored (some ⟨0, 0, false⟩)).port.writebackStores 0 false
        (fun _ => ⟨true, true, true⟩) = .error .pendingPkt :=
  ⟨reachable_splitStored trivial, rfl, rfl⟩

end Pipeline

end ShifDram
