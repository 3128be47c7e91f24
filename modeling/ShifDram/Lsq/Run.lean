import ShifDram.Lsq.Counters

/-!
Runs of the load and store queues.

Instructions are dispatched in program order; loads and stores execute in any order; `commit` is
the pair of calls that IEW makes with the youngest committed instruction; a squash never reaches a
store that may write back. The loop of `writebackStores` is taken apart into its steps: a store is
sent, completed on the spot, or skipped; the response to a sent store completes it.
-/

namespace ShifDram

open RingBuffer ProgramOrder List Option

/-- The queues, and the youngest instruction committed. -/
structure LsqRun where
  unit : LSQUnit
  doneSeqNum : ℕ

namespace LSQUnit

/-- The store in slot `storeWBIdx` is next to write back. -/
def ReadyToWB (s : LSQUnit) (e : SQEntry) : Prop :=
  s.storeWBIdx ≠ s.storeTail ∧ s.storeQueue s.storeWBIdx = some e ∧ e.canWB = true

/-- The store `k` places after the head has been sent. -/
def Sent (s : LSQUnit) (k : ℕ) : Prop :=
  k < s.stores ∧ ∀ j ≤ k, index s.sqEntries s.storeHead j ≠ s.storeWBIdx

end LSQUnit

namespace LsqRun

/-- One step of the pipeline on the queues. -/
inductive Step : LsqRun → LsqRun → Prop
  | insertLoad {r : LsqRun} {inst : LsqInst} {s : LSQUnit}
      (hdone : r.doneSeqNum < inst.seqNum)
      (hloads : ∀ ld, r.unit.InLoadQueue ld → ld.seqNum < inst.seqNum)
      (hstores : ∀ e, r.unit.InStoreQueue e → e.inst.seqNum < inst.seqNum)
      (h : r.unit.insertLoad inst = some s) : Step r ⟨s, r.doneSeqNum⟩
  | insertStore {r : LsqRun} {inst : LsqInst} {s : LSQUnit}
      (hloads : ∀ ld, r.unit.InLoadQueue ld → ld.seqNum < inst.seqNum)
      (hstores : ∀ e, r.unit.InStoreQueue e → e.inst.seqNum < inst.seqNum)
      (h : r.unit.insertStore inst = some s) : Step r ⟨s, r.doneSeqNum⟩
  | executeLoad {r : LsqRun} {inst : LsqInst} {acc : LoadAcc} {x : LSQUnit × Option LsqFault}
      (hslot : r.unit.loadQueue inst.lqIdx = some inst)
      (h : r.unit.executeLoad inst acc = some x) : Step r ⟨x.1, r.doneSeqNum⟩
  -- a store conditional executes when it is the oldest instruction
  | executeStore {r : LsqRun} {e : SQEntry} {acc : StoreAcc} {x : LSQUnit × Option LsqFault}
      (he : r.unit.InStoreQueue e)
      (hcond : e.inst.isStoreConditional = true →
        ∀ ld, r.unit.InLoadQueue ld → e.inst.seqNum < ld.seqNum)
      (h : r.unit.executeStore e.inst acc = some x) : Step r ⟨x.1, r.doneSeqNum⟩
  | commit {r : LsqRun} {youngest : ℕ} (hdone : r.doneSeqNum ≤ youngest) :
      Step r ⟨(r.unit.commitStores youngest).commitLoads youngest, youngest⟩
  | squash {r : LsqRun} {squashed : ℕ} {s : LSQUnit}
      (hwb : ∀ e, r.unit.InStoreQueue e → e.canWB = true → e.inst.seqNum ≤ squashed)
      (h : r.unit.squash squashed = some s) : Step r ⟨s, r.doneSeqNum⟩
  | sendStore {r : LsqRun} {e : SQEntry} (he : r.unit.ReadyToWB e) :
      Step r ⟨r.unit.storePostSend, r.doneSeqNum⟩
  -- nothing to write, a failed store conditional or a memory-mapped register
  | completeHere {r : LsqRun} {e : SQEntry} (he : r.unit.ReadyToWB e) :
      Step r ⟨{ r.unit.completeStore r.unit.storeWBIdx with
        storeWBIdx := r.unit.incrStIdx r.unit.storeWBIdx }, r.doneSeqNum⟩
  -- a data prefetch
  | skipStore {r : LsqRun} {e : SQEntry} (he : r.unit.ReadyToWB e) :
      Step r ⟨{ r.unit with storeWBIdx := r.unit.incrStIdx r.unit.storeWBIdx }, r.doneSeqNum⟩
  | completeStore {r : LsqRun} {k : ℕ} (hk : r.unit.Sent k) :
      Step r ⟨r.unit.completeStore (index r.unit.sqEntries r.unit.storeHead k), r.doneSeqNum⟩
  | getMemDepViolator {r : LsqRun} : Step r ⟨r.unit.getMemDepViolator.2, r.doneSeqNum⟩
  -- the rest of the pipeline changes other fields of an instruction
  | updateLoad {r : LsqRun} {i : ℕ} {ld ld' : LsqInst} (hslot : r.unit.loadQueue i = some ld)
      (hkey : ld'.key = ld.key) (hlqIdx : ld'.lqIdx = ld.lqIdx) :
      Step r ⟨r.unit.setLoad i (some ld'), r.doneSeqNum⟩
  | updateStore {r : LsqRun} {i : ℕ} {e e' : SQEntry} (hslot : r.unit.storeQueue i = some e)
      (hkey : e'.key = e.key) : Step r ⟨r.unit.setStore i (some e'), r.doneSeqNum⟩

inductive Reachable : LsqRun → Prop
  | init (maxLQEntries maxSQEntries depCheckShift : ℕ) (checkLoads needsTSO : Bool) :
      Reachable ⟨.init maxLQEntries maxSQEntries depCheckShift checkLoads needsTSO, 0⟩
  | step {r r' : LsqRun} (h : Reachable r) (hstep : Step r r') : Reachable r'

end LsqRun

namespace LSQUnit

variable {s s' : LSQUnit} {a : ProgramOrder} {inst : LsqInst} {e : SQEntry} {y k : ℕ}

lemma ReadyToWB.exists_waiting (he : s.ReadyToWB e) (h : s.Slots a) : ∃ W, a.waiting = e.key :: W :=
  h.exists_waiting he.1 he.2.1

lemma Sent.lt_length (hk : s.Sent k) (h : s.Slots a) : k < a.sent.length := by
  by_contra hle
  exact hk.2 _ (not_lt.mp hle) h.storeWBIdx.symm

lemma sameOrder_storePostSend (s : LSQUnit) :
    SameOrder { s with storeWBIdx := s.incrStIdx s.storeWBIdx } s.storePostSend := by
  rw [storePostSend]
  cases s.storeQueue s.storeWBIdx with
  | none => exact { SameOrder.refl _ with }
  | some e =>
    dsimp only
    rw [unstall]
    split_ifs
    · exact { SameOrder.refl _ with }
    · exact { SameOrder.refl _ with }

lemma sameOrder_stallOn (s : LSQUnit) (i : ℕ) (ld : LsqInst) (j : ℕ) :
    SameOrder s (s.stallOn i ld j) := by
  rw [stallOn]
  split_ifs
  · exact { SameOrder.refl s with }
  · exact .refl s

lemma sameOrder_executeLoad {acc : LoadAcc} {r : LSQUnit × Option LsqFault}
    (hslot : s.loadQueue inst.lqIdx = some inst) (h : s.executeLoad inst acc = some r) :
    SameOrder s r.1 := by
  obtain ⟨s₁, ld, hsame, -, hlast | ⟨-, -, -, j, -, hlast⟩⟩ := executeLoad_cases hslot h
  · exact (hsame.trans hlast).toSameOrder
  · exact (hsame.toSameOrder.trans (sameOrder_stallOn _ _ _ _)).trans hlast.toSameOrder

/-! ### The younger loads -/

/-- An uncommitted store records the first younger load's place. -/
def LoadPlaces (s : LSQUnit) (a : ProgramOrder) : Prop :=
  ∀ e ∈ a.stores, a.done < e.seqNum →
    e.lqIdx = index s.lqEntries s.loadHead (a.olderLoads e.seqNum).length

namespace LoadPlaces

variable (h : s.LoadPlaces a)

include h

lemma of_eq (hlq : s'.lqEntries = s.lqEntries) (hhead : s'.loadHead = s.loadHead) :
    s'.LoadPlaces a := by
  intro e he hlt
  rw [hlq, hhead]
  exact h e he hlt

lemma of_sameOrder (hs : SameOrder s s') : s'.LoadPlaces a := h.of_eq hs.lqEntries hs.loadHead

/-- The stores change in other respects, or some leave. -/
lemma of_stores {a' : ProgramOrder} (hloads : a'.loads = a.loads) (hdone : a.done ≤ a'.done)
    (hstores : ∀ x ∈ a'.stores, ∃ e ∈ a.stores, x.seqNum = e.seqNum ∧ x.lqIdx = e.lqIdx) :
    s.LoadPlaces a' := by
  intro x hx hlt
  obtain ⟨e, he, hseq, hlq⟩ := hstores x hx
  rw [hlq, hseq, olderLoads, hloads]
  exact h e he (hdone.trans_lt (hseq ▸ hlt))

lemma mapStores {f : StoreKey → StoreKey} (hf : KeepsPlaces f) : s.LoadPlaces (a.mapStores f) := by
  refine h.of_stores rfl le_rfl fun x hx => ?_
  rw [stores_mapStores] at hx
  obtain ⟨e, he, rfl⟩ := mem_map.mp hx
  exact ⟨e, he, hf.seqNum e, hf.lqIdx e⟩

lemma commitStores (hplaced : s.Placed a) (hy : a.done ≤ y) :
    (s.commitStores y).LoadPlaces (a.commitStores y) := by
  have hlen := hplaced.storeSide.stores.length_lt
  rw [length_map] at hlen
  obtain ⟨q, hq, -⟩ :=
    exists_commitStoresFrom y hplaced.storeSide.stores hplaced.storeSide.sorted hlen.le
  rw [LSQUnit.commitStores, hq]
  have hmap := h.mapStores (keepsPlaces_commitStore y)
  have hcommit : s.LoadPlaces (a.commitStores y) :=
    hmap.of_stores rfl hy fun x hx => ⟨x, hx, rfl, rfl⟩
  exact hcommit.of_eq rfl rfl

lemma send {e : StoreKey} {W : List StoreKey} (hw : a.waiting = e :: W) : s.LoadPlaces a.send := by
  refine h.of_stores rfl le_rfl fun x hx => ⟨x, ?_, rfl, rfl⟩
  rwa [stores_send hw] at hx

lemma complete (hplaced : s.Placed a) (hk : k < a.sent.length) :
    (s.completeStore (index s.sqEntries s.storeHead k)).LoadPlaces
      (completed a s.sqEntries s.storeHead k) := by
  obtain ⟨entry, hentry, -⟩ := hplaced.storeSide.toSlots.exists_sent hk
  obtain ⟨q, head, m, b, n, f, heq, -⟩ := completeStore_frame hentry
  obtain ⟨hloads, -, hdone⟩ := completed_rest a s.sqEntries s.storeHead k
  rw [heq]
  refine (h.of_stores hloads hdone.ge fun x hx => ?_).of_eq rfl rfl
  obtain ⟨e, he, hseq, hlq, -⟩ := mem_stores_of_completed hx
  exact ⟨e, he, hseq, hlq⟩

lemma insertLoad (hins : s.insertLoad inst = some s')
    (hstores : ∀ e ∈ a.stores, e.seqNum < inst.seqNum) :
    s'.LoadPlaces (a.insertLoad (s.placeLoad inst).key) := by
  rw [LSQUnit.insertLoad] at hins
  split_ifs at hins
  cases hins
  intro e he hlt
  have holder : (a.insertLoad (s.placeLoad inst).key).olderLoads e.seqNum =
      a.olderLoads e.seqNum := by
    refine takeWhile_append_of_forall_neg fun ld hld => ?_
    rw [mem_singleton.mp hld]
    exact decide_eq_false (hstores e he).le.not_gt
  rw [holder]
  exact h e he hlt

lemma insertStore (hplaced : s.Placed a) (hins : s.insertStore inst = some s')
    (hloads : ∀ ld ∈ a.loads, ld.seqNum < inst.seqNum) :
    s'.LoadPlaces (a.insertStore (SQEntry.ofInst (s.placeStore inst)).key) := by
  rw [LSQUnit.insertStore] at hins
  split_ifs at hins
  cases hins
  intro e he hlt
  rw [stores_insertStore] at he
  rcases mem_snoc.mp he with he | rfl
  · exact h e he hlt
  · have holder : a.olderLoads inst.seqNum = a.loads :=
      takeWhile_eq_self_iff.mpr fun ld hld => decide_eq_true (hloads ld hld)
    change s.loadTail = index s.lqEntries s.loadHead (a.olderLoads inst.seqNum).length
    rw [holder, hplaced.loadSide.loads.tail_eq, length_map]

lemma commitLoads (hplaced : s.Placed a) (hy : a.done ≤ y) :
    (s.commitLoads y).LoadPlaces (a.commitLoads y) := by
  obtain ⟨q, hq, -⟩ := exists_commitLoadsLoop y hplaced.loadSide.loads hplaced.loadSide.loads_eq
    hplaced.loadSide.loads_eq.ge
  rw [LSQUnit.commitLoads, hq]
  intro e he hlt
  -- the loads before the store are those that leave, and those that are left
  have holder : a.olderLoads e.seqNum =
      a.loads.takeWhile (LoadKey.committed y) ++ (a.commitLoads y).olderLoads e.seqNum := by
    rw [olderLoads, olderLoads, ProgramOrder.commitLoads]
    nth_rewrite 1 [← takeWhile_append_dropWhile (p := LoadKey.committed y) (l := a.loads)]
    refine takeWhile_append_of_pos fun ld hld => ?_
    have hcommitted : ld.committed y = true := mem_takeWhile_imp hld
    exact decide_eq_true ((of_decide_eq_true hcommitted).trans_lt hlt)
  have hlen := hplaced.loadSide.loads.length_lt
  have hle := a.length_olderLoads_le e.seqNum
  rw [length_map] at hlen
  rw [holder, length_append] at hle
  rw [h e he (hy.trans_lt hlt), holder, length_append,
    ← index_index hplaced.loadSide.loads.head_lt (by omega)]

lemma squash (hplaced : s.Placed a) (hwb : ∀ e ∈ a.stores, e.canWB = true → e.seqNum ≤ y) :
    s.LoadPlaces (a.squash y) := by
  intro e he hlt
  have hdropped : ∀ x ∈ a.stores, dropped y x = decide (y < x.seqNum) := by
    intro x hx
    cases hcan : x.canWB
    · rw [dropped, hcan, Bool.not_false, Bool.true_and]
      rfl
    · rw [dropped, hcan, decide_eq_false (hwb x hx hcan).not_gt]
      rfl
  have hle : e.seqNum ≤ y := by
    rw [← hplaced.stores_squash] at he
    exact forall_neg_of_mem_rdropWhile hdropped hplaced.storeSide.sorted e he
  have hstores : (a.squash y).stores <+: a.stores := stores_rdropWhile a _
  rw [ProgramOrder.squash, olderLoads_rdropWhile a _ fun ld hld =>
    hle.trans (of_decide_eq_true hld).le]
  exact h e (hstores.subset he) hlt

end LoadPlaces

lemma forall_lt_completed {a : ProgramOrder} (h : ∀ ld ∈ a.loads, a.done < ld.seqNum)
    (n head k : ℕ) :
    ∀ ld ∈ (completed a n head k).loads, (completed a n head k).done < ld.seqNum := by
  obtain ⟨hloads, -, hdone⟩ := completed_rest a n head k
  rw [hloads, hdone]
  exact h

end LSQUnit

namespace LsqRun

/-! ### Program order along a run -/

def InOrder (r : LsqRun) : Prop :=
  ∃ a : ProgramOrder, r.unit.Placed a ∧ r.unit.LoadPlaces a ∧ (∀ ld ∈ a.loads, a.done < ld.seqNum) ∧
    a.done = r.doneSeqNum

/-- **One step** keeps the queues in program order. -/
lemma Step.inOrder {r r' : LsqRun} (hstep : Step r r') (h : r.InOrder) : r'.InOrder := by
  obtain ⟨a, hplaced, hplaces, hlater, hdone⟩ := h
  have hslots := hplaced.storeSide.toSlots
  -- what is younger than the queues is younger than what they stand for
  have hold : ∀ {n}, (∀ ld, r.unit.InLoadQueue ld → ld.seqNum < n) →
      ∀ ld ∈ a.loads, ld.seqNum < n := fun hlt ld hld => by
    obtain ⟨x, hx, rfl⟩ :=
      LSQUnit.exists_inLoadQueue hplaced.loadSide.loads hplaced.loadSide.loads_eq hld
    exact hlt x hx
  have hold' : ∀ {n}, (∀ e, r.unit.InStoreQueue e → e.inst.seqNum < n) →
      ∀ e ∈ a.stores, e.seqNum < n := fun hlt e he => by
    obtain ⟨x, hx, rfl⟩ := hslots.exists_inStoreQueue he
    exact hlt x hx
  cases hstep with
  | @insertLoad inst s hlt hloads hstores hins =>
    refine ⟨_, hplaced.insertLoad hins (hold hloads) (hold' hstores),
      hplaces.insertLoad hins (hold' hstores), fun ld hld => ?_, hdone⟩
    rcases mem_snoc.mp hld with hld | rfl
    · exact hlater ld hld
    · exact hdone ▸ hlt
  | insertStore hloads hstores hins =>
    exact ⟨_, hplaced.insertStore hins (hold hloads) (hold' hstores),
      hplaces.insertStore hplaced hins (hold hloads), hlater, hdone⟩
  | executeLoad hslot hx =>
    have hsame := LSQUnit.sameOrder_executeLoad hslot hx
    exact ⟨a, hplaced.of_sameOrder hsame, hplaces.of_sameOrder hsame, hlater, hdone⟩
  | @executeStore e acc x he hcond hx =>
    obtain ⟨k, hk, hget, hidx, hslot⟩ := hslots.inStoreQueue he
    have hstores : r.unit.stores ≠ 0 := by
      rw [hslots.stores_eq]
      omega
    obtain ⟨e', hkey, hsame | ⟨hsc, hsame⟩⟩ := LSQUnit.executeStore_cases hstores hidx hslot hx
    · have hsame' := (LSQUnit.sameCounts_setStore hslot hkey).toSameOrder.trans hsame.toSameOrder
      exact ⟨a, hplaced.of_sameOrder hsame', hplaces.of_sameOrder hsame', hlater, hdone⟩
    · refine ⟨_, LSQUnit.Placed.of_sameOrder (hplaced.allowWB hk he hidx hget
        (by rw [← hkey]; rfl) ?_)
        hsame.toSameOrder, ?_, hlater, hdone⟩
      · intro ld hld _
        obtain ⟨inst, hinst, rfl⟩ :=
          LSQUnit.exists_inLoadQueue hplaced.loadSide.loads hplaced.loadSide.loads_eq hld
        exact hcond hsc inst hinst
      · exact (hplaces.mapStores (keepsPlaces_allowWB.atSlot _)).of_eq hsame.lqEntries
          hsame.loadHead
  | @commit y hle =>
    have hy : a.done ≤ y := hdone ▸ hle
    have hstores := hplaced.commitStores hy
    exact ⟨(a.commitStores y).commitLoads y, hstores.commitLoads le_rfl,
      (hplaces.commitStores hplaced hy).commitLoads hstores le_rfl,
      forall_lt_of_mem_dropWhile (fun _ => rfl) hplaced.loadSide.sorted, rfl⟩
  | @squash y s hwb hs =>
    have hwb' : ∀ e ∈ a.stores, e.canWB = true → e.seqNum ≤ y := fun e he => by
      obtain ⟨x, hx, rfl⟩ := hslots.exists_inStoreQueue he
      exact hwb x hx
    obtain ⟨hplaced', hlq, hhead⟩ := hplaced.squash hs
    exact ⟨a.squash y, hplaced', (hplaces.squash hplaced hwb').of_eq hlq hhead,
      fun ld hld => hlater ld (sublist_rdropWhile.subset hld), hdone⟩
  | sendStore he =>
    obtain ⟨W, hw⟩ := he.exists_waiting hslots
    have hsame := LSQUnit.sameOrder_storePostSend r.unit
    exact ⟨a.send, (hplaced.send hw he.2.2).of_sameOrder hsame,
      (hplaces.send hw).of_eq hsame.lqEntries hsame.loadHead, hlater, hdone⟩
  | completeHere he =>
    obtain ⟨W, hw⟩ := he.exists_waiting hslots
    have hsend := hplaced.send hw he.2.2
    have hlast : a.sent.length < a.send.sent.length := by simp [ProgramOrder.send, hw]
    have hcompl := hsend.complete hlast
    have hplaces' : LSQUnit.LoadPlaces
        { r.unit with storeWBIdx := r.unit.incrStIdx r.unit.storeWBIdx } a.send :=
      (hplaces.send hw).of_eq rfl rfl
    replace hplaces' := hplaces'.complete hsend hlast
    rw [LSQUnit.completeStore_setWB] at hcompl hplaces'
    have hidx : index r.unit.sqEntries r.unit.storeHead a.sent.length = r.unit.storeWBIdx :=
      hslots.storeWBIdx.symm
    rw [hidx] at hcompl hplaces'
    exact ⟨_, hcompl, hplaces', LSQUnit.forall_lt_completed (a := a.send) hlater _ _ _,
      (LSQUnit.done_completed _ _ _ _).trans hdone⟩
  | skipStore he =>
    obtain ⟨W, hw⟩ := he.exists_waiting hslots
    exact ⟨a.send, hplaced.send hw he.2.2, (hplaces.send hw).of_eq rfl rfl, hlater, hdone⟩
  | @completeStore k hk =>
    have hlt := hk.lt_length hslots
    exact ⟨_, hplaced.complete hlt, hplaces.complete hplaced hlt,
      LSQUnit.forall_lt_completed hlater _ _ _,
      (LSQUnit.done_completed _ _ _ _).trans hdone⟩
  | getMemDepViolator =>
    have hsame : LSQUnit.SameOrder r.unit r.unit.getMemDepViolator.2 :=
      { LSQUnit.SameOrder.refl _ with }
    exact ⟨a, hplaced.of_sameOrder hsame, hplaces.of_sameOrder hsame, hlater, hdone⟩
  | updateLoad hslot hkey hlqIdx =>
    have hsame := (LSQUnit.sameCounts_setLoad hslot hkey hlqIdx).toSameOrder
    exact ⟨a, hplaced.of_sameOrder hsame, hplaces.of_sameOrder hsame, hlater, hdone⟩
  | updateStore hslot hkey =>
    have hsame := (LSQUnit.sameCounts_setStore hslot hkey).toSameOrder
    exact ⟨a, hplaced.of_sameOrder hsame, hplaces.of_sameOrder hsame, hlater, hdone⟩

/-- **Every run** keeps the queues in program order. -/
theorem Reachable.inOrder {r : LsqRun} (h : Reachable r) : r.InOrder := by
  induction h with
  | init n m shift checkLoads needsTSO =>
    exact ⟨_, .init n m shift checkLoads needsTSO, fun _ he => absurd he not_mem_nil,
      fun _ hld => absurd hld not_mem_nil, rfl⟩
  | step _ hstep ih => exact hstep.inOrder ih

end LsqRun

end ShifDram
