import Mathlib.Data.List.DropRight
import ShifDram.Lsq.Execute

/-!
The queues as lists in program order.

`ProgramOrder` is what the two circular queues stand for: the loads, the stores sent, the stores
waiting, and the sequence number up to which instructions have committed. `Slots` connects the
stores to the indices of an `LSQUnit`; a load's `sqIdx` is the place after the last older store
(`WalkStart`).
-/

namespace ShifDram

open RingBuffer List Function

/-! ### Lists -/

section Lists

variable {α : Type*} {p : α → Bool} {l l' : List α} {f : α → ℕ} {n : ℕ}

lemma takeWhile_append_of_forall_neg (h : ∀ x ∈ l', p x = false) :
    (l ++ l').takeWhile p = l.takeWhile p := by
  induction l with
  | nil =>
    cases l' with
    | nil => rfl
    | cons x l' => simp [h x mem_cons_self]
  | cons x l ih =>
    rw [cons_append, takeWhile_cons, takeWhile_cons, ih]

lemma dropWhile_append_of_forall_neg (h : ∀ x ∈ l', p x = false) :
    (l ++ l').dropWhile p = l.dropWhile p ++ l' := by
  induction l with
  | nil =>
    cases l' with
    | nil => rfl
    | cons x l' => simp [h x mem_cons_self]
  | cons x l ih =>
    rw [cons_append, dropWhile_cons, dropWhile_cons, ih]
    split_ifs
    · rfl
    · rw [cons_append]

lemma rdropWhile_append_of_forall_neg (h : ∀ x ∈ l, p x = false) :
    (l ++ l').rdropWhile p = l ++ l'.rdropWhile p := by
  induction l' using reverseRecOn with
  | nil =>
    rw [append_nil, rdropWhile_nil, append_nil, rdropWhile_eq_self_iff]
    intro hl
    simp [h _ (getLast_mem hl)]
  | append_singleton l' x ih =>
    rw [← append_assoc, rdropWhile_concat, rdropWhile_concat, ih]
    split_ifs
    · rfl
    · rw [append_assoc]

lemma sublist_rdropWhile : l.rdropWhile p <+ l :=
  have hinitial : l.rdropWhile p <+: l := rdropWhile_prefix p l
  hinitial.sublist

lemma forall_neg_of_mem_rdropWhile
    (hp : ∀ x ∈ l, p x = decide (n < f x)) (hl : l.Pairwise fun x y => f x < f y) :
    ∀ x ∈ l.rdropWhile p, f x ≤ n := by
  induction l using reverseRecOn with
  | nil => simp
  | append_singleton l y ih =>
    rw [rdropWhile_concat]
    rw [pairwise_snoc] at hl
    split_ifs with hy
    · exact ih (fun x hx => hp x (mem_append_left _ hx)) hl.1
    · have hyn : f y ≤ n := by simpa [hp y (by simp)] using hy
      intro x hx
      rcases mem_snoc.mp hx with hx | rfl
      · exact (hl.2 x hx).le.trans hyn
      · exact hyn

lemma forall_lt_of_mem_dropWhile
    (hp : ∀ x, p x = decide (f x ≤ n)) (hl : l.Pairwise fun x y => f x < f y) :
    ∀ x ∈ l.dropWhile p, n < f x := by
  induction l with
  | nil => simp
  | cons y l ih =>
    rw [dropWhile_cons]
    rw [pairwise_cons] at hl
    split_ifs with hy
    · exact ih hl.2
    · have hyn : n < f y := by simpa [hp] using hy
      intro x hx
      rcases mem_cons.mp hx with rfl | hx
      · exact hyn
      · exact hyn.trans (hl.1 x hx)

lemma mem_takeWhile_of_lt {x : α} (hp : ∀ x, p x = decide (f x < n))
    (hl : l.Pairwise fun x y => f x < f y) (hx : x ∈ l) (hlt : f x < n) : x ∈ l.takeWhile p := by
  induction l with
  | nil => cases hx
  | cons y l ih =>
    rw [pairwise_cons] at hl
    have hy : p y = true := by
      rw [hp, decide_eq_true_eq]
      rcases mem_cons.mp hx with rfl | hx
      · exact hlt
      · exact (hl.1 x hx).trans hlt
    rw [takeWhile_cons_of_pos hy]
    rcases mem_cons.mp hx with rfl | hx
    · exact mem_cons_self
    · exact mem_cons_of_mem _ (ih hl.2 hx)

end Lists

structure LoadKey where
  seqNum : ℕ
  sqIdx : Option ℕ

structure StoreKey where
  seqNum : ℕ
  lqIdx : ℕ
  sqIdx : Option ℕ
  canWB : Bool
  completed : Bool

/-- Committed with the instructions up to `youngest`. -/
def LoadKey.committed (youngest : ℕ) (ld : LoadKey) : Bool := decide (ld.seqNum ≤ youngest)

/-- Squashed with the instructions after `squashed`. -/
def LoadKey.squashed (squashed : ℕ) (ld : LoadKey) : Bool := decide (squashed < ld.seqNum)

def StoreKey.squashed (squashed : ℕ) (e : StoreKey) : Bool := decide (squashed < e.seqNum)

def LsqInst.key (inst : LsqInst) : LoadKey := ⟨inst.seqNum, inst.sqIdx⟩

def SQEntry.key (e : SQEntry) : StoreKey :=
  ⟨e.inst.seqNum, e.inst.lqIdx, e.inst.sqIdx, e.canWB, e.completed⟩

/-- The queues, oldest first, and the youngest committed instruction. -/
structure ProgramOrder where
  loads : List LoadKey
  sent : List StoreKey
  waiting : List StoreKey
  done : ℕ

namespace ProgramOrder

def stores (a : ProgramOrder) : List StoreKey := a.sent ++ a.waiting

/-- The loads before the first not older than `seqNum`. -/
def olderLoads (a : ProgramOrder) (seqNum : ℕ) : List LoadKey :=
  a.loads.takeWhile fun ld => ld.seqNum < seqNum

/-- The waiting stores before the first not older than `seqNum`. -/
def olderWaiting (a : ProgramOrder) (seqNum : ℕ) : List StoreKey :=
  a.waiting.takeWhile fun e => e.seqNum < seqNum

def insertLoad (a : ProgramOrder) (ld : LoadKey) : ProgramOrder :=
  { a with loads := a.loads ++ [ld] }

def insertStore (a : ProgramOrder) (e : StoreKey) : ProgramOrder :=
  { a with waiting := a.waiting ++ [e] }

def mapStores (a : ProgramOrder) (f : StoreKey → StoreKey) : ProgramOrder :=
  { a with sent := a.sent.map f, waiting := a.waiting.map f }

/-- A change of the store in slot `i`. -/
def atSlot (i : ℕ) (g : StoreKey → StoreKey) (e : StoreKey) : StoreKey :=
  if e.sqIdx = some i then g e else e

def allowWB (e : StoreKey) : StoreKey := { e with canWB := true }

def setCompleted (e : StoreKey) : StoreKey := { e with completed := true }

def commitStore (youngest : ℕ) (e : StoreKey) : StoreKey :=
  { e with canWB := e.canWB || decide (e.seqNum ≤ youngest) }

def send (a : ProgramOrder) : ProgramOrder :=
  { a with sent := a.sent ++ a.waiting.take 1, waiting := a.waiting.drop 1 }

/-- The sent store in slot `i` is completed. -/
def complete (a : ProgramOrder) (i : ℕ) : ProgramOrder :=
  { a with sent := a.sent.map (atSlot i setCompleted) }

def free (a : ProgramOrder) : ProgramOrder :=
  { a with sent := a.sent.dropWhile fun e => e.completed }

/-- A store's age and recorded places are left alone. -/
structure KeepsPlaces (f : StoreKey → StoreKey) : Prop where
  seqNum : ∀ e, (f e).seqNum = e.seqNum
  lqIdx : ∀ e, (f e).lqIdx = e.lqIdx
  sqIdx : ∀ e, (f e).sqIdx = e.sqIdx

lemma keepsPlaces_allowWB : KeepsPlaces allowWB := ⟨fun _ => rfl, fun _ => rfl, fun _ => rfl⟩

lemma keepsPlaces_setCompleted : KeepsPlaces setCompleted :=
  ⟨fun _ => rfl, fun _ => rfl, fun _ => rfl⟩

lemma keepsPlaces_commitStore (y : ℕ) : KeepsPlaces (commitStore y) :=
  ⟨fun _ => rfl, fun _ => rfl, fun _ => rfl⟩

lemma KeepsPlaces.atSlot {g : StoreKey → StoreKey} (hg : KeepsPlaces g) (i : ℕ) :
    KeepsPlaces (atSlot i g) := by
  refine ⟨fun e => ?_, fun e => ?_, fun e => ?_⟩ <;> rw [ProgramOrder.atSlot] <;> split_ifs
  · exact hg.seqNum e
  · rfl
  · exact hg.lqIdx e
  · rfl
  · exact hg.sqIdx e
  · rfl

variable {a : ProgramOrder} {f : StoreKey → StoreKey} {e : StoreKey}

lemma length_olderLoads_le (a : ProgramOrder) (n : ℕ) : (a.olderLoads n).length ≤ a.loads.length :=
  (takeWhile_sublist _).length_le

lemma length_olderWaiting_le (a : ProgramOrder) (n : ℕ) :
    (a.olderWaiting n).length ≤ a.waiting.length :=
  (takeWhile_sublist _).length_le

lemma stores_mapStores (f : StoreKey → StoreKey) : (a.mapStores f).stores = a.stores.map f := by
  simp [stores, mapStores]

lemma olderWaiting_mapStores (hf : KeepsPlaces f) (n : ℕ) :
    (a.mapStores f).olderWaiting n = (a.olderWaiting n).map f := by
  simp [olderWaiting, mapStores, takeWhile_map, comp_def, hf.seqNum]

end ProgramOrder

/-! ### The queues of a unit -/

namespace LSQUnit

def loadKeys (s : LSQUnit) : ℕ → Option LoadKey := fun i => (s.loadQueue i).map LsqInst.key

def storeKeys (s : LSQUnit) : ℕ → Option StoreKey := fun i => (s.storeQueue i).map SQEntry.key

lemma loadKeys_setLoad (s : LSQUnit) (i : ℕ) (ld : Option LsqInst) :
    (s.setLoad i ld).loadKeys = Function.update s.loadKeys i (ld.map LsqInst.key) := by
  funext j
  by_cases hj : j = i
  · subst hj
    simp [loadKeys, setLoad]
  · simp [loadKeys, setLoad, hj]

lemma storeKeys_setStore (s : LSQUnit) (i : ℕ) (e : Option SQEntry) :
    (s.setStore i e).storeKeys = Function.update s.storeKeys i (e.map SQEntry.key) := by
  funext j
  by_cases hj : j = i
  · subst hj
    simp [storeKeys, setStore]
  · simp [storeKeys, setStore, hj]

structure SameOrder (s s' : LSQUnit) : Prop where
  lqEntries : s'.lqEntries = s.lqEntries
  sqEntries : s'.sqEntries = s.sqEntries
  loadKeys : s'.loadKeys = s.loadKeys
  storeKeys : s'.storeKeys = s.storeKeys
  loads : s'.loads = s.loads
  stores : s'.stores = s.stores
  loadHead : s'.loadHead = s.loadHead
  loadTail : s'.loadTail = s.loadTail
  storeHead : s'.storeHead = s.storeHead
  storeWBIdx : s'.storeWBIdx = s.storeWBIdx
  storeTail : s'.storeTail = s.storeTail

/-- The walk of `ld` starts after the last older waiting store; without an index there is none. -/
def WalkStart (s : LSQUnit) (a : ProgramOrder) (ld : LoadKey) : Prop :=
  ld.sqIdx = some (index s.sqEntries s.storeWBIdx (a.olderWaiting ld.seqNum).length) ∨
    ld.sqIdx = none ∧ a.olderWaiting ld.seqNum = []

/-- Nor do the stores to write back, the one in flight, the stall, the loads' places. -/
structure SameCounts (s s' : LSQUnit) : Prop extends SameOrder s s' where
  needsTSO : s'.needsTSO = s.needsTSO
  storeInFlight : s'.storeInFlight = s.storeInFlight
  storesToWB : s'.storesToWB = s.storesToWB
  stalled : s'.stalled = s.stalled
  stallingStoreIsn : s'.stallingStoreIsn = s.stallingStoreIsn
  stallingLoadIdx : s'.stallingLoadIdx = s.stallingLoadIdx
  lqIdx : ∀ i, (s'.loadQueue i).map LsqInst.lqIdx = (s.loadQueue i).map LsqInst.lqIdx

/-- The store queue's indices and counter stand for the stores of `a`. -/
structure Slots (s : LSQUnit) (a : ProgramOrder) : Prop where
  stores : Holds s.sqEntries s.storeKeys s.storeHead s.storeTail (a.stores.map some)
  stores_eq : s.stores = a.stores.length
  storeWBIdx : s.storeWBIdx = index s.sqEntries s.storeHead a.sent.length
  /-- The place of the store itself. -/
  sqIdx : ∀ (k : ℕ) (hk : k < a.stores.length),
    a.stores[k].sqIdx = some (index s.sqEntries s.storeHead k)

def InLoadQueue (s : LSQUnit) (ld : LsqInst) : Prop :=
  ∃ k < s.loads, s.loadQueue (index s.lqEntries s.loadHead k) = some ld

def InStoreQueue (s : LSQUnit) (e : SQEntry) : Prop :=
  ∃ k < s.stores, s.storeQueue (index s.sqEntries s.storeHead k) = some e

variable {s s' : LSQUnit} {a : ProgramOrder} {i : ℕ} {s'' : LSQUnit} {ld : LoadKey}

lemma SameOrder.refl (s : LSQUnit) : SameOrder s s :=
  ⟨rfl, rfl, rfl, rfl, rfl, rfl, rfl, rfl, rfl, rfl, rfl⟩

lemma SameOrder.trans (h : SameOrder s s') (h' : SameOrder s' s'') :
    SameOrder s s'' :=
  ⟨h'.1.trans h.1, h'.2.trans h.2, h'.3.trans h.3, h'.4.trans h.4, h'.5.trans h.5,
    h'.6.trans h.6, h'.7.trans h.7, h'.8.trans h.8, h'.9.trans h.9, h'.10.trans h.10,
    h'.11.trans h.11⟩

lemma SameCounts.refl (s : LSQUnit) : SameCounts s s :=
  ⟨SameOrder.refl s, rfl, rfl, rfl, rfl, rfl, rfl, fun _ => rfl⟩

lemma SameCounts.trans (h : SameCounts s s') (h' : SameCounts s' s'') :
    SameCounts s s'' :=
  ⟨h.toSameOrder.trans h'.toSameOrder, h'.2.trans h.2, h'.3.trans h.3, h'.4.trans h.4,
    h'.5.trans h.5, h'.6.trans h.6, h'.7.trans h.7, fun i => (h'.8 i).trans (h.8 i)⟩

lemma Slots.of_sameOrder (h : s.Slots a) (hs : SameOrder s s') : s'.Slots a := by
  obtain ⟨-, h2, -, h4, -, h6, -, -, h9, h10, h11⟩ := hs
  refine ⟨?_, ?_, ?_, ?_⟩
  · rw [h2, h4, h9, h11]
    exact h.stores
  · rw [h6, h.stores_eq]
  · rw [h10, h2, h9, h.storeWBIdx]
  · rw [h2, h9]
    exact h.sqIdx

lemma Slots.exists_stores (h : s.Slots a) : ∃ S : List SQEntry, S.map SQEntry.key = a.stores ∧
      Holds s.sqEntries s.storeQueue s.storeHead s.storeTail (S.map some) :=
  h.stores.exists_map

lemma exists_inLoadQueue {K : List LoadKey}
    (h : Holds s.lqEntries s.loadKeys s.loadHead s.loadTail (K.map some))
    (hloads : s.loads = K.length) (hld : ld ∈ K) :
    ∃ inst, s.InLoadQueue inst ∧ inst.key = ld := by
  obtain ⟨L, rfl, hheld⟩ := h.exists_map
  obtain ⟨inst, hinst, rfl⟩ := mem_map.mp hld
  refine ⟨inst, ?_, rfl⟩
  obtain ⟨k, hk, hget⟩ := hheld.mem_iff.mpr hinst
  exact ⟨k, by rwa [hloads, length_map], hget⟩

lemma Slots.exists_inStoreQueue (h : s.Slots a) {e : StoreKey} (he : e ∈ a.stores) :
    ∃ entry, s.InStoreQueue entry ∧ entry.key = e := by
  obtain ⟨S, hS, hheld⟩ := h.exists_stores
  rw [← hS, mem_map] at he
  obtain ⟨entry, hentry, rfl⟩ := he
  refine ⟨entry, ?_, rfl⟩
  obtain ⟨k, hk, hget⟩ := hheld.mem_iff.mpr hentry
  exact ⟨k, by rwa [h.stores_eq, ← hS, length_map], hget⟩

lemma Slots.inStoreQueue (h : s.Slots a) {e : SQEntry} (he : s.InStoreQueue e) :
    ∃ (k : ℕ) (hk : k < a.stores.length), a.stores[k] = e.key ∧
      e.inst.sqIdx = some (index s.sqEntries s.storeHead k) ∧
      s.storeQueue (index s.sqEntries s.storeHead k) = some e := by
  obtain ⟨k, hk, hget⟩ := he
  rw [h.stores_eq] at hk
  have hkey : a.stores[k] = e.key := by
    have hheld := h.stores.get k (by simpa using hk)
    rw [storeKeys, hget, getElem_map] at hheld
    exact (Option.some.inj hheld).symm
  refine ⟨k, hk, hkey, ?_, hget⟩
  have hidx := h.sqIdx k hk
  rwa [hkey] at hidx

lemma Slots.eq_of_sqIdx (h : s.Slots a) {e e' : StoreKey} (he : e ∈ a.stores)
    (he' : e' ∈ a.stores) (hidx : e.sqIdx = e'.sqIdx) : e = e' := by
  have hlen := h.stores.length_lt
  rw [length_map] at hlen
  obtain ⟨k, hk, rfl⟩ := mem_iff_getElem.mp he
  obtain ⟨m, hm, rfl⟩ := mem_iff_getElem.mp he'
  rw [h.sqIdx k hk, h.sqIdx m hm] at hidx
  obtain rfl := index_inj (by omega) (by omega) (Option.some.inj hidx)
  rfl

lemma sameOrder_unstall (s : LSQUnit) (e : SQEntry) : SameOrder s (s.unstall e) := by
  rw [unstall]
  split_ifs
  · exact { SameOrder.refl s with }
  · exact SameOrder.refl s

lemma sameCounts_setLoad {ld ld' : LsqInst} (h : s.loadQueue i = some ld)
    (hkey : ld'.key = ld.key) (hlqIdx : ld'.lqIdx = ld.lqIdx) :
    SameCounts s (s.setLoad i (some ld')) := by
  refine { SameCounts.refl s with loadKeys := ?_, lqIdx := fun j => ?_ }
  · have hi : s.loadKeys i = some ld'.key := by simp [loadKeys, h, hkey]
    rw [loadKeys_setLoad, Option.map_some, ← hi, update_eq_self]
  · by_cases hj : j = i
    · subst hj
      simp [setLoad, h, hlqIdx]
    · simp [setLoad, hj]

lemma sameCounts_setStore {e e' : SQEntry} (h : s.storeQueue i = some e)
    (hkey : e'.key = e.key) : SameCounts s (s.setStore i (some e')) := by
  refine { SameCounts.refl s with storeKeys := ?_ }
  have hi : s.storeKeys i = some e'.key := by simp [storeKeys, h, hkey]
  rw [storeKeys_setStore, Option.map_some, ← hi, update_eq_self]

lemma sameCounts_checkViolationsFrom (inst : LsqInst) (fuel : ℕ) (s : LSQUnit) (i : ℕ) :
    SameCounts s (checkViolationsFrom inst fuel s i).1 := by
  induction fuel generalizing s i with
  | zero => exact SameCounts.refl s
  | succ fuel ih =>
    rw [checkViolationsFrom]
    split
    · exact SameCounts.refl s
    · split
      · exact SameCounts.refl s
      · rename_i ld hld
        split_ifs
        · exact ih s _
        · exact ih s _
        · exact { SameCounts.refl s with }
        · refine SameCounts.trans ?_ (ih _ _)
          exact sameCounts_setLoad hld rfl rfl
        · exact SameCounts.refl s
        · exact { SameCounts.refl s with }

lemma sameCounts_checkViolations (s : LSQUnit) (i : ℕ) (inst : LsqInst) :
    SameCounts s (s.checkViolations i inst).1 :=
  sameCounts_checkViolationsFrom inst _ s i

end LSQUnit

end ShifDram
