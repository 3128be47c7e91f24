import ShifDram.Lsq.Run

/-!
Memory order violations: a store that executes after a younger load to the same bytes finds that
load.

`executeStore` walks the younger loads, from the store's `lqIdx` on, so the first that meets the
store is the oldest to be squashed. It passes over loads without an address and strictly ordered
ones, which wait for the head of the queue anyway.

The check compares `effAddr` and `effSize`, which `writeMem` takes from the request: for a row op
the payload, at virtual address 0, and not the row that it writes.
-/

namespace ShifDram

open RingBuffer ProgramOrder List Option

variable (dyn : DynInst ℕ)

namespace LSQUnit

variable {s : LSQUnit} {inst ld : LsqInst} {e : SQEntry} {i : ℕ} {L : List LsqInst} {w : SQWrite}

/-- The load is squashed if the store `inst` executes after it. -/
def violates (s : LSQUnit) (inst ld : LsqInst) : Bool :=
  ld.effAddrValid && !ld.isStrictlyOrdered && s.rangesMeet inst ld

lemma rangesMeet_of_byte {b : ℕ} (hinst : inst.effAddr ≤ b ∧ b < inst.effAddr + inst.effSize)
    (hld : ld.effAddr ≤ b ∧ b < ld.effAddr + ld.effSize) : s.rangesMeet inst ld = true := by
  have hle : ∀ {x y : ℕ}, x ≤ y → x >>> s.depCheckShift ≤ y >>> s.depCheckShift := fun h => by
    rw [Nat.shiftRight_eq_div_pow, Nat.shiftRight_eq_div_pow]
    exact Nat.div_le_div_right h
  rw [rangesMeet, decide_eq_true (hle (by omega)), decide_eq_true (hle (by omega)), Bool.and_self]

/-- State and fault after a violation by `ld`, unless an older one is known. -/
def recordViolator (s : LSQUnit) (inst ld : LsqInst) : LSQUnit × Option LsqFault :=
  if s.olderViolator ld.seqNum then (s, none)
  else ({ s with memDepViolator := some ld },
    some (.violation inst.seqNum ld.seqNum (ld.effAddr >>> s.depCheckShift)))

/-- For a store `checkViolations` **searches** the first load that it meets. -/
lemma checkViolationsFrom_store (hstore : inst.isLoad = false) {i fuel : ℕ}
    (h : Holds s.lqEntries s.loadQueue i s.loadTail (L.map some)) (hfuel : L.length ≤ fuel) :
    checkViolationsFrom inst fuel s i =
      ((L.find? (s.violates inst)).map (s.recordViolator inst)).getD (s, none) := by
  induction L generalizing i fuel with
  | nil =>
    cases fuel with
    | zero => rfl
    | succ fuel =>
      rw [checkViolationsFrom, if_pos (h.head_eq_tail_iff.mpr rfl)]
      rfl
  | cons ld L ih =>
    obtain ⟨fuel, rfl⟩ : ∃ n, fuel = n + 1 := ⟨fuel - 1, by simp only [length_cons] at hfuel; omega⟩
    obtain ⟨hne, hget, hrest⟩ := h.uncons
    have hnext := ih hrest (by simpa using hfuel)
    rw [checkViolationsFrom, if_neg hne, hget]
    dsimp only
    cases hv : s.violates inst ld with
    | false =>
      rw [find?_cons_of_neg (by simp [hv]), ← hnext]
      simp only [violates, Bool.and_eq_false_iff, Bool.not_eq_false'] at hv
      rcases hv with (hv | hv) | hv
      · rw [hv]
        rfl
      · rw [hv, Bool.or_true, if_pos rfl]
        rfl
      · rw [hv, Bool.not_false, if_pos rfl, ite_self]
        rfl
    | true =>
      rw [find?_cons_of_pos hv]
      simp only [violates, Bool.and_eq_true, Bool.not_eq_true'] at hv
      simp [hv.1.1, hv.1.2, hv.2, hstore, recordViolator]

/-- The first element of a sorted list to pass a test is the least. -/
lemma exists_find?_le {α : Type*} {f : α → ℕ} {p : α → Bool} {l : List α} {x : α}
    (hl : l.Pairwise fun x y => f x < f y) (hx : x ∈ l) (hp : p x = true) :
    ∃ y, l.find? p = some y ∧ f y ≤ f x := by
  induction l with
  | nil => cases hx
  | cons y l ih =>
    rw [pairwise_cons] at hl
    cases hy : p y with
    | true =>
      refine ⟨y, find?_cons_of_pos hy, ?_⟩
      rcases mem_cons.mp hx with rfl | hx
      · exact le_rfl
      · exact (hl.1 x hx).le
    | false =>
      rw [find?_cons_of_neg (by simp [hy])]
      rcases mem_cons.mp hx with rfl | hx
      · rw [hp] at hy
        cases hy
      · exact ih hl.2 hx

lemma exists_violator_recordViolator (s : LSQUnit) (inst ld : LsqInst) :
    ∃ v, (s.recordViolator inst ld).1.memDepViolator = some v ∧ v.seqNum ≤ ld.seqNum := by
  rw [recordViolator]
  split_ifs with hold
  · rw [olderViolator] at hold
    cases hv : s.memDepViolator with
    | none => simp [hv] at hold
    | some v =>
      rw [hv] at hold
      exact ⟨v, rfl, (of_decide_eq_true hold).le⟩
  · exact ⟨ld, rfl, le_rfl⟩

lemma Placed.exists_younger {a : ProgramOrder} (h : s.Placed a) (hplaces : s.LoadPlaces a)
    (he : s.InStoreQueue e) (hdone : a.done < e.inst.seqNum) :
    ∃ L : List LsqInst, Holds s.lqEntries s.loadQueue e.inst.lqIdx s.loadTail (L.map some) ∧
      (L.Pairwise fun ld ld' => ld.seqNum < ld'.seqNum) ∧
      ∀ ld, s.InLoadQueue ld → e.inst.seqNum < ld.seqNum → ld ∈ L := by
  obtain ⟨L, hkeys, hheld⟩ := h.loadSide.loads.exists_map
  obtain ⟨k, hk, hkey, -⟩ := h.storeSide.toSlots.inStoreQueue he
  have hlq : e.inst.lqIdx = index s.lqEntries s.loadHead (a.olderLoads e.inst.seqNum).length :=
    hplaces e.key (hkey ▸ getElem_mem hk) hdone
  have holder : (a.olderLoads e.inst.seqNum).length =
      (L.takeWhile fun ld => ld.seqNum < e.inst.seqNum).length := by
    rw [olderLoads, ← hkeys, takeWhile_map, length_map]
    rfl
  have hsorted : L.Pairwise fun ld ld' => ld.seqNum < ld'.seqNum := by
    have hloads := h.loadSide.sorted
    rw [← hkeys, pairwise_map] at hloads
    exact hloads
  refine ⟨L.dropWhile fun ld => ld.seqNum < e.inst.seqNum, ?_,
    hsorted.sublist (dropWhile_sublist _), fun ld hld hlt => ?_⟩
  · have hsplit := hheld
    rw [← takeWhile_append_dropWhile (p := fun ld => decide (ld.seqNum < e.inst.seqNum))
      (l := L), map_append] at hsplit
    have hyoung := hsplit.split.2
    rwa [length_map, ← holder, ← hlq] at hyoung
  · have hmem : ld ∈ L := by
      obtain ⟨m, hm, hget⟩ := hld
      rw [h.loadSide.loads_eq, ← hkeys, length_map] at hm
      exact hheld.mem_iff.mp ⟨m, hm, hget⟩
    rw [← takeWhile_append_dropWhile (p := fun ld => decide (ld.seqNum < e.inst.seqNum))
      (l := L), mem_append] at hmem
    refine hmem.resolve_left fun htake => ?_
    have hlt' := mem_takeWhile_imp
      (p := fun ld : LsqInst => decide (ld.seqNum < e.inst.seqNum)) htake
    exact (of_decide_eq_true hlt').not_gt hlt

lemma exists_violator_checkViolations (hv : s.violates inst ld = true)
    (hstore : inst.isLoad = false)
    (h : Holds s.lqEntries s.loadQueue i s.loadTail (L.map some))
    (hsorted : L.Pairwise fun ld ld' => ld.seqNum < ld'.seqNum) (hld : ld ∈ L) :
    ∃ v, (s.checkViolations i inst).1.memDepViolator = some v ∧ v.seqNum ≤ ld.seqNum := by
  have hlen := h.length_lt
  rw [length_map] at hlen
  obtain ⟨first, hfind, hle⟩ := exists_find?_le hsorted hld hv
  rw [checkViolations, checkViolationsFrom_store hstore h hlen.le, hfind]
  obtain ⟨v, hviolator, hle'⟩ := s.exists_violator_recordViolator inst first
  exact ⟨v, hviolator, hle'.trans hle⟩

lemma exists_initiateStore_some (he : s.storeQueue i = some e)
    (inst : LsqInst) (hfit : w.req.size ≤ 32 ∨ w.req.isCacheBlockZero = true) :
    ∃ s', s.initiateStore i inst (some w) = some s' := by
  have hslot : (s.setStoreInst i inst).storeQueue i = some { e with inst := inst } := by
    simp only [setStoreInst, he, storeQueue_setStore_self]
  rw [initiateStore, write, hslot]
  refine ⟨_, if_neg ?_⟩
  rintro ⟨hlt, hzero⟩
  rcases hfit with hle | hone
  · omega
  · rw [hone] at hzero
    cases hzero

/-- A store that reaches the check: no fault, and a size. -/
lemma exists_executeStore (hstores : s.stores ≠ 0)
    (hi : e.inst.sqIdx = some i) (hslot : s.storeQueue i = some e) {dyn : DynInst ℕ}
    (hwrites : dyn.writes = true)
    (hfit : w.req.size ≤ 32 ∨ w.req.isCacheBlockZero = true) (hsize : w.req.size % 256 ≠ 0) :
    ∃ q n, s.executeStore e.inst (.ofWriteMem dyn w) =
      some (({ s with storeQueue := q, storesToWB := n } : LSQUnit).checkViolations e.inst.lqIdx
        (e.inst.accessed (.ofWriteMem dyn w))) := by
  have hacc : (StoreAcc.ofWriteMem dyn w).written = some w ∧
      (StoreAcc.ofWriteMem dyn w).fault = none ∧
      (e.inst.accessed (.ofWriteMem dyn w)).isTranslationDelayed = false ∧
      (e.inst.accessed (.ofWriteMem dyn w)).predicate = true := by
    have hparts := hwrites
    rw [DynInst.writes, Bool.and_eq_true, isNone_iff_eq_none] at hparts
    simp [StoreAcc.ofWriteMem, hwrites, LsqInst.accessed, LsqInst.isTranslationDelayed, hparts.1,
      hparts.2]
  obtain ⟨hwritten, hfault, hdelay, hpred⟩ := hacc
  obtain ⟨s', hs'⟩ := exists_initiateStore_some hslot (e.inst.accessed (.ofWriteMem dyn w)) hfit
  obtain ⟨e', rfl, -, -, -, hsize'⟩ := exists_initiateStore hslot hs'
  have hsize₁ : e'.size ≠ 0 := by
    rw [hsize' w rfl]
    exact hsize
  rw [executeStore_eq hstores hi, hwritten, hs', bind_some, checkStore, storeQueue_setStore_self]
  simp only [hfault, hdelay, hpred, hsize₁, Bool.false_and, Bool.false_eq_true, if_false,
    Bool.not_true, isSome_none]
  by_cases hcond : (e.inst.accessed (.ofWriteMem dyn w)).isStoreConditional = true
  · rw [if_pos hcond]
    exact ⟨_, _, rfl⟩
  · rw [if_neg hcond]
    exact ⟨_, s.storesToWB, rfl⟩

end LSQUnit

/-- **Memory order violations** of ordinary stores: in every reachable state, a store that executes
leaves a violator no younger than any younger load with a byte of the store's range. -/
theorem executeStore_violator {r : LsqRun} (hr : r.Reachable) {e : SQEntry}
    (he : r.unit.InStoreQueue e) (hdone : r.doneSeqNum < e.inst.seqNum)
    (hstore : e.inst.isLoad = false) {dyn : DynInst ℕ} {w : SQWrite} (hwrites : dyn.writes = true)
    (hfit : w.req.size ≤ 32 ∨ w.req.isCacheBlockZero = true) (hsize : w.req.size % 256 ≠ 0)
    {ld : LsqInst} (hld : r.unit.InLoadQueue ld) (hyounger : e.inst.seqNum < ld.seqNum)
    (hvalid : ld.effAddrValid = true) (hstrict : ld.isStrictlyOrdered = false) {b : ℕ}
    (hb : w.req.vaddr ≤ b ∧ b < w.req.vaddr + w.req.size)
    (hb' : ld.effAddr ≤ b ∧ b < ld.effAddr + ld.effSize) :
    ∃ x v, r.unit.executeStore e.inst (.ofWriteMem dyn w) = some x ∧
      x.1.memDepViolator = some v ∧ v.seqNum ≤ ld.seqNum := by
  obtain ⟨a, hplaced, hplaces, -, hadone⟩ := hr.inOrder
  obtain ⟨k, hk, hkey, hidx, hslot⟩ := hplaced.storeSide.toSlots.inStoreQueue he
  have hstores : r.unit.stores ≠ 0 := by
    rw [hplaced.storeSide.stores_eq]
    omega
  obtain ⟨L, hheld, hsorted, hmem⟩ := hplaced.exists_younger hplaces he (hadone ▸ hdone)
  obtain ⟨q, n, hx⟩ := LSQUnit.exists_executeStore hstores hidx hslot hwrites hfit hsize
  have hviol : ({ r.unit with storeQueue := q, storesToWB := n } : LSQUnit).violates
      (e.inst.accessed (.ofWriteMem dyn w)) ld = true := by
    have hrange : (e.inst.accessed (.ofWriteMem dyn w)).effAddr = w.req.vaddr ∧
        (e.inst.accessed (.ofWriteMem dyn w)).effSize = w.req.size := by
      rw [StoreAcc.ofWriteMem, if_pos hwrites]
      exact ⟨rfl, rfl⟩
    rw [LSQUnit.violates, hvalid, hstrict,
      LSQUnit.rangesMeet_of_byte (by rwa [hrange.1, hrange.2]) hb']
    rfl
  obtain ⟨v, hv, hle⟩ := LSQUnit.exists_violator_checkViolations hviol hstore hheld hsorted
    (hmem ld hld hyounger)
  exact ⟨_, v, hx, hv, hle⟩

def oneStore : LSQUnit :=
  ((LSQUnit.init 4 4 0 false false).insertStore (.dispatched 1 false)).getD
    (.init 4 4 0 false false)

/-- The younger load, with the address fields `dyn`. -/
def youngerLoad : LsqInst := { oneStore.placeLoad (.dispatched 2 true) with toDynInst := dyn }

def storeThenLoad : LSQUnit :=
  ((oneStore.insertLoad (.dispatched 2 true)).getD oneStore).setLoad 0 (some (youngerLoad dyn))

def onlyStore : SQEntry :=
  .ofInst ((LSQUnit.init 4 4 0 false false).placeStore (.dispatched 1 false))

lemma inStoreQueue_storeThenLoad : (storeThenLoad dyn).InStoreQueue onlyStore :=
  ⟨0, Nat.one_pos, rfl⟩

lemma inLoadQueue_storeThenLoad : (storeThenLoad dyn).InLoadQueue (youngerLoad dyn) :=
  ⟨0, Nat.one_pos, rfl⟩

lemma reachable_oneStore : LsqRun.Reachable ⟨oneStore, 0⟩ := by
  refine (LsqRun.Reachable.init 4 4 0 false false).step
    (@LsqRun.Step.insertStore _ (.dispatched 1 false) _ ?_ ?_ rfl)
  · rintro ld ⟨k, hk, -⟩
    exact absurd hk (Nat.not_lt_zero k)
  · rintro e ⟨k, hk, -⟩
    exact absurd hk (Nat.not_lt_zero k)

lemma reachable_storeThenLoad : LsqRun.Reachable ⟨storeThenLoad dyn, 0⟩ := by
  have h₂ : LsqRun.Reachable ⟨(oneStore.insertLoad (.dispatched 2 true)).getD oneStore, 0⟩ := by
    refine reachable_oneStore.step
      (@LsqRun.Step.insertLoad _ (.dispatched 2 true) _ Nat.two_pos ?_ ?_ rfl)
    · rintro ld ⟨k, hk, -⟩
      exact absurd hk (Nat.not_lt_zero k)
    · rintro e ⟨k, hk, hget⟩
      obtain rfl : k = 0 := Nat.lt_one_iff.mp hk
      obtain rfl : onlyStore = e := some.inj hget
      exact Nat.one_lt_two
  exact h₂.step
    (@LsqRun.Step.updateLoad _ _ (oneStore.placeLoad (.dispatched 2 true)) _ rfl rfl rfl)

/-- An executed access of `size` bytes at `addr`, mapped to `paddr`. -/
def executedAt (addr paddr size : ℕ) (strictlyOrdered : Bool) : DynInst ℕ :=
  ⟨none, true, true, strictlyOrdered, paddr, 0, 0#32, true, addr, size⟩

theorem executeStore_violator_eightBytes :
    ∃ x v, (storeThenLoad (executedAt 64 64 4 false)).executeStore onlyStore.inst
        (.ofWriteMem (executedAt 0 0 0 false)
          ⟨.virt 64 8 0#32 0, none, none, [], ⟨.rowAnd, 0, 0, 0⟩⟩) = some x ∧
      x.1.memDepViolator = some v ∧ v.seqNum ≤ 2 :=
  executeStore_violator (reachable_storeThenLoad _) (inStoreQueue_storeThenLoad _) Nat.one_pos rfl
    rfl (.inl (by decide)) (by decide) (inLoadQueue_storeThenLoad _) Nat.one_lt_two rfl rfl
      (b := 64)
    (by decide) (by decide)

/-- `NOT 0x4000 <- 0x6000`, translated at once. -/
def executedRowNot : Option StoreExec :=
  BaseDynInst.executeRowOp .upSixteen (fun _ => true) ⟨.rowNot, 0x4000, 0x6000, 0⟩ [] 0 1
    (BaseDynInst.fresh fun _ => ⟨.rowNot, 0x4000, 0x6000, 0⟩)

/-- No violator for a younger load from a row op's destination row, nor for a strictly ordered load.
-/
theorem executeStore_no_violator :
    (∃ r e ld x y, LsqRun.Reachable r ∧ r.unit.InStoreQueue e ∧ r.unit.InLoadQueue ld ∧
      e.inst.seqNum < ld.seqNum ∧ ld.effAddrValid = true ∧ executedRowNot = some x ∧
      (∃ w, x.written = some w ∧ w.2.dest ≤ ld.physEffAddrLow ∧
        ld.physEffAddrLow < w.2.dest + rowSize) ∧
      r.unit.executeStore e.inst x.storeAcc = some y ∧ y.1.memDepViolator = none) ∧
    ∃ r e ld w y, LsqRun.Reachable r ∧ r.unit.InStoreQueue e ∧ r.unit.InLoadQueue ld ∧
      e.inst.seqNum < ld.seqNum ∧ ld.effAddrValid = true ∧ w.req.vaddr = ld.effAddr ∧
      w.req.size = ld.effSize ∧
      r.unit.executeStore e.inst (.ofWriteMem (executedAt 0 0 0 false) w) = some y ∧
      y.1.memDepViolator = none := by
  refine ⟨⟨_, _, _, _, _, reachable_storeThenLoad (executedAt 0x4000 0x14000 8 false),
    inStoreQueue_storeThenLoad _, inLoadQueue_storeThenLoad _, Nat.one_lt_two, rfl, rfl,
    ⟨_, rfl, ?_, ?_⟩, rfl, rfl⟩,
    ⟨_, _, _, ⟨.virt 64 4 0#32 0, none, none, [], ⟨.rowAnd, 0, 0, 0⟩⟩, _,
      reachable_storeThenLoad (executedAt 64 64 4 true), inStoreQueue_storeThenLoad _,
      inLoadQueue_storeThenLoad _, Nat.one_lt_two, rfl, rfl, rfl, rfl, rfl⟩⟩
  · decide
  · decide

end ShifDram
