import Mathlib.Logic.Function.Basic
import Mathlib.Tactic

/-!
The store set predictor (`cpu/o3/store_set.cc`, `cpu/o3/store_set.hh`).

`squash` walks `storeList` from the youngest store on, but compares the last store of each entry's
set with the squashed number, not the entry itself.
-/

namespace ShifDram

open List Function

/-- `StoreSet`; the youngest store of `storeList` is first. -/
structure StoreSet where
  clearPeriod : ℕ
  ssitSize : ℕ
  lfstSize : ℕ
  ssit : ℕ → ℕ
  validSSIT : ℕ → Bool
  lfst : ℕ → ℕ
  validLFST : ℕ → Bool
  storeList : List (ℕ × ℕ)
  memOpsPred : ℕ

namespace StoreSet

def init (clearPeriod ssitSize lfstSize : ℕ) : StoreSet :=
  ⟨clearPeriod, ssitSize, lfstSize, fun _ => 0, fun _ => false, fun _ => 0, fun _ => false, [], 0⟩

def calcIndex (s : StoreSet) (pc : ℕ) : ℕ := (pc >>> 2) &&& (s.ssitSize - 1)

def calcSSID (s : StoreSet) (pc : ℕ) : ℕ := (pc ^^^ (pc >>> 10)) % s.lfstSize

def violation (s : StoreSet) (storePC loadPC : ℕ) : StoreSet :=
  let load := s.calcIndex loadPC
  let store := s.calcIndex storePC
  match s.validSSIT load, s.validSSIT store with
  | false, false => { s with
      validSSIT := update (update s.validSSIT load true) store true
      ssit := update (update s.ssit load (s.calcSSID loadPC)) store (s.calcSSID loadPC) }
  | true, false => { s with
      validSSIT := update s.validSSIT store true
      ssit := update s.ssit store (s.ssit load) }
  | false, true => { s with
      validSSIT := update s.validSSIT load true
      ssit := update s.ssit load (s.ssit store) }
  | true, true =>
    if s.ssit load < s.ssit store then { s with ssit := update s.ssit store (s.ssit load) }
    else { s with ssit := update s.ssit load (s.ssit store) }

def clear (s : StoreSet) : StoreSet :=
  { s with validSSIT := fun _ => false, validLFST := fun _ => false, storeList := [] }

def checkClear (s : StoreSet) : StoreSet :=
  if s.clearPeriod < s.memOpsPred + 1 then { s with memOpsPred := 0 }.clear
  else { s with memOpsPred := s.memOpsPred + 1 }

def insertLoad (s : StoreSet) : StoreSet := s.checkClear

/-- `storeList[seqNum] = ssid`. -/
def enter (seqNum ssid : ℕ) : List (ℕ × ℕ) → List (ℕ × ℕ)
  | [] => [(seqNum, ssid)]
  | e :: l =>
    if e.1 < seqNum then (seqNum, ssid) :: e :: l
    else if e.1 = seqNum then (seqNum, ssid) :: l
    else e :: enter seqNum ssid l

def insertStore (s : StoreSet) (storePC seqNum : ℕ) : StoreSet :=
  let index := s.calcIndex storePC
  let s := s.checkClear
  if s.validSSIT index then { s with
    lfst := update s.lfst (s.ssit index) seqNum
    validLFST := update s.validLFST (s.ssit index) true
    storeList := enter seqNum (s.ssit index) s.storeList }
  else s

def issued (s : StoreSet) (pc seqNum : ℕ) (isStore : Bool) : StoreSet :=
  if isStore then
    let ssid := s.ssit (s.calcIndex pc)
    { s with
      storeList := s.storeList.filter (·.1 ≠ seqNum)
      validLFST := if s.validSSIT (s.calcIndex pc) ∧ s.validLFST ssid ∧ s.lfst ssid = seqNum then
        update s.validLFST ssid false else s.validLFST }
  else s

/-- So many rounds of `squash`; `none` is a loop that goes on. -/
def squashLoop (squashedNum : ℕ) : ℕ → StoreSet → Option StoreSet
  | 0, _ => none
  | n + 1, s =>
    match s.storeList with
    | [] => some s
    | (seqNum, idx) :: rest =>
      if seqNum ≤ squashedNum then some s
      else if s.validLFST idx ∧ squashedNum < s.lfst idx then
        squashLoop squashedNum n
          { s with validLFST := update s.validLFST idx false, storeList := rest }
      else if ¬ s.validLFST idx ∧ squashedNum < s.lfst idx then
        squashLoop squashedNum n { s with storeList := rest }
      else squashLoop squashedNum n s

/-- `squash`; `none`: a round that erases nothing is repeated forever. -/
def squash (s : StoreSet) (squashedNum : ℕ) : Option StoreSet :=
  squashLoop squashedNum (s.storeList.length + 1) s

/-- Calls on a predictor; stores so far have numbers below `next`. -/
inductive Run (start : StoreSet) : ℕ → StoreSet → Prop
  | init : Run start 0 start
  | violation {next : ℕ} {s : StoreSet} (h : Run start next s) (storePC loadPC : ℕ) :
      Run start next (s.violation storePC loadPC)
  | insertLoad {next : ℕ} {s : StoreSet} (h : Run start next s) : Run start next s.insertLoad
  | insertStore {next : ℕ} {s : StoreSet} (h : Run start next s) (storePC seqNum : ℕ)
      (hseq : next ≤ seqNum) : Run start (seqNum + 1) (s.insertStore storePC seqNum)
  | issued {next : ℕ} {s : StoreSet} (h : Run start next s) (pc seqNum : ℕ) (isStore : Bool) :
      Run start next (s.issued pc seqNum isStore)
  | squash {next : ℕ} {s s' : StoreSet} (h : Run start next s) (squashedNum : ℕ)
      (hs : s.squash squashedNum = some s') : Run start next s'

/-- Stores are in order, below `next`, no younger than the last of their set. -/
structure Inv (next : ℕ) (s : StoreSet) : Prop where
  sorted : s.storeList.Pairwise fun e e' => e'.1 < e.1
  below : ∀ e ∈ s.storeList, e.1 < next
  last : ∀ e ∈ s.storeList, e.1 ≤ s.lfst e.2

variable {next seqNum ssid : ℕ} {s s' : StoreSet}

lemma Inv.sublist (h : Inv next s) (hlist : s'.storeList.Sublist s.storeList)
    (hlfst : s'.lfst = s.lfst) : Inv next s' :=
  ⟨h.sorted.sublist hlist, fun e he => h.below e (hlist.subset he),
    fun e he => hlfst ▸ h.last e (hlist.subset he)⟩

lemma Inv.checkClear (h : Inv next s) : Inv next s.checkClear := by
  rw [StoreSet.checkClear]
  split_ifs
  · exact h.sublist (nil_sublist _) rfl
  · exact h.sublist (Sublist.refl _) rfl

lemma enter_of_lt {l : List (ℕ × ℕ)} (h : ∀ e ∈ l, e.1 < seqNum) :
    enter seqNum ssid l = (seqNum, ssid) :: l := by
  cases l with
  | nil => rfl
  | cons e l => rw [enter, if_pos (h e mem_cons_self)]

lemma Inv.insertStore (h : Inv next s) (storePC : ℕ) (hseq : next ≤ seqNum) :
    Inv (seqNum + 1) (s.insertStore storePC seqNum) := by
  have hclear := h.checkClear
  have hlt : ∀ e ∈ s.checkClear.storeList, e.1 < seqNum := fun e he =>
    (hclear.below e he).trans_le hseq
  rw [StoreSet.insertStore]
  split_ifs
  · rw [enter_of_lt hlt]
    refine ⟨pairwise_cons.mpr ⟨hlt, hclear.sorted⟩,
      forall_mem_cons.mpr ⟨Nat.lt_succ_self _, fun e he => (hlt e he).trans (Nat.lt_succ_self _)⟩,
      forall_mem_cons.mpr ⟨by simp, fun e he => ?_⟩⟩
    dsimp only
    by_cases hset : e.2 = s.checkClear.ssit (s.calcIndex storePC)
    · rw [hset, update_self]
      exact (hlt e he).le
    · rw [update_of_ne hset]
      exact hclear.last e he
  · exact ⟨hclear.sorted, fun e he => (hlt e he).trans (Nat.lt_succ_self _), hclear.last⟩

/-- **The loop**: a younger store has a younger last store in its set. -/
lemma Inv.squashLoop (h : Inv next s) (squashedNum : ℕ) :
    ∃ s', squashLoop squashedNum (s.storeList.length + 1) s = some s' ∧
      s'.storeList = s.storeList.filter (·.1 ≤ squashedNum) ∧ s'.lfst = s.lfst := by
  induction hl : s.storeList generalizing s with
  | nil => exact ⟨s, by rw [StoreSet.squashLoop, hl], hl, rfl⟩
  | cons e rest ih =>
    have hsorted := h.sorted
    have hlast := h.last e (by simp [hl])
    rw [hl, pairwise_cons] at hsorted
    rw [length_cons, StoreSet.squashLoop, hl]
    dsimp only
    by_cases hold : e.1 ≤ squashedNum
    · refine ⟨s, if_pos hold, hl.trans (filter_eq_self.mpr fun e' he' => ?_).symm, rfl⟩
      rcases mem_cons.mp he' with rfl | he'
      · exact decide_eq_true hold
      · exact decide_eq_true ((hsorted.1 e' he').le.trans hold)
    · have hyounger : squashedNum < s.lfst e.2 := by omega
      have hrest : ∀ valid, Inv next { s with validLFST := valid, storeList := rest } := fun _ =>
        h.sublist (hl ▸ sublist_cons_self _ _) rfl
      rw [if_neg hold, filter_cons_of_neg (by simpa using hold)]
      by_cases hvalid : s.validLFST e.2
      · rw [if_pos ⟨hvalid, hyounger⟩]
        exact ih (hrest _) rfl
      · rw [if_neg fun hand => hvalid hand.1, if_pos ⟨hvalid, hyounger⟩]
        exact ih (hrest s.validLFST) rfl

lemma violation_keeps (storePC loadPC : ℕ) : (s.violation storePC loadPC).storeList = s.storeList ∧
    (s.violation storePC loadPC).lfst = s.lfst := by
  rw [violation]
  split
  · exact ⟨rfl, rfl⟩
  · exact ⟨rfl, rfl⟩
  · exact ⟨rfl, rfl⟩
  · split_ifs <;> exact ⟨rfl, rfl⟩

variable {clearPeriod ssitSize lfstSize : ℕ}

lemma Run.inv (h : Run (StoreSet.init clearPeriod ssitSize lfstSize) next s) : Inv next s := by
  induction h with
  | init => exact ⟨.nil, by simp [StoreSet.init], by simp [StoreSet.init]⟩
  | @violation next s _ storePC loadPC ih =>
    obtain ⟨hlist, hlfst⟩ := violation_keeps (s := s) storePC loadPC
    exact ih.sublist (hlist ▸ Sublist.refl _) hlfst
  | insertLoad _ ih => exact ih.checkClear
  | insertStore _ storePC seqNum hseq ih => exact ih.insertStore storePC hseq
  | issued _ pc seqNum isStore ih =>
    rw [StoreSet.issued]
    split_ifs
    · exact ih.sublist filter_sublist rfl
    · exact ih
  | squash _ squashedNum hs ih =>
    obtain ⟨s', hs', hlist, hlfst⟩ := ih.squashLoop squashedNum
    obtain rfl := Option.some.inj (hs'.symm.trans hs)
    exact ih.sublist (hlist ▸ filter_sublist) hlfst

/-- **Every squash ends and removes exactly the stores younger than the squashed number.** -/
theorem squash_ends (h : Run (init clearPeriod ssitSize lfstSize) next s) (squashedNum : ℕ) :
    ∃ s', s.squash squashedNum = some s' ∧
      s'.storeList = s.storeList.filter (·.1 ≤ squashedNum) := by
  obtain ⟨s', hs', hlist, -⟩ := h.inv.squashLoop squashedNum
  exact ⟨s', hs', hlist⟩

/-- Two stores of one set, the younger one squashed. -/
theorem squash_ends_twoStores : ∃ s', ((((init 9 64 16).violation 8 16).insertStore 8 5).insertStore
    8 7).squash 5 = some s' ∧ s'.storeList = [(5, 0)] :=
  squash_ends
    (((Run.init.violation 8 16).insertStore 8 5 (by decide)).insertStore 8 7 (by decide)) 5

end StoreSet

end ShifDram
