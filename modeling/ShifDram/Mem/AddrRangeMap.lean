import ShifDram.Control.Fallible
import Mathlib.Data.List.TakeWhile

/-!
Address ranges and the map that is searched by them (`base/addr_range.hh`,
`base/addr_range_map.hh`).

A map keeps its ranges in the order of their starts. `find` looks for a range that intersects the
one it is given: the last one that starts no later, and a later one only if it is the first of the
map.
-/

namespace ShifDram

open List

/-- `AddrRange`. Both ends are part of the range. -/
structure AddrRange where
  startAddr : ℕ
  endAddr : ℕ
  intlvHighBit : ℕ
  xorHighBit : ℕ
  intlvBits : ℕ
  intlvMatch : ℕ
  deriving DecidableEq, Repr

/-- The panic of `intersects`, or a fatal error: overlapping memories, two ports in a range. -/
inductive RangeAbort where
  | cannotTestIntersection
  | overlapping
  deriving DecidableEq, Repr

namespace AddrRange

variable (r' r : AddrRange)

def rangeIn (startAddr endAddr : ℕ) : AddrRange := ⟨startAddr, endAddr, 0, 0, 0, 0⟩

def interleaved : Bool := r.intlvBits != 0

def hashed : Bool := r.interleaved && r.xorHighBit != 0

/-- `size`, with the wrap of 64-bit arithmetic. -/
def size : ℕ := (r.endAddr + 2 ^ 64 - r.startAddr + 1) % 2 ^ 64 / 2 ^ r.intlvBits

def valid : Bool := r.startAddr ≤ r.endAddr

def mergesWith : Bool :=
  r.startAddr == r'.startAddr && r.endAddr == r'.endAddr &&
    r.intlvHighBit == r'.intlvHighBit && r.xorHighBit == r'.xorHighBit &&
    r.intlvBits == r'.intlvBits

/-- `bits(a, high, high - intlvBits + 1)`. -/
def slice (a high : ℕ) : ℕ := a / 2 ^ (high + 1 - r.intlvBits) % 2 ^ r.intlvBits

def contains (a : ℕ) : Bool :=
  let inRange : Bool := r.startAddr ≤ a && a ≤ r.endAddr
  if !r.interleaved then inRange
  else if inRange then
    if !r.hashed then r.slice a r.intlvHighBit == r.intlvMatch
    else (r.slice a r.intlvHighBit ^^^ r.slice a r.xorHighBit) == r.intlvMatch
  else false

def intersects : Except RangeAbort Bool :=
  if r'.startAddr > r.endAddr ∨ r'.endAddr < r.startAddr then .ok false
  else if !r'.interleaved && !r.interleaved then .ok true
  else if r.size = 1 then .ok (r'.contains r.startAddr)
  else if r'.mergesWith r then .ok (r'.intlvMatch == r.intlvMatch)
  else .error .cannotTestIntersection

def less : Bool :=
  if r'.startAddr ≠ r.startAddr then r'.startAddr < r.startAddr else r'.intlvMatch < r.intlvMatch

end AddrRange

/-- `AddrRangeMap`, in iteration order. -/
structure AddrRangeMap (V : Type*) where
  tree : List (AddrRange × V)

namespace AddrRangeMap

open AddrRange

variable {V : Type*}
variable (m : AddrRangeMap V) (r : AddrRange)

def empty : AddrRangeMap V := ⟨[]⟩

/-- The entries before `tree.upper_bound(r)`. -/
def below : List (AddrRange × V) := m.tree.takeWhile fun e => !r.less e.1

/-- `tree.upper_bound(r)` and the entries after it. -/
def above : List (AddrRange × V) := m.tree.dropWhile fun e => !r.less e.1

/-- The steps back through ranges interleaved with `orig`, from `i` on. -/
def stepBack (orig r : AddrRange) :
    AddrRange × V → List (AddrRange × V) → Except RangeAbort (Option (AddrRange × V))
  | i, [] => (i.1.intersects r).map fun hit => if hit then some i else none
  | i, j :: before =>
    if i.1.mergesWith orig then
      (j.1.intersects r).bind fun hit => if hit then .ok (some j) else stepBack orig r j before
    else (i.1.intersects r).map fun hit => if hit then some i else none

/-- `find`; `none` is the end of the tree. -/
def find : Except RangeAbort (Option (AddrRange × V)) :=
  match (m.below r).reverse with
  | [] =>
    match m.above r with
    | [] => .ok none
    | i :: _ => (i.1.intersects r).map fun hit => if hit then some i else none
  | i :: before =>
    (i.1.intersects r).bind fun hit =>
      if hit then .ok (some i)
      else if i.1.interleaved then stepBack i.1 r i before
      else .ok none

def intersect : Except RangeAbort Bool := (m.find r).map Option.isSome

/-- `tree.insert(std::make_pair(r, d))`: an equal key's entry stays. -/
def treeInsert (d : V) : (AddrRange × V) × AddrRangeMap V :=
  match (m.below r).getLast? with
  | some e =>
    if e.1.less r then ((r, d), ⟨m.below r ++ (r, d) :: m.above r⟩) else (e, m)
  | none => ((r, d), ⟨m.below r ++ (r, d) :: m.above r⟩)

/-- `insert`: the iterator's entry, `none` for the end, and the map. -/
def insert (d : V) : Except RangeAbort (Option (AddrRange × V) × AddrRangeMap V) :=
  (m.intersect r).map fun hit =>
    if hit then (none, m) else ((some (m.treeInsert r d).1), (m.treeInsert r d).2)

/-- The loop of `PhysicalMemory` over its memories. -/
def physicalMemory (m : AddrRangeMap V) : List (AddrRange × V) → Except RangeAbort (AddrRangeMap V)
  | [] => .ok m
  | e :: rest =>
    (m.insert e.1 e.2).bind fun x =>
      match x.1 with
      | none => .error .overlapping
      | some _ => physicalMemory x.2 rest

/-- `BaseXBar::recvRangeChange` on `portMap`, not for the default port: its entries go, and each
range is inserted or the loop ends in a fatal error. -/
def recvRangeChange [DecidableEq V] (portMap : AddrRangeMap V) (masterPortId : V)
    (ranges : List AddrRange) : Except RangeAbort (AddrRangeMap V) :=
  physicalMemory ⟨portMap.tree.filter fun e => e.2 ≠ masterPortId⟩
    (ranges.map fun r => (r, masterPortId))

end AddrRangeMap

/-! ### Ranges without interleaving -/

namespace AddrRange

structure Plain (r : AddrRange) : Prop where
  valid : r.valid = true
  plain : r.interleaved = false

def Shares (r r' : AddrRange) : Prop := ∃ a, r.contains a = true ∧ r'.contains a = true

variable {r r' : AddrRange} {a : ℕ}

lemma Plain.le (h : r.Plain) : r.startAddr ≤ r.endAddr := of_decide_eq_true h.valid

lemma Plain.contains_iff (h : r.Plain) : r.contains a = true ↔ r.startAddr ≤ a ∧ a ≤ r.endAddr := by
  simp [contains, h.plain]

lemma Plain.shares_iff (h : r.Plain) (h' : r'.Plain) :
    r.Shares r' ↔ r.startAddr ≤ r'.endAddr ∧ r'.startAddr ≤ r.endAddr := by
  constructor
  · rintro ⟨a, ha, ha'⟩
    rw [h.contains_iff] at ha
    rw [h'.contains_iff] at ha'
    omega
  · rintro ⟨h₁, h₂⟩
    have hle := h.le
    have hle' := h'.le
    refine ⟨max r.startAddr r'.startAddr, h.contains_iff.mpr ?_, h'.contains_iff.mpr ?_⟩ <;> omega

lemma Plain.intersects_iff (h : r.Plain) (h' : r'.Plain) :
    ∃ hit, r.intersects r' = .ok hit ∧ (hit = true ↔ r.Shares r') := by
  rw [h.shares_iff h', intersects]
  by_cases hfar : r.startAddr > r'.endAddr ∨ r.endAddr < r'.startAddr
  · exact ⟨false, if_pos hfar, by simp; omega⟩
  · refine ⟨true, ?_, by simp; omega⟩
    rw [if_neg hfar]
    simp [h.plain, h'.plain]

lemma le_of_less (h : r.less r' = true) : r.startAddr ≤ r'.startAddr := by
  rw [less] at h
  split_ifs at h with hne
  · exact (of_decide_eq_true h).le
  · omega

lemma less_of_lt (h : r.startAddr < r'.startAddr) : r.less r' = true := by
  rw [less, if_pos (by omega)]
  exact decide_eq_true h

lemma le_of_not_less (h : r.less r' = false) : r'.startAddr ≤ r.startAddr := by
  by_contra hlt
  rw [less_of_lt (by omega)] at h
  cases h

end AddrRange

namespace AddrRangeMap

open AddrRange

variable {V : Type*} {m m' : AddrRangeMap V} {r : AddrRange} {d : V} {e : AddrRange × V}
variable {l : List (AddrRange × V)}

/-- The ranges are plain and lie one after the other. -/
structure Apart (m : AddrRangeMap V) : Prop where
  plain : ∀ e ∈ m.tree, e.1.Plain
  ordered : m.tree.Pairwise fun e e' => e.1.endAddr < e'.1.startAddr

/-- Some range of the map shares an address with `r`. -/
def Overlaps (m : AddrRangeMap V) (r : AddrRange) : Prop := ∃ e ∈ m.tree, e.1.Shares r

/-- If ranges start no later than `r` and some range overlaps `r`, one that starts no later does. -/
def Clear (m : AddrRangeMap V) (r : AddrRange) : Prop :=
  (∃ e ∈ m.tree, r.less e.1 = false) → m.Overlaps r →
    ∃ e ∈ m.tree, r.less e.1 = false ∧ e.1.Shares r

lemma below_append_above (m : AddrRangeMap V) (r : AddrRange) : m.below r ++ m.above r = m.tree :=
  takeWhile_append_dropWhile

lemma Apart.empty : Apart (empty : AddrRangeMap V) := ⟨by simp [AddrRangeMap.empty], .nil⟩

lemma mem_below (he : e ∈ m.below r) : e ∈ m.tree ∧ r.less e.1 = false := by
  refine ⟨(takeWhile_sublist _).subset he, ?_⟩
  have hnot := mem_takeWhile_imp he
  rwa [Bool.not_eq_true'] at hnot

lemma Apart.mem_above (h : m.Apart) (he : e ∈ m.above r) : e ∈ m.tree ∧ r.less e.1 = true := by
  have hmem : ∀ e ∈ m.above r, e ∈ m.tree := fun e he => (dropWhile_sublist _).subset he
  refine ⟨hmem e he, ?_⟩
  -- the first of them comes after `r`, and the others start later still
  cases habove : m.above r with
  | nil => rw [habove] at he; cases he
  | cons i rest =>
    have hi : i ∈ m.above r := by rw [habove]; exact mem_cons_self
    have hfirst : r.less i.1 = true := by
      have hnot := head_dropWhile_not (p := fun e : AddrRange × V => !r.less e.1)
        (l := m.tree) (by rw [above] at habove; rw [habove]; simp)
      rw [above] at habove
      simpa only [habove, head_cons, Bool.not_eq_false'] using hnot
    rw [habove] at he
    rcases mem_cons.mp he with rfl | he
    · exact hfirst
    · have hord : (i :: rest).Pairwise fun e e' => e.1.endAddr < e'.1.startAddr := by
        rw [← habove]
        exact h.ordered.sublist (dropWhile_sublist _)
      have hlt := rel_of_pairwise_cons hord he
      have hle := (h.plain i (hmem i hi)).le
      have hstart := le_of_less hfirst
      exact less_of_lt (by omega)

lemma Apart.shares_last (h : m.Apart) (hr : r.Plain) {i : AddrRange × V}
    {before : List (AddrRange × V)} (hbelow : (m.below r).reverse = i :: before)
    (he : e ∈ m.below r) (hshare : e.1.Shares r) : i.1.Shares r := by
  have hsplit : m.below r = before.reverse ++ [i] := by
    rw [← reverse_reverse (m.below r), hbelow, reverse_cons]
  have hi : i ∈ m.below r := by simp [hsplit]
  have hord : (before.reverse ++ [i]).Pairwise fun e e' => e.1.endAddr < e'.1.startAddr := by
    rw [← hsplit]
    exact h.ordered.sublist (takeWhile_sublist _)
  rw [hsplit] at he
  rcases mem_append.mp he with hfront | hlast
  · have hlt := (pairwise_append.mp hord).2.2 e hfront i (mem_singleton_self i)
    have hmem : e ∈ m.below r := by rw [hsplit]; exact he
    have hreach := ((h.plain e (mem_below hmem).1).shares_iff hr).mp hshare
    have hstart := le_of_not_less (mem_below hi).2
    omega
  · obtain rfl := mem_singleton.mp hlast
    exact hshare

/-! ### Searching -/

/-- `intersect` looks at the last range that starts no later, or else the first. -/
lemma Apart.intersect_iff (h : m.Apart) (hr : r.Plain) : ∃ hit, m.intersect r = .ok hit ∧
      (hit = true ↔ m.Overlaps r ∧ ((∃ e ∈ m.tree, r.less e.1 = false) →
          ∃ e ∈ m.tree, r.less e.1 = false ∧ e.1.Shares r)) := by
  have htree := m.below_append_above r
  cases hbelow : (m.below r).reverse with
  | nil =>
    have hnil : m.below r = [] := reverse_eq_nil_iff.mp hbelow
    rw [hnil, nil_append] at htree
    have hlater : ∀ e ∈ m.tree, r.less e.1 = true := fun e he => (h.mem_above (htree ▸ he)).2
    have hnone : ¬ ∃ e ∈ m.tree, r.less e.1 = false := by
      rintro ⟨e, he, hle⟩
      rw [hlater e he] at hle
      cases hle
    rw [intersect, find, hbelow]
    rw [htree]
    cases hm : m.tree with
    | nil => exact ⟨false, rfl, by simp [Overlaps, hm]⟩
    | cons i rest =>
      have hi : i ∈ m.tree := by rw [hm]; exact mem_cons_self
      obtain ⟨hit, hok, hiff⟩ := (h.plain i hi).intersects_iff hr
      refine ⟨hit, ?_, ?_⟩
      · dsimp only
        rw [hok]
        cases hit <;> rfl
      · rw [hiff]
        constructor
        · exact fun hs => ⟨⟨i, hi, hs⟩, fun hex => absurd (hm ▸ hex) hnone⟩
        · rintro ⟨⟨e, he, hs⟩, -⟩
          rw [hm] at he
          rcases mem_cons.mp he with rfl | he
          · exact hs
          · -- a later range starts after the first one ends
            have hord := h.ordered
            rw [hm] at hord
            have hlt := rel_of_pairwise_cons hord he
            have he' : e ∈ m.tree := by rw [hm]; exact mem_cons_of_mem _ he
            have hreach := ((h.plain e he').shares_iff hr).mp hs
            have hle := (h.plain i hi).le
            have hlate := le_of_less (hlater i hi)
            exact ((h.plain i hi).shares_iff hr).mpr (by omega)
  | cons i before =>
    have hi : i ∈ m.below r := by
      rw [← mem_reverse, hbelow]
      exact mem_cons_self
    obtain ⟨himem, hile⟩ := mem_below hi
    obtain ⟨hit, hok, hiff⟩ := (h.plain i himem).intersects_iff hr
    refine ⟨hit, ?_, ?_⟩
    · rw [intersect, find, hbelow]
      dsimp only
      rw [hok]
      cases hit
      · simp [Except.bind, Except.map, (h.plain i himem).plain]
      · rfl
    · rw [hiff]
      constructor
      · exact fun hs => ⟨⟨i, himem, hs⟩, fun _ => ⟨i, himem, hile, hs⟩⟩
      · rintro ⟨-, himp⟩
        obtain ⟨e, he, hle, hs⟩ := himp ⟨i, himem, hile⟩
        refine h.shares_last hr hbelow (e := e) ?_ hs
        rw [← htree] at he
        rcases mem_append.mp he with he | he
        · exact he
        · rw [(h.mem_above he).2] at hle
          cases hle

/-- A range that shares no address with the others takes its place. -/
lemma Apart.treeInsert (h : m.Apart) (hr : r.Plain) (hfree : ¬ m.Overlaps r) (d : V) :
    m.treeInsert r d = ((r, d), ⟨m.below r ++ (r, d) :: m.above r⟩) ∧
      Apart ⟨m.below r ++ (r, d) :: m.above r⟩ := by
  have htree := m.below_append_above r
  have hbefore : ∀ e ∈ m.below r, e.1.endAddr < r.startAddr := by
    intro e he
    obtain ⟨hmem, hbelow⟩ := mem_below he
    have hle := le_of_not_less hbelow
    have hne : ¬ e.1.Shares r := fun hs => hfree ⟨e, hmem, hs⟩
    rw [(h.plain e hmem).shares_iff hr] at hne
    have := hr.le
    omega
  have hafter : ∀ e ∈ m.above r, r.endAddr < e.1.startAddr := by
    intro e he
    obtain ⟨hmem, habove⟩ := h.mem_above he
    have hle := le_of_less habove
    have hne : ¬ e.1.Shares r := fun hs => hfree ⟨e, hmem, hs⟩
    rw [(h.plain e hmem).shares_iff hr] at hne
    have := (h.plain e hmem).le
    omega
  refine ⟨?_, ?_, ?_⟩
  · rw [AddrRangeMap.treeInsert]
    split
    · next e he =>
      have hmem : e ∈ m.below r := mem_of_getLast? he
      have hlt := hbefore e hmem
      have hle := (h.plain e (mem_below hmem).1).le
      rw [if_pos (less_of_lt (by omega))]
    · rfl
  · intro e he
    rcases mem_append.mp he with he | he
    · exact h.plain e (mem_below he).1
    · rcases mem_cons.mp he with rfl | he
      · exact hr
      · exact h.plain e (h.mem_above he).1
  · have hord := h.ordered
    rw [← htree, pairwise_append] at hord
    obtain ⟨hfirst, hsecond, hcross⟩ := hord
    rw [pairwise_append]
    refine ⟨hfirst, pairwise_cons.mpr ⟨hafter, hsecond⟩, fun e he e' he' => ?_⟩
    rcases mem_cons.mp he' with rfl | he'
    · exact hbefore e he
    · exact hcross e he e' he'

lemma Apart.insert (h : m.Apart) (hr : r.Plain) (hclear : m.Clear r) (d : V) :
    (m.Overlaps r ∧ m.insert r d = .ok (none, m)) ∨
      (¬ m.Overlaps r ∧ Apart ⟨m.below r ++ (r, d) :: m.above r⟩ ∧
        m.insert r d = .ok (some (r, d), ⟨m.below r ++ (r, d) :: m.above r⟩)) := by
  obtain ⟨hit, hok, hiff⟩ := h.intersect_iff hr
  rw [AddrRangeMap.insert, hok]
  by_cases hover : m.Overlaps r
  · obtain rfl : hit = true := hiff.mpr ⟨hover, fun hex => hclear hex hover⟩
    exact Or.inl ⟨hover, rfl⟩
  · obtain rfl : hit = false := Bool.eq_false_iff.mpr fun ht => hover (hiff.mp ht).1
    obtain ⟨htree, hapart⟩ := h.treeInsert hr hover d
    refine Or.inr ⟨hover, hapart, ?_⟩
    simp only [Except.map, htree]
    rfl

/-! ### Runs -/

/-- A map filled by insertions of plain ranges that meet the condition, and erasures. -/
inductive Run (condition : AddrRangeMap V → AddrRange → Prop) : AddrRangeMap V → Prop
  | empty : Run condition empty
  | insert {m m' : AddrRangeMap V} {r : AddrRange} {d : V} {x : Option (AddrRange × V)} :
      Run condition m → r.Plain → condition m r → m.insert r d = .ok (x, m') → Run condition m'
  | erase {m : AddrRangeMap V} (keep : AddrRange × V → Bool) :
      Run condition m → Run condition ⟨m.tree.filter keep⟩

lemma Apart.erase (h : m.Apart) (keep : AddrRange × V → Bool) : Apart ⟨m.tree.filter keep⟩ :=
  ⟨fun e he => h.plain e (mem_of_mem_filter he), h.ordered.sublist filter_sublist⟩

lemma Run.apart (h : Run Clear m) : m.Apart := by
  induction h with
  | empty => exact .empty
  | insert _ hr hclear hok ih =>
    rcases ih.insert hr hclear _ with ⟨-, hins⟩ | ⟨-, hapart, hins⟩
    · rw [hins] at hok
      obtain ⟨-, rfl⟩ := Prod.mk.inj (Except.ok.inj hok)
      exact ih
    · rw [hins] at hok
      obtain ⟨-, rfl⟩ := Prod.mk.inj (Except.ok.inj hok)
      exact hapart
  | erase keep _ ih => exact ih.erase keep

/-- Every insertion of the loop meets `Clear`. -/
def ClearAll : AddrRangeMap V → List (AddrRange × V) → Prop
  | _, [] => True
  | m, e :: rest =>
    m.Clear e.1 ∧ ClearAll ⟨m.below e.1 ++ e :: m.above e.1⟩ rest

/-- The loop accepts ranges disjoint from each other and from those it has. -/
lemma Apart.physicalMemory_iff (h : m.Apart) (hplain : ∀ e ∈ l, e.1.Plain) (hclear : m.ClearAll l) :
    (m.physicalMemory l = .error .overlapping ∨ ∃ m', m.physicalMemory l = .ok m') ∧
      ((∃ m', m.physicalMemory l = .ok m') ↔
        (∀ e ∈ l, ¬ m.Overlaps e.1) ∧ l.Pairwise fun e e' => ¬ e.1.Shares e'.1) := by
  induction l generalizing m with
  | nil => exact ⟨Or.inr ⟨m, rfl⟩, ⟨fun _ => ⟨by simp, .nil⟩, fun _ => ⟨m, rfl⟩⟩⟩
  | cons e rest ih =>
    have he := hplain e mem_cons_self
    rcases h.insert he hclear.1 e.2 with ⟨hover, hins⟩ | ⟨hfree, hapart, hins⟩
    · have herr : m.physicalMemory (e :: rest) = .error .overlapping := by
        rw [physicalMemory, hins]
        rfl
      refine ⟨Or.inl herr, ⟨?_, fun hall => absurd hover (hall.1 e mem_cons_self)⟩⟩
      rintro ⟨m', hm'⟩
      rw [herr] at hm'
      cases hm'
    · have hstep : m.physicalMemory (e :: rest) =
          physicalMemory ⟨m.below e.1 ++ e :: m.above e.1⟩ rest := by
        rw [physicalMemory, hins]
        rfl
      have hih := ih hapart (fun e' he' => hplain e' (mem_cons_of_mem _ he')) hclear.2
      rw [hstep]
      refine ⟨hih.1, hih.2.trans ?_⟩
      have hover' : ∀ e' : AddrRange × V, Overlaps ⟨m.below e.1 ++ e :: m.above e.1⟩ e'.1 ↔
            e.1.Shares e'.1 ∨ m.Overlaps e'.1 := by
        intro e'
        have htree := m.below_append_above e.1
        simp only [Overlaps, ← htree, mem_append, mem_cons]
        grind
      simp only [hover', pairwise_cons, mem_cons, forall_eq_or_imp, not_or]
      grind

lemma Apart.physicalMemory_overlapping (h : m.Apart) (hplain : ∀ e ∈ l, e.1.Plain)
    (hclear : m.ClearAll l) : m.physicalMemory l = .error .overlapping ↔
      ¬ ((∀ e ∈ l, ¬ m.Overlaps e.1) ∧ l.Pairwise fun e e' => ¬ e.1.Shares e'.1) := by
  obtain ⟨hor, hiff⟩ := h.physicalMemory_iff hplain hclear
  rw [← hiff]
  constructor
  · rintro herr ⟨m', hm'⟩
    rw [herr] at hm'
    cases hm'
  · exact fun hno => hor.resolve_right hno

/-- The loop goes on with a map filled by insertions. -/
lemma Run.physicalMemory (h : Run Clear m) (hplain : ∀ e ∈ l, e.1.Plain) (hclear : m.ClearAll l)
    (hok : m.physicalMemory l = .ok m') : Run Clear m' := by
  induction l generalizing m with
  | nil =>
    cases hok
    exact h
  | cons e rest ih =>
    have he := hplain e mem_cons_self
    rcases h.apart.insert he hclear.1 e.2 with ⟨-, hins⟩ | ⟨-, -, hins⟩
    · rw [AddrRangeMap.physicalMemory, hins] at hok
      cases hok
    · rw [AddrRangeMap.physicalMemory, hins] at hok
      exact ih (h.insert he hclear.1 hins) (fun e' he' => hplain e' (mem_cons_of_mem _ he'))
        hclear.2 hok

/-- **Insertion refuses overlaps**: in a map filled by insertions that meet `Clear`, the ranges are
pairwise disjoint; a plain range is refused exactly if it overlaps a stored one if and only if it
meets `Clear`; the loop of `PhysicalMemory`, and a crossbar, whose insertions do, reject exactly
what overlaps. -/
theorem insert_refuses_iff (h : Run Clear m) : (m.tree.Pairwise fun e e' => ¬ e.1.Shares e'.1) ∧
      (∀ r d, r.Plain → ∃ x m', m.insert r d = .ok (x, m') ∧
        ((x = none ↔ m.Overlaps r) ↔ m.Clear r)) ∧
      (∀ l : List (AddrRange × V), (∀ e ∈ l, e.1.Plain) → ClearAll empty l →
        (physicalMemory empty l = .error .overlapping ↔
          ¬ l.Pairwise fun e e' => ¬ e.1.Shares e'.1)) ∧
      ∀ [DecidableEq V] (port : V) (ranges : List AddrRange), (∀ r ∈ ranges, r.Plain) →
        ClearAll ⟨m.tree.filter fun e => e.2 ≠ port⟩ (ranges.map fun r => (r, port)) →
        (m.recvRangeChange port ranges = .error .overlapping ↔
          ¬ ((∀ r ∈ ranges, ∀ e ∈ m.tree, e.2 ≠ port → ¬ e.1.Shares r) ∧
            ranges.Pairwise fun r r' => ¬ r.Shares r')) ∧
        ∀ m', m.recvRangeChange port ranges = .ok m' → Run Clear m' := by
  have hapart := h.apart
  refine ⟨?_, ?_, ?_, ?_⟩
  · refine (hapart.ordered.imp_of_mem ?_)
    intro e e' he he' hlt hs
    rw [(hapart.plain e he).shares_iff (hapart.plain e' he')] at hs
    omega
  · intro r d hr
    obtain ⟨hit, hok, hiff⟩ := hapart.intersect_iff hr
    cases hit with
    | true =>
      obtain ⟨hover, hclear⟩ := hiff.mp rfl
      refine ⟨none, m, by rw [AddrRangeMap.insert, hok]; rfl, ?_⟩
      exact ⟨fun _ hex _ => hclear hex, fun _ => ⟨fun _ => hover, fun _ => rfl⟩⟩
    | false =>
      have hnot := mt hiff.mpr Bool.false_ne_true
      refine ⟨some _, _, by rw [AddrRangeMap.insert, hok]; rfl, ?_⟩
      simp only [reduceCtorEq, false_iff]
      constructor
      · exact fun hfree _ hover => absurd hover hfree
      · exact fun hclear hover => hnot ⟨hover, fun hex => hclear hex hover⟩
  · intro l hplain hclear
    have hnone : ∀ e ∈ l, ¬ (empty : AddrRangeMap V).Overlaps e.1 := by
      rintro e - ⟨e', he', -⟩
      cases he'
    rw [Apart.empty.physicalMemory_overlapping hplain hclear, and_iff_right hnone]
  · intro _ port ranges hplain hclear
    have hentries : ∀ e ∈ ranges.map fun r => (r, port), e.1.Plain := by
      intro e he
      obtain ⟨r, hr, rfl⟩ := mem_map.mp he
      exact hplain r hr
    refine ⟨?_, fun m' hok => (h.erase _).physicalMemory hentries hclear hok⟩
    rw [recvRangeChange, (hapart.erase _).physicalMemory_overlapping hentries hclear]
    simp only [Overlaps, mem_map, forall_exists_index, and_imp, forall_apply_eq_imp_iff₂,
      mem_filter, decide_eq_true_eq, pairwise_map, not_exists, not_and]

/-- The unit test's map after two insertions. -/
def twoRanges : AddrRangeMap ℕ := ⟨[(rangeIn 10 40, 5), (rangeIn 60 90, 3)]⟩

lemma plain_rangeIn {a b : ℕ} (h : a ≤ b) : (rangeIn a b).Plain := ⟨decide_eq_true h, rfl⟩

lemma run_twoRanges : Run Clear twoRanges := by
  have hfirst : Clear (empty : AddrRangeMap ℕ) (rangeIn 10 40) := by
    rintro ⟨e, he, -⟩
    cases he
  have hsecond : Clear (⟨[(rangeIn 10 40, 5)]⟩ : AddrRangeMap ℕ) (rangeIn 60 90) := by
    rintro - ⟨e, he, hs⟩
    obtain rfl := mem_singleton.mp he
    rw [(plain_rangeIn (by norm_num)).shares_iff (plain_rangeIn (by norm_num))] at hs
    simp [rangeIn] at hs
  exact .insert (.insert .empty (plain_rangeIn (by norm_num)) hfirst rfl)
    (plain_rangeIn (by norm_num)) hsecond rfl

theorem insert_refuses_iff_two :
    Run Clear twoRanges ∧ twoRanges.tree.Pairwise fun e e' => ¬ e.1.Shares e'.1 :=
  ⟨run_twoRanges, (insert_refuses_iff run_twoRanges).1⟩

/-- A range that overlaps the second one from below is let in; so are three memories with an
overlap, and a third port's range. -/
theorem insert_overlapping :
    Run Clear twoRanges ∧ (rangeIn 50 70).Plain ∧ twoRanges.Overlaps (rangeIn 50 70) ∧
      (∃ x m', twoRanges.insert (rangeIn 50 70) 1 = .ok (some x, m')) ∧
      (∃ m', physicalMemory empty [(rangeIn 10 40, 5), (rangeIn 60 90, 3), (rangeIn 50 70, 1)] =
        .ok m') ∧
      ∃ m', twoRanges.recvRangeChange 1 [rangeIn 50 70] = .ok m' := by
  refine ⟨run_twoRanges, plain_rangeIn (by norm_num), ⟨(rangeIn 60 90, 3), by simp [twoRanges], ?_⟩,
    ⟨_, _, rfl⟩, ⟨_, rfl⟩, ⟨_, rfl⟩⟩
  rw [(plain_rangeIn (by norm_num)).shares_iff (plain_rangeIn (by norm_num))]
  simp [rangeIn]

end AddrRangeMap

end ShifDram
