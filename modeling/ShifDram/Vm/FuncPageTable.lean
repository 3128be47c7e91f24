import ShifDram.Maps.Table
import ShifDram.Vm.PageTable

/-!
The page table of a process (`mem/page_table.cc`, `mem/page_table.hh`).

Three recent entries stand in front of a hash table. `map`, `remap` and `unmap` walk over the
pages of a region and keep the recent entries in step; `lookup` asks them first. The wrap-around
of 64-bit addresses is left out, and every walk is taken to the end of its region.
-/

namespace ShifDram

open Function Option

variable {a size : ℤ}

/-- `TlbEntry` with its virtual address; other fields never differ. -/
structure PageEntry extends TlbEntry where
  vaddr : ℤ
  deriving DecidableEq, Repr

/-- `MappingFlags`, those that the table reads. -/
structure MappingFlags where
  clobber : Bool
  uncacheable : Bool
  readOnly : Bool
  deriving DecidableEq, Repr

namespace PageEntry

/-- `TlbEntry()`, made up for a page the hash table lacks. -/
def blank : PageEntry := ⟨⟨0, 0, false, false, true⟩, 0⟩

/-- `TlbEntry(asn, vaddr, paddr, uncacheable, read_only)`. -/
def ofPage (pageShift : ℕ) (vaddr : ℤ) (paddr : ℕ) (flags : MappingFlags) : PageEntry :=
  ⟨⟨paddr, pageShift, flags.uncacheable, !flags.readOnly, true⟩, vaddr⟩

def updateVaddr (e : PageEntry) (vaddr : ℤ) : PageEntry := { e with vaddr := vaddr }

end PageEntry

/-- The call ends the simulation: an assertion, or a fatal error. -/
inductive VmAbort where
  | notAligned
  | notMapped (vaddr : ℤ)
  | alreadyMapped (vaddr : ℤ)
  | outOfMemory
  | maxStackSize
  | tlb
  deriving DecidableEq, Repr

def roundsOf (pageSize size : ℤ) : ℕ := ((size + pageSize - 1) / pageSize).toNat

/-! ### The table -/

/-- `FuncPageTable`: pages of `2 ^ pageShift`, hash table, recent entries. -/
structure FuncPageTable where
  pageShift : ℕ
  pTable : ℤ → Option PageEntry
  pTableCache : Recent ℤ PageEntry

namespace FuncPageTable

variable (t : FuncPageTable) (vaddr : ℤ)

def pageSize : ℤ := 2 ^ t.pageShift

def pageAlign (a : ℤ) : ℤ := a / t.pageSize * t.pageSize

def pageOffset (a : ℤ) : ℤ := a % t.pageSize

/-- The empty table, with three invalid recent entries. -/
def init (pageShift : ℕ) : FuncPageTable := ⟨pageShift, fun _ => none, [none, none, none]⟩

/-- The rounds of `for (; size > 0; size -= pageSize)`. -/
def rounds (size : ℤ) : ℕ := roundsOf t.pageSize size

/-- One round of `map`. -/
def mapPage (flags : MappingFlags) (t : FuncPageTable) (vaddr : ℤ) (paddr : ℕ) : FuncPageTable :=
  let entry := PageEntry.ofPage t.pageShift vaddr paddr flags
  { t with
    pTable := update t.pTable vaddr (some entry)
    pTableCache := (t.pTableCache.erase vaddr).push vaddr entry }

def mapLoop (flags : MappingFlags) : ℕ → FuncPageTable → ℤ → ℕ → Except VmAbort FuncPageTable
  | 0, t, _, _ => .ok t
  | n + 1, t, vaddr, paddr =>
    if !flags.clobber && (t.pTable vaddr).isSome then .error (.alreadyMapped vaddr)
    else mapLoop flags n (t.mapPage flags vaddr paddr) (vaddr + t.pageSize)
      (paddr + 2 ^ t.pageShift)

def map (paddr : ℕ) (size : ℤ) (flags : MappingFlags) : Except VmAbort FuncPageTable :=
  if t.pageOffset vaddr ≠ 0 then .error .notAligned
  else mapLoop flags (t.rounds size) t vaddr paddr

/-- One round of `remap`: the entry is copied and erased; `pTable[new_vaddr]` makes one up if the
pages are the same. -/
def remapPage (newVaddr : ℤ) : FuncPageTable :=
  let copied := update t.pTable newVaddr (t.pTable vaddr)
  let erased := update copied vaddr none
  let entry := ((erased newVaddr).getD .blank).updateVaddr newVaddr
  { t with
    pTable := update erased newVaddr (some entry)
    pTableCache := (t.pTableCache.erase vaddr).push newVaddr entry }

def remapLoop : ℕ → FuncPageTable → ℤ → ℤ → Except VmAbort FuncPageTable
  | 0, t, _, _ => .ok t
  | n + 1, t, vaddr, newVaddr =>
    if (t.pTable vaddr).isNone then .error (.notMapped vaddr)
    else remapLoop n (t.remapPage vaddr newVaddr) (vaddr + t.pageSize) (newVaddr + t.pageSize)

def remap (size newVaddr : ℤ) : Except VmAbort FuncPageTable :=
  if t.pageOffset vaddr ≠ 0 ∨ t.pageOffset newVaddr ≠ 0 then .error .notAligned
  else remapLoop (t.rounds size) t vaddr newVaddr

/-- One round of `unmap`. -/
def unmapPage : FuncPageTable :=
  { t with
    pTable := update t.pTable vaddr none
    pTableCache := t.pTableCache.erase vaddr }

def unmapLoop : ℕ → FuncPageTable → ℤ → Except VmAbort FuncPageTable
  | 0, t, _ => .ok t
  | n + 1, t, vaddr =>
    if (t.pTable vaddr).isNone then .error (.notMapped vaddr)
    else unmapLoop n (t.unmapPage vaddr) (vaddr + t.pageSize)

def unmap (size : ℤ) : Except VmAbort FuncPageTable :=
  if t.pageOffset vaddr ≠ 0 then .error .notAligned else unmapLoop (t.rounds size) t vaddr

def isUnmapped (size : ℤ) : Bool :=
  (List.range (t.rounds size)).all fun i => (t.pTable (vaddr + (i : ℕ) * t.pageSize)).isNone

def lookup : Option PageEntry × FuncPageTable :=
  let pageAddr := t.pageAlign vaddr
  match t.pTableCache.find? pageAddr with
  | some entry => (some entry, t)
  | none =>
    match t.pTable pageAddr with
    | none => (none, t)
    | some entry => (some entry, { t with pTableCache := t.pTableCache.push pageAddr entry })

end FuncPageTable

/-! ### The page map -/

/-- A partial map of pages, each under its first address. -/
abbrev PageMap := ℤ → Option PageEntry

/-- `a` is on one of the `n` pages from `start` on. -/
def InPages (pageSize start : ℤ) (n : ℕ) (a : ℤ) : Prop := ∃ i < n, start + (i : ℕ) * pageSize = a

instance (pageSize start : ℤ) (n : ℕ) (a : ℤ) : Decidable (InPages pageSize start n a) :=
  inferInstanceAs (Decidable (∃ i < n, _))

namespace PageMap

def map (pageShift : ℕ) (m : PageMap) (vaddr : ℤ) (paddr n : ℕ) (flags : MappingFlags) : PageMap :=
  fun a => if InPages (2 ^ pageShift) vaddr n a then
    some (.ofPage pageShift a (paddr + (a - vaddr).toNat) flags) else m a

def unmap (pageSize : ℤ) (m : PageMap) (vaddr : ℤ) (n : ℕ) : PageMap :=
  fun a => if InPages pageSize vaddr n a then none else m a

/-- **The pages of a region move, all at once.** -/
def remap (pageSize : ℤ) (m : PageMap) (vaddr : ℤ) (n : ℕ) (newVaddr : ℤ) : PageMap :=
  fun a => if InPages pageSize newVaddr n a then (m (vaddr + (a - newVaddr))).map (·.updateVaddr a)
    else if InPages pageSize vaddr n a then none else m a

end PageMap

lemma page_succ (pageSize start : ℤ) (i : ℕ) :
    start + ((i + 1 : ℕ) : ℤ) * pageSize = start + pageSize + (i : ℕ) * pageSize := by
  push_cast
  ring

lemma inPages_succ {pageSize start : ℤ} {n : ℕ} :
    InPages pageSize start (n + 1) a ↔ start = a ∨ InPages pageSize (start + pageSize) n a := by
  constructor
  · rintro ⟨i, hi, rfl⟩
    cases i with
    | zero => exact Or.inl (by simp)
    | succ i => exact Or.inr ⟨i, by omega, (page_succ ..).symm⟩
  · rintro (rfl | ⟨i, hi, rfl⟩)
    · exact ⟨0, by omega, by simp⟩
    · exact ⟨i + 1, by omega, page_succ ..⟩

lemma not_inPages_zero {pageSize start : ℤ} : ¬ InPages pageSize start 0 a := by
  rintro ⟨i, hi, -⟩
  cases hi

namespace PageMap

variable {m : PageMap} {pageShift n : ℕ} {pageSize v w : ℤ}

lemma map_zero (m : PageMap) (v : ℤ) (pa : ℕ) (flags : MappingFlags) :
    m.map pageShift v pa 0 flags = m :=
  funext fun _ => if_neg not_inPages_zero

lemma map_succ (pa : ℕ) (flags : MappingFlags) : m.map pageShift v pa (n + 1) flags =
      map pageShift (update m v (some (.ofPage pageShift v pa flags)))
        (v + 2 ^ pageShift) (pa + 2 ^ pageShift) n flags := by
  have hpos : (0 : ℤ) < 2 ^ pageShift := by positivity
  funext a
  by_cases hrest : InPages (2 ^ pageShift) (v + 2 ^ pageShift) n a
  · rw [map, map, if_pos (inPages_succ.mpr (Or.inr hrest)), if_pos hrest]
    obtain ⟨i, -, rfl⟩ := hrest
    have hnonneg : (0 : ℤ) ≤ i * 2 ^ pageShift := by positivity
    have hcast : ((2 ^ pageShift : ℕ) : ℤ) = 2 ^ pageShift := by rfl
    congr 2
    omega
  · by_cases hfirst : v = a
    · subst hfirst
      rw [map, map, if_pos (inPages_succ.mpr (Or.inl rfl)), if_neg hrest, update_self]
      simp
    · have hnot : ¬ InPages (2 ^ pageShift) v (n + 1) a := by
        rw [inPages_succ]
        exact not_or.mpr ⟨hfirst, hrest⟩
      rw [map, map, if_neg hnot, if_neg hrest, update_of_ne (Ne.symm hfirst)]

lemma map_page (pageShift : ℕ) (m : PageMap) {i : ℕ} (v : ℤ) (pa : ℕ) (flags : MappingFlags)
    (hi : i < n) : m.map pageShift v pa n flags (v + (i : ℕ) * 2 ^ pageShift) =
      some (.ofPage pageShift (v + (i : ℕ) * 2 ^ pageShift) (pa + i * 2 ^ pageShift) flags) := by
  rw [map, if_pos ⟨i, hi, rfl⟩, add_sub_cancel_left]
  congr 2

lemma unmap_zero (m : PageMap) (v : ℤ) : m.unmap pageSize v 0 = m :=
  funext fun _ => if_neg not_inPages_zero

lemma unmap_succ :
    m.unmap pageSize v (n + 1) = unmap pageSize (update m v none) (v + pageSize) n := by
  funext a
  by_cases hrest : InPages pageSize (v + pageSize) n a
  · rw [unmap, unmap, if_pos (inPages_succ.mpr (Or.inr hrest)), if_pos hrest]
  · by_cases hfirst : v = a
    · rw [unmap, unmap, if_pos (inPages_succ.mpr (Or.inl hfirst)), if_neg hrest, hfirst,
        update_self]
    · have hnot : ¬ InPages pageSize v (n + 1) a := by
        rw [inPages_succ]
        exact not_or.mpr ⟨hfirst, hrest⟩
      rw [unmap, unmap, if_neg hnot, if_neg hrest, update_of_ne (Ne.symm hfirst)]

lemma moved_remap (pageSize : ℤ) (m : PageMap) (v : ℤ) (n : ℕ) (w : ℤ) :
    Moved (fun a e => e.updateVaddr a) (fun i => v + (i : ℕ) * pageSize)
      (fun i => w + (i : ℕ) * pageSize) n m (m.remap pageSize v n w) := by
  refine ⟨fun {i} hi => ?_, fun {i} hi hfree => ?_, fun hdst hsrc => ?_⟩
  · rw [remap, if_pos ⟨i, hi, rfl⟩, add_sub_cancel_left]
  · rw [remap, if_neg ?_, if_pos ⟨i, hi, rfl⟩]
    rintro ⟨j, hj, heq⟩
    exact hfree j hj heq
  · rw [remap, if_neg ?_, if_neg ?_]
    · rintro ⟨i, hi, heq⟩
      exact hsrc i hi heq
    · rintro ⟨i, hi, heq⟩
      exact hdst i hi heq

end PageMap

namespace FuncPageTable

variable {t t' : FuncPageTable} {flags : MappingFlags} {n : ℕ} {v w : ℤ} {pa : ℕ}

lemma pageSize_pos (t : FuncPageTable) : 0 < t.pageSize := by
  rw [pageSize]
  positivity

lemma page_inj (t : FuncPageTable) {i j : ℕ} (h : v + i * t.pageSize = v + j * t.pageSize) :
    i = j := by
  have hpos := t.pageSize_pos
  have h' : (i : ℤ) * t.pageSize = j * t.pageSize := by omega
  exact_mod_cast mul_right_cancel₀ hpos.ne' h'

lemma page_ne_first (t : FuncPageTable) (v : ℤ) (i : ℕ) :
    v + t.pageSize + (i : ℕ) * t.pageSize ≠ v := by
  have hpos := t.pageSize_pos
  have hnonneg : 0 ≤ (i : ℤ) * t.pageSize := by positivity
  omega

/-- The table becomes the page map `m`; recent entries that agreed still do. -/
structure Keeps (t t' : FuncPageTable) (m : PageMap) : Prop where
  pageShift : t'.pageShift = t.pageShift
  pTable : t'.pTable = m
  agrees : t.pTableCache.Agrees t.pTable → t'.pTableCache.Agrees t'.pTable

lemma Keeps.pageSize {m : PageMap} (h : Keeps t t' m) : t'.pageSize = t.pageSize := by
  rw [FuncPageTable.pageSize, FuncPageTable.pageSize, h.pageShift]

lemma keeps_mapPage (flags : MappingFlags) (v : ℤ) (pa : ℕ) : Keeps t (t.mapPage flags v pa)
      (update t.pTable v (some (.ofPage t.pageShift v pa flags))) := by
  refine ⟨rfl, rfl, fun h => ?_⟩
  exact (h.erase v _).push (h.apart.not_holds_erase v) (update_self ..)

/-- **The loop of `map`** maps the region, or meets a mapped page. -/
lemma keeps_mapLoop (h : mapLoop flags n t v pa = .ok t') :
    Keeps t t' (PageMap.map t.pageShift t.pTable v pa n flags) := by
  induction n generalizing t v pa with
  | zero =>
    cases h
    exact ⟨rfl, (PageMap.map_zero _ _ _ _).symm, id⟩
  | succ n ih =>
    rw [mapLoop] at h
    split_ifs at h
    have hfirst := t.keeps_mapPage flags v pa
    have hrest := ih h
    refine ⟨hrest.pageShift, ?_, fun hagree => hrest.agrees (hfirst.agrees hagree)⟩
    rw [hrest.pTable, hfirst.pTable, PageMap.map_succ]
    rfl

/-- **The loop of `unmap`** unmaps it, or meets an unmapped page. -/
lemma keeps_unmapLoop (h : unmapLoop n t v = .ok t') :
    Keeps t t' (PageMap.unmap t.pageSize t.pTable v n) := by
  induction n generalizing t v with
  | zero =>
    cases h
    exact ⟨rfl, (PageMap.unmap_zero _ _).symm, id⟩
  | succ n ih =>
    rw [unmapLoop] at h
    split_ifs at h
    have hrest := ih h
    refine ⟨hrest.pageShift, ?_, fun hagree => hrest.agrees (hagree.erase v none)⟩
    rw [hrest.pTable, PageMap.unmap_succ]
    rfl

/-! ### Moving pages -/

/-- **The condition on `remap`**: no page moves onto one moved with or after it, and the recent
entries hold no page of the target but moved ones. -/
structure Movable (t : FuncPageTable) (v : ℤ) (n : ℕ) (w : ℤ) : Prop where
  clash : ∀ i < n, ∀ j ≤ i, w + (j : ℕ) * t.pageSize ≠ v + (i : ℕ) * t.pageSize
  cached : ∀ i < n, t.pTableCache.Holds (w + (i : ℕ) * t.pageSize) →
    InPages t.pageSize v n (w + (i : ℕ) * t.pageSize)

lemma pTable_remapPage_of_ne (hv : a ≠ v) (hw : a ≠ w) :
    (t.remapPage v w).pTable a = t.pTable a := by
  rw [remapPage]
  dsimp only
  rw [update_of_ne hw, update_of_ne hv, update_of_ne hw]

lemma isSome_remapPage (t : FuncPageTable) (v w : ℤ) : ((t.remapPage v w).pTable w).isSome := by
  rw [remapPage]
  dsimp only
  rw [update_self]
  rfl

lemma moved_remapPage (hmapped : (t.pTable v).isSome) (hne : w ≠ v) :
    Moved (fun a e => e.updateVaddr a) (fun i => v + (i : ℕ) * t.pageSize)
      (fun i => w + (i : ℕ) * t.pageSize) 1 t.pTable (t.remapPage v w).pTable := by
  obtain ⟨e, he⟩ := isSome_iff_exists.mp hmapped
  have htable : (t.remapPage v w).pTable = update (update (update t.pTable w (t.pTable v)) v none) w
        (some (e.updateVaddr w)) := by
    simp [remapPage, update_of_ne hne, he]
  rw [htable]
  refine ⟨fun {i} hi => ?_, fun {i} hi hfree => ?_, fun {k} hdst hsrc => ?_⟩
  · obtain rfl := Nat.lt_one_iff.mp hi
    simp [he]
  · obtain rfl := Nat.lt_one_iff.mp hi
    simp [update_of_ne hne.symm]
  · have hw : k ≠ w := fun heq => hdst 0 Nat.one_pos (by simp [heq])
    have hv : k ≠ v := fun heq => hsrc 0 Nat.one_pos (by simp [heq])
    rw [← htable]
    exact pTable_remapPage_of_ne hv hw

lemma agrees_remapPage (hne : w ≠ v) (hcached : ¬ (t.pTableCache.erase v).Holds w)
    (h : t.pTableCache.Agrees t.pTable) :
    (t.remapPage v w).pTableCache.Agrees (t.remapPage v w).pTable := by
  have herased : (t.pTableCache.erase v).Agrees
      (update (update t.pTable w (t.pTable v)) v none) := by
    rw [update_comm hne]
    exact (h.erase v none).update hcached _
  refine Recent.Agrees.push (herased.update hcached _) hcached ?_
  exact update_self ..

lemma Movable.tail (h : Movable t v (n + 1) w) (hagree : t.pTableCache.Agrees t.pTable) :
    Movable (t.remapPage v w) (v + t.pageSize) n (w + t.pageSize) := by
  have hsize : (t.remapPage v w).pageSize = t.pageSize := rfl
  refine ⟨fun i hi j hj heq => ?_, fun i hi hheld => ?_⟩
  · rw [hsize] at heq
    refine h.clash (i + 1) (by omega) (j + 1) (by omega) ?_
    rw [page_succ, page_succ, heq]
  · rw [hsize] at hheld ⊢
    rw [← page_succ] at hheld ⊢
    rcases hheld.of_push with heq | hheld
    · -- the page that was moved to is a page behind this one
      have hsame : w + ((i + 1 : ℕ) : ℤ) * t.pageSize = w + ((0 : ℕ) : ℤ) * t.pageSize := by
        simpa using heq
      cases t.page_inj hsame
    · rcases inPages_succ.mp (h.cached (i + 1) (by omega) hheld.of_erase) with heq | hin
      · rw [← heq] at hheld
        exact absurd hheld (hagree.apart.not_holds_erase v)
      · exact hin

lemma isSome_of_not_isNone {o : Option PageEntry} (h : ¬ o.isNone = true) : o.isSome := by
  rwa [Bool.not_eq_true, isNone_eq_false_iff] at h

/-- **The loop of `remap`** moves pages as if at once, under the condition's first part. -/
lemma moved_remapLoop (h : remapLoop n t v w = .ok t')
    (hclash : ∀ i < n, ∀ j ≤ i, w + (j : ℕ) * t.pageSize ≠ v + (i : ℕ) * t.pageSize) :
    t'.pageShift = t.pageShift ∧ t'.pTable = PageMap.remap t.pageSize t.pTable v n w := by
  suffices hmoved : t'.pageShift = t.pageShift ∧
      Moved (fun a e => e.updateVaddr a) (fun i => v + (i : ℕ) * t.pageSize)
        (fun i => w + (i : ℕ) * t.pageSize) n t.pTable t'.pTable from
    ⟨hmoved.1, hmoved.2.unique (PageMap.moved_remap _ _ _ _ _)⟩
  induction n generalizing t v w with
  | zero =>
    cases h
    exact ⟨rfl, Moved.zero _⟩
  | succ n ih =>
    rw [remapLoop] at h
    split_ifs at h with hnone
    have hne : w ≠ v := by
      have := hclash 0 (by omega) 0 le_rfl
      simpa using this
    have hsize : (t.remapPage v w).pageSize = t.pageSize := rfl
    obtain ⟨hshift, hrest⟩ := ih h fun i hi j hj heq => by
      rw [hsize, ← page_succ, ← page_succ] at heq
      exact hclash (i + 1) (by omega) (j + 1) (by omega) heq
    refine ⟨hshift, ?_⟩
    refine (moved_remapPage (isSome_of_not_isNone hnone) hne).cons ?_ ?_ ?_ ?_
    · simp only [page_succ]
      exact hrest
    · intro i hi heq
      exact hclash i (by omega) 0 (by omega) heq
    · intro i hi heq
      cases t.page_inj heq
    · intro i hi heq
      cases t.page_inj heq

lemma agrees_remapLoop (h : remapLoop n t v w = .ok t') (hagree : t.pTableCache.Agrees t.pTable)
    (hmovable : Movable t v n w) : t'.pTableCache.Agrees t'.pTable := by
  induction n generalizing t v w with
  | zero =>
    cases h
    exact hagree
  | succ n ih =>
    rw [remapLoop] at h
    split_ifs at h with hnone
    have hne : w ≠ v := by
      have := hmovable.clash 0 (by omega) 0 le_rfl
      simpa using this
    have hheld : ¬ (t.pTableCache.erase v).Holds w := by
      intro hheld
      have hw : w = w + ((0 : ℕ) : ℤ) * t.pageSize := by simp
      obtain ⟨i, hi, heq⟩ := hmovable.cached 0 (by omega) (hw ▸ hheld.of_erase)
      exact hmovable.clash i hi 0 (by omega) heq.symm
    exact ih h (agrees_remapPage hne hheld hagree)
      (hmovable.tail hagree)

/-- After `remap`, a frame was mapped before, or is made up. -/
lemma paddr_remapLoop {Q : ℕ → Prop} (h : remapLoop n t v w = .ok t')
    (hQ : ∀ a e, t.pTable a = some e → Q e.paddr) (hblank : ∀ a e, t.pTable a = some e → Q 0) :
    t'.pageShift = t.pageShift ∧ ∀ a e, t'.pTable a = some e → Q e.paddr := by
  induction n generalizing t v w with
  | zero =>
    cases h
    exact ⟨rfl, hQ⟩
  | succ n ih =>
    rw [remapLoop] at h
    split_ifs at h with hnone
    obtain ⟨e, he⟩ := isSome_iff_exists.mp (isSome_of_not_isNone hnone)
    have hone : ∀ a e', (t.remapPage v w).pTable a = some e' → Q e'.paddr := by
      intro a e' ha
      by_cases haw : a = w
      · subst haw
        have he' : e' = ((update (update t.pTable a (t.pTable v)) v none a).getD
            .blank).updateVaddr a := (some.inj (by simpa [remapPage] using ha)).symm
        rw [he']
        by_cases hav : a = v
        · rw [hav, update_self]
          exact hblank v e he
        · rw [update_of_ne hav, update_self, he]
          exact hQ v e he
      · by_cases hav : a = v
        · subst hav
          simp [remapPage, update_of_ne haw] at ha
        · rw [pTable_remapPage_of_ne hav haw] at ha
          exact hQ a e' ha
    have hrest := ih h hone fun _ _ _ => hblank v e he
    exact hrest

lemma remapLoop_of_not_inPages (h : remapLoop n t v w = .ok t') (ha : ¬ InPages t.pageSize w n a) :
    t'.pTable a = if InPages t.pageSize v n a then none else t.pTable a := by
  induction n generalizing t v w with
  | zero =>
    cases h
    exact (if_neg not_inPages_zero).symm
  | succ n ih =>
    rw [remapLoop] at h
    split_ifs at h
    rw [inPages_succ, not_or] at ha
    have hrest : t'.pTable a = if InPages t.pageSize (v + t.pageSize) n a then none
        else (t.remapPage v w).pTable a := ih h ha.2
    rw [hrest, if_congr inPages_succ rfl rfl]
    by_cases hfirst : v = a
    · subst hfirst
      have herased : (t.remapPage v w).pTable v = none := by
        rw [remapPage]
        dsimp only
        rw [update_of_ne (Ne.symm ha.1), update_self]
      rw [herased, if_pos (Or.inl rfl), ite_self]
    · rw [pTable_remapPage_of_ne (Ne.symm hfirst) (Ne.symm ha.1),
        if_congr (or_iff_right hfirst) rfl rfl]

/-- **A page to which nothing is moved** stays, or is moved away. -/
lemma remap_of_not_inPages (h : t.remap v size w = .ok t')
    (ha : ¬ InPages t.pageSize w (t.rounds size) a) :
    t'.pTable a = if InPages t.pageSize v (t.rounds size) a then none else t.pTable a := by
  rw [remap] at h
  split_ifs at h
  exact remapLoop_of_not_inPages h ha

lemma pageShift_remap (h : t.remap v size w = .ok t') : t'.pageShift = t.pageShift := by
  rw [remap] at h
  split_ifs at h
  exact (paddr_remapLoop (Q := fun _ => True) h (fun _ _ _ => trivial) fun _ _ _ => trivial).1

lemma pageSize_remap (h : t.remap v size w = .ok t') : t'.pageSize = t.pageSize := by
  rw [pageSize, pageSize, pageShift_remap h]

lemma rounds_remap (h : t.remap v size w = .ok t') : t'.rounds = t.rounds := by
  funext x
  rw [rounds, rounds, pageSize_remap h]

lemma dvd_of_remap (h : t.remap v size w = .ok t') : t.pageSize ∣ w := by
  rw [remap] at h
  split_ifs at h with haligned
  exact Int.dvd_of_emod_eq_zero (not_not.mp (not_or.mp haligned).2)

lemma pageShift_unmap (h : t.unmap v size = .ok t') : t'.pageShift = t.pageShift := by
  rw [unmap] at h
  split_ifs at h
  exact (keeps_unmapLoop h).pageShift

/-- `map` stops at the first mapped page, unless it may clobber. -/
lemma exists_mapLoop_iff : (∃ t', mapLoop flags n t v pa = .ok t') ↔
    (flags.clobber = false → ∀ i < n, t.pTable (v + (i : ℕ) * t.pageSize) = none) := by
  induction n generalizing t v pa with
  | zero => exact iff_of_true ⟨t, rfl⟩ fun _ i hi => by cases hi
  | succ n ih =>
    rw [mapLoop]
    have hsize : (t.mapPage flags v pa).pageSize = t.pageSize := rfl
    have hlater : ∀ i : ℕ, (t.mapPage flags v pa).pTable (v + t.pageSize + (i : ℕ) * t.pageSize) =
        t.pTable (v + ((i + 1 : ℕ) : ℤ) * t.pageSize) := by
      intro i
      rw [page_succ]
      exact update_of_ne (t.page_ne_first v i) ..
    by_cases hstop : (!flags.clobber && (t.pTable v).isSome) = true
    · rw [if_pos hstop]
      rw [Bool.and_eq_true, Bool.not_eq_true'] at hstop
      refine iff_of_false (fun ⟨_, h⟩ => by cases h) fun hfree => ?_
      have hfirst := hfree hstop.1 0 (by omega)
      simp only [Nat.cast_zero, zero_mul, add_zero] at hfirst
      rw [hfirst] at hstop
      cases hstop.2
    · rw [if_neg hstop, ih, hsize]
      refine forall_congr' fun hclobber => ?_
      have hfirst : t.pTable v = none := by
        rw [hclobber] at hstop
        simpa using hstop
      constructor
      · intro hrest i hi
        cases i with
        | zero => simpa using hfirst
        | succ i =>
          rw [← hlater]
          exact hrest i (by omega)
      · intro hall i hi
        rw [hlater]
        exact hall (i + 1) (by omega)

lemma exists_unmapLoop (h : ∀ i < n, (t.pTable (v + (i : ℕ) * t.pageSize)).isSome) :
    ∃ t', unmapLoop n t v = .ok t' := by
  induction n generalizing t v with
  | zero => exact ⟨t, rfl⟩
  | succ n ih =>
    have hfirst : (t.pTable v).isSome := by simpa using h 0 (by omega)
    rw [unmapLoop, if_neg (by rw [← not_isSome]; simp [hfirst])]
    refine ih fun i hi => ?_
    have hrest := h (i + 1) (by omega)
    rw [page_succ] at hrest
    change (update t.pTable v none (v + t.pageSize + (i : ℕ) * t.pageSize)).isSome
    rw [update_of_ne (t.page_ne_first v i)]
    exact hrest

lemma exists_remapLoop (h : ∀ i < n, (t.pTable (v + (i : ℕ) * t.pageSize)).isSome) :
    ∃ t', remapLoop n t v w = .ok t' := by
  induction n generalizing t v w with
  | zero => exact ⟨t, rfl⟩
  | succ n ih =>
    have hfirst : (t.pTable v).isSome := by simpa using h 0 (by omega)
    rw [remapLoop, if_neg (by rw [← not_isSome]; simp [hfirst])]
    refine ih fun i hi => ?_
    have hrest := h (i + 1) (by omega)
    rw [page_succ] at hrest
    change ((t.remapPage v w).pTable (v + t.pageSize + (i : ℕ) * t.pageSize)).isSome
    by_cases hw : v + t.pageSize + (i : ℕ) * t.pageSize = w
    · rw [hw]
      exact t.isSome_remapPage v w
    · rw [pTable_remapPage_of_ne (t.page_ne_first v i) hw]
      exact hrest

end FuncPageTable

/-! ### Calls -/

namespace FuncPageTable

inductive Call where
  | map (vaddr : ℤ) (paddr : ℕ) (size : ℤ) (flags : MappingFlags)
  | remap (vaddr size newVaddr : ℤ)
  | unmap (vaddr size : ℤ)
  | lookup (vaddr : ℤ)

def perform (t : FuncPageTable) : Call → Except VmAbort FuncPageTable
  | .map vaddr paddr size flags => t.map vaddr paddr size flags
  | .remap vaddr size newVaddr => t.remap vaddr size newVaddr
  | .unmap vaddr size => t.unmap vaddr size
  | .lookup vaddr => .ok (t.lookup vaddr).2

end FuncPageTable

def PageMap.perform (pageShift : ℕ) (m : PageMap) : FuncPageTable.Call → PageMap
  | .map vaddr paddr size flags => m.map pageShift vaddr paddr (roundsOf (2 ^ pageShift) size) flags
  | .remap vaddr size newVaddr =>
    m.remap (2 ^ pageShift) vaddr (roundsOf (2 ^ pageShift) size) newVaddr
  | .unmap vaddr size => m.unmap (2 ^ pageShift) vaddr (roundsOf (2 ^ pageShift) size)
  | .lookup _ => m

namespace FuncPageTable

variable {t t' : FuncPageTable} {m : PageMap} {pageShift : ℕ} {call : Call}

/-- Table and page map after the same calls, which meet a condition. -/
inductive Run (condition : FuncPageTable → Call → Prop) (pageShift : ℕ) :
    FuncPageTable → PageMap → Prop
  | init : Run condition pageShift (init pageShift) fun _ => none
  | step {t t' : FuncPageTable} {m : PageMap} {call : Call} (h : Run condition pageShift t m)
      (hcall : condition t call) (hok : t.perform call = .ok t') :
      Run condition pageShift t' (m.perform pageShift call)

def Tidy (t : FuncPageTable) : Call → Prop
  | .remap vaddr size newVaddr => t.Movable vaddr (t.rounds size) newVaddr
  | _ => True

lemma keeps_lookup (t : FuncPageTable) (v : ℤ) : Keeps t (t.lookup v).2 t.pTable := by
  rw [lookup]
  cases hfound : t.pTableCache.find? (t.pageAlign v) with
  | some e => exact ⟨rfl, rfl, id⟩
  | none =>
    cases hentry : t.pTable (t.pageAlign v) with
    | none => exact ⟨rfl, rfl, id⟩
    | some e =>
      exact ⟨rfl, rfl, fun h => h.push (Recent.not_holds_of_find? hfound) hentry⟩

lemma lookup_fst (h : t.pTableCache.Agrees t.pTable) (v : ℤ) :
    (t.lookup v).1 = t.pTable (t.pageAlign v) := by
  rw [lookup]
  cases hfound : t.pTableCache.find? (t.pageAlign v) with
  | some e => exact (h.find?_eq hfound).symm
  | none =>
    cases t.pTable (t.pageAlign v) with
    | none => rfl
    | some e => rfl

/-- **One call** on table and page map alike. -/
lemma keeps_perform (hagree : t.pTableCache.Agrees t.pTable) (hcall : t.Tidy call)
    (hok : t.perform call = .ok t') :
    Keeps t t' (PageMap.perform t.pageShift t.pTable call) := by
  cases call with
  | map vaddr paddr size flags =>
    rw [perform, map] at hok
    split_ifs at hok
    exact keeps_mapLoop hok
  | remap vaddr size newVaddr =>
    rw [perform, remap] at hok
    split_ifs at hok
    obtain ⟨hshift, htable⟩ := moved_remapLoop hok hcall.clash
    exact ⟨hshift, htable, fun _ => agrees_remapLoop hok hagree hcall⟩
  | unmap vaddr size =>
    rw [perform, unmap] at hok
    split_ifs at hok
    exact keeps_unmapLoop hok
  | lookup vaddr =>
    cases hok
    exact t.keeps_lookup vaddr

lemma Run.pTable_eq (h : Run Tidy pageShift t m) :
    t.pageShift = pageShift ∧ t.pTable = m ∧ t.pTableCache.Agrees t.pTable := by
  induction h with
  | init => exact ⟨rfl, rfl, Recent.agrees_replicate 3 _⟩
  | step _ hcall hok ih =>
    obtain ⟨rfl, rfl, hagree⟩ := ih
    have hkeeps := keeps_perform hagree hcall hok
    exact ⟨hkeeps.pageShift, hkeeps.pTable, hkeeps.agrees hagree⟩

/-- **The page table implements the page map**: after calls whose pages of each `remap` were
movable, a lookup returns the entry of the page, and fails if and only if there is none. -/
theorem lookup_eq_pageMap (h : Run Tidy pageShift t m) (vaddr : ℤ) :
    (t.lookup vaddr).1 = m (t.pageAlign vaddr) := by
  obtain ⟨-, rfl, hagree⟩ := h.pTable_eq
  exact lookup_fst hagree vaddr

/-- Two pages from `start` on, at the frames `0x8000` and `0x9000`. -/
def twoPages (start : ℤ) : FuncPageTable :=
  mapPage ⟨false, false, false⟩ (mapPage ⟨false, false, false⟩ (init 12) start 0x8000)
    (start + 0x1000) 0x9000

lemma movable_twoPages : (twoPages 0x1000).Movable 0x1000 2 0 := by
  refine ⟨fun i hi j hj => ?_, fun i hi => ?_⟩
  · interval_cases i <;> interval_cases j <;> decide
  · interval_cases i <;> decide

/-- Two pages move down by one, the second onto the first's place. -/
theorem lookup_eq_pageMap_down : ∃ t m, Run Tidy 12 t m ∧ (t.lookup 0x1fff).1 = m 0x1000 ∧
    m 0x1000 = some ⟨⟨0x9000, 12, false, true, true⟩, 0x1000⟩ := by
  have hmap : Run Tidy 12 (twoPages 0x1000)
      (PageMap.perform 12 _ (.map 0x1000 0x8000 0x2000 ⟨false, false, false⟩)) :=
    .step .init trivial rfl
  have hrun : Run Tidy 12 _ (PageMap.perform 12 _ (.remap 0x1000 0x2000 0)) :=
    hmap.step movable_twoPages rfl
  exact ⟨_, _, hrun, lookup_eq_pageMap hrun 0x1fff, by decide⟩

/-- Two pages move up by one: the first overwrites the second. A page moves onto a mapped one and is
unmapped: the old entry is still a recent one. -/
theorem lookup_ne_pageMap : (∃ t m, Run (fun _ _ => True) 12 t m ∧
      (t.lookup 0x2000).1 = some ⟨⟨0x8000, 12, false, true, true⟩, 0x2000⟩ ∧
      m 0x2000 = some ⟨⟨0x9000, 12, false, true, true⟩, 0x2000⟩) ∧
    ∃ t m, Run (fun _ _ => True) 12 t m ∧
      (t.lookup 0x1000).1 = some ⟨⟨0x9000, 12, false, true, true⟩, 0x1000⟩ ∧ m 0x1000 = none := by
  have hmap : Run (fun _ _ => True) 12 (twoPages 0)
      (PageMap.perform 12 _ (.map 0 0x8000 0x2000 ⟨false, false, false⟩)) :=
    .step .init trivial rfl
  constructor
  · have hrun : Run (fun _ _ => True) 12 _ (PageMap.perform 12 _ (.remap 0 0x2000 0x1000)) :=
      hmap.step trivial rfl
    exact ⟨_, _, hrun, by decide, by decide⟩
  · have hmoved : Run (fun _ _ => True) 12 _ (PageMap.perform 12 _ (.remap 0 0x1000 0x1000)) :=
      hmap.step trivial rfl
    have hrun : Run (fun _ _ => True) 12 _ (PageMap.perform 12 _ (.unmap 0x1000 0x1000)) :=
      hmoved.step trivial rfl
    exact ⟨_, _, hrun, by decide, by decide⟩

end FuncPageTable

end ShifDram
