import ShifDram.Control.Fallible
import Mathlib.Data.List.Count
import Mathlib.Algebra.BigOperators.Fin
import ShifDram.Queue.Log

/-!
Register renaming (`cpu/o3/rename_impl.hh`, `cpu/o3/rename_map.cc`, `cpu/o3/free_list.hh`,
`cpu/o3/regfile.cc`), with any number of threads that share the free lists.

A thread has a rename map for each class of registers and a history buffer, youngest entry first.
Renaming takes a register from the free list and records the one it replaces; a commit frees the
replaced registers of the oldest entries, a squash undoes the youngest entries.
-/

namespace ShifDram

open List Function Fallible

namespace Rename

inductive PhysClass where
  | int | float | cc
  deriving DecidableEq

inductive RegClass where
  | phys (c : PhysClass)
  | misc
  deriving DecidableEq

/-- An instruction set's register constants; its classes do not overlap. -/
structure Isa where
  numRegs : PhysClass → ℕ
  fpRegBase : ℕ
  ccRegBase : ℕ
  miscRegBase : ℕ
  maxRegIndex : ℕ
  zeroReg : ℕ
  fpZeroReg : ℕ
  int_le : numRegs .int ≤ fpRegBase
  float_le : fpRegBase + numRegs .float ≤ ccRegBase
  cc_le : ccRegBase + numRegs .cc ≤ miscRegBase
  misc_le : miscRegBase ≤ maxRegIndex

/-- A rename map's zero register, `(RegIndex)-1` for condition codes. -/
def Isa.zeroOf (isa : Isa) : PhysClass → ℕ
  | .int => isa.zeroReg
  | .float => isa.fpZeroReg
  | .cc => 2 ^ 16 - 1

def Isa.base (isa : Isa) : RegClass → ℕ
  | .phys .int => 0
  | .phys .float => isa.fpRegBase
  | .phys .cc => isa.ccRegBase
  | .misc => isa.miscRegBase

/-- `regIdxToClass`, without its assertion. -/
def Isa.regIdxToClass (isa : Isa) (reg : ℕ) : RegClass × ℕ :=
  if reg < isa.fpRegBase then (.phys .int, reg)
  else if reg < isa.ccRegBase then (.phys .float, reg - isa.fpRegBase)
  else if reg < isa.miscRegBase then (.phys .cc, reg - isa.ccRegBase)
  else (.misc, reg - isa.miscRegBase)

structure PhysRegFile where
  numPhysicalIntRegs : ℕ
  numPhysicalFloatRegs : ℕ
  numPhysicalCCRegs : ℕ

namespace PhysRegFile

variable (file : PhysRegFile)

def num : PhysClass → ℕ
  | .int => file.numPhysicalIntRegs
  | .float => file.numPhysicalFloatRegs
  | .cc => file.numPhysicalCCRegs

def base : PhysClass → ℕ
  | .int => 0
  | .float => file.numPhysicalIntRegs
  | .cc => file.numPhysicalIntRegs + file.numPhysicalFloatRegs

def totalNumPhysRegs : ℕ :=
  file.numPhysicalIntRegs + file.numPhysicalFloatRegs + file.numPhysicalCCRegs

/-- `isIntPhysReg`, `isFloatPhysReg`, `isCCPhysReg`. -/
def IsPhysReg (c : PhysClass) (reg : ℕ) : Prop :=
  file.base c ≤ reg ∧ reg < file.base c + file.num c

instance (c : PhysClass) (reg : ℕ) : Decidable (file.IsPhysReg c reg) :=
  inferInstanceAs (Decidable (_ ∧ _))

def initFreeList (c : PhysClass) : List ℕ := List.range' (file.base c) (file.num c)

end PhysRegFile

inductive Abort where
  /-- An index beyond a map or beyond `Max_Reg_Index`. -/
  | outOfBound
  /-- `assert(!freeRegs.empty())` -/
  | emptyFreeList
  /-- `assert(prev_reg == zeroReg)` -/
  | zeroMoved
  /-- `assert(regFile->isIntPhysReg(...))` and its siblings. -/
  | wrongClass
  /-- `assert(phys_reg == lookupMisc(rel_arch_reg))` -/
  | miscMoved
  deriving DecidableEq

/-! ### The code -/

/-- `SimpleRenameMap::rename`: map, free list, new and previous register. -/
def renameReg (zeroReg : ℕ) (map free : List ℕ) (archReg : ℕ) :
    Except Abort (List ℕ × List ℕ × ℕ × ℕ) :=
  match map[archReg]? with
  | none => .error .outOfBound
  | some prevReg =>
    if archReg ≠ zeroReg then
      match free with
      | [] => .error .emptyFreeList
      | renamedReg :: rest => .ok (map.set archReg renamedReg, rest, renamedReg, prevReg)
    else if prevReg ≠ zeroReg then .error .zeroMoved
    else .ok (map, free, zeroReg, prevReg)

structure RenameHistory where
  instSeqNum : ℕ
  archReg : ℕ
  newPhysReg : ℕ
  prevPhysReg : ℕ
  deriving DecidableEq

structure View where
  free : PhysClass → List ℕ
  map : PhysClass → List ℕ
  history : List RenameHistory

variable (isa : Isa) (file : PhysRegFile)

def lookupMisc (relArchReg : ℕ) : ℕ := relArchReg + file.totalNumPhysRegs

/-- One round of `renameDestRegs`, of a flattened register. -/
def renameDest (seqNum : ℕ) (v : View) : RegClass × ℕ → Except Abort View
  | (.misc, rel) =>
    let phys := lookupMisc file rel
    .ok { v with history := ⟨seqNum, isa.base .misc + rel, phys, phys⟩ :: v.history }
  | (.phys c, rel) =>
    (renameReg (isa.zeroOf c) (v.map c) (v.free c) rel).bind fun (map, free, renamed, prev) =>
      if ¬ file.IsPhysReg c renamed then .error .wrongClass
      else .ok
        { free := update v.free c free
          map := update v.map c map
          history := ⟨seqNum, isa.base (.phys c) + rel, renamed, prev⟩ :: v.history }

def addReg (free : PhysClass → List ℕ) (reg : ℕ) : Except Abort (PhysClass → List ℕ) :=
  if file.IsPhysReg .int reg then .ok (update free .int (free .int ++ [reg]))
  else if file.IsPhysReg .float reg then .ok (update free .float (free .float ++ [reg]))
  else if file.IsPhysReg .cc reg then .ok (update free .cc (free .cc ++ [reg]))
  else .error .wrongClass

def setEntry (map : PhysClass → List ℕ) (archReg physReg : ℕ) :
    Except Abort (PhysClass → List ℕ) :=
  if isa.maxRegIndex ≤ archReg then .error .outOfBound
  else
    match isa.regIdxToClass archReg with
    | (.phys c, rel) =>
      if ¬ file.IsPhysReg c physReg then .error .wrongClass
      else if (map c).length ≤ rel then .error .outOfBound
      else .ok (update map c ((map c).set rel physReg))
    | (.misc, rel) => if physReg ≠ lookupMisc file rel then .error .miscMoved else .ok map

/-- `doSquash`: the youngest entries are undone. -/
def doSquash (squashedSeqNum : ℕ) (free map : PhysClass → List ℕ) :
    List RenameHistory → Except Abort View
  | [] => .ok ⟨free, map, []⟩
  | e :: history =>
    if squashedSeqNum < e.instSeqNum then
      if e.newPhysReg ≠ e.prevPhysReg then
        (setEntry isa file map e.archReg e.prevPhysReg).bind fun map =>
          (addReg file free e.newPhysReg).bind fun free =>
            doSquash squashedSeqNum free map history
      else doSquash squashedSeqNum free map history
    else .ok ⟨free, map, e :: history⟩

/-- The loop of `removeFromHistory`, oldest entry first. -/
def removeOldest (instSeqNum : ℕ) (free : PhysClass → List ℕ) :
    List RenameHistory → Except Abort ((PhysClass → List ℕ) × List RenameHistory)
  | [] => .ok (free, [])
  | e :: history =>
    if e.instSeqNum ≤ instSeqNum then
      if e.newPhysReg ≠ e.prevPhysReg then
        (addReg file free e.prevPhysReg).bind fun free => removeOldest instSeqNum free history
      else removeOldest instSeqNum free history
    else .ok (free, e :: history)

def removeFromHistory (instSeqNum : ℕ) (v : View) : Except Abort View :=
  (removeOldest file instSeqNum v.free v.history.reverse).map fun r =>
    { v with free := r.1, history := r.2.reverse }

section Count

variable {f : PhysClass → List ℕ} {c : PhysClass} {p i a : ℕ} {l : List ℕ} {e : RenameHistory}

def countIn (f : PhysClass → List ℕ) (p : ℕ) : ℕ :=
  (f .int).count p + (f .float).count p + (f .cc).count p

lemma countIn_update (f : PhysClass → List ℕ) (c : PhysClass) (l : List ℕ) (p : ℕ) :
    countIn (update f c l) p + (f c).count p = countIn f p + l.count p := by
  cases c <;> simp [countIn, update] <;> omega

lemma count_le_countIn (f : PhysClass → List ℕ) (c : PhysClass) (p : ℕ) :
    (f c).count p ≤ countIn f p := by
  cases c <;> simp only [countIn] <;> omega

lemma count_set_add (hi : i < l.length) :
    (l.set i a).count p + [l[i]].count p = l.count p + [a].count p := by
  have hmem : [l[i]].count p ≤ l.count p := by
    have hsub : [l[i]].Sublist l := singleton_sublist.mpr (getElem_mem hi)
    exact hsub.count_le p
  rw [count_set hi]
  simp only [count_singleton] at hmem ⊢
  omega

/-- The previous register of an entry really renamed. -/
def RenameHistory.realPrev (e : RenameHistory) : Option ℕ :=
  if e.newPhysReg ≠ e.prevPhysReg then some e.prevPhysReg else none

def countPrev (history : List RenameHistory) (p : ℕ) : ℕ :=
  (history.filterMap RenameHistory.realPrev).count p

lemma countPrev_cons_real (hreal : e.newPhysReg ≠ e.prevPhysReg)
    (history : List RenameHistory) (p : ℕ) :
    countPrev (e :: history) p = [e.prevPhysReg].count p + countPrev history p := by
  rw [countPrev, countPrev, filterMap_cons_some (by rw [RenameHistory.realPrev, if_pos hreal]),
    ← count_append, singleton_append]

lemma countPrev_cons_special (hsame : e.newPhysReg = e.prevPhysReg)
    (history : List RenameHistory) (p : ℕ) : countPrev (e :: history) p = countPrev history p := by
  rw [countPrev, countPrev,
    filterMap_cons_none (by rw [RenameHistory.realPrev, if_neg (not_not.mpr hsame)])]

lemma countPrev_reverse (history : List RenameHistory) :
    countPrev history.reverse p = countPrev history p := by
  rw [countPrev, countPrev, filterMap_reverse, count_reverse]

/-- How often a register is in a map or replaced in the history. -/
def countThread (map : PhysClass → List ℕ) (history : List RenameHistory) (p : ℕ) : ℕ :=
  countIn map p + countPrev history p

/-- In how many places of the thread's view a register is. -/
def View.count (v : View) (p : ℕ) : ℕ := countIn v.free p + countThread v.map v.history p

end Count

/-! ### Threads -/

variable {isa file} {c : PhysClass} {free m free' : PhysClass → List ℕ}
  {ms : List (PhysClass → List ℕ)} {gone : List RenameHistory} {reg rel : ℕ}

def Isa.IsZero (isa : Isa) (reg : ℕ) : Prop :=
  ∃ c, isa.zeroOf c < isa.numRegs c ∧ reg = isa.zeroOf c

lemma Isa.regIdxToClass_base (hrel : rel < isa.numRegs c) :
    isa.regIdxToClass (isa.base (.phys c) + rel) = (.phys c, rel) := by
  have h₁ := isa.int_le
  have h₂ := isa.float_le
  have h₃ := isa.cc_le
  cases c with
  | int => simp [regIdxToClass, base, show rel < isa.fpRegBase by omega]
  | float =>
    simp [regIdxToClass, base, show isa.fpRegBase + rel < isa.ccRegBase by omega]
  | cc =>
    simp [regIdxToClass, base, show ¬ isa.ccRegBase + rel < isa.fpRegBase by omega,
      show isa.ccRegBase + rel < isa.miscRegBase by omega]

lemma Isa.base_lt_max (hrel : rel < isa.numRegs c) :
    isa.base (.phys c) + rel < isa.maxRegIndex := by
  have h₁ := isa.int_le
  have h₂ := isa.float_le
  have h₃ := isa.cc_le
  have h₄ := isa.misc_le
  cases c <;> simp only [base] <;> omega

lemma PhysRegFile.IsPhysReg.lt_total (h : file.IsPhysReg c reg) :
    reg < file.totalNumPhysRegs := by
  obtain ⟨-, h⟩ := h
  cases c <;> simp only [base, num, totalNumPhysRegs] at h ⊢ <;> omega

lemma PhysRegFile.IsPhysReg.class_eq {c c' : PhysClass} (h : file.IsPhysReg c reg)
    (h' : file.IsPhysReg c' reg) : c = c' := by
  obtain ⟨h₁, h₂⟩ := h
  obtain ⟨h₁', h₂'⟩ := h'
  cases c <;> cases c' <;> first | rfl | (simp only [base, num] at *; omega)

lemma addReg_eq {free : PhysClass → List ℕ} (h : file.IsPhysReg c reg) :
    addReg file free reg = .ok (update free c (free c ++ [reg])) := by
  have hne : ∀ c', c' ≠ c → ¬ file.IsPhysReg c' reg := fun c' hc h' => hc (h'.class_eq h)
  cases c with
  | int => rw [addReg, if_pos h]
  | float => rw [addReg, if_neg (hne .int (by simp)), if_pos h]
  | cc => rw [addReg, if_neg (hne .int (by simp)), if_neg (hne .float (by simp)), if_pos h]

/-- A special register, not really renamed, or one replaced by its class. -/
def EntryOk (isa : Isa) (file : PhysRegFile) (e : RenameHistory) : Prop :=
  e.newPhysReg = e.prevPhysReg ∧
      (isa.IsZero e.prevPhysReg ∨ file.totalNumPhysRegs ≤ e.prevPhysReg) ∨
    e.newPhysReg ≠ e.prevPhysReg ∧ ∃ c rel, e.archReg = isa.base (.phys c) + rel ∧
      rel < isa.numRegs c ∧ file.IsPhysReg c e.newPhysReg ∧ file.IsPhysReg c e.prevPhysReg

def undoEntry (isa : Isa) (e : RenameHistory) (map : PhysClass → List ℕ) : PhysClass → List ℕ :=
  if e.newPhysReg ≠ e.prevPhysReg then
    match isa.regIdxToClass e.archReg with
    | (.phys c, rel) => update map c ((map c).set rel e.prevPhysReg)
    | (.misc, _) => map
  else map

/-- The map before the entries after a sequence number. -/
def undoUntil (isa : Isa) (seqNum : ℕ) (map : PhysClass → List ℕ) :
    List RenameHistory → (PhysClass → List ℕ)
  | [] => map
  | e :: history =>
    if seqNum < e.instSeqNum then undoUntil isa seqNum (undoEntry isa e map) history else map

/-- Undoing the history finds each new register in the map. -/
def Linked (isa : Isa) (map : PhysClass → List ℕ) : List RenameHistory → Prop
  | [] => True
  | e :: history =>
    (e.newPhysReg ≠ e.prevPhysReg → ∀ c rel, isa.regIdxToClass e.archReg = (.phys c, rel) →
      (map c)[rel]? = some e.newPhysReg) ∧ Linked isa (undoEntry isa e map) history

structure ThreadOk (isa : Isa) (file : PhysRegFile) (map : PhysClass → List ℕ)
    (history : List RenameHistory) : Prop where
  size : ∀ c, (map c).length = isa.numRegs c
  regs : ∀ c, ∀ p ∈ map c, file.IsPhysReg c p
  entries : ∀ e ∈ history, EntryOk isa file e
  linked : Linked isa map history

def FreeOk (file : PhysRegFile) (free : PhysClass → List ℕ) : Prop :=
  ∀ c, ∀ p ∈ free c, file.IsPhysReg c p

/-- Each register has `count` copies, all in places of its class. -/
structure View.Sound (isa : Isa) (file : PhysRegFile) (count : ℕ → ℕ) (v : View) : Prop where
  thread : ThreadOk isa file v.map v.history
  free : FreeOk file v.free
  count_eq : ∀ p, v.count p = count p

section Spec

variable {map free : PhysClass → List ℕ} {history rest : List RenameHistory} {e : RenameHistory}
  {v v' : View} {c : PhysClass} {seqNum reg : ℕ}

lemma FreeOk.update (h : FreeOk file free) {l : List ℕ} (hl : ∀ p ∈ l, file.IsPhysReg c p) :
    FreeOk file (update free c l) :=
  (forall_update_iff free fun c l => ∀ p ∈ l, file.IsPhysReg c p).mpr ⟨hl, fun c' _ => h c'⟩

lemma FreeOk.add (h : FreeOk file free) (hreg : file.IsPhysReg c reg) :
    FreeOk file (Function.update free c (free c ++ [reg])) := by
  refine h.update fun p hp => ?_
  rcases mem_snoc.mp hp with hp | rfl
  · exact h _ p hp
  · exact hreg

lemma ThreadOk.set_regs (rel : ℕ) (hsize : ∀ c, (map c).length = isa.numRegs c)
    (hregs : FreeOk file map) (hreg : file.IsPhysReg c reg) :
    (∀ c', (update map c ((map c).set rel reg) c').length = isa.numRegs c') ∧
      FreeOk file (update map c ((map c).set rel reg)) := by
  refine ⟨(forall_update_iff map fun c l => l.length = isa.numRegs c).mpr
    ⟨by rw [length_set, hsize], fun c' _ => hsize c'⟩, hregs.update fun p hp => ?_⟩
  rcases mem_or_eq_of_mem_set hp with hp | rfl
  · exact hregs _ p hp
  · exact hreg

lemma ThreadOk.special (h : ThreadOk isa file map history) (hsame : e.newPhysReg = e.prevPhysReg)
    (hprev : isa.IsZero e.prevPhysReg ∨ file.totalNumPhysRegs ≤ e.prevPhysReg) :
    ThreadOk isa file map (e :: history) := by
  refine ⟨h.size, h.regs, forall_mem_cons.mpr ⟨Or.inl ⟨hsame, hprev⟩, h.entries⟩,
    fun hne => absurd hsame hne, ?_⟩
  rw [undoEntry, if_neg (not_not.mpr hsame)]
  exact h.linked

/-- **Renaming** moves a free register into the map, the replaced one into the history. -/
lemma renameDest_spec (ht : ThreadOk isa file v.map v.history) (hf : FreeOk file v.free)
    (hcount : ∀ p, v.count p ≤ 1) {d : RegClass × ℕ} (h : renameDest isa file seqNum v d = .ok v') :
    ∃ e, v'.history = e :: v.history ∧ e.instSeqNum = seqNum ∧ undoEntry isa e v'.map = v.map ∧
      v'.Sound isa file v.count := by
  obtain ⟨cl, rel⟩ := d
  cases cl with
  | misc =>
    cases h
    refine ⟨_, rfl, rfl, if_neg (by simp), ht.special rfl (Or.inr ?_), hf, fun p => ?_⟩
    · exact Nat.le_add_left _ _
    · simp only [View.count, countThread, countPrev_cons_special]
  | phys c =>
  obtain ⟨⟨m, f, renamed, prev⟩, hrename, h⟩ := bind_ok h
  dsimp only at h
  split_ifs at h with hclass
  cases h
  rw [renameReg] at hrename
  cases hprev : (v.map c)[rel]? with
  | none =>
    rw [hprev] at hrename
    cases hrename
  | some q =>
  rw [hprev] at hrename
  dsimp only at hrename
  obtain ⟨hlen, hq⟩ := List.getElem?_eq_some_iff.mp hprev
  have hrel : rel < isa.numRegs c := ht.size c ▸ hlen
  by_cases hzero : rel ≠ isa.zeroOf c
  · rw [if_pos hzero] at hrename
    cases hfree : v.free c with
    | nil =>
      rw [hfree] at hrename
      cases hrename
    | cons r rest =>
    rw [hfree] at hrename
    cases hrename
    have hqmem : prev ∈ v.map c := hq ▸ getElem_mem hlen
    -- the register is free, so it is not the one in the map
    have hne : renamed ≠ prev := by
      rintro rfl
      have h₁ := count_le_countIn v.free c renamed
      have h₂ := count_le_countIn v.map c renamed
      have h₃ := hcount renamed
      have h₄ : 0 < (v.map c).count renamed := count_pos_iff.mpr hqmem
      rw [hfree, count_cons_self] at h₁
      simp only [View.count, countThread] at h₃
      omega
    have hback : undoEntry isa ⟨seqNum, isa.base (.phys c) + rel, renamed, prev⟩
        (update v.map c ((v.map c).set rel renamed)) = v.map := by
      rw [undoEntry, if_pos hne, Isa.regIdxToClass_base hrel]
      dsimp only
      rw [update_idem, update_self, set_set, ← hq, set_getElem_self, update_eq_self]
    obtain ⟨hsize, hregs⟩ := ThreadOk.set_regs rel ht.size ht.regs hclass
    refine ⟨_, rfl, rfl, hback, ⟨hsize, hregs, forall_mem_cons.mpr ⟨Or.inr ⟨hne, c, rel, rfl,
      hrel, hclass, ht.regs c prev hqmem⟩, ht.entries⟩, fun _ c' rel' hc' => ?_, ?_⟩,
      hf.update fun p hp => hf c p (hfree ▸ mem_cons_of_mem _ hp), fun p => ?_⟩
    · rw [Isa.regIdxToClass_base hrel] at hc'
      cases hc'
      dsimp only
      rw [update_self]
      exact List.getElem?_set_self hlen
    · rw [hback]
      exact ht.linked
    · have h₁ := countIn_update v.free c f p
      have h₂ := countIn_update v.map c ((v.map c).set rel renamed) p
      have h₃ := count_set_add (a := renamed) (p := p) hlen
      rw [hq] at h₃
      have h₄ : (v.free c).count p = [renamed].count p + f.count p := by
        rw [hfree, ← singleton_append, count_append]
      have h₅ := countPrev_cons_real (e := ⟨seqNum, isa.base (.phys c) + rel, renamed, prev⟩) hne
        v.history p
      simp only [View.count, countThread] at h₅ ⊢
      omega
  · -- the zero register stays where it is
    rw [if_neg hzero] at hrename
    by_cases hprevZero : q ≠ isa.zeroOf c
    · rw [if_pos hprevZero] at hrename
      cases hrename
    rw [if_neg hprevZero] at hrename
    cases hrename
    have hsame : isa.zeroOf c = prev := (not_not.mp hprevZero).symm
    simp only [update_eq_self]
    refine ⟨_, rfl, rfl, if_neg (not_not.mpr hsame), ht.special hsame (Or.inl ⟨c, ?_, hsame.symm⟩),
      hf, fun p => ?_⟩
    · rw [← not_not.mp hzero]
      exact hrel
    · have h₁ := countPrev_cons_special
        (e := ⟨seqNum, isa.base (.phys c) + rel, isa.zeroOf c, prev⟩) hsame v.history p
      simp only [View.count, countThread]
      omega

/-- Undoing a real entry gives the replaced register back to the map. -/
lemma setEntry_eq (ht : ThreadOk isa file map (e :: history))
    (hreal : e.newPhysReg ≠ e.prevPhysReg) :
    ∃ c, file.IsPhysReg c e.newPhysReg ∧
      setEntry isa file map e.archReg e.prevPhysReg = .ok (undoEntry isa e map) ∧
      ThreadOk isa file (undoEntry isa e map) history ∧
      ∀ p, countIn (undoEntry isa e map) p + [e.newPhysReg].count p =
        countIn map p + [e.prevPhysReg].count p := by
  obtain ⟨hsame, -⟩ | ⟨-, c, rel, harch, hrel, hnew, hprev⟩ := ht.entries e mem_cons_self
  · exact absurd hsame hreal
  have hclass := Isa.regIdxToClass_base hrel
  rw [← harch] at hclass
  have hundo : undoEntry isa e map =
      update map c ((map c).set rel e.prevPhysReg) := by
    rw [undoEntry, if_pos hreal, hclass]
  have hlen : rel < (map c).length := by
    rw [ht.size]
    exact hrel
  obtain ⟨hsize, hregs⟩ := ThreadOk.set_regs rel ht.size ht.regs hprev
  refine ⟨c, hnew, ?_, ?_, fun p => ?_⟩
  · have hmax := Isa.base_lt_max hrel
    rw [setEntry, if_neg (by omega), hclass]
    dsimp only
    rw [if_neg (not_not.mpr hprev), if_neg (by omega), hundo]
  · refine ⟨?_, ?_, fun d hd => ht.entries d (mem_cons_of_mem _ hd), ht.linked.2⟩
    · rw [hundo]
      exact hsize
    · rw [hundo]
      exact hregs
  · obtain ⟨_, hget⟩ := List.getElem?_eq_some_iff.mp (ht.linked.1 hreal c rel hclass)
    have h₁ := countIn_update map c ((map c).set rel e.prevPhysReg) p
    have h₂ := count_set_add (a := e.prevPhysReg) (p := p) hlen
    rw [hget] at h₂
    rw [hundo]
    omega

/-- **A squash** never fails and frees the new registers. -/
lemma doSquash_spec (seqNum : ℕ) (ht : ThreadOk isa file map history) (hf : FreeOk file free) :
    ∃ v, doSquash isa file seqNum free map history = .ok v ∧
      v.map = undoUntil isa seqNum map history ∧
      v.history = history.dropWhile (fun e => seqNum < e.instSeqNum) ∧
      v.Sound isa file (View.count ⟨free, map, history⟩) := by
  induction history generalizing free map with
  | nil => exact ⟨_, rfl, rfl, rfl, ht, hf, fun _ => rfl⟩
  | cons e history ih =>
    rw [doSquash, undoUntil]
    by_cases hyoung : seqNum < e.instSeqNum
    · rw [if_pos hyoung, if_pos hyoung, dropWhile_cons_of_pos (by simpa using hyoung)]
      by_cases hreal : e.newPhysReg ≠ e.prevPhysReg
      · obtain ⟨c, hnew, hset, ht', hcount⟩ := setEntry_eq ht hreal
        rw [if_pos hreal, hset]
        rw [addReg_eq hnew]
        obtain ⟨v, hv, hmap, hhist, hok⟩ := ih ht' (hf.add hnew)
        refine ⟨v, hv, hmap, hhist, hok.thread, hok.free, fun p => ?_⟩
        have h₁ := hok.count_eq p
        have h₂ := hcount p
        have h₃ := countPrev_cons_real hreal history p
        have h₄ := countIn_update free c (free c ++ [e.newPhysReg]) p
        rw [count_append] at h₄
        simp only [View.count, countThread] at h₁ ⊢
        omega
      · have hsame := not_not.mp hreal
        have hundo : undoEntry isa e map = map := if_neg hreal
        rw [if_neg hreal, hundo]
        have hlinked := ht.linked.2
        rw [hundo] at hlinked
        obtain ⟨v, hv, hmap, hhist, hok⟩ :=
          ih ⟨ht.size, ht.regs, fun d hd => ht.entries d (mem_cons_of_mem _ hd), hlinked⟩ hf
        refine ⟨v, hv, hmap, hhist, hok.thread, hok.free, fun p => ?_⟩
        rw [hok.count_eq p, View.count, View.count, countThread, countThread,
          countPrev_cons_special hsame]
    · rw [if_neg hyoung, if_neg hyoung, dropWhile_cons_of_neg (by simpa using hyoung)]
      exact ⟨_, rfl, rfl, rfl, ht, hf, fun _ => rfl⟩

lemma removeOldest_spec (seqNum : ℕ) (hentries : ∀ e ∈ history, EntryOk isa file e)
    (hf : FreeOk file free) :
    ∃ free' gone rest, removeOldest file seqNum free history = .ok (free', rest) ∧
      history = gone ++ rest ∧ (∀ e ∈ gone, e.instSeqNum ≤ seqNum) ∧ FreeOk file free' ∧
      ∀ p, countIn free' p + countPrev rest p = countIn free p + countPrev history p := by
  induction history generalizing free with
  | nil => exact ⟨free, [], [], rfl, rfl, by simp, hf, fun _ => rfl⟩
  | cons e history ih =>
    obtain ⟨he, hentries⟩ := forall_mem_cons.mp hentries
    rw [removeOldest]
    by_cases hold : e.instSeqNum ≤ seqNum
    · rw [if_pos hold]
      rcases he with ⟨hsame, -⟩ | ⟨hreal, c, rel, -, -, -, hprev⟩
      · rw [if_neg (not_not.mpr hsame)]
        obtain ⟨free', gone, rest, hok, hsplit, hgone, hfree, hcount⟩ := ih hentries hf
        refine ⟨free', e :: gone, rest, hok, by rw [hsplit, cons_append],
          forall_mem_cons.mpr ⟨hold, hgone⟩, hfree, fun p => ?_⟩
        rw [hcount p, countPrev_cons_special hsame]
      · rw [if_pos hreal, addReg_eq hprev]
        obtain ⟨free', gone, rest, hok, hsplit, hgone, hfree, hcount⟩ :=
          ih hentries (hf.add hprev)
        refine ⟨free', e :: gone, rest, hok, by rw [hsplit, cons_append],
          forall_mem_cons.mpr ⟨hold, hgone⟩, hfree, fun p => ?_⟩
        have h₁ := countIn_update free c (free c ++ [e.prevPhysReg]) p
        rw [count_append] at h₁
        rw [hcount p, countPrev_cons_real hreal]
        omega
    · rw [if_neg hold]
      exact ⟨free, [], e :: history, rfl, rfl, by simp, hf, fun _ => rfl⟩

lemma Linked.left (h : Linked isa map (history ++ gone)) :
    Linked isa map history := by
  induction history generalizing map with
  | nil => trivial
  | cons e history ih => exact ⟨h.1, ih h.2⟩

/-- **A commit** never fails and frees the oldest replaced registers. -/
lemma removeFromHistory_spec (seqNum : ℕ) (ht : ThreadOk isa file v.map v.history)
    (hf : FreeOk file v.free) :
    ∃ v' gone, removeFromHistory file seqNum v = .ok v' ∧ v'.map = v.map ∧
      v.history = v'.history ++ gone ∧ (∀ e ∈ gone, e.instSeqNum ≤ seqNum) ∧
      v'.Sound isa file v.count := by
  obtain ⟨free', gone, rest, hok, hsplit, hgone, hfree, hcount⟩ :=
    removeOldest_spec seqNum (fun e he => ht.entries e (mem_reverse.mp he)) hf
  have hhist : v.history = rest.reverse ++ gone.reverse := by
    rw [← reverse_append, ← hsplit, reverse_reverse]
  refine ⟨⟨free', v.map, rest.reverse⟩, gone.reverse, ?_, rfl, hhist,
    fun e he => hgone e (mem_reverse.mp he), ?_, hfree, fun p => ?_⟩
  · rw [removeFromHistory, hok]
    rfl
  · have hlinked := ht.linked
    rw [hhist] at hlinked
    refine ⟨ht.size, ht.regs, fun e he => ht.entries e ?_, hlinked.left⟩
    rw [hhist]
    exact mem_append_left _ he
  · have hp := hcount p
    rw [countPrev_reverse] at hp
    simp only [View.count, countThread, countPrev_reverse]
    omega

end Spec

section Log

variable {map : PhysClass → List ℕ} {history : List RenameHistory} {seqNum sn : ℕ}

/-- The maps after each live instruction, youngest first. -/
abbrev Log := List (ℕ × (PhysClass → List ℕ))

/-- The map after the youngest instruction up to a number. -/
def mapAt (first : PhysClass → List ℕ) (sn : ℕ) : Log → (PhysClass → List ℕ)
  | [] => first
  | (seqNum, map) :: log => if seqNum ≤ sn then map else mapAt first sn log

lemma mapAt_dropWhile (first : PhysClass → List ℕ) (log : Log) :
    mapAt first sn (log.dropWhile fun x => seqNum < x.1) = mapAt first (min sn seqNum) log := by
  induction log with
  | nil => rfl
  | cons x log ih =>
    by_cases hx : seqNum < x.1
    · rw [dropWhile_cons_of_pos (by simpa using hx), ih, mapAt, if_neg (by omega)]
    rw [dropWhile_cons_of_neg (by simpa using hx)]
    rcases le_total sn seqNum with hle | hle
    · rw [min_eq_left hle]
    · rw [min_eq_right hle, mapAt, mapAt, if_pos (by omega), if_pos (by omega)]

lemma undoUntil_dropWhile : undoUntil isa sn (undoUntil isa seqNum map history)
      (history.dropWhile fun e => seqNum < e.instSeqNum) =
    undoUntil isa (min sn seqNum) map history := by
  induction history generalizing map with
  | nil => rfl
  | cons e history ih =>
    by_cases he : seqNum < e.instSeqNum
    · rw [undoUntil, if_pos he, dropWhile_cons_of_pos (by simpa using he), ih, undoUntil,
        if_pos (by omega)]
    have hstop : undoUntil isa seqNum map (e :: history) = map := by rw [undoUntil, if_neg he]
    rw [dropWhile_cons_of_neg (by simpa using he), hstop]
    rcases le_total sn seqNum with hle | hle
    · rw [min_eq_left hle]
    · rw [min_eq_right hle, hstop, undoUntil, if_neg (by omega)]

lemma undoUntil_append (hgone : ∀ e ∈ gone, e.instSeqNum ≤ seqNum)
    (hle : seqNum ≤ sn) :
    undoUntil isa sn map (history ++ gone) = undoUntil isa sn map history := by
  induction history generalizing map with
  | nil =>
    cases gone with
    | nil => rfl
    | cons e gone =>
      have he := hgone e mem_cons_self
      simp only [nil_append, undoUntil, if_neg (show ¬ sn < e.instSeqNum by omega)]
  | cons e history ih => rw [cons_append, undoUntil, undoUntil, ih]

end Log

/-! ### The stage with all threads -/

/-- The rename stage, with the maps after each live instruction, the first maps, and the youngest
committed numbers. -/
structure Sys (n : ℕ) where
  free : PhysClass → List ℕ
  map : Fin n → PhysClass → List ℕ
  history : Fin n → List RenameHistory
  log : Fin n → Log
  first : Fin n → PhysClass → List ℕ
  committed : Fin n → ℕ

inductive Act (n : ℕ) where
  | rename (tid : Fin n) (seqNum : ℕ) (dest : RegClass × ℕ)
  | commit (tid : Fin n) (seqNum : ℕ)
  | squash (tid : Fin n) (seqNum : ℕ)

/-- The registers that the CPU's constructor takes for a thread. -/
def initRegs : ℕ → List ℕ → Except Abort (List ℕ × List ℕ)
  | 0, free => .ok ([], free)
  | _ + 1, [] => .error .emptyFreeList
  | k + 1, reg :: free => (initRegs k free).map fun r => (reg :: r.1, r.2)

/-- A thread's map, and the free lists without its registers. -/
def initThread (isa : Isa) (free : PhysClass → List ℕ) :
    Except Abort ((PhysClass → List ℕ) × (PhysClass → List ℕ)) :=
  (initRegs (isa.numRegs .int) (free .int)).bind fun i =>
    (initRegs (isa.numRegs .float) (free .float)).bind fun f =>
      (initRegs (isa.numRegs .cc) (free .cc)).map fun c =>
        (fun | .int => i.1 | .float => f.1 | .cc => c.1,
          fun | .int => i.2 | .float => f.2 | .cc => c.2)

def initThreads (isa : Isa) : ℕ → (PhysClass → List ℕ) →
    Except Abort (List (PhysClass → List ℕ) × (PhysClass → List ℕ))
  | 0, free => .ok ([], free)
  | k + 1, free => (initThread isa free).bind fun t =>
    (initThreads isa k t.2).map fun r => (t.1 :: r.1, r.2)

namespace Sys

variable {n : ℕ}

/-- The stage after the constructor, with `n` threads. -/
def init (isa : Isa) (file : PhysRegFile) (n : ℕ) : Except Abort (Sys n) :=
  (initThreads isa n file.initFreeList).map fun r =>
    let maps := fun t : Fin n => r.1.getD t fun _ => []
    ⟨r.2, maps, fun _ => [], fun _ => [], maps, fun _ => 0⟩

def view (s : Sys n) (tid : Fin n) : View := ⟨s.free, s.map tid, s.history tid⟩

def put (s : Sys n) (tid : Fin n) (v : View) : Sys n :=
  { s with
    free := v.free
    map := update s.map tid v.map
    history := update s.history tid v.history }

def step (isa : Isa) (file : PhysRegFile) (s : Sys n) : Act n → Except Abort (Sys n)
  | .rename tid seqNum dest => (renameDest isa file seqNum (s.view tid) dest).map fun v =>
    { s.put tid v with log := update s.log tid ((seqNum, v.map) :: s.log tid) }
  | .commit tid seqNum => (removeFromHistory file seqNum (s.view tid)).map fun v =>
    { s.put tid v with
      committed := update s.committed tid (max (s.committed tid) seqNum) }
  | .squash tid seqNum =>
    (doSquash isa file seqNum s.free (s.map tid) (s.history tid)).map fun v =>
      { s.put tid v with
        log := update s.log tid ((s.log tid).dropWhile fun x => seqNum < x.1) }

/-- Renaming is in program order; only uncommitted instructions are squashed. -/
def Enabled (s : Sys n) : Act n → Prop
  | .rename tid seqNum _ => ∀ x ∈ s.log tid, x.1 ≤ seqNum
  | .commit _ _ => True
  | .squash tid seqNum => s.committed tid ≤ seqNum

inductive Run (isa : Isa) (file : PhysRegFile) : Sys n → Prop
  | init {s : Sys n} (h : init isa file n = .ok s) : Run isa file s
  | step {s s' : Sys n} {a : Act n} (hs : Run isa file s) (ha : Enabled s a)
      (h : step isa file s a = .ok s') : Run isa file s'

def count (s : Sys n) (p : ℕ) : ℕ :=
  countIn s.free p + ∑ tid, countThread (s.map tid) (s.history tid) p

structure Inv (isa : Isa) (file : PhysRegFile) (s : Sys n) : Prop where
  free : FreeOk file s.free
  thread : ∀ tid, ThreadOk isa file (s.map tid) (s.history tid)
  once : ∀ p, s.count p = if p < file.totalNumPhysRegs then 1 else 0
  log : ∀ tid sn, s.committed tid ≤ sn →
    undoUntil isa sn (s.map tid) (s.history tid) = mapAt (s.first tid) sn (s.log tid)

variable {s s' : Sys n} {tid : Fin n} {v : View} {a : Act n} {seqNum p : ℕ}

lemma count_view (s : Sys n) (tid : Fin n) (p : ℕ) : s.count p = (s.view tid).count p +
      ∑ t ∈ Finset.univ.erase tid, countThread (s.map t) (s.history t) p := by
  rw [count, ← Finset.add_sum_erase _ _ (Finset.mem_univ tid), ← add_assoc]
  rfl

lemma count_put (s : Sys n) (tid : Fin n) (hv : v.count p = (s.view tid).count p) :
    (s.put tid v).count p = s.count p := by
  rw [count_view s tid, count_view (s.put tid v) tid]
  have hview : (s.put tid v).view tid = v := by simp [view, put]
  rw [hview, hv]
  congr 1
  refine Finset.sum_congr rfl fun t ht => ?_
  have hne := Finset.ne_of_mem_erase ht
  simp only [put, update_of_ne hne]

section

variable (h : Inv isa file s)

include h

/-- **A new view of one thread**, with the maps of the log. -/
lemma Inv.put {log : Fin n → Log} {committed : Fin n → ℕ}
    (hv : v.Sound isa file (s.view tid).count)
    (hsame : ∀ t ≠ tid, log t = s.log t ∧ committed t = s.committed t)
    (hlog : ∀ sn, committed tid ≤ sn →
      undoUntil isa sn v.map v.history = mapAt (s.first tid) sn (log tid)) :
    Inv isa file { s.put tid v with log := log, committed := committed } := by
  refine ⟨hv.free, fun t => ?_, fun p => (count_put s tid (hv.count_eq p)).trans (h.once p),
    fun t sn hsn => ?_⟩
  · by_cases ht : t = tid
    · subst ht
      simpa [Sys.put] using hv.thread
    · simpa [Sys.put, update_of_ne ht] using h.thread t
  · by_cases ht : t = tid
    · subst ht
      simpa [Sys.put] using hlog sn hsn
    · obtain ⟨hlog', hcommitted⟩ := hsame t ht
      simp only [Sys.put, update_of_ne ht, hlog']
      exact h.log t sn (hcommitted ▸ hsn)

lemma Inv.view_count_le (tid : Fin n) (p : ℕ) : (s.view tid).count p ≤ 1 := by
  have hview := count_view s tid p
  have honce := h.once p
  split_ifs at honce <;> omega

lemma Inv.rename {dest : RegClass × ℕ}
    (hstep : step isa file s (.rename tid seqNum dest) = .ok s') : Inv isa file s' := by
  obtain ⟨v, hv, rfl⟩ := map_ok hstep
  obtain ⟨e, hhist, hseq, hundo, hsound⟩ :=
    renameDest_spec (h.thread tid) h.free (h.view_count_le tid) hv
  refine h.put hsound (fun t ht => ⟨update_of_ne ht .., rfl⟩) fun sn hsn => ?_
  rw [hhist, undoUntil, update_self, mapAt, hseq, hundo]
  by_cases hle : seqNum ≤ sn
  · rw [if_neg (by omega), if_pos hle]
  · rw [if_pos (by omega), if_neg hle]
    exact h.log tid sn hsn

lemma Inv.commit (tid : Fin n) (seqNum : ℕ) :
    ∃ s', step isa file s (.commit tid seqNum) = .ok s' ∧ Inv isa file s' := by
  obtain ⟨v, gone, hv, hmap, hhist, hgone, hsound⟩ :=
    removeFromHistory_spec (v := s.view tid) seqNum (h.thread tid) h.free
  have hstep : step isa file s (.commit tid seqNum) = .ok { s.put tid v with
      committed := update s.committed tid (max (s.committed tid) seqNum) } := by
    rw [step, hv]
    rfl
  refine ⟨_, hstep, h.put hsound (fun t ht => ⟨rfl, update_of_ne ht ..⟩) fun sn hsn => ?_⟩
  rw [update_self] at hsn
  have hlog := h.log tid sn (by omega)
  have hhist' : s.history tid = v.history ++ gone := hhist
  rw [hhist', undoUntil_append hgone (by omega)] at hlog
  rw [hmap]
  exact hlog

/-- **A squash** restores the map after the youngest instruction that stays. -/
lemma Inv.squash (hle : s.committed tid ≤ seqNum) :
    ∃ s', step isa file s (.squash tid seqNum) = .ok s' ∧ Inv isa file s' ∧
      s'.map tid = mapAt (s.first tid) seqNum (s.log tid) := by
  obtain ⟨v, hv, hmap, hhist, hsound⟩ := doSquash_spec seqNum (h.thread tid) h.free
  have hback := h.log tid seqNum hle
  have hstep : step isa file s (.squash tid seqNum) = .ok { s.put tid v with
      log := update s.log tid ((s.log tid).dropWhile fun x => seqNum < x.1) } := by
    rw [step, hv]
    rfl
  refine ⟨_, hstep, h.put hsound (fun t ht => ⟨update_of_ne ht .., rfl⟩) fun sn hsn => ?_, ?_⟩
  · rw [update_self, hmap, hhist, undoUntil_dropWhile, mapAt_dropWhile]
    exact h.log tid _ (le_min hsn hle)
  · simp only [Sys.put, update_self, hmap]
    exact hback

end

/-! ### The constructor -/

lemma initRegs_ok {k : ℕ} {free l rest : List ℕ} (h : initRegs k free = .ok (l, rest)) :
    free = l ++ rest ∧ l.length = k := by
  induction k generalizing free l with
  | zero =>
    cases h
    exact ⟨rfl, rfl⟩
  | succ k ih =>
    cases free with
    | nil => cases h
    | cons reg free =>
      obtain ⟨⟨l', rest'⟩, hr, heq⟩ := map_ok h
      cases heq
      obtain ⟨rfl, hlen⟩ := ih hr
      exact ⟨rfl, by rw [length_cons, hlen]⟩

lemma initThread_ok (h : initThread isa free = .ok (m, free')) :
    ∀ c, free c = m c ++ free' c ∧ (m c).length = isa.numRegs c := by
  obtain ⟨⟨i, i'⟩, hi, h⟩ := bind_ok h
  obtain ⟨⟨f, f'⟩, hf, h⟩ := bind_ok h
  obtain ⟨⟨c, c'⟩, hc, heq⟩ := map_ok h
  cases heq
  rintro (_ | _ | _)
  · exact initRegs_ok hi
  · exact initRegs_ok hf
  · exact initRegs_ok hc

lemma initThreads_ok {k : ℕ} {free free' : PhysClass → List ℕ}
    (h : initThreads isa k free = .ok (ms, free')) :
    ms.length = k ∧ (∀ m ∈ ms, ∀ c, (m c).length = isa.numRegs c ∧ ∀ p ∈ m c, p ∈ free c) ∧
      (∀ c, ∀ p ∈ free' c, p ∈ free c) ∧
      ∀ p, countIn free p = (ms.map fun m => countIn m p).sum + countIn free' p := by
  induction k generalizing free ms with
  | zero =>
    cases h
    exact ⟨rfl, by simp, fun _ _ hp => hp, by simp⟩
  | succ k ih =>
    obtain ⟨⟨m, free₁⟩, hthread, h⟩ := bind_ok h
    obtain ⟨⟨ms', free₂⟩, hrest, heq⟩ := map_ok h
    cases heq
    obtain ⟨hlen, hmaps, hfree, hcount⟩ := ih hrest
    have hsplit := initThread_ok hthread
    have hsub : ∀ c, ∀ p ∈ free₁ c, p ∈ free c := fun c p hp => by
      rw [(hsplit c).1]
      exact mem_append_right _ hp
    refine ⟨by rw [length_cons, hlen], forall_mem_cons.mpr ⟨fun c => ⟨(hsplit c).2,
      fun p hp => ?_⟩, fun m' hm' c => ⟨(hmaps m' hm' c).1, fun p hp =>
        hsub c p ((hmaps m' hm' c).2 p hp)⟩⟩, fun c p hp => hsub c p (hfree c p hp), fun p => ?_⟩
    · rw [(hsplit c).1]
      exact mem_append_left _ hp
    · have hthis : countIn free p = countIn m p + countIn free₁ p := by
        simp only [countIn, (hsplit _).1, count_append]
        omega
      rw [hthis, hcount p, map_cons, sum_cons, add_assoc]

lemma sum_getD (hlen : ms.length = n)
    (g : (PhysClass → List ℕ) → ℕ) (d : PhysClass → List ℕ) :
    ∑ tid : Fin n, g (ms.getD tid d) = (ms.map g).sum := by
  subst hlen
  induction ms with
  | nil => rfl
  | cons m ms ih =>
    rw [map_cons, sum_cons, ← ih]
    exact Fin.sum_univ_succ (n := ms.length) fun tid => g ((m :: ms).getD tid d)

lemma countIn_initFreeList :
    countIn file.initFreeList p = if p < file.totalNumPhysRegs then 1 else 0 := by
  have hin : ∀ c, file.IsPhysReg c p → (file.initFreeList c).count p = 1 := fun c hc =>
    count_eq_one_of_mem nodup_range' (mem_range'_1.mpr hc)
  have hout : ∀ c, ¬ file.IsPhysReg c p → (file.initFreeList c).count p = 0 := fun c hc =>
    count_eq_zero.mpr fun hmem => hc (mem_range'_1.mp hmem)
  rw [countIn]
  by_cases hp : p < file.totalNumPhysRegs
  · -- the register is of exactly one class
    obtain ⟨c, hc⟩ : ∃ c, file.IsPhysReg c p := by
      rcases lt_or_ge p (file.base .float) with h₁ | h₁
      · exact ⟨.int, Nat.zero_le _, by simpa [PhysRegFile.base, PhysRegFile.num] using h₁⟩
      · rcases lt_or_ge p (file.base .cc) with h₂ | h₂
        · exact ⟨.float, h₁, h₂⟩
        · exact ⟨.cc, h₂, hp⟩
    have hother : ∀ c', c' ≠ c → (file.initFreeList c').count p = 0 := fun c' hne =>
      hout c' fun hc' => hne (hc'.class_eq hc)
    rw [if_pos hp]
    have hone := hin c hc
    cases c with
    | int => rw [hone, hother .float (by simp), hother .cc (by simp)]
    | float => rw [hone, hother .int (by simp), hother .cc (by simp)]
    | cc => rw [hone, hother .int (by simp), hother .float (by simp)]
  · rw [if_neg hp, hout .int fun h => hp h.lt_total, hout .float fun h => hp h.lt_total,
      hout .cc fun h => hp h.lt_total]

lemma Inv.init (h : init isa file n = .ok s) : Inv isa file s := by
  obtain ⟨⟨ms, free⟩, hinit, rfl⟩ := map_ok h
  obtain ⟨hlen, hmaps, hfree, hcount⟩ := initThreads_ok hinit
  have hmem : ∀ c, ∀ p ∈ file.initFreeList c, file.IsPhysReg c p := fun c p hp =>
    mem_range'_1.mp hp
  have hget : ∀ tid : Fin n, (ms.getD tid fun _ => []) ∈ ms := fun tid => by
    have hlt : (tid : ℕ) < ms.length := by omega
    rw [getD_eq_getElem?_getD, List.getElem?_eq_getElem hlt]
    exact getElem_mem hlt
  refine ⟨fun c p hp => hmem c p (hfree c p hp), fun tid => ⟨fun c => ?_, fun c p hp => ?_,
    by simp, trivial⟩, fun p => ?_, fun tid sn _ => rfl⟩
  · exact (hmaps _ (hget tid) c).1
  · exact hmem c p ((hmaps _ (hget tid) c).2 p hp)
  · rw [← countIn_initFreeList, hcount, Sys.count, add_comm]
    congr 1
    exact sum_getD hlen (fun m => countThread m [] p) _

/-! ### Runs -/

lemma Run.inv (h : Run isa file s) : Inv isa file s := by
  induction h with
  | init hinit => exact .init hinit
  | @step s s' a _ ha hstep ih =>
    cases a with
    | rename tid seqNum dest => exact ih.rename hstep
    | commit tid seqNum =>
      obtain ⟨s₁, hs₁, hinv⟩ := ih.commit tid seqNum
      rw [hs₁] at hstep
      cases hstep
      exact hinv
    | squash tid seqNum =>
      obtain ⟨s₁, hs₁, hinv, -⟩ := ih.squash ha
      rw [hs₁] at hstep
      cases hstep
      exact hinv

lemma count_prevPhysReg {history : List RenameHistory} (h : ∀ e ∈ history, EntryOk isa file e)
    (hp : p < file.totalNumPhysRegs) (hzero : ¬ isa.IsZero p) :
    (history.map RenameHistory.prevPhysReg).count p = countPrev history p := by
  induction history with
  | nil => rfl
  | cons e history ih =>
    obtain ⟨he, hrest⟩ := forall_mem_cons.mp h
    rw [map_cons, ← singleton_append, count_append, ih hrest]
    rcases he with ⟨hsame, hspecial⟩ | ⟨hreal, -⟩
    · have hne : p ≠ e.prevPhysReg := by
        rintro rfl
        rcases hspecial with hz | hle
        · exact hzero hz
        · omega
      rw [countPrev_cons_special hsame, count_singleton, if_neg (by simpa using hne.symm),
        zero_add]
    · rw [countPrev_cons_real hreal]

/-- **Renaming**, in any interleaving of threads: every physical register that is no zero register
is in exactly one place, and a squash of uncommitted instructions restores the map. -/
theorem renaming_sound (h : Run isa file s) : (∀ p < file.totalNumPhysRegs, ¬ isa.IsZero p →
      countIn s.free p + ∑ tid, (countIn (s.map tid) p +
        ((s.history tid).map RenameHistory.prevPhysReg).count p) = 1 ∧
      ∀ c, p ∈ s.free c → file.IsPhysReg c p) ∧
    ∀ tid sn, s.committed tid ≤ sn →
      ∃ v, doSquash isa file sn s.free (s.map tid) (s.history tid) = .ok v ∧
        v.map = mapAt (s.first tid) sn (s.log tid) := by
  have hinv := h.inv
  refine ⟨fun p hp hzero => ⟨?_, fun c => hinv.free c p⟩, fun tid sn hsn => ?_⟩
  · have honce := hinv.once p
    rw [if_pos hp, Sys.count] at honce
    rw [← honce]
    congr 1
    refine Finset.sum_congr rfl fun tid _ => ?_
    rw [countThread, count_prevPhysReg (hinv.thread tid).entries hp hzero]
  · obtain ⟨v, hv, hmap, -⟩ := doSquash_spec sn (hinv.thread tid) hinv.free
    exact ⟨v, hv, hmap.trans (hinv.log tid sn hsn)⟩

/-- Two integer registers, the second of which is zero. -/
def twoRegs : Isa where
  numRegs := fun | .int => 2 | _ => 0
  fpRegBase := 2
  ccRegBase := 2
  miscRegBase := 2
  maxRegIndex := 3
  zeroReg := 1
  fpZeroReg := 1
  int_le := le_rfl
  float_le := le_rfl
  cc_le := le_rfl
  misc_le := by decide

/-- Two threads; the second renames its first register in instruction 7. -/
theorem renaming_sound_twoRegs : ∃ s : Sys 2, Run twoRegs ⟨5, 0, 0⟩ s ∧ s.map 1 .int = [4, 3] ∧
    s.map 0 .int = [0, 1] ∧
    countIn s.free 2 + ∑ tid, (countIn (s.map tid) 2 +
      ((s.history tid).map RenameHistory.prevPhysReg).count 2) = 1 ∧
    ∃ v, doSquash twoRegs ⟨5, 0, 0⟩ 6 s.free (s.map 1) (s.history 1) = .ok v ∧
      v.map .int = [2, 3] := by
  have h₀ : Run (n := 2) twoRegs ⟨5, 0, 0⟩ _ := .init rfl
  have h₁ := h₀.step (a := .rename 1 7 (.phys .int, 0)) nofun rfl
  obtain ⟨honce, hsquash⟩ := renaming_sound h₁
  obtain ⟨v, hv, hmap⟩ := hsquash 1 6 (Nat.zero_le _)
  refine ⟨_, h₁, rfl, rfl, (honce 2 (by decide) ?_).1, v, hv, ?_⟩
  · rintro ⟨c, hc, h⟩
    cases c with
    | int => cases h
    | float => cases hc
    | cc => cases hc
  · rw [hmap]
    rfl

end Sys

end Rename

end ShifDram
