import ShifDram.Control.Fallible
import ShifDram.Vm.FuncPageTable

/-!
The memory of a process in syscall emulation (`sim/process.cc`, `sim/system.cc`,
`sim/syscall_emul.hh`, `sim/syscall_emul.cc`).

Frames come from a pointer that only moves up. `mmap` takes the address that the caller suggests
if its pages are free, and else the next of the mmap region; `mremap` grows a region in place,
moves it or shrinks it; `brk` and the stack add single pages. The wrap-around of 64-bit addresses
is left out, and so is that of `int npages` in `allocateMem`: regions have fewer than `2^31` pages
(`2^43` bytes with pages of 4 KiB); the code maps a longer one with too few frames.
-/

namespace ShifDram

open Fallible

/-- A process, its page table and the system's frames. -/
structure Process where
  pTable : FuncPageTable
  pagePtr : ℕ
  memSize : ℕ
  brkPoint : ℤ
  stackBase : ℤ
  stackMin : ℤ
  maxStackSize : ℤ
  mmapEnd : ℤ
  mmapGrowsDown : Bool

inductive Errno where
  | ebadf
  | einval
  | enomem
  deriving DecidableEq, Repr

abbrev SyscallReturn := Except Errno ℤ

/-- The arguments of `mmap`, and if the file descriptor is valid. -/
structure MmapArgs where
  start : ℤ
  length : ℕ
  anonymous : Bool
  fixed : Bool
  validFD : Bool
  offset : ℤ

structure MremapArgs where
  start : ℤ
  oldLength : ℕ
  newLength : ℕ
  mayMove : Bool
  fixed : Bool
  newAddress : ℤ

namespace Process

def pageBytes (p : Process) : ℤ := p.pTable.pageSize

/-- `roundUp(a, PageBytes)`. -/
def roundUp (p : Process) (a : ℤ) : ℤ := (a + p.pageBytes - 1) / p.pageBytes * p.pageBytes

/-- `roundDown(a, PageBytes)`. -/
def roundDown (p : Process) (a : ℤ) : ℤ := p.pTable.pageAlign a

/-- `System::allocPhysPages`: the first frame's address, and the frame pointer; at the m5 window the
window's last address. -/
def allocPhysPages (p : Process) (npages : ℕ) : Except VmAbort (ℕ × ℕ) :=
  let next := (p.pagePtr + npages) * 2 ^ p.pTable.pageShift
  let (returnAddr, pagePtr) :=
    if 0xffff0000 ≤ next ∧ next ≤ 0xffffffff then (0xffffffff, 0xffffffff / 2 ^ p.pTable.pageShift)
    else (p.pagePtr * 2 ^ p.pTable.pageShift, p.pagePtr + npages)
  if p.memSize < pagePtr * 2 ^ p.pTable.pageShift then .error .outOfMemory
  else .ok (returnAddr, pagePtr)

def allocateMem (p : Process) (vaddr size : ℤ) (clobber : Bool) : Except VmAbort Process :=
  (p.allocPhysPages (p.pTable.rounds size)).bind fun (paddr, pagePtr) =>
    (p.pTable.map vaddr paddr size ⟨clobber, false, false⟩).map fun t =>
      { p with pagePtr := pagePtr, pTable := t }

/-- The loop of `fixupStackFault`. -/
def growStack : ℕ → Process → Except VmAbort Process
  | 0, p => .ok p
  | n + 1, p =>
    let stackMin := p.stackMin - p.pageBytes
    if p.maxStackSize < p.stackBase - stackMin then .error .maxStackSize
    else (allocateMem { p with stackMin := stackMin } stackMin p.pageBytes false).bind (growStack n)

/-- `fixupStackFault`: whether the page is the stack's, which then has it. -/
def fixupStackFault (p : Process) (vaddr : ℤ) : Except VmAbort (Bool × Process) :=
  if p.stackMin ≤ vaddr ∧ vaddr < p.stackBase then
    (p.allocateMem (p.roundDown vaddr) p.pageBytes false).map (true, ·)
  else if vaddr < p.stackMin ∧ p.stackBase - p.maxStackSize ≤ vaddr then
    (growStack (roundsOf p.pageBytes (p.stackMin - vaddr)) p).map (true, ·)
  else .ok (false, p)

/-- A look at the page table may change its recent entries. -/
def touch (p : Process) (vaddr : ℤ) : Process := { p with pTable := (p.pTable.lookup vaddr).2 }

/-- One chunk of `brkFunc`: a new page, or one to zero. -/
def brkChunk (newBrk : ℤ) (p : Process) (addr : ℤ) : Except VmAbort Process :=
  let found := (p.pTable.lookup addr).1
  let p := p.touch addr
  if found.isNone then p.allocateMem (p.roundDown addr) p.pageBytes false
  else
    let nextPage := p.roundUp addr
    let p := if addr < nextPage then p.touch addr else p
    if nextPage < addr + p.pageBytes ∧ nextPage < newBrk then
      let found := (p.pTable.lookup nextPage).1
      let p := p.touch nextPage
      .ok (if found.isSome then p.touch nextPage else p)
    else .ok p

/-- The chunks: the break point, and the pages behind it. -/
def brkChunks (p : Process) (newBrk : ℤ) : List ℤ :=
  (List.range (roundsOf p.pageBytes (newBrk - p.roundDown p.brkPoint))).map fun i =>
    if i = 0 then p.brkPoint else p.roundDown p.brkPoint + (i : ℕ) * p.pageBytes

def brkFunc (p : Process) (newBrk : ℤ) : Except VmAbort Process :=
  if newBrk = 0 then .ok p
  else
    (if p.brkPoint < newBrk then (p.brkChunks newBrk).foldlM (brkChunk newBrk) p else .ok p).map
      fun p => { p with brkPoint := newBrk }

/-- Whether `mmap` takes the address of the caller. -/
def usesProvided (p : Process) (a : MmapArgs) : Bool :=
  a.start != 0 && p.pTable.isUnmapped a.start (p.roundUp a.length)

/-- The address that `mmap` picks. -/
def picked (p : Process) (a : MmapArgs) : ℤ :=
  if p.usesProvided a then a.start
  else if p.mmapGrowsDown then p.mmapEnd - p.roundUp a.length else p.mmapEnd

/-- The end of the mmap region after `mmap`. -/
def movedEnd (p : Process) (a : MmapArgs) : ℤ :=
  if p.usesProvided a then p.mmapEnd
  else if p.mmapGrowsDown then p.mmapEnd - p.roundUp a.length
  else p.mmapEnd + p.roundUp a.length

def mmapFunc (p : Process) (a : MmapArgs) : Except VmAbort (SyscallReturn × Process) :=
  if !a.anonymous && !a.validFD then .ok (.error .ebadf, p)
  else if a.start % p.pageBytes ≠ 0 ∨ a.offset % p.pageBytes ≠ 0 then .ok (.error .einval, p)
  else if a.start ≠ 0 ∧ ¬ p.pTable.isUnmapped a.start (p.roundUp a.length) ∧ a.fixed then
    .ok (.error .einval, p)
  else
    (allocateMem { p with mmapEnd := p.movedEnd a } (p.picked a) (p.roundUp a.length) false).map
      fun p' => (.ok (p.picked a), p')

/-- `mremap` of the last region, growing in place. -/
def growInPlace (p : Process) (a : MremapArgs) : Except VmAbort (SyscallReturn × Process) :=
  let diff := p.roundUp a.newLength - a.oldLength
  (p.allocateMem p.mmapEnd diff false).map fun p' =>
    (.ok a.start, { p' with mmapEnd := p.mmapEnd + diff })

/-- `mremap` to more pages: the region moves, pages are added. -/
def moveRegion (p : Process) (a : MremapArgs) (newStart : ℤ) :
    Except VmAbort (SyscallReturn × Process) :=
  (p.pTable.remap a.start a.oldLength newStart).bind fun t =>
    (allocateMem { p with pTable := t } (newStart + a.oldLength)
      (p.roundUp a.newLength - a.oldLength) a.fixed).map fun p' =>
        (.ok newStart, { p' with
          mmapEnd := if a.fixed then p.mmapEnd else p.mmapEnd + p.roundUp a.newLength })

/-- `mremap` to no more pages: it may move; its last pages are dropped. -/
def shrinkRegion (p : Process) (a : MremapArgs) (newStart : ℤ) :
    Except VmAbort (SyscallReturn × Process) :=
  (if newStart = a.start then .ok p.pTable
    else p.pTable.remap a.start (p.roundUp a.newLength) newStart).bind fun t =>
      (t.unmap (a.start + p.roundUp a.newLength) (a.oldLength - p.roundUp a.newLength)).map fun t =>
        (.ok newStart, { p with pTable := t })

def mremapFunc (p : Process) (a : MremapArgs) : Except VmAbort (SyscallReturn × Process) :=
  if a.start % p.pageBytes ≠ 0 ∨ (a.fixed ∧ a.newAddress % p.pageBytes ≠ 0) then
    .ok (.error .einval, p)
  else if (a.oldLength : ℤ) < p.roundUp a.newLength then
    if a.start + a.oldLength = p.mmapEnd ∧ (a.fixed → a.newAddress = a.start) then p.growInPlace a
    else if !a.fixed ∧ !a.mayMove then .ok (.error .enomem, p)
    else p.moveRegion a (if a.fixed then a.newAddress else p.mmapEnd)
  else p.shrinkRegion a (if a.fixed then a.newAddress else a.start)

/-- The size and target that `mremap` moves, unless it grows in place. -/
def remapOf (p : Process) (a : MremapArgs) : Option (ℤ × ℤ) :=
  if (a.oldLength : ℤ) < p.roundUp a.newLength then
    if a.start + a.oldLength = p.mmapEnd ∧ (a.fixed → a.newAddress = a.start) then none
    else some (a.oldLength, if a.fixed then a.newAddress else p.mmapEnd)
  else if a.fixed ∧ a.newAddress ≠ a.start then some (p.roundUp a.newLength, a.newAddress)
  else none

/-- System calls, a growing stack, and look-ups. -/
inductive Sys where
  | mmap (a : MmapArgs)
  | mremap (a : MremapArgs)
  | brk (newBrk : ℤ)
  | growStack (vaddr : ℤ)
  | lookup (vaddr : ℤ)

def perform (p : Process) : Sys → Except VmAbort Process
  | .mmap a => (p.mmapFunc a).map Prod.snd
  | .mremap a => (p.mremapFunc a).map Prod.snd
  | .brk newBrk => p.brkFunc newBrk
  | .growStack vaddr => (p.fixupStackFault vaddr).map Prod.snd
  | .lookup vaddr => .ok (p.touch vaddr)

/-- A process after calls that meet a condition, from what the loader leaves. -/
inductive Run (loaded : Process → Prop) (condition : Process → Sys → Prop) : Process → Prop
  | init {p : Process} (h : loaded p) : Run loaded condition p
  | step {p p' : Process} {sys : Sys} (h : Run loaded condition p) (hsys : condition p sys)
      (hok : p.perform sys = .ok p') : Run loaded condition p'

variable {p p' : Process} {v size : ℤ} {n : ℕ} {clobber : Bool} {a : ℤ} {r : SyscallReturn}
  {newBrk : ℤ}

lemma pageBytes_pos : 0 < p.pageBytes := p.pTable.pageSize_pos

lemma dvd_roundUp (p : Process) (a : ℤ) : p.pageBytes ∣ p.roundUp a := Dvd.intro_left _ rfl

lemma le_roundUp (p : Process) (a : ℤ) : a ≤ p.roundUp a := by
  have h := Int.lt_ediv_add_one_mul_self (a + p.pageBytes - 1) p.pageBytes_pos
  rw [roundUp]
  rw [add_mul] at h
  omega

lemma roundUp_lt (p : Process) (a : ℤ) : p.roundUp a < a + p.pageBytes := by
  have h := Int.ediv_mul_le (a + p.pageBytes - 1) p.pageBytes_pos.ne'
  rw [roundUp]
  omega

lemma roundUp_le_iff (p : Process) {a b : ℤ} (hb : p.pageBytes ∣ b) : p.roundUp a ≤ b ↔ a ≤ b := by
  constructor
  · exact (p.le_roundUp a).trans
  · intro hab
    obtain ⟨k, rfl⟩ := hb
    have hlt := p.roundUp_lt a
    obtain ⟨l, hl⟩ := p.dvd_roundUp a
    rw [hl] at hlt ⊢
    have hlk : l < k + 1 := by
      refine lt_of_mul_lt_mul_left (a := p.pageBytes) ?_ p.pageBytes_pos.le
      rw [mul_add, mul_one]
      omega
    exact mul_le_mul_of_nonneg_left (by omega) p.pageBytes_pos.le

lemma coe_roundsOf {pageSize size : ℤ} (hpos : 0 < pageSize) (hsize : 0 ≤ size) :
    (roundsOf pageSize size : ℤ) = (size + pageSize - 1) / pageSize := by
  rw [roundsOf, Int.toNat_of_nonneg]
  exact Int.ediv_nonneg (by omega) hpos.le

lemma rounds_mul_pageBytes (p : Process) (ha : 0 ≤ a) :
    (p.pTable.rounds a : ℤ) * p.pageBytes = p.roundUp a := by
  rw [FuncPageTable.rounds, coe_roundsOf p.pTable.pageSize_pos ha]
  rfl

lemma roundUp_of_dvd (p : Process) (ha : p.pageBytes ∣ a) : p.roundUp a = a :=
  le_antisymm ((p.roundUp_le_iff ha).mpr le_rfl) (p.le_roundUp a)

lemma rounds_roundUp (p : Process) (ha : 0 ≤ a) :
    p.pTable.rounds (p.roundUp a) = p.pTable.rounds a := by
  have h := p.rounds_mul_pageBytes (ha.trans (p.le_roundUp a))
  rw [p.roundUp_of_dvd (p.dvd_roundUp a)] at h
  have hsame := h.trans (p.rounds_mul_pageBytes ha).symm
  exact_mod_cast mul_right_cancel₀ p.pageBytes_pos.ne' hsame

/-! ### Allocations -/

lemma allocateMem_ok (h : p.allocateMem v size clobber = .ok p') : ∃ base ptr t,
    p.allocPhysPages (p.pTable.rounds size) = .ok (base, ptr) ∧ p.pTable.pageOffset v = 0 ∧
      (clobber = false → ∀ i < p.pTable.rounds size,
        p.pTable.pTable (v + (i : ℕ) * p.pageBytes) = none) ∧
      p.pTable.Keeps t (PageMap.map p.pTable.pageShift p.pTable.pTable v base
        (p.pTable.rounds size) ⟨clobber, false, false⟩) ∧
      p' = { p with pagePtr := ptr, pTable := t } := by
  obtain ⟨⟨base, ptr⟩, halloc, hmap⟩ := bind_ok h
  obtain ⟨t, ht, rfl⟩ := map_ok hmap
  rw [FuncPageTable.map] at ht
  split_ifs at ht with halign
  refine ⟨base, ptr, t, halloc, not_not.mp halign, ?_, FuncPageTable.keeps_mapLoop ht, rfl⟩
  exact FuncPageTable.exists_mapLoop_iff.mp ⟨t, ht⟩

lemma pageBytes_allocateMem (h : p.allocateMem v size clobber = .ok p') :
    p'.pageBytes = p.pageBytes := by
  obtain ⟨_, _, _, -, -, -, hkeeps, rfl⟩ := allocateMem_ok h
  exact hkeeps.pageSize

lemma exists_allocateMem (p : Process) (v size : ℤ) (clobber : Bool) {base ptr : ℕ}
    (halloc : p.allocPhysPages (p.pTable.rounds size) = .ok (base, ptr))
    (halign : p.pTable.pageOffset v = 0)
    (hfree : clobber = false → ∀ i < p.pTable.rounds size,
      p.pTable.pTable (v + (i : ℕ) * p.pageBytes) = none) :
    ∃ t, p.allocateMem v size clobber = .ok { p with pagePtr := ptr, pTable := t } ∧
      p.pTable.Keeps t (PageMap.map p.pTable.pageShift p.pTable.pTable v base
        (p.pTable.rounds size) ⟨clobber, false, false⟩) := by
  obtain ⟨t, ht⟩ : ∃ t, FuncPageTable.mapLoop ⟨clobber, false, false⟩ (p.pTable.rounds size)
      p.pTable v base = .ok t := FuncPageTable.exists_mapLoop_iff.mpr hfree
  refine ⟨t, ?_, FuncPageTable.keeps_mapLoop ht⟩
  rw [allocateMem, halloc]
  change (p.pTable.map v base size _).map _ = _
  rw [FuncPageTable.map, if_neg (not_not.mpr halign), ht]
  rfl

lemma roundDown_touch (p : Process) (u v : ℤ) : (p.touch u).roundDown v = p.roundDown v := by
  have hsize := (p.pTable.keeps_lookup u).pageSize
  rw [roundDown, roundDown, FuncPageTable.pageAlign, FuncPageTable.pageAlign]
  change v / (p.pTable.lookup u).2.pageSize * (p.pTable.lookup u).2.pageSize = _
  rw [hsize]

/-- **`mremap`** did nothing, or grew the region in place, moved or shrank it. -/
lemma mremapFunc_ok {a : MremapArgs} (h : p.mremapFunc a = .ok (r, p')) : p' = p ∨
    (p.remapOf a = none ∧ (a.oldLength : ℤ) < p.roundUp a.newLength ∧ p.pageBytes ∣ a.start ∧
      a.start + a.oldLength = p.mmapEnd ∧
      ∃ p₁, p.allocateMem p.mmapEnd (p.roundUp a.newLength - a.oldLength) false = .ok p₁ ∧
        p' = { p₁ with mmapEnd := p.mmapEnd + (p.roundUp a.newLength - a.oldLength) }) ∨
    (∃ newStart t p₁, (a.oldLength : ℤ) < p.roundUp a.newLength ∧
      (a.fixed = true ∨ a.mayMove = true) ∧ p.remapOf a = some ((a.oldLength : ℤ), newStart) ∧
      p.pTable.remap a.start a.oldLength newStart = .ok t ∧
      allocateMem { p with pTable := t } (newStart + a.oldLength)
        (p.roundUp a.newLength - a.oldLength) a.fixed = .ok p₁ ∧
      p' = { p₁ with
        mmapEnd := if a.fixed then p.mmapEnd else p.mmapEnd + p.roundUp a.newLength }) ∨
    ∃ t t', (a.fixed = true → p.pageBytes ∣ a.newAddress) ∧
      (t = p.pTable ∨ ∃ newStart, a.fixed = true ∧
        p.remapOf a = some (p.roundUp a.newLength, newStart) ∧
        p.pTable.remap a.start (p.roundUp a.newLength) newStart = .ok t) ∧
      t.unmap (a.start + p.roundUp a.newLength) (a.oldLength - p.roundUp a.newLength) = .ok t' ∧
      p' = { p with pTable := t' } := by
  rw [mremapFunc] at h
  by_cases haligned : a.start % p.pageBytes ≠ 0 ∨ (a.fixed ∧ a.newAddress % p.pageBytes ≠ 0)
  · rw [if_pos haligned] at h
    cases h
    exact Or.inl rfl
  rw [if_neg haligned] at h
  by_cases hgrow : (a.oldLength : ℤ) < p.roundUp a.newLength
  · rw [if_pos hgrow] at h
    by_cases hplace : a.start + a.oldLength = p.mmapEnd ∧ (a.fixed → a.newAddress = a.start)
    · rw [if_pos hplace] at h
      obtain ⟨p₁, hp₁, heq⟩ := map_ok h
      cases heq
      refine Or.inr (Or.inl ⟨by rw [remapOf, if_pos hgrow, if_pos hplace], hgrow, ?_, hplace.1, p₁,
        hp₁, rfl⟩)
      exact Int.dvd_of_emod_eq_zero (not_not.mp fun hne => haligned (Or.inl hne))
    rw [if_neg hplace] at h
    by_cases hstay : (!a.fixed) = true ∧ (!a.mayMove) = true
    · rw [if_pos hstay] at h
      cases h
      exact Or.inl rfl
    · rw [if_neg hstay] at h
      obtain ⟨t, ht, hrest⟩ := bind_ok h
      obtain ⟨p₁, hp₁, heq⟩ := map_ok hrest
      cases heq
      refine Or.inr (Or.inr (Or.inl ⟨_, t, p₁, hgrow, ?_,
        by rw [remapOf, if_pos hgrow, if_neg hplace], ht, hp₁, rfl⟩))
      by_contra hnot
      exact hstay (by simpa [not_or] using hnot)
  · rw [if_neg hgrow] at h
    obtain ⟨t, ht, hrest⟩ := bind_ok h
    obtain ⟨t', ht', heq⟩ := map_ok hrest
    cases heq
    refine Or.inr (Or.inr (Or.inr ⟨t, t', fun hfixed => ?_, ?_, ht', rfl⟩))
    · exact Int.dvd_of_emod_eq_zero (not_not.mp fun hne => haligned (Or.inr ⟨hfixed, hne⟩))
    by_cases hsame : (if a.fixed = true then a.newAddress else a.start) = a.start
    · rw [if_pos hsame] at ht
      cases ht
      exact Or.inl rfl
    · rw [if_neg hsame] at ht
      have hfixed : a.fixed = true := by
        by_contra hfixed
        rw [if_neg hfixed] at hsame
        exact hsame rfl
      rw [if_pos hfixed] at hsame ht
      exact Or.inr ⟨_, hfixed, by rw [remapOf, if_neg hgrow, if_pos ⟨hfixed, hsame⟩], ht⟩

/-! ### What calls that only add pages keep -/

/-- Kept by a look-up, a new page in `Q`, and a larger stack. -/
structure Stable (Q : ℤ → Prop) (P : Process → Prop) : Prop where
  allocateMem : ∀ {p p' : Process} {v : ℤ}, P p → Q v →
    p.allocateMem v p.pageBytes false = .ok p' → P p'
  touch : ∀ {p : Process} (v : ℤ), P p → P (p.touch v)
  stackMin : ∀ {p : Process} {x : ℤ}, p.stackBase - p.maxStackSize ≤ x → P p →
    P { p with stackMin := x }
  brkPoint : ∀ {p : Process} (x : ℤ), P p → P { p with brkPoint := x }

namespace Stable

variable {Q : ℤ → Prop} {P : Process → Prop}

lemma growStack (hP : Stable Q P) (hQ : ∀ v, p.stackBase - p.maxStackSize ≤ v → Q v) (h : P p)
    (hok : Process.growStack n p = .ok p') : P p' := by
  induction n generalizing p with
  | zero =>
    cases hok
    exact h
  | succ n ih =>
    rw [Process.growStack] at hok
    split_ifs at hok with hmax
    obtain ⟨p₁, hp₁, hrest⟩ := bind_ok hok
    have hle : p.stackBase - p.maxStackSize ≤ p.stackMin - p.pageBytes := by omega
    have h₁ : P p₁ := hP.allocateMem (hP.stackMin hle h) (hQ _ hle) hp₁
    have hsame : p₁.stackBase - p₁.maxStackSize = p.stackBase - p.maxStackSize := by
      obtain ⟨_, _, _, -, -, -, -, rfl⟩ := allocateMem_ok hp₁
      rfl
    exact ih (by rwa [hsame]) h₁ hrest

lemma fixupStackFault (hP : Stable Q P) (hpage : ∀ v, p.stackMin ≤ v → Q (p.roundDown v))
    (hQ : ∀ v, p.stackBase - p.maxStackSize ≤ v → Q v) {grown : Bool} (h : P p)
    (hok : p.fixupStackFault v = .ok (grown, p')) : P p' := by
  rw [Process.fixupStackFault] at hok
  split_ifs at hok with hin
  · obtain ⟨p₁, hp₁, heq⟩ := map_ok hok
    cases heq
    exact hP.allocateMem h (hpage v hin.1) hp₁
  · obtain ⟨p₁, hp₁, heq⟩ := map_ok hok
    cases heq
    exact hP.growStack hQ h hp₁
  · cases hok
    exact h

lemma brkChunk (hP : Stable Q P) (hQ : Q (p.roundDown v)) (h : P p)
    (hok : Process.brkChunk newBrk p v = .ok p') : P p' := by
  rw [Process.brkChunk] at hok
  dsimp only at hok
  split_ifs at hok
  · exact hP.allocateMem (hP.touch v h) (by rwa [roundDown_touch]) hok
  · cases hok
    exact hP.touch _ (hP.touch _ (hP.touch v (hP.touch v h)))
  · cases hok
    exact hP.touch _ (hP.touch v (hP.touch v h))
  · cases hok
    exact hP.touch v (hP.touch v h)
  · cases hok
    exact hP.touch _ (hP.touch _ (hP.touch v h))
  · cases hok
    exact hP.touch _ (hP.touch v h)
  · cases hok
    exact hP.touch v h

lemma brkFunc (hP : Stable Q P) (hQ : ∀ b, P b → ∀ v ∈ p.brkChunks newBrk, Q (b.roundDown v))
    (h : P p) (hok : p.brkFunc newBrk = .ok p') : P p' := by
  rw [Process.brkFunc] at hok
  split_ifs at hok
  · cases hok
    exact h
  · obtain ⟨p₁, hp₁, rfl⟩ := map_ok hok
    exact hP.brkPoint _
      (foldlM_ok (fun v hv b _ hb hstep => hP.brkChunk (hQ b hb v hv) hb hstep) h hp₁)
  · cases hok
    exact hP.brkPoint _ h

end Stable

lemma mmapFunc_ok {a : MmapArgs} (h : p.mmapFunc a = .ok (r, p')) :
    p' = p ∨ allocateMem { p with mmapEnd := p.movedEnd a } (p.picked a)
      (p.roundUp a.length) false =
      .ok p' := by
  rw [mmapFunc] at h
  split_ifs at h
  · cases h
    exact Or.inl rfl
  · cases h
    exact Or.inl rfl
  · cases h
    exact Or.inl rfl
  · obtain ⟨p₁, hp₁, heq⟩ := map_ok h
    cases heq
    exact Or.inr hp₁

end Process

end ShifDram
