import ShifDram.Vm.Process

/-!
Fresh regions from `mmap` (`mmapFunc`, `sim/syscall_emul.hh`).

The region of the mmap pointer is taken without a look at the page table, and the pointer is not
moved when a call maps pages at an address of the caller: a hint of `mmap` or a fixed target of
`mremap`. In a 64-bit process the pointer moves up; only `X86Linux32` moves it down, and that
process has no `mremap`.
-/

namespace ShifDram

open List Fallible

def FramesApart (bytes a b : ℕ) : Prop := a + bytes ≤ b ∨ b + bytes ≤ a

namespace Process

variable {p p' : Process} {v w size : ℤ} {n base ptr : ℕ} {clobber : Bool} {t : FuncPageTable}
  {r : SyscallReturn} {a : MmapArgs}

def frameBytes (p : Process) : ℕ := 2 ^ p.pTable.pageShift

lemma coe_frameBytes : (p.frameBytes : ℤ) = p.pageBytes := by
  rfl

/-- The frames from `base` on are in no page's use. -/
def FramesFree (p : Process) (base n : ℕ) : Prop :=
  ∀ i < n, ∀ v e, p.pTable.pTable v = some e →
    FramesApart p.frameBytes (base + i * p.frameBytes) e.paddr

/-- Pages not mapped before, each with its own frame; no other page changed. -/
structure FreshRegion (p p' : Process) (start : ℤ) (n : ℕ) : Prop where
  unmapped : ∀ i < n, p.pTable.pTable (start + (i : ℕ) * p.pageBytes) = none
  mapped : ∀ i < n, ∃ e, p'.pTable.pTable (start + (i : ℕ) * p.pageBytes) = some e ∧
    ∀ v e', p'.pTable.pTable v = some e' → v ≠ start + (i : ℕ) * p.pageBytes →
      FramesApart p.frameBytes e.paddr e'.paddr
  kept : ∀ v, ¬ InPages p.pageBytes start n v → p'.pTable.pTable v = p.pTable.pTable v

/-- **A region is fresh** if and only if its pages and frames were free. -/
lemma freshRegion_iff (htable : p'.pTable.pTable =
      PageMap.map p.pTable.pageShift p.pTable.pTable v base n ⟨clobber, false, false⟩) :
    p.FreshRegion p' v n ↔
      (∀ i < n, p.pTable.pTable (v + (i : ℕ) * p.pageBytes) = none) ∧ p.FramesFree base n := by
  have hat : ∀ i < n, p'.pTable.pTable (v + (i : ℕ) * p.pageBytes) =
      some (.ofPage p.pTable.pageShift (v + (i : ℕ) * p.pageBytes) (base + i * p.frameBytes)
        ⟨clobber, false, false⟩) := by
    intro i hi
    rw [htable]
    exact PageMap.map_page _ _ v _ _ hi
  have hkept : ∀ u, ¬ InPages p.pageBytes v n u → p'.pTable.pTable u = p.pTable.pTable u := by
    intro u hu
    rw [htable]
    exact if_neg hu
  constructor
  · intro h
    refine ⟨h.unmapped, fun i hi u e hu => ?_⟩
    -- a page that was mapped is not one of the new ones
    have hnot : ¬ InPages p.pageBytes v n u := by
      rintro ⟨j, hj, rfl⟩
      rw [h.unmapped j hj] at hu
      cases hu
    obtain ⟨e', he', hapart⟩ := h.mapped i hi
    rw [hat i hi] at he'
    cases he'
    refine hapart u e ((hkept u hnot).trans hu) ?_
    rintro rfl
    exact hnot ⟨i, hi, rfl⟩
  · rintro ⟨hfree, hframes⟩
    refine ⟨hfree, fun i hi => ⟨_, hat i hi, fun u e hu hne => ?_⟩, hkept⟩
    by_cases hin : InPages p.pageBytes v n u
    · obtain ⟨j, hj, rfl⟩ := hin
      rw [hat j hj] at hu
      cases hu
      have hij : i ≠ j := by
        rintro rfl
        exact hne rfl
      change FramesApart _ (base + i * p.frameBytes) (base + j * p.frameBytes)
      rcases Nat.lt_or_gt_of_ne hij with hlt | hlt
      · left
        have := Nat.mul_le_mul_right p.frameBytes hlt
        rw [Nat.succ_mul] at this
        omega
      · right
        have := Nat.mul_le_mul_right p.frameBytes hlt
        rw [Nat.succ_mul] at this
        omega
    · rw [hkept u hin] at hu
      exact hframes i hi u e hu

/-! ### Aligned pointers and used frames -/

/-- The frame below the m5 window's end, where the frame pointer stops. -/
def windowFrame (p : Process) : ℕ := 0xffffffff / p.frameBytes * p.frameBytes

def Below (p : Process) : Prop :=
  ∀ v e, p.pTable.pTable v = some e → e.paddr + p.frameBytes ≤ p.pagePtr * p.frameBytes

/-- The mmap pointer is aligned; frames in use are below the frame pointer, unless memory reaches
into the window. -/
structure Sound (p : Process) : Prop where
  aligned : p.pageBytes ∣ p.mmapEnd
  below : p.memSize < p.windowFrame → p.Below

lemma allocPhysPages_below (hmem : p.memSize < p.windowFrame)
    (h : p.allocPhysPages n = .ok (base, ptr)) :
    base = p.pagePtr * p.frameBytes ∧ ptr = p.pagePtr + n := by
  rw [allocPhysPages] at h
  dsimp only at h
  split_ifs at h with hwindow hfull hfull
  · exact absurd hmem (by exact hfull)
  · cases h
    exact ⟨rfl, rfl⟩

lemma Sound.framesFree (hsound : p.Sound) (hmem : p.memSize < p.windowFrame)
    (h : p.allocPhysPages n = .ok (base, ptr)) : p.FramesFree base n := by
  obtain ⟨rfl, -⟩ := allocPhysPages_below hmem h
  intro i hi v e he
  have hbelow := hsound.below hmem v e he
  right
  exact hbelow.trans (Nat.le_add_right _ _)

lemma Below.of_map (hbelow : p.Below)
    (hkeeps : p.pTable.Keeps t (PageMap.map p.pTable.pageShift p.pTable.pTable v
      (p.pagePtr * p.frameBytes) n ⟨clobber, false, false⟩)) (hptr : ptr = p.pagePtr + n) :
    Below { p with pagePtr := ptr, pTable := t } := by
  intro u e he
  have hshift : frameBytes { p with pagePtr := ptr, pTable := t } = p.frameBytes := by
    rw [frameBytes, frameBytes, hkeeps.pageShift]
  change t.pTable u = some e at he
  rw [hshift, hptr, add_mul]
  rw [hkeeps.pTable] at he
  by_cases hin : InPages p.pageBytes v n u
  · obtain ⟨i, hi, rfl⟩ := hin
    have hpage := PageMap.map_page p.pTable.pageShift p.pTable.pTable v
      (p.pagePtr * p.frameBytes) ⟨clobber, false, false⟩ hi
    rw [show p.pageBytes = 2 ^ p.pTable.pageShift from rfl, hpage] at he
    cases he
    change p.pagePtr * p.frameBytes + i * p.frameBytes + p.frameBytes ≤ _
    have hle := Nat.mul_le_mul_right p.frameBytes hi
    rw [Nat.succ_mul] at hle
    omega
  · rw [show PageMap.map _ _ _ _ _ _ u = _ from if_neg hin] at he
    have := hbelow u e he
    omega

section

variable (h : p.Sound)

include h

lemma Sound.allocateMem (hok : p.allocateMem v size clobber = .ok p') : p'.Sound := by
  obtain ⟨base, ptr, t, halloc, -, -, hkeeps, rfl⟩ := allocateMem_ok hok
  have hsize : pageBytes { p with pagePtr := ptr, pTable := t } = p.pageBytes := hkeeps.pageSize
  refine ⟨by rw [hsize]; exact h.aligned, fun hmem => ?_⟩
  have hwindow : windowFrame { p with pagePtr := ptr, pTable := t } = p.windowFrame := by
    rw [windowFrame, windowFrame, frameBytes, frameBytes, hkeeps.pageShift]
  rw [hwindow] at hmem
  obtain ⟨rfl, hptr⟩ := allocPhysPages_below hmem halloc
  exact (h.below hmem).of_map hkeeps hptr

lemma Sound.of_frames (hshift : p'.pTable.pageShift = p.pTable.pageShift)
    (hptr : p'.pagePtr = p.pagePtr) (hmem : p'.memSize = p.memSize)
    (hend : p.pageBytes ∣ p'.mmapEnd) (htable : ∀ v e, p'.pTable.pTable v = some e →
      ∃ u e', p.pTable.pTable u = some e' ∧ (e.paddr = e'.paddr ∨ e.paddr = 0)) : p'.Sound := by
  have hbytes : p'.frameBytes = p.frameBytes := by rw [frameBytes, frameBytes, hshift]
  have hsize : p'.pageBytes = p.pageBytes := by rw [← coe_frameBytes, ← coe_frameBytes, hbytes]
  refine ⟨by rwa [hsize], fun hlt v e he => ?_⟩
  rw [hmem, windowFrame, hbytes] at hlt
  obtain ⟨u, e', he', hpaddr⟩ := htable v e he
  have hbelow := h.below hlt u e' he'
  rw [hbytes, hptr]
  rcases hpaddr with hpaddr | hpaddr
  · rwa [hpaddr]
  · omega

lemma Sound.touch (v : ℤ) : (p.touch v).Sound := by
  have hkeeps := p.pTable.keeps_lookup v
  refine h.of_frames hkeeps.pageShift rfl rfl h.aligned fun u e he => ?_
  change (p.pTable.lookup v).2.pTable u = some e at he
  rw [hkeeps.pTable] at he
  exact ⟨u, e, he, Or.inl rfl⟩

omit h in
lemma stable_sound : Stable (fun _ => True) Sound :=
  ⟨fun h _ hok => h.allocateMem hok, fun v h => h.touch v, fun _ h => { h with },
    fun _ h => { h with }⟩

lemma dvd_movedEnd (a : MmapArgs) : p.pageBytes ∣ p.movedEnd a := by
  rw [movedEnd]
  split_ifs
  · exact h.aligned
  · exact dvd_sub h.aligned (p.dvd_roundUp _)
  · exact dvd_add h.aligned (p.dvd_roundUp _)

lemma Sound.mmapFunc (hok : p.mmapFunc a = .ok (r, p')) : p'.Sound := by
  rcases mmapFunc_ok hok with rfl | hok
  · exact h
  · refine Sound.allocateMem ?_ hok
    exact ⟨dvd_movedEnd h a, h.below⟩

lemma Sound.remap (hok : p.pTable.remap v size w = .ok t) : Sound { p with pTable := t } := by
  rw [FuncPageTable.remap] at hok
  split_ifs at hok
  have hpaddr := FuncPageTable.paddr_remapLoop
    (Q := fun x => ∃ u e', p.pTable.pTable u = some e' ∧ (x = e'.paddr ∨ x = 0)) hok
    (fun u e he => ⟨u, e, he, Or.inl rfl⟩) fun u e he => ⟨u, e, he, Or.inr rfl⟩
  exact h.of_frames hpaddr.1 rfl rfl h.aligned hpaddr.2

lemma Sound.unmap (hok : p.pTable.unmap v size = .ok t) : Sound { p with pTable := t } := by
  rw [FuncPageTable.unmap] at hok
  split_ifs at hok
  have hkeeps := FuncPageTable.keeps_unmapLoop hok
  refine h.of_frames hkeeps.pageShift rfl rfl h.aligned fun u e he => ?_
  change t.pTable u = some e at he
  rw [hkeeps.pTable, PageMap.unmap] at he
  split_ifs at he
  exact ⟨u, e, he, Or.inl rfl⟩

lemma Sound.mremapFunc {a : MremapArgs} (hok : p.mremapFunc a = .ok (r, p')) : p'.Sound := by
  rcases mremapFunc_ok hok with rfl | ⟨-, -, hstart, hend, p₁, hp₁, rfl⟩ |
    ⟨newStart, t, p₁, -, -, -, ht, hp₁, rfl⟩ | ⟨t, t', -, ht, ht', rfl⟩
  · exact h
  · have hsound := h.allocateMem hp₁
    refine ⟨?_, hsound.below⟩
    -- the region's new end is a page boundary
    have hnewEnd : p.mmapEnd + (p.roundUp a.newLength - a.oldLength) =
        a.start + p.roundUp a.newLength := by
      rw [← hend]
      ring
    change p₁.pageBytes ∣ _
    rw [pageBytes_allocateMem hp₁, hnewEnd]
    exact dvd_add hstart (p.dvd_roundUp _)
  · have hsound := (h.remap ht).allocateMem hp₁
    refine ⟨?_, hsound.below⟩
    have hsize : p₁.pageBytes = p.pageBytes := by
      rw [pageBytes_allocateMem hp₁, pageBytes, pageBytes, FuncPageTable.pageSize,
        FuncPageTable.pageSize, FuncPageTable.pageShift_remap ht]
    change p₁.pageBytes ∣ _
    rw [hsize]
    split_ifs
    · exact h.aligned
    · exact dvd_add h.aligned (p.dvd_roundUp _)
  · rcases ht with rfl | ⟨newStart, -, -, ht⟩
    · exact h.unmap ht'
    · exact (h.remap ht).unmap ht'

lemma Sound.perform {sys : Sys} (hok : p.perform sys = .ok p') : p'.Sound := by
  cases sys with
  | mmap a =>
    obtain ⟨⟨r, p₁⟩, hp₁, rfl⟩ := map_ok hok
    exact h.mmapFunc hp₁
  | mremap a =>
    obtain ⟨⟨r, p₁⟩, hp₁, rfl⟩ := map_ok hok
    exact h.mremapFunc hp₁
  | brk newBrk => exact stable_sound.brkFunc (fun _ _ _ _ => trivial) h hok
  | growStack v =>
    obtain ⟨⟨grown, p₁⟩, hp₁, rfl⟩ := map_ok hok
    exact stable_sound.fixupStackFault (fun _ _ => trivial) (fun _ _ => trivial) h hp₁
  | lookup v =>
    cases hok
    exact h.touch v

omit h in
/-- **Every state of a process is sound.** -/
lemma Run.sound {condition : Process → Sys → Prop} (h : Run Sound condition p) : p.Sound := by
  induction h with
  | init h => exact h
  | step _ _ hok ih => exact ih.perform hok

lemma pageOffset_picked (ha : p.pageBytes ∣ a.start) : p.pTable.pageOffset (p.picked a) = 0 := by
  have hdvd : p.pageBytes ∣ p.picked a := by
    rw [picked]
    split_ifs
    · exact ha
    · exact dvd_sub h.aligned (p.dvd_roundUp _)
    · exact h.aligned
  exact Int.emod_eq_zero_of_dvd hdvd

/-- A call goes well if its pages and frames are free. -/
lemma exists_mmapFunc (hfixed : a.fixed = false)
    (hfile : a.anonymous = true ∨ a.validFD = true) (hstart : p.pageBytes ∣ a.start)
    (hoffset : p.pageBytes ∣ a.offset)
    (hmem : p.allocPhysPages (p.pTable.rounds a.length) = .ok (base, ptr))
    (hfree : ∀ i < p.pTable.rounds a.length,
      p.pTable.pTable (p.picked a + (i : ℕ) * p.pageBytes) = none)
    (hframes : p.FramesFree base (p.pTable.rounds a.length)) :
    ∃ r p', p.mmapFunc a = .ok (.ok r, p') ∧ p.FreshRegion p' r (p.pTable.rounds a.length) := by
  have hrounds : p.pTable.rounds (p.roundUp a.length) = p.pTable.rounds a.length :=
    p.rounds_roundUp (Int.natCast_nonneg _)
  have hfunc : p.mmapFunc a =
      (allocateMem { p with mmapEnd := p.movedEnd a } (p.picked a) (p.roundUp a.length) false).map
        fun p' => (.ok (p.picked a), p') := by
    rw [mmapFunc, if_neg (by rcases hfile with h | h <;> simp [h]),
      if_neg (by simp [Int.emod_eq_zero_of_dvd hstart, Int.emod_eq_zero_of_dvd hoffset]),
      if_neg (by simp [hfixed])]
  have halloc : allocPhysPages { p with mmapEnd := p.movedEnd a }
      (p.pTable.rounds (p.roundUp a.length)) = .ok (base, ptr) := by
    rw [hrounds]
    exact hmem
  obtain ⟨t, ht, hkeeps⟩ := exists_allocateMem { p with mmapEnd := p.movedEnd a } (p.picked a)
    (p.roundUp a.length) false halloc (pageOffset_picked h hstart) fun _ => by
      change ∀ i < p.pTable.rounds (p.roundUp a.length), _
      rw [hrounds]
      exact hfree
  have htable := hkeeps.pTable
  change t.pTable = PageMap.map _ p.pTable.pTable _ _ (p.pTable.rounds (p.roundUp a.length)) _
    at htable
  rw [hrounds] at htable
  exact ⟨_, _, by rw [hfunc, ht]; rfl, (freshRegion_iff htable).mpr ⟨hfree, hframes⟩⟩

end

/-! ### The region ahead of the mmap pointer -/

/-- The start of the region ahead of the mmap pointer, towards `lim`. -/
def bottom (p : Process) (lim : ℤ) : ℤ := if p.mmapGrowsDown then lim else p.mmapEnd

/-- The end of that region. -/
def top (p : Process) (lim : ℤ) : ℤ := if p.mmapGrowsDown then p.mmapEnd else lim

def Ahead (p : Process) (lim v : ℤ) : Prop := p.bottom lim ≤ v ∧ v < p.top lim

/-- Up to `lim` no page is in the mmap pointer's way, and the stack stays above. -/
structure Cleared (lim : ℤ) (p : Process) : Prop where
  sound : p.Sound
  dvd_lim : p.pageBytes ∣ lim
  free : ∀ v, p.Ahead lim v → p.pTable.pTable v = none
  stackMin : p.top lim ≤ p.stackMin
  maxStack : p.top lim ≤ p.stackBase - p.maxStackSize

/-- **The condition on a call**: what it maps elsewhere is clear of the region ahead, what it takes
there ends before `lim`. With a pointer that moves down there is no `mremap`. -/
def Admits (lim : ℤ) (p : Process) : Sys → Prop
  | .mmap a =>
    if p.usesProvided a then
      ∀ i < p.pTable.rounds a.length, ¬ p.Ahead lim (a.start + (i : ℕ) * p.pageBytes)
    else p.bottom lim + p.roundUp a.length ≤ p.top lim
  | .mremap a => p.mmapGrowsDown = false ∧
    (a.fixed = true → ∀ size newStart, p.remapOf a = some (size, newStart) →
      ∀ i < p.pTable.rounds a.newLength, ¬ p.Ahead lim (newStart + (i : ℕ) * p.pageBytes))
  | .brk newBrk => ∀ v, p.roundDown p.brkPoint ≤ v → v < newBrk → ¬ p.Ahead lim v
  | _ => True

variable {lim : ℤ}

lemma allocateMem_of_not_inPages {u : ℤ} (hok : p.allocateMem v size clobber = .ok p')
    (hu : ¬ InPages p.pageBytes v (p.pTable.rounds size) u) :
    p'.pTable.pTable u = p.pTable.pTable u := by
  obtain ⟨base, ptr, t, -, -, -, hkeeps, rfl⟩ := allocateMem_ok hok
  change t.pTable u = _
  rw [hkeeps.pTable]
  exact if_neg hu

lemma rounds_pageBytes (p : Process) : p.pTable.rounds p.pageBytes = 1 := by
  have h := p.rounds_mul_pageBytes p.pageBytes_pos.le
  rw [p.roundUp_of_dvd dvd_rfl] at h
  exact_mod_cast mul_right_cancel₀ p.pageBytes_pos.ne' (h.trans (one_mul _).symm)

lemma lt_rounds_iff (p : Process) {len : ℤ} (hlen : 0 ≤ len) {i : ℕ} :
    i < p.pTable.rounds len ↔ (i : ℕ) * p.pageBytes < p.roundUp len := by
  rw [← p.rounds_mul_pageBytes hlen, mul_lt_mul_iff_left₀ p.pageBytes_pos, Nat.cast_lt]

/-- What a call that maps or moves pages leaves as it is. -/
structure SameLayout (p p' : Process) : Prop where
  pageBytes : p'.pageBytes = p.pageBytes
  mmapGrowsDown : p'.mmapGrowsDown = p.mmapGrowsDown
  stackMin : p'.stackMin = p.stackMin
  stackBase : p'.stackBase = p.stackBase
  maxStackSize : p'.maxStackSize = p.maxStackSize

lemma sameLayout_allocateMem (hok : p.allocateMem v size clobber = .ok p') :
    p.SameLayout p' ∧ p'.mmapEnd = p.mmapEnd := by
  have hsize := pageBytes_allocateMem hok
  obtain ⟨_, _, _, -, -, -, -, rfl⟩ := allocateMem_ok hok
  exact ⟨⟨hsize, rfl, rfl, rfl, rfl⟩, rfl⟩

section

variable (h : p.Cleared lim)

include h

lemma Cleared.dvd_top : p.pageBytes ∣ p.top lim := by
  rw [top]
  split_ifs
  · exact h.sound.aligned
  · exact h.dvd_lim

omit h in
/-- Pages added elsewhere keep the region ahead clear. -/
lemma stable_cleared (lim b t s : ℤ) : Stable (fun v => ¬ (b ≤ v ∧ v < t)) fun p =>
    p.Cleared lim ∧ p.bottom lim = b ∧ p.top lim = t ∧ p.pageBytes = s where
  allocateMem := by
    rintro p p' v ⟨h, rfl, rfl, rfl⟩ hv hok
    have hsize := pageBytes_allocateMem hok
    have hsound := h.sound.allocateMem hok
    have hfree : ∀ u, p.Ahead lim u → p'.pTable.pTable u = none := by
      intro u hu
      rw [allocateMem_of_not_inPages hok, h.free u hu]
      rw [rounds_pageBytes, inPages_succ, not_or]
      refine ⟨?_, not_inPages_zero⟩
      rintro rfl
      exact hv hu
    obtain ⟨_, _, _, -, -, -, -, rfl⟩ := allocateMem_ok hok
    exact ⟨⟨hsound, by rw [hsize]; exact h.dvd_lim, hfree, h.stackMin, h.maxStack⟩, rfl, rfl, hsize⟩
  touch := by
    rintro p v ⟨h, rfl, rfl, rfl⟩
    have hkeeps := p.pTable.keeps_lookup v
    refine ⟨⟨h.sound.touch v, ?_, fun u hu => ?_, h.stackMin, h.maxStack⟩, rfl, rfl,
      hkeeps.pageSize⟩
    · rw [show (p.touch v).pageBytes = p.pageBytes from hkeeps.pageSize]
      exact h.dvd_lim
    · change (p.pTable.lookup v).2.pTable u = none
      rw [hkeeps.pTable]
      exact h.free u hu
  stackMin := by
    rintro p x hx ⟨h, rfl, rfl, rfl⟩
    exact ⟨⟨{ h.sound with }, h.dvd_lim, h.free, h.maxStack.trans hx, h.maxStack⟩, rfl, rfl, rfl⟩
  brkPoint := by
    rintro p x ⟨h, rfl, rfl, rfl⟩
    exact ⟨⟨{ h.sound with }, h.dvd_lim, h.free, h.stackMin, h.maxStack⟩, rfl, rfl, rfl⟩

end

lemma le_roundDown {b : ℤ} (hb : p.pageBytes ∣ b) (hv : b ≤ v) : b ≤ p.roundDown v := by
  obtain ⟨k, rfl⟩ := hb
  have hk : k ≤ v / p.pageBytes := Int.le_ediv_of_mul_le p.pageBytes_pos (by rwa [mul_comm])
  rw [mul_comm]
  exact mul_le_mul_of_nonneg_right hk p.pageBytes_pos.le

lemma roundDown_chunk {newBrk : ℤ} (hv : v ∈ p.brkChunks newBrk) :
    p.roundDown p.brkPoint ≤ p.roundDown v ∧ p.roundDown v < newBrk := by
  obtain ⟨i, hi, rfl⟩ := mem_map.mp hv
  have hstart : p.pageBytes ∣ p.roundDown p.brkPoint := Dvd.intro_left _ rfl
  have hpos : 0 ≤ (i : ℕ) * p.pageBytes := mul_nonneg (Int.natCast_nonneg _) p.pageBytes_pos.le
  -- a chunk begins in its own page
  have hpage : p.roundDown (if i = 0 then p.brkPoint
      else p.roundDown p.brkPoint + (i : ℕ) * p.pageBytes) =
      p.roundDown p.brkPoint + (i : ℕ) * p.pageBytes := by
    split_ifs with hzero
    · simp [hzero]
    · exact Int.ediv_mul_cancel (dvd_add hstart (Dvd.intro_left _ rfl))
  refine ⟨by omega, ?_⟩
  by_contra hge
  have hlt : ((i : ℕ) : ℤ) < roundsOf p.pageBytes (newBrk - p.roundDown p.brkPoint) := by
    exact_mod_cast mem_range.mp hi
  rw [roundsOf] at hlt
  have hnew : (newBrk - p.roundDown p.brkPoint + p.pageBytes - 1) / p.pageBytes < i + 1 := by
    refine Int.ediv_lt_of_lt_mul p.pageBytes_pos ?_
    rw [add_mul, one_mul]
    omega
  omega

lemma inPages_of_grown {old len start : ℤ} (hold : 0 ≤ old) (hdvd : p.pageBytes ∣ old)
    (hlen : 0 ≤ len) (hle : old ≤ p.roundUp len)
    (hv : InPages p.pageBytes start (p.pTable.rounds old) v ∨
      InPages p.pageBytes (start + old) (p.pTable.rounds (p.roundUp len - old)) v) :
    InPages p.pageBytes start (p.pTable.rounds len) v := by
  rcases hv with ⟨i, hi, rfl⟩ | ⟨i, hi, rfl⟩
  · rw [p.lt_rounds_iff hold, p.roundUp_of_dvd hdvd] at hi
    exact ⟨i, (p.lt_rounds_iff hlen).mpr (by omega), rfl⟩
  · rw [p.lt_rounds_iff (by omega), p.roundUp_of_dvd (dvd_sub (p.dvd_roundUp _) hdvd)] at hi
    obtain ⟨k, rfl⟩ := hdvd
    lift k to ℕ using nonneg_of_mul_nonneg_right hold p.pageBytes_pos
    refine ⟨k + i, (p.lt_rounds_iff hlen).mpr ?_, ?_⟩
    · push_cast
      linarith
    · push_cast
      ring

section

variable (h : p.Cleared lim)

include h

lemma Cleared.fixupStackFault {grown : Bool} (hok : p.fixupStackFault v = .ok (grown, p')) :
    p'.Cleared lim := by
  refine ((stable_cleared lim _ _ _).fixupStackFault (fun u hu => ?_) (fun u hu => ?_)
    ⟨h, rfl, rfl, rfl⟩ hok).1
  · exact fun hin => absurd hin.2 (not_lt.mpr (le_roundDown h.dvd_top (h.stackMin.trans hu)))
  · exact fun hin => absurd hin.2 (not_lt.mpr (h.maxStack.trans hu))

lemma Cleared.brkFunc {newBrk : ℤ} (hadmits : p.Admits lim (.brk newBrk))
    (hok : p.brkFunc newBrk = .ok p') : p'.Cleared lim := by
  refine ((stable_cleared lim _ _ _).brkFunc (fun b hb u hu => ?_) ⟨h, rfl, rfl, rfl⟩ hok).1
  have hsame : b.roundDown u = p.roundDown u := by
    have hsize : b.pTable.pageSize = p.pTable.pageSize := hb.2.2.2
    rw [roundDown, roundDown, FuncPageTable.pageAlign, FuncPageTable.pageAlign, hsize]
  rw [hsame]
  obtain ⟨hle, hlt⟩ := roundDown_chunk hu
  exact hadmits _ hle hlt

/-- The pointer moves on; what is mapped is behind it or elsewhere. -/
lemma Cleared.of_moved (hsound : p'.Sound) (hsame : p.SameLayout p')
    (hmoved : if p.mmapGrowsDown then p'.mmapEnd ≤ p.mmapEnd else p.mmapEnd ≤ p'.mmapEnd)
    (hfree : ∀ v, p'.Ahead lim v → p.pTable.pTable v = none → p'.pTable.pTable v = none) :
    p'.Cleared lim := by
  have htop : p'.top lim ≤ p.top lim := by
    rw [top, top, hsame.mmapGrowsDown]
    split_ifs at hmoved ⊢
    · exact hmoved
    · exact le_rfl
  have hbottom : p.bottom lim ≤ p'.bottom lim := by
    rw [bottom, bottom, hsame.mmapGrowsDown]
    split_ifs at hmoved ⊢
    · exact le_rfl
    · exact hmoved
  refine ⟨hsound, by rw [hsame.pageBytes]; exact h.dvd_lim, fun v hv => ?_, ?_, ?_⟩
  · exact hfree v hv (h.free v ⟨hbottom.trans hv.1, hv.2.trans_le htop⟩)
  · rw [hsame.stackMin]
    exact htop.trans h.stackMin
  · rw [hsame.stackBase, hsame.maxStackSize]
    exact htop.trans h.maxStack

lemma Cleared.mmapFunc (hadmits : p.Admits lim (.mmap a)) (hok : p.mmapFunc a = .ok (r, p')) :
    p'.Cleared lim := by
  have hsound := h.sound.mmapFunc hok
  rcases mmapFunc_ok hok with rfl | hok
  · exact h
  have hlen : p.pTable.rounds (p.roundUp a.length) = p.pTable.rounds a.length :=
    p.rounds_roundUp (Int.natCast_nonneg _)
  have hnonneg : 0 ≤ p.roundUp a.length := (Int.natCast_nonneg _).trans (p.le_roundUp _)
  have hframe : ∀ v, ¬ InPages p.pageBytes (p.picked a) (p.pTable.rounds a.length) v →
      p'.pTable.pTable v = p.pTable.pTable v := by
    intro v hv
    rw [← hlen] at hv
    have hsame := allocateMem_of_not_inPages (u := v) hok hv
    exact hsame
  obtain ⟨hsame, hend⟩ := sameLayout_allocateMem hok
  have hend : p'.mmapEnd = p.movedEnd a := hend
  refine h.of_moved hsound { hsame with } ?_ fun v hv hnone => ?_
  · rw [hend, movedEnd]
    split_ifs <;> omega
  · rw [hframe v, hnone]
    rintro ⟨i, hi, rfl⟩
    rw [Ahead, bottom, top, hend, hsame.mmapGrowsDown] at hv
    rw [Admits] at hadmits
    have hlt := (p.lt_rounds_iff (Int.natCast_nonneg _)).mp hi
    have hpos : 0 ≤ (i : ℕ) * p.pageBytes := mul_nonneg (Int.natCast_nonneg _) p.pageBytes_pos.le
    by_cases hprovided : p.usesProvided a = true
    · rw [if_pos hprovided] at hadmits
      rw [movedEnd, if_pos hprovided, picked, if_pos hprovided] at hv
      exact hadmits i hi hv
    · rw [movedEnd, if_neg hprovided, picked, if_neg hprovided] at hv
      split_ifs at hv <;> omega

lemma Cleared.mremapFunc {a : MremapArgs} (hadmits : p.Admits lim (.mremap a))
    (hok : p.mremapFunc a = .ok (r, p')) : p'.Cleared lim := by
  have hsound := h.sound.mremapFunc hok
  obtain ⟨hdown, htarget⟩ := hadmits
  rcases mremapFunc_ok hok with rfl | ⟨-, hgrow, hstart, hend, p₁, hp₁, rfl⟩ |
    ⟨newStart, t, p₁, hgrow, -, hof, ht, hp₁, rfl⟩ | ⟨t, t', -, ht, ht', rfl⟩
  · exact h
  · obtain ⟨hsame, -⟩ := sameLayout_allocateMem hp₁
    refine h.of_moved hsound { hsame with } (by rw [if_neg (by simp [hdown])]; dsimp only; omega)
      fun v hv hnone => ?_
    -- the region ends at an aligned pointer, so it has grown by whole pages
    have hdvd : p.pageBytes ∣ p.roundUp a.newLength - a.oldLength :=
      dvd_sub (p.dvd_roundUp _) ((Int.dvd_add_right hstart).mp (hend ▸ h.sound.aligned))
    change p₁.pTable.pTable v = none
    rw [allocateMem_of_not_inPages hp₁, hnone]
    rintro ⟨i, hi, rfl⟩
    have hlt := (p.lt_rounds_iff (by omega)).mp hi
    rw [p.roundUp_of_dvd hdvd] at hlt
    rw [Ahead, bottom, show p₁.mmapGrowsDown = false from hsame.mmapGrowsDown.trans hdown] at hv
    simp only [Bool.false_eq_true, if_false] at hv
    omega
  · obtain ⟨hsame, -⟩ := sameLayout_allocateMem hp₁
    have hsize := FuncPageTable.pageSize_remap ht
    have hdvd : p.pageBytes ∣ (a.oldLength : ℤ) := by
      obtain ⟨_, _, _, -, hoffset, -⟩ := allocateMem_ok hp₁
      have hoffset : (newStart + a.oldLength) % t.pageSize = 0 := hoffset
      rw [hsize] at hoffset
      exact (Int.dvd_add_right (FuncPageTable.dvd_of_remap ht)).mp (Int.dvd_of_emod_eq_zero hoffset)
    refine h.of_moved hsound ⟨hsame.pageBytes.trans hsize, hsame.mmapGrowsDown, hsame.stackMin,
      hsame.stackBase, hsame.maxStackSize⟩ ?_ fun v hv hnone => ?_
    · rw [if_neg (by simp [hdown])]
      dsimp only
      split_ifs <;> omega
    -- the pages of the target are behind the pointer, or elsewhere
    have hout : ¬ InPages p.pageBytes newStart (p.pTable.rounds a.newLength) v := by
      rintro ⟨i, hi, rfl⟩
      rw [Ahead, bottom, top,
        show p₁.mmapGrowsDown = false from hsame.mmapGrowsDown.trans hdown] at hv
      simp only [Bool.false_eq_true, if_false] at hv
      split_ifs at hv with hfixed
      · refine htarget hfixed _ _ hof i hi ?_
        rw [Ahead, bottom, top, hdown]
        exact hv
      · have hstart : newStart = p.mmapEnd := by
          rw [remapOf, if_pos hgrow] at hof
          split_ifs at hof
          exact (Prod.mk.inj (Option.some.inj hof)).2.symm
        have hlt := (p.lt_rounds_iff (Int.natCast_nonneg _)).mp hi
        omega
    have hparts := fun hv => hout (inPages_of_grown (Int.natCast_nonneg _) hdvd
      (Int.natCast_nonneg _) hgrow.le hv)
    have hmoved := FuncPageTable.remap_of_not_inPages ht fun hv => hparts (Or.inl hv)
    have hadded : p₁.pTable.pTable v = t.pTable v := by
      have hframe := allocateMem_of_not_inPages (u := v) hp₁ (by
        change ¬ InPages t.pageSize _ (t.rounds _) v
        rw [hsize, FuncPageTable.rounds_remap ht]
        exact fun hv => hparts (Or.inr hv))
      exact hframe
    change p₁.pTable.pTable v = none
    rw [hadded, hmoved, hnone, ite_self]
  · have hkeeps : ∀ v, t.pTable v = none → t'.pTable v = none := by
      intro v hv
      rw [FuncPageTable.unmap] at ht'
      split_ifs at ht'
      rw [(FuncPageTable.keeps_unmapLoop ht').pTable, PageMap.unmap, hv, ite_self]
    have hsize : t'.pageSize = p.pTable.pageSize := by
      rw [FuncPageTable.pageSize, FuncPageTable.pageSize, FuncPageTable.pageShift_unmap ht']
      rcases ht with rfl | ⟨_, -, -, ht⟩
      · rfl
      · rw [FuncPageTable.pageShift_remap ht]
    refine h.of_moved hsound ⟨hsize, rfl, rfl, rfl, rfl⟩ (by split_ifs <;> exact le_rfl)
      fun v hv hnone => hkeeps v ?_
    rcases ht with rfl | ⟨newStart, hfixed, hof, ht⟩
    · exact hnone
    · rw [FuncPageTable.remap_of_not_inPages ht, hnone, ite_self]
      rintro ⟨i, hi, rfl⟩
      rw [p.rounds_roundUp (Int.natCast_nonneg _)] at hi
      exact htarget hfixed _ _ hof i hi hv

lemma Cleared.perform {sys : Sys} (hadmits : p.Admits lim sys) (hok : p.perform sys = .ok p') :
    p'.Cleared lim := by
  cases sys with
  | mmap a =>
    obtain ⟨⟨r, p₁⟩, hp₁, rfl⟩ := map_ok hok
    exact h.mmapFunc hadmits hp₁
  | mremap a =>
    obtain ⟨⟨r, p₁⟩, hp₁, rfl⟩ := map_ok hok
    exact h.mremapFunc hadmits hp₁
  | brk newBrk => exact h.brkFunc hadmits hok
  | growStack v =>
    obtain ⟨⟨grown, p₁⟩, hp₁, rfl⟩ := map_ok hok
    exact h.fixupStackFault hp₁
  | lookup v =>
    cases hok
    exact ((stable_cleared lim _ _ _).touch v ⟨h, rfl, rfl, rfl⟩).1

end

/-- **Nothing gets in the mmap pointer's way** in such a run. -/
lemma Run.cleared (h : Run (Cleared lim) (Admits lim) p) : p.Cleared lim := by
  induction h with
  | init h => exact h
  | step _ hadmits hok ih => exact ih.perform hadmits hok

/-- The pages of the region that a call picks are free. -/
lemma Cleared.free_picked (h : p.Cleared lim) (hadmits : p.Admits lim (.mmap a)) :
    ∀ i < p.pTable.rounds a.length, p.pTable.pTable (p.picked a + (i : ℕ) * p.pageBytes) =
      none := by
  intro i hi
  have hlt := (p.lt_rounds_iff (Int.natCast_nonneg _)).mp hi
  have hpos : 0 ≤ (i : ℕ) * p.pageBytes := mul_nonneg (Int.natCast_nonneg _) p.pageBytes_pos.le
  rw [Admits] at hadmits
  rw [picked]
  split_ifs at hadmits with hprovided
  · -- the hint has been found unmapped
    rw [if_pos hprovided]
    rw [usesProvided, Bool.and_eq_true, FuncPageTable.isUnmapped, all_eq_true] at hprovided
    rw [← p.rounds_roundUp (Int.natCast_nonneg _)] at hi
    exact Option.isNone_iff_eq_none.mp (hprovided.2 i (mem_range.mpr hi))
  · refine h.free _ ?_
    rw [Ahead]
    rw [bottom, top] at hadmits ⊢
    split_ifs at hadmits ⊢ <;> omega

/-- **Fresh regions.** In every run that keeps the way of the mmap pointer clear, a call without
`MAP_FIXED` that does so returns, as long as frames are left and the memory ends below the m5
window, pages that were not mapped, each with a frame of its own, and changes no other page. -/
theorem mmap_fresh {a : MmapArgs} (h : Run (Cleared lim) (Admits lim) p)
    (hwindow : p.memSize < p.windowFrame) (hfixed : a.fixed = false)
    (hfile : a.anonymous = true ∨ a.validFD = true) (hstart : p.pageBytes ∣ a.start)
    (hoffset : p.pageBytes ∣ a.offset) (hadmits : p.Admits lim (.mmap a))
    (hmem : p.allocPhysPages (p.pTable.rounds a.length) = .ok (base, ptr)) :
    ∃ r p', p.mmapFunc a = .ok (.ok r, p') ∧ p.FreshRegion p' r (p.pTable.rounds a.length) := by
  have hcleared := h.cleared
  exact exists_mmapFunc hcleared.sound hfixed hfile hstart hoffset hmem
    (hcleared.free_picked hadmits) (hcleared.sound.framesFree hwindow hmem)

/-- A 64-bit process without pages, with one megabyte of memory. -/
def bare : Process :=
  ⟨.init 12, 0, 0x100000, 0, 0x7ffffffff000, 0x7fffffffe000, 0x800000, 0x2aaaaaaab000, false⟩

lemma sound_bare : bare.Sound := ⟨by decide, fun _ _ _ h => by cases h⟩

def anonymous (start : ℤ) (length : ℕ) : MmapArgs := ⟨start, length, true, false, false, 0⟩

lemma run_after (calls : List Sys) (h : calls.foldlM perform bare = .ok p) :
    Run Sound (fun _ _ => True) p :=
  foldlM_ok (fun _ _ _ _ hrun hok => hrun.step trivial hok) (.init sound_bare) h

/-- Up to the largest stack the way is clear. -/
lemma cleared_bare : bare.Cleared 0x7fffff7ff000 :=
  ⟨sound_bare, by decide, fun _ _ => rfl, by decide, by decide⟩

/-- Two pages at a hint are moved to the mmap pointer, heap and stack grow, a call takes two pages.
-/
theorem mmap_fresh_moved : ∃ p r p', [.mmap (anonymous 0x10000 8192),
      .mremap ⟨0x10000, 8192, 12000, true, false, 0⟩, .brk 0x5000,
      .growStack 0x7fffffffd000].foldlM perform bare = .ok p ∧
    p.mmapFunc (anonymous 0 5000) = .ok (.ok r, p') ∧ p.FreshRegion p' r 2 := by
  have h₀ : Run (Cleared 0x7fffff7ff000) (Admits 0x7fffff7ff000) bare := .init cleared_bare
  have hhint : Admits 0x7fffff7ff000 bare (.mmap (anonymous 0x10000 8192)) := by
    intro i hi h
    have hlow : (0x2aaaaaaab000 : ℤ) ≤ 0x10000 + (i : ℕ) * 4096 := h.1
    have hi : i < 2 := hi
    omega
  have h₁ := h₀.step hhint rfl
  have h₂ := @Run.step _ _ _ _ (.mremap ⟨0x10000, 8192, 12000, true, false, 0⟩) h₁
    ⟨rfl, fun h => by cases h⟩ rfl
  have h₃ := @Run.step _ _ _ _ (.brk 0x5000) h₂ (by
    intro v _ hv h
    have hlow : (0x2aaaaaaae000 : ℤ) ≤ v := h.1
    omega) rfl
  have h₄ := @Run.step _ _ _ _ (.growStack 0x7fffffffd000) h₃ trivial rfl
  obtain ⟨r, p', hok, hfresh⟩ := mmap_fresh (a := anonymous 0 5000) h₄ (by decide +kernel) rfl
    (Or.inl rfl) (by decide) (by decide) (by
      rw [Admits, if_neg (by decide +kernel)]
      decide +kernel) rfl
  exact ⟨_, r, p', rfl, hok, hfresh⟩

/-- After a hint at the mmap pointer, or an `mremap` to it, a call takes the mapped page again. -/
theorem mmap_alreadyMapped :
    (∃ p, [.mmap (anonymous 0x2aaaaaaab000 4096)].foldlM perform bare = .ok p ∧
      p.mmapFunc (anonymous 0 4096) = .error (.alreadyMapped 0x2aaaaaaab000)) ∧
    ∃ p, [.mmap (anonymous 0x10000 4096),
        .mremap ⟨0x10000, 4096, 4096, true, true, 0x2aaaaaaab000⟩].foldlM perform bare = .ok p ∧
      p.mmapFunc (anonymous 0 4096) = .error (.alreadyMapped 0x2aaaaaaab000) := by
  constructor
  · exact ⟨_, rfl, rfl⟩
  · exact ⟨_, rfl, rfl⟩

/-! ### Frames that are handed out -/

/-- Calls of `allocPhysPages`: addresses with page counts. -/
def allocations (p : Process) : List ℕ → Except VmAbort (List (ℕ × ℕ))
  | [] => .ok []
  | n :: ns => (p.allocPhysPages n).bind fun (addr, pagePtr) =>
    (allocations { p with pagePtr := pagePtr } ns).map ((addr, n) :: ·)

/-- Ranges aligned, apart, in memory, outside the m5 window. -/
structure Placed (p : Process) (l : List (ℕ × ℕ)) : Prop where
  aligned : ∀ r ∈ l, p.frameBytes ∣ r.1
  apart : l.Pairwise fun r s => r.1 + r.2 * p.frameBytes ≤ s.1 ∨ s.1 + s.2 * p.frameBytes ≤ r.1
  inMemory : ∀ r ∈ l, r.1 + r.2 * p.frameBytes ≤ p.memSize
  outside : ∀ r ∈ l, r.1 + r.2 * p.frameBytes ≤ 0xffff0000 ∨ 0xffffffff < r.1

/-- From below the window a call ends below, with the frames at the pointer, or reaches into it. -/
lemma allocPhysPages_cases (h : p.allocPhysPages n = .ok (base, ptr))
    (hlow : p.pagePtr * p.frameBytes < 0xffff0000) :
    (p.pagePtr + n) * p.frameBytes < 0xffff0000 ∧ base = p.pagePtr * p.frameBytes ∧
        ptr = p.pagePtr + n ∧ (p.pagePtr + n) * p.frameBytes ≤ p.memSize ∨
      0xffff0000 ≤ (p.pagePtr + n) * p.frameBytes ∧
        ¬ (base + n * p.frameBytes ≤ 0xffff0000 ∨ 0xffffffff < base) := by
  rw [allocPhysPages, ← frameBytes] at h
  dsimp only at h
  split_ifs at h with hwindow hfull hfull
  · cases h
    exact .inr ⟨hwindow.1, by omega⟩
  · cases h
    rw [add_mul] at hwindow hfull ⊢
    by_cases hend : p.pagePtr * p.frameBytes + n * p.frameBytes < 0xffff0000
    · exact .inl ⟨hend, rfl, rfl, not_lt.mp hfull⟩
    · exact .inr ⟨not_lt.mp hend, by omega⟩

lemma placed_allocations {ns : List ℕ} {l : List (ℕ × ℕ)} (hpos : ∀ n ∈ ns, 0 < n)
    (h : p.allocations ns = .ok l) (hlow : (p.pagePtr + ns.sum) * p.frameBytes < 0xffff0000) :
    p.Placed l ∧ ∀ r ∈ l, p.pagePtr * p.frameBytes ≤ r.1 := by
  induction ns generalizing p l with
  | nil =>
    cases h
    exact ⟨⟨by simp, .nil, by simp, by simp⟩, by simp⟩
  | cons n ns ih =>
    obtain ⟨⟨base, ptr⟩, hcall, hok⟩ := bind_ok h
    obtain ⟨rest, hrest, rfl⟩ := map_ok hok
    rw [sum_cons, ← add_assoc, add_mul] at hlow
    have hend : (p.pagePtr + n) * p.frameBytes < 0xffff0000 := by omega
    have hstart : p.pagePtr * p.frameBytes + n * p.frameBytes = (p.pagePtr + n) * p.frameBytes :=
      (add_mul ..).symm
    obtain ⟨-, rfl, rfl, hmem⟩ | ⟨hge, -⟩ :=
      allocPhysPages_cases hcall (by omega)
    · obtain ⟨hplaced, hle⟩ := ih (fun m hm => hpos m (mem_cons_of_mem n hm)) hrest
        (by rw [add_mul]; exact hlow)
      refine ⟨⟨forall_mem_cons.mpr ⟨Dvd.intro_left _ rfl, hplaced.aligned⟩,
        pairwise_cons.mpr ⟨fun r hr => Or.inl ?_, hplaced.apart⟩,
        forall_mem_cons.mpr ⟨?_, hplaced.inMemory⟩,
        forall_mem_cons.mpr ⟨Or.inl ?_, hplaced.outside⟩⟩,
        forall_mem_cons.mpr ⟨le_rfl, fun r hr => ?_⟩⟩
      · exact hstart.trans_le (hle r hr)
      · exact hstart.trans_le hmem
      · exact hstart.trans_le hend.le
      · exact (Nat.mul_le_mul_right _ (Nat.le_add_right _ n)).trans (hle r hr)
    · omega

lemma low_of_outside {ns : List ℕ} {l : List (ℕ × ℕ)} (hpos : ∀ n ∈ ns, 0 < n)
    (h : p.allocations ns = .ok l) (hlow : p.pagePtr * p.frameBytes < 0xffff0000)
    (hplaced : ∀ r ∈ l, r.1 + r.2 * p.frameBytes ≤ 0xffff0000 ∨ 0xffffffff < r.1) :
    (p.pagePtr + ns.sum) * p.frameBytes < 0xffff0000 := by
  induction ns generalizing p l with
  | nil => simpa using hlow
  | cons n ns ih =>
    obtain ⟨⟨base, ptr⟩, hcall, hok⟩ := bind_ok h
    obtain ⟨rest, hrest, rfl⟩ := map_ok hok
    obtain ⟨hout, hplaced⟩ := forall_mem_cons.mp hplaced
    obtain ⟨hend, -, rfl, -⟩ | ⟨-, hin⟩ := allocPhysPages_cases hcall hlow
    · rw [sum_cons, ← add_assoc]
      exact ih (fun m hm => hpos m (mem_cons_of_mem n hm)) hrest hend hplaced
    · exact absurd hout hin

/-- **Frames from a new system** are placed well if and only if the pages handed out end below the
m5 window. -/
theorem allocations_placed_iff {ns : List ℕ} {l : List (ℕ × ℕ)} (hstart : p.pagePtr = 0)
    (hpos : ∀ n ∈ ns, 0 < n) (h : p.allocations ns = .ok l) :
    p.Placed l ↔ ns.sum * p.frameBytes < 0xffff0000 := by
  refine ⟨fun hplaced => ?_, fun hlow => (placed_allocations hpos h ?_).1⟩
  · simpa [hstart] using low_of_outside hpos h (by simp [hstart]) hplaced.outside
  · simpa [hstart] using hlow

/-- A system with 8 GiB of memory. -/
def roomy : Process := { bare with memSize := 2 ^ 33 }

theorem allocations_placed_roomy : roomy.allocations [1, 2] = .ok [(0, 1), (0x1000, 2)] ∧
    roomy.Placed [(0, 1), (0x1000, 2)] := by
  have hok : roomy.allocations [1, 2] = .ok [(0, 1), (0x1000, 2)] := by decide +kernel
  exact ⟨hok, (allocations_placed_iff rfl (by decide) hok).mpr (by decide)⟩

/-- The address is the window's last byte, and the next page is inside. -/
theorem allocations_window :
    roomy.allocations [0xfffef, 1, 1] = .ok [(0, 0xfffef), (0xffffffff, 1), (0xfffff000, 1)] ∧
      ¬ roomy.Placed [(0, 0xfffef), (0xffffffff, 1), (0xfffff000, 1)] := by
  refine ⟨by decide +kernel, fun h => ?_⟩
  exact absurd (h.aligned (0xffffffff, 1) (by simp)) (by decide)

end Process

end ShifDram
