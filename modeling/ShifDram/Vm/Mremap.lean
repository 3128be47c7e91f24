import ShifDram.Vm.Mmap

/-!
Regions that are resized (`mremapFunc`, `sim/syscall_emul.hh`).

`new_length` is rounded to pages and `old_length` is not: when a region grows, the pages that are
added start at `old_length` behind its start.
-/

namespace ShifDram

open Option

lemma inPages_drop {pageSize start a : ℤ} {k n : ℕ} :
    InPages pageSize (start + (k : ℕ) * pageSize) (n - k) a ↔
      ∃ i < n, k ≤ i ∧ start + (i : ℕ) * pageSize = a := by
  constructor
  · rintro ⟨i, hi, rfl⟩
    exact ⟨k + i, by omega, by omega, by push_cast; ring⟩
  · rintro ⟨i, hi, hk, rfl⟩
    refine ⟨i - k, by omega, ?_⟩
    push_cast [Nat.cast_sub hk]
    ring

namespace Process

variable {p p₁ p' : Process} {start r : ℤ} {old new base ptr : ℕ} {a b : ℤ}

/-- `old` pages at `start` have become `new` pages at `r`: common ones keep their frames, added ones
have their own, dropped ones are unmapped, no other changed. -/
structure Remapped (p p' : Process) (start : ℤ) (old : ℕ) (r : ℤ) (new : ℕ) : Prop where
  backed : ∀ i < old, i < new → ∃ e e', p.pTable.pTable (start + (i : ℕ) * p.pageBytes) = some e ∧
    p'.pTable.pTable (r + (i : ℕ) * p.pageBytes) = some e' ∧ e'.paddr = e.paddr
  added : ∀ i < new, old ≤ i → ∃ e, p'.pTable.pTable (r + (i : ℕ) * p.pageBytes) = some e ∧
    ∀ v e', p'.pTable.pTable v = some e' → v ≠ r + (i : ℕ) * p.pageBytes →
      FramesApart p.frameBytes e.paddr e'.paddr
  dropped : ∀ i < old, ¬ InPages p.pageBytes r new (start + (i : ℕ) * p.pageBytes) →
    p'.pTable.pTable (start + (i : ℕ) * p.pageBytes) = none
  kept : ∀ v, ¬ InPages p.pageBytes start old v → ¬ InPages p.pageBytes r new v →
    p'.pTable.pTable v = p.pTable.pTable v

/-- `old` pages stand at `r` on the same frames, with room for `new`. -/
structure Standing (p p₁ : Process) (start : ℤ) (old : ℕ) (r : ℤ) (new : ℕ) : Prop where
  pageShift : p₁.pTable.pageShift = p.pTable.pageShift
  backed : ∀ i < old, ∃ e e', p.pTable.pTable (start + (i : ℕ) * p.pageBytes) = some e ∧
    p₁.pTable.pTable (r + (i : ℕ) * p.pageBytes) = some e' ∧ e'.paddr = e.paddr
  room : ∀ i < new, old ≤ i → p₁.pTable.pTable (r + (i : ℕ) * p.pageBytes) = none
  left : ∀ i < old, ¬ InPages p.pageBytes r new (start + (i : ℕ) * p.pageBytes) →
    p₁.pTable.pTable (start + (i : ℕ) * p.pageBytes) = none
  kept : ∀ v, ¬ InPages p.pageBytes start old v → ¬ InPages p.pageBytes r new v →
    p₁.pTable.pTable v = p.pTable.pTable v
  frames : ∀ x : ℕ, (∃ v e, p₁.pTable.pTable v = some e ∧ e.paddr = x) ↔
    ∃ v e, p.pTable.pTable v = some e ∧ e.paddr = x

lemma Standing.framesFree_iff (h : Standing p p₁ start old r new) {n : ℕ} :
    p₁.FramesFree base n ↔ p.FramesFree base n := by
  have hbytes : p₁.frameBytes = p.frameBytes := by rw [frameBytes, frameBytes, h.pageShift]
  constructor
  · intro hfree i hi v e he
    obtain ⟨u, e', he', hpaddr⟩ := (h.frames e.paddr).mpr ⟨v, e, he, rfl⟩
    rw [← hpaddr, ← hbytes]
    exact hfree i hi u e' he'
  · intro hfree i hi v e he
    obtain ⟨u, e', he', hpaddr⟩ := (h.frames e.paddr).mp ⟨v, e, he, rfl⟩
    rw [← hpaddr, hbytes]
    exact hfree i hi u e' he'

lemma remapped_iff_framesFree (h : Standing p p₁ start old r new)
    (htable : p'.pTable.pTable = PageMap.map p₁.pTable.pageShift p₁.pTable.pTable
      (r + (old : ℕ) * p.pageBytes) base (new - old) ⟨false, false, false⟩) :
    p.Remapped p' start old r new ↔ p.FramesFree base (new - old) := by
  have hbytes : p₁.frameBytes = p.frameBytes := by rw [frameBytes, frameBytes, h.pageShift]
  have hsize : p₁.pageBytes = p.pageBytes := by rw [← coe_frameBytes, ← coe_frameBytes, hbytes]
  have hroom : ∀ i < new - old,
      p₁.pTable.pTable (r + (old : ℕ) * p.pageBytes + (i : ℕ) * p₁.pageBytes) = none := by
    intro i hi
    rw [hsize, show r + (old : ℕ) * p.pageBytes + (i : ℕ) * p.pageBytes =
      r + ((old + i : ℕ) : ℤ) * p.pageBytes by push_cast; ring]
    exact h.room (old + i) (by omega) (by omega)
  have hfresh := freshRegion_iff htable
  rw [h.framesFree_iff, and_iff_right hroom] at hfresh
  rw [← hfresh]
  -- a page that is not one of the added ones is as it was
  have hother : ∀ v, (∀ i < new, old ≤ i → r + (i : ℕ) * p.pageBytes ≠ v) →
      p'.pTable.pTable v = p₁.pTable.pTable v := by
    intro v hv
    rw [htable]
    refine if_neg fun hin => ?_
    change InPages p₁.pageBytes _ _ _ at hin
    rw [hsize, inPages_drop] at hin
    obtain ⟨i, hi, hle, heq⟩ := hin
    exact hv i hi hle heq
  constructor
  · intro hremapped
    refine ⟨hroom, fun i hi => ?_, fun v hv => ?_⟩
    · have hpage : r + (old : ℕ) * p.pageBytes + (i : ℕ) * p₁.pageBytes =
          r + ((old + i : ℕ) : ℤ) * p.pageBytes := by
        rw [hsize]
        push_cast
        ring
      rw [hpage, hbytes]
      exact hremapped.added (old + i) (by omega) (by omega)
    · rw [hsize] at hv
      refine hother v fun i hi hle heq => hv (inPages_drop.mpr ⟨i, hi, hle, heq⟩)
  · intro hfresh
    refine ⟨fun i hi hnew => ?_, fun i hi hle => ?_, fun i hi hout => ?_, fun v hv hr => ?_⟩
    · obtain ⟨e, e', he, he', hpaddr⟩ := h.backed i hi
      refine ⟨e, e', he, ?_, hpaddr⟩
      rw [hother _ fun j hj hle heq => ?_, he']
      exact absurd (p.pTable.page_inj heq) (by omega)
    · obtain ⟨e, he, hapart⟩ := hfresh.mapped (i - old) (by omega)
      have hpage : r + (old : ℕ) * p.pageBytes + ((i - old : ℕ) : ℤ) * p₁.pageBytes =
          r + (i : ℕ) * p.pageBytes := by
        rw [hsize]
        push_cast [Nat.cast_sub hle]
        ring
      rw [hpage] at he hapart
      rw [hbytes] at hapart
      exact ⟨e, he, hapart⟩
    · rw [hother _ fun j hj _ heq => hout ⟨j, hj, heq⟩]
      exact h.left i hi hout
    · rw [hother _ fun j hj _ heq => hr ⟨j, hj, heq⟩]
      exact h.kept v hv hr

/-! ### The three ways of the call -/

lemma rounds_sub (p : Process) (hb : 0 ≤ b) (hdvd : p.pageBytes ∣ b) (hle : b ≤ a) :
    p.pTable.rounds (a - b) = p.pTable.rounds a - p.pTable.rounds b := by
  have hup : p.roundUp (a - b) = p.roundUp a - b := by
    obtain ⟨k, rfl⟩ := hdvd
    rw [roundUp, roundUp, show a - p.pageBytes * k + p.pageBytes - 1 =
      a + p.pageBytes - 1 + (-k) * p.pageBytes by ring,
      Int.add_mul_ediv_right _ _ p.pageBytes_pos.ne']
    ring
  have hsub := p.rounds_mul_pageBytes (a := a - b) (by omega)
  have ha := p.rounds_mul_pageBytes (hb.trans hle)
  have hb' := p.rounds_mul_pageBytes hb
  rw [p.roundUp_of_dvd hdvd] at hb'
  have hmul : (p.pTable.rounds (a - b) : ℤ) * p.pageBytes =
      (p.pTable.rounds a - p.pTable.rounds b) * p.pageBytes := by
    rw [sub_mul, ha, hb', hsub, hup]
  have hcount := mul_right_cancel₀ p.pageBytes_pos.ne' hmul
  omega

lemma rounds_le_rounds (p : Process) (ha : 0 ≤ a) (hb : 0 ≤ b)
    (hle : a ≤ p.roundUp b) : p.pTable.rounds a ≤ p.pTable.rounds b := by
  have h := (p.roundUp_le_iff (p.dvd_roundUp b)).mpr hle
  rw [← p.rounds_mul_pageBytes ha, ← p.rounds_mul_pageBytes hb] at h
  exact_mod_cast le_of_mul_le_mul_right h p.pageBytes_pos

lemma rounds_grow (a : MremapArgs) (hdvd : p.pageBytes ∣ (a.oldLength : ℤ))
    (hgrow : (a.oldLength : ℤ) < p.roundUp a.newLength) :
    (p.pTable.rounds a.oldLength : ℤ) * p.pageBytes = a.oldLength ∧
      p.pTable.rounds (p.roundUp a.newLength - a.oldLength) =
        p.pTable.rounds a.newLength - p.pTable.rounds a.oldLength := by
  have hold := p.rounds_mul_pageBytes (Int.natCast_nonneg a.oldLength)
  rw [p.roundUp_of_dvd hdvd] at hold
  rw [p.rounds_sub (Int.natCast_nonneg _) hdvd hgrow.le, p.rounds_roundUp (Int.natCast_nonneg _)]
  exact ⟨hold, rfl⟩

/-- A region that does not grow. -/
lemma remapped_shrink (a : MremapArgs) (hstart : p.pageBytes ∣ a.start)
    (hmapped : ∀ i < p.pTable.rounds a.oldLength,
      (p.pTable.pTable (a.start + (i : ℕ) * p.pageBytes)).isSome)
    (hle : p.roundUp a.newLength ≤ a.oldLength) :
    ∃ p', p.shrinkRegion a a.start = .ok (.ok a.start, p') ∧
      p.Remapped p' a.start (p.pTable.rounds a.oldLength) a.start
        (p.pTable.rounds a.newLength) := by
  have hnew := p.rounds_mul_pageBytes (Int.natCast_nonneg a.newLength)
  have hcount : p.pTable.rounds (a.oldLength - p.roundUp a.newLength) =
      p.pTable.rounds a.oldLength - p.pTable.rounds a.newLength := by
    have hnonneg := (Int.natCast_nonneg a.newLength).trans (p.le_roundUp a.newLength)
    rw [p.rounds_sub hnonneg (p.dvd_roundUp _) hle, p.rounds_roundUp (Int.natCast_nonneg _)]
  have haddr : a.start + p.roundUp a.newLength =
      a.start + (p.pTable.rounds a.newLength : ℕ) * p.pageBytes := by rw [hnew]
  have hoffset : p.pTable.pageOffset (a.start + p.roundUp a.newLength) = 0 :=
    Int.emod_eq_zero_of_dvd (dvd_add hstart (p.dvd_roundUp _))
  -- the pages behind the new end are there to be dropped
  obtain ⟨t, ht⟩ : ∃ t, FuncPageTable.unmapLoop
      (p.pTable.rounds (a.oldLength - p.roundUp a.newLength))
      p.pTable (a.start + p.roundUp a.newLength) = .ok t := by
    refine FuncPageTable.exists_unmapLoop fun i hi => ?_
    have hpage := hmapped (p.pTable.rounds a.newLength + i) (by omega)
    rw [Nat.cast_add, add_mul, ← add_assoc, ← haddr] at hpage
    exact hpage
  refine ⟨{ p with pTable := t }, ?_, ?_⟩
  · rw [shrinkRegion, if_pos rfl]
    change (p.pTable.unmap _ _).map _ = _
    rw [FuncPageTable.unmap, if_neg (not_not.mpr hoffset), ht]
    rfl
  · have htable : t.pTable = PageMap.unmap p.pageBytes p.pTable.pTable
        (a.start + (p.pTable.rounds a.newLength : ℕ) * p.pageBytes)
        (p.pTable.rounds a.oldLength - p.pTable.rounds a.newLength) := by
      rw [← haddr, ← hcount]
      exact (FuncPageTable.keeps_unmapLoop ht).pTable
    have hdropped : ∀ v, (∃ i < p.pTable.rounds a.oldLength, p.pTable.rounds a.newLength ≤ i ∧
        a.start + (i : ℕ) * p.pageBytes = v) → t.pTable v = none := by
      intro v hv
      rw [htable]
      exact if_pos (inPages_drop.mpr hv)
    have hkept : ∀ v, ¬ (∃ i < p.pTable.rounds a.oldLength, p.pTable.rounds a.newLength ≤ i ∧
        a.start + (i : ℕ) * p.pageBytes = v) → t.pTable v = p.pTable.pTable v := by
      intro v hv
      rw [htable]
      exact if_neg fun hin => hv (inPages_drop.mp hin)
    refine ⟨fun i hi hlt => ?_, fun i hi hge => ?_, fun i hi hout => ?_, fun v hv _ => ?_⟩
    · obtain ⟨e, he⟩ := isSome_iff_exists.mp (hmapped i hi)
      refine ⟨e, e, he, (hkept _ ?_).trans he, rfl⟩
      rintro ⟨j, -, hj, heq⟩
      exact absurd (p.pTable.page_inj heq) (by omega)
    · have hfewer := p.rounds_le_rounds (Int.natCast_nonneg a.newLength)
        (Int.natCast_nonneg a.oldLength)
        ((p.le_roundUp _).trans (hle.trans (p.le_roundUp _)))
      omega
    · refine hdropped _ ⟨i, hi, ?_, rfl⟩
      by_contra hlt
      exact hout ⟨i, by omega, rfl⟩
    · refine hkept v ?_
      rintro ⟨i, hi, -, heq⟩
      exact hv ⟨i, hi, heq⟩

/-- There are frames for `n` pages more. -/
def Supplied (p : Process) (n : ℕ) : Prop :=
  ∃ base ptr, p.allocPhysPages n = .ok (base, ptr) ∧ p.FramesFree base n

lemma exists_remapped_map {ε : Type*} {x : Except ε Process} {f : Process → Process}
    (hf : ∀ q, (f q).pTable = q.pTable) :
    (∃ s p', x.map (fun q => (Except.ok r, f q)) = .ok (Except.ok (ε := Errno) s, p') ∧
      p.Remapped p' start old s new) ↔ ∃ q, x = .ok q ∧ p.Remapped q start old r new := by
  have hsame : ∀ q, p.Remapped (f q) start old r new ↔ p.Remapped q start old r new := fun q =>
    ⟨fun h => ⟨hf q ▸ h.backed, hf q ▸ h.added, hf q ▸ h.dropped, hf q ▸ h.kept⟩,
      fun h => ⟨(hf q).symm ▸ h.backed, (hf q).symm ▸ h.added, (hf q).symm ▸ h.dropped,
        (hf q).symm ▸ h.kept⟩⟩
  constructor
  · rintro ⟨s, p', hok, hremapped⟩
    obtain ⟨q, rfl, heq⟩ := Fallible.map_ok hok
    cases heq
    exact ⟨q, rfl, (hsame q).mp hremapped⟩
  · rintro ⟨q, rfl, hremapped⟩
    exact ⟨r, f q, rfl, (hsame q).mpr hremapped⟩

/-- The pages that a standing region is given. -/
lemma Standing.exists_remapped_iff (h : Standing p p₁ start old r new) {addr size : ℤ}
    (hptr : p₁.pagePtr = p.pagePtr) (hmem : p₁.memSize = p.memSize)
    (haddr : addr = r + (old : ℕ) * p.pageBytes) (halign : p.pageBytes ∣ addr)
    (hsize : p.pTable.rounds size = new - old) :
    (∃ p', p₁.allocateMem addr size false = .ok p' ∧ p.Remapped p' start old r new) ↔
      p.Supplied (new - old) := by
  have hbytes : p₁.frameBytes = p.frameBytes := by rw [frameBytes, frameBytes, h.pageShift]
  have hpage : p₁.pageBytes = p.pageBytes := by rw [← coe_frameBytes, ← coe_frameBytes, hbytes]
  have hrounds : p₁.pTable.rounds size = new - old := by
    rw [← hsize, FuncPageTable.rounds, FuncPageTable.rounds]
    exact congrArg (roundsOf · size) hpage
  have halloc : p₁.allocPhysPages (new - old) = p.allocPhysPages (new - old) := by
    rw [allocPhysPages, allocPhysPages, hptr, hmem, h.pageShift]
  constructor
  · rintro ⟨p', hok, hremapped⟩
    obtain ⟨base, ptr, t, hframes, -, -, hkeeps, rfl⟩ := allocateMem_ok hok
    rw [hrounds] at hframes hkeeps
    rw [haddr] at hkeeps
    exact ⟨base, ptr, by rw [← halloc, hframes],
      (remapped_iff_framesFree h hkeeps.pTable).mp hremapped⟩
  · rintro ⟨base, ptr, hframes, hfree⟩
    rw [← halloc, ← hrounds] at hframes
    rw [← hpage] at halign
    obtain ⟨t, ht, hkeeps⟩ := exists_allocateMem p₁ addr size false hframes
      (Int.emod_eq_zero_of_dvd halign) fun _ i hi => by
        have hroom := h.room (old + i) (by omega) (by omega)
        rwa [Nat.cast_add, add_mul, ← add_assoc, ← haddr, ← hpage] at hroom
    rw [hrounds, haddr] at hkeeps
    exact ⟨_, ht, (remapped_iff_framesFree h hkeeps.pTable).mpr hfree⟩

lemma standing_self (hle : old ≤ new)
    (hmapped : ∀ i < old, (p.pTable.pTable (start + (i : ℕ) * p.pageBytes)).isSome)
    (hroom : ∀ i < new, old ≤ i → p.pTable.pTable (start + (i : ℕ) * p.pageBytes) = none) :
    Standing p p start old start new := by
  refine ⟨rfl, fun i hi => ?_, hroom, fun i hi hout => ?_, fun _ _ _ => rfl, fun _ => Iff.rfl⟩
  · obtain ⟨e, he⟩ := isSome_iff_exists.mp (hmapped i hi)
    exact ⟨e, e, he, he, rfl⟩
  · exact absurd ⟨i, by omega, rfl⟩ hout

/-- A region that has moved to free pages. -/
lemma standing_moved {t : FuncPageTable} (hshift : t.pageShift = p.pTable.pageShift)
    (htable : t.pTable = PageMap.remap p.pageBytes p.pTable.pTable start old r) (hle : old ≤ new)
    (hmapped : ∀ i < old, (p.pTable.pTable (start + (i : ℕ) * p.pageBytes)).isSome)
    (hfree : ∀ i < new, p.pTable.pTable (r + (i : ℕ) * p.pageBytes) = none) :
    Standing p { p with pTable := t } start old r new := by
  have hapart : ∀ i < old, ∀ j < new,
      start + (i : ℕ) * p.pageBytes ≠ r + (j : ℕ) * p.pageBytes := by
    intro i hi j hj heq
    have hsome := hmapped i hi
    rw [heq, hfree j hj] at hsome
    cases hsome
  have hmoved := PageMap.moved_remap p.pageBytes p.pTable.pTable start old r
  rw [← htable] at hmoved
  have hkept : ∀ v, ¬ InPages p.pageBytes r old v → ¬ InPages p.pageBytes start old v →
      t.pTable v = p.pTable.pTable v := fun v hr hs =>
    hmoved.frame (fun i hi heq => hr ⟨i, hi, heq⟩) fun i hi heq => hs ⟨i, hi, heq⟩
  refine ⟨hshift, fun i hi => ?_, fun i hi hge => ?_, fun i hi hout => ?_, fun v hs hr => ?_,
    fun x => ⟨?_, ?_⟩⟩
  · obtain ⟨e, he⟩ := isSome_iff_exists.mp (hmapped i hi)
    refine ⟨e, e.updateVaddr (r + (i : ℕ) * p.pageBytes), he, ?_, rfl⟩
    rw [show t.pTable _ = _ from hmoved.target hi, he]
    rfl
  · rw [show t.pTable (r + (i : ℕ) * p.pageBytes) = _ from hkept _ ?_ ?_]
    · exact hfree i hi
    · rintro ⟨j, hj, heq⟩
      exact absurd (p.pTable.page_inj heq) (by omega)
    · rintro ⟨j, hj, heq⟩
      exact hapart j hj i hi heq
  · exact hmoved.source hi fun j hj heq => hapart i hi j (by omega) heq.symm
  · refine hkept v (fun ⟨i, hi, heq⟩ => hr ⟨i, by omega, heq⟩) hs
  · rintro ⟨v, e, he, hx⟩
    change t.pTable v = some e at he
    rw [htable, PageMap.remap] at he
    split_ifs at he with hin hout
    · obtain ⟨e', he', rfl⟩ := map_eq_some_iff.mp he
      exact ⟨_, e', he', hx⟩
    · exact ⟨v, e, he, hx⟩
  · rintro ⟨v, e, he, hx⟩
    by_cases hin : InPages p.pageBytes start old v
    · obtain ⟨i, hi, rfl⟩ := hin
      refine ⟨r + (i : ℕ) * p.pageBytes, e.updateVaddr (r + (i : ℕ) * p.pageBytes), ?_, hx⟩
      rw [show t.pTable _ = _ from hmoved.target hi, he]
      rfl
    · refine ⟨v, e, ?_, hx⟩
      rw [show t.pTable v = _ from hkept v ?_ hin, he]
      rintro ⟨i, hi, rfl⟩
      rw [hfree i (by omega)] at he
      cases he

/-! ### The call -/

/-- The region stands, resized, at the returned address. -/
def Resized (p : Process) (a : MremapArgs) (x : Except VmAbort (SyscallReturn × Process)) : Prop :=
  ∃ r p', x = .ok (.ok r, p') ∧
    p.Remapped p' a.start (p.pTable.rounds a.oldLength) r (p.pTable.rounds a.newLength)

section

variable (a : MremapArgs) (hgrow : (a.oldLength : ℤ) < p.roundUp a.newLength)
  (haligned : p.pageBytes ∣ p.mmapEnd)
  (hmapped : ∀ i < p.pTable.rounds a.oldLength,
    (p.pTable.pTable (a.start + (i : ℕ) * p.pageBytes)).isSome)
  (hfree : ∀ i < p.pTable.rounds a.newLength,
    p.pTable.pTable (p.mmapEnd + (i : ℕ) * p.pageBytes) = none)

include hgrow haligned hmapped hfree

lemma growInPlace_iff (hdvd : p.pageBytes ∣ (a.oldLength : ℤ))
    (hend : a.start + a.oldLength = p.mmapEnd) : p.Resized a (p.growInPlace a) ↔
      p.Supplied (p.pTable.rounds a.newLength - p.pTable.rounds a.oldLength) := by
  obtain ⟨hold, hsize⟩ := rounds_grow a hdvd hgrow
  have hmore := p.rounds_le_rounds (Int.natCast_nonneg _) (Int.natCast_nonneg _) hgrow.le
  have hstanding : Standing p p a.start (p.pTable.rounds a.oldLength) a.start
      (p.pTable.rounds a.newLength) := by
    refine standing_self hmore hmapped fun i hi hge => ?_
    have hpage := hfree (i - p.pTable.rounds a.oldLength) (by omega)
    rwa [Nat.cast_sub hge, sub_mul, hold, ← hend, add_add_sub_cancel] at hpage
  rw [← hstanding.exists_remapped_iff rfl rfl (by rw [hold, hend]) haligned hsize]
  exact exists_remapped_map fun _ => rfl

/-- A region moves to the mmap pointer and grows there. -/
lemma moveRegion_iff (hfixed : a.fixed = false) (hstart : p.pageBytes ∣ a.start) :
    p.Resized a (p.moveRegion a p.mmapEnd) ↔ p.pageBytes ∣ (a.oldLength : ℤ) ∧
        p.Supplied (p.pTable.rounds a.newLength - p.pTable.rounds a.oldLength) := by
  have hmore := p.rounds_le_rounds (Int.natCast_nonneg _) (Int.natCast_nonneg _) hgrow.le
  have hclash : ∀ i < p.pTable.rounds a.oldLength, ∀ j ≤ i,
      p.mmapEnd + (j : ℕ) * p.pTable.pageSize ≠ a.start + (i : ℕ) * p.pTable.pageSize := by
    intro i hi j hj heq
    have hsome := hmapped i hi
    rw [show a.start + (i : ℕ) * p.pageBytes = _ from heq.symm, ← pageBytes,
      hfree j (by omega)] at hsome
    cases hsome
  -- the move itself always goes through
  obtain ⟨t, ht⟩ : ∃ t, FuncPageTable.remapLoop (p.pTable.rounds a.oldLength) p.pTable a.start
      p.mmapEnd = .ok t := FuncPageTable.exists_remapLoop hmapped
  have hremap : p.pTable.remap a.start a.oldLength p.mmapEnd = .ok t := by
    rw [FuncPageTable.remap, if_neg, ht]
    exact not_or.mpr ⟨not_not.mpr (Int.emod_eq_zero_of_dvd hstart),
      not_not.mpr (Int.emod_eq_zero_of_dvd haligned)⟩
  obtain ⟨hshift, htable⟩ := FuncPageTable.moved_remapLoop ht hclash
  have hstanding := standing_moved hshift htable hmore hmapped hfree
  have hpage : pageBytes { p with pTable := t } = p.pageBytes := by
    rw [pageBytes, pageBytes, FuncPageTable.pageSize, FuncPageTable.pageSize, hshift]
  have hcall : p.Resized a (p.moveRegion a p.mmapEnd) ↔
      ∃ p', allocateMem { p with pTable := t } (p.mmapEnd + a.oldLength)
        (p.roundUp a.newLength - a.oldLength) false = .ok p' ∧ p.Remapped p' a.start
          (p.pTable.rounds a.oldLength) p.mmapEnd (p.pTable.rounds a.newLength) := by
    rw [moveRegion, hremap, hfixed]
    exact exists_remapped_map fun _ => rfl
  rw [hcall]
  by_cases hdvd : p.pageBytes ∣ (a.oldLength : ℤ)
  · obtain ⟨hold, hsize⟩ := rounds_grow a hdvd hgrow
    rw [hstanding.exists_remapped_iff rfl rfl (by rw [hold]) (dvd_add haligned hdvd) hsize,
      and_iff_right hdvd]
  · -- the assertion of `map` fails
    refine iff_of_false ?_ fun h => hdvd h.1
    rintro ⟨p', hok, -⟩
    obtain ⟨_, _, _, -, hoffset, -, -, -⟩ := allocateMem_ok hok
    have hsum : p.pageBytes ∣ p.mmapEnd + a.oldLength := by
      rw [← hpage]
      exact Int.dvd_of_emod_eq_zero hoffset
    exact hdvd ((Int.dvd_add_right haligned).mp hsum)

end

/-- **Regions that are resized.** With the region mapped and the pages at the mmap pointer free,
`mremap` with `MREMAP_MAYMOVE` and without `MREMAP_FIXED` does what it should if and only if the
region does not grow, or its length is a whole number of pages and the added pages have frames of
their own. -/
theorem mremap_mayMove_iff {condition : Process → Sys → Prop} (a : MremapArgs)
    (h : Run Sound condition p) (hmay : a.mayMove = true) (hfixed : a.fixed = false)
    (hstart : p.pageBytes ∣ a.start)
    (hmapped : ∀ i < p.pTable.rounds a.oldLength,
      (p.pTable.pTable (a.start + (i : ℕ) * p.pageBytes)).isSome)
    (hfree : ∀ i < p.pTable.rounds a.newLength,
      p.pTable.pTable (p.mmapEnd + (i : ℕ) * p.pageBytes) = none) :
    ((∃ r p', p.mremapFunc a = .ok (.ok r, p') ∧ p.Remapped p' a.start
        (p.pTable.rounds a.oldLength) r (p.pTable.rounds a.newLength)) ↔
      p.roundUp a.newLength ≤ a.oldLength ∨ p.pageBytes ∣ (a.oldLength : ℤ) ∧
        p.Supplied (p.pTable.rounds a.newLength - p.pTable.rounds a.oldLength)) ∧
    (p.memSize < p.windowFrame → ∀ n base ptr, p.allocPhysPages n = .ok (base, ptr) →
      p.FramesFree base n) := by
  have hsound := h.sound
  refine ⟨?_, fun hlt n base ptr halloc => hsound.framesFree hlt halloc⟩
  have hargs : ¬ (a.start % p.pageBytes ≠ 0 ∨
      (a.fixed = true ∧ a.newAddress % p.pageBytes ≠ 0)) := by
    simp [Int.emod_eq_zero_of_dvd hstart, hfixed]
  rw [mremapFunc, if_neg hargs]
  by_cases hgrow : (a.oldLength : ℤ) < p.roundUp a.newLength
  · rw [if_pos hgrow, or_iff_right (by omega)]
    by_cases hend : a.start + a.oldLength = p.mmapEnd
    · -- the region ends at an aligned pointer, so its length is a whole number of pages
      have hdvd : p.pageBytes ∣ (a.oldLength : ℤ) :=
        (Int.dvd_add_right hstart).mp (hend ▸ hsound.aligned)
      rw [if_pos ⟨hend, by simp [hfixed]⟩, and_iff_right hdvd]
      exact growInPlace_iff a hgrow hsound.aligned hmapped hfree hdvd hend
    · rw [if_neg fun hplace => hend hplace.1, if_neg (by simp [hmay]), hfixed]
      exact moveRegion_iff a hgrow hsound.aligned hmapped hfree hfixed hstart
  · rw [if_neg hgrow, hfixed]
    refine iff_of_true ?_ (Or.inl (not_lt.mp hgrow))
    exact ⟨a.start, remapped_shrink a hstart hmapped (not_lt.mp hgrow)⟩

/-- The process got two pages at `0x10000`, as it wanted. -/
def hinted : Process := ((bare.mmapFunc (anonymous 0x10000 8192)).map Prod.snd).toOption.getD bare

lemma run_hinted : Run Sound (fun _ _ => True) hinted :=
  run_after [.mmap (anonymous 0x10000 8192)] rfl

lemma mapped_hinted :
    ∀ i < 2, (hinted.pTable.pTable (0x10000 + (i : ℕ) * hinted.pageBytes)).isSome := by
  decide +kernel

lemma free_hinted :
    ∀ i < 3, hinted.pTable.pTable (hinted.mmapEnd + (i : ℕ) * hinted.pageBytes) = none := by
  decide +kernel

theorem mremap_mayMove_hinted :
    ∃ r p', hinted.mremapFunc ⟨0x10000, 8192, 12000, true, false, 0⟩ = .ok (.ok r, p') ∧
      hinted.Remapped p' 0x10000 2 r 3 := by
  have hiff := mremap_mayMove_iff ⟨0x10000, 8192, 12000, true, false, 0⟩ run_hinted rfl rfl
    (by decide +kernel) mapped_hinted free_hinted
  have hframe : hinted.allocPhysPages 1 = .ok (0x2000, 3) := by decide +kernel
  exact hiff.1.mpr (Or.inr ⟨by decide +kernel, 0x2000, 3, hframe,
    hiff.2 (by decide +kernel) 1 _ _ hframe⟩)

/-- 5000 bytes cannot grow to 12000: the added page would start at byte 5000. -/
theorem mremap_notAligned :
    (∀ i < 2, (hinted.pTable.pTable (0x10000 + (i : ℕ) * hinted.pageBytes)).isSome) ∧
      (∀ i < 3, hinted.pTable.pTable (hinted.mmapEnd + (i : ℕ) * hinted.pageBytes) = none) ∧
      Run Sound (fun _ _ => True) hinted ∧
      hinted.mremapFunc ⟨0x10000, 5000, 12000, true, false, 0⟩ = .error .notAligned :=
  ⟨mapped_hinted, free_hinted, run_hinted, rfl⟩

end Process

end ShifDram
