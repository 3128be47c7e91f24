import ShifDram.Mem.AbstractMem

/-!
What the row-op loops compute, bit by bit.

Every loop is a sweep over the destination row. The bitwise loops read each word before they write
it, so a source may be the destination row itself. The shift loops take the carry from the source
*after* writing the destination: apart from the destination it is the neighbouring bit, in place
the bit one further on. `lsBit` and `rsBit` have this distance as the parameter `tap`
(`carryTap`).
-/

namespace ShifDram

open ByteMem Function

variable (op : RowOp) {x : ℤ} {n : ℕ} {F : ℕ → Bool} {m : ByteMem}

lemma ne_zero_iff_of_getLsbD {w : BitVec 64} {c : Bool}
    (hbit : ∀ i, w.getLsbD i = (decide (i = 0) && c)) : w ≠ 0#64 ↔ c = true := by
  constructor
  · contrapose!
    intro h
    refine BitVec.eq_of_getLsbD_eq fun i _ => ?_
    rw [hbit, BitVec.getLsbD_zero, Bool.eq_false_of_not_eq_true h, Bool.and_false]
  · intro h hz
    have h0 := hbit 0
    rw [hz, h, BitVec.getLsbD_zero] at h0
    exact Bool.false_ne_true h0

lemma ushiftRight_63_ne_zero (x : BitVec 64) : x >>> 63 ≠ 0#64 ↔ x.getLsbD 63 = true := by
  have hbit : ∀ i, (x >>> 63).getLsbD i = (decide (i = 0) && x.getLsbD 63) := by
    intro i
    rw [BitVec.getLsbD_ushiftRight]
    by_cases h0 : i = 0
    · simp only [h0, Nat.add_zero, decide_true, Bool.true_and]
    · rw [BitVec.getLsbD_of_ge _ _ (by omega), decide_eq_false h0, Bool.false_and]
  exact ne_zero_iff_of_getLsbD hbit

lemma and_one_ne_zero (x : BitVec 64) : x &&& 1#64 ≠ 0#64 ↔ x.getLsbD 0 = true := by
  have hbit : ∀ i, (x &&& 1#64).getLsbD i = (decide (i = 0) && x.getLsbD 0) := by
    intro i
    rw [BitVec.getLsbD_and, BitVec.getLsbD_one]
    by_cases h0 : i = 0
    · simp only [h0, decide_true, Nat.zero_lt_succ, Bool.true_and, Bool.and_true]
    · simp only [h0, decide_false, Bool.and_false, Bool.false_and]
  exact ne_zero_iff_of_getLsbD hbit

def carryWord (b : Bool) : BitVec 64 := if b then 1#64 else 0#64

lemma getLsbD_carryWord (b : Bool) (i : ℕ) : (carryWord b).getLsbD i = (decide (i = 0) && b) := by
  cases b with
  | false => simp [carryWord]
  | true => simp [carryWord, BitVec.getLsbD_one]

lemma getLsbD_lsWord (w : BitVec 64) (c : Bool) {b : ℕ} (hb : b < 64) :
    (((w <<< 1) &&& 0xFFFFFFFFFFFFFFFE#64) ||| carryWord c).getLsbD b =
      if b = 0 then c else w.getLsbD (b - 1) := by
  have hmask : ∀ i < 64, (0xFFFFFFFFFFFFFFFE#64).getLsbD i = decide (i ≠ 0) := by decide
  rw [BitVec.getLsbD_or, BitVec.getLsbD_and, BitVec.getLsbD_shiftLeft, getLsbD_carryWord,
    hmask b hb]
  by_cases h0 : b = 0
  · simp [h0]
  · have h1 : ¬ b < 1 := by omega
    simp [h0, h1, hb]

lemma getLsbD_rsWord (w : BitVec 64) (c : Bool) {b : ℕ} (hb : b < 64) :
    (((w >>> 1) &&& 0x7FFFFFFFFFFFFFFF#64) ||| (carryWord c <<< 63)).getLsbD b =
      if b = 63 then c else w.getLsbD (b + 1) := by
  have hmask : ∀ i < 64, (0x7FFFFFFFFFFFFFFF#64).getLsbD i = decide (i ≠ 63) := by decide
  rw [BitVec.getLsbD_or, BitVec.getLsbD_and, BitVec.getLsbD_ushiftRight, BitVec.getLsbD_shiftLeft,
    getLsbD_carryWord, hmask b hb]
  by_cases h63 : b = 63
  · simp [h63]
  · have hlt : b < 63 := by omega
    simp [h63, hlt, Nat.add_comm 1 b]

/-! ### The bitwise loops -/

/-- Bit `i` at `a` with the first `k` words at `d` rewritten to `F`. -/
def overBit (m : ByteMem) (d : ℤ) (k : ℕ) (F : ℕ → Bool) (a : ℤ) (i : ℕ) : Bool :=
  if d ≤ a + (i / 8 : ℕ) ∧ a + (i / 8 : ℕ) < d + (8 * k : ℕ) then
    F (8 * (a + (i / 8 : ℕ) - d).toNat + i % 8)
  else bitAt m a i

lemma bitAt_eq_overBit {m' : ByteMem} {d : ℤ} {k : ℕ} (h : Swept m m' d 0 k F) (a : ℤ) (i : ℕ) :
    bitAt m' a i = overBit m d k F a i := by
  rw [overBit]
  split
  · next hin =>
    set q := (a + (i / 8 : ℕ) - d).toNat with hq
    have hdiv : (8 * q + i % 8) / 8 = q := by omega
    have hmod : (8 * q + i % 8) % 8 = i % 8 := by omega
    have hbase : d + (q : ℕ) = a + (i / 8 : ℕ) := by omega
    rw [← h.bits _ (by omega) (by omega), bitAt, bitAt, hdiv, hmod, hbase]
  · next hout => exact bitAt_congr (h.frame _ (by omega))

/-- A source that is the span or apart from it shows its old bits. -/
lemma overBit_of_sameOrApart {d a : ℤ} {i : ℕ} (h : SameOrApart a d n) (hi : i < 64 * n) :
    overBit m d (i / 64) F a i = bitAt m a i := by
  rw [overBit, if_neg]
  rcases h with rfl | h | h <;> omega

/-- The memory a binary loop leaves after `k` words. -/
def zipMem (f : BitVec 64 → BitVec 64 → BitVec 64) (m : ByteMem) (d s t : ℤ) (k : ℕ) : ByteMem :=
  ((RowLoop.zipStep f)^[k] ⟨m, d, s, t, 0#64⟩).mem

section

variable (f : BitVec 64 → BitVec 64 → BitVec 64)

include f

lemma zipStep_iterate_eq (m : ByteMem) (d s t : ℤ) (k : ℕ) :
    (RowLoop.zipStep f)^[k] ⟨m, d, s, t, 0#64⟩ =
      ⟨zipMem f m d s t k, d + (8 * k : ℕ), s + (8 * k : ℕ), t + (8 * k : ℕ), 0#64⟩ := by
  induction k with
  | zero => simp [zipMem]
  | succ k ih =>
    rw [zipMem, iterate_succ_apply', ih]
    simp only [RowLoop.zipStep, RowLoop.mk.injEq, true_and, and_true]
    refine ⟨?_, ?_, ?_⟩ <;> push_cast <;> ring

lemma zipMem_succ (m : ByteMem) (d s t : ℤ) (k : ℕ) :
    zipMem f m d s t (k + 1) = storeLE (zipMem f m d s t k) (d + (8 * k : ℕ))
      (f (loadLE 64 (zipMem f m d s t k) (s + (8 * k : ℕ)))
        (loadLE 64 (zipMem f m d s t k) (t + (8 * k : ℕ)))) := by
  rw [zipMem, iterate_succ_apply', zipStep_iterate_eq]
  rfl

lemma zipMem_frame (m : ByteMem) (d s t : ℤ) (k : ℕ) (hx : x < d ∨ d + (8 * k : ℕ) ≤ x) :
    zipMem f m d s t k x = m x := by
  induction k with
  | zero => rfl
  | succ k ih => rw [zipMem_succ, storeLE_of_notMem (by omega), ih (by omega)]

end

/-- **The binary loops**, however the spans lie, leave the combination `E` of the old source words
if and only if at each bit what they see combines as the old bits do. -/
lemma zipMem_swept_iff {f : BitVec 64 → BitVec 64 → BitVec 64} {g : Bool → Bool → Bool}
    (hf : ∀ x y, ∀ b < 64, (f x y).getLsbD b = g (x.getLsbD b) (y.getLsbD b))
    (m : ByteMem) (d s t : ℤ) (E : ℕ → Bool) (k : ℕ) :
    Swept m (zipMem f m d s t k) d 0 k E ↔
      ∀ i < 64 * k, g (overBit m d (i / 64) E s i) (overBit m d (i / 64) E t i) = E i := by
  induction k with
  | zero => exact ⟨fun _ i hi => by omega, fun _ => Swept.nil m d 0 E⟩
  | succ k ih =>
    set m' := zipMem f m d s t k with hm'
    set v := f (loadLE 64 m' (s + (8 * k : ℕ))) (loadLE 64 m' (t + (8 * k : ℕ))) with hv
    -- the word written, once the words before it are known to be right
    have hword : Swept m m' d 0 k E → ∀ b < 64, v.getLsbD b =
        g (overBit m d ((64 * k + b) / 64) E s (64 * k + b))
          (overBit m d ((64 * k + b) / 64) E t (64 * k + b)) := by
      intro hsw b hb
      rw [hv, hf _ _ b hb, getLsbD_loadWord m' s k hb, getLsbD_loadWord m' t k hb,
        bitAt_eq_overBit hsw, bitAt_eq_overBit hsw, show (64 * k + b) / 64 = k by omega]
    rw [zipMem_succ]
    constructor
    · intro h
      have hsw : Swept m m' d 0 k E := by
        refine ⟨fun i h1 h2 => ?_, fun x hx => zipMem_frame f m d s t k (by omega)⟩
        rw [← h.bits i h1 (by omega), bitAt_storeWord, if_neg (by omega)]
      intro i hi
      by_cases hik : i < 64 * k
      · exact ih.mp hsw i hik
      · have hb := hword hsw (i - 64 * k) (by omega)
        rw [show 64 * k + (i - 64 * k) = i by omega] at hb
        rw [← hb, ← h.bits i (by omega) hi, bitAt_storeWord, if_pos (by omega)]
    · intro h
      have hsw := ih.mpr fun i hi => h i (by omega)
      exact hsw.up (by omega) fun b hb => (hword hsw b hb).trans (h _ (by omega))

/-- With sources equal or apart, binary loops combine the old words. -/
lemma zipMem_swept {f : BitVec 64 → BitVec 64 → BitVec 64} {g : Bool → Bool → Bool}
    (hf : ∀ x y, ∀ b < 64, (f x y).getLsbD b = g (x.getLsbD b) (y.getLsbD b)) {d s t : ℤ}
    (hs : SameOrApart s d n) (ht : SameOrApart t d n) :
    Swept m (zipMem f m d s t n) d 0 n fun i => g (bitAt m s i) (bitAt m t i) := by
  refine (zipMem_swept_iff hf m d s t _ n).mpr fun i hi => ?_
  rw [overBit_of_sameOrApart hs hi, overBit_of_sameOrApart ht hi]

/-- Unary loops rewrite the first `k` words from the old ones. -/
lemma mapStep_iterate {f : BitVec 64 → BitVec 64} {g : Bool → Bool}
    (hf : ∀ x, ∀ b < 64, (f x).getLsbD b = g (x.getLsbD b)) {d s t : ℤ} (hs : SameOrApart s d n) :
    ∀ k ≤ n, ∃ m', (RowLoop.mapStep f)^[k] ⟨m, d, s, t, 0#64⟩
        = ⟨m', d + (8 * k : ℕ), s + (8 * k : ℕ), t, 0#64⟩
      ∧ Swept m m' d 0 k fun i => g (bitAt m s i) := by
  intro k
  induction k with
  | zero => exact fun _ => ⟨m, by simp, Swept.nil m d 0 _⟩
  | succ k ih =>
    intro hk
    obtain ⟨m', hit, hsw⟩ := ih (by omega)
    refine ⟨storeLE m' (d + (8 * k : ℕ)) (f (loadLE 64 m' (s + (8 * k : ℕ)))), ?_, ?_⟩
    · rw [iterate_succ_apply', hit]
      simp only [RowLoop.mapStep, RowLoop.mk.injEq, true_and, and_true]
      refine ⟨?_, ?_⟩ <;> push_cast <;> ring
    · rw [hsw.load_eq hs (by omega) (by omega) (by omega)]
      refine hsw.up (by omega) fun b hb => ?_
      rw [hf _ b hb, getLsbD_loadWord m s k hb]

/-! ### The shift loops -/

/-- Where a shift reads its carry: the next bit, in place one further. -/
def carryTap (s d : ℤ) : ℕ := if s = d then 2 else 1

/-- Bit `i` of a row after the left-shift loop. -/
def lsBit (tap : ℕ) (m : ByteMem) (s : ℤ) (i : ℕ) : Bool :=
  if i % 64 = 0 then decide (i ≠ 0) && bitAt m s (i - tap) else bitAt m s (i - 1)

/-- Bit `i` of `n` words after the right-shift loop. -/
def rsBit (tap n : ℕ) (m : ByteMem) (s : ℤ) (i : ℕ) : Bool :=
  if i % 64 = 63 then decide (i + 1 < 64 * n) && bitAt m s (i + tap) else bitAt m s (i + 1)

/-- The source word with `v` stored over `w`: `v` in place, `w` apart. -/
lemma load_after_store {m' : ByteMem} {d s : ℤ} {k lo hi : ℕ} (hsw : Swept m m' d lo hi F)
    (hs : SameOrApart s d n) (hn : hi ≤ n) (hk : k < n) (hout : k < lo ∨ hi ≤ k) (v : BitVec 64) :
    loadLE 64 (storeLE m' (d + (8 * k : ℕ)) v) (s + (8 * k : ℕ)) =
      if s = d then v else loadLE 64 m (s + (8 * k : ℕ)) := by
  by_cases hsd : s = d
  · subst hsd
    rw [if_pos rfl, loadLE_storeLE_self (by norm_num)]
  · rw [if_neg hsd, ← hsw.load_eq hs hn hk hout]
    refine loadLE_storeLE_of_apart ?_
    rcases hs with rfl | hs | hs <;> omega

lemma lsStep_eq (m : ByteMem) (d s t : ℤ) (c : BitVec 64) :
    let v := ((loadLE 64 m s <<< 1) &&& 0xFFFFFFFFFFFFFFFE#64) ||| c
    RowLoop.lsStep ⟨m, d, s, t, c⟩ = ⟨storeLE m d v, d + 8, s + 8, t,
      carryWord ((loadLE 64 (storeLE m d v) s).getLsbD 63)⟩ := by
  simp only [RowLoop.lsStep, loadLE_storeLE_self (show 8 ∣ 64 by norm_num), storeLE_storeLE,
    ushiftRight_63_ne_zero, carryWord]

lemma rsStep_eq (m : ByteMem) (d s t : ℤ) (c : BitVec 64) :
    let v := ((loadLE 64 m (s - 8) >>> 1) &&& 0x7FFFFFFFFFFFFFFF#64) ||| (c <<< 63)
    RowLoop.rsStep ⟨m, d, s, t, c⟩ = ⟨storeLE m (d - 8) v, d - 8, s - 8, t,
      carryWord ((loadLE 64 (storeLE m (d - 8) v) (s - 8)).getLsbD 0)⟩ := by
  simp only [RowLoop.rsStep, loadLE_storeLE_self (show 8 ∣ 64 by norm_num), storeLE_storeLE,
    and_one_ne_zero, carryWord]

lemma lsStep_iterate {d s t : ℤ} (hs : SameOrApart s d n) :
    ∀ k ≤ n, ∃ m', RowLoop.lsStep^[k] ⟨m, d, s, t, 0#64⟩ = ⟨m', d + (8 * k : ℕ), s + (8 * k : ℕ), t,
            carryWord (decide (k ≠ 0) && bitAt m s (64 * k - carryTap s d))⟩
      ∧ Swept m m' d 0 k (lsBit (carryTap s d) m s) := by
  intro k
  induction k with
  | zero => exact fun _ => ⟨m, by simp [carryWord], Swept.nil m d 0 _⟩
  | succ k ih =>
    intro hk
    obtain ⟨m', hit, hsw⟩ := ih (by omega)
    set w := loadLE 64 m (s + (8 * k : ℕ)) with hw
    set c := (decide (k ≠ 0) && bitAt m s (64 * k - carryTap s d)) with hc
    set v := ((w <<< 1) &&& 0xFFFFFFFFFFFFFFFE#64) ||| carryWord c with hv
    have hload : loadLE 64 m' (s + (8 * k : ℕ)) = w :=
      hsw.load_eq hs (by omega) (by omega) (by omega)
    have hback := load_after_store hsw hs (by omega) (show k < n by omega) (by omega) v
    -- the bit the next iteration takes as its carry
    have htop : (loadLE 64 (storeLE m' (d + (8 * k : ℕ)) v) (s + (8 * k : ℕ))).getLsbD 63
        = bitAt m s (64 * (k + 1) - carryTap s d) := by
      rw [hback, carryTap]
      by_cases hsd : s = d
      · rw [if_pos hsd, if_pos hsd, hv, getLsbD_lsWord w c (by norm_num), if_neg (by norm_num),
          hw, getLsbD_loadWord m s k (by norm_num)]
        congr 1
      · rw [if_neg hsd, if_neg hsd, getLsbD_loadWord m s k (by norm_num)]
        congr 1
    refine ⟨storeLE m' (d + (8 * k : ℕ)) v, ?_, ?_⟩
    · rw [iterate_succ_apply', hit, lsStep_eq, hload, ← hv, htop]
      simp only [RowLoop.mk.injEq, true_and]
      refine ⟨by push_cast; ring, by push_cast; ring, ?_⟩
      simp
    · refine hsw.up (by omega) fun b hb => ?_
      rw [hv, getLsbD_lsWord w c hb, lsBit]
      by_cases h0 : b = 0
      · subst h0
        have hmod : (64 * k + 0) % 64 = 0 := by omega
        rw [if_pos rfl, if_pos hmod, hc]
        · simp
      · have hmod : (64 * k + b) % 64 ≠ 0 := by omega
        rw [if_neg h0, if_neg hmod, hw, getLsbD_loadWord m s k (by omega)]
        congr 1
        omega

lemma skipStep_iterate (m : ByteMem) (d s t : ℤ) (k : ℕ) :
    RowLoop.skipStep^[k] ⟨m, d, s, t, 0#64⟩ = ⟨m, d + (8 * k : ℕ), s + (8 * k : ℕ), t, 0#64⟩ := by
  induction k with
  | zero => simp
  | succ k ih =>
    rw [iterate_succ_apply', ih]
    simp only [RowLoop.skipStep, RowLoop.mk.injEq, true_and, and_true]
    refine ⟨?_, ?_⟩ <;> push_cast <;> ring

lemma rsStep_iterate {d s t : ℤ} (hs : SameOrApart s d n) :
    ∀ j k, j + k = n → ∃ m', RowLoop.rsStep^[k] ⟨m, d + (8 * n : ℕ), s + (8 * n : ℕ), t, 0#64⟩
        = ⟨m', d + (8 * j : ℕ), s + (8 * j : ℕ), t,
            carryWord (decide (k ≠ 0) && bitAt m s (64 * j + carryTap s d - 1))⟩
      ∧ Swept m m' d j n (rsBit (carryTap s d) n m s) := by
  intro j k
  induction k generalizing j with
  | zero =>
    intro hj
    have hj' : j = n := by omega
    subst hj'
    exact ⟨m, by simp [carryWord], Swept.nil m d j _⟩
  | succ k ih =>
    intro hj
    obtain ⟨m', hit, hsw⟩ := ih (j + 1) (by omega)
    set w := loadLE 64 m (s + (8 * j : ℕ)) with hw
    set c := (decide (k ≠ 0) && bitAt m s (64 * (j + 1) + carryTap s d - 1)) with hc
    set v := ((w >>> 1) &&& 0x7FFFFFFFFFFFFFFF#64) ||| (carryWord c <<< 63) with hv
    have hload : loadLE 64 m' (s + (8 * j : ℕ)) = w := hsw.load_eq hs le_rfl (by omega) (by omega)
    have hback := load_after_store hsw hs le_rfl (show j < n by omega) (by omega) v
    have hlow : (loadLE 64 (storeLE m' (d + (8 * j : ℕ)) v) (s + (8 * j : ℕ))).getLsbD 0
        = bitAt m s (64 * j + carryTap s d - 1) := by
      rw [hback, carryTap]
      by_cases hsd : s = d
      · rw [if_pos hsd, if_pos hsd, hv, getLsbD_rsWord w c (by norm_num), if_neg (by norm_num),
          hw, getLsbD_loadWord m s j (by norm_num)]
        congr 1
      · rw [if_neg hsd, if_neg hsd, getLsbD_loadWord m s j (by norm_num)]
        congr 1
    have hd8 : d + (8 * (j + 1) : ℕ) - 8 = d + (8 * j : ℕ) := by push_cast; ring
    have hs8 : s + (8 * (j + 1) : ℕ) - 8 = s + (8 * j : ℕ) := by push_cast; ring
    refine ⟨storeLE m' (d + (8 * j : ℕ)) v, ?_, ?_⟩
    · rw [iterate_succ_apply', hit, rsStep_eq, hd8, hs8, hload, ← hv, hlow]
      simp
    · refine hsw.down (by omega) fun b hb => ?_
      rw [hv, getLsbD_rsWord w c hb, rsBit]
      by_cases h63 : b = 63
      · subst h63
        have hmod : (64 * j + 63) % 64 = 63 := by omega
        rw [if_pos rfl, if_pos hmod, hc]
        congr 1
        · exact decide_eq_decide.mpr (by omega)
        · congr 1
          omega
      · have hmod : (64 * j + b) % 64 ≠ 63 := by omega
        rw [if_neg h63, if_neg hmod, hw, getLsbD_loadWord m s j (by omega)]
        congr 1

/-- Bit `i` of the destination row after `op`. -/
def rowOpBit (m : ByteMem) (d s t : ℤ) (i : ℕ) : Bool :=
  match op with
  | .rowAnd => bitAt m s i && bitAt m t i
  | .rowOr => bitAt m s i || bitAt m t i
  | .rowNot => !bitAt m s i
  | .rowXor => bitAt m s i ^^ bitAt m t i
  | .rowAp => bitAt m d i
  | .rowAap => bitAt m s i
  | .rowLs => lsBit (carryTap s d) m s i
  | .rowRs => rsBit (carryTap s d) rowWords m s i

/-- **The row-op loops**: with each source the destination row or apart from it, the loop rewrites
the row to `rowOpBit` and nothing else. -/
theorem rowOpLoop_swept (m : ByteMem) (d s t : ℤ)
    (hs : op.usesSrc1 = true → SameOrApart s d rowWords)
    (ht : op.usesSrc2 = true → SameOrApart t d rowWords) :
    Swept m (rowOpLoop op m d s t) d 0 rowWords (rowOpBit op m d s t) := by
  cases op with
  | rowAnd =>
    exact zipMem_swept (f := fun a b => a &&& b) (g := and)
      (fun x y b _ => BitVec.getLsbD_and) (hs rfl) (ht rfl)
  | rowOr =>
    exact zipMem_swept (f := fun a b => a ||| b) (g := or)
      (fun x y b _ => BitVec.getLsbD_or) (hs rfl) (ht rfl)
  | rowNot =>
    obtain ⟨m', hit, hsw⟩ := mapStep_iterate (f := fun a => ~~~a) (g := not) (t := t)
      (fun x b hb => by simp [hb]) (m := m) (hs rfl) rowWords le_rfl
    simp only [rowOpLoop, hit]
    exact hsw
  | rowXor =>
    exact zipMem_swept (f := fun a b => a ^^^ b) (g := xor)
      (fun x y b _ => BitVec.getLsbD_xor) (hs rfl) (ht rfl)
  | rowAp => exact ⟨fun _ _ _ => rfl, fun _ _ => rfl⟩
  | rowAap =>
    obtain ⟨m', hit, hsw⟩ := mapStep_iterate (f := fun a => a) (g := id) (t := t)
      (fun x b _ => rfl) (m := m) (hs rfl) rowWords le_rfl
    simp only [rowOpLoop, hit]
    exact hsw
  | rowLs =>
    obtain ⟨m', hit, hsw⟩ := lsStep_iterate (m := m) (t := t) (hs rfl) rowWords le_rfl
    simp only [rowOpLoop, hit]
    exact hsw
  | rowRs =>
    obtain ⟨m', hit, hsw⟩ := rsStep_iterate (m := m) (t := t) (hs rfl) 0 rowWords (by omega)
    simp only [rowOpLoop, skipStep_iterate, hit]
    exact hsw

lemma iterate_up_frame {f : RowLoop → RowLoop} (hdest : ∀ s, (f s).dest = s.dest + 8)
    (hmem : ∀ s x, x < s.dest ∨ s.dest + 8 ≤ x → (f s).mem x = s.mem x) (n : ℕ) (s : RowLoop)
    (hx : x < s.dest ∨ s.dest + (8 * n : ℕ) ≤ x) : (f^[n] s).mem x = s.mem x := by
  induction n generalizing s with
  | zero => rfl
  | succ n ih =>
    rw [iterate_succ_apply, ih (f s) (by rw [hdest]; omega), hmem s x (by omega)]

lemma iterate_down_frame {f : RowLoop → RowLoop} (hdest : ∀ s, (f s).dest = s.dest - 8)
    (hmem : ∀ s x, x < s.dest - 8 ∨ s.dest ≤ x → (f s).mem x = s.mem x) (n : ℕ) (s : RowLoop)
    (hx : x < s.dest - (8 * n : ℕ) ∨ s.dest ≤ x) : (f^[n] s).mem x = s.mem x := by
  induction n generalizing s with
  | zero => rfl
  | succ n ih =>
    rw [iterate_succ_apply, ih (f s) (by rw [hdest]; omega), hmem s x (by omega)]

/-- **No opcode writes outside its destination row**, however rows lie. -/
lemma rowOpLoop_frame (m : ByteMem) (d s t : ℤ) (hx : x < d ∨ d + (8 * rowWords : ℕ) ≤ x) :
    rowOpLoop op m d s t x = m x := by
  have hword : ∀ (m : ByteMem) (a x : ℤ) (v : BitVec 64), x < a ∨ a + 8 ≤ x →
      storeLE m a v x = m x := fun m a x v h => storeLE_of_notMem (by omega)
  have hmap : ∀ f, (((RowLoop.mapStep f)^[rowWords]) ⟨m, d, s, t, 0#64⟩).mem x = m x := fun f =>
    iterate_up_frame (fun _ => rfl) (fun s x h => hword _ _ _ _ h) _ _ hx
  have hzip : ∀ f, (((RowLoop.zipStep f)^[rowWords]) ⟨m, d, s, t, 0#64⟩).mem x = m x := fun f =>
    iterate_up_frame (fun _ => rfl) (fun s x h => hword _ _ _ _ h) _ _ hx
  cases op with
  | rowAnd => exact hzip _
  | rowOr => exact hzip _
  | rowXor => exact hzip _
  | rowNot => exact hmap _
  | rowAap => exact hmap _
  | rowAp => rfl
  | rowLs =>
    refine iterate_up_frame (fun _ => rfl) (fun s x h => ?_) _ _ hx
    exact (hword _ _ _ _ h).trans (hword _ _ _ _ h)
  | rowRs =>
    simp only [rowOpLoop, skipStep_iterate]
    refine iterate_down_frame (fun _ => rfl) (fun s x h => ?_) _ _ (by dsimp only; omega)
    have h' : x < s.dest - 8 ∨ s.dest - 8 + 8 ≤ x := by omega
    exact (hword _ _ _ _ h').trans (hword _ _ _ _ h')

end ShifDram
