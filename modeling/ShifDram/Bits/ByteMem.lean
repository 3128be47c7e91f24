import Mathlib.Tactic

/-!
Byte-addressed stores and their little-endian readings.

`leNat` reads a span of bytes as one number, least significant byte first; bit `i` of a span
(`bitAt`) is bit `i % 8` of its byte `i / 8`.
-/

namespace ShifDram

abbrev ByteMem := ℤ → BitVec 8

namespace ByteMem

variable {w : ℕ} (m : ByteMem) (a : ℤ)

/-- The `n` bytes from `a` on as one little-endian number. -/
def leNat (m : ByteMem) (a : ℤ) : ℕ → ℕ
  | 0 => 0
  | n + 1 => 2 ^ (8 * n) * (m (a + n)).toNat + leNat m a n

/-- Bit `i` of the span that starts at `a`. -/
def bitAt (i : ℕ) : Bool := (m (a + (i / 8 : ℕ))).getLsbD (i % 8)

/-- The `w` bits from `a` on as one little-endian word. -/
def loadLE (w : ℕ) (m : ByteMem) (a : ℤ) : BitVec w := BitVec.ofNat w (leNat m a (w / 8))

/-- The store that holds the word `v` in the `w / 8` bytes from `a` on. -/
def storeLE (v : BitVec w) : ByteMem := fun x =>
  if a ≤ x ∧ x < a + (w / 8 : ℕ) then v.extractLsb' (8 * (x - a).toNat) 8 else m x

lemma leNat_lt (n : ℕ) : leNat m a n < 2 ^ (8 * n) := by
  induction n with
  | zero => simp [leNat]
  | succ n ih =>
    have hb : (m (a + n)).toNat + 1 ≤ 2 ^ 8 := (m (a + n)).isLt
    have hmul : 2 ^ (8 * n) * ((m (a + n)).toNat + 1) ≤ 2 ^ (8 * n) * 2 ^ 8 :=
      Nat.mul_le_mul_left _ hb
    rw [leNat, show 8 * (n + 1) = 8 * n + 8 from by ring, pow_add]
    rw [Nat.mul_add, Nat.mul_one] at hmul
    omega

lemma testBit_leNat (n i : ℕ) : (leNat m a n).testBit i = (decide (i < 8 * n) && bitAt m a i) := by
  induction n with
  | zero => simp [leNat]
  | succ n ih =>
    rw [leNat, Nat.testBit_two_pow_mul_add _ (leNat_lt m a n), ih]
    by_cases hlo : i < 8 * n
    · have hhi : i < 8 * (n + 1) := by omega
      simp [hlo, hhi]
    · by_cases hhi : i < 8 * (n + 1)
      · -- the bit lies in the byte read last
        have hdiv : i / 8 = n := by omega
        have hmod : i % 8 = i - 8 * n := by omega
        simp [hlo, hhi, bitAt, hdiv, hmod, BitVec.getLsbD]
      · have hbig : 8 ≤ i - 8 * n := by omega
        have hzero : (m (a + n)).toNat.testBit (i - 8 * n) = false :=
          Nat.testBit_lt_two_pow
            (lt_of_lt_of_le (m (a + n)).isLt (Nat.pow_le_pow_right (by norm_num) hbig))
        simp [hlo, hhi, hzero]

lemma getLsbD_loadLE (hw : 8 ∣ w) (m : ByteMem) (a : ℤ) (i : ℕ) :
    (loadLE w m a).getLsbD i = (decide (i < w) && bitAt m a i) := by
  rw [loadLE, BitVec.getLsbD_ofNat, testBit_leNat, Nat.mul_div_cancel' hw]
  by_cases h : i < w <;> simp [h]

lemma loadLE_eq_iff (hw : 8 ∣ w) (m : ByteMem) (a : ℤ) (v : BitVec w) :
    loadLE w m a = v ↔ ∀ i < w, bitAt m a i = v.getLsbD i := by
  rw [BitVec.eq_of_getLsbD_eq_iff]
  refine forall_congr' fun i => forall_congr' fun hi => ?_
  rw [getLsbD_loadLE hw]
  simp [hi]

lemma bitAt_add (k i : ℕ) : bitAt m (a + k) i = bitAt m a (8 * k + i) := by
  have hdiv : (8 * k + i) / 8 = k + i / 8 := by omega
  have hmod : (8 * k + i) % 8 = i % 8 := by omega
  rw [bitAt, bitAt, hdiv, hmod]
  push_cast
  ring

lemma bitAt_congr {m m' : ByteMem} {a : ℤ} {i : ℕ}
    (h : m (a + (i / 8 : ℕ)) = m' (a + (i / 8 : ℕ))) : bitAt m a i = bitAt m' a i := by
  rw [bitAt, bitAt, h]

lemma storeLE_of_notMem {m : ByteMem} {a : ℤ} {v : BitVec w} {x : ℤ}
    (h : x < a ∨ a + (w / 8 : ℕ) ≤ x) : storeLE m a v x = m x := by
  rw [storeLE, if_neg (by omega)]

lemma bitAt_storeLE (v : BitVec w) (b : ℤ) (i : ℕ) : bitAt (storeLE m a v) b i =
      if a ≤ b + (i / 8 : ℕ) ∧ b + (i / 8 : ℕ) < a + (w / 8 : ℕ) then
        v.getLsbD (8 * (b + (i / 8 : ℕ) - a).toNat + i % 8)
      else bitAt m b i := by
  have hmod : i % 8 < 8 := Nat.mod_lt _ (by norm_num)
  rw [bitAt, storeLE]
  split
  · simp [hmod]
  · rfl

lemma bitAt_storeWord (d : ℤ) (k : ℕ) (v : BitVec 64) (i : ℕ) :
    bitAt (storeLE m (d + (8 * k : ℕ)) v) d i =
      if 64 * k ≤ i ∧ i < 64 * (k + 1) then v.getLsbD (i - 64 * k) else bitAt m d i := by
  rw [bitAt_storeLE]
  by_cases h : 64 * k ≤ i ∧ i < 64 * (k + 1)
  · have hidx : 8 * (d + (i / 8 : ℕ) - (d + (8 * k : ℕ))).toNat + i % 8 = i - 64 * k := by
      omega
    rw [if_pos h, if_pos (by omega), hidx]
  · rw [if_neg h, if_neg (by omega)]

lemma getLsbD_loadWord (s : ℤ) (k : ℕ) {b : ℕ} (hb : b < 64) :
    (loadLE 64 m (s + (8 * k : ℕ))).getLsbD b = bitAt m s (64 * k + b) := by
  have hidx : 8 * (8 * k) + b = 64 * k + b := by ring
  rw [getLsbD_loadLE (by norm_num), bitAt_add, hidx]
  simp [hb]

end ByteMem

end ShifDram
