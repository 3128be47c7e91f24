import Mathlib.Data.Nat.Count
import Mathlib.Data.Nat.Bitwise
import Mathlib.Tactic

/-!
Arithmetic on the bytes of a number.

`mapBytes f k v` applies `f` to the lowest `k` bytes of `v`, and `sumBytes f k v` adds the results
up.
-/

namespace ShifDram

namespace Bytes

/-- `f` applied to the lowest `k` bytes of a number. -/
def mapBytes (f : ℕ → ℕ) : ℕ → ℕ → ℕ
  | 0, _ => 0
  | k + 1, v => f (v % 256) + 256 * mapBytes f k (v / 256)

/-- The sum of `f` over the lowest `k` bytes of a number. -/
def sumBytes (f : ℕ → ℕ) : ℕ → ℕ → ℕ
  | 0, _ => 0
  | k + 1, v => f (v % 256) + sumBytes f k (v / 256)

/-- The byte `m` repeated `k` times. -/
def spread (m : ℕ) : ℕ → ℕ
  | 0 => 0
  | k + 1 => m + 256 * spread m k

variable {f g : ℕ → ℕ} {k v m : ℕ}

lemma mapBytes_congr (h : ∀ b < 256, f b = g b) : mapBytes f k v = mapBytes g k v := by
  induction k generalizing v with
  | zero => rfl
  | succ k ih => rw [mapBytes, mapBytes, h _ (Nat.mod_lt _ (by norm_num)), ih]

lemma sumBytes_congr (h : ∀ b < 256, f b = g b) : sumBytes f k v = sumBytes g k v := by
  induction k generalizing v with
  | zero => rfl
  | succ k ih => rw [sumBytes, sumBytes, h _ (Nat.mod_lt _ (by norm_num)), ih]

lemma mapBytes_id (h : v < 256 ^ k) : mapBytes (fun b => b) k v = v := by
  induction k generalizing v with
  | zero =>
    have h0 : v = 0 := by simpa using h
    rw [h0, mapBytes]
  | succ k ih =>
    rw [mapBytes, ih (Nat.div_lt_of_lt_mul (by rw [pow_succ'] at h; exact h)), Nat.mod_add_div]

lemma mapBytes_add : mapBytes f k v + mapBytes g k v = mapBytes (fun b => f b + g b) k v := by
  induction k generalizing v with
  | zero => rfl
  | succ k ih =>
    rw [mapBytes, mapBytes, mapBytes, ← ih]
    ring

lemma mapBytes_le (h : ∀ b < 256, g b ≤ f b) : mapBytes g k v ≤ mapBytes f k v := by
  induction k generalizing v with
  | zero => exact le_rfl
  | succ k ih =>
    have hlow := h (v % 256) (Nat.mod_lt _ (by norm_num))
    have hhigh := @ih (v / 256)
    rw [mapBytes, mapBytes]
    omega

lemma mapBytes_sub (h : ∀ b < 256, g b ≤ f b) :
    mapBytes f k v - mapBytes g k v = mapBytes (fun b => f b - g b) k v := by
  have hsum : mapBytes (fun b => f b - g b) k v + mapBytes g k v = mapBytes f k v := by
    rw [mapBytes_add]
    exact mapBytes_congr fun b hb => Nat.sub_add_cancel (h b hb)
  omega

lemma mapBytes_lt (h : ∀ b < 256, f b < 256) : mapBytes f k v < 256 ^ k := by
  induction k generalizing v with
  | zero => exact Nat.one_pos
  | succ k ih =>
    have hlow := h (v % 256) (Nat.mod_lt _ (by norm_num))
    have hhigh := @ih (v / 256)
    rw [mapBytes, pow_succ]
    omega

lemma mapBytes_mapBytes (h : ∀ b < 256, f b < 256) :
    mapBytes g k (mapBytes f k v) = mapBytes (fun b => g (f b)) k v := by
  induction k generalizing v with
  | zero => rfl
  | succ k ih =>
    have hlow := h (v % 256) (Nat.mod_lt _ (by norm_num))
    rw [mapBytes, mapBytes, mapBytes, Nat.add_mul_mod_self_left, Nat.mod_eq_of_lt hlow,
      Nat.add_mul_div_left _ _ (by norm_num), Nat.div_eq_of_lt hlow, Nat.zero_add, ih]

lemma and_add_mul (hm : m < 256) (M : ℕ) :
    v &&& (m + 256 * M) = (v % 256 &&& m) + 256 * (v / 256 &&& M) := by
  have hlow := Nat.and_mod_two_pow (a := v) (b := m + 256 * M) (n := 8)
  have hhigh := Nat.and_div_two_pow (a := v) (b := m + 256 * M) (n := 8)
  rw [show (2 : ℕ) ^ 8 = 256 by norm_num, Nat.add_mul_mod_self_left, Nat.mod_eq_of_lt hm] at hlow
  rw [show (2 : ℕ) ^ 8 = 256 by norm_num, Nat.add_mul_div_left _ _ (by norm_num),
    Nat.div_eq_of_lt hm, Nat.zero_add] at hhigh
  rw [← hlow, ← hhigh, Nat.mod_add_div]

lemma and_spread (hm : m < 256) : v &&& spread m k = mapBytes (fun b => b &&& m) k v := by
  induction k generalizing v with
  | zero => exact Nat.and_zero v
  | succ k ih => rw [spread, and_add_mul hm, ih, mapBytes]

lemma mod_and_of_lt {s : ℕ} (hs : s ≤ 8) (hm : m < 2 ^ (8 - s)) :
    v / 2 ^ s % 256 &&& m = v % 256 / 2 ^ s &&& m := by
  refine Nat.eq_of_testBit_eq fun i => ?_
  rw [Nat.testBit_and, Nat.testBit_and]
  by_cases hi : i < 8 - s
  · rw [show 256 = 2 ^ 8 by norm_num, Nat.testBit_mod_two_pow, Nat.testBit_div_two_pow,
      Nat.testBit_div_two_pow, Nat.testBit_mod_two_pow, decide_eq_true (show i < 8 by omega),
      decide_eq_true (show i + s < 8 by omega)]
  · have hbit : m.testBit i = false :=
      Nat.testBit_lt_two_pow (hm.trans_le (Nat.pow_le_pow_right (by norm_num) (by omega)))
    rw [hbit, Bool.and_false, Bool.and_false]

lemma div_and_spread {s : ℕ} (hs : s ≤ 8) (hm : m < 2 ^ (8 - s)) :
    v / 2 ^ s &&& spread m k = mapBytes (fun b => b / 2 ^ s &&& m) k v := by
  have hbyte : m < 256 := hm.trans_le (Nat.pow_le_pow_right (by norm_num) (Nat.sub_le 8 s))
  induction k generalizing v with
  | zero => exact Nat.and_zero _
  | succ k ih =>
    rw [spread, and_add_mul hbyte, mod_and_of_lt hs hm, Nat.div_right_comm, ih, mapBytes]

/-- Adding to every byte its upper nibble, without overflow. -/
lemma fold_nibbles (h : ∀ b < 256, f b % 16 ≤ 7 ∧ f b / 16 ≤ 7) :
    (mapBytes f k v + mapBytes f k v / 16) &&& spread 15 k =
      mapBytes (fun b => f b % 16 + f b / 16) k v := by
  have hand : ∀ n, n &&& 15 = n % 16 := fun n => Nat.and_two_pow_sub_one_eq_mod n 4
  induction k generalizing v with
  | zero => exact Nat.and_zero _
  | succ k ih =>
    obtain ⟨hlo, hhi⟩ := h (v % 256) (Nat.mod_lt _ (by norm_num))
    rw [spread, and_add_mul (by norm_num), hand, mapBytes, mapBytes, ← ih]
    set z := f (v % 256)
    set V := mapBytes f k (v / 256) with hV
    -- the nibble of the next byte that moves down is small as well
    have hnext : V % 16 ≤ 7 := by
      cases k with
      | zero => simp [hV, mapBytes]
      | succ k =>
        have := (h (v / 256 % 256) (Nat.mod_lt _ (by norm_num))).1
        rw [hV, mapBytes]
        omega
    have hquot : (z + 256 * V + (z + 256 * V) / 16) / 256 = V + V / 16 := by omega
    rw [hquot]
    omega

lemma mul_spread_one (h : sumBytes f 4 v < 256) :
    mapBytes f 4 v * 0x01010101 % 2 ^ 32 / 2 ^ 24 = sumBytes f 4 v := by
  simp only [mapBytes, sumBytes, Nat.add_zero, Nat.mul_zero] at h ⊢
  set a := f (v % 256)
  set b := f (v / 256 % 256)
  set c := f (v / 256 / 256 % 256)
  set d := f (v / 256 / 256 / 256 % 256)
  have hprod : (a + 256 * (b + 256 * (c + 256 * d))) * 0x01010101 =
      a + 2 ^ 8 * (a + b) + 2 ^ 16 * (a + b + c) + 2 ^ 24 * (a + (b + (c + d))) +
        2 ^ 32 * (b + c + d + 256 * (c + d) + 65536 * d) := by ring
  rw [hprod, Nat.add_mul_mod_self_left, Nat.mod_eq_of_lt (by omega)]
  omega

lemma count_congr {p q : ℕ → Prop} [DecidablePred p] [DecidablePred q] {n : ℕ}
    (h : ∀ i < n, p i ↔ q i) : Nat.count p n = Nat.count q n :=
  le_antisymm (Nat.count_mono_left fun i hi => (h i hi).mp)
    (Nat.count_mono_left fun i hi => (h i hi).mpr)

lemma count_testBit (k v : ℕ) : Nat.count (fun i => v.testBit i = true) (8 * k) =
      sumBytes (fun b => Nat.count (fun i => b.testBit i = true) 8) k v := by
  induction k generalizing v with
  | zero => rfl
  | succ k ih =>
    have hhigh : ∀ i, v.testBit (8 + i) = (v / 256).testBit i := by
      intro i
      rw [show 256 = 2 ^ 8 by norm_num, Nat.testBit_div_two_pow, Nat.add_comm]
    have hlow : Nat.count (fun i => v.testBit i = true) 8 =
        Nat.count (fun i => (v % 256).testBit i = true) 8 := by
      refine count_congr fun i hi => ?_
      rw [show 256 = 2 ^ 8 by norm_num, Nat.testBit_mod_two_pow, decide_eq_true hi, Bool.true_and]
    rw [Nat.mul_succ, Nat.add_comm, Nat.count_add, hlow, sumBytes, ← ih]
    simp only [hhigh]

end Bytes

end ShifDram
