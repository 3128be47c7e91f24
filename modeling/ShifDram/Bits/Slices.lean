import Mathlib.Data.Nat.Bitwise
import Mathlib.Order.Interval.Finset.Nat
import Mathlib.Tactic

/-!
Slices of the bits of a number, and how many numbers have given ones.
-/

namespace ShifDram

open Finset

namespace Slices

variable {m n N c : ℕ} {P : ℕ → Prop} [DecidablePred P]

lemma digits_div (hc : c < m) (q : ℕ) : (c + m * q) / m = q := by
  rw [Nat.add_mul_div_left _ _ (by omega), Nat.div_eq_of_lt hc, zero_add]

lemma digits_mod (hc : c < m) (q : ℕ) : (c + m * q) % m = c := by
  rw [Nat.add_mul_mod_self_left, Nat.mod_eq_of_lt hc]

lemma digits_lt {q : ℕ} (hc : c < m) (hq : q < N) : c + m * q < m * N := by
  calc c + m * q < m + m * q := Nat.add_lt_add_right hc _
    _ = m * (q + 1) := by ring
    _ ≤ m * N := Nat.mul_le_mul_left _ hq

lemma card_free (hm : 0 < m) : ((range (m * N)).filter fun x => P (x / m)).card =
      m * ((range N).filter P).card := by
  rw [← card_range m, ← card_product, card_range]
  refine card_nbij' (fun x => (x % m, x / m)) (fun q => q.1 + m * q.2) ?_ ?_ ?_ ?_
  · intro x hx
    obtain ⟨hlt, hP⟩ := mem_filter.mp hx
    refine mem_product.mpr ⟨mem_range.mpr (Nat.mod_lt _ hm), mem_filter.mpr ⟨?_, hP⟩⟩
    exact mem_range.mpr (Nat.div_lt_of_lt_mul (mem_range.mp hlt))
  · intro q hq
    obtain ⟨hlow, hhigh⟩ := mem_product.mp hq
    obtain ⟨hlt, hP⟩ := mem_filter.mp hhigh
    have hlow : q.1 < m := mem_range.mp hlow
    refine mem_filter.mpr ⟨?_, (digits_div hlow q.2).symm ▸ hP⟩
    exact mem_range.mpr (digits_lt hlow (mem_range.mp hlt))
  · exact fun x _ => Nat.mod_add_div x m
  · intro q hq
    have hlow : q.1 < m := mem_range.mp (mem_product.mp hq).1
    exact Prod.ext (digits_mod hlow q.2) (digits_div hlow q.2)

lemma card_fixed (hc : c < m) : ((range (m * N)).filter fun x => x % m = c ∧ P (x / m)).card =
      ((range N).filter P).card := by
  refine card_nbij' (fun x => x / m) (fun q => c + m * q) ?_ ?_ ?_ ?_
  · intro x hx
    obtain ⟨hlt, -, hP⟩ := mem_filter.mp hx
    exact mem_filter.mpr ⟨mem_range.mpr (Nat.div_lt_of_lt_mul (mem_range.mp hlt)), hP⟩
  · intro q hq
    obtain ⟨hlt, hP⟩ := mem_filter.mp hq
    refine mem_filter.mpr ⟨?_, digits_mod hc q, (digits_div hc q).symm ▸ hP⟩
    exact mem_range.mpr (digits_lt hc (mem_range.mp hlt))
  · intro x hx
    change c + m * (x / m) = x
    rw [← (mem_filter.mp hx).2.1, Nat.mod_add_div]
  · exact fun q _ => digits_div hc q

variable {low low' w x v : ℕ}

/-- The `w` bits of `x` from `low` on. -/
def slice (low w x : ℕ) : ℕ := x / 2 ^ low % 2 ^ w

/-- `x` with the bits of `v` inverted, from `low` on. -/
def flip (low v x : ℕ) : ℕ := x ^^^ v * 2 ^ low

lemma slice_lt (low w x : ℕ) : slice low w x < 2 ^ w := Nat.mod_lt _ (Nat.two_pow_pos w)

lemma flip_flip : flip low v (flip low v x) = x := by
  rw [flip, flip, Nat.xor_assoc, Nat.xor_self, Nat.xor_zero]

lemma slice_flip (hv : v < 2 ^ w) : slice low w (flip low v x) = slice low w x ^^^ v := by
  rw [slice, flip, Nat.xor_div_two_pow, Nat.xor_mod_two_pow,
    Nat.mul_div_cancel _ (Nat.two_pow_pos low), Nat.mod_eq_of_lt hv, slice]

lemma flip_div (hv : v < 2 ^ w) (h : low + w ≤ n) : flip low v x / 2 ^ n = x / 2 ^ n := by
  have hlt : v * 2 ^ low < 2 ^ n := by
    calc v * 2 ^ low < 2 ^ w * 2 ^ low := Nat.mul_lt_mul_of_pos_right hv (Nat.two_pow_pos low)
      _ = 2 ^ (low + w) := by rw [← pow_add, add_comm]
      _ ≤ 2 ^ n := Nat.pow_le_pow_right two_pos h
  rw [flip, Nat.xor_div_two_pow, Nat.div_eq_of_lt hlt, Nat.xor_zero]

lemma flip_mod (h : n ≤ low) : flip low v x % 2 ^ n = x % 2 ^ n := by
  have hdvd : 2 ^ n ∣ v * 2 ^ low := Dvd.dvd.mul_left (pow_dvd_pow 2 h) v
  rw [flip, Nat.xor_mod_two_pow, Nat.mod_eq_zero_of_dvd hdvd, Nat.xor_zero]

lemma slice_flip_of_disjoint (hv : v < 2 ^ w) (h : low + w ≤ low' ∨ low' + w ≤ low) :
    slice low' w (flip low v x) = slice low' w x := by
  rcases h with h | h
  · rw [slice, flip_div hv h, slice]
  · -- the slice only depends on the bits below `low' + w`
    have hmod : ∀ y, slice low' w y = y % 2 ^ (low' + w) / 2 ^ low' := fun y => by
      rw [slice, pow_add, Nat.mod_mul_right_div_self]
    rw [hmod, hmod, flip_mod h]

lemma flip_mem_Ico {lo hi : ℕ} (hv : v < 2 ^ w) (hlo : 2 ^ (low + w) ∣ lo)
    (hhi : 2 ^ (low + w) ∣ hi)
    (hx : x ∈ Finset.Ico lo hi) : flip low v x ∈ Finset.Ico lo hi := by
  obtain ⟨a, rfl⟩ := hlo
  obtain ⟨b, rfl⟩ := hhi
  have hpos : 0 < 2 ^ (low + w) := Nat.two_pow_pos _
  rw [mem_Ico, mul_comm _ a, mul_comm _ b, ← Nat.le_div_iff_mul_le hpos,
    ← Nat.div_lt_iff_lt_mul hpos] at hx ⊢
  rwa [flip_div hv le_rfl]

/-- **A slice matched after an XOR with other bits**, which permutes its values. -/
lemma card_hashed {S : Finset ℕ} {h : ℕ → ℕ} (hlt : ∀ x, h x < 2 ^ w)
    (hother : ∀ x v, v < 2 ^ w → h (flip low v x) = h x)
    (hS : ∀ x ∈ S, ∀ v < 2 ^ w, flip low v x ∈ S) :
    (S.filter fun x => slice low w x ^^^ h x = c).card =
      (S.filter fun x => slice low w x = c).card := by
  have hback : ∀ x, flip low (h (flip low (h x) x)) (flip low (h x) x) = x := fun x => by
    rw [hother x _ (hlt x), flip_flip]
  refine card_nbij' (fun x => flip low (h x) x) (fun x => flip low (h x) x) ?_ ?_
    (fun x _ => hback x) fun x _ => hback x
  · intro x hx
    obtain ⟨hmem, heq⟩ := mem_filter.mp hx
    refine mem_filter.mpr ⟨hS x hmem _ (hlt x), ?_⟩
    rw [slice_flip (hlt x), heq]
  · intro x hx
    obtain ⟨hmem, heq⟩ := mem_filter.mp hx
    refine mem_filter.mpr ⟨hS x hmem _ (hlt x), ?_⟩
    rw [slice_flip (hlt x), hother x _ (hlt x), Nat.xor_assoc, Nat.xor_self, Nat.xor_zero, heq]

/-- How often a slice has a value in an interval aligned above it. -/
lemma card_slice {len : ℕ} (hc : c < 2 ^ w) (lo : ℕ) (hlen : 2 ^ (low + w) ∣ len) :
    ((Finset.Ico lo (lo + len)).filter fun x => slice low w x = c).card = len / 2 ^ w := by
  obtain ⟨N, rfl⟩ := hlen
  have hpow : 2 ^ (low + w) = 2 ^ low * 2 ^ w := pow_add 2 low w
  -- the slice is periodic, so the interval may start at 0
  have hperiod : Function.Periodic (fun x => slice low w x = c) (2 ^ (low + w) * N) := fun x => by
    simp only [slice, hpow, mul_assoc, Nat.add_mul_div_left _ _ (Nat.two_pow_pos low),
      Nat.add_mul_mod_self_left]
  have hshift := Nat.filter_Ico_card_eq_of_periodic lo _ _ hperiod
  rw [Nat.count_eq_card_filter_range] at hshift
  have hcount : ((range (2 ^ w * N)).filter fun q => q % 2 ^ w = c).card = N := by
    have hfixed := card_fixed (N := N) (P := fun _ => True) hc
    simpa using hfixed
  have hfree := card_free (m := 2 ^ low) (N := 2 ^ w * N) (P := fun q => q % 2 ^ w = c)
    (Nat.two_pow_pos low)
  rw [hshift, hpow, mul_assoc]
  refine hfree.trans ?_
  rw [hcount, mul_left_comm, Nat.mul_div_cancel_left _ (Nat.two_pow_pos w)]

end Slices

end ShifDram
