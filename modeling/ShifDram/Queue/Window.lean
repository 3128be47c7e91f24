import Mathlib.Data.List.Chain
import Mathlib.Tactic

/-!
The last values of a sequence, newest first, made up with zeros while there are fewer.
-/

namespace ShifDram

open List

/-- The `n` newest values, made up with zeros. -/
def lastValues (n : ℕ) (l : List ℕ) : List ℕ := (l ++ List.replicate n 0).take n

@[simp] lemma length_lastValues (n : ℕ) (l : List ℕ) : (lastValues n l).length = n := by
  simp [lastValues]

lemma lastValues_cons (n t : ℕ) (l : List ℕ) :
    (t :: lastValues n l).dropLast = lastValues n (t :: l) := by
  cases n with
  | zero => rfl
  | succ n =>
    rw [dropLast_eq_take, length_cons, length_lastValues, lastValues, lastValues,
      Nat.add_sub_cancel, cons_append, take_succ_cons, take_succ_cons,
      take_take, min_eq_left (Nat.le_succ n)]

lemma oldest_lastValues {n : ℕ} (hn : n ≠ 0) (l : List ℕ) :
    (lastValues n l).getLastD 0 = l.getD (n - 1) 0 := by
  have hlen : n - 1 < n := by omega
  rw [getLastD_eq_getLast?, getLast?_eq_getElem?, length_lastValues, lastValues,
    List.getElem?_take_of_lt hlen, getD_eq_getElem?_getD, List.getElem?_append]
  split_ifs with h
  · rfl
  · rw [List.getElem?_eq_none (not_lt.mp h), List.getElem?_replicate]
    split_ifs <;> rfl

lemma spread {l : List ℕ} {g i k x y : ℕ} (h : l.IsChain fun x y => y + g ≤ x)
    (hx : l[i]? = some x) (hy : l[i + k]? = some y) : y + k * g ≤ x := by
  induction k generalizing y with
  | zero =>
    rw [add_zero, hx] at hy
    cases hy
    omega
  | succ k ih =>
    obtain ⟨hlt, hy'⟩ := List.getElem?_eq_some_iff.mp hy
    have hlt' : i + k < l.length := by omega
    have hz := ih (List.getElem?_eq_getElem hlt')
    have hstep := isChain_iff_getElem.mp h (i + k) (by omega)
    rw [← hy', Nat.succ_mul]
    have heq : l[i + (k + 1)] = l[i + k + 1] := rfl
    omega

end ShifDram
