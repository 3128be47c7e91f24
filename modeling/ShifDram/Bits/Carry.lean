import Mathlib.Tactic

/-!
Carries of binary addition, by generated and propagated positions.

A position *generates* a carry when both operands have the bit and *propagates* one when exactly
one has it; `BitVec.carry i x y false` is the carry into position `i`.
-/

namespace ShifDram

namespace Carry

variable {w : ℕ} {x y : BitVec w} {i j : ℕ}

def gen (x y : BitVec w) (i : ℕ) : Bool := x.getLsbD i && y.getLsbD i

def prop (x y : BitVec w) (i : ℕ) : Bool := x.getLsbD i ^^ y.getLsbD i

/-- Neither operand has bit `i`: a carry ends there. -/
def kill (x y : BitVec w) (i : ℕ) : Bool := !(x.getLsbD i || y.getLsbD i)

lemma kill_eq_false_iff : kill x y i = false ↔ gen x y i = true ∨ prop x y i = true := by
  rw [kill, gen, prop]
  cases x.getLsbD i <;> cases y.getLsbD i <;> decide

lemma prop_eq_false_of_gen (h : gen x y i = true) : prop x y i = false := by
  rw [gen, Bool.and_eq_true] at h
  rw [prop, h.1, h.2, Bool.xor_self]

lemma gen_eq_false_of_prop (h : prop x y i = true) : gen x y i = false := by
  by_contra hg
  rw [prop_eq_false_of_gen (Bool.eq_true_of_not_eq_false hg)] at h
  cases h

lemma carry_succ_eq :
    BitVec.carry (i + 1) x y false = (gen x y i || prop x y i && BitVec.carry i x y false) := by
  rw [BitVec.carry_succ, gen, prop, Bool.atLeastTwo]
  cases x.getLsbD i <;> cases y.getLsbD i <;> cases BitVec.carry i x y false <;> rfl

lemma exists_gen_of_carry (h : BitVec.carry i x y false = true) : ∃ j < i, gen x y j = true := by
  induction i with
  | zero => simp [BitVec.carry_zero] at h
  | succ i ih =>
    rw [carry_succ_eq, Bool.or_eq_true, Bool.and_eq_true] at h
    rcases h with h | ⟨_, h⟩
    · exact ⟨i, by omega, h⟩
    · obtain ⟨j, hj, hg⟩ := ih h
      exact ⟨j, by omega, hg⟩

lemma carry_of_gen (hg : gen x y j = true) (hji : j < i)
    (hkill : ∀ k, j < k → k < i → kill x y k = false) : BitVec.carry i x y false = true := by
  induction i with
  | zero => omega
  | succ i ih =>
    rw [carry_succ_eq, Bool.or_eq_true, Bool.and_eq_true]
    rcases Nat.lt_or_ge j i with hlt | hge
    · have hc := ih hlt fun k h1 h2 => hkill k h1 (by omega)
      rcases kill_eq_false_iff.mp (hkill i hlt (by omega)) with h | h
      · exact Or.inl h
      · exact Or.inr ⟨h, hc⟩
    · obtain rfl : j = i := by omega
      exact Or.inl hg

lemma xor_xor_eq_add_iff (h : BitVec w) :
    x ^^^ y ^^^ h = x + y ↔ ∀ i < w, h.getLsbD i = BitVec.carry i x y false := by
  rw [BitVec.eq_of_getLsbD_eq_iff]
  refine forall₂_congr fun i hi => ?_
  rw [BitVec.getLsbD_add hi, BitVec.getLsbD_xor, BitVec.getLsbD_xor, ← Bool.xor_assoc]
  exact Bool.xor_right_inj

end Carry

end ShifDram
