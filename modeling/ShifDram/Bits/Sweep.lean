import ShifDram.Bits.ByteMem

/-!
Word-by-word sweeps over a byte store.

A loop that rewrites a span one 64-bit word at a time, upwards or downwards, has at each moment
rewritten a contiguous block of words and left everything else: `Swept`.
-/

namespace ShifDram

namespace ByteMem

variable {w : ℕ}

lemma leNat_congr {m m' : ByteMem} {a b : ℤ} {n : ℕ}
    (h : ∀ j < n, m (a + (j : ℕ)) = m' (b + (j : ℕ))) : leNat m a n = leNat m' b n := by
  induction n with
  | zero => rfl
  | succ n ih =>
    rw [leNat, leNat, h n (by omega), ih fun j hj => h j (by omega)]

lemma loadLE_congr {m m' : ByteMem} {a : ℤ} (h : ∀ x, a ≤ x → x < a + (w / 8 : ℕ) → m x = m' x) :
    loadLE w m a = loadLE w m' a := by
  rw [loadLE, loadLE, leNat_congr fun j hj => h _ (by omega) (by omega)]

lemma loadLE_storeLE_self (hw : 8 ∣ w) (m : ByteMem) (a : ℤ) (v : BitVec w) :
    loadLE w (storeLE m a v) a = v := by
  rw [loadLE_eq_iff hw]
  intro i hi
  have hin : a ≤ a + (i / 8 : ℕ) ∧ a + (i / 8 : ℕ) < a + (w / 8 : ℕ) := by omega
  have hidx : 8 * (a + (i / 8 : ℕ) - a).toNat + i % 8 = i := by omega
  rw [bitAt_storeLE, if_pos hin, hidx]

lemma storeLE_storeLE (m : ByteMem) (a : ℤ) (u v : BitVec w) :
    storeLE (storeLE m a u) a v = storeLE m a v := by
  funext x
  by_cases h : a ≤ x ∧ x < a + (w / 8 : ℕ)
  · simp only [storeLE, if_pos h]
  · simp only [storeLE, if_neg h]

lemma loadLE_storeLE_of_apart {m : ByteMem} {a b : ℤ} {v : BitVec w}
    (h : b + (w / 8 : ℕ) ≤ a ∨ a + (w / 8 : ℕ) ≤ b) : loadLE w (storeLE m a v) b = loadLE w m b :=
  loadLE_congr fun _ _ _ => storeLE_of_notMem (by omega)

/-- The words `lo, …, hi - 1` at `d` hold the bits `F`, and nothing else has changed. -/
structure Swept (m m' : ByteMem) (d : ℤ) (lo hi : ℕ) (F : ℕ → Bool) : Prop where
  bits : ∀ i, 64 * lo ≤ i → i < 64 * hi → bitAt m' d i = F i
  frame : ∀ x, x < d + (8 * lo : ℕ) ∨ d + (8 * hi : ℕ) ≤ x → m' x = m x

/-- The `n` words at `s` are those at `d`, or share no byte with them. -/
def SameOrApart (s d : ℤ) (n : ℕ) : Prop := s = d ∨ s + (8 * n : ℕ) ≤ d ∨ d + (8 * n : ℕ) ≤ s

namespace Swept

variable {m m' : ByteMem} {d : ℤ} {lo hi : ℕ} {F : ℕ → Bool} {v : BitVec 64}

lemma nil (m : ByteMem) (d : ℤ) (k : ℕ) (F : ℕ → Bool) : Swept m m d k k F :=
  ⟨fun _ h1 h2 => absurd h2 (by omega), fun _ _ => rfl⟩

lemma up (h : Swept m m' d lo hi F) (hle : lo ≤ hi) (hv : ∀ b < 64, v.getLsbD b = F (64 * hi + b)) :
    Swept m (storeLE m' (d + (8 * hi : ℕ)) v) d lo (hi + 1) F := by
  constructor
  · intro i h1 h2
    rw [bitAt_storeWord]
    split
    · next hw =>
      rw [hv (i - 64 * hi) (by omega)]
      congr 1
      omega
    · exact h.bits i h1 (by omega)
  · intro x hx
    rw [storeLE_of_notMem (by omega)]
    exact h.frame x (by omega)

lemma down (h : Swept m m' d (lo + 1) hi F) (hle : lo < hi)
    (hv : ∀ b < 64, v.getLsbD b = F (64 * lo + b)) :
    Swept m (storeLE m' (d + (8 * lo : ℕ)) v) d lo hi F := by
  constructor
  · intro i h1 h2
    rw [bitAt_storeWord]
    split
    · next hw =>
      rw [hv (i - 64 * lo) (by omega)]
      congr 1
      omega
    · exact h.bits i (by omega) h2
  · intro x hx
    rw [storeLE_of_notMem (by omega)]
    exact h.frame x (by omega)

/-- A source word that the sweep has not reached reads as at the start. -/
lemma load_eq (h : Swept m m' d lo hi F) {s : ℤ} {n k : ℕ} (hs : SameOrApart s d n)
    (hn : hi ≤ n) (hk : k < n) (hout : k < lo ∨ hi ≤ k) :
    loadLE 64 m' (s + (8 * k : ℕ)) = loadLE 64 m (s + (8 * k : ℕ)) := by
  refine loadLE_congr fun x hx1 hx2 => h.frame x ?_
  rcases hs with rfl | hs | hs <;> omega

end Swept

end ByteMem

end ShifDram
