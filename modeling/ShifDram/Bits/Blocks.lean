import Mathlib.Order.Interval.Finset.Nat
import Mathlib.Tactic

/-!
An interval of numbers cut at the multiples of a block size.
-/

namespace ShifDram

open List

namespace Blocks

variable {B a x lo hi n cnt : ℕ} {l : List (ℕ × ℕ)}

/-- The start of the block after that of `a`. -/
def next (B a : ℕ) : ℕ := (a / B + 1) * B

lemma next_le_iff (hB : 0 < B) : next B a ≤ x ↔ a / B < x / B := by
  rw [next, ← Nat.le_div_iff_mul_le hB, Nat.succ_le_iff]

lemma lt_next (hB : 0 < B) : a < next B a := not_le.mp fun h => lt_irrefl _ ((next_le_iff hB).mp h)

lemma next_div (hB : 0 < B) : next B a / B = a / B + 1 := Nat.mul_div_cancel _ hB

lemma next_sub_one_div (hB : 0 < B) : (next B a - 1) / B = a / B := by
  have hlt : (next B a - 1) / B < a / B + 1 := by
    rw [Nat.div_lt_iff_lt_mul hB]
    have := lt_next (a := a) hB
    exact Nat.sub_lt (by omega) one_pos
  have hle : a / B ≤ (next B a - 1) / B := Nat.div_le_div_right (Nat.le_sub_one_of_lt (lt_next hB))
  omega

lemma next_congr (h : a / B = x / B) : next B a = next B x := by rw [next, next, h]

lemma next_le_of_dvd (hB : 0 < B) (hx : B ∣ x) (h : a < x) : next B a ≤ x := by
  rw [next_le_iff hB]
  obtain ⟨k, rfl⟩ := hx
  rw [Nat.mul_div_cancel_left _ hB]
  exact Nat.div_lt_of_lt_mul h

/-- The blocks that the `n` numbers from `lo` on meet. -/
def touched (B lo n : ℕ) : Finset ℕ := (Finset.Ico lo (lo + n)).image (· / B)

lemma touched_eq_Icc (hB : 0 < B) (hn : 0 < n) :
    touched B lo n = Finset.Icc (lo / B) ((lo + n - 1) / B) := by
  ext k
  simp only [touched, Finset.mem_image, Finset.mem_Ico, Finset.mem_Icc]
  constructor
  · rintro ⟨x, ⟨hlo, hhi⟩, rfl⟩
    exact ⟨Nat.div_le_div_right hlo, Nat.div_le_div_right (by omega)⟩
  · rintro ⟨hlo, hhi⟩
    -- the start of the block, or of the interval
    refine ⟨max lo (k * B), ⟨le_max_left _ _, ?_⟩, ?_⟩
    · have hk : k * B ≤ lo + n - 1 := (Nat.le_div_iff_mul_le hB).mp hhi
      omega
    · rcases le_total (k * B) lo with hle | hle
      · rw [max_eq_left hle]
        exact le_antisymm hlo ((Nat.le_div_iff_mul_le hB).mpr hle)
      · rw [max_eq_right hle, Nat.mul_div_cancel _ hB]

lemma count_eq (hB : 0 < B) (hn : 0 < n) :
    (lo % B + n + B - 1) / B = (lo + n - 1) / B - lo / B + 1 := by
  have hlast : (lo + n - 1) / B = (lo % B + n - 1) / B + lo / B := by
    have hsplit : lo + n - 1 = lo % B + n - 1 + B * (lo / B) := by
      have := Nat.mod_add_div lo B
      omega
    rw [hsplit, Nat.add_mul_div_left _ _ hB]
  have hceil : lo % B + n + B - 1 = lo % B + n - 1 + B := by omega
  rw [hceil, Nat.add_div_right _ hB, hlast, Nat.add_sub_cancel]

/-- **The number of blocks that an interval meets.** -/
lemma card_touched (hB : 0 < B) (hn : 0 < n) :
    (touched B lo n).card = (lo % B + n + B - 1) / B := by
  have hle : lo / B ≤ (lo + n - 1) / B := Nat.div_le_div_right (by omega)
  rw [touched_eq_Icc hB hn, Nat.card_Icc, count_eq hB hn]
  omega

/-- `cnt` pieces from `a` on, up to `hi`: their starts and lengths. -/
def pieces (B hi : ℕ) : ℕ → ℕ → List (ℕ × ℕ)
  | 0, _ => []
  | cnt + 1, a => (a, min (next B a) hi - a) :: pieces B hi cnt (next B a)

/-- Nonempty pieces, each inside one block: the `n` numbers from `lo` on, in order. -/
structure Tiles (B lo n : ℕ) (l : List (ℕ × ℕ)) : Prop where
  nonempty : ∀ q ∈ l, 0 < q.2
  inBlock : ∀ q ∈ l, q.1 / B = (q.1 + q.2 - 1) / B
  covers : l.flatMap (fun q => List.range' q.1 q.2) = List.range' lo n

lemma Tiles.sum (h : Tiles B lo n l) : (l.map Prod.snd).sum = n := by
  have hlength := congrArg length h.covers
  simpa [length_flatMap] using hlength

lemma Tiles.cons {len : ℕ} (hpos : 0 < len) (hle : len ≤ n)
    (hblock : lo / B = (lo + len - 1) / B) (h : Tiles B (lo + len) (n - len) l) :
    Tiles B lo n ((lo, len) :: l) := by
  refine ⟨forall_mem_cons.mpr ⟨hpos, h.nonempty⟩, forall_mem_cons.mpr ⟨hblock, h.inBlock⟩, ?_⟩
  rw [flatMap_cons, h.covers, range'_append_1, Nat.add_sub_cancel' hle]

/-- **The cut is right** with as many pieces as there are blocks. -/
lemma tiles_pieces (hB : 0 < B) (ha : a < hi) (hcnt : cnt = (hi - 1) / B - a / B + 1) :
    Tiles B a (hi - a) (pieces B hi cnt a) := by
  induction cnt generalizing a with
  | zero => omega
  | succ cnt ih =>
    have hnext := lt_next (a := a) hB
    by_cases hlast : a / B < (hi - 1) / B
    · -- the block ends before the interval
      have hle : next B a ≤ hi - 1 := (next_le_iff hB).mpr hlast
      have hrest : Tiles B (next B a) (hi - next B a) (pieces B hi cnt (next B a)) :=
        ih (by omega) (by rw [next_div hB]; omega)
      have hlen : a + (min (next B a) hi - a) = next B a := by omega
      refine .cons (by omega) (by omega) ?_ ?_
      · rw [hlen, next_sub_one_div hB]
      · rwa [hlen, show hi - a - (min (next B a) hi - a) = hi - next B a by omega]
    · have hle : hi ≤ next B a := by
        by_contra hlt
        exact hlast ((next_le_iff hB).mp (by omega))
      have hcnt0 : cnt = 0 := by omega
      have hlen : a + (min (next B a) hi - a) = hi := by omega
      refine .cons (by omega) (by omega) ?_ ?_
      · rw [hlen]
        exact le_antisymm (Nat.div_le_div_right (by omega)) (not_lt.mp hlast)
      · rw [hcnt0, pieces, show hi - a - (min (next B a) hi - a) = 0 by omega]
        exact ⟨by simp, by simp, rfl⟩

end Blocks

end ShifDram
