import ShifDram.Bits.Carry
import ShifDram.Mem.RowMachine

/-!
The bulk adder of the sum-of-absolute-differences workload (`microworkloads/sad_plus.c`).

A mask of lanes with bit `0` cleared is written with ordinary stores, and the sum is then computed
with row ops on scratch rows. It is meant as a Kogge–Stone adder; `rowopShiftNMask`, however,
shifts by one bit however large `N` is.
-/

namespace ShifDram

open Function

namespace SadPlus

open AbstractMemory

def rowopAnd (mem : AbstractMemory) (d s1 s2 : RowAddr) : AbstractMemory :=
  mem.issue ⟨.rowAnd, d, s1, s2⟩

def rowopOr (mem : AbstractMemory) (d s1 s2 : RowAddr) : AbstractMemory :=
  mem.issue ⟨.rowOr, d, s1, s2⟩

def rowopXor (mem : AbstractMemory) (d s1 s2 : RowAddr) : AbstractMemory :=
  mem.issue ⟨.rowXor, d, s1, s2⟩

def rowopAap (mem : AbstractMemory) (d s : RowAddr) : AbstractMemory :=
  mem.issue ⟨.rowAap, d, s, .ofNat 0⟩

def rowopShift (mem : AbstractMemory) (d s : RowAddr) : AbstractMemory :=
  mem.issue ⟨.rowLs, d, s, .ofNat 0⟩

/-- `rowop_shift_n_mask`: both branches of `(cnt==0) ? s : s` shift from `s`. -/
def rowopShiftNMask (mem : AbstractMemory) (d s : RowAddr) (N : ℕ) (mask : RowAddr) :
    AbstractMemory :=
  (fun m => rowopAnd (rowopShift m d s) d d mask)^[N] mem

inductive Temp where
  | mask | and0 | xor0 | andN | orN | andNshift | orNshift | andTemp | andNCopy
  deriving DecidableEq

/-- From `posix_memalign`: row-aligned, all different. -/
structure Scratch where
  row : Temp → RowAddr
  injective : Function.Injective row

/-- The body of the loop over `shift`. -/
def rowAddRound (sc : Scratch) (shift : ℕ) (mem : AbstractMemory) : AbstractMemory :=
  let shifted :=
    if shift = 1 then
      let mem := rowopShiftNMask mem (sc.row .orNshift) (sc.row .and0) shift (sc.row .mask)
      rowopShiftNMask mem (sc.row .andNshift) (sc.row .xor0) shift (sc.row .mask)
    else
      let mem := rowopShiftNMask mem (sc.row .orNshift) (sc.row .orN) shift (sc.row .mask)
      rowopShiftNMask mem (sc.row .andNshift) (sc.row .andN) shift (sc.row .mask)
  if shift = 1 then
    let mem := rowopAap shifted (sc.row .andNCopy) (sc.row .and0)
    let mem := rowopAnd mem (sc.row .andTemp) (sc.row .xor0) (sc.row .andNshift)
    let mem := rowopAnd mem (sc.row .andN) (sc.row .xor0) (sc.row .orNshift)
    rowopOr mem (sc.row .orN) (sc.row .andNCopy) (sc.row .andTemp)
  else
    let mem := rowopAnd shifted (sc.row .andTemp) (sc.row .andN) (sc.row .orNshift)
    let mem := rowopAnd mem (sc.row .andN) (sc.row .andN) (sc.row .andNshift)
    rowopOr mem (sc.row .orN) (sc.row .orN) (sc.row .orNshift)

/-- `for (int shift = 1; shift < N; shift *= 2)`, from `shift` on. -/
def rowAddLoop (sc : Scratch) (N shift : ℕ) (mem : AbstractMemory) : AbstractMemory :=
  if 0 < shift ∧ shift < N then rowAddLoop sc N (shift * 2) (rowAddRound sc shift mem) else mem
termination_by N - shift

def rowAdd (mem : AbstractMemory) (sc : Scratch) (d s1 s2 : RowAddr) (N rowBytes : ℕ) :
    AbstractMemory :=
  let mem := mem.fillWords (sc.row .mask).1 (~~~1#32) (rowBytes / (N / 8) * (N / 32))
  let mem := rowopAnd mem (sc.row .and0) s1 s2
  let mem := rowopXor mem (sc.row .xor0) s1 s2
  let mem := rowAddLoop sc N 1 mem
  let mem := rowopShiftNMask mem (sc.row .orNshift) (sc.row .orN) 1 (sc.row .mask)
  rowopXor mem d (sc.row .xor0) (sc.row .orNshift)

/-! ### The program on rows -/

variable (mem : AbstractMemory)

@[simp] lemma rows_rowopAnd (d s1 s2 : RowAddr) :
    (rowopAnd mem d s1 s2).rows = update mem.rows d (mem.rows s1 &&& mem.rows s2) :=
  rows_issue mem fun h => by rcases h with h | h <;> cases h

@[simp] lemma rows_rowopOr (d s1 s2 : RowAddr) :
    (rowopOr mem d s1 s2).rows = update mem.rows d (mem.rows s1 ||| mem.rows s2) :=
  rows_issue mem fun h => by rcases h with h | h <;> cases h

@[simp] lemma rows_rowopXor (d s1 s2 : RowAddr) :
    (rowopXor mem d s1 s2).rows = update mem.rows d (mem.rows s1 ^^^ mem.rows s2) :=
  rows_issue mem fun h => by rcases h with h | h <;> cases h

@[simp] lemma rows_rowopAap (d s : RowAddr) :
    (rowopAap mem d s).rows = update mem.rows d (mem.rows s) :=
  rows_issue mem fun h => by rcases h with h | h <;> cases h

lemma rows_rowopShift {d s : RowAddr} (hs : s ≠ d) :
    (rowopShift mem d s).rows = update mem.rows d (mem.rows s <<< 1) :=
  rows_issue mem fun _ => hs

/-- For every `N ≥ 1` the wrapper shifts by one bit: each pass starts from `s`. -/
lemma rows_rowopShiftNMask {d s mask : RowAddr} {N : ℕ} (hN : 0 < N) (hs : s ≠ d)
    (hmask : mask ≠ d) :
    (rowopShiftNMask mem d s N mask).rows =
      update mem.rows d (mem.rows s <<< 1 &&& mem.rows mask) := by
  have hpass : ∀ m : AbstractMemory, (rowopAnd (rowopShift m d s) d d mask).rows =
      update m.rows d (m.rows s <<< 1 &&& m.rows mask) := by
    intro m
    rw [rows_rowopAnd, rows_rowopShift m hs, update_idem, update_self, update_of_ne hmask]
  induction N with
  | zero => omega
  | succ N ih =>
    rw [rowopShiftNMask, iterate_succ_apply', hpass]
    rcases Nat.eq_zero_or_pos N with rfl | hpos
    · rfl
    · have hrows := ih hpos
      rw [rowopShiftNMask] at hrows
      rw [hrows, update_idem, update_of_ne hs, update_of_ne hmask]

variable {mem} {sc : Scratch} {M p o : BitVec rowBits}

@[simp] lemma Scratch.row_eq_iff {t t' : Temp} : sc.row t = sc.row t' ↔ t = t' :=
  sc.injective.eq_iff

/-- The mask `M`, the half sum `p` and the accumulator `o`. -/
structure RowAddInv (sc : Scratch) (M p o : BitVec rowBits) (mem : AbstractMemory) : Prop where
  mask : mem.rows (sc.row .mask) = M
  xor0 : mem.rows (sc.row .xor0) = p
  orN : mem.rows (sc.row .orN) = o

lemma rowAddInv_rowAddRound_one {g : BitVec rowBits} (hmask : mem.rows (sc.row .mask) = M)
    (hxor : mem.rows (sc.row .xor0) = p) (hand : mem.rows (sc.row .and0) = g) :
    RowAddInv sc M p (g ||| p &&& (p <<< 1 &&& M)) (rowAddRound sc 1 mem) := by
  constructor <;> simp [rowAddRound, rows_rowopShiftNMask, hmask, hxor, hand]

/-- A later round ORs in the shifted accumulator; `andN` is not used for the sum. -/
lemma RowAddInv.rowAddRound (h : RowAddInv sc M p o mem) {shift : ℕ} (hshift : 1 < shift) :
    RowAddInv sc M p (o ||| o <<< 1 &&& M) (rowAddRound sc shift mem) := by
  have hne : shift ≠ 1 := by omega
  have hpos : 0 < shift := by omega
  constructor <;> simp [SadPlus.rowAddRound, rows_rowopShiftNMask, hne, hpos, h.mask, h.xor0, h.orN]

/-- The accumulator after `k` later rounds. -/
def smearRow (M : BitVec rowBits) (k : ℕ) (o : BitVec rowBits) : BitVec rowBits :=
  (fun r : BitVec rowBits => r ||| r <<< 1 &&& M)^[k] o

lemma RowAddInv.rowAddLoop (h : RowAddInv sc M p o mem) {N shift k : ℕ} (hshift : 1 < shift)
    (hN : N = shift * 2 ^ k) : RowAddInv sc M p (smearRow M k o) (rowAddLoop sc N shift mem) := by
  induction k generalizing shift o mem with
  | zero =>
    rw [SadPlus.rowAddLoop, if_neg (by omega)]
    exact h
  | succ k ih =>
    have hlt : shift < N := by
      rw [hN, pow_succ]
      have : 0 < 2 ^ k := Nat.two_pow_pos k
      nlinarith
    rw [SadPlus.rowAddLoop, if_pos ⟨by omega, hlt⟩]
    exact ih (h.rowAddRound hshift) (by omega) (by rw [hN, pow_succ]; ring)

/-- The result row of `row_add` at width 32. -/
lemma rows_rowAdd (mem : AbstractMemory) (sc : Scratch) (d s1 s2 : RowAddr) (rowBytes : ℕ)
    (h1 : ∀ t, s1 ≠ sc.row t) (h2 : ∀ t, s2 ≠ sc.row t) (hbytes : rowBytes ≤ rowSize) :
    ∃ M, (∀ k < rowBytes / 4, lane M k = ~~~1#32) ∧ (rowAdd mem sc d s1 s2 32 rowBytes).rows d =
        mem.rows s1 ^^^ mem.rows s2 ^^^ (smearRow M 4 (mem.rows s1 &&& mem.rows s2 |||
            (mem.rows s1 ^^^ mem.rows s2) &&&
              ((mem.rows s1 ^^^ mem.rows s2) <<< 1 &&& M)) <<< 1 &&& M) := by
  have hlen : rowBytes / 4 ≤ 2048 := by
    simp only [rowSize] at hbytes
    omega
  have hcount : rowBytes / (32 / 8) * (32 / 32) = rowBytes / 4 := by simp
  set memM := mem.fillWords (sc.row .mask).1 (~~~1#32) (rowBytes / 4) with hmemM
  have hsrc : ∀ s, (∀ t, s ≠ sc.row t) → memM.rows s = mem.rows s := fun s hs =>
    rowAt_fillWords_of_apart mem _ hlen (RowAddr.rowsApart_of_ne (hs .mask))
  refine ⟨memM.rows (sc.row .mask), fun k hk => lane_fillWords mem _ _ hlen hk, ?_⟩
  -- the porch: generate and propagate rows
  set mem0 := rowopXor (rowopAnd memM (sc.row .and0) s1 s2) (sc.row .xor0) s1 s2 with hmem0
  have hmask0 : mem0.rows (sc.row .mask) = memM.rows (sc.row .mask) := by
    simp [hmem0, update_apply]
  have hand0 : mem0.rows (sc.row .and0) = mem.rows s1 &&& mem.rows s2 := by
    simp [hmem0, update_apply, hsrc s1 h1, hsrc s2 h2]
  have hxor0 : mem0.rows (sc.row .xor0) = mem.rows s1 ^^^ mem.rows s2 := by
    simp [hmem0, hsrc s1 h1, hsrc s2 h2, h1, h2]
  have hfirst : rowAddLoop sc 32 1 mem0 = rowAddLoop sc 32 2 (rowAddRound sc 1 mem0) := by
    rw [rowAddLoop, if_pos (by norm_num)]
  have hloop := (rowAddInv_rowAddRound_one hmask0 hxor0 hand0).rowAddLoop
    (show 1 < 2 by norm_num) (show 32 = 2 * 2 ^ 4 by norm_num)
  rw [← hfirst] at hloop
  simp only [rowAdd, hcount, ← hmemM, ← hmem0]
  simp [rows_rowopShiftNMask, hloop.mask, hloop.xor0, hloop.orN]

/-! ### The lanes of the result -/

section Lane

open Carry

variable {w k : ℕ} {x y : BitVec w}

/-- `smearRow` on a lane. -/
def smear (k : ℕ) (o : BitVec w) : BitVec w := (fun r : BitVec w => r ||| r <<< 1)^[k] o

/-- The first round: generated positions, and the upper of two adjacent propagating ones. -/
def seed (x y : BitVec w) : BitVec w := x &&& y ||| (x ^^^ y) &&& (x ^^^ y) <<< 1

/-- `row_add` in a lane, `k` rounds after the first. -/
def addLane (k : ℕ) (x y : BitVec w) : BitVec w := x ^^^ y ^^^ smear k (seed x y) <<< 1

lemma getLsbD_smear (o : BitVec w) (i : ℕ) (hi : i < w) :
    (smear k o).getLsbD i = true ↔ ∃ j ≤ i, i ≤ j + k ∧ o.getLsbD j = true := by
  induction k generalizing i with
  | zero =>
    constructor
    · exact fun h => ⟨i, le_rfl, by omega, h⟩
    · rintro ⟨j, hj1, hj2, h⟩
      obtain rfl : j = i := by omega
      exact h
  | succ k ih =>
    rw [smear, iterate_succ_apply', BitVec.getLsbD_or, Bool.or_eq_true,
      BitVec.getLsbD_shiftLeft, ← smear]
    constructor
    · rintro (h | h)
      · obtain ⟨j, hj1, hj2, hj⟩ := (ih i hi).mp h
        exact ⟨j, hj1, by omega, hj⟩
      · simp only [Bool.and_eq_true, decide_eq_true_eq, Bool.not_eq_true',
          decide_eq_false_iff_not] at h
        obtain ⟨j, hj1, hj2, hj⟩ := (ih (i - 1) (by omega)).mp h.2
        exact ⟨j, by omega, by omega, hj⟩
    · rintro ⟨j, hj1, hj2, hj⟩
      by_cases hlast : i ≤ j + k
      · exact Or.inl ((ih i hi).mpr ⟨j, hj1, hlast, hj⟩)
      · have h1 : ¬ i < 1 := by omega
        have hrec := (ih (i - 1) (by omega)).mpr ⟨j, by omega, by omega, hj⟩
        exact Or.inr (by simp [hi, h1, hrec])

lemma getLsbD_seed (i : ℕ) (hi : i < w) : (seed x y).getLsbD i = true ↔
      gen x y i = true ∨ 0 < i ∧ prop x y i = true ∧ prop x y (i - 1) = true := by
  have hpos : (decide (i < w) && !decide (i < 1)) = decide (0 < i) := by
    by_cases h0 : i = 0
    · simp [h0]
    · have h1 : ¬ i < 1 := by omega
      simp [hi, h1, Nat.pos_of_ne_zero h0]
  rw [seed, BitVec.getLsbD_or, BitVec.getLsbD_and, BitVec.getLsbD_and, BitVec.getLsbD_shiftLeft,
    hpos, BitVec.getLsbD_xor, BitVec.getLsbD_xor, ← gen, ← prop, ← prop]
  simp only [Bool.or_eq_true, Bool.and_eq_true, decide_eq_true_eq]
  tauto

/-- No position below the top kills a generated carry, and two adjacent propagating positions come
only after one. -/
def CarrySafe (x y : BitVec w) : Prop :=
  (∀ i j, i < j → j + 1 < w → gen x y i = true → kill x y j = false) ∧
  ∀ i, i + 2 < w → prop x y i = true → prop x y (i + 1) = true → ∃ j < i, gen x y j = true

/-- The approximate carry reaches `j` from a generated one not killed before. -/
lemma smear_of_gen {i j : ℕ} (hk : 2 ≤ k) (hj : j < w) (hg : gen x y i = true) (hij : i < j)
    (hopen : ∀ m, i < m → m < j → kill x y m = false) :
    (smear k (seed x y)).getLsbD j = true := by
  have hseed : ∀ m ≤ j, j ≤ m + k → (seed x y).getLsbD m = true →
      (smear k (seed x y)).getLsbD j = true := fun m h1 h2 h3 =>
    (getLsbD_smear _ j hj).mpr ⟨m, h1, h2, h3⟩
  -- every position from `i` up to `j` generates or propagates
  have hcarry : ∀ m, i ≤ m → m < j → gen x y m = true ∨ prop x y m = true := by
    intro m h1 h2
    rcases Nat.eq_or_lt_of_le h1 with rfl | hlt
    · exact Or.inl hg
    · exact kill_eq_false_iff.mp (hopen m hlt h2)
  rcases hcarry (j - 1) (by omega) (by omega) with hg1 | hp1
  · exact hseed (j - 1) (by omega) (by omega) ((getLsbD_seed _ (by omega)).mpr (Or.inl hg1))
  · have hne : i ≠ j - 1 := by
      rintro rfl
      rw [gen_eq_false_of_prop hp1] at hg
      cases hg
    rcases hcarry (j - 2) (by omega) (by omega) with hg2 | hp2
    · exact hseed (j - 2) (by omega) (by omega) ((getLsbD_seed _ (by omega)).mpr (Or.inl hg2))
    · refine hseed (j - 1) (by omega) (by omega)
        ((getLsbD_seed _ (by omega)).mpr (Or.inr ⟨by omega, hp1, ?_⟩))
      exact hp2

lemma CarrySafe.smear_iff (h : CarrySafe x y) (hk : 2 ≤ k) {i : ℕ} (hi : i + 1 < w) :
    (smear k (seed x y)).getLsbD i = true ↔ BitVec.carry (i + 1) x y false = true := by
  constructor
  · intro hs
    -- some position up to `i` generates
    obtain ⟨j, hj, hg⟩ : ∃ j ≤ i, gen x y j = true := by
      obtain ⟨m, hm, _, hseed⟩ := (getLsbD_smear _ i (by omega)).mp hs
      rcases (getLsbD_seed m (by omega)).mp hseed with hg | ⟨hpos, hp, hp'⟩
      · exact ⟨m, hm, hg⟩
      · obtain ⟨j, hj, hg⟩ := h.2 (m - 1) (by omega) hp' (by rwa [Nat.sub_add_cancel hpos])
        exact ⟨j, by omega, hg⟩
    exact carry_of_gen hg (by omega) fun m h1 h2 => h.1 j m h1 (by omega) hg
  · intro hc
    obtain ⟨j, hj, hg⟩ := exists_gen_of_carry hc
    rcases Nat.eq_or_lt_of_le (Nat.le_of_lt_succ hj) with rfl | hlt
    · exact (getLsbD_smear _ _ (by omega)).mpr
        ⟨j, le_rfl, by omega, (getLsbD_seed j (by omega)).mpr (Or.inl hg)⟩
    · exact smear_of_gen hk (by omega) hg hlt fun m h1 h2 => h.1 j m h1 (by omega) hg

lemma carrySafe_of_smear_iff (hk : 2 ≤ k) (h : ∀ i, i + 1 < w →
      ((smear k (seed x y)).getLsbD i = true ↔ BitVec.carry (i + 1) x y false = true)) :
    CarrySafe x y := by
  constructor
  · intro i j hij hj hg
    -- induction on `j`: the first position that kills would receive an approximate carry
    induction j using Nat.strong_induction_on with
    | _ j ih =>
      by_contra hkill
      have hs := smear_of_gen hk (show j < w by omega) hg hij fun m h1 h2 => ih m h2 h1 (by omega)
      have hc := (h j hj).mp hs
      rw [carry_succ_eq, Bool.or_eq_true, Bool.and_eq_true] at hc
      exact hkill (kill_eq_false_iff.mpr (hc.imp id And.left))
  · intro i hi hp hp'
    have hseed : (seed x y).getLsbD (i + 1) = true :=
      (getLsbD_seed _ (by omega)).mpr (Or.inr ⟨by omega, hp', hp⟩)
    have hs : (smear k (seed x y)).getLsbD (i + 1) = true :=
      (getLsbD_smear _ _ (by omega)).mpr ⟨i + 1, le_rfl, by omega, hseed⟩
    have hc := (h (i + 1) hi).mp hs
    -- neither of the two positions generates, so the carry came from below
    rw [carry_succ_eq, gen_eq_false_of_prop hp', hp', Bool.false_or, Bool.true_and,
      carry_succ_eq, gen_eq_false_of_prop hp, hp, Bool.false_or, Bool.true_and] at hc
    exact exists_gen_of_carry hc

lemma addLane_eq_add_iff (hk : 2 ≤ k) : addLane k x y = x + y ↔ CarrySafe x y := by
  have hshift : ∀ i, i + 1 < w → (smear k (seed x y) <<< 1).getLsbD (i + 1) =
      (smear k (seed x y)).getLsbD i := by
    intro i hi
    rw [BitVec.getLsbD_shiftLeft]
    simp [hi]
  rw [addLane, xor_xor_eq_add_iff]
  constructor
  · intro h
    refine carrySafe_of_smear_iff hk fun i hi => ?_
    rw [← h (i + 1) hi, hshift i hi]
  · intro h i hi
    cases i with
    | zero => simp [BitVec.carry_zero]
    | succ i => rw [hshift i hi, Bool.eq_iff_iff, h.smear_iff hk hi]

end Lane

lemma lane_smearRow {M o : BitVec rowBits} {j : ℕ} (hj : j < 2048) (hM : lane M j = ~~~1#32)
    (k : ℕ) : lane (smearRow M k o) j = smear k (lane o j) := by
  induction k with
  | zero => rfl
  | succ k ih =>
    rw [smearRow, iterate_succ_apply', lane_or, lane_shiftLeft_and hj hM, ← smearRow, ih,
      smear, smear, iterate_succ_apply']

/-- **What `row_add` computes**, lane by lane. -/
lemma lane_rowAdd (mem : AbstractMemory) (sc : Scratch) (d s1 s2 : RowAddr) (rowBytes : ℕ)
    (h1 : ∀ t, s1 ≠ sc.row t) (h2 : ∀ t, s2 ≠ sc.row t) (hbytes : rowBytes ≤ rowSize) {j : ℕ}
    (hj : j < rowBytes / 4) :
    lane ((rowAdd mem sc d s1 s2 32 rowBytes).rows d) j =
      addLane 4 (lane (mem.rows s1) j) (lane (mem.rows s2) j) := by
  obtain ⟨M, hM, hrow⟩ := rows_rowAdd mem sc d s1 s2 rowBytes h1 h2 hbytes
  have hj' : j < 2048 := by
    simp only [rowSize] at hbytes
    omega
  have hMj := hM j hj
  rw [hrow]
  simp only [lane_xor, lane_and, lane_or, lane_shiftLeft_and hj' hMj, lane_smearRow hj' hMj,
    addLane, seed]

/-- **The bulk adder**: `row_add` on 32-bit lanes leaves the lane sums if and only if the operands
are `CarrySafe` in every lane. The sources are no scratch rows; `d` may be any row. -/
theorem rowAdd_lanes_iff (mem : AbstractMemory) (sc : Scratch) (d s1 s2 : RowAddr) (rowBytes : ℕ)
    (h1 : ∀ t, s1 ≠ sc.row t) (h2 : ∀ t, s2 ≠ sc.row t) (hbytes : rowBytes ≤ rowSize) :
    (∀ j < rowBytes / 4, lane ((rowAdd mem sc d s1 s2 32 rowBytes).rows d) j =
        lane (mem.rows s1) j + lane (mem.rows s2) j) ↔
      ∀ j < rowBytes / 4, CarrySafe (lane (mem.rows s1) j) (lane (mem.rows s2) j) := by
  refine forall₂_congr fun j hj => ?_
  rw [lane_rowAdd mem sc d s1 s2 rowBytes h1 h2 hbytes hj]
  exact addLane_eq_add_iff (by norm_num)

/-- A memory whose first two rows hold the number `1`. -/
def oneOne : AbstractMemory :=
  { rangeStart := 0
    rangeEnd := 0xFFFFF
    pmemAddr := 0x10000
    host := fun x => if x = 0x10000 ∨ x = 0x12000 then 1#8 else 0#8
    lockedAddrList := [] }

def fromThree : Scratch where
  row t := .ofNat (t.ctorIdx + 3)
  injective a b h := by
    cases a <;> cases b <;> first | rfl | cases h

lemma ofNat_ne_fromThree {n : ℕ} (hn : n < 3) (t : Temp) : RowAddr.ofNat n ≠ fromThree.row t := by
  simp only [fromThree, ne_eq, RowAddr.ofNat_inj]
  omega

theorem rowAdd_lanes_iff_oneOne :
    (∀ j < 4096 / 4, lane ((rowAdd oneOne fromThree (.ofNat 0) (.ofNat 0) (.ofNat 1) 32 4096).rows
        (.ofNat 0)) j = lane (oneOne.rows (.ofNat 0)) j + lane (oneOne.rows (.ofNat 1)) j) ↔
      ∀ j < 4096 / 4, CarrySafe (lane (oneOne.rows (.ofNat 0)) j)
        (lane (oneOne.rows (.ofNat 1)) j) :=
  rowAdd_lanes_iff oneOne fromThree (.ofNat 0) (.ofNat 0) (.ofNat 1) 4096
    (ofNat_ne_fromThree (by norm_num)) (ofNat_ne_fromThree (by norm_num)) (by decide)

/-- `row_add` of two rows with `1` in their first lane gives `62`. -/
theorem rowAdd_one_one :
    lane (oneOne.rows (.ofNat 0)) 0 = 1#32 ∧ lane (oneOne.rows (.ofNat 1)) 0 = 1#32 ∧
      lane ((rowAdd oneOne fromThree (.ofNat 2) (.ofNat 0) (.ofNat 1) 32 4096).rows (.ofNat 2)) 0 =
        62#32 := by
  have h0 : lane (oneOne.rows (.ofNat 0)) 0 = 1#32 := by
    rw [rows, lane_rowAt _ _ (by norm_num)]
    decide
  have h1 : lane (oneOne.rows (.ofNat 1)) 0 = 1#32 := by
    rw [rows, lane_rowAt _ _ (by norm_num)]
    decide
  refine ⟨h0, h1, ?_⟩
  rw [lane_rowAdd oneOne fromThree (.ofNat 2) (.ofNat 0) (.ofNat 1) 4096
    (ofNat_ne_fromThree (by norm_num)) (ofNat_ne_fromThree (by norm_num)) (by decide)
    (by norm_num), h0, h1]
  decide

end SadPlus

end ShifDram
