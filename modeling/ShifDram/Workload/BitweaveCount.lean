import ShifDram.Bits.Bytes
import ShifDram.Workload.Bitweave

/-!
What `microworkloads/bitweave-buddy.c` reports.
-/

namespace ShifDram

open Function

namespace Bitweave

open AbstractMemory Bytes

variable {n rows : ℕ} (L : Layout n rows) (c1 c2 : BitVec 32) {l : ℕ}
variable (x : BitVec 32) (mem : AbstractMemory)

/-! ### Counting -/

/-- `upopcount`'s first stage on a byte: the bits of each pair. -/
def pairCounts (b : ℕ) : ℕ := b - (b / 2 ^ 1 &&& 0x55)

def nibbleCounts (b : ℕ) : ℕ := (pairCounts b &&& 0x33) + (pairCounts b / 2 ^ 2 &&& 0x33)

lemma pairCounts_lt {b : ℕ} (hb : b < 256) : pairCounts b < 256 := (Nat.sub_le b _).trans_lt hb

lemma nibbleCounts_le : ∀ b < 256, nibbleCounts b % 16 ≤ 7 ∧ nibbleCounts b / 16 ≤ 7 := by
  decide +kernel

lemma nibbleCounts_add : ∀ b < 256, nibbleCounts b % 16 + nibbleCounts b / 16 =
    Nat.count (fun i => b.testBit i = true) 8 := by
  decide +kernel

lemma toNat_pairs : (x - ((x >>> 1) &&& 0x55555555#32)).toNat = mapBytes pairCounts 4 x.toNat := by
  have hv : x.toNat < 256 ^ 4 := x.isLt
  have hle : ∀ b < 256, b / 2 ^ 1 &&& 0x55 ≤ b := fun b _ =>
    Nat.and_le_left.trans (Nat.div_le_self b _)
  have hsub : ((x >>> 1) &&& 0x55555555#32).toNat =
      mapBytes (fun b => b / 2 ^ 1 &&& 0x55) 4 x.toNat := by
    exact div_and_spread (k := 4) (show 1 ≤ 8 by norm_num) (show 0x55 < 2 ^ (8 - 1) by norm_num)
  have hsub_le : (x >>> 1) &&& 0x55555555#32 ≤ x := by
    rw [BitVec.le_def, hsub]
    exact (mapBytes_le hle).trans (mapBytes_id hv).le
  rw [BitVec.toNat_sub_of_le hsub_le, hsub]
  calc x.toNat - mapBytes (fun b => b / 2 ^ 1 &&& 0x55) 4 x.toNat
      = mapBytes (fun b => b) 4 x.toNat - mapBytes (fun b => b / 2 ^ 1 &&& 0x55) 4 x.toNat := by
        rw [mapBytes_id hv]
    _ = mapBytes pairCounts 4 x.toNat := mapBytes_sub hle

lemma toNat_nibbles {v : ℕ} (hx : x.toNat = mapBytes pairCounts 4 v) :
    ((x &&& 0x33333333#32) + ((x >>> 2) &&& 0x33333333#32)).toNat = mapBytes nibbleCounts 4 v := by
  have hlow : (x &&& 0x33333333#32).toNat = mapBytes (fun b => pairCounts b &&& 0x33) 4 v := by
    rw [BitVec.toNat_and, hx]
    exact (and_spread (k := 4) (show 0x33 < 256 by norm_num)).trans
      (mapBytes_mapBytes fun b => pairCounts_lt)
  have hhigh : ((x >>> 2) &&& 0x33333333#32).toNat =
      mapBytes (fun b => pairCounts b / 2 ^ 2 &&& 0x33) 4 v := by
    rw [BitVec.toNat_and, BitVec.toNat_ushiftRight, Nat.shiftRight_eq_div_pow, hx]
    exact (div_and_spread (k := 4) (show 2 ≤ 8 by norm_num)
      (show 0x33 < 2 ^ (8 - 2) by norm_num)).trans
      (mapBytes_mapBytes fun b => pairCounts_lt)
  have hlt : ∀ b < 256, nibbleCounts b < 256 := by
    intro b hb
    have := nibbleCounts_le b hb
    omega
  rw [BitVec.toNat_add, hlow, hhigh, mapBytes_add]
  exact Nat.mod_eq_of_lt (mapBytes_lt hlt)

/-- `upopcount` counts the set bits. -/
lemma toNat_upopcount : (upopcount x).toNat = Nat.count (fun i => x.getLsbD i = true) 32 := by
  have hnib := toNat_nibbles _ (toNat_pairs x)
  set y := (x - ((x >>> 1) &&& 0x55555555#32) &&& 0x33333333#32) +
    ((x - ((x >>> 1) &&& 0x55555555#32)) >>> 2 &&& 0x33333333#32) with hy
  have hup : upopcount x = (((y + y >>> 4) &&& 0x0F0F0F0F#32) * 0x01010101#32) >>> 24 := rfl
  have hcount : Nat.count (fun i => x.getLsbD i = true) 32 =
      sumBytes (fun b => nibbleCounts b % 16 + nibbleCounts b / 16) 4 x.toNat :=
    (count_testBit 4 x.toNat).trans (sumBytes_congr fun b hb => (nibbleCounts_add b hb).symm)
  have hbound : y.toNat ≤ 0x77777777 := by
    rw [hnib]
    refine (mapBytes_le (f := fun _ => 0x77) fun b hb => ?_).trans (by simp [mapBytes])
    have := nibbleCounts_le b hb
    omega
  have hfold : ((y + y >>> 4) &&& 0x0F0F0F0F#32).toNat =
      mapBytes (fun b => nibbleCounts b % 16 + nibbleCounts b / 16) 4 x.toNat := by
    rw [BitVec.toNat_and, BitVec.toNat_add, BitVec.toNat_ushiftRight, Nat.shiftRight_eq_div_pow,
      Nat.mod_eq_of_lt (by omega), hnib]
    exact fold_nibbles nibbleCounts_le
  have hle : Nat.count (fun i => x.getLsbD i = true) 32 ≤ 32 := Nat.count_le _
  rw [hup, BitVec.toNat_ushiftRight, BitVec.toNat_mul, hfold, Nat.shiftRight_eq_div_pow, hcount]
  exact mul_spread_one (by omega)

lemma toNat_countWords (r : BitVec rowBits) (result : BitVec 32) (k : ℕ) :
    (countWords r result k).toNat =
      (result.toNat + Nat.count (fun b => r.getLsbD b = true) (32 * k)) % 2 ^ 32 := by
  induction k with
  | zero => exact (Nat.mod_eq_of_lt result.isLt).symm
  | succ k ih =>
    have hlane : Nat.count (fun i => (lane r k).getLsbD i = true) 32 =
        Nat.count (fun i => r.getLsbD (32 * k + i) = true) 32 :=
      count_congr fun i hi => by rw [getLsbD_lane _ _ hi]
    rw [countWords, BitVec.toNat_add, ih, toNat_upopcount, hlane, Nat.mul_succ, Nat.count_add,
      Nat.mod_add_mod, Nat.add_assoc]

lemma Layout.lane_mul_add (i : ℕ) {b : ℕ} (hb : b < rowBits) (v : Vec n) :
    L.lane mem (rowBits * i + b) v = (mem.rows (L.row v i)).getLsbD b := by
  rw [Layout.lane, Nat.mul_add_div (by norm_num [rowBits]), Nat.div_eq_of_lt hb, Nat.add_zero,
    Nat.mul_add_mod, Nat.mod_eq_of_lt hb]

/-- The counting loop changes the output vector only, counting lanes in both `mlt` and `mgt`. -/
lemma countRows_spec {i : ℕ} (hi : i ≤ rows) :
    (∀ l < rowBits * rows, ∀ v ≠ .output, L.lane (countRows L mem i).1 l v = L.lane mem l v) ∧
      (countRows L mem i).2.toNat = Nat.count
        (fun l => (L.lane mem l .mlt && L.lane mem l .mgt) = true) (rowBits * i) % 2 ^ 32 := by
  induction i with
  | zero => exact ⟨fun _ _ _ _ => rfl, rfl⟩
  | succ i ih =>
    obtain ⟨hkeep, hres⟩ := ih (by omega)
    set mem' := (countRows L mem i).1
    have hand : ∀ l < rowBits * rows, L.lane (bulkAnd L .output .mlt .mgt i mem') l =
        if l / rowBits = i then update (L.lane mem' l) .output
          (L.lane mem' l .mlt && L.lane mem' l .mgt) else L.lane mem' l := fun l hl =>
      laneWise_bulkAnd .output .mlt .mgt mem' i l (by omega) hl
    have hstep : countRows L mem (i + 1) = (bulkAnd L .output .mlt .mgt i mem', countWords
        ((bulkAnd L .output .mlt .mgt i mem').rows (L.row .output i)) (countRows L mem i).2
          (rowSize / 4)) := rfl
    rw [hstep]
    refine ⟨fun l hl v hv => ?_, ?_⟩
    · rw [hand l hl]
      split_ifs
      · rw [update_of_ne hv, hkeep l hl v hv]
      · exact hkeep l hl v hv
    · have hrow : Nat.count (fun b => ((bulkAnd L .output .mlt .mgt i mem').rows
          (L.row .output i)).getLsbD b = true) rowBits = Nat.count (fun b =>
            (L.lane mem (rowBits * i + b) .mlt && L.lane mem (rowBits * i + b) .mgt) = true)
            rowBits := by
        refine count_congr fun b hb => ?_
        have hl : rowBits * i + b < rowBits * rows := by
          calc rowBits * i + b < rowBits * (i + 1) := by
                rw [Nat.mul_succ]
                omega
            _ ≤ rowBits * rows := Nat.mul_le_mul_left _ hi
        have hdiv : (rowBits * i + b) / rowBits = i := by
          rw [Nat.mul_add_div (by norm_num [rowBits]), Nat.div_eq_of_lt hb, Nat.add_zero]
        rw [← Layout.lane_mul_add L _ i hb, hand _ hl, if_pos hdiv,
          update_self, hkeep _ hl _ (by simp), hkeep _ hl _ (by simp)]
      rw [toNat_countWords, hres, show 32 * (rowSize / 4) = rowBits from rfl, hrow,
        Nat.mul_succ, Nat.count_add, Nat.mod_add_mod]

/-- What the initialising loop makes of lane `l`. -/
def initLane (l : ℕ) (σ : Vec n → Bool) : Vec n → Bool
  | .meq1 | .meq2 => decide (l % 32 = 0)
  | .mlt | .mgt => false
  | v => σ v

lemma lane_store (v : Vec n) (x : BitVec 32) {w : ℕ} (hw : w < 2048 * rows)
    (hl : l < rowBits * rows) : L.lane (mem.store32 ((L.base v).1 + 4 * w) x) l =
      if l / 32 = w then Function.update (L.lane mem l) v (x.getLsbD (l % 32))
      else L.lane mem l := by
  have hrow := row_lt hl
  have hw' : w / 2048 < rows := by omega
  have haddr : (L.base v).1 + 4 * w = (L.row v (w / 2048)).1 + 4 * (w % 2048) := by
    simp only [Layout.row, rowSize]
    omega
  funext u
  rw [haddr, Layout.lane]
  by_cases hu : u = v ∧ l / rowBits = w / 2048
  · obtain ⟨rfl, hlw⟩ := hu
    have hbit : l % rowBits = 32 * (l % rowBits / 32) + l % 32 := by
      simp only [rowBits]
      omega
    have hword : l % rowBits / 32 = w % 2048 ↔ l / 32 = w := by
      simp only [rowBits] at hlw ⊢
      omega
    have hlt : l % 32 < 32 := Nat.mod_lt _ (by norm_num)
    have hlt' : l % rowBits / 32 < 2048 := by
      simp only [rowBits]
      omega
    rw [hlw, hbit, ← getLsbD_lane _ _ hlt, AbstractMemory.rows,
      lane_store32 _ _ (Nat.mod_lt _ (by norm_num)) hlt']
    simp only [hword]
    split_ifs with hlw'
    · rw [update_self]
    · rw [getLsbD_lane _ _ hlt, ← hbit, Layout.lane, hlw]
      rfl
  · have hne : L.row u (l / rowBits) ≠ L.row v (w / 2048) := fun heq =>
      hu ((Layout.row_inj hrow hw').mp heq)
    rw [AbstractMemory.rows, rowAt_store32_of_apart _ _ (Nat.mod_lt _ (by norm_num))
      (RowAddr.rowsApart_of_ne hne)]
    split_ifs with hlw
    · have huv : u ≠ v := by
        rintro rfl
        refine hu ⟨rfl, ?_⟩
        simp only [rowBits]
        omega
      rw [update_of_ne huv]
      rfl
    · rfl

lemma lane_initMasks {w : ℕ} (hw : w ≤ 2048 * rows) (hl : l < rowBits * rows) :
    L.lane (initMasks L mem w) l =
      if l < 32 * w then initLane l (L.lane mem l) else L.lane mem l := by
  induction w with
  | zero => rfl
  | succ w ih =>
    have h1 : (1#32).getLsbD (l % 32) = decide (l % 32 = 0) := by
      simp
    rw [initMasks, lane_store _ _ _ _ (by omega) hl, lane_store _ _ _ _ (by omega) hl,
      lane_store _ _ _ _ (by omega) hl, lane_store _ _ _ _ (by omega) hl, ih (by omega), h1,
      BitVec.getLsbD_zero]
    rcases Nat.lt_trichotomy (l / 32) w with hlt | heq | hgt
    · rw [if_neg (by omega), if_neg (by omega), if_neg (by omega), if_neg (by omega),
        if_pos (by omega), if_pos (by omega)]
    · rw [if_pos heq, if_pos heq, if_pos heq, if_pos heq, if_neg (by omega), if_pos (by omega)]
      funext v
      cases v <;> simp [initLane]
    · rw [if_neg (by omega), if_neg (by omega), if_neg (by omega), if_neg (by omega),
        if_neg (by omega), if_neg (by omega)]

/-! ### The result -/

def Between (c1 c2 : BitVec 32) (σ : Vec n → Bool) : Prop :=
  val1 (columns c1 c2 σ) < valV (columns c1 c2 σ) ∧ valV (columns c1 c2 σ) < val2 (columns c1 c2 σ)

instance (σ : Vec n → Bool) : Decidable (Between c1 c2 σ) := inferInstanceAs (Decidable (_ ∧ _))

def Marked (c1 c2 : BitVec 32) (σ : Vec n → Bool) : Prop :=
  (((masksOf σ).scan (columns c1 c2 σ)).mlt && ((masksOf σ).scan (columns c1 c2 σ)).mgt) = true

instance (σ : Vec n → Bool) : Decidable (Marked c1 c2 σ) := inferInstanceAs (Decidable (_ = true))

lemma columns_congr {σ τ : Vec n → Bool} (h : ∀ k, σ (.val k) = τ (.val k)) :
    columns c1 c2 σ = columns c1 c2 τ := by
  simp only [columns, h]

/-- A lane's masks and columns stay from the first iteration on. -/
lemma masks_main (ints : ℕ) (mem : AbstractMemory) (hl : l < rowBits * rows) (iter : ℕ) :
    (∀ k, L.lane (main L ints c1 c2 mem (iter + 1)).1 l (.val k) =
        L.lane (initMasks L mem ints) l (.val k)) ∧
      masksOf (L.lane (main L ints c1 c2 mem (iter + 1)).1 l) =
        (masksOf (L.lane (initMasks L mem ints) l)).scan
          (columns c1 c2 (L.lane (initMasks L mem ints) l)) := by
  have hquery : ∀ m : AbstractMemory,
      (∀ k, L.lane (query L c1 c2 m).1 l (.val k) = L.lane m l (.val k)) ∧
        masksOf (L.lane (query L c1 c2 m).1 l) =
          (masksOf (L.lane m l)).scan (columns c1 c2 (L.lane m l)) := by
    intro m
    obtain ⟨hval, hmask⟩ := masks_scanColumns L c1 c2 m hl (List.finRange n)
    have hkeep := (countRows_spec L ((List.finRange n).foldl (scanColumn L c1 c2) m) le_rfl).1 l hl
    refine ⟨fun k => (hkeep (.val k) (by simp)).trans (hval k), ?_⟩
    rw [columns, ← hmask, query, masksOf, masksOf, hkeep .mgt (by simp), hkeep .mlt (by simp),
      hkeep .meq1 (by simp), hkeep .meq2 (by simp)]
  induction iter with
  | zero => exact hquery _
  | succ iter ih =>
    obtain ⟨hval, hmask⟩ := hquery (main L ints c1 c2 mem (iter + 1)).1
    refine ⟨fun k => (hval k).trans (ih.1 k), ?_⟩
    rw [main, hmask, ih.2, columns_congr c1 c2 ih.1, Masks.scan_scan]

/-- **Every iteration's result** is the number of marked lanes. -/
lemma toNat_main (ints : ℕ) (mem : AbstractMemory) (iter : ℕ) :
    (main L ints c1 c2 mem (iter + 1)).2.toNat = Nat.count
      (fun l => Marked c1 c2 (L.lane (initMasks L mem ints) l)) (rowBits * rows) % 2 ^ 32 := by
  set m := (main L ints c1 c2 mem iter).1 with hm
  have hcount := (countRows_spec L ((List.finRange n).foldl (scanColumn L c1 c2) m) le_rfl).2
  rw [main, query, ← hm, hcount]
  congr 1
  refine count_congr fun l hl => ?_
  obtain ⟨-, hmask⟩ := masks_main L c1 c2 ints mem hl iter
  have hkeep := (countRows_spec L ((List.finRange n).foldl (scanColumn L c1 c2) m) le_rfl).1 l hl
  rw [main, query, ← hm] at hmask
  rw [Marked, ← hmask, masksOf, hkeep .mlt (by simp), hkeep .mgt (by simp)]

/-- A data lane is marked if its value is between the constants and it is its word's first. -/
lemma marked_initLane (σ : Vec n → Bool) :
    Marked c1 c2 (initLane l σ) ↔ l % 32 = 0 ∧ Between c1 c2 σ := by
  have hcols : columns c1 c2 (initLane l σ) = columns c1 c2 σ := columns_congr c1 c2 fun _ => rfl
  rw [Marked, hcols, Masks.scan_eq]
  simp only [masksOf, initLane, Bool.false_or, Bool.and_eq_true, decide_eq_true_eq, Between]
  tauto

lemma count_and_add_count_and_not {p q : ℕ → Prop} [DecidablePred p] [DecidablePred q] (k : ℕ) :
    Nat.count (fun l => q l ∧ p l) k + Nat.count (fun l => ¬ q l ∧ p l) k = Nat.count p k := by
  induction k with
  | zero => rfl
  | succ k ih =>
    rw [Nat.count_succ, Nat.count_succ, Nat.count_succ, ← ih]
    by_cases hp : p k <;> by_cases hq : q k <;> simp [hp, hq] <;> omega

lemma numVals_eq (k : ℕ) : numVals k = 1024 * 2 ^ k := Nat.shiftLeft_eq _ _

lemma numVals_le (k : ℕ) : 32 * perColInts k = numVals k ∧ numVals k ≤ rowBits * perColRows k := by
  have h := numVals_eq k
  simp only [perColInts, perColRows, rowSize, rowBits]
  omega

/-- Counted lanes behind the data, which the initialising loops miss. -/
def spurious {k : ℕ} (L : Layout n (perColRows k)) (c1 c2 : BitVec 32) (mem : AbstractMemory) : ℕ :=
  Nat.count (fun l => Marked c1 c2 (L.lane mem (numVals k + l)))
    (rowBits * perColRows k - numVals k)

/-- Values between the constants in lanes not first of a word. -/
def missed {k : ℕ} (L : Layout n (perColRows k)) (c1 c2 : BitVec 32) (mem : AbstractMemory) : ℕ :=
  Nat.count (fun l => ¬ l % 32 = 0 ∧ Between c1 c2 (L.lane mem l)) (numVals k)

lemma count_marked {k : ℕ} (L : Layout n (perColRows k)) (mem : AbstractMemory) :
    Nat.count (fun l => Marked c1 c2 (L.lane (initMasks L mem (perColInts k)) l))
        (rowBits * perColRows k) =
      Nat.count (fun l => l % 32 = 0 ∧ Between c1 c2 (L.lane mem l)) (numVals k) +
        spurious L c1 c2 mem := by
  obtain ⟨hints, hle⟩ := numVals_le k
  have hwords : perColInts k ≤ 2048 * perColRows k := by
    simp only [rowBits] at hle
    omega
  have hsplit : rowBits * perColRows k =
      numVals k + (rowBits * perColRows k - numVals k) := by omega
  conv_lhs => rw [hsplit, Nat.count_add]
  refine congrArg₂ (· + ·) (count_congr fun l hl => ?_) (count_congr fun l hl => ?_)
  · rw [lane_initMasks L mem hwords (by omega), if_pos (by omega), marked_initLane]
  · rw [lane_initMasks L mem hwords (by omega), if_neg (by omega)]

/-- **The column scan**: from the intended masks the recurrence marks exactly the values between the
constants, and the program reports their number in both iterations if and only if it misses as many
values as it counts lanes behind the data. -/
theorem main_counts_iff {k : ℕ} (L : Layout n (perColRows k)) (c1 c2 : BitVec 32)
    (mem : AbstractMemory) (hk : k ≤ 20) :
    (∀ l, ((Masks.start.scan (columns c1 c2 (L.lane mem l))).mgt &&
        (Masks.start.scan (columns c1 c2 (L.lane mem l))).mlt) = true ↔
      Between c1 c2 (L.lane mem l)) ∧
    ((∀ iter < 2, (main L (perColInts k) c1 c2 mem (iter + 1)).2.toNat =
        Nat.count (fun l => Between c1 c2 (L.lane mem l)) (numVals k)) ↔
      missed L c1 c2 mem = spurious L c1 c2 mem) := by
  refine ⟨fun l => by rw [Masks.scan_start, decide_eq_true_iff]; rfl, ?_⟩
  have hsmall : rowBits * perColRows k < 2 ^ 32 := by
    have hpow : 2 ^ k ≤ 2 ^ 20 := Nat.pow_le_pow_right (by norm_num) hk
    have h := numVals_eq k
    simp only [perColRows, rowSize, rowBits]
    omega
  have hres : ∀ iter, (main L (perColInts k) c1 c2 mem (iter + 1)).2.toNat =
      Nat.count (fun l => l % 32 = 0 ∧ Between c1 c2 (L.lane mem l)) (numVals k) +
        spurious L c1 c2 mem := by
    intro iter
    rw [toNat_main, Nat.mod_eq_of_lt ((Nat.count_le _).trans_lt hsmall), count_marked]
  have hall := count_and_add_count_and_not (p := fun l => Between c1 c2 (L.lane mem l))
    (q := fun l => l % 32 = 0) (numVals k)
  rw [missed]
  constructor
  · intro h
    have h0 := h 0 (by norm_num)
    rw [hres] at h0
    omega
  · intro h iter _
    rw [hres]
    omega

def packed (n rows : ℕ) : Layout n rows where
  base v := .ofNat (rows * match v with
    | .output => 0 | .meq1 => 1 | .meq2 => 2 | .mlt => 3 | .mgt => 4 | .neg => 5 | .tmp => 6
    | .val j => 7 + j)
  apart v w i k hi hk h := by
    have hquot : ∀ a b : ℕ, 8192 * (rows * a) + i * 8192 = 8192 * (rows * b) + k * 8192 →
        a = b := by
      intro a b hab
      have hdiv : (rows * a + i) / rows = (rows * b + k) / rows := by
        congr 1
        omega
      rwa [Nat.mul_add_div (by omega), Nat.mul_add_div (by omega), Nat.div_eq_of_lt hi,
        Nat.div_eq_of_lt hk, Nat.add_zero, Nat.add_zero] at hdiv
    have hidx := hquot _ _ h
    cases v <;> cases w <;> simp at hidx ⊢ <;> omega

def twoColumns : Layout 2 (perColRows 0) := packed 2 (perColRows 0)

/-- Zeros but for row 8, where every value is `1`. -/
def rowEight : AbstractMemory :=
  { rangeStart := 0
    rangeEnd := 0xFFFFF
    pmemAddr := 0x10000
    host := fun x => if 0x20000 ≤ x ∧ x < 0x22000 then 0xFF#8 else 0#8
    lockedAddrList := [] }

theorem main_counts_iff_rowEight :
    (∀ l, ((Masks.start.scan (columns 0#32 1#32 (twoColumns.lane rowEight l))).mgt &&
        (Masks.start.scan (columns 0#32 1#32 (twoColumns.lane rowEight l))).mlt) = true ↔
      Between 0#32 1#32 (twoColumns.lane rowEight l)) ∧
    ((∀ iter < 2, (main twoColumns (perColInts 0) 0#32 1#32 rowEight (iter + 1)).2.toNat =
        Nat.count (fun l => Between 0#32 1#32 (twoColumns.lane rowEight l)) (numVals 0)) ↔
      missed twoColumns 0#32 1#32 rowEight = spurious twoColumns 0#32 1#32 rowEight) :=
  main_counts_iff twoColumns 0#32 1#32 rowEight (by norm_num)

lemma lane_rowEight {l : ℕ} (hl : l < rowBits) (v : Vec 2) :
    twoColumns.lane rowEight l v = decide (v = .val 1) := by
  have hbit : twoColumns.lane rowEight l v = ByteMem.bitAt rowEight.host
      (rowEight.hostAddr (twoColumns.row v 0).1) l := by
    rw [Layout.lane, Nat.div_eq_of_lt hl, Nat.mod_eq_of_lt hl, AbstractMemory.rows,
      getLsbD_rowAt _ _ hl]
  have hrow : ∀ c : ℕ, c ≤ 8 → ByteMem.bitAt rowEight.host (rowEight.hostAddr (8192 * c)) l =
      decide (c = 8) := by
    intro c hc
    have hl8 : l / 8 < 8192 := by
      simp only [rowBits] at hl
      omega
    have haddr : rowEight.hostAddr (8192 * c) + (l / 8 : ℕ) = 0x10000 + 8192 * c + (l / 8 : ℕ) := by
      simp [hostAddr, rowEight]
    rw [ByteMem.bitAt, haddr]
    by_cases h8 : c = 8
    · have hbyte : rowEight.host (0x10000 + 8192 * c + (l / 8 : ℕ)) = 0xFF#8 := if_pos (by omega)
      have hones : ∀ b < 8, (0xFF#8).getLsbD b = true := by decide
      rw [hbyte, hones _ (Nat.mod_lt _ (by norm_num)), decide_eq_true h8]
    · have hbyte : rowEight.host (0x10000 + 8192 * c + (l / 8 : ℕ)) = 0#8 := if_neg (by omega)
      rw [hbyte, BitVec.getLsbD_zero, decide_eq_false h8]
  rw [hbit]
  cases v with
  | val j => fin_cases j <;> exact (hrow _ (by decide)).trans (by decide)
  | _ => exact (hrow _ (by decide)).trans (by decide)

/-- All 1024 values lie between `0` and `2`; both iterations report 32. -/
theorem main_rowEight :
    Nat.count (fun l => Between 0#32 1#32 (twoColumns.lane rowEight l)) (numVals 0) = 1024 ∧
      ∀ iter, (main twoColumns (perColInts 0) 0#32 1#32 rowEight (iter + 1)).2.toNat = 32 := by
  have hbetween : ∀ l < rowBits, Between 0#32 1#32 (twoColumns.lane rowEight l) := by
    intro l hl
    have hfun : twoColumns.lane rowEight l = fun v => decide (v = .val 1) :=
      funext fun v => lane_rowEight hl v
    rw [hfun]
    decide
  have hmarked : ∀ l < rowBits - numVals 0,
      ¬ Marked 0#32 1#32 (twoColumns.lane rowEight (numVals 0 + l)) := by
    intro l hl
    have hfun : twoColumns.lane rowEight (numVals 0 + l) = fun v => decide (v = .val 1) :=
      funext fun v => lane_rowEight (by omega) v
    rw [hfun]
    decide
  have hrows : rowBits * perColRows 0 = rowBits := by decide
  have hnum : numVals 0 = 1024 := by decide
  have hdata : ∀ l < numVals 0, Between 0#32 1#32 (twoColumns.lane rowEight l) := by
    intro l hl
    rw [hnum] at hl
    exact hbetween l (hl.trans (by norm_num [rowBits]))
  have hspurious : spurious twoColumns 0#32 1#32 rowEight = 0 := by
    rw [spurious, hrows, Nat.count_iff_forall_not]
    exact hmarked
  have hfirst : Nat.count (fun l => l % 32 = 0 ∧ Between 0#32 1#32 (twoColumns.lane rowEight l))
      (numVals 0) = 32 := by
    rw [count_congr (q := fun l => l % 32 = 0) fun l hl => and_iff_left (hdata l hl), hnum]
    decide +kernel
  refine ⟨?_, fun iter => ?_⟩
  · rw [Nat.count_iff_forall.mpr hdata, hnum]
  · rw [toNat_main, count_marked, hspurious, hfirst]
    norm_num

end Bitweave

end ShifDram
