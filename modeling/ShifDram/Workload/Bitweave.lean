import ShifDram.Workload.SadAbs

/-!
The column scan of `microworkloads/bitweave-buddy.c`.

The values are stored one bit to a column, the most significant first; a lane is the bit position
of one value. The scan updates four mask vectors with row ops, one of four sequences for each
column, so that in the end `mgt` marks the values above `c1` and `mlt` those below `c2`.
`Masks.step` is the recurrence of `bitweave-baseline.c`.
-/

namespace ShifDram

open Function

namespace Bitweave

open AbstractMemory SadPlus

variable (m : Masks) (cols : List (Bool × Bool × Bool))

/-! ### The program -/

/-- The vectors `main` allocates, for `n` columns. -/
inductive Vec (n : ℕ) where
  | val (j : Fin n)
  | output | meq1 | meq2 | mlt | mgt | neg | tmp
  deriving DecidableEq

/-- From `posix_memalign`: row-aligned vectors of `rows` rows, no row in two. -/
structure Layout (n rows : ℕ) where
  base : Vec n → RowAddr
  apart : ∀ v w i k, i < rows → k < rows →
    (base v).1 + i * rowSize = (base w).1 + k * rowSize → v = w

/-- `ROW(ptr)`. -/
def Layout.row {n rows : ℕ} (L : Layout n rows) (v : Vec n) (i : ℕ) : RowAddr :=
  ⟨(L.base v).1 + i * rowSize, Nat.dvd_add (L.base v).2 (Nat.dvd_mul_left _ _)⟩

/-- `num_vals`, for the second argument `k`. -/
def numVals (k : ℕ) : ℕ := 1024 <<< k

def perColInts (k : ℕ) : ℕ := numVals k / 32

def perColRows (k : ℕ) : ℕ := (numVals k / 8 + rowSize - 1) / rowSize

def upopcount (val : BitVec 32) : BitVec 32 :=
  let val := val - ((val >>> 1) &&& 0x55555555#32)
  let val := (val &&& 0x33333333#32) + ((val >>> 2) &&& 0x33333333#32)
  (((val + (val >>> 4)) &&& 0x0F0F0F0F#32) * 0x01010101#32) >>> 24

/-- `!!(c & (1 << j))`; the distance is modulo 32. -/
def test (c : BitVec 32) (j : ℕ) : Bool := (c &&& 1#32 <<< (j % 32)) != 0#32

variable {n rows : ℕ} (L : Layout n rows) {body : ℕ → AbstractMemory → AbstractMemory}
  {F : (Vec n → Bool) → Vec n → Bool}

/-- `FOR_ALL_ROWS { body }`, for the first rows. -/
def forAllRows (body : ℕ → AbstractMemory → AbstractMemory) :
    ℕ → AbstractMemory → AbstractMemory
  | 0, mem => mem
  | i + 1, mem => body i (forAllRows body i mem)

/-- The loop that initialises the masks, on the first words. -/
def initMasks (mem : AbstractMemory) : ℕ → AbstractMemory
  | 0 => mem
  | i + 1 =>
    let mem := initMasks mem i
    let mem := mem.store32 ((L.base .meq1).1 + 4 * i) 1#32
    let mem := mem.store32 ((L.base .meq2).1 + 4 * i) 1#32
    let mem := mem.store32 ((L.base .mlt).1 + 4 * i) 0#32
    mem.store32 ((L.base .mgt).1 + 4 * i) 0#32

/-- A row op on the rows number `i` of three vectors. -/
def bulkAnd (d s1 s2 : Vec n) (i : ℕ) (mem : AbstractMemory) : AbstractMemory :=
  rowopAnd mem (L.row d i) (L.row s1 i) (L.row s2 i)

def bulkOr (d s1 s2 : Vec n) (i : ℕ) (mem : AbstractMemory) : AbstractMemory :=
  rowopOr mem (L.row d i) (L.row s1 i) (L.row s2 i)

def bulkNot (d s : Vec n) (i : ℕ) (mem : AbstractMemory) : AbstractMemory :=
  rowopNot mem (L.row d i) (L.row s i)

/-- The four update sequences, for `test1` and `test2`. -/
def updateMasks (test1 test2 : Bool) (vec : Vec n) (i : ℕ) (mem : AbstractMemory) :
    AbstractMemory :=
  match test1, test2 with
  | false, false =>
    let mem := bulkAnd L .tmp .meq1 vec i mem
    let mem := bulkOr L .mgt .mgt .tmp i mem
    let mem := bulkAnd L .meq1 .meq1 .neg i mem
    bulkAnd L .meq2 .meq2 .neg i mem
  | true, false =>
    let mem := bulkAnd L .meq1 .meq1 vec i mem
    bulkAnd L .meq2 .meq2 .neg i mem
  | false, true =>
    let mem := bulkAnd L .tmp .meq1 vec i mem
    let mem := bulkOr L .mgt .mgt .tmp i mem
    let mem := bulkAnd L .tmp .meq2 .neg i mem
    let mem := bulkOr L .mlt .mlt .tmp i mem
    let mem := bulkAnd L .meq1 .meq1 .neg i mem
    bulkAnd L .meq2 .meq2 vec i mem
  | true, true =>
    let mem := bulkAnd L .tmp .meq2 .neg i mem
    let mem := bulkOr L .mlt .mlt .tmp i mem
    let mem := bulkAnd L .meq1 .meq1 vec i mem
    bulkAnd L .meq2 .meq2 vec i mem

def scanColumn (c1 c2 : BitVec 32) (mem : AbstractMemory) (j : Fin n) : AbstractMemory :=
  let mem := forAllRows (bulkNot L .neg (.val j)) rows mem
  forAllRows (updateMasks L (test c1 j) (test c2 j) (.val j)) rows mem

/-- `result += upopcount(vals[j])` over a row's first words. -/
def countWords (r : BitVec rowBits) (result : BitVec 32) : ℕ → BitVec 32
  | 0 => result
  | j + 1 => countWords r result j + upopcount (lane r j)

def countRows (mem : AbstractMemory) : ℕ → AbstractMemory × BitVec 32
  | 0 => (mem, 0#32)
  | i + 1 =>
    let (mem, result) := countRows mem i
    let mem := bulkAnd L .output .mlt .mgt i mem
    (mem, countWords (mem.rows (L.row .output i)) result (rowSize / 4))

def query (c1 c2 : BitVec 32) (mem : AbstractMemory) : AbstractMemory × BitVec 32 :=
  let mem := (List.finRange n).foldl (scanColumn L c1 c2) mem
  countRows L mem rows

/-- Memory and result after iterations; `ints` is `per_col_ints`. -/
def main (ints : ℕ) (c1 c2 : BitVec 32) (mem : AbstractMemory) :
    ℕ → AbstractMemory × BitVec 32
  | 0 => (initMasks L mem ints, 0#32)
  | iter + 1 => query L c1 c2 (main ints c1 c2 mem iter).1

def Layout.lane (mem : AbstractMemory) (l : ℕ) : Vec n → Bool :=
  fun v => (mem.rows (L.row v (l / rowBits))).getLsbD (l % rowBits)

variable {L} {mem : AbstractMemory}

lemma Layout.row_inj {v w : Vec n} {i k : ℕ} (hi : i < rows) (hk : k < rows) :
    L.row v i = L.row w k ↔ v = w ∧ i = k := by
  constructor
  · intro h
    have haddr : (L.base v).1 + i * rowSize = (L.base w).1 + k * rowSize := congrArg Subtype.val h
    obtain rfl := L.apart v w i k hi hk haddr
    refine ⟨rfl, ?_⟩
    simp only [rowSize] at haddr
    omega
  · rintro ⟨rfl, rfl⟩
    rfl

lemma row_lt {l : ℕ} (hl : l < rowBits * rows) : l / rowBits < rows :=
  Nat.div_lt_of_lt_mul hl

/-- The body does `F` to its row's lanes, nothing to others. -/
def LaneWise (L : Layout n rows) (body : ℕ → AbstractMemory → AbstractMemory)
    (F : (Vec n → Bool) → Vec n → Bool) : Prop :=
  ∀ mem i l, i < rows → l < rowBits * rows →
    L.lane (body i mem) l = if l / rowBits = i then F (L.lane mem l) else L.lane mem l

lemma LaneWise.comp {body body' : ℕ → AbstractMemory → AbstractMemory}
    {F F' : (Vec n → Bool) → Vec n → Bool} (h : LaneWise L body F) (h' : LaneWise L body' F') :
    LaneWise L (fun i mem => body' i (body i mem)) (fun σ => F' (F σ)) := by
  intro mem i l hi hl
  rw [h' _ i l hi hl, h _ i l hi hl]
  split_ifs <;> rfl

lemma LaneWise.forAllRows_of_le
    (h : LaneWise L body F) {l k : ℕ} (hk : k ≤ rows)
    (hl : l < rowBits * rows) : L.lane (forAllRows body k mem) l =
      if l / rowBits < k then F (L.lane mem l) else L.lane mem l := by
  induction k with
  | zero => rfl
  | succ k ih =>
    rw [forAllRows, h _ k l (by omega) hl, ih (by omega)]
    rcases Nat.lt_trichotomy (l / rowBits) k with hlt | heq | hgt
    · rw [if_neg (by omega), if_pos hlt, if_pos (by omega)]
    · rw [if_pos heq, if_neg (by omega), if_pos (by omega)]
    · rw [if_neg (by omega), if_neg (by omega), if_neg (by omega)]

lemma LaneWise.forAllRows
    (h : LaneWise L body F) {l : ℕ}
    (hl : l < rowBits * rows) : L.lane (forAllRows body rows mem) l = F (L.lane mem l) := by
  rw [h.forAllRows_of_le le_rfl hl, if_pos (row_lt hl)]

/-- A body that replaces one vector's row, lane by lane. -/
lemma laneWise_of_update {d : Vec n}
    {r : AbstractMemory → ℕ → BitVec rowBits} {φ : (Vec n → Bool) → Bool}
    (hrows : ∀ mem i, (body i mem).rows = update mem.rows (L.row d i) (r mem i))
    (hbit : ∀ mem l, (r mem (l / rowBits)).getLsbD (l % rowBits) = φ (L.lane mem l)) :
    LaneWise L body fun σ => update σ d (φ σ) := by
  intro mem i l hi hl
  have hrow := row_lt hl
  funext v
  by_cases hv : v = d ∧ l / rowBits = i
  · obtain ⟨rfl, rfl⟩ := hv
    rw [if_pos rfl, Layout.lane, hrows, update_self, hbit]
    simp only [update_self]
  · have hne : L.row v (l / rowBits) ≠ L.row d i := fun heq => hv ((Layout.row_inj hrow hi).mp heq)
    have hkeep : L.lane (body i mem) l v = L.lane mem l v := by
      rw [Layout.lane, Layout.lane, hrows, update_of_ne hne]
    rw [hkeep]
    by_cases hrow' : l / rowBits = i
    · rw [if_pos hrow']
      exact (update_of_ne (fun hvd => hv ⟨hvd, hrow'⟩) _ _).symm
    · rw [if_neg hrow']

lemma laneWise_bulkAnd (d s1 s2 : Vec n) :
    LaneWise L (bulkAnd L d s1 s2) fun σ => update σ d (σ s1 && σ s2) :=
  laneWise_of_update (fun mem _ => rows_rowopAnd mem _ _ _) fun _ _ => BitVec.getLsbD_and

lemma laneWise_bulkOr (d s1 s2 : Vec n) :
    LaneWise L (bulkOr L d s1 s2) fun σ => update σ d (σ s1 || σ s2) :=
  laneWise_of_update (fun mem _ => rows_rowopOr mem _ _ _) fun _ _ => BitVec.getLsbD_or

lemma laneWise_bulkNot (d s : Vec n) :
    LaneWise L (bulkNot L d s) fun σ => update σ d (!σ s) := by
  refine laneWise_of_update (fun mem _ => rows_rowopNot mem _ _) fun mem l => ?_
  have hlt : l % rowBits < rowBits := Nat.mod_lt _ (by norm_num [rowBits])
  rw [BitVec.getLsbD_not, decide_eq_true hlt, Bool.true_and, Layout.lane]

/-! ### The recurrence -/

@[ext] structure Masks where
  mgt : Bool
  mlt : Bool
  meq1 : Bool
  meq2 : Bool
  deriving DecidableEq

namespace Masks

/-- The recurrence, for column bit `v` and constant bits `t1` and `t2`. -/
def step (t1 t2 v : Bool) : Masks where
  mgt := m.mgt || (m.meq1 && !t1 && v)
  mlt := m.mlt || (m.meq2 && t2 && !v)
  meq1 := m.meq1 && !(v ^^ t1)
  meq2 := m.meq2 && !(v ^^ t2)

def scan : Masks :=
  cols.foldl (fun m c => m.step c.1 c.2.1 c.2.2) m

/-- To start with: `mgt = mlt = 0`, `meq1 = meq2 = 1`. -/
def start : Masks := ⟨false, false, true, true⟩

end Masks

/-- The number with these bits, most significant first. -/
def colVal : List Bool → ℕ
  | [] => 0
  | b :: bs => b.toNat * 2 ^ bs.length + colVal bs

lemma colVal_lt (bs : List Bool) : colVal bs < 2 ^ bs.length := by
  induction bs with
  | nil => norm_num [colVal]
  | cons b bs ih =>
    have hb : b.toNat ≤ 1 := Bool.toNat_le b
    rw [colVal, List.length_cons, pow_succ]
    nlinarith

/-- The constants and the value, in a list of columns. -/
def val1 : ℕ := colVal (cols.map fun c => c.1)

def val2 : ℕ := colVal (cols.map fun c => c.2.1)

def valV : ℕ := colVal (cols.map fun c => c.2.2)

/-- **The recurrence compares.** -/
lemma Masks.scan_eq :
    m.scan cols = { mgt := m.mgt || (m.meq1 && decide (val1 cols < valV cols))
                    mlt := m.mlt || (m.meq2 && decide (valV cols < val2 cols))
                    meq1 := m.meq1 && decide (valV cols = val1 cols)
                    meq2 := m.meq2 && decide (valV cols = val2 cols) } := by
  induction cols generalizing m with
  | nil => simp [Masks.scan, val1, val2, valV, colVal]
  | cons c cols ih =>
    obtain ⟨t1, t2, v⟩ := c
    have h1 : val1 cols < 2 ^ cols.length := by
      simpa [val1] using colVal_lt (cols.map fun c => c.1)
    have h2 : val2 cols < 2 ^ cols.length := by
      simpa [val2] using colVal_lt (cols.map fun c => c.2.1)
    have hv : valV cols < 2 ^ cols.length := by
      simpa [valV] using colVal_lt (cols.map fun c => c.2.2)
    have e1 : val1 ((t1, t2, v) :: cols) = t1.toNat * 2 ^ cols.length + val1 cols := by
      simp [val1, colVal]
    have e2 : val2 ((t1, t2, v) :: cols) = t2.toNat * 2 ^ cols.length + val2 cols := by
      simp [val2, colVal]
    have ev : valV ((t1, t2, v) :: cols) = v.toNat * 2 ^ cols.length + valV cols := by
      simp [valV, colVal]
    -- a difference in the first column decides
    rw [show m.scan ((t1, t2, v) :: cols) = (m.step t1 t2 v).scan cols from rfl, ih, e1, e2, ev]
    have hlt : ∀ x y : ℕ, x < 2 ^ cols.length → (2 ^ cols.length + y < x) = False := by
      intro x y hx
      simp only [eq_iff_iff, iff_false]
      omega
    have hgt : ∀ x y : ℕ, x < 2 ^ cols.length → (x < 2 ^ cols.length + y) = True := by
      intro x y hx
      simp only [eq_iff_iff, iff_true]
      omega
    have hne : ∀ x y : ℕ, x < 2 ^ cols.length → (2 ^ cols.length + y = x) = False := by
      intro x y hx
      simp only [eq_iff_iff, iff_false]
      omega
    have hne' : ∀ x y : ℕ, x < 2 ^ cols.length → (x = 2 ^ cols.length + y) = False := by
      intro x y hx
      simp only [eq_iff_iff, iff_false]
      omega
    cases t1 <;> cases t2 <;> cases v <;>
      simp [Masks.step, hlt, hgt, hne, hne', h1, h2, hv]

lemma Masks.scan_scan : (m.scan cols).scan cols = m.scan cols := by
  rw [Masks.scan_eq (m.scan cols), Masks.scan_eq m]
  ext
  · by_cases h : valV cols = val1 cols <;> simp [h]
  · by_cases h : valV cols = val2 cols <;> simp [h]
  · simp
  · simp

lemma Masks.scan_start : ((Masks.start.scan cols).mgt && (Masks.start.scan cols).mlt) =
      decide (val1 cols < valV cols ∧ valV cols < val2 cols) := by
  rw [Masks.scan_eq]
  simp [Masks.start]

def masksOf (σ : Vec n → Bool) : Masks := ⟨σ .mgt, σ .mlt, σ .meq1, σ .meq2⟩

variable (L) in
/-- Each of the four sequences is the recurrence, once `neg` holds the inverted column. -/
lemma laneWise_updateMasks (t1 t2 : Bool) (j : Fin n) :
    ∃ F, LaneWise L (updateMasks L t1 t2 (.val j)) F ∧ ∀ σ, (∀ k, F σ (.val k) = σ (.val k)) ∧
      (σ .neg = !σ (.val j) → masksOf (F σ) = (masksOf σ).step t1 t2 (σ (.val j))) := by
  cases t1 <;> cases t2
  · refine ⟨_, (((laneWise_bulkAnd .tmp .meq1 (.val j)).comp (laneWise_bulkOr .mgt .mgt .tmp)).comp
      (laneWise_bulkAnd .meq1 .meq1 .neg)).comp (laneWise_bulkAnd .meq2 .meq2 .neg),
      fun σ => ⟨fun k => by simp, fun hneg => by simp [masksOf, Masks.step, hneg]⟩⟩
  · refine ⟨_, (((((laneWise_bulkAnd .tmp .meq1 (.val j)).comp
      (laneWise_bulkOr .mgt .mgt .tmp)).comp (laneWise_bulkAnd .tmp .meq2 .neg)).comp
      (laneWise_bulkOr .mlt .mlt .tmp)).comp (laneWise_bulkAnd .meq1 .meq1 .neg)).comp
      (laneWise_bulkAnd .meq2 .meq2 (.val j)),
      fun σ => ⟨fun k => by simp, fun hneg => by simp [masksOf, Masks.step, hneg]⟩⟩
  · refine ⟨_, (laneWise_bulkAnd .meq1 .meq1 (.val j)).comp (laneWise_bulkAnd .meq2 .meq2 .neg),
      fun σ => ⟨fun k => by simp, fun hneg => by simp [masksOf, Masks.step, hneg]⟩⟩
  · refine ⟨_, (((laneWise_bulkAnd .tmp .meq2 .neg).comp (laneWise_bulkOr .mlt .mlt .tmp)).comp
      (laneWise_bulkAnd .meq1 .meq1 (.val j))).comp (laneWise_bulkAnd .meq2 .meq2 (.val j)),
      fun σ => ⟨fun k => by simp, fun hneg => by simp [masksOf, Masks.step, hneg]⟩⟩

variable (L) (c1 c2 : BitVec 32) {l : ℕ}

/-- **A column of the scan**, on every lane. -/
lemma masks_scanColumn (mem : AbstractMemory) (j : Fin n) (hl : l < rowBits * rows) :
    (∀ k, L.lane (scanColumn L c1 c2 mem j) l (.val k) = L.lane mem l (.val k)) ∧
      masksOf (L.lane (scanColumn L c1 c2 mem j) l) =
        (masksOf (L.lane mem l)).step (test c1 j) (test c2 j) (L.lane mem l (.val j)) := by
  obtain ⟨F, hF, hspec⟩ := laneWise_updateMasks L (test c1 j) (test c2 j) j
  rw [scanColumn, hF.forAllRows hl, (laneWise_bulkNot .neg (.val j)).forAllRows hl]
  obtain ⟨hval, hmask⟩ := hspec (update (L.lane mem l) .neg (!L.lane mem l (.val j)))
  refine ⟨fun k => ?_, ?_⟩
  · rw [hval k, update_of_ne (by simp)]
  · rw [hmask (by simp)]
    simp [masksOf]

def columns (c1 c2 : BitVec 32) (σ : Vec n → Bool) : List (Bool × Bool × Bool) :=
  (List.finRange n).map fun j : Fin n => (test c1 j, test c2 j, σ (.val j))

lemma masks_scanColumns (mem : AbstractMemory) (hl : l < rowBits * rows) (js : List (Fin n)) :
    (∀ k, L.lane (js.foldl (scanColumn L c1 c2) mem) l (.val k) = L.lane mem l (.val k)) ∧
      masksOf (L.lane (js.foldl (scanColumn L c1 c2) mem) l) = (masksOf (L.lane mem l)).scan
        (js.map fun j : Fin n => (test c1 j, test c2 j, L.lane mem l (.val j))) := by
  induction js generalizing mem with
  | nil => exact ⟨fun _ => rfl, rfl⟩
  | cons j js ih =>
    obtain ⟨hval, hmask⟩ := masks_scanColumn L c1 c2 mem j hl
    obtain ⟨ihval, ihmask⟩ := ih (scanColumn L c1 c2 mem j)
    refine ⟨fun k => (ihval k).trans (hval k), ?_⟩
    rw [List.foldl_cons, ihmask, hmask, List.map_cons]
    simp only [hval]
    rfl

end Bitweave

end ShifDram
