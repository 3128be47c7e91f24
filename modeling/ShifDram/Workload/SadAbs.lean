import ShifDram.Workload.SadPlus

/-!
The absolute values and the reduction of the sum-of-absolute-differences workload
(`microworkloads/sad_plus.c`).

`row_abs_val` smears the top bit of every lane over the lane with 32 right shifts in place, and
negates the lanes so marked. `row_reduce` is rounds of shifts by `32, 64, 128, …` bits, each
followed by a bulk addition. Both are stated for an arbitrary bulk adder in the place of
`row_add`.
-/

namespace ShifDram

open Function

namespace SadPlus

open AbstractMemory

def rowopNot (mem : AbstractMemory) (d s : RowAddr) : AbstractMemory :=
  mem.issue ⟨.rowNot, d, s, .ofNat 0⟩

def rowopShiftRight (mem : AbstractMemory) (d s : RowAddr) : AbstractMemory :=
  mem.issue ⟨.rowRs, d, s, .ofNat 0⟩

/-- A function called as `row_add(d, s1, s2, N, row_bytes)`. -/
abbrev Adder := AbstractMemory → RowAddr → RowAddr → RowAddr → ℕ → ℕ → AbstractMemory

/-- `row_twos_comp`, `ones` being the row it allocates. -/
def rowTwosComp (add : Adder) (mem : AbstractMemory) (ones d s : RowAddr) (N rowBytes : ℕ) :
    AbstractMemory :=
  let mem := mem.fillWords ones.1 1#32 (rowBytes / (N / 8) * (N / 32))
  let mem := rowopNot mem d s
  add mem d d ones N rowBytes

/-- The rows `row_abs_val` and `row_twos_comp` allocate. -/
inductive AbsTemp where
  | mask | signExtend | ones
  deriving DecidableEq

/-- From `posix_memalign`: row-aligned, all different. -/
structure AbsScratch where
  row : AbsTemp → RowAddr
  injective : Function.Injective row

/-- The sign-extension loop's body, with a shift in place. -/
def signRound (sc : AbsScratch) (mem : AbstractMemory) : AbstractMemory :=
  let mem := rowopShiftRight mem (sc.row .signExtend) (sc.row .signExtend)
  rowopOr mem (sc.row .mask) (sc.row .mask) (sc.row .signExtend)

def rowAbsVal (add : Adder) (mem : AbstractMemory) (sc : AbsScratch) (d s : RowAddr)
    (N rowBytes : ℕ) : AbstractMemory :=
  let mem := mem.fillWords (sc.row .mask).1 (1#32 <<< (N - 1)) (rowBytes / (N / 8) * (N / 32))
  let mem := rowopAnd mem (sc.row .signExtend) s (sc.row .mask)
  let mem := (signRound sc)^[N] mem
  let mem := rowopAnd mem (sc.row .signExtend) s (sc.row .mask)
  let mem := rowTwosComp add mem (sc.row .ones) (sc.row .signExtend) (sc.row .signExtend) N rowBytes
  let mem := rowopNot mem (sc.row .mask) (sc.row .mask)
  let mem := rowopAnd mem d s (sc.row .mask)
  rowopOr mem d d (sc.row .signExtend)

/-- `for (int i = 0; i < n; i++) rowop_shift(temp, (i==0) ? src : temp)`. -/
def shiftTimes (mem : AbstractMemory) (temp src : RowAddr) : ℕ → AbstractMemory
  | 0 => mem
  | i + 1 => rowopShift (shiftTimes mem temp src i) temp (if i = 0 then src else temp)

/-- `for (int shift = N; shift < ROW_SIZE; shift *= 2)`, from `shift` on. -/
def rowReduceLoop (add : Adder) (temp d s : RowAddr) (N rowBytes shift : ℕ)
    (mem : AbstractMemory) : AbstractMemory :=
  if 0 < shift ∧ shift < rowSize then
    let mem := shiftTimes mem temp (if shift = N then s else d) shift
    let mem := add mem d d temp N rowBytes
    rowReduceLoop add temp d s N rowBytes (shift * 2) mem
  else mem
termination_by rowSize - shift

/-- `row_reduce`, where `temp` is the row it allocates. -/
def rowReduce (add : Adder) (mem : AbstractMemory) (temp d s : RowAddr) (N rowBytes : ℕ) :
    AbstractMemory :=
  rowReduceLoop add temp d s N rowBytes N mem

/-- The lane sums are in the destination's first `rowBytes / 4` lanes; no other row of `keep`
changes. -/
structure ExactAdder (keep : RowAddr → Prop) (rowBytes : ℕ) (add : Adder) : Prop where
  lane_dest : ∀ mem d s1 s2, keep s1 → keep s2 → ∀ j < rowBytes / 4,
    lane ((add mem d s1 s2 32 rowBytes).rows d) j = lane (mem.rows s1) j + lane (mem.rows s2) j
  rows_of_ne : ∀ mem d s1 s2 a, keep a → a ≠ d →
    (add mem d s1 s2 32 rowBytes).rows a = mem.rows a

def addWords : Adder := fun mem d s1 s2 _ rowBytes =>
  mem.storeWords d.1 (fun j => lane (mem.rows s1) j + lane (mem.rows s2) j) (rowBytes / 4)

lemma lanes_le {rowBytes : ℕ} (h : rowBytes ≤ rowSize) : rowBytes / 4 ≤ 2048 := by
  simp only [rowSize] at h
  omega

lemma exactAdder_addWords {rowBytes : ℕ} (h : rowBytes ≤ rowSize) :
    ExactAdder (fun _ => True) rowBytes addWords where
  lane_dest mem d s1 s2 _ _ j hj := by
    have hlen := lanes_le h
    rw [addWords, rows, lane_storeWords _ _ hlen (by omega), if_pos hj]
  rows_of_ne mem d s1 s2 a _ ha :=
    rowAt_storeWords_of_apart _ _ (lanes_le h) (RowAddr.rowsApart_of_ne ha)

variable {mem : AbstractMemory} {n : ℕ} {S prior : BitVec rowBits} {keep : RowAddr → Prop} {j : ℕ}
  {x k : BitVec 32} {rowBytes : ℕ} {a d : RowAddr} {add : Adder}

@[simp] lemma rows_rowopNot (mem : AbstractMemory) (d s : RowAddr) :
    (rowopNot mem d s).rows = Function.update mem.rows d (~~~mem.rows s) :=
  rows_issue mem fun h => by rcases h with h | h <;> cases h

lemma rows_rowopShift_of_ne (s : RowAddr) (ha : a ≠ d) : (rowopShift mem d s).rows a = mem.rows a :=
  rows_issue_of_ne mem ha

lemma rows_rowopShiftRight_of_ne (s : RowAddr) (ha : a ≠ d) :
    (rowopShiftRight mem d s).rows a = mem.rows a :=
  rows_issue_of_ne mem ha

lemma rows_fillWords_of_ne {a b : RowAddr} (v : BitVec 32) (hn : n ≤ 2048) (h : b ≠ a) :
    (mem.fillWords a.1 v n).rows b = mem.rows b :=
  rowAt_fillWords_of_apart mem v hn (RowAddr.rowsApart_of_ne h)

@[simp] lemma lane_not (r : BitVec rowBits) {k : ℕ} (hk : k < 2048) :
    lane (~~~r) k = ~~~lane r k := by
  refine BitVec.eq_of_getLsbD_eq fun i hi => ?_
  have hrow : 32 * k + i < rowBits := by
    simp only [rowBits]
    omega
  rw [getLsbD_lane _ _ hi, BitVec.getLsbD_not, BitVec.getLsbD_not, getLsbD_lane _ _ hi,
    decide_eq_true hi, decide_eq_true hrow]

lemma lane_rowTwosComp
    (hadd : ExactAdder keep rowBytes add) (hbytes : rowBytes ≤ rowSize) {ones d s : RowAddr}
    (hones : keep ones) (hd : keep d) (hne : ones ≠ d) (hs : s ≠ ones)
    (hj : j < rowBytes / 4) :
    lane ((rowTwosComp add mem ones d s 32 rowBytes).rows d) j = -lane (mem.rows s) j := by
  have hlen := lanes_le hbytes
  have hcount : rowBytes / (32 / 8) * (32 / 32) = rowBytes / 4 := by simp
  rw [rowTwosComp, hcount, hadd.lane_dest _ _ _ _ hd hones j hj, rows_rowopNot,
    update_self, update_of_ne hne, lane_not _ (by omega),
    rows_fillWords_of_ne _ hlen hs, BitVec.neg_eq_not_add]
  congr 1
  exact lane_fillWords mem ones.1 _ hlen hj

lemma rows_rowTwosComp_of_ne
    (hadd : ExactAdder keep rowBytes add) (hbytes : rowBytes ≤ rowSize) {ones d s a : RowAddr}
    (ha : keep a) (hne : a ≠ d) (hao : a ≠ ones) :
    (rowTwosComp add mem ones d s 32 rowBytes).rows a = mem.rows a := by
  have hcount : rowBytes / (32 / 8) * (32 / 32) = rowBytes / 4 := by simp
  rw [rowTwosComp, hcount, hadd.rows_of_ne _ _ _ _ a ha hne, rows_rowopNot,
    update_of_ne hne, rows_fillWords_of_ne _ (lanes_le hbytes) hao]

/-! ### Smearing the sign -/

/-- The bit that `t` shifts in place bring to `i`; bit `0` is skipped at a word boundary. -/
lemma rsSource_iterate (i : ℕ) {t : ℕ} (ht : t ≤ 63) :
    rsSource^[t] i = i + t + (i % 64 + t) / 64 := by
  induction t with
  | zero => simp [Nat.div_eq_of_lt (Nat.mod_lt i (show 0 < 64 by norm_num))]
  | succ t ih =>
    -- at most one boundary is crossed
    have hq : (i % 64 + t) / 64 = 0 ∧ i % 64 + t < 64 ∨
        (i % 64 + t) / 64 = 1 ∧ 64 ≤ i % 64 + t := by omega
    have hq' : (i % 64 + (t + 1)) / 64 = 0 ∧ i % 64 + t < 63 ∨
        (i % 64 + (t + 1)) / 64 = 1 ∧ 63 ≤ i % 64 + t := by omega
    rw [iterate_succ_apply', ih (by omega), rsSource]
    rcases hq with ⟨h1, h2⟩ | ⟨h1, h2⟩ <;> rcases hq' with ⟨h3, h4⟩ | ⟨h3, h4⟩ <;>
      rw [h1, h3] <;> split <;> omega

variable {sc : AbsScratch} {M X : BitVec rowBits} {n : ℕ}

@[simp] lemma AbsScratch.row_eq_iff {t t' : AbsTemp} : sc.row t = sc.row t' ↔ t = t' :=
  sc.injective.eq_iff

/-- After `n` rounds of sign extension, from `M` in the mask row and `X` in the signs. -/
structure Smeared (sc : AbsScratch) (M X : BitVec rowBits) (n : ℕ) (mem : AbstractMemory) :
    Prop where
  sign : ∀ i, (mem.rows (sc.row .signExtend)).getLsbD i = X.getLsbD (rsSource^[n] i)
  mask : ∀ i, (mem.rows (sc.row .mask)).getLsbD i = true ↔ M.getLsbD i = true ∨
    ∃ t, 1 ≤ t ∧ t ≤ n ∧ X.getLsbD (rsSource^[t] i) = true

lemma Smeared.signRound (h : Smeared sc M X n mem) : Smeared sc M X (n + 1) (signRound sc mem) := by
  set shifted := rowopShiftRight mem (sc.row .signExtend) (sc.row .signExtend) with hshifted
  have hsign : ∀ i, (shifted.rows (sc.row .signExtend)).getLsbD i =
      X.getLsbD (rsSource^[n + 1] i) := by
    intro i
    rw [hshifted, rowopShiftRight, getLsbD_issue_rowRs_self, h.sign, iterate_succ_apply]
  have hmask : shifted.rows (sc.row .mask) = mem.rows (sc.row .mask) :=
    rows_rowopShiftRight_of_ne _ (by simp)
  refine ⟨fun i => ?_, fun i => ?_⟩
  · rw [SadPlus.signRound, rows_rowopOr, update_of_ne (by simp)]
    exact hsign i
  · rw [SadPlus.signRound, rows_rowopOr, update_self, BitVec.getLsbD_or,
      Bool.or_eq_true, ← hshifted, hmask, hsign, h.mask, or_assoc]
    refine or_congr_right ⟨?_, ?_⟩
    · rintro (⟨t, h1, h2, hX⟩ | hX)
      · exact ⟨t, h1, by omega, hX⟩
      · exact ⟨n + 1, by omega, le_rfl, hX⟩
    · rintro ⟨t, h1, h2, hX⟩
      rcases Nat.lt_or_eq_of_le h2 with hlt | rfl
      · exact Or.inl ⟨t, h1, by omega, hX⟩
      · exact Or.inr hX

lemma Smeared.iterate (hM : mem.rows (sc.row .mask) = M)
    (hX : mem.rows (sc.row .signExtend) = X) (n : ℕ) :
    Smeared sc M X n ((SadPlus.signRound sc)^[n] mem) := by
  induction n with
  | zero =>
    refine ⟨fun i => by rw [← hX]; rfl, fun i => ?_⟩
    rw [← hM]
    refine ⟨Or.inl, fun h => h.resolve_right ?_⟩
    rintro ⟨t, h1, h2, -⟩
    omega
  | succ n ih =>
    rw [iterate_succ_apply']
    exact ih.signRound

lemma rows_signRound_iterate {a : RowAddr} (hm : a ≠ sc.row .mask) (hs : a ≠ sc.row .signExtend)
    (n : ℕ) : ((SadPlus.signRound sc)^[n] mem).rows a = mem.rows a := by
  induction n with
  | zero => rfl
  | succ n ih =>
    rw [iterate_succ_apply', SadPlus.signRound, rows_rowopOr,
      update_of_ne hm, rows_rowopShiftRight_of_ne _ hs, ih]

/-- Bit `c` of the next lane reaches bit `b` of lane `j` within 32 shifts; at a word boundary a
shift early, and bit `0` is lost. -/
def Spills (X : BitVec rowBits) (j b : ℕ) : Prop :=
  ∃ c, j % 2 ≤ c ∧ c ≤ b + j % 2 ∧ (lane X (j + 1)).getLsbD c = true

lemma getLsbD_lane_smeared (h : Smeared sc M X 32 mem) (j : ℕ) {b : ℕ} (hb : b < 31) :
    (lane (mem.rows (sc.row .mask)) j).getLsbD b = true ↔ (lane M j).getLsbD b = true ∨
      (∃ c, b < c ∧ c < 32 ∧ (lane X j).getLsbD c = true) ∨ Spills X j b := by
  rw [getLsbD_lane _ _ (by omega), h.mask, getLsbD_lane _ _ (by omega)]
  refine or_congr_right ⟨?_, ?_⟩
  · rintro ⟨t, h1, h2, hX⟩
    rw [rsSource_iterate _ (by omega)] at hX
    by_cases hown : b + t < 32
    · refine Or.inl ⟨b + t, by omega, hown, ?_⟩
      rw [getLsbD_lane _ _ hown]
      convert hX using 2
      omega
    · refine Or.inr ⟨b + t - 32 + j % 2, by omega, by omega, ?_⟩
      rw [getLsbD_lane _ _ (by omega)]
      convert hX using 2
      omega
  · rintro (⟨c, h1, h2, hX⟩ | ⟨c, h1, h2, hX⟩)
    · refine ⟨c - b, by omega, by omega, ?_⟩
      rw [getLsbD_lane _ _ h2] at hX
      rw [rsSource_iterate _ (by omega)]
      convert hX using 2
      omega
    · refine ⟨c + 32 - b - j % 2, by omega, by omega, ?_⟩
      rw [getLsbD_lane _ _ (by omega)] at hX
      rw [rsSource_iterate _ (by omega)]
      convert hX using 2
      omega

/-! ### Absolute values -/

/-- `row_abs_val` on a lane: the part in the mask `k` is negated. -/
def absLane (x k : BitVec 32) : BitVec 32 := x &&& ~~~k ||| -(x &&& k)

lemma absLane_allOnes : absLane x (BitVec.allOnes 32) = -x := by
  rw [absLane, BitVec.and_allOnes, BitVec.not_allOnes, BitVec.and_zero, BitVec.zero_or]

/-- A nonnegative lane is kept exactly if the mask misses it. -/
lemma absLane_eq_self_iff (hx : x.msb = false) : absLane x k = x ↔ x &&& k = 0#32 := by
  constructor
  · intro h
    by_contra hne
    have hlt : x.toNat < 2 ^ 31 := by
      rw [BitVec.msb_eq_decide] at hx
      simpa using hx
    have hle : (x &&& k).toNat ≤ x.toNat := by
      exact Nat.and_le_left
    have hmsb : (-(x &&& k)).msb = true := by
      have hpos : (x &&& k).toNat ≠ 0 := fun h0 => hne (BitVec.eq_of_toNat_eq h0)
      rw [BitVec.msb_eq_decide, BitVec.toNat_neg, Nat.mod_eq_of_lt (by omega)]
      simp only [decide_eq_true_eq]
      omega
    rw [← h, absLane, BitVec.msb_or, hmsb, Bool.or_true] at hx
    cases hx
  · intro h
    rw [absLane, h, BitVec.neg_zero, BitVec.or_zero]
    refine BitVec.eq_of_getLsbD_eq fun i hi => ?_
    have hbit : (x &&& k).getLsbD i = false := by
      rw [h, BitVec.getLsbD_zero]
    rw [BitVec.getLsbD_and, BitVec.getLsbD_not, decide_eq_true hi, Bool.true_and]
    cases hk : k.getLsbD i
    · simp
    · simpa [hk] using hbit.symm

lemma and_eq_zero_iff (hx : x.msb = false) :
    x &&& k = 0#32 ↔ ∀ b < 31, x.getLsbD b = true → k.getLsbD b = false := by
  rw [BitVec.eq_of_getLsbD_eq_iff]
  have h31 : x.getLsbD 31 = false := by
    exact hx
  constructor
  · intro h b hb hxb
    have hbit := h b (by omega)
    rw [BitVec.getLsbD_and, hxb, Bool.true_and] at hbit
    rw [hbit, BitVec.getLsbD_zero]
  · intro h i hi
    rw [BitVec.getLsbD_and, BitVec.getLsbD_zero]
    cases hxi : x.getLsbD i
    · rfl
    · have hne : i ≠ 31 := by
        rintro rfl
        rw [h31] at hxi
        cases hxi
      rw [h i (by omega) hxi]
      rfl

/-- Lane `j` of the mask row with its first `n` lanes written. -/
def maskLane (prior : BitVec rowBits) (n j : ℕ) : BitVec 32 :=
  if j < n then 0x80000000#32 else lane prior j

/-- Lane `j` is negative, or no bit smeared from the next lane meets one of its own; `n` lanes of
the mask row `prior` are written. -/
def AbsSafe (S prior : BitVec rowBits) (n j : ℕ) : Prop :=
  (lane S j).msb = true ∨ ∀ b < 31, (lane S j).getLsbD b = true → ∀ c, j % 2 ≤ c → c ≤ b + j % 2 →
    (lane S (j + 1)).getLsbD c = true → (maskLane prior n (j + 1)).getLsbD c = false

lemma getLsbD_signBit (c : ℕ) : (0x80000000#32).getLsbD c = decide (c = 31) := by
  by_cases hc : c < 32
  · revert c
    decide
  · rw [BitVec.getLsbD_of_ge _ _ (by omega), decide_eq_false (by omega)]

lemma Smeared.getLsbD_lane_mask {S : BitVec rowBits} (h : Smeared sc M (S &&& M) 32 mem) {j b : ℕ}
    (hM : lane M j = 0x80000000#32) (hb : b < 31) :
    (lane (mem.rows (sc.row .mask)) j).getLsbD b = true ↔
      (lane S j).msb = true ∨ Spills (S &&& M) j b := by
  rw [getLsbD_lane_smeared h j hb, hM, getLsbD_signBit, decide_eq_false (by omega)]
  simp only [Bool.false_eq_true, false_or, lane_and, hM, BitVec.getLsbD_and, getLsbD_signBit,
    Bool.and_eq_true, decide_eq_true_eq]
  refine or_congr_left ⟨?_, fun h31 => ⟨31, by omega, by norm_num, ?_, rfl⟩⟩
  · rintro ⟨c, -, -, hc, rfl⟩
    exact hc
  · exact h31

lemma spills_and_iff (hM : ∀ j < 2048, lane M j = maskLane prior n j) {j b : ℕ} (hb : b < 31) :
    Spills (S &&& M) j b ↔ ∃ c, j % 2 ≤ c ∧ c ≤ b + j % 2 ∧
      (lane S (j + 1)).getLsbD c = true ∧ (maskLane prior n (j + 1)).getLsbD c = true := by
  refine exists_congr fun c => and_congr_right fun _ => and_congr_right fun hc => ?_
  rw [lane_and, BitVec.getLsbD_and, Bool.and_eq_true]
  refine and_congr_right fun hnext => ?_
  -- a bit that is set belongs to a lane of the row
  have hj : j + 1 < 2048 := by
    by_contra hge
    rw [getLsbD_lane _ _ (by omega), BitVec.getLsbD_of_ge _ _ (by simp only [rowBits]; omega)]
      at hnext
    cases hnext
  rw [hM (j + 1) hj]

/-- Between two data lanes only a word boundary matters. -/
lemma absSafe_iff_of_lt (hj : j + 1 < n) : AbsSafe S prior n j ↔ (lane S j).msb = true ∨
      (j % 2 = 1 → (lane S (j + 1)).msb = true → (lane S j).getLsbD 30 = false) := by
  rw [AbsSafe, maskLane, if_pos hj]
  refine or_congr_right ⟨?_, ?_⟩
  · intro h hodd hnext
    by_contra hbit
    have hsign := h 30 (by norm_num) (by simpa using hbit) 31 (by omega) (by omega) hnext
    cases hsign
  · intro h b hb hbit c h1 h2 hc
    rw [getLsbD_signBit, decide_eq_false_iff_not]
    rintro rfl
    obtain rfl : b = 30 := by omega
    have hodd : j % 2 = 1 := by omega
    rw [h hodd (by exact hc)] at hbit
    cases hbit

variable {keep : RowAddr → Prop} {rowBytes : ℕ} {add : Adder} {d s : RowAddr}

section

variable (hadd : ExactAdder keep rowBytes add) (hbytes : rowBytes ≤ rowSize)
  (hkeep : ∀ t, keep (sc.row t)) (hks : keep s) (hs : ∀ t, s ≠ sc.row t) (hd : ∀ t, d ≠ sc.row t)

include hadd hbytes hkeep hks hs hd

lemma rows_rowAbsVal (mem : AbstractMemory) : ∃ m M, Smeared sc M (mem.rows s &&& M) 32 m ∧
      (∀ j < 2048, lane M j = maskLane (mem.rows (sc.row .mask)) (rowBytes / 4) j) ∧
      ∀ j < rowBytes / 4, lane ((rowAbsVal add mem sc d s 32 rowBytes).rows d) j =
        absLane (lane (mem.rows s) j) (lane (m.rows (sc.row .mask)) j) := by
  have hlen := lanes_le hbytes
  have hcount : rowBytes / (32 / 8) * (32 / 32) = rowBytes / 4 := by simp
  have htop : (1#32 <<< (32 - 1)) = 0x80000000#32 := by decide
  set mem1 := mem.fillWords (sc.row .mask).1 0x80000000#32 (rowBytes / 4) with hmem1
  set mem2 := rowopAnd mem1 (sc.row .signExtend) s (sc.row .mask) with hmem2
  set mem3 := (SadPlus.signRound sc)^[32] mem2 with hmem3
  set mem4 := rowopAnd mem3 (sc.row .signExtend) s (sc.row .mask) with hmem4
  set mem5 := rowTwosComp add mem4 (sc.row .ones) (sc.row .signExtend) (sc.row .signExtend) 32
    rowBytes with hmem5
  have hs1 : mem1.rows s = mem.rows s := rows_fillWords_of_ne _ hlen (hs _)
  have hs2 : mem2.rows s = mem.rows s := by
    rw [hmem2, rows_rowopAnd, update_of_ne (hs _), hs1]
  have hs3 : mem3.rows s = mem.rows s := by
    rw [hmem3, rows_signRound_iterate (hs _) (hs _), hs2]
  have hs4 : mem4.rows s = mem.rows s := by
    rw [hmem4, rows_rowopAnd, update_of_ne (hs _), hs3]
  have hs5 : mem5.rows s = mem.rows s := by
    rw [hmem5, rows_rowTwosComp_of_ne hadd hbytes hks (hs _) (hs _), hs4]
  have hmask5 : mem5.rows (sc.row .mask) = mem3.rows (sc.row .mask) := by
    rw [hmem5, rows_rowTwosComp_of_ne hadd hbytes (hkeep _) (by simp) (by simp), hmem4,
      rows_rowopAnd, update_of_ne (by simp)]
  refine ⟨mem3, mem1.rows (sc.row .mask), ?_, fun j hj => ?_, fun j hj => ?_⟩
  · refine Smeared.iterate ?_ ?_ 32
    · rw [hmem2, rows_rowopAnd, update_of_ne (by simp)]
    · rw [hmem2, rows_rowopAnd, update_self, hs1]
  · rw [hmem1, rows, lane_fillWords_eq mem _ hlen hj]
    rfl
  · -- the negated part of the lane, then the two parts put together
    have hneg : lane (mem5.rows (sc.row .signExtend)) j =
        -(lane (mem.rows s) j &&& lane (mem3.rows (sc.row .mask)) j) := by
      rw [hmem5, lane_rowTwosComp hadd hbytes (hkeep _) (hkeep _) (by simp) (by simp) hj, hmem4,
        rows_rowopAnd, update_self, lane_and, hs3]
    have hprog : rowAbsVal add mem sc d s 32 rowBytes =
        rowopOr (rowopAnd (rowopNot mem5 (sc.row .mask) (sc.row .mask)) d s (sc.row .mask)) d d
          (sc.row .signExtend) := by
      rw [rowAbsVal, hcount, htop]
    rw [hprog, rows_rowopOr, update_self, lane_or, rows_rowopAnd, update_self,
      update_of_ne (hd _).symm, lane_and, rows_rowopNot, update_self,
      update_of_ne (hs _), update_of_ne (by simp), lane_not _ (by omega), hneg,
      hs5, hmask5, absLane]

lemma lane_rowAbsVal_eq_abs_iff (hj : j < rowBytes / 4) :
    lane ((rowAbsVal add mem sc d s 32 rowBytes).rows d) j = (lane (mem.rows s) j).abs ↔
      AbsSafe (mem.rows s) (mem.rows (sc.row .mask)) (rowBytes / 4) j := by
  obtain ⟨m, M, hsm, hM, hlane⟩ := rows_rowAbsVal hadd hbytes hkeep hks hs hd mem
  have hlen := lanes_le hbytes
  have hMj : lane M j = 0x80000000#32 := by rw [hM j (by omega), maskLane, if_pos hj]
  set x := lane (mem.rows s) j with hx
  set k := lane (m.rows (sc.row .mask)) j with hk
  have hbits : ∀ b < 31, (k.getLsbD b = true ↔ x.msb = true ∨ Spills (mem.rows s &&& M) j b) :=
    fun b hb => hsm.getLsbD_lane_mask hMj hb
  rw [hlane j hj, AbsSafe, BitVec.abs_eq]
  cases hmsb : x.msb with
  | true =>
    have hall : k = BitVec.allOnes 32 := by
      refine BitVec.eq_of_getLsbD_eq fun i hi => ?_
      rw [BitVec.getLsbD_allOnes, decide_eq_true hi]
      rcases Nat.lt_or_ge i 31 with hlt | hge
      · exact (hbits i hlt).mpr (Or.inl hmsb)
      · obtain rfl : i = 31 := by omega
        have htop : M.getLsbD (32 * j + 31) = true := by
          rw [← getLsbD_lane _ _ hi, hMj]
          rfl
        rw [hk, getLsbD_lane _ _ hi]
        exact (hsm.mask _).mpr (Or.inl htop)
    simp only [if_true, true_or, iff_true]
    rw [← hx, ← hk, hall, absLane_allOnes]
  | false =>
    simp only [Bool.false_eq_true, if_false, false_or]
    rw [absLane_eq_self_iff hmsb, and_eq_zero_iff hmsb]
    refine forall₃_congr fun b hb hxb => ?_
    rw [← Bool.not_eq_true, hbits b hb, spills_and_iff hM hb, hmsb]
    simp only [Bool.false_eq_true, false_or, not_exists, not_and, Bool.not_eq_true]

end

/-- **The absolute values**: with an exact adder, `row_abs_val` on 32-bit lanes leaves the absolute
values if and only if every lane is `AbsSafe`. Source and destination, perhaps the same, are no
scratch rows. -/
theorem rowAbsVal_lanes_iff (mem : AbstractMemory) (add : Adder) (keep : RowAddr → Prop)
    (sc : AbsScratch) (d s : RowAddr) (rowBytes : ℕ) (hadd : ExactAdder keep rowBytes add)
    (hbytes : rowBytes ≤ rowSize) (hkeep : ∀ t, keep (sc.row t)) (hks : keep s)
    (hs : ∀ t, s ≠ sc.row t) (hd : ∀ t, d ≠ sc.row t) :
    (∀ j < rowBytes / 4, lane ((rowAbsVal add mem sc d s 32 rowBytes).rows d) j =
        (lane (mem.rows s) j).abs) ↔
      ∀ j < rowBytes / 4, AbsSafe (mem.rows s) (mem.rows (sc.row .mask)) (rowBytes / 4) j :=
  forall₂_congr fun _ hj => lane_rowAbsVal_eq_abs_iff hadd hbytes hkeep hks hs hd hj

def absFromThree : AbsScratch where
  row t := .ofNat (t.ctorIdx + 3)
  injective a b h := by
    cases a <;> cases b <;> first | rfl | cases h

lemma ofNat_ne_absFromThree (hn : n < 3) (t : AbsTemp) : RowAddr.ofNat n ≠ absFromThree.row t := by
  simp only [absFromThree, ne_eq, RowAddr.ofNat_inj]
  omega

theorem rowAbsVal_lanes_iff_oneOne :
    (∀ j < 4096 / 4, lane ((rowAbsVal addWords oneOne absFromThree (.ofNat 0) (.ofNat 0) 32
        4096).rows (.ofNat 0)) j = (lane (oneOne.rows (.ofNat 0)) j).abs) ↔
      ∀ j < 4096 / 4, AbsSafe (oneOne.rows (.ofNat 0)) (oneOne.rows (absFromThree.row .mask))
        (4096 / 4) j :=
  rowAbsVal_lanes_iff oneOne addWords (fun _ => True) absFromThree (.ofNat 0) (.ofNat 0) 4096
    (exactAdder_addWords (by decide)) (by decide) (fun _ => trivial) trivial
    (ofNat_ne_absFromThree (by norm_num)) (ofNat_ne_absFromThree (by norm_num))

/-- `2 ^ 30` in lane 1 and a negative number in lane 2. -/
def neighbours : AbstractMemory :=
  { rangeStart := 0
    rangeEnd := 0xFFFFF
    pmemAddr := 0x10000
    host := fun x => if x = 0x10007 then 0x40#8 else if x = 0x1000B then 0x80#8 else 0#8
    lockedAddrList := [] }

/-- Lane 2's sign disturbs lane 1, a positive number. -/
theorem rowAbsVal_neighbours : (lane (neighbours.rows (.ofNat 0)) 1).abs = 0x40000000#32 ∧
      lane ((rowAbsVal addWords neighbours absFromThree (.ofNat 1) (.ofNat 0) 32 4096).rows
        (.ofNat 1)) 1 ≠ 0x40000000#32 := by
  have h1 : lane (neighbours.rows (.ofNat 0)) 1 = 0x40000000#32 := by
    rw [rows, lane_rowAt _ _ (by norm_num)]
    decide
  have h2 : lane (neighbours.rows (.ofNat 0)) 2 = 0x80000000#32 := by
    rw [rows, lane_rowAt _ _ (by norm_num)]
    decide
  have habs : (lane (neighbours.rows (.ofNat 0)) 1).abs = 0x40000000#32 := by
    rw [h1]
    decide
  refine ⟨habs, fun h => ?_⟩
  rw [← habs, lane_rowAbsVal_eq_abs_iff (exactAdder_addWords (by decide))
    (by decide) (fun _ => trivial) trivial (ofNat_ne_absFromThree (by norm_num))
    (ofNat_ne_absFromThree (by norm_num)) (by norm_num), absSafe_iff_of_lt (by norm_num), h1,
    h2] at h
  revert h
  decide

lemma getLsbD_shiftTimes (mem : AbstractMemory) (temp src : RowAddr) {n i : ℕ} (hi : i < n)
    (h64 : i < 64) : ((shiftTimes mem temp src n).rows temp).getLsbD i = false := by
  induction n generalizing i with
  | zero => omega
  | succ n ih =>
    rw [shiftTimes, rowopShift, getLsbD_issue_rowLs _ _ _ _ h64]
    rcases Nat.eq_zero_or_pos i with rfl | hpos
    · rfl
    · have hn : n ≠ 0 := by omega
      rw [if_neg hn, ih (by omega) (by omega), Bool.and_false]

lemma rows_shiftTimes_of_ne {temp a : RowAddr} (src : RowAddr) (ha : a ≠ temp) (n : ℕ) :
    (shiftTimes mem temp src n).rows a = mem.rows a := by
  induction n with
  | zero => rfl
  | succ n ih => rw [shiftTimes, rows_rowopShift_of_ne _ ha, ih]

lemma lane_zero_shiftTimes (mem : AbstractMemory) (temp src : RowAddr) (hn : 32 ≤ n) :
    lane ((shiftTimes mem temp src n).rows temp) 0 = 0#32 := by
  refine BitVec.eq_of_getLsbD_eq fun i hi => ?_
  rw [getLsbD_lane _ _ hi, getLsbD_shiftTimes _ _ _ (by omega) (by omega), BitVec.getLsbD_zero]

variable {temp : RowAddr} {N shift : ℕ}

/-- **The reduction leaves the destination's first lane**: lanes shift up. -/
lemma lane_zero_rowReduceLoop (hadd : ExactAdder keep rowBytes add) (hbytes : 4 ≤ rowBytes)
    (hkd : keep d) (hkt : keep temp) (hd : d ≠ temp) (hshift : 32 ≤ shift) :
    lane ((rowReduceLoop add temp d s 32 rowBytes shift mem).rows d) 0 = lane (mem.rows d) 0 := by
  -- induction on the rounds: each adds an empty lane
  induction shift, mem using rowReduceLoop.induct add temp d s 32 rowBytes with
  | case1 shift mem h shifted added ih =>
    rw [rowReduceLoop, if_pos h]
    refine (ih (by omega)).trans ?_
    rw [hadd.lane_dest _ _ _ _ hkd hkt 0 (by omega), lane_zero_shiftTimes _ _ _ hshift,
      rows_shiftTimes_of_ne _ hd, BitVec.add_zero]
  | case2 shift mem h => rw [rowReduceLoop, if_neg h]

def laneSum (r : BitVec rowBits) : ℕ → BitVec 32
  | 0 => 0#32
  | n + 1 => laneSum r n + lane r n

/-- **The reduction**: with an exact adder, the first lane of the destination of `row_reduce` is the
sum of the source's lanes if and only if it was that before. -/
theorem rowReduce_sum_iff (mem : AbstractMemory) (add : Adder) (keep : RowAddr → Prop)
    (temp d s : RowAddr) (rowBytes : ℕ) (hadd : ExactAdder keep rowBytes add)
    (hbytes : 4 ≤ rowBytes) (hkd : keep d) (hkt : keep temp) (hd : d ≠ temp) :
    lane ((rowReduce add mem temp d s 32 rowBytes).rows d) 0 = laneSum (mem.rows s) (rowBytes / 4) ↔
      lane (mem.rows d) 0 = laneSum (mem.rows s) (rowBytes / 4) := by
  rw [rowReduce, lane_zero_rowReduceLoop hadd hbytes hkd hkt hd le_rfl]

theorem rowReduce_sum_iff_oneOne :
    lane ((rowReduce addWords oneOne (.ofNat 3) (.ofNat 2) (.ofNat 0) 32 4096).rows (.ofNat 2)) 0 =
        laneSum (oneOne.rows (.ofNat 0)) (4096 / 4) ↔
      lane (oneOne.rows (.ofNat 2)) 0 = laneSum (oneOne.rows (.ofNat 0)) (4096 / 4) :=
  rowReduce_sum_iff oneOne addWords (fun _ => True) (.ofNat 3) (.ofNat 2) (.ofNat 0) 4096
    (exactAdder_addWords (by decide)) (by norm_num) trivial trivial
    (by rw [ne_eq, RowAddr.ofNat_inj]; norm_num)

lemma laneSum_eq_of_zero {r : BitVec rowBits}
    (h : ∀ k, 0 < k → k ≤ n → lane r k = 0#32) : laneSum r (n + 1) = lane r 0 := by
  induction n with
  | zero => rw [laneSum, laneSum, BitVec.zero_add]
  | succ n ih =>
    rw [laneSum, ih fun k h1 h2 => h k h1 (by omega), h (n + 1) (by omega) le_rfl, BitVec.add_zero]

/-- Lanes that sum to `1` are reduced to the destination's `0`. -/
theorem rowReduce_oneOne : laneSum (oneOne.rows (.ofNat 0)) (4096 / 4) = 1#32 ∧
      lane ((rowReduce addWords oneOne (.ofNat 3) (.ofNat 2) (.ofNat 0) 32 4096).rows
        (.ofNat 2)) 0 = 0#32 := by
  have hzero : ∀ k, 0 < k → k ≤ 1023 → lane (oneOne.rows (.ofNat 0)) k = 0#32 := by
    intro k h1 h2
    refine BitVec.eq_of_getLsbD_eq fun i hi => ?_
    have hx : ¬ ((0x10000 : ℤ) + ((32 * k + i) / 8 : ℕ) = 0x10000 ∨
        (0x10000 : ℤ) + ((32 * k + i) / 8 : ℕ) = 0x12000) := by omega
    rw [getLsbD_lane _ _ hi, rows, getLsbD_rowAt _ _ (by omega)]
    have hbyte : oneOne.host (oneOne.hostAddr (RowAddr.ofNat 0).1 + ((32 * k + i) / 8 : ℕ)) = 0#8 :=
      if_neg hx
    rw [ByteMem.bitAt, hbyte, BitVec.getLsbD_zero, BitVec.getLsbD_zero]
  constructor
  · rw [laneSum_eq_of_zero hzero, rows, lane_rowAt _ _ (by norm_num)]
    decide
  · rw [rowReduce, lane_zero_rowReduceLoop (exactAdder_addWords (by decide)) (by norm_num) trivial
      trivial (by rw [ne_eq, RowAddr.ofNat_inj]; norm_num) le_rfl, rows,
      lane_rowAt _ _ (by norm_num)]
    decide

end SadPlus

end ShifDram
