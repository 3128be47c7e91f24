import ShifDram.Mem.RowOps

/-!
The memory as a machine whose registers are rows.

A program that keeps to row-aligned operands never sees a row in parts: each row op reads whole
rows and replaces one, as long as no shift is executed in place. Lanes are the 32-bit words of a
row.
-/

namespace ShifDram

open ByteMem

variable (r s : BitVec rowBits) (ins : RowInstr)

/-- The address of a row, a multiple of `rowSize`. -/
def RowAddr : Type := { a : ℕ // rowSize ∣ a }

instance : DecidableEq RowAddr := inferInstanceAs (DecidableEq { a : ℕ // rowSize ∣ a })

namespace RowAddr

def ofNat (n : ℕ) : RowAddr := ⟨rowSize * n, Nat.dvd_mul_right _ _⟩

lemma ofNat_inj {m n : ℕ} : ofNat m = ofNat n ↔ m = n := by
  refine ⟨fun h => ?_, fun h => by rw [h]⟩
  exact Nat.eq_of_mul_eq_mul_left (by norm_num [rowSize]) (congrArg Subtype.val h)

lemma eq_or_rowsApart (a b : RowAddr) : a.1 = b.1 ∨ RowsApart a.1 b.1 := by
  by_cases h : a.1 = b.1
  · exact Or.inl h
  · exact Or.inr (rowsApart_of_dvd a.2 b.2 h)

lemma rowsApart_of_ne {a b : RowAddr} (h : a ≠ b) : RowsApart a.1 b.1 :=
  rowsApart_of_dvd a.2 b.2 fun h' => h (Subtype.ext h')

end RowAddr

abbrev RowStore := RowAddr → BitVec rowBits

structure RowInstr where
  op : RowOp
  dest : RowAddr
  src1 : RowAddr
  src2 : RowAddr

namespace RowInstr

def payload : RowOpPayload := ⟨ins.op, ins.dest.1, ins.src1.1, ins.src2.1⟩

/-- The meaning: the destination row is replaced. -/
def exec (σ : RowStore) : RowStore :=
  Function.update σ ins.dest (ins.op.eval (σ ins.dest) (σ ins.src1) (σ ins.src2))

def NotShiftInPlace : Prop := ins.op = .rowLs ∨ ins.op = .rowRs → ins.src1 ≠ ins.dest

lemma sourcesSameOrApart : AbstractMemory.SourcesSameOrApart ins.payload :=
  ⟨fun _ => RowAddr.eq_or_rowsApart _ _, fun _ => RowAddr.eq_or_rowsApart _ _⟩

end RowInstr

namespace AbstractMemory

variable (mem : AbstractMemory)

def rows : RowStore := fun a => mem.rowAt a.1

def issue (ins : RowInstr) : AbstractMemory :=
  ((mem.access (.ofRowOp ins.payload)).map Prod.fst).getD mem

lemma issue_eq (ins : RowInstr) : mem.issue ins = mem.rowOp ins.payload := by
  rw [issue, access_of_performsRowOp (Packet.performsRowOp_ofRowOp ins.payload)]
  rfl

lemma rows_issue_of_ne {ins : RowInstr} {a : RowAddr} (ha : a ≠ ins.dest) :
    (mem.issue ins).rows a = mem.rows a := by
  rw [issue_eq]
  exact rowAt_rowOp_of_apart ins.sourcesSameOrApart (RowAddr.rowsApart_of_ne ha)

/-- **The memory simulates the row machine.** -/
theorem rows_issue {ins : RowInstr} (h : ins.NotShiftInPlace) :
    (mem.issue ins).rows = ins.exec mem.rows := by
  funext a
  rw [RowInstr.exec]
  by_cases ha : a = ins.dest
  · subst ha
    rw [Function.update_self, issue_eq]
    exact rowAt_rowOp (p := ins.payload) ins.sourcesSameOrApart fun hs heq => h hs (Subtype.ext heq)
  · rw [Function.update_of_ne ha, rows_issue_of_ne mem ha]

/-- **It simulates whole programs**, whatever rows they share. -/
theorem rows_run (mem : AbstractMemory) {prog : List RowInstr}
    (h : ∀ ins ∈ prog, ins.NotShiftInPlace) :
    (prog.foldl issue mem).rows = prog.foldl (fun σ ins => ins.exec σ) mem.rows := by
  induction prog generalizing mem with
  | nil => rfl
  | cons ins prog ih =>
    obtain ⟨hins, hprog⟩ := List.forall_mem_cons.mp h
    rw [List.foldl_cons, List.foldl_cons, ih _ hprog, rows_issue mem hins]

/-- Row 1 is complemented in place, then shifted into row 2. -/
theorem rows_run_topBit : let prog : List RowInstr := [⟨.rowNot, .ofNat 1, .ofNat 1, .ofNat 0⟩,
      ⟨.rowLs, .ofNat 2, .ofNat 1, .ofNat 0⟩]
    (prog.foldl issue topBit).rows = prog.foldl (fun σ ins => ins.exec σ) topBit.rows :=
  rows_run topBit (by simp [RowInstr.NotShiftInPlace, RowAddr.ofNat_inj])

lemma getLsbD_rows_issue (ins : RowInstr) {i : ℕ} (hi : i < 65536) :
    ((mem.issue ins).rows ins.dest).getLsbD i = rowOpBit ins.op mem.host
      (mem.hostAddr ins.dest.1) (mem.hostAddr ins.src1.1) (mem.hostAddr ins.src2.1) i := by
  rw [issue_eq, rows, getLsbD_rowAt _ _ hi, hostAddr_rowOp]
  exact (rowOp_swept ins.sourcesSameOrApart).bits i (Nat.zero_le _) hi

/-- The bit a right shift in place moves to `i`: at a word's top one too far. -/
def rsSource (i : ℕ) : ℕ := if i % 64 = 63 then i + 2 else i + 1

lemma getLsbD_issue_rowRs_self (d t : RowAddr) (i : ℕ) :
    ((mem.issue ⟨.rowRs, d, d, t⟩).rows d).getLsbD i = (mem.rows d).getLsbD (rsSource i) := by
  have hrow : 64 * rowWords = 65536 := rfl
  by_cases hi : i < 65536
  · refine (getLsbD_rows_issue mem ⟨.rowRs, d, d, t⟩ hi).trans ?_
    simp only [rowOpBit, carryTap, if_true, rsBit, rsSource, rows]
    by_cases hmod : i % 64 = 63
    · rw [if_pos hmod, if_pos hmod]
      by_cases hlt : i + 1 < 64 * rowWords
      · rw [decide_eq_true hlt, Bool.true_and, getLsbD_rowAt _ _ (by omega)]
      · have hge : 65536 ≤ i + 2 := by omega
        rw [decide_eq_false hlt, Bool.false_and, BitVec.getLsbD_of_ge _ _ hge]
    · rw [if_neg hmod, if_neg hmod, getLsbD_rowAt _ _ (by omega)]
  · have hsrc : 65536 ≤ rsSource i := by
      unfold rsSource
      split <;> omega
    rw [BitVec.getLsbD_of_ge _ _ (not_lt.mp hi), BitVec.getLsbD_of_ge _ _ hsrc]

lemma getLsbD_issue_rowLs (d s t : RowAddr) {i : ℕ} (hi : i < 64) :
    ((mem.issue ⟨.rowLs, d, s, t⟩).rows d).getLsbD i =
      (decide (i ≠ 0) && (mem.rows s).getLsbD (i - 1)) := by
  refine (getLsbD_rows_issue mem ⟨.rowLs, d, s, t⟩ (by omega)).trans ?_
  simp only [rowOpBit, lsBit, rows]
  by_cases h0 : i = 0
  · simp [h0]
  · rw [if_neg (by omega), getLsbD_rowAt _ _ (by omega), decide_eq_true h0, Bool.true_and]

end AbstractMemory

/-- The `k`-th 32-bit word of a row. -/
def lane (k : ℕ) : BitVec 32 := r.extractLsb' (32 * k) 32

lemma getLsbD_lane (k : ℕ) {i : ℕ} (hi : i < 32) :
    (lane r k).getLsbD i = r.getLsbD (32 * k + i) := by
  rw [lane, BitVec.getLsbD_extractLsb', decide_eq_true hi, Bool.true_and]

@[simp] lemma lane_and (k : ℕ) : lane (r &&& s) k = lane r k &&& lane s k := by
  refine BitVec.eq_of_getLsbD_eq fun i hi => ?_
  simp only [BitVec.getLsbD_and, getLsbD_lane _ _ hi]

@[simp] lemma lane_or (k : ℕ) : lane (r ||| s) k = lane r k ||| lane s k := by
  refine BitVec.eq_of_getLsbD_eq fun i hi => ?_
  simp only [BitVec.getLsbD_or, getLsbD_lane _ _ hi]

@[simp] lemma lane_xor (k : ℕ) : lane (r ^^^ s) k = lane r k ^^^ lane s k := by
  refine BitVec.eq_of_getLsbD_eq fun i hi => ?_
  simp only [BitVec.getLsbD_xor, getLsbD_lane _ _ hi]

/-- Shifting a row and masking the lanes' bit `0` shifts lanes. -/
lemma lane_shiftLeft_and {r m : BitVec rowBits} {k : ℕ} (hk : k < 2048)
    (hm : lane m k = ~~~1#32) : lane (r <<< 1 &&& m) k = lane r k <<< 1 := by
  refine BitVec.eq_of_getLsbD_eq fun i hi => ?_
  have hmask : (lane m k).getLsbD i = decide (i ≠ 0) := by
    rw [hm, BitVec.getLsbD_not, BitVec.getLsbD_one]
    by_cases h0 : i = 0 <;> simp [h0, hi]
  rw [lane_and, BitVec.getLsbD_and, hmask, getLsbD_lane _ _ hi, BitVec.getLsbD_shiftLeft,
    BitVec.getLsbD_shiftLeft, decide_eq_true (show 32 * k + i < rowBits by
      simp only [rowBits]; omega)]
  by_cases h0 : i = 0
  · simp [h0]
  · have h1 : ¬ i < 1 := by omega
    have h1' : ¬ 32 * k + i < 1 := by omega
    rw [getLsbD_lane _ _ (show i - 1 < 32 by omega),
      show 32 * k + i - 1 = 32 * k + (i - 1) by omega]
    simp [h0, h1, h1', hi]

namespace AbstractMemory

def store32 (mem : AbstractMemory) (a : ℕ) (v : BitVec 32) : AbstractMemory :=
  { mem with host := storeLE mem.host (mem.hostAddr a) v }

/-- `for (i = 0; i < n; i++) p[i] = v`, 32-bit words. -/
def fillWords (mem : AbstractMemory) (a : ℕ) (v : BitVec 32) : ℕ → AbstractMemory
  | 0 => mem
  | n + 1 => (fillWords mem a v n).store32 (a + 4 * n) v

lemma lane_rowAt (mem : AbstractMemory) (a : ℕ) {k : ℕ} (hk : k < 2048) :
    lane (mem.rowAt a) k = loadLE 32 mem.host (mem.hostAddr (a + 4 * k)) := by
  refine BitVec.eq_of_getLsbD_eq fun i hi => ?_
  have haddr : mem.hostAddr (a + 4 * k) = mem.hostAddr a + (4 * k : ℕ) := by
    simp only [hostAddr]
    push_cast
    ring
  rw [getLsbD_lane _ _ hi, getLsbD_rowAt _ _ (by omega), getLsbD_loadLE (by norm_num), haddr,
    bitAt_add, decide_eq_true hi, Bool.true_and]
  congr 1
  omega

variable (mem : AbstractMemory) {a b : ℕ} (f : ℕ → BitVec 32) (v : BitVec 32) {n k k' : ℕ}

lemma lane_store32 (hk : k < 2048) (hk' : k' < 2048) :
    lane ((mem.store32 (a + 4 * k) v).rowAt a) k' =
      if k' = k then v else lane (mem.rowAt a) k' := by
  rw [lane_rowAt _ _ hk', lane_rowAt _ _ hk', store32]
  by_cases h : k' = k
  · subst h
    rw [if_pos rfl]
    exact loadLE_storeLE_self (by norm_num) _ _ _
  · rw [if_neg h]
    refine loadLE_storeLE_of_apart ?_
    simp only [hostAddr]
    omega

lemma rowAt_store32_of_apart (hk : k < 2048) (hab : RowsApart b a) :
    (mem.store32 (a + 4 * k) v).rowAt b = mem.rowAt b := by
  refine loadLE_congr fun x hx1 hx2 => storeLE_of_notMem ?_
  have hx3 : x < mem.hostAddr b + 8192 := hx2
  have hx4 : mem.hostAddr b ≤ x := hx1
  simp only [RowsApart, rowSize] at hab
  simp only [hostAddr] at hx3 hx4 ⊢
  omega

/-- `for (i = 0; i < n; i++) p[i] = f(i)`, 32-bit words. -/
def storeWords (mem : AbstractMemory) (a : ℕ) (f : ℕ → BitVec 32) : ℕ → AbstractMemory
  | 0 => mem
  | n + 1 => (storeWords mem a f n).store32 (a + 4 * n) (f n)

lemma fillWords_eq : mem.fillWords a v n = mem.storeWords a (fun _ => v) n := by
  induction n with
  | zero => rfl
  | succ n ih => rw [fillWords, storeWords, ih]

lemma lane_storeWords (hn : n ≤ 2048) (hk : k < 2048) :
    lane ((mem.storeWords a f n).rowAt a) k = if k < n then f k else lane (mem.rowAt a) k := by
  induction n with
  | zero => rfl
  | succ n ih =>
    rw [storeWords, lane_store32 _ _ (by omega) hk, ih (by omega)]
    by_cases hkn : k = n
    · subst hkn
      rw [if_pos rfl, if_pos (Nat.lt_succ_self k)]
    · have hlt : k < n + 1 ↔ k < n := by omega
      rw [if_neg hkn]
      simp only [hlt]

lemma rowAt_storeWords_of_apart (hn : n ≤ 2048) (hab : RowsApart b a) :
    (mem.storeWords a f n).rowAt b = mem.rowAt b := by
  induction n with
  | zero => rfl
  | succ n ih => rw [storeWords, rowAt_store32_of_apart _ _ (by omega) hab, ih (by omega)]

lemma lane_fillWords_eq (hn : n ≤ 2048) (hk : k < 2048) :
    lane ((mem.fillWords a v n).rowAt a) k = if k < n then v else lane (mem.rowAt a) k := by
  rw [fillWords_eq, lane_storeWords mem _ hn hk]

lemma lane_fillWords (a : ℕ) (v : BitVec 32) (hn : n ≤ 2048) (hk : k < n) :
    lane ((mem.fillWords a v n).rowAt a) k = v := by
  rw [lane_fillWords_eq mem v hn (by omega), if_pos hk]

lemma rowAt_fillWords_of_apart (hn : n ≤ 2048) (hab : RowsApart b a) :
    (mem.fillWords a v n).rowAt b = mem.rowAt b := by
  rw [fillWords_eq, rowAt_storeWords_of_apart mem _ hn hab]

end AbstractMemory

end ShifDram
