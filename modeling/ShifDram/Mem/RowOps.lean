import ShifDram.Mem.RowLoopSpec

/-!
Row ops on the memory object, as functions of whole rows.

A row is `rowSize` bytes, read as one little-endian number of `rowBits` bits.
-/

namespace ShifDram

open ByteMem

lemma rowWords_eq : rowWords = 1024 := rfl

def RowsApart (a b : ℕ) : Prop := a + rowSize ≤ b ∨ b + rowSize ≤ a

instance (a b : ℕ) : Decidable (RowsApart a b) := inferInstanceAs (Decidable (_ ∨ _))

lemma rowsApart_of_dvd {a b : ℕ} (ha : rowSize ∣ a) (hb : rowSize ∣ b) (hne : a ≠ b) :
    RowsApart a b := by
  obtain ⟨i, rfl⟩ := ha
  obtain ⟨j, rfl⟩ := hb
  simp only [RowsApart, rowSize] at hne ⊢
  omega

/-- What an opcode computes from destination and source rows. -/
def RowOp.eval {w : ℕ} (op : RowOp) (d s t : BitVec w) : BitVec w :=
  match op with
  | .rowAnd => s &&& t
  | .rowOr => s ||| t
  | .rowNot => ~~~s
  | .rowXor => s ^^^ t
  | .rowAp => d
  | .rowAap => s
  | .rowLs => s <<< 1
  | .rowRs => s >>> 1

lemma RowOp.eval_of_ne_rowAp {w : ℕ} {op : RowOp} (h : op ≠ .rowAp) (d d' s t : BitVec w) :
    op.eval d s t = op.eval d' s t := by
  cases op with
  | rowAp => exact absurd rfl h
  | _ => rfl

lemma RowOp.eval_congr {w : ℕ} {op : RowOp} {s s' t t' : BitVec w} (d : BitVec w)
    (hs : op.usesSrc1 = true → s = s') (ht : op.usesSrc2 = true → t = t') :
    op.eval d s t = op.eval d s' t' := by
  cases op with
  | rowAp => rfl
  | rowNot | rowAap | rowLs | rowRs => rw [hs rfl]; rfl
  | rowAnd | rowOr | rowXor => rw [hs rfl, ht rfl]

/-! ### Rows of a memory -/

namespace AbstractMemory

/-- The row at an address as one little-endian number. -/
def rowAt (mem : AbstractMemory) (a : ℕ) : BitVec rowBits :=
  loadLE rowBits mem.host (mem.hostAddr a)

variable {mem : AbstractMemory} {p : RowOpPayload} {i : ℕ} {op : RowOp}

lemma getLsbD_rowAt (mem : AbstractMemory) (a : ℕ) (hi : i < 65536) :
    (mem.rowAt a).getLsbD i = bitAt mem.host (mem.hostAddr a) i := by
  rw [rowAt, getLsbD_loadLE (by norm_num), decide_eq_true hi, Bool.true_and]

lemma hostAddr_rowOp (a : ℕ) : (mem.rowOp p).hostAddr a = mem.hostAddr a := rfl

lemma sameOrApart_hostAddr {a b : ℕ} (h : a = b ∨ RowsApart a b) :
    SameOrApart (mem.hostAddr a) (mem.hostAddr b) rowWords := by
  simp only [SameOrApart, hostAddr, rowWords_eq]
  rcases h with rfl | h
  · exact Or.inl rfl
  · simp only [RowsApart, rowSize] at h
    omega

/-- Each source is the destination row or apart from it. -/
def SourcesSameOrApart (p : RowOpPayload) : Prop :=
  (p.op.usesSrc1 = true → p.src1 = p.dest ∨ RowsApart p.src1 p.dest) ∧
  (p.op.usesSrc2 = true → p.src2 = p.dest ∨ RowsApart p.src2 p.dest)

lemma rowOp_swept (h : SourcesSameOrApart p) :
    Swept mem.host (mem.rowOp p).host (mem.hostAddr p.dest) 0 rowWords
      (rowOpBit p.op mem.host (mem.hostAddr p.dest) (mem.hostAddr p.src1) (mem.hostAddr p.src2)) :=
  rowOpLoop_swept p.op mem.host _ _ _ (fun h1 => sameOrApart_hostAddr (h.1 h1))
    (fun h2 => sameOrApart_hostAddr (h.2 h2))

lemma byteAt_rowOp {a : ℕ} (ha : a < p.dest ∨ p.dest + rowSize ≤ a) :
    (mem.rowOp p).byteAt a = mem.byteAt a := by
  rw [byteAt, hostAddr_rowOp]
  refine rowOpLoop_frame p.op mem.host _ _ _ ?_
  simp only [hostAddr, rowWords_eq]
  simp only [rowSize] at ha
  omega

lemma rowAt_rowOp_of_apart (h : SourcesSameOrApart p) {a : ℕ} (ha : RowsApart a p.dest) :
    (mem.rowOp p).rowAt a = mem.rowAt a := by
  rw [rowAt, rowAt, hostAddr_rowOp]
  refine loadLE_congr fun x hx1 hx2 => (rowOp_swept h).frame x ?_
  have hspan : x < mem.hostAddr a + 8192 := hx2
  simp only [RowsApart, rowSize] at ha
  simp only [hostAddr, rowWords_eq] at hx1 hspan ⊢
  omega

/-- With the neighbouring bit's carry, `ROWLS` is the row's left shift. -/
lemma lsBit_one (mem : AbstractMemory) (a : ℕ) (hi : i < 65536) :
    lsBit 1 mem.host (mem.hostAddr a) i = (mem.rowAt a <<< 1).getLsbD i := by
  rw [BitVec.getLsbD_shiftLeft, lsBit, getLsbD_rowAt mem a (show i - 1 < 65536 by omega)]
  by_cases h0 : i = 0
  · simp [h0]
  · have h1 : ¬ i < 1 := by omega
    simp [h0, h1, hi]

lemma rsBit_one (mem : AbstractMemory) (a : ℕ) (hi : i < 65536) :
    rsBit 1 rowWords mem.host (mem.hostAddr a) i = (mem.rowAt a >>> 1).getLsbD i := by
  rw [BitVec.getLsbD_ushiftRight, Nat.add_comm, rsBit]
  by_cases h1 : i + 1 < 64 * rowWords
  · rw [getLsbD_rowAt mem a h1]
    simp [h1]
  · -- the last bit of the row: nothing is carried in
    have hge : 65536 ≤ i + 1 := not_lt.mp h1
    rw [BitVec.getLsbD_of_ge _ _ hge, if_pos (by omega), decide_eq_false h1, Bool.false_and]

/-- The loops' bits are the bulk operation's, for a shift apart. -/
lemma rowOpBit_eq_eval (hshift : p.op = .rowLs ∨ p.op = .rowRs → p.src1 ≠ p.dest) (hi : i < 65536) :
    rowOpBit p.op mem.host (mem.hostAddr p.dest) (mem.hostAddr p.src1) (mem.hostAddr p.src2) i =
      (p.op.eval (mem.rowAt p.dest) (mem.rowAt p.src1) (mem.rowAt p.src2)).getLsbD i := by
  have htap : p.op = .rowLs ∨ p.op = .rowRs →
      carryTap (mem.hostAddr p.src1) (mem.hostAddr p.dest) = 1 := by
    intro h
    have := hshift h
    rw [carryTap, if_neg]
    simp only [hostAddr]
    omega
  obtain ⟨op, d, s, t⟩ := p
  cases op with
  | rowLs => rw [rowOpBit, htap (Or.inl rfl), lsBit_one mem s hi, RowOp.eval]
  | rowRs => rw [rowOpBit, htap (Or.inr rfl), rsBit_one mem s hi, RowOp.eval]
  | rowNot =>
    rw [rowOpBit, RowOp.eval, BitVec.getLsbD_not, decide_eq_true hi, Bool.true_and,
      getLsbD_rowAt mem s hi]
  | _ => simp only [rowOpBit, RowOp.eval, BitVec.getLsbD_and, BitVec.getLsbD_or,
      BitVec.getLsbD_xor, getLsbD_rowAt mem _ hi]

/-- **Whole rows at once**: the bulk operation on the old rows, but for a shift in place. -/
lemma rowAt_rowOp (h : SourcesSameOrApart p)
    (hshift : p.op = .rowLs ∨ p.op = .rowRs → p.src1 ≠ p.dest) :
    (mem.rowOp p).rowAt p.dest =
      p.op.eval (mem.rowAt p.dest) (mem.rowAt p.src1) (mem.rowAt p.src2) := by
  refine BitVec.eq_of_getLsbD_eq fun i hi => ?_
  rw [getLsbD_rowAt _ _ hi, hostAddr_rowOp, (rowOp_swept h).bits i (Nat.zero_le _) hi,
    rowOpBit_eq_eval hshift hi]

/-! ### Shifts in place -/

/-- Bits that a shift in place may confuse agree: the two top bits of every word but the last, or
the two bottom bits of every word but the first. -/
def ShiftSafe (op : RowOp) (r : BitVec rowBits) : Prop :=
  match op with
  | .rowLs => ∀ k < 1023, r.getLsbD (64 * k + 62) = r.getLsbD (64 * k + 63)
  | .rowRs => ∀ k < 1023, r.getLsbD (64 * k + 65) = r.getLsbD (64 * k + 64)
  | _ => True

lemma lsBit_tap_iff (m : ByteMem) (s : ℤ) : (∀ i < 65536, lsBit 2 m s i = lsBit 1 m s i) ↔
      ∀ k < 1023, bitAt m s (64 * k + 62) = bitAt m s (64 * k + 63) := by
  constructor
  · intro h k hk
    have hbit := h (64 * (k + 1)) (by omega)
    have hmod : 64 * (k + 1) % 64 = 0 := by omega
    have h62 : 64 * (k + 1) - 2 = 64 * k + 62 := by omega
    have h63 : 64 * (k + 1) - 1 = 64 * k + 63 := by omega
    simpa [lsBit, hmod, h62, h63] using hbit
  · intro h i hi
    rw [lsBit, lsBit]
    by_cases hmod : i % 64 = 0
    · by_cases h0 : i = 0
      · simp [h0]
      · have hk := h (i / 64 - 1) (by omega)
        rw [show 64 * (i / 64 - 1) + 62 = i - 2 by omega,
          show 64 * (i / 64 - 1) + 63 = i - 1 by omega] at hk
        rw [hk]
    · rw [if_neg hmod, if_neg hmod]

lemma rsBit_tap_iff (m : ByteMem) (s : ℤ) :
    (∀ i < 65536, rsBit 2 rowWords m s i = rsBit 1 rowWords m s i) ↔
      ∀ k < 1023, bitAt m s (64 * k + 65) = bitAt m s (64 * k + 64) := by
  have hrow : 64 * rowWords = 65536 := rfl
  constructor
  · intro h k hk
    have hbit := h (64 * k + 63) (by omega)
    have hmod : (64 * k + 63) % 64 = 63 := by omega
    have hlt : 64 * k + 63 + 1 < 64 * rowWords := by omega
    simpa [rsBit, hmod, hlt] using hbit
  · intro h i hi
    rw [rsBit, rsBit]
    by_cases hmod : i % 64 = 63
    · by_cases hlt : i + 1 < 64 * rowWords
      · have hk := h (i / 64) (by omega)
        rw [show 64 * (i / 64) + 65 = i + 2 by omega,
          show 64 * (i / 64) + 64 = i + 1 by omega] at hk
        rw [hk]
      · simp [hlt]
    · rw [if_neg hmod, if_neg hmod]

/-- In place, an opcode is the bulk operation exactly if `ShiftSafe`. -/
lemma rowAt_rowOp_eq_eval_iff (h : SourcesSameOrApart p)
    (hin : p.op = .rowLs ∨ p.op = .rowRs → p.src1 = p.dest) :
    (mem.rowOp p).rowAt p.dest =
        p.op.eval (mem.rowAt p.dest) (mem.rowAt p.src1) (mem.rowAt p.src2) ↔
      ShiftSafe p.op (mem.rowAt p.dest) := by
  have hbit : ∀ i < 65536, ((mem.rowOp p).rowAt p.dest).getLsbD i = rowOpBit p.op mem.host
      (mem.hostAddr p.dest) (mem.hostAddr p.src1) (mem.hostAddr p.src2) i := by
    intro i hi
    rw [getLsbD_rowAt _ _ hi, hostAddr_rowOp, (rowOp_swept h).bits i (Nat.zero_le _) hi]
  by_cases hshift : p.op = .rowLs ∨ p.op = .rowRs
  · rw [BitVec.eq_of_getLsbD_eq_iff]
    obtain ⟨op, d, s, t⟩ := p
    obtain rfl : s = d := hin hshift
    rcases hshift with rfl | rfl
    · refine Iff.trans (forall₂_congr fun i hi => ?_)
        ((lsBit_tap_iff mem.host (mem.hostAddr s)).trans (forall₂_congr fun k hk => ?_))
      · rw [hbit i hi, RowOp.eval, ← lsBit_one mem s hi, rowOpBit, carryTap, if_pos rfl]
      · rw [getLsbD_rowAt _ _ (by omega), getLsbD_rowAt _ _ (by omega)]
    · refine Iff.trans (forall₂_congr fun i hi => ?_)
        ((rsBit_tap_iff mem.host (mem.hostAddr s)).trans (forall₂_congr fun k hk => ?_))
      · rw [hbit i hi, RowOp.eval, ← rsBit_one mem s hi, rowOpBit, carryTap, if_pos rfl]
      · rw [getLsbD_rowAt _ _ (by omega), getLsbD_rowAt _ _ (by omega)]
  · refine iff_of_true (rowAt_rowOp h fun hs => absurd hs hshift) ?_
    revert hshift
    cases p.op <;> simp [ShiftSafe]

def zipBit (op : RowOp) (a b : Bool) : Bool :=
  match op with
  | .rowOr => a || b
  | .rowXor => a ^^ b
  | _ => a && b

/-- At every bit the opcode gives the same for the source bits its loop sees, bulk results where
rewritten, as for the old ones. -/
def OverlapSafe (mem : AbstractMemory) (p : RowOpPayload) : Prop :=
  let bulk := p.op.eval (mem.rowAt p.dest) (mem.rowAt p.src1) (mem.rowAt p.src2)
  let seen (a i : ℕ) : Bool :=
    overBit mem.host (mem.hostAddr p.dest) (i / 64) bulk.getLsbD (mem.hostAddr a) i
  ∀ i < 65536, zipBit p.op (seen p.src1 i) (seen p.src2 i) = bulk.getLsbD i

lemma rowOpLoop_swept_iff (h2 : op.usesSrc2 = true) (m : ByteMem) (d s t : ℤ) (E : ℕ → Bool) :
    Swept m (rowOpLoop op m d s t) d 0 rowWords E ↔ ∀ i < 64 * rowWords,
      zipBit op (overBit m d (i / 64) E s i) (overBit m d (i / 64) E t i) = E i := by
  cases op with
  | rowAnd =>
    exact zipMem_swept_iff (f := fun a b => a &&& b) (g := and)
      (fun x y b _ => BitVec.getLsbD_and) m d s t E rowWords
  | rowOr =>
    exact zipMem_swept_iff (f := fun a b => a ||| b) (g := or)
      (fun x y b _ => BitVec.getLsbD_or) m d s t E rowWords
  | rowXor =>
    exact zipMem_swept_iff (f := fun a b => a ^^^ b) (g := xor)
      (fun x y b _ => BitVec.getLsbD_xor) m d s t E rowWords
  | _ => cases h2

/-- However rows lie, a binary opcode is the bulk operation exactly if `OverlapSafe`. -/
lemma rowAt_rowOp_eq_eval_iff_overlapSafe (h2 : p.op.usesSrc2 = true) : (mem.rowOp p).rowAt p.dest =
        p.op.eval (mem.rowAt p.dest) (mem.rowAt p.src1) (mem.rowAt p.src2) ↔
      OverlapSafe mem p := by
  refine Iff.trans ?_ (rowOpLoop_swept_iff h2 mem.host (mem.hostAddr p.dest)
    (mem.hostAddr p.src1) (mem.hostAddr p.src2) _)
  rw [rowAt, loadLE_eq_iff (by norm_num), hostAddr_rowOp]
  constructor
  · intro h
    exact ⟨fun i _ hi => h i hi, fun x hx => rowOpLoop_frame _ _ _ _ _ (by omega)⟩
  · intro h i hi
    exact h.bits i (Nat.zero_le _) hi

lemma overlapSafe_of_sameOrApart (h2 : p.op.usesSrc2 = true) (h : SourcesSameOrApart p) :
    OverlapSafe mem p :=
  (rowAt_rowOp_eq_eval_iff_overlapSafe h2).mp
    (rowAt_rowOp h fun hs => by rcases hs with hs | hs <;> rw [hs] at h2 <;> cases h2)

def InPlace (p : RowOpPayload) : Prop := p.src1 = p.dest ∨ (p.op.usesSrc2 = true ∧ p.src2 = p.dest)

/-- The row `r` is apart from the rows of `p`. -/
def ScratchRow (p : RowOpPayload) (r : ℕ) : Prop :=
  RowsApart r p.dest ∧ (p.op.usesSrc1 = true → RowsApart p.src1 r) ∧
    (p.op.usesSrc2 = true → RowsApart p.src2 r)

/-- The copy of the row `r` to the destination of `p`. -/
def copyBack (p : RowOpPayload) (r : ℕ) : RowOpPayload := ⟨.rowAap, p.dest, r, 0⟩

/-- Execution into a scratch row, copied over, is the bulk operation with that row for the
destination. -/
lemma rowAt_copyBack {r : ℕ} (hr : ScratchRow p r) :
    ((mem.rowOp { p with dest := r }).rowOp (copyBack p r)).rowAt p.dest =
      p.op.eval (mem.rowAt r) (mem.rowAt p.src1) (mem.rowAt p.src2) := by
  obtain ⟨hrd, h1, h2⟩ := hr
  have hcopy : SourcesSameOrApart (copyBack p r) := ⟨fun _ => Or.inr hrd, fun h => by cases h⟩
  have hsrc : SourcesSameOrApart { p with dest := r } :=
    ⟨fun h => Or.inr (h1 h), fun h => Or.inr (h2 h)⟩
  refine (rowAt_rowOp (p := copyBack p r) hcopy fun h => by cases h <;> contradiction).trans ?_
  refine rowAt_rowOp (p := { p with dest := r }) hsrc fun hshift heq => ?_
  have hapart := h1 (by rcases hshift with h | h <;> simp only at h <;> rw [h] <;> rfl)
  simp only [RowsApart, rowSize] at hapart heq
  omega

/-- In-place execution agrees with the scratch row `r`: `ShiftSafe`, `OverlapSafe`, or for `ROWAP`
the scratch row held the same. -/
def InPlaceSafe (mem : AbstractMemory) (p : RowOpPayload) (r : ℕ) : Prop :=
  ShiftSafe p.op (mem.rowAt p.dest) ∧ (p.op.usesSrc2 = true → OverlapSafe mem p) ∧
    (p.op = .rowAp → mem.rowAt r = mem.rowAt p.dest)

lemma shiftSafe_of_usesSrc2 (h2 : op.usesSrc2 = true) (r : BitVec rowBits) :
    ShiftSafe op r := by
  cases op with
  | rowLs | rowRs => cases h2
  | _ => trivial

lemma rowOp_inPlace_iff {r : ℕ} (hin : InPlace p) (hr : ScratchRow p r) :
    (mem.rowOp p).rowAt p.dest =
        ((mem.rowOp { p with dest := r }).rowOp (copyBack p r)).rowAt p.dest ↔
      InPlaceSafe mem p r := by
  rw [rowAt_copyBack hr, InPlaceSafe]
  by_cases h2 : p.op.usesSrc2 = true
  · have hap : p.op ≠ .rowAp := by
      intro hap
      rw [hap] at h2
      cases h2
    rw [RowOp.eval_of_ne_rowAp hap (mem.rowAt r) (mem.rowAt p.dest),
      rowAt_rowOp_eq_eval_iff_overlapSafe h2]
    simp [h2, hap, shiftSafe_of_usesSrc2 h2]
  · -- a unary opcode in place has its one source in the destination row
    have hsd : p.src1 = p.dest := hin.resolve_right fun h => h2 h.1
    have hsrc : SourcesSameOrApart p := ⟨fun _ => Or.inl hsd, fun h => absurd h h2⟩
    by_cases hap : p.op = .rowAp
    · rw [rowAt_rowOp hsrc fun hs => by rcases hs with hs | hs <;> rw [hap] at hs <;> cases hs]
      simp only [hap, RowOp.eval, ShiftSafe, true_and, true_implies]
      rw [eq_comm]
      simp [RowOp.usesSrc2]
    · rw [RowOp.eval_of_ne_rowAp hap (mem.rowAt r) (mem.rowAt p.dest),
        rowAt_rowOp_eq_eval_iff hsrc fun _ => hsd]
      simp [hap, h2]

/-! ### Through `access` -/

end AbstractMemory

/-- The packet is neither inhibited nor a clean eviction. -/
def Packet.performsRowOp (pkt : Packet) : Prop :=
  pkt.isRowOp = true ∧ pkt.memInhibit = false ∧ pkt.cmd ≠ .cleanEvict

/-- A row op's packet: an uncacheable 32-byte write of the payload at physical address `0`. -/
def Packet.ofRowOp (p : RowOpPayload) : Packet :=
  .createRowOp ((Request.virt 0 32 (Request.uncacheable ||| Request.rowop) 0).setPaddr 0) p

@[simp] lemma Packet.rowOp_ofRowOp (p : RowOpPayload) : (Packet.ofRowOp p).rowOp = p := rfl

lemma Packet.performsRowOp_createRowOp {req : Request} (h : req.isRowOp = true) (p : RowOpPayload) :
    (Packet.createRowOp req p).performsRowOp := by
  refine ⟨h, rfl, ?_⟩
  change makeWriteCmd req ≠ _
  rw [makeWriteCmd]
  split_ifs <;> decide

lemma Packet.performsRowOp_ofRowOp (p : RowOpPayload) : (Packet.ofRowOp p).performsRowOp :=
  performsRowOp_createRowOp (by decide) p

/-- Eight rows of zeros but for the first word's top bit. -/
def AbstractMemory.topBit : AbstractMemory :=
  { rangeStart := 0
    rangeEnd := 65535
    pmemAddr := 0x10000
    host := fun x => if x = 0x10007 then 0x80#8 else 0#8
    lockedAddrList := [] }

namespace AbstractMemory

variable {mem : AbstractMemory} {pkt : Packet}

lemma access_of_performsRowOp (h : pkt.performsRowOp) : mem.access pkt = some (mem.rowOp pkt.rowOp,
      if pkt.needsResponse then pkt.makeResponse else pkt) := by
  obtain ⟨hrow, hinh, hcmd⟩ := h
  simp [access, hrow, hinh, hcmd]

lemma access_of_not_performsRowOp (hrow : pkt.isRowOp = true) (h : ¬ pkt.performsRowOp) :
    mem.access pkt = some (mem, pkt) := by
  by_cases hinh : pkt.memInhibit = true
  · simp [access, hinh]
  · have hcmd : pkt.cmd = .cleanEvict := by
      by_contra hne
      exact h ⟨hrow, Bool.eq_false_of_not_eq_true hinh, hne⟩
    simp [access, hinh, hcmd]

/-- **Row ops between disjoint rows**: `access` answers every row-op packet and changes the
destination row only; when it acts, that becomes the bulk operation on the old rows. -/
theorem access_rowOp_apart (mem : AbstractMemory) (pkt : Packet) (hrow : pkt.isRowOp = true)
    (h1 : pkt.rowOp.op.usesSrc1 = true → RowsApart pkt.rowOp.src1 pkt.rowOp.dest)
    (h2 : pkt.rowOp.op.usesSrc2 = true → RowsApart pkt.rowOp.src2 pkt.rowOp.dest) :
    ∃ host' pkt', mem.access pkt = some ({ mem with host := host' }, pkt') ∧
      (pkt.memInhibit = false → pkt.cmd ≠ .cleanEvict →
        ({ mem with host := host' } : AbstractMemory).rowAt pkt.rowOp.dest =
          pkt.rowOp.op.eval (mem.rowAt pkt.rowOp.dest) (mem.rowAt pkt.rowOp.src1)
            (mem.rowAt pkt.rowOp.src2)) ∧
      ∀ x, x < mem.hostAddr pkt.rowOp.dest ∨ mem.hostAddr pkt.rowOp.dest + (rowSize : ℕ) ≤ x →
        host' x = mem.host x := by
  by_cases hperf : pkt.performsRowOp
  · have hsrc : SourcesSameOrApart pkt.rowOp := ⟨fun h => Or.inr (h1 h), fun h => Or.inr (h2 h)⟩
    refine ⟨(mem.rowOp pkt.rowOp).host, _, access_of_performsRowOp hperf, ?_, ?_⟩
    · intro _ _
      refine rowAt_rowOp hsrc fun hshift heq => ?_
      have hapart := h1 (by rcases hshift with h | h <;> rw [h] <;> rfl)
      simp only [RowsApart, rowSize] at hapart
      omega
    · intro x hx
      refine (rowOp_swept hsrc).frame x ?_
      simp only [rowSize] at hx
      simp only [rowWords_eq]
      omega
  · refine ⟨mem.host, pkt, access_of_not_performsRowOp hrow hperf, ?_, fun _ _ => rfl⟩
    exact fun hinh hcmd => absurd ⟨hrow, hinh, hcmd⟩ hperf

theorem access_rowOp_apart_topBit : ∃ host' pkt', topBit.access (.ofRowOp ⟨.rowLs, 8192, 0, 0⟩) =
        some ({ topBit with host := host' }, pkt') ∧
      (false = false → MemCmd.writeReq ≠ .cleanEvict →
        ({ topBit with host := host' } : AbstractMemory).rowAt 8192 = topBit.rowAt 0 <<< 1) ∧
      ∀ x, x < topBit.hostAddr 8192 ∨ topBit.hostAddr 8192 + (rowSize : ℕ) ≤ x →
        host' x = topBit.host x :=
  access_rowOp_apart topBit (.ofRowOp ⟨.rowLs, 8192, 0, 0⟩) (Packet.performsRowOp_ofRowOp _).1
    (fun _ => by decide) (fun h => by cases h)

def accessInPlace (mem : AbstractMemory) (pkt : Packet) : Option AbstractMemory :=
  (mem.access pkt).map Prod.fst

/-- The row op executed into row `r`, then copied over. -/
def accessThroughRow (mem : AbstractMemory) (pkt : Packet) (r : ℕ) : Option AbstractMemory := do
  let (mem₁, _) ← mem.access { pkt with rowOp := { pkt.rowOp with dest := r } }
  let (mem₂, _) ← mem₁.access { pkt with rowOp := copyBack pkt.rowOp r }
  pure mem₂

lemma accessInPlace_eq (h : pkt.performsRowOp) :
    mem.accessInPlace pkt = some (mem.rowOp pkt.rowOp) := by
  rw [accessInPlace, access_of_performsRowOp h, Option.map_some]

lemma accessThroughRow_eq (h : pkt.performsRowOp) (r : ℕ) : mem.accessThroughRow pkt r =
      some ((mem.rowOp { pkt.rowOp with dest := r }).rowOp (copyBack pkt.rowOp r)) := by
  have hscratch : Packet.performsRowOp { pkt with rowOp := { pkt.rowOp with dest := r } } := h
  have hcopy : Packet.performsRowOp { pkt with rowOp := copyBack pkt.rowOp r } := h
  simp [accessThroughRow, access_of_performsRowOp hscratch, access_of_performsRowOp hcopy]

/-- **Row ops in place** leave the same row as going through a scratch row if and only if
`InPlaceSafe` holds. -/
theorem access_inPlace_iff (mem : AbstractMemory) (pkt : Packet) (r : ℕ)
    (hperf : pkt.performsRowOp) (hin : InPlace pkt.rowOp) (hr : ScratchRow pkt.rowOp r) :
    ∃ mem₁ mem₂, mem.accessInPlace pkt = some mem₁ ∧ mem.accessThroughRow pkt r = some mem₂ ∧
      (mem₁.rowAt pkt.rowOp.dest = mem₂.rowAt pkt.rowOp.dest ↔ InPlaceSafe mem pkt.rowOp r) :=
  ⟨_, _, accessInPlace_eq hperf, accessThroughRow_eq hperf r, rowOp_inPlace_iff hin hr⟩

theorem access_inPlace_iff_and :
    ∃ mem₁ mem₂, topBit.accessInPlace (.ofRowOp ⟨.rowAnd, 0, 0, 8192⟩) = some mem₁ ∧
      topBit.accessThroughRow (.ofRowOp ⟨.rowAnd, 0, 0, 8192⟩) 16384 = some mem₂ ∧
      (mem₁.rowAt 0 = mem₂.rowAt 0 ↔ InPlaceSafe topBit ⟨.rowAnd, 0, 0, 8192⟩ 16384) :=
  access_inPlace_iff topBit (.ofRowOp ⟨.rowAnd, 0, 0, 8192⟩) 16384
    (Packet.performsRowOp_ofRowOp _) (Or.inl rfl) ⟨by decide, fun _ => by decide,
      fun _ => by decide⟩

/-- A left shift in place loses the bit across the first word boundary. -/
theorem access_inPlace_ls_ne :
    ∃ mem₁ mem₂, topBit.accessInPlace (.ofRowOp ⟨.rowLs, 0, 0, 0⟩) = some mem₁ ∧
      topBit.accessThroughRow (.ofRowOp ⟨.rowLs, 0, 0, 0⟩) 8192 = some mem₂ ∧
      mem₁.rowAt 0 ≠ mem₂.rowAt 0 := by
  have hperf := Packet.performsRowOp_ofRowOp ⟨.rowLs, 0, 0, 0⟩
  refine ⟨_, _, accessInPlace_eq hperf, accessThroughRow_eq hperf 8192, fun heq => ?_⟩
  have hsafe := (rowOp_inPlace_iff (p := ⟨.rowLs, 0, 0, 0⟩) (Or.inl rfl)
    ⟨by decide, fun _ => by decide, fun h => by cases h⟩).mp heq
  have hbits := hsafe.1 0 (by norm_num)
  rw [getLsbD_rowAt _ _ (by norm_num), getLsbD_rowAt _ _ (by norm_num)] at hbits
  exact absurd hbits (by decide)

end AbstractMemory

end ShifDram
