import ShifDram.Cpu.WriteMem
import ShifDram.Mem.RowOps

/-!
A row op as the program sees it: its effect on virtual memory.

The CPU translates one address for each operand, and the memory works on `rowSize` consecutive
physical bytes, two or more pages.
-/

namespace ShifDram

open ByteMem AbstractMemory List Option

namespace PageTable

variable {pt : PageTable} {mem : AbstractMemory}

/-- The byte at a virtual address, in its own page. -/
def vbyte (pt : PageTable) (mem : AbstractMemory) (v : ℕ) : Option (BitVec 8) :=
  (pt.address v).map mem.byteAt

/-- The virtual row at `v` as one little-endian number. -/
def vrow (pt : PageTable) (mem : AbstractMemory) (v : ℕ) : BitVec rowBits :=
  loadLE rowBits (fun x => (pt.vbyte mem x.toNat).getD 0#8) v

/-- The two pages of the row at `v` are in consecutive frames from `a` on. -/
def Contiguous (pt : PageTable) (v a : ℕ) : Prop :=
  pt.address v = some a ∧ pt.address (v + 4096) = some (a + 4096)

/-- No address outside the row at `v` is mapped into the physical row at `a`. -/
def NoAlias (pt : PageTable) (v a : ℕ) : Prop :=
  ∀ u b, u < v ∨ v + rowSize ≤ u → pt.address u = some b → b < a ∨ a + rowSize ≤ b

lemma Contiguous.address_add {v a i : ℕ} (h : pt.Contiguous v a) (hv : rowSize ∣ v)
    (hi : i < rowSize) : pt.address (v + i) = some (a + i) := by
  obtain ⟨q, rfl⟩ := hv
  simp only [rowSize] at h hi ⊢
  by_cases hlow : i < 4096
  · exact PageTable.address_add (by omega) h.1
  · have hadd := PageTable.address_add (i := i - 4096) (by omega) h.2
    rw [show 8192 * q + 4096 + (i - 4096) = 8192 * q + i by omega,
      show a + 4096 + (i - 4096) = a + i by omega] at hadd
    exact hadd

lemma vrow_eq_rowAt {v a : ℕ} (h : pt.Contiguous v a) (hv : rowSize ∣ v) :
    pt.vrow mem v = mem.rowAt a := by
  refine congrArg (BitVec.ofNat rowBits) (leNat_congr fun j hj => ?_)
  have hcast : ((v : ℤ) + (j : ℕ)).toNat = v + j := by omega
  have hhost : mem.hostAddr a + (j : ℕ) = mem.hostAddr (a + j) := by
    simp only [hostAddr]
    push_cast
    ring
  rw [hcast, vbyte, h.address_add hv hj, hhost]
  rfl

lemma rowsApart_of_noAlias {v a d b : ℕ} (hd : pt.NoAlias d b) (h : pt.Contiguous v a)
    (hv : rowSize ∣ v) (hdv : rowSize ∣ d) (hne : v ≠ d) : RowsApart a b := by
  have hapart := rowsApart_of_dvd hv hdv hne
  have hout : ∀ i < rowSize, a + i < b ∨ b + rowSize ≤ a + i := by
    intro i hi
    refine hd (v + i) (a + i) ?_ (h.address_add hv hi)
    simp only [RowsApart, rowSize] at hapart hi ⊢
    omega
  -- rows of one size overlap only if one of the two ends of the first is in the second
  have h0 := hout 0 (by norm_num [rowSize])
  have hlast := hout 8191 (by norm_num [rowSize])
  simp only [RowsApart, rowSize] at h0 hlast ⊢
  omega

end PageTable

def rowByte (r : BitVec rowBits) (i : ℕ) : BitVec 8 := r.extractLsb' (8 * i) 8

lemma rowByte_rowAt (mem : AbstractMemory) (a : ℕ) {i : ℕ} (hi : i < rowSize) :
    rowByte (mem.rowAt a) i = mem.byteAt (a + i) := by
  have hhost : mem.hostAddr (a + i) = mem.hostAddr a + (i : ℕ) := by
    simp only [hostAddr]
    push_cast
    ring
  simp only [rowSize] at hi
  refine BitVec.eq_of_getLsbD_eq fun j hj => ?_
  have hdiv : (8 * i + j) / 8 = i := by omega
  have hmod : (8 * i + j) % 8 = j := by omega
  rw [rowByte, BitVec.getLsbD_extractLsb', decide_eq_true hj, Bool.true_and,
    getLsbD_rowAt _ _ (by omega), bitAt, hdiv, hmod, byteAt, hhost]

/-- A row op from its registers to memory: `immediate` are the parts answered at once, `order` is
the order of the others. `none`: a fault, or an operand in the window makes the store a pseudo
instruction (`handleIprWrite`). -/
def executeInst (pt : PageTable) (mem : AbstractMemory) (op : RowOp) (rdi rsi rdx : ℕ)
    (immediate : Fin 3 → Bool) (order : List (Fin 3)) : Option AbstractMemory := do
  let raw := BaseDynInst.rowOpData op rdi rsi rdx
  let s ← BaseDynInst.executeRowOp pt immediate raw order 0 1 (BaseDynInst.fresh fun _ => raw)
  let (req, payload) ← s.written
  if req.isMmappedIpr then none
  else
    let (mem', _) ← mem.access (.createRowOp req payload)
    pure mem'

section

variable {pt : PageTable} {mem : AbstractMemory} {op : RowOp} {rdi rsi rdx : ℕ}
  {immediate : Fin 3 → Bool}

lemma executeInst_eq (himm : ∀ i ∈ op.partList, immediate i = true)
    (h : pt.AdmitsOperands (BaseDynInst.rowOpData op rdi rsi rdx).align)
    (hout : ∀ i ∈ op.partList,
      ∀ a ∈ pt.address ((BaseDynInst.rowOpData op rdi rsi rdx).align.operand i), ¬ m5opWindow a)
    (order : List (Fin 3)) : executeInst pt mem op rdi rsi rdx immediate order =
      some (mem.rowOp ((BaseDynInst.rowOpData op rdi rsi rdx).align.physical pt)) := by
  set raw := BaseDynInst.rowOpData op rdi rsi rdx with hraw
  obtain ⟨s, req, heq, hdone, hw, hrow, hipr⟩ :=
    BaseDynInst.initiateAcc_of_immediate (fun _ => raw) 0 h himm
  have hexec : BaseDynInst.executeRowOp pt immediate raw order 0 1
      (BaseDynInst.fresh fun _ => raw) = some s := by
    rw [BaseDynInst.executeRowOp, heq, bind_some, hdone]
    simp
  have hmem : req.isMmappedIpr = false := by
    by_contra hset
    obtain ⟨i, hi, a, ha, hwindow⟩ := hipr (Bool.of_not_eq_false hset)
    exact hout i hi a ha hwindow
  have hacc : mem.access (Packet.createRowOp _ _) = _ := access_of_performsRowOp
    (Packet.performsRowOp_createRowOp hrow (raw.align.physical pt))
  simp only [executeInst, ← hraw, hexec, hw, hmem, hacc, Option.bind_eq_bind, bind_some]
  rfl

end

/-- The rows of the operands are contiguous from `phys` on, writable and outside the window, and no
other page is mapped to the frames of the destination row. -/
structure PageTable.MapsRows (pt : PageTable) (raw : RowOpPayload) (phys : Fin 3 → ℕ) : Prop where
  contiguous : ∀ i ∈ raw.op.partList, pt.Contiguous (rowAlign (raw.operand i)) (phys i)
  admits : ∀ i ∈ raw.op.partList, pt.Admits (rowAlign (raw.operand i))
  outside : ∀ i ∈ raw.op.partList, ¬ m5opWindow (phys i)
  noAlias : pt.NoAlias (rowAlign raw.dest) (phys 0)

namespace PageTable.MapsRows

variable {pt : PageTable} {mem : AbstractMemory} {raw : RowOpPayload} {phys : Fin 3 → ℕ} {i : Fin 3}

section

variable (h : pt.MapsRows raw phys)

include h

lemma address_align (hi : i ∈ raw.op.partList) :
    pt.address (raw.align.operand i) = some (phys i) := by
  rw [RowOpPayload.operand_align]
  exact (h.contiguous i hi).1

lemma admitsOperands : pt.AdmitsOperands raw.align := by
  intro i hi
  rw [PageTable.answers, fault_answer_eq_none_iff, RowOpPayload.operand_align]
  exact h.admits i hi

lemma operand_physical (hi : i ∈ raw.op.partList) : (raw.align.physical pt).operand i = phys i := by
  have htr := h.admitsOperands.mapsOperands.translate_operand hi
  rw [PageTable.translate, h.address_align hi, map_some, finalizePhysical,
    if_neg (h.outside i hi), some.injEq] at htr
  exact htr.symm

lemma eq_or_rowsApart (hi : i ∈ raw.op.partList) :
    rowAlign (raw.operand i) = rowAlign raw.dest ∧ phys i = phys 0 ∨
      rowAlign (raw.operand i) ≠ rowAlign raw.dest ∧ RowsApart (phys i) (phys 0) := by
  by_cases heq : rowAlign (raw.operand i) = rowAlign raw.dest
  · refine Or.inl ⟨heq, ?_⟩
    have hd := (h.contiguous 0 mem_cons_self).1
    have hi := (h.contiguous i hi).1
    rw [heq] at hi
    exact some.inj (hi.symm.trans hd)
  · exact Or.inr ⟨heq, rowsApart_of_noAlias h.noAlias (h.contiguous i hi) (rowAlign_dvd _)
      (rowAlign_dvd _) heq⟩

lemma sourcesSameOrApart : SourcesSameOrApart (raw.align.physical pt) := by
  have hd := h.operand_physical (i := 0) mem_cons_self
  have hsource : ∀ i ∈ raw.op.partList, (raw.align.physical pt).operand i =
      (raw.align.physical pt).dest ∨
      RowsApart ((raw.align.physical pt).operand i) (raw.align.physical pt).dest := by
    intro i hi
    rw [h.operand_physical hi, show (raw.align.physical pt).dest = phys 0 from hd]
    exact (h.eq_or_rowsApart hi).imp And.right And.right
  exact ⟨fun hu => hsource 1 (RowOp.mem_partList_one.mpr hu),
    fun hu => hsource 2 (RowOp.mem_partList_two.mpr hu)⟩

lemma eval_vrow : raw.op.eval (pt.vrow mem (rowAlign raw.dest)) (pt.vrow mem (rowAlign raw.src1))
        (pt.vrow mem (rowAlign raw.src2)) =
      raw.op.eval (mem.rowAt (raw.align.physical pt).dest)
        (mem.rowAt (raw.align.physical pt).src1) (mem.rowAt (raw.align.physical pt).src2) := by
  have hrow : ∀ i ∈ raw.op.partList, pt.vrow mem (rowAlign (raw.operand i)) =
      mem.rowAt ((raw.align.physical pt).operand i) := fun i hi => by
    rw [vrow_eq_rowAt (h.contiguous i hi) (rowAlign_dvd _), h.operand_physical hi]
  rw [show pt.vrow mem (rowAlign raw.dest) = _ from hrow 0 mem_cons_self]
  exact RowOp.eval_congr _ (fun hu => hrow 1 (RowOp.mem_partList_one.mpr hu))
    fun hu => hrow 2 (RowOp.mem_partList_two.mpr hu)

end

end PageTable.MapsRows

/-- **A row op on virtual memory**: with immediate answers, rows that `MapsRows`, and no shift in
place, the virtual destination row becomes the bulk operation on the virtual rows and every other
virtual byte stays. -/
theorem executeInst_virtual (pt : PageTable) (mem : AbstractMemory) (op : RowOp)
    (rdi rsi rdx : ℕ) (immediate : Fin 3 → Bool) (order : List (Fin 3)) (phys : Fin 3 → ℕ)
    (himm : ∀ i ∈ op.partList, immediate i = true)
    (h : pt.MapsRows (BaseDynInst.rowOpData op rdi rsi rdx) phys)
    (hshift : op = .rowLs ∨ op = .rowRs → rowAlign rsi ≠ rowAlign rdi) :
    ∃ mem', executeInst pt mem op rdi rsi rdx immediate order = some mem' ∧
      (∀ i < rowSize, pt.vbyte mem' (rowAlign rdi + i) = some (rowByte
        (op.eval (pt.vrow mem (rowAlign rdi)) (pt.vrow mem (rowAlign rsi))
          (pt.vrow mem (rowAlign rdx))) i)) ∧
      ∀ v, v < rowAlign rdi ∨ rowAlign rdi + rowSize ≤ v → pt.vbyte mem' v = pt.vbyte mem v := by
  set raw := BaseDynInst.rowOpData op rdi rsi rdx with hraw
  set q := raw.align.physical pt with hq
  have hqd : q.dest = phys 0 := h.operand_physical (i := 0) mem_cons_self
  have hd : pt.Contiguous (rowAlign rdi) q.dest := by
    rw [hqd]
    exact h.contiguous 0 mem_cons_self
  have houtside : ∀ i ∈ op.partList, ∀ a ∈ pt.address (raw.align.operand i), ¬ m5opWindow a := by
    intro i hi a ha
    rw [h.address_align hi, mem_some_iff] at ha
    exact ha ▸ h.outside i hi
  refine ⟨mem.rowOp q, executeInst_eq himm h.admitsOperands houtside order, ?_, ?_⟩
  · intro i hi
    have hne : q.op = .rowLs ∨ q.op = .rowRs → q.src1 ≠ q.dest := by
      intro hs heq
      have hu : op.usesSrc1 = true := by rcases hs with hs | hs <;> rw [show op = _ from hs] <;> rfl
      have hmem : (1 : Fin 3) ∈ raw.op.partList := RowOp.mem_partList_one.mpr hu
      rcases h.eq_or_rowsApart hmem with ⟨hsame, -⟩ | ⟨-, hapart⟩
      · refine hshift hs ?_
        rwa [show raw.operand 1 = rsi from if_pos hu] at hsame
      · rw [← h.operand_physical hmem, ← hqd,
          show (raw.align.physical pt).operand 1 = q.src1 from rfl,
          heq] at hapart
        simp only [RowsApart, rowSize] at hapart
        omega
    have heval : op.eval (pt.vrow mem (rowAlign rdi)) (pt.vrow mem (rowAlign rsi))
        (pt.vrow mem (rowAlign rdx)) = _ :=
      (RowOp.eval_congr _ (fun hu => by rw [hraw, BaseDynInst.rowOpData, if_pos hu])
        fun hu => by rw [hraw, BaseDynInst.rowOpData, if_pos hu]).trans h.eval_vrow
    rw [PageTable.vbyte, hd.address_add (rowAlign_dvd _) hi, map_some,
      ← rowByte_rowAt _ _ hi, rowAt_rowOp h.sourcesSameOrApart hne, heval]
    rfl
  · intro v hv
    rw [PageTable.vbyte, PageTable.vbyte]
    cases htr : pt.address v with
    | none => rfl
    | some b =>
      refine congrArg some (byteAt_rowOp ?_)
      rw [hqd]
      exact h.noAlias v b hv htr

lemma PageTable.mapsRows_upSixteen {raw : RowOpPayload}
    (hout : ∀ i ∈ raw.op.partList, ¬ m5opWindow (rowAlign (raw.operand i) + 0x10000)) :
    PageTable.upSixteen.MapsRows raw fun i => rowAlign (raw.operand i) + 0x10000 where
  contiguous i _ := ⟨address_upSixteen _,
    (address_upSixteen _).trans (congrArg some (Nat.add_right_comm _ _ _))⟩
  admits i _ := ⟨_, rfl, rfl, rfl⟩
  outside := hout
  noAlias u b hu hb := by
    rw [address_upSixteen, some.injEq] at hb
    simp only [RowOpPayload.operand, rowSize] at hu ⊢
    omega

theorem executeInst_virtual_upSixteen :
    ∃ mem', executeInst .upSixteen topBit .rowLs 0x4000 0x6000 0 (fun i => i != 2) [] = some mem' ∧
      (∀ i < rowSize, PageTable.upSixteen.vbyte mem' (rowAlign 0x4000 + i) = some (rowByte
        (RowOp.rowLs.eval (PageTable.upSixteen.vrow topBit (rowAlign 0x4000))
          (PageTable.upSixteen.vrow topBit (rowAlign 0x6000))
          (PageTable.upSixteen.vrow topBit (rowAlign 0))) i)) ∧
      ∀ v, v < rowAlign 0x4000 ∨ rowAlign 0x4000 + rowSize ≤ v →
        PageTable.upSixteen.vbyte mem' v = PageTable.upSixteen.vbyte topBit v :=
  executeInst_virtual .upSixteen topBit .rowLs 0x4000 0x6000 0 (fun i => i != 2) [] _ (by decide)
    (PageTable.mapsRows_upSixteen (by decide)) fun _ => by decide

/-- A row at `0`, one that is not contiguous at `0x2000`, and an alias of the first page at
`0x5000`. -/
def PageTable.scattered : PageTable := .ofFrames fun
  | 0 => some 0
  | 1 => some 1
  | 2 => some 10
  | 3 => some 20
  | 5 => some 0
  | _ => none

/-- Zeros but for the first bytes of frames 10 and 20. -/
def twoBytes : AbstractMemory :=
  { rangeStart := 0
    rangeEnd := 0xFFFFF
    pmemAddr := 0x100000
    host := fun x => if x = 0x10A000 ∨ x = 0x114000 then 0xFF#8 else 0#8
    lockedAddrList := [] }

/-- Copying a scattered row takes its second half from the wrong frame and changes a byte outside.
-/
theorem executeInst_scattered :
    ∃ mem', executeInst .scattered twoBytes .rowAap 0 0x2000 0 (fun _ => true) [] = some mem' ∧
      PageTable.scattered.vbyte twoBytes (0x2000 + 0x1000) = some 0xFF#8 ∧
      PageTable.scattered.vbyte mem' (0 + 0x1000) = some 0#8 ∧
      PageTable.scattered.vbyte twoBytes 0x5000 = some 0#8 ∧
      PageTable.scattered.vbyte mem' 0x5000 = some 0xFF#8 := by
  have hmap : PageTable.scattered.AdmitsOperands
      (BaseDynInst.rowOpData .rowAap 0 0x2000 0).align := by
    simp only [PageTable.AdmitsOperands]
    decide
  have hout : ∀ i ∈ RowOp.rowAap.partList, ∀ a ∈ PageTable.scattered.address
      ((BaseDynInst.rowOpData .rowAap 0 0x2000 0).align.operand i), ¬ m5opWindow a := by decide
  -- the copy, byte by byte in physical memory
  have hbyte : ∀ i < rowSize, (twoBytes.rowOp ⟨.rowAap, 0, 0xA000, 0⟩).byteAt (0 + i) =
      twoBytes.byteAt (0xA000 + i) := by
    intro i hi
    rw [← rowByte_rowAt _ _ hi, ← rowByte_rowAt _ _ hi]
    exact congrArg (rowByte · i) (rowAt_rowOp (p := ⟨.rowAap, 0, 0xA000, 0⟩)
      ⟨fun _ => Or.inr (by decide), fun h => by cases h⟩
        fun h => by rcases h with h | h <;> cases h)
  refine ⟨_, executeInst_eq (fun _ _ => rfl) hmap hout [], by decide, ?_, by decide, ?_⟩
  · exact congrArg some ((hbyte 0x1000 (by norm_num [rowSize])).trans (by decide))
  · exact congrArg some ((hbyte 0 (by norm_num [rowSize])).trans (by decide))

end ShifDram
