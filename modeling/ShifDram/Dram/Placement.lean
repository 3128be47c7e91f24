import ShifDram.Cpu.WriteMem
import ShifDram.Dram.Queues

/-!
Where the operand rows of a row op lie (`microworkloads/mimdram.h`, `DRAMCtrl::decodeAddr`,
`DRAMCtrl::addToWriteQueue`).

The kernels align their rows on virtual addresses, at the same offset of a vector; rank and bank
are decoded from physical ones. The controller keeps the rank and bank of the dest row and only
the row numbers of the sources.
-/

namespace ShifDram

open Fallible

def bankCount : ℕ := 16

def rankCount : ℕ := 2

def rowsPerVector : ℕ := bankCount * rankCount

def alignment : ℕ := rowSize * rowsPerVector

/-- The operands lie at one offset of a vector, as the kernels allocate. -/
def RowOpPayload.Aligned (v : RowOpPayload) : Prop :=
  ∀ i ∈ v.op.partList, v.operand i % alignment = v.dest % alignment

/-- One channel, not interleaved, with row buffers that hold a burst, as the kernels assume. -/
structure DRAMParams.HoldsVectors (p : DRAMParams) : Prop where
  rowBufferSize : p.rowBufferSize = rowSize
  banksPerRank : p.banksPerRank = bankCount
  ranksPerChannel : p.ranksPerChannel = rankCount
  channels : p.channels = 1
  granularity : p.granularity = none
  burstSize : p.burstSize ≤ p.rowBufferSize

/-- Bytes in one bank before the addresses go on to the next. -/
def DRAMParams.bankStripe (p : DRAMParams) : ℕ :=
  match p.addrMapping with
  | .roRaBaChCo | .roRaBaCoCh => p.rowBufferSize
  | .roCoRaBaCh => p.burstSize

namespace DRAMCtrl

variable {p : DRAMParams} {s s' : DRAMCtrl} {n : ℕ} {d : DRAMPacket} {pkt : Packet} {pt : PageTable}

lemma columns_mul_burst (hp : p.HoldsVectors) (a : ℕ) :
    a / p.burstSize / p.columnsPerRowBuffer = a / p.rowBufferSize := by
  have hdvd : p.burstSize ∣ p.rowBufferSize := by
    have hle := hp.burstSize
    rw [hp.rowBufferSize, DRAMParams.burstSize] at hle ⊢
    exact pow_dvd_pow 2 ((Nat.pow_le_pow_iff_right Nat.one_lt_two).mp hle : p.burstBits ≤ 13)
  rw [Nat.div_div_eq_div_mul, DRAMParams.columnsPerRowBuffer, Nat.mul_div_cancel' hdvd]

/-- **Rank and bank** are digits of the stripe's number. -/
lemma decode_eq (hp : p.HoldsVectors) (a : ℕ) :
    (decode p a).1 = a / p.bankStripe / bankCount % rankCount ∧
      (decode p a).2.1 = a / p.bankStripe % bankCount := by
  have hstripe : p.columnsPerStripe = 1 := by rw [DRAMParams.columnsPerStripe, hp.granularity]
  cases hmap : p.addrMapping with
  | roRaBaChCo | roRaBaCoCh | roCoRaBaCh =>
    simp only [decode, DRAMParams.bankStripe, hmap, hstripe, hp.channels, Nat.div_one,
      columns_mul_burst hp, hp.banksPerRank, hp.ranksPerChannel, and_self]

/-- An address decodes to the packet's bank. -/
def InBankOf (p : DRAMParams) (d : DRAMPacket) (a : ℕ) : Prop :=
  (decode p a).1 = d.rank ∧ (decode p a).2.1 = d.bank

lemma decode_eq_decode_iff (hp : p.HoldsVectors) (a b : ℕ) :
    ((decode p a).1 = (decode p b).1 ∧ (decode p a).2.1 = (decode p b).2.1) ↔
      a / p.bankStripe % rowsPerVector = b / p.bankStripe % rowsPerVector := by
  rw [(decode_eq hp a).1, (decode_eq hp a).2, (decode_eq hp b).1, (decode_eq hp b).2]
  simp only [rowsPerVector, bankCount, rankCount]
  omega

lemma decodeAddr_bank (hp : p.HoldsVectors) {a size : ℕ} {isRead : Bool}
    (h : s.decodeAddr p n a size isRead = .ok d) : InBankOf p d a := by
  obtain ⟨hrank, hbank⟩ := decode_eq hp a
  rw [decodeAddr] at h
  dsimp only at h
  split_ifs at h
  cases h
  simp only [InBankOf, hrank, hbank, bankCount, rankCount]
  omega

lemma addToWriteQueue_rowOp (hp : p.HoldsVectors) (hrow : pkt.isRowOp = true) {pktCount : ℕ}
    (h : s.addToWriteQueue p n pkt pktCount = .ok s') :
    ∃ d, s'.writeQueue = s.writeQueue ++ [d] ∧ d.rowOp = some pkt.rowOp.op ∧
      InBankOf p d pkt.rowOp.dest := by
  rw [addToWriteQueue] at h
  split_ifs at h
  obtain ⟨s₁, hadd, h⟩ := bind_ok h
  obtain ⟨s₂, hrespond, hkick⟩ := bind_ok h
  obtain ⟨d, hd, hadd⟩ := bind_ok hadd
  obtain ⟨d₁, -, hadd⟩ := bind_ok hadd
  obtain ⟨d₂, -, rfl⟩ := map_ok hadd
  obtain ⟨chan, mem, rfl, -⟩ := accessAndRespond_ok hrespond
  obtain ⟨chan', rfl, -⟩ := kick_ok hkick
  have hbank : InBankOf p d pkt.rowOp.dest := decodeAddr_bank hp hd
  exact ⟨_, rfl, rfl, hbank⟩

/-- The operands are in stripes a multiple of a vector's rows apart. -/
def SameStripes (p : DRAMParams) (pt : PageTable) (v : RowOpPayload) : Prop :=
  ∀ i ∈ v.op.partList, ∀ a ∈ pt.translate (v.operand i), ∀ b ∈ pt.translate v.dest,
    a / p.bankStripe % rowsPerVector = b / p.bankStripe % rowsPerVector

lemma sameStripes_of_le {v : RowOpPayload} (haligned : v.Aligned)
    (hdvd : p.bankStripe * rowsPerVector ∣ 4096) : SameStripes p pt v := by
  intro i hi a ha b hb
  have hoffset : a % 4096 = b % 4096 := by
    have hvirtual := congrArg (· % 4096) (haligned i hi)
    simp only [Nat.mod_mod_of_dvd _ (show 4096 ∣ alignment by decide)] at hvirtual
    rw [PageTable.translate_mod ha, PageTable.translate_mod hb, hvirtual]
  rw [← Nat.mod_mul_right_div_self, ← Nat.mod_mul_right_div_self, ← Nat.mod_mod_of_dvd a hdvd,
    ← Nat.mod_mod_of_dvd b hdvd, hoffset]

/-- **Where the sources lie.** The packet that a row op adds has its sources in the rank and bank
of the dest exactly if the operands are in stripes a multiple of a vector's rows apart. Rows at one
offset of a vector are not enough, unless a stripe is a burst and a page holds a vector of bursts.
-/
theorem addToWriteQueue_sameBank_iff (hp : p.HoldsVectors) {pt : PageTable} {v : RowOpPayload}
    (hmaps : pt.MapsOperands v) (haligned : v.Aligned) (hrow : pkt.isRowOp = true)
    (hpkt : pkt.rowOp = v.physical pt) {pktCount : ℕ}
    (h : s.addToWriteQueue p n pkt pktCount = .ok s') :
    ∃ d, s'.writeQueue = s.writeQueue ++ [d] ∧ d.rowOp = some v.op ∧
      ((∀ i ∈ v.op.partList, InBankOf p d ((v.physical pt).operand i)) ↔ SameStripes p pt v) ∧
      (p.addrMapping = .roCoRaBaCh → p.burstSize ≤ 128 → SameStripes p pt v) := by
  obtain ⟨d, hqueue, hop, hdest⟩ := addToWriteQueue_rowOp hp hrow h
  rw [hpkt] at hop hdest
  refine ⟨d, hqueue, hop, ?_, fun hmap hburst => sameStripes_of_le haligned ?_⟩
  · have hzero : (0 : Fin 3) ∈ v.op.partList := by simp [RowOp.partList]
    have hdest' : pt.translate v.dest = some (v.physical pt).dest := hmaps.translate_operand hzero
    refine forall₂_congr fun i hi => ?_
    rw [hmaps.translate_operand hi, hdest']
    simp only [Option.mem_some_iff, forall_eq']
    rw [InBankOf, ← hdest.1, ← hdest.2]
    exact decode_eq_decode_iff hp _ _
  · have hbits : p.burstBits ≤ 7 := (Nat.pow_le_pow_iff_right Nat.one_lt_two).mp hburst
    rw [DRAMParams.bankStripe, hmap]
    change 2 ^ p.burstBits * 2 ^ 5 ∣ 2 ^ 12
    rw [← pow_add]
    exact pow_dvd_pow 2 (by omega)

/-- `DDR3_1600_x64` with the banks the kernels count on. -/
def ddr3Vectors : DRAMParams :=
  { DRAMParams.ddr3_1600_x64 .frfcfs with banksPerRank := 16, groups := by decide }

lemma holdsVectors_ddr3Vectors : ddr3Vectors.HoldsVectors := ⟨rfl, rfl, rfl, rfl, rfl, by decide⟩

/-- A row takes the complement of one at the same offset of the next vector. -/
def notNextVector : RowOpPayload := ⟨.rowNot, 0, alignment, 0⟩

lemma aligned_notNextVector : notNextVector.Aligned := by
  rw [RowOpPayload.Aligned]
  decide

def notNextVectorPkt (pt : PageTable) : Packet :=
  .createRowOp ((Request.virt 0 32 (Request.uncacheable ||| Request.rowop) 0).setPaddr 0)
    (notNextVector.physical pt)

def beforeNot (pt : PageTable) : DRAMCtrl :=
  { init ddr3Vectors 0 ⟨0, 2 ^ 33 - 1, 0, fun _ => 0#8, []⟩ with
    arrivals := [⟨notNextVectorPkt pt, 0⟩] }

lemma exists_addToWriteQueue (pt : PageTable)
    (h : ((beforeNot pt).addToWriteQueue ddr3Vectors 0 (notNextVectorPkt pt) 1).toBool = true) :
    ∃ s', (beforeNot pt).addToWriteQueue ddr3Vectors 0 (notNextVectorPkt pt) 1 = .ok s' := by
  cases hres : (beforeNot pt).addToWriteQueue ddr3Vectors 0 (notNextVectorPkt pt) 1 with
  | ok s' => exact ⟨s', rfl⟩
  | error e =>
    rw [hres] at h
    cases h

/-- Mapping pages 16 frames up keeps the stripes' distance. -/
theorem sameBank_upSixteen : ∃ s' d, (beforeNot .upSixteen).addToWriteQueue ddr3Vectors 0
        (notNextVectorPkt .upSixteen) 1 = .ok s' ∧ s'.writeQueue = [d] ∧
      InBankOf ddr3Vectors d ((notNextVector.physical .upSixteen).src1) := by
  obtain ⟨s', hs'⟩ := exists_addToWriteQueue .upSixteen (by decide +kernel)
  have hmaps : PageTable.upSixteen.MapsOperands notNextVector := fun _ _ => rfl
  obtain ⟨d, hqueue, -, hiff, -⟩ := addToWriteQueue_sameBank_iff holdsVectors_ddr3Vectors
    (v := notNextVector) hmaps aligned_notNextVector rfl rfl hs'
  refine ⟨s', d, hs', hqueue, hiff.mpr (fun i hi a ha b hb => ?_) 1 (by decide)⟩
  rw [PageTable.translate_upSixteen, Option.mem_some_iff] at ha hb
  subst ha hb
  have hi' : i = 0 ∨ i = 1 := by simpa [notNextVector, RowOp.partList, RowOp.usesSrc1,
    RowOp.usesSrc2] using hi
  rcases hi' with rfl | rfl <;> decide

/-- From the second vector on, pages lie a row further up. -/
def skewed : PageTable := .ofFrames fun n => some (if n < 64 then n else n + 2)

/-- **The source is in another bank**, at the same offset of a vector. -/
theorem otherBank_skewed : notNextVector.Aligned ∧ skewed.MapsOperands notNextVector ∧
      ∃ s' d, (beforeNot skewed).addToWriteQueue ddr3Vectors 0
        (notNextVectorPkt skewed) 1 = .ok s' ∧
        s'.writeQueue = [d] ∧ d.isRowOp = true ∧
        ¬ InBankOf ddr3Vectors d ((notNextVector.physical skewed).src1) := by
  refine ⟨aligned_notNextVector, fun _ _ => rfl, ?_⟩
  obtain ⟨s', hs'⟩ := exists_addToWriteQueue skewed (by decide +kernel)
  obtain ⟨d, hqueue, hop, hrank, hbank⟩ := addToWriteQueue_rowOp holdsVectors_ddr3Vectors rfl hs'
  refine ⟨s', d, hs', hqueue, by rw [DRAMPacket.isRowOp, hop]; rfl, fun hin => ?_⟩
  have heq := hin.2.trans hbank.symm
  revert heq
  decide

end DRAMCtrl

end ShifDram
