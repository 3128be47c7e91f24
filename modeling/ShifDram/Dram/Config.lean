import Mathlib.Tactic

/-!
The parameters of the DRAM controller (`mem/dram_ctrl.hh`, `mem/DRAMCtrl.py`).

`DRAMParams` is a configuration that the constructor and `init` accept; the constants they derive
are definitions. Times are in picoseconds.
-/

namespace ShifDram

variable (p : DRAMParams)

inductive MemSched where
  | fcfs | frfcfs
  deriving DecidableEq, Repr

inductive AddrMap where
  | roRaBaChCo | roRaBaCoCh | roCoRaBaCh
  deriving DecidableEq, Repr

inductive PageManage where
  | openPage | openAdaptive | closePage | closeAdaptive
  deriving DecidableEq, Repr

/-- `a - b` on unsigned 64-bit ticks. -/
def tickSub (a b : ℕ) : ℕ := if b ≤ a then a - b else 2 ^ 64 + a - b

lemma tickSub_of_le {a b : ℕ} (h : b ≤ a) : tickSub a b = a - b := if_pos h

structure Timing where
  tWTR : ℕ
  tRTW : ℕ
  tCS : ℕ
  tBURST : ℕ
  tCCD_L : ℕ
  tRCD : ℕ
  tCL : ℕ
  tRP : ℕ
  tRAS : ℕ
  tWR : ℕ
  tRTP : ℕ
  tRFC : ℕ
  tREFI : ℕ
  tRRD : ℕ
  tRRD_L : ℕ
  tXAW : ℕ
  tWL : ℕ
  tWLOV : ℕ
  activationLimit : ℕ
  deriving DecidableEq, Repr

def Timing.ddr3_1600 : Timing where
  tWTR := 7500
  tRTW := 2500
  tCS := 2500
  tBURST := 5000
  tCCD_L := 0
  tRCD := 13750
  tCL := 13750
  tRP := 13750
  tRAS := 35000
  tWR := 15000
  tRTP := 7500
  tRFC := 260000
  tREFI := 7800000
  tRRD := 6000
  tRRD_L := 0
  tXAW := 30000
  tWL := 32000
  tWLOV := 4000
  activationLimit := 4

def Timing.ddr3_2133 : Timing :=
  { ddr3_1600 with
    tBURST := 3752
    tRCD := 13090
    tCL := 13090
    tRP := 13090
    tRAS := 33000
    tRRD := 5000
    tXAW := 25000 }

def Timing.ddr4_2400 : Timing where
  tWTR := 5000
  tRTW := 1666
  tCS := 1666
  tBURST := 3333
  tCCD_L := 5000
  tRCD := 14160
  tCL := 14160
  tRP := 14160
  tRAS := 32000
  tWR := 15000
  tRTP := 7500
  tRFC := 350000
  tREFI := 7800000
  tRRD := 3300
  tRRD_L := 4900
  tXAW := 50000
  tWL := 32000
  tWLOV := 4000
  activationLimit := 4

/-- A controller's configuration, with the checks of the constructor and `init` as fields. -/
structure DRAMParams extends Timing where
  burstBits : ℕ
  rankBits : ℕ
  rowBufferSize : ℕ
  /-- `range.granularity()`, when the range is interleaved. -/
  granularity : Option ℕ
  bankGroupsPerRank : ℕ
  banksPerRank : ℕ
  channels : ℕ
  /-- `ceilLog2` of the size of the memory. -/
  capacityBits : ℕ
  cacheLineSize : ℕ
  readBufferSize : ℕ
  writeBufferSize : ℕ
  writeHighThreshPerc : ℕ
  writeLowThreshPerc : ℕ
  minWritesPerSwitch : ℕ
  memSchedPolicy : MemSched
  addrMapping : AddrMap
  pageMgmt : PageManage
  maxAccessesPerRow : ℕ
  frontendLatency : ℕ
  backendLatency : ℕ
  thresholds : writeLowThreshPerc < writeHighThreshPerc
  refi : tRP < tREFI ∧ tRFC < tREFI
  groups : 0 < bankGroupsPerRank →
    bankGroupsPerRank ≤ banksPerRank ∧ banksPerRank % bankGroupsPerRank = 0
  ccd : 0 < bankGroupsPerRank → tBURST < tCCD_L
  rrd : 0 < bankGroupsPerRank → tRRD ≤ tRRD_L
  stripes : ∀ g ∈ granularity,
    if addrMapping = .roRaBaChCo then rowBufferSize = g
    else 2 ^ burstBits ≤ g ∧ cacheLineSize ≤ g ∧ g ≤ rowBufferSize

namespace DRAMParams

def burstSize : ℕ := 2 ^ p.burstBits

def ranksPerChannel : ℕ := 2 ^ p.rankBits

def columnsPerRowBuffer : ℕ := p.rowBufferSize / p.burstSize

def columnsPerStripe : ℕ :=
  match p.granularity with
  | some g => g / p.burstSize
  | none => 1

/-- `capacity`: the memory's size rounded up to a power of two. -/
def capacity : ℕ := 2 ^ p.capacityBits

/-- `rowsPerBank`, with unsigned 32-bit product and result. -/
def rowsPerBank : ℕ :=
  p.capacity / (p.rowBufferSize * p.banksPerRank * p.ranksPerChannel % 2 ^ 32) % 2 ^ 32

def writeHighThreshold : ℕ := p.writeBufferSize * p.writeHighThreshPerc / 100

def writeLowThreshold : ℕ := p.writeBufferSize * p.writeLowThreshPerc / 100

def bankGroupArch : Bool := 0 < p.bankGroupsPerRank

def bankgr (b : ℕ) : ℕ := if p.bankGroupArch then b % p.bankGroupsPerRank else b

/-- `bankGroupArch && (bank_ref.bankgr == banks[i].bankgr)`. -/
def sameGroup (b i : ℕ) : Bool := p.bankGroupArch && p.bankgr b == p.bankgr i

def actDelay (b i : ℕ) : ℕ := if p.sameGroup b i then p.tRRD_L else p.tRRD

/-- The delay of a column command to bank `i`, of the same rank or another. -/
def colDelay (sameRank : Bool) (b i : ℕ) : ℕ :=
  if sameRank then if p.sameGroup b i then p.tCCD_L else p.tBURST else p.tBURST + p.tCS

/-- `DDR3_1600_x64` with `DRAMCtrl`'s defaults, on a memory of the devices' size. -/
def ddr3_1600_x64 (memSchedPolicy : MemSched) : DRAMParams :=
  { Timing.ddr3_1600 with
    burstBits := 6
    rankBits := 1
    rowBufferSize := 8192
    granularity := none
    bankGroupsPerRank := 0
    banksPerRank := 8
    channels := 1
    capacityBits := 33
    cacheLineSize := 64
    readBufferSize := 32
    writeBufferSize := 64
    writeHighThreshPerc := 85
    writeLowThreshPerc := 50
    minWritesPerSwitch := 16
    memSchedPolicy := memSchedPolicy
    addrMapping := .roRaBaCoCh
    pageMgmt := .openAdaptive
    maxAccessesPerRow := 16
    frontendLatency := 10000
    backendLatency := 10000
    thresholds := by decide
    refi := by decide
    groups := by decide
    ccd := by decide
    rrd := by decide
    stripes := fun g hg => by cases hg }

/-- A bank has fewer than `2 ^ 32 - 1` rows, so none is special. -/
lemma rowsPerBank_lt : p.rowsPerBank < 2 ^ 32 - 1 := by
  rw [rowsPerBank, capacity]
  generalize hm : p.rowBufferSize * p.banksPerRank * p.ranksPerChannel % 2 ^ 32 = m
  generalize hq : 2 ^ p.capacityBits / m = q
  by_contra hge
  -- the quotient would be one less than a multiple of `2 ^ 32`
  obtain ⟨t, ht⟩ : 2 ^ 32 ∣ q + 1 := Nat.dvd_of_mod_eq_zero (by omega)
  have hpos : 0 < m := by
    by_contra hzero
    rw [Nat.eq_zero_of_not_pos hzero, Nat.div_zero] at hq
    omega
  have hlow : m * q ≤ 2 ^ p.capacityBits := hq ▸ Nat.mul_div_le _ _
  have hhigh : 2 ^ p.capacityBits < m * (q + 1) := hq ▸ Nat.lt_mul_div_succ _ hpos
  have hprod : m * (q + 1) = 2 ^ 32 * (m * t) := by rw [ht]; ring
  rcases lt_or_ge p.capacityBits 32 with hbits | hbits
  · have hsmall : 2 ^ p.capacityBits < 2 ^ 32 - 1 :=
      (Nat.pow_le_pow_right two_pos (Nat.le_sub_one_of_lt hbits)).trans_lt (by norm_num)
    have hqle : q ≤ m * q := Nat.le_mul_of_pos_left q hpos
    omega
  · obtain ⟨k, hk⟩ := Nat.exists_eq_add_of_le hbits
    rw [hk, pow_add] at hlow hhigh
    have hmul : m * (q + 1) = m * q + m := Nat.mul_succ m q
    omega

lemma burstSize_pos : 0 < p.burstSize := Nat.two_pow_pos _

lemma ranksPerChannel_pos : 0 < p.ranksPerChannel := Nat.two_pow_pos _

/-- `burstAlign`: `addr & ~(burstSize - 1)`. -/
def burstAlign (addr : ℕ) : ℕ := addr / p.burstSize * p.burstSize

/-- `(addr | (burstSize - 1)) + 1`, the next burst's start. -/
def nextBurst (addr : ℕ) : ℕ := (addr / p.burstSize + 1) * p.burstSize

/-- `tRP + tRCD + tCL`, to prepare a bank. -/
def prepTime : ℕ := p.tRP + p.tRCD + p.tCL

lemma tBURST_le_colDelay (sameRank : Bool) (b i : ℕ) : p.tBURST ≤ p.colDelay sameRank b i := by
  rw [colDelay]
  split_ifs with hrank hgroup
  · refine (p.ccd ?_).le
    simp only [sameGroup, bankGroupArch, Bool.and_eq_true, decide_eq_true_eq] at hgroup
    exact hgroup.1
  · exact le_rfl
  · omega

lemma tRRD_le_actDelay (b i : ℕ) : p.tRRD ≤ p.actDelay b i := by
  rw [actDelay]
  split_ifs with hgroup
  · refine p.rrd ?_
    simp only [sameGroup, bankGroupArch, Bool.and_eq_true, decide_eq_true_eq] at hgroup
    exact hgroup.1
  · exact le_rfl

end DRAMParams

end ShifDram
