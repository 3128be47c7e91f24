import Mathlib.Tactic

/-!
Memory requests and the row-op payload (`mem/request.hh`).

A row op is an ordinary 32-byte store whose data is a `RowOpPayload`: the opcode and the addresses
of up to three rows of `rowSize` bytes. Addresses (`Addr` in the source) are natural numbers.
-/

namespace ShifDram

variable (r : Request) (p : RowOpPayload)

def rowSize : ℕ := 8192

abbrev rowBits : ℕ := 65536

/-- The row opcodes, in the order of `Request::RowOp`. -/
inductive RowOp where
  | rowAnd | rowOr | rowNot | rowXor | rowAp | rowAap | rowLs | rowRs
  deriving DecidableEq, Repr

namespace RowOp

def usesSrc1 : RowOp → Bool
  | rowAp => false
  | _ => true

def usesSrc2 : RowOp → Bool
  | rowNot | rowAp | rowAap | rowLs | rowRs => false
  | rowAnd | rowOr | rowXor => true

end RowOp

structure RowOpPayload where
  op : RowOp
  dest : ℕ
  src1 : ℕ
  src2 : ℕ
  deriving DecidableEq, Repr

def RowOp.code : RowOp → ℕ
  | rowAnd => 0
  | rowOr => 1
  | rowNot => 2
  | rowXor => 3
  | rowAp => 4
  | rowAap => 5
  | rowLs => 6
  | rowRs => 7

/-- A byte of the payload: four little-endian words. -/
def RowOpPayload.byte (k : ℕ) : BitVec 8 :=
  let word := if k < 8 then p.op.code else if k < 16 then p.dest
    else if k < 24 then p.src1 else p.src2
  BitVec.ofNat 8 (word / 256 ^ (k % 8))

def RowOpPayload.bytes : List (BitVec 8) := (List.range 32).map p.byte

/-- `a / ROW_SIZE * ROW_SIZE`. -/
def rowAlign (a : ℕ) : ℕ := a / rowSize * rowSize

lemma rowAlign_of_dvd {a : ℕ} (h : rowSize ∣ a) : rowAlign a = a := Nat.div_mul_cancel h

lemma rowAlign_dvd (a : ℕ) : rowSize ∣ rowAlign a := Nat.dvd_mul_left _ _

/-- The payload with its addresses rounded down to rows. -/
def RowOpPayload.align : RowOpPayload :=
  { p with dest := rowAlign p.dest, src1 := rowAlign p.src1, src2 := rowAlign p.src2 }

/-- The flag words that the modelled code tests. -/
structure Request where
  vaddr : ℕ
  /-- `_paddr` together with its `VALID_PADDR` bit. -/
  paddr : Option ℕ
  size : ℕ
  flags : BitVec 32
  contextId : ℕ
  extraData : ℕ
  deriving DecidableEq, Repr

namespace Request

def uncacheable : BitVec 32 := 0x00000400#32
def strictOrder : BitVec 32 := 0x00000800#32
def mmappedIpr : BitVec 32 := 0x00002000#32
def cacheBlockZero : BitVec 32 := 0x00010000#32
def genericIpr : BitVec 32 := 0x08000000#32
def llsc : BitVec 32 := 0x00200000#32
def memSwap : BitVec 32 := 0x00400000#32
def memSwapCond : BitVec 32 := 0x00800000#32
def prefetch : BitVec 32 := 0x01000000#32
def secure : BitVec 32 := 0x10000000#32
def rowop : BitVec 32 := 0x40000000#32

/-- `Flags::isSet`: some bit of `f` is set. -/
def isSet (f : BitVec 32) : Bool := r.flags &&& f != 0#32

def isUncacheable : Bool := r.isSet uncacheable
def isStrictlyOrdered : Bool := r.isSet strictOrder
def isMmappedIpr : Bool := r.isSet mmappedIpr
def isCacheBlockZero : Bool := r.isSet cacheBlockZero
def isLLSC : Bool := r.isSet llsc
def isSwap : Bool := r.isSet (memSwap ||| memSwapCond)
def isCondSwap : Bool := r.isSet memSwapCond
def isPrefetch : Bool := r.isSet prefetch
def isSecure : Bool := r.isSet secure
def isRowOp : Bool := r.isSet rowop

/-- `setPaddr`: record the result of a translation. -/
def setPaddr (paddr : ℕ) : Request := { r with paddr := some paddr }

/-- `setFlags` ORs flags in; it never clears one. -/
def setFlags (f : BitVec 32) : Request := { r with flags := r.flags ||| f }

lemma isSet_setFlags (g f : BitVec 32) :
    (r.setFlags g).isSet f = (r.isSet f || g &&& f != 0#32) := by
  rw [isSet, isSet, setFlags, Bool.eq_iff_iff, Bool.or_eq_true, bne_iff_ne, bne_iff_ne, bne_iff_ne,
    BitVec.and_or_distrib_right, ne_eq, BitVec.or_eq_zero_iff, not_and_or]

/-- A virtual request, not yet translated. -/
def virt (vaddr : ℕ) (size : ℕ) (flags : BitVec 32) (contextId : ℕ) : Request :=
  ⟨vaddr, none, size, flags, contextId, 0⟩

/-- `splitOnVaddr`: two requests, the second from `split_addr` on. -/
def splitOnVaddr (splitAddr : ℕ) : Request × Request :=
  let low := splitAddr - r.vaddr
  ({ r with size := low }, { r with vaddr := splitAddr, size := r.size - low })

/-- `splitRowOp`: a copy for each operand the opcode has. -/
def splitRowOp : Request × Option Request × Option Request :=
  ({ r with vaddr := p.dest }, if p.op = .rowAp then none else some { r with vaddr := p.src1 },
    if p.op = .rowNot ∨ p.op = .rowAp ∨ p.op = .rowAap ∨ p.op = .rowLs ∨ p.op = .rowRs then none
    else some { r with vaddr := p.src2 })

lemma splitRowOp_eq : r.splitRowOp p = ({ r with vaddr := p.dest },
        if p.op.usesSrc1 then some { r with vaddr := p.src1 } else none,
        if p.op.usesSrc2 then some { r with vaddr := p.src2 } else none) := by
  obtain ⟨op, d, a, b⟩ := p
  cases op <;> rfl

end Request

end ShifDram
