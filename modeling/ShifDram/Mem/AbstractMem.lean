import ShifDram.Bits.Sweep
import ShifDram.Mem.Packet

/-!
The backing store of a memory controller (`mem/abstract_mem.hh`,
`mem/abstract_mem.cc`).
-/

namespace ShifDram

open ByteMem

variable (s : RowLoop) (mem : AbstractMemory) (pkt : Packet)

/-- Locals of the row-op loops: host memory, three `uint64_t` pointers, the carry. -/
structure RowLoop where
  mem : ByteMem
  dest : ℤ
  src1 : ℤ
  src2 : ℤ
  shiftLast : BitVec 64

namespace RowLoop

/-- `*dest++ = f(*src1++, *src2++)`. -/
def zipStep (f : BitVec 64 → BitVec 64 → BitVec 64) (s : RowLoop) : RowLoop :=
  { s with
    mem := storeLE s.mem s.dest (f (loadLE 64 s.mem s.src1) (loadLE 64 s.mem s.src2))
    dest := s.dest + 8
    src1 := s.src1 + 8
    src2 := s.src2 + 8 }

/-- `*dest++ = f(*src1++)`. -/
def mapStep (f : BitVec 64 → BitVec 64) (s : RowLoop) : RowLoop :=
  { s with
    mem := storeLE s.mem s.dest (f (loadLE 64 s.mem s.src1))
    dest := s.dest + 8
    src1 := s.src1 + 8 }

/-- The body of the `ROWLS` loop; the next carry is read from `*src1` after the write of `*dest`. -/
def lsStep : RowLoop :=
  let m₁ := storeLE s.mem s.dest (loadLE 64 s.mem s.src1 <<< 1)
  let m₂ := storeLE m₁ s.dest ((loadLE 64 m₁ s.dest &&& 0xFFFFFFFFFFFFFFFE#64) ||| s.shiftLast)
  { s with
    mem := m₂
    dest := s.dest + 8
    src1 := s.src1 + 8
    shiftLast := if loadLE 64 m₂ s.src1 >>> 63 ≠ 0#64 then 1#64 else 0#64 }

/-- The first loop of `ROWRS` walks both pointers past the row. -/
def skipStep : RowLoop := { s with dest := s.dest + 8, src1 := s.src1 + 8 }

/-- The second `ROWRS` loop's body, from the last word down. -/
def rsStep : RowLoop :=
  let dest := s.dest - 8
  let src1 := s.src1 - 8
  let m₁ := storeLE s.mem dest (loadLE 64 s.mem src1 >>> 1)
  let m₂ := storeLE m₁ dest ((loadLE 64 m₁ dest &&& 0x7FFFFFFFFFFFFFFF#64) ||| (s.shiftLast <<< 63))
  { s with
    mem := m₂
    dest := dest
    src1 := src1
    shiftLast := if loadLE 64 m₂ src1 &&& 1#64 ≠ 0#64 then 1#64 else 0#64 }

end RowLoop

/-- Iterations of `for (int i = 0; i < ROW_SIZE; i += sizeof(uint64_t))`. -/
def rowWords : ℕ := rowSize / 8

/-- `switch (addrs->op)` of `AbstractMemory::access`, on host pointers. -/
def rowOpLoop (op : RowOp) (m : ByteMem) (dest src1 src2 : ℤ) : ByteMem :=
  let s : RowLoop := ⟨m, dest, src1, src2, 0#64⟩
  match op with
  | .rowAnd => ((RowLoop.zipStep fun a b => a &&& b)^[rowWords] s).mem
  | .rowOr => ((RowLoop.zipStep fun a b => a ||| b)^[rowWords] s).mem
  | .rowNot => ((RowLoop.mapStep fun a => ~~~a)^[rowWords] s).mem
  | .rowXor => ((RowLoop.zipStep fun a b => a ^^^ b)^[rowWords] s).mem
  | .rowAp => s.mem  -- `TODO implement` in the source
  | .rowAap => ((RowLoop.mapStep fun a => a)^[rowWords] s).mem
  | .rowLs => (RowLoop.lsStep^[rowWords] s).mem
  | .rowRs => (RowLoop.rsStep^[rowWords] (RowLoop.skipStep^[rowWords] s)).mem

/-- `LockedAddr`: a context's reservation of a 16-byte granule. -/
structure LockedAddr where
  addr : ℕ
  contextId : ℕ
  deriving DecidableEq, Repr

/-- `LockedAddr::mask`, `paddr & ~0xf`. -/
def LockedAddr.mask (paddr : ℕ) : ℕ := paddr / 16 * 16

/-- `AbstractMemory`: its range, host pointer `pmemAddr` (`0`: none), host memory, reservations. -/
structure AbstractMemory where
  rangeStart : ℕ
  rangeEnd : ℕ
  pmemAddr : ℤ
  host : ByteMem
  lockedAddrList : List LockedAddr

namespace AbstractMemory

/-- `pmemAddr + addr - range.start()`. -/
def hostAddr (a : ℕ) : ℤ := mem.pmemAddr + a - mem.rangeStart

def byteAt (a : ℕ) : BitVec 8 := mem.host (mem.hostAddr a)

/-- The packet's physical address, `req->getPaddr()`. -/
def lockAddr : ℕ := LockedAddr.mask (pkt.req.paddr.getD 0)

/-- `trackLoadLocked`: each context has one reservation. -/
def trackLoadLocked : AbstractMemory :=
  let paddr := lockAddr pkt
  if mem.lockedAddrList.any fun l => l.contextId == pkt.req.contextId then
    -- the first matching record is updated in place
    let hit := mem.lockedAddrList.findIdx fun l => l.contextId == pkt.req.contextId
    { mem with lockedAddrList := mem.lockedAddrList.modify hit fun l => { l with addr := paddr } }
  else
    { mem with lockedAddrList := ⟨paddr, pkt.req.contextId⟩ :: mem.lockedAddrList }

/-- `checkLockedAddrList`: if the store goes ahead, and the reservations left. -/
def checkLockedAddrList : Bool × AbstractMemory × Packet :=
  let paddr := lockAddr pkt
  let allowStore := !pkt.isLLSC || mem.lockedAddrList.any fun l =>
    l.addr == paddr && l.contextId == pkt.req.contextId
  let pkt' := if pkt.isLLSC then
      { pkt with req := { pkt.req with extraData := if allowStore then 1 else 0 } } else pkt
  let list' := if allowStore then mem.lockedAddrList.filter fun l => l.addr != paddr
    else mem.lockedAddrList
  (allowStore, { mem with lockedAddrList := list' }, pkt')

def writeOK : Bool × AbstractMemory × Packet :=
  if mem.lockedAddrList.isEmpty then
    let pkt' := if pkt.isLLSC then { pkt with req := { pkt.req with extraData := 0 } } else pkt
    (!pkt.isLLSC, mem, pkt')
  else checkLockedAddrList mem pkt

/-- `memcpy(hostAddr, data, size)`. -/
def copyIn (m : ByteMem) (a : ℤ) (data : List (BitVec 8)) : ByteMem := fun x =>
  if a ≤ x then data.getD (x - a).toNat (m x) else m x

/-- `memcpy(data, hostAddr, size)`. -/
def copyOut (m : ByteMem) (a : ℤ) (size : ℕ) : List (BitVec 8) :=
  (List.range size).map fun i => m (a + (i : ℕ))

/-- The `size` little-endian bytes of a swap's compare value. -/
def condBytes (size v : ℕ) : List (BitVec 8) :=
  (List.range size).map fun i => BitVec.ofNat 8 (v / 256 ^ i)

/-- `access` of a row op: the opcode's loop on host pointers. -/
def rowOp (p : RowOpPayload) : AbstractMemory :=
  { mem with
    host := rowOpLoop p.op mem.host (mem.hostAddr p.dest) (mem.hostAddr p.src1)
      (mem.hostAddr p.src2) }

def access : Option (AbstractMemory × Packet) :=
  let respond (p : Packet) : Packet := if p.needsResponse then p.makeResponse else p
  if pkt.memInhibit then some (mem, pkt)
  else if pkt.cmd = .cleanEvict then some (mem, pkt)
  else if pkt.isRowOp then some (mem.rowOp pkt.rowOp, respond pkt)
  else if ¬ (mem.rangeStart ≤ pkt.addr ∧ pkt.addr + (pkt.size - 1) ≤ mem.rangeEnd) then none
  else
    let a := mem.hostAddr pkt.addr
    if pkt.cmd = .swapReq then
      if mem.pmemAddr = 0 then none
      else
        let old := copyOut mem.host a pkt.size
        if pkt.req.isCondSwap ∧ pkt.size ≠ 8 ∧ pkt.size ≠ 4 then none
        else
          let overwrite := !pkt.req.isCondSwap || old == condBytes pkt.size pkt.req.extraData
          let host' := if overwrite then copyIn mem.host a pkt.data else mem.host
          some ({ mem with host := host' }, respond { pkt with data := old })
    else if pkt.isRead then
      let mem' := if pkt.isLLSC then trackLoadLocked mem pkt else mem
      let pkt' := if mem.pmemAddr = 0 then pkt
        else { pkt with data := copyOut mem.host a pkt.size }
      some (mem', respond pkt')
    else if pkt.isInvalidate then some (mem, respond pkt)
    else if pkt.isWrite then
      let r := writeOK mem pkt
      let mem' := if r.1 ∧ mem.pmemAddr ≠ 0 then
          { r.2.1 with host := copyIn mem.host a pkt.data } else r.2.1
      some (mem', respond r.2.2)
    else none

end AbstractMemory

end ShifDram
