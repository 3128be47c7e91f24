import ShifDram.Mem.Request

/-!
Memory commands and packets (`mem/packet.hh`, `mem/packet.cc`).

The attribute tests are the columns of the table `MemCmd::commandInfo`, each written out as the
set of commands with the attribute.
-/

namespace ShifDram

inductive MemCmd where
  | invalidCmd
  | readReq | readResp | readRespWithInvalidate
  | writeReq | writeResp
  | writeback | cleanEvict
  | softPFReq | hardPFReq | softPFResp | hardPFResp
  | writeLineReq
  | upgradeReq | scUpgradeReq | upgradeResp | scUpgradeFailReq | upgradeFailResp
  | readExReq | readExResp | readCleanReq | readSharedReq
  | loadLockedReq | storeCondReq | storeCondFailReq | storeCondResp
  | swapReq | swapResp
  | messageReq | messageResp
  | releaseReq | releaseResp | acquireReq | acquireResp
  | invalidDestError | badAddressError | functionalReadError | functionalWriteError
  | printReq | flushReq | invalidateReq | invalidateResp
  deriving DecidableEq, Repr

namespace MemCmd

def isRead : MemCmd → Bool
  | readReq | readResp | readRespWithInvalidate | softPFReq | hardPFReq | softPFResp
  | hardPFResp | scUpgradeFailReq | upgradeFailResp | readExReq | readExResp | readCleanReq
  | readSharedReq | loadLockedReq | swapReq | swapResp | functionalReadError => true
  | _ => false

def isWrite : MemCmd → Bool
  | writeReq | writeResp | writeback | cleanEvict | writeLineReq | storeCondReq
  | storeCondFailReq | storeCondResp | swapReq | swapResp | messageReq | messageResp
  | functionalWriteError => true
  | _ => false

def isInvalidate : MemCmd → Bool
  | readRespWithInvalidate | upgradeReq | scUpgradeReq | scUpgradeFailReq | readExReq
  | invalidateReq | invalidateResp => true
  | _ => false

def needsExclusive : MemCmd → Bool
  | writeReq | writeResp | writeback | writeLineReq | upgradeReq | scUpgradeReq | upgradeResp
  | scUpgradeFailReq | upgradeFailResp | readExReq | readExResp | storeCondReq
  | storeCondFailReq | storeCondResp | swapReq | swapResp | flushReq | invalidateReq
  | invalidateResp => true
  | _ => false

def isUpgrade : MemCmd → Bool
  | upgradeReq | scUpgradeReq | upgradeResp => true
  | _ => false

def isSWPrefetch : MemCmd → Bool
  | softPFReq | softPFResp => true
  | _ => false

def isLLSC : MemCmd → Bool
  | scUpgradeReq | scUpgradeFailReq | loadLockedReq | storeCondReq | storeCondFailReq
  | storeCondResp => true
  | _ => false

def isResponse : MemCmd → Bool
  | readResp | readRespWithInvalidate | writeResp | softPFResp | hardPFResp | upgradeResp
  | upgradeFailResp | readExResp | storeCondResp | swapResp | messageResp | releaseResp
  | acquireResp | invalidDestError | badAddressError | functionalReadError
  | functionalWriteError | invalidateResp => true
  | _ => false

def needsResponse : MemCmd → Bool
  | readReq | writeReq | softPFReq | hardPFReq | writeLineReq | upgradeReq | scUpgradeReq
  | scUpgradeFailReq | readExReq | readCleanReq | readSharedReq | loadLockedReq
  | storeCondReq | storeCondFailReq | swapReq | messageReq | releaseReq | acquireReq
  | acquireResp | invalidateReq => true
  | _ => false

def responseCommand : MemCmd → MemCmd
  | readReq | readCleanReq | readSharedReq | loadLockedReq => readResp
  | writeReq | writeLineReq => writeResp
  | softPFReq => softPFResp
  | hardPFReq => hardPFResp
  | upgradeReq | scUpgradeReq => upgradeResp
  | scUpgradeFailReq => upgradeFailResp
  | readExReq => readExResp
  | storeCondReq | storeCondFailReq => storeCondResp
  | swapReq => swapResp
  | messageReq => messageResp
  | releaseReq => releaseResp
  | acquireReq => acquireResp
  | invalidateReq => invalidateResp
  | _ => invalidCmd

end MemCmd

/-- `Packet`, its data also as a row-op payload, with flags `MEM_INHIBIT`, `SHARED`,
`EXPRESS_SNOOP`, `SUPPLY_EXCLUSIVE`. -/
structure Packet where
  cmd : MemCmd
  req : Request
  addr : ℕ
  size : ℕ
  memInhibit : Bool
  data : List (BitVec 8)
  rowOp : RowOpPayload
  shared : Bool := false
  expressSnoop : Bool := false
  supplyExclusive : Bool := false
  deriving DecidableEq, Repr

namespace Packet

variable (pkt : Packet)

def isRead (pkt : Packet) : Bool := pkt.cmd.isRead
def isWrite (pkt : Packet) : Bool := pkt.cmd.isWrite
def isInvalidate (pkt : Packet) : Bool := pkt.cmd.isInvalidate
def isLLSC (pkt : Packet) : Bool := pkt.cmd.isLLSC
def needsResponse (pkt : Packet) : Bool := pkt.cmd.needsResponse
def isResponse (pkt : Packet) : Bool := pkt.cmd.isResponse
def isRowOp (pkt : Packet) : Bool := pkt.req.isRowOp
def isSecure (pkt : Packet) : Bool := pkt.req.isSecure
def needsExclusive (pkt : Packet) : Bool := pkt.cmd.needsExclusive
def isUpgrade (pkt : Packet) : Bool := pkt.cmd.isUpgrade

/-- `evictingBlock`: a clean or dirty eviction. -/
def evictingBlock : Bool := pkt.cmd == .writeback || pkt.cmd == .cleanEvict

def mustCheckAbove : Bool := pkt.cmd == .hardPFReq || pkt.evictingBlock

/-- `makeResponse`: a request becomes its response in place. -/
def makeResponse : Packet := { pkt with cmd := pkt.cmd.responseCommand }

def makeWriteCmd (req : Request) : MemCmd :=
  if req.isLLSC then .storeCondReq else if req.isSwap then .swapReq else .writeReq

/-- `createWrite` for a row op, whose data is the payload. -/
def createRowOp (req : Request) (p : RowOpPayload) : Packet :=
  { cmd := makeWriteCmd req, req := req, addr := req.paddr.getD 0, size := req.size,
    memInhibit := false, data := p.bytes, rowOp := p }

end Packet

end ShifDram
