import ShifDram.Lsq.Execute

/-!
How the stores leave the queue (`writebackStores`, `recvRetry` and the store part of
`completeDataAccess` in `cpu/o3/lsq_unit_impl.hh`).

A store that may write back is sent in one packet, or in two if it is split. A packet that the
cache refuses is kept in `retryPkt` until the cache asks for it; the second packet of a split
store may also wait for a port in `pendingPkt`. The store is completed when all its packets are
answered.

`LSQPort` is the unit with its side of the cache port. Sender states are found by the sequence
number of their store; `inFlight` has the packets taken and not answered. The answers of the cache
and of a store conditional's lock check are arguments. Three logs record a run: the packets made,
the packets taken, and the stores passed. Data prefetches, which `writebackStores` skips, are not
modelled.
-/

namespace ShifDram

/-- A store's packet: the only or first one, or the second. -/
structure StorePkt where
  seqNum : ℕ
  idx : ℕ
  second : Bool
  deriving DecidableEq, Repr

/-- `LSQSenderState` of a store. -/
structure LSQSenderState where
  idx : ℕ
  outstanding : ℕ
  pktToSend : Bool
  pendingPacket : Option StorePkt
  deriving DecidableEq, Repr

/-- `LSQUnit` with its side of the data port. -/
structure LSQPort extends LSQUnit where
  hasUnalignedMemAcc : Bool
  cachePorts : ℕ
  isStoreBlocked : Bool
  retryPkt : Option StorePkt
  hasPendingPkt : Bool
  pendingPkt : Option StorePkt
  senderStates : ℕ → Option LSQSenderState
  inFlight : List StorePkt
  created : List StorePkt
  /-- All packets that the cache has taken so far. -/
  accepted : List StorePkt
  /-- All stores that `storePostSend` has run for. -/
  posted : List ℕ

/-- The lock check's answer, and the cache's to the packets. -/
structure StoreAnswer where
  success : Bool
  first : Bool
  second : Bool

inductive PortAssert where
  | retryPkt
  | pendingPkt
  | pendingPacket
  | senderState
  | store
  deriving DecidableEq, Repr

def SQEntry.firstReq (e : SQEntry) (req : Request) (split : Bool) : Request :=
  if split then e.sreqLow.getD req else req

namespace LSQPort

variable (x : LSQPort) (seqNum : ℕ) (split : Bool) (pkt : StorePkt)

/-- A new unit; `pendingPkt` holds whatever its memory held. -/
def init (maxLQEntries maxSQEntries depCheckShift cachePorts : ℕ)
    (checkLoads needsTSO hasUnalignedMemAcc : Bool) (pendingPkt : Option StorePkt) : LSQPort where
  toLSQUnit := .init maxLQEntries maxSQEntries depCheckShift checkLoads needsTSO
  hasUnalignedMemAcc := hasUnalignedMemAcc
  cachePorts := cachePorts
  isStoreBlocked := false
  retryPkt := none
  hasPendingPkt := false
  pendingPkt := pendingPkt
  senderStates := fun _ => none
  inFlight := []
  created := []
  accepted := []
  posted := []

def setUnit (s : LSQUnit) : LSQPort := { x with toLSQUnit := s }

def accept : LSQPort := { x with inFlight := x.inFlight ++ [pkt], accepted := x.accepted ++ [pkt] }

def refuse : LSQPort := { x with isStoreBlocked := true, retryPkt := some pkt }

/-- `sendStore`: whether the cache took the packet. -/
def sendStore (accepted : Bool) : Except PortAssert (LSQPort × Bool) :=
  if accepted then .ok (x.accept pkt, true)
  else if x.retryPkt.isSome then .error .retryPkt
  else .ok (x.refuse pkt, false)

def storePostSend (x : LSQPort) : LSQPort :=
  { x with
    toLSQUnit := x.toLSQUnit.storePostSend
    posted := x.posted ++ ((x.storeQueue x.storeWBIdx).map fun e => e.inst.seqNum).toList }

/-- `storePostSend` if the packet was sent. -/
def postSendIf (r : LSQPort × Bool) : LSQPort := if r.2 then r.1.storePostSend else r.1

def writebackPendingStore (accepted : Bool) : Except PortAssert LSQPort :=
  if x.hasPendingPkt then
    match x.pendingPkt with
    | none => .error .pendingPkt
    | some pkt =>
      (x.sendStore pkt accepted).map fun r =>
        { postSendIf r with pendingPkt := none, hasPendingPkt := false }
  else .ok x

/-- The store at `storeWBIdx` is completed on the spot. -/
def completeHere : LSQPort :=
  x.setUnit { x.completeStore x.storeWBIdx with storeWBIdx := x.incrStIdx x.storeWBIdx }

/-- The store at `storeWBIdx` is marked as committed. -/
def markCommitted (e : SQEntry) : LSQPort :=
  x.setUnit (x.setStore x.storeWBIdx (some { e with committed := true }))

def setState (st : Option LSQSenderState) : LSQPort :=
  { x with senderStates := Function.update x.senderStates seqNum st }

@[simp] lemma senderStates_setState_self (n : ℕ) (st : Option LSQSenderState) :
    (x.setState n st).senderStates n = st := Function.update_self _ _ _

lemma senderStates_setState_of_ne {n m : ℕ} (h : m ≠ n) (st : Option LSQSenderState) :
    (x.setState n st).senderStates m = x.senderStates m :=
  Function.update_of_ne h _ _

/-- The first packet of `seqNum` at `storeWBIdx`, an index kept in a byte. -/
def firstPkt : StorePkt := ⟨seqNum, x.storeWBIdx % 256, false⟩

def secondPkt : Option StorePkt := if split then some ⟨seqNum, x.storeWBIdx % 256, true⟩ else none

/-- The packets of the store `seqNum` at `storeWBIdx`. -/
def packets : List StorePkt := x.firstPkt seqNum :: (x.secondPkt seqNum split).toList

/-- Sender state and packets of the store at `storeWBIdx` are made. -/
def makePackets : LSQPort :=
  { x.setState seqNum (some ⟨x.storeWBIdx % 256, if split then 2 else 1, false, none⟩) with
    created := x.created ++ x.packets seqNum split }

/-- `state->pktToSend = true`, with the packet that is left. -/
def keepPending : LSQPort :=
  x.setState pkt.seqNum ((x.senderStates pkt.seqNum).map fun st =>
    { st with pktToSend := true, pendingPacket := some pkt })

/-- A store's packets are sent, as ports and cache allow. -/
def sendPackets (first : StorePkt) (second : Option StorePkt) (used : ℕ) (ans : StoreAnswer) :
    Except PortAssert (LSQPort × ℕ) :=
  (x.sendStore first ans.first).bind fun r =>
    if !r.2 then
      match second with
      | none => .ok (r.1, used)
      | some pkt => .ok (r.1.keepPending pkt, used)
    else
      match second with
      | none => .ok (r.1.storePostSend, used)
      | some pkt =>
        if used < x.cachePorts then
          (r.1.sendStore pkt ans.second).map fun r' => (postSendIf r', used + 1)
        else if r.1.pendingPkt.isSome then .error .pendingPkt
        else .ok ({ r.1 with pendingPkt := some pkt, hasPendingPkt := true }, used)

/-- The body of `writebackStores` at `storeWBIdx`, with `used` ports in use. -/
def writebackStore (e : SQEntry) (used : ℕ) (ans : StoreAnswer) : Except PortAssert (LSQPort × ℕ) :=
  -- the store did not write any data
  if e.size = 0 then .ok (x.completeHere, used)
  else
    match e.req with
    | none => .error .store
    | some req =>
      let split := x.hasUnalignedMemAcc && e.isSplit
      if e.committed || (split && (e.sreqLow.isNone || e.sreqHigh.isNone)) then .error .store
      else
        let x := x.markCommitted e
        if e.inst.isStoreConditional && e.isSplit then .error .store
        -- a store conditional that has lost its lock
        else if e.inst.isStoreConditional && !ans.success then .ok (x.completeHere, used + 1)
        else if (e.firstReq req split).isMmappedIpr then
          if e.inst.isStoreConditional ||
              (split && !(e.sreqHigh.any fun r => r.isMmappedIpr)) then .error .store
          else .ok (x.completeHere, used + 1)
        else
          (x.makePackets e.inst.seqNum split).sendPackets (x.firstPkt e.inst.seqNum)
            (x.secondPkt e.inst.seqNum split) (used + 1) ans

/-- The store `writebackStores` goes on with. -/
def nextStore (used : ℕ) : Option SQEntry :=
  if 0 < x.storesToWB ∧ x.storeWBIdx ≠ x.storeTail ∧
      (x.needsTSO = false ∨ x.storeInFlight = false) ∧ used < x.cachePorts then
    (x.storeQueue x.storeWBIdx).filter fun e => e.canWB
  else none

/-- The loop of `writebackStores`, with answers store by store. -/
def writebackLoop : ℕ → (ℕ → StoreAnswer) → LSQPort → ℕ → Except PortAssert LSQPort
  | 0, _, x, _ => .ok x
  | fuel + 1, answers, x, used =>
    match x.nextStore used with
    | none => .ok x
    | some e =>
      if x.isStoreBlocked then .ok x
      else
        (x.writebackStore e used (answers 0)).bind fun r =>
          writebackLoop fuel (fun n => answers (n + 1)) r.1 r.2

/-- `writebackStores`; loads have used `usedPorts` in this cycle. -/
def writebackStores (usedPorts : ℕ) (pending : Bool) (answers : ℕ → StoreAnswer) :
    Except PortAssert LSQPort :=
  (if x.hasUnalignedMemAcc then x.writebackPendingStore pending else .ok x).bind fun x =>
    writebackLoop x.sqEntries answers x usedPorts

/-- By the sender state, the packet is its store's last. -/
def isLast (st : LSQSenderState) (pkt : StorePkt) : Bool :=
  !x.hasUnalignedMemAcc || !st.pktToSend || st.pendingPacket == some pkt

def retried : LSQPort := { x.accept pkt with retryPkt := none, isStoreBlocked := false }

/-- `recvRetry`, with the answers to the retried packet and the one left after it. -/
def recvRetry (first second : Bool) : Except PortAssert LSQPort :=
  if !x.isStoreBlocked then .ok x
  else
    match x.retryPkt with
    | none => .error .retryPkt
    | some pkt =>
      match x.senderStates pkt.seqNum with
      | none => .error .senderState
      | some st =>
        if !first then .ok x
        else if x.isLast st pkt then
          .ok ((x.retried pkt).setState pkt.seqNum
            (some { st with pktToSend := false })).storePostSend
        else
          match st.pendingPacket with
          | none => .error .pendingPacket
          | some rest => ((x.retried pkt).sendStore rest second).map postSendIf

def answered : LSQPort := { x with inFlight := x.inFlight.erase pkt }

/-- `completeDataAccess`: the response to a store's packet, perhaps squashed. -/
def completeDataAccess (isSquashed : Bool) : Except PortAssert LSQPort :=
  match x.senderStates pkt.seqNum with
  | none => .error .senderState
  | some st =>
    let x := x.answered pkt
    if x.hasUnalignedMemAcc && st.outstanding != 1 then
      .ok (x.setState pkt.seqNum (some { st with outstanding := st.outstanding - 1 }))
    else
      let x := x.setState pkt.seqNum none
      if isSquashed then .ok x
      else .ok (x.setUnit (x.completeStore st.idx))

end LSQPort

end ShifDram
