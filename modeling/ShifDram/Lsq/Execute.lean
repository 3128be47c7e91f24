import ShifDram.Lsq.Unit

/-!
Execution of loads and stores in the queues (`cpu/o3/lsq_unit.hh`, `cpu/o3/lsq_unit_impl.hh`).

A store is checked against the younger loads that have an address already; a load walks the older
stores not yet sent, youngest first, and is forwarded, stalled or sent to the cache.
-/

namespace ShifDram

variable (e : SQEntry) (s : LSQUnit) (req : Request) (storeIdx : ℕ) (inst : LsqInst)

namespace LSQUnit

/-- The ranges meet, in units of `2 ^ depCheckShift` bytes. -/
def rangesMeet (ld : LsqInst) : Bool :=
  decide (ld.effAddr >>> s.depCheckShift ≤ (inst.effAddr + inst.effSize - 1) >>> s.depCheckShift) &&
    decide (inst.effAddr >>> s.depCheckShift ≤ (ld.effAddr + ld.effSize - 1) >>> s.depCheckShift)

/-- `memDepViolator && violator->seqNum < seqNum`. -/
def olderViolator (seqNum : ℕ) : Bool :=
  match s.memDepViolator with
  | none => false
  | some v => decide (v.seqNum < seqNum)

/-- The loop of `checkViolations` from `loadIdx` on. -/
def checkViolationsFrom (inst : LsqInst) : ℕ → LSQUnit → ℕ → LSQUnit × Option LsqFault
  | 0, s, _ => (s, none)
  | fuel + 1, s, loadIdx =>
    if loadIdx = s.loadTail then (s, none)
    else
      match s.loadQueue loadIdx with
      | none => (s, none)
      | some ld =>
        let next := s.incrLdIdx loadIdx
        let fault := LsqFault.violation inst.seqNum ld.seqNum (ld.effAddr >>> s.depCheckShift)
        if !ld.effAddrValid || ld.isStrictlyOrdered then checkViolationsFrom inst fuel s next
        else if !s.rangesMeet inst ld then checkViolationsFrom inst fuel s next
        else if inst.isLoad then
          -- a load that saw an external snoop must not be younger than this one
          if ld.hitExternalSnoop && (s.memDepViolator.all fun v => ld.seqNum < v.seqNum) then
            ({ s with memDepViolator := some ld }, some fault)
          else
            checkViolationsFrom inst fuel
              (s.setLoad loadIdx (some { ld with possibleLoadViolation := true })) next
        else if s.olderViolator ld.seqNum then (s, none)
        else ({ s with memDepViolator := some ld }, some fault)

def checkViolations (loadIdx : ℕ) (inst : LsqInst) : LSQUnit × Option LsqFault :=
  checkViolationsFrom inst s.lqEntries s loadIdx

/-- `getMemDepViolator`: hand over and forget the violator. -/
def getMemDepViolator : Option LsqInst × LSQUnit :=
  (s.memDepViolator, { s with memDepViolator := none })

/-- `write`: request and data go to the entry, the size as a byte; `none` is a failed assertion. -/
def write (w : SQWrite) : Option LSQUnit :=
  match s.storeQueue storeIdx with
  | none => none
  | some e =>
    if 32 < w.req.size ∧ w.req.isCacheBlockZero = false then none
    else
      some (s.setStore storeIdx (some { e with
        req := some w.req
        sreqLow := w.sreqLow
        sreqHigh := w.sreqHigh
        size := w.req.size % 256
        isAllZeros := w.req.isCacheBlockZero
        isSplit := w.sreqLow.isSome || e.isSplit
        data := if w.req.isCacheBlockZero then e.data else w.data
        rowOp := if w.req.isCacheBlockZero then e.rowOp else w.rowOp }))

end LSQUnit

/-- `initiateAcc` of a store: the instruction, the argument of `LSQUnit::write`, the fault. -/
structure StoreAcc where
  dyn : DynInst ℕ
  predicate : Bool
  written : Option SQWrite
  fault : Option ℕ

/-- The end of `BaseDynInst::writeMem` for `w`. -/
def StoreAcc.ofWriteMem (dyn : DynInst ℕ) (w : SQWrite) : StoreAcc :=
  if dyn.writes then
    { dyn := { dyn with effAddr := w.req.vaddr, effSize := w.req.size, effAddrValid := true }
      predicate := true, written := some w, fault := dyn.fault }
  else { dyn := dyn, predicate := true, written := none, fault := dyn.fault }

/-- The end of `writeMem` for a row op. -/
def StoreExec.storeAcc (x : StoreExec) : StoreAcc :=
  { dyn := x.inst, predicate := true,
    written := x.written.map fun w => ⟨w.1, none, none, w.2.bytes, w.2⟩, fault := x.inst.fault }

/-- The instruction of a store after `initiateAcc`. -/
def LsqInst.accessed (acc : StoreAcc) : LsqInst :=
  { inst with toDynInst := acc.dyn, predicate := acc.predicate }

namespace LSQUnit

def setStoreInst : LSQUnit :=
  match s.storeQueue storeIdx with
  | none => s
  | some e => s.setStore storeIdx (some { e with inst := inst })

/-- `initiateAcc` of the store in slot `storeIdx`, for the queue. -/
def initiateStore (written : Option SQWrite) : Option LSQUnit :=
  match written with
  | none => some (s.setStoreInst storeIdx inst)
  | some w => (s.setStoreInst storeIdx inst).write storeIdx w

/-- `executeStore` at its end, for slot `storeIdx`; `none` is a failed assertion. -/
def checkStore (fault : Option ℕ) : Option (LSQUnit × Option LsqFault) :=
  match s.storeQueue storeIdx with
  | none => none
  | some e =>
    if inst.isTranslationDelayed && fault.isNone then some (s, none)
    else if e.size = 0 then some (s, fault.map .access)
    else if !inst.predicate then some (s, fault.map .access)
    else if fault.isSome then none
    else
      let s := if inst.isStoreConditional then
          { s.setStore storeIdx (some { e with canWB := true }) with
            storesToWB := s.storesToWB + 1 }
        else s
      some (s.checkViolations inst.lqIdx inst)

/-- `executeStore`; `none` is a failed assertion. -/
def executeStore (acc : StoreAcc) : Option (LSQUnit × Option LsqFault) :=
  if s.stores = 0 then none
  else
    inst.sqIdx.bind fun storeIdx =>
      (s.initiateStore storeIdx (inst.accessed acc) acc.written).bind fun s =>
        s.checkStore storeIdx (inst.accessed acc) acc.fault

lemma executeStore_eq {s : LSQUnit} {inst : LsqInst} {i : ℕ} (hstores : s.stores ≠ 0)
    (hi : inst.sqIdx = some i) (acc : StoreAcc) :
    s.executeStore inst acc = (s.initiateStore i (inst.accessed acc) acc.written).bind fun s =>
      s.checkStore i (inst.accessed acc) acc.fault := by
  rw [executeStore, if_neg hstores, hi, Option.bind_some]

end LSQUnit

/-- How much of a load's data a store has; on a part the load waits. -/
inductive Coverage where
  | nothing | part | whole
  deriving DecidableEq, Repr

namespace SQEntry

/-- The row op writes into the load's physical range. -/
def rowOpMeets : Bool :=
  (e.req.any fun r => r.isRowOp) && (decide (e.rowOp.dest < req.paddr.getD 0 + req.size) &&
      decide (req.paddr.getD 0 < e.rowOp.dest + rowSize))

/-- The interval tests of `read`; a row op that the load meets looks like a part. -/
def coverage : Coverage :=
  if e.size = 0 then .nothing
  else if e.inst.isStrictlyOrdered then .nothing
  else
    let rowOp := e.rowOpMeets req
    let storeHasLowerLimit := rowOp || decide (e.inst.effAddr ≤ req.vaddr)
    let storeHasUpperLimit := !rowOp && decide (req.vaddr + req.size ≤ e.inst.effAddr + e.size)
    let lowerLoadHasStorePart := rowOp || decide (req.vaddr < e.inst.effAddr + e.size)
    let upperLoadHasStorePart := !rowOp && decide (e.inst.effAddr < req.vaddr + req.size)
    if storeHasLowerLimit && storeHasUpperLimit then .whole
    else if storeHasLowerLimit && lowerLoadHasStorePart ||
        storeHasUpperLimit && upperLoadHasStorePart ||
        lowerLoadHasStorePart && upperLoadHasStorePart then .part
    else .nothing

def forwarded : List (BitVec 8) :=
  if e.isAllZeros then List.replicate req.size 0#8
  else (e.data.drop (req.vaddr - e.inst.effAddr)).take req.size

end SQEntry

/-- What `read` does with a load. -/
inductive ReadOutcome where
  /-- Rescheduled until at the head and ready to commit. -/
  | strictlyOrdered
  | mmappedIpr
  | forward (storeIdx : ℕ) (data : List (BitVec 8))
  /-- Stalled on a store and rescheduled. -/
  | stall (storeIdx : ℕ)
  /-- The panic on a completed store. -/
  | panic
  /-- Sent to the cache, in two packets if it is split. -/
  | access (fst : Request) (snd : Option Request)
  deriving DecidableEq

namespace LSQUnit

/-- The walk of `read` down from `storeIdx`; `none`: no store has any data. -/
def readWalk (s : LSQUnit) (req : Request) : ℕ → ℕ → Option ReadOutcome
  | 0, _ => none
  | fuel + 1, storeIdx =>
    if storeIdx = s.storeWBIdx then none
    else
      let storeIdx := s.decrStIdx storeIdx
      match s.storeQueue storeIdx with
      | none => none
      | some e =>
        match e.coverage req with
        | .nothing => readWalk s req fuel storeIdx
        | .whole => some (.forward storeIdx (e.forwarded req))
        | .part => some (if e.completed then .panic else .stall storeIdx)

def oldestStall (ld : LsqInst) : Bool :=
  !s.stalled || (s.loadQueue s.stallingLoadIdx).any fun other => ld.seqNum < other.seqNum

def stallOn (loadIdx : ℕ) (ld : LsqInst) (storeIdx : ℕ) : LSQUnit :=
  if s.oldestStall ld then
    { s with
      stalled := true
      stallingStoreIsn := ((s.storeQueue storeIdx).map fun e => e.inst.seqNum).getD 0
      stallingLoadIdx := loadIdx }
  else s

/-- What `read` decides for the load `ld`. -/
def readOutcome (sreqLow sreqHigh : Option Request) (loadIdx : ℕ) (ld : LsqInst) : ReadOutcome :=
  if req.isStrictlyOrdered && (decide (loadIdx ≠ s.loadHead) || !ld.isAtCommit) then
    .strictlyOrdered
  else if req.isMmappedIpr then .mmappedIpr
  else
    match ld.sqIdx.bind (s.readWalk req s.sqEntries) with
    | some outcome => outcome
    | none => .access (sreqLow.getD req) (if sreqLow.isSome then sreqHigh else none)

/-- `read`; `none` is the failed assertion on the load. -/
def read (sreqLow sreqHigh : Option Request) (loadIdx : ℕ) : Option (LSQUnit × ReadOutcome) :=
  (s.loadQueue loadIdx).map fun ld =>
    let outcome := s.readOutcome req sreqLow sreqHigh loadIdx ld
    match outcome with
    | .stall storeIdx => (s.stallOn loadIdx ld storeIdx, outcome)
    | _ => (s, outcome)

end LSQUnit

/-- `initiateAcc` of a load before `LSQUnit::read`: its requests, and the translation's fault. -/
structure LoadAcc where
  dyn : DynInst ℕ
  predicate : Bool
  reqs : Option (Request × Option Request × Option Request)
  fault : Option ℕ

namespace LSQUnit

/-- The call of `read` in `initiateAcc`, and its fault. -/
def initiateLoad (acc : LoadAcc) : Option (LSQUnit × Option LsqFault) :=
  match acc.reqs with
  | none => some (s, acc.fault.map .access)
  | some (req, sreqLow, sreqHigh) =>
    (s.read req sreqLow sreqHigh inst.lqIdx).map fun r =>
      (r.1, if r.2 = .strictlyOrdered then some (.strictlyOrdered inst.seqNum) else none)

/-- `executeLoad` of slot `inst.lqIdx`; `none` is a failed assertion. -/
def executeLoad (acc : LoadAcc) : Option (LSQUnit × Option LsqFault) :=
  let inst := { inst with toDynInst := acc.dyn, predicate := acc.predicate }
  let s := s.setLoad inst.lqIdx (some inst)
  (s.initiateLoad inst acc).bind fun r =>
    if inst.isTranslationDelayed && r.2.isNone then some r
    else if r.2.isSome || !inst.predicate then some r
    else if !inst.effAddrValid then none
    else if r.1.checkLoads then some (r.1.checkViolations (r.1.incrLdIdx inst.lqIdx) inst)
    else some r

end LSQUnit

end ShifDram
