import ShifDram.Queue.Ring
import ShifDram.Cpu.WriteMem

/-!
The load and store queues of the out-of-order CPU (`cpu/o3/lsq_unit.hh`,
`cpu/o3/lsq_unit_impl.hh`): their entries, and how they grow and shrink.

Both queues are arrays with wrapping head and tail indices; `storeWBIdx` separates the stores sent
to the cache from the others. An empty slot is `none`, and so is an index of `-1`. The loops of
the source take a bound on their steps; the queues have at most that many elements.
-/

namespace ShifDram

variable (s : LSQUnit) (i : ℕ) (e : Option SQEntry) (inst : LsqInst)

/-- The fields of `BaseDynInst` that the queues set or read. -/
structure LsqInst extends DynInst ℕ where
  seqNum : ℕ
  lqIdx : ℕ
  sqIdx : Option ℕ
  isLoad : Bool
  isStoreConditional : Bool
  predicate : Bool
  hitExternalSnoop : Bool
  possibleLoadViolation : Bool
  isAtCommit : Bool

def LsqInst.isTranslationDelayed : Bool := inst.translationStarted && !inst.translationCompleted

def LsqInst.dispatched (seqNum : ℕ) (isLoad : Bool) : LsqInst :=
  { (DynInst.fresh : DynInst ℕ) with
    seqNum := seqNum, lqIdx := 0, sqIdx := none, isLoad := isLoad, isStoreConditional := false,
    predicate := true, hitExternalSnoop := false, possibleLoadViolation := false,
    isAtCommit := false }

/-- `SQEntry`, with data as bytes and read as a row-op payload. -/
structure SQEntry where
  inst : LsqInst
  req : Option Request
  sreqLow : Option Request
  sreqHigh : Option Request
  data : List (BitVec 8)
  rowOp : RowOpPayload
  size : ℕ
  isSplit : Bool
  canWB : Bool
  committed : Bool
  completed : Bool
  isAllZeros : Bool

/-- The entry `SQEntry(inst)` constructs. -/
def SQEntry.ofInst : SQEntry :=
  { inst := inst, req := none, sreqLow := none, sreqHigh := none,
    data := List.replicate 32 0#8, rowOp := ⟨.rowAnd, 0, 0, 0⟩, size := 0, isSplit := false,
    canWB := false, committed := false, completed := false, isAllZeros := false }

/-- The arguments of `LSQUnit::write`. -/
structure SQWrite where
  req : Request
  sreqLow : Option Request
  sreqHigh : Option Request
  data : List (BitVec 8)
  rowOp : RowOpPayload

/-- A fault of the access, or a `M5PanicFault` with its report. -/
inductive LsqFault where
  | access (fault : ℕ)
  | strictlyOrdered (seqNum : ℕ)
  | violation (inst ld addr : ℕ)

structure LSQUnit where
  lqEntries : ℕ
  sqEntries : ℕ
  depCheckShift : ℕ
  checkLoads : Bool
  needsTSO : Bool
  loadQueue : ℕ → Option LsqInst
  storeQueue : ℕ → Option SQEntry
  loads : ℕ
  stores : ℕ
  storesToWB : ℕ
  loadHead : ℕ
  loadTail : ℕ
  storeHead : ℕ
  storeWBIdx : ℕ
  storeTail : ℕ
  memDepViolator : Option LsqInst
  stalled : Bool
  stallingStoreIsn : ℕ
  stallingLoadIdx : ℕ
  storeInFlight : Bool

namespace LSQUnit

/-- `init` and `resetState`, with a sentinel slot in each queue. -/
def init (maxLQEntries maxSQEntries depCheckShift : ℕ) (checkLoads needsTSO : Bool) : LSQUnit :=
  { lqEntries := maxLQEntries + 1, sqEntries := maxSQEntries + 1,
    depCheckShift := depCheckShift, checkLoads := checkLoads, needsTSO := needsTSO,
    loadQueue := fun _ => none, storeQueue := fun _ => none,
    loads := 0, stores := 0, storesToWB := 0, loadHead := 0, loadTail := 0,
    storeHead := 0, storeWBIdx := 0, storeTail := 0, memDepViolator := none, stalled := false,
    stallingStoreIsn := 0, stallingLoadIdx := 0, storeInFlight := false }

def incrLdIdx : ℕ := RingBuffer.next s.lqEntries i
def decrLdIdx : ℕ := RingBuffer.prev s.lqEntries i
def incrStIdx : ℕ := RingBuffer.next s.sqEntries i
def decrStIdx : ℕ := RingBuffer.prev s.sqEntries i

def setLoad (ld : Option LsqInst) : LSQUnit :=
  { s with loadQueue := Function.update s.loadQueue i ld }

def setStore : LSQUnit := { s with storeQueue := Function.update s.storeQueue i e }

@[simp] lemma storeQueue_setStore_self :
    (s.setStore i e).storeQueue i = e := Function.update_self _ _ _

lemma setStore_setStore (e' : Option SQEntry) :
    (s.setStore i e).setStore i e' = s.setStore i e' := by
  simp [setStore]

/-- The places `insertLoad` records in a load. -/
def placeLoad : LsqInst :=
  { inst with
    lqIdx := s.loadTail
    sqIdx := if s.stores = 0 then none else some s.storeTail }

/-- `insertLoad`; `none` is a failed assertion. -/
def insertLoad : Option LSQUnit :=
  if (s.loadTail + 1) % s.lqEntries = s.loadHead ∨ s.lqEntries ≤ s.loads then none
  else
    some { s.setLoad s.loadTail (some (s.placeLoad inst)) with
      loadTail := s.incrLdIdx s.loadTail
      loads := s.loads + 1 }

/-- The places `insertStore` records in a store. -/
def placeStore : LsqInst := { inst with sqIdx := some s.storeTail, lqIdx := s.loadTail }

/-- `insertStore`; `none` is a failed assertion. -/
def insertStore : Option LSQUnit :=
  if (s.storeTail + 1) % s.sqEntries = s.storeHead ∨ s.sqEntries ≤ s.stores then none
  else
    some { s.setStore s.storeTail (some (.ofInst (s.placeStore inst))) with
      storeTail := s.incrStIdx s.storeTail
      stores := s.stores + 1 }

def commitLoad : LSQUnit :=
  { s.setLoad s.loadHead none with
    loadHead := s.incrLdIdx s.loadHead
    loads := s.loads - 1 }

/-- The loop of `commitLoads`. -/
def commitLoadsLoop (youngest : ℕ) : ℕ → LSQUnit → LSQUnit
  | 0, s => s
  | fuel + 1, s =>
    match s.loadQueue s.loadHead with
    | none => s
    | some ld =>
      if s.loads ≠ 0 ∧ ld.seqNum ≤ youngest then commitLoadsLoop youngest fuel s.commitLoad
      else s

def commitLoads (youngest : ℕ) : LSQUnit := commitLoadsLoop youngest s.loads s

/-- The loop of `commitStores` from `storeIdx` on. -/
def commitStoresFrom (youngest : ℕ) : ℕ → LSQUnit → ℕ → LSQUnit
  | 0, s, _ => s
  | fuel + 1, s, storeIdx =>
    if storeIdx = s.storeTail then s
    else
      match s.storeQueue storeIdx with
      | none => s
      | some e =>
        if e.canWB then commitStoresFrom youngest fuel s (s.incrStIdx storeIdx)
        else if youngest < e.inst.seqNum then s
        else
          commitStoresFrom youngest fuel { s.setStore storeIdx (some { e with canWB := true }) with
              storesToWB := s.storesToWB + 1 }
            (s.incrStIdx storeIdx)

def commitStores (youngest : ℕ) : LSQUnit := commitStoresFrom youngest s.sqEntries s s.storeHead

/-- The end of a stall of the load in slot `loadIdx`. -/
def clearStall (loadIdx : ℕ) : LSQUnit :=
  if s.stalled ∧ loadIdx = s.stallingLoadIdx then
    { s with stalled := false, stallingStoreIsn := 0, stallingLoadIdx := 0 }
  else s

/-- The loop of `squash` over the loads, youngest first. -/
def squashLoads (squashed : ℕ) : ℕ → LSQUnit → LSQUnit
  | 0, s => s
  | fuel + 1, s =>
    let loadIdx := s.decrLdIdx s.loadTail
    match s.loadQueue loadIdx with
    | none => s
    | some ld =>
      if s.loads ≠ 0 ∧ squashed < ld.seqNum then
        squashLoads squashed fuel { (s.clearStall loadIdx).setLoad loadIdx none with
            loads := s.loads - 1
            loadTail := loadIdx }
      else s

/-- The loop of `squash` over the stores, up to one that may write back; `none` is the panic on a
stalled load. -/
def squashStores (squashed : ℕ) : ℕ → LSQUnit → Option LSQUnit
  | 0, s => some s
  | fuel + 1, s =>
    let storeIdx := s.decrStIdx s.storeTail
    match s.storeQueue storeIdx with
    | none => some s
    | some e =>
      if s.stores ≠ 0 ∧ squashed < e.inst.seqNum then
        if e.canWB then some s
        else if s.stalled ∧ e.inst.seqNum = s.stallingStoreIsn then none
        else
          squashStores squashed fuel
            { s.setStore storeIdx none with stores := s.stores - 1, storeTail := storeIdx }
      else some s

def clearViolator (squashed : ℕ) : LSQUnit :=
  if s.memDepViolator.any fun v => squashed < v.seqNum then { s with memDepViolator := none }
  else s

def squash (squashed : ℕ) : Option LSQUnit :=
  let s := (squashLoads squashed s.loads s).clearViolator squashed
  squashStores squashed s.stores s

/-- The end of a stall on the store `e`. -/
def unstall (e : SQEntry) : LSQUnit :=
  if s.stalled ∧ e.inst.seqNum = s.stallingStoreIsn then
    { s with stalled := false, stallingStoreIsn := 0 }
  else s

def storePostSend : LSQUnit :=
  let s := match s.storeQueue s.storeWBIdx with
    | none => s
    | some e => s.unstall e
  { s with
    storeInFlight := s.needsTSO || s.storeInFlight
    storeWBIdx := s.incrStIdx s.storeWBIdx }

/-- The loop of `completeStore` over completed stores at the head. -/
def freeCompleted : ℕ → LSQUnit → LSQUnit
  | 0, s => s
  | fuel + 1, s =>
    let s := { s with storeHead := s.incrStIdx s.storeHead, stores := s.stores - 1 }
    if ((s.storeQueue s.storeHead).any fun e => e.completed) ∧ s.storeHead ≠ s.storeTail then
      freeCompleted fuel s
    else s

/-- The store `e` in slot `storeIdx` is marked completed. -/
def markCompleted (storeIdx : ℕ) (e : SQEntry) : LSQUnit :=
  { s.setStore storeIdx (some { e with completed := true }) with storesToWB := s.storesToWB - 1 }

def completeStore (storeIdx : ℕ) : LSQUnit :=
  match s.storeQueue storeIdx with
  | none => s
  | some e =>
    let s := s.markCompleted storeIdx e
    let s := if storeIdx = s.storeHead then freeCompleted s.sqEntries s else s
    let s := s.unstall e
    { s with storeInFlight := !s.needsTSO && s.storeInFlight }

end LSQUnit

end ShifDram
