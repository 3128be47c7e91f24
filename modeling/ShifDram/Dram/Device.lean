import ShifDram.Dram.Config
import ShifDram.Mem.Packet
import ShifDram.Queue.Agenda

/-!
The banks and ranks of a DRAM channel (`mem/dram_ctrl.hh`, `mem/dram_ctrl.cc`).

A bank keeps its open row and the earliest ticks of its next column, precharge and activate
commands; a rank adds the window of its last activates and the refresh and power machines.
`Channel` is what ranks share: the clock, the agenda of events and the data bus. A failed
assertion, a `panic` and a `fatal` end a step with an `Abort`.
-/

namespace ShifDram

variable (k : Rank) (c : Channel) (e : DRAMEvent) (t r : ℕ)

/-- The controller's events, a response being sent, events of other objects. -/
inductive DRAMEvent where
  | nextReq
  | respond
  | response (pkt : ℕ)
  | activate (rank : ℕ)
  | precharge (rank : ℕ)
  | refresh (rank : ℕ)
  | power (rank : ℕ)
  | external (id : ℕ)
  deriving DecidableEq, Repr

/-- Assertions, panics and fatal errors of the controller. -/
inductive Abort where
  | schedulePast | alreadyScheduled (e : DRAMEvent)
  | actTicksSize | bankOpen | tooManyActive | windowPanic | bankClosed | noneActive
  | busOverlap | powerPanic | refreshBanksActive | refreshNotRef | refreshTooLate
  | refreshPowerPending | powerNotAct | powerPending | powerNotRun
  | decodeRange | readIsWrite | noBursts | readQueueFull | notWrite | writeQueueFull
  | emptyRequest | emptyQueue | rankBusy | burstTooBig | readyPast | respondScheduled
  | respondNotScheduled | respOrder | respEmpty | helperDeleted | memoryAccess | notResponse
  | minBankBusy
  deriving DecidableEq, Repr

/-- `Bank`. `NO_ROW` is `none`. -/
structure Bank where
  openRow : Option ℕ
  colAllowedAt : ℕ
  preAllowedAt : ℕ
  actAllowedAt : ℕ
  rowAccesses : ℕ
  deriving DecidableEq, Repr

namespace Bank

/-- Rows outside the array: `uint32_t` counted down from `NO_ROW`. -/
def special (n : ℕ) : ℕ := 2 ^ 32 - n

def doubleRow : ℕ := special 2
def bT0 : ℕ := special 3
def bT1 : ℕ := special 4
def bT2 : ℕ := special 5
def bDCC0 : ℕ := special 7
def bDCC0N : ℕ := special 8
def bDCC0NT0 : ℕ := special 11
def bDCC1NT1 : ℕ := special 12
def bT2T3 : ℕ := special 13
def bT0T1T2 : ℕ := special 15
def bDCC0T1T2 : ℕ := special 17
def bDCC1T0T3 : ℕ := special 18
def c0 : ℕ := special 19
def c1 : ℕ := special 20
def bT0SH : ℕ := special 21

def init : Bank := ⟨none, 0, 0, 0, 0⟩

end Bank

inductive PowerState where
  | idle | ref | prePdn | act | actPdn
  deriving DecidableEq, Repr

inductive RefreshState where
  | idle | drain | pre | run
  deriving DecidableEq, Repr

structure Rank where
  pwrStateTrans : PowerState
  pwrState : PowerState
  refreshState : RefreshState
  refreshDueAt : ℕ
  banks : ℕ → Bank
  numBanksActive : ℕ
  /-- The last activates, newest first. -/
  actTicks : List ℕ

namespace Rank

variable (p : DRAMParams)

def init (p : DRAMParams) : Rank :=
  ⟨.idle, .idle, .idle, 0, fun _ => .init, 0, List.replicate p.activationLimit 0⟩

def isAvailable : Bool := k.refreshState = .idle

def modifyBank (b : ℕ) (f : Bank → Bank) : Rank :=
  { k with banks := Function.update k.banks b (f (k.banks b)) }

def mapBanks (f : ℕ → Bank → Bank) : Rank := { k with banks := fun i => f i (k.banks i) }

/-- No bank is activated before `t`. -/
def notBefore : Rank :=
  k.mapBanks fun _ bank => { bank with actAllowedAt := max t bank.actAllowedAt }

/-- `actTicks.back()`, zero with too few activates. -/
def oldest : ℕ := k.actTicks.getLastD 0

/-- `actTicks.pop_back(); actTicks.push_front(act_tick)`. -/
def record (actTick : ℕ) : Rank := { k with actTicks := actTick :: k.actTicks.dropLast }

/-- How `activateBank` and `aapBank` start: a closed bank's row is opened. -/
def openBank (k : Rank) (b row : ℕ) : Except Abort Rank :=
  if (k.banks b).openRow.isSome then .error .bankOpen
  else if p.banksPerRank < k.numBanksActive + 1 then .error .tooManyActive
  else .ok { k.modifyBank b fun bank => { bank with openRow := some row, rowAccesses := 0 } with
      numBanksActive := k.numBanksActive + 1 }

/-- The loop that enforces `tRRD`, `tRRD_L` in a bank group. -/
def enforceRRD (k : Rank) (b actTick : ℕ) : Rank :=
  k.mapBanks fun i bank =>
    { bank with actAllowedAt := max (actTick + p.actDelay b i) bank.actAllowedAt }

/-- `activateBank` enforcing `tXAW`, with its sanity check. -/
def enforceXAW (k : Rank) (actTick : ℕ) : Except Abort Rank :=
  if k.actTicks = [] then .ok k
  else if k.oldest ≠ 0 ∧ tickSub actTick k.oldest < p.tXAW then .error .windowPanic
  else
    let k' := k.record actTick
    .ok (if k'.oldest ≠ 0 ∧ tickSub actTick k'.oldest < p.tXAW then
      k'.notBefore (k'.oldest + p.tXAW)
      else k')

/-- `aapBank` enforcing `tXAW`, without a sanity check. -/
def enforceXAWDouble (k : Rank) (actTick : ℕ) : Rank :=
  if k.actTicks = [] then k
  else
    let k' := k.record actTick
    let newLimit := k'.oldest + p.tXAW
    if k'.oldest ≠ 0 ∧ actTick < newLimit then k'.notBefore newLimit else k'

/-- `activateBank`, up to the event. -/
def activate (k : Rank) (b actTick row : ℕ) : Except Abort Rank :=
  if k.actTicks.length ≠ p.activationLimit then .error .actTicksSize
  else
    (k.openBank p b row).bind fun k =>
      ((k.modifyBank b fun bank => { bank with
          preAllowedAt := actTick + p.tRAS
          colAllowedAt := max (actTick + p.tRCD) bank.colAllowedAt }).enforceRRD p b
            actTick).enforceXAW
        p actTick

/-- `aapBank`, up to the event and the precharge. -/
def activateDouble (k : Rank) (b actTick : ℕ) (actOverlapped : Bool) : Except Abort Rank :=
  (k.openBank p b Bank.doubleRow).map fun k =>
    ((k.modifyBank b fun bank => { bank with
        preAllowedAt := actTick + p.tRAS + if actOverlapped then p.tWLOV else p.tWL }).enforceRRD
      p b actTick).enforceXAWDouble p actTick

/-- `prechargeBank`, up to the event. -/
def precharge (k : Rank) (b preAt : ℕ) : Except Abort Rank :=
  if (k.banks b).openRow = none then .error .bankClosed
  else if k.numBanksActive = 0 then .error .noneActive
  else .ok { k.modifyBank b fun bank =>
        { bank with
          openRow := none
          preAllowedAt := preAt
          actAllowedAt := max bank.actAllowedAt (preAt + p.tRP) } with
      numBanksActive := k.numBanksActive - 1 }

end Rank

/-- An activate command: its rank, its bank and its tick. -/
structure Activation where
  rank : ℕ
  bank : ℕ
  tick : ℕ
  deriving DecidableEq, Repr

/-- The ranks, clock, events and data bus; `activations` and `bursts` record, newest first, every
activate and every ordinary burst's ready time. -/
structure Channel where
  now : ℕ
  agenda : Agenda DRAMEvent
  ranks : ℕ → Rank
  busBusyUntil : ℕ
  nextReqTime : ℕ
  activeRank : ℕ
  activations : List Activation
  bursts : List ℕ

namespace Channel

variable (p : DRAMParams)

def setRank (k : Rank) : Channel := { c with ranks := Function.update c.ranks r k }

def scheduled : Bool := (c.agenda.when? e).isSome

def schedule : Except Abort Channel :=
  if t < c.now then .error .schedulePast
  else if c.scheduled e then .error (.alreadyScheduled e)
  else .ok { c with agenda := c.agenda.set t e }

/-- `reschedule`, of an event that is scheduled. -/
def reschedule : Except Abort Channel :=
  if t < c.now then .error .schedulePast else .ok { c with agenda := c.agenda.set t e }

def scheduleActivate (actTick : ℕ) : Except Abort Channel :=
  match c.agenda.when? (.activate r) with
  | none => c.schedule (.activate r) actTick
  | some t => if actTick < t then c.reschedule (.activate r) actTick else .ok c

def schedulePrecharge (preDoneAt : ℕ) : Except Abort Channel :=
  match c.agenda.when? (.precharge r) with
  | none => c.schedule (.precharge r) preDoneAt
  | some t => if t < preDoneAt then c.reschedule (.precharge r) preDoneAt else .ok c

def schedulePowerEvent (pwrState : PowerState) (tick : ℕ) : Except Abort Channel :=
  if tick < c.now then .error .schedulePast
  else if c.scheduled (.power r) then .error .powerPanic
  else (c.setRank r { c.ranks r with pwrStateTrans := pwrState }).schedule (.power r) tick

def activateBank (c : Channel) (r b actTick row : ℕ) : Except Abort Channel :=
  ((c.ranks r).activate p b actTick row).bind fun k =>
    { c.setRank r k with
      activations := ⟨r, b, actTick⟩ :: c.activations }.scheduleActivate r actTick

def prechargeBank (c : Channel) (r b preAt : ℕ) : Except Abort Channel :=
  ((c.ranks r).precharge p b preAt).bind fun k =>
    (c.setRank r k).schedulePrecharge r (preAt + p.tRP)

/-- Precharge a bank at `bank_ref.preAllowedAt`. -/
def prechargeWhenAllowed (c : Channel) (r b : ℕ) : Except Abort Channel :=
  c.prechargeBank p r b ((c.ranks r).banks b).preAllowedAt

def apBank (c : Channel) (r b actTick row : ℕ) : Except Abort Channel :=
  (c.activateBank p r b actTick row).bind fun c => c.prechargeWhenAllowed p r b

/-- `aapBank`. The rows are only traced. -/
def aapBank (c : Channel) (r b actTick _row1 _row2 : ℕ) (actOverlapped : Bool) :
    Except Abort Channel :=
  ((c.ranks r).activateDouble p b actTick actOverlapped).bind fun k =>
    ({ c.setRank r k with
      activations := ⟨r, b, actTick⟩ :: c.activations }.scheduleActivate r actTick).bind
      fun c => c.prechargeWhenAllowed p r b

end Channel

/-- `BurstHelper`: a split packet's bursts, and those serviced. -/
structure BurstHelper where
  burstCount : ℕ
  burstsServiced : ℕ
  deriving DecidableEq, Repr

/-- `DRAMPacket` of system packet `pkt`; `helper`: its bursts share a `BurstHelper`. -/
structure DRAMPacket where
  readyTime : ℕ := 0
  pkt : ℕ
  isRead : Bool
  rank : ℕ
  bank : ℕ
  row : ℕ
  bankId : ℕ
  addr : ℕ
  size : ℕ
  helper : Bool := false
  /-- `row_op`, when `is_row_op` is set. -/
  rowOp : Option RowOp := none
  src1Row : ℕ := 0
  src2Row : ℕ := 0
  deriving DecidableEq, Repr

def DRAMPacket.isRowOp (d : DRAMPacket) : Bool := d.rowOp.isSome

/-- `aapBank` or `apBank`, with the rows. -/
inductive Cycle where
  | aap (row1 row2 : ℕ)
  | ap (row : ℕ)
  deriving DecidableEq, Repr

open Bank in
def DRAMPacket.cycles (d : DRAMPacket) : RowOp → List Cycle
  | .rowAnd => [.aap d.src1Row bT0, .aap d.src2Row bT1, .aap c0 bT2, .aap bT0T1T2 d.row]
  | .rowOr => [.aap d.src1Row bT0, .aap d.src2Row bT1, .aap c1 bT2, .aap bT0T1T2 d.row]
  | .rowNot => [.aap d.src1Row bDCC0N, .aap bDCC0 d.row]
  | .rowXor =>
    [.aap d.src1Row bDCC0NT0, .aap d.src2Row bDCC1NT1, .aap c0 bT2T3, .ap bDCC0T1T2,
      .ap bDCC1T0T3, .aap c1 bT2, .aap bT0T1T2 d.row]
  | .rowAp => [.ap bT0T1T2]
  | .rowAap => [.aap 0 0]
  | .rowLs => [.aap d.src1Row bT0, .aap bT0SH d.row]
  | .rowRs => [.aap d.src1Row bT0SH, .aap bT0 d.row]

namespace Channel

variable (p : DRAMParams)

/-- One cycle; `aapBank` always has `act_overlapped` set. -/
def doCycle (c : Channel) (r b cmdAt : ℕ) : Cycle → Except Abort Channel
  | .aap row1 row2 => c.aapBank p r b cmdAt row1 row2 true
  | .ap row => c.apBank p r b cmdAt row

/-- The cycles, each at the bank's `actAllowedAt`; returns the final `cmd_at`. -/
def doCycles (c : Channel) (r b cmdAt : ℕ) : List Cycle → Except Abort (Channel × ℕ)
  | [] => .ok (c, cmdAt)
  | x :: l => (c.doCycle p r b cmdAt x).bind fun c =>
    doCycles c r b ((c.ranks r).banks b).actAllowedAt l

def closePage (c : Channel) (r b : ℕ) : Except Abort Channel :=
  if ((c.ranks r).banks b).openRow = none then .ok c
  else c.prechargeBank p r b (max ((c.ranks r).banks b).preAllowedAt c.now)

/-- `doDRAMAccess` of a row op: the channel and the ready time. -/
def doRowOp (c : Channel) (d : DRAMPacket) (op : RowOp) : Except Abort (Channel × ℕ) :=
  let cmdAt := max ((c.ranks d.rank).banks d.bank).colAllowedAt c.now
  (c.closePage p d.rank d.bank).bind fun c =>
    (c.doCycles p d.rank d.bank (max cmdAt ((c.ranks d.rank).banks d.bank).actAllowedAt)
      (d.cycles op)).map fun (c, cmdAt) =>
        let readyTime := cmdAt + p.tCL
        ({ c with
          activeRank := d.rank
          busBusyUntil := readyTime
          nextReqTime := tickSub readyTime p.prepTime }, readyTime)

/-- Open an ordinary burst's row: the channel and `cmd_at`. -/
def openPage (c : Channel) (d : DRAMPacket) : Except Abort (Channel × ℕ) :=
  if ((c.ranks d.rank).banks d.bank).openRow = some d.row then
    .ok (c, max ((c.ranks d.rank).banks d.bank).colAllowedAt c.now)
  else
    (c.closePage p d.rank d.bank).bind fun c =>
      (c.activateBank p d.rank d.bank (max ((c.ranks d.rank).banks d.bank).actAllowedAt c.now)
        d.row).map fun c => (c, ((c.ranks d.rank).banks d.bank).colAllowedAt)

/-- The loop over all banks that spaces column commands. -/
def spaceColumns (c : Channel) (d : DRAMPacket) (cmdAt : ℕ) : Channel :=
  { c with
    ranks := fun j => (c.ranks j).mapBanks fun i bank =>
      { bank with
        colAllowedAt := max (cmdAt + p.colDelay (d.rank = j) d.bank i) bank.colAllowedAt } }

/-- Write recovery or read-to-precharge, and the access count. -/
def countAccess (c : Channel) (d : DRAMPacket) (cmdAt readyTime : ℕ) : Channel :=
  c.setRank d.rank ((c.ranks d.rank).modifyBank d.bank fun bank => { bank with
      preAllowedAt := max bank.preAllowedAt (if d.isRead then cmdAt + p.tRTP else readyTime + p.tWR)
      rowAccesses := bank.rowAccesses + 1 })

/-- The adaptive page policies' scan of the queue behind. -/
def adaptivePrecharge (d : DRAMPacket) (behind : List DRAMPacket) : Bool :=
  let sameBank := behind.filter fun q => d.rank = q.rank ∧ d.bank = q.bank
  !sameBank.any (d.row = ·.row) && (!sameBank.isEmpty || p.pageMgmt = .closeAdaptive)

def autoPrecharge (c : Channel) (d : DRAMPacket) (behind : List DRAMPacket) : Bool :=
  if p.pageMgmt = .closePage ∨
      ((c.ranks d.rank).banks d.bank).rowAccesses = p.maxAccessesPerRow then true
  else if p.pageMgmt = .openAdaptive ∨ p.pageMgmt = .closeAdaptive then adaptivePrecharge p d behind
  else false

/-- `doDRAMAccess` of a burst: the channel and the ready time. -/
def doBurst (c : Channel) (d : DRAMPacket) (behind : List DRAMPacket) :
    Except Abort (Channel × ℕ) :=
  (c.openPage p d).bind fun (c, cmdAt) =>
    let cmdAt := max cmdAt (tickSub c.busBusyUntil p.tCL)
    let readyTime := cmdAt + p.tCL + p.tBURST
    if tickSub readyTime c.busBusyUntil < p.tBURST then .error .busOverlap
    else
      let c := { (c.spaceColumns p d cmdAt).countAccess p d cmdAt readyTime with
        activeRank := d.rank }
      (if c.autoPrecharge p d behind then
        c.prechargeBank p d.rank d.bank (max c.now ((c.ranks d.rank).banks d.bank).preAllowedAt)
      else .ok c).map fun c =>
        ({ c with
          busBusyUntil := readyTime
          nextReqTime := tickSub readyTime p.prepTime
          bursts := readyTime :: c.bursts }, readyTime)

def doDRAMAccess (c : Channel) (d : DRAMPacket) (behind : List DRAMPacket) :
    Except Abort (Channel × ℕ) :=
  match d.rowOp with
  | some op => c.doRowOp p d op
  | none => c.doBurst p d behind

def setRefreshState (state : RefreshState) : Channel :=
  c.setRank r { c.ranks r with refreshState := state }

def checkDrainDone : Except Abort Channel :=
  if (c.ranks r).refreshState = .drain then
    (c.setRefreshState r .pre).schedule (.refresh r) c.now
  else .ok c

def processActivateEvent : Except Abort Channel :=
  if (c.ranks r).pwrState ≠ .act then c.schedulePowerEvent r .act c.now else .ok c

def processPrechargeEvent : Except Abort Channel :=
  if (c.ranks r).numBanksActive = 0 then c.schedulePowerEvent r .idle c.now else .ok c

def preAllAt (c : Channel) (r : ℕ) : ℕ :=
  (List.range p.banksPerRank).foldl (fun t b => max ((c.ranks r).banks b).preAllowedAt t) c.now

/-- One bank of the precharge-all: closed if open, else held back. -/
def prechargeOne (r preAt : ℕ) (c : Channel) (b : ℕ) : Except Abort Channel :=
  if ((c.ranks r).banks b).openRow.isSome then c.prechargeBank p r b preAt
  else .ok (c.setRank r ((c.ranks r).modifyBank b fun bank =>
    { bank with
      actAllowedAt := max bank.actAllowedAt (preAt + p.tRP)
      preAllowedAt := max bank.preAllowedAt preAt }))

def prechargeAll (c : Channel) (r : ℕ) : Except Abort Channel :=
  (List.range p.banksPerRank).foldlM (prechargeOne p r (c.preAllAt p r)) c

/-- The state `REF_PRE` of `processRefreshEvent`. -/
def refreshPre (c : Channel) (r : ℕ) : Except Abort Channel :=
  (if (c.ranks r).pwrState ≠ .idle then c.prechargeAll p r
    else c.schedulePowerEvent r .ref c.now).bind fun c =>
      let c := c.setRefreshState r .run
      if (c.ranks r).numBanksActive ≠ 0 then .error .refreshBanksActive else .ok c

/-- `processRefreshEvent` in `REF_RUN`: the refresh itself. -/
def refreshRun (c : Channel) (r : ℕ) : Except Abort Channel :=
  let k := c.ranks r
  let refDoneAt := c.now + p.tRFC
  if k.numBanksActive ≠ 0 then .error .refreshBanksActive
  else if k.pwrState ≠ .ref then .error .refreshNotRef
  else if k.refreshDueAt + p.tREFI < refDoneAt then .error .refreshTooLate
  else
    ((c.setRank r (k.mapBanks fun _ bank => { bank with actAllowedAt := refDoneAt })).schedule
      (.refresh r) (k.refreshDueAt + p.tREFI - p.tRP)).bind fun c =>
        if c.scheduled (.power r) then .error .refreshPowerPending
        else c.schedulePowerEvent r .idle refDoneAt

def processRefreshEvent (c : Channel) (r : ℕ) : Except Abort Channel :=
  match (c.ranks r).refreshState with
  | .idle =>
    refreshDrain (c.setRank r { c.ranks r with refreshDueAt := c.now, refreshState := .drain })
  | .drain => refreshDrain c
  | .pre => c.refreshPre p r
  | .run => c.refreshRun p r
where
  /-- In `REF_DRAIN`, a request being handled goes first. -/
  refreshDrain (c : Channel) : Except Abort Channel :=
    if r = c.activeRank ∧ c.scheduled .nextReq then .ok c
    else (c.setRefreshState r .pre).refreshPre p r

def processPowerEvent (c : Channel) (r : ℕ) : Except Abort Channel :=
  let prevState := (c.ranks r).pwrState
  let c := c.setRank r { c.ranks r with pwrState := (c.ranks r).pwrStateTrans }
  match (c.ranks r).pwrState with
  | .idle =>
    if prevState = .ref then
      let c := c.setRefreshState r .idle
      if c.scheduled .nextReq then .ok c else c.schedule .nextReq c.now
    else if prevState ≠ .act then .error .powerNotAct
    else if (c.ranks r).refreshState = .run then
      if c.scheduled (.power r) then .error .powerPending
      else (c.setRank r { c.ranks r with pwrState := .ref }).processRefreshEvent p r
    else .ok c
  | .ref =>
    if (c.ranks r).refreshState ≠ .run then .error .powerNotRun else c.processRefreshEvent p r
  | _ => .ok c

end Channel

end ShifDram
