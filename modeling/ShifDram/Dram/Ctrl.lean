import ShifDram.Dram.Schedule
import ShifDram.Mem.AbstractMem
import ShifDram.Queue.Log

/-!
The DRAM controller (`mem/dram_ctrl.cc`): its queues, the requests that enter it and the two
events that serve them.

Packets are numbered in the order of arrival; the ghost field `log` records, newest first, what
happens to packets and bursts.
-/

namespace ShifDram

inductive BusState where
  | read | readToWrite | write | writeToRead
  deriving DecidableEq, Repr

inductive DrainState where
  | running | draining | drained
  deriving DecidableEq, Repr

/-- What is logged: packet `n` is accepted; its burst at `addr` is found in the write queue, or
enqueued; a DRAM packet is enqueued as a row op, issued, or taken off the response queue; packet `n`
is passed to `accessAndRespond`. -/
inductive Cmd where
  | accept (n : ℕ)
  | found (n addr : ℕ)
  | enqueue (n addr : ℕ)
  | enqueueRowOp (n : ℕ)
  | issue (d : DRAMPacket)
  | done (n addr : ℕ)
  | respond (n : ℕ)
  deriving DecidableEq, Repr

structure Arrival where
  pkt : Packet
  delay : ℕ
  deriving DecidableEq, Repr

/-- `DRAMCtrl`; `control`: the objects around it may act. -/
structure DRAMCtrl where
  chan : Channel
  mem : AbstractMemory
  retryRdReq : Bool
  retryWrReq : Bool
  busState : BusState
  pendingRowOps : ℤ
  readQueue : List DRAMPacket
  writeQueue : List DRAMPacket
  respQueue : List DRAMPacket
  isInWriteQueue : Finset ℕ
  writesThisTime : ℕ
  helpers : ℕ → Option BurstHelper
  arrivals : List Arrival
  drainState : DrainState
  log : List Cmd
  control : Bool

namespace DRAMCtrl

variable (p : DRAMParams)
variable (s : DRAMCtrl) (n : ℕ) (pkt : Packet) (pktCount addr : ℕ)

/-- `decodeAddr`: rank, bank and row of a burst address. -/
def decode (dramPktAddr : ℕ) : ℕ × ℕ × ℕ :=
  let addr := dramPktAddr / p.burstSize
  match p.addrMapping with
  | .roRaBaChCo =>
    let addr := addr / p.columnsPerRowBuffer / p.channels
    (addr / p.banksPerRank % p.ranksPerChannel, addr % p.banksPerRank,
      addr / p.banksPerRank / p.ranksPerChannel % p.rowsPerBank)
  | .roRaBaCoCh =>
    let addr := addr / p.columnsPerStripe / p.channels /
      (p.columnsPerRowBuffer / p.columnsPerStripe)
    (addr / p.banksPerRank % p.ranksPerChannel, addr % p.banksPerRank,
      addr / p.banksPerRank / p.ranksPerChannel % p.rowsPerBank)
  | .roCoRaBaCh =>
    let addr := addr / p.columnsPerStripe / p.channels
    (addr / p.banksPerRank % p.ranksPerChannel, addr % p.banksPerRank,
      addr / p.banksPerRank / p.ranksPerChannel / (p.columnsPerRowBuffer / p.columnsPerStripe) %
        p.rowsPerBank)

/-- `decodeAddr`, with rank and bank in 8 bits and the bank's number in 16. -/
def decodeAddr (dramPktAddr size : ℕ) (isRead : Bool) : Except Abort DRAMPacket :=
  let (rank, bank, row) := decode p dramPktAddr
  let rank := rank % 2 ^ 8
  let bank := bank % 2 ^ 8
  if rank < p.ranksPerChannel ∧ bank < p.banksPerRank ∧ row < p.rowsPerBank ∧ row < 2 ^ 32 - 1 then
    .ok
      { readyTime := s.chan.now, pkt := n, isRead := isRead, rank := rank, bank := bank, row := row
        bankId := (p.banksPerRank * rank + bank) % 2 ^ 16, addr := dramPktAddr, size := size }
  else .error .decodeRange

/-! ### The way in -/

/-- The packet's bytes in the burst at `addr`. -/
def burstBytes : ℕ := min (p.nextBurst addr) (pkt.addr + pkt.size) - addr

def readQueueFull (neededEntries : ℕ) : Bool :=
  p.readBufferSize < s.readQueue.length + s.respQueue.length + neededEntries

def writeQueueFull (neededEntries : ℕ) : Bool :=
  p.writeBufferSize < s.writeQueue.length + neededEntries

/-- Schedule the request event, if it is not. -/
def kick : Except Abort DRAMCtrl :=
  if s.chan.scheduled .nextReq then .ok s
  else (s.chan.schedule .nextReq s.chan.now).map fun chan => { s with chan := chan }

/-- `accessAndRespond`, of packet `n`. -/
def accessAndRespond (staticLatency : ℕ) : Except Abort DRAMCtrl :=
  match s.arrivals[n]? with
  | none => .error .memoryAccess
  | some a =>
    match s.mem.access a.pkt with
    | none => .error .memoryAccess
    | some (mem, pkt) =>
      let s := { s with mem := mem, log := .respond n :: s.log }
      if !a.pkt.needsResponse then .ok s
      else if !pkt.isResponse then .error .notResponse
      else .ok { s with chan := { s.chan with
        agenda := s.chan.agenda.set (s.chan.now + staticLatency + a.delay) (.response n) } }

def foundInWrQ (size : ℕ) : Bool :=
  decide (p.burstAlign addr ∈ s.isInWriteQueue) &&
    s.writeQueue.any fun d => d.addr ≤ addr && addr + size ≤ d.addr + d.size

/-- One read burst: found in the write queue, or queued. -/
def addReadBurst : Except Abort (DRAMCtrl × Bool) :=
  let size := burstBytes p pkt addr
  if s.foundInWrQ p addr size then .ok ({ s with log := .found n addr :: s.log }, true)
  else
    -- the burst helper is made for the first burst that is not found
    let s := if 1 < pktCount ∧ s.helpers n = none then
      { s with helpers := Function.update s.helpers n (some ⟨pktCount, 0⟩) } else s
    (s.decodeAddr p n addr size true).bind fun d =>
      if s.readQueueFull p 1 then .error .readQueueFull
      else .ok ({ s with
        readQueue := s.readQueue ++ [{ d with helper := (s.helpers n).isSome }]
        log := .enqueue n addr :: s.log }, false)

/-- The loop of `addToReadQueue`; it returns `pktsServicedByWrQ`. -/
def addReadBursts (n : ℕ) (pkt : Packet) (pktCount : ℕ) :
    ℕ → ℕ → DRAMCtrl → ℕ → Except Abort (DRAMCtrl × ℕ)
  | 0, _, s, serviced => .ok (s, serviced)
  | cnt + 1, addr, s, serviced =>
    (s.addReadBurst p n pkt pktCount addr).bind fun (s, found) =>
      addReadBursts n pkt pktCount cnt (p.nextBurst addr) s
        (if found then serviced + 1 else serviced)

def addToReadQueue : Except Abort DRAMCtrl :=
  if pkt.isWrite then .error .readIsWrite
  else if pktCount = 0 then .error .noBursts
  else
    (addReadBursts p n pkt pktCount pktCount pkt.addr s 0).bind fun (s, serviced) =>
      if serviced = pktCount then s.accessAndRespond n p.frontendLatency
      else
        let helper := (s.helpers n).map fun h => { h with burstsServiced := serviced }
        kick { s with helpers := Function.update s.helpers n helper }

/-- The row-op branch of `addToWriteQueue`. -/
def addRowOp : Except Abort DRAMCtrl :=
  (s.decodeAddr p n pkt.rowOp.dest 0 false).bind fun d =>
    (s.decodeAddr p n pkt.rowOp.src1 0 false).bind fun d1 =>
      (s.decodeAddr p n pkt.rowOp.src2 0 false).map fun d2 =>
        { s with
          writeQueue := s.writeQueue ++
            [{ d with rowOp := some pkt.rowOp.op, src1Row := d1.row, src2Row := d2.row }]
          pendingRowOps := s.pendingRowOps + 1
          log := .enqueueRowOp n :: s.log }

/-- One write burst: merged with a queued one, or queued. -/
def addWriteBurst : Except Abort DRAMCtrl :=
  if p.burstAlign addr ∈ s.isInWriteQueue then .ok s
  else
    (s.decodeAddr p n addr (burstBytes p pkt addr) false).bind fun d =>
      if p.writeBufferSize ≤ s.writeQueue.length then .error .writeQueueFull
      else .ok { s with
        writeQueue := s.writeQueue ++ [d]
        isInWriteQueue := insert (p.burstAlign addr) s.isInWriteQueue }

def addWriteBursts (n : ℕ) (pkt : Packet) : ℕ → ℕ → DRAMCtrl → Except Abort DRAMCtrl
  | 0, _, s => .ok s
  | cnt + 1, addr, s =>
    (s.addWriteBurst p n pkt addr).bind (addWriteBursts n pkt cnt (p.nextBurst addr))

def addToWriteQueue : Except Abort DRAMCtrl :=
  if !pkt.isWrite then .error .notWrite
  else
    (if pkt.isRowOp then s.addRowOp p n pkt else addWriteBursts p n pkt pktCount pkt.addr s).bind
      fun s => (s.accessAndRespond n p.frontendLatency).bind kick

/-- `divCeil(offset + size, burstSize)`, unsigned 32-bit. -/
def dramPktCount : ℕ := (pkt.addr % p.burstSize + pkt.size + p.burstSize - 1) % 2 ^ 32 / p.burstSize

/-- `recvTimingReq`: whether the packet is accepted. -/
def recvTimingReq (delay : ℕ) : Except Abort (DRAMCtrl × Bool) :=
  if pkt.memInhibit ∨ pkt.cmd = .cleanEvict then .ok (s, true)
  else
    let n := s.arrivals.length
    let s' : DRAMCtrl :=
      { s with arrivals := s.arrivals ++ [⟨pkt, delay⟩], log := .accept n :: s.log }
    if pkt.isRead then
      if pkt.size = 0 then .error .emptyRequest
      else if s.readQueueFull p (dramPktCount p pkt) then .ok ({ s with retryRdReq := true }, false)
      else (s'.addToReadQueue p n pkt (dramPktCount p pkt)).map (·, true)
    else if pkt.isWrite then
      if pkt.size = 0 then .error .emptyRequest
      else if s.writeQueueFull p (dramPktCount p pkt) then
        .ok ({ s with retryWrReq := true }, false)
      else (s'.addToWriteQueue p n pkt (dramPktCount p pkt)).map (·, true)
    else (s'.accessAndRespond n 1).map (·, true)

/-! ### The way through -/

/-- The response queue's head is serviced; the last one responds. -/
def finishBurst (d : DRAMPacket) : Except Abort DRAMCtrl :=
  let s : DRAMCtrl := { s with log := .done d.pkt d.addr :: s.log }
  let latency := p.frontendLatency + p.backendLatency
  if !d.helper then s.accessAndRespond d.pkt latency
  else
    match s.helpers d.pkt with
    | none => .error .helperDeleted
    | some h =>
      if h.burstsServiced + 1 = h.burstCount then
        (s.accessAndRespond d.pkt latency).map fun s =>
          { s with helpers := Function.update s.helpers d.pkt none }
      else .ok { s with
        helpers := Function.update s.helpers d.pkt
          (some { h with burstsServiced := h.burstsServiced + 1 }) }

/-- Schedule the response to the new head of the response queue. -/
def nextResponse : Except Abort DRAMCtrl :=
  match s.respQueue with
  | d :: _ =>
    if d.readyTime < s.chan.now then .error .readyPast
    else if s.chan.scheduled .respond then .error .respondScheduled
    else (s.chan.schedule .respond d.readyTime).map fun chan => { s with chan := chan }
  | [] =>
    .ok (if s.drainState = .draining ∧ s.writeQueue = [] ∧ s.readQueue = [] then
      { s with drainState := .drained } else s)

def processRespondEvent : Except Abort DRAMCtrl :=
  match s.respQueue with
  | [] => .error .respEmpty
  | d :: rest =>
    (s.finishBurst p d).bind fun s =>
      (nextResponse { s with respQueue := rest }).map fun s => { s with retryRdReq := false }

/-- Ranks busy refreshing check if they are done draining. -/
def checkBusyRanks : Except Abort DRAMCtrl :=
  ((List.range p.ranksPerChannel).foldlM (fun (c : Channel) r =>
    if (c.ranks r).isAvailable then .ok c else c.checkDrainDone r) s.chan).map
      fun chan => { s with chan := chan }

/-- `busyRanks == ranksPerChannel`. -/
def allBusy : Bool := (List.range p.ranksPerChannel).all fun r => !(s.chan.ranks r).isAvailable

/-- The end of `processNextReqEvent`. -/
def scheduleNext : Except Abort DRAMCtrl :=
  (if s.chan.scheduled .nextReq then .ok s.chan
    else s.chan.schedule .nextReq (max s.chan.nextReqTime s.chan.now)).map fun chan =>
      { s with
        chan := chan
        retryWrReq := s.retryWrReq && !decide (s.writeQueue.length < p.writeBufferSize) }

/-- A bubble if the bus has turned round on the rank, then `doDRAMAccess`. -/
def issue (s : DRAMCtrl) (d : DRAMPacket) (behind : List DRAMPacket) (switched : Bool)
    (bubble : ℕ) : Except Abort (DRAMCtrl × DRAMPacket) :=
  let chan := if switched ∧ d.rank = s.chan.activeRank then
    { s.chan with busBusyUntil := s.chan.busBusyUntil + bubble } else s.chan
  (chan.doDRAMAccess p d behind).map fun (chan, readyTime) =>
    let d := { d with readyTime := readyTime }
    ({ s with
      chan := chan
      pendingRowOps := if d.isRowOp then s.pendingRowOps - 1 else s.pendingRowOps
      writesThisTime := if !d.isRowOp && !d.isRead then s.writesThisTime + 1 else s.writesThisTime
      log := .issue d :: s.log }, d)

/-- The respond event as a burst enters the response queue. -/
def scheduleRespond (readyTime : ℕ) : Except Abort Channel :=
  match s.respQueue.getLast? with
  | none =>
    if s.chan.scheduled .respond then .error .respondScheduled
    else s.chan.schedule .respond readyTime
  | some back =>
    if readyTime < back.readyTime then .error .respOrder
    else if !s.chan.scheduled .respond then .error .respondNotScheduled
    else .ok s.chan

def queueResponse (d : DRAMPacket) : Except Abort DRAMCtrl :=
  if p.burstSize < d.size then .error .burstTooBig
  else if d.readyTime < s.chan.now then .error .readyPast
  else (s.scheduleRespond d.readyTime).map fun chan =>
    { s with chan := chan, respQueue := s.respQueue ++ [d] }

/-- The state `READ` without a read request. -/
def readIdle : Except Abort DRAMCtrl :=
  if s.writeQueue ≠ [] ∧ (s.drainState = .draining ∨ p.writeLowThreshold < s.writeQueue.length ∨
      0 < s.pendingRowOps) then
    scheduleNext p { s with busState := .readToWrite }
  else
    .ok (if s.drainState = .draining ∧ s.respQueue = [] then
      { s with drainState := .drained } else s)

/-- The state `READ` of `processNextReqEvent`. -/
def serveRead (switched : Bool) : Except Abort DRAMCtrl :=
  if s.readQueue = [] then s.readIdle p
  else
    (s.chan.chooseNext p s.readQueue (if switched then p.tCS else 0)).bind fun (found, queue) =>
      match found, queue with
      | true, d :: rest =>
        if !(s.chan.ranks d.rank).isAvailable then .error .rankBusy
        else
          (issue p { s with readQueue := rest } d rest switched (p.tWTR + p.tCL)).bind
            fun (s, d) => (s.queueResponse p d).bind fun s =>
              scheduleNext p (if p.writeHighThreshold < s.writeQueue.length ∨ 0 < s.pendingRowOps
                then { s with busState := .readToWrite } else s)
      | _, queue => .ok { s with readQueue := queue }

def backToReads : Bool :=
  s.pendingRowOps = 0 && (s.writeQueue.isEmpty ||
    (s.writeQueue.length + p.minWritesPerSwitch < p.writeLowThreshold &&
      s.drainState ≠ .draining) ||
    (!s.readQueue.isEmpty && p.minWritesPerSwitch ≤ s.writesThisTime))

/-- The state `WRITE` of `processNextReqEvent`. -/
def serveWrite (switched : Bool) : Except Abort DRAMCtrl :=
  (s.chan.chooseNext p s.writeQueue (if switched then min p.tRTW p.tCS else 0)).bind
    fun (found, queue) =>
      match found, queue with
      | true, d :: rest =>
        if !(s.chan.ranks d.rank).isAvailable then .error .rankBusy
        else if p.burstSize < d.size then .error .burstTooBig
        else
          (issue p { s with writeQueue := rest } d rest switched p.tRTW).bind fun (s, d) =>
            let s : DRAMCtrl :=
              { s with isInWriteQueue := s.isInWriteQueue.erase (p.burstAlign d.addr) }
            scheduleNext p (if s.backToReads p then { s with busState := .writeToRead } else s)
      | _, queue => .ok { s with writeQueue := queue }

def processNextReqEvent : Except Abort DRAMCtrl :=
  (s.checkBusyRanks p).bind fun s =>
    if s.allBusy p then .ok s
    else
      match s.busState with
      | .readToWrite => serveWrite p { s with busState := .write } true
      | .writeToRead => serveRead p { s with busState := .read, writesThisTime := 0 } true
      | .read => s.serveRead p false
      | .write => s.serveWrite p false

/-! ### Runs -/

inductive Act where
  | arrive (pkt : Packet) (delay : ℕ)
  | plan (id t : ℕ)
  | event (e : DRAMEvent) (t : ℕ)
  | drain
  | resume
  deriving DecidableEq, Repr

def handle : DRAMEvent → Except Abort DRAMCtrl
  | .nextReq => s.processNextReqEvent p
  | .respond => s.processRespondEvent p
  | .response _ | .external _ => .ok s
  | .activate r => (s.chan.processActivateEvent r).map fun chan => { s with chan := chan }
  | .precharge r => (s.chan.processPrechargeEvent r).map fun chan => { s with chan := chan }
  | .refresh r => (s.chan.processRefreshEvent p r).map fun chan => { s with chan := chan }
  | .power r => (s.chan.processPowerEvent p r).map fun chan => { s with chan := chan }

/-- The event hands control to the objects around. -/
def handsOver : DRAMEvent → Bool
  | .nextReq | .respond | .response _ | .external _ => true
  | .activate _ | .precharge _ | .refresh _ | .power _ => false

def drain : Except Abort DRAMCtrl :=
  if s.writeQueue = [] ∧ s.readQueue = [] ∧ s.respQueue = [] then
    .ok { s with drainState := .drained }
  else
    (if s.writeQueue ≠ [] then s.kick else .ok s).map fun s => { s with drainState := .draining }

/-- Take an event off the agenda at tick `t`. -/
def takeEvent (e : DRAMEvent) (t : ℕ) : DRAMCtrl :=
  { s with
    chan := { s.chan with now := t, agenda := s.chan.agenda.remove e }
    control := handsOver e }

def perform : Act → Except Abort DRAMCtrl
  | .arrive pkt delay => (s.recvTimingReq p pkt delay).map Prod.fst
  | .plan id t =>
    .ok { s with chan := { s.chan with agenda := s.chan.agenda.set t (.external id) } }
  | .event e t => (s.takeEvent e t).handle p e
  | .drain => s.drain
  | .resume => .ok { s with drainState := .running }

/-- An event is scheduled, and nothing is in the past. -/
def Enabled : Act → Prop
  | .event e t => s.chan.scheduled e = true ∧ s.chan.now ≤ t
  | .plan _ t => s.chan.now ≤ t
  | .arrive _ _ | .drain | .resume => True

def Ordered : Act → Prop
  | .event e t => s.chan.agenda.entries.head? = some (t, e)
  | _ => s.control = true

/-- The controller after `startup` at tick `start`. -/
def init (start : ℕ) (mem : AbstractMemory) : DRAMCtrl where
  chan :=
    { now := start
      agenda := (List.range p.ranksPerChannel).foldl
        (fun q r => q.set (start + p.tREFI - p.tRP) (.refresh r)) .empty
      ranks := fun _ => .init p
      busBusyUntil := start + p.prepTime
      nextReqTime := 0
      activeRank := 0
      activations := []
      bursts := [] }
  mem := mem
  retryRdReq := false
  retryWrReq := false
  busState := .read
  pendingRowOps := 0
  readQueue := []
  writeQueue := []
  respQueue := []
  isInWriteQueue := ∅
  writesThisTime := 0
  helpers := fun _ => none
  arrivals := []
  drainState := .running
  log := []
  control := true

inductive Run (condition : DRAMCtrl → Act → Prop) : DRAMCtrl → Prop
  | start (start : ℕ) (mem : AbstractMemory) : Run condition (init p start mem)
  | act {s s' : DRAMCtrl} {a : Act} (h : Run condition s) (henabled : s.Enabled a)
      (hcondition : condition s a) (hperform : s.perform p a = .ok s') : Run condition s'

lemma Run.mono {p : DRAMParams} {c c' : DRAMCtrl → Act → Prop} {s : DRAMCtrl} (h : Run p c s)
    (himp : ∀ s a, c s a → c' s a) : Run p c' s := by
  induction h with
  | start t mem => exact .start t mem
  | act _ henabled hcondition hperform ih =>
    exact .act ih henabled (himp _ _ hcondition) hperform

instance (s : DRAMCtrl) (a : Act) : Decidable (s.Enabled a) := by
  cases a <;> unfold Enabled <;> infer_instance

instance (s : DRAMCtrl) (a : Act) : Decidable (s.Ordered a) := by
  cases a <;> unfold Ordered <;> infer_instance

/-- Perform actions in turn, each enabled and in order. -/
def performAll : DRAMCtrl → List Act → Option DRAMCtrl
  | s, [] => some s
  | s, a :: l =>
    if s.Enabled a ∧ s.Ordered a then
      match s.perform p a with
      | .ok s' => performAll s' l
      | .error _ => none
    else none

lemma run_performAll {p : DRAMParams} {s s' : DRAMCtrl} {l : List Act} (hrun : Run p Ordered s)
    (h : performAll p s l = some s') : Run p Ordered s' := by
  induction l generalizing s with
  | nil =>
    cases h
    exact hrun
  | cons a l ih =>
    rw [performAll] at h
    split_ifs at h with hlegal
    split at h
    · next s₁ hperform => exact ih (hrun.act hlegal.1 hlegal.2 hperform) h
    · cases h

end DRAMCtrl

end ShifDram
