import ShifDram.Dram.Banks
import ShifDram.Dram.Ctrl

/-!
What the controller's functions do to its queues, each described once by the state it leaves.
-/

namespace ShifDram

open List

namespace DRAMCtrl

open Fallible

variable {p : DRAMParams} {s s' : DRAMCtrl} {n : ℕ} {d : DRAMPacket} {pkt : Packet} {pktCount : ℕ}
  {P : Abort → Prop} {switched : Bool} {c : Channel} {s₁ s₂ s₃ : DRAMCtrl} {a : Act} {addr size : ℕ}
  {accepted : Bool} {isRead : Bool} {delay : ℕ}

/-- The respond event, a response's sending, or the request event is set. -/
inductive FrontSet (c : Channel) : Channel → Prop
  | respond (t : ℕ) (h : c.now ≤ t) : FrontSet c { c with agenda := c.agenda.set t .respond }
  | response (n t : ℕ) (h : c.now ≤ t) :
      FrontSet c { c with agenda := c.agenda.set t (.response n) }
  | kick (h : c.agenda.when? .nextReq = none) :
      FrontSet c { c with agenda := c.agenda.set c.now .nextReq }

lemma kick_ok (h : s.kick = .ok s') :
    ∃ chan, s' = { s with chan := chan } ∧ Relation.ReflTransGen FrontSet s.chan chan := by
  rw [kick] at h
  split_ifs at h
  · exact ⟨s.chan, (Except.ok.inj h).symm, .refl⟩
  · obtain ⟨chan, hschedule, rfl⟩ := map_ok h
    obtain ⟨-, hnone, rfl⟩ := Channel.schedule_ok hschedule
    exact ⟨_, rfl, .single (.kick hnone)⟩

/-- The state in which packet `n` has been answered. -/
def responded (s : DRAMCtrl) (n : ℕ) (chan : Channel) (mem : AbstractMemory) : DRAMCtrl :=
  { s with chan := chan, mem := mem, log := .respond n :: s.log }

lemma accessAndRespond_ok {latency : ℕ} (h : s.accessAndRespond n latency = .ok s') :
    ∃ chan mem, s' = s.responded n chan mem ∧ Relation.ReflTransGen FrontSet s.chan chan := by
  rw [accessAndRespond] at h
  split at h
  · cases h
  · split at h
    · cases h
    · next mem pkt _ =>
      dsimp only at h
      split_ifs at h
      · exact ⟨s.chan, mem, (Except.ok.inj h).symm, .refl⟩
      · refine ⟨_, mem, (Except.ok.inj h).symm, .single (.response n _ ?_)⟩
        omega

/-- Rank, bank and row are the channel's, and so is the bank's number. -/
def InRange (p : DRAMParams) (d : DRAMPacket) : Prop :=
  d.rank < p.ranksPerChannel ∧ d.bank < p.banksPerRank ∧ d.row < p.rowsPerBank ∧
    d.bankId = (p.banksPerRank * d.rank + d.bank) % 2 ^ 16

/-- A packet that `decodeAddr` has made. -/
structure Decoded (p : DRAMParams) (n : ℕ) (isRead : Bool) (d : DRAMPacket) : Prop where
  number : d.pkt = n
  isRead : d.isRead = isRead
  rowOp : d.rowOp = none
  range : InRange p d

lemma meets_decodeAddr (h : P .decodeRange) :
    Meets P (fun d => Decoded p n isRead d ∧ d.addr = addr) (s.decodeAddr p n addr size isRead) :=
  .ite (fun hrange => ⟨⟨rfl, rfl, rfl, hrange.1, hrange.2.1, hrange.2.2.1, rfl⟩, rfl⟩) fun _ => h

lemma decodeAddr_ok
    (h : s.decodeAddr p n addr size isRead = .ok d) : Decoded p n isRead d ∧ d.addr = addr :=
  (meets_decodeAddr (P := fun _ => True) trivial).result h

/-! ### The outcomes of a request event -/

/-- The request event is scheduled as soon as allowed, if it is not. -/
def NextScheduled (c c' : Channel) : Prop :=
  c.agenda.when? .nextReq ≠ none ∧ c' = c ∨ c.agenda.when? .nextReq = none ∧
      c' = { c with agenda := c.agenda.set (max c.nextReqTime c.now) .nextReq }

def RespondSet (c c' : Channel) : Prop :=
  c' = c ∨ ∃ x, c.now ≤ x ∧ c' = { c with agenda := c.agenda.set x .respond }

def drainRanks (p : DRAMParams) (c : Channel) : Except Abort Channel :=
  (List.range p.ranksPerChannel).foldlM
    (fun (c : Channel) r => if (c.ranks r).isAvailable then .ok c else c.checkDrainDone r) c

lemma scheduleNext_ok (h : s.scheduleNext p = .ok s') :
    ∃ chan retry, s' = { s with chan := chan, retryWrReq := retry } ∧
      NextScheduled s.chan chan := by
  obtain ⟨chan, hchan, rfl⟩ := map_ok h
  refine ⟨chan, _, rfl, ?_⟩
  split_ifs at hchan with hscheduled
  · exact Or.inl ⟨Option.isSome_iff_ne_none.mp hscheduled, (Except.ok.inj hchan).symm⟩
  · obtain ⟨-, hnone, rfl⟩ := Channel.schedule_ok hchan
    exact Or.inr ⟨hnone, rfl⟩

def issued (s : DRAMCtrl) (d : DRAMPacket) (chan : Channel) : DRAMCtrl :=
  { s with
    chan := chan
    pendingRowOps := if d.isRowOp then s.pendingRowOps - 1 else s.pendingRowOps
    writesThisTime := if !d.isRowOp && !d.isRead then s.writesThisTime + 1 else s.writesThisTime
    log := .issue d :: s.log }

lemma issue_ok {behind : List DRAMPacket} {bubble : ℕ} {d' : DRAMPacket}
    (h : issue p s d behind switched bubble = .ok (s', d')) :
    ∃ chan t, ∃ n ≤ bubble, d' = { d with readyTime := t } ∧ s' = s.issued d' chan ∧
      { s.chan with busBusyUntil := s.chan.busBusyUntil + n }.doDRAMAccess p d behind =
        .ok (chan, t) := by
  obtain ⟨⟨chan, t⟩, haccess, hres⟩ := map_ok h
  cases hres
  split_ifs at haccess
  · exact ⟨chan, t, bubble, le_rfl, rfl, rfl, haccess⟩
  · exact ⟨chan, t, 0, Nat.zero_le _, rfl, rfl, haccess⟩

lemma queueResponse_ok (h : s.queueResponse p d = .ok s') :
    ∃ chan, s' = { s with chan := chan, respQueue := s.respQueue ++ [d] } ∧
      RespondSet s.chan chan ∧ chan.agenda.when? .respond ≠ none := by
  rw [queueResponse] at h
  split_ifs at h
  obtain ⟨chan, hchan, rfl⟩ := map_ok h
  refine ⟨chan, rfl, ?_⟩
  rw [scheduleRespond] at hchan
  split at hchan
  · split_ifs at hchan
    obtain ⟨hle, -, rfl⟩ := Channel.schedule_ok hchan
    exact ⟨Or.inr ⟨_, hle, rfl⟩, by simp⟩
  · split_ifs at hchan with horder hscheduled
    cases hchan
    rw [Bool.not_eq_true', Bool.not_eq_false] at hscheduled
    exact ⟨Or.inl rfl, Option.isSome_iff_ne_none.mp hscheduled⟩

/-- The state in which a request event serves: a turn is completed. -/
def turned : BusState → BusState
  | .readToWrite => .write
  | .writeToRead => .read
  | state => state

structure SameQueues (s s' : DRAMCtrl) : Prop where
  readQueue : s'.readQueue = s.readQueue
  writeQueue : s'.writeQueue = s.writeQueue
  respQueue : s'.respQueue = s.respQueue
  isInWriteQueue : s'.isInWriteQueue = s.isInWriteQueue
  pendingRowOps : s'.pendingRowOps = s.pendingRowOps
  helpers : s'.helpers = s.helpers
  arrivals : s'.arrivals = s.arrivals
  log : s'.log = s.log

lemma sameQueues_with (s : DRAMCtrl) (chan : Channel) (rd wr : Bool) (bus : BusState) (writes : ℕ)
    (drain : DrainState) (control : Bool) :
    SameQueues s { s with
      chan := chan, retryRdReq := rd, retryWrReq := wr, busState := bus, writesThisTime := writes,
      drainState := drain, control := control } :=
  ⟨rfl, rfl, rfl, rfl, rfl, rfl, rfl, rfl⟩

/-- A request event: nothing to serve; no read; a read burst issued, awaiting its response; a write
burst or row op issued. -/
inductive Served (p : DRAMParams) (s s' : DRAMCtrl) : Prop
  | stall (same : SameQueues s s')
      (bus : s'.busState = s.busState ∨ s'.busState = turned s.busState)
  | idle (same : SameQueues s s') (hturned : turned s.busState = .read)
      (bus : s'.busState = .read ∨ s'.busState = .readToWrite)
  | read (front back : List DRAMPacket) (d : DRAMPacket) (t : ℕ)
      (hturned : turned s.busState = .read) (hqueue : s.readQueue = front ++ d :: back)
      (same : SameQueues { s with
          readQueue := front ++ back
          respQueue := s.respQueue ++ [{ d with readyTime := t }]
          pendingRowOps := if d.isRowOp then s.pendingRowOps - 1 else s.pendingRowOps
          log := .issue { d with readyTime := t } :: s.log } s')
      (bus : s'.busState = .readToWrite ∨ s'.busState = .read ∧ s'.pendingRowOps ≤ 0)
      (hrespond : s'.chan.agenda.when? .respond ≠ none)
  | write (front back : List DRAMPacket) (d : DRAMPacket) (t : ℕ)
      (hturned : turned s.busState = .write) (hqueue : s.writeQueue = front ++ d :: back)
      (same : SameQueues { s with
          writeQueue := front ++ back
          isInWriteQueue := s.isInWriteQueue.erase (p.burstAlign d.addr)
          pendingRowOps := if d.isRowOp then s.pendingRowOps - 1 else s.pendingRowOps
          log := .issue { d with readyTime := t } :: s.log } s')
      (bus : s'.busState = .write ∨ s'.busState = .writeToRead ∧ s'.pendingRowOps = 0)

/-- A request event, for the channel: drained ranks go on; then nothing is served, the event is set
again, or a packet is issued to an available rank. -/
inductive ChanServed (p : DRAMParams) (queued : DRAMPacket → Prop) (c c' : Channel) : Prop
  | stall (hdrain : drainRanks p c = .ok c')
  | idle (c₁ : Channel) (hdrain : drainRanks p c = .ok c₁) (hnext : NextScheduled c₁ c')
  | access (c₁ c₂ c₃ : Channel) (d : DRAMPacket) (behind : List DRAMPacket) (bubble t : ℕ)
      (hdrain : drainRanks p c = .ok c₁) (hd : queued d)
      (hidle : (c₁.ranks d.rank).refreshState = .idle)
      (hbubble : bubble ≤ max (p.tWTR + p.tCL) p.tRTW)
      (haccess : { c₁ with busBusyUntil := c₁.busBusyUntil + bubble }.doDRAMAccess p d behind =
        .ok (c₂, t))
      (hrespond : RespondSet c₂ c₃) (hnext : NextScheduled c₃ c')

def Queued (s : DRAMCtrl) (d : DRAMPacket) : Prop := d ∈ s.readQueue ∨ d ∈ s.writeQueue

lemma isAvailable_iff {k : Rank} : k.isAvailable = true ↔ k.refreshState = .idle := by
  simp [Rank.isAvailable]

lemma readIdle_ok (hbus : s.busState = .read) (h : s.readIdle p = .ok s')
    (hdrain : drainRanks p c = .ok s.chan) :
    SameQueues s s' ∧ (s'.busState = .read ∨ s'.busState = .readToWrite) ∧
      ChanServed p (Queued s) c s'.chan := by
  rw [readIdle] at h
  split_ifs at h
  · obtain ⟨chan, retry, rfl, hnext⟩ := scheduleNext_ok h
    exact ⟨sameQueues_with s _ _ _ _ _ _ _, Or.inr rfl, .idle s.chan hdrain hnext⟩
  · cases h
    exact ⟨sameQueues_with s _ _ _ _ _ _ _, Or.inl hbus, .stall hdrain⟩
  · cases h
    exact ⟨sameQueues_with s _ _ _ _ _ _ _, Or.inl hbus, .stall hdrain⟩

lemma NextScheduled.ne_none {e : DRAMEvent} {c' : Channel} (h : NextScheduled c c')
    (he : c.agenda.when? e ≠ none) : c'.agenda.when? e ≠ none := by
  rcases h with ⟨-, rfl⟩ | ⟨-, rfl⟩
  · exact he
  · exact Agenda.when?_set_ne_none he

lemma serveRead_chosen {queue : List DRAMPacket} (hbus : s.busState = .read)
    (h : s.serveRead p switched = .ok s') (hdrain : drainRanks p c = .ok s.chan)
    (hchoose : s.chan.chooseNext p s.readQueue (if switched then p.tCS else 0) =
      .ok (true, queue)) :
    (∃ front back d t, s.readQueue = front ++ d :: back ∧ SameQueues { s with
        readQueue := front ++ back
        respQueue := s.respQueue ++ [{ d with readyTime := t }]
        pendingRowOps := if d.isRowOp then s.pendingRowOps - 1 else s.pendingRowOps
        log := .issue { d with readyTime := t } :: s.log } s' ∧
      (s'.busState = .readToWrite ∨ s'.busState = .read ∧ s'.pendingRowOps ≤ 0) ∧
      s'.chan.agenda.when? .respond ≠ none) ∧ ChanServed p (Queued s) c s'.chan := by
  obtain ⟨hfound, -⟩ | ⟨-, front, d, back, hqueue, rfl, havail⟩ := Channel.chooseNext_eq_ok hchoose
  · cases hfound
  have hempty : s.readQueue ≠ [] := by simp [hqueue]
  rw [serveRead, if_neg hempty, hchoose] at h
  simp only [Except.bind, havail, Bool.not_true, Bool.false_eq_true, if_false] at h
  obtain ⟨⟨s₁, d₁⟩, hissue, h⟩ := bind_ok h
  obtain ⟨chan, t, n, hn, rfl, rfl, haccess⟩ := issue_ok hissue
  obtain ⟨s₂, hresp, h⟩ := bind_ok h
  obtain ⟨chan', rfl, hrespond, hscheduled⟩ := queueResponse_ok hresp
  have hd : Queued s d := Or.inl (hqueue ▸ mem_append_right _ mem_cons_self)
  have hchan : ∀ {c'}, NextScheduled chan' c' → ChanServed p (Queued s) c c' := fun hnext =>
    .access s.chan chan chan' d _ n t hdrain hd (isAvailable_iff.mp havail)
      (hn.trans (le_max_left _ _)) haccess hrespond hnext
  -- the bus turns to writes, or no row op is pending
  by_cases hswitch : p.writeHighThreshold < s.writeQueue.length ∨
      0 < if d.isRowOp then s.pendingRowOps - 1 else s.pendingRowOps
  · replace h := (congrArg (scheduleNext p) (if_pos hswitch)).symm.trans h
    obtain ⟨chan'', retry, rfl, hnext⟩ := scheduleNext_ok h
    exact ⟨⟨front, back, d, t, hqueue, sameQueues_with _ _ _ _ _ _ _ _, Or.inl rfl,
      hnext.ne_none hscheduled⟩, hchan hnext⟩
  · replace h := (congrArg (scheduleNext p) (if_neg hswitch)).symm.trans h
    obtain ⟨chan'', retry, rfl, hnext⟩ := scheduleNext_ok h
    exact ⟨⟨front, back, d, t, hqueue, sameQueues_with _ _ _ _ _ _ _ _,
      Or.inr ⟨hbus, not_lt.mp fun hpos => hswitch (Or.inr hpos)⟩, hnext.ne_none hscheduled⟩,
      hchan hnext⟩

/-- Serving a read, with the bus turned to reads. -/
lemma serveRead_ok (hbus : s.busState = .read)
    (h : s.serveRead p switched = .ok s') (hdrain : drainRanks p c = .ok s.chan) :
    Served p s s' ∧ ChanServed p (Queued s) c s'.chan := by
  have hturned : turned s.busState = .read := by rw [hbus]; rfl
  have hok := h
  rw [serveRead] at h
  by_cases hempty : s.readQueue = []
  · rw [if_pos hempty] at h
    obtain ⟨hsame, hbus', hserved⟩ := readIdle_ok hbus h hdrain
    exact ⟨.idle hsame hturned hbus', hserved⟩
  · rw [if_neg hempty] at h
    obtain ⟨⟨found, queue⟩, hchoose, h⟩ := bind_ok h
    cases found with
    | false =>
      obtain ⟨-, rfl⟩ | ⟨hfound, -⟩ := Channel.chooseNext_eq_ok hchoose
      · cases h
        exact ⟨.stall (sameQueues_with s _ _ _ _ _ _ _) (Or.inl rfl), .stall hdrain⟩
      · cases hfound
    | true =>
      obtain ⟨⟨front, back, d, t, hqueue, hsame, hbus', hrespond⟩, hserved⟩ :=
        serveRead_chosen hbus hok hdrain hchoose
      exact ⟨.read front back d t hturned hqueue hsame hbus' hrespond, hserved⟩

/-- Serving a write, with the bus turned to writes. -/
lemma serveWrite_ok (hbus : s.busState = .write)
    (h : s.serveWrite p switched = .ok s') (hdrain : drainRanks p c = .ok s.chan) :
    Served p s s' ∧ ChanServed p (Queued s) c s'.chan := by
  have hturned : turned s.busState = .write := by rw [hbus]; rfl
  obtain ⟨⟨found, queue⟩, hchoose, h⟩ := bind_ok h
  rcases Channel.chooseNext_eq_ok hchoose with
    ⟨rfl, rfl⟩ | ⟨rfl, front, d, back, hqueue, rfl, havail⟩
  · cases h
    exact ⟨.stall (sameQueues_with s _ _ _ _ _ _ _) (Or.inl rfl), .stall hdrain⟩
  · simp only [havail, Bool.not_true, Bool.false_eq_true, if_false] at h
    split_ifs at h
    obtain ⟨⟨s₁, d₁⟩, hissue, h⟩ := bind_ok h
    obtain ⟨chan, t, n, hn, rfl, rfl, haccess⟩ := issue_ok hissue
    have hd : Queued s d := Or.inr (hqueue ▸ mem_append_right _ mem_cons_self)
    have hchan : ∀ {c'}, NextScheduled chan c' → ChanServed p (Queued s) c c' := fun hnext =>
      .access s.chan chan chan d _ n t hdrain hd (isAvailable_iff.mp havail)
        (hn.trans (le_max_right _ _)) haccess (Or.inl rfl) hnext
    split at h
    · next hback =>
      obtain ⟨chan', retry, rfl, hnext⟩ := scheduleNext_ok h
      rw [backToReads, Bool.and_eq_true, decide_eq_true_eq] at hback
      exact ⟨.write front back d t hturned hqueue (sameQueues_with _ _ _ _ _ _ _ _)
        (Or.inr ⟨rfl, hback.1⟩), hchan hnext⟩
    · obtain ⟨chan', retry, rfl, hnext⟩ := scheduleNext_ok h
      exact ⟨.write front back d t hturned hqueue (sameQueues_with _ _ _ _ _ _ _ _) (Or.inl hbus),
        hchan hnext⟩

/-- An outcome does not depend on the channel, on control, or on a completed turn. -/
lemma Served.of_turned {chan : Channel} {state : BusState} {writes : ℕ} {control : Bool}
    (hstate : state = s.busState ∨ state = turned s.busState)
    (h : Served p
      { s with chan := chan, busState := state, writesThisTime := writes, control := control } s') :
    Served p s s' := by
  have hturned : turned state = turned s.busState := by
    rcases hstate with rfl | rfl
    · rfl
    · cases s.busState <;> rfl
  cases h with
  | stall same bus =>
    refine .stall ⟨same.1, same.2, same.3, same.4, same.5, same.6, same.7, same.8⟩ ?_
    rcases bus with bus | bus
    · exact hstate.imp bus.trans bus.trans
    · exact Or.inr (bus.trans hturned)
  | idle same h bus =>
    exact .idle ⟨same.1, same.2, same.3, same.4, same.5, same.6, same.7, same.8⟩
      (hturned.symm.trans h) bus
  | read front back d t h hqueue same bus hrespond =>
    exact .read front back d t (hturned.symm.trans h) hqueue
      ⟨same.1, same.2, same.3, same.4, same.5, same.6, same.7, same.8⟩ bus hrespond
  | write front back d t h hqueue same bus =>
    exact .write front back d t (hturned.symm.trans h) hqueue
      ⟨same.1, same.2, same.3, same.4, same.5, same.6, same.7, same.8⟩ bus

lemma Served.of_takeEvent {e : DRAMEvent} {t : ℕ} (h : Served p (s.takeEvent e t) s') :
    Served p s s' :=
  Served.of_turned (Or.inl rfl) h

/-- **A request event has one of these outcomes.** -/
theorem processNextReqEvent_ok (h : s.processNextReqEvent p = .ok s') :
    Served p s s' ∧ ChanServed p (Queued s) s.chan s'.chan := by
  obtain ⟨s₁, hbusy, h⟩ := bind_ok h
  obtain ⟨chan, hdrain, rfl⟩ := map_ok hbusy
  split_ifs at h
  · cases h
    exact ⟨.stall (sameQueues_with s _ _ _ _ _ _ _) (Or.inl rfl), .stall hdrain⟩
  · cases hbus : s.busState with
    | read | writeToRead =>
      simp only [hbus] at h
      exact (serveRead_ok rfl h hdrain).imp_left (.of_turned (Or.inr (by rw [hbus]; rfl)))
    | write | readToWrite =>
      simp only [hbus] at h
      exact (serveWrite_ok rfl h hdrain).imp_left (.of_turned (Or.inr (by rw [hbus]; rfl)))

lemma Served.queued (h : Served p s s') (hd : Queued s' d) : Queued s d := by
  cases h with
  | stall same | idle same => rwa [Queued, same.readQueue, same.writeQueue] at hd
  | read front back q t _ hqueue same =>
    rw [Queued, same.readQueue, same.writeQueue] at hd
    exact hd.imp_left fun hd => hqueue ▸ ((sublist_cons_self q back).append_left front).mem hd
  | write front back q t _ hqueue same =>
    rw [Queued, same.readQueue, same.writeQueue] at hd
    exact hd.imp_right fun hd => hqueue ▸ ((sublist_cons_self q back).append_left front).mem hd

/-! ### Packets on the queues -/

/-- The burst helpers with one for packet `n`, if it is split. -/
def withHelper (s : DRAMCtrl) (n pktCount : ℕ) : ℕ → Option BurstHelper :=
  if 1 < pktCount ∧ s.helpers n = none then Function.update s.helpers n (some ⟨pktCount, 0⟩)
  else s.helpers

def withRead (s : DRAMCtrl) (pktCount : ℕ) (d : DRAMPacket) : DRAMCtrl :=
  { s with
    helpers := s.withHelper d.pkt pktCount
    readQueue := s.readQueue ++ [{ d with helper := (s.withHelper d.pkt pktCount d.pkt).isSome }]
    log := .enqueue d.pkt d.addr :: s.log }

/-- The loop over a read's bursts; `Q` is about those to come, the next address, the state and the
number found. -/
lemma meets_addReadBursts {Q : ℕ → ℕ → DRAMCtrl → ℕ → Prop}
    {pktCount cnt addr k : ℕ} (hdecode : P .decodeRange)
    (hfull : ∀ cnt addr s k, Q (cnt + 1) addr s k → s.readQueueFull p 1 = true → P .readQueueFull)
    (hfound : ∀ cnt addr s k, Q (cnt + 1) addr s k →
      Q cnt (p.nextBurst addr) { s with log := .found n addr :: s.log } (k + 1))
    (hread : ∀ cnt s k d, Q (cnt + 1) d.addr s k → Decoded p n true d →
      Q cnt (p.nextBurst d.addr) (s.withRead pktCount d) k)
    (hs : Q cnt addr s k) :
    Meets P (fun x => ∃ addr, Q 0 addr x.1 x.2) (addReadBursts p n pkt pktCount cnt addr s k) := by
  induction cnt generalizing addr s k with
  | zero => exact ⟨addr, hs⟩
  | succ cnt ih =>
    refine Meets.bind
      (S := fun x => Q cnt (p.nextBurst addr) x.1 (if x.2 then k + 1 else k)) ?_ fun x hx => ih hx
    refine .ite (fun _ => hfound cnt addr s k hs) fun _ => ?_
    have hmade : (if 1 < pktCount ∧ s.helpers n = none then
        { s with helpers := Function.update s.helpers n (some ⟨pktCount, 0⟩) } else s) =
        { s with helpers := s.withHelper n pktCount } := by
      rw [withHelper]
      split_ifs <;> rfl
    rw [hmade]
    refine Meets.bind (meets_decodeAddr hdecode) ?_
    rintro d ⟨hd, rfl⟩
    refine .ite (fun h => hfull cnt d.addr s k hs h) fun _ => ?_
    obtain rfl := hd.number
    exact hread cnt s k d hs hd

structure IsRowOp (n : ℕ) (pkt : Packet) (d : DRAMPacket) : Prop where
  number : d.pkt = n
  addr : d.addr = pkt.rowOp.dest
  isRead : d.isRead = false
  rowOp : d.rowOp = some pkt.rowOp.op

def withRowOp (s : DRAMCtrl) (d : DRAMPacket) : DRAMCtrl :=
  { s with
    writeQueue := s.writeQueue ++ [d]
    pendingRowOps := s.pendingRowOps + 1
    log := .enqueueRowOp d.pkt :: s.log }

def withWrite (p : DRAMParams) (s : DRAMCtrl) (d : DRAMPacket) : DRAMCtrl :=
  { s with
    writeQueue := s.writeQueue ++ [d]
    isInWriteQueue := insert (p.burstAlign d.addr) s.isInWriteQueue }

lemma addRowOp_ok (h : s.addRowOp p n pkt = .ok s') :
    ∃ d, IsRowOp n pkt d ∧ InRange p d ∧ s' = s.withRowOp d := by
  obtain ⟨d, hd, h⟩ := bind_ok h
  obtain ⟨d₁, -, h⟩ := bind_ok h
  obtain ⟨d₂, -, rfl⟩ := map_ok h
  obtain ⟨⟨rfl, hread, -, hrange⟩, haddr⟩ := decodeAddr_ok hd
  exact ⟨{ d with rowOp := some pkt.rowOp.op, src1Row := d₁.row, src2Row := d₂.row },
    ⟨rfl, haddr, hread, rfl⟩, hrange, rfl⟩

/-- The loop over a write's bursts; `Q` is about those to come and the state. -/
lemma meets_addWriteBursts {Q : ℕ → DRAMCtrl → Prop} {cnt addr : ℕ} (hdecode : P .decodeRange)
    (hfull : ∀ m s, Q (m + 1) s → p.writeBufferSize ≤ s.writeQueue.length → P .writeQueueFull)
    (hmerged : ∀ m s, Q (m + 1) s → Q m s)
    (hwrite : ∀ m s d i, i < cnt → Q (m + 1) s → p.burstAlign d.addr ∉ s.isInWriteQueue →
      Decoded p n false d → p.burstAlign d.addr = (addr / p.burstSize + i) * p.burstSize →
      Q m (s.withWrite p d)) (hs : Q cnt s) :
    Meets P (Q 0) (addWriteBursts p n pkt cnt addr s) := by
  induction cnt generalizing addr s with
  | zero => exact hs
  | succ cnt ih =>
    have hnext : p.nextBurst addr / p.burstSize = addr / p.burstSize + 1 :=
      Nat.mul_div_cancel _ (Nat.two_pow_pos _)
    refine Meets.bind (S := Q cnt) (.ite (fun _ => hmerged cnt s hs) fun hnew => ?_)
      fun s₁ h₁ => ih (fun m s d i hi hQ hnot hd halign =>
        hwrite m s d (i + 1) (by omega) hQ hnot hd ?_) h₁
    · refine Meets.bind (meets_decodeAddr hdecode) ?_
      rintro d ⟨hd, rfl⟩
      exact .ite (fun h => hfull cnt s hs h) fun _ => hwrite cnt s d 0 (by omega) hs hnew hd rfl
    · rw [halign, hnext, add_assoc, add_comm 1 i]

lemma addWriteBursts_ok {P : DRAMCtrl → Prop} {cnt addr : ℕ}
    (hstep : ∀ s d i, i < cnt → P s → p.burstAlign d.addr ∉ s.isInWriteQueue →
      Decoded p n false d → p.burstAlign d.addr = (addr / p.burstSize + i) * p.burstSize →
      P (s.withWrite p d))
    (hs : P s) (h : addWriteBursts p n pkt cnt addr s = .ok s') : P s' :=
  (meets_addWriteBursts (P := fun _ => True) (Q := fun _ => P) trivial (fun _ _ _ _ => trivial)
    (fun _ _ => id) (fun _ => hstep) hs).result h

/-! ### Arrivals -/

lemma addToReadQueue_ok (h : s.addToReadQueue p n pkt pktCount = .ok s') :
    ∃ s₁ serviced, addReadBursts p n pkt pktCount pktCount pkt.addr s 0 = .ok (s₁, serviced) ∧
      ∃ chan, Relation.ReflTransGen FrontSet s₁.chan chan ∧
        (serviced = pktCount ∧ (∃ mem, s' = s₁.responded n chan mem) ∨
          serviced ≠ pktCount ∧ s' = { s₁ with
            chan := chan
            helpers := Function.update s₁.helpers n
              ((s₁.helpers n).map fun helper => { helper with burstsServiced := serviced }) }) := by
  rw [addToReadQueue] at h
  by_cases hwrite : pkt.isWrite = true
  · rw [if_pos hwrite] at h
    cases h
  rw [if_neg hwrite] at h
  by_cases hcount : pktCount = 0
  · rw [if_pos hcount] at h
    cases h
  rw [if_neg hcount] at h
  obtain ⟨⟨s₁, serviced⟩, hbursts, h⟩ := bind_ok h
  refine ⟨s₁, serviced, hbursts, ?_⟩
  dsimp only at h
  by_cases hall : serviced = pktCount
  · rw [if_pos hall] at h
    obtain ⟨chan, mem, rfl, hchan⟩ := accessAndRespond_ok h
    exact ⟨chan, hchan, Or.inl ⟨hall, mem, rfl⟩⟩
  · rw [if_neg hall] at h
    obtain ⟨chan, rfl, hchan⟩ := kick_ok h
    exact ⟨chan, hchan, Or.inr ⟨hall, rfl⟩⟩

lemma addToWriteQueue_ok (h : s.addToWriteQueue p n pkt pktCount = .ok s') :
    ∃ s₁ chan mem, s' = s₁.responded n chan mem ∧ Relation.ReflTransGen FrontSet s₁.chan chan ∧
      (pkt.isRowOp = true ∧ (∃ d, IsRowOp n pkt d ∧ InRange p d ∧ s₁ = s.withRowOp d) ∨
        pkt.isRowOp = false ∧ addWriteBursts p n pkt pktCount pkt.addr s = .ok s₁) := by
  rw [addToWriteQueue] at h
  by_cases hwrite : (!pkt.isWrite) = true
  · rw [if_pos hwrite] at h
    cases h
  rw [if_neg hwrite] at h
  obtain ⟨s₁, hqueue, h⟩ := bind_ok h
  obtain ⟨s₂, hrespond, hkick⟩ := bind_ok h
  obtain ⟨chan, mem, rfl, hchan⟩ := accessAndRespond_ok hrespond
  obtain ⟨chan', rfl, hchan'⟩ := kick_ok hkick
  refine ⟨s₁, chan', mem, rfl, hchan.trans hchan', ?_⟩
  cases hrow : pkt.isRowOp with
  | true =>
    rw [if_pos hrow] at hqueue
    exact Or.inl ⟨rfl, addRowOp_ok hqueue⟩
  | false =>
    rw [hrow, if_neg Bool.false_ne_true] at hqueue
    exact Or.inr ⟨rfl, hqueue⟩

def accept (s : DRAMCtrl) (pkt : Packet) (delay : ℕ) : DRAMCtrl :=
  { s with arrivals := s.arrivals ++ [⟨pkt, delay⟩], log := .accept s.arrivals.length :: s.log }

/-- An arrival is dropped, refused for now, or a read, a write, or neither. -/
inductive Received (p : DRAMParams) (s : DRAMCtrl) (pkt : Packet) (delay : ℕ) :
    DRAMCtrl → Bool → Prop
  | dropped (h : pkt.memInhibit ∨ pkt.cmd = .cleanEvict) : Received p s pkt delay s true
  | refused (rd wr : Bool) :
      Received p s pkt delay { s with retryRdReq := rd, retryWrReq := wr } false
  | read {s' : DRAMCtrl} (hread : pkt.isRead = true)
      (hroom : ¬ s.readQueueFull p (dramPktCount p pkt) = true)
      (h : (s.accept pkt delay).addToReadQueue p s.arrivals.length pkt (dramPktCount p pkt) =
        .ok s') : Received p s pkt delay s' true
  | write {s' : DRAMCtrl} (hread : ¬ pkt.isRead = true) (hwrite : pkt.isWrite = true)
      (hsize : pkt.size ≠ 0) (hroom : ¬ s.writeQueueFull p (dramPktCount p pkt) = true)
      (h : (s.accept pkt delay).addToWriteQueue p s.arrivals.length pkt (dramPktCount p pkt) =
        .ok s') : Received p s pkt delay s' true
  | other (hread : ¬ pkt.isRead = true) (chan : Channel) (mem : AbstractMemory)
      (h : Relation.ReflTransGen FrontSet s.chan chan) :
      Received p s pkt delay ((s.accept pkt delay).responded s.arrivals.length chan mem) true

lemma recvTimingReq_ok (h : s.recvTimingReq p pkt delay = .ok (s', accepted)) :
    Received p s pkt delay s' accepted := by
  unfold recvTimingReq at h
  split_ifs at h with hdrop hread hsize hfull hwrite hsize hfull
  · cases h
    exact .dropped hdrop
  · cases h
    exact .refused true s.retryWrReq
  · obtain ⟨s₁, hadd, hres⟩ := map_ok h
    cases hres
    exact .read hread hfull hadd
  · cases h
    exact .refused s.retryRdReq true
  · obtain ⟨s₁, hadd, hres⟩ := map_ok h
    cases hres
    exact .write hread hwrite hsize hfull hadd
  · obtain ⟨s₁, hrespond, hres⟩ := map_ok h
    cases hres
    obtain ⟨chan, mem, rfl, hchan⟩ := accessAndRespond_ok hrespond
    exact .other hread chan mem hchan

lemma finishBurst_ok (h : s.finishBurst p d = .ok s') : ∃ chan mem helpers new, s' = { s with
        chan := chan, mem := mem, helpers := helpers, log := new ++ .done d.pkt d.addr :: s.log } ∧
      (new = [] ∨ new = [.respond d.pkt]) ∧ Relation.ReflTransGen FrontSet s.chan chan := by
  rw [finishBurst] at h
  split at h
  · obtain ⟨chan, mem, rfl, hchan⟩ := accessAndRespond_ok h
    exact ⟨chan, mem, _, [_], rfl, Or.inr rfl, hchan⟩
  · split at h
    · cases h
    · split at h
      · obtain ⟨s₁, hrespond, rfl⟩ := map_ok h
        obtain ⟨chan, mem, rfl, hchan⟩ := accessAndRespond_ok hrespond
        exact ⟨chan, mem, _, [_], rfl, Or.inr rfl, hchan⟩
      · cases h
        exact ⟨_, _, _, [], rfl, Or.inl rfl, .refl⟩

lemma nextResponse_ok (h : s.nextResponse = .ok s') :
    ∃ chan drain, s' = { s with chan := chan, drainState := drain } ∧
      Relation.ReflTransGen FrontSet s.chan chan := by
  rw [nextResponse] at h
  split at h
  · split_ifs at h
    obtain ⟨chan, hschedule, rfl⟩ := map_ok h
    obtain ⟨hle, -, rfl⟩ := Channel.schedule_ok hschedule
    exact ⟨_, _, rfl, .single (.respond _ hle)⟩
  · cases h
    split_ifs
    · exact ⟨_, _, rfl, .refl⟩
    · exact ⟨_, _, rfl, .refl⟩

lemma processRespondEvent_ok (h : s.processRespondEvent p = .ok s') :
    ∃ d rest s₁ chan drain, s.respQueue = d :: rest ∧ s.finishBurst p d = .ok s₁ ∧ s' = { s₁ with
        chan := chan, respQueue := rest, drainState := drain, retryRdReq := false } ∧
      Relation.ReflTransGen FrontSet s₁.chan chan := by
  rw [processRespondEvent] at h
  split at h
  · cases h
  · next d rest hqueue =>
    obtain ⟨s₁, hfinish, h⟩ := bind_ok h
    obtain ⟨s₂, hnext, rfl⟩ := map_ok h
    obtain ⟨chan, drain, rfl, hchan⟩ := nextResponse_ok hnext
    exact ⟨d, rest, s₁, chan, drain, hqueue, hfinish, rfl, hchan⟩

lemma drain_ok (h : s.drain = .ok s') :
    ∃ chan drain, s' = { s with chan := chan, drainState := drain } ∧
      Relation.ReflTransGen FrontSet s.chan chan := by
  rw [drain] at h
  split_ifs at h
  · cases h
    exact ⟨_, _, rfl, .refl⟩
  · obtain ⟨s₁, hkick, rfl⟩ := map_ok h
    obtain ⟨chan, rfl, hchan⟩ := kick_ok hkick
    exact ⟨chan, _, rfl, hchan⟩
  · obtain ⟨s₁, hkick, rfl⟩ := map_ok h
    cases hkick
    exact ⟨_, _, rfl, .refl⟩

/-- An action, for the queues: an arrival, a request or response event, or nothing. -/
inductive Performed (p : DRAMParams) (s : DRAMCtrl) : Act → DRAMCtrl → Prop
  | arrive {pkt : Packet} {delay : ℕ} {accepted : Bool} {s' : DRAMCtrl}
      (h : Received p s pkt delay s' accepted) : Performed p s (.arrive pkt delay) s'
  | request {t : ℕ} {s' : DRAMCtrl} (h : Served p s s') : Performed p s (.event .nextReq t) s'
  | respond {t : ℕ} {s' : DRAMCtrl} (h : (s.takeEvent .respond t).processRespondEvent p = .ok s') :
      Performed p s (.event .respond t) s'
  | aside {a : Act} (chan : Channel) (control : Bool) (drain : DrainState) :
      Performed p s a { s with chan := chan, control := control, drainState := drain }

lemma perform_ok (h : s.perform p a = .ok s') : Performed p s a s' := by
  cases a with
  | arrive pkt delay =>
    obtain ⟨⟨s₁, accepted⟩, hrecv, rfl⟩ := map_ok h
    exact .arrive (recvTimingReq_ok hrecv)
  | plan id t | resume =>
    cases h
    exact .aside _ s.control _
  | drain =>
    obtain ⟨chan, drain, rfl, -⟩ := drain_ok h
    exact .aside chan s.control drain
  | event e t =>
    change (s.takeEvent e t).handle p e = .ok s' at h
    cases e with
    | nextReq => exact .request (processNextReqEvent_ok h).1.of_takeEvent
    | respond => exact .respond h
    | response n | external id =>
      cases h
      exact .aside _ _ s.drainState
    | activate r | precharge r | refresh r | power r =>
      obtain ⟨chan, -, rfl⟩ := map_ok h
      exact .aside chan _ s.drainState

/-! ### The write side -/

def Cmd.isIssue : Cmd → Bool
  | .issue _ | .enqueueRowOp _ => true
  | _ => false

def IsReadBurst (d : DRAMPacket) : Prop := d.isRead = true ∧ d.rowOp = none

/-- The write side stays, only reads enter the read queue, nothing is issued. -/
structure SameWrites (s s' : DRAMCtrl) : Prop where
  writeQueue : s'.writeQueue = s.writeQueue
  isInWriteQueue : s'.isInWriteQueue = s.isInWriteQueue
  pendingRowOps : s'.pendingRowOps = s.pendingRowOps
  busState : s'.busState = s.busState
  readQueue : ∀ d ∈ s'.readQueue, d ∈ s.readQueue ∨ IsReadBurst d
  arrivals : s.arrivals.length ≤ s'.arrivals.length
  log : ∃ new, s'.log = new ++ s.log ∧ ∀ c ∈ new, Cmd.isIssue c = false

lemma SameWrites.trans (h : SameWrites s₁ s₂) (h' : SameWrites s₂ s₃) :
    SameWrites s₁ s₃ := by
  obtain ⟨new, hnew, hissue⟩ := h.log
  obtain ⟨new', hnew', hissue'⟩ := h'.log
  refine ⟨h'.1.trans h.1, h'.2.trans h.2, h'.3.trans h.3, h'.4.trans h.4, fun d hd => ?_,
    h.arrivals.trans h'.arrivals, new' ++ new, ?_, ?_⟩
  · rcases h'.readQueue d hd with hd | hd
    · exact h.readQueue d hd
    · exact Or.inr hd
  · rw [hnew', hnew, append_assoc]
  · intro c hc
    rcases mem_append.mp hc with hc | hc
    · exact hissue' c hc
    · exact hissue c hc

lemma sameWrites_with (s : DRAMCtrl) (chan : Channel) (mem : AbstractMemory) (rd wr : Bool)
    (resp : List DRAMPacket) (helpers : ℕ → Option BurstHelper) (drain : DrainState)
    (control : Bool) (new : List Cmd) (hnew : ∀ c ∈ new, Cmd.isIssue c = false) :
    SameWrites s { s with
      chan := chan, mem := mem, retryRdReq := rd, retryWrReq := wr, respQueue := resp,
      helpers := helpers, drainState := drain, control := control, log := new ++ s.log } :=
  ⟨rfl, rfl, rfl, rfl, fun _ => Or.inl, le_rfl, new, rfl, hnew⟩

lemma sameWrites_accept (s : DRAMCtrl) (pkt : Packet) (delay : ℕ) :
    SameWrites s (s.accept pkt delay) :=
  ⟨rfl, rfl, rfl, rfl, fun _ => Or.inl, by simp [accept], [_], rfl, by simp [Cmd.isIssue]⟩

lemma sameWrites_responded (s : DRAMCtrl) (n : ℕ) (chan : Channel) (mem : AbstractMemory) :
    SameWrites s (s.responded n chan mem) :=
  sameWrites_with s _ _ _ _ _ _ _ _ [.respond n] (by simp [Cmd.isIssue])

lemma sameWrites_withRead (s : DRAMCtrl) (pktCount : ℕ) (hd : Decoded p n true d) :
    SameWrites s (s.withRead pktCount d) := by
  refine ⟨rfl, rfl, rfl, rfl, fun q hq => ?_, le_rfl, [_], rfl, by simp [Cmd.isIssue]⟩
  refine (mem_append.mp hq).imp_right fun hq => ?_
  obtain rfl := mem_singleton.mp hq
  exact ⟨hd.isRead, hd.rowOp⟩

lemma sameWrites_addToReadQueue (h : s.addToReadQueue p n pkt pktCount = .ok s') :
    SameWrites s s' := by
  obtain ⟨s₁, serviced, hbursts, chan, -, hend⟩ := addToReadQueue_ok h
  obtain ⟨-, hloop⟩ := (meets_addReadBursts (P := fun _ => True)
    (Q := fun _ _ s₁ _ => SameWrites s s₁) trivial (fun _ _ _ _ _ _ => trivial)
    (fun _ addr s₁ _ h₁ => h₁.trans (sameWrites_with s₁ _ _ _ _ _ _ _ _ [.found n addr]
      (by simp [Cmd.isIssue])))
    (fun _ s₁ _ _ h₁ hd => h₁.trans (sameWrites_withRead s₁ pktCount hd))
    (sameWrites_with s _ _ _ _ _ _ _ _ [] (by simp))).result hbursts
  refine hloop.trans ?_
  rcases hend with ⟨-, mem, rfl⟩ | ⟨-, rfl⟩
  · exact sameWrites_responded s₁ n chan mem
  · exact sameWrites_with s₁ _ _ _ _ _ _ _ _ [] (by simp)

lemma sameWrites_processRespondEvent (h : s.processRespondEvent p = .ok s') : SameWrites s s' := by
  obtain ⟨d, rest, s₁, chan, drain, -, hfinish, rfl, -⟩ := processRespondEvent_ok h
  obtain ⟨_, _, _, new, rfl, hnew, -⟩ := finishBurst_ok hfinish
  refine ⟨rfl, rfl, rfl, rfl, fun _ => Or.inl, le_rfl, new ++ [.done d.pkt d.addr], by simp, ?_⟩
  rcases hnew with rfl | rfl <;> simp [Cmd.isIssue]

inductive WriteStep (p : DRAMParams) (s : DRAMCtrl) : Act → DRAMCtrl → Prop
  | quiet {a : Act} {s' : DRAMCtrl} (h : SameWrites s s') : WriteStep p s a s'
  | served {t : ℕ} {s' : DRAMCtrl} (h : Served p s s') : WriteStep p s (.event .nextReq t) s'
  | rowOp {pkt : Packet} {delay : ℕ} {s₁ s' : DRAMCtrl} (d : DRAMPacket)
      (hwrite : pkt.isWrite = true) (hrow : pkt.isRowOp = true)
      (hd : IsRowOp s.arrivals.length pkt d) (h₁ : SameWrites s s₁)
      (hnew : s.arrivals.length < s₁.arrivals.length)
      (h₂ : SameWrites (s₁.withRowOp d) s') : WriteStep p s (.arrive pkt delay) s'
  | write {pkt : Packet} {delay : ℕ} {s₁ s₂ s' : DRAMCtrl}
      (hwrite : pkt.isWrite = true) (hrow : pkt.isRowOp = false) (h₁ : SameWrites s s₁)
      (h : addWriteBursts p s.arrivals.length pkt (dramPktCount p pkt) pkt.addr s₁ = .ok s₂)
      (h₂ : SameWrites s₂ s') : WriteStep p s (.arrive pkt delay) s'

/-- **What an action can do to the write side.** -/
theorem writeStep_perform (h : s.perform p a = .ok s') : WriteStep p s a s' := by
  cases perform_ok h with
  | @arrive pkt delay _ _ hrecv =>
    have haccept := sameWrites_accept s pkt delay
    cases hrecv with
    | dropped | refused =>
      exact .quiet (sameWrites_with s _ _ _ _ _ _ _ _ [] (by simp))
    | read hread hroom hadd => exact .quiet (haccept.trans (sameWrites_addToReadQueue hadd))
    | write hread hwrite hsize hroom hadd =>
      obtain ⟨s₁, chan, mem, rfl, -, hqueue⟩ := addToWriteQueue_ok hadd
      have hafter := sameWrites_responded s₁ s.arrivals.length chan mem
      rcases hqueue with ⟨hrow, d, hd, -, rfl⟩ | ⟨hrow, hbursts⟩
      · exact .rowOp d hwrite hrow hd haccept (by simp [accept]) hafter
      · exact .write hwrite hrow haccept hbursts hafter
    | other hread chan mem => exact .quiet (haccept.trans (sameWrites_responded _ _ chan mem))
  | request hserved => exact .served hserved
  | respond hrespond =>
    exact .quiet ((sameWrites_with s _ _ _ _ _ _ _ _ [] (by simp)).trans
      (sameWrites_processRespondEvent hrespond))
  | aside => exact .quiet (sameWrites_with s _ _ _ _ _ _ _ _ [] (by simp))

/-! ### Arrivals and responses -/

/-- Arrivals and responses: front events are set, the response queue gains nothing, what enters the
others is in range. -/
structure Front (p : DRAMParams) (s s' : DRAMCtrl) : Prop where
  chan : Relation.ReflTransGen FrontSet s.chan s'.chan
  respQueue : ∀ d ∈ s'.respQueue, d ∈ s.respQueue
  queued : ∀ d, Queued s' d → Queued s d ∨ InRange p d

lemma Front.trans (h : Front p s₁ s₂) (h' : Front p s₂ s₃) : Front p s₁ s₃ :=
  ⟨h.chan.trans h'.chan, fun d hd => h.respQueue d (h'.respQueue d hd),
    fun d hd => (h'.queued d hd).elim (h.queued d) Or.inr⟩

lemma front_of_eq (hchan : Relation.ReflTransGen FrontSet s.chan s'.chan)
    (hresp : ∀ d ∈ s'.respQueue, d ∈ s.respQueue) (hread : s'.readQueue = s.readQueue)
    (hwrite : s'.writeQueue = s.writeQueue) : Front p s s' :=
  ⟨hchan, hresp, fun d hd => Or.inl (by rwa [Queued, hread, hwrite] at hd)⟩

lemma front_write (hd : InRange p d) (hchan : s'.chan = s.chan) (hresp : s'.respQueue = s.respQueue)
    (hread : s'.readQueue = s.readQueue) (hwrite : s'.writeQueue = s.writeQueue ++ [d]) :
    Front p s s' := by
  refine ⟨hchan ▸ .refl, fun _ hq => hresp ▸ hq, fun q hq => ?_⟩
  rw [Queued, hread, hwrite, mem_append, mem_singleton, ← or_assoc] at hq
  rcases hq with hq | rfl
  · exact Or.inl hq
  · exact Or.inr hd

lemma front_withRead (s : DRAMCtrl) (pktCount : ℕ) (hd : Decoded p n true d) :
    Front p s (s.withRead pktCount d) := by
  refine ⟨.refl, fun _ => id, fun q hq => ?_⟩
  rcases hq with hq | hq
  · refine (mem_append.mp hq).imp Or.inl fun hq => ?_
    obtain rfl := mem_singleton.mp hq
    exact hd.range
  · exact Or.inl (Or.inr hq)

lemma front_addToReadQueue (h : s.addToReadQueue p n pkt pktCount = .ok s') :
    Front p s s' := by
  obtain ⟨s₁, serviced, hbursts, chan, hchan, hend⟩ := addToReadQueue_ok h
  obtain ⟨-, hloop⟩ := (meets_addReadBursts (P := fun _ => True) (Q := fun _ _ s₁ _ => Front p s s₁)
    trivial (fun _ _ _ _ _ _ => trivial)
    (fun _ _ _ _ h₁ => h₁.trans (front_of_eq .refl (fun _ => id) rfl rfl))
    (fun _ s₁ _ _ h₁ hd => h₁.trans (front_withRead s₁ pktCount hd))
    (front_of_eq .refl (fun _ => id) rfl rfl)).result hbursts
  refine hloop.trans ?_
  rcases hend with ⟨-, mem, rfl⟩ | ⟨-, rfl⟩
  · exact front_of_eq hchan (fun _ => id) rfl rfl
  · exact front_of_eq hchan (fun _ => id) rfl rfl

lemma front_addToWriteQueue (h : s.addToWriteQueue p n pkt pktCount = .ok s') :
    Front p s s' := by
  obtain ⟨s₁, chan, mem, rfl, hchan, hqueue⟩ := addToWriteQueue_ok h
  have hafter : Front p s₁ (s₁.responded n chan mem) := front_of_eq hchan (fun _ => id) rfl rfl
  refine Front.trans ?_ hafter
  rcases hqueue with ⟨-, d, -, hrange, rfl⟩ | ⟨-, hbursts⟩
  · exact front_write hrange rfl rfl rfl rfl
  · exact addWriteBursts_ok (fun _ _ _ _ h₁ _ hd _ =>
      h₁.trans (front_write hd.range rfl rfl rfl rfl))
        (front_of_eq .refl (fun _ => id) rfl rfl) hbursts

lemma Received.front (h : Received p s pkt delay s' accepted) :
    Front p s s' := by
  have haccept : Front p s (s.accept pkt delay) := front_of_eq .refl (fun _ => id) rfl rfl
  cases h with
  | dropped | refused => exact front_of_eq .refl (fun _ => id) rfl rfl
  | read hread hroom hadd => exact haccept.trans (front_addToReadQueue hadd)
  | write hread hwrite hsize hroom hadd => exact haccept.trans (front_addToWriteQueue hadd)
  | other hread chan mem hchan => exact front_of_eq hchan (fun _ => id) rfl rfl

lemma front_drain (h : s.drain = .ok s') : Front p s s' := by
  obtain ⟨chan, drain, rfl, hchan⟩ := drain_ok h
  exact front_of_eq hchan (fun _ => id) rfl rfl

lemma front_processRespondEvent (h : s.processRespondEvent p = .ok s') : Front p s s' := by
  obtain ⟨d, rest, s₁, chan, drain, hqueue, hfinish, rfl, hchan⟩ := processRespondEvent_ok h
  obtain ⟨chan₁, _, _, _, rfl, -, hchan₁⟩ := finishBurst_ok hfinish
  refine front_of_eq (hchan₁.trans hchan) (fun q hq => ?_) rfl rfl
  rw [hqueue]
  exact mem_cons_of_mem _ hq

/-- **What enters the queues** is an arrival's, in range. -/
lemma queued_perform (h : s.perform p a = .ok s') (hd : Queued s' d) :
    Queued s d ∨ (∃ pkt delay, a = .arrive pkt delay) ∧ InRange p d := by
  cases perform_ok h with
  | @arrive pkt delay _ _ hrecv =>
    exact (hrecv.front.queued d hd).imp_right fun hrange => ⟨⟨pkt, delay, rfl⟩, hrange⟩
  | request hserved => exact Or.inl (hserved.queued hd)
  | respond hrespond =>
    obtain ⟨q, rest, s₁, chan, drain, -, hfinish, rfl, -⟩ := processRespondEvent_ok hrespond
    obtain ⟨_, _, _, _, rfl, -, -⟩ := finishBurst_ok hfinish
    exact Or.inl hd
  | aside => exact Or.inl hd

lemma Run.inRange {condition : DRAMCtrl → Act → Prop} (h : Run p condition s) (hd : Queued s d) :
    InRange p d := by
  induction h with
  | start t mem => rcases hd with hd | hd <;> cases hd
  | act _ _ _ hperform ih =>
    rcases queued_perform hperform hd with hd | ⟨-, hrange⟩
    · exact ih hd
    · exact hrange

end DRAMCtrl

end ShifDram
