import ShifDram.Dram.Queues
import ShifDram.Dram.RankEvents

/-!
Which assertions a function can fail.

The aborts fall into kinds: the front end and the clock, full queues, the banks, the activation
window, the data bus, the order of the response queue, and the power and refresh machines. Each
function is given the kinds it can fail with.
-/

namespace ShifDram

open Fallible List

variable {pktCount : ℕ} {α : Type*} {x : Except Abort α}

inductive Abort.Kind where
  | front | full | bank | window | bus | order | power
  deriving DecidableEq, Repr

def Abort.kind : Abort → Abort.Kind
  | .readQueueFull | .writeQueueFull => .full
  | .actTicksSize | .bankOpen | .tooManyActive | .bankClosed | .noneActive => .bank
  | .windowPanic => .window
  | .busOverlap => .bus
  | .respOrder => .order
  | .powerPanic | .refreshBanksActive | .refreshNotRef | .refreshPowerPending | .powerNotAct
  | .powerPending | .powerNotRun => .power
  | _ => .front

def Fails (kinds : List Abort.Kind) (x : Except Abort α) : Prop :=
  FailsWith (fun e => e.kind ∈ kinds) x

lemma Fails.mono {kinds kinds' : List Abort.Kind} (h : Fails kinds x) (hsub : kinds ⊆ kinds') :
    Fails kinds' x :=
  FailsWith.mono h fun _ he => hsub he

lemma Fails.of_front {P : Abort → Prop} (h : Fails [.front] x)
    (hP : ∀ e : Abort, e.kind = .front → P e) : FailsWith P x :=
  FailsWith.mono h fun e he => hP e (mem_singleton.mp he)

lemma Fails.ne {kinds : List Abort.Kind} {e : Abort} (h : Fails kinds x) (he : e.kind ∉ kinds) :
    x ≠ .error e := fun hx => he (h e hx)

namespace Channel

variable (p : DRAMParams) (c : Channel) (r b t row : ℕ) (e : DRAMEvent) (d : DRAMPacket)

lemma fails_schedule : Fails [.front] (c.schedule e t) :=
  .guard (by decide) fun _ => .guard (by simp [Abort.kind]) fun _ => .ok _

lemma fails_reschedule : Fails [.front] (c.reschedule e t) := .guard (by decide) fun _ => .ok _

lemma fails_scheduleActivate : Fails [.front] (c.scheduleActivate r t) := by
  rw [scheduleActivate]
  split
  · exact fails_schedule c t _
  · exact .when fun _ => fails_reschedule c t _

lemma fails_schedulePrecharge : Fails [.front] (c.schedulePrecharge r t) := by
  rw [schedulePrecharge]
  split
  · exact fails_schedule c t _
  · exact .when fun _ => fails_reschedule c t _

lemma fails_schedulePowerEvent (state : PowerState) :
    Fails [.front, .power] (c.schedulePowerEvent r state t) :=
  .guard (by decide) fun _ => .guard (by decide) fun _ => (fails_schedule _ t _).mono (by simp)

lemma fails_openBank (k : Rank) : Fails [.bank] (k.openBank p b row) :=
  .guard (by decide) fun _ => .guard (by decide) fun _ => .ok _

lemma fails_activate (k : Rank) : Fails [.bank, .window] (k.activate p b t row) := by
  refine .guard (by decide) fun _ => ?_
  refine FailsWith.bind ((fails_openBank p b row k).mono (by simp)) fun k' _ => ?_
  exact .skip fun _ => .guard (by decide) fun _ => .ok _

lemma fails_prechargeBank : Fails [.front, .bank] (c.prechargeBank p r b t) := by
  refine FailsWith.bind ?_ fun k _ => (fails_schedulePrecharge _ r _).mono (by simp)
  exact .guard (by decide) fun _ => .guard (by decide) fun _ => .ok _

lemma fails_activateBank : Fails [.front, .bank, .window] (c.activateBank p r b t row) :=
  FailsWith.bind ((fails_activate p b t row _).mono (by simp)) fun _ _ =>
    (fails_scheduleActivate _ r t).mono (by simp)

lemma fails_closePage : Fails [.front, .bank] (c.closePage p r b) :=
  .skip fun _ => fails_prechargeBank p c r b _

lemma fails_doCycle (x : Cycle) : Fails [.front, .bank, .window] (c.doCycle p r b t x) := by
  cases x with
  | ap row =>
    exact FailsWith.bind (fails_activateBank p c r b t row) fun c' _ =>
      (fails_prechargeBank p c' r b _).mono (by simp)
  | aap row1 row2 =>
    refine FailsWith.bind ?_ fun k _ => ?_
    · exact FailsWith.map ((fails_openBank p b _ _).mono (by simp))
    · exact FailsWith.bind ((fails_scheduleActivate _ r t).mono (by simp)) fun c' _ =>
        (fails_prechargeBank p c' r b _).mono (by simp)

lemma fails_doCycles (l : List Cycle) : Fails [.front, .bank, .window] (c.doCycles p r b t l) := by
  induction l generalizing c t with
  | nil => exact .ok _
  | cons x l ih => exact FailsWith.bind (fails_doCycle p c r b t x) fun c' _ => ih c' _

lemma fails_doRowOp (op : RowOp) : Fails [.front, .bank, .window] (c.doRowOp p d op) :=
  FailsWith.bind ((fails_closePage p c d.rank d.bank).mono (by simp)) fun c' _ =>
    FailsWith.map (fails_doCycles p c' d.rank d.bank _ _)

lemma fails_openPage : Fails [.front, .bank, .window] (c.openPage p d) :=
  .skip fun _ =>
    FailsWith.bind ((fails_closePage p c d.rank d.bank).mono (by simp)) fun c' _ =>
      FailsWith.map (fails_activateBank p c' d.rank d.bank _ _)

lemma fails_checkDrainDone : Fails [.front] (c.checkDrainDone r) :=
  .when fun _ => fails_schedule _ _ _

lemma fails_processActivateEvent : Fails [.front, .power] (c.processActivateEvent r) :=
  .when fun _ => fails_schedulePowerEvent c r _ _

lemma fails_processPrechargeEvent : Fails [.front, .power] (c.processPrechargeEvent r) :=
  .when fun _ => fails_schedulePowerEvent c r _ _

lemma fails_prechargeAll : Fails [.front, .bank] (c.prechargeAll p r) :=
  FailsWith.foldlM (fun c' b => .when fun _ => fails_prechargeBank p c' r b _) _ _

lemma fails_refreshPre : Fails [.front, .bank, .power] (c.refreshPre p r) := by
  refine FailsWith.bind (.ite (fun _ => (fails_prechargeAll p c r).mono (by simp))
    fun _ => (fails_schedulePowerEvent c r _ _).mono (by simp)) fun c' _ => ?_
  exact .guard (by decide) fun _ => .ok _

lemma fails_refreshRun : Fails [.front, .bank, .power] (c.refreshRun p r) := by
  refine .guard (by decide) fun _ => .guard (by decide) fun _ => .guard (by decide) fun _ => ?_
  refine FailsWith.bind ((fails_schedule _ _ _).mono (by simp)) fun c' _ => ?_
  exact .guard (by decide) fun _ => (fails_schedulePowerEvent c' r _ _).mono (by simp)

lemma fails_processRefreshEvent : Fails [.front, .bank, .power] (c.processRefreshEvent p r) := by
  have hdrain : ∀ c, Fails [.front, .bank, .power] (processRefreshEvent.refreshDrain p r c) :=
    fun c => .skip fun _ => fails_refreshPre p _ r
  rw [processRefreshEvent]
  split
  · exact hdrain _
  · exact hdrain _
  · exact fails_refreshPre p c r
  · exact fails_refreshRun p c r

lemma fails_processPowerEvent : Fails [.front, .bank, .power] (c.processPowerEvent p r) := by
  rw [processPowerEvent]
  generalize c.setRank r { c.ranks r with pwrState := (c.ranks r).pwrStateTrans } = c₁
  split
  · refine .ite (fun _ => .skip fun _ => (fails_schedule _ _ _).mono (by simp))
      fun _ => .guard (by decide) fun _ => .when fun _ => ?_
    exact .guard (by decide) fun _ => fails_processRefreshEvent p _ r
  · exact .guard (by decide) fun _ => fails_processRefreshEvent p c₁ r
  · exact .ok _

lemma fails_scanQueue {bankStatus : Except Abort (BitVec 64 × Bool)}
    (hstatus : Fails [.front] bankStatus) (minColAt i : ℕ) (l : List DRAMPacket) (s : QueueScan) :
    Fails [.front] (c.scanQueue bankStatus minColAt i l s) := by
  induction l generalizing i s with
  | nil => exact .ok _
  | cons d l ih =>
    refine .ite (fun _ => ih _ _) fun _ => .ite (fun _ => ?_) fun _ => .ite (fun _ => ?_)
      fun _ => ih _ _
    · exact .skip fun _ => .ite (fun _ => ih _ _) fun _ => ih _ _
    · exact FailsWith.bind hstatus fun status _ => .ite (fun _ => ih _ _) fun _ => ih _ _

lemma fails_minBankPrep (queue : List DRAMPacket) (minColAt : ℕ) :
    Fails [.front] (c.minBankPrep p queue minColAt) := by
  refine FailsWith.map (FailsWith.foldlM (fun s ij => ?_) _ _)
  refine .skip fun _ => .guard (by decide) fun _ => ?_
  exact .skip fun _ => .ok _

lemma fails_chooseNext (queue : List DRAMPacket) (extra : ℕ) :
    Fails [.front] (c.chooseNext p queue extra) := by
  unfold chooseNext
  split
  · exact .error (by decide)
  · exact .ok _
  · split
    · split <;> exact .ok _
    · exact FailsWith.map (fails_scanQueue c (fails_minBankPrep p c _ _) _ _ _ _)

end Channel

/-! ### The controller -/

namespace DRAMCtrl

variable (p : DRAMParams) (s : DRAMCtrl) (n : ℕ) (d : DRAMPacket) (pkt : Packet)

lemma fails_kick : Fails [.front] s.kick :=
  .skip fun _ => FailsWith.map (Channel.fails_schedule _ _ _)

lemma fails_accessAndRespond (latency : ℕ) : Fails [.front] (s.accessAndRespond n latency) := by
  rw [accessAndRespond]
  split
  · exact .error (by decide)
  · split
    · exact .error (by decide)
    · exact .skip fun _ => .guard (by decide) fun _ => .ok _

lemma fails_decodeAddr (addr size : ℕ) (isRead : Bool) :
    Fails [.front] (s.decodeAddr p n addr size isRead) :=
  .skip fun _ => .error (by decide)

lemma fails_addReadBursts {cnt addr serviced : ℕ}
    (hroom : s.readQueue.length + s.respQueue.length + cnt ≤ p.readBufferSize) :
    Fails [.front] (addReadBursts p n pkt pktCount cnt addr s serviced) := by
  refine (meets_addReadBursts (Q := fun cnt _ s _ =>
    s.readQueue.length + s.respQueue.length + cnt ≤ p.readBufferSize) (by decide)
    (fun cnt _ s _ h hfull => ?_) (fun cnt _ s _ h => ?_) (fun cnt s _ d h _ => ?_) hroom).fails
  · have hlt : p.readBufferSize < s.readQueue.length + s.respQueue.length + 1 :=
      of_decide_eq_true hfull
    omega
  · dsimp only
    omega
  · simp only [withRead, length_append, length_singleton]
    omega

lemma fails_addToReadQueue
    (hroom : s.readQueue.length + s.respQueue.length + pktCount ≤ p.readBufferSize) :
    Fails [.front] (s.addToReadQueue p n pkt pktCount) := by
  refine .guard (by decide) fun _ => .guard (by decide) fun _ => ?_
  refine FailsWith.bind (fails_addReadBursts p s n pkt hroom) fun r _ => ?_
  exact .ite (fun _ => fails_accessAndRespond _ n _) fun _ => fails_kick _

lemma fails_addRowOp : Fails [.front] (s.addRowOp p n pkt) :=
  FailsWith.bind (fails_decodeAddr p s n _ _ _) fun _ _ =>
    FailsWith.bind (fails_decodeAddr p s n _ _ _) fun _ _ =>
      FailsWith.map (fails_decodeAddr p s n _ _ _)

lemma fails_addWriteBursts {cnt addr : ℕ} (hroom : s.writeQueue.length + cnt ≤ p.writeBufferSize) :
    Fails [.front] (addWriteBursts p n pkt cnt addr s) := by
  refine (meets_addWriteBursts (Q := fun m s => s.writeQueue.length + m ≤ p.writeBufferSize)
    (by decide) (fun m s h hfull => ?_) (fun m s h => ?_) (fun m s d i _ h _ _ _ => ?_) hroom).fails
  · omega
  · omega
  · simp only [withWrite, length_append, length_singleton]
    omega

lemma fails_addToWriteQueue (hroom : s.writeQueue.length + pktCount ≤ p.writeBufferSize) :
    Fails [.front] (s.addToWriteQueue p n pkt pktCount) := by
  refine .guard (by decide) fun _ => ?_
  refine FailsWith.bind (.ite (fun _ => fails_addRowOp p s n pkt)
    fun _ => fails_addWriteBursts p s n pkt hroom) fun s' _ => ?_
  exact FailsWith.bind (fails_accessAndRespond s' n _) fun s'' _ => fails_kick s''

lemma fails_recvTimingReq (delay : ℕ) : Fails [.front] (s.recvTimingReq p pkt delay) := by
  refine .skip fun _ => .ite (fun _ => ?_) fun _ => .ite (fun _ => ?_) fun _ => ?_
  · refine .guard (by decide) fun _ => .skip fun hfull =>
      FailsWith.map (fails_addToReadQueue p _ _ pkt ?_)
    exact not_lt.mp fun hlt => hfull (decide_eq_true hlt)
  · refine .guard (by decide) fun _ => .skip fun hfull =>
      FailsWith.map (fails_addToWriteQueue p _ _ pkt ?_)
    exact not_lt.mp fun hlt => hfull (decide_eq_true hlt)
  · exact FailsWith.map (fails_accessAndRespond _ _ _)

lemma fails_finishBurst : Fails [.front] (s.finishBurst p d) := by
  refine .ite (fun _ => fails_accessAndRespond _ _ _) fun _ => ?_
  split
  · exact .error (by decide)
  · exact .when fun _ => FailsWith.map (fails_accessAndRespond _ _ _)

lemma fails_nextResponse : Fails [.front] s.nextResponse := by
  rw [nextResponse]
  split
  · exact .guard (by decide) fun _ => .guard (by decide) fun _ =>
      FailsWith.map (Channel.fails_schedule _ _ _)
  · exact .ok _

lemma fails_processRespondEvent : Fails [.front] (s.processRespondEvent p) := by
  rw [processRespondEvent]
  split
  · exact .error (by decide)
  · exact FailsWith.bind (fails_finishBurst p s _) fun s' _ => FailsWith.map (fails_nextResponse _)

lemma fails_scheduleNext : Fails [.front] (s.scheduleNext p) :=
  FailsWith.map (.skip fun _ => Channel.fails_schedule _ _ _)

lemma fails_drain : Fails [.front] s.drain :=
  .skip fun _ => FailsWith.map (.when fun _ => fails_kick s)

/-! ### Request events -/

/-- What a property must stand so that request events keep it and fail only with `P`. -/
structure Serves (p : DRAMParams) (P : Abort → Prop) (I : Channel → List DRAMPacket → Prop)
    (reads writes : DRAMPacket → Prop) : Prop where
  front : ∀ e : Abort, e.kind = .front → P e
  set : ∀ {c q e t}, c.now ≤ t → (∀ r, ¬ DRAMEvent.ofRank r e) → I c q →
    I { c with agenda := c.agenda.set t e } q
  drain : ∀ {c c' q r}, I c q → c.checkDrainDone r = .ok c' → I c' q
  read : ∀ {c q d} (behind : List DRAMPacket) (n : ℕ), I c q → reads d →
    Meets P (fun x => I x.1 (q ++ [{ d with readyTime := x.2 }]) ∧
        (P .respOrder ∨ ∀ b ∈ q, b.readyTime ≤ x.2))
      ({ c with busBusyUntil := c.busBusyUntil + n }.doDRAMAccess p d behind)
  write : ∀ {c q d} (behind : List DRAMPacket) (n : ℕ), I c q → writes d →
    Meets P (fun x => I x.1 q)
      ({ c with busBusyUntil := c.busBusyUntil + n }.doDRAMAccess p d behind)

variable {p s d} {P : Abort → Prop} {I : Channel → List DRAMPacket → Prop}
  {reads writes : DRAMPacket → Prop} {R : Channel × ℕ → Prop} {behind : List DRAMPacket}
  {switched : Bool} {Q : DRAMCtrl → Prop} {e : DRAMEvent}

lemma meets_issue {bubble : ℕ} (h : ∀ n, Meets P R
      ({ s.chan with busBusyUntil := s.chan.busBusyUntil + n }.doDRAMAccess p d behind)) :
    Meets P (fun x => x.1 = s.issued x.2 x.1.chan ∧ x.2 = { d with readyTime := x.2.readyTime } ∧
      R (x.1.chan, x.2.readyTime)) (issue p s d behind switched bubble) := by
  refine Meets.map (S := R) ?_ fun x hx => ⟨rfl, rfl, hx⟩
  split_ifs
  · exact h bubble
  · exact h 0

namespace Serves

variable (h : Serves p P I reads writes)

include h

lemma scheduleNext (hI : I s.chan s.respQueue) :
    Meets P (fun s' => I s'.chan s'.respQueue) (s.scheduleNext p) := by
  refine meets_iff.mpr ⟨(fails_scheduleNext p s).of_front h.front, fun s' hok => ?_⟩
  obtain ⟨chan, retry, rfl, ⟨-, rfl⟩ | ⟨-, rfl⟩⟩ := scheduleNext_ok hok
  · exact hI
  · exact h.set (le_max_right _ _) (fun _ => id) hI

lemma queueResponse (hI : I s.chan (s.respQueue ++ [d]))
    (horder : P .respOrder ∨ ∀ b ∈ s.respQueue, b.readyTime ≤ d.readyTime) :
    Meets P (fun s' => I s'.chan s'.respQueue) (s.queueResponse p d) := by
  refine .ite (fun _ => h.front _ rfl) fun _ => .ite (fun _ => h.front _ rfl) fun _ =>
    Meets.map (S := fun chan => I chan (s.respQueue ++ [d])) ?_ fun _ hI' => hI'
  rw [scheduleRespond]
  split
  · refine .ite (fun _ => h.front _ rfl) fun _ =>
      meets_iff.mpr ⟨(Channel.fails_schedule _ _ _).of_front h.front, fun c hok => ?_⟩
    obtain ⟨hle, -, rfl⟩ := Channel.schedule_ok hok
    exact h.set hle (fun _ => id) hI
  · next back hback =>
    refine .ite (fun hlt => ?_) fun _ => .ite (fun _ => h.front _ rfl) fun _ => hI
    exact horder.resolve_right fun hle => absurd (hle back (mem_of_getLast? hback)) (not_le.mpr hlt)

lemma serveRead (hI : I s.chan s.respQueue) (hreads : ∀ d ∈ s.readQueue, reads d) :
    Meets P (fun s' => I s'.chan s'.respQueue) (s.serveRead p switched) := by
  refine .ite (fun _ => .ite (fun _ => h.scheduleNext hI) fun _ => ?_) fun _ => ?_
  · change I _ _
    split_ifs <;> exact hI
  · refine Meets.bind (meets_iff.mpr ⟨(Channel.fails_chooseNext p s.chan _ _).of_front h.front,
      fun q hq => Channel.chooseNext_eq_ok hq⟩) ?_
    rintro ⟨found, queue⟩ (⟨rfl, rfl⟩ | ⟨rfl, front, d, back, hsplit, rfl, -⟩)
    · exact hI
    · refine .ite (fun _ => h.front _ rfl) fun _ => Meets.bind (meets_issue fun n =>
        h.read _ n hI (hreads d (by rw [hsplit]; simp))) ?_
      rintro ⟨s₁, d₁⟩ ⟨hs₁, hd₁, hI₁, horder⟩
      dsimp only at hs₁ hd₁ hI₁ horder
      rw [← hd₁] at hI₁
      rw [hs₁]
      refine Meets.bind (h.queueResponse hI₁ horder) fun s₂ h₂ => h.scheduleNext ?_
      split_ifs <;> exact h₂

lemma serveWrite (hI : I s.chan s.respQueue) (hwrites : ∀ d ∈ s.writeQueue, writes d) :
    Meets P (fun s' => I s'.chan s'.respQueue) (s.serveWrite p switched) := by
  refine Meets.bind (meets_iff.mpr ⟨(Channel.fails_chooseNext p s.chan _ _).of_front h.front,
    fun q hq => Channel.chooseNext_eq_ok hq⟩) ?_
  rintro ⟨found, queue⟩ (⟨rfl, rfl⟩ | ⟨rfl, front, d, back, hsplit, rfl, -⟩)
  · exact hI
  · refine .ite (fun _ => h.front _ rfl) fun _ => .ite (fun _ => h.front _ rfl) fun _ =>
      Meets.bind (meets_issue fun n => h.write _ n hI (hwrites d (by rw [hsplit]; simp))) ?_
    rintro ⟨s₁, d₁⟩ ⟨hs₁, -, hI₁⟩
    dsimp only at hs₁ hI₁
    rw [hs₁]
    refine h.scheduleNext ?_
    split_ifs <;> exact hI₁

/-- **A request event** keeps the property. -/
lemma processNextReqEvent (hI : I s.chan s.respQueue) (hreads : ∀ d ∈ s.readQueue, reads d)
    (hwrites : ∀ d ∈ s.writeQueue, writes d) :
    Meets P (fun s' => I s'.chan s'.respQueue) (s.processNextReqEvent p) := by
  refine Meets.bind (S := fun s₁ => ∃ chan, s₁ = { s with chan := chan } ∧ I chan s.respQueue)
    (Meets.map (S := fun chan => I chan s.respQueue) ?_ fun chan hchan => ⟨chan, rfl, hchan⟩) ?_
  · refine Meets.foldlM (fun r _ c hc => .ite (fun _ => hc) fun _ => ?_) hI
    exact meets_iff.mpr ⟨(Channel.fails_checkDrainDone c r).of_front h.front, fun c' => h.drain hc⟩
  · rintro _ ⟨chan, rfl, hchan⟩
    refine .ite (fun _ => hchan) fun _ => ?_
    split
    · exact h.serveWrite hchan hwrites
    · exact h.serveRead hchan hreads
    · exact h.serveRead hchan hreads
    · exact h.serveWrite hchan hwrites

end Serves

/-! ### Actions -/

def rankEvent (p : DRAMParams) (c : Channel) : DRAMEvent → Except Abort Channel
  | .activate r => c.processActivateEvent r
  | .precharge r => c.processPrechargeEvent r
  | .refresh r => c.processRefreshEvent p r
  | .power r => c.processPowerEvent p r
  | _ => .ok c

lemma handled_rankEvent {c c' : Channel} {r : ℕ} (he : e.ofRank r)
    (h : rankEvent p c e = .ok c') : Channel.Handled r c c' := by
  cases e with
  | nextReq | respond | response | external => exact he.elim
  | activate => exact he ▸ Channel.handled_processActivateEvent h
  | precharge => exact he ▸ Channel.handled_processPrechargeEvent h
  | refresh => exact he ▸ Channel.handled_processRefreshEvent h
  | power => exact he ▸ Channel.handled_processPowerEvent h

lemma fails_rankEvent (p : DRAMParams) (c : Channel) (e : DRAMEvent) :
    Fails [.front, .bank, .power] (rankEvent p c e) := by
  cases e with
  | nextReq | respond | response | external => exact .ok _
  | activate r => exact (Channel.fails_processActivateEvent c r).mono (by simp)
  | precharge r => exact (Channel.fails_processPrechargeEvent c r).mono (by simp)
  | refresh r => exact Channel.fails_processRefreshEvent p c r
  | power r => exact Channel.fails_processPowerEvent p c r

lemma meets_handle
    (hP : ∀ e : Abort, e.kind = .front → P e) (hs : Q s) (hfront : ∀ s', Front p s s' → Q s')
    (hrequest : e = .nextReq → Meets P Q (s.processNextReqEvent p))
    (hrank : ∀ r, e.ofRank r →
      Meets P (fun chan => Q { s with chan := chan }) (rankEvent p s.chan e)) :
    Meets P Q (s.handle p e) := by
  cases e with
  | nextReq => exact hrequest rfl
  | respond =>
    exact meets_iff.mpr ⟨(fails_processRespondEvent p s).of_front hP,
      fun s' hok => hfront s' (front_processRespondEvent hok)⟩
  | response n | external id => exact hs
  | activate r | precharge r | refresh r | power r => exact (hrank r rfl).map fun _ h => h

/-- **The rule for an action**: arrivals, drains and responses set front events only. -/
lemma meets_perform {a : Act} (hP : ∀ e : Abort, e.kind = .front → P e)
    (hfront : ∀ s', Front p s s' → Q s')
    (hplan : ∀ n t, a = .plan n t →
      Q { s with chan := { s.chan with agenda := s.chan.agenda.set t (.external n) } })
    (hevent : ∀ e t, a = .event e t → Meets P Q ((s.takeEvent e t).handle p e)) :
    Meets P Q (s.perform p a) := by
  cases a with
  | arrive pkt delay =>
    refine Meets.map (S := fun x => Q x.1) (meets_iff.mpr
      ⟨(fails_recvTimingReq p s pkt delay).of_front hP, fun x hok => ?_⟩) fun _ h => h
    exact hfront x.1 (recvTimingReq_ok hok).front
  | plan n t => exact hplan n t rfl
  | drain =>
    exact meets_iff.mpr ⟨(fails_drain s).of_front hP, fun s' hok => hfront s' (front_drain hok)⟩
  | resume => exact hfront _ (front_of_eq .refl (fun _ => id) rfl rfl)
  | event e t => exact hevent e t rfl

/-- An action on the channel: front events set, an event planned, a request served, or a rank's
event handled. -/
inductive ChanStep (p : DRAMParams) (s : DRAMCtrl) : Act → DRAMCtrl → Prop
  | front {a : Act} {s' : DRAMCtrl} (h : Front p s s') : ChanStep p s a s'
  | plan (n t : ℕ) : ChanStep p s (.plan n t)
      { s with chan := { s.chan with agenda := s.chan.agenda.set t (.external n) } }
  | aside {e : DRAMEvent} {t : ℕ} {s' : DRAMCtrl} (he : ∀ r, ¬ e.ofRank r) (hne : e ≠ .nextReq)
      (h : Front p (s.takeEvent e t) s') : ChanStep p s (.event e t) s'
  | request {t : ℕ} {s' : DRAMCtrl}
      (h : ChanServed p (Queued s) (s.chan.take .nextReq t) s'.chan) :
      ChanStep p s (.event .nextReq t) s'
  | rank {e : DRAMEvent} {t r : ℕ} {chan : Channel} (he : e.ofRank r)
      (h : rankEvent p (s.chan.take e t) e = .ok chan) :
      ChanStep p s (.event e t) { s.takeEvent e t with chan := chan }

lemma chanStep_perform {s' : DRAMCtrl} {a : Act} (h : s.perform p a = .ok s') :
    ChanStep p s a s' := by
  have hrefl : ∀ s : DRAMCtrl, Front p s s := fun s => front_of_eq .refl (fun _ => id) rfl rfl
  cases a with
  | arrive pkt delay =>
    obtain ⟨⟨s₁, accepted⟩, hrecv, rfl⟩ := map_ok h
    exact .front (recvTimingReq_ok hrecv).front
  | plan id t =>
    cases h
    exact .plan id t
  | drain => exact .front (front_drain h)
  | resume =>
    cases h
    exact .front (front_of_eq .refl (fun _ => id) rfl rfl)
  | event e t =>
    change (s.takeEvent e t).handle p e = .ok s' at h
    cases e with
    | nextReq => exact .request (processNextReqEvent_ok h).2
    | respond => exact .aside (fun _ => id) (by simp) (front_processRespondEvent h)
    | response n | external n =>
      cases h
      exact .aside (fun _ => id) (by simp) (hrefl _)
    | activate r | precharge r | refresh r | power r =>
      obtain ⟨chan, hchan, rfl⟩ := map_ok h
      exact .rank rfl hchan

end DRAMCtrl

end ShifDram
