import ShifDram.Control.Fallible
import ShifDram.Queue.Timed

/-!
The packet queue of a port (`mem/packet_queue.cc`).

Packets wait in `transmitList` for their tick and are sent by an event or, after a refusal, by the
peer's retry. The head is taken off the list before it is sent, and a peer that accepts it may
queue further packets from inside that call.
-/

namespace ShifDram

open List Fallible

structure DeferredPacket (α : Type*) where
  tick : ℕ
  pkt : α

/-- A packet queue; `sendEvent` is its event's tick. -/
structure PacketQueue (α : Type*) where
  transmitList : List (DeferredPacket α)
  sendEvent : Option ℕ
  waitingOnRetry : Bool

namespace PacketQueue

/-- `MaxTick`, the tick that stands for "never". -/
def maxTick : ℕ := 2 ^ 64 - 1

inductive Abort where
  /-- `assert(when >= curTick())` -/
  | inThePast
  /-- `assert(!pkt->isExpressSnoop())` -/
  | expressSnoop
  /-- `Packet queue has grown beyond 100 packets` -/
  | beyondLimit
  /-- `assert(!force_order || transmitList.empty())` -/
  | forcedInFront
  /-- `assert(!force_order)` -/
  | forcedInside
  /-- `assert(!sendEvent.scheduled())` -/
  | eventWhileWaiting
  /-- `assert(waitingOnRetry)` -/
  | noRetryAwaited
  /-- `assert(!waitingOnRetry)` -/
  | retryAwaited
  /-- `assert(deferredPacketReady())` -/
  | notReady
  deriving DecidableEq

/-- The arguments of `schedSendTiming`. -/
structure Call (α : Type*) where
  pkt : α
  when : ℕ
  forceOrder : Bool

/-- `sendTiming`: refused, or accepted after queueing others. -/
inductive Answer (α : Type*) where
  | refused
  | accepted (calls : List (Call α))

section Queue

variable {α : Type*} {c : Call α} {dp : DeferredPacket α} {calls : List (Call α)}

/-- `schedSendEvent`; with `MaxTick` there is nothing to do. -/
def schedSendEvent (q : PacketQueue α) (now when : ℕ) : Except Abort (PacketQueue α) :=
  if q.waitingOnRetry then
    if q.sendEvent.isSome then .error .eventWhileWaiting else .ok q
  else if when ≠ maxTick then
    let when := max when (now + 1)
    match q.sendEvent with
    | none => .ok { q with sendEvent := some when }
    | some e => .ok (if when < e then { q with sendEvent := some when } else q)
  else .ok q

/-- The insertion sort's walk to the first later packet. -/
def emplace (dp : DeferredPacket α) : List (DeferredPacket α) → List (DeferredPacket α)
  | [] => [dp]
  | x :: xs => if x.tick ≤ dp.tick then x :: emplace dp xs else dp :: x :: xs

/-- A packet's tick: with `force_order` not before the last one. -/
def orderedWhen (q : PacketQueue α) (c : Call α) : ℕ :=
  match q.transmitList.getLast? with
  | some back => if c.forceOrder ∧ c.when < back.tick then back.tick else c.when
  | none => c.when

def schedSendTiming (isExpressSnoop : α → Bool) (now : ℕ) (q : PacketQueue α) (c : Call α) :
    Except Abort (PacketQueue α) :=
  if c.when < now then .error .inThePast
  else if isExpressSnoop c.pkt then .error .expressSnoop
  else if 100 < q.transmitList.length then .error .beyondLimit
  else
    let when := q.orderedWhen c
    match q.transmitList with
    | [] => { q with transmitList := [⟨when, c.pkt⟩] }.schedSendEvent now when
    | front :: rest =>
      if when < front.tick then
        if c.forceOrder then .error .forcedInFront
        else { q with transmitList := ⟨when, c.pkt⟩ :: front :: rest }.schedSendEvent now when
      else if (rest.getLastD front).tick ≤ when then
        .ok { q with transmitList := (front :: rest) ++ [⟨when, c.pkt⟩] }
      else if c.forceOrder then .error .forcedInside
      else .ok { q with transmitList := front :: emplace ⟨when, c.pkt⟩ rest }

def deferredPacketReadyTime (q : PacketQueue α) : ℕ :=
  match q.transmitList with
  | [] => maxTick
  | front :: _ => front.tick

def sendDeferredPacket (isExpressSnoop : α → Bool) (now : ℕ) (q : PacketQueue α)
    (answer : Answer α) : Except Abort (PacketQueue α) :=
  if q.waitingOnRetry then .error .retryAwaited
  else match q.transmitList with
  | [] => .error .notReady
  | dp :: rest =>
    if now < dp.tick then .error .notReady
    else
      let q := { q with transmitList := rest }
      match answer with
      | .refused => .ok { q with waitingOnRetry := true, transmitList := dp :: q.transmitList }
      | .accepted calls => do
          let q ← calls.foldlM (schedSendTiming isExpressSnoop now) q
          let q := { q with waitingOnRetry := false }
          q.schedSendEvent now q.deferredPacketReadyTime

def retry (isExpressSnoop : α → Bool) (now : ℕ) (q : PacketQueue α) (answer : Answer α) :
    Except Abort (PacketQueue α) :=
  if q.waitingOnRetry then
    { q with waitingOnRetry := false }.sendDeferredPacket isExpressSnoop now answer
  else .error .noRetryAwaited

/-- `processSendEvent`, its event taken off the event queue. -/
def processSendEvent (isExpressSnoop : α → Bool) (now : ℕ) (q : PacketQueue α)
    (answer : Answer α) : Except Abort (PacketQueue α) :=
  if q.waitingOnRetry then .error .retryAwaited
  else { q with sendEvent := none }.sendDeferredPacket isExpressSnoop now answer

/-! ### Scheduling -/

/-- What holds at any moment, also in the middle of a send. -/
structure Core (now : ℕ) (q : PacketQueue α) : Prop where
  inTime : Timed.InTime DeferredPacket.tick q.transmitList
  /-- The event fires when the head is ready. -/
  event : ∀ e, q.sendEvent = some e → now ≤ e ∧ ∃ dp ∈ q.transmitList.head?, dp.tick ≤ e
  /-- While a retry is awaited the head is overdue, without an event. -/
  waiting : q.waitingOnRetry = true →
    q.sendEvent = none ∧ ∃ dp ∈ q.transmitList.head?, dp.tick ≤ now

def Scheduled (q : PacketQueue α) : Prop :=
  q.waitingOnRetry = false → ∀ dp ∈ q.transmitList.head?, dp.tick ≠ maxTick → q.sendEvent ≠ none

variable {q : PacketQueue α} {now : ℕ}

/-- The event as a packet becomes due at `when`: moved forward if later. -/
def eventFor (now when : ℕ) (e : Option ℕ) : Option ℕ :=
  if when = maxTick then e
  else some (e.elim (max when (now + 1)) fun t => min (max when (now + 1)) t)

lemma schedSendEvent_eq (h : q.waitingOnRetry = false) (when : ℕ) :
    q.schedSendEvent now when = .ok { q with sendEvent := eventFor now when q.sendEvent } := by
  obtain ⟨l, o, w⟩ := q
  obtain rfl : w = false := h
  simp only [schedSendEvent, eventFor, Bool.false_eq_true, if_false]
  by_cases hmax : when = maxTick
  · rw [if_neg (not_not.mpr hmax), if_pos hmax]
  · rw [if_pos hmax, if_neg hmax]
    cases o with
    | none => rfl
    | some e =>
      simp only [Option.elim_some]
      split_ifs with hlt
      · rw [min_eq_left hlt.le]
      · rw [min_eq_right (not_lt.mp hlt)]

lemma eventFor_bounds {when e : ℕ} {o : Option ℕ} (h : eventFor now when o = some e)
    (ho : ∀ t, o = some t → now ≤ t ∧ when ≤ t) : now ≤ e ∧ when ≤ e := by
  rw [eventFor] at h
  split_ifs at h with hmax
  · exact ho e h
  · cases o with
    | none =>
      obtain rfl : max when (now + 1) = e := by simpa using h
      omega
    | some t =>
      have ht := ho t rfl
      obtain rfl : min (max when (now + 1)) t = e := by simpa using h
      omega

/-- Scheduling for the head of the list, whatever event there was. -/
lemma schedSendEvent_spec (q : PacketQueue α) (now when : ℕ) (h : q.waitingOnRetry = false)
    (hord : Timed.InTime DeferredPacket.tick q.transmitList)
    (hhead : ∀ dp ∈ q.transmitList.head?, dp.tick = when)
    (hnil : q.transmitList = [] → when = maxTick ∧ q.sendEvent = none)
    (hevent : ∀ e, q.sendEvent = some e → now ≤ e ∧ when ≤ e) :
    ∃ q', q.schedSendEvent now when = .ok q' ∧ q'.transmitList = q.transmitList ∧
      q'.waitingOnRetry = false ∧ Core now q' ∧ Scheduled q' := by
  refine ⟨_, schedSendEvent_eq h _, rfl, h, ⟨hord, fun e he => ?_, fun hw => ?_⟩, ?_⟩
  · have hbound := eventFor_bounds he hevent
    refine ⟨hbound.1, ?_⟩
    cases hl : q.transmitList with
    | nil =>
      obtain ⟨rfl, hnone⟩ := hnil hl
      simp [eventFor, hnone] at he
    | cons dp rest =>
      refine ⟨dp, rfl, ?_⟩
      rw [hhead dp (by rw [hl]; rfl)]
      exact hbound.2
  · rw [h] at hw
    cases hw
  · intro _ dp hdp hmax
    have hwhen : when ≠ maxTick := by
      rw [← hhead dp hdp]
      exact hmax
    simp [eventFor, hwhen]

lemma emplace_eq (l : List (DeferredPacket α)) :
    emplace dp l = Timed.insert DeferredPacket.tick dp l := by
  induction l with
  | nil => rfl
  | cons x l ih =>
    rw [emplace, Timed.insert_cons, ih]
    by_cases h : x.tick ≤ dp.tick
    · rw [if_pos h, if_neg (not_lt.mpr h)]
    · rw [if_neg h, if_pos (not_le.mp h)]

lemma le_orderedWhen (q : PacketQueue α) (c : Call α) : c.when ≤ q.orderedWhen c := by
  rw [orderedWhen]
  cases q.transmitList.getLast? with
  | none => exact le_rfl
  | some back =>
    dsimp only
    split_ifs with h
    · exact h.2.le
    · exact le_rfl

lemma tick_le_orderedWhen (h : Timed.InTime DeferredPacket.tick q.transmitList)
    (hc : c.forceOrder = true) (hdp : dp ∈ q.transmitList) :
    dp.tick ≤ q.orderedWhen c := by
  cases hlast : q.transmitList.getLast? with
  | none =>
    rw [getLast?_eq_none_iff] at hlast
    rw [hlast] at hdp
    cases hdp
  | some back =>
    have hle := h.le_getLast hdp hlast
    rw [orderedWhen, hlast]
    dsimp only
    split_ifs with hlt
    · exact hle
    · simp only [hc, true_and, not_lt] at hlt
      exact hle.trans hlt

lemma Core.of_head? (h : Core now q) {l : List (DeferredPacket α)}
    (hord : Timed.InTime DeferredPacket.tick l) (hhead : l.head? = q.transmitList.head?) :
    Core now { q with transmitList := l } ∧
      (Scheduled q → Scheduled { q with transmitList := l }) := by
  refine ⟨⟨hord, fun e he => ?_, fun hw => ?_⟩, fun hs hw dp hdp => ?_⟩
  · rw [hhead]
    exact h.event e he
  · rw [hhead]
    exact h.waiting hw
  · rw [hhead] at hdp
    exact hs hw dp hdp

variable (isExpressSnoop : α → Bool)

/-- **Queueing a packet**: behind every one not due later. -/
lemma schedSendTiming_spec (h : Core now q) (hwhen : now ≤ c.when)
    (hsnoop : isExpressSnoop c.pkt = false) (hlen : q.transmitList.length ≤ 100) :
    ∃ q', schedSendTiming isExpressSnoop now q c = .ok q' ∧
      q'.transmitList = Timed.insert DeferredPacket.tick ⟨q.orderedWhen c, c.pkt⟩ q.transmitList ∧
      q'.waitingOnRetry = q.waitingOnRetry ∧ Core now q' ∧ (Scheduled q → Scheduled q') ∧
      (q.waitingOnRetry = true → q'.transmitList.head? = q.transmitList.head?) := by
  have hge := le_orderedWhen q c
  have hord := h.inTime.insert (⟨q.orderedWhen c, c.pkt⟩ : DeferredPacket α)
  have hforced : c.forceOrder = true → ∀ dp ∈ q.transmitList, dp.tick ≤ q.orderedWhen c :=
    fun hc _ => tick_le_orderedWhen h.inTime hc
  rw [schedSendTiming, if_neg (not_lt.mpr hwhen), hsnoop, if_neg Bool.false_ne_true,
    if_neg (not_lt.mpr hlen)]
  set t := q.orderedWhen c
  cases hl : q.transmitList with
  | nil =>
    have hw : q.waitingOnRetry = false := by
      by_contra hne
      obtain ⟨-, dp, hdp, -⟩ := h.waiting (by simpa using hne)
      simp [hl] at hdp
    have hnone : ∀ e, q.sendEvent ≠ some e := by
      intro e he
      obtain ⟨-, dp, hdp, -⟩ := h.event e he
      simp [hl] at hdp
    obtain ⟨q', hq', hlist, hw', hcore, hsched⟩ := schedSendEvent_spec
      { q with transmitList := [⟨t, c.pkt⟩] } now t hw
      (pairwise_singleton _ _) (by simp) (by simp) fun e he => absurd he (hnone e)
    exact ⟨q', hq', hlist, by rw [hw', hw], hcore, fun _ => hsched, fun hw1 => by simp [hw] at hw1⟩
  | cons front rest =>
    rw [hl] at hord hforced
    dsimp only
    by_cases hfront : t < front.tick
    · have hc : c.forceOrder = false := by
        by_contra hne
        have := hforced (by simpa using hne) front mem_cons_self
        omega
      have hw : q.waitingOnRetry = false := by
        by_contra hne
        obtain ⟨-, dp, hdp, hle⟩ := h.waiting (by simpa using hne)
        obtain rfl : front = dp := by simpa [hl] using hdp
        omega
      have hevent : ∀ e, q.sendEvent = some e → now ≤ e ∧ t ≤ e := by
        intro e he
        obtain ⟨hnow, dp, hdp, hle⟩ := h.event e he
        obtain rfl : front = dp := by simpa [hl] using hdp
        omega
      rw [Timed.insert_cons, if_pos hfront] at hord ⊢
      obtain ⟨q', hq', hlist, hw', hcore, hsched⟩ := schedSendEvent_spec
        { q with transmitList := ⟨t, c.pkt⟩ :: front :: rest } now t hw hord (by simp) (by simp)
        hevent
      rw [if_pos hfront, hc, if_neg Bool.false_ne_true]
      exact ⟨q', hq', hlist, by rw [hw', hw], hcore, fun _ => hsched,
        fun hw1 => by simp [hw] at hw1⟩
    · -- behind the head, at the end or after a walk
      have hins : Timed.insert DeferredPacket.tick ⟨t, c.pkt⟩ (front :: rest) =
          front :: Timed.insert DeferredPacket.tick ⟨t, c.pkt⟩ rest := by
        rw [Timed.insert_cons, if_neg hfront]
      have hlast : (front :: rest).getLast? = some (rest.getLastD front) := by
        rw [getLast?_cons, getLastD_eq_getLast?]
      obtain ⟨hcore, hsched⟩ := h.of_head? hord (by rw [hins, hl]; rfl)
      refine ⟨{ q with
          transmitList := Timed.insert DeferredPacket.tick ⟨t, c.pkt⟩ (front :: rest) },
        ?_, rfl, rfl, hcore, hsched, fun _ => by rw [hins]; rfl⟩
      rw [if_neg hfront]
      by_cases hback : (rest.getLastD front).tick ≤ t
      · have happend : Timed.insert DeferredPacket.tick ⟨t, c.pkt⟩ (front :: rest) =
            front :: rest ++ [⟨t, c.pkt⟩] := by
          refine Timed.insert_eq_append fun dp hdp => ?_
          have hin := h.inTime
          rw [hl] at hin
          exact (hin.le_getLast hdp hlast).trans hback
        rw [if_pos hback, happend]
      · have hc : c.forceOrder = false := by
          by_contra hne
          exact hback (hforced (by simpa using hne) _ (mem_of_getLast? hlast))
        rw [if_neg hback, hc, if_neg Bool.false_ne_true, emplace_eq, hins]

/-! ### What was queued and sent -/

structure Tagged (α : Type*) where
  id : ℕ
  forced : Bool
  pkt : α

/-- The call that queues packet number `n`. -/
def Call.tag (n : ℕ) (c : Call α) : Call (Tagged α) :=
  ⟨⟨n, c.forceOrder, c.pkt⟩, c.when, c.forceOrder⟩

/-- A series of calls, the first of them number `n`. -/
def tagCalls (n : ℕ) : List (Call α) → List (Call (Tagged α))
  | [] => []
  | c :: cs => c.tag n :: tagCalls (n + 1) cs

def pending (q : PacketQueue α) : List α := q.transmitList.map DeferredPacket.pkt

/-- What callers of `schedSendTiming` promise. -/
structure Call.Valid (isExpressSnoop : α → Bool) (now : ℕ) (c : Call α) : Prop where
  when : now ≤ c.when
  snoop : isExpressSnoop c.pkt = false

/-- The queue and the record of what was queued and sent. -/
structure Book (now : ℕ) (queued sent : List (Tagged α)) (q : PacketQueue (Tagged α)) : Prop where
  core : Core now q
  /-- Sorted by tick, equal ticks in order of queueing. -/
  ordered : q.transmitList.Pairwise fun a b =>
    a.tick < b.tick ∨ a.tick = b.tick ∧ a.pkt.id < b.pkt.id
  /-- Behind a packet with `force_order` come later ones only. -/
  forced : (sent ++ q.pending).Pairwise fun a b => a.forced = true → a.id < b.id
  /-- Every packet queued waits or was sent, once. -/
  perm : (sent ++ q.pending).Perm queued
  ids : queued.map Tagged.id = List.range queued.length

variable {isExpressSnoop} {queued sent : List (Tagged α)} {q : PacketQueue (Tagged α)}

/-- Only the packets that wait matter for the record. -/
lemma Book.of_core {t : ℕ} {q' : PacketQueue (Tagged α)} (h : Book now queued sent q)
    (hlist : q'.transmitList = q.transmitList) (hcore : Core t q') : Book t queued sent q' := by
  have hpending : q'.pending = q.pending := by rw [pending, pending, hlist]
  exact ⟨hcore, hlist ▸ h.ordered, hpending ▸ h.forced, hpending ▸ h.perm, h.ids⟩

section

variable (h : Book now queued sent q)

include h

lemma Book.id_lt {x : Tagged α} (hx : x ∈ sent ++ q.pending) : x.id < queued.length := by
  have hid : x.id ∈ queued.map Tagged.id := mem_map_of_mem (h.perm.mem_iff.mp hx)
  rw [h.ids] at hid
  exact mem_range.mp hid

/-- **One call of `schedSendTiming`**, from outside or in a send. -/
lemma Book.schedSendTiming (hc : c.Valid isExpressSnoop now) :
    Meets (· = .beyondLimit) (fun q' => Book now (queued ++ [(c.tag queued.length).pkt]) sent q' ∧
        q'.waitingOnRetry = q.waitingOnRetry ∧ (Scheduled q → Scheduled q') ∧
        (q.waitingOnRetry = true → q'.transmitList.head? = q.transmitList.head?))
      (schedSendTiming (fun x => isExpressSnoop x.pkt) now q (c.tag queued.length)) := by
  by_cases hlen : 100 < q.transmitList.length
  · have hpast : ¬ (c.tag queued.length).when < now := not_lt.mpr hc.when
    have hsnoop : isExpressSnoop (c.tag queued.length).pkt.pkt = false := hc.snoop
    rw [PacketQueue.schedSendTiming, if_neg hpast, hsnoop, if_neg Bool.false_ne_true, if_pos hlen]
    rfl
  obtain ⟨q', hq', hlist, hw, hcore, hsched, hhead⟩ := schedSendTiming_spec
    (fun x : Tagged α => isExpressSnoop x.pkt) (c := c.tag queued.length) h.core hc.when hc.snoop
    (not_lt.mp hlen)
  rw [hq']
  set dp : DeferredPacket (Tagged α) :=
    ⟨q.orderedWhen (c.tag queued.length), (c.tag queued.length).pkt⟩ with hdp
  have hnew : ∀ x ∈ q.transmitList, x.pkt.id < queued.length := fun x hx =>
    h.id_lt (mem_append_right _ (mem_map_of_mem hx))
  have hperm : (sent ++ q'.pending).Perm (dp.pkt :: (sent ++ q.pending)) := by
    rw [pending, hlist]
    refine (List.Perm.append_left sent ((perm_orderedInsert _ dp _).map _)).trans ?_
    exact perm_middle
  refine Meets.ok ⟨⟨hcore, ?_, ?_, ?_, ?_⟩, hw, hsched, hhead⟩
  · rw [hlist]
    refine Timed.pairwise_insert h.core.inTime h.ordered (fun x hx hle => ?_) fun x hx hlt =>
      Or.inl hlt
    rcases Nat.lt_or_eq_of_le hle with hlt | heq
    · exact Or.inl hlt
    · exact Or.inr ⟨heq, hnew x hx⟩
  · obtain ⟨hsent, hpend, hcross⟩ := pairwise_append.mp h.forced
    refine pairwise_append.mpr ⟨hsent, ?_, fun a ha b hb => ?_⟩
    · rw [pending, hlist, pairwise_map]
      rw [pending, pairwise_map] at hpend
      refine Timed.pairwise_insert h.core.inTime hpend (fun x hx _ _ => hnew x hx)
        fun x hx hlt hforced => ?_
      -- a forced packet is due last
      have := tick_le_orderedWhen h.core.inTime (show (c.tag queued.length).forceOrder = true from
        hforced) hx
      exact absurd hlt (not_lt.mpr this)
    · intro hforced
      rw [pending, hlist, mem_map] at hb
      obtain ⟨x, hx, rfl⟩ := hb
      rcases Timed.mem_insert.mp hx with rfl | hx
      · exact h.id_lt (mem_append_left _ ha)
      · exact hcross a ha _ (mem_map_of_mem hx) hforced
  · exact hperm.trans ((h.perm.cons _).trans (perm_append_singleton _ _).symm)
  · rw [map_append, h.ids, length_append, length_singleton, range_succ]
    rfl

lemma Book.foldlM_schedSendTiming (hcalls : ∀ c ∈ calls, c.Valid isExpressSnoop now)
    (hw : q.waitingOnRetry = false) :
    Meets (· = .beyondLimit) (fun q' => Book now
        (queued ++ (tagCalls queued.length calls).map Call.pkt) sent q' ∧ q'.waitingOnRetry = false)
      ((tagCalls queued.length calls).foldlM
        (PacketQueue.schedSendTiming (fun x => isExpressSnoop x.pkt) now) q) := by
  induction calls generalizing q queued with
  | nil => exact Meets.ok ⟨by simpa [tagCalls] using h, hw⟩
  | cons c calls ih =>
    refine (h.schedSendTiming (hcalls c mem_cons_self)).bind fun q₁ ⟨hbook, hw₁, _⟩ => ?_
    have hrest := ih hbook (fun x hx => hcalls x (mem_cons_of_mem c hx)) (hw₁.trans hw)
    rwa [length_append, length_singleton, append_assoc] at hrest

lemma Book.readyTime_le {e : ℕ} (he : q.sendEvent = some e) :
    now ≤ e ∧ q.deferredPacketReadyTime ≤ e := by
  obtain ⟨hnow, dp, hdp, hle⟩ := h.core.event e he
  refine ⟨hnow, ?_⟩
  rw [deferredPacketReadyTime]
  cases hl : q.transmitList with
  | nil => simp [hl] at hdp
  | cons front rest =>
    obtain rfl : front = dp := by simpa [hl] using hdp
    exact hle

/-- **A send the peer accepts**, with packets queued during it. -/
lemma Book.sendDeferredPacket_accepted {dp : DeferredPacket (Tagged α)}
    {rest : List (DeferredPacket (Tagged α))} (hl : q.transmitList = dp :: rest)
    (hready : dp.tick ≤ now) (hw : q.waitingOnRetry = false) (hnone : q.sendEvent = none)
    (hcalls : ∀ c ∈ calls, c.Valid isExpressSnoop now) :
    Meets (· = .beyondLimit) (fun q' => Book now
        (queued ++ (tagCalls queued.length calls).map Call.pkt) (sent ++ [dp.pkt]) q' ∧
        q'.waitingOnRetry = false ∧ Scheduled q')
      (q.sendDeferredPacket (fun x => isExpressSnoop x.pkt) now
        (.accepted (tagCalls queued.length calls))) := by
  have hpopped : Book now queued (sent ++ [dp.pkt]) { q with transmitList := rest } := by
    have hlog : sent ++ q.pending =
        sent ++ [dp.pkt] ++ pending { q with transmitList := rest } := by
      simp [pending, hl]
    refine ⟨⟨?_, fun e he => ?_, fun hw' => ?_⟩, ?_, ?_, ?_, h.ids⟩
    · have hin := h.core.inTime
      rw [hl] at hin
      exact (pairwise_cons.mp hin).2
    · rw [hnone] at he
      cases he
    · rw [hw] at hw'
      cases hw'
    · have hord := h.ordered
      rw [hl] at hord
      exact (pairwise_cons.mp hord).2
    · rw [← hlog]
      exact h.forced
    · rw [← hlog]
      exact h.perm
  rw [sendDeferredPacket, if_neg (by simp [hw]), hl]
  dsimp only
  rw [if_neg (not_lt.mpr hready)]
  refine (hpopped.foldlM_schedSendTiming hcalls hw).bind fun q₁ ⟨hbook, hw₁⟩ => ?_
  obtain ⟨q', hq', hlist, hw', hcore, hsched⟩ := schedSendEvent_spec q₁ now
    q₁.deferredPacketReadyTime hw₁ hbook.core.inTime
    (fun x hx => by
      cases hl₁ : q₁.transmitList with
      | nil => simp [hl₁] at hx
      | cons y l =>
        obtain rfl : y = x := by simpa [hl₁] using hx
        rw [deferredPacketReadyTime, hl₁])
    (fun hnil => by
      refine ⟨by rw [deferredPacketReadyTime, hnil], ?_⟩
      by_contra hne
      obtain ⟨e, he⟩ := Option.ne_none_iff_exists'.mp hne
      obtain ⟨-, x, hx, -⟩ := hbook.core.event e he
      simp [hnil] at hx)
    fun e he => hbook.readyTime_le he
  have hsame : { q₁ with waitingOnRetry := false } = q₁ := by rw [← hw₁]
  rw [hsame, hq']
  exact Meets.ok ⟨hbook.of_core hlist hcore, hw', hsched⟩

end

lemma sendDeferredPacket_refused {q : PacketQueue α}
    {rest : List (DeferredPacket α)} (hl : q.transmitList = dp :: rest) (hready : dp.tick ≤ now)
    (hw : q.waitingOnRetry = false) :
    q.sendDeferredPacket isExpressSnoop now .refused = .ok { q with waitingOnRetry := true } := by
  rw [sendDeferredPacket, hw, if_neg Bool.false_ne_true, hl]
  dsimp only
  rw [if_neg (not_lt.mpr hready), ← hl]

end Queue

/-! ### A port -/

/-- A packet queue between calls, with what was queued and sent; for `refused` the peer owes a
retry. -/
structure PortRun (α : Type*) where
  queue : PacketQueue (Tagged α)
  now : ℕ
  queued : List (Tagged α)
  sent : List (Tagged α)
  refused : Option (Tagged α)

namespace PortRun

variable {α : Type*}

inductive Act (α : Type*) where
  | schedSendTiming (c : Call α)
  | sendEvent (answer : Answer α)
  | retry (answer : Answer α)
  | advance (t : ℕ)

/-- Packets are queued for now or later, a retry is for a refused packet, and time moves from event
to event, below `MaxTick`. -/
def Enabled (isExpressSnoop : α → Bool) (s : PortRun α) : Act α → Prop
  | .schedSendTiming c => c.Valid isExpressSnoop s.now
  | .sendEvent answer => s.queue.sendEvent = some s.now ∧
      ∀ calls, answer = .accepted calls → ∀ c ∈ calls, c.Valid isExpressSnoop s.now
  | .retry answer => s.refused ≠ none ∧
      ∀ calls, answer = .accepted calls → ∀ c ∈ calls, c.Valid isExpressSnoop s.now
  | .advance t => s.now ≤ t ∧ t < maxTick ∧ ∀ e, s.queue.sendEvent = some e → t ≤ e

/-- The send of the head of the list, by `send`. -/
def sendHead (s : PortRun α) (send : Answer (Tagged α) → Except Abort (PacketQueue (Tagged α))) :
    Answer α → Except Abort (PortRun α)
  | .refused => (send .refused).map fun q =>
    { s with queue := q, refused := s.queue.pending.head? }
  | .accepted calls =>
    let calls := tagCalls s.queued.length calls
    (send (.accepted calls)).map fun q =>
      { s with queue := q, queued := s.queued ++ calls.map Call.pkt,
               sent := s.sent ++ s.queue.pending.head?.toList, refused := none }

def step (isExpressSnoop : α → Bool) (s : PortRun α) : Act α → Except Abort (PortRun α)
  | .schedSendTiming c =>
    let c := c.tag s.queued.length
    (s.queue.schedSendTiming (fun x => isExpressSnoop x.pkt) s.now c).map fun q =>
      { s with queue := q, queued := s.queued ++ [c.pkt] }
  | .sendEvent answer =>
    s.sendHead (s.queue.processSendEvent (fun x => isExpressSnoop x.pkt) s.now) answer
  | .retry answer => s.sendHead (s.queue.retry (fun x => isExpressSnoop x.pkt) s.now) answer
  | .advance t => .ok { s with now := t }

inductive Run (isExpressSnoop : α → Bool) : PortRun α → Prop
  | init {now : ℕ} (h : now < maxTick) : Run isExpressSnoop ⟨⟨[], none, false⟩, now, [], [], none⟩
  | step {s s' : PortRun α} {a : Act α} (hs : Run isExpressSnoop s)
      (ha : Enabled isExpressSnoop s a)
      (h : step isExpressSnoop s a = .ok s') : Run isExpressSnoop s'

structure Inv (s : PortRun α) : Prop where
  book : Book s.now s.queued s.sent s.queue
  scheduled : Scheduled s.queue
  waiting : s.queue.waitingOnRetry = true → s.refused ≠ none ∧ s.refused = s.queue.pending.head?
  idle : s.queue.waitingOnRetry = false → s.refused = none
  before : s.now < maxTick

variable {isExpressSnoop : α → Bool} {s s' : PortRun α} {a : Act α}

lemma inv_init {now : ℕ} (h : now < maxTick) :
    Inv (⟨⟨[], none, false⟩, now, [], [], none⟩ : PortRun α) := by
  refine ⟨⟨⟨List.Pairwise.nil, fun e he => ?_, fun hw => ?_⟩, List.Pairwise.nil,
    List.Pairwise.nil, List.Perm.nil, rfl⟩, fun _ dp hdp => ?_, fun hw => ?_, fun _ => rfl, h⟩
  · cases he
  · cases hw
  · simp at hdp
  · cases hw

/-- A send, with the head ready and neither event nor retry outstanding. -/
lemma Inv.sendHead {q : PacketQueue (Tagged α)} (hbook : Book s.now s.queued s.sent q)
    (hbefore : s.now < maxTick) {dp : DeferredPacket (Tagged α)}
    {rest : List (DeferredPacket (Tagged α))} (hl : q.transmitList = dp :: rest)
    (hlist : s.queue.transmitList = q.transmitList) (hready : dp.tick ≤ s.now)
    (hw : q.waitingOnRetry = false) (hnone : q.sendEvent = none) {answer : Answer α}
    (hanswer : ∀ calls, answer = .accepted calls → ∀ c ∈ calls, c.Valid isExpressSnoop s.now) :
    Meets (· = .beyondLimit) Inv
      (s.sendHead (q.sendDeferredPacket (fun x => isExpressSnoop x.pkt) s.now) answer) := by
  have hhead : s.queue.pending.head? = some dp.pkt := by
    rw [pending, hlist, hl]
    rfl
  cases answer with
  | refused =>
    rw [PortRun.sendHead, sendDeferredPacket_refused hl hready hw]
    refine Meets.ok ⟨hbook.of_core rfl ⟨hbook.core.inTime, ?_, ?_⟩, fun h => (by cases h),
      fun _ => ?_, fun h => (by cases h), hbefore⟩
    · intro e he
      rw [hnone] at he
      cases he
    · exact fun _ => ⟨hnone, dp, by simp [hl], hready⟩
    · change s.queue.pending.head? ≠ none ∧ s.queue.pending.head? = q.pending.head?
      rw [hhead, pending, hl]
      exact ⟨Option.some_ne_none _, rfl⟩
  | accepted calls =>
    refine (hbook.sendDeferredPacket_accepted hl hready hw hnone (hanswer calls rfl)).map
      fun q' ⟨hbook', hw', hsched⟩ => ⟨?_, hsched, fun h => ?_, fun _ => rfl, hbefore⟩
    · rw [hhead]
      exact hbook'
    · rw [hw'] at h
      cases h

/-- **Every step** keeps the invariant; only the limit of 100 packets stops it. -/
lemma Inv.step (h : Inv s) (ha : Enabled isExpressSnoop s a) :
    Meets (· = .beyondLimit) Inv (PortRun.step isExpressSnoop s a) := by
  cases a with
  | schedSendTiming c =>
    refine (h.book.schedSendTiming ha).map fun q' ⟨hbook, hw, hsched, hhead⟩ =>
      ⟨hbook, hsched h.scheduled, fun hw' => ?_, fun hw' => h.idle (hw ▸ hw'), h.before⟩
    obtain ⟨hne, hrefused⟩ := h.waiting (hw ▸ hw')
    refine ⟨hne, hrefused.trans ?_⟩
    simp only [pending, head?_map, hhead (hw ▸ hw')]
  | sendEvent answer =>
    obtain ⟨hevent, hanswer⟩ := ha
    obtain ⟨-, dp, hdp, hle⟩ := h.book.core.event _ hevent
    have hw : s.queue.waitingOnRetry = false := by
      by_contra hne
      have := (h.book.core.waiting (by simpa using hne)).1
      rw [hevent] at this
      cases this
    obtain ⟨rest, hl⟩ : ∃ rest, s.queue.transmitList = dp :: rest :=
      ⟨_, (head?_eq_some_iff.mp hdp).choose_spec⟩
    have hcall : s.queue.processSendEvent (fun x => isExpressSnoop x.pkt) s.now =
        { s.queue with sendEvent := none }.sendDeferredPacket
          (fun x => isExpressSnoop x.pkt) s.now := by
      funext x
      rw [processSendEvent, if_neg (by simp [hw])]
    have hbook : Book s.now s.queued s.sent { s.queue with sendEvent := none } := by
      refine h.book.of_core rfl ⟨h.book.core.inTime, fun e he => ?_, fun hw' => ?_⟩
      · cases he
      · rw [hw] at hw'
        cases hw'
    rw [PortRun.step, hcall]
    exact Inv.sendHead hbook h.before hl rfl hle hw rfl hanswer
  | retry answer =>
    obtain ⟨hrefused, hanswer⟩ := ha
    have hw : s.queue.waitingOnRetry = true := by
      by_contra hne
      exact hrefused (h.idle (by simpa using hne))
    obtain ⟨hnone, dp, hdp, hle⟩ := h.book.core.waiting hw
    obtain ⟨rest, hl⟩ : ∃ rest, s.queue.transmitList = dp :: rest :=
      ⟨_, (head?_eq_some_iff.mp hdp).choose_spec⟩
    have hcall : s.queue.retry (fun x => isExpressSnoop x.pkt) s.now =
        { s.queue with waitingOnRetry := false }.sendDeferredPacket
          (fun x => isExpressSnoop x.pkt) s.now := by
      funext x
      rw [PacketQueue.retry, hw, if_pos rfl]
    have hbook : Book s.now s.queued s.sent { s.queue with waitingOnRetry := false } := by
      refine h.book.of_core rfl { h.book.core with waiting := fun hw' => ?_ }
      cases hw'
    rw [PortRun.step, hcall]
    exact Inv.sendHead hbook h.before hl rfl hle rfl hnone hanswer
  | advance t =>
    obtain ⟨hle, hlt, hevent⟩ := ha
    refine Meets.ok { h with
      book := h.book.of_core rfl ⟨h.book.core.inTime, fun e he => ?_, fun hw => ?_⟩
      before := hlt }
    · exact ⟨hevent e he, (h.book.core.event e he).2⟩
    · obtain ⟨hnone, dp, hdp, hdle⟩ := h.book.core.waiting hw
      exact ⟨hnone, dp, hdp, hdle.trans hle⟩

lemma Run.inv (h : Run isExpressSnoop s) : Inv s := by
  induction h with
  | init h => exact inv_init h
  | step _ ha hstep ih => exact (ih.step ha).result hstep

/-- **The packet queue**: in every state of every run the list is sorted by tick, equal ticks in the
order of queueing; `force_order` is kept; an awaited retry is for the head, and excludes an event;
otherwise the head has an event, unless its tick is `MaxTick`; every packet waits or was sent, once;
and no assertion fails next. -/
theorem run_sound (isExpressSnoop : α → Bool) (s : PortRun α) (h : Run isExpressSnoop s) :
    (s.queue.transmitList.Pairwise fun a b =>
        a.tick < b.tick ∨ a.tick = b.tick ∧ a.pkt.id < b.pkt.id) ∧
    (∀ before x after, s.sent = before ++ x :: after → x.forced = true →
      ∀ y ∈ s.queued, y.id < x.id → y ∈ before) ∧
    (s.queue.waitingOnRetry = true → s.queue.sendEvent = none ∧ s.refused ≠ none ∧
      s.refused = s.queue.pending.head?) ∧
    (s.queue.waitingOnRetry = false → ∀ dp ∈ s.queue.transmitList.head?, dp.tick ≠ maxTick →
      s.queue.sendEvent ≠ none) ∧
    ((s.sent ++ s.queue.pending).Perm s.queued ∧ s.queued.map Tagged.id =
      List.range s.queued.length) ∧
    ∀ a, Enabled isExpressSnoop s a →
      (∃ s', step isExpressSnoop s a = .ok s') ∨ step isExpressSnoop s a = .error .beyondLimit := by
  have hinv := h.inv
  refine ⟨hinv.book.ordered, ?_, fun hw => ?_, hinv.scheduled, ⟨hinv.book.perm, hinv.book.ids⟩,
    fun a ha => ?_⟩
  · intro before x after hsent hforced y hy hlt
    have hlog := hinv.book.forced
    have hmem := hinv.book.perm.mem_iff.mpr hy
    rw [hsent, append_assoc] at hlog hmem
    rcases mem_append.mp hmem with hb | ha
    · exact hb
    · -- at `x` or behind it only later packets stand
      rcases mem_cons.mp ha with rfl | ha
      · omega
      · have := (pairwise_cons.mp (pairwise_append.mp hlog).2.1).1 y ha hforced
        omega
  · exact ⟨(hinv.book.core.waiting hw).1, hinv.waiting hw⟩
  · cases hstep : step isExpressSnoop s a with
    | ok s' => exact Or.inl ⟨s', rfl⟩
    | error e => exact Or.inr (congrArg _ ((hinv.step ha).fails e hstep))

/-- A packet is queued, refused and sent, another queued during that send. -/
theorem run_sound_refused : ∃ s : PortRun ℕ, Run (fun _ => false) s ∧ s.sent.length = 1 ∧
    s.queue.transmitList.length = 1 ∧ s.queue.sendEvent = some 11 ∧
    (s.queue.waitingOnRetry = false → ∀ dp ∈ s.queue.transmitList.head?, dp.tick ≠ maxTick →
      s.queue.sendEvent ≠ none) := by
  have h0 : Run (fun _ : ℕ => false) ⟨⟨[], none, false⟩, 5, [], [], none⟩ := .init (by decide)
  have h1 := h0.step (a := .schedSendTiming ⟨7, 8, true⟩) ⟨by decide, rfl⟩ rfl
  have h2 := h1.step (a := .advance 8) ⟨by decide, by decide, by decide⟩ rfl
  have h3 := h2.step (a := .sendEvent .refused) ⟨rfl, fun _ h => by cases h⟩ rfl
  have h4 := h3.step (a := .advance 10) ⟨by decide, by decide, by decide⟩ rfl
  have h5 := h4.step (a := .retry (.accepted [⟨9, 10, false⟩])) ⟨by decide, ?_⟩ rfl
  · exact ⟨_, h5, rfl, rfl, rfl, (run_sound _ _ h5).2.2.2.1⟩
  · intro calls hcalls c hc
    cases hcalls
    rw [mem_singleton.mp hc]
    exact ⟨by decide, rfl⟩

/-- A packet queued for `MaxTick` gets no event. -/
theorem run_maxTick : ∃ s : PortRun ℕ, Run (fun _ => false) s ∧ s.queue.waitingOnRetry = false ∧
    s.queue.transmitList ≠ [] ∧ s.queue.sendEvent = none := by
  have h0 : Run (fun _ : ℕ => false) ⟨⟨[], none, false⟩, 5, [], [], none⟩ := .init (by decide)
  have h1 := h0.step (a := .schedSendTiming ⟨7, maxTick, false⟩) ⟨by decide, rfl⟩ rfl
  exact ⟨_, h1, rfl, by simp, rfl⟩

end PortRun

end PacketQueue

end ShifDram
