import ShifDram.Control.Fallible
import ShifDram.Queue.Log

/-!
The flow control of a crossbar layer (`BaseXBar::Layer` in `mem/xbar.cc`) and its use by
`CoherentXBar::recvTimingReq`.

A port that sends asks the layer with `tryTiming`. A packet let through is offered to the peer,
which may make other ports send before the crossbar reports back with `succeededTiming` or
`failedTiming`. `retryWaiting` tells a port to retry, which may make ports send from inside the
call. `Crossing` keeps the calls in progress on a stack.
-/

namespace ShifDram

open List

namespace XBar

inductive State where
  | idle | busy | retry
  deriving DecidableEq

/-- A layer; `releaseEvent` is its event's tick. -/
structure Layer (P : Type*) where
  state : State
  waitingForLayer : List P
  waitingForPeer : Option P
  releaseEvent : Option ℕ

inductive Abort where
  /-- `assert(state == BUSY)` -/
  | notBusy
  /-- `assert(until != 0)` -/
  | untilZero
  /-- Scheduling an event that is scheduled. -/
  | scheduledTwice
  /-- `assert(std::find(..., src_port) == waitingForLayer.end())` -/
  | alreadyWaiting
  /-- `assert(waitingForPeer == NULL)` -/
  | peerAwaited
  /-- `assert(!releaseEvent.scheduled())` -/
  | releaseScheduled
  /-- `assert(!waitingForLayer.empty())` -/
  | noneWaiting
  /-- `assert(state == IDLE)` -/
  | notIdle
  /-- `assert(waitingForPeer != NULL)` -/
  | peerNotAwaited
  deriving DecidableEq

namespace Layer

variable {P : Type*} [DecidableEq P]
variable (L : Layer P)

def occupyLayer (till : ℕ) : Except Abort (Layer P) :=
  if L.state ≠ .busy then .error .notBusy
  else if till = 0 then .error .untilZero
  else if L.releaseEvent.isSome then .error .scheduledTwice
  else .ok { L with releaseEvent := some till }

/-- `tryTiming`; the flag: the packet may pass. -/
def tryTiming (srcPort : P) : Except Abort (Layer P × Bool) :=
  if L.state = .busy ∨ L.waitingForPeer.isSome then
    if srcPort ∈ L.waitingForLayer then .error .alreadyWaiting
    else .ok ({ L with waitingForLayer := L.waitingForLayer ++ [srcPort] }, false)
  else .ok ({ L with state := .busy }, true)

def succeededTiming (busyTime : ℕ) : Except Abort (Layer P) :=
  if L.state ≠ .busy then .error .notBusy else L.occupyLayer busyTime

def failedTiming (srcPort : P) (busyTime : ℕ) : Except Abort (Layer P) :=
  if L.waitingForPeer.isSome then .error .peerAwaited
  else
    let L := { L with waitingForPeer := some srcPort }
    if L.state ≠ .busy then .error .notBusy else L.occupyLayer busyTime

/-- `retryWaiting` up to `sendRetry`, with its port. -/
def retryWaiting : Except Abort (Layer P × P) :=
  match L.waitingForLayer with
  | [] => .error .noneWaiting
  | retryingPort :: rest =>
    if L.state ≠ .idle then .error .notIdle
    else .ok ({ L with state := .retry, waitingForLayer := rest }, retryingPort)

/-- The rest of `retryWaiting`; `edge` is `xbar.clockEdge()`. -/
def retrySent (edge : ℕ) : Except Abort (Layer P) :=
  if L.state = .retry then { L with state := .busy }.occupyLayer edge else .ok L

/-- `releaseLayer`, up to the retry it may send. -/
def releaseLayer : Except Abort (Layer P × Option P) :=
  if L.state ≠ .busy then .error .notBusy
  else if L.releaseEvent.isSome then .error .releaseScheduled
  else
    let L := { L with state := .idle }
    if L.waitingForLayer ≠ [] ∧ L.waitingForPeer = none then
      L.retryWaiting.map fun r => (r.1, some r.2)
    else .ok (L, none)

/-- `recvRetry`, up to the retry it may send. -/
def recvRetry : Except Abort (Layer P × Option P) :=
  match L.waitingForPeer with
  | none => .error .peerNotAwaited
  | some p =>
    let L := { L with waitingForLayer := p :: L.waitingForLayer, waitingForPeer := none }
    if L.state = .idle then L.retryWaiting.map fun r => (r.1, some r.2)
    else if L.state = .busy then .ok (L, none)
    else .error .notBusy

def waiting : List P := L.waitingForPeer.toList ++ L.waitingForLayer

end Layer

/-- `clockEdge(Cycles(c))` for a given period. -/
def clockEdge (period now c : ℕ) : ℕ := ((now + period - 1) / period + c) * period

/-- A packet offered to the peer, or a port told to retry. -/
inductive Frame (P : Type*) where
  | sending (srcPort : P)
  | retrying (port : P)
  deriving DecidableEq

inductive Notice (P : Type*) where
  | refused (port : P)
  | retry (port : P)
  deriving DecidableEq

/-- A layer with its calls in progress, innermost first, and the log; `peerOwes`: the peer has
refused a packet. -/
structure Crossing (P : Type*) where
  layer : Layer P
  stack : List (Frame P)
  now : ℕ
  log : List (Notice P)
  peerOwes : Bool

inductive Act (P : Type*) where
  | tryTiming (srcPort : P)
  | succeeded (payloadDelay : ℕ)
  | failed
  | release
  | recvRetry
  | retryReturns
  | advance (t : ℕ)

def Act.returns {P : Type*} : Act P → Bool
  | .succeeded _ | .failed | .retryReturns => true
  | _ => false

namespace Crossing

variable {P : Type*} [DecidableEq P] {st : List (Frame P)} {L : Layer P} {q : P} {till : ℕ}

/-- A retry has answered every refusal of the port. -/
def Settled (log : List (Notice P)) (p : P) : Prop := log.count (.refused p) = log.count (.retry p)

/-- A port waits for its retry before sending again; the peer sends a retry it owes; release event
and clock come between calls. -/
def Enabled (x : Crossing P) : Act P → Prop
  | .tryTiming srcPort => Settled x.log srcPort
  | .succeeded _ => ∃ p rest, x.stack = .sending p :: rest
  | .failed => ∃ p rest, x.stack = .sending p :: rest ∧ Settled x.log p
  | .release => x.stack = [] ∧ x.layer.releaseEvent = some x.now
  | .recvRetry => x.peerOwes = true
  | .retryReturns => ∃ p rest, x.stack = .retrying p :: rest
  | .advance t => x.stack = [] ∧ x.now ≤ t ∧ ∀ e, x.layer.releaseEvent = some e → t ≤ e

def tell (x : Crossing P) (r : Layer P × Option P) : Crossing P :=
  match r.2 with
  | some p => { x with layer := r.1, stack := .retrying p :: x.stack, log := .retry p :: x.log }
  | none => { x with layer := r.1 }

def step (period : ℕ) (x : Crossing P) : Act P → Except Abort (Crossing P)
  | .tryTiming p => (x.layer.tryTiming p).map fun r =>
    if r.2 then { x with layer := r.1, stack := .sending p :: x.stack }
    else { x with layer := r.1, log := .refused p :: x.log }
  | .succeeded payloadDelay =>
    match x.stack with
    | .sending _ :: rest =>
      (x.layer.succeededTiming (clockEdge period x.now 1 + payloadDelay)).map fun L =>
        { x with layer := L, stack := rest }
    | _ => .ok x
  | .failed =>
    match x.stack with
    | .sending p :: rest => (x.layer.failedTiming p (clockEdge period x.now 1)).map fun L =>
      { x with layer := L, stack := rest, log := .refused p :: x.log, peerOwes := true }
    | _ => .ok x
  | .release => { x.layer with releaseEvent := none }.releaseLayer.map x.tell
  | .recvRetry => x.layer.recvRetry.map { x with peerOwes := false }.tell
  | .retryReturns =>
    match x.stack with
    | .retrying _ :: rest => (x.layer.retrySent (clockEdge period x.now 0)).map fun L =>
      { x with layer := L, stack := rest }
    | _ => .ok x
  | .advance t => .ok { x with now := t }

inductive Run (P : Type*) [DecidableEq P] (period : ℕ) : Crossing P → Prop
  | init (now : ℕ) : Run P period ⟨⟨.idle, [], none, none⟩, [], now, [], false⟩
  | step {x x' : Crossing P} {a : Act P} (hx : Run P period x) (ha : Enabled x a)
      (h : step period x a = .ok x') : Run P period x'

structure Free (x : Crossing P) (st : State) : Prop where
  state : x.layer.state = st
  event : x.layer.releaseEvent = none

def Occupied (x : Crossing P) : Prop :=
  x.layer.state = .busy ∧ ∃ e, x.layer.releaseEvent = some e ∧ x.now ≤ e ∧ 0 < e

/-- The layer's state for each stack of calls. -/
def Phase (x : Crossing P) : List (Frame P) → Prop
  | [] => Occupied x ∨ Free x .idle ∧
      (x.layer.waitingForPeer = none → x.layer.waitingForLayer = []) ∧
      (x.layer.waitingForPeer ≠ none → 0 < x.now)
  | [.sending _] => Free x .busy ∧ x.layer.waitingForPeer = none
  | [.retrying _] => 0 < x.now ∧ (Occupied x ∨ Free x .retry ∧ x.layer.waitingForPeer = none)
  | [.sending _, .retrying _] => 0 < x.now ∧ Free x .busy ∧ x.layer.waitingForPeer = none
  | _ => False

/-- A refusal comes when no retry is owed, a retry when one is. -/
def Due (log : List (Notice P)) : Notice P → Prop
  | .refused p => Settled log p
  | .retry p => log.count (.refused p) = log.count (.retry p) + 1

/-- The ports owed a retry are those that wait, once each. -/
structure Owing (log : List (Notice P)) (waiting : List P) : Prop where
  nodup : waiting.Nodup
  owed : ∀ p, log.count (.refused p) = log.count (.retry p) + waiting.count p
  alternate : Backed (fun n older => Due older n) log

structure Inv (x : Crossing P) : Prop where
  phase : Phase x x.stack
  owing : Owing x.log x.layer.waiting
  peer : x.peerOwes = x.layer.waitingForPeer.isSome

variable {log : List (Notice P)} {w w' : List P} {p : P}

lemma Owing.settled_iff (h : Owing log w) : Settled log p ↔ p ∉ w := by
  rw [Settled, h.owed p, ← count_eq_zero]
  omega

lemma Owing.refused (h : Owing log w) (hp : Settled log p) (hw : w'.Perm (p :: w)) :
    Owing (.refused p :: log) w' := by
  refine ⟨hw.nodup_iff.mpr (nodup_cons.mpr ⟨h.settled_iff.mp hp, h.nodup⟩), fun q => ?_,
    h.alternate.cons hp⟩
  have hq := h.owed q
  rw [hw.count_eq q]
  by_cases hqp : q = p
  · subst hqp
    simp only [count_cons_self, count_cons, reduceCtorEq, beq_iff_eq, if_false]
    omega
  · have hne : Notice.refused p ≠ Notice.refused q := fun heq => hqp (by cases heq; rfl)
    rw [count_cons_of_ne hne, count_cons_of_ne (by simp), count_cons_of_ne (Ne.symm hqp)]
    exact hq

lemma Owing.retry (h : Owing log w) (hw : w.Perm (p :: w')) : Owing (.retry p :: log) w' := by
  have hnodup := nodup_cons.mp (hw.nodup_iff.mp h.nodup)
  have howed : ∀ q, log.count (.refused q) = log.count (.retry q) + (p :: w').count q := fun q => by
    rw [h.owed q, hw.count_eq q]
  have hzero : w'.count p = 0 := count_eq_zero.mpr hnodup.1
  refine ⟨hnodup.2, fun q => ?_, h.alternate.cons ?_⟩
  · have hq := howed q
    by_cases hqp : q = p
    · subst hqp
      rw [count_cons_self] at hq
      rw [count_cons_self, count_cons_of_ne (by simp)]
      omega
    · have hne : Notice.retry p ≠ Notice.retry q := fun heq => hqp (by cases heq; rfl)
      rw [count_cons_of_ne hne, count_cons_of_ne (by simp), hq, count_cons_of_ne (Ne.symm hqp)]
  · have hp := howed p
    rw [count_cons_self, hzero] at hp
    exact hp

variable {period : ℕ} {x x' : Crossing P} {a : Act P}

lemma le_clockEdge (hperiod : 0 < period) (now : ℕ) : now ≤ clockEdge period now 0 := by
  have hdiv := Nat.lt_div_mul_add (a := now + period - 1) hperiod
  rw [clockEdge, Nat.add_zero]
  omega

lemma lt_clockEdge (hperiod : 0 < period) (now : ℕ) : now < clockEdge period now 1 := by
  have hle := le_clockEdge hperiod now
  have hsucc : clockEdge period now 1 = clockEdge period now 0 + period := by
    simp only [clockEdge]
    ring
  omega

omit [DecidableEq P] in
lemma occupyLayer_eq (hstate : L.state = .busy)
    (hevent : L.releaseEvent = none) (htill : 0 < till) :
    L.occupyLayer till = .ok { L with releaseEvent := some till } := by
  rw [Layer.occupyLayer, if_neg (not_not.mpr hstate), if_neg (by omega), hevent]
  rfl

omit [DecidableEq P] in
lemma failedTiming_eq (hstate : L.state = .busy)
    (hevent : L.releaseEvent = none) (hpeer : L.waitingForPeer = none) (htill : 0 < till) :
    L.failedTiming p till = .ok { L with waitingForPeer := some p, releaseEvent := some till } := by
  rw [Layer.failedTiming, if_neg (by simp [hpeer])]
  dsimp only
  rw [if_neg (not_not.mpr hstate)]
  exact occupyLayer_eq hstate hevent htill

omit [DecidableEq P] in
lemma retrySent_eq {edge : ℕ} (hstate : L.state = .retry)
    (hevent : L.releaseEvent = none) (hedge : 0 < edge) :
    L.retrySent edge = .ok { L with state := .busy, releaseEvent := some edge } := by
  rw [Layer.retrySent, if_pos hstate]
  exact occupyLayer_eq rfl hevent hedge

lemma tryTiming_eq (hp : p ∉ L.waitingForLayer) :
    L.tryTiming p = .ok (if L.state = .busy ∨ L.waitingForPeer.isSome then
      ({ L with waitingForLayer := L.waitingForLayer ++ [p] }, false)
      else ({ L with state := .busy }, true)) := by
  rw [Layer.tryTiming, if_neg hp]
  split_ifs <;> rfl

def Outer (x : Crossing P) (st : List (Frame P)) : Prop :=
  st = [] ∨ ∃ r, st = [.retrying r] ∧ 0 < x.now

omit [DecidableEq P] in
lemma Phase.sending (h : Phase x (.sending q :: st)) :
    Free x .busy ∧ x.layer.waitingForPeer = none ∧ Outer x st := by
  match st, h with
  | [], h => exact ⟨h.1, h.2, Or.inl rfl⟩
  | [.retrying r], h => exact ⟨h.2.1, h.2.2, Or.inr ⟨r, rfl, h.1⟩⟩

omit [DecidableEq P] in
lemma Outer.phase (h : Outer x st) (hnow : x'.now = x.now) (hocc : Occupied x') : Phase x' st := by
  rcases h with rfl | ⟨r, rfl, hpos⟩
  · exact Or.inl hocc
  · exact ⟨hnow ▸ hpos, Or.inl hocc⟩

lemma Inv.phase_of (h : Inv x) (hst : x.stack = st) : Phase x st := hst ▸ h.phase

/-- The step fails no assertion and keeps the invariant; a return leaves the layer busy. -/
def Goes (period : ℕ) (x : Crossing P) (a : Act P) : Prop :=
  ∃ x', step period x a = .ok x' ∧ Inv x' ∧ (a.returns = true → Occupied x')

lemma Inv.tryTiming (period : ℕ) (h : Inv x) (hp : Settled x.log p) :
    Goes period x (.tryTiming p) := by
  have hmem : p ∉ x.layer.waiting := h.owing.settled_iff.mp hp
  have hlayer : p ∉ x.layer.waitingForLayer := fun hin => hmem (mem_append_right _ hin)
  rw [Goes, step, tryTiming_eq hlayer]
  by_cases hbusy : x.layer.state = .busy ∨ x.layer.waitingForPeer.isSome
  · rw [if_pos hbusy]
    refine ⟨_, rfl, ⟨?_, h.owing.refused hp ?_, h.peer⟩, nofun⟩
    · -- a longer queue of waiting ports matters to an idle layer only
      have hphase := h.phase
      rcases hst : x.stack with _ | ⟨f, st⟩
      · rw [hst] at hphase
        rcases hphase with hocc | ⟨hfree, -, hpos⟩
        · exact Or.inl hocc
        · refine Or.inr ⟨{ hfree with }, fun hnone => ?_, hpos⟩
          have hnone' : x.layer.waitingForPeer = none := hnone
          simp [hfree.state, hnone'] at hbusy
      · rw [hst] at hphase
        cases f with
        | sending q =>
          match st, hphase with
          | [], hphase => exact ⟨⟨hphase.1.state, hphase.1.event⟩, hphase.2⟩
          | [.retrying r], hphase =>
            exact ⟨hphase.1, ⟨hphase.2.1.state, hphase.2.1.event⟩, hphase.2.2⟩
        | retrying q =>
          match st, hphase with
          | [], hphase =>
            rcases hphase with ⟨hpos, hocc | ⟨hfree, hnone⟩⟩
            · exact ⟨hpos, Or.inl hocc⟩
            · exact ⟨hpos, Or.inr ⟨{ hfree with }, hnone⟩⟩
    · change (x.layer.waitingForPeer.toList ++ (x.layer.waitingForLayer ++ [p])).Perm _
      rw [← append_assoc]
      exact perm_append_singleton _ _
  · rw [if_neg hbusy]
    have hidle : x.layer.state ≠ .busy ∧ x.layer.waitingForPeer = none := by
      simpa [not_or] using hbusy
    refine ⟨_, rfl, ⟨?_, h.owing, h.peer⟩, nofun⟩
    have hphase := h.phase
    rcases hst : x.stack with _ | ⟨f, st⟩
    · rw [hst] at hphase
      rcases hphase with hocc | ⟨hfree, -, -⟩
      · exact absurd hocc.1 hidle.1
      · exact ⟨⟨rfl, hfree.event⟩, hidle.2⟩
    · rw [hst] at hphase
      cases f with
      | sending q => exact absurd hphase.sending.1.state hidle.1
      | retrying q =>
        match st, hphase with
        | [], hphase =>
          rcases hphase with ⟨hpos, hocc | ⟨hfree, hnone⟩⟩
          · exact absurd hocc.1 hidle.1
          · exact ⟨hpos, ⟨rfl, hfree.event⟩, hnone⟩

lemma Inv.succeeded (hperiod : 0 < period) (h : Inv x)
    (hst : x.stack = .sending q :: st) (payloadDelay : ℕ) :
    Goes period x (.succeeded payloadDelay) := by
  obtain ⟨hfree, -, houter⟩ := (h.phase_of hst).sending
  have hlt := lt_clockEdge hperiod x.now
  rw [Goes, step, hst]
  rw [Layer.succeededTiming, if_neg (not_not.mpr hfree.state),
    occupyLayer_eq hfree.state hfree.event (by omega)]
  have hocc : Occupied { x with
      layer := { x.layer with releaseEvent := some (clockEdge period x.now 1 + payloadDelay) }
      stack := st } :=
    ⟨hfree.state, _, rfl, by dsimp only; omega, by omega⟩
  exact ⟨_, rfl, ⟨houter.phase rfl hocc, h.owing, h.peer⟩, fun _ => hocc⟩

lemma Inv.failed (hperiod : 0 < period) (h : Inv x)
    (hst : x.stack = .sending q :: st) (hq : Settled x.log q) :
    Goes period x .failed := by
  obtain ⟨hfree, hnone, houter⟩ := (h.phase_of hst).sending
  have hlt := lt_clockEdge hperiod x.now
  rw [Goes, step, hst]
  dsimp only
  rw [failedTiming_eq hfree.state hfree.event hnone (by omega)]
  have hocc : Occupied { x with
      layer := { x.layer with
        waitingForPeer := some q, releaseEvent := some (clockEdge period x.now 1) }
      stack := st, log := .refused q :: x.log, peerOwes := true } :=
    ⟨hfree.state, _, rfl, hlt.le, by omega⟩
  refine ⟨_, rfl, ⟨houter.phase rfl hocc, h.owing.refused hq ?_, rfl⟩, fun _ => hocc⟩
  simp [Layer.waiting, hnone]

lemma Inv.release (period : ℕ) (h : Inv x) (hst : x.stack = [])
    (hevent : x.layer.releaseEvent = some x.now) :
    Goes period x .release := by
  obtain ⟨hbusy, e, he, hle, hpos⟩ : Occupied x := by
    rcases h.phase_of hst with hocc | ⟨hfree, -⟩
    · exact hocc
    · rw [hfree.event] at hevent
      cases hevent
  obtain rfl : x.now = e := by
    rw [he] at hevent
    exact (Option.some.inj hevent).symm
  rw [Goes, step, Layer.releaseLayer, if_neg (not_not.mpr hbusy), if_neg (by simp)]
  by_cases hwait : x.layer.waitingForLayer ≠ [] ∧ x.layer.waitingForPeer = none
  · obtain ⟨hne, hnone⟩ := hwait
    obtain ⟨r, rest, hl⟩ := exists_cons_of_ne_nil hne
    rw [if_pos ⟨hne, hnone⟩, Layer.retryWaiting]
    simp only [hl]
    refine ⟨_, rfl, ⟨?_, ?_, ?_⟩, nofun⟩
    · simp only [tell, hst]
      exact ⟨hpos, Or.inr ⟨⟨rfl, rfl⟩, hnone⟩⟩
    · refine h.owing.retry ?_
      change (x.layer.waitingForPeer.toList ++ x.layer.waitingForLayer).Perm
        (r :: (x.layer.waitingForPeer.toList ++ rest))
      rw [hnone, hl]
      exact List.Perm.refl _
    · exact h.peer
  · rw [if_neg hwait]
    refine ⟨_, rfl, ⟨?_, h.owing, h.peer⟩, nofun⟩
    simp only [tell, hst]
    refine Or.inr ⟨⟨rfl, rfl⟩, fun hnone => ?_, fun _ => hpos⟩
    by_contra hne
    exact hwait ⟨hne, hnone⟩

lemma Inv.recvRetry (period : ℕ) (h : Inv x) (howes : x.peerOwes = true) :
    Goes period x .recvRetry := by
  obtain ⟨q, hq⟩ : ∃ q, x.layer.waitingForPeer = some q := by
    rw [h.peer] at howes
    exact Option.isSome_iff_exists.mp howes
  have hwaiting : x.layer.waiting = q :: x.layer.waitingForLayer := by
    simp [Layer.waiting, hq]
  have howing := h.owing
  rw [hwaiting] at howing
  have hphase := h.phase
  rw [Goes, step, Layer.recvRetry, hq]
  dsimp only
  -- either the layer is busy and the port queues up in front, or it is idle
  have hcases : (Occupied x ∧ Outer x x.stack) ∨ (x.stack = [] ∧ Free x .idle ∧ 0 < x.now) := by
    rcases hst : x.stack with _ | ⟨f, st⟩
    · rw [hst] at hphase
      rcases hphase with hocc | ⟨hfree, -, hpos⟩
      · exact Or.inl ⟨hocc, Or.inl rfl⟩
      · exact Or.inr ⟨rfl, hfree, hpos (by simp [hq])⟩
    · rw [hst] at hphase
      cases f with
      | sending r =>
        rw [hphase.sending.2.1] at hq
        cases hq
      | retrying r =>
        match st, hphase with
        | [], ⟨hpos, hocc⟩ =>
          rcases hocc with hocc | ⟨-, hnone⟩
          · exact Or.inl ⟨hocc, Or.inr ⟨r, rfl, hpos⟩⟩
          · rw [hnone] at hq
            cases hq
  rcases hcases with ⟨hocc, houter⟩ | ⟨hst, hfree, hpos⟩
  · rw [if_neg (by rw [hocc.1]; simp), if_pos hocc.1]
    exact ⟨_, rfl, ⟨houter.phase rfl hocc, howing, rfl⟩, nofun⟩
  · rw [if_pos hfree.state, Layer.retryWaiting]
    dsimp only
    rw [if_neg (not_not.mpr hfree.state)]
    refine ⟨_, rfl, ⟨?_, howing.retry (List.Perm.refl _), rfl⟩, nofun⟩
    simp only [tell, hst]
    exact ⟨hpos, Or.inr ⟨⟨rfl, hfree.event⟩, rfl⟩⟩

lemma Inv.retryReturns (hperiod : 0 < period) (h : Inv x)
    (hst : x.stack = .retrying q :: st) : Goes period x .retryReturns := by
  match st, h.phase_of hst with
  | [], ⟨hpos, hocc⟩ =>
    have hle := le_clockEdge hperiod x.now
    rw [Goes, step, hst]
    rcases hocc with hocc | ⟨hfree, hnone⟩
    · rw [Layer.retrySent, if_neg (by rw [hocc.1]; simp)]
      exact ⟨_, rfl, ⟨Or.inl hocc, h.owing, h.peer⟩, fun _ => hocc⟩
    · rw [retrySent_eq hfree.state hfree.event (by omega)]
      have hocc : Occupied { x with
          layer := { x.layer with
            state := .busy, releaseEvent := some (clockEdge period x.now 0) }
          stack := [] } :=
        ⟨rfl, _, rfl, hle, by omega⟩
      exact ⟨_, rfl, ⟨Or.inl hocc, h.owing, h.peer⟩, fun _ => hocc⟩

/-- **Every step** keeps the invariant and fails no assertion. -/
lemma Inv.step (hperiod : 0 < period) (h : Inv x) (ha : Enabled x a) : Goes period x a := by
  cases a with
  | tryTiming p => exact h.tryTiming period ha
  | succeeded d =>
    obtain ⟨q, st, hst⟩ := ha
    exact h.succeeded hperiod hst d
  | failed =>
    obtain ⟨q, st, hst, hq⟩ := ha
    exact h.failed hperiod hst hq
  | release => exact h.release period ha.1 ha.2
  | recvRetry => exact h.recvRetry period ha
  | retryReturns =>
    obtain ⟨q, st, hst⟩ := ha
    exact h.retryReturns hperiod hst
  | advance t =>
    obtain ⟨hst, hle, hevent⟩ := ha
    refine ⟨_, rfl, ⟨?_, h.owing, h.peer⟩, nofun⟩
    simp only [hst]
    rcases h.phase_of hst with ⟨hbusy, e, he, -, hpos⟩ | ⟨hfree, hnil, hpos⟩
    · exact Or.inl ⟨hbusy, e, he, hevent e he, hpos⟩
    · exact Or.inr ⟨{ hfree with }, hnil, fun hne => (hpos hne).trans_le hle⟩

lemma Run.inv (hperiod : 0 < period) (h : Run P period x) : Inv x := by
  induction h with
  | init now =>
    exact ⟨Or.inr ⟨⟨rfl, rfl⟩, fun _ => rfl, fun hne => absurd rfl hne⟩,
      ⟨nodup_nil, fun _ => rfl, Backed.nil⟩, rfl⟩
  | step _ ha hstep ih =>
    obtain ⟨x', hx', hinv, -⟩ := ih.step hperiod ha
    rw [hx'] at hstep
    cases hstep
    exact hinv

/-- Port 0's packet is being offered to the peer. -/
def offering : Crossing ℕ := ⟨⟨.busy, [], none, none⟩, [.sending 0], 0, [], false⟩

/-- Inside that call port 1 has sent, too, and waits. -/
def offeringWaiting : Crossing ℕ := ⟨⟨.busy, [1], none, none⟩, [.sending 0], 0, [.refused 1], false⟩

lemma run_offeringWaiting : Run ℕ 1 offeringWaiting := by
  have hfirst : Run ℕ 1 offering := (Run.init 0).step (a := .tryTiming 0) rfl rfl
  exact hfirst.step (a := .tryTiming 1) rfl rfl

end Crossing

end XBar

end ShifDram
