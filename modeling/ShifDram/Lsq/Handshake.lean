import ShifDram.Control.Fallible
import ShifDram.Lsq.StorePort

/-!
What a store has yet to send.

A packet that could not be sent is remembered in one of four variables; `unsent` reads them all.
Sending, retrying and waiting for a port only differ in how many packets they take from its front.
-/

namespace ShifDram

open List Option

/-- What counts the responses to a store's packets. -/
def LSQSenderState.waits (st : LSQSenderState) : ℕ × ℕ := (st.idx, st.outstanding)

/-- What is to be sent after the packet in hand. -/
def LSQSenderState.remembers (st : LSQSenderState) : Bool × Option StorePkt :=
  (st.pktToSend, st.pendingPacket)

namespace LSQPort

open Fallible

/-- The packet remembered behind `pkt` in its sender state. -/
def behind (x : LSQPort) (pkt : StorePkt) : List StorePkt :=
  match x.senderStates pkt.seqNum with
  | none => []
  | some st => if x.isLast st pkt then [] else st.pendingPacket.toList

def front (x : LSQPort) : Option StorePkt := if x.hasPendingPkt then x.pendingPkt else x.retryPkt

/-- The packets made and not taken, the next one first. -/
def unsent (x : LSQPort) : List StorePkt :=
  match x.front with
  | none => []
  | some pkt => pkt :: x.behind pkt

structure Wf (x : LSQPort) : Prop where
  blocked : x.isStoreBlocked = x.retryPkt.isSome
  pending : x.hasPendingPkt = true → x.hasUnalignedMemAcc = true ∧ x.retryPkt = none ∧
    ∃ pkt st, x.pendingPkt = some pkt ∧ x.senderStates pkt.seqNum = some st ∧
      x.isLast st pkt = true
  retry : ∀ pkt, x.retryPkt = some pkt → ∃ st, x.senderStates pkt.seqNum = some st ∧
    (x.isLast st pkt = false → ∃ rest, st.pendingPacket = some rest ∧ rest.seqNum = pkt.seqNum)

structure Idle (x : LSQPort) : Prop where
  isStoreBlocked : x.isStoreBlocked = false
  retryPkt : x.retryPkt = none
  hasPendingPkt : x.hasPendingPkt = false

/-- `pendingPkt` is null when it is not in use. -/
def Cleared (x : LSQPort) : Prop := x.hasPendingPkt = false → x.pendingPkt = none

def Safe (x : LSQPort) : Prop := x.hasUnalignedMemAcc = true → x.Cleared

/-- But for the remembering variables, only `taken` has been sent. -/
structure Took (x x' : LSQPort) (taken : List StorePkt) : Prop where
  unit : x'.toLSQUnit = x.toLSQUnit
  hasUnalignedMemAcc : x'.hasUnalignedMemAcc = x.hasUnalignedMemAcc
  cachePorts : x'.cachePorts = x.cachePorts
  accepted : x'.accepted = x.accepted ++ taken
  inFlight : x'.inFlight = x.inFlight ++ taken
  created : x'.created = x.created
  posted : x'.posted = x.posted
  states : ∀ n, (x'.senderStates n).map LSQSenderState.waits =
    (x.senderStates n).map LSQSenderState.waits
  cleared : x.Cleared → x'.Cleared

/-- `taken` is sent and `rest` left; if nothing is, the write-back index passes the store. -/
structure Moved (x x' : LSQPort) (taken rest : List StorePkt) : Prop where
  wf : x'.Wf
  unsent : x'.unsent = rest
  took : ∃ y, x.Took y taken ∧ x' = if rest = [] then y.storePostSend else y

variable {x x' y : LSQPort} {pkt : StorePkt} {taken rest : List StorePkt} {st : LSQSenderState}
  {second : Option StorePkt} {b : Bool} {r : LSQPort × Bool}

lemma Idle.wf (h : x.Idle) : x.Wf := by
  refine ⟨by rw [h.isStoreBlocked, h.retryPkt]; rfl, fun hp => ?_, fun pkt hpkt => ?_⟩
  · cases h.hasPendingPkt.symm.trans hp
  · cases h.retryPkt.symm.trans hpkt

lemma Idle.unsent (h : x.Idle) : x.unsent = [] := by
  rw [LSQPort.unsent, front, h.hasPendingPkt, h.retryPkt]
  rfl

lemma Wf.idle (h : x.Wf) (hblocked : x.isStoreBlocked = false)
    (hpending : x.hasPendingPkt = false) :
    x.Idle := by
  refine ⟨hblocked, ?_, hpending⟩
  have hretry := h.blocked
  rw [hblocked] at hretry
  exact isSome_eq_false_iff.mp hretry.symm |> isNone_iff_eq_none.mp

lemma mem_unsent_of_front (h : x.front = some pkt) : pkt ∈ x.unsent := by
  rw [LSQPort.unsent, h]
  exact mem_cons_self

lemma Wf.setUnit (h : x.Wf) (s : LSQUnit) : (x.setUnit s).Wf := { h with }

lemma unsent_setUnit (s : LSQUnit) : (x.setUnit s).unsent = x.unsent := rfl

lemma Took.refl (x : LSQPort) : x.Took x [] :=
  ⟨rfl, rfl, rfl, (append_nil _).symm, (append_nil _).symm, rfl, rfl, fun _ => rfl, id⟩

section

variable (h : x.Took y taken)

include h

lemma Took.safe (hx : x.Safe) : y.Safe := fun hun => h.cleared (hx (h.hasUnalignedMemAcc ▸ hun))

lemma Took.accept (pkt : StorePkt) : x.Took (y.accept pkt) (taken ++ [pkt]) :=
  { h with
    accepted := by rw [LSQPort.accept, h.accepted, append_assoc]
    inFlight := by rw [LSQPort.accept, h.inFlight, append_assoc] }

lemma Took.refuse (pkt : StorePkt) : x.Took (y.refuse pkt) taken := { h with }

lemma Took.retried (pkt : StorePkt) : x.Took (y.retried pkt) (taken ++ [pkt]) :=
  { h with accepted := (h.accept pkt).accepted, inFlight := (h.accept pkt).inFlight }

lemma Took.setState {n : ℕ} {st st' : LSQSenderState} (hst : y.senderStates n = some st)
    (hwaits : st'.waits = st.waits) : x.Took (y.setState n (some st')) taken := by
  refine { h with states := fun m => ?_ }
  rw [← h.states m]
  by_cases hm : m = n
  · rw [hm, senderStates_setState_self, hst, map_some, map_some, hwaits]
  · rw [senderStates_setState_of_ne y hm]

omit h in
lemma Moved.safe (h : x.Moved x' taken rest) (hx : x.Safe) : x'.Safe := by
  obtain ⟨-, -, y, ht, rfl⟩ := h
  split_ifs
  · exact ht.safe hx
  · exact ht.safe hx

lemma Took.post (hidle : y.Idle) : x.Moved y.storePostSend taken [] := by
  have hpost : y.storePostSend.Idle := { hidle with }
  exact ⟨hpost.wf, hpost.unsent, y, h, (if_pos rfl).symm⟩

lemma Took.keep (hwf : y.Wf) (hrest : y.unsent = pkt :: rest) : x.Moved y taken (pkt :: rest) :=
  ⟨hwf, hrest, y, h, (if_neg (cons_ne_nil _ _)).symm⟩

omit h in
lemma behind_eq_nil (hst : x.senderStates pkt.seqNum = some st)
    (hlast : x.isLast st pkt = true) : x.behind pkt = [] := by
  rw [behind, hst]
  exact if_pos hlast

lemma Took.keepLast (hidle : y.Idle) (hst : y.senderStates pkt.seqNum = some st)
    (hlast : y.isLast st pkt = true) : x.Moved (y.refuse pkt) taken [pkt] := by
  refine (h.refuse pkt).keep ⟨rfl, fun hp => ?_, fun p hp => ?_⟩ ?_
  · cases hidle.hasPendingPkt.symm.trans hp
  · cases hp
    exact ⟨st, hst, fun hno => absurd (hlast.symm.trans hno) (by simp)⟩
  · have hfront : (y.refuse pkt).front = some pkt := by
      rw [front, LSQPort.refuse, hidle.hasPendingPkt]
      rfl
    rw [LSQPort.unsent, hfront]
    exact congrArg _ (behind_eq_nil hst hlast)

lemma Took.park (hidle : y.Idle) (hst : y.senderStates pkt.seqNum = some st)
    (hlast : y.isLast st pkt = true) (hunaligned : y.hasUnalignedMemAcc = true) :
    x.Moved { y with pendingPkt := some pkt, hasPendingPkt := true } taken [pkt] := by
  have htook : x.Took { y with pendingPkt := some pkt, hasPendingPkt := true } taken :=
    { h with cleared := fun _ hp => (by cases hp) }
  refine htook.keep ⟨?_, fun _ => ⟨hunaligned, hidle.retryPkt, pkt, st, rfl, hst, hlast⟩,
    fun p hp => ?_⟩ (congrArg _ (behind_eq_nil hst hlast))
  · exact hidle.isStoreBlocked.trans (by rw [hidle.retryPkt]; rfl)
  · cases hidle.retryPkt.symm.trans hp

/-- A refused first packet stays, with the second behind it. -/
lemma Took.keepBoth (hidle : y.Idle) {next : StorePkt} (hst : y.senderStates pkt.seqNum = some st)
    (hunaligned : y.hasUnalignedMemAcc = true) (hseq : next.seqNum = pkt.seqNum)
    (hne : next ≠ pkt) : x.Moved ((y.refuse pkt).keepPending next) taken [pkt, next] := by
  let st' : LSQSenderState := { st with pktToSend := true, pendingPacket := some next }
  have hold : (y.refuse pkt).senderStates next.seqNum = some st := by
    rw [hseq]
    exact hst
  have heq : (y.refuse pkt).keepPending next = (y.refuse pkt).setState next.seqNum (some st') := by
    rw [keepPending, hold]
    rfl
  have htook : x.Took ((y.refuse pkt).setState next.seqNum (some st')) taken :=
    (h.refuse pkt).setState hold rfl
  have hst' : ((y.refuse pkt).setState next.seqNum (some st')).senderStates pkt.seqNum =
      some st' := by
    rw [← hseq, senderStates_setState_self]
  have hlast : ((y.refuse pkt).setState next.seqNum (some st')).isLast st' pkt = false := by
    rw [isLast, show ((y.refuse pkt).setState next.seqNum (some st')).hasUnalignedMemAcc = true from
      hunaligned]
    simp [st', hne]
  rw [heq]
  refine htook.keep ⟨rfl, fun hp => ?_, fun p hp => ?_⟩ ?_
  · cases hidle.hasPendingPkt.symm.trans hp
  · cases hp
    exact ⟨st', hst', fun _ => ⟨next, rfl, hseq⟩⟩
  · have hfront : ((y.refuse pkt).setState next.seqNum (some st')).front = some pkt := by
      rw [front, LSQPort.setState, LSQPort.refuse, hidle.hasPendingPkt]
      rfl
    rw [LSQPort.unsent, hfront]
    dsimp only
    rw [behind, hst']
    dsimp only
    rw [hlast]
    rfl

end

lemma isLast_congr {st st' : LSQSenderState} (h : st'.remembers = st.remembers) (x : LSQPort)
    (pkt : StorePkt) : x.isLast st' pkt = x.isLast st pkt := by
  obtain ⟨h1, h2⟩ := Prod.mk.inj h
  rw [isLast, isLast, h1, h2]

section SetState

variable {n : ℕ} {st : Option LSQSenderState}

section

variable (hst : ∀ p, x.front = some p → p.seqNum = n → st.map LSQSenderState.remembers =
  (x.senderStates n).map LSQSenderState.remembers)

include hst

lemma map_remembers_setState (hpkt : x.front = some pkt) :
    ((x.setState n st).senderStates pkt.seqNum).map LSQSenderState.remembers =
      (x.senderStates pkt.seqNum).map LSQSenderState.remembers := by
  by_cases hn : pkt.seqNum = n
  · rw [hn, senderStates_setState_self, hst pkt hpkt hn]
  · rw [senderStates_setState_of_ne x hn]

lemma unsent_setState : (x.setState n st).unsent = x.unsent := by
  have hfront : (x.setState n st).front = x.front := rfl
  rw [LSQPort.unsent, LSQPort.unsent, hfront]
  cases hpkt : x.front with
  | none => rfl
  | some pkt =>
    have hmap := map_remembers_setState hst hpkt
    dsimp only
    rw [behind, behind]
    cases hold : x.senderStates pkt.seqNum with
    | none =>
      rw [hold, map_none, map_eq_none_iff] at hmap
      rw [hmap]
    | some s =>
      rw [hold, map_some] at hmap
      obtain ⟨s', hs', heq⟩ := map_eq_some_iff.mp hmap
      have hlast : (x.setState n st).isLast s' pkt = x.isLast s pkt := isLast_congr heq x pkt
      have hrest : s'.pendingPacket = s.pendingPacket := congrArg Prod.snd heq
      rw [hs']
      dsimp only
      rw [hlast, hrest]

end

lemma Wf.setState (h : x.Wf) (hst : ∀ p, x.front = some p → p.seqNum = n →
      st.map LSQSenderState.remembers = (x.senderStates n).map LSQSenderState.remembers) :
    (x.setState n st).Wf := by
  have hkeep : ∀ pkt, x.front = some pkt → ∀ s, x.senderStates pkt.seqNum = some s →
      ∃ s', (x.setState n st).senderStates pkt.seqNum = some s' ∧ s'.remembers = s.remembers := by
    intro pkt hpkt s hs
    have hmap := map_remembers_setState hst hpkt
    rw [hs, map_some] at hmap
    exact map_eq_some_iff.mp hmap
  refine ⟨h.blocked, fun hp => ?_, fun pkt hpkt => ?_⟩
  · obtain ⟨hun, hretry, pkt, s, hpkt, hs, hlast⟩ := h.pending hp
    have hfront : x.front = some pkt := by
      rw [front, show x.hasPendingPkt = true from hp, if_pos rfl, hpkt]
    obtain ⟨s', hs', heq⟩ := hkeep pkt hfront s hs
    exact ⟨hun, hretry, pkt, s', hpkt, hs', (isLast_congr heq x pkt).trans hlast⟩
  · obtain ⟨s, hs, hrest⟩ := h.retry pkt hpkt
    have hpending : x.hasPendingPkt = false := by
      by_contra hp
      obtain ⟨-, hretry, -⟩ := h.pending (by simpa using hp)
      cases hretry.symm.trans hpkt
    have hfront : x.front = some pkt := by
      rw [front, hpending, if_neg (by simp)]
      exact hpkt
    obtain ⟨s', hs', heq⟩ := hkeep pkt hfront s hs
    refine ⟨s', hs', fun hno => ?_⟩
    rw [show s'.pendingPacket = s.pendingPacket from congrArg Prod.snd heq]
    exact hrest ((isLast_congr heq x pkt).symm.trans hno)

end SetState

lemma sendStore_cases (h : x.sendStore pkt b = .ok r) :
    r = (x.accept pkt, true) ∨ r = (x.refuse pkt, false) := by
  rw [sendStore] at h
  split_ifs at h
  · exact .inl (Except.ok.inj h).symm
  · exact .inr (Except.ok.inj h).symm

lemma Took.sendLast (h : x.Took y taken) (hidle : y.Idle)
    (hst : y.senderStates pkt.seqNum = some st) (hlast : y.isLast st pkt = true)
    (hr : y.sendStore pkt b = .ok r) :
    x.Moved (postSendIf r) (taken ++ [pkt]) [] ∨ x.Moved (postSendIf r) taken [pkt] := by
  rcases sendStore_cases hr with rfl | rfl
  · exact .inl ((h.accept pkt).post { hidle with })
  · exact .inr (h.keepLast hidle hst hlast)

/-- `writebackPendingStore` sends the packet that waited for a port. -/
lemma writebackPendingStore_cases (hx : x.Wf) (h : x.writebackPendingStore b = .ok x') :
    x'.hasPendingPkt = false ∧ (x' = x ∨
      ∃ taken rest, x.unsent = taken ++ rest ∧ taken ++ rest ≠ [] ∧ x.Moved x' taken rest) := by
  rw [writebackPendingStore] at h
  split_ifs at h with hpending
  · obtain ⟨-, hretry, pkt, st, hpkt, hst, hlast⟩ := hx.pending hpending
    have hbehind := behind_eq_nil hst hlast
    rw [hpkt] at h
    obtain ⟨r, hr, rfl⟩ := map_ok h
    have hunsent : x.unsent = [pkt] := by
      rw [LSQPort.unsent, front, hpending, if_pos rfl, hpkt]
      exact congrArg _ hbehind
    refine ⟨rfl, .inr ?_⟩
    rcases sendStore_cases hr with rfl | rfl
    · refine ⟨[pkt], [], hunsent, by simp, ?_⟩
      let y : LSQPort := { x.accept pkt with pendingPkt := none, hasPendingPkt := false }
      have hidle : y.Idle := ⟨hx.blocked.trans (by rw [hretry]; rfl), hretry, rfl⟩
      have htook : x.Took y [pkt] :=
        ⟨rfl, rfl, rfl, rfl, rfl, rfl, rfl, fun _ => rfl, fun _ _ => rfl⟩
      exact htook.post hidle
    · refine ⟨[], [pkt], hunsent, by simp, ?_⟩
      let y : LSQPort := { x.refuse pkt with pendingPkt := none, hasPendingPkt := false }
      have htook : x.Took y [] := ⟨rfl, rfl, rfl, (append_nil _).symm,
        (append_nil _).symm, rfl, rfl, fun _ => rfl, fun _ _ => rfl⟩
      refine htook.keep ⟨rfl, fun hp => (by cases hp), fun p hp => ?_⟩ (congrArg _ hbehind)
      cases hp
      exact ⟨st, hst, fun hno => absurd (hlast.symm.trans hno) (by simp)⟩
  · cases h
    exact ⟨by simpa using hpending, .inl rfl⟩

/-- `recvRetry` sends the packet that was refused, and the one behind it. -/
lemma recvRetry_cases (hx : x.Wf) {first second : Bool} (h : x.recvRetry first second = .ok x') :
    x' = x ∨
      ∃ taken rest, x.unsent = taken ++ rest ∧ taken ++ rest ≠ [] ∧ x.Moved x' taken rest := by
  rw [recvRetry] at h
  split at h
  · exact .inl (Except.ok.inj h).symm
  split at h
  · cases h
  next pkt hpkt =>
  split at h
  · cases h
  next st hst =>
  have hpending : x.hasPendingPkt = false := by
    by_contra hp
    obtain ⟨-, hretry, -⟩ := hx.pending (by simpa using hp)
    cases hretry.symm.trans hpkt
  have hunsent : x.unsent = pkt :: x.behind pkt := by
    rw [LSQPort.unsent, front, hpending, if_neg (by simp), hpkt]
  have htook : x.Took (x.retried pkt) [pkt] := (Took.refl x).retried pkt
  split at h
  · exact .inl (Except.ok.inj h).symm
  split at h
  · next hlast =>
    cases h
    refine .inr ⟨[pkt], [], ?_, by simp, ?_⟩
    · rw [hunsent, behind_eq_nil hst hlast]
      rfl
    · have hset : x.Took ((x.retried pkt).setState pkt.seqNum
          (some { st with pktToSend := false })) [pkt] := htook.setState hst rfl
      exact hset.post ⟨rfl, rfl, hpending⟩
  next hlast =>
  have hlast : x.isLast st pkt = false := by simpa using hlast
  obtain ⟨st', hst', hrest⟩ := hx.retry pkt hpkt
  obtain rfl := some.inj (hst.symm.trans hst')
  obtain ⟨rest, hrest, hseq⟩ := hrest hlast
  rw [hrest] at h
  obtain ⟨r, hr, rfl⟩ := map_ok h
  have hbehind : x.behind pkt = [rest] := by
    rw [behind, hst]
    simp [hlast, hrest]
  have hlast' : (x.retried pkt).isLast st rest = true := by
    rw [isLast, hrest]
    simp
  right
  rcases htook.sendLast ⟨rfl, rfl, hpending⟩ (hseq ▸ hst) hlast' hr with hm | hm
  · exact ⟨[pkt, rest], [], by rw [hunsent, hbehind]; rfl, by simp, hm⟩
  · exact ⟨[pkt], [rest], by rw [hunsent, hbehind]; rfl, by simp, hm⟩

/-- `sendPackets` sends the packets of a store. -/
lemma sendPackets_moved (hx : x.Idle) {first : StorePkt} {used : ℕ}
    {ans : StoreAnswer} {r : LSQPort × ℕ}
    (hst : x.senderStates first.seqNum = some st) (hnew : st.pktToSend = false)
    (hsecond : ∀ pkt, second = some pkt →
      pkt.seqNum = first.seqNum ∧ pkt ≠ first ∧ x.hasUnalignedMemAcc = true)
    (h : x.sendPackets first second used ans = .ok r) :
    (r.1.hasPendingPkt = true → r.1.cachePorts ≤ r.2) ∧
      ∃ taken rest, first :: second.toList = taken ++ rest ∧ x.Moved r.1 taken rest := by
  obtain ⟨r₁, hr₁, h⟩ := bind_ok h
  have hlast : ∀ p : StorePkt, x.isLast st p = true := fun p => by simp [isLast, hnew]
  rcases sendStore_cases hr₁ with rfl | rfl
  · -- the first packet is taken
    rw [if_neg (by simp)] at h
    have htook : x.Took (x.accept first) [first] := (Took.refl x).accept first
    have hidle : (x.accept first).Idle := { hx with }
    cases second with
    | none =>
      cases h
      exact ⟨fun hp => absurd (hx.hasPendingPkt.symm.trans hp) (by simp), [first], [], rfl,
        htook.post hidle⟩
    | some pkt =>
      obtain ⟨hseq, hne, hunaligned⟩ := hsecond pkt rfl
      have hst' : (x.accept first).senderStates pkt.seqNum = some st := hseq ▸ hst
      split_ifs at h with hused hpending
      · obtain ⟨r', hr', rfl⟩ := map_ok h
        have hpend : (postSendIf r').hasPendingPkt = false := by
          rcases sendStore_cases hr' with rfl | rfl
          · exact hx.hasPendingPkt
          · exact hx.hasPendingPkt
        refine ⟨fun hp => absurd (hpend.symm.trans hp) (by simp), ?_⟩
        rcases htook.sendLast hidle hst' (hlast pkt) hr' with hm | hm
        · exact ⟨[first, pkt], [], rfl, hm⟩
        · exact ⟨[first], [pkt], rfl, hm⟩
      · cases h
        exact ⟨fun _ => not_lt.mp hused, [first], [pkt], rfl,
          htook.park hidle hst' (hlast pkt) hunaligned⟩
  · -- the first packet is refused
    cases second with
    | none =>
      cases h
      exact ⟨fun hp => absurd (hx.hasPendingPkt.symm.trans hp) (by simp), [], [first], rfl,
        (Took.refl x).keepLast hx hst (hlast first)⟩
    | some pkt =>
      obtain ⟨hseq, hne, hunaligned⟩ := hsecond pkt rfl
      cases h
      exact ⟨fun hp => absurd (hx.hasPendingPkt.symm.trans hp) (by simp), [], [first, pkt], rfl,
        (Took.refl x).keepBoth hx hst hunaligned hseq hne⟩

/-- The assertions about `retryPkt` and `pendingPkt`. -/
def PacketAssert (e : PortAssert) : Prop := e = .retryPkt ∨ e = .pendingPkt

lemma failsWith_sendStore (hretry : x.retryPkt = none) (pkt : StorePkt) (b : Bool) :
    FailsWith (fun e => ¬ PacketAssert e) (x.sendStore pkt b) := by
  rw [sendStore, hretry]
  refine .skip fun _ => .when fun hno => ?_
  cases hno

lemma failsWith_writebackPendingStore (hx : x.Wf) (b : Bool) :
    FailsWith (fun e => ¬ PacketAssert e) (x.writebackPendingStore b) := by
  refine .when fun hpending => ?_
  obtain ⟨-, hretry, pkt, -, hpkt, -⟩ := hx.pending hpending
  rw [hpkt]
  exact (failsWith_sendStore hretry pkt b).map

lemma failsWith_recvRetry (hx : x.Wf) (first second : Bool) :
    FailsWith (fun e => ¬ PacketAssert e) (x.recvRetry first second) := by
  refine .skip fun hblocked => ?_
  have hsome := hx.blocked
  obtain ⟨pkt, hpkt⟩ := isSome_iff_exists.mp (hsome.symm.trans (by simpa using hblocked))
  rw [hpkt]
  dsimp only
  split
  · exact .error (by simp [PacketAssert])
  refine .skip fun _ => .skip fun _ => ?_
  split
  · exact .error (by simp [PacketAssert])
  · exact (failsWith_sendStore rfl _ second).map

lemma failsWith_sendPackets (hx : x.Idle)
    (hcleared : second ≠ none → x.Cleared) (first : StorePkt) (used : ℕ) (ans : StoreAnswer) :
    FailsWith (fun e => ¬ PacketAssert e) (x.sendPackets first second used ans) := by
  refine (failsWith_sendStore hx.retryPkt first ans.first).bind fun r hr => ?_
  refine .ite (fun _ => ?_) fun hsent => ?_
  · cases second with
    | none => exact .ok _
    | some pkt => exact .ok _
  · obtain rfl : r = (x.accept first, true) := by
      rcases sendStore_cases hr with rfl | rfl
      · rfl
      · simp at hsent
    cases second with
    | none => exact .ok _
    | some pkt =>
      have hretry : (x.accept first).retryPkt = none := hx.retryPkt
      refine .ite (fun _ => (failsWith_sendStore hretry pkt ans.second).map) fun _ =>
        .when fun hpending => ?_
      have hnone : (x.accept first).pendingPkt = none :=
        hcleared (some_ne_none pkt) hx.hasPendingPkt
      rw [hnone] at hpending
      cases hpending

end LSQPort

end ShifDram
