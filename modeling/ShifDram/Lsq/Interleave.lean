import ShifDram.Lsq.Flight

/-!
The queues and the port in any interleaving.

`Pipeline.Step` has one case for each call into the unit: instructions are dispatched in program
order and execute in any order, loads and stores are committed by separate calls, uncommitted
instructions are squashed, stores are written back as cache and ports allow, and the cache asks
for retries and answers at any time.
-/

namespace ShifDram

open RingBuffer ProgramOrder Fallible List

/-- The unit, and the youngest committed and dispatched instructions. -/
structure Pipeline where
  port : LSQPort
  doneSeqNum : ℕ
  lastSeqNum : ℕ

namespace Pipeline

def setUnit (r : Pipeline) (s : LSQUnit) : Pipeline := { r with port := r.port.setUnit s }

/-- One call into the unit. -/
inductive Step : Pipeline → Pipeline → Prop
  -- instructions are dispatched in program order
  | insertLoad {r : Pipeline} {inst : LsqInst} {s : LSQUnit} (hlast : r.lastSeqNum < inst.seqNum)
      (h : r.port.insertLoad inst = some s) :
      Step r { r.setUnit s with lastSeqNum := inst.seqNum }
  | insertStore {r : Pipeline} {inst : LsqInst} {s : LSQUnit} (hlast : r.lastSeqNum < inst.seqNum)
      (h : r.port.insertStore inst = some s) :
      Step r { r.setUnit s with lastSeqNum := inst.seqNum }
  | executeLoad {r : Pipeline} {inst : LsqInst} {acc : LoadAcc} {x : LSQUnit × Option LsqFault}
      (hin : r.port.InLoadQueue inst) (hdone : r.doneSeqNum < inst.seqNum)
      (h : r.port.executeLoad inst acc = some x) : Step r (r.setUnit x.1)
  -- a store conditional executes once, when it is the oldest instruction
  | executeStore {r : Pipeline} {e : SQEntry} {acc : StoreAcc} {x : LSQUnit × Option LsqFault}
      (he : r.port.InStoreQueue e)
      (hcond : e.inst.isStoreConditional = true → e.canWB = false ∧
        ∀ ld, r.port.InLoadQueue ld → r.doneSeqNum < ld.seqNum → e.inst.seqNum < ld.seqNum)
      (h : r.port.executeStore e.inst acc = some x) : Step r (r.setUnit x.1)
  | commitLoads {r : Pipeline} {youngest : ℕ} (hdone : r.doneSeqNum ≤ youngest) :
      Step r { r.setUnit (r.port.commitLoads youngest) with doneSeqNum := youngest }
  | commitStores {r : Pipeline} {youngest : ℕ} (hdone : r.doneSeqNum ≤ youngest) :
      Step r { r.setUnit (r.port.commitStores youngest) with doneSeqNum := youngest }
  -- only uncommitted instructions are squashed
  | squash {r : Pipeline} {squashed : ℕ} {s : LSQUnit} (hdone : r.doneSeqNum ≤ squashed)
      (h : r.port.squash squashed = some s) : Step r (r.setUnit s)
  | writebackStores {r : Pipeline} {usedPorts : ℕ} {pending : Bool} {answers : ℕ → StoreAnswer}
      {x : LSQPort} (h : r.port.writebackStores usedPorts pending answers = .ok x) :
      Step r { r with port := x }
  | recvRetry {r : Pipeline} {first second : Bool} {x : LSQPort}
      (h : r.port.recvRetry first second = .ok x) : Step r { r with port := x }
  | completeDataAccess {r : Pipeline} {pkt : StorePkt} {isSquashed : Bool} {x : LSQPort}
      (hpkt : pkt ∈ r.port.inFlight) (h : r.port.completeDataAccess pkt isSquashed = .ok x) :
      Step r { r with port := x }
  | getMemDepViolator {r : Pipeline} : Step r (r.setUnit r.port.getMemDepViolator.2)
  -- the rest of the pipeline changes other fields of an instruction
  | updateLoad {r : Pipeline} {i : ℕ} {ld ld' : LsqInst} (hslot : r.port.loadQueue i = some ld)
      (hkey : ld'.key = ld.key) (hlqIdx : ld'.lqIdx = ld.lqIdx) :
      Step r (r.setUnit (r.port.setLoad i (some ld')))
  | updateStore {r : Pipeline} {i : ℕ} {e : SQEntry} {inst : LsqInst}
      (hslot : r.port.storeQueue i = some e)
      (hkey : ({ e with inst := inst } : SQEntry).key = e.key) :
      Step r (r.setUnit (r.port.setStore i (some { e with inst := inst })))

/-- Runs from a new unit that satisfies `start`. -/
inductive Reachable (start : LSQPort → Prop) : Pipeline → Prop
  -- `LQEntries` and `SQEntries` are at most 256
  | init {maxLQEntries maxSQEntries depCheckShift cachePorts : ℕ}
      {checkLoads needsTSO hasUnalignedMemAcc : Bool} {pendingPkt : Option StorePkt}
      (hlq : maxLQEntries + 1 ≤ 256) (hsq : maxSQEntries + 1 ≤ 256)
      (hstart : start (.init maxLQEntries maxSQEntries depCheckShift cachePorts checkLoads needsTSO
        hasUnalignedMemAcc pendingPkt)) :
      Reachable start ⟨.init maxLQEntries maxSQEntries depCheckShift cachePorts checkLoads needsTSO
        hasUnalignedMemAcc pendingPkt, 0, 0⟩
  | step {r r' : Pipeline} (h : Reachable start r) (hstep : Step r r') : Reachable start r'

end Pipeline

namespace LSQPort

variable {x x' : LSQPort} {a a' : ProgramOrder} {last : ℕ} {f : StoreKey → StoreKey}
  {r : LSQPort × ℕ} {pending : Bool} {e : SQEntry} {used : ℕ}

/-! ### `writebackStores` -/

lemma nextStore_eq_some (h : x.nextStore used = some e) :
    x.storeWBIdx ≠ x.storeTail ∧ x.storeQueue x.storeWBIdx = some e ∧ e.canWB = true ∧
      (x.needsTSO = false ∨ x.storeInFlight = false) ∧ used < x.cachePorts := by
  rw [nextStore] at h
  split_ifs at h with hcond
  obtain ⟨hslot, hwb⟩ := Option.filter_eq_some_iff.mp h
  exact ⟨hcond.2.1, hslot, hwb, hcond.2.2.1, hcond.2.2.2⟩

lemma writebackStore_cases {ans : StoreAnswer} (h : x.writebackStore e used ans = .ok r) :
    r.1 = x.completeHere ∨ r.1 = (x.markCommitted e).completeHere ∨
      ∃ split : Bool, (split = true → x.hasUnalignedMemAcc = true) ∧
        ((x.markCommitted e).makePackets e.inst.seqNum split).sendPackets
          (x.firstPkt e.inst.seqNum) (x.secondPkt e.inst.seqNum split) (used + 1) ans = .ok r := by
  rw [writebackStore] at h
  split at h
  · exact .inl (congrArg Prod.fst (Except.ok.inj h).symm)
  split at h
  · cases h
  dsimp only at h
  split at h
  · cases h
  split at h
  · cases h
  split at h
  · exact .inr (.inl (congrArg Prod.fst (Except.ok.inj h).symm))
  split at h
  · split at h
    · cases h
    · exact .inr (.inl (congrArg Prod.fst (Except.ok.inj h).symm))
  · exact .inr (.inr ⟨_, fun hsplit => (Bool.and_eq_true_iff.mp hsplit).1, h⟩)

lemma PortInv.of_sameCounts {left : List StorePkt} {s : LSQUnit} (h : x.PortInv left a last)
    (hs : LSQUnit.SameCounts x.toLSQUnit s) : (x.setUnit s).PortInv left a last :=
  h.of_keeps hs.samePort (h.tracks.of_sameCounts hs) (.refl a last) le_rfl h.upTo.loads
    h.upTo.stores

lemma Idle.setUnit (h : x.Idle) (s : LSQUnit) : (x.setUnit s).Idle := { h with }

section Loop

variable {e : SQEntry} {used fuel : ℕ} {ans : StoreAnswer} {answers : ℕ → StoreAnswer}

/-- One round of `writebackStores`. -/
lemma PortInv.writebackStore (h : x.PortInv [] a last) (hx : x.Idle)
    (hnext : x.nextStore used = some e)
    (hr : x.writebackStore e used ans = .ok r) :
    ∃ a', x.Runs r.1 a a' last ∧ (r.1.unsent = [] → a'.waiting.length < a.waiting.length) ∧
      (r.1.hasPendingPkt = true → r.1.cachePorts ≤ r.2) := by
  obtain ⟨hne, hslot, hwb, htso, -⟩ := nextStore_eq_some hnext
  obtain ⟨W, hw⟩ := h.tracks.storeSide.toSlots.exists_waiting hne hslot
  have hmark : (x.markCommitted e).PortInv [] a last :=
    h.of_sameCounts (LSQUnit.sameCounts_setStore hslot rfl)
  have hcomplete : ∀ y : LSQPort, y.Idle → y.PortInv [] a last →
      (y.needsTSO = false ∨ y.storeInFlight = false) → (x.Safe → y.Safe) →
      ∃ a', x.Runs y.completeHere a a' last ∧
        (y.completeHere.unsent = [] → a'.waiting.length < a.waiting.length) ∧
        (y.completeHere.hasPendingPkt = true → y.completeHere.cachePorts ≤ r.2) := by
    intro y hy hinv htso hsafe
    obtain ⟨a', hdone, hinv', hlen⟩ := hinv.completeHere hw hwb htso
    have hidle : y.completeHere.Idle := hy.setUnit _
    refine ⟨a', ⟨hidle.wf, hidle.unsent.symm ▸ hinv', hdone, hsafe⟩, fun _ => hlen, fun hp => ?_⟩
    cases hidle.hasPendingPkt.symm.trans hp
  rcases writebackStore_cases hr with heq | heq | ⟨split, hsplit, hsend⟩
  · rw [heq]
    exact hcomplete x hx h htso id
  · rw [heq]
    exact hcomplete _ (hx.setUnit _) hmark htso id
  · have hmake := hmark.makePackets hw hwb hsplit htso
    have hidle : ((x.markCommitted e).makePackets e.inst.seqNum split).Idle := { hx with }
    have hst : ((x.markCommitted e).makePackets e.inst.seqNum split).senderStates
        (x.firstPkt e.inst.seqNum).seqNum =
          some ⟨x.storeWBIdx % 256, if split then 2 else 1, false, none⟩ :=
      senderStates_setState_self _ _ _
    have hsecond : ∀ pkt, x.secondPkt e.inst.seqNum split = some pkt →
        pkt.seqNum = (x.firstPkt e.inst.seqNum).seqNum ∧ pkt ≠ x.firstPkt e.inst.seqNum ∧
          x.hasUnalignedMemAcc = true := by
      intro pkt hpkt
      rw [secondPkt] at hpkt
      split_ifs at hpkt with hs
      cases hpkt
      exact ⟨rfl, by simp [firstPkt], hsplit hs⟩
    obtain ⟨hpending, taken, rest, hpkts, hmoved⟩ := sendPackets_moved hidle hst rfl hsecond hsend
    have hinv : ((x.markCommitted e).makePackets e.inst.seqNum split).PortInv (taken ++ rest) a
        last := hpkts ▸ hmake
    obtain ⟨a', hruns, hlen⟩ := hinv.moved (hpkts ▸ cons_ne_nil _ _) hmoved
    exact ⟨a', { hruns with }, hlen, hpending⟩

lemma writebackLoop_of_unsent (hwf : x.Wf) (hunsent : x.unsent ≠ [])
    (hpending : x.hasPendingPkt = true → x.cachePorts ≤ used) :
    writebackLoop (fuel + 1) answers x used = .ok x := by
  rw [writebackLoop]
  split
  · rfl
  · next e hnext =>
    have hused := (nextStore_eq_some hnext).2.2.2.2
    have hno : x.hasPendingPkt = false := by
      by_contra hp
      have := hpending (by simpa using hp)
      omega
    refine if_pos ?_
    by_contra hblocked
    exact hunsent (hwf.idle (by simpa using hblocked) hno).unsent

lemma Wf.idle_of_next (hwf : x.Wf) (hpending : x.hasPendingPkt = true → x.cachePorts ≤ used)
    (hnext : x.nextStore used = some e) (hblocked : ¬ x.isStoreBlocked = true) : x.Idle := by
  refine hwf.idle (by simpa using hblocked) ?_
  by_contra hp
  have := hpending (by simpa using hp)
  have := (nextStore_eq_some hnext).2.2.2.2
  omega

lemma PortInv.writebackLoop (hwf : x.Wf) (h : x.PortInv x.unsent a last)
    (hpending : x.hasPendingPkt = true → x.cachePorts ≤ used)
    (hr : writebackLoop fuel answers x used = .ok x') : ∃ a', x.Runs x' a a' last := by
  induction fuel generalizing x a used answers with
  | zero =>
    cases hr
    exact ⟨a, hwf, h, rfl, id⟩
  | succ fuel ih =>
    rw [LSQPort.writebackLoop] at hr
    split at hr
    · cases hr
      exact ⟨a, hwf, h, rfl, id⟩
    · next e hnext =>
      split_ifs at hr with hblocked
      · cases hr
        exact ⟨a, hwf, h, rfl, id⟩
      · obtain ⟨r, hr₁, hr₂⟩ := bind_ok hr
        have hidle := hwf.idle_of_next hpending hnext hblocked
        obtain ⟨a₁, hruns, -, hpending₁⟩ :=
          PortInv.writebackStore (hidle.unsent ▸ h) hidle hnext hr₁
        obtain ⟨a', hruns'⟩ := ih hruns.wf hruns.inv hpending₁ hr₂
        exact ⟨a', hruns.trans hruns'⟩

/-- A round passes a store or ends the loop: more fuel makes no difference. -/
lemma PortInv.writebackLoop_succ (hwf : x.Wf) (h : x.PortInv x.unsent a last)
    (hpending : x.hasPendingPkt = true → x.cachePorts ≤ used) (hfuel : a.waiting.length < fuel) :
    LSQPort.writebackLoop (fuel + 1) answers x used =
      LSQPort.writebackLoop fuel answers x used := by
  induction fuel generalizing x a used answers with
  | zero => omega
  | succ fuel ih =>
    rw [LSQPort.writebackLoop, LSQPort.writebackLoop]
    split
    · rfl
    · next e hnext =>
      by_cases hblocked : x.isStoreBlocked = true
      · rw [if_pos hblocked, if_pos hblocked]
      · rw [if_neg hblocked, if_neg hblocked]
        have hidle := hwf.idle_of_next hpending hnext hblocked
        cases hr : x.writebackStore e used (answers 0) with
        | error err => rfl
        | ok r =>
          obtain ⟨a₁, hruns, hlen, hpending₁⟩ :=
            PortInv.writebackStore (hidle.unsent ▸ h) hidle hnext hr
          obtain ⟨hne, hslot, -⟩ := nextStore_eq_some hnext
          obtain ⟨W, hw⟩ := h.tracks.storeSide.toSlots.exists_waiting hne hslot
          have hpos : 0 < a.waiting.length := by rw [hw]; simp
          change LSQPort.writebackLoop (fuel + 1) (fun n => answers (n + 1)) r.1 r.2 =
            LSQPort.writebackLoop fuel (fun n => answers (n + 1)) r.1 r.2
          by_cases hunsent : r.1.unsent = []
          · have := hlen hunsent
            exact ih hruns.wf hruns.inv hpending₁ (by omega)
          · obtain ⟨m, rfl⟩ := Nat.exists_eq_succ_of_ne_zero (show fuel ≠ 0 by omega)
            exact (writebackLoop_of_unsent hruns.wf hunsent hpending₁).trans
              (writebackLoop_of_unsent hruns.wf hunsent hpending₁).symm

/-- The slots of the store queue are rounds enough. -/
lemma PortInv.writebackLoop_of_le (hwf : x.Wf) (h : x.PortInv x.unsent a last)
    (hpending : x.hasPendingPkt = true → x.cachePorts ≤ used) (hfuel : x.sqEntries ≤ fuel) :
    LSQPort.writebackLoop fuel answers x used =
      LSQPort.writebackLoop x.sqEntries answers x used := by
  have hlen := h.tracks.storeSide.toSlots.waiting.length_lt
  rw [length_map] at hlen
  induction fuel, hfuel using Nat.le_induction with
  | base => rfl
  | succ fuel hle ih => exact (h.writebackLoop_succ hwf hpending (hlen.trans_le hle)).trans ih

lemma PortInv.pendingSent (hwf : x.Wf) (h : x.PortInv x.unsent a last)
    (hr : (if x.hasUnalignedMemAcc then x.writebackPendingStore pending else .ok x) = .ok x') :
    ∃ a', x.Runs x' a a' last ∧ x'.hasPendingPkt = false := by
  split_ifs at hr with hun
  · obtain ⟨hno, rfl | ⟨taken, rest, hsplit, hne, hmoved⟩⟩ := writebackPendingStore_cases hwf hr
    · exact ⟨a, ⟨hwf, h, rfl, id⟩, hno⟩
    · rw [hsplit] at h
      obtain ⟨a', hruns, -⟩ := h.moved hne hmoved
      exact ⟨a', hruns, hno⟩
  · cases hr
    refine ⟨a, ⟨hwf, h, rfl, id⟩, ?_⟩
    by_contra hp
    exact hun (hwf.pending (by simpa using hp)).1

/-- **`writebackStores`** keeps the invariant. -/
lemma PortInv.writebackStores (hwf : x.Wf) (h : x.PortInv x.unsent a last) {usedPorts : ℕ}
    (hr : x.writebackStores usedPorts pending answers = .ok x') :
    ∃ a', x.Runs x' a a' last := by
  obtain ⟨x₁, hx₁, hr⟩ := bind_ok hr
  obtain ⟨a₁, hruns, hno⟩ := PortInv.pendingSent hwf h hx₁
  obtain ⟨a', hruns'⟩ := PortInv.writebackLoop hruns.wf hruns.inv
    (fun hp => absurd (hno.symm.trans hp) (by simp)) hr
  exact ⟨a', hruns.trans hruns'⟩

end Loop

/-- **`recvRetry`** keeps the invariant. -/
lemma PortInv.recvRetry (hwf : x.Wf) (h : x.PortInv x.unsent a last) {first second : Bool}
    (hr : x.recvRetry first second = .ok x') : ∃ a', x.Runs x' a a' last := by
  rcases recvRetry_cases hwf hr with rfl | ⟨taken, rest, hsplit, hne, hmoved⟩
  · exact ⟨a, hwf, h, rfl, id⟩
  · rw [hsplit] at h
    obtain ⟨a', hruns, -⟩ := h.moved hne hmoved
    exact ⟨a', hruns⟩

section Asserts

variable {e : SQEntry} {used fuel : ℕ} {ans : StoreAnswer} {answers : ℕ → StoreAnswer}

lemma failsWith_writebackStore (hx : x.Idle) (hsafe : x.Safe) :
    FailsWith (fun err => ¬ PacketAssert err) (x.writebackStore e used ans) := by
  have hstore : ¬ PacketAssert .store := by simp [PacketAssert]
  refine .skip fun _ => ?_
  split
  · exact .error hstore
  refine .guard hstore fun _ => .guard hstore fun _ =>
    .skip fun _ => .ite (fun _ => .guard hstore fun _ => .ok _) fun _ => ?_
  have hidle : ((x.markCommitted e).makePackets e.inst.seqNum
      (x.hasUnalignedMemAcc && e.isSplit)).Idle :=
    { hx with }
  refine failsWith_sendPackets hidle (fun hsome => ?_) _ _ _
  rw [secondPkt] at hsome
  split_ifs at hsome with hsplit
  · exact hsafe (Bool.and_eq_true_iff.mp hsplit).1
  · exact absurd rfl hsome

lemma PortInv.failsWith_writebackLoop (hwf : x.Wf) (h : x.PortInv x.unsent a last)
    (hpending : x.hasPendingPkt = true → x.cachePorts ≤ used) (hsafe : x.Safe) :
    FailsWith (fun err => ¬ PacketAssert err) (LSQPort.writebackLoop fuel answers x used) := by
  induction fuel generalizing x a used answers with
  | zero => exact .ok _
  | succ fuel ih =>
    rw [LSQPort.writebackLoop]
    split
    · exact .ok _
    · next e hnext =>
      refine .skip fun hblocked => ?_
      have hidle := hwf.idle_of_next hpending hnext hblocked
      refine (failsWith_writebackStore hidle hsafe).bind fun r hr => ?_
      obtain ⟨a₁, hruns, -, hpending₁⟩ := PortInv.writebackStore (hidle.unsent ▸ h) hidle hnext hr
      exact ih hruns.wf hruns.inv hpending₁ (hruns.safe hsafe)

lemma PortInv.failsWith_writebackStores (hwf : x.Wf) (h : x.PortInv x.unsent a last)
    (hsafe : x.Safe) (usedPorts : ℕ) (pending : Bool) (answers : ℕ → StoreAnswer) :
    FailsWith (fun err => ¬ PacketAssert err) (x.writebackStores usedPorts pending answers) := by
  refine FailsWith.bind (.when fun _ => failsWith_writebackPendingStore hwf pending)
    fun x₁ hx₁ => ?_
  obtain ⟨a₁, hruns, hno⟩ := PortInv.pendingSent hwf h hx₁
  exact PortInv.failsWith_writebackLoop hruns.wf hruns.inv
    (fun hp => absurd (hno.symm.trans hp) (by simp)) (hruns.safe hsafe)

end Asserts

/-! ### What the pipeline keeps -/

lemma Keeps.of_eq (hsent : a'.sent = a.sent) (hwaiting : a'.waiting = a.waiting) :
    Keeps a a' last := by
  refine ⟨?_, ?_, ?_⟩
  · rw [hsent]
    exact fun e he => ⟨e, he, rfl, rfl, rfl⟩
  · rw [hwaiting]
    exact fun e W hw hwb => ⟨e, W, hw, hwb, rfl⟩
  · rw [hwaiting]
    exact fun e he => .inl ⟨e, he, rfl⟩

lemma Keeps.insertStore {e : StoreKey} (hlast : last < e.seqNum) :
    Keeps a (a.insertStore e) last := by
  refine ⟨fun e he => ⟨e, he, rfl, rfl, rfl⟩, fun x W hw hwb => ⟨x, W ++ [e], ?_, hwb, rfl⟩,
    fun x hx => ?_⟩
  · rw [ProgramOrder.insertStore, hw, cons_append]
  · rcases mem_append.mp hx with hx | hx
    · exact .inl ⟨x, hx, rfl⟩
    · exact .inr (by rwa [mem_singleton.mp hx])

lemma Keeps.mapStores (hf : KeepsPlaces f)
    (hcompl : ∀ e, (f e).completed = e.completed) (hwb : ∀ e, e.canWB = true → (f e).canWB = true)
    (hsent : a'.sent = a.sent.map f) (hwaiting : a'.waiting = a.waiting.map f) :
    Keeps a a' last := by
  refine ⟨fun e he => ⟨f e, ?_, hf.seqNum e, hcompl e, hf.sqIdx e⟩, fun e W hw he => ?_,
    fun x hx => ?_⟩
  · rw [hsent]
    exact mem_map_of_mem he
  · exact ⟨f e, W.map f, by rw [hwaiting, hw, map_cons], hwb e he, hf.seqNum e⟩
  · rw [hwaiting] at hx
    obtain ⟨e, he, rfl⟩ := mem_map.mp hx
    exact .inl ⟨e, he, (hf.seqNum e).symm⟩

lemma Keeps.squash (y : ℕ) : Keeps a (a.squash y) last := by
  refine ⟨fun e he => ⟨e, he, rfl, rfl, rfl⟩, fun e W hw hwb => ?_, fun e he => ?_⟩
  · refine ⟨e, W.rdropWhile (LSQUnit.dropped y), ?_, hwb, rfl⟩
    rw [ProgramOrder.squash, hw]
    exact rdropWhile_append_of_forall_neg (l := [e]) fun x hx => by
      rw [mem_singleton.mp hx, LSQUnit.dropped, hwb]
      rfl
  · exact .inl ⟨e, sublist_rdropWhile.subset he, rfl⟩

lemma stores_upTo_mapStores (hf : KeepsPlaces f)
    (h : ∀ e ∈ a.stores, e.seqNum ≤ last) : ∀ e ∈ (a.mapStores f).stores, e.seqNum ≤ last := by
  intro x hx
  rw [stores_mapStores] at hx
  obtain ⟨e, he, rfl⟩ := mem_map.mp hx
  rw [hf.seqNum]
  exact h e he

end LSQPort

namespace Pipeline

variable {r r' : Pipeline} {start : LSQPort → Prop}

def Good (r : Pipeline) : Prop :=
  ∃ a, r.port.Wf ∧ r.port.PortInv r.port.unsent a r.lastSeqNum ∧ a.done = r.doneSeqNum

lemma Good.setUnit {a a' : ProgramOrder} {s : LSQUnit} {done last : ℕ} (hwf : r.port.Wf)
    (h : r.port.PortInv r.port.unsent a r.lastSeqNum) (hs : LSQUnit.SamePort r.port.toLSQUnit s)
    (htracks : s.Tracks a') (hdone : a'.done = done) (hkeeps : LSQPort.Keeps a a' r.lastSeqNum)
    (hle : r.lastSeqNum ≤ last) (hloads : ∀ ld ∈ a'.loads, ld.seqNum ≤ last)
    (hstores : ∀ e ∈ a'.stores, e.seqNum ≤ last) : Good ⟨r.port.setUnit s, done, last⟩ :=
  ⟨a', hwf.setUnit s, h.of_keeps hs htracks hkeeps hle hloads hstores, hdone⟩

lemma Step.good (hstep : Step r r') (h : r.Good) : r'.Good := by
  obtain ⟨a, hwf, hinv, hdone⟩ := h
  have htracks := hinv.tracks
  cases hstep with
  | @insertLoad inst s hlast hs =>
    have hloads : ∀ ld ∈ a.loads, ld.seqNum < inst.seqNum := fun ld hld =>
      (hinv.upTo.loads ld hld).trans_lt hlast
    have hstores : ∀ e ∈ a.stores, e.seqNum < inst.seqNum := fun e he =>
      (hinv.upTo.stores e he).trans_lt hlast
    have htracks' := htracks.insertLoad hs hloads hstores
    refine Good.setUnit hwf hinv (LSQUnit.samePort_insertLoad hs) htracks' hdone
      (.of_eq rfl rfl) hlast.le (fun ld hld => ?_) fun e he => (hstores e he).le
    rcases mem_snoc.mp hld with hld | rfl
    · exact (hloads ld hld).le
    · exact le_rfl
  | @insertStore inst s hlast hs =>
    have hloads : ∀ ld ∈ a.loads, ld.seqNum < inst.seqNum := fun ld hld =>
      (hinv.upTo.loads ld hld).trans_lt hlast
    have hstores : ∀ e ∈ a.stores, e.seqNum < inst.seqNum := fun e he =>
      (hinv.upTo.stores e he).trans_lt hlast
    have htracks' := htracks.insertStore hs hloads hstores
    refine Good.setUnit hwf hinv (LSQUnit.samePort_insertStore hs) htracks' hdone
      (.insertStore hlast) hlast.le (fun ld hld => (hloads ld hld).le) fun e he => ?_
    rw [LSQUnit.stores_insertStore] at he
    rcases mem_snoc.mp he with he | rfl
    · exact (hstores e he).le
    · exact le_rfl
  | @executeLoad inst acc x hin hlt hx =>
    have hslot : r.port.loadQueue inst.lqIdx = some inst := by
      obtain ⟨k, -, hslot⟩ := id hin
      rwa [htracks.lqIdx _ inst hslot]
    exact Good.setUnit hwf hinv (LSQUnit.samePort_executeLoad hslot hx)
      (htracks.executeLoad hin (hdone ▸ hlt) hx) hdone (.refl a _) le_rfl hinv.upTo.loads
      hinv.upTo.stores
  | @executeStore e acc x he hcond hx =>
    have hsame := htracks.samePort_executeStore he hx
    have hcond' : e.inst.isStoreConditional = true → e.canWB = false ∧
        ∀ ld ∈ a.loads, a.done < ld.seqNum → e.inst.seqNum < ld.seqNum := by
      intro hsc
      refine ⟨(hcond hsc).1, fun ld hld hlt => ?_⟩
      obtain ⟨inst, hinst, rfl⟩ :=
        LSQUnit.exists_inLoadQueue htracks.loadSide.loads htracks.loadSide.loads_eq hld
      exact (hcond hsc).2 inst hinst (hdone ▸ hlt)
    rcases htracks.executeStore he hx hcond' with htracks' | ⟨i, htracks'⟩
    · exact Good.setUnit hwf hinv hsame htracks' hdone (.refl a _) le_rfl hinv.upTo.loads
        hinv.upTo.stores
    · have hf := keepsPlaces_allowWB.atSlot i
      refine Good.setUnit hwf hinv hsame htracks' hdone (.mapStores hf (fun e => ?_)
        (fun e hwb => ?_) rfl rfl) le_rfl hinv.upTo.loads
        (LSQPort.stores_upTo_mapStores hf hinv.upTo.stores)
      · rw [atSlot]
        split_ifs <;> rfl
      · rw [atSlot]
        split_ifs
        · rfl
        · exact hwb
  | @commitLoads y hy =>
    have hsub : ∀ ld ∈ (a.commitLoads y).loads, ld ∈ a.loads := fun ld hld =>
      (dropWhile_sublist _).subset hld
    exact Good.setUnit hwf hinv (htracks.samePort_commitLoads y)
      (htracks.commitLoads (hdone ▸ hy)) rfl (.of_eq rfl rfl) le_rfl
      (fun ld hld => hinv.upTo.loads ld (hsub ld hld)) hinv.upTo.stores
  | @commitStores y hy =>
    have hf := keepsPlaces_commitStore y
    exact Good.setUnit hwf hinv (htracks.samePort_commitStores y)
      (htracks.commitStores (hdone ▸ hy)) rfl (.mapStores hf (fun _ => rfl)
        (fun e hwb => by rw [commitStore, hwb]; rfl) rfl rfl) le_rfl hinv.upTo.loads
      (LSQPort.stores_upTo_mapStores hf hinv.upTo.stores)
  | @squash y s hy hs =>
    obtain ⟨s', hs', htracks', hsame⟩ := htracks.squash (hdone ▸ hy)
    obtain rfl := Option.some.inj (hs.symm.trans hs')
    exact Good.setUnit hwf hinv hsame htracks' hdone (.squash y) le_rfl
      (fun ld hld => hinv.upTo.loads ld (sublist_rdropWhile.subset hld))
      fun e he => hinv.upTo.stores e ((LSQUnit.stores_rdropWhile a _).subset he)
  | writebackStores hx =>
    obtain ⟨a', hruns⟩ := LSQPort.PortInv.writebackStores hwf hinv hx
    exact ⟨a', hruns.wf, hruns.inv, hruns.done.trans hdone⟩
  | recvRetry hx =>
    obtain ⟨a', hruns⟩ := LSQPort.PortInv.recvRetry hwf hinv hx
    exact ⟨a', hruns.wf, hruns.inv, hruns.done.trans hdone⟩
  | completeDataAccess hpkt hx =>
    obtain ⟨a', hruns⟩ := hinv.completeDataAccess hwf hpkt hx
    exact ⟨a', hruns.wf, hruns.inv, hruns.done.trans hdone⟩
  | getMemDepViolator =>
    exact ⟨a, hwf.setUnit _, hinv.of_sameCounts { LSQUnit.SameCounts.refl _ with }, hdone⟩
  | updateLoad hslot hkey hlqIdx =>
    exact ⟨a, hwf.setUnit _, hinv.of_sameCounts (LSQUnit.sameCounts_setLoad hslot hkey hlqIdx),
      hdone⟩
  | updateStore hslot hkey =>
    exact ⟨a, hwf.setUnit _, hinv.of_sameCounts (LSQUnit.sameCounts_setStore hslot hkey), hdone⟩

lemma Step.safe (hstep : Step r r') (h : r.Good) (hsafe : r.port.Safe) : r'.port.Safe := by
  obtain ⟨a, hwf, hinv, -⟩ := h
  cases hstep with
  | writebackStores hx =>
    obtain ⟨a', hruns⟩ := LSQPort.PortInv.writebackStores hwf hinv hx
    exact hruns.safe hsafe
  | recvRetry hx =>
    obtain ⟨a', hruns⟩ := LSQPort.PortInv.recvRetry hwf hinv hx
    exact hruns.safe hsafe
  | completeDataAccess hpkt hx =>
    obtain ⟨a', hruns⟩ := hinv.completeDataAccess hwf hpkt hx
    exact hruns.safe hsafe
  | _ => exact hsafe

lemma Reachable.good (h : Reachable start r) : r.Good := by
  induction h with
  | @init n m shift ports checkLoads needsTSO unaligned pendingPkt _ hsq _ =>
    have hidle : (LSQPort.init n m shift ports checkLoads needsTSO unaligned pendingPkt).Idle :=
      ⟨rfl, rfl, rfl⟩
    refine ⟨⟨[], [], [], 0⟩, hidle.wf, ?_, rfl⟩
    rw [hidle.unsent]
    refine ⟨.init n m shift checkLoads needsTSO, ⟨?_, ?_, ?_, ?_⟩, ⟨rfl, .nil, ?_, ?_, .nil, ?_⟩,
      fun _ => ⟨?_, fun _ hne => absurd rfl hne⟩, ⟨?_, ?_, ?_, ?_⟩, hsq⟩
    all_goals simp [LSQPort.init, ProgramOrder.stores]
  | step _ hstep ih => exact hstep.good ih

lemma Reachable.safe (h : Reachable LSQPort.Safe r) : r.port.Safe := by
  induction h with
  | init _ _ hstart => exact hstart
  | step h hstep ih => exact hstep.safe h.good ih

end Pipeline

end ShifDram
