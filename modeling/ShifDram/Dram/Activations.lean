import ShifDram.Dram.Requests
import ShifDram.Dram.WriteQueue

/-!
The activates of every run.

Refreshes set the activate times of all banks anew; the spacing survives because a rank is
refreshed only when its newest activate has ended.
-/

namespace ShifDram

open Fallible

namespace Channel

variable {p : DRAMParams} {c c' : Channel} {d : DRAMPacket} {r b t row : ℕ}

/-! ### The window panic -/

lemma fails_activateBank_spaced (hs : (c.view r).Spaced p)
    (hallowed : ((c.ranks r).banks b).actAllowedAt ≤ t) :
    Fails [.front, .bank] (c.activateBank p r b t row) := by
  refine FailsWith.bind ?_ fun _ _ => (fails_scheduleActivate _ r t).mono (by simp)
  refine .guard (by decide) fun _ => ?_
  refine FailsWith.bind ((fails_openBank p b row _).mono (by simp)) fun k hk => ?_
  have hticks : k.actTicks = (c.ranks r).actTicks := by
    rw [Rank.openBank] at hk
    split_ifs at hk
    cases hk
    rfl
  refine .skip fun _ => .when fun hfull => ?_
  -- the bank waits for the end of the window
  have hold : (c.ranks r).oldest ≠ 0 ∧ tickSub t (c.ranks r).oldest < p.tXAW := by
    rw [Rank.oldest, ← hticks]
    exact hfull
  have hle : (c.ranks r).oldest + p.tXAW ≤ t := (hs.le_of_allowed hallowed).2 hold.1
  rw [tickSub_of_le (by omega)] at hold
  omega

lemma fails_doCycles_spaced (hs : (c.view r).Spaced p) (hnow : c.now ≤ t)
    (hallowed : ((c.ranks r).banks b).actAllowedAt ≤ t) (l : List Cycle) :
    Fails [.front, .bank] (c.doCycles p r b t l) := by
  induction l generalizing c t with
  | nil => exact .ok _
  | cons y l ih =>
    refine FailsWith.bind ?_ fun c₁ hcycle => ?_
    · cases y with
      | ap row =>
        exact FailsWith.bind (fails_activateBank_spaced hs hallowed) fun c' _ =>
          fails_prechargeBank p c' r b _
      | aap row1 row2 =>
        refine FailsWith.bind ?_ fun k _ => ?_
        · exact FailsWith.map ((fails_openBank p b _ _).mono (by simp))
        · exact FailsWith.bind ((fails_scheduleActivate _ r t).mono (by simp)) fun c' _ =>
            fails_prechargeBank p c' r b _
    · obtain ⟨hcommands, hnext, -⟩ := commands_doCycle hcycle hnow hallowed
      have hnow₁ := hcommands.now
      exact ih (hcommands.spaced hs) (by omega) le_rfl

lemma fails_doDRAMAccess_spaced (hs : (c.view d.rank).Spaced p) (behind : List DRAMPacket) :
    Fails [.front, .bank, .bus] (c.doDRAMAccess p d behind) := by
  have hclose : Fails [.front, .bank, .bus] (c.closePage p d.rank d.bank) :=
    (fails_closePage p c d.rank d.bank).mono (by simp)
  rw [doDRAMAccess]
  split
  · refine FailsWith.bind hclose fun c₁ hc₁ => FailsWith.map ?_
    have hcommands := commands_closePage hc₁
    have hnow := hcommands.now
    exact (fails_doCycles_spaced (hcommands.spaced hs) (by omega) (le_max_right _ _) _).mono
      (by simp)
  · refine FailsWith.bind ?_ fun x _ => ?_
    · refine .skip fun _ => FailsWith.bind hclose fun c₁ hc₁ => FailsWith.map ?_
      have hspaced := (commands_closePage hc₁).spaced hs
      exact (fails_activateBank_spaced hspaced (le_max_left _ _)).mono (by simp)
    · refine .guard (by decide) fun _ => FailsWith.map (.when fun _ => ?_)
      exact (fails_prechargeBank p _ d.rank d.bank _).mono (by simp)

end Channel

namespace DRAMCtrl

open Channel

variable {p : DRAMParams} {s s' : DRAMCtrl} {c c' : Channel} {d : DRAMPacket} {r t : ℕ}
  {queued : DRAMPacket → Prop} {behind : List DRAMPacket} {a : Act}

def onService : List Abort.Kind := [.front, .bank, .bus, .order]

def offWindow : List Abort.Kind := [.front, .bank, .bus, .order, .power]

section

variable (hs : ∀ j, (c.view j).Spaced p)

include hs

lemma spaced_checkDrainDone (h : c.checkDrainDone r = .ok c') (j : ℕ) : (c'.view j).Spaced p := by
  by_cases hj : j = r
  · subst hj
    exact (sameBanks_checkDrainDone h).spaced (hs j)
  · exact ((handled_checkDrainDone h).away hj).spaced (hs j)

lemma spaced_access {n : ℕ} {x : Channel × ℕ}
    (h : { c with busBusyUntil := c.busBusyUntil + n }.doDRAMAccess p d behind = .ok x) (j : ℕ) :
    (x.1.view j).Spaced p := by
  have hcommands := commands_doDRAMAccess h
  by_cases hj : j = d.rank
  · subst hj
    exact hcommands.spaced (hs _)
  · exact (hcommands.away hj).spaced (hs j)

lemma fails_access_spaced (d : DRAMPacket) (behind : List DRAMPacket) (n : ℕ) :
    Fails onService ({ c with busBusyUntil := c.busBusyUntil + n }.doDRAMAccess p d behind) :=
  Fails.mono (fails_doDRAMAccess_spaced (c := { c with busBusyUntil := c.busBusyUntil + n })
    (hs d.rank) behind) (by simp [onService])

omit hs in
lemma serves_spaced (p : DRAMParams) : Serves p (fun e => e.kind ∈ onService)
    (fun c _ => ∀ j, (c.view j).Spaced p) (fun _ => True) fun _ => True where
  front e he := by simp [onService, he]
  set hle he hs j := ((aside_set hle he).away j).spaced (hs j)
  drain hs hok j := spaced_checkDrainDone hs hok j
  read behind n hs _ := meets_iff.mpr ⟨fails_access_spaced hs _ behind n,
    fun x hok => ⟨spaced_access hs hok, Or.inl (by decide)⟩⟩
  write behind n hs _ := meets_iff.mpr ⟨fails_access_spaced hs _ behind n,
    fun x hok => spaced_access hs hok⟩

lemma spaced_drainRanks (h : drainRanks p c = .ok c') (j : ℕ) : (c'.view j).Spaced p := by
  refine foldlM_ok (P := fun c => ∀ j, (c.view j).Spaced p) (fun r _ c₁ c₂ h₁ hstep j => ?_) hs h j
  split_ifs at hstep
  · cases hstep
    exact h₁ j
  · exact spaced_checkDrainDone h₁ hstep j

end

lemma fails_processNextReqEvent_spaced (hs : ∀ j, (s.chan.view j).Spaced p) :
    Fails onService (s.processNextReqEvent p) :=
  ((serves_spaced p).processNextReqEvent hs (fun _ _ => trivial) fun _ _ => trivial).fails

/-- **No action runs into the window panic** if activates are spaced. -/
lemma fails_perform_spaced (hs : ∀ j, (s.chan.view j).Spaced p) (a : Act)
    (hordered : s.Ordered a) (hclock : ∀ e x, s.chan.agenda.when? e = some x → s.chan.now ≤ x) :
    Fails offWindow (s.perform p a) := by
  have hfront : ∀ e : Abort, e.kind = .front → e.kind ∈ offWindow := fun e he => by
    simp [offWindow, he]
  refine (meets_perform (Q := fun _ => True) hfront (fun _ _ => trivial) (fun _ _ _ => trivial)
    fun e t ha => meets_handle hfront trivial (fun _ _ => trivial)
      (fun he => ?_) fun r _ => ?_).fails
  · subst ha he
    refine meets_iff.mpr ⟨(fails_processNextReqEvent_spaced fun j => ?_).mono
      (by simp [offWindow, onService]), fun _ _ => trivial⟩
    exact spaced_take (hclock _ _ (Agenda.when?_of_head hordered)) hordered (hs j)
  · exact meets_iff.mpr ⟨(fails_rankEvent p _ e).mono (by simp [offWindow]), fun _ _ => trivial⟩

/-! ### Activates after tick 0 -/

/-- No activate at tick 0, which the window takes for none; the window holds over all. -/
def Ticked (p : DRAMParams) (v : RankView) : Prop := (∀ a ∈ v.acts, 0 < a.tick) ∧ v.Spanning p

lemma Ticked.of_acts {v v' : RankView} (h : Ticked p v) (hacts : v'.acts = v.acts) :
    Ticked p v' := by
  rw [Ticked, RankView.Spanning, hacts]
  exact h

lemma ticked_command (hlimit : p.activationLimit ≠ 0) (hcommand : Command p r c c')
    (hnow : 0 < c.now) (hs : (c.view r).Spaced p) (h : Ticked p (c.view r)) :
    Ticked p (c'.view r) := by
  cases hcommand with
  | activate hle hallowed _ hact =>
    refine ⟨fun a ha => ?_, h.2.activate hs hlimit h.1 hallowed hact.acts⟩
    rw [hact.acts] at ha
    rcases List.mem_cons.mp ha with rfl | ha
    · exact hnow.trans_le hle
    · exact h.1 a ha
  | precharge _ hpre => exact h.of_acts hpre.acts
  | column hcolumn => exact h.of_acts (hcolumn.away r).acts

lemma ticked_access (hlimit : p.activationLimit ≠ 0)
    (haccess : c.doDRAMAccess p d behind = .ok (c', t)) (hnow : 0 < c.now)
    (hs : ∀ j, (c.view j).Spaced p) (h : ∀ j, Ticked p (c.view j)) (j : ℕ) :
    Ticked p (c'.view j) := by
  have hcommands := commands_doDRAMAccess haccess
  by_cases hj : j = d.rank
  · subst hj
    refine (hcommands.induct (P := fun c => 0 < c.now ∧ (c.view d.rank).Spaced p ∧
      Ticked p (c.view d.rank)) (fun c₁ c₂ hc h₁ => ?_) ⟨hnow, hs _, h _⟩).2.2
    exact ⟨hc.now ▸ h₁.1, hc.spaced h₁.2.1, ticked_command hlimit hc h₁.1 h₁.2.1 h₁.2.2⟩
  · exact (h j).of_acts (hcommands.away hj).acts

lemma rest_drainRanks (h : drainRanks p c = .ok c') :
    c' = { c with ranks := c'.ranks, agenda := c'.agenda } := by
  refine foldlM_ok (P := fun c' => c' = { c with ranks := c'.ranks, agenda := c'.agenda })
    (fun r _ c₁ c₂ h₁ hstep => ?_) rfl h
  split_ifs at hstep
  · cases hstep
    exact h₁
  · rw [(handled_checkDrainDone hstep).rest, h₁]

lemma ticked_served (hlimit : p.activationLimit ≠ 0)
    (hserved : ChanServed p queued c c') (hnow : ∀ d, queued d → 0 < c.now)
    (hs : ∀ j, (c.view j).Spaced p) (h : ∀ j, Ticked p (c.view j)) (j : ℕ) :
    Ticked p (c'.view j) := by
  have hdrained : ∀ {c₁}, drainRanks p c = .ok c₁ → ∀ j, Ticked p (c₁.view j) := by
    intro c₁ hdrain j
    refine (h j).of_acts ?_
    rw [view, view, rest_drainRanks hdrain]
  cases hserved with
  | stall hdrain => exact hdrained hdrain j
  | idle c₁ hdrain hset => exact (hdrained hdrain j).of_acts (hset.aside.away j).acts
  | access c₁ c₂ c₃ d behind bubble t hdrain hd _ _ haccess hrespond hset =>
    have hnow₁ : 0 < c₁.now := by
      rw [rest_drainRanks hdrain]
      exact hnow d hd
    have hs₁ := spaced_drainRanks hs hdrain
    have h₁ := hdrained hdrain
    have h₂ := ticked_access hlimit haccess hnow₁ hs₁ h₁ j
    exact (h₂.of_acts (hrespond.aside.away j).acts).of_acts (hset.aside.away j).acts

lemma activations_perform (hok : s.perform p a = .ok s')
    (hne : ∀ t, a ≠ .event .nextReq t) : s'.chan.activations = s.chan.activations := by
  cases chanStep_perform hok with
  | front hfront => rw [(aside_frontSet hfront.chan).1.rest]
  | plan n t => rfl
  | aside he hne hfront =>
    rw [(aside_frontSet hfront.chan).1.rest]
    rfl
  | @request t => exact absurd rfl (hne t)
  | rank he hchan => exact (handled_rankEvent he hchan).activations

lemma now_drainRanks (h : drainRanks p c = .ok c') : c'.now = c.now := by
  rw [rest_drainRanks h]

lemma ChanServed.now (h : ChanServed p queued c c') : c'.now = c.now := by
  cases h with
  | stall hdrain => exact now_drainRanks hdrain
  | idle c₁ hdrain hset => exact hset.aside.now.trans (now_drainRanks hdrain)
  | access c₁ c₂ c₃ d behind bubble t hdrain _ _ _ haccess hrespond hset =>
    have hnow : c₂.now = c₁.now := (commands_doDRAMAccess haccess).now
    rw [hset.aside.now, hrespond.aside.now, hnow, now_drainRanks hdrain]

lemma now_le_perform (henabled : s.Enabled a) (hok : s.perform p a = .ok s') :
    s.chan.now ≤ s'.chan.now := by
  cases chanStep_perform hok with
  | front hfront => exact (aside_frontSet hfront.chan).1.now.ge
  | plan n t => exact le_rfl
  | aside he hne hfront => exact henabled.2.trans (aside_frontSet hfront.chan).1.now.ge
  | request hserved => exact henabled.2.trans hserved.now.ge
  | rank he hchan => exact henabled.2.trans (handled_rankEvent he hchan).now.ge

def AfterZero (s : DRAMCtrl) : Act → Prop
  | .arrive _ _ => 0 < s.chan.now
  | _ => True

/-- What waits in the queues, and the activates, came after tick 0. -/
structure TickInv (p : DRAMParams) (s : DRAMCtrl) : Prop where
  queued : ∀ d, Queued s d → 0 < s.chan.now
  ticked : ∀ j, Ticked p (s.chan.view j)

lemma TickInv.perform (hlimit : p.activationLimit ≠ 0) (hpower : PowerInv p s) (h : TickInv p s)
    (henabled : s.Enabled a) (hordered : s.Ordered a) (hafter : AfterZero s a)
    (hok : s.perform p a = .ok s') : TickInv p s' := by
  have hnow := now_le_perform henabled hok
  refine ⟨fun d hd => ?_, fun j => ?_⟩
  · rcases queued_perform hok hd with hd | ⟨⟨pkt, delay, rfl⟩, -⟩
    · exact (h.queued d hd).trans_le hnow
    · exact hafter.trans_le hnow
  · by_cases hreq : ∃ t, a = .event .nextReq t
    · obtain ⟨t, rfl⟩ := hreq
      have hhead : s.chan.agenda.entries.head? = some (t, .nextReq) := hordered
      have hle := hpower.clock _ _ (Agenda.when?_of_head hhead)
      refine ticked_served hlimit ((processNextReqEvent_ok hok).2) (fun d hd => ?_) (fun j => ?_)
        (fun j => (h.ticked j).of_acts rfl) j
      · exact (h.queued d hd).trans_le hle
      · exact spaced_take hle hhead (hpower.sound j).1
    · refine (h.ticked j).of_acts ?_
      rw [view, view, activations_perform hok (not_exists.mp hreq)]

lemma Run.tickInv (hp : p.Regular) (hlimit : p.activationLimit ≠ 0)
    (h : Run p (fun s a => s.Ordered a ∧ AfterZero s a) s) : TickInv p s := by
  induction h with
  | start t mem => exact ⟨by simp [Queued, init], fun j => ⟨by simp [view, init], by
      intro i x y hx
      simp [view, init] at hx⟩⟩
  | act hrun henabled hcondition hperform ih =>
    have hpower := (hrun.mono fun _ _ h => h.1).powerInv hp
    exact ih.perform hlimit hpower henabled hcondition.1 hcondition.2 hperform

def activates (s : DRAMCtrl) (r : ℕ) : List Activation := s.chan.activations.filter (·.rank = r)

/-- **The activates of a rank.** In every run in event-queue order in which nothing arrives at tick
0, successive activates are `tRRD` apart (`tRRD_L` in one bank group), any `activationLimit + 1`
span `tXAW` unless the limit is disabled, and the window panic is not reached. -/
theorem activates_spaced (hp : p.Regular)
    (hrun : Run p (fun s a => s.Ordered a ∧ AfterZero s a) s) (r : ℕ) :
    ((s.activates r).IsChain fun newer older =>
        older.tick + p.actDelay older.bank newer.bank ≤ newer.tick) ∧
      (p.activationLimit ≠ 0 → ∀ i x y, (s.activates r)[i]? = some x →
        (s.activates r)[i + p.activationLimit]? = some y → y.tick + p.tXAW ≤ x.tick) ∧
      ∀ a, s.Ordered a → s.perform p a ≠ .error .windowPanic := by
  have hpower := (hrun.mono fun _ _ h => h.1).powerInv hp
  refine ⟨(hpower.sound r).1.chain, fun hlimit i x y hx hy => ?_, fun a hordered => ?_⟩
  · refine ((hrun.tickInv hp hlimit).ticked r).2 i x.tick y.tick ?_ ?_
    · rw [List.getElem?_map]
      exact congrArg (Option.map Activation.tick) hx
    · rw [List.getElem?_map]
      exact congrArg (Option.map Activation.tick) hy
  · exact (fails_perform_spaced (fun j => (hpower.sound j).1) a hordered hpower.clock).ne
      (by decide)

lemma run_performAll_afterZero {l : List Act}
    (hrun : Run p (fun s a => s.Ordered a ∧ AfterZero s a) s) (hpos : 0 < s.chan.now)
    (h : performAll p s l = some s') : Run p (fun s a => s.Ordered a ∧ AfterZero s a) s' := by
  induction l generalizing s with
  | nil =>
    cases h
    exact hrun
  | cons a l ih =>
    rw [performAll] at h
    split_ifs at h with hlegal
    have hafter : AfterZero s a := by
      cases a with
      | arrive pkt delay => exact hpos
      | _ => trivial
    split at h
    · next s₁ hperform =>
      exact ih (hrun.act hlegal.1 ⟨hlegal.2, hafter⟩ hperform)
        (hpos.trans_le (now_le_perform hlegal.1 hperform)) h
    · cases h

/-- Five reads in different banks, with events up to the last activate. -/
def fiveReads (requests : List Act) : List Act :=
  [.arrive (readBurst 0) 0, .arrive (readBurst 8192) 0, .arrive (readBurst 16384) 0,
    .arrive (readBurst 24576) 0, .arrive (readBurst 32768) 0] ++ requests

/-- From tick 1000 on, the fifth activate waits for the window. -/
theorem activates_spaced_fiveReads :
    ∃ s, Run (.ddr3_1600_x64 .fcfs) (fun s a => s.Ordered a ∧ AfterZero s a) s ∧
      (s.activates 0).map Activation.tick = [31000, 19000, 13000, 7000, 1000] ∧
      ((s.activates 0).IsChain fun newer older => older.tick +
        (DRAMParams.ddr3_1600_x64 .fcfs).actDelay older.bank newer.bank ≤ newer.tick) := by
  have hlast : (performAll (.ddr3_1600_x64 .fcfs) (init (.ddr3_1600_x64 .fcfs) 1000 blank)
      (fiveReads [.event .nextReq 1000, .event (.activate 0) 1000, .event (.power 0) 1000,
        .event .nextReq 6000, .event (.activate 0) 7000, .event .nextReq 11000,
        .event (.activate 0) 13000, .event .nextReq 16000, .event (.activate 0) 19000,
        .event .nextReq 21000])).map (fun s => (s.activates 0).map Activation.tick) =
      some [31000, 19000, 13000, 7000, 1000] := by decide +kernel
  obtain ⟨s, hs, hticks⟩ := Option.map_eq_some_iff.mp hlast
  have hrun := run_performAll_afterZero (.start 1000 blank) (by decide) hs
  exact ⟨s, hrun, hticks, (activates_spaced ⟨by decide, by decide, by decide, by decide⟩ hrun 0).1⟩

/-- The first activate is taken for none: the fifth is 24 ns behind it; `tXAW` is 30 ns. -/
theorem window_forgets_tick_zero :
    ∃ s x y, Run (.ddr3_1600_x64 .fcfs) Ordered s ∧ (s.activates 0)[0]? = some x ∧
      (s.activates 0)[0 + (DRAMParams.ddr3_1600_x64 .fcfs).activationLimit]? = some y ∧
      ¬ y.tick + (DRAMParams.ddr3_1600_x64 .fcfs).tXAW ≤ x.tick := by
  have hlast : (performAll (.ddr3_1600_x64 .fcfs) (init (.ddr3_1600_x64 .fcfs) 0 blank)
      (fiveReads [.event .nextReq 0, .event (.activate 0) 0, .event (.power 0) 0,
        .event .nextReq 5000, .event (.activate 0) 6000, .event .nextReq 10000,
        .event (.activate 0) 12000, .event .nextReq 15000, .event (.activate 0) 18000,
        .event .nextReq 20000])).map (fun s => s.activates 0) =
      some [⟨0, 4, 24000⟩, ⟨0, 3, 18000⟩, ⟨0, 2, 12000⟩, ⟨0, 1, 6000⟩, ⟨0, 0, 0⟩] := by
    decide +kernel
  obtain ⟨s, hs, hacts⟩ := Option.map_eq_some_iff.mp hlast
  refine ⟨s, ⟨0, 4, 24000⟩, ⟨0, 0, 0⟩, run_performAll (.start 0 blank) hs, ?_, ?_, by decide⟩
  · rw [hacts]
    rfl
  · rw [hacts]
    rfl

/-- `DDR3_1600_x64` with the window disabled. -/
def unlimited : DRAMParams := { DRAMParams.ddr3_1600_x64 .fcfs with activationLimit := 0 }

/-- One activate alone does not span `tXAW`. -/
theorem window_disabled : ∃ s x, Run unlimited (fun s a => s.Ordered a ∧ AfterZero s a) s ∧
      (s.activates 0)[0]? = some x ∧ (s.activates 0)[0 + unlimited.activationLimit]? = some x ∧
      ¬ x.tick + unlimited.tXAW ≤ x.tick := by
  have hlast : (performAll unlimited (init unlimited 1000 blank)
      [.arrive (readBurst 0) 0, .event .nextReq 1000]).map (fun s => s.activates 0) =
      some [⟨0, 0, 1000⟩] := by decide +kernel
  obtain ⟨s, hs, hacts⟩ := Option.map_eq_some_iff.mp hlast
  refine ⟨s, ⟨0, 0, 1000⟩, run_performAll_afterZero (.start 1000 blank) (by decide) hs, ?_, ?_,
    by decide⟩
  · rw [hacts]
    rfl
  · rw [hacts]
    rfl

/-- `DDR3_1600_x64` with `tRCD = tRAS` and refreshes of no time. -/
def slowColumns : DRAMParams :=
  { DRAMParams.ddr3_1600_x64 .fcfs with tRCD := 35000, tRFC := 0, refi := by decide }

/-- Activate and precharge of the bank of an address. -/
def rowAp (dest : ℕ) : Packet :=
  .createRowOp ((Request.virt 0 32 (Request.uncacheable ||| Request.rowop) 0).setPaddr 0)
    ⟨.rowAp, dest, dest, dest⟩

/-- With `tRCD = tRAS` the request event behind a row op precedes its activate event. A refresh is
over before, and the next row op activates in the same tick. -/
theorem activates_together : slowColumns.tRCD = slowColumns.tRAS ∧
    ∃ s, Run slowColumns (fun s a => s.Ordered a ∧ AfterZero s a) s ∧
      s.activates 0 = [⟨0, 1, 7812500⟩, ⟨0, 0, 7812500⟩] := by
  have hlast : (performAll slowColumns (init slowColumns 1000 blank)
      [.plan 0 7770000, .event (.external 0) 7770000, .arrive (readBurst 65536) 0,
        .arrive (rowAp 0) 0, .arrive (rowAp 8192) 0, .event .nextReq 7770000,
        .event .nextReq 7770000, .event (.activate 1) 7770000, .event (.power 1) 7770000,
        .event (.response 2) 7780000, .event (.response 1) 7780000, .event (.refresh 1) 7787250,
        .event (.refresh 0) 7787250, .event .nextReq 7812500, .event (.refresh 0) 7812500,
        .event (.power 0) 7812500, .event (.power 0) 7812500, .event .nextReq 7812500]).map
      (fun s => s.activates 0) = some [⟨0, 1, 7812500⟩, ⟨0, 0, 7812500⟩] := by decide +kernel
  obtain ⟨s, hs, hacts⟩ := Option.map_eq_some_iff.mp hlast
  exact ⟨rfl, s, run_performAll_afterZero (.start 1000 blank) (by decide) hs, hacts⟩

end DRAMCtrl

end ShifDram
