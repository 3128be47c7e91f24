import ShifDram.Dram.Aborts
import ShifDram.Dram.Power
import ShifDram.Dram.RowOpOrder

/-!
The ranks in every run.

Requests are served between the events of the ranks. A rank that is accessed is not refreshing,
and is left between events again.
-/

namespace ShifDram

open Fallible List Agenda

namespace Channel

variable {p : DRAMParams} {c c' c₁ c₂ : Channel} {d : DRAMPacket} {e : DRAMEvent} {r j t : ℕ}
  {behind : List DRAMPacket}

/-- **One access** to a rank that is not refreshing. -/
lemma Steady.access (hp : p.Regular) (h : Steady p c d.rank)
    (hs : (c.view d.rank).Spaced p) (hidle : (c.ranks d.rank).refreshState = .idle)
    (hclock : ∀ e x, c.agenda.when? e = some x → c.now ≤ x) (hnext : c.nextReqTime ≤ c.now)
    (haccess : c.doDRAMAccess p d behind = .ok (c', t)) : Steady p c' d.rank := by
  have hcommands := commands_doDRAMAccess haccess
  have hstates := hcommands.states
  have hpower : c'.agenda.when? (.power d.rank) = c.agenda.when? (.power d.rank) :=
    hcommands.sets.when?_eq (by simp [CommandEvent])
  have hidle' : (c'.ranks d.rank).refreshState = .idle := hstates.refreshState.trans hidle
  cases h with
  | refreshing h => exact absurd (hidle.symm.trans h.run) (by simp)
  | active h =>
    refine .active ⟨hstates.pwrState.trans h.pwr, hpower.trans h.power,
      hcommands.induct (fun _ _ => Command.settled) h.settled, ?_, ?_, fun _ => ?_⟩
    · simp [hidle']
    · simp [hidle']
    · exact hcommands.free hp hs (h.free (by simp [hidle]))
  | rising h =>
    refine .rising ⟨hstates.pwrState.trans h.pwr, hpower.trans h.power, ?_,
      hcommands.induct (fun _ _ => Command.settled) h.settled, ?_, hcommands.free hp hs h.free⟩
    · obtain ⟨x, hx⟩ := Option.ne_none_iff_exists'.mp h.act
      obtain ⟨y, -, hy⟩ := hcommands.induct
        (P := fun c => ∃ y ≤ x, c.agenda.when? (.activate d.rank) = some y)
        (fun _ _ hc => hc.activate_le) ⟨x, le_rfl, hx⟩
      rw [hy]
      exact Option.some_ne_none _
    · cases h.guarded with
      | refresh _ hq => exact .refresh hidle' (hcommands.induct (fun _ _ => Command.before) hq)
      | @request _ _ x hx hlt =>
        -- the request event would have been behind the activate event
        have hle := hclock _ _ hx
        omega
  | quiet h =>
    rw [doDRAMAccess] at haccess
    split at haccess
    · obtain ⟨hrank, x, hlt, hx⟩ := activate_doRowOp hp haccess
      exact .rising ⟨hstates.pwrState.trans h.pwr, hpower.trans h.power, by simp [hx],
        (commands_doRowOp haccess).2, .request (Or.inl hidle') hrank hx hlt,
        hcommands.free hp hs h.free⟩
    · obtain ⟨c₁, cmdAt, hopen, hrest⟩ := commands_doBurst haccess
      have hact := (commands_openPage hopen).2 (hs.closed h.active _)
      -- the bank may be activated now
      have hnow : max ((c.ranks d.rank).banks d.bank).actAllowedAt c.now = c.now := by
        have hfree := h.free d.bank
        have hend := hs.lastEnd_le h.active
        have hhorizon : (c.view d.rank).horizon = c.now := by
          change (c.agenda.when? (.precharge d.rank)).getD c.now = c.now
          rw [h.pre]
          rfl
        have hle : ((c.ranks d.rank).banks d.bank).actAllowedAt ≤ max (c.view d.rank).horizon
          ((c.view d.rank).lastEnd p) := hfree
        omega
      have hbefore : c₁.agenda.Before (.activate d.rank) (.refresh d.rank) := by
        rcases hact.event with ⟨-, -, heq⟩ | ⟨x, -, hx, -⟩
        · rw [heq, hnow]
          exact before_set fun x => hclock _ x
        · rw [h.act] at hx
          cases hx
      have hbefore' : c'.agenda.Before (.activate d.rank) (.refresh d.rank) :=
        hrest.induct (fun _ _ => Command.before) hbefore
      obtain ⟨x, hx⟩ := hbefore'.exists_when?
      exact .rising ⟨hstates.pwrState.trans h.pwr, hpower.trans h.power, by simp [hx],
        hrest.induct (fun _ _ => Command.settled) hact.settled, .refresh hidle' hbefore',
        hcommands.free hp hs h.free⟩

/-- All ranks are between events; nothing on the agenda is past. -/
structure Calm (p : DRAMParams) (c : Channel) : Prop where
  clock : ∀ e x, c.agenda.when? e = some x → c.now ≤ x
  spaced : ∀ j, (c.view j).Spaced p
  steady : ∀ j, Steady p c j

lemma Calm.access (hp : p.Regular) (h : Calm p c)
    (hnext : c.nextReqTime ≤ c.now) (hidle : (c.ranks d.rank).refreshState = .idle)
    (haccess : c.doDRAMAccess p d behind = .ok (c', t)) : Calm p c' := by
  have hcommands := commands_doDRAMAccess haccess
  refine ⟨fun e x hx => ?_, fun j => ?_, fun j => ?_⟩
  · rw [hcommands.now]
    exact hcommands.sets.le h.clock hx
  · by_cases hj : j = d.rank
    · subst hj
      exact hcommands.spaced (h.spaced _)
    · exact (hcommands.away hj).spaced (h.spaced j)
  · by_cases hj : j = d.rank
    · subst hj
      exact (h.steady _).access hp (h.spaced _) hidle h.clock hnext haccess
    · refine (h.steady j).away (hcommands.away hj) fun x hx hlt => ?_
      have hle := h.clock _ _ hx
      omega

/-! ### Events of the controller -/

structure Aside (c c' : Channel) : Prop where
  rest : c' = { c with agenda := c'.agenda }
  sets : c.agenda.SetsFrom c.now (fun e => ∀ j, ¬ e.ofRank j) c'.agenda

lemma Aside.refl (c : Channel) : Aside c c := ⟨rfl, .refl _⟩

lemma aside_set (ht : c.now ≤ t) (he : ∀ j, ¬ e.ofRank j) :
    Aside c { c with agenda := c.agenda.set t e } :=
  ⟨rfl, .single ht he⟩

lemma Aside.now (h : Aside c c') : c'.now = c.now := by rw [h.rest]

lemma Aside.trans (h : Aside c c₁) (h' : Aside c₁ c₂) : Aside c c₂ :=
  ⟨by rw [h'.rest, h.rest], h.sets.trans (h.now ▸ h'.sets)⟩

lemma Aside.away (h : Aside c c') (j : ℕ) : Away j c c' :=
  away_of_eq h.now.ge (by rw [h.rest]) (by rw [view, view, h.rest]) h.sets fun _ he => he j

lemma Calm.aside (h : Calm p c) (haside : Aside c c') : Calm p c' := by
  refine ⟨fun e x hx => ?_, fun j => (haside.away j).spaced (h.spaced j), fun j => ?_⟩
  · rw [haside.now]
    exact haside.sets.le h.clock hx
  · refine (h.steady j).away (haside.away j) fun _ _ _ => ?_
    rw [haside.rest]
    exact ⟨rfl, rfl⟩

lemma Calm.bubble (h : Calm p c) (n : ℕ) : Calm p { c with busBusyUntil := n } := by
  have hcolumns : Columns c { c with busBusyUntil := n } := columns_of_ranks rfl rfl rfl rfl
  exact ⟨h.clock, h.spaced, fun j => (h.steady j).away (hcolumns.away j) fun _ _ _ => ⟨rfl, rfl⟩⟩

lemma Calm.take (h : Calm p c) (he : ∀ j, ¬ e.ofRank j)
    (hhead : c.agenda.entries.head? = some (t, e)) : Calm p (c.take e t) := by
  have ht := h.clock _ _ (when?_of_head hhead)
  refine ⟨fun e' x hx => ?_, fun j => (away_take (he j) ht).spaced (h.spaced j), fun j => ?_⟩
  · rw [when?_take] at hx
    split_ifs at hx
    exact le_of_head hhead hx
  · exact (h.steady j).away (away_take (he j) ht) fun _ _ _ => ⟨rfl, rfl⟩

/-- A rank that has drained goes on with its refresh. -/
lemma Calm.checkDrainDone (h : Calm p c) (hnext : c.nextReqTime ≤ c.now)
    (hok : c.checkDrainDone r = .ok c') : Calm p c' ∧ c'.nextReqTime ≤ c'.now := by
  have hhandled := handled_checkDrainDone hok
  have hsame := sameBanks_checkDrainDone hok
  have hnext' : c'.nextReqTime ≤ c'.now := by
    rw [hhandled.rest]
    exact hnext
  refine ⟨?_, hnext'⟩
  rw [Channel.checkDrainDone] at hok
  split_ifs at hok with hdrain
  · obtain ⟨hle, hnone, rfl⟩ := schedule_ok hok
    refine ⟨fun e x hx => ?_, fun j => ?_, fun j => ?_⟩
    · exact (Agenda.SetsFrom.single (E := fun _ => True) le_rfl trivial).le h.clock hx
    · by_cases hj : j = r
      · subst hj
        exact hsame.spaced (h.spaced j)
      · exact (hhandled.away hj).spaced (h.spaced j)
    · by_cases hj : j = r
      · subst hj
        cases h.steady j with
        | quiet h =>
          refine .quiet ⟨?_, hsame.act.trans h.act, hsame.pre.trans h.pre, ?_,
            hsame.active.trans h.active, ?_, ?_, hsame.free h.free⟩
          · simpa [setRefreshState] using h.pwr
          · simpa [setRefreshState, setRank] using h.power
          · simp [setRefreshState]
          · simp [setRefreshState]
        | rising hrising =>
          cases hrising.guarded with
          | refresh hidle _ => exact absurd (hidle.symm.trans hdrain) (by simp)
          | @request _ _ x hx hlt =>
            have hle := h.clock _ _ hx
            omega
        | active h =>
          refine .active ⟨?_, ?_, hsame.settled h.settled, ?_, ?_, fun _ => ?_⟩
          · simpa [setRefreshState] using h.pwr
          · simpa [setRefreshState, setRank] using h.power
          · simp [setRefreshState]
          · simp [setRefreshState]
          · exact hsame.free (h.free (by simp [hdrain]))
        | refreshing h => exact absurd (hdrain.symm.trans h.run) (by simp)
      · refine (h.steady j).away (hhandled.away hj) fun x hx hlt => ?_
        have hle := h.clock _ _ hx
        omega
  · cases hok
    exact h

end Channel

namespace DRAMCtrl

open Channel

variable {p : DRAMParams} {s s' : DRAMCtrl} {c c' : Channel} {d : DRAMPacket} {e : DRAMEvent}
  {r t : ℕ}

lemma NextScheduled.aside (h : NextScheduled c c') : Aside c c' := by
  rcases h with ⟨-, rfl⟩ | ⟨-, rfl⟩
  · exact .refl c'
  · exact aside_set (le_max_right _ _) fun _ => id

lemma RespondSet.aside (h : RespondSet c c') : Aside c c' := by
  rcases h with rfl | ⟨x, hx, rfl⟩
  · exact .refl c'
  · exact aside_set hx fun _ => id

lemma RespondSet.when?_nextReq (h : RespondSet c c') :
    c'.agenda.when? .nextReq = c.agenda.when? .nextReq := by
  rcases h with rfl | ⟨x, -, rfl⟩
  · rfl
  · rw [when?_set, if_neg (by simp)]

def Paced (c : Channel) : Prop := c.nextReqTime ≤ (c.agenda.when? .nextReq).getD c.now

lemma NextScheduled.paced (h : NextScheduled c c') (hnone : c.agenda.when? .nextReq = none) :
    Paced c' := by
  rcases h with ⟨hne, -⟩ | ⟨-, rfl⟩
  · exact absurd hnone hne
  · rw [Paced, when?_set, if_pos rfl]
    exact le_max_left _ _

lemma calm_drainRanks (h : Calm p c) (hnext : c.nextReqTime ≤ c.now)
    (hnone : c.agenda.when? .nextReq = none) (hok : drainRanks p c = .ok c') :
    Calm p c' ∧ c'.nextReqTime ≤ c'.now ∧ c'.agenda.when? .nextReq = none := by
  refine foldlM_ok (P := fun c => Calm p c ∧ c.nextReqTime ≤ c.now ∧
    c.agenda.when? .nextReq = none) (fun r _ c₁ c₂ h₁ hstep => ?_) ⟨h, hnext, hnone⟩ hok
  split_ifs at hstep
  · cases hstep
    exact h₁
  · obtain ⟨hcalm, hnext₂⟩ := h₁.1.checkDrainDone h₁.2.1 hstep
    refine ⟨hcalm, hnext₂, ?_⟩
    rw [Channel.checkDrainDone] at hstep
    split_ifs at hstep
    · obtain ⟨-, -, rfl⟩ := schedule_ok hstep
      simpa [setRefreshState, setRank] using h₁.2.2
    · cases hstep
      exact h₁.2.2

lemma calm_served {queued : DRAMPacket → Prop} (hp : p.Regular) (h : Calm p c)
    (hnext : c.nextReqTime ≤ c.now) (hnone : c.agenda.when? .nextReq = none)
    (hserved : ChanServed p queued c c') : Calm p c' ∧ Paced c' := by
  cases hserved with
  | stall hdrain =>
    obtain ⟨hcalm, hnext', hnone'⟩ := calm_drainRanks h hnext hnone hdrain
    refine ⟨hcalm, ?_⟩
    rw [Paced, hnone']
    exact hnext'
  | idle c₁ hdrain hset =>
    obtain ⟨hcalm, -, hnone'⟩ := calm_drainRanks h hnext hnone hdrain
    exact ⟨hcalm.aside hset.aside, hset.paced hnone'⟩
  | access c₁ c₂ c₃ d behind bubble t hdrain _ hidle _ haccess hrespond hset =>
    obtain ⟨hcalm, hnext', hnone'⟩ := calm_drainRanks h hnext hnone hdrain
    have hcalm₂ := (hcalm.bubble (c₁.busBusyUntil + bubble)).access hp hnext' hidle haccess
    refine ⟨(hcalm₂.aside hrespond.aside).aside hset.aside, hset.paced ?_⟩
    rw [hrespond.when?_nextReq,
      (commands_doDRAMAccess haccess).sets.when?_eq (by simp [CommandEvent])]
    exact hnone'

/-! ### Runs -/

/-- Every rank is sound, the request event not early, and nothing else acts while a power event is
next. -/
structure PowerInv (p : DRAMParams) (s : DRAMCtrl) : Prop where
  clock : ∀ e x, s.chan.agenda.when? e = some x → s.chan.now ≤ x
  paced : Paced s.chan
  sound : ∀ j, Sound p s.chan j
  control : ∀ r, PowerNext p s.chan r → s.control = false

lemma not_powerNext_of_steady (h : Steady p c r) : ¬ PowerNext p c r := by
  rintro ⟨hturning, hhead⟩
  have h := h.refreshing_of_head hhead
  cases hturning with
  | toAct pwr => exact absurd (h.pwr.symm.trans pwr) (by simp)
  | toIdle pwr => exact absurd (h.pwr.symm.trans pwr) (by simp)
  | toRef pwr => exact absurd (h.pwr.symm.trans pwr) (by simp)

lemma powerInv_of_calm (h : Calm p s.chan) (hpaced : Paced s.chan) : PowerInv p s :=
  ⟨h.clock, hpaced, fun j => ⟨h.spaced j, Or.inl (h.steady j)⟩,
    fun r hturn => absurd hturn (not_powerNext_of_steady (h.steady r))⟩

lemma PowerInv.calm (h : PowerInv p s) (hturn : ∀ r, ¬ PowerNext p s.chan r) : Calm p s.chan :=
  ⟨h.clock, fun j => (h.sound j).1, fun j => (h.sound j).2.resolve_right (hturn j)⟩

lemma PowerInv.steady_of_ne (h : PowerInv p s) (hturn : PowerNext p s.chan r) {j : ℕ}
    (hj : j ≠ r) : Steady p s.chan j := by
  refine (h.sound j).2.resolve_right fun hj' => hj ?_
  have heq := hj'.2.symm.trans hturn.2
  simpa using heq

lemma Paced.take (h : Paced c) (he : e ≠ .nextReq) (ht : c.now ≤ t) : Paced (c.take e t) := by
  rw [Paced, when?_take, if_neg (Ne.symm he)]
  refine h.trans ?_
  cases c.agenda.when? .nextReq with
  | none => exact ht
  | some x => exact le_rfl

/-- An event of a rank, taken when it is due. -/
lemma PowerInv.rankEvent (h : PowerInv p s) (he : e.ofRank r) (hcontrol : s'.control = false)
    (hhead : s.chan.agenda.entries.head? = some (t, e))
    (hhandled : Handled r (s.chan.take e t) s'.chan) (hsound : Sound p s'.chan r)
    (hsteady : ∀ j ≠ r, Steady p s.chan j) : PowerInv p s' := by
  have ht := h.clock _ _ (when?_of_head hhead)
  have hbus : s'.chan.activeRank = s.chan.activeRank ∧
      s'.chan.nextReqTime = s.chan.nextReqTime := by
    rw [hhandled.rest]
    exact ⟨rfl, rfl⟩
  have haway : ∀ j ≠ r, Away j s.chan s'.chan := by
    intro j hj
    refine (away_take (fun hej => hj ?_) ht).trans (hhandled.away hj)
    cases e <;> simp_all [DRAMEvent.ofRank]
  refine ⟨fun e' x hx => ?_, ?_, fun j => ?_, fun _ _ => hcontrol⟩
  · rw [hhandled.now]
    refine hhandled.sets.le (fun e'' y hy => ?_) hx
    rw [when?_take] at hy
    split_ifs at hy
    exact le_of_head hhead hy
  · have hne : e ≠ .nextReq := by
      rintro rfl
      exact he
    have hpaced := h.paced.take hne ht
    rw [Paced] at hpaced ⊢
    rw [hhandled.next, hbus.2]
    exact hpaced
  · by_cases hj : j = r
    · exact hj ▸ hsound
    · exact ⟨(haway j hj).spaced (h.sound j).1,
        Or.inl ((hsteady j hj).away (haway j hj) fun _ _ _ => hbus)⟩

lemma aside_frontSet (h : Relation.ReflTransGen FrontSet c c') :
    Aside c c' ∧ (Paced c → Paced c') := by
  induction h with
  | refl => exact ⟨.refl c, id⟩
  | tail _ hset ih =>
    refine ⟨ih.1.trans ?_, fun hpaced => ?_⟩
    · cases hset with
      | respond t h => exact aside_set h fun _ => id
      | response n t h => exact aside_set h fun _ => id
      | kick h => exact aside_set le_rfl fun _ => id
    · have hpaced' := ih.2 hpaced
      cases hset with
      | respond t h => simpa [Paced] using hpaced'
      | response n t h => simpa [Paced] using hpaced'
      | kick h => simpa [Paced, h] using hpaced'

lemma PowerInv.front (h : Calm p s.chan) (hpaced : Paced s.chan) (hfront : Front p s s') :
    PowerInv p s' := by
  obtain ⟨haside, hpaced'⟩ := aside_frontSet hfront.chan
  exact powerInv_of_calm (h.aside haside) (hpaced' hpaced)

lemma calm_takeEvent (h : Calm p s.chan) (hpaced : Paced s.chan) (he : ∀ j, ¬ e.ofRank j)
    (hne : e ≠ .nextReq) (hhead : s.chan.agenda.entries.head? = some (t, e)) :
    Calm p (s.takeEvent e t).chan ∧ Paced (s.takeEvent e t).chan :=
  ⟨h.take he hhead, hpaced.take hne (h.clock _ _ (when?_of_head hhead))⟩

/-- **One action**, in the order of the event queue. -/
lemma PowerInv.perform (hp : p.Regular) (h : PowerInv p s) {a : Act} (henabled : s.Enabled a)
    (hordered : s.Ordered a) (hok : s.perform p a = .ok s') : PowerInv p s' := by
  by_cases hturn : ∃ r, PowerNext p s.chan r
  · -- a power event is next, so that it is the action
    obtain ⟨r, hturn⟩ := hturn
    cases a with
    | event e t =>
      obtain ⟨rfl, rfl⟩ : s.chan.now = t ∧ DRAMEvent.power r = e := by
        have heq := hturn.2.symm.trans hordered
        simpa using heq
      obtain ⟨chan, hchan, rfl⟩ := map_ok hok
      obtain ⟨hspaced, hsteady⟩ := hturn.powerEvent hp (h.sound r).1 hchan
      exact h.rankEvent (by rfl) rfl hturn.2 (handled_processPowerEvent hchan)
        ⟨hspaced, Or.inl hsteady⟩ fun j hj => h.steady_of_ne hturn hj
    | _ => exact absurd (hordered.symm.trans (h.control r hturn)) (by simp)
  · have hcalm := h.calm (not_exists.mp hturn)
    cases chanStep_perform hok with
    | front hfront => exact .front hcalm h.paced hfront
    | plan n t =>
      refine powerInv_of_calm (hcalm.aside (aside_set henabled fun _ => id)) ?_
      simpa [Paced] using h.paced
    | aside he hne hfront =>
      obtain ⟨hcalm', hpaced'⟩ := calm_takeEvent hcalm h.paced he hne hordered
      exact .front hcalm' hpaced' hfront
    | request hserved =>
      have hpaced := h.paced
      rw [Paced, when?_of_head hordered] at hpaced
      obtain ⟨hcalm', hpaced'⟩ := calm_served hp (hcalm.take (fun _ => id) hordered) hpaced
        (by simp) hserved
      exact powerInv_of_calm hcalm' hpaced'
    | @rank e t r chan he hchan =>
      have ht := h.clock _ _ (when?_of_head hordered)
      refine h.rankEvent he ?_ hordered (handled_rankEvent he hchan) ?_ fun j _ => hcalm.steady j
      · cases e <;> first | rfl | exact he.elim
      · cases e with
        | nextReq | respond | response | external => exact he.elim
        | activate =>
          subst he
          exact (hcalm.steady _).activateEvent (hcalm.spaced _) ht hordered hchan
        | precharge =>
          subst he
          exact (hcalm.steady _).prechargeEvent hp (hcalm.spaced _) ht hordered hchan
        | refresh =>
          subst he
          exact (hcalm.steady _).refreshEvent (hcalm.spaced _) ht h.paced hordered hchan
        | power =>
          subst he
          obtain ⟨hspaced, hsteady⟩ :=
            (hcalm.steady _).powerEvent (hcalm.spaced _) ht hordered hchan
          exact ⟨hspaced, Or.inl hsteady⟩

lemma sets_init (p : DRAMParams) (start : ℕ) (mem : AbstractMemory) :
    (empty : Agenda DRAMEvent).SetsFrom start
      (fun e => ∃ r < p.ranksPerChannel, e = .refresh r) (init p start mem).chan.agenda := by
  have hrefi := p.refi
  have hloop : ∀ (l : List ℕ) (q : Agenda DRAMEvent), (∀ r ∈ l, r < p.ranksPerChannel) →
      q.SetsFrom start (fun e => ∃ r < p.ranksPerChannel, e = .refresh r)
        (l.foldl (fun q r => q.set (start + p.tREFI - p.tRP) (.refresh r)) q) := by
    intro l
    induction l with
    | nil => exact fun q _ => .refl q
    | cons r l ih =>
      intro q hl
      exact Agenda.SetsFrom.trans (.single (by omega) ⟨r, hl r mem_cons_self, rfl⟩)
        (ih _ fun r' hr' => hl r' (mem_cons_of_mem _ hr'))
  exact hloop _ _ fun r hr => mem_range.mp hr

lemma calm_init (p : DRAMParams) (start : ℕ) (mem : AbstractMemory) :
    Calm p (init p start mem).chan := by
  have hsets := sets_init p start mem
  have hnone : ∀ e, (∀ r, e ≠ DRAMEvent.refresh r) →
      (init p start mem).chan.agenda.when? e = none :=
    fun e he => hsets.when?_eq fun ⟨r, _, hr⟩ => he r hr
  refine ⟨fun e x hx => ?_, fun j => ?_, fun j => .quiet ?_⟩
  · exact hsets.le (fun e t ht => by simp at ht) hx
  · refine ⟨⟨isChain_nil, ?_⟩, ?_, ?_, ?_, ?_, ∅, ?_, rfl⟩
    · simp [view, init, Rank.init, lastValues]
    · simp [view, init]
    · intro i hne
      refine absurd ?_ hne
      simp only [view, init, Rank.init, Rank.oldest, getLastD_eq_getLast?, getLast?_replicate]
      split_ifs <;> rfl
    · simp [view, init]
    · intro x hx
      rw [show (view (init p start mem).chan j).act = none from hnone _ (by simp)] at hx
      cases hx
    · simp [view, init, Rank.init, Bank.init]
  · exact ⟨rfl, hnone _ (by simp), hnone _ (by simp), hnone _ (by simp), rfl,
      by simp [init, Rank.init],
      by simp [init, Rank.init], fun i => Nat.zero_le _⟩

/-- **Every run** in event-queue order keeps ranks sound. -/
lemma Run.powerInv (hp : p.Regular) (h : Run p Ordered s) : PowerInv p s := by
  induction h with
  | start t mem => exact powerInv_of_calm (calm_init p t mem) (Nat.zero_le _)
  | act _ henabled hordered hperform ih => exact ih.perform hp henabled hordered hperform

end DRAMCtrl

end ShifDram
