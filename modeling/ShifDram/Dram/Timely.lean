import ShifDram.Dram.Aborts
import ShifDram.Dram.Delays

/-!
Refreshes that are on time.

The next refresh is scheduled while the current one is running, for a tick counted from when that
was due. A refresh that begins too late would still be running then.
-/

namespace ShifDram

open Fallible Option Agenda

namespace Channel

variable {p : DRAMParams} {c c' c₁ : Channel} {e : DRAMEvent} {req req' : Option ℕ}
  {u m r t : ℕ} {k : Rank} {state : PowerState}

/-- A refresh is on time; `req` is the request a draining rank waits for. -/
structure Timely (p : DRAMParams) (u : ℕ) (req : Option ℕ) (c : Channel) (r : ℕ) : Prop where
  range : (c.ranks r).refreshState ≠ .idle ∨ c.agenda.when? (.refresh r) ≠ none →
    r < p.ranksPerChannel
  drain : (c.ranks r).refreshState = .drain → ∃ x ∈ req, x ≤ (c.ranks r).refreshDueAt + 28 * u
  pre : (c.ranks r).refreshState = .pre →
    ∃ x ∈ c.agenda.when? (.refresh r), x ≤ (c.ranks r).refreshDueAt + 28 * u
  run : (c.ranks r).refreshState = .run → (c.ranks r).pwrState ≠ .ref →
    ∃ x ≤ (c.ranks r).refreshDueAt + 63 * u,
      c.agenda.when? (.precharge r) = some x ∨ c.agenda.when? (.power r) = some x
  ref : (c.ranks r).pwrState = .ref →
    (c.ranks r).refreshState = .run ∧ c.agenda.Before (.power r) (.refresh r)

section

variable (h : Timely p u req c r)

include h

lemma Timely.away (haway : Away r c c') (hreq : ∀ x ∈ req, x ∈ req') : Timely p u req' c' r := by
  have hstates := haway.states
  have hpre := haway.events (.precharge r) rfl
  have hpower := haway.events (.power r) rfl
  have hrefresh := haway.events (.refresh r) rfl
  refine ⟨?_, ?_, ?_, ?_, ?_⟩
  · rw [hstates.refreshState, hrefresh]
    exact h.range
  · rw [hstates.refreshState, hstates.refreshDueAt]
    intro hdrain
    obtain ⟨x, hx, hle⟩ := h.drain hdrain
    exact ⟨x, hreq x hx, hle⟩
  · rw [hstates.refreshState, hstates.refreshDueAt, hrefresh]
    exact h.pre
  · rw [hstates.refreshState, hstates.refreshDueAt, hstates.pwrState, hpre, hpower]
    exact h.run
  · rw [hstates.refreshState, hstates.pwrState]
    exact fun hpwr => ⟨(h.ref hpwr).1, haway.before _ _ (by rfl) (by rfl) (h.ref hpwr).2⟩

omit h in
lemma timely_of_idle (hidle : (c.ranks r).refreshState = .idle) (hpwr : (c.ranks r).pwrState ≠ .ref)
    (hrange : c.agenda.when? (.refresh r) ≠ none → r < p.ranksPerChannel) :
    Timely p u req c r := by
  refine ⟨fun h => hrange (h.resolve_left (not_not.mpr hidle)), ?_, ?_, ?_, fun h => absurd h hpwr⟩
  · simp [hidle]
  · simp [hidle]
  · simp [hidle]

lemma Timely.of_not_drain (hdrain : (c.ranks r).refreshState ≠ .drain) : Timely p u req' c r :=
  { h with drain := fun heq => absurd heq hdrain }

lemma Timely.schedulePowerEvent (hok : c.schedulePowerEvent r state t = .ok c') :
    Timely p u req c' r := by
  obtain ⟨hnone, rfl⟩ := schedulePowerEvent_ok hok
  refine ⟨?_, ?_, ?_, fun hrun hpwr => ?_, fun hpwr => ?_⟩
  · simpa using h.range
  · simpa using h.drain
  · simpa using h.pre
  · obtain ⟨x, hle, hx | hx⟩ := h.run (by simpa using hrun) (by simpa using hpwr)
    · exact ⟨x, by simpa using hle, Or.inl (by simpa using hx)⟩
    · rw [hnone] at hx
      cases hx
  · obtain ⟨x, hx⟩ := (h.ref (by simpa using hpwr)).2.exists_when?
    rw [hnone] at hx
    cases hx

lemma Timely.activateEvent (hok : (c.take (.activate r) t).processActivateEvent r = .ok c') :
    Timely p u req c' r := by
  have h₀ : Timely p u req (c.take (.activate r) t) r := by
    refine ⟨?_, h.drain, ?_, ?_, fun hpwr => ?_⟩
    · simpa using h.range
    · simpa using h.pre
    · simpa using h.run
    · exact ⟨(h.ref hpwr).1, (h.ref hpwr).2.remove (by simp)⟩
  rw [processActivateEvent] at hok
  split_ifs at hok
  · exact h₀.schedulePowerEvent hok
  · exact Except.ok.inj hok ▸ h₀

omit h in
lemma Steady.active_of_run (h : Steady p c r) (hrun : (c.ranks r).refreshState = .run)
    (hpwr : (c.ranks r).pwrState ≠ .ref) : Active p c r := by
  cases h with
  | quiet h => exact absurd hrun h.run
  | rising h =>
    cases h.guarded with
    | refresh hidle => exact absurd (hidle.symm.trans hrun) (by simp)
    | request hstate =>
      rcases hstate with hidle | ⟨hdrain, -⟩
      · exact absurd (hidle.symm.trans hrun) (by simp)
      · exact absurd (hdrain.symm.trans hrun) (by simp)
  | active h => exact h
  | refreshing h => exact absurd h.pwr hpwr

lemma Timely.prechargeEvent (hsteady : Steady p c r)
    (hhead : c.agenda.entries.head? = some (t, .precharge r))
    (hok : (c.take (.precharge r) t).processPrechargeEvent r = .ok c') : Timely p u req c' r := by
  have hwhen := when?_of_head hhead
  -- the precharge event that a refresh waits for is this one
  have hrun : (c.ranks r).refreshState = .run → (c.ranks r).pwrState ≠ .ref →
      t ≤ (c.ranks r).refreshDueAt + 63 * u := by
    intro hrun hpwr
    obtain ⟨x, hle, hx | hx⟩ := h.run hrun hpwr
    · exact (some.inj (hwhen.symm.trans hx)) ▸ hle
    · exact absurd ((hsteady.active_of_run hrun hpwr).power.symm.trans hx) (by simp)
  rw [processPrechargeEvent] at hok
  split_ifs at hok with hactive
  · obtain ⟨hnone, rfl⟩ := schedulePowerEvent_ok hok
    refine ⟨?_, ?_, ?_, fun hstate hpwr => ⟨t, ?_, Or.inr (by simp)⟩, fun hpwr => ?_⟩
    · simpa using h.range
    · simpa using h.drain
    · simpa using h.pre
    · simpa using hrun (by simpa using hstate) (by simpa using hpwr)
    · obtain ⟨x, hx⟩ := (h.ref (by simpa using hpwr)).2.exists_when?
      rw [when?_take, if_neg (by simp), hx] at hnone
      cases hnone
  · cases hok
    refine ⟨?_, h.drain, ?_, fun hstate hpwr => ?_, fun hpwr => ?_⟩
    · simpa using h.range
    · simpa using h.pre
    · exact absurd ((hsteady.active_of_run hstate hpwr).run hstate) hactive
    · exact ⟨(h.ref hpwr).1, (h.ref hpwr).2.remove (by simp)⟩

end

/-! ### The refresh event -/

def begin (c : Channel) (r due : ℕ) (state : RefreshState) : Channel :=
  c.setRank r { c.ranks r with refreshDueAt := due, refreshState := state }

lemma sameBanks_begin (c : Channel) (r due : ℕ) (state : RefreshState) :
    SameBanks r c (c.begin r due state) :=
  sameBanks_setRank rfl rfl rfl

/-- After a refresh event: waiting for a request, banks precharged, or power event set. -/
def Begins (p : DRAMParams) (u : ℕ) (c : Channel) (r t : ℕ) : Prop :=
  ((c.take (.refresh r) t).processRefreshEvent p r =
      .ok ((c.take (.refresh r) t).begin r t .drain) ∧
    c.agenda.when? .nextReq ≠ none ∧ (c.ranks r).pwrState ≠ .ref) ∨
  ∃ due, (c.take (.refresh r) t).processRefreshEvent p r =
      ((c.take (.refresh r) t).begin r due .pre).refreshPre p r ∧
    t ≤ due + 28 * u ∧ (Quiet p c r ∨ Active p c r)

lemma Steady.refresh_eq (h : Steady p c r) (hclock : c.now ≤ t)
    (hnext : c.nextReqTime ≤ (c.agenda.when? .nextReq).getD c.now)
    (hhead : c.agenda.entries.head? = some (t, .refresh r)) (htimely : Timely p u req c r) :
    Begins p u c r t := by
  have hwhen := when?_of_head hhead
  -- the refresh begins, in a phase that allows it
  have hidle : (c.ranks r).refreshState = .idle → (c.ranks r).pwrState ≠ .ref →
      (c.agenda.when? .nextReq ≠ none ∧ r = c.activeRank ∨ Quiet p c r ∨ Active p c r) →
      Begins p u c r t := by
    intro hstate hpwr hphase
    rw [Begins, processRefreshEvent, ranks_take, hstate]
    rw [processRefreshEvent.refreshDrain]
    by_cases hwait : r = c.activeRank ∧ c.agenda.when? .nextReq ≠ none
    · refine Or.inl ⟨if_pos ⟨hwait.1, ?_⟩, hwait.2, hpwr⟩
      simpa [scheduled, setRank, isSome_iff_ne_none] using hwait.2
    · refine Or.inr ⟨t, ?_, by omega, hphase.resolve_left fun h => hwait ⟨h.2, h.1⟩⟩
      rw [if_neg, setRefreshState, setRank_setRank, ranks_setRank_self]
      · rfl
      · simpa [scheduled, setRank, take, isSome_iff_ne_none] using hwait
  -- the refresh goes on behind a request
  have hpre : (c.ranks r).refreshState = .pre → Quiet p c r ∨ Active p c r → Begins p u c r t := by
    intro hstate hphase
    obtain ⟨x, hx, hle⟩ := htimely.pre hstate
    obtain rfl := some.inj (hwhen.symm.trans hx)
    refine Or.inr ⟨(c.ranks r).refreshDueAt, ?_, hle, hphase⟩
    have hsame : (c.take (.refresh r) t).begin r (c.ranks r).refreshDueAt .pre =
        c.take (.refresh r) t := by
      rw [begin, setRank, ranks_take, ← hstate]
      simp only [Function.update_eq_self]
      rfl
    rw [hsame, processRefreshEvent, ranks_take, hstate]
  cases h with
  | quiet h =>
    cases hstate : (c.ranks r).refreshState with
    | idle => exact hidle hstate (by simp [h.pwr]) (Or.inr (Or.inl h))
    | drain => exact absurd (hwhen.symm.trans (h.drain hstate)) (by simp)
    | pre => exact hpre hstate (Or.inl h)
    | run => exact absurd hstate h.run
  | rising h =>
    cases h.guarded with
    | refresh _ hq => exact absurd (hq.of_head hhead) (by simp)
    | request hstate hrank hx hlt =>
      rcases hstate with hstate | ⟨-, hnone⟩
      · refine hidle hstate (by simp [h.pwr]) (Or.inl ⟨fun hnone => ?_, hrank.symm⟩)
        have hle := le_of_head hhead hx
        rw [hnone] at hnext
        change c.nextReqTime ≤ c.now at hnext
        omega
      · exact absurd (hwhen.symm.trans hnone) (by simp)
  | active h =>
    cases hstate : (c.ranks r).refreshState with
    | idle => exact hidle hstate (by simp [h.pwr]) (Or.inr (Or.inr h))
    | drain => exact absurd (hwhen.symm.trans (h.drain (Or.inl hstate))) (by simp)
    | pre => exact hpre hstate (Or.inr h)
    | run => exact absurd (hwhen.symm.trans (h.drain (Or.inr hstate))) (by simp)
  | refreshing h => exact absurd ((htimely.ref h.pwr).2.of_head hhead) (by simp)

/-- The precharge of all banks, or the power event, before a refresh. -/
lemma timely_refreshPre (hrange : r < p.ranksPerChannel) (hpwr : (c.ranks r).pwrState ≠ .ref)
    (hsettled : (c.ranks r).pwrState ≠ .idle → c.Settled r)
    (hnow : c.now ≤ (c.ranks r).refreshDueAt + 28 * u) (hp : p.Brisk u) (hahead : Ahead p u m c)
    (hm : m ≤ c.now + 34 * u) (hok : c.refreshPre p r = .ok c') : Timely p u req c' r := by
  have hahead' := ahead_refreshPre hp hahead hok
  obtain ⟨c₁, rfl, hactive, hcases⟩ := refreshPre_ok hok
  have hstates : (c₁.ranks r).pwrState = (c.ranks r).pwrState ∧
      (c₁.ranks r).refreshDueAt = (c.ranks r).refreshDueAt := by
    rcases hcases with ⟨-, hall⟩ | ⟨-, hpower⟩
    · have hsweep := (sweep_prechargeAll hall).1
      exact ⟨hsweep.states.pwrState, hsweep.states.refreshDueAt⟩
    · obtain ⟨-, rfl⟩ := schedulePowerEvent_ok hpower
      simp
  refine ⟨fun _ => hrange, ?_, ?_, fun _ _ => ?_, fun heq => absurd ?_ hpwr⟩
  · simp [setRefreshState]
  · simp [setRefreshState]
  · rcases hcases with ⟨hne, hall⟩ | ⟨-, hpower⟩
    · have hsweep := (sweep_prechargeAll hall).1
      obtain ⟨x, hx⟩ := ne_none_iff_exists'.mp (hsweep.settled (hsettled hne) hactive)
      have hle := hahead'.due r x hx
      refine ⟨x, ?_, Or.inl hx⟩
      simp only [setRefreshState, ranks_setRank_self, hstates.2]
      omega
    · obtain ⟨-, rfl⟩ := schedulePowerEvent_ok hpower
      refine ⟨c.now, ?_, Or.inr (by simp [setRefreshState, setRank])⟩
      simp only [setRefreshState, ranks_setRank_self]
      omega
  · rw [← hstates.1]
    simpa [setRefreshState] using heq

lemma Timely.refreshEvent (h : Timely p u req c r) (hp : p.Brisk u) (hsteady : Steady p c r)
    (hclock : c.now ≤ t) (hnext : c.nextReqTime ≤ (c.agenda.when? .nextReq).getD c.now)
    (hhead : c.agenda.entries.head? = some (t, .refresh r))
    (hahead : Ahead p u m (c.take (.refresh r) t)) (hm : m ≤ t + 34 * u)
    (hreq : ∀ x ∈ c.agenda.when? .nextReq, x ∈ req' ∧ x ≤ t + 28 * u)
    (hok : (c.take (.refresh r) t).processRefreshEvent p r = .ok c') : Timely p u req' c' r := by
  have hwhen := when?_of_head hhead
  have hrange : r < p.ranksPerChannel := h.range (Or.inr (by simp [hwhen]))
  rcases hsteady.refresh_eq hclock hnext hhead h with ⟨heq, hne, hpwr⟩ | ⟨due, heq, hdue, hphase⟩
  · obtain rfl := Except.ok.inj (heq.symm.trans hok)
    obtain ⟨x, hx⟩ := ne_none_iff_exists'.mp hne
    refine ⟨fun _ => hrange, fun _ => ⟨x, (hreq x hx).1, ?_⟩, ?_, ?_, fun heq => absurd ?_ hpwr⟩
    · simpa [begin] using (hreq x hx).2
    · simp [begin]
    · simp [begin]
    · simpa [begin] using heq
  · rw [heq] at hok
    refine timely_refreshPre hrange ?_ (fun hne => ?_) ?_ hp (m := m) ?_ hm hok
    · rcases hphase with h | h <;> simp [begin, h.pwr]
    · rcases hphase with h | h
      · simp [begin, h.pwr] at hne
      · simpa [begin, Settled, setRank] using h.settled
    · simpa [begin, Channel.setRank] using hdue
    · exact hahead.setRank rfl

lemma Timely.setRank (h : Timely p u req c r) (hstate : k.refreshState = (c.ranks r).refreshState)
    (hdue : k.refreshDueAt = (c.ranks r).refreshDueAt) (hrun : k.refreshState ≠ .run)
    (hpwr : k.pwrState ≠ .ref) : Timely p u req ((c.take (.power r) t).setRank r k) r := by
  refine ⟨?_, ?_, ?_, ?_, ?_⟩
  · simpa [Channel.setRank, hstate] using h.range
  · simpa [Channel.setRank, hstate, hdue] using h.drain
  · simpa [Channel.setRank, hstate, hdue] using h.pre
  · simp [hrun]
  · simp [hpwr]

lemma timely_refreshRun (hrange : r < p.ranksPerChannel) (hp : p.Brisk u)
    (hrun : (c.ranks r).refreshState = .run) (hpwr : (c.ranks r).pwrState = .ref)
    (hnow : c.now ≤ (c.ranks r).refreshDueAt + 63 * u) (hok : c.refreshRun p r = .ok c') :
    Timely p u req c' r := by
  obtain ⟨-, rfl⟩ := refreshRun_ok hok
  refine ⟨fun _ => hrange, ?_, ?_, ?_, fun _ => ⟨?_, before_set fun x hx => ?_⟩⟩
  · simp [Rank.mapBanks, hrun]
  · simp [Rank.mapBanks, hrun]
  · simp [Rank.mapBanks, hpwr]
  · simp [Rank.mapBanks, hrun]
  · rw [when?_set, if_pos rfl] at hx
    cases hx
    have hrfc := hp.rfc
    have hrp := hp.rp
    have hinterval := hp.interval
    omega

/-- The power event scheduled for this tick. -/
lemma Timely.powerNext (h : Timely p u req c r) (hp : p.Brisk u) (hturn : PowerNext p c r)
    (hok : (c.take (.power r) c.now).processPowerEvent p r = .ok c') : Timely p u req c' r := by
  obtain ⟨hturn, hhead⟩ := hturn
  have hwhen := when?_of_head hhead
  -- a refresh that runs from now on has not waited for long
  have hlate : (c.ranks r).refreshState = .run → (c.ranks r).pwrState ≠ .ref →
      c.agenda.when? (.precharge r) = none → c.now ≤ (c.ranks r).refreshDueAt + 63 * u := by
    intro hrun hpwr hpre
    obtain ⟨x, hle, hx | hx⟩ := h.run hrun hpwr
    · exact absurd (hpre.symm.trans hx) (by simp)
    · exact (some.inj (hwhen.symm.trans hx)) ▸ hle
  rw [processPowerEvent] at hok
  rw [ranks_setRank_self, ranks_take] at hok
  cases hturn with
  | toAct pwr trans state =>
    simp only [trans] at hok
    cases hok
    refine h.setRank rfl rfl ?_ (by simp)
    rcases state with hidle | ⟨hdrain, -⟩
    · simp [hidle]
    · simp [hdrain]
  | toIdle pwr trans act pre active =>
    simp only [trans, pwr] at hok
    rw [if_neg (by simp), if_neg (by simp)] at hok
    split_ifs at hok with hrun
    · rw [setRank_setRank, processRefreshEvent_run (by simpa using hrun)] at hok
      refine timely_refreshRun (h.range (Or.inl ?_)) hp ?_ ?_ ?_ hok
      · simp [hrun]
      · simpa using hrun
      · simp
      · simpa [Channel.setRank] using hlate hrun (by simp [pwr]) pre
    · cases hok
      exact h.setRank rfl rfl hrun (by simp)
  | toRef pwr trans act pre active run =>
    simp only [trans, run] at hok
    rw [if_neg (by simp), processRefreshEvent_run (by simp)] at hok
    refine timely_refreshRun (h.range (Or.inl ?_)) hp ?_ ?_ ?_ hok
    · simp [run]
    · simp
    · simp
    · simpa [Channel.setRank] using hlate run (by simp [pwr]) pre

lemma Timely.powerEvent (h : Timely p u req c r) (hsteady : Steady p c r)
    (hhead : c.agenda.entries.head? = some (t, .power r))
    (hok : (c.take (.power r) t).processPowerEvent p r = .ok c') : Timely p u req' c' r := by
  have hrefreshing := hsteady.refreshing_of_head hhead
  have hrange := h.range (Or.inl (by simp [hrefreshing.run]))
  rw [processPowerEvent] at hok
  rw [ranks_setRank_self, ranks_take] at hok
  simp only [hrefreshing.trans, hrefreshing.pwr, if_true, setRefreshState, setRank_setRank,
    ranks_setRank_self] at hok
  split_ifs at hok
  · cases hok
    exact timely_of_idle (by simp) (by simp) fun _ => hrange
  · obtain ⟨-, -, rfl⟩ := schedule_ok hok
    exact timely_of_idle (by simp) (by simp) fun _ => hrange

/-! ### The assertions of the two machines -/

lemma fails_schedulePowerEvent_none (h : c.agenda.when? (.power r) = none) :
    Fails [.front] (c.schedulePowerEvent r state t) := by
  refine .guard (by decide) fun _ => .ite (fun hscheduled => ?_) fun _ => fails_schedule _ t _
  rw [scheduled, h] at hscheduled
  cases hscheduled

lemma fails_activateEvent (h : Steady p c r)
    (hhead : c.agenda.entries.head? = some (t, .activate r)) :
    Fails [.front] ((c.take (.activate r) t).processActivateEvent r) := by
  have hwhen := when?_of_head hhead
  refine .when fun hne => ?_
  refine fails_schedulePowerEvent_none ?_
  cases h with
  | quiet h => exact absurd (h.act.symm.trans hwhen) (by simp)
  | rising h => simpa using h.power
  | active h => exact absurd h.pwr hne
  | refreshing h => exact absurd (h.act.symm.trans hwhen) (by simp)

lemma fails_prechargeEvent (h : Steady p c r)
    (hhead : c.agenda.entries.head? = some (t, .precharge r)) :
    Fails [.front] ((c.take (.precharge r) t).processPrechargeEvent r) := by
  have hwhen := when?_of_head hhead
  refine .when fun _ => ?_
  refine fails_schedulePowerEvent_none ?_
  cases h with
  | quiet h => exact absurd (h.pre.symm.trans hwhen) (by simp)
  | rising h => simpa using h.power
  | active h => simpa using h.power
  | refreshing h => exact absurd (h.pre.symm.trans hwhen) (by simp)

lemma active_eq_zero (hs : (c.view r).Spaced p)
    (hclosed : ∀ i, ((c.ranks r).banks i).openRow = none) : (c.ranks r).numBanksActive = 0 := by
  obtain ⟨S, hopen, hcard⟩ := hs.count
  change S.card = (c.ranks r).numBanksActive at hcard
  rw [← hcard, Finset.card_eq_zero]
  exact Finset.eq_empty_of_forall_notMem fun i hi => (hopen i).mpr hi (hclosed i)

lemma fails_refreshPre_timely (hs : (c.view r).Spaced p) (hahead : Ahead p u m c)
    (hpower : c.agenda.when? (.power r) = none)
    (hidle : (c.ranks r).pwrState = .idle → (c.ranks r).numBanksActive = 0) :
    Fails [.front, .bank] (c.refreshPre p r) := by
  refine FailsWith.bind (.ite (fun _ => fails_prechargeAll p c r)
    fun _ => (fails_schedulePowerEvent_none hpower).mono (by simp)) fun c₁ hfirst => ?_
  have hactive : (c₁.ranks r).numBanksActive = 0 := by
    split_ifs at hfirst with hpwr
    · obtain ⟨hsweep, hclosed⟩ := sweep_prechargeAll hfirst
      refine active_eq_zero (hsweep.spaced hs) fun i => ?_
      by_cases hi : i < p.banksPerRank
      · exact hclosed i hi
      · exact hsweep.closed i (by_contra fun hopen => hi ((hahead.ranks r).opened i hopen))
    · obtain ⟨-, rfl⟩ := schedulePowerEvent_ok hfirst
      simpa using hidle (not_not.mp hpwr)
  refine .when fun hne => absurd ?_ hne
  simpa [setRefreshState] using hactive

lemma fails_refreshEvent (h : Steady p c r) (hs : (c.view r).Spaced p) (hclock : c.now ≤ t)
    (hnext : c.nextReqTime ≤ (c.agenda.when? .nextReq).getD c.now)
    (hhead : c.agenda.entries.head? = some (t, .refresh r)) (htimely : Timely p u req c r)
    (hahead : Ahead p u m (c.take (.refresh r) t)) :
    Fails [.front, .bank] ((c.take (.refresh r) t).processRefreshEvent p r) := by
  rcases h.refresh_eq hclock hnext hhead htimely with ⟨heq, -, -⟩ | ⟨due, heq, -, hphase⟩
  · rw [heq]
    exact .ok _
  · rw [heq]
    refine fails_refreshPre_timely (u := u) (m := m)
      ((sameBanks_begin _ r due .pre).spaced (spaced_take hclock hhead hs)) ?_ ?_ fun hidle => ?_
    · exact hahead.setRank rfl
    · rcases hphase with h | h <;> simpa [begin, setRank] using h.power
    · rcases hphase with h | h
      · simpa [begin] using h.active
      · simp [begin, h.pwr] at hidle

lemma fails_refreshRun_ref (hactive : (c.ranks r).numBanksActive = 0)
    (hpwr : (c.ranks r).pwrState = .ref) (hnone : c.agenda.when? (.power r) = none) :
    Fails [.front] (c.refreshRun p r) := by
  refine .ite (fun hne => absurd hactive hne) fun _ => .ite (fun hne => absurd hpwr hne) fun _ =>
    .guard (by decide) fun _ => ?_
  refine FailsWith.bind (fails_schedule _ _ _) fun c₁ hschedule => ?_
  obtain ⟨-, -, rfl⟩ := schedule_ok hschedule
  refine .ite (fun hscheduled => ?_) fun _ => fails_schedulePowerEvent_none ?_
  · simp [scheduled, setRank, hnone] at hscheduled
  · simpa [setRank] using hnone

lemma fails_powerNext (h : PowerNext p c r) :
    Fails [.front] ((c.take (.power r) c.now).processPowerEvent p r) := by
  obtain ⟨h, -⟩ := h
  rw [processPowerEvent]
  rw [ranks_setRank_self, ranks_take]
  cases h with
  | toAct pwr trans =>
    simp only [trans]
    exact .ok _
  | toIdle pwr trans act pre active =>
    simp only [trans, pwr]
    refine .when fun hrun => ?_
    rw [if_neg (by simp [scheduled, setRank]), setRank_setRank,
      processRefreshEvent_run (by simpa using hrun)]
    exact fails_refreshRun_ref (by simpa using active) (by simp) (by simp [setRank])
  | toRef pwr trans act pre active run =>
    simp only [trans, run]
    rw [if_neg (by simp), processRefreshEvent_run (by simp)]
    exact fails_refreshRun_ref (by simpa using active) (by simp) (by simp [setRank])

lemma fails_powerEvent (h : Steady p c r) (hhead : c.agenda.entries.head? = some (t, .power r)) :
    Fails [.front] ((c.take (.power r) t).processPowerEvent p r) := by
  have h := h.refreshing_of_head hhead
  rw [processPowerEvent]
  rw [ranks_setRank_self, ranks_take]
  simp only [h.trans, h.pwr, if_true]
  exact .skip fun _ => fails_schedule _ _ _

end Channel

end ShifDram
