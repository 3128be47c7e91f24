import ShifDram.Dram.RankEvents

/-!
The power and refresh machines of a rank.

Between events a rank is in one of four phases; an event that schedules a power event for the
current tick leaves it in between, and then the power event is the next one.
-/

namespace ShifDram

open Fallible Agenda

namespace Channel

variable {p : DRAMParams} {c c' c₁ c₂ c₃ : Channel} {d : DRAMPacket} {e : DRAMEvent}
  {r j b t : ℕ} {k : Rank}

/-! ### What the machines leave of the banks -/

/-- A rank's time, banks, activates and bank events stay. -/
structure SameBanks (r : ℕ) (c c' : Channel) : Prop where
  now : c'.now = c.now
  banks : (c'.ranks r).banks = (c.ranks r).banks
  active : (c'.ranks r).numBanksActive = (c.ranks r).numBanksActive
  actTicks : (c'.ranks r).actTicks = (c.ranks r).actTicks
  activations : c'.activations = c.activations
  act : c'.agenda.when? (.activate r) = c.agenda.when? (.activate r)
  pre : c'.agenda.when? (.precharge r) = c.agenda.when? (.precharge r)

section

variable (h : SameBanks r c c')

include h

lemma SameBanks.horizon_eq : (c'.view r).horizon = (c.view r).horizon := by
  change (c'.agenda.when? (.precharge r)).getD c'.now = (c.agenda.when? (.precharge r)).getD c.now
  rw [h.now, h.pre]

lemma SameBanks.acts : (c'.view r).acts = (c.view r).acts := by
  rw [view, view, h.activations]

lemma SameBanks.spaced (hs : (c.view r).Spaced p) : (c'.view r).Spaced p := by
  refine hs.widen ⟨h.actTicks, h.active, fun i => ?_, fun i => ?_, fun i => ?_⟩ h.acts
    (fun x hx => ?_) h.horizon_eq.ge
  · exact congrArg (fun banks => (banks i).openRow) h.banks
  · exact (congrArg (fun banks => (banks i).preAllowedAt) h.banks).ge
  · exact (congrArg (fun banks => (banks i).actAllowedAt) h.banks).ge
  · exact h.act.symm.trans hx

lemma SameBanks.free (hf : (c.view r).Free p) : (c'.view r).Free p := by
  intro i
  have hact : ((c'.view r).rank.banks i).actAllowedAt = ((c.view r).rank.banks i).actAllowedAt :=
    congrArg (fun banks => (banks i).actAllowedAt) h.banks
  rw [hact, h.horizon_eq, RankView.lastEnd, h.acts]
  exact hf i

lemma SameBanks.settled (hs : c.Settled r) : c'.Settled r := by
  rw [Settled, h.active, h.pre]
  exact hs

end

lemma SameBanks.trans (h : SameBanks r c₁ c₂) (h' : SameBanks r c₂ c₃) : SameBanks r c₁ c₃ :=
  ⟨h'.1.trans h.1, h'.2.trans h.2, h'.3.trans h.3, h'.4.trans h.4, h'.5.trans h.5, h'.6.trans h.6,
    h'.7.trans h.7⟩

lemma sameBanks_setRank (hbanks : k.banks = (c.ranks r).banks)
    (hactive : k.numBanksActive = (c.ranks r).numBanksActive)
    (hticks : k.actTicks = (c.ranks r).actTicks) : SameBanks r c (c.setRank r k) :=
  ⟨rfl, by simpa using hbanks, by simpa using hactive, by simpa using hticks, rfl, rfl, rfl⟩

lemma sameBanks_setRefreshState (c : Channel) (r : ℕ) (state : RefreshState) :
    SameBanks r c (c.setRefreshState r state) :=
  sameBanks_setRank rfl rfl rfl

lemma sameBanks_schedulePowerEvent {state : PowerState}
    (h : c.schedulePowerEvent r state t = .ok c') : SameBanks r c c' := by
  obtain ⟨-, rfl⟩ := schedulePowerEvent_ok h
  exact ⟨rfl, by simp, by simp, by simp, rfl, by simp, by simp⟩

lemma sameBanks_checkDrainDone (h : c.checkDrainDone r = .ok c') : SameBanks r c c' := by
  rw [checkDrainDone] at h
  split_ifs at h
  · obtain ⟨-, -, rfl⟩ := schedule_ok h
    exact ⟨rfl, by simp [setRefreshState], by simp [setRefreshState],
      by simp [setRefreshState], rfl,
      by simp [setRefreshState, setRank], by simp [setRefreshState, setRank]⟩
  · cases h
    exact ⟨rfl, rfl, rfl, rfl, rfl, rfl, rfl⟩

lemma horizon_take_le (hclock : c.now ≤ t) (hhead : c.agenda.entries.head? = some (t, e)) (r : ℕ) :
    (c.view r).horizon ≤ ((c.take e t).view r).horizon := by
  by_cases he : e = .precharge r
  · subst he
    rw [horizon_of_when? (when?_of_head hhead)]
    change t ≤ ((c.take (.precharge r) t).agenda.when? (.precharge r)).getD t
    rw [when?_take, if_pos rfl]
    exact le_rfl
  · change (c.agenda.when? (.precharge r)).getD c.now ≤
      ((c.take e t).agenda.when? (.precharge r)).getD t
    rw [when?_take, if_neg (Ne.symm he)]
    cases c.agenda.when? (.precharge r) with
    | none => exact hclock
    | some x => exact le_rfl

lemma spaced_take (hclock : c.now ≤ t) (hhead : c.agenda.entries.head? = some (t, e))
    (hs : (c.view r).Spaced p) : ((c.take e t).view r).Spaced p := by
  refine hs.widen (widened_refl _) rfl (fun x hx => ?_) (horizon_take_le hclock hhead r)
  change (c.take e t).agenda.when? (.activate r) = some x at hx
  rw [when?_take] at hx
  split_ifs at hx
  exact hx

lemma free_take (hclock : c.now ≤ t) (hhead : c.agenda.entries.head? = some (t, e))
    (hf : (c.view r).Free p) : ((c.take e t).view r).Free p := by
  intro i
  have hle := horizon_take_le hclock hhead r
  have hfree := hf i
  change ((c.view r).rank.banks i).actAllowedAt ≤ max _ ((c.view r).lastEnd p)
  omega

/-! ### Phases -/

structure Quiet (p : DRAMParams) (c : Channel) (r : ℕ) : Prop where
  pwr : (c.ranks r).pwrState = .idle
  act : c.agenda.when? (.activate r) = none
  pre : c.agenda.when? (.precharge r) = none
  power : c.agenda.when? (.power r) = none
  active : (c.ranks r).numBanksActive = 0
  run : (c.ranks r).refreshState ≠ .run
  drain : (c.ranks r).refreshState = .drain → c.agenda.when? (.refresh r) = none
  free : (c.view r).Free p

/-- The refresh event is behind the activate event, or waits for a request that is. -/
inductive Guarded (c : Channel) (r : ℕ) : Prop
  | refresh (hidle : (c.ranks r).refreshState = .idle)
      (h : c.agenda.Before (.activate r) (.refresh r)) : Guarded c r
  | request (hstate : (c.ranks r).refreshState = .idle ∨
        (c.ranks r).refreshState = .drain ∧ c.agenda.when? (.refresh r) = none)
      (hrank : c.activeRank = r) {x : ℕ} (hx : c.agenda.when? (.activate r) = some x)
      (hlt : x < c.nextReqTime) : Guarded c r

structure Rising (p : DRAMParams) (c : Channel) (r : ℕ) : Prop where
  pwr : (c.ranks r).pwrState = .idle
  power : c.agenda.when? (.power r) = none
  act : c.agenda.when? (.activate r) ≠ none
  settled : c.Settled r
  guarded : c.Guarded r
  free : (c.view r).Free p

/-- An active rank; a refresh begun waits for the precharge event. -/
structure Active (p : DRAMParams) (c : Channel) (r : ℕ) : Prop where
  pwr : (c.ranks r).pwrState = .act
  power : c.agenda.when? (.power r) = none
  settled : c.Settled r
  drain : (c.ranks r).refreshState = .drain ∨ (c.ranks r).refreshState = .run →
    c.agenda.when? (.refresh r) = none
  run : (c.ranks r).refreshState = .run → (c.ranks r).numBanksActive = 0
  free : (c.ranks r).refreshState ≠ .run → (c.view r).Free p

structure Refreshing (c : Channel) (r : ℕ) : Prop where
  pwr : (c.ranks r).pwrState = .ref
  trans : (c.ranks r).pwrStateTrans = .idle
  run : (c.ranks r).refreshState = .run
  act : c.agenda.when? (.activate r) = none
  pre : c.agenda.when? (.precharge r) = none
  active : (c.ranks r).numBanksActive = 0
  power : ∃ x, c.agenda.when? (.power r) = some x ∧
    ∀ i, ((c.ranks r).banks i).actAllowedAt ≤ x

inductive Steady (p : DRAMParams) (c : Channel) (r : ℕ) : Prop
  | quiet (h : Quiet p c r) : Steady p c r
  | rising (h : Rising p c r) : Steady p c r
  | active (h : Active p c r) : Steady p c r
  | refreshing (h : Refreshing c r) : Steady p c r

/-- A power event was just scheduled: the rank becomes active, idle, or is refreshed. -/
inductive Turning (p : DRAMParams) (c : Channel) (r : ℕ) : Prop
  | toAct (pwr : (c.ranks r).pwrState = .idle) (trans : (c.ranks r).pwrStateTrans = .act)
      (state : (c.ranks r).refreshState = .idle ∨
        (c.ranks r).refreshState = .drain ∧ c.agenda.when? (.refresh r) = none)
      (settled : c.Settled r) (free : (c.view r).Free p)
  | toIdle (pwr : (c.ranks r).pwrState = .act) (trans : (c.ranks r).pwrStateTrans = .idle)
      (act : c.agenda.when? (.activate r) = none) (pre : c.agenda.when? (.precharge r) = none)
      (active : (c.ranks r).numBanksActive = 0)
      (drain : (c.ranks r).refreshState = .drain ∨ (c.ranks r).refreshState = .run →
        c.agenda.when? (.refresh r) = none)
      (free : (c.ranks r).refreshState ≠ .run → (c.view r).Free p)
  | toRef (pwr : (c.ranks r).pwrState = .idle) (trans : (c.ranks r).pwrStateTrans = .ref)
      (act : c.agenda.when? (.activate r) = none) (pre : c.agenda.when? (.precharge r) = none)
      (active : (c.ranks r).numBanksActive = 0) (run : (c.ranks r).refreshState = .run)
      (refresh : c.agenda.when? (.refresh r) = none)

def PowerNext (p : DRAMParams) (c : Channel) (r : ℕ) : Prop :=
  Turning p c r ∧ c.agenda.entries.head? = some (c.now, .power r)

/-- Activates are spaced; the rank is between events, or its power event is next. -/
def Sound (p : DRAMParams) (c : Channel) (r : ℕ) : Prop :=
  (c.view r).Spaced p ∧ (Steady p c r ∨ PowerNext p c r)

lemma Away.settled (h : Away r c c') (hs : c.Settled r) : c'.Settled r := by
  rw [Settled, h.widened.active, h.events (.precharge r) rfl]
  exact hs

/-- Nothing happens to the rank; what guards an activate event stays. -/
lemma Steady.away (h : Steady p c r) (haway : Away r c c')
    (hreq : ∀ x, c.agenda.when? (.activate r) = some x → x < c.nextReqTime →
      c'.activeRank = c.activeRank ∧ c'.nextReqTime = c.nextReqTime) : Steady p c' r := by
  have hact := haway.events (.activate r) rfl
  have hpre := haway.events (.precharge r) rfl
  have hpower := haway.events (.power r) rfl
  have hrefresh := haway.events (.refresh r) rfl
  have hstates := haway.states
  have hactive := haway.widened.active
  cases h with
  | quiet h =>
    refine .quiet ⟨?_, ?_, ?_, ?_, ?_, ?_, ?_, haway.free h.free⟩
    · rw [hstates.pwrState, h.pwr]
    · rw [hact, h.act]
    · rw [hpre, h.pre]
    · rw [hpower, h.power]
    · rw [hactive, h.active]
    · rw [hstates.refreshState]
      exact h.run
    · rw [hstates.refreshState, hrefresh]
      exact h.drain
  | rising h =>
    refine .rising ⟨?_, ?_, ?_, haway.settled h.settled, ?_, haway.free h.free⟩
    · rw [hstates.pwrState, h.pwr]
    · rw [hpower, h.power]
    · rw [hact]
      exact h.act
    · cases h.guarded with
      | refresh hidle hq =>
        exact .refresh (hstates.refreshState.trans hidle) (haway.before _ _ (by rfl) (by rfl) hq)
      | request hstate hrank hx hlt =>
        obtain ⟨hrank', hnext⟩ := hreq _ hx hlt
        refine .request ?_ (hrank'.trans hrank) (hact.trans hx) (hnext ▸ hlt)
        rw [hstates.refreshState, hrefresh]
        exact hstate
  | active h =>
    refine .active ⟨?_, ?_, haway.settled h.settled, ?_, ?_, ?_⟩
    · rw [hstates.pwrState, h.pwr]
    · rw [hpower, h.power]
    · rw [hstates.refreshState, hrefresh]
      exact h.drain
    · rw [hstates.refreshState, hactive]
      exact h.run
    · rw [hstates.refreshState]
      exact fun hne => haway.free (h.free hne)
  | refreshing h =>
    refine .refreshing ⟨?_, ?_, ?_, ?_, ?_, ?_, ?_⟩
    · rw [hstates.pwrState, h.pwr]
    · rw [hstates.pwrStateTrans, h.trans]
    · rw [hstates.refreshState, h.run]
    · rw [hact, h.act]
    · rw [hpre, h.pre]
    · rw [hactive, h.active]
    · obtain ⟨x, hx, hle⟩ := h.power
      exact ⟨x, hpower.trans hx, fun i => (haway.act i).trans_le (hle i)⟩

/-! ### The activate and precharge events -/

lemma head?_take_set (hhead : c.agenda.entries.head? = some (t, e)) (e' : DRAMEvent) :
    (((c.take e t).agenda.set t e').entries.head? = some (t, e')) := by
  refine head?_set fun e₁ t₁ h₁ => ?_
  rw [when?_take] at h₁
  split_ifs at h₁
  exact le_of_head hhead h₁

/-- **The activate event**: an idle rank becomes active. -/
lemma Steady.activateEvent (h : Steady p c r) (hs : (c.view r).Spaced p) (hclock : c.now ≤ t)
    (hhead : c.agenda.entries.head? = some (t, .activate r))
    (hok : (c.take (.activate r) t).processActivateEvent r = .ok c') : Sound p c' r := by
  have hwhen := when?_of_head hhead
  have hs₀ := spaced_take hclock hhead hs
  rw [processActivateEvent, ranks_take] at hok
  cases h with
  | quiet h => exact absurd (h.act.symm.trans hwhen) (by simp)
  | refreshing h => exact absurd (h.act.symm.trans hwhen) (by simp)
  | active h =>
    rw [if_neg (not_not.mpr h.pwr)] at hok
    cases hok
    refine ⟨hs₀, Or.inl (.active ⟨h.pwr, ?_, ?_, ?_, h.run, fun hne => ?_⟩)⟩
    · simpa using h.power
    · simpa [Settled] using h.settled
    · simpa using h.drain
    · exact free_take hclock hhead (h.free hne)
  | rising h =>
    have hne : (c.ranks r).pwrState ≠ .act := by simp [h.pwr]
    rw [if_pos hne] at hok
    have hsame := sameBanks_schedulePowerEvent hok
    obtain ⟨-, rfl⟩ := schedulePowerEvent_ok hok
    refine ⟨hsame.spaced hs₀, Or.inr ⟨.toAct ?_ ?_ ?_ ?_ ?_, head?_take_set hhead _⟩⟩
    · simpa using h.pwr
    · simp
    · cases h.guarded with
      | refresh hidle => exact Or.inl (by simpa using hidle)
      | request hstate => simpa using hstate
    · simpa [Settled] using h.settled
    · exact hsame.free (free_take hclock hhead h.free)

/-- **The precharge event**: with no bank active the rank becomes idle. -/
lemma Steady.prechargeEvent (hp : p.Regular) (h : Steady p c r) (hs : (c.view r).Spaced p)
    (hclock : c.now ≤ t) (hhead : c.agenda.entries.head? = some (t, .precharge r))
    (hok : (c.take (.precharge r) t).processPrechargeEvent r = .ok c') : Sound p c' r := by
  have hwhen := when?_of_head hhead
  have hs₀ := spaced_take hclock hhead hs
  -- an activate event would be due earlier
  have hnone : (c.ranks r).numBanksActive = 0 → c.agenda.when? (.activate r) = none := by
    intro hzero
    cases hact : c.agenda.when? (.activate r) with
    | none => rfl
    | some x =>
      have hlt := hs.act_lt hp hzero hact
      rw [horizon_of_when? hwhen] at hlt
      exact absurd (le_of_head hhead hact) (not_le.mpr hlt)
  rw [processPrechargeEvent, ranks_take] at hok
  by_cases hzero : (c.ranks r).numBanksActive = 0
  · rw [if_pos hzero] at hok
    have hsame := sameBanks_schedulePowerEvent hok
    obtain ⟨-, rfl⟩ := schedulePowerEvent_ok hok
    cases h with
    | quiet h => exact absurd (h.pre.symm.trans hwhen) (by simp)
    | refreshing h => exact absurd (h.pre.symm.trans hwhen) (by simp)
    | rising h => exact absurd (hnone hzero) h.act
    | active h =>
      refine ⟨hsame.spaced hs₀, Or.inr ⟨.toIdle ?_ ?_ ?_ ?_ ?_ ?_ ?_, head?_take_set hhead _⟩⟩
      · simpa using h.pwr
      · simp
      · simpa using hnone hzero
      · simp
      · simpa using hzero
      · simpa using h.drain
      · intro hne
        exact hsame.free (free_take hclock hhead (h.free (by simpa using hne)))
  · rw [if_neg hzero] at hok
    cases hok
    have hsettled : (c.take (.precharge r) t).Settled r := fun h => absurd h hzero
    refine ⟨hs₀, Or.inl ?_⟩
    cases h with
    | quiet h => exact absurd (h.pre.symm.trans hwhen) (by simp)
    | refreshing h => exact absurd (h.pre.symm.trans hwhen) (by simp)
    | rising h =>
      refine .rising ⟨h.pwr, ?_, ?_, hsettled, ?_, free_take hclock hhead h.free⟩
      · simpa using h.power
      · simpa using h.act
      · cases h.guarded with
        | refresh hidle hq => exact .refresh hidle (hq.remove (by simp))
        | request hstate hrank hx hlt =>
          refine .request ?_ hrank (x := _) ?_ hlt
          · simpa using hstate
          · simpa using hx
    | active h =>
      refine .active ⟨h.pwr, ?_, hsettled, ?_, h.run, fun hne => ?_⟩
      · simpa using h.power
      · simpa using h.drain
      · exact free_take hclock hhead (h.free hne)

/-! ### The refresh event -/

lemma refreshPre_idle (hs : (c.view r).Spaced p) (hpwr : (c.ranks r).pwrState = .idle)
    (hact : c.agenda.when? (.activate r) = none) (hpre : c.agenda.when? (.precharge r) = none)
    (hrefresh : c.agenda.when? (.refresh r) = none)
    (hclock : ∀ e x, c.agenda.when? e = some x → c.now ≤ x) (h : c.refreshPre p r = .ok c') :
    Sound p c' r := by
  obtain ⟨c₁, rfl, hactive, ⟨hne, -⟩ | ⟨-, hpower⟩⟩ := refreshPre_ok h
  · exact absurd hpwr hne
  · have hsame := (sameBanks_schedulePowerEvent hpower).trans (sameBanks_setRefreshState c₁ r .run)
    obtain ⟨-, rfl⟩ := schedulePowerEvent_ok hpower
    refine ⟨hsame.spaced hs, Or.inr ⟨.toRef ?_ ?_ ?_ ?_ ?_ ?_ ?_, head?_set hclock⟩⟩
    · simpa [setRefreshState] using hpwr
    · simp [setRefreshState]
    · simpa [setRefreshState, setRank] using hact
    · simpa [setRefreshState, setRank] using hpre
    · simpa [setRefreshState] using hactive
    · simp [setRefreshState]
    · simpa [setRefreshState, setRank] using hrefresh

lemma refreshPre_active (hs : (c.view r).Spaced p) (hpwr : (c.ranks r).pwrState = .act)
    (hpower : c.agenda.when? (.power r) = none) (hsettled : c.Settled r)
    (hrefresh : c.agenda.when? (.refresh r) = none) (h : c.refreshPre p r = .ok c') :
    Sound p c' r := by
  obtain ⟨c₁, rfl, hactive, ⟨-, hall⟩ | ⟨hidle, -⟩⟩ := refreshPre_ok h
  · obtain ⟨hsweep, -⟩ := sweep_prechargeAll hall
    have hsame := sameBanks_setRefreshState c₁ r .run
    refine ⟨hsame.spaced (hsweep.spaced hs), Or.inl (.active ⟨?_, ?_, ?_, fun _ => ?_, fun _ => ?_,
      fun hne => ?_⟩)⟩
    · simpa [setRefreshState, hsweep.states.pwrState] using hpwr
    · exact (hsweep.sets.when?_eq (by simp)).trans hpower
    · exact hsame.settled (hsweep.settled hsettled)
    · exact (hsweep.sets.when?_eq (by simp)).trans hrefresh
    · simpa [setRefreshState] using hactive
    · simp [setRefreshState] at hne
  · rw [hpwr] at hidle
    cases hidle

/-- **The refresh event**: the refresh begins, or waits for a request. -/
lemma Steady.refreshEvent (h : Steady p c r) (hs : (c.view r).Spaced p) (hclock : c.now ≤ t)
    (hnext : c.nextReqTime ≤ (c.agenda.when? .nextReq).getD c.now)
    (hhead : c.agenda.entries.head? = some (t, .refresh r))
    (hok : (c.take (.refresh r) t).processRefreshEvent p r = .ok c') : Sound p c' r := by
  have hwhen := when?_of_head hhead
  have hs₀ := spaced_take hclock hhead hs
  have hclock₀ : ∀ e x, (c.take (.refresh r) t).agenda.when? e = some x → t ≤ x := by
    intro e x hx
    rw [when?_take] at hx
    split_ifs at hx
    exact le_of_head hhead hx
  have hrefresh : (c.take (.refresh r) t).agenda.when? (.refresh r) = none := by simp
  -- the rank with the refresh begun, at whatever state
  have hbegin : ∀ state due, SameBanks r (c.take (.refresh r) t) ((c.take (.refresh r) t).setRank r
        { (c.take (.refresh r) t).ranks r with refreshDueAt := due, refreshState := state }) :=
    fun _ _ => sameBanks_setRank rfl rfl rfl
  rw [processRefreshEvent] at hok
  cases h with
  | quiet h =>
    have hact : (c.take (.refresh r) t).agenda.when? (.activate r) = none := by simpa using h.act
    have hpre : (c.take (.refresh r) t).agenda.when? (.precharge r) = none := by simpa using h.pre
    split at hok
    · rcases refreshDrain_ok hok with ⟨-, -, rfl⟩ | ⟨-, hok⟩
      · refine ⟨(hbegin _ _).spaced hs₀, Or.inl (.quiet
          ⟨?_, hact, hpre, ?_, ?_, ?_, fun _ => hrefresh,
          (hbegin _ _).free (free_take hclock hhead h.free)⟩)⟩
        · simpa using h.pwr
        · simpa [setRank] using h.power
        · simpa using h.active
        · simp
      · rw [setRefreshState, setRank_setRank, ranks_setRank_self] at hok
        exact refreshPre_idle ((hbegin .pre t).spaced hs₀) (by simpa using h.pwr) hact hpre hrefresh
          hclock₀ hok
    · next hdrain => exact absurd (hwhen.symm.trans (h.drain hdrain)) (by simp)
    · exact refreshPre_idle hs₀ h.pwr hact hpre hrefresh hclock₀ hok
    · next hrun => exact absurd hrun h.run
  | rising h =>
    cases h.guarded with
    | refresh _ hq => exact absurd (hq.of_head hhead) (by simp)
    | @request hstate hrank x hx hlt =>
      have hidle : (c.ranks r).refreshState = .idle := by
        rcases hstate with hidle | ⟨-, hnone⟩
        · exact hidle
        · exact absurd (hwhen.symm.trans hnone) (by simp)
      -- the request event is behind the activate event, so it is scheduled
      have hle := le_of_head hhead hx
      have hscheduled : c.agenda.when? .nextReq ≠ none := by
        intro hnone
        rw [hnone] at hnext
        change c.nextReqTime ≤ c.now at hnext
        omega
      rw [ranks_take, hidle] at hok
      rcases refreshDrain_ok hok with ⟨-, -, rfl⟩ | ⟨hwait, -⟩
      · refine ⟨(hbegin _ _).spaced hs₀, Or.inl (.rising ⟨?_, ?_, ?_, ?_, ?_,
          (hbegin _ _).free (free_take hclock hhead h.free)⟩)⟩
        · simpa using h.pwr
        · simpa [setRank] using h.power
        · simpa [setRank] using h.act
        · exact (hbegin _ _).settled (by simpa [Settled] using h.settled)
        · exact .request (Or.inr ⟨by simp, hrefresh⟩) hrank (x := x) (by simpa [setRank] using hx)
            hlt
      · exact absurd ⟨hrank.symm, by simpa [setRank] using hscheduled⟩ hwait
  | active h =>
    have hpower : (c.take (.refresh r) t).agenda.when? (.power r) = none := by simpa using h.power
    have hsettled : (c.take (.refresh r) t).Settled r := by simpa [Settled] using h.settled
    split at hok
    · next hidle =>
      have hidle' : (c.ranks r).refreshState = .idle := hidle
      rcases refreshDrain_ok hok with ⟨-, -, rfl⟩ | ⟨-, hok⟩
      · refine ⟨(hbegin _ _).spaced hs₀, Or.inl (.active ⟨?_, hpower, (hbegin _ _).settled hsettled,
          fun _ => hrefresh, ?_, fun _ => ?_⟩)⟩
        · simpa using h.pwr
        · simp
        · exact (hbegin _ _).free (free_take hclock hhead (h.free (by simp [hidle'])))
      · rw [setRefreshState, setRank_setRank, ranks_setRank_self] at hok
        exact refreshPre_active ((hbegin .pre t).spaced hs₀) (by simpa using h.pwr) hpower
          ((hbegin .pre t).settled hsettled) hrefresh hok
    · next hdrain => exact absurd (hwhen.symm.trans (h.drain (Or.inl hdrain))) (by simp)
    · exact refreshPre_active hs₀ h.pwr hpower hsettled hrefresh hok
    · next hrun => exact absurd (hwhen.symm.trans (h.drain (Or.inr hrun))) (by simp)
  | refreshing h =>
    obtain ⟨x, hx, -⟩ := h.power
    rw [ranks_take, h.run] at hok
    obtain ⟨hnone, -⟩ := refreshRun_ok hok
    rw [when?_take, if_neg (by simp), hx] at hnone
    cases hnone

/-! ### The power event -/

/-- The refresh itself, with the precharges done. -/
lemma refreshRun_refreshing (hp : p.Regular) (hs : (c.view r).Spaced p)
    (hpwr : (c.ranks r).pwrState = .ref) (hrun : (c.ranks r).refreshState = .run)
    (hact : c.agenda.when? (.activate r) = none) (hpre : c.agenda.when? (.precharge r) = none)
    (hactive : (c.ranks r).numBanksActive = 0) (h : c.refreshRun p r = .ok c') :
    (c'.view r).Spaced p ∧ Refreshing c' r := by
  have hdone : (c.view r).lastEnd p ≤ c.now + p.tRFC := by
    have hhorizon : (c.view r).horizon = c.now := by
      change (c.agenda.when? (.precharge r)).getD c.now = c.now
      rw [hpre]
      rfl
    have hend := hs.lastEnd_le hactive
    omega
  obtain ⟨-, rfl⟩ := refreshRun_ok h
  refine ⟨?_, ?_, ?_, ?_, ?_, ?_, ?_, c.now + p.tRFC, ?_, fun i => ?_⟩
  · refine (hs.refresh hp hdone).widen ?_ rfl (fun x hx => ?_) (le_of_eq ?_)
    · change RankView.Widened _ ((c.setRank r _).ranks r)
      rw [ranks_setRank_self]
      exact ⟨rfl, rfl, fun _ => rfl, fun _ => le_rfl, fun _ => le_rfl⟩
    · simpa [view] using hx
    · simp [RankView.horizon, view, setRank]
  · simpa [Rank.mapBanks] using hpwr
  · simp
  · simpa [Rank.mapBanks] using hrun
  · simpa using hact
  · simpa using hpre
  · simpa [Rank.mapBanks] using hactive
  · simp
  · simp [Rank.mapBanks]

structure Turned (c : Channel) (r : ℕ) (k : Rank) : Prop where
  banks : k.banks = (c.ranks r).banks
  active : k.numBanksActive = (c.ranks r).numBanksActive
  actTicks : k.actTicks = (c.ranks r).actTicks

lemma Turned.same (h : Turned c r k) : SameBanks r c (c.setRank r k) :=
  sameBanks_setRank h.banks h.active h.actTicks

/-- **The power event** scheduled for this tick. -/
lemma PowerNext.powerEvent (hp : p.Regular) (h : PowerNext p c r) (hs : (c.view r).Spaced p)
    (hok : (c.take (.power r) c.now).processPowerEvent p r = .ok c') :
    (c'.view r).Spaced p ∧ Steady p c' r := by
  obtain ⟨h, hhead⟩ := h
  have hs₀ := spaced_take le_rfl hhead hs
  have hnone : (c.take (.power r) c.now).agenda.when? (.power r) = none := by simp
  rw [processPowerEvent] at hok
  rw [ranks_setRank_self, ranks_take] at hok
  obtain ⟨k, hk⟩ : ∃ k, k = { c.ranks r with pwrState := (c.ranks r).pwrStateTrans } := ⟨_, rfl⟩
  have hpwr : k.pwrState = (c.ranks r).pwrStateTrans := by rw [hk]
  have hstate : k.refreshState = (c.ranks r).refreshState := by rw [hk]
  have hturned : Turned (c.take (.power r) c.now) r k := by
    rw [hk]
    exact ⟨rfl, rfl, rfl⟩
  rw [← hk] at hok
  cases h with
  | toAct pwr trans state settled free =>
    simp only [hpwr.trans trans] at hok
    cases hok
    have hrun : k.refreshState ≠ .run := by
      rw [hstate]
      rcases state with hidle | ⟨hdrain, -⟩
      · simp [hidle]
      · simp [hdrain]
    refine ⟨hturned.same.spaced hs₀, .active ⟨?_, hnone, ?_, ?_, ?_, fun _ => ?_⟩⟩
    · rw [ranks_setRank_self, hpwr, trans]
    · exact hturned.same.settled (by simpa [Settled] using settled)
    · rw [ranks_setRank_self]
      rintro (hdrain | hrun')
      · rcases state with hidle | ⟨-, hrefresh⟩
        · rw [hstate, hidle] at hdrain
          cases hdrain
        · simpa [setRank] using hrefresh
      · exact absurd hrun' hrun
    · rw [ranks_setRank_self]
      exact fun hrun' => absurd hrun' hrun
    · exact hturned.same.free (free_take le_rfl hhead free)
  | toIdle pwr trans act pre active drain free =>
    simp only [hpwr.trans trans, pwr] at hok
    rw [if_neg (by simp), if_neg (by simp)] at hok
    split_ifs at hok with hrun
    · -- the refresh that has waited for the precharges
      rw [setRank_setRank, processRefreshEvent_run (by simpa using hrun)] at hok
      have hturned' : Turned (c.take (.power r) c.now) r { k with pwrState := .ref } :=
        { hturned with }
      obtain ⟨hs', hrefreshing⟩ := refreshRun_refreshing hp (hturned'.same.spaced hs₀)
        (by simp) (by simpa using hrun) (by simpa [setRank] using act)
        (by simpa [setRank] using pre) (hturned'.same.active.trans active) hok
      exact ⟨hs', .refreshing hrefreshing⟩
    · cases hok
      rw [hstate] at hrun
      refine ⟨hturned.same.spaced hs₀, .quiet ⟨?_, ?_, ?_, hnone, ?_, ?_, fun hdrain => ?_, ?_⟩⟩
      · rw [ranks_setRank_self, hpwr, trans]
      · simpa [setRank] using act
      · simpa [setRank] using pre
      · exact hturned.same.active.trans active
      · rw [ranks_setRank_self, hstate]
        exact hrun
      · rw [ranks_setRank_self, hstate] at hdrain
        simpa [setRank] using drain (Or.inl hdrain)
      · exact hturned.same.free (free_take le_rfl hhead (free hrun))
  | toRef pwr trans act pre active run refresh =>
    simp only [hpwr.trans trans] at hok
    rw [if_neg (not_not.mpr (hstate.trans run)),
      processRefreshEvent_run (by simpa using hstate.trans run)] at hok
    obtain ⟨hs', hrefreshing⟩ := refreshRun_refreshing hp (hturned.same.spaced hs₀)
      (by rw [ranks_setRank_self, hpwr, trans]) (by rw [ranks_setRank_self, hstate, run])
      (by simpa [setRank] using act) (by simpa [setRank] using pre)
      (hturned.same.active.trans active) hok
    exact ⟨hs', .refreshing hrefreshing⟩

/-- Between events, a power event is that of a refresh's end. -/
lemma Steady.refreshing_of_head (h : Steady p c r)
    (hhead : c.agenda.entries.head? = some (t, .power r)) : Refreshing c r := by
  have hwhen := when?_of_head hhead
  cases h with
  | quiet h => exact absurd (h.power.symm.trans hwhen) (by simp)
  | rising h => exact absurd (h.power.symm.trans hwhen) (by simp)
  | active h => exact absurd (h.power.symm.trans hwhen) (by simp)
  | refreshing h => exact h

/-- **The power event** at the end of a refresh. -/
lemma Steady.powerEvent (h : Steady p c r) (hs : (c.view r).Spaced p) (hclock : c.now ≤ t)
    (hhead : c.agenda.entries.head? = some (t, .power r))
    (hok : (c.take (.power r) t).processPowerEvent p r = .ok c') :
    (c'.view r).Spaced p ∧ Steady p c' r := by
  have hwhen := when?_of_head hhead
  have hs₀ := spaced_take hclock hhead hs
  have h := h.refreshing_of_head hhead
  obtain ⟨x, hx, hbanks⟩ := h.power
  obtain rfl := Option.some.inj (hx.symm.trans hwhen)
  rw [processPowerEvent] at hok
  rw [ranks_setRank_self, ranks_take] at hok
  simp only [h.trans, h.pwr, if_true, setRefreshState, setRank_setRank, ranks_setRank_self] at hok
  -- the banks are free again at the end of the refresh
  have hquiet : ∀ c₁ : Channel, SameBanks r (c.take (.power r) x) c₁ →
      (c₁.ranks r).pwrState = .idle → (c₁.ranks r).refreshState = .idle →
      c₁.agenda.when? (.power r) = none → (c₁.view r).Spaced p ∧ Steady p c₁ r := by
    intro c₁ hsame hpwr hstate hpower
    have hpre : c₁.agenda.when? (.precharge r) = none := by
      rw [hsame.pre, when?_take, if_neg (by simp), h.pre]
    refine ⟨hsame.spaced hs₀, .quiet ⟨hpwr, ?_, hpre, hpower, hsame.active.trans h.active, ?_, ?_,
      fun i => ?_⟩⟩
    · rw [hsame.act, when?_take, if_neg (by simp), h.act]
    · simp [hstate]
    · simp [hstate]
    · have hhorizon : (c₁.view r).horizon = x := by
        change (c₁.agenda.when? (.precharge r)).getD c₁.now = x
        rw [hpre, hsame.now]
        rfl
      have hbank : ((c₁.view r).rank.banks i).actAllowedAt = ((c.ranks r).banks i).actAllowedAt :=
        congrArg (fun banks => (banks i).actAllowedAt) hsame.banks
      have hle := hbanks i
      omega
  split_ifs at hok
  · cases hok
    exact hquiet _ (sameBanks_setRank rfl rfl rfl) (by simp) (by simp) (by simp [setRank])
  · obtain ⟨-, -, rfl⟩ := schedule_ok hok
    refine hquiet _ ⟨rfl, ?_, ?_, ?_, rfl, ?_, ?_⟩ ?_ ?_ ?_ <;> simp [setRank]

end Channel

end ShifDram
