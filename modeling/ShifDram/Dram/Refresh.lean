import ShifDram.Dram.Activations
import ShifDram.Dram.Timely

/-!
The refreshes of every run.

A refresh that is due waits for the request being handled, at most 28 delays, and for the
precharge of the banks, 35 more, so it is over before the next one is due.
-/

namespace ShifDram

open Fallible Option

namespace Channel

variable {p : DRAMParams} {c c' : Channel} {e : DRAMEvent} {u r t : ℕ}

/-- Banks, bus and requests are a bounded number of delays ahead. -/
structure Bounded (p : DRAMParams) (u : ℕ) (c : Channel) : Prop where
  ahead : Ahead p u (max c.nextReqTime c.now + 6 * u) c
  prep : p.prepTime ≤ c.busBusyUntil
  bus : c.busBusyUntil ≤ max c.nextReqTime c.now + 6 * u
  request : c.nextReqTime ≤ c.now + 28 * u
  next : ∀ x ∈ c.agenda.when? .nextReq, x ≤ c.now + 28 * u

lemma Bounded.take (h : Bounded p u c) (ht : c.now ≤ t) (e : DRAMEvent) :
    Bounded p u (c.take e t) := by
  have hm : max c.nextReqTime c.now + 6 * u ≤ max c.nextReqTime t + 6 * u := by omega
  have hahead := h.ahead.mono hm
  refine ⟨⟨?_, hahead.ranks, fun j x hx => hahead.due j x ?_⟩, h.prep, h.bus.trans hm, ?_,
    fun x hx => ?_⟩
  · change t ≤ max c.nextReqTime t + 6 * u
    omega
  · rw [when?_take] at hx
    split_ifs at hx
    exact hx
  · exact h.request.trans (by change c.now + 28 * u ≤ t + 28 * u; omega)
  · rw [when?_take] at hx
    split_ifs at hx
    · cases hx
    · exact (h.next x hx).trans (by change c.now + 28 * u ≤ t + 28 * u; omega)

lemma Bounded.handled (h : Bounded p u c) (hhandled : Handled r c c')
    (hahead : Ahead p u (max c.nextReqTime c.now + 6 * u) c') : Bounded p u c' := by
  have hrest : c'.nextReqTime = c.nextReqTime ∧ c'.busBusyUntil = c.busBusyUntil := by
    rw [hhandled.rest]
    exact ⟨rfl, rfl⟩
  refine ⟨?_, ?_, ?_, ?_, fun x hx => ?_⟩
  · rw [hrest.1, hhandled.now]
    exact hahead
  · rw [hrest.2]
    exact h.prep
  · rw [hrest.1, hrest.2, hhandled.now]
    exact h.bus
  · rw [hrest.1, hhandled.now]
    exact h.request
  · have hnext := hhandled.next
    rw [show c'.agenda.when? .nextReq = some x from hx] at hnext
    change x = _ at hnext
    rw [hhandled.now, hnext]
    cases hwhen : c.agenda.when? .nextReq with
    | none => exact Nat.le_add_right _ _
    | some y => exact h.next y hwhen

lemma Handled.mem_nextReq (h : Handled r c c') {x : ℕ} (hx : x ∈ c.agenda.when? .nextReq) :
    x ∈ c'.agenda.when? .nextReq := by
  have hnext := h.next
  rw [show c.agenda.when? .nextReq = some x from hx] at hnext
  obtain ⟨y, hy⟩ := ne_none_iff_exists'.mp (h.sets.ne_none (ne_none_iff_exists'.mpr ⟨x, hx⟩))
  rw [hy] at hnext ⊢
  exact congrArg some hnext

lemma Bounded.aside (h : Bounded p u c) (haside : Aside c c')
    (hnext : ∀ x ∈ c'.agenda.when? .nextReq, x ≤ c.now + 28 * u) : Bounded p u c' := by
  have hrest := haside.rest
  have hdue : ∀ j, c'.agenda.when? (.precharge j) = c.agenda.when? (.precharge j) :=
    fun j => haside.sets.when?_eq fun hne => hne j rfl
  obtain ⟨q, rfl⟩ : ∃ q, c' = { c with agenda := q } := ⟨_, hrest⟩
  exact ⟨{ h.ahead with due := fun j x hx => h.ahead.due j x (hdue j ▸ hx) }, h.prep, h.bus,
    h.request, hnext⟩

end Channel

namespace DRAMCtrl

open Channel

variable {p : DRAMParams} {s s' : DRAMCtrl} {c c' : Channel} {e : DRAMEvent} {u r t : ℕ} {x : ℕ}

def NextKept (c c' : Channel) : Prop :=
  c'.agenda.when? .nextReq = c.agenda.when? .nextReq ∨
    c.agenda.when? .nextReq = none ∧ c'.agenda.when? .nextReq = some c.now

lemma nextKept_frontSet (h : Relation.ReflTransGen FrontSet c c') : NextKept c c' := by
  induction h with
  | refl => exact Or.inl rfl
  | @tail c₁ c₂ hbefore hset ih =>
    have hnow : c₁.now = c.now := (aside_frontSet hbefore).1.now
    cases hset with
    | respond t h => simpa [NextKept] using ih
    | response n t h => simpa [NextKept] using ih
    | kick hnone =>
      refine Or.inr ⟨?_, by simp [hnow]⟩
      rcases ih with heq | ⟨hnone', -⟩
      · rw [← heq, hnone]
      · exact hnone'

lemma NextKept.mem (h : NextKept c c') (hx : x ∈ c.agenda.when? .nextReq) :
    x ∈ c'.agenda.when? .nextReq := by
  rcases h with heq | ⟨hnone, -⟩
  · rwa [heq]
  · rw [hnone] at hx
    cases hx

lemma NextKept.le (h : NextKept c c') (hc : ∀ x ∈ c.agenda.when? .nextReq, x ≤ c.now + 28 * u)
    (hx : x ∈ c'.agenda.when? .nextReq) : x ≤ c.now + 28 * u := by
  rcases h with heq | ⟨-, hsome⟩
  · exact hc x (heq ▸ hx)
  · rw [hsome] at hx
    cases hx
    exact Nat.le_add_right _ _

/-! ### Request events -/

/-- After the check of the busy ranks none drains any longer. -/
lemma timely_drainRanks (h : ∀ j, Timely p u (some c.now) c j) (hok : drainRanks p c = .ok c') :
    ∀ j, Timely p u none c' j := by
  have hstep : ∀ r, ∀ c₁ c₂ : Channel, (c₁.now = c.now ∧ ∀ j, Timely p u (some c.now) c₁ j) →
      (if (c₁.ranks r).isAvailable then .ok c₁ else c₁.checkDrainDone r) = .ok c₂ →
      (c₂.now = c.now ∧ ∀ j, Timely p u (some c.now) c₂ j) ∧ (c₂.ranks r).refreshState ≠ .drain ∧
        ∀ j, (c₁.ranks j).refreshState ≠ .drain → (c₂.ranks j).refreshState ≠ .drain := by
    rintro r c₁ c₂ ⟨hnow, h₁⟩ hstep
    by_cases hdrain : (c₁.ranks r).refreshState = .drain
    · have hbusy : ¬ (c₁.ranks r).isAvailable = true := by simp [Rank.isAvailable, hdrain]
      rw [if_neg hbusy] at hstep
      have hhandled := handled_checkDrainDone hstep
      rw [checkDrainDone, if_pos hdrain] at hstep
      obtain ⟨-, hnone, rfl⟩ := schedule_ok hstep
      refine ⟨⟨hnow, fun j => ?_⟩, by simp [setRefreshState], fun j hj => ?_⟩
      · by_cases hj : j = r
        · subst hj
          refine ⟨fun _ => (h₁ j).range (Or.inl (by simp [hdrain])), ?_, fun _ => ?_, ?_,
            fun hpwr => ?_⟩
          · simp [setRefreshState]
          · obtain ⟨x, hx, hle⟩ := (h₁ j).drain hdrain
            cases hx
            exact ⟨c.now, by simp [hnow], by simpa [setRefreshState] using hle⟩
          · simp [setRefreshState]
          · have hrun := ((h₁ j).ref (by simpa [setRefreshState] using hpwr)).1
            rw [hdrain] at hrun
            cases hrun
        · exact (h₁ j).away (hhandled.away hj) fun _ => id
      · by_cases hj' : j = r
        · subst hj'
          simp [setRefreshState]
        · rw [hhandled.others j hj']
          exact hj
    · obtain rfl : c₁ = c₂ := by
        split_ifs at hstep
        · exact Except.ok.inj hstep
        · rw [checkDrainDone, if_neg hdrain] at hstep
          exact Except.ok.inj hstep
      exact ⟨⟨hnow, h₁⟩, hdrain, fun _ => id⟩
  obtain ⟨⟨-, htimely⟩, hdone⟩ := foldlM_all
    (P := fun c₁ => c₁.now = c.now ∧ ∀ j, Timely p u (some c.now) c₁ j)
    (Q := fun j c₁ => (c₁.ranks j).refreshState ≠ .drain)
    (fun r _ c₁ c₂ h₁ hok => hstep r c₁ c₂ h₁ hok) ⟨rfl, h⟩ hok
  intro j
  refine (htimely j).of_not_drain fun hdrain => ?_
  -- a rank that drains is one of the channel
  have hrange := (htimely j).range (Or.inl (by simp [hdrain]))
  exact hdone j (List.mem_range.mpr hrange) hdrain

lemma bounded_drainRanks (h : Bounded p u c) (hok : drainRanks p c = .ok c') : Bounded p u c' := by
  refine foldlM_ok (P := Bounded p u) (fun r _ c₁ c₂ h₁ hstep => ?_) h hok
  split_ifs at hstep
  · cases hstep
    exact h₁
  · exact h₁.handled (handled_checkDrainDone hstep) (ahead_checkDrainDone h₁.ahead hstep)

lemma NextScheduled.le (h : NextScheduled c c') (hnone : c.agenda.when? .nextReq = none)
    (hc : c.nextReqTime ≤ c.now + 28 * u) (hx : x ∈ c'.agenda.when? .nextReq) :
    x ≤ c.now + 28 * u := by
  rcases h with ⟨hne, -⟩ | ⟨-, rfl⟩
  · exact absurd hnone hne
  · rw [Agenda.when?_set, if_pos rfl] at hx
    cases hx
    omega

lemma timely_served {queued : DRAMPacket → Prop} (hp : p.Brisk u) (hreg : p.Regular)
    (hcalm : Calm p c) (hnext : c.nextReqTime ≤ c.now) (hnone : c.agenda.when? .nextReq = none)
    (hbounded : Bounded p u c) (h : ∀ j, Timely p u (some c.now) c j)
    (hqueued : ∀ d, queued d → InRange p d) (hserved : ChanServed p queued c c') :
    Bounded p u c' ∧ ∀ j, Timely p u none c' j := by
  cases hserved with
  | stall hdrain => exact ⟨bounded_drainRanks hbounded hdrain, timely_drainRanks h hdrain⟩
  | idle c₁ hdrain hset =>
    have h₁ := timely_drainRanks h hdrain
    have hbounded₁ := bounded_drainRanks hbounded hdrain
    obtain ⟨-, -, hnone₁⟩ := calm_drainRanks hcalm hnext hnone hdrain
    refine ⟨hbounded₁.aside hset.aside fun x hx => hset.le hnone₁ hbounded₁.request hx,
      fun j => (h₁ j).away (hset.aside.away j) fun _ => id⟩
  | access c₁ c₂ c₃ d behind bubble t hdrain hd hidle hbubble haccess hrespond hset =>
    have h₁ := timely_drainRanks h hdrain
    have hbounded₁ := bounded_drainRanks hbounded hdrain
    obtain ⟨hcalm₁, hnext₁, hnone₁⟩ := calm_drainRanks hcalm hnext hnone hdrain
    have hcommands := commands_doDRAMAccess haccess
    have hnow₂ : c₂.now = c₁.now := hcommands.now
    have hwtr := hp.wtr
    have hrtw := hp.rtw
    have hcl := hp.cl
    have hprep := hbounded₁.prep
    have hbus := hbounded₁.bus
    have hahead := hbounded₁.ahead
    obtain ⟨hahead₂, hreq₂, hprep₂, hbus₂⟩ := ahead_doDRAMAccess hp hreg
      (c := { c₁ with busBusyUntil := c₁.busBusyUntil + bubble })
      { hahead with } (hcalm₁.spaced d.rank) (hqueued d hd).2.1
      (by dsimp only; omega) (by dsimp only; omega) haccess
    have hnone₂ : c₂.agenda.when? .nextReq = none :=
      (hcommands.sets.when?_eq (by simp [CommandEvent])).trans hnone₁
    have hbounded₂ : Bounded p u c₂ := by
      refine ⟨hahead₂.mono (by omega), hprep₂, by omega, by omega, fun x hx => ?_⟩
      rw [hnone₂] at hx
      cases hx
    have hnone₃ : c₃.agenda.when? .nextReq = none := hrespond.when?_nextReq.trans hnone₂
    have hbounded₃ := hbounded₂.aside hrespond.aside fun x hx => by
      rw [hnone₃] at hx
      cases hx
    refine ⟨hbounded₃.aside hset.aside fun x hx => hset.le hnone₃ hbounded₃.request hx, fun j => ?_⟩
    have h₂ : Timely p u none c₂ j := by
      by_cases hj : j = d.rank
      · subst hj
        -- the rank of the access is not being refreshed
        have hstates := hcommands.states
        refine timely_of_idle (hstates.refreshState.trans hidle) (fun hpwr => ?_) fun hne => ?_
        · have hrun := ((h₁ d.rank).ref (hstates.pwrState.symm.trans hpwr)).1
          rw [hidle] at hrun
          cases hrun
        · exact (hqueued d hd).1
      · refine Timely.away ?_ (hcommands.away hj) fun _ => id
        have hsame : Columns c₁ { c₁ with busBusyUntil := c₁.busBusyUntil + bubble } :=
          columns_of_ranks rfl rfl rfl rfl
        exact (h₁ j).away (hsame.away j) fun _ => id
    exact (h₂.away (hrespond.aside.away j) fun _ => id).away (hset.aside.away j) fun _ => id

/-! ### Runs -/

/-- Every rank is on time; what is queued is in range. -/
structure RefreshInv (p : DRAMParams) (u : ℕ) (s : DRAMCtrl) : Prop where
  bounded : Bounded p u s.chan
  timely : ∀ j, Timely p u (s.chan.agenda.when? .nextReq) s.chan j
  queued : ∀ d, Queued s d → InRange p d

lemma RefreshInv.queued_perform (h : RefreshInv p u s) {a : Act} (hok : s.perform p a = .ok s')
    (d : DRAMPacket) (hd : Queued s' d) : InRange p d := by
  rcases DRAMCtrl.queued_perform hok hd with hd | ⟨-, hrange⟩
  · exact h.queued d hd
  · exact hrange

lemma aside_timely (hbounded : Bounded p u c)
    (h : ∀ j, Timely p u (c.agenda.when? .nextReq) c j) (haside : Aside c c')
      (hkept : NextKept c c') :
    Bounded p u c' ∧ ∀ j, Timely p u (c'.agenda.when? .nextReq) c' j :=
  ⟨hbounded.aside haside fun _ hx => hkept.le hbounded.next hx,
    fun j => (h j).away (haside.away j) fun _ hx => hkept.mem hx⟩

lemma take_timely (hbounded : Bounded p u c) (h : ∀ j, Timely p u (c.agenda.when? .nextReq) c j)
    (he : ∀ j, ¬ e.ofRank j) (hne : e ≠ .nextReq) (ht : c.now ≤ t) :
    Bounded p u (c.take e t) ∧
      ∀ j, Timely p u ((c.take e t).agenda.when? .nextReq) (c.take e t) j := by
  refine ⟨hbounded.take ht e, fun j => (h j).away (away_take (he j) ht) fun x hx => ?_⟩
  rwa [when?_take, if_neg (Ne.symm hne)]

lemma RefreshInv.rankEvent (h : RefreshInv p u s) (he : e.ofRank r) (ht : s.chan.now ≤ t)
    (hhandled : Handled r (s.chan.take e t) c')
    (hahead : ∀ m, t + 6 * u ≤ m → Ahead p u m (s.chan.take e t) → Ahead p u m c')
    (htimely : Timely p u (s.chan.agenda.when? .nextReq) c' r) :
    Bounded p u c' ∧ ∀ j, Timely p u (c'.agenda.when? .nextReq) c' j := by
  have hbounded := h.bounded.take ht e
  have hreq : ∀ x ∈ s.chan.agenda.when? .nextReq, x ∈ c'.agenda.when? .nextReq := by
    intro x hx
    have hne : e ≠ .nextReq := by
      rintro rfl
      exact he
    refine hhandled.mem_nextReq ?_
    rwa [when?_take, if_neg (Ne.symm hne)]
  refine ⟨hbounded.handled hhandled (hahead _ ?_ hbounded.ahead), fun j => ?_⟩
  · exact Nat.add_le_add_right (le_max_right _ _) _
  · by_cases hj : j = r
    · subst hj
      exact htimely.away (.refl j c') hreq
    · refine (h.timely j).away ((away_take (fun hej => hj ?_) ht).trans (hhandled.away hj)) hreq
      cases e <;> simp_all [DRAMEvent.ofRank]

/-- **One action**, in the order of the event queue. -/
lemma RefreshInv.perform (hp : p.Brisk u) (hreg : p.Regular) (hpower : PowerInv p s)
    (h : RefreshInv p u s) {a : Act} (henabled : s.Enabled a) (hordered : s.Ordered a)
    (hok : s.perform p a = .ok s') : RefreshInv p u s' := by
  have hqueued := h.queued_perform hok
  suffices hchan : Bounded p u s'.chan ∧
      ∀ j, Timely p u (s'.chan.agenda.when? .nextReq) s'.chan j from ⟨hchan.1, hchan.2, hqueued⟩
  have hfront : ∀ {s₁ : DRAMCtrl}, Front p s₁ s' → Bounded p u s₁.chan →
      (∀ j, Timely p u (s₁.chan.agenda.when? .nextReq) s₁.chan j) →
      Bounded p u s'.chan ∧ ∀ j, Timely p u (s'.chan.agenda.when? .nextReq) s'.chan j :=
    fun hfront hbounded htimely => aside_timely hbounded htimely (aside_frontSet hfront.chan).1
      (nextKept_frontSet hfront.chan)
  -- unless a power event is next, every rank is between events
  have hsteady : ∀ e t r, a = .event e t → e ≠ .power r → Steady p s.chan r := by
    rintro e t r rfl hne
    refine (hpower.sound r).2.resolve_right fun hturn => hne ?_
    have heq := hturn.2.symm.trans hordered
    exact (Prod.mk.inj (some.inj heq)).2.symm
  cases chanStep_perform hok with
  | front h' => exact hfront h' h.bounded h.timely
  | plan n t =>
    exact aside_timely h.bounded h.timely (aside_set henabled fun _ => id) (Or.inl (by simp))
  | aside he hne h' =>
    obtain ⟨hbounded, htimely⟩ := take_timely h.bounded h.timely he hne henabled.2
    exact hfront h' hbounded htimely
  | @request t _ hserved =>
    have hwhen := Agenda.when?_of_head hordered
    have hcalm := hpower.calm fun r hturn => by
      have heq := hturn.2.symm.trans hordered
      simp at heq
    have hpaced := hpower.paced
    rw [Paced, hwhen] at hpaced
    obtain ⟨hbounded, htimely⟩ := timely_served hp hreg (hcalm.take (fun _ => id) hordered) hpaced
      (by simp) (h.bounded.take henabled.2 .nextReq) (fun j => (h.timely j).away
        (away_take (e := .nextReq) id henabled.2) fun x hx => hwhen ▸ hx) h.queued hserved
    refine ⟨hbounded, fun j => (htimely j).of_not_drain fun hdrain => ?_⟩
    obtain ⟨x, hx, -⟩ := (htimely j).drain hdrain
    cases hx
  | @rank e t r chan he hchan =>
    have ht := henabled.2
    have hhandled := handled_rankEvent he hchan
    have hbounded := h.bounded.take ht e
    cases e with
    | nextReq | respond | response | external => exact he.elim
    | activate =>
      subst he
      exact h.rankEvent (by rfl) ht hhandled
        (fun _ _ hahead => ahead_processActivateEvent hahead hchan)
        ((h.timely _).activateEvent hchan)
    | precharge =>
      subst he
      exact h.rankEvent (by rfl) ht hhandled
        (fun _ _ hahead => ahead_processPrechargeEvent hahead hchan)
        ((h.timely _).prechargeEvent (hsteady _ t _ rfl (by simp)) hordered hchan)
    | refresh =>
      subst he
      have hrequest := h.bounded.request
      refine h.rankEvent (by rfl) ht hhandled
        (fun _ hm hahead => ahead_processRefreshEvent hp hahead hm hchan)
        ((h.timely _).refreshEvent hp (hsteady _ t _ rfl (by simp)) ht hpower.paced hordered
          hbounded.ahead ?_ (fun x hx => ⟨hx, ?_⟩) hchan)
      · change max s.chan.nextReqTime t + 6 * u ≤ t + 34 * u
        omega
      · have hle := h.bounded.next x hx
        omega
    | power =>
      subst he
      refine h.rankEvent (by rfl) ht hhandled
        (fun _ hm hahead => ahead_processPowerEvent hp hahead hm hchan) ?_
      rcases (hpower.sound _).2 with hsteady | hturn
      · exact (h.timely _).powerEvent hsteady hordered hchan
      · obtain rfl : s.chan.now = t := (Prod.mk.inj (some.inj (hturn.2.symm.trans hordered))).1
        exact (h.timely _).powerNext hp hturn hchan

lemma refreshInv_init (hp : p.Brisk u) (start : ℕ) (mem : AbstractMemory) :
    RefreshInv p u (init p start mem) := by
  have hsets := sets_init p start mem
  have hnone : ∀ e, (∀ r, e ≠ DRAMEvent.refresh r) →
      (init p start mem).chan.agenda.when? e = none :=
    fun e he => hsets.when?_eq fun ⟨r, _, hr⟩ => he r hr
  have hprep : p.prepTime ≤ 3 * u := by
    have hrp := hp.rp
    have hrcd := hp.rcd
    have hcl := hp.cl
    change p.tRP + p.tRCD + p.tCL ≤ 3 * u
    omega
  refine ⟨⟨⟨?_, fun j => ⟨?_, ?_, ?_, ?_⟩, fun j x hx => ?_⟩, ?_, ?_, Nat.zero_le _,
    fun x hx => ?_⟩,
    fun j => timely_of_idle rfl (by simp [init, Rank.init]) fun hne => ?_, by simp [Queued, init]⟩
  · exact le_trans (le_max_right _ _) (Nat.le_add_right _ _)
  · simp [init, Rank.init, Bank.init]
  · exact fun _ => Nat.zero_le _
  · exact fun _ => Nat.zero_le _
  · exact fun _ => Nat.zero_le _
  · rw [hnone _ (by simp)] at hx
    cases hx
  · exact Nat.le_add_left _ _
  · change start + p.prepTime ≤ max 0 start + 6 * u
    omega
  · rw [hnone _ (by simp)] at hx
    cases hx
  · -- only the ranks of the channel have their refreshes scheduled
    by_contra hge
    refine hne (hsets.when?_eq ?_)
    rintro ⟨r, hr, heq⟩
    obtain rfl := DRAMEvent.refresh.inj heq
    exact hge hr

/-- **Every run** in event-queue order keeps refreshes on time. -/
lemma Run.refreshInv (hp : p.Brisk u) (hreg : p.Regular) (h : Run p Ordered s) :
    RefreshInv p u s := by
  induction h with
  | start t mem => exact refreshInv_init hp t mem
  | act hrun henabled hordered hperform ih =>
    exact ih.perform hp hreg (hrun.powerInv hreg) henabled hordered hperform

/-! ### The assertions of the two machines -/

/-- All kinds of abort but those of the two machines. -/
def offPower : List Abort.Kind := [.front, .bank, .window, .bus, .order]

/-- **No action fails an assertion of the two machines** with refreshes on time. -/
lemma fails_perform_timely (hpower : PowerInv p s) (h : RefreshInv p u s) (a : Act)
    (hordered : s.Ordered a) : Fails offPower (s.perform p a) := by
  have hfront : ∀ e : Abort, e.kind = .front → e.kind ∈ offPower := fun e he => by
    simp [offPower, he]
  refine (meets_perform (Q := fun _ => True) hfront (fun _ _ => trivial) (fun _ _ _ => trivial)
    fun e t ha => meets_handle hfront trivial (fun _ _ => trivial) (fun he => ?_)
      fun r he => meets_iff.mpr ⟨?_, fun _ _ => trivial⟩).fails
  · subst ha he
    refine meets_iff.mpr ⟨(fails_processNextReqEvent_spaced fun j => ?_).mono
      (by simp [offPower, onService]), fun _ _ => trivial⟩
    exact spaced_take (hpower.clock _ _ (Agenda.when?_of_head hordered)) hordered (hpower.sound j).1
  · subst ha
    have ht := hpower.clock _ _ (Agenda.when?_of_head hordered)
    have hsteady : ∀ r, e ≠ .power r → Steady p s.chan r := by
      intro r hne
      refine (hpower.sound r).2.resolve_right fun hturn => hne ?_
      exact (Prod.mk.inj (some.inj (hturn.2.symm.trans hordered))).2.symm
    cases e with
    | nextReq | respond | response | external => exact he.elim
    | activate r =>
      exact (fails_activateEvent (hsteady r (by simp)) hordered).mono (by simp [offPower])
    | precharge r =>
      exact (fails_prechargeEvent (hsteady r (by simp)) hordered).mono (by simp [offPower])
    | refresh r =>
      exact (fails_refreshEvent (hsteady r (by simp)) (hpower.sound r).1 ht hpower.paced hordered
        (h.timely r) (h.bounded.take ht _).ahead).mono (by simp [offPower])
    | power r =>
      rcases (hpower.sound r).2 with hsteady | hturn
      · exact (fails_powerEvent hsteady hordered).mono (by simp [offPower])
      · obtain rfl : s.chan.now = t := (Prod.mk.inj (some.inj (hturn.2.symm.trans hordered))).1
        exact (fails_powerNext hturn).mono (by simp [offPower])

def shipped : List Timing := [.ddr3_1600, .ddr3_2133, .ddr4_2400]

lemma brisk_of_shipped (h : p.toTiming ∈ shipped) : p.Brisk 50000 := by
  have hall : ∀ t ∈ shipped, t.tRCD ≤ 50000 ∧ t.tCL ≤ 50000 ∧ t.tRP ≤ 50000 ∧ t.tRAS ≤ 50000 ∧
      t.tWLOV ≤ 50000 ∧ t.tWR ≤ 50000 ∧ t.tRTP ≤ 50000 ∧ t.tBURST ≤ 50000 ∧ t.tCCD_L ≤ 50000 ∧
      t.tCS ≤ 50000 ∧ t.tRRD ≤ 50000 ∧ t.tRRD_L ≤ 50000 ∧ t.tXAW ≤ 50000 ∧ t.tWTR ≤ 50000 ∧
      t.tRTW ≤ 50000 ∧ t.tRFC ≤ 7 * 50000 ∧ 72 * 50000 ≤ t.tREFI := by
    decide
  obtain ⟨h₁, h₂, h₃, h₄, h₅, h₆, h₇, h₈, h₉, h₁₀, h₁₁, h₁₂, h₁₃, h₁₄, h₁₅, h₁₆, h₁₇⟩ := hall _ h
  exact ⟨h₁, h₂, h₃, h₄, h₅, h₆, h₇, h₈, h₉, h₁₀, h₁₁, h₁₂, h₁₃, h₁₄, h₁₅, h₁₆, h₁₇⟩

lemma regular_of_shipped (h : p.toTiming ∈ shipped) : p.Regular := by
  have hall : ∀ t ∈ shipped, t.tRCD < t.tRAS ∧ t.tRRD ≤ t.tRAS ∧ t.tRRD_L ≤ t.tRAS ∧
      t.tXAW ≤ t.tRAS + t.tRP + (t.activationLimit - 1) * t.tRRD := by
    decide
  obtain ⟨h₁, h₂, h₃, h₄⟩ := hall _ h
  exact ⟨h₁, h₂, h₃, h₄⟩

/-- **The power and refresh machines of a rank.** In every run in event-queue order with the timing
of a shipped configuration, no action ends in the panic of `schedulePowerEvent` or an assertion of
`processRefreshEvent` or `processPowerEvent`, and a rank is refreshed only with all banks precharged
and nothing pending. -/
theorem refreshes_sound (hp : p.toTiming ∈ shipped) (hrun : Run p Ordered s) :
    (∀ a e, s.Ordered a → s.perform p a = .error e → e.kind ≠ .power) ∧
      ∀ r, (s.chan.ranks r).pwrState = .ref → (s.chan.ranks r).numBanksActive = 0 ∧
        (∀ b, ((s.chan.ranks r).banks b).openRow = none) ∧
        s.chan.agenda.when? (.activate r) = none ∧ s.chan.agenda.when? (.precharge r) = none := by
  have hpower := hrun.powerInv (regular_of_shipped hp)
  have hrefresh := hrun.refreshInv (brisk_of_shipped hp) (regular_of_shipped hp)
  refine ⟨fun a e hordered herror hkind => ?_, fun r hpwr => ?_⟩
  · refine (fails_perform_timely hpower hrefresh a hordered).ne ?_ herror
    rw [hkind]
    decide
  · have hrefreshing : Refreshing s.chan r := by
      rcases (hpower.sound r).2 with hsteady | ⟨hturn, -⟩
      · cases hsteady with
        | quiet h => exact absurd (hpwr.symm.trans h.pwr) (by simp)
        | rising h => exact absurd (hpwr.symm.trans h.pwr) (by simp)
        | active h => exact absurd (hpwr.symm.trans h.pwr) (by simp)
        | refreshing h => exact h
      · cases hturn with
        | toAct pwr => exact absurd (hpwr.symm.trans pwr) (by simp)
        | toIdle pwr => exact absurd (hpwr.symm.trans pwr) (by simp)
        | toRef pwr => exact absurd (hpwr.symm.trans pwr) (by simp)
    exact ⟨hrefreshing.active, (hpower.sound r).1.closed hrefreshing.active, hrefreshing.act,
      hrefreshing.pre⟩

/-- A row op 250 ps before both ranks' refreshes are due. -/
def refreshBehindRowOp : List Act :=
  [.plan 0 7786000, .event (.external 0) 7786000, .arrive notRow0 0, .event .nextReq 7786000,
    .event .nextReq 7786000, .event (.activate 0) 7786000, .event (.power 0) 7786000,
    .event (.refresh 1) 7786250, .event (.power 1) 7786250, .event (.refresh 0) 7786250,
    .event (.response 0) 7796000, .event .nextReq 7864000, .event (.refresh 0) 7864000,
    .event (.precharge 0) 7891500, .event (.power 0) 7891500]

/-- Rank 0's refresh waits for the row op and its precharges. -/
theorem refreshes_sound_behind_rowOp :
    ∃ s, Run (.ddr3_1600_x64 .fcfs) Ordered s ∧ (s.chan.ranks 0).pwrState = .ref ∧
      (s.chan.ranks 0).numBanksActive = 0 ∧ s.chan.agenda.when? (.activate 0) = none := by
  have hlast : (performAll (.ddr3_1600_x64 .fcfs) (init (.ddr3_1600_x64 .fcfs) 0 blank)
      refreshBehindRowOp).map (fun s => (s.chan.ranks 0).pwrState) = some .ref := by decide +kernel
  obtain ⟨s, hs, hpwr⟩ := map_eq_some_iff.mp hlast
  have hrun := run_performAll (.start 0 blank) hs
  obtain ⟨hactive, -, hact, -⟩ := (refreshes_sound (by decide) hrun).2 0 hpwr
  exact ⟨s, hrun, hpwr, hactive, hact⟩

end DRAMCtrl

end ShifDram
