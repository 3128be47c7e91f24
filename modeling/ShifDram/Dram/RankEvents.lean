import ShifDram.Dram.Commands

/-!
What the events of a rank do to the channel.
-/

namespace ShifDram

open Fallible List

namespace Channel

variable {p : DRAMParams} {c c' c₁ c₂ c₃ : Channel} {e : DRAMEvent} {r j b t : ℕ} {k : Rank}
  {state : PowerState}

lemma schedulePowerEvent_ok (h : c.schedulePowerEvent r state t = .ok c') :
    c.agenda.when? (.power r) = none ∧
      c' = { c.setRank r { c.ranks r with pwrStateTrans := state } with
        agenda := c.agenda.set t (.power r) } := by
  rw [schedulePowerEvent] at h
  split_ifs at h
  obtain ⟨-, hnone, rfl⟩ := schedule_ok h
  exact ⟨hnone, rfl⟩

@[simp] lemma setRank_setRank (k' : Rank) : (c.setRank r k).setRank r k' = c.setRank r k' := by
  simp [setRank]

lemma refreshPre_ok (h : c.refreshPre p r = .ok c') :
    ∃ c₁, c' = c₁.setRefreshState r .run ∧ (c₁.ranks r).numBanksActive = 0 ∧
      ((c.ranks r).pwrState ≠ .idle ∧ c.prechargeAll p r = .ok c₁ ∨
        (c.ranks r).pwrState = .idle ∧ c.schedulePowerEvent r .ref c.now = .ok c₁) := by
  obtain ⟨c₁, hfirst, h⟩ := bind_ok h
  dsimp only at h
  split_ifs at h with hactive
  refine ⟨c₁, (Except.ok.inj h).symm, ?_, ?_⟩
  · simpa [setRefreshState] using hactive
  · split_ifs at hfirst with hidle
    · exact Or.inl ⟨hidle, hfirst⟩
    · exact Or.inr ⟨not_not.mp hidle, hfirst⟩

/-- `REF_RUN` sets the next refresh event, then the power event at the end. -/
lemma refreshRun_ok (h : c.refreshRun p r = .ok c') : c.agenda.when? (.power r) = none ∧
      c' = { c.setRank r
          { (c.ranks r).mapBanks fun _ bank => { bank with actAllowedAt := c.now + p.tRFC } with
            pwrStateTrans := .idle } with
        agenda := (c.agenda.set ((c.ranks r).refreshDueAt + p.tREFI - p.tRP) (.refresh r)).set
          (c.now + p.tRFC) (.power r) } := by
  simp only [refreshRun] at h
  split_ifs at h
  obtain ⟨c₁, hschedule, h⟩ := bind_ok h
  obtain ⟨-, -, rfl⟩ := schedule_ok hschedule
  split_ifs at h
  obtain ⟨hnone, rfl⟩ := schedulePowerEvent_ok h
  refine ⟨?_, ?_⟩
  · simpa [setRank] using hnone
  · simp [setRank]

lemma refreshDrain_ok (h : processRefreshEvent.refreshDrain p r c = .ok c') :
    (r = c.activeRank ∧ c.agenda.when? .nextReq ≠ none ∧ c' = c) ∨
      ¬ (r = c.activeRank ∧ c.agenda.when? .nextReq ≠ none) ∧
        (c.setRefreshState r .pre).refreshPre p r = .ok c' := by
  rw [processRefreshEvent.refreshDrain] at h
  simp only [scheduled, Option.isSome_iff_ne_none] at h
  split_ifs at h with hwait
  · exact Or.inl ⟨hwait.1, hwait.2, (Except.ok.inj h).symm⟩
  · exact Or.inr ⟨hwait, h⟩

lemma processRefreshEvent_run (h : (c.ranks r).refreshState = .run) :
    c.processRefreshEvent p r = c.refreshRun p r := by
  rw [processRefreshEvent, h]

/-! ### The precharge of all banks -/

lemma foldl_max_le {f : ℕ → ℕ} {l : List ℕ} {n m : ℕ} :
    l.foldl (fun t b => max (f b) t) n ≤ m ↔ n ≤ m ∧ ∀ b ∈ l, f b ≤ m := by
  induction l generalizing n with
  | nil => simp
  | cons b l ih =>
    rw [foldl_cons, ih, max_le_iff]
    simp only [mem_cons, forall_eq_or_imp]
    tauto

lemma preAllAt_le {m : ℕ} : c.preAllAt p r ≤ m ↔
    c.now ≤ m ∧ ∀ b < p.banksPerRank, ((c.ranks r).banks b).preAllowedAt ≤ m := by
  rw [preAllAt, foldl_max_le (f := fun b => ((c.ranks r).banks b).preAllowedAt)]
  simp only [mem_range]

/-- The rank's banks are precharged at `preAt`, or held back if closed. -/
structure Sweep (p : DRAMParams) (r preAt : ℕ) (c c' : Channel) : Prop where
  rest : c' = { c with ranks := c'.ranks, agenda := c'.agenda }
  others : ∀ j ≠ r, c'.ranks j = c.ranks j
  states : Rank.SameStates (c.ranks r) (c'.ranks r)
  sets : c.agenda.SetsFrom c.now (· = .precharge r) c'.agenda
  due : ∀ x, c'.agenda.when? (.precharge r) = some x →
    c.agenda.when? (.precharge r) = some x ∨ x = preAt + p.tRP
  closed : ∀ i, ((c.ranks r).banks i).openRow = none → ((c'.ranks r).banks i).openRow = none
  pre_le : ∀ i, ((c'.ranks r).banks i).preAllowedAt ≤ max ((c.ranks r).banks i).preAllowedAt preAt
  act_le : ∀ i, ((c'.ranks r).banks i).actAllowedAt ≤
    max ((c.ranks r).banks i).actAllowedAt (preAt + p.tRP)
  col_eq : ∀ i, ((c'.ranks r).banks i).colAllowedAt = ((c.ranks r).banks i).colAllowedAt
  spaced : (c.view r).Spaced p → (c'.view r).Spaced p
  settled : c.Settled r → c'.Settled r

variable {preAt : ℕ}

lemma Sweep.now (h : Sweep p r preAt c c') : c'.now = c.now := by rw [h.rest]

lemma Sweep.refl (p : DRAMParams) (r preAt : ℕ) (c : Channel) : Sweep p r preAt c c :=
  ⟨rfl, fun _ _ => rfl, .refl _, .refl _, fun _ => Or.inl, fun _ => id, fun _ => le_max_left _ _,
    fun _ => le_max_left _ _, fun _ => rfl, id, id⟩

lemma Sweep.trans (h : Sweep p r preAt c₁ c₂) (h' : Sweep p r preAt c₂ c₃) :
    Sweep p r preAt c₁ c₃ where
  rest := by rw [h'.rest, h.rest]
  others j hj := (h'.others j hj).trans (h.others j hj)
  states := h.states.trans h'.states
  sets := h.sets.trans (h.now ▸ h'.sets)
  due x hx := (h'.due x hx).elim (h.due x) Or.inr
  closed i hi := h'.closed i (h.closed i hi)
  pre_le i := (h'.pre_le i).trans (max_le (h.pre_le i) (le_max_right _ _))
  act_le i := (h'.act_le i).trans (max_le (h.act_le i) (le_max_right _ _))
  col_eq i := (h'.col_eq i).trans (h.col_eq i)
  spaced hs := h'.spaced (h.spaced hs)
  settled hs := h'.settled (h.settled hs)

lemma BankPrecharged.sweep (hallowed : ((c.ranks r).banks b).preAllowedAt ≤ t)
    (h : BankPrecharged p c r b t c') : Sweep p r t c c' where
  rest := h.rest
  others := h.others
  states := h.rank.states
  sets := by
    rcases h.event with ⟨hle, -, heq⟩ | ⟨x, -, -, heq⟩
    · rw [heq]
      exact .single hle rfl
    · rw [heq]
      exact .refl _
  due x hx := by
    obtain ⟨y, -, hy, -, hcase⟩ := h.le_when?
    obtain rfl := Option.some.inj (hy.symm.trans hx)
    exact hcase.symm
  closed i hi := by
    rw [h.rank.openRow]
    split_ifs
    · rfl
    · exact hi
  pre_le i := by
    rw [h.rank.preAllowedAt]
    split_ifs
    · exact le_max_right _ _
    · exact le_max_left _ _
  act_le i := by
    rw [h.rank.actAllowedAt]
    split_ifs
    · exact le_rfl
    · exact le_max_left _ _
  col_eq := h.rank.colAllowedAt
  spaced hs := (Command.precharge hallowed h).spaced hs
  settled _ := h.settled

/-- A closed bank is held back. -/
lemma sweep_hold (hclosed : ((c.ranks r).banks b).openRow = none) :
    Sweep p r preAt c (c.setRank r ((c.ranks r).modifyBank b fun bank => { bank with
        actAllowedAt := max bank.actAllowedAt (preAt + p.tRP)
        preAllowedAt := max bank.preAllowedAt preAt })) := by
  have hbank : ∀ i, let bank := ((c.ranks r).modifyBank b fun bank => { bank with
        actAllowedAt := max bank.actAllowedAt (preAt + p.tRP)
        preAllowedAt := max bank.preAllowedAt preAt }).banks i
      bank.openRow = ((c.ranks r).banks i).openRow ∧
      bank.colAllowedAt = ((c.ranks r).banks i).colAllowedAt ∧
      (((c.ranks r).banks i).preAllowedAt ≤ bank.preAllowedAt ∧
        bank.preAllowedAt ≤ max ((c.ranks r).banks i).preAllowedAt preAt) ∧
      (((c.ranks r).banks i).actAllowedAt ≤ bank.actAllowedAt ∧
        bank.actAllowedAt ≤ max ((c.ranks r).banks i).actAllowedAt (preAt + p.tRP)) := by
    intro i
    by_cases hi : i = b
    · subst hi
      simp [Rank.modifyBank]
    · simp [Rank.modifyBank, hi]
  refine ⟨rfl, fun j hj => ranks_setRank_of_ne _ _ hj, ?_, .refl _, fun _ => Or.inl, fun i hi => ?_,
    fun i => ?_, fun i => ?_, fun i => ?_, fun hs => ?_, fun hs => ?_⟩
  · rw [ranks_setRank_self]
    exact ⟨rfl, rfl, rfl, rfl⟩
  · rw [ranks_setRank_self]
    exact (hbank i).1.trans hi
  · rw [ranks_setRank_self]
    exact (hbank i).2.2.1.2
  · rw [ranks_setRank_self]
    exact (hbank i).2.2.2.2
  · rw [ranks_setRank_self]
    exact (hbank i).2.1
  · refine hs.widen ?_ rfl (fun _ => id) le_rfl
    change RankView.Widened (c.ranks r) ((c.setRank r _).ranks r)
    rw [ranks_setRank_self]
    exact ⟨rfl, rfl, fun i => (hbank i).1, fun i => (hbank i).2.2.1.1, fun i => (hbank i).2.2.2.1⟩
  · rw [Settled, ranks_setRank_self]
    exact hs

lemma sweep_prechargeOne (hallowed : ((c.ranks r).banks b).preAllowedAt ≤ preAt)
    (h : prechargeOne p r preAt c b = .ok c') :
    Sweep p r preAt c c' ∧ ((c'.ranks r).banks b).openRow = none := by
  rw [prechargeOne] at h
  split_ifs at h with hopen
  · have hpre := prechargeBank_ok h
    exact ⟨hpre.sweep hallowed, by rw [hpre.rank.openRow, if_pos rfl]⟩
  · cases h
    rw [Option.not_isSome_iff_eq_none] at hopen
    have hsweep : Sweep p r preAt c _ := sweep_hold hopen
    exact ⟨hsweep, hsweep.closed b hopen⟩

lemma sweep_prechargeAll (h : c.prechargeAll p r = .ok c') : Sweep p r (c.preAllAt p r) c c' ∧
      ∀ b < p.banksPerRank, ((c'.ranks r).banks b).openRow = none := by
  obtain ⟨-, hallowed⟩ := preAllAt_le.mp (le_refl (c.preAllAt p r))
  have hstep : ∀ b < p.banksPerRank, ∀ c₁ c₂, Sweep p r (c.preAllAt p r) c c₁ →
      prechargeOne p r (c.preAllAt p r) c₁ b = .ok c₂ →
      Sweep p r (c.preAllAt p r) c₁ c₂ ∧ ((c₂.ranks r).banks b).openRow = none := by
    intro b hb c₁ c₂ hsweep hone
    refine sweep_prechargeOne ((hsweep.pre_le b).trans ?_) hone
    exact max_le (hallowed b hb) le_rfl
  -- the banks that have been passed are closed, and stay so
  have hloop : ∀ (l : List ℕ) (c₁ : Channel), (∀ b ∈ l, b < p.banksPerRank) →
      Sweep p r (c.preAllAt p r) c c₁ →
      l.foldlM (prechargeOne p r (c.preAllAt p r)) c₁ = .ok c' →
      Sweep p r (c.preAllAt p r) c₁ c' ∧ ∀ b ∈ l, ((c'.ranks r).banks b).openRow = none := by
    intro l
    induction l with
    | nil =>
      intro c₁ _ _ h
      obtain rfl : c₁ = c' := Except.ok.inj h
      exact ⟨.refl _ _ _ _, by simp⟩
    | cons b l ih =>
      intro c₁ hl hsweep h
      obtain ⟨c₂, hone, h⟩ := bind_ok h
      obtain ⟨hsweep₂, hclosed⟩ := hstep b (hl b mem_cons_self) c₁ c₂ hsweep hone
      obtain ⟨hrest, hclosed'⟩ := ih c₂ (fun b' hb' => hl b' (mem_cons_of_mem _ hb'))
        (hsweep.trans hsweep₂) h
      refine ⟨hsweep₂.trans hrest, fun b' hb' => ?_⟩
      rcases mem_cons.mp hb' with rfl | hb'
      · exact hrest.closed b' hclosed
      · exact hclosed' b' hb'
  obtain ⟨hsweep, hclosed⟩ := hloop _ c (fun b hb => mem_range.mp hb) (.refl _ _ _ _) h
  exact ⟨hsweep, fun b hb => hclosed b (mem_range.mpr hb)⟩

/-! ### The events of a rank -/

/-- A rank's events leave clock, bus, other ranks, column times. -/
structure Handled (r : ℕ) (c c' : Channel) : Prop where
  rest : c' = { c with ranks := c'.ranks, agenda := c'.agenda }
  others : ∀ j ≠ r, c'.ranks j = c.ranks j
  col_eq : ∀ i, ((c'.ranks r).banks i).colAllowedAt = ((c.ranks r).banks i).colAllowedAt
  sets : c.agenda.SetsFrom c.now (fun e => e.ofRank r ∨ e = .nextReq) c'.agenda
  next : (c'.agenda.when? .nextReq).getD c'.now = (c.agenda.when? .nextReq).getD c.now

lemma Handled.now (h : Handled r c c') : c'.now = c.now := by rw [h.rest]

lemma Handled.activations (h : Handled r c c') : c'.activations = c.activations := by rw [h.rest]

lemma Handled.refl (r : ℕ) (c : Channel) : Handled r c c :=
  ⟨rfl, fun _ _ => rfl, fun _ => rfl, .refl _, rfl⟩

lemma Handled.trans (h : Handled r c₁ c₂) (h' : Handled r c₂ c₃) : Handled r c₁ c₃ where
  rest := by rw [h'.rest, h.rest]
  others j hj := (h'.others j hj).trans (h.others j hj)
  col_eq i := (h'.col_eq i).trans (h.col_eq i)
  sets := h.sets.trans (h.now ▸ h'.sets)
  next := h'.next.trans h.next

lemma Handled.away (h : Handled r c c') (hj : j ≠ r) : Away j c c' := by
  refine away_of_eq h.now.ge (h.others j hj) (by rw [view, view, h.rest]) h.sets ?_
  rintro e (he | rfl) he'
  · cases e <;> simp_all [DRAMEvent.ofRank]
  · exact he'

lemma handled_setRank (hcol : ∀ i, (k.banks i).colAllowedAt = ((c.ranks r).banks i).colAllowedAt) :
    Handled r c (c.setRank r k) :=
  ⟨rfl, fun _ hj => ranks_setRank_of_ne c k hj, fun i => by rw [ranks_setRank_self, hcol], .refl _,
    rfl⟩

lemma handled_setRefreshState (c : Channel) (r : ℕ) (state : RefreshState) :
    Handled r c (c.setRefreshState r state) :=
  handled_setRank fun _ => rfl

lemma handled_schedule (he : e.ofRank r) (h : c.schedule e t = .ok c') : Handled r c c' := by
  obtain ⟨hle, -, rfl⟩ := schedule_ok h
  refine ⟨rfl, fun _ _ => rfl, fun _ => rfl, .single hle (Or.inl he), ?_⟩
  have hne : DRAMEvent.nextReq ≠ e := by
    rintro rfl
    exact he
  rw [Agenda.when?_set, if_neg hne]

lemma handled_schedulePowerEvent
    (h : c.schedulePowerEvent r state t = .ok c') : Handled r c c' := by
  rw [schedulePowerEvent] at h
  split_ifs at h
  refine Handled.trans ?_ (handled_schedule (by rfl) h)
  exact handled_setRank fun _ => rfl

lemma Sweep.handled (h : Sweep p r preAt c c') : Handled r c c' where
  rest := h.rest
  others := h.others
  col_eq := h.col_eq
  sets := h.sets.mono fun e he => Or.inl (he ▸ rfl)
  next := by rw [h.sets.when?_eq (by simp), h.now]

lemma handled_checkDrainDone (h : c.checkDrainDone r = .ok c') : Handled r c c' := by
  rw [checkDrainDone] at h
  split_ifs at h
  · exact (handled_setRefreshState c r .pre).trans (handled_schedule (by rfl) h)
  · cases h
    exact .refl r c

lemma handled_processActivateEvent (h : c.processActivateEvent r = .ok c') : Handled r c c' := by
  rw [processActivateEvent] at h
  split_ifs at h
  · exact handled_schedulePowerEvent h
  · cases h
    exact .refl r c

lemma handled_processPrechargeEvent (h : c.processPrechargeEvent r = .ok c') : Handled r c c' := by
  rw [processPrechargeEvent] at h
  split_ifs at h
  · exact handled_schedulePowerEvent h
  · cases h
    exact .refl r c

lemma handled_refreshPre (h : c.refreshPre p r = .ok c') : Handled r c c' := by
  obtain ⟨c₁, rfl, -, ⟨-, hall⟩ | ⟨-, hpower⟩⟩ := refreshPre_ok h
  · exact (sweep_prechargeAll hall).1.handled.trans (handled_setRefreshState c₁ r .run)
  · exact (handled_schedulePowerEvent hpower).trans (handled_setRefreshState c₁ r .run)

lemma handled_refreshRun (h : c.refreshRun p r = .ok c') : Handled r c c' := by
  simp only [refreshRun] at h
  split_ifs at h
  obtain ⟨c₁, hschedule, h⟩ := bind_ok h
  split_ifs at h
  refine Handled.trans ?_
    ((handled_schedule (by rfl) hschedule).trans (handled_schedulePowerEvent h))
  exact handled_setRank fun _ => rfl

lemma handled_refreshDrain (h : processRefreshEvent.refreshDrain p r c = .ok c') :
    Handled r c c' := by
  rcases refreshDrain_ok h with ⟨-, -, rfl⟩ | ⟨-, h⟩
  · exact .refl r c'
  · exact (handled_setRefreshState c r .pre).trans (handled_refreshPre h)

lemma handled_processRefreshEvent (h : c.processRefreshEvent p r = .ok c') : Handled r c c' := by
  rw [processRefreshEvent] at h
  split at h
  · refine Handled.trans ?_ (handled_refreshDrain h)
    exact handled_setRank fun _ => rfl
  · exact handled_refreshDrain h
  · exact handled_refreshPre h
  · exact handled_refreshRun h

lemma handled_processPowerEvent (h : c.processPowerEvent p r = .ok c') : Handled r c c' := by
  have hset : Handled r c (c.setRank r { c.ranks r with pwrState := (c.ranks r).pwrStateTrans }) :=
    handled_setRank fun _ => rfl
  rw [processPowerEvent] at h
  dsimp only at h
  generalize c.setRank r { c.ranks r with pwrState := (c.ranks r).pwrStateTrans } = c₁ at h hset
  refine hset.trans ?_
  split at h
  · split_ifs at h
    · cases h
      exact handled_setRefreshState c₁ r .idle
    · -- the request event is scheduled for now
      refine (handled_setRefreshState c₁ r .idle).trans ?_
      obtain ⟨hle, hnone, rfl⟩ := schedule_ok h
      refine ⟨rfl, fun _ _ => rfl, fun _ => rfl, .single hle (Or.inr rfl), ?_⟩
      rw [Agenda.when?_set, if_pos rfl, hnone]
      rfl
    · refine Handled.trans ?_ (handled_processRefreshEvent h)
      exact handled_setRank fun _ => rfl
    · obtain rfl := Except.ok.inj h
      exact .refl r c₁
  · split_ifs at h
    exact handled_processRefreshEvent h
  · obtain rfl := Except.ok.inj h
    exact .refl r c₁

end Channel

end ShifDram
