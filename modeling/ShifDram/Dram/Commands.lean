import ShifDram.Dram.Spacing

/-!
What an access does to the ranks and their events.

It is a sequence of commands to one rank: allowed activates and precharges, and the column command
of a burst. Of the other ranks only the column times move.
-/

namespace ShifDram

open Fallible

def DRAMEvent.ofRank (j : ℕ) : DRAMEvent → Prop
  | .activate r | .precharge r | .refresh r | .power r => r = j
  | _ => False

namespace Channel

variable {p : DRAMParams} {c c' c₁ c₂ c₃ : Channel} {d : DRAMPacket} {e : DRAMEvent}
  {r j b t preAt row : ℕ} {behind : List DRAMPacket} {cmdAt : ℕ} {op : RowOp}

/-- What the spacing of a rank's activates depends on. -/
def view (c : Channel) (r : ℕ) : RankView where
  now := c.now
  rank := c.ranks r
  acts := c.activations.filter (·.rank = r)
  act := c.agenda.when? (.activate r)
  pre := c.agenda.when? (.precharge r)

def take (c : Channel) (e : DRAMEvent) (t : ℕ) : Channel :=
  { c with now := t, agenda := c.agenda.remove e }

@[simp] lemma now_take : (c.take e t).now = t := rfl

@[simp] lemma ranks_take : (c.take e t).ranks = c.ranks := rfl

@[simp] lemma when?_take (e' : DRAMEvent) :
    (c.take e t).agenda.when? e' = if e' = e then none else c.agenda.when? e' :=
  Agenda.when?_remove _ _ _

/-- Rank `j` is the same but for columns and precharges held back. -/
structure Away (j : ℕ) (c c' : Channel) : Prop where
  now : c.now ≤ c'.now
  states : Rank.SameStates (c.ranks j) (c'.ranks j)
  widened : RankView.Widened (c.ranks j) (c'.ranks j)
  act : ∀ i, ((c'.ranks j).banks i).actAllowedAt = ((c.ranks j).banks i).actAllowedAt
  acts : (c'.view j).acts = (c.view j).acts
  events : ∀ e, e.ofRank j → c'.agenda.when? e = c.agenda.when? e
  before : ∀ e e', e.ofRank j → e'.ofRank j → c.agenda.Before e e' → c'.agenda.Before e e'

lemma widened_refl (k : Rank) : RankView.Widened k k :=
  ⟨rfl, rfl, fun _ => rfl, fun _ => le_rfl, fun _ => le_rfl⟩

lemma Away.trans (h : Away j c₁ c₂) (h' : Away j c₂ c₃) : Away j c₁ c₃ where
  now := h.now.trans h'.now
  states := h.states.trans h'.states
  widened :=
    ⟨h'.widened.actTicks.trans h.widened.actTicks, h'.widened.active.trans h.widened.active,
      fun i => (h'.widened.openRow i).trans (h.widened.openRow i),
      fun i => (h.widened.pre i).trans (h'.widened.pre i),
      fun i => (h.widened.act i).trans (h'.widened.act i)⟩
  act i := (h'.act i).trans (h.act i)
  acts := h'.acts.trans h.acts
  events e he := (h'.events e he).trans (h.events e he)
  before e e' he he' hq := h'.before e e' he he' (h.before e e' he he' hq)

lemma away_of_eq {E : DRAMEvent → Prop} (hnow : c.now ≤ c'.now) (hrank : c'.ranks j = c.ranks j)
    (hacts : (c'.view j).acts = (c.view j).acts)
    (hsets : c.agenda.SetsFrom t E c'.agenda) (hE : ∀ e, E e → ¬ e.ofRank j) : Away j c c' where
  now := hnow
  states := hrank ▸ .refl _
  widened := hrank ▸ widened_refl _
  act i := by rw [hrank]
  acts := hacts
  events e he := hsets.when?_eq fun hEe => hE e hEe he
  before e e' he he' := hsets.before (fun hEe => hE e hEe he) fun hEe => hE e' hEe he'

lemma Away.refl (j : ℕ) (c : Channel) : Away j c c :=
  away_of_eq (t := 0) (E := fun _ => False) le_rfl rfl rfl (.refl _) fun _ => False.elim

lemma away_take (he : ¬ e.ofRank j) (ht : c.now ≤ t) : Away j c (c.take e t) where
  now := ht
  states := .refl _
  widened := widened_refl _
  act _ := rfl
  acts := rfl
  events e' he' := by
    have hne : e' ≠ e := fun heq => he (heq ▸ he')
    rw [when?_take, if_neg hne]
  before _ _ he₁ _ hq := hq.remove fun heq => he (heq ▸ he₁)

lemma Away.horizon_le (h : Away j c c') : (c.view j).horizon ≤ (c'.view j).horizon := by
  have hpre : (c'.view j).pre = (c.view j).pre := h.events (.precharge j) rfl
  rw [RankView.horizon, RankView.horizon, hpre]
  cases (c.view j).pre with
  | none => exact h.now
  | some t => exact le_rfl

lemma Away.spaced (h : Away j c c') (hs : (c.view j).Spaced p) : (c'.view j).Spaced p := by
  refine hs.widen h.widened h.acts (fun x hx => ?_) h.horizon_le
  rwa [← show (c'.view j).act = (c.view j).act from h.events (.activate j) rfl]

lemma Away.free (h : Away j c c') (hf : (c.view j).Free p) : (c'.view j).Free p := by
  intro i
  have hle := h.horizon_le
  have hact : ((c'.view j).rank.banks i).actAllowedAt = ((c.view j).rank.banks i).actAllowedAt :=
    h.act i
  have hfree := hf i
  rw [hact, RankView.lastEnd, h.acts]
  change _ ≤ max _ ((c.view j).lastEnd p)
  omega

/-- Columns and precharges are held back; the bus may change. -/
structure Columns (c c' : Channel) : Prop where
  now : c'.now = c.now
  agenda : c'.agenda = c.agenda
  activations : c'.activations = c.activations
  states : ∀ j, Rank.SameStates (c.ranks j) (c'.ranks j)
  widened : ∀ j, RankView.Widened (c.ranks j) (c'.ranks j)
  act : ∀ j i, ((c'.ranks j).banks i).actAllowedAt = ((c.ranks j).banks i).actAllowedAt

/-- An activate or precharge that is allowed, or what comes with a column command. -/
inductive Command (p : DRAMParams) (r : ℕ) (c : Channel) : Channel → Prop
  | activate {b t preAt row : ℕ} {c' : Channel} (hnow : c.now ≤ t)
      (hallowed : ((c.ranks r).banks b).actAllowedAt ≤ t) (hpre : t + p.tRAS ≤ preAt)
      (h : BankActivated p c r b t preAt row c') : Command p r c c'
  | precharge {b t : ℕ} {c' : Channel} (hallowed : ((c.ranks r).banks b).preAllowedAt ≤ t)
      (h : BankPrecharged p c r b t c') : Command p r c c'
  | column {c' : Channel} (h : Columns c c') : Command p r c c'

lemma Columns.away (h : Columns c c') (j : ℕ) : Away j c c' where
  now := h.now.ge
  states := h.states j
  widened := h.widened j
  act := h.act j
  acts := by rw [view, view, h.activations]
  events e _ := by rw [h.agenda]
  before _ _ _ _ hq := h.agenda ▸ hq

lemma BankActivated.now (h : BankActivated p c r b t preAt row c') :
    c'.now = c.now := by rw [h.rest]

lemma BankActivated.activations (h : BankActivated p c r b t preAt row c') :
    c'.activations = ⟨r, b, t⟩ :: c.activations := by rw [h.rest]

lemma BankPrecharged.now (h : BankPrecharged p c r b t c') : c'.now = c.now := by rw [h.rest]

lemma BankPrecharged.activations (h : BankPrecharged p c r b t c') :
    c'.activations = c.activations := by rw [h.rest]

def CommandEvent (r : ℕ) (e : DRAMEvent) : Prop := e = .activate r ∨ e = .precharge r

lemma BankActivated.sets (h : BankActivated p c r b t preAt row c') :
    c.agenda.SetsFrom c.now (CommandEvent r) c'.agenda := by
  rcases h.event with ⟨hle, -, heq⟩ | ⟨t', -, -, heq⟩
  · rw [heq]
    exact .single hle (Or.inl rfl)
  · rw [heq]
    exact .refl _

lemma BankPrecharged.sets (h : BankPrecharged p c r b t c') :
    c.agenda.SetsFrom c.now (CommandEvent r) c'.agenda := by
  rcases h.event with ⟨hle, -, heq⟩ | ⟨t', -, -, heq⟩
  · rw [heq]
    exact .single hle (Or.inr rfl)
  · rw [heq]
    exact .refl _

lemma Command.now (h : Command p r c c') : c'.now = c.now := by
  cases h with
  | activate _ _ _ h => exact h.now
  | precharge _ h => exact h.now
  | column h => exact h.now

lemma Command.sets (h : Command p r c c') : c.agenda.SetsFrom c.now (CommandEvent r) c'.agenda := by
  cases h with
  | activate _ _ _ h => exact h.sets
  | precharge _ h => exact h.sets
  | column h => exact h.agenda ▸ .refl _

lemma Command.states (h : Command p r c c') : Rank.SameStates (c.ranks r) (c'.ranks r) := by
  cases h with
  | activate _ _ _ h => exact h.rank.states
  | precharge _ h => exact h.rank.states
  | column h => exact h.states r

lemma not_ofRank_of_commandEvent (hj : j ≠ r) (e : DRAMEvent) (he : CommandEvent r e) :
    ¬ e.ofRank j := by
  rcases he with rfl | rfl
  · exact hj.symm
  · exact hj.symm

lemma Command.away (h : Command p r c c') (hj : j ≠ r) : Away j c c' := by
  have hE := not_ofRank_of_commandEvent hj
  cases h with
  | activate _ _ _ h =>
    refine away_of_eq h.now.ge (h.others j hj) ?_ h.sets hE
    simp [view, h.activations, Ne.symm hj]
  | precharge _ h =>
    refine away_of_eq h.now.ge (h.others j hj) ?_ h.sets hE
    rw [view, view, h.activations]
  | column h => exact h.away j

/-! ### What commands keep -/

section

variable (h : BankActivated p c r b t preAt row c')

include h

lemma BankActivated.acts : (c'.view r).acts = ⟨r, b, t⟩ :: (c.view r).acts := by
  simp [view, h.activations]

lemma BankActivated.horizon_eq : (c'.view r).horizon = (c.view r).horizon := by
  have hpre : (c'.view r).pre = (c.view r).pre := by
    rcases h.event with ⟨-, -, heq⟩ | ⟨t', -, -, heq⟩
    · change c'.agenda.when? _ = _
      rw [heq, Agenda.when?_set, if_neg (by simp)]
      rfl
    · change c'.agenda.when? _ = _
      rw [heq]
      rfl
  rw [RankView.horizon, RankView.horizon, hpre]
  exact congrArg _ h.now

lemma BankActivated.when?_le : ∃ x ≤ t, c'.agenda.when? (.activate r) = some x ∧
      ∀ y, c.agenda.when? (.activate r) = some y → x ≤ y := by
  rcases h.event with ⟨-, hearlier, heq⟩ | ⟨t', hle, ht', heq⟩
  · refine ⟨t, le_rfl, ?_, fun y hy => (hearlier y hy).le⟩
    rw [heq, Agenda.when?_set, if_pos rfl]
  · refine ⟨t', hle, heq ▸ ht', fun y hy => ?_⟩
    exact (Option.some.inj (ht'.symm.trans hy)).le

end

lemma BankPrecharged.acts (h : BankPrecharged p c r b t c') :
    (c'.view r).acts = (c.view r).acts := by
  rw [view, view, h.activations]

lemma BankPrecharged.act_eq (h : BankPrecharged p c r b t c') :
    c'.agenda.when? (.activate r) = c.agenda.when? (.activate r) := by
  rcases h.event with ⟨-, -, heq⟩ | ⟨t', -, -, heq⟩
  · rw [heq, Agenda.when?_set, if_neg (by simp)]
  · rw [heq]

lemma BankPrecharged.le_when? (h : BankPrecharged p c r b t c') :
    ∃ x, t + p.tRP ≤ x ∧ c'.agenda.when? (.precharge r) = some x ∧ (c.view r).horizon ≤ x ∧
      (x = t + p.tRP ∨ c.agenda.when? (.precharge r) = some x) := by
  rcases h.event with ⟨hle, hlater, heq⟩ | ⟨t', hle, ht', heq⟩
  · refine ⟨t + p.tRP, le_rfl, ?_, ?_, Or.inl rfl⟩
    · rw [heq, Agenda.when?_set, if_pos rfl]
    · cases hpre : c.agenda.when? (.precharge r) with
      | none =>
        change (c.agenda.when? (.precharge r)).getD c.now ≤ _
        rw [hpre]
        exact hle
      | some x =>
        change (c.agenda.when? (.precharge r)).getD c.now ≤ _
        rw [hpre]
        exact (hlater x hpre).le
  · refine ⟨t', hle, heq ▸ ht', ?_, Or.inr ht'⟩
    change (c.agenda.when? (.precharge r)).getD c.now ≤ _
    rw [ht']
    exact le_rfl

lemma horizon_of_when? {x : ℕ} (h : c.agenda.when? (.precharge r) = some x) :
    (c.view r).horizon = x := by
  change (c.agenda.when? (.precharge r)).getD c.now = x
  rw [h]
  rfl

lemma Command.spaced (h : Command p r c c') (hs : (c.view r).Spaced p) : (c'.view r).Spaced p := by
  cases h with
  | activate _ hallowed hpre h =>
    obtain ⟨x, hx, hwhen, -⟩ := h.when?_le
    refine hs.activate h.rank hpre hallowed h.acts fun y hy => ?_
    exact (Option.some.inj (hwhen.symm.trans hy)) ▸ hx
  | precharge hallowed h =>
    obtain ⟨x, hx, hwhen, hle, -⟩ := h.le_when?
    have hhorizon := horizon_of_when? hwhen
    exact hs.precharge h.rank hallowed h.acts h.act_eq (hhorizon ▸ hle) (hhorizon ▸ hx)
  | column h => exact (h.away r).spaced hs

lemma Command.free (hp : p.Regular) (h : Command p r c c') (hs : (c.view r).Spaced p)
    (hf : (c.view r).Free p) : (c'.view r).Free p := by
  have hs' := h.spaced hs
  cases h with
  | activate _ hallowed hpre h =>
    exact hf.activate hp hs h.rank hs'.toRecorded hallowed h.acts h.horizon_eq.ge
  | precharge hallowed h =>
    obtain ⟨x, hx, hwhen, hle, -⟩ := h.le_when?
    have hhorizon := horizon_of_when? hwhen
    exact hf.precharge h.rank h.acts (hhorizon ▸ hle) (hhorizon ▸ hx)
  | column h => exact (h.away r).free hf

lemma Command.before (h : Command p r c c') (hq : c.agenda.Before (.activate r) (.refresh r)) :
    c'.agenda.Before (.activate r) (.refresh r) := by
  cases h with
  | activate _ _ _ h =>
    rcases h.event with ⟨-, hearlier, heq⟩ | ⟨t', -, -, heq⟩
    · rw [heq]
      obtain ⟨x, hx⟩ := hq.exists_when?
      refine Agenda.before_set fun y hy => ?_
      exact (hearlier x hx).le.trans (hq.le (by simp) hx hy)
    · rwa [heq]
  | precharge _ h =>
    rcases h.event with ⟨-, -, heq⟩ | ⟨t', -, -, heq⟩
    · rw [heq]
      exact hq.set (by simp) (by simp)
    · rwa [heq]
  | column h => rwa [h.agenda]

def Settled (c : Channel) (r : ℕ) : Prop :=
  (c.ranks r).numBanksActive = 0 → c.agenda.when? (.precharge r) ≠ none

lemma BankActivated.settled (h : BankActivated p c r b t preAt row c') : c'.Settled r := by
  intro hzero
  have hactive := h.rank.active
  omega

lemma BankPrecharged.settled (h : BankPrecharged p c r b t c') : c'.Settled r := by
  obtain ⟨x, -, hwhen, -⟩ := h.le_when?
  intro _ hnone
  rw [hwhen] at hnone
  cases hnone

lemma Command.settled (h : Command p r c c') (hs : c.Settled r) : c'.Settled r := by
  cases h with
  | activate _ _ _ h => exact h.settled
  | precharge _ h => exact h.settled
  | column h =>
    rw [Settled, (h.widened r).active, h.agenda]
    exact hs

lemma Command.activate_le (h : Command p r c c') {x : ℕ}
    (hx : ∃ y ≤ x, c.agenda.when? (.activate r) = some y) :
    ∃ y ≤ x, c'.agenda.when? (.activate r) = some y := by
  obtain ⟨y, hy, hwhen⟩ := hx
  cases h with
  | activate _ _ _ h =>
    obtain ⟨z, -, hz, hle⟩ := h.when?_le
    exact ⟨z, (hle y hwhen).trans hy, hz⟩
  | precharge _ h => exact ⟨y, hy, h.act_eq.trans hwhen⟩
  | column h => exact ⟨y, hy, h.agenda ▸ hwhen⟩

/-! ### Accesses -/

def Commands (p : DRAMParams) (r : ℕ) : Channel → Channel → Prop :=
  Relation.ReflTransGen (Command p r)

lemma Commands.induct {P : Channel → Prop} (hstep : ∀ c c', Command p r c c' → P c → P c')
    (h : Commands p r c c') (hc : P c) : P c' := by
  induction h with
  | refl => exact hc
  | tail _ hcommand ih => exact hstep _ _ hcommand ih

section

variable (h : Commands p r c c')

include h

lemma Commands.now : c'.now = c.now :=
  h.induct (P := fun c' => c'.now = c.now) (fun _ _ hc hnow => hc.now.trans hnow) rfl

lemma Commands.sets : c.agenda.SetsFrom c.now (CommandEvent r) c'.agenda := by
  refine (h.induct (P := fun c' => c'.now = c.now ∧
    c.agenda.SetsFrom c.now (CommandEvent r) c'.agenda) (fun c₁ c₂ hc h₁ => ?_) ⟨rfl, .refl _⟩).2
  exact ⟨hc.now.trans h₁.1, h₁.2.trans (h₁.1 ▸ hc.sets)⟩

lemma Commands.states : Rank.SameStates (c.ranks r) (c'.ranks r) :=
  h.induct (P := fun c' => Rank.SameStates (c.ranks r) (c'.ranks r))
    (fun _ _ hc hstates => hstates.trans hc.states) (.refl _)

lemma Commands.away (hj : j ≠ r) : Away j c c' :=
  h.induct (P := Away j c) (fun _ _ hc haway => haway.trans (hc.away hj)) (.refl j c)

lemma Commands.spaced (hs : (c.view r).Spaced p) : (c'.view r).Spaced p :=
  h.induct (P := fun c' => (c'.view r).Spaced p) (fun _ _ => Command.spaced) hs

end

lemma Commands.free (hp : p.Regular) (h : Commands p r c c') (hs : (c.view r).Spaced p)
    (hf : (c.view r).Free p) : (c'.view r).Free p :=
  (h.induct (P := fun c' => (c'.view r).Spaced p ∧ (c'.view r).Free p)
    (fun _ _ hc hv => ⟨hc.spaced hv.1, hc.free hp hv.1 hv.2⟩) ⟨hs, hf⟩).2

lemma commands_closePage (h : c.closePage p r b = .ok c') : Commands p r c c' := by
  rcases closePage_ok h with ⟨-, rfl⟩ | h
  · exact .refl
  · exact .single (.precharge (le_max_left _ _) h)

lemma columns_columnCommand (p : DRAMParams) (c : Channel) (d : DRAMPacket) (cmdAt readyTime : ℕ) :
    Columns c (c.columnCommand p d cmdAt readyTime) := by
  have hbank : ∀ j i, (((c.columnCommand p d cmdAt readyTime).ranks j).banks i).openRow =
        ((c.ranks j).banks i).openRow ∧
      ((c.ranks j).banks i).preAllowedAt ≤
        (((c.columnCommand p d cmdAt readyTime).ranks j).banks i).preAllowedAt ∧
      (((c.columnCommand p d cmdAt readyTime).ranks j).banks i).actAllowedAt =
        ((c.ranks j).banks i).actAllowedAt := by
    intro j i
    rw [columnCommand, countAccess]
    by_cases hj : j = d.rank
    · subst hj
      by_cases hi : i = d.bank
      · subst hi
        simp [spaceColumns, Rank.modifyBank, Rank.mapBanks]
      · simp [spaceColumns, Rank.modifyBank, Rank.mapBanks, hi]
    · rw [ranks_setRank_of_ne _ _ hj]
      exact ⟨rfl, le_rfl, rfl⟩
  have hrank : ∀ j, Rank.SameStates (c.ranks j) ((c.columnCommand p d cmdAt readyTime).ranks j) ∧
      ((c.columnCommand p d cmdAt readyTime).ranks j).actTicks = (c.ranks j).actTicks ∧
      ((c.columnCommand p d cmdAt readyTime).ranks j).numBanksActive =
        (c.ranks j).numBanksActive := by
    intro j
    rw [columnCommand, countAccess]
    by_cases hj : j = d.rank
    · subst hj
      rw [ranks_setRank_self]
      exact ⟨⟨rfl, rfl, rfl, rfl⟩, rfl, rfl⟩
    · rw [ranks_setRank_of_ne _ _ hj]
      exact ⟨⟨rfl, rfl, rfl, rfl⟩, rfl, rfl⟩
  refine ⟨rfl, rfl, rfl, fun j => (hrank j).1, fun j => ?_, fun j i => (hbank j i).2.2⟩
  exact ⟨(hrank j).2.1, (hrank j).2.2, fun i => (hbank j i).1, fun i => (hbank j i).2.1,
    fun i => (hbank j i).2.2.ge⟩

lemma columns_of_ranks (hnow : c'.now = c.now) (hagenda : c'.agenda = c.agenda)
    (hactivations : c'.activations = c.activations) (hranks : c'.ranks = c.ranks) : Columns c c' :=
  ⟨hnow, hagenda, hactivations, fun _ => hranks ▸ .refl _, fun _ => hranks ▸ widened_refl _,
    fun _ _ => by rw [hranks]⟩

lemma commands_openPage (h : c.openPage p d = .ok (c', cmdAt)) :
    Commands p d.rank c c' ∧ (((c.ranks d.rank).banks d.bank).openRow = none →
        BankActivated p c d.rank d.bank (max ((c.ranks d.rank).banks d.bank).actAllowedAt c.now)
          (max ((c.ranks d.rank).banks d.bank).actAllowedAt c.now + p.tRAS) d.row c') := by
  rcases openPage_ok h with ⟨hhit, rfl, -⟩ | ⟨c₁, hclose, hact, -⟩
  · exact ⟨.refl, fun hclosed => by rw [hclosed] at hhit; cases hhit⟩
  · have hactivated := activateBank_ok hact
    refine ⟨(commands_closePage hclose).tail
      (.activate (le_max_right _ _) (le_max_left _ _) le_rfl hactivated), fun hclosed => ?_⟩
    rcases closePage_ok hclose with ⟨-, rfl⟩ | hpre
    · exact hactivated
    · exact absurd hclosed hpre.rank.opened

lemma commands_doBurst (h : c.doBurst p d behind = .ok (c', t)) :
    ∃ c₁ cmdAt, c.openPage p d = .ok (c₁, cmdAt) ∧ Commands p d.rank c₁ c' := by
  obtain ⟨c₁, cmdAt₁, cmdAt, c₂, hopen, -, -, hauto, rfl⟩ := doBurst_ok h
  have hcolumn : Command p d.rank c₁ (c₁.columnCommand p d cmdAt t) :=
    .column (columns_columnCommand p c₁ d cmdAt t)
  refine ⟨c₁, cmdAt₁, hopen, .tail (b := c₂) ?_ (.column (columns_of_ranks rfl rfl rfl rfl))⟩
  rcases hauto with rfl | hpre
  · exact .single hcolumn
  · exact .tail (.single hcolumn) (.precharge (le_max_right _ _) hpre)

lemma commands_doCycle {y : Cycle} (h : c.doCycle p r b t y = .ok c') (hnow : c.now ≤ t)
    (hallowed : ((c.ranks r).banks b).actAllowedAt ≤ t) :
    Commands p r c c' ∧ t + p.tRAS + p.tRP ≤ ((c'.ranks r).banks b).actAllowedAt ∧
      (∃ x ≤ t, c'.agenda.when? (.activate r) = some x) ∧ c'.Settled r := by
  obtain ⟨c₀, preAt, row, hpre, -, hact, hprecharge⟩ := doCycle_ok h
  have hfirst : Command p r c c₀ := .activate hnow hallowed hpre hact
  have hsecond : Command p r c₀ c' :=
    .precharge (by rw [hact.rank.preAllowedAt, if_pos rfl]) hprecharge
  refine ⟨.tail (.single hfirst) hsecond, ?_, ?_, hprecharge.settled⟩
  · -- the bank is not activated again before it has been precharged
    rw [hprecharge.rank.actAllowedAt, if_pos rfl]
    exact le_max_of_le_right (by omega)
  · obtain ⟨x, hx, hwhen, -⟩ := hact.when?_le
    exact hsecond.activate_le ⟨x, hx, hwhen⟩

/-- The cycles of a row op; the first activate is `tRAS + tRP` before the end. -/
lemma commands_doCycles {l : List Cycle} (hnow : c.now ≤ t)
    (hallowed : ((c.ranks r).banks b).actAllowedAt ≤ t)
    (h : c.doCycles p r b t l = .ok (c', cmdAt)) :
    Commands p r c c' ∧ t ≤ cmdAt ∧ (l ≠ [] → t + p.tRAS + p.tRP ≤ cmdAt ∧
      (∃ x ≤ t, c'.agenda.when? (.activate r) = some x) ∧ c'.Settled r) := by
  induction l generalizing c t with
  | nil =>
    cases h
    exact ⟨.refl, le_rfl, fun hne => absurd rfl hne⟩
  | cons y l ih =>
    obtain ⟨c₁, hcycle, h⟩ := bind_ok h
    obtain ⟨hcycle, hnext, hact, hsettled⟩ := commands_doCycle hcycle hnow hallowed
    have hnow₁ := hcycle.now
    obtain ⟨hcommands, hle, -⟩ := ih (by omega) le_rfl h
    refine ⟨hcycle.trans hcommands, by omega, fun _ => ⟨by omega, ?_, ?_⟩⟩
    · exact hcommands.induct (fun _ _ hc => hc.activate_le) hact
    · exact hcommands.induct (fun _ _ hc => hc.settled) hsettled

lemma commands_doRowOp (h : c.doRowOp p d op = .ok (c', t)) :
    Commands p d.rank c c' ∧ c'.Settled d.rank := by
  obtain ⟨c₁, c₂, cmdAt, hclose, hcycles, -, rfl⟩ := doRowOp_ok h
  have hfirst := commands_closePage hclose
  have hnow := hfirst.now
  obtain ⟨hcommands, -, hne⟩ := commands_doCycles (by omega) (le_max_right _ _) hcycles
  exact ⟨(hfirst.trans hcommands).tail (.column (columns_of_ranks rfl rfl rfl rfl)),
    (hne (cycles_ne_nil d op)).2.2⟩

/-- **The next request event is behind a row op's first activate.** -/
lemma activate_doRowOp (hp : p.Regular) (h : c.doRowOp p d op = .ok (c', t)) :
    c'.activeRank = d.rank ∧ ∃ x < c'.nextReqTime, c'.agenda.when? (.activate d.rank) = some x := by
  obtain ⟨c₁, c₂, cmdAt, hclose, hcycles, rfl, rfl⟩ := doRowOp_ok h
  have hnow := (commands_closePage hclose).now
  obtain ⟨-, -, hne⟩ := commands_doCycles (by omega) (le_max_right _ _) hcycles
  obtain ⟨hend, ⟨x, hx, hwhen⟩, -⟩ := hne (cycles_ne_nil d op)
  refine ⟨rfl, x, ?_, hwhen⟩
  have hrcd := hp.rcd
  have hprep : p.prepTime = p.tRP + p.tRCD + p.tCL := rfl
  change x < tickSub (cmdAt + p.tCL) p.prepTime
  rw [tickSub_of_le (by omega)]
  omega

/-- **An access is a sequence of commands to its rank.** -/
lemma commands_doDRAMAccess
    (h : c.doDRAMAccess p d behind = .ok (c', t)) : Commands p d.rank c c' := by
  rw [doDRAMAccess] at h
  split at h
  · exact (commands_doRowOp h).1
  · obtain ⟨c₁, cmdAt, hopen, hcommands⟩ := commands_doBurst h
    exact (commands_openPage hopen).1.trans hcommands

end Channel

end ShifDram
