import ShifDram.Control.Fallible
import ShifDram.Dram.Device

/-!
What the bank commands do to a rank.

`activateBank` and `aapBank` differ in the row, the precharge and column times and the sanity
check of the window; `Activated` says for both what is the same.
-/

namespace ShifDram

open Fallible

namespace Rank

variable {p : DRAMParams} {k k' : Rank} {b t row : ℕ} {preAt : ℕ}

structure SameStates (k k' : Rank) : Prop where
  pwrStateTrans : k'.pwrStateTrans = k.pwrStateTrans
  pwrState : k'.pwrState = k.pwrState
  refreshState : k'.refreshState = k.refreshState
  refreshDueAt : k'.refreshDueAt = k.refreshDueAt

lemma SameStates.refl (k : Rank) : SameStates k k := ⟨rfl, rfl, rfl, rfl⟩

lemma SameStates.trans {k₁ k₂ k₃ : Rank} (h : SameStates k₁ k₂) (h' : SameStates k₂ k₃) :
    SameStates k₁ k₃ :=
  ⟨h'.1.trans h.1, h'.2.trans h.2, h'.3.trans h.3, h'.4.trans h.4⟩

/-- Until when a full window holds back an activate. -/
def windowEnd (p : DRAMParams) (k : Rank) : ℕ := if k.oldest = 0 then 0 else k.oldest + p.tXAW

/-- An activate of `b` at `t` that allows a precharge at `preAt`. -/
structure Activated (p : DRAMParams) (k : Rank) (b t preAt row : ℕ) (k' : Rank) : Prop where
  states : SameStates k k'
  closed : (k.banks b).openRow = none
  active : k'.numBanksActive = k.numBanksActive + 1
  openRow : ∀ i, (k'.banks i).openRow = if i = b then some row else (k.banks i).openRow
  preAllowedAt : ∀ i, (k'.banks i).preAllowedAt = if i = b then preAt else (k.banks i).preAllowedAt
  le_col : ∀ i, (k.banks i).colAllowedAt ≤ (k'.banks i).colAllowedAt
  col_le : ∀ i, (k'.banks i).colAllowedAt ≤ max (k.banks i).colAllowedAt (t + p.tRCD)
  actTicks : k'.actTicks = (t :: k.actTicks).dropLast
  le_act : ∀ i, (k.banks i).actAllowedAt ≤ (k'.banks i).actAllowedAt
  delay_le_act : ∀ i, t + p.actDelay b i ≤ (k'.banks i).actAllowedAt
  window_le_act : ∀ i, k'.oldest ≠ 0 → k'.oldest ≤ t →
    k'.oldest + p.tXAW ≤ max (k'.banks i).actAllowedAt t
  act_le : ∀ i, (k'.banks i).actAllowedAt ≤
    max (max (t + p.actDelay b i) (k.banks i).actAllowedAt) (k'.windowEnd p)

/-- The rank after a precharge of bank `b` at tick `t`. -/
structure Precharged (p : DRAMParams) (k : Rank) (b t : ℕ) (k' : Rank) : Prop where
  states : SameStates k k'
  opened : (k.banks b).openRow ≠ none
  active : k.numBanksActive = k'.numBanksActive + 1
  openRow : ∀ i, (k'.banks i).openRow = if i = b then none else (k.banks i).openRow
  preAllowedAt : ∀ i, (k'.banks i).preAllowedAt = if i = b then t else (k.banks i).preAllowedAt
  colAllowedAt : ∀ i, (k'.banks i).colAllowedAt = (k.banks i).colAllowedAt
  actTicks : k'.actTicks = k.actTicks
  actAllowedAt : ∀ i, (k'.banks i).actAllowedAt =
    if i = b then max (k.banks i).actAllowedAt (t + p.tRP) else (k.banks i).actAllowedAt

lemma precharged_precharge (h : k.precharge p b t = .ok k') : Precharged p k b t k' := by
  rw [precharge] at h
  split_ifs at h with hopen hnone
  cases h
  refine ⟨⟨rfl, rfl, rfl, rfl⟩, hopen, ?_, fun i => ?_, fun i => ?_, fun i => ?_, rfl, fun i => ?_⟩
  · change k.numBanksActive = k.numBanksActive - 1 + 1
    omega
  all_goals
    by_cases hi : i = b
    · subst hi
      simp [modifyBank]
    · simp [modifyBank, hi]

/-- Before the window is looked at: a row opened, `tRRD` enforced. -/
structure Opened (p : DRAMParams) (k : Rank) (b t preAt row : ℕ) (k' : Rank) : Prop where
  states : SameStates k k'
  closed : (k.banks b).openRow = none
  active : k'.numBanksActive = k.numBanksActive + 1
  openRow : ∀ i, (k'.banks i).openRow = if i = b then some row else (k.banks i).openRow
  preAllowedAt : ∀ i, (k'.banks i).preAllowedAt = if i = b then preAt else (k.banks i).preAllowedAt
  le_col : ∀ i, (k.banks i).colAllowedAt ≤ (k'.banks i).colAllowedAt
  col_le : ∀ i, (k'.banks i).colAllowedAt ≤ max (k.banks i).colAllowedAt (t + p.tRCD)
  actTicks : k'.actTicks = k.actTicks
  actAllowedAt : ∀ i, (k'.banks i).actAllowedAt =
    max (t + p.actDelay b i) (k.banks i).actAllowedAt

/-- A row is opened, and `f` sets its bank's times. -/
lemma opened_openBank {f : Bank → Bank} (h : k.openBank p b row = .ok k')
    (hrow : ∀ bank, (f bank).openRow = bank.openRow)
    (hpre : ∀ bank, (f bank).preAllowedAt = preAt)
    (hact : ∀ bank, (f bank).actAllowedAt = bank.actAllowedAt)
    (hcol : ∀ bank, bank.colAllowedAt ≤ (f bank).colAllowedAt ∧
      (f bank).colAllowedAt ≤ max bank.colAllowedAt (t + p.tRCD)) :
    Opened p k b t preAt row ((k'.modifyBank b f).enforceRRD p b t) := by
  rw [openBank] at h
  split_ifs at h with hopen hmany
  cases h
  have hclosed : (k.banks b).openRow = none := by simpa using hopen
  obtain ⟨hcol₁, hcol₂⟩ := hcol { k.banks b with openRow := some row, rowAccesses := 0 }
  refine ⟨⟨rfl, rfl, rfl, rfl⟩, hclosed, rfl, fun i => ?_, fun i => ?_, fun i => ?_, fun i => ?_,
    rfl, fun i => ?_⟩
  all_goals
    by_cases hi : i = b
    · subst hi
      simp [enforceRRD, mapBanks, modifyBank, hrow, hpre, hact, hcol₁, hcol₂]
    · simp [enforceRRD, mapBanks, modifyBank, hi]

lemma actTicks_record (k : Rank) (t : ℕ) (h : k.actTicks ≠ []) :
    (k.record t).actTicks = (t :: k.actTicks).dropLast := by
  rw [record, List.dropLast_cons_of_ne_nil h]

/-- The window moves on and, if full, holds back the next activate. -/
lemma Opened.activated {k₁ : Rank} (h : Opened p k b t preAt row k₁)
    (hticks : k'.actTicks = (t :: k₁.actTicks).dropLast)
    (hrest : k' = { k₁ with actTicks := k'.actTicks } ∧ (k'.oldest ≠ 0 → k'.oldest ≤ t →
        k'.oldest + p.tXAW ≤ t) ∨
      k'.oldest ≠ 0 ∧
        k' = ({ k₁ with actTicks := k'.actTicks } : Rank).notBefore (k'.oldest + p.tXAW)) :
    Activated p k b t preAt row k' := by
  have hticks' : k'.actTicks = (t :: k.actTicks).dropLast := by rw [hticks, h.actTicks]
  rcases hrest with ⟨heq, hwindow⟩ | ⟨hne, heq⟩
  · have hbanks : k'.banks = k₁.banks := by rw [heq]
    have hstates : SameStates k₁ k' := by rw [heq]; exact ⟨rfl, rfl, rfl, rfl⟩
    have hactive : k'.numBanksActive = k₁.numBanksActive := by rw [heq]
    refine ⟨h.states.trans hstates, h.closed, hactive.trans h.active, ?_, ?_, ?_, ?_, hticks',
      fun i => ?_, fun i => ?_, fun i hne hle => ?_, fun i => ?_⟩
    · rw [hbanks]; exact h.openRow
    · rw [hbanks]; exact h.preAllowedAt
    · rw [hbanks]; exact h.le_col
    · rw [hbanks]; exact h.col_le
    · rw [hbanks, h.actAllowedAt]; exact le_max_right _ _
    · rw [hbanks, h.actAllowedAt]; exact le_max_left _ _
    · exact (hwindow hne hle).trans (le_max_right _ _)
    · rw [hbanks, h.actAllowedAt]; exact le_max_left _ _
  · have hbank : ∀ i, k'.banks i = { k₁.banks i with
        actAllowedAt := max (k'.oldest + p.tXAW) (k₁.banks i).actAllowedAt } := by
      intro i
      conv_lhs => rw [heq]
      rfl
    have hstates : SameStates k₁ k' := by rw [heq]; exact ⟨rfl, rfl, rfl, rfl⟩
    have hactive : k'.numBanksActive = k₁.numBanksActive := by rw [heq]; rfl
    refine ⟨h.states.trans hstates, h.closed, hactive.trans h.active, fun i => ?_, fun i => ?_,
      fun i => ?_, fun i => ?_, hticks', fun i => ?_, fun i => ?_, fun i _ _ => ?_, fun i => ?_⟩
    · rw [hbank]; exact h.openRow i
    · rw [hbank]; exact h.preAllowedAt i
    · rw [hbank]; exact h.le_col i
    · rw [hbank]; exact h.col_le i
    · have hact := h.actAllowedAt i
      simp only [hbank i]
      omega
    · have hact := h.actAllowedAt i
      simp only [hbank i]
      omega
    · simp only [hbank i]
      omega
    · have hact := h.actAllowedAt i
      simp only [hbank i, windowEnd, if_neg hne]
      omega

lemma Opened.activated_of_nil (h : Opened p k b t preAt row k')
    (hnil : k'.actTicks = []) : Activated p k b t preAt row k' := by
  refine h.activated (by rw [hnil]; rfl) (Or.inl ⟨rfl, fun hne => absurd ?_ hne⟩)
  rw [oldest, hnil]
  rfl

/-- **`activateBank`.**  The window it moves on had room. -/
lemma activated_activate (h : k.activate p b t row = .ok k') :
    Activated p k b t (t + p.tRAS) row k' := by
  rw [activate] at h
  split_ifs at h
  obtain ⟨k₁, hopen, h⟩ := bind_ok h
  have hopened : Opened p k b t (t + p.tRAS) row _ := opened_openBank hopen
    (f := fun bank => { bank with
      preAllowedAt := t + p.tRAS, colAllowedAt := max (t + p.tRCD) bank.colAllowedAt })
    (fun _ => rfl) (fun _ => rfl) (fun _ => rfl)
    fun bank => ⟨le_max_right _ _, (max_comm _ _).le⟩
  generalize ((k₁.modifyBank b _).enforceRRD p b t) = k₂ at h hopened
  rw [enforceXAW] at h
  by_cases hnil : k₂.actTicks = []
  · rw [if_pos hnil] at h
    cases h
    exact hopened.activated_of_nil hnil
  · rw [if_neg hnil] at h
    split at h
    · cases h
    · have hticks := actTicks_record k₂ t hnil
      by_cases hfull : (k₂.record t).oldest ≠ 0 ∧ tickSub t (k₂.record t).oldest < p.tXAW
      · obtain rfl := (Except.ok.inj h).symm.trans (if_pos hfull)
        exact hopened.activated hticks (Or.inr ⟨hfull.1, rfl⟩)
      · obtain rfl := (Except.ok.inj h).symm.trans (if_neg hfull)
        refine hopened.activated hticks (Or.inl ⟨rfl, fun hne hle => ?_⟩)
        rw [tickSub_of_le hle] at hfull
        omega

lemma col_enforceXAW (h : k.enforceXAW p t = .ok k') (i : ℕ) :
    (k'.banks i).colAllowedAt = (k.banks i).colAllowedAt := by
  rw [enforceXAW] at h
  split at h
  · cases h
    rfl
  · split at h
    · cases h
    · dsimp only at h
      split at h
      · cases h
        rfl
      · cases h
        rfl

lemma rcd_le_col_activate (h : k.activate p b t row = .ok k') :
    t + p.tRCD ≤ (k'.banks b).colAllowedAt := by
  rw [activate] at h
  split_ifs at h
  obtain ⟨k₁, -, h⟩ := bind_ok h
  rw [col_enforceXAW h]
  simp [enforceRRD, mapBanks, modifyBank]

/-- **`aapBank`**, up to the precharge. -/
lemma activated_activateDouble {overlapped : Bool}
    (h : k.activateDouble p b t overlapped = .ok k') :
    Activated p k b t (t + p.tRAS + if overlapped then p.tWLOV else p.tWL) Bank.doubleRow k' := by
  obtain ⟨k₁, hopen, rfl⟩ := map_ok h
  have hopened : Opened p k b t (t + p.tRAS + if overlapped then p.tWLOV else p.tWL)
      Bank.doubleRow _ := opened_openBank hopen
    (f := fun bank => { bank with
      preAllowedAt := t + p.tRAS + if overlapped then p.tWLOV else p.tWL })
    (fun _ => rfl) (fun _ => rfl) (fun _ => rfl) fun bank => ⟨le_rfl, le_max_left _ _⟩
  generalize ((k₁.modifyBank b _).enforceRRD p b t) = k₂ at hopened ⊢
  rw [enforceXAWDouble]
  by_cases hnil : k₂.actTicks = []
  · rw [if_pos hnil]
    exact hopened.activated_of_nil hnil
  · rw [if_neg hnil]
    have hticks := actTicks_record k₂ t hnil
    by_cases hfull : (k₂.record t).oldest ≠ 0 ∧ t < (k₂.record t).oldest + p.tXAW
    · simp only [if_pos hfull]
      exact hopened.activated hticks (Or.inr ⟨hfull.1, rfl⟩)
    · simp only [if_neg hfull]
      exact hopened.activated hticks (Or.inl ⟨rfl, fun hne _ => not_lt.mp (not_and.mp hfull hne)⟩)

end Rank

namespace Channel

variable {p : DRAMParams} {c c' : Channel} {e : DRAMEvent} {r b t row : ℕ}

lemma schedule_ok (h : c.schedule e t = .ok c') :
    c.now ≤ t ∧ c.agenda.when? e = none ∧ c' = { c with agenda := c.agenda.set t e } := by
  rw [schedule] at h
  split_ifs at h with hpast hscheduled
  refine ⟨not_lt.mp hpast, ?_, (Except.ok.inj h).symm⟩
  rw [scheduled, Option.not_isSome_iff_eq_none] at hscheduled
  exact hscheduled

lemma reschedule_ok (h : c.reschedule e t = .ok c') :
    c.now ≤ t ∧ c' = { c with agenda := c.agenda.set t e } := by
  rw [reschedule] at h
  split_ifs at h with hpast
  exact ⟨not_lt.mp hpast, (Except.ok.inj h).symm⟩

/-- Schedule an event, or move it if `moves` holds of its tick. -/
lemma scheduleOrMove_ok (e : DRAMEvent) (moves : ℕ → Prop) [DecidablePred moves]
    (h : (match c.agenda.when? e with
      | none => c.schedule e t
      | some t' => if moves t' then c.reschedule e t else .ok c) = .ok c') :
    (c.now ≤ t ∧ (∀ t', c.agenda.when? e = some t' → moves t') ∧
      c' = { c with agenda := c.agenda.set t e }) ∨
    ∃ t', ¬ moves t' ∧ c.agenda.when? e = some t' ∧ c' = c := by
  split at h
  · next hnone =>
    obtain ⟨hle, -, rfl⟩ := schedule_ok h
    refine Or.inl ⟨hle, fun t' ht' => ?_, rfl⟩
    rw [hnone] at ht'
    cases ht'
  · next t' ht' =>
    split_ifs at h with hmoves
    · obtain ⟨hle, rfl⟩ := reschedule_ok h
      refine Or.inl ⟨hle, fun t'' ht'' => ?_, rfl⟩
      obtain rfl := Option.some.inj (ht'.symm.trans ht'')
      exact hmoves
    · exact Or.inr ⟨t', hmoves, ht', (Except.ok.inj h).symm⟩

/-- The rank is `Activated`, recorded, and the activate event is due. -/
structure BankActivated (p : DRAMParams) (c : Channel) (r b t preAt row : ℕ) (c' : Channel) :
    Prop where
  rank : Rank.Activated p (c.ranks r) b t preAt row (c'.ranks r)
  others : ∀ j ≠ r, c'.ranks j = c.ranks j
  rest : c' = { c with
    ranks := c'.ranks, agenda := c'.agenda, activations := ⟨r, b, t⟩ :: c.activations }
  event : (c.now ≤ t ∧ (∀ t', c.agenda.when? (.activate r) = some t' → t < t') ∧
      c'.agenda = c.agenda.set t (.activate r)) ∨
    ∃ t' ≤ t, c.agenda.when? (.activate r) = some t' ∧ c'.agenda = c.agenda

/-- The rank is `Precharged`, and the precharge event is not early. -/
structure BankPrecharged (p : DRAMParams) (c : Channel) (r b t : ℕ) (c' : Channel) : Prop where
  rank : Rank.Precharged p (c.ranks r) b t (c'.ranks r)
  others : ∀ j ≠ r, c'.ranks j = c.ranks j
  rest : c' = { c with ranks := c'.ranks, agenda := c'.agenda }
  event : (c.now ≤ t + p.tRP ∧ (∀ t', c.agenda.when? (.precharge r) = some t' → t' < t + p.tRP) ∧
      c'.agenda = c.agenda.set (t + p.tRP) (.precharge r)) ∨
    ∃ t', t + p.tRP ≤ t' ∧ c.agenda.when? (.precharge r) = some t' ∧ c'.agenda = c.agenda

@[simp] lemma ranks_setRank_self (k : Rank) : (c.setRank r k).ranks r = k := by
  simp [setRank]

lemma ranks_setRank_of_ne (c : Channel) {r j : ℕ} (k : Rank) (h : j ≠ r) :
    (c.setRank r k).ranks j = c.ranks j := by
  simp [setRank, h]

lemma bankActivated_scheduleActivate {k : Rank} {preAt : ℕ}
    (hrank : Rank.Activated p (c.ranks r) b t preAt row k)
    (h : ({ c.setRank r k with
      activations := ⟨r, b, t⟩ :: c.activations } : Channel).scheduleActivate r t = .ok c') :
    BankActivated p c r b t preAt row c' := by
  rcases scheduleOrMove_ok (.activate r) (t < ·) h with ⟨hle, hlater, rfl⟩ | ⟨t', hle, ht', rfl⟩
  · exact ⟨by simpa using hrank, fun j hj => ranks_setRank_of_ne c k hj, rfl,
      Or.inl ⟨hle, hlater, rfl⟩⟩
  · exact ⟨by simpa using hrank, fun j hj => ranks_setRank_of_ne c k hj, rfl,
      Or.inr ⟨t', not_lt.mp hle, ht', rfl⟩⟩

lemma activateBank_ok (h : c.activateBank p r b t row = .ok c') :
    BankActivated p c r b t (t + p.tRAS) row c' := by
  obtain ⟨k, hk, h⟩ := bind_ok h
  exact bankActivated_scheduleActivate (Rank.activated_activate hk) h

lemma rcd_le_col_activateBank (h : c.activateBank p r b t row = .ok c') :
    t + p.tRCD ≤ ((c'.ranks r).banks b).colAllowedAt := by
  obtain ⟨k, hk, h⟩ := bind_ok h
  have hcol := Rank.rcd_le_col_activate hk
  rcases scheduleOrMove_ok (.activate r) (t < ·) h with ⟨-, -, rfl⟩ | ⟨t', -, -, rfl⟩
  · simpa using hcol
  · simpa using hcol

lemma prechargeBank_ok (h : c.prechargeBank p r b t = .ok c') : BankPrecharged p c r b t c' := by
  obtain ⟨k, hk, h⟩ := bind_ok h
  have hrank := Rank.precharged_precharge hk
  rcases scheduleOrMove_ok (.precharge r) (· < t + p.tRP) h with
    ⟨hle, hearlier, rfl⟩ | ⟨t', hle, ht', rfl⟩
  · exact ⟨by simpa using hrank, fun j hj => ranks_setRank_of_ne c k hj, rfl,
      Or.inl ⟨hle, hearlier, rfl⟩⟩
  · exact ⟨by simpa using hrank, fun j hj => ranks_setRank_of_ne c k hj, rfl,
      Or.inr ⟨t', not_lt.mp hle, ht', rfl⟩⟩

/-- **A cycle of a row op**: activate, and precharge once allowed. -/
lemma doCycle_ok {x : Cycle} (h : c.doCycle p r b t x = .ok c') :
    ∃ c₁ preAt row, t + p.tRAS ≤ preAt ∧ preAt ≤ t + p.tRAS + p.tWLOV ∧
      BankActivated p c r b t preAt row c₁ ∧ BankPrecharged p c₁ r b preAt c' := by
  have hpre : ∀ {c₁ : Channel} {preAt row : ℕ}, BankActivated p c r b t preAt row c₁ →
      c₁.prechargeWhenAllowed p r b = .ok c' → BankPrecharged p c₁ r b preAt c' := by
    intro c₁ preAt row h₁ h
    have hat : ((c₁.ranks r).banks b).preAllowedAt = preAt := by
      rw [h₁.rank.preAllowedAt, if_pos rfl]
    rw [prechargeWhenAllowed, hat] at h
    exact prechargeBank_ok h
  cases x with
  | ap row =>
    obtain ⟨c₁, hact, h⟩ := bind_ok h
    have h₁ := activateBank_ok hact
    exact ⟨c₁, _, _, le_rfl, Nat.le_add_right _ _, h₁, hpre h₁ h⟩
  | aap row1 row2 =>
    obtain ⟨k, hk, h⟩ := bind_ok h
    obtain ⟨c₁, hact, h⟩ := bind_ok h
    have h₁ := bankActivated_scheduleActivate (Rank.activated_activateDouble hk) hact
    exact ⟨c₁, _, _, Nat.le_add_right _ _, le_rfl, h₁, hpre h₁ h⟩

variable {d : DRAMPacket}

lemma closePage_ok (h : c.closePage p r b = .ok c') :
    ((c.ranks r).banks b).openRow = none ∧ c' = c ∨
      BankPrecharged p c r b (max ((c.ranks r).banks b).preAllowedAt c.now) c' := by
  rw [closePage] at h
  split_ifs at h with hclosed
  · exact Or.inl ⟨hclosed, (Except.ok.inj h).symm⟩
  · exact Or.inr (prechargeBank_ok h)

lemma openPage_ok {cmdAt : ℕ} (h : c.openPage p d = .ok (c', cmdAt)) :
    (((c.ranks d.rank).banks d.bank).openRow = some d.row ∧ c' = c ∧
      cmdAt = max ((c.ranks d.rank).banks d.bank).colAllowedAt c.now) ∨
    ∃ c₁, c.closePage p d.rank d.bank = .ok c₁ ∧ c₁.activateBank p d.rank d.bank
        (max ((c₁.ranks d.rank).banks d.bank).actAllowedAt c₁.now) d.row = .ok c' ∧
      cmdAt = ((c'.ranks d.rank).banks d.bank).colAllowedAt := by
  rw [openPage] at h
  split_ifs at h with hhit
  · cases h
    exact Or.inl ⟨hhit, rfl, rfl⟩
  · obtain ⟨c₁, hclose, h⟩ := bind_ok h
    obtain ⟨c₂, hact, hres⟩ := map_ok h
    cases hres
    exact Or.inr ⟨c₁, hclose, hact, rfl⟩

/-- The column command of a burst, before an auto-precharge. -/
def columnCommand (p : DRAMParams) (c : Channel) (d : DRAMPacket) (cmdAt readyTime : ℕ) : Channel :=
  { (c.spaceColumns p d cmdAt).countAccess p d cmdAt readyTime with activeRank := d.rank }

/-- **A burst**: its row is opened, the command waits for the bus, the bank may be precharged. -/
lemma doBurst_ok {behind : List DRAMPacket} (h : c.doBurst p d behind = .ok (c', t)) :
    ∃ c₁ cmdAt₁ cmdAt c₂, c.openPage p d = .ok (c₁, cmdAt₁) ∧
      cmdAt = max cmdAt₁ (tickSub c₁.busBusyUntil p.tCL) ∧ t = cmdAt + p.tCL + p.tBURST ∧
      (c₂ = c₁.columnCommand p d cmdAt t ∨
        BankPrecharged p (c₁.columnCommand p d cmdAt t) d.rank d.bank
          (max c₁.now
            (((c₁.columnCommand p d cmdAt t).ranks d.rank).banks d.bank).preAllowedAt) c₂) ∧
      c' = { c₂ with
        busBusyUntil := t, nextReqTime := tickSub t p.prepTime, bursts := t :: c₂.bursts } := by
  obtain ⟨⟨c₁, cmdAt₁⟩, hopen, h⟩ := bind_ok h
  dsimp only at h
  split at h
  · cases h
  · obtain ⟨c₂, hauto, hres⟩ := map_ok h
    cases hres
    refine ⟨c₁, cmdAt₁, _, c₂, hopen, rfl, rfl, ?_, rfl⟩
    split at hauto
    · exact Or.inr (prechargeBank_ok hauto)
    · exact Or.inl (Except.ok.inj hauto).symm

/-- **A row op**: its bank is closed, and the cycles follow. -/
lemma doRowOp_ok {op : RowOp} (h : c.doRowOp p d op = .ok (c', t)) :
    ∃ c₁ c₂ cmdAt, c.closePage p d.rank d.bank = .ok c₁ ∧ c₁.doCycles p d.rank d.bank
        (max (max ((c.ranks d.rank).banks d.bank).colAllowedAt c.now)
          ((c₁.ranks d.rank).banks d.bank).actAllowedAt) (d.cycles op) = .ok (c₂, cmdAt) ∧
      t = cmdAt + p.tCL ∧
      c' = { c₂ with
        activeRank := d.rank, busBusyUntil := t, nextReqTime := tickSub t p.prepTime } := by
  obtain ⟨c₁, hclose, h⟩ := bind_ok h
  obtain ⟨⟨c₂, cmdAt⟩, hcycles, hres⟩ := map_ok h
  cases hres
  exact ⟨c₁, c₂, cmdAt, hclose, hcycles, rfl, rfl⟩

lemma cycles_ne_nil (d : DRAMPacket) (op : RowOp) : d.cycles op ≠ [] := by
  cases op <;> exact List.cons_ne_nil _ _

end Channel

end ShifDram
