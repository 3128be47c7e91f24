import ShifDram.Dram.Aborts
import ShifDram.Dram.RowOpOrder
import ShifDram.Dram.WriteQueue

/-!
Open rows and the count of active banks.

Accesses, page policies, row ops and refreshes open and close rows, and each adjusts
`numBanksActive`; a row op does so up to seven times, mostly on two rows at once (`DOUBLE_ROW`).
-/

namespace ShifDram

open Fallible Option Finset

def Abort.aboutRows : Abort → Bool
  | .bankOpen | .tooManyActive | .bankClosed | .noneActive => true
  | _ => false

lemma Abort.aboutRows_eq_false {e : Abort} (h : e.kind ≠ .bank) : e.aboutRows = false := by
  cases e <;> first | rfl | exact absurd rfl h

/-- No assertion about open rows fails; the result is in `Q`. -/
def KeepsRows {α : Type*} (Q : α → Prop) (x : Except Abort α) : Prop :=
  Meets (fun e => e.aboutRows = false) Q x

lemma Fails.keepsRows {α : Type*} {kinds : List Abort.Kind} {x : Except Abort α} {Q : α → Prop}
    (h : Fails kinds x) (hbank : .bank ∉ kinds) (hok : ∀ a, x = .ok a → Q a) : KeepsRows Q x :=
  meets_iff.mpr ⟨FailsWith.mono h fun _ he =>
    Abort.aboutRows_eq_false fun hkind => hbank (hkind ▸ he), hok⟩

/-! ### A rank -/

namespace Rank

variable {p : DRAMParams} {k k' : Rank} {b t preAt row : ℕ}

/-- The banks whose `openRow` is not `NO_ROW`. -/
def openBanks (p : DRAMParams) (k : Rank) : Finset ℕ :=
  (range p.banksPerRank).filter fun b => (k.banks b).openRow ≠ none

/-- `numBanksActive` is the number of open banks. -/
def Counted (p : DRAMParams) (k : Rank) : Prop := k.numBanksActive = (k.openBanks p).card

lemma mem_openBanks : b ∈ k.openBanks p ↔ b < p.banksPerRank ∧ (k.banks b).openRow ≠ none := by
  rw [openBanks, mem_filter, mem_range]

section

variable (h : Counted p k)

include h

lemma Counted.congr (hactive : k'.numBanksActive = k.numBanksActive)
    (hrow : ∀ b, (k'.banks b).openRow = (k.banks b).openRow) : Counted p k' := by
  rw [Counted, hactive, h, openBanks, openBanks]
  simp only [hrow]

section

variable (hb : b < p.banksPerRank)

include hb

lemma Counted.activated (hact : Activated p k b t preAt row k') : Counted p k' := by
  have hnew : b ∉ k.openBanks p := fun hmem => (mem_openBanks.mp hmem).2 hact.closed
  have hinsert : k'.openBanks p = insert b (k.openBanks p) := by
    ext i
    rw [mem_insert, mem_openBanks, mem_openBanks, hact.openRow]
    by_cases hi : i = b
    · simp [hi, hb]
    · simp [hi]
  rw [Counted, hinsert, card_insert_of_notMem hnew, hact.active, h]

lemma Counted.precharged (hpre : Precharged p k b t k') : Counted p k' := by
  have hold : b ∈ k.openBanks p := mem_openBanks.mpr ⟨hb, hpre.opened⟩
  have herase : k'.openBanks p = (k.openBanks p).erase b := by
    ext i
    rw [mem_erase, mem_openBanks, mem_openBanks, hpre.openRow]
    by_cases hi : i = b
    · simp [hi]
    · simp [hi]
  have hactive := hpre.active
  rw [h] at hactive
  rw [Counted, herase, card_erase_of_mem hold]
  omega

lemma Counted.lt (hclosed : (k.banks b).openRow = none) : k.numBanksActive < p.banksPerRank := by
  rw [h, ← card_range p.banksPerRank]
  refine card_lt_card ⟨filter_subset _ _, fun hsub => ?_⟩
  exact (mem_openBanks.mp (hsub (mem_range.mpr hb))).2 hclosed

lemma Counted.pos (hopen : (k.banks b).openRow ≠ none) : k.numBanksActive ≠ 0 := by
  rw [h, card_ne_zero]
  exact ⟨b, mem_openBanks.mpr ⟨hb, hopen⟩⟩

lemma failsWith_openBank (hclosed : (k.banks b).openRow = none) :
    FailsWith (fun e => e.aboutRows = false) (k.openBank p b row) := by
  refine .ite (fun hopen => ?_) fun _ => .when fun hmany => ?_
  · rw [hclosed] at hopen
    cases hopen
  · have hlt := h.lt hb hclosed
    omega

end

end

end Rank

namespace Channel

variable {p : DRAMParams} {c c' c₁ c₂ : Channel} {r b t row : ℕ} {v v' : Option ℕ} {d : DRAMPacket}
  {behind : List DRAMPacket}

def Counts (p : DRAMParams) (c : Channel) : Prop := ∀ r, (c.ranks r).Counted p

/-- Between operations the count is right, and no bank is open on two rows. -/
structure AtRest (p : DRAMParams) (c : Channel) : Prop where
  counts : Counts p c
  single : ∀ r b, ((c.ranks r).banks b).openRow ≠ some Bank.doubleRow

lemma AtRest.congr (h : AtRest p c)
    (hactive : ∀ r, (c'.ranks r).numBanksActive = (c.ranks r).numBanksActive)
    (hrow : ∀ r b, ((c'.ranks r).banks b).openRow = ((c.ranks r).banks b).openRow) : AtRest p c' :=
  ⟨fun r => (h.counts r).congr (hactive r) (hrow r), fun r b => hrow r b ▸ h.single r b⟩

lemma AtRest.of_ranks (h : AtRest p c) (hranks : c'.ranks = c.ranks) : AtRest p c' :=
  h.congr (fun r => by rw [hranks]) fun r b => by rw [hranks]

lemma AtRest.setRank {k : Rank} (h : AtRest p c)
    (hactive : k.numBanksActive = (c.ranks r).numBanksActive)
    (hrow : ∀ b, (k.banks b).openRow = ((c.ranks r).banks b).openRow) :
    AtRest p (c.setRank r k) := by
  refine h.congr (fun j => ?_) fun j b => ?_
  all_goals
    by_cases hj : j = r
    · subst hj
      rw [ranks_setRank_self]
      first | exact hactive | exact hrow b
    · rw [ranks_setRank_of_ne c k hj]

/-- The bank's open row is `v`; no other bank has changed. -/
structure RowMoved (p : DRAMParams) (r b : ℕ) (v : Option ℕ) (c c' : Channel) : Prop where
  counts : Counts p c'
  row : ((c'.ranks r).banks b).openRow = v
  others : ∀ j i, j ≠ r ∨ i ≠ b → ((c'.ranks j).banks i).openRow = ((c.ranks j).banks i).openRow

lemma RowMoved.refl (h : Counts p c) (hrow : ((c.ranks r).banks b).openRow = v) :
    RowMoved p r b v c c :=
  ⟨h, hrow, fun _ _ _ => rfl⟩

lemma RowMoved.trans (h : RowMoved p r b v c c₁) (h' : RowMoved p r b v' c₁ c₂) :
    RowMoved p r b v' c c₂ :=
  ⟨h'.counts, h'.row, fun j i hne => (h'.others j i hne).trans (h.others j i hne)⟩

lemma RowMoved.atRest (h : AtRest p c) (hturned : RowMoved p r b v c c')
    (hv : v ≠ some Bank.doubleRow) : AtRest p c' := by
  refine ⟨hturned.counts, fun j i => ?_⟩
  by_cases hbank : j = r ∧ i = b
  · obtain ⟨rfl, rfl⟩ := hbank
    rw [hturned.row]
    exact hv
  · rw [hturned.others j i (by tauto)]
    exact h.single j i

section

variable (hc : Counts p c)

include hc

lemma BankActivated.turned {preAt : ℕ} (hb : b < p.banksPerRank)
    (h : BankActivated p c r b t preAt row c') : RowMoved p r b (some row) c c' := by
  refine ⟨fun j => ?_, ?_, fun j i hne => ?_⟩
  · by_cases hj : j = r
    · exact hj ▸ (hc r).activated hb h.rank
    · exact h.others j hj ▸ hc j
  · rw [h.rank.openRow, if_pos rfl]
  · by_cases hj : j = r
    · subst hj
      rw [h.rank.openRow, if_neg (hne.resolve_left fun hne => hne rfl)]
    · rw [h.others j hj]

lemma BankPrecharged.turned (hb : b < p.banksPerRank) (h : BankPrecharged p c r b t c') :
    RowMoved p r b none c c' := by
  refine ⟨fun j => ?_, ?_, fun j i hne => ?_⟩
  · by_cases hj : j = r
    · exact hj ▸ (hc r).precharged hb h.rank
    · exact h.others j hj ▸ hc j
  · rw [h.rank.openRow, if_pos rfl]
  · by_cases hj : j = r
    · subst hj
      rw [h.rank.openRow, if_neg (hne.resolve_left fun hne => hne rfl)]
    · rw [h.others j hj]

/-- **`prechargeBank`**, of an open bank. -/
lemma keepsRows_prechargeBank (hb : b < p.banksPerRank)
    (hopen : ((c.ranks r).banks b).openRow ≠ none) :
    KeepsRows (RowMoved p r b none c) (c.prechargeBank p r b t) := by
  refine meets_iff.mpr ⟨?_, fun c' h => (prechargeBank_ok h).turned hc hb⟩
  refine FailsWith.bind (.ite (fun hclosed => absurd hclosed hopen) fun _ =>
    .when fun hnone => absurd hnone ((hc r).pos hb hopen)) fun k _ => ?_
  exact ((fails_schedulePrecharge _ r _).keepsRows (by decide) fun _ _ => trivial).fails

omit hc in
lemma failsWith_scheduleActivate (c : Channel) (r t : ℕ) :
    FailsWith (fun e => e.aboutRows = false) (c.scheduleActivate r t) :=
  ((fails_scheduleActivate c r t).keepsRows (by decide) fun _ _ => trivial).fails

/-- **`activateBank`**, of a closed bank. -/
lemma keepsRows_activateBank (hb : b < p.banksPerRank)
    (hclosed : ((c.ranks r).banks b).openRow = none) :
    KeepsRows (RowMoved p r b (some row) c) (c.activateBank p r b t row) := by
  refine meets_iff.mpr ⟨?_, fun c' h => (activateBank_ok h).turned hc hb⟩
  refine FailsWith.bind (.guard rfl fun _ => ?_)
    fun k _ => failsWith_scheduleActivate _ r t
  refine FailsWith.bind (Rank.failsWith_openBank (hc r) hb hclosed) fun k' _ => ?_
  exact .skip fun _ => .guard rfl fun _ => .ok _

/-- **A cycle of a row op** leaves its bank closed. -/
lemma keepsRows_doCycle {x : Cycle} (hb : b < p.banksPerRank)
    (hclosed : ((c.ranks r).banks b).openRow = none) :
    KeepsRows (RowMoved p r b none c) (c.doCycle p r b t x) := by
  -- what is activated is precharged
  have hpre : ∀ {row : ℕ} {c₁ : Channel}, RowMoved p r b (some row) c c₁ →
      KeepsRows (RowMoved p r b none c) (c₁.prechargeWhenAllowed p r b) := by
    intro row c₁ h₁
    refine (keepsRows_prechargeBank h₁.counts hb ?_).mono fun c₂ h₂ => h₁.trans h₂
    rw [h₁.row]
    exact some_ne_none row
  cases x with
  | ap row => exact (keepsRows_activateBank hc hb hclosed).bind fun c₁ h₁ => hpre h₁
  | aap row1 row2 =>
    have hdouble : KeepsRows (fun k => Rank.Activated p (c.ranks r) b t
        (t + p.tRAS + p.tWLOV) Bank.doubleRow k) ((c.ranks r).activateDouble p b t true) :=
      meets_iff.mpr ⟨.map (Rank.failsWith_openBank (hc r) hb hclosed), fun k h =>
        Rank.activated_activateDouble h⟩
    refine hdouble.bind fun k hk => Meets.bind (meets_iff.mpr ⟨failsWith_scheduleActivate _ r t,
      fun c₁ h₁ => (bankActivated_scheduleActivate hk h₁).turned hc hb⟩) fun c₁ h₁ => hpre h₁

lemma keepsRows_doCycles {l : List Cycle} (hb : b < p.banksPerRank)
    (hclosed : ((c.ranks r).banks b).openRow = none) :
    KeepsRows (fun q => RowMoved p r b none c q.1) (c.doCycles p r b t l) := by
  induction l generalizing c t with
  | nil => exact RowMoved.refl hc hclosed
  | cons x l ih =>
    exact (keepsRows_doCycle hc hb hclosed).bind fun c₁ h₁ =>
      (ih h₁.counts h₁.row).mono fun q hq => h₁.trans hq

lemma keepsRows_closePage (hb : b < p.banksPerRank) :
    KeepsRows (RowMoved p r b none c) (c.closePage p r b) :=
  .ite (fun hclosed => RowMoved.refl hc hclosed) fun hopen => keepsRows_prechargeBank hc hb hopen

lemma keepsRows_doRowOp {op : RowOp} (hb : d.bank < p.banksPerRank) :
    KeepsRows (fun q => RowMoved p d.rank d.bank none c q.1) (c.doRowOp p d op) := by
  refine (keepsRows_closePage hc hb).bind fun c₁ h₁ => ?_
  refine (keepsRows_doCycles h₁.counts hb h₁.row).map fun q hq => ?_
  have h₂ := h₁.trans hq
  exact { h₂ with }

lemma keepsRows_openPage (hb : d.bank < p.banksPerRank) :
    KeepsRows (fun q => RowMoved p d.rank d.bank (some d.row) c q.1) (c.openPage p d) := by
  refine .ite (fun hhit => RowMoved.refl hc hhit) fun _ => ?_
  refine (keepsRows_closePage hc hb).bind fun c₁ h₁ => ?_
  exact (keepsRows_activateBank h₁.counts hb h₁.row).map fun c₂ h₂ => h₁.trans h₂

end

lemma openRow_columnCommand (c : Channel) (d : DRAMPacket) (cmdAt readyTime j i : ℕ) :
    (((c.columnCommand p d cmdAt readyTime).ranks j).banks i).openRow =
      ((c.ranks j).banks i).openRow := by
  simp only [columnCommand, countAccess, spaceColumns, setRank]
  by_cases hj : j = d.rank
  · subst hj
    by_cases hi : i = d.bank
    · subst hi
      simp [Rank.modifyBank, Rank.mapBanks]
    · simp [Rank.modifyBank, Rank.mapBanks, hi]
  · simp [Rank.mapBanks, hj]

lemma active_columnCommand (c : Channel) (d : DRAMPacket) (cmdAt readyTime j : ℕ) :
    ((c.columnCommand p d cmdAt readyTime).ranks j).numBanksActive =
      (c.ranks j).numBanksActive := by
  simp only [columnCommand, countAccess, spaceColumns, setRank]
  by_cases hj : j = d.rank
  · subst hj
    simp [Rank.modifyBank, Rank.mapBanks]
  · simp [Rank.mapBanks, hj]

/-- A burst leaves its row open, or the bank closed. -/
lemma keepsRows_doBurst (hc : Counts p c)
    (hb : d.bank < p.banksPerRank) :
    KeepsRows (fun q => ∃ v, (v = none ∨ v = some d.row) ∧ RowMoved p d.rank d.bank v c q.1)
      (c.doBurst p d behind) := by
  refine (keepsRows_openPage hc hb).bind fun q hq => .ite (fun _ => rfl) fun _ => ?_
  -- the column command
  generalize max q.2 (tickSub q.1.busBusyUntil p.tCL) = cmdAt
  have hcolumn : RowMoved p d.rank d.bank (some d.row) c
      (q.1.columnCommand p d cmdAt (cmdAt + p.tCL + p.tBURST)) := by
    refine hq.trans ⟨fun j => (hq.counts j).congr (active_columnCommand _ d _ _ j)
      (openRow_columnCommand _ d _ _ j), ?_, fun j i _ => openRow_columnCommand _ d _ _ j i⟩
    rw [openRow_columnCommand, hq.row]
  have hauto : KeepsRows
      (fun c' => ∃ v, (v = none ∨ v = some d.row) ∧ RowMoved p d.rank d.bank v c c')
      (if (q.1.columnCommand p d cmdAt (cmdAt + p.tCL + p.tBURST)).autoPrecharge p d behind then
        (q.1.columnCommand p d cmdAt (cmdAt + p.tCL + p.tBURST)).prechargeBank p d.rank d.bank
          (max (q.1.columnCommand p d cmdAt (cmdAt + p.tCL + p.tBURST)).now
            (((q.1.columnCommand p d cmdAt (cmdAt + p.tCL + p.tBURST)).ranks d.rank).banks
              d.bank).preAllowedAt)
      else .ok (q.1.columnCommand p d cmdAt (cmdAt + p.tCL + p.tBURST))) := by
    refine .ite (fun _ => ?_) fun _ => ⟨some d.row, Or.inr rfl, hcolumn⟩
    refine (keepsRows_prechargeBank hcolumn.counts hb ?_).mono fun c' h' =>
      ⟨none, Or.inl rfl, hcolumn.trans h'⟩
    rw [hcolumn.row]
    exact some_ne_none _
  refine hauto.map ?_
  rintro c' ⟨v, hv, h'⟩
  exact ⟨v, hv, h'.counts, h'.row, h'.others⟩

section

variable (h : AtRest p c)

include h

/-- **An access**, ordinary or a row op. -/
lemma keepsRows_doDRAMAccess (hb : d.bank < p.banksPerRank) (hrow : d.row < p.rowsPerBank) :
    KeepsRows (fun q => AtRest p q.1) (c.doDRAMAccess p d behind) := by
  have hdouble : some d.row ≠ some Bank.doubleRow := by
    have hlt := p.rowsPerBank_lt
    intro heq
    have heq := some.inj heq
    rw [Bank.doubleRow, Bank.special] at heq
    omega
  rw [doDRAMAccess]
  split
  · exact (keepsRows_doRowOp h.counts hb).mono fun q hq => hq.atRest h (some_ne_none _).symm
  · refine (keepsRows_doBurst h.counts hb).mono ?_
    rintro q ⟨v, rfl | rfl, hq⟩
    · exact hq.atRest h (some_ne_none _).symm
    · exact hq.atRest h hdouble

/-! ### The events of a rank -/

lemma keepsRows_schedulePowerEvent {state : PowerState} :
    KeepsRows (AtRest p) (c.schedulePowerEvent r state t) := by
  refine (fails_schedulePowerEvent c r t state).keepsRows (by decide) fun c' hok => ?_
  obtain ⟨-, rfl⟩ := schedulePowerEvent_ok hok
  exact (h.setRank (k := { c.ranks r with pwrStateTrans := state }) rfl fun _ => rfl).of_ranks rfl

lemma AtRest.setRefreshState (state : RefreshState) :
    AtRest p (c.setRefreshState r state) := h.setRank rfl fun _ => rfl

lemma keepsRows_checkDrainDone : KeepsRows (AtRest p) (c.checkDrainDone r) := by
  refine (fails_checkDrainDone c r).keepsRows (by decide) fun c' hok => ?_
  rw [checkDrainDone] at hok
  split_ifs at hok
  · obtain ⟨-, -, rfl⟩ := schedule_ok hok
    exact (h.setRefreshState (r := r) .pre).of_ranks rfl
  · exact Except.ok.inj hok ▸ h

/-- **The precharges in front of a refresh.** -/
lemma keepsRows_prechargeAll : KeepsRows (AtRest p) (c.prechargeAll p r) := by
  refine Meets.foldlM (fun b hb c₁ h₁ => .ite (fun hopen => ?_) fun _ => ?_) h
  · refine (keepsRows_prechargeBank h₁.counts (List.mem_range.mp hb)
      (isSome_iff_ne_none.mp hopen)).mono fun c₂ h₂ => ?_
    exact h₂.atRest h₁ (some_ne_none _).symm
  · refine h₁.setRank rfl fun i => ?_
    by_cases hi : i = b
    · subst hi
      simp [Rank.modifyBank]
    · simp [Rank.modifyBank, hi]

lemma keepsRows_refreshPre : KeepsRows (AtRest p) (c.refreshPre p r) :=
  Meets.bind (.ite (fun _ => keepsRows_prechargeAll h) fun _ => keepsRows_schedulePowerEvent h)
    fun _ h₁ => .ite (fun _ => rfl) fun _ => h₁.setRefreshState .run

lemma keepsRows_refreshRun : KeepsRows (AtRest p) (c.refreshRun p r) := by
  refine .ite (fun _ => rfl) fun _ => .ite (fun _ => rfl) fun _ => .ite (fun _ => rfl) fun _ => ?_
  refine Meets.bind ((fails_schedule _ _ _).keepsRows (by decide) fun c₁ hok => ?_) fun c₁ h₁ =>
    .ite (fun _ => rfl) fun _ => keepsRows_schedulePowerEvent h₁
  obtain ⟨-, -, rfl⟩ := schedule_ok hok
  exact (h.setRank (r := r) (k := (c.ranks r).mapBanks fun _ bank =>
    { bank with actAllowedAt := c.now + p.tRFC }) rfl fun _ => rfl).of_ranks rfl

lemma keepsRows_processRefreshEvent : KeepsRows (AtRest p) (c.processRefreshEvent p r) := by
  have hdrain : ∀ {c : Channel}, AtRest p c →
      KeepsRows (AtRest p) (processRefreshEvent.refreshDrain p r c) := fun h =>
    .ite (fun _ => h) fun _ => keepsRows_refreshPre (h.setRefreshState .pre)
  rw [processRefreshEvent]
  split
  · exact hdrain (h.setRank rfl fun _ => rfl)
  · exact hdrain h
  · exact keepsRows_refreshPre h
  · exact keepsRows_refreshRun h

lemma keepsRows_processPowerEvent : KeepsRows (AtRest p) (c.processPowerEvent p r) := by
  have h₁ : AtRest p (c.setRank r { c.ranks r with pwrState := (c.ranks r).pwrStateTrans }) :=
    h.setRank rfl fun _ => rfl
  rw [processPowerEvent]
  generalize c.setRank r { c.ranks r with pwrState := (c.ranks r).pwrStateTrans } = c₁ at h₁ ⊢
  split
  · refine .ite (fun _ => .ite (fun _ => h₁.setRefreshState .idle) fun _ => ?_) fun _ =>
      .ite (fun _ => rfl) fun _ => .ite (fun _ => .ite (fun _ => rfl) fun _ => ?_) fun _ => h₁
    · refine (fails_schedule _ _ _).keepsRows (by decide) fun c₂ hok => ?_
      obtain ⟨-, -, rfl⟩ := schedule_ok hok
      exact (h₁.setRefreshState (r := r) .idle).of_ranks rfl
    · exact keepsRows_processRefreshEvent (h₁.setRank rfl fun _ => rfl)
  · exact .ite (fun _ => rfl) fun _ => keepsRows_processRefreshEvent h₁
  · exact h₁

end

end Channel

namespace DRAMCtrl

open Channel

variable {p : DRAMParams} {s s' : DRAMCtrl} {d : DRAMPacket} {condition : DRAMCtrl → Act → Prop}

lemma ranks_frontSet {c c' : Channel} (h : Relation.ReflTransGen FrontSet c c') :
    c'.ranks = c.ranks := by
  induction h with
  | refl => rfl
  | tail _ hset ih => cases hset <;> exact ih

lemma serves_rows (p : DRAMParams) : Serves p (fun e => e.aboutRows = false)
    (fun c _ => AtRest p c) (InRange p) (InRange p) where
  front e he := e.aboutRows_eq_false (by rw [he]; decide)
  set _ _ h := h.of_ranks rfl
  drain h hok := (keepsRows_checkDrainDone h).result hok
  read _ _ h hd := Meets.mono (keepsRows_doDRAMAccess (h.of_ranks rfl) hd.2.1 hd.2.2.1)
    fun _ h' => ⟨h', Or.inl rfl⟩
  write _ _ h hd := keepsRows_doDRAMAccess (h.of_ranks rfl) hd.2.1 hd.2.2.1

/-- **One action** keeps the count and fails no row assertion. -/
lemma keepsRows_perform (h : AtRest p s.chan) (hqueued : ∀ d, Queued s d → InRange p d) (a : Act) :
    KeepsRows (fun s' => AtRest p s'.chan) (s.perform p a) := by
  refine meets_perform (serves_rows p).front (fun s' hs' => h.of_ranks (ranks_frontSet hs'.chan))
    (fun n t _ => h.of_ranks rfl) fun e t _ => ?_
  have htake : AtRest p (s.takeEvent e t).chan := h.of_ranks rfl
  refine meets_handle (serves_rows p).front htake
    (fun s' hs' => htake.of_ranks (ranks_frontSet hs'.chan)) (fun _ => ?_) fun r he => ?_
  · exact (serves_rows p).processNextReqEvent htake (fun d hd => hqueued d (Or.inl hd))
      fun d hd => hqueued d (Or.inr hd)
  · cases e with
    | nextReq | respond | response | external => exact he.elim
    | activate | precharge =>
      exact .ite (fun _ => keepsRows_schedulePowerEvent htake) fun _ => htake
    | refresh => exact keepsRows_processRefreshEvent htake
    | power => exact keepsRows_processPowerEvent htake

lemma Run.atRest (h : Run p condition s) : AtRest p s.chan := by
  induction h with
  | start t mem =>
    refine ⟨fun r => (card_eq_zero.mpr ?_).symm, fun r b heq => by cases heq⟩
    exact filter_eq_empty_iff.mpr fun b _ hne => hne rfl
  | act hrun _ _ hperform ih =>
    exact (keepsRows_perform ih (fun d hd => hrun.inRange hd) _).result hperform

/-- **Open rows.**  In every run `numBanksActive` is the number of banks with an open row in every
rank, no bank is open on two rows, and no assertion about open rows fails. -/
theorem rows_counted (hrun : Run p (fun _ _ => True) s) :
    (∀ r, (s.chan.ranks r).numBanksActive = ((s.chan.ranks r).openBanks p).card) ∧
      (∀ r b, ((s.chan.ranks r).banks b).openRow ≠ some Bank.doubleRow) ∧
      ∀ a e, s.perform p a = .error e →
        e ≠ .bankOpen ∧ e ≠ .tooManyActive ∧ e ≠ .bankClosed ∧ e ≠ .noneActive := by
  refine ⟨hrun.atRest.counts, hrun.atRest.single, fun a e herror => ?_⟩
  have hrows := (keepsRows_perform hrun.atRest (fun d hd => hrun.inRange hd) a).fails e herror
  refine ⟨?_, ?_, ?_, ?_⟩
  all_goals
    rintro rfl
    cases hrows

/-- After a read and a row op one bank is active, the read's. -/
theorem rows_counted_readsThenRowOp :
    ∃ s, performAll (.ddr3_1600_x64 .frfcfs) (init (.ddr3_1600_x64 .frfcfs) 0 blank)
        readsThenRowOp = some s ∧
      ((s.chan.ranks 0).openBanks (.ddr3_1600_x64 .frfcfs)).card = 1 ∧
      ∀ b, ((s.chan.ranks 0).banks b).openRow ≠ some Bank.doubleRow := by
  have hactive : (performAll (.ddr3_1600_x64 .frfcfs) (init (.ddr3_1600_x64 .frfcfs) 0 blank)
      readsThenRowOp).map (fun s => (s.chan.ranks 0).numBanksActive) = some 1 := by decide +kernel
  obtain ⟨s, hs, hone⟩ := map_eq_some_iff.mp hactive
  have hrows := rows_counted ((run_performAll (.start 0 blank) hs).mono fun _ _ _ => trivial)
  exact ⟨s, hs, (hrows.1 0).symm.trans hone, hrows.2.1 0⟩

end DRAMCtrl

end ShifDram
