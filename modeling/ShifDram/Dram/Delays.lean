import ShifDram.Dram.Power

/-!
How far ahead the banks are held back.

An access sets the times of its bank and the precharge event ahead of the clock, a row op for all
of its cycles at once. Delays are counted in a unit `u` that none exceeds.
-/

namespace ShifDram

open Fallible

/-- No delay exceeds `u`; a refresh takes at most seven, refreshes are 72 apart. -/
structure DRAMParams.Brisk (p : DRAMParams) (u : ℕ) : Prop where
  rcd : p.tRCD ≤ u
  cl : p.tCL ≤ u
  rp : p.tRP ≤ u
  ras : p.tRAS ≤ u
  wlov : p.tWLOV ≤ u
  wr : p.tWR ≤ u
  rtp : p.tRTP ≤ u
  burst : p.tBURST ≤ u
  ccdL : p.tCCD_L ≤ u
  cs : p.tCS ≤ u
  rrd : p.tRRD ≤ u
  rrdL : p.tRRD_L ≤ u
  xaw : p.tXAW ≤ u
  wtr : p.tWTR ≤ u
  rtw : p.tRTW ≤ u
  rfc : p.tRFC ≤ 7 * u
  interval : 72 * u ≤ p.tREFI

lemma DRAMParams.Brisk.actDelay_le {p : DRAMParams} {u : ℕ} (hp : p.Brisk u) (b i : ℕ) :
    p.actDelay b i ≤ u := by
  rw [actDelay]
  split_ifs
  · exact hp.rrdL
  · exact hp.rrd

lemma DRAMParams.Brisk.colDelay_le {p : DRAMParams} {u : ℕ} (hp : p.Brisk u) (sameRank : Bool)
    (b i : ℕ) : p.colDelay sameRank b i ≤ 2 * u := by
  have hburst := hp.burst
  have hcs := hp.cs
  have hccd := hp.ccdL
  rw [colDelay]
  split_ifs <;> omega

namespace Rank

variable {p : DRAMParams} {k k' : Rank} {u m m' b t preAt row : ℕ}

/-- No bank is held back beyond `m`, an activate one delay longer. -/
structure Ahead (p : DRAMParams) (u m : ℕ) (k : Rank) : Prop where
  opened : ∀ i, (k.banks i).openRow ≠ none → i < p.banksPerRank
  col : ∀ i, (k.banks i).colAllowedAt ≤ m
  pre : ∀ i, (k.banks i).preAllowedAt ≤ m
  act : ∀ i, (k.banks i).actAllowedAt ≤ m + u

lemma Ahead.mono (h : k.Ahead p u m) (hm : m ≤ m') : k.Ahead p u m' :=
  ⟨h.opened, fun i => (h.col i).trans hm, fun i => (h.pre i).trans hm,
    fun i => (h.act i).trans (Nat.add_le_add_right hm u)⟩

lemma Ahead.of_banks (h : k.Ahead p u m) (hbanks : k'.banks = k.banks) : k'.Ahead p u m := by
  obtain ⟨h₁, h₂, h₃, h₄⟩ := h
  exact ⟨by rwa [hbanks], by rwa [hbanks], by rwa [hbanks], by rwa [hbanks]⟩

lemma Ahead.activate (hp : p.Brisk u) (h : k.Ahead p u m) (hk : Activated p k b t preAt row k')
    (hb : b < p.banksPerRank) (hpre : preAt ≤ t + 2 * u) (hold : k'.oldest ≤ t) :
    k'.Ahead p u (max m (t + 2 * u)) := by
  refine ⟨fun i hi => ?_, fun i => ?_, fun i => ?_, fun i => ?_⟩
  · by_cases hib : i = b
    · rw [hib]
      exact hb
    · rw [hk.openRow, if_neg hib] at hi
      exact h.opened i hi
  · have hcol := hk.col_le i
    have hbefore := h.col i
    have hrcd := hp.rcd
    omega
  · rw [hk.preAllowedAt]
    split_ifs
    · exact le_max_of_le_right hpre
    · exact le_max_of_le_left (h.pre i)
  · have hact := hk.act_le i
    have hbefore := h.act i
    have hdelay := hp.actDelay_le b i
    have hxaw := hp.xaw
    have hwindow : k'.windowEnd p ≤ t + u := by
      rw [windowEnd]
      split_ifs <;> omega
    omega

lemma Ahead.precharge (hp : p.Brisk u) (h : k.Ahead p u m) (hk : Precharged p k b t k')
    (ht : t ≤ m) : k'.Ahead p u m := by
  have hrp := hp.rp
  refine ⟨fun i hi => ?_, fun i => ?_, fun i => ?_, fun i => ?_⟩
  · rw [hk.openRow] at hi
    split_ifs at hi
    · exact absurd rfl hi
    · exact h.opened i hi
  · rw [hk.colAllowedAt]
    exact h.col i
  · rw [hk.preAllowedAt]
    split_ifs
    · exact ht
    · exact h.pre i
  · have hact := h.act i
    rw [hk.actAllowedAt]
    split_ifs <;> omega

end Rank

namespace Channel

variable {p : DRAMParams} {c c' c₁ : Channel} {d : DRAMPacket} {u m m' r b t preAt row : ℕ}
  {cmdAt : ℕ} {behind : List DRAMPacket}

/-- Nothing waits beyond `m`, or one delay longer. -/
structure Ahead (p : DRAMParams) (u m : ℕ) (c : Channel) : Prop where
  now : c.now ≤ m
  ranks : ∀ j, (c.ranks j).Ahead p u m
  due : ∀ j x, c.agenda.when? (.precharge j) = some x → x ≤ m + u

lemma Ahead.mono (h : Ahead p u m c) (hm : m ≤ m') : Ahead p u m' c :=
  ⟨h.now.trans hm, fun j => (h.ranks j).mono hm,
    fun j x hx => (h.due j x hx).trans (Nat.add_le_add_right hm u)⟩

section

variable (hp : p.Brisk u)

include hp

lemma Ahead.activate (h : Ahead p u m c) (hb : b < p.banksPerRank)
    (hpre : preAt ≤ t + 2 * u) (hs : (c'.view r).Spaced p)
    (hact : BankActivated p c r b t preAt row c') : Ahead p u (max m (t + 2 * u)) c' := by
  have hm : m ≤ max m (t + 2 * u) := le_max_left _ _
  -- the window begins no later than its newest activate
  have hold : (c'.ranks r).oldest ≤ t := by
    by_cases hzero : (c'.ranks r).oldest = 0
    · omega
    · obtain ⟨a, ha, hle⟩ := hs.oldest_le hzero
      rw [hact.acts] at ha
      cases ha
      change (c'.ranks r).oldest + _ ≤ t at hle
      omega
  refine ⟨hact.now.trans_le (h.now.trans hm), fun j => ?_, fun j x hx => ?_⟩
  · by_cases hj : j = r
    · subst hj
      exact (h.ranks j).activate hp hact.rank hb hpre hold
    · rw [hact.others j hj]
      exact (h.ranks j).mono hm
  · refine (h.due j x ?_).trans (Nat.add_le_add_right hm u)
    rcases hact.event with ⟨-, -, heq⟩ | ⟨x', -, -, heq⟩
    · rwa [heq, Agenda.when?_set, if_neg (by simp)] at hx
    · rwa [heq] at hx

lemma Ahead.precharge (h : Ahead p u m c) (ht : t ≤ m)
    (hpre : BankPrecharged p c r b t c') : Ahead p u m c' := by
  have hrp := hp.rp
  refine ⟨hpre.now.trans_le h.now, fun j => ?_, fun j x hx => ?_⟩
  · by_cases hj : j = r
    · subst hj
      exact (h.ranks j).precharge hp hpre.rank ht
    · rw [hpre.others j hj]
      exact h.ranks j
  · rcases hpre.event with ⟨-, -, heq⟩ | ⟨x', -, -, heq⟩
    · rw [heq, Agenda.when?_set] at hx
      split_ifs at hx
      · cases hx
        omega
      · exact h.due j x hx
    · exact h.due j x (heq ▸ hx)

lemma ahead_closePage (h : Ahead p u m c) (hok : c.closePage p r b = .ok c') : Ahead p u m c' := by
  rcases closePage_ok hok with ⟨-, rfl⟩ | hpre
  · exact h
  · exact h.precharge hp (max_le ((h.ranks r).pre b) h.now) hpre

/-! ### Accesses -/

/-- The cycles of a row op, three delays each. -/
lemma ahead_doCycles {l : List Cycle} (h : Ahead p u m c) (hs : (c.view r).Spaced p)
    (hb : b < p.banksPerRank) (hnow : c.now ≤ t) (hallowed : ((c.ranks r).banks b).actAllowedAt ≤ t)
    (ht : t ≤ m + u) (hok : c.doCycles p r b t l = .ok (c', cmdAt)) :
    Ahead p u (max m (cmdAt + 2 * u)) c' ∧ cmdAt ≤ m + u + l.length * (3 * u) ∧ t ≤ cmdAt := by
  induction l generalizing c t m with
  | nil =>
    cases hok
    exact ⟨h.mono (le_max_left _ _), by omega, le_rfl⟩
  | cons y l ih =>
    obtain ⟨c₁, hcycle, hok⟩ := bind_ok hok
    obtain ⟨hcommands, hnext, -⟩ := commands_doCycle hcycle hnow hallowed
    obtain ⟨c₀, preAt, row, hpre, hpre', hact, hprecharge⟩ := doCycle_ok hcycle
    have hras := hp.ras
    have hwlov := hp.wlov
    have hs₀ := (Command.activate hnow hallowed hpre hact).spaced hs
    have h₀ := h.activate hp hb (by omega) hs₀ hact
    have h₁ := h₀.precharge hp (by omega) hprecharge
    have hnow₁ := hcommands.now
    obtain ⟨hahead, hle, hlast⟩ := ih h₁ (hcommands.spaced hs) (by omega) le_rfl
      ((h₁.ranks r).act b) hok
    refine ⟨hahead.mono (by omega), ?_, by omega⟩
    rw [List.length_cons, Nat.succ_mul]
    omega

omit hp in
lemma length_cycles_le (d : DRAMPacket) (op : RowOp) : (d.cycles op).length ≤ 7 := by
  cases op <;> simp [DRAMPacket.cycles]

/-- An access reaches five delays beyond the next request. -/
def Accessed (p : DRAMParams) (u m : ℕ) (c : Channel) : Prop :=
  Ahead p u (max m (c.nextReqTime + 5 * u)) c ∧ c.nextReqTime ≤ m + 22 * u ∧
    p.prepTime ≤ c.busBusyUntil ∧ c.busBusyUntil ≤ c.nextReqTime + 5 * u

/-- **A row op**: the next request waits for its last cycle. -/
lemma ahead_doRowOp {op : RowOp} (hreg : p.Regular) (h : Ahead p u m c)
    (hs : (c.view d.rank).Spaced p) (hb : d.bank < p.banksPerRank)
    (hok : c.doRowOp p d op = .ok (c', t)) : Accessed p u m c' := by
  obtain ⟨c₁, c₂, cmdAt, hclose, hcycles, rfl, rfl⟩ := doRowOp_ok hok
  have hcommands := commands_closePage hclose
  have hnow := hcommands.now
  have h₁ := ahead_closePage hp h hclose
  have hstart := (h₁.ranks d.rank).act d.bank
  have hcol := (h.ranks d.rank).col d.bank
  have hclock := h.now
  obtain ⟨hahead, hle, -⟩ := ahead_doCycles hp h₁ (hcommands.spaced hs) hb (by omega)
    (le_max_right _ _) (by omega) hcycles
  obtain ⟨-, -, hne⟩ := commands_doCycles (by omega) (le_max_right _ _) hcycles
  obtain ⟨hend, -⟩ := hne (cycles_ne_nil d op)
  have hlength := Nat.mul_le_mul_right (3 * u) (length_cycles_le d op)
  have hprep : p.prepTime = p.tRP + p.tRCD + p.tCL := rfl
  have hrcd := hreg.rcd
  have hrcd' := hp.rcd
  have hrp := hp.rp
  have hcl := hp.cl
  have hreq : tickSub (cmdAt + p.tCL) p.prepTime = cmdAt - p.tRP - p.tRCD := by
    rw [tickSub_of_le (by omega)]
    omega
  dsimp only [Accessed]
  rw [hreq]
  have hahead' : Ahead p u (max m (cmdAt - p.tRP - p.tRCD + 5 * u)) c₂ := hahead.mono (by omega)
  exact ⟨{ hahead' with }, by omega, by omega, by omega⟩

lemma ahead_openPage (h : Ahead p u m c) (hs : (c.view d.rank).Spaced p)
    (hb : d.bank < p.banksPerRank) (hok : c.openPage p d = .ok (c', cmdAt)) :
    Ahead p u (max m (cmdAt + 2 * u)) c' ∧ cmdAt ≤ m + 2 * u := by
  rcases openPage_ok hok with ⟨-, rfl, rfl⟩ | ⟨c₁, hclose, hact, rfl⟩
  · have hcol := (h.ranks d.rank).col d.bank
    have hclock := h.now
    exact ⟨h.mono (le_max_left _ _), by omega⟩
  · have h₁ := ahead_closePage hp h hclose
    have hactivated := activateBank_ok hact
    have hcol := rcd_le_col_activateBank hact
    have hcol' := hactivated.rank.col_le d.bank
    have hbefore := (h₁.ranks d.rank).col d.bank
    have hallowed := (h₁.ranks d.rank).act d.bank
    have hclock := h₁.now
    have hras := hp.ras
    have hrcd := hp.rcd
    have hs' := (Command.activate (le_max_right _ _) (le_max_left _ _) le_rfl hactivated).spaced
      ((commands_closePage hclose).spaced hs)
    have h₂ := h₁.activate hp hb (by omega) hs' hactivated
    exact ⟨h₂.mono (by omega), by omega⟩

/-- The column command of a burst. -/
lemma Ahead.columnCommand (h : Ahead p u m c) (ht : t = cmdAt + p.tCL + p.tBURST) :
    Ahead p u (max m (cmdAt + 3 * u)) (c.columnCommand p d cmdAt t) := by
  have hcolumns := columns_columnCommand p c d cmdAt t
  have hm : m ≤ max m (cmdAt + 3 * u) := le_max_left _ _
  refine ⟨hcolumns.now.trans_le (h.now.trans hm), fun j =>
    ⟨fun i hi => ?_, fun i => ?_, fun i => ?_,
    fun i => ?_⟩, fun j x hx => ?_⟩
  · rw [(hcolumns.widened j).openRow] at hi
    exact (h.ranks j).opened i hi
  · have hbefore := (h.ranks j).col i
    have hdelay := hp.colDelay_le (d.rank = j) d.bank i
    have hcol : (((c.columnCommand p d cmdAt t).ranks j).banks i).colAllowedAt =
        max (cmdAt + p.colDelay (d.rank = j) d.bank i) ((c.ranks j).banks i).colAllowedAt := by
      by_cases hj : j = d.rank
      · subst hj
        by_cases hi : i = d.bank
        · subst hi
          simp [Channel.columnCommand, countAccess, spaceColumns, Rank.modifyBank, Rank.mapBanks]
        · simp [Channel.columnCommand, countAccess, spaceColumns, Rank.modifyBank,
            Rank.mapBanks, hi]
      · simp [Channel.columnCommand, countAccess, spaceColumns, setRank, Rank.mapBanks, hj]
    omega
  · have hbefore := (h.ranks j).pre i
    have hpre : (((c.columnCommand p d cmdAt t).ranks j).banks i).preAllowedAt ≤
        max ((c.ranks j).banks i).preAllowedAt (max (cmdAt + p.tRTP) (t + p.tWR)) := by
      by_cases hj : j = d.rank
      · subst hj
        by_cases hi : i = d.bank
        · subst hi
          simp only [Channel.columnCommand, countAccess, spaceColumns, Rank.modifyBank,
            Rank.mapBanks, ranks_setRank_self, Function.update_self]
          split_ifs <;> omega
        · simp [Channel.columnCommand, countAccess, spaceColumns, Rank.modifyBank,
            Rank.mapBanks, hi]
      · simp [Channel.columnCommand, countAccess, spaceColumns, setRank, Rank.mapBanks, hj]
    have hrtp := hp.rtp
    have hwr := hp.wr
    have hcl := hp.cl
    have hburst := hp.burst
    omega
  · rw [hcolumns.act]
    exact ((h.ranks j).act i).trans (Nat.add_le_add_right hm u)
  · exact (h.due j x hx).trans (Nat.add_le_add_right hm u)

/-- **A burst**: the next request waits for the bus. -/
lemma ahead_doBurst (h : Ahead p u m c) (hs : (c.view d.rank).Spaced p)
    (hb : d.bank < p.banksPerRank) (hprep : p.prepTime ≤ c.busBusyUntil)
    (hbus : c.busBusyUntil ≤ m + 2 * u) (hok : c.doBurst p d behind = .ok (c', t)) :
      Accessed p u m c' := by
  obtain ⟨c₁, cmdAt₁, cmdAt, c₂, hopen, hcmd, ht, hauto, rfl⟩ := doBurst_ok hok
  obtain ⟨h₁, hle⟩ := ahead_openPage hp h hs hb hopen
  have hbus₁ : c₁.busBusyUntil = c.busBusyUntil := by
    rcases openPage_ok hopen with ⟨-, rfl, -⟩ | ⟨c₀, hclose, hact, -⟩
    · rfl
    · rw [(activateBank_ok hact).rest]
      rcases closePage_ok hclose with ⟨-, rfl⟩ | hpre
      · rfl
      · rw [hpre.rest]
  have hprep' : p.prepTime = p.tRP + p.tRCD + p.tCL := rfl
  rw [hbus₁, tickSub_of_le (by omega)] at hcmd
  have hrcd := hp.rcd
  have hrp := hp.rp
  have hcl := hp.cl
  have hburst := hp.burst
  have hreq : tickSub t p.prepTime = cmdAt + p.tBURST - p.tRP - p.tRCD := by
    rw [tickSub_of_le (by omega)]
    omega
  have h₂ := h₁.columnCommand (d := d) hp ht
  have h₃ : Ahead p u (max (max m (cmdAt₁ + 2 * u)) (cmdAt + 3 * u)) c₂ := by
    rcases hauto with rfl | hpre
    · exact h₂
    · refine h₂.precharge hp (max_le ?_ ((h₂.ranks _).pre _)) hpre
      exact h₂.now
  dsimp only [Accessed]
  rw [hreq]
  have h₄ : Ahead p u (max m (cmdAt + p.tBURST - p.tRP - p.tRCD + 5 * u)) c₂ := h₃.mono (by omega)
  exact ⟨{ h₄ with }, by omega, by omega, by omega⟩

lemma ahead_doDRAMAccess (hreg : p.Regular) (h : Ahead p u m c) (hs : (c.view d.rank).Spaced p)
    (hb : d.bank < p.banksPerRank) (hprep : p.prepTime ≤ c.busBusyUntil)
    (hbus : c.busBusyUntil ≤ m + 2 * u) (hok : c.doDRAMAccess p d behind = .ok (c', t)) :
      Accessed p u m c' := by
  rw [doDRAMAccess] at hok
  split at hok
  · exact ahead_doRowOp hp hreg h hs hb hok
  · exact ahead_doBurst hp h hs hb hprep hbus hok

/-! ### The events of a rank -/

omit hp in
lemma Ahead.handled (h : Ahead p u m c) (hhandled : Handled r c c')
    (hrank : (c'.ranks r).Ahead p u m)
    (hdue : ∀ x, c'.agenda.when? (.precharge r) = some x → x ≤ m + u) : Ahead p u m c' := by
  refine ⟨hhandled.now.trans_le h.now, fun j => ?_, fun j x hx => ?_⟩
  · by_cases hj : j = r
    · exact hj ▸ hrank
    · rw [hhandled.others j hj]
      exact h.ranks j
  · by_cases hj : j = r
    · subst hj
      exact hdue x hx
    · refine h.due j x ?_
      rw [← hx, hhandled.sets.when?_eq]
      rintro (heq | heq)
      · exact hj heq
      · cases heq

omit hp in
lemma Ahead.same (h : Ahead p u m c) (hhandled : Handled r c c') (hsame : SameBanks r c c') :
    Ahead p u m c' := by
  refine h.handled hhandled ((h.ranks r).of_banks hsame.banks) fun x hx => h.due r x ?_
  rw [← hsame.pre, hx]

omit hp in
lemma Ahead.setRank {k : Rank} (h : Ahead p u m c) (hk : k.banks = (c.ranks r).banks) :
    Ahead p u m (c.setRank r k) := by
  refine ⟨h.now, fun j => ?_, h.due⟩
  by_cases hj : j = r
  · subst hj
    rw [ranks_setRank_self]
    exact (h.ranks j).of_banks hk
  · rw [ranks_setRank_of_ne c k hj]
    exact h.ranks j

omit hp in
lemma ahead_schedulePowerEvent {state : PowerState} (h : Ahead p u m c)
    (hok : c.schedulePowerEvent r state t = .ok c') : Ahead p u m c' :=
  h.same (handled_schedulePowerEvent hok) (sameBanks_schedulePowerEvent hok)

lemma Ahead.sweep (h : Ahead p u m c) (hsweep : Sweep p r preAt c c') (hpre : preAt ≤ m) :
    Ahead p u m c' := by
  have hrp := hp.rp
  refine h.handled hsweep.handled ⟨fun i hi => ?_, fun i => ?_, fun i => ?_,
    fun i => ?_⟩ fun x hx => ?_
  · exact (h.ranks r).opened i fun hclosed => hi (hsweep.closed i hclosed)
  · rw [hsweep.col_eq]
    exact (h.ranks r).col i
  · exact (hsweep.pre_le i).trans (max_le ((h.ranks r).pre i) hpre)
  · exact (hsweep.act_le i).trans (max_le ((h.ranks r).act i) (by omega))
  · rcases hsweep.due x hx with hx | rfl
    · exact h.due r x hx
    · omega

lemma ahead_prechargeAll (h : Ahead p u m c) (hok : c.prechargeAll p r = .ok c') : Ahead p u m c' :=
  h.sweep hp (sweep_prechargeAll hok).1 (preAllAt_le.mpr ⟨h.now, fun b _ => (h.ranks r).pre b⟩)

omit hp in
lemma ahead_checkDrainDone (h : Ahead p u m c) (hok : c.checkDrainDone r = .ok c') :
    Ahead p u m c' :=
  h.same (handled_checkDrainDone hok) (sameBanks_checkDrainDone hok)

omit hp in
lemma ahead_processActivateEvent (h : Ahead p u m c) (hok : c.processActivateEvent r = .ok c') :
    Ahead p u m c' := by
  rw [processActivateEvent] at hok
  split_ifs at hok
  · exact ahead_schedulePowerEvent h hok
  · exact Except.ok.inj hok ▸ h

omit hp in
lemma ahead_processPrechargeEvent (h : Ahead p u m c) (hok : c.processPrechargeEvent r = .ok c') :
    Ahead p u m c' := by
  rw [processPrechargeEvent] at hok
  split_ifs at hok
  · exact ahead_schedulePowerEvent h hok
  · exact Except.ok.inj hok ▸ h

lemma ahead_refreshPre (h : Ahead p u m c) (hok : c.refreshPre p r = .ok c') : Ahead p u m c' := by
  obtain ⟨c₁, rfl, -, ⟨-, hall⟩ | ⟨-, hpower⟩⟩ := refreshPre_ok hok
  · exact (ahead_prechargeAll hp h hall).setRank rfl
  · exact (ahead_schedulePowerEvent h hpower).setRank rfl

lemma ahead_refreshRun (h : Ahead p u m c) (hm : c.now + 6 * u ≤ m)
    (hok : c.refreshRun p r = .ok c') : Ahead p u m c' := by
  have hhandled := handled_refreshRun hok
  have hrfc := hp.rfc
  obtain ⟨-, rfl⟩ := refreshRun_ok hok
  refine h.handled hhandled ?_ fun x hx => h.due r x (by simpa using hx)
  change ((c.setRank r _).ranks r).Ahead p u m
  rw [ranks_setRank_self]
  refine ⟨(h.ranks r).opened, (h.ranks r).col, (h.ranks r).pre, fun i => ?_⟩
  change c.now + p.tRFC ≤ m + u
  omega

lemma ahead_processRefreshEvent (h : Ahead p u m c) (hm : c.now + 6 * u ≤ m)
    (hok : c.processRefreshEvent p r = .ok c') : Ahead p u m c' := by
  have hdrain : ∀ {c₁ : Channel}, Ahead p u m c₁ →
      processRefreshEvent.refreshDrain p r c₁ = .ok c' → Ahead p u m c' := by
    intro c₁ h₁ hok
    rcases refreshDrain_ok hok with ⟨-, -, rfl⟩ | ⟨-, hok⟩
    · exact h₁
    · refine ahead_refreshPre hp ?_ hok
      exact h₁.setRank rfl
  rw [processRefreshEvent] at hok
  split at hok
  · refine hdrain ?_ hok
    exact h.setRank rfl
  · exact hdrain h hok
  · exact ahead_refreshPre hp h hok
  · exact ahead_refreshRun hp h hm hok

lemma ahead_processPowerEvent (h : Ahead p u m c) (hm : c.now + 6 * u ≤ m)
    (hok : c.processPowerEvent p r = .ok c') : Ahead p u m c' := by
  have hset : Ahead p u m
      (c.setRank r { c.ranks r with pwrState := (c.ranks r).pwrStateTrans }) := h.setRank rfl
  have hnow : (c.setRank r { c.ranks r with pwrState := (c.ranks r).pwrStateTrans }).now +
      6 * u ≤ m := hm
  rw [processPowerEvent] at hok
  dsimp only at hok
  generalize c.setRank r { c.ranks r with pwrState := (c.ranks r).pwrStateTrans } = c₁
    at hok hset hnow
  split at hok
  · split_ifs at hok
    · cases hok
      exact hset.setRank rfl
    · have hstate : Ahead p u m (c₁.setRefreshState r .idle) := hset.setRank rfl
      obtain ⟨-, -, rfl⟩ := schedule_ok hok
      refine { hstate with due := fun j x hx => hstate.due j x ?_ }
      simpa using hx
    · refine ahead_processRefreshEvent hp ?_ ?_ hok
      · exact hset.setRank rfl
      · exact hnow
    · exact Except.ok.inj hok ▸ hset
  · split_ifs at hok
    exact ahead_processRefreshEvent hp hset hnow hok
  · exact Except.ok.inj hok ▸ hset

end

end Channel

end ShifDram
