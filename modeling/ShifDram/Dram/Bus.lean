import ShifDram.Dram.Aborts
import ShifDram.Dram.RowOpOrder

/-!
The data bus.

Ordinary bursts take the bus for `tBURST` each. A row op sets `busBusyUntil` from the activate
time of its bank; this does not set the bus back, as no bank may be sent a column command before
the last burst allows it.
-/

namespace ShifDram

open Fallible List

namespace Channel

variable {p : DRAMParams} {c c' : Channel} {d : DRAMPacket} {r b t row : ℕ}
  {behind : List DRAMPacket}

/-- `colAllowedAt` of a bank. -/
def col (c : Channel) (r b : ℕ) : ℕ := ((c.ranks r).banks b).colAllowedAt

/-- Clock, bus and bursts stay, and no column time is set back. -/
structure BusSame (c c' : Channel) : Prop where
  now : c'.now = c.now
  bus : c'.busBusyUntil = c.busBusyUntil
  bursts : c'.bursts = c.bursts
  col : ∀ r b, c.col r b ≤ c'.col r b

lemma BusSame.refl (c : Channel) : BusSame c c := ⟨rfl, rfl, rfl, fun _ _ => le_rfl⟩

lemma BusSame.trans {c₁ c₂ c₃ : Channel} (h : BusSame c₁ c₂) (h' : BusSame c₂ c₃) : BusSame c₁ c₃ :=
  ⟨h'.now.trans h.now, h'.bus.trans h.bus, h'.bursts.trans h.bursts,
    fun r b => (h.col r b).trans (h'.col r b)⟩

lemma busSame_of_others (hnow : c'.now = c.now) (hbus : c'.busBusyUntil = c.busBusyUntil)
    (hbursts : c'.bursts = c.bursts) (hothers : ∀ j ≠ r, c'.ranks j = c.ranks j)
    (hcol : ∀ b, c.col r b ≤ c'.col r b) : BusSame c c' := by
  refine ⟨hnow, hbus, hbursts, fun j b => ?_⟩
  by_cases hj : j = r
  · exact hj ▸ hcol b
  · rw [col, col, hothers j hj]

lemma BankActivated.busSame {preAt : ℕ} (h : BankActivated p c r b t preAt row c') : BusSame c c' :=
  busSame_of_others (by rw [h.rest]) (by rw [h.rest]) (by rw [h.rest]) h.others h.rank.le_col

lemma BankPrecharged.busSame (h : BankPrecharged p c r b t c') : BusSame c c' :=
  busSame_of_others (by rw [h.rest]) (by rw [h.rest]) (by rw [h.rest]) h.others
    fun i => (h.rank.colAllowedAt i).ge

lemma Handled.busSame (h : Handled r c c') : BusSame c c' :=
  busSame_of_others (by rw [h.rest]) (by rw [h.rest]) (by rw [h.rest]) h.others
    fun i => (h.col_eq i).ge

lemma busSame_closePage (h : c.closePage p r b = .ok c') : BusSame c c' := by
  rw [closePage] at h
  split_ifs at h
  · cases h
    exact .refl c
  · exact (prechargeBank_ok h).busSame

/-- Bursts do not overlap, and nothing on the bus or to a bank comes before them. -/
structure BusOrder (p : DRAMParams) (c : Channel) : Prop where
  latency : p.tCL ≤ c.busBusyUntil
  bus : ∀ t ∈ c.bursts, t ≤ c.busBusyUntil
  col : ∀ t ∈ c.bursts, ∀ r b, t ≤ c.col r b + p.tCL
  spaced : c.bursts.Pairwise fun newer older => older + p.tBURST ≤ newer

section

variable (h : BusOrder p c)

include h

lemma BusOrder.same (hsame : BusSame c c') : BusOrder p c' := by
  refine ⟨hsame.bus ▸ h.latency, ?_, ?_, ?_⟩
  · rw [hsame.bursts, hsame.bus]
    exact h.bus
  · rw [hsame.bursts]
    exact fun t ht r b => (h.col t ht r b).trans (Nat.add_le_add_right (hsame.col r b) _)
  · rw [hsame.bursts]
    exact h.spaced

lemma BusOrder.bubble (n : ℕ) : BusOrder p { c with busBusyUntil := c.busBusyUntil + n } :=
  ⟨h.latency.trans (Nat.le_add_right _ _), fun t ht => (h.bus t ht).trans (Nat.le_add_right _ _),
    h.col, h.spaced⟩

omit h in
lemma busSame_openPage {cmdAt : ℕ} (h : c.openPage p d = .ok (c', cmdAt)) : BusSame c c' := by
  rw [openPage] at h
  split_ifs at h
  · cases h
    exact .refl c
  · obtain ⟨c₁, hclose, h⟩ := bind_ok h
    obtain ⟨c₂, hact, hres⟩ := map_ok h
    cases hres
    exact (busSame_closePage hclose).trans (activateBank_ok hact).busSame

omit h in
lemma le_col_spaceColumns (p : DRAMParams) (c : Channel) (d : DRAMPacket) (cmdAt r b : ℕ) :
    cmdAt + p.tBURST ≤ (c.spaceColumns p d cmdAt).col r b ∧
      c.col r b ≤ (c.spaceColumns p d cmdAt).col r b := by
  refine ⟨le_trans ?_ (le_max_left _ _), le_max_right _ _⟩
  exact Nat.add_le_add_left (p.tBURST_le_colDelay _ _ _) _

omit h in
lemma col_countAccess (cmdAt readyTime : ℕ) :
    (c.countAccess p d cmdAt readyTime).col r b = c.col r b := by
  by_cases hr : r = d.rank
  · subst hr
    by_cases hb : b = d.bank
    · subst hb
      simp [countAccess, col, Rank.modifyBank]
    · simp [countAccess, col, Rank.modifyBank, hb]
  · rw [col, col, countAccess, ranks_setRank_of_ne _ _ hr]

lemma BusOrder.burst (hbus : c.busBusyUntil + p.tBURST ≤ t) (hbursts : c'.bursts = t :: c.bursts)
    (hbus' : c'.busBusyUntil = t) (hcol : ∀ r b, c.col r b ≤ c'.col r b)
    (hspaced : ∀ r b, t ≤ c'.col r b + p.tCL) : BusOrder p c' := by
  refine ⟨?_, fun t' ht' => ?_, fun t' ht' r b => ?_, ?_⟩
  · exact h.latency.trans (by omega)
  · rw [hbursts] at ht'
    rw [hbus']
    rcases mem_cons.mp ht' with rfl | ht'
    · exact le_rfl
    · exact (h.bus t' ht').trans (by omega)
  · rw [hbursts] at ht'
    rcases mem_cons.mp ht' with rfl | ht'
    · exact hspaced r b
    · exact (h.col t' ht' r b).trans (Nat.add_le_add_right (hcol r b) _)
  · rw [hbursts, pairwise_cons]
    exact ⟨fun t' ht' => (Nat.add_le_add_right (h.bus t' ht') _).trans hbus, h.spaced⟩

/-- A burst takes the bus next. -/
lemma BusOrder.doBurst (hburst : c.doBurst p d behind = .ok (c', t)) :
    BusOrder p c' ∧ c'.now = c.now ∧ c'.bursts = t :: c.bursts := by
  obtain ⟨⟨c₁, cmdAt₁⟩, hopen, hburst⟩ := bind_ok hburst
  have hsame := busSame_openPage hopen
  have h₁ := h.same hsame
  dsimp only at hburst
  -- the column command waits for the bus
  obtain ⟨cmdAt, hcmd⟩ : ∃ cmdAt, cmdAt = max cmdAt₁ (tickSub c₁.busBusyUntil p.tCL) := ⟨_, rfl⟩
  have hready : c₁.busBusyUntil + p.tBURST ≤ cmdAt + p.tCL + p.tBURST := by
    rw [tickSub_of_le h₁.latency] at hcmd
    omega
  rw [← hcmd] at hburst
  split at hburst
  · cases hburst
  · obtain ⟨c₂, hauto, hres⟩ := map_ok hburst
    cases hres
    -- an auto-precharge leaves the bus alone
    have hsame₂ : BusSame ((c₁.spaceColumns p d cmdAt).countAccess p d cmdAt
        (cmdAt + p.tCL + p.tBURST)) c₂ := by
      split at hauto
      · have hpre := (prechargeBank_ok hauto).busSame
        exact { hpre with }
      · cases hauto
        exact ⟨rfl, rfl, rfl, fun _ _ => le_rfl⟩
    have hcol : ∀ r b, cmdAt + p.tBURST ≤ c₂.col r b ∧ c₁.col r b ≤ c₂.col r b := by
      intro r b
      have hle := hsame₂.col r b
      rw [col_countAccess] at hle
      obtain ⟨hspaced, hkept⟩ := le_col_spaceColumns p c₁ d cmdAt r b
      exact ⟨hspaced.trans hle, hkept.trans hle⟩
    refine ⟨h₁.burst hready ?_ rfl (fun r b => (hcol r b).2) (fun r b => ?_), ?_, ?_⟩
    · change _ :: c₂.bursts = _
      rw [hsame₂.bursts]
      rfl
    · change _ ≤ c₂.col r b + p.tCL
      have := (hcol r b).1
      omega
    · change c₂.now = c.now
      rw [hsame₂.now, ← hsame.now]
      rfl
    · change _ :: c₂.bursts = _
      rw [hsame₂.bursts, ← hsame.bursts]
      rfl

omit h in
lemma busSame_doCycles {l : List Cycle} {cmdAt cmdAt' : ℕ}
    (h : c.doCycles p r b cmdAt l = .ok (c', cmdAt')) : BusSame c c' ∧ cmdAt ≤ cmdAt' := by
  induction l generalizing c cmdAt with
  | nil =>
    obtain ⟨rfl, rfl⟩ := Prod.mk.inj (Except.ok.inj h)
    exact ⟨.refl c, le_rfl⟩
  | cons x l ih =>
    obtain ⟨c₁, hcycle, h⟩ := bind_ok h
    obtain ⟨c₀, preAt, row, hpre, -, hact, hprecharge⟩ := doCycle_ok hcycle
    obtain ⟨hsame, hle⟩ := ih h
    refine ⟨(hact.busSame.trans hprecharge.busSame).trans hsame, le_trans ?_ hle⟩
    -- the bank is not activated again before it has been precharged
    rw [hprecharge.rank.actAllowedAt, if_pos rfl]
    exact le_max_of_le_right (by omega)

/-- **A row op does not set the bus back**: it ends behind every burst. -/
lemma BusOrder.doRowOp {op : RowOp} (hrow : c.doRowOp p d op = .ok (c', t)) :
    BusOrder p c' ∧ c'.now = c.now ∧ c'.bursts = c.bursts := by
  obtain ⟨c₁, hclose, hrow⟩ := bind_ok hrow
  obtain ⟨⟨c₂, cmdAt⟩, hcycles, hres⟩ := map_ok hrow
  cases hres
  have hsame₁ := busSame_closePage hclose
  obtain ⟨hsame₂, hle⟩ := busSame_doCycles hcycles
  have hsame := hsame₁.trans hsame₂
  have hstart : c.col d.rank d.bank ≤ cmdAt := ((le_max_left _ _).trans (le_max_left _ _)).trans hle
  refine ⟨⟨Nat.le_add_left _ _, fun t ht => ?_, ?_, ?_⟩, hsame.now, hsame.bursts⟩
  · have ht' : t ∈ c.bursts := hsame.bursts ▸ ht
    exact (h.col t ht' d.rank d.bank).trans (Nat.add_le_add_right hstart _)
  · exact (h.same hsame).col
  · exact (h.same hsame).spaced

lemma BusOrder.fails_doBurst (d : DRAMPacket) (behind : List DRAMPacket) :
    Fails [.front, .bank, .window] (c.doBurst p d behind) := by
  refine FailsWith.bind (fails_openPage p c d) fun x hx => ?_
  have h₁ := h.same (busSame_openPage hx)
  refine .ite (fun hlt => ?_) fun _ => FailsWith.map (.when fun _ => ?_)
  · have hlatency := h₁.latency
    rw [tickSub_of_le hlatency] at hlt
    rw [tickSub_of_le (by omega)] at hlt
    omega
  · exact (fails_prechargeBank p _ d.rank d.bank _).mono (by simp)

lemma BusOrder.doDRAMAccess (haccess : c.doDRAMAccess p d behind = .ok (c', t)) :
    BusOrder p c' ∧ c'.now = c.now ∧ c'.bursts = if d.isRowOp then c.bursts else t :: c.bursts := by
  rw [Channel.doDRAMAccess] at haccess
  split at haccess
  · next op hop =>
    have hrow : d.isRowOp = true := by rw [DRAMPacket.isRowOp, hop]; rfl
    rw [if_pos hrow]
    exact h.doRowOp haccess
  · next hop =>
    have hrow : ¬ d.isRowOp = true := by rw [DRAMPacket.isRowOp, hop]; simp
    rw [if_neg hrow]
    exact h.doBurst haccess

lemma BusOrder.fails_doDRAMAccess (d : DRAMPacket) (behind : List DRAMPacket) :
    Fails [.front, .bank, .window] (c.doDRAMAccess p d behind) := by
  rw [Channel.doDRAMAccess]
  split
  · exact fails_doRowOp p c d _
  · exact h.fails_doBurst d behind

end

end Channel

namespace DRAMCtrl

variable {p : DRAMParams} {s s' : DRAMCtrl} {d d' : DRAMPacket}

/-- The bus is in order; bursts wait on the response queue. -/
structure BusInv (p : DRAMParams) (s : DRAMCtrl) : Prop where
  order : s.chan.BusOrder p
  resp : ∀ d ∈ s.respQueue, d.readyTime ∈ s.chan.bursts

/-- All kinds of abort but those of the bus and the response order. -/
def offBus : List Abort.Kind := [.front, .bank, .window, .power]

lemma BusInv.same (h : BusInv p s) (hchan : s.chan.BusSame s'.chan)
    (hresp : ∀ d ∈ s'.respQueue, d ∈ s.respQueue) : BusInv p s' :=
  ⟨h.order.same hchan, fun d hd => hchan.bursts ▸ h.resp d (hresp d hd)⟩

/-- A burst issued now is ready after everything on the response queue. -/
lemma serves_bus (p : DRAMParams) : Serves p (fun e => e.kind ∈ offBus)
    (fun c q => c.BusOrder p ∧ ∀ d ∈ q, d.readyTime ∈ c.bursts) IsReadBurst (fun _ => True) where
  front e he := by simp [he, offBus]
  set _ _ h := ⟨h.1.same ⟨rfl, rfl, rfl, fun _ _ => le_rfl⟩, h.2⟩
  drain h hok := by
    have hsame := (Channel.handled_checkDrainDone hok).busSame
    exact ⟨h.1.same hsame, hsame.bursts.symm ▸ h.2⟩
  read {c q d} behind n h hread := by
    have hbubble := h.1.bubble n
    refine meets_iff.mpr ⟨(hbubble.fails_doDRAMAccess d behind).mono (by simp [offBus]), ?_⟩
    rintro ⟨c', t⟩ hok
    obtain ⟨horder, -, hbursts⟩ := hbubble.doDRAMAccess hok
    have hrow : ¬ d.isRowOp = true := by rw [DRAMPacket.isRowOp, hread.2]; simp
    rw [if_neg hrow] at hbursts
    refine ⟨⟨horder, fun b hb => ?_⟩, Or.inr fun b hb => ?_⟩
    · rw [hbursts]
      rcases mem_snoc.mp hb with hb | rfl
      · exact mem_cons_of_mem _ (h.2 b hb)
      · exact mem_cons_self
    · have hspaced := horder.spaced
      rw [hbursts, pairwise_cons] at hspaced
      exact (Nat.le_add_right _ _).trans (hspaced.1 _ (h.2 b hb))
  write {c q d} behind n h _ := by
    have hbubble := h.1.bubble n
    refine meets_iff.mpr ⟨(hbubble.fails_doDRAMAccess d behind).mono (by simp [offBus]), ?_⟩
    rintro ⟨c', t⟩ hok
    obtain ⟨horder, -, hbursts⟩ := hbubble.doDRAMAccess hok
    refine ⟨horder, fun b hb => ?_⟩
    rw [hbursts]
    split_ifs
    · exact h.2 b hb
    · exact mem_cons_of_mem _ (h.2 b hb)

lemma busSame_frontSet {c c' : Channel} (h : Relation.ReflTransGen FrontSet c c') :
    c.BusSame c' := by
  induction h with
  | refl => exact .refl c
  | tail _ hset ih =>
    refine ih.trans ?_
    cases hset <;> exact ⟨rfl, rfl, rfl, fun _ _ => le_rfl⟩

lemma BusInv.front (h : BusInv p s) (hfront : Front p s s') : BusInv p s' :=
  h.same (busSame_frontSet hfront.chan) hfront.respQueue

lemma BusInv.takeEvent (h : BusInv p s) (e : DRAMEvent) (t : ℕ) : BusInv p (s.takeEvent e t) :=
  ⟨⟨h.order.1, h.order.2, h.order.3, h.order.4⟩, h.resp⟩

lemma BusInv.perform (h : BusInv p s) (hreads : ∀ d ∈ s.readQueue, IsReadBurst d) (a : Act) :
    Meets (fun e => e.kind ∈ offBus) (BusInv p) (s.perform p a) := by
  refine meets_perform (serves_bus p).front (fun s' => h.front)
    (fun n t _ => ⟨⟨h.order.1, h.order.2, h.order.3, h.order.4⟩, h.resp⟩) fun e t _ => ?_
  have h₁ := h.takeEvent e t
  refine meets_handle (serves_bus p).front h₁ (fun s' => h₁.front) (fun _ => ?_) fun r he => ?_
  · exact ((serves_bus p).processNextReqEvent ⟨h₁.order, h₁.resp⟩ hreads fun _ _ => trivial).mono
      fun s' h' => ⟨h'.1, h'.2⟩
  · refine meets_iff.mpr ⟨(fails_rankEvent p _ e).mono (by simp [offBus]), fun chan hok => ?_⟩
    change BusInv p { s.takeEvent e t with chan := chan }
    exact h₁.same (handled_rankEvent he hok).busSame fun _ => id

lemma Run.busInv {condition : DRAMCtrl → Act → Prop} (h : Run p condition s) : BusInv p s := by
  induction h with
  | start t mem =>
    refine ⟨⟨?_, ?_, ?_, List.Pairwise.nil⟩, ?_⟩
    · change p.tCL ≤ t + (p.tRP + p.tRCD + p.tCL)
      omega
    all_goals simp [init]
  | act hrun _ _ hperform ih =>
    exact (ih.perform hrun.rowOpsFirst.reads _).result hperform

/-- **The data bus.** In every run the intervals of `tBURST` that end when the bursts are ready do
not overlap, in the order of issue, whatever row ops come between; so neither the assertion on the
bus nor the one on the order of the response queue fails. -/
theorem bursts_spaced (hrun : Run p (fun _ _ => True) s) :
    (s.chan.bursts.Pairwise fun newer older => older ≤ newer - p.tBURST ∧ p.tBURST ≤ newer) ∧
      (s.chan.bursts.Pairwise fun newer older => older ≤ newer) ∧
      ∀ a, s.perform p a ≠ .error .respOrder ∧ s.perform p a ≠ .error .busOverlap := by
  refine ⟨hrun.busInv.order.spaced.imp fun h => ?_, hrun.busInv.order.spaced.imp fun h => ?_,
    fun a => ?_⟩
  · omega
  · omega
  · have hfails : Fails offBus _ := (hrun.busInv.perform hrun.rowOpsFirst.reads a).fails
    exact ⟨hfails.ne (by decide), hfails.ne (by decide)⟩

/-- The second read is issued once the row op frees the bus. -/
def rowOpBetweenReads : List Act :=
  readsThenRowOp ++ [.event (.response 2) 10000, .event (.activate 0) 32500, .event .respond 46250,
    .event (.response 0) 66250, .event .nextReq 110500]

/-- Two bursts with a row op between them. -/
theorem bursts_around_rowOp :
    ∃ s, Run (.ddr3_1600_x64 .frfcfs) (fun _ _ => True) s ∧ s.chan.bursts = [178000, 46250] ∧
      s.chan.bursts.Pairwise fun newer older => older ≤ newer := by
  have hlast : (performAll (.ddr3_1600_x64 .frfcfs)
      (init (.ddr3_1600_x64 .frfcfs) 0 ⟨0, 2 ^ 33 - 1, 0, fun _ => 0#8, []⟩) rowOpBetweenReads).map
      (fun s => s.chan.bursts) = some [178000, 46250] := by decide +kernel
  obtain ⟨s, hs, hbursts⟩ := Option.map_eq_some_iff.mp hlast
  have hrun : Run (.ddr3_1600_x64 .frfcfs) (fun _ _ => True) s :=
    (run_performAll (.start 0 _) hs).mono fun _ _ _ => trivial
  exact ⟨s, hrun, hbursts, (bursts_spaced hrun).2.1⟩

end DRAMCtrl

end ShifDram
