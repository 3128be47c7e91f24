import ShifDram.Dram.Aborts
import ShifDram.Dram.BankPrep
import ShifDram.Dram.Reads

/-!
Reads are answered once.

A request event moves a read burst to the response queue; the respond event takes off the first
burst, and answers the packet with its last.
-/

namespace ShifDram

open Fallible List Function

namespace DRAMCtrl

open ReadSide Channel

variable {p : DRAMParams} {s s' : DRAMCtrl} {c c' : Channel} {k : ReadSide} {d : DRAMPacket}
  {rest : List DRAMPacket} {a : Act} {e : DRAMEvent} {n t : ℕ}

/-- The respond event is scheduled while a burst waits. -/
def Awaited (s : DRAMCtrl) : Prop := s.respQueue ≠ [] → s.chan.agenda.when? .respond ≠ none

lemma ne_none_frontSet (h : Relation.ReflTransGen FrontSet c c') (he : c.agenda.when? e ≠ none) :
    c'.agenda.when? e ≠ none := by
  induction h with
  | refl => exact he
  | tail _ hset ih => cases hset <;> exact Agenda.when?_set_ne_none ih

/-- A request event takes no other event off the agenda. -/
lemma ChanServed.ne_none {queued : DRAMPacket → Prop} (h : ChanServed p queued c c')
    (he : c.agenda.when? e ≠ none) : c'.agenda.when? e ≠ none := by
  have hdrained : ∀ {c₁}, drainRanks p c = .ok c₁ → c₁.agenda.when? e ≠ none := by
    intro c₁ hdrain
    refine foldlM_ok (P := fun c => c.agenda.when? e ≠ none) (fun r _ c₂ c₃ h₂ hstep => ?_) he
      hdrain
    split_ifs at hstep
    · cases hstep
      exact h₂
    · exact (handled_checkDrainDone hstep).sets.ne_none h₂
  cases h with
  | stall hdrain => exact hdrained hdrain
  | idle c₁ hdrain hnext => exact hnext.ne_none (hdrained hdrain)
  | access c₁ c₂ c₃ d behind bubble t hdrain _ _ _ haccess hrespond hnext =>
    have h₁ := hdrained hdrain
    have h₂ : c₂.agenda.when? e ≠ none := (commands_doDRAMAccess haccess).sets.ne_none h₁
    refine hnext.ne_none ?_
    rcases hrespond with rfl | ⟨x, -, rfl⟩
    · exact h₂
    · exact Agenda.when?_set_ne_none h₂

lemma awaited_processRespondEvent (h : s.processRespondEvent p = .ok s') : s'.Awaited := by
  rw [processRespondEvent] at h
  split at h
  · cases h
  · obtain ⟨s₁, -, h⟩ := bind_ok h
    obtain ⟨s₂, hnext, rfl⟩ := map_ok h
    rw [nextResponse] at hnext
    split at hnext
    · split_ifs at hnext
      obtain ⟨chan, hschedule, rfl⟩ := map_ok hnext
      obtain ⟨-, -, rfl⟩ := schedule_ok hschedule
      exact fun _ => by simp
    · next hempty =>
      cases hnext
      intro hne
      split_ifs at hne <;> exact absurd hempty hne

lemma Awaited.of_mem (hs : s.Awaited) (hmem : ∀ d ∈ s'.respQueue, d ∈ s.respQueue)
    (hkept : s.chan.agenda.when? .respond ≠ none → s'.chan.agenda.when? .respond ≠ none) :
    s'.Awaited := by
  intro hne
  obtain ⟨d, hd⟩ := exists_mem_of_ne_nil _ hne
  exact hkept (hs (ne_nil_of_mem (hmem d hd)))

/-- **One action** keeps the respond event scheduled. -/
lemma awaited_perform (hs : s.Awaited) (h : s.perform p a = .ok s') : s'.Awaited := by
  have htake : ∀ {e t}, e ≠ .respond → s.chan.agenda.when? .respond ≠ none →
      (s.takeEvent e t).chan.agenda.when? .respond ≠ none := by
    intro e t hne hrespond
    rwa [takeEvent, Agenda.when?_remove, if_neg hne.symm]
  cases chanStep_perform h with
  | front hfront => exact hs.of_mem hfront.respQueue (ne_none_frontSet hfront.chan)
  | plan => exact hs.of_mem (fun _ => id) Agenda.when?_set_ne_none
  | @aside e _ _ _ _ hfront =>
    by_cases he : e = .respond
    · subst he
      exact awaited_processRespondEvent h
    · exact hs.of_mem hfront.respQueue fun hne => ne_none_frontSet hfront.chan (htake he hne)
  | request hchan =>
    have hkept := fun hne => hchan.ne_none (htake (e := .nextReq) (by simp) hne)
    cases perform_ok h with
    | request hserved =>
      cases hserved with
      | read _ _ _ _ _ _ _ _ hrespond => exact fun _ => hrespond
      | stall same | idle same => exact hs.of_mem (by simp [same.respQueue]) hkept
      | write _ _ _ _ _ _ same => exact hs.of_mem (by simp [same.respQueue]) hkept
    | aside => exact hs.of_mem (fun _ => id) hkept
  | @rank e _ r _ he hchan =>
    refine hs.of_mem (fun _ => id) fun hne => (handled_rankEvent he hchan).sets.ne_none ?_
    exact htake (by rintro rfl; exact he) hne

lemma Run.awaited {condition : DRAMCtrl → Act → Prop} (h : Run p condition s) : s.Awaited := by
  induction h with
  | start => exact fun hne => absurd rfl hne
  | act _ _ _ hperform ih => exact awaited_perform ih hperform

/-! ### Respond events -/

/-- The memory access fails, or the event is too late for the next burst. -/
def RespondFails (rest : List DRAMPacket) (t : ℕ) (e : Abort) : Prop :=
  e = .memoryAccess ∨ e = .notResponse ∨ e = .readyPast ∧ ∃ d ∈ rest.head?, d.readyTime < t

lemma failsWith_accessAndRespond (s : DRAMCtrl) (rest : List DRAMPacket) (n t latency : ℕ) :
    FailsWith (RespondFails rest t) (s.accessAndRespond n latency) := by
  rw [accessAndRespond]
  split
  · exact .error (Or.inl rfl)
  · split
    · exact .error (Or.inl rfl)
    · exact .skip fun _ => .guard (Or.inr (Or.inl rfl)) fun _ => .ok _

lemma accessAndRespond_chan {latency : ℕ} (h : s.accessAndRespond n latency = .ok s') :
    s'.chan.now = s.chan.now ∧ s'.chan.agenda.when? .respond = s.chan.agenda.when? .respond := by
  rw [accessAndRespond] at h
  split at h
  · cases h
  · split at h
    · cases h
    · split_ifs at h
      · cases h
        exact ⟨rfl, rfl⟩
      · cases h
        exact ⟨rfl, by simp⟩

lemma finishBurst_chan (h : s.finishBurst p d = .ok s') : s'.chan.now = s.chan.now ∧
    s'.chan.agenda.when? .respond = s.chan.agenda.when? .respond := by
  rw [finishBurst] at h
  split at h
  · have hchan := accessAndRespond_chan h
    exact hchan
  · split at h
    · cases h
    · split at h
      · obtain ⟨s₁, hrespond, rfl⟩ := map_ok h
        have hchan := accessAndRespond_chan hrespond
        exact hchan
      · cases h
        exact ⟨rfl, rfl⟩

section

variable (hs : ReadInv p s.readSide) (hqueue : s.respQueue = d :: rest)

include hs hqueue

/-- The counter of a split packet is there. -/
lemma failsWith_finishBurst (t : ℕ) : FailsWith (RespondFails rest t) (s.finishBurst p d) := by
  refine .ite (fun _ => failsWith_accessAndRespond _ _ _ _ _) fun hno => ?_
  have hshared := hs.tally.shared d (by change d ∈ s.readQueue ++ s.respQueue; rw [hqueue]; simp)
  rw [Bool.not_eq_true', Bool.not_eq_false, hshared] at hno
  have hsome : s.helpers d.pkt = some ⟨_, _⟩ := ((hs.answers d.pkt).helper).trans
    (if_pos ⟨(ReadInv.outstanding_pos hqueue).ne', of_decide_eq_true hno⟩)
  simp only [hsome]
  exact .when fun _ => FailsWith.map (failsWith_accessAndRespond _ _ _ _ _)

/-- **A respond event** takes off the first burst, and answers its packet with the last. -/
lemma meets_respond (t : ℕ) : Meets (RespondFails rest t)
    (fun s' => s'.respQueue = rest ∧ s'.readQueue = s.readQueue ∧
      s'.log = (if ∃ q ∈ s.readQueue ++ rest, q.pkt = d.pkt then [] else [.respond d.pkt]) ++
        .done d.pkt d.addr :: s.log) (s.perform p (.event .respond t)) := by
  have htaken : (s.takeEvent .respond t).respQueue = d :: rest := hqueue
  change Meets _ _ ((s.takeEvent .respond t).processRespondEvent p)
  refine meets_iff.mpr ⟨?_, fun s' hok => ?_⟩
  · rw [processRespondEvent, htaken]
    refine FailsWith.bind (failsWith_finishBurst (s := s.takeEvent .respond t) hs htaken t)
      fun s₁ hfinish => FailsWith.map ?_
    obtain ⟨hnow, hwhen⟩ := finishBurst_chan hfinish
    have hnow : s₁.chan.now = t := hnow
    have hnone : s₁.chan.agenda.when? .respond = none := by
      rw [hwhen, takeEvent, Agenda.when?_remove, if_pos rfl]
    have hscheduled : ¬ s₁.chan.scheduled .respond = true := by simp [scheduled, hnone]
    rw [nextResponse]
    split
    · next q rest' hrest =>
      refine .ite (fun hlate => .error ?_) fun hready => .ite (fun h => absurd h hscheduled)
        fun _ => FailsWith.map (.ite (fun hpast => absurd hpast hready)
          fun _ => .ite (fun h => absurd h hscheduled) fun _ => .ok _)
      have hrest : rest = q :: rest' := hrest
      rw [hrest]
      exact Or.inr (Or.inr ⟨rfl, q, rfl, hnow ▸ hlate⟩)
    · exact .ok _
  · obtain ⟨d', rest', s₁, chan, drain, hqueue', hfinish, rfl, -⟩ := processRespondEvent_ok hok
    obtain ⟨rfl, rfl⟩ := cons.inj (htaken.symm.trans hqueue')
    have hafter := readInv_finishBurst (s := s.takeEvent .respond t) hs htaken hfinish
    obtain ⟨_, _, _, new, rfl, hnew, -⟩ := finishBurst_ok hfinish
    refine ⟨rfl, rfl, ?_⟩
    change new ++ _ = _
    -- it had not been answered, and now it has been if nothing of it is left
    have hbefore : s.log.count (.respond d.pkt) = 0 := ((hs.answers d.pkt).respond).trans
      (if_neg fun hand => (ReadInv.outstanding_pos (k := s.readSide) hqueue).ne' hand.2)
    have hlt : d.pkt < s.arrivals.length :=
      hs.tally.mem_lt (by change d ∈ s.readQueue ++ s.respQueue; rw [hqueue]; simp)
    have hcount : (new ++ .done d.pkt d.addr :: s.log).count (.respond d.pkt) =
        if d.pkt < s.arrivals.length ∧ (s.readQueue ++ rest).countP (·.pkt = d.pkt) = 0 then 1
        else 0 := (hafter.answers d.pkt).respond
    rw [count_append, count_cons_of_ne (by simp), hbefore, add_zero] at hcount
    by_cases hleft : ∃ q ∈ s.readQueue ++ rest, q.pkt = d.pkt
    · rw [if_pos hleft]
      obtain ⟨q, hq, hpkt⟩ := hleft
      have hpos := countP_pos_iff (p := fun q => decide (q.pkt = d.pkt)).mpr ⟨q, hq, by simp [hpkt]⟩
      rw [if_neg fun hand => hpos.ne' hand.2] at hcount
      rcases hnew with rfl | rfl
      · rfl
      · simp at hcount
    · rw [if_neg hleft]
      rw [if_pos ⟨hlt, countP_eq_zero.mpr fun q hq hpkt => hleft ⟨q, hq, by simpa using hpkt⟩⟩]
        at hcount
      rcases hnew with rfl | rfl
      · simp at hcount
      · rfl

end

/-- The busy ranks' check leaves clock, bus, banks and available ranks. -/
lemma drainRanks_keeps (h : drainRanks p c = .ok c') :
    c'.now = c.now ∧ c'.busBusyUntil = c.busBusyUntil ∧ ∀ r,
      (c'.ranks r).banks = (c.ranks r).banks ∧
        ((c.ranks r).isAvailable = true → (c'.ranks r).isAvailable = true) := by
  refine foldlM_ok (P := fun c' => c'.now = c.now ∧ c'.busBusyUntil = c.busBusyUntil ∧ ∀ r,
    (c'.ranks r).banks = (c.ranks r).banks ∧
      ((c.ranks r).isAvailable = true → (c'.ranks r).isAvailable = true))
    (fun r _ c₁ c₂ h₁ hstep => ?_) ⟨rfl, rfl, fun _ => ⟨rfl, id⟩⟩ h
  by_cases hbusy : (c₁.ranks r).isAvailable = true
  · rw [if_pos hbusy] at hstep
    cases hstep
    exact h₁
  · rw [if_neg hbusy, checkDrainDone] at hstep
    split_ifs at hstep
    · obtain ⟨-, -, rfl⟩ := schedule_ok hstep
      refine ⟨h₁.1, h₁.2.1, fun j => ?_⟩
      by_cases hj : j = r
      · subst hj
        refine ⟨?_, fun havail => absurd ((h₁.2.2 j).2 havail) hbusy⟩
        simpa [setRefreshState] using (h₁.2.2 j).1
      · simpa [setRefreshState, ranks_setRank_of_ne _ _ hj] using h₁.2.2 j
    · cases hstep
      exact h₁

lemma sureToFind_drainRanks (hsure : SureToFind p c) (h : drainRanks p c = .ok c') :
    SureToFind p c' := by
  obtain ⟨hnow, hbus, hranks⟩ := drainRanks_keeps h
  refine hsure.imp_right fun ⟨hbanks, hfit, hcol⟩ => ⟨hbanks, fun b hb => ?_, by rwa [hbus, hnow]⟩
  rw [actTick, actAt, hnow, (hranks b.1).1]
  exact hfit b hb

def MovesRead (s s' : DRAMCtrl) : Prop :=
  ∃ front d back t, s.readQueue = front ++ d :: back ∧ s'.readQueue = front ++ back ∧
    s'.respQueue = s.respQueue ++ [{ d with readyTime := t }]

lemma serveRead_finds {switched : Bool} (hbus : s.busState = .read)
    (h : s.serveRead p switched = .ok s') (hdrain : drainRanks p c = .ok s.chan)
    (hrange : ∀ d ∈ s.readQueue, InRange p d) (hd : d ∈ s.readQueue)
    (havail : (s.chan.ranks d.rank).isAvailable = true) (hsure : SureToFind p s.chan) :
    MovesRead s s' := by
  have hok := h
  rw [serveRead, if_neg (ne_nil_of_mem hd)] at h
  obtain ⟨⟨found, queue⟩, hchoose, -⟩ := bind_ok h
  obtain rfl := chooseNext_finds hsure hrange hd havail hchoose
  obtain ⟨⟨front, back, q, t, hqueue, hsame, -⟩, -⟩ := serveRead_chosen hbus hok hdrain hchoose
  exact ⟨front, q, back, t, hqueue, hsame.readQueue, hsame.respQueue⟩

/-- **A request event** in `READ` moves a read to an available rank, if there is one. -/
lemma processNextReqEvent_finds (hturned : turned s.busState = .read)
    (h : s.processNextReqEvent p = .ok s') (hrange : ∀ d ∈ s.readQueue, InRange p d)
    (hd : d ∈ s.readQueue) (havail : (s.chan.ranks d.rank).isAvailable = true)
    (hsure : SureToFind p s.chan) : MovesRead s s' := by
  obtain ⟨s₁, hbusy, h⟩ := bind_ok h
  obtain ⟨chan, hdrain, rfl⟩ := map_ok hbusy
  have havail' := ((drainRanks_keeps hdrain).2.2 d.rank).2 havail
  have hsure' := sureToFind_drainRanks hsure hdrain
  have hfree : ¬ allBusy p { s with chan := chan } = true := by
    rw [allBusy, all_eq_true]
    intro hall
    have hnot := hall d.rank (mem_range.mpr (hrange d hd).1)
    rw [havail'] at hnot
    cases hnot
  rw [if_neg hfree] at h
  cases hbus : s.busState with
  | read | writeToRead =>
    simp only [hbus] at h
    have hmoves := serveRead_finds rfl h hdrain hrange hd havail' hsure'
    exact hmoves
  | write | readToWrite =>
    rw [hbus] at hturned
    cases hturned

/-! ### Every run -/

/-- Neither found in the write queue nor taken off the response queue. -/
def Outstanding (s : DRAMCtrl) (n addr : ℕ) : Prop := .found n addr ∉ s.log ∧ .done n addr ∉ s.log

/-- Issued, and then at the head of the response queue. -/
def WentThrough (log : List Cmd) (n addr : ℕ) : Prop :=
  ∃ newer older d, log = newer ++ .done n addr :: older ∧ .issue d ∈ older ∧ d.isRead = true ∧
    d.pkt = n ∧ d.addr = addr

lemma ReadSide.Tally.queued {a : Arrival} (h : Tally p s.readSide 0 [])
    (harrived : s.arrivals[n]? = some a) (hread : a.pkt.isRead = true) {addr : ℕ}
    (haddr : addr ∈ readBursts p a.pkt) :
    s.log.count (.found n addr) + s.log.count (.done n addr) +
      (s.readQueue.countP (ofBurst n addr) + s.respQueue.countP (ofBurst n addr)) = 1 := by
  have hbursts : burstsOf p s.readSide.arrivals n = readBursts p a.pkt := by
    change burstsOf p s.arrivals n = _
    rw [burstsOf, harrived]
    exact if_pos hread
  have hentered := h.entered n addr
  have hwaiting : s.log.count (.enqueue n addr) = _ := h.waiting n addr
  have hready : s.log.countP (Cmd.issues n addr) = _ := h.ready n addr
  rw [hbursts, count_eq_one_of_mem (hbursts ▸ nodup_burstsOf p _ n) haddr] at hentered
  simp only [count_nil, ite_self, add_zero] at hentered
  simp only [readSide] at hentered hwaiting hready
  omega

lemma ReadSide.Tally.mem_burstsOf (h : Tally p k 0 [])
    (hd : d ∈ k.readQueue ++ k.respQueue) : d.addr ∈ burstsOf p k.arrivals d.pkt := by
  have hentered := h.entered d.pkt d.addr
  have hwaiting := h.waiting d.pkt d.addr
  have hready := h.ready d.pkt d.addr
  have hpos : 0 < (k.readQueue ++ k.respQueue).countP (ofBurst d.pkt d.addr) :=
    countP_pos_iff.mpr ⟨d, hd, by simp [ofBurst]⟩
  rw [countP_append] at hpos
  exact count_pos_iff.mp (by omega)

lemma ReadSide.Tally.outstanding_eq_zero (h : Tally p k 0 []) :
    k.outstanding n = 0 ↔ ∀ addr ∈ burstsOf p k.arrivals n,
      k.readQueue.countP (ofBurst n addr) + k.respQueue.countP (ofBurst n addr) = 0 := by
  simp only [outstanding, ← countP_append, countP_eq_zero, ofBurst, decide_eq_true_eq, not_and]
  constructor
  · intro hnone addr _ q hq hpkt
    exact absurd hpkt (hnone q hq)
  · intro hnone q hq hpkt
    subst hpkt
    exact hnone q.addr (h.mem_burstsOf hq) q hq rfl rfl

def splitRead : Packet := { readBurst 0 with size := 128 }

/-- The read's second burst is in the write queue; the first goes through the queues. -/
def splitReadRun : List Act :=
  [.arrive { readBurst 64 with cmd := .writeReq, data := List.replicate 64 1#8 } 0,
    .arrive splitRead 0, .event .nextReq 0, .event (.activate 0) 0, .event (.power 0) 0,
    .event .nextReq 5000, .event (.response 0) 10000, .event .respond 46250]

end DRAMCtrl

end ShifDram
