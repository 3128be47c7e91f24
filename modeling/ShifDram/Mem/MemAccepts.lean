import ShifDram.Mem.MemHistory

/-!
The memory checker accepts linearizable histories whose steps are clear.
-/

namespace ShifDram

open List Function Option

namespace MemChecker

variable {g : Line} {x : World} {w r : Transaction} {c c' : WriteCluster} {serial k p : ℕ}
  {data : UInt8} {effective : Bool} {pre : List WriteCluster} {taken : Option UInt8}

/-- A serial in flight after another's update was so before. -/
lemma pending_of_update {v : Pending} {s : ℕ}
    (hs : update x.pending serial v s = .writing data effective)
    (hv : ∀ data effective, v ≠ .writing data effective) :
    s ≠ serial ∧ x.pending s = .writing data effective := by
  by_cases heq : s = serial
  · rw [heq, update_self] at hs
    exact absurd hs (hv data effective)
  · rw [update_of_ne heq] at hs
    exact ⟨heq, hs⟩

namespace Inv

/-! ### Values and effects -/

section

variable (h : Inv g x)

include h

lemma fresh_ne (serial : ℕ) (hs : x.pending serial ≠ .idle) {s : ℕ} (hle : x.nextSerial ≤ s) :
    s ≠ serial := by
  rintro rfl
  exact hs (h.fresh s hle).1

lemma write_serial_ne (hs : x.pending serial = .reading taken) (hw : w ∈ x.tracker.writes) :
    w.serial ≠ serial := by
  rintro rfl
  by_cases hopen : w.complete = tickFuture
  · rw [(h.writes w hw).inFlight hopen] at hs
    cases hs
  · rw [((h.writes w hw).done hopen).2.1] at hs
    cases hs

lemma read_serial_ne (hs : x.pending serial = .writing data effective)
    (hr : r ∈ x.tracker.outstandingReads) : r.serial ≠ serial := by
  rintro rfl
  rw [(h.reads r hr).pending] at hs
  cases hs

lemma inFlight_of_serial (hs : x.pending w.serial = .writing data effective)
    (hw : w ∈ x.tracker.writes) :
    w.complete = tickFuture ∧ w.data = data ∧ (g.effect w.serial).isSome = effective := by
  have hopen : w.complete = tickFuture := by
    by_contra hdone
    rw [((h.writes w hw).done hdone).2.1] at hs
    cases hs
  rw [(h.writes w hw).inFlight hopen] at hs
  cases hs
  exact ⟨hopen, rfl, rfl⟩

lemma takesValue (hs : x.pending serial = .reading none) :
    Inv { g with taken := update g.taken serial (some g.count) }
      { x with pending := update x.pending serial (.reading (some x.memory)) } := { h with
  fresh s hle := by
    have hne := h.fresh_ne serial (by simp [hs]) hle
    simp only [update_of_ne hne]
    exact h.fresh s hle
  writes w hw :=
    have hok : WriteOk g { x with
        pending := update x.pending serial (.reading (some x.memory)) } w :=
      (h.writes w hw).frame le_rfl le_rfl (update_of_ne (h.write_serial_ne hs hw) _ _)
    { hok with }
  inFlight s data effective hs' := h.inFlight s data effective (pending_of_update hs' nofun).2
  reads r hr := by
    have hok := h.reads r hr
    by_cases heq : r.serial = serial
    · refine ⟨hok.serial, hok.start, ?_, fun k hk => ?_, fun w hw p k hp hk _ => ?_⟩
      · simp only [heq, update_self, map_some, h.memory]
      · simp only [heq, update_self, some.injEq] at hk
        exact hk.ge
      · simp only [heq, update_self, some.injEq] at hk
        rw [← hk]
        exact ((h.writes w hw).effect p hp).2.1
    · refine ⟨hok.serial, hok.start, ?_, ?_, ?_⟩
      all_goals simp only [update_of_ne heq]
      · exact hok.pending
      · exact hok.taken
      · exact hok.after
  observations o ho := by
    have hok := h.observations o ho
    refine ⟨hok.le, hok.now, hok.seen.imp_right fun ⟨k, hk⟩ => ⟨k, hk.le, hk.value, hk.after,
      hk.before, fun r hr k' hk' hlt => ?_⟩⟩
    by_cases heq : r.serial = serial
    · simp only [heq, update_self, some.injEq] at hk'
      rw [← hk']
      exact hk.le
    · simp only [update_of_ne heq] at hk'
      exact hk.reads r hr k' hk' hlt
  covered q hpos hle := by
    refine (h.covered q hpos hle).imp_right fun hold => ⟨hold.1, fun r hr k hk => ?_⟩
    by_cases heq : r.serial = serial
    · simp only [heq, update_self, some.injEq] at hk
      rw [← hk]
      exact hold.1
    · simp only [update_of_ne heq] at hk
      exact hold.2 r hr k hk }

lemma push_cases (hs : x.pending serial = .writing data false) (hw : w ∈ x.tracker.writes)
    (hp : (g.push serial data).effect w.serial = some p) :
    w.serial = serial ∧ p = g.count + 1 ∧ w.complete = tickFuture ∧ w.data = data ∨
      w.serial ≠ serial ∧ g.effect w.serial = some p ∧ p ≤ g.count := by
  by_cases heq : w.serial = serial
  · obtain ⟨hopen, hdata, -⟩ := h.inFlight_of_serial (by rw [heq]; exact hs) hw
    rw [heq, Line.push_effect_self] at hp
    exact Or.inl ⟨heq, (some.inj hp).symm, hopen, hdata⟩
  · rw [Line.push_effect g data heq] at hp
    exact Or.inr ⟨heq, hp, ((h.writes w hw).effect p hp).2.1⟩

lemma takesEffect (hs : x.pending serial = .writing data false) : Inv (g.push serial data) { x with
      memory := data, pending := update x.pending serial (.writing data true) } := { h with
  memory := update_self _ _ _
  fresh s hle := by
    have hne := h.fresh_ne serial (by simp [hs]) hle
    rw [Line.push_effect g data hne]
    simp only [update_of_ne hne]
    exact h.fresh s hle
  order := by
    refine h.order.imp_of_mem fun {c c'} hc hc' hbefore =>
      ⟨hbefore.1, fun w hw w' hw' p p' hp hp' => ?_⟩
    have hmem : w ∈ x.tracker.writes := ByteTracker.mem_writes.mpr ⟨c, hc, hw⟩
    have hmem' : w' ∈ x.tracker.writes := ByteTracker.mem_writes.mpr ⟨c', hc', hw'⟩
    rcases h.push_cases hs hmem hp with ⟨-, -, hopen, -⟩ | ⟨-, hp, hle⟩
    · exact absurd hopen ((h.clusters c hc).complete_le h.now hbefore.1 hw).1
    · rcases h.push_cases hs hmem' hp' with ⟨-, rfl, -⟩ | ⟨-, hp', -⟩
      · omega
      · exact hbefore.2 w hw w' hw' p p' hp hp'
  writes w hw := by
    have hok := h.writes w hw
    refine ⟨hok.serial, hok.start, fun k hk => ?_, fun hopen => ?_, fun hdone => ?_⟩
    · rcases h.push_cases hs hw hk with ⟨-, rfl, -, hdata⟩ | ⟨-, hk, hle⟩
      · exact ⟨Nat.succ_pos _, le_rfl, by rw [hdata]; exact update_self _ _ _⟩
      · rw [Line.push_value g serial data hle]
        exact ⟨(hok.effect k hk).1, hle.trans (Nat.le_succ _), (hok.effect k hk).2.2⟩
    · by_cases heq : w.serial = serial
      · obtain ⟨-, hdata, -⟩ := h.inFlight_of_serial (by rw [heq]; exact hs) hw
        simp only [heq, update_self, Line.push_effect_self, hdata, isSome_some]
      · rw [Line.push_effect g data heq]
        simp only [update_of_ne heq]
        exact hok.inFlight hopen
    · have hne : w.serial ≠ serial := fun heq =>
        hdone (h.inFlight_of_serial (by rw [heq]; exact hs) hw).1
      rw [Line.push_effect g data hne]
      simp only [update_of_ne hne]
      exact hok.done hdone
  inFlight s data' effective hs' := by
    by_cases heq : s = serial
    · rw [heq]
      exact h.inFlight serial data false hs
    · simp only [update_of_ne heq] at hs'
      exact h.inFlight s data' effective hs'
  reads r hr := by
    have hok := h.reads r hr
    have hne := h.read_serial_ne hs hr
    refine ⟨hok.serial, hok.start, ?_, fun k hk => (hok.taken k hk).trans (Nat.le_succ _),
      fun w hw p k hp hk hle => ?_⟩
    · simp only [update_of_ne hne]
      rw [hok.pending]
      cases htaken : g.taken r.serial with
      | none =>
        have htaken' : (g.push serial data).taken r.serial = none := htaken
        rw [htaken']
        rfl
      | some k =>
        have htaken' : (g.push serial data).taken r.serial = some k := htaken
        rw [htaken', map_some, map_some, Line.push_value g serial data (hok.taken k htaken)]
    · rcases h.push_cases hs hw hp with ⟨-, -, hopen, -⟩ | ⟨-, hp, -⟩
      · have hnow := h.now
        have hstart := hok.start
        omega
      · exact hok.after w hw p k hp hk hle
  observations o ho := by
    have hok := h.observations o ho
    refine ⟨hok.le, hok.now, hok.seen.imp_right fun ⟨k, hk⟩ => ⟨k, hk.le.trans (Nat.le_succ _),
      (Line.push_value g serial data hk.le).trans hk.value, fun w hw p hp hlt => ?_,
      fun w hw p hp hlt => ?_, hk.reads⟩⟩
    · rcases h.push_cases hs hw hp with ⟨-, -, hopen, -⟩ | ⟨-, hp, -⟩
      · have hnow := h.now
        have hle := hok.le
        have hle' := hok.now
        omega
      · exact hk.after w hw p hp hlt
    · rcases h.push_cases hs hw hp with ⟨-, rfl, -⟩ | ⟨-, hp, -⟩
      · have hle := hk.le
        omega
      · exact hk.before w hw p hp hlt
  covered q hpos hle := by
    by_cases hq : q = g.count + 1
    · obtain ⟨w, hw, hws, -⟩ := h.inFlight serial data false hs
      refine Or.inl ⟨w, hw, ?_⟩
      rw [hws, hq, Line.push_effect_self]
    · have hle' : q ≤ g.count := by
        have hlt : q ≤ g.count + 1 := hle
        omega
      rcases h.covered q hpos hle' with ⟨w, hw, hwq⟩ | ⟨hlt, hold⟩
      · have hne : w.serial ≠ serial := fun heq => by
          have hnone := (h.inFlight_of_serial (by rw [heq]; exact hs) hw).2.2
          simp [hwq] at hnone
        exact Or.inl ⟨w, hw, by rw [Line.push_effect g data hne, hwq]⟩
      · exact Or.inr ⟨hlt.trans (Nat.lt_succ_self _), hold⟩ }

/-! ### Starts -/

omit h in
lemma insertRead_eq {l : List Transaction} (hl : ∀ y ∈ l, y.serial < r.serial) :
    ByteTracker.insertRead r l = l ++ [r] := by
  induction l with
  | nil => rfl
  | cons y ys ih =>
    have hy := hl y mem_cons_self
    rw [ByteTracker.insertRead, if_neg (by omega), if_neg (by omega),
      ih fun z hz => hl z (mem_cons_of_mem _ hz), cons_append]

lemma startRead : Inv g { x with
      tracker := x.tracker.startRead x.nextSerial x.now
      nextSerial := x.nextSerial + 1
      pending := update x.pending x.nextSerial (.reading none) } := by
  have hout : (x.tracker.startRead x.nextSerial x.now).outstandingReads =
      x.tracker.outstandingReads ++ [⟨x.nextSerial, x.now, tickFuture, 0⟩] :=
    insertRead_eq fun r hr => (h.reads r hr).serial
  have htaken : g.taken x.nextSerial = none := (h.fresh _ le_rfl).2.2
  have hmem : ∀ r ∈ (x.tracker.startRead x.nextSerial x.now).outstandingReads,
      r ∈ x.tracker.outstandingReads ∨ r = ⟨x.nextSerial, x.now, tickFuture, 0⟩ := by
    intro r hr
    rw [hout] at hr
    exact mem_snoc.mp hr
  exact { h with
      fresh := fun s hle => by
        have hle' : x.nextSerial + 1 ≤ s := hle
        have hne : s ≠ x.nextSerial := by omega
        simp only [update_of_ne hne]
        exact h.fresh s (by omega)
      writes := fun w hw => by
        have hok := h.writes w hw
        exact hok.frame (Nat.le_succ _) le_rfl (update_of_ne hok.serial.ne _ _)
      inFlight := fun s data effective hs =>
        h.inFlight s data effective (pending_of_update hs nofun).2
      reads := fun r hr => by
        rcases hmem r hr with hr | rfl
        · have hok := h.reads r hr
          exact hok.frame (Nat.le_succ _) le_rfl (update_of_ne hok.serial.ne _ _) fun _ hw => hw
        · refine ⟨Nat.lt_succ_self _, le_rfl, ?_, fun k hk => ?_, fun w hw p k hp hk _ => ?_⟩
          · simp only [update_self, htaken, map_none]
          · simp [htaken] at hk
          · simp [htaken] at hk
      readOrder := by
        rw [hout, pairwise_snoc]
        refine ⟨h.readOrder, fun r hr => ?_⟩
        exact ⟨(h.reads r hr).serial, (h.reads r hr).start⟩
      observations := fun o ho => by
        have hok := h.observations o ho
        refine ⟨hok.le, hok.now, hok.seen.imp_right fun ⟨k, hk⟩ => ⟨k, hk.le, hk.value, hk.after,
          hk.before, fun r hr k' hk' hlt => ?_⟩⟩
        rcases hmem r hr with hr | rfl
        · exact hk.reads r hr k' hk' hlt
        · simp [htaken] at hk'
      firstObs := by
        obtain ⟨o, rest, hobs, hfirst⟩ := h.firstObs
        refine ⟨o, rest, hobs, hfirst.imp_right fun hf => ⟨hf.1, fun r hr => ?_⟩⟩
        rcases hmem r hr with hr | rfl
        · exact hf.2 r hr
        · exact hf.1
      covered := fun q hpos hle => by
        refine (h.covered q hpos hle).imp_right fun hold => ⟨hold.1, fun r hr k hk => ?_⟩
        rcases hmem r hr with hr | rfl
        · exact hold.2 r hr k hk
        · simp [htaken] at hk }

omit h in
lemma getIncomplete_of_open (hc : c.isComplete = false) :
    ByteTracker.getIncompleteWriteCluster (pre ++ [c]) = (pre, c) := by
  simp [ByteTracker.getIncompleteWriteCluster, hc]

/-- The cluster that takes the next write, and those before it. -/
lemma getIncomplete :
    ∃ pre c, ByteTracker.getIncompleteWriteCluster x.tracker.writeClusters = (pre, c) ∧
      (c = .fresh ∨ c.Wf x.now ∧ c.isComplete = false) ∧
      x.tracker.writes = pre.flatMap WriteCluster.writes ++ c.writes ∧
      (∀ d ∈ pre, d ∈ x.tracker.writeClusters ∧ Before g d c) ∧ pre.Pairwise (Before g) := by
  rcases eq_nil_or_concat' x.tracker.writeClusters with hnil | ⟨pre, c, hsplit⟩
  · refine ⟨[], .fresh, by rw [hnil]; rfl, Or.inl rfl, ?_, by simp, List.Pairwise.nil⟩
    rw [ByteTracker.writes, hnil]
    rfl
  · have horder := h.order
    rw [hsplit, pairwise_append] at horder
    have hc : c ∈ x.tracker.writeClusters := by simp [hsplit]
    cases hdone : c.isComplete with
    | false =>
      refine ⟨pre, c, by rw [hsplit, getIncomplete_of_open hdone],
        Or.inr ⟨h.clusters c hc, hdone⟩, ?_, fun d hd => ⟨?_, ?_⟩, horder.1⟩
      · simp [ByteTracker.writes, hsplit]
      · rw [hsplit]
        exact mem_append_left _ hd
      · exact horder.2.2 d hd c (mem_singleton_self c)
    | true =>
      refine ⟨x.tracker.writeClusters, .fresh, ?_, Or.inl rfl, ?_, fun d hd => ⟨hd, ?_, ?_⟩,
        h.order⟩
      · simp [ByteTracker.getIncompleteWriteCluster, hsplit, hdone]
      · simp [ByteTracker.writes, WriteCluster.fresh]
      · rw [hsplit] at hd
        rcases mem_snoc.mp hd with hd | rfl
        · exact (horder.2.2 d hd c (mem_singleton_self c)).1
        · exact hdone
      · intro w _ w' hw'
        cases hw'

lemma startWrite (data : UInt8) :
    ∃ b, x.tracker.startWrite x.nextSerial x.now data = .ok b ∧ Inv g { x with
      tracker := b
      nextSerial := x.nextSerial + 1
      pending := update x.pending x.nextSerial (.writing data false) } := by
  obtain ⟨pre, c, hget, hc, hwrites, hpre, hpair⟩ := h.getIncomplete
  have hold : ∀ w ∈ c.writes, w ∈ x.tracker.writes := fun w hw => by
    rw [hwrites]
    exact mem_append_right _ hw
  obtain ⟨c', hstart, hwf, hc'⟩ := WriteCluster.startWrite_wf x.nextSerial data
    hc le_rfl h.now fun w hw => (h.writes w (hold w hw)).serial.ne
  have heffect : g.effect x.nextSerial = none := (h.fresh _ le_rfl).2.1
  have hb : x.tracker.startWrite x.nextSerial x.now data =
      .ok { x.tracker with writeClusters := pre ++ [c'] } := by
    rw [ByteTracker.startWrite, hget]
    rw [hstart]
    rfl
  refine ⟨_, hb, ?_⟩
  have hwrites' : ByteTracker.writes { x.tracker with writeClusters := pre ++ [c'] } =
      x.tracker.writes ++ [⟨x.nextSerial, x.now, tickFuture, data⟩] := by
    rw [hwrites]
    simp [ByteTracker.writes, hc']
  have hmem : ∀ w ∈ ByteTracker.writes { x.tracker with writeClusters := pre ++ [c'] },
      w ∈ x.tracker.writes ∨ w = ⟨x.nextSerial, x.now, tickFuture, data⟩ := by
    intro w hw
    rw [hwrites'] at hw
    exact mem_snoc.mp hw
  exact { h with
      fresh := fun s hle => by
        have hle' : x.nextSerial + 1 ≤ s := hle
        have hne : s ≠ x.nextSerial := by omega
        simp only [update_of_ne hne]
        exact h.fresh s (by omega)
      clusters := fun d hd => by
        rcases mem_snoc.mp hd with hd | rfl
        · exact h.clusters d (hpre d hd).1
        · exact hwf
      order := by
        refine pairwise_snoc.mpr ⟨hpair, fun d hd => ?_⟩
        refine ⟨(hpre d hd).2.1, fun w hw w' hw' p p' hp hp' => ?_⟩
        rw [hc'] at hw'
        rcases mem_snoc.mp hw' with hw' | rfl
        · exact (hpre d hd).2.2 w hw w' hw' p p' hp hp'
        · rw [heffect] at hp'
          cases hp'
      writes := fun w hw => by
        rcases hmem w hw with hw | rfl
        · have hok := h.writes w hw
          exact hok.frame (Nat.le_succ _) le_rfl (update_of_ne hok.serial.ne _ _)
        · refine ⟨Nat.lt_succ_self _, le_rfl, fun k hk => ?_, fun _ => ?_,
            fun hne => absurd rfl hne⟩
          · simp [heffect] at hk
          · simp only [update_self, heffect, isSome_none]
      inFlight := fun s data' effective hs => by
        by_cases heq : s = x.nextSerial
        · refine ⟨⟨x.nextSerial, x.now, tickFuture, data⟩, ?_, heq.symm, rfl⟩
          rw [hwrites']
          simp
        · simp only [update_of_ne heq] at hs
          obtain ⟨w, hw, hin⟩ := h.inFlight s data' effective hs
          refine ⟨w, ?_, hin⟩
          rw [hwrites']
          exact mem_append_left _ hw
      reads := fun r hr => by
        have hok := h.reads r hr
        refine ⟨hok.serial.trans (Nat.lt_succ_self _), hok.start,
          (update_of_ne hok.serial.ne _ _).trans hok.pending, hok.taken,
          fun w hw p k hp hk hle => ?_⟩
        rcases hmem w hw with hw | rfl
        · exact hok.after w hw p k hp hk hle
        · simp [heffect] at hp
      observations := fun o ho => by
        have hok := h.observations o ho
        refine ⟨hok.le, hok.now, hok.seen.imp_right fun ⟨k, hk⟩ => ⟨k, hk.le, hk.value,
          fun w hw p hp hlt => ?_, fun w hw p hp hlt => ?_, hk.reads⟩⟩
        · rcases hmem w hw with hw | rfl
          · exact hk.after w hw p hp hlt
          · simp [heffect] at hp
        · rcases hmem w hw with hw | rfl
          · exact hk.before w hw p hp hlt
          · simp [heffect] at hp
      covered := fun q hpos hle => by
        refine (h.covered q hpos hle).imp_left fun ⟨w, hw, hq⟩ => ⟨w, ?_, hq⟩
        rw [hwrites']
        exact mem_append_left _ hw }

/-! ### The end of a write -/

lemma last_of_open (hw : w ∈ x.tracker.writes) (hopen : w.complete = tickFuture) :
    ∃ pre c, x.tracker.writeClusters = pre ++ [c] ∧ w ∈ c.writes ∧ c.isComplete = false ∧
      ∀ d ∈ pre, Before g d c := by
  obtain ⟨c, hc, hwc⟩ := ByteTracker.mem_writes.mp hw
  have hinc : c.isComplete = false := by
    by_contra hdone
    exact ((h.clusters c hc).complete_le h.now (by simpa using hdone) hwc).1 hopen
  obtain ⟨pre, post, hsplit⟩ := append_of_mem hc
  have horder := h.order
  rw [hsplit, pairwise_append, pairwise_cons] at horder
  obtain rfl : post = [] := by
    by_contra hne
    obtain ⟨d, hd⟩ := exists_mem_of_ne_nil _ hne
    have hdone := (horder.2.1.1 d hd).1
    rw [hinc] at hdone
    cases hdone
  exact ⟨pre, c, hsplit, hwc, hinc, fun d hd => horder.2.2 d hd c mem_cons_self⟩

lemma serial_ne_of_before (hs : x.pending serial = .writing data effective)
    (hc : c ∈ x.tracker.writeClusters) (hdone : c.isComplete = true) (hw : w ∈ c.writes) :
    w.serial ≠ serial := by
  rintro rfl
  have hopen := (h.inFlight_of_serial hs (ByteTracker.mem_writes.mpr ⟨c, hc, hw⟩)).1
  exact ((h.clusters c hc).complete_le h.now hdone hw).1 hopen

end

/-- A write of the last cluster stays, or completes now. -/
def Ends (x : World) (serial : ℕ) (effective : Bool) (u v : Transaction) : Prop :=
  v = u ∧ u.serial ≠ serial ∨ v.serial = serial ∧ u.serial = serial ∧ v.start = u.start ∧
    v.data = u.data ∧ v.complete = x.now ∧ effective = true

/-- **The end of a write**, completed or aborted. -/
lemma endWrite (h : Inv g x) (hs : x.pending serial = .writing data effective)
    (hclusters : x.tracker.writeClusters = pre ++ [c]) (hbefore : ∀ d ∈ pre, Before g d c)
    (hwf : c'.Wf x.now) (hends : ∀ v ∈ c'.writes, ∃ u ∈ c.writes, Ends x serial effective u v)
    (hkeep : ∀ u ∈ c.writes, u.serial ≠ serial → u ∈ c'.writes)
    (hdone : effective = true → ∃ v ∈ c'.writes, v.serial = serial)
    (hreads : effective = true → ∀ r ∈ x.tracker.outstandingReads, r.start < x.now) :
    Inv g { x with
      tracker := { x.tracker with writeClusters := pre ++ [c'] }
      pending := update x.pending serial .idle } := by
  have hpre : ∀ d ∈ pre, d ∈ x.tracker.writeClusters := fun d hd => by
    rw [hclusters]
    exact mem_append_left _ hd
  have hc : c ∈ x.tracker.writeClusters := by simp [hclusters]
  have hnow := h.now
  -- the writes after the step come from writes before it, and those that stay are there
  have hmem : ∀ v ∈ ByteTracker.writes { x.tracker with writeClusters := pre ++ [c'] },
      ∃ u ∈ x.tracker.writes, Ends x serial effective u v := by
    intro v hv
    obtain ⟨d, hd, hvd⟩ := ByteTracker.mem_writes.mp hv
    rcases mem_snoc.mp hd with hd | rfl
    · exact ⟨v, ByteTracker.mem_writes.mpr ⟨d, hpre d hd, hvd⟩, Or.inl
        ⟨rfl, h.serial_ne_of_before hs (hpre d hd) (hbefore d hd).1 hvd⟩⟩
    · obtain ⟨u, hu, hend⟩ := hends v hvd
      exact ⟨u, ByteTracker.mem_writes.mpr ⟨c, hc, hu⟩, hend⟩
  have hstay : ∀ u ∈ x.tracker.writes, u.serial ≠ serial →
      u ∈ ByteTracker.writes { x.tracker with writeClusters := pre ++ [c'] } := by
    intro u hu hne
    obtain ⟨d, hd, hud⟩ := ByteTracker.mem_writes.mp hu
    rw [hclusters] at hd
    rcases mem_snoc.mp hd with hd | rfl
    · exact ByteTracker.mem_writes.mpr ⟨d, mem_append_left _ hd, hud⟩
    · exact ByteTracker.mem_writes.mpr ⟨c', by simp, hkeep u hud hne⟩
  have horder := h.order
  rw [hclusters, pairwise_append] at horder
  exact { h with
      fresh := fun s hle => by
        have hne := h.fresh_ne serial (by simp [hs]) hle
        simp only [update_of_ne hne]
        exact h.fresh s hle
      clusters := fun d hd => by
        rcases mem_snoc.mp hd with hd | rfl
        · exact h.clusters d (hpre d hd)
        · exact hwf
      order := by
        refine pairwise_snoc.mpr ⟨horder.1, fun d hd => ?_⟩
        refine ⟨(hbefore d hd).1, fun w hw v hv p p' hp hp' => ?_⟩
        obtain ⟨u, hu, ⟨rfl, -⟩ | ⟨hvs, hus, -⟩⟩ := hends v hv
        · exact (hbefore d hd).2 w hw v hu p p' hp hp'
        · exact (hbefore d hd).2 w hw u hu p p' hp (by rw [hus, ← hvs]; exact hp')
      writes := fun v hv => by
        obtain ⟨u, hu, ⟨rfl, hne⟩ | ⟨hvs, hus, hstart, hdata, hcomplete, heff⟩⟩ := hmem v hv
        · exact (h.writes v hu).frame le_rfl le_rfl (update_of_ne hne _ _)
        · have hok := h.writes u hu
          have heffect := (h.inFlight_of_serial (by rw [hus]; exact hs) hu).2.2
          have hser : v.serial = u.serial := hvs.trans hus.symm
          refine ⟨hser ▸ hok.serial, hstart ▸ hok.start, fun k hk => ?_, fun hopen => ?_,
            fun _ => ⟨hcomplete.le, ?_, ?_⟩⟩
          · rw [hdata]
            exact hok.effect k (hser ▸ hk)
          · omega
          · simp only [hvs, update_self]
          · rw [hser, heffect]
            exact heff
      inFlight := fun s data' effective' hs' => by
        obtain ⟨hne, hs'⟩ := pending_of_update hs' nofun
        obtain ⟨w, hw, hws, hopen⟩ := h.inFlight s data' effective' hs'
        exact ⟨w, hstay w hw (hws ▸ hne), hws, hopen⟩
      reads := fun r hr => by
        have hok := h.reads r hr
        refine ⟨hok.serial, hok.start,
          (update_of_ne (h.read_serial_ne hs hr) _ _).trans hok.pending, hok.taken,
          fun v hv p k hp hk hle => ?_⟩
        obtain ⟨u, hu, ⟨rfl, -⟩ | ⟨-, -, -, -, hcomplete, heff⟩⟩ := hmem v hv
        · exact hok.after v hu p k hp hk hle
        · have hlt := hreads heff r hr
          omega
      observations := fun o ho => by
        have hok := h.observations o ho
        refine ⟨hok.le, hok.now, hok.seen.imp_right fun ⟨k, hk⟩ => ⟨k, hk.le, hk.value,
          fun v hv p hp hlt => ?_, fun v hv p hp hlt => ?_, hk.reads⟩⟩
        · obtain ⟨u, hu, ⟨rfl, -⟩ | ⟨-, -, -, -, hcomplete, -⟩⟩ := hmem v hv
          · exact hk.after v hu p hp hlt
          · have hle := hok.le
            have hle' := hok.now
            omega
        · obtain ⟨u, hu, ⟨rfl, -⟩ | ⟨hvs, hus, hstart, -⟩⟩ := hmem v hv
          · exact hk.before v hu p hp hlt
          · exact hk.before u hu p (by rw [hus, ← hvs]; exact hp) (hstart ▸ hlt)
      covered := fun q hpos hle => by
        refine (h.covered q hpos hle).imp_left fun ⟨w, hw, hq⟩ => ?_
        by_cases heq : w.serial = serial
        · have heffect := (h.inFlight_of_serial (by rw [heq]; exact hs) hw).2.2
          rw [hq] at heffect
          obtain ⟨v, hv, hvs⟩ := hdone heffect.symm
          refine ⟨v, ByteTracker.mem_writes.mpr ⟨c', by simp, hv⟩, ?_⟩
          rw [hvs, ← heq, hq]
        · exact ⟨w, hstay w hw heq, hq⟩ }

lemma completeWrite (h : Inv g x) (hs : x.pending serial = .writing data true)
    (hreads : ∀ r ∈ x.tracker.outstandingReads, r.start < x.now) :
    ∃ b, x.tracker.completeWrite serial x.now = .ok b ∧
      Inv g { x with tracker := b, pending := update x.pending serial .idle } := by
  obtain ⟨w, hw, rfl, hopen⟩ := h.inFlight serial data true hs
  obtain ⟨pre, c, hclusters, hwc, hinc, hbefore⟩ := h.last_of_open hw hopen
  have hc : c ∈ x.tracker.writeClusters := by simp [hclusters]
  obtain ⟨c', hok, hwf, -, hwrites⟩ :=
    WriteCluster.completeWrite_wf (h.clusters c hc) le_rfl hwc hopen h.now
  have hend := h.endWrite hs hclusters hbefore hwf (fun v hv => ?_) (fun u hu hne => ?_)
    (fun _ => ?_) (fun _ => hreads)
  · obtain ⟨b, hprune, hinv⟩ := hend.prune
    refine ⟨b, ?_, hinv⟩
    rw [ByteTracker.completeWrite, hclusters, getIncomplete_of_open hinc]
    rw [hok]
    exact hprune
  · rw [hwrites] at hv
    obtain ⟨u, hu, rfl⟩ := mem_map.mp hv
    refine ⟨u, hu, ?_⟩
    by_cases heq : u.serial = w.serial
    · rw [if_pos heq]
      exact Or.inr ⟨heq, heq, rfl, rfl, rfl, rfl⟩
    · rw [if_neg heq]
      exact Or.inl ⟨rfl, heq⟩
  · rw [hwrites]
    exact mem_map.mpr ⟨u, hu, if_neg hne⟩
  · refine ⟨{ w with complete := x.now }, ?_, rfl⟩
    rw [hwrites]
    exact mem_map.mpr ⟨w, hwc, if_pos rfl⟩

lemma abortWrite (h : Inv g x) (hs : x.pending serial = .writing data false) : Inv g { x with
      tracker := x.tracker.abortWrite serial
      pending := update x.pending serial .idle } := by
  obtain ⟨w, hw, rfl, hopen⟩ := h.inFlight serial data false hs
  obtain ⟨pre, c, hclusters, hwc, hinc, hbefore⟩ := h.last_of_open hw hopen
  have hc : c ∈ x.tracker.writeClusters := by simp [hclusters]
  obtain ⟨hwf, -, hwrites⟩ := WriteCluster.abortWrite_wf (h.clusters c hc) hwc hopen
  have htracker : x.tracker.abortWrite w.serial =
      { x.tracker with writeClusters := pre ++ [c.abortWrite w.serial] } := by
    rw [ByteTracker.abortWrite, hclusters, getIncomplete_of_open hinc]
  rw [htracker]
  refine h.endWrite hs hclusters hbefore hwf (fun v hv => ?_) (fun u hu hne => ?_) nofun nofun
  · rw [hwrites] at hv
    obtain ⟨hv, hne⟩ := mem_filter.mp hv
    exact ⟨v, hv, Or.inl ⟨rfl, by simpa using hne⟩⟩
  · rw [hwrites]
    exact mem_filter.mpr ⟨hu, by simpa using hne⟩

lemma endRead (h : Inv g x) (hs : x.pending serial = .reading taken)
    (hout : ∀ r ∈ x.tracker.outstandingReads, r.serial ≠ serial) :
    Inv g { x with pending := update x.pending serial .idle } := { h with
  fresh s hle := by
    have hne := h.fresh_ne serial (by simp [hs]) hle
    simp only [update_of_ne hne]
    exact h.fresh s hle
  writes w hw := (h.writes w hw).frame le_rfl le_rfl (update_of_ne (h.write_serial_ne hs hw) _ _)
  inFlight s data effective hs' := h.inFlight s data effective (pending_of_update hs' nofun).2
  reads r hr := (h.reads r hr).frame le_rfl le_rfl (update_of_ne (hout r hr) _ _) fun _ hw => hw
  observations o ho :=
    have hok := h.observations o ho
    { hok with } }

/-- The read becomes an observation. -/
lemma observe (h : Inv g x) (hr : r ∈ x.tracker.outstandingReads) (hk : g.taken r.serial = some k)
    (l : List UInt8) :
    Inv g { x with
      tracker := { x.tracker with
        outstandingReads := x.tracker.outstandingReads.filter (·.serial ≠ r.serial)
        lastExpectedData := l
        readObservations := x.tracker.readObservations ++
          [⟨r.serial, r.start, x.now, g.value k⟩] } } := by
  have hread := h.reads r hr
  have hsub : ∀ r' ∈ x.tracker.outstandingReads.filter (·.serial ≠ r.serial),
      r' ∈ x.tracker.outstandingReads := fun r' hr' => (mem_filter.mp hr').1
  exact { h with
      writes := fun w hw => (h.writes w hw).frame le_rfl le_rfl rfl
      reads := fun r' hr' => (h.reads r' (hsub r' hr')).frame le_rfl le_rfl rfl fun _ hw => hw
      readOrder := h.readOrder.sublist filter_sublist
      observations := fun o ho => by
        rcases mem_snoc.mp ho with ho | rfl
        · have hok := h.observations o ho
          exact ⟨hok.le, hok.now, hok.seen.imp_right fun ⟨k', hk'⟩ => ⟨k', hk'.le, hk'.value,
            hk'.after, hk'.before, fun r' hr' => hk'.reads r' (hsub r' hr')⟩⟩
        · refine ⟨hread.start, le_rfl, Or.inr ⟨k, hread.taken k hk, rfl,
            fun w hw p hp hlt => hread.after w hw p k hp hk hlt.le, fun w hw p hp hlt => ?_,
            fun r' hr' k' hk' hlt => ?_⟩⟩
          · have hle := (h.writes w hw).start
            dsimp only at hlt
            omega
          · have hle := (h.reads r' (hsub r' hr')).start
            dsimp only at hlt
            omega
      firstObs := by
        obtain ⟨o, rest, hobs, hfirst⟩ := h.firstObs
        refine ⟨o, rest ++ [⟨r.serial, r.start, x.now, g.value k⟩], ?_,
          hfirst.imp_right fun hf => ⟨hf.1, fun r' hr' => hf.2 r' (hsub r' hr')⟩⟩
        rw [hobs, cons_append]
      covered := fun q hpos hle => (h.covered q hpos hle).imp_right fun hold =>
        ⟨hold.1, fun r' hr' => hold.2 r' (hsub r' hr')⟩ }

lemma completeRead (h : Inv g x) {v : UInt8} (hs : x.pending serial = .reading (some v))
    (hstart : ∀ c ∈ x.tracker.writeClusters, c.start < x.now) :
    ∃ b, x.tracker.completeRead serial x.now v = .ok (true, b) ∧
      Inv g { x with tracker := b, pending := update x.pending serial .idle } := by
  rw [ByteTracker.completeRead]
  cases hfind : x.tracker.outstandingReads.find? (·.serial = serial) with
  | none =>
    refine ⟨x.tracker, rfl, h.endRead hs fun r hr => ?_⟩
    simpa using find?_eq_none.mp hfind r hr
  | some r =>
    have hr : r ∈ x.tracker.outstandingReads := mem_of_find?_eq_some hfind
    obtain rfl : r.serial = serial := by simpa using find?_some hfind
    -- the value that the read took
    obtain ⟨k, hk, rfl⟩ : ∃ k, g.taken r.serial = some k ∧ g.value k = v := by
      have hpending := (h.reads r hr).pending
      rw [hs] at hpending
      obtain ⟨k, hk, hv⟩ := map_eq_some_iff.mp (Pending.reading.inj hpending).symm
      exact ⟨k, hk, hv⟩
    obtain ⟨l, hexpected⟩ := h.expected hr hk hstart
    obtain ⟨b, hprune, hinv⟩ := ((h.observe hr hk l).endRead hs fun r' hr' => by
      simpa using (mem_filter.mp hr').2).prune
    refine ⟨b, ?_, hinv⟩
    have hexpected' : ByteTracker.inExpectedData { x.tracker with
        outstandingReads := x.tracker.outstandingReads.filter (·.serial ≠ r.serial) }
        r.start x.now (g.value k) = .ok (true, l) := hexpected
    dsimp only
    rw [hexpected']
    dsimp only [Except.bind]
    rw [hprune]
    rfl

/-! ### Runs -/

lemma ofInitial (hnow : x.now < tickFuture) (hfresh : ∀ s, x.nextSerial ≤ s → x.pending s = .idle)
    (hidle : ∀ s data effective, x.pending s ≠ .writing data effective) (value : UInt8) :
    Inv ⟨0, fun _ => value, fun _ => none, fun _ => none⟩
      { x with tracker := .initial, memory := value } where
  now := hnow
  memory := rfl
  fresh s hle := ⟨hfresh s hle, rfl, rfl⟩
  clusters := by simp [ByteTracker.initial]
  order := List.Pairwise.nil
  writes := by simp [ByteTracker.initial, ByteTracker.writes]
  inFlight s data effective hs := absurd hs (hidle s data effective)
  reads := by simp [ByteTracker.initial]
  readOrder := List.Pairwise.nil
  observations o ho := by
    rw [mem_singleton.mp ho]
    exact ⟨le_rfl, Nat.zero_le _, Or.inl rfl⟩
  firstObs := ⟨_, [], rfl, Or.inl rfl⟩
  covered q hpos hle := absurd hle (by simpa using hpos.ne')

/-- **Every step** is accepted and keeps the invariant. -/
lemma step (h : Inv g x) {a : Act} (ha : x.Enabled a) (hc : x.Clear a) :
    ∃ x' g', x.step a = .ok (true, x') ∧ Inv g' x' := by
  cases a with
  | startRead t => exact ⟨_, g, rfl, (h.advance ha hc).startRead⟩
  | startWrite t data =>
    obtain ⟨b, hb, hinv⟩ := (h.advance ha hc).startWrite data
    refine ⟨_, g, ?_, hinv⟩
    rw [World.step, hb]
    rfl
  | takesValue serial => exact ⟨_, _, rfl, h.takesValue ha⟩
  | takesEffect serial =>
    obtain ⟨data, hs⟩ := ha
    refine ⟨_, _, ?_, h.takesEffect hs⟩
    rw [World.step, hs]
  | completeRead serial t =>
    obtain ⟨hle, v, hs⟩ := ha
    obtain ⟨b, hb, hinv⟩ := (h.advance hle hc.1).completeRead hs hc.2
    refine ⟨_, g, ?_, hinv⟩
    rw [World.step, hs]
    dsimp only
    rw [hb]
    rfl
  | completeWrite serial t =>
    obtain ⟨hle, data, hs⟩ := ha
    obtain ⟨b, hb, hinv⟩ := (h.advance hle hc.1).completeWrite hs hc.2
    refine ⟨_, g, ?_, hinv⟩
    rw [World.step, hb]
    rfl
  | abortWrite serial =>
    obtain ⟨data, hs⟩ := ha
    exact ⟨_, g, rfl, h.abortWrite hs⟩
  | reset value =>
    exact ⟨_, _, rfl, ofInitial h.now (fun s hle => (h.fresh s hle).1) hc value⟩

end Inv

namespace World

lemma Run.inv (h : Run Clear x) : ∃ g, Inv g x := by
  induction h with
  | init now memory hnow =>
    exact ⟨_, Inv.ofInitial (x := ⟨.initial, 0, now, memory, fun _ => .idle⟩) hnow
      (fun _ _ => rfl) nofun memory⟩
  | step _ ha hc hstep ih =>
    obtain ⟨g, hinv⟩ := ih
    obtain ⟨x', g', hx', hinv'⟩ := hinv.step ha hc
    rw [hx'] at hstep
    cases hstep
    exact ⟨g', hinv'⟩

/-- **Linearizable histories are accepted**: if the steps are clear, no assertion fails and every
read is answered with `true`. -/
theorem accepts_linearizable (h : Run Clear x) {a : Act} (ha : x.Enabled a) (hc : x.Clear a) :
    ∃ x', x.step a = .ok (true, x') := by
  obtain ⟨g, hinv⟩ := h.inv
  obtain ⟨x', -, hx', -⟩ := hinv.step ha hc
  exact ⟨x', hx'⟩

/-- A write of 7 and then a read of it. -/
theorem accepts_linearizable_seven : ∃ x, Run Clear x ∧ x.pending 1 = .reading (some 7) ∧
    ∃ x', x.step (.completeRead 1 4) = .ok (true, x') := by
  have h₀ : Run Clear ⟨.initial, 0, 0, 0, fun _ => .idle⟩ := .init 0 0 (by decide)
  have h₁ := h₀.step (a := .startWrite 1 7) (Nat.zero_le _) (by decide : 1 < tickFuture) rfl
  have h₂ := h₁.step (a := .takesEffect 0) ⟨7, rfl⟩ trivial rfl
  have h₃ := h₂.step (a := .completeWrite 0 2) ⟨by decide, 7, rfl⟩ ⟨by decide, nofun⟩ rfl
  have h₄ := h₃.step (a := .startRead 3) (by decide : 2 ≤ 3) (by decide : 3 < tickFuture) rfl
  have h₅ := h₄.step (a := .takesValue 1) rfl trivial rfl
  refine ⟨_, h₅, rfl, accepts_linearizable h₅ ⟨by decide, 7, rfl⟩ ⟨by decide, ?_⟩⟩
  intro c hc
  rw [mem_singleton.mp hc]
  decide

/-- **Histories not accepted.** A read completes at the tick of a write's start; a write completes
at the start of a read that took the value before it; a write completes after a reset. -/
theorem linearizable_rejected : (∃ x, Run (fun _ _ => True) x ∧ x.Enabled (.completeRead 1 5) ∧
      x.step (.completeRead 1 5) = .error .noOverlap) ∧
    (∃ x x', Run (fun _ _ => True) x ∧ x.Enabled (.completeRead 1 12) ∧
      x.step (.completeRead 1 12) = .ok (false, x')) ∧
    ∃ x, Run (fun _ _ => True) x ∧ x.Enabled (.completeRead 1 4) ∧
      x.step (.completeRead 1 4) = .error .noOverlap := by
  have h₀ : Run (fun _ _ => True) ⟨.initial, 0, 0, 0, fun _ => .idle⟩ := .init 0 0 (by decide)
  refine ⟨?_, ?_, ?_⟩
  · have h₁ := h₀.step (a := .startWrite 5 7) (Nat.zero_le _) trivial rfl
    have h₂ := h₁.step (a := .startRead 5) (le_refl 5) trivial rfl
    have h₃ := h₂.step (a := .takesValue 1) rfl trivial rfl
    exact ⟨_, h₃, ⟨le_refl 5, 0, rfl⟩, rfl⟩
  · have h₁ := h₀.step (a := .startWrite 1 7) (Nat.zero_le _) trivial rfl
    have h₂ := h₁.step (a := .startRead 10) (by decide : 1 ≤ 10) trivial rfl
    have h₃ := h₂.step (a := .takesValue 1) rfl trivial rfl
    have h₄ := h₃.step (a := .takesEffect 0) ⟨7, rfl⟩ trivial rfl
    have h₅ := h₄.step (a := .completeWrite 0 10) ⟨le_refl 10, 7, rfl⟩ trivial rfl
    exact ⟨_, _, h₅, ⟨(by decide : 10 ≤ 12), 0, rfl⟩, rfl⟩
  · have h₁ := h₀.step (a := .startWrite 1 7) (Nat.zero_le _) trivial rfl
    have h₂ := h₁.step (a := .takesEffect 0) ⟨7, rfl⟩ trivial rfl
    have h₃ := h₂.step (a := .reset 7) trivial trivial rfl
    have h₄ := h₃.step (a := .completeWrite 0 2) ⟨(by decide : 1 ≤ 2), 7, rfl⟩ trivial rfl
    have h₅ := h₄.step (a := .startRead 3) (by decide : 2 ≤ 3) trivial rfl
    have h₆ := h₅.step (a := .takesValue 1) rfl trivial rfl
    exact ⟨_, h₆, ⟨(by decide : 3 ≤ 4), 7, rfl⟩, rfl⟩

end World

end MemChecker

end ShifDram
