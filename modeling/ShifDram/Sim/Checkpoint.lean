import ShifDram.Sim.EventQueue

/-!
Events in checkpoints (`sim/eventq.cc`, `sim/serialize.hh`).

`UNSERIALIZE_EVENT` reads an event's time, priority and flags and then calls
`checkpointReschedule`, which inserts the event if its `Scheduled` flag is up; `unserialize`,
however, takes the flag down exactly for the events that are to be inserted.
-/

namespace ShifDram

open List Bins

structure EventSection where
  when : ℕ
  priority : ℤ
  scheduled : Bool
  squashed : Bool
  deriving DecidableEq, Repr

namespace EventQueue

variable {ε : Type*} [DecidableEq ε]

def serialize (e : Event ε) : EventSection := ⟨e.when, e.priority, e.scheduled, e.squashed⟩

/-- `Event::unserialize`: the checkpoint's flags, both cleared if scheduled and not squashed. -/
def readSection (cp : EventSection) (e : Event ε) : Event ε :=
  let e := { e with
    when := cp.when, priority := cp.priority, scheduled := cp.scheduled, squashed := cp.squashed }
  if e.scheduled && !e.squashed then { e with scheduled := false, squashed := false } else e

def unserialize (q : EventQueue ε) (e : ε) (cp : EventSection) : Except EventAbort (EventQueue ε) :=
  if (q.event e).scheduled then .error .assertion else .ok (q.modify e (readSection cp))

def checkpointReschedule (q : EventQueue ε) (rounds : ℕ) (e : ε) :
    Except EventAbort (EventQueue ε) :=
  if (q.event e).scheduled then q.insert rounds e else .ok q

def unserializeEvent (q : EventQueue ε) (rounds : ℕ) (e : ε) (cp : EventSection) :
    Except EventAbort (EventQueue ε) :=
  (q.unserialize e cp).bind fun q => q.checkpointReschedule rounds e

/-- The events are read one after the other. -/
def unserializeEvents (old : ε → Event ε) (rounds : ℕ) (q : EventQueue ε) :
    List ε → Except EventAbort (EventQueue ε)
  | [] => .ok q
  | e :: es =>
    (q.unserializeEvent rounds e (serialize (old e))).bind fun q =>
      unserializeEvents old rounds q es

/-- No events, and none marked scheduled. -/
structure Fresh (q : EventQueue ε) : Prop where
  head : q.head = none
  idle : ∀ e, (q.event e).scheduled = false

/-- `checkpointReschedule` will insert the event. -/
def inserted (e : Event ε) : Bool := e.scheduled && e.squashed

/-- While events are read: those inserted among `done` are in the queue and marked scheduled. -/
structure Kept (old : ε → Event ε) (done : List ε) (q : EventQueue ε) (bins : List (ε × List ε)) :
    Prop where
  stored : Stores q.event q.head bins
  nodup : (flat bins).Nodup
  mem : ∀ e, e ∈ flat bins ↔ e ∈ done ∧ inserted (old e) = true
  scheduled : ∀ e, (q.event e).scheduled = true ↔ e ∈ done ∧ inserted (old e) = true

variable {old : ε → Event ε} {q : EventQueue ε} {done : List ε} {bins : List (ε × List ε)} {e : ε}

omit [DecidableEq ε] in
lemma Fresh.kept (h : q.Fresh) (old : ε → Event ε) : Kept old [] q [] :=
  ⟨h.head, nodup_nil, by simp, fun e => by simp [h.idle e]⟩

omit [DecidableEq ε] in
lemma scheduled_readSection (e e' : Event ε) :
    (readSection (serialize e) e').scheduled = inserted e := by
  rcases e with ⟨_, _, _, _, scheduled, squashed⟩
  cases scheduled <;> cases squashed <;> rfl

lemma Kept.unserializeEvent (h : Kept old done q bins) (he : e ∉ done) :
    ∃ q' bins', (∀ n ≥ bins.length, q.unserializeEvent n e (serialize (old e)) = .ok q') ∧
      Kept old (done ++ [e]) q' bins' := by
  have hnot : e ∉ flat bins := fun hmem => he ((h.mem e).mp hmem).1
  have hidle : (q.event e).scheduled = false :=
    Bool.eq_false_iff.mpr fun hs => he ((h.scheduled e).mp hs).1
  set q₁ := q.modify e (readSection (serialize (old e))) with hq₁
  have hread : ∀ n, q.unserializeEvent n e (serialize (old e)) = q₁.checkpointReschedule n e := by
    intro n
    rw [EventQueue.unserializeEvent, unserialize, hidle]
    rfl
  have hflag : (q₁.event e).scheduled = inserted (old e) := by
    rw [hq₁, modify_self, scheduled_readSection]
  have hother : ∀ a, a ≠ e → q₁.event a = q.event a := fun a ha => modify_of_ne q _ ha
  -- the events in the queue are not touched
  have hstored : Stores q₁.event q₁.head bins := by
    refine Bins.Stored.congr h.stored (fun a ha => ?_) fun b hb => ?_
    · rw [hother a fun heq => hnot (heq ▸ ha)]
    · have hb' := mem_flat.mpr ⟨b, hb, mem_cons_self⟩
      rw [hother b.1 fun heq => hnot (heq ▸ hb')]
  -- the flags after the event was read
  have hscheduled : ∀ a, (q₁.event a).scheduled = true ↔
      a ∈ done ++ [e] ∧ inserted (old a) = true := by
    intro a
    by_cases ha : a = e
    · subst ha
      rw [hflag]
      simp
    · rw [hother a ha, h.scheduled a]
      simp [ha]
  cases hins : inserted (old e) with
  | true =>
    obtain ⟨m, p, hok, hrelinked, hbins⟩ := insert_ok hstored h.nodup hnot
    refine ⟨{ q₁ with event := m, head := p }, _, fun n hn => ?_, hbins, ?_, fun a => ?_,
      fun a => ?_⟩
    · rw [hread, checkpointReschedule, hflag, hins, if_pos rfl, hok n hn]
    · have hperm : (flat (put (keyOf q₁.event) e bins)).Perm (e :: flat bins) := by
        rw [flat_put]
        refine perm_middle.trans (List.Perm.cons _ ?_)
        rw [← flat_append, takeWhile_append_dropWhile]
      exact hperm.nodup_iff.mpr (nodup_cons.mpr ⟨hnot, h.nodup⟩)
    · rw [mem_flat_put, h.mem a, mem_append, mem_singleton]
      constructor
      · rintro (rfl | ha)
        · exact ⟨Or.inr rfl, hins⟩
        · exact ⟨Or.inl ha.1, ha.2⟩
      · rintro ⟨ha | rfl, hold⟩
        · exact Or.inr ⟨ha, hold⟩
        · exact Or.inl rfl
    · rw [hrelinked.scheduled a]
      exact hscheduled a
  | false =>
    refine ⟨q₁, bins, fun n _ => ?_, hstored, h.nodup, fun a => ?_, hscheduled⟩
    · rw [hread, checkpointReschedule, hflag, hins]
      rfl
    · rw [h.mem a, mem_append, mem_singleton]
      refine ⟨fun ha => ⟨Or.inl ha.1, ha.2⟩, ?_⟩
      rintro ⟨ha | rfl, hold⟩
      · exact ⟨ha, hold⟩
      · rw [hins] at hold
        cases hold

lemma Kept.unserializeEvents (h : Kept old done q bins) (es : List ε)
    (hnodup : (done ++ es).Nodup) :
    ∃ q' bins' n₀, (∀ n ≥ n₀, q.unserializeEvents old n es = .ok q') ∧
      Kept old (done ++ es) q' bins' := by
  induction es generalizing done q bins with
  | nil => exact ⟨q, bins, 0, fun _ _ => rfl, by rwa [append_nil]⟩
  | cons e es ih =>
    have he : e ∉ done := fun hmem => (nodup_append.mp hnodup).2.2 e hmem e mem_cons_self rfl
    obtain ⟨q₁, bins₁, hok₁, hkept₁⟩ := h.unserializeEvent he
    rw [← singleton_append, ← append_assoc] at hnodup ⊢
    obtain ⟨q', bins', n₀, hok, hkept⟩ := ih hkept₁ hnodup
    refine ⟨q', bins', max bins.length n₀, fun n hn => ?_, hkept⟩
    rw [singleton_append, EventQueue.unserializeEvents, hok₁ n (le_of_max_le_left hn)]
    exact hok n (le_of_max_le_right hn)

/-- The queue holds exactly the events scheduled and not squashed, with time and priority, no other
marked. -/
def Restored (old : ε → Event ε) (es : List ε) (q : EventQueue ε) : Prop :=
  ∃ l, (∃ n₀, ∀ n ≥ n₀, q.dump n = .ok l) ∧ l.Nodup ∧
    (∀ e, e ∈ l ↔ e ∈ es ∧ (old e).scheduled = true ∧ (old e).squashed = false) ∧
    (∀ e ∈ l, (q.event e).when = (old e).when ∧ (q.event e).priority = (old e).priority) ∧
    ∀ e, (q.event e).scheduled = true ↔ e ∈ l

/-- **Checkpoints keep events only if none is scheduled**: reading what was written into a fresh
system goes through, and restores the queue if and only if none of the events was scheduled. -/
theorem restored_iff (old : ε → Event ε) (es : List ε) (q : EventQueue ε) (hes : es.Nodup)
    (hq : q.Fresh) :
    ∃ q' n₀, (∀ n ≥ n₀, q.unserializeEvents old n es = .ok q') ∧
      (Restored old es q' ↔ ∀ e ∈ es, (old e).scheduled = false) := by
  obtain ⟨q', bins, n₀, hok, hkept⟩ := (hq.kept old).unserializeEvents es hes
  refine ⟨q', n₀, hok, fun hrestored e he => ?_, fun hnone => ?_⟩
  · obtain ⟨l, -, -, hmem, -, hflag⟩ := hrestored
    by_contra hs
    rw [Bool.not_eq_false] at hs
    have hiff : (inserted (old e) = true) ↔ (old e).squashed = false := by
      have h₁ := (hkept.scheduled e).symm.trans ((hflag e).trans (hmem e))
      simpa [he, hs] using h₁
    -- the two conditions exclude each other
    rw [inserted, hs] at hiff
    cases hsq : (old e).squashed <;> simp [hsq] at hiff
  · have hno : ∀ e, ¬ (e ∈ es ∧ inserted (old e) = true) := by
      rintro e ⟨he, hins⟩
      rw [inserted, hnone e he] at hins
      cases hins
    refine ⟨flat bins, ⟨_, fun n hn => hkept.stored.dump hn⟩, hkept.nodup, fun e => ?_,
      fun e he => absurd ((hkept.mem e).mp he) (hno e), fun e => ?_⟩
    · rw [hkept.mem e]
      refine iff_of_false (hno e) ?_
      rintro ⟨he, hs, -⟩
      rw [hnone e he] at hs
      cases hs
    · rw [hkept.scheduled e, hkept.mem e]

def blank : EventQueue ℕ := ⟨fun _ => ⟨none, none, 0, 0, false, false⟩, none, 0⟩

lemma fresh_blank : blank.Fresh := ⟨rfl, fun _ => rfl⟩

theorem restored_iff_idle : ∃ q' n₀,
    (∀ n ≥ n₀, blank.unserializeEvents (fun _ => ⟨none, none, 3, 1, false, true⟩) n [0, 1] =
      .ok q') ∧
      (Restored (fun _ => ⟨none, none, 3, 1, false, true⟩) [0, 1] q' ↔
        ∀ e ∈ [0, 1], (⟨none, none, 3, 1, false, true⟩ : Event ℕ).scheduled = false) :=
  restored_iff (fun _ => ⟨none, none, 3, 1, false, true⟩) [0, 1] blank (by decide) fresh_blank

/-- Event 0 is scheduled at tick 5, event 1 at tick 7 and squashed. -/
def oneSquashed : ℕ → Event ℕ := fun e =>
  if e = 0 then ⟨none, none, 5, 0, true, false⟩ else ⟨none, none, 7, 0, true, true⟩

/-- The scheduled event is lost, the squashed one scheduled instead. -/
theorem not_restored : ∃ q', (∀ n, blank.unserializeEvents oneSquashed n [0, 1] = .ok q') ∧
      (q'.event 0).scheduled = false ∧ (q'.event 1).scheduled = true ∧
      (∀ n ≥ 1, q'.dump n = .ok [1]) ∧ ¬ Restored oneSquashed [0, 1] q' := by
  refine ⟨_, fun n => rfl, rfl, rfl, fun n hn => ?_, ?_⟩
  · have hdump : ∀ {q : EventQueue ℕ}, Stores q.event q.head [(1, [])] → q.dump n = .ok [1] :=
      fun hstored => hstored.dump hn
    exact hdump ⟨rfl, rfl, rfl⟩
  · rintro ⟨l, -, -, hmem, -, hflag⟩
    have hin := (hmem 1).mp ((hflag 1).mp rfl)
    exact absurd hin.2.2 (by decide)

end EventQueue

end ShifDram
