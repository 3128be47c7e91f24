import ShifDram.Control.Fallible
import ShifDram.Queue.Bins
import Mathlib.Data.Prod.Lex

/-!
The event queue (`sim/eventq.hh`, `sim/eventq_impl.hh`, `sim/eventq.cc`).

The queue is a linked list of bins, one for each time and priority, and a bin is a stack of
events. Only the top of a bin has a good link to the next bin; the links of those below go stale.
Events are modelled with their links; the walks of `insert` and `remove` get as many rounds as
asked for.
-/

namespace ShifDram

open List Function Bins

/-- `Event`: links, time, priority and flags. -/
structure Event (ε : Type*) where
  nextBin : Option ε
  nextInBin : Option ε
  when : ℕ
  priority : ℤ
  scheduled : Bool
  squashed : Bool

namespace Event

variable {ε : Type*}

def lt (l r : Event ε) : Prop := l.when < r.when ∨ (l.when = r.when ∧ l.priority < r.priority)

def le (l r : Event ε) : Prop := l.when < r.when ∨ (l.when = r.when ∧ l.priority ≤ r.priority)

def eq (l r : Event ε) : Prop := l.when = r.when ∧ l.priority = r.priority

instance (l r : Event ε) : Decidable (l.lt r) := inferInstanceAs (Decidable (_ ∨ _))

instance (l r : Event ε) : Decidable (l.le r) := inferInstanceAs (Decidable (_ ∨ _))

instance (l r : Event ε) : Decidable (l.eq r) := inferInstanceAs (Decidable (_ ∧ _))

/-- The time and the priority, in the order of the queue. -/
def key (e : Event ε) : ℕ ×ₗ ℤ := toLex (e.when, e.priority)

lemma lt_iff (l r : Event ε) : l.lt r ↔ l.key < r.key := by
  rw [key, key, Prod.Lex.toLex_lt_toLex, Event.lt]

lemma le_iff (l r : Event ε) : l.le r ↔ l.key ≤ r.key := by
  rw [key, key, Prod.Lex.toLex_le_toLex, Event.le]

lemma eq_iff (l r : Event ε) : l.eq r ↔ l.key = r.key := by
  rw [key, key, toLex_inj, Prod.mk.injEq, Event.eq]

end Event

/-- An assertion, `remove`'s panic, a null pointer, or a walk cut off. -/
inductive EventAbort where
  | assertion
  | eventNotFound
  | noEvent
  | cutOff
  deriving DecidableEq, Repr

/-- `EventQueue`, with the events in memory. -/
structure EventQueue (ε : Type*) where
  event : ε → Event ε
  head : Option ε
  curTick : ℕ

namespace EventQueue

variable {ε : Type*} [DecidableEq ε] {q : EventQueue ε} {b : ε × List ε}

/-! ### The functions of the source -/

/-- `Event::insertBefore`: the memory after it. -/
def insertBefore (m : ε → Event ε) (event : ε) : Option ε → ε → Event ε
  | none => update m event { m event with nextBin := none, nextInBin := none }
  | some curr =>
    if (m event).lt (m curr) then
      update m event { m event with nextBin := some curr, nextInBin := none }
    else
      update m event { m event with nextBin := (m curr).nextBin, nextInBin := some curr }

/-- `while (curr && *curr < *event)`: the bins around the event's place. -/
def findBin (m : ε → Event ε) (event : ε) : ℕ → ε → Option ε → Except EventAbort (ε × Option ε)
  | _, prev, none => .ok (prev, none)
  | 0, _, some _ => .error .cutOff
  | n + 1, prev, some curr =>
    if (m curr).lt (m event) then findBin m event n curr (m curr).nextBin
    else .ok (prev, some curr)

def setNextBin (m : ε → Event ε) (prev : ε) (bin : Option ε) : ε → Event ε :=
  update m prev { m prev with nextBin := bin }

def insert (q : EventQueue ε) (rounds : ℕ) (event : ε) : Except EventAbort (EventQueue ε) :=
  match q.head with
  | none => .ok { q with event := insertBefore q.event event none, head := some event }
  | some head =>
    if (q.event event).le (q.event head) then
      .ok { q with event := insertBefore q.event event (some head), head := some event }
    else
      (findBin q.event event rounds head (q.event head).nextBin).map fun (prev, curr) =>
        { q with event := setNextBin (insertBefore q.event event curr) prev (some event) }

/-- `while (event != next)`: the event above. -/
def findItem (m : ε → Event ε) (event : ε) : ℕ → ε → Option ε → Except EventAbort ε
  | _, _, none => .error .eventNotFound
  | 0, curr, some next => if event = next then .ok curr else .error .cutOff
  | n + 1, curr, some next =>
    if event = next then .ok curr else findItem m event n next (m next).nextInBin

/-- `Event::removeItem`: the memory and the new top. -/
def removeItem (m : ε → Event ε) (rounds : ℕ) (event top : ε) :
    Except EventAbort ((ε → Event ε) × Option ε) :=
  if event = top then
    match (m top).nextInBin with
    | none => .ok (m, (m top).nextBin)
    | some next => .ok (setNextBin m next (m top).nextBin, some next)
  else
    (findItem m event rounds top (m top).nextInBin).map fun curr =>
      (update m curr { m curr with nextInBin := (m event).nextInBin }, some top)

def remove (q : EventQueue ε) (rounds : ℕ) (event : ε) : Except EventAbort (EventQueue ε) :=
  match q.head with
  | none => .error .eventNotFound
  | some head =>
    if (q.event head).eq (q.event event) then
      (removeItem q.event rounds event head).map fun (m, top) => { q with event := m, head := top }
    else
      (findBin q.event event rounds head (q.event head).nextBin).bind fun (prev, curr) =>
        match curr with
        | none => .error .eventNotFound
        | some curr =>
          if ¬ (q.event curr).eq (q.event event) then .error .eventNotFound
          else
            (removeItem q.event rounds event curr).map fun (m, top) =>
              { q with event := setNextBin m prev top }

def modify (q : EventQueue ε) (event : ε) (f : Event ε → Event ε) : EventQueue ε :=
  { q with event := update q.event event (f (q.event event)) }

/-- `event->setWhen(when, this)`. -/
def setWhen (q : EventQueue ε) (event : ε) (when : ℕ) : EventQueue ε :=
  q.modify event fun e => { e with when := when }

/-- The `Scheduled` flag is set or cleared. -/
def setScheduled (q : EventQueue ε) (event : ε) (b : Bool) : EventQueue ε :=
  q.modify event fun e => { e with scheduled := b }

/-- The `Squashed` flag is set or cleared. -/
def setSquashed (q : EventQueue ε) (event : ε) (b : Bool) : EventQueue ε :=
  q.modify event fun e => { e with squashed := b }

/-- `EventQueue::schedule` with one thread. -/
def schedule (q : EventQueue ε) (rounds : ℕ) (event : ε) (when : ℕ) :
    Except EventAbort (EventQueue ε) :=
  if when < q.curTick ∨ (q.event event).scheduled = true then .error .assertion
  else ((q.setWhen event when).insert rounds event).map fun q => q.setScheduled event true

def deschedule (q : EventQueue ε) (rounds : ℕ) (event : ε) : Except EventAbort (EventQueue ε) :=
  if (q.event event).scheduled = false then .error .assertion
  else (q.remove rounds event).map fun q => (q.setSquashed event false).setScheduled event false

def reschedule (q : EventQueue ε) (rounds : ℕ) (event : ε) (when : ℕ) (always : Bool) :
    Except EventAbort (EventQueue ε) :=
  if when < q.curTick ∨ (always = false ∧ (q.event event).scheduled = false) then .error .assertion
  else
    (if (q.event event).scheduled then q.remove rounds event else .ok q).bind fun q =>
      ((q.setWhen event when).insert rounds event).map fun q =>
        (q.setSquashed event false).setScheduled event true

def pop (q : EventQueue ε) (event : ε) : EventQueue ε :=
  match (q.event event).nextInBin with
  | some next =>
    { q with event := setNextBin q.event next (q.event event).nextBin, head := some next }
  | none => { q with head := (q.event event).nextBin }

/-- `EventQueue::serviceOne`: the event, and if its handler runs. -/
def serviceOne (q : EventQueue ε) : Except EventAbort ((ε × Bool) × EventQueue ε) :=
  match q.head with
  | none => .error .noEvent
  | some event =>
    let q := (q.setScheduled event false).pop event
    if (q.event event).squashed then .ok ((event, false), q.setSquashed event false)
    else .ok ((event, true), { q with curTick := (q.event event).when })

/-- The inner loop of `EventQueue::dump`. -/
def dumpBin (m : ε → Event ε) : ℕ → Option ε → Except EventAbort (List ε)
  | _, none => .ok []
  | 0, some _ => .error .cutOff
  | n + 1, some event => (dumpBin m n (m event).nextInBin).map (event :: ·)

/-- The outer loop of `EventQueue::dump`. -/
def dumpBins (m : ε → Event ε) (rounds : ℕ) : ℕ → Option ε → Except EventAbort (List ε)
  | _, none => .ok []
  | 0, some _ => .error .cutOff
  | n + 1, some event =>
    (dumpBin m rounds (some event)).bind fun bin =>
      (dumpBins m rounds n (m event).nextBin).map (bin ++ ·)

/-- `EventQueue::dump`: the events in the queue. -/
def dump (q : EventQueue ε) (rounds : ℕ) : Except EventAbort (List ε) :=
  dumpBins q.event rounds rounds q.head

@[simp] lemma modify_self (e : ε) (f : Event ε → Event ε) :
    (q.modify e f).event e = f (q.event e) := update_self ..

lemma modify_of_ne (q : EventQueue ε) {a e : ε} (f : Event ε → Event ε) (h : a ≠ e) :
    (q.modify e f).event a = q.event a := update_of_ne h ..

/-! ### Bins in memory -/

variable {m m' : ε → Event ε} {e a prev top : ε} {p : Option ε} {n : ℕ} {rest : List ε}
  {bins back : List (ε × List ε)}

def Stores (m : ε → Event ε) (p : Option ε) (bins : List (ε × List ε)) : Prop :=
  Bins.Stored (fun a => (m a).nextBin) (fun a => (m a).nextInBin) p bins

def keyOf (m : ε → Event ε) (a : ε) : ℕ ×ₗ ℤ := (m a).key

structure Relinked (m m' : ε → Event ε) : Prop where
  when : ∀ a, (m' a).when = (m a).when
  priority : ∀ a, (m' a).priority = (m a).priority
  scheduled : ∀ a, (m' a).scheduled = (m a).scheduled
  squashed : ∀ a, (m' a).squashed = (m a).squashed

omit [DecidableEq ε] in
lemma Relinked.trans {m'' : ε → Event ε} (h : Relinked m m') (h' : Relinked m' m'') :
    Relinked m m'' :=
  ⟨fun a => (h'.when a).trans (h.when a), fun a => (h'.priority a).trans (h.priority a),
    fun a => (h'.scheduled a).trans (h.scheduled a), fun a => (h'.squashed a).trans (h.squashed a)⟩

omit [DecidableEq ε] in
lemma Relinked.refl (m : ε → Event ε) : Relinked m m :=
  ⟨fun _ => rfl, fun _ => rfl, fun _ => rfl, fun _ => rfl⟩

omit [DecidableEq ε] in
lemma Relinked.keyOf_eq (h : Relinked m m') : keyOf m' = keyOf m := by
  funext a
  rw [keyOf, keyOf, Event.key, Event.key, h.when, h.priority]

lemma relinked_update (m : ε → Event ε) (a : ε) (bin inBin : Option ε) :
    Relinked m (update m a { m a with nextBin := bin, nextInBin := inBin }) := by
  refine ⟨fun b => ?_, fun b => ?_, fun b => ?_, fun b => ?_⟩ <;>
  · by_cases hb : b = a
    · rw [hb, update_self]
    · rw [update_of_ne hb]

lemma insertBefore_eq (m : ε → Event ε) (e : ε) (p : Option ε) : ∃ bin inBin,
    insertBefore m e p = update m e { m e with nextBin := bin, nextInBin := inBin } := by
  cases p with
  | none => exact ⟨none, none, rfl⟩
  | some curr =>
    rw [insertBefore]
    split_ifs
    · exact ⟨_, _, rfl⟩
    · exact ⟨_, _, rfl⟩

/-- `insertBefore` puts the event on top of the first bin, or into one before it. -/
lemma Stores.insertBefore (h : Stores m p bins) (he : e ∉ flat bins) :
    Stores (insertBefore m e p) (some e) (onTop (keyOf m) e bins) := by
  obtain ⟨bin, inBin, heq⟩ := insertBefore_eq m e p
  have hsame : ∀ a ∈ flat bins, EventQueue.insertBefore m e p a = m a := by
    intro a ha
    have hne : a ≠ e := fun h => he (h ▸ ha)
    rw [heq, update_of_ne hne]
  have hbins : Stores (EventQueue.insertBefore m e p) p bins := h.congr
    (fun a ha => by rw [hsame a ha])
    fun b hb => by rw [hsame b.1 (mem_flat.mpr ⟨b, hb, mem_cons_self⟩)]
  cases bins with
  | nil =>
    cases h
    refine ⟨rfl, ?_, ?_⟩ <;> simp [EventQueue.insertBefore, Bins.Linked, Bins.Stored]
  | cons b bins =>
    obtain ⟨rfl, hlinked, hstored⟩ := h
    obtain ⟨-, hlinked', hstored'⟩ := hbins
    rw [onTop]
    by_cases hlt : keyOf m e < keyOf m b.1
    · rw [if_pos hlt]
      have hself : EventQueue.insertBefore m e (some b.1) e =
          { m e with nextBin := some b.1, nextInBin := none } := by
        rw [EventQueue.insertBefore, if_pos ((Event.lt_iff _ _).mpr hlt), update_self]
      refine ⟨rfl, ?_, ?_⟩
      · dsimp only
        rw [hself]
        rfl
      · dsimp only
        rw [hself]
        exact ⟨rfl, hlinked', hstored'⟩
    · rw [if_neg hlt]
      have hself : EventQueue.insertBefore m e (some b.1) e =
          { m e with nextBin := (m b.1).nextBin, nextInBin := some b.1 } := by
        rw [EventQueue.insertBefore, if_neg (mt (Event.lt_iff _ _).mp hlt), update_self]
      have htop := hsame b.1 mem_cons_self
      refine ⟨rfl, ?_, ?_⟩
      · dsimp only
        rw [hself]
        exact ⟨rfl, hlinked'⟩
      · dsimp only
        rw [hself]
        dsimp only at hstored' ⊢
        rwa [htop] at hstored'

omit [DecidableEq ε] in
/-- The walk ends between the bins before the event and the others. -/
lemma Stores.findBin (h : Stores m p bins) (e prev : ε) (hn : bins.length ≤ n) :
    findBin m e n prev p = .ok (lastTop prev (bins.takeWhile (earlier (keyOf m) (keyOf m e))),
        first (bins.dropWhile (earlier (keyOf m) (keyOf m e)))) := by
  induction bins generalizing n prev p with
  | nil =>
    cases h
    rw [EventQueue.findBin]
    rfl
  | cons b bins ih =>
    obtain ⟨rfl, -, hstored⟩ := h
    obtain ⟨n, rfl⟩ : ∃ k, n = k + 1 := ⟨n - 1, by simp at hn; omega⟩
    rw [EventQueue.findBin]
    by_cases hlt : keyOf m b.1 < keyOf m e
    · have hearlier : earlier (keyOf m) (keyOf m e) b = true := decide_eq_true hlt
      rw [if_pos ((Event.lt_iff _ _).mpr hlt), takeWhile_cons_of_pos hearlier,
        dropWhile_cons_of_pos hearlier]
      exact ih hstored b.1 (by simpa using hn)
    · have hearlier : ¬ earlier (keyOf m) (keyOf m e) b = true := by
        simpa [earlier] using hlt
      rw [if_neg (mt (Event.lt_iff _ _).mp hlt), takeWhile_cons_of_neg hearlier,
        dropWhile_cons_of_neg hearlier]
      rfl

/-- The link of a node behind which bins are exchanged. -/
lemma Stores.setNextBin {front back' : List (ε × List ε)} {top : Option ε}
    (h : Stores m p (b :: (front ++ back))) (hnodup : (flat (b :: (front ++ back))).Nodup)
    (hfront : ∀ a ∈ flat (b :: front), m' a = m a)
    (hback : Stores m' top back') (hnot : ∀ a ∈ flat back', a ∉ flat (b :: front)) :
    Stores (setNextBin m' (lastTop b.1 front) top) p (b :: (front ++ back')) := by
  have hlast := lastTop_mem b front
  have hother : ∀ a, a ≠ lastTop b.1 front →
      EventQueue.setNextBin m' (lastTop b.1 front) top a = m' a := fun a ha => by
    rw [EventQueue.setNextBin, update_of_ne ha]
  have hinBin : ∀ a, (EventQueue.setNextBin m' (lastTop b.1 front) top a).nextInBin =
      (m' a).nextInBin := by
    intro a
    by_cases ha : a = lastTop b.1 front
    · rw [ha, EventQueue.setNextBin, update_self]
    · rw [hother a ha]
  refine Bins.Stored.splice h (fun a ha => ?_) (fun a ha hne => ?_) ?_ ?_
  · rw [hinBin, hfront a ha]
  · rw [hother a hne, hfront a ha]
  · rw [← cons_append, flat_append] at hnodup
    exact (nodup_append.mp hnodup).1
  · have hself : (EventQueue.setNextBin m' (lastTop b.1 front) top
        (lastTop b.1 front)).nextBin = top := by
      rw [EventQueue.setNextBin, update_self]
    rw [hself]
    refine Bins.Stored.congr hback (fun a _ => hinBin a) fun c hc => ?_
    have hne : c.1 ≠ lastTop b.1 front := by
      intro heq
      exact hnot c.1 (mem_flat.mpr ⟨c, hc, mem_cons_self⟩) (heq ▸ hlast)
    rw [hother c.1 hne]

lemma relinked_setNextBin (m : ε → Event ε) (a : ε) (bin : Option ε) :
    Relinked m (setNextBin m a bin) := relinked_update m a bin (m a).nextInBin

lemma relinked_insertBefore (m : ε → Event ε) (e : ε) (p : Option ε) :
    Relinked m (insertBefore m e p) := by
  obtain ⟨bin, inBin, heq⟩ := insertBefore_eq m e p
  rw [heq]
  exact relinked_update m e bin inBin

omit [DecidableEq ε] in
lemma Stores.split (h : Stores m p (b :: bins)) (hnodup : (flat (b :: bins)).Nodup) (e : ε) :
    ∃ front back, front = bins.takeWhile (earlier (keyOf m) (keyOf m e)) ∧
      back = bins.dropWhile (earlier (keyOf m) (keyOf m e)) ∧ bins = front ++ back ∧
      (∀ n ≥ bins.length, EventQueue.findBin m e n b.1 (m b.1).nextBin =
        .ok (lastTop b.1 front, first back)) ∧
      Stores m (first back) back ∧ ∀ a ∈ flat back, a ∉ flat (b :: front) := by
  refine ⟨_, _, rfl, rfl, takeWhile_append_dropWhile.symm,
    fun n hn => Stores.findBin h.2.2 e b.1 hn, ?_, ?_⟩
  · rw [← takeWhile_append_dropWhile (p := earlier (keyOf m) (keyOf m e)) (l := bins)] at h
    have hlast := Bins.Stored.of_lastTop h
    rwa [hlast.eq_first] at hlast
  · rw [← takeWhile_append_dropWhile (p := earlier (keyOf m) (keyOf m e)) (l := bins),
      ← cons_append, flat_append] at hnodup
    intro a ha ha'
    exact (nodup_append.mp hnodup).2.2 a ha' a ha rfl

/-- **`insert`** puts the event on top of its bin. -/
lemma insert_ok (h : Stores q.event q.head bins) (hnodup : (flat bins).Nodup) (he : e ∉ flat bins) :
    ∃ m' p', (∀ n ≥ bins.length, q.insert n e = .ok { q with event := m', head := p' }) ∧
      Relinked q.event m' ∧ Stores m' p' (put (keyOf q.event) e bins) := by
  cases bins with
  | nil =>
    have hhead : q.head = none := h
    have hstored := h.insertBefore he
    exact ⟨_, _, fun n _ => by rw [insert, hhead], relinked_insertBefore _ _ _, hstored⟩
  | cons b bins =>
    have hhead : q.head = some b.1 := h.1
    by_cases hle : keyOf q.event e ≤ keyOf q.event b.1
    · have hstored := h.insertBefore he
      rw [hhead] at hstored
      refine ⟨EventQueue.insertBefore q.event e (some b.1), some e, fun n _ => ?_,
        relinked_insertBefore _ _ _, ?_⟩
      · rw [insert, hhead]
        exact if_pos ((Event.le_iff _ _).mpr hle)
      · rw [put_cons_of_le hle]
        exact hstored
    · obtain ⟨front, back, hfront, hback, hsplit, hfind, hstored, hapart⟩ := h.split hnodup e
      have hnotBack : e ∉ flat back := fun hmem => he (by simp [hsplit, hmem])
      have hnotFront : e ∉ flat (b :: front) := fun hmem => he (by
        rw [hsplit, ← cons_append, flat_append]
        exact mem_append_left _ hmem)
      refine ⟨EventQueue.setNextBin (EventQueue.insertBefore q.event e (first back))
        (lastTop b.1 front) (some e), q.head, fun n hn => ?_,
        (relinked_insertBefore _ _ _).trans (relinked_setNextBin _ _ _), ?_⟩
      · rw [insert, hhead]
        dsimp only
        rw [if_neg (mt (Event.le_iff _ _).mp hle), hfind n (Nat.le_of_succ_le hn)]
        rfl
      · rw [put_cons_of_lt (not_le.mp hle), put, ← hfront, ← hback]
        obtain ⟨bin, inBin, heq⟩ := insertBefore_eq q.event e (first back)
        rw [hsplit] at h hnodup
        refine h.setNextBin hnodup (fun a ha => ?_) (hstored.insertBefore hnotBack) fun a ha => ?_
        · have hne : a ≠ e := fun heq => hnotFront (heq ▸ ha)
          rw [heq, update_of_ne hne]
        · rw [flat_onTop] at ha
          rcases mem_cons.mp ha with rfl | ha
          · exact hnotFront
          · exact hapart a ha

/-- The search in a bin finds the node above the event. -/
lemma findItem_ok {curr : ε} (h : Bins.Linked (fun a => (m a).nextInBin) (m curr).nextInBin rest)
    (he : e ∈ rest) (hnodup : (curr :: rest).Nodup) : ∃ prev ∈ curr :: rest,
      (∀ n ≥ rest.length, findItem m e n curr (m curr).nextInBin = .ok prev) ∧
      ∀ m' : ε → Event ε, (m' prev).nextInBin = (m e).nextInBin →
        (∀ a ≠ prev, (m' a).nextInBin = (m a).nextInBin) →
        Bins.Linked (fun a => (m' a).nextInBin) (m' curr).nextInBin (rest.erase e) := by
  induction rest generalizing curr with
  | nil => cases he
  | cons a rest ih =>
    obtain ⟨hp, hlinked⟩ := h
    obtain ⟨hcurr, hnodup⟩ := nodup_cons.mp hnodup
    have hrounds : ∀ n ≥ (a :: rest).length, ∃ k ≥ rest.length, n = k + 1 := fun n hn =>
      ⟨n - 1, by simp at hn; omega, by simp at hn; omega⟩
    by_cases hea : e = a
    · subst hea
      rw [erase_cons_head]
      refine ⟨curr, mem_cons_self, fun n hn => ?_, fun m' hprev hother => ?_⟩
      · obtain ⟨k, -, rfl⟩ := hrounds n hn
        rw [hp, findItem, if_pos rfl]
      · rw [hprev]
        refine hlinked.congr fun b hb => hother b ?_
        rintro rfl
        exact hcurr (mem_cons_of_mem _ hb)
    · have herest : e ∈ rest := (mem_cons.mp he).resolve_left hea
      obtain ⟨prev, hprev, hfind, hlink⟩ := ih hlinked herest hnodup
      have hne : curr ≠ prev := by
        rintro rfl
        exact hcurr hprev
      have hbeq : ¬ (a == e) = true := fun h => hea (eq_of_beq h).symm
      rw [erase_cons_tail hbeq]
      refine ⟨prev, mem_cons_of_mem _ hprev, fun n hn => ?_, fun m' hm' hother => ?_⟩
      · obtain ⟨k, hk, rfl⟩ := hrounds n hn
        rw [hp, findItem, if_neg hea, hfind k hk]
      · exact ⟨(hother curr hne).trans hp, hlink m' hm' hother⟩

lemma removeItem_ok (h : Stores m p ((top, rest) :: back)) (he : e ∈ top :: rest)
    (hnodup : (flat ((top, rest) :: back)).Nodup) :
    ∃ m' p', (∀ n ≥ rest.length, removeItem m n e top = .ok (m', p')) ∧ Relinked m m' ∧
      (∀ a ∉ top :: rest, m' a = m a) ∧ Stores m' p' (without e ((top, rest) :: back)) := by
  obtain ⟨rfl, hlinked, hstored⟩ := h
  have hbin : (top :: rest).Nodup := by
    exact (nodup_append.mp hnodup).1
  have hapart : ∀ a ∈ flat back, a ∉ top :: rest := by
    intro a ha ha'
    exact (nodup_append.mp hnodup).2.2 a ha' a ha rfl
  -- a memory that differs in the first bin only stores the others
  have hback : ∀ m' : ε → Event ε, (∀ a ∉ top :: rest, m' a = m a) →
      Stores m' (m top).nextBin back := fun m' hm' => by
    refine Bins.Stored.congr hstored (fun a ha => ?_) fun b hb => ?_
    · rw [hm' a (hapart a ha)]
    · rw [hm' b.1 (hapart b.1 (mem_flat.mpr ⟨b, hb, mem_cons_self⟩))]
  by_cases htop : e = top
  · subst htop
    cases rest with
    | nil =>
      have hnone : (m e).nextInBin = none := hlinked
      refine ⟨m, (m e).nextBin, fun n _ => ?_, .refl m, fun _ _ => rfl, ?_⟩
      · rw [removeItem, if_pos rfl, hnone]
      rw [without, if_pos rfl]
      exact hstored
    | cons a rest =>
      obtain ⟨hsome, hrest⟩ := hlinked
      dsimp only at hsome
      have hother : ∀ b, b ≠ a → setNextBin m a (m e).nextBin b = m b := fun b hb => by
        rw [setNextBin, update_of_ne hb]
      have hself : setNextBin m a (m e).nextBin a = { m a with nextBin := (m e).nextBin } := by
        rw [setNextBin, update_self]
      have hframe : ∀ b ∉ e :: a :: rest, setNextBin m a (m e).nextBin b = m b := by
        intro b hb
        refine hother b fun heq => hb ?_
        rw [heq]
        exact mem_cons_of_mem _ mem_cons_self
      refine ⟨_, some a, fun n _ => ?_, relinked_setNextBin _ _ _, hframe, ?_⟩
      · rw [removeItem, if_pos rfl, hsome]
      rw [without, if_pos rfl]
      refine ⟨rfl, ?_, ?_⟩
      · dsimp only
        rw [hself]
        refine hrest.congr fun b hb => ?_
        have hne : b ≠ a := by
          rintro rfl
          exact (nodup_cons.mp (nodup_cons.mp hbin).2).1 hb
        rw [hother b hne]
      · dsimp only
        rw [hself]
        exact hback _ hframe
  · have herest : e ∈ rest := (mem_cons.mp he).resolve_left htop
    obtain ⟨prev, hprev, hfind, hlink⟩ := findItem_ok hlinked herest hbin
    set m' := update m prev { m prev with nextInBin := (m e).nextInBin } with hm'
    have hself : m' prev = { m prev with nextInBin := (m e).nextInBin } := update_self ..
    have hother : ∀ a ≠ prev, m' a = m a := fun a ha => update_of_ne ha ..
    have hframe : ∀ a ∉ top :: rest, m' a = m a := fun a ha => hother a fun heq => ha (heq ▸ hprev)
    have hbin' : (m' top).nextBin = (m top).nextBin := by
      by_cases hp : top = prev
      · rw [hp, hself]
      · rw [hother top hp]
    refine ⟨m', some top, fun n hn => ?_, relinked_update m prev _ _, hframe, ?_⟩
    · rw [removeItem, if_neg htop, hfind n hn]
      rfl
    have hwithout : without e ((top, rest) :: back) = (top, rest.erase e) :: back := by
      cases rest with
      | nil => cases herest
      | cons a rest => rw [without, if_neg htop]
    rw [hwithout]
    refine ⟨rfl, hlink m' (by rw [hself]) (fun a ha => by rw [hother a ha]), ?_⟩
    dsimp only
    rw [hbin']
    exact hback m' hframe

lemma remove_ok (h : Stores q.event q.head bins)
    (hleveled : Bins.Leveled (keyOf q.event) bins) (hnodup : (flat bins).Nodup)
    (he : e ∈ flat bins) : ∃ m' p',
      (∀ n ≥ (flat bins).length, q.remove n e = .ok { q with event := m', head := p' }) ∧
      Relinked q.event m' ∧ Stores m' p' (take (keyOf q.event) e bins) := by
  obtain ⟨top, rest, back, hdrop, hkey, hmem, -⟩ := hleveled.exists_bin he
  cases bins with
  | nil => cases he
  | cons b bins =>
    have hhead : q.head = some b.1 := h.1
    by_cases hlt : keyOf q.event b.1 < keyOf q.event e
    · -- the event is in a bin behind the first one
      have hlen := length_le_flat (b :: bins)
      obtain ⟨front, back', hfront, hback, hsplit, hfind, hstored, hapart⟩ := h.split hnodup e
      rw [dropWhile_cons_of_pos (earlier_eq_true.mpr hlt), ← hback] at hdrop
      subst hdrop
      have hbackNodup : (flat ((top, rest) :: back)).Nodup := by
        rw [hsplit, ← cons_append, flat_append] at hnodup
        exact (nodup_append.mp hnodup).2.1
      obtain ⟨m', p', hremove, hrelinked, hframe, hwithout⟩ := removeItem_ok hstored hmem hbackNodup
      have hne : ¬ (q.event b.1).eq (q.event e) := fun heq => hlt.ne ((Event.eq_iff _ _).mp heq)
      have heq : (q.event top).eq (q.event e) := (Event.eq_iff _ _).mpr hkey
      refine ⟨EventQueue.setNextBin m' (lastTop b.1 front) p', q.head, fun n hn => ?_,
        hrelinked.trans (relinked_setNextBin _ _ _), ?_⟩
      · have hbins : bins.length ≤ n := by
          rw [length_cons] at hlen
          omega
        have hrest : rest.length ≤ n := by
          rw [hsplit] at hn
          simp at hn
          omega
        rw [remove, hhead]
        dsimp only
        rw [if_neg hne, hfind n hbins]
        change (if ¬ (q.event top).eq (q.event e) then _ else _) = _
        rw [if_neg (not_not.mpr heq), hremove n hrest]
        rfl
      · rw [Bins.take_cons_of_lt hlt, Bins.take, ← hfront, ← hback]
        rw [hsplit] at h hnodup
        refine h.setNextBin hnodup (fun a ha => ?_) hwithout fun a ha => ?_
        · refine hframe a fun hbin => hapart a ?_ ha
          exact mem_append_left _ hbin
        · refine hapart a ?_
          rw [flat_without hmem] at ha
          rcases mem_append.mp ha with ha | ha
          · exact mem_append_left _ (mem_of_mem_erase ha)
          · exact mem_append_right _ ha
    · -- the first bin is that of the event
      rw [dropWhile_cons_of_neg (mt earlier_eq_true.mp hlt)] at hdrop
      cases hdrop
      obtain ⟨m', p', hremove, hrelinked, -, hwithout⟩ := removeItem_ok h hmem hnodup
      refine ⟨m', p', fun n hn => ?_, hrelinked, ?_⟩
      · rw [remove, hhead]
        dsimp only
        rw [if_pos ((Event.eq_iff _ _).mpr hkey), hremove n (by simp at hn; omega)]
        rfl
      · rw [take_cons_of_le (not_lt.mp hlt)]
        exact hwithout

omit [DecidableEq ε] in
lemma dumpBin_ok (h : Bins.Linked (fun a => (m a).nextInBin) p rest) (hn : rest.length ≤ n) :
    dumpBin m n p = .ok rest := by
  induction rest generalizing p n with
  | nil =>
    cases h
    rw [dumpBin]
  | cons a rest ih =>
    obtain ⟨rfl, hlinked⟩ := h
    obtain ⟨n, rfl⟩ : ∃ k, n = k + 1 := ⟨n - 1, by simp at hn; omega⟩
    rw [dumpBin, ih hlinked (by simpa using hn)]
    rfl

omit [DecidableEq ε] in
lemma Stores.dump (h : Stores q.event q.head bins)
    (hn : (flat bins).length ≤ n) : q.dump n = .ok (flat bins) := by
  suffices hbins : ∀ k p bins, Stores q.event p bins → bins.length ≤ k →
      (flat bins).length ≤ n → dumpBins q.event n k p = .ok (flat bins) from
    hbins n q.head bins h ((length_le_flat bins).trans hn) hn
  intro k p bins hstored hk hlen
  induction bins generalizing k p with
  | nil =>
    cases hstored
    rw [dumpBins]
    rfl
  | cons b bins ih =>
    obtain ⟨rfl, hlinked, hstored⟩ := hstored
    obtain ⟨k, rfl⟩ : ∃ j, k = j + 1 := ⟨k - 1, by simp at hk; omega⟩
    rw [flat_cons, length_cons, length_append] at hlen
    have hbin : dumpBin q.event n (some b.1) = .ok (b.1 :: b.2) :=
      dumpBin_ok ⟨rfl, hlinked⟩ (by simp; omega)
    have hrest := ih k _ hstored (by simpa using hk) (by omega)
    rw [dumpBins, hbin]
    change (dumpBins q.event n k (q.event b.1).nextBin).map _ = _
    rw [hrest]
    rfl

end EventQueue

end ShifDram
