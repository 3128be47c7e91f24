import ShifDram.Sim.EventQueue

/-!
Runs of the event queue: schedule, deschedule, reschedule and service, in any order, with what has
become of each insertion.

Each event has a stamp, the number of its latest insertion. Events stand in order of their keys,
and among those of one key the larger stamp first.
-/

namespace ShifDram

open List Function Bins Fallible

namespace EventQueue

variable {ε : Type*} [DecidableEq ε]

inductive Fate where
  | waiting
  | serviced
  | removed
  deriving DecidableEq, Repr

structure Insertion (ε : Type*) where
  event : ε
  when : ℕ
  fate : Fate
  deriving DecidableEq, Repr

inductive Call (ε : Type*) where
  | schedule (event : ε) (when : ℕ)
  | deschedule (event : ε)
  | reschedule (event : ε) (when : ℕ) (always : Bool)
  | squash (event : ε)
  | serviceOne

/-- The event serviced, if its handler runs, and the queue. -/
def perform (q : EventQueue ε) (rounds : ℕ) :
    Call ε → Except EventAbort (Option (ε × Bool) × EventQueue ε)
  | .schedule event when => (q.schedule rounds event when).map (none, ·)
  | .deschedule event => (q.deschedule rounds event).map (none, ·)
  | .reschedule event when always => (q.reschedule rounds event when always).map (none, ·)
  | .squash event => .ok (none, q.setSquashed event true)
  | .serviceOne => q.serviceOne.map fun (serviced, q) => (some serviced, q)

/-- The call returns: enough rounds always give the same. -/
def Returns (q : EventQueue ε) (call : Call ε) (r : Option (ε × Bool)) (q' : EventQueue ε) : Prop :=
  ∃ n, ∀ rounds ≥ n, q.perform rounds call = .ok (r, q')

def settle (e : ε) (fate : Fate) (hist : List (Insertion ε)) : List (Insertion ε) :=
  hist.map fun i => if i.event = e ∧ i.fate = .waiting then { i with fate := fate } else i

def record (hist : List (Insertion ε)) : Call ε → Option (ε × Bool) → List (Insertion ε)
  | .schedule event when, _ => hist ++ [⟨event, when, .waiting⟩]
  | .deschedule event, _ => settle event .removed hist
  | .reschedule event when _, _ => settle event .removed hist ++ [⟨event, when, .waiting⟩]
  | .squash _, _ => hist
  | .serviceOne, some (event, _) => settle event .serviced hist
  | .serviceOne, none => hist

/-- The queue after calls, all insertions, and the events serviced. A handler's calls come after its
service. -/
inductive Run : EventQueue ε → List (Insertion ε) → List ε → Prop
  | init {q : EventQueue ε} (hhead : q.head = none)
      (hnone : ∀ e, (q.event e).scheduled = false) : Run q [] []
  | step {q q' : EventQueue ε} {hist : List (Insertion ε)} {log : List ε} {call : Call ε}
      {r : Option (ε × Bool)} (h : Run q hist log) (hcall : q.Returns call r q') :
      Run q' (record hist call r) (log ++ (r.map Prod.fst).toList)

variable {q q' : EventQueue ε} {hist : List (Insertion ε)} {bins : List (ε × List ε)}
  {stamp : ε → ℕ} {e : ε} {w n : ℕ} {fate : Fate}

lemma getElem?_settle_waiting (hfate : fate ≠ .waiting) {i : ℕ} {a : ε} :
    (settle e fate hist)[i]? = some ⟨a, w, .waiting⟩ ↔
      a ≠ e ∧ hist[i]? = some ⟨a, w, .waiting⟩ := by
  rw [settle, getElem?_map]
  constructor
  · intro h
    obtain ⟨r, hr, heq⟩ := Option.map_eq_some_iff.mp h
    split_ifs at heq with hwait
    · cases heq
      exact absurd rfl hfate
    · subst heq
      exact ⟨fun ha => hwait ⟨ha, rfl⟩, hr⟩
  · rintro ⟨hne, hr⟩
    rw [hr, Option.map_some, if_neg fun h => hne h.1]

def servedOf (e : ε) (i : Insertion ε) : Bool := i.event = e ∧ i.fate = .serviced

def waitingOf (e : ε) (i : Insertion ε) : Bool := i.event = e ∧ i.fate = .waiting

lemma countP_settle_removed (e a : ε) (hist : List (Insertion ε)) :
    (settle e .removed hist).countP (servedOf a) = hist.countP (servedOf a) := by
  rw [settle, countP_map]
  refine countP_congr fun i _ => ?_
  rw [comp_apply]
  split_ifs with hwait
  · simp [servedOf, hwait.2]
  · rfl

lemma countP_settle_serviced (a : ε) (hist : List (Insertion ε)) :
    (settle e .serviced hist).countP (servedOf a) =
      hist.countP (servedOf a) + if a = e then hist.countP (waitingOf e) else 0 := by
  induction hist with
  | nil => simp [settle]
  | cons i hist ih =>
    rw [settle, map_cons, countP_cons, countP_cons, countP_cons]
    rw [settle] at ih
    rw [ih]
    by_cases hwait : i.event = e ∧ i.fate = .waiting
    · rw [if_pos hwait]
      by_cases ha : a = e
      · subst ha
        simp [servedOf, waitingOf, hwait.1, hwait.2]
        omega
      · have hne : ¬ e = a := fun h => ha h.symm
        simp [servedOf, hwait.1, hne, ha]
    · have hnot : waitingOf e i = false := by simpa [waitingOf] using hwait
      rw [hnot]
      simp only [Bool.false_eq_true, if_false]
      split_ifs <;> omega

lemma countP_waiting {i : ℕ} (hi : hist[i]? = some ⟨e, w, .waiting⟩)
    (hunique : ∀ j v, hist[j]? = some ⟨e, v, .waiting⟩ → j = i) :
    hist.countP (waitingOf e) = 1 := by
  have hwait : ∀ r : Insertion ε, waitingOf e r = true → r = ⟨e, r.when, .waiting⟩ := by
    rintro ⟨event, when, fate⟩ hr
    obtain ⟨rfl, rfl⟩ : event = e ∧ fate = .waiting := by simpa [waitingOf] using hr
    rfl
  induction hist generalizing i with
  | nil => cases hi
  | cons r hist ih =>
    cases i with
    | zero =>
      cases hi
      have hrest : hist.countP (waitingOf e) = 0 := by
        refine countP_eq_zero.mpr fun r hr hr' => ?_
        obtain ⟨j, hj⟩ := mem_iff_getElem?.mp hr
        rw [hwait r hr'] at hj
        cases hunique (j + 1) _ hj
      rw [countP_cons_of_pos (by simp [waitingOf]), hrest]
    | succ i =>
      have hold : ¬ waitingOf e r = true := fun hr => by
        cases hunique 0 _ (congrArg some (hwait r hr))
      rw [countP_cons_of_neg hold]
      exact ih hi fun j v hj => Nat.succ.inj (hunique (j + 1) v hj)

/-! ### What the queue holds -/

def Before {κ : Type*} [LinearOrder κ] (key : ε → κ) (stamp : ε → ℕ) (a b : ε) : Prop :=
  key a < key b ∨ (key a = key b ∧ stamp b < stamp a)

/-- Links hold the bins; events are in order, their latest insertions waiting, none late. -/
structure Held (q : EventQueue ε) (hist : List (Insertion ε)) (bins : List (ε × List ε))
    (stamp : ε → ℕ) : Prop where
  stored : Stores q.event q.head bins
  leveled : Bins.Leveled (keyOf q.event) bins
  ordered : (flat bins).Pairwise (Before (keyOf q.event) stamp)
  waiting : ∀ i a v, hist[i]? = some ⟨a, v, .waiting⟩ ↔
    a ∈ flat bins ∧ stamp a = i ∧ (q.event a).when = v
  due : ∀ a ∈ flat bins, q.curTick ≤ (q.event a).when

structure Reflagged (q q' : EventQueue ε) : Prop where
  head : q'.head = q.head
  curTick : q'.curTick = q.curTick
  nextBin : ∀ a, (q'.event a).nextBin = (q.event a).nextBin
  nextInBin : ∀ a, (q'.event a).nextInBin = (q.event a).nextInBin
  when : ∀ a, (q'.event a).when = (q.event a).when
  priority : ∀ a, (q'.event a).priority = (q.event a).priority

lemma reflagged_modify (q : EventQueue ε) (e : ε) (scheduled squashed : Bool) :
    Reflagged q (q.modify e fun e => { e with scheduled := scheduled, squashed := squashed }) := by
  refine ⟨rfl, rfl, fun a => ?_, fun a => ?_, fun a => ?_, fun a => ?_⟩ <;>
  · by_cases ha : a = e
    · rw [ha, modify_self]
    · rw [modify_of_ne _ _ ha]

lemma reflagged_setScheduled (q : EventQueue ε) (e : ε) (b : Bool) :
    Reflagged q (q.setScheduled e b) := reflagged_modify q e b (q.event e).squashed

lemma reflagged_setSquashed (q : EventQueue ε) (e : ε) (b : Bool) :
    Reflagged q (q.setSquashed e b) := reflagged_modify q e (q.event e).scheduled b

omit [DecidableEq ε] in
lemma Held.reflagged (h : Held q hist bins stamp) (hsame : Reflagged q q') :
    Held q' hist bins stamp := by
  have hkey : keyOf q'.event = keyOf q.event := by
    funext a
    rw [keyOf, keyOf, Event.key, Event.key, hsame.when, hsame.priority]
  refine ⟨?_, ?_, ?_, fun i a v => ?_, fun a ha => ?_⟩
  · rw [hsame.head]
    exact Bins.Stored.congr h.stored (fun a _ => hsame.nextInBin a) fun b _ => hsame.nextBin b.1
  · rw [hkey]
    exact h.leveled
  · rw [hkey]
    exact h.ordered
  · rw [h.waiting, hsame.when]
  · rw [hsame.when, hsame.curTick]
    exact h.due a ha

omit [DecidableEq ε] in
lemma Held.nodup (h : Held q hist bins stamp) : (flat bins).Nodup := by
  refine h.ordered.imp fun {a b} hbefore heq => ?_
  subst heq
  rcases hbefore with hlt | ⟨-, hlt⟩
  · exact lt_irrefl _ hlt
  · exact lt_irrefl _ hlt

omit [DecidableEq ε] in
lemma Held.stamp_lt (h : Held q hist bins stamp) {a : ε} (ha : a ∈ flat bins) :
    stamp a < hist.length :=
  (List.getElem?_eq_some_iff.mp ((h.waiting _ a _).mpr ⟨ha, rfl, rfl⟩)).1

/-- An element with a new stamp comes first among those of its key. -/
lemma pairwise_before_put {κ : Type*} [LinearOrder κ] {key : ε → κ} {k : ℕ}
    (hleveled : Bins.Leveled key bins) (h : (flat bins).Pairwise (Before key stamp))
    (hfresh : ∀ a ∈ flat bins, stamp a < k) (he : e ∉ flat bins) :
    (flat (put key e bins)).Pairwise (Before key (Function.update stamp e k)) := by
  set front := bins.takeWhile (earlier key (key e)) with hfront
  set back := bins.dropWhile (earlier key (key e)) with hback
  have hsplit : flat bins = flat front ++ flat back := by
    rw [← flat_append, takeWhile_append_dropWhile]
  have hne : ∀ a ∈ flat bins, a ≠ e := fun a ha heq => he (heq ▸ ha)
  have hold : (flat bins).Pairwise (Before key (update stamp e k)) := by
    refine h.imp_of_mem fun {a b} ha hb hbefore => ?_
    rwa [Before, update_of_ne (hne a ha), update_of_ne (hne b hb)]
  rw [hsplit, pairwise_append] at hold
  rw [flat_put, pairwise_append, pairwise_cons]
  refine ⟨hold.1, ⟨fun b hb => ?_, hold.2.1⟩, fun a ha b hb => ?_⟩
  · obtain ⟨c, hc, hbin⟩ := mem_flat.mp hb
    have hmem : b ∈ flat bins := hsplit ▸ mem_append_right _ hb
    have hle : key e ≤ key b := by
      rw [(hleveled.split _).2.1.key_eq hc hbin]
      exact hleveled.le_of_mem_dropWhile hc
    rcases hle.lt_or_eq with hlt | heq
    · exact Or.inl hlt
    · refine Or.inr ⟨heq, ?_⟩
      rw [update_self, update_of_ne (hne b hmem)]
      exact hfresh b hmem
  · rcases mem_cons.mp hb with rfl | hb
    · obtain ⟨c, hc, hbin⟩ := mem_flat.mp ha
      refine Or.inl ?_
      rw [(hleveled.split _).1.key_eq hc hbin]
      exact lt_of_mem_takeWhile hc
    · exact hold.2.2 a ha b hb

/-- **An insertion** of an event not in the queue. -/
lemma Held.insert (h : Held q hist bins stamp) (he : e ∉ flat bins) (hw : q.curTick ≤ w) :
    ∃ q', (∀ n ≥ (flat bins).length, (q.setWhen e w).insert n e = .ok q') ∧
      Held q' (hist ++ [⟨e, w, .waiting⟩]) (put (keyOf (q.setWhen e w).event) e bins)
        (Function.update stamp e hist.length) ∧ Relinked (q.setWhen e w).event q'.event ∧
      q'.curTick = q.curTick := by
  have hne : ∀ a ∈ flat bins, a ≠ e := fun a ha heq => he (heq ▸ ha)
  have hother : ∀ a ∈ flat bins, (q.setWhen e w).event a = q.event a := fun a ha =>
    q.modify_of_ne _ (hne a ha)
  have hself : ((q.setWhen e w).event e).when = w := by rw [setWhen, modify_self]
  have hkey : ∀ a ∈ flat bins, keyOf (q.setWhen e w).event a = keyOf q.event a :=
    fun a ha => by rw [keyOf, hother a ha, keyOf]
  have hstored : Stores (q.setWhen e w).event (q.setWhen e w).head bins := by
    refine Bins.Stored.congr h.stored (fun a ha => ?_) fun b hb => ?_
    · rw [hother a ha]
    · rw [hother b.1 (mem_flat.mpr ⟨b, hb, mem_cons_self⟩)]
  have hleveled := h.leveled.congr hkey
  have hordered : (flat bins).Pairwise (Before (keyOf (q.setWhen e w).event) stamp) := by
    refine h.ordered.imp_of_mem fun {a b} ha hb hbefore => ?_
    rwa [Before, hkey a ha, hkey b hb]
  obtain ⟨m', p', hok, hrelinked, hput⟩ := insert_ok hstored h.nodup he
  refine ⟨_, fun n hn => hok n ((length_le_flat bins).trans hn), ⟨hput, ?_, ?_, fun i a v => ?_,
    fun a ha => ?_⟩, hrelinked, rfl⟩
  · rw [hrelinked.keyOf_eq]
    exact hleveled.put e
  · rw [hrelinked.keyOf_eq]
    exact pairwise_before_put hleveled hordered (fun a ha => h.stamp_lt ha) he
  · rw [hrelinked.when, mem_flat_put]
    by_cases ha : a = e
    · subst ha
      rw [hself, update_self]
      rcases lt_trichotomy i hist.length with hi | rfl | hi
      · rw [getElem?_append_left hi]
        exact ⟨fun hold => absurd ((h.waiting i a v).mp hold).1 he, fun hnew => by omega⟩
      · simp
      · rw [getElem?_eq_none (by simp; omega)]
        exact ⟨fun hnone => (by cases hnone), fun hnew => by omega⟩
    · rw [update_of_ne ha]
      have hold : hist[i]? = some ⟨a, v, .waiting⟩ ↔ (a = e ∨ a ∈ flat bins) ∧
          stamp a = i ∧ ((q.setWhen e w).event a).when = v := by
        rw [h.waiting, or_iff_right ha, setWhen, modify_of_ne _ _ ha]
      rw [← hold]
      by_cases hi : i < hist.length
      · rw [getElem?_append_left hi]
      · rw [getElem?_eq_none (not_lt.mp hi)]
        refine ⟨fun hnew => ?_, fun hnone => by cases hnone⟩
        rw [getElem?_append_right (not_lt.mp hi)] at hnew
        have hmem := mem_singleton.mp (mem_of_getElem? hnew)
        cases hmem
        exact absurd rfl ha
  · rw [hrelinked.when]
    rcases mem_flat_put.mp ha with rfl | ha
    · rw [hself]
      exact hw
    · rw [hother a ha]
      exact h.due a ha

/-- **A removal** of an event of the queue. -/
lemma Held.remove (h : Held q hist bins stamp) (he : e ∈ flat bins) (fate : Fate)
    (hfate : fate ≠ .waiting) :
    ∃ q', (∀ n ≥ (flat bins).length, q.remove n e = .ok q') ∧
      Held q' (settle e fate hist) (take (keyOf q.event) e bins) stamp ∧
      Relinked q.event q'.event ∧ q'.curTick = q.curTick := by
  obtain ⟨m', p', hok, hrelinked, htake⟩ := remove_ok h.stored h.leveled h.nodup he
  have hflat := flat_take h.leveled he
  refine ⟨_, hok, ⟨htake, ?_, ?_, fun i a v => ?_, fun a ha => ?_⟩, hrelinked, rfl⟩
  · rw [hrelinked.keyOf_eq]
    exact h.leveled.take he
  · rw [hrelinked.keyOf_eq, hflat]
    exact h.ordered.sublist erase_sublist
  · rw [getElem?_settle_waiting hfate, h.waiting, hrelinked.when, hflat, h.nodup.mem_erase_iff,
      and_assoc]
  · rw [hflat] at ha
    rw [hrelinked.when]
    exact h.due a (mem_of_mem_erase ha)

lemma remove_head (hhead : q.head = some e) (n : ℕ) : q.remove n e = .ok (q.pop e) := by
  rw [remove, hhead]
  dsimp only
  rw [if_pos ⟨rfl, rfl⟩, removeItem, if_pos rfl, pop]
  cases (q.event e).nextInBin with
  | none => rfl
  | some next => rfl

omit [DecidableEq ε] in
/-- No event is due before the head, and none of its key was inserted later. -/
lemma Held.head_first (h : Held q hist bins stamp) (hhead : q.head = some e) :
    e ∈ flat bins ∧ ∀ a ∈ flat bins, a = e ∨ Before (keyOf q.event) stamp e a := by
  cases bins with
  | nil =>
    have hnone : q.head = none := h.stored
    rw [hhead] at hnone
    cases hnone
  | cons b bins =>
    have hb : q.head = some b.1 := h.stored.1
    rw [hhead] at hb
    cases hb
    have hordered := h.ordered
    rw [flat_cons, pairwise_cons] at hordered
    refine ⟨mem_cons_self, fun a ha => ?_⟩
    exact (mem_cons.mp ha).imp_right (hordered.1 a)

/-! ### One call -/

/-- The scheduled events are those the queue holds. -/
structure Represents (q : EventQueue ε) (hist : List (Insertion ε)) (bins : List (ε × List ε))
    (stamp : ε → ℕ) : Prop extends Held q hist bins stamp where
  scheduled : ∀ a, (q.event a).scheduled = true ↔ a ∈ flat bins

lemma Held.setScheduled {q₀ : EventQueue ε} {bins₀ : List (ε × List ε)} {b : Bool}
    (h : Held q hist bins stamp) (hsame : ∀ a ≠ e, (q.event a).scheduled = (q₀.event a).scheduled)
    (h₀ : ∀ a, (q₀.event a).scheduled = true ↔ a ∈ flat bins₀)
    (hself : b = true ↔ e ∈ flat bins)
    (hmem : ∀ a ≠ e, a ∈ flat bins ↔ a ∈ flat bins₀) :
    Represents (q.setScheduled e b) hist bins stamp := by
  refine ⟨h.reflagged (q.reflagged_setScheduled e b), fun a => ?_⟩
  by_cases ha : a = e
  · subst ha
    rw [EventQueue.setScheduled, modify_self]
    exact hself
  · rw [EventQueue.setScheduled, modify_of_ne _ _ ha, hsame a ha, h₀, hmem a ha]

omit [DecidableEq ε] in
lemma Represents.notMem (h : Represents q hist bins stamp) (he : ¬ (q.event e).scheduled = true) :
    e ∉ flat bins := fun hmem => he ((h.scheduled e).mpr hmem)

/-- A failed assertion of the call, or an empty queue. -/
def Refused (x : EventAbort) : Prop := x ≠ .eventNotFound ∧ x ≠ .cutOff

/-- The queue holds what `hist` records; time has not gone back. -/
def Follows (q : EventQueue ε) (hist : List (Insertion ε)) (q' : EventQueue ε) : Prop :=
  q.curTick ≤ q'.curTick ∧ ∃ bins stamp, Represents q' hist bins stamp

section

variable (h : Represents q hist bins stamp)

include h

lemma Represents.setSquashed (b : Bool) : Represents (q.setSquashed e b) hist bins stamp := by
  refine ⟨h.toHeld.reflagged (q.reflagged_setSquashed e b), fun a => ?_⟩
  rw [← h.scheduled, EventQueue.setSquashed]
  by_cases ha : a = e
  · rw [ha, modify_self]
  · rw [modify_of_ne _ _ ha]

lemma Represents.schedule (hok : ¬ (w < q.curTick ∨ (q.event e).scheduled = true)) :
    ∃ q', (∀ n ≥ (flat bins).length, q.schedule n e w = .ok q') ∧
      Follows q (hist ++ [⟨e, w, .waiting⟩]) q' := by
  obtain ⟨hw, hnot⟩ := not_or.mp hok
  obtain ⟨q₁, hinsert, hheld, hrelinked, htick⟩ := h.toHeld.insert (h.notMem hnot) (not_lt.mp hw)
  refine ⟨q₁.setScheduled e true,
    fun n hn => by rw [EventQueue.schedule, if_neg hok, hinsert n hn]; rfl, htick.ge, _, _,
    hheld.setScheduled (fun a ha => ?_) h.scheduled ?_ fun a ha => ?_⟩
  · rw [hrelinked.scheduled, setWhen, modify_of_ne _ _ ha]
  · exact iff_of_true rfl (mem_flat_put.mpr (Or.inl rfl))
  · rw [mem_flat_put, or_iff_right ha]

lemma Represents.deschedule (hok : (q.event e).scheduled = true) :
    ∃ q', (∀ n ≥ (flat bins).length, q.deschedule n e = .ok q') ∧
      Follows q (settle e .removed hist) q' := by
  have he : e ∈ flat bins := (h.scheduled e).mp hok
  obtain ⟨q₁, hremove, hheld, hrelinked, htick⟩ := h.toHeld.remove he .removed (by decide)
  have hflat := flat_take h.leveled he
  refine ⟨(q₁.setSquashed e false).setScheduled e false,
    fun n hn => by rw [EventQueue.deschedule, if_neg (by simp [hok]), hremove n hn]; rfl,
    htick.ge, _, _, (hheld.reflagged (q₁.reflagged_setSquashed e false)).setScheduled
      (fun a ha => ?_) h.scheduled ?_ fun a ha => ?_⟩
  · rw [EventQueue.setSquashed, modify_of_ne _ _ ha, hrelinked.scheduled]
  · rw [hflat, h.nodup.mem_erase_iff]
    exact iff_of_false (by decide) fun hmem => hmem.1 rfl
  · rw [hflat, h.nodup.mem_erase_iff]
    exact and_iff_right ha

/-- `reschedule`, of an event scheduled or not. -/
lemma Represents.reschedule {always : Bool}
    (hok : ¬ (w < q.curTick ∨ (always = false ∧ (q.event e).scheduled = false))) :
    ∃ q', (∀ n ≥ (flat bins).length, q.reschedule n e w always = .ok q') ∧
      Follows q (settle e .removed hist ++ [⟨e, w, .waiting⟩]) q' := by
  have hw := not_lt.mp (not_or.mp hok).1
  -- the queue without the event
  obtain ⟨q₁, bins₁, hfirst, hheld₁, hrelinked₁, htick₁, hmem₁, hlen₁⟩ : ∃ q₁ bins₁,
      (∀ n ≥ (flat bins).length, (if (q.event e).scheduled then q.remove n e else .ok q) = .ok q₁) ∧
      Held q₁ (settle e .removed hist) bins₁ stamp ∧ Relinked q.event q₁.event ∧
      q₁.curTick = q.curTick ∧
      (∀ a, a ∈ flat bins₁ ↔ a ≠ e ∧ a ∈ flat bins) ∧
      (flat bins₁).length ≤ (flat bins).length := by
    by_cases hsched : (q.event e).scheduled = true
    · have he := (h.scheduled e).mp hsched
      obtain ⟨q₁, hremove, hheld, hrelinked, htick⟩ := h.toHeld.remove he .removed (by decide)
      have hflat := flat_take h.leveled he
      refine ⟨q₁, _, fun n hn => ?_, hheld, hrelinked, htick, fun a => ?_, ?_⟩
      · rw [if_pos hsched, hremove n hn]
      · rw [hflat, h.nodup.mem_erase_iff]
      · rw [hflat]
        exact erase_sublist.length_le
    · have he := h.notMem hsched
      refine ⟨q, bins, fun _ _ => if_neg hsched, ?_, .refl _, rfl, fun a => ?_, le_rfl⟩
      · refine { h with waiting := fun i a v => ?_ }
        rw [getElem?_settle_waiting (by decide), h.waiting]
        exact and_iff_right_of_imp fun hmem ha => he (ha ▸ hmem.1)
      · refine (and_iff_right_of_imp fun hmem ha => ?_).symm
        exact he (ha ▸ hmem)
  have hnot : e ∉ flat bins₁ := fun hmem => ((hmem₁ e).mp hmem).1 rfl
  obtain ⟨q₂, hinsert, hheld, hrelinked, htick⟩ := hheld₁.insert hnot (htick₁.symm ▸ hw)
  refine ⟨(q₂.setSquashed e false).setScheduled e true, fun n hn => ?_,
    (htick.trans htick₁).ge, _, _,
    (hheld.reflagged (q₂.reflagged_setSquashed e false)).setScheduled
      (fun a ha => ?_) h.scheduled ?_
      fun a ha => ?_⟩
  · rw [EventQueue.reschedule, if_neg hok, hfirst n hn]
    change ((q₁.setWhen e w).insert n e).map _ = _
    rw [hinsert n (hlen₁.trans hn)]
    rfl
  · rw [EventQueue.setSquashed, modify_of_ne _ _ ha, hrelinked.scheduled, setWhen,
      modify_of_ne _ _ ha,
      hrelinked₁.scheduled]
  · exact iff_of_true rfl (mem_flat_put.mpr (Or.inl rfl))
  · rw [mem_flat_put, or_iff_right ha, hmem₁, and_iff_right ha]

/-- **`serviceOne`** takes the first event. -/
lemma Represents.serviceOne (hhead : q.head = some e) :
    ∃ b q', q.serviceOne = .ok ((e, b), q') ∧ Follows q (settle e .serviced hist) q' := by
  obtain ⟨he, hbefore⟩ := h.toHeld.head_first hhead
  have hheld₁ := h.toHeld.reflagged (q.reflagged_setScheduled e false)
  obtain ⟨q₁, hremove, hheld, hrelinked, htick⟩ := hheld₁.remove he .serviced (by decide)
  have hpop : q₁ = (q.setScheduled e false).pop e := by
    have hhead' : (q.setScheduled e false).head = some e := hhead
    have heq := (hremove _ le_rfl).symm.trans (remove_head hhead' _)
    cases heq
    rfl
  have hflat := flat_take hheld₁.leveled he
  have hscheduled : ∀ a, (q₁.event a).scheduled = true ↔
      a ∈ flat (take (keyOf (q.setScheduled e false).event) e bins) := by
    intro a
    rw [hflat, h.nodup.mem_erase_iff, hrelinked.scheduled]
    by_cases ha : a = e
    · subst ha
      rw [EventQueue.setScheduled, modify_self]
      exact iff_of_false Bool.false_ne_true fun hmem => hmem.1 rfl
    · rw [EventQueue.setScheduled, modify_of_ne _ _ ha, h.scheduled]
      exact (and_iff_right ha).symm
  have hwhen : (q₁.event e).when = (q.event e).when := by
    rw [hrelinked.when, EventQueue.setScheduled, modify_self]
  rw [EventQueue.serviceOne, hhead]
  dsimp only
  rw [← hpop]
  by_cases hsquashed : (q₁.event e).squashed = true
  · rw [if_pos hsquashed]
    exact ⟨_, _, rfl, htick.ge, _, _, Represents.setSquashed ⟨hheld, hscheduled⟩ false⟩
  · rw [if_neg hsquashed]
    refine ⟨_, _, rfl, ?_, _, _, { hheld with due := fun a ha => ?_ }, hscheduled⟩
    · rw [hwhen]
      exact h.due e he
    · -- no event is due before the one that is serviced
      rw [hflat] at ha
      have hmem := mem_of_mem_erase ha
      have hle : keyOf q.event e ≤ keyOf q.event a := by
        rcases hbefore a hmem with rfl | hlt | heq
        · exact le_rfl
        · exact hlt.le
        · exact heq.1.le
      have hle' := (Event.le_iff _ _).mpr hle
      rw [hwhen, hrelinked.when, (q.reflagged_setScheduled e false).when]
      rcases hle' with hlt | heq
      · exact hlt.le
      · exact heq.1.le

end

lemma Held.countP_waiting (h : Held q hist bins stamp) (he : e ∈ flat bins) :
    hist.countP (waitingOf e) = 1 := by
  refine EventQueue.countP_waiting ((h.waiting _ e _).mpr ⟨he, rfl, rfl⟩) fun j v hj => ?_
  exact ((h.waiting j e v).mp hj).2.1.symm

omit [DecidableEq ε] in
lemma Held.exists_waiting (h : Held q hist bins stamp) :
    e ∈ flat bins ↔ ∃ i ∈ hist, i.event = e ∧ i.fate = .waiting := by
  constructor
  · intro he
    have hi := (h.waiting _ e _).mpr ⟨he, rfl, rfl⟩
    exact ⟨_, mem_of_getElem? hi, rfl, rfl⟩
  · rintro ⟨⟨a, v, fate⟩, hmem, rfl, rfl⟩
    obtain ⟨j, hj⟩ := mem_iff_getElem?.mp hmem
    exact ((h.waiting j a v).mp hj).1

/-- After servicing `r` the queue holds what is recorded. -/
def Performed (q : EventQueue ε) (hist : List (Insertion ε)) (call : Call ε)
    (x : Option (ε × Bool) × EventQueue ε) : Prop :=
  Follows q (record hist call x.1) x.2 ∧ ∀ a, (record hist call x.1).countP (servedOf a) =
    hist.countP (servedOf a) + (x.1.map Prod.fst).toList.count a

/-- **One call** goes through with enough rounds, fails its own assertions, or finds the queue
empty. -/
lemma Represents.perform (h : Represents q hist bins stamp) (call : Call ε)
    (hn : (flat bins).length ≤ n) : Meets Refused (Performed q hist call) (q.perform n call) := by
  have hnew : ∀ (l : List (Insertion ε)) (e a : ε) (w : ℕ),
      (l ++ [(⟨e, w, .waiting⟩ : Insertion ε)]).countP (servedOf a) = l.countP (servedOf a) := by
    intro l e a w
    simp [servedOf]
  cases call with
  | schedule e w =>
    refine Meets.map (S := Follows q (hist ++ [⟨e, w, .waiting⟩])) ?_ fun q' hq' =>
      ⟨hq', fun a => hnew hist e a w⟩
    by_cases hok : w < q.curTick ∨ (q.event e).scheduled = true
    · rw [EventQueue.schedule, if_pos hok]
      exact ⟨nofun, nofun⟩
    · obtain ⟨q', hret, hq'⟩ := h.schedule hok
      rwa [hret n hn]
  | deschedule e =>
    refine Meets.map (S := Follows q (settle e .removed hist)) ?_ fun q' hq' =>
      ⟨hq', fun a => countP_settle_removed e a hist⟩
    by_cases hok : (q.event e).scheduled = true
    · obtain ⟨q', hret, hq'⟩ := h.deschedule hok
      rwa [hret n hn]
    · rw [EventQueue.deschedule, if_pos (Bool.eq_false_iff.mpr hok)]
      exact ⟨nofun, nofun⟩
  | reschedule e w always =>
    refine Meets.map (S := Follows q (settle e .removed hist ++ [⟨e, w, .waiting⟩])) ?_
      fun q' hq' => ⟨hq', fun a => (hnew _ e a w).trans (countP_settle_removed e a hist)⟩
    by_cases hok : w < q.curTick ∨ (always = false ∧ (q.event e).scheduled = false)
    · rw [EventQueue.reschedule, if_pos hok]
      exact ⟨nofun, nofun⟩
    · obtain ⟨q', hret, hq'⟩ := h.reschedule hok
      rwa [hret n hn]
  | squash e => exact ⟨⟨le_rfl, bins, stamp, h.setSquashed true⟩, fun a => rfl⟩
  | serviceOne =>
    cases hhead : q.head with
    | none =>
      rw [EventQueue.perform, EventQueue.serviceOne, hhead]
      exact ⟨nofun, nofun⟩
    | some e =>
      obtain ⟨b, q', hret, hq'⟩ := h.serviceOne hhead
      rw [EventQueue.perform, hret]
      refine ⟨hq', fun a => ?_⟩
      have hone := h.toHeld.countP_waiting (h.toHeld.head_first hhead).1
      rw [record, countP_settle_serviced, hone]
      by_cases ha : a = e
      · subst ha
        simp
      · have hea : ¬ e = a := fun h => ha h.symm
        simp [ha, hea]

/-! ### Runs -/

lemma Represents.returns (h : Represents q hist bins stamp) {call : Call ε}
    {r : Option (ε × Bool)} (hcall : q.Returns call r q') : Performed q hist call (r, q') := by
  obtain ⟨n, hn⟩ := hcall
  exact (h.perform call (le_max_right n _)).result (hn _ (le_max_left n _))

lemma Run.represents {log : List ε} (h : Run q hist log) :
    ∃ bins stamp, Represents q hist bins stamp ∧ ∀ e, log.count e = hist.countP (servedOf e) := by
  induction h with
  | init hhead hnone =>
    refine ⟨[], fun _ => 0, ⟨⟨hhead, leveled_nil _, .nil, fun i a v => ?_,
      fun a ha => by cases ha⟩, fun a => ?_⟩, fun e => rfl⟩
    · simp
    · simp [hnone a]
  | step h hcall ih =>
    obtain ⟨bins, stamp, hrep, hlog⟩ := ih
    obtain ⟨⟨-, bins', stamp', hrep'⟩, hserved⟩ := hrep.returns hcall
    refine ⟨bins', stamp', hrep', fun e => ?_⟩
    rw [count_append, hlog, hserved]

/-- What holds of the queue after some calls. -/
structure Serves (q : EventQueue ε) (hist : List (Insertion ε)) (log : List ε) : Prop where
  /-- The queue holds the events with a waiting insertion, once. -/
  queued : ∃ l n, (∀ rounds ≥ n, q.dump rounds = .ok l) ∧ l.Nodup ∧
    ∀ e, e ∈ l ↔ ∃ i ∈ hist, i.event = e ∧ i.fate = .waiting
  /-- They are the events that are scheduled. -/
  scheduled : ∀ e, (q.event e).scheduled = true ↔ ∃ i ∈ hist, i.event = e ∧ i.fate = .waiting
  /-- An event has at most one insertion that is waiting. -/
  latest : ∀ e, hist.countP (waitingOf e) ≤ 1
  /-- An event was serviced as often as its insertions were. -/
  once : ∀ e, log.count e = hist.countP (servedOf e)
  /-- If an event is scheduled, one is serviced. -/
  serves : ∀ e, (q.event e).scheduled = true → ∃ a b q', q.Returns .serviceOne (some (a, b)) q'
  /-- A scheduled event can be taken off, or moved to a tick not past. -/
  removes : ∀ e, (q.event e).scheduled = true → (∃ q', q.Returns (.deschedule e) none q') ∧
    ∀ w always, q.curTick ≤ w → ∃ q', q.Returns (.reschedule e w always) none q'
  /-- The event serviced is minimal in time and priority, the last inserted of those. -/
  first : ∀ e b q', q.Returns .serviceOne (some (e, b)) q' →
    ∃ (i w : ℕ), hist[i]? = some ⟨e, w, .waiting⟩ ∧
      ∀ (j : ℕ) (a : ε) (v : ℕ), hist[j]? = some ⟨a, v, .waiting⟩ →
        keyOf q.event e < keyOf q.event a ∨ (keyOf q.event e = keyOf q.event a ∧ j ≤ i)
  /-- No call panics, or walks on forever. -/
  total : ∀ call, ∃ n, ∀ rounds ≥ n, q.perform rounds call ≠ .error .eventNotFound ∧
    q.perform rounds call ≠ .error .cutOff
  /-- The current tick does not decrease. -/
  forward : ∀ call r q', q.Returns call r q' → q.curTick ≤ q'.curTick

/-- **Events are serviced in order, and once for each time that they are scheduled.** -/
theorem run_services {log : List ε} (h : Run q hist log) : Serves q hist log := by
  obtain ⟨bins, stamp, hrep, hlog⟩ := h.represents
  have hheld := hrep.toHeld
  refine ⟨?_, fun e => ?_, fun e => ?_, hlog, fun e he => ?_, fun e he =>
    ⟨?_, fun w always hw => ?_⟩,
    fun e b q' hcall => ?_, fun call => ?_, fun call r q' hcall => ?_⟩
  · exact ⟨flat bins, (flat bins).length, fun n hn => hheld.stored.dump hn, hheld.nodup,
      fun e => hheld.exists_waiting⟩
  · exact (hrep.scheduled e).trans hheld.exists_waiting
  · by_cases he : e ∈ flat bins
    · exact (hheld.countP_waiting he).le
    · refine (countP_eq_zero.mpr fun i hi hwait => he ?_).le.trans zero_le_one
      exact hheld.exists_waiting.mpr ⟨i, hi, by simpa [waitingOf] using hwait⟩
  · cases hhead : q.head with
    | none =>
      have hfirst := hheld.stored.eq_first
      have hmem := (hrep.scheduled e).mp he
      cases bins with
      | nil => cases hmem
      | cons b bins =>
        rw [hhead] at hfirst
        cases hfirst
    | some a =>
      obtain ⟨b, q', hret, -⟩ := hrep.serviceOne hhead
      exact ⟨a, b, q', 0, fun n _ => by rw [perform, hret]; rfl⟩
  · obtain ⟨q', hret, -⟩ := hrep.deschedule he
    exact ⟨q', _, fun n hn => by rw [perform, hret n hn]; rfl⟩
  · have hok : ¬ (w < q.curTick ∨ (always = false ∧ (q.event e).scheduled = false)) := by
      simp [hw, he]
    obtain ⟨q', hret, -⟩ := hrep.reschedule hok
    exact ⟨q', _, fun n hn => by rw [perform, hret n hn]; rfl⟩
  · obtain ⟨n, hn⟩ := hcall
    have hhead : q.head = some e := by
      have hret := hn n le_rfl
      rw [perform] at hret
      cases hhead : q.head with
      | none =>
        rw [serviceOne, hhead] at hret
        cases hret
      | some a =>
        obtain ⟨c, q₁, hserve, -⟩ := hrep.serviceOne hhead
        rw [hserve] at hret
        cases hret
        rfl
    obtain ⟨he, hbefore⟩ := hheld.head_first hhead
    refine ⟨stamp e, _, (hheld.waiting _ e _).mpr ⟨he, rfl, rfl⟩, fun j a v hj => ?_⟩
    obtain ⟨ha, rfl, -⟩ := (hheld.waiting j a v).mp hj
    rcases hbefore a ha with rfl | hlt | ⟨heq, hlt⟩
    · exact Or.inr ⟨rfl, le_rfl⟩
    · exact Or.inl hlt
    · exact Or.inr ⟨heq, hlt.le⟩
  · refine ⟨(flat bins).length, fun n hn => ?_⟩
    have hfails := (hrep.perform call hn).fails
    exact ⟨fun herror => (hfails _ herror).1 rfl, fun herror => (hfails _ herror).2 rfl⟩
  · exact (hrep.returns hcall).1.1

/-- No events in the queue; two of one priority. -/
def idle : EventQueue Bool := ⟨fun _ => ⟨none, none, 0, 0, false, false⟩, none, 0⟩

/-- Two events for one tick; the second is taken off, the first moved, and the second, back again,
is serviced first. -/
theorem run_services_two : ∃ q q' : EventQueue Bool,
    Serves q [⟨false, 5, .removed⟩, ⟨true, 5, .removed⟩, ⟨false, 9, .waiting⟩,
        ⟨true, 9, .waiting⟩] [] ∧
      q.Returns .serviceOne (some (true, true)) q' ∧ q'.curTick = 9 := by
  obtain ⟨q₁, q₂, q₃, q₄, q₅, q₆, h₁, h₂, h₃, h₄, h₅, h₆, htick⟩ : ∃ q₁ q₂ q₃ q₄ q₅ q₆,
      idle.Returns (.schedule false 5) none q₁ ∧ q₁.Returns (.schedule true 5) none q₂ ∧
      q₂.Returns (.deschedule true) none q₃ ∧ q₃.Returns (.reschedule false 9 false) none q₄ ∧
      q₄.Returns (.schedule true 9) none q₅ ∧
      q₅.Returns .serviceOne (some (true, true)) q₆ ∧ q₆.curTick = 9 :=
    ⟨_, _, _, _, _, _, ⟨0, fun _ _ => rfl⟩, ⟨0, fun _ _ => rfl⟩, ⟨0, fun _ _ => rfl⟩,
      ⟨0, fun _ _ => rfl⟩, ⟨0, fun _ _ => rfl⟩, ⟨0, fun _ _ => rfl⟩, rfl⟩
  have hrun := (((((Run.init rfl fun _ => rfl).step h₁).step h₂).step h₃).step h₄).step h₅
  exact ⟨q₅, q₆, run_services hrun, h₆, htick⟩

end EventQueue

end ShifDram
