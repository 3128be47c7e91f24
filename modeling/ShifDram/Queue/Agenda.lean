import Mathlib.Data.List.Sort
import Mathlib.Data.List.TakeWhile
import Mathlib.Tactic

/-!
Agendas: events with the times at which they are due.

An agenda keeps each event at most once, in order of time, the one set last first; `when?` reads
it as a finite map.
-/

namespace ShifDram

open List Option

/-- Events with times, in the order they are due. -/
structure Agenda (α : Type*) where
  entries : List (ℕ × α)
  sorted : entries.Pairwise fun x y => x.1 ≤ y.1
  nodup : (entries.map Prod.snd).Nodup

namespace Agenda

variable {α : Type*} {l : List (ℕ × α)} {x : ℕ × α}

def empty : Agenda α := ⟨[], List.Pairwise.nil, List.nodup_nil⟩

/-- Put an entry before the first one not earlier. -/
def place (x : ℕ × α) (l : List (ℕ × α)) : List (ℕ × α) := l.orderedInsert (fun y z => y.1 ≤ z.1) x

lemma place_cons (y : ℕ × α) :
    place x (y :: l) = if x.1 ≤ y.1 then x :: y :: l else y :: place x l := rfl

lemma mem_place {x y : ℕ × α} : y ∈ place x l ↔ y = x ∨ y ∈ l := mem_orderedInsert _

lemma sorted_place (h : l.Pairwise fun y z => y.1 ≤ z.1) :
    (place x l).Pairwise fun y z => y.1 ≤ z.1 :=
  Pairwise.orderedInsert (r := Order.Preimage Prod.fst (· ≤ ·)) x l h

lemma nodup_place (h : (l.map Prod.snd).Nodup)
    (hx : ∀ y ∈ l, y.2 ≠ x.2) : ((place x l).map Prod.snd).Nodup := by
  have hperm : (place x l).Perm (x :: l) := perm_orderedInsert _ x l
  rw [(hperm.map Prod.snd).nodup_iff, map_cons, nodup_cons]
  refine ⟨fun hmem => ?_, h⟩
  obtain ⟨y, hy, heq⟩ := mem_map.mp hmem
  exact hx y hy heq

lemma exists_place_append (x y : ℕ × α) (front back : List (ℕ × α)) :
    ∃ front' back', place x (front ++ y :: back) = front' ++ y :: back' ∧
      ∀ z ∈ front', z = x ∨ z ∈ front := by
  induction front with
  | nil =>
    rw [nil_append, place_cons]
    split_ifs
    · exact ⟨[x], back, rfl, by simp⟩
    · exact ⟨[], place x back, rfl, by simp⟩
  | cons w front ih =>
    rw [cons_append, place_cons]
    split_ifs
    · exact ⟨x :: w :: front, back, rfl, by simp⟩
    · obtain ⟨front', back', heq, hfront⟩ := ih
      refine ⟨w :: front', back', by rw [heq, cons_append], fun z hz => ?_⟩
      rcases mem_cons.mp hz with rfl | hz
      · exact Or.inr mem_cons_self
      · exact (hfront z hz).imp_right (mem_cons_of_mem _)

variable [DecidableEq α]

def remove (q : Agenda α) (e : α) : Agenda α :=
  ⟨q.entries.filter (·.2 ≠ e), q.sorted.filter _, q.nodup.sublist (List.filter_sublist.map _)⟩

def set (q : Agenda α) (t : ℕ) (e : α) : Agenda α :=
  ⟨place (t, e) (q.remove e).entries, sorted_place (q.remove e).sorted,
    nodup_place (q.remove e).nodup fun y hy => by simpa using (List.mem_filter.mp hy).2⟩

def when? (q : Agenda α) (e : α) : Option ℕ := (q.entries.find? (·.2 = e)).map Prod.fst

variable {q q' : Agenda α} {t t' : ℕ} {e e' a b : α}

lemma when?_eq_some : q.when? e = some t ↔ (t, e) ∈ q.entries := by
  rw [when?]
  constructor
  · intro h
    obtain ⟨x, hx, rfl⟩ := map_eq_some_iff.mp h
    have hmem := mem_of_find?_eq_some hx
    have hev : x.2 = e := by simpa using find?_some hx
    rwa [← hev]
  · intro h
    cases hfind : q.entries.find? (·.2 = e) with
    | none => exact absurd (find?_eq_none.mp hfind _ h) (by simp)
    | some x =>
      -- an event stands on the agenda only once
      have hx : x.2 = e := by simpa using find?_some hfind
      have heq : x = (t, e) := inj_on_of_nodup_map q.nodup (mem_of_find?_eq_some hfind) h hx
      rw [heq, map_some]

lemma ext_when? {o : Option ℕ} (h : ∀ t, q.when? e = some t ↔ o = some t) : q.when? e = o := by
  exact ext fun t => h t

@[simp] lemma when?_set : (q.set t e).when? e' = if e' = e then some t else q.when? e' := by
  refine ext_when? fun t' => ?_
  simp only [when?_eq_some, set, mem_place, Prod.mk.injEq, remove, mem_filter,
    decide_eq_true_eq, ne_eq]
  by_cases he : e' = e
  · simp [he, eq_comm]
  · simp [he, when?_eq_some]

@[simp] lemma when?_remove (q : Agenda α) (e e' : α) :
    (q.remove e).when? e' = if e' = e then none else q.when? e' := by
  refine ext_when? fun t' => ?_
  simp only [when?_eq_some, remove, mem_filter, decide_eq_true_eq, ne_eq]
  by_cases he : e' = e
  · simp [he]
  · simp [he, when?_eq_some]

lemma when?_set_ne_none (h : q.when? e' ≠ none) : (q.set t e).when? e' ≠ none := by
  rw [when?_set]
  split_ifs
  · exact some_ne_none t
  · exact h

@[simp] lemma when?_empty : (empty : Agenda α).when? e = none := rfl

/-- `a` is on the agenda, and `b` not before it. -/
def Before (q : Agenda α) (a b : α) : Prop :=
  ∃ front t back, q.entries = front ++ (t, a) :: back ∧ ∀ x ∈ front, x.2 ≠ b

lemma Before.exists_when? (h : q.Before a b) : ∃ t, q.when? a = some t := by
  obtain ⟨front, t, back, heq, -⟩ := h
  exact ⟨t, when?_eq_some.mpr (heq ▸ mem_append_right _ mem_cons_self)⟩

lemma Before.le (h : q.Before a b) (hab : a ≠ b) (ha : q.when? a = some t)
    (hb : q.when? b = some t') : t ≤ t' := by
  obtain ⟨front, s, back, heq, hfront⟩ := h
  have hs : q.when? a = some s := when?_eq_some.mpr (heq ▸ mem_append_right _ mem_cons_self)
  obtain rfl := some.inj (ha.symm.trans hs)
  have hmem := when?_eq_some.mp hb
  rw [heq] at hmem
  rcases mem_append.mp hmem with hmem | hmem
  · exact absurd rfl (hfront _ hmem)
  · rcases mem_cons.mp hmem with hx | hmem
    · exact absurd (Prod.mk.inj hx).2.symm hab
    · have hsorted := q.sorted
      rw [heq, pairwise_append, pairwise_cons] at hsorted
      exact hsorted.2.1.1 _ hmem

lemma Before.remove (h : q.Before a b) (he : e ≠ a) : (q.remove e).Before a b := by
  obtain ⟨front, t, back, heq, hfront⟩ := h
  refine ⟨front.filter (·.2 ≠ e), t, back.filter (·.2 ≠ e), ?_, fun x hx =>
    hfront x (mem_of_mem_filter hx)⟩
  simp [Agenda.remove, heq, filter_append, Ne.symm he]

lemma Before.set (h : q.Before a b) (ha : e ≠ a) (hb : e ≠ b) : (q.set t e).Before a b := by
  obtain ⟨front, s, back, heq, hfront⟩ := h.remove ha
  obtain ⟨front', back', heq', hfront'⟩ := exists_place_append (t, e) (s, a) front back
  refine ⟨front', s, back', by rw [← heq', ← heq]; rfl, fun x hx => ?_⟩
  rcases hfront' x hx with rfl | hx
  · exact hb
  · exact hfront x hx

lemma before_set (hb : ∀ t', q.when? b = some t' → t ≤ t') : (q.set t a).Before a b := by
  refine ⟨_, t, _, orderedInsert_eq_take_drop _ (t, a) (q.remove a).entries, fun x hx hxb => ?_⟩
  have hmem : x ∈ q.entries := mem_of_mem_filter (takeWhile_subset _ hx)
  have hlt : ¬ t ≤ x.1 := by simpa using mem_takeWhile_imp hx
  exact hlt (hb x.1 (when?_eq_some.mpr (hxb ▸ hmem)))

lemma when?_of_head (h : q.entries.head? = some (t, e)) : q.when? e = some t :=
  when?_eq_some.mpr (mem_of_head? h)

lemma le_of_head (h : q.entries.head? = some (t, e)) (h' : q.when? e' = some t') : t ≤ t' := by
  obtain ⟨rest, heq⟩ := head?_eq_some_iff.mp h
  have hsorted := q.sorted
  have hmem := when?_eq_some.mp h'
  rw [heq] at hsorted hmem
  rcases mem_cons.mp hmem with hx | hmem
  · exact (Prod.mk.inj hx).1.ge
  · exact (pairwise_cons.mp hsorted).1 _ hmem

omit [DecidableEq α] in
lemma Before.of_head (h : q.Before a b) (hhead : q.entries.head? = some (t, b)) : a = b := by
  obtain ⟨front, s, back, heq, hfront⟩ := h
  rw [heq] at hhead
  cases front with
  | nil => exact (Prod.mk.inj (Option.some.inj hhead)).2
  | cons x front =>
    cases hhead
    exact absurd rfl (hfront _ List.mem_cons_self)

lemma head?_set (h : ∀ e' t', q.when? e' = some t' → t ≤ t') :
    (q.set t e).entries.head? = some (t, e) := by
  change (place (t, e) (q.remove e).entries).head? = some (t, e)
  cases hq : (q.remove e).entries with
  | nil => rfl
  | cons x l =>
    have hmem : x ∈ q.entries := mem_of_mem_filter (hq ▸ mem_cons_self)
    rw [place_cons, if_pos (h x.2 x.1 (when?_eq_some.mpr hmem))]
    rfl

/-- Events of `E` are set in turn, to times from `now` on. -/
def SetsFrom (now : ℕ) (E : α → Prop) : Agenda α → Agenda α → Prop :=
  Relation.ReflTransGen fun q q' => ∃ t e, now ≤ t ∧ E e ∧ q' = q.set t e

namespace SetsFrom

variable {now : ℕ} {E E' : α → Prop} {q₁ q₂ q₃ : Agenda α}

lemma refl (q : Agenda α) : SetsFrom now E q q := Relation.ReflTransGen.refl

section

variable (h : SetsFrom now E q₁ q₂)

include h

lemma trans (h' : SetsFrom now E q₂ q₃) : SetsFrom now E q₁ q₃ := Relation.ReflTransGen.trans h h'

omit h in
lemma single (ht : now ≤ t) (he : E e) : SetsFrom now E q (q.set t e) :=
  Relation.ReflTransGen.single ⟨t, e, ht, he, rfl⟩

lemma mono (himp : ∀ e, E e → E' e) : SetsFrom now E' q₁ q₂ := by
  induction h with
  | refl => exact refl q₁
  | tail _ hstep ih =>
    obtain ⟨t, e, ht, he, rfl⟩ := hstep
    exact ih.trans (single ht (himp e he))

lemma when?_eq (he : ¬ E e) : q₂.when? e = q₁.when? e := by
  induction h with
  | refl => rfl
  | tail _ hstep ih =>
    obtain ⟨t, e', -, he', rfl⟩ := hstep
    have hne : e ≠ e' := fun heq => he (heq.symm ▸ he')
    rw [when?_set, if_neg hne, ih]

lemma ne_none (he : q₁.when? e ≠ none) : q₂.when? e ≠ none := by
  induction h with
  | refl => exact he
  | tail _ hstep ih =>
    obtain ⟨t, e', -, -, rfl⟩ := hstep
    exact when?_set_ne_none ih

lemma before (ha : ¬ E a) (hb : ¬ E b) (hq : q₁.Before a b) : q₂.Before a b := by
  induction h with
  | refl => exact hq
  | tail _ hstep ih =>
    obtain ⟨t, e, -, he, rfl⟩ := hstep
    exact ih.set (fun heq => ha (heq ▸ he)) fun heq => hb (heq ▸ he)

lemma le (hq : ∀ e t, q₁.when? e = some t → now ≤ t) (he : q₂.when? e = some t) : now ≤ t := by
  induction h generalizing e t with
  | refl => exact hq e t he
  | tail _ hstep ih =>
    obtain ⟨t', e', ht', -, rfl⟩ := hstep
    rw [when?_set] at he
    split_ifs at he
    · exact some.inj he ▸ ht'
    · exact ih he

end

end SetsFrom

end Agenda

end ShifDram
