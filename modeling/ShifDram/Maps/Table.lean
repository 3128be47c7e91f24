import Mathlib.Data.List.Basic
import Mathlib.Logic.Function.Basic
import Mathlib.Tactic

/-!
Partial maps with a front of recent entries, and entries moved between keys.

A table is a partial map `κ → Option ν`. In front of it stand a few slots with
entries that were used last. A slot that holds a key must hold what the table
has for it; if no key is held twice, to erase the first slot of a key is to
forget the key.
-/

namespace ShifDram

open List

variable {κ ν : Type*} {k' : κ}

/-- Slots with recent entries, the last one first; `none` is an empty slot. -/
abbrev Recent (κ ν : Type*) := List (Option (κ × ν))

namespace Recent

variable {c : Recent κ ν} {m : κ → Option ν} {k : κ} {x : ν}

def find? [DecidableEq κ] : Recent κ ν → κ → Option ν
  | [], _ => none
  | none :: c, k => find? c k
  | some (k', x) :: c, k => if k' = k then some x else find? c k

def erase [DecidableEq κ] : Recent κ ν → κ → Recent κ ν
  | [], _ => []
  | none :: c, k => none :: erase c k
  | some (k', x) :: c, k => if k' = k then none :: c else some (k', x) :: erase c k

/-- A new entry in the first slot; the others move up and the last one is dropped. -/
def push (c : Recent κ ν) (k : κ) (x : ν) : Recent κ ν := (some (k, x) :: c).dropLast

def Holds (c : Recent κ ν) (k : κ) : Prop := ∃ x, some (k, x) ∈ c

def Apart : Recent κ ν → Prop := List.Pairwise fun s t => ∀ k x y, s = some (k, x) → t ≠ some (k, y)

structure Agrees (c : Recent κ ν) (m : κ → Option ν) : Prop where
  entry : ∀ {k x}, some (k, x) ∈ c → m k = some x
  apart : c.Apart

lemma agrees_replicate (n : ℕ) (m : κ → Option ν) : Agrees (List.replicate n none) m := by
  refine ⟨fun h => ?_, ?_⟩
  · cases eq_of_mem_replicate h
  · exact pairwise_replicate.mpr (Or.inr fun _ _ _ h => by cases h)

lemma mem_of_mem_push {y : ν} (h : some (k', y) ∈ c.push k x) :
    k' = k ∧ y = x ∨ some (k', y) ∈ c := by
  rcases mem_cons.mp (mem_of_mem_dropLast h) with heq | h
  · cases heq
    exact Or.inl ⟨rfl, rfl⟩
  · exact Or.inr h

lemma Holds.of_push (h : (c.push k x).Holds k') : k' = k ∨ c.Holds k' := by
  obtain ⟨y, hy⟩ := h
  exact (mem_of_mem_push hy).imp And.left fun h => ⟨y, h⟩

lemma Agrees.push (h : c.Agrees m) (hk : ¬ c.Holds k) (hx : m k = some x) :
    (c.push k x).Agrees m := by
  refine ⟨fun {l y} hl => ?_, ?_⟩
  · rcases mem_of_mem_push hl with ⟨rfl, rfl⟩ | hl
    · exact hx
    · exact h.entry hl
  · refine List.Pairwise.sublist (dropLast_sublist _) (pairwise_cons.mpr ⟨?_, h.apart⟩)
    rintro t ht l u v hl rfl
    cases hl
    exact hk ⟨v, ht⟩

variable [DecidableEq κ]

lemma mem_of_find? (h : c.find? k = some x) : some (k, x) ∈ c := by
  induction c with
  | nil => cases h
  | cons slot c ih =>
    obtain _ | ⟨k', y⟩ := slot
    · exact mem_cons_of_mem _ (ih h)
    · rw [find?] at h
      split_ifs at h with hk
      · cases h
        rw [hk]
        exact mem_cons_self
      · exact mem_cons_of_mem _ (ih h)

lemma not_holds_of_find? (h : c.find? k = none) : ¬ c.Holds k := by
  rintro ⟨x, hx⟩
  induction c with
  | nil => cases hx
  | cons slot c ih =>
    obtain _ | ⟨k', y⟩ := slot
    · exact ih h ((mem_cons.mp hx).resolve_left (by simp))
    · rw [find?] at h
      split_ifs at h with hk
      rcases mem_cons.mp hx with heq | hx
      · cases heq
        exact hk rfl
      · exact ih h hx

instance (c : Recent κ ν) (k : κ) : Decidable (c.Holds k) :=
  decidable_of_iff ((c.find? k).isSome = true) <| by
    constructor
    · intro h
      obtain ⟨x, hx⟩ := Option.isSome_iff_exists.mp h
      exact ⟨x, mem_of_find? hx⟩
    · intro h
      by_contra hnone
      rw [Option.not_isSome_iff_eq_none] at hnone
      exact not_holds_of_find? hnone h

lemma mem_of_mem_erase (h : some (k', x) ∈ c.erase k) : some (k', x) ∈ c := by
  induction c with
  | nil => cases h
  | cons slot c ih =>
    obtain _ | ⟨k'', y⟩ := slot
    · rcases mem_cons.mp h with heq | h
      · cases heq
      · exact mem_cons_of_mem _ (ih h)
    · rw [erase] at h
      split_ifs at h
      · exact mem_cons_of_mem _ ((mem_cons.mp h).resolve_left (by simp))
      · rcases mem_cons.mp h with heq | h
        · rw [heq]
          exact mem_cons_self
        · exact mem_cons_of_mem _ (ih h)

lemma Holds.of_erase (h : (c.erase k).Holds k') : c.Holds k' := h.imp fun _ => mem_of_mem_erase

lemma Apart.erase (h : c.Apart) (k : κ) : (c.erase k).Apart := by
  induction c with
  | nil => exact h
  | cons slot c ih =>
    obtain ⟨hslot, hc⟩ := pairwise_cons.mp h
    obtain _ | ⟨k', y⟩ := slot
    · exact pairwise_cons.mpr ⟨fun _ _ _ _ _ heq => (by cases heq), ih hc⟩
    · rw [Recent.erase]
      split_ifs
      · exact pairwise_cons.mpr ⟨fun _ _ _ _ _ heq => (by cases heq), hc⟩
      · refine pairwise_cons.mpr ⟨?_, ih hc⟩
        rintro t ht l u v hl rfl
        exact hslot _ (mem_of_mem_erase ht) l u v hl rfl

lemma Apart.not_holds_erase (h : c.Apart) (k : κ) : ¬ (c.erase k).Holds k := by
  rintro ⟨x, hx⟩
  induction c with
  | nil => cases hx
  | cons slot c ih =>
    obtain ⟨hslot, hc⟩ := pairwise_cons.mp h
    obtain _ | ⟨k', y⟩ := slot
    · exact ih hc ((mem_cons.mp hx).resolve_left (by simp))
    · rw [Recent.erase] at hx
      split_ifs at hx with hk
      · subst hk
        have hmem := (mem_cons.mp hx).resolve_left (by simp)
        exact hslot _ hmem _ y x rfl rfl
      · rcases mem_cons.mp hx with heq | hx
        · cases heq
          exact hk rfl
        · exact ih hc hx

lemma Agrees.find?_eq (h : c.Agrees m) (hk : c.find? k = some x) : m k = some x :=
  h.entry (mem_of_find? hk)

lemma Agrees.update (h : c.Agrees m) (hk : ¬ c.Holds k) (v : Option ν) :
    c.Agrees (Function.update m k v) := by
  refine ⟨fun {l y} hl => ?_, h.apart⟩
  have hne : l ≠ k := by
    rintro rfl
    exact hk ⟨y, hl⟩
  rw [Function.update_of_ne hne]
  exact h.entry hl

lemma Agrees.erase (h : c.Agrees m) (k : κ) (v : Option ν) :
    (c.erase k).Agrees (Function.update m k v) :=
  Agrees.update ⟨fun hl => h.entry (mem_of_mem_erase hl), h.apart.erase k⟩
    (h.apart.not_holds_erase k) v

end Recent

/-- The entries of `src i` have been moved to `dst i`, for all `i < n` at once. -/
structure Moved (relabel : κ → ν → ν) (src dst : ℕ → κ) (n : ℕ) (m m' : κ → Option ν) :
    Prop where
  target : ∀ {i}, i < n → m' (dst i) = (m (src i)).map (relabel (dst i))
  source : ∀ {i}, i < n → (∀ j < n, dst j ≠ src i) → m' (src i) = none
  frame : ∀ {k}, (∀ i < n, dst i ≠ k) → (∀ i < n, src i ≠ k) → m' k = m k

namespace Moved

variable {relabel : κ → ν → ν} {src dst : ℕ → κ} {n : ℕ} {m m₁ m' m'' : κ → Option ν}

lemma zero (m : κ → Option ν) : Moved relabel src dst 0 m m :=
  ⟨fun h => (by cases h), fun h => (by cases h), fun _ _ => rfl⟩

lemma unique (h : Moved relabel src dst n m m') (h' : Moved relabel src dst n m m'') :
    m' = m'' := by
  funext k
  by_cases hdst : ∃ i < n, dst i = k
  · obtain ⟨i, hi, rfl⟩ := hdst
    rw [h.target hi, h'.target hi]
  · push Not at hdst
    by_cases hsrc : ∃ i < n, src i = k
    · obtain ⟨i, hi, rfl⟩ := hsrc
      rw [h.source hi hdst, h'.source hi hdst]
    · push Not at hsrc
      rw [h.frame hdst hsrc, h'.frame hdst hsrc]

/-- **One after the other**: the first target is no source, and no key is moved from or to twice. -/
lemma cons (hfirst : Moved relabel src dst 1 m m₁)
    (hrest : Moved relabel (fun i => src (i + 1)) (fun i => dst (i + 1)) n m₁ m')
    (hclash : ∀ i ≤ n, dst 0 ≠ src i) (hsrc : ∀ i < n, src (i + 1) ≠ src 0)
    (hdst : ∀ i < n, dst (i + 1) ≠ dst 0) : Moved relabel src dst (n + 1) m m' := by
  have hone : ∀ {k}, dst 0 ≠ k → src 0 ≠ k → m₁ k = m k := fun hd hs =>
    hfirst.frame (fun i hi => by obtain rfl := Nat.lt_one_iff.mp hi; exact hd)
      (fun i hi => by obtain rfl := Nat.lt_one_iff.mp hi; exact hs)
  refine ⟨fun {i} hi => ?_, fun {i} hi hfree => ?_, fun {k} hd hs => ?_⟩
  · cases i with
    | zero =>
      rw [hrest.frame (fun i hi => hdst i hi) fun i hi => (hclash (i + 1) hi).symm]
      exact hfirst.target Nat.one_pos
    | succ i =>
      have hi' : i < n := Nat.lt_of_succ_lt_succ hi
      rw [hrest.target hi', hone (hclash (i + 1) hi') (hsrc i hi').symm]
  · cases i with
    | zero =>
      rw [hrest.frame (fun j hj => hfree (j + 1) (Nat.succ_lt_succ hj)) hsrc]
      exact hfirst.source Nat.one_pos fun j hj => by
        obtain rfl := Nat.lt_one_iff.mp hj
        exact hfree 0 (Nat.succ_pos n)
    | succ i =>
      exact hrest.source (Nat.lt_of_succ_lt_succ hi) fun j hj => hfree (j + 1) (Nat.succ_lt_succ hj)
  · rw [hrest.frame (fun i hi => hd (i + 1) (Nat.succ_lt_succ hi))
      fun i hi => hs (i + 1) (Nat.succ_lt_succ hi)]
    exact hone (hd 0 (Nat.succ_pos n)) (hs 0 (Nat.succ_pos n))

end Moved

end ShifDram
