import Mathlib.Data.List.Basic
import Mathlib.Tactic

/-!
Lists that grow, and logs in which every entry rests on those before it.

A log is a list, newest entry first. `Backed P log` says that every entry `a` has `P a older`,
where `older` is the log when the entry was made.
-/

namespace ShifDram

variable {α : Type*}

section

variable {R : α → α → Prop} {a b : α} {l : List α}

lemma mem_snoc : a ∈ l ++ [b] ↔ a ∈ l ∨ a = b := by rw [List.mem_append, List.mem_singleton]

lemma pairwise_snoc : (l ++ [b]).Pairwise R ↔ l.Pairwise R ∧ ∀ a ∈ l, R a b := by
  simp [List.pairwise_append]

end

def Backed (P : α → List α → Prop) : List α → Prop
  | [] => True
  | a :: older => P a older ∧ Backed P older

namespace Backed

variable {P Q : α → List α → Prop} {a : α} {log : List α}

lemma nil : Backed P [] := trivial

lemma cons (h : Backed P log) (ha : P a log) : Backed P (a :: log) := ⟨ha, h⟩

lemma mono (h : Backed P log) (himp : ∀ a ∈ log, ∀ older, P a older → Q a older) :
    Backed Q log := by
  induction log with
  | nil => exact nil
  | cons a log ih =>
    exact (ih h.2 fun b hb => himp b (List.mem_cons_of_mem _ hb)).cons
      (himp a List.mem_cons_self _ h.1)

lemma of_append {newer older : List α} (h : Backed P (newer ++ a :: older)) :
    P a older ∧ Backed P older := by
  induction newer with
  | nil => exact h
  | cons b newer ih => exact ih h.2

end Backed

end ShifDram
