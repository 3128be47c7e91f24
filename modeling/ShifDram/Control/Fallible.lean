import Mathlib.Tactic

/-!
Computations that may fail: what a result says about the parts.
-/

namespace ShifDram

open List

namespace Fallible

variable {ε α β : Type*} {f : β → α → Except ε β} {l : List α} {b : β} {x : Except ε α}
  {P : β → Prop}
variable {a : α} {c : Prop}

lemma bind_ok {f : α → Except ε β} (h : x.bind f = .ok b) : ∃ a, x = .ok a ∧ f a = .ok b := by
  cases x with
  | error e => cases h
  | ok a => exact ⟨a, rfl, h⟩

lemma map_ok {f : α → β} (h : x.map f = .ok b) : ∃ a, x = .ok a ∧ f a = b := by
  cases x with
  | error e => cases h
  | ok a => exact ⟨a, rfl, Except.ok.inj h⟩

lemma foldlM_ok {b b' : β} (hstep : ∀ a ∈ l, ∀ b b', P b → f b a = .ok b' → P b') (hb : P b)
    (h : l.foldlM f b = .ok b') : P b' := by
  induction l generalizing b with
  | nil =>
    obtain rfl : b = b' := Except.ok.inj h
    exact hb
  | cons a l ih =>
    obtain ⟨b₁, h₁, h₂⟩ := bind_ok h
    exact ih (fun a' ha' => hstep a' (mem_cons_of_mem _ ha')) (hstep a mem_cons_self b b₁ hb h₁) h₂

/-- What a round achieves for its element, and later rounds keep, holds of all. -/
lemma foldlM_all {Q : α → β → Prop} {b b' : β} (hstep : ∀ a ∈ l, ∀ b b', P b → f b a = .ok b' →
      P b' ∧ Q a b' ∧ ∀ a', Q a' b → Q a' b') (hb : P b) (h : l.foldlM f b = .ok b') :
    P b' ∧ ∀ a ∈ l, Q a b' := by
  induction l generalizing b with
  | nil =>
    obtain rfl : b = b' := Except.ok.inj h
    exact ⟨hb, by simp⟩
  | cons a l ih =>
    obtain ⟨b₁, h₁, h₂⟩ := bind_ok h
    have hrest : ∀ a' ∈ l, ∀ b b', P b → f b a' = .ok b' →
        P b' ∧ Q a' b' ∧ ∀ a'', Q a'' b → Q a'' b' :=
      fun a' ha' => hstep a' (mem_cons_of_mem _ ha')
    obtain ⟨hP, hQ, -⟩ := hstep a mem_cons_self b b₁ hb h₁
    obtain ⟨hP', hall⟩ := ih hrest hP h₂
    -- what is achieved is kept to the end
    have hkept : Q a b' := (foldlM_ok (P := fun b => P b ∧ Q a b) (fun a' ha' b b' hb hf =>
      ⟨(hrest a' ha' b b' hb.1 hf).1, (hrest a' ha' b b' hb.1 hf).2.2 a hb.2⟩) ⟨hP, hQ⟩ h₂).2
    refine ⟨hP', fun a' ha' => ?_⟩
    rcases mem_cons.mp ha' with rfl | ha'
    · exact hkept
    · exact hall a' ha'

/-- A loop whose rounds succeed under an invariant on the elements passed succeeds. -/
lemma foldlM_total {P : List α → β → Prop}
    (hstep : ∀ done a rest, l = done ++ a :: rest → ∀ b, P done b →
      ∃ b', f b a = .ok b' ∧ P (done ++ [a]) b') (hb : P [] b) :
    ∃ b', l.foldlM f b = .ok b' ∧ P l b' := by
  -- along the list, with the elements already passed in `done`
  have hfrom : ∀ rest done b, l = done ++ rest → P done b →
      ∃ b', rest.foldlM f b = .ok b' ∧ P l b' := by
    intro rest
    induction rest with
    | nil =>
      intro done b hl hP
      rw [append_nil] at hl
      exact ⟨b, rfl, hl ▸ hP⟩
    | cons a rest ih =>
      intro done b hl hP
      obtain ⟨b₁, h₁, hP₁⟩ := hstep done a rest hl b hP
      obtain ⟨b', h', hP'⟩ := ih (done ++ [a]) b₁ (by rw [hl]; simp) hP₁
      refine ⟨b', ?_, hP'⟩
      rw [foldlM_cons, h₁]
      exact h'
  exact hfrom l [] b rfl hb

/-- Every error of the computation satisfies `P`. -/
def FailsWith (P : ε → Prop) (x : Except ε α) : Prop := ∀ e, x = .error e → P e

variable {P Q : ε → Prop} {x y : Except ε α} {e : ε}

lemma FailsWith.ok (a : α) : FailsWith P (.ok a : Except ε α) := fun _ h => by cases h

lemma FailsWith.error (h : P e) : FailsWith P (.error e : Except ε α) := fun e' he => by
  obtain rfl := Except.error.inj he
  exact h

lemma FailsWith.mono (h : FailsWith P x) (himp : ∀ e, P e → Q e) : FailsWith Q x :=
  fun e he => himp e (h e he)

lemma FailsWith.bind {f : α → Except ε β} (hx : FailsWith P x)
    (hf : ∀ a, x = .ok a → FailsWith P (f a)) : FailsWith P (x.bind f) := by
  cases x with
  | error e => exact fun e' he => hx e' (by simpa [Except.bind] using he)
  | ok a => exact hf a rfl

lemma FailsWith.map {f : α → β} (hx : FailsWith P x) : FailsWith P (x.map f) := by
  cases x with
  | error e => exact fun e' he => hx e' (by simpa [Except.map] using he)
  | ok a => exact .ok (f a)

lemma FailsWith.ite [Decidable c] (hx : c → FailsWith P x) (hy : ¬ c → FailsWith P y) :
    FailsWith P (if c then x else y) := by
  split_ifs with h
  · exact hx h
  · exact hy h

/-- A check that stops the computation. -/
lemma FailsWith.guard [Decidable c] (he : P e) (hx : ¬ c → FailsWith P x) :
    FailsWith P (if c then .error e else x) := .ite (fun _ => .error he) hx

/-- A part run under a condition only. -/
lemma FailsWith.when [Decidable c] (hx : c → FailsWith P x) :
    FailsWith P (if c then x else .ok a) := .ite hx fun _ => .ok a

lemma FailsWith.skip [Decidable c] (hx : ¬ c → FailsWith P x) :
    FailsWith P (if c then .ok a else x) := .ite (fun _ => .ok a) hx

lemma FailsWith.foldlM (h : ∀ b a, FailsWith P (f b a)) (l : List α)
    (b : β) : FailsWith P (l.foldlM f b) := by
  induction l generalizing b with
  | nil => exact .ok b
  | cons a l ih => exact (h b a).bind fun b' _ => ih b'

/-- A result in `Q`, or an error in `P`. -/
def Meets (P : ε → Prop) (Q : α → Prop) : Except ε α → Prop
  | .ok a => Q a
  | .error e => P e

variable {R : β → Prop} {S T : α → Prop}

lemma meets_iff : Meets P S x ↔ FailsWith P x ∧ ∀ a, x = .ok a → S a := by
  cases x with
  | error e => exact ⟨fun h => ⟨.error h, fun a ha => by cases ha⟩, fun h => h.1 e rfl⟩
  | ok a =>
    refine ⟨fun h => ⟨.ok a, fun a' ha' => ?_⟩, fun h => h.2 a rfl⟩
    cases ha'
    exact h

lemma Meets.ok (h : S a) : Meets P S (.ok a : Except ε α) := h

lemma Meets.result (h : Meets P S x) (hx : x = .ok a) : S a := (meets_iff.mp h).2 a hx

lemma Meets.fails (h : Meets P S x) : FailsWith P x := (meets_iff.mp h).1

lemma Meets.mono (h : Meets P S x) (himp : ∀ a, S a → T a) : Meets P T x :=
  meets_iff.mpr ⟨h.fails, fun a ha => himp a (h.result ha)⟩

lemma Meets.bind {f : α → Except ε β} (hx : Meets P S x) (hf : ∀ a, S a → Meets P R (f a)) :
    Meets P R (x.bind f) := by
  cases x with
  | error e => exact hx
  | ok a => exact hf a hx

lemma Meets.map {f : α → β} (hx : Meets P S x) (hf : ∀ a, S a → R (f a)) : Meets P R (x.map f) := by
  cases x with
  | error e => exact hx
  | ok a => exact hf a hx

lemma Meets.ite [Decidable c] (hx : c → Meets P S x) (hy : ¬ c → Meets P S y) :
    Meets P S (if c then x else y) := by
  split_ifs with h
  · exact hx h
  · exact hy h

lemma Meets.foldlM
    (hstep : ∀ a ∈ l, ∀ b, R b → Meets P R (f b a)) (hb : R b) : Meets P R (l.foldlM f b) := by
  induction l generalizing b with
  | nil => exact hb
  | cons a l ih =>
    exact (hstep a mem_cons_self b hb).bind fun b' hb' =>
      ih (fun a' ha' => hstep a' (mem_cons_of_mem _ ha')) hb'

end Fallible

end ShifDram
