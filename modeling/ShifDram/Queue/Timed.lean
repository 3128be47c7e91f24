import Mathlib.Data.List.Sort
import ShifDram.Queue.Log

/-!
Lists kept in order of a key, first come first served among equal keys.

An implementation looks at the last element first and only then walks the list from the front.
-/

namespace ShifDram.Timed

open List

variable {α : Type*} (key : α → ℕ) {β : Type*}

def InTime (l : List α) : Prop := l.Pairwise fun x y => key x ≤ key y

/-- A new element goes behind every one not later. -/
def insert (a : α) (l : List α) : List α := l.orderedInsert (fun x y => key x < key y) a

/-- Walk to the first later element; `none` at the end. -/
def insertBefore (a : α) : List α → Option (List α)
  | [] => none
  | b :: l => if key a < key b then some (a :: b :: l) else (insertBefore a l).map (b :: ·)

/-- Append if the last element is not later, else walk. -/
def add (a : α) (l : List α) : Option (List α) :=
  if l.getLast?.all fun b => key b ≤ key a then some (l ++ [a]) else insertBefore key a l

variable {key} {a : α} {l : List α}

lemma insert_cons (b : α) :
    insert key a (b :: l) = if key a < key b then a :: b :: l else b :: insert key a l := rfl

lemma mem_insert {x : α} : x ∈ insert key a l ↔ x = a ∨ x ∈ l := mem_orderedInsert _

lemma insert_eq_append (h : ∀ b ∈ l, key b ≤ key a) : insert key a l = l ++ [a] := by
  induction l with
  | nil => rfl
  | cons b l ih =>
    rw [insert_cons, if_neg (not_lt.mpr (h b mem_cons_self)),
      ih fun x hx => h x (mem_cons_of_mem b hx), cons_append]

lemma insertBefore_eq_some (h : ∃ b ∈ l, key a < key b) :
    insertBefore key a l = some (insert key a l) := by
  induction l with
  | nil => simp at h
  | cons b l ih =>
    rw [insertBefore, insert_cons]
    split_ifs with hlt
    · rfl
    · obtain ⟨x, hx, hax⟩ := h
      rcases mem_cons.mp hx with rfl | hx
      · exact absurd hax hlt
      · rw [ih ⟨x, hx, hax⟩, Option.map_some]

lemma InTime.le_getLast (h : InTime key l) {x b : α} (hx : x ∈ l) (hb : l.getLast? = some b) :
    key x ≤ key b := by
  obtain ⟨l, rfl⟩ := getLast?_eq_some_iff.mp hb
  rcases mem_snoc.mp hx with hx | rfl
  · exact (pairwise_append.mp h).2.2 x hx b mem_cons_self
  · exact le_rfl

/-- **Insertion never fails** on a list in order. -/
lemma add_eq_some (h : InTime key l) (a : α) : add key a l = some (insert key a l) := by
  rw [add]
  cases hlast : l.getLast? with
  | none => rw [getLast?_eq_none_iff.mp hlast]; rfl
  | some b =>
    have hb : b ∈ l := mem_of_getLast? hlast
    simp only [Option.all_some, decide_eq_true_eq]
    split_ifs with hle
    · rw [insert_eq_append fun x hx => (h.le_getLast hx hlast).trans hle]
    · exact insertBefore_eq_some ⟨b, hb, not_le.mp hle⟩

lemma add_ne_none (a : α) (l : List α) : add key a l ≠ none := by
  rw [add]
  cases hlast : l.getLast? with
  | none => simp
  | some b =>
    simp only [Option.all_some, decide_eq_true_eq]
    split_ifs with hle
    · exact Option.some_ne_none _
    · rw [insertBefore_eq_some ⟨b, mem_of_getLast? hlast, not_le.mp hle⟩]
      exact Option.some_ne_none _

/-- **Insertion** relates the new element to what is in front and behind. -/
lemma pairwise_insert {P : α → α → Prop} (h : InTime key l) (hP : l.Pairwise P)
    (hfront : ∀ x ∈ l, key x ≤ key a → P x a) (hback : ∀ x ∈ l, key a < key x → P a x) :
    (insert key a l).Pairwise P := by
  induction l with
  | nil => exact pairwise_singleton P a
  | cons b l ih =>
    obtain ⟨hb, hl⟩ := pairwise_cons.mp h
    obtain ⟨hPb, hPl⟩ := pairwise_cons.mp hP
    rw [insert_cons]
    split_ifs with hlt
    · refine pairwise_cons.mpr ⟨fun x hx => hback x hx ?_, hP⟩
      rcases mem_cons.mp hx with rfl | hx
      · exact hlt
      · exact hlt.trans_le (hb x hx)
    · refine pairwise_cons.mpr ⟨fun x hx => ?_, ih hl hPl
        (fun x hx => hfront x (mem_cons_of_mem b hx))
        fun x hx => hback x (mem_cons_of_mem b hx)⟩
      rcases mem_insert.mp hx with rfl | hx
      · exact hfront b mem_cons_self (not_lt.mp hlt)
      · exact hPb x hx

lemma map_insert (f : β → α) (b : β) (l : List β) :
    (insert (fun x => key (f x)) b l).map f = insert key (f b) (l.map f) :=
  map_orderedInsert _ _ f l b (fun _ _ => Iff.rfl) fun _ _ => Iff.rfl

lemma inTime_map (f : β → α) (l : List β) :
    InTime key (l.map f) ↔ InTime (fun x => key (f x)) l := pairwise_map

lemma InTime.insert (h : InTime key l) (a : α) : InTime key (insert key a l) :=
  pairwise_insert h h (fun _ _ hle => hle) fun _ _ hlt => hlt.le

end ShifDram.Timed
