import Mathlib.Data.List.Basic
import Mathlib.Data.List.TakeWhile
import Mathlib.Data.List.Nodup
import Mathlib.Order.Defs.LinearOrder
import Mathlib.Tactic

/-!
Stacks of elements in bins.

A bin holds elements of one key, the newest on top, and the bins stand in order of their keys.
-/

namespace ShifDram

open List

namespace Bins

variable {α κ : Type*} [LinearOrder κ] {key key' : α → κ} {e a : α}
  {bins front back : List (α × List α)} {b : α × List α} {k : κ}

def flat (bins : List (α × List α)) : List α := bins.flatMap fun b => b.1 :: b.2

@[simp] lemma flat_nil : flat ([] : List (α × List α)) = [] := rfl

@[simp] lemma flat_cons : flat (b :: bins) = b.1 :: (b.2 ++ flat bins) := rfl

@[simp] lemma flat_append : flat (front ++ back) = flat front ++ flat back := flatMap_append

lemma mem_flat : a ∈ flat bins ↔ ∃ b ∈ bins, a ∈ b.1 :: b.2 := mem_flatMap

lemma length_le_flat (bins : List (α × List α)) : bins.length ≤ (flat bins).length := by
  induction bins with
  | nil => exact le_rfl
  | cons b bins ih =>
    rw [flat_cons, length_cons, length_cons, length_append]
    omega

structure Leveled (key : α → κ) (bins : List (α × List α)) : Prop where
  level : ∀ b ∈ bins, ∀ a ∈ b.2, key a = key b.1
  increasing : bins.Pairwise fun b c => key b.1 < key c.1

lemma leveled_nil (key : α → κ) : Leveled key [] := ⟨fun _ h => (by cases h), .nil⟩

lemma leveled_append : Leveled key (front ++ back) ↔
    Leveled key front ∧ Leveled key back ∧ ∀ b ∈ front, ∀ c ∈ back, key b.1 < key c.1 := by
  constructor
  · intro h
    obtain ⟨hfront, hback, hlt⟩ := pairwise_append.mp h.increasing
    exact ⟨⟨fun b hb => h.level b (mem_append_left _ hb), hfront⟩,
      ⟨fun b hb => h.level b (mem_append_right _ hb), hback⟩, hlt⟩
  · rintro ⟨hfront, hback, hlt⟩
    refine ⟨fun b hb => ?_, pairwise_append.mpr ⟨hfront.increasing, hback.increasing, hlt⟩⟩
    rcases mem_append.mp hb with hb | hb
    · exact hfront.level b hb
    · exact hback.level b hb

lemma Leveled.key_eq (h : Leveled key bins) (hb : b ∈ bins)
    (ha : a ∈ b.1 :: b.2) : key a = key b.1 := by
  rcases mem_cons.mp ha with rfl | ha
  · rfl
  · exact h.level b hb a ha

lemma Leveled.congr (h : Leveled key bins) (hkey : ∀ a ∈ flat bins, key' a = key a) :
    Leveled key' bins := by
  have htop : ∀ b ∈ bins, key' b.1 = key b.1 := fun b hb =>
    hkey b.1 (mem_flat.mpr ⟨b, hb, mem_cons_self⟩)
  refine ⟨fun b hb a ha => ?_, ?_⟩
  · rw [hkey a (mem_flat.mpr ⟨b, hb, mem_cons_of_mem _ ha⟩), htop b hb, h.level b hb a ha]
  · refine h.increasing.imp_of_mem fun {b c} hb hc hlt => ?_
    rwa [htop b hb, htop c hc]

/-! ### Putting and taking -/

def earlier (key : α → κ) (k : κ) (b : α × List α) : Bool := decide (key b.1 < k)

/-- The element goes into the first bin, or a new one before it. -/
def onTop (key : α → κ) (e : α) : List (α × List α) → List (α × List α)
  | [] => [(e, [])]
  | b :: bins => if key e < key b.1 then (e, []) :: b :: bins else (e, b.1 :: b.2) :: bins

def put (key : α → κ) (e : α) (bins : List (α × List α)) : List (α × List α) :=
  bins.takeWhile (earlier key (key e)) ++ onTop key e (bins.dropWhile (earlier key (key e)))

def without [DecidableEq α] (e : α) : List (α × List α) → List (α × List α)
  | [] => []
  | (top, []) :: bins => if e = top then bins else (top, []) :: bins
  | (top, b :: rest) :: bins =>
    if e = top then (b, rest) :: bins else (top, (b :: rest).erase e) :: bins

def take [DecidableEq α] (key : α → κ) (e : α) (bins : List (α × List α)) : List (α × List α) :=
  bins.takeWhile (earlier key (key e)) ++ without e (bins.dropWhile (earlier key (key e)))

lemma lt_of_mem_takeWhile (h : b ∈ bins.takeWhile (earlier key k)) : key b.1 < k := by
  simpa [earlier] using mem_takeWhile_imp h

lemma le_of_dropWhile (h : bins.dropWhile (earlier key k) = b :: back) : k ≤ key b.1 := by
  have hne : bins.dropWhile (earlier key k) ≠ [] := by
    rw [h]
    exact cons_ne_nil _ _
  have hhead := head_dropWhile_not (earlier key k) hne
  simpa [h, earlier] using hhead

lemma earlier_eq_true : earlier key k b = true ↔ key b.1 < k := decide_eq_true_iff

lemma put_cons_of_lt (h : key b.1 < key e) : put key e (b :: bins) = b :: put key e bins := by
  have hearlier := earlier_eq_true.mpr h
  rw [put, takeWhile_cons_of_pos hearlier, dropWhile_cons_of_pos hearlier]
  rfl

lemma put_cons_of_le (h : key e ≤ key b.1) : put key e (b :: bins) = onTop key e (b :: bins) := by
  have hearlier := mt earlier_eq_true.mp h.not_gt
  rw [put, takeWhile_cons_of_neg hearlier, dropWhile_cons_of_neg hearlier]
  rfl

lemma take_cons_of_lt [DecidableEq α] (h : key b.1 < key e) :
    take key e (b :: bins) = b :: take key e bins := by
  have hearlier := earlier_eq_true.mpr h
  rw [take, takeWhile_cons_of_pos hearlier, dropWhile_cons_of_pos hearlier]
  rfl

lemma take_cons_of_le [DecidableEq α] (h : key e ≤ key b.1) :
    take key e (b :: bins) = without e (b :: bins) := by
  have hearlier := mt earlier_eq_true.mp h.not_gt
  rw [take, takeWhile_cons_of_neg hearlier, dropWhile_cons_of_neg hearlier]
  rfl

lemma flat_onTop (key : α → κ) : flat (onTop key e bins) = e :: flat bins := by
  cases bins with
  | nil => rfl
  | cons b bins =>
    rw [onTop]
    split_ifs <;> rfl

/-- **Putting in**: after smaller keys, before the others. -/
lemma flat_put (key : α → κ) :
    flat (put key e bins) = flat (bins.takeWhile (earlier key (key e))) ++
      e :: flat (bins.dropWhile (earlier key (key e))) := by
  rw [put, flat_append, flat_onTop]

lemma mem_flat_put : a ∈ flat (put key e bins) ↔ a = e ∨ a ∈ flat bins := by
  have hsplit := congrArg flat (takeWhile_append_dropWhile (p := earlier key (key e)) (l := bins))
  rw [flat_append] at hsplit
  rw [flat_put, ← hsplit, mem_append, mem_cons, mem_append]
  tauto

section

variable (h : Leveled key bins)

include h

lemma Leveled.split (k : κ) :
    Leveled key (bins.takeWhile (earlier key k)) ∧ Leveled key (bins.dropWhile (earlier key k)) ∧
      ∀ b ∈ bins.takeWhile (earlier key k), ∀ c ∈ bins.dropWhile (earlier key k),
        key b.1 < key c.1 := by
  rw [← takeWhile_append_dropWhile (p := earlier key k) (l := bins)] at h
  exact leveled_append.mp h

/-- The order is kept if no bin comes before the element. -/
lemma Leveled.onTop (hle : ∀ b ∈ bins, key e ≤ key b.1) :
    Leveled key (onTop key e bins) ∧ ∀ c ∈ Bins.onTop key e bins, c.1 = e ∨ c ∈ bins := by
  cases bins with
  | nil =>
    refine ⟨⟨fun b hb a ha => ?_, pairwise_singleton _ _⟩, fun c hc => ?_⟩
    · rw [mem_singleton.mp hb] at ha
      cases ha
    · exact .inl (by rw [mem_singleton.mp hc])
  | cons b bins =>
    obtain ⟨hlt, hincreasing⟩ := pairwise_cons.mp h.increasing
    rw [Bins.onTop]
    split_ifs with hnew
    · refine ⟨⟨fun c hc a ha => ?_, pairwise_cons.mpr ⟨fun c hc => ?_, h.increasing⟩⟩,
        fun c hc => ?_⟩
      · rcases mem_cons.mp hc with rfl | hc
        · cases ha
        · exact h.level c hc a ha
      · rcases mem_cons.mp hc with rfl | hc
        · exact hnew
        · exact hnew.trans (hlt c hc)
      · rcases mem_cons.mp hc with rfl | hc
        · exact .inl rfl
        · exact .inr hc
    · have hkey : key e = key b.1 := le_antisymm (hle b mem_cons_self) (not_lt.mp hnew)
      refine ⟨⟨fun c hc a ha => ?_, pairwise_cons.mpr ⟨fun c hc => ?_, hincreasing⟩⟩,
        fun c hc => ?_⟩
      · rcases mem_cons.mp hc with rfl | hc
        · exact (h.key_eq mem_cons_self ha).trans hkey.symm
        · exact h.level c (mem_cons_of_mem _ hc) a ha
      · exact hkey ▸ hlt c hc
      · rcases mem_cons.mp hc with rfl | hc
        · exact .inl rfl
        · exact .inr (mem_cons_of_mem _ hc)

lemma Leveled.le_of_mem_dropWhile {c : α × List α} (hc : c ∈ bins.dropWhile (earlier key k)) :
    k ≤ key c.1 := by
  obtain ⟨-, hback, -⟩ := h.split k
  cases hdrop : bins.dropWhile (earlier key k) with
  | nil =>
    rw [hdrop] at hc
    cases hc
  | cons b back =>
    have hfirst := le_of_dropWhile hdrop
    rw [hdrop] at hc hback
    rcases mem_cons.mp hc with rfl | hc
    · exact hfirst
    · exact hfirst.trans ((pairwise_cons.mp hback.increasing).1 c hc).le

lemma Leveled.put (e : α) : Leveled key (put key e bins) := by
  obtain ⟨hfront, hback, hlt⟩ := h.split (key e)
  obtain ⟨htop, hmem⟩ := hback.onTop fun b hb => h.le_of_mem_dropWhile hb
  refine leveled_append.mpr ⟨hfront, htop, fun b hb c hc => ?_⟩
  rcases hmem c hc with hc | hc
  · rw [hc]
    exact lt_of_mem_takeWhile hb
  · exact hlt b hb c hc

/-- An element stands in the first bin not before its key. -/
lemma Leveled.exists_bin (he : e ∈ flat bins) : ∃ top rest back,
    bins.dropWhile (earlier key (key e)) = (top, rest) :: back ∧ key top = key e ∧
      e ∈ top :: rest ∧ e ∉ flat (bins.takeWhile (earlier key (key e))) := by
  obtain ⟨b, hb, hbin⟩ := mem_flat.mp he
  have hkey := h.key_eq hb hbin
  have hnot : e ∉ flat (bins.takeWhile (earlier key (key e))) := by
    intro hmem
    obtain ⟨c, hc, hcbin⟩ := mem_flat.mp hmem
    have hlt := lt_of_mem_takeWhile hc
    exact hlt.ne ((h.key_eq (takeWhile_subset _ hc) hcbin).symm)
  have hdrop : b ∈ bins.dropWhile (earlier key (key e)) := by
    rw [← takeWhile_append_dropWhile (p := earlier key (key e)) (l := bins)] at hb
    rcases mem_append.mp hb with hb | hb
    · exact absurd (mem_flat.mpr ⟨b, hb, hbin⟩) hnot
    · exact hb
  obtain ⟨-, hback, -⟩ := h.split (key e)
  cases hcases : bins.dropWhile (earlier key (key e)) with
  | nil =>
    rw [hcases] at hdrop
    cases hdrop
  | cons c back =>
    have hle := le_of_dropWhile hcases
    rw [hcases] at hdrop hback
    -- the bin of the element is the first one: a later one would have a larger key
    rcases mem_cons.mp hdrop with rfl | hlater
    · exact ⟨b.1, b.2, back, rfl, hkey.symm, hbin, hnot⟩
    · have hlt := (pairwise_cons.mp hback.increasing).1 b hlater
      exact absurd (hle.trans_lt hlt) (hkey ▸ lt_irrefl _)

end

section Take

variable [DecidableEq α]

lemma flat_without {top : α} {rest : List α} (he : e ∈ top :: rest) :
    flat (without e ((top, rest) :: back)) = (top :: rest).erase e ++ flat back := by
  cases rest with
  | nil =>
    rw [mem_singleton.mp he, without, if_pos rfl, erase_cons_head]
    rfl
  | cons b rest =>
    rw [without]
    split_ifs with htop
    · rw [htop, erase_cons_head]
      rfl
    · have hne : ¬ (top == e) = true := fun h => htop (eq_of_beq h).symm
      rw [erase_cons_tail hne]
      rfl

/-- **Taking out** leaves the others in order. -/
lemma flat_take (h : Leveled key bins) (he : e ∈ flat bins) :
    flat (take key e bins) = (flat bins).erase e := by
  obtain ⟨top, rest, back, hdrop, -, hmem, hnot⟩ := h.exists_bin he
  have hsplit := congrArg flat (takeWhile_append_dropWhile (p := earlier key (key e)) (l := bins))
  rw [flat_append, hdrop] at hsplit
  rw [take, flat_append, hdrop, flat_without hmem, ← hsplit, erase_append_right _ hnot]
  congr 1
  exact (erase_append_left _ hmem).symm

lemma Leveled.without (h : Leveled key (b :: back)) : Leveled key (without e (b :: back)) ∧
      ∀ c ∈ Bins.without e (b :: back), key c.1 = key b.1 ∨ c ∈ back := by
  obtain ⟨hlt, hincreasing⟩ := pairwise_cons.mp h.increasing
  have hback : Leveled key back := ⟨fun c hc => h.level c (mem_cons_of_mem _ hc), hincreasing⟩
  have hself : ∀ c ∈ b :: back, key c.1 = key b.1 ∨ c ∈ back := by
    intro c hc
    rcases mem_cons.mp hc with rfl | hc
    · exact .inl rfl
    · exact .inr hc
  obtain ⟨top, rest⟩ := b
  -- a bin of the same key in the place of the first one
  have hreplace : ∀ c : α × List α, key c.1 = key top → (∀ a ∈ c.2, key a = key top) →
      Leveled key (c :: back) ∧ ∀ d ∈ c :: back, key d.1 = key top ∨ d ∈ back := by
    intro c htop hlevel
    refine ⟨⟨fun d hd a ha => ?_, pairwise_cons.mpr ⟨fun d hd => ?_, hincreasing⟩⟩, fun d hd => ?_⟩
    · rcases mem_cons.mp hd with rfl | hd
      · exact (hlevel a ha).trans htop.symm
      · exact hback.level d hd a ha
    · exact htop ▸ hlt d hd
    · rcases mem_cons.mp hd with rfl | hd
      · exact .inl htop
      · exact .inr hd
  have hrest : ∀ a ∈ rest, key a = key top := h.level _ mem_cons_self
  cases rest with
  | nil =>
    rw [Bins.without]
    split_ifs
    · exact ⟨hback, fun c hc => .inr hc⟩
    · exact ⟨h, hself⟩
  | cons a rest =>
    rw [Bins.without]
    split_ifs
    · exact hreplace (a, rest) (hrest a mem_cons_self) fun d hd => hrest d (mem_cons_of_mem _ hd)
    · exact hreplace (top, _) rfl fun d hd => hrest d (mem_of_mem_erase hd)

lemma Leveled.take (h : Leveled key bins) (he : e ∈ flat bins) : Leveled key (take key e bins) := by
  obtain ⟨hfront, hback, hlt⟩ := h.split (key e)
  obtain ⟨top, rest, back, hdrop, -, -, -⟩ := h.exists_bin he
  rw [Bins.take, hdrop]
  rw [hdrop] at hback hlt
  obtain ⟨hwithout, hmem⟩ := hback.without (e := e)
  refine leveled_append.mpr ⟨hfront, hwithout, fun b hb c hc => ?_⟩
  rcases hmem c hc with hc | hc
  · rw [hc]
    exact hlt b hb _ mem_cons_self
  · exact hlt b hb c (mem_cons_of_mem _ hc)

end Take

/-! ### Linked nodes -/

variable {next next' below below' : α → Option α} {p : Option α} {l : List α}

/-- The nodes from `p` on, by the links down. -/
def Linked (below : α → Option α) : Option α → List α → Prop
  | p, [] => p = none
  | p, a :: l => p = some a ∧ Linked below (below a) l

/-- The bins from `p` on: tops are linked, and each bin from the top down. -/
def Stored (next below : α → Option α) : Option α → List (α × List α) → Prop
  | p, [] => p = none
  | p, b :: bins => p = some b.1 ∧ Linked below (below b.1) b.2 ∧ Stored next below (next b.1) bins

def first (bins : List (α × List α)) : Option α := bins.head?.map Prod.fst

/-- The last bin's top, or an element before all bins. -/
def lastTop (a : α) : List (α × List α) → α
  | [] => a
  | b :: bins => lastTop b.1 bins

lemma Linked.congr (h : Linked below p l) (hbelow : ∀ a ∈ l, below' a = below a) :
    Linked below' p l := by
  induction l generalizing p with
  | nil => exact h
  | cons a l ih =>
    refine ⟨h.1, ?_⟩
    rw [hbelow a mem_cons_self]
    exact ih h.2 fun b hb => hbelow b (mem_cons_of_mem _ hb)

lemma Stored.eq_first (h : Stored next below p bins) : p = first bins := by
  cases bins with
  | nil => exact h
  | cons b bins => exact h.1

lemma Stored.congr (h : Stored next below p bins) (hbelow : ∀ a ∈ flat bins, below' a = below a)
    (hnext : ∀ b ∈ bins, next' b.1 = next b.1) : Stored next' below' p bins := by
  induction bins generalizing p with
  | nil => exact h
  | cons b bins ih =>
    obtain ⟨hp, hlinked, hstored⟩ := h
    refine ⟨hp, ?_, ?_⟩
    · rw [hbelow b.1 mem_cons_self]
      exact hlinked.congr fun a ha => hbelow a (mem_cons_of_mem _ (mem_append_left _ ha))
    · rw [hnext b mem_cons_self]
      exact ih hstored (fun a ha => hbelow a (mem_cons_of_mem _ (mem_append_right _ ha)))
        fun c hc => hnext c (mem_cons_of_mem _ hc)

lemma Stored.of_lastTop (h : Stored next below p (b :: (front ++ back))) :
    Stored next below (next (lastTop b.1 front)) back := by
  induction front generalizing b p with
  | nil => exact h.2.2
  | cons c front ih => exact ih h.2.2

lemma lastTop_mem (b : α × List α) (front : List (α × List α)) :
    lastTop b.1 front ∈ flat (b :: front) := by
  induction front generalizing b with
  | nil => exact mem_cons_self
  | cons c front ih => exact mem_cons_of_mem _ (mem_append_right _ (ih c))

/-- **The bins behind one bin are exchanged.** -/
lemma Stored.splice {back' : List (α × List α)} (h : Stored next below p (b :: (front ++ back)))
    (hbelow : ∀ a ∈ flat (b :: front), below' a = below a)
    (hnext : ∀ a ∈ flat (b :: front), a ≠ lastTop b.1 front → next' a = next a)
    (hnodup : (flat (b :: front)).Nodup)
    (hback : Stored next' below' (next' (lastTop b.1 front)) back') :
    Stored next' below' p (b :: (front ++ back')) := by
  induction front generalizing b p with
  | nil =>
    obtain ⟨hp, hlinked, -⟩ := h
    refine ⟨hp, ?_, hback⟩
    rw [hbelow b.1 mem_cons_self]
    exact hlinked.congr fun a ha => hbelow a (by simp [ha])
  | cons c front ih =>
    obtain ⟨hp, hlinked, hstored⟩ := h
    obtain ⟨hnot, hnodup⟩ := nodup_cons.mp hnodup
    refine ⟨hp, ?_, ?_⟩
    · rw [hbelow b.1 mem_cons_self]
      exact hlinked.congr fun a ha => hbelow a (mem_cons_of_mem _ (mem_append_left _ ha))
    · have hne : b.1 ≠ lastTop c.1 front := by
        intro heq
        refine hnot (mem_append_right _ ?_)
        rw [heq]
        exact lastTop_mem c front
      rw [hnext b.1 mem_cons_self hne]
      exact ih hstored (fun a ha => hbelow a (mem_cons_of_mem _ (mem_append_right _ ha)))
        (fun a ha => hnext a (mem_cons_of_mem _ (mem_append_right _ ha)))
        (nodup_append.mp hnodup).2.1 hback

end Bins

end ShifDram
