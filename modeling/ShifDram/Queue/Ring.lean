import ShifDram.Queue.Log

/-!
Circular queues.

A queue of `n` slots is an array with wrapping head and tail indices; one slot always stays free.
`Holds` is closed under taking either end of the list, so that a loop in either direction is an
induction on a list.
-/

namespace ShifDram.RingBuffer

open List Function

def next (n i : ℕ) : ℕ := if n ≤ i + 1 then 0 else i + 1

def prev (n i : ℕ) : ℕ := if i = 0 then n - 1 else i - 1

/-- The index `k` places after `head`. -/
def index (n head k : ℕ) : ℕ := if head + k < n then head + k else head + k - n

variable {n head k m i : ℕ}

@[simp] lemma index_zero (h : head < n) : index n head 0 = head := by
  simp [index, h]

lemma index_lt (h : head < n) (hk : k < n) : index n head k < n := by
  rw [index]
  split_ifs <;> omega

lemma index_inj (hk : k < n) (hm : m < n) (h : index n head k = index n head m) : k = m := by
  simp only [index] at h
  split_ifs at h <;> omega

lemma index_index (h : head < n) (hkm : k + m < n) :
    index n (index n head k) m = index n head (k + m) := by
  simp only [index]
  split_ifs <;> omega

lemma next_eq_index (h : i < n) : next n i = index n i 1 := by
  simp only [next, index]
  split_ifs <;> omega

lemma next_index (h : head < n) (hk : k + 1 < n) :
    next n (index n head k) = index n head (k + 1) := by
  rw [next_eq_index (index_lt h (by omega)), index_index h hk]

lemma index_next (h : head < n) (hk : k + 1 < n) :
    index n (next n head) k = index n head (k + 1) := by
  rw [next_eq_index h, index_index h (by omega), Nat.add_comm]

lemma prev_next (h : i < n) : prev n (next n i) = i := by
  by_cases hi : n ≤ i + 1
  · rw [next, if_pos hi, prev, if_pos rfl]
    omega
  · rw [next, if_neg hi, prev, if_neg (by omega)]
    omega

lemma prev_index (h : head < n) (hk : k + 1 < n) :
    prev n (index n head (k + 1)) = index n head k := by
  rw [← next_index h hk, prev_next (index_lt h (by omega))]

/-- The number of places from `i` to `j`. -/
def distance (n i j : ℕ) : ℕ := if i ≤ j then j - i else j + n - i

lemma distance_index (h : head < n) (hk : k < n) : distance n head (index n head k) = k := by
  simp only [distance, index]
  split_ifs <;> omega

/-- The slots from `head` to `tail` hold `l`, and one slot is free. -/
structure Holds {β : Type*} (n : ℕ) (buf : ℕ → β) (head tail : ℕ) (l : List β) : Prop where
  head_lt : head < n
  length_lt : l.length < n
  tail_eq : tail = index n head l.length
  get : ∀ (k : ℕ) (hk : k < l.length), buf (index n head k) = l[k]

namespace Holds

variable {β : Type*} {buf buf' : ℕ → β} {tail mid : ℕ} {l l' : List β} {x y : β}

lemma length_eq_distance (h : Holds n buf head tail l) : l.length = distance n head tail := by
  rw [h.tail_eq, distance_index h.head_lt h.length_lt]

lemma empty (h : head < n) : Holds n buf head head [] :=
  ⟨h, by simp only [length_nil]; omega, by simp [h], by simp⟩

lemma head_eq_tail_iff (h : Holds n buf head tail l) : head = tail ↔ l = [] := by
  have hn := h.length_lt
  refine ⟨fun heq => ?_, fun hl => ?_⟩
  · have h0 : index n head 0 = index n head l.length := by
      rw [index_zero h.head_lt, ← h.tail_eq, heq]
    exact length_eq_zero_iff.mp (index_inj (by omega) hn h0).symm
  · subst hl
    rw [h.tail_eq, length_nil, index_zero h.head_lt]

lemma split (h : Holds n buf head tail (l ++ l')) : Holds n buf head (index n head l.length) l ∧
      Holds n buf (index n head l.length) tail l' := by
  have hlen := h.length_lt
  rw [length_append] at hlen
  refine ⟨⟨h.head_lt, by omega, rfl, fun k hk => ?_⟩,
    ⟨index_lt h.head_lt (by omega), by omega, ?_, fun k hk => ?_⟩⟩
  · rw [h.get k (by rw [length_append]; omega), getElem_append_left hk]
  · rw [index_index h.head_lt hlen, ← length_append]
    exact h.tail_eq
  · rw [index_index h.head_lt (by omega), h.get _ (by rw [length_append]; omega)]
    simp

lemma append (h : Holds n buf head mid l) (h' : Holds n buf mid tail l')
    (hlen : (l ++ l').length < n) : Holds n buf head tail (l ++ l') := by
  rw [length_append] at hlen
  refine ⟨h.head_lt, by rwa [length_append], ?_, fun k hk => ?_⟩
  · rw [h'.tail_eq, h.tail_eq, index_index h.head_lt hlen, length_append]
  · by_cases hkl : k < l.length
    · rw [h.get k hkl, getElem_append_left hkl]
    · rw [length_append] at hk
      have hidx : index n head k = index n mid (k - l.length) := by
        rw [h.tail_eq, index_index h.head_lt (by omega)]
        congr 1
        omega
      rw [hidx, h'.get _ (by omega), getElem_append_right (by omega)]

lemma uncons (h : Holds n buf head tail (x :: l)) :
    head ≠ tail ∧ buf head = x ∧ Holds n buf (next n head) tail l := by
  have hne : head ≠ tail := fun heq => cons_ne_nil x l (h.head_eq_tail_iff.mp heq)
  have hget := h.get 0 (by simp)
  rw [index_zero h.head_lt] at hget
  have hsplit : Holds n buf head tail ([x] ++ l) := h
  refine ⟨hne, by simpa using hget, ?_⟩
  rw [next_eq_index h.head_lt]
  exact hsplit.split.2

lemma unsnoc (h : Holds n buf head tail (l ++ [x])) :
    head ≠ tail ∧ buf (prev n tail) = x ∧ Holds n buf head (prev n tail) l := by
  have hlen := h.length_lt
  rw [length_append, length_singleton] at hlen
  have hne : head ≠ tail := fun heq => by simpa using h.head_eq_tail_iff.mp heq
  have hprev : prev n tail = index n head l.length := by
    rw [h.tail_eq, length_append, length_singleton, prev_index h.head_lt hlen]
  rw [hprev]
  refine ⟨hne, ?_, h.split.1⟩
  rw [h.get l.length (by simp)]
  simp

lemma cons (h : Holds n buf (next n head) tail l) (hhead : head < n) (hlen : l.length + 1 < n) :
    Holds n buf head tail (buf head :: l) := by
  have hone : Holds n buf head (next n head) [buf head] := by
    refine ⟨hhead, by simp only [length_singleton]; omega, next_eq_index hhead, ?_⟩
    intro k hk
    obtain rfl : k = 0 := by simpa using hk
    simp [hhead]
  exact hone.append h (by simpa [Nat.add_comm] using hlen)

section

variable (h : Holds n buf head tail l)

include h

lemma room (hne : (tail + 1) % n ≠ head) : l.length + 1 < n := by
  have hlen := h.length_lt
  have hhead := h.head_lt
  by_contra hfull
  refine hne ?_
  rw [h.tail_eq, index]
  split_ifs
  · obtain rfl : head = 0 := by omega
    rw [show 0 + l.length + 1 = n by omega, Nat.mod_self]
  · rw [show head + l.length - n + 1 = head by omega, Nat.mod_eq_of_lt hhead]

omit h in
lemma exists_map {α γ : Type*} {slots : ℕ → Option α} {f : α → γ} {K : List γ}
    (h : Holds n (fun i => (slots i).map f) head tail (K.map some)) :
    ∃ L : List α, L.map f = K ∧ Holds n slots head tail (L.map some) := by
  induction K generalizing head with
  | nil => exact ⟨[], rfl, h.head_lt, h.length_lt, h.tail_eq, by simp⟩
  | cons c K ih =>
    obtain ⟨-, hget, hrest⟩ := h.uncons
    obtain ⟨x, hx, rfl⟩ := Option.map_eq_some_iff.mp hget
    obtain ⟨L, rfl, hL⟩ := ih hrest
    refine ⟨x :: L, rfl, ?_⟩
    have hcons := hL.cons h.head_lt (by simpa using h.length_lt)
    rwa [hx] at hcons

omit h in
lemma mem_iff {α : Type*} {slots : ℕ → Option α} {L : List α} {x : α}
    (h : Holds n slots head tail (L.map some)) :
    (∃ k < L.length, slots (index n head k) = some x) ↔ x ∈ L := by
  rw [mem_iff_getElem]
  refine exists_congr fun k => ⟨fun ⟨hk, hx⟩ => ⟨hk, ?_⟩, fun ⟨hk, hx⟩ => ⟨hk, ?_⟩⟩
  · rw [h.get k (by simpa using hk)] at hx
    simpa using hx
  · rw [h.get k (by simpa using hk)]
    simpa using hx

lemma map_range : (range l.length).map (fun k => buf (index n head k)) = l := by
  refine ext_getElem (by simp) fun k hk hk' => ?_
  rw [getElem_map, getElem_range, h.get k hk']

lemma congr (hbuf : ∀ k < l.length, buf' (index n head k) = buf (index n head k)) :
    Holds n buf' head tail l :=
  { h with get := fun k hk => by rw [hbuf k hk, h.get k hk] }

lemma update_free (hk : l.length ≤ k) (hkn : k < n) (y : β) :
    Holds n (update buf (index n head k) y) head tail l := by
  refine h.congr fun j hj => update_of_ne (fun heq => ?_) _ _
  have := index_inj (by omega) hkn heq
  omega

lemma push (hlen : l.length + 1 < n) (x : β) :
    Holds n (update buf tail x) head (next n tail) (l ++ [x]) := by
  refine ⟨h.head_lt, by simpa using hlen, ?_, fun k hk => ?_⟩
  · rw [h.tail_eq, next_index h.head_lt hlen, length_append, length_singleton]
  · rw [length_append, length_singleton] at hk
    by_cases hkl : k < l.length
    · have hne : index n head k ≠ tail := fun heq => by
        rw [h.tail_eq] at heq
        have := index_inj (by omega) (by omega) heq
        omega
      rw [update_of_ne hne, h.get k hkl, getElem_append_left hkl]
    · obtain rfl : k = l.length := by omega
      rw [← h.tail_eq, update_self]
      simp

lemma set (hk : k < l.length) (y : β) :
    Holds n (update buf (index n head k) y) head tail (l.set k y) := by
  have hlen := h.length_lt
  refine ⟨h.head_lt, by simpa using hlen, by simpa using h.tail_eq, fun j hj => ?_⟩
  rw [length_set] at hj
  by_cases hjk : j = k
  · subst hjk
    rw [update_self, getElem_set_self]
  · have hne : index n head j ≠ index n head k := fun heq =>
      hjk (index_inj (by omega) (by omega) heq)
    rw [update_of_ne hne, h.get j hj, getElem_set_ne (Ne.symm hjk)]

end

lemma pop (h : Holds n buf head tail (x :: l)) (y : β) :
    Holds n (update buf head y) (next n head) tail l := by
  have hlen := h.length_lt
  rw [length_cons] at hlen
  have hhead : head = index n (next n head) (n - 1) := by
    have := h.head_lt
    simp only [next, index]
    split_ifs <;> omega
  nth_rewrite 1 [hhead]
  exact h.uncons.2.2.update_free (by omega) (by omega) y

lemma popBack (h : Holds n buf head tail (l ++ [x])) (y : β) :
    Holds n (update buf (prev n tail) y) head (prev n tail) l := by
  have hback := h.unsnoc.2.2
  have hlen := hback.length_lt
  rw [hback.tail_eq]
  refine Holds.update_free ?_ le_rfl hlen y
  rw [← hback.tail_eq]
  exact hback

end Holds

end ShifDram.RingBuffer
