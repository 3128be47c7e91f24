import ShifDram.Lsq.Refinement

/-!
The walk of `LSQUnit::read` over the older stores.

A load walks from its `sqIdx` down to `storeWBIdx`: the older stores not yet sent, youngest first.
The first one that has any of the load's data decides.
-/

namespace ShifDram

open RingBuffer ProgramOrder List

/-- What `read` decides on a store with any of the data. -/
def SQEntry.outcome (e : SQEntry) (req : Request) (storeIdx : ℕ) : ReadOutcome :=
  if e.coverage req = .whole then .forward storeIdx (e.forwarded req)
  else if e.completed then .panic
  else .stall storeIdx

namespace LSQUnit

/-- The stores that the walk of `read` looks at, in order. -/
def readVisits (s : LSQUnit) (req : Request) : ℕ → ℕ → List SQEntry
  | 0, _ => []
  | fuel + 1, storeIdx =>
    if storeIdx = s.storeWBIdx then []
    else
      match s.storeQueue (s.decrStIdx storeIdx) with
      | none => []
      | some e =>
        if e.coverage req = .nothing then e :: readVisits s req fuel (s.decrStIdx storeIdx)
        else [e]

variable {s : LSQUnit} {a : ProgramOrder} {x : SQEntry} {W : List SQEntry} {L : List SQEntry}

lemma readWalk_succ (req : Request) {i : ℕ} (fuel : ℕ)
    (h : Holds s.sqEntries s.storeQueue s.storeWBIdx i ((W ++ [x]).map some)) :
    s.decrStIdx i = index s.sqEntries s.storeWBIdx W.length ∧
      s.storeQueue (s.decrStIdx i) = some x ∧
      Holds s.sqEntries s.storeQueue s.storeWBIdx (s.decrStIdx i) (W.map some) ∧
      s.readWalk req (fuel + 1) i =
        (if x.coverage req = .nothing then s.readWalk req fuel (s.decrStIdx i)
          else some (x.outcome req (s.decrStIdx i))) ∧
      s.readVisits req (fuel + 1) i =
        if x.coverage req = .nothing then x :: s.readVisits req fuel (s.decrStIdx i) else [x] := by
  rw [map_append] at h
  obtain ⟨hne, hget, hrest⟩ := h.unsnoc
  have hslot : s.storeQueue (s.decrStIdx i) = some x := hget
  refine ⟨?_, hslot, hrest, ?_, ?_⟩
  · rw [decrStIdx, hrest.tail_eq, length_map]
  · rw [readWalk, if_neg (Ne.symm hne)]
    cases hcov : x.coverage req <;> simp [hslot, hcov, SQEntry.outcome]
  · rw [readVisits, if_neg (Ne.symm hne), hslot]

/-- **What the walk finds** in the stores `W`: none has any data, or `e` is the youngest that has.
-/
lemma readWalk_cases (req : Request) {i fuel : ℕ}
    (h : Holds s.sqEntries s.storeQueue s.storeWBIdx i (W.map some)) (hfuel : W.length < fuel) :
    ((∀ x ∈ W, x.coverage req = .nothing) ∧ s.readWalk req fuel i = none ∧
      s.readVisits req fuel i = W.reverse) ∨
    ∃ U e V, W = U ++ e :: V ∧ (∀ x ∈ V, x.coverage req = .nothing) ∧ e.coverage req ≠ .nothing ∧
      s.storeQueue (index s.sqEntries s.storeWBIdx U.length) = some e ∧
      s.readWalk req fuel i = some (e.outcome req (index s.sqEntries s.storeWBIdx U.length)) ∧
      s.readVisits req fuel i = (e :: V).reverse := by
  obtain ⟨fuel, rfl⟩ : ∃ n, fuel = n + 1 := ⟨fuel - 1, by omega⟩
  induction W using reverseRecOn generalizing i fuel with
  | nil =>
    have hend : i = s.storeWBIdx := (h.head_eq_tail_iff.mpr rfl).symm
    refine .inl ⟨fun _ hx => absurd hx not_mem_nil, ?_, ?_⟩
    · rw [readWalk, if_pos hend]
    · rw [readVisits, if_pos hend, reverse_nil]
  | append_singleton W x ih =>
    rw [length_append, length_singleton] at hfuel
    obtain ⟨hidx, hslot, hrest, hstep, hvisit⟩ := readWalk_succ req fuel h
    rw [hstep, hvisit]
    by_cases hcov : x.coverage req = .nothing
    · rw [if_pos hcov, if_pos hcov]
      obtain ⟨fuel, rfl⟩ : ∃ n, fuel = n + 1 := ⟨fuel - 1, by omega⟩
      rcases ih hrest fuel (by omega) with ⟨hall, hwalk, hvis⟩ |
          ⟨U, e, V, rfl, hV, he, hget, hwalk, hvis⟩
      · refine .inl ⟨fun y hy => ?_, hwalk, ?_⟩
        · rcases mem_snoc.mp hy with hy | rfl
          · exact hall y hy
          · exact hcov
        · rw [hvis, reverse_append, reverse_singleton, singleton_append]
      · refine .inr ⟨U, e, V ++ [x], by simp, fun y hy => ?_, he, hget, hwalk, ?_⟩
        · rcases mem_snoc.mp hy with hy | rfl
          · exact hV y hy
          · exact hcov
        · rw [hvis, ← cons_append, reverse_append, reverse_singleton, singleton_append]
    · rw [if_neg hcov, if_neg hcov]
      refine .inr ⟨W, x, [], rfl, fun _ hy => absurd hy not_mem_nil, hcov, ?_, ?_, rfl⟩
      · rw [← hidx]
        exact hslot
      · rw [hidx]

/-- The stores before the first not older than `seqNum`. -/
def olderEntries (L : List SQEntry) (seqNum : ℕ) : List SQEntry :=
  L.takeWhile fun x => x.inst.seqNum < seqNum

/-- The walk passes the older ones of the waiting stores. -/
lemma Slots.exists_older (h : s.Slots a) {ld : LoadKey} (hwalk : s.WalkStart a ld) :
    ∃ L : List SQEntry, L.map SQEntry.key = a.waiting ∧
      Holds s.sqEntries s.storeQueue s.storeWBIdx s.storeTail (L.map some) ∧
      ((∃ i, ld.sqIdx = some i ∧
          Holds s.sqEntries s.storeQueue s.storeWBIdx i ((olderEntries L ld.seqNum).map some)) ∨
        ld.sqIdx = none ∧ olderEntries L ld.seqNum = []) := by
  obtain ⟨L, hkeys, hheld⟩ := h.waiting.exists_map
  have holder : (olderEntries L ld.seqNum).map SQEntry.key = a.olderWaiting ld.seqNum := by
    rw [olderEntries, olderWaiting, ← hkeys, takeWhile_map]
    rfl
  refine ⟨L, hkeys, hheld, ?_⟩
  rcases hwalk with hidx | ⟨hnone, hnil⟩
  · refine .inl ⟨_, hidx, ?_⟩
    rw [← takeWhile_append_dropWhile (p := fun x : SQEntry =>
      decide (x.inst.seqNum < ld.seqNum)) (l := L), map_append] at hheld
    have hsplit := hheld.split.1
    rwa [length_map, ← olderEntries, ← length_map SQEntry.key, holder] at hsplit
  · rw [hnil, map_eq_nil_iff] at holder
    exact .inr ⟨hnone, holder⟩

lemma lt_of_mem_olderEntries {n : ℕ} (hx : x ∈ olderEntries L n) : x.inst.seqNum < n :=
  of_decide_eq_true (mem_takeWhile_imp (p := fun x : SQEntry => decide (x.inst.seqNum < n)) hx)

lemma mem_of_mem_olderEntries {n : ℕ} (hx : x ∈ olderEntries L n) : x ∈ L :=
  (takeWhile_sublist _).subset hx

end LSQUnit

end ShifDram
