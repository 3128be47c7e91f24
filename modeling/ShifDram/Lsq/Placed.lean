import ShifDram.Lsq.Refinement

/-!
The queues of a unit in program order.

Loads and stores may be committed by separate calls, so a committed load may still be queued when
younger stores have been sent; what a load records of the stores is needed only until it is
committed.
-/

namespace ShifDram

open RingBuffer List Option

namespace ProgramOrder

variable (a : ProgramOrder)

def commitLoads (youngest : ℕ) : ProgramOrder :=
  { a with loads := a.loads.dropWhile (LoadKey.committed youngest), done := youngest }

def commitStores (youngest : ℕ) : ProgramOrder :=
  { a.mapStores (commitStore youngest) with done := youngest }

/-- A squash stops at a store that may write back. -/
def squash (squashed : ℕ) : ProgramOrder :=
  { a with
    loads := a.loads.rdropWhile (LoadKey.squashed squashed)
    waiting := a.waiting.rdropWhile (LSQUnit.dropped squashed) }

end ProgramOrder

open ProgramOrder

namespace LSQUnit

structure LoadSide (s : LSQUnit) (a : ProgramOrder) : Prop where
  loads : Holds s.lqEntries s.loadKeys s.loadHead s.loadTail (a.loads.map some)
  loads_eq : s.loads = a.loads.length
  sorted : a.loads.Pairwise fun ld ld' => ld.seqNum < ld'.seqNum

structure StoreSide (s : LSQUnit) (a : ProgramOrder) : Prop extends Slots s a where
  sorted : a.stores.Pairwise fun e e' => e.seqNum < e'.seqNum
  sent : ∀ e ∈ a.sent, e.canWB = true
  waiting : ∀ e ∈ a.waiting, e.completed = false

structure Between (s : LSQUnit) (a : ProgramOrder) : Prop where
  canWB_lt : ∀ e ∈ a.stores, e.canWB = true →
    ∀ ld ∈ a.loads, a.done < ld.seqNum → e.seqNum < ld.seqNum
  walkStart : ∀ ld ∈ a.loads, a.done < ld.seqNum → s.WalkStart a ld

/-- **The queues in program order**, between any two operations. -/
structure Placed (s : LSQUnit) (a : ProgramOrder) : Prop where
  loadSide : s.LoadSide a
  storeSide : s.StoreSide a
  between : s.Between a

variable {s s' : LSQUnit} {a : ProgramOrder} {e : SQEntry} {y k : ℕ} {W : List StoreKey}
  {inst : LsqInst}

lemma stores_completed_sublist (a : ProgramOrder) (n head k : ℕ) :
    (completed a n head k).stores.Sublist (a.complete (index n head k)).stores := by
  rw [completed]
  split_ifs
  · exact (dropWhile_sublist _).append (List.Sublist.refl _)
  · exact List.Sublist.refl _

lemma completeStore_frame {i : ℕ} (hslot : s.storeQueue i = some e) :
    ∃ q head m b n f, s.completeStore i = { s with
        storeQueue := q, storesToWB := s.storesToWB - 1, storeHead := head, stores := m
        stalled := b, stallingStoreIsn := n, storeInFlight := f } ∧
      (b = true → s.stalled = true ∧ n = s.stallingStoreIsn) := by
  have hfree : ∀ (fuel : ℕ) (s : LSQUnit), ∃ head m,
      freeCompleted fuel s = { s with storeHead := head, stores := m } := by
    intro fuel
    induction fuel with
    | zero => exact fun s => ⟨_, _, rfl⟩
    | succ fuel ih =>
      intro s
      rw [LSQUnit.freeCompleted]
      split_ifs
      · obtain ⟨head, m, heq⟩ := ih { s with
          storeHead := s.incrStIdx s.storeHead, stores := s.stores - 1 }
        exact ⟨head, m, heq⟩
      · exact ⟨_, _, rfl⟩
  have hfreed : ∃ q head m, s.freed i e = { s with
      storeQueue := q, storesToWB := s.storesToWB - 1, storeHead := head, stores := m } := by
    rw [freed]
    split_ifs
    · obtain ⟨head, m, heq⟩ := hfree s.sqEntries (s.markCompleted i e)
      exact ⟨_, head, m, heq⟩
    · exact ⟨_, _, _, rfl⟩
  obtain ⟨q, head, m, hfreed⟩ := hfreed
  obtain ⟨f, hf⟩ := completeStore_eq hslot
  rw [hf, hfreed, LSQUnit.unstall]
  split_ifs
  · exact ⟨q, head, m, false, 0, f, rfl, fun hb => (by cases hb)⟩
  · exact ⟨q, head, m, s.stalled, s.stallingStoreIsn, f, rfl, fun hb => ⟨hb, rfl⟩⟩

lemma completed_rest (a : ProgramOrder) (n head k : ℕ) :
    (completed a n head k).loads = a.loads ∧ (completed a n head k).waiting = a.waiting ∧
      (completed a n head k).done = a.done := by
  rw [completed]
  split_ifs <;> exact ⟨rfl, rfl, rfl⟩

lemma mem_sent_of_completed {n head k : ℕ} {x : StoreKey} (hx : x ∈ (completed a n head k).sent) :
    ∃ e ∈ a.sent, x = atSlot (index n head k) setCompleted e := by
  have hmem : x ∈ (a.complete (index n head k)).sent := by
    rw [completed] at hx
    split_ifs at hx
    · exact (dropWhile_sublist _).subset hx
    · exact hx
  obtain ⟨e, he, rfl⟩ := mem_map.mp hmem
  exact ⟨e, he, rfl⟩

lemma canWB_atSlot_setCompleted (i : ℕ) (e : StoreKey) :
    (atSlot i setCompleted e).canWB = e.canWB := by
  rw [atSlot]
  split_ifs <;> rfl

/-- A store left after a completion was at the same places before. -/
lemma mem_stores_of_completed {n head k : ℕ} {x : StoreKey}
    (hx : x ∈ (completed a n head k).stores) :
    ∃ e ∈ a.stores, x.seqNum = e.seqNum ∧ x.lqIdx = e.lqIdx ∧ x.canWB = e.canWB := by
  have hkeep := keepsPlaces_setCompleted.atSlot (index n head k)
  rcases mem_append.mp hx with hx | hx
  · obtain ⟨e, he, rfl⟩ := mem_sent_of_completed hx
    exact ⟨e, mem_append_left _ he, hkeep.seqNum e, hkeep.lqIdx e, canWB_atSlot_setCompleted _ e⟩
  · rw [(completed_rest a n head k).2.1] at hx
    exact ⟨x, mem_append_right _ hx, rfl, rfl, rfl⟩

namespace Placed

lemma init (n m shift : ℕ) (checkLoads needsTSO : Bool) :
    (LSQUnit.init n m shift checkLoads needsTSO).Placed ⟨[], [], [], 0⟩ := by
  refine ⟨⟨Holds.empty (Nat.succ_pos n), rfl, .nil⟩,
    ⟨⟨Holds.empty (Nat.succ_pos m), rfl, (index_zero (Nat.succ_pos m)).symm, ?_⟩, .nil, ?_, ?_⟩,
    ⟨?_, ?_⟩⟩
  · exact fun k hk => absurd hk (Nat.not_lt_zero k)
  · exact fun e he => absurd he not_mem_nil
  · exact fun e he => absurd he not_mem_nil
  · exact fun e he => absurd he not_mem_nil
  · exact fun ld hld => absurd hld not_mem_nil

variable (h : s.Placed a)

include h

lemma key_mem_loads (hin : s.InLoadQueue inst) : inst.key ∈ a.loads := by
  obtain ⟨k, hk, hget⟩ := hin
  rw [h.loadSide.loads_eq] at hk
  have hheld := h.loadSide.loads.get k (by simpa using hk)
  rw [loadKeys, hget, getElem_map] at hheld
  rw [some.inj hheld]
  exact getElem_mem hk

lemma of_sameOrder (hs : SameOrder s s') : s'.Placed a := by
  refine ⟨⟨?_, hs.loads.trans h.loadSide.loads_eq, h.loadSide.sorted⟩,
    ⟨h.storeSide.toSlots.of_sameOrder hs, h.storeSide.sorted, h.storeSide.sent,
      h.storeSide.waiting⟩, ⟨h.between.canWB_lt, fun ld hld hlt => ?_⟩⟩
  · rw [hs.lqEntries, hs.loadKeys, hs.loadHead, hs.loadTail]
    exact h.loadSide.loads
  · rw [WalkStart, hs.sqEntries, hs.storeWBIdx]
    exact h.between.walkStart ld hld hlt

lemma insertLoad (hins : s.insertLoad inst = some s')
    (hloads : ∀ ld ∈ a.loads, ld.seqNum < inst.seqNum)
    (hstores : ∀ e ∈ a.stores, e.seqNum < inst.seqNum) :
    s'.Placed (a.insertLoad (s.placeLoad inst).key) := by
  have hheld := holds_insertLoad h.loadSide.loads hins
  rw [LSQUnit.insertLoad] at hins
  split_ifs at hins with hfull
  cases hins
  refine ⟨⟨hheld, ?_, ?_⟩, { h.storeSide with }, ⟨fun e he hwb ld hld hlt => ?_,
    fun ld hld hlt => ?_⟩⟩
  · simp [ProgramOrder.insertLoad, h.loadSide.loads_eq]
  · exact pairwise_snoc.mpr ⟨h.loadSide.sorted, hloads⟩
  · rcases mem_snoc.mp hld with hld | rfl
    · exact h.between.canWB_lt e he hwb ld hld hlt
    · exact hstores e he
  · rcases mem_snoc.mp hld with hld | rfl
    · exact h.between.walkStart ld hld hlt
    · exact h.storeSide.toSlots.walkStart_placeLoad hstores

lemma insertStore (hins : s.insertStore inst = some s')
    (hloads : ∀ ld ∈ a.loads, ld.seqNum < inst.seqNum)
    (hstores : ∀ e ∈ a.stores, e.seqNum < inst.seqNum) :
    s'.Placed (a.insertStore (SQEntry.ofInst (s.placeStore inst)).key) := by
  have hslots := h.storeSide.toSlots.insertStore hins
  rw [LSQUnit.insertStore] at hins
  split_ifs at hins with hfull
  cases hins
  refine ⟨{ h.loadSide with }, ⟨hslots, ?_, h.storeSide.sent, fun e he => ?_⟩,
    ⟨fun e he hwb ld hld hlt => ?_, fun ld hld hlt => ?_⟩⟩
  · rw [stores_insertStore]
    exact pairwise_snoc.mpr ⟨h.storeSide.sorted, hstores⟩
  · rcases mem_snoc.mp he with he | rfl
    · exact h.storeSide.waiting e he
    · rfl
  · rw [stores_insertStore] at he
    rcases mem_snoc.mp he with he | rfl
    · exact h.between.canWB_lt e he hwb ld hld hlt
    · cases hwb
  · rw [WalkStart, olderWaiting_insertStore (hloads ld hld).le]
    exact h.between.walkStart ld hld hlt

lemma mapStores {f : StoreKey → StoreKey} {q : ℕ → Option SQEntry} {n : ℕ} (hf : KeepsPlaces f)
    (hq : Holds s.sqEntries (fun i => (q i).map SQEntry.key) s.storeHead s.storeTail
      ((a.stores.map f).map some))
    (hsent : ∀ e ∈ a.sent, (f e).canWB = true)
    (hwaiting : ∀ e ∈ a.waiting, (f e).completed = false)
    (hcan : ∀ e ∈ a.stores, (f e).canWB = true →
      e.canWB = true ∨ ∀ ld ∈ a.loads, a.done < ld.seqNum → e.seqNum < ld.seqNum) :
    ({ s with storeQueue := q, storesToWB := n } : LSQUnit).Placed (a.mapStores f) := by
  refine ⟨{ h.loadSide with },
    ⟨h.storeSide.toSlots.mapStores hf hq, ?_, fun x hx => ?_, fun x hx => ?_⟩,
    ⟨fun x hx hwb ld hld hlt => ?_, fun ld hld hlt => ?_⟩⟩
  · rw [stores_mapStores]
    refine pairwise_map.mpr ?_
    simpa only [hf.seqNum] using h.storeSide.sorted
  · obtain ⟨e, he, rfl⟩ := mem_map.mp hx
    exact hsent e he
  · obtain ⟨e, he, rfl⟩ := mem_map.mp hx
    exact hwaiting e he
  · rw [stores_mapStores] at hx
    obtain ⟨e, he, rfl⟩ := mem_map.mp hx
    rw [hf.seqNum]
    rcases hcan e he hwb with hwb | hall
    · exact h.between.canWB_lt e he hwb ld hld hlt
    · exact hall ld hld hlt
  · exact (h.between.walkStart ld hld hlt).mapStores hf

/-- The store `e` in slot `k` may write back. -/
lemma allowWB {e' : SQEntry} {n : ℕ} (hk : k < a.stores.length) (he : s.InStoreQueue e)
    (hidx : e.inst.sqIdx = some (index s.sqEntries s.storeHead k)) (hget : a.stores[k] = e.key)
    (hkey : e'.key = ProgramOrder.allowWB e.key)
    (hall : ∀ ld ∈ a.loads, a.done < ld.seqNum → e.inst.seqNum < ld.seqNum) :
    ({ s.setStore (index s.sqEntries s.storeHead k) (some e') with
        storesToWB := n } : LSQUnit).Placed
      (a.mapStores (atSlot (index s.sqEntries s.storeHead k) ProgramOrder.allowWB)) := by
  have hslots := h.storeSide.toSlots
  refine h.mapStores (keepsPlaces_allowWB.atSlot _) (hslots.holds_setSlot he hidx hkey)
    (fun x hx => ?_) (fun x hx => ?_) (fun x hx hcan => ?_)
  · rw [atSlot]
    split_ifs
    · rfl
    · exact h.storeSide.sent x hx
  · rw [atSlot]
    split_ifs
    · exact h.storeSide.waiting x hx
    · exact h.storeSide.waiting x hx
  · rw [atSlot] at hcan
    split_ifs at hcan with hx'
    · have hxe : x = e.key := by
        rw [← hget]
        refine hslots.eq_of_sqIdx hx (getElem_mem hk) ?_
        rw [hx', hslots.sqIdx k hk]
      exact .inr (hxe ▸ hall)
    · exact .inl hcan

lemma setDone (hy : a.done ≤ y) : s.Placed { a with done := y } :=
  ⟨{ h.loadSide with }, { h.storeSide with },
    ⟨fun e he hwb ld hld hlt => h.between.canWB_lt e he hwb ld hld (hy.trans_lt hlt),
      fun ld hld hlt => h.between.walkStart ld hld (hy.trans_lt hlt)⟩⟩

lemma commitStores (hy : a.done ≤ y) : (s.commitStores y).Placed (a.commitStores y) := by
  have hlen := h.storeSide.stores.length_lt
  rw [length_map] at hlen
  obtain ⟨q, hq, hheld, -⟩ :=
    exists_commitStoresFrom y h.storeSide.stores h.storeSide.sorted hlen.le
  rw [LSQUnit.commitStores, hq]
  refine (h.setDone hy).mapStores (keepsPlaces_commitStore y) hheld (fun e he => ?_)
    h.storeSide.waiting (fun e he hwb => ?_)
  · rw [commitStore, h.storeSide.sent e he, Bool.true_or]
  · rcases (Bool.or_eq_true _ _).mp hwb with hwb | hle
    · exact .inl hwb
    · exact .inr fun ld hld hlt => (of_decide_eq_true hle).trans_lt hlt

lemma commitLoads (hy : a.done ≤ y) : (s.commitLoads y).Placed (a.commitLoads y) := by
  obtain ⟨q, hq, hheld, -⟩ :=
    exists_commitLoadsLoop y h.loadSide.loads h.loadSide.loads_eq h.loadSide.loads_eq.ge
  rw [LSQUnit.commitLoads, hq]
  have h₁ := h.setDone hy
  have hmem : ∀ ld ∈ a.loads.dropWhile (LoadKey.committed y), ld ∈ a.loads := fun ld hld =>
    (dropWhile_sublist _).subset hld
  exact ⟨⟨hheld, rfl, h.loadSide.sorted.sublist (dropWhile_sublist _)⟩, { h₁.storeSide with },
    ⟨fun e he hwb ld hld => h₁.between.canWB_lt e he hwb ld (hmem ld hld),
      fun ld hld => h₁.between.walkStart ld (hmem ld hld)⟩⟩

lemma stores_squash (y : ℕ) : a.stores.rdropWhile (dropped y) = (a.squash y).stores :=
  rdropWhile_append_of_forall_neg fun e he => by simp [dropped, h.storeSide.sent e he]

lemma squash (hs' : s.squash y = some s') :
    s'.Placed (a.squash y) ∧ s'.lqEntries = s.lqEntries ∧ s'.loadHead = s.loadHead := by
  obtain ⟨q, t, b, n, j, hq, hheld, -⟩ :=
    exists_squashLoads y h.loadSide.loads h.loadSide.loads_eq h.loadSide.loads_eq.ge
  obtain ⟨v, hv⟩ := exists_clearViolator (squashLoads y s.loads s) y
  rw [LSQUnit.squash, hv, hq] at hs'
  rcases squashStores_cases (s := { s with
      loadQueue := q, loadTail := t, loads := (a.loads.rdropWhile (LoadKey.squashed y)).length
      stalled := b, stallingStoreIsn := n, stallingLoadIdx := j, memDepViolator := v })
      y h.storeSide.stores h.storeSide.stores_eq h.storeSide.stores_eq.ge with
      ⟨hnone, -⟩ | ⟨q', t', hsome, hheld'⟩
  · cases hnone.symm.trans hs'
  obtain rfl := some.inj (hsome.symm.trans hs')
  rw [h.stores_squash] at hheld' ⊢
  have hloads : (a.squash y).loads <+: a.loads := rdropWhile_prefix _ _
  have hstores : (a.squash y).stores <+: a.stores := stores_rdropWhile a _
  refine ⟨⟨⟨hheld, rfl, h.loadSide.sorted.sublist hloads.sublist⟩,
    ⟨⟨hheld', rfl, h.storeSide.storeWBIdx, fun k hk => ?_⟩,
      h.storeSide.sorted.sublist hstores.sublist, h.storeSide.sent,
      fun e he => h.storeSide.waiting e (sublist_rdropWhile.subset he)⟩,
    ⟨fun e he hwb ld hld => h.between.canWB_lt e (hstores.subset he) hwb ld (hloads.subset hld),
      fun ld hld hlt => ?_⟩⟩, rfl, rfl⟩
  · rw [hstores.getElem hk]
    exact h.storeSide.sqIdx k _
  · have hle : ld.seqNum ≤ y :=
      forall_neg_of_mem_rdropWhile (fun _ _ => rfl) h.loadSide.sorted ld hld
    rw [WalkStart, ProgramOrder.squash, olderWaiting_rdropWhile a _ fun e he =>
      hle.trans (of_decide_eq_true (Bool.and_eq_true_iff.mp he).2).le]
    exact h.between.walkStart ld (hloads.subset hld) hlt

lemma send {e : StoreKey} (hw : a.waiting = e :: W) (hwb : e.canWB = true) :
    ({ s with storeWBIdx := s.incrStIdx s.storeWBIdx } : LSQUnit).Placed a.send := by
  have he : e ∈ a.stores := by simp [ProgramOrder.stores, hw]
  have hslots := h.storeSide.toSlots
  have hsend := hslots.send hw
  rw [send_eq hw] at hsend ⊢
  have hstores := stores_send hw
  rw [send_eq hw] at hstores
  refine ⟨{ h.loadSide with },
    ⟨hsend, hstores ▸ h.storeSide.sorted, fun x hx => ?_, fun x hx => ?_⟩,
    ⟨hstores ▸ h.between.canWB_lt, fun ld hld hlt => ?_⟩⟩
  · rcases mem_snoc.mp hx with hx | rfl
    · exact h.storeSide.sent x hx
    · exact hwb
  · exact h.storeSide.waiting x (hw ▸ mem_cons_of_mem e hx)
  · have hwalk := (h.between.walkStart ld hld hlt).send hslots hw
      (h.between.canWB_lt e he hwb ld hld hlt)
    rwa [send_eq hw] at hwalk

lemma complete (hk : k < a.sent.length) : (s.completeStore (index s.sqEntries s.storeHead k)).Placed
      (completed a s.sqEntries s.storeHead k) := by
  have hslots := h.storeSide.toSlots.complete h.storeSide.waiting hk
  obtain ⟨entry, hentry, -⟩ := h.storeSide.toSlots.exists_sent hk
  obtain ⟨q, head, m, b, n, f, heq, -⟩ := completeStore_frame hentry
  obtain ⟨hloads, hwaiting, hdone⟩ := completed_rest a s.sqEntries s.storeHead k
  have hkeep := keepsPlaces_setCompleted.atSlot (index s.sqEntries s.storeHead k)
  rw [heq] at hslots ⊢
  refine ⟨⟨hloads ▸ h.loadSide.loads, hloads ▸ h.loadSide.loads_eq, hloads ▸ h.loadSide.sorted⟩,
    ⟨hslots, ?_, fun x hx => ?_, fun x hx => ?_⟩,
    ⟨fun x hx hwb ld hld hlt => ?_, fun ld hld hlt => ?_⟩⟩
  · refine List.Pairwise.sublist (stores_completed_sublist a _ _ k) ?_
    rw [← h.storeSide.toSlots.mapStores_atSlot hk, stores_mapStores, pairwise_map]
    simpa only [hkeep.seqNum] using h.storeSide.sorted
  · obtain ⟨e, he, rfl⟩ := mem_sent_of_completed hx
    rw [canWB_atSlot_setCompleted]
    exact h.storeSide.sent e he
  · exact h.storeSide.waiting x (hwaiting ▸ hx)
  · rw [hloads] at hld
    rw [hdone] at hlt
    obtain ⟨e, he, hseq, -, hcan⟩ := mem_stores_of_completed hx
    rw [hseq]
    exact h.between.canWB_lt e he (hcan ▸ hwb) ld hld hlt
  · rw [hloads] at hld
    rw [hdone] at hlt
    rw [WalkStart, olderWaiting, hwaiting]
    exact h.between.walkStart ld hld hlt

end Placed

end LSQUnit

end ShifDram
