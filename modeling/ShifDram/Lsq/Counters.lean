import ShifDram.Lsq.Placed
import ShifDram.Lsq.Walk

/-!
The counters and the stall of the queues.

`Tracks` adds to `Placed` the number of stores to write back, the slots that
loads record of themselves, and what a stall names.
-/

namespace ShifDram

open RingBuffer List Option

def StoreKey.pending (e : StoreKey) : Bool := e.canWB && !e.completed

open ProgramOrder

namespace LSQUnit

/-- A stalled load is queued and younger than its store, unless that is committed. -/
def StallKnown (s : LSQUnit) (a : ProgramOrder) : Prop :=
  s.stalled = true → s.stallingStoreIsn ≤ a.done ∨ ∃ (k : ℕ) (hk : k < a.loads.length),
      s.stallingLoadIdx = index s.lqEntries s.loadHead k ∧ s.stallingStoreIsn < a.loads[k].seqNum

/-- The queues in program order, **with counters and stall**. -/
structure Tracks (s : LSQUnit) (a : ProgramOrder) : Prop extends Placed s a where
  /-- A load records its own slot. -/
  lqIdx : ∀ i ld, s.loadQueue i = some ld → ld.lqIdx = i
  storesToWB : s.storesToWB = a.stores.countP StoreKey.pending
  stall : s.StallKnown a

structure SamePort (s s' : LSQUnit) : Prop where
  sqEntries : s'.sqEntries = s.sqEntries
  storeWBIdx : s'.storeWBIdx = s.storeWBIdx
  needsTSO : s'.needsTSO = s.needsTSO
  storeInFlight : s'.storeInFlight = s.storeInFlight

variable {s s' : LSQUnit} {a : ProgramOrder} {r : LSQUnit × Option LsqFault} {e : SQEntry}
  {acc : LoadAcc} {y : ℕ} {k : ℕ} {W : List StoreKey} {inst : LsqInst} {ld : LsqInst}

lemma SamePort.refl (s : LSQUnit) : SamePort s s := ⟨rfl, rfl, rfl, rfl⟩

lemma SamePort.trans {s'' : LSQUnit} (h : SamePort s s') (h' : SamePort s' s'') : SamePort s s'' :=
  ⟨h'.1.trans h.1, h'.2.trans h.2, h'.3.trans h.3, h'.4.trans h.4⟩

lemma SameCounts.samePort (h : SameCounts s s') : SamePort s s' := { h with }

lemma Tracks.init (n m shift : ℕ) (checkLoads needsTSO : Bool) :
    (LSQUnit.init n m shift checkLoads needsTSO).Tracks ⟨[], [], [], 0⟩ := by
  refine ⟨.init n m shift checkLoads needsTSO, ?_, rfl, ?_⟩
  · exact fun i ld hld => (by cases hld)
  · exact fun hstalled => (by cases hstalled)

lemma StallKnown.of_eq (h : s.StallKnown a) (hlq : s'.lqEntries = s.lqEntries)
    (hhead : s'.loadHead = s.loadHead)
    (hstall : s'.stalled = true → s.stalled = true ∧ s'.stallingStoreIsn = s.stallingStoreIsn ∧
      s'.stallingLoadIdx = s.stallingLoadIdx) : s'.StallKnown a := by
  intro hstalled
  obtain ⟨hs, hisn, hidx⟩ := hstall hstalled
  rw [hisn, hidx, hlq, hhead]
  exact h hs

lemma Tracks.of_sameCounts (h : s.Tracks a) (hs : SameCounts s s') : s'.Tracks a := by
  refine ⟨h.toPlaced.of_sameOrder hs.toSameOrder, fun i ld hld => ?_,
    hs.storesToWB.trans h.storesToWB, h.stall.of_eq hs.lqEntries hs.loadHead fun hst =>
      ⟨hs.stalled ▸ hst, hs.stallingStoreIsn, hs.stallingLoadIdx⟩⟩
  have hidx := hs.lqIdx i
  rw [hld, map_some] at hidx
  obtain ⟨ld', hld', heq⟩ := map_eq_some_iff.mp hidx.symm
  exact heq.symm.trans (h.lqIdx i ld' hld')

lemma Tracks.setStoreInFlight (h : s.Tracks a) (b : Bool) :
    ({ s with storeInFlight := b } : LSQUnit).Tracks a :=
  ⟨h.toPlaced.of_sameOrder { SameOrder.refl s with }, h.lqIdx, h.storesToWB, h.stall⟩

lemma Tracks.unstall (h : s.Tracks a) (e : SQEntry) : (s.unstall e).Tracks a := by
  have hplaced := h.toPlaced.of_sameOrder (sameOrder_unstall s e)
  rw [LSQUnit.unstall] at hplaced ⊢
  split_ifs at hplaced ⊢
  · exact ⟨hplaced, h.lqIdx, h.storesToWB, fun hst => (by cases hst)⟩
  · exact h

section Insertion

variable {inst : LsqInst}

lemma Tracks.insertLoad (h : s.Tracks a) (hins : s.insertLoad inst = some s')
    (hloads : ∀ ld ∈ a.loads, ld.seqNum < inst.seqNum)
    (hstores : ∀ e ∈ a.stores, e.seqNum < inst.seqNum) :
    s'.Tracks (a.insertLoad (s.placeLoad inst).key) := by
  have hplaced := h.toPlaced.insertLoad hins hloads hstores
  rw [LSQUnit.insertLoad] at hins
  split_ifs at hins with hfull
  cases hins
  refine ⟨hplaced, fun i ld hld => ?_, h.storesToWB, fun hst => ?_⟩
  · by_cases hi : i = s.loadTail
    · subst hi
      have hld : some (s.placeLoad inst) = some ld := by simpa [setLoad] using hld
      rw [← some.inj hld]
      rfl
    · exact h.lqIdx i ld (by simpa [setLoad, hi] using hld)
  · rcases h.stall hst with hle | ⟨k, hk, hidx, hlt⟩
    · exact .inl hle
    · refine .inr ⟨k, by simp [ProgramOrder.insertLoad]; omega, hidx, ?_⟩
      simp only [ProgramOrder.insertLoad, getElem_append_left hk]
      exact hlt

lemma Tracks.insertStore (h : s.Tracks a) (hins : s.insertStore inst = some s')
    (hloads : ∀ ld ∈ a.loads, ld.seqNum < inst.seqNum)
    (hstores : ∀ e ∈ a.stores, e.seqNum < inst.seqNum) :
    s'.Tracks (a.insertStore (SQEntry.ofInst (s.placeStore inst)).key) := by
  have hplaced := h.toPlaced.insertStore hins hloads hstores
  rw [LSQUnit.insertStore] at hins
  split_ifs at hins with hfull
  cases hins
  refine ⟨hplaced, h.lqIdx, ?_, h.stall⟩
  rw [stores_insertStore, countP_append, countP_singleton]
  exact h.storesToWB

end Insertion

/-! ### Execution -/

section Execution

variable {req : Request} {low high : Option Request}

/-- A load is stalled on an older store. -/
lemma Tracks.exists_of_stall (h : s.Tracks a) (hld : ld.key ∈ a.loads)
    (hlt : a.done < ld.seqNum) {i j : ℕ} (hout : s.readOutcome req low high i ld = .stall j) :
    ∃ e, s.storeQueue j = some e ∧ e.inst.seqNum < ld.seqNum := by
  have hwalk : ld.sqIdx.bind (s.readWalk req s.sqEntries) = some (.stall j) := by
    rw [readOutcome] at hout
    split at hout
    · cases hout
    · split at hout
      · cases hout
      · split at hout
        · next outcome heq => rw [heq, hout]
        · cases hout
  obtain ⟨i', hsq, hwalk⟩ := bind_eq_some_iff.mp hwalk
  obtain ⟨L, -, -, ⟨i'', hi'', hheld⟩ | ⟨hnone, -⟩⟩ :=
    h.storeSide.toSlots.exists_older (h.between.walkStart ld.key hld hlt)
  · obtain rfl := some.inj (hsq.symm.trans hi'')
    have hlen := hheld.length_lt
    rw [length_map] at hlen
    rcases readWalk_cases req hheld hlen with ⟨-, hno, -⟩ | ⟨U, e, V, hsplit, -, -, hget, hfound, -⟩
    · cases hno.symm.trans hwalk
    · have hidx : index s.sqEntries s.storeWBIdx U.length = j := by
        have heq := some.inj (hfound.symm.trans hwalk)
        rw [SQEntry.outcome] at heq
        split_ifs at heq
        exact ReadOutcome.stall.inj heq
      have hmem : e ∈ olderEntries L ld.key.seqNum := by
        rw [hsplit]
        simp
      exact ⟨e, hidx ▸ hget, lt_of_mem_olderEntries hmem⟩
  · cases hsq.symm.trans hnone

lemma Tracks.stallOn (h : s.Tracks a) {k j : ℕ} (hk : k < a.loads.length)
    (hkey : a.loads[k] = ld.key) (hj : s.storeQueue j = some e)
    (hlt : e.inst.seqNum < ld.seqNum) :
    (s.stallOn (index s.lqEntries s.loadHead k) ld j).Tracks a := by
  rw [LSQUnit.stallOn]
  split_ifs
  · refine ⟨h.toPlaced.of_sameOrder { SameOrder.refl s with }, h.lqIdx, h.storesToWB,
      fun _ => .inr ⟨k, hk, rfl, ?_⟩⟩
    simp only [hj, map_some, getD_some, hkey]
    exact hlt
  · exact h

/-- `executeLoad`: the load takes the access, and `read` may stall it. -/
lemma executeLoad_cases
    (hslot : s.loadQueue inst.lqIdx = some inst) (h : s.executeLoad inst acc = some r) :
    ∃ (s₁ : LSQUnit) (ld : LsqInst), SameCounts s s₁ ∧ ld.key = inst.key ∧
      (SameCounts s₁ r.1 ∨ ∃ req low high j, s₁.readOutcome req low high inst.lqIdx ld = .stall j ∧
          SameCounts (s₁.stallOn inst.lqIdx ld j) r.1) := by
  obtain ⟨r', hr', hr⟩ := bind_eq_some_iff.mp h
  have hset : SameCounts s (s.setLoad inst.lqIdx
      (some { inst with toDynInst := acc.dyn, predicate := acc.predicate })) := by
    apply sameCounts_setLoad hslot
    · rfl
    · rfl
  have hlast : SameCounts r'.1 r.1 := by
    split_ifs at hr
    · exact some.inj hr ▸ .refl _
    · exact some.inj hr ▸ .refl _
    · exact some.inj hr ▸ sameCounts_checkViolations _ _ _
    · exact some.inj hr ▸ .refl _
  refine ⟨_, { inst with toDynInst := acc.dyn, predicate := acc.predicate }, hset, rfl, ?_⟩
  rw [initiateLoad] at hr'
  split at hr'
  · cases hr'
    exact .inl hlast
  · next req low high _ =>
    obtain ⟨x, hx, rfl⟩ := map_eq_some_iff.mp hr'
    rw [read] at hx
    simp only [setLoad, Function.update_self, map_some] at hx
    have hx := some.inj hx
    split at hx
    · next j hout =>
      rw [← hx] at hlast
      exact .inr ⟨req, low, high, j, hout, hlast⟩
    · rw [← hx] at hlast
      exact .inl hlast

lemma Tracks.executeLoad (h : s.Tracks a) (hin : s.InLoadQueue inst) (hlt : a.done < inst.seqNum)
    (hr : s.executeLoad inst acc = some r) : r.1.Tracks a := by
  obtain ⟨k, hk, hslot⟩ := hin
  have hlq := h.lqIdx _ inst hslot
  rw [h.loadSide.loads_eq] at hk
  have hkey : a.loads[k] = inst.key := by
    have hget := h.loadSide.loads.get k (by simpa using hk)
    rw [loadKeys, hslot, getElem_map] at hget
    exact (some.inj hget).symm
  obtain ⟨s₁, ld, hsame, hld, hlast⟩ := executeLoad_cases (hlq ▸ hslot) hr
  have h₁ := h.of_sameCounts hsame
  rcases hlast with hlast | ⟨req, low, high, j, hout, hlast⟩
  · exact h₁.of_sameCounts hlast
  · have hseq : ld.seqNum = inst.seqNum := congrArg LoadKey.seqNum hld
    have hmem : ld.key ∈ a.loads := by
      rw [hld, ← hkey]
      exact getElem_mem hk
    obtain ⟨e, hj, holder⟩ := h₁.exists_of_stall hmem (hseq ▸ hlt) hout
    rw [hlq, ← hsame.lqEntries, ← hsame.loadHead] at hlast
    exact (h₁.stallOn hk (hkey.trans hld.symm) hj holder).of_sameCounts hlast

end Execution

lemma StoreSide.not_completed (h : s.StoreSide a) {e : StoreKey} (he : e ∈ a.stores)
    (hwb : e.canWB = false) : e.completed = false := by
  rcases mem_append.mp he with he | he
  · exact absurd (h.sent e he) (by simp [hwb])
  · exact h.waiting e he

section Places

variable {f : StoreKey → StoreKey} {q : ℕ → Option SQEntry} {n : ℕ}

end Places

lemma Tracks.allowWB (h : s.Tracks a) (hk : k < a.stores.length) {e e' : SQEntry}
    (he : s.InStoreQueue e) (hidx : e.inst.sqIdx = some (index s.sqEntries s.storeHead k))
    (hget : a.stores[k] = e.key) (hkey : e'.key = ProgramOrder.allowWB e.key)
    (hwb : e.canWB = false)
    (hall : ∀ ld ∈ a.loads, a.done < ld.seqNum → e.inst.seqNum < ld.seqNum) :
    ({ s.setStore (index s.sqEntries s.storeHead k) (some e') with
        storesToWB := s.storesToWB + 1 } : LSQUnit).Tracks
      (a.mapStores (atSlot (index s.sqEntries s.storeHead k) ProgramOrder.allowWB)) := by
  have hwb' : a.stores[k].canWB = false := by rw [hget]; exact hwb
  have hcompl : a.stores[k].completed = false := h.storeSide.not_completed (getElem_mem hk) hwb'
  refine ⟨h.toPlaced.allowWB hk he hidx hget hkey hall, h.lqIdx, ?_, h.stall⟩
  rw [stores_mapStores, h.storeSide.toSlots.map_atSlot hk, countP_set hk, h.storesToWB]
  simp [StoreKey.pending, ProgramOrder.allowWB, hwb', hcompl]

lemma Tracks.executeStore (h : s.Tracks a) (he : s.InStoreQueue e) {acc : StoreAcc}
    (hr : s.executeStore e.inst acc = some r)
    (hcond : e.inst.isStoreConditional = true → e.canWB = false ∧
      ∀ ld ∈ a.loads, a.done < ld.seqNum → e.inst.seqNum < ld.seqNum) :
    r.1.Tracks a ∨ ∃ i, r.1.Tracks (a.mapStores (atSlot i ProgramOrder.allowWB)) := by
  obtain ⟨k, hk, hget, hidx, hslot⟩ := h.storeSide.toSlots.inStoreQueue he
  have hstores : s.stores ≠ 0 := by
    rw [h.storeSide.stores_eq]
    omega
  obtain ⟨e', hkey, hsame | ⟨hsc, hsame⟩⟩ := executeStore_cases hstores hidx hslot hr
  · exact .inl ((h.of_sameCounts (sameCounts_setStore hslot hkey)).of_sameCounts hsame)
  · obtain ⟨hwb, hall⟩ := hcond hsc
    have hkey' : ({ e' with canWB := true } : SQEntry).key = ProgramOrder.allowWB e.key := by
      rw [← hkey]
      rfl
    exact .inr ⟨_, (h.allowWB hk he hidx hget hkey' hwb hall).of_sameCounts hsame⟩

/-! ### Commit -/

lemma countP_commitStore (y : ℕ) {K : List StoreKey}
    (hK : ∀ e ∈ K, e.canWB = false → e.completed = false) :
    (K.map (commitStore y)).countP StoreKey.pending =
      K.countP StoreKey.pending + K.countP (newlyWB y) := by
  induction K with
  | nil => rfl
  | cons e K ih =>
    have ih := ih fun x hx => hK x (mem_cons_of_mem _ hx)
    have he := hK e mem_cons_self
    rw [map_cons, countP_cons, countP_cons, countP_cons, ih]
    cases hwb : e.canWB
    · by_cases hle : e.seqNum ≤ y
      · simp [StoreKey.pending, commitStore, newlyWB, hwb, hle, he hwb]
        omega
      · simp [StoreKey.pending, commitStore, newlyWB, hwb, hle]
    · simp [StoreKey.pending, commitStore, newlyWB, hwb]
      omega

lemma Tracks.setDone (h : s.Tracks a) (hy : a.done ≤ y) : s.Tracks { a with done := y } :=
  ⟨h.toPlaced.setDone hy, h.lqIdx, h.storesToWB,
    fun hst => (h.stall hst).imp_left fun hle => hle.trans hy⟩

lemma Tracks.commitStores (h : s.Tracks a) (hy : a.done ≤ y) :
    (s.commitStores y).Tracks (a.commitStores y) := by
  have hplaced := h.toPlaced.commitStores hy
  have hlen := h.storeSide.stores.length_lt
  rw [length_map] at hlen
  obtain ⟨q, hq, -⟩ := exists_commitStoresFrom y h.storeSide.stores h.storeSide.sorted hlen.le
  rw [LSQUnit.commitStores, hq] at hplaced ⊢
  refine ⟨hplaced, h.lqIdx, ?_, (h.setDone hy).stall⟩
  have hcount := countP_commitStore y fun e he => h.storeSide.not_completed he
  rw [← stores_mapStores, ← h.storesToWB] at hcount
  exact hcount.symm

/-- If the load of a stall is committed, so is the store. -/
lemma StallKnown.dropLoads (h : s.StallKnown a) (hhead : s.loadHead < s.lqEntries)
    {T D : List LoadKey} (hsplit : a.loads = T ++ D) (hlen : a.loads.length < s.lqEntries)
    (hT : ∀ ld ∈ T, ld.seqNum ≤ a.done)
    (hlq : s'.lqEntries = s.lqEntries)
    (hhead' : s'.loadHead = index s.lqEntries s.loadHead T.length)
    (hstall : s'.stalled = s.stalled ∧ s'.stallingStoreIsn = s.stallingStoreIsn ∧
      s'.stallingLoadIdx = s.stallingLoadIdx) : s'.StallKnown { a with loads := D } := by
  intro hst
  rw [hstall.2.1, hstall.2.2, hlq, hhead']
  rcases h (hstall.1 ▸ hst) with hle | ⟨k, hk, hidx, hlt⟩
  · exact .inl hle
  have hget := getElem_of_eq hsplit hk
  rw [hsplit, length_append] at hlen hk
  by_cases hkT : k < T.length
  · left
    rw [hget, getElem_append_left hkT] at hlt
    exact hlt.le.trans (hT _ (getElem_mem hkT))
  · right
    refine ⟨k - T.length, by dsimp only; omega, ?_, ?_⟩
    · rw [hidx, index_index hhead (by omega)]
      congr 1
      omega
    · rw [hget, getElem_append_right (by omega)] at hlt
      exact hlt

lemma Tracks.commitLoads (h : s.Tracks a) (hy : a.done ≤ y) :
    (s.commitLoads y).Tracks (a.commitLoads y) := by
  have hplaced := h.toPlaced.commitLoads hy
  obtain ⟨q, hq, -, hsub⟩ :=
    exists_commitLoadsLoop y h.loadSide.loads h.loadSide.loads_eq h.loadSide.loads_eq.ge
  rw [LSQUnit.commitLoads, hq] at hplaced ⊢
  have hlen := h.loadSide.loads.length_lt
  rw [length_map] at hlen
  refine ⟨hplaced, fun i ld hld => h.lqIdx i ld (hsub i ld hld), h.storesToWB, ?_⟩
  refine (h.setDone hy).stall.dropLoads h.loadSide.loads.head_lt takeWhile_append_dropWhile.symm
    hlen (fun ld hld => ?_) rfl rfl ⟨rfl, rfl, rfl⟩
  have hcommitted : ld.committed y = true := mem_takeWhile_imp hld
  exact of_decide_eq_true hcommitted

lemma countP_pending_squash (K : List StoreKey) :
    (K.rdropWhile (dropped y)).countP StoreKey.pending = K.countP StoreKey.pending := by
  have hzero : (K.rtakeWhile (dropped y)).countP StoreKey.pending = 0 := by
    refine countP_eq_zero.mpr fun e he hpending => ?_
    have hdrop : dropped y e = true := mem_rtakeWhile_imp he
    simp only [dropped, StoreKey.pending, Bool.and_eq_true, Bool.not_eq_true'] at hdrop hpending
    cases hdrop.1.symm.trans hpending.1
  nth_rewrite 2 [← rdropWhile_append_rtakeWhile (p := dropped y) (l := K)]
  rw [countP_append, hzero, Nat.add_zero]

/-- **A squash does not panic**: a load stalled on a squashed store goes first. -/
lemma Tracks.squash (h : s.Tracks a) (hy : a.done ≤ y) :
    ∃ s', s.squash y = some s' ∧ s'.Tracks (a.squash y) ∧ SamePort s s' := by
  obtain ⟨q, t, b, n, j, hq, -, hsub, hb⟩ :=
    exists_squashLoads y h.loadSide.loads h.loadSide.loads_eq h.loadSide.loads_eq.ge
  obtain ⟨v, hv⟩ := exists_clearViolator (squashLoads y s.loads s) y
  have hle : ∀ ld ∈ (a.squash y).loads, ld.seqNum ≤ y :=
    forall_neg_of_mem_rdropWhile (fun _ _ => rfl) h.loadSide.sorted
  have hinit : (a.squash y).loads <+: a.loads := rdropWhile_prefix _ _
  -- a stall that is left is of a load that is left, or of a committed store
  have hstall : b = true → n ≤ a.done ∨ ∃ (k : ℕ) (hk : k < (a.squash y).loads.length),
      j = index s.lqEntries s.loadHead k ∧ n < (a.squash y).loads[k].seqNum := by
    intro hbt
    obtain ⟨hst, rfl, rfl, hout⟩ := hb hbt
    rcases h.stall hst with hdone | ⟨k, hk, hidx, hlt⟩
    · exact .inl hdone
    · by_cases hkl : k < (a.squash y).loads.length
      · refine .inr ⟨k, hkl, hidx, ?_⟩
        rw [hinit.getElem hkl]
        exact hlt
      · exact absurd hidx.symm (hout k hk (not_lt.mp hkl))
  have hsquash : s.squash y = squashStores y s.stores { s with
      loadQueue := q, loadTail := t, loads := (a.loads.rdropWhile (LoadKey.squashed y)).length
      stalled := b, stallingStoreIsn := n, stallingLoadIdx := j, memDepViolator := v } := by
    rw [LSQUnit.squash, hv, hq]
  rcases squashStores_cases (s := { s with
      loadQueue := q, loadTail := t, loads := (a.loads.rdropWhile (LoadKey.squashed y)).length
      stalled := b, stallingStoreIsn := n, stallingLoadIdx := j, memDepViolator := v })
      y h.storeSide.stores h.storeSide.stores_eq h.storeSide.stores_eq.ge with
      ⟨-, hst, e, he, hdrop, hisn⟩ | ⟨q', t', hsome, -⟩
  · -- the panic: the stalled load would be younger than a squashed store
    have hlt : y < e.seqNum := of_decide_eq_true (Bool.and_eq_true_iff.mp hdrop).2
    have hisn : e.seqNum = n := hisn
    rcases hstall hst with hdone | ⟨k, hk, -, hnk⟩
    · omega
    · have := hle _ (getElem_mem hk)
      omega
  · refine ⟨_, hsquash.trans hsome, ⟨(h.toPlaced.squash (hsquash.trans hsome)).1,
      fun i ld hld => h.lqIdx i ld (hsub i ld hld), ?_, hstall⟩, ⟨rfl, rfl, rfl, rfl⟩⟩
    rw [← h.stores_squash, countP_pending_squash]
    exact h.storesToWB

lemma Tracks.send (h : s.Tracks a) {e : StoreKey} (hw : a.waiting = e :: W) (hwb : e.canWB = true) :
    ({ s with storeWBIdx := s.incrStIdx s.storeWBIdx } : LSQUnit).Tracks a.send := by
  have hstores := stores_send hw
  refine ⟨h.toPlaced.send hw hwb, h.lqIdx, hstores ▸ h.storesToWB, ?_⟩
  exact h.stall

lemma Tracks.storePostSend (h : s.Tracks a) {e : StoreKey}
    (hw : a.waiting = e :: W) (hwb : e.canWB = true) : s.storePostSend.Tracks a.send := by
  have hany : ∀ (s : LSQUnit) (b : Bool), s.Tracks a →
      ({ s with storeInFlight := b, storeWBIdx := s.incrStIdx s.storeWBIdx } : LSQUnit).Tracks
        a.send := fun s b h => (h.send hw hwb).setStoreInFlight b
  rw [LSQUnit.storePostSend]
  cases s.storeQueue s.storeWBIdx with
  | none => exact hany s _ h
  | some entry => exact hany _ _ (h.unstall entry)

lemma countP_pending_dropWhile (K : List StoreKey) :
    (K.dropWhile fun e => e.completed).countP StoreKey.pending = K.countP StoreKey.pending := by
  induction K with
  | nil => rfl
  | cons e K ih =>
    rw [dropWhile_cons]
    split_ifs with hcompl
    · rw [ih, countP_cons_of_neg (by simp [StoreKey.pending, hcompl])]
    · rfl

lemma countP_pending_completed (n head : ℕ) :
    (completed a n head k).stores.countP StoreKey.pending =
      (a.complete (index n head k)).stores.countP StoreKey.pending := by
  rw [completed]
  split_ifs
  · rw [ProgramOrder.free, ProgramOrder.stores, ProgramOrder.stores, countP_append,
      countP_append, countP_pending_dropWhile]
  · rfl

lemma Tracks.countP_completed (h : s.Tracks a) (hk : k < a.sent.length)
    (hcompl : a.sent[k].completed = false) :
    (completed a s.sqEntries s.storeHead k).stores.countP StoreKey.pending = s.storesToWB - 1 := by
  obtain ⟨hks, hget⟩ := getElem_stores hk
  have hpending : a.stores[k].pending = true := by
    rw [hget, StoreKey.pending, hcompl, h.storeSide.sent _ (getElem_mem hk)]
    rfl
  rw [countP_pending_completed, ← h.storeSide.toSlots.mapStores_atSlot hk, stores_mapStores,
    h.storeSide.toSlots.map_atSlot hks, countP_set hks, h.storesToWB, hpending]
  simp [StoreKey.pending, setCompleted]

lemma Tracks.complete (h : s.Tracks a) (hk : k < a.sent.length)
    (hcompl : a.sent[k].completed = false) :
    (s.completeStore (index s.sqEntries s.storeHead k)).Tracks
      (completed a s.sqEntries s.storeHead k) := by
  have hplaced := h.toPlaced.complete hk
  have hcount := h.countP_completed hk hcompl
  obtain ⟨entry, hentry, -⟩ := h.storeSide.toSlots.exists_sent hk
  obtain ⟨q, head, m, b, n, f, heq, hb⟩ := completeStore_frame hentry
  obtain ⟨hloads, -, hdone⟩ := completed_rest a s.sqEntries s.storeHead k
  rw [heq] at hplaced ⊢
  refine ⟨hplaced, h.lqIdx, hcount.symm, fun hst => ?_⟩
  obtain ⟨hst, hn⟩ := hb hst
  have hknown := h.stall hst
  simp only [hloads, hdone, hn]
  exact hknown

section Port

variable {inst : LsqInst} {x : LSQUnit × Option LsqFault}

lemma samePort_insertLoad (h : s.insertLoad inst = some s') : SamePort s s' := by
  rw [LSQUnit.insertLoad] at h
  split_ifs at h
  cases h
  exact ⟨rfl, rfl, rfl, rfl⟩

lemma samePort_insertStore (h : s.insertStore inst = some s') : SamePort s s' := by
  rw [LSQUnit.insertStore] at h
  split_ifs at h
  cases h
  exact ⟨rfl, rfl, rfl, rfl⟩

lemma samePort_stallOn (s : LSQUnit) (i : ℕ) (ld : LsqInst) (j : ℕ) :
    SamePort s (s.stallOn i ld j) := by
  rw [LSQUnit.stallOn]
  split_ifs
  · exact ⟨rfl, rfl, rfl, rfl⟩
  · exact .refl s

lemma samePort_executeLoad (hslot : s.loadQueue inst.lqIdx = some inst)
    (h : s.executeLoad inst acc = some x) : SamePort s x.1 := by
  obtain ⟨s₁, ld, hsame, -, hlast | ⟨-, -, -, j, -, hlast⟩⟩ := executeLoad_cases hslot h
  · exact (hsame.trans hlast).samePort
  · exact (hsame.samePort.trans (samePort_stallOn _ _ _ _)).trans hlast.samePort

lemma Tracks.samePort_executeStore (h : s.Tracks a) (he : s.InStoreQueue e)
    {acc : StoreAcc} (hx : s.executeStore e.inst acc = some x) : SamePort s x.1 := by
  obtain ⟨k, hk, hget, hidx, hslot⟩ := h.storeSide.toSlots.inStoreQueue he
  have hstores : s.stores ≠ 0 := by
    rw [h.storeSide.stores_eq]
    omega
  obtain ⟨e', -, hsame | ⟨-, hsame⟩⟩ := executeStore_cases hstores hidx hslot hx
  · exact { hsame with }
  · exact { hsame with }

lemma Tracks.samePort_commitStores (h : s.Tracks a) (y : ℕ) : SamePort s (s.commitStores y) := by
  have hlen := h.storeSide.stores.length_lt
  rw [length_map] at hlen
  obtain ⟨q, hq, -⟩ := exists_commitStoresFrom y h.storeSide.stores h.storeSide.sorted hlen.le
  rw [LSQUnit.commitStores, hq]
  exact ⟨rfl, rfl, rfl, rfl⟩

lemma Tracks.samePort_commitLoads (h : s.Tracks a) (y : ℕ) : SamePort s (s.commitLoads y) := by
  obtain ⟨q, hq, -⟩ :=
    exists_commitLoadsLoop y h.loadSide.loads h.loadSide.loads_eq h.loadSide.loads_eq.ge
  rw [LSQUnit.commitLoads, hq]
  exact ⟨rfl, rfl, rfl, rfl⟩

end Port

end LSQUnit

end ShifDram
