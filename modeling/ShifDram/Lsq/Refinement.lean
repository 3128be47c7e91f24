import ShifDram.Lsq.ProgramOrder

/-!
The queue operations on lists: each operation of an `LSQUnit` that changes the order of the queues
is matched by the operation of that name on the lists it stands for.
-/

namespace ShifDram

open RingBuffer ProgramOrder List Option

namespace LSQUnit

variable {s s' : LSQUnit} {a : ProgramOrder} {e : StoreKey} {inst : LsqInst} {i : ℕ}
  {K : List StoreKey} {S : List StoreKey} {g : StoreKey → StoreKey} {k : ℕ} {y : ℕ} {fuel : ℕ}
  {r : LSQUnit × Option LsqFault} {ld : LoadKey} {T D : List StoreKey} {acc : StoreAcc}

lemma holds_insertLoad {K : List LoadKey}
    (h : Holds s.lqEntries s.loadKeys s.loadHead s.loadTail (K.map some))
    (hins : s.insertLoad inst = some s') :
    Holds s'.lqEntries s'.loadKeys s'.loadHead s'.loadTail
      ((K ++ [(s.placeLoad inst).key]).map some) := by
  rw [LSQUnit.insertLoad] at hins
  split_ifs at hins with hfull
  cases hins
  rw [not_or] at hfull
  change Holds s.lqEntries (s.setLoad s.loadTail (some (s.placeLoad inst))).loadKeys s.loadHead
    (next s.lqEntries s.loadTail) _
  rw [loadKeys_setLoad, map_append]
  exact h.push (h.room hfull.1) _

lemma Slots.walkStart_placeLoad (h : s.Slots a) (hstores : ∀ e ∈ a.stores, e.seqNum < inst.seqNum) :
    s.WalkStart a (s.placeLoad inst).key := by
  have holder : a.olderWaiting (s.placeLoad inst).key.seqNum = a.waiting :=
    takeWhile_eq_self_iff.mpr fun e he => decide_eq_true (hstores e (mem_append_right _ he))
  have hlen := h.stores.length_lt
  rw [length_map, ProgramOrder.stores, length_append] at hlen
  rw [WalkStart, holder]
  by_cases hzero : s.stores = 0
  · right
    have hnil := h.stores_eq
    rw [hzero, ProgramOrder.stores, length_append] at hnil
    exact ⟨if_pos hzero, length_eq_zero_iff.mp (by omega)⟩
  · left
    refine (if_neg hzero).trans (congrArg some ?_)
    rw [h.stores.tail_eq, h.storeWBIdx, index_index h.stores.head_lt hlen, length_map,
      ProgramOrder.stores, length_append]

lemma stores_insertStore : (a.insertStore e).stores = a.stores ++ [e] := (append_assoc _ _ _).symm

lemma Slots.insertStore (h : s.Slots a) (hins : s.insertStore inst = some s') :
    s'.Slots (a.insertStore (SQEntry.ofInst (s.placeStore inst)).key) := by
  rw [LSQUnit.insertStore] at hins
  split_ifs at hins with hfull
  cases hins
  rw [not_or] at hfull
  refine ⟨?_, ?_, h.storeWBIdx, ?_⟩
  · change Holds s.sqEntries (s.setStore s.storeTail (some (.ofInst (s.placeStore inst)))).storeKeys
      s.storeHead (next s.sqEntries s.storeTail) _
    rw [storeKeys_setStore, stores_insertStore, map_append]
    exact h.stores.push (h.stores.room hfull.1) _
  · rw [stores_insertStore, length_append, length_singleton, ← h.stores_eq]
  · intro k hk
    simp only [stores_insertStore, length_append, length_singleton] at hk ⊢
    by_cases hkl : k < a.stores.length
    · rw [getElem_append_left hkl]
      exact h.sqIdx k hkl
    · obtain rfl : k = a.stores.length := by omega
      rw [getElem_concat_length rfl]
      change some s.storeTail = some (index s.sqEntries s.storeHead a.stores.length)
      rw [h.stores.tail_eq, length_map]

lemma olderWaiting_insertStore {n : ℕ} (hn : n ≤ e.seqNum) :
    (a.insertStore e).olderWaiting n = a.olderWaiting n := by
  refine takeWhile_append_of_forall_neg fun x hx => ?_
  rw [mem_singleton.mp hx, decide_eq_false_iff_not]
  exact hn.not_gt

/-! ### A store changes in its place -/

section Places

variable {f : StoreKey → StoreKey} {q : ℕ → Option SQEntry} {n : ℕ}

lemma Slots.mapStores (h : s.Slots a) (hf : KeepsPlaces f)
    (hq : Holds s.sqEntries (fun i => (q i).map SQEntry.key) s.storeHead s.storeTail
      ((a.stores.map f).map some)) :
    ({ s with storeQueue := q, storesToWB := n } : LSQUnit).Slots (a.mapStores f) := by
  refine ⟨?_, ?_, ?_, ?_⟩
  · rw [stores_mapStores]
    exact hq
  · rw [stores_mapStores, length_map, ← h.stores_eq]
  · rw [ProgramOrder.mapStores, length_map]
    exact h.storeWBIdx
  · intro k hk
    simp only [stores_mapStores, length_map] at hk
    simp only [stores_mapStores, getElem_map, hf.sqIdx]
    exact h.sqIdx k hk

lemma WalkStart.mapStores (h : s.WalkStart a ld) (hf : KeepsPlaces f) :
    s.WalkStart (a.mapStores f) ld := by
  rw [WalkStart, olderWaiting_mapStores hf, length_map, map_eq_nil_iff]
  exact h

lemma Slots.map_atSlot (h : s.Slots a) (hk : k < a.stores.length) (g : StoreKey → StoreKey) :
    a.stores.map (atSlot (index s.sqEntries s.storeHead k) g) = a.stores.set k (g a.stores[k]) := by
  have hlen := h.stores.length_lt
  rw [length_map] at hlen
  refine ext_getElem (by simp) fun m hm hm' => ?_
  rw [length_map] at hm
  rw [getElem_map, atSlot, h.sqIdx m hm, getElem_set]
  by_cases hmk : k = m
  · subst hmk
    rw [if_pos rfl, if_pos rfl]
  · have hne : some (index s.sqEntries s.storeHead m) ≠
        some (index s.sqEntries s.storeHead k) := fun heq =>
      hmk (index_inj (by omega) (by omega) (some.inj heq)).symm
    rw [if_neg hne, if_neg hmk]

lemma Slots.holds_setSlot (h : s.Slots a) {e e' : SQEntry}
    (he : s.InStoreQueue e) (hi : e.inst.sqIdx = some i) (hkey : e'.key = g e.key) :
    Holds s.sqEntries (s.setStore i (some e')).storeKeys s.storeHead s.storeTail
      ((a.stores.map (atSlot i g)).map some) := by
  obtain ⟨k, hk, hget, hidx, -⟩ := h.inStoreQueue he
  obtain rfl := some.inj (hi.symm.trans hidx)
  have hheld := h.stores.set (k := k) (by simpa using hk) (some e'.key)
  rw [← map_some (f := SQEntry.key), ← storeKeys_setStore] at hheld
  rwa [h.map_atSlot hk, hget, ← hkey, map_set]

lemma Slots.setSlot (h : s.Slots a) (hg : KeepsPlaces g)
    {e e' : SQEntry} (he : s.InStoreQueue e) (hi : e.inst.sqIdx = some i)
    (hkey : e'.key = g e.key) :
    ({ s.setStore i (some e') with storesToWB := n } : LSQUnit).Slots (a.mapStores (atSlot i g)) :=
  h.mapStores (hg.atSlot i) (h.holds_setSlot he hi hkey)

end Places

/-- `initiateAcc` of a store writes its entry and nothing else. -/
lemma exists_initiateStore {e : SQEntry} {written : Option SQWrite}
    (he : s.storeQueue i = some e) (h : s.initiateStore i inst written = some s') :
    ∃ e', s' = s.setStore i (some e') ∧ e'.inst = inst ∧ e'.canWB = e.canWB ∧
      e'.completed = e.completed ∧ ∀ w ∈ written, e'.size = w.req.size % 256 := by
  have hset : s.setStoreInst i inst = s.setStore i (some { e with inst := inst }) := by
    rw [setStoreInst, he]
  cases written with
  | none =>
    refine ⟨{ e with inst := inst }, ?_, rfl, rfl, rfl, by simp⟩
    rw [initiateStore, hset] at h
    exact (some.inj h).symm
  | some w =>
    have hslot : (s.setStoreInst i inst).storeQueue i = some { e with inst := inst } := by
      rw [hset, storeQueue_setStore_self]
    simp only [initiateStore, write, hslot] at h
    by_cases hassert : 32 < w.req.size ∧ w.req.isCacheBlockZero = false
    · rw [if_pos hassert] at h
      cases h
    · rw [if_neg hassert, hset, setStore_setStore] at h
      refine ⟨_, (some.inj h).symm, rfl, rfl, rfl, fun w' hw' => ?_⟩
      rw [mem_some_iff.mp hw']

/-- `executeStore`: the entry takes the access; a store conditional may write back. -/
lemma executeStore_cases {e : SQEntry} (hstores : s.stores ≠ 0)
    (hidx : e.inst.sqIdx = some i) (hslot : s.storeQueue i = some e)
    (hr : s.executeStore e.inst acc = some r) :
    ∃ e' : SQEntry, e'.key = e.key ∧ (SameCounts (s.setStore i (some e')) r.1 ∨
      e.inst.isStoreConditional = true ∧
        SameCounts { s.setStore i (some { e' with canWB := true }) with
          storesToWB := s.storesToWB + 1 } r.1) := by
  rw [executeStore_eq hstores hidx] at hr
  obtain ⟨s₁, hs₁, hr⟩ := bind_eq_some_iff.mp hr
  obtain ⟨e', rfl, hinst, hwb, hcompl, -⟩ := exists_initiateStore hslot hs₁
  have hkey : e'.key = e.key := by
    rw [SQEntry.key, SQEntry.key, hinst, hwb, hcompl]
    rfl
  refine ⟨e', hkey, ?_⟩
  rw [checkStore, storeQueue_setStore_self] at hr
  dsimp only at hr
  split_ifs at hr with _ _ _ _ hcond
  · exact .inl (some.inj hr ▸ .refl _)
  · exact .inl (some.inj hr ▸ .refl _)
  · exact .inl (some.inj hr ▸ .refl _)
  · refine .inr ⟨hcond, ?_⟩
    rw [setStore_setStore] at hr
    rw [← some.inj hr]
    exact sameCounts_checkViolations _ _ _
  · refine .inl ?_
    rw [← some.inj hr]
    exact sameCounts_checkViolations _ _ _

/-! ### Commit -/

lemma exists_of_loadKeys (h : s.loadKeys i = some ld) :
    ∃ inst, s.loadQueue i = some inst ∧ inst.key = ld :=
  map_eq_some_iff.mp h

lemma exists_of_storeKeys (h : s.storeKeys i = some e) :
    ∃ entry, s.storeQueue i = some entry ∧ entry.key = e :=
  map_eq_some_iff.mp h

lemma loadQueue_of_setLoad_none {i j : ℕ} {ld : LsqInst}
    (h : (s.setLoad i none).loadQueue j = some ld) : s.loadQueue j = some ld := by
  by_cases hj : j = i
  · subst hj
    simp [setLoad] at h
  · simpa [setLoad, hj] using h

/-- `commitLoads` drops the committed loads at the head. -/
lemma exists_commitLoadsLoop (y : ℕ) {K : List LoadKey}
    (h : Holds s.lqEntries s.loadKeys s.loadHead s.loadTail (K.map some))
    (hloads : s.loads = K.length) (hfuel : K.length ≤ fuel) :
    ∃ q, commitLoadsLoop y fuel s = { s with
        loadQueue := q
        loadHead := index s.lqEntries s.loadHead (K.takeWhile (LoadKey.committed y)).length
        loads := (K.dropWhile (LoadKey.committed y)).length } ∧
      Holds s.lqEntries (fun i => (q i).map LsqInst.key)
        (index s.lqEntries s.loadHead (K.takeWhile (LoadKey.committed y)).length)
        s.loadTail ((K.dropWhile (LoadKey.committed y)).map some) ∧
      ∀ i ld, q i = some ld → s.loadQueue i = some ld := by
  induction K generalizing s fuel with
  | nil =>
    have hs : commitLoadsLoop y fuel s = s := by
      cases fuel with
      | zero => rfl
      | succ fuel =>
        rw [commitLoadsLoop]
        cases s.loadQueue s.loadHead <;> simp [hloads]
    rw [takeWhile_nil, dropWhile_nil, length_nil, index_zero h.head_lt]
    exact ⟨s.loadQueue, by rw [hs, ← length_nil (α := LoadKey), ← hloads], h, fun _ _ hi => hi⟩
  | cons ld K ih =>
    obtain ⟨fuel, rfl⟩ : ∃ n, fuel = n + 1 := ⟨fuel - 1, by simp only [length_cons] at hfuel; omega⟩
    obtain ⟨-, hget, -⟩ := h.uncons
    obtain ⟨inst, hinst, rfl⟩ := exists_of_loadKeys hget
    have hpos : s.loads ≠ 0 := by simp [hloads]
    rw [commitLoadsLoop, hinst]
    by_cases hy : inst.seqNum ≤ y
    · have hp : inst.key.committed y = true := decide_eq_true hy
      rw [takeWhile_cons_of_pos hp, dropWhile_cons_of_pos hp, length_cons]
      have hpop : Holds s.lqEntries s.commitLoad.loadKeys (next s.lqEntries s.loadHead) s.loadTail
          (K.map some) := by
        have := h.pop none
        rwa [← map_none (f := LsqInst.key), ← loadKeys_setLoad] at this
      have hlen : (K.takeWhile (LoadKey.committed y)).length + 1 < s.lqEntries := by
        have h1 := h.length_lt
        have h2 := (takeWhile_sublist (l := K) (LoadKey.committed y)).length_le
        simp only [map_cons, length_cons, length_map] at h1
        omega
      have hfuel' : K.length ≤ fuel := by simpa using hfuel
      obtain ⟨q, hq, hheld, hsub⟩ :=
        ih (s := s.commitLoad) hpop (by simp [commitLoad, hloads]) hfuel'
      rw [← index_next h.head_lt hlen]
      exact ⟨q, (if_pos ⟨hpos, hy⟩).trans hq, hheld,
        fun i ld hi => loadQueue_of_setLoad_none (hsub i ld hi)⟩
    · have hp : ¬ inst.key.committed y = true := by
        rw [LoadKey.committed, decide_eq_true_eq]
        exact hy
      rw [takeWhile_cons_of_neg hp, dropWhile_cons_of_neg hp, ← hloads,
        length_nil, index_zero h.head_lt]
      exact ⟨s.loadQueue, if_neg fun hc => hy hc.2, h, fun _ _ hi => hi⟩

lemma commitStore_of_canWB (h : e.canWB = true) : commitStore y e = e := by
  simp only [commitStore, h, Bool.true_or]
  rw [← h]

lemma commitStore_of_le (h : e.seqNum ≤ y) : commitStore y e = allowWB e := by
  rw [commitStore, decide_eq_true h, Bool.or_true, allowWB]

lemma commitStore_of_lt (h : y < e.seqNum) : commitStore y e = e := by
  have hd : decide (e.seqNum ≤ y) = false := decide_eq_false h.not_ge
  simp only [commitStore, hd, Bool.or_false]

/-- The store may write back with the commit up to `y`. -/
def newlyWB (y : ℕ) (e : StoreKey) : Bool := !e.canWB && decide (e.seqNum ≤ y)

/-- `commitStores` lets the stores up to `y` write back, and counts them. -/
lemma exists_commitStoresFrom (y : ℕ) {fuel i : ℕ}
    (h : Holds s.sqEntries s.storeKeys i s.storeTail (K.map some))
    (hsorted : K.Pairwise fun e e' => e.seqNum < e'.seqNum) (hfuel : K.length ≤ fuel) :
    ∃ q, commitStoresFrom y fuel s i = { s with
        storeQueue := q, storesToWB := s.storesToWB + K.countP (newlyWB y) } ∧
      Holds s.sqEntries (fun i => (q i).map SQEntry.key) i s.storeTail
        ((K.map (commitStore y)).map some) ∧
      ∀ j, (∀ m < K.length, j ≠ index s.sqEntries i m) → q j = s.storeQueue j := by
  induction K generalizing s i fuel with
  | nil =>
    have htail : i = s.storeTail := h.head_eq_tail_iff.mpr rfl
    refine ⟨s.storeQueue, ?_, h, fun _ _ => rfl⟩
    cases fuel with
    | zero => rfl
    | succ fuel => rw [commitStoresFrom, if_pos htail, countP_nil, Nat.add_zero]
  | cons e K ih =>
    obtain ⟨fuel, rfl⟩ : ∃ n, fuel = n + 1 := ⟨fuel - 1, by simp only [length_cons] at hfuel; omega⟩
    have hfuel' : K.length ≤ fuel := by simpa using hfuel
    obtain ⟨hhead, hsorted'⟩ := pairwise_cons.mp hsorted
    obtain ⟨hne, hget, hrest⟩ := h.uncons
    obtain ⟨entry, hentry, rfl⟩ := exists_of_storeKeys hget
    have hlen := h.length_lt
    simp only [map_cons, length_cons, length_map] at hlen
    have hlen' : ((K.map (commitStore y)).map some).length + 1 < s.sqEntries := by
      simpa using hlen
    -- the slot of the head is none of the slots of the rest
    have hfree : ∀ m < K.length, i ≠ index s.sqEntries (next s.sqEntries i) m := by
      intro m hm heq
      rw [index_next h.head_lt (by omega)] at heq
      have hzero := index_inj (by omega) (by omega) ((index_zero h.head_lt).trans heq)
      omega
    have hframe : ∀ j, (∀ m < K.length + 1, j ≠ index s.sqEntries i m) →
        j ≠ i ∧ ∀ m < K.length, j ≠ index s.sqEntries (next s.sqEntries i) m := by
      intro j hj
      refine ⟨index_zero h.head_lt ▸ hj 0 (by omega), fun m hm => ?_⟩
      rw [index_next h.head_lt (by omega)]
      exact hj (m + 1) (by omega)
    rw [commitStoresFrom, if_neg hne, hentry]
    dsimp only
    by_cases hwb : entry.canWB = true
    · have hold : ¬ newlyWB y entry.key = true := by simp [newlyWB, SQEntry.key, hwb]
      obtain ⟨q, hq, hheld, hkeep⟩ := ih hrest hsorted' hfuel'
      rw [countP_cons_of_neg hold, if_pos hwb]
      refine ⟨q, hq, ?_, fun j hj => hkeep j (hframe j hj).2⟩
      have hcons := hheld.cons h.head_lt hlen'
      rw [hkeep i hfree, hentry] at hcons
      rw [map_cons, commitStore_of_canWB hwb]
      exact hcons
    · rw [if_neg hwb]
      by_cases hy : y < entry.inst.seqNum
      · have hid : (entry.key :: K).map (commitStore y) = entry.key :: K := by
          refine (map_congr_left fun e he => ?_).trans (map_id _)
          rcases mem_cons.mp he with rfl | he
          · exact commitStore_of_lt hy
          · exact commitStore_of_lt (hy.trans (hhead e he))
        have hnone : (entry.key :: K).countP (newlyWB y) = 0 := by
          refine countP_eq_zero.mpr fun e he => ?_
          have hlt : y < e.seqNum := by
            rcases mem_cons.mp he with rfl | he
            · exact hy
            · exact hy.trans (hhead e he)
          simp [newlyWB, hlt]
        rw [hid, if_pos hy, hnone]
        exact ⟨s.storeQueue, rfl, h, fun _ _ => rfl⟩
      · have hpop := h.pop (some { entry with canWB := true }.key)
        rw [← map_some (f := SQEntry.key), ← storeKeys_setStore] at hpop
        have hnew : newlyWB y entry.key = true := by
          simp [newlyWB, SQEntry.key, hwb, not_lt.mp hy]
        obtain ⟨q, hq, hheld, hkeep⟩ := ih
          (s := { s.setStore i (some { entry with canWB := true }) with
            storesToWB := s.storesToWB + 1 }) hpop hsorted' hfuel'
        rw [if_neg hy, countP_cons_of_pos hnew]
        refine ⟨q, ?_, ?_, fun j hj => ?_⟩
        · have hcount : s.storesToWB + (K.countP (newlyWB y) + 1) =
              s.storesToWB + 1 + K.countP (newlyWB y) := by omega
          rw [hcount]
          exact hq
        · have hcons := hheld.cons h.head_lt hlen'
          rw [hkeep i hfree, storeQueue_setStore_self] at hcons
          rw [map_cons, commitStore_of_le (e := entry.key) (not_lt.mp hy)]
          exact hcons
        · rw [hkeep j (hframe j hj).2]
          exact Function.update_of_ne (hframe j hj).1 _ _

/-! ### Squash -/

lemma clearStall_cases (s : LSQUnit) (i : ℕ) : ∃ b n j, s.clearStall i =
        { s with stalled := b, stallingStoreIsn := n, stallingLoadIdx := j } ∧
      (b = true → s.stalled = true ∧ n = s.stallingStoreIsn ∧ j = s.stallingLoadIdx ∧
        i ≠ s.stallingLoadIdx) := by
  rw [clearStall]
  split_ifs with hclear
  · exact ⟨_, _, _, rfl, fun hb => (by cases hb)⟩
  · refine ⟨s.stalled, s.stallingStoreIsn, s.stallingLoadIdx, rfl, fun hb => ?_⟩
    exact ⟨hb, rfl, rfl, fun hi => hclear ⟨hb, hi⟩⟩

lemma exists_clearViolator (s : LSQUnit) (y : ℕ) :
    ∃ v, s.clearViolator y = { s with memDepViolator := v } := by
  rw [clearViolator]
  split_ifs
  · exact ⟨none, rfl⟩
  · exact ⟨s.memDepViolator, rfl⟩

/-- The loads after `y` leave at the tail; a stall that remains is of none of them. -/
lemma exists_squashLoads (y : ℕ) {K : List LoadKey}
    (h : Holds s.lqEntries s.loadKeys s.loadHead s.loadTail (K.map some))
    (hloads : s.loads = K.length) (hfuel : K.length ≤ fuel) :
    ∃ q t b n j, squashLoads y fuel s = { s with
        loadQueue := q
        loadTail := t
        loads := (K.rdropWhile (LoadKey.squashed y)).length
        stalled := b
        stallingStoreIsn := n
        stallingLoadIdx := j } ∧
      Holds s.lqEntries (fun i => (q i).map LsqInst.key) s.loadHead t
        ((K.rdropWhile (LoadKey.squashed y)).map some) ∧
      (∀ i ld, q i = some ld → s.loadQueue i = some ld) ∧
      (b = true → s.stalled = true ∧ n = s.stallingStoreIsn ∧ j = s.stallingLoadIdx ∧
        ∀ k < K.length, (K.rdropWhile (LoadKey.squashed y)).length ≤ k →
          index s.lqEntries s.loadHead k ≠ s.stallingLoadIdx) := by
  induction K using reverseRecOn generalizing s fuel with
  | nil =>
    have hs : squashLoads y fuel s = s := by
      cases fuel with
      | zero => rfl
      | succ fuel =>
        rw [squashLoads]
        cases s.loadQueue (s.decrLdIdx s.loadTail) <;> simp [hloads]
    rw [rdropWhile_nil]
    exact ⟨s.loadQueue, s.loadTail, s.stalled, s.stallingStoreIsn, s.stallingLoadIdx,
      by rw [hs, ← hloads], h, fun _ _ hi => hi,
      fun hb => ⟨hb, rfl, rfl, fun k hk => absurd hk (Nat.not_lt_zero k)⟩⟩
  | append_singleton K ld ih =>
    rw [length_append, length_singleton] at hloads hfuel
    obtain ⟨fuel, rfl⟩ : ∃ n, fuel = n + 1 := ⟨fuel - 1, by omega⟩
    rw [map_append] at h
    obtain ⟨-, hget, hback⟩ := h.unsnoc
    obtain ⟨inst, hinst, rfl⟩ := exists_of_loadKeys hget
    have hpos : s.loads ≠ 0 := by omega
    have hslot : s.loadQueue (s.decrLdIdx s.loadTail) = some inst := hinst
    rw [squashLoads, hslot]
    dsimp only
    by_cases hy : y < inst.seqNum
    · have hp : inst.key.squashed y = true := decide_eq_true hy
      rw [rdropWhile_concat_pos _ _ _ hp, if_pos ⟨hpos, hy⟩]
      have hpop := h.popBack none
      rw [← map_none (f := LsqInst.key), ← loadKeys_setLoad] at hpop
      have hfuel' : K.length ≤ fuel := by omega
      have hlast : s.decrLdIdx s.loadTail = index s.lqEntries s.loadHead K.length := by
        rw [decrLdIdx, hback.tail_eq, length_map]
      obtain ⟨b, n, j, hclear, hkept⟩ := s.clearStall_cases (s.decrLdIdx s.loadTail)
      rw [hclear]
      obtain ⟨q, t, b', n', j', hq, hheld, hsub, hstall⟩ := ih
        (s := { s.setLoad (s.decrLdIdx s.loadTail) none with
          loads := s.loads - 1, loadTail := s.decrLdIdx s.loadTail, stalled := b,
          stallingStoreIsn := n, stallingLoadIdx := j }) hpop (by dsimp only; omega) hfuel'
      refine ⟨q, t, b', n', j', hq, hheld,
        fun i ld hi => loadQueue_of_setLoad_none (hsub i ld hi), fun hb' => ?_⟩
      obtain ⟨hb, hn, hj, hout⟩ := hstall hb'
      obtain ⟨hb, hn', hj', hne⟩ := hkept hb
      refine ⟨hb, hn.trans hn', hj.trans hj', fun k hk hle heq => ?_⟩
      rw [length_append, length_singleton] at hk
      rcases Nat.lt_succ_iff_lt_or_eq.mp hk with hk | rfl
      · exact hout k hk hle (heq.trans hj'.symm)
      · exact hne (hlast.trans heq)
    · have hp : ¬ inst.key.squashed y = true := by
        rw [LoadKey.squashed, decide_eq_true_eq]
        exact hy
      rw [rdropWhile_concat_neg _ _ _ hp, if_neg fun hc => hy hc.2, length_append,
        length_singleton, ← hloads, map_append]
      refine ⟨s.loadQueue, s.loadTail, s.stalled, s.stallingStoreIsn, s.stallingLoadIdx, rfl, h,
        fun _ _ hi => hi, fun hb => ⟨hb, rfl, rfl, fun k hk hle => ?_⟩⟩
      exact absurd hk (by omega)

/-- A squash after `y` drops the store: it may not write back. -/
def dropped (y : ℕ) (e : StoreKey) : Bool := !e.canWB && e.squashed y

/-- The stores after `y` are dropped, up to one that may write back; a stalled load panics. -/
lemma squashStores_cases (y : ℕ)
    (h : Holds s.sqEntries s.storeKeys s.storeHead s.storeTail (K.map some))
    (hstores : s.stores = K.length) (hfuel : K.length ≤ fuel) :
    (squashStores y fuel s = none ∧ s.stalled = true ∧
      ∃ e ∈ K, dropped y e = true ∧ e.seqNum = s.stallingStoreIsn) ∨
    ∃ q t, squashStores y fuel s = some { s with
        storeQueue := q
        storeTail := t
        stores := (K.rdropWhile (dropped y)).length } ∧
      Holds s.sqEntries (fun i => (q i).map SQEntry.key) s.storeHead t
        ((K.rdropWhile (dropped y)).map some) := by
  induction K using reverseRecOn generalizing s fuel with
  | nil =>
    have hs : squashStores y fuel s = some s := by
      cases fuel with
      | zero => rfl
      | succ fuel =>
        rw [squashStores]
        cases s.storeQueue (s.decrStIdx s.storeTail) <;> simp [hstores]
    rw [rdropWhile_nil]
    exact .inr ⟨s.storeQueue, s.storeTail, by rw [hs, ← hstores], h⟩
  | append_singleton K e ih =>
    rw [length_append, length_singleton] at hstores hfuel
    obtain ⟨fuel, rfl⟩ : ∃ n, fuel = n + 1 := ⟨fuel - 1, by omega⟩
    rw [map_append] at h
    obtain ⟨-, hget, -⟩ := h.unsnoc
    obtain ⟨entry, hentry, rfl⟩ := exists_of_storeKeys hget
    have hpos : s.stores ≠ 0 := by omega
    have hslot : s.storeQueue (s.decrStIdx s.storeTail) = some entry := hentry
    rw [squashStores, hslot]
    dsimp only
    by_cases hp : dropped y entry.key = true
    · obtain ⟨hcan, hy⟩ := Bool.and_eq_true_iff.mp hp
      have hcan : ¬ entry.canWB = true := by simpa [SQEntry.key] using hcan
      have hy : y < entry.inst.seqNum := of_decide_eq_true hy
      rw [if_pos ⟨hpos, hy⟩, if_neg hcan, rdropWhile_concat_pos _ _ _ hp]
      split_ifs with hstall
      · exact .inl ⟨rfl, hstall.1, entry.key, by simp, hp, hstall.2⟩
      · have hpop := h.popBack none
        rw [← map_none (f := SQEntry.key), ← storeKeys_setStore] at hpop
        have hfuel' : K.length ≤ fuel := by omega
        rcases ih (s := { s.setStore (s.decrStIdx s.storeTail) none with
            stores := s.stores - 1, storeTail := s.decrStIdx s.storeTail }) hpop
            (by dsimp only; omega) hfuel' with ⟨hnone, hst, e, he, hdrop⟩ | hsome
        · exact .inl ⟨hnone, hst, e, by simp [he], hdrop⟩
        · exact .inr hsome
    · rw [rdropWhile_concat_neg _ _ _ hp, length_append, length_singleton, ← hstores, map_append]
      refine .inr ⟨s.storeQueue, s.storeTail, ?_, h⟩
      by_cases hy : y < entry.inst.seqNum
      · have hcan : entry.canWB = true := by
          by_contra hcan
          exact hp (Bool.and_eq_true_iff.mpr ⟨by simpa [SQEntry.key] using hcan, decide_eq_true hy⟩)
        rw [if_pos ⟨hpos, hy⟩, if_pos hcan]
      · rw [if_neg fun hc => hy hc.2]

section Dropping

variable (a : ProgramOrder) (L : List LoadKey) {q : StoreKey → Bool}

/-- Dropping loads of later numbers leaves those before `n`. -/
lemma olderLoads_rdropWhile {q : LoadKey → Bool} (W : List StoreKey) {n : ℕ}
    (hq : ∀ ld, q ld = true → n ≤ ld.seqNum) :
    ({ a with loads := a.loads.rdropWhile q, waiting := W } : ProgramOrder).olderLoads n =
      a.olderLoads n := by
  conv_rhs => rw [olderLoads, ← rdropWhile_append_rtakeWhile (p := q) (l := a.loads)]
  refine (takeWhile_append_of_forall_neg fun ld hld => ?_).symm
  have hle := hq ld (mem_rtakeWhile_imp hld)
  exact decide_eq_false hle.not_gt

/-- Dropping stores of later numbers leaves those that wait before `n`. -/
lemma olderWaiting_rdropWhile {n : ℕ} (hq : ∀ e, q e = true → n ≤ e.seqNum) :
    ({ a with loads := L, waiting := a.waiting.rdropWhile q } : ProgramOrder).olderWaiting n =
      a.olderWaiting n := by
  conv_rhs => rw [olderWaiting, ← rdropWhile_append_rtakeWhile (p := q) (l := a.waiting)]
  refine (takeWhile_append_of_forall_neg fun e he => ?_).symm
  have hle := hq e (mem_rtakeWhile_imp he)
  exact decide_eq_false hle.not_gt

lemma stores_rdropWhile :
    ({ a with loads := L, waiting := a.waiting.rdropWhile q } : ProgramOrder).stores <+: a.stores :=
  (prefix_append_right_inj a.sent).mpr <| rdropWhile_prefix q a.waiting

end Dropping

/-! ### Write-back -/

lemma Slots.waiting (h : s.Slots a) :
    Holds s.sqEntries s.storeKeys s.storeWBIdx s.storeTail (a.waiting.map some) := by
  have hheld := h.stores
  rw [ProgramOrder.stores, map_append] at hheld
  have hsplit := hheld.split.2
  rwa [length_map, ← h.storeWBIdx] at hsplit

lemma Slots.exists_waiting (h : s.Slots a) {e : SQEntry} (hne : s.storeWBIdx ≠ s.storeTail)
    (hslot : s.storeQueue s.storeWBIdx = some e) : ∃ W, a.waiting = e.key :: W := by
  cases hw : a.waiting with
  | nil => exact absurd (h.waiting.head_eq_tail_iff.mpr (by rw [hw]; rfl)) hne
  | cons x W =>
    have hheld := h.waiting
    rw [hw] at hheld
    have hget := hheld.uncons.2.1
    rw [storeKeys, hslot, map_some] at hget
    exact ⟨W, by rw [some.inj hget]⟩

section Send

variable {e : StoreKey} {W : List StoreKey}

lemma send_eq (hw : a.waiting = e :: W) :
    a.send = { a with sent := a.sent ++ [e], waiting := W } := by
  simp [ProgramOrder.send, hw]

lemma stores_send (hw : a.waiting = e :: W) : a.send.stores = a.stores := by
  simp [send_eq hw, ProgramOrder.stores, hw]

lemma Slots.send (h : s.Slots a) (hw : a.waiting = e :: W) :
    ({ s with storeWBIdx := s.incrStIdx s.storeWBIdx } : LSQUnit).Slots a.send := by
  have hlen := h.stores.length_lt
  rw [length_map, ProgramOrder.stores, hw, length_append, length_cons] at hlen
  refine ⟨stores_send hw ▸ h.stores, stores_send hw ▸ h.stores_eq, ?_, ?_⟩
  · rw [send_eq hw, length_append, length_singleton,
      ← next_index h.stores.head_lt (by omega), ← h.storeWBIdx]
    rfl
  · simp only [stores_send hw]
    exact h.sqIdx

lemma WalkStart.send (hwalk : s.WalkStart a ld) (h : s.Slots a)
    (hw : a.waiting = e :: W) (hlt : e.seqNum < ld.seqNum) :
    ({ s with storeWBIdx := s.incrStIdx s.storeWBIdx } : LSQUnit).WalkStart a.send ld := by
  have hlen := h.stores.length_lt
  rw [length_map, ProgramOrder.stores, hw, length_append, length_cons] at hlen
  have hidx : s.storeWBIdx < s.sqEntries := by
    rw [h.storeWBIdx]
    exact index_lt h.stores.head_lt (by omega)
  have holder : a.olderWaiting ld.seqNum = e :: a.send.olderWaiting ld.seqNum := by
    rw [olderWaiting, olderWaiting, hw, send_eq hw]
    exact takeWhile_cons_of_pos (decide_eq_true hlt)
  have hle := a.length_olderWaiting_le ld.seqNum
  rw [holder, hw, length_cons, length_cons] at hle
  rcases hwalk with hwalk | ⟨-, hnil⟩
  · refine .inl (hwalk.trans (congrArg some ?_))
    rw [holder, length_cons, ← index_next hidx (by omega)]
    rfl
  · rw [holder] at hnil
    cases hnil

end Send

/-- Sent stores leave the queue at the head. -/
lemma Slots.dropSent (h : s.Slots a) (hsent : a.sent = T ++ D) : ({ s with
      storeHead := index s.sqEntries s.storeHead T.length
      stores := (D ++ a.waiting).length } : LSQUnit).Slots { a with sent := D } := by
  have hstores : a.stores = T ++ (D ++ a.waiting) := by
    rw [ProgramOrder.stores, hsent, append_assoc]
  have hheld := h.stores
  rw [hstores, map_append] at hheld
  have hsplit := hheld.split.2
  have hlen := h.stores.length_lt
  rw [length_map] at hsplit hlen
  rw [hstores, length_append, length_append] at hlen
  refine ⟨hsplit, rfl, ?_, ?_⟩
  · change s.storeWBIdx = index s.sqEntries (index s.sqEntries s.storeHead T.length) D.length
    rw [h.storeWBIdx, hsent, length_append, index_index h.stores.head_lt (by omega)]
  · intro k hk
    have hk' : k < (D ++ a.waiting).length := hk
    rw [length_append] at hk'
    have hidx := h.sqIdx (T.length + k) (by rw [hstores]; simp; omega)
    simp only [hstores, getElem_append_right (Nat.le_add_right T.length k),
      Nat.add_sub_cancel_left] at hidx
    refine hidx.trans (congrArg some ?_)
    rw [index_index h.stores.head_lt (by omega)]

/-- The loop of `completeStore` drops the first store and completed ones after it. -/
lemma freeCompleted_eq
    (h : Holds s.sqEntries s.storeKeys s.storeHead s.storeTail ((e :: K).map some))
    (hstores : s.stores = K.length + 1) (hfuel : K.length < fuel) :
    freeCompleted fuel s = { s with
      storeHead := index s.sqEntries s.storeHead ((K.takeWhile fun e => e.completed).length + 1)
      stores := (K.dropWhile fun e => e.completed).length } := by
  induction K generalizing s e fuel with
  | nil =>
    obtain ⟨fuel, rfl⟩ : ∃ n, fuel = n + 1 := ⟨fuel - 1, by omega⟩
    have htail : next s.sqEntries s.storeHead = s.storeTail := h.uncons.2.2.head_eq_tail_iff.mpr rfl
    have hidx := next_eq_index h.head_lt
    simp [freeCompleted, incrStIdx, htail, hstores, ← hidx]
  | cons e' K ih =>
    obtain ⟨fuel, rfl⟩ : ∃ n, fuel = n + 1 := ⟨fuel - 1, by omega⟩
    have hrest := h.uncons.2.2
    obtain ⟨hne, hget, -⟩ := hrest.uncons
    obtain ⟨entry, hentry, rfl⟩ := exists_of_storeKeys hget
    have hlen := h.length_lt
    simp only [map_cons, length_cons, length_map] at hlen
    have hle := (takeWhile_sublist (l := K) fun e => e.completed).length_le
    rw [length_cons] at hstores hfuel
    rw [freeCompleted]
    by_cases hcompl : entry.completed = true
    · have hp : entry.key.completed = true := hcompl
      rw [if_pos ⟨by simp [incrStIdx, hentry, hcompl], hne⟩]
      rw [ih (s := { s with storeHead := s.incrStIdx s.storeHead, stores := s.stores - 1 })
        hrest (by dsimp only; omega) (by omega)]
      simp only [takeWhile_cons_of_pos hp, dropWhile_cons_of_pos hp, length_cons,
        ← index_next h.head_lt
          (show (K.takeWhile fun e => e.completed).length + 1 + 1 < _ by omega)]
      rfl
    · have hp : ¬ entry.key.completed = true := hcompl
      rw [if_neg fun hc => hcompl (by simpa [incrStIdx, hentry] using hc.1)]
      simp only [takeWhile_cons_of_neg hp, dropWhile_cons_of_neg hp, length_cons,
        length_nil, Nat.zero_add, ← next_eq_index h.head_lt, hstores]
      rfl

lemma Slots.mapStores_atSlot (h : s.Slots a) (hk : k < a.sent.length) :
    a.mapStores (atSlot (index s.sqEntries s.storeHead k) setCompleted) =
      a.complete (index s.sqEntries s.storeHead k) := by
  have hlen := h.stores.length_lt
  rw [length_map, ProgramOrder.stores, length_append] at hlen
  have hwaiting : a.waiting.map (atSlot (index s.sqEntries s.storeHead k) setCompleted) =
      a.waiting := by
    refine (map_congr_left fun e he => ?_).trans (map_id _)
    obtain ⟨m, hm, rfl⟩ := mem_iff_getElem.mp he
    have hidx := h.sqIdx (a.sent.length + m) (by rw [ProgramOrder.stores, length_append]; omega)
    simp only [ProgramOrder.stores, getElem_append_right (Nat.le_add_right _ m),
      Nat.add_sub_cancel_left] at hidx
    refine if_neg fun heq => ?_
    rw [hidx] at heq
    have := index_inj (by omega) (by omega) (some.inj heq)
    omega
  rw [ProgramOrder.mapStores, hwaiting, complete]

lemma Slots.freeCompleted_eq (h : s.Slots a) (hwaiting : ∀ e ∈ a.waiting, e.completed = false)
    (hsent : a.sent = e :: S) :
    freeCompleted s.sqEntries s = { s with
      storeHead := index s.sqEntries s.storeHead (e :: S.takeWhile fun e => e.completed).length
      stores := ((S.dropWhile fun e => e.completed) ++ a.waiting).length } := by
  have hstores : a.stores = e :: (S ++ a.waiting) := by
    rw [ProgramOrder.stores, hsent, cons_append]
  have hlen := h.stores.length_lt
  rw [hstores, length_map, length_cons] at hlen
  have hfree := LSQUnit.freeCompleted_eq (hstores ▸ h.stores)
    (by rw [h.stores_eq, hstores, length_cons]) ((Nat.lt_succ_self _).trans hlen)
  rwa [takeWhile_append_of_forall_neg hwaiting, dropWhile_append_of_forall_neg hwaiting] at hfree

lemma free_eq (hsent : a.sent = e :: S) (he : e.completed = true) :
    a.free = { a with sent := S.dropWhile fun e => e.completed } := by
  rw [ProgramOrder.free, hsent, dropWhile_cons_of_pos (by exact he)]

lemma Slots.freeCompleted (h : s.Slots a) (hwaiting : ∀ e ∈ a.waiting, e.completed = false)
    (hsent : a.sent = e :: S) (he : e.completed = true) :
    (freeCompleted s.sqEntries s).Slots a.free := by
  rw [h.freeCompleted_eq hwaiting hsent, free_eq hsent he]
  exact h.dropSent (by rw [hsent, cons_append, takeWhile_append_dropWhile])

lemma getElem_stores (hk : k < a.sent.length) :
    ∃ h : k < a.stores.length, a.stores[k] = a.sent[k] :=
  ⟨by rw [ProgramOrder.stores, length_append]; omega, getElem_append_left hk⟩

lemma Slots.exists_sent (h : s.Slots a) (hk : k < a.sent.length) :
    ∃ entry, s.storeQueue (index s.sqEntries s.storeHead k) = some entry ∧
      entry.key = a.sent[k] ∧ s.InStoreQueue entry ∧
      entry.inst.sqIdx = some (index s.sqEntries s.storeHead k) := by
  obtain ⟨hks, hget⟩ := getElem_stores hk
  obtain ⟨entry, hentry, hkey⟩ := exists_of_storeKeys
    ((h.stores.get k (by simpa using hks)).trans (getElem_map _))
  refine ⟨entry, hentry, hkey.trans hget, ⟨k, h.stores_eq ▸ hks, hentry⟩, ?_⟩
  have hidx := h.sqIdx k hks
  rwa [← hkey] at hidx

lemma Slots.index_eq_head_iff (h : s.Slots a) (hk : k < a.sent.length) :
    index s.sqEntries s.storeHead k = s.storeHead ↔ k = 0 := by
  have hlen := h.stores.length_lt
  rw [length_map, ProgramOrder.stores, length_append] at hlen
  refine ⟨fun heq => ?_, fun hzero => by rw [hzero, index_zero h.stores.head_lt]⟩
  exact index_inj (by omega) (by omega) (heq.trans (index_zero h.stores.head_lt).symm)

lemma Slots.complete_sent (h : s.Slots a) (hsent : 0 < a.sent.length) :
    ∃ e S, (a.complete (index s.sqEntries s.storeHead 0)).sent = e :: S ∧ e.completed = true := by
  obtain ⟨e, S, hcons⟩ := exists_cons_of_ne_nil (ne_nil_of_length_pos hsent)
  have hidx := h.sqIdx 0 (by rw [ProgramOrder.stores, length_append]; omega)
  simp only [ProgramOrder.stores, hcons, cons_append, getElem_cons_zero] at hidx
  refine ⟨setCompleted e, S.map (atSlot (index s.sqEntries s.storeHead 0) setCompleted), ?_, rfl⟩
  rw [ProgramOrder.complete, hcons, map_cons, atSlot, if_pos hidx]

/-- After a completion: completed stores at the head leave. -/
def completed (a : ProgramOrder) (n head k : ℕ) : ProgramOrder :=
  if k = 0 then (a.complete (index n head k)).free else a.complete (index n head k)

def freed (s : LSQUnit) (i : ℕ) (e : SQEntry) : LSQUnit :=
  if i = s.storeHead then freeCompleted s.sqEntries (s.markCompleted i e) else s.markCompleted i e

lemma completeStore_eq {e : SQEntry} (hslot : s.storeQueue i = some e) :
    ∃ f, s.completeStore i = { (s.freed i e).unstall e with storeInFlight := f } := by
  rw [completeStore, hslot]
  exact ⟨_, rfl⟩

lemma sameOrder_completeStore {e : SQEntry} (hslot : s.storeQueue i = some e) :
    SameOrder (s.freed i e) (s.completeStore i) := by
  obtain ⟨f, hf⟩ := completeStore_eq hslot
  rw [hf]
  exact (sameOrder_unstall _ e).trans { SameOrder.refl _ with }

/-- A sent store is **completed**; at the head it leaves, with completed ones behind. -/
lemma Slots.complete (h : s.Slots a) (hwaiting : ∀ e ∈ a.waiting, e.completed = false)
    (hk : k < a.sent.length) :
    (s.completeStore (index s.sqEntries s.storeHead k)).Slots
      (completed a s.sqEntries s.storeHead k) := by
  obtain ⟨entry, hentry, -, hin, hsq⟩ := h.exists_sent hk
  have h₁ : (s.markCompleted (index s.sqEntries s.storeHead k) entry).Slots
      (a.complete (index s.sqEntries s.storeHead k)) := by
    rw [← h.mapStores_atSlot hk]
    exact h.setSlot keepsPlaces_setCompleted hin hsq rfl
  refine Slots.of_sameOrder ?_ (sameOrder_completeStore hentry)
  rw [freed, completed]
  by_cases hzero : k = 0
  · rw [if_pos ((h.index_eq_head_iff hk).mpr hzero), if_pos hzero]
    subst hzero
    obtain ⟨e, S, hsent, he⟩ := h.complete_sent hk
    exact h₁.freeCompleted hwaiting hsent he
  · rwa [if_neg ((h.index_eq_head_iff hk).not.mpr hzero), if_neg hzero]

lemma done_completed (a : ProgramOrder) (n head k : ℕ) : (completed a n head k).done = a.done := by
  rw [completed]
  split_ifs <;> rfl

lemma freeCompleted_setWB (w : ℕ) : freeCompleted fuel { s with storeWBIdx := w } =
      { freeCompleted fuel s with storeWBIdx := w } := by
  induction fuel generalizing s with
  | zero => rfl
  | succ fuel ih =>
    rw [freeCompleted, freeCompleted]
    split_ifs with h₁ h₂ h₂
    · exact @ih { s with storeHead := s.incrStIdx s.storeHead, stores := s.stores - 1 }
    · exact absurd h₁ h₂
    · exact absurd h₂ h₁
    · rfl

lemma unstall_setWB (e : SQEntry) (w : ℕ) : ({ s with storeWBIdx := w } : LSQUnit).unstall e =
      { s.unstall e with storeWBIdx := w } := by
  rw [unstall, unstall]
  split_ifs <;> rfl

lemma completeStore_setWB (w : ℕ) : ({ s with storeWBIdx := w } : LSQUnit).completeStore i =
      { s.completeStore i with storeWBIdx := w } := by
  rw [completeStore, completeStore]
  cases hslot : s.storeQueue i with
  | none => rfl
  | some e =>
    have hmark : ({ s with storeWBIdx := w } : LSQUnit).markCompleted i e =
        { s.markCompleted i e with storeWBIdx := w } := rfl
    dsimp only
    rw [hmark]
    by_cases hhead : i = s.storeHead
    · have hhead' : i = (s.markCompleted i e).storeHead := hhead
      rw [if_pos hhead', if_pos hhead', freeCompleted_setWB, unstall_setWB]
    · have hhead' : ¬ i = (s.markCompleted i e).storeHead := hhead
      rw [if_neg hhead', if_neg hhead', unstall_setWB]

end LSQUnit

end ShifDram
