import ShifDram.Lsq.Violations

/-!
Loads and pending row ops: the walk of `LSQUnit::read`.

A row op that writes into the physical range of the load's main request counts as having a part of
it, which stalls the load. To the interval tests a row op is a store of the 32 bytes of its
payload at virtual address `0`: a load of those bytes gets the payload.

The main request of a split load has the physical address of its first half and the size of both,
so the second half is looked up where the first would continue.
-/

namespace ShifDram

open RingBuffer ProgramOrder List Option

lemma SQEntry.coverage_of_rowOpMeets {e : SQEntry} {req : Request} (hsize : e.size ≠ 0)
    (hstrict : e.inst.isStrictlyOrdered = false) (hmeets : e.rowOpMeets req = true) :
    e.coverage req = .part := by
  simp [coverage, hsize, hstrict, hmeets]

lemma SQEntry.rowOpMeets_of_byte {e : SQEntry} {q req : Request} (hreq : e.req = some q)
    (hrow : q.isRowOp = true) {b : ℕ}
    (hb : req.paddr.getD 0 ≤ b ∧ b < req.paddr.getD 0 + req.size)
    (hdest : e.rowOp.dest ≤ b ∧ b < e.rowOp.dest + rowSize) : e.rowOpMeets req = true := by
  have hlow : e.rowOp.dest < req.paddr.getD 0 + req.size := by omega
  have hhigh : req.paddr.getD 0 < e.rowOp.dest + rowSize := by omega
  simp [rowOpMeets, hreq, hrow, hlow, hhigh]

lemma SQEntry.le_of_coverage_eq_whole {e : SQEntry} {req : Request} (h : e.coverage req = .whole) :
    e.inst.effAddr ≤ req.vaddr ∧ req.vaddr + req.size ≤ e.inst.effAddr + e.size := by
  simp only [coverage] at h
  split_ifs at h with hsize hstrict hwhole
  cases hmeets : e.rowOpMeets req <;> simp [hmeets] at hwhole
  exact hwhole

namespace LSQUnit

variable {s : LSQUnit} {req : Request} {ld : LsqInst} {e : SQEntry}

/-- The walk ends at the youngest store with any data; here `e` has a part. -/
lemma readWalk_of_part {U V : List SQEntry} {i fuel : ℕ}
    (h : Holds s.sqEntries s.storeQueue s.storeWBIdx i ((U ++ e :: V).map some))
    (hpart : e.coverage req = .part) (hcompl : ∀ x ∈ e :: V, x.completed = false)
    (hfuel : (U ++ e :: V).length < fuel) :
    ∃ j x, s.storeQueue j = some x ∧ x ∈ e :: V ∧
      (x.coverage req = .part ∧ s.readWalk req fuel i = some (.stall j) ∨
        x.coverage req = .whole ∧ x ∈ V ∧
          s.readWalk req fuel i = some (.forward j (x.forwarded req))) := by
  have hdecide : ∀ x ∈ e :: V, ∀ j, x.coverage req ≠ .nothing →
      x.coverage req = .part ∧ x.outcome req j = .stall j ∨
        x.coverage req = .whole ∧ x ∈ V ∧ x.outcome req j = .forward j (x.forwarded req) := by
    intro x hx j hcov
    cases hc : x.coverage req with
    | nothing => exact absurd hc hcov
    | part => exact .inl ⟨rfl, by simp [SQEntry.outcome, hc, hcompl x hx]⟩
    | whole =>
      refine .inr ⟨rfl, ?_, by simp [SQEntry.outcome, hc]⟩
      rcases mem_cons.mp hx with rfl | hx
      · cases hc.symm.trans hpart
      · exact hx
  have hcov : e.coverage req ≠ .nothing := fun h => by cases h.symm.trans hpart
  rcases readWalk_cases req h hfuel with ⟨hall, -⟩ | ⟨U', x, V', hsplit, hV', hx, hget, hwalk, -⟩
  · exact absurd (hall e (by simp)) hcov
  -- the store found is not older than `e`
  have hmem : x ∈ e :: V := by
    rcases append_eq_append_iff.mp hsplit with ⟨c, -, hc⟩ | ⟨c, -, hc⟩
    · rw [hc]
      simp
    · cases c with
      | nil =>
        obtain ⟨rfl, -⟩ := cons_eq_cons.mp hc
        exact mem_cons_self
      | cons y c =>
        obtain ⟨-, hcV⟩ := cons_eq_cons.mp hc
        exact absurd (hV' e (by rw [hcV]; simp)) hcov
  refine ⟨_, x, hget, hmem, ?_⟩
  rw [hwalk]
  rcases hdecide x hmem _ hx with ⟨hc, hout⟩ | ⟨hc, hxV, hout⟩
  · exact .inl ⟨hc, by rw [hout]⟩
  · exact .inr ⟨hc, hxV, by rw [hout]⟩

/-- The store is between the write-back index and the tail. -/
def Waiting (s : LSQUnit) (e : SQEntry) : Prop :=
  ∃ k, s.storeQueue (index s.sqEntries s.storeWBIdx k) = some e ∧
    ∀ j ≤ k, index s.sqEntries s.storeWBIdx j ≠ s.storeTail

/-- No row op between store and load has all of the load in its payload. -/
def PayloadsApart (s : LSQUnit) (e : SQEntry) (ld : LsqInst) (req : Request) : Prop :=
  ∀ j e' q, s.storeQueue j = some e' → e.inst.seqNum < e'.inst.seqNum →
    e'.inst.seqNum < ld.seqNum → e'.req = some q → q.isRowOp = true →
    ¬ (e'.inst.effAddr ≤ req.vaddr ∧ req.vaddr + req.size ≤ e'.inst.effAddr + e'.size)

/-- **A load's walk** is over the older waiting stores, whatever its bound. -/
lemma Placed.exists_walk {a : ProgramOrder} (h : s.Placed a) (hld : s.InLoadQueue ld)
    (hdone : a.done < ld.seqNum) :
    ∃ W : List SQEntry, (∀ e, e ∈ W ↔ s.Waiting e ∧ e.inst.seqNum < ld.seqNum) ∧
      (W.Pairwise fun x y => x.inst.seqNum < y.inst.seqNum) ∧ W.length < s.sqEntries ∧
      (∀ e ∈ W, e.completed = false ∧ s.InStoreQueue e) ∧
      ((∃ i, ld.sqIdx = some i ∧ Holds s.sqEntries s.storeQueue s.storeWBIdx i (W.map some)) ∨
        ld.sqIdx = none ∧ W = []) := by
  obtain ⟨L, hkeys, hheld, hwalk⟩ :=
    h.storeSide.toSlots.exists_older (h.between.walkStart ld.key (h.key_mem_loads hld) hdone)
  have hsorted : L.Pairwise fun x y => x.inst.seqNum < y.inst.seqNum := by
    have hstores := (pairwise_append.mp h.storeSide.sorted).2.1
    rw [← hkeys, pairwise_map] at hstores
    exact hstores
  have hlen := hheld.length_lt
  rw [length_map] at hlen
  have hwaiting : ∀ e, e ∈ L ↔ s.Waiting e := by
    intro e
    rw [← hheld.mem_iff]
    constructor
    · rintro ⟨k, hk, hget⟩
      refine ⟨k, hget, fun j hj heq => ?_⟩
      rw [hheld.tail_eq, length_map] at heq
      have := index_inj (by omega) (by omega) heq
      omega
    · rintro ⟨k, hget, hne⟩
      refine ⟨k, ?_, hget⟩
      by_contra hle
      exact hne _ (not_lt.mp hle) (by rw [hheld.tail_eq, length_map])
  refine ⟨olderEntries L ld.seqNum, fun e => ?_, hsorted.sublist (takeWhile_sublist _),
    (takeWhile_sublist _).length_le.trans_lt hlen, fun e he => ?_, hwalk⟩
  · rw [← hwaiting]
    exact ⟨fun he => ⟨mem_of_mem_olderEntries he, lt_of_mem_olderEntries he⟩,
      fun ⟨he, hlt⟩ => mem_takeWhile_of_lt (fun _ => rfl) hsorted he hlt⟩
  · have hmem : e.key ∈ a.waiting := hkeys ▸ mem_map_of_mem (mem_of_mem_olderEntries he)
    refine ⟨h.storeSide.waiting e.key hmem, ?_⟩
    obtain ⟨k, hk, hget⟩ := hheld.mem_iff.mpr (mem_of_mem_olderEntries he)
    have hlenL : L.length = a.waiting.length := by rw [← hkeys, length_map]
    have hlenS := h.storeSide.stores.length_lt
    rw [length_map, ProgramOrder.stores, length_append] at hlenS
    refine ⟨a.sent.length + k, ?_, ?_⟩
    · rw [h.storeSide.stores_eq, ProgramOrder.stores, length_append]
      omega
    · rwa [h.storeSide.storeWBIdx, index_index h.storeSide.stores.head_lt (by omega)] at hget

lemma stalled_stallOn (s : LSQUnit) (i : ℕ) (ld : LsqInst) (j : ℕ) :
    (s.stallOn i ld j).stalled = true := by
  rw [stallOn]
  split_ifs with hold
  · rfl
  · rw [oldestStall, Bool.not_eq_true, Bool.or_eq_false_iff, Bool.not_eq_false'] at hold
    exact hold.1

lemma readOutcome_of_walk (low high : Option Request) (loadIdx : ℕ) {i : ℕ}
    {outcome : ReadOutcome} (hipr : req.isMmappedIpr = false) (hidx : ld.sqIdx = some i)
    (hwalk : s.readWalk req s.sqEntries i = some outcome) :
    s.readOutcome req low high loadIdx ld = .strictlyOrdered ∨
      s.readOutcome req low high loadIdx ld = outcome := by
  rw [readOutcome]
  by_cases hstrict :
      (req.isStrictlyOrdered && (decide (loadIdx ≠ s.loadHead) || !ld.isAtCommit)) = true
  · exact .inl (if_pos hstrict)
  · rw [if_neg hstrict, hipr, if_neg Bool.false_ne_true, hidx, bind_some, hwalk]
    exact .inr rfl

lemma exists_read (req : Request) {loadIdx : ℕ} (hslot : s.loadQueue loadIdx = some ld)
    (low high : Option Request) :
    ∃ s', s.read req low high loadIdx = some (s', s.readOutcome req low high loadIdx ld) ∧
      ∀ j, s.readOutcome req low high loadIdx ld = .stall j → s'.stalled = true := by
  rw [read, hslot, map_some]
  cases hout : s.readOutcome req low high loadIdx ld with
  | stall j => exact ⟨_, rfl, fun _ _ => s.stalled_stallOn loadIdx ld j⟩
  | _ => exact ⟨_, rfl, fun j hj => by cases hj⟩

end LSQUnit

/-- The physical bytes of the load's first request. -/
def inFirstRequest (req : Request) (sreqLow : Option Request) (b : ℕ) : Prop :=
  (sreqLow.getD req).paddr.getD 0 ≤ b ∧
    b < (sreqLow.getD req).paddr.getD 0 + (sreqLow.getD req).size

/-- A split load's main request has its first half's physical address. -/
def SplitLoad (req : Request) (sreqLow : Option Request) : Prop :=
  ∀ low, sreqLow = some low → low.paddr = req.paddr ∧ low.size ≤ req.size

lemma splitLoad_copyBack {st : WholeTranslationState ℕ} {bufs : Buffers} {low high : Request}
    {paddr : ℕ} (hparts : st.parts = .split low high) (hfault : st.faults 0 = none)
    (hlow : low.paddr = some paddr) (hsize : low.size ≤ st.mainReq.size) :
    SplitLoad (st.copyBack bufs).1.mainReq (some low) := by
  intro l hl
  cases hl
  rw [WholeTranslationState.copyBack, hparts, hfault]
  exact ⟨by simp [Request.setFlags, Request.setPaddr, hlow], hsize⟩

/-- **Loads and pending row ops**: in every reachable state, a load with a byte of its first request
in the destination row of an older row op that waits to be sent, and not in the payload of a row op
between them, is not sent to the cache: it is rescheduled, stalled, or gets all its data from an
ordinary store between the two. -/
theorem read_rowOp {r : LsqRun} (hr : r.Reachable) {loadIdx : ℕ} {ld : LsqInst}
    (hld : r.unit.InLoadQueue ld) (hslot : r.unit.loadQueue loadIdx = some ld) {e : SQEntry}
    (he : r.unit.Waiting e) (hlt : e.inst.seqNum < ld.seqNum) {q : Request} (hreq : e.req = some q)
    (hrow : q.isRowOp = true) (hsize : e.size ≠ 0) (hstrict : e.inst.isStrictlyOrdered = false)
    {req : Request} {sreqLow sreqHigh : Option Request} (hsplit : SplitLoad req sreqLow)
    (hipr : req.isMmappedIpr = false) {b : ℕ} (hb : inFirstRequest req sreqLow b)
    (hdest : e.rowOp.dest ≤ b ∧ b < e.rowOp.dest + rowSize)
    (hpayload : r.unit.PayloadsApart e ld req) :
    ∃ x, r.unit.read req sreqLow sreqHigh loadIdx = some x ∧
      (x.2 = .strictlyOrdered ∨ (∃ j, x.2 = .stall j ∧ x.1.stalled = true) ∨
        ∃ j e', r.unit.storeQueue j = some e' ∧ e.inst.seqNum < e'.inst.seqNum ∧
          e'.inst.seqNum < ld.seqNum ∧ (∀ q', e'.req = some q' → q'.isRowOp = false) ∧
          e'.coverage req = .whole ∧ x.2 = .forward j (e'.forwarded req)) := by
  obtain ⟨a, hplaced, -, hlater, -⟩ := hr.inOrder
  obtain ⟨W, hW, hsorted, -, hcompl, hwalk⟩ :=
    hplaced.exists_walk hld (hlater ld.key (hplaced.key_mem_loads hld))
  have hmem : e ∈ W := (hW e).mpr ⟨he, hlt⟩
  obtain ⟨i, hidx, hheld⟩ := hwalk.resolve_right fun hnil => not_mem_nil (hnil.2 ▸ hmem)
  obtain ⟨U, V, rfl⟩ := append_of_mem hmem
  have hmain : req.paddr.getD 0 ≤ b ∧ b < req.paddr.getD 0 + req.size := by
    rw [inFirstRequest] at hb
    cases hlow : sreqLow with
    | none => simpa [hlow] using hb
    | some low =>
      obtain ⟨hpaddr, hle⟩ := hsplit low hlow
      simp only [hlow, getD_some, hpaddr] at hb
      omega
  have hpart : e.coverage req = .part :=
    SQEntry.coverage_of_rowOpMeets hsize hstrict (SQEntry.rowOpMeets_of_byte hreq hrow hmain hdest)
  have hlen := hheld.length_lt
  rw [length_map] at hlen
  obtain ⟨j, x, hj, -, hwalk⟩ := LSQUnit.readWalk_of_part hheld hpart
    (fun x hx => (hcompl x (mem_append_right U hx)).1) hlen
  obtain ⟨s', hread, hstall⟩ := LSQUnit.exists_read req hslot sreqLow sreqHigh
  refine ⟨_, hread, ?_⟩
  rcases hwalk with ⟨-, hwalk⟩ | ⟨hwhole, hxV, hwalk⟩
  · rcases LSQUnit.readOutcome_of_walk sreqLow sreqHigh loadIdx hipr hidx hwalk with hout | hout
    · exact .inl hout
    · exact .inr (.inl ⟨j, hout, hstall j hout⟩)
  · rcases LSQUnit.readOutcome_of_walk sreqLow sreqHigh loadIdx hipr hidx hwalk with hout | hout
    · exact .inl hout
    · have hxW : x ∈ U ++ e :: V := mem_append_right U (mem_cons_of_mem e hxV)
      have hyounger : e.inst.seqNum < x.inst.seqNum :=
        (pairwise_cons.mp (pairwise_append.mp hsorted).2.1).1 x hxV
      have hold : x.inst.seqNum < ld.seqNum := ((hW x).mp hxW).2
      have hordinary : ∀ q', x.req = some q' → q'.isRowOp = false := by
        intro q' hq'
        by_contra hrow'
        exact hpayload j x q' hj hyounger hold hq' (Bool.of_not_eq_false hrow')
          (SQEntry.le_of_coverage_eq_whole hwhole)
      exact .inr (.inr ⟨j, x, hj, hyounger, hold, hordinary, hwhole, hout⟩)

def twoStores : LSQUnit := (oneStore.insertStore (.dispatched 2 false)).getD oneStore

def secondStore : SQEntry := .ofInst (oneStore.placeStore (.dispatched 2 false))

def thirdLoad : LsqInst := twoStores.placeLoad (.dispatched 3 true)

def twoStoresLoad : LSQUnit := (twoStores.insertLoad (.dispatched 3 true)).getD twoStores

/-- The state after `executeStore`. -/
def LSQUnit.afterStore (s : LSQUnit) (e : SQEntry) (acc : StoreAcc) : LSQUnit :=
  ((s.executeStore e.inst acc).map Prod.fst).getD s

/-- The first store is `NOT 0x4000 <- 0x6000`, its destination row at `0x14000`. -/
def rowOpPending : LSQUnit :=
  twoStoresLoad.afterStore onlyStore ((executedRowNot.getD (BaseDynInst.fresh fun _ =>
    ⟨.rowNot, 0x4000, 0x6000, 0⟩)).storeAcc)

def eightBytes (vaddr paddr : ℕ) : Request := (Request.virt vaddr 8 0#32 0).setPaddr paddr

/-- The second store writes eight bytes of that row. -/
def rowOpStorePending : LSQUnit :=
  rowOpPending.afterStore secondStore (.ofWriteMem (executedAt 0 0 0 false)
    ⟨eightBytes 0x5000 0x15000, none, none, List.replicate 8 7#8, ⟨.rowAnd, 0, 0, 0⟩⟩)

def rowOpEntry : SQEntry := (rowOpStorePending.storeQueue 0).getD onlyStore

lemma reachable_twoStoresLoad : LsqRun.Reachable ⟨twoStoresLoad, 0⟩ := by
  have h₂ : LsqRun.Reachable ⟨twoStores, 0⟩ := by
    refine reachable_oneStore.step (@LsqRun.Step.insertStore _ (.dispatched 2 false) _ ?_ ?_ rfl)
    · rintro ld ⟨k, hk, -⟩
      exact absurd hk (Nat.not_lt_zero k)
    · rintro e ⟨k, hk, hget⟩
      obtain rfl : k = 0 := Nat.lt_one_iff.mp hk
      obtain rfl : onlyStore = e := some.inj hget
      exact Nat.one_lt_two
  refine h₂.step (@LsqRun.Step.insertLoad _ (.dispatched 3 true) _ (by decide) ?_ ?_ rfl)
  · rintro ld ⟨k, hk, -⟩
    exact absurd hk (Nat.not_lt_zero k)
  · rintro e ⟨k, hk, hget⟩
    rcases Nat.lt_succ_iff_lt_or_eq.mp hk with hk | rfl
    · obtain rfl : k = 0 := Nat.lt_one_iff.mp hk
      obtain rfl : onlyStore = e := some.inj hget
      exact (by decide : 1 < 3)
    · obtain rfl : secondStore = e := some.inj hget
      exact (by decide : 2 < 3)

lemma reachable_afterStore {s : LSQUnit} {e : SQEntry} {acc : StoreAcc} {n : ℕ}
    (h : LsqRun.Reachable ⟨s, n⟩) (he : s.InStoreQueue e)
    (hcond : e.inst.isStoreConditional = false) : LsqRun.Reachable ⟨s.afterStore e acc, n⟩ := by
  rw [LSQUnit.afterStore]
  cases hx : s.executeStore e.inst acc with
  | none => exact h
  | some x =>
    have hstep : LsqRun.Step ⟨s, n⟩ ⟨x.1, n⟩ :=
      .executeStore he (fun hc => by rw [hcond] at hc; cases hc) hx
    exact h.step hstep

lemma reachable_rowOpStorePending : LsqRun.Reachable ⟨rowOpStorePending, 0⟩ :=
  reachable_afterStore (reachable_afterStore reachable_twoStoresLoad ⟨0, Nat.two_pos, rfl⟩ rfl)
    ⟨1, Nat.one_lt_two, rfl⟩ rfl

lemma waiting_rowOpEntry : rowOpStorePending.Waiting rowOpEntry :=
  ⟨0, rfl, fun j hj => by rw [Nat.le_zero.mp hj]; decide⟩

lemma payloadsApart_eightBytes :
    rowOpStorePending.PayloadsApart rowOpEntry thirdLoad (eightBytes 0x4000 0x14000) := by
  intro j e' q hget hlt _ hreq hrow
  match j with
  | 0 =>
    cases hget
    exact absurd hlt (by decide)
  | 1 =>
    cases hget
    cases hreq
    exact absurd hrow (by decide)
  | j + 2 => cases hget

theorem read_rowOp_eightBytes :
    ∃ x, rowOpStorePending.read (eightBytes 0x4000 0x14000) none none 0 = some x ∧
      (x.2 = .strictlyOrdered ∨ (∃ j, x.2 = .stall j ∧ x.1.stalled = true) ∨
        ∃ j e', rowOpStorePending.storeQueue j = some e' ∧
          rowOpEntry.inst.seqNum < e'.inst.seqNum ∧ e'.inst.seqNum < thirdLoad.seqNum ∧
          (∀ q', e'.req = some q' → q'.isRowOp = false) ∧
          e'.coverage (eightBytes 0x4000 0x14000) = .whole ∧
          x.2 = .forward j (e'.forwarded (eightBytes 0x4000 0x14000))) :=
  read_rowOp reachable_rowOpStorePending ⟨0, Nat.one_pos, rfl⟩ rfl waiting_rowOpEntry
    (by decide) rfl (by decide) (by decide) rfl (fun _ h => by cases h) (by decide) (b := 0x14000)
    ⟨by decide, by decide⟩ (by decide) payloadsApart_eightBytes

/-- A younger store that covers the load forwards its data; a split load with its second half in the
destination row goes to the cache. -/
theorem read_past_rowOp :
    LsqRun.Reachable ⟨rowOpStorePending, 0⟩ ∧ rowOpStorePending.InLoadQueue thirdLoad ∧
      rowOpStorePending.Waiting rowOpEntry ∧ rowOpEntry.inst.seqNum < thirdLoad.seqNum ∧
      rowOpEntry.size ≠ 0 ∧ (rowOpEntry.req.map Request.isRowOp) = some true ∧
      rowOpEntry.rowOp.dest = 0x14000 ∧
      (rowOpStorePending.read (eightBytes 0x5000 0x15000) none none 0).map Prod.snd =
        some (.forward 1 (List.replicate 8 7#8)) ∧
      (rowOpStorePending.read (eightBytes 0x3ffc 0x30ffc)
          (some { eightBytes 0x3ffc 0x30ffc with size := 4 })
          (some { eightBytes 0x4000 0x14000 with size := 4 }) 0).map Prod.snd =
        some (.access { eightBytes 0x3ffc 0x30ffc with size := 4 }
          (some { eightBytes 0x4000 0x14000 with size := 4 })) :=
  ⟨reachable_rowOpStorePending, ⟨0, Nat.one_pos, rfl⟩, waiting_rowOpEntry, by decide, by decide,
    by decide, by decide, by decide, by decide⟩

end ShifDram
