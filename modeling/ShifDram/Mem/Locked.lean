import ShifDram.Mem.RowOps
import ShifDram.Queue.Log

/-!
Load-locked reservations over whole runs of `AbstractMemory::access`.

A load-locked records the 16-byte granule it read. A store takes away the records of the granule
of its own address, and a store-conditional succeeds while the record of its context is there. Row
ops, swaps and the bytes of a store beyond the first granule take no record away.
-/

namespace ShifDram

open List Option

namespace Packet

variable (pkt : Packet)

/-- `access` passes it to `trackLoadLocked`; a cache answers an inhibited one. -/
def isLoadLocked : Bool :=
  !pkt.memInhibit && !pkt.isRowOp && pkt.cmd != .swapReq && pkt.isRead && pkt.isLLSC

/-- The packet takes the branch of `access` with `writeOK`. -/
def isStore : Bool :=
  !pkt.memInhibit && pkt.cmd != .cleanEvict && !pkt.isRowOp && pkt.cmd != .swapReq &&
    !pkt.isRead && !pkt.isInvalidate && pkt.isWrite

def isStoreCond : Bool := pkt.isStore && pkt.isLLSC

def isSwap : Bool := !pkt.memInhibit && !pkt.isRowOp && pkt.cmd == .swapReq

/-- The bytes written if the packet's write goes ahead. -/
def Footprint (a : ℕ) : Prop :=
  (pkt.performsRowOp ∧ pkt.rowOp.op ≠ .rowAp ∧ pkt.rowOp.dest ≤ a ∧ a < pkt.rowOp.dest + rowSize) ∨
    ((pkt.isStore = true ∨ pkt.isSwap = true) ∧ pkt.addr ≤ a ∧ a < pkt.addr + pkt.data.length)

end Packet

namespace AbstractMemory

variable {mem mem' : AbstractMemory} {pkt pkt' : Packet} {l : LockedAddr}
  {past : List (AbstractMemory × Packet)} {a : ℕ}

/-- A conditional swap's compare succeeds; others always go ahead. -/
def swapOK (mem : AbstractMemory) (pkt : Packet) : Bool :=
  !pkt.req.isCondSwap ||
    copyOut mem.host (mem.hostAddr pkt.addr) pkt.size == condBytes pkt.size pkt.req.extraData

/-- `access` of the packet writes the byte at `a`. -/
def Written (mem : AbstractMemory) (pkt : Packet) (a : ℕ) : Prop :=
  pkt.Footprint a ∧ (pkt.isStore = true → (mem.writeOK pkt).1 = true) ∧
    (pkt.isSwap = true → mem.swapOK pkt = true)

lemma copyIn_of_notMem {m : ByteMem} {a x : ℤ} {data : List (BitVec 8)}
    (h : x < a ∨ a + (data.length : ℕ) ≤ x) : copyIn m a data x = m x := by
  rw [copyIn]
  split_ifs with hle
  · rw [getD_eq_getElem?_getD, getElem?_eq_none (by omega), getD_none]
  · rfl

lemma host_writeOK (mem : AbstractMemory) (pkt : Packet) : (mem.writeOK pkt).2.1.host = mem.host ∧
      (mem.writeOK pkt).2.1.hostAddr = mem.hostAddr := by
  rw [writeOK]
  split_ifs <;> exact ⟨rfl, rfl⟩

lemma host_trackLoadLocked (mem : AbstractMemory) (pkt : Packet) :
    (mem.trackLoadLocked pkt).host = mem.host ∧
      (mem.trackLoadLocked pkt).hostAddr = mem.hostAddr := by
  rw [trackLoadLocked]
  split_ifs <;> exact ⟨rfl, rfl⟩

lemma byteAt_copyIn (mem : AbstractMemory) (list : List LockedAddr) {pkt : Packet}
    (ha : ¬ (pkt.addr ≤ a ∧ a < pkt.addr + pkt.data.length)) :
    ({ mem with host := copyIn mem.host (mem.hostAddr pkt.addr) pkt.data,
                lockedAddrList := list } : AbstractMemory).byteAt a = mem.byteAt a := by
  refine copyIn_of_notMem ?_
  simp only [hostAddr]
  omega

/-! ### What `access` can do -/

/-- The memory after the branch of `access` with `writeOK`. -/
def afterStore (mem : AbstractMemory) (pkt : Packet) : AbstractMemory :=
  let r := mem.writeOK pkt
  if r.1 ∧ mem.pmemAddr ≠ 0 then
    { r.2.1 with host := copyIn mem.host (mem.hostAddr pkt.addr) pkt.data }
  else r.2.1

def afterSwap (mem : AbstractMemory) (pkt : Packet) : AbstractMemory :=
  { mem with
    host := if mem.swapOK pkt then copyIn mem.host (mem.hostAddr pkt.addr) pkt.data
      else mem.host }

/-- **The branches of `access`**, with the memory each leaves. -/
lemma access_cases (h : mem.access pkt = some (mem', pkt')) :
    (pkt.performsRowOp ∧ mem' = mem.rowOp pkt.rowOp) ∨
    (pkt.isSwap = true ∧ mem' = mem.afterSwap pkt) ∨
    (pkt.isLoadLocked = true ∧ mem' = mem.trackLoadLocked pkt) ∨
    (pkt.isStore = true ∧ mem' = mem.afterStore pkt ∧
      pkt'.req.extraData = (mem.writeOK pkt).2.2.req.extraData) ∨
    (pkt.isStore = false ∧ pkt.isLoadLocked = false ∧ mem' = mem) := by
  have hrespond : ∀ p : Packet, (if p.needsResponse then p.makeResponse else p).req = p.req := by
    intro p
    split_ifs <;> rfl
  rw [access] at h
  by_cases hinh : pkt.memInhibit = true
  · rw [if_pos hinh] at h
    cases h
    simp [Packet.isStore, Packet.isLoadLocked, hinh]
  rw [if_neg hinh] at h
  by_cases hclean : pkt.cmd = .cleanEvict
  · rw [if_pos hclean] at h
    cases h
    simp [Packet.isStore, Packet.isLoadLocked, hclean, Packet.isRead, MemCmd.isRead]
  rw [if_neg hclean] at h
  by_cases hrow : pkt.isRowOp = true
  · rw [if_pos hrow] at h
    cases h
    exact Or.inl ⟨⟨hrow, Bool.eq_false_of_not_eq_true hinh, hclean⟩, rfl⟩
  rw [if_neg hrow] at h
  right
  by_cases hrange : ¬ (mem.rangeStart ≤ pkt.addr ∧ pkt.addr + (pkt.size - 1) ≤ mem.rangeEnd)
  · rw [if_pos hrange] at h
    cases h
  rw [if_neg hrange] at h
  by_cases hswap : pkt.cmd = .swapReq
  · rw [if_pos hswap] at h
    by_cases hnull : mem.pmemAddr = 0
    · rw [if_pos hnull] at h
      cases h
    rw [if_neg hnull] at h
    by_cases hsize : pkt.req.isCondSwap ∧ pkt.size ≠ 8 ∧ pkt.size ≠ 4
    · rw [if_pos hsize] at h
      cases h
    rw [if_neg hsize] at h
    cases h
    exact Or.inl ⟨by simp [Packet.isSwap, hinh, hrow, hswap], rfl⟩
  rw [if_neg hswap] at h
  by_cases hread : pkt.isRead = true
  · -- with or without a lock
    rw [if_pos hread] at h
    cases h
    cases hllsc : pkt.isLLSC with
    | true =>
      exact Or.inr (Or.inl ⟨by simp [Packet.isLoadLocked, hinh, hrow, hswap, hread, hllsc], rfl⟩)
    | false =>
      exact Or.inr (Or.inr (Or.inr ⟨by simp [Packet.isStore, hread],
        by simp [Packet.isLoadLocked, hllsc], rfl⟩))
  rw [if_neg hread] at h
  have hload : pkt.isLoadLocked = false := by simp [Packet.isLoadLocked, hread]
  by_cases hinvalidate : pkt.isInvalidate = true
  · rw [if_pos hinvalidate] at h
    cases h
    exact Or.inr (Or.inr (Or.inr ⟨by simp [Packet.isStore, hinvalidate], hload, rfl⟩))
  rw [if_neg hinvalidate] at h
  by_cases hwrite : pkt.isWrite = true
  · rw [if_pos hwrite] at h
    cases h
    refine Or.inr (Or.inr (Or.inl ⟨?_, rfl, ?_⟩))
    · simp [Packet.isStore, hinh, hclean, hrow, hswap, hread, hinvalidate, hwrite]
    · rw [hrespond]
  · rw [if_neg hwrite] at h
    cases h

/-- **`access` changes only the bytes that it writes.** -/
theorem byteAt_access (h : mem.access pkt = some (mem', pkt')) (ha : ¬ mem.Written pkt a) :
    mem'.byteAt a = mem.byteAt a := by
  rcases access_cases h with ⟨hrow, rfl⟩ | ⟨hswap, rfl⟩ | ⟨-, rfl⟩ | ⟨hstore, rfl, -⟩ | ⟨-, -, rfl⟩
  · by_cases hap : pkt.rowOp.op = .rowAp
    · simp [byteAt, rowOp, hap, rowOpLoop, hostAddr]
    · refine byteAt_rowOp ?_
      have hout : ¬ (pkt.rowOp.dest ≤ a ∧ a < pkt.rowOp.dest + rowSize) := fun hin =>
        ha ⟨Or.inl ⟨hrow, hap, hin⟩, by simp [Packet.isStore, hrow.1], by
          simp [Packet.isSwap, hrow.1]⟩
      omega
  · rw [afterSwap]
    split_ifs with hok
    · refine byteAt_copyIn mem mem.lockedAddrList fun hin => ha ⟨Or.inr ⟨Or.inr hswap, hin⟩, ?_,
        fun _ => hok⟩
      simp only [Packet.isSwap, Packet.isStore, Bool.and_eq_true, bne_iff_ne, beq_iff_eq] at hswap ⊢
      exact fun hstore => absurd hswap.2 hstore.1.1.1.2
    · rfl
  · obtain ⟨hhost, haddr⟩ := mem.host_trackLoadLocked pkt
    rw [byteAt, hhost, haddr, byteAt]
  · obtain ⟨hhost, haddr⟩ := mem.host_writeOK pkt
    rw [afterStore]
    split_ifs with hok
    · have hout := byteAt_copyIn mem mem.lockedAddrList fun hin =>
        ha ⟨Or.inr ⟨Or.inl hstore, hin⟩, fun _ => hok.1, fun hswap => ?_⟩
      · rw [byteAt, hostAddr] at hout ⊢
        rw [← hout]
        have := congrFun haddr a
        simp only [hostAddr] at this ⊢
        rw [this]
      · simp only [Packet.isSwap, Packet.isStore, Bool.and_eq_true, bne_iff_ne,
          beq_iff_eq] at hswap hstore
        exact absurd hswap.2 hstore.1.1.1.2
    · rw [byteAt, hhost, haddr, byteAt]
  · rfl

/-! ### The records -/

lemma mem_modify_findIdx {l : List LockedAddr} {ctx paddr : ℕ}
    (hnodup : (l.map LockedAddr.contextId).Nodup) (hany : l.any fun x => x.contextId == ctx)
    {y : LockedAddr}
    (hy : y ∈ l.modify (l.findIdx fun x => x.contextId == ctx) fun x => { x with addr := paddr }) :
    y = ⟨paddr, ctx⟩ ∨ (y ∈ l ∧ y.contextId ≠ ctx) := by
  induction l with
  | nil => simp at hany
  | cons x l ih =>
    rw [map_cons, nodup_cons] at hnodup
    by_cases hx : x.contextId = ctx
    · simp only [findIdx_cons, hx, beq_self_eq_true, cond_true, modify_zero_cons, mem_cons] at hy
      rcases hy with rfl | hy
      · exact Or.inl (by simp)
      · refine Or.inr ⟨mem_cons_of_mem _ hy, fun hctx => hnodup.1 ?_⟩
        rw [hx, ← hctx]
        exact mem_map_of_mem hy
    · simp only [findIdx_cons, beq_eq_false_iff_ne.mpr hx, cond_false,
        modify_succ_cons, mem_cons] at hy
      rcases hy with rfl | hy
      · exact Or.inr ⟨mem_cons_self, hx⟩
      · simp only [any_cons, beq_eq_false_iff_ne.mpr hx, Bool.false_or] at hany
        rcases ih hnodup.2 hany hy with rfl | ⟨hmem, hne⟩
        · exact Or.inl rfl
        · exact Or.inr ⟨mem_cons_of_mem _ hmem, hne⟩

def OneEach (mem : AbstractMemory) : Prop := (mem.lockedAddrList.map LockedAddr.contextId).Nodup

lemma mem_trackLoadLocked (hone : mem.OneEach) (hl : l ∈ (mem.trackLoadLocked pkt).lockedAddrList) :
    l = ⟨lockAddr pkt, pkt.req.contextId⟩ ∨
      (l ∈ mem.lockedAddrList ∧ l.contextId ≠ pkt.req.contextId) := by
  rw [trackLoadLocked] at hl
  split_ifs at hl with hany
  · exact mem_modify_findIdx hone hany hl
  · rcases mem_cons.mp hl with rfl | hl
    · exact Or.inl rfl
    · refine Or.inr ⟨hl, fun hctx => hany ?_⟩
      exact any_eq_true.mpr ⟨l, hl, beq_iff_eq.mpr hctx⟩

lemma OneEach.trackLoadLocked (hone : mem.OneEach) (pkt : Packet) :
    (mem.trackLoadLocked pkt).OneEach := by
  rw [OneEach, AbstractMemory.trackLoadLocked]
  split_ifs with hany
  · -- only addresses change
    have hmap : ∀ (l : List LockedAddr) (n paddr : ℕ),
        (l.modify n fun x => { x with addr := paddr }).map LockedAddr.contextId =
          l.map LockedAddr.contextId := by
      intro l n paddr
      induction l generalizing n with
      | nil => cases n <;> rfl
      | cons x l ih => cases n <;> simp [ih]
    rw [hmap]
    exact hone
  · refine nodup_cons.mpr ⟨fun hmem => hany ?_, hone⟩
    obtain ⟨l, hl, hctx⟩ := mem_map.mp hmem
    exact any_eq_true.mpr ⟨l, hl, beq_iff_eq.mpr hctx⟩

lemma writeOK_fst : (mem.writeOK pkt).1 = (!pkt.isLLSC || mem.lockedAddrList.any fun l =>
      l.addr == lockAddr pkt && l.contextId == pkt.req.contextId) := by
  unfold writeOK checkLockedAddrList
  by_cases hempty : mem.lockedAddrList = []
  · simp [hempty]
  · simp [hempty]

lemma lockedAddrList_writeOK : (mem.writeOK pkt).2.1.lockedAddrList =
      if (mem.writeOK pkt).1 then mem.lockedAddrList.filter fun l => l.addr != lockAddr pkt
      else mem.lockedAddrList := by
  unfold writeOK checkLockedAddrList
  by_cases hempty : mem.lockedAddrList = []
  · simp [hempty]
  · simp [hempty]

lemma extraData_writeOK (mem : AbstractMemory) (hllsc : pkt.isLLSC = true) :
    (mem.writeOK pkt).2.2.req.extraData = if (mem.writeOK pkt).1 then 1 else 0 := by
  unfold writeOK checkLockedAddrList
  by_cases hempty : mem.lockedAddrList = []
  · simp [hempty, hllsc]
  · simp [hempty, hllsc]

lemma mem_writeOK (hl : l ∈ (mem.writeOK pkt).2.1.lockedAddrList) :
    l ∈ mem.lockedAddrList ∧ ((mem.writeOK pkt).1 = true → l.addr ≠ lockAddr pkt) := by
  rw [lockedAddrList_writeOK] at hl
  split_ifs at hl with hok
  · obtain ⟨hmem, hne⟩ := mem_filter.mp hl
    exact ⟨hmem, fun _ => by simpa using hne⟩
  · exact ⟨hl, fun h => absurd h hok⟩

lemma OneEach.writeOK (hone : mem.OneEach) (pkt : Packet) : (mem.writeOK pkt).2.1.OneEach := by
  rw [OneEach, lockedAddrList_writeOK]
  split_ifs
  · exact hone.sublist (filter_sublist.map _)
  · exact hone

lemma mem_of_writeOK (hllsc : pkt.isLLSC = true) (hok : (mem.writeOK pkt).1 = true) :
    ⟨lockAddr pkt, pkt.req.contextId⟩ ∈ mem.lockedAddrList := by
  rw [writeOK_fst, hllsc, Bool.not_true, Bool.false_or] at hok
  obtain ⟨l, hl, heq⟩ := any_eq_true.mp hok
  simp only [Bool.and_eq_true, beq_iff_eq] at heq
  rwa [← heq.1, ← heq.2]

lemma lockedAddrList_afterStore :
    (mem.afterStore pkt).lockedAddrList = (mem.writeOK pkt).2.1.lockedAddrList := by
  rw [afterStore]
  split_ifs <;> rfl

/-- The memory and its packets, each with the memory it found; no records at the start. -/
inductive AccessRun (condition : AbstractMemory → Packet → Prop) :
    List (AbstractMemory × Packet) → AbstractMemory → Prop
  | start (mem : AbstractMemory) (h : mem.lockedAddrList = []) : AccessRun condition [] mem
  | access {past : List (AbstractMemory × Packet)} {mem mem' : AbstractMemory} {pkt pkt' : Packet}
      (h : AccessRun condition past mem) (hcondition : condition mem pkt)
      (haccess : mem.access pkt = some (mem', pkt')) :
      AccessRun condition (past ++ [(mem, pkt)]) mem'

/-- The context's latest load-locked was to the granule, not written since. -/
def Backed (past : List (AbstractMemory × Packet)) (l : LockedAddr) : Prop :=
  ∃ before x since, past = before ++ x :: since ∧
    x.2.isLoadLocked = true ∧ x.2.req.contextId = l.contextId ∧ lockAddr x.2 = l.addr ∧
    ∀ y ∈ since, ¬ (y.2.isLoadLocked = true ∧ y.2.req.contextId = l.contextId) ∧
      ∀ a, LockedAddr.mask a = l.addr → ¬ y.1.Written y.2 a

/-- The packet writes a reserved granule only as a store to an address of it. -/
def RespectsRecords (mem : AbstractMemory) (pkt : Packet) : Prop :=
  ∀ l ∈ mem.lockedAddrList, ∀ a, LockedAddr.mask a = l.addr → mem.Written pkt a →
    pkt.isStore = true ∧ lockAddr pkt = l.addr

lemma Backed.snoc (h : Backed past l)
    (hload : ¬ (pkt.isLoadLocked = true ∧ pkt.req.contextId = l.contextId))
    (hwritten : ∀ a, LockedAddr.mask a = l.addr → ¬ mem.Written pkt a) :
    Backed (past ++ [(mem, pkt)]) l := by
  obtain ⟨before, x, since, rfl, hx, hctx, haddr, hsince⟩ := h
  refine ⟨before, x, since ++ [(mem, pkt)], by simp, hx, hctx, haddr, fun y hy => ?_⟩
  rcases mem_snoc.mp hy with hy | rfl
  · exact hsince y hy
  · exact ⟨hload, hwritten⟩

/-- No byte of the granule is written but by a store to it. -/
lemma RespectsRecords.not_written (h : mem.RespectsRecords pkt) (hl : l ∈ mem.lockedAddrList)
    (hstore : pkt.isStore = true → (mem.writeOK pkt).1 = true → l.addr ≠ lockAddr pkt)
    (ha : LockedAddr.mask a = l.addr) : ¬ mem.Written pkt a := by
  intro hwritten
  obtain ⟨hs, haddr⟩ := h l hl a ha hwritten
  exact hstore hs (hwritten.2.1 hs) haddr.symm

/-- **Every record is backed**, one a context at most. -/
lemma AccessRun.backed (h : AccessRun RespectsRecords past mem) :
    mem.OneEach ∧ ∀ l ∈ mem.lockedAddrList, Backed past l := by
  induction h with
  | start mem hnil => simp [OneEach, hnil]
  | @access past mem mem' pkt pkt' h hcondition haccess ih =>
    obtain ⟨hone, hbacked⟩ := ih
    rcases access_cases haccess with ⟨hrow, rfl⟩ | ⟨hswap, rfl⟩ | ⟨hload, rfl⟩ |
      ⟨hstore, rfl, -⟩ | ⟨hstore, hload, rfl⟩
    · -- a row op: the records stay, and none of their granules is in the row
      have hload : pkt.isLoadLocked = false := by simp [Packet.isLoadLocked, hrow.1]
      have hstore : pkt.isStore = false := by simp [Packet.isStore, hrow.1]
      refine ⟨hone, fun l hl => (hbacked l hl).snoc (by simp [hload]) fun a ha => ?_⟩
      exact hcondition.not_written hl (by simp [hstore]) ha
    · simp only [Packet.isSwap, Bool.and_eq_true, beq_iff_eq] at hswap
      have hload : pkt.isLoadLocked = false := by simp [Packet.isLoadLocked, hswap.2]
      have hstore : pkt.isStore = false := by simp [Packet.isStore, hswap.2]
      refine ⟨hone, fun l hl => (hbacked l hl).snoc (by simp [hload]) fun a ha => ?_⟩
      exact hcondition.not_written hl (by simp [hstore]) ha
    · -- a load-locked: its record is new, the other contexts keep theirs
      have hstore : pkt.isStore = false := by
        simp only [Packet.isLoadLocked, Bool.and_eq_true] at hload
        simp [Packet.isStore, hload.1.2]
      refine ⟨hone.trackLoadLocked pkt, fun l hl => ?_⟩
      rcases mem_trackLoadLocked hone hl with rfl | ⟨hl, hctx⟩
      · exact ⟨past, (mem, pkt), [], rfl, hload, rfl, rfl, by simp⟩
      · refine (hbacked l hl).snoc (fun h => hctx h.2.symm) fun a ha => ?_
        exact hcondition.not_written hl (by simp [hstore]) ha
    · have hload : pkt.isLoadLocked = false := by
        simp only [Packet.isStore, Bool.and_eq_true, Bool.not_eq_true'] at hstore
        simp [Packet.isLoadLocked, hstore.1.1.2]
      refine ⟨?_, fun l hl => ?_⟩
      · rw [OneEach, lockedAddrList_afterStore]
        exact hone.writeOK pkt
      · rw [lockedAddrList_afterStore] at hl
        obtain ⟨hl, hne⟩ := mem_writeOK hl
        refine (hbacked l hl).snoc (by simp [hload]) fun a ha => ?_
        exact hcondition.not_written hl (fun _ => hne) ha
    · refine ⟨hone, fun l hl => (hbacked l hl).snoc (by simp [hload]) fun a ha => ?_⟩
      exact hcondition.not_written hl (by simp [hstore]) ha

/-! ### Store-conditionals -/

/-- **A store-conditional that succeeds is backed**: in a run whose packets respect the records, its
context's latest load-locked was to the same granule, and no byte of it has been written since. -/
theorem storeCond_backed {past : List (AbstractMemory × Packet)} {sc sc' : Packet}
    (hrun : AccessRun RespectsRecords past mem) (hsc : sc.isStoreCond = true)
    (haccess : mem.access sc = some (mem', sc')) (hsuccess : sc'.req.extraData = 1) :
    Backed past ⟨lockAddr sc, sc.req.contextId⟩ := by
  obtain ⟨hstore, hllsc⟩ := Bool.and_eq_true_iff.mp hsc
  have hextra : sc'.req.extraData = (mem.writeOK sc).2.2.req.extraData := by
    have hload : sc.isLoadLocked = false := by
      simp only [Packet.isStore, Bool.and_eq_true, Bool.not_eq_true'] at hstore
      simp [Packet.isLoadLocked, hstore.1.1.2]
    rcases access_cases haccess with ⟨hrow, -⟩ | ⟨hswap, -⟩ | ⟨hload', -⟩ | ⟨-, -, h⟩ | ⟨h, -⟩
    · simp [Packet.isStore, hrow.1] at hstore
    · simp only [Packet.isSwap, Bool.and_eq_true, beq_iff_eq] at hswap
      simp [Packet.isStore, hswap.2] at hstore
    · rw [hload] at hload'
      cases hload'
    · exact h
    · rw [hstore] at h
      cases h
  have hok : (mem.writeOK sc).1 = true := by
    by_contra hno
    rw [extraData_writeOK mem hllsc, if_neg hno] at hextra
    omega
  exact hrun.backed.2 _ (mem_of_writeOK hllsc hok)

def zeroed : AbstractMemory := ⟨0, 0xffff, 4096, fun _ => 0#8, []⟩

/-- A packet of context `ctx` at `addr`. -/
def packetAt (cmd : MemCmd) (ctx addr : ℕ) (data : List (BitVec 8)) : Packet :=
  { cmd := cmd, req := ⟨addr, some addr, data.length, 0#32, ctx, 0⟩, addr := addr
    size := data.length, memInhibit := false, data := data, rowOp := ⟨.rowAnd, 0, 0, 0⟩ }

/-- Context 0's load-locked and store-conditional at 256. -/
def lockAt256 : Packet := packetAt .loadLockedReq 0 256 [0#8]
def condAt256 : Packet := packetAt .storeCondReq 0 256 [1#8]

def accessed (mem : AbstractMemory) (pkt : Packet) : AbstractMemory :=
  ((mem.access pkt).map Prod.fst).getD mem

lemma access_eq_accessed (mem : AbstractMemory) (pkt : Packet)
    (h : (mem.access pkt).isSome = true) :
    ∃ pkt', mem.access pkt = some (mem.accessed pkt, pkt') := by
  obtain ⟨r, hr⟩ := isSome_iff_exists.mp h
  exact ⟨r.2, by simp [accessed, hr]⟩

/-- Context 1 writes next to the granule of context 0. -/
theorem byteAt_access_next : ((zeroed.accessed lockAt256).accessed
    (packetAt .writeReq 1 272 [7#8])).byteAt 256 = (zeroed.accessed lockAt256).byteAt 256 := by
  obtain ⟨_, h⟩ := access_eq_accessed (zeroed.accessed lockAt256) (packetAt .writeReq 1 272 [7#8])
    (by decide)
  refine byteAt_access h ?_
  rintro ⟨⟨hrow, -⟩ | ⟨-, hle, -⟩, -⟩
  · exact absurd hrow.1 (by decide)
  · exact absurd hle (by decide)

lemma accessRun_lockThen {condition : AbstractMemory → Packet → Prop} {pkt : Packet}
    (hlock : condition zeroed lockAt256) (hpkt : condition (zeroed.accessed lockAt256) pkt)
    (haccess : ((zeroed.accessed lockAt256).access pkt).isSome = true) :
    AccessRun condition [(zeroed, lockAt256), (zeroed.accessed lockAt256, pkt)]
      ((zeroed.accessed lockAt256).accessed pkt) := by
  obtain ⟨_, h₁⟩ := access_eq_accessed zeroed lockAt256 (by decide)
  obtain ⟨_, h₂⟩ := access_eq_accessed _ pkt haccess
  exact ((AccessRun.start zeroed rfl).access hlock h₁).access hpkt h₂

/-- Context 1 stores next to the granule; the store-conditional succeeds. -/
theorem storeCond_backed_lock256 : Backed [(zeroed, lockAt256),
      (zeroed.accessed lockAt256, packetAt .writeReq 1 272 [7#8])] ⟨256, 0⟩ := by
  obtain ⟨_, h⟩ := access_eq_accessed ((zeroed.accessed lockAt256).accessed
    (packetAt .writeReq 1 272 [7#8])) condAt256 (by decide)
  have hrun : AccessRun RespectsRecords [(zeroed, lockAt256),
      (zeroed.accessed lockAt256, packetAt .writeReq 1 272 [7#8])]
      ((zeroed.accessed lockAt256).accessed (packetAt .writeReq 1 272 [7#8])) := by
    refine accessRun_lockThen (fun l hl => absurd hl not_mem_nil) ?_ (by decide)
    intro l hl a ha hfoot
    have hlist : (zeroed.accessed lockAt256).lockedAddrList = [⟨256, 0⟩] := rfl
    rw [hlist, mem_singleton] at hl
    subst hl
    rcases hfoot with ⟨hrow, -⟩ | ⟨-, hle, -⟩
    · exact absurd hrow.1 (by decide)
    · change 272 ≤ a at hle
      change a / 16 * 16 = 256 at ha
      omega
  have hsuccess : (((zeroed.accessed lockAt256).accessed
      (packetAt .writeReq 1 272 [7#8])).access condAt256).map (fun r => r.2.req.extraData) =
        some 1 := by decide
  rw [h, map_some, some.injEq] at hsuccess
  exact storeCond_backed hrun (by decide) h hsuccess

lemma not_backed_of_written {x y : AbstractMemory × Packet}
    (hload : y.2.isLoadLocked = false) (ha : LockedAddr.mask a = l.addr)
    (hwritten : y.1.Written y.2 a) : ¬ Backed [x, y] l := by
  rintro ⟨before, z, since, heq, hz, -, -, hsince⟩
  match before, heq with
  | [], heq =>
    obtain ⟨-, rfl⟩ := cons.inj heq
    exact (hsince y mem_cons_self).2 a ha hwritten
  | [w], heq =>
    obtain ⟨rfl, -⟩ := cons.inj (cons.inj heq).2
    rw [hload] at hz
    cases hz
  | w :: w' :: _, heq => simp at heq

/-- The packet in between writes the granule, unseen by the store-conditional. -/
def Unseen (pkt : Packet) : Prop :=
  AccessRun (fun _ _ => True) [(zeroed, lockAt256), (zeroed.accessed lockAt256, pkt)]
      ((zeroed.accessed lockAt256).accessed pkt) ∧
    condAt256.isStoreCond = true ∧
    (((zeroed.accessed lockAt256).accessed pkt).access condAt256).map
      (fun r => r.2.req.extraData) = some 1 ∧
    ¬ Backed [(zeroed, lockAt256), (zeroed.accessed lockAt256, pkt)]
      ⟨lockAddr condAt256, condAt256.req.contextId⟩

lemma unseen_of_written {pkt : Packet}
    (haccess : ((zeroed.accessed lockAt256).access pkt).isSome = true)
    (hsuccess : (((zeroed.accessed lockAt256).accessed pkt).access condAt256).map
      (fun r => r.2.req.extraData) = some 1)
    (hload : pkt.isLoadLocked = false) (hwritten : (zeroed.accessed lockAt256).Written pkt 256) :
    Unseen pkt :=
  ⟨accessRun_lockThen trivial trivial haccess, by decide, hsuccess,
    not_backed_of_written (a := 256) hload rfl hwritten⟩

/-- After a row op on the granule's row, a swap of it, or a store running on into it, the
store-conditional succeeds. -/
theorem storeCond_after_write :
    Unseen (.ofRowOp ⟨.rowNot, 0, 8192, 0⟩) ∧ Unseen (packetAt .swapReq 1 256 [7#8]) ∧
      Unseen (packetAt .writeReq 1 255 [7#8, 8#8]) := by
  refine ⟨unseen_of_written (by decide) (by decide) (by decide) ?_,
    unseen_of_written (by decide) (by decide) (by decide) ?_,
    unseen_of_written (by decide) (by decide) (by decide) ?_⟩
  · exact ⟨Or.inl ⟨Packet.performsRowOp_ofRowOp _, by decide, by decide, by decide⟩,
      by decide, by decide⟩
  · exact ⟨Or.inr ⟨Or.inr (by decide), by decide, by decide⟩, by decide, by decide⟩
  · exact ⟨Or.inr ⟨Or.inl (by decide), by decide, by decide⟩, by decide, by decide⟩

end AbstractMemory

end ShifDram
