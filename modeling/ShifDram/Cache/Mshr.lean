import ShifDram.Mem.Packet

/-!
Miss status and handling registers (`mem/cache/mshr.hh`, `mem/cache/mshr.cc`).

A register holds one request to the memory side and the packets that wait for the answer: the
`targets` of the request itself, and the `deferredTargets` for which another has to follow. The
same registers serve the misses and the write buffer. `downstreamPending` is a field; its
propagation to the caches above is not modelled.
-/

namespace ShifDram

open List

inductive TargetSource where
  | fromCPU | fromSnoop | fromPrefetcher
  deriving DecidableEq, Repr

structure Target where
  readyTime : ℕ
  order : ℕ
  pkt : Packet
  source : TargetSource
  deriving DecidableEq, Repr

/-- `replaceUpgrade`: the sender's copy is gone. -/
def Packet.replaceUpgrade (pkt : Packet) : Packet :=
  if pkt.cmd = .upgradeReq then { pkt with cmd := .readExReq }
  else if pkt.cmd = .scUpgradeReq then { pkt with cmd := .scUpgradeFailReq }
  else if pkt.cmd = .storeCondReq then { pkt with cmd := .storeCondFailReq }
  else pkt

/-- `MSHR::TargetList`: targets and two flags about them. -/
structure TargetList where
  list : List Target
  needsExclusive : Bool
  hasUpgrade : Bool
  deriving DecidableEq, Repr

namespace TargetList

def empty : TargetList := ⟨[], false, false⟩

def resetFlags (l : TargetList) : TargetList :=
  { l with needsExclusive := false, hasUpgrade := false }

def isReset (l : TargetList) : Bool := !l.needsExclusive && !l.hasUpgrade

def add (l : TargetList) (pkt : Packet) (readyTime order : ℕ) (source : TargetSource) :
    TargetList :=
  { list := l.list ++ [⟨readyTime, order, pkt, source⟩]
    needsExclusive := l.needsExclusive || (source != .fromSnoop && pkt.needsExclusive)
    hasUpgrade := l.hasUpgrade ||
      (source != .fromSnoop && (pkt.isUpgrade || pkt.cmd == .storeCondReq)) }

def replaceUpgrades (l : TargetList) : TargetList :=
  if l.hasUpgrade then
    { l with list := l.list.map fun t => { t with pkt := t.pkt.replaceUpgrade }
             hasUpgrade := false }
  else l

def orders (l : TargetList) : List ℕ := l.list.map Target.order

/-- The arrival numbers of the targets that are requests. -/
def requests (l : TargetList) : List ℕ :=
  (l.list.filter fun t => t.source != .fromSnoop).map Target.order

section

variable (l : TargetList)

include l

lemma requests_subset_orders : l.requests ⊆ l.orders :=
  map_subset _ (filter_subset_self _)

@[simp] lemma orders_replaceUpgrades : l.replaceUpgrades.orders = l.orders := by
  rw [replaceUpgrades]
  split_ifs
  · simp [orders]
  · rfl

@[simp] lemma requests_replaceUpgrades : l.replaceUpgrades.requests = l.requests := by
  rw [replaceUpgrades]
  split_ifs
  · simp [requests, filter_map, Function.comp_def]
  · rfl

lemma requests_add (pkt : Packet) (readyTime order : ℕ) {source : TargetSource}
    (hsource : source ≠ .fromSnoop) :
    (l.add pkt readyTime order source).requests = l.requests ++ [order] := by
  simp [requests, add, filter_append, hsource]

lemma requests_add_fromSnoop (pkt : Packet) (readyTime order : ℕ) :
    (l.add pkt readyTime order .fromSnoop).requests = l.requests := by
  simp [requests, add, filter_append]

lemma orders_add (pkt : Packet) (readyTime order : ℕ) (source : TargetSource) :
    (l.add pkt readyTime order source).orders = l.orders ++ [order] := by
  simp [orders, add]

end

end TargetList

/-! ### Registers -/

structure MSHR where
  readyTime : ℕ
  order : ℕ
  blkAddr : ℕ
  isSecure : Bool
  isUncacheable : Bool
  inService : Bool
  isForward : Bool
  downstreamPending : Bool
  pendingDirty : Bool
  postInvalidate : Bool
  postDowngrade : Bool
  targets : TargetList
  deferredTargets : TargetList
  deriving DecidableEq, Repr

namespace MSHR

variable (m : MSHR) (fills : List Packet) (pkt : Packet) (now order : ℕ)

def unused : MSHR :=
  ⟨0, 0, 0, false, false, false, false, false, false, false, false, .empty, .empty⟩

def getNumTargets : ℕ := m.targets.list.length + m.deferredTargets.list.length

def popTarget : MSHR := { m with targets := { m.targets with list := m.targets.list.tail } }

def isForwardNoResponse : Bool :=
  m.getNumTargets == 1 &&
    m.targets.list.head?.any fun t => t.source == .fromCPU && !t.pkt.needsResponse

/-- The source of the packet a register is allocated for. -/
def sourceOf : TargetSource :=
  if pkt.cmd = .hardPFReq then .fromPrefetcher else .fromCPU

lemma sourceOf_ne_fromSnoop : sourceOf pkt ≠ .fromSnoop := by
  rw [sourceOf]
  split_ifs <;> decide

/-- `allocate`; `none` is a failed assertion. -/
def allocate (blkAddr : ℕ) (target : Packet) (whenReady order : ℕ) : Option MSHR :=
  if m.targets.isReset && m.deferredTargets.isReset then
    some { m with
      readyTime := whenReady
      order := order
      blkAddr := blkAddr
      isSecure := target.isSecure
      isUncacheable := target.req.isUncacheable
      inService := false
      isForward := false
      downstreamPending := false
      targets := m.targets.add target whenReady order (sourceOf target) }
  else none

/-- `markInService`: whether to free the register; `none` is a failed assertion. -/
def markInService (pendingDirtyResp : Bool) : Option (MSHR × Bool) :=
  if m.inService then none
  else if m.isForwardNoResponse then some (m.popTarget, true)
  else
    some ({ m with
      inService := true
      pendingDirty := m.targets.needsExclusive || pendingDirtyResp
      postInvalidate := false
      postDowngrade := false }, false)

/-- `deallocate`; `none` is a failed assertion. -/
def deallocate : Option MSHR :=
  if m.targets.list.isEmpty && m.deferredTargets.isReset then
    some { m with targets := m.targets.resetFlags, inService := false }
  else none

/-- A new target has to wait for a request of its own. -/
def mustDefer : Bool :=
  m.inService &&
    (!m.deferredTargets.list.isEmpty || m.postInvalidate ||
      (pkt.needsExclusive && (!m.pendingDirty || m.postDowngrade || m.isForward)))

/-- `allocateTarget`; `none` is a failed assertion. -/
def allocateTarget (whenReady order : ℕ) : Option MSHR :=
  if pkt.cmd = .hardPFReq ∨ m.isUncacheable = true then none
  else if m.mustDefer pkt then
    let pkt := if m.postInvalidate then pkt.replaceUpgrade else pkt
    some { m with deferredTargets := m.deferredTargets.add pkt whenReady order .fromCPU }
  else some { m with targets := m.targets.add pkt whenReady order .fromCPU }

def copyOfSnoop : Packet :=
  { pkt with memInhibit := false, shared := false, expressSnoop := false,
             supplyExclusive := false, data := [] }

/-- `handleSnoop` where it saves a snoop for replay. -/
def saveSnoop : MSHR × Packet :=
  ({ m with
      targets := m.targets.add (copyOfSnoop pkt) now order .fromSnoop
      postInvalidate := m.postInvalidate || pkt.needsExclusive },
    if m.pendingDirty then { pkt with memInhibit := true, supplyExclusive := true } else pkt)

/-- `handleSnoop` of a snoop after the request. -/
def snoopAfter : MSHR × Packet :=
  if m.postInvalidate then (m, pkt)
  else
    let saved := if m.pendingDirty || pkt.isInvalidate then m.saveSnoop pkt now order else (m, pkt)
    if !pkt.needsExclusive && !pkt.req.isUncacheable then
      ({ saved.1 with postDowngrade := true }, { saved.2 with shared := true })
    else saved

/-- `handleSnoop`: the register, the snoop, and if it comes after the request. -/
def handleSnoop : MSHR × Packet × Bool :=
  if !m.inService || (pkt.expressSnoop && m.downstreamPending) then
    if pkt.needsExclusive then
      ({ m with targets := m.targets.replaceUpgrades,
                deferredTargets := m.deferredTargets.replaceUpgrades }, pkt, false)
    else (m, pkt, false)
  else
    let m := if pkt.needsExclusive then
      { m with deferredTargets := m.deferredTargets.replaceUpgrades } else m
    ((m.snoopAfter pkt now order).1, (m.snoopAfter pkt now order).2, true)

/-- `promoteDeferredTargets`: `none` if there are none; `targets` is asserted empty. -/
def promoteDeferredTargets : Option MSHR :=
  match m.deferredTargets.list with
  | [] => none
  | t :: _ =>
    some { m with
      targets := m.deferredTargets
      deferredTargets := m.targets.resetFlags
      order := t.order
      readyTime := max now t.readyTime }

/-- `handleFill`: an exclusive answer serves the deferred targets too. -/
def handleFill : MSHR :=
  if !pkt.shared && !(m.postInvalidate || m.postDowngrade) && m.deferredTargets.needsExclusive then
    { m with
      targets := { m.targets with
        needsExclusive := true, list := m.targets.list ++ m.deferredTargets.list }
      deferredTargets := .empty }
  else m

/-! ### Arrivals -/

/-- The arrival numbers of a register, its requests and the deferred targets. -/
def stamps : List ℕ := m.order :: (m.targets.requests ++ m.deferredTargets.orders)

lemma mem_stamps {m : MSHR} {o : ℕ} :
    o ∈ m.stamps ↔ o = m.order ∨ o ∈ m.targets.requests ∨ o ∈ m.deferredTargets.orders := by
  rw [stamps, mem_cons, mem_append]

/-- `m'` is `m` at a later time, with no new arrival. -/
structure Follows (m m' : MSHR) : Prop where
  blkAddr : m'.blkAddr = m.blkAddr
  isSecure : m'.isSecure = m.isSecure
  stamps : ∀ o ∈ m'.stamps, o ∈ m.stamps
  deferred : m.deferredTargets.list = [] → m'.deferredTargets.list = []

lemma Follows.refl : m.Follows m := ⟨rfl, rfl, fun _ ho => ho, fun h => h⟩

lemma Follows.trans {m₁ m₂ m₃ : MSHR} (h : m₁.Follows m₂) (h' : m₂.Follows m₃) : m₁.Follows m₃ :=
  ⟨h'.blkAddr.trans h.blkAddr, h'.isSecure.trans h.isSecure,
    fun o ho => h.stamps o (h'.stamps o ho), fun hd => h'.deferred (h.deferred hd)⟩

lemma Follows.of_targets {m m' : MSHR} (hblk : m'.blkAddr = m.blkAddr)
    (hsec : m'.isSecure = m.isSecure) (horder : m'.order = m.order)
    (htargets : m'.targets.requests ⊆ m.targets.requests)
    (hdeferred : m'.deferredTargets.orders ⊆ m.deferredTargets.orders) : m.Follows m' := by
  refine ⟨hblk, hsec, fun o ho => mem_stamps.mpr ?_, fun hd => ?_⟩
  · rcases mem_stamps.mp ho with rfl | ho | ho
    · exact .inl horder
    · exact .inr (.inl (htargets ho))
    · exact .inr (.inr (hdeferred ho))
  · rw [TargetList.orders, TargetList.orders, hd] at hdeferred
    exact map_eq_nil_iff.mp (subset_nil.mp hdeferred)

lemma follows_popTarget : m.Follows m.popTarget := by
  refine .of_targets rfl rfl rfl ?_ (List.Subset.refl _)
  exact map_subset _ (filter_subset _ (tail_subset _))

lemma follows_markInService {m m' : MSHR} {dirty done : Bool}
    (h : m.markInService dirty = some (m', done)) : m.Follows m' := by
  rw [markInService] at h
  split_ifs at h
  · cases h
    exact m.follows_popTarget
  · cases h
    exact .of_targets rfl rfl rfl (List.Subset.refl _) (List.Subset.refl _)

lemma follows_saveSnoop : m.Follows (m.saveSnoop pkt now order).1 := by
  refine .of_targets rfl rfl rfl ?_ (List.Subset.refl _)
  rw [saveSnoop, TargetList.requests_add_fromSnoop]
  exact List.Subset.refl _

lemma follows_snoopAfter : m.Follows (m.snoopAfter pkt now order).1 := by
  rw [snoopAfter]
  split_ifs
  · exact .refl m
  · exact (m.follows_saveSnoop pkt now order).trans (.of_targets rfl rfl rfl (by simp) (by simp))
  · exact m.follows_saveSnoop pkt now order
  · exact .of_targets rfl rfl rfl (by simp) (by simp)
  · exact .refl m

lemma follows_handleSnoop : m.Follows (m.handleSnoop pkt now order).1 := by
  rw [handleSnoop]
  split_ifs
  · exact .of_targets rfl rfl rfl (by simp) (by simp)
  · exact .refl m
  · have hreplace : m.Follows { m with deferredTargets := m.deferredTargets.replaceUpgrades } :=
      .of_targets rfl rfl rfl (by simp) (by simp)
    exact hreplace.trans (follows_snoopAfter _ pkt now order)
  · exact m.follows_snoopAfter pkt now order

lemma handleSnoop_inService : (m.handleSnoop pkt now order).1.inService = m.inService ∧
      (m.handleSnoop pkt now order).1.readyTime = m.readyTime := by
  have hafter : ∀ m : MSHR, (m.snoopAfter pkt now order).1.inService = m.inService ∧
      (m.snoopAfter pkt now order).1.readyTime = m.readyTime := fun m => by
    rw [snoopAfter]
    split_ifs <;> exact ⟨rfl, rfl⟩
  rw [handleSnoop]
  split_ifs
  · exact ⟨rfl, rfl⟩
  · exact ⟨rfl, rfl⟩
  · exact hafter _
  · exact hafter m

lemma follows_promoteDeferredTargets {m m' : MSHR} {now : ℕ}
    (h : m.promoteDeferredTargets now = some m') (hempty : m.targets.list = []) :
    m.Follows m' := by
  rw [promoteDeferredTargets] at h
  cases hlist : m.deferredTargets.list with
  | nil => rw [hlist] at h; cases h
  | cons t l =>
    rw [hlist] at h
    cases h
    refine ⟨rfl, rfl, fun o ho => mem_stamps.mpr (.inr (.inr ?_)), fun _ => hempty⟩
    rcases mem_stamps.mp ho with rfl | ho | ho
    · rw [TargetList.orders, hlist]
      exact mem_cons_self
    · exact TargetList.requests_subset_orders _ ho
    · rw [TargetList.orders, TargetList.resetFlags, hempty] at ho
      exact absurd ho not_mem_nil

lemma follows_handleFill : m.Follows (m.handleFill pkt) := by
  rw [handleFill]
  split_ifs
  · refine ⟨rfl, rfl, fun o ho => mem_stamps.mpr ?_, fun _ => rfl⟩
    rcases mem_stamps.mp ho with rfl | ho | ho
    · exact .inl rfl
    · rw [TargetList.requests, filter_append, map_append, mem_append] at ho
      exact .inr (ho.imp_right fun ho => TargetList.requests_subset_orders _ ho)
    · exact absurd ho not_mem_nil
  · exact .refl m

/-- `recvTimingResp` on the register: fills, then every target popped. -/
def serve : MSHR :=
  let m := fills.foldl handleFill m
  { m with targets := { m.targets with list := [] } }

lemma follows_serve : m.Follows (m.serve fills) := by
  have hfills : m.Follows (fills.foldl handleFill m) := by
    induction fills generalizing m with
    | nil => exact .refl m
    | cons pkt fills ih => exact (m.follows_handleFill pkt).trans (ih _)
  exact hfills.trans (.of_targets rfl rfl rfl (nil_subset _) (List.Subset.refl _))

lemma markInService_inService {m m' : MSHR} {dirty done : Bool}
    (h : m.markInService dirty = some (m', done)) :
    m.inService = false ∧ m'.inService = !done ∧ (done = true → m' = m.popTarget) := by
  rw [markInService] at h
  split_ifs at h with hin
  · cases h
    exact ⟨by simpa using hin, by simpa [popTarget] using hin, fun _ => rfl⟩
  · cases h
    exact ⟨by simpa using hin, rfl, fun h => absurd h (by decide)⟩

lemma serve_inService : (m.serve fills).inService = m.inService := by
  have hfill : ∀ (m : MSHR) (pkt : Packet), (m.handleFill pkt).inService = m.inService :=
    fun m pkt => by rw [handleFill]; split_ifs <;> rfl
  induction fills generalizing m with
  | nil => rfl
  | cons pkt fills ih => exact (ih (m.handleFill pkt)).trans (hfill m pkt)

lemma promoteDeferredTargets_spec {m m' : MSHR} {now : ℕ} (hempty : m.targets.list = [])
    (h : m.promoteDeferredTargets now = some m') :
    m'.inService = m.inService ∧ m'.deferredTargets.list = [] ∧ m.deferredTargets.list ≠ [] := by
  rw [promoteDeferredTargets] at h
  cases hlist : m.deferredTargets.list with
  | nil => rw [hlist] at h; cases h
  | cons t l =>
    rw [hlist] at h
    cases h
    exact ⟨rfl, hempty, cons_ne_nil t l⟩

lemma mem_stamps_allocateTarget {m m' : MSHR} {pkt : Packet} {whenReady order : ℕ}
    (h : m.allocateTarget pkt whenReady order = some m') :
    m'.blkAddr = m.blkAddr ∧ m'.isSecure = m.isSecure ∧
      ∀ o ∈ m'.stamps, o = order ∨ o ∈ m.stamps := by
  simp only [mem_stamps]
  rw [allocateTarget] at h
  by_cases hassert : pkt.cmd = .hardPFReq ∨ m.isUncacheable = true
  · rw [if_pos hassert] at h
    cases h
  · split_ifs at h <;> obtain rfl := Option.some.inj h <;> refine ⟨rfl, rfl, fun o ho => ?_⟩
    all_goals
      simp only [TargetList.orders_add, mem_append, mem_singleton,
        TargetList.requests_add _ _ _ _ (show TargetSource.fromCPU ≠ .fromSnoop by decide)] at ho
      tauto

lemma allocateTarget_of_pending {m m' : MSHR} {pkt : Packet} {whenReady order : ℕ}
    (h : m.allocateTarget pkt whenReady order = some m') :
    m'.inService = m.inService ∧ m'.readyTime = m.readyTime ∧
      (m.inService = false → m'.deferredTargets = m.deferredTargets) := by
  rw [allocateTarget] at h
  by_cases hassert : pkt.cmd = .hardPFReq ∨ m.isUncacheable = true
  · rw [if_pos hassert] at h
    cases h
  · rw [if_neg hassert] at h
    by_cases hdefer : m.mustDefer pkt = true
    · rw [if_pos hdefer] at h
      cases h
      refine ⟨rfl, rfl, fun hin => ?_⟩
      rw [mustDefer, hin, Bool.false_and] at hdefer
      cases hdefer
    · rw [if_neg hdefer] at h
      cases h
      exact ⟨rfl, rfl, fun _ => rfl⟩

/-- A register just allocated, with the number of its request only. -/
structure IsFresh (m : MSHR) (blk : ℕ) (target : Packet) (whenReady n : ℕ) : Prop where
  blkAddr : m.blkAddr = blk
  isSecure : m.isSecure = target.isSecure
  readyTime : m.readyTime = whenReady
  order : m.order = n
  inService : m.inService = false
  stamps : ∀ o ∈ m.stamps, o = n
  pkts : m.targets.list.map Target.pkt = [target]
  deferred : m.deferredTargets.list = []
  isReset : m.deferredTargets.isReset = true

lemma isFresh_allocate {m m' : MSHR} {blkAddr whenReady order : ℕ} {pkt : Packet}
    (h : m.allocate blkAddr pkt whenReady order = some m') (hnone : m.getNumTargets = 0) :
    m'.IsFresh blkAddr pkt whenReady order := by
  obtain ⟨ht, hd⟩ := Nat.add_eq_zero_iff.mp hnone
  rw [length_eq_zero_iff] at ht hd
  rw [allocate] at h
  split_ifs at h with hreset
  · cases h
    refine ⟨rfl, rfl, rfl, rfl, rfl, fun o ho => ?_, by simp [TargetList.add, ht], hd,
      (Bool.and_eq_true_iff.mp hreset).2⟩
    rcases mem_stamps.mp ho with rfl | ho | ho
    · rfl
    · rw [TargetList.requests_add _ _ _ _ (sourceOf_ne_fromSnoop pkt)] at ho
      simpa [TargetList.requests, ht] using ho
    · simp [TargetList.orders, hd] at ho

end MSHR

end ShifDram
