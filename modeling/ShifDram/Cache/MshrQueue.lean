import ShifDram.Queue.Timed
import ShifDram.Cache.Mshr

/-!
Queues of registers (`mem/cache/mshr_queue.hh`, `mem/cache/mshr_queue.cc`).

Of a fixed number of registers, named by their index, each is on the free or the allocated list;
an allocated one not yet sent is also on the ready list, in order of ready times.
-/

namespace ShifDram

open List Option

structure MSHRQueue where
  numEntries : ℕ
  numReserve : ℕ
  demandReserve : ℕ
  registers : ℕ → MSHR
  allocatedList : List ℕ
  readyList : List ℕ
  freeList : List ℕ
  allocated : ℕ
  inServiceEntries : ℕ

namespace MSHRQueue

def init (numEntries reserve demandReserve : ℕ) : MSHRQueue :=
  { numEntries := numEntries + reserve - 1
    numReserve := reserve
    demandReserve := demandReserve
    registers := fun _ => .unused
    allocatedList := []
    readyList := []
    freeList := List.range (numEntries + reserve - 1)
    allocated := 0
    inServiceEntries := 0 }

/-- `findMatches`: the cacheable entries for a block. -/
def findMatches (q : MSHRQueue) (blkAddr : ℕ) (isSecure : Bool) : List ℕ :=
  q.allocatedList.filter fun r => !(q.registers r).isUncacheable &&
    (q.registers r).blkAddr == blkAddr && (q.registers r).isSecure == isSecure

def findMatch (q : MSHRQueue) (blkAddr : ℕ) (isSecure : Bool) : Option ℕ :=
  (q.findMatches blkAddr isSecure).head?

/-- `findPending`: the first entry for a block not yet sent. -/
def findPending (q : MSHRQueue) (blkAddr : ℕ) (isSecure : Bool) : Option ℕ :=
  q.readyList.find? fun r =>
    (q.registers r).blkAddr == blkAddr && (q.registers r).isSecure == isSecure

def isFull (q : MSHRQueue) : Bool := q.numEntries < q.allocated + q.numReserve

def canPrefetch (q : MSHRQueue) : Bool :=
  q.allocated + (q.numReserve + q.demandReserve) < q.numEntries

/-- `getNextMSHR`: the ready list's head, if ready. -/
def getNextMSHR (q : MSHRQueue) (now : ℕ) : Option ℕ :=
  q.readyList.head?.filter fun r => (q.registers r).readyTime ≤ now

/-! ### Operations -/

def setRegister (q : MSHRQueue) (r : ℕ) (m : MSHR) : MSHRQueue :=
  { q with registers := Function.update q.registers r m }

/-- `addToReadyList`; `none` is its last assertion. -/
def addToReadyList (q : MSHRQueue) (r : ℕ) : Option MSHRQueue :=
  (Timed.add (fun r => (q.registers r).readyTime) r q.readyList).map fun l =>
    { q with readyList := l }

/-- The first free register `r` is allocated with new contents. -/
def enlist (q : MSHRQueue) (r : ℕ) (m : MSHR) : MSHRQueue :=
  { q.setRegister r m with
    freeList := q.freeList.tail
    allocatedList := q.allocatedList ++ [r]
    allocated := q.allocated + 1 }

/-- `allocate`; `none` is a failed assertion. -/
def allocate (q : MSHRQueue) (blkAddr : ℕ) (pkt : Packet) (whenReady order : ℕ) :
    Option (MSHRQueue × ℕ) :=
  match q.freeList with
  | [] => none
  | r :: _ =>
    if (q.registers r).getNumTargets = 0 then
      ((q.registers r).allocate blkAddr pkt whenReady order).bind fun m =>
        ((q.enlist r m).addToReadyList r).map fun q => (q, r)
    else none

def delist (q : MSHRQueue) (r : ℕ) (m : MSHR) : MSHRQueue :=
  { q.setRegister r m with
    allocatedList := q.allocatedList.erase r
    freeList := r :: q.freeList
    allocated := q.allocated - 1
    readyList := if (q.registers r).inService then q.readyList else q.readyList.erase r
    inServiceEntries :=
      if (q.registers r).inService then q.inServiceEntries - 1 else q.inServiceEntries }

/-- `deallocateOne`; `none` is a failed assertion. -/
def deallocate (q : MSHRQueue) (r : ℕ) : Option MSHRQueue :=
  (q.registers r).deallocate.map (q.delist r)

def serviced (q : MSHRQueue) (r : ℕ) (m : MSHR) : MSHRQueue :=
  { q.setRegister r m with
    readyList := q.readyList.erase r
    inServiceEntries := q.inServiceEntries + 1 }

/-- `markInService`; `none` is a failed assertion. -/
def markInService (q : MSHRQueue) (r : ℕ) (pendingDirtyResp : Bool) : Option MSHRQueue :=
  ((q.registers r).markInService pendingDirtyResp).bind fun x =>
    if x.2 then (q.setRegister r x.1).deallocate r
    else some (q.serviced r x.1)

/-- The register `r` is no longer in service. -/
def unserviced (q : MSHRQueue) (r : ℕ) : MSHRQueue :=
  { q.setRegister r { q.registers r with inService := false } with
    inServiceEntries := q.inServiceEntries - 1 }

/-- `markPending`; `none` is a failed assertion. -/
def markPending (q : MSHRQueue) (r : ℕ) : Option MSHRQueue :=
  if (q.registers r).inService then (q.unserviced r).addToReadyList r else none

/-- `recvTimingResp` on the queue of the register `r`. -/
def respond (q : MSHRQueue) (r : ℕ) (fills : List Packet) (now : ℕ) : Option MSHRQueue :=
  let m := (q.registers r).serve fills
  match m.promoteDeferredTargets now with
  | some m => (q.setRegister r m).markPending r
  | none => (q.setRegister r m).deallocate r

/-- `forceDeallocateTarget`; `none` is a failed assertion. -/
def forceDeallocateTarget (q : MSHRQueue) (r : ℕ) (now : ℕ) : Option MSHRQueue :=
  let m := (q.registers r).popTarget
  if (q.registers r).targets.list.isEmpty then none
  else if m.targets.list.isEmpty then
    match m.promoteDeferredTargets now with
    | some m => some (q.setRegister r m)
    | none => (q.setRegister r m).deallocate r
  else some (q.setRegister r m)

/-- The entries that wait to be sent, in ready-list order. -/
def pending (q : MSHRQueue) : List MSHR := q.readyList.map q.registers

def entries (q : MSHRQueue) : List MSHR := q.allocatedList.map q.registers

structure WellFormed (q : MSHRQueue) : Prop where
  nodup : (q.allocatedList ++ q.freeList).Nodup
  ready_nodup : q.readyList.Nodup
  mem_readyList : ∀ r, r ∈ q.readyList ↔ r ∈ q.allocatedList ∧ (q.registers r).inService = false
  inTime : Timed.InTime MSHR.readyTime q.pending
  deferred_nil : ∀ r ∈ q.readyList, (q.registers r).deferredTargets.list = []

/-- Every register is on one of the lists, and the counters count them. -/
structure Tallied (q : MSHRQueue) : Prop where
  perm : (q.allocatedList ++ q.freeList).Perm (List.range q.numEntries)
  allocated : q.allocated = q.allocatedList.length
  inService : q.inServiceEntries = q.entries.countP MSHR.inService

/-- Every entry of `q'` is one of `q` at a later time. -/
def Descends (q q' : MSHRQueue) : Prop := ∀ m ∈ q'.entries, ∃ m₀ ∈ q.entries, m₀.Follows m

variable {q q' : MSHRQueue} {r : ℕ} {m : MSHR} {isSecure : Bool} {blkAddr : ℕ} {now : ℕ}

lemma wellFormed_init (numEntries reserve demandReserve : ℕ) :
    (init numEntries reserve demandReserve).WellFormed where
  nodup := nodup_range
  ready_nodup := nodup_nil
  mem_readyList _ := ⟨fun h => absurd h not_mem_nil, fun h => absurd h.1 not_mem_nil⟩
  inTime := List.Pairwise.nil
  deferred_nil _ h := absurd h not_mem_nil

lemma Descends.refl (q : MSHRQueue) : q.Descends q := fun m hm => ⟨m, hm, .refl m⟩

lemma Descends.trans {q₁ q₂ q₃ : MSHRQueue} (h : q₁.Descends q₂) (h' : q₂.Descends q₃) :
    q₁.Descends q₃ := fun m hm => by
  obtain ⟨m₂, hm₂, hf₂⟩ := h' m hm
  obtain ⟨m₁, hm₁, hf₁⟩ := h m₂ hm₂
  exact ⟨m₁, hm₁, hf₁.trans hf₂⟩

lemma WellFormed.mem_entries_of_pending (h : q.WellFormed) (hm : m ∈ q.pending) :
    m ∈ q.entries := by
  obtain ⟨r, hr, rfl⟩ := mem_map.mp hm
  exact mem_map_of_mem ((h.mem_readyList r).mp hr).1

lemma getNextMSHR_eq_some (h : q.getNextMSHR now = some r) :
    (∃ l, q.readyList = r :: l) ∧ (q.registers r).readyTime ≤ now := by
  obtain ⟨hhead, hready⟩ := filter_eq_some_iff.mp h
  exact ⟨head?_eq_some_iff.mp hhead, by simpa using hready⟩

lemma findPending_eq_some (h : q.findPending blkAddr isSecure = some r) :
    r ∈ q.readyList ∧ (q.registers r).blkAddr = blkAddr ∧ (q.registers r).isSecure = isSecure := by
  have hpred := find?_some h
  simp only [Bool.and_eq_true, beq_iff_eq] at hpred
  exact ⟨mem_of_find?_eq_some h, hpred⟩

lemma findPending_eq_none (h : q.findPending blkAddr isSecure = none) (hr : r ∈ q.readyList)
    (hblk : (q.registers r).blkAddr = blkAddr) : (q.registers r).isSecure ≠ isSecure := by
  have hpred := find?_eq_none.mp h r hr
  simpa [hblk] using hpred

lemma mem_allocatedList_of_findMatch
    (h : q.findMatch blkAddr isSecure = some r) : r ∈ q.allocatedList :=
  mem_of_mem_filter (mem_of_mem_head? h)

lemma registers_setRegister_self : (q.setRegister r m).registers r = m := by
  simp [setRegister]

lemma registers_setRegister_of_ne (q : MSHRQueue) {r x : ℕ} (h : x ≠ r) (m : MSHR) :
    (q.setRegister r m).registers x = q.registers x := by
  simp [setRegister, h]

lemma map_setRegister {l : List ℕ} (hr : r ∉ l) :
    l.map (q.setRegister r m).registers = l.map q.registers :=
  map_congr_left fun _ hx => q.registers_setRegister_of_ne (ne_of_mem_of_not_mem hx hr) m

/-- A register may change in place if its ready time stays while it waits. -/
lemma WellFormed.setRegister (h : q.WellFormed) (hin : m.inService = (q.registers r).inService)
    (hready : r ∈ q.readyList →
      m.readyTime = (q.registers r).readyTime ∧ m.deferredTargets.list = []) :
    (q.setRegister r m).WellFormed := by
  have hreg : ∀ x ∈ q.readyList, ((q.setRegister r m).registers x).readyTime =
        (q.registers x).readyTime ∧
      ((q.setRegister r m).registers x).deferredTargets.list = [] := fun x hx => by
    by_cases hxr : x = r
    · subst hxr
      rw [registers_setRegister_self]
      exact hready hx
    · rw [registers_setRegister_of_ne q hxr]
      exact ⟨rfl, h.deferred_nil x hx⟩
  refine ⟨h.nodup, h.ready_nodup, fun x => (h.mem_readyList x).trans ?_, ?_,
    fun x hx => (hreg x hx).2⟩
  · by_cases hxr : x = r
    · rw [hxr, registers_setRegister_self, hin]
      rfl
    · rw [registers_setRegister_of_ne q hxr]
      rfl
  · refine (Timed.inTime_map _ _).mpr (((Timed.inTime_map _ _).mp h.inTime).imp_of_mem ?_)
    intro x y hx hy hle
    dsimp only at hle ⊢
    rwa [(hreg x hx).1, (hreg y hy).1]

lemma descends_setRegister (hm : (q.registers r).Follows m) : q.Descends (q.setRegister r m) := by
  rintro m' hm'
  obtain ⟨x, hx, rfl⟩ := mem_map.mp hm'
  refine ⟨q.registers x, mem_map_of_mem hx, ?_⟩
  by_cases hxr : x = r
  · rw [hxr, registers_setRegister_self]
    exact hm
  · rw [registers_setRegister_of_ne q hxr]
    exact .refl _

lemma Tallied.inService_eq (h : q.Tallied) (hr : r ∈ q.allocatedList) : q.inServiceEntries =
    ((q.allocatedList.erase r).map q.registers).countP MSHR.inService +
      if (q.registers r).inService then 1 else 0 := by
  rw [h.inService, entries, ((perm_cons_erase hr).map _).countP_eq, map_cons, countP_cons]

lemma WellFormed.countP_setRegister (h : q.WellFormed) (hr : r ∈ q.allocatedList) (m : MSHR) :
    (q.setRegister r m).entries.countP MSHR.inService =
      ((q.allocatedList.erase r).map q.registers).countP MSHR.inService +
        if m.inService then 1 else 0 := by
  have hperm := (perm_cons_erase hr).map (q.setRegister r m).registers
  rw [map_cons, map_setRegister h.nodup.of_append_left.not_mem_erase,
    registers_setRegister_self] at hperm
  exact hperm.countP_eq _ |>.trans (countP_cons ..)

lemma Tallied.setRegister (h : q.Tallied) (hwf : q.WellFormed) (hr : r ∈ q.allocatedList)
    (hin : m.inService = (q.registers r).inService) : (q.setRegister r m).Tallied := by
  refine ⟨h.perm, h.allocated, (h.inService_eq hr).trans ?_⟩
  rw [hwf.countP_setRegister hr, hin]

lemma Tallied.addToReadyList (h : q.Tallied) (hq : q.addToReadyList r = some q') : q'.Tallied := by
  obtain ⟨l, -, rfl⟩ := map_eq_some_iff.mp hq
  exact { h with }

/-! ### What the operations do -/

/-- `r` leaves the ready list. -/
lemma WellFormed.erase (h : q.WellFormed) (hready : q'.readyList = q.readyList.erase r)
    (hreg : ∀ x, x ≠ r → q'.registers x = q.registers x)
    (hnodup : (q'.allocatedList ++ q'.freeList).Nodup)
    (hmem : ∀ x, x ≠ r → (x ∈ q'.allocatedList ↔ x ∈ q.allocatedList))
    (hr : r ∈ q'.allocatedList → (q'.registers r).inService = true) :
    q'.WellFormed ∧ q'.pending = (q.readyList.erase r).map q.registers := by
  have hne : ∀ x ∈ q.readyList.erase r, x ≠ r := fun x hx =>
    ne_of_mem_of_not_mem hx h.ready_nodup.not_mem_erase
  have hpending : q'.pending = (q.readyList.erase r).map q.registers := by
    rw [pending, hready]
    exact map_congr_left fun x hx => hreg x (hne x hx)
  refine ⟨⟨hnodup, hready ▸ h.ready_nodup.erase r, fun x => ?_, ?_, fun x hx => ?_⟩, hpending⟩
  · rw [hready]
    by_cases hx : x = r
    · subst hx
      refine ⟨fun hmem => absurd hmem h.ready_nodup.not_mem_erase, fun hmem => ?_⟩
      rw [hr hmem.1] at hmem
      exact absurd hmem.2 (by decide)
    · rw [mem_erase_of_ne hx, h.mem_readyList, hmem x hx, hreg x hx]
  · rw [hpending]
    exact List.Pairwise.sublist (erase_sublist.map _) h.inTime
  · rw [hready] at hx
    rw [hreg x (hne x hx)]
    exact h.deferred_nil x (mem_of_mem_erase hx)

/-- A freed register leaves the lists. -/
lemma deallocate_spec (h : q.WellFormed) (hr : r ∈ q.allocatedList)
    (hq : q.deallocate r = some q') :
    q'.WellFormed ∧ q'.pending = (q.readyList.erase r).map q.registers ∧ q.Descends q' ∧
      (q.Tallied → q'.Tallied) := by
  obtain ⟨m, hm, rfl⟩ := map_eq_some_iff.mp hq
  have hnodup := h.nodup.of_append_left
  have hperm : (q.allocatedList.erase r ++ r :: q.freeList).Perm (q.allocatedList ++ q.freeList) :=
    perm_middle.trans ((perm_cons_erase hr).symm.append_right _)
  have hready : (if (q.registers r).inService then q.readyList else q.readyList.erase r) =
      q.readyList.erase r := by
    split_ifs with hin
    · refine (erase_of_not_mem fun hmem => ?_).symm
      rw [((h.mem_readyList r).mp hmem).2] at hin
      cases hin
    · rfl
  obtain ⟨hwf, hpending⟩ := @WellFormed.erase q (q.delist r m) r h hready
    (fun x hx => q.registers_setRegister_of_ne hx m) (hperm.nodup_iff.mpr h.nodup)
    (fun x hx => mem_erase_of_ne hx) fun hmem => absurd hmem hnodup.not_mem_erase
  have hentries : (q.delist r m).entries = (q.allocatedList.erase r).map q.registers :=
    map_setRegister hnodup.not_mem_erase
  refine ⟨hwf, hpending, fun m' hm' => ?_, fun htally => ⟨hperm.trans htally.perm, ?_, ?_⟩⟩
  · rw [hentries] at hm'
    exact ⟨m', map_subset _ erase_subset hm', .refl _⟩
  · rw [delist, htally.allocated, length_erase_of_mem hr]
  · rw [hentries, delist, htally.inService_eq hr]
    split_ifs
    · rw [Nat.add_sub_cancel]
    · rw [Nat.add_zero]

/-- An entry that is sent leaves the ready list. -/
lemma markInService_spec {dirty : Bool} (h : q.WellFormed) (hr : r ∈ q.allocatedList)
    (hq : q.markInService r dirty = some q') :
    q'.WellFormed ∧ q'.pending = (q.readyList.erase r).map q.registers ∧ q.Descends q' ∧
      (q.Tallied → q'.Tallied) := by
  obtain ⟨⟨m, done⟩, hm, hx⟩ := bind_eq_some_iff.mp hq
  obtain ⟨hin, hin', hpop⟩ := MSHR.markInService_inService hm
  have hfollows := MSHR.follows_markInService hm
  cases done with
  | true =>
    have hwf : (q.setRegister r m).WellFormed := h.setRegister (hin'.trans hin.symm) fun hready =>
      ⟨by rw [hpop rfl]; rfl, hfollows.deferred (h.deferred_nil r hready)⟩
    obtain ⟨hwf', hpending, hdesc, htally'⟩ := deallocate_spec hwf hr hx
    refine ⟨hwf', ?_, (descends_setRegister hfollows).trans hdesc,
      fun htally => htally' (htally.setRegister h hr (hin'.trans hin.symm))⟩
    rw [hpending, map_setRegister hwf.ready_nodup.not_mem_erase]
    rfl
  | false =>
    cases hx
    obtain ⟨hwf, hpending⟩ := @WellFormed.erase q (q.serviced r m) r h rfl
      (fun x hx => q.registers_setRegister_of_ne hx m) h.nodup (fun _ _ => Iff.rfl)
      fun _ => by rw [serviced, registers_setRegister_self, hin']; rfl
    refine ⟨hwf, hpending, descends_setRegister hfollows,
      fun htally => ⟨htally.perm, htally.allocated, ?_⟩⟩
    refine Eq.trans ?_ (h.countP_setRegister hr m).symm
    rw [serviced, htally.inService_eq hr, hin, hin']
    rfl

lemma markInService_setForward_spec {isForward dirty : Bool} (h : q.WellFormed)
    (hr : r ∈ q.allocatedList)
    (hq : (q.setRegister r { q.registers r with isForward := isForward }).markInService r dirty =
      some q') :
    q'.WellFormed ∧ q'.pending = (q.readyList.erase r).map q.registers ∧ q.Descends q' := by
  have hwf : (q.setRegister r { q.registers r with isForward := isForward }).WellFormed :=
    h.setRegister rfl fun hready => ⟨rfl, h.deferred_nil r hready⟩
  have hfollows : (q.registers r).Follows { q.registers r with isForward := isForward } :=
    .of_targets rfl rfl rfl (List.Subset.refl _) (List.Subset.refl _)
  obtain ⟨hwf', hpending, hdesc, -⟩ := markInService_spec hwf hr hq
  refine ⟨hwf', ?_, (descends_setRegister hfollows).trans hdesc⟩
  rw [hpending]
  exact map_setRegister h.ready_nodup.not_mem_erase

lemma erase_sublist_pending (q : MSHRQueue) (r : ℕ) :
    ((q.readyList.erase r).map q.registers).Sublist q.pending := erase_sublist.map _

/-- The entry `r` is still to be put on the ready list. -/
structure Unlisted (q : MSHRQueue) (r : ℕ) : Prop where
  nodup : (q.allocatedList ++ q.freeList).Nodup
  ready_nodup : q.readyList.Nodup
  mem_readyList : ∀ x, x ∈ q.readyList ↔
    x ≠ r ∧ x ∈ q.allocatedList ∧ (q.registers x).inService = false
  inTime : Timed.InTime MSHR.readyTime q.pending
  deferred_nil : ∀ x, x = r ∨ x ∈ q.readyList → (q.registers x).deferredTargets.list = []
  allocated : r ∈ q.allocatedList
  inService : (q.registers r).inService = false

/-- **The assertion of `addToReadyList` holds**; the entry goes behind all not later. -/
lemma addToReadyList_spec (h : q.Unlisted r) :
    ∃ q', q.addToReadyList r = some q' ∧ q'.WellFormed ∧ q'.registers = q.registers ∧
      q'.allocatedList = q.allocatedList ∧
      q'.pending = Timed.insert MSHR.readyTime (q.registers r) q.pending := by
  have hadd := Timed.add_eq_some ((Timed.inTime_map _ _).mp h.inTime) r
  refine ⟨{ q with readyList := Timed.insert (fun x => (q.registers x).readyTime) r q.readyList },
    by rw [addToReadyList, hadd, map_some], ?_, rfl, rfl, Timed.map_insert _ _ _⟩
  have hr : r ∉ q.readyList := fun hmem => ((h.mem_readyList r).mp hmem).1 rfl
  refine ⟨h.nodup, ?_, fun x => ?_, ?_, fun x hx => h.deferred_nil x (Timed.mem_insert.mp hx)⟩
  · exact (perm_orderedInsert _ r q.readyList).nodup_iff.mpr (nodup_cons.mpr ⟨hr, h.ready_nodup⟩)
  · rw [Timed.mem_insert, h.mem_readyList]
    by_cases hx : x = r
    · subst hx
      exact ⟨fun _ => ⟨h.allocated, h.inService⟩, fun _ => .inl rfl⟩
    · simp only [hx, false_or, ne_eq, not_false_eq_true, true_and]
  · rw [pending, Timed.map_insert]
    exact h.inTime.insert _

lemma WellFormed.unlisted_enlist (h : q.WellFormed) {free : List ℕ} (hfree : q.freeList = r :: free)
    (hin : m.inService = false) (hdeferred : m.deferredTargets.list = []) :
    (q.enlist r m).Unlisted r ∧ (q.enlist r m).pending = q.pending ∧
      (q.enlist r m).entries = q.entries ++ [m] := by
  have hnodup := h.nodup
  rw [hfree] at hnodup
  have halloc : r ∉ q.allocatedList := fun hmem =>
    (nodup_append.mp hnodup).2.2 r hmem r mem_cons_self rfl
  have hready : r ∉ q.readyList := fun hmem => halloc ((h.mem_readyList r).mp hmem).1
  have hpending : (q.enlist r m).pending = q.pending := map_setRegister hready
  refine ⟨⟨?_, h.ready_nodup, fun x => ?_, hpending ▸ h.inTime, fun x hx => ?_, ?_, ?_⟩,
    hpending, ?_⟩
  · simpa [enlist, hfree] using hnodup
  · by_cases hx : x = r
    · subst hx
      exact ⟨fun hmem => absurd hmem hready, fun hmem => absurd rfl hmem.1⟩
    · rw [enlist, registers_setRegister_of_ne q hx]
      exact (h.mem_readyList x).trans (by simp [hx])
  · by_cases hxr : x = r
    · rw [hxr, enlist, registers_setRegister_self, hdeferred]
    · rw [enlist, registers_setRegister_of_ne q hxr]
      exact h.deferred_nil x (hx.resolve_left hxr)
  · exact mem_append_right _ mem_cons_self
  · rw [enlist, registers_setRegister_self, hin]
  · rw [entries, enlist, map_append, map_setRegister halloc, map_singleton,
      registers_setRegister_self]
    rfl

/-- A new entry. -/
lemma allocate_spec {blkAddr whenReady order : ℕ} {pkt : Packet} (h : q.WellFormed)
    (hq : q.allocate blkAddr pkt whenReady order = some (q', r)) :
    (q'.registers r).IsFresh blkAddr pkt whenReady order ∧ q'.WellFormed ∧
      q'.pending = Timed.insert MSHR.readyTime (q'.registers r) q.pending ∧
      q'.entries = q.entries ++ [q'.registers r] ∧ r ∈ q'.readyList ∧ (q.Tallied → q'.Tallied) := by
  rw [allocate] at hq
  cases hfree : q.freeList with
  | nil => rw [hfree] at hq; cases hq
  | cons x free =>
    rw [hfree] at hq
    dsimp only at hq
    split_ifs at hq with hnone
    obtain ⟨m, hm, hq⟩ := bind_eq_some_iff.mp hq
    obtain ⟨q₁, hq₁, hq⟩ := map_eq_some_iff.mp hq
    obtain ⟨rfl, rfl⟩ := Prod.mk.inj hq
    have hfresh := MSHR.isFresh_allocate hm hnone
    obtain ⟨hunlisted, hpending, hentries⟩ :=
      h.unlisted_enlist hfree hfresh.inService hfresh.deferred
    obtain ⟨q₂, hq₂, hwf, hreg, halloc, hinsert⟩ := addToReadyList_spec hunlisted
    obtain rfl := some.inj (hq₁.symm.trans hq₂)
    have hself : q₁.registers x = m := by rw [hreg, enlist, registers_setRegister_self]
    have hlisted : x ∈ q₁.readyList :=
      (hwf.mem_readyList x).mpr ⟨halloc ▸ hunlisted.allocated, hself ▸ hfresh.inService⟩
    rw [hself]
    refine ⟨hfresh, hwf, ?_, ?_, hlisted, fun htally => Tallied.addToReadyList ⟨?_, ?_, ?_⟩ hq₁⟩
    · rw [hinsert, hpending, enlist, registers_setRegister_self]
    · rw [entries, halloc, hreg]
      exact hentries
    · change (q.allocatedList ++ [x] ++ q.freeList.tail).Perm (List.range q.numEntries)
      simpa [hfree] using htally.perm
    · rw [enlist, htally.allocated, length_append, length_singleton]
    · rw [hentries, countP_append, countP_singleton, hfresh.inService]
      exact htally.inService

/-- An entry in service whose request has to be sent again. -/
lemma markPending_spec (h : q.WellFormed) (hr : r ∈ q.allocatedList)
    (hin : (q.registers r).inService = true) (hdeferred : (q.registers r).deferredTargets.list = [])
    (hq : q.markPending r = some q') :
    q'.WellFormed ∧ q.Descends q' ∧ (q.Tallied → q'.Tallied) := by
  have hready : r ∉ q.readyList := fun hmem => by
    rw [((h.mem_readyList r).mp hmem).2] at hin
    cases hin
  have hpending : (q.unserviced r).pending = q.pending := map_setRegister hready
  have hunlisted : (q.unserviced r).Unlisted r := by
    refine ⟨h.nodup, h.ready_nodup, fun x => ?_, hpending ▸ h.inTime, fun x hx => ?_, hr, ?_⟩
    · by_cases hx : x = r
      · subst hx
        exact ⟨fun hmem => absurd hmem hready, fun hmem => absurd rfl hmem.1⟩
      · rw [unserviced, registers_setRegister_of_ne q hx]
        simpa [hx, setRegister] using h.mem_readyList x
    · by_cases hxr : x = r
      · rw [hxr, unserviced, registers_setRegister_self, hdeferred]
      · rw [unserviced, registers_setRegister_of_ne q hxr]
        exact h.deferred_nil x (hx.resolve_left hxr)
    · rw [unserviced, registers_setRegister_self]
  rw [markPending, if_pos hin] at hq
  obtain ⟨q₁, hq₁, hwf, hreg, halloc, -⟩ := addToReadyList_spec hunlisted
  obtain rfl := some.inj (hq.symm.trans hq₁)
  have hfollows : (q.registers r).Follows { q.registers r with inService := false } :=
    .of_targets rfl rfl rfl (List.Subset.refl _) (List.Subset.refl _)
  refine ⟨hwf, fun m hm => ?_, fun htally =>
    Tallied.addToReadyList (q := q.unserviced r) ⟨htally.perm, htally.allocated, ?_⟩ hq⟩
  · rw [entries, halloc, hreg] at hm
    exact descends_setRegister hfollows m hm
  · refine Eq.trans ?_ (h.countP_setRegister hr _).symm
    rw [unserviced, htally.inService_eq hr, hin]
    rfl

/-- **A response** frees the entry, or leaves it pending for deferred targets. -/
lemma respond_spec {fills : List Packet} (h : q.WellFormed) (hr : r ∈ q.allocatedList)
    (hin : (q.registers r).inService = true) (hq : q.respond r fills now = some q') :
    q'.WellFormed ∧ q.Descends q' ∧
      ((q.registers r).deferredTargets.list = [] → q'.pending.Sublist q.pending) := by
  have hready : r ∉ q.readyList := fun hmem => by
    rw [((h.mem_readyList r).mp hmem).2] at hin
    cases hin
  have hserve := (q.registers r).follows_serve fills
  rw [respond] at hq
  cases hpromote : ((q.registers r).serve fills).promoteDeferredTargets now with
  | none =>
    rw [hpromote] at hq
    have hwf : (q.setRegister r ((q.registers r).serve fills)).WellFormed :=
      h.setRegister (MSHR.serve_inService _ _) fun hmem => absurd hmem hready
    obtain ⟨hwf', hpending, hdesc, -⟩ := deallocate_spec hwf hr hq
    refine ⟨hwf', (descends_setRegister hserve).trans hdesc, fun _ => ?_⟩
    rw [hpending, map_setRegister hwf.ready_nodup.not_mem_erase]
    exact q.erase_sublist_pending r
  | some m =>
    rw [hpromote] at hq
    have hfollows := hserve.trans (MSHR.follows_promoteDeferredTargets hpromote rfl)
    obtain ⟨hm, hnil, hne⟩ := MSHR.promoteDeferredTargets_spec rfl hpromote
    have hm' : m.inService = (q.registers r).inService := hm.trans (MSHR.serve_inService _ _)
    have hwf : (q.setRegister r m).WellFormed := h.setRegister hm' fun hmem => absurd hmem hready
    obtain ⟨hwf', hdesc, -⟩ := markPending_spec hwf hr
      (by rw [registers_setRegister_self, hm', hin])
      (by rw [registers_setRegister_self, hnil]) hq
    exact ⟨hwf', (descends_setRegister hfollows).trans hdesc,
      fun hd => absurd (hserve.deferred hd) hne⟩

/-- A squashed prefetch. -/
lemma forceDeallocateTarget_spec (h : q.WellFormed) (hr : r ∈ q.allocatedList)
    (hq : q.forceDeallocateTarget r now = some q') :
    q'.WellFormed ∧ q.Descends q' ∧ (q.Tallied → q'.Tallied) := by
  have hpop := (q.registers r).follows_popTarget
  have hin : (q.registers r).popTarget.inService = (q.registers r).inService := rfl
  have hwf : (q.setRegister r (q.registers r).popTarget).WellFormed :=
    h.setRegister hin fun hready => ⟨rfl, h.deferred_nil r hready⟩
  rw [forceDeallocateTarget] at hq
  split_ifs at hq with hnone hempty
  · cases hpromote : (q.registers r).popTarget.promoteDeferredTargets now with
    | none =>
      rw [hpromote] at hq
      obtain ⟨hwf', -, hdesc, htally'⟩ := deallocate_spec hwf hr hq
      exact ⟨hwf', (descends_setRegister hpop).trans hdesc,
        fun htally => htally' (htally.setRegister h hr hin)⟩
    | some m =>
      rw [hpromote] at hq
      cases hq
      have hnil := isEmpty_iff.mp hempty
      obtain ⟨hin', -, hne⟩ := MSHR.promoteDeferredTargets_spec hnil hpromote
      -- an entry on the ready list has no deferred targets
      exact ⟨h.setRegister hin' fun hready => absurd (h.deferred_nil r hready) hne,
        descends_setRegister (hpop.trans (MSHR.follows_promoteDeferredTargets hpromote hnil)),
        fun htally => htally.setRegister h hr hin'⟩
  · cases hq
    exact ⟨hwf, descends_setRegister hpop, fun htally => htally.setRegister h hr hin⟩

/-! ### Runs -/

section

variable (numEntries reserve demandReserve : ℕ)

/-- The queue after calls under their assertions. Between them an entry may `change`: it stays in
service or not, and while it is not, its ready time stays and it gets no deferred targets. -/
inductive Run : MSHRQueue → Prop
  | init : Run (init numEntries reserve demandReserve)
  | allocate {q q' : MSHRQueue} {r blkAddr whenReady order : ℕ} {pkt : Packet} (h : Run q)
      (hq : q.allocate blkAddr pkt whenReady order = some (q', r)) : Run q'
  | markInService {q q' : MSHRQueue} {r : ℕ} {dirty : Bool} (h : Run q) (hr : r ∈ q.allocatedList)
      (hq : q.markInService r dirty = some q') : Run q'
  | markPending {q q' : MSHRQueue} {r : ℕ} (h : Run q) (hr : r ∈ q.allocatedList)
      (hnil : (q.registers r).deferredTargets.list = []) (hq : q.markPending r = some q') : Run q'
  | deallocate {q q' : MSHRQueue} {r : ℕ} (h : Run q) (hr : r ∈ q.allocatedList)
      (hq : q.deallocate r = some q') : Run q'
  | forceDeallocateTarget {q q' : MSHRQueue} {r now : ℕ} (h : Run q) (hr : r ∈ q.allocatedList)
      (hq : q.forceDeallocateTarget r now = some q') : Run q'
  | change {q : MSHRQueue} {r : ℕ} {m : MSHR} (h : Run q) (hr : r ∈ q.allocatedList)
      (hin : m.inService = (q.registers r).inService)
      (hready : m.inService = false → m.readyTime = (q.registers r).readyTime ∧
        ((q.registers r).deferredTargets.list = [] → m.deferredTargets.list = [])) :
      Run (q.setRegister r m)

/-- The queue after calls alone, for allocated entries. -/
inductive Calls : MSHRQueue → Prop
  | init : Calls (init numEntries reserve demandReserve)
  | allocate {q q' : MSHRQueue} {r blkAddr whenReady order : ℕ} {pkt : Packet} (h : Calls q)
      (hq : q.allocate blkAddr pkt whenReady order = some (q', r)) : Calls q'
  | markInService {q q' : MSHRQueue} {r : ℕ} {dirty : Bool} (h : Calls q) (hr : r ∈ q.allocatedList)
      (hq : q.markInService r dirty = some q') : Calls q'
  | markPending {q q' : MSHRQueue} {r : ℕ} (h : Calls q) (hr : r ∈ q.allocatedList)
      (hq : q.markPending r = some q') : Calls q'
  | deallocate {q q' : MSHRQueue} {r : ℕ} (h : Calls q) (hr : r ∈ q.allocatedList)
      (hq : q.deallocate r = some q') : Calls q'
  | forceDeallocateTarget {q q' : MSHRQueue} {r now : ℕ} (h : Calls q) (hr : r ∈ q.allocatedList)
      (hq : q.forceDeallocateTarget r now = some q') : Calls q'

end

variable {numEntries reserve demandReserve : ℕ}

def NoneDeferred (q : MSHRQueue) : Prop := ∀ r, (q.registers r).deferredTargets.list = []

lemma NoneDeferred.update (h : q.NoneDeferred)
    (hq : q'.registers = Function.update q.registers r m) (hm : m.deferredTargets.list = []) :
    q'.NoneDeferred := by
  intro r'
  rw [hq, Function.update_apply]
  split_ifs
  · exact hm
  · exact h r'

lemma registers_addToReadyList (hq : q.addToReadyList r = some q') :
    q'.registers = q.registers := by
  obtain ⟨l, -, rfl⟩ := map_eq_some_iff.mp hq
  rfl

lemma NoneDeferred.deallocate (h : q.NoneDeferred) (hq : q.deallocate r = some q') :
    q'.NoneDeferred := by
  obtain ⟨m, hm, rfl⟩ := map_eq_some_iff.mp hq
  rw [MSHR.deallocate] at hm
  split_ifs at hm
  cases hm
  exact h.update rfl (h r)

/-- Without changes nothing is deferred, so `markPending` asks nothing. -/
lemma Calls.run (h : Calls numEntries reserve demandReserve q) :
    Run numEntries reserve demandReserve q ∧ q.NoneDeferred := by
  induction h with
  | init => exact ⟨.init, fun _ => rfl⟩
  | @allocate q q' r blkAddr whenReady order pkt _ hq ih =>
    refine ⟨.allocate ih.1 hq, ?_⟩
    rw [MSHRQueue.allocate] at hq
    split at hq
    · cases hq
    split_ifs at hq
    obtain ⟨m, hm, hq⟩ := bind_eq_some_iff.mp hq
    obtain ⟨q₁, hadd, heq⟩ := map_eq_some_iff.mp hq
    cases heq
    rw [MSHR.allocate] at hm
    split_ifs at hm
    cases hm
    exact ih.2.update (registers_addToReadyList hadd) (ih.2 _)
  | @markInService q q' r dirty _ hr hq ih =>
    refine ⟨.markInService ih.1 hr hq, ?_⟩
    obtain ⟨⟨m, done⟩, hm, hq⟩ := bind_eq_some_iff.mp hq
    have hnil : m.deferredTargets.list = [] := by
      rw [MSHR.markInService] at hm
      split_ifs at hm <;> cases hm <;> exact ih.2 r
    split_ifs at hq
    · exact NoneDeferred.deallocate (ih.2.update rfl hnil) hq
    · cases hq
      exact ih.2.update rfl hnil
  | @markPending q q' r _ hr hq ih =>
    refine ⟨.markPending ih.1 hr (ih.2 r) hq, ?_⟩
    rw [MSHRQueue.markPending] at hq
    split_ifs at hq
    exact ih.2.update (registers_addToReadyList hq) (ih.2 r)
  | deallocate _ hr hq ih => exact ⟨.deallocate ih.1 hr hq, ih.2.deallocate hq⟩
  | @forceDeallocateTarget q q' r now _ hr hq ih =>
    refine ⟨.forceDeallocateTarget ih.1 hr hq, ?_⟩
    have hpop : (q.setRegister r (q.registers r).popTarget).NoneDeferred := ih.2.update rfl (ih.2 r)
    have hnone : (q.registers r).popTarget.promoteDeferredTargets now = none := by
      rw [MSHR.promoteDeferredTargets, MSHR.popTarget, ih.2 r]
    rw [MSHRQueue.forceDeallocateTarget, hnone] at hq
    split_ifs at hq
    · exact hpop.deallocate hq
    · cases hq
      exact hpop

lemma Run.wellFormed (h : Run numEntries reserve demandReserve q) : q.WellFormed ∧ q.Tallied := by
  induction h with
  | init => exact ⟨wellFormed_init .., ⟨.refl _, rfl, rfl⟩⟩
  | allocate _ hq ih =>
    obtain ⟨-, hwf, -, -, -, htally⟩ := allocate_spec ih.1 hq
    exact ⟨hwf, htally ih.2⟩
  | markInService _ hr hq ih =>
    obtain ⟨hwf, -, -, htally⟩ := markInService_spec ih.1 hr hq
    exact ⟨hwf, htally ih.2⟩
  | @markPending q _ r _ hr hnil hq ih =>
    have hin : (q.registers r).inService = true := by
      rw [MSHRQueue.markPending] at hq
      split_ifs at hq with hin
      exact hin
    obtain ⟨hwf, -, htally⟩ := markPending_spec ih.1 hr hin hnil hq
    exact ⟨hwf, htally ih.2⟩
  | deallocate _ hr hq ih =>
    obtain ⟨hwf, -, -, htally⟩ := deallocate_spec ih.1 hr hq
    exact ⟨hwf, htally ih.2⟩
  | forceDeallocateTarget _ hr hq ih =>
    obtain ⟨hwf, -, htally⟩ := forceDeallocateTarget_spec ih.1 hr hq
    exact ⟨hwf, htally ih.2⟩
  | @change q r m _ hr hin hready ih =>
    refine ⟨ih.1.setRegister hin fun hmem => ?_, ih.2.setRegister ih.1 hr hin⟩
    obtain ⟨htime, hdeferred⟩ := hready (hin.trans ((ih.1.mem_readyList r).mp hmem).2)
    exact ⟨htime, hdeferred (ih.1.deferred_nil r hmem)⟩

/-- **The lists and the counters stay in step.** Each register is on the allocated list or on the
free list, once; the counters count; the entries not in service are the ready list, in order of
their ready times. -/
theorem lists_in_step (h : Run numEntries reserve demandReserve q) :
    (q.allocatedList ++ q.freeList).Perm (List.range q.numEntries) ∧
    q.allocated = q.allocatedList.length ∧ q.readyList.Nodup ∧
    (∀ r, r ∈ q.readyList ↔ r ∈ q.allocatedList ∧ (q.registers r).inService = false) ∧
    (q.readyList.Pairwise fun r r' => (q.registers r).readyTime ≤ (q.registers r').readyTime) ∧
    q.inServiceEntries = q.entries.countP MSHR.inService ∧
    ∀ (q : MSHRQueue) (r : ℕ), q.addToReadyList r ≠ none := by
  obtain ⟨hwf, htally⟩ := h.wellFormed
  refine ⟨htally.perm, htally.allocated, hwf.ready_nodup, hwf.mem_readyList,
    (Timed.inTime_map _ _).mp hwf.inTime, htally.inService, fun q r hnone => ?_⟩
  exact Timed.add_ne_none _ _ (map_eq_none_iff.mp hnone)

/-- A read is allocated, sent, and made pending again. -/
theorem lists_in_step_read : ∃ q, Run 4 1 0 q ∧ q.readyList = [0] ∧ q.inServiceEntries = 0 ∧
    (q.allocatedList ++ q.freeList).Perm (List.range q.numEntries) := by
  let read : Packet :=
    ⟨.readReq, ⟨64, some 64, 64, 0#32, 0, 0⟩, 64, 64, false, [], ⟨.rowAnd, 0, 0, 0⟩, false,
      false, false⟩
  have hallocated : Calls 4 1 0 _ := @Calls.allocate 4 1 0 _ _ 0 64 3 0 read .init rfl
  have hsent : Calls 4 1 0 _ := @Calls.markInService 4 1 0 _ _ 0 false hallocated (by decide) rfl
  have hagain : Calls 4 1 0 _ := @Calls.markPending 4 1 0 _ _ 0 hsent (by decide) rfl
  exact ⟨_, hagain.run.1, rfl, rfl, (lists_in_step hagain.run.1).1⟩

end MSHRQueue

end ShifDram
