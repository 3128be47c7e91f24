import ShifDram.Control.Fallible
import ShifDram.Queue.Log

/-!
The memory checker (`mem/mem_checker.cc`, `mem/mem_checker.hh`), for one byte.

It keeps the writes in clusters of overlapping ones and the values that reads have observed, and
decides when a read completes whether its value can have been in memory.
-/

namespace ShifDram

open List

namespace MemChecker

variable (b : ByteTracker)

def tickInitial : ℕ := 0

/-- `TICK_FUTURE`, which is `MaxTick`. -/
def tickFuture : ℕ := 2 ^ 64 - 1

structure Transaction where
  serial : ℕ
  start : ℕ
  complete : ℕ
  data : UInt8
  deriving DecidableEq

inductive Abort where
  /-- `assert(!isComplete())` -/
  | clusterComplete
  /-- `chatty_assert(start <= _start, "WriteClusters must filled in order!")` -/
  | notInOrder
  /-- `assert(_start < complete)` -/
  | reopened
  /-- `assert(it->second.complete == TICK_FUTURE)` -/
  | writeCompleted
  /-- `assert(!l->empty())` -/
  | emptyList
  /-- `assert(last_obs.complete <= start)` -/
  | observedLater
  /-- `assert(writeClusters.begin()->start < complete &&
  writeClusters.rbegin()->complete > start)` -/
  | noOverlap
  /-- `assert(last_obs.complete == TICK_INITIAL)` -/
  | notInitial
  deriving DecidableEq

/-- A cluster of writes; `writes` is the hash map by serial. -/
structure WriteCluster where
  start : ℕ
  complete : ℕ
  writes : List Transaction
  completeMax : ℕ
  numIncomplete : ℕ
  deriving DecidableEq

namespace WriteCluster

variable (c : WriteCluster)

def fresh : WriteCluster := ⟨tickFuture, tickFuture, [], tickInitial, 0⟩

def isComplete : Bool := c.complete ≠ tickFuture

def insert (writes : List Transaction) (w : Transaction) : List Transaction :=
  if writes.any (·.serial = w.serial) then writes else writes ++ [w]

def startWrite (serial start : ℕ) (data : UInt8) : Except Abort WriteCluster :=
  let first := if c.start = tickFuture then start else c.start
  if c.isComplete then .error .clusterComplete
  else if ¬ first ≤ start then .error .notInOrder
  else if c.complete ≠ tickFuture ∧ ¬ start < c.complete then .error .reopened
  else .ok { c with
    start := first
    complete := tickFuture
    writes := insert c.writes ⟨serial, start, tickFuture, data⟩
    numIncomplete := c.numIncomplete + 1 }

/-- `completeWrite`; an unknown write is warned about. -/
def completeWrite (serial complete : ℕ) : Except Abort WriteCluster :=
  match c.writes.find? (·.serial = serial) with
  | none => .ok c
  | some w =>
    if w.complete ≠ tickFuture then .error .writeCompleted
    else
      let completeMax := if c.completeMax < complete then complete else c.completeMax
      .ok { c with
        complete := if c.numIncomplete - 1 = 0 then completeMax else c.complete
        writes := c.writes.map fun w =>
          if w.serial = serial then { w with complete := complete } else w
        completeMax := completeMax
        numIncomplete := c.numIncomplete - 1 }

/-- `abortWrite`; an unknown write is warned about. -/
def abortWrite (serial : ℕ) : WriteCluster :=
  if c.writes.any (·.serial = serial) then
    let writes := c.writes.filter (·.serial ≠ serial)
    { c with
      complete := if c.numIncomplete - 1 = 0 ∧ writes ≠ [] then c.completeMax else c.complete
      writes := writes
      numIncomplete := c.numIncomplete - 1 }
  else c

end WriteCluster

/-! ### Byte trackers -/

structure ByteTracker where
  outstandingReads : List Transaction
  readObservations : List Transaction
  writeClusters : List WriteCluster
  lastExpectedData : List UInt8

/-- The backward search from an entry, with those before and `after` it. -/
def lastCompletedFrom {α : Type*} (complete : α → ℕ) (before : ℕ) : List α → List α → List α
  | [], after => after
  | [x], after => x :: after
  | x :: y :: ys, after =>
    if before ≤ complete x then lastCompletedFrom complete before (y :: ys) (x :: after)
    else x :: after

/-- `lastCompletedTransaction`: the list from the iterator's entry on. -/
def lastCompletedTransaction {α : Type*} (complete : α → ℕ) (l : List α) (before : ℕ) :
    Except Abort (List α) :=
  match l with
  | [] => .error .emptyList
  | _ :: _ => .ok (lastCompletedFrom complete before l.reverse [])

/-- The variables of `inExpectedData`'s scan; `found` is its early return. -/
structure Scan where
  found : Bool
  wcOverlap : Bool
  lastObsValid : Bool
  lastExpectedData : List UInt8

def scanWrites (lastObs : Transaction) (start : ℕ) (data : UInt8) : List Transaction → Scan → Scan
  | [], s => s
  | w :: ws, s =>
    if w.complete < lastObs.start then scanWrites lastObs start data ws s
    else if w.data = data then { s with found := true }
    else
      let s := { s with lastExpectedData := s.lastExpectedData ++ [w.data] }
      if start < w.complete then scanWrites lastObs start data ws s
      else
        scanWrites lastObs start data ws { s with
          wcOverlap := false
          lastObsValid := if lastObs.complete < w.start then false else s.lastObsValid }

/-- The scan of the clusters, from the last one on. -/
def scanClusters (lastObs : Transaction) (start : ℕ) (data : UInt8) :
    List WriteCluster → Scan → Scan
  | [], s => s
  | c :: cs, s =>
    if s.wcOverlap ∧ ¬ s.found then
      scanClusters lastObs start data cs (scanWrites lastObs start data c.writes s)
    else s

/-- All clusters overlap a read, as far as the assertion tells. -/
def clustersOverlap (clusters : List WriteCluster) (start complete : ℕ) : Bool :=
  clusters.head?.any (·.start < complete) && clusters.getLast?.any (start < ·.complete)

namespace ByteTracker

def initial : ByteTracker := ⟨[], [⟨0, tickInitial, tickInitial, 0⟩], [], []⟩

/-- Inserting into the map of reads, ordered by serial. -/
def insertRead (r : Transaction) : List Transaction → List Transaction
  | [] => [r]
  | x :: xs =>
    if r.serial < x.serial then r :: x :: xs
    else if r.serial = x.serial then x :: xs
    else x :: insertRead r xs

def startRead (serial start : ℕ) : ByteTracker :=
  { b with outstandingReads := insertRead ⟨serial, start, tickFuture, 0⟩ b.outstandingReads }

/-- `inExpectedData`, with the values it has recorded. -/
def inExpectedData (start complete : ℕ) (data : UInt8) : Except Abort (Bool × List UInt8) :=
  (lastCompletedTransaction Transaction.complete b.readObservations start).bind fun
    | [] => .error .emptyList
    | lastObs :: _ =>
      let s := scanClusters lastObs start data b.writeClusters.reverse
        ⟨false, true, lastObs.complete ≠ tickInitial, []⟩
      if s.found then .ok (true, s.lastExpectedData)
      else if s.lastObsValid then
        if ¬ lastObs.complete ≤ start then .error .observedLater
        else .ok (lastObs.data = data, s.lastExpectedData ++
          if lastObs.data = data then [] else [lastObs.data])
      else if b.writeClusters ≠ [] ∧ s.wcOverlap then
        if clustersOverlap b.writeClusters start complete then .ok (true, s.lastExpectedData)
        else .error .noOverlap
      else if s.lastExpectedData = [] then
        if lastObs.complete = tickInitial then .ok (true, []) else .error .notInitial
      else .ok (false, s.lastExpectedData)

/-- `pruneTransactions` at `curTick()`. -/
def pruneTransactions (curTick : ℕ) : Except Abort ByteTracker :=
  let before := match b.outstandingReads with
    | [] => curTick
    | r :: _ => r.start
  (lastCompletedTransaction Transaction.complete b.readObservations before).bind fun obs =>
    if b.writeClusters = [] then .ok { b with readObservations := obs }
    else
      (lastCompletedTransaction WriteCluster.complete b.writeClusters before).map fun clusters =>
        { b with readObservations := obs, writeClusters := clusters }

/-- `completeRead`; an unknown read is warned about. -/
def completeRead (serial complete : ℕ) (data : UInt8) : Except Abort (Bool × ByteTracker) :=
  match b.outstandingReads.find? (·.serial = serial) with
  | none => .ok (true, b)
  | some r =>
    let b := { b with outstandingReads := b.outstandingReads.filter (·.serial ≠ serial) }
    (b.inExpectedData r.start complete data).bind fun result =>
      let b := { b with
        lastExpectedData := result.2
        readObservations := b.readObservations ++ [Transaction.mk serial r.start complete data] }
      (b.pruneTransactions complete).map fun b => (result.1, b)

/-- `getIncompleteWriteCluster`: the cluster, and those before it. -/
def getIncompleteWriteCluster (clusters : List WriteCluster) : List WriteCluster × WriteCluster :=
  match clusters.getLast? with
  | none => (clusters, .fresh)
  | some c => if c.isComplete then (clusters, .fresh) else (clusters.dropLast, c)

def startWrite (b : ByteTracker) (serial start : ℕ) (data : UInt8) : Except Abort ByteTracker :=
  let g := getIncompleteWriteCluster b.writeClusters
  (g.2.startWrite serial start data).map fun c => { b with writeClusters := g.1 ++ [c] }

def completeWrite (b : ByteTracker) (serial complete : ℕ) : Except Abort ByteTracker :=
  let g := getIncompleteWriteCluster b.writeClusters
  (g.2.completeWrite serial complete).bind fun c =>
    { b with writeClusters := g.1 ++ [c] }.pruneTransactions complete

def abortWrite (b : ByteTracker) (serial : ℕ) : ByteTracker :=
  let g := getIncompleteWriteCluster b.writeClusters
  { b with writeClusters := g.1 ++ [g.2.abortWrite serial] }

end ByteTracker

section Search

variable {α : Type*} (complete : α → ℕ) (before : ℕ)

lemma lastCompletedFrom_spec (x : α) (xs after : List α)
    (hafter : ∀ y ∈ after, before ≤ complete y) :
    ∃ pre y post, xs.reverse ++ x :: after = pre ++ y :: post ∧
      lastCompletedFrom complete before (x :: xs) after = y :: post ∧
      (pre = [] ∨ complete y < before) ∧ ∀ z ∈ post, before ≤ complete z := by
  induction xs generalizing x after with
  | nil => exact ⟨[], x, after, rfl, rfl, Or.inl rfl, hafter⟩
  | cons y ys ih =>
    rw [lastCompletedFrom]
    by_cases hx : before ≤ complete x
    · rw [if_pos hx]
      obtain ⟨pre, z, post, hsplit, hfrom, hpre, hpost⟩ := ih y (x :: after) (by simpa [hx])
      refine ⟨pre, z, post, ?_, hfrom, hpre, hpost⟩
      rw [← hsplit, reverse_cons, append_assoc, singleton_append]
    · rw [if_neg hx]
      exact ⟨(y :: ys).reverse, x, after, rfl, rfl, Or.inr (by omega), hafter⟩

/-- The last entry completed before the tick, or the first. -/
lemma lastCompletedTransaction_spec {l : List α} (hl : l ≠ []) :
    ∃ pre y post, l = pre ++ y :: post ∧
      lastCompletedTransaction complete l before = .ok (y :: post) ∧
      (pre = [] ∨ complete y < before) ∧ ∀ z ∈ post, before ≤ complete z := by
  have hok : lastCompletedTransaction complete l before =
      .ok (lastCompletedFrom complete before l.reverse []) := by
    cases l with
    | nil => exact absurd rfl hl
    | cons x xs => rfl
  obtain ⟨x, xs, hrev⟩ := exists_cons_of_ne_nil (reverse_ne_nil_iff.mpr hl)
  obtain ⟨pre, y, post, hsplit, hfrom, hpre, hpost⟩ :=
    lastCompletedFrom_spec complete before x xs [] (by simp)
  refine ⟨pre, y, post, ?_, ?_, hpre, hpost⟩
  · rw [← hsplit, ← reverse_cons, ← hrev, reverse_reverse]
  · rw [hok, hrev, hfrom]

end Search

/-! ### The scan -/

section Scan

variable {lastObs : Transaction} {start : ℕ} {data : UInt8} {w : Transaction}
  {ws : List Transaction} {cs : List WriteCluster} {s s' : Scan}

/-- Writes completed before the last observation are ignored. -/
def Relevant (lastObs w : Transaction) : Prop := lastObs.start ≤ w.complete

structure WritesScanned (lastObs : Transaction) (start : ℕ) (data : UInt8)
    (ws : List Transaction) (s s' : Scan) : Prop where
  unmatched : ∀ w ∈ ws, Relevant lastObs w → w.data ≠ data
  overlap : s'.wcOverlap = true → s.wcOverlap = true ∧
    ∀ w ∈ ws, Relevant lastObs w → start < w.complete
  passed : s'.wcOverlap = false → s.wcOverlap = true → s'.lastExpectedData ≠ [] ∧
    ∃ w ∈ ws, Relevant lastObs w ∧ w.complete ≤ start
  valid : s'.lastObsValid = true → s.lastObsValid = true
  outdated : s'.lastObsValid = false → s.lastObsValid = true →
    ∃ w ∈ ws, Relevant lastObs w ∧ w.complete ≤ start ∧ lastObs.complete < w.start
  recorded : s.lastExpectedData ≠ [] → s'.lastExpectedData ≠ []

lemma WritesScanned.cons_ignored (hw : ¬ Relevant lastObs w)
    (h : WritesScanned lastObs start data ws s s') :
    WritesScanned lastObs start data (w :: ws) s s' where
  unmatched := forall_mem_cons.mpr ⟨fun hrel => absurd hrel hw, h.unmatched⟩
  overlap hov := ⟨(h.overlap hov).1,
    forall_mem_cons.mpr ⟨fun hrel => absurd hrel hw, (h.overlap hov).2⟩⟩
  passed hov hov' := by
    obtain ⟨hne, u, hu, hrel⟩ := h.passed hov hov'
    exact ⟨hne, u, mem_cons_of_mem _ hu, hrel⟩
  valid := h.valid
  outdated hv hv' := by
    obtain ⟨u, hu, hrel⟩ := h.outdated hv hv'
    exact ⟨u, mem_cons_of_mem _ hu, hrel⟩
  recorded := h.recorded

lemma scanWrites_scanned (hfound : (scanWrites lastObs start data ws s).found = false) :
    s.found = false ∧
      WritesScanned lastObs start data ws s (scanWrites lastObs start data ws s) := by
  induction ws generalizing s with
  | nil =>
    refine ⟨hfound, ⟨by simp, fun hov => ⟨hov, by simp⟩, fun hov hov' => ?_, fun hv => hv,
      fun hv hv' => ?_, fun hne => hne⟩⟩
    · rw [scanWrites, hov'] at hov
      cases hov
    · rw [scanWrites, hv'] at hv
      cases hv
  | cons w ws ih =>
    rw [scanWrites] at hfound ⊢
    by_cases hrel : w.complete < lastObs.start
    · rw [if_pos hrel] at hfound ⊢
      obtain ⟨hs, hscan⟩ := ih hfound
      exact ⟨hs, hscan.cons_ignored (by rw [Relevant]; omega)⟩
    rw [if_neg hrel] at hfound ⊢
    have hrel' : Relevant lastObs w := by rw [Relevant]; omega
    by_cases hdata : w.data = data
    · rw [if_pos hdata] at hfound
      cases hfound
    rw [if_neg hdata] at hfound ⊢
    by_cases hlate : start < w.complete
    · rw [if_pos hlate] at hfound ⊢
      obtain ⟨hs, hscan⟩ := ih hfound
      refine ⟨hs, ⟨forall_mem_cons.mpr ⟨fun _ => hdata, hscan.unmatched⟩,
        fun hov => ⟨(hscan.overlap hov).1,
          forall_mem_cons.mpr ⟨fun _ => hlate, (hscan.overlap hov).2⟩⟩,
        fun hov hov' => ?_, hscan.valid, fun hv hv' => ?_, fun _ => hscan.recorded (by simp)⟩⟩
      · obtain ⟨hne, u, hu, hrel⟩ := hscan.passed hov hov'
        exact ⟨hne, u, mem_cons_of_mem _ hu, hrel⟩
      · obtain ⟨u, hu, hrel⟩ := hscan.outdated hv hv'
        exact ⟨u, mem_cons_of_mem _ hu, hrel⟩
    · rw [if_neg hlate] at hfound ⊢
      obtain ⟨hs, hscan⟩ := ih hfound
      refine ⟨hs, ⟨forall_mem_cons.mpr ⟨fun _ => hdata, hscan.unmatched⟩,
        fun hov => absurd (hscan.overlap hov).1 (by simp),
        fun _ _ => ⟨hscan.recorded (by simp), w, mem_cons_self, hrel', by omega⟩,
        fun hv => ?_, fun hv hv' => ?_, fun _ => hscan.recorded (by simp)⟩⟩
      · have hkept := hscan.valid hv
        split_ifs at hkept
        exact hkept
      · by_cases hobs : lastObs.complete < w.start
        · exact ⟨w, mem_cons_self, hrel', by omega, hobs⟩
        · obtain ⟨u, hu, hrel⟩ := hscan.outdated hv (by rw [if_neg hobs, hv'])
          exact ⟨u, mem_cons_of_mem _ hu, hrel⟩

/-- What a scan of clusters without a match has seen. -/
structure Scanned (lastObs : Transaction) (start : ℕ) (data : UInt8) (cs : List WriteCluster)
    (s s' : Scan) : Prop where
  unmatched : ∀ pre c post, cs = pre ++ c :: post →
    (∀ b ∈ pre, ∀ w ∈ b.writes, Relevant lastObs w → start < w.complete) →
    ∀ w ∈ c.writes, Relevant lastObs w → w.data ≠ data
  overlap : s'.wcOverlap = true → ∀ c ∈ cs, ∀ w ∈ c.writes, Relevant lastObs w → start < w.complete
  passed : s'.wcOverlap = false → s'.lastExpectedData ≠ [] ∧
    ∃ c ∈ cs, ∃ w ∈ c.writes, Relevant lastObs w ∧ w.complete ≤ start
  valid : s'.lastObsValid = true → s.lastObsValid = true
  outdated : s'.lastObsValid = false → s.lastObsValid = true →
    ∃ c ∈ cs, ∃ w ∈ c.writes, Relevant lastObs w ∧ w.complete ≤ start ∧
      lastObs.complete < w.start

/-- **The scan** goes on to earlier clusters while all writes overlap. -/
lemma scanClusters_scanned (hs : s.found = false) (hov : s.wcOverlap = true)
    (hfound : (scanClusters lastObs start data cs s).found = false) :
    Scanned lastObs start data cs s (scanClusters lastObs start data cs s) := by
  induction cs generalizing s with
  | nil =>
    refine ⟨fun pre c post hsplit => by simp at hsplit, fun _ => by simp, fun hov' => ?_,
      fun hv => hv, fun hv hv' => ?_⟩
    · rw [scanClusters, hov] at hov'
      cases hov'
    · rw [scanClusters, hv'] at hv
      cases hv
  | cons c cs ih =>
    rw [scanClusters, if_pos ⟨hov, by simp [hs]⟩] at hfound ⊢
    generalize hmid : scanWrites lastObs start data c.writes s = mid at hfound ⊢
    have hmidFound : mid.found = false := by
      by_contra hne
      have hne' : mid.found = true := by simpa using hne
      cases cs with
      | nil =>
        rw [scanClusters, hne'] at hfound
        cases hfound
      | cons d ds =>
        rw [scanClusters, if_neg (by simp [hne']), hne'] at hfound
        cases hfound
    have hw : WritesScanned lastObs start data c.writes s mid := by
      rw [← hmid] at hmidFound ⊢
      exact (scanWrites_scanned hmidFound).2
    cases hmidOv : mid.wcOverlap with
    | true =>
      have hrest := ih hmidFound hmidOv hfound
      refine ⟨fun pre b post hsplit hpre => ?_, fun hov' => forall_mem_cons.mpr
        ⟨(hw.overlap hmidOv).2, hrest.overlap hov'⟩, fun hov' => ?_,
        fun hv => hw.valid (hrest.valid hv), fun hv hv' => ?_⟩
      · cases pre with
        | nil =>
          cases hsplit
          exact hw.unmatched
        | cons p ps =>
          obtain ⟨rfl, htail⟩ := cons_eq_cons.mp hsplit
          exact hrest.unmatched ps b post htail fun d hd => hpre d (mem_cons_of_mem _ hd)
      · obtain ⟨hne, d, hd, hin⟩ := hrest.passed hov'
        exact ⟨hne, d, mem_cons_of_mem _ hd, hin⟩
      · cases hmidValid : mid.lastObsValid with
        | true =>
          obtain ⟨d, hd, hin⟩ := hrest.outdated hv hmidValid
          exact ⟨d, mem_cons_of_mem _ hd, hin⟩
        | false => exact ⟨c, mem_cons_self, hw.outdated hmidValid hv'⟩
    | false =>
      -- the scan ends with this cluster
      have hend : scanClusters lastObs start data cs mid = mid := by
        cases cs with
        | nil => rfl
        | cons d ds => rw [scanClusters, if_neg (by simp [hmidOv])]
      rw [hend] at hfound ⊢
      obtain ⟨hne, u, hu, hrel, hbefore⟩ := hw.passed hmidOv hov
      refine ⟨fun pre b post hsplit hpre => ?_, fun hov' => by simp [hmidOv] at hov',
        fun _ => ⟨hne, c, mem_cons_self, u, hu, hrel, hbefore⟩, hw.valid,
        fun hv hv' => ⟨c, mem_cons_self, hw.outdated hv hv'⟩⟩
      cases pre with
      | nil =>
        cases hsplit
        exact hw.unmatched
      | cons p ps =>
        obtain ⟨rfl, -⟩ := cons_eq_cons.mp hsplit
        have hlate := hpre c mem_cons_self u hu hrel
        omega

end Scan

/-! ### Clusters -/

namespace WriteCluster

variable {c : WriteCluster} {now t serial : ℕ} {data : UInt8} {w : Transaction}
  {ws : List Transaction}

/-- Ticks and counter of a started cluster agree with its writes. -/
structure Wf (c : WriteCluster) (now : ℕ) : Prop where
  serials : (c.writes.map Transaction.serial).Nodup
  numIncomplete : c.numIncomplete = c.writes.countP (·.complete = tickFuture)
  completed : ∀ w ∈ c.writes, w.complete ≠ tickFuture → w.complete ≤ c.completeMax
  completeMax : c.completeMax ≤ now
  start : c.start ≤ now
  complete : c.complete =
    if c.numIncomplete = 0 ∧ c.writes ≠ [] then c.completeMax else tickFuture

lemma Wf.mono (h : c.Wf now) (ht : now ≤ t) : c.Wf t :=
  { h with completeMax := h.completeMax.trans ht, start := h.start.trans ht }

lemma Wf.isComplete_iff (h : c.Wf now) (hnow : now < tickFuture) :
    c.isComplete = true ↔ c.numIncomplete = 0 ∧ c.writes ≠ [] := by
  have hmax := h.completeMax
  rw [isComplete, decide_eq_true_iff, h.complete]
  split_ifs with hdone
  · exact ⟨fun _ => hdone, fun _ => by omega⟩
  · exact ⟨fun hne => absurd rfl hne, fun hd => absurd hd hdone⟩

lemma Wf.complete_le (h : c.Wf now) (hnow : now < tickFuture) (hc : c.isComplete = true)
    (hw : w ∈ c.writes) : w.complete ≠ tickFuture ∧ w.complete ≤ c.complete := by
  obtain ⟨hnum, hne⟩ := (h.isComplete_iff hnow).mp hc
  have hw' : w.complete ≠ tickFuture := by
    rw [h.numIncomplete, countP_eq_zero] at hnum
    simpa using hnum w hw
  rw [h.complete, if_pos ⟨hnum, hne⟩]
  exact ⟨hw', h.completed w hw hw'⟩

/-- Where a write of a given serial stands. -/
lemma split_serial (hnodup : (ws.map Transaction.serial).Nodup) (hw : w ∈ ws)
    (f : Transaction → Transaction) :
    ∃ l₁ l₂, ws = l₁ ++ w :: l₂ ∧ ws.find? (·.serial = w.serial) = some w ∧
      ws.map (fun v => if v.serial = w.serial then f v else v) = l₁ ++ f w :: l₂ ∧
      ws.filter (·.serial ≠ w.serial) = l₁ ++ l₂ := by
  obtain ⟨l₁, l₂, rfl⟩ := append_of_mem hw
  rw [map_append, map_cons, nodup_append', nodup_cons] at hnodup
  obtain ⟨-, ⟨hright, -⟩, hdisj⟩ := hnodup
  have h₁ : ∀ v ∈ l₁, v.serial ≠ w.serial := fun v hv heq =>
    hdisj (mem_map_of_mem hv) (heq ▸ mem_cons_self)
  have h₂ : ∀ v ∈ l₂, v.serial ≠ w.serial := fun v hv heq => hright (heq ▸ mem_map_of_mem hv)
  have hkeep : ∀ l : List Transaction, (∀ v ∈ l, v.serial ≠ w.serial) →
      l.map (fun v => if v.serial = w.serial then f v else v) = l := fun l hl => by
    conv_rhs => rw [← map_id l]
    exact map_congr_left fun v hv => if_neg (hl v hv)
  refine ⟨l₁, l₂, rfl, ?_, ?_, ?_⟩
  · rw [find?_append, find?_eq_none.mpr (by simpa using h₁)]
    simp
  · rw [map_append, map_cons, hkeep l₁ h₁, hkeep l₂ h₂, if_pos rfl]
  · rw [filter_append, filter_cons_of_neg (by simp),
      filter_eq_self.mpr (by simpa using h₁), filter_eq_self.mpr (by simpa using h₂)]

lemma startWrite_wf (serial : ℕ) (data : UInt8)
    (hc : c = fresh ∨ c.Wf now ∧ c.isComplete = false) (hnow : now ≤ t) (ht : t < tickFuture)
    (hserial : ∀ w ∈ c.writes, w.serial ≠ serial) :
    ∃ c', c.startWrite serial t data = .ok c' ∧ c'.Wf t ∧
      c'.writes = c.writes ++ [⟨serial, t, tickFuture, data⟩] := by
  have hins : insert c.writes ⟨serial, t, tickFuture, data⟩ =
      c.writes ++ [⟨serial, t, tickFuture, data⟩] := by
    rw [insert, if_neg (by simpa using hserial)]
  -- the fields that the new cluster takes over
  have hkept : (c.writes.map Transaction.serial).Nodup ∧
      c.numIncomplete = c.writes.countP (·.complete = tickFuture) ∧
      (∀ w ∈ c.writes, w.complete ≠ tickFuture → w.complete ≤ c.completeMax) ∧
      c.completeMax ≤ now ∧ c.complete = tickFuture ∧
      (if c.start = tickFuture then t else c.start) ≤ t := by
    rcases hc with rfl | ⟨hwf, hinc⟩
    · exact ⟨nodup_nil, rfl, by simp [fresh], Nat.zero_le _, rfl, le_of_eq (if_pos rfl)⟩
    · have hstart := hwf.start
      refine ⟨hwf.serials, hwf.numIncomplete, hwf.completed, hwf.completeMax, ?_, ?_⟩
      · simpa [isComplete] using hinc
      · rw [if_neg (by omega)]
        omega
  obtain ⟨hnodup, hnum, hcompleted, hmax, hcomplete, hfirst⟩ := hkept
  have hstart : c.startWrite serial t data = .ok
      { start := if c.start = tickFuture then t else c.start
        complete := tickFuture
        writes := c.writes ++ [⟨serial, t, tickFuture, data⟩]
        completeMax := c.completeMax
        numIncomplete := c.numIncomplete + 1 } := by
    simp only [startWrite, isComplete, hcomplete, hins, hfirst, ne_eq, not_true_eq_false,
      decide_false, Bool.false_eq_true, if_false, false_and]
  refine ⟨_, hstart, ⟨?_, ?_, fun w hw hw' => ?_, hmax.trans hnow, hfirst, ?_⟩, rfl⟩
  · rw [map_append]
    refine nodup_append'.mpr ⟨hnodup, nodup_singleton _, ?_⟩
    simpa [disjoint_singleton] using hserial
  · rw [countP_append, ← hnum]
    simp
  · rcases mem_snoc.mp hw with hw | rfl
    · exact hcompleted w hw hw'
    · exact absurd rfl hw'
  · exact (if_neg (fun hand => Nat.succ_ne_zero _ hand.1)).symm

lemma completeWrite_wf (hc : c.Wf now) (hnow : now ≤ t) (hw : w ∈ c.writes)
    (hopen : w.complete = tickFuture) (ht : t < tickFuture) :
    ∃ c', c.completeWrite w.serial t = .ok c' ∧ c'.Wf t ∧ c'.start = c.start ∧
      c'.writes = c.writes.map fun v =>
        if v.serial = w.serial then { v with complete := t } else v := by
  obtain ⟨l₁, l₂, hsplit, hfind, hmap, -⟩ :=
    split_serial hc.serials hw fun v => { v with complete := t }
  have hnum : c.numIncomplete - 1 =
      (l₁ ++ { w with complete := t } :: l₂).countP (·.complete = tickFuture) := by
    rw [hc.numIncomplete, hsplit, countP_append, countP_append,
      countP_cons_of_pos (by simp [hopen]), countP_cons_of_neg (by simp; omega)]
    omega
  have hmax := hc.completeMax
  rw [completeWrite, hfind]
  dsimp only
  rw [if_neg (not_not.mpr hopen), hmap]
  refine ⟨_, rfl, ⟨?_, hnum, fun v hv hv' => ?_, ?_, hc.start.trans hnow, ?_⟩, rfl, rfl⟩
  · have hserials := hc.serials
    rw [hsplit] at hserials
    simpa using hserials
  · have hle : c.completeMax ≤ if c.completeMax < t then t else c.completeMax := by
      split_ifs <;> omega
    rcases mem_append.mp hv with hv | hv
    · exact (hc.completed v (by rw [hsplit]; exact mem_append_left _ hv) hv').trans hle
    · rcases mem_cons.mp hv with rfl | hv
      · dsimp only
        split_ifs <;> omega
      · refine (hc.completed v ?_ hv').trans hle
        rw [hsplit]
        exact mem_append_right _ (mem_cons_of_mem _ hv)
  · dsimp only
    split_ifs <;> omega
  · dsimp only
    by_cases hzero : c.numIncomplete - 1 = 0
    · rw [if_pos hzero]
      exact (if_pos ⟨hzero, by simp⟩).symm
    · rw [if_neg hzero, if_neg (fun hand => hzero hand.1), hc.complete,
        if_neg (fun hand => hzero (by rw [hand.1]))]

lemma abortWrite_wf (hc : c.Wf now) (hw : w ∈ c.writes) (hopen : w.complete = tickFuture) :
    (c.abortWrite w.serial).Wf now ∧ (c.abortWrite w.serial).start = c.start ∧
      (c.abortWrite w.serial).writes = c.writes.filter (·.serial ≠ w.serial) := by
  obtain ⟨l₁, l₂, hsplit, -, -, hfilter⟩ := split_serial hc.serials hw id
  have hnum : c.numIncomplete - 1 = (l₁ ++ l₂).countP (·.complete = tickFuture) := by
    rw [hc.numIncomplete, hsplit, countP_append, countP_append,
      countP_cons_of_pos (by simp [hopen])]
    omega
  have hsub : (l₁ ++ l₂).Sublist c.writes := by
    rw [← hfilter]
    exact filter_sublist
  rw [abortWrite, if_pos (any_eq_true.mpr ⟨w, hw, by simp⟩), hfilter]
  refine ⟨⟨hc.serials.sublist (hsub.map _), hnum,
    fun v hv => hc.completed v (hsub.subset hv), hc.completeMax, hc.start, ?_⟩, rfl, rfl⟩
  dsimp only
  split_ifs with hdone
  · rfl
  · have hcount : 0 < c.numIncomplete := by
      rw [hc.numIncomplete]
      exact countP_pos_iff.mpr ⟨w, hw, by simp [hopen]⟩
    rw [hc.complete, if_neg (by omega)]

end WriteCluster

end MemChecker

end ShifDram
