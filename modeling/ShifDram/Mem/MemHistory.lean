import ShifDram.Mem.MemChecker

/-!
The memory checker on linearizable histories of one byte.

`World` is a checker together with a memory cell. A write takes effect, and a read takes its
value, in a step of its own between start and completion, so the runs of `World` are the
linearizable histories with their linearization points.
-/

namespace ShifDram

open List Function

namespace MemChecker

/-- A transaction in flight, and what memory did with it. -/
inductive Pending where
  | idle
  | reading (taken : Option UInt8)
  | writing (data : UInt8) (effective : Bool)
  deriving DecidableEq

structure World where
  tracker : ByteTracker
  nextSerial : ℕ
  now : ℕ
  memory : UInt8
  pending : ℕ → Pending

/-- What can happen. A reset may change the value. -/
inductive Act where
  | startRead (t : ℕ)
  | startWrite (t : ℕ) (data : UInt8)
  | takesValue (serial : ℕ)
  | takesEffect (serial : ℕ)
  | completeRead (serial t : ℕ)
  | completeWrite (serial t : ℕ)
  | abortWrite (serial : ℕ)
  | reset (value : UInt8)

namespace World

/-- Ticks do not decrease; transactions complete after their value or effect; an aborted write has
none. -/
def Enabled (x : World) : Act → Prop
  | .startRead t | .startWrite t _ => x.now ≤ t
  | .takesValue serial => x.pending serial = .reading none
  | .takesEffect serial | .abortWrite serial => ∃ data, x.pending serial = .writing data false
  | .completeRead serial t => x.now ≤ t ∧ ∃ v, x.pending serial = .reading (some v)
  | .completeWrite serial t => x.now ≤ t ∧ ∃ data, x.pending serial = .writing data true
  | .reset _ => True

/-- What happens, with the answer of `completeRead`. -/
def step (x : World) : Act → Except Abort (Bool × World)
  | .startRead t => .ok (true, { x with
      tracker := x.tracker.startRead x.nextSerial t
      nextSerial := x.nextSerial + 1
      now := t
      pending := update x.pending x.nextSerial (.reading none) })
  | .startWrite t data => (x.tracker.startWrite x.nextSerial t data).map fun b =>
    (true, { x with
      tracker := b
      nextSerial := x.nextSerial + 1
      now := t
      pending := update x.pending x.nextSerial (.writing data false) })
  | .takesValue serial => .ok (true, { x with
      pending := update x.pending serial (.reading (some x.memory)) })
  | .takesEffect serial =>
    match x.pending serial with
    | .writing data _ => .ok (true, { x with
        memory := data
        pending := update x.pending serial (.writing data true) })
    | _ => .ok (true, x)
  | .completeRead serial t =>
    match x.pending serial with
    | .reading (some data) => (x.tracker.completeRead serial t data).map fun r =>
      (r.1, { x with
        tracker := r.2, now := t, pending := update x.pending serial .idle })
    | _ => .ok (true, x)
  | .completeWrite serial t => (x.tracker.completeWrite serial t).map fun b =>
    (true, { x with
      tracker := b, now := t, pending := update x.pending serial .idle })
  | .abortWrite serial => .ok (true, { x with
      tracker := x.tracker.abortWrite serial
      pending := update x.pending serial .idle })
  | .reset value => .ok (true, { x with tracker := .initial, memory := value })

inductive Run (condition : World → Act → Prop) : World → Prop
  | init (now : ℕ) (memory : UInt8) (hnow : now < tickFuture) :
      Run condition ⟨.initial, 0, now, memory, fun _ => .idle⟩
  | step {x x' : World} {a : Act} {result : Bool} (hx : Run condition x) (ha : Enabled x a)
      (hc : condition x a) (h : step x a = .ok (result, x')) : Run condition x'

/-- No write completes at the start of an outstanding read, no read at the start of a cluster, and
the byte is not reset under a write. -/
def Clear (x : World) : Act → Prop
  | .startRead t | .startWrite t _ => t < tickFuture
  | .completeRead _ t => t < tickFuture ∧ ∀ c ∈ x.tracker.writeClusters, c.start < t
  | .completeWrite _ t => t < tickFuture ∧ ∀ r ∈ x.tracker.outstandingReads, r.start < t
  | .reset _ => ∀ serial data effective, x.pending serial ≠ .writing data effective
  | .takesValue _ | .takesEffect _ | .abortWrite _ => True

end World

/-! ### The invariant -/

/-- The linearization: the number of effects, the values between them, and by serial a write's
effect and the effects before a read. -/
structure Line where
  count : ℕ
  value : ℕ → UInt8
  effect : ℕ → Option ℕ
  taken : ℕ → Option ℕ

def Line.push (g : Line) (serial : ℕ) (data : UInt8) : Line :=
  { g with
    count := g.count + 1
    value := update g.value (g.count + 1) data
    effect := update g.effect serial (some (g.count + 1)) }

lemma Line.push_value (g : Line) (serial : ℕ) (data : UInt8) {k : ℕ} (hk : k ≤ g.count) :
    (g.push serial data).value k = g.value k :=
  update_of_ne (by omega) _ _

lemma Line.push_effect (g : Line) {serial s : ℕ} (data : UInt8) (hne : s ≠ serial) :
    (g.push serial data).effect s = g.effect s :=
  update_of_ne hne _ _

lemma Line.push_effect_self (g : Line) (serial : ℕ) (data : UInt8) :
    (g.push serial data).effect serial = some (g.count + 1) :=
  update_self _ _ _

def ByteTracker.writes (b : ByteTracker) : List Transaction :=
  b.writeClusters.flatMap WriteCluster.writes

variable {g : Line} {x : World} {w r o : Transaction} {c c' : WriteCluster} {serial t k p : ℕ}
  {x' : World}

lemma ByteTracker.mem_writes {b : ByteTracker} :
    w ∈ b.writes ↔ ∃ c ∈ b.writeClusters, w ∈ c.writes :=
  mem_flatMap

structure WriteOk (g : Line) (x : World) (w : Transaction) : Prop where
  serial : w.serial < x.nextSerial
  start : w.start ≤ x.now
  effect : ∀ k, g.effect w.serial = some k → 0 < k ∧ k ≤ g.count ∧ g.value k = w.data
  inFlight : w.complete = tickFuture →
    x.pending w.serial = .writing w.data (g.effect w.serial).isSome
  done : w.complete ≠ tickFuture →
    w.complete ≤ x.now ∧ x.pending w.serial = .idle ∧ (g.effect w.serial).isSome

structure ReadOk (g : Line) (x : World) (r : Transaction) : Prop where
  serial : r.serial < x.nextSerial
  start : r.start ≤ x.now
  pending : x.pending r.serial = .reading ((g.taken r.serial).map g.value)
  taken : ∀ k, g.taken r.serial = some k → k ≤ g.count
  after : ∀ w ∈ x.tracker.writes, ∀ p k, g.effect w.serial = some p →
    g.taken r.serial = some k → w.complete ≤ r.start → p ≤ k

lemma WriteOk.frame (h : WriteOk g x w) (hserial : x.nextSerial ≤ x'.nextSerial)
    (hnow : x.now ≤ x'.now) (hpending : x'.pending w.serial = x.pending w.serial) :
    WriteOk g x' w := by
  refine ⟨h.serial.trans_le hserial, h.start.trans hnow, h.effect, ?_, fun hdone => ?_⟩
  · rw [hpending]
    exact h.inFlight
  · rw [hpending]
    exact ⟨(h.done hdone).1.trans hnow, (h.done hdone).2⟩

lemma ReadOk.frame (h : ReadOk g x r) (hserial : x.nextSerial ≤ x'.nextSerial)
    (hnow : x.now ≤ x'.now) (hpending : x'.pending r.serial = x.pending r.serial)
    (hwrites : ∀ w ∈ x'.tracker.writes, w ∈ x.tracker.writes) : ReadOk g x' r :=
  ⟨h.serial.trans_le hserial, h.start.trans hnow, hpending.trans h.pending, h.taken,
    fun w hw => h.after w (hwrites w hw)⟩

/-- Where an observation stands among effects and values. -/
structure Seen (g : Line) (b : ByteTracker) (o : Transaction) (k : ℕ) : Prop where
  le : k ≤ g.count
  value : g.value k = o.data
  after : ∀ w ∈ b.writes, ∀ p, g.effect w.serial = some p → w.complete < o.start → p ≤ k
  before : ∀ w ∈ b.writes, ∀ p, g.effect w.serial = some p → o.complete < w.start → k < p
  reads : ∀ r ∈ b.outstandingReads, ∀ k', g.taken r.serial = some k' →
    o.complete < r.start → k ≤ k'

/-- An observation; one at the initial tick says nothing. -/
structure ObsOk (g : Line) (x : World) (o : Transaction) : Prop where
  le : o.start ≤ o.complete
  now : o.complete ≤ x.now
  seen : o.complete = tickInitial ∨ ∃ k, Seen g x.tracker o k

def Before (g : Line) (c c' : WriteCluster) : Prop :=
  c.isComplete = true ∧ ∀ w ∈ c.writes, ∀ w' ∈ c'.writes, ∀ p p',
    g.effect w.serial = some p → g.effect w'.serial = some p' → p < p'

/-- A known write's effect, or too old for every read. -/
def Covered (g : Line) (b : ByteTracker) (q : ℕ) : Prop :=
  (∃ w ∈ b.writes, g.effect w.serial = some q) ∨
    q < g.count ∧ ∀ r ∈ b.outstandingReads, ∀ k, g.taken r.serial = some k → q < k

/-- The first observation is before every read to come or outstanding. -/
def FirstObs (x : World) : Prop :=
  ∃ o rest, x.tracker.readObservations = o :: rest ∧ (o.complete = tickInitial ∨
      o.complete < x.now ∧ ∀ r ∈ x.tracker.outstandingReads, o.complete < r.start)

structure Inv (g : Line) (x : World) : Prop where
  now : x.now < tickFuture
  memory : g.value g.count = x.memory
  fresh : ∀ s, x.nextSerial ≤ s → x.pending s = .idle ∧ g.effect s = none ∧ g.taken s = none
  clusters : ∀ c ∈ x.tracker.writeClusters, c.Wf x.now
  order : x.tracker.writeClusters.Pairwise (Before g)
  writes : ∀ w ∈ x.tracker.writes, WriteOk g x w
  inFlight : ∀ s data effective, x.pending s = .writing data effective →
    ∃ w ∈ x.tracker.writes, w.serial = s ∧ w.complete = tickFuture
  reads : ∀ r ∈ x.tracker.outstandingReads, ReadOk g x r
  readOrder : x.tracker.outstandingReads.Pairwise fun r r' =>
    r.serial < r'.serial ∧ r.start ≤ r'.start
  observations : ∀ o ∈ x.tracker.readObservations, ObsOk g x o
  firstObs : FirstObs x
  covered : ∀ q, 0 < q → q ≤ g.count → Covered g x.tracker q

namespace Inv

lemma done_effect (h : Inv g x) (hw : w ∈ x.tracker.writes) (hle : w.complete ≤ t)
    (ht : t < tickFuture) : ∃ p, g.effect w.serial = some p ∧ 0 < p := by
  obtain ⟨-, -, heff⟩ := (h.writes w hw).done (by omega)
  obtain ⟨p, hp⟩ := Option.isSome_iff_exists.mp heff
  exact ⟨p, hp, ((h.writes w hw).effect p hp).1⟩

/-! ### The read is accepted -/

section Accept

variable {k : ℕ}

/-- The write whose value the read took is found, unless the last observation hides it. -/
lemma found (h : Inv g x) (hr : r ∈ x.tracker.outstandingReads)
    (hk : g.taken r.serial = some k) (lastObs : Transaction) (valid : Bool) (hpos : 0 < k)
    (hrel : ∀ w ∈ x.tracker.writes, g.effect w.serial = some k → Relevant lastObs w) :
    (scanClusters lastObs r.start (g.value k) x.tracker.writeClusters.reverse
      ⟨false, true, valid, []⟩).found = true := by
  by_contra hnot
  have hscan := scanClusters_scanned rfl rfl (Bool.eq_false_iff.mpr hnot)
  have hread := h.reads r hr
  have hnow := h.now
  have hstart := hread.start
  obtain ⟨w, hw, hwk⟩ : ∃ w ∈ x.tracker.writes, g.effect w.serial = some k := by
    rcases h.covered k hpos (hread.taken k hk) with hin | ⟨-, hold⟩
    · exact hin
    · exact absurd (hold r hr k hk) (lt_irrefl k)
  obtain ⟨c, hc, hwc⟩ := ByteTracker.mem_writes.mp hw
  obtain ⟨earlier, later, hsplit⟩ := append_of_mem hc
  have horder := h.order
  rw [hsplit, pairwise_append, pairwise_cons] at horder
  -- writes of later clusters took effect later, so they overlap the read
  have hlater : ∀ b ∈ later.reverse, ∀ u ∈ b.writes, Relevant lastObs u → r.start < u.complete := by
    intro b hb u hu _
    by_contra hle
    have hb' : b ∈ later := mem_reverse.mp hb
    have hu' : u ∈ x.tracker.writes := ByteTracker.mem_writes.mpr
      ⟨b, by rw [hsplit]; exact mem_append_right _ (mem_cons_of_mem _ hb'), hu⟩
    obtain ⟨p, hp, -⟩ := h.done_effect hu' (not_lt.mp hle) (by omega)
    have hbefore := (horder.2.1.1 b hb').2 w hwc u hu k p hwk hp
    have hafter := hread.after u hu' p k hp hk (not_lt.mp hle)
    omega
  refine hscan.unmatched later.reverse c earlier.reverse ?_ hlater w hwc (hrel w hw hwk)
    ((h.writes w hw).effect k hwk).2.2.symm
  rw [hsplit, reverse_append, reverse_cons, append_assoc, singleton_append]

/-- **A read that has taken its value is accepted.** -/
lemma expected (h : Inv g x) (hr : r ∈ x.tracker.outstandingReads)
    (hk : g.taken r.serial = some k) (hstart : ∀ c ∈ x.tracker.writeClusters, c.start < t) :
    ∃ l, x.tracker.inExpectedData r.start t (g.value k) = .ok (true, l) := by
  have hread := h.reads r hr
  have hnow := h.now
  have hrnow := hread.start
  obtain ⟨o₀, rest, hobs, hfirst⟩ := h.firstObs
  obtain ⟨pre, y, post, hsplit, hlast, hpre, -⟩ :=
    lastCompletedTransaction_spec Transaction.complete r.start
      (l := x.tracker.readObservations) (by simp [hobs])
  have hy := h.observations y (by rw [hsplit]; simp)
  have hyle := hy.le
  have hbefore : y.complete = tickInitial ∨ y.complete < r.start := by
    rcases hpre with rfl | hlt
    · rw [hobs] at hsplit
      cases hsplit
      exact hfirst.imp_right fun hf => hf.2 r hr
    · exact Or.inr hlt
  rw [ByteTracker.inExpectedData, hlast]
  dsimp only [Except.bind]
  have hfind := h.found hr hk y (decide (y.complete ≠ tickInitial))
  have hscan : ∀ s, scanClusters y r.start (g.value k) x.tracker.writeClusters.reverse
      ⟨false, true, decide (y.complete ≠ tickInitial), []⟩ = s → s.found = false →
      Scanned y r.start (g.value k) x.tracker.writeClusters.reverse
        ⟨false, true, decide (y.complete ≠ tickInitial), []⟩ s := by
    rintro s rfl hfound
    exact scanClusters_scanned rfl rfl hfound
  generalize hs : scanClusters y r.start (g.value k) x.tracker.writeClusters.reverse
    ⟨false, true, decide (y.complete ≠ tickInitial), []⟩ = s at hfind ⊢
  cases hfound : s.found with
  | true => exact ⟨_, if_pos rfl⟩
  | false =>
  have hscan := hscan s hs hfound
  -- an observation with an older value than the read's would not hide the write
  have hseen : ∀ k', Seen g x.tracker y k' → ¬ k' < k := by
    intro k' hk' hlt
    refine absurd (hfind (by omega) fun w hw hwk => ?_) (by simp [hfound])
    by_contra hrel
    have hle := hk'.after w hw k hwk (not_le.mp hrel)
    omega
  have hinit : y.complete = tickInitial → k = 0 := by
    intro hzero
    by_contra hne
    refine absurd (hfind (by omega) fun w _ _ => ?_) (by simp [hfound])
    rw [Relevant]
    rw [tickInitial] at hzero
    omega
  rw [if_neg (by simp)]
  cases hvalid : s.lastObsValid with
  | true =>
    have hne : y.complete ≠ tickInitial := by simpa using hscan.valid hvalid
    have hlt := hbefore.resolve_left hne
    obtain ⟨k', hk'⟩ := hy.seen.resolve_left hne
    have hle := hk'.reads r hr k hk hlt
    obtain rfl : k' = k := by
      have := hseen k' hk'
      omega
    refine ⟨s.lastExpectedData ++ [], ?_⟩
    rw [if_pos rfl, if_neg (by omega), if_pos hk'.value.symm, decide_eq_true hk'.value.symm]
  | false =>
    rw [if_neg (by simp)]
    -- nothing has been observed and no write has completed before the read
    have hzero : y.complete = tickInitial := by
      by_contra hne
      obtain ⟨c, hc, w, hw, -, hle, hlt⟩ := hscan.outdated hvalid (by simpa using hne)
      have hw' : w ∈ x.tracker.writes := ByteTracker.mem_writes.mpr ⟨c, mem_reverse.mp hc, hw⟩
      obtain ⟨p, hp, -⟩ := h.done_effect hw' hle (by omega)
      obtain ⟨k', hk'⟩ := hy.seen.resolve_left hne
      have h₁ := hk'.before w hw' p hp hlt
      have h₂ := hread.after w hw' p k hp hk hle
      have h₃ := hseen k' hk'
      omega
    have hoverlap : s.wcOverlap = true := by
      by_contra hov
      obtain ⟨-, c, hc, w, hw, -, hle⟩ := hscan.passed (Bool.eq_false_iff.mpr hov)
      have hw' : w ∈ x.tracker.writes := ByteTracker.mem_writes.mpr ⟨c, mem_reverse.mp hc, hw⟩
      obtain ⟨p, hp, hpos⟩ := h.done_effect hw' hle (by omega)
      have h₁ := hread.after w hw' p k hp hk hle
      omega
    by_cases hnil : x.tracker.writeClusters = []
    · rw [hnil] at hs
      have hempty : s.lastExpectedData = [] := by
        rw [← hs]
        rfl
      rw [if_neg (fun hand => hand.1 hnil), if_pos hempty, if_pos hzero]
      exact ⟨_, rfl⟩
    · rw [if_pos ⟨hnil, hoverlap⟩]
      have hcover : clustersOverlap x.tracker.writeClusters r.start t = true := by
        obtain ⟨c, cs, hcs⟩ := exists_cons_of_ne_nil hnil
        obtain ⟨ds, d, hds⟩ := (eq_nil_or_concat' _).resolve_left hnil
        have hd : d ∈ x.tracker.writeClusters := by rw [hds]; simp
        have hlate : r.start < d.complete := by
          cases hdone : d.isComplete with
          | false =>
            have hopen : d.complete = tickFuture := by
              simpa [WriteCluster.isComplete] using hdone
            omega
          | true =>
            have hwf := h.clusters d hd
            obtain ⟨u, hu⟩ := exists_mem_of_ne_nil _ ((hwf.isComplete_iff hnow).mp hdone).2
            have hle := (hwf.complete_le hnow hdone hu).2
            have hlt := hscan.overlap hoverlap d (mem_reverse.mpr hd) u hu
              (by rw [Relevant]; rw [tickInitial] at hzero; omega)
            omega
        rw [clustersOverlap, Bool.and_eq_true]
        refine ⟨?_, ?_⟩
        · rw [hcs]
          simpa using hstart c (by rw [hcs]; simp)
        · rw [hds]
          simpa using hlate
      rw [if_pos hcover]
      exact ⟨_, rfl⟩

end Accept

/-! ### Time and pruning -/

lemma advance (h : Inv g x) (hle : x.now ≤ t) (ht : t < tickFuture) :
    Inv g { x with now := t } := { h with
  now := ht
  clusters c hc := (h.clusters c hc).mono hle
  writes w hw := (h.writes w hw).frame le_rfl hle rfl
  reads r hr := (h.reads r hr).frame le_rfl hle rfl fun _ hw => hw
  observations o ho :=
    have hok := h.observations o ho
    ⟨hok.le, hok.now.trans hle, hok.seen⟩
  firstObs := by
    obtain ⟨o, rest, hobs, hfirst⟩ := h.firstObs
    exact ⟨o, rest, hobs, hfirst.imp_right fun hf => ⟨hf.1.trans_le hle, hf.2⟩⟩ }

def pruneTick (x : World) : ℕ :=
  match x.tracker.outstandingReads with
  | [] => x.now
  | r :: _ => r.start

lemma pruneTick_le (h : Inv g x) :
    pruneTick x ≤ x.now ∧ ∀ r ∈ x.tracker.outstandingReads, pruneTick x ≤ r.start := by
  rw [pruneTick]
  have horder := h.readOrder
  have hreads := h.reads
  cases hout : x.tracker.outstandingReads with
  | nil => simp
  | cons r₀ rs =>
    rw [hout] at horder hreads
    refine ⟨(hreads r₀ mem_cons_self).start, forall_mem_cons.mpr ⟨le_rfl, fun r hr => ?_⟩⟩
    exact ((pairwise_cons.mp horder).1 r hr).2

/-- The lists that remain. -/
lemma pruneTransactions_ok (h : Inv g x) :
    ∃ preO y post preC rest, x.tracker.readObservations = preO ++ y :: post ∧
      x.tracker.writeClusters = preC ++ rest ∧
      x.tracker.pruneTransactions x.now =
        .ok { x.tracker with readObservations := y :: post, writeClusters := rest } ∧
      (preO = [] ∨ y.complete < pruneTick x) ∧
      (preC = [] ∨ ∃ c ∈ rest, c.complete < pruneTick x) := by
  obtain ⟨o₀, rest₀, hobs, -⟩ := h.firstObs
  obtain ⟨preO, y, post, hsplit, hlast, hpre, -⟩ :=
    lastCompletedTransaction_spec Transaction.complete (pruneTick x)
      (l := x.tracker.readObservations) (by simp [hobs])
  have hprune : x.tracker.pruneTransactions x.now =
      if x.tracker.writeClusters = [] then .ok { x.tracker with readObservations := y :: post }
      else
        (lastCompletedTransaction WriteCluster.complete x.tracker.writeClusters (pruneTick x)).map
          fun clusters => { x.tracker with
            readObservations := y :: post, writeClusters := clusters } := by
    change (lastCompletedTransaction _ _ (pruneTick x)).bind _ = _
    rw [hlast]
    rfl
  by_cases hnil : x.tracker.writeClusters = []
  · refine ⟨preO, y, post, [], [], hsplit, hnil, ?_, hpre, Or.inl rfl⟩
    rw [hprune, if_pos hnil, ← hnil]
  · obtain ⟨preC, d, ds, hsplit', hlast', hpre', -⟩ :=
      lastCompletedTransaction_spec WriteCluster.complete (pruneTick x) hnil
    refine ⟨preO, y, post, preC, d :: ds, hsplit, hsplit', ?_, hpre,
      hpre'.imp_right fun hlt => ⟨d, mem_cons_self, hlt⟩⟩
    rw [hprune, if_neg hnil, hlast']
    rfl

/-- **Pruning** forgets nothing that is needed. -/
lemma prune (h : Inv g x) :
    ∃ b, x.tracker.pruneTransactions x.now = .ok b ∧ Inv g { x with tracker := b } := by
  obtain ⟨preO, y, post, preC, rest, hobs, hclusters, hok, hpreO, hpreC⟩ := h.pruneTransactions_ok
  obtain ⟨htick, hreads⟩ := h.pruneTick_le
  have hnow := h.now
  refine ⟨_, hok, ?_⟩
  have hsub : ∀ c ∈ rest, c ∈ x.tracker.writeClusters := fun c hc => by
    rw [hclusters]
    exact mem_append_right _ hc
  have hsubw : ∀ w ∈ ByteTracker.writes { x.tracker with
      readObservations := y :: post, writeClusters := rest }, w ∈ x.tracker.writes := by
    intro w hw
    obtain ⟨c, hc, hwc⟩ := ByteTracker.mem_writes.mp hw
    exact ByteTracker.mem_writes.mpr ⟨c, hsub c hc, hwc⟩
  have horder := h.order
  rw [hclusters, pairwise_append] at horder
  -- a cluster that goes is complete and has a later one before the tick
  have hgone : ∀ c ∈ preC, ∃ d ∈ rest, d.complete < pruneTick x ∧ Before g c d := by
    intro c hc
    rcases hpreC with rfl | ⟨d, hd, hlt⟩
    · cases hc
    · exact ⟨d, hd, hlt, horder.2.2 c hc d hd⟩
  have hcases : ∀ w ∈ x.tracker.writes, (∃ c ∈ preC, w ∈ c.writes) ∨ ∃ c ∈ rest, w ∈ c.writes := by
    intro w hw
    obtain ⟨c, hc, hwc⟩ := ByteTracker.mem_writes.mp hw
    rw [hclusters] at hc
    exact (mem_append.mp hc).imp (fun hc => ⟨c, hc, hwc⟩) fun hc => ⟨c, hc, hwc⟩
  exact { h with
      clusters := fun c hc => h.clusters c (hsub c hc)
      order := horder.2.1
      writes := fun w hw => (h.writes w (hsubw w hw)).frame le_rfl le_rfl rfl
      inFlight := by
        intro s data effective hs
        obtain ⟨w, hw, hws, hopen⟩ := h.inFlight s data effective hs
        rcases hcases w hw with ⟨c, hc, hwc⟩ | hin
        · obtain ⟨d, -, -, hbefore⟩ := hgone c hc
          have hwf := h.clusters c (by rw [hclusters]; exact mem_append_left _ hc)
          exact absurd hopen (hwf.complete_le hnow hbefore.1 hwc).1
        · exact ⟨w, ByteTracker.mem_writes.mpr hin, hws, hopen⟩
      reads := fun r hr => (h.reads r hr).frame le_rfl le_rfl rfl hsubw
      observations := by
        intro o ho
        have hok := h.observations o (by rw [hobs]; exact mem_append_right _ ho)
        refine ⟨hok.le, hok.now, hok.seen.imp_right fun ⟨k, hk⟩ => ⟨k, hk.le, hk.value,
          fun w hw => hk.after w (hsubw w hw), fun w hw => hk.before w (hsubw w hw), hk.reads⟩⟩
      firstObs := by
        refine ⟨y, post, rfl, ?_⟩
        rcases hpreO with rfl | hlt
        · obtain ⟨o, os, hobs', hfirst⟩ := h.firstObs
          rw [hobs] at hobs'
          cases hobs'
          exact hfirst
        · exact Or.inr ⟨hlt.trans_le htick, fun r hr => hlt.trans_le (hreads r hr)⟩
      covered := by
        intro q hpos hle
        rcases h.covered q hpos hle with ⟨w, hw, hq⟩ | hold
        · rcases hcases w hw with ⟨c, hc, hwc⟩ | hin
          · -- a write of the later cluster has taken effect since, before all reads
            obtain ⟨d, hd, hlt, hbefore⟩ := hgone c hc
            have hwf := h.clusters d (hsub d hd)
            have hdone : d.isComplete = true := by
              rw [WriteCluster.isComplete, decide_eq_true_iff]
              omega
            obtain ⟨u, hu⟩ := exists_mem_of_ne_nil _ ((hwf.isComplete_iff hnow).mp hdone).2
            have hule := (hwf.complete_le hnow hdone hu).2
            have hu' : u ∈ x.tracker.writes := ByteTracker.mem_writes.mpr ⟨d, hsub d hd, hu⟩
            obtain ⟨p, hp, -⟩ := h.done_effect hu' le_rfl (by omega)
            have hqp := hbefore.2 w hwc u hu q p hq hp
            refine Or.inr ⟨hqp.trans_le ((h.writes u hu').effect p hp).2.1, fun r hr k hk => ?_⟩
            have hr' := hreads r hr
            exact hqp.trans_le ((h.reads r hr).after u hu' p k hp hk (by omega))
          · exact Or.inl ⟨w, ByteTracker.mem_writes.mpr hin, hq⟩
        · exact Or.inr hold }

end Inv

end MemChecker

end ShifDram
