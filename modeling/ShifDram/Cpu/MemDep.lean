import ShifDram.Control.Fallible
import ShifDram.Queue.Log

/-!
Barriers in the memory dependence unit (`cpu/o3/mem_dep_unit_impl.hh`).

The unit remembers the latest memory barrier and the latest barrier of any kind, with a flag for
each that is up while it is in flight. A load or store inserted while a flag is up waits for that
barrier. Barriers complete in program order, so the latest is the last to go; but a squash that
removes the latest takes the flag down also when an older barrier is in flight.
-/

namespace ShifDram

open List Function Fallible

structure MemInst where
  seqNum : ℕ
  isLoad : Bool
  isStore : Bool
  isMemBarrier : Bool
  isWriteBarrier : Bool
  deriving DecidableEq, Repr

namespace MemInst

/-- A barrier is inserted as one, and is no memory reference. -/
def barrier (i : MemInst) : Bool := !i.isLoad && !i.isStore && (i.isMemBarrier || i.isWriteBarrier)

def memBarrier (i : MemInst) : Bool := !i.isLoad && !i.isStore && i.isMemBarrier

lemma barrier_of_memBarrier {i : MemInst} (h : i.memBarrier = true) : i.barrier = true := by
  simp only [memBarrier, barrier, Bool.and_eq_true, Bool.or_eq_true] at h ⊢
  exact ⟨h.1, Or.inl h.2⟩

end MemInst

/-- `MemDepEntry`; the entries that wait for it are named by sequence numbers. -/
structure MemDepEntry where
  inst : MemInst
  dependInsts : List ℕ
  regsReady : Bool
  memDepReady : Bool
  squashed : Bool

inductive MemDepAbort where
  | unknownType
  | notInHash
  | squashed
  deriving DecidableEq, Repr

/-- `MemDepUnit` of one thread; `ready` are the instructions handed to the ready list. -/
structure MemDepUnit where
  entry : ℕ → MemDepEntry
  memDepHash : ℕ → Bool
  instList : List ℕ
  loadBarrier : Bool
  loadBarrierSN : ℕ
  storeBarrier : Bool
  storeBarrierSN : ℕ
  ready : List ℕ

namespace MemDepUnit

/-! ### The functions of the source -/

def init : MemDepUnit :=
  ⟨fun _ => ⟨⟨0, false, false, false, false⟩, [], false, false, false⟩, fun _ => false, [],
    false, 0, false, 0, []⟩

def modify (u : MemDepUnit) (sn : ℕ) (f : MemDepEntry → MemDepEntry) : MemDepUnit :=
  { u with entry := update u.entry sn (f (u.entry sn)) }

def register (u : MemDepUnit) (inst : MemInst) : MemDepUnit :=
  { u with
    entry := update u.entry inst.seqNum ⟨inst, [], false, false, false⟩
    memDepHash := update u.memDepHash inst.seqNum true
    instList := u.instList ++ [inst.seqNum] }

def moveToReady (u : MemDepUnit) (sn : ℕ) : Except MemDepAbort MemDepUnit :=
  if (u.entry sn).squashed then .error .squashed else .ok { u with ready := u.ready ++ [sn] }

/-- The barrier or predicted store to wait for; 0 for none. -/
def producingStore (u : MemDepUnit) (inst : MemInst) (predicted : ℕ) : ℕ :=
  if inst.isLoad && u.loadBarrier then u.loadBarrierSN
  else if inst.isStore && u.storeBarrier then u.storeBarrierSN
  else predicted

/-- The instruction becomes a dependent, or may issue with its registers. -/
def depend (u : MemDepUnit) (sn : ℕ) (readyToIssue : Bool) (producer : ℕ) :
    Except MemDepAbort MemDepUnit :=
  if producer ≠ 0 ∧ u.memDepHash producer = true then
    .ok ((u.modify sn fun e => { e with regsReady := e.regsReady || readyToIssue }).modify producer
      fun e => { e with dependInsts := e.dependInsts ++ [sn] })
  else
    let u := u.modify sn fun e => { e with memDepReady := true }
    if readyToIssue then (u.modify sn fun e => { e with regsReady := true }).moveToReady sn
    else .ok u

/-- `insert`, with the predictor's answer as an input. -/
def insert (u : MemDepUnit) (inst : MemInst) (readyToIssue : Bool) (predicted : ℕ) :
    Except MemDepAbort MemDepUnit :=
  ((u.register inst).depend inst.seqNum readyToIssue
    ((u.register inst).producingStore inst predicted)).bind fun u =>
      if inst.isStore || inst.isLoad then .ok u else .error .unknownType

def insertNonSpec (u : MemDepUnit) (inst : MemInst) : Except MemDepAbort MemDepUnit :=
  if inst.isStore || inst.isLoad then .ok (u.register inst) else .error .unknownType

def raise (u : MemDepUnit) (inst : MemInst) : MemDepUnit :=
  if inst.isMemBarrier then
    { u with
      loadBarrier := true
      loadBarrierSN := inst.seqNum
      storeBarrier := true
      storeBarrierSN := inst.seqNum }
  else if inst.isWriteBarrier then
    { u with storeBarrier := true, storeBarrierSN := inst.seqNum }
  else u

def insertBarrier (u : MemDepUnit) (inst : MemInst) : MemDepUnit := (u.raise inst).register inst

def regsReady (u : MemDepUnit) (sn : ℕ) : Except MemDepAbort MemDepUnit :=
  if u.memDepHash sn = false then .error .notInHash
  else
    let u := u.modify sn fun e => { e with regsReady := true }
    if (u.entry sn).memDepReady then u.moveToReady sn else .ok u

def nonSpecInstReady (u : MemDepUnit) (sn : ℕ) : Except MemDepAbort MemDepUnit :=
  if u.memDepHash sn = false then .error .notInHash else u.moveToReady sn

def completed (u : MemDepUnit) (sn : ℕ) : Except MemDepAbort MemDepUnit :=
  if u.memDepHash sn = false then .error .notInHash
  else .ok { u with
    memDepHash := update u.memDepHash sn false
    instList := u.instList.erase sn }

/-- One round of `wakeDependents`. -/
def wakeOne (u : MemDepUnit) (sn : ℕ) : Except MemDepAbort MemDepUnit :=
  if (u.entry sn).regsReady && !(u.entry sn).squashed then u.moveToReady sn
  else .ok (u.modify sn fun e => { e with memDepReady := true })

def wakeDependents (u : MemDepUnit) (sn : ℕ) : Except MemDepAbort MemDepUnit :=
  let inst := (u.entry sn).inst
  if !inst.isStore && !inst.isMemBarrier && !inst.isWriteBarrier then .ok u
  else if u.memDepHash sn = false then .error .notInHash
  else
    ((u.entry sn).dependInsts.foldlM wakeOne u).map fun u =>
      u.modify sn fun e => { e with dependInsts := [] }

def lower (u : MemDepUnit) (inst : MemInst) : MemDepUnit :=
  if inst.isMemBarrier then
    { u with
      loadBarrier := if u.loadBarrierSN = inst.seqNum then false else u.loadBarrier
      storeBarrier := if u.storeBarrierSN = inst.seqNum then false else u.storeBarrier }
  else if inst.isWriteBarrier then
    { u with storeBarrier := if u.storeBarrierSN = inst.seqNum then false else u.storeBarrier }
  else u

def completeBarrier (u : MemDepUnit) (sn : ℕ) : Except MemDepAbort MemDepUnit :=
  (u.wakeDependents sn).bind fun u₁ => (u₁.completed sn).map fun u₂ => u₂.lower (u.entry sn).inst

/-- One round of `squash`, at the end of the list. -/
def squashOne (u : MemDepUnit) (sn : ℕ) : Except MemDepAbort MemDepUnit :=
  if u.memDepHash sn = false then .error .notInHash
  else
    .ok { u.modify sn fun e => { e with squashed := true } with
      loadBarrier := if sn = u.loadBarrierSN then false else u.loadBarrier
      storeBarrier := if sn = u.storeBarrierSN then false else u.storeBarrier
      memDepHash := update u.memDepHash sn false
      instList := u.instList.dropLast }

/-- The loop of `squash`, from the end of the list. -/
def squashLoop (squashedNum : ℕ) : List ℕ → MemDepUnit → Except MemDepAbort MemDepUnit
  | [], u => .ok u
  | sn :: rest, u =>
    if squashedNum < sn then (u.squashOne sn).bind (squashLoop squashedNum rest) else .ok u

def squash (u : MemDepUnit) (squashedNum : ℕ) : Except MemDepAbort MemDepUnit :=
  squashLoop squashedNum u.instList.reverse u

inductive Call where
  | insert (inst : MemInst) (readyToIssue : Bool) (predicted : ℕ)
  | insertNonSpec (inst : MemInst)
  | insertBarrier (inst : MemInst)
  | regsReady (sn : ℕ)
  | nonSpecInstReady (sn : ℕ)
  | wakeDependents (sn : ℕ)
  | completed (sn : ℕ)
  | completeBarrier (sn : ℕ)
  | squash (squashedNum : ℕ)

def perform (u : MemDepUnit) : Call → Except MemDepAbort MemDepUnit
  | .insert inst readyToIssue predicted => u.insert inst readyToIssue predicted
  | .insertNonSpec inst => u.insertNonSpec inst
  | .insertBarrier inst => .ok (u.insertBarrier inst)
  | .regsReady sn => u.regsReady sn
  | .nonSpecInstReady sn => u.nonSpecInstReady sn
  | .wakeDependents sn => u.wakeDependents sn
  | .completed sn => u.completed sn
  | .completeBarrier sn => u.completeBarrier sn
  | .squash squashedNum => u.squash squashedNum

def barrier (u : MemDepUnit) (b : ℕ) : Prop := b ∈ u.instList ∧ (u.entry b).inst.barrier = true

def memBarrier (u : MemDepUnit) (b : ℕ) : Prop :=
  b ∈ u.instList ∧ (u.entry b).inst.memBarrier = true

/-- The callers' promise: instructions come and barriers complete in program order, each function
for its kind of instruction. -/
def Promised (u : MemDepUnit) (last : ℕ) (spec : List ℕ) : Call → Prop
  | .insert inst _ _ => last < inst.seqNum
  | .insertNonSpec inst => last < inst.seqNum
  | .insertBarrier inst => last < inst.seqNum ∧ inst.barrier = true
  | .nonSpecInstReady sn => sn ∉ spec
  | .wakeDependents sn => (u.entry sn).inst.barrier = false
  | .completed sn => (u.entry sn).inst.barrier = false
  | .completeBarrier sn => u.barrier sn ∧ ∀ b, u.barrier b → sn ≤ b
  | _ => True

def Call.last (last : ℕ) : Call → ℕ
  | .insert inst _ _ => inst.seqNum
  | .insertNonSpec inst => inst.seqNum
  | .insertBarrier inst => inst.seqNum
  | _ => last

/-- The instructions passed to `insert`, after a call. -/
def Call.spec (spec : List ℕ) : Call → List ℕ
  | .insert inst _ _ => inst.seqNum :: spec
  | _ => spec

/-- The unit after calls that meet a condition, the latest sequence number, and what was passed to
`insert`. -/
inductive Run (condition : MemDepUnit → Call → Prop) : MemDepUnit → ℕ → List ℕ → Prop
  | init : Run condition .init 0 []
  | step {u u' : MemDepUnit} {last : ℕ} {spec : List ℕ} {call : Call}
      (h : Run condition u last spec)
      (hpromised : u.Promised last spec call) (hcond : condition u call)
      (hok : u.perform call = .ok u') : Run condition u' (call.last last) (call.spec spec)

/-! ### The invariant -/

variable {u u' : MemDepUnit} {last s sn : ℕ} {spec : List ℕ} {F G : ℕ → Prop} {inst : MemInst}
  {loadBarrier storeBarrier : Bool} {b : ℕ} {u₁ : MemDepUnit} {n : ℕ}

def Blocks (u : MemDepUnit) (b s : ℕ) : Prop :=
  b < s ∧ (u.memBarrier b ∨ (u.barrier b ∧ (u.entry s).inst.isStore = true))

def Clear (u : MemDepUnit) (s : ℕ) : Prop := ∀ b, ¬ u.Blocks b s

/-- Not ready, and depending only on a barrier behind which none blocks it. -/
structure Waits (u : MemDepUnit) (s : ℕ) : Prop where
  notReady : s ∉ u.ready
  notMemDepReady : (u.entry s).memDepReady = false
  depends : ∀ p ∈ u.instList, s ∈ (u.entry p).dependInsts →
    (u.entry p).inst.barrier = true ∧ ∀ b, u.Blocks b s → b ≤ p

/-- The flags name the latest barriers; what is not clear waits for the last that blocks it. -/
structure Inv (u : MemDepUnit) (last : ℕ) (spec : List ℕ) : Prop where
  sorted : u.instList.Pairwise (· < ·)
  listed : ∀ b ∈ u.instList, 0 < b ∧ b ≤ last
  hashed : ∀ b, u.memDepHash b = true ↔ b ∈ u.instList
  numbered : ∀ b ∈ u.instList, (u.entry b).inst.seqNum = b
  handed : ∀ b ∈ u.ready, b ≤ last
  known : ∀ b ∈ spec, b ≤ last
  dependents : ∀ p ∈ u.instList, ∀ b ∈ (u.entry p).dependInsts, b ≤ last
  loads : ∀ b, u.memBarrier b → u.loadBarrier = true ∧ b ≤ u.loadBarrierSN
  loadFlag : u.loadBarrier = true → u.memBarrier u.loadBarrierSN
  stores : ∀ b, u.barrier b → u.storeBarrier = true ∧ b ≤ u.storeBarrierSN
  storeFlag : u.storeBarrier = true → u.barrier u.storeBarrierSN
  waits : ∀ s ∈ spec, ¬ u.Clear s → u.Waits s

lemma inv_init : Inv .init 0 [] := by
  refine ⟨.nil, ?_, ?_, ?_, ?_, ?_, ?_, ?_, ?_, ?_, ?_, ?_⟩ <;> simp [init, memBarrier, barrier]

lemma barrier_of_memBarrier (h : u.memBarrier b) : u.barrier b :=
  ⟨h.1, MemInst.barrier_of_memBarrier h.2⟩

lemma Blocks.barrier (h : u.Blocks b s) : u.barrier b := by
  rcases h.2 with hmem | hbarrier
  · exact barrier_of_memBarrier hmem
  · exact hbarrier.1

/-- The instruction is known, and clear if it was passed to `insert`. -/
def Free (u : MemDepUnit) (last : ℕ) (spec : List ℕ) (a : ℕ) : Prop :=
  a ≤ last ∧ (a ∈ spec → u.Clear a)

/-- Only what entries wait for has changed, for instructions of one kind. -/
structure Woken (F : ℕ → Prop) (u u' : MemDepUnit) : Prop where
  instList : u'.instList = u.instList
  memDepHash : u'.memDepHash = u.memDepHash
  loadBarrier : u'.loadBarrier = u.loadBarrier
  loadBarrierSN : u'.loadBarrierSN = u.loadBarrierSN
  storeBarrier : u'.storeBarrier = u.storeBarrier
  storeBarrierSN : u'.storeBarrierSN = u.storeBarrierSN
  inst : ∀ a, (u'.entry a).inst = (u.entry a).inst
  ready : ∀ a ∈ u'.ready, a ∈ u.ready ∨ F a
  memDepReady : ∀ a, (u'.entry a).memDepReady = true → (u.entry a).memDepReady = true ∨ F a
  dependInsts : ∀ p a, a ∈ (u'.entry p).dependInsts → a ∈ (u.entry p).dependInsts ∨ F a

section

variable (h : Woken F u u')

include h

lemma Woken.barrier_iff (b : ℕ) : u'.barrier b ↔ u.barrier b := by
  rw [barrier, barrier, h.instList, h.inst]

lemma Woken.memBarrier_iff (b : ℕ) : u'.memBarrier b ↔ u.memBarrier b := by
  rw [memBarrier, memBarrier, h.instList, h.inst]

lemma Woken.blocks_iff (b s : ℕ) : u'.Blocks b s ↔ u.Blocks b s := by
  rw [Blocks, Blocks, h.barrier_iff, h.memBarrier_iff, h.inst]

lemma Woken.clear_iff (s : ℕ) : u'.Clear s ↔ u.Clear s :=
  forall_congr' fun b => not_congr (h.blocks_iff b s)

lemma Woken.mono (hG : ∀ a, F a → G a) : Woken G u u' :=
  { h with
    ready := fun a ha => (h.ready a ha).imp_right (hG a)
    memDepReady := fun a ha => (h.memDepReady a ha).imp_right (hG a)
    dependInsts := fun p a ha => (h.dependInsts p a ha).imp_right (hG a) }

omit h in
lemma Woken.refl (F : ℕ → Prop) (u : MemDepUnit) : Woken F u u :=
  ⟨rfl, rfl, rfl, rfl, rfl, rfl, fun _ => rfl, fun _ => Or.inl, fun _ => Or.inl, fun _ _ => Or.inl⟩

lemma Woken.trans {u'' : MemDepUnit} (h' : Woken F u' u'') : Woken F u u'' :=
  ⟨h'.instList.trans h.instList, h'.memDepHash.trans h.memDepHash,
    h'.loadBarrier.trans h.loadBarrier, h'.loadBarrierSN.trans h.loadBarrierSN,
    h'.storeBarrier.trans h.storeBarrier, h'.storeBarrierSN.trans h.storeBarrierSN,
    fun a => (h'.inst a).trans (h.inst a), fun a ha => (h'.ready a ha).elim (h.ready a) Or.inr,
    fun a ha => (h'.memDepReady a ha).elim (h.memDepReady a) Or.inr,
    fun p a ha => (h'.dependInsts p a ha).elim (h.dependInsts p a) Or.inr⟩

lemma Woken.waits (hnot : ¬ F s) (hwaits : u.Waits s) : u'.Waits s := by
  refine ⟨fun hready => ?_, ?_, fun p hp hdep => ?_⟩
  · rcases h.ready s hready with hready | hc
    · exact hwaits.notReady hready
    · exact hnot hc
  · by_contra hmem
    rw [Bool.not_eq_false] at hmem
    rcases h.memDepReady s hmem with hmem | hc
    · rw [hwaits.notMemDepReady] at hmem
      cases hmem
    · exact hnot hc
  · rw [h.instList] at hp
    rcases h.dependInsts p s hdep with hdep | hc
    · obtain ⟨hbarrier, hle⟩ := hwaits.depends p hp hdep
      rw [h.inst]
      exact ⟨hbarrier, fun b hb => hle b ((h.blocks_iff b s).mp hb)⟩
    · exact absurd hc hnot

end

/-- **Wake-ups** of free instructions keep the invariant. -/
lemma Inv.woken (hinv : Inv u last spec) (h : Woken (u.Free last spec) u u') :
    Inv u' last spec := by
  refine ⟨?_, ?_, ?_, ?_, fun a ha => ?_, hinv.known, fun p hp a ha => ?_, ?_, ?_, ?_, ?_,
    fun s hs hclear => ?_⟩
  · rw [h.instList]
    exact hinv.sorted
  · rw [h.instList]
    exact hinv.listed
  · rw [h.instList, h.memDepHash]
    exact hinv.hashed
  · intro b hb
    rw [h.instList] at hb
    rw [h.inst]
    exact hinv.numbered b hb
  · rcases h.ready a ha with ha | hfree
    · exact hinv.handed a ha
    · exact hfree.1
  · rw [h.instList] at hp
    rcases h.dependInsts p a ha with ha | hfree
    · exact hinv.dependents p hp a ha
    · exact hfree.1
  · intro b hb
    rw [h.loadBarrier, h.loadBarrierSN]
    exact hinv.loads b ((h.memBarrier_iff b).mp hb)
  · rw [h.loadBarrier, h.loadBarrierSN, h.memBarrier_iff]
    exact hinv.loadFlag
  · intro b hb
    rw [h.storeBarrier, h.storeBarrierSN]
    exact hinv.stores b ((h.barrier_iff b).mp hb)
  · rw [h.storeBarrier, h.storeBarrierSN, h.barrier_iff]
    exact hinv.storeFlag
  · have hclear' : ¬ u.Clear s := mt (h.clear_iff s).mpr hclear
    exact h.waits (fun hfree => hclear' (hfree.2 hs)) (hinv.waits s hs hclear')

@[simp] lemma modify_self (f : MemDepEntry → MemDepEntry) :
    (u.modify sn f).entry sn = f (u.entry sn) := update_self ..

lemma modify_of_ne (u : MemDepUnit) {a sn : ℕ} (f : MemDepEntry → MemDepEntry) (h : a ≠ sn) :
    (u.modify sn f).entry a = u.entry a := update_of_ne h ..

lemma modify_field {α : Type*} (u : MemDepUnit) {f : MemDepEntry → MemDepEntry}
    (π : MemDepEntry → α) (h : π (f (u.entry sn)) = π (u.entry sn)) (a : ℕ) :
    π ((u.modify sn f).entry a) = π (u.entry a) := by
  by_cases ha : a = sn
  · rw [ha, modify_self, h]
  · rw [modify_of_ne _ _ ha]

lemma woken_modify {f : MemDepEntry → MemDepEntry}
    (hinst : (f (u.entry sn)).inst = (u.entry sn).inst)
    (hmem : (f (u.entry sn)).memDepReady = true → (u.entry sn).memDepReady = true ∨ F sn)
    (hdep : ∀ a ∈ (f (u.entry sn)).dependInsts, a ∈ (u.entry sn).dependInsts ∨ F a) :
    Woken F u (u.modify sn f) := by
  refine ⟨rfl, rfl, rfl, rfl, rfl, rfl, u.modify_field (·.inst) hinst, fun _ => Or.inl,
    fun a ha => ?_, fun p a ha => ?_⟩
  · by_cases heq : a = sn
    · subst heq
      rw [modify_self] at ha
      exact hmem ha
    · rw [modify_of_ne _ _ heq] at ha
      exact Or.inl ha
  · by_cases heq : p = sn
    · subst heq
      rw [modify_self] at ha
      exact hdep a ha
    · rw [modify_of_ne _ _ heq] at ha
      exact Or.inl ha

lemma woken_regsReady (u : MemDepUnit) (sn : ℕ) (b : MemDepEntry → Bool) :
    Woken F u (u.modify sn fun e => { e with regsReady := b e }) :=
  woken_modify rfl Or.inl fun _ => Or.inl

lemma woken_dependInsts (u : MemDepUnit) (p : ℕ) (hF : F sn) :
    Woken F u (u.modify p fun e => { e with dependInsts := e.dependInsts ++ [sn] }) := by
  refine woken_modify rfl Or.inl fun a ha => ?_
  rcases mem_snoc.mp ha with ha | rfl
  · exact Or.inl ha
  · exact Or.inr hF

lemma woken_memDepReady (hF : F sn) :
    Woken F u (u.modify sn fun e => { e with memDepReady := true }) :=
  woken_modify rfl (fun _ => Or.inr hF) fun _ => Or.inl

lemma woken_moveToReady (h : u.moveToReady sn = .ok u') (hF : F sn) : Woken F u u' := by
  rw [moveToReady] at h
  split_ifs at h
  cases h
  refine ⟨rfl, rfl, rfl, rfl, rfl, rfl, fun _ => rfl, fun a ha => ?_, fun _ => Or.inl,
    fun _ _ => Or.inl⟩
  rcases mem_snoc.mp ha with ha | rfl
  · exact Or.inl ha
  · exact Or.inr hF

/-- **`wakeDependents`** wakes the dependents. -/
lemma woken_wakeDependents (h : u.wakeDependents sn = .ok u') :
    Woken (· ∈ (u.entry sn).dependInsts) u u' := by
  set F := (· ∈ (u.entry sn).dependInsts) with hF
  rw [wakeDependents] at h
  split_ifs at h
  · cases h
    exact .refl F u
  · obtain ⟨u₁, hfold, rfl⟩ := map_ok h
    have hwake : Woken F u u₁ := by
      refine foldlM_ok (fun a ha v v' hv hone => hv.trans ?_) (.refl F u) hfold
      rw [wakeOne] at hone
      split_ifs at hone
      · exact woken_moveToReady hone ha
      · cases hone
        exact woken_memDepReady ha
    refine hwake.trans (woken_modify rfl Or.inl fun a ha => ?_)
    cases ha

/-! ### Insertions -/

lemma register_self (u : MemDepUnit) (inst : MemInst) :
    (u.register inst).entry inst.seqNum = ⟨inst, [], false, false, false⟩ := update_self ..

lemma register_of_ne (u : MemDepUnit) (inst : MemInst) {a : ℕ} (h : a ≠ inst.seqNum) :
    (u.register inst).entry a = u.entry a := update_of_ne h ..

lemma mem_register : b ∈ (u.register inst).instList ↔ b ∈ u.instList ∨ b = inst.seqNum := by
  simp [register]

section

variable (hinv : Inv u last spec)

include hinv

section

variable (hlast : last < inst.seqNum)

include hlast

lemma register_barrier (b : ℕ) : ((u.register inst).barrier b ↔
      u.barrier b ∨ (b = inst.seqNum ∧ inst.barrier = true)) ∧
    ((u.register inst).memBarrier b ↔
      u.memBarrier b ∨ (b = inst.seqNum ∧ inst.memBarrier = true)) := by
  by_cases hb : b = inst.seqNum
  · subst hb
    have hnot : inst.seqNum ∉ u.instList := fun h => absurd (hinv.listed _ h).2 (not_le.mpr hlast)
    simp [barrier, memBarrier, mem_register, register_self, hnot]
  · simp [barrier, memBarrier, mem_register, register_of_ne _ _ hb, hb]

lemma register_blocks (hs : s ≤ last) (b : ℕ) : (u.register inst).Blocks b s ↔ u.Blocks b s := by
  obtain ⟨hbarrier, hmem⟩ := register_barrier hinv hlast b
  have hne : s ≠ inst.seqNum := by omega
  rw [Blocks, Blocks, hbarrier, hmem, register_of_ne _ _ hne]
  constructor
  · rintro ⟨hlt, (hb | hb) | ⟨hb | hb, hstore⟩⟩
    · exact ⟨hlt, Or.inl hb⟩
    · omega
    · exact ⟨hlt, Or.inr ⟨hb, hstore⟩⟩
    · omega
  · rintro ⟨hlt, hb | ⟨hb, hstore⟩⟩
    · exact ⟨hlt, Or.inl (Or.inl hb)⟩
    · exact ⟨hlt, Or.inr ⟨Or.inl hb, hstore⟩⟩

lemma register_waits (hs : s ≤ last) (hwaits : u.Waits s) : (u.register inst).Waits s := by
  have hne : s ≠ inst.seqNum := by omega
  refine ⟨hwaits.notReady, ?_, fun p hp hdep => ?_⟩
  · rw [register_of_ne _ _ hne]
    exact hwaits.notMemDepReady
  · by_cases hpne : p = inst.seqNum
    · subst hpne
      rw [register_self] at hdep
      cases hdep
    · rw [register_of_ne _ _ hpne] at hdep ⊢
      have hp' : p ∈ u.instList := (mem_register.mp hp).resolve_right hpne
      obtain ⟨hbarrier, hle⟩ := hwaits.depends p hp' hdep
      exact ⟨hbarrier, fun b hb => hle b ((register_blocks hinv hlast hs b).mp hb)⟩

/-- **A new entry**, with flags that name the latest barriers. -/
lemma Inv.register {loadBarrierSN storeBarrierSN : ℕ}
    (hloads : ∀ b, (u.register inst).memBarrier b → loadBarrier = true ∧ b ≤ loadBarrierSN)
    (hloadFlag : loadBarrier = true → (u.register inst).memBarrier loadBarrierSN)
    (hstores : ∀ b, (u.register inst).barrier b → storeBarrier = true ∧ b ≤ storeBarrierSN)
    (hstoreFlag : storeBarrier = true → (u.register inst).barrier storeBarrierSN) :
    Inv { u.register inst with
      loadBarrier := loadBarrier
      loadBarrierSN := loadBarrierSN
      storeBarrier := storeBarrier
      storeBarrierSN := storeBarrierSN } inst.seqNum spec := by
  have hlisted : ∀ b ∈ u.instList, b < inst.seqNum := fun b hb =>
    (hinv.listed b hb).2.trans_lt hlast
  refine ⟨?_, fun b hb => ?_, fun b => ?_, fun b hb => ?_, fun b hb => ?_, fun b hb => ?_,
    fun p hp b hb => ?_, hloads, hloadFlag, hstores, hstoreFlag, fun s hs hclear => ?_⟩
  · exact pairwise_snoc.mpr ⟨hinv.sorted, hlisted⟩
  · rcases mem_register.mp hb with hb | rfl
    · exact ⟨(hinv.listed b hb).1, (hlisted b hb).le⟩
    · exact ⟨Nat.zero_lt_of_lt hlast, le_rfl⟩
  · change update u.memDepHash inst.seqNum true b = true ↔ b ∈ (u.register inst).instList
    rw [mem_register]
    by_cases hb : b = inst.seqNum
    · subst hb
      simp
    · rw [update_of_ne hb, hinv.hashed]
      exact (or_iff_left hb).symm
  · change ((u.register inst).entry b).inst.seqNum = b
    rcases mem_register.mp hb with hb | rfl
    · rw [register_of_ne _ _ (hlisted b hb).ne]
      exact hinv.numbered b hb
    · rw [register_self]
  · exact (hinv.handed b hb).trans hlast.le
  · exact (hinv.known b hb).trans hlast.le
  · change b ∈ ((u.register inst).entry p).dependInsts at hb
    rcases mem_register.mp hp with hp | rfl
    · rw [register_of_ne _ _ (hlisted p hp).ne] at hb
      exact (hinv.dependents p hp b hb).trans hlast.le
    · rw [register_self] at hb
      cases hb
  · -- a new entry is younger than all instructions so far
    have hle := hinv.known s hs
    have hclear' : ¬ u.Clear s := fun hc => hclear fun b hb =>
      hc b ((register_blocks hinv hlast hle b).mp hb)
    have hwaits := register_waits hinv hlast hle (hinv.waits s hs hclear')
    exact { hwaits with }

lemma Inv.register_memRef (hnot : inst.barrier = false) :
    Inv (u.register inst) inst.seqNum spec := by
  have hnotMem : inst.memBarrier = false := by
    by_contra hmem
    rw [Bool.not_eq_false] at hmem
    rw [MemInst.barrier_of_memBarrier hmem] at hnot
    cases hnot
  have hbarrier : ∀ b, (u.register inst).barrier b ↔ u.barrier b := fun b => by
    rw [(register_barrier hinv hlast b).1, hnot]
    simp
  have hmem : ∀ b, (u.register inst).memBarrier b ↔ u.memBarrier b := fun b => by
    rw [(register_barrier hinv hlast b).2, hnotMem]
    simp
  exact hinv.register hlast (fun b hb => hinv.loads b ((hmem b).mp hb))
    (fun h => (hmem _).mpr (hinv.loadFlag h)) (fun b hb => hinv.stores b ((hbarrier b).mp hb))
    fun h => (hbarrier _).mpr (hinv.storeFlag h)

lemma Inv.insertBarrier (hbarrier : inst.barrier = true) :
    Inv (u.insertBarrier inst) inst.seqNum spec := by
  have hreg := fun b => register_barrier hinv hlast b
  have hstores : ∀ b, (u.register inst).barrier b → true = true ∧ b ≤ inst.seqNum := by
    intro b hb
    rcases (hreg b).1.mp hb with hb | ⟨rfl, -⟩
    · exact ⟨rfl, (hinv.listed b hb.1).2.trans hlast.le⟩
    · exact ⟨rfl, le_rfl⟩
  have hstoreFlag : true = true → (u.register inst).barrier inst.seqNum := fun _ =>
    (hreg _).1.mpr (Or.inr ⟨rfl, hbarrier⟩)
  have hkind : inst.isLoad = false ∧ inst.isStore = false ∧
      (inst.isMemBarrier = true ∨ inst.isWriteBarrier = true) := by
    simpa [MemInst.barrier, and_assoc] using hbarrier
  by_cases hmem : inst.isMemBarrier = true
  · have hmemBarrier : inst.memBarrier = true := by
      simp [MemInst.memBarrier, hkind.1, hkind.2.1, hmem]
    rw [MemDepUnit.insertBarrier, raise, if_pos hmem]
    refine hinv.register hlast (fun b hb => ?_)
      (fun _ => (hreg _).2.mpr (Or.inr ⟨rfl, hmemBarrier⟩)) hstores hstoreFlag
    exact hstores b (barrier_of_memBarrier hb)
  · have hmemBarrier : inst.memBarrier = false := by
      simp [MemInst.memBarrier, hmem]
    rw [MemDepUnit.insertBarrier, raise, if_neg hmem, if_pos (hkind.2.2.resolve_left hmem)]
    have hmem' : ∀ b, (u.register inst).memBarrier b ↔ u.memBarrier b := fun b => by
      rw [(hreg b).2, hmemBarrier]
      simp
    exact hinv.register hlast (fun b hb => hinv.loads b ((hmem' b).mp hb))
      (fun h => (hmem' _).mpr (hinv.loadFlag h)) hstores hstoreFlag

omit hlast in
lemma Inv.cons (hs : s ≤ last) (hwaits : ¬ u.Clear s → u.Waits s) : Inv u last (s :: spec) := by
  refine { hinv with known := fun b hb => ?_, waits := fun a ha hclear => ?_ }
  · rcases mem_cons.mp hb with rfl | hb
    · exact hs
    · exact hinv.known b hb
  · rcases mem_cons.mp ha with rfl | ha
    · exact hwaits hclear
    · exact hinv.waits a ha hclear

omit hlast in
/-- **What to wait for**: nothing, or the last barrier that blocks. -/
lemma Inv.producingStore (predicted : ℕ) (hinst : (u.entry s).inst = inst)
    (hkind : inst.isLoad = true ∨ inst.isStore = true)
    (hboth : inst.isLoad = true → inst.isStore = true → u.loadBarrier = true →
      u.storeBarrierSN = u.loadBarrierSN) :
    u.Clear s ∨ (u.barrier (u.producingStore inst predicted) ∧
      ∀ b, u.Blocks b s → b ≤ u.producingStore inst predicted) := by
  rw [MemDepUnit.producingStore]
  by_cases hload : inst.isLoad = true ∧ u.loadBarrier = true
  · rw [if_pos (by simp [hload.1, hload.2])]
    refine Or.inr ⟨barrier_of_memBarrier (hinv.loadFlag hload.2), fun b hb => ?_⟩
    rcases hb.2 with hmem | ⟨hbarrier, hstore⟩
    · exact (hinv.loads b hmem).2
    · rw [hinst] at hstore
      rw [← hboth hload.1 hstore hload.2]
      exact (hinv.stores b hbarrier).2
  · rw [if_neg (by simpa using hload)]
    by_cases hstore : inst.isStore = true ∧ u.storeBarrier = true
    · rw [if_pos (by simp [hstore.1, hstore.2])]
      exact Or.inr ⟨hinv.storeFlag hstore.2, fun b hb => (hinv.stores b hb.barrier).2⟩
    · -- a flag that is down says that no barrier of its kind is in flight
      refine Or.inl fun b hb => ?_
      rcases hkind with hkind | hkind
      · rcases hb.2 with hmem | ⟨hbarrier, hisStore⟩
        · exact hload ⟨hkind, (hinv.loads b hmem).1⟩
        · rw [hinst] at hisStore
          exact hstore ⟨hisStore, (hinv.stores b hbarrier).1⟩
      · exact hstore ⟨hkind, (hinv.stores b hb.barrier).1⟩

lemma Inv.insert {readyToIssue : Bool} {predicted : ℕ}
    (hboth : inst.isLoad = true → inst.isStore = true → u.loadBarrier = true →
      u.storeBarrierSN = u.loadBarrierSN) (hok : u.insert inst readyToIssue predicted = .ok u') :
    Inv u' inst.seqNum (inst.seqNum :: spec) := by
  obtain ⟨u₁, hdepend, hkind⟩ := bind_ok hok
  split_ifs at hkind with hmemRef
  cases hkind
  have hkind : inst.isLoad = true ∨ inst.isStore = true := by
    simpa [or_comm] using hmemRef
  have hnot : inst.barrier = false := by
    rcases hkind with h | h <;> simp [MemInst.barrier, h]
  have hreg := hinv.register_memRef hlast hnot
  have hself := register_self u inst
  set v := u.register inst with hv
  set s := inst.seqNum with hs
  have hnotSpec : s ∉ spec := fun h => absurd (hinv.known s h) (not_le.mpr hlast)
  have hcases := hreg.producingStore (s := s) predicted (by rw [hself]) hkind hboth
  set producer := v.producingStore inst predicted with hproducer
  rw [depend] at hdepend
  by_cases hfound : producer ≠ 0 ∧ v.memDepHash producer = true
  · rw [if_pos hfound] at hdepend
    cases hdepend
    have hregs : Woken (v.Free s spec) v _ :=
      woken_regsReady v s fun e => e.regsReady || readyToIssue
    have hdep : Woken (v.Free s spec) v _ := hregs.trans (woken_dependInsts _ producer
      ⟨le_rfl, fun h => absurd h hnotSpec⟩)
    refine (hreg.woken hdep).cons le_rfl fun hclear => ?_
    rw [hdep.clear_iff] at hclear
    obtain ⟨hbarrier, hle⟩ := hcases.resolve_left hclear
    have hne : producer ≠ s := by
      rintro heq
      rw [barrier, heq, hself] at hbarrier
      rw [hnot] at hbarrier
      exact Bool.false_ne_true hbarrier.2
    refine ⟨fun hready => ?_, ?_, fun p hp hmem => ?_⟩
    · exact absurd (hinv.handed s hready) (not_le.mpr hlast)
    · rw [modify_of_ne _ _ hne.symm, modify_self, hself]
    · by_cases hpp : p = producer
      · subst hpp
        rw [hdep.inst]
        exact ⟨hbarrier.2, fun b hb => hle b ((hdep.blocks_iff b s).mp hb)⟩
      · rw [modify_of_ne _ _ hpp] at hmem
        by_cases hps : p = s
        · subst hps
          rw [modify_self, hself] at hmem
          cases hmem
        · rw [modify_of_ne _ _ hps, hv, register_of_ne _ _ hps] at hmem
          have hp' : p ∈ u.instList := (mem_register.mp hp).resolve_right hps
          exact absurd (hinv.dependents p hp' s hmem) (not_le.mpr hlast)
  · have hclear : v.Clear s := by
      refine hcases.resolve_right fun hbarrier => hfound ?_
      have hmem := hbarrier.1.1
      exact ⟨(hreg.listed _ hmem).1.ne', (hreg.hashed _).mpr hmem⟩
    have hcons := hreg.cons (s := s) le_rfl fun h => absurd hclear h
    have hfree : v.Free s (s :: spec) s := ⟨le_rfl, fun _ => hclear⟩
    have hmem : Woken (v.Free s (s :: spec)) v _ := woken_memDepReady hfree
    split_ifs at hdepend
    · have hregs := hmem.trans (woken_regsReady _ s fun _ => true)
      exact hcons.woken (hregs.trans (woken_moveToReady hdepend hfree))
    · cases hdepend
      exact hcons.woken hmem

end

end

/-! ### Entries that leave -/

/-- Entries leave the list and the hash, and a flag goes down with its barrier. -/
structure Removed (gone : ℕ → Prop) (u u' : MemDepUnit) : Prop where
  sublist : u'.instList.Sublist u.instList
  instList : ∀ b, b ∈ u'.instList ↔ b ∈ u.instList ∧ ¬ gone b
  memDepHash : ∀ b, u'.memDepHash b = true ↔ u.memDepHash b = true ∧ ¬ gone b
  loadBarrier : u'.loadBarrier = true ↔ u.loadBarrier = true ∧ ¬ gone u.loadBarrierSN
  loadBarrierSN : u'.loadBarrierSN = u.loadBarrierSN
  storeBarrier : u'.storeBarrier = true ↔ u.storeBarrier = true ∧ ¬ gone u.storeBarrierSN
  storeBarrierSN : u'.storeBarrierSN = u.storeBarrierSN
  ready : u'.ready = u.ready
  inst : ∀ a, (u'.entry a).inst = (u.entry a).inst
  memDepReady : ∀ a, (u'.entry a).memDepReady = (u.entry a).memDepReady
  dependInsts : ∀ a, (u'.entry a).dependInsts = (u.entry a).dependInsts

variable {gone : ℕ → Prop}

lemma Removed.barrier_iff (h : Removed gone u u') (b : ℕ) :
    (u'.barrier b ↔ u.barrier b ∧ ¬ gone b) ∧ (u'.memBarrier b ↔ u.memBarrier b ∧ ¬ gone b) := by
  rw [barrier, barrier, memBarrier, memBarrier, h.instList, h.inst]
  exact ⟨and_right_comm, and_right_comm⟩

lemma Removed.blocks (h : Removed gone u u') (hb : u'.Blocks b s) : ¬ gone b ∧ u.Blocks b s := by
  obtain ⟨hlt, hmem | ⟨hbarrier, hstore⟩⟩ := hb
  · obtain ⟨hmem, hleft⟩ := (h.barrier_iff b).2.mp hmem
    exact ⟨hleft, hlt, Or.inl hmem⟩
  · obtain ⟨hbarrier, hleft⟩ := (h.barrier_iff b).1.mp hbarrier
    rw [h.inst] at hstore
    exact ⟨hleft, hlt, Or.inr ⟨hbarrier, hstore⟩⟩

lemma Removed.trans {gone' all : ℕ → Prop} (h : Removed gone u u₁)
    (h' : Removed gone' u₁ u') (hall : ∀ b, all b ↔ gone b ∨ gone' b) : Removed all u u' where
  sublist := h'.sublist.trans h.sublist
  instList b := by rw [h'.instList, h.instList, hall, not_or, and_assoc]
  memDepHash b := by rw [h'.memDepHash, h.memDepHash, hall, not_or, and_assoc]
  loadBarrier := by rw [h'.loadBarrier, h.loadBarrier, h.loadBarrierSN, hall, not_or, and_assoc]
  loadBarrierSN := h'.loadBarrierSN.trans h.loadBarrierSN
  storeBarrier := by rw [h'.storeBarrier, h.storeBarrier, h.storeBarrierSN, hall, not_or, and_assoc]
  storeBarrierSN := h'.storeBarrierSN.trans h.storeBarrierSN
  ready := h'.ready.trans h.ready
  inst a := (h'.inst a).trans (h.inst a)
  memDepReady a := (h'.memDepReady a).trans (h.memDepReady a)
  dependInsts a := (h'.dependInsts a).trans (h.dependInsts a)

/-- **Entries leave**; no flag goes down while one of its barriers is left. -/
lemma Inv.removed (hinv : Inv u last spec) (h : Removed gone u u')
    (hloads : u.loadBarrier = true → gone u.loadBarrierSN → ∀ b, u.memBarrier b → gone b)
    (hstores : u.storeBarrier = true → gone u.storeBarrierSN → ∀ b, u.barrier b → gone b) :
    Inv u' last spec := by
  have hold : ∀ {b}, b ∈ u'.instList → b ∈ u.instList := fun hb => h.sublist.subset hb
  refine ⟨hinv.sorted.sublist h.sublist, fun b hb => hinv.listed b (hold hb), fun b => ?_,
    fun b hb => ?_, h.ready ▸ hinv.handed, hinv.known, fun p hp => ?_, fun b hb => ?_,
    fun hflag => ?_, fun b hb => ?_, fun hflag => ?_, fun s hs hclear => ?_⟩
  · rw [h.memDepHash, hinv.hashed, h.instList]
  · rw [h.inst]
    exact hinv.numbered b (hold hb)
  · rw [h.dependInsts]
    exact hinv.dependents p (hold hp)
  · -- the flag stays up while a barrier is left
    obtain ⟨hb, hleft⟩ := (h.barrier_iff b).2.mp hb
    obtain ⟨hflag, hle⟩ := hinv.loads b hb
    exact ⟨h.loadBarrier.mpr ⟨hflag, fun hgone => hleft (hloads hflag hgone b hb)⟩,
      h.loadBarrierSN ▸ hle⟩
  · obtain ⟨hflag, hleft⟩ := h.loadBarrier.mp hflag
    rw [h.loadBarrierSN]
    exact (h.barrier_iff _).2.mpr ⟨hinv.loadFlag hflag, hleft⟩
  · obtain ⟨hb, hleft⟩ := (h.barrier_iff b).1.mp hb
    obtain ⟨hflag, hle⟩ := hinv.stores b hb
    exact ⟨h.storeBarrier.mpr ⟨hflag, fun hgone => hleft (hstores hflag hgone b hb)⟩,
      h.storeBarrierSN ▸ hle⟩
  · obtain ⟨hflag, hleft⟩ := h.storeBarrier.mp hflag
    rw [h.storeBarrierSN]
    exact (h.barrier_iff _).1.mpr ⟨hinv.storeFlag hflag, hleft⟩
  · -- what waits goes on to wait for the same barrier
    have hblocks : ∀ b, u'.Blocks b s → u.Blocks b s := fun b hb => (h.blocks hb).2
    have hwaits := hinv.waits s hs fun hc => hclear fun b hb => hc b (hblocks b hb)
    refine ⟨h.ready ▸ hwaits.notReady, h.memDepReady s ▸ hwaits.notMemDepReady, fun p hp hdep => ?_⟩
    rw [h.dependInsts] at hdep
    rw [h.inst]
    exact ⟨(hwaits.depends p (hold hp) hdep).1,
      fun b hb => (hwaits.depends p (hold hp) hdep).2 b (hblocks b hb)⟩

lemma Inv.removed_one (hinv : Inv u last spec)
    (hload : loadBarrier = true ↔ u.loadBarrier = true ∧ u.loadBarrierSN ≠ sn)
    (hstore : storeBarrier = true ↔ u.storeBarrier = true ∧ u.storeBarrierSN ≠ sn) :
    Removed (· = sn) u { u with
      memDepHash := update u.memDepHash sn false
      instList := u.instList.erase sn
      loadBarrier := loadBarrier
      storeBarrier := storeBarrier } := by
  have hnodup : u.instList.Nodup := hinv.sorted.imp fun h => h.ne
  refine ⟨erase_sublist, fun b => ?_, fun b => ?_, hload, rfl, hstore, rfl, rfl, fun _ => rfl,
    fun _ => rfl, fun _ => rfl⟩
  · rw [hnodup.mem_erase_iff, and_comm]
  · by_cases hb : b = sn
    · simp [hb]
    · simp [hb]

lemma Inv.completed (hinv : Inv u last spec) (hnot : (u.entry sn).inst.barrier = false)
    (hok : u.completed sn = .ok u') : Inv u' last spec := by
  rw [MemDepUnit.completed] at hok
  split_ifs at hok
  cases hok
  have hne : ∀ {b}, u.barrier b → b ≠ sn := by
    rintro b hb rfl
    rw [hb.2] at hnot
    cases hnot
  have hload : u.loadBarrier = true ↔ u.loadBarrier = true ∧ u.loadBarrierSN ≠ sn :=
    (and_iff_left_of_imp fun h => hne (barrier_of_memBarrier (hinv.loadFlag h))).symm
  have hstore : u.storeBarrier = true ↔ u.storeBarrier = true ∧ u.storeBarrierSN ≠ sn :=
    (and_iff_left_of_imp fun h => hne (hinv.storeFlag h)).symm
  refine hinv.removed (hinv.removed_one hload hstore) (fun h hgone => ?_) fun h hgone => ?_
  · exact absurd hgone (hne (barrier_of_memBarrier (hinv.loadFlag h)))
  · exact absurd hgone (hne (hinv.storeFlag h))

def leave (u : MemDepUnit) (sn : ℕ) : MemDepUnit :=
  { u with memDepHash := update u.memDepHash sn false, instList := u.instList.erase sn }

lemma lowered_iff (flag : Bool) (n sn : ℕ) :
    (if n = sn then false else flag) = true ↔ flag = true ∧ n ≠ sn := by
  by_cases h : n = sn
  · simp [h]
  · simp [h]

section

variable (hinv : Inv u last spec)

include hinv

lemma Inv.removed_lower (hbarrier : u.barrier sn) :
    Removed (· = sn) u ((u.leave sn).lower (u.entry sn).inst) := by
  have hkind := hbarrier.2
  rw [lower, hinv.numbered sn hbarrier.1]
  by_cases hmem : (u.entry sn).inst.isMemBarrier = true
  · rw [if_pos hmem]
    exact hinv.removed_one (lowered_iff _ _ _) (lowered_iff _ _ _)
  · have hwrite : (u.entry sn).inst.isWriteBarrier = true := by
      simp [MemInst.barrier, hmem] at hkind
      exact hkind.2
    rw [if_neg hmem, if_pos hwrite]
    -- the load flag names a memory barrier
    have hload : u.loadBarrier = true ↔ u.loadBarrier = true ∧ u.loadBarrierSN ≠ sn := by
      refine (and_iff_left_of_imp fun h heq => hmem ?_).symm
      have hmemBarrier := (hinv.loadFlag h).2
      rw [heq] at hmemBarrier
      simp only [MemInst.memBarrier, Bool.and_eq_true] at hmemBarrier
      exact hmemBarrier.2
    exact hinv.removed_one hload (lowered_iff _ _ _)

lemma Inv.leave_barrier (hbarrier : u.barrier sn) (hfirst : ∀ b, u.barrier b → sn ≤ b) :
    Inv ((u.leave sn).lower (u.entry sn).inst) last spec := by
  refine hinv.removed (hinv.removed_lower hbarrier) (fun _ hgone b hb => ?_) fun _ hgone b hb => ?_
  · exact le_antisymm (hgone ▸ (hinv.loads b hb).2) (hfirst b (barrier_of_memBarrier hb))
  · exact le_antisymm (hgone ▸ (hinv.stores b hb).2) (hfirst b hb)

omit hinv in
/-- Entries that leave do not touch what others wait for. -/
lemma Woken.leave_lower (h : Woken F u u') (sn : ℕ) (inst : MemInst) :
    Woken F ((u.leave sn).lower inst) ((u'.leave sn).lower inst) := by
  have hlist : (u'.leave sn).instList = (u.leave sn).instList := congrArg (·.erase sn) h.instList
  have hhash : (u'.leave sn).memDepHash = (u.leave sn).memDepHash := by
    rw [leave, leave, h.memDepHash]
  have hstore : (if u'.storeBarrierSN = inst.seqNum then false else u'.storeBarrier) =
      if u.storeBarrierSN = inst.seqNum then false else u.storeBarrier := by
    rw [h.storeBarrierSN, h.storeBarrier]
  have hload : (if u'.loadBarrierSN = inst.seqNum then false else u'.loadBarrier) =
      if u.loadBarrierSN = inst.seqNum then false else u.loadBarrier := by
    rw [h.loadBarrierSN, h.loadBarrier]
  rw [lower, lower]
  by_cases hmem : inst.isMemBarrier = true
  · rw [if_pos hmem, if_pos hmem]
    exact { h with
      instList := hlist, memDepHash := hhash, loadBarrier := hload, storeBarrier := hstore }
  · rw [if_neg hmem, if_neg hmem]
    by_cases hwrite : inst.isWriteBarrier = true
    · rw [if_pos hwrite, if_pos hwrite]
      exact { h with instList := hlist, memDepHash := hhash, storeBarrier := hstore }
    · rw [if_neg hwrite, if_neg hwrite]
      exact { h with instList := hlist, memDepHash := hhash }

/-- **`completeBarrier`** of the oldest barrier: what waits for it is clear. -/
lemma Inv.completeBarrier (hbarrier : u.barrier sn) (hfirst : ∀ b, u.barrier b → sn ≤ b)
    (hok : u.completeBarrier sn = .ok u') : Inv u' last spec := by
  obtain ⟨u₁, hwake, hmap⟩ := bind_ok hok
  obtain ⟨u₂, hcompleted, rfl⟩ := map_ok hmap
  rw [MemDepUnit.completed] at hcompleted
  split_ifs at hcompleted
  cases hcompleted
  have hwoken := (woken_wakeDependents hwake).leave_lower sn (u.entry sn).inst
  refine (hinv.leave_barrier hbarrier hfirst).woken (hwoken.mono fun a ha => ?_)
  refine ⟨hinv.dependents sn hbarrier.1 a ha, fun hspec b hb => ?_⟩
  obtain ⟨hne, hblocks⟩ := (hinv.removed_lower hbarrier).blocks hb
  have hclear : ¬ u.Clear a := fun hc => hc b hblocks
  have hle := ((hinv.waits a hspec hclear).depends sn hbarrier.1 ha).2 b hblocks
  exact hne (le_antisymm hle (hfirst b hblocks.barrier))

lemma Inv.wakeDependents (hnot : (u.entry sn).inst.barrier = false)
    (hok : u.wakeDependents sn = .ok u') : Inv u' last spec := by
  have hwoken := woken_wakeDependents hok
  by_cases hmem : sn ∈ u.instList
  · refine hinv.woken (hwoken.mono fun a ha => ⟨hinv.dependents sn hmem a ha, fun hspec => ?_⟩)
    by_contra hclear
    rw [((hinv.waits a hspec hclear).depends sn hmem ha).1] at hnot
    cases hnot
  · -- an instruction that is not in the hash wakes nothing
    have hhash : u.memDepHash sn = false := by
      rw [← Bool.not_eq_true, hinv.hashed]
      exact hmem
    rw [MemDepUnit.wakeDependents] at hok
    split_ifs at hok
    cases hok
    exact hinv

lemma Inv.regsReady (hok : u.regsReady sn = .ok u') : Inv u' last spec := by
  rw [MemDepUnit.regsReady] at hok
  split_ifs at hok with hhash
  dsimp only at hok
  split_ifs at hok with hready
  · have hregs : Woken (u.Free last spec) u _ := woken_regsReady u sn fun _ => true
    have hmem : sn ∈ u.instList := (hinv.hashed sn).mp (by simpa using hhash)
    refine hinv.woken (hregs.trans
      (woken_moveToReady hok ⟨(hinv.listed sn hmem).2, fun hspec => ?_⟩))
    by_contra hclear
    rw [modify_self] at hready
    rw [(hinv.waits sn hspec hclear).notMemDepReady] at hready
    cases hready
  · cases hok
    exact hinv.woken (woken_regsReady u sn fun _ => true)

lemma Inv.nonSpecInstReady (hnot : sn ∉ spec) (hok : u.nonSpecInstReady sn = .ok u') :
    Inv u' last spec := by
  rw [MemDepUnit.nonSpecInstReady] at hok
  split_ifs at hok with hhash
  have hmem : sn ∈ u.instList := (hinv.hashed sn).mp (by simpa using hhash)
  exact hinv.woken (woken_moveToReady hok ⟨(hinv.listed sn hmem).2, fun h => absurd h hnot⟩)

end

/-! ### Squashes -/

/-- For `squash`: hash and flags name entries of the list, in program order. -/
structure Filed (u : MemDepUnit) : Prop where
  sorted : u.instList.Pairwise (· < ·)
  hashed : ∀ b, u.memDepHash b = true → b ∈ u.instList
  loadFlag : u.loadBarrier = true → u.loadBarrierSN ∈ u.instList
  storeFlag : u.storeBarrier = true → u.storeBarrierSN ∈ u.instList

lemma Filed.nothing_behind (h : u.Filed) (hle : ∀ b ∈ u.instList, b ≤ n) : Removed (n < ·) u u := by
  have hkept : ∀ {b}, b ∈ u.instList → ¬ n < b := fun hb => not_lt.mpr (hle _ hb)
  exact ⟨.refl _, fun b => (and_iff_left_of_imp hkept).symm,
    fun b => (and_iff_left_of_imp fun hb => hkept (h.hashed b hb)).symm,
    (and_iff_left_of_imp fun hb => hkept (h.loadFlag hb)).symm, rfl,
    (and_iff_left_of_imp fun hb => hkept (h.storeFlag hb)).symm, rfl, rfl, fun _ => rfl,
    fun _ => rfl, fun _ => rfl⟩

/-- One round: the entry at the end of the list is squashed. -/
lemma squashOne_ok {rest : List ℕ} (h : u.Filed)
    (hlist : u.instList = rest ++ [sn]) (hone : u.squashOne sn = .ok u₁) :
    u₁.instList = rest ∧ u₁.Filed ∧ Removed (· = sn) u u₁ := by
  rw [squashOne] at hone
  by_cases hhash : u.memDepHash sn = false
  · rw [if_pos hhash] at hone
    cases hone
  rw [if_neg hhash] at hone
  cases hone
  rw [show u.instList.dropLast = rest by rw [hlist, dropLast_concat]]
  have hsorted := h.sorted
  rw [hlist, pairwise_snoc] at hsorted
  have hmem : ∀ b, b ∈ rest ↔ b ∈ u.instList ∧ ¬ b = sn := fun b => by
    rw [hlist, mem_snoc]
    constructor
    · exact fun hb => ⟨Or.inl hb, (hsorted.2 b hb).ne⟩
    · exact fun hb => hb.1.resolve_right hb.2
  have hhashed : ∀ b, update u.memDepHash sn false b = true ↔ u.memDepHash b = true ∧ ¬ b = sn := by
    intro b
    by_cases hb : b = sn
    · simp [hb]
    · simp [hb]
  have hflag : ∀ (b : Bool) (k : ℕ),
      (if sn = k then false else b) = true ↔ b = true ∧ ¬ k = sn := by
    intro b k
    simp only [eq_comm (a := sn)]
    exact lowered_iff b k sn
  refine ⟨rfl, ⟨hsorted.1, fun b hb => ?_, fun hb => ?_, fun hb => ?_⟩,
    ⟨hlist ▸ sublist_append_left rest [sn], hmem, hhashed, hflag _ _, rfl, hflag _ _, rfl, rfl,
      fun a => ?_, fun a => ?_, fun a => ?_⟩⟩
  · exact (hmem b).mpr ⟨h.hashed b ((hhashed b).mp hb).1, ((hhashed b).mp hb).2⟩
  · exact (hmem _).mpr ⟨h.loadFlag ((hflag _ _).mp hb).1, ((hflag _ _).mp hb).2⟩
  · exact (hmem _).mpr ⟨h.storeFlag ((hflag _ _).mp hb).1, ((hflag _ _).mp hb).2⟩
  · exact modify_field (f := fun e => { e with squashed := true }) u (·.inst) rfl a
  · exact modify_field (f := fun e => { e with squashed := true }) u (·.memDepReady) rfl a
  · exact modify_field (f := fun e => { e with squashed := true }) u (·.dependInsts) rfl a

/-- **The loop of `squash`** removes what is behind the number. -/
lemma squashLoop_ok {l : List ℕ} (h : u.Filed) (hlist : u.instList = l.reverse)
    (hok : squashLoop n l u = .ok u') : Removed (n < ·) u u' := by
  induction l generalizing u with
  | nil =>
    cases hok
    exact h.nothing_behind (by simp [hlist])
  | cons sn rest ih =>
    rw [reverse_cons] at hlist
    rw [squashLoop] at hok
    split_ifs at hok with hlt
    · obtain ⟨u₁, hone, hok⟩ := bind_ok hok
      obtain ⟨hlist₁, h₁, hremoved⟩ := squashOne_ok h hlist hone
      refine hremoved.trans (ih h₁ hlist₁ hok) fun b => ⟨Or.inr, ?_⟩
      rintro (rfl | hb)
      · exact hlt
      · exact hb
    · cases hok
      refine h.nothing_behind fun b hb => ?_
      have hsorted := h.sorted
      rw [hlist, pairwise_snoc] at hsorted
      rw [hlist, mem_snoc] at hb
      rcases hb with hb | rfl
      · exact (hsorted.2 b hb).le.trans (not_lt.mp hlt)
      · exact not_lt.mp hlt

/-- A squash that takes down a flag leaves none of its barriers; a load that is also a store finds
no write barrier behind the latest memory barrier. -/
def Orderly (u : MemDepUnit) : Call → Prop
  | .squash n =>
    (u.loadBarrier = true → n < u.loadBarrierSN → ∀ b, u.memBarrier b → n < b) ∧
    (u.storeBarrier = true → n < u.storeBarrierSN → ∀ b, u.barrier b → n < b)
  | .insert inst _ _ =>
    inst.isLoad = true → inst.isStore = true → u.loadBarrier = true →
      u.storeBarrierSN = u.loadBarrierSN
  | _ => True

/-- **`squash`**, under the condition. -/
lemma Inv.squash (hinv : Inv u last spec) (hcond : u.Orderly (.squash n))
    (hok : u.squash n = .ok u') : Inv u' last spec := by
  have hfiled : u.Filed := ⟨hinv.sorted, fun b => (hinv.hashed b).mp,
    fun h => (hinv.loadFlag h).1, fun h => (hinv.storeFlag h).1⟩
  exact hinv.removed (squashLoop_ok hfiled (reverse_reverse _).symm hok) hcond.1 hcond.2

/-- **One call** that meets the condition keeps the invariant. -/
lemma Inv.perform (hinv : Inv u last spec) {call : Call} (hpromised : u.Promised last spec call)
    (hcond : u.Orderly call) (hok : u.perform call = .ok u') :
    Inv u' (call.last last) (call.spec spec) := by
  cases call with
  | insert inst readyToIssue predicted => exact hinv.insert hpromised hcond hok
  | insertNonSpec inst =>
    rw [MemDepUnit.perform, MemDepUnit.insertNonSpec] at hok
    split_ifs at hok with hkind
    cases hok
    refine hinv.register_memRef hpromised ?_
    rw [Bool.or_eq_true] at hkind
    rcases hkind with hkind | hkind <;> simp [MemInst.barrier, hkind]
  | insertBarrier inst =>
    cases hok
    exact hinv.insertBarrier hpromised.1 hpromised.2
  | regsReady sn => exact hinv.regsReady hok
  | nonSpecInstReady sn => exact hinv.nonSpecInstReady hpromised hok
  | wakeDependents sn => exact hinv.wakeDependents hpromised hok
  | completed sn => exact hinv.completed hpromised hok
  | completeBarrier sn => exact hinv.completeBarrier hpromised.1 hpromised.2 hok
  | squash n => exact hinv.squash hcond hok

lemma Run.inv (h : Run Orderly u last spec) : Inv u last spec := by
  induction h with
  | init => exact inv_init
  | step _ hpromised hcond hok ih => exact ih.perform hpromised hcond hok

/-- **No instruction is handed over before the barriers older than it are done**: for a load no
memory barrier, for a store no barrier at all is in flight. -/
theorem ready_clear (h : Run Orderly u last spec) (hs : s ∈ spec) (hready : s ∈ u.ready) :
    (∀ b < s, ¬ u.memBarrier b) ∧ ((u.entry s).inst.isStore = true → ∀ b < s, ¬ u.barrier b) := by
  have hclear : u.Clear s := by
    by_contra hclear
    exact (h.inv.waits s hs hclear).notReady hready
  exact ⟨fun b hlt hb => hclear b ⟨hlt, Or.inl hb⟩,
    fun hstore b hlt hb => hclear b ⟨hlt, Or.inr ⟨hb, hstore⟩⟩⟩

def fence (sn : ℕ) : MemInst := ⟨sn, false, false, true, false⟩

def writeFence (sn : ℕ) : MemInst := ⟨sn, false, false, false, true⟩

def load (sn : ℕ) : MemInst := ⟨sn, true, false, false, false⟩

def loadStore (sn : ℕ) : MemInst := ⟨sn, true, true, false, false⟩

lemma Run.call {condition : MemDepUnit → Call → Prop} (h : Run condition u last spec) (c : Call)
    (hpromised : u.Promised last spec c) (hcond : condition u c) (hok : u.perform c = .ok u') :
    Run condition u' (c.last last) (c.spec spec) := h.step hpromised hcond hok

/-- A load is handed over with its barrier's completion; a barrier behind it is squashed. -/
theorem ready_clear_load : ∃ u, Run Orderly u 3 [2] ∧ u.ready = [2] ∧ (∀ b < 2, ¬ u.memBarrier b) ∧
      ((u.entry 2).inst.isStore = true → ∀ b < 2, ¬ u.barrier b) := by
  have hrun₁ := Run.call (.init : Run Orderly _ _ _) (.insertBarrier (fence 1))
    ⟨by decide, by decide⟩ trivial rfl
  have hrun₂ := hrun₁.call (.insert (load 2) true 0) (by decide : 1 < 2) (fun _ h => by cases h) rfl
  have hrun₃ := hrun₂.call (.completeBarrier 1)
    ⟨⟨by decide, by decide⟩, fun b hb => (hrun₂.inv.listed b hb.1).1⟩ trivial rfl
  have hrun₄ := hrun₃.call (.insertBarrier (fence 3)) ⟨by decide, by decide⟩ trivial rfl
  have hlater : ∀ b ∈ [2, 3], b ≠ 2 → 2 < b := by decide
  have hrun₅ := hrun₄.call (.squash 2) trivial
    ⟨fun _ _ b hb => hlater b hb.1 (by rintro rfl; cases hb.2),
      fun _ _ b hb => hlater b hb.1 (by rintro rfl; cases hb.2)⟩ rfl
  exact ⟨_, hrun₅, rfl, ready_clear hrun₅ mem_cons_self mem_cons_self⟩

/-- A squash removes the later of two memory barriers, and a load is handed over while the other is
in flight. An instruction that loads and stores passes a write barrier. -/
theorem ready_behind_barrier : (∃ u, Run (fun _ _ => True) u 3 [3] ∧ 3 ∈ u.ready ∧ u.memBarrier 1) ∧
      ∃ u, Run (fun _ _ => True) u 3 [3] ∧ 3 ∈ u.ready ∧ (u.entry 3).inst.isStore = true ∧
        u.barrier 2 := by
  have hrun₁ := Run.call (.init : Run (fun _ _ => True) _ _ _) (.insertBarrier (fence 1))
    ⟨by decide, by decide⟩ trivial rfl
  constructor
  · have hrun₂ := hrun₁.call (.insertBarrier (fence 2)) ⟨by decide, by decide⟩ trivial rfl
    have hrun₃ := hrun₂.call (.squash 1) trivial trivial rfl
    have hrun₄ := hrun₃.call (.insert (load 3) true 0) (by decide : 2 < 3) trivial rfl
    exact ⟨_, hrun₄, by decide, by decide, by decide⟩
  · have hrun₂ := hrun₁.call (.insertBarrier (writeFence 2)) ⟨by decide, by decide⟩ trivial rfl
    have hrun₃ := hrun₂.call (.insert (loadStore 3) true 0) (by decide : 2 < 3) trivial rfl
    have hfirst : ∀ b ∈ [1, 2, 3], 1 ≤ b := by decide
    have hrun₄ := hrun₃.call (.completeBarrier 1)
      ⟨⟨by decide, by decide⟩, fun b hb => hfirst b hb.1⟩ trivial rfl
    exact ⟨_, hrun₄, by decide, by decide, by decide, by decide⟩

end MemDepUnit

end ShifDram
