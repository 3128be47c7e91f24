import ShifDram.Mem.Packet

/-!
A data translation (`cpu/translation.hh`) and what the CPUs do when it is complete
(`finishTranslation` in `cpu/simple/timing.cc` and `cpu/base_dyn_inst.hh`).

An access is translated as a whole: a single request, the two halves of a split one, or the
operands of a row op. The parts are answered in any order; `finish` counts them down and, with the
last, copies what it has learnt to the main request and, for a row op, patches the payload in the
buffer that `data` points to.
-/

namespace ShifDram

open List Function

abbrev Buffers := ℕ → RowOpPayload

/-- The TLB's answer: a fault, or a physical address and flags to add. -/
abbrev Answer (ε : Type) := Except ε (ℕ × BitVec 32)

/-- The `Fault` of an answer; `none` is `NoFault`. -/
def Answer.fault {ε : Type} : Answer ε → Option ε
  | .error f => some f
  | .ok _ => none

def Answer.apply {ε : Type} (a : Answer ε) (r : Request) : Request :=
  match a with
  | .error _ => r
  | .ok (paddr, flags) => (r.setPaddr paddr).setFlags flags

/-- The sub-requests; a row op has a `src2` only with a `src1`. -/
inductive Parts where
  | single
  | split (low high : Request)
  | rowOp (dest : Request) (src1 src2 : Option Request)

structure WholeTranslationState (ε : Type) where
  outstanding : ℕ
  faults : Fin 3 → Option ε
  mainReq : Request
  parts : Parts
  /-- The address of the data buffer. -/
  data : ℕ

namespace WholeTranslationState

variable {ε : Type}
variable (st : WholeTranslationState ε) (bufs : Buffers)

def single (req : Request) (data : ℕ) : WholeTranslationState ε :=
  ⟨1, fun _ => none, req, .single, data⟩

def split (req low high : Request) (data : ℕ) : WholeTranslationState ε :=
  ⟨2, fun _ => none, req, .split low high, data⟩

def rowOp (req dest : Request) (src1 src2 : Option Request) (data : ℕ) :
    WholeTranslationState ε :=
  { outstanding := if src1.isNone then 1 else if src2.isNone then 2 else 3
    faults := fun _ => none
    mainReq := req
    parts := .rowOp dest src1 src2
    data := data }

def isSplit : Bool :=
  match st.parts with
  | .split _ _ => true
  | _ => false

/-- The request of part `index`, as the TLB changes it. -/
def setPart (index : Fin 3) (f : Request → Request) : WholeTranslationState ε :=
  match st.parts with
  | .single => { st with mainReq := f st.mainReq }
  | .split low high =>
    { st with parts := if index = 0 then .split (f low) high else .split low (f high) }
  | .rowOp dest src1 src2 =>
    { st with
      parts := .rowOp (if index = 0 then f dest else dest)
        (if index = 1 then src1.map f else src1) (if index = 2 then src2.map f else src2) }

/-- `if (faults[index] == NoFault) field = sreq->getPaddr()`. -/
def patchField (fault : Option ε) (sreq : Option Request) (field : ℕ) : ℕ :=
  match fault, sreq with
  | none, some r => r.paddr.getD 0
  | _, _ => field

/-- The payload with its operands' physical addresses. -/
def patch (faults : Fin 3 → Option ε) (dest : Request) (src1 src2 : Option Request)
    (p : RowOpPayload) : RowOpPayload :=
  { p with
    dest := patchField (faults 0) (some dest) p.dest
    src1 := patchField (faults 1) src1 p.src1
    src2 := patchField (faults 2) src2 p.src2 }

/-- `mainReq->setFlags(sreq->getFlags())`, for a request there is. -/
def orFlags (r : Request) (sreq : Option Request) : Request :=
  match sreq with
  | none => r
  | some s => r.setFlags s.flags

/-- What `finish` copies when the last part is in. -/
def copyBack : WholeTranslationState ε × Buffers :=
  match st.parts with
  | .single => (st, bufs)
  | .split low high =>
    let main := if (st.faults 0).isNone then st.mainReq.setPaddr (low.paddr.getD 0)
      else st.mainReq
    ({ st with mainReq := (main.setFlags low.flags).setFlags high.flags }, bufs)
  | .rowOp dest src1 src2 =>
    let main := orFlags (orFlags (st.mainReq.setFlags dest.flags) src1) src2
    ({ st with mainReq := main.setPaddr 0 },
      Function.update bufs st.data (patch st.faults dest src1 src2 (bufs st.data)))

/-- `finish`; `none` is the failed `assert(outstanding)`. -/
def finish (fault : Option ε) (index : Fin 3) : Option (Bool × WholeTranslationState ε × Buffers) :=
  if st.outstanding = 0 then none
  else
    let st := { st with
      faults := Function.update st.faults index fault
      outstanding := st.outstanding - 1 }
    if st.outstanding = 0 then some (true, st.copyBack bufs) else some (false, st, bufs)

def getFault : Option ε :=
  if !st.isSplit then st.faults 0
  else st.faults 0 <|> st.faults 1 <|> st.faults 2

/-- The TLB answers part `index` and calls `finish`. -/
def answer (index : Fin 3) (a : Answer ε) : Option (Bool × WholeTranslationState ε × Buffers) :=
  (st.setPart index a.apply).finish bufs a.fault index

end WholeTranslationState

/-- What `TimingSimpleCPU::finishTranslation` does. -/
inductive TimingOutcome (ε : Type) where
  | translationFault (fault : Option ε)
  | sendData (pkt : Packet)
  | sendSplitData (low high main : Request)

/-- `TimingSimpleCPU::finishTranslation`; a prefetch that faults is dropped. -/
def TimingSimpleCPU.finishTranslation {ε : Type} (st : WholeTranslationState ε)
    (bufs : Buffers) : TimingOutcome ε :=
  match st.getFault with
  | some f => .translationFault (if st.mainReq.isPrefetch then none else some f)
  | none =>
    match st.parts with
    | .split low high => .sendSplitData low high st.mainReq
    | _ => .sendData (.createRowOp st.mainReq (bufs st.data))

/-- The fields of `BaseDynInst` that a store's translation uses. -/
structure DynInst (ε : Type) where
  fault : Option ε
  translationStarted : Bool
  translationCompleted : Bool
  isStrictlyOrdered : Bool
  physEffAddrLow : ℕ
  physEffAddrHigh : ℕ
  memReqFlags : BitVec 32
  effAddrValid : Bool
  effAddr : ℕ
  effSize : ℕ

def DynInst.fresh {ε : Type} : DynInst ε := ⟨none, false, false, false, 0, 0, 0#32, false, 0, 0⟩

def DynInst.finishTranslation {ε : Type} (inst : DynInst ε) (st : WholeTranslationState ε) :
    DynInst ε :=
  let inst := { inst with
    fault := st.getFault
    isStrictlyOrdered := st.mainReq.isStrictlyOrdered
    translationCompleted := true }
  match inst.fault, st.parts with
  | some _, _ => inst
  | none, .split low high =>
    { inst with
      physEffAddrLow := low.paddr.getD 0
      physEffAddrHigh := high.paddr.getD 0
      memReqFlags := st.mainReq.flags }
  | none, _ =>
    { inst with physEffAddrLow := st.mainReq.paddr.getD 0, memReqFlags := st.mainReq.flags }

lemma DynInst.translationCompleted_finishTranslation {ε : Type} (inst : DynInst ε)
    (st : WholeTranslationState ε) : (inst.finishTranslation st).translationCompleted = true := by
  rw [DynInst.finishTranslation]
  cases st.getFault <;> cases st.parts <;> rfl

lemma DynInst.translationStarted_finishTranslation {ε : Type} (inst : DynInst ε)
    (st : WholeTranslationState ε) :
    (inst.finishTranslation st).translationStarted = inst.translationStarted := by
  rw [DynInst.finishTranslation]
  cases st.getFault <;> cases st.parts <;> rfl

/-- The test before `cpu->write` in `BaseDynInst::writeMem`. -/
def DynInst.writes {ε : Type} (inst : DynInst ε) : Bool :=
  inst.fault.isNone && inst.translationCompleted

/-- The destination and the sources the opcode has. -/
def RowOp.partList (op : RowOp) : List (Fin 3) :=
  0 :: ((if op.usesSrc1 then [1] else []) ++ (if op.usesSrc2 then [2] else []))

lemma RowOp.mem_partList_one {op : RowOp} : (1 : Fin 3) ∈ op.partList ↔ op.usesSrc1 = true := by
  cases op <;> decide

lemma RowOp.mem_partList_two {op : RowOp} : (2 : Fin 3) ∈ op.partList ↔ op.usesSrc2 = true := by
  cases op <;> decide

namespace WholeTranslationState

variable {ε : Type} {order : List (Fin 3)} {i : Fin 3}

/-- The state both CPUs build for the payload `p`. -/
def ofRowOp (req : Request) (p : RowOpPayload) (data : ℕ) : WholeTranslationState ε :=
  rowOp req (req.splitRowOp p).1 (req.splitRowOp p).2.1 (req.splitRowOp p).2.2 data

/-- The parts one after the other; the result is the last `finish`'s. -/
def answerAll (answers : Fin 3 → Answer ε) :
    List (Fin 3) → Bool × WholeTranslationState ε × Buffers →
      Option (Bool × WholeTranslationState ε × Buffers)
  | [], r => some r
  | i :: is, r => (r.2.1.answer r.2.2 i (answers i)).bind (answerAll answers is)

def answered (answers : Fin 3 → Answer ε) (done : List (Fin 3)) (i : Fin 3) (r : Request) :
    Request :=
  if i ∈ done then (answers i).apply r else r

/-- A row op with the parts in `done` answered, not yet copied back. -/
structure Answered (answers : Fin 3 → Answer ε) (req : Request) (p : RowOpPayload) (data : ℕ)
    (done : List (Fin 3)) (st : WholeTranslationState ε) : Prop where
  outstanding : st.outstanding + done.length = p.op.partList.length
  faults : ∀ i, st.faults i = if i ∈ done then (answers i).fault else none
  mainReq : st.mainReq = req
  parts : st.parts = .rowOp (answered answers done 0 (req.splitRowOp p).1)
    ((req.splitRowOp p).2.1.map (answered answers done 1))
    ((req.splitRowOp p).2.2.map (answered answers done 2))
  data_eq : st.data = data

variable {answers : Fin 3 → Answer ε} {req : Request} {p : RowOpPayload} {data : ℕ}
  {done : List (Fin 3)} {st : WholeTranslationState ε} {bufs : Buffers}

lemma answered_nil : answered answers [] i = id := by
  funext r
  simp [answered]

lemma answered_cons (hi : i ∉ done) (j : Fin 3) : answered answers (i :: done) j = fun r =>
      if i = j then (answers i).apply (answered answers done j r)
      else answered answers done j r := by
  funext r
  by_cases hij : i = j
  · subst hij
    simp [answered, hi]
  · simp [answered, hij, Ne.symm hij]

lemma answered_ofRowOp (answers : Fin 3 → Answer ε) (req : Request) (p : RowOpPayload)
    (data : ℕ) : Answered answers req p data [] (ofRowOp req p data) where
  outstanding := by
    rw [ofRowOp, rowOp, Request.splitRowOp_eq, RowOp.partList]
    cases p.op <;> rfl
  faults i := rfl
  mainReq := rfl
  parts := by simp [ofRowOp, rowOp, answered_nil]
  data_eq := rfl

section

variable (h : Answered answers req p data done st)

include h

/-- One more part: `finish` records the fault and counts down. -/
lemma Answered.cons (bufs : Buffers) (hi : i ∉ done) (hlen : done.length < p.op.partList.length) :
    ∃ st', Answered answers req p data (i :: done) st' ∧ st.answer bufs i (answers i) =
        if done.length + 1 = p.op.partList.length then some (true, st'.copyBack bufs)
        else some (false, st', bufs) := by
  obtain ⟨hout, hfaults, hmain, hparts, hdata⟩ := h
  have hpart : st.setPart i (answers i).apply = { st with
      parts := .rowOp (answered answers (i :: done) 0 (req.splitRowOp p).1)
        ((req.splitRowOp p).2.1.map (answered answers (i :: done) 1))
        ((req.splitRowOp p).2.2.map (answered answers (i :: done) 2)) } := by
    simp only [setPart, hparts, answered_cons hi]
    congr 2
    · by_cases h1 : i = 1 <;> simp [h1, comp_def]
    · by_cases h2 : i = 2 <;> simp [h2, comp_def]
  refine ⟨{ st with
    faults := update st.faults i (answers i).fault
    outstanding := st.outstanding - 1
    parts := .rowOp (answered answers (i :: done) 0 (req.splitRowOp p).1)
      ((req.splitRowOp p).2.1.map (answered answers (i :: done) 1))
      ((req.splitRowOp p).2.2.map (answered answers (i :: done) 2)) },
        ⟨?_, ?_, hmain, rfl, hdata⟩, ?_⟩
  · simp only [length_cons]
    omega
  · intro j
    by_cases hji : j = i
    · subst hji
      simp
    · simp [hji, hfaults]
  · have hpos : st.outstanding ≠ 0 := by omega
    rw [answer, hpart, finish]
    by_cases hlast : done.length + 1 = p.op.partList.length
    · have hzero : st.outstanding - 1 = 0 := by omega
      simp [hpos, hlast, hzero]
    · have hzero : st.outstanding - 1 ≠ 0 := by omega
      simp [hpos, hlast, hzero]

/-- The remaining parts in order: the last `finish` copies back. -/
lemma Answered.answerAll (bufs : Buffers) (hnodup : (order ++ done).Nodup)
    (hlen : (order ++ done).length = p.op.partList.length) (hne : order ≠ []) (b : Bool) :
    ∃ st', Answered answers req p data (order.reverse ++ done) st' ∧
      answerAll answers order (b, st, bufs) = some (true, st'.copyBack bufs) := by
  induction order generalizing done st b with
  | nil => exact absurd rfl hne
  | cons i is ih =>
    have hi : i ∉ done := fun hmem => by
      rw [cons_append, nodup_cons] at hnodup
      exact hnodup.1 (mem_append_right _ hmem)
    simp only [length_append, length_cons] at hlen
    obtain ⟨st₁, h₁, heq⟩ := h.cons bufs hi (by omega)
    simp only [WholeTranslationState.answerAll, heq]
    by_cases hnil : is = []
    · subst hnil
      simp only [length_nil] at hlen
      rw [if_pos (by omega)]
      exact ⟨st₁, by simpa using h₁, rfl⟩
    · have hpos : 0 < is.length := length_pos_of_ne_nil hnil
      rw [if_neg (by omega)]
      have hnodup' : (is ++ i :: done).Nodup := perm_middle.nodup_iff.mpr hnodup
      obtain ⟨st₂, h₂, heq₂⟩ := ih h₁ hnodup' (by simp; omega) hnil false
      exact ⟨st₂, by simpa using h₂, heq₂⟩

omit h in
lemma nodup_partList (op : RowOp) : op.partList.Nodup := by
  cases op <;> decide

omit h in
/-- **All parts of a row op**, in any order: the last `finish` copies back with every answer. -/
lemma answerAll_rowOp (answers : Fin 3 → Answer ε) (req : Request) (data : ℕ)
    (horder : order.Perm p.op.partList) (bufs : Buffers) :
    ∃ st, Answered answers req p data order.reverse st ∧
      answerAll answers order (false, ofRowOp req p data, bufs) =
        some (true, st.copyBack bufs) := by
  have hne : order ≠ [] := by
    rintro rfl
    exact absurd horder.length_eq (by simp [RowOp.partList])
  obtain ⟨st, hst, heq⟩ := (answered_ofRowOp answers req p data).answerAll bufs
    (by rw [append_nil]; exact horder.nodup_iff.mpr (nodup_partList _))
    (by rw [append_nil]; exact horder.length_eq) hne false
  exact ⟨st, by simpa using hst, heq⟩

/-- A row op's `getFault` is the fault of its destination. -/
lemma Answered.getFault_copyBack (h0 : 0 ∈ done) :
    (st.copyBack bufs).1.getFault = (answers 0).fault := by
  simp [getFault, isSplit, copyBack, h.parts, h.faults, h0]

/-- The main request's flags, and those of its parts. -/
lemma Answered.isSet_mainReq_copyBack (f : BitVec 32) :
    (st.copyBack bufs).1.mainReq.isSet f = true ↔ req.isSet f = true ∨
      ∃ i ∈ p.op.partList, (answered answers done i req).isSet f = true := by
  have hpart : ∀ i v, ((answered answers done i { req with vaddr := v }).flags &&& f != 0#32) =
      (answered answers done i req).isSet f := by
    intro i v
    simp only [answered]
    split_ifs
    · cases answers i <;> rfl
    · rfl
  have hpaddr : ∀ r : Request, (r.setPaddr 0).isSet f = r.isSet f := fun _ => rfl
  cases hop : p.op <;>
    simp [copyBack, h.parts, h.mainReq, Request.splitRowOp_eq, orFlags, Request.isSet_setFlags,
      hpart, hpaddr, hop, RowOp.partList, RowOp.usesSrc1, RowOp.usesSrc2, or_assoc]

lemma Answered.finishTranslation_copyBack (h0 : 0 ∈ done) (hf : (answers 0).fault = none) :
    TimingSimpleCPU.finishTranslation (st.copyBack bufs).1 (st.copyBack bufs).2 =
      .sendData (.createRowOp (st.copyBack bufs).1.mainReq ((st.copyBack bufs).2 st.data)) := by
  rw [TimingSimpleCPU.finishTranslation, h.getFault_copyBack h0, hf]
  simp [copyBack, h.parts]

end

lemma writes_finishTranslation (inst : DynInst ε) :
    (inst.finishTranslation st).writes = st.getFault.isNone := by
  rw [DynInst.finishTranslation, DynInst.writes]
  cases hf : st.getFault <;> cases st.parts <;> simp

/-- **Faults of a row op**: after its parts have been answered in any order, `getFault` is `NoFault`
exactly if all parts are, and nothing with a faulting source goes to memory, if and only if the
destination faulted or nothing did. -/
theorem rowOp_getFault_iff (req : Request) (p : RowOpPayload) (data : ℕ) (bufs : Buffers)
    (answers : Fin 3 → Answer ε) (order : List (Fin 3)) (inst : DynInst ε)
    (horder : order.Perm p.op.partList) :
    ∃ st bufs', answerAll answers order (false, ofRowOp req p data, bufs) = some (true, st, bufs') ∧
      (((st.getFault = none ↔ ∀ i ∈ p.op.partList, (answers i).fault = none) ∧
        ((∃ i ∈ p.op.partList, i ≠ 0 ∧ (answers i).fault ≠ none) →
          (∀ pkt, TimingSimpleCPU.finishTranslation st bufs' ≠ .sendData pkt) ∧
          (inst.finishTranslation st).writes = false)) ↔
        ((answers 0).fault ≠ none ∨ ∀ i ∈ p.op.partList, (answers i).fault = none)) := by
  obtain ⟨st, hst, heq⟩ := answerAll_rowOp answers req data horder bufs
  have h0 : (0 : Fin 3) ∈ order.reverse := by
    rw [mem_reverse, horder.mem_iff]
    exact mem_cons_self
  refine ⟨(st.copyBack bufs).1, (st.copyBack bufs).2, heq, ?_⟩
  rw [hst.getFault_copyBack h0, writes_finishTranslation, hst.getFault_copyBack h0]
  constructor
  · rintro ⟨hall, -⟩
    by_cases hf : (answers 0).fault = none
    · exact Or.inr (hall.mp hf)
    · exact Or.inl hf
  · rintro (hf | hall)
    · refine ⟨⟨fun h => absurd h hf, fun h => h 0 mem_cons_self⟩, fun _ => ⟨?_, ?_⟩⟩
      · intro pkt
        rw [TimingSimpleCPU.finishTranslation, hst.getFault_copyBack h0]
        cases hf' : (answers 0).fault with
        | none => exact absurd hf' hf
        | some f => simp
      · cases hf' : (answers 0).fault with
        | none => exact absurd hf' hf
        | some f => rfl
    · refine ⟨⟨fun _ => hall, fun _ => hall 0 mem_cons_self⟩, ?_⟩
      rintro ⟨i, hi, _, hfi⟩
      exact absurd (hall i hi) hfi

/-- A mapped destination, unmapped sources. -/
def badSources : Fin 3 → Answer ℕ
  | 0 => .ok (0x2000, 0#32)
  | i => .error i

/-- A row op's request, as `initiateAcc` makes it. -/
def rowOpReq : Request := .virt 0 32 (Request.uncacheable ||| Request.rowop) 0

theorem rowOp_getFault_iff_rowNot :
    ∃ st bufs', answerAll badSources [1, 0] (false, ofRowOp rowOpReq ⟨.rowNot, 0x4000, 0x6000, 0⟩ 0,
        fun _ => ⟨.rowNot, 0x4000, 0x6000, 0⟩) = some (true, st, bufs') ∧
      (((st.getFault = none ↔ ∀ i ∈ RowOp.rowNot.partList, (badSources i).fault = none) ∧
        ((∃ i ∈ RowOp.rowNot.partList, i ≠ 0 ∧ (badSources i).fault ≠ none) →
          (∀ pkt, TimingSimpleCPU.finishTranslation st bufs' ≠ .sendData pkt) ∧
          (DynInst.fresh.finishTranslation st).writes = false)) ↔
        ((badSources 0).fault ≠ none ∨ ∀ i ∈ RowOp.rowNot.partList, (badSources i).fault = none)) :=
  rowOp_getFault_iff rowOpReq ⟨.rowNot, 0x4000, 0x6000, 0⟩ 0 _ badSources [1, 0] .fresh (by decide)

/-- A `ROWNOT` with an unmapped source goes to memory without a fault. -/
theorem rowOp_getFault_unmapped_src :
    ∃ st bufs', answerAll badSources [0, 1] (false, ofRowOp rowOpReq ⟨.rowNot, 0x4000, 0x6000, 0⟩ 0,
        fun _ => ⟨.rowNot, 0x4000, 0x6000, 0⟩) = some (true, st, bufs') ∧
      st.getFault = none ∧ (badSources 1).fault ≠ none ∧
      ∃ pkt, TimingSimpleCPU.finishTranslation st bufs' = .sendData pkt :=
  ⟨_, _, rfl, rfl, by decide, _, rfl⟩

end WholeTranslationState

end ShifDram
