import ShifDram.Vm.PageTable

/-!
How the CPUs issue a row op: `TimingSimpleCPU::writeMem` (`cpu/simple/timing.cc`) and
`BaseDynInst::writeMem` (`cpu/base_dyn_inst.hh`), called by `initiateAcc`
(`arch/x86/isa/microops/rowbit.isa`).

If some part of its translation is delayed, the out-of-order CPU executes the instruction twice;
`initiateAcc` then fills a payload of its own, while the physical addresses went into that of the
first execution.
-/

namespace ShifDram

open WholeTranslationState List Function Option

def RowOpPayload.operand (p : RowOpPayload) : Fin 3 → ℕ
  | 0 => p.dest
  | 1 => p.src1
  | 2 => p.src2

def PageTable.answers (pt : PageTable) (p : RowOpPayload) (i : Fin 3) : Answer ℕ :=
  pt.answer (p.operand i)

lemma RowOpPayload.operand_align (p : RowOpPayload) (i : Fin 3) :
    p.align.operand i = rowAlign (p.operand i) := by
  fin_cases i <;> rfl

def PageTable.MapsOperands (pt : PageTable) (p : RowOpPayload) : Prop :=
  ∀ i ∈ p.op.partList, (pt.lookup (p.operand i)).isSome = true

/-- No part of the row op's translation faults. -/
def PageTable.AdmitsOperands (pt : PageTable) (p : RowOpPayload) : Prop :=
  ∀ i ∈ p.op.partList, (pt.answers p i).fault = none

/-- The payload with physical addresses of the operands it has. -/
def RowOpPayload.physical (p : RowOpPayload) (pt : PageTable) : RowOpPayload :=
  { p with
    dest := (pt.translate p.dest).getD 0
    src1 := if p.op.usesSrc1 then (pt.translate p.src1).getD 0 else p.src1
    src2 := if p.op.usesSrc2 then (pt.translate p.src2).getD 0 else p.src2 }

section Patch

variable {pt : PageTable} {req : Request} {p : RowOpPayload} {data : ℕ} {done : List (Fin 3)}
  {st : WholeTranslationState ℕ} {bufs : Buffers} {i : Fin 3}

lemma PageTable.MapsOperands.translate_eq (h : pt.MapsOperands p) (hi : i ∈ p.op.partList) :
    pt.translate (p.operand i) = some ((pt.translate (p.operand i)).getD 0) := by
  obtain ⟨e, he⟩ := isSome_iff_exists.mp (h i hi)
  rw [PageTable.translate_eq he]
  rfl

lemma PageTable.MapsOperands.translate_operand (h : pt.MapsOperands p)
    (hi : i ∈ p.op.partList) : pt.translate (p.operand i) = some ((p.physical pt).operand i) := by
  rw [h.translate_eq hi]
  fin_cases i
  · rfl
  · simp [RowOpPayload.operand, RowOpPayload.physical, RowOp.mem_partList_one.mp hi]
  · simp [RowOpPayload.operand, RowOpPayload.physical, RowOp.mem_partList_two.mp hi]

lemma PageTable.AdmitsOperands.mapsOperands (h : pt.AdmitsOperands p) : pt.MapsOperands p := by
  intro i hi
  obtain ⟨e, he, -⟩ := PageTable.fault_answer_eq_none_iff.mp (h i hi)
  exact isSome_iff_exists.mpr ⟨e, he⟩

lemma patchField_answered (h : pt.AdmitsOperands p) (hi : i ∈ p.op.partList)
    (hdone : i ∈ done) (r : Request) (field : ℕ) :
    patchField (none : Option ℕ) (some (answered (pt.answers p) done i r)) field =
      (pt.translate (p.operand i)).getD 0 := by
  rw [patchField, answered, if_pos hdone, PageTable.answers, PageTable.paddr_apply_answer (h i hi)]

/-- Only a request into the window is marked for a pseudo instruction. -/
lemma isMmappedIpr_apply_answer {v : ℕ} {r : Request}
    (h : ((pt.answer v).apply r).isMmappedIpr = true)
    (hr : r.isMmappedIpr = false) : ∃ a, pt.address v = some a ∧ m5opWindow a := by
  rw [PageTable.answer] at h
  cases hl : pt.lookup v with
  | none =>
    rw [hl] at h
    exact absurd h (by simpa [Answer.apply] using hr)
  | some e =>
    refine ⟨e.address v, by rw [PageTable.address, hl, map_some], ?_⟩
    by_contra hwindow
    have hflags : e.flags (e.address v) &&& Request.mmappedIpr = 0#32 := by
      rw [TlbEntry.flags, if_neg hwindow]
      cases e.uncacheable <;> decide
    rw [hl] at h
    simp only [] at h
    split_ifs at h
    · exact absurd h (by simpa [Answer.apply] using hr)
    · rw [Answer.apply, Request.isMmappedIpr, Request.isSet_setFlags, hflags] at h
      exact absurd h (by simpa [Request.setPaddr, Request.isSet, Request.isMmappedIpr] using hr)

/-- **The copy-back of a row op** without faults leaves physical addresses. -/
lemma copyBack_payload (h : Answered (pt.answers p) req p data done st)
    (hmap : pt.AdmitsOperands p) (hdone : ∀ i ∈ p.op.partList, i ∈ done) (hbuf : bufs data = p) :
    (st.copyBack bufs).2 data = p.physical pt := by
  have hfault : ∀ i ∈ p.op.partList, st.faults i = none := fun i hi => by
    rw [h.faults, if_pos (hdone i hi), hmap i hi]
  have h0 : (0 : Fin 3) ∈ p.op.partList := mem_cons_self
  rw [copyBack, h.parts, h.data_eq]
  simp only [update_self, hbuf, patch, RowOpPayload.physical, Request.splitRowOp_eq, hfault 0 h0]
  congr 1
  · exact patchField_answered hmap h0 (hdone 0 h0) _ _
  · cases hu : p.op.usesSrc1 with
    | false => simp [patchField]
    | true =>
      have h1 : (1 : Fin 3) ∈ p.op.partList := RowOp.mem_partList_one.mpr hu
      simpa [hfault 1 h1, RowOpPayload.operand] using patchField_answered hmap h1 (hdone 1 h1) _ _
  · cases hu : p.op.usesSrc2 with
    | false => simp [patchField]
    | true =>
      have h2 : (2 : Fin 3) ∈ p.op.partList := RowOp.mem_partList_two.mpr hu
      simpa [hfault 2 h2, RowOpPayload.operand] using patchField_answered hmap h2 (hdone 2 h2) _ _

end Patch

namespace TimingSimpleCPU

/-- The parts are answered at once, and the translation is finished. -/
def complete (st : WholeTranslationState ℕ) (bufs : Buffers) (answers : Fin 3 → Answer ℕ)
    (order : List (Fin 3)) : Option (TimingOutcome ℕ) :=
  (answerAll answers order (false, st, bufs)).bind fun r =>
    if r.1 then some (finishTranslation r.2.1 r.2.2) else none

-- the parts are numbered from 0 to 2
local instance neZero_parts : NeZero 3 := ⟨by decide⟩

/-- `TimingSimpleCPU::writeMem`, translated at once; `none` is the failed assertion on the split
address. -/
def writeMem (pt : PageTable) (blockSize : ℕ) (data : RowOpPayload) (size addr : ℕ)
    (flags : BitVec 32) : Option (TimingOutcome ℕ) :=
  let newData : Buffers := fun _ => data
  let req := Request.virt addr size flags 0
  let splitAddr := (addr + size - 1) / blockSize * blockSize
  if ¬ (splitAddr ≤ addr ∨ splitAddr - addr < blockSize) then none
  else if addr < splitAddr then
    let low := (req.splitOnVaddr splitAddr).1
    let high := (req.splitOnVaddr splitAddr).2
    complete (.split req low high 0) newData
      (fun i => if i = 0 then pt.answer low.vaddr else pt.answer high.vaddr) [0, 1]
  else if flags &&& Request.rowop ≠ 0#32 then
    complete (.ofRowOp req data 0) newData (pt.answers data) data.op.partList
  else complete (.single req 0) newData (fun _ => pt.answer addr) [0]

end TimingSimpleCPU

/-! ### The out-of-order CPU -/

/-- A store in execution, with the payload buffers, the translation under way, and what was handed
to `LSQUnit::write`. -/
structure StoreExec where
  inst : DynInst ℕ
  bufs : Buffers
  req : Request
  trans : Option (WholeTranslationState ℕ)
  written : Option (Request × RowOpPayload)

namespace BaseDynInst

variable (bufs : Buffers)

/-- `DataTranslation::finish`; with the last part the instruction is told. -/
def finishPart (s : StoreExec) (i : Fin 3) (a : Answer ℕ) : Option StoreExec :=
  s.trans.bind fun st => (st.answer s.bufs i a).bind fun r =>
    if r.1 then
      some { s with
        inst := s.inst.finishTranslation r.2.1
        bufs := r.2.2
        req := r.2.1.mainReq
        trans := none }
    else some { s with bufs := r.2.2, trans := some r.2.1 }

def finishAll (answers : Fin 3 → Answer ℕ) : List (Fin 3) → StoreExec → Option StoreExec
  | [], s => some s
  | i :: is, s => (finishPart s i (answers i)).bind (finishAll answers is)

/-- `translateTiming`: parts not delayed are answered before it returns. -/
def translateParts (immediate : Fin 3 → Bool) (answers : Fin 3 → Answer ℕ) :
    List (Fin 3) → StoreExec → Option StoreExec
  | [], s => some s
  | i :: is, s =>
    (if immediate i then finishPart s i (answers i) else some s).bind
      (translateParts immediate answers is)

/-- `writeMem`, first half: the payload is rounded to rows, split, translated. -/
def startTranslation (pt : PageTable) (immediate : Fin 3 → Bool) (data size addr : ℕ)
    (flags : BitVec 32) (s : StoreExec) : Option StoreExec :=
  let req := Request.virt addr size flags 0
  let addrs := (s.bufs data).align
  let s := { s with
    inst := { s.inst with translationStarted := true }
    bufs := Function.update s.bufs data addrs
    req := req
    trans := some (ofRowOp req addrs data) }
  (translateParts immediate (pt.answers addrs) addrs.op.partList s).map fun s =>
    if s.inst.translationCompleted then s else { s with inst := { s.inst with fault := none } }

/-- `writeMem`, end: without a fault it goes to `cpu->write`. -/
def issue (data size : ℕ) (s : StoreExec) : StoreExec :=
  if s.inst.writes then
    { s with
      inst := { s.inst with effAddr := s.req.vaddr, effSize := size, effAddrValid := true }
      written := some (s.req, s.bufs data) }
  else s

/-- `BaseDynInst::writeMem` of buffer `data`. -/
def writeMem (pt : PageTable) (immediate : Fin 3 → Bool) (data size addr : ℕ)
    (flags : BitVec 32) (s : StoreExec) : Option StoreExec :=
  (if s.inst.translationStarted then some s
    else startTranslation pt immediate data size addr flags s).map (issue data size)

/-- The payload `initiateAcc` fills from the registers. -/
def rowOpData (op : RowOp) (rdi rsi rdx : ℕ) : RowOpPayload :=
  ⟨op, rdi, if op.usesSrc1 then rsi else 0, if op.usesSrc2 then rdx else 0⟩

/-- `initiateAcc`, its local payload in buffer `frame`. -/
def initiateAcc (pt : PageTable) (immediate : Fin 3 → Bool) (data : RowOpPayload) (frame : ℕ)
    (s : StoreExec) : Option StoreExec :=
  writeMem pt immediate frame 32 0 (Request.uncacheable ||| Request.rowop)
    { s with bufs := Function.update s.bufs frame data }

/-- A row op from its first execution on; `order` is that of the delayed parts. With any, it
executes again once its translation is complete. -/
def executeRowOp (pt : PageTable) (immediate : Fin 3 → Bool) (data : RowOpPayload)
    (order : List (Fin 3)) (frame frame' : ℕ) (s : StoreExec) : Option StoreExec :=
  (initiateAcc pt immediate data frame s).bind fun s =>
    if s.inst.translationStarted && !s.inst.translationCompleted then
      (finishAll (pt.answers data.align) order s).bind (initiateAcc pt immediate data frame')
    else some s

def fresh (bufs : Buffers) : StoreExec := ⟨.fresh, bufs, .virt 0 0 0#32 0, none, none⟩

lemma translateParts_eq (immediate : Fin 3 → Bool) (answers : Fin 3 → Answer ℕ)
    (l : List (Fin 3)) (s : StoreExec) :
    translateParts immediate answers l s = finishAll answers (l.filter immediate) s := by
  induction l generalizing s with
  | nil => rfl
  | cons i is ih =>
    by_cases hi : immediate i = true
    · simp only [translateParts, hi, if_true, filter_cons_of_pos, finishAll]
      exact congrArg _ (funext ih)
    · rw [filter_cons_of_neg hi, translateParts, if_neg hi]
      exact ih s

variable {answers : Fin 3 → Answer ℕ} {req : Request} {p : RowOpPayload} {data : ℕ}
  {done order : List (Fin 3)} {st : WholeTranslationState ℕ} {s : StoreExec}

/-- The last answer completes the translation. -/
lemma finishAll_ok (order : List (Fin 3)) (h : Answered answers req p data done st)
    (hs : s.trans = some st) (hnodup : (order ++ done).Nodup)
    (hlen : (order ++ done).length ≤ p.op.partList.length)
    (hdone : done.length < p.op.partList.length) :
    ∃ st', Answered answers req p data (order.reverse ++ done) st' ∧
      finishAll answers order s = some (if (order ++ done).length = p.op.partList.length then
        { s with
          inst := s.inst.finishTranslation (st'.copyBack s.bufs).1
          bufs := (st'.copyBack s.bufs).2
          req := (st'.copyBack s.bufs).1.mainReq
          trans := none }
      else { s with trans := some st' }) := by
  induction order generalizing done st s with
  | nil => exact ⟨st, h, by rw [nil_append, if_neg hdone.ne, finishAll, ← hs]⟩
  | cons i is ih =>
    rw [cons_append, nodup_cons] at hnodup
    simp only [cons_append, length_cons, length_append] at hlen
    obtain ⟨st₁, h₁, heq⟩ := h.cons s.bufs (fun hmem => hnodup.1 (mem_append_right _ hmem)) hdone
    by_cases hlast : done.length + 1 = p.op.partList.length
    · obtain rfl : is = [] := length_eq_zero_iff.mp (by omega)
      exact ⟨st₁, by simpa using h₁, by simp [finishAll, finishPart, hs, heq, hlast]⟩
    · rw [if_neg hlast] at heq
      have hnodup' : (is ++ i :: done).Nodup := perm_middle.nodup_iff.mpr (nodup_cons.mpr hnodup)
      have hlen' : (is ++ i :: done).length = (i :: is ++ done).length := by simp; omega
      obtain ⟨st₂, h₂, heq₂⟩ := ih (s := { s with trans := some st₁ }) h₁ rfl hnodup'
        (by simp only [length_append, length_cons]; omega) (by rw [length_cons]; omega)
      refine ⟨st₂, by simpa using h₂, ?_⟩
      rw [hlen'] at heq₂
      simpa [finishAll, finishPart, hs, heq] using heq₂

/-! ### One and two executions -/

variable {pt : PageTable} {immediate : Fin 3 → Bool} {raw : RowOpPayload}

/-- Translations asked for by the first execution, none answered. -/
def started (raw : RowOpPayload) (frame : ℕ) : StoreExec :=
  let req := Request.virt 0 32 (Request.uncacheable ||| Request.rowop) 0
  { inst := { (DynInst.fresh : DynInst ℕ) with translationStarted := true }
    bufs := Function.update bufs frame raw.align
    req := req
    trans := some (ofRowOp req raw.align frame)
    written := none }

lemma initiateAcc_fresh (frame : ℕ) : initiateAcc pt immediate raw frame (fresh bufs) =
      (finishAll (pt.answers raw.align) (raw.op.partList.filter immediate)
        (started bufs raw frame)).map fun s => issue frame 32 (if s.inst.translationCompleted then s
            else { s with inst := { s.inst with fault := none } }) := by
  rw [initiateAcc, writeMem, if_neg (by simp [fresh, DynInst.fresh]), startTranslation,
    translateParts_eq]
  simp only [fresh, update_self, update_idem, Option.map_map]
  rfl

lemma initiateAcc_again (s : StoreExec) (frame : ℕ) (hs : s.inst.translationStarted = true) :
    initiateAcc pt immediate raw frame s =
      some (issue frame 32 { s with bufs := update s.bufs frame raw }) := by
  rw [initiateAcc, writeMem, if_pos hs]
  rfl

lemma written_issue {st : WholeTranslationState ℕ} (h : st.getFault = none) (inst : DynInst ℕ)
    (bufs : Buffers) (req : Request) (frame : ℕ) :
    (issue frame 32 ⟨inst.finishTranslation st, bufs, req, none, none⟩).written =
      some (req, bufs frame) := by
  rw [issue, if_pos]
  rw [writes_finishTranslation, h]
  rfl

/-- Without a delayed part the translation is complete at once. -/
lemma initiateAcc_of_immediate (frame : ℕ) (hmap : pt.AdmitsOperands raw.align)
    (hall : ∀ i ∈ raw.op.partList, immediate i = true) :
    ∃ s req, initiateAcc pt immediate raw frame (fresh bufs) = some s ∧
      s.inst.translationCompleted = true ∧ s.written = some (req, raw.align.physical pt) ∧
      req.isRowOp = true ∧ (req.isMmappedIpr = true →
        ∃ i ∈ raw.op.partList, ∃ a, pt.address (raw.align.operand i) = some a ∧ m5opWindow a) := by
  have h₀ := answered_ofRowOp (pt.answers raw.align)
    (Request.virt 0 32 (Request.uncacheable ||| Request.rowop) 0) raw.align frame
  obtain ⟨st, hst, heq⟩ := finishAll_ok (s := started bufs raw frame) raw.op.partList
    h₀ rfl (by simpa using nodup_partList _) (by simp [RowOpPayload.align])
    (by simp [RowOp.partList])
  rw [if_pos (by simp [RowOpPayload.align])] at heq
  have hdone : ∀ i ∈ raw.align.op.partList, i ∈ raw.op.partList.reverse ++ [] := by
    simp [RowOpPayload.align]
  set r := st.copyBack (started bufs raw frame).bufs with hr
  have hgf : r.1.getFault = none := by
    rw [hr, hst.getFault_copyBack (hdone 0 mem_cons_self), hmap 0 mem_cons_self]
  refine ⟨issue frame 32 ⟨(started bufs raw frame).inst.finishTranslation r.1, r.2, r.1.mainReq,
    none, none⟩, r.1.mainReq, ?_, ?_, ?_, ?_, ?_⟩
  · rw [initiateAcc_fresh, filter_eq_self.mpr hall, heq]
    simp [DynInst.translationCompleted_finishTranslation, started]
  · simp [issue, writes_finishTranslation, hgf, DynInst.translationCompleted_finishTranslation]
  · rw [written_issue hgf, hr, copyBack_payload hst hmap hdone (by simp [started])]
  · exact (hst.isSet_mainReq_copyBack _).mpr (Or.inl (by decide))
  · intro hipr
    rcases (hst.isSet_mainReq_copyBack _).mp hipr with hreq | ⟨i, hi, hpart⟩
    · exact absurd hreq (by decide)
    · rw [answered, if_pos (hdone i hi)] at hpart
      exact ⟨i, hi, isMmappedIpr_apply_answer hpart (by decide)⟩

/-- With a delayed part the second execution finds its own payload. -/
lemma executeRowOp_of_delayed (frame frame' : ℕ) (hmap : pt.AdmitsOperands raw.align)
    (horder : order.Perm (raw.op.partList.filter fun i => !immediate i))
    (hdelayed : ∃ i ∈ raw.op.partList, immediate i = false) :
    ∃ s req, executeRowOp pt immediate raw order frame frame' (fresh bufs) = some s ∧
      s.written = some (req, raw) := by
  obtain ⟨i, hi, hdel⟩ := hdelayed
  have h₀ := answered_ofRowOp (pt.answers raw.align)
    (Request.virt 0 32 (Request.uncacheable ||| Request.rowop) 0) raw.align frame
  set now := raw.op.partList.filter immediate with hnow
  -- the parts answered at once and the delayed ones are all parts
  have hperm : (order ++ now.reverse).Perm raw.op.partList := by
    refine (horder.append (reverse_perm now)).trans (perm_append_comm.trans ?_)
    exact filter_append_perm immediate raw.op.partList
  have hlen := hperm.length_eq
  have hpos : 0 < order.length := by
    rw [horder.length_eq]
    exact length_pos_of_mem (mem_filter.mpr ⟨hi, by simp [hdel]⟩)
  simp only [length_append, length_reverse] at hlen
  have hwaits : (now ++ []).length < raw.align.op.partList.length := by
    simp only [append_nil, RowOpPayload.align]
    omega
  obtain ⟨st₁, hst₁, heq₁⟩ := finishAll_ok (s := started bufs raw frame) now h₀ rfl
    (by simpa using (nodup_partList _).filter _) hwaits.le (by simp [RowOp.partList])
  rw [if_neg hwaits.ne] at heq₁
  rw [append_nil] at hst₁
  set s₁ : StoreExec := { started bufs raw frame with trans := some st₁ } with hs₁
  obtain ⟨st₂, hst₂, heq₂⟩ := finishAll_ok (s := s₁) order hst₁ rfl
    (hperm.nodup_iff.mpr (nodup_partList _)) hperm.length_eq.le (by simpa using hwaits)
  rw [if_pos (by exact hperm.length_eq)] at heq₂
  set r := st₂.copyBack s₁.bufs with hr
  have hgf : r.1.getFault = none := by
    rw [hr, hst₂.getFault_copyBack, hmap 0 mem_cons_self]
    rw [mem_append, mem_reverse, ← mem_append, hperm.mem_iff]
    exact mem_cons_self
  refine ⟨issue frame' 32 ⟨s₁.inst.finishTranslation r.1, update r.2 frame' raw,
    r.1.mainReq, none, none⟩, r.1.mainReq, ?_, ?_⟩
  · have hfirst : initiateAcc pt immediate raw frame (fresh bufs) = some s₁ := by
      rw [initiateAcc_fresh, heq₁]
      rfl
    rw [executeRowOp, hfirst, bind_some, if_pos (by rfl), heq₂, bind_some,
      initiateAcc_again _ _ (DynInst.translationStarted_finishTranslation _ _)]
    rfl
  · rw [written_issue hgf, update_self]

/-- **Delayed translations of a row op**: the payload handed over holds the physical addresses of
the row-aligned operands if and only if no part was delayed or the registers held them already. -/
theorem executeRowOp_physical_iff (pt : PageTable) (op : RowOp) (rdi rsi rdx : ℕ)
    (immediate : Fin 3 → Bool) (order : List (Fin 3)) (bufs : Buffers) (frame frame' : ℕ)
    (hmap : pt.AdmitsOperands (rowOpData op rdi rsi rdx).align)
    (horder : order.Perm (op.partList.filter fun i => !immediate i)) :
    ∃ s req q, executeRowOp pt immediate (rowOpData op rdi rsi rdx) order frame frame'
        (fresh bufs) = some s ∧ s.written = some (req, q) ∧
      ((q.op = op ∧ ∀ i ∈ op.partList,
          pt.translate (rowAlign ((rowOpData op rdi rsi rdx).operand i)) = some (q.operand i)) ↔
        (∀ i ∈ op.partList, immediate i = true) ∨ ∀ i ∈ op.partList,
          pt.translate (rowAlign ((rowOpData op rdi rsi rdx).operand i)) =
            some ((rowOpData op rdi rsi rdx).operand i)) := by
  by_cases hall : ∀ i ∈ op.partList, immediate i = true
  · obtain ⟨s, req, heq, hdone, hw, -⟩ := initiateAcc_of_immediate bufs frame hmap hall
    refine ⟨s, req, _, ?_, hw, iff_of_true ⟨rfl, fun i hi => ?_⟩ (Or.inl hall)⟩
    · rw [executeRowOp, heq, bind_some, hdone]
      simp
    rw [← RowOpPayload.operand_align]
    exact hmap.mapsOperands.translate_operand hi
  · obtain ⟨s, req, heq, hw⟩ := executeRowOp_of_delayed bufs frame frame' hmap horder
      (by simpa [rowOpData] using hall)
    refine ⟨s, req, _, heq, hw, ?_⟩
    simp only [hall, false_or]
    exact ⟨fun h => h.2, fun h => ⟨rfl, h⟩⟩

theorem executeRowOp_physical_iff_rowNot :
    ∃ s req q, executeRowOp PageTable.upSixteen (fun i => i == 0)
      (rowOpData .rowNot 0x4000 0x6000 0) [1] 0 1
        (fresh fun _ => rowOpData .rowNot 0 0 0) = some s ∧ s.written = some (req, q) ∧
      ((q.op = .rowNot ∧ ∀ i ∈ RowOp.rowNot.partList,
          PageTable.upSixteen.translate (rowAlign ((rowOpData .rowNot 0x4000 0x6000 0).operand i)) =
            some (q.operand i)) ↔
        (∀ i ∈ RowOp.rowNot.partList, (i == 0) = true) ∨ ∀ i ∈ RowOp.rowNot.partList,
          PageTable.upSixteen.translate (rowAlign ((rowOpData .rowNot 0x4000 0x6000 0).operand i)) =
            some ((rowOpData .rowNot 0x4000 0x6000 0).operand i)) :=
  executeRowOp_physical_iff PageTable.upSixteen .rowNot 0x4000 0x6000 0 (fun i => i == 0) [1] _ 0 1
    (fun _ _ => PageTable.faultFree_upSixteen _) (by decide)

/-- With the source delayed, a virtual destination goes to the store queue. -/
theorem executeRowOp_delayed_virtual :
    ∃ s req q, executeRowOp PageTable.upSixteen (fun i => i == 0)
      (rowOpData .rowNot 0x4000 0x6000 0) [1] 0 1
        (fresh fun _ => rowOpData .rowNot 0 0 0) = some s ∧ s.written = some (req, q) ∧
      PageTable.upSixteen.translate (rowAlign 0x4000) = some 0x14000 ∧ q.dest = 0x4000 := by
  have horder : [(1 : Fin 3)].Perm ((rowOpData .rowNot 0x4000 0x6000 0).op.partList.filter
      fun i => !(i == 0)) := by decide
  obtain ⟨s, req, heq, hw⟩ := executeRowOp_of_delayed (fun _ => rowOpData .rowNot 0 0 0) 0 1
    (fun _ _ => PageTable.faultFree_upSixteen _) horder (by decide)
  exact ⟨s, req, _, heq, hw, by decide, rfl⟩

end BaseDynInst

/-! ### The two CPUs compared -/

/-- The payload the timing CPU sends for a row op in one packet. -/
def TimingSimpleCPU.payload (pt : PageTable) (blockSize : ℕ) (p : RowOpPayload) :
    Option RowOpPayload :=
  match writeMem pt blockSize p 32 0 (Request.uncacheable ||| Request.rowop) with
  | some (.sendData pkt) => some pkt.rowOp
  | _ => none

/-- The payload the out-of-order CPU hands over, with immediate answers. -/
def BaseDynInst.payload (pt : PageTable) (p : RowOpPayload) : Option RowOpPayload :=
  ((writeMem pt (fun _ => true) 0 32 0 (Request.uncacheable ||| Request.rowop)
    (fresh fun _ => p)).bind StoreExec.written).map Prod.snd

lemma TimingSimpleCPU.payload_of_fits {pt : PageTable} {blockSize : ℕ} {p : RowOpPayload}
    (hfits : 31 / blockSize = 0) (hmap : pt.AdmitsOperands p) :
    payload pt blockSize p = some (p.physical pt) := by
  have hflags : (Request.uncacheable ||| Request.rowop) &&& Request.rowop ≠ 0#32 := by decide
  obtain ⟨st, hst, heq⟩ := answerAll_rowOp (pt.answers p)
    (.virt 0 32 (Request.uncacheable ||| Request.rowop) 0) 0 (List.Perm.refl p.op.partList)
    fun _ => p
  have hdone : ∀ i ∈ p.op.partList, i ∈ p.op.partList.reverse := by simp
  have h0 := hdone 0 mem_cons_self
  rw [payload, writeMem]
  simp only [Nat.zero_add, show 32 - 1 = 31 by norm_num, hfits, Nat.zero_mul, Nat.lt_irrefl,
    le_refl, true_or, not_true, if_false, if_pos hflags, complete, heq, bind_some, if_true]
  rw [hst.finishTranslation_copyBack h0 (hmap 0 mem_cons_self), hst.data_eq]
  exact congrArg some (copyBack_payload hst hmap hdone rfl)

lemma TimingSimpleCPU.payload_of_not_fits {pt : PageTable} {blockSize : ℕ} {p : RowOpPayload}
    (hfits : 31 / blockSize ≠ 0) : payload pt blockSize p = none := by
  have hle : blockSize ≤ 31 / blockSize * blockSize :=
    Nat.le_mul_of_pos_left _ (Nat.pos_of_ne_zero hfits)
  have hpos : 0 < blockSize := by
    by_contra h
    rw [Nat.eq_zero_of_not_pos h, Nat.div_zero] at hfits
    exact hfits rfl
  rw [payload, writeMem, if_pos]
  simp only [Nat.zero_add, show 32 - 1 = 31 by norm_num]
  omega

lemma BaseDynInst.payload_eq {pt : PageTable} {p : RowOpPayload}
    (hmap : pt.AdmitsOperands p.align) : payload pt p = some (p.align.physical pt) := by
  obtain ⟨s, req, heq, -, hw, -⟩ := initiateAcc_of_immediate (fun _ => p) 0 hmap fun _ _ => rfl
  have hbufs : update (fun _ => p : Buffers) 0 p = fun _ => p := update_eq_self _ _
  simp only [initiateAcc, fresh, hbufs] at heq
  simp only [payload, fresh, heq, hw, bind_some, map_some]

lemma getD_translate_rowAlign_iff {pt : PageTable} (hff : pt.FaultFree) (v : ℕ) :
    (pt.translate v).getD 0 = (pt.translate (rowAlign v)).getD 0 ↔ pt.RowAlignSafe v := by
  obtain ⟨e, he, -⟩ := PageTable.fault_answer_eq_none_iff.mp (hff v)
  obtain ⟨e', he', -⟩ := PageTable.fault_answer_eq_none_iff.mp (hff (rowAlign v))
  rw [← PageTable.translate_rowAlign_iff (isSome_iff_exists.mpr ⟨e, he⟩)
    (isSome_iff_exists.mpr ⟨e', he'⟩)]
  simp [PageTable.translate_eq he, PageTable.translate_eq he']

lemma eq_rowAlign_iff (v : ℕ) : v = rowAlign v ↔ v % rowSize = 0 := by
  constructor
  · intro h
    exact Nat.mod_eq_zero_of_dvd (h ▸ rowAlign_dvd v)
  · intro h
    exact (rowAlign_of_dvd (Nat.dvd_of_mod_eq_zero h)).symm

lemma physical_eq_align_iff {pt : PageTable} (hff : pt.FaultFree) (p : RowOpPayload) :
    p.physical pt = p.align.physical pt ↔ (∀ i ∈ p.op.partList, pt.RowAlignSafe (p.operand i)) ∧
      ∀ i ∉ p.op.partList, p.operand i % rowSize = 0 := by
  obtain ⟨op, d, a, b⟩ := p
  simp only [RowOpPayload.physical, RowOpPayload.align, RowOpPayload.mk.injEq, true_and,
    Fin.forall_fin_succ, Fin.forall_fin_zero, getD_translate_rowAlign_iff hff]
  cases op <;> simp [RowOp.partList, RowOp.usesSrc1, RowOp.usesSrc2, RowOpPayload.operand,
      getD_translate_rowAlign_iff hff, eq_rowAlign_iff, and_assoc]

/-- **The two CPUs** produce the same physical payload without faults if and only if its 32 bytes
fit in a cache block, every operand the opcode has is `RowAlignSafe`, and every other one is
row-aligned. -/
theorem writeMem_agree_iff (pt : PageTable) (hff : pt.FaultFree) (blockSize : ℕ)
    (p : RowOpPayload) :
    (∃ q, TimingSimpleCPU.payload pt blockSize p = some q ∧ BaseDynInst.payload pt p = some q) ↔
      31 / blockSize = 0 ∧ (∀ i ∈ p.op.partList, pt.RowAlignSafe (p.operand i)) ∧
        ∀ i ∉ p.op.partList, p.operand i % rowSize = 0 := by
  rw [← physical_eq_align_iff hff]
  by_cases hfits : 31 / blockSize = 0
  · rw [TimingSimpleCPU.payload_of_fits hfits fun i _ => hff _,
      BaseDynInst.payload_eq fun i _ => hff _]
    simp [hfits, eq_comm]
  · rw [TimingSimpleCPU.payload_of_not_fits hfits]
    simp [hfits]

theorem writeMem_agree_iff_upSixteen :
    (∃ q, TimingSimpleCPU.payload PageTable.upSixteen 64 ⟨.rowNot, 0x4000, 0x6000, 0⟩ = some q ∧
        BaseDynInst.payload PageTable.upSixteen ⟨.rowNot, 0x4000, 0x6000, 0⟩ = some q) ↔
      31 / 64 = 0 ∧ (∀ i ∈ RowOp.rowNot.partList, PageTable.upSixteen.RowAlignSafe
          (RowOpPayload.operand ⟨.rowNot, 0x4000, 0x6000, 0⟩ i)) ∧
        ∀ i ∉ RowOp.rowNot.partList,
          RowOpPayload.operand ⟨.rowNot, 0x4000, 0x6000, 0⟩ i % rowSize = 0 :=
  writeMem_agree_iff PageTable.upSixteen PageTable.faultFree_upSixteen 64
    ⟨.rowNot, 0x4000, 0x6000, 0⟩

/-- Eight bytes into a row the timing CPU sends the unrounded address. -/
theorem writeMem_unaligned_dest :
    ∃ q q', TimingSimpleCPU.payload PageTable.upSixteen 64 ⟨.rowNot, 0x4008, 0x6000, 0⟩ = some q ∧
      BaseDynInst.payload PageTable.upSixteen ⟨.rowNot, 0x4008, 0x6000, 0⟩ = some q' ∧
      q.dest = 0x14008 ∧ q'.dest = 0x14000 :=
  ⟨_, _, TimingSimpleCPU.payload_of_fits (by norm_num) fun _ _ => PageTable.faultFree_upSixteen _,
    BaseDynInst.payload_eq fun _ _ => PageTable.faultFree_upSixteen _, by decide, by decide⟩

end ShifDram
