import ShifDram.Vm.Mmap
import ShifDram.Queue.Log

/-!
The TLBs of a process in syscall emulation (`arch/x86/tlb.cc`).

A TLB keeps entries that it once got from the page table, and no call tells it when that changes.
Calls that only add pages leave its entries right; `mremap` does not.
-/

namespace ShifDram

open List Function Option Fallible

/-- `TlbEntry`, with its last use, and whether the trie has it. -/
structure TlbSlot where
  entry : PageEntry
  lruSeq : ℕ
  inTrie : Bool

structure TLB where
  tlb : List TlbSlot
  freeList : List ℕ
  lruSeq : ℕ

namespace TLB

variable (t : TLB)

def init (size : ℕ) : TLB := ⟨List.replicate size ⟨.blank, 0, false⟩, List.range size, 0⟩

def covers (va : ℤ) (slot : TlbSlot) : Bool :=
  slot.inTrie && decide (va / 2 ^ slot.entry.logBytes = slot.entry.vaddr / 2 ^ slot.entry.logBytes)

def lookup (va : ℤ) : Option ℕ := t.tlb.findIdx? (covers va)

def slot (i : ℕ) : TlbSlot := t.tlb.getD i ⟨.blank, 0, false⟩

def use (i : ℕ) : TLB :=
  { t with tlb := t.tlb.set i { t.slot i with lruSeq := t.lruSeq + 1 }, lruSeq := t.lruSeq + 1 }

def lru (t : TLB) : ℕ :=
  (List.range t.tlb.length).foldl (fun lru i =>
    if (t.slot i).lruSeq < (t.slot lru).lruSeq then i else lru) 0

def evictLRU : Except VmAbort TLB :=
  if !(t.slot t.lru).inTrie then .error .tlb
  else .ok { t with
    tlb := t.tlb.set t.lru { t.slot t.lru with inTrie := false }
    freeList := t.freeList ++ [t.lru] }

def fill (vpn : ℤ) (entry : PageEntry) : Except VmAbort (ℕ × TLB) :=
  match t.freeList with
  | [] => .error .tlb
  | i :: freeList => .ok (i, { t with
      tlb := t.tlb.set i ⟨entry.updateVaddr vpn, t.lruSeq + 1, true⟩
      freeList := freeList
      lruSeq := t.lruSeq + 1 })

/-- `insert`: the slot of the entry. -/
def insert (vpn : ℤ) (entry : PageEntry) : Except VmAbort (ℕ × TLB) :=
  match t.lookup vpn with
  | some i => if (t.slot i).entry.vaddr ≠ vpn then .error .tlb else .ok (i, t)
  | none => (if t.freeList.isEmpty then t.evictLRU else .ok t).bind fun t => t.fill vpn entry

end TLB

/-- A request: address, kind, address width, privileges, and if segment checks fail. -/
structure TlbRequest where
  vaddr : ℤ
  mode : AccessMode
  storeCheck : Bool
  addr32 : Bool
  inUser : Bool
  wp : Bool
  segmentFault : Bool

inductive TlbFault where
  | generalProtection
  | pageFault (vaddr : ℤ) (mode : AccessMode) (inUser : Bool)
  deriving DecidableEq, Repr

namespace TlbRequest

def address (req : TlbRequest) : ℤ := if req.addr32 then req.vaddr % 2 ^ 32 else req.vaddr

def check (req : TlbRequest) (e : PageEntry) : Except TlbFault ℕ :=
  match e.refuses req.mode req.storeCheck req.inUser req.wp with
  | some mode => .error (.pageFault req.address mode req.inUser)
  | none => .ok (finalizePhysical (e.paddr ||| (req.address % 2 ^ e.logBytes).toNat))

end TlbRequest

structure Mmu (ι : Type*) where
  tlb : ι → TLB
  proc : Process

namespace Mmu

variable {ι : Type*} [DecidableEq ι]

def handleMiss (p : Process) (mode : AccessMode) (vaddr : ℤ) :
    Except VmAbort (Option PageEntry × Process) :=
  let found := (p.pTable.lookup vaddr).1
  let p := p.touch vaddr
  if found.isNone ∧ mode ≠ .execute then
    (p.fixupStackFault vaddr).map fun (grown, p) =>
      if grown then ((p.pTable.lookup vaddr).1, p.touch vaddr) else (none, p)
  else .ok (found, p)

/-- `TLB::translate` with paging, in syscall emulation. -/
def translate (m : Mmu ι) (i : ι) (req : TlbRequest) : Except VmAbort (Except TlbFault ℕ × Mmu ι) :=
  if req.segmentFault then .ok (.error .generalProtection, m)
  else
    match (m.tlb i).lookup req.address with
    | some slot =>
      .ok (req.check ((m.tlb i).slot slot).entry,
        { m with tlb := Function.update m.tlb i ((m.tlb i).use slot) })
    | none =>
      (handleMiss m.proc req.mode req.address).bind fun (found, p) =>
        match found with
        | none => .ok (.error (.pageFault req.address req.mode true), { m with proc := p })
        | some e =>
          ((m.tlb i).insert (p.pTable.pageAlign req.address) e).map fun (slot, t) =>
            (req.check (t.slot slot).entry, ⟨Function.update m.tlb i t, p⟩)

/-- A translation by one of the TLBs, or a call. -/
inductive Step (ι : Type*) where
  | translate (i : ι) (req : TlbRequest)
  | sys (call : Process.Sys)

def perform (m : Mmu ι) : Step ι → Except VmAbort (Mmu ι)
  | .translate i req => (m.translate i req).map Prod.snd
  | .sys call => (m.proc.perform call).map fun p => { m with proc := p }

end Mmu

/-! ### Calls that only add pages -/

namespace Process

variable {p p₀ p' : Process} {v w size : ℤ} {clobber : Bool} {r : SyscallReturn} {t : FuncPageTable}
  {a : MremapArgs}

/-- The recent entries are in step; entries have a page's size. -/
structure Tidied (p : Process) : Prop where
  agrees : p.pTable.pTableCache.Agrees p.pTable.pTable
  sized : ∀ {v e}, p.pTable.pTable v = some e → e.logBytes = p.pTable.pageShift

lemma Tidied.allocateMem (h : p.Tidied) (hok : p.allocateMem v size clobber = .ok p') :
    p'.Tidied := by
  obtain ⟨base, ptr, t, -, -, -, hkeeps, rfl⟩ := allocateMem_ok hok
  refine ⟨hkeeps.agrees h.agrees, fun {u e} he => ?_⟩
  change t.pTable u = some e at he
  change e.logBytes = t.pageShift
  rw [hkeeps.pTable, PageMap.map] at he
  rw [hkeeps.pageShift]
  split_ifs at he
  · cases he
    rfl
  · exact h.sized he

lemma Tidied.touch (h : p.Tidied) (v : ℤ) : (p.touch v).Tidied := by
  have hkeeps := p.pTable.keeps_lookup v
  refine ⟨hkeeps.agrees h.agrees, fun {u e} he => ?_⟩
  change (p.pTable.lookup v).2.pTable u = some e at he
  rw [hkeeps.pTable] at he
  exact (h.sized he).trans hkeeps.pageShift.symm

lemma Tidied.remap (h : p.Tidied) (hmovable : p.pTable.Movable v (p.pTable.rounds size) w)
    (hok : p.pTable.remap v size w = .ok t) : Tidied { p with pTable := t } := by
  rw [FuncPageTable.remap] at hok
  split_ifs at hok
  obtain ⟨hshift, htable⟩ := FuncPageTable.moved_remapLoop hok hmovable.clash
  refine ⟨FuncPageTable.agrees_remapLoop hok h.agrees hmovable, fun {u e} he => ?_⟩
  change t.pTable u = some e at he
  change e.logBytes = t.pageShift
  rw [htable, PageMap.remap] at he
  rw [hshift]
  split_ifs at he
  · obtain ⟨e', he', rfl⟩ := map_eq_some_iff.mp he
    have hsize : e'.logBytes = _ := h.sized he'
    exact hsize
  · exact h.sized he

lemma Tidied.unmap (h : p.Tidied) (hok : p.pTable.unmap v size = .ok t) :
    Tidied { p with pTable := t } := by
  rw [FuncPageTable.unmap] at hok
  split_ifs at hok
  have hkeeps := FuncPageTable.keeps_unmapLoop hok
  refine ⟨hkeeps.agrees h.agrees, fun {u e} he => ?_⟩
  change t.pTable u = some e at he
  rw [hkeeps.pTable, PageMap.unmap] at he
  split_ifs at he
  exact (h.sized he).trans hkeeps.pageShift.symm

lemma Tidied.mremapFunc (h : p.Tidied)
    (hmovable : ∀ size newStart, p.remapOf a = some (size, newStart) →
      p.pTable.Movable a.start (p.pTable.rounds size) newStart)
    (hok : p.mremapFunc a = .ok (r, p')) : p'.Tidied := by
  rcases mremapFunc_ok hok with rfl | ⟨-, -, -, -, p₁, hp₁, rfl⟩ |
    ⟨newStart, t, p₁, -, -, hof, ht, hp₁, rfl⟩ | ⟨t, t', -, ht, ht', rfl⟩
  · exact h
  · have htidied := h.allocateMem hp₁
    exact { htidied with }
  · have htidied := (h.remap (hmovable _ _ hof) ht).allocateMem hp₁
    exact { htidied with }
  · rcases ht with rfl | ⟨newStart, -, hof, ht⟩
    · exact h.unmap ht'
    · exact (h.remap (hmovable _ _ hof) ht).unmap ht'

lemma pageShift_allocateMem (hok : p.allocateMem v size clobber = .ok p') :
    p'.pTable.pageShift = p.pTable.pageShift := by
  obtain ⟨_, _, _, -, -, -, hkeeps, rfl⟩ := allocateMem_ok hok
  exact hkeeps.pageShift

lemma pageShift_mremapFunc
    (hok : p.mremapFunc a = .ok (r, p')) : p'.pTable.pageShift = p.pTable.pageShift := by
  rcases mremapFunc_ok hok with rfl | ⟨-, -, -, -, p₁, hp₁, rfl⟩ |
    ⟨newStart, t, p₁, -, -, -, ht, hp₁, rfl⟩ | ⟨t, t', -, ht, ht', rfl⟩
  · rfl
  · have halloc := pageShift_allocateMem hp₁
    exact halloc
  · have halloc := pageShift_allocateMem hp₁
    exact halloc.trans (FuncPageTable.pageShift_remap ht)
  · have hunmap := FuncPageTable.pageShift_unmap ht'
    rcases ht with rfl | ⟨newStart, -, -, ht⟩
    · exact hunmap
    · exact hunmap.trans (FuncPageTable.pageShift_remap ht)

structure Extends (p p' : Process) : Prop where
  pageShift : p'.pTable.pageShift = p.pTable.pageShift
  mapped : ∀ {v e}, p.pTable.pTable v = some e → p'.pTable.pTable v = some e
  tidied : p.Tidied → p'.Tidied

lemma Extends.refl (p : Process) : p.Extends p := ⟨rfl, id, id⟩

lemma Extends.touch (h : p₀.Extends p) (v : ℤ) : p₀.Extends (p.touch v) := by
  have hkeeps := p.pTable.keeps_lookup v
  refine ⟨hkeeps.pageShift.trans h.pageShift, fun {u e} he => ?_, fun ht => (h.tidied ht).touch v⟩
  change (p.pTable.lookup v).2.pTable u = some e
  rw [hkeeps.pTable]
  exact h.mapped he

lemma Extends.allocateMem (h : p₀.Extends p) (hok : p.allocateMem v size false = .ok p') :
    p₀.Extends p' := by
  have htidied : p₀.Tidied → p'.Tidied := fun ht => (h.tidied ht).allocateMem hok
  obtain ⟨base, ptr, t, -, -, hfree, hkeeps, rfl⟩ := allocateMem_ok hok
  refine ⟨hkeeps.pageShift.trans h.pageShift, fun {u e} he => ?_, htidied⟩
  have hu := h.mapped he
  change t.pTable u = some e
  rw [hkeeps.pTable, PageMap.map, if_neg, hu]
  rintro ⟨i, hi, rfl⟩
  have hnone : p.pTable.pTable (v + i * 2 ^ p.pTable.pageShift) = none := hfree rfl i hi
  rw [hnone] at hu
  cases hu

lemma stable_extends (p₀ : Process) : Stable (fun _ => True) p₀.Extends :=
  ⟨fun h _ hok => h.allocateMem hok, fun v h => h.touch v,
    fun _ h => ⟨h.pageShift, h.mapped, fun ht => ⟨(h.tidied ht).agrees, (h.tidied ht).sized⟩⟩,
    fun _ h => ⟨h.pageShift, h.mapped, fun ht => ⟨(h.tidied ht).agrees, (h.tidied ht).sized⟩⟩⟩

lemma extends_mmapFunc {a : MmapArgs} (hok : p.mmapFunc a = .ok (r, p')) :
    p.Extends p' := by
  rcases mmapFunc_ok hok with rfl | hok
  · exact .refl _
  · refine Extends.allocateMem ?_ hok
    exact ⟨rfl, id, fun ht => { ht with }⟩

/-- The pages whose entries an `mremap` takes away or replaces: moved, at their target, added behind
a fixed target, dropped. -/
def mremapPages (p : Process) (a : MremapArgs) (v : ℤ) : Prop :=
  (∃ size newStart, p.remapOf a = some (size, newStart) ∧ (a.fixed = true ∨ a.mayMove = true) ∧
    p.pageBytes ∣ newStart ∧ (InPages p.pageBytes a.start (p.pTable.rounds size) v ∨
      InPages p.pageBytes newStart (p.pTable.rounds size) v ∨
      a.fixed = true ∧ InPages p.pageBytes (newStart + a.oldLength)
        (p.pTable.rounds (p.roundUp a.newLength - a.oldLength)) v)) ∨
  (a.fixed = true → p.pageBytes ∣ a.newAddress) ∧
    InPages p.pageBytes (a.start + p.roundUp a.newLength)
      (p.pTable.rounds (a.oldLength - p.roundUp a.newLength)) v

lemma remap_of_not_pages (hok : p.pTable.remap a.start size w = .ok t)
    (hof : p.remapOf a = some (size, w)) (hacts : a.fixed = true ∨ a.mayMove = true)
    (hv : ¬ p.mremapPages a v) : t.pTable v = p.pTable.pTable v := by
  have hdvd : p.pageBytes ∣ w := FuncPageTable.dvd_of_remap hok
  rw [FuncPageTable.remap_of_not_inPages hok fun hin =>
    hv (Or.inl ⟨size, w, hof, hacts, hdvd, Or.inr (Or.inl hin)⟩)]
  exact if_neg fun hin => hv (Or.inl ⟨size, w, hof, hacts, hdvd, Or.inl hin⟩)

/-- **`mremap` leaves the other pages alone.** -/
lemma mremapFunc_of_not_pages (hok : p.mremapFunc a = .ok (r, p')) (hv : ¬ p.mremapPages a v)
    (hmapped : p.pTable.pTable v ≠ none) : p'.pTable.pTable v = p.pTable.pTable v := by
  have hadded : ∀ {q q' : Process} {start size : ℤ}, q.allocateMem start size false = .ok q' →
      q.pTable.pTable v ≠ none → q'.pTable.pTable v = q.pTable.pTable v := by
    intro q q' start size hok hne
    obtain ⟨e, he⟩ := ne_none_iff_exists'.mp hne
    rw [he]
    exact ((Extends.refl q).allocateMem hok).mapped he
  rcases mremapFunc_ok hok with rfl | ⟨-, -, -, -, p₁, hp₁, rfl⟩ |
    ⟨newStart, t, p₁, -, hacts, hof, ht, hp₁, rfl⟩ | ⟨t, t', haligned, ht, ht', rfl⟩
  · rfl
  · have hkept := hadded hp₁ hmapped
    exact hkept
  · have hmoved := remap_of_not_pages ht hof hacts hv
    refine Eq.trans ?_ hmoved
    cases hfixed : a.fixed with
    | false =>
      rw [hfixed] at hp₁
      have hkept := hadded hp₁ (by rwa [← hmoved] at hmapped)
      exact hkept
    | true =>
      have hkept := allocateMem_of_not_inPages (u := v) hp₁ (by
        change ¬ InPages t.pageSize _ (t.rounds _) v
        rw [FuncPageTable.pageSize_remap ht, FuncPageTable.rounds_remap ht]
        exact fun hin => hv (Or.inl ⟨_, _, hof, hacts, FuncPageTable.dvd_of_remap ht,
          Or.inr (Or.inr ⟨hfixed, hin⟩)⟩))
      exact hkept
  · have hmoved : t.pTable v = p.pTable.pTable v := by
      rcases ht with rfl | ⟨newStart, hfixed, hof, ht⟩
      · rfl
      · exact remap_of_not_pages ht hof (Or.inl hfixed) hv
    have hsize : t.pageSize = p.pageBytes ∧ t.rounds = p.pTable.rounds := by
      rcases ht with rfl | ⟨newStart, -, -, ht⟩
      · exact ⟨rfl, rfl⟩
      · exact ⟨FuncPageTable.pageSize_remap ht, FuncPageTable.rounds_remap ht⟩
    rw [FuncPageTable.unmap] at ht'
    split_ifs at ht'
    change t'.pTable v = _
    rw [(FuncPageTable.keeps_unmapLoop ht').pTable, PageMap.unmap, if_neg, hmoved]
    rw [hsize.1, hsize.2]
    exact fun hin => hv (Or.inr ⟨haligned, hin⟩)

end Process

/-! ### What the slots hold -/

namespace TLB

variable {t t' : TLB} {vpn : ℤ} {e : PageEntry} {i : ℕ}

def Has (t : TLB) (e : PageEntry) : Prop := ∃ slot ∈ t.tlb, slot.inTrie = true ∧ slot.entry = e

def FreeInRange (t : TLB) : Prop := ∀ i ∈ t.freeList, i < t.tlb.length

lemma not_has_init (size : ℕ) (e : PageEntry) : ¬ (init size).Has e := by
  rintro ⟨slot, hmem, hin, -⟩
  rw [(mem_replicate.mp hmem).2] at hin
  cases hin

lemma freeInRange_init (size : ℕ) : (init size).FreeInRange := by
  intro i hi
  simpa [init] using hi

lemma mem_of_inTrie (h : (t.slot i).inTrie = true) : t.slot i ∈ t.tlb ∧ i < t.tlb.length := by
  rw [slot, getD_eq_getElem?_getD] at h ⊢
  by_cases hi : i < t.tlb.length
  · rw [getElem?_eq_getElem hi]
    exact ⟨getElem_mem hi, hi⟩
  · rw [getElem?_eq_none (Nat.le_of_not_lt hi)] at h
    cases h

lemma lookup_eq_some {va : ℤ} (h : t.lookup va = some i) : t.Has (t.slot i).entry ∧
    va / 2 ^ (t.slot i).entry.logBytes =
      (t.slot i).entry.vaddr / 2 ^ (t.slot i).entry.logBytes := by
  obtain ⟨hi, hcovers, -⟩ := findIdx?_eq_some_iff_getElem.mp h
  have hslot : t.slot i = t.tlb[i] := by
    rw [slot, getD_eq_getElem?_getD, getElem?_eq_getElem hi, getD_some]
  rw [← hslot, covers, Bool.and_eq_true, decide_eq_true_iff] at hcovers
  exact ⟨⟨t.slot i, (mem_of_inTrie hcovers.1).1, hcovers.1, rfl⟩, hcovers.2⟩

lemma Has.of_set {slot : TlbSlot} {free : List ℕ} {seq : ℕ}
    (h : Has ⟨t.tlb.set i slot, free, seq⟩ e) : t.Has e ∨
      (slot.inTrie = true ∧ slot.entry = e) := by
  obtain ⟨s, hmem, hin, rfl⟩ := h
  rcases mem_or_eq_of_mem_set hmem with hmem | rfl
  · exact .inl ⟨s, hmem, hin, rfl⟩
  · exact .inr ⟨hin, rfl⟩

lemma Has.of_use (h : (t.use i).Has e) : t.Has e := by
  rcases h.of_set with h | ⟨hin, rfl⟩
  · exact h
  · exact ⟨t.slot i, (mem_of_inTrie hin).1, hin, rfl⟩

lemma FreeInRange.use (h : t.FreeInRange) (i : ℕ) : (t.use i).FreeInRange := by
  intro j hj
  rw [TLB.use, length_set]
  exact h j hj

lemma evictLRU_ok (h : t.FreeInRange) (hok : t.evictLRU = .ok t') :
    t'.FreeInRange ∧ ∀ e, t'.Has e → t.Has e := by
  rw [evictLRU] at hok
  split_ifs at hok with hin
  cases hok
  rw [Bool.not_eq_true', Bool.not_eq_false] at hin
  refine ⟨fun j hj => ?_, fun e he => ?_⟩
  · rw [length_set]
    rcases mem_snoc.mp hj with hj | rfl
    · exact h j hj
    · exact (mem_of_inTrie hin).2
  · rcases he.of_set with he | ⟨hfalse, -⟩
    · exact he
    · cases hfalse

lemma fill_ok (h : t.FreeInRange) (hok : t.fill vpn e = .ok (i, t')) :
    t'.FreeInRange ∧ (t'.slot i).entry = e.updateVaddr vpn ∧
      ∀ e', t'.Has e' → t.Has e' ∨ e' = e.updateVaddr vpn := by
  rw [fill] at hok
  split at hok
  · cases hok
  · next j free hfree =>
    cases hok
    have hrange : ∀ k ∈ i :: free, k < t.tlb.length := hfree ▸ h
    refine ⟨fun k hk => ?_, ?_, fun e' he => ?_⟩
    · rw [length_set]
      exact hrange k (mem_cons_of_mem _ hk)
    · have hi : i < t.tlb.length := hrange i mem_cons_self
      rw [slot, getD_eq_getElem?_getD, getElem?_set_self hi, getD_some]
    · rcases he.of_set with he | ⟨-, rfl⟩
      · exact .inl he
      · exact .inr rfl

lemma insert_ok (h : t.FreeInRange) (hok : t.insert vpn e = .ok (i, t')) :
    t'.FreeInRange ∧ (∀ e', t'.Has e' → t.Has e' ∨ e' = e.updateVaddr vpn) ∧
      ((t'.slot i).entry = e.updateVaddr vpn ∨
        (t.Has (t'.slot i).entry ∧ (t'.slot i).entry.vaddr = vpn)) := by
  rw [insert] at hok
  split at hok
  · next j hj =>
    split_ifs at hok with hne
    cases hok
    exact ⟨h, fun e' he => .inl he, .inr ⟨(lookup_eq_some hj).1, not_not.mp hne⟩⟩
  · obtain ⟨t₁, ht₁, hfill⟩ := bind_ok hok
    have hevict : t₁.FreeInRange ∧ ∀ e', t₁.Has e' → t.Has e' := by
      split_ifs at ht₁ with hempty
      · exact evictLRU_ok h ht₁
      · cases ht₁
        exact ⟨h, fun _ he => he⟩
    obtain ⟨hrange, hslot, hhas⟩ := fill_ok hevict.1 hfill
    exact ⟨hrange, fun e' he => (hhas e' he).imp_left (hevict.2 e'), .inl hslot⟩

end TLB

/-! ### Coherence -/

namespace Process

variable {p p' : Process} {v : ℤ} {e : PageEntry}

/-- The TLB's entry is the page table's. -/
structure Backs (p : Process) (e : PageEntry) : Prop where
  aligned : p.pageBytes ∣ e.vaddr
  entry : (p.pTable.pTable e.vaddr).map (·.updateVaddr e.vaddr) = some e

lemma Backs.of_eq (h : p.Backs e) (hshift : p'.pTable.pageShift = p.pTable.pageShift)
    (htable : p'.pTable.pTable e.vaddr = p.pTable.pTable e.vaddr) : p'.Backs e := by
  refine ⟨?_, ?_⟩
  · rw [pageBytes, FuncPageTable.pageSize, hshift]
    exact h.aligned
  · rw [htable]
    exact h.entry

lemma Backs.of_extends (h : p.Backs e) (hext : p.Extends p') : p'.Backs e := by
  obtain ⟨e', he', -⟩ := map_eq_some_iff.mp h.entry
  exact h.of_eq hext.pageShift ((hext.mapped he').trans he'.symm)

lemma pageBytes_dvd_pageAlign (p : Process) (v : ℤ) : p.pageBytes ∣ p.pTable.pageAlign v := by
  exact Dvd.intro_left _ rfl

lemma Backs.logBytes_eq (h : p.Backs e) (htidied : p.Tidied) : e.logBytes = p.pTable.pageShift := by
  obtain ⟨e', he', heq⟩ := map_eq_some_iff.mp h.entry
  have hlog : e'.logBytes = p.pTable.pageShift := htidied.sized he'
  rw [← heq]
  exact hlog

lemma Backs.pageAlign_eq (h : p.Backs e) (htidied : p.Tidied)
    (hcovers : v / 2 ^ e.logBytes = e.vaddr / 2 ^ e.logBytes) : p.pTable.pageAlign v = e.vaddr := by
  rw [h.logBytes_eq htidied] at hcovers
  calc p.pTable.pageAlign v = e.vaddr / p.pageBytes * p.pageBytes :=
        congrArg (· * p.pageBytes) hcovers
    _ = e.vaddr := Int.ediv_mul_cancel h.aligned

lemma or_pageOffset (p : Process) {frame : ℕ} (h : p.frameBytes ∣ frame) :
    frame ||| (p.pTable.pageOffset v).toNat = frame + (p.pTable.pageOffset v).toNat := by
  obtain ⟨k, rfl⟩ := h
  have hpos := p.pTable.pageSize_pos
  have hlt : (p.pTable.pageOffset v).toNat < 2 ^ p.pTable.pageShift := by
    have hmod : v % p.pTable.pageSize < p.pTable.pageSize := Int.emod_lt_of_pos _ hpos
    have hcast : p.pTable.pageSize = ((2 ^ p.pTable.pageShift : ℕ) : ℤ) := by
      norm_cast
    rw [FuncPageTable.pageOffset]
    omega
  exact (Nat.two_pow_add_eq_or_of_lt hlt k).symm

lemma eq_of_fixupStackFault_false (h : p.fixupStackFault v = .ok (false, p')) : p' = p := by
  rw [fixupStackFault] at h
  split_ifs at h
  · obtain ⟨p₁, -, heq⟩ := map_ok h
    cases heq
  · obtain ⟨p₁, -, heq⟩ := map_ok h
    cases heq
  · cases h
    rfl

end Process

namespace Mmu

variable {ι : Type*} [DecidableEq ι] {m m' : Mmu ι} {p p' : Process} {i : ι} {v : ℤ}
  {req : TlbRequest}

/-- **A miss answers what the page table then holds**, with stack pages added. -/
lemma handleMiss_ok {mode : AccessMode} {found : Option PageEntry} (h : p.Tidied)
    (hok : handleMiss p mode v = .ok (found, p')) :
    p.Extends p' ∧ p'.pTable.pTable (p'.pTable.pageAlign v) = found ∧
      (p.pTable.pTable (p.pTable.pageAlign v) = none → found ≠ none →
        ∃ p₁, (p.touch v).fixupStackFault v = .ok (true, p₁)) := by
  have hfound := FuncPageTable.lookup_fst h.agrees v
  have htouch := (Process.Extends.refl p).touch v
  have hkeeps : ∀ q : Process, (q.touch v).pTable.pTable ((q.touch v).pTable.pageAlign v) =
      q.pTable.pTable (q.pTable.pageAlign v) := by
    intro q
    have hkeeps := q.pTable.keeps_lookup v
    change (q.pTable.lookup v).2.pTable
      (v / (q.pTable.lookup v).2.pageSize * (q.pTable.lookup v).2.pageSize) = _
    rw [hkeeps.pTable, hkeeps.pageSize]
    rfl
  rw [handleMiss] at hok
  by_cases hmiss : (p.pTable.lookup v).1.isNone ∧ mode ≠ .execute
  · rw [if_pos hmiss] at hok
    obtain ⟨⟨grown, p₁⟩, hgrow, heq⟩ := map_ok hok
    have hext := (Process.stable_extends p).fixupStackFault (fun _ _ => trivial)
      (fun _ _ => trivial) htouch hgrow
    cases grown with
    | true =>
      cases heq
      refine ⟨hext.touch v, ?_, fun _ _ => ⟨p₁, hgrow⟩⟩
      rw [hkeeps, FuncPageTable.lookup_fst (hext.tidied h).agrees]
    | false =>
      cases heq
      have heq := Process.eq_of_fixupStackFault_false hgrow
      refine ⟨hext, ?_, fun _ hne => (hne rfl).elim⟩
      rw [heq, hkeeps, ← hfound]
      exact isNone_iff_eq_none.mp hmiss.1
  · rw [if_neg hmiss] at hok
    cases hok
    refine ⟨htouch, ?_, fun hnone hne => ?_⟩
    · rw [hkeeps, hfound]
    · rw [hfound] at hne
      exact (hne hnone).elim

/-- TLBs and recent entries hold what the page table holds. -/
structure Coherent (m : Mmu ι) : Prop where
  tidied : m.proc.Tidied
  free : ∀ i, (m.tlb i).FreeInRange
  held : ∀ i e, (m.tlb i).Has e → m.proc.Backs e

lemma coherent_update {t : TLB} (hp : p.Tidied) (hfree : t.FreeInRange)
    (hheld : ∀ e, t.Has e → p.Backs e)
    (hothers : ∀ k, (m.tlb k).FreeInRange ∧ ∀ e, (m.tlb k).Has e → p.Backs e) :
    Coherent ⟨Function.update m.tlb i t, p⟩ := by
  have hall : ∀ k, (update m.tlb i t k).FreeInRange ∧ ∀ e, (update m.tlb i t k).Has e → p.Backs e :=
    (forall_update_iff m.tlb fun _ t => t.FreeInRange ∧ ∀ e, t.Has e → p.Backs e).mpr
      ⟨⟨hfree, hheld⟩, fun k _ => hothers k⟩
  exact ⟨hp, fun k => (hall k).1, fun k => (hall k).2⟩

/-- A fault-free answer from the page's entry. -/
def Answers (p : Process) (req : TlbRequest) (paddr : ℕ) : Prop :=
  ∃ e, p.pTable.pTable (p.pTable.pageAlign req.address) = some e ∧
    paddr = finalizePhysical (e.paddr ||| (p.pTable.pageOffset req.address).toNat)

lemma answers_of_check {e : PageEntry} {paddr : ℕ} (h : p.Backs e) (htidied : p.Tidied)
    (hpage : p.pTable.pageAlign req.address = e.vaddr) (hok : req.check e = .ok paddr) :
    Answers p req paddr := by
  obtain ⟨e', he', heq⟩ := map_eq_some_iff.mp h.entry
  have hpaddr : e.paddr = e'.paddr := by rw [← heq, PageEntry.updateVaddr]
  refine ⟨e', hpage ▸ he', ?_⟩
  rw [TlbRequest.check] at hok
  split at hok
  · cases hok
  cases hok
  rw [h.logBytes_eq htidied, hpaddr]
  rfl

/-- **One translation** keeps coherence and answers from the page table. -/
lemma Coherent.translate {result : Except TlbFault ℕ} (h : m.Coherent)
    (hok : m.translate i req = .ok (result, m')) :
    m'.Coherent ∧ ∀ paddr, result = .ok paddr → Answers m'.proc req paddr ∧
      (m.proc.pTable.pTable (m.proc.pTable.pageAlign req.address) = none →
        ∃ p₁, (m.proc.touch req.address).fixupStackFault req.address = .ok (true, p₁)) := by
  rw [Mmu.translate] at hok
  split_ifs at hok with hseg
  · cases hok
    exact ⟨h, fun paddr heq => by cases heq⟩
  split at hok
  · next j hj =>
    cases hok
    obtain ⟨hhas, hcovers⟩ := TLB.lookup_eq_some hj
    have hbacks := h.held i _ hhas
    have hpage := hbacks.pageAlign_eq h.tidied hcovers
    refine ⟨coherent_update h.tidied ((h.free i).use j) (fun e he => h.held i e he.of_use)
      fun k => ⟨h.free k, h.held k⟩, fun paddr hcheck =>
      ⟨answers_of_check hbacks h.tidied hpage hcheck, fun hnone => ?_⟩⟩
    obtain ⟨e', he', -⟩ := map_eq_some_iff.mp hbacks.entry
    rw [hpage, he'] at hnone
    cases hnone
  · obtain ⟨⟨found, p⟩, hmiss, hok⟩ := bind_ok hok
    obtain ⟨hext, hfound, hgrown⟩ := handleMiss_ok h.tidied hmiss
    have htidied := hext.tidied h.tidied
    cases found with
    | none =>
      cases hok
      exact ⟨⟨htidied, h.free, fun k e he => (h.held k e he).of_extends hext⟩,
        fun paddr heq => by cases heq⟩
    | some e =>
      obtain ⟨⟨j, t⟩, hinsert, heq⟩ := map_ok hok
      cases heq
      obtain ⟨hfree, hhas, hslot⟩ := TLB.insert_ok (h.free i) hinsert
      have hheld := fun k e he => (h.held k e he).of_extends hext
      have hnew : p.Backs (e.updateVaddr (p.pTable.pageAlign req.address)) :=
        ⟨p.pageBytes_dvd_pageAlign _, congrArg (Option.map _) hfound⟩
      have hbacks : p.Backs (t.slot j).entry ∧
          p.pTable.pageAlign req.address = (t.slot j).entry.vaddr := by
        rcases hslot with hslot | ⟨hold, hvaddr⟩
        · rw [hslot]
          exact ⟨hnew, rfl⟩
        · exact ⟨hheld i _ hold, hvaddr.symm⟩
      refine ⟨coherent_update htidied hfree (fun e' he => ?_) fun k => ⟨h.free k, hheld k⟩,
        fun paddr hcheck => ⟨answers_of_check hbacks.1 htidied hbacks.2 hcheck,
          fun hnone => hgrown hnone (some_ne_none _)⟩⟩
      rcases hhas e' he with hold | rfl
      · exact hheld i e' hold
      · exact hnew

/-! ### Runs -/

/-- `mremap` finds its pages movable, and no TLB holds a page it moves, replaces or drops. -/
def Quiet (m : Mmu ι) : Step ι → Prop
  | .sys (.mremap a) =>
    (∀ size newStart, m.proc.remapOf a = some (size, newStart) →
      m.proc.pTable.Movable a.start (m.proc.pTable.rounds size) newStart) ∧
    ∀ i e, (m.tlb i).Has e → ¬ m.proc.mremapPages a e.vaddr
  | _ => True

/-- The process and its TLBs, empty at first, after steps that meet a condition. -/
inductive Run (condition : Mmu ι → Step ι → Prop) : Mmu ι → Prop
  | init {p : Process} (size : ι → ℕ) (h : p.Tidied) :
      Run condition ⟨fun i => TLB.init (size i), p⟩
  | step {m m' : Mmu ι} {s : Step ι} (h : Run condition m) (hs : condition m s)
      (hok : m.perform s = .ok m') : Run condition m'

omit [DecidableEq ι] in
lemma Coherent.of_extends (h : m.Coherent) (hext : m.proc.Extends p) :
    Coherent { m with proc := p } :=
  ⟨hext.tidied h.tidied, h.free, fun k e he => (h.held k e he).of_extends hext⟩

/-- **One step** that meets the condition keeps coherence. -/
lemma Coherent.perform {s : Step ι} (h : m.Coherent) (hs : m.Quiet s)
    (hok : m.perform s = .ok m') : m'.Coherent := by
  cases s with
  | translate i req =>
    obtain ⟨⟨result, m₁⟩, htranslate, rfl⟩ := map_ok hok
    exact (h.translate htranslate).1
  | sys call =>
    obtain ⟨p, hp, rfl⟩ := map_ok hok
    cases call with
    | mmap a =>
      obtain ⟨⟨r, p₁⟩, hmmap, rfl⟩ := map_ok hp
      exact h.of_extends (Process.extends_mmapFunc hmmap)
    | mremap a =>
      obtain ⟨hmovable, hheld⟩ := hs
      obtain ⟨⟨r, p₁⟩, hmremap, rfl⟩ := map_ok hp
      refine ⟨h.tidied.mremapFunc hmovable hmremap, h.free, fun k e he => ?_⟩
      have hbacks := h.held k e he
      refine hbacks.of_eq (Process.pageShift_mremapFunc hmremap)
        (Process.mremapFunc_of_not_pages hmremap (hheld k e he) fun hnone => ?_)
      have hentry := hbacks.entry
      rw [hnone] at hentry
      cases hentry
    | brk newBrk =>
      exact h.of_extends ((Process.stable_extends _).brkFunc (fun _ _ _ _ => trivial) (.refl _) hp)
    | growStack vaddr =>
      obtain ⟨⟨grown, p₁⟩, hgrow, rfl⟩ := map_ok hp
      exact h.of_extends ((Process.stable_extends _).fixupStackFault (fun _ _ => trivial)
        (fun _ _ => trivial) (.refl _) hgrow)
    | lookup vaddr =>
      cases hp
      exact h.of_extends ((Process.Extends.refl _).touch vaddr)

lemma Run.coherent (h : Run Quiet m) : m.Coherent := by
  induction h with
  | init size h =>
    exact ⟨h, fun _ => TLB.freeInRange_init _, fun i e he => (TLB.not_has_init _ e he).elim⟩
  | step _ hs hok ih => exact ih.perform hs hok

/-- **A translation without a fault is that of the page table.** After steps that meet the
condition, the page table holds an entry for the page, and if that is a frame outside the m5 window,
the answer is the byte of that frame. A page that was not there before is the stack's. -/
theorem translate_noFault {paddr : ℕ} (h : Run Quiet m)
    (hok : m.translate i req = .ok (.ok paddr, m')) :
    (∃ e, m'.proc.pTable.pTable (m'.proc.pTable.pageAlign req.address) = some e ∧
      (m'.proc.frameBytes ∣ e.paddr →
        ¬ m5opWindow (e.paddr + (m'.proc.pTable.pageOffset req.address).toNat) →
        paddr = e.paddr + (m'.proc.pTable.pageOffset req.address).toNat)) ∧
      (m.proc.pTable.pTable (m.proc.pTable.pageAlign req.address) = none →
        ∃ p, (m.proc.touch req.address).fixupStackFault req.address = .ok (true, p)) := by
  obtain ⟨-, hanswers⟩ := h.coherent.translate hok
  obtain ⟨⟨e, he, rfl⟩, hgrown⟩ := hanswers paddr rfl
  refine ⟨⟨e, he, fun hframe hwindow => ?_⟩, hgrown⟩
  rw [m'.proc.or_pageOffset hframe, finalizePhysical, if_neg hwindow]

/-- A TLB of 64 entries, and a process without pages. -/
def boot : Mmu Unit := ⟨fun _ => TLB.init 64, .bare⟩

def load (vaddr : ℤ) : TlbRequest := ⟨vaddr, .read, false, false, true, true, false⟩

lemma tidied_bare : Process.bare.Tidied := ⟨Recent.agrees_replicate 3 _, fun h => by cases h⟩

lemma run_boot (condition : Mmu Unit → Step Unit → Prop) : Run condition boot :=
  .init (fun _ => 64) tidied_bare

lemma run_after {steps : List (Step Unit)} {m : Mmu Unit}
    (h : steps.foldlM perform boot = .ok m) : Run (fun _ _ => True) m :=
  foldlM_ok (fun _ _ _ _ hrun hok => hrun.step trivial hok) (run_boot _) h

/-- A page that the TLB holds, and two others. -/
def held : Mmu Unit :=
  ([.sys (.mmap (Process.anonymous 0x40000 4096)), .translate () (load 0x40000),
    .sys (.mmap (Process.anonymous 0x10000 8192))].foldlM perform boot).toOption.getD boot

lemma run_held : Run Quiet held := by
  have h₁ := (run_boot Quiet).step (s := .sys (.mmap (Process.anonymous 0x40000 4096))) trivial rfl
  have h₂ := h₁.step (s := .translate () (load 0x40000)) trivial rfl
  exact h₂.step (s := .sys (.mmap (Process.anonymous 0x10000 8192))) trivial rfl

def moveTwo : MremapArgs := ⟨0x10000, 8192, 12000, true, false, 0⟩

lemma quiet_held : held.Quiet (.sys (.mremap moveTwo)) := by
  have hremap : held.proc.remapOf moveTwo = some (8192, 0x2aaaaaaab000) := by decide +kernel
  have hheld : ∀ slot ∈ (held.tlb ()).tlb, slot.inTrie = true → slot.entry.vaddr = 0x40000 := by
    decide +kernel
  refine ⟨fun size newStart hof => ?_, ?_⟩
  · obtain ⟨rfl, rfl⟩ := Prod.mk.inj (some.inj (hremap.symm.trans hof))
    refine ⟨fun i hi j hj => ?_, fun i hi => ?_⟩
    · change (0x2aaaaaaab000 : ℤ) + j * 4096 ≠ 0x10000 + i * 4096
      have hi : i < 2 := hi
      omega
    · have hi : i < 2 := hi
      interval_cases i <;> decide +kernel
  · rintro i e ⟨slot, hmem, htrie, rfl⟩
    rw [hheld slot hmem htrie]
    rintro (⟨size, newStart, hof, -, -, hin⟩ | ⟨-, hin⟩)
    · obtain ⟨rfl, rfl⟩ := Prod.mk.inj (some.inj (hremap.symm.trans hof))
      revert hin
      decide +kernel
    · revert hin
      decide +kernel

/-- Two pages are moved to the mmap pointer; the second is read there. -/
theorem translate_noFault_mapped :
    ∃ m m' : Mmu Unit, held.perform (.sys (.mremap moveTwo)) = .ok m ∧
      m.translate () (load 0x2aaaaaaac008) = .ok (.ok 0x2008, m') ∧
      ∃ e, m'.proc.pTable.pTable (m'.proc.pTable.pageAlign 0x2aaaaaaac008) = some e ∧
        (m'.proc.frameBytes ∣ e.paddr →
          ¬ m5opWindow (e.paddr + (m'.proc.pTable.pageOffset 0x2aaaaaaac008).toNat) →
          0x2008 = e.paddr + (m'.proc.pTable.pageOffset 0x2aaaaaaac008).toNat) := by
  obtain ⟨m, hm, m', hok⟩ : ∃ m : Mmu Unit, held.perform (.sys (.mremap moveTwo)) = .ok m ∧
      ∃ m', m.translate () (load 0x2aaaaaaac008) = .ok (.ok 0x2008, m') := ⟨_, rfl, _, rfl⟩
  have hrun : Run Quiet m := run_held.step quiet_held hm
  exact ⟨m, m', hm, hok, (translate_noFault hrun hok).1⟩

/-- The TLB still has the entry of a page that was moved away. -/
theorem translate_moved : ∃ m m' : Mmu Unit, Run (fun _ _ => True) m ∧
      m.translate () (load 0x10000) = .ok (.ok 0, m') ∧
      m.proc.pTable.pTable 0x10000 = none ∧ m'.proc.pTable.pTable 0x10000 = none ∧
      (m.proc.touch 0x10000).fixupStackFault 0x10000 = .ok (false, m.proc.touch 0x10000) := by
  obtain ⟨m, hm, m', hok⟩ : ∃ m : Mmu Unit,
      [.sys (.mmap (Process.anonymous 0x10000 8192)), .translate () (load 0x10000),
        .sys (.mremap ⟨0x10000, 8192, 12288, true, false, 0⟩)].foldlM perform boot = .ok m ∧
      ∃ m', m.translate () (load 0x10000) = .ok (.ok 0, m') ∧
        m.proc.pTable.pTable 0x10000 = none ∧ m'.proc.pTable.pTable 0x10000 = none ∧
        (m.proc.touch 0x10000).fixupStackFault 0x10000 = .ok (false, m.proc.touch 0x10000) :=
    ⟨_, rfl, _, rfl, rfl, rfl, rfl⟩
  exact ⟨m, m', run_after hm, hok⟩

end Mmu

end ShifDram
