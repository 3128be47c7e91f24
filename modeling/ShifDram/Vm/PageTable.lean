import ShifDram.Cpu.Translation

/-!
Page tables and the TLB's answers (`arch/x86/tlb.cc`, `arch/x86/pagetable.hh`).

A page table is a partial map from virtual addresses to entries that is constant on each page;
pages have at least `2^12` bytes and frames are aligned. A failed lookup is a page fault, and so
is an access that the protection bits refuse. Physical addresses in a window below 4 GiB name
pseudo instructions.
-/

namespace ShifDram

open Option

/-- `BaseTLB::Mode`. -/
inductive AccessMode where
  | read
  | write
  | execute
  deriving DecidableEq, Repr

def m5opWindow (paddr : ℕ) : Prop := 0xffff0000 ≤ paddr ∧ paddr ≤ 0xffffffff

instance (paddr : ℕ) : Decidable (m5opWindow paddr) := inferInstanceAs (Decidable (_ ∧ _))

/-- `finalizePhysical`: an address in the window names a pseudo instruction. -/
def finalizePhysical (paddr : ℕ) : ℕ := if m5opWindow paddr then paddr % 2 ^ 16 else paddr

/-- Inside a 64 KiB block, as the window is, `finalizePhysical` is a shift. -/
lemma finalizePhysical_add {a i : ℕ} (h : (a + i) / 2 ^ 16 = a / 2 ^ 16) :
    finalizePhysical (a + i) = finalizePhysical a + i := by
  have hwindow : m5opWindow (a + i) ↔ m5opWindow a := by
    simp only [m5opWindow]
    omega
  rw [finalizePhysical, finalizePhysical, if_congr hwindow rfl rfl]
  split_ifs <;> omega

lemma finalizePhysical_mod (a : ℕ) : finalizePhysical a % 4096 = a % 4096 := by
  rw [finalizePhysical]
  split_ifs <;> omega

/-- `TlbEntry`, the fields an address translation reads. -/
structure TlbEntry where
  paddr : ℕ
  logBytes : ℕ
  uncacheable : Bool
  writable : Bool
  user : Bool
  deriving DecidableEq, Repr

namespace TlbEntry

variable (e : TlbEntry)

/-- The check of `TLB::translate`: the mode that the fault names. -/
def refuses (mode : AccessMode) (storeCheck inUser wp : Bool) : Option AccessMode :=
  let badWrite := !e.writable && (inUser || wp)
  if (inUser && !e.user) || (mode == .write && badWrite) then some mode
  else if storeCheck && badWrite then some .write
  else none

/-- `entry->paddr | (vaddr & mask(entry->logBytes))`. -/
def address (v : ℕ) : ℕ := e.paddr ||| v % 2 ^ e.logBytes

/-- The flags that a translation to `paddr` adds. -/
def flags (paddr : ℕ) : BitVec 32 :=
  (if e.uncacheable then Request.uncacheable ||| Request.strictOrder else 0#32) |||
    if m5opWindow paddr then Request.mmappedIpr ||| Request.genericIpr else 0#32

end TlbEntry

/-! ### Page tables -/

structure PageTable where
  lookup : ℕ → Option TlbEntry
  le_logBytes : ∀ {v e}, lookup v = some e → 12 ≤ e.logBytes
  dvd_paddr : ∀ {v e}, lookup v = some e → 2 ^ e.logBytes ∣ e.paddr
  lookup_eq : ∀ {v v' e}, lookup v = some e → v' / 2 ^ e.logBytes = v / 2 ^ e.logBytes →
    lookup v' = some e

namespace PageTable

variable {pt : PageTable} {v : ℕ} {e : TlbEntry}

/-- Where the table puts a virtual address. -/
def address (pt : PageTable) (v : ℕ) : Option ℕ := (pt.lookup v).map fun e => e.address v

/-- The physical address left in the request. -/
def translate (pt : PageTable) (v : ℕ) : Option ℕ := (pt.address v).map finalizePhysical

/-- The answer to a user program's write; the fault carries the address. -/
def answer (pt : PageTable) (v : ℕ) : Answer ℕ :=
  match pt.lookup v with
  | none => .error v
  | some e =>
    if (e.refuses .write false true true).isSome then .error v
    else .ok (finalizePhysical (e.address v), e.flags (e.address v))

/-- 4 KiB user-writable pages with the given frames. -/
def ofFrames (frame : ℕ → Option ℕ) : PageTable where
  lookup v := (frame (v / 2 ^ 12)).map fun n => ⟨2 ^ 12 * n, 12, false, true, true⟩
  le_logBytes h := by
    obtain ⟨n, -, rfl⟩ := Option.map_eq_some_iff.mp h
    exact le_rfl
  dvd_paddr h := by
    obtain ⟨n, -, rfl⟩ := Option.map_eq_some_iff.mp h
    exact Nat.dvd_mul_right _ _
  lookup_eq h heq := by
    obtain ⟨n, hn, rfl⟩ := Option.map_eq_some_iff.mp h
    rw [heq, hn]
    rfl

/-- Mapped, and a user program may write to it. -/
def Admits (pt : PageTable) (v : ℕ) : Prop :=
  ∃ e, pt.lookup v = some e ∧ e.writable = true ∧ e.user = true

def FaultFree (pt : PageTable) : Prop := ∀ v, (pt.answer v).fault = none

/-- Every page 16 frames up. -/
def upSixteen : PageTable := .ofFrames fun n => some (n + 16)

lemma fault_answer_eq_none_iff : (pt.answer v).fault = none ↔ pt.Admits v := by
  rw [answer, Admits]
  cases pt.lookup v with
  | none => simp [Answer.fault]
  | some e =>
    cases hw : e.writable <;> cases hu : e.user <;> simp [Answer.fault, TlbEntry.refuses, hw, hu]

lemma faultFree_upSixteen : upSixteen.FaultFree := fun _ => rfl

lemma address_eq_add (h : pt.lookup v = some e) :
    pt.address v = some (e.paddr + v % 2 ^ e.logBytes) := by
  obtain ⟨q, hq⟩ := pt.dvd_paddr h
  rw [address, h, map_some, TlbEntry.address, hq,
    ← Nat.two_pow_add_eq_or_of_lt (Nat.mod_lt _ (Nat.two_pow_pos _))]

lemma translate_eq (h : pt.lookup v = some e) :
    pt.translate v = some (finalizePhysical (e.paddr + v % 2 ^ e.logBytes)) := by
  rw [translate, address_eq_add h, map_some]

lemma exists_lookup_of_address {a : ℕ} (h : pt.address v = some a) : ∃ e, pt.lookup v = some e := by
  obtain ⟨e, he, -⟩ := map_eq_some_iff.mp h
  exact ⟨e, he⟩

lemma address_upSixteen (v : ℕ) : upSixteen.address v = some (v + 0x10000) := by
  have hl : upSixteen.lookup v = some ⟨2 ^ 12 * (v / 2 ^ 12 + 16), 12, false, true, true⟩ := rfl
  rw [address_eq_add hl, some.injEq]
  change 2 ^ 12 * (v / 2 ^ 12 + 16) + v % 2 ^ 12 = v + 0x10000
  omega

lemma translate_upSixteen (v : ℕ) :
    upSixteen.translate v = some (finalizePhysical (v + 0x10000)) := by
  rw [translate, address_upSixteen, map_some]

/-- An answer without a fault carries the translation. -/
lemma paddr_apply_answer (h : (pt.answer v).fault = none) (r : Request) :
    ((pt.answer v).apply r).paddr = pt.translate v := by
  obtain ⟨e, he, hw, hu⟩ := fault_answer_eq_none_iff.mp h
  simp [answer, translate, address, he, TlbEntry.refuses, hw, hu, Answer.apply, Request.setPaddr,
    Request.setFlags]

lemma div_two_pow_of_le {k l : ℕ} (hkl : k ≤ l) (w : ℕ) : w / 2 ^ l = w / 2 ^ k / 2 ^ (l - k) := by
  rw [Nat.div_div_eq_div_mul, ← pow_add, Nat.add_sub_cancel' hkl]

lemma lookup_of_div_eq {k w : ℕ} (h : pt.lookup v = some e) (hk : k ≤ e.logBytes)
    (hw : w / 2 ^ k = v / 2 ^ k) : pt.lookup w = some e := by
  refine pt.lookup_eq h ?_
  rw [div_two_pow_of_le hk, div_two_pow_of_le hk, hw]

lemma address_add_of_le {k i a : ℕ} (hl : pt.lookup v = some e) (hk : k ≤ e.logBytes)
    (hi : (v + i) / 2 ^ k = v / 2 ^ k) (h : pt.address v = some a) :
    pt.address (v + i) = some (a + i) ∧ (a + i) / 2 ^ k = a / 2 ^ k := by
  have hl' := lookup_of_div_eq hl hk hi
  rw [address_eq_add hl, some.injEq] at h
  -- the page is the same, so the remainders differ by `i`
  have hpage : (v + i) / 2 ^ e.logBytes = v / 2 ^ e.logBytes := by
    rw [div_two_pow_of_le hk, div_two_pow_of_le hk, hi]
  have h1 := Nat.div_add_mod (v + i) (2 ^ e.logBytes)
  have h2 := Nat.div_add_mod v (2 ^ e.logBytes)
  rw [hpage] at h1
  refine ⟨by rw [address_eq_add hl', ← h, some.injEq]; omega, ?_⟩
  -- the frame is a multiple of `2 ^ k`, and so is the start of the page
  obtain ⟨q, hq⟩ := (pow_dvd_pow 2 hk).trans (pt.dvd_paddr hl)
  obtain ⟨r, hr⟩ := (pow_dvd_pow 2 hk).mul_right (v / 2 ^ e.logBytes)
  have hpos := Nat.two_pow_pos k
  generalize v % 2 ^ e.logBytes = m at h h2
  rw [show v + i = 2 ^ k * r + (m + i) by omega, show v = 2 ^ k * r + m by omega,
    Nat.mul_add_div hpos, Nat.mul_add_div hpos] at hi
  rw [← h, hq, Nat.add_assoc, Nat.mul_add_div hpos, Nat.mul_add_div hpos]
  omega

lemma translate_add_of_le {k i a : ℕ} (hl : pt.lookup v = some e) (hk : k ≤ e.logBytes)
    (hk16 : k ≤ 16) (hi : (v + i) / 2 ^ k = v / 2 ^ k) (h : pt.translate v = some a) :
    pt.translate (v + i) = some (a + i) := by
  obtain ⟨b, hb, rfl⟩ := map_eq_some_iff.mp h
  obtain ⟨hadd, hdiv⟩ := address_add_of_le hl hk hi hb
  rw [translate, hadd, map_some, finalizePhysical_add]
  rw [div_two_pow_of_le hk16, div_two_pow_of_le hk16, hdiv]

lemma address_add {i a : ℕ} (hi : v % 4096 + i < 4096) (h : pt.address v = some a) :
    pt.address (v + i) = some (a + i) := by
  obtain ⟨e, hl⟩ := exists_lookup_of_address h
  exact (address_add_of_le hl (pt.le_logBytes hl) (by omega) h).1

/-- A translation keeps the offset in a page of 4 KiB. -/
lemma address_mod {a : ℕ} (h : pt.address v = some a) : a % 4096 = v % 4096 := by
  obtain ⟨e, hl⟩ := exists_lookup_of_address h
  have hdvd : 4096 ∣ 2 ^ e.logBytes := pow_dvd_pow 2 (pt.le_logBytes hl)
  obtain ⟨q, hq⟩ := hdvd.trans (pt.dvd_paddr hl)
  rw [address_eq_add hl, some.injEq] at h
  rw [← h, hq, Nat.mul_add_mod, Nat.mod_mod_of_dvd _ hdvd]

lemma translate_mod {a : ℕ} (h : pt.translate v = some a) : a % 4096 = v % 4096 := by
  obtain ⟨b, hb, rfl⟩ := map_eq_some_iff.mp h
  rw [finalizePhysical_mod, address_mod hb]

/-! ### Rounding to a row before translating -/

/-- Row-aligned, or in the middle of its row on a 4 KiB page translated as the one before. -/
def RowAlignSafe (pt : PageTable) (v : ℕ) : Prop :=
  v % rowSize = 0 ∨ v % rowSize = 4096 ∧ ∃ e e', pt.lookup v = some e ∧
    pt.lookup (v - 4096) = some e' ∧ e.logBytes = 12 ∧
    finalizePhysical e.paddr = finalizePhysical e'.paddr

/-- On the page of the row's start, rounding moves both addresses alike. -/
lemma translate_ne_rowAlign {k : ℕ} (hl : pt.lookup v = some e) (hk : k ≤ e.logBytes)
    (hk16 : k ≤ 16) (hdiv : v / 2 ^ k = rowAlign v / 2 ^ k) (hne : v % rowSize ≠ 0) :
    pt.translate v ≠ pt.translate (rowAlign v) := by
  have hv : rowAlign v + v % rowSize = v := by
    rw [rowAlign, Nat.mul_comm]
    exact Nat.div_add_mod v rowSize
  have hl' : pt.lookup (rowAlign v) = some e := lookup_of_div_eq hl hk hdiv.symm
  have hr := translate_eq hl'
  have hadd := translate_add_of_le (i := v % rowSize) hl' hk hk16 (by rw [hv]; exact hdiv) hr
  rw [hv] at hadd
  rw [hadd, hr, ne_eq, some.injEq]
  omega

theorem translate_rowAlign_iff (hv : (pt.lookup v).isSome = true)
    (hr : (pt.lookup (rowAlign v)).isSome = true) :
    pt.translate v = pt.translate (rowAlign v) ↔ pt.RowAlignSafe v := by
  obtain ⟨e, he⟩ := isSome_iff_exists.mp hv
  obtain ⟨e', he'⟩ := isSome_iff_exists.mp hr
  by_cases h0 : v % rowSize = 0
  · have : rowAlign v = v := rowAlign_of_dvd (Nat.dvd_of_mod_eq_zero h0)
    exact iff_of_true (by rw [this]) (Or.inl h0)
  have hround : rowAlign v = v - v % 8192 := by
    simp only [rowAlign, rowSize]
    omega
  by_cases hlow : v % 8192 < 4096
  · -- the same 4 KiB block
    refine iff_of_false (translate_ne_rowAlign he (pt.le_logBytes he) (by norm_num) ?_ h0) ?_
    · omega
    · rintro (h | ⟨h, -⟩)
      · exact h0 h
      · simp only [rowSize] at h
        omega
  by_cases hbig : 13 ≤ e.logBytes
  · -- a larger page
    refine iff_of_false (translate_ne_rowAlign he hbig (by norm_num) ?_ h0) ?_
    · omega
    · rintro (h | ⟨-, f, f', hf, -, h12, -⟩)
      · exact h0 h
      · rw [he, some.injEq] at hf
        rw [← hf] at h12
        omega
  -- the upper 4 KiB page of the row
  have h12 : e.logBytes = 12 := by
    have := pt.le_logBytes he
    omega
  have h12' : e'.logBytes = 12 := by
    by_contra hne
    have hge := pt.le_logBytes he'
    have hsame : pt.lookup v = some e' := by
      refine lookup_of_div_eq (k := 13) he' (by omega) ?_
      omega
    rw [he, some.injEq] at hsame
    rw [hsame] at h12
    exact hne h12
  obtain ⟨q, hq⟩ := pt.dvd_paddr he
  obtain ⟨q', hq'⟩ := pt.dvd_paddr he'
  rw [h12] at hq
  rw [h12'] at hq'
  have hshift : ∀ m < 4096, finalizePhysical (e.paddr + m) = finalizePhysical e.paddr + m :=
    fun m hm => finalizePhysical_add (by omega)
  have hmod1 := finalizePhysical_mod e.paddr
  have hmod2 := finalizePhysical_mod e'.paddr
  rw [translate_eq he, translate_eq he', h12, h12', hshift _ (by omega),
    show rowAlign v % 2 ^ 12 = 0 by omega, Nat.add_zero, some.injEq, RowAlignSafe]
  constructor
  · intro heq
    refine Or.inr ⟨?_, e, e', he, ?_, h12, ?_⟩
    · simp only [rowSize]
      omega
    · rwa [show v - 4096 = rowAlign v by omega]
    · omega
  · rintro (h | ⟨h, f, f', hf, hf', -, hpaddr⟩)
    · exact absurd h h0
    · simp only [rowSize] at h
      rw [he, some.injEq] at hf
      rw [show v - 4096 = rowAlign v by omega, he', some.injEq] at hf'
      rw [hf, hf', hpaddr]
      omega

end PageTable

end ShifDram
