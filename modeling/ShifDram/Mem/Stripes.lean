import ShifDram.Bits.Slices
import ShifDram.Mem.AddrRangeMap

/-!
Interleaved ranges (`base/addr_range.hh`).

Stripes are told apart by a slice of the address bits, matched as it is or after an XOR with
another slice.
-/

namespace ShifDram

open List Slices

/-- The fatal errors of the constructors. -/
inductive RangeFatal where
  | matchDoesNotFit
  | highBitsEqual
  | xorTooClose
  | intlvTooClose
  | wrongNumber
  | cannotMerge
  | unexpectedMatch
  deriving DecidableEq, Repr

namespace AddrRange

/-- The checks of the constructor given all fields. -/
def construct (r : AddrRange) : Except RangeFatal AddrRange :=
  if r.interleaved ∧ 2 ^ r.intlvBits ≤ r.intlvMatch then .error .matchDoesNotFit
  else if r.hashed then
    if r.xorHighBit = r.intlvHighBit then .error .highBitsEqual
    else if r.intlvHighBit < r.xorHighBit then
      if r.xorHighBit - r.intlvHighBit < r.intlvBits then .error .xorTooClose else .ok r
    else if r.intlvHighBit - r.xorHighBit < r.intlvBits then .error .intlvTooClose
    else .ok r
  else .ok r

def granularity (r : AddrRange) : ℕ := 2 ^ (r.intlvHighBit + 1 - r.intlvBits)

/-- `stripes`, of 32 bits. -/
def stripes (r : AddrRange) : ℕ := 2 ^ r.intlvBits % 2 ^ 32

/-- The merging constructor's loop; `match` has 8 bits. -/
def checkMatches (front : AddrRange) : ℕ → List AddrRange → Except RangeFatal Unit
  | _, [] => .ok ()
  | k, r :: rest =>
    if !front.mergesWith r then .error .cannotMerge
    else if r.intlvMatch ≠ k then .error .unexpectedMatch
    else front.checkMatches ((k + 1) % 2 ^ 8) rest

/-- The constructor that merges a collection of ranges. -/
def merge : List AddrRange → Except RangeFatal AddrRange
  | [] => .ok ⟨1, 0, 0, 0, 0, 0⟩
  | front :: rest =>
    if (front :: rest).length ≠ 2 ^ front.intlvBits then .error .wrongNumber
    else (front.checkMatches 0 (front :: rest)).map fun _ => rangeIn front.startAddr front.endAddr

/-- The ranges that merge with `r`, one for each match value. -/
structure Complete (r : AddrRange) (ranges : List AddrRange) : Prop where
  merges : ∀ q ∈ ranges, r.mergesWith q = true
  matched : ranges.map intlvMatch = range (2 ^ r.intlvBits)
  byte : ∀ q ∈ ranges, q.intlvMatch < 2 ^ 8

/-- The matched slices lie in an address's 64 bits. -/
def InWord (r : AddrRange) : Prop :=
  (r.intlvBits ≤ r.intlvHighBit + 1 ∧ r.intlvHighBit < 64) ∧
    (r.hashed = true → r.intlvBits ≤ r.xorHighBit + 1 ∧ r.xorHighBit < 64)

variable {r q front : AddrRange} {a len x : ℕ} {ranges : List AddrRange}

/-- The value that is compared with `intlvMatch`. -/
def key (r : AddrRange) (a : ℕ) : ℕ :=
  r.slice a r.intlvHighBit ^^^ if r.hashed then r.slice a r.xorHighBit else 0

lemma contains_iff (hr : r.interleaved = true) : r.contains a = true ↔
    (r.startAddr ≤ a ∧ a ≤ r.endAddr) ∧ r.key a = r.intlvMatch := by
  rw [contains, key]
  by_cases hin : r.startAddr ≤ a ∧ a ≤ r.endAddr
  · cases hhash : r.hashed <;> simp [hr, hin]
  · simp only [hr, Bool.not_true, Bool.false_eq_true, if_false, ← Bool.decide_and, hin,
      decide_false, false_and]

lemma construct_apart (h : r.construct = .ok r) (hhash : r.hashed = true) :
    r.xorHighBit + r.intlvBits ≤ r.intlvHighBit ∨ r.intlvHighBit + r.intlvBits ≤ r.xorHighBit := by
  rw [construct] at h
  split_ifs at h <;> omega

lemma two_pow_dvd (hx : r.granularity * r.stripes ∣ x) :
    2 ^ (r.intlvHighBit + 1 - r.intlvBits + r.intlvBits) ∣ x := by
  rw [granularity, stripes] at hx
  by_cases hlt : r.intlvBits < 32
  · rwa [Nat.mod_eq_of_lt (Nat.pow_lt_pow_right one_lt_two hlt), ← pow_add] at hx
  · -- the number of stripes does not fit: it is 0
    rw [Nat.mod_eq_zero_of_dvd (pow_dvd_pow 2 (not_lt.mp hlt)), mul_zero, zero_dvd_iff] at hx
    rw [hx]
    exact dvd_zero _

/-- Interleaved, aligned, and the constructor's checks hold. -/
structure Aligned (r : AddrRange) (len : ℕ) : Prop where
  interleaved : r.interleaved = true
  bits : r.intlvBits ≤ r.intlvHighBit + 1
  apart : r.hashed = true → r.intlvBits ≤ r.xorHighBit + 1 ∧
    (r.xorHighBit + r.intlvBits ≤ r.intlvHighBit ∨ r.intlvHighBit + r.intlvBits ≤ r.xorHighBit)
  last : r.startAddr + len = r.endAddr + 1
  start : 2 ^ (r.intlvHighBit + 1 - r.intlvBits + r.intlvBits) ∣ r.startAddr
  length : 2 ^ (r.intlvHighBit + 1 - r.intlvBits + r.intlvBits) ∣ len

lemma Aligned.encard (h : r.Aligned len) (hfits : r.intlvMatch < 2 ^ r.intlvBits) :
    {a | r.contains a = true}.encard = (len / 2 ^ r.intlvBits : ℕ) := by
  set low := r.intlvHighBit + 1 - r.intlvBits with hlow
  set other : ℕ → ℕ := fun a => if r.hashed then r.slice a r.xorHighBit else 0 with hother
  have hset : {a | r.contains a = true} =
      ((Finset.Ico r.startAddr (r.startAddr + len)).filter fun a =>
        Slices.slice low r.intlvBits a ^^^ other a = r.intlvMatch : Finset ℕ) := by
    ext a
    rw [Finset.mem_coe, Finset.mem_filter, Finset.mem_Ico, h.last, Nat.lt_succ_iff]
    exact contains_iff h.interleaved
  have hlt : ∀ a, other a < 2 ^ r.intlvBits := fun a => by
    rw [hother]
    split_ifs
    · exact slice_lt ..
    · exact Nat.two_pow_pos _
  -- the bits that are inverted are not those of the other slice
  have hflip : ∀ a v, v < 2 ^ r.intlvBits → other (Slices.flip low v a) = other a := by
    intro a v hv
    rw [hother]
    split_ifs with hhash
    · obtain ⟨hbits, happart⟩ := h.apart hhash
      have hlen := h.bits
      exact slice_flip_of_disjoint hv (by omega)
    · rfl
  rw [hset, Set.encard_coe_eq_coe_finsetCard, card_hashed hlt hflip, card_slice hfits _ h.length]
  exact fun a ha v hv => flip_mem_Ico hv h.start (h.start.add h.length) ha

lemma eq_of_mergesWith (h : r.mergesWith q = true) : q = { r with intlvMatch := q.intlvMatch } := by
  simp only [mergesWith, Bool.and_eq_true, beq_iff_eq] at h
  obtain ⟨⟨⟨⟨hstart, hend⟩, hhigh⟩, hxor⟩, hbits⟩ := h
  rw [← hstart, ← hend, ← hhigh, ← hxor, ← hbits]

lemma contains_of_mergesWith (hr : r.interleaved = true) (h : r.mergesWith q = true) :
    q.contains a = true ↔ (r.startAddr ≤ a ∧ a ≤ r.endAddr) ∧ r.key a = q.intlvMatch := by
  rw [eq_of_mergesWith h]
  exact contains_iff (r := { r with intlvMatch := q.intlvMatch }) hr

lemma checkMatches_eq (hmerges : ∀ q ∈ ranges, front.mergesWith q = true) {k : ℕ}
    (hmatched : ranges.map intlvMatch = range' k ranges.length)
    (hbyte : ∀ q ∈ ranges, q.intlvMatch < 2 ^ 8) :
    front.checkMatches (k % 2 ^ 8) ranges = .ok () := by
  induction ranges generalizing k with
  | nil => rfl
  | cons q rest ih =>
    rw [map_cons, length_cons, range'_succ, cons.injEq] at hmatched
    have hk : k < 2 ^ 8 := hmatched.1 ▸ hbyte q (mem_cons_self ..)
    rw [checkMatches, hmerges q (mem_cons_self ..), hmatched.1, Nat.mod_eq_of_lt hk]
    simp only [Bool.not_true, Bool.false_eq_true, if_false, ne_eq, not_true_eq_false]
    exact ih (fun q hq => hmerges q (mem_cons_of_mem _ hq)) hmatched.2
      fun q hq => hbyte q (mem_cons_of_mem _ hq)

lemma Complete.merge_eq (h : r.Complete ranges) :
    merge ranges = .ok (rangeIn r.startAddr r.endAddr) := by
  have hlength : ranges.length = 2 ^ r.intlvBits := by
    rw [← length_map (f := intlvMatch), h.matched, length_range]
  cases ranges with
  | nil => exact absurd hlength (Nat.two_pow_pos _).ne
  | cons front rest =>
    have hfront := eq_of_mergesWith (h.merges front (mem_cons_self ..))
    have hmatched := h.matched
    rw [range_eq_range', ← hlength] at hmatched
    have hcheck : front.checkMatches 0 (front :: rest) = .ok () :=
      checkMatches_eq (k := 0) (fun q hq => hfront ▸ h.merges q hq) hmatched h.byte
    rw [merge, if_neg (by rw [hlength, hfront]; exact not_not.mpr rfl), hcheck, hfront]
    rfl

/-- **The stripes of a family.** A range that the constructor accepts, with slices in an address
and start and length multiples of `granularity` times `stripes`, has as many addresses as `size`
says. So do the ranges of a complete family, which are disjoint and together are the range they
merge to. -/
theorem card_stripe (hr : r.construct = .ok r) (hintlv : r.interleaved = true) (hword : r.InWord)
    (hlast : r.startAddr + len = r.endAddr + 1) (hlen : len < 2 ^ 64)
    (hstart : r.granularity * r.stripes ∣ r.startAddr) (hlength : r.granularity * r.stripes ∣ len) :
    {a | r.contains a = true}.encard = r.size ∧ ∀ ranges, r.Complete ranges →
      merge ranges = .ok (rangeIn r.startAddr r.endAddr) ∧
      (∀ q ∈ ranges, {a | q.contains a = true}.encard = r.size) ∧
      (ranges.Pairwise fun q q' => ∀ a, ¬ (q.contains a = true ∧ q'.contains a = true)) ∧
      ∀ a, (rangeIn r.startAddr r.endAddr).contains a = true ↔
        ∃ q ∈ ranges, q.contains a = true := by
  have haligned : r.Aligned len :=
    ⟨hintlv, hword.1.1, fun hhash => ⟨(hword.2 hhash).1, construct_apart hr hhash⟩, hlast,
      two_pow_dvd hstart, two_pow_dvd hlength⟩
  have hfits : r.intlvMatch < 2 ^ r.intlvBits := by
    rw [construct] at hr
    split_ifs at hr with hno <;> simpa [hintlv] using hno
  have hsize : r.size = len / 2 ^ r.intlvBits := by
    rw [size]
    congr 1
    omega
  refine ⟨hsize ▸ haligned.encard hfits, fun ranges h =>
    ⟨h.merge_eq, fun q hq => ?_, ?_, fun a => ?_⟩⟩
  · have hmatch : q.intlvMatch < 2 ^ r.intlvBits := mem_range.mp (h.matched ▸ mem_map_of_mem hq)
    rw [eq_of_mergesWith (h.merges q hq), hsize]
    exact Aligned.encard (r := { r with intlvMatch := q.intlvMatch })
      { haligned with interleaved := hintlv, last := hlast } hmatch
  · have hnodup : (ranges.map intlvMatch).Nodup := h.matched ▸ nodup_range
    refine (pairwise_map.mp hnodup).imp_of_mem fun {q q'} hq hq' hne a ha => hne ?_
    have hkey := ((contains_of_mergesWith hintlv (h.merges q hq)).mp ha.1).2
    exact hkey.symm.trans ((contains_of_mergesWith hintlv (h.merges q' hq')).mp ha.2).2
  · have hplain : (rangeIn r.startAddr r.endAddr).contains a = true ↔
        r.startAddr ≤ a ∧ a ≤ r.endAddr := by
      have hno : (rangeIn r.startAddr r.endAddr).interleaved = false := rfl
      simp only [contains, hno, Bool.not_false, if_true, Bool.and_eq_true, decide_eq_true_eq]
      rfl
    rw [hplain]
    constructor
    · intro hin
      have hkey : r.key a ∈ ranges.map intlvMatch := by
        rw [h.matched, mem_range, key]
        refine Nat.xor_lt_two_pow (slice_lt ..) ?_
        split_ifs
        · exact slice_lt ..
        · exact Nat.two_pow_pos _
      obtain ⟨q, hq, heq⟩ := mem_map.mp hkey
      exact ⟨q, hq, (contains_of_mergesWith hintlv (h.merges q hq)).mpr ⟨hin, heq.symm⟩⟩
    · rintro ⟨q, hq, ha⟩
      exact ((contains_of_mergesWith hintlv (h.merges q hq)).mp ha).1

/-- Stripe `k` of four 256 bytes wide, hashed with bits 12 and 13. -/
def hashedStripe (k : ℕ) : AddrRange := ⟨0, 2 ^ 14 - 1, 9, 13, 2, k⟩

/-- The first of four hashed stripes of 16 KiB has 4 KiB. -/
theorem card_hashedStripe : {a | (hashedStripe 0).contains a = true}.encard = (4096 : ℕ) ∧
    merge ((range 4).map hashedStripe) = .ok (rangeIn 0 (2 ^ 14 - 1)) := by
  have hlast : (hashedStripe 0).startAddr + 2 ^ 14 = (hashedStripe 0).endAddr + 1 := by decide
  have hstripe := card_stripe (r := hashedStripe 0) (by decide) rfl
    ⟨⟨by decide, by decide⟩, fun _ => ⟨by decide, by decide⟩⟩ hlast (by decide) (by decide)
    (by decide)
  exact ⟨hstripe.1, (hstripe.2 _ ⟨by decide, by decide, by decide⟩).1⟩

end AddrRange

end ShifDram
