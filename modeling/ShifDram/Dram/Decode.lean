import ShifDram.Bits.Slices
import ShifDram.Dram.Ctrl
import ShifDram.Mem.AddrRangeMap

/-!
What the addresses of a channel decode to (`DRAMCtrl::decodeAddr`).

The three address maps take the digits of a burst number apart in different orders: columns below
the channel, the channel, then bank, rank, row and the other columns.
-/

namespace ShifDram

open Slices Finset

namespace DRAMParams

variable (p : DRAMParams)

/-- Powers of two; rank and bank fit in 8 bits. -/
structure PowersOfTwo : Prop where
  columns : p.columnsPerRowBuffer.isPowerOfTwo
  stripe : p.columnsPerStripe.isPowerOfTwo
  channels : p.channels.isPowerOfTwo
  banks : p.banksPerRank.isPowerOfTwo
  rows : p.rowsPerBank.isPowerOfTwo
  banks_le : p.banksPerRank ≤ 256
  ranks_le : p.ranksPerChannel ≤ 256

def totalCapacity : ℕ :=
  p.burstSize * p.columnsPerRowBuffer * p.channels * p.banksPerRank * p.ranksPerChannel *
    p.rowsPerBank

def lowColumns : ℕ :=
  match p.addrMapping with
  | .roRaBaChCo => p.columnsPerRowBuffer
  | .roRaBaCoCh | .roCoRaBaCh => p.columnsPerStripe

def highColumns : ℕ := p.columnsPerRowBuffer / p.lowColumns

def stripeSize : ℕ := p.burstSize * p.lowColumns

/-- The channel's lowest bit, and how many there are. -/
def channelBit : ℕ := Nat.log 2 p.stripeSize

def channelBits : ℕ := Nat.log 2 p.channels

/-- The channel of an address; hashed, the bits from `k` on are XORed to it. -/
def channelOf (hash : Option ℕ) (a : ℕ) : ℕ :=
  slice p.channelBit p.channelBits a ^^^ match hash with
    | none => 0
    | some k => slice k p.channelBits a

/-- A range's constructor checks that the two slices are apart. -/
def HashApart (hash : Option ℕ) : Prop :=
  ∀ k ∈ hash, p.channelBit + p.channelBits ≤ k ∨ k + p.channelBits ≤ p.channelBit

variable {p} {c rank bank row : ℕ}

/-! ### The numbers of a configuration -/

section

variable (hp : p.PowersOfTwo)

include hp

lemma PowersOfTwo.columns_pos : 0 < p.columnsPerRowBuffer := by
  obtain ⟨k, hk⟩ := hp.columns
  exact hk ▸ Nat.two_pow_pos k

lemma PowersOfTwo.banks_pos : 0 < p.banksPerRank := by
  obtain ⟨k, hk⟩ := hp.banks
  exact hk ▸ Nat.two_pow_pos k

lemma PowersOfTwo.rows_pos : 0 < p.rowsPerBank := by
  obtain ⟨k, hk⟩ := hp.rows
  exact hk ▸ Nat.two_pow_pos k

lemma PowersOfTwo.lowColumns : p.lowColumns.isPowerOfTwo := by
  rw [DRAMParams.lowColumns]
  split
  · exact hp.columns
  · exact hp.stripe
  · exact hp.stripe

lemma columnsPerStripe_le (hmap : p.addrMapping ≠ .roRaBaChCo) :
    p.columnsPerStripe ≤ p.columnsPerRowBuffer := by
  have hstripes := p.stripes
  rw [columnsPerStripe]
  split
  · next g hg =>
    have hg := hstripes g hg
    rw [if_neg hmap] at hg
    exact Nat.div_le_div_right hg.2.2
  · exact hp.columns_pos

lemma PowersOfTwo.lowColumns_mul : p.lowColumns * p.highColumns = p.columnsPerRowBuffer := by
  have hle : p.lowColumns ≤ p.columnsPerRowBuffer := by
    rw [DRAMParams.lowColumns]
    split
    · exact le_rfl
    · next hmap => exact columnsPerStripe_le hp (by simp [hmap])
    · next hmap => exact columnsPerStripe_le hp (by simp [hmap])
  obtain ⟨low, hlow⟩ := hp.lowColumns
  obtain ⟨k, hk⟩ := hp.columns
  refine Nat.mul_div_cancel' ?_
  rw [hlow, hk] at hle ⊢
  exact pow_dvd_pow 2 ((Nat.pow_le_pow_iff_right one_lt_two).mp hle)

lemma PowersOfTwo.highColumns_pos : 0 < p.highColumns := by
  refine Nat.pos_of_ne_zero fun hzero => ?_
  have hmul := hp.lowColumns_mul
  rw [hzero, mul_zero] at hmul
  exact hp.columns_pos.ne hmul

lemma PowersOfTwo.stripeSize_eq : p.stripeSize = 2 ^ p.channelBit := by
  obtain ⟨low, hlow⟩ := hp.lowColumns
  rw [channelBit, stripeSize, burstSize, hlow, ← pow_add, Nat.log_pow one_lt_two]

lemma PowersOfTwo.channels_eq : p.channels = 2 ^ p.channelBits := by
  obtain ⟨k, hk⟩ := hp.channels
  rw [channelBits, hk, Nat.log_pow one_lt_two]

lemma PowersOfTwo.totalCapacity_eq : p.totalCapacity = p.burstSize * (p.lowColumns * (p.channels *
      (p.highColumns * (p.banksPerRank * (p.ranksPerChannel * p.rowsPerBank))))) := by
  rw [totalCapacity, ← hp.lowColumns_mul]
  ring

/-- It is the memory's size if rows are whole bursts. -/
theorem PowersOfTwo.totalCapacity_eq_capacity (hrow : p.burstSize ∣ p.rowBufferSize) :
    p.totalCapacity = p.channels * p.capacity := by
  have hsize : p.burstSize * p.columnsPerRowBuffer = p.rowBufferSize := Nat.mul_div_cancel' hrow
  obtain ⟨c, hc⟩ := hp.columns
  obtain ⟨b, hb⟩ := hp.banks
  have hrows := hp.rows_pos
  obtain ⟨m, hm⟩ : ∃ m, p.rowBufferSize * p.banksPerRank * p.ranksPerChannel = 2 ^ m :=
    ⟨p.burstBits + c + b + p.rankBits, by
      rw [← hsize, hc, hb, burstSize, ranksPerChannel, ← pow_add, ← pow_add, ← pow_add]⟩
  -- a product or a quotient of 32 bits or more would leave no row
  have hmod : ∀ k, 32 ≤ k → 2 ^ k % 2 ^ 32 = 0 := fun k hk =>
    Nat.mod_eq_zero_of_dvd (pow_dvd_pow 2 hk)
  rw [rowsPerBank, capacity, hm] at hrows
  have hm32 : m < 32 := by
    by_contra hge
    rw [hmod m (by omega), Nat.div_zero, Nat.zero_mod] at hrows
    exact lt_irrefl _ hrows
  have hlt : 2 ^ m < 2 ^ 32 := Nat.pow_lt_pow_right one_lt_two hm32
  rw [Nat.mod_eq_of_lt hlt] at hrows
  have hle : m ≤ p.capacityBits := by
    by_contra hgt
    rw [Nat.div_eq_of_lt (Nat.pow_lt_pow_right one_lt_two (by omega)), Nat.zero_mod] at hrows
    exact lt_irrefl _ hrows
  rw [Nat.pow_div hle two_pos] at hrows
  have hquot : p.capacityBits - m < 32 := by
    by_contra hge
    rw [hmod _ (by omega)] at hrows
    exact lt_irrefl _ hrows
  have hbank : p.rowsPerBank = 2 ^ (p.capacityBits - m) := by
    rw [rowsPerBank, capacity, hm, Nat.mod_eq_of_lt hlt, Nat.pow_div hle two_pos,
      Nat.mod_eq_of_lt (Nat.pow_lt_pow_right one_lt_two hquot)]
  calc p.totalCapacity = p.channels *
        (p.rowBufferSize * p.banksPerRank * p.ranksPerChannel * p.rowsPerBank) := by
        rw [totalCapacity, hsize]
        ring
    _ = p.channels * p.capacity := by
        rw [hm, hbank, ← pow_add, Nat.add_sub_cancel' hle, capacity]

end

variable (p) in
def decodeHigh (y : ℕ) : ℕ × ℕ × ℕ :=
  match p.addrMapping with
  | .roRaBaChCo | .roRaBaCoCh =>
    let z := y / p.highColumns
    (z / p.banksPerRank % p.ranksPerChannel, z % p.banksPerRank,
      z / p.banksPerRank / p.ranksPerChannel % p.rowsPerBank)
  | .roCoRaBaCh =>
    (y / p.banksPerRank % p.ranksPerChannel, y % p.banksPerRank,
      y / p.banksPerRank / p.ranksPerChannel / p.highColumns % p.rowsPerBank)

lemma decode_eq_decodeHigh (hp : p.PowersOfTwo) (a : ℕ) :
    DRAMCtrl.decode p a = p.decodeHigh (a / p.burstSize / p.lowColumns / p.channels) := by
  have hone : p.columnsPerRowBuffer / p.columnsPerRowBuffer = 1 := Nat.div_self hp.columns_pos
  cases hmap : p.addrMapping <;>
    simp only [DRAMCtrl.decode, decodeHigh, highColumns, lowColumns, hmap, hone, Nat.div_one]

lemma card_row {row : ℕ} (hrow : row < p.rowsPerBank) :
    ((range p.rowsPerBank).filter fun q => q % p.rowsPerBank = row).card = 1 := by
  refine card_eq_one.mpr ⟨row, ?_⟩
  ext q
  rw [mem_filter, mem_range, mem_singleton]
  constructor
  · rintro ⟨hlt, heq⟩
    rwa [Nat.mod_eq_of_lt hlt] at heq
  · rintro rfl
    exact ⟨hrow, Nat.mod_eq_of_lt hrow⟩

/-- **How often a place is decoded** above the channel. -/
lemma card_decodeHigh (hp : p.PowersOfTwo) {rank bank row : ℕ} (hrank : rank < p.ranksPerChannel)
    (hbank : bank < p.banksPerRank) (hrow : row < p.rowsPerBank) :
    ((range (p.highColumns * (p.banksPerRank * (p.ranksPerChannel * p.rowsPerBank)))).filter
      fun y => p.decodeHigh y = (rank, bank, row)).card = p.highColumns := by
  -- bank and rank from the low end, the row above
  have hrowFirst : ((range (p.banksPerRank * (p.ranksPerChannel * p.rowsPerBank))).filter
      fun z => z % p.banksPerRank = bank ∧ z / p.banksPerRank % p.ranksPerChannel = rank ∧
        z / p.banksPerRank / p.ranksPerChannel % p.rowsPerBank = row).card = 1 := by
    rw [card_fixed (P := fun z => z % p.ranksPerChannel = rank ∧
      z / p.ranksPerChannel % p.rowsPerBank = row) hbank,
      card_fixed (P := fun z => z % p.rowsPerBank = row) hrank, card_row hrow]
  have hcolFirst : ((range (p.banksPerRank * (p.ranksPerChannel *
      (p.highColumns * p.rowsPerBank)))).filter
      fun y => y % p.banksPerRank = bank ∧ y / p.banksPerRank % p.ranksPerChannel = rank ∧
        y / p.banksPerRank / p.ranksPerChannel / p.highColumns % p.rowsPerBank = row).card =
      p.highColumns := by
    rw [card_fixed (P := fun z => z % p.ranksPerChannel = rank ∧
      z / p.ranksPerChannel / p.highColumns % p.rowsPerBank = row) hbank,
      card_fixed (P := fun z => z / p.highColumns % p.rowsPerBank = row) hrank,
      card_free (P := fun z => z % p.rowsPerBank = row) hp.highColumns_pos, card_row hrow, mul_one]
  have htriple : ∀ {r b w : ℕ}, (r, b, w) = (rank, bank, row) ↔ b = bank ∧ r = rank ∧ w = row := by
    intro r b w
    simp only [Prod.mk.injEq]
    tauto
  cases hmap : p.addrMapping with
  | roRaBaChCo | roRaBaCoCh =>
    simp only [decodeHigh, hmap, htriple]
    rw [card_free (P := fun z => z % p.banksPerRank = bank ∧
      z / p.banksPerRank % p.ranksPerChannel = rank ∧
        z / p.banksPerRank / p.ranksPerChannel % p.rowsPerBank = row) hp.highColumns_pos,
      hrowFirst, mul_one]
  | roCoRaBaCh =>
    simp only [decodeHigh, hmap, htriple]
    rwa [show p.highColumns * (p.banksPerRank * (p.ranksPerChannel * p.rowsPerBank)) =
      p.banksPerRank * (p.ranksPerChannel * (p.highColumns * p.rowsPerBank)) by ring]

variable (p) in
def burstsAt (place : ℕ × ℕ × ℕ) : Finset ℕ :=
  (range p.totalCapacity).filter fun a => p.burstSize ∣ a ∧ DRAMCtrl.decode p a = place

section

variable (hp : p.PowersOfTwo)

include hp

/-- In a channel that is not hashed. -/
lemma card_burstsAt (hc : c < p.channels) (hrank : rank < p.ranksPerChannel)
    (hbank : bank < p.banksPerRank) (hrow : row < p.rowsPerBank) :
    ((p.burstsAt (rank, bank, row)).filter fun a => slice p.channelBit p.channelBits a = c).card =
      p.columnsPerRowBuffer := by
  have hlowpos : 0 < p.lowColumns := by
    obtain ⟨k, hk⟩ := hp.lowColumns
    exact hk ▸ Nat.two_pow_pos k
  have hslice : ∀ a, slice p.channelBit p.channelBits a =
      a / p.burstSize / p.lowColumns % p.channels := fun a => by
    rw [Slices.slice, ← hp.stripeSize_eq, ← hp.channels_eq, stripeSize, Nat.div_div_eq_div_mul]
  have hfilter : (p.burstsAt (rank, bank, row)).filter
        (fun a => slice p.channelBit p.channelBits a = c) =
      (range p.totalCapacity).filter fun a => a % p.burstSize = 0 ∧
        (a / p.burstSize / p.lowColumns % p.channels = c ∧
          p.decodeHigh (a / p.burstSize / p.lowColumns / p.channels) = (rank, bank, row)) := by
    rw [burstsAt, filter_filter]
    refine filter_congr fun a _ => ?_
    rw [hslice, decode_eq_decodeHigh hp, Nat.dvd_iff_mod_eq_zero]
    tauto
  rw [hfilter, hp.totalCapacity_eq, card_fixed (P := fun x => x / p.lowColumns % p.channels = c ∧
      p.decodeHigh (x / p.lowColumns / p.channels) = (rank, bank, row)) p.burstSize_pos,
    card_free (P := fun x => x % p.channels = c ∧
      p.decodeHigh (x / p.channels) = (rank, bank, row)) hlowpos,
    card_fixed (P := fun x => p.decodeHigh x = (rank, bank, row)) hc,
    card_decodeHigh hp hrank hbank hrow, hp.lowColumns_mul]

/-- Inverting channel bits changes neither place nor alignment. -/
lemma flip_mem_burstsAt {place : ℕ × ℕ × ℕ} {a v : ℕ} (ha : a ∈ p.burstsAt place)
    (hv : v < 2 ^ p.channelBits) : flip p.channelBit v a ∈ p.burstsAt place := by
  obtain ⟨hlt, hdvd, hplace⟩ := mem_filter.mp ha
  have hsize : p.stripeSize * p.channels = 2 ^ (p.channelBit + p.channelBits) := by
    rw [hp.stripeSize_eq, hp.channels_eq, ← pow_add]
  have hhigh : ∀ a, a / p.burstSize / p.lowColumns / p.channels =
      a / 2 ^ (p.channelBit + p.channelBits) := fun a => by
    rw [← hsize, stripeSize, Nat.div_div_eq_div_mul, Nat.div_div_eq_div_mul, mul_assoc]
  have hburst : p.burstBits ≤ p.channelBit := by
    obtain ⟨low, hlow⟩ := hp.lowColumns
    have heq := hp.stripeSize_eq
    rw [stripeSize, burstSize, hlow, ← pow_add] at heq
    have := Nat.pow_right_injective le_rfl heq
    omega
  refine mem_filter.mpr ⟨?_, ?_, ?_⟩
  · have hdvd' : 2 ^ (p.channelBit + p.channelBits) ∣ p.totalCapacity := by
      rw [← hsize, hp.totalCapacity_eq, stripeSize]
      exact ⟨p.highColumns * (p.banksPerRank * (p.ranksPerChannel * p.rowsPerBank)), by ring⟩
    have hmem : a ∈ Finset.Ico 0 p.totalCapacity := mem_Ico.mpr ⟨Nat.zero_le a, mem_range.mp hlt⟩
    exact mem_range.mpr (mem_Ico.mp (flip_mem_Ico hv (dvd_zero _) hdvd' hmem)).2
  · rw [Nat.dvd_iff_mod_eq_zero] at hdvd ⊢
    exact (flip_mod hburst).trans hdvd
  · rw [decode_eq_decodeHigh hp, hhigh] at hplace ⊢
    rwa [flip_div hv le_rfl]

/-- **In every channel, hashed or not.** -/
lemma card_burstsAt_channelOf {hash : Option ℕ} (happart : p.HashApart hash) (hc : c < p.channels)
    (hrank : rank < p.ranksPerChannel) (hbank : bank < p.banksPerRank)
    (hrow : row < p.rowsPerBank) :
    ((p.burstsAt (rank, bank, row)).filter fun a => p.channelOf hash a = c).card =
      p.columnsPerRowBuffer := by
  rw [← card_burstsAt hp hc hrank hbank hrow]
  cases hash with
  | none =>
    simp only [channelOf, Nat.xor_zero]
  | some k =>
    refine card_hashed (fun x => slice_lt _ _ _) (fun x v hv => ?_)
      fun a ha v hv => flip_mem_burstsAt hp ha hv
    exact slice_flip_of_disjoint hv (happart k rfl)

/-! ### Ranges -/

lemma PowersOfTwo.stripeSize_eq_granularity {k : ℕ} (hg : p.granularity = some (2 ^ k)) :
    p.stripeSize = 2 ^ k := by
  have hchecks := p.stripes _ hg
  -- a burst is no longer than a stripe
  obtain ⟨hcolumns, hle⟩ : p.lowColumns = 2 ^ k / p.burstSize ∧ p.burstSize ≤ 2 ^ k := by
    cases hmap : p.addrMapping with
    | roRaBaChCo =>
      rw [if_pos hmap] at hchecks
      have hpos := hp.columns_pos
      rw [columnsPerRowBuffer, hchecks] at hpos
      refine ⟨?_, (Nat.div_pos_iff.mp hpos).2⟩
      simp only [DRAMParams.lowColumns, hmap, columnsPerRowBuffer, hchecks]
    | roRaBaCoCh | roCoRaBaCh =>
      rw [if_neg (by simp [hmap])] at hchecks
      refine ⟨?_, hchecks.1⟩
      simp only [DRAMParams.lowColumns, hmap, columnsPerStripe, hg]
  rw [stripeSize, hcolumns]
  exact Nat.mul_div_cancel' (pow_dvd_pow 2 ((Nat.pow_le_pow_iff_right one_lt_two).mp hle))

lemma contains_iff_channelOf {r : AddrRange} (hintlv : r.interleaved = true)
    (hgranularity : p.granularity = some (2 ^ (r.intlvHighBit + 1 - r.intlvBits)))
    (hstripes : p.channels = 2 ^ r.intlvBits) (a : ℕ) :
    r.contains a = true ↔ (r.startAddr ≤ a ∧ a ≤ r.endAddr) ∧
      p.channelOf (if r.hashed then some (r.xorHighBit + 1 - r.intlvBits) else none) a =
        r.intlvMatch := by
  have hbit : p.channelBit = r.intlvHighBit + 1 - r.intlvBits :=
    Nat.pow_right_injective le_rfl
      (hp.stripeSize_eq.symm.trans (hp.stripeSize_eq_granularity hgranularity))
  have hbits : p.channelBits = r.intlvBits :=
    Nat.pow_right_injective le_rfl (hp.channels_eq.symm.trans hstripes)
  rw [AddrRange.contains]
  unfold channelOf
  rw [hbit, hbits]
  cases hhash : r.hashed <;> simp [hintlv, AddrRange.slice, Slices.slice]

end

end DRAMParams

namespace DRAMCtrl

open DRAMParams

variable {p : DRAMParams} {n : ℕ}

def placeOf (x : Except Abort DRAMPacket) : Option (ℕ × ℕ × ℕ) :=
  match x with
  | .ok d => some (d.rank, d.bank, d.row)
  | .error _ => none

lemma placeOf_decodeAddr (hp : p.PowersOfTwo) (s : DRAMCtrl) (n a size : ℕ) (isRead : Bool) :
    placeOf (s.decodeAddr p n a size isRead) = some (decode p a) := by
  obtain ⟨hrank, hbank, hrow⟩ : (decode p a).1 < p.ranksPerChannel ∧
      (decode p a).2.1 < p.banksPerRank ∧ (decode p a).2.2 < p.rowsPerBank := by
    have hbanks := hp.banks_pos
    have hrows := hp.rows_pos
    cases hmap : p.addrMapping <;> simp only [decode, hmap] <;>
      exact ⟨Nat.mod_lt _ p.ranksPerChannel_pos, Nat.mod_lt _ hbanks, Nat.mod_lt _ hrows⟩
  have hranks := hp.ranks_le
  have hbanks := hp.banks_le
  have hnoRow : (decode p a).2.2 < 2 ^ 32 - 1 := hrow.trans p.rowsPerBank_lt
  have hrank8 : (decode p a).1 % 2 ^ 8 = (decode p a).1 := Nat.mod_eq_of_lt (by omega)
  have hbank8 : (decode p a).2.1 % 2 ^ 8 = (decode p a).2.1 := Nat.mod_eq_of_lt (by omega)
  rw [decodeAddr]
  simp only [hrank8, hbank8]
  rw [if_pos ⟨hrank, hbank, hrow, hnoRow⟩]
  rfl

/-- **Every place has the bursts of one row.** Below the total capacity exactly
`columnsPerRowBuffer` burst addresses of a channel decode to a rank, bank and row; other addresses
decode as their burst. -/
theorem decodeAddr_balanced (hp : p.PowersOfTwo) {hash : Option ℕ} (happart : p.HashApart hash)
    {c rank bank row : ℕ} (hc : c < p.channels) (hrank : rank < p.ranksPerChannel)
    (hbank : bank < p.banksPerRank) (hrow : row < p.rowsPerBank) (s : DRAMCtrl) (n size : ℕ)
    (isRead : Bool) :
    ((range p.totalCapacity).filter fun a => p.burstSize ∣ a ∧ p.channelOf hash a = c ∧
          placeOf (s.decodeAddr p n a size isRead) = some (rank, bank, row)).card =
      p.columnsPerRowBuffer ∧
    ∀ a, placeOf (s.decodeAddr p n a size isRead) =
      placeOf (s.decodeAddr p n (p.burstAlign a) size isRead) := by
  constructor
  · rw [← card_burstsAt_channelOf hp happart hc hrank hbank hrow, burstsAt, filter_filter]
    refine congrArg card (filter_congr fun a _ => ?_)
    rw [placeOf_decodeAddr hp, Option.some.injEq]
    tauto
  · intro a
    rw [placeOf_decodeAddr hp, placeOf_decodeAddr hp, decode_eq_decodeHigh hp,
      decode_eq_decodeHigh hp, burstAlign, Nat.mul_div_cancel _ p.burstSize_pos]

/-- Two channels of 64-byte stripes; eight banks of eight rows of eight bursts. -/
def smallDram : DRAMParams :=
  { ddr3_1600_x64 .frfcfs with
    rowBufferSize := 512
    granularity := some 64
    channels := 2
    capacityBits := 16
    addrMapping := .roCoRaBaCh
    stripes := fun g hg => by
      cases hg
      decide }

lemma smallDram_powersOfTwo : smallDram.PowersOfTwo where
  columns := ⟨3, by decide⟩
  stripe := ⟨0, rfl⟩
  channels := ⟨1, rfl⟩
  banks := ⟨3, rfl⟩
  rows := ⟨3, by decide⟩
  banks_le := by decide
  ranks_le := by decide

theorem totalCapacity_smallDram : smallDram.totalCapacity = 2 * 2 ^ 16 :=
  smallDram_powersOfTwo.totalCapacity_eq_capacity (by decide)

/-- With the channel bit hashed, rank 1, bank 5, row 3 has eight bursts of channel 1. -/
theorem decodeAddr_balanced_smallDram : ((range smallDram.totalCapacity).filter fun a =>
        smallDram.burstSize ∣ a ∧ smallDram.channelOf (some 12) a = 1 ∧
          placeOf
            ((init smallDram 0 ⟨0, 0, 0, fun _ => 0#8, []⟩).decodeAddr smallDram 0 a 64 true) =
            some (1, 5, 3)).card = 8 := by
  have happart : smallDram.HashApart (some 12) := fun k hk => by
    cases hk
    decide
  exact (decodeAddr_balanced smallDram_powersOfTwo happart (by decide) (by decide) (by decide)
    (by decide) _ 0 64 true).1

end DRAMCtrl

end ShifDram
