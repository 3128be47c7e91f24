import ShifDram.Dram.Queues

/-!
Which banks `minBankPrep` finds, and that `reorderQueue` finds a packet (`mem/dram_ctrl.cc`).

The pass keeps a mask of the best banks so far: those that can issue their column command in time,
as soon as there is one, and before that those that can be activated first.
-/

namespace ShifDram

open List

variable {p : DRAMParams} {front : List DRAMPacket} {mask : BitVec 64} {s : QueueScan} {b : ℕ × ℕ}

/-- Rank, bank and bank number are as `decodeAddr` makes them. -/
structure Addressed (p : DRAMParams) (d : DRAMPacket) : Prop where
  rank : d.rank < p.ranksPerChannel
  bank : d.bank < p.banksPerRank
  bankId : d.bankId = d.rank * p.banksPerRank + d.bank

def bankNumber (p : DRAMParams) (b : ℕ × ℕ) : ℕ := b.1 * p.banksPerRank + b.2

def IsBank (p : DRAMParams) (b : ℕ × ℕ) : Prop := b.1 < p.ranksPerChannel ∧ b.2 < p.banksPerRank

/-- **What `decodeAddr` makes is addressed**, if bank numbers fit in 16 bits. -/
lemma DRAMCtrl.InRange.addressed {d : DRAMPacket}
    (hbanks : p.ranksPerChannel * p.banksPerRank ≤ 2 ^ 16)
    (h : DRAMCtrl.InRange p d) : Addressed p d := by
  obtain ⟨hrank, hbank, -, hid⟩ := h
  refine ⟨hrank, hbank, ?_⟩
  have hle : (d.rank + 1) * p.banksPerRank ≤ p.ranksPerChannel * p.banksPerRank :=
    Nat.mul_le_mul_right _ hrank
  rw [Nat.add_mul, Nat.one_mul] at hle
  rw [hid, Nat.mul_comm, Nat.mod_eq_of_lt (by omega)]

lemma addressed_decodeAddr {s : DRAMCtrl} {n addr size : ℕ} {isRead : Bool} {d : DRAMPacket}
    (hbanks : p.ranksPerChannel * p.banksPerRank ≤ 2 ^ 16)
    (h : s.decodeAddr p n addr size isRead = .ok d) : Addressed p d :=
  (DRAMCtrl.decodeAddr_ok h).1.range.addressed hbanks

lemma bankNumber_lt (hb : IsBank p b) :
    bankNumber p b < p.ranksPerChannel * p.banksPerRank := by
  have hle : (b.1 + 1) * p.banksPerRank ≤ p.ranksPerChannel * p.banksPerRank :=
    Nat.mul_le_mul_right _ hb.1
  have hlt := hb.2
  rw [Nat.add_mul, Nat.one_mul] at hle
  rw [bankNumber]
  omega

lemma bankNumber_inj {b b' : ℕ × ℕ} (hb : IsBank p b) (hb' : IsBank p b')
    (h : bankNumber p b = bankNumber p b') : b = b' := by
  have hpos : 0 < p.banksPerRank := Nat.zero_lt_of_lt hb.2
  have hdiv : ∀ b : ℕ × ℕ, IsBank p b → bankNumber p b / p.banksPerRank = b.1 := by
    intro b hb
    rw [bankNumber, Nat.mul_comm, Nat.mul_add_div hpos, Nat.div_eq_of_lt hb.2, Nat.add_zero]
  have h₁ : b.1 = b'.1 := by rw [← hdiv b hb, h, hdiv b' hb']
  have h₂ : b.2 = b'.2 := by
    rw [bankNumber, bankNumber, h₁] at h
    exact Nat.add_left_cancel h
  exact Prod.ext h₁ h₂

namespace Channel

variable {c : Channel} {queue : List DRAMPacket} {minColAt : ℕ}

def Waits (c : Channel) (queue : List DRAMPacket) (b : ℕ × ℕ) : Prop :=
  ∃ d ∈ queue, (c.ranks d.rank).isAvailable = true ∧ d.rank = b.1 ∧ d.bank = b.2

def actTick (p : DRAMParams) (c : Channel) (b : ℕ × ℕ) : ℕ := c.actAt p ((c.ranks b.1).banks b.2)

/-- The bank can issue its column command by `minColAt`. -/
def Seamless (p : DRAMParams) (c : Channel) (minColAt : ℕ) (b : ℕ × ℕ) : Prop :=
  max ((c.ranks b.1).banks b.2).colAllowedAt (actTick p c b + p.tRCD) ≤ minColAt

instance (b : ℕ × ℕ) : Decidable (Seamless p c minColAt b) :=
  inferInstanceAs (Decidable (_ ≤ _))

/-- The activates of all banks fit in a `Tick`. -/
def TicksFit (p : DRAMParams) (c : Channel) : Prop := ∀ b, IsBank p b → actTick p c b ≤ maxTick

/-- A waiting bank that can issue in time, or else one with the earliest activate. -/
def Best (p : DRAMParams) (c : Channel) (queue : List DRAMPacket) (minColAt : ℕ)
    (banks : List (ℕ × ℕ)) (b : ℕ × ℕ) : Prop :=
  b ∈ banks ∧ c.Waits queue b ∧
    ((∃ b' ∈ banks, c.Waits queue b' ∧ Seamless p c minColAt b') → Seamless p c minColAt b) ∧
    ((¬ ∃ b' ∈ banks, c.Waits queue b' ∧ Seamless p c minColAt b') →
      ∀ b' ∈ banks, c.Waits queue b' → actTick p c b ≤ actTick p c b')

lemma gotWaiting_iff (hq : ∀ d ∈ queue, Addressed p d) (hb : IsBank p b) :
    c.gotWaiting queue (bankNumber p b) = true ↔ c.Waits queue b := by
  simp only [gotWaiting, any_eq_true, Bool.and_eq_true, beq_iff_eq, Waits]
  refine exists_congr fun d => and_congr_right fun hd => and_congr_right fun _ => ?_
  obtain ⟨hrank, hbank, hid⟩ := hq d hd
  constructor
  · intro h
    have hpair : (d.rank, d.bank) = b :=
      bankNumber_inj (p := p) ⟨hrank, hbank⟩ hb (by rw [← h, hid, bankNumber])
    exact ⟨congrArg Prod.fst hpair, congrArg Prod.snd hpair⟩
  · rintro ⟨h₁, h₂⟩
    rw [hid, h₁, h₂, bankNumber]

variable {banks : List (ℕ × ℕ)} {b b' : ℕ × ℕ}

lemma best_append_idle (hidle : ¬ c.Waits queue b) :
    Best p c queue minColAt (banks ++ [b]) b' ↔ Best p c queue minColAt banks b' := by
  simp only [Best, mem_append, mem_singleton]
  grind

lemma best_append_seamless (hwait : c.Waits queue b) (hs : Seamless p c minColAt b)
    (hsome : ∃ b' ∈ banks, c.Waits queue b' ∧ Seamless p c minColAt b') :
    Best p c queue minColAt (banks ++ [b]) b' ↔ Best p c queue minColAt banks b' ∨ b' = b := by
  simp only [Best, mem_append, mem_singleton]
  grind

lemma best_append_first (hwait : c.Waits queue b) (hs : Seamless p c minColAt b)
    (hnone : ¬ ∃ b' ∈ banks, c.Waits queue b' ∧ Seamless p c minColAt b') :
    Best p c queue minColAt (banks ++ [b]) b' ↔ b' = b := by
  simp only [Best, mem_append, mem_singleton]
  grind

lemma best_append_late (hs : ¬ Seamless p c minColAt b)
    (hsome : ∃ b' ∈ banks, c.Waits queue b' ∧ Seamless p c minColAt b') :
    Best p c queue minColAt (banks ++ [b]) b' ↔ Best p c queue minColAt banks b' := by
  simp only [Best, mem_append, mem_singleton]
  grind

/-- While no bank issues in time, an earlier activate replaces later ones. -/
lemma best_append_earliest (hwait : c.Waits queue b) (hs : ¬ Seamless p c minColAt b)
    (hnone : ¬ ∃ b' ∈ banks, c.Waits queue b' ∧ Seamless p c minColAt b')
    (hle : ∀ b' ∈ banks, c.Waits queue b' → actTick p c b ≤ actTick p c b') :
    Best p c queue minColAt (banks ++ [b]) b' ↔
      Best p c queue minColAt banks b' ∧ actTick p c b' = actTick p c b ∨ b' = b := by
  simp only [Best, mem_append, mem_singleton]
  grind

lemma best_append_later (hs : ¬ Seamless p c minColAt b)
    (hnone : ¬ ∃ b' ∈ banks, c.Waits queue b' ∧ Seamless p c minColAt b')
    (hlt : ∃ b' ∈ banks, c.Waits queue b' ∧ actTick p c b' < actTick p c b) :
    Best p c queue minColAt (banks ++ [b]) b' ↔ Best p c queue minColAt banks b' := by
  simp only [Best, mem_append, mem_singleton]
  grind

lemma exists_best (p : DRAMParams) (minColAt : ℕ) (h : ∃ b ∈ banks, c.Waits queue b) :
    ∃ b, Best p c queue minColAt banks b := by
  classical
  by_cases hs : ∃ b ∈ banks, c.Waits queue b ∧ Seamless p c minColAt b
  · obtain ⟨b, hb, hwait, hin⟩ := hs
    exact ⟨b, hb, hwait, fun _ => hin, fun hno => absurd ⟨b, hb, hwait, hin⟩ hno⟩
  · -- one with the least tick
    have hex : ∃ t, ∃ b ∈ banks, c.Waits queue b ∧ actTick p c b = t := by
      obtain ⟨b, hb, hwait⟩ := h
      exact ⟨_, b, hb, hwait, rfl⟩
    obtain ⟨b, hb, hwait, htick⟩ := Nat.find_spec hex
    refine ⟨b, hb, hwait, fun hsome => absurd hsome hs, fun _ b' hb' hwait' => ?_⟩
    rw [htick]
    exact Nat.find_min' hex ⟨b', hb', hwait', rfl⟩

/-! ### The pass over the banks -/

def hiddenActMax (p : DRAMParams) (c : Channel) (minColAt : ℕ) : ℕ := max (minColAt - p.tRCD) c.now

/-- What the pass knows of the banks passed. -/
structure Scanned (p : DRAMParams) (c : Channel) (queue : List DRAMPacket) (minColAt : ℕ)
    (banks : List (ℕ × ℕ)) (s : BankScan) : Prop where
  found : s.foundSeamlessBank = true ↔ ∃ b ∈ banks, c.Waits queue b ∧ Seamless p c minColAt b
  mask : ∀ n, s.bankMask.getLsbD n = true ↔
    ∃ b, Best p c queue minColAt banks b ∧ bankNumber p b = n
  min : s.foundSeamlessBank = false → ∀ b, Best p c queue minColAt banks b →
    actTick p c b = s.minActAt
  start : (¬ ∃ b ∈ banks, c.Waits queue b) → s.minActAt = maxTick
  hidden : s.hiddenBankPrep = true ↔ (∃ b, Best p c queue minColAt banks b) ∧
    ∀ b, Best p c queue minColAt banks b → actTick p c b ≤ hiddenActMax p c minColAt

lemma scanned_nil : Scanned p c queue minColAt [] ⟨0#64, maxTick, false, false⟩ := by
  constructor <;> simp [Best]

lemma Waits.available (h : c.Waits queue b) : (c.ranks b.1).isAvailable = true := by
  obtain ⟨d, -, havail, hrank, -⟩ := h
  rwa [hrank] at havail

lemma Seamless.actTick_le (h : Seamless p c minColAt b) :
    actTick p c b ≤ hiddenActMax p c minColAt := by
  have hact := (le_max_right _ _).trans h
  rw [hiddenActMax]
  omega

lemma getLsbD_or_bit {m : BitVec 64} {n k : ℕ} (hn : n < 64) :
    (m ||| 1#64 <<< n).getLsbD k = true ↔ m.getLsbD k = true ∨ k = n := by
  rw [BitVec.getLsbD_or, BitVec.getLsbD_shiftLeft, BitVec.getLsbD_one]
  simp only [Bool.or_eq_true, Bool.and_eq_true, decide_eq_true_eq, Bool.not_eq_true',
    decide_eq_false_iff_not]
  refine or_congr_right ⟨fun h => by omega, fun h => by omega⟩

/-- A round at a bank that packets wait for. -/
lemma minBankPrepStep_waits (hq : ∀ d ∈ queue, Addressed p d) (hb : IsBank p b)
    (hcol : p.tRCD ≤ minColAt) (hwait : c.Waits queue b) (s : BankScan) :
    c.minBankPrepStep p queue minColAt s b =
      if (decide (Seamless p c minColAt b) ||
        (!s.foundSeamlessBank && decide (actTick p c b ≤ s.minActAt))) = true then
        .ok
          { bankMask := (if (!s.foundSeamlessBank && (decide (Seamless p c minColAt b) ||
              decide (actTick p c b < s.minActAt))) = true then 0#64 else s.bankMask) |||
                1#64 <<< bankNumber p b
            minActAt := actTick p c b
            foundSeamlessBank := s.foundSeamlessBank || decide (Seamless p c minColAt b)
            hiddenBankPrep := decide (actTick p c b ≤ hiddenActMax p c minColAt) }
      else .ok s := by
  have hgot : c.gotWaiting queue (b.1 * p.banksPerRank + b.2) = true :=
    (gotWaiting_iff hq hb).mpr hwait
  have hmax : max (tickSub minColAt p.tRCD) c.now = hiddenActMax p c minColAt := by
    rw [tickSub_of_le hcol, hiddenActMax]
  rw [minBankPrepStep, ← hmax]
  simp only [hgot, hwait.available, Bool.not_true, Bool.false_eq_true, if_false]
  rfl

section Round

variable {s : BankScan} {found hidden : Bool}

lemma scanned_replace (hbest : ∀ b', Best p c queue minColAt (banks ++ [b]) b' ↔ b' = b)
    (h64 : bankNumber p b < 64)
    (hfound : found = true ↔ ∃ b' ∈ banks ++ [b], c.Waits queue b' ∧ Seamless p c minColAt b')
    (hhidden : hidden = true ↔ actTick p c b ≤ hiddenActMax p c minColAt) :
    Scanned p c queue minColAt (banks ++ [b])
      ⟨0#64 ||| 1#64 <<< bankNumber p b, actTick p c b, found, hidden⟩ := by
  have hb : Best p c queue minColAt (banks ++ [b]) b := (hbest b).mpr rfl
  refine ⟨hfound, fun n => ?_, fun _ b' hb' => by rw [(hbest b').mp hb'],
    fun hno => absurd ⟨b, hb.1, hb.2.1⟩ hno, ?_⟩
  ·     grind
  · grind

section

variable (h : Scanned p c queue minColAt banks s)

include h

/-- The bank joins the best ones. -/
lemma Scanned.join (hbest : ∀ b', Best p c queue minColAt (banks ++ [b]) b' ↔
      Best p c queue minColAt banks b' ∨ b' = b) (h64 : bankNumber p b < 64)
    (hfound : found = true ↔ ∃ b' ∈ banks ++ [b], c.Waits queue b' ∧ Seamless p c minColAt b')
    (hmin : found = false → ∀ b', Best p c queue minColAt banks b' → actTick p c b' = actTick p c b)
    (hhidden : hidden = true ↔ actTick p c b ≤ hiddenActMax p c minColAt)
    (hothers : actTick p c b ≤ hiddenActMax p c minColAt → ∀ b', Best p c queue minColAt banks b' →
      actTick p c b' ≤ hiddenActMax p c minColAt) :
    Scanned p c queue minColAt (banks ++ [b])
      ⟨s.bankMask ||| 1#64 <<< bankNumber p b, actTick p c b, found, hidden⟩ := by
  have hb : Best p c queue minColAt (banks ++ [b]) b := (hbest b).mpr (Or.inr rfl)
  refine ⟨hfound, fun n => ?_, fun hno b' hb' => ?_, fun hno => absurd ⟨b, hb.1, hb.2.1⟩ hno, ?_⟩
  · rw [getLsbD_or_bit h64, h.mask n]
    grind
  · rcases (hbest b').mp hb' with hb' | rfl
    · exact hmin hno b' hb'
    · rfl
  · simp only [hbest, hhidden]
    constructor
    · intro hle
      refine ⟨⟨b, Or.inr rfl⟩, ?_⟩
      rintro b' (hb' | rfl)
      · exact hothers hle b' hb'
      · exact hle
    · exact fun hall => hall.2 b (Or.inr rfl)

lemma Scanned.keep
    (hbest : ∀ b', Best p c queue minColAt (banks ++ [b]) b' ↔ Best p c queue minColAt banks b')
    (hin : c.Waits queue b → ¬ Seamless p c minColAt b) :
    Scanned p c queue minColAt (banks ++ [b]) s := by
  refine ⟨?_, by simpa only [hbest] using h.mask, by simpa only [hbest] using h.min,
    fun hno => h.start fun ⟨b', hb', hw⟩ => hno ⟨b', mem_append_left _ hb', hw⟩,
    by simpa only [hbest] using h.hidden⟩
  rw [h.found]
  grind

lemma Scanned.min_le (hfound : s.foundSeamlessBank = false) {b' : ℕ × ℕ} (hb' : b' ∈ banks)
    (hwait : c.Waits queue b') : s.minActAt ≤ actTick p c b' := by
  have hnone := mt h.found.mpr (by rw [hfound]; exact Bool.false_ne_true)
  obtain ⟨b₁, hb₁⟩ := exists_best p minColAt ⟨b', hb', hwait⟩
  rw [← h.min hfound b₁ hb₁]
  exact hb₁.2.2.2 hnone b' hb' hwait

/-- A round of the pass. -/
lemma Scanned.step (hq : ∀ d ∈ queue, Addressed p d) (hfit : TicksFit p c)
    (hcol : p.tRCD ≤ minColAt) (hb : IsBank p b) (h64 : bankNumber p b < 64) :
    ∃ s', c.minBankPrepStep p queue minColAt s b = .ok s' ∧
      Scanned p c queue minColAt (banks ++ [b]) s' := by
  by_cases hwait : c.Waits queue b
  · have hnone : s.foundSeamlessBank = false →
        ¬ ∃ b' ∈ banks, c.Waits queue b' ∧ Seamless p c minColAt b' := fun hfound =>
      mt h.found.mpr (by rw [hfound]; exact Bool.false_ne_true)
    rw [minBankPrepStep_waits hq hb hcol hwait s]
    by_cases hs : Seamless p c minColAt b
    · have hin : ∃ b' ∈ banks ++ [b], c.Waits queue b' ∧ Seamless p c minColAt b' :=
        ⟨b, by simp, hwait, hs⟩
      have hle := hs.actTick_le
      cases hfound : s.foundSeamlessBank with
      | true =>
        -- one more bank in time
        have hsome := h.found.mp hfound
        exact ⟨_, by simp [hs, hle], h.join (fun _ => best_append_seamless hwait hs hsome) h64
          (iff_of_true rfl hin) (fun hno => by cases hno) (iff_of_true rfl hle)
          fun _ b' hb' => (hb'.2.2.1 hsome).actTick_le⟩
      | false =>
        -- the first bank in time
        exact ⟨_, by simp [hs, hle], scanned_replace
          (fun _ => best_append_first hwait hs (hnone hfound)) h64
          (iff_of_true rfl hin) (iff_of_true rfl hle)⟩
    cases hfound : s.foundSeamlessBank with
    | true => exact ⟨s, by simp [hs], h.keep (fun _ => best_append_late hs (h.found.mp hfound))
        fun _ => hs⟩
    | false =>
      have hlate : ¬ ∃ b' ∈ banks ++ [b], c.Waits queue b' ∧ Seamless p c minColAt b' := by
        rintro ⟨b', hb', hw, hs'⟩
        rcases mem_snoc.mp hb' with hb' | rfl
        · exact hnone hfound ⟨b', hb', hw, hs'⟩
        · exact hs hs'
      rcases lt_trichotomy (actTick p c b) s.minActAt with hlt | heq | hgt
      · -- none in time, and a bank that is activated earlier than all before
        have hall : ∀ b' ∈ banks, c.Waits queue b' → actTick p c b < actTick p c b' :=
          fun b' hb' hw => lt_of_lt_of_le hlt (h.min_le hfound hb' hw)
        refine ⟨_, by simp [hs, hlt, hlt.le], scanned_replace (fun b' => ?_) h64
          (iff_of_false Bool.false_ne_true hlate) decide_eq_true_iff⟩
        rw [best_append_earliest hwait hs (hnone hfound) fun b' hb' hw => (hall b' hb' hw).le]
        refine or_iff_right ?_
        rintro ⟨hb', htick⟩
        exact absurd htick (hall b' hb'.1 hb'.2.1).ne'
      · -- none in time, and a bank that is activated as early as the best before
        have hsame : ∀ b', Best p c queue minColAt banks b' → actTick p c b' = actTick p c b :=
          fun b' hb' => by rw [heq, h.min hfound b' hb']
        refine ⟨_, by simp [hs, heq], h.join (fun b' => ?_) h64
          (iff_of_false Bool.false_ne_true hlate) (fun _ => hsame) decide_eq_true_iff
          fun hle b' hb' => (hsame b' hb').trans_le hle⟩
        rw [best_append_earliest hwait hs (hnone hfound) fun b' hb' hw =>
          heq.trans_le (h.min_le hfound hb' hw)]
        exact or_congr_left (and_iff_left_of_imp (hsame b'))
      · -- a bank that is passed over
        refine ⟨s, by simp [hs, not_le.mpr hgt],
          h.keep (fun b' => best_append_later hs (hnone hfound) ?_) fun _ => hs⟩
        by_contra hno
        -- before any bank waits the minimum is `MaxTick`
        have hidle : ¬ ∃ b' ∈ banks, c.Waits queue b' := by
          intro hex
          obtain ⟨b₁, hb₁⟩ := exists_best p minColAt hex
          exact hno ⟨b₁, hb₁.1, hb₁.2.1, by rw [h.min hfound b₁ hb₁]; exact hgt⟩
        have hmax := h.start hidle
        have hle := hfit b hb
        omega
  · have hgot : c.gotWaiting queue (b.1 * p.banksPerRank + b.2) = false :=
      Bool.eq_false_iff.mpr (mt (gotWaiting_iff hq hb).mp hwait)
    refine ⟨s, ?_, h.keep (fun _ => best_append_idle hwait) fun hw => absurd hw hwait⟩
    rw [minBankPrepStep]
    simp [hgot]

end

end Round

def allBanks (p : DRAMParams) : List (ℕ × ℕ) :=
  (List.range p.ranksPerChannel).flatMap fun i => (List.range p.banksPerRank).map fun j => (i, j)

lemma mem_allBanks : b ∈ allBanks p ↔ IsBank p b := by
  simp only [allBanks, mem_flatMap, mem_range, mem_map, IsBank]
  constructor
  · rintro ⟨i, hi, j, hj, rfl⟩
    exact ⟨hi, hj⟩
  · rintro ⟨hi, hj⟩
    exact ⟨b.1, hi, b.2, hj, rfl⟩

lemma minBankPrep_ok (hbanks : p.ranksPerChannel * p.banksPerRank ≤ 64)
    (hq : ∀ d ∈ queue, Addressed p d) (hfit : TicksFit p c) (hcol : p.tRCD ≤ minColAt) :
    ∃ s, c.minBankPrep p queue minColAt = .ok (s.bankMask, s.hiddenBankPrep) ∧
      Scanned p c queue minColAt (allBanks p) s := by
  obtain ⟨s, hok, hs⟩ := Fallible.foldlM_total (P := Scanned p c queue minColAt)
    (f := c.minBankPrepStep p queue minColAt) (l := allBanks p) (fun done b rest hall s hs => by
      have hb : IsBank p b := mem_allBanks.mp (by rw [hall]; simp)
      exact hs.step hq hfit hcol hb (lt_of_lt_of_le (bankNumber_lt hb) hbanks)) scanned_nil
  refine ⟨s, ?_, hs⟩
  rw [minBankPrep, ← allBanks, hok]
  rfl

/-- **What `minBankPrep` returns**: the mask is exactly the waiting banks that can issue their
column command by `minColAt` if there are such, and otherwise those with the earliest activate; the
flag says that it is not empty and all of it can be activated by `max(min_col_at - tRCD,
curTick())`. -/
theorem minBankPrep_best (p : DRAMParams) (c : Channel) (queue : List DRAMPacket) (minColAt : ℕ)
    (hbanks : p.ranksPerChannel * p.banksPerRank ≤ 64) (hq : ∀ d ∈ queue, Addressed p d)
    (hfit : TicksFit p c) (hcol : p.tRCD ≤ minColAt) :
    ∃ mask hidden, c.minBankPrep p queue minColAt = .ok (mask, hidden) ∧
      (∀ n, mask.getLsbD n = true → ∃ b, IsBank p b ∧ bankNumber p b = n) ∧
      ((∃ b, IsBank p b ∧ c.Waits queue b ∧ Seamless p c minColAt b) →
        ∀ b, IsBank p b → (mask.getLsbD (bankNumber p b) = true ↔
          c.Waits queue b ∧ Seamless p c minColAt b)) ∧
      ((¬ ∃ b, IsBank p b ∧ c.Waits queue b ∧ Seamless p c minColAt b) →
        ∀ b, IsBank p b → (mask.getLsbD (bankNumber p b) = true ↔ c.Waits queue b ∧
          ∀ b', IsBank p b' → c.Waits queue b' → actTick p c b ≤ actTick p c b')) ∧
      (hidden = true ↔ mask ≠ 0#64 ∧ ∀ b, IsBank p b → mask.getLsbD (bankNumber p b) = true →
        actTick p c b ≤ max (minColAt - p.tRCD) c.now) := by
  obtain ⟨s, hok, hs⟩ := minBankPrep_ok hbanks hq hfit hcol
  have hbit : ∀ b, IsBank p b → (s.bankMask.getLsbD (bankNumber p b) = true ↔
      Best p c queue minColAt (allBanks p) b) := by
    intro b hb
    rw [hs.mask]
    constructor
    · rintro ⟨b', hb', heq⟩
      rwa [← bankNumber_inj (mem_allBanks.mp hb'.1) hb heq]
    · exact fun hbest => ⟨b, hbest, rfl⟩
  refine ⟨s.bankMask, s.hiddenBankPrep, hok, fun n hn => ?_, fun hsome b hb => ?_,
    fun hnone b hb => ?_, ?_⟩
  · obtain ⟨b, hb, heq⟩ := (hs.mask n).mp hn
    exact ⟨b, mem_allBanks.mp hb.1, heq⟩
  · have hsome' : ∃ b ∈ allBanks p, c.Waits queue b ∧ Seamless p c minColAt b := by
      obtain ⟨b', hb', hw⟩ := hsome
      exact ⟨b', mem_allBanks.mpr hb', hw⟩
    rw [hbit b hb]
    exact ⟨fun hbest => ⟨hbest.2.1, hbest.2.2.1 hsome'⟩,
      fun hw => ⟨mem_allBanks.mpr hb, hw.1, fun _ => hw.2, fun hno => absurd hsome' hno⟩⟩
  · have hnone' : ¬ ∃ b ∈ allBanks p, c.Waits queue b ∧ Seamless p c minColAt b := by
      rintro ⟨b', hb', hw⟩
      exact hnone ⟨b', mem_allBanks.mp hb', hw⟩
    rw [hbit b hb]
    exact ⟨fun hbest => ⟨hbest.2.1, fun b' hb' => hbest.2.2.2 hnone' b' (mem_allBanks.mpr hb')⟩,
      fun hw => ⟨mem_allBanks.mpr hb, hw.1, fun hex => absurd hex hnone',
        fun _ b' hb' => hw.2 b' (mem_allBanks.mp hb')⟩⟩
  · have hempty : s.bankMask ≠ 0#64 ↔ ∃ b, Best p c queue minColAt (allBanks p) b := by
      constructor
      · intro hne
        by_contra hno
        refine hne (BitVec.eq_of_getLsbD_eq fun n _ => ?_)
        rw [BitVec.getLsbD_zero, Bool.eq_false_iff]
        intro hn
        obtain ⟨b, hb, -⟩ := (hs.mask n).mp hn
        exact hno ⟨b, hb⟩
      · rintro ⟨b, hb⟩ hzero
        have hn := (hbit b (mem_allBanks.mp hb.1)).mpr hb
        rw [hzero, BitVec.getLsbD_zero] at hn
        cases hn
    rw [hs.hidden, hempty, hiddenActMax]
    refine and_congr_right fun _ => ⟨fun hall b hb hn => hall b ((hbit b hb).mp hn),
      fun hall b hb => ?_⟩
    exact hall b (mem_allBanks.mp hb.1) ((hbit b (mem_allBanks.mp hb.1)).mpr hb)

/-- A channel at tick 100000, and two packets to different ranks. -/
def rested : Channel :=
  ⟨100000, .empty, fun _ => .init (.ddr3_1600_x64 .frfcfs), 100000, 0, 0, [], []⟩

def twoPackets : List DRAMPacket :=
  [{ pkt := 0, isRead := true, rank := 0, bank := 3, row := 1, bankId := 3, addr := 0, size := 64 },
    { pkt := 1, isRead := true, rank := 1, bank := 2, row := 5, bankId := 10, addr := 64,
      size := 64 }]

lemma addressed_twoPackets : ∀ d ∈ twoPackets, Addressed (.ddr3_1600_x64 .frfcfs) d := by
  intro d hd
  simp only [twoPackets, mem_cons, not_mem_nil, or_false] at hd
  rcases hd with rfl | rfl <;> exact ⟨by decide, by decide, rfl⟩

lemma ticksFit_rested : TicksFit (.ddr3_1600_x64 .frfcfs) rested := fun _ _ => by
  rw [actTick, show rested.actAt _ _ = 100000 from rfl, maxTick]
  norm_num

theorem minBankPrep_best_two :
    ∃ mask hidden, rested.minBankPrep (.ddr3_1600_x64 .frfcfs) twoPackets 113750 =
        .ok (mask, hidden) ∧
      (hidden = true ↔ mask ≠ 0#64 ∧ ∀ b, IsBank (.ddr3_1600_x64 .frfcfs) b →
        mask.getLsbD (bankNumber (.ddr3_1600_x64 .frfcfs) b) = true →
          actTick (.ddr3_1600_x64 .frfcfs) rested b ≤ max (113750 - 13750) 100000) := by
  obtain ⟨mask, hidden, hok, -, -, -, hhidden⟩ := minBankPrep_best (.ddr3_1600_x64 .frfcfs) rested
    twoPackets 113750 (by decide) addressed_twoPackets ticksFit_rested (by decide)
  exact ⟨mask, hidden, hok, hhidden⟩

/-! ### The pass over the queue -/

/-- What `scanQueue` knows of the packets passed: a flag is up only with one selected; before, those
to available ranks miss their row in a bank outside the mask. -/
structure Unfound (c : Channel) (mask : BitVec 64) (front : List DRAMPacket) (s : QueueScan) :
    Prop where
  flags : s.selected = none → s.foundHiddenBank = false ∧ s.foundPreppedPkt = false ∧
    s.foundEarliestPkt = false
  passed : s.selected = none → ∀ d ∈ front, (c.ranks d.rank).isAvailable = true →
    mask.getLsbD d.bankId = false

lemma unfound_of_selected {i : ℕ}
    (h : s.selected = some i) : Unfound c mask front s :=
  ⟨fun hnone => by simp [h] at hnone, fun hnone => by simp [h] at hnone⟩

lemma Unfound.append {d : DRAMPacket}
    (h : Unfound c mask front s)
    (hd : s.selected = none → (c.ranks d.rank).isAvailable = true → mask.getLsbD d.bankId = false) :
    Unfound c mask (front ++ [d]) s := by
  refine ⟨h.flags, fun hnone d' hd' => ?_⟩
  rcases mem_snoc.mp hd' with hd' | rfl
  · exact h.passed hnone d' hd'
  · exact hd hnone

/-- The rest of the pass succeeds and keeps the invariant. -/
lemma Unfound.scanQueue
    (h : Unfound c mask front s) (hidden : Bool) (minColAt : ℕ) (l : List DRAMPacket) :
    ∃ s', c.scanQueue (.ok (mask, hidden)) minColAt front.length l s = .ok s' ∧
      Unfound c mask (front ++ l) s' := by
  -- along the queue, with the packets already passed in `front`
  induction l generalizing front s with
  | nil => exact ⟨s, rfl, by rwa [append_nil]⟩
  | cons d l ih =>
    have hnext : ∀ {s : QueueScan}, Unfound c mask (front ++ [d]) s →
        ∃ s', c.scanQueue (.ok (mask, hidden)) minColAt (front.length + 1) l s = .ok s' ∧
          Unfound c mask (front ++ d :: l) s' := by
      intro s hs
      obtain ⟨s', hok, hs'⟩ := ih hs
      rw [length_append, length_singleton] at hok
      rw [append_assoc] at hs'
      exact ⟨s', hok, hs'⟩
    rw [Channel.scanQueue]
    by_cases hrank : (c.ranks d.rank).isAvailable = true
    · rw [if_neg (by simp [hrank])]
      by_cases hrow : ((c.ranks d.rank).banks d.bank).openRow = some d.row
      · rw [if_pos hrow]
        by_cases hcol : ((c.ranks d.rank).banks d.bank).colAllowedAt ≤ minColAt
        · rw [if_pos hcol]
          exact ⟨_, rfl, unfound_of_selected rfl⟩
        · rw [if_neg hcol]
          by_cases hprep : (!s.foundHiddenBank && !s.foundPreppedPkt) = true
          · rw [if_pos hprep]
            exact hnext (unfound_of_selected rfl)
          · -- a flag is up, so a packet is selected
            rw [if_neg hprep]
            refine hnext (h.append fun hnone => ?_)
            obtain ⟨h₁, h₂, -⟩ := h.flags hnone
            exact absurd (by simp [h₁, h₂]) hprep
      · rw [if_neg hrow]
        by_cases hearly : (!s.foundEarliestPkt) = true
        · rw [if_pos hearly]
          simp only [Except.bind]
          by_cases hbit : mask.getLsbD d.bankId = true
          · rw [if_pos hbit]
            refine hnext ⟨fun hnone => ?_, fun hnone => ?_⟩ <;>
            · -- without a selection now there was a prepped packet, and it was selected
              split_ifs at hnone with hsel
              obtain ⟨-, h₂, -⟩ := h.flags hnone
              exact absurd (by simp [h₂]) hsel
          · rw [if_neg hbit]
            exact hnext (h.append fun _ _ => Bool.eq_false_iff.mpr hbit)
        · rw [if_neg hearly]
          refine hnext (h.append fun hnone => ?_)
          obtain ⟨-, -, h₃⟩ := h.flags hnone
          exact absurd (by simp [h₃]) hearly
    · rw [if_pos (by simp [hrank])]
      exact hnext (h.append fun _ havail => absurd havail hrank)

section

variable (hbanks : p.ranksPerChannel * p.banksPerRank ≤ 64) (hq : ∀ d ∈ queue, Addressed p d)
  (hfit : TicksFit p c) (hcol : p.tRCD ≤ minColAt)

include hbanks hq hfit hcol

/-- The pass selects a packet if one is to an available rank. -/
lemma exists_scanQueue : ∃ s, c.scanQueue (c.minBankPrep p queue minColAt) minColAt 0 queue
      ⟨false, false, false, none⟩ = .ok s ∧ c.Selects queue s.selected ∧
    (s.selected = none → ∀ d ∈ queue, (c.ranks d.rank).isAvailable = false) := by
  obtain ⟨scan, hprep, hscan⟩ := minBankPrep_ok hbanks hq hfit hcol
  have hstart : Unfound c scan.bankMask [] ⟨false, false, false, none⟩ :=
    ⟨fun _ => ⟨rfl, rfl, rfl⟩, by simp⟩
  obtain ⟨s, hok, hs⟩ := hstart.scanQueue scan.hiddenBankPrep minColAt queue
  have hsel : c.Selects queue s.selected :=
    selects_scanQueue (nil_append queue).symm (fun i hi => by cases hi) hok
  rw [length_nil] at hok
  refine ⟨s, by rw [hprep, hok], hsel, fun hnone d hd => ?_⟩
  by_contra havail
  rw [Bool.not_eq_false] at havail
  -- the banks of the mask have packets, and one of them would have been selected
  have hbank : IsBank p (d.rank, d.bank) := ⟨(hq d hd).rank, (hq d hd).bank⟩
  obtain ⟨b, hb⟩ := exists_best p minColAt
    ⟨(d.rank, d.bank), mem_allBanks.mpr hbank, d, hd, havail, rfl, rfl⟩
  obtain ⟨d', hd', havail', hrank, hbank'⟩ := hb.2.1
  have hbit := (hscan.mask (bankNumber p b)).mpr ⟨b, hb, rfl⟩
  have hid : d'.bankId = bankNumber p b := by
    rw [(hq d' hd').bankId, hrank, hbank', bankNumber]
  rw [← hid, hs.passed hnone d' hd' havail'] at hbit
  cases hbit

end

/-- **`reorderQueue` finds a packet to an available rank if there is one**; it moves it to the
front, keeps the order of the others, and otherwise leaves the queue. -/
theorem reorderQueue_finds (p : DRAMParams) (c : Channel) (queue : List DRAMPacket) (extra : ℕ)
    (hbanks : p.ranksPerChannel * p.banksPerRank ≤ 64) (hq : ∀ d ∈ queue, Addressed p d)
    (hfit : TicksFit p c)
    (hcol : p.tRCD ≤ max (tickSub c.busBusyUntil p.tCL + extra) c.now) :
    ∃ found queue', c.reorderQueue p queue extra = .ok (found, queue') ∧
      (found = true ↔ ∃ d ∈ queue, (c.ranks d.rank).isAvailable = true) ∧
      (found = true → ∃ front d back, queue = front ++ d :: back ∧
        (c.ranks d.rank).isAvailable = true ∧ queue' = d :: (front ++ back)) ∧
      (found = false → queue' = queue) := by
  obtain ⟨s, hok, hsel, hnone⟩ := exists_scanQueue hbanks hq hfit hcol
  rw [reorderQueue, hok]
  cases hselected : s.selected with
  | some i =>
    obtain ⟨d, hd, havail⟩ := hsel i hselected
    obtain ⟨front, back, hsplit, hfront⟩ := exists_toFront hd
    refine ⟨true, toFront queue i, by simp [Except.map, hselected], ?_, ?_, by simp⟩
    · exact iff_of_true rfl ⟨d, mem_of_getElem? hd, havail⟩
    · exact fun _ => ⟨front, d, back, hsplit, havail, hfront⟩
  | none =>
    refine ⟨false, queue, by simp [Except.map, hselected], ?_, by simp, fun _ => rfl⟩
    refine iff_of_false Bool.false_ne_true ?_
    rintro ⟨d, hd, havail⟩
    rw [hnone hselected d hd] at havail
    cases havail

theorem reorderQueue_finds_two :
    ∃ queue', rested.reorderQueue (.ddr3_1600_x64 .frfcfs) twoPackets 13750 = .ok (true, queue') ∧
      ∃ front d back, twoPackets = front ++ d :: back ∧ queue' = d :: (front ++ back) := by
  obtain ⟨found, queue', hok, hiff, hfront, -⟩ := reorderQueue_finds (.ddr3_1600_x64 .frfcfs) rested
    twoPackets 13750 (by decide) addressed_twoPackets ticksFit_rested (by decide)
  obtain rfl : found = true := hiff.mpr ⟨_, mem_cons_self, rfl⟩
  obtain ⟨front, d, back, hsplit, -, hqueue⟩ := hfront rfl
  exact ⟨queue', hok, front, d, back, hsplit, hqueue⟩

/-- First come first served, or masks and ticks wide enough. -/
def SureToFind (p : DRAMParams) (c : Channel) : Prop :=
  p.memSchedPolicy = .fcfs ∨ p.ranksPerChannel * p.banksPerRank ≤ 64 ∧ TicksFit p c ∧
    p.tRCD ≤ max (tickSub c.busBusyUntil p.tCL) c.now

lemma chooseNext_finds {queue' : List DRAMPacket} {extra : ℕ} {found : Bool} {d : DRAMPacket}
    (hsure : SureToFind p c) (hq : ∀ d ∈ queue, DRAMCtrl.InRange p d) (hd : d ∈ queue)
    (havail : (c.ranks d.rank).isAvailable = true)
    (h : c.chooseNext p queue extra = .ok (found, queue')) : found = true := by
  unfold chooseNext at h
  split at h
  · cases hd
  · obtain rfl := mem_singleton.mp hd
    exact (Prod.mk.inj (Except.ok.inj h)).1.symm.trans havail
  · split at h
    · split at h
      · exact (Prod.mk.inj (Except.ok.inj h)).1.symm
      · next hnone =>
        exact absurd havail (Bool.not_eq_true _ ▸ findIdx?_eq_none_iff.mp hnone d hd)
    · next hpolicy =>
      obtain ⟨hbanks, hfit, hcol⟩ := hsure.resolve_left (by simp [hpolicy])
      obtain ⟨s, hok, -, hnone⟩ := exists_scanQueue hbanks
        (fun d hd => (hq d hd).addressed (by omega)) hfit
        (hcol.trans (max_le_max_right c.now (Nat.le_add_right _ extra)))
      rw [reorderQueue, hok] at h
      cases hselected : s.selected with
      | some i =>
        simp only [Except.map, hselected, Except.ok.injEq, Prod.mk.injEq] at h
        exact h.1.symm
      | none =>
        rw [hnone hselected d hd] at havail
        cases havail

end Channel

end ShifDram
