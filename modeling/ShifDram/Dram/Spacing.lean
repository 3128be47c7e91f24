import ShifDram.Dram.Banks
import ShifDram.Queue.Window

/-!
How far apart the activates of a rank are.

`tRRD` and `tXAW` are enforced by pushing the `actAllowedAt` of every bank
forward, in `activateBank` and in `aapBank`; a refresh overwrites these times.
-/

namespace ShifDram

open List Option

/-- Timing under which refreshes and spaced activates go together. -/
structure DRAMParams.Regular (p : DRAMParams) : Prop where
  rcd : p.tRCD < p.tRAS
  rrd : p.tRRD ≤ p.tRAS
  rrdL : p.tRRD_L ≤ p.tRAS
  xaw : p.tXAW ≤ p.tRAS + p.tRP + (p.activationLimit - 1) * p.tRRD

lemma DRAMParams.Regular.actDelay_le {p : DRAMParams} (hp : p.Regular) (b i : ℕ) :
    p.actDelay b i ≤ p.tRAS := by
  rw [actDelay]
  split_ifs
  · exact hp.rrdL
  · exact hp.rrd

/-- A rank, its activates, newest first, and its activate and precharge events. -/
structure RankView where
  now : ℕ
  rank : Rank
  acts : List Activation
  act : Option ℕ
  pre : Option ℕ

namespace RankView

variable {p : DRAMParams} {v v' : RankView} {b t preAt row : ℕ} {k : Rank} {r : ℕ} {a : Activation}

def horizon (v : RankView) : ℕ := v.pre.getD v.now

def last (v : RankView) : ℕ := (v.acts.map Activation.tick).headD 0

def lastEnd (p : DRAMParams) (v : RankView) : ℕ :=
  (v.acts.map fun a => a.tick + p.tRAS + p.tRP).headD 0

/-- Successive activates are spaced; the window has the newest. -/
structure Recorded (p : DRAMParams) (v : RankView) : Prop where
  chain : v.acts.IsChain fun newer older =>
    older.tick + p.actDelay older.bank newer.bank ≤ newer.tick
  window : v.rank.actTicks = lastValues p.activationLimit (v.acts.map Activation.tick)

/-- Activates are spaced and hold back every bank; the newest's bank is open, or its precharge lies
before the horizon; the activate event is due by the newest. -/
structure Spaced (p : DRAMParams) (v : RankView) : Prop extends Recorded p v where
  delayed : ∀ a ∈ v.acts.head?, ∀ i,
    a.tick + p.actDelay a.bank i ≤ (v.rank.banks i).actAllowedAt
  held : ∀ i, v.rank.oldest ≠ 0 →
    v.rank.oldest + p.tXAW ≤ max (v.rank.banks i).actAllowedAt v.last
  busy : ∀ a ∈ v.acts.head?,
    (v.rank.banks a.bank).openRow ≠ none ∧ a.tick + p.tRAS ≤ (v.rank.banks a.bank).preAllowedAt ∨
      a.tick + p.tRAS + p.tRP ≤ v.horizon
  pending : ∀ x ∈ v.act, ∃ a ∈ v.acts.head?, x ≤ a.tick
  count : ∃ S : Finset ℕ, (∀ i, (v.rank.banks i).openRow ≠ none ↔ i ∈ S) ∧
    S.card = v.rank.numBanksActive

/-- No bank is held back beyond the horizon and the newest activate's end. -/
def Free (p : DRAMParams) (v : RankView) : Prop :=
  ∀ i, (v.rank.banks i).actAllowedAt ≤ max v.horizon (v.lastEnd p)

lemma Recorded.ticks (h : Recorded p v) :
    (v.acts.map Activation.tick).IsChain fun x y => y + p.tRRD ≤ x :=
  isChain_map_of_isChain Activation.tick
    (fun _ _ hle => (Nat.add_le_add_left (p.tRRD_le_actDelay _ _) _).trans hle) h.chain

/-- The tick to leave the window is a window's length of activates ago. -/
lemma Recorded.oldest_eq (h : Recorded p v) (hne : v.rank.oldest ≠ 0) : p.activationLimit ≠ 0 ∧
      (v.acts.map Activation.tick)[p.activationLimit - 1]? = some v.rank.oldest := by
  have hlimit : p.activationLimit ≠ 0 := by
    intro hzero
    refine hne ?_
    rw [Rank.oldest, h.window, hzero]
    rfl
  have hold := oldest_lastValues hlimit (v.acts.map Activation.tick)
  rw [← h.window] at hold
  change v.rank.oldest = _ at hold
  refine ⟨hlimit, ?_⟩
  rw [getD_eq_getElem?_getD] at hold
  cases hget : (v.acts.map Activation.tick)[p.activationLimit - 1]? with
  | none =>
    rw [hget] at hold
    exact absurd hold hne
  | some x =>
    rw [hold, hget]
    rfl

lemma Recorded.oldest_le (h : Recorded p v) (hne : v.rank.oldest ≠ 0) :
    ∃ a ∈ v.acts.head?, v.rank.oldest + (p.activationLimit - 1) * p.tRRD ≤ a.tick := by
  obtain ⟨-, hget⟩ := h.oldest_eq hne
  have hticks := h.ticks
  cases hacts : v.acts with
  | nil =>
    rw [hacts] at hget
    cases hget
  | cons a l =>
    rw [hacts] at hget hticks
    exact ⟨a, rfl, spread (i := 0) hticks rfl (by rwa [zero_add])⟩

lemma last_eq (ha : a ∈ v.acts.head?) : v.last = a.tick := by
  obtain ⟨l, hl⟩ := head?_eq_some_iff.mp ha
  rw [last, hl]
  rfl

lemma lastEnd_eq (ha : a ∈ v.acts.head?) : v.lastEnd p = a.tick + p.tRAS + p.tRP := by
  obtain ⟨l, hl⟩ := head?_eq_some_iff.mp ha
  rw [lastEnd, hl]
  rfl

lemma Recorded.windowEnd_le (hp : p.Regular) (h : Recorded p v) :
    v.rank.windowEnd p ≤ v.lastEnd p := by
  rw [Rank.windowEnd]
  split_ifs with hzero
  · exact Nat.zero_le _
  · obtain ⟨a, ha, hle⟩ := h.oldest_le hzero
    have hxaw := hp.xaw
    rw [lastEnd_eq ha]
    omega

/-- Banks held back for longer leave the spacing true. -/
structure Widened (k k' : Rank) : Prop where
  actTicks : k'.actTicks = k.actTicks
  active : k'.numBanksActive = k.numBanksActive
  openRow : ∀ i, (k'.banks i).openRow = (k.banks i).openRow
  pre : ∀ i, (k.banks i).preAllowedAt ≤ (k'.banks i).preAllowedAt
  act : ∀ i, (k.banks i).actAllowedAt ≤ (k'.banks i).actAllowedAt

/-- Other commands only put off what is allowed. -/
lemma Spaced.kept (h : Spaced p v) (hticks : v'.rank.actTicks = v.rank.actTicks)
    (hle : ∀ i, (v.rank.banks i).actAllowedAt ≤ (v'.rank.banks i).actAllowedAt)
    (hacts : v'.acts = v.acts) (hact : ∀ x ∈ v'.act, x ∈ v.act)
    (hbusy : ∀ a ∈ v.acts.head?, (v'.rank.banks a.bank).openRow ≠ none ∧
      a.tick + p.tRAS ≤ (v'.rank.banks a.bank).preAllowedAt ∨ a.tick + p.tRAS + p.tRP ≤ v'.horizon)
    (hcount : ∃ S : Finset ℕ, (∀ i, (v'.rank.banks i).openRow ≠ none ↔ i ∈ S) ∧
      S.card = v'.rank.numBanksActive) : Spaced p v' := by
  refine ⟨⟨hacts ▸ h.chain, by rw [hticks, hacts, h.window]⟩, ?_, fun i hne => ?_, hacts ▸ hbusy,
    fun x hx => hacts ▸ h.pending x (hact x hx), hcount⟩
  · exact hacts ▸ fun a ha i => (h.delayed a ha i).trans (hle i)
  · have holdest : v'.rank.oldest = v.rank.oldest := by rw [Rank.oldest, Rank.oldest, hticks]
    have hlast : v'.last = v.last := by rw [last, last, hacts]
    rw [holdest] at hne ⊢
    rw [hlast]
    exact (h.held i hne).trans (max_le_max_right _ (hle i))

lemma Spaced.widen (h : Spaced p v) (hrank : Widened v.rank v'.rank) (hacts : v'.acts = v.acts)
    (hact : ∀ x ∈ v'.act, x ∈ v.act) (hhorizon : v.horizon ≤ v'.horizon) : Spaced p v' := by
  refine h.kept hrank.actTicks hrank.act hacts hact (fun a ha => ?_) ?_
  · rw [hrank.openRow]
    exact (h.busy a ha).imp (fun hb => ⟨hb.1, hb.2.trans (hrank.pre _)⟩) (·.trans hhorizon)
  · obtain ⟨S, hopen, hcard⟩ := h.count
    refine ⟨S, fun i => ?_, hcard.trans hrank.active.symm⟩
    rw [hrank.openRow]
    exact hopen i

/-- **An activate** of a closed bank that allows it. -/
lemma Spaced.activate (h : Spaced p v) (hrank : Rank.Activated p v.rank b t preAt row v'.rank)
    (hpre : t + p.tRAS ≤ preAt) (hallowed : (v.rank.banks b).actAllowedAt ≤ t)
    (hacts : v'.acts = ⟨r, b, t⟩ :: v.acts) (hact : ∀ x ∈ v'.act, x ≤ t) : Spaced p v' := by
  have hlast : v'.last = t := by rw [last, hacts]; rfl
  have hrecorded : Recorded p v' := by
    refine ⟨?_, ?_⟩
    · rw [hacts]
      cases hold : v.acts with
      | nil => exact isChain_singleton _
      | cons a l =>
        refine isChain_cons_cons.mpr ⟨?_, hold ▸ h.chain⟩
        exact (h.delayed a (by rw [hold]; rfl) b).trans hallowed
    · rw [hrank.actTicks, h.window, lastValues_cons, hacts]
      rfl
  refine ⟨hrecorded, ?_, fun i hne => ?_, ?_, fun x hx => ?_, ?_⟩
  · rw [hacts]
    intro a ha i
    obtain rfl := mem_some_iff.mp ha
    exact hrank.delay_le_act i
  · rw [hlast]
    refine hrank.window_le_act i hne ?_
    obtain ⟨a, ha, hle⟩ := hrecorded.oldest_le hne
    rw [← last_eq ha, hlast] at hle
    omega
  · rw [hacts]
    intro a ha
    obtain rfl := mem_some_iff.mp ha
    refine Or.inl ⟨?_, ?_⟩
    · rw [hrank.openRow, if_pos rfl]
      exact some_ne_none _
    · rw [hrank.preAllowedAt, if_pos rfl]
      exact hpre
  · rw [hacts]
    exact ⟨_, rfl, hact x hx⟩
  · obtain ⟨S, hopen, hcard⟩ := h.count
    have hb : b ∉ S := fun hmem => (hopen b).mpr hmem hrank.closed
    refine ⟨insert b S, fun i => ?_, ?_⟩
    · rw [hrank.openRow, Finset.mem_insert]
      split_ifs with hi
      · simp [hi]
      · simp only [hi, false_or]
        exact hopen i
    · rw [Finset.card_insert_of_notMem hb, hcard, hrank.active]

lemma Free.activate (hp : p.Regular) (h : Free p v) (hspaced : Spaced p v)
    (hrank : Rank.Activated p v.rank b t preAt row v'.rank) (hrecorded : Recorded p v')
    (hallowed : (v.rank.banks b).actAllowedAt ≤ t)
    (hacts : v'.acts = ⟨r, b, t⟩ :: v.acts) (hhorizon : v.horizon ≤ v'.horizon) : Free p v' := by
  intro i
  have hend : v'.lastEnd p = t + p.tRAS + p.tRP := lastEnd_eq (a := ⟨r, b, t⟩) (by rw [hacts]; rfl)
  have hbefore : v.lastEnd p ≤ v'.lastEnd p := by
    cases hold : v.acts with
    | nil =>
      rw [lastEnd, hold]
      exact Nat.zero_le _
    | cons a l =>
      have ha : a ∈ v.acts.head? := by rw [hold]; rfl
      have hdelayed := hspaced.delayed a ha b
      rw [hend, lastEnd_eq ha]
      omega
  have hact := hrank.act_le i
  have hwindow := hrecorded.windowEnd_le hp
  have hdelay := hp.actDelay_le b i
  have hfree := h i
  omega

/-- **A precharge** of a bank that allows it, with its event due when done or later. -/
lemma Spaced.precharge (h : Spaced p v) (hrank : Rank.Precharged p v.rank b t v'.rank)
    (hallowed : (v.rank.banks b).preAllowedAt ≤ t) (hacts : v'.acts = v.acts)
    (hact : v'.act = v.act) (hhorizon : v.horizon ≤ v'.horizon) (hdone : t + p.tRP ≤ v'.horizon) :
    Spaced p v' := by
  have hle : ∀ i, (v.rank.banks i).actAllowedAt ≤ (v'.rank.banks i).actAllowedAt := by
    intro i
    rw [hrank.actAllowedAt]
    split_ifs
    · exact le_max_left _ _
    · exact le_rfl
  refine h.kept hrank.actTicks hle hacts (fun _ => by rw [hact]; exact id) (fun a ha => ?_) ?_
  · rcases h.busy a ha with ⟨hopen, hpre⟩ | hend
    · by_cases hb : a.bank = b
      · rw [hb] at hpre
        exact Or.inr (by omega)
      · rw [hrank.openRow, hrank.preAllowedAt, if_neg hb, if_neg hb]
        exact Or.inl ⟨hopen, hpre⟩
    · exact Or.inr (hend.trans hhorizon)
  · obtain ⟨S, hopen, hcard⟩ := h.count
    refine ⟨S.erase b, fun i => ?_, ?_⟩
    · rw [hrank.openRow, Finset.mem_erase]
      split_ifs with hi
      · simp [hi]
      · simp only [hi, ne_eq, not_false_eq_true, true_and]
        exact hopen i
    · rw [Finset.card_erase_of_mem ((hopen b).mp hrank.opened), hcard, hrank.active,
        Nat.add_sub_cancel]

lemma Free.precharge (h : Free p v) (hrank : Rank.Precharged p v.rank b t v'.rank)
    (hacts : v'.acts = v.acts) (hhorizon : v.horizon ≤ v'.horizon)
    (hdone : t + p.tRP ≤ v'.horizon) : Free p v' := by
  intro i
  have hfree := h i
  rw [hrank.actAllowedAt, lastEnd, hacts]
  change _ ≤ max _ (v.lastEnd p)
  split_ifs
  · omega
  · omega

lemma Spaced.closed (h : Spaced p v) (hzero : v.rank.numBanksActive = 0) (i : ℕ) :
    (v.rank.banks i).openRow = none := by
  obtain ⟨S, hopen, hcard⟩ := h.count
  rw [hzero, Finset.card_eq_zero] at hcard
  by_contra hne
  exact absurd ((hopen i).mp hne) (by simp [hcard])

lemma Spaced.lastEnd_le (h : Spaced p v) (hzero : v.rank.numBanksActive = 0) :
    v.lastEnd p ≤ v.horizon := by
  cases hacts : v.acts with
  | nil =>
    rw [lastEnd, hacts]
    exact Nat.zero_le _
  | cons a l =>
    have ha : a ∈ v.acts.head? := by rw [hacts]; rfl
    rw [lastEnd_eq ha]
    rcases h.busy a ha with ⟨hopen, -⟩ | hend
    · exact absurd (h.closed hzero _) hopen
    · exact hend

lemma Spaced.act_lt (hp : p.Regular) (h : Spaced p v) (hzero : v.rank.numBanksActive = 0) {x : ℕ}
    (hx : x ∈ v.act) : x < v.horizon := by
  obtain ⟨a, ha, hle⟩ := h.pending x hx
  have hend := h.lastEnd_le hzero
  have hrcd := hp.rcd
  rw [lastEnd_eq ha] at hend
  omega

/-- **A refresh** done no earlier than the newest activate's end. -/
lemma Spaced.refresh (hp : p.Regular) (h : Spaced p v) {T : ℕ} (hT : v.lastEnd p ≤ T) :
    Spaced p { v with rank := v.rank.mapBanks fun _ bank => { bank with actAllowedAt := T } } := by
  refine ⟨{ h with }, fun a ha i => ?_, fun i hne => ?_, h.busy, h.pending, h.count⟩
  · have ha' : a ∈ v.acts.head? := ha
    have hdelay := hp.actDelay_le a.bank i
    rw [lastEnd_eq ha'] at hT
    change a.tick + p.actDelay a.bank i ≤ T
    omega
  · have hne' : v.rank.oldest ≠ 0 := hne
    have hwindow := h.windowEnd_le hp
    rw [Rank.windowEnd, if_neg hne'] at hwindow
    change v.rank.oldest + p.tXAW ≤ max T v.last
    omega

/-- Activates a window's length apart are `tXAW` apart. -/
def Spanning (p : DRAMParams) (v : RankView) : Prop :=
  ∀ i x y, (v.acts.map Activation.tick)[i]? = some x →
    (v.acts.map Activation.tick)[i + p.activationLimit]? = some y → y + p.tXAW ≤ x

/-- An allowed activate is behind the newest and the end of a full window. -/
lemma Spaced.le_of_allowed (h : Spaced p v) (hallowed : (v.rank.banks b).actAllowedAt ≤ t) :
    v.last ≤ t ∧ (v.rank.oldest ≠ 0 → v.rank.oldest + p.tXAW ≤ t) := by
  have hlast : v.last ≤ t := by
    cases hacts : v.acts with
    | nil =>
      rw [last, hacts]
      exact Nat.zero_le _
    | cons a l =>
      have ha : a ∈ v.acts.head? := by rw [hacts]; rfl
      have hdelayed := h.delayed a ha b
      rw [last_eq ha]
      omega
  refine ⟨hlast, fun hne => ?_⟩
  have hheld := h.held b hne
  omega

/-- An activate of a rank with none at tick 0. -/
lemma Spanning.activate (h : Spanning p v) (hspaced : Spaced p v) (hlimit : p.activationLimit ≠ 0)
    (hpos : ∀ a ∈ v.acts, 0 < a.tick) (hallowed : (v.rank.banks b).actAllowedAt ≤ t)
    (hacts : v'.acts = ⟨r, b, t⟩ :: v.acts) : Spanning p v' := by
  intro i x y hx hy
  rw [hacts, map_cons] at hx hy
  cases i with
  | zero =>
    obtain rfl : t = x := some.inj hx
    -- the activate that the window has just lost
    have hy' : (v.acts.map Activation.tick)[p.activationLimit - 1]? = some y := by
      obtain ⟨n, hn⟩ := Nat.exists_eq_succ_of_ne_zero hlimit
      rw [hn, zero_add, getElem?_cons_succ] at hy
      rw [hn]
      exact hy
    have hold : v.rank.oldest = y := by
      rw [Rank.oldest, hspaced.window, oldest_lastValues hlimit, getD_eq_getElem?_getD, hy']
      rfl
    have hypos : 0 < y := by
      obtain ⟨a, ha, rfl⟩ := mem_map.mp (mem_of_getElem? hy')
      exact hpos a ha
    rw [← hold]
    exact (hspaced.le_of_allowed hallowed).2 (by omega)
  | succ i =>
    rw [Nat.add_right_comm, getElem?_cons_succ] at hy
    exact h i x y hx hy

end RankView

end ShifDram
