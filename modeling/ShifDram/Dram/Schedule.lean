import ShifDram.Dram.Device

/-!
The choice of the next burst (`DRAMCtrl::chooseNext`, `reorderQueue`, `minBankPrep`).

The chosen packet moves to the head of its queue. First come first served takes the first packet
to a rank that is not refreshing; first ready first come first served looks for seamless row hits,
then for banks that can be prepared behind the scenes, then for the banks to activate first.
-/

namespace ShifDram

open List

def maxTick : ℕ := 2 ^ 64 - 1

def toFront {α : Type*} (l : List α) (i : ℕ) : List α :=
  match l[i]? with
  | some x => x :: l.eraseIdx i
  | none => l

lemma exists_toFront {α : Type*} {l : List α} {i : ℕ} {x : α} (h : l[i]? = some x) :
    ∃ front back, l = front ++ x :: back ∧ toFront l i = x :: (front ++ back) := by
  obtain ⟨hi, hx⟩ := List.getElem?_eq_some_iff.mp h
  refine ⟨l.take i, l.drop (i + 1), ?_, ?_⟩
  · rw [← hx, List.getElem_cons_drop, List.take_append_drop]
  · rw [toFront, h, eraseIdx_eq_take_drop_succ]

namespace Channel

variable (p : DRAMParams)

/-- The running values of `minBankPrep`. -/
structure BankScan where
  bankMask : BitVec 64
  minActAt : ℕ
  foundSeamlessBank : Bool
  hiddenBankPrep : Bool

def gotWaiting (c : Channel) (queue : List DRAMPacket) (bankId : ℕ) : Bool :=
  queue.any fun d => (c.ranks d.rank).isAvailable && d.bankId == bankId

def actAt (c : Channel) (bank : Bank) : ℕ :=
  if bank.openRow = none then max bank.actAllowedAt c.now else max bank.preAllowedAt c.now + p.tRP

/-- The loop body of `minBankPrep`, at bank `j` of rank `i`. -/
def minBankPrepStep (c : Channel) (queue : List DRAMPacket) (minColAt : ℕ) (s : BankScan)
    (ij : ℕ × ℕ) : Except Abort BankScan :=
  let bankId := ij.1 * p.banksPerRank + ij.2
  if !c.gotWaiting queue bankId then .ok s
  else if !(c.ranks ij.1).isAvailable then .error .minBankBusy
  else
    let bank := (c.ranks ij.1).banks ij.2
    let actAt := c.actAt p bank
    let newSeamlessBank : Bool := max bank.colAllowedAt (actAt + p.tRCD) ≤ minColAt
    if newSeamlessBank || (!s.foundSeamlessBank && actAt ≤ s.minActAt) then
      let bankMask := if !s.foundSeamlessBank && (newSeamlessBank || actAt < s.minActAt) then 0#64
        else s.bankMask
      .ok
        { bankMask := bankMask ||| (1#64 <<< bankId)
          minActAt := actAt
          foundSeamlessBank := s.foundSeamlessBank || newSeamlessBank
          hiddenBankPrep := actAt ≤ max (tickSub minColAt p.tRCD) c.now }
    else .ok s

/-- `minBankPrep`: the banks to activate first, and whether that stays hidden. -/
def minBankPrep (c : Channel) (queue : List DRAMPacket) (minColAt : ℕ) :
    Except Abort (BitVec 64 × Bool) :=
  (((List.range p.ranksPerChannel).flatMap fun i =>
    (List.range p.banksPerRank).map fun j => (i, j)).foldlM
      (c.minBankPrepStep p queue minColAt) ⟨0#64, maxTick, false, false⟩).map
    fun s => (s.bankMask, s.hiddenBankPrep)

/-- The running values of `reorderQueue`. -/
structure QueueScan where
  foundHiddenBank : Bool
  foundPreppedPkt : Bool
  foundEarliestPkt : Bool
  selected : Option ℕ

/-- The loop of `reorderQueue` from `i` on; `bankStatus` is looked at when needed. -/
def scanQueue (c : Channel) (bankStatus : Except Abort (BitVec 64 × Bool)) (minColAt : ℕ) :
    ℕ → List DRAMPacket → QueueScan → Except Abort QueueScan
  | _, [], s => .ok s
  | i, d :: l, s =>
    let bank := (c.ranks d.rank).banks d.bank
    if !(c.ranks d.rank).isAvailable then scanQueue c bankStatus minColAt (i + 1) l s
    else if bank.openRow = some d.row then
      -- a seamless hit ends the search
      if bank.colAllowedAt ≤ minColAt then .ok { s with selected := some i }
      else if !s.foundHiddenBank && !s.foundPreppedPkt then
        scanQueue c bankStatus minColAt (i + 1) l
          { s with selected := some i, foundPreppedPkt := true }
      else scanQueue c bankStatus minColAt (i + 1) l s
    else if !s.foundEarliestPkt then
      bankStatus.bind fun (earliestBanks, hiddenBankPrep) =>
        if earliestBanks.getLsbD d.bankId then
          scanQueue c bankStatus minColAt (i + 1) l
            { s with
              foundEarliestPkt := true
              foundHiddenBank := hiddenBankPrep
              selected := if hiddenBankPrep || !s.foundPreppedPkt then some i else s.selected }
        else scanQueue c bankStatus minColAt (i + 1) l s
    else scanQueue c bankStatus minColAt (i + 1) l s

/-- `reorderQueue`: whether a packet was found, and the queue with it in front. -/
def reorderQueue (c : Channel) (queue : List DRAMPacket) (extraColDelay : ℕ) :
    Except Abort (Bool × List DRAMPacket) :=
  let minColAt := max (tickSub c.busBusyUntil p.tCL + extraColDelay) c.now
  (c.scanQueue (c.minBankPrep p queue minColAt) minColAt 0 queue
    ⟨false, false, false, none⟩).map fun s =>
      match s.selected with
      | some i => (true, toFront queue i)
      | none => (false, queue)

/-- `chooseNext`: whether a packet was found, and the queue with it in front. -/
def chooseNext (c : Channel) (queue : List DRAMPacket) (extraColDelay : ℕ) :
    Except Abort (Bool × List DRAMPacket) :=
  match queue with
  | [] => .error .emptyQueue
  | [d] => .ok ((c.ranks d.rank).isAvailable, queue)
  | _ =>
    match p.memSchedPolicy with
    | .fcfs =>
      match queue.findIdx? fun d => (c.ranks d.rank).isAvailable with
      | some i => .ok (true, toFront queue i)
      | none => .ok (false, queue)
    | .frfcfs => c.reorderQueue p queue extraColDelay

/-- A position is that of a packet to an available rank. -/
def Selects (c : Channel) (queue : List DRAMPacket) (selected : Option ℕ) : Prop :=
  ∀ i ∈ selected, ∃ d, queue[i]? = some d ∧ (c.ranks d.rank).isAvailable = true

variable {p} {c : Channel} {queue queue' : List DRAMPacket} {extra : ℕ} {found : Bool}

lemma selects_scanQueue {bankStatus : Except Abort (BitVec 64 × Bool)} {minColAt : ℕ}
    {front l : List DRAMPacket} {s s' : QueueScan} (hq : queue = front ++ l)
    (hs : c.Selects queue s.selected)
    (h : c.scanQueue bankStatus minColAt front.length l s = .ok s') :
    c.Selects queue s'.selected := by
  -- along the queue, with the packets already passed in `front`
  induction l generalizing front s with
  | nil =>
    cases h
    exact hs
  | cons d l ih =>
    have hnext : queue = (front ++ [d]) ++ l := by rw [hq]; simp
    have hstep : ∀ {s : QueueScan}, c.Selects queue s.selected →
        c.scanQueue bankStatus minColAt (front.length + 1) l s = .ok s' →
        c.Selects queue s'.selected := by
      intro s hs h
      refine ih hnext hs ?_
      rwa [length_append, length_singleton]
    rw [scanQueue] at h
    by_cases hrank : (c.ranks d.rank).isAvailable = true
    · have hhere : c.Selects queue (some front.length) := by
        intro i hi
        obtain rfl := Option.mem_some.mp hi
        exact ⟨d, by rw [hq]; simp, hrank⟩
      simp only [hrank, Bool.not_true, Bool.false_eq_true, if_false] at h
      split_ifs at h with hrow hcol hprep hearliest
      · cases h
        exact hhere
      · exact hstep hhere h
      · exact hstep hs h
      · cases bankStatus with
        | error e => cases h
        | ok status =>
          simp only [Except.bind] at h
          by_cases hbit : status.1.getLsbD d.bankId = true
          · rw [if_pos hbit] at h
            refine hstep ?_ h
            split_ifs
            · exact hhere
            · exact hs
          · rw [if_neg hbit] at h
            exact hstep hs h
      · exact hstep hs h
    · simp only [hrank, Bool.not_false, if_true] at h
      exact hstep hs h

/-- The queue stays, or a packet to an available rank moves to the front. -/
theorem chooseNext_eq_ok (h : c.chooseNext p queue extra = .ok (found, queue')) :
    (found = false ∧ queue' = queue) ∨
      found = true ∧ ∃ front d back, queue = front ++ d :: back ∧ queue' = d :: (front ++ back) ∧
        (c.ranks d.rank).isAvailable = true := by
  have hfront : ∀ {i : ℕ}, c.Selects queue (some i) → found = true → queue' = toFront queue i →
      found = true ∧ ∃ front d back, queue = front ++ d :: back ∧ queue' = d :: (front ++ back) ∧
        (c.ranks d.rank).isAvailable = true := by
    intro i hi hfound hqueue
    obtain ⟨d, hd, hrank⟩ := hi i rfl
    obtain ⟨front, back, hsplit, hto⟩ := exists_toFront hd
    exact ⟨hfound, front, d, back, hsplit, hqueue.trans hto, hrank⟩
  unfold chooseNext at h
  split at h
  · cases h
  · next d =>
    cases h
    cases hrank : (c.ranks d.rank).isAvailable with
    | false => exact Or.inl ⟨rfl, rfl⟩
    | true => exact Or.inr ⟨rfl, [], d, [], rfl, rfl, hrank⟩
  · split at h
    · split at h
      · next i hi =>
        cases h
        refine Or.inr (hfront (fun n hn => ?_) rfl rfl)
        obtain rfl := Option.mem_some.mp hn
        obtain ⟨hlt, hrank, -⟩ := findIdx?_eq_some_iff_getElem.mp hi
        exact ⟨_, List.getElem?_eq_getElem hlt, hrank⟩
      · cases h
        exact Or.inl ⟨rfl, rfl⟩
    · rw [reorderQueue] at h
      cases hscan : c.scanQueue _ _ 0 queue ⟨false, false, false, none⟩ with
      | error e =>
        rw [hscan] at h
        cases h
      | ok s =>
        rw [hscan] at h
        have hsel : c.Selects queue s.selected :=
          selects_scanQueue (nil_append queue).symm (fun i hi => by cases hi) hscan
        simp only [Except.map, Except.ok.injEq] at h
        split at h
        · next i hi =>
          cases h
          exact Or.inr (hfront (hi ▸ hsel) rfl rfl)
        · cases h
          exact Or.inl ⟨rfl, rfl⟩

end Channel

end ShifDram
