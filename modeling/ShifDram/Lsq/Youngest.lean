import ShifDram.Lsq.Safety

/-!
A load gets its data from the youngest older store that has any of it.

The interval tests of `LSQUnit::read` compare virtual addresses. If no frame
is mapped by two pages, two accesses share a physical byte exactly when their
virtual ranges meet.
-/

namespace ShifDram

open RingBuffer ProgramOrder List

/-! ### Physical bytes -/

namespace PageTable

def NoSharedFrame (pt : PageTable) : Prop :=
  ∀ v w a b, pt.address v = some a → pt.address w = some b → a / 4096 = b / 4096 →
    v / 4096 = w / 4096

lemma NoSharedFrame.inj {pt : PageTable} (h : pt.NoSharedFrame) {v w a : ℕ}
    (hv : pt.address v = some a) (hw : pt.address w = some a) : v = w := by
  have hpage := h v w a a hv hw rfl
  have hmod := (address_mod hv).symm.trans (address_mod hw)
  omega

/-- A physical byte of the access to `size` bytes at `vaddr`. -/
def Touches (pt : PageTable) (vaddr size b : ℕ) : Prop :=
  ∃ k < size, pt.address (vaddr + k) = some b

end PageTable

namespace SQEntry

variable {pt : PageTable} {e : SQEntry} {req : Request}

def Overlaps (pt : PageTable) (e : SQEntry) (req : Request) : Prop :=
  ∃ b, pt.Touches req.vaddr req.size b ∧ pt.Touches e.inst.effAddr e.size b

def Covers (pt : PageTable) (e : SQEntry) (req : Request) : Prop :=
  ∀ b, pt.Touches req.vaddr req.size b → pt.Touches e.inst.effAddr e.size b

/-- The byte `i` places into the data of the store. -/
def byte (e : SQEntry) (i : ℕ) : Option (BitVec 8) := if e.isAllZeros then some 0#8 else e.data[i]?

def Mapped (pt : PageTable) (req : Request) : Prop :=
  ∀ k < req.size, ∃ b, pt.address (req.vaddr + k) = some b

lemma overlaps_iff (hpt : pt.NoSharedFrame) (hmap : Mapped pt req) (hsize : 0 < req.size)
    (hstore : e.size ≠ 0) : Overlaps pt e req ↔
      e.inst.effAddr < req.vaddr + req.size ∧ req.vaddr < e.inst.effAddr + e.size := by
  constructor
  · rintro ⟨b, ⟨k, hk, hb⟩, m, hm, hb'⟩
    have := hpt.inj hb hb'
    omega
  · rintro ⟨hlow, hhigh⟩
    -- the first byte that both have
    have hk : max req.vaddr e.inst.effAddr - req.vaddr < req.size := by omega
    obtain ⟨b, hb⟩ := hmap _ hk
    have hv : req.vaddr + (max req.vaddr e.inst.effAddr - req.vaddr) =
        e.inst.effAddr + (max req.vaddr e.inst.effAddr - e.inst.effAddr) := by omega
    exact ⟨b, ⟨_, hk, hb⟩, _, by omega, hv ▸ hb⟩

lemma covers_iff (hpt : pt.NoSharedFrame) (hmap : Mapped pt req) (hsize : 0 < req.size) :
    Covers pt e req ↔
      e.inst.effAddr ≤ req.vaddr ∧ req.vaddr + req.size ≤ e.inst.effAddr + e.size := by
  constructor
  · intro h
    -- the first and the last byte
    obtain ⟨b, hb⟩ := hmap 0 hsize
    obtain ⟨m, hm, hb'⟩ := h b ⟨0, hsize, hb⟩
    have hfirst := hpt.inj hb hb'
    obtain ⟨c, hc⟩ := hmap (req.size - 1) (by omega)
    obtain ⟨n, hn, hc'⟩ := h c ⟨req.size - 1, by omega, hc⟩
    have hlast := hpt.inj hc hc'
    omega
  · rintro ⟨hlow, hhigh⟩ b ⟨k, hk, hb⟩
    refine ⟨req.vaddr + k - e.inst.effAddr, by omega, ?_⟩
    rwa [Nat.add_sub_cancel' (by omega)]

section Coverage

variable (hstore : e.size ≠ 0) (hordered : e.inst.isStrictlyOrdered = false)
  (hrow : (e.req.any fun r => r.isRowOp) = false)

include hstore hordered hrow

lemma coverage_eq : e.coverage req =
    if e.inst.effAddr ≤ req.vaddr ∧ req.vaddr + req.size ≤ e.inst.effAddr + e.size then .whole
    else if e.inst.effAddr ≤ req.vaddr ∧ req.vaddr < e.inst.effAddr + e.size ∨
        req.vaddr + req.size ≤ e.inst.effAddr + e.size ∧ e.inst.effAddr < req.vaddr + req.size ∨
        req.vaddr < e.inst.effAddr + e.size ∧ e.inst.effAddr < req.vaddr + req.size then .part
    else .nothing := by
  have hmeets : e.rowOpMeets req = false := by rw [rowOpMeets, hrow, Bool.false_and]
  simp only [coverage, hstore, hordered, hmeets, if_false, Bool.false_or, Bool.not_false,
    Bool.true_and, Bool.false_eq_true, Bool.and_eq_true, Bool.or_eq_true, decide_eq_true_eq,
    or_assoc]

lemma coverage_eq_whole_iff (hpt : pt.NoSharedFrame) (hmap : Mapped pt req)
    (hsize : 0 < req.size) : e.coverage req = .whole ↔ Covers pt e req := by
  rw [covers_iff hpt hmap hsize, coverage_eq hstore hordered hrow]
  split_ifs with h₁ h₂
  · exact iff_of_true rfl h₁
  · exact iff_of_false (by decide) h₁
  · exact iff_of_false (by decide) h₁

lemma coverage_eq_nothing_iff (hpt : pt.NoSharedFrame) (hmap : Mapped pt req)
    (hsize : 0 < req.size) : e.coverage req = .nothing ↔ ¬ Overlaps pt e req := by
  rw [overlaps_iff hpt hmap hsize hstore, coverage_eq hstore hordered hrow]
  split_ifs with h₁ h₂
  · exact iff_of_false (by decide) (by omega)
  · exact iff_of_false (by decide) (by omega)
  · exact iff_of_true rfl (by omega)

end Coverage

lemma getElem_forwarded (hlow : e.inst.effAddr ≤ req.vaddr) {k : ℕ} (hk : k < req.size) :
    (e.forwarded req)[k]? = e.byte (req.vaddr + k - e.inst.effAddr) := by
  rw [forwarded, byte]
  split_ifs
  · rw [getElem?_replicate, if_pos hk]
  · rw [getElem?_take_of_lt hk, getElem?_drop]
    congr 1
    omega

end SQEntry

/-! ### The walk -/

namespace LSQUnit

variable {s : LSQUnit} {a : ProgramOrder} {req : Request} {e : SQEntry}

/-- A store not to be missed: older, not sent, written. -/
structure Sees (s : LSQUnit) (ld : LsqInst) (e : SQEntry) : Prop where
  waiting : s.Waiting e
  older : e.inst.seqNum < ld.seqNum
  size : e.size ≠ 0
  ordered : e.inst.isStrictlyOrdered = false

structure Youngest (s : LSQUnit) (pt : PageTable) (ld : LsqInst) (req : Request) (e : SQEntry) :
    Prop where
  sees : s.Sees ld e
  overlaps : e.Overlaps pt req
  last : ∀ e', s.Sees ld e' → e'.Overlaps pt req → e'.inst.seqNum ≤ e.inst.seqNum

/-- The stores that `read` looks at for the load. -/
def visits (s : LSQUnit) (req : Request) (ld : LsqInst) : List SQEntry :=
  (ld.sqIdx.map (s.readVisits req s.sqEntries)).getD []

variable {pt : PageTable} {ld : LsqInst} {W : List SQEntry}

lemma youngest_of_split (hW : ∀ e, e ∈ W ↔ s.Waiting e ∧ e.inst.seqNum < ld.seqNum)
    (hsorted : W.Pairwise fun x y => x.inst.seqNum < y.inst.seqNum)
    (hcov : ∀ e ∈ W, e.coverage req = .nothing ↔ ¬ (s.Sees ld e ∧ e.Overlaps pt req))
    {U V : List SQEntry} (hsplit : W = U ++ e :: V)
    (hV : ∀ x ∈ V, x.coverage req = .nothing) (he : e.coverage req ≠ .nothing) :
    s.Youngest pt ld req e := by
  have hmem : e ∈ W := by rw [hsplit]; simp
  have hsees := not_not.mp fun h => he ((hcov e hmem).mpr h)
  refine ⟨hsees.1, hsees.2, fun e' he' hover => ?_⟩
  have hmem' : e' ∈ W := (hW e').mpr ⟨he'.waiting, he'.older⟩
  rw [hsplit, pairwise_append, pairwise_cons] at hsorted
  rw [hsplit] at hmem'
  rcases mem_append.mp hmem' with hU | hU
  · exact (hsorted.2.2 e' hU e mem_cons_self).le
  · rcases mem_cons.mp hU with rfl | hV'
    · exact le_rfl
    · exact absurd ⟨he', hover⟩ ((hcov e' ((hsplit ▸ mem_append_right _ hU))).mp (hV e' hV'))

/-- The bound on the walk makes no difference. -/
lemma readWalk_fuel (req : Request) {i fuel fuel' : ℕ}
    (h : Holds s.sqEntries s.storeQueue s.storeWBIdx i (W.map some)) (hfuel : W.length < fuel)
    (hfuel' : W.length < fuel') : s.readWalk req fuel i = s.readWalk req fuel' i := by
  obtain ⟨fuel, rfl⟩ : ∃ n, fuel = n + 1 := ⟨fuel - 1, by omega⟩
  obtain ⟨fuel', rfl⟩ : ∃ n, fuel' = n + 1 := ⟨fuel' - 1, by omega⟩
  induction W using reverseRecOn generalizing i fuel fuel' with
  | nil =>
    have hend : i = s.storeWBIdx := (h.head_eq_tail_iff.mpr rfl).symm
    rw [readWalk, readWalk, if_pos hend, if_pos hend]
  | append_singleton W x ih =>
    rw [length_append, length_singleton] at hfuel hfuel'
    obtain ⟨-, -, hrest, hstep, -⟩ := readWalk_succ req fuel h
    obtain ⟨-, -, -, hstep', -⟩ := readWalk_succ req fuel' h
    rw [hstep, hstep']
    obtain ⟨fuel, rfl⟩ : ∃ n, fuel = n + 1 := ⟨fuel - 1, by omega⟩
    obtain ⟨fuel', rfl⟩ : ∃ n, fuel' = n + 1 := ⟨fuel' - 1, by omega⟩
    rw [ih hrest fuel (by omega) fuel' (by omega)]

/-- The tests find nothing in a store the load does not see, or with none of its bytes. -/
lemma coverage_eq_nothing_iff_sees (hpt : pt.NoSharedFrame) (hmap : SQEntry.Mapped pt req)
    (hsize : 0 < req.size) (hrow : (e.req.any fun r => r.isRowOp) = false)
    (hwaiting : s.Waiting e) (hlt : e.inst.seqNum < ld.seqNum) :
    e.coverage req = .nothing ↔ ¬ (s.Sees ld e ∧ e.Overlaps pt req) := by
  by_cases hzero : e.size = 0
  · exact iff_of_true (by rw [SQEntry.coverage, if_pos hzero]) fun h => h.1.size hzero
  by_cases hstrict : e.inst.isStrictlyOrdered = true
  · refine iff_of_true (by rw [SQEntry.coverage, if_neg hzero, if_pos hstrict]) fun h => ?_
    cases hstrict.symm.trans h.1.ordered
  · have hstrict : e.inst.isStrictlyOrdered = false := by simpa using hstrict
    rw [SQEntry.coverage_eq_nothing_iff hzero hstrict hrow hpt hmap hsize]
    exact not_congr ⟨fun hover => ⟨⟨hwaiting, hlt, hzero, hstrict⟩, hover⟩, And.right⟩

lemma exists_read_of_walk {loadIdx : ℕ} (hslot : s.loadQueue loadIdx = some ld)
    (hordered : req.isStrictlyOrdered = false) (hipr : req.isMmappedIpr = false)
    (low high : Option Request) :
    ∃ x, s.read req low high loadIdx = some x ∧
      x.2 = (ld.sqIdx.bind (s.readWalk req s.sqEntries)).getD
        (.access (low.getD req) (if low.isSome then high else none)) ∧
      ∀ j, x.2 = .stall j → x.1.stalled = true := by
  obtain ⟨s', hread, hstall⟩ := exists_read req hslot low high
  have hout : s.readOutcome req low high loadIdx ld =
      (ld.sqIdx.bind (s.readWalk req s.sqEntries)).getD
        (.access (low.getD req) (if low.isSome then high else none)) := by
    rw [readOutcome, hordered, Bool.false_and, if_neg Bool.false_ne_true, hipr,
      if_neg Bool.false_ne_true]
    cases ld.sqIdx.bind (s.readWalk req s.sqEntries) <;> rfl
  exact ⟨_, hread, hout, hstall⟩

/-- `read` sends the load to the cache if no older waiting store has a byte of it; forwards from the
youngest that has, if that covers it; or stalls. -/
def Decides (s : LSQUnit) (pt : PageTable) (ld : LsqInst) (req : Request)
    (low high : Option Request) (x : LSQUnit × ReadOutcome) : Prop :=
  (∀ e, s.Sees ld e → ¬ e.Overlaps pt req) ∧
      x.2 = .access (low.getD req) (if low.isSome then high else none) ∨
    ∃ (j : ℕ) (e : SQEntry), s.storeQueue j = some e ∧ s.Youngest pt ld req e ∧
      (e.Covers pt req ∧ x.2 = .forward j (e.forwarded req) ∧
          (∀ k < req.size, (e.forwarded req)[k]? = e.byte (req.vaddr + k - e.inst.effAddr)) ∨
        ¬ e.Covers pt req ∧ x.2 = .stall j ∧ x.1.stalled = true)

/-- The walk over the older waiting stores, youngest first, up to the one that decides. -/
structure WalksOver (s : LSQUnit) (pt : PageTable) (ld : LsqInst) (req : Request)
    (older : List SQEntry) : Prop where
  mem : ∀ e, e ∈ older ↔ s.Waiting e ∧ e.inst.seqNum < ld.seqNum
  sorted : older.Pairwise fun x y => y.inst.seqNum < x.inst.seqNum
  visits : s.visits req ld <+: older
  length : (s.visits req ld).length ≤ s.sqEntries
  all : (∀ e, s.Sees ld e → ¬ e.Overlaps pt req) → s.visits req ld = older
  bound : ∀ n, s.sqEntries ≤ n →
    ld.sqIdx.bind (s.readWalk req n) = ld.sqIdx.bind (s.readWalk req s.sqEntries)

lemma Decides.not_missed {low high : Option Request} {x : LSQUnit × ReadOutcome}
    (h : s.Decides pt ld req low high x) {b : ℕ} {e' : SQEntry}
    (hb : pt.Touches req.vaddr req.size b) (he' : s.Sees ld e')
    (hb' : pt.Touches e'.inst.effAddr e'.size b) :
    (∃ j, x.2 = .stall j) ∨ ∃ (j : ℕ) (e : SQEntry), x.2 = .forward j (e.forwarded req) ∧
      pt.Touches e.inst.effAddr e.size b ∧ e'.inst.seqNum ≤ e.inst.seqNum := by
  rcases h with ⟨hno, -⟩ | ⟨j, e, -, hyoung, ⟨hcovers, hout, -⟩ | ⟨-, hout, -⟩⟩
  · exact absurd ⟨b, hb, hb'⟩ (hno e' he')
  · exact .inr ⟨j, e, hout, hcovers b hb, hyoung.last e' he' ⟨b, hb, hb'⟩⟩
  · exact .inl ⟨j, hout⟩

section Walk

variable (hW : ∀ e, e ∈ W ↔ s.Waiting e ∧ e.inst.seqNum < ld.seqNum)
  (hsorted : W.Pairwise fun x y => x.inst.seqNum < y.inst.seqNum) (hlen : W.length < s.sqEntries)
  (hcov : ∀ e ∈ W, e.coverage req = .nothing ↔ ¬ (s.Sees ld e ∧ e.Overlaps pt req))
  (hwalk : (∃ i, ld.sqIdx = some i ∧
      Holds s.sqEntries s.storeQueue s.storeWBIdx i (W.map some)) ∨ ld.sqIdx = none ∧ W = [])

include hW hsorted hlen hcov hwalk

/-- Nothing is found, or the youngest store with a byte decides. -/
lemma walk_cases : ((∀ e, s.Sees ld e → ¬ e.Overlaps pt req) ∧
        ld.sqIdx.bind (s.readWalk req s.sqEntries) = none ∧ s.visits req ld = W.reverse) ∨
      ∃ (j : ℕ) (e : SQEntry), s.storeQueue j = some e ∧ e ∈ W ∧ s.Youngest pt ld req e ∧
        ld.sqIdx.bind (s.readWalk req s.sqEntries) = some (e.outcome req j) ∧
        s.visits req ld <+: W.reverse := by
  have hnone : (∀ e ∈ W, e.coverage req = .nothing) →
      ∀ e, s.Sees ld e → ¬ e.Overlaps pt req := fun hall e he hover => by
    have hmem := (hW e).mpr ⟨he.waiting, he.older⟩
    exact (hcov e hmem).mp (hall e hmem) ⟨he, hover⟩
  rcases hwalk with ⟨i, hidx, hheld⟩ | ⟨hidx, hnil⟩
  · rw [visits, hidx, Option.bind_some, Option.map_some, Option.getD_some]
    rcases readWalk_cases req hheld hlen with ⟨hall, hfound, hvis⟩ |
        ⟨U, e, V, hsplit, hV, he, hget, hfound, hvis⟩
    · exact .inl ⟨hnone hall, hfound, hvis⟩
    · refine .inr ⟨_, e, hget, by rw [hsplit]; simp,
        youngest_of_split hW hsorted hcov hsplit hV he, hfound, ?_⟩
      rw [hvis, hsplit, reverse_append]
      exact prefix_append _ _
  · rw [visits, hidx, hnil]
    exact .inl ⟨hnone (by simp [hnil]), rfl, rfl⟩

lemma walksOver : s.WalksOver pt ld req W.reverse := by
  have hcases := walk_cases hW hsorted hlen hcov hwalk
  have hvisits : s.visits req ld <+: W.reverse := by
    rcases hcases with ⟨-, -, hvis⟩ | ⟨j, e, -, -, -, -, hvis⟩
    · rw [hvis]
    · exact hvis
  refine ⟨fun e => by rw [mem_reverse, hW], pairwise_reverse.mpr hsorted, hvisits,
    hvisits.length_le.trans (by rw [length_reverse]; exact hlen.le), fun hno => ?_,
    fun n hn => ?_⟩
  · rcases hcases with ⟨-, -, hvis⟩ | ⟨j, e, -, -, hyoung, -⟩
    · exact hvis
    · exact absurd hyoung.overlaps (hno e hyoung.sees)
  · rcases hwalk with ⟨i, hidx, hheld⟩ | ⟨hidx, -⟩
    · rw [hidx]
      exact readWalk_fuel req hheld (hlen.trans_le hn) hlen
    · rw [hidx]
      rfl

end Walk

end LSQUnit

namespace Pipeline

variable {r : Pipeline} {ld : LsqInst} {req : Request} {pt : PageTable}

/-- **`read` in every reachable state** without row ops, for an uncommitted load, if no two pages
have one frame. -/
theorem read_youngest (h : Reachable (fun _ => True) r) {loadIdx : ℕ}
    (hld : r.port.InLoadQueue ld) (hslot : r.port.loadQueue loadIdx = some ld)
    (hdone : r.doneSeqNum < ld.seqNum)
    (hrow : ∀ e, r.port.InStoreQueue e → (e.req.any fun q => q.isRowOp) = false)
    (hordered : req.isStrictlyOrdered = false) (hipr : req.isMmappedIpr = false)
    (hsize : 0 < req.size) (hmap : SQEntry.Mapped pt req) (hpt : pt.NoSharedFrame)
    (low high : Option Request) :
    ∃ x, r.port.read req low high loadIdx = some x ∧ r.port.Decides pt ld req low high x ∧
      (∀ b e', pt.Touches req.vaddr req.size b → r.port.Sees ld e' →
        pt.Touches e'.inst.effAddr e'.size b → (∃ j, x.2 = .stall j) ∨
          ∃ (j : ℕ) (e : SQEntry), x.2 = .forward j (e.forwarded req) ∧
            pt.Touches e.inst.effAddr e.size b ∧ e'.inst.seqNum ≤ e.inst.seqNum) ∧
      ∃ older, r.port.WalksOver pt ld req older := by
  obtain ⟨a, -, hinv, hadone⟩ := h.good
  obtain ⟨W, hW, hsorted, hlen, hopen, hwalk⟩ := hinv.tracks.exists_walk hld (hadone.trans_lt hdone)
  have hrowW : ∀ e ∈ W, (e.req.any fun q => q.isRowOp) = false := fun e he => hrow e (hopen e he).2
  have hcov : ∀ e ∈ W, e.coverage req = .nothing ↔
      ¬ (r.port.Sees ld e ∧ e.Overlaps pt req) := fun e he =>
    LSQUnit.coverage_eq_nothing_iff_sees hpt hmap hsize (hrowW e he) ((hW e).mp he).1
      ((hW e).mp he).2
  obtain ⟨x, hread, hout, hstall⟩ := LSQUnit.exists_read_of_walk hslot hordered hipr low high
  have hdecides : r.port.Decides pt ld req low high x := by
    rcases LSQUnit.walk_cases hW hsorted hlen hcov hwalk with ⟨hno, hfound, -⟩ |
        ⟨j, e, hj, he, hyoung, hfound, -⟩
    · rw [hfound] at hout
      exact .inl ⟨hno, hout⟩
    · have hwhole := SQEntry.coverage_eq_whole_iff hyoung.sees.size hyoung.sees.ordered
        (hrowW e he) hpt hmap hsize
      rw [hfound, Option.getD_some, SQEntry.outcome, (hopen e he).1] at hout
      refine .inr ⟨j, e, hj, hyoung, ?_⟩
      by_cases hcovers : e.Covers pt req
      · rw [if_pos (hwhole.mpr hcovers)] at hout
        have hlow := ((SQEntry.covers_iff hpt hmap hsize).mp hcovers).1
        exact .inl ⟨hcovers, hout, fun k hk => SQEntry.getElem_forwarded hlow hk⟩
      · rw [if_neg (hwhole.not.mpr hcovers), if_neg Bool.false_ne_true] at hout
        exact .inr ⟨hcovers, hout, hstall j hout⟩
  exact ⟨x, hread, hdecides, fun b e' hb he' hb' => hdecides.not_missed hb he' hb', _,
    LSQUnit.walksOver hW hsorted hlen hcov hwalk⟩

def fourBytesLoad : LsqInst := oneStore.placeLoad (.dispatched 2 true)

def eightBytesAcc : StoreAcc :=
  .ofWriteMem (executedAt 0 0 0 false)
    ⟨eightBytes 64 0x10040, none, none, List.replicate 8 7#8, ⟨.rowAnd, 0, 0, 0⟩⟩

def storeExecuted : Pipeline :=
  ⟨(onePort none).setUnit (((oneStore.insertLoad (.dispatched 2 true)).getD oneStore).afterStore
    onlyStore eightBytesAcc), 0, 2⟩

def fourBytes : Request := { eightBytes 66 0x10042 with size := 4 }

lemma reachable_storeExecuted : Reachable (fun _ => True) storeExecuted := by
  have h₁ : Reachable (fun _ => True) ⟨(onePort none).setUnit oneStore, 0, 1⟩ :=
    .step (.init (by decide) (by decide) trivial)
      (@Step.insertStore _ (.dispatched 1 false) _ Nat.one_pos rfl)
  have h₂ : Reachable (fun _ => True)
      ⟨(onePort none).setUnit ((oneStore.insertLoad (.dispatched 2 true)).getD oneStore), 0, 2⟩ :=
    .step h₁ (@Step.insertLoad _ (.dispatched 2 true) _ Nat.one_lt_two rfl)
  exact .step h₂ (@Step.executeStore _ onlyStore eightBytesAcc _ ⟨0, Nat.one_pos, rfl⟩
    (fun hcond => by cases hcond) rfl)

lemma noSharedFrame_upSixteen : PageTable.upSixteen.NoSharedFrame := by
  intro v w a b hv hw hab
  rw [PageTable.address_upSixteen, Option.some.injEq] at hv hw
  omega

theorem read_youngest_fourBytes : ∃ x, storeExecuted.port.read fourBytes none none 0 = some x ∧
      storeExecuted.port.Decides .upSixteen fourBytesLoad fourBytes none none x ∧
      (∀ b e', PageTable.upSixteen.Touches 66 4 b → storeExecuted.port.Sees fourBytesLoad e' →
        PageTable.upSixteen.Touches e'.inst.effAddr e'.size b → (∃ j, x.2 = .stall j) ∨
          ∃ (j : ℕ) (e : SQEntry), x.2 = .forward j (e.forwarded fourBytes) ∧
            PageTable.upSixteen.Touches e.inst.effAddr e.size b ∧
            e'.inst.seqNum ≤ e.inst.seqNum) ∧
      ∃ older, storeExecuted.port.WalksOver .upSixteen fourBytesLoad fourBytes older :=
  read_youngest reachable_storeExecuted ⟨0, Nat.one_pos, rfl⟩ rfl (by decide) (by
      rintro e ⟨k, hk, hget⟩
      obtain rfl : k = 0 := Nat.lt_one_iff.mp hk
      cases hget
      decide)
    (by decide) (by decide) (by decide) (fun k _ => ⟨_, PageTable.address_upSixteen _⟩)
    noSharedFrame_upSixteen none none

end Pipeline

end ShifDram
