import ShifDram.Cache.MshrQueue

/-!
Arrival order in the buffers of a cache.

Seen from its memory side a cache is a list of writes in sending order, some misses, and the next
arrival number. A row op is one of the writes; it reads and writes whole rows under the block
address of its payload.
-/

namespace ShifDram

open List

def Packet.payload (pkt : Packet) : Option RowOpPayload :=
  if pkt.isRowOp then some pkt.rowOp else none

namespace MSHR

def rowOp (m : MSHR) : Option RowOpPayload := m.targets.list.head?.bind fun t => t.pkt.payload

def isWriteback (m : MSHR) : Bool := m.targets.list.head?.any fun t => t.pkt.cmd == .writeback

lemma IsFresh.rowOp {m : MSHR} {blk whenReady n : ℕ} {pkt : Packet}
    (h : m.IsFresh blk pkt whenReady n) : m.rowOp = pkt.payload := by
  have hpkts := h.pkts
  rw [MSHR.rowOp]
  cases hlist : m.targets.list with
  | nil => simp [hlist] at hpkts
  | cons t l =>
    rw [hlist, map_cons, cons_eq_cons] at hpkts
    rw [head?_cons, Option.bind_some, hpkts.1]

end MSHR

/-- The block at `blk` has a byte in the row at `row`. -/
def MeetsRow (blkSize row blk : ℕ) : Prop := blk < row + rowSize ∧ row < blk + blkSize

instance (blkSize row blk : ℕ) : Decidable (MeetsRow blkSize row blk) :=
  inferInstanceAs (Decidable (_ ∧ _))

/-- The block at `blk` has a byte in a row of the row op. -/
def MeetsRows (blkSize : ℕ) (p : RowOpPayload) (blk : ℕ) : Prop :=
  MeetsRow blkSize p.dest blk ∨ (p.op.usesSrc1 = true ∧ MeetsRow blkSize p.src1 blk) ∨
    (p.op.usesSrc2 = true ∧ MeetsRow blkSize p.src2 blk)

instance (blkSize : ℕ) (p : RowOpPayload) (blk : ℕ) : Decidable (MeetsRows blkSize p blk) :=
  inferInstanceAs (Decidable (_ ∨ _ ∨ _))

/-- `x` may be sent before `y`: no row op before an older writeback of its rows, no write to the
destination row before an older row op. -/
structure MayPrecede (blkSize : ℕ) (x y : MSHR) : Prop where
  rows : ∀ p, x.rowOp = some p → y.isWriteback = true → MeetsRows blkSize p y.blkAddr →
    x.order < y.order
  dest : ∀ p, y.rowOp = some p → MeetsRow blkSize p.dest x.blkAddr → x.order < y.order

/-- A cache's writes in sending order, its misses, and the next arrival number. -/
structure Arrivals where
  blkSize : ℕ
  writes : List MSHR
  misses : List MSHR
  next : ℕ

namespace Arrivals

/-- The row op of payload `p` waits in the entry `w`. -/
def Waits (b : Arrivals) (w : MSHR) (p : RowOpPayload) : Prop := w ∈ b.writes ∧ w.rowOp = some p

/-- All arrivals of `m` are on one side of the arrival `n`. -/
def OneSide (m : MSHR) (n : ℕ) : Prop := (∀ o ∈ m.stamps, o < n) ∨ ∀ o ∈ m.stamps, n < o

structure Ordered (b : Arrivals) : Prop where
  inTime : Timed.InTime MSHR.readyTime b.writes
  writes_lt : ∀ w ∈ b.writes, w.order < b.next
  misses_lt : ∀ m ∈ b.misses, ∀ o ∈ m.stamps, o < b.next
  pairs : b.writes.Pairwise (MayPrecede b.blkSize)
  oneSide : ∀ w p, b.Waits w p → ∀ m ∈ b.misses, MeetsRow b.blkSize p.dest m.blkAddr →
    OneSide m w.order

variable {b : Arrivals} {blk time : ℕ} {pkt : Packet}

lemma OneSide.follows {m m' : MSHR} {n : ℕ} (h : OneSide m n) (hm : m.Follows m') :
    OneSide m' n := by
  rcases h with h | h
  · exact .inl fun o ho => h o (hm.stamps o ho)
  · exact .inr fun o ho => h o (hm.stamps o ho)

lemma Ordered.shrink (h : b.Ordered) {writes misses : List MSHR} {next : ℕ}
    (hwrites : writes.Sublist b.writes) (hmisses : ∀ m ∈ misses, ∃ m₀ ∈ b.misses, m₀.Follows m)
    (hnext : b.next ≤ next) : Ordered ⟨b.blkSize, writes, misses, next⟩ := by
  refine ⟨h.inTime.sublist hwrites, fun w hw => (h.writes_lt w (hwrites.subset hw)).trans_le hnext,
    fun m hm o ho => ?_, h.pairs.sublist hwrites, fun w p hw m hm hmeets => ?_⟩
  · obtain ⟨m₀, hm₀, hfollows⟩ := hmisses m hm
    exact (h.misses_lt m₀ hm₀ o (hfollows.stamps o ho)).trans_le hnext
  · obtain ⟨m₀, hm₀, hfollows⟩ := hmisses m hm
    exact (h.oneSide w p ⟨hwrites.subset hw.1, hw.2⟩ m₀ hm₀ (hfollows.blkAddr ▸ hmeets)).follows
      hfollows

/-- A write to `blk`, ready at `time`, keeps the order: not before a waiting row op to its row, and
as a row op not before a waiting writeback of its rows. -/
structure WriteInOrder (b : Arrivals) (blk : ℕ) (pkt : Packet) (time : ℕ) : Prop where
  dest : ∀ w p, b.Waits w p → MeetsRow b.blkSize p.dest blk → w.readyTime ≤ time
  rows : ∀ p, pkt.payload = some p → ∀ x ∈ b.writes, x.isWriteback = true →
    MeetsRows b.blkSize p x.blkAddr → x.readyTime ≤ time

instance (blk : ℕ) (pkt : Packet) (time : ℕ) : Decidable (b.WriteInOrder blk pkt time) :=
  decidable_of_iff
    ((∀ w ∈ b.writes, ∀ p ∈ w.rowOp, MeetsRow b.blkSize p.dest blk → w.readyTime ≤ time) ∧
      ∀ p ∈ pkt.payload, ∀ x ∈ b.writes, x.isWriteback = true →
        MeetsRows b.blkSize p x.blkAddr → x.readyTime ≤ time)
    ⟨fun h => ⟨fun w p hw => h.1 w hw.1 p hw.2, h.2⟩,
      fun h => ⟨fun w hw p hp => h.dest w p ⟨hw, hp⟩, h.rows⟩⟩

lemma WriteInOrder.mono {b' : Arrivals}
    (h : b.WriteInOrder blk pkt time) (hsize : b'.blkSize = b.blkSize)
    (hwrites : b'.writes ⊆ b.writes) : b'.WriteInOrder blk pkt time :=
  ⟨fun w p hw hmeets => h.dest w p ⟨hwrites hw.1, hw.2⟩ (hsize ▸ hmeets),
    fun p hp x hx hx' hmeets => h.rows p hp x (hwrites hx) hx' (hsize ▸ hmeets)⟩

lemma WriteInOrder.insert {blk blk' time n : ℕ} {pkt pkt' : Packet} {a : MSHR}
    (h : b.WriteInOrder blk pkt time) (ha : a.IsFresh blk' pkt' time n) (misses : List MSHR)
    (next : ℕ) :
    WriteInOrder
      ⟨b.blkSize, Timed.insert MSHR.readyTime a b.writes, misses, next⟩ blk pkt time := by
  refine ⟨fun w p hw hmeets => ?_, fun p hp x hx hx' hmeets => ?_⟩
  · rcases Timed.mem_insert.mp hw.1 with rfl | hw'
    · exact ha.readyTime.le
    · exact h.dest w p ⟨hw', hw.2⟩ hmeets
  · rcases Timed.mem_insert.mp hx with rfl | hx
    · exact ha.readyTime.le
    · exact h.rows p hp x hx hx' hmeets

/-- A new write takes its place. -/
lemma Ordered.write (h : b.Ordered) {a : MSHR}
    (ha : a.IsFresh blk pkt time b.next) (hb : b.WriteInOrder blk pkt time) :
    Ordered ⟨b.blkSize, Timed.insert MSHR.readyTime a b.writes, b.misses, b.next + 1⟩ := by
  refine ⟨h.inTime.insert a, fun w hw => ?_,
    fun m hm o ho => Nat.lt_succ_of_lt (h.misses_lt m hm o ho),
    ?_, fun w p hw m hm hmeets => ?_⟩
  · rcases Timed.mem_insert.mp hw with rfl | hw
    · rw [ha.order]
      exact Nat.lt_succ_self _
    · exact Nat.lt_succ_of_lt (h.writes_lt w hw)
  · -- the new entry is the youngest, so only what stays behind it matters
    refine Timed.pairwise_insert h.inTime h.pairs (fun x hx _ => ?_) fun x hx hlt => ?_
    · have hlt : x.order < a.order := ha.order ▸ h.writes_lt x hx
      exact ⟨fun _ _ _ _ => hlt, fun _ _ _ => hlt⟩
    · rw [ha.readyTime] at hlt
      refine ⟨fun p hp hx' hmeets => ?_, fun p hp hmeets => ?_⟩
      · exact absurd (hb.rows p (ha.rowOp ▸ hp) x hx hx' hmeets) (not_le.mpr hlt)
      · exact absurd (hb.dest x p ⟨hx, hp⟩ (ha.blkAddr ▸ hmeets)) (not_le.mpr hlt)
  · rcases Timed.mem_insert.mp hw.1 with rfl | hw'
    · exact .inl fun o ho => ha.order ▸ h.misses_lt m hm o ho
    · exact h.oneSide w p ⟨hw', hw.2⟩ m hm hmeets

lemma Ordered.miss (h : b.Ordered) {m : MSHR} (hm : m.IsFresh blk pkt time b.next) :
    Ordered ⟨b.blkSize, b.writes, b.misses ++ [m], b.next + 1⟩ := by
  refine ⟨h.inTime, fun w hw => Nat.lt_succ_of_lt (h.writes_lt w hw), fun x hx o ho => ?_, h.pairs,
    fun w p hw x hx hmeets => ?_⟩
  · rcases mem_snoc.mp hx with hx | rfl
    · exact Nat.lt_succ_of_lt (h.misses_lt x hx o ho)
    · rw [hm.stamps o ho]
      exact Nat.lt_succ_self _
  · rcases mem_snoc.mp hx with hx | rfl
    · exact h.oneSide w p hw x hx hmeets
    · refine .inr fun o ho => ?_
      rw [hm.stamps o ho]
      exact h.writes_lt w hw.1

/-- The miss is younger than every waiting row op to its row. -/
def CoalesceInOrder (b : Arrivals) (m : MSHR) : Prop :=
  ∀ w p, b.Waits w p → MeetsRow b.blkSize p.dest m.blkAddr → w.order < m.order

instance (m : MSHR) : Decidable (b.CoalesceInOrder m) :=
  decidable_of_iff
    (∀ w ∈ b.writes, ∀ p ∈ w.rowOp, MeetsRow b.blkSize p.dest m.blkAddr → w.order < m.order)
    ⟨fun h w p hw => h w hw.1 p hw.2, fun h w hw p hp => h w p ⟨hw, hp⟩⟩

/-- A request joins a miss. -/
lemma Ordered.coalesce (h : b.Ordered) {m : MSHR} (hm : m ∈ b.misses) (hb : b.CoalesceInOrder m)
    {misses : List MSHR}
    (hmisses : ∀ m' ∈ misses, m' ∈ b.misses ∨
      (m'.blkAddr = m.blkAddr ∧ ∀ o ∈ m'.stamps, o = b.next ∨ o ∈ m.stamps)) :
    Ordered ⟨b.blkSize, b.writes, misses, b.next + 1⟩ := by
  refine ⟨h.inTime, fun w hw => Nat.lt_succ_of_lt (h.writes_lt w hw), fun x hx o ho => ?_, h.pairs,
    fun w p hw x hx hmeets => ?_⟩
  · rcases hmisses x hx with hx | ⟨-, hstamps⟩
    · exact Nat.lt_succ_of_lt (h.misses_lt x hx o ho)
    · rcases hstamps o ho with rfl | ho
      · exact Nat.lt_succ_self _
      · exact Nat.lt_succ_of_lt (h.misses_lt m hm o ho)
  · rcases hmisses x hx with hx | ⟨hblk, hstamps⟩
    · exact h.oneSide w p hw x hx hmeets
    · rw [hblk] at hmeets
      have hself : m.order ∈ m.stamps := mem_cons_self
      have hlt := hb w p hw hmeets
      refine .inr fun o ho => ?_
      rcases hstamps o ho with rfl | ho
      · exact h.writes_lt w hw.1
      · -- its own number is on the later side, so all of its numbers are
        rcases h.oneSide w p hw m hm hmeets with hside | hside
        · exact absurd (hside _ hself) hlt.asymm
        · exact hside o ho

end Arrivals

end ShifDram
