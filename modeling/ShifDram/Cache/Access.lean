import ShifDram.Cache.MshrQueue

/-!
The access path of a cache (`mem/cache/cache.cc`, `mem/cache/base.hh`).

The tags are a map from a block address and a security state to the valid block there, as those of
`BaseSetAssoc` are (`FALRU` is not modelled). The victim of a replacement is an input of `access`;
what `satisfyCpuSideRequest` does to the block is left to the run of the cache.

An uncacheable packet flushes what it names: an ordinary one its own block, a row op every block
of its three rows.
-/

namespace ShifDram

open List Option

/-- `CacheBlk`: state bits and data of a valid block. -/
structure CacheBlk where
  readable : Bool
  writable : Bool
  dirty : Bool
  data : List (BitVec 8)
  deriving DecidableEq, Repr

def Tags := ℕ → Bool → Option CacheBlk

def Tags.set (tags : Tags) (addr : ℕ) (secure : Bool) (blk : Option CacheBlk) : Tags :=
  fun a s => if a = addr ∧ s = secure then blk else tags a s

/-- `findVictim`: nothing, an invalid block or a valid one. -/
inductive Victim where
  | none
  | invalid
  | block (addr : ℕ) (secure : Bool)

/-- `Cache`: the block size is a power of two. -/
structure Cache where
  blkBits : ℕ
  doFastWrites : Bool
  tags : Tags
  mshrQueue : MSHRQueue
  writeBuffer : MSHRQueue
  order : ℕ

namespace Cache

def blkSize (c : Cache) : ℕ := 2 ^ c.blkBits

def blockAlign (c : Cache) (addr : ℕ) : ℕ := addr / c.blkSize * c.blkSize

def evictReq (c : Cache) (addr : ℕ) (secure : Bool) : Request :=
  ⟨0, some addr, c.blkSize, if secure then Request.secure else 0#32, 0, 0⟩

/-- `writebackBlk` for a dirty block, else `cleanEvictBlk`. -/
def evictBlk (c : Cache) (addr : ℕ) (secure : Bool) (blk : CacheBlk) : Packet :=
  { cmd := if blk.dirty then .writeback else .cleanEvict
    req := c.evictReq addr secure
    addr := addr
    size := c.blkSize
    memInhibit := false
    data := if blk.dirty then blk.data else []
    rowOp := ⟨.rowAnd, 0, 0, 0⟩
    shared := blk.dirty && !blk.writable }

/-- `writebackAddr`: the block at `addr` goes to the writebacks. -/
def writebackAddr (c : Cache) (addr : ℕ) (secure : Bool) (x : Tags × List Packet) :
    Tags × List Packet :=
  match x.1 (c.blockAlign addr) secure with
  | none => x
  | some blk => (x.1.set (c.blockAlign addr) secure none,
      x.2 ++ [c.evictBlk (c.blockAlign addr) secure blk])

def rowOffsets (c : Cache) : List ℕ :=
  (List.range ((rowSize + c.blkSize - 1) / c.blkSize)).map (· * c.blkSize)

/-- The flush of a row op's three rows, block by block. -/
def writebackRows (c : Cache) (p : RowOpPayload) (secure : Bool) (x : Tags × List Packet) :
    Tags × List Packet :=
  c.rowOffsets.foldl (fun x i =>
    c.writebackAddr (p.src2 + i) secure (c.writebackAddr (p.src1 + i) secure
      (c.writebackAddr (p.dest + i) secure x))) x

/-- `allocateBlock`: the tags without the victim, and its eviction. -/
def allocateBlock (c : Cache) : Victim → Option (Tags × List Packet)
  | .none => none
  | .invalid => some (c.tags, [])
  | .block addr secure =>
    match c.tags addr secure with
    | none => some (c.tags, [])
    | some blk =>
      -- an upgrade of the victim is outstanding
      if (c.mshrQueue.findMatch addr secure).isSome then none
      else some (c.tags.set addr secure none, [c.evictBlk addr secure blk])

/-- What `access` returns and leaves. -/
structure AccessResult where
  satisfied : Bool
  tags : Tags
  writebacks : List Packet

def writtenBlk (blk : CacheBlk) (pkt : Packet) : CacheBlk :=
  { blk with dirty := true, writable := blk.writable || !pkt.shared, data := pkt.data }

/-- The part of `access` for a writeback from above. -/
def accessWriteback (c : Cache) (pkt : Packet) (victim : Victim) : AccessResult :=
  match c.tags (c.blockAlign pkt.addr) pkt.isSecure with
  | some blk =>
    ⟨true, c.tags.set (c.blockAlign pkt.addr) pkt.isSecure (some (writtenBlk blk pkt)), []⟩
  | none =>
    match c.allocateBlock victim with
    | none => ⟨false, c.tags, []⟩
    | some x => ⟨true, x.1.set (c.blockAlign pkt.addr) pkt.isSecure
        (some (writtenBlk ⟨true, false, false, []⟩ pkt)), x.2⟩

def flush (c : Cache) (pkt : Packet) : Tags × List Packet :=
  if pkt.isRowOp then c.writebackRows pkt.rowOp pkt.isSecure (c.tags, [])
  else c.writebackAddr pkt.addr pkt.isSecure (c.tags, [])

def hits (c : Cache) (pkt : Packet) : Bool :=
  (c.tags (c.blockAlign pkt.addr) pkt.isSecure).any fun blk =>
    if pkt.needsExclusive then blk.writable else blk.readable

/-- Only a clean eviction from above may meet a writeback of its block. -/
def meetsWriteback (c : Cache) (pkt : Packet) : Bool :=
  match c.writeBuffer.findMatches pkt.addr pkt.isSecure with
  | [r] => pkt.cmd == .cleanEvict &&
      (c.writeBuffer.registers r).targets.list.head?.any fun t => t.pkt.cmd == .writeback
  | _ => false

/-- `access`; `none` is a failed assertion. -/
def access (c : Cache) (pkt : Packet) (victim : Victim) : Option AccessResult :=
  if pkt.req.isUncacheable then some ⟨false, (c.flush pkt).1, (c.flush pkt).2⟩
  else if pkt.evictingBlock && !(c.writeBuffer.findMatches pkt.addr pkt.isSecure).isEmpty then
    if c.meetsWriteback pkt then some ⟨true, c.tags, []⟩ else none
  else if pkt.cmd = .writeback then
    if pkt.size = c.blkSize then some (c.accessWriteback pkt victim) else none
  else if pkt.cmd = .cleanEvict then
    some ⟨(c.tags (c.blockAlign pkt.addr) pkt.isSecure).isSome, c.tags, []⟩
  else if c.hits pkt then some ⟨true, c.tags, []⟩
  else
    -- a store conditional that misses gives up
    some ⟨(c.tags (c.blockAlign pkt.addr) pkt.isSecure).isNone && pkt.isLLSC && pkt.isWrite,
      c.tags, []⟩

def IsEviction (c : Cache) (pkt : Packet) : Prop :=
  ∃ addr secure blk, pkt = c.evictBlk addr secure blk

lemma IsEviction.isRowOp {c : Cache} {pkt : Packet} (h : c.IsEviction pkt) :
    pkt.isRowOp = false := by
  obtain ⟨addr, secure, blk, rfl⟩ := h
  change ((if secure then Request.secure else 0#32) &&& Request.rowop != 0#32) = false
  cases secure <;> decide

variable {c : Cache} {x : Tags × List Packet} {victim : Victim}

lemma isEviction_writebackAddr {addr : ℕ} {secure : Bool} (h : ∀ pkt ∈ x.2, c.IsEviction pkt) :
    ∀ pkt ∈ (c.writebackAddr addr secure x).2, c.IsEviction pkt := by
  intro pkt hpkt
  rw [writebackAddr] at hpkt
  cases hblk : x.1 (c.blockAlign addr) secure with
  | none =>
    rw [hblk] at hpkt
    exact h pkt hpkt
  | some blk =>
    rw [hblk] at hpkt
    rcases mem_append.mp hpkt with hpkt | hpkt
    · exact h pkt hpkt
    · exact ⟨_, _, _, mem_singleton.mp hpkt⟩

lemma isEviction_flush (pkt : Packet) : ∀ x ∈ (c.flush pkt).2, c.IsEviction x := by
  have hnil : ∀ x ∈ (c.tags, ([] : List Packet)).2, c.IsEviction x :=
    fun x hx => absurd hx not_mem_nil
  rw [flush]
  split_ifs
  · -- the three rows are flushed block by block, from an empty list
    rw [writebackRows]
    generalize (c.tags, ([] : List Packet)) = x at hnil
    induction c.rowOffsets generalizing x with
    | nil => exact hnil
    | cons i l ih =>
      exact ih _ (isEviction_writebackAddr (isEviction_writebackAddr
        (isEviction_writebackAddr hnil)))
  · exact isEviction_writebackAddr hnil

lemma isEviction_allocateBlock
    (h : c.allocateBlock victim = some x) : ∀ pkt ∈ x.2, c.IsEviction pkt := by
  intro pkt hpkt
  cases victim with
  | none => cases h
  | invalid =>
    cases h
    exact absurd hpkt not_mem_nil
  | block addr secure =>
    rw [allocateBlock] at h
    cases hblk : c.tags addr secure with
    | none =>
      rw [hblk] at h
      cases h
      exact absurd hpkt not_mem_nil
    | some blk =>
      rw [hblk] at h
      split_ifs at h
      cases h
      exact ⟨_, _, _, mem_singleton.mp hpkt⟩

lemma isEviction_accessWriteback (pkt : Packet) (victim : Victim) :
    ∀ y ∈ (c.accessWriteback pkt victim).writebacks, c.IsEviction y := by
  intro y hy
  rw [accessWriteback] at hy
  cases hblk : c.tags (c.blockAlign pkt.addr) pkt.isSecure with
  | some blk =>
    rw [hblk] at hy
    exact absurd hy not_mem_nil
  | none =>
    rw [hblk] at hy
    cases hvictim : c.allocateBlock victim with
    | none =>
      rw [hvictim] at hy
      exact absurd hy not_mem_nil
    | some x =>
      rw [hvictim] at hy
      exact isEviction_allocateBlock hvictim y hy

/-- **Every writeback of `access`** is the eviction of a block. -/
lemma isEviction_access {pkt : Packet} {x : AccessResult}
    (h : c.access pkt victim = some x) : ∀ y ∈ x.writebacks, c.IsEviction y := by
  have hnil : ∀ {b : Bool} {y : Packet},
      y ∈ (AccessResult.mk b c.tags []).writebacks → c.IsEviction y :=
    fun hy => absurd hy not_mem_nil
  rw [access] at h
  split_ifs at h <;> obtain rfl := some.inj h
  · exact isEviction_flush pkt
  · exact fun _ => hnil
  · exact isEviction_accessWriteback pkt victim
  · exact fun _ => hnil
  · exact fun _ => hnil
  · exact fun _ => hnil

end Cache

end ShifDram
