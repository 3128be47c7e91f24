import ShifDram.Cache.Flush
import ShifDram.Cache.RowOrder
import ShifDram.Mem.Locked

/-!
Functional reads (`Cache::functionalAccess`, `Packet::checkFunctional`).

A read looks at the block in the tags, the responses on their way to the CPU, the targets of the
misses, the write buffer and the packets of the memory-side port, and goes on to memory unless one
has satisfied it. The first packet that covers it gives the answer; a row op is such a packet, of
the 32 bytes of its payload at address `0`.
-/

namespace ShifDram

open List

variable {a k : ℕ}

def MemCmd.hasData : MemCmd → Bool
  | readResp | readRespWithInvalidate | writeReq | writeback | softPFResp | hardPFResp
  | writeLineReq | upgradeFailResp | readExResp | storeCondReq | storeCondFailReq | swapReq
  | swapResp | messageReq => true
  | _ => false

/-- `getPtr<uint8_t>()[k]`, a byte of a packet's data. -/
def Packet.byte (pkt : Packet) (k : ℕ) : BitVec 8 :=
  if pkt.isRowOp then pkt.rowOp.byte k else pkt.data.getD k 0#8

def CacheBlk.byte (blk : CacheBlk) (k : ℕ) : BitVec 8 := blk.data.getD k 0#8

/-! ### The check -/

/-- An interval to check a read against, and its data if any. -/
structure Piece where
  addr : ℕ
  size : ℕ
  secure : Bool
  data : Option (ℕ → BitVec 8)

/-- The bytes given so far; `bytesValid` is empty until it is used. -/
structure FuncRead where
  addr : ℕ
  size : ℕ
  secure : Bool
  data : ℕ → Option (BitVec 8)
  bytesValid : Option (ℕ → Bool)

namespace FuncRead

def start (addr size : ℕ) (secure : Bool) : FuncRead := ⟨addr, size, secure, fun _ => none, none⟩

/-- `val_offset`, `func_offset`, `overlap_size` of a partial overlap. -/
def overlap (r : FuncRead) (x : Piece) : ℕ × ℕ × ℕ :=
  let funcEnd := r.addr + r.size - 1
  let valEnd := x.addr + x.size - 1
  if x.addr < r.addr ∧ valEnd ≤ funcEnd then (r.addr - x.addr, 0, valEnd - r.addr)
  else if r.addr ≤ x.addr ∧ funcEnd < valEnd then (0, x.addr - r.addr, funcEnd - x.addr)
  else (0, x.addr - r.addr, x.size)

/-- Nothing for the read is in the piece, by the last addresses. -/
def Misses (r : FuncRead) (x : Piece) : Prop :=
  x.secure ≠ r.secure ∨ x.addr + x.size ≤ r.addr ∨ r.addr + r.size ≤ x.addr

instance (r : FuncRead) (x : Piece) : Decidable (r.Misses x) := inferInstanceAs (Decidable (_ ∨ _))

def Covered (r : FuncRead) (x : Piece) : Prop := x.addr ≤ r.addr ∧ r.addr + r.size ≤ x.addr + x.size

instance (r : FuncRead) (x : Piece) : Decidable (r.Covered x) := inferInstanceAs (Decidable (_ ∧ _))

def copied (r : FuncRead) (x : Piece) (k : ℕ) : Bool :=
  decide ((r.overlap x).2.1 ≤ k) && decide (k < (r.overlap x).2.1 + (r.overlap x).2.2)

def fill (r : FuncRead) (x : Piece) (d : ℕ → BitVec 8) : FuncRead :=
  { r with
    data := fun k => if r.copied x k then
      some (d ((r.overlap x).1 + (k - (r.overlap x).2.1))) else r.data k
    bytesValid := some fun k => r.copied x k || r.bytesValid.getD (fun _ => false) k }

/-- `checkFunctional` of a read: the read, and if it is satisfied. -/
def checkFunctional (r : FuncRead) (x : Piece) : FuncRead × Bool :=
  if r.Misses x then (r, false)
  else
    match x.data with
    | none => (r, false)
    | some d =>
      if r.Covered x then
        ({ r with
          data := fun k => some (d (r.addr - x.addr + k))
          bytesValid := some (r.bytesValid.getD fun _ => true) }, true)
      else
        (r.fill x d, (List.range r.size).all fun k =>
          r.copied x k || r.bytesValid.getD (fun _ => false) k)

/-- The read is checked against pieces until one satisfies it. -/
def checkAll (r : FuncRead) : List Piece → FuncRead × Bool
  | [] => (r, false)
  | x :: l => if (r.checkFunctional x).2 then r.checkFunctional x
      else (r.checkFunctional x).1.checkAll l

variable {r : FuncRead} {x : Piece}

lemma checkFunctional_of_misses (h : x.data.isSome = true → r.Misses x) :
    r.checkFunctional x = (r, false) := by
  by_cases hmiss : r.Misses x
  · rw [checkFunctional, if_pos hmiss]
  · rw [checkFunctional, if_neg hmiss]
    cases hdata : x.data with
    | none => rfl
    | some d => exact absurd (h (by rw [hdata]; rfl)) hmiss

lemma checkFunctional_of_covered {d : ℕ → BitVec 8} (hmiss : ¬ r.Misses x) (hdata : x.data = some d)
    (hcover : r.Covered x) : r.checkFunctional x = ({ r with
      data := fun k => some (d (r.addr - x.addr + k))
      bytesValid := some (r.bytesValid.getD fun _ => true) }, true) := by
  rw [checkFunctional, if_neg hmiss, hdata]
  exact if_pos hcover

/-- **Pieces that cover the read or miss it**, with the same bytes: it gets them, or all miss it. -/
lemma checkAll_of_covered {f : ℕ → BitVec 8} {l : List Piece}
    (h : ∀ x ∈ l, ∀ d, x.data = some d → ¬ r.Misses x →
      r.Covered x ∧ ∀ k < r.size, d (r.addr - x.addr + k) = f k) :
    ((r.checkAll l).2 = true ∧ ∀ k < r.size, (r.checkAll l).1.data k = some (f k)) ∨
      ((r.checkAll l).2 = false ∧ ∀ x ∈ l, x.data.isSome = true → r.Misses x) := by
  induction l with
  | nil => exact Or.inr ⟨rfl, fun x hx => by cases hx⟩
  | cons x l ih =>
    rw [checkAll]
    by_cases hmiss : x.data.isSome = true → r.Misses x
    · rw [checkFunctional_of_misses hmiss]
      refine (ih fun y hy => h y (mem_cons_of_mem x hy)).imp_right fun hrest => ?_
      exact ⟨hrest.1, forall_mem_cons.mpr ⟨hmiss, hrest.2⟩⟩
    · obtain ⟨hsome, hmeets⟩ := Classical.not_imp.mp hmiss
      obtain ⟨d, hdata⟩ := Option.isSome_iff_exists.mp hsome
      obtain ⟨hcover, hbytes⟩ := h x mem_cons_self d hdata hmeets
      rw [checkFunctional_of_covered hmeets hdata hcover]
      exact Or.inl ⟨rfl, fun k hk => congrArg some (hbytes k hk)⟩

end FuncRead

def Packet.piece (pkt : Packet) : Piece :=
  ⟨pkt.addr, pkt.size, pkt.isSecure, if pkt.cmd.hasData then some pkt.byte else none⟩

/-- The packets in the queues of the ports. -/
structure Ports where
  cpuResp : List Packet
  memReq : List Packet
  memSnoopResp : List Packet

/-- The packets reach the memory one after the other. -/
def AbstractMemory.accessAll (mem : AbstractMemory) : List Packet → Option AbstractMemory
  | [] => some mem
  | pkt :: l => (mem.access pkt).bind fun r => r.1.accessAll l

namespace Cache

variable {c : Cache} {io : Ports} {mem : AbstractMemory} {secure : Bool} {pkt : Packet}
  {addr size : ℕ}

/-- The packets of a queue, each with the block of its register. -/
def packetsOf (q : MSHRQueue) : List (ℕ × Packet) :=
  q.entries.flatMap fun m =>
    (m.targets.list ++ m.deferredTargets.list).map fun t => (m.blkAddr, t.pkt)

/-- The packets of the registers for one block. -/
def packetsFor (q : MSHRQueue) (blkAddr : ℕ) : List Packet :=
  ((packetsOf q).filter (·.1 = blkAddr)).map Prod.snd

/-- What is to be carried out, in the order of leaving the buffers. -/
def toCarryOut (c : Cache) (io : Ports) : List Packet :=
  io.memReq ++ (packetsOf c.writeBuffer).map Prod.snd

def lookedAt (c : Cache) (io : Ports) (blkAddr : ℕ) : List Packet :=
  io.cpuResp ++ packetsFor c.mshrQueue blkAddr ++ packetsFor c.writeBuffer blkAddr ++ io.memReq ++
    io.memSnoopResp

/-- `mshr && mshr->inService && mshr->isPendingDirty()`. -/
def isPendingDirty (c : Cache) (blkAddr : ℕ) (secure : Bool) : Bool :=
  (c.mshrQueue.findMatch blkAddr secure).any fun i =>
    (c.mshrQueue.registers i).inService && (c.mshrQueue.registers i).pendingDirty

/-- The read after the block's check, and whether the block has and owns its data. -/
def checkBlock (c : Cache) (addr size : ℕ) (secure : Bool) : FuncRead × Bool :=
  let blkAddr := c.blockAlign addr
  match c.tags blkAddr secure with
  | none => (FuncRead.start addr size secure, false)
  | some blk =>
    let (r, haveData) := (FuncRead.start addr size secure).checkFunctional
      ⟨blkAddr, c.blkSize, secure, some blk.byte⟩
    (r, haveData && (blk.dirty || c.isPendingDirty blkAddr secure))

/-- The read behind the block: packets, then memory. -/
def scan (c : Cache) (io : Ports) (mem : AbstractMemory) (r : FuncRead) : ℕ → Option (BitVec 8) :=
  let (r', done) := r.checkAll ((c.lookedAt io (c.blockAlign r.addr)).map Packet.piece)
  if done then r'.data else fun k => some (mem.byteAt (r.addr + k))

/-- `functionalAccess` of a CPU-side read: the answer's bytes, by offset. -/
def functionalRead (c : Cache) (io : Ports) (mem : AbstractMemory) (addr size : ℕ) (secure : Bool) :
    ℕ → Option (BitVec 8) :=
  let (r, haveDirty) := c.checkBlock addr size secure
  if haveDirty then r.data else c.scan io mem r

/-- A packet carried out on one security state's memory. -/
def carryOut (secure : Bool) (mem : AbstractMemory) (pkt : Packet) : AbstractMemory :=
  if pkt.isSecure ≠ secure then mem
  else if pkt.isRowOp then mem.rowOp pkt.rowOp
  else if pkt.cmd.hasData then
    let start := mem.hostAddr pkt.addr
    { mem with host := fun x =>
        if start ≤ x ∧ x < start + pkt.size then pkt.byte (x - start).toNat else mem.host x }
  else mem

/-- Memory's byte once all buffered packets are carried out in order, with the dirty blocks on top.
-/
def drained (c : Cache) (io : Ports) (mem : AbstractMemory) (secure : Bool) (a : ℕ) : BitVec 8 :=
  let below := ((c.toCarryOut io).foldl (carryOut secure) mem).byteAt a
  match c.tags (c.blockAlign a) secure with
  | some blk => if blk.dirty then blk.byte (a - c.blockAlign a) else below
  | none => below

lemma byteAt_carryOut_write (hsecure : pkt.isSecure = secure)
    (hrow : pkt.isRowOp = false) (hdata : pkt.cmd.hasData = true) (a : ℕ) :
    (carryOut secure mem pkt).byteAt a = if mem.hostAddr pkt.addr ≤ mem.hostAddr a ∧
          mem.hostAddr a < mem.hostAddr pkt.addr + pkt.size then
        pkt.byte (mem.hostAddr a - mem.hostAddr pkt.addr).toNat
      else mem.byteAt a := by
  rw [carryOut, if_neg (not_not.mpr hsecure), if_neg (by simp [hrow]), if_pos hdata]
  rfl

lemma byteAt_carryOut (hsecure : pkt.isSecure = secure) (hrow : pkt.isRowOp = false)
    (hdata : pkt.cmd.hasData = true) (ha : pkt.addr + k = a) (hk : k < pkt.size) :
    (carryOut secure mem pkt).byteAt a = pkt.byte k := by
  have hoff : mem.hostAddr a = mem.hostAddr pkt.addr + k := by
    simp only [AbstractMemory.hostAddr]
    omega
  rw [byteAt_carryOut_write hsecure hrow hdata, hoff, if_pos ⟨by omega, by omega⟩]
  congr 1
  omega

/-- `a` is in no destination row of a row op and not among the bytes of a write. -/
def Spares (pkt : Packet) (secure : Bool) (a : ℕ) : Prop :=
  pkt.isSecure = secure → (pkt.isRowOp = true → a < pkt.rowOp.dest ∨ pkt.rowOp.dest + rowSize ≤ a) ∧
    (pkt.isRowOp = false → pkt.cmd.hasData = true → a < pkt.addr ∨ pkt.addr + pkt.size ≤ a)

lemma byteAt_carryOut_of_spares (h : Spares pkt secure a) :
    (carryOut secure mem pkt).byteAt a = mem.byteAt a := by
  by_cases hsecure : pkt.isSecure = secure
  · obtain ⟨hdest, hbytes⟩ := h hsecure
    cases hrow : pkt.isRowOp with
    | true =>
      rw [carryOut, if_neg (not_not.mpr hsecure), if_pos hrow]
      exact AbstractMemory.byteAt_rowOp (hdest hrow)
    | false =>
      cases hdata : pkt.cmd.hasData with
      | true =>
        rw [byteAt_carryOut_write hsecure hrow hdata, if_neg]
        have hout := hbytes hrow hdata
        simp only [AbstractMemory.hostAddr]
        omega
      | false => simp [carryOut, hrow, hdata]
  · rw [carryOut, if_pos hsecure]

lemma byteAt_foldl_carryOut {l : List Packet} (h : ∀ pkt ∈ l, Spares pkt secure a) :
    (l.foldl (carryOut secure) mem).byteAt a = mem.byteAt a := by
  induction l generalizing mem with
  | nil => rfl
  | cons pkt l ih =>
    rw [foldl_cons, ih (forall_mem_cons.mp h).2, byteAt_carryOut_of_spares (forall_mem_cons.mp h).1]

/-! ### The answer and what memory will hold -/

/-- The packet has data for the read, by `checkFunctional`'s test. -/
def HasFor (addr size : ℕ) (secure : Bool) (pkt : Packet) : Prop :=
  pkt.cmd.hasData = true ∧ pkt.isSecure = secure ∧ addr < pkt.addr + pkt.size ∧
    pkt.addr < addr + size

instance decidableHasFor : Decidable (HasFor addr size secure pkt) :=
  inferInstanceAs (Decidable (_ ∧ _))

/-- The packet has all bytes of the read. -/
def CoversRead (addr size : ℕ) (pkt : Packet) : Prop :=
  pkt.addr ≤ addr ∧ addr + size ≤ pkt.addr + pkt.size

/-- **When a functional read is right.** It stays in one block. What is only a copy is up to date
where the read meets it. No buffered row op has its payload's addresses or its destination row in
the read. At most one buffered write has data for it, all of it, and in the write buffer it is
under the read's block. -/
structure ReadsDrained (c : Cache) (io : Ports) (mem : AbstractMemory) (addr size : ℕ)
    (secure : Bool) : Prop where
  oneBlock : addr + size ≤ c.blockAlign addr + c.blkSize
  block : ∀ blk, c.tags (c.blockAlign addr) secure = some blk → blk.dirty = false →
    c.isPendingDirty (c.blockAlign addr) secure = true →
    ∀ k < size, blk.byte (addr - c.blockAlign addr + k) = c.drained io mem secure (addr + k)
  copies : ∀ pkt ∈ io.cpuResp ++ packetsFor c.mshrQueue (c.blockAlign addr) ++ io.memSnoopResp,
    HasFor addr size secure pkt → CoversRead addr size pkt ∧
      ∀ k < size, pkt.byte (addr - pkt.addr + k) = c.drained io mem secure (addr + k)
  rowOps : ∀ pkt ∈ c.toCarryOut io, pkt.isRowOp = true → pkt.isSecure = secure →
    (addr + size ≤ pkt.addr ∨ pkt.addr + pkt.size ≤ addr) ∧
    (addr + size ≤ pkt.rowOp.dest ∨ pkt.rowOp.dest + rowSize ≤ addr)
  once : (c.toCarryOut io).Pairwise fun x y =>
    ¬ (HasFor addr size secure x ∧ HasFor addr size secure y)
  whole : ∀ pkt ∈ c.toCarryOut io, HasFor addr size secure pkt → CoversRead addr size pkt
  register : ∀ x ∈ packetsOf c.writeBuffer, HasFor addr size secure x.2 → x.1 = c.blockAlign addr

namespace ReadsDrained

variable (h : ReadsDrained c io mem addr size secure)

include h

lemma spares (hpkt : pkt ∈ c.toCarryOut io) (hnone : ¬ HasFor addr size secure pkt)
    (hk : k < size) :
    Spares pkt secure (addr + k) := by
  intro hsecure
  refine ⟨fun hrow => ?_, fun _ hdata => ?_⟩
  · have hdest := (h.rowOps pkt hpkt hrow hsecure).2
    omega
  · by_contra hin
    exact hnone ⟨hdata, hsecure, by omega, by omega⟩

lemma blockAlign_add (hk : k < size) : c.blockAlign (addr + k) = c.blockAlign addr := by
  have hone := h.oneBlock
  have hle := c.blockAlign_le addr
  exact (eq_blockAlign (c.blkSize_dvd_blockAlign addr) (by omega) (by omega)).symm

lemma mem_lookedAt (hpkt : pkt ∈ c.toCarryOut io) (hhas : HasFor addr size secure pkt) :
    pkt ∈ c.lookedAt io (c.blockAlign addr) := by
  rcases mem_append.mp hpkt with hreq | hbuf
  · simp [lookedAt, hreq]
  · obtain ⟨x, hx, rfl⟩ := mem_map.mp hbuf
    have hfor : x.2 ∈ packetsFor c.writeBuffer (c.blockAlign addr) :=
      mem_map_of_mem (mem_filter.mpr ⟨hx, by simpa using h.register x hx hhas⟩)
    simp [lookedAt, hfor]

section

variable (hclean : ∀ blk, c.tags (c.blockAlign addr) secure = some blk → blk.dirty = false)

include hclean

lemma drained_eq (hk : k < size) : c.drained io mem secure (addr + k) =
    ((c.toCarryOut io).foldl (carryOut secure) mem).byteAt (addr + k) := by
  rw [drained, h.blockAlign_add hk]
  cases htags : c.tags (c.blockAlign addr) secure with
  | none => rfl
  | some blk =>
    simp only [hclean blk htags]
    rfl

/-- With no dirty block on top, memory will hold the buffered write's bytes. -/
lemma byte_eq_drained (hpkt : pkt ∈ c.toCarryOut io) (hhas : HasFor addr size secure pkt)
    (hk : k < size) : pkt.byte (addr - pkt.addr + k) = c.drained io mem secure (addr + k) := by
  obtain ⟨U, V, hsplit⟩ := append_of_mem hpkt
  have hrow : pkt.isRowOp = false := by
    by_contra hrow
    have hout := (h.rowOps pkt hpkt (Bool.of_not_eq_false hrow) hhas.2.1).1
    obtain ⟨-, -, hlow, hhigh⟩ := hhas
    omega
  have honce := h.once
  rw [hsplit] at honce
  -- the packets behind it leave the byte alone
  have hbehind : ∀ y ∈ V, Spares y secure (addr + k) := fun y hy =>
    h.spares (by rw [hsplit]; exact mem_append_right U (mem_cons_of_mem pkt hy))
      (fun hhas' => (pairwise_cons.mp (pairwise_append.mp honce).2.1).1 y hy ⟨hhas, hhas'⟩) hk
  have hcovers := h.whole pkt hpkt hhas
  rw [CoversRead] at hcovers
  rw [h.drained_eq hclean hk, hsplit, foldl_append, foldl_cons, byteAt_foldl_carryOut hbehind,
    byteAt_carryOut hhas.2.1 hrow hhas.1 (k := addr - pkt.addr + k) (by omega) (by omega)]

/-- If nothing buffered has data for it, memory will hold what it holds. -/
lemma byteAt_eq_drained (hnone : ∀ pkt ∈ c.toCarryOut io, ¬ HasFor addr size secure pkt)
    (hk : k < size) : mem.byteAt (addr + k) = c.drained io mem secure (addr + k) := by
  rw [h.drained_eq hclean hk,
    byteAt_foldl_carryOut fun pkt hpkt => h.spares hpkt (hnone pkt hpkt) hk]

/-- **The scan** behind a block that does not own the data. -/
lemma scan_eq {r : FuncRead} (haddr : r.addr = addr) (hsize : r.size = size)
    (hsecure : r.secure = secure) (hk : k < size) :
    c.scan io mem r k = some (c.drained io mem secure (addr + k)) := by
  subst haddr hsize hsecure
  have hhas : ∀ {pkt : Packet} {d}, pkt.piece.data = some d → ¬ r.Misses pkt.piece →
      HasFor r.addr r.size r.secure pkt ∧ d = pkt.byte := by
    intro pkt d hdata hmeets
    simp only [FuncRead.Misses, Packet.piece] at hdata hmeets
    push Not at hmeets
    split_ifs at hdata with hcmd
    exact ⟨⟨hcmd, hmeets.1, hmeets.2⟩, (Option.some.inj hdata).symm⟩
  have hpieces : ∀ x ∈ (c.lookedAt io (c.blockAlign r.addr)).map Packet.piece, ∀ d,
      x.data = some d → ¬ r.Misses x → r.Covered x ∧
        ∀ k < r.size, d (r.addr - x.addr + k) = c.drained io mem r.secure (r.addr + k) := by
    intro x hx d hdata hmeets
    obtain ⟨pkt, hpkt, rfl⟩ := mem_map.mp hx
    obtain ⟨hhas, rfl⟩ := hhas hdata hmeets
    by_cases hcopy : pkt ∈
        io.cpuResp ++ packetsFor c.mshrQueue (c.blockAlign r.addr) ++ io.memSnoopResp
    · exact h.copies pkt hcopy hhas
    · have hbuffered : pkt ∈ c.toCarryOut io := by
        simp only [lookedAt, mem_append, not_or] at hpkt hcopy
        have hqueued : pkt ∈ packetsFor c.writeBuffer (c.blockAlign r.addr) ∨ pkt ∈ io.memReq := by
          tauto
        rw [toCarryOut, mem_append]
        refine hqueued.symm.imp_right fun hbuf => ?_
        obtain ⟨y, hy, rfl⟩ := mem_map.mp hbuf
        exact mem_map_of_mem (mem_filter.mp hy).1
      exact ⟨h.whole pkt hbuffered hhas, fun k hk => h.byte_eq_drained hclean hbuffered hhas hk⟩
  rcases FuncRead.checkAll_of_covered hpieces with ⟨hdone, hbytes⟩ | ⟨hdone, hmisses⟩
  · simp only [scan, hdone, if_true]
    exact hbytes k hk
  · simp only [scan, hdone]
    refine congrArg some (h.byteAt_eq_drained hclean (fun pkt hpkt hfor => ?_) hk)
    have hmiss := hmisses _ (mem_map_of_mem (h.mem_lookedAt hpkt hfor))
      (by simp [Packet.piece, hfor.1])
    obtain ⟨-, hsecure, hlow, hhigh⟩ := hfor
    simp only [FuncRead.Misses, Packet.piece] at hmiss
    rcases hmiss with hmiss | hmiss
    · exact hmiss hsecure
    · omega

end

end ReadsDrained

/-- An uncacheable write of the byte at `0x40`. -/
def acceptWrite (time : ℕ) : Act :=
  .recvTimingReq ⟨.writeReq, (Request.virt 0x40 1 Request.uncacheable 0).setPaddr 0x40, 0x40, 1,
    false, [7#8], ⟨.rowAnd, 0, 0, 0⟩, false, false, false⟩ .none (fun _ => false) time

lemma readsDrained_write : ReadsDrained (after [acceptWrite 5, acceptRowOp 6]) ⟨[], [], []⟩
    AbstractMemory.zeroed 0x40 1 false where
  oneBlock := by decide +kernel
  block blk hblk := by
    have hnone : (after [acceptWrite 5, acceptRowOp 6]).tags
      ((after [acceptWrite 5, acceptRowOp 6]).blockAlign 0x40) false = none := by decide +kernel
    rw [hnone] at hblk
    cases hblk
  copies := by
    have hempty : packetsFor (after [acceptWrite 5, acceptRowOp 6]).mshrQueue
      ((after [acceptWrite 5, acceptRowOp 6]).blockAlign 0x40) = [] := by decide +kernel
    intro pkt hpkt
    rw [hempty] at hpkt
    cases hpkt
  rowOps := by decide +kernel
  once := by decide +kernel
  whole := by
    simp only [CoversRead]
    decide +kernel
  register := by decide +kernel

/-- The two memories differ in their reservations at most. -/
structure SameBytes (m m' : AbstractMemory) : Prop where
  host : m.host = m'.host
  rangeStart : m.rangeStart = m'.rangeStart
  pmemAddr : m.pmemAddr = m'.pmemAddr

lemma SameBytes.trans {m m' m'' : AbstractMemory} (h : SameBytes m m') (h' : SameBytes m' m'') :
    SameBytes m m'' :=
  ⟨h.host.trans h'.host, h.rangeStart.trans h'.rangeStart, h.pmemAddr.trans h'.pmemAddr⟩

lemma pmemAddr_carryOut (secure : Bool) (mem : AbstractMemory) (pkt : Packet) :
    (carryOut secure mem pkt).pmemAddr = mem.pmemAddr := by
  rw [carryOut]
  split_ifs <;> rfl

lemma SameBytes.carryOut {m m' : AbstractMemory} (h : SameBytes m m') (secure : Bool)
    (pkt : Packet) : SameBytes (carryOut secure m pkt) (carryOut secure m' pkt) := by
  obtain ⟨start, stop, pmem, host, locked⟩ := m
  obtain ⟨rfl, rfl, rfl⟩ := h
  rw [Cache.carryOut, Cache.carryOut]
  split_ifs
  · exact ⟨rfl, rfl, rfl⟩
  · exact ⟨rfl, rfl, rfl⟩
  · exact ⟨rfl, rfl, rfl⟩
  · exact ⟨rfl, rfl, rfl⟩

/-- A write or writeback that no cache has claimed, with data of its size. -/
structure Unclaimed (secure : Bool) (pkt : Packet) : Prop where
  cmd : pkt.cmd = .writeReq ∨ pkt.cmd = .writeback
  memInhibit : pkt.memInhibit = false
  isSecure : pkt.isSecure = secure
  length : pkt.isRowOp = false → pkt.data.length = pkt.size

/-- **One packet**: memory does with it what carrying it out does. -/
lemma Unclaimed.sameBytes_access {pkt' : Packet} {mem' : AbstractMemory}
    (hpkt : Unclaimed secure pkt) (hpmem : mem.pmemAddr ≠ 0)
    (h : mem.access pkt = some (mem', pkt')) : SameBytes mem' (carryOut secure mem pkt) := by
  obtain ⟨hcmd, hinhibit, rfl, hlen⟩ := hpkt
  cases hrow : pkt.isRowOp with
  | true =>
    have hperforms : pkt.performsRowOp :=
      ⟨hrow, hinhibit, by rcases hcmd with hcmd | hcmd <;> rw [hcmd] <;> decide⟩
    rw [AbstractMemory.access_of_performsRowOp hperforms] at h
    cases h
    rw [Cache.carryOut, if_neg (not_not.mpr rfl), if_pos hrow]
    exact ⟨rfl, rfl, rfl⟩
  | false =>
    obtain ⟨hstore, hllsc, hdata⟩ :
        pkt.isStore = true ∧ pkt.isLLSC = false ∧ pkt.cmd.hasData = true := by
      rcases hcmd with hcmd | hcmd <;>
        simp [Packet.isStore, Packet.isLLSC, Packet.isRead, Packet.isInvalidate, Packet.isWrite,
          hcmd, hrow, hinhibit, MemCmd.isRead, MemCmd.isInvalidate, MemCmd.isWrite, MemCmd.isLLSC,
          MemCmd.hasData]
    have hmem : mem' = mem.afterStore pkt := by
      rcases AbstractMemory.access_cases h with h | h | h | h | h
      · cases hrow.symm.trans h.1.1
      · rcases hcmd with hcmd | hcmd <;> simp [Packet.isSwap, hcmd] at h
      · rcases hcmd with hcmd | hcmd <;>
          simp [Packet.isLoadLocked, Packet.isRead, MemCmd.isRead, hcmd] at h
      · exact h.2.1
      · rw [hstore] at h
        cases h.1
    have hok : (mem.writeOK pkt).1 = true := by
      rw [AbstractMemory.writeOK_fst, hllsc]
      rfl
    have hsame : SameBytes (mem.writeOK pkt).2.1 mem := by
      rw [AbstractMemory.writeOK]
      split_ifs <;> exact ⟨rfl, rfl, rfl⟩
    rw [hmem, AbstractMemory.afterStore]
    rw [if_pos ⟨hok, hpmem⟩, Cache.carryOut, if_neg (not_not.mpr rfl), if_neg (by simp [hrow]),
      if_pos hdata]
    refine ⟨funext fun x => ?_, hsame.rangeStart, hsame.pmemAddr⟩
    dsimp only
    rw [AbstractMemory.copyIn, ite_and]
    refine ite_congr rfl (fun hle => ?_) fun _ => rfl
    simp only [← hlen hrow, Packet.byte, hrow, Bool.false_eq_true, if_false]
    split_ifs with hlt
    · rw [getD_eq_getElem?_getD, getD_eq_getElem?_getD, List.getElem?_eq_getElem (by omega)]
      rfl
    · rw [getD_eq_getElem?_getD, List.getElem?_eq_none (by omega)]
      rfl

lemma sameBytes_accessAll {pkts : List Packet} {m m' m₁ : AbstractMemory}
    (hpkts : ∀ pkt ∈ pkts, Unclaimed secure pkt) (hpmem : m.pmemAddr ≠ 0) (hsame : SameBytes m m')
    (h : m.accessAll pkts = some m₁) : SameBytes m₁ (pkts.foldl (carryOut secure) m') := by
  induction pkts generalizing m m' with
  | nil =>
    cases h
    exact hsame
  | cons pkt pkts ih =>
    obtain ⟨hpkt, hrest⟩ := forall_mem_cons.mp hpkts
    obtain ⟨r, hr, h⟩ := Option.bind_eq_some_iff.mp h
    have hfirst := hpkt.sameBytes_access hpmem hr
    have hpmem' : r.1.pmemAddr ≠ 0 := by
      rw [hfirst.pmemAddr, pmemAddr_carryOut]
      exact hpmem
    exact ih hrest hpmem' (hfirst.trans (hsame.carryOut secure pkt)) h

/-- **Carrying packets out is what the memory does with them**, one after the other. -/
theorem byteAt_carryOut_eq_access {pkts : List Packet} {mem' : AbstractMemory}
    (hpkts : ∀ pkt ∈ pkts, Unclaimed secure pkt) (hpmem : mem.pmemAddr ≠ 0)
    (h : mem.accessAll pkts = some mem') (a : ℕ) :
    mem'.byteAt a = (pkts.foldl (carryOut secure) mem).byteAt a := by
  have hsame := sameBytes_accessAll hpkts hpmem ⟨rfl, rfl, rfl⟩ h
  rw [AbstractMemory.byteAt, AbstractMemory.byteAt, AbstractMemory.hostAddr,
    AbstractMemory.hostAddr, hsame.host, hsame.rangeStart, hsame.pmemAddr]

theorem byteAt_carryOut_rowNot :
    let pkts := [AbstractMemory.packetAt .writeReq 1 0x4000 [7#8],
      .ofRowOp ⟨.rowNot, 0x2000, 0x4000, 0⟩]
    ∃ mem', AbstractMemory.zeroed.accessAll pkts = some mem' ∧
      mem'.byteAt 0x2000 = (pkts.foldl (carryOut false) .zeroed).byteAt 0x2000 := by
  intro pkts
  have hpkts : ∀ pkt ∈ pkts, Unclaimed false pkt := by
    intro pkt hpkt
    rcases mem_cons.mp hpkt with rfl | hpkt
    · exact ⟨.inl rfl, rfl, by decide, fun _ => rfl⟩
    · obtain rfl := mem_singleton.mp hpkt
      exact ⟨.inl (by decide), rfl, by decide, fun hrow => absurd hrow (by decide)⟩
  have hsome : (AbstractMemory.zeroed.accessAll pkts).isSome = true := by decide
  obtain ⟨mem', hmem'⟩ := Option.isSome_iff_exists.mp hsome
  exact ⟨mem', hmem', byteAt_carryOut_eq_access hpkts (by decide) hmem' 0x2000⟩

end Cache

end ShifDram
