import ShifDram.Cache.Access

/-!
The timing mode of a cache (`mem/cache/cache.cc`, `mem/cache/base.hh`).

Requests from the CPU side are served by the tags or buffered: misses in `mshrQueue`, evictions
and uncacheable writes (row ops among them) in `writeBuffer`. `getNextMSHR` picks the next one for
the memory side. Every allocation takes the next arrival number.

`perform` does what can happen to a cache. Inputs of an action are decided outside: the victim of
a replacement, the answers to snoops sent up, the time at which a forwarded packet is ready, the
packet of the prefetcher. Changes to the tags by hits, fills and snoops are an action of their
own.
-/

namespace ShifDram

open Option

namespace Cache

variable {e : BufferEntry} (c : Cache) (pkt : Packet) (now : ℕ)

def allocateMissBuffer (time : ℕ) : Option (Cache × ℕ) :=
  (c.mshrQueue.allocate (c.blockAlign pkt.addr) pkt time c.order).map fun x =>
    ({ c with mshrQueue := x.1, order := c.order + 1 }, x.2)

/-- `allocateWriteBuffer`; `none` is a failed assertion. -/
def allocateWriteBuffer (time : ℕ) : Option Cache :=
  if pkt.isWrite && !pkt.isRead then
    (c.writeBuffer.allocate (c.blockAlign pkt.addr) pkt time c.order).map fun x =>
      { c with writeBuffer := x.1, order := c.order + 1 }
  else none

/-- `doWritebacks`: a clean eviction of a block cached above is dropped. -/
def doWritebacks (c : Cache) (isCachedAbove : Packet → Bool) (forwardTime : ℕ) :
    List Packet → Option Cache
  | [] => some c
  | pkt :: writebacks =>
    if isCachedAbove pkt && pkt.cmd == .cleanEvict then
      c.doWritebacks isCachedAbove forwardTime writebacks
    else
      (c.allocateWriteBuffer pkt forwardTime).bind fun c =>
        c.doWritebacks isCachedAbove forwardTime writebacks

/-- A request that hits an outstanding miss becomes its target. -/
def coalesce (r : ℕ) (pkt : Packet) (forwardTime : ℕ) : Option Cache :=
  ((c.mshrQueue.registers r).allocateTarget pkt forwardTime c.order).map fun m =>
    { c with mshrQueue := c.mshrQueue.setRegister r m, order := c.order + 1 }

def promoteWholeLineWrites : Packet :=
  if c.doFastWrites && pkt.cmd == .writeReq && pkt.size == c.blkSize && pkt.addr % c.blkSize == 0
  then { pkt with cmd := .writeLineReq } else pkt

/-- What is done with a request the tags do not satisfy. -/
inductive MissAction where
  | drop
  | coalesce (r : ℕ)
  | write
  | miss
  deriving DecidableEq

/-- The outstanding miss on the block of a cacheable packet. -/
def outstanding : Option ℕ :=
  if pkt.req.isUncacheable then none
  else c.mshrQueue.findMatch (c.blockAlign pkt.addr) pkt.isSecure

/-- Where `recvTimingReq` puts an unsatisfied request; `none` is a failed assertion. -/
def missAction : Option MissAction :=
  match c.outstanding pkt with
  | some r =>
    if pkt.cmd.isSWPrefetch then some .drop
    else if pkt.cmd = .writeback then none
    else if pkt.cmd = .cleanEvict then some .drop
    else some (.coalesce r)
  | none =>
    if pkt.evictingBlock || (pkt.req.isUncacheable && pkt.isWrite) then some .write
    else some .miss

lemma outstanding_of_missAction {c : Cache} {pkt : Packet} {r : ℕ}
    (h : c.missAction pkt = some (.coalesce r)) : c.outstanding pkt = some r := by
  rw [missAction] at h
  cases hout : c.outstanding pkt with
  | none =>
    rw [hout] at h
    split_ifs at h <;> cases h
  | some x =>
    rw [hout] at h
    dsimp only at h
    split_ifs at h <;> cases h
    rfl

lemma mem_allocatedList_of_missAction {c : Cache} {pkt : Packet} {r : ℕ}
    (h : c.missAction pkt = some (.coalesce r)) : r ∈ c.mshrQueue.allocatedList := by
  have hout := outstanding_of_missAction h
  rw [outstanding] at hout
  split_ifs at hout
  exact MSHRQueue.mem_allocatedList_of_findMatch hout

/-- A write miss makes a valid block unreadable. -/
def markUnreadable : Cache :=
  match c.tags (c.blockAlign pkt.addr) pkt.isSecure with
  | none => c
  | some blk =>
    let blk := { blk with readable := false }
    { c with tags := c.tags.set (c.blockAlign pkt.addr) pkt.isSecure (some blk) }

/-- `recvTimingReq` of an unsatisfied request, at its end. -/
def buffer (forwardTime : ℕ) : MissAction → Option Cache
  | .drop => some c
  | .coalesce r => c.coalesce r pkt forwardTime
  | .write => c.allocateWriteBuffer pkt forwardTime
  | .miss => ((c.markUnreadable pkt).allocateMissBuffer pkt forwardTime).map Prod.fst

/-- `recvTimingReq`; `none` is a failed assertion. An inhibited packet is served elsewhere. -/
def recvTimingReq (victim : Victim) (isCachedAbove : Packet → Bool) (forwardTime : ℕ) :
    Option Cache :=
  if pkt.memInhibit then some c
  else
    let pkt := c.promoteWholeLineWrites pkt
    (c.access pkt victim).bind fun x =>
      (doWritebacks { c with tags := x.tags } isCachedAbove forwardTime x.writebacks).bind fun c =>
        if x.satisfied then some c else (c.missAction pkt).bind (c.buffer pkt forwardTime)

inductive BufferEntry where
  | miss (r : ℕ)
  | write (r : ℕ)
  deriving DecidableEq, Repr

/-- The write buffer is full with nothing in service. -/
def writesUrgent : Bool := c.writeBuffer.isFull && c.writeBuffer.inServiceEntries == 0

/-- `getNextMSHR`, writes first: an earlier miss on the block goes before. -/
def chooseWrite (w : ℕ) : BufferEntry :=
  match c.mshrQueue.findPending (c.writeBuffer.registers w).blkAddr
      (c.writeBuffer.registers w).isSecure with
  | some m =>
    if (c.mshrQueue.registers m).order < (c.writeBuffer.registers w).order then .miss m
    else .write w
  | none => .write w

/-- `getNextMSHR`, misses first: a write to the block goes before. -/
def chooseMiss (m : ℕ) : BufferEntry :=
  match c.writeBuffer.findPending (c.mshrQueue.registers m).blkAddr
      (c.mshrQueue.registers m).isSecure with
  | some w => .write w
  | none => .miss m

/-- `getNextMSHR` on the two queues. -/
def choose : Option BufferEntry :=
  match c.writeBuffer.getNextMSHR now, c.mshrQueue.getNextMSHR now with
  | some w, some m => some (if c.writesUrgent then c.chooseWrite w else c.chooseMiss m)
  | some w, none => some (c.chooseWrite w)
  | none, some m => some (c.chooseMiss m)
  | none, none => none

/-- The write buffer is urgent, its first write ready. -/
def DrainsWrites : Prop := c.writesUrgent = true ∧ (c.writeBuffer.getNextMSHR now).isSome = true

instance (c : Cache) (now : ℕ) : Decidable (c.DrainsWrites now) :=
  inferInstanceAs (Decidable (_ ∧ _))

/-- **The two branches** of `getNextMSHR`. -/
lemma choose_eq_some {c : Cache} {now : ℕ} (h : c.choose now = some e) :
    (∃ w, c.writeBuffer.getNextMSHR now = some w ∧ c.chooseWrite w = e) ∨
      ∃ m, c.mshrQueue.getNextMSHR now = some m ∧ c.chooseMiss m = e ∧ ¬ c.DrainsWrites now := by
  rw [choose] at h
  cases hw : c.writeBuffer.getNextMSHR now with
  | none =>
    cases hm : c.mshrQueue.getNextMSHR now with
    | none => rw [hw, hm] at h; cases h
    | some m =>
      rw [hw, hm] at h
      refine .inr ⟨m, rfl, some.inj h, fun hd => ?_⟩
      rw [DrainsWrites, hw] at hd
      cases hd.2
  | some w =>
    cases hm : c.mshrQueue.getNextMSHR now with
    | none => rw [hw, hm] at h; exact .inl ⟨w, rfl, some.inj h⟩
    | some m =>
      rw [hw, hm] at h
      by_cases hurgent : c.writesUrgent = true
      · exact .inl ⟨w, rfl, by simpa [hurgent] using h⟩
      · exact .inr ⟨m, rfl, by simpa [hurgent] using h, fun hd => hurgent hd.1⟩

lemma choose_eq_none {c : Cache} {now : ℕ} (h : c.choose now = none) :
    c.mshrQueue.getNextMSHR now = none ∧ c.writeBuffer.getNextMSHR now = none := by
  rw [choose] at h
  split at h <;> simp_all

lemma chooseWrite_eq_miss {c : Cache} {w m : ℕ} (h : c.chooseWrite w = .miss m) :
    m ∈ c.mshrQueue.readyList ∧
      (c.mshrQueue.registers m).blkAddr = (c.writeBuffer.registers w).blkAddr ∧
      (c.mshrQueue.registers m).order < (c.writeBuffer.registers w).order := by
  rw [chooseWrite] at h
  split at h
  · rename_i hfind
    split_ifs at h with hlt
    cases h
    obtain ⟨hmem, hblk, -⟩ := MSHRQueue.findPending_eq_some hfind
    exact ⟨hmem, hblk, hlt⟩
  · cases h

lemma chooseWrite_eq_write {c : Cache} {w r : ℕ} (h : c.chooseWrite w = .write r) : r = w := by
  rw [chooseWrite] at h
  split at h
  · split_ifs at h
    cases h
    rfl
  · cases h
    rfl

lemma chooseMiss_eq_miss {c : Cache} {m r : ℕ} (h : c.chooseMiss m = .miss r) :
    r = m ∧ c.writeBuffer.findPending (c.mshrQueue.registers m).blkAddr
      (c.mshrQueue.registers m).isSecure = none := by
  rw [chooseMiss] at h
  split at h
  · cases h
  · rename_i hfind
    cases h
    exact ⟨rfl, hfind⟩

lemma chooseMiss_eq_write {c : Cache} {m r : ℕ} (h : c.chooseMiss m = .write r) :
    r ∈ c.writeBuffer.readyList ∧
      (c.writeBuffer.registers r).blkAddr = (c.mshrQueue.registers m).blkAddr ∧
      (c.writeBuffer.registers r).isSecure = (c.mshrQueue.registers m).isSecure := by
  rw [chooseMiss] at h
  split at h
  · rename_i hfind
    cases h
    exact MSHRQueue.findPending_eq_some hfind
  · cases h

def IsPending : BufferEntry → Prop
  | .miss r => r ∈ c.mshrQueue.readyList
  | .write r => r ∈ c.writeBuffer.readyList

lemma isPending_choose {c : Cache} {now : ℕ} (h : c.choose now = some e) : c.IsPending e := by
  rcases choose_eq_some h with ⟨w, hw, he⟩ | ⟨m, hm, he, -⟩
  · obtain ⟨⟨l, hl⟩, -⟩ := MSHRQueue.getNextMSHR_eq_some hw
    cases e with
    | miss r => exact (chooseWrite_eq_miss he).1
    | write r =>
      rw [chooseWrite_eq_write he, IsPending, hl]
      exact List.mem_cons_self
  · obtain ⟨⟨l, hl⟩, -⟩ := MSHRQueue.getNextMSHR_eq_some hm
    cases e with
    | miss r =>
      rw [(chooseMiss_eq_miss he).1, IsPending, hl]
      exact List.mem_cons_self
    | write r => exact (chooseMiss_eq_write he).1

/-- A prefetch of the packet's block may be issued. -/
def mayPrefetch : Bool :=
  c.mshrQueue.canPrefetch && (c.tags (c.blockAlign pkt.addr) pkt.isSecure).isNone &&
    (c.mshrQueue.findMatch (c.blockAlign pkt.addr) pkt.isSecure).isNone &&
    (c.writeBuffer.findMatch (c.blockAlign pkt.addr) pkt.isSecure).isNone

/-- `getNextMSHR`: with nothing to send, the prefetcher's packet. -/
def getNextMSHR (prefetch : Option Packet) : Option (Cache × Option BufferEntry) :=
  match c.choose now, prefetch with
  | some e, _ => some (c, some e)
  | none, none => some (c, none)
  | none, some pkt =>
    if c.mayPrefetch pkt then
      (c.allocateMissBuffer pkt now).map fun x => (x.1, some (.miss x.2))
    else some (c, none)

lemma getNextMSHR_of_choose {c : Cache} {now : ℕ} (h : c.choose now = some e)
    (prefetch : Option Packet) : c.getNextMSHR now prefetch = some (c, some e) := by
  unfold getNextMSHR
  rw [h]

/-- What becomes of `getTimingPacket`'s packet. -/
inductive SendOutcome where
  | retry
  | sent (isForward pendingDirtyResp : Bool)
  | squashed

def markInService (c : Cache) (isForward pendingDirtyResp : Bool) : BufferEntry → Option Cache
  | .miss r =>
    let q := c.mshrQueue.setRegister r { c.mshrQueue.registers r with isForward := isForward }
    (q.markInService r pendingDirtyResp).map fun q => { c with mshrQueue := q }
  | .write r =>
    let q := c.writeBuffer.setRegister r { c.writeBuffer.registers r with isForward := isForward }
    (q.markInService r pendingDirtyResp).map fun q => { c with writeBuffer := q }

/-- A hardware prefetch, a read, of a block cached above is dropped. -/
def squashPrefetch : BufferEntry → Option Cache
  | .miss r =>
    if (c.mshrQueue.registers r).targets.list.head?.any fun t => t.pkt.cmd == .hardPFReq then
      (c.mshrQueue.forceDeallocateTarget r now).map fun q => { c with mshrQueue := q }
    else none
  | .write _ => none

def sendDeferredPacket (prefetch : Option Packet) (outcome : SendOutcome) : Option Cache :=
  (c.getNextMSHR now prefetch).bind fun x =>
    match x.2, outcome with
    | none, _ => some x.1
    | some _, .retry => some x.1
    | some e, .sent isForward pendingDirtyResp => x.1.markInService isForward pendingDirtyResp e
    | some e, .squashed => x.1.squashPrefetch now e

def respond (c : Cache) (fills : List Packet) (now : ℕ) : BufferEntry → Option Cache
  | .miss r =>
    if r ∈ c.mshrQueue.allocatedList ∧ (c.mshrQueue.registers r).inService = true then
      (c.mshrQueue.respond r fills now).map fun q => { c with mshrQueue := q }
    else none
  | .write r =>
    if r ∈ c.writeBuffer.allocatedList ∧ (c.writeBuffer.registers r).inService = true then
      (c.writeBuffer.respond r fills now).map fun q => { c with writeBuffer := q }
    else none

/-- `recvTimingResp`: replaced blocks and the temporary one go to the write buffer. -/
def recvTimingResp (e : BufferEntry) (fills : List Packet) (now : ℕ)
    (evicted : List (ℕ × Bool × CacheBlk)) (isCachedAbove : Packet → Bool) (forwardTime : ℕ) :
    Option Cache :=
  (c.respond fills now e).bind fun c =>
    c.doWritebacks isCachedAbove forwardTime (evicted.map fun x => c.evictBlk x.1 x.2.1 x.2.2)

/-- `recvTimingSnoopReq`: an invalidation discards the writeback. -/
def snoopWriteBuffer : Option Cache :=
  match c.writeBuffer.findMatches (c.blockAlign pkt.addr) pkt.isSecure with
  | [] => some c
  | [r] =>
    if !pkt.evictingBlock && pkt.isInvalidate then
      (c.writeBuffer.markInService r false).map fun q => { c with writeBuffer := q }
    else some c
  | _ => none

/-- `recvTimingSnoopReq`, without the answers to the snoop. -/
def recvTimingSnoopReq : Option Cache :=
  match c.mshrQueue.findMatch (c.blockAlign pkt.addr) pkt.isSecure with
  | none => c.snoopWriteBuffer pkt
  | some r =>
    if pkt.mustCheckAbove then some c
    else
      let x := (c.mshrQueue.registers r).handleSnoop pkt now c.order
      let c := { c with mshrQueue := c.mshrQueue.setRegister r x.1, order := c.order + 1 }
      if x.2.2 then some c else c.snoopWriteBuffer x.2.1

inductive Act where
  | recvTimingReq (pkt : Packet) (victim : Victim) (isCachedAbove : Packet → Bool)
      (forwardTime : ℕ)
  | sendDeferredPacket (now : ℕ) (prefetch : Option Packet) (outcome : SendOutcome)
  | recvTimingResp (e : BufferEntry) (fills : List Packet) (now : ℕ)
      (evicted : List (ℕ × Bool × CacheBlk)) (isCachedAbove : Packet → Bool) (forwardTime : ℕ)
  | recvTimingSnoopReq (pkt : Packet) (now : ℕ)
  | setTags (tags : Tags)

/-- One action; `none` when an assertion of the code fails. -/
def perform : Act → Option Cache
  | .recvTimingReq pkt victim isCachedAbove forwardTime =>
    c.recvTimingReq pkt victim isCachedAbove forwardTime
  | .sendDeferredPacket now prefetch outcome => c.sendDeferredPacket now prefetch outcome
  | .recvTimingResp e fills now evicted isCachedAbove forwardTime =>
    c.recvTimingResp e fills now evicted isCachedAbove forwardTime
  | .recvTimingSnoopReq pkt now => c.recvTimingSnoopReq pkt now
  | .setTags tags => some { c with tags := tags }

/-- `BaseCache`: an empty cache with its two queues. -/
def init (blkBits : ℕ) (doFastWrites : Bool) (mshrs demandMshrReserve writeBuffers : ℕ) : Cache :=
  { blkBits := blkBits
    doFastWrites := doFastWrites
    tags := fun _ _ => none
    mshrQueue := .init mshrs 4 demandMshrReserve
    writeBuffer := .init writeBuffers (mshrs + 1000) 0
    order := 0 }

/-- Caches that runs reach whose actions meet the condition. -/
inductive Run (condition : Cache → Act → Prop) : Cache → Prop
  | init (blkBits : ℕ) (doFastWrites : Bool) (mshrs demandMshrReserve writeBuffers : ℕ) :
      Run condition (.init blkBits doFastWrites mshrs demandMshrReserve writeBuffers)
  | step {c c' : Cache} {a : Act} (h : Run condition c) (hcondition : condition c a)
      (hstep : c.perform a = some c') : Run condition c'

def performAll (c : Cache) : List Act → Option Cache
  | [] => some c
  | a :: acts => (c.perform a).bind fun c => c.performAll acts

/-- Every action of the list meets the condition in its place. -/
def AllMeet (condition : Cache → Act → Prop) (c : Cache) : List Act → Prop
  | [] => True
  | a :: acts => condition c a ∧ ∀ c' ∈ c.perform a, AllMeet condition c' acts

instance AllMeet.decidable {condition : Cache → Act → Prop}
    [∀ c a, Decidable (condition c a)] : ∀ c acts, Decidable (AllMeet condition c acts)
  | _, [] => inferInstanceAs (Decidable True)
  | c, a :: acts =>
    have : DecidablePred fun c' => AllMeet condition c' acts := fun c' => AllMeet.decidable c' acts
    inferInstanceAs (Decidable (condition c a ∧ ∀ c' ∈ c.perform a, AllMeet condition c' acts))

lemma Run.performAll {condition : Cache → Act → Prop} {c c' : Cache} {acts : List Act}
    (h : Run condition c) (hmeet : AllMeet condition c acts) (hc : c.performAll acts = some c') :
    Run condition c' := by
  induction acts generalizing c with
  | nil =>
    cases hc
    exact h
  | cons a acts ih =>
    obtain ⟨c₁, hc₁, hc⟩ := bind_eq_some_iff.mp hc
    exact ih (h.step hmeet.1 hc₁) (hmeet.2 c₁ hc₁) hc

end Cache

end ShifDram
