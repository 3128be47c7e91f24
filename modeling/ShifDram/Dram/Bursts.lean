import ShifDram.Bits.Blocks
import ShifDram.Dram.Aborts
import ShifDram.Dram.Reads
import ShifDram.Dram.WriteQueue

/-!
The bursts of a packet, and room for them in the queues.

`recvTimingReq` counts bursts by a ceiling division in unsigned 32-bit numbers; the loops of
`addToReadQueue` and `addToWriteQueue` step in unsigned 64-bit addresses, with sizes in 32 bits.
-/

namespace ShifDram

open Fallible Blocks

namespace DRAMParams

variable (p : DRAMParams)

/-- `(addr | (burstSize - 1)) + 1`. -/
def nextAddr (addr : ℕ) : ℕ := ((addr ||| (p.burstSize - 1)) + 1) % 2 ^ 64

/-- `unsigned size = min((addr | (burstSize - 1)) + 1, pkt->getAddr() + pkt->getSize()) - addr`. -/
def pieceSize (pkt : Packet) (addr : ℕ) : ℕ :=
  (min (p.nextAddr addr) ((pkt.addr + pkt.size) % 2 ^ 64) + 2 ^ 64 - addr) % 2 ^ 64 % 2 ^ 32

/-- Address and size of `cnt` pieces from `addr` on. -/
def pieces (pkt : Packet) : ℕ → ℕ → List (ℕ × ℕ)
  | 0, _ => []
  | cnt + 1, addr => (addr, p.pieceSize pkt addr) :: pieces pkt cnt (p.nextAddr addr)

def lastByte (pkt : Packet) : ℕ := pkt.addr + pkt.size - 1

def FitsCount (pkt : Packet) : Prop := pkt.addr % p.burstSize + pkt.size + p.burstSize ≤ 2 ^ 32

/-- The last burst ends before the address space, or the packet is in its last burst and ends with
it. -/
def FitsAddrs (pkt : Packet) : Prop :=
  p.nextBurst (lastByte pkt) < 2 ^ 64 ∨
    pkt.addr + pkt.size = 2 ^ 64 ∧ pkt.addr / p.burstSize = lastByte pkt / p.burstSize

def FitsWidths (pkt : Packet) : Prop := p.FitsCount pkt ∧ p.FitsAddrs pkt

instance (pkt : Packet) : Decidable (p.FitsWidths pkt) := by
  unfold FitsWidths FitsCount FitsAddrs
  infer_instance

def burstsTouched (pkt : Packet) : Finset ℕ := touched p.burstSize pkt.addr pkt.size

/-- The pieces tile the packet, each in one burst. -/
def Splits (pkt : Packet) (l : List (ℕ × ℕ)) : Prop := Tiles p.burstSize pkt.addr pkt.size l

variable {p} {pkt : Packet} {addr cnt : ℕ}

lemma or_burstSize_sub_one : (addr ||| (p.burstSize - 1)) + 1 = p.nextBurst addr := by
  have hpos := p.burstSize_pos
  have hlow : addr % p.burstSize ||| (p.burstSize - 1) = p.burstSize - 1 := by
    refine Nat.eq_of_testBit_eq fun i => ?_
    rw [burstSize, Nat.testBit_or, Nat.testBit_two_pow_sub_one, Nat.testBit_mod_two_pow]
    by_cases hi : i < p.burstBits <;> simp [hi]
  have hsplit : addr ||| (p.burstSize - 1) =
      p.burstSize * (addr / p.burstSize) + (p.burstSize - 1) := by
    conv_lhs => rw [← Nat.div_add_mod addr p.burstSize]
    rw [burstSize, Nat.two_pow_add_eq_or_of_lt (Nat.mod_lt _ (Nat.two_pow_pos _)), Nat.or_assoc,
      Nat.two_pow_add_eq_or_of_lt (Nat.sub_lt (Nat.two_pow_pos _) one_pos)]
    exact congrArg _ hlow
  rw [hsplit, nextBurst, add_mul, mul_comm, one_mul]
  omega

lemma nextAddr_eq : p.nextAddr addr = next p.burstSize addr % 2 ^ 64 := by
  rw [nextAddr, or_burstSize_sub_one, nextBurst, next]

lemma lastByte_succ (hsize : 0 < pkt.size) : lastByte pkt + 1 = pkt.addr + pkt.size := by
  rw [lastByte]
  omega

lemma dramPktCount_eq (hfits : p.FitsCount pkt) (hsize : 0 < pkt.size) :
    DRAMCtrl.dramPktCount p pkt = lastByte pkt / p.burstSize - pkt.addr / p.burstSize + 1 := by
  have hpos := p.burstSize_pos
  rw [FitsCount] at hfits
  rw [DRAMCtrl.dramPktCount, Nat.mod_eq_of_lt (by omega), count_eq hpos hsize, lastByte]

/-- **The count is the number of bursts touched**, unless it overflows. -/
lemma dramPktCount_eq_card_iff (hsize : 0 < pkt.size) :
    DRAMCtrl.dramPktCount p pkt = (p.burstsTouched pkt).card ↔ p.FitsCount pkt := by
  have hpos := p.burstSize_pos
  constructor
  · intro heq
    by_contra hfits
    rw [FitsCount] at hfits
    rw [burstsTouched, card_touched hpos hsize, DRAMCtrl.dramPktCount] at heq
    generalize hX : pkt.addr % p.burstSize + pkt.size + p.burstSize - 1 = X at heq
    have hone : 1 ≤ X / p.burstSize := (Nat.one_le_div_iff hpos).mpr (by omega)
    rcases le_or_gt p.burstSize (2 ^ 32) with hle | hgt
    · -- at least one burst is lost with the carry
      have hlt : X % 2 ^ 32 / p.burstSize < X / p.burstSize := by
        calc X % 2 ^ 32 / p.burstSize < (X % 2 ^ 32 + p.burstSize) / p.burstSize := by
              rw [Nat.add_div_right _ hpos]
              exact Nat.lt_succ_self _
          _ ≤ X / p.burstSize := Nat.div_le_div_right (by omega)
      omega
    · have hzero : X % 2 ^ 32 / p.burstSize = 0 := Nat.div_eq_of_lt (by omega)
      omega
  · intro hfits
    rw [dramPktCount_eq hfits hsize, burstsTouched, card_touched hpos hsize, count_eq hpos hsize,
      lastByte]

lemma pieceSize_of_lt (hnext : next p.burstSize addr < 2 ^ 64) (hend : pkt.addr + pkt.size < 2 ^ 64)
    (haddr : addr < pkt.addr + pkt.size) (hwidth : pkt.size < 2 ^ 32) (hle : pkt.addr ≤ addr) :
    p.pieceSize pkt addr = min (next p.burstSize addr) (pkt.addr + pkt.size) - addr := by
  have hlt := lt_next (a := addr) p.burstSize_pos
  rw [pieceSize, nextAddr_eq, Nat.mod_eq_of_lt hnext, Nat.mod_eq_of_lt hend]
  omega

lemma pieceSize_of_eq (hnext : next p.burstSize addr = 2 ^ 64) (hle : 2 ^ 64 < addr + 2 ^ 32)
    (haddr : addr < 2 ^ 64) : p.pieceSize pkt addr = 2 ^ 64 - addr := by
  rw [pieceSize, nextAddr_eq, hnext, Nat.mod_self]
  omega

lemma pieceSize_of_end (hend : pkt.addr + pkt.size = 2 ^ 64) (hwidth : pkt.size < 2 ^ 32)
    (hsize : 0 < pkt.size) : p.pieceSize pkt pkt.addr = pkt.size := by
  rw [pieceSize, hend, Nat.mod_self]
  omega

/-- Short of the end of the address space the loops make an exact cut. -/
lemma pieces_eq_blocks (hnext : next p.burstSize (lastByte pkt) < 2 ^ 64)
    (hwidth : pkt.size < 2 ^ 32) (hsize : 0 < pkt.size) (haddr : addr ≤ lastByte pkt)
    (hle : pkt.addr ≤ addr) (hcnt : cnt = lastByte pkt / p.burstSize - addr / p.burstSize + 1) :
    p.pieces pkt cnt addr = Blocks.pieces p.burstSize (pkt.addr + pkt.size) cnt addr := by
  have hpos := p.burstSize_pos
  have hlast := lastByte_succ hsize
  have hbound := lt_next (a := lastByte pkt) hpos
  induction cnt generalizing addr with
  | zero => omega
  | succ cnt ih =>
    have hmono : next p.burstSize addr ≤ next p.burstSize (lastByte pkt) :=
      Nat.mul_le_mul_right _ (Nat.succ_le_succ (Nat.div_le_div_right haddr))
    rw [pieces, Blocks.pieces,
      pieceSize_of_lt (by omega) (by omega) (by omega) hwidth hle, nextAddr_eq,
      Nat.mod_eq_of_lt (by omega)]
    refine congrArg _ ?_
    by_cases hmore : addr / p.burstSize < lastByte pkt / p.burstSize
    · have hnext' : next p.burstSize addr ≤ lastByte pkt := (next_le_iff hpos).mpr hmore
      refine ih hnext' (hle.trans (lt_next hpos).le) ?_
      rw [next_div hpos]
      omega
    · obtain rfl : cnt = 0 := by omega
      rfl

/-- A packet in the last burst of the address space, short of its end, is given all of it. -/
lemma sum_pieces (hnext : next p.burstSize (lastByte pkt) = 2 ^ 64)
    (hend : pkt.addr + pkt.size < 2 ^ 64) (hsize : 0 < pkt.size) (hburst : p.burstSize < 2 ^ 32)
    (hwidth : pkt.size < 2 ^ 32)
    (haddr : addr ≤ lastByte pkt) (hle : pkt.addr ≤ addr)
    (hcnt : cnt = lastByte pkt / p.burstSize - addr / p.burstSize + 1) :
    ((p.pieces pkt cnt addr).map Prod.snd).sum = 2 ^ 64 - addr := by
  have hpos := p.burstSize_pos
  have hlast := lastByte_succ hsize
  induction cnt generalizing addr with
  | zero => omega
  | succ cnt ih =>
    rw [pieces, List.map_cons, List.sum_cons]
    have hlt := lt_next (a := addr) hpos
    by_cases hmore : addr / p.burstSize < lastByte pkt / p.burstSize
    · have hnext' : next p.burstSize addr ≤ lastByte pkt := (next_le_iff hpos).mpr hmore
      rw [nextAddr_eq, Nat.mod_eq_of_lt (by omega),
        ih hnext' (hle.trans hlt.le) (by rw [next_div hpos]; omega),
        pieceSize_of_lt (by omega) hend (by omega) hwidth hle]
      omega
    · have hsame : addr / p.burstSize = lastByte pkt / p.burstSize :=
        le_antisymm (Nat.div_le_div_right haddr) (not_lt.mp hmore)
      obtain rfl : cnt = 0 := by omega
      have hnext' : next p.burstSize addr = 2 ^ 64 := (next_congr hsame).trans hnext
      have hstart : next p.burstSize addr ≤ addr + p.burstSize := by
        rw [next, add_mul, one_mul]
        exact Nat.add_le_add_right (Nat.div_mul_le_self _ _) _
      rw [pieces, List.map_nil, List.sum_nil, add_zero,
        pieceSize_of_eq hnext' (by omega) (by omega)]

/-- **When the loops are right.** -/
lemma splits_iff_fitsAddrs (hfits : p.FitsCount pkt) (hsize : 0 < pkt.size)
    (hend : pkt.addr + pkt.size ≤ 2 ^ 64) :
    p.Splits pkt (p.pieces pkt (DRAMCtrl.dramPktCount p pkt) pkt.addr) ↔ p.FitsAddrs pkt := by
  have hpos := p.burstSize_pos
  have hlast := lastByte_succ hsize
  have hcount := dramPktCount_eq hfits hsize
  rw [FitsCount] at hfits
  have hdvd : p.burstSize ∣ 2 ^ 64 := by
    refine pow_dvd_pow 2 (le_of_lt ((Nat.pow_lt_pow_iff_right one_lt_two).mp ?_))
    change p.burstSize < 2 ^ 64
    omega
  have hnext : next p.burstSize (lastByte pkt) ≤ 2 ^ 64 := next_le_of_dvd hpos hdvd (by omega)
  constructor
  · intro hsplits
    refine hnext.lt_or_eq.imp id fun htop => ?_
    -- the sizes add up to the size of the packet, so it reaches the end of the address space
    have htotal : pkt.addr + pkt.size = 2 ^ 64 := by
      by_contra hne
      have hsum : ((p.pieces pkt _ pkt.addr).map Prod.snd).sum = 2 ^ 64 - pkt.addr :=
        sum_pieces htop (by omega) hsize (by omega) (by omega) (by omega) le_rfl hcount
      rw [hsplits.sum] at hsum
      omega
    refine ⟨htotal, ?_⟩
    have hfirst := hsplits.inBlock (pkt.addr, p.pieceSize pkt pkt.addr)
      (by rw [hcount]; exact List.mem_cons_self)
    rwa [pieceSize_of_end htotal (by omega) hsize] at hfirst
  · rintro (hshort | ⟨htotal, hone⟩)
    · rw [pieces_eq_blocks hshort (by omega) hsize (by omega) le_rfl hcount]
      have htiles : Tiles p.burstSize pkt.addr (pkt.addr + pkt.size - pkt.addr) _ :=
        tiles_pieces hpos (by omega) hcount
      rwa [Nat.add_sub_cancel_left] at htiles
    · have hsingle : DRAMCtrl.dramPktCount p pkt = 1 := by
        omega
      rw [hsingle, pieces, pieces, pieceSize_of_end htotal (by omega) hsize]
      refine .cons hsize le_rfl hone ?_
      rw [Nat.sub_self]
      exact ⟨by simp, by simp, rfl⟩

end DRAMParams

namespace DRAMCtrl

open DRAMParams

variable {p : DRAMParams} {s s' : DRAMCtrl} {n : ℕ} {pkt : Packet} {pktCount : ℕ}

lemma addWriteBursts_eq_foldlM (cnt addr : ℕ) : addWriteBursts p n pkt cnt addr s =
      (p.burstAddrs cnt addr).foldlM (fun s a => s.addWriteBurst p n pkt a) s := by
  induction cnt generalizing addr s with
  | zero => rfl
  | succ cnt ih =>
    exact congrArg _ (funext fun s₁ => ih _)

lemma addReadBursts_eq_foldlM (cnt addr serviced : ℕ) :
    addReadBursts p n pkt pktCount cnt addr s serviced =
      (p.burstAddrs cnt addr).foldlM (fun (s, serviced) a =>
        (s.addReadBurst p n pkt pktCount a).map fun (s, found) =>
          (s, if found then serviced + 1 else serviced)) (s, serviced) := by
  induction cnt generalizing addr s serviced with
  | zero => rfl
  | succ cnt ih =>
    rw [addReadBursts, burstAddrs, List.foldlM_cons]
    dsimp only
    cases s.addReadBurst p n pkt pktCount addr with
    | error e => rfl
    | ok r => exact ih _ _

lemma pieces_eq_burstBytes (cnt addr : ℕ) :
    Blocks.pieces p.burstSize (pkt.addr + pkt.size) cnt addr =
      (p.burstAddrs cnt addr).map fun a => (a, burstBytes p pkt a) := by
  induction cnt generalizing addr with
  | zero => rfl
  | succ cnt ih => exact congrArg (List.cons _) (ih _)

/-- **The loops go through the pieces**, each round with its piece's size. -/
lemma pieces_eq (hfits : p.FitsWidths pkt) (hsize : 0 < pkt.size) :
    p.pieces pkt (dramPktCount p pkt) pkt.addr =
      (readBursts p pkt).map fun a => (a, burstBytes p pkt a) := by
  have hpos := p.burstSize_pos
  have hlast := lastByte_succ hsize
  have hcount := dramPktCount_eq hfits.1 hsize
  have hwidth := hfits.1
  rw [FitsCount] at hwidth
  rw [readBursts, ← pieces_eq_burstBytes]
  rcases hfits.2 with hshort | ⟨htotal, hone⟩
  · exact pieces_eq_blocks hshort (by omega) hsize (by omega) le_rfl hcount
  · have hsingle : dramPktCount p pkt = 1 := by
      omega
    have hnext : pkt.addr + pkt.size ≤ next p.burstSize pkt.addr := by
      rw [next_congr hone]
      have := lt_next (a := lastByte pkt) hpos
      omega
    rw [hsingle, DRAMParams.pieces, DRAMParams.pieces, pieceSize_of_end htotal (by omega) hsize,
      Blocks.pieces, Blocks.pieces, min_eq_right hnext, Nat.add_sub_cancel_left]

structure Room (p : DRAMParams) (s : DRAMCtrl) : Prop where
  writes : s.writeQueue.length ≤ p.writeBufferSize
  reads : s.readQueue.length + s.respQueue.length ≤ p.readBufferSize

/-- No assertion about a full queue fails. -/
def FindsRoom {α : Type*} (x : Except Abort α) : Prop :=
  FailsWith (fun e => e ≠ .readQueueFull ∧ e ≠ .writeQueueFull) x

/-- **No assertion about a full queue fails.** -/
lemma findsRoom_recvTimingReq (s : DRAMCtrl) (pkt : Packet) (delay : ℕ) :
    FindsRoom (s.recvTimingReq p pkt delay) := by
  refine (fails_recvTimingReq p s pkt delay).of_front fun e he => ⟨?_, ?_⟩
  all_goals
    rintro rfl
    exact absurd he (by decide)

lemma room_addToReadQueue (hs : Room p s)
    (hroom : s.readQueue.length + s.respQueue.length + pktCount ≤ p.readBufferSize)
    (h : s.addToReadQueue p n pkt pktCount = .ok s') : Room p s' := by
  obtain ⟨s₁, serviced, hloop, chan, -, hend⟩ := addToReadQueue_ok h
  obtain ⟨addr, hwrites, hreads⟩ := (meets_addReadBursts (P := fun _ => True)
    (Q := fun cnt _ s _ => s.writeQueue.length ≤ p.writeBufferSize ∧
      s.readQueue.length + s.respQueue.length + cnt ≤ p.readBufferSize) trivial
    (fun _ _ _ _ _ _ => trivial) (fun _ _ _ _ hQ => ⟨hQ.1, Nat.le_of_succ_le hQ.2⟩)
    (fun cnt s k d hQ _ => ⟨hQ.1, by
      simp only [withRead, List.length_append, List.length_singleton]
      omega⟩) ⟨hs.writes, hroom⟩).result hloop
  rcases hend with ⟨-, mem, rfl⟩ | ⟨-, rfl⟩
  · exact ⟨hwrites, hreads⟩
  · exact ⟨hwrites, hreads⟩

lemma room_addToWriteQueue (hcount : 0 < pktCount) (hs : Room p s)
    (hroom : s.writeQueue.length + pktCount ≤ p.writeBufferSize)
    (h : s.addToWriteQueue p n pkt pktCount = .ok s') : Room p s' := by
  obtain ⟨s₁, chan, mem, rfl, -, ⟨-, d, -, -, rfl⟩ | ⟨-, hloop⟩⟩ := addToWriteQueue_ok h
  · refine ⟨?_, hs.reads⟩
    change (s.writeQueue ++ [d]).length ≤ _
    rw [List.length_append, List.length_singleton]
    omega
  · obtain ⟨hreads, hwrites⟩ := (meets_addWriteBursts (P := fun _ => True)
      (Q := fun cnt s => s.readQueue.length + s.respQueue.length ≤ p.readBufferSize ∧
        s.writeQueue.length + cnt ≤ p.writeBufferSize) trivial (fun _ _ _ _ => trivial)
      (fun _ _ hQ => ⟨hQ.1, Nat.le_of_succ_le hQ.2⟩)
      (fun m s d i _ hQ _ _ _ => ⟨hQ.1, by
        simp only [withWrite, List.length_append, List.length_singleton]
        omega⟩) ⟨hs.reads, hroom⟩).result hloop
    exact ⟨hwrites, hreads⟩

/-- **An accepted packet fits in the queues.** -/
lemma Room.received {delay : ℕ} {accepted : Bool} (hs : Room p s) (hfits : p.FitsCount pkt)
    (h : Received p s pkt delay s' accepted) : Room p s' := by
  cases h with
  | dropped | refused | other => exact { hs with }
  | read hread hroom h =>
    exact room_addToReadQueue (s := s.accept pkt delay) { hs with }
      (not_lt.mp (mt decide_eq_true hroom)) h
  | write hread hwrite hsize hroom h =>
    have hcount : 0 < dramPktCount p pkt := by
      rw [dramPktCount_eq hfits (Nat.pos_of_ne_zero hsize)]
      exact Nat.succ_pos _
    exact room_addToWriteQueue (s := s.accept pkt delay) hcount { hs with }
      (not_lt.mp (mt decide_eq_true hroom)) h

/-- The burst count of an arriving packet does not overflow. -/
def CountsFit (p : DRAMParams) (_ : DRAMCtrl) : Act → Prop
  | .arrive pkt _ => p.FitsCount pkt
  | _ => True

lemma Room.served (h : Room p s) (hserved : Served p s s') : Room p s' := by
  cases hserved with
  | stall same bus | idle same hturned bus =>
    exact ⟨same.writeQueue ▸ h.writes, same.readQueue ▸ same.respQueue ▸ h.reads⟩
  | read front back d t hturned hqueue same bus =>
    -- the packet moves from the read queue to the response queue
    refine ⟨same.writeQueue ▸ h.writes, ?_⟩
    have hreads := h.reads
    rw [hqueue] at hreads
    rw [same.readQueue, same.respQueue]
    simp only [List.length_append, List.length_cons, List.length_nil] at hreads ⊢
    omega
  | write front back d t hturned hqueue same bus =>
    refine ⟨?_, same.readQueue ▸ same.respQueue ▸ h.reads⟩
    have hwrites := h.writes
    rw [hqueue] at hwrites
    rw [same.writeQueue]
    simp only [List.length_append, List.length_cons] at hwrites ⊢
    omega

lemma Room.perform (h : Room p s) {a : Act} (hfits : CountsFit p s a)
    (hperform : s.perform p a = .ok s') : Room p s' := by
  cases perform_ok hperform with
  | arrive hrecv => exact h.received hfits hrecv
  | request hserved => exact h.served hserved
  | respond hrespond =>
    obtain ⟨d, rest, s₁, chan, drain, hqueue, hfinish, rfl, -⟩ := processRespondEvent_ok hrespond
    obtain ⟨chan', mem, helpers, new, rfl, -⟩ := finishBurst_ok hfinish
    have hreads := h.reads
    rw [show s.respQueue = d :: rest from hqueue, List.length_cons] at hreads
    exact ⟨h.writes, le_trans (Nat.le_succ _) hreads⟩
  | aside => exact { h with }

/-- **The queues stay within their sizes.** -/
lemma Run.room (h : Run p (CountsFit p) s) : Room p s := by
  induction h with
  | start t mem => exact ⟨Nat.zero_le _, Nat.zero_le _⟩
  | act _ _ hfits hperform ih => exact ih.perform hfits hperform

/-- The two loops take the pieces in turn, each with its size. -/
structure LoopsOver (p : DRAMParams) (pkt : Packet) (l : List (ℕ × ℕ)) : Prop where
  sizes : ∀ q ∈ l, burstBytes p pkt q.1 = q.2
  reads : ∀ (s : DRAMCtrl) (n : ℕ),
    addReadBursts p n pkt (dramPktCount p pkt) (dramPktCount p pkt) pkt.addr s 0 =
      l.foldlM (fun (s, serviced) q =>
        (s.addReadBurst p n pkt (dramPktCount p pkt) q.1).map fun (s, found) =>
          (s, if found then serviced + 1 else serviced)) (s, 0)
  writes : ∀ (s : DRAMCtrl) (n : ℕ),
    addWriteBursts p n pkt (dramPktCount p pkt) pkt.addr s =
      l.foldlM (fun s q => s.addWriteBurst p n pkt q.1) s

lemma loopsOver_pieces (hfits : p.FitsWidths pkt) (hsize : 0 < pkt.size) :
    LoopsOver p pkt (p.pieces pkt (dramPktCount p pkt) pkt.addr) := by
  rw [pieces_eq hfits hsize]
  refine ⟨?_, fun s n => ?_, fun s n => ?_⟩
  · rintro _ hq
    obtain ⟨a, -, rfl⟩ := List.mem_map.mp hq
    rfl
  · rw [addReadBursts_eq_foldlM, List.foldlM_map, readBursts]
  · rw [addWriteBursts_eq_foldlM, List.foldlM_map, readBursts]

/-- **The bursts of a packet.** The count of `recvTimingReq` is the number of bursts touched, and
the pieces tile the packet, exactly when neither count nor addresses overflow; then the loops go
through these pieces. In every run whose counts do not overflow, queues stay within their sizes, and
no assertion about a full queue fails. -/
theorem bursts_of_packet (hsize : 0 < pkt.size) (hend : pkt.addr + pkt.size ≤ 2 ^ 64)
    (hrun : Run p (CountsFit p) s) :
    ((dramPktCount p pkt = (p.burstsTouched pkt).card ∧
        p.Splits pkt (p.pieces pkt (dramPktCount p pkt) pkt.addr)) ↔ p.FitsWidths pkt) ∧
      (p.FitsWidths pkt → LoopsOver p pkt (p.pieces pkt (dramPktCount p pkt) pkt.addr)) ∧
      (p.FitsCount pkt → ∀ delay, FindsRoom (s.recvTimingReq p pkt delay) ∧
        ∀ s', s.recvTimingReq p pkt delay = .ok (s', true) → Room p s') := by
  refine ⟨?_, fun hfits => loopsOver_pieces hfits hsize, fun hfits delay =>
    ⟨findsRoom_recvTimingReq s pkt delay,
      fun s' h => hrun.room.received hfits (recvTimingReq_ok h)⟩⟩
  rw [dramPktCount_eq_card_iff hsize, FitsWidths]
  exact and_congr_right fun hfits => splits_iff_fitsAddrs hfits hsize hend

/-- A read of two bursts from the middle of one. -/
def unalignedRead : Packet := { readBurst 0 with addr := 32, size := 96 }

/-- It is cut into half a burst and a whole one. -/
theorem bursts_of_packet_unaligned : dramPktCount (.ddr3_1600_x64 .frfcfs) unalignedRead = 2 ∧
      DRAMParams.pieces (.ddr3_1600_x64 .frfcfs) unalignedRead 2 32 = [(32, 32), (64, 64)] ∧
      DRAMParams.Splits (.ddr3_1600_x64 .frfcfs) unalignedRead [(32, 32), (64, 64)] :=
  have hsize : 0 < unalignedRead.size := by decide
  ⟨by decide, by decide, ((bursts_of_packet hsize (by decide)
    (.start (p := .ddr3_1600_x64 .frfcfs) 0 blank)).1.mpr (by decide)).2⟩

/-- A read of the first byte of the address space's last burst. -/
def topRead : Packet := { readBurst 0 with addr := 2 ^ 64 - 64, size := 1 }

def hugeWrite : Packet := { writeBurst0 with size := 2 ^ 32 - 1 }

/-- The first's piece is the whole burst; the second counts none. -/
theorem bursts_of_packet_overflow : (topRead.addr + topRead.size < 2 ^ 64 ∧
      DRAMParams.pieces (.ddr3_1600_x64 .frfcfs) topRead
        (dramPktCount (.ddr3_1600_x64 .frfcfs) topRead) topRead.addr = [(2 ^ 64 - 64, 64)] ∧
      ¬ DRAMParams.Splits (.ddr3_1600_x64 .frfcfs) topRead [(2 ^ 64 - 64, 64)]) ∧
      dramPktCount (.ddr3_1600_x64 .frfcfs) hugeWrite = 0 ∧
      0 < (DRAMParams.burstsTouched (.ddr3_1600_x64 .frfcfs) hugeWrite).card := by
  refine ⟨⟨by decide, by decide, fun h => ?_⟩, by decide, ?_⟩
  · have hsum := h.sum
    revert hsum
    decide
  · rw [DRAMParams.burstsTouched, card_touched (by decide) (by decide)]
    decide

end DRAMCtrl

end ShifDram
