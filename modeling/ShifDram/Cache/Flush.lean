import ShifDram.Cache.Access

/-!
The flush of a row op (`Cache::access`, `Cache::writebackAddr`).

The loop looks up the blocks of three rows, one of each in turn; rows may coincide, so a block may
be looked up more than once.
-/

namespace ShifDram

open List

/-- The memory of one security state under the data of a writeback. -/
def Packet.overlay (secure : Bool) (m : ℕ → BitVec 8) (pkt : Packet) : ℕ → BitVec 8 := fun a =>
  if pkt.cmd = .writeback ∧ pkt.isSecure = secure ∧ pkt.addr ≤ a ∧ a < pkt.addr + pkt.size then
    pkt.data.getD (a - pkt.addr) (m a)
  else m a

namespace Cache

variable {c : Cache} {secure : Bool} {tags : Tags} {x : Tags × List Packet} {V : Set ℕ}
  {l : List Packet}

/-- The dirty blocks over the writebacks over the main memory. -/
def image (c : Cache) (tags : Tags) (writebacks : List Packet) (mem : ℕ → BitVec 8)
    (secure : Bool) (a : ℕ) : BitVec 8 :=
  let below := writebacks.foldl (Packet.overlay secure) mem a
  match tags (c.blockAlign a) secure with
  | some blk => if blk.dirty then blk.data.getD (a - c.blockAlign a) below else below
  | none => below

/-- The block at `a` has a byte of one of the three rows. -/
def InRows (c : Cache) (p : RowOpPayload) (a : ℕ) : Prop :=
  ∃ i < rowSize, a = c.blockAlign (p.dest + i) ∨ a = c.blockAlign (p.src1 + i) ∨
    a = c.blockAlign (p.src2 + i)

def flushAddrs (c : Cache) (p : RowOpPayload) : List ℕ :=
  c.rowOffsets.flatMap fun i => [p.dest + i, p.src1 + i, p.src2 + i]

lemma writebackRows_eq (p : RowOpPayload) : c.writebackRows p secure x =
      (c.flushAddrs p).foldl (fun x a => c.writebackAddr a secure x) x := by
  rw [flushAddrs, foldl_flatMap]
  rfl

lemma blkSize_pos (c : Cache) : 0 < c.blkSize := Nat.two_pow_pos _

lemma blockAlign_le (c : Cache) (a : ℕ) : c.blockAlign a ≤ a := Nat.div_mul_le_self _ _

lemma lt_blockAlign_add (c : Cache) (a : ℕ) : a < c.blockAlign a + c.blkSize := by
  have h := Nat.lt_div_mul_add (a := a) c.blkSize_pos
  exact h

lemma eq_blockAlign {a b : ℕ} (h : c.blkSize ∣ b) (hle : b ≤ a) (hlt : a < b + c.blkSize) :
    b = c.blockAlign a := by
  obtain ⟨k, rfl⟩ := h
  have hdiv : a / c.blkSize = k :=
    Nat.div_eq_of_lt_le (by rw [mul_comm]; exact hle) (by rw [mul_comm, Nat.mul_succ]; exact hlt)
  rw [blockAlign, hdiv, mul_comm]

lemma blkSize_dvd_blockAlign (c : Cache) (a : ℕ) : c.blkSize ∣ c.blockAlign a :=
  Nat.dvd_mul_left _ _

lemma blkSize_dvd_or_rowSize_dvd : c.blkSize ∣ rowSize ∨ rowSize ∣ c.blkSize := by
  rcases le_total c.blkBits 13 with h | h
  · exact Or.inl (pow_dvd_pow 2 h)
  · exact Or.inr (pow_dvd_pow 2 h)

/-- The loop steps onto every block of an aligned row. -/
lemma exists_mem_rowOffsets {row i : ℕ} (hrow : rowSize ∣ row) (hi : i < rowSize) :
    ∃ j ∈ c.rowOffsets, c.blockAlign (row + j) = c.blockAlign (row + i) := by
  rcases c.blkSize_dvd_or_rowSize_dvd with hdvd | hdvd
  · -- the block of byte `i` starts inside the row
    refine ⟨c.blockAlign i, ?_, ?_⟩
    · refine mem_map.mpr ⟨i / c.blkSize, mem_range.mpr ?_, rfl⟩
      obtain ⟨k, hk⟩ := hdvd
      rw [hk] at hi ⊢
      rw [Nat.div_lt_iff_lt_mul c.blkSize_pos]
      have hle : k ≤ (c.blkSize * k + c.blkSize - 1) / c.blkSize := by
        rw [Nat.le_div_iff_mul_le c.blkSize_pos, mul_comm]
        have := c.blkSize_pos
        omega
      calc i < c.blkSize * k := hi
        _ = k * c.blkSize := mul_comm _ _
        _ ≤ _ := Nat.mul_le_mul_right _ hle
    · have hblk : c.blkSize ∣ row + c.blockAlign i :=
        dvd_add (hdvd.trans hrow) (c.blkSize_dvd_blockAlign i)
      rw [← eq_blockAlign hblk (Nat.le_refl _) (by have := c.blkSize_pos; omega)]
      refine eq_blockAlign hblk ?_ ?_
      · have := c.blockAlign_le i
        omega
      · have := c.lt_blockAlign_add i
        omega
  · -- the whole row lies in one block
    refine ⟨0, ?_, ?_⟩
    · refine mem_map.mpr ⟨0, mem_range.mpr (Nat.div_pos ?_ c.blkSize_pos), by simp⟩
      omega
    · obtain ⟨k, rfl⟩ := hrow
      obtain ⟨m, hm⟩ := hdvd
      simp only [blockAlign, hm, ← Nat.div_div_eq_div_mul, Nat.add_zero]
      have hpos : 0 < rowSize := by decide
      rw [Nat.mul_add_div hpos, Nat.div_eq_of_lt hi, Nat.mul_div_cancel_left _ hpos]
      simp

/-- **The look-ups** reach the blocks of the three rows. -/
lemma mem_flushAddrs_iff {p : RowOpPayload} (hdest : rowSize ∣ p.dest) (hsrc1 : rowSize ∣ p.src1)
    (hsrc2 : rowSize ∣ p.src2) (a : ℕ) :
    a ∈ (c.flushAddrs p).map c.blockAlign ↔ c.InRows p a := by
  simp only [flushAddrs, map_flatMap, mem_flatMap, map_cons, map_nil,
    mem_cons, not_mem_nil, or_false, InRows]
  constructor
  · rintro ⟨j, hj, hmem⟩
    obtain ⟨k, hk, rfl⟩ := mem_map.mp hj
    refine ⟨k * c.blkSize, ?_, hmem⟩
    have hle := (Nat.le_div_iff_mul_le c.blkSize_pos).mp (mem_range.mp hk)
    rw [Nat.succ_mul] at hle
    have := c.blkSize_pos
    omega
  · rintro ⟨i, hi, rfl | rfl | rfl⟩
    · obtain ⟨j, hj, hja⟩ := exists_mem_rowOffsets (c := c) hdest hi
      exact ⟨j, hj, Or.inl hja.symm⟩
    · obtain ⟨j, hj, hja⟩ := exists_mem_rowOffsets (c := c) hsrc1 hi
      exact ⟨j, hj, Or.inr (Or.inl hja.symm)⟩
    · obtain ⟨j, hj, hja⟩ := exists_mem_rowOffsets (c := c) hsrc2 hi
      exact ⟨j, hj, Or.inr (Or.inr hja.symm)⟩

/-- What the look-ups have done after visiting the addresses `V`. -/
structure Flushed (c : Cache) (secure : Bool) (tags : Tags) (V : Set ℕ)
    (x : Tags × List Packet) : Prop where
  aligned : ∀ a ∈ V, c.blkSize ∣ a
  gone : ∀ a ∈ V, x.1 a secure = none
  kept : ∀ a s, ¬ (a ∈ V ∧ s = secure) → x.1 a s = tags a s
  once : ∀ a ∈ V, ∀ blk, tags a secure = some blk →
    x.2.filter (·.addr = a) = [c.evictBlk a secure blk]
  only : ∀ w ∈ x.2, ∃ a ∈ V, ∃ blk, tags a secure = some blk ∧ w = c.evictBlk a secure blk

lemma flushed_empty (c : Cache) (secure : Bool) (tags : Tags) :
    c.Flushed secure tags ∅ (tags, []) := by
  refine ⟨?_, ?_, ?_, ?_, ?_⟩ <;> simp

lemma Flushed.filter_eq_nil (h : c.Flushed secure tags V x) {a : ℕ} (ha : a ∉ V) :
    x.2.filter (·.addr = a) = [] := by
  refine filter_eq_nil_iff.mpr fun w hw hwa => ?_
  obtain ⟨b, hb, blk, -, rfl⟩ := h.only w hw
  obtain rfl : b = a := of_decide_eq_true hwa
  exact ha hb

/-- **One look-up** evicts the block it finds. -/
lemma Flushed.writebackAddr (h : c.Flushed secure tags V x) (a : ℕ) :
    c.Flushed secure tags (insert (c.blockAlign a) V) (c.writebackAddr a secure x) := by
  have haligned : ∀ b ∈ insert (c.blockAlign a) V, c.blkSize ∣ b := by
    rintro b (rfl | hb)
    · exact c.blkSize_dvd_blockAlign a
    · exact h.aligned b hb
  rw [Cache.writebackAddr]
  cases hblk : x.1 (c.blockAlign a) secure with
  | none =>
    -- the block is not there, or was evicted before
    by_cases hV : c.blockAlign a ∈ V
    · rw [Set.insert_eq_of_mem hV]
      exact h
    · have htags : tags (c.blockAlign a) secure = none := by
        rw [← h.kept _ _ (by simp [hV]), hblk]
      refine ⟨haligned, ?_, ?_, ?_, ?_⟩
      · rintro b (rfl | hb)
        · exact hblk
        · exact h.gone b hb
      · intro b s hb
        exact h.kept b s fun hbs => hb ⟨Or.inr hbs.1, hbs.2⟩
      · rintro b (rfl | hb) blk hsome
        · rw [htags] at hsome
          cases hsome
        · exact h.once b hb blk hsome
      · intro w hw
        obtain ⟨b, hb, hrest⟩ := h.only w hw
        exact ⟨b, Or.inr hb, hrest⟩
  | some blk =>
    have hV : c.blockAlign a ∉ V := fun hV => by
      rw [h.gone _ hV] at hblk
      cases hblk
    have htags : tags (c.blockAlign a) secure = some blk := by
      rw [← h.kept _ _ (by simp [hV]), hblk]
    refine ⟨haligned, ?_, ?_, ?_, ?_⟩
    · intro b hb
      by_cases hba : b = c.blockAlign a
      · simp [Tags.set, hba]
      · simpa [Tags.set, hba] using h.gone b (hb.resolve_left hba)
    · intro b s hb
      have hne : ¬ (b = c.blockAlign a ∧ s = secure) := fun hbs => hb ⟨Or.inl hbs.1, hbs.2⟩
      simpa [Tags.set, hne] using h.kept b s fun hbs => hb ⟨Or.inr hbs.1, hbs.2⟩
    · rintro b (rfl | hb) blk' hsome
      · obtain rfl := Option.some.inj (htags.symm.trans hsome)
        simp [filter_append, h.filter_eq_nil hV, evictBlk]
      · have hne : c.blockAlign a ≠ b := fun hab => hV (hab ▸ hb)
        simp [filter_append, h.once b hb blk' hsome, evictBlk, hne]
    · intro w hw
      rcases mem_append.mp hw with hw | hw
      · obtain ⟨b, hb, hrest⟩ := h.only w hw
        exact ⟨b, Or.inr hb, hrest⟩
      · exact ⟨_, Or.inl rfl, blk, htags, mem_singleton.mp hw⟩

/-- **The loop** evicts what it visits. -/
lemma Flushed.foldl (h : c.Flushed secure tags V x) (l : List ℕ) :
    c.Flushed secure tags (V ∪ {a | a ∈ l.map c.blockAlign})
      (l.foldl (fun x a => c.writebackAddr a secure x) x) := by
  induction l generalizing V x with
  | nil => simpa using h
  | cons a l ih =>
    have hset : insert (c.blockAlign a) V ∪ {b | b ∈ l.map c.blockAlign} =
        V ∪ {b | b ∈ (a :: l).map c.blockAlign} := by
      ext b
      simp only [Set.mem_union, Set.mem_insert_iff, Set.mem_ofPred_eq, map_cons, mem_cons]
      tauto
    rw [← hset]
    exact ih (h.writebackAddr a)

lemma flushed_flush (c : Cache) {pkt : Packet} (hrow : pkt.isRowOp = true)
    (hdest : rowSize ∣ pkt.rowOp.dest) (hsrc1 : rowSize ∣ pkt.rowOp.src1)
    (hsrc2 : rowSize ∣ pkt.rowOp.src2) :
    c.Flushed pkt.isSecure c.tags {a | c.InRows pkt.rowOp a} (c.flush pkt) := by
  have h := (flushed_empty c pkt.isSecure c.tags).foldl (c.flushAddrs pkt.rowOp)
  simp only [Set.empty_union, mem_flushAddrs_iff hdest hsrc1 hsrc2] at h
  rwa [flush, if_pos hrow, writebackRows_eq]

lemma isSecure_evictBlk (a : ℕ) (secure : Bool) (blk : CacheBlk) :
    (c.evictBlk a secure blk).isSecure = secure := by
  change ((if secure then Request.secure else 0#32) &&& Request.secure != 0#32) = secure
  cases secure <;> decide

lemma foldl_overlay_of_ne {s : Bool} (hl : ∀ w ∈ l, w.isSecure ≠ s)
    (m : ℕ → BitVec 8) : l.foldl (Packet.overlay s) m = m := by
  induction l with
  | nil => rfl
  | cons w l ih =>
    have hw : Packet.overlay s m w = m := by
      funext a
      rw [Packet.overlay, if_neg fun h => hl w mem_cons_self h.2.1]
    rw [foldl_cons, hw]
    exact ih fun w' hw' => hl w' (mem_cons_of_mem _ hw')

/-- Only the eviction of the block of `a` can change the byte at `a`. -/
lemma foldl_overlay_eq
    (hl : ∀ w ∈ l, c.blkSize ∣ w.addr ∧ w.size = c.blkSize) (m : ℕ → BitVec 8) (a : ℕ) :
    l.foldl (Packet.overlay secure) m a =
      (l.filter (·.addr = c.blockAlign a)).foldl (Packet.overlay secure) m a := by
  -- only the byte at `a` of the memory so far matters
  suffices h : ∀ m' : ℕ → BitVec 8, m a = m' a → l.foldl (Packet.overlay secure) m a =
      (l.filter (·.addr = c.blockAlign a)).foldl (Packet.overlay secure) m' a from h m rfl
  induction l generalizing m with
  | nil => exact fun m' hm => hm
  | cons w l ih =>
    intro m' hm
    have ih' := ih fun w' hw' => hl w' (mem_cons_of_mem _ hw')
    by_cases hw : w.addr = c.blockAlign a
    · rw [filter_cons_of_pos (by simpa using hw)]
      refine ih' _ _ ?_
      simp only [Packet.overlay, hm]
    · rw [filter_cons_of_neg (by simpa using hw)]
      refine ih' _ _ ?_
      obtain ⟨hdvd, hsize⟩ := hl w mem_cons_self
      rw [Packet.overlay, if_neg, hm]
      rintro ⟨-, -, hle, hlt⟩
      exact hw (eq_blockAlign hdvd hle (hsize ▸ hlt))

/-- **The image** of the cache is kept. -/
lemma Flushed.image_eq (h : c.Flushed secure tags V x) (mem : ℕ → BitVec 8)
    (s : Bool) (a : ℕ) : c.image x.1 x.2 mem s a = c.image tags [] mem s a := by
  have hl : ∀ w ∈ x.2, c.blkSize ∣ w.addr ∧ w.size = c.blkSize := by
    intro w hw
    obtain ⟨b, hb, blk, -, rfl⟩ := h.only w hw
    exact ⟨h.aligned b hb, rfl⟩
  by_cases hV : c.blockAlign a ∈ V ∧ s = secure
  · obtain ⟨hV, rfl⟩ := hV
    have hlt := c.lt_blockAlign_add a
    have hle := c.blockAlign_le a
    simp only [image, h.gone _ hV, foldl_overlay_eq hl, foldl_nil]
    cases hblk : tags (c.blockAlign a) s with
    | none =>
      have hnil : x.2.filter (·.addr = c.blockAlign a) = [] := by
        refine filter_eq_nil_iff.mpr fun w hw hwa => ?_
        obtain ⟨b, hb, blk, hsome, rfl⟩ := h.only w hw
        obtain rfl : b = c.blockAlign a := of_decide_eq_true hwa
        rw [hblk] at hsome
        cases hsome
      rw [hnil]
      rfl
    | some blk =>
      rw [h.once _ hV blk hblk]
      simp only [foldl_cons, foldl_nil, Packet.overlay, isSecure_evictBlk]
      cases hdirty : blk.dirty <;> simp [evictBlk, hdirty, hle, hlt]
  · -- the block of `a` stays, and no eviction is of it
    have hbelow : x.2.foldl (Packet.overlay s) mem a = mem a := by
      by_cases hs : s = secure
      · rw [foldl_overlay_eq hl, hs, h.filter_eq_nil fun hmem => hV ⟨hmem, hs⟩]
        rfl
      · rw [foldl_overlay_of_ne fun w hw => ?_]
        obtain ⟨b, -, blk, -, rfl⟩ := h.only w hw
        rw [isSecure_evictBlk]
        exact Ne.symm hs
    simp only [image, h.kept _ _ hV, hbelow, foldl_nil]

/-- **A row op flushes its rows.** An uncacheable row op leaves no block of its rows, of its own
security state, in the tags; it writes each back once, a clean one as a clean eviction, and nothing
else; other blocks and the memory image stay. -/
theorem access_rowOp_flush (c : Cache) (pkt : Packet) (victim : Victim)
    (hrow : pkt.isRowOp = true) (huncacheable : pkt.req.isUncacheable = true)
    (hdest : rowSize ∣ pkt.rowOp.dest) (hsrc1 : rowSize ∣ pkt.rowOp.src1)
    (hsrc2 : rowSize ∣ pkt.rowOp.src2) :
    ∃ r, c.access pkt victim = some r ∧ (∀ a, c.InRows pkt.rowOp a → r.tags a pkt.isSecure = none) ∧
      (∀ a blk, c.InRows pkt.rowOp a → c.tags a pkt.isSecure = some blk →
        ∃ w, r.writebacks.filter (·.addr = a) = [w] ∧ w.isSecure = pkt.isSecure ∧
          w.size = c.blkSize ∧
          if blk.dirty then w.cmd = .writeback ∧ w.data = blk.data else w.cmd = .cleanEvict) ∧
      (∀ w ∈ r.writebacks, c.InRows pkt.rowOp w.addr ∧ (c.tags w.addr pkt.isSecure).isSome = true) ∧
      (∀ a s, ¬ (c.InRows pkt.rowOp a ∧ s = pkt.isSecure) → r.tags a s = c.tags a s) ∧
      (∀ mem s a, c.image r.tags r.writebacks mem s a = c.image c.tags [] mem s a) := by
  have h := c.flushed_flush hrow hdest hsrc1 hsrc2
  refine ⟨⟨false, (c.flush pkt).1, (c.flush pkt).2⟩, ?_, ?_, ?_, ?_, ?_, ?_⟩
  · rw [access, if_pos huncacheable]
  · exact h.gone
  · intro a blk ha hblk
    refine ⟨_, h.once a ha blk hblk, isSecure_evictBlk _ _ _, rfl, ?_⟩
    cases hdirty : blk.dirty <;> simp [evictBlk, hdirty]
  · intro w hw
    obtain ⟨a, ha, blk, hblk, rfl⟩ := h.only w hw
    exact ⟨ha, Option.isSome_iff_exists.mpr ⟨blk, hblk⟩⟩
  · exact h.kept
  · exact h.image_eq

/-- A dirty block and, at the same address, a clean secure one. -/
def twoStates : Cache :=
  { blkBits := 6
    doFastWrites := false
    tags := fun a s => if a = 8256 then
      some (if s then ⟨true, false, false, []⟩ else ⟨true, true, true, [0x5a#8]⟩) else none
    mshrQueue := .init 4 4 0
    writeBuffer := .init 8 4 0
    order := 0 }

/-- The row at 16384 takes the complement of the row at 8192. -/
def notRow : Packet :=
  .createRowOp ((Request.virt 0 32 (Request.uncacheable ||| Request.rowop) 0).setPaddr 0)
    ⟨.rowNot, 16384, 8192, 0⟩

lemma inRows_twoStates : twoStates.InRows notRow.rowOp 8256 :=
  ⟨64, by decide, Or.inr (Or.inl (by decide))⟩

theorem access_rowOp_flush_notRow :
    ∃ r, twoStates.access notRow .none = some r ∧ r.tags 8256 false = none ∧
      ∃ w, r.writebacks.filter (·.addr = 8256) = [w] ∧ w.cmd = .writeback ∧ w.data = [0x5a#8] := by
  obtain ⟨r, hr, hgone, honce, -⟩ := access_rowOp_flush twoStates notRow .none (by decide)
    (by decide) (by decide) (by decide) (by decide)
  obtain ⟨w, hw, -, -, hdirty⟩ := honce 8256 ⟨true, true, true, [0x5a#8]⟩ inRows_twoStates
    (by decide)
  exact ⟨r, hr, hgone 8256 inRows_twoStates, w, hw, hdirty⟩

/-- The secure block of the source row stays. -/
theorem access_rowOp_keeps_secure :
    notRow.isRowOp = true ∧ notRow.req.isUncacheable = true ∧ rowSize ∣ notRow.rowOp.dest ∧
      rowSize ∣ notRow.rowOp.src1 ∧ rowSize ∣ notRow.rowOp.src2 ∧
      ∃ r, twoStates.access notRow .none = some r ∧ twoStates.InRows notRow.rowOp 8256 ∧
        r.tags 8256 true = some ⟨true, false, false, []⟩ := by
  have hrow : notRow.isRowOp = true := by decide
  have hsecure : ¬ true = notRow.isSecure := by decide
  have htags : twoStates.tags 8256 true = some ⟨true, false, false, []⟩ := rfl
  have h := twoStates.flushed_flush hrow (by decide) (by decide) (by decide)
  have haccess : twoStates.access notRow .none =
      some ⟨false, (twoStates.flush notRow).1, (twoStates.flush notRow).2⟩ := by
    rw [access, if_pos (by decide)]
  generalize twoStates.flush notRow = x at h haccess
  refine ⟨hrow, by decide, by decide, by decide, by decide,
    _, haccess, inRows_twoStates, (h.kept 8256 true fun hmem => hsecure hmem.2).trans htags⟩

end Cache

end ShifDram
