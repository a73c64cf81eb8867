import RfsAtsc.IxCodec

/-!
# How far a datagram is read: `rcv_ix_msg`

The receiver hands the buffer to `ix_msg_extract` without the number of bytes
received.  The extractor goes by the counts in the buffer alone, so it reads up to
their end: below the bytes received exactly when the declared structure fits in the
datagram, and else through what an earlier datagram left.
-/

namespace RfsAtsc

open TracedMemory

/-- The buffer after `recvfrom`: the datagram from its start, and behind it what was
there. -/
def received (buf : Mem UChar) (datagram : List UChar) : Mem UChar := buf.write 0 datagram

/-- Where the declared approaches end, from `a` up. -/
def approachesEnd (buf : Mem UChar) : Nat → Int → Int
  | 0, a => a
  | k+1, a => approachesEnd buf k (a + (17 + 12 * (buf.cell (a + 16)).toNat))

/-- Where the declared message ends. -/
def messageEnd (buf : Mem UChar) : Int := approachesEnd buf (buf.cell 52).toNat 53

theorem le_approachesEnd (buf : Mem UChar) (k : Nat) (a : Int) : a ≤ approachesEnd buf k a := by
  induction k generalizing a with
  | zero => exact le_rfl
  | succ k ih =>
      have hrest := ih (a + (17 + 12 * (buf.cell (a + 16)).toNat))
      rw [approachesEnd]
      omega

theorem approachesEnd_congr {buf buf' : Mem UChar} (k : Nat) {a : Int}
    (hsame : ∀ b, a ≤ b → buf'.cell b = buf.cell b) :
    approachesEnd buf' k a = approachesEnd buf k a := by
  induction k generalizing a with
  | zero => rfl
  | succ k ih =>
      rw [approachesEnd, approachesEnd, hsame (a + 16) (by omega)]
      exact ih fun b hlow => hsame b (by omega)

/-! ## The addresses read -/

theorem mem_addrs {a b : Int} {n : Nat} : b ∈ addrs a n ↔ a ≤ b ∧ b < a + n := by
  rw [addrs, List.mem_map]
  constructor
  · intro h
    obtain ⟨k, hk, rfl⟩ := h
    have hkn := List.mem_range.mp hk
    exact ⟨by omega, by omega⟩
  · intro h
    exact ⟨(b - a).toNat, List.mem_range.mpr (by omega), by omega⟩

/-- Loading a struct reads its bytes. -/
theorem Extraction.mem_load_reads (x : Extraction) {spans : List CellSpan} {n : Nat}
    (hwithin : Within spans n) (b : Int) :
    b ∈ (x.load spans n).reads ↔ b ∈ x.reads ∨ x.cur ≤ b ∧ b < x.cur + n := by
  change b ∈ x.reads ++ _ ++ addrs x.cur n ↔ _
  rw [List.mem_append, List.mem_append, List.mem_flatMap, mem_addrs, or_assoc]
  refine or_congr_right ⟨?_, Or.inr⟩
  intro h
  rcases h with ⟨f, hf, hb⟩ | hb
  · have hend := hwithin f hf
    rw [mem_addrs] at hb
    exact ⟨by omega, by omega⟩
  · exact hb

theorem extractLines_reads (k : Nat) (x : Extraction) :
    (extractLines k x).2.cur = x.cur + 12 * k ∧
      (∀ b, b ∈ (extractLines k x).2.reads ↔ b ∈ x.reads ∨ x.cur ≤ b ∧ b < x.cur + 12 * k) ∧
      ∀ b, x.cur + 12 * k ≤ b → (extractLines k x).2.buf.cell b = x.buf.cell b := by
  induction k generalizing x with
  | zero =>
      refine ⟨by simp [extractLines], fun b => ?_, fun _ _ => rfl⟩
      have hnone : ¬ (x.cur ≤ b ∧ b < x.cur + 12 * ((0 : Nat) : Int)) := by omega
      rw [or_iff_left hnone]
      rfl
  | succ k ih =>
      have hnext : (x.load ixStopLineSpans stopLineSize).cur = x.cur + 12 := rfl
      obtain ⟨hcur, hreads, hbeyond⟩ := ih (x.load ixStopLineSpans stopLineSize)
      rw [hnext] at hcur hbeyond
      simp only [extractLines]
      refine ⟨by rw [hcur]; push_cast; ring, fun b => ?_, fun b hb => ?_⟩
      · rw [hreads, hnext, x.mem_load_reads ixStopLineSpans_within, or_assoc]
        refine or_congr_right ?_
        have hsize : x.cur + (stopLineSize : Int) = x.cur + 12 := rfl
        rw [hsize]
        push_cast
        omega
      · push_cast at hb
        rw [hbeyond b (by omega), x.load_cell ixStopLineSpans_within (by omega)]

/-- The count an approach declares lies in its last byte, which is not turned round. -/
theorem numberOfStopLines_copied (x : Extraction) :
    (IxApproachFields.ofBytes
      (x.copied ixApproachSpans approachSize)).numberOfStopLines = x.buf.cell (x.cur + 16) := by
  have hread := (x.buf.swapFields x.cur ixApproachSpans).cell_take x.cur approachSize 16 (by decide)
  have hout : ∀ f ∈ ixApproachSpans, ¬ f.Has 16 := by decide
  rw [show ((16 : Nat) : Int) = 16 from rfl, x.buf.swapFields_cell_outside x.cur hout] at hread
  change u8At (x.copied ixApproachSpans approachSize) 16 = _
  rw [u8At, Extraction.copied, List.getD_eq_getElem?_getD, hread, Option.getD_some]

theorem extractApproach_reads (x : Extraction) :
    (extractApproach x).2.cur = x.cur + (17 + 12 * (x.buf.cell (x.cur + 16)).toNat) ∧
      (∀ b, b ∈ (extractApproach x).2.reads ↔
        b ∈ x.reads ∨ x.cur ≤ b ∧ b < x.cur + (17 + 12 * (x.buf.cell (x.cur + 16)).toNat)) ∧
      ∀ b, x.cur + (17 + 12 * (x.buf.cell (x.cur + 16)).toNat) ≤ b →
        (extractApproach x).2.buf.cell b = x.buf.cell b := by
  have hnext : (x.load ixApproachSpans approachSize).cur = x.cur + 17 := rfl
  obtain ⟨hcur, hreads, hbeyond⟩ :=
    extractLines_reads (x.buf.cell (x.cur + 16)).toNat (x.load ixApproachSpans approachSize)
  rw [hnext] at hcur hbeyond
  simp only [extractApproach, numberOfStopLines_copied]
  refine ⟨by rw [hcur]; ring, fun b => ?_, fun b hb => ?_⟩
  · rw [hreads, hnext, x.mem_load_reads ixApproachSpans_within, or_assoc]
    refine or_congr_right ?_
    have hsize : x.cur + (approachSize : Int) = x.cur + 17 := rfl
    rw [hsize]
    omega
  · rw [hbeyond b (by omega), x.load_cell ixApproachSpans_within (by omega)]

theorem extractApproaches_reads (k : Nat) (x : Extraction) (b : Int) :
    b ∈ (extractApproaches k x).2.reads ↔
      b ∈ x.reads ∨ x.cur ≤ b ∧ b < approachesEnd x.buf k x.cur := by
  induction k generalizing x with
  | zero =>
      have hnone : ¬ (x.cur ≤ b ∧ b < approachesEnd x.buf 0 x.cur) := by
        rw [approachesEnd]
        omega
      rw [or_iff_left hnone]
      rfl
  | succ k ih =>
      obtain ⟨hcur, hreads, hbeyond⟩ := extractApproach_reads x
      rw [← hcur] at hreads hbeyond
      have hend : approachesEnd (extractApproach x).2.buf k (extractApproach x).2.cur =
          approachesEnd x.buf (k+1) x.cur := by
        rw [approachesEnd_congr k hbeyond, hcur, approachesEnd]
      have hlow := le_approachesEnd x.buf k (extractApproach x).2.cur
      have hstart : x.cur ≤ (extractApproach x).2.cur := by omega
      rw [approachesEnd_congr k hbeyond] at hend
      simp only [extractApproaches]
      rw [ih, hreads, approachesEnd_congr k hbeyond, ← hend, or_assoc]
      refine or_congr_right ?_
      omega

/-- The extractor reads the declared message, from the start of the buffer to its end. -/
theorem ixMsgExtract_reads (buf : Mem UChar) (b : Int) :
    b ∈ (ixMsgExtract buf).2.reads ↔ 0 ≤ b ∧ b < messageEnd buf := by
  let start : Extraction := { buf := buf, reads := [], cur := 0 }
  have hnext : (start.load ixMsgSpans msgSize).cur = 53 := rfl
  have hcount : (IxMsgFields.ofBytes (start.copied ixMsgSpans msgSize)).numApproaches =
      buf.cell 52 := by
    have hread := (buf.swapFields 0 ixMsgSpans).cell_take 0 msgSize 52 (by decide)
    have hout : ∀ f ∈ ixMsgSpans, ¬ f.Has 52 := by decide
    rw [show ((52 : Nat) : Int) = 52 from rfl, buf.swapFields_cell_outside 0 hout] at hread
    change u8At (start.copied ixMsgSpans msgSize) 52 = _
    rw [u8At, Extraction.copied, List.getD_eq_getElem?_getD, hread, Option.getD_some, zero_add]
  have hend : approachesEnd (start.load ixMsgSpans msgSize).buf (buf.cell 52).toNat 53 =
      messageEnd buf := by
    refine approachesEnd_congr _ fun b hlow => start.load_cell ixMsgSpans_within ?_
    rw [hnext]
    exact hlow
  have hlow := le_approachesEnd buf (buf.cell 52).toNat 53
  change b ∈ (extractApproaches _ _).2.reads ↔ _
  rw [hcount, extractApproaches_reads, start.mem_load_reads ixMsgSpans_within, hnext, hend]
  change (b ∈ [] ∨ (0 ≤ b ∧ b < 0 + 53)) ∨ _ ↔ _
  rw [messageEnd]
  constructor
  · intro h
    rcases h with (hnil | hheader) | hrest
    · exact absurd hnil List.not_mem_nil
    · exact ⟨hheader.1, by omega⟩
    · exact ⟨by omega, hrest.2⟩
  · intro h
    by_cases hheader : b < 53
    · exact Or.inl (Or.inr ⟨h.1, by omega⟩)
    · exact Or.inr ⟨by omega, h.2⟩

/-! ## What the datagram declares -/

/-- The declared approaches, each with its stop lines, are there. -/
def ApproachesFit : Nat → List UChar → Prop
  | 0, _ => True
  | k+1, bs =>
      17 + 12 * (u8At bs 16).toNat ≤ bs.length ∧
        ApproachesFit k (bs.drop (17 + 12 * (u8At bs 16).toNat))

/-- The header and the declared approaches are there. -/
def DatagramFits (datagram : List UChar) : Prop :=
  53 ≤ datagram.length ∧ ApproachesFit (u8At datagram 52).toNat (datagram.drop 53)

/-- A byte of a held list. -/
private theorem Mem.Holds.cell_u8At {buf : Mem UChar} {a : Int} {bs : List UChar}
    (h : buf.Holds a bs) {k : Nat} (hk : k < bs.length) : buf.cell (a + k) = u8At bs k := by
  rw [h.cell_eq hk, u8At, List.getD_eq_getElem?_getD, List.getElem?_eq_getElem hk,
    Option.getD_some]

/-- What is held past the start of a held list. -/
private theorem Mem.Holds.drop {buf : Mem UChar} {a : Int} {bs : List UChar} (h : buf.Holds a bs)
    {k : Nat} (hk : k ≤ bs.length) : buf.Holds (a + k) (bs.drop k) := by
  have hsplit : buf.Holds a (bs.take k ++ bs.drop k) := by
    rw [List.take_append_drop]
    exact h
  have hrest := ((Mem.holds_append buf a _ _).mp hsplit).2
  rwa [List.length_take, Nat.min_eq_left hk] at hrest

theorem approachesEnd_le_iff {buf : Mem UChar} (k : Nat) {a : Int} {bs : List UChar}
    (h : buf.Holds a bs) : approachesEnd buf k a ≤ a + bs.length ↔ ApproachesFit k bs := by
  induction k generalizing a bs with
  | zero =>
      rw [approachesEnd, ApproachesFit]
      exact ⟨fun _ => trivial, fun _ => by omega⟩
  | succ k ih =>
      have hlow := le_approachesEnd buf k (a + (17 + 12 * (buf.cell (a + 16)).toNat))
      rw [approachesEnd, ApproachesFit]
      by_cases hlong : 16 < bs.length
      · have hcount : buf.cell (a + 16) = u8At bs 16 := Mem.Holds.cell_u8At h hlong
        rw [hcount] at hlow ⊢
        by_cases hfit : 17 + 12 * (u8At bs 16).toNat ≤ bs.length
        · have hrest := ih (Mem.Holds.drop h hfit)
          rw [List.length_drop] at hrest
          push_cast [hfit] at hrest
          rw [and_iff_right hfit, ← hrest]
          constructor
          · intro hle
            omega
          · intro hle
            omega
        · constructor
          · intro hle
            omega
          · intro hle
            exact absurd hle.1 hfit
      · constructor
        · intro hle
          omega
        · intro hle
          have := hle.1
          omega

/-- **How far a datagram is read**: whatever the buffer held before, the extractor reads
only bytes received exactly when the structure that the datagram declares fits in it. -/
theorem reads_below_received_iff (buf : Mem UChar) (datagram : List UChar) :
    (∀ b ∈ (ixMsgExtract (received buf datagram)).2.reads, b < datagram.length) ↔
      DatagramFits datagram := by
  have hheld : (received buf datagram).Holds 0 datagram := buf.write_holds 0 datagram
  have hlow := le_approachesEnd (received buf datagram) ((received buf datagram).cell 52).toNat 53
  have hbelow : (∀ b ∈ (ixMsgExtract (received buf datagram)).2.reads, b < datagram.length) ↔
      messageEnd (received buf datagram) ≤ datagram.length := by
    rw [messageEnd] at *
    constructor
    · intro h
      have hlast := h (messageEnd (received buf datagram) - 1)
        ((ixMsgExtract_reads _ _).mpr ⟨by rw [messageEnd]; omega, by omega⟩)
      rw [messageEnd] at hlast
      omega
    · intro h b hb
      have hrange := ((ixMsgExtract_reads _ _).mp hb).2
      rw [messageEnd] at hrange
      omega
  rw [hbelow, messageEnd, DatagramFits]
  by_cases hheader : 53 ≤ datagram.length
  · have hcount : (received buf datagram).cell 52 = u8At datagram 52 := by
      have hcell := Mem.Holds.cell_u8At hheld (show 52 < datagram.length by omega)
      simpa using hcell
    have hrest : (received buf datagram).Holds 53 (datagram.drop 53) := by
      have hdrop := Mem.Holds.drop hheld hheader
      simpa using hdrop
    have hfit := approachesEnd_le_iff (u8At datagram 52).toNat hrest
    rw [List.length_drop] at hfit
    push_cast [hheader] at hfit
    rw [hcount, and_iff_right hheader, ← hfit]
    constructor
    · intro hle
      omega
    · intro hle
      omega
  · constructor
    · intro hle
      omega
    · intro hle
      exact absurd hle.1 hheader

/-- A header alone that declares one approach is read past its end. -/
theorem reads_below_received_not_always :
    ¬ ∀ (buf : Mem UChar) (datagram : List UChar), datagram.length ≤ MAX_IX_MSG_PKT_SIZE →
      ∀ b ∈ (ixMsgExtract (received buf datagram)).2.reads, b < datagram.length := by
  intro h
  let header : List UChar := List.replicate 52 0 ++ [1]
  have hread : (53 : Int) ∈ (ixMsgExtract (received (Mem.ofList 0 []) header)).2.reads := by
    rw [ixMsgExtract_reads]
    decide
  exact absurd (h (Mem.ofList 0 []) header (by decide) 53 hread) (by decide)

end RfsAtsc
