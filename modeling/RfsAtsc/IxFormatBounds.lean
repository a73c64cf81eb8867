import RfsAtsc.IxCodec

/-!
# How far a message is formatted: `ix_msg_format`

The formatter checks `buf_size` before it copies the header and before each approach's
own struct, and not before a stop line.  So it keeps to its buffer, and reports a message
that is too long, exactly when the buffer does not end within the stop lines of an
approach.
-/

namespace RfsAtsc

open TracedMemory

/-- What `ix_msg_format` is to do: -1 exactly when the message is longer than the buffer,
its size otherwise, and nothing stored at or past the end of the buffer. -/
structure FormatsWithin (m : IxMsg) (buf : Mem UChar) (bufSize : Int) : Prop where
  refused : (ixMsgFormat m buf.untraced bufSize).1 = -1 ↔ bufSize < m.encodedSize
  counted : (m.encodedSize : Int) ≤ bufSize →
    (ixMsgFormat m buf.untraced bufSize).1 = m.encodedSize
  within : ∀ b ∈ (ixMsgFormat m buf.untraced bufSize).2.stored, b < bufSize

/-- The buffer ends within the stop lines of one of the approaches from `a` up. -/
def EndsInLinesFrom (bufSize a : Int) (ps : List IxApproach) : Prop :=
  ∃ before p after, ps = before ++ p :: after ∧
    a + approachesSize before + approachSize ≤ bufSize ∧
      bufSize < a + approachesSize before + p.size

/-- The buffer ends within the stop lines of an approach of the message. -/
def EndsInLines (m : IxMsg) (bufSize : Int) : Prop :=
  EndsInLinesFrom bufSize msgSize m.approachArray

/-! ## The addresses stored to -/

/-- Turning fields round stores to the record only. -/
private theorem mem_swapFields_stored (m : Mem UChar) (base : Int) {fs : List CellSpan} {n : Nat}
    (hwithin : Within fs n) {b : Int} (hb : b ∈ (m.swapFields base fs).stored) :
    b ∈ m.stored ∨ base ≤ b ∧ b < base + n := by
  induction fs generalizing m with
  | nil => exact Or.inl hb
  | cons f fs ih =>
      have hend : f.1 + f.2 ≤ n := hwithin f List.mem_cons_self
      rw [Mem.swapFields, List.foldl_cons] at hb
      rcases ih _ (fun g hg => hwithin g (List.mem_cons_of_mem f hg)) hb with hfirst | hrest
      · rcases (Mem.mem_write_stored _ _ _).mp hfirst with hold | hfield
        · exact Or.inl hold
        · rw [List.length_reverse, Mem.take_length] at hfield
          exact Or.inr (by omega)
      · exact Or.inr hrest

/-- Swapping fields stores more at most. -/
private theorem stored_subset_swapFields (m : Mem UChar) (base : Int) (fs : List CellSpan) {b : Int}
    (hb : b ∈ m.stored) : b ∈ (m.swapFields base fs).stored := by
  induction fs generalizing m with
  | nil => exact hb
  | cons f fs ih => exact ih (m.turn _ _) ((Mem.mem_write_stored _ _ _).mpr (Or.inl hb))

/-- Storing a struct and turning its fields round stores to every address of the struct. -/
private theorem mem_copied_stored (m : Mem UChar) (a : Int) {spans : List CellSpan}
    (bs : List UChar) (hwithin : Within spans bs.length) {b : Int} :
    b ∈ ((m.write a bs).swapFields a spans).stored ↔
      b ∈ m.stored ∨ a ≤ b ∧ b < a + bs.length := by
  constructor
  · intro h
    rcases mem_swapFields_stored _ a hwithin h with hwrite | hstruct
    · exact (Mem.mem_write_stored m a bs).mp hwrite
    · exact Or.inr hstruct
  · intro h
    exact stored_subset_swapFields _ a spans ((Mem.mem_write_stored m a bs).mpr h)

/-- Stop lines are stored where they lie, and nowhere else. -/
theorem mem_formatLines_stored (ls : List IxStopLine) (s : Formatting) {b : Int} :
    b ∈ (ls.foldl formatLine s).buf.stored ↔
      b ∈ s.buf.stored ∨ s.cur ≤ b ∧ b < s.cur + 12 * ls.length := by
  induction ls generalizing s with
  | nil =>
      rw [List.foldl_nil, List.length_nil]
      exact (or_iff_left (by omega)).symm
  | cons l ls ih =>
      have hline : b ∈ (formatLine s l).buf.stored ↔
          b ∈ s.buf.stored ∨ s.cur ≤ b ∧ b < s.cur + 12 :=
        mem_copied_stored s.buf s.cur l.bytes ixStopLineSpans_within
      have hnext : (formatLine s l).cur = s.cur + 12 := rfl
      rw [List.foldl_cons, ih, hline, hnext, List.length_cons, or_assoc]
      refine or_congr_right ?_
      push_cast
      omega

/-- One turn of the loop over the approaches, once its check has passed. -/
def formatWhole (s : Formatting) (p : IxApproach) : Formatting :=
  p.stopLineArray.foldl formatLine (formatApproach s p.fields)

/-- So is an approach with its stop lines. -/
theorem formatWhole_spec (s : Formatting) (p : IxApproach) :
    (formatWhole s p).cur = s.cur + p.size ∧ (formatWhole s p).retval = s.retval + p.size ∧
      ∀ b, b ∈ (formatWhole s p).buf.stored ↔
        b ∈ s.buf.stored ∨ s.cur ≤ b ∧ b < s.cur + p.size := by
  obtain ⟨hcur, hret, _, _⟩ := formatLines_spec p.stopLineArray (formatApproach s p.fields)
  have hnext : (formatApproach s p.fields).cur = s.cur + 17 := rfl
  have hnextRet : (formatApproach s p.fields).retval = s.retval + 17 := rfl
  have hsize : (p.size : Int) = 17 + 12 * p.stopLineArray.length := by
    rw [IxApproach.size]
    push_cast
    rfl
  refine ⟨?_, ?_, fun b => ?_⟩
  · rw [formatWhole, hcur, hnext, hsize, add_assoc]
  · rw [formatWhole, hret, hnextRet, hsize, add_assoc]
  · have hstruct : b ∈ (formatApproach s p.fields).buf.stored ↔
        b ∈ s.buf.stored ∨ s.cur ≤ b ∧ b < s.cur + 17 :=
      mem_copied_stored s.buf s.cur p.fields.bytes ixApproachSpans_within
    rw [formatWhole, mem_formatLines_stored, hstruct, hnext, or_assoc]
    refine or_congr_right ?_
    omega

/-! ## The loop over the approaches -/

/-- The first of several approaches takes its size. -/
theorem approachesSize_cons (p : IxApproach) (ps : List IxApproach) :
    (approachesSize (p :: ps) : Int) = p.size + approachesSize ps := by
  simp [approachesSize]

/-- The buffer ends in the stop lines of the first approach, or further on. -/
theorem endsInLinesFrom_cons (bufSize a : Int) (p : IxApproach) (ps : List IxApproach) :
    EndsInLinesFrom bufSize a (p :: ps) ↔
      (a + approachSize ≤ bufSize ∧ bufSize < a + p.size) ∨
        EndsInLinesFrom bufSize (a + p.size) ps := by
  constructor
  · intro h
    obtain ⟨before, q, after, hsplit, hstruct, hlines⟩ := h
    cases before with
    | nil =>
        obtain ⟨rfl, _⟩ := List.cons.inj hsplit
        simp only [approachesSize, List.map_nil, List.sum_nil] at hstruct hlines
        exact Or.inl (by omega)
    | cons r before =>
        obtain ⟨rfl, hrest⟩ := List.cons.inj hsplit
        rw [approachesSize_cons] at hstruct hlines
        exact Or.inr ⟨before, q, after, hrest, by omega, by omega⟩
  · intro h
    rcases h with ⟨hstruct, hlines⟩ | ⟨before, q, after, rfl, hstruct, hlines⟩
    · exact ⟨[], p, ps, rfl, by simpa [approachesSize] using hstruct,
        by simpa [approachesSize] using hlines⟩
    · refine ⟨p :: before, q, after, rfl, ?_, ?_⟩
      · rw [approachesSize_cons]
        omega
      · rw [approachesSize_cons]
        omega

/-- An approach too long for the buffer ends the loop. -/
private theorem formatApproaches_stop {bufSize : Int} {s : Formatting} (p : IxApproach)
    (ps : List IxApproach) (h : s.retval + approachSize > bufSize) :
    formatApproaches bufSize s (p :: ps) = (-1, s.buf) := if_pos h

/-- With room for it an approach is formatted as a whole. -/
private theorem formatApproaches_next {bufSize : Int} {s : Formatting} (p : IxApproach)
    (ps : List IxApproach) (h : ¬ s.retval + approachSize > bufSize) :
    formatApproaches bufSize s (p :: ps) = formatApproaches bufSize (formatWhole s p) ps := if_neg h

/-- Formatting approaches stores more at most. -/
theorem stored_subset_formatApproaches (bufSize : Int) (ps : List IxApproach) (s : Formatting)
    {b : Int} (hb : b ∈ s.buf.stored) : b ∈ (formatApproaches bufSize s ps).2.stored := by
  induction ps generalizing s with
  | nil => exact hb
  | cons p ps ih =>
      by_cases hstop : s.retval + approachSize > bufSize
      · rw [formatApproaches_stop p ps hstop]
        exact hb
      · rw [formatApproaches_next p ps hstop]
        exact ih _ (((formatWhole_spec s p).2.2 b).mpr (Or.inl hb))

/-- What the loop does when the buffer ends in no stop lines: it refuses exactly what does
not fit, and stores below the end. -/
theorem formatApproaches_within {bufSize : Int} {ps : List IxApproach} {s : Formatting}
    (hcur : s.cur = s.retval) (hroom : s.retval ≤ bufSize)
    (hfits : ¬ EndsInLinesFrom bufSize s.retval ps) :
    ((formatApproaches bufSize s ps).1 =
        if s.retval + approachesSize ps ≤ bufSize then s.retval + approachesSize ps else -1) ∧
      ∀ b ∈ (formatApproaches bufSize s ps).2.stored, b ∈ s.buf.stored ∨ b < bufSize := by
  induction ps generalizing s with
  | nil =>
      have hsize : s.retval + ((approachesSize [] : Nat) : Int) = s.retval := add_zero _
      rw [hsize, if_pos hroom]
      exact ⟨rfl, fun b hb => Or.inl hb⟩
  | cons p ps ih =>
      rw [endsInLinesFrom_cons, not_or] at hfits
      have hstruct : (p.size : Int) = 17 + 12 * p.stopLineArray.length := by
        rw [IxApproach.size]
        push_cast
        rfl
      rw [approachesSize_cons]
      by_cases hstop : s.retval + approachSize > bufSize
      · rw [formatApproaches_stop p ps hstop]
        change s.retval + 17 > bufSize at hstop
        rw [if_neg (by omega)]
        exact ⟨rfl, fun b hb => Or.inl hb⟩
      · obtain ⟨hnext, hnextRet, hstored⟩ := formatWhole_spec s p
        have hwhole : s.retval + p.size ≤ bufSize := by
          by_contra hover
          exact hfits.1 ⟨not_lt.mp hstop, by omega⟩
        obtain ⟨hret, hwithin⟩ := @ih (formatWhole s p) (by omega) (by omega)
          (by rw [hnextRet]; exact hfits.2)
        rw [formatApproaches_next p ps hstop, hret, hnextRet, add_assoc]
        refine ⟨rfl, fun b hb => ?_⟩
        rcases hwithin b hb with hbefore | hlow
        · rcases (hstored b).mp hbefore with hold | happroach
          · exact Or.inl hold
          · exact Or.inr (by omega)
        · exact Or.inr hlow

/-- When the buffer ends in the stop lines of an approach, the loop stores past its end. -/
theorem formatApproaches_overruns {bufSize : Int} {ps : List IxApproach} {s : Formatting}
    (hcur : s.cur = s.retval) (hends : EndsInLinesFrom bufSize s.retval ps) :
    ∃ b ∈ (formatApproaches bufSize s ps).2.stored, bufSize ≤ b := by
  induction ps generalizing s with
  | nil =>
      obtain ⟨before, p, after, hsplit, _⟩ := hends
      exact absurd hsplit.symm (by simp)
  | cons p ps ih =>
      obtain ⟨hnext, hnextRet, hstored⟩ := formatWhole_spec s p
      have hstruct : 17 ≤ p.size := by
        rw [IxApproach.size]
        omega
      rw [endsInLinesFrom_cons] at hends
      rcases hends with ⟨hroom, hlines⟩ | hlater
      · rw [formatApproaches_next p ps (not_lt.mpr hroom)]
        refine ⟨s.cur + p.size - 1, ?_, by omega⟩
        apply stored_subset_formatApproaches
        exact (hstored _).mpr (Or.inr ⟨by omega, by omega⟩)
      · have hroom : ¬ s.retval + approachSize > bufSize := by
          obtain ⟨before, q, after, _, hroom, _⟩ := hlater
          change ¬ s.retval + 17 > bufSize
          omega
        rw [formatApproaches_next p ps hroom]
        exact @ih (formatWhole s p) (by omega) (by rw [hnextRet]; exact hlater)

/-! ## The whole message -/

/-- The formatter once the header has been copied. -/
private def afterHeader (m : IxMsg) (buf : Mem UChar) : Formatting :=
  { buf := ixMsgSwap (buf.write 0 m.fields.bytes) 0, cur := msgSize, retval := msgSize }

/-- The header is stored in the first 53 bytes. -/
private theorem mem_afterHeader_stored (m : IxMsg) (buf : Mem UChar) {b : Int} :
    b ∈ (afterHeader m buf.untraced).buf.stored ↔ 0 ≤ b ∧ b < 53 := by
  have hwithin : Within ixMsgSpans m.fields.bytes.length := by
    rw [m.fields.bytes_length]
    exact ixMsgSpans_within
  refine (mem_copied_stored buf.untraced 0 m.fields.bytes hwithin).trans ?_
  rw [m.fields.bytes_length]
  change b ∈ [] ∨ (0 ≤ b ∧ b < 0 + 53) ↔ _
  rw [or_iff_right List.not_mem_nil, zero_add]

/-- The size of a message is that of its header and its approaches. -/
private theorem encodedSize_cast (m : IxMsg) :
    (m.encodedSize : Int) = msgSize + approachesSize m.approachArray := by
  rw [IxMsg.encodedSize]
  push_cast
  rfl

/-- **How far a message is formatted**: `ix_msg_format` returns -1 exactly for a message
that is longer than the buffer, its size otherwise, and stores nothing at or past the end,
exactly when the buffer does not end within the stop lines of an approach. -/
theorem formatsWithin_iff (m : IxMsg) (buf : Mem UChar) (bufSize : Int) :
    FormatsWithin m buf bufSize ↔ ¬ EndsInLines m bufSize := by
  have hsize := encodedSize_cast m
  by_cases hheader : (msgSize : Int) > bufSize
  · have hformat : ixMsgFormat m buf.untraced bufSize = (-1, buf.untraced) := if_pos hheader
    constructor
    · intro _ hends
      obtain ⟨before, p, after, _, hroom, _⟩ := hends
      change 53 > bufSize at hheader
      change 53 + (approachesSize before : Int) + 17 ≤ bufSize at hroom
      omega
    · intro _
      refine ⟨?_, ?_, ?_⟩
      · rw [hformat]
        exact iff_of_true rfl (by omega)
      · intro hfits
        omega
      · intro b hb
        rw [hformat] at hb
        exact absurd hb List.not_mem_nil
  · have hformat : ixMsgFormat m buf.untraced bufSize =
        formatApproaches bufSize (afterHeader m buf.untraced) m.approachArray := if_neg hheader
    constructor
    · intro h hends
      obtain ⟨b, hb, hpast⟩ :=
        @formatApproaches_overruns bufSize _ (afterHeader m buf.untraced) rfl hends
      have hbelow := h.within b (by rw [hformat]; exact hb)
      omega
    · intro hends
      obtain ⟨hret, hstored⟩ := @formatApproaches_within bufSize _ (afterHeader m buf.untraced) rfl
        (not_lt.mp hheader) hends
      change _ = if (msgSize : Int) + _ ≤ bufSize then (msgSize : Int) + _ else -1 at hret
      rw [← hsize, ← hformat] at hret
      refine ⟨?_, ?_, ?_⟩
      · rw [hret]
        split
        · omega
        · omega
      · intro hfits
        rw [hret, if_pos hfits]
      · intro b hb
        rw [hformat] at hb
        rcases hstored b hb with hcopied | hbelow
        · have hrange := (mem_afterHeader_stored m buf).mp hcopied
          change ¬ 53 > bufSize at hheader
          omega
        · exact hbelow

/-- A message of one approach with two stop lines, 94 bytes of it, is not refused by a
buffer of 75. -/
theorem formatsWithin_not_always :
    ¬ ∀ (m : IxMsg) (buf : Mem UChar) (bufSize : Int), FormatsWithin m buf bufSize := by
  intro h
  let line : IxStopLine := ⟨379156194, -1223348805, 400, 0⟩
  let approach : IxApproach :=
    ⟨⟨1, 1, 0, 0, 0, 255, 0, 255, 255, 0, 255, 0, 0, 0, 0, 2⟩, [line, line], rfl⟩
  let m : IxMsg :=
    ⟨⟨126, 2, 94, 0, 0, 0, 1, 1, 0, 0, 0, 0, 0, 0, 0, 0, 0, 0, 0, 0, 0, 0, 0, 0, 0, 1⟩,
      [approach], rfl⟩
  have hrefused := (h m (Mem.ofList 0 []) 75).refused.mpr (by decide)
  have hret : (ixMsgFormat m (Mem.ofList 0 []).untraced 75).1 = 94 := rfl
  rw [hret] at hrefused
  exact absurd hrefused (by decide)

end RfsAtsc
