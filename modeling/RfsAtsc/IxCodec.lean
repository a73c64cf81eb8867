import RfsAtsc.IxMessages

/-!
# The intersection message codec: `ix_msg_format` and `ix_msg_extract`

The formatter copies each struct to its place in the buffer and turns its multi-byte
fields round there; the extractor turns them round again in the buffer and copies the
struct out.  `MessageAt` says that a buffer spells a message: the formatter leaves such
a buffer, and the extractor reads the message off it.
-/

namespace RfsAtsc

open TracedMemory

/-! ## Byte order -/

/-- The fields `ix_msg_swap` turns round, in its order. -/
def ixMsgSpans : List CellSpan :=
  [(2, 2), (7, 4), (11, 4), (19, 4), (15, 4), (23, 2), (29, 4), (25, 4), (33, 2), (35, 4), (39, 4)]

/-- The field `ix_approach_swap` turns round. -/
def ixApproachSpans : List CellSpan := [(2, 2)]

/-- The fields `ix_stop_line_swap` turns round. -/
def ixStopLineSpans : List CellSpan := [(4, 4), (0, 4), (8, 2), (10, 2)]

/-- `ix_msg_swap` on the struct at `a`. -/
def ixMsgSwap (buf : Mem UChar) (a : Int) : Mem UChar := buf.swapFields a ixMsgSpans

/-- `ix_approach_swap` on the struct at `a`. -/
def ixApproachSwap (buf : Mem UChar) (a : Int) : Mem UChar := buf.swapFields a ixApproachSpans

/-- `ix_stop_line_swap` on the struct at `a`. -/
def ixStopLineSwap (buf : Mem UChar) (a : Int) : Mem UChar := buf.swapFields a ixStopLineSpans

theorem ixMsgSpans_apart : ixMsgSpans.Pairwise Apart := by decide

theorem ixApproachSpans_apart : ixApproachSpans.Pairwise Apart := by decide

theorem ixStopLineSpans_apart : ixStopLineSpans.Pairwise Apart := by decide

theorem ixMsgSpans_within : Within ixMsgSpans msgSize := by decide

theorem ixApproachSpans_within : Within ixApproachSpans approachSize := by decide

theorem ixStopLineSpans_within : Within ixStopLineSpans stopLineSize := by decide

/-! ## `ix_msg_format` -/

/-- The buffer, `cur` and `retval`. -/
structure Formatting where
  buf : Mem UChar
  cur : Int
  retval : Int

/-- One turn of the loop over the stop lines. -/
def formatLine (s : Formatting) (l : IxStopLine) : Formatting where
  buf := ixStopLineSwap (s.buf.write s.cur l.bytes) s.cur
  cur := s.cur + stopLineSize
  retval := s.retval + stopLineSize

/-- An approach's own struct. -/
def formatApproach (s : Formatting) (p : IxApproachFields) : Formatting where
  buf := ixApproachSwap (s.buf.write s.cur p.bytes) s.cur
  cur := s.cur + approachSize
  retval := s.retval + approachSize

/-- The loop over the approaches.  Only an approach's own struct is checked against
`buf_size`. -/
def formatApproaches (bufSize : Int) (s : Formatting) : List IxApproach → Int × Mem UChar
  | [] => (s.retval, s.buf)
  | p :: ps =>
      if s.retval + approachSize > bufSize then (-1, s.buf)
      else
        formatApproaches bufSize (p.stopLineArray.foldl formatLine (formatApproach s p.fields)) ps

/-- `ix_msg_format`: what it returns, and the buffer. -/
def ixMsgFormat (m : IxMsg) (buf : Mem UChar) (bufSize : Int) : Int × Mem UChar :=
  if (msgSize : Int) > bufSize then (-1, buf)
  else
    formatApproaches bufSize
      { buf := ixMsgSwap (buf.write 0 m.fields.bytes) 0, cur := msgSize, retval := msgSize }
      m.approachArray

/-! ## `ix_msg_extract` -/

/-- The addresses of `n` bytes from `a` up. -/
def addrs (a : Int) (n : Nat) : List Int := (List.range n).map (fun k : Nat => a + k)

/-- The buffer, the addresses read from it, and `cur`. -/
structure Extraction where
  buf : Mem UChar
  reads : List Int
  cur : Int

/-- The struct of `n` bytes at `cur`, after its fields are turned round. -/
def Extraction.copied (x : Extraction) (spans : List CellSpan) (n : Nat) : List UChar :=
  (x.buf.swapFields x.cur spans).take x.cur n

/-- Past that struct, with its fields turned round in the buffer. -/
def Extraction.load (x : Extraction) (spans : List CellSpan) (n : Nat) : Extraction where
  buf := x.buf.swapFields x.cur spans
  reads := x.reads ++ spans.flatMap (fun f => addrs (x.cur + f.1) f.2) ++ addrs x.cur n
  cur := x.cur + n

/-- The loop over the stop lines of an approach. -/
def extractLines : Nat → Extraction → List IxStopLine × Extraction
  | 0, x => ([], x)
  | k+1, x =>
      let l := IxStopLine.ofBytes (x.copied ixStopLineSpans stopLineSize)
      let rest := extractLines k (x.load ixStopLineSpans stopLineSize)
      (l :: rest.1, rest.2)

/-- As many stop lines come out as were asked for. -/
theorem extractLines_length (k : Nat) (x : Extraction) : (extractLines k x).1.length = k := by
  induction k generalizing x with
  | zero => rfl
  | succ k ih => exact congrArg Nat.succ (ih _)

/-- One turn of the loop over the approaches. -/
def extractApproach (x : Extraction) : IxApproach × Extraction :=
  let fields := IxApproachFields.ofBytes (x.copied ixApproachSpans approachSize)
  let lines := extractLines fields.numberOfStopLines.toNat (x.load ixApproachSpans approachSize)
  (⟨fields, lines.1, extractLines_length _ _⟩, lines.2)

/-- The loop over the approaches. -/
def extractApproaches : Nat → Extraction → List IxApproach × Extraction
  | 0, x => ([], x)
  | k+1, x =>
      let p := extractApproach x
      let rest := extractApproaches k p.2
      (p.1 :: rest.1, rest.2)

/-- As many approaches come out as were asked for. -/
theorem extractApproaches_length (k : Nat) (x : Extraction) :
    (extractApproaches k x).1.length = k := by
  induction k generalizing x with
  | zero => rfl
  | succ k ih => exact congrArg Nat.succ (ih _)

/-- `ix_msg_extract`: the message, and where it left the buffer. -/
def ixMsgExtract (buf : Mem UChar) : IxMsg × Extraction :=
  let start : Extraction := { buf := buf, reads := [], cur := 0 }
  let fields := IxMsgFields.ofBytes (start.copied ixMsgSpans msgSize)
  let approaches := extractApproaches fields.numApproaches.toNat (start.load ixMsgSpans msgSize)
  (⟨fields, approaches.1, extractApproaches_length _ _⟩, approaches.2)

/-! ## What a buffer spells -/

/-- The bytes of an approach with its stop lines. -/
def IxApproach.size (p : IxApproach) : Nat := 17 + 12 * p.stopLineArray.length

/-- The bytes of a list of approaches. -/
def approachesSize (ps : List IxApproach) : Nat := (ps.map IxApproach.size).sum

/-- The bytes of a message. -/
def IxMsg.encodedSize (m : IxMsg) : Nat := 53 + approachesSize m.approachArray

/-- The buffer spells the stop lines from `a` up. -/
def LinesAt (buf : Mem UChar) : Int → List IxStopLine → Prop
  | _, [] => True
  | a, l :: ls => buf.Swapped a ixStopLineSpans l.bytes ∧ LinesAt buf (a + 12) ls

/-- The buffer spells the approaches from `a` up. -/
def ApproachesAt (buf : Mem UChar) : Int → List IxApproach → Prop
  | _, [] => True
  | a, p :: ps =>
      buf.Swapped a ixApproachSpans p.fields.bytes ∧
        LinesAt buf (a + 17) p.stopLineArray ∧ ApproachesAt buf (a + p.size) ps

/-- The buffer spells the message. -/
def MessageAt (buf : Mem UChar) (m : IxMsg) : Prop :=
  buf.Swapped 0 ixMsgSpans m.fields.bytes ∧ ApproachesAt buf 53 m.approachArray

/-- The fields swapped in a stop line lie in it. -/
private theorem stopLine_within (l : IxStopLine) : Within ixStopLineSpans l.bytes.length := by
  rw [l.bytes_length]
  exact ixStopLineSpans_within

/-- The fields swapped in an approach lie in it. -/
private theorem approach_within (p : IxApproachFields) :
    Within ixApproachSpans p.bytes.length := by
  rw [p.bytes_length]
  exact ixApproachSpans_within

/-- Stop lines stay where their cells stay. -/
theorem LinesAt.congr {buf buf' : Mem UChar} {a : Int} {ls : List IxStopLine}
    (h : LinesAt buf a ls)
    (hsame : ∀ b, a ≤ b → b < a + 12 * ls.length → buf'.cell b = buf.cell b) :
    LinesAt buf' a ls := by
  induction ls generalizing a with
  | nil => trivial
  | cons l ls ih =>
      simp only [List.length_cons] at hsame
      refine ⟨h.1.congr ixStopLineSpans_apart (stopLine_within l) ?_, ih h.2 ?_⟩
      · intro b hlow hhigh
        have hhigh' : b < a + 12 := hhigh
        exact hsame b hlow (by push_cast; omega)
      · intro b hlow hhigh
        exact hsame b (by omega) (by push_cast at hhigh ⊢; omega)

/-- Approaches stay where the cells from their first on stay. -/
theorem ApproachesAt.congr {buf buf' : Mem UChar} {a : Int} {ps : List IxApproach}
    (h : ApproachesAt buf a ps) (hsame : ∀ b, a ≤ b → buf'.cell b = buf.cell b) :
    ApproachesAt buf' a ps := by
  induction ps generalizing a with
  | nil => trivial
  | cons p ps ih =>
      obtain ⟨hfields, hlines, hrest⟩ := h
      refine ⟨?_, ?_, ?_⟩
      · exact hfields.congr ixApproachSpans_apart (approach_within p.fields)
          fun b hlow _ => hsame b hlow
      · exact hlines.congr fun b hlow _ => hsame b (by omega)
      · exact ih hrest fun b hlow => hsame b (by omega)

/-! ## The formatter spells the message -/

/-- Storing a struct and turning its fields round changes its own bytes only. -/
private theorem write_swapFields_cell (buf : Mem UChar) (a : Int) {spans : List CellSpan}
    {bs : List UChar} (hwithin : Within spans bs.length) {b : Int}
    (hout : b < a ∨ a + bs.length ≤ b) :
    ((buf.write a bs).swapFields a spans).cell b = buf.cell b := by
  rw [Mem.swapFields_cell_beyond _ a hwithin hout, Mem.write_cell_outside _ _ _ hout]

/-- Formatting a stop line leaves the other cells. -/
theorem formatLine_cell (s : Formatting) (l : IxStopLine) {b : Int}
    (hout : b < s.cur ∨ s.cur + 12 ≤ b) : (formatLine s l).buf.cell b = s.buf.cell b :=
  write_swapFields_cell s.buf s.cur ixStopLineSpans_within hout

/-- Formatting an approach leaves the other cells. -/
theorem formatApproach_cell (s : Formatting) (p : IxApproachFields) {b : Int}
    (hout : b < s.cur ∨ s.cur + 17 ≤ b) :
    (formatApproach s p).buf.cell b = s.buf.cell b :=
  write_swapFields_cell s.buf s.cur ixApproachSpans_within hout

/-- A stop line stands swapped where the cursor was. -/
theorem formatLine_swapped (s : Formatting) (l : IxStopLine) :
    (formatLine s l).buf.Swapped s.cur ixStopLineSpans l.bytes := by
  simp only [formatLine, ixStopLineSwap]
  exact Mem.swapped_write_swapFields s.buf s.cur ixStopLineSpans_apart l.bytes

/-- An approach's own struct stands swapped where the cursor was. -/
theorem formatApproach_swapped (s : Formatting) (p : IxApproachFields) :
    (formatApproach s p).buf.Swapped s.cur ixApproachSpans p.bytes := by
  simp only [formatApproach, ixApproachSwap]
  exact Mem.swapped_write_swapFields s.buf s.cur ixApproachSpans_apart p.bytes

/-- What the loop over the stop lines leaves. -/
theorem formatLines_spec (ls : List IxStopLine) (s : Formatting) :
    (ls.foldl formatLine s).cur = s.cur + 12 * ls.length ∧
      (ls.foldl formatLine s).retval = s.retval + 12 * ls.length ∧
      LinesAt (ls.foldl formatLine s).buf s.cur ls ∧
      ∀ b < s.cur, (ls.foldl formatLine s).buf.cell b = s.buf.cell b := by
  induction ls generalizing s with
  | nil => exact ⟨by simp, by simp, trivial, fun _ _ => rfl⟩
  | cons l ls ih =>
      obtain ⟨hcur, hret, hlines, hbelow⟩ := ih (formatLine s l)
      rw [List.foldl_cons]
      have hnext : (formatLine s l).cur = s.cur + 12 := rfl
      have hnextRet : (formatLine s l).retval = s.retval + 12 := rfl
      refine ⟨?_, ?_, ⟨?_, hlines⟩, ?_⟩
      · rw [hcur, hnext, List.length_cons]
        push_cast
        ring
      · rw [hret, hnextRet, List.length_cons]
        push_cast
        ring
      · refine (formatLine_swapped s l).congr ixStopLineSpans_apart (stopLine_within l)
          fun b _ hhigh => ?_
        exact hbelow b hhigh
      · intro b hb
        rw [hbelow b (by omega), formatLine_cell s l (Or.inl hb)]

/-- What the loop over the approaches leaves, when they fit. -/
theorem formatApproaches_spec (bufSize : Int) (ps : List IxApproach) (s : Formatting)
    (hfit : s.retval + approachesSize ps ≤ bufSize) :
    (formatApproaches bufSize s ps).1 = s.retval + approachesSize ps ∧
      ApproachesAt (formatApproaches bufSize s ps).2 s.cur ps ∧
      ∀ b < s.cur, (formatApproaches bufSize s ps).2.cell b = s.buf.cell b := by
  induction ps generalizing s with
  | nil => exact ⟨by simp [formatApproaches, approachesSize], trivial, fun _ _ => rfl⟩
  | cons p ps ih =>
      have hsize : (approachesSize (p :: ps) : Int) =
          17 + 12 * p.stopLineArray.length + approachesSize ps := by
        simp only [approachesSize, List.map_cons, List.sum_cons, IxApproach.size]
        push_cast
        ring
      obtain ⟨hcur, hret, hlines, hbelow⟩ :=
        formatLines_spec p.stopLineArray (formatApproach s p.fields)
      have hnext : (formatApproach s p.fields).cur = s.cur + 17 := rfl
      have hnextRet : (formatApproach s p.fields).retval = s.retval + 17 := rfl
      have hroom : ¬ s.retval + 17 > bufSize := by omega
      obtain ⟨hresult, hrest, hkept⟩ :=
        ih (p.stopLineArray.foldl formatLine (formatApproach s p.fields)) (by omega)
      rw [formatApproaches, if_neg (show ¬ s.retval + approachSize > bufSize from hroom)]
      refine ⟨by omega, ⟨?_, ?_, ?_⟩, ?_⟩
      · refine (formatApproach_swapped s p.fields).congr ixApproachSpans_apart
          (approach_within p.fields) fun b _ hhigh => ?_
        have hhigh' : b < s.cur + 17 := hhigh
        rw [hkept b (by omega), hbelow b (by omega)]
      · exact hlines.congr fun b _ hhigh => hkept b (by omega)
      · have haddr : s.cur + (p.size : Int) =
            (p.stopLineArray.foldl formatLine (formatApproach s p.fields)).cur := by
          rw [hcur, hnext, IxApproach.size]
          push_cast
          ring
        rw [haddr]
        exact hrest
      · intro b hb
        rw [hkept b (by omega), hbelow b (by omega), formatApproach_cell s p.fields (Or.inl hb)]

/-- A message's own struct stands swapped wherever its bytes are left alone. -/
private theorem ixMsgSwap_kept (buf : Mem UChar) {buf' : Mem UChar} {bs : List UChar}
    (hlength : bs.length = msgSize)
    (hkept : ∀ b : Int, b < msgSize → buf'.cell b = (ixMsgSwap (buf.write 0 bs) 0).cell b) :
    buf'.Swapped 0 ixMsgSpans bs := by
  have hwithin : Within ixMsgSpans bs.length := by
    rw [hlength]
    exact ixMsgSpans_within
  refine (Mem.swapped_write_swapFields buf 0 ixMsgSpans_apart bs).congr ixMsgSpans_apart hwithin
    fun b _ hhigh => ?_
  rw [hlength, zero_add] at hhigh
  exact hkept b hhigh

/-- A message that fits is spelt from the start of the buffer, and its size returned. -/
theorem ixMsgFormat_spec (m : IxMsg) (buf : Mem UChar) {bufSize : Int}
    (hfit : (m.encodedSize : Int) ≤ bufSize) :
    (ixMsgFormat m buf bufSize).1 = m.encodedSize ∧
      MessageAt (ixMsgFormat m buf bufSize).2 m := by
  have hsize : (m.encodedSize : Int) = 53 + approachesSize m.approachArray := by
    rw [IxMsg.encodedSize]
    push_cast
    rfl
  have hroom : ¬ (53 : Int) > bufSize := by omega
  obtain ⟨hret, happroaches, hkept⟩ := formatApproaches_spec bufSize m.approachArray
    { buf := ixMsgSwap (buf.write 0 m.fields.bytes) 0, cur := msgSize, retval := msgSize }
    (by rw [hsize] at hfit; exact hfit)
  rw [ixMsgFormat, if_neg (show ¬ (msgSize : Int) > bufSize from hroom)]
  refine ⟨hret.trans hsize.symm, ?_, happroaches⟩
  apply ixMsgSwap_kept buf m.fields.bytes_length
  intro b hb
  exact hkept b hb

/-! ## The extractor reads the message off -/

@[simp] theorem Extraction.load_cur (x : Extraction) (spans : List CellSpan) (n : Nat) :
    (x.load spans n).cur = x.cur + n := rfl

/-- Past a struct the buffer is as it was. -/
theorem Extraction.load_cell (x : Extraction) {spans : List CellSpan} {n : Nat}
    (hwithin : Within spans n) {b : Int} (hb : (x.load spans n).cur ≤ b) :
    (x.load spans n).buf.cell b = x.buf.cell b :=
  x.buf.swapFields_cell_beyond x.cur hwithin (Or.inr hb)

/-- A struct held swapped is copied out as it was stored. -/
theorem Extraction.copied_eq {x : Extraction} {spans : List CellSpan} {bs : List UChar}
    {n : Nat} (hn : bs.length = n) (h : x.buf.Swapped x.cur spans bs) :
    x.copied spans n = bs := by
  rw [← hn]
  exact (Mem.holds_iff_take _ _ _).mp h

/-- Stop lines that lie ahead are extracted, and what is behind them is left. -/
theorem extractLines_spec (ls : List IxStopLine) (x : Extraction)
    (h : LinesAt x.buf x.cur ls) :
    (extractLines ls.length x).1 = ls ∧
      (extractLines ls.length x).2.cur = x.cur + 12 * ls.length ∧
      ∀ b, (extractLines ls.length x).2.cur ≤ b →
        (extractLines ls.length x).2.buf.cell b = x.buf.cell b := by
  induction ls generalizing x with
  | nil => exact ⟨rfl, by simp [extractLines], fun _ _ => rfl⟩
  | cons l ls ih =>
      have hkept : LinesAt (x.load ixStopLineSpans stopLineSize).buf
          (x.load ixStopLineSpans stopLineSize).cur ls :=
        h.2.congr fun b hlow _ => x.load_cell ixStopLineSpans_within hlow
      obtain ⟨hread, hcur, hbeyond⟩ := ih (x.load ixStopLineSpans stopLineSize) hkept
      have hcopied : x.copied ixStopLineSpans stopLineSize = l.bytes :=
        Extraction.copied_eq l.bytes_length h.1
      have hnext : (x.load ixStopLineSpans stopLineSize).cur = x.cur + 12 := rfl
      rw [hnext] at hcur
      simp only [List.length_cons, extractLines]
      refine ⟨?_, ?_, ?_⟩
      · rw [hcopied, IxStopLine.ofBytes_bytes, hread]
      · rw [hcur]
        push_cast
        ring
      · intro b hb
        rw [hbeyond b hb, x.load_cell ixStopLineSpans_within (by omega)]

/-- An approach that lies ahead is extracted with its stop lines, and what is behind is left. -/
theorem extractApproach_spec (p : IxApproach) (x : Extraction)
    (hfields : x.buf.Swapped x.cur ixApproachSpans p.fields.bytes)
    (hlines : LinesAt x.buf (x.cur + 17) p.stopLineArray) :
    (extractApproach x).1 = p ∧ (extractApproach x).2.cur = x.cur + p.size ∧
      ∀ b, (extractApproach x).2.cur ≤ b →
        (extractApproach x).2.buf.cell b = x.buf.cell b := by
  have hkept : LinesAt (x.load ixApproachSpans approachSize).buf
      (x.load ixApproachSpans approachSize).cur p.stopLineArray :=
    hlines.congr fun b hlow _ => x.load_cell ixApproachSpans_within hlow
  obtain ⟨hread, hcur, hbeyond⟩ :=
    extractLines_spec p.stopLineArray (x.load ixApproachSpans approachSize) hkept
  have hcopied : x.copied ixApproachSpans approachSize = p.fields.bytes :=
    Extraction.copied_eq (IxApproachFields.bytes_length _) hfields
  obtain ⟨fields, lines, hlength⟩ := p
  simp only at hread hcur hbeyond hcopied hlength
  have hnext : (x.load ixApproachSpans approachSize).cur = x.cur + 17 := rfl
  rw [hnext] at hcur
  simp only [extractApproach, hcopied, IxApproachFields.ofBytes_bytes, ← hlength]
  refine ⟨?_, ?_, ?_⟩
  · rw [IxApproach.mk.injEq]
    exact ⟨rfl, hread⟩
  · rw [hcur, IxApproach.size]
    push_cast
    ring
  · intro b hb
    rw [hbeyond b hb, x.load_cell ixApproachSpans_within (by omega)]

/-- Approaches that lie ahead are extracted one by one. -/
theorem extractApproaches_spec (ps : List IxApproach) (x : Extraction)
    (h : ApproachesAt x.buf x.cur ps) :
    (extractApproaches ps.length x).1 = ps ∧
      (extractApproaches ps.length x).2.cur = x.cur + approachesSize ps := by
  induction ps generalizing x with
  | nil => exact ⟨rfl, by simp [extractApproaches, approachesSize]⟩
  | cons p ps ih =>
      obtain ⟨hfields, hlines, hrest⟩ := h
      obtain ⟨hread, hcur, hbeyond⟩ := extractApproach_spec p x hfields hlines
      have hkept : ApproachesAt (extractApproach x).2.buf (extractApproach x).2.cur ps := by
        rw [← hcur] at hrest
        exact hrest.congr hbeyond
      obtain ⟨hreadRest, hcurRest⟩ := ih (extractApproach x).2 hkept
      simp only [List.length_cons, extractApproaches]
      refine ⟨by rw [hread, hreadRest], ?_⟩
      rw [hcurRest, hcur]
      simp only [approachesSize, List.map_cons, List.sum_cons]
      push_cast
      ring

/-- A spelt message is read off whole, and `cur` ends at its end. -/
theorem ixMsgExtract_spec (m : IxMsg) (buf : Mem UChar) (h : MessageAt buf m) :
    (ixMsgExtract buf).1 = m ∧ (ixMsgExtract buf).2.cur = m.encodedSize := by
  obtain ⟨hfields, happroaches⟩ := h
  have hcopied : ({ buf := buf, reads := [], cur := 0 } : Extraction).copied ixMsgSpans msgSize =
      m.fields.bytes :=
    Extraction.copied_eq (x := { buf := buf, reads := [], cur := 0 }) m.fields.bytes_length hfields
  have hkept : ApproachesAt
      (({ buf := buf, reads := [], cur := 0 } : Extraction).load ixMsgSpans msgSize).buf
      (({ buf := buf, reads := [], cur := 0 } : Extraction).load ixMsgSpans msgSize).cur
      m.approachArray := by
    rw [Extraction.load_cur, zero_add]
    exact happroaches.congr fun b hlow =>
      Extraction.load_cell _ ixMsgSpans_within (by rw [Extraction.load_cur, zero_add]; exact hlow)
  obtain ⟨hread, hcur⟩ := extractApproaches_spec m.approachArray _ hkept
  obtain ⟨fields, approaches, hlength⟩ := m
  simp only at hcopied hread hcur hlength
  simp only [ixMsgExtract, hcopied, IxMsgFields.ofBytes_bytes, ← hlength]
  refine ⟨?_, ?_⟩
  · rw [IxMsg.mk.injEq]
    exact ⟨rfl, hread⟩
  · rw [hcur, Extraction.load_cur, IxMsg.encodedSize]
    push_cast
    ring

/-- **Round trip**: a message formatted into a buffer with room for it is extracted
again, and the extractor consumes as many bytes as the formatter returned. -/
theorem ixMsgExtract_ixMsgFormat (m : IxMsg) (buf : Mem UChar) (bufSize : Int)
    (hfit : (m.encodedSize : Int) ≤ bufSize) :
    (ixMsgExtract (ixMsgFormat m buf bufSize).2).1 = m ∧
      (ixMsgExtract (ixMsgFormat m buf bufSize).2).2.cur = (ixMsgFormat m buf bufSize).1 := by
  obtain ⟨hret, hspelt⟩ := ixMsgFormat_spec m buf hfit
  obtain ⟨hread, hcur⟩ := ixMsgExtract_spec m _ hspelt
  exact ⟨hread, by rw [hcur, hret]⟩

/-- A message of one approach with one stop line. -/
private def oneApproach : IxMsg where
  fields := { (IxMsgFields.ofBytes [0x7e, 2]) with numApproaches := 1 }
  approachArray :=
    [{ fields := { (IxApproachFields.ofBytes [1, 3, 0x2c, 1]) with numberOfStopLines := 1 }
       stopLineArray := [⟨379155444, 0xb713f9c9, 390, 18⟩]
       length_eq := rfl }]
  length_eq := rfl

/-- The round trip of that message through the 463 bytes that the sender has. -/
theorem ixMsgExtract_ixMsgFormat_oneApproach :
    (ixMsgExtract (ixMsgFormat oneApproach (Mem.ofList 0 []) 463).2).1 = oneApproach ∧
      (ixMsgExtract (ixMsgFormat oneApproach (Mem.ofList 0 []) 463).2).2.cur =
        (ixMsgFormat oneApproach (Mem.ofList 0 []) 463).1 :=
  ixMsgExtract_ixMsgFormat oneApproach _ 463 (by decide)

end RfsAtsc
