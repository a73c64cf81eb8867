import RfsAtsc.FcsHdlc

/-!
# The frame readers: `ser_driver_read` and `ser_driver_read_udp`

Both readers read a port byte by byte into a message buffer, undo the stuffing
as they go, and test the check once the closing flag is in.  A port is the list
of the bytes it will still deliver; once it is empty a `select` times out.  The
`select` in front of the byte behind an escape is the exception: its time-out is
reported and then ignored, so the `read` after it waits for ever.

The second byte of a message is stored as it comes: a flag there is taken for
the opening flag of the message proper, and an escape there is not undone.
-/

namespace RfsAtsc

open TracedMemory ByteStuffing

/-- How reading a message ends: at the closing flag, past 95 bytes, at an escape
in front of no stand-in, with a time-out, or waiting for ever. -/
inductive LoopEnd where
  | flag
  | tooLong
  | illegal
  | silent
  | blocked
deriving DecidableEq

/-- The readers' variables once reading a message has ended. -/
structure Parse where
  ended : LoopEnd
  msgbuf : Mem Byte
  i : Nat
  port : List Byte

/-- The loop `for (i=ii; i<100; i++)` that reads the remainder of a message. -/
def readLoop : List Byte → Nat → Mem Byte → Parse
  | [], i, m =>
      if i < 100 then { ended := .silent, msgbuf := m, i := i, port := [] }
      else { ended := .flag, msgbuf := m, i := i, port := [] }
  | b :: port, i, m =>
      if i < 100 then
        let m := m.store i b
        if i > 95 then { ended := .tooLong, msgbuf := m, i := i, port := port }
        else if b = 0x7e then { ended := .flag, msgbuf := m, i := i, port := port }
        else if b = 0x7d then
          match port with
          | [] => { ended := .blocked, msgbuf := m, i := i, port := [] }
          | e :: port =>
              let m := m.store (i + 1) e
              if e = 0x5e then readLoop port (i + 1) (m.store i 0x7e)
              else if e ≠ 0x5d then { ended := .illegal, msgbuf := m, i := i, port := port }
              else readLoop port (i + 1) m
        else readLoop port (i + 1) m
      else { ended := .flag, msgbuf := m, i := i, port := b :: port }

/-- The body of `while (msgbuf[0] != 0x7e)` up to the end of the loop over the
message: the first byte, the second, and the remainder. -/
def readMessage : List Byte → Mem Byte → Parse
  | [], m => { ended := .silent, msgbuf := m, i := 0, port := [] }
  | [b], m => { ended := .silent, msgbuf := m.store 0 b, i := 0, port := [] }
  | b :: b' :: port, m =>
      let m := (m.store 0 b).store 1 b'
      let ii := if b' ≠ 0x7e then 2 else 1
      readLoop port ii m

/-- `oldfcs = ~(msgbuf[i-2] << 8) | ~msgbuf[i-1]` over `unsigned char`. -/
def oldfcs (a b : Byte) : U16 :=
  (~~~ (a.zeroExtend 32 <<< 8) ||| ~~~ b.zeroExtend 32).setWidth 16

/-- `oldfcs = ~(msgbuf[i-2] << 8) | ~msgbuf[i-1]` over `char`, which is signed. -/
def oldfcsUdp (a b : Byte) : U16 :=
  (~~~ (a.signExtend 32 <<< 8) ||| ~~~ b.signExtend 32).setWidth 16

/-- `newfcs`: the check over the message, its own two bytes included. -/
def Parse.newfcs (old : Byte → Byte → U16) (p : Parse) : U16 :=
  pppfcs (old (p.msgbuf.cell (p.i - 2)) (p.msgbuf.cell (p.i - 1))) (p.msgbuf.take 1 (p.i - 1))

/-- What a reader returns, `none` for one that waits for ever; the caller's
message; and the bytes it left on the port. -/
structure ReadResult where
  ret : Option Bool
  messagebuff : Mem Byte
  port : List Byte

/-- `ser_driver_read`.  The buffer `msgbuf` is on the stack and cleared first.
The body of the `while` returns on every path. -/
def serDriverRead (port : List Byte) (messagebuff stack : Mem Byte) : ReadResult :=
  let msgbuf := stack.write 0 (List.replicate 100 0)
  if msgbuf.cell 0 ≠ 0x7e then
    let p := readMessage port msgbuf
    match p.ended with
    | .flag =>
        let messagebuff := messagebuff.write 0 (p.msgbuf.take 0 100)
        if p.newfcs oldfcs ≠ 0xf0b8 then ⟨some false, messagebuff, p.port⟩
        else ⟨some true, messagebuff, p.port⟩
    | .blocked => ⟨none, messagebuff, p.port⟩
    | _ => ⟨some false, messagebuff, p.port⟩
  else ⟨some true, messagebuff, port⟩

/-- `ser_driver_read_udp`.  The buffer is the caller's message itself, and it is
not cleared. -/
def serDriverReadUdp (port : List Byte) (messagebuff : Mem Byte) : ReadResult :=
  if messagebuff.cell 0 ≠ 0x7e then
    let p := readMessage port messagebuff
    match p.ended with
    | .flag =>
        let messagebuff := p.msgbuf.write 0 (p.msgbuf.take 0 100)
        if p.newfcs oldfcsUdp ≠ 0xf0b8 then ⟨some false, messagebuff, p.port⟩
        else ⟨some true, messagebuff, p.port⟩
    | .blocked => ⟨none, p.msgbuf, p.port⟩
    | _ => ⟨some false, p.msgbuf, p.port⟩
  else ⟨some true, messagebuff, port⟩

/-! ## The loop over a message -/

/-- The loop takes one stuffed byte off the port and puts the byte it stands for
at the index.  The byte it looked ahead to goes to the index after it. -/
theorem readLoop_stuffByte (b : Byte) (tail : List Byte) {i : Nat} (hi : i ≤ 95) (m : Mem Byte) :
    ∃ m', readLoop (stuffByte hdlc b ++ tail) i m = readLoop tail (i + 1) m' ∧
      m'.cell i = b ∧ ∀ a : Int, a < i ∨ i + 1 < a → m'.cell a = m.cell a := by
  by_cases hflag : b = 0x7e
  · subst hflag
    have hstuff : stuffByte hdlc 0x7e = [0x7d, 0x5e] := by decide
    refine ⟨((m.store i 0x7d).store (i + 1) 0x5e).store i 0x7e, ?_, by simp, ?_⟩
    · rw [hstuff, List.cons_append, readLoop, if_pos (by omega), if_neg (by omega),
        if_neg (by decide), if_pos rfl]
      simp
    · intro a ha
      rw [Mem.store_cell_ne _ _ (by omega), Mem.store_cell_ne _ _ (by omega),
        Mem.store_cell_ne _ _ (by omega)]
  · by_cases hesc : b = 0x7d
    · subst hesc
      have hstuff : stuffByte hdlc 0x7d = [0x7d, 0x5d] := by decide
      refine ⟨(m.store i 0x7d).store (i + 1) 0x5d, ?_, ?_, ?_⟩
      · rw [hstuff, List.cons_append, readLoop, if_pos (by omega), if_neg (by omega),
          if_neg (by decide), if_pos rfl]
        simp
      · rw [Mem.store_cell_ne _ _ (by omega), Mem.store_cell_same]
      · intro a ha
        rw [Mem.store_cell_ne _ _ (by omega), Mem.store_cell_ne _ _ (by omega)]
    · refine ⟨m.store i b, ?_, by simp, ?_⟩
      · rw [stuffByte_plain hdlc ⟨hflag, hesc⟩, List.singleton_append, readLoop,
          if_pos (by omega), if_neg (by omega), if_neg hflag, if_neg hesc]
      · intro a ha
        rw [Mem.store_cell_ne _ _ (by omega)]

/-- The loop takes a stuffed stretch off the port and puts the message it stands
for behind what the buffer holds already.  Past the new index nothing has
changed. -/
theorem readLoop_stuff (c tail : List Byte) {start : List Byte} {m : Mem Byte}
    (hlen : (start ++ c).length ≤ 96) (hm : m.Holds 0 start) :
    ∃ m', readLoop (stuff hdlc c ++ tail) start.length m
        = readLoop tail (start ++ c).length m' ∧ m'.Holds 0 (start ++ c) ∧
      ∀ a : Int, (start ++ c).length < a → m'.cell a = m.cell a := by
  induction c generalizing start m with
  | nil => exact ⟨m, by simp, by simpa using hm, fun _ _ => rfl⟩
  | cons b c ih =>
      simp only [List.length_append, List.length_cons] at hlen
      rw [stuff_cons, List.append_assoc]
      obtain ⟨m₁, hread, hcell, hsame⟩ :=
        readLoop_stuffByte b (stuff hdlc c ++ tail) (i := start.length) (by omega) m
      have hm₁ : m₁.Holds 0 (start ++ [b]) := by
        rw [Mem.holds_append]
        exact ⟨hm.congr (fun a _ hhi => hsame a (by omega)), by simpa using hcell⟩
      obtain ⟨m', hrest, hheld, habove⟩ := ih (by simp; omega) hm₁
      refine ⟨m', ?_, ?_, ?_⟩
      · rw [hread]
        simpa using hrest
      · simpa using hheld
      · intro a ha
        simp only [List.length_append, List.length_cons, List.length_nil] at ha habove
        rw [habove a (by omega), hsame a (by omega)]

/-! ## A whole message -/

/-- What the second byte of a message adds to its content: a flag adds
nothing. -/
def lead (y : Byte) : List Byte := if y ≠ 0x7e then [y] else []

/-- The port spells a message: an opening byte, then `content` with its second
byte as it comes and the rest stuffed, and then `tail`. -/
def Spells (port : List Byte) (opening : Byte) (content tail : List Byte) : Prop :=
  ∃ y c, port = opening :: y :: (stuff hdlc c ++ tail) ∧ content = lead y ++ c

variable {port content tail rest : List Byte} {x : Byte}

/-- A message whose first byte is not a flag is spelled from it on. -/
theorem Spells.of_lead_ne {y : Byte} (hy : y ≠ 0x7e) (c : List Byte) :
    Spells (x :: y :: (stuff hdlc c ++ tail)) x (y :: c) tail :=
  ⟨y, c, rfl, by rw [lead, if_pos hy]; rfl⟩

/-- The reader takes in a message of at most 95 bytes, whatever comes then. -/
theorem readMessage_spells (h : Spells port x content tail) (hlen : content.length ≤ 95)
    (m : Mem Byte) :
    ∃ m', readMessage port m = readLoop tail (content.length + 1) m' ∧
      m'.Holds 0 (x :: content) ∧
      ∀ a : Int, content.length + 1 < a → m'.cell a = m.cell a := by
  obtain ⟨y, c, rfl, rfl⟩ := h
  have hstart : ((m.store 0 x).store 1 y).Holds 0 (x :: lead y) := by
    have hx : ((m.store 0 x).store 1 y).cell 0 = x := by
      rw [Mem.store_cell_ne _ _ (by decide), Mem.store_cell_same]
    unfold lead
    split
    · exact ⟨hx, by simp⟩
    · exact ⟨hx, trivial⟩
  have hii : (if y ≠ 0x7e then 2 else 1) = (x :: lead y).length := by
    unfold lead
    split <;> rfl
  have hroom : (x :: lead y ++ c).length ≤ 96 := by
    simp only [List.length_append, List.length_cons] at hlen ⊢
    omega
  obtain ⟨m', hread, hheld, habove⟩ := readLoop_stuff c tail hroom hstart
  refine ⟨m', ?_, hheld, ?_⟩
  · rw [readMessage]
    simp only [hii]
    rw [hread]
    simp
  · intro a ha
    rw [habove a (by simpa using ha), Mem.store_cell_ne _ _ (by omega),
      Mem.store_cell_ne _ _ (by omega)]

/-- A message in time for its closing flag. -/
theorem readMessage_flag (h : Spells port x content (0x7e :: rest)) (hlen : content.length ≤ 94)
    (m : Mem Byte) :
    ∃ m', readMessage port m = ⟨.flag, m', content.length + 1, rest⟩ ∧
      m'.Holds 0 (x :: content ++ [0x7e]) ∧
      ∀ a : Int, content.length + 1 < a → m'.cell a = m.cell a := by
  obtain ⟨m', hread, hheld, habove⟩ := readMessage_spells h (by omega) m
  refine ⟨m'.store (content.length + 1 : Nat) 0x7e, ?_, ?_, ?_⟩
  · rw [hread, readLoop, if_pos (by omega), if_neg (by omega), if_pos rfl]
  · have hend := hheld.store_end 0x7e
    simpa using hend
  · intro a ha
    rw [Mem.store_cell_ne _ _ (by omega), habove a ha]

/-- An escape in front of no stand-in. -/
theorem readMessage_illegal {z : Byte} (h : Spells port x content (0x7d :: z :: rest))
    (hlen : content.length ≤ 94) (hflag : z ≠ 0x5e) (hesc : z ≠ 0x5d) (m : Mem Byte) :
    ∃ m', readMessage port m = ⟨.illegal, m', content.length + 1, rest⟩ := by
  obtain ⟨m', hread, -, -⟩ := readMessage_spells h (by omega) m
  refine ⟨(m'.store (content.length + 1 : Nat) 0x7d).store ((content.length + 1 : Nat) + 1) z, ?_⟩
  rw [hread, readLoop, if_pos (by omega), if_neg (by omega), if_neg (by decide), if_pos rfl]
  simp only [if_neg hflag, if_pos hesc]

/-- A message too long for the buffer. -/
theorem readMessage_tooLong {b : Byte} (h : Spells port x content (b :: rest))
    (hlen : content.length = 95) (m : Mem Byte) :
    ∃ m', readMessage port m = ⟨.tooLong, m', 96, rest⟩ := by
  obtain ⟨m', hread, -, -⟩ := readMessage_spells h (by omega) m
  refine ⟨m'.store (content.length + 1 : Nat) b, ?_⟩
  rw [hread, readLoop, if_pos (by omega), if_pos (by omega), hlen]

/-- A port that falls silent inside a message. -/
theorem readMessage_silent (h : Spells port x content []) (hlen : content.length ≤ 95)
    (m : Mem Byte) :
    ∃ m', readMessage port m = ⟨.silent, m', content.length + 1, []⟩ := by
  obtain ⟨m', hread, -, -⟩ := readMessage_spells h hlen m
  exact ⟨m', by rw [hread, readLoop, if_pos (by omega)]⟩

/-- A port that falls silent behind an escape. -/
theorem readMessage_blocked (h : Spells port x content [0x7d]) (hlen : content.length ≤ 94)
    (m : Mem Byte) :
    ∃ m', readMessage port m = ⟨.blocked, m', content.length + 1, []⟩ := by
  obtain ⟨m', hread, -, -⟩ := readMessage_spells h (by omega) m
  refine ⟨m'.store (content.length + 1 : Nat) 0x7d, ?_⟩
  rw [hread, readLoop, if_pos (by omega), if_neg (by omega), if_neg (by decide), if_pos rfl]

/-- A port too short for a second byte. -/
theorem readMessage_short (h : port.length ≤ 1) (m : Mem Byte) :
    ∃ m', readMessage port m = ⟨.silent, m', 0, []⟩ := by
  match port, h with
  | [], _ => exact ⟨_, rfl⟩
  | [_], _ => exact ⟨_, rfl⟩

/-- Every port is too short for a second byte, or spells a message up to a stop
or up to the end of the buffer. -/
theorem port_cases (port : List Byte) :
    port.length ≤ 1 ∨ ∃ x content tail, Spells port x content tail ∧
      (content.length = 95 ∨ content.length < 95 ∧ Stops hdlc tail) := by
  match port with
  | [] => exact Or.inl (by simp)
  | [_] => exact Or.inl (by simp)
  | x :: y :: u =>
      have hlead : (lead y).length ≤ 1 := by
        unfold lead
        split <;> simp
      obtain ⟨c, tail, rfl, hend⟩ := exists_stuff_prefix hdlc (95 - (lead y).length) u
      refine Or.inr ⟨x, lead y ++ c, tail, ⟨y, c, rfl, rfl⟩, ?_⟩
      rw [List.length_append]
      rcases hend with hlen | ⟨hlen, hstop⟩
      · exact Or.inl (by omega)
      · exact Or.inr ⟨by omega, hstop⟩

/-! ## The verdict of `ser_driver_read` -/

/-- Over unsigned bytes the check starts from its initial value. -/
theorem oldfcs_eq (a b : Byte) : oldfcs a b = PPPINITFCS := by
  have hones : PPPINITFCS = BitVec.allOnes 16 := by decide
  rw [hones]
  apply BitVec.eq_of_getLsbD_eq
  intro k hk
  simp only [oldfcs, BitVec.getLsbD_setWidth, BitVec.getLsbD_or, BitVec.getLsbD_not,
    BitVec.getLsbD_shiftLeft, BitVec.truncate_eq_setWidth, BitVec.getLsbD_allOnes]
  by_cases hlow : k < 8
  · simp [hlow, hk, show k < 32 by omega]
  · simp [hk, show k < 32 by omega, BitVec.getLsbD_of_ge b k (by omega)]

/-- The check runs over the content. -/
theorem newfcs_of_holds (old : Byte → Byte → U16) {p : Parse} {ys : List Byte}
    (hi : p.i = content.length + 1) (hheld : p.msgbuf.Holds 0 (x :: content ++ ys)) :
    p.newfcs old
      = pppfcs (old (p.msgbuf.cell (p.i - 2)) (p.msgbuf.cell (p.i - 1))) content := by
  have hcontent : p.msgbuf.take 1 content.length = content := by
    rw [← Mem.holds_iff_take]
    rw [List.cons_append, Mem.holds_cons, Mem.holds_append] at hheld
    exact hheld.2.1
  rw [Parse.newfcs, hi, Nat.add_sub_cancel, hcontent]

/-- A reader enters its loop: the buffer was cleared. -/
theorem serDriverRead_enters (stack : Mem Byte) :
    (stack.write 0 (List.replicate 100 0)).cell 0 ≠ 0x7e := by
  have hclear : (stack.write 0 (List.replicate 100 (0 : Byte))).cell 0 = 0 :=
    (stack.write_holds 0 (List.replicate 100 (0 : Byte))).1
  rw [hclear]
  decide

/-- The hundred bytes `ser_driver_read` copies to its caller: the opening byte,
the content, the closing flag, and zeros. -/
def messageData (opening : Byte) (content : List Byte) : List Byte :=
  opening :: content ++ 0x7e :: List.replicate (98 - content.length) 0

/-- The record is filled up to its hundred bytes. -/
theorem messageData_length (opening : Byte) {content : List Byte} (h : content.length ≤ 98) :
    (messageData opening content).length = 100 := by
  simp only [messageData, List.length_append, List.length_cons, List.length_replicate]
  omega

/-- The content can be told from the hundred bytes. -/
theorem messageData_injective {x y : Byte} {xs ys : List Byte} (hxs : xs.length ≤ 98)
    (hys : ys.length ≤ 98) (h : messageData x xs = messageData y ys) : x = y ∧ xs = ys := by
  -- the closing flag is the last byte that is not zero
  have hle : ∀ {x y : Byte} {xs ys : List Byte}, ys.length ≤ 98 →
      messageData x xs = messageData y ys → ys.length ≤ xs.length := by
    intro x y xs ys hys h
    by_contra hlt
    have hentry := congrArg (fun l : List Byte => l[ys.length + 1]?) h
    simp only [messageData, List.cons_append, List.getElem?_cons_succ,
      List.getElem?_append_right (Nat.le_of_not_le hlt), List.getElem?_append_right le_rfl,
      Nat.sub_self, List.getElem?_cons_zero] at hentry
    obtain ⟨k, hk⟩ : ∃ k, ys.length - xs.length = k + 1 := ⟨ys.length - xs.length - 1, by omega⟩
    rw [hk, List.getElem?_cons_succ, List.getElem?_replicate, if_pos (by omega)] at hentry
    exact absurd hentry (by decide)
  have hlen : xs.length = ys.length := le_antisymm (hle hxs h.symm) (hle hys h)
  rw [messageData, messageData, List.cons_append, List.cons_append, List.cons.injEq] at h
  exact ⟨h.1, (List.append_inj h.2 hlen).1⟩

/-- A message read over a cleared array is followed by zeros. -/
theorem messageData_held {m' stack : Mem Byte} (hlen : content.length ≤ 94)
    (hheld : m'.Holds 0 (x :: content ++ [0x7e]))
    (habove : ∀ a : Int, content.length + 1 < a →
      m'.cell a = (stack.write 0 (List.replicate 100 0)).cell a) :
    m'.Holds 0 (messageData x content) := by
  have hzeros : m'.Holds (content.length + 2 : Nat) (List.replicate (98 - content.length) 0) := by
    apply Mem.holds_of_cell
    intro k hk
    rw [List.length_replicate] at hk
    have hclear := (stack.write_holds 0 (List.replicate 100 (0 : Byte))).cell_eq
      (k := content.length + 2 + k) (by rw [List.length_replicate]; omega)
    rw [List.getElem_replicate, zero_add, Nat.cast_add] at hclear
    rw [habove _ (by omega), List.getElem_replicate]
    exact hclear
  have hsplit : messageData x content
      = (x :: content ++ [0x7e]) ++ List.replicate (98 - content.length) 0 := by
    simp [messageData]
  rw [hsplit, Mem.holds_append]
  refine ⟨hheld, ?_⟩
  convert hzeros using 2
  simp only [List.length_append, List.length_cons, List.length_nil]
  push_cast
  ring

/-- Copying a hundred bytes copies the message. -/
theorem messageData_copied {m' : Mem Byte} (hlen : content.length ≤ 94)
    (hdata : m'.Holds 0 (messageData x content)) (messagebuff : Mem Byte) :
    (messagebuff.write 0 (m'.take 0 100)).Holds 0 (messageData x content) := by
  have hblock := messagebuff.write_holds 0 (m'.take 0 100)
  have htake := (m'.holds_iff_take 0 _).mp hdata
  rw [messageData_length x (by omega)] at htake
  rw [htake] at hblock
  rw [htake]
  exact hblock

/-- **A message in time.**  `ser_driver_read` takes exactly the message off the
port, passes it on behind its opening byte, and returns TRUE when the check is
good. -/
theorem serDriverRead_flag (h : Spells port x content (0x7e :: rest))
    (hlen : content.length ≤ 94) (messagebuff stack : Mem Byte) :
    (serDriverRead port messagebuff stack).ret
        = some (decide (checkModframeString content = PPPGOODFCS)) ∧
      (serDriverRead port messagebuff stack).port = rest ∧
      (serDriverRead port messagebuff stack).messagebuff.Holds 0 (messageData x content) := by
  obtain ⟨m', hread, hheld, habove⟩ :=
    readMessage_flag h hlen (stack.write 0 (List.replicate 100 0))
  have hcopy := messageData_copied hlen (messageData_held hlen hheld habove) messagebuff
  have hfcs := newfcs_of_holds oldfcs (p := ⟨.flag, m', content.length + 1, rest⟩) rfl hheld
  rw [oldfcs_eq] at hfcs
  unfold serDriverRead
  simp only [if_pos (serDriverRead_enters stack), hread, hfcs]
  by_cases hgood : checkModframeString content = PPPGOODFCS
  · have hval : ¬ pppfcs PPPINITFCS content ≠ 0xf0b8 := fun hbad => hbad hgood
    rw [if_neg hval]
    exact ⟨by simp [hgood], rfl, hcopy⟩
  · have hval : pppfcs PPPINITFCS content ≠ 0xf0b8 := hgood
    rw [if_pos hval]
    exact ⟨by simp [hgood], rfl, hcopy⟩

/-- A message that ends in an error leaves the caller's message alone. -/
private theorem serDriverRead_error {m' : Mem Byte} {stack : Mem Byte} {i : Nat} {e : LoopEnd}
    (hread : readMessage port (stack.write 0 (List.replicate 100 0)) = ⟨e, m', i, rest⟩)
    (hflag : e ≠ .flag) (hblocked : e ≠ .blocked) (messagebuff : Mem Byte) :
    serDriverRead port messagebuff stack = ⟨some false, messagebuff, rest⟩ := by
  unfold serDriverRead
  simp only [if_pos (serDriverRead_enters stack), hread]

/-- An escape in front of anything else is an error. -/
theorem serDriverRead_illegal {z : Byte} (h : Spells port x content (0x7d :: z :: rest))
    (hlen : content.length ≤ 94) (hflag : z ≠ 0x5e) (hesc : z ≠ 0x5d)
    (messagebuff stack : Mem Byte) :
    serDriverRead port messagebuff stack = ⟨some false, messagebuff, rest⟩ := by
  obtain ⟨m', hread⟩ := readMessage_illegal h hlen hflag hesc
    (stack.write 0 (List.replicate 100 0))
  exact serDriverRead_error hread (by decide) (by decide) messagebuff

/-- So is a message that has no room. -/
theorem serDriverRead_tooLong {b : Byte} (h : Spells port x content (b :: rest))
    (hlen : content.length = 95) (messagebuff stack : Mem Byte) :
    serDriverRead port messagebuff stack = ⟨some false, messagebuff, rest⟩ := by
  obtain ⟨m', hread⟩ := readMessage_tooLong h hlen (stack.write 0 (List.replicate 100 0))
  exact serDriverRead_error hread (by decide) (by decide) messagebuff

/-- So is a message that stops before its end. -/
theorem serDriverRead_silent (h : Spells port x content []) (hlen : content.length ≤ 95)
    (messagebuff stack : Mem Byte) :
    serDriverRead port messagebuff stack = ⟨some false, messagebuff, []⟩ := by
  obtain ⟨m', hread⟩ := readMessage_silent h hlen (stack.write 0 (List.replicate 100 0))
  exact serDriverRead_error hread (by decide) (by decide) messagebuff

/-- So is a port with one byte at most. -/
theorem serDriverRead_short (h : port.length ≤ 1) (messagebuff stack : Mem Byte) :
    serDriverRead port messagebuff stack = ⟨some false, messagebuff, []⟩ := by
  obtain ⟨m', hread⟩ := readMessage_short h (stack.write 0 (List.replicate 100 0))
  exact serDriverRead_error hread (by decide) (by decide) messagebuff

/-- Behind an escape the reader waits for a byte that does not come. -/
theorem serDriverRead_blocked (h : Spells port x content [0x7d]) (hlen : content.length ≤ 94)
    (messagebuff stack : Mem Byte) :
    serDriverRead port messagebuff stack = ⟨none, messagebuff, []⟩ := by
  obtain ⟨m', hread⟩ := readMessage_blocked h hlen (stack.write 0 (List.replicate 100 0))
  unfold serDriverRead
  simp only [if_pos (serDriverRead_enters stack), hread]

/-- A frame the reader accepts: in time for its closing flag, and with a good
check. -/
def Accepts (port : List Byte) (opening : Byte) (content rest : List Byte) : Prop :=
  Spells port opening content (0x7e :: rest) ∧ content.length ≤ 94 ∧
    checkModframeString content = PPPGOODFCS

/-- A frame that is accepted is read into the record. -/
theorem Accepts.reads (h : Accepts port x content rest) (messagebuff stack : Mem Byte) :
    (serDriverRead port messagebuff stack).ret = some true ∧
      (serDriverRead port messagebuff stack).port = rest ∧
      (serDriverRead port messagebuff stack).messagebuff.Holds 0 (messageData x content) := by
  obtain ⟨hspells, hlen, hgood⟩ := h
  obtain ⟨hret, hport, hheld⟩ := serDriverRead_flag hspells hlen messagebuff stack
  exact ⟨by rw [hret, hgood]; rfl, hport, hheld⟩

/-- Why the reader refuses a port. -/
theorem refused_cases {port : List Byte} (h : ∀ x content rest, ¬ Accepts port x content rest) :
    port.length ≤ 1 ∨ ∃ x content tail, Spells port x content tail ∧
      ((content.length ≤ 95 ∧ tail = []) ∨
        (content.length ≤ 94 ∧ tail = [0x7d]) ∨
        (content.length = 95 ∧ tail ≠ []) ∨
        (content.length ≤ 94 ∧ checkModframeString content ≠ PPPGOODFCS ∧
          ∃ rest, tail = 0x7e :: rest) ∨
        (content.length ≤ 94 ∧ ∃ z rest, tail = 0x7d :: z :: rest ∧ z ≠ 0x5e ∧ z ≠ 0x5d)) := by
  rcases port_cases port with hshort | ⟨x, content, tail, hspells, hend⟩
  · exact Or.inl hshort
  · refine Or.inr ⟨x, content, tail, hspells, ?_⟩
    rcases hend with hfull | ⟨hlen, hnil | hcut | ⟨rest, hflag⟩ | ⟨z, rest, hesc⟩⟩
    · by_cases hnil : tail = []
      · exact Or.inl ⟨hfull.le, hnil⟩
      · exact Or.inr (Or.inr (Or.inl ⟨hfull, hnil⟩))
    · exact Or.inl ⟨hlen.le, hnil⟩
    · exact Or.inr (Or.inl ⟨by omega, hcut⟩)
    · refine Or.inr (Or.inr (Or.inr (Or.inl ⟨by omega, fun hgood => ?_, rest, hflag⟩)))
      exact h x content rest ⟨hflag ▸ hspells, by omega, hgood⟩
    · exact Or.inr (Or.inr (Or.inr (Or.inr ⟨by omega, z, rest, hesc⟩)))

/-- **What `ser_driver_read` accepts.**  It returns TRUE exactly on a port that
spells a frame it accepts. -/
theorem serDriverRead_true_iff (port : List Byte) (messagebuff stack : Mem Byte) :
    (serDriverRead port messagebuff stack).ret = some true ↔
      ∃ x content rest, Accepts port x content rest := by
  constructor
  · intro hret
    by_contra hnone
    push Not at hnone
    rcases refused_cases hnone with hshort | ⟨x, content, tail, hspells, hend⟩
    · rw [serDriverRead_short hshort] at hret
      exact absurd hret (by simp)
    · rcases hend with ⟨hlen, rfl⟩ | ⟨hlen, rfl⟩ | ⟨hlen, htail⟩ | ⟨hlen, hbad, rest, rfl⟩ |
        ⟨hlen, z, rest, rfl, hflag, hesc⟩
      · rw [serDriverRead_silent hspells hlen] at hret
        exact absurd hret (by simp)
      · rw [serDriverRead_blocked hspells hlen] at hret
        exact absurd hret (by simp)
      · obtain ⟨b, rest, rfl⟩ := List.exists_cons_of_ne_nil htail
        rw [serDriverRead_tooLong hspells hlen] at hret
        exact absurd hret (by simp)
      · rw [(serDriverRead_flag hspells hlen messagebuff stack).1] at hret
        exact hbad (by simpa using hret)
      · rw [serDriverRead_illegal hspells hlen hflag hesc] at hret
        exact absurd hret (by simp)
  · intro haccepts
    obtain ⟨x, content, rest, h⟩ := haccepts
    exact (h.reads messagebuff stack).1

-- From here on the readers are known by what they accept and leave.
attribute [irreducible] serDriverRead

end RfsAtsc
