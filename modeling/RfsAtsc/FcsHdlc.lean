import RfsAtsc.Fcs
import RfsAtsc.TracedMemory

/-!
# Framing a message: `fcs_hdlc`

`fcs_hdlc` appends the check to a message that sits behind its opening flag,
stuffs it in place and puts the closing flag behind it.  The message is a block
of traced memory with its opening flag at address `0`; what lies behind the
message belongs to the caller's stack.

The loop that opens a gap for the second byte of an escape is right for `0x7e`.
For `0x7d` the stores of the escape, the new length and the step of the index
stand inside the gap loop, so they run once per byte moved.
-/

namespace RfsAtsc

open TracedMemory ByteStuffing

/-- The flag `0x7e`, the escape `0x7d` and the stand-ins `0x5e` and `0x5d`. -/
def hdlc : Code Byte where
  flag := 0x7e
  esc := 0x7d
  escFlag := 0x5e
  escEsc := 0x5d
  esc_ne_flag := by decide
  escFlag_ne_flag := by decide
  escEsc_ne_flag := by decide
  escEsc_ne_escFlag := by decide

@[simp] theorem hdlc_flag : hdlc.flag = 0x7e#8 := rfl
@[simp] theorem hdlc_esc : hdlc.esc = 0x7d#8 := rfl
@[simp] theorem hdlc_escFlag : hdlc.escFlag = 0x5e#8 := rfl
@[simp] theorem hdlc_escEsc : hdlc.escEsc = 0x5d#8 := rfl

/-- The frame of a message: flag, stuffed message and check, flag. -/
def hdlcFrame (body : List Byte) : List Byte :=
  0x7e :: stuff hdlc (withFcs body) ++ [0x7e]

/-- A frame is its stuffed content and two flags. -/
theorem hdlcFrame_length (body : List Byte) :
    (hdlcFrame body).length = (stuff hdlc (withFcs body)).length + 2 := by
  simp [hdlcFrame]

/-- `get_modframe_string`: appends the check to the `framebytes` bytes at
`frame` and returns the new length. -/
def getModframeString (m : Mem Byte) (frame : Int) (framebytes : Nat) : Mem Byte × Nat :=
  let newfcs := pppfcs PPPINITFCS (m.take frame framebytes)
  let m := m.store (frame + framebytes) (~~~ TableCrc.lowByte newfcs)
  let m := m.store (frame + framebytes + 1) (~~~ TableCrc.highByte newfcs)
  (m, framebytes + 2)

/-- The variables of `fcs_hdlc`: the message, its length and the index.  The two are `int`s of
the source and never negative.  A turn adds to each at most what is left of the message, so
that from a message of up to 2¹⁵ bytes they stay below `INT_MAX`; the callers pass less than a
hundred. -/
structure HdlcState where
  mess : Mem Byte
  msgLen : Nat
  i : Nat

/-- `for (j = msg_len; j > i; j--) data[j+1] = data[j];` -/
def openGap (i : Nat) : Nat → Mem Byte → Mem Byte
  | 0, m => m
  | j+1, m =>
      if j + 1 > i then openGap i j (m.store ((j + 1 : Nat) + 1) (m.cell (j + 1 : Nat)))
      else m

/-- The gap loop of `0x7d`, from `j` down, with the escape stored and the length
and the index stepped on every turn. -/
def escapeLoop : Nat → HdlcState → HdlcState
  | 0, s => s
  | j+1, s =>
      if j + 1 > s.i then
        let m := s.mess.store ((j + 1 : Nat) + 1) (s.mess.cell (j + 1 : Nat))
        let m := m.store s.i 0x7d
        let m := m.store (s.i + 1) 0x5d
        escapeLoop j { mess := m, msgLen := s.msgLen + 1, i := s.i + 1 }
      else s

/-- The branch of `0x7e`. -/
def stuffFlag (s : HdlcState) : HdlcState :=
  if s.mess.cell s.i = 0x7e then
    let m := openGap s.i s.msgLen s.mess
    let m := m.store s.i 0x7d
    let m := m.store (s.i + 1) 0x5e
    { mess := m, msgLen := s.msgLen + 1, i := s.i + 1 }
  else s

/-- The branch of `0x7d`. -/
def stuffEsc (s : HdlcState) : HdlcState :=
  if s.mess.cell s.i = 0x7d then escapeLoop s.msgLen s else s

/-- One turn of the stuffing loop, its `i++` included. -/
def stuffStep (s : HdlcState) : HdlcState :=
  let s := stuffEsc (stuffFlag s)
  { s with i := s.i + 1 }

/-- The stuffing loop, for at most `fuel` turns. -/
def stuffLoop : Nat → HdlcState → HdlcState
  | 0, s => s
  | fuel+1, s => if s.i ≤ s.msgLen then stuffLoop fuel (stuffStep s) else s

/-- `writeBuff->gen_mess.data[msg_len+1] = 0x7e;` -/
def closeFrame (s : HdlcState) : HdlcState :=
  { s with mess := s.mess.store (s.msgLen + 1) 0x7e }

/-- `fcs_hdlc`.  Every turn brings the index one byte nearer to the end, so the
length with the check is fuel enough (`stuffLoop_done`). -/
def fcsHdlc (msgLen : Nat) (msgbuf : Mem Byte) : HdlcState :=
  let (m, msgLen) := getModframeString msgbuf 1 msgLen
  closeFrame (stuffLoop msgLen { mess := m, msgLen := msgLen, i := 1 })

/-! ## What a turn does to the length and the index -/

/-- One turn of the gap loop of `0x7d`: a byte moved, the escape stored. -/
private theorem escapeLoop_turn {j : Nat} {s : HdlcState} (h : s.i < j + 1) :
    ∃ m, escapeLoop (j + 1) s
        = escapeLoop j { mess := m, msgLen := s.msgLen + 1, i := s.i + 1 } ∧
      m = ((s.mess.store ((j + 1 : Nat) + 1) (s.mess.cell (j + 1 : Nat))).store
        s.i 0x7d).store (s.i + 1) 0x5d := by
  refine ⟨_, ?_, rfl⟩
  rw [escapeLoop, if_pos h]

/-- A gap loop that is at the index is done. -/
private theorem escapeLoop_stop {j : Nat} {s : HdlcState} (h : j ≤ s.i) :
    escapeLoop j s = s := by
  cases j with
  | zero => rfl
  | succ j => rw [escapeLoop, if_neg (by omega)]

/-- The loop of `0x7d` lengthens the message by as much as it moves the index,
and it moves neither back. -/
theorem escapeLoop_growth (j : Nat) (s : HdlcState) :
    (escapeLoop j s).msgLen + s.i = (escapeLoop j s).i + s.msgLen ∧
      s.i ≤ (escapeLoop j s).i := by
  induction j generalizing s with
  | zero => exact ⟨Nat.add_comm _ _, le_rfl⟩
  | succ j ih =>
      by_cases hj : s.i < j + 1
      · obtain ⟨m, hturn, -⟩ := escapeLoop_turn hj
        have hrest := ih ⟨m, s.msgLen + 1, s.i + 1⟩
        rw [hturn]
        simp only at hrest
        omega
      · rw [escapeLoop_stop (by omega)]
        omega

/-- A turn brings the index one byte nearer to the end of the message, by moving
the index up. -/
theorem stuffStep_growth (s : HdlcState) :
    (stuffStep s).msgLen + s.i + 1 = (stuffStep s).i + s.msgLen ∧ s.i < (stuffStep s).i := by
  have hesc : ∀ t, (stuffEsc t).msgLen + t.i = (stuffEsc t).i + t.msgLen ∧
      t.i ≤ (stuffEsc t).i := by
    intro t
    unfold stuffEsc
    split
    · exact escapeLoop_growth _ _
    · omega
  have hflag : (stuffFlag s).msgLen + s.i = (stuffFlag s).i + s.msgLen ∧
      s.i ≤ (stuffFlag s).i := by
    unfold stuffFlag
    split
    · simp only
      omega
    · omega
  have h := hesc (stuffFlag s)
  simp only [stuffStep]
  omega

/-- **Termination.**  As many turns as bytes are left bring the index just past
the end of the message. -/
theorem stuffLoop_done (fuel : Nat) (s : HdlcState) (h : s.msgLen + 1 = s.i + fuel) :
    (stuffLoop fuel s).i = (stuffLoop fuel s).msgLen + 1 := by
  induction fuel generalizing s with
  | zero => simpa [stuffLoop] using h.symm
  | succ fuel ih =>
      have hgrowth := stuffStep_growth s
      rw [stuffLoop, if_pos (by omega)]
      exact ih (stuffStep s) (by omega)

/-- The index never goes back. -/
theorem stuffLoop_index_le (fuel : Nat) (s : HdlcState) : s.i ≤ (stuffLoop fuel s).i := by
  induction fuel generalizing s with
  | zero => exact le_rfl
  | succ fuel ih =>
      rw [stuffLoop]
      split
      · exact (stuffStep_growth s).2.le.trans (ih (stuffStep s))
      · exact le_rfl

/-- The loop may be cut anywhere before its end. -/
theorem stuffLoop_add (p q : Nat) (s : HdlcState) (h : s.msgLen + 1 = s.i + (p + q)) :
    stuffLoop (p + q) s = stuffLoop q (stuffLoop p s) := by
  induction p generalizing s with
  | zero => simp [stuffLoop]
  | succ p ih =>
      have hgrowth := stuffStep_growth s
      rw [Nat.succ_add, stuffLoop, stuffLoop, if_pos (by omega), if_pos (by omega)]
      exact ih (stuffStep s) (by omega)

/-- The message with its check appended, before the first turn. -/
def stuffInit (msgLen : Nat) (msgbuf : Mem Byte) : HdlcState :=
  let (m, msgLen) := getModframeString msgbuf 1 msgLen
  { mess := m, msgLen := msgLen, i := 1 }

/-- After `t` turns the index is `t` bytes nearer to the end of the message. -/
private theorem stuffStep_iterate (t : Nat) (s : HdlcState) :
    (stuffStep^[t] s).msgLen + s.i + t = (stuffStep^[t] s).i + s.msgLen := by
  induction t generalizing s with
  | zero => simpa using Nat.add_comm s.msgLen s.i
  | succ t ih =>
      have hgrowth := (stuffStep_growth s).1
      have hrest := ih (stuffStep s)
      rw [Function.iterate_succ_apply]
      omega

/-- A loop that has no turn left does nothing. -/
private theorem stuffLoop_of_past {s : HdlcState} (h : s.msgLen < s.i) (fuel : Nat) :
    stuffLoop fuel s = s := by
  cases fuel with
  | zero => rfl
  | succ fuel => rw [stuffLoop, if_neg (by omega)]

/-- The loop makes its turns one after another while the index is within the message. -/
private theorem stuffLoop_eq_iterate (t rest : Nat) (s : HdlcState)
    (h : s.msgLen + 1 = s.i + t) : stuffLoop (t + rest) s = stuffStep^[t] s := by
  induction t generalizing s with
  | zero => exact stuffLoop_of_past (by omega) _
  | succ t ih =>
      have hgrowth := (stuffStep_growth s).1
      rw [Nat.succ_add, stuffLoop, if_pos (by omega), Function.iterate_succ_apply]
      exact ih (stuffStep s) (by omega)

/-- **The stuffing loop ends.**  Whatever the length and the buffer, it makes no more turns than
the message has bytes with its check, each with the index within the message; then the index
is past the end, and no fuel makes it do anything else. -/
theorem stuffing_loop_ends (n : Nat) (msgbuf : Mem Byte) :
    (stuffInit n msgbuf).msgLen = n + 2 ∧
      ∃ turns, turns ≤ n + 2 ∧
        (∀ t, t < turns → (stuffStep^[t] (stuffInit n msgbuf)).i ≤
          (stuffStep^[t] (stuffInit n msgbuf)).msgLen) ∧
        (stuffStep^[turns] (stuffInit n msgbuf)).msgLen <
          (stuffStep^[turns] (stuffInit n msgbuf)).i ∧
        (∀ rest, stuffLoop (turns + rest) (stuffInit n msgbuf) =
          stuffStep^[turns] (stuffInit n msgbuf)) ∧
        fcsHdlc n msgbuf = closeFrame (stuffStep^[turns] (stuffInit n msgbuf)) := by
  have hlen : (stuffInit n msgbuf).msgLen = n + 2 := rfl
  have hindex : (stuffInit n msgbuf).i = 1 := rfl
  have hgap : ∀ t, (stuffStep^[t] (stuffInit n msgbuf)).msgLen + 1 + t =
      (stuffStep^[t] (stuffInit n msgbuf)).i + (n + 2) :=
    fun t => stuffStep_iterate t (stuffInit n msgbuf)
  have hloop : ∀ rest, stuffLoop (n + 2 + rest) (stuffInit n msgbuf) =
      stuffStep^[n + 2] (stuffInit n msgbuf) :=
    fun rest => stuffLoop_eq_iterate (n + 2) rest _ (by omega)
  refine ⟨hlen, n + 2, le_rfl, ?_, ?_, hloop, ?_⟩
  · intro t ht
    have hturn := hgap t
    omega
  · have hend := hgap (n + 2)
    omega
  · exact congrArg closeFrame (hloop 0)

/-! ## What a turn does to the message -/

/-- A gap moves the bytes behind it up one place. -/
theorem openGap_cell (i j : Nat) (m : Mem Byte) (a : Int) :
    (openGap i j m).cell a
      = if (i : Int) + 1 < a ∧ a ≤ j + 1 then m.cell (a - 1) else m.cell a := by
  induction j generalizing m with
  | zero =>
      rw [openGap, if_neg (by omega)]
  | succ j ih =>
      by_cases hj : j + 1 > i
      · rw [openGap, if_pos hj, ih]
        by_cases htop : a = ((j + 1 : Nat) : Int) + 1
        · subst htop
          rw [if_neg (by omega), if_pos (by omega), Mem.store_cell_same]
          congr 1
          omega
        · rw [Mem.store_cell_ne m _ htop]
          by_cases hin : (i : Int) + 1 < a ∧ a ≤ j + 1
          · rw [if_pos hin, if_pos (by omega), Mem.store_cell_ne m _ (by omega)]
          · rw [if_neg hin, if_neg (by omega)]
      · rw [openGap, if_neg hj, if_neg (by omega)]

/-- A gap loop stores behind the index and up to one past its start. -/
theorem openGap_stored (i j : Nat) (m : Mem Byte) {a : Int}
    (h : a ∈ (openGap i j m).stored) : a ∈ m.stored ∨ (i : Int) + 1 < a ∧ a ≤ j + 1 := by
  induction j generalizing m with
  | zero => exact Or.inl h
  | succ j ih =>
      by_cases hj : j + 1 > i
      · rw [openGap, if_pos hj] at h
        rcases ih _ h with hold | hgap
        · rcases List.mem_cons.mp hold with rfl | hold
          · exact Or.inr (by omega)
          · exact Or.inl hold
        · exact Or.inr (by omega)
      · rw [openGap, if_neg hj] at h
        exact Or.inl h

/-- Where the stuffing loop stands: `done` is stuffed behind the opening flag,
`rest` is still to come, and nothing was stored outside the message. -/
structure Stuffing (s : HdlcState) (done rest : List Byte) : Prop where
  front : s.mess.Holds 0 (0x7e :: stuff hdlc done)
  back : s.mess.Holds s.i rest
  index : s.i = (stuff hdlc done).length + 1
  length : s.msgLen + 1 = s.i + rest.length
  within : ∀ a ∈ s.mess.stored, 0 < a ∧ a ≤ s.msgLen

namespace Stuffing

variable {s : HdlcState} {done rest : List Byte}

/-- The index stands at the first byte to be stuffed. -/
theorem cell_i {b : Byte} (h : Stuffing s done (b :: rest)) : s.mess.cell s.i = b := h.back.1

/-- What lies behind the byte at the index. -/
theorem left {b : Byte} (h : Stuffing s done (b :: rest)) : s.msgLen = s.i + rest.length := by
  have hlength := h.length
  rw [List.length_cons] at hlength
  omega

/-- The front ends at the index. -/
theorem front_end (h : Stuffing s done rest) :
    (0 : Int) + ((0x7e :: stuff hdlc done).length : Nat) = s.i := by
  rw [List.length_cons, h.index, zero_add]

/-- A block below the index and one from the index on make up the new front. -/
private theorem front_append {m : Mem Byte} {n : Nat} {xs : List Byte}
    (hn : n = (stuff hdlc done).length + 1) (hfront : m.Holds 0 (0x7e :: stuff hdlc done))
    (hnew : m.Holds n xs) : m.Holds 0 (0x7e :: (stuff hdlc done ++ xs)) := by
  have hcat := (m.holds_append 0 (0x7e :: stuff hdlc done) xs).mpr
    ⟨hfront, by simpa [hn] using hnew⟩
  simpa using hcat

/-- A plain byte is passed over. -/
theorem step_plain {b : Byte} (h : Stuffing s done (b :: rest)) (hb : hdlc.Plain b) :
    Stuffing (stuffStep s) (done ++ [b]) rest := by
  have hcell := h.cell_i
  have hflag : b ≠ 0x7e := hb.1
  have hesc : b ≠ 0x7d := hb.2
  have hturn : stuffStep s = { s with i := s.i + 1 } := by
    simp only [stuffStep, stuffFlag, stuffEsc, hcell, if_neg hflag, if_neg hesc]
  have hstuff : stuff hdlc (done ++ [b]) = stuff hdlc done ++ [b] := by
    simp [stuffByte_plain hdlc hb]
  rw [hturn]
  refine ⟨?_, ?_, ?_, ?_, h.within⟩
  · rw [hstuff]
    exact front_append h.index h.front ⟨hcell, trivial⟩
  · simpa using h.back.2
  · rw [hstuff, List.length_append]
    simp [h.index]
  · have hleft := h.left
    simp only
    omega

/-- A flag becomes the escape and its stand-in, and the rest moves up. -/
theorem step_flag (h : Stuffing s done (0x7e :: rest)) :
    Stuffing (stuffStep s) (done ++ [0x7e]) rest := by
  have hcell := h.cell_i
  have hleft := h.left
  have hturn : stuffStep s
      = { mess := ((openGap s.i s.msgLen s.mess).store s.i 0x7d).store (s.i + 1) 0x5e
          msgLen := s.msgLen + 1
          i := s.i + 1 + 1 } := by
    simp [stuffStep, stuffFlag, hcell, stuffEsc]
  have hstuff : stuff hdlc (done ++ [0x7e]) = stuff hdlc done ++ [0x7d, 0x5e] := by
    have hflag := stuffByte_flag hdlc
    simp only [hdlc_flag, hdlc_esc, hdlc_escFlag] at hflag
    simp [hflag]
  rw [hturn]
  refine ⟨?_, ?_, ?_, ?_, ?_⟩
  · rw [hstuff]
    refine front_append h.index ?_ ?_
    · apply h.front.congr
      intro a hlo hhi
      simp only [List.length_cons] at hhi
      have hindex := h.index
      rw [Mem.store_cell_ne _ _ (by omega), Mem.store_cell_ne _ _ (by omega), openGap_cell,
        if_neg (by omega)]
    · refine ⟨?_, ?_, trivial⟩
      · rw [Mem.store_cell_ne _ _ (by omega), Mem.store_cell_same]
      · rw [Mem.store_cell_same]
  · push_cast
    apply h.back.2.moved
    intro a hlo hhi
    rw [Mem.store_cell_ne _ _ (by omega), Mem.store_cell_ne _ _ (by omega), openGap_cell,
      if_pos (by omega)]
    congr 1
    omega
  · rw [hstuff, List.length_append]
    simp [h.index]
  · simp only
    omega
  · intro a ha
    have hindex := h.index
    simp only [Mem.store_stored, List.mem_cons] at ha ⊢
    rcases ha with rfl | rfl | ha
    · omega
    · omega
    · rcases openGap_stored _ _ _ ha with hold | hgap
      · have hwithin := h.within a hold
        omega
      · omega

/-- The two stores of an escape at the index. -/
private theorem escape_at {m : Mem Byte} {n : Nat} {d : Byte}
    (hn : n = (stuff hdlc done).length + 1) (hfront : m.Holds 0 (0x7e :: stuff hdlc done)) :
    ((m.store n 0x7d).store (n + 1) d).Holds 0 (0x7e :: (stuff hdlc done ++ [0x7d, d])) := by
  refine front_append hn ?_ ?_
  · apply hfront.congr
    intro a hlo hhi
    simp only [List.length_cons] at hhi
    rw [Mem.store_cell_ne _ _ (by omega), Mem.store_cell_ne _ _ (by omega)]
  · refine ⟨?_, ?_, trivial⟩
    · rw [Mem.store_cell_ne _ _ (by omega), Mem.store_cell_same]
    · rw [Mem.store_cell_same]

/-- The branch of the flag passes an escape by. -/
private theorem stuffFlag_esc (h : Stuffing s done (0x7d :: rest)) : stuffFlag s = s := by
  rw [stuffFlag, h.cell_i, if_neg (by decide)]

/-- An escape is stuffed as two bytes. -/
private theorem stuff_done_esc (done : List Byte) :
    stuff hdlc (done ++ [0x7d]) = stuff hdlc done ++ [0x7d, 0x5d] := by
  have hesc := stuffByte_esc hdlc
  simp only [hdlc_esc, hdlc_escEsc] at hesc
  simp [hesc]

/-- With one or two bytes behind an escape its gap loop makes one turn: the last
byte is copied up, the escape is stored, and whatever the two leave behind is
what is still to come. -/
private theorem step_esc_short {rest' : List Byte} (h : Stuffing s done (0x7d :: rest))
    (hsome : 0 < rest.length) (htwo : rest.length ≤ 2) (hlen : rest'.length = rest.length)
    (hback : (((s.mess.store ((s.msgLen : Int) + 1) (s.mess.cell s.msgLen)).store
      s.i 0x7d).store (s.i + 1) 0x5d).Holds (s.i + 2) rest') :
    Stuffing (stuffStep s) (done ++ [0x7d]) rest' := by
  have hindex := h.index
  have hleft := h.left
  obtain ⟨j, hj⟩ : ∃ j, s.msgLen = j + 1 := ⟨s.msgLen - 1, by omega⟩
  obtain ⟨m, hturn, hm⟩ := escapeLoop_turn (j := j) (s := s) (by omega)
  have hstep : stuffStep s = { mess := m, msgLen := s.msgLen + 1, i := s.i + 1 + 1 } := by
    rw [stuffStep, h.stuffFlag_esc, stuffEsc, if_pos h.cell_i, hj, hturn,
      escapeLoop_stop (by simp only; omega), hj]
  rw [← hj] at hm
  subst hm
  rw [hstep]
  refine ⟨?_, ?_, ?_, ?_, ?_⟩
  · rw [stuff_done_esc]
    refine escape_at hindex (h.front.store_outside _ (Or.inr ?_))
    simp only [List.length_cons]
    push_cast
    omega
  · have haddr : ((s.i + 1 + 1 : Nat) : Int) = s.i + 2 := by
      push_cast
      ring
    rwa [haddr]
  · rw [stuff_done_esc, List.length_append]
    simp [hindex]
  · simp only
    omega
  · intro a ha
    simp only [Mem.store_stored, List.mem_cons] at ha ⊢
    rcases ha with rfl | rfl | rfl | hold
    · omega
    · omega
    · omega
    · have hwithin := h.within a hold
      omega

/-- With one byte behind it an escape is stuffed. -/
theorem step_esc_one {x : Byte} (h : Stuffing s done [0x7d, x]) :
    Stuffing (stuffStep s) (done ++ [0x7d]) [x] := by
  have hlast : (s.msgLen : Int) = s.i + 1 := by
    rw [h.left]
    rfl
  refine h.step_esc_short (by simp) (by simp) rfl ⟨?_, trivial⟩
  rw [Mem.store_cell_ne _ _ (by omega), Mem.store_cell_ne _ _ (by omega), hlast,
    show (s.i : Int) + 2 = s.i + 1 + 1 by ring, Mem.store_cell_same]
  exact h.back.2.1

/-- With two bytes behind it an escape is stuffed, but the first of them is lost
to the second. -/
theorem step_esc_two {x y : Byte} (h : Stuffing s done [0x7d, x, y]) :
    Stuffing (stuffStep s) (done ++ [0x7d]) [y, y] := by
  have hlast : (s.msgLen : Int) = s.i + 1 + 1 := by
    rw [h.left]
    rfl
  have hy : s.mess.cell (s.i + 1 + 1) = y := h.back.2.2.1
  refine h.step_esc_short (by simp) (by simp) rfl ⟨?_, ?_, trivial⟩
  · rw [Mem.store_cell_ne _ _ (by omega), Mem.store_cell_ne _ _ (by omega), hlast,
      Mem.store_cell_ne _ _ (by omega), show (s.i : Int) + 2 = s.i + 1 + 1 by ring]
    exact hy
  · rw [Mem.store_cell_ne _ _ (by omega), Mem.store_cell_ne _ _ (by omega), hlast,
      show (s.i : Int) + 2 + 1 = s.i + 1 + 1 + 1 by ring, Mem.store_cell_same]
    exact hy

/-- With nothing behind it an escape is passed over as it is. -/
theorem step_esc_last (h : Stuffing s done [0x7d]) :
    stuffStep s = { s with i := s.i + 1 } := by
  have hleft : s.msgLen = s.i := h.left
  rw [stuffStep, h.stuffFlag_esc, stuffEsc, if_pos h.cell_i, escapeLoop_stop hleft.le]

end Stuffing

/-! ## Below the index nothing changes -/

/-- What is in front of the index stays in the gap loop. -/
theorem escapeLoop_below (j : Nat) (s : HdlcState) {a : Int} (ha : a < s.i) :
    (escapeLoop j s).mess.cell a = s.mess.cell a := by
  induction j generalizing s with
  | zero => rfl
  | succ j ih =>
      by_cases hj : s.i < j + 1
      · obtain ⟨m, hturn, rfl⟩ := escapeLoop_turn hj
        rw [hturn, ih _ (by simp only; omega)]
        simp only
        rw [Mem.store_cell_ne _ _ (by omega), Mem.store_cell_ne _ _ (by omega),
          Mem.store_cell_ne _ _ (by omega)]
      · rw [escapeLoop_stop (by omega)]

/-- It stays in a turn. -/
theorem stuffStep_below (s : HdlcState) {a : Int} (ha : a < s.i) :
    (stuffStep s).mess.cell a = s.mess.cell a := by
  have hflag : (stuffFlag s).mess.cell a = s.mess.cell a ∧ s.i ≤ (stuffFlag s).i := by
    unfold stuffFlag
    split
    · refine ⟨?_, Nat.le_succ _⟩
      simp only
      rw [Mem.store_cell_ne _ _ (by omega), Mem.store_cell_ne _ _ (by omega), openGap_cell,
        if_neg (by omega)]
    · exact ⟨rfl, le_rfl⟩
  rw [← hflag.1]
  simp only [stuffStep, stuffEsc]
  split
  · exact escapeLoop_below _ _ (by omega)
  · rfl

/-- So it stays to the end of the loop. -/
theorem stuffLoop_below (fuel : Nat) (s : HdlcState) {a : Int} (ha : a < s.i) :
    (stuffLoop fuel s).mess.cell a = s.mess.cell a := by
  induction fuel generalizing s with
  | zero => rfl
  | succ fuel ih =>
      rw [stuffLoop]
      split
      · have hgrowth := stuffStep_growth s
        rw [ih _ (by omega), stuffStep_below s ha]
      · rfl

/-- With three bytes or more behind an escape its gap loop makes a second turn,
and the escape is stored twice in a row below the index. -/
theorem Stuffing.step_esc_long {s : HdlcState} {done rest : List Byte}
    (h : Stuffing s done (0x7d :: rest)) (hlong : 3 ≤ rest.length) :
    (stuffStep s).mess.cell s.i = 0x7d ∧ (stuffStep s).mess.cell (s.i + 1) = 0x7d ∧
      s.i + 2 ≤ (stuffStep s).i := by
  have hleft := h.left
  obtain ⟨j, hj⟩ : ∃ j, s.msgLen = j + 1 + 1 := ⟨s.msgLen - 2, by omega⟩
  obtain ⟨m, hfirst, hm⟩ := escapeLoop_turn (j := j + 1) (s := s) (by omega)
  obtain ⟨m', hsecond, hm'⟩ := escapeLoop_turn (j := j)
    (s := ⟨m, s.msgLen + 1, s.i + 1⟩) (by simp only; omega)
  have hesc : stuffEsc s = escapeLoop j ⟨m', s.msgLen + 1 + 1, s.i + 1 + 1⟩ := by
    have hall : escapeLoop s.msgLen s = escapeLoop (j + 1 + 1) s := by rw [hj]
    rw [stuffEsc, if_pos h.cell_i, hall, hfirst, hsecond]
  have hstep : stuffStep s = { stuffEsc s with i := (stuffEsc s).i + 1 } := by
    rw [stuffStep, h.stuffFlag_esc]
  have hbelow : ∀ a : Int, a < s.i + 2 → (stuffStep s).mess.cell a = m'.cell a := by
    intro a ha
    rw [hstep, hesc]
    exact escapeLoop_below j ⟨m', s.msgLen + 1 + 1, s.i + 1 + 1⟩ (by push_cast; omega)
  simp only at hm'
  push_cast at hm'
  refine ⟨?_, ?_, ?_⟩
  · rw [hbelow _ (by omega), hm', Mem.store_cell_ne _ _ (by omega),
      Mem.store_cell_ne _ _ (by omega), Mem.store_cell_ne _ _ (by omega), hm,
      Mem.store_cell_ne _ _ (by omega), Mem.store_cell_same]
  · rw [hbelow _ (by omega), hm', Mem.store_cell_ne _ _ (by omega), Mem.store_cell_same]
    rfl
  · have hgrowth := (escapeLoop_growth j ⟨m', s.msgLen + 1 + 1, s.i + 1 + 1⟩).2
    rw [hstep, hesc]
    simp only at hgrowth ⊢
    omega

/-! ## Whole runs of the stuffing loop -/

namespace Stuffing

variable {s : HdlcState} {done rest : List Byte}

/-- A turn stuffs a byte that is not the escape. -/
theorem step_of_ne_esc {b : Byte} (h : Stuffing s done (b :: rest)) (hb : b ≠ 0x7d) :
    Stuffing (stuffStep s) (done ++ [b]) rest := by
  by_cases hflag : b = 0x7e
  · subst hflag
    exact h.step_flag
  · exact h.step_plain ⟨hflag, hb⟩

/-- The loop stuffs a stretch without escapes. -/
theorem run {p : List Byte} (h : Stuffing s done (p ++ rest)) (hp : 0x7d ∉ p) :
    Stuffing (stuffLoop p.length s) (done ++ p) rest := by
  induction p generalizing s done with
  | nil => simpa [stuffLoop] using h
  | cons b p ih =>
      have hleft := h.left
      rw [List.length_cons, stuffLoop, if_pos (by omega), List.append_cons]
      exact ih (h.step_of_ne_esc (fun hb => hp (hb ▸ List.mem_cons_self)))
        (fun hmem => hp (List.mem_cons_of_mem b hmem))

/-- The loop stuffs the first of two last bytes whatever it is. -/
theorem step_of_two {x y : Byte} (h : Stuffing s done [x, y]) :
    Stuffing (stuffStep s) (done ++ [x]) [y] := by
  by_cases hx : x = 0x7d
  · subst hx
    exact h.step_esc_one
  · exact h.step_of_ne_esc hx

/-- The turns of a stretch come before the turns of the rest. -/
theorem loop_append {p : List Byte} (h : Stuffing s done (p ++ rest)) {fuel : Nat}
    (hfuel : fuel = p.length + rest.length) :
    stuffLoop fuel s = stuffLoop rest.length (stuffLoop p.length s) := by
  have hlength := h.length
  rw [List.length_append] at hlength
  rw [hfuel, stuffLoop_add _ _ _ hlength]

/-- The loop makes a turn while a byte is left. -/
theorem loop_cons {b : Byte} (h : Stuffing s done (b :: rest)) (fuel : Nat) :
    stuffLoop (fuel + 1) s = stuffLoop fuel (stuffStep s) := by
  have hleft := h.left
  rw [stuffLoop, if_pos (by omega)]

end Stuffing

/-- The bytes from the opening flag up to and including the closing one. -/
def frameBytes (s : HdlcState) : List Byte := s.mess.take 0 (s.msgLen + 2)

/-- The frame is what the buffer holds over its length. -/
theorem frameBytes_of_holds {s : HdlcState} {bs : List Byte} (h : s.mess.Holds 0 bs)
    (hlen : bs.length = s.msgLen + 2) : frameBytes s = bs := by
  rw [Mem.holds_iff_take, hlen] at h
  exact h

/-- A message stuffed to its end leaves a whole frame. -/
theorem Stuffing.closed {s : HdlcState} {done : List Byte} (h : Stuffing s done []) :
    frameBytes (closeFrame s) = 0x7e :: stuff hdlc done ++ [0x7e] ∧
      ∀ a ∈ (closeFrame s).mess.stored, 0 < a ∧ a ≤ (closeFrame s).msgLen + 1 := by
  have hindex := h.index
  have hlength : s.msgLen + 1 = s.i := h.length
  refine ⟨frameBytes_of_holds ?_ ?_, ?_⟩
  · have hend := h.front.store_end 0x7e
    rw [h.front_end, ← hlength] at hend
    exact hend
  · simp only [closeFrame, List.length_append, List.length_cons, List.length_nil]
    omega
  · intro a ha
    simp only [closeFrame, Mem.store_stored, List.mem_cons] at ha ⊢
    rcases ha with rfl | hold
    · omega
    · have hwithin := h.within a hold
      omega

/-- A last byte that is an escape is left raw in front of the closing flag. -/
theorem Stuffing.closed_raw {s : HdlcState} {done : List Byte} (h : Stuffing s done [0x7d]) :
    frameBytes (closeFrame (stuffStep s)) = 0x7e :: stuff hdlc done ++ [0x7d, 0x7e] := by
  have hindex := h.index
  have hleft : s.msgLen = s.i := h.left
  rw [h.step_esc_last]
  refine frameBytes_of_holds ?_ ?_
  · have hraw : s.mess.Holds 0 ((0x7e :: stuff hdlc done) ++ [0x7d]) := by
      rw [Mem.holds_append, h.front_end]
      exact ⟨h.front, h.back⟩
    have hend := hraw.store_end 0x7e
    have haddr : (0 : Int) + (((0x7e :: stuff hdlc done) ++ [0x7d]).length : Nat)
        = s.msgLen + 1 := by
      simp only [List.length_append, List.length_cons, List.length_nil]
      omega
    rw [haddr] at hend
    simpa [closeFrame] using hend
  · simp only [closeFrame, List.length_append, List.length_cons, List.length_nil]
    omega

/-- An escape with three bytes or more behind it spoils the frame: whatever the
loop does afterwards, two raw escapes follow what was stuffed before. -/
theorem Stuffing.closed_spoilt {s : HdlcState} {done rest : List Byte}
    (h : Stuffing s done (0x7d :: rest)) (hlong : 3 ≤ rest.length) :
    ∃ behind, frameBytes (closeFrame (stuffLoop (rest.length + 1) s))
      = 0x7e :: stuff hdlc done ++ 0x7d :: 0x7d :: behind := by
  obtain ⟨hfirst, hsecond, hpast⟩ := h.step_esc_long hlong
  have hleft := h.left
  have hindex := h.index
  have hgrowth := stuffStep_growth s
  have hdone := stuffLoop_done rest.length (stuffStep s) (by omega)
  rw [h.loop_cons]
  generalize ht : stuffLoop rest.length (stuffStep s) = t at hdone ⊢
  have hcell : ∀ a : Int, a < s.i + 2 → t.mess.cell a = (stuffStep s).mess.cell a := by
    intro a ha
    rw [← ht]
    exact stuffLoop_below _ _ (by omega)
  have hlast : s.i + 2 ≤ t.i := by
    rw [← ht]
    exact hpast.trans (stuffLoop_index_le _ _)
  have hspoilt : (closeFrame t).mess.Holds 0 ((0x7e :: stuff hdlc done) ++ [0x7d, 0x7d]) := by
    have hstart : t.mess.Holds 0 ((0x7e :: stuff hdlc done) ++ [0x7d, 0x7d]) := by
      rw [Mem.holds_append]
      refine ⟨h.front.congr ?_, ?_⟩
      · intro a hlo hhi
        simp only [List.length_cons] at hhi
        rw [hcell a (by omega), stuffStep_below s (by omega)]
      · rw [h.front_end]
        exact ⟨(hcell _ (by omega)).trans hfirst, (hcell _ (by omega)).trans hsecond, trivial⟩
    apply hstart.store_outside
    simp only [List.length_append, List.length_cons, List.length_nil]
    omega
  obtain ⟨n, hn⟩ : ∃ n, (closeFrame t).msgLen + 2
      = ((0x7e :: stuff hdlc done) ++ [0x7d, 0x7d]).length + n := by
    refine Nat.exists_eq_add_of_le ?_
    simp only [closeFrame, List.length_append, List.length_cons, List.length_nil]
    omega
  refine ⟨(closeFrame t).mess.take (0 + ((0x7e :: stuff hdlc done) ++ [0x7d, 0x7d]).length) n, ?_⟩
  rw [frameBytes, hn, hspoilt.take_add]
  simp

/-! ## What `fcs_hdlc` leaves -/

/-- A message as a caller hands it over: the opening flag and the body at the
front of the buffer, nothing stored yet. -/
def Ready (msgbuf : Mem Byte) (body : List Byte) : Prop :=
  msgbuf.Holds 0 (0x7e :: body) ∧ msgbuf.stored = []

/-- The check goes right behind the frame, and nowhere else. -/
theorem getModframeString_holds {m : Mem Byte} {a : Int} {frame : List Byte}
    (h : m.Holds a frame) :
    (getModframeString m a frame.length).1.Holds a (withFcs frame) := by
  have hframe : m.take a frame.length = frame := (m.holds_iff_take a frame).mp h
  have hboth := Mem.Holds.store_end (h.store_end (fcsLow frame)) (fcsHigh frame)
  have haddr : a + ((frame ++ [fcsLow frame]).length : Nat) = a + (frame.length : Int) + 1 := by
    simp only [List.length_append, List.length_singleton]
    push_cast
    ring
  rw [haddr, List.append_assoc] at hboth
  simp only [getModframeString, hframe]
  exact hboth

/-- With the check appended the stuffing loop is at the first byte of the
message. -/
theorem stuffing_start {msgbuf : Mem Byte} {body : List Byte} (h : Ready msgbuf body) :
    ∃ s, Stuffing s [] (withFcs body) ∧
      fcsHdlc body.length msgbuf = closeFrame (stuffLoop (body.length + 2) s) := by
  refine ⟨{ mess := (getModframeString msgbuf 1 body.length).1
            msgLen := body.length + 2
            i := 1 }, ⟨?_, ?_, ?_, ?_, ?_⟩, rfl⟩
  · refine ⟨?_, trivial⟩
    simp only [getModframeString]
    rw [Mem.store_cell_ne _ _ (by omega), Mem.store_cell_ne _ _ (by omega)]
    exact h.1.1
  · exact getModframeString_holds h.1.2
  · simp
  · simp only [withFcs_length]
    omega
  · intro a ha
    simp only [getModframeString, Mem.store_stored, h.2, List.mem_cons, List.not_mem_nil,
      or_false] at ha ⊢
    rcases ha with rfl | rfl
    · omega
    · omega

/-- The bodies `fcs_hdlc` stuffs as it should.  An escape is stuffed right only
as the first byte of the check, or as the last byte of the body with the two
bytes of the check equal. -/
def Stuffable (body : List Byte) : Prop :=
  0x7d ∉ body.dropLast ∧
    (body.getLast? = some 0x7d → fcsLow body = fcsHigh body) ∧ fcsHigh body ≠ 0x7d

instance (body : List Byte) : Decidable (Stuffable body) :=
  inferInstanceAs (Decidable (_ ∧ _ ∧ _))

/-- The loop stuffs the two bytes of a check that does not end in an escape. -/
private theorem loop_two {s : HdlcState} {done : List Byte} {x y : Byte}
    (h : Stuffing s done [x, y]) (hy : y ≠ 0x7d) :
    Stuffing (stuffLoop 2 s) (done ++ [x, y]) [] := by
  have hone := h.step_of_two
  have htwo := hone.step_of_ne_esc hy
  rw [h.loop_cons, hone.loop_cons]
  simpa [stuffLoop] using htwo

/-- A check that ends in an escape has its last byte overwritten. -/
private theorem loop_two_raw {s : HdlcState} {done : List Byte} {x : Byte}
    (h : Stuffing s done [x, 0x7d]) :
    frameBytes (closeFrame (stuffLoop 2 s)) = 0x7e :: stuff hdlc (done ++ [x]) ++ [0x7d, 0x7e] := by
  have hone := h.step_of_two
  rw [h.loop_cons, hone.loop_cons]
  exact hone.closed_raw

/-- How a body meets the condition, or fails to. -/
private theorem body_cases (body : List Byte) :
    (∃ p q, body = p ++ 0x7d :: q ∧ 0x7d ∉ p ∧ q ≠ []) ∨
      (∃ p, body = p ++ [0x7d] ∧ 0x7d ∉ p) ∨ 0x7d ∉ body := by
  rcases List.eq_nil_or_concat' body with rfl | ⟨front, last, rfl⟩
  · exact Or.inr (Or.inr (by simp))
  · by_cases hfront : 0x7d ∈ front
    · obtain ⟨p, q, rfl, hp⟩ := List.eq_append_cons_of_mem hfront
      exact Or.inl ⟨p, q ++ [last], by simp, hp, by simp⟩
    · by_cases hlast : last = 0x7d
      · exact Or.inr (Or.inl ⟨front, by rw [hlast], hfront⟩)
      · refine Or.inr (Or.inr ?_)
        simp only [List.mem_append, List.mem_singleton, not_or]
        exact ⟨hfront, Ne.symm hlast⟩

/-- A body without an escape is left as it is, up to its check. -/
private theorem Stuffing.past_body {s : HdlcState} {body : List Byte} {x y : Byte}
    (h : Stuffing s [] (body ++ [x, y])) (hbody : 0x7d ∉ body) :
    ∃ t, Stuffing t body [x, y] ∧ stuffLoop (body.length + 2) s = stuffLoop 2 t := by
  have hat := h.run hbody
  rw [List.nil_append] at hat
  exact ⟨stuffLoop body.length s, hat, h.loop_append (by simp)⟩

/-- An escape at the end of a body takes the first byte of the check with it: the second
one stands there twice. -/
private theorem Stuffing.past_last_escape {s : HdlcState} {p : List Byte} {x y : Byte}
    (h : Stuffing s [] (p ++ [0x7d] ++ [x, y])) (hp : 0x7d ∉ p) :
    ∃ t, Stuffing t (p ++ [0x7d]) [y, y] ∧
      stuffLoop ((p ++ [0x7d]).length + 2) s = stuffLoop 2 t := by
  rw [List.append_assoc, List.singleton_append] at h
  have hat := h.run hp
  refine ⟨stuffStep (stuffLoop p.length s), hat.step_esc_two, ?_⟩
  have hlength : (p ++ [0x7d]).length + 2 = p.length + [0x7d, x, y].length := by
    simp only [List.length_append, List.length_cons, List.length_nil]
  rw [h.loop_append hlength]
  exact hat.loop_cons 2

/-- An escape inside a body is left raw in front of another. -/
private theorem Stuffing.past_inner_escape {s : HdlcState} {p q : List Byte} {x y : Byte}
    (h : Stuffing s [] (p ++ 0x7d :: q ++ [x, y])) (hp : 0x7d ∉ p) (hq : q ≠ []) :
    ∃ behind, frameBytes (closeFrame (stuffLoop ((p ++ 0x7d :: q).length + 2) s))
      = 0x7e :: stuff hdlc p ++ 0x7d :: 0x7d :: behind := by
  have hpos := List.length_pos_of_ne_nil hq
  rw [List.append_assoc, List.cons_append] at h
  have hat := h.run hp
  rw [List.nil_append] at hat
  have hlong : 3 ≤ (q ++ [x, y]).length := by
    simp only [List.length_append, List.length_cons, List.length_nil]
    omega
  have hloop : (p ++ 0x7d :: q).length + 2 = p.length + ((q ++ [x, y]).length + 1) := by
    simp only [List.length_append, List.length_cons, List.length_nil]
    omega
  rw [h.loop_append hloop]
  exact hat.closed_spoilt hlong

/-- **What `fcs_hdlc` gets right.**  A body that meets the condition is left as a
whole frame, with every store inside it. -/
theorem fcsHdlc_stuffable {msgbuf : Mem Byte} {body : List Byte} (h : Ready msgbuf body)
    (hbody : Stuffable body) :
    frameBytes (fcsHdlc body.length msgbuf) = hdlcFrame body ∧
      ∀ a ∈ (fcsHdlc body.length msgbuf).mess.stored,
        0 < a ∧ a ≤ (fcsHdlc body.length msgbuf).msgLen + 1 := by
  obtain ⟨s, hs, hrun⟩ := stuffing_start h
  obtain ⟨hinner, hlast, hhigh⟩ := hbody
  rw [hrun, hdlcFrame]
  rw [withFcs, fcsBytes_eq] at hs ⊢
  apply Stuffing.closed
  rcases body_cases body with ⟨p, q, rfl, -, hq⟩ | ⟨p, rfl, hp⟩ | hnone
  · refine absurd ?_ hinner
    rw [List.dropLast_append_of_ne_nil (by simp), List.dropLast_cons_of_ne_nil hq]
    simp
  · have heq := hlast (by simp)
    obtain ⟨t, ht, hloop⟩ := hs.past_last_escape hp
    rw [hloop, heq]
    exact loop_two ht hhigh
  · obtain ⟨t, ht, hloop⟩ := hs.past_body hnone
    rw [hloop]
    exact loop_two ht hhigh

/-- **What `fcs_hdlc` gets wrong.**  A body that fails the condition is left with
a raw escape in front of no stand-in, or with the first byte of its check lost
to the second. -/
theorem fcsHdlc_not_stuffable {msgbuf : Mem Byte} {addr : Byte} {body : List Byte}
    (h : Ready msgbuf (addr :: body)) (haddr : addr ≠ 0x7d) (hbody : ¬ Stuffable (addr :: body)) :
    (∃ p z behind, p.length ≤ body.length + 1 ∧ z ≠ 0x5e ∧ z ≠ 0x5d ∧
        frameBytes (fcsHdlc (addr :: body).length msgbuf)
          = 0x7e :: stuff hdlc (addr :: p) ++ 0x7d :: z :: behind) ∨
      fcsLow (addr :: body) ≠ fcsHigh (addr :: body) ∧
        frameBytes (fcsHdlc (addr :: body).length msgbuf)
          = 0x7e :: stuff hdlc (addr :: body ++
              [fcsHigh (addr :: body), fcsHigh (addr :: body)]) ++ [0x7e] := by
  obtain ⟨s, hs, hrun⟩ := stuffing_start h
  rw [withFcs, fcsBytes_eq] at hs
  rw [hrun]
  rcases body_cases (addr :: body) with ⟨p, q, hsplit, hp, hq⟩ | ⟨p, hsplit, hp⟩ | hnone
  · -- an escape inside the body
    obtain ⟨p, rfl⟩ : ∃ p', p = addr :: p' := by
      cases p with
      | nil => exact absurd (List.cons.inj hsplit).1 haddr
      | cons x p => exact ⟨p, by rw [(List.cons.inj hsplit).1]⟩
    have hlen := congrArg List.length hsplit
    simp only [List.length_append, List.length_cons] at hlen
    obtain ⟨behind, hspoilt⟩ : ∃ behind, frameBytes
        (closeFrame (stuffLoop ((addr :: body).length + 2) s))
          = 0x7e :: stuff hdlc (addr :: p) ++ 0x7d :: 0x7d :: behind := by
      generalize fcsLow (addr :: body) = x at hs
      generalize fcsHigh (addr :: body) = y at hs
      rw [hsplit] at hs ⊢
      exact hs.past_inner_escape hp hq
    exact Or.inl ⟨p, 0x7d, behind, by omega, by decide, by decide, hspoilt⟩
  · -- an escape at the end of the body
    obtain ⟨t, ht, hloop⟩ : ∃ t, Stuffing t (addr :: body)
        [fcsHigh (addr :: body), fcsHigh (addr :: body)] ∧
          stuffLoop ((addr :: body).length + 2) s = stuffLoop 2 t := by
      generalize fcsLow (addr :: body) = x at hs
      generalize fcsHigh (addr :: body) = y at hs ⊢
      rw [hsplit] at hs ⊢
      exact hs.past_last_escape hp
    rw [hloop]
    by_cases hhigh : fcsHigh (addr :: body) = 0x7d
    · refine Or.inl ⟨body ++ [fcsHigh (addr :: body)], 0x7e, [], by simp, by decide, by decide, ?_⟩
      have hraw := loop_two_raw (hhigh ▸ ht)
      rw [hraw, hhigh]
      simp
    · refine Or.inr ⟨?_, (loop_two ht hhigh).closed.1⟩
      intro heq
      refine hbody ⟨?_, fun _ => heq, hhigh⟩
      rw [hsplit, List.dropLast_concat]
      exact hp
  · -- no escape in the body
    have hhigh : fcsHigh (addr :: body) = 0x7d := by
      by_contra hhigh
      refine hbody ⟨fun hmem => hnone (List.dropLast_subset _ hmem), fun hlast => ?_, hhigh⟩
      exact absurd (List.mem_of_getLast? hlast) hnone
    obtain ⟨t, ht, hloop⟩ := hs.past_body hnone
    rw [hhigh] at ht
    rw [hloop]
    refine Or.inl ⟨body ++ [fcsLow (addr :: body)], 0x7e, [], by simp, by decide, by decide, ?_⟩
    simpa using loop_two_raw ht

end RfsAtsc
