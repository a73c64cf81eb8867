import RfsAtsc.SerialReader

/-!
# The blocking reader of `rd3418.c`

`rd3418.c` keeps an older `ser_driver_read`.  It has no `select` before its reads,
so a silent port makes it wait for ever, and it drops whatever comes in front of the
opening flag.  From the flag on it reads a message as the library's reader does.
-/

namespace RfsAtsc

open TracedMemory ByteStuffing

namespace Rd3418

/-- `while (msgbuf[0] != 0x7e) read(fpin, &msgbuf[0], 1);`: the buffer and the port
once the loop is over, or once the port is silent. -/
def seekFlag : List Byte → Mem Byte → Mem Byte × List Byte
  | [], m => (m, [])
  | b :: port, m => if m.cell 0 ≠ 0x7e then seekFlag port (m.store 0 b) else (m, b :: port)

/-- The loop `for (i=ii; i<100; i++)` over the remainder of a message. -/
def readLoop : List Byte → Nat → Mem Byte → Parse
  | [], i, m =>
      if i < 100 then { ended := .blocked, msgbuf := m, i := i, port := [] }
      else { ended := .flag, msgbuf := m, i := i, port := [] }
  | b :: port, i, m =>
      if i < 100 then
        let m := m.store i b
        if i > 95 then { ended := .tooLong, msgbuf := m, i := i, port := port }
        else if b = 0x7e then { ended := .flag, msgbuf := m, i := i, port := port }
        else if b = 0x7d then
          match port with
          | [] => { ended := .blocked, msgbuf := m, i := i, port := [] }
          | e :: port =>
              let m := m.store (i + 1) e
              if e = 0x5e then readLoop port (i + 1) (m.store i 0x7e)
              else if e ≠ 0x5d then { ended := .illegal, msgbuf := m, i := i, port := port }
              else readLoop port (i + 1) m
        else readLoop port (i + 1) m
      else { ended := .flag, msgbuf := m, i := i, port := b :: port }

/-- The first byte, the second, and the remainder.  On a silent port the reader
waits for its opening flag or for the byte behind it. -/
def readMessage (port : List Byte) (m : Mem Byte) : Parse :=
  let (m, port) := seekFlag port m
  match port with
  | [] => { ended := .blocked, msgbuf := m, i := 0, port := [] }
  | b :: port =>
      let m := m.store 1 b
      let ii := if b ≠ 0x7e then 2 else 1
      readLoop port ii m

/-- `ser_driver_read` of `rd3418.c`. -/
def serDriverRead (port : List Byte) (messagebuff stack : Mem Byte) : ReadResult :=
  let p := readMessage port (stack.write 0 (List.replicate 100 0))
  match p.ended with
  | .flag =>
      let messagebuff := messagebuff.write 0 (p.msgbuf.take 0 100)
      if p.newfcs oldfcs ≠ 0xf0b8 then ⟨some false, messagebuff, p.port⟩
      else ⟨some true, messagebuff, p.port⟩
  | .blocked => ⟨none, messagebuff, p.port⟩
  | _ => ⟨some false, messagebuff, p.port⟩

end Rd3418

/-- The same end over a port without time-outs. -/
def Parse.waiting (p : Parse) : Parse :=
  if p.ended = .silent then { p with ended := .blocked } else p

namespace Rd3418

/-- Without time-outs the two loops are one. -/
theorem readLoop_eq (port : List Byte) (i : Nat) (m : Mem Byte) :
    readLoop port i m = (RfsAtsc.readLoop port i m).waiting := by
  fun_induction RfsAtsc.readLoop port i m with
  | case1 i m hi =>
      rw [readLoop, if_pos hi]
      rfl
  | case2 i m hi =>
      rw [readLoop, if_neg hi]
      rfl
  | case3 b port i m hi m' hlong =>
      rw [readLoop, if_pos hi, if_pos hlong]
      rfl
  | case4 port i m hi hshort m' =>
      rw [readLoop, if_pos hi, if_neg hshort, if_pos rfl]
      rfl
  | case5 i m hi hshort m' hflag =>
      rw [readLoop, if_pos hi, if_neg hshort, if_neg hflag, if_pos rfl]
      rfl
  | case6 i m hi hshort port m' hflag m'' ih =>
      rw [readLoop, if_pos hi, if_neg hshort, if_neg hflag, if_pos rfl]
      exact ih
  | case7 i m hi hshort e port hstand hesc m' hflag m'' =>
      rw [readLoop, if_pos hi, if_neg hshort, if_neg hflag, if_pos rfl]
      simp only [if_neg hstand, if_pos hesc]
      rfl
  | case8 i m hi hshort e port hstand hesc m' hflag m'' ih =>
      rw [readLoop, if_pos hi, if_neg hshort, if_neg hflag, if_pos rfl]
      simp only [if_neg hstand, if_neg hesc]
      exact ih
  | case9 b port i m hi m' hshort hflag hesc ih =>
      rw [readLoop, if_pos hi, if_neg hshort, if_neg hflag, if_neg hesc]
      exact ih
  | case10 b port i m hi =>
      rw [readLoop, if_neg hi]
      rfl

/-- The buffer behind the bytes in front of the opening flag. -/
def overwritten (m : Mem Byte) (junk : List Byte) : Mem Byte :=
  junk.foldl (fun m b => m.store 0 b) m

theorem overwritten_cell (m : Mem Byte) (junk : List Byte) {a : Int} (ha : a ≠ 0) :
    (overwritten m junk).cell a = m.cell a := by
  induction junk generalizing m with
  | nil => rfl
  | cons b junk ih => exact (ih (m.store 0 b)).trans (m.store_cell_ne b ha)

/-- The loop drops what comes in front of the first flag. -/
theorem seekFlag_junk {junk : List Byte} (hjunk : 0x7e ∉ junk) (u : List Byte) {m : Mem Byte}
    (hm : m.cell 0 ≠ 0x7e) :
    seekFlag (junk ++ 0x7e :: u) m = ((overwritten m junk).store 0 0x7e, u) := by
  induction junk generalizing m with
  | nil =>
      rw [List.nil_append, seekFlag, if_pos hm]
      cases u with
      | nil => rfl
      | cons b u => rw [seekFlag, if_neg (by simp)]; rfl
  | cons b junk ih =>
      rw [List.mem_cons, not_or] at hjunk
      rw [List.cons_append, seekFlag, if_pos hm]
      apply ih hjunk.2
      rw [Mem.store_cell_same]
      exact Ne.symm hjunk.1

/-- From the opening flag on this reader takes a message as the library's does. -/
theorem readMessage_junk {junk : List Byte} (hjunk : 0x7e ∉ junk) (u : List Byte) {m : Mem Byte}
    (hm : m.cell 0 ≠ 0x7e) :
    readMessage (junk ++ 0x7e :: u) m
      = (RfsAtsc.readMessage (0x7e :: u) (overwritten m junk)).waiting := by
  rw [readMessage, seekFlag_junk hjunk u hm]
  cases u with
  | nil => rfl
  | cons b u => exact readLoop_eq u _ _

/-- A port without a flag is read to its end. -/
theorem readMessage_no_flag {port : List Byte} (hport : 0x7e ∉ port) {m : Mem Byte}
    (hm : m.cell 0 ≠ 0x7e) :
    readMessage port m = ⟨.blocked, overwritten m port, 0, []⟩ := by
  have hseek : seekFlag port m = (overwritten m port, []) := by
    induction port generalizing m with
    | nil => rfl
    | cons b port ih =>
        rw [List.mem_cons, not_or] at hport
        rw [seekFlag, if_pos hm]
        apply ih hport.2
        rw [Mem.store_cell_same]
        exact Ne.symm hport.1
  rw [readMessage, hseek]

/-- A message in time for its closing flag, behind anything but a flag. -/
theorem serDriverRead_flag {junk u content rest : List Byte} (hjunk : 0x7e ∉ junk)
    (h : Spells (0x7e :: u) 0x7e content (0x7e :: rest)) (hlen : content.length ≤ 94)
    (messagebuff stack : Mem Byte) :
    (serDriverRead (junk ++ 0x7e :: u) messagebuff stack).ret
        = some (decide (checkModframeString content = PPPGOODFCS)) ∧
      (serDriverRead (junk ++ 0x7e :: u) messagebuff stack).port = rest ∧
      (serDriverRead (junk ++ 0x7e :: u) messagebuff stack).messagebuff.Holds 0
        (messageData 0x7e content) := by
  obtain ⟨m', hread, hheld, habove⟩ :=
    readMessage_flag h hlen (overwritten (stack.write 0 (List.replicate 100 0)) junk)
  have hclear : ∀ a : Int, content.length + 1 < a →
      m'.cell a = (stack.write 0 (List.replicate 100 0)).cell a := by
    intro a ha
    rw [habove a ha, overwritten_cell _ _ (by omega)]
  have hcopy := messageData_copied hlen (messageData_held hlen hheld hclear) messagebuff
  have hfcs := newfcs_of_holds oldfcs (p := ⟨.flag, m', content.length + 1, rest⟩) rfl hheld
  rw [oldfcs_eq] at hfcs
  have hparse : readMessage (junk ++ 0x7e :: u) (stack.write 0 (List.replicate 100 0))
      = ⟨.flag, m', content.length + 1, rest⟩ := by
    rw [readMessage_junk hjunk u (serDriverRead_enters stack), hread]
    rfl
  unfold serDriverRead
  simp only [hparse, hfcs]
  by_cases hgood : checkModframeString content = PPPGOODFCS
  · have hval : ¬ pppfcs PPPINITFCS content ≠ 0xf0b8 := fun hbad => hbad hgood
    rw [if_neg hval]
    exact ⟨by simp [hgood], rfl, hcopy⟩
  · have hval : pppfcs PPPINITFCS content ≠ 0xf0b8 := hgood
    rw [if_pos hval]
    exact ⟨by simp [hgood], rfl, hcopy⟩

/-- **Frames are received.**  Behind anything but a flag, with its opening flag doubled
or not, a frame of 1 to 92 bytes is taken off the port through its closing flag and
delivered: the flag, the body and its check, then the closing flag and zeros. -/
theorem blocking_reader_receives {junk info : List Byte} {address : Byte} (hjunk : 0x7e ∉ junk)
    (hesc : address ≠ 0x7d) (hflag : address ≠ 0x7e) (hlen : (address :: info).length ≤ 92)
    (doubled : Bool) (rest : List Byte) (messagebuff stack : Mem Byte) :
    let port := junk ++ 0x7e :: ((if doubled then [0x7e] else []) ++
      stuff hdlc (withFcs (address :: info)) ++ 0x7e :: rest)
    let r := serDriverRead port messagebuff stack
    r.ret = some true ∧ r.port = rest ∧
      r.messagebuff.Holds 0 (messageData 0x7e (withFcs (address :: info))) := by
  have hspells : Spells (0x7e :: ((if doubled then [0x7e] else []) ++
      stuff hdlc (withFcs (address :: info)) ++ 0x7e :: rest)) 0x7e
      (withFcs (address :: info)) (0x7e :: rest) := by
    cases doubled with
    | true => exact ⟨0x7e, withFcs (address :: info), by simp, rfl⟩
    | false =>
        have hplain : stuff hdlc (withFcs (address :: info))
            = address :: stuff hdlc (info ++ fcsBytes (address :: info)) := by
          rw [withFcs, List.cons_append, stuff_cons, stuffByte_plain hdlc ⟨hflag, hesc⟩]
          rfl
        rw [hplain]
        exact Spells.of_lead_ne hflag _
  have hroom : (withFcs (address :: info)).length ≤ 94 := by
    rw [withFcs_length]
    omega
  obtain ⟨hret, hport, hheld⟩ := serDriverRead_flag hjunk hspells hroom messagebuff stack
  refine ⟨?_, hport, hheld⟩
  rw [hret, checkModframeString_withFcs]
  rfl

/-- A frame with an escape in its body, behind a stray byte and with its flag
doubled. -/
theorem blocking_reader_receives_escape :
    (serDriverRead ([0x11] ++ 0x7e :: ([0x7e] ++ stuff hdlc (withFcs [0x05, 0x7d]) ++
        0x7e :: [0x42])) (Mem.ofList 0 []) (Mem.ofList 0 [])).ret = some true ∧
      (serDriverRead ([0x11] ++ 0x7e :: ([0x7e] ++ stuff hdlc (withFcs [0x05, 0x7d]) ++
        0x7e :: [0x42])) (Mem.ofList 0 []) (Mem.ofList 0 [])).port = [0x42] ∧
      (serDriverRead ([0x11] ++ 0x7e :: ([0x7e] ++ stuff hdlc (withFcs [0x05, 0x7d]) ++
        0x7e :: [0x42])) (Mem.ofList 0 []) (Mem.ofList 0 [])).messagebuff.Holds 0
          (messageData 0x7e (withFcs [0x05, 0x7d])) :=
  blocking_reader_receives (by decide) (by decide) (by decide) (by decide) true [0x42] _ _

end Rd3418

end RfsAtsc
