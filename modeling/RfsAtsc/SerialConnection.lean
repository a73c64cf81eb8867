import RfsAtsc.Descriptors
import RfsAtsc.EventMachine
import RfsAtsc.RequestReplies

/-!
# The serial connection of `ab3418comm`

`ab3418comm` talks to the controller through two descriptors of one serial device, and opens
the device again whenever a request has failed.  On an RS232 port it closes its input twice
then, and at the start it closes the standard input, whose number it takes; an output that
does not open is noticed by some of the requests and not by `set_pattern`.

The loop and the rest of the program share a table of descriptors here.  Through every
failure the loop has its one or two descriptors and no others (`SerialOwned`), and what it
watches, writes and publishes is safe in every step exactly when no pattern is set while the
output is down (`serial_along_iff`).
-/

namespace RfsAtsc

open TracedMemory ByteStuffing EventMachine Descriptors

variable {limit : ℕ}

/-! ## `check_and_reconnect_serial` -/

/-- The table of the process, and the variables for the two descriptors of the device. -/
structure SerialPort (limit : ℕ) where
  table : Table limit
  fpin : Int
  fpout : Int

/-- `open` of the device, if it is there. -/
def openDevice (there : Bool) (t : Table limit) : Int × Table limit :=
  if there then t.openNext else (-1, t)

/-- A device that is not there is not opened. -/
theorem openDevice_false (t : Table limit) : openDevice false t = (-1, t) := rfl

/-- One that is there is opened as the next descriptor. -/
theorem openDevice_true (t : Table limit) : openDevice true t = t.openNext := rfl

/-- The loop that opens the device for input, by whether it is there at each attempt; none
while the loop is still trying. -/
def openInput (good : Int → Bool) : List Bool → Table limit → Option (Int × Table limit)
  | [], _ => none
  | there :: attempts, t =>
      let input := openDevice there t
      if good input.1 then some input else openInput good attempts input.2

/-- Both descriptors are opened, the output at one attempt only. -/
def openBoth (good : Int → Bool) (attempts : List Bool) (outThere : Bool) (t : Table limit) :
    Option (Int × SerialPort limit) :=
  (openInput good attempts t).map fun input =>
    let output := openDevice outThere input.2
    (if output.1 ≤ 0 then -1 else 0,
      { table := output.2, fpin := input.1, fpout := output.1 })

/-- The closings at the start of `check_and_reconnect_serial`. -/
def closeSerial (isUsb : Bool) (retval : Int) (p : SerialPort limit) : Table limit :=
  if isUsb then
    let t := if p.fpin ≠ 0 then p.table.close p.fpin else p.table
    if p.fpout ≠ 0 then t.close p.fpout else t
  else
    let t := if retval ≠ 0 then (p.table.close p.fpin).close p.fpout else p.table
    t.close p.fpin

/-- The input is open: on USB a 0 is taken for a failure. -/
def goodInput (isUsb : Bool) (fpin : Int) : Bool := if isUsb then 0 < fpin else 0 ≤ fpin

/-- `check_and_reconnect_serial`: what it returns, and the port. -/
def checkAndReconnectSerial (isUsb : Bool) (retval : Int) (attempts : List Bool)
    (outThere : Bool) (p : SerialPort limit) : Option (Int × SerialPort limit) :=
  if retval = 0 ∨ retval = -1 ∨ retval = -2 then
    openBoth (goodInput isUsb) attempts outThere (closeSerial isUsb retval p)
  else some (-2, p)

/-! ## The main loop -/

/-- `sizeof` the messages. -/
def sizeofGetLongStatus8Mess : Nat := 8
def sizeofGetLongStatus8RespMess : Nat := 40
def sizeofGetShortStatusResp : Nat := 11

/-- The request of `get_status`, made in a message of the size of the reply. -/
def getStatusMess (stack : Mem Byte) : Sent :=
  sendMess sizeofGetLongStatus8Mess
    ((stack.write 0 [0x7e, 0x05, 0x13, 0xc0, 0x8c]).write 37 [0x00, 0x00])

/-- `get_status`, with `wait_for_data` set.  It returns what the reader returns. -/
def getStatus (readBuff : Mem Byte) (fpout : Int) (writable : Bool) (port : List Byte)
    (l : Locals) : Exchange :=
  if fpout ≤ 0 then { ret := some (-1), wire := none, heard := none }
  else
    let e := exchange (getStatusMess l.mess) writable true port readBuff l.msgbuf
    { e with ret := e.ret.map fun ret => if ret = 0 then 1 else ret }

/-- What a request meets: whether the output takes it, the bytes that come in, what is on the
stack; and what an attempt to open the device again meets. -/
structure Answering where
  writable : Bool
  port : List Byte
  locals : Locals
  attempts : List Bool
  outThere : Bool

/-- A request for the long status or the short one, a pattern from the database, or the rest
of the program opens or closes something of its own. -/
inductive SerialEvent where
  | getStatus (a : Answering)
  | getShortStatus (a : Answering)
  | setPattern
  | otherOpens
  | otherCloses (fd : ℕ)

/-- What the loop does outside its variables: `FD_SET`, `write`, and writing to the
database. -/
inductive Touch where
  | watched (fd : Int)
  | wrote (fd : Int) (bytes : List Byte)
  | published (record : List Byte)

/-- The loop: its port, what the rest of the program has open, the message it reads into, and
whether it waits for ever. -/
structure SerialComm (limit : ℕ) where
  serial : SerialPort limit
  others : Finset ℕ
  readBuff : Mem Byte
  waiting : Bool

/-- What an exchange touches. -/
def Exchange.touches (e : Exchange) (p : SerialPort limit) : List Touch :=
  match e.wire with
  | none => if p.fpout ≤ 0 then [] else [.watched p.fpout]
  | some bytes => [.watched p.fpout, .wrote p.fpout bytes, .watched p.fpin]

/-- What follows an exchange: a connection that failed is opened again, and a message that
came is published. -/
def SerialComm.answered (s : SerialComm limit) (isUsb : Bool) (a : Answering) (e : Exchange)
    (checks publishes : Int → Bool) (size : ℕ) : SerialComm limit × List Touch :=
  let touches := e.touches s.serial
  match e.ret with
  | none => ({ s with waiting := true }, touches)
  | some retval =>
      let readBuff := (e.heard.map ReadResult.messagebuff).getD s.readBuff
      let records := if publishes retval then [.published (readBuff.take 0 size)] else []
      let reconnected :=
        if checks retval then
          checkAndReconnectSerial isUsb retval a.attempts a.outThere s.serial
        else some (0, s.serial)
      match reconnected with
      | none => ({ s with readBuff := readBuff, waiting := true }, touches)
      | some (_, serial) =>
          ({ s with serial := serial, readBuff := readBuff }, touches ++ records)

/-- One call of the loop.  On a serial line the `sendto` and `recvfrom` of `set_pattern` fail
behind its `select`. -/
def serialStep (isUsb : Bool) (s : SerialComm limit) :
    SerialEvent → SerialComm limit × List Touch
  | .getStatus a =>
      if s.waiting then (s, [])
      else
        s.answered isUsb a
          (RfsAtsc.getStatus s.readBuff s.serial.fpout a.writable a.port a.locals)
          (fun _ => true) (fun retval => 0 ≤ retval) sizeofGetLongStatus8RespMess
  | .getShortStatus a =>
      if s.waiting then (s, [])
      else
        s.answered isUsb a
          (RfsAtsc.getShortStatus true (some s.readBuff) s.serial.fpout a.writable a.port a.locals)
          (fun retval => retval < 0) (fun retval => retval = 0) sizeofGetShortStatusResp
  | .setPattern => if s.waiting then (s, []) else (s, [.watched s.serial.fpout])
  | .otherOpens =>
      let opened := s.serial.table.openNext
      ({ s with
          serial := { s.serial with table := opened.2 }
          others := if 0 ≤ opened.1 then insert opened.1.toNat s.others else s.others }, [])
  | .otherCloses fd =>
      -- not the standard input, and not what is not its own
      if fd ∈ s.others ∧ fd ≠ 0 then
        ({ s with
            serial := { s.serial with table := s.serial.table.close fd }
            others := s.others.erase fd }, [])
      else (s, [])

/-- The loop as a machine. -/
def serialLoop (limit : ℕ) (isUsb : Bool) : Machine (SerialComm limit) SerialEvent Touch :=
  ⟨serialStep isUsb⟩

/-- Before the loop: the first connection, from variables that are 0.  On an RS232 port it
closes the standard input. -/
def startSerial (isUsb : Bool) (attempts : List Bool) (outThere : Bool) (table : Table limit)
    (readBuff : Mem Byte) : Option (SerialComm limit) :=
  (checkAndReconnectSerial isUsb 0 attempts outThere ⟨table, 0, 0⟩).map fun r =>
    { serial := r.2
      others := if isUsb then table.opened else table.opened.erase 0
      readBuff := readBuff
      waiting := false }

/-! ## The loop's own descriptors -/

/-- What keeps the number 0 from the output: the standard input, or on an RS232 port the
loop's own input. -/
def ZeroTaken (isUsb : Bool) (others : Finset ℕ) (fin : ℕ) : Prop :=
  if isUsb then 0 ∈ others else fin = 0

/-- The loop has its input, and its output or -1 in its place, and nothing else. -/
inductive SerialOwned (isUsb : Bool) (others : Finset ℕ) : SerialPort limit → Prop where
  | both (table : Table limit) (fin fout : ℕ) (keeps : Keeps table others {fin, fout})
      (ne : fin ≠ fout) (zero : ZeroTaken isUsb others fin) :
      SerialOwned isUsb others ⟨table, fin, fout⟩
  | inputOnly (table : Table limit) (fin : ℕ) (keeps : Keeps table others {fin})
      (zero : ZeroTaken isUsb others fin) :
      SerialOwned isUsb others ⟨table, fin, -1⟩

/-- A descriptor other than a given one is not 0 where that one is the input. -/
theorem ZeroTaken.pos {isUsb : Bool} {others own : Finset ℕ} {fin fd : ℕ} {t : Table limit}
    (h : ZeroTaken isUsb others fin) (hkeeps : Keeps t others own) (hfd : fd ∈ own)
    (hne : fin ≠ fd) : 0 < fd := by
  unfold ZeroTaken at h
  rw [Nat.pos_iff_ne_zero]
  rintro rfl
  split at h
  · exact hkeeps.notMem_others hfd h
  · exact hne h

/-- On USB the input is not 0 either. -/
theorem ZeroTaken.usb_pos {others own : Finset ℕ} {fin : ℕ} {t : Table limit}
    (h : ZeroTaken true others fin) (hkeeps : Keeps t others own) (hfin : fin ∈ own) :
    0 < fin := by
  rw [Nat.pos_iff_ne_zero]
  rintro rfl
  exact hkeeps.notMem_others hfin h

section Opening

variable {isUsb : Bool} {others : Finset ℕ} (hzero : 0 ∈ others ↔ isUsb = true)

include hzero

/-- A descriptor that is not among the others can be read from. -/
theorem goodInput_of_notMem {fd : ℕ} (hfd : fd ∉ others) : goodInput isUsb fd = true := by
  unfold goodInput
  split
  · rename_i husb
    rw [decide_eq_true_eq, Int.natCast_pos, Nat.pos_iff_ne_zero]
    rintro rfl
    exact hfd (hzero.mpr husb)
  · exact decide_eq_true (Int.natCast_nonneg fd)

variable {t : Table limit} (h : Keeps t others ∅)

include h

/-- The input gets the lowest number that the others leave. -/
theorem openInput_spec {attempts : List Bool} {r : Int × Table limit}
    (hr : openInput (goodInput isUsb) attempts t = some r) :
    ∃ fin : ℕ, r.1 = fin ∧ Keeps r.2 others {fin} ∧ ∀ k < fin, k ∈ others := by
  have hopened : t.opened = others := by
    rw [h.opened, Finset.union_empty]
  have hbad : goodInput isUsb (-1) = false := by
    cases isUsb <;> rfl
  induction attempts with
  | nil => exact absurd hr (by simp [openInput])
  | cons there attempts ih =>
      rw [openInput] at hr
      cases there with
      | false =>
          simp only [openDevice_false, hbad, Bool.false_eq_true, if_false] at hr
          exact ih hr
      | true =>
          have hopens := t.openNext_opens
          rw [openDevice_true] at hr
          generalize t.openNext = input at hopens hr
          cases hopens with
          | full hfull =>
              simp only [hbad, Bool.false_eq_true, if_false] at hr
              exact ih hr
          | lowest fd lt new least =>
              rw [hopened] at new least
              simp only [goodInput_of_notMem hzero new, if_true, Option.some.injEq] at hr
              subst hr
              exact ⟨fd, rfl, h.take lt (by rwa [hopened]), least⟩

/-- Both are opened, or the input alone. -/
theorem openBoth_owned {attempts : List Bool} {outThere : Bool} {r : Int × SerialPort limit}
    (hr : openBoth (goodInput isUsb) attempts outThere t = some r) :
    SerialOwned isUsb others r.2 := by
  obtain ⟨input, hinput, rfl⟩ := Option.map_eq_some_iff.mp hr
  obtain ⟨fin, hfin, hkeeps, hleast⟩ := openInput_spec hzero h hinput
  have htaken : ZeroTaken isUsb others fin := by
    unfold ZeroTaken
    split
    · rename_i husb
      exact hzero.mpr husb
    · rename_i hserial
      by_contra hpos
      exact hserial (hzero.mp (hleast 0 (Nat.pos_of_ne_zero hpos)))
  rw [hfin]
  cases outThere with
  | false => exact .inputOnly _ fin hkeeps htaken
  | true =>
      have hopens := input.2.openNext_opens
      rw [openDevice_true]
      generalize input.2.openNext = output at hopens
      cases hopens with
      | full hfull => exact .inputOnly _ fin hkeeps htaken
      | lowest fout lt new least =>
          have hboth := hkeeps.take lt new
          have hne : fin ≠ fout := by
            rintro rfl
            exact new (hkeeps.mem (Finset.mem_singleton_self fin))
          rw [Finset.pair_comm] at hboth
          exact .both _ fin fout hboth hne htaken

end Opening

/-- The loop closes what it has, whichever of its descriptors that is, and whether it closes
its input once or twice. -/
theorem closeSerial_keeps {isUsb : Bool} {others : Finset ℕ} {p : SerialPort limit}
    (h : SerialOwned isUsb others p) {retval : Int} (hretval : retval ≠ 0) :
    Keeps (closeSerial isUsb retval p) others ∅ := by
  unfold closeSerial
  cases h with
  | both table fin fout keeps ne zero =>
      have hpair := keeps.closePair ne
      cases isUsb with
      | true =>
          have hfin := zero.usb_pos keeps (Finset.mem_insert_self fin _)
          have hfout := zero.pos keeps (by simp) ne
          have hfinNe : (fin : Int) ≠ 0 := by omega
          have hfoutNe : (fout : Int) ≠ 0 := by omega
          simp only [if_true, if_pos hfinNe, if_pos hfoutNe]
          exact hpair
      | false =>
          have hfin := keeps.notMem_others (Finset.mem_insert_self fin _)
          have hclosed : fin ∉ ((table.close fin).close fout).opened := by
            rwa [hpair.opened, Finset.union_empty]
          simp only [Bool.false_eq_true, if_false, if_pos hretval]
          rwa [Table.close_of_notMem hclosed]
  | inputOnly table fin keeps zero =>
      have hsingle := keeps.close (Finset.mem_singleton_self fin)
      rw [Finset.erase_singleton] at hsingle
      cases isUsb with
      | true =>
          have hfin := zero.usb_pos keeps (Finset.mem_singleton_self fin)
          have hfinNe : (fin : Int) ≠ 0 := by omega
          have hfoutNe : (-1 : Int) ≠ 0 := by decide
          simp only [if_true, if_pos hfinNe, if_pos hfoutNe]
          rwa [Table.close_neg _ (show (-1 : Int) < 0 by decide)]
      | false =>
          have hfin := keeps.notMem_others (Finset.mem_singleton_self fin)
          have hclosed : fin ∉ (table.close fin).opened := by
            rwa [hsingle.opened, Finset.union_empty]
          simp only [Bool.false_eq_true, if_false, if_pos hretval]
          rwa [Table.close_neg _ (show (-1 : Int) < 0 by decide), Table.close_of_notMem hclosed]

/-- **Reconnecting** leaves the loop with its own descriptors and the others with theirs. -/
theorem checkAndReconnectSerial_owned {isUsb : Bool} {others : Finset ℕ} {p : SerialPort limit}
    (h : SerialOwned isUsb others p) (hzero : 0 ∈ others ↔ isUsb = true) {retval : Int}
    (hretval : retval ≠ 0) {attempts : List Bool} {outThere : Bool}
    {r : Int × SerialPort limit}
    (hr : checkAndReconnectSerial isUsb retval attempts outThere p = some r) :
    SerialOwned isUsb others r.2 := by
  unfold checkAndReconnectSerial at hr
  split at hr
  · exact openBoth_owned hzero (closeSerial_keeps h hretval) hr
  · obtain rfl := Option.some.inj hr
    exact h

/-- The first connection. -/
theorem startSerial_owned {isUsb : Bool} {attempts : List Bool} {outThere : Bool}
    {table : Table limit} {readBuff : Mem Byte} {s : SerialComm limit}
    (hstdin : isUsb = true → 0 ∈ table.opened)
    (hs : startSerial isUsb attempts outThere table readBuff = some s) :
    (0 ∈ s.others ↔ isUsb = true) ∧ SerialOwned isUsb s.others s.serial := by
  obtain ⟨r, hr, rfl⟩ := Option.map_eq_some_iff.mp hs
  unfold checkAndReconnectSerial at hr
  rw [if_pos (Or.inl rfl)] at hr
  have hzero : 0 ∈ (if isUsb then table.opened else table.opened.erase 0) ↔ isUsb = true := by
    cases isUsb with
    | true => exact iff_of_true (hstdin rfl) rfl
    | false => simp
  refine ⟨hzero, openBoth_owned hzero ⟨?_, Finset.disjoint_empty_right _⟩ hr⟩
  rw [Finset.union_empty]
  cases isUsb with
  | true => rfl
  | false => exact Table.close_natCast table 0

/-! ## What the loop touches -/

/-- A descriptor that is open, and not one of the others. -/
def SerialPort.Owns (p : SerialPort limit) (others : Finset ℕ) (fd : Int) : Prop :=
  ∃ k : ℕ, fd = k ∧ k ∈ p.table.opened ∧ k ∉ others

/-- The program reads from a descriptor of its own. -/
theorem SerialOwned.owns_fpin {isUsb : Bool} {others : Finset ℕ} {p : SerialPort limit}
    (h : SerialOwned isUsb others p) : p.Owns others p.fpin := by
  cases h with
  | both table fin fout keeps ne zero =>
      have hmem : fin ∈ ({fin, fout} : Finset ℕ) := Finset.mem_insert_self fin _
      exact ⟨fin, rfl, keeps.mem hmem, keeps.notMem_others hmem⟩
  | inputOnly table fin keeps zero =>
      have hmem : fin ∈ ({fin} : Finset ℕ) := Finset.mem_singleton_self fin
      exact ⟨fin, rfl, keeps.mem hmem, keeps.notMem_others hmem⟩

/-- The output is the loop's own exactly when it is positive. -/
theorem SerialOwned.owns_fpout_iff {isUsb : Bool} {others : Finset ℕ} {p : SerialPort limit}
    (h : SerialOwned isUsb others p) : p.Owns others p.fpout ↔ 0 < p.fpout := by
  cases h with
  | both table fin fout keeps ne zero =>
      have hmem : fout ∈ ({fin, fout} : Finset ℕ) := by simp
      exact iff_of_true ⟨fout, rfl, keeps.mem hmem, keeps.notMem_others hmem⟩
        (Int.natCast_pos.mpr (zero.pos keeps hmem ne))
  | inputOnly table fin keeps zero =>
      refine iff_of_false ?_ (show ¬ (0 : Int) < -1 by decide)
      rintro ⟨k, hk, -⟩
      change (-1 : Int) = k at hk
      omega

/-- The bodies of the two requests. -/
def serialRequests : List (List Byte) := [[0x05, 0x13, 0xc0, 0x8c], [0x05, 0x13, 0xc0, 0x84]]

/-- A touch is safe: only the loop's own descriptors are watched, whole requests go out on its
output, and what is published came in as a good frame. -/
def Touch.Safe (p : SerialPort limit) (others : Finset ℕ) (port : List Byte) : Touch → Prop
  | .watched fd => p.Owns others fd
  | .wrote fd bytes =>
      fd = p.fpout ∧ p.Owns others fd ∧ ∃ body ∈ serialRequests, bytes = hdlcFrame body
  | .published record =>
      ∃ x content rest, Accepts port x content rest ∧ record <+: messageData x content

/-- The bytes of a message that needs no stuffing. -/
theorem wire_of_plainBody {size : Nat} {mess : Mem Byte} {body : List Byte}
    (hsize : size = body.length + 4) (hmess : mess.Holds 0 (0x7e :: body))
    (hplain : PlainBody body) : (sendMess size mess).wire = hdlcFrame body := by
  obtain ⟨⟨inner, hwire, -, hinner⟩, -⟩ := (wholeFrame_sendMess_iff hsize hmess).mpr hplain
  rw [sendMess_body hsize hmess, unstuff_eq_some_iff] at hinner
  rw [hwire, hinner, hdlcFrame]

/-- The request for a long status as it is sent. -/
theorem getStatusMess_wire (stack : Mem Byte) :
    (getStatusMess stack).wire = hdlcFrame [0x05, 0x13, 0xc0, 0x8c] := by
  refine wire_of_plainBody rfl ?_ (by decide +kernel)
  exact (Mem.write_holds stack 0 [0x7e, 0x05, 0x13, 0xc0, 0x8c]).write_outside _ (by decide)

/-- The request for a short status as it is sent. -/
theorem getShortStatusMess_wire (stack : Mem Byte) :
    (getShortStatusMess stack).wire = hdlcFrame [0x05, 0x13, 0xc0, 0x84] :=
  wire_of_plainBody rfl (write_message_holds stack [0x05, 0x13, 0xc0, 0x84] [0x00, 0x00])
    (by decide +kernel)

/-- What the loop relies on in a request: with the output down nothing happens, a return that
it checks is not 0, the request is whole, and a return that it publishes comes with a good
frame. -/
structure SoundExchange (e : Exchange) (fpout : Int) (port : List Byte)
    (checks publishes : Int → Bool) : Prop where
  down : fpout ≤ 0 → e.wire = none
  checked : ∀ retval, e.ret = some retval → checks retval = true → retval ≠ 0
  whole : ∀ bytes, e.wire = some bytes → ∃ body ∈ serialRequests, bytes = hdlcFrame body
  heard : ∀ retval, e.ret = some retval → publishes retval = true →
    ∃ heard x content rest, e.heard = some heard ∧ Accepts port x content rest ∧
      heard.messagebuff.Holds 0 (messageData x content)

/-- How an exchange that waits can go. -/
theorem exchange_cases (sent : Sent) (writable : Bool) (port : List Byte)
    (readBuff stack : Mem Byte) :
    exchange sent writable true port readBuff stack = ⟨some (-3), none, none⟩ ∨
      exchange sent writable true port readBuff stack = ⟨some (-2), some sent.wire, none⟩ ∨
      ∃ heard, heard = serDriverRead port readBuff stack ∧
        exchange sent writable true port readBuff stack =
          ⟨heard.ret.map fun ok => if ok then 0 else -1, some sent.wire, some heard⟩ := by
  unfold exchange
  cases writable with
  | false => exact Or.inl rfl
  | true =>
      by_cases hport : port = []
      · simp only [if_true, if_pos hport]
        exact Or.inr (Or.inl trivial)
      · simp only [if_true, if_neg hport]
        exact Or.inr (Or.inr ⟨_, rfl, rfl⟩)

/-- A reader that returns TRUE has read a good frame. -/
theorem heard_of_true {port : List Byte} {readBuff stack : Mem Byte}
    (h : (serDriverRead port readBuff stack).ret = some true) :
    ∃ x content rest, Accepts port x content rest ∧
      (serDriverRead port readBuff stack).messagebuff.Holds 0 (messageData x content) := by
  obtain ⟨x, content, rest, haccepts⟩ := (serDriverRead_true_iff _ _ _).mp h
  exact ⟨x, content, rest, haccepts, (haccepts.reads readBuff stack).2.2⟩

/-- An exchange with the output up, whose return is reported as it is or changed. -/
theorem exchange_sound {sent : Sent} (hsent : ∃ body ∈ serialRequests, sent.wire = hdlcFrame body)
    (writable : Bool) (port : List Byte) (readBuff stack : Mem Byte) {fpout : Int}
    (hup : ¬ fpout ≤ 0) (report : Int → Int) {checks publishes : Int → Bool}
    (hchecks : ∀ r ∈ [-3, -2, -1, 0], checks (report r) = true → report r ≠ 0)
    (hpublishes : ∀ r ∈ [-3, -2, -1], publishes (report r) = false) :
    SoundExchange
      { exchange sent writable true port readBuff stack with
        ret := (exchange sent writable true port readBuff stack).ret.map report }
      fpout port checks publishes := by
  rcases exchange_cases sent writable port readBuff stack with he | he | ⟨heard, rfl, he⟩
  · rw [he]
    refine ⟨fun _ => rfl, ?_, nofun, ?_⟩
    · rintro _ ⟨⟩ hchecked
      exact hchecks (-3) (by decide) hchecked
    · rintro _ ⟨⟩ hpublished
      exact absurd hpublished (by rw [hpublishes (-3) (by decide)]; decide)
  · rw [he]
    refine ⟨fun hdown => absurd hdown hup, ?_, ?_, ?_⟩
    · rintro _ ⟨⟩ hchecked
      exact hchecks (-2) (by decide) hchecked
    · rintro _ ⟨⟩
      exact hsent
    · rintro _ ⟨⟩ hpublished
      exact absurd hpublished (by rw [hpublishes (-2) (by decide)]; decide)
  · rw [he]
    refine ⟨fun hdown => absurd hdown hup, ?_, ?_, ?_⟩
    · intro retval hret hchecked
      obtain ⟨r, hr, rfl⟩ := Option.map_eq_some_iff.mp hret
      obtain ⟨ok, -, rfl⟩ := Option.map_eq_some_iff.mp hr
      cases ok with
      | true => exact hchecks 0 (by decide) hchecked
      | false => exact hchecks (-1) (by decide) hchecked
    · rintro _ ⟨⟩
      exact hsent
    · intro retval hret hpublished
      obtain ⟨r, hr, rfl⟩ := Option.map_eq_some_iff.mp hret
      obtain ⟨ok, hok, rfl⟩ := Option.map_eq_some_iff.mp hr
      cases ok with
      | true =>
          obtain ⟨x, content, rest, haccepts, hheld⟩ := heard_of_true hok
          exact ⟨_, x, content, rest, rfl, haccepts, hheld⟩
      | false =>
          have hquiet := hpublishes (-1) (by decide)
          exact absurd (hquiet.symm.trans hpublished) Bool.false_ne_true

/-- With the output down a request is not sent. -/
theorem down_sound {fpout : Int} (port : List Byte) {checks publishes : Int → Bool}
    (hpublishes : publishes (-1) = false) :
    SoundExchange { ret := some (-1), wire := none, heard := none } fpout port checks
      publishes where
  down _ := rfl
  checked := by
    rintro _ ⟨⟩ -
    decide
  whole := nofun
  heard := by
    rintro _ ⟨⟩ hpublished
    exact absurd (hpublishes.symm.trans hpublished) Bool.false_ne_true

/-- An exchange for a long status is sound. -/
theorem getStatus_sound (readBuff : Mem Byte) (fpout : Int) (writable : Bool) (port : List Byte)
    (l : Locals) :
    SoundExchange (getStatus readBuff fpout writable port l) fpout port (fun _ => true)
      (fun retval => 0 ≤ retval) := by
  unfold getStatus
  split
  · exact down_sound port rfl
  · rename_i hup
    have hsent : ∃ body ∈ serialRequests, (getStatusMess l.mess).wire = hdlcFrame body :=
      ⟨_, List.mem_cons_self, getStatusMess_wire l.mess⟩
    exact exchange_sound hsent writable port readBuff l.msgbuf hup
      (fun ret => if ret = 0 then 1 else ret) (by decide) (by decide)

/-- So is one for a short status. -/
theorem getShortStatus_sound (readBuff : Mem Byte) (fpout : Int) (writable : Bool)
    (port : List Byte) (l : Locals) :
    SoundExchange (getShortStatus true (some readBuff) fpout writable port l) fpout port
      (fun retval => retval < 0) (fun retval => retval = 0) := by
  unfold getShortStatus
  split
  · exact down_sound port rfl
  · rename_i hup
    have hsent : ∃ body ∈ serialRequests, (getShortStatusMess l.mess).wire = hdlcFrame body :=
      ⟨_, List.mem_cons_of_mem _ List.mem_cons_self, getShortStatusMess_wire l.mess⟩
    have hsound : SoundExchange
        { exchange (getShortStatusMess l.mess) writable true port readBuff l.msgbuf with
          ret := (exchange (getShortStatusMess l.mess) writable true port readBuff l.msgbuf).ret.map
            id }
        fpout port (fun retval => retval < 0) (fun retval => retval = 0) :=
      exchange_sound hsent writable port readBuff l.msgbuf hup id (by decide) (by decide)
    rwa [Option.map_id] at hsound

/-! ## The loop -/

section Answered

variable {isUsb : Bool} {s : SerialComm limit} {e : Exchange} {port : List Byte}
  {checks publishes : Int → Bool} (howned : SerialOwned isUsb s.others s.serial)
  (hsound : SoundExchange e s.serial.fpout port checks publishes)

include howned hsound

/-- An exchange touches descriptors that it may touch. -/
theorem Exchange.touches_safe :
    ∀ touch ∈ e.touches s.serial, touch.Safe s.serial s.others port := by
  intro touch htouch
  unfold Exchange.touches at htouch
  cases hwire : e.wire with
  | none =>
      simp only [hwire] at htouch
      split at htouch
      · exact absurd htouch List.not_mem_nil
      · rename_i hup
        rw [List.mem_singleton.mp htouch]
        exact howned.owns_fpout_iff.mpr (Int.not_le.mp hup)
  | some bytes =>
      have hup : 0 < s.serial.fpout := by
        by_contra hdown
        have hnone := hsound.down (Int.not_lt.mp hdown)
        exact absurd (hwire.symm.trans hnone) (Option.some_ne_none bytes)
      have hout := howned.owns_fpout_iff.mpr hup
      simp only [hwire, List.mem_cons, List.not_mem_nil, or_false] at htouch
      rcases htouch with rfl | rfl | rfl
      · exact hout
      · exact ⟨rfl, hout, hsound.whole bytes hwire⟩
      · exact howned.owns_fpin

/-- What follows an exchange keeps the descriptors, and publishes good frames only. -/
theorem SerialComm.answered_safe (hzero : 0 ∈ s.others ↔ isUsb = true) (a : Answering)
    {size : ℕ} (hsize : size ≤ 100) :
    (s.answered isUsb a e checks publishes size).1.others = s.others ∧
      SerialOwned isUsb s.others (s.answered isUsb a e checks publishes size).1.serial ∧
      ∀ touch ∈ (s.answered isUsb a e checks publishes size).2,
        touch.Safe s.serial s.others port := by
  have htouches := Exchange.touches_safe howned hsound
  unfold SerialComm.answered
  cases hret : e.ret with
  | none => exact ⟨rfl, howned, htouches⟩
  | some retval =>
      have hrecords : ∀ touch ∈ (if publishes retval then
          [Touch.published (((e.heard.map ReadResult.messagebuff).getD s.readBuff).take 0 size)]
            else []), touch.Safe s.serial s.others port := by
        intro touch htouch
        split at htouch
        · rename_i hpublished
          obtain ⟨heard, x, content, rest, hheard, haccepts, hheld⟩ :=
            hsound.heard retval hret hpublished
          rw [List.mem_singleton.mp htouch, hheard]
          refine ⟨x, content, rest, haccepts, hheld.take_prefix ?_⟩
          rw [messageData_length x (Nat.le_trans haccepts.2.1 (by decide))]
          exact hsize
        · exact absurd htouch List.not_mem_nil
      simp only
      generalize hreconnected : (if checks retval = true then
        checkAndReconnectSerial isUsb retval a.attempts a.outThere s.serial
          else some (0, s.serial)) = reconnected
      cases reconnected with
      | none => exact ⟨rfl, howned, htouches⟩
      | some r =>
          refine ⟨rfl, ?_, ?_⟩
          · split at hreconnected
            · rename_i hchecked
              exact checkAndReconnectSerial_owned howned hzero
                (hsound.checked retval hret hchecked) hreconnected
            · obtain rfl := Option.some.inj hreconnected
              exact howned
          · intro touch htouch
            rcases List.mem_append.mp htouch with hmem | hmem
            · exact htouches touch hmem
            · exact hrecords touch hmem

end Answered

/-- The bytes that come in with an event. -/
def SerialEvent.port : SerialEvent → List Byte
  | .getStatus a => a.port
  | .getShortStatus a => a.port
  | .setPattern => []
  | .otherOpens => []
  | .otherCloses _ => []

/-- The loop owns its descriptors, and everything that the step touches is safe. -/
def SerialSafe (isUsb : Bool) (_pre : List SerialEvent) (s : SerialComm limit)
    (e : SerialEvent) : Prop :=
  SerialOwned isUsb s.others s.serial ∧
    ∀ touch ∈ ((serialLoop limit isUsb).step s e).2, touch.Safe s.serial s.others e.port

/-- A pattern that is set finds the output up. -/
def PatternUp (_pre : List SerialEvent) (s : SerialComm limit) : SerialEvent → Prop
  | .setPattern => s.waiting = false → 0 < s.serial.fpout
  | _ => True

/-- What holds between the events. -/
structure SerialInv (isUsb : Bool) (s : SerialComm limit) : Prop where
  zero : 0 ∈ s.others ↔ isUsb = true
  owned : SerialOwned isUsb s.others s.serial

/-- The loop keeps its descriptors while the others' change. -/
theorem SerialOwned.change {isUsb : Bool} {others others' : Finset ℕ} {p : SerialPort limit}
    {table : Table limit} (h : SerialOwned isUsb others p)
    (hkeeps : ∀ own, Keeps p.table others own → Keeps table others' own)
    (hzero : isUsb = true → 0 ∈ others → 0 ∈ others') :
    SerialOwned isUsb others' { p with table := table } := by
  have htaken : ∀ fin, ZeroTaken isUsb others fin → ZeroTaken isUsb others' fin := by
    intro fin htaken
    unfold ZeroTaken at htaken ⊢
    split
    · rename_i husb
      rw [if_pos husb] at htaken
      exact hzero husb htaken
    · rename_i hserial
      rwa [if_neg hserial] at htaken
  cases h with
  | both t fin fout keeps ne zero =>
      exact .both table fin fout (hkeeps _ keeps) ne (htaken fin zero)
  | inputOnly t fin keeps zero => exact .inputOnly table fin (hkeeps _ keeps) (htaken fin zero)

/-- On an RS232 port the number 0 is in use. -/
theorem SerialOwned.zero_opened {others : Finset ℕ} {p : SerialPort limit}
    (h : SerialOwned false others p) : 0 ∈ p.table.opened := by
  cases h with
  | both table fin fout keeps ne zero =>
      obtain rfl : fin = 0 := zero
      exact keeps.mem (Finset.mem_insert_self 0 _)
  | inputOnly table fin keeps zero =>
      obtain rfl : fin = 0 := zero
      exact keeps.mem (Finset.mem_singleton_self 0)

/-- The rest of the program opens something. -/
theorem SerialInv.otherOpens {isUsb : Bool} {s : SerialComm limit} (h : SerialInv isUsb s) :
    SerialInv isUsb ((serialLoop limit isUsb).step s .otherOpens).1 := by
  have hopens := s.serial.table.openNext_opens
  simp only [serialLoop, serialStep]
  generalize s.serial.table.openNext = opened at hopens
  cases hopens with
  | full hfull =>
      simp only [if_neg (show ¬ (0 : Int) ≤ -1 by decide)]
      exact ⟨h.zero, h.owned⟩
  | lowest fd lt new least =>
      simp only [if_pos (Int.natCast_nonneg fd), Int.toNat_natCast]
      refine ⟨?_, h.owned.change (fun own hkeeps => (hkeeps.symm.take lt new).symm)
        fun _ hmem => Finset.mem_insert_of_mem hmem⟩
      simp only [Finset.mem_insert]
      refine ⟨fun hmem => ?_, fun husb => Or.inr (h.zero.mpr husb)⟩
      rcases hmem with rfl | hmem
      · by_contra hserial
        obtain rfl := Bool.eq_false_of_not_eq_true hserial
        exact new h.owned.zero_opened
      · exact h.zero.mp hmem

/-- The rest of the program closes something of its own. -/
theorem SerialInv.otherCloses {isUsb : Bool} {s : SerialComm limit} (h : SerialInv isUsb s)
    (fd : ℕ) : SerialInv isUsb ((serialLoop limit isUsb).step s (.otherCloses fd)).1 := by
  simp only [serialLoop, serialStep]
  split
  · rename_i hown
    have hzero : 0 ∈ s.others.erase fd ↔ 0 ∈ s.others := by
      rw [Finset.mem_erase, and_iff_right (Ne.symm hown.2)]
    exact ⟨hzero.trans h.zero, h.owned.change (fun own hkeeps => (hkeeps.symm.close hown.1).symm)
      fun _ hmem => hzero.mpr hmem⟩
  · exact h

/-- **Step.**  Each event keeps the descriptors apart. -/
theorem serialInv_step {isUsb : Bool} (_pre : List SerialEvent) (s : SerialComm limit)
    (e : SerialEvent) (h : SerialInv isUsb s) :
    SerialInv isUsb ((serialLoop limit isUsb).step s e).1 := by
  cases e with
  | getStatus a =>
      simp only [serialLoop, serialStep]
      split
      · exact h
      · obtain ⟨hothers, howned, -⟩ := SerialComm.answered_safe h.owned
          (getStatus_sound s.readBuff s.serial.fpout a.writable a.port a.locals) h.zero a
          (show sizeofGetLongStatus8RespMess ≤ 100 by decide)
        exact ⟨by rw [hothers]; exact h.zero, by rw [hothers]; exact howned⟩
  | getShortStatus a =>
      simp only [serialLoop, serialStep]
      split
      · exact h
      · obtain ⟨hothers, howned, -⟩ := SerialComm.answered_safe h.owned
          (getShortStatus_sound s.readBuff s.serial.fpout a.writable a.port a.locals) h.zero a
          (show sizeofGetShortStatusResp ≤ 100 by decide)
        exact ⟨by rw [hothers]; exact h.zero, by rw [hothers]; exact howned⟩
  | setPattern =>
      simp only [serialLoop, serialStep]
      split
      · exact h
      · exact h
  | otherOpens => exact h.otherOpens
  | otherCloses fd => exact h.otherCloses fd

/-- Under the invariant a step is safe exactly when a pattern that it sets finds the output
up. -/
theorem serialSafe_iff {isUsb : Bool} (pre : List SerialEvent) (s : SerialComm limit)
    (e : SerialEvent) (h : SerialInv isUsb s) :
    SerialSafe isUsb pre s e ↔ PatternUp pre s e := by
  rw [SerialSafe, and_iff_right h.owned]
  cases e with
  | getStatus a =>
      refine iff_of_true ?_ trivial
      simp only [serialLoop, serialStep]
      split
      · exact nofun
      · exact (SerialComm.answered_safe h.owned
          (getStatus_sound s.readBuff s.serial.fpout a.writable a.port a.locals) h.zero a
          (show sizeofGetLongStatus8RespMess ≤ 100 by decide)).2.2
  | getShortStatus a =>
      refine iff_of_true ?_ trivial
      simp only [serialLoop, serialStep]
      split
      · exact nofun
      · exact (SerialComm.answered_safe h.owned
          (getShortStatus_sound s.readBuff s.serial.fpout a.writable a.port a.locals) h.zero a
          (show sizeofGetShortStatusResp ≤ 100 by decide)).2.2
  | setPattern =>
      simp only [serialLoop, serialStep, PatternUp]
      cases s.waiting with
      | true => simp
      | false =>
          rw [if_neg Bool.false_ne_true, List.forall_mem_singleton, Touch.Safe,
            h.owned.owns_fpout_iff]
          simp
  | otherOpens => exact iff_of_true nofun trivial
  | otherCloses fd =>
      refine iff_of_true ?_ trivial
      simp only [serialLoop, serialStep]
      split
      · exact nofun
      · exact nofun

/-- **Safe connections, exactly.**  From the first connection on, whatever fails and whatever
the rest of the program opens and closes, the loop has its own descriptors and touches nothing
else, sends whole requests and publishes good frames, in every step of a run if and only if
every pattern that is set finds the output up. -/
theorem serial_along_iff {isUsb : Bool} {attempts : List Bool} {outThere : Bool}
    {table : Table limit} {readBuff : Mem Byte} {s : SerialComm limit}
    (hstdin : isUsb = true → 0 ∈ table.opened)
    (hs : startSerial isUsb attempts outThere table readBuff = some s) (es : List SerialEvent) :
    (serialLoop limit isUsb).Along s (SerialSafe isUsb) es ↔
      (serialLoop limit isUsb).Along s PatternUp es := by
  have hinit : SerialInv isUsb s :=
    ⟨(startSerial_owned hstdin hs).1, (startSerial_owned hstdin hs).2⟩
  let Inv : List SerialEvent → SerialComm limit → Prop := fun _ => SerialInv isUsb
  have hstep : ∀ pre t e, Inv pre t → Inv (pre ++ [e]) ((serialLoop limit isUsb).step t e).1 :=
    serialInv_step
  exact (serialLoop limit isUsb).along_congr hinit hstep serialSafe_iff es

/-- The standard streams are below the limit. -/
private theorem standardStreams_below : ∀ fd ∈ ({0, 1, 2} : Finset ℕ), fd < 8 := by decide

/-- The standard streams. -/
def standardStreams : Table 8 := ⟨{0, 1, 2}, standardStreams_below⟩

/-- A request that is not answered, and then an output that does not open. -/
def outputLost : Answering where
  writable := true
  port := []
  locals := ⟨Mem.ofList 0 [], Mem.ofList 0 [], Mem.ofList 0 []⟩
  attempts := [false, true]
  outThere := false

/-- A pattern set before it finds the output up, and every step is safe.  Behind it -1 is
watched. -/
theorem serial_along_iff_outputLost :
    ∃ s, startSerial false [true] true standardStreams (Mem.ofList 0 []) = some s ∧
      (serialLoop 8 false).Along s (SerialSafe false) [.setPattern, .getStatus outputLost] ∧
      ((serialLoop 8 false).Along s (SerialSafe false) [.getStatus outputLost, .setPattern] ↔
        (serialLoop 8 false).Along s PatternUp [.getStatus outputLost, .setPattern]) ∧
      ¬ (serialLoop 8 false).Along s PatternUp [.getStatus outputLost, .setPattern] := by
  have hstdin : false = true → 0 ∈ standardStreams.opened := fun _ => by decide
  have hiff := @serial_along_iff 8 false [true] true standardStreams (Mem.ofList 0 []) _ hstdin rfl
  refine ⟨_, rfl, (hiff _).mpr ?_, hiff _, fun hup => ?_⟩
  · rw [Machine.along_cons_iff, Machine.along_cons_iff]
    exact ⟨fun _ => by decide, trivial, Machine.along_nil _ _ _⟩
  · have hpattern := hup [.getStatus outputLost] .setPattern [] rfl (by decide +kernel)
    exact absurd hpattern (by decide +kernel)

end RfsAtsc
