import RfsAtsc.FcsHdlc
import RfsAtsc.NtcipParse

/-!
# PMPP frames: `send_message` and `receive_message`

The sender of `asc_get` puts a header before a message and its check behind it, and
writes the frame byte by byte, escaped.  The receiver reads byte by byte too, undoing
the escapes as it goes, and learns from the message's own length how much to read.
The port is the bytes still to come; behind them a read leaves its byte as it was.
-/

namespace RfsAtsc

open TracedMemory ByteStuffing BerEncoding

/-- `STMF_MAX_PACKET`. -/
def STMF_MAX_PACKET : Nat := 1500

/-- `PMPP_HEADER_SIZE`. -/
def PMPP_HEADER_SIZE : Nat := 4

def PMPP_FLAG_VAL : Byte := 0x7e
def PMPP_CTRL_VAL : Byte := 0x13
def PMPP_STMF_VAL : Byte := 0xc1

/-- `PMPP_FCS_MAGIC`. -/
def PMPP_FCS_MAGIC : U16 := 0xf0b8

def delimiterFlag : Byte := 0x7e
def escapeChar : Byte := 0x7d
def escapeDelimiter : Byte := 0x5e
def escapeEscape : Byte := 0x5d

/-- `compute_fcs`; its table has the words of `fcstab`. -/
def computeFcs (data : List Byte) : U16 := pppfcs 0xffff data

/-! ## Sending -/

/-- `fmt_pmpp_header`. -/
def fmtPmppHeader (destAddr : Nat) : List Byte :=
  [PMPP_FLAG_VAL, BitVec.ofNat 8 (destAddr * 4) ||| 1, PMPP_CTRL_VAL, PMPP_STMF_VAL]

/-- What `send_message` writes for a byte of its buffer. -/
def escaped (b : Byte) : List Byte :=
  if b = delimiterFlag then [escapeChar, escapeDelimiter]
  else if b = escapeChar then [escapeChar, escapeEscape]
  else [b]

/-- What `send_message` writes to the port for a message that it has formatted. -/
def sendMessage (message : List Byte) : List Byte :=
  let msgBuf := fmtPmppHeader 1 ++ message
  let checkSum := computeFcs (msgBuf.drop 1) ^^^ 0xffff
  let msgBuf := msgBuf ++ [TableCrc.lowByte checkSum, TableCrc.highByte checkSum]
  msgBuf.take 1 ++ (msgBuf.drop 1).flatMap escaped ++ [delimiterFlag]

/-! ## Receiving -/

/-- The port: the bytes still to come, and how many reads there have been. -/
structure Port where
  input : List Byte
  reads : Nat

/-- `read` of one byte into a variable: its new value. -/
def Port.read (p : Port) (old : Byte) : Byte × Port :=
  match p.input with
  | [] => (old, { p with reads := p.reads + 1 })
  | b :: bs => (b, { input := bs, reads := p.reads + 1 })

/-- `collapse_escape`.  `stale` is what its variable holds before a read.  The second
comparison is an assignment, and so its value is what it assigns. -/
def collapseEscape (stale : Nat → Byte) (p : Port) : Byte × Port :=
  let r := p.read (stale p.reads)
  if r.1 = escapeDelimiter then (delimiterFlag, r.2)
  else if escapeEscape ≠ 0 then (escapeChar, r.2)
  else (0xff, r.2)

/-- The variables of `receive_message`: its buffer, index, `tmp` and the port. -/
structure Receiving where
  buf : Mem Byte
  i : Nat
  tmp : Byte
  port : Port

/-- A read of `tmp`, and the escape undone. -/
def Receiving.get (stale : Nat → Byte) (s : Receiving) : Receiving :=
  let r := s.port.read s.tmp
  if r.1 = escapeChar then
    let c := collapseEscape stale r.2
    { s with tmp := c.1, port := c.2 }
  else { s with tmp := r.1, port := r.2 }

/-- `buf[i++] = tmp`. -/
def Receiving.put (s : Receiving) : Receiving :=
  { s with buf := s.buf.store s.i s.tmp, i := s.i + 1 }

/-- A loop that reads `n` bytes into the buffer. -/
def Receiving.fill (stale : Nat → Byte) : Nat → Receiving → Receiving
  | 0, s => s
  | n+1, s => fill stale n (s.get stale).put

/-- The loop that waits for a flag: it does not end when none comes. -/
def awaitFlag : List Byte → Nat → Option Port
  | [], _ => none
  | b :: bs, reads =>
      if b = delimiterFlag then some { input := bs, reads := reads + 1 }
      else awaitFlag bs (reads + 1)

theorem awaitFlag_flag (bs : List Byte) (reads : Nat) :
    awaitFlag (delimiterFlag :: bs) reads = some { input := bs, reads := reads + 1 } :=
  if_pos rfl

/-- The byte after the opening flag; a second flag is skipped. -/
def Receiving.firstByte (stale : Nat → Byte) (s : Receiving) : Receiving :=
  let r := s.port.read s.tmp
  let s := { s with tmp := r.1, port := r.2 }
  let s :=
    if s.tmp = delimiterFlag then
      let r := s.port.read s.tmp
      { s with tmp := r.1, port := r.2 }
    else s
  if s.tmp = escapeChar then
    let c := collapseEscape stale s.port
    { s with tmp := c.1, port := c.2 }
  else s

/-- The read of `byte_code`, a variable of its own, into the buffer: its value. -/
def Receiving.readByteCode (stale : Nat → Byte) (s : Receiving) : Byte × Receiving :=
  let r := s.port.read (stale s.port.reads)
  let c := if r.1 = escapeChar then collapseEscape stale r.2 else r
  (c.1, { s with buf := s.buf.store s.i c.1, i := s.i + 1, port := c.2 })

/-- The bytes of the count, by the byte code: `byte_count`. -/
def Receiving.readByteCount (stale : Nat → Byte) (byteCode : Byte) (s : Receiving) :
    Nat × Receiving :=
  if byteCode &&& 0x80 = 0 then (byteCode.toNat, s)
  else if byteCode &&& 1 ≠ 0 then
    let s := (s.get stale).put
    (s.tmp.toNat, s)
  else if byteCode &&& 2 ≠ 0 then
    let s := (s.get stale).put
    let s := (s.get stale).put
    ((s.buf.cell ((s.i : Int) - 2)).toNat * 256 + (s.buf.cell ((s.i : Int) - 1)).toNat, s)
  else (0, s)

/-- What `receive_message` leaves: its result, its buffer, the byte count with which it
called the parser on `&buf[PMPP_HEADER_SIZE]`, if it did, and the port. -/
structure Received where
  ret : Int
  buf : Mem Byte
  handed : Option Int
  port : Port

/-- From the header's checks on. -/
def Receiving.rest (stale : Nat → Byte) (s : Receiving) : Received :=
  if s.buf.cell 0 ≠ PMPP_FLAG_VAL ∨ s.buf.cell 2 ≠ PMPP_CTRL_VAL ∨ s.buf.cell 3 ≠ PMPP_STMF_VAL
  then { ret := 0, buf := s.buf, handed := none, port := s.port }
  else
    let r := s.port.read s.tmp
    let s := { s with tmp := r.1, port := r.2 }
    if s.tmp ≠ SNMP_SEQUENCE then { ret := 0, buf := s.buf, handed := none, port := s.port }
    else
      let code := s.put.readByteCode stale
      let count := code.2.readByteCount stale code.1
      let headerSize : Nat := count.2.i
      let s := count.2.fill stale (count.1 + 2)
      let checkSum := computeFcs (s.buf.take 1 (count.1 + headerSize + 1))
      let r := s.port.read s.tmp
      { ret := 1
        buf := s.buf
        handed :=
          if checkSum ≠ PMPP_FCS_MAGIC then none
          else some ((count.1 + headerSize : Int) - PMPP_HEADER_SIZE)
        port := r.2 }

/-- `receive_message`: none when it waits for a flag that does not come.  `buf` is what
its packet buffer holds before. -/
def receiveMessage (stale : Nat → Byte) (buf : Mem Byte) (input : List Byte) : Option Received :=
  (awaitFlag input 0).map fun port =>
    let s : Receiving := { buf := buf.untraced, i := 0, tmp := delimiterFlag, port := port }
    Receiving.rest stale (Receiving.fill stale (PMPP_HEADER_SIZE - 2)
      (s.put.firstByte stale).put)

/-! ## The frame that is sent -/

/-- The sender writes the frame of header and message, stuffed with its check. -/
theorem sendMessage_eq_hdlcFrame (message : List Byte) :
    sendMessage message = hdlcFrame ((fmtPmppHeader 1).drop 1 ++ message) := by
  have hlow : TableCrc.lowByte (computeFcs ((fmtPmppHeader 1).drop 1 ++ message) ^^^ 0xffff) =
      fcsLow ((fmtPmppHeader 1).drop 1 ++ message) := by
    rw [TableCrc.lowByte_xor, fcsLow, ← BitVec.xor_allOnes]
    rfl
  have hhigh : TableCrc.highByte (computeFcs ((fmtPmppHeader 1).drop 1 ++ message) ^^^ 0xffff) =
      fcsHigh ((fmtPmppHeader 1).drop 1 ++ message) := by
    rw [TableCrc.highByte_xor, fcsHigh, ← BitVec.xor_allOnes]
    rfl
  have hframe : sendMessage message =
      0x7e :: ((fmtPmppHeader 1).drop 1 ++ message ++
        [TableCrc.lowByte (computeFcs ((fmtPmppHeader 1).drop 1 ++ message) ^^^ 0xffff),
          TableCrc.highByte (computeFcs ((fmtPmppHeader 1).drop 1 ++ message) ^^^ 0xffff)]).flatMap
        escaped ++ [0x7e] := rfl
  rw [hframe, hlow, hhigh, ← fcsBytes_eq]
  rfl

/-! ## How far the receiver has come -/

/-- The buffer holds the bytes read so far, the port has the others, and only those
places have been stored to. -/
structure Progress (s : Receiving) (done rest : List Byte) : Prop where
  index : s.i = done.length
  holds : s.buf.Holds 0 done
  input : s.port.input = rest
  stored : ∀ a ∈ s.buf.stored, 0 ≤ a ∧ a < done.length

/-- A byte more in the buffer. -/
theorem Progress.store {s : Receiving} {done rest : List Byte} (h : Progress s done rest)
    (b : Byte) (tmp : Byte) (port : Port) {rest' : List Byte} (hport : port.input = rest') :
    Progress { buf := s.buf.store s.i b, i := s.i + 1, tmp := tmp, port := port } (done ++ [b])
      rest' where
  index := by rw [h.index, List.length_append, List.length_singleton]
  holds := by
    have haddr : ((s.i : Nat) : Int) = 0 + (done.length : Int) := by rw [h.index, zero_add]
    rw [haddr]
    exact h.holds.store_end b
  input := hport
  stored := by
    intro a ha
    rw [Mem.store_stored, List.mem_cons, h.index] at ha
    rw [List.length_append, List.length_singleton]
    push_cast
    rcases ha with rfl | ha
    · exact ⟨by omega, by omega⟩
    · have hrange := h.stored a ha
      exact ⟨hrange.1, by omega⟩

/-- A stuffed byte at the port is read as the byte, whatever is stale. -/
theorem read_stuffByte (stale : Nat → Byte) {port : Port} {b : Byte} {rest : List Byte}
    (hport : port.input = stuffByte hdlc b ++ rest) (old : Byte) :
    ∃ first port', port.read old = (first, port') ∧
      if first = escapeChar then
        ∃ port'', collapseEscape stale port' = (b, port'') ∧ port''.input = rest
      else first = b ∧ port'.input = rest := by
  by_cases hflag : b = delimiterFlag
  · subst hflag
    refine ⟨escapeChar, ⟨escapeDelimiter :: rest, port.reads + 1⟩, ?_, ?_⟩
    · rw [Port.read, hport]
      rfl
    · rw [if_pos rfl]
      exact ⟨_, rfl, rfl⟩
  · by_cases hesc : b = escapeChar
    · subst hesc
      refine ⟨escapeChar, ⟨escapeEscape :: rest, port.reads + 1⟩, ?_, ?_⟩
      · rw [Port.read, hport]
        rfl
      · rw [if_pos rfl]
        exact ⟨_, rfl, rfl⟩
    · have hplain : stuffByte hdlc b = [b] := stuffByte_plain hdlc ⟨hflag, hesc⟩
      refine ⟨b, ⟨rest, port.reads + 1⟩, ?_, ?_⟩
      · rw [Port.read, hport, hplain]
        rfl
      · rw [if_neg hesc]
        exact ⟨rfl, rfl⟩

/-- A stuffed byte at the port goes into the buffer as the byte. -/
theorem Progress.get_put {s : Receiving} {done rest : List Byte} {b : Byte} (stale : Nat → Byte)
    (h : Progress s done (stuffByte hdlc b ++ rest)) :
    Progress (s.get stale).put (done ++ [b]) rest ∧ (s.get stale).put.tmp = b := by
  obtain ⟨first, port', hread, hbyte⟩ := read_stuffByte stale h.input s.tmp
  rw [Receiving.get, hread]
  by_cases hesc : first = escapeChar
  · rw [if_pos hesc] at hbyte
    obtain ⟨port'', hcollapse, hrest⟩ := hbyte
    simp only [if_pos hesc, hcollapse]
    exact ⟨h.store b b _ hrest, rfl⟩
  · rw [if_neg hesc] at hbyte
    obtain ⟨rfl, hrest⟩ := hbyte
    simp only [if_neg hesc]
    exact ⟨h.store first first _ hrest, rfl⟩

/-- A stuffed list at the port goes into the buffer as the list. -/
theorem Progress.fill {s : Receiving} {done rest bs : List Byte} (stale : Nat → Byte)
    (h : Progress s done (stuff hdlc bs ++ rest)) :
    Progress (s.fill stale bs.length) (done ++ bs) rest := by
  induction bs generalizing s done with
  | nil =>
      rw [List.append_nil]
      exact h
  | cons b bs ih =>
      rw [stuff_cons, List.append_assoc] at h
      have hnext := ih (h.get_put stale).1
      rw [List.append_assoc, List.singleton_append] at hnext
      exact hnext

/-- So does the byte code. -/
theorem Progress.readByteCode {s : Receiving} {done rest : List Byte} {b : Byte}
    (stale : Nat → Byte) (h : Progress s done (stuffByte hdlc b ++ rest)) :
    (s.readByteCode stale).1 = b ∧ Progress (s.readByteCode stale).2 (done ++ [b]) rest := by
  obtain ⟨first, port', hread, hbyte⟩ := read_stuffByte stale h.input (stale s.port.reads)
  rw [Receiving.readByteCode, hread]
  by_cases hesc : first = escapeChar
  · rw [if_pos hesc] at hbyte
    obtain ⟨port'', hcollapse, hrest⟩ := hbyte
    simp only [if_pos hesc, hcollapse]
    exact ⟨trivial, h.store b s.tmp _ hrest⟩
  · rw [if_neg hesc] at hbyte
    obtain ⟨rfl, hrest⟩ := hbyte
    simp only [if_neg hesc]
    exact ⟨trivial, h.store first s.tmp _ hrest⟩

/-- The count of a length in any of its forms. -/
theorem Progress.readLength {s : Receiving} {done rest : List Byte} (stale : Nat → Byte)
    {form : LenForm} {n : Nat} (hfits : form.Fits n)
    (h : Progress s done (stuff hdlc (lenBytes form n) ++ rest)) :
    let code := s.readByteCode stale
    let count := code.2.readByteCount stale code.1
    count.1 = n ∧ Progress count.2 (done ++ lenBytes form n) rest := by
  cases form with
  | short =>
      have hn : n < 128 := hfits
      rw [lenBytes, stuff_cons, List.append_assoc] at h
      obtain ⟨hcode, hprogress⟩ := h.readByteCode stale
      have htop := short_top_bit (BitVec.ofNat 8 n) (by
        rw [toNat_ofNat_of_short hn]
        exact hn)
      simp only [hcode, Receiving.readByteCount, if_pos htop, toNat_ofNat_of_short hn]
      exact ⟨trivial, hprogress⟩
  | long1 =>
      have hn : n < 256 := hfits
      rw [lenBytes, stuff_cons, stuff_cons, List.append_assoc, List.append_assoc] at h
      obtain ⟨hcode, hprogress⟩ := h.readByteCode stale
      obtain ⟨hfilled, htmp⟩ := hprogress.get_put stale
      have hlong : ¬ (0x81 : Byte) &&& 0x80 = 0 := by decide
      have hone : (0x81 : Byte) &&& 1 ≠ 0 := by decide
      simp only [hcode, Receiving.readByteCount, if_neg hlong, if_pos hone, htmp,
        BitVec.toNat_ofNat]
      rw [List.append_assoc] at hfilled
      exact ⟨by omega, hfilled⟩
  | long2 =>
      have hn : n < 65536 := hfits
      rw [lenBytes, stuff_cons, stuff_cons, stuff_cons, List.append_assoc, List.append_assoc,
        List.append_assoc] at h
      obtain ⟨hcode, hprogress⟩ := h.readByteCode stale
      obtain ⟨hfirst, _⟩ := hprogress.get_put stale
      obtain ⟨hsecond, _⟩ := hfirst.get_put stale
      have hlong : ¬ (0x82 : Byte) &&& 0x80 = 0 := by decide
      have hone : ¬ (0x82 : Byte) &&& 1 ≠ 0 := by decide
      have htwo : (0x82 : Byte) &&& 2 ≠ 0 := by decide
      simp only [hcode, Receiving.readByteCount, if_neg hlong, if_neg hone, if_pos htwo]
      rw [List.append_assoc, List.append_assoc] at hsecond
      generalize ((((s.readByteCode stale).2.get stale).put).get stale).put = t at hsecond ⊢
      obtain ⟨_, hhigh, hlow, _⟩ := ((Mem.holds_append _ _ _ _).mp hsecond.holds).2
      have hindex : t.i = done.length + 3 := by
        rw [hsecond.index, List.length_append]
        rfl
      have hat2 : ((t.i : Nat) : Int) - 2 = 0 + (done.length : Int) + 1 := by omega
      have hat1 : ((t.i : Nat) : Int) - 1 = 0 + (done.length : Int) + 1 + 1 := by omega
      rw [hat2, hat1, hhigh, hlow, BitVec.toNat_ofNat, BitVec.toNat_ofNat]
      exact ⟨by omega, hsecond⟩

/-! ## The round trip -/

/-- The receiver at work on a frame: after the opening flag and the header. -/
private theorem progress_header (stale : Nat → Byte) (buf : Mem Byte) (port : Port)
    (rest : List Byte)
    (hport : port.input = stuff hdlc ((fmtPmppHeader 1).drop 1) ++ rest) :
    Progress (Receiving.fill stale (PMPP_HEADER_SIZE - 2)
      ((Receiving.put { buf := buf.untraced, i := 0, tmp := delimiterFlag, port := port }).firstByte
        stale).put) (fmtPmppHeader 1) rest := by
  have hstart : Progress { buf := buf.untraced, i := 0, tmp := delimiterFlag, port := port } []
      (5 :: 0x13 :: 0xc1 :: rest) := ⟨rfl, trivial, hport, fun _ ha => absurd ha List.not_mem_nil⟩
  have hflag := hstart.store delimiterFlag delimiterFlag port hport
  have hfirst : Progress
      ((Receiving.put { buf := buf.untraced, i := 0, tmp := delimiterFlag, port := port }).firstByte
        stale).put [0x7e, 5] (0x13 :: 0xc1 :: rest) := by
    have hread : port.read delimiterFlag = (5, ⟨0x13 :: 0xc1 :: rest, port.reads + 1⟩) := by
      rw [Port.read, hport]
      rfl
    have hnoflag : ¬ (5 : Byte) = delimiterFlag := by decide
    have hnoesc : ¬ (5 : Byte) = escapeChar := by decide
    simp only [Receiving.put, Receiving.firstByte, hread, if_neg hnoflag, if_neg hnoesc]
    exact hflag.store 5 5 _ rfl
  have hcodes : Progress
      ((Receiving.put { buf := buf.untraced, i := 0, tmp := delimiterFlag, port := port }).firstByte
        stale).put [0x7e, 5] (stuff hdlc [0x13, 0xc1] ++ rest) := hfirst
  exact hcodes.fill stale

/-- A message at the port, behind the tag that is read without a look at escapes. -/
private theorem stuff_message (form : LenForm) (content fcs rest : List Byte) :
    stuff hdlc (tlv SNMP_SEQUENCE form content ++ fcs) ++ rest =
      SNMP_SEQUENCE :: (stuff hdlc (lenBytes form content.length) ++
        (stuff hdlc (content ++ fcs) ++ rest)) := by
  rw [tlv, header, List.cons_append, List.cons_append, List.append_assoc, stuff_cons, stuff_append,
    List.append_assoc, List.append_assoc]
  rfl

/-- The pieces that the receiver stores are the frame without its stuffing. -/
private theorem header_message (form : LenForm) (content : List Byte) :
    fmtPmppHeader 1 ++ [SNMP_SEQUENCE] ++ lenBytes form content.length ++
        (content ++ fcsBytes ((fmtPmppHeader 1).drop 1 ++ tlv SNMP_SEQUENCE form content)) =
      delimiterFlag :: withFcs ((fmtPmppHeader 1).drop 1 ++ tlv SNMP_SEQUENCE form content) := by
  rw [withFcs]
  generalize fcsBytes ((fmtPmppHeader 1).drop 1 ++ tlv SNMP_SEQUENCE form content) = fcs
  rw [tlv, header]
  simp only [List.append_assoc, List.cons_append, List.nil_append]
  rfl

/-- The check over all of a frame but the opening flag passes. -/
private theorem computeFcs_withFcs {m : Mem Byte} {body : List Byte} {n : Nat}
    (h : m.Holds 0 (delimiterFlag :: withFcs body)) (hn : n = body.length + 2) :
    computeFcs (m.take 1 n) = PMPP_FCS_MAGIC := by
  have hbody := (Mem.holds_iff_take _ _ _).mp h.2
  rw [withFcs_length, ← hn, zero_add] at hbody
  rw [hbody]
  exact checkModframeString_withFcs _

/-- The frame without its stuffing: the opening flag, three more bytes of header, the
message and the check. -/
private theorem frame_length (form : LenForm) (content : List Byte) :
    (withFcs ((fmtPmppHeader 1).drop 1 ++ tlv SNMP_SEQUENCE form content)).length =
      5 + (tlv SNMP_SEQUENCE form content).length := by
  rw [withFcs_length, List.length_append]
  change 3 + _ + 2 = _
  omega

/-- The header passes the receiver's test. -/
private theorem Progress.header_passes {s : Receiving} {input : List Byte}
    (h : Progress s (fmtPmppHeader 1) input) :
    ¬ (s.buf.cell 0 ≠ PMPP_FLAG_VAL ∨ s.buf.cell 2 ≠ PMPP_CTRL_VAL ∨
      s.buf.cell 3 ≠ PMPP_STMF_VAL) := by
  obtain ⟨hflag, _, hctrl, hstmf, _⟩ := h.holds
  rw [not_or, not_or, not_not, not_not, not_not]
  exact ⟨hflag, hctrl, hstmf⟩

/-- The receiver past the header: it reads a message with its check, and calls the
parser. -/
private theorem rest_spec (stale : Nat → Byte) {form : LenForm} {content : List Byte}
    (hfits : form.Fits content.length) {s : Receiving} {rest : List Byte}
    (h : Progress s (fmtPmppHeader 1)
      (stuff hdlc (tlv SNMP_SEQUENCE form content ++
        fcsBytes ((fmtPmppHeader 1).drop 1 ++ tlv SNMP_SEQUENCE form content)) ++
        delimiterFlag :: rest)) :
    (s.rest stale).ret = 1 ∧
      (s.rest stale).handed = some ((tlv SNMP_SEQUENCE form content).length : Int) ∧
      (s.rest stale).buf.Holds 0 (delimiterFlag ::
        withFcs ((fmtPmppHeader 1).drop 1 ++ tlv SNMP_SEQUENCE form content)) ∧
      (s.rest stale).port.input = rest ∧
      ∀ a ∈ (s.rest stale).buf.stored,
        0 ≤ a ∧ a < 6 + (tlv SNMP_SEQUENCE form content).length := by
  have hframe := header_message form content
  have hwhole := frame_length form content
  generalize hfcs : fcsBytes ((fmtPmppHeader 1).drop 1 ++ tlv SNMP_SEQUENCE form content) = fcs
    at h hframe
  have hheader := h.header_passes
  have htag : s.port.read s.tmp = (SNMP_SEQUENCE, ⟨stuff hdlc (lenBytes form content.length) ++
      (stuff hdlc (content ++ fcs) ++ delimiterFlag :: rest), s.port.reads + 1⟩) := by
    rw [Port.read, h.input, stuff_message]
  have hstored := h.store SNMP_SEQUENCE SNMP_SEQUENCE
    ⟨stuff hdlc (lenBytes form content.length) ++
      (stuff hdlc (content ++ fcs) ++ delimiterFlag :: rest), s.port.reads + 1⟩ rfl
  -- the length, and as much as it says
  obtain ⟨hcount, hlength⟩ := hstored.readLength stale hfits
  rw [Receiving.rest, if_neg hheader]
  simp only [htag, ne_eq, not_true_eq_false, if_false, Receiving.put]
  generalize Receiving.readByteCount stale _ _ = count at hcount hlength ⊢
  have hmany : (content ++ fcs).length = count.1 + 2 := by
    rw [List.length_append, hcount, ← hfcs]
    rfl
  have hfilled := hlength.fill stale
  rw [hmany, hframe] at hfilled
  have hindex : count.2.i = 5 + form.width := by
    rw [hlength.index, List.length_append, lenBytes_length]
    rfl
  have htlv : (tlv SNMP_SEQUENCE form content).length = 1 + form.width + count.1 := by
    rw [tlv_length, hcount]
  have hchecked : computeFcs ((count.2.fill stale (count.1 + 2)).buf.take 1
      (count.1 + count.2.i + 1)) = PMPP_FCS_MAGIC := by
    apply computeFcs_withFcs hfilled.holds
    rw [← withFcs_length, hwhole, htlv, hindex]
    omega
  have hclosing : ((count.2.fill stale (count.1 + 2)).port.read
      (count.2.fill stale (count.1 + 2)).tmp).2.input = rest := by
    rw [Port.read, hfilled.input]
  rw [if_neg (not_not.mpr hchecked)]
  refine ⟨trivial, ?_, hfilled.holds, hclosing, ?_⟩
  · rw [htlv, hindex, PMPP_HEADER_SIZE]
    congr 1
    push_cast
    ring
  · intro a ha
    have hrange := hfilled.stored a ha
    rw [List.length_cons, hwhole] at hrange
    push_cast at hrange
    exact ⟨hrange.1, by omega⟩

/-- **Round trip**: a message whose outer length is right, of at most 1490 bytes and with
any content, is framed by the sender, and the receiver calls the parser on that message
with its byte count, having stored within its packet buffer only. -/
theorem receiveMessage_sendMessage (form : LenForm) (content : List Byte)
    (hfits : form.Fits content.length)
    (hsize : (tlv SNMP_SEQUENCE form content).length ≤ 1490)
    (stale : Nat → Byte) (buf : Mem Byte) (rest : List Byte) :
    ∃ r, receiveMessage stale buf (sendMessage (tlv SNMP_SEQUENCE form content) ++ rest) = some r ∧
      r.ret = 1 ∧ r.handed = some ((tlv SNMP_SEQUENCE form content).length : Int) ∧
      r.buf.Holds PMPP_HEADER_SIZE (tlv SNMP_SEQUENCE form content) ∧ r.port.input = rest ∧
      ∀ a ∈ r.buf.stored, 0 ≤ a ∧ a < STMF_MAX_PACKET := by
  have hstream : sendMessage (tlv SNMP_SEQUENCE form content) ++ rest = delimiterFlag ::
      (stuff hdlc ((fmtPmppHeader 1).drop 1) ++ (stuff hdlc (tlv SNMP_SEQUENCE form content ++
        fcsBytes ((fmtPmppHeader 1).drop 1 ++ tlv SNMP_SEQUENCE form content)) ++
        delimiterFlag :: rest)) := by
    rw [sendMessage_eq_hdlcFrame, hdlcFrame, withFcs, List.append_assoc _ _ (fcsBytes _),
      stuff_append]
    simp only [List.cons_append, List.append_assoc, List.nil_append]
    rfl
  have hheader := progress_header stale buf ⟨_, 0 + 1⟩
    (stuff hdlc (tlv SNMP_SEQUENCE form content ++
      fcsBytes ((fmtPmppHeader 1).drop 1 ++ tlv SNMP_SEQUENCE form content)) ++
      delimiterFlag :: rest) rfl
  obtain ⟨hret, hhanded, hheld, hinput, hstored⟩ := rest_spec stale hfits hheader
  refine ⟨_, by rw [receiveMessage, hstream, awaitFlag_flag, Option.map_some], hret, hhanded, ?_,
    hinput, ?_⟩
  · have hmessage : delimiterFlag ::
        withFcs ((fmtPmppHeader 1).drop 1 ++ tlv SNMP_SEQUENCE form content) =
        fmtPmppHeader 1 ++ (tlv SNMP_SEQUENCE form content ++
          fcsBytes ((fmtPmppHeader 1).drop 1 ++ tlv SNMP_SEQUENCE form content)) := by
      rw [withFcs, List.append_assoc]
      rfl
    rw [hmessage, Mem.holds_append] at hheld
    exact ((Mem.holds_append _ _ _ _).mp hheld.2).1
  · intro a ha
    have hrange := hstored a ha
    refine ⟨hrange.1, ?_⟩
    have hsize' : ((tlv SNMP_SEQUENCE form content).length : Int) ≤ 1490 := by exact_mod_cast hsize
    rw [STMF_MAX_PACKET]
    push_cast
    omega

/-- The round trip of a message of the two reserved bytes, its length in three bytes. -/
theorem receiveMessage_sendMessage_reserved :
    ∃ r, receiveMessage (fun _ => 0) (Mem.ofList 0 [])
        (sendMessage (tlv SNMP_SEQUENCE .long2 [0x7d, 0x7e]) ++ []) = some r ∧
      r.ret = 1 ∧ r.handed = some ((tlv SNMP_SEQUENCE .long2 [0x7d, 0x7e]).length : Int) ∧
      r.buf.Holds PMPP_HEADER_SIZE (tlv SNMP_SEQUENCE .long2 [0x7d, 0x7e]) ∧
      r.port.input = [] ∧ ∀ a ∈ r.buf.stored, 0 ≤ a ∧ a < STMF_MAX_PACKET :=
  receiveMessage_sendMessage .long2 [0x7d, 0x7e] (by decide) (by decide) (fun _ => 0)
    (Mem.ofList 0 []) []

end RfsAtsc
