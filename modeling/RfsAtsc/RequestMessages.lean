import RfsAtsc.RoundTrip

/-!
# The messages sent to the controller

Each command fills a packed message on the stack, from the opening flag up to
two bytes reserved for the check, and hands it to `fcs_hdlc` with the length of
what lies between.  What is sent afterwards has the size of the declared message,
whatever `fcs_hdlc` made of it.
-/

namespace RfsAtsc

open TracedMemory ByteStuffing

/-- `sizeof` each message. -/
def sizeofSetPattern : Nat := 9
def sizeofSetControllerTimingData : Nat := 15
def sizeofOverlapMsg : Nat := 34
def sizeofGetBlockRequest : Nat := 10
def sizeofGetControllerTimingDataRequest : Nat := 11
def sizeofGetShortStatusRequest : Nat := 8

/-- An `unsigned short` in memory, low byte first. -/
def leBytes (w : U16) : List Byte := [TableCrc.lowByte w, TableCrc.highByte w]

/-- A message on its way: the body that was built, the message as `fcs_hdlc` left
it with the record of what it stored, and the bytes handed to `write` or
`sendto`. -/
structure Sent where
  size : Nat
  msgLen : Nat
  body : List Byte
  mess : Mem Byte
  wire : List Byte

/-- The end of every command's request: `msg_len = sizeof - 4`, `fcs_hdlc`, and
`sizeof` bytes sent. -/
def sendMess (size : Nat) (mess : Mem Byte) : Sent :=
  let msgLen := size - 4
  let framed := (fcsHdlc msgLen mess.untraced).mess
  { size := size
    msgLen := msgLen
    body := mess.take 1 msgLen
    mess := framed
    wire := framed.take 0 size }

/-- The request of `set_pattern`. -/
def setPatternMess (stack : Mem Byte) (pattern : Byte) : Sent :=
  sendMess sizeofSetPattern
    (stack.write 0 [0x7e, 0x05, 0x13, 0xc0, 0x93, pattern, 0x00, 0x00])

/-- What `set_timing` reads of `db_timing_set_2070_t`. -/
structure DbTimingSet2070 where
  phase : Byte
  cellAddr : U16
  data : Byte

/-- `calc_cell_addr`: the cell address of a phase, with its bytes swapped. -/
def calcCellAddr (phase1CellAddr : U16) (phase : Byte) : U16 :=
  let temp := ((phase.zeroExtend 16 - 1) <<< 4) + phase1CellAddr
  ((temp <<< 8) &&& 0xFF00) + ((temp >>> 8) &&& 0x00FF)

/-- The cell address `set_timing` puts into its message. -/
def setTimingCellAddr (t : DbTimingSet2070) : U16 :=
  if t.phase.toNat > 0 then calcCellAddr t.cellAddr t.phase
  else ((t.cellAddr <<< 8) &&& 0xFF00) + ((t.cellAddr >>> 8) &&& 0x00FF)

/-- The request of `set_timing`.  The magic number is stored and then
overwritten with zeros. -/
def setTimingMess (stack : Mem Byte) (t : DbTimingSet2070) : Sent :=
  let m := stack.write 0 (List.replicate sizeofSetControllerTimingData 0)
  let m := m.write 0 [0x7e, 0x05, 0x13, 0xc0, 0x99, 0x02]
  let m := m.write 6 (leBytes 0x9201 ++ [0x02])
  let m := m.write 6 (leBytes 0x0000 ++ [0x00])
  let m := m.write 9 (leBytes (setTimingCellAddr t) ++ [t.data])
  let m := m.write 12 [0x00, 0x00]
  sendMess sizeofSetControllerTimingData m

/-- The request of `set_overlap`, made in the caller's own message. -/
def setOverlapMess (poverlapSetRequest : Mem Byte) : Sent :=
  let m := poverlapSetRequest.write 0 [0x7e, 0x05, 0x13, 0xc0, 0x96, 0x02, 0x04]
  let m := m.write 31 [0x00, 0x00]
  sendMess sizeofOverlapMsg m

/-- `GET_REQUEST`. -/
def GET_REQUEST : Byte := 0x80

/-- The request of `get_request`. -/
def getRequestMess (stack : Mem Byte) (msgType page block : Byte) : Sent :=
  sendMess sizeofGetBlockRequest
    (stack.write 0 [0x7e, 0x05, 0x13, 0xc0, GET_REQUEST ||| msgType, page, block, 0x00, 0x00])

/-- What `get_timing` reads of `db_timing_get_2070_t`. -/
structure DbTimingGet2070 where
  phase : Byte
  page : U16

/-- The request of `get_timing`. -/
def getTimingMess (stack : Mem Byte) (t : DbTimingGet2070) : Sent :=
  sendMess sizeofGetControllerTimingDataRequest
    (stack.write 0 ([0x7e, 0x05, 0x33, 0xc0, 0x89] ++ leBytes (calcCellAddr (t.page + 0x10) t.phase)
      ++ [16, 0x00, 0x00]))

/-- The request of `get_short_status`. -/
def getShortStatusMess (stack : Mem Byte) : Sent :=
  sendMess sizeofGetShortStatusRequest
    (stack.write 0 [0x7e, 0x05, 0x13, 0xc0, 0x84, 0x00, 0x00])

/-! ## What is sent -/

/-- The bytes sent are one whole frame of the body, and `fcs_hdlc` stored nothing
outside the bytes sent. -/
def Sent.WholeFrame (s : Sent) : Prop :=
  (∃ inner, s.wire = 0x7e :: inner ++ [0x7e] ∧ (0x7e : Byte) ∉ inner ∧
      unstuff hdlc inner = some (withFcs s.body)) ∧
    ∀ a ∈ s.mess.stored, a < s.wire.length

/-- No byte of the body or of its check is a flag or an escape. -/
def PlainBody (body : List Byte) : Prop := ∀ b ∈ withFcs body, hdlc.Plain b

instance (body : List Byte) : Decidable (PlainBody body) :=
  inferInstanceAs (Decidable (∀ b ∈ withFcs body, hdlc.Plain b))

theorem stuffable_of_plainBody {body : List Byte} (h : PlainBody body) : Stuffable body := by
  have hbody : 0x7d ∉ body := fun hmem =>
    (h _ (List.mem_append_left _ hmem)).2 rfl
  refine ⟨fun hmem => hbody (List.dropLast_subset _ hmem), fun hlast => ?_, fun hhigh => ?_⟩
  · exact absurd (List.mem_of_getLast? hlast) hbody
  · exact (h (fcsHigh body) (List.mem_append_right _ (by simp [fcsBytes_eq]))).2 hhigh

theorem sendMess_body {size : Nat} {mess : Mem Byte} {body : List Byte}
    (hsize : size = body.length + 4) (hmess : mess.Holds 0 (0x7e :: body)) :
    (sendMess size mess).body = body := by
  have hlen : size - 4 = body.length := by omega
  rw [sendMess, hlen]
  exact (mess.holds_iff_take 1 body).mp hmess.2

/-- **The length decides.**  A message of the declared size is a whole frame
exactly when nothing in it had to be stuffed. -/
theorem wholeFrame_sendMess_iff {size : Nat} {mess : Mem Byte} {body : List Byte}
    (hsize : size = body.length + 4) (hmess : mess.Holds 0 (0x7e :: body)) :
    (sendMess size mess).WholeFrame ↔ PlainBody body := by
  have hlen : size - 4 = body.length := by omega
  have hbody : (sendMess size mess).body = body := sendMess_body hsize hmess
  have hready : Ready mess.untraced body := ⟨mess.untraced_holds.mpr hmess, rfl⟩
  rw [Sent.WholeFrame, hbody]
  simp only [sendMess, hlen, Mem.take_length]
  constructor
  · intro hwhole
    obtain ⟨⟨inner, hwire, -, hinner⟩, -⟩ := hwhole
    rw [unstuff_eq_some_iff] at hinner
    subst hinner
    have hlengths := congrArg List.length hwire
    simp only [Mem.take_length, List.length_append, List.length_cons, List.length_nil] at hlengths
    apply plain_of_stuff_length
    rw [withFcs_length]
    omega
  · intro hplain
    obtain ⟨hframe, hstored⟩ := fcsHdlc_stuffable hready (stuffable_of_plainBody hplain)
    have hsame : stuff hdlc (withFcs body) = withFcs body := stuff_eq_self hdlc hplain
    have hfull : (fcsHdlc body.length mess.untraced).msgLen + 2 = size := by
      have hlengths := congrArg List.length hframe
      rw [frameBytes, Mem.take_length, hdlcFrame_length, hsame, withFcs_length] at hlengths
      omega
    rw [frameBytes, hfull] at hframe
    refine ⟨⟨stuff hdlc (withFcs body), hframe, flag_not_mem_stuff hdlc _,
      unstuff_stuff hdlc _⟩, ?_⟩
    intro a ha
    have hbound := hstored a ha
    omega

/-! ## The bodies of the commands -/

/-- The body `set_pattern` builds. -/
def setPatternBody (pattern : Byte) : List Byte := [0x05, 0x13, 0xc0, 0x93, pattern]

/-- The body `set_timing` builds. -/
def setTimingBody (t : DbTimingSet2070) : List Byte :=
  [0x05, 0x13, 0xc0, 0x99, 0x02, 0x00, 0x00, 0x00] ++ leBytes (setTimingCellAddr t) ++ [t.data]

/-- The body `set_overlap` builds around the caller's 24 bytes. -/
def setOverlapBody (overlaps : List Byte) : List Byte :=
  [0x05, 0x13, 0xc0, 0x96, 0x02, 0x04] ++ overlaps

/-- The body `get_request` builds. -/
def getRequestBody (msgType page block : Byte) : List Byte :=
  [0x05, 0x13, 0xc0, GET_REQUEST ||| msgType, page, block]

/-- A message whose fields are stored one after the other. -/
theorem write_message_holds (stack : Mem Byte) (body behind : List Byte) :
    (stack.write 0 (0x7e :: body ++ behind)).Holds 0 (0x7e :: body) :=
  ((Mem.holds_append _ _ _ _).mp (stack.write_holds 0 (0x7e :: body ++ behind))).1

theorem setPatternMess_wholeFrame_iff (stack : Mem Byte) (pattern : Byte) :
    (setPatternMess stack pattern).WholeFrame ↔ PlainBody (setPatternBody pattern) :=
  wholeFrame_sendMess_iff rfl (write_message_holds stack (setPatternBody pattern) [0x00, 0x00])

theorem getRequestMess_wholeFrame_iff (stack : Mem Byte) (msgType page block : Byte) :
    (getRequestMess stack msgType page block).WholeFrame ↔
      PlainBody (getRequestBody msgType page block) :=
  wholeFrame_sendMess_iff rfl
    (write_message_holds stack (getRequestBody msgType page block) [0x00, 0x00])

/-- The stores of `set_timing` come one behind the other, except that the magic
number is stored twice. -/
theorem setTimingMess_eq (stack : Mem Byte) (t : DbTimingSet2070) :
    ∃ m : Mem Byte, m.Holds 0 (0x7e :: setTimingBody t) ∧
      setTimingMess stack t = sendMess sizeofSetControllerTimingData m := by
  refine ⟨_, ?_, rfl⟩
  have hmagic : ∀ m : Mem Byte, m.Holds 0 [0x7e, 0x05, 0x13, 0xc0, 0x99, 0x02] →
      (m.write 6 (leBytes 0x0000 ++ [0x00])).Holds 0
        [0x7e, 0x05, 0x13, 0xc0, 0x99, 0x02, 0x00, 0x00, 0x00] := by
    intro m hm
    exact (Mem.holds_append _ 0 [0x7e, 0x05, 0x13, 0xc0, 0x99, 0x02] _).mpr
      ⟨hm.write_outside _ (by decide), m.write_holds 6 _⟩
  have hcell : ∀ m : Mem Byte, m.Holds 0 [0x7e, 0x05, 0x13, 0xc0, 0x99, 0x02, 0x00, 0x00, 0x00] →
      (m.write 9 (leBytes (setTimingCellAddr t) ++ [t.data])).Holds 0
        (0x7e :: setTimingBody t) := by
    intro m hm
    exact (Mem.holds_append _ 0 [0x7e, 0x05, 0x13, 0xc0, 0x99, 0x02, 0x00, 0x00, 0x00] _).mpr
      ⟨hm.write_outside _ (by simp [leBytes]), m.write_holds 9 _⟩
  apply Mem.Holds.write_outside
  · apply hcell
    apply hmagic
    apply Mem.Holds.write_outside
    · exact Mem.write_holds _ 0 _
    · decide
  · simp [setTimingBody, leBytes]

theorem setTimingMess_body (stack : Mem Byte) (t : DbTimingSet2070) :
    (setTimingMess stack t).body = setTimingBody t := by
  obtain ⟨m, hm, hsent⟩ := setTimingMess_eq stack t
  rw [hsent]
  exact sendMess_body rfl hm

theorem setTimingMess_wholeFrame_iff (stack : Mem Byte) (t : DbTimingSet2070) :
    (setTimingMess stack t).WholeFrame ↔ PlainBody (setTimingBody t) := by
  obtain ⟨m, hm, hsent⟩ := setTimingMess_eq stack t
  rw [hsent]
  exact wholeFrame_sendMess_iff rfl hm

theorem setOverlapMess_wholeFrame_iff (poverlapSetRequest : Mem Byte) :
    (setOverlapMess poverlapSetRequest).WholeFrame ↔
      PlainBody (setOverlapBody (poverlapSetRequest.take 7 24)) := by
  refine wholeFrame_sendMess_iff (by simp [setOverlapBody, sizeofOverlapMsg]) ?_
  have hblock := poverlapSetRequest.holds_take 7 24
  apply Mem.Holds.write_outside
  · have hheader := poverlapSetRequest.write_holds 0 [0x7e, 0x05, 0x13, 0xc0, 0x96, 0x02, 0x04]
    exact (Mem.holds_append _ 0 [0x7e, 0x05, 0x13, 0xc0, 0x96, 0x02, 0x04] _).mpr
      ⟨hheader, hblock.write_outside _ (by simp)⟩
  · simp [setOverlapBody]

/-- **Whole frames, exactly.**  Each command sends one whole frame, and stores
nothing past its message, exactly when its body and its check hold no flag and
no escape. -/
theorem commands_wholeFrame_iff (stack poverlapSetRequest : Mem Byte) (pattern : Byte)
    (t : DbTimingSet2070) (msgType page block : Byte) :
    ((setPatternMess stack pattern).WholeFrame ↔ PlainBody (setPatternBody pattern)) ∧
      ((setTimingMess stack t).WholeFrame ↔ PlainBody (setTimingBody t)) ∧
      ((setOverlapMess poverlapSetRequest).WholeFrame ↔
        PlainBody (setOverlapBody (poverlapSetRequest.take 7 24))) ∧
      ((getRequestMess stack msgType page block).WholeFrame ↔
        PlainBody (getRequestBody msgType page block)) :=
  ⟨setPatternMess_wholeFrame_iff stack pattern, setTimingMess_wholeFrame_iff stack t,
    setOverlapMess_wholeFrame_iff poverlapSetRequest,
    getRequestMess_wholeFrame_iff stack msgType page block⟩

/-- Pattern 126 is the flag: the stuffed message outgrows its nine bytes, and the
closing flag is stored behind them and never sent. -/
theorem setPattern_flag_truncated :
    (setPatternMess (Mem.ofList 0 []) 0x7e).wire
        = [0x7e, 0x05, 0x13, 0xc0, 0x93, 0x7d, 0x5e, 0x19, 0xac] ∧
      9 ∈ (setPatternMess (Mem.ofList 0 []) 0x7e).mess.stored ∧
      ¬ (setPatternMess (Mem.ofList 0 []) 0x7e).WholeFrame := by
  refine ⟨by decide +kernel, by decide +kernel, ?_⟩
  rw [setPatternMess_wholeFrame_iff]
  decide +kernel

end RfsAtsc
