import RfsAtsc.AscRequestDecoding
import RfsAtsc.NtcipAcceptance
import RfsAtsc.PmppCanonical

/-!
# The controller's answers and the database: `asc_get`

The main loop of `asc_get` sends a request when the port has been silent for a while,
and otherwise receives a message, parses it and writes the record to the database.
Nothing ties an answer to a request.

Put abstractly it counts its requests and shows the last answer that came through whole.
The program does just that, whatever noise comes between the answers and whichever of
them fail their check (`ascGet_refines`).
-/

namespace RfsAtsc

open TracedMemory ByteStuffing BerEncoding

/-! ## The program -/

/-- The cells from `&m[a]` on. -/
def Mem.behind (m : Mem Byte) (a : Int) : Mem Byte where
  cell := fun b => m.cell (b + a)
  stored := m.stored.map (· - a)

/-- What the program keeps: the static variables of `send_message`, its buffer from behind
the header, the bytes waiting at the port and those written to it, and the database's
record. -/
structure AscGet where
  requestId : Nat
  msgBuf : Mem Byte
  port : List Byte
  written : List Byte
  record : Option Atsc

/-- What the stack holds where the variables of `receive_message` and of the parser are. -/
structure AscStack where
  stale : Nat → Byte
  buf : Mem Byte
  asc : Atsc

/-- `send_message`. -/
def AscGet.sendMessage (s : AscGet) (setMessage : Bool) : AscGet :=
  let room : Int := STMF_MAX_PACKET - PMPP_HEADER_SIZE
  let id := BitVec.ofNat 8 s.requestId
  let r :=
    if setMessage then fmtAscSetRequest s.msgBuf room id setList
    else fmtAscGetRequest s.msgBuf room id getRequestList
  if r.ret = 0 then { s with msgBuf := r.buf }
  else
    let message := r.buf.take 0 r.ret.toNat
    { s with
      msgBuf := r.buf.write r.ret (fcsBytes ((fmtPmppHeader 1).drop 1 ++ message))
      written := s.written ++ RfsAtsc.sendMessage message
      requestId := if s.requestId = 32 then 0 else s.requestId + 1 }

/-- `receive_message`, with the parser that it calls: none where it does not return. -/
def AscGet.receiveMessage (s : AscGet) (stack : AscStack) : Option AscGet :=
  (RfsAtsc.receiveMessage stack.stale stack.buf s.port).bind fun r =>
    match r.handed with
    | none => some { s with port := r.port.input }
    | some byteCount =>
        (parseAscGetResponse (Mem.behind r.buf PMPP_HEADER_SIZE) byteCount getList stack.asc).map
          fun p => { s with port := r.port.input, record := p.published <|> s.record }

/-- The loop's turn: `select` has timed out, or there is something at the port. -/
def AscGet.turn (s : AscGet) (stack : AscStack) : Option AscGet :=
  if s.port = [] then some (s.sendMessage false) else s.receiveMessage stack

/-! ## Answers at the port -/

/-- An answer behind noise without a flag, from any address, its opening flag doubled or
not; its check may be wrong. -/
structure Answer where
  junk : List Byte
  doubled : Bool
  address : Byte
  response : GetResponse
  check : Byte × Byte
  flagless : delimiterFlag ∉ junk
  fits : response.bytes.length ≤ 1490

namespace Answer

/-- What the check is over. -/
def body (a : Answer) : List Byte := a.address :: PMPP_CTRL_VAL :: PMPP_STMF_VAL :: a.response.bytes

def frame (a : Answer) : List Byte := a.body ++ [a.check.1, a.check.2]

/-- The bytes on the line. -/
def wire (a : Answer) : List Byte :=
  a.junk ++ delimiterFlag :: ((if a.doubled then [delimiterFlag] else []) ++
    (stuff hdlc a.frame ++ [delimiterFlag]))

/-- The check is right. -/
def Checked (a : Answer) : Prop := [a.check.1, a.check.2] = fcsBytes a.body

instance (a : Answer) : Decidable a.Checked := inferInstanceAs (Decidable (_ = _))

end Answer

theorem GetResponse.bytes_eq (g : GetResponse) :
    g.bytes = SNMP_SEQUENCE :: (lenBytes g.messageForm g.messageContent.length ++
      g.messageContent) := rfl

/-- The frame is as long as the message in it announces. -/
theorem Answer.announcedLength_frame (a : Answer) :
    announcedLength a.frame = a.frame.length := by
  have hlen : a.frame.length = 5 + a.response.bytes.length := by
    simp only [frame, body, List.length_append, List.length_cons, List.length_nil]
    omega
  have hfits := a.response.message_fits
  rw [hlen, announcedLength, ResponseFields.bytes, tlv_length]
  have hframe : a.frame = a.address :: PMPP_CTRL_VAL :: PMPP_STMF_VAL :: SNMP_SEQUENCE ::
      (lenBytes a.response.messageForm a.response.messageContent.length ++
        (a.response.messageContent ++ [a.check.1, a.check.2])) := by
    rw [frame, body, GetResponse.bytes_eq]
    simp only [List.cons_append, List.append_assoc]
  rw [hframe]
  generalize a.response.messageContent ++ [a.check.1, a.check.2] = tail
  generalize a.response.messageContent.length = n at hfits
  cases hform : a.response.messageForm with
  | short =>
      rw [hform] at hfits
      have hn : n < 128 := hfits
      have htop := short_top_bit (BitVec.ofNat 8 n) (by
        rw [toNat_ofNat_of_short hn]
        exact hn)
      simp only [lenBytes, List.cons_append, List.getD_cons_succ, List.getD_cons_zero, announced,
        if_pos htop, toNat_ofNat_of_short hn, LenForm.width]
      omega
  | long1 =>
      rw [hform] at hfits
      have hn : n < 256 := hfits
      have hcount : (BitVec.ofNat 8 n).toNat = n := by
        rw [BitVec.toNat_ofNat]
        exact Nat.mod_eq_of_lt hn
      have hcode : announced 0x81 (BitVec.ofNat 8 n) (tail.getD 0 0) = (n, 1) := by
        rw [announced, if_neg (by decide), if_pos (by decide), hcount]
      simp only [lenBytes, List.cons_append, List.nil_append, List.getD_cons_succ,
        List.getD_cons_zero, hcode, LenForm.width]
      omega
  | long2 =>
      rw [hform] at hfits
      have hn : n < 65536 := hfits
      have hcode : announced 0x82 (BitVec.ofNat 8 (n / 256)) (BitVec.ofNat 8 n) = (n, 2) := by
        have hcount : (BitVec.ofNat 8 (n / 256)).toNat * 256 + (BitVec.ofNat 8 n).toNat = n := by
          rw [BitVec.toNat_ofNat, BitVec.toNat_ofNat]
          omega
        rw [announced, if_neg (by decide), if_neg (by decide), if_pos (by decide), hcount]
      simp only [lenBytes, List.cons_append, List.nil_append, List.getD_cons_succ,
        List.getD_cons_zero, hcode, LenForm.width]
      omega

theorem Answer.double_cases (a : Answer) :
    (if a.doubled then [delimiterFlag] else []) = [] ∨
      (if a.doubled then [delimiterFlag] else []) = [delimiterFlag] := by
  cases a.doubled with
  | false => exact Or.inl rfl
  | true => exact Or.inr rfl

/-- Header and tag of an answer pass. -/
theorem Answer.passes (a : Answer) (stale : Nat → Byte) (tail : List Byte) (reads : Nat) :
    Passes stale ⟨(if a.doubled then [delimiterFlag] else []) ++
      (stuff hdlc a.frame ++ tail), reads⟩ := by
  have hspelling := stuffByte_spelling a.address
  have hopening : Opening (if a.doubled then [delimiterFlag] else [])
      (stuffByte hdlc a.address) := by
    cases a.doubled with
    | true => exact Or.inl rfl
    | false =>
        refine Or.inr ⟨rfl, fun hhead => ?_⟩
        have hmem := flag_not_mem_stuff hdlc [a.address]
        rw [stuff_cons, stuff_nil, List.append_nil] at hmem
        exact hmem (List.mem_of_mem_head? hhead)
  have hstuff : stuff hdlc a.frame ++ tail = stuffByte hdlc a.address ++
      PMPP_CTRL_VAL :: PMPP_STMF_VAL :: SNMP_SEQUENCE ::
        (stuff hdlc (lenBytes a.response.messageForm a.response.messageContent.length ++
          a.response.messageContent ++ [a.check.1, a.check.2]) ++ tail) := by
    rw [frame, body, GetResponse.bytes_eq, List.cons_append, stuff_cons, List.append_assoc]
    rfl
  rw [hstuff]
  exact (passes_of_spelled stale hopening hspelling _ reads).1

/-- **An answer is received**: its frame is taken off the port, and its message is handed to
the parser if its check is right. -/
theorem receiveMessage_answer (a : Answer) (rest : List Byte) (stale : Nat → Byte)
    (buf : Mem Byte) :
    ∃ r, receiveMessage stale buf (a.wire ++ rest) = some r ∧ r.port.input = rest ∧
      r.buf.Holds PMPP_HEADER_SIZE a.response.bytes ∧
      r.handed = if a.Checked then some (a.response.bytes.length : Int) else none := by
  obtain ⟨double, hdouble⟩ : ∃ double, double = (if a.doubled then [delimiterFlag] else []) :=
    ⟨_, rfl⟩
  obtain ⟨reads, hreads⟩ : ∃ reads, reads = 0 + a.junk.length + 1 := ⟨_, rfl⟩
  have hcases := a.double_cases
  have hpass := a.passes stale (delimiterFlag :: rest) reads
  rw [← hdouble] at hcases hpass
  have hwire : a.wire ++ rest = a.junk ++ delimiterFlag ::
      (double ++ (stuff hdlc a.frame ++ delimiterFlag :: rest)) := by
    rw [Answer.wire, hdouble]
    simp only [List.append_assoc, List.cons_append, List.nil_append]
  have hawait := (awaitFlag_eq_some_iff (a.wire ++ rest) 0
    ⟨double ++ (stuff hdlc a.frame ++ delimiterFlag :: rest), reads⟩).mpr
      ⟨a.junk, hwire, a.flagless, hreads⟩
  have hseven : 7 ≤ a.frame.length := by
    rw [Answer.frame, Answer.body, GetResponse.bytes_eq, List.length_append, List.length_cons,
      List.length_cons, List.length_cons, List.length_cons, List.length_append, lenBytes_length]
    have hwidth : 1 ≤ a.response.messageForm.width := by
      cases a.response.messageForm <;> decide
    simp only [List.length_cons, List.length_nil]
    omega
  obtain ⟨hannounced, hread⟩ :=
    messageRead_stuff stale buf hcases hseven (delimiterFlag :: rest) _ hpass
  have hprogress := hread a.announcedLength_frame.symm
  rw [a.announcedLength_frame] at hannounced
  have hlength : a.frame.length = 5 + a.response.bytes.length := by
    simp only [Answer.frame, Answer.body, List.length_append, List.length_cons, List.length_nil]
    omega
  refine ⟨_, by rw [receiveMessage_eq, hawait, Option.map_some], ?_⟩
  rw [rest_passes stale buf hpass]
  refine ⟨?_, ?_, ?_⟩
  · rw [Port.read_input, hprogress.input]
    rfl
  · have hheld := hprogress.holds
    have hsplit : delimiterFlag :: a.frame =
        [delimiterFlag, a.address, PMPP_CTRL_VAL, PMPP_STMF_VAL] ++
          (a.response.bytes ++ [a.check.1, a.check.2]) := rfl
    rw [hsplit, Mem.holds_append] at hheld
    exact ((Mem.holds_append _ _ _ _).mp hheld.2).1
  · have hheld := (Mem.holds_iff_take _ _ _).mp hprogress.holds.2
    rw [zero_add] at hheld
    have hgood : computeFcs a.frame = PMPP_FCS_MAGIC ↔ a.Checked :=
      checkModframeString_pair a.body a.check.1 a.check.2
    simp only [hannounced, hheld, ne_eq]
    by_cases hchecked : a.Checked
    · rw [if_neg (not_not.mpr (hgood.mpr hchecked)), if_pos hchecked, Option.some.injEq,
        PMPP_HEADER_SIZE]
      omega
    · rw [if_pos (mt hgood.mp hchecked), if_neg hchecked]

/-! ## The record of an answer -/

theorem Mem.behind_holds {m : Mem Byte} {a : Int} {bs : List Byte} (h : m.Holds a bs) :
    (Mem.behind m a).Holds 0 bs := by
  have hsame : ∀ b, a ≤ b → b < a + bs.length → (Mem.behind m a).cell (b + -a) = m.cell b := by
    intro b _ _
    change m.cell (b + -a + a) = m.cell b
    rw [neg_add_cancel_right]
  have hmoved := h.moved (-a) hsame
  rwa [add_neg_cancel] at hmoved

section Published

variable {buf : Mem Byte} (g : GetResponse) (hbuf : buf.Holds 0 g.bytes)

include hbuf

/-- The parser passes every station of an answer, and comes to its bindings. -/
theorem GetResponse.stations :
    (messageHeader buf g.bytes.length).1 ≠ 0 ∧ (versionRead buf g.bytes.length).1 ≠ 0 ∧
      (communityRead buf g.bytes.length).1 ≠ 0 ∧
      buf.cell (communityRead buf g.bytes.length).2.i = SNMP_GET_RESPONSE ∧
      (pduHeader buf g.bytes.length).1 ≠ 0 ∧ (listHeader buf g.bytes.length).1 ≠ 0 ∧
      Ahead buf g.bytes.length (listHeader buf g.bytes.length).2
        (g.binds.flatMap VarBind.bytes) := by
  obtain ⟨b, binds, hbinds⟩ := List.exists_cons_of_ne_nil g.binds_ne
  have hpos : 0 < g.listContent.length := by
    simp [ResponseFields.listContent, hbinds, VarBind.bytes]
  have hwidth : g.messageForm.width ≤ 3 := by
    cases g.messageForm <;> decide
  have hsize := g.message_fits.lt
  have hstart : Ahead buf g.bytes.length Cursor.start
      (header SNMP_SEQUENCE g.messageForm g.messageContent.length ++ g.messageContent) := by
    refine ⟨hbuf, ?_, ?_⟩
    · simp [ResponseFields.bytes, tlv]
    · have hlength : g.bytes.length = 1 + g.messageForm.width + g.messageContent.length :=
        tlv_length _ _ _
      change g.bytes.length < 2 ^ 31
      omega
  obtain ⟨hmessage, hversion⟩ := getSequenceCount_spec (Or.inl rfl) g.message_fits
    (by simp [ResponseFields.messageContent]) le_rfl hstart
  obtain ⟨hversionRet, hcommunity⟩ := readVersionNumber_spec g.version.short hversion
  obtain ⟨hcommunityRet, hpdu⟩ := readCommunityName_spec g.community_short hcommunity
  obtain ⟨hpduCount, hstatus⟩ := getSequenceCount_spec (Or.inr rfl) g.pdu_fits
    (by simp [ResponseFields.pduContent]) le_rfl (hpdu.same (Cursor.read_i _))
  obtain ⟨-, hlist⟩ := readRequestStatus_spec g.requestId.short g.errorStatus.short
    g.errorIndex.short hstatus
  obtain ⟨hlistCount, hobjects⟩ := getSequenceCount_spec (Or.inl rfl) g.list_fits hpos le_rfl hlist
  exact ⟨hmessage, by rw [versionRead, messageHeader, hversionRet]; decide,
    by rw [communityRead, versionRead, messageHeader, hcommunityRet]; decide, hpdu.cell, hpduCount,
    hlistCount, hobjects⟩

/-- The record of an answer: the last value of each group, and where it comes from. -/
theorem GetResponse.published (stack : Atsc) :
    ∃ p record, parseAscGetResponse buf g.bytes.length getList stack = some p ∧
      p.published = some record ∧ record.infoSource = ATSC_SOURCE_NTCIP ∧
      ∀ group, (record.status group).cell 0 = lastValue g.binds group.oid 0 := by
  obtain ⟨hmessage, hversion, hcommunity, hresponse, hpdu, hlist, hobjects⟩ := g.stations hbuf
  obtain ⟨p, hp⟩ := Option.isSome_iff_exists.mp
    (parseAscGetResponse_isSome buf g.bytes.length getList stack)
  have hparse := hp
  rw [parseAscGetResponse_eq, if_neg hmessage, if_neg hversion, if_neg hcommunity,
    if_neg (not_not_intro hresponse), if_neg hpdu, if_neg hlist, parseBindings,
    Option.map_eq_some_iff] at hparse
  obtain ⟨objects, hobjectsParse, rfl⟩ := hparse
  obtain ⟨hret, hgroups⟩ := parseAscObjects_spec g.binds _ _ hobjects hobjectsParse
  have hne : ¬ objects.ret = 0 := by
    rw [hret]
    decide
  refine ⟨_, { objects.asc with infoSource := ATSC_SOURCE_NTCIP }, hp, by rw [if_neg hne], rfl, ?_⟩
  intro group
  have hgroup := hgroups group
  rw [zeroAtsc_status] at hgroup
  rw [← hgroup]
  cases group <;> rfl

end Published

/-! ## What it is for -/

/-- What happens: an answer comes in at the port, or the loop makes a turn. -/
inductive AscEvent where
  | arrive (a : Answer)
  | turn (stack : AscStack)

/-- The steps of the program: none where it is stuck. -/
def AscGet.step (s : AscGet) : AscEvent → Option AscGet
  | .arrive a => some { s with port := s.port ++ a.wire }
  | .turn stack => s.turn stack

/-- The answers that wait, the number of requests so far, and what is shown of each group. -/
structure AscSession where
  waiting : List Answer
  requests : Nat
  shown : Option (StatusGroup → Byte)

/-- A turn answers silence with a request, and shows what an answer says, if its check is
right. -/
def AscSession.step (s : AscSession) : AscEvent → AscSession
  | .arrive a => { s with waiting := s.waiting ++ [a] }
  | .turn _ =>
      match s.waiting with
      | [] => { s with requests := s.requests + 1 }
      | a :: waiting =>
          let said := fun group : StatusGroup => lastValue a.response.binds group.oid 0
          { s with waiting := waiting, shown := if a.Checked then some said else s.shown }

/-- The names of `get_list`, each with a NULL. -/
def getBindings : List (List Byte × ObjectValue) :=
  getRequestList.map fun oid => (oid.name, .null)

/-- The record shows the last value of each group, and that it came by NTCIP. -/
def RecordShows (record : Option Atsc) (shown : Option (StatusGroup → Byte)) : Prop :=
  match record, shown with
  | none, none => True
  | some asc, some said =>
      asc.infoSource = ATSC_SOURCE_NTCIP ∧ ∀ group, (asc.status group).cell 0 = said group
  | _, _ => False

/-- The program has come as far as the session: the answers that wait are at the port, each
request was written in a frame of its own and a reader of SNMP finds in it the names of
`get_list` under the next number below 33, and the record shows what is shown. -/
structure AscRefines (s : AscGet) (t : AscSession) : Prop where
  port : s.port = t.waiting.flatMap Answer.wire
  requestId : s.requestId = t.requests % 33
  written : ∃ requests : List (List Byte),
    s.written = requests.flatMap (fun m => hdlcFrame ((fmtPmppHeader 1).drop 1 ++ m)) ∧
      requests.map readRequest = (List.range t.requests).map fun k =>
        some (intendedRequest SNMP_GET_REQUEST (BitVec.ofNat 8 (k % 33)) getBindings)
  shown : RecordShows s.record t.shown

/-! ## The requests -/

/-- The request for `get_list` under a number. -/
def getRequest (id : Nat) : List Byte :=
  requestBytes SNMP_GET_REQUEST (BitVec.ofNat 8 id) (getRequestList.flatMap (oidBytes nullValue))

theorem getRequestList_fits :
    OidsFit nullValue (STMF_MAX_PACKET - PMPP_HEADER_SIZE) SNMP_HEADER_SIZE getRequestList := by
  refine ⟨?_, ?_, ?_, ?_, ?_, ?_, trivial⟩
  all_goals decide

theorem getRequestList_length :
    (getRequestList.flatMap (oidBytes nullValue)).length + 28 < 65536 := by
  have hend := getRequestList_fits.end_le (v := 2) (fun oid => (nullValue_length oid).le)
    (by decide)
  simp only [SNMP_HEADER_SIZE, STMF_MAX_PACKET, PMPP_HEADER_SIZE] at hend
  omega

/-- A request is read as `get_list`, every value a NULL. -/
theorem readRequest_getRequest {id : Nat} (hid : id < 33) :
    readRequest (getRequest id) =
      some (intendedRequest SNMP_GET_REQUEST (BitVec.ofNat 8 id) getBindings) := by
  have hshort : (BitVec.ofNat 8 id).toNat < 128 := by
    rw [BitVec.toNat_ofNat]
    omega
  have hlist : ∀ oid ∈ getRequestList, oid.idLength ≤ ASC_MAX_ID := by decide
  have hone : ∀ oid ∈ getRequestList, ∀ rest,
      readBinding (oidBytes nullValue oid ++ rest) = some ((oid.name, .null), rest) :=
    fun oid hoid rest => readBinding_oidBytes nullValue (hlist oid hoid) le_rfl rest
  rw [getRequest, readRequest_requestBytes SNMP_GET_REQUEST hshort getRequestList_length,
    readBindings,
    readAll_flatMap getRequestList hone (fun oid _ => oidBytes_ne_nil nullValue)
      (length_le_flatMap getRequestList fun oid _ => oidBytes_ne_nil nullValue), Option.map_some]
  rfl

/-- **A request is sent**, whatever the buffer held: it always fits. -/
theorem AscGet.sendMessage_get (s : AscGet) :
    ∃ msgBuf, s.sendMessage false =
      { s with
        msgBuf := msgBuf
        written := s.written ++ hdlcFrame ((fmtPmppHeader 1).drop 1 ++ getRequest s.requestId)
        requestId := if s.requestId = 32 then 0 else s.requestId + 1 } := by
  have hheader : (SNMP_HEADER_SIZE : Int) ≤ STMF_MAX_PACKET - PMPP_HEADER_SIZE := by
    simp only [SNMP_HEADER_SIZE, STMF_MAX_PACKET, PMPP_HEADER_SIZE]
    omega
  have hret := fmtAscRequest_of_fit SNMP_GET_REQUEST (BitVec.ofNat 8 s.requestId) nullValue
    s.msgBuf (STMF_MAX_PACKET - PMPP_HEADER_SIZE) getRequestList hheader getRequestList_fits
  have hholds := fmtAscRequest_holds SNMP_GET_REQUEST (BitVec.ofNat 8 s.requestId) nullValue
    s.msgBuf (STMF_MAX_PACKET - PMPP_HEADER_SIZE) getRequestList hheader getRequestList_fits
  have hlength : (getRequest s.requestId).length =
      SNMP_HEADER_SIZE + (getRequestList.flatMap (oidBytes nullValue)).length := by
    rw [getRequest, requestBytes_length]
  generalize hr : fmtAscRequest SNMP_GET_REQUEST nullValue s.msgBuf
    (STMF_MAX_PACKET - PMPP_HEADER_SIZE) (BitVec.ofNat 8 s.requestId) getRequestList = r
    at hret hholds
  have hcount : r.ret = (getRequest s.requestId).length := by
    rw [hret, hlength]
    push_cast
    rfl
  have hpos : 0 < (getRequest s.requestId).length := by
    rw [hlength, SNMP_HEADER_SIZE]
    omega
  have hne : ¬ r.ret = 0 := by omega
  have hmessage : r.buf.take 0 r.ret.toNat = getRequest s.requestId := by
    rw [hcount, Int.toNat_natCast]
    exact (Mem.holds_iff_take _ _ _).mp hholds
  rw [AscGet.sendMessage]
  simp only [Bool.false_eq_true, if_false, fmtAscGetRequest, hr, if_neg hne, hmessage,
    sendMessage_eq_hdlcFrame]
  exact ⟨_, rfl⟩

/-! ## The program does what it is for -/

section Refinement

variable {s : AscGet} {t : AscSession}

/-- A request more. -/
theorem AscRefines.request (h : AscRefines s t) :
    AscRefines (s.sendMessage false) { t with requests := t.requests + 1 } := by
  obtain ⟨msgBuf, hsend⟩ := s.sendMessage_get
  obtain ⟨requests, hwritten, hreads⟩ := h.written
  have hsmall : s.requestId < 33 := by
    rw [h.requestId]
    exact Nat.mod_lt _ (by decide)
  rw [hsend]
  refine ⟨h.port, ?_, ⟨requests ++ [getRequest s.requestId], ?_, ?_⟩, h.shown⟩
  · have hid := h.requestId
    change (if s.requestId = 32 then 0 else s.requestId + 1) = (t.requests + 1) % 33
    split <;> omega
  · simp only [hwritten, List.flatMap_append, List.flatMap_cons, List.flatMap_nil, List.append_nil]
  · rw [List.map_append, hreads, List.range_succ, List.map_append, List.map_singleton,
      List.map_singleton, readRequest_getRequest hsmall, h.requestId]

/-- An answer is taken off the port, and shown if its check is right. -/
theorem AscRefines.receive (h : AscRefines s t) {a : Answer} {waiting : List Answer}
    (hwaiting : t.waiting = a :: waiting) (stack : AscStack) :
    ∃ s', s.receiveMessage stack = some s' ∧ AscRefines s' (t.step (.turn stack)) := by
  have hport : s.port = a.wire ++ waiting.flatMap Answer.wire := by
    rw [h.port, hwaiting, List.flatMap_cons]
  obtain ⟨r, hr, hrest, hheld, hhanded⟩ :=
    receiveMessage_answer a (waiting.flatMap Answer.wire) stack.stale stack.buf
  rw [AscGet.receiveMessage, hport, hr, Option.bind_some, hhanded]
  simp only [AscSession.step, hwaiting]
  by_cases hchecked : a.Checked
  · obtain ⟨p, record, hp, hpublished, hsource, hgroups⟩ :=
      a.response.published (Mem.behind_holds hheld) stack.asc
    simp only [if_pos hchecked, hp, Option.map_some, hpublished, hrest]
    exact ⟨_, rfl, rfl, h.requestId, h.written, hsource, hgroups⟩
  · simp only [if_neg hchecked, hrest]
    exact ⟨_, rfl, rfl, h.requestId, h.written, h.shown⟩

theorem Answer.wire_ne_nil (a : Answer) : a.wire ≠ [] := by
  simp [Answer.wire]

/-- Each step of the program is the session's. -/
theorem AscRefines.step (h : AscRefines s t) (e : AscEvent) :
    ∃ s', s.step e = some s' ∧ AscRefines s' (t.step e) := by
  cases e with
  | arrive a =>
      refine ⟨_, rfl, ?_, h.requestId, h.written, h.shown⟩
      simp only [h.port, AscSession.step, List.flatMap_append, List.flatMap_cons, List.flatMap_nil,
        List.append_nil]
  | turn stack =>
      simp only [AscGet.step, AscGet.turn]
      cases hwaiting : t.waiting with
      | nil =>
          have hsilent : s.port = [] := by rw [h.port, hwaiting, List.flatMap_nil]
          have hturn : t.step (.turn stack) = { t with requests := t.requests + 1 } := by
            simp only [AscSession.step, hwaiting]
          rw [if_pos hsilent, hturn]
          exact ⟨_, rfl, h.request⟩
      | cons a waiting =>
          have hheard : ¬ s.port = [] := by
            rw [h.port, hwaiting, List.flatMap_cons]
            exact List.append_ne_nil_of_left_ne_nil a.wire_ne_nil _
          rw [if_neg hheard]
          exact h.receive hwaiting stack

end Refinement

/-- Before the loop; with `-i 1`, which is the default, a request is sent first. -/
def startAscGet (initiator : Bool) (msgBuf : Mem Byte) : AscGet :=
  let s : AscGet := { requestId := 0, msgBuf := msgBuf, port := [], written := [], record := none }
  if initiator then s.sendMessage false else s

def startSession (initiator : Bool) : AscSession where
  waiting := []
  requests := if initiator then 1 else 0
  shown := none

theorem startAscGet_refines (initiator : Bool) (msgBuf : Mem Byte) :
    AscRefines (startAscGet initiator msgBuf) (startSession initiator) := by
  have hstart : AscRefines
      { requestId := 0, msgBuf := msgBuf, port := [], written := [], record := none }
      { waiting := [], requests := 0, shown := none } :=
    ⟨rfl, rfl, ⟨[], rfl, rfl⟩, trivial⟩
  cases initiator with
  | false => exact hstart
  | true =>
      simp only [startAscGet, startSession, if_true]
      exact hstart.request

/-- **The program runs its session**: whatever answers come in, with noise between them or a
wrong check, and in whatever order the loop makes its turns, it never gets stuck, each
request it sends is a whole frame with the next number, and the database shows what the last
answer with a right check said of each group. -/
theorem ascGet_refines (initiator : Bool) (msgBuf : Mem Byte) (es : List AscEvent) :
    ∃ s, es.foldlM AscGet.step (startAscGet initiator msgBuf) = some s ∧
      AscRefines s (es.foldl AscSession.step (startSession initiator)) := by
  have hrun : ∀ (es : List AscEvent) (s : AscGet) (t : AscSession), AscRefines s t →
      ∃ s', es.foldlM AscGet.step s = some s' ∧ AscRefines s' (es.foldl AscSession.step t) := by
    intro es
    induction es with
    | nil => exact fun s t h => ⟨s, rfl, h⟩
    | cons e es ih =>
        intro s t h
        obtain ⟨s', hs', h'⟩ := h.step e
        obtain ⟨s'', hs'', h''⟩ := ih s' (t.step e) h'
        exact ⟨s'', by rw [List.foldlM_cons, hs']; exact hs'', h''⟩
  exact hrun es _ _ (startAscGet_refines initiator msgBuf)

end RfsAtsc
