import RfsAtsc.NtcipParse

/-!
# GetResponse messages

The messages that answer a request for the objects of `get_list`: a SEQUENCE of a
version, a community and a GetResponse, which is a request id, an error status, an
error index and a SEQUENCE of bindings, each a SEQUENCE of an object identifier and
an INTEGER.  Every SEQUENCE and the GetResponse may write their length in any form
that has room for it.  The parser reads each such message to its end.
-/

namespace RfsAtsc

open TracedMemory BerEncoding

/-! ## Messages -/

/-- The content of an INTEGER of one to four bytes. -/
structure IntContent where
  content : List Byte
  content_ne : content ≠ []
  content_le : content.length ≤ 4

/-- The content of an INTEGER between 0 and 255: one byte with a clear top bit, or
two of which the first is zero. -/
structure ByteContent where
  value : Byte
  content : List Byte
  spells : content = [value] ∧ value.toNat < 128 ∨ content = [0, value]

/-- An object identifier in full, without the `0x00` that closes its end. -/
def AscOid.oid (object : AscOid) : List Byte :=
  ascOidPrefix.take ASC_PREFIX_LENGTH ++ object.id.take object.idLength

/-- An object of `get_list` with its value. -/
structure VarBind where
  object : AscOid
  known : object ∈ getList
  value : ByteContent
  form : LenForm

def VarBind.content (b : VarBind) : List Byte :=
  tlv SNMP_OBJECT_ID .short b.object.oid ++ tlv SNMP_INTEGER .short b.value.content

def VarBind.bytes (b : VarBind) : List Byte := tlv SNMP_SEQUENCE b.form b.content

/-- What a message says, and the form of each of its lengths. -/
structure ResponseFields where
  version : IntContent
  community : List Byte
  requestId : IntContent
  errorStatus : IntContent
  errorIndex : IntContent
  binds : List VarBind
  messageForm : LenForm
  pduForm : LenForm
  listForm : LenForm

def ResponseFields.listContent (r : ResponseFields) : List Byte := r.binds.flatMap VarBind.bytes

def ResponseFields.pduContent (r : ResponseFields) : List Byte :=
  tlv SNMP_INTEGER .short r.requestId.content ++
    (tlv SNMP_INTEGER .short r.errorStatus.content ++
      (tlv SNMP_INTEGER .short r.errorIndex.content ++
        tlv SNMP_SEQUENCE r.listForm r.listContent))

def ResponseFields.messageContent (r : ResponseFields) : List Byte :=
  tlv SNMP_INTEGER .short r.version.content ++
    (tlv SNMP_OCTET_STR .short r.community ++ tlv SNMP_GET_RESPONSE r.pduForm r.pduContent)

def ResponseFields.bytes (r : ResponseFields) : List Byte :=
  tlv SNMP_SEQUENCE r.messageForm r.messageContent

/-- A message with at least one binding, whose community has a short length and
whose other lengths fit their forms. -/
structure GetResponse extends ResponseFields where
  community_short : community.length < 128
  binds_ne : binds ≠ []
  list_fits : listForm.Fits toResponseFields.listContent.length
  pdu_fits : pduForm.Fits toResponseFields.pduContent.length
  message_fits : messageForm.Fits toResponseFields.messageContent.length

/-- The content of a number has a short length. -/
theorem IntContent.short (v : IntContent) : v.content.length < 128 :=
  Nat.lt_of_le_of_lt v.content_le (by decide)

/-- The content of a byte takes two bytes at most. -/
theorem ByteContent.length_le (v : ByteContent) : v.content.length ≤ 2 := by
  rcases v.spells with ⟨h, -⟩ | h <;> simp [h]

/-- The byte that the parser keeps of a value is the value. -/
theorem ByteContent.low (v : ByteContent) : (bigEndian 32 v.content).setWidth 8 = v.value := by
  rcases v.spells with ⟨h, -⟩ | h
  · rw [h]
    exact bigEndian_concat_low (by decide) [] v.value
  · rw [h]
    exact bigEndian_concat_low (by decide) [0] v.value

/-! ## The objects of `get_list` -/

/-- The groups of `atsc_typ` that the parser fills. -/
inductive StatusGroup where
  | reds
  | yellows
  | greens
  | ons
  | next
deriving DecidableEq

/-- The object identifier of a group, 1.3.6.1.4.1.1206.4.2.1.1.4.1.n.1. -/
def StatusGroup.oid (group : StatusGroup) : List Byte :=
  let column : Byte := match group with
    | .reds => 2
    | .yellows => 3
    | .greens => 4
    | .ons => 10
    | .next => 11
  [0x2b, 0x06, 0x01, 0x04, 0x01, 0x89, 0x36, 0x04, 0x02, 0x01, 0x01, 0x04, 0x01, column, 0x01]

/-- The array of a group. -/
def Atsc.status (asc : Atsc) : StatusGroup → Mem Byte
  | .reds => asc.phaseStatusReds
  | .yellows => asc.phaseStatusYellows
  | .greens => asc.phaseStatusGreens
  | .ons => asc.phaseStatusOns
  | .next => asc.phaseStatusNext

/-- The last value that the bindings give for an object, `d` if they give none. -/
def lastValue (binds : List VarBind) (oid : List Byte) (d : Byte) : Byte :=
  match (binds.filter fun b => b.object.oid = oid).getLast? with
  | some b => b.value.value
  | none => d

/-- A binding's value stays unless a later one has the same object. -/
theorem lastValue_cons (b : VarBind) (binds : List VarBind) (oid : List Byte) (d : Byte) :
    lastValue (b :: binds) oid d =
      lastValue binds oid (if b.object.oid = oid then b.value.value else d) := by
  by_cases h : b.object.oid = oid
  · cases hlast : (binds.filter fun b => b.object.oid = oid).getLast? with
    | none => simp [lastValue, h, hlast, List.getLast?_cons]
    | some last => simp [lastValue, h, hlast, List.getLast?_cons]
  · simp [lastValue, h]

/-- The identifiers of the list are fifteen bytes long. -/
private theorem getList_lengths :
    ∀ object ∈ getList, object.oid.length = 15 ∧ (object.id.take object.idLength).length = 5 := by
  decide

/-- So the identifier of a binding has a short length. -/
theorem VarBind.oid_short (b : VarBind) : b.object.oid.length < 128 := by
  rw [(getList_lengths b.object b.known).1]
  decide

/-- What a binding holds always has a short length. -/
theorem VarBind.content_bounds (b : VarBind) :
    b.content.length < 128 ∧ 0 < b.content.length := by
  have hoid := (getList_lengths b.object b.known).1
  have hvalue := b.value.length_le
  simp only [VarBind.content, List.length_append, tlv_length, LenForm.width]
  omega

/-- The objects of the list are of the first instance. -/
private theorem getList_instance :
    ∀ object ∈ getList, (object.id.getD (object.idLength - 1) 0).toNat = 1 := by
  decide

/-- Their types are known. -/
private theorem getList_type : ∀ object ∈ getList, object.type ≠ UNKNOWN_OBJECT_TYPE := by
  decide

/-- The search finds each object of the list by its own end. -/
private theorem getList_find :
    ∀ object ∈ getList, getList.find? (fun oid =>
      strncmpEq 255 (object.id.take object.idLength ++ [0]) oid.id) = some object := by
  decide

/-- An entry is kept under its own object identifier, and under no other. -/
theorem storeGroupEntry_status {object : AscOid} (hknown : object ∈ getList) (val : Byte)
    (asc : Atsc) (group : StatusGroup) :
    ((storeGroupEntry object.type 1 val asc).status group).cell 0 =
      if object.oid = group.oid then val else (asc.status group).cell 0 := by
  simp only [getList, List.mem_cons, List.not_mem_nil, or_false] at hknown
  rcases hknown with rfl | rfl | rfl | rfl | rfl | rfl <;> cases group <;> rfl

/-- Every group starts at zero. -/
theorem zeroAtsc_status (asc : Atsc) (group : StatusGroup) :
    ((zeroAtsc asc).status group).cell 0 = 0 := by
  have hzero : ∀ m : Mem Byte, (zeroGroup MAX_PHASE_STATUS_GROUPS m).cell 0 = 0 :=
    fun m => (m.write_holds 0 (List.replicate MAX_PHASE_STATUS_GROUPS 0)).1
  cases group <;> exact hzero _

/-! ## Reading a message -/

section Reading

variable {buf : Mem Byte} {byteCount : Int} {c : Cursor} {rest : List Byte}

/-- The identifier of an object of the list is recognised. -/
theorem parseOid_spec {object : AscOid} (hknown : object ∈ getList)
    (h : Ahead buf byteCount c (tlv SNMP_OBJECT_ID .short object.oid ++ rest)) :
    (parseOid buf c getList).type = object.type ∧ (parseOid buf c getList).inst = 1 ∧
      Ahead buf byteCount (parseOid buf c getList).cursor rest := by
  obtain ⟨hlength, hsuffix⟩ := getList_lengths object hknown
  have htag : buf.cell c.i = SNMP_OBJECT_ID := h.cell
  have hcount : (buf.cell c.next.i).toNat - ASC_PREFIX_LENGTH =
      (object.id.take object.idLength).length := by
    rw [h.next.cell, hlength, hsuffix]
    rfl
  have hoid : Ahead buf byteCount c.next.next
      (ascOidPrefix.take ASC_PREFIX_LENGTH ++ (object.id.take object.idLength ++ rest)) := by
    rw [← List.append_assoc]
    exact h.next.next
  obtain ⟨hname, hahead⟩ := readName_spec (ascOidPrefix.take ASC_PREFIX_LENGTH) 0 hoid
  obtain ⟨hend, hrest⟩ := readName_spec (object.id.take object.idLength) 0 hahead
  have hprefix : ¬ ¬ strncmpEq 255 (ascOidPrefix.take ASC_PREFIX_LENGTH ++ [0]) ascOidPrefix := by
    decide
  have hparse : parseOid buf c getList =
      { type := object.type, inst := 1,
        cursor := (readName buf (object.id.take object.idLength).length 0
          (readName buf (ascOidPrefix.take ASC_PREFIX_LENGTH).length 0 c.next.next).2).2 } := by
    have hten : (ascOidPrefix.take ASC_PREFIX_LENGTH).length = ASC_PREFIX_LENGTH := rfl
    rw [hten] at hname hend ⊢
    simp only [parseOid]
    rw [if_neg (not_not_intro htag), hname, if_neg hprefix, hcount, hend,
      getList_find object hknown]
    simp only [getList_instance object hknown, Nat.cast_one]
  rw [hparse]
  exact ⟨rfl, rfl, hrest⟩

/-- A binding ahead is read, and its value kept under its object identifier. -/
theorem parseAscObject_spec (b : VarBind) (asc : Atsc)
    (h : Ahead buf byteCount c (b.bytes ++ rest)) :
    (parseAscObject buf c byteCount getList asc).ret = 1 ∧
      Ahead buf byteCount (parseAscObject buf c byteCount getList asc).cursor rest ∧
      ∀ group, ((parseAscObject buf c byteCount getList asc).asc.status group).cell 0 =
        if b.object.oid = group.oid then b.value.value else (asc.status group).cell 0 := by
  have hlength := b.content_bounds
  have hbytes : b.bytes ++ rest = header SNMP_SEQUENCE b.form b.content.length ++
      (tlv SNMP_OBJECT_ID .short b.object.oid ++
        (tlv SNMP_INTEGER .short b.value.content ++ rest)) := by
    simp [VarBind.bytes, tlv, VarBind.content]
  rw [hbytes] at h
  have hroom : b.content.length ≤ (tlv SNMP_OBJECT_ID .short b.object.oid ++
      (tlv SNMP_INTEGER .short b.value.content ++ rest)).length := by
    simp [VarBind.content]
  obtain ⟨hcount, hcontent⟩ := getSequenceCount_spec (Or.inl rfl)
    (b.form.fits_of_lt hlength.1) hlength.2 hroom h
  obtain ⟨htype, hinst, hvalue⟩ := parseOid_spec b.known hcontent
  obtain ⟨hval, hrest⟩ := getIntegerVal_spec
    (Nat.lt_of_le_of_lt b.value.length_le (by decide)) hvalue
  have hknown : (parseOid buf (getSequenceCount buf c byteCount).2 getList).type ≠
      UNKNOWN_OBJECT_TYPE := by
    rw [htype]
    exact getList_type b.object b.known
  simp only [parseAscObject, parseAscIntegerGroupEntry]
  rw [if_neg hcount, if_neg hknown]
  refine ⟨rfl, hrest, ?_⟩
  intro group
  simp only [hval, htype, hinst, b.value.low]
  exact storeGroupEntry_status b.known _ asc group

/-- **The loop over the objects reads every binding, and keeps the last value of each
group.** -/
theorem parseAscObjects_spec (binds : List VarBind) (fuel : Nat) (asc : Atsc) {p : ObjectParse}
    (h : Ahead buf byteCount c (binds.flatMap VarBind.bytes))
    (hparse : parseAscObjects buf byteCount getList fuel c asc = some p) :
    p.ret = 1 ∧ ∀ group, (p.asc.status group).cell 0 =
      lastValue binds group.oid ((asc.status group).cell 0) := by
  induction binds generalizing fuel c asc with
  | nil =>
      have hends := h.ends
      have hout : ¬ c.i < byteCount := by
        simp at hends
        omega
      have hdone : p = { ret := 1, cursor := c, asc := asc } := by
        cases fuel <;> simpa [parseAscObjects, hout, eq_comm] using hparse
      subst hdone
      exact ⟨rfl, fun group => rfl⟩
  | cons b binds ih =>
      rw [List.flatMap_cons] at h
      obtain ⟨hret, hrest, hstatus⟩ := parseAscObject_spec b asc h
      have hin : c.i < byteCount := by
        have hends := h.ends
        simp only [VarBind.bytes, List.length_append, tlv_length] at hends
        push_cast at hends
        omega
      cases fuel with
      | zero => simp [parseAscObjects, hin] at hparse
      | succ fuel =>
          have hne : (parseAscObject buf c byteCount getList asc).ret ≠ 0 := by
            rw [hret]
            decide
          simp only [parseAscObjects, if_pos hin, if_neg hne] at hparse
          obtain ⟨hp, hgroups⟩ := ih fuel _ hrest hparse
          refine ⟨hp, ?_⟩
          intro group
          rw [hgroups, hstatus, lastValue_cons]

end Reading

/-- **A GetResponse is parsed to its end.**  `parse_asc_get_response` returns one, and
the record it publishes has in element 0 of each group the last value that the
message gives for it, or zero; nothing is asked of the buffer behind the message, or
of the record before. -/
theorem parseAscGetResponse_complete (g : GetResponse) (buf : Mem Byte) (asc : Atsc)
    (hbuf : buf.Holds 0 g.bytes) :
    ∃ r, parseAscGetResponse buf g.bytes.length getList asc = some r ∧ r.ret = 1 ∧
      ∃ published, r.published = some published ∧
        ∀ group, (published.status group).cell 0 = lastValue g.binds group.oid 0 := by
  have hpos : 0 < g.listContent.length := by
    obtain ⟨b, binds, hbinds⟩ := List.exists_cons_of_ne_nil g.binds_ne
    simp [ResponseFields.listContent, hbinds, VarBind.bytes]
  have hlong : g.bytes.length < 2 ^ 31 := by
    have := g.message_fits.lt
    simp only [ResponseFields.bytes, tlv_length]
    cases g.messageForm <;> simp only [LenForm.width] <;> omega
  have hstart : Ahead buf g.bytes.length Cursor.start
      (header SNMP_SEQUENCE g.messageForm g.messageContent.length ++ g.messageContent) :=
    ⟨hbuf, by simp [ResponseFields.bytes, tlv], hlong⟩
  obtain ⟨hmessage, hversion⟩ := getSequenceCount_spec (Or.inl rfl) g.message_fits
    (by simp [ResponseFields.messageContent]) le_rfl hstart
  obtain ⟨hversionRet, hcommunity⟩ := readVersionNumber_spec g.version.short hversion
  obtain ⟨hcommunityRet, hpdu⟩ := readCommunityName_spec g.community_short hcommunity
  obtain ⟨hpduCount, hstatus⟩ := getSequenceCount_spec (Or.inr rfl) g.pdu_fits
    (by simp [ResponseFields.pduContent]) le_rfl (hpdu.same (Cursor.read_i _))
  obtain ⟨hstatusRet, hlist⟩ := readRequestStatus_spec g.requestId.short g.errorStatus.short
    g.errorIndex.short hstatus
  obtain ⟨hlistCount, hbinds⟩ := getSequenceCount_spec (Or.inl rfl) g.list_fits hpos le_rfl hlist
  obtain ⟨r, hr⟩ := Option.isSome_iff_exists.mp
    (parseAscGetResponse_isSome buf g.bytes.length getList asc)
  refine ⟨r, hr, ?_⟩
  simp only [parseAscGetResponse] at hr
  rw [if_neg hmessage, if_neg (by simp [hversionRet]), if_neg (by simp [hcommunityRet]),
    if_neg (not_not_intro hpdu.cell), if_neg hpduCount, if_neg (by simp [hstatusRet]),
    if_neg hlistCount, parseBindings, Option.map_eq_some_iff] at hr
  obtain ⟨p, hp, rfl⟩ := hr
  obtain ⟨hret, hgroups⟩ := parseAscObjects_spec g.binds _ _ hbinds hp
  rw [if_neg (by simp [hret])]
  refine ⟨rfl, _, rfl, ?_⟩
  intro group
  have hgroup := hgroups group
  rw [zeroAtsc_status] at hgroup
  rw [← hgroup]
  cases group <;> rfl

/-- The content of an INTEGER of one byte. -/
def IntContent.ofByte (b : Byte) : IntContent where
  content := [b]
  content_ne := by simp
  content_le := by simp

/-- Two bindings for the reds, the second in two bytes, and one for the number of the
group. -/
def redsTwice : GetResponse where
  version := .ofByte 0
  community := [0x70, 0x75, 0x62]
  requestId := .ofByte 7
  errorStatus := .ofByte 0
  errorIndex := .ofByte 0
  binds :=
    [{ object := getList[1], known := by decide, form := .short,
       value := { value := 0x22, content := [0x22], spells := by decide } },
     { object := getList[0], known := by decide, form := .long1,
       value := { value := 0x01, content := [0x01], spells := by decide } },
     { object := getList[1], known := by decide, form := .long2,
       value := { value := 0x88, content := [0x00, 0x88], spells := by decide } }]
  messageForm := .long1
  pduForm := .long2
  listForm := .short
  community_short := by decide
  binds_ne := by simp
  list_fits := by decide
  pdu_fits := by decide
  message_fits := by decide

/-- A record of the stack. -/
def blankAtsc : Atsc where
  vehicleDetectorStatus := Mem.ofList 0xff []
  phaseStatusReds := Mem.ofList 0xff []
  phaseStatusYellows := Mem.ofList 0xff []
  phaseStatusGreens := Mem.ofList 0xff []
  phaseStatusOns := Mem.ofList 0xff []
  phaseStatusNext := Mem.ofList 0xff []
  infoSource := 0

/-- Of two bindings of the reds the last one counts. -/
theorem parseAscGetResponse_complete_redsTwice :
    lastValue redsTwice.binds StatusGroup.reds.oid 0 = 0x88 ∧
    lastValue redsTwice.binds StatusGroup.greens.oid 0 = 0 ∧
    ∃ r, parseAscGetResponse (Mem.ofList 0xff redsTwice.bytes) redsTwice.bytes.length getList
        blankAtsc = some r ∧ r.ret = 1 ∧
      ∃ published, r.published = some published ∧
        ∀ group, (published.status group).cell 0 = lastValue redsTwice.binds group.oid 0 :=
  ⟨by decide, by decide,
    parseAscGetResponse_complete redsTwice _ blankAtsc (Mem.ofList_holds 0xff redsTwice.bytes)⟩

end RfsAtsc
