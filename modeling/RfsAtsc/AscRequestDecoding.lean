import RfsAtsc.AscRequests
import RfsAtsc.BerDecoding

/-!
# Reading the requests back

A strict reader of an SNMP request takes every element for what its length says, and wants
each sequence filled to its end.  It reads a get request back as the list that was asked
for.  A set request it reads back only when the list is empty: the length of an object is
one short of its value.
-/

namespace RfsAtsc

open TracedMemory BerEncoding

/-! ## A reader -/

/-- The value that comes with an object. -/
inductive ObjectValue where
  | null
  | integer (v : Int)
deriving DecidableEq

/-- A request, as an agent reads it. -/
structure SnmpRequest where
  version : Int
  community : List Byte
  pduType : Byte
  requestId : Int
  errorStatus : Int
  errorIndex : Int
  bindings : List (List Byte × ObjectValue)
deriving DecidableEq

/-- A value, and nothing behind it. -/
def readValue (input : List Byte) : Option ObjectValue := do
  let e ← readElement input
  if e.rest ≠ [] then none
  else if e.tag = SNMP_NULL then if e.content = [] then some .null else none
  else if e.tag = SNMP_INTEGER then (intValue e.content).map .integer
  else none

/-- An object identifier and its value, and what comes behind the two. -/
def readBinding (input : List Byte) : Option ((List Byte × ObjectValue) × List Byte) := do
  let (content, rest) ← readTagged SNMP_SEQUENCE input
  let (oid, valueBytes) ← readTagged SNMP_OBJECT_ID content
  let value ← readValue valueBytes
  some ((oid, value), rest)

/-- Bindings that fill their sequence. -/
def readBindings (content : List Byte) : Option (List (List Byte × ObjectValue)) :=
  readAll readBinding content.length content

/-- A whole request, and nothing behind it at any level. -/
def readRequest (input : List Byte) : Option SnmpRequest := do
  let (message, behindMessage) ← readTagged SNMP_SEQUENCE input
  let (version, message) ← readInteger message
  let (community, message) ← readTagged SNMP_OCTET_STR message
  let pdu ← readElement message
  let (requestId, content) ← readInteger pdu.content
  let (errorStatus, content) ← readInteger content
  let (errorIndex, content) ← readInteger content
  let (list, behindList) ← readTagged SNMP_SEQUENCE content
  let bindings ← readBindings list
  if behindMessage = [] ∧ pdu.rest = [] ∧ behindList = [] then
    some { version := version, community := community, pduType := pdu.tag,
           requestId := requestId, errorStatus := errorStatus, errorIndex := errorIndex,
           bindings := bindings }
  else none

/-- The request that a builder is asked for. -/
def intendedRequest (pduType requestId : Byte) (bindings : List (List Byte × ObjectValue)) :
    SnmpRequest where
  version := 0
  community := communityName
  pduType := pduType
  requestId := requestId.toNat
  errorStatus := 0
  errorIndex := 0
  bindings := bindings

/-- The identifier under the prefix. -/
def AscSetOid.name (oid : AscSetOid) : List Byte :=
  ascOidPrefix.take ASC_PREFIX_LENGTH ++ oid.suffix

/-! ## Requests -/

/-- **A request is read back as the bindings in its objects, or not at all.** -/
theorem readRequest_requestBytes (pduType : Byte) {requestId : Byte} {objects : List Byte}
    (hid : requestId.toNat < 128) (hlength : objects.length + 28 < 65536) :
    readRequest (requestBytes pduType requestId objects) =
      (readBindings objects).map (intendedRequest pduType requestId) := by
  have hlist : LenForm.long2.Fits objects.length := show _ < 65536 by omega
  have hpdu : LenForm.long2.Fits (pduContent requestId objects).length :=
    show _ < 65536 by rw [pduContent_length]; omega
  have hmessage : LenForm.long2.Fits (messageContent pduType requestId objects).length :=
    show _ < 65536 by rw [messageContent_length]; omega
  have hcommunity : LenForm.short.Fits communityName.length := show 6 < 128 by decide
  have hpduRead := readElement_tlv pduType hpdu []
  rw [List.append_nil] at hpduRead
  have hinteger (b : Byte) (rest : List Byte) :
      readInteger (tlv SNMP_INTEGER .short [b] ++ rest) = some (b.toInt, rest) :=
    readInteger_byte b rest
  have hzero : (0 : Byte).toInt = 0 := by decide
  have hfront : readTagged SNMP_SEQUENCE (requestBytes pduType requestId objects) =
      some (messageContent pduType requestId objects, []) :=
    readTagged_tlv_nil SNMP_SEQUENCE hmessage
  simp only [readRequest, hfront, Option.bind_eq_bind, Option.bind_some]
  simp only [messageContent, hinteger, readTagged_tlv SNMP_OCTET_STR hcommunity, hpduRead,
    Option.bind_some]
  simp only [pduContent, hinteger, readTagged_tlv_nil SNMP_SEQUENCE hlist, Option.bind_some, hzero,
    toInt_of_short hid, and_self, if_true]
  cases readBindings objects with
  | none => rfl
  | some bindings => rfl

/-! ## Objects -/

theorem AscSetOid.name_length (oid : AscSetOid) : oid.name.length = 10 + oid.idLength := by
  rw [name, List.length_append, AscOid.suffix_length]
  rfl

section Objects

variable (value : AscSetOid → List Byte) {oid : AscSetOid}

/-- An object is a sequence of its name and two bytes of its value, with the rest of the value
behind it. -/
theorem oidBytes_split (hvalue : 2 ≤ (value oid).length) :
    oidBytes value oid =
      tlv SNMP_SEQUENCE .short (tlv SNMP_OBJECT_ID .short oid.name ++ (value oid).take 2) ++
        (value oid).drop 2 := by
  have htwo : ((value oid).take 2).length = 2 := List.length_take_of_le hvalue
  have hcontent : (tlv SNMP_OBJECT_ID .short oid.name ++ (value oid).take 2).length =
      2 + ASC_PREFIX_LENGTH + oid.idLength + 2 := by
    rw [List.length_append, tlv_length, htwo, AscSetOid.name_length]
    simp only [LenForm.width, ASC_PREFIX_LENGTH]
    omega
  rw [tlv, header, hcontent, tlv, header, AscSetOid.name_length, AscSetOid.name, oidBytes]
  simp only [lenBytes, ASC_PREFIX_LENGTH, List.append_assoc, List.cons_append, List.nil_append,
    List.take_append_drop]

/-- So it is read as far as two bytes of its value go. -/
theorem readBinding_oidBytes (hoid : oid.idLength ≤ ASC_MAX_ID)
    (hvalue : 2 ≤ (value oid).length) (rest : List Byte) :
    readBinding (oidBytes value oid ++ rest) =
      (readValue ((value oid).take 2)).map fun v =>
        ((oid.name, v), (value oid).drop 2 ++ rest) := by
  have hname : LenForm.short.Fits oid.name.length :=
    show _ < 128 by rw [AscSetOid.name_length]; simp only [ASC_MAX_ID] at hoid; omega
  have htwo : ((value oid).take 2).length = 2 := List.length_take_of_le hvalue
  have hcontent : LenForm.short.Fits
      (tlv SNMP_OBJECT_ID .short oid.name ++ (value oid).take 2).length := by
    show _ < 128
    rw [List.length_append, tlv_length, htwo, AscSetOid.name_length]
    simp only [ASC_MAX_ID, LenForm.width] at hoid ⊢
    omega
  rw [oidBytes_split value hvalue, List.append_assoc, readBinding,
    readTagged_tlv SNMP_SEQUENCE hcontent]
  simp only [readTagged_tlv SNMP_OBJECT_ID hname, Option.bind_eq_bind, Option.bind_some]
  cases readValue ((value oid).take 2) with
  | none => rfl
  | some v => rfl

theorem oidBytes_ne_nil : oidBytes value oid ≠ [] := by
  simp [oidBytes]

end Objects

/-- **What a builder returns is read back as the objects it put, or not at all.** -/
theorem fmtAscRequest_reads (pduType : Byte) {value : AscSetOid → List Byte}
    (hvalue : ∀ oid, (value oid).length ≤ 3) (buf : Mem Byte) {bufsize : Int} {requestId : Byte}
    {list : List AscSetOid} (hid : requestId.toNat < 128) (hsize : bufsize ≤ 1496)
    {r : FmtResult} (hr : fmtAscRequest pduType value buf bufsize requestId list = r)
    (hret : 0 < r.ret) :
    readRequest (r.buf.take 0 r.ret.toNat) =
      (readBindings (list.flatMap (oidBytes value))).map (intendedRequest pduType requestId) := by
  rw [← hr] at hret ⊢
  obtain ⟨hheader, hfit⟩ :=
    (fmtAscRequest_ret_pos pduType requestId value buf bufsize list).mp hret
  have hholds := fmtAscRequest_holds pduType requestId value buf bufsize list hheader hfit
  have hend := hfit.end_le hvalue (by omega)
  have hlength : (fmtAscRequest pduType value buf bufsize requestId list).ret.toNat =
      (requestBytes pduType requestId (list.flatMap (oidBytes value))).length := by
    rw [fmtAscRequest_of_fit pduType requestId value buf bufsize list hheader hfit,
      requestBytes_length]
    simp only [SNMP_HEADER_SIZE]
    omega
  rw [hlength, (Mem.holds_iff_take _ _ _).mp hholds]
  simp only [SNMP_HEADER_SIZE] at hend
  exact readRequest_requestBytes pduType hid (by omega)

/-- **A get request is read back as the list that was asked for, every value a NULL.** -/
theorem fmtAscGetRequest_decodes (buf : Mem Byte) {bufsize : Int} {requestId : Byte}
    {list : List AscSetOid} (hid : requestId.toNat < 128) (hsize : bufsize ≤ 1496)
    (hlist : ∀ oid ∈ list, oid.idLength ≤ ASC_MAX_ID) {r : FmtResult}
    (hr : fmtAscGetRequest buf bufsize requestId list = r) (hret : 0 < r.ret) :
    readRequest (r.buf.take 0 r.ret.toNat) =
      some (intendedRequest SNMP_GET_REQUEST requestId
        (list.map fun oid => (oid.name, .null))) := by
  have hshort (oid : AscSetOid) : (nullValue oid).length ≤ 3 := by
    rw [nullValue_length]
    decide
  have hreads := fmtAscRequest_reads SNMP_GET_REQUEST hshort buf hid hsize hr hret
  have hone : ∀ oid ∈ list, ∀ rest,
      readBinding (oidBytes nullValue oid ++ rest) = some ((oid.name, .null), rest) :=
    fun oid hoid rest => readBinding_oidBytes nullValue (hlist oid hoid) le_rfl rest
  rw [hreads, readBindings, readAll_flatMap list hone (fun oid _ => oidBytes_ne_nil nullValue)
    (length_le_flatMap list fun oid _ => oidBytes_ne_nil nullValue), Option.map_some]

/-- The request for `get_list` is read back. -/
theorem fmtAscGetRequest_decodes_getList :
    readRequest ((fmtAscGetRequest (Mem.ofList 0 []) 1496 7 getRequestList).buf.take 0
        (fmtAscGetRequest (Mem.ofList 0 []) 1496 7 getRequestList).ret.toNat) =
      some (intendedRequest SNMP_GET_REQUEST 7
        (getRequestList.map fun oid => (oid.name, .null))) :=
  fmtAscGetRequest_decodes (Mem.ofList 0 []) (by decide) (by decide) (by decide) rfl (by decide)

/-- A set request is not read back when it has an object. -/
theorem readBindings_setValue {oid : AscSetOid} {list : List AscSetOid}
    (hoid : oid.idLength ≤ ASC_MAX_ID) :
    readBindings ((oid :: list).flatMap (oidBytes setValue)) = none := by
  have hnone := readBinding_oidBytes setValue hoid (show 2 ≤ 3 by decide)
    (list.flatMap (oidBytes setValue))
  rw [List.flatMap_cons, readBindings]
  exact readAll_of_none (List.append_ne_nil_of_left_ne_nil (oidBytes_ne_nil setValue) _) hnone

/-- **A set request is read back exactly when its list is empty, or when the buffer is too
small for it to be made.** -/
theorem fmtAscSetRequest_decodes_iff (buf : Mem Byte) {bufsize : Int} {requestId : Byte}
    {list : List AscSetOid} (hid : requestId.toNat < 128) (hsize : bufsize ≤ 1496)
    (hlist : ∀ oid ∈ list, oid.idLength ≤ ASC_MAX_ID ∧ oid.val.toNat < 128) {r : FmtResult}
    (hr : fmtAscSetRequest buf bufsize requestId list = r) :
    (0 < r.ret →
      readRequest (r.buf.take 0 r.ret.toNat) =
        some (intendedRequest SNMP_SET_REQUEST requestId
          (list.map fun oid => (oid.name, .integer oid.val.toNat)))) ↔
      list = [] ∨ bufsize < SNMP_HEADER_SIZE ∨
        ¬ OidsFit setValue bufsize SNMP_HEADER_SIZE list := by
  have hpos : 0 < r.ret ↔ SNMP_HEADER_SIZE ≤ bufsize ∧
      OidsFit setValue bufsize SNMP_HEADER_SIZE list := by
    rw [← hr]
    exact fmtAscRequest_ret_pos SNMP_SET_REQUEST requestId setValue buf bufsize list
  have hzero : ¬ 0 < r.ret ↔ bufsize < SNMP_HEADER_SIZE ∨
      ¬ OidsFit setValue bufsize SNMP_HEADER_SIZE list := by
    rw [hpos, not_and_or, not_le]
  rw [← hzero]
  by_cases hret : 0 < r.ret
  · have hreads := fmtAscRequest_reads SNMP_SET_REQUEST (fun oid => (setValue_length oid).le) buf
      hid hsize hr hret
    simp only [hret, forall_const, not_true_eq_false, or_false]
    cases list with
    | nil => exact iff_of_true hreads rfl
    | cons oid list =>
        rw [readBindings_setValue (hlist oid List.mem_cons_self).1] at hreads
        rw [hreads]
        exact iff_of_false (Option.some_ne_none _).symm (List.cons_ne_nil _ _)
  · exact iff_of_true (fun h => absurd h hret) (Or.inr hret)

/-- In a buffer of 1496 bytes that is when the list is empty, so not `set_list`. -/
theorem fmtAscSetRequest_decodes_setList :
    (0 < (fmtAscSetRequest (Mem.ofList 0 []) 1496 7 setList).ret →
      readRequest ((fmtAscSetRequest (Mem.ofList 0 []) 1496 7 setList).buf.take 0
          (fmtAscSetRequest (Mem.ofList 0 []) 1496 7 setList).ret.toNat) =
        some (intendedRequest SNMP_SET_REQUEST 7
          (setList.map fun oid => (oid.name, .integer oid.val.toNat)))) ↔
      setList = [] ∨ (1496 : Int) < SNMP_HEADER_SIZE ∨
        ¬ OidsFit setValue 1496 SNMP_HEADER_SIZE setList :=
  fmtAscSetRequest_decodes_iff (Mem.ofList 0 []) (by decide) (by decide) (by decide) rfl

/-- **The set request for `set_list` is not read back**: the length of its object leaves the
value out. -/
theorem fmtAscSetRequest_misread : ¬ ∀ (buf : Mem Byte) (bufsize : Int) (requestId : Byte)
    (list : List AscSetOid), requestId.toNat < 128 → bufsize ≤ 1496 →
    (∀ oid ∈ list, oid.idLength ≤ ASC_MAX_ID ∧ oid.val.toNat < 128) →
    0 < (fmtAscSetRequest buf bufsize requestId list).ret →
    readRequest ((fmtAscSetRequest buf bufsize requestId list).buf.take 0
        (fmtAscSetRequest buf bufsize requestId list).ret.toNat) =
      some (intendedRequest SNMP_SET_REQUEST requestId
        (list.map fun oid => (oid.name, .integer oid.val.toNat))) := by
  intro h
  have hret : 0 < (fmtAscSetRequest (Mem.ofList 0 []) 1496 7 setList).ret := by decide
  have hbuilt := h (Mem.ofList 0 []) 1496 7 setList (by decide) (by decide) (by decide) hret
  have hreads := fmtAscRequest_reads SNMP_SET_REQUEST (fun oid => (setValue_length oid).le)
    (Mem.ofList 0 []) (by decide) (by decide)
    (r := fmtAscSetRequest (Mem.ofList 0 []) 1496 7 setList) rfl hret
  have hnone : readBindings (setList.flatMap (oidBytes setValue)) = none :=
    readBindings_setValue (by decide)
  rw [hnone] at hreads
  exact Option.some_ne_none _ (hbuilt.symm.trans hreads)

end RfsAtsc
