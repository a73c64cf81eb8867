import RfsAtsc.NtcipParse
import RfsAtsc.TableCrc

/-!
# Requests to the controller

`fmt_asc_get_request` and `fmt_asc_set_request` put a list of objects into a buffer behind
a header of 32 bytes, and put the three byte counts of the header in when they have come to
the end.  The second is a copy of the first with a longer value.  What they store is given
as a whole here, whether they come to an end or run out of room.
-/

namespace RfsAtsc

open TracedMemory BerEncoding TableCrc

/-! ## The builders -/

def SNMP_NULL : Byte := 0x05
def SNMP_GET_REQUEST : Byte := 0xa0
def SNMP_SET_REQUEST : Byte := 0xa3

def SNMP_HEADER_SIZE : Nat := 32
def ASC_MAX_ID : Nat := 6

def PREEMPT_CONTROL_STATE : Int := 9

/-- `"public"`. -/
def communityName : List Byte := [0x70, 0x75, 0x62, 0x6c, 0x69, 0x63]

/-- `asc_oid` with the value that a set request sends. -/
structure AscSetOid extends AscOid where
  val : BitVec 32
deriving DecidableEq

/-- `get_list`, with the values that a get request does not send. -/
def getRequestList : List AscSetOid :=
  getList.map fun oid => { toAscOid := oid, val := 0 }

/-- `set_list`. -/
def setList : List AscSetOid :=
  [{ id := [0x06, 0x03, 0x01, 0x02, 0x01, 0x00], idLength := 5,
     type := PREEMPT_CONTROL_STATE, val := 0 }]

/-- The `id_length` bytes from `id` on. -/
def AscOid.suffix (oid : AscOid) : List Byte :=
  (List.range oid.idLength).map fun k => oid.id.getD k 0

/-- `buf`, and the index `i` into it. -/
structure FmtBuf where
  buf : Mem Byte
  i : Int

/-- `buf[i++] = b;` for one byte after the other.  A `memcpy` to `&buf[i]` before an
`i += n` does the same. -/
def FmtBuf.put (o : FmtBuf) (bs : List Byte) : FmtBuf where
  buf := o.buf.write o.i bs
  i := o.i + bs.length

/-- `i += n;` -/
def FmtBuf.skip (o : FmtBuf) (n : Int) : FmtBuf where
  buf := o.buf
  i := o.i + n

/-- `count_size`. -/
def COUNT_SIZE : Nat := 2

/-- `SNMP_MULTI_BYTE_COUNT | count_size`. -/
def multiByteCount : Byte := SNMP_MULTI_BYTE_COUNT ||| BitVec.ofNat 8 COUNT_SIZE

/-- The buffer behind the header, and where its counts are to come. -/
structure FmtHeader where
  out : FmtBuf
  pduByteCountIndex : Int
  getRequestByteCountIndex : Int
  sequenceByteCountIndex : Int

/-- The header, its counts left out. -/
def fmtHeader (pduType requestId : Byte) (buf : Mem Byte) : FmtHeader :=
  let o := FmtBuf.put { buf := buf, i := 0 } [SNMP_SEQUENCE, multiByteCount]
  let pduByteCountIndex := o.i
  let o := (o.skip COUNT_SIZE).put [SNMP_INTEGER, 1, 0]
  let o := o.put [SNMP_OCTET_STR, BitVec.ofNat 8 communityName.length]
  let o := (o.put communityName).put [pduType, multiByteCount]
  let getRequestByteCountIndex := o.i
  let o := (o.skip COUNT_SIZE).put [SNMP_INTEGER, 1, requestId]
  let o := (o.put [SNMP_INTEGER, 1, 0]).put [SNMP_INTEGER, 1, 0]
  let o := o.put [SNMP_SEQUENCE, multiByteCount]
  { out := o.skip COUNT_SIZE
    pduByteCountIndex := pduByteCountIndex
    getRequestByteCountIndex := getRequestByteCountIndex
    sequenceByteCountIndex := o.i }

/-- One object.  Its first count has two bytes for the value, whatever that is. -/
def FmtBuf.putOid (o : FmtBuf) (oid : AscOid) (value : List Byte) : FmtBuf :=
  let o := o.put [SNMP_SEQUENCE, BitVec.ofNat 8 (2 + ASC_PREFIX_LENGTH + oid.idLength + 2)]
  let o := o.put [SNMP_OBJECT_ID, BitVec.ofNat 8 (ASC_PREFIX_LENGTH + oid.idLength)]
  let o := o.put (ascOidPrefix.take ASC_PREFIX_LENGTH)
  (o.put oid.suffix).put value

/-- The loop over the objects: whether there was room for them all, and the buffer. -/
def fmtOids (value : AscSetOid → List Byte) (bufsize : Int) :
    List AscSetOid → FmtBuf → Bool × FmtBuf
  | [], o => (true, o)
  | oid :: list, o =>
      if o.i + oid.idLength + ASC_PREFIX_LENGTH + 4 > bufsize then (false, o)
      else fmtOids value bufsize list (o.putOid oid.toAscOid (value oid))

/-- `store_byte_count`, with `HIGH_BYTE` and `LOW_BYTE` of the count. -/
def storeByteCount (buf : Mem Byte) (index : Int) (countSize : Nat) (byteCount : Int) :
    Mem Byte :=
  if countSize = 1 then buf.store index (BitVec.ofInt 8 byteCount)
  else if countSize = 2 then
    (buf.store index (highByte (BitVec.ofInt 16 byteCount))).store (index + 1)
      (lowByte (BitVec.ofInt 16 byteCount))
  else buf

/-- What a builder returns, and leaves in the buffer. -/
structure FmtResult where
  ret : Int
  buf : Mem Byte

/-- The text that the two builders share. -/
def fmtAscRequest (pduType : Byte) (value : AscSetOid → List Byte) (buf : Mem Byte)
    (bufsize : Int) (requestId : Byte) (list : List AscSetOid) : FmtResult :=
  if bufsize < SNMP_HEADER_SIZE then { ret := 0, buf := buf }
  else
    let header := fmtHeader pduType requestId buf
    let oids := fmtOids value bufsize list header.out
    if oids.1 then
      let i := oids.2.i
      let buf := oids.2.buf
      let buf := storeByteCount buf header.pduByteCountIndex COUNT_SIZE
        (i - (header.pduByteCountIndex + COUNT_SIZE))
      let buf := storeByteCount buf header.getRequestByteCountIndex COUNT_SIZE
        (i - (header.getRequestByteCountIndex + COUNT_SIZE))
      let buf := storeByteCount buf header.sequenceByteCountIndex COUNT_SIZE
        (i - (header.sequenceByteCountIndex + COUNT_SIZE))
      { ret := i, buf := buf }
    else { ret := 0, buf := oids.2.buf }

/-- A NULL. -/
def nullValue (_ : AscSetOid) : List Byte := [SNMP_NULL, 0]

/-- An INTEGER of one byte. -/
def setValue (oid : AscSetOid) : List Byte := [SNMP_INTEGER, 1, oid.val.setWidth 8]

/-- `fmt_asc_get_request`. -/
def fmtAscGetRequest (buf : Mem Byte) (bufsize : Int) (requestId : Byte)
    (list : List AscSetOid) : FmtResult :=
  fmtAscRequest SNMP_GET_REQUEST nullValue buf bufsize requestId list

/-- `fmt_asc_set_request`. -/
def fmtAscSetRequest (buf : Mem Byte) (bufsize : Int) (requestId : Byte)
    (list : List AscSetOid) : FmtResult :=
  fmtAscRequest SNMP_SET_REQUEST setValue buf bufsize requestId list

/-- A NULL is two bytes. -/
theorem nullValue_length (oid : AscSetOid) : (nullValue oid).length = 2 := rfl

/-- The value of a request to set is three. -/
theorem setValue_length (oid : AscSetOid) : (setValue oid).length = 3 := rfl

/-- An identifier's end is as long as it says. -/
@[simp] theorem AscOid.suffix_length (oid : AscOid) : oid.suffix.length = oid.idLength := by
  rw [suffix, List.length_map, List.length_range]

/-- Two stores one behind the other are one. -/
theorem FmtBuf.put_put (o : FmtBuf) (xs ys : List Byte) :
    (o.put xs).put ys = o.put (xs ++ ys) := by
  rw [put, put, put, Mem.write_append, List.length_append, Nat.cast_add, add_assoc]

/-! ## The objects -/

/-- The bytes of an object. -/
def oidBytes (value : AscSetOid → List Byte) (oid : AscSetOid) : List Byte :=
  [SNMP_SEQUENCE, BitVec.ofNat 8 (2 + ASC_PREFIX_LENGTH + oid.idLength + 2),
    SNMP_OBJECT_ID, BitVec.ofNat 8 (ASC_PREFIX_LENGTH + oid.idLength)] ++
    ascOidPrefix.take ASC_PREFIX_LENGTH ++ oid.suffix ++ value oid

/-- The size of an object in a request. -/
theorem oidBytes_length (value : AscSetOid → List Byte) (oid : AscSetOid) :
    (oidBytes value oid).length = 14 + oid.idLength + (value oid).length := by
  have hten : (ascOidPrefix.take ASC_PREFIX_LENGTH).length = 10 := rfl
  simp only [oidBytes, List.length_append, List.length_cons, List.length_nil, hten,
    AscOid.suffix_length]

/-- An object is stored as its bytes. -/
theorem FmtBuf.putOid_eq (o : FmtBuf) (value : AscSetOid → List Byte) (oid : AscSetOid) :
    o.putOid oid.toAscOid (value oid) = o.put (oidBytes value oid) := by
  simp only [putOid, put_put, oidBytes, List.append_assoc, List.cons_append, List.nil_append]

/-- There is room for the object, as the builder reckons it. -/
def OidFits (bufsize i : Int) (oid : AscSetOid) : Prop := i + oid.idLength + 14 ≤ bufsize

instance (bufsize i : Int) (oid : AscSetOid) : Decidable (OidFits bufsize i oid) :=
  inferInstanceAs (Decidable (_ ≤ _))

/-- There is room for each object in turn. -/
def OidsFit (value : AscSetOid → List Byte) (bufsize : Int) : Int → List AscSetOid → Prop
  | _, [] => True
  | i, oid :: list =>
      OidFits bufsize i oid ∧ OidsFit value bufsize (i + (oidBytes value oid).length) list

/-- What there is room for ends no further behind the buffer than a value is long. -/
theorem OidsFit.end_le {value : AscSetOid → List Byte} {v : Nat}
    (hv : ∀ oid, (value oid).length ≤ v) {bufsize i : Int} {list : List AscSetOid}
    (h : OidsFit value bufsize i list) (hi : i ≤ bufsize + v) :
    i + (list.flatMap (oidBytes value)).length ≤ bufsize + v := by
  induction list generalizing i with
  | nil => simpa using hi
  | cons oid list ih =>
      obtain ⟨hfits, hrest⟩ := h
      have hlength := oidBytes_length value oid
      have hshort := hv oid
      unfold OidFits at hfits
      have hlast := ih hrest (by omega)
      rw [List.flatMap_cons, List.length_append]
      push_cast
      omega

/-- The objects put before the room runs out. -/
def oidsPut (value : AscSetOid → List Byte) (bufsize : Int) :
    Int → List AscSetOid → List AscSetOid
  | _, [] => []
  | i, oid :: list =>
      if OidFits bufsize i oid then
        oid :: oidsPut value bufsize (i + (oidBytes value oid).length) list
      else []

section Oids

variable (value : AscSetOid → List Byte) (bufsize : Int)

/-- The loop stores an object that fits and goes on, and stops at one that does not. -/
theorem fmtOids_cons (oid : AscSetOid) (list : List AscSetOid) (o : FmtBuf) :
    fmtOids value bufsize (oid :: list) o =
      if OidFits bufsize o.i oid then fmtOids value bufsize list (o.put (oidBytes value oid))
      else (false, o) := by
  have hroom : o.i + oid.idLength + ASC_PREFIX_LENGTH + 4 > bufsize ↔
      ¬ OidFits bufsize o.i oid := by
    unfold OidFits
    simp only [ASC_PREFIX_LENGTH]
    omega
  rw [fmtOids, FmtBuf.putOid_eq]
  by_cases hfits : OidFits bufsize o.i oid
  · rw [if_neg (hroom.not.mpr (not_not_intro hfits)), if_pos hfits]
  · rw [if_pos (hroom.mpr hfits), if_neg hfits]

/-- The loop comes to its end when there is room for each object. -/
theorem fmtOids_iff (list : List AscSetOid) (o : FmtBuf) :
    (fmtOids value bufsize list o).1 = true ↔ OidsFit value bufsize o.i list := by
  induction list generalizing o with
  | nil => exact iff_of_true rfl trivial
  | cons oid list ih =>
      rw [fmtOids_cons, OidsFit]
      by_cases hfits : OidFits bufsize o.i oid
      · rw [if_pos hfits, ih, FmtBuf.put, and_iff_right hfits]
      · rw [if_neg hfits]
        exact iff_of_false Bool.false_ne_true fun h => hfits h.1

/-- **The loop puts one object behind the other, as long as it reckons with room.** -/
theorem fmtOids_put (list : List AscSetOid) (o : FmtBuf) :
    (fmtOids value bufsize list o).2 =
      o.put ((oidsPut value bufsize o.i list).flatMap (oidBytes value)) := by
  induction list generalizing o with
  | nil => simp [fmtOids, oidsPut, FmtBuf.put]
  | cons oid list ih =>
      rw [fmtOids_cons, oidsPut]
      by_cases hfits : OidFits bufsize o.i oid
      · rw [if_pos hfits, if_pos hfits, ih, List.flatMap_cons, FmtBuf.put_put]
        rfl
      · rw [if_neg hfits, if_neg hfits]
        simp [FmtBuf.put]

/-- When all fit, all are stored. -/
theorem oidsPut_of_fit {i : Int} {list : List AscSetOid} (h : OidsFit value bufsize i list) :
    oidsPut value bufsize i list = list := by
  induction list generalizing i with
  | nil => rfl
  | cons oid list ih =>
      obtain ⟨hfits, hrest⟩ := h
      rw [oidsPut, if_pos hfits, ih hrest]

end Oids

/-! ## The whole request -/

/-- The request proper: its identifier, no error, and the bytes of its objects. -/
def pduContent (requestId : Byte) (objects : List Byte) : List Byte :=
  tlv SNMP_INTEGER .short [requestId] ++ (tlv SNMP_INTEGER .short [0] ++
    (tlv SNMP_INTEGER .short [0] ++ tlv SNMP_SEQUENCE .long2 objects))

/-- The version, the community, and the request proper. -/
def messageContent (pduType requestId : Byte) (objects : List Byte) : List Byte :=
  tlv SNMP_INTEGER .short [0] ++ (tlv SNMP_OCTET_STR .short communityName ++
    tlv pduType .long2 (pduContent requestId objects))

def requestBytes (pduType requestId : Byte) (objects : List Byte) : List Byte :=
  tlv SNMP_SEQUENCE .long2 (messageContent pduType requestId objects)

/-- What the PDU holds. -/
theorem pduContent_length (requestId : Byte) (objects : List Byte) :
    (pduContent requestId objects).length = objects.length + 13 := by
  simp only [pduContent, tlv_length, List.length_append, LenForm.width, List.length_cons,
    List.length_nil]
  omega

/-- What the message holds. -/
theorem messageContent_length (pduType requestId : Byte) (objects : List Byte) :
    (messageContent pduType requestId objects).length = objects.length + 28 := by
  simp only [messageContent, tlv_length, List.length_append, LenForm.width, communityName,
    List.length_cons, List.length_nil, pduContent_length]
  omega

/-- A request is its header and its objects. -/
theorem requestBytes_length (pduType requestId : Byte) (objects : List Byte) :
    (requestBytes pduType requestId objects).length = SNMP_HEADER_SIZE + objects.length := by
  simp only [requestBytes, tlv_length, messageContent_length, LenForm.width, SNMP_HEADER_SIZE]
  omega

/-- The two bytes of a count. -/
def byteCountBytes (n : Nat) : List Byte := [BitVec.ofNat 8 (n / 256), BitVec.ofNat 8 n]

/-- A header with a count of two bytes. -/
theorem tlv_long2 (tag : Byte) {content : List Byte} {n : Nat} (h : content.length = n) :
    tlv tag .long2 content = [tag, multiByteCount] ++ (byteCountBytes n ++ content) := by
  rw [tlv, header, h]
  rfl

/-- A count of two bytes is stored with its high byte first. -/
theorem storeByteCount_eq (buf : Mem Byte) (index : Int) (n : Nat) :
    storeByteCount buf index COUNT_SIZE n = buf.write index (byteCountBytes n) := by
  have hhigh : highByte (BitVec.ofInt 16 n) = BitVec.ofNat 8 (n / 256) := by
    apply BitVec.eq_of_toNat_eq
    rw [highByte, BitVec.ofInt_natCast, BitVec.toNat_setWidth, BitVec.toNat_ushiftRight,
      BitVec.toNat_ofNat, BitVec.toNat_ofNat, Nat.shiftRight_eq_div_pow]
    omega
  have hlow : lowByte (BitVec.ofInt 16 n) = BitVec.ofNat 8 n := by
    apply BitVec.eq_of_toNat_eq
    rw [lowByte, BitVec.ofInt_natCast, BitVec.toNat_setWidth, BitVec.toNat_ofNat,
      BitVec.toNat_ofNat]
    omega
  rw [storeByteCount, if_neg (by decide), if_pos (show COUNT_SIZE = 2 from rfl), hhigh, hlow]
  rfl

/-- The version, the community and the type. -/
def openingBytes (pduType : Byte) : List Byte :=
  [SNMP_INTEGER, 1, 0, SNMP_OCTET_STR, BitVec.ofNat 8 communityName.length] ++ communityName ++
    [pduType, multiByteCount]

/-- The identifier, and no error. -/
def statusBytes (requestId : Byte) : List Byte :=
  [SNMP_INTEGER, 1, requestId, SNMP_INTEGER, 1, 0, SNMP_INTEGER, 1, 0, SNMP_SEQUENCE,
    multiByteCount]

/-- The parts of a request, in their order. -/
theorem requestBytes_eq (pduType requestId : Byte) (objects : List Byte) :
    requestBytes pduType requestId objects =
      [SNMP_SEQUENCE, multiByteCount] ++ (byteCountBytes (objects.length + 28) ++
        (openingBytes pduType ++ (byteCountBytes (objects.length + 13) ++
          (statusBytes requestId ++ (byteCountBytes objects.length ++ objects))))) := by
  rw [requestBytes, tlv_long2 SNMP_SEQUENCE (messageContent_length pduType requestId objects),
    messageContent, tlv_long2 pduType (pduContent_length requestId objects)]
  rfl

/-- What a builder stores: the three parts of the header, the objects, and the counts. -/
def requestBlocks (pduType requestId : Byte) (objects : List Byte) : List (Int × List Byte) :=
  [(0, [SNMP_SEQUENCE, multiByteCount]),
   (4, openingBytes pduType),
   (19, statusBytes requestId),
   (32, objects),
   (2, byteCountBytes (objects.length + 28)),
   (17, byteCountBytes (objects.length + 13)),
   (30, byteCountBytes objects.length)]

section Whole

variable (pduType requestId : Byte) (value : AscSetOid → List Byte) (buf : Mem Byte)
  (bufsize : Int) (list : List AscSetOid)

/-- The blocks of a request are apart. -/
theorem requestBlocks_apart (objects : List Byte) :
    (requestBlocks pduType requestId objects).Pairwise BlocksApart := by
  simp only [requestBlocks, BlocksApart, openingBytes, statusBytes, communityName, byteCountBytes,
    List.pairwise_cons,
    List.mem_cons, List.not_mem_nil, or_false, forall_eq_or_imp, forall_eq, List.length_cons,
    List.length_nil, List.length_append, false_implies, implies_true, List.Pairwise.nil, and_true]
  omega

/-- The header is stored in blocks. -/
theorem fmtHeader_blocks :
    (fmtHeader pduType requestId buf).out =
      { buf := buf.writes ((requestBlocks pduType requestId []).take 3), i := 32 } := by
  rfl

/-- Behind it the index stands at the objects. -/
theorem fmtHeader_index :
    (fmtHeader pduType requestId buf).out.i = SNMP_HEADER_SIZE := by
  rw [fmtHeader_blocks]
  rfl

/-- **With room for each object, a builder stores a request and returns its length.** -/
theorem fmtAscRequest_of_fit (hsize : SNMP_HEADER_SIZE ≤ bufsize)
    (hfit : OidsFit value bufsize SNMP_HEADER_SIZE list) :
    fmtAscRequest pduType value buf bufsize requestId list =
      { ret := SNMP_HEADER_SIZE + (list.flatMap (oidBytes value)).length
        buf := buf.writes
          (requestBlocks pduType requestId (list.flatMap (oidBytes value))) } := by
  have hheader := fmtHeader_blocks pduType requestId buf
  have hi := fmtHeader_index pduType requestId buf
  rw [← hi] at hfit
  have hend := (fmtOids_iff value bufsize list _).mpr hfit
  have hput := fmtOids_put value bufsize list (fmtHeader pduType requestId buf).out
  rw [oidsPut_of_fit value bufsize hfit, hheader, FmtBuf.put] at hput
  rw [hheader] at hend
  generalize list.flatMap (oidBytes value) = objects at hput ⊢
  have hpdu : (32 + objects.length : Int) - (2 + COUNT_SIZE) = (objects.length + 28 : Nat) := by
    simp only [COUNT_SIZE]
    omega
  have hget : (32 + objects.length : Int) - (17 + COUNT_SIZE) = (objects.length + 13 : Nat) := by
    simp only [COUNT_SIZE]
    omega
  have hseq : (32 + objects.length : Int) - (30 + COUNT_SIZE) = objects.length := by
    simp only [COUNT_SIZE]
    omega
  have hpduIndex : (fmtHeader pduType requestId buf).pduByteCountIndex = 2 := rfl
  have hgetIndex : (fmtHeader pduType requestId buf).getRequestByteCountIndex = 17 := rfl
  have hseqIndex : (fmtHeader pduType requestId buf).sequenceByteCountIndex = 30 := rfl
  rw [fmtAscRequest, if_neg (not_lt.mpr hsize)]
  simp only [hheader, hend, if_true, hput, hpduIndex, hgetIndex, hseqIndex, hpdu, hget, hseq,
    storeByteCount_eq]
  rfl

/-- **So the first bytes of its buffer are the request.** -/
theorem fmtAscRequest_holds (hsize : SNMP_HEADER_SIZE ≤ bufsize)
    (hfit : OidsFit value bufsize SNMP_HEADER_SIZE list) :
    (fmtAscRequest pduType value buf bufsize requestId list).buf.Holds 0
      (requestBytes pduType requestId (list.flatMap (oidBytes value))) := by
  rw [fmtAscRequest_of_fit pduType requestId value buf bufsize list hsize hfit]
  generalize list.flatMap (oidBytes value) = objects
  have hblocks := buf.writes_holds (requestBlocks_apart pduType requestId objects)
  simp only [requestBlocks, List.mem_cons, List.not_mem_nil, or_false, forall_eq_or_imp,
    forall_eq] at hblocks
  obtain ⟨hfirst, hsecond, hthird, hobjects, hpdu, hget, hseq⟩ := hblocks
  have hbytes := requestBytes_eq pduType requestId objects
  rw [hbytes]
  simp only [Mem.holds_append]
  exact ⟨hfirst, hpdu, hsecond, hget, hthird, hseq, hobjects⟩

/-- Without room for each object, it returns zero. -/
theorem fmtAscRequest_of_not_fit (hsize : SNMP_HEADER_SIZE ≤ bufsize)
    (hfit : ¬ OidsFit value bufsize SNMP_HEADER_SIZE list) :
    fmtAscRequest pduType value buf bufsize requestId list =
      { ret := 0
        buf := buf.writes ((requestBlocks pduType requestId
          ((oidsPut value bufsize SNMP_HEADER_SIZE list).flatMap (oidBytes value))).take 4) } := by
  have hheader := fmtHeader_blocks pduType requestId buf
  have hi := fmtHeader_index pduType requestId buf
  rw [← hi] at hfit
  have hend := mt (fmtOids_iff value bufsize list _).mp hfit
  have hput := fmtOids_put value bufsize list (fmtHeader pduType requestId buf).out
  rw [hi, hheader, FmtBuf.put] at hput
  rw [hheader] at hend
  rw [fmtAscRequest, if_neg (not_lt.mpr hsize)]
  simp only [hheader, hend, hput]
  rfl

/-- A builder returns more than zero when there is room for the header and each object. -/
theorem fmtAscRequest_ret_pos :
    0 < (fmtAscRequest pduType value buf bufsize requestId list).ret ↔
      SNMP_HEADER_SIZE ≤ bufsize ∧ OidsFit value bufsize SNMP_HEADER_SIZE list := by
  by_cases hsize : SNMP_HEADER_SIZE ≤ bufsize
  · by_cases hfit : OidsFit value bufsize SNMP_HEADER_SIZE list
    · rw [fmtAscRequest_of_fit pduType requestId value buf bufsize list hsize hfit]
      refine iff_of_true ?_ ⟨hsize, hfit⟩
      simp only [SNMP_HEADER_SIZE]
      omega
    · rw [fmtAscRequest_of_not_fit pduType requestId value buf bufsize list hsize hfit]
      exact iff_of_false (lt_irrefl 0) fun h => hfit h.2
  · rw [fmtAscRequest, if_pos (not_le.mp hsize)]
    exact iff_of_false (lt_irrefl 0) fun h => hsize h.1

end Whole

end RfsAtsc
