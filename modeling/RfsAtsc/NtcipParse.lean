import RfsAtsc.BerEncoding
import RfsAtsc.Fcs
import RfsAtsc.TracedMemory

/-!
# The reply parser: `parse_asc_get_response`

The parser walks an SNMP GetResponse with one index that its helpers take and
give back.  Some of them leave the index where it was when they fail and some do
not, and none of them looks at the enclosing length again once it has been read:
what follows a header is taken to be there.

A `Cursor` is that index, with the positions of the buffer read and of a helper's
`name` array stored to.
-/

namespace RfsAtsc

open TracedMemory BerEncoding

/-! ## Objects -/

def SNMP_SEQUENCE : Byte := 0x30
def SNMP_INTEGER : Byte := 0x02
def SNMP_OCTET_STR : Byte := 0x04
def SNMP_OBJECT_ID : Byte := 0x06
def SNMP_GET_RESPONSE : Byte := 0xa2
def SNMP_MULTI_BYTE_COUNT : Byte := 0x80

def ASC_PREFIX_LENGTH : Nat := 10

def UNKNOWN_OBJECT_TYPE : Int := 9999
def PHASE_STATUS_GROUP_NUMBER : Int := 1
def PHASE_STATUS_GROUP_REDS : Int := 2
def PHASE_STATUS_GROUP_YELLOWS : Int := 3
def PHASE_STATUS_GROUP_GREENS : Int := 4
def PHASE_STATUS_GROUP_ONS : Int := 5
def PHASE_STATUS_GROUP_NEXT : Int := 6
def DETECTOR_STATUS_GROUP : Int := 7

def MAX_VEHICLE_DETECTOR_GROUPS : Nat := 8
def MAX_PHASE_STATUS_GROUPS : Nat := 4
def ATSC_SOURCE_NTCIP : Int := 1

/-- `asc_oid`: the end of an object identifier, closed by a `0x00`, how long it
is, and what the object is. -/
structure AscOid where
  id : List Byte
  idLength : Nat
  type : Int
deriving DecidableEq

/-- The beginning that all the identifiers share, closed by a `0x00`. -/
def ascOidPrefix : List Byte :=
  [0x2b, 0x06, 0x01, 0x04, 0x01, 0x89, 0x36, 0x04, 0x02, 0x01, 0x00]

/-- `get_list`. -/
def getList : List AscOid :=
  [{ id := [0x01, 0x04, 0x01, 0x01, 0x01, 0x00], idLength := 5,
     type := PHASE_STATUS_GROUP_NUMBER },
   { id := [0x01, 0x04, 0x01, 0x02, 0x01, 0x00], idLength := 5,
     type := PHASE_STATUS_GROUP_REDS },
   { id := [0x01, 0x04, 0x01, 0x03, 0x01, 0x00], idLength := 5,
     type := PHASE_STATUS_GROUP_YELLOWS },
   { id := [0x01, 0x04, 0x01, 0x04, 0x01, 0x00], idLength := 5,
     type := PHASE_STATUS_GROUP_GREENS },
   { id := [0x01, 0x04, 0x01, 0x0a, 0x01, 0x00], idLength := 5,
     type := PHASE_STATUS_GROUP_ONS },
   { id := [0x01, 0x04, 0x01, 0x0b, 0x01, 0x00], idLength := 5,
     type := PHASE_STATUS_GROUP_NEXT }]

/-- The fields of `atsc_typ` that the parser writes; the arrays are traced. -/
structure Atsc where
  vehicleDetectorStatus : Mem Byte
  phaseStatusReds : Mem Byte
  phaseStatusYellows : Mem Byte
  phaseStatusGreens : Mem Byte
  phaseStatusOns : Mem Byte
  phaseStatusNext : Mem Byte
  infoSource : Int

/-! ## The cursor -/

/-- The index into the buffer, the positions read, and the positions of a `name`
array stored to, the latest first.  The index is an `int` of the source: it starts at zero,
the loops compare it with the size of a message that a frame held, and one object moves it by
less than a thousand, so that it stays below `INT_MAX` and is any integer here. -/
structure Cursor where
  i : Int
  reads : List Int
  nameStores : List Int

/-- The cursor at the start of a message. -/
def Cursor.start : Cursor where
  i := 0
  reads := []
  nameStores := []

/-- `buf[i]` has been read. -/
def Cursor.read (c : Cursor) : Cursor := { c with reads := c.i :: c.reads }

/-- `buf[i++]` has been read. -/
def Cursor.next (c : Cursor) : Cursor := { c.read with i := c.i + 1 }

/-- A helper returns without giving its index back: the caller's is still `i`. -/
def Cursor.back (c : Cursor) (i : Int) : Cursor := { c with i := i }

/-- `name[j]` has been stored to. -/
def Cursor.storeName (c : Cursor) (j : Int) : Cursor :=
  { c with nameStores := j :: c.nameStores }

@[simp] theorem Cursor.start_i : Cursor.start.i = 0 := rfl
@[simp] theorem Cursor.read_i (c : Cursor) : c.read.i = c.i := rfl
@[simp] theorem Cursor.next_i (c : Cursor) : c.next.i = c.i + 1 := rfl
@[simp] theorem Cursor.back_i (c : Cursor) (i : Int) : (c.back i).i = i := rfl
@[simp] theorem Cursor.storeName_i (c : Cursor) (j : Int) : (c.storeName j).i = c.i := rfl

/-! ## The helpers -/

/-- `for (j = 0; j < count; j++) val = (val << 8) | buf[i++];` -/
def valLoop (buf : Mem Byte) : Nat → BitVec 32 → Cursor → BitVec 32 × Cursor
  | 0, val, c => (val, c)
  | n+1, val, c => valLoop buf n (shiftIn val (buf.cell c.i)) c.next

/-- `get_integer_val`. -/
def getIntegerVal (buf : Mem Byte) (c : Cursor) : BitVec 32 × Cursor :=
  if buf.cell c.i ≠ SNMP_INTEGER then (-1, c.next.back c.i)
  else valLoop buf (buf.cell c.next.i).toNat 0 c.next.next

/-- The length bytes of `get_sequence_count`.  A first byte with the top bit set
and both low bits clear counts as zero. -/
def sequenceLength (buf : Mem Byte) (c : Cursor) : BitVec 32 × Cursor :=
  let tmp := buf.cell c.i
  let c := c.next
  if tmp &&& SNMP_MULTI_BYTE_COUNT = 0 then (tmp.setWidth 32, c)
  else if tmp &&& 1 ≠ 0 then ((buf.cell c.i).setWidth 32, c.next)
  else if tmp &&& 2 ≠ 0 then
    (shiftIn ((buf.cell c.i).setWidth 32) (buf.cell (c.i + 1)), c.next.next)
  else (0, c)

/-- `get_sequence_count`.  The count is unsigned, so what is left of the message is
compared as an unsigned number too. -/
def getSequenceCount (buf : Mem Byte) (c : Cursor) (msgByteCount : Int) :
    BitVec 32 × Cursor :=
  if buf.cell c.i ≠ SNMP_SEQUENCE ∧ buf.cell c.i ≠ SNMP_GET_RESPONSE then
    (0, c.next.back c.i)
  else
    let p := sequenceLength buf c.next
    if p.1 > BitVec.ofInt 32 (msgByteCount - p.2.i) then (0, p.2) else p

/-- `read_version_number`. -/
def readVersionNumber (buf : Mem Byte) (c : Cursor) (byteCount : Int) : Int × Cursor :=
  let c := (getIntegerVal buf c).2
  if c.i > byteCount then (0, c) else (1, c)

/-- `for (j = 0; j < count; j++) name[j] = buf[i++];` and the `'\0'` behind it. -/
def readName (buf : Mem Byte) : Nat → Int → Cursor → List Byte × Cursor
  | 0, j, c => ([0], c.storeName j)
  | n+1, j, c =>
      let p := readName buf n (j + 1) (c.next.storeName j)
      (buf.cell c.i :: p.1, p.2)

/-- `read_community_name`. -/
def readCommunityName (buf : Mem Byte) (c : Cursor) (byteCount : Int) : Int × Cursor :=
  if buf.cell c.i ≠ SNMP_OCTET_STR then (0, c.next.back c.i)
  else
    let d := (readName buf (buf.cell c.next.i).toNat 0 c.next.next).2
    if d.i > byteCount then (0, d.back c.i) else (1, d)

/-- `read_request_status`: the request id, the error status and the error index,
whatever they are. -/
def readRequestStatus (buf : Mem Byte) (c : Cursor) : Int × Cursor :=
  let c := (getIntegerVal buf c).2
  let c := (getIntegerVal buf c).2
  let c := (getIntegerVal buf c).2
  (1, c)

/-- `strncmp(xs, ys, n) == 0`. -/
def strncmpEq (n : Nat) (xs ys : List Byte) : Bool :=
  (xs.take n).takeWhile (· ≠ 0) == (ys.take n).takeWhile (· ≠ 0)

/-- What `parse_oid` finds: the type of the object, its instance, and the cursor. -/
structure OidParse where
  type : Int
  inst : Int
  cursor : Cursor

/-- `parse_oid`.  A loop up to `count - ASC_PREFIX_LENGTH` runs no times when that
is negative. -/
def parseOid (buf : Mem Byte) (c : Cursor) (list : List AscOid) : OidParse :=
  if buf.cell c.i ≠ SNMP_OBJECT_ID then
    { type := 0, inst := 0, cursor := c.next.back c.i }
  else
    let count := (buf.cell c.next.i).toNat
    let p := readName buf ASC_PREFIX_LENGTH 0 c.next.next
    if ¬ strncmpEq 255 p.1 ascOidPrefix then
      { type := UNKNOWN_OBJECT_TYPE, inst := 0, cursor := p.2.back c.i }
    else
      let p := readName buf (count - ASC_PREFIX_LENGTH) 0 p.2
      match list.find? (fun oid => strncmpEq 255 p.1 oid.id) with
      | some oid =>
          { type := oid.type, inst := (oid.id.getD (oid.idLength - 1) 0).toNat, cursor := p.2 }
      | none => { type := UNKNOWN_OBJECT_TYPE, inst := 0, cursor := p.2 }

/-- The `switch` of `parse_asc_integer_group_entry`. -/
def storeGroupEntry (objectType inst : Int) (val : Byte) (asc : Atsc) : Atsc :=
  if objectType = DETECTOR_STATUS_GROUP then
    { asc with vehicleDetectorStatus := asc.vehicleDetectorStatus.store (inst - 1) val }
  else if objectType = PHASE_STATUS_GROUP_NUMBER then asc
  else if objectType = PHASE_STATUS_GROUP_REDS then
    { asc with phaseStatusReds := asc.phaseStatusReds.store (inst - 1) val }
  else if objectType = PHASE_STATUS_GROUP_YELLOWS then
    { asc with phaseStatusYellows := asc.phaseStatusYellows.store (inst - 1) val }
  else if objectType = PHASE_STATUS_GROUP_GREENS then
    { asc with phaseStatusGreens := asc.phaseStatusGreens.store (inst - 1) val }
  else if objectType = PHASE_STATUS_GROUP_ONS then
    { asc with phaseStatusOns := asc.phaseStatusOns.store (inst - 1) val }
  else if objectType = PHASE_STATUS_GROUP_NEXT then
    { asc with phaseStatusNext := asc.phaseStatusNext.store (inst - 1) val }
  else asc

/-- `parse_asc_integer_group_entry`. -/
def parseAscIntegerGroupEntry (buf : Mem Byte) (c : Cursor) (objectType inst : Int)
    (asc : Atsc) : Cursor × Atsc :=
  let p := getIntegerVal buf c
  (p.2, storeGroupEntry objectType inst (p.1.setWidth 8) asc)

/-- What parsing objects returns, and leaves behind. -/
structure ObjectParse where
  ret : Int
  cursor : Cursor
  asc : Atsc

/-- `parse_asc_object`. -/
def parseAscObject (buf : Mem Byte) (c : Cursor) (byteCount : Int) (list : List AscOid)
    (asc : Atsc) : ObjectParse :=
  let p := getSequenceCount buf c byteCount
  if p.1 = 0 then { ret := 0, cursor := p.2, asc := asc }
  else
    let oid := parseOid buf p.2 list
    if oid.type = UNKNOWN_OBJECT_TYPE then { ret := 0, cursor := oid.cursor, asc := asc }
    else
      let q := parseAscIntegerGroupEntry buf oid.cursor oid.type oid.inst asc
      { ret := 1, cursor := q.1, asc := q.2 }

/-- `while (i < byte_count)` over the objects, for at most `fuel` of them. -/
def parseAscObjects (buf : Mem Byte) (byteCount : Int) (list : List AscOid) :
    Nat → Cursor → Atsc → Option ObjectParse
  | 0, c, asc =>
      if c.i < byteCount then none else some { ret := 1, cursor := c, asc := asc }
  | fuel+1, c, asc =>
      if c.i < byteCount then
        let p := parseAscObject buf c byteCount list asc
        if p.ret = 0 then some p else parseAscObjects buf byteCount list fuel p.cursor p.asc
      else some { ret := 1, cursor := c, asc := asc }

/-- What `parse_asc_get_response` returns, the record it publishes, and its
cursor. -/
structure ResponseParse where
  ret : Int
  published : Option Atsc
  cursor : Cursor

/-- `for (j = 0; j < n; j++) group[j] = 0;` -/
def zeroGroup (n : Nat) (group : Mem Byte) : Mem Byte := group.write 0 (List.replicate n 0)

/-- The loops that clear the record; `asc` is what the stack held. -/
def zeroAtsc (asc : Atsc) : Atsc :=
  { asc with
    vehicleDetectorStatus := zeroGroup MAX_VEHICLE_DETECTOR_GROUPS asc.vehicleDetectorStatus
    phaseStatusReds := zeroGroup MAX_PHASE_STATUS_GROUPS asc.phaseStatusReds
    phaseStatusYellows := zeroGroup MAX_PHASE_STATUS_GROUPS asc.phaseStatusYellows
    phaseStatusGreens := zeroGroup MAX_PHASE_STATUS_GROUPS asc.phaseStatusGreens
    phaseStatusOns := zeroGroup MAX_PHASE_STATUS_GROUPS asc.phaseStatusOns
    phaseStatusNext := zeroGroup MAX_PHASE_STATUS_GROUPS asc.phaseStatusNext }

/-- The end of `parse_asc_get_response`: the objects, and the record published. -/
def parseBindings (buf : Mem Byte) (byteCount : Int) (list : List AscOid) (c : Cursor)
    (asc : Atsc) : Option ResponseParse :=
  (parseAscObjects buf byteCount list byteCount.toNat c asc).map fun p =>
    if p.ret = 0 then { ret := 0, published := none, cursor := p.cursor }
    else
      { ret := 1, published := some { p.asc with infoSource := ATSC_SOURCE_NTCIP },
        cursor := p.cursor }

/-- `parse_asc_get_response`; `asc` is what the record holds before it is cleared.
`none` would be a loop that does not end. -/
def parseAscGetResponse (buf : Mem Byte) (byteCount : Int) (list : List AscOid)
    (asc : Atsc) : Option ResponseParse :=
  let error := fun c => some { ret := 0, published := none, cursor := c }
  let message := getSequenceCount buf Cursor.start byteCount
  if message.1 = 0 then error message.2
  else
    let version := readVersionNumber buf message.2 byteCount
    if version.1 = 0 then error version.2
    else
      let community := readCommunityName buf version.2 byteCount
      if community.1 = 0 then error community.2
      else if buf.cell community.2.i ≠ SNMP_GET_RESPONSE then error community.2.read
      else
        let pdu := getSequenceCount buf community.2.read byteCount
        if pdu.1 = 0 then error pdu.2
        else
          let status := readRequestStatus buf pdu.2
          if status.1 = 0 then error status.2
          else
            let bindings := getSequenceCount buf status.2 byteCount
            if bindings.1 = 0 then error bindings.2
            else parseBindings buf byteCount list bindings.2 (zeroAtsc asc)

/-! ## Every parse ends -/

section Progress

variable (buf : Mem Byte) (byteCount : Int) (c : Cursor) (list : List AscOid)

/-- The value loop takes as many bytes as it counts. -/
theorem valLoop_i (n : Nat) (val : BitVec 32) : (valLoop buf n val c).2.i = c.i + n := by
  induction n generalizing val c with
  | zero => simp [valLoop]
  | succ n ih =>
      rw [valLoop, ih]
      simp
      omega

/-- So does the loop over a name. -/
theorem readName_i (n : Nat) (j : Int) : (readName buf n j c).2.i = c.i + n := by
  induction n generalizing j c with
  | zero => simp [readName]
  | succ n ih =>
      rw [readName, ih]
      simp
      omega

/-- The helper of an INTEGER does not take the index back. -/
theorem getIntegerVal_le : c.i ≤ (getIntegerVal buf c).2.i := by
  unfold getIntegerVal
  split_ifs
  · simp
  · rw [valLoop_i]
    simp
    omega

/-- A length takes a byte at least. -/
theorem sequenceLength_lt : c.i < (sequenceLength buf c).2.i := by
  simp only [sequenceLength]
  split_ifs <;> simp only [Cursor.next_i] <;> omega

/-- A header does not take the index back. -/
theorem getSequenceCount_le : c.i ≤ (getSequenceCount buf c byteCount).2.i := by
  have hlen := sequenceLength_lt buf c.next
  simp only [Cursor.next_i] at hlen
  simp only [getSequenceCount]
  split_ifs <;> simp <;> omega

/-- A count other than zero has a tag and a length byte in front of it. -/
theorem getSequenceCount_advances (h : (getSequenceCount buf c byteCount).1 ≠ 0) :
    c.i + 2 ≤ (getSequenceCount buf c byteCount).2.i := by
  have hlen := sequenceLength_lt buf c.next
  simp only [Cursor.next_i] at hlen
  simp only [getSequenceCount] at h ⊢
  split_ifs at h ⊢
  · exact absurd rfl h
  · exact absurd rfl h
  · omega

/-- Nor does the version. -/
theorem readVersionNumber_le : c.i ≤ (readVersionNumber buf c byteCount).2.i := by
  have hle := getIntegerVal_le buf c
  simp only [readVersionNumber]
  split_ifs <;> exact hle

/-- Nor does the community. -/
theorem readCommunityName_le : c.i ≤ (readCommunityName buf c byteCount).2.i := by
  simp only [readCommunityName]
  split_ifs
  · simp
  · simp
  · rw [readName_i]
    simp
    omega

/-- Nor do the three INTEGERs. -/
theorem readRequestStatus_le : c.i ≤ (readRequestStatus buf c).2.i :=
  (getIntegerVal_le buf c).trans ((getIntegerVal_le buf _).trans (getIntegerVal_le buf _))

/-- Nor does an identifier. -/
theorem parseOid_le : c.i ≤ (parseOid buf c list).cursor.i := by
  have hprefix := readName_i buf c.next.next ASC_PREFIX_LENGTH 0
  have hsuffix := readName_i buf (readName buf ASC_PREFIX_LENGTH 0 c.next.next).2
    ((buf.cell c.next.i).toNat - ASC_PREFIX_LENGTH) 0
  simp only [Cursor.next_i] at hprefix hsuffix
  simp only [parseOid]
  split
  · simp
  · split
    · simp
    · split <;> simp only [Cursor.next_i] <;> omega

/-- An object parsed takes at least its tag and its length byte. -/
theorem parseAscObject_advances (asc : Atsc)
    (h : (parseAscObject buf c byteCount list asc).ret ≠ 0) :
    c.i + 2 ≤ (parseAscObject buf c byteCount list asc).cursor.i := by
  have hoid := parseOid_le buf (getSequenceCount buf c byteCount).2 list
  have hval := getIntegerVal_le buf (parseOid buf (getSequenceCount buf c byteCount).2 list).cursor
  simp only [parseAscObject, parseAscIntegerGroupEntry] at h ⊢
  split_ifs at h ⊢ with hcount
  · exact absurd rfl h
  · exact absurd rfl h
  · have := getSequenceCount_advances buf byteCount c hcount
    simp only
    omega

/-- The loop over the objects ends the same way with any fuel that is enough: one turn for
every two bytes left. -/
theorem parseAscObjects_ends (asc : Atsc) :
    ∃ p, ∀ fuel : Nat, byteCount - c.i ≤ 2 * fuel →
      parseAscObjects buf byteCount list fuel c asc = some p := by
  induction hleft : (byteCount - c.i).toNat using Nat.strong_induction_on generalizing c asc with
  | _ left ih =>
      by_cases hin : c.i < byteCount
      · by_cases hret : (parseAscObject buf c byteCount list asc).ret = 0
        · refine ⟨parseAscObject buf c byteCount list asc, ?_⟩
          intro fuel hfuel
          obtain ⟨fuel, rfl⟩ : ∃ k, fuel = k + 1 := ⟨fuel - 1, by omega⟩
          simp only [parseAscObjects, if_pos hin, if_pos hret]
        · have hadvance := parseAscObject_advances buf byteCount c list asc hret
          obtain ⟨p, hp⟩ := ih _ (by omega) (parseAscObject buf c byteCount list asc).cursor
            (parseAscObject buf c byteCount list asc).asc rfl
          refine ⟨p, ?_⟩
          intro fuel hfuel
          obtain ⟨fuel, rfl⟩ : ∃ k, fuel = k + 1 := ⟨fuel - 1, by omega⟩
          simp only [parseAscObjects, if_pos hin, if_neg hret]
          exact hp fuel (by omega)
      · refine ⟨{ ret := 1, cursor := c, asc := asc }, ?_⟩
        intro fuel _
        cases fuel with
        | zero => rw [parseAscObjects, if_neg hin]
        | succ fuel => simp only [parseAscObjects, if_neg hin]

/-- With as much fuel as there are bytes left, the loop over the objects ends. -/
theorem parseAscObjects_isSome (fuel : Nat) (asc : Atsc) (hfuel : byteCount - c.i ≤ fuel) :
    (parseAscObjects buf byteCount list fuel c asc).isSome := by
  obtain ⟨p, hp⟩ := parseAscObjects_ends buf byteCount c list asc
  rw [hp fuel (by omega)]
  rfl

end Progress

/-- **Every buffer is parsed to an end.** -/
theorem parseAscGetResponse_isSome (buf : Mem Byte) (byteCount : Int) (list : List AscOid)
    (asc : Atsc) : (parseAscGetResponse buf byteCount list asc).isSome := by
  have hmessage := getSequenceCount_le buf byteCount Cursor.start
  have hversion := readVersionNumber_le buf byteCount
    (getSequenceCount buf Cursor.start byteCount).2
  have hcommunity := readCommunityName_le buf byteCount
    (readVersionNumber buf (getSequenceCount buf Cursor.start byteCount).2 byteCount).2
  simp only [parseAscGetResponse]
  generalize (readCommunityName buf (readVersionNumber buf
    (getSequenceCount buf Cursor.start byteCount).2 byteCount).2 byteCount) = community at *
  have hpdu := getSequenceCount_le buf byteCount community.2.read
  generalize (getSequenceCount buf community.2.read byteCount) = pdu at *
  have hstatus := readRequestStatus_le buf pdu.2
  generalize (readRequestStatus buf pdu.2) = status at *
  have hbindings := getSequenceCount_le buf byteCount status.2
  split_ifs
  all_goals try rfl
  rw [parseBindings, Option.isSome_map]
  apply parseAscObjects_isSome
  simp only [Cursor.start_i, Cursor.read_i] at *
  omega

/-- **Every turn of the loop over the objects that does not fail takes two bytes or more**, so
the loop ends on every buffer, after one turn for every two bytes at most. -/
theorem varbind_loop_advances (buf : Mem Byte) (byteCount : Int) (list : List AscOid) :
    (∀ c asc, (parseAscObject buf c byteCount list asc).ret ≠ 0 →
      c.i + 2 ≤ (parseAscObject buf c byteCount list asc).cursor.i) ∧
    (∀ c asc, ∃ p, ∀ fuel : Nat, byteCount - c.i ≤ 2 * fuel →
      parseAscObjects buf byteCount list fuel c asc = some p) ∧
    ∀ asc, (parseAscGetResponse buf byteCount list asc).isSome :=
  ⟨fun c asc => parseAscObject_advances buf byteCount c list asc,
    fun c asc => parseAscObjects_ends buf byteCount c list asc,
    parseAscGetResponse_isSome buf byteCount list⟩

/-- An object of a tag, a length and a zero: its identifier and its value are not there, and
the turn does not fail. -/
theorem varbind_loop_advances_bare :
    Cursor.start.i + 2 ≤
      (parseAscObject (Mem.ofList 0 [0x30, 0x01, 0x00]) Cursor.start 3 []
        (zeroAtsc ⟨.ofList 0 [], .ofList 0 [], .ofList 0 [], .ofList 0 [], .ofList 0 [],
          .ofList 0 [], 0⟩)).cursor.i := by
  apply (varbind_loop_advances (Mem.ofList 0 [0x30, 0x01, 0x00]) 3 []).1
  decide

/-! ## What lies ahead of the cursor -/

/-- What is left of a message of `byteCount` bytes, from the cursor on, is `bs`. -/
structure Ahead (buf : Mem Byte) (byteCount : Int) (c : Cursor) (bs : List Byte) : Prop where
  holds : buf.Holds c.i bs
  ends : c.i + bs.length = byteCount
  bound : bs.length < 2 ^ 31

section Helpers

variable {buf : Mem Byte} {byteCount : Int} {c : Cursor} {rest : List Byte}

/-- Reading some of what is ahead leaves the rest. -/
theorem Ahead.advance {bs : List Byte} (h : Ahead buf byteCount c (bs ++ rest)) {d : Cursor}
    (hd : d.i = c.i + bs.length) : Ahead buf byteCount d rest := by
  obtain ⟨hholds, hends, hbound⟩ := h
  rw [Mem.holds_append] at hholds
  simp only [List.length_append] at hends hbound
  exact ⟨hd ▸ hholds.2, by omega, by omega⟩

/-- The first byte ahead is the one at the cursor. -/
theorem Ahead.cell {b : Byte} {bs : List Byte} (h : Ahead buf byteCount c (b :: bs)) :
    buf.cell c.i = b :=
  h.holds.1

/-- The next byte has the rest ahead. -/
theorem Ahead.next {b : Byte} {bs : List Byte} (h : Ahead buf byteCount c (b :: bs)) :
    Ahead buf byteCount c.next bs := by
  have hsplit : Ahead buf byteCount c ([b] ++ bs) := h
  exact hsplit.advance rfl

/-- Where the cursor stands is all that matters. -/
theorem Ahead.same {bs : List Byte} (h : Ahead buf byteCount c bs) {d : Cursor}
    (hd : d.i = c.i) : Ahead buf byteCount d bs := by
  have hsplit : Ahead buf byteCount c ([] ++ bs) := h
  exact hsplit.advance (by simpa using hd)

/-- A content ahead is read as a number in base 256. -/
theorem valLoop_spec (content : List Byte) (val : BitVec 32)
    (h : Ahead buf byteCount c (content ++ rest)) :
    (valLoop buf content.length val c).1 = content.foldl shiftIn val ∧
      Ahead buf byteCount (valLoop buf content.length val c).2 rest := by
  induction content generalizing val c with
  | nil => exact ⟨rfl, h⟩
  | cons b bs ih =>
      rw [List.length_cons, valLoop, h.cell]
      exact ih _ h.next

/-- An INTEGER ahead is read, whatever its content. -/
theorem getIntegerVal_spec {content : List Byte} (hshort : content.length < 128)
    (h : Ahead buf byteCount c (tlv SNMP_INTEGER .short content ++ rest)) :
    (getIntegerVal buf c).1 = bigEndian 32 content ∧
      Ahead buf byteCount (getIntegerVal buf c).2 rest := by
  have htag : buf.cell c.i = SNMP_INTEGER := h.cell
  have hcount : (buf.cell c.next.i).toNat = content.length := by
    rw [h.next.cell, toNat_ofNat_of_short hshort]
  rw [getIntegerVal, if_neg (by simp [htag]), hcount]
  exact valLoop_spec content 0 h.next.next

/-- A name ahead is read with a zero behind it. -/
theorem readName_spec (name : List Byte) (j : Int) (h : Ahead buf byteCount c (name ++ rest)) :
    (readName buf name.length j c).1 = name ++ [0] ∧
      Ahead buf byteCount (readName buf name.length j c).2 rest := by
  induction name generalizing j c with
  | nil => exact ⟨rfl, h.same rfl⟩
  | cons b bs ih =>
      have hrest := ih (j + 1) (h.next.same (d := c.next.storeName j) rfl)
      rw [List.length_cons, readName, h.cell, hrest.1]
      exact ⟨rfl, hrest.2⟩

/-- A length ahead is read in whichever form it is written. -/
theorem sequenceLength_spec {form : LenForm} {n : Nat} (hfits : form.Fits n)
    (h : Ahead buf byteCount c (lenBytes form n ++ rest)) :
    (sequenceLength buf c).1 = BitVec.ofNat 32 n ∧
      Ahead buf byteCount (sequenceLength buf c).2 rest := by
  cases form with
  | short =>
      have hbyte : buf.cell c.i = BitVec.ofNat 8 n := h.cell
      have hbit : buf.cell c.i &&& SNMP_MULTI_BYTE_COUNT = 0 := by
        rw [hbyte]
        exact short_top_bit _ (by rwa [toNat_ofNat_of_short hfits])
      rw [sequenceLength, if_pos hbit, hbyte]
      refine ⟨?_, h.next⟩
      apply BitVec.eq_of_toNat_eq
      simp [Nat.mod_eq_of_lt (Nat.lt_trans hfits (by decide : 128 < 256))]
  | long1 =>
      have hbyte : buf.cell c.i = 0x81 := h.cell
      have hcount : buf.cell c.next.i = BitVec.ofNat 8 n := h.next.cell
      rw [sequenceLength, hbyte, if_neg (by decide), if_pos (by decide), hcount]
      refine ⟨?_, h.next.next⟩
      apply BitVec.eq_of_toNat_eq
      simp [Nat.mod_eq_of_lt hfits]
  | long2 =>
      have hbyte : buf.cell c.i = 0x82 := h.cell
      have hhigh : buf.cell c.next.i = BitVec.ofNat 8 (n / 256) := h.next.cell
      have hlow : buf.cell (c.next.i + 1) = BitVec.ofNat 8 n := h.next.next.cell
      rw [sequenceLength, hbyte, if_neg (by decide), if_neg (by decide), if_pos (by decide),
        hhigh, hlow]
      exact ⟨shiftIn_pair hfits (by decide), h.next.next.next⟩

/-- **The header of a SEQUENCE or a GetResponse ahead is read when what it announces
is there.** -/
theorem getSequenceCount_spec {tag : Byte} {form : LenForm} {n : Nat}
    (htag : tag = SNMP_SEQUENCE ∨ tag = SNMP_GET_RESPONSE) (hfits : form.Fits n)
    (hpos : 0 < n) (hroom : n ≤ rest.length)
    (h : Ahead buf byteCount c (header tag form n ++ rest)) :
    (getSequenceCount buf c byteCount).1 ≠ 0 ∧
      Ahead buf byteCount (getSequenceCount buf c byteCount).2 rest := by
  have hcell : buf.cell c.i = tag := h.cell
  obtain ⟨hcount, hahead⟩ := sequenceLength_spec hfits h.next
  have hleft : byteCount - (sequenceLength buf c.next).2.i = rest.length := by
    have := hahead.ends
    omega
  have hn : n < 2 ^ 32 := Nat.lt_trans hfits.lt (by decide)
  have hfit : ¬ BitVec.ofNat 32 n > BitVec.ofInt 32 (rest.length : Int) := by
    rw [BitVec.ofInt_natCast, gt_iff_lt, BitVec.lt_def, BitVec.toNat_ofNat, BitVec.toNat_ofNat,
      Nat.mod_eq_of_lt hn, Nat.mod_eq_of_lt (Nat.lt_trans hahead.bound (by decide))]
    omega
  have hne : BitVec.ofNat 32 n ≠ 0 := by
    intro hzero
    have := congrArg BitVec.toNat hzero
    rw [BitVec.toNat_ofNat, Nat.mod_eq_of_lt hn] at this
    simp at this
    omega
  have heq : getSequenceCount buf c byteCount = sequenceLength buf c.next := by
    have hknown : ¬ (buf.cell c.i ≠ SNMP_SEQUENCE ∧ buf.cell c.i ≠ SNMP_GET_RESPONSE) := by
      rw [hcell, not_and_or, not_not, not_not]
      exact htag
    rw [getSequenceCount, if_neg hknown]
    simp only [hcount, hleft, if_neg hfit]
  rw [heq, hcount]
  exact ⟨hne, hahead⟩

/-- The version is read when it is there. -/
theorem readVersionNumber_spec {content : List Byte} (hshort : content.length < 128)
    (h : Ahead buf byteCount c (tlv SNMP_INTEGER .short content ++ rest)) :
    (readVersionNumber buf c byteCount).1 = 1 ∧
      Ahead buf byteCount (readVersionNumber buf c byteCount).2 rest := by
  have hahead := (getIntegerVal_spec hshort h).2
  have hin : ¬ (getIntegerVal buf c).2.i > byteCount := by
    have := hahead.ends
    omega
  rw [readVersionNumber, if_neg hin]
  exact ⟨rfl, hahead⟩

/-- So is the community. -/
theorem readCommunityName_spec {name : List Byte} (hshort : name.length < 128)
    (h : Ahead buf byteCount c (tlv SNMP_OCTET_STR .short name ++ rest)) :
    (readCommunityName buf c byteCount).1 = 1 ∧
      Ahead buf byteCount (readCommunityName buf c byteCount).2 rest := by
  have htag : buf.cell c.i = SNMP_OCTET_STR := h.cell
  have hcount : (buf.cell c.next.i).toNat = name.length := by
    rw [h.next.cell, toNat_ofNat_of_short hshort]
  have hahead := (readName_spec name 0 (c := c.next.next) h.next.next).2
  have hin : ¬ (readName buf name.length 0 c.next.next).2.i > byteCount := by
    have := hahead.ends
    omega
  rw [readCommunityName, if_neg (by simp [htag]), hcount, if_neg hin]
  exact ⟨rfl, hahead⟩

/-- And so are the three INTEGERs in front of the list. -/
theorem readRequestStatus_spec {id status index : List Byte} (hid : id.length < 128)
    (hstatus : status.length < 128) (hindex : index.length < 128)
    (h : Ahead buf byteCount c (tlv SNMP_INTEGER .short id ++
      (tlv SNMP_INTEGER .short status ++ (tlv SNMP_INTEGER .short index ++ rest)))) :
    (readRequestStatus buf c).1 = 1 ∧
      Ahead buf byteCount (readRequestStatus buf c).2 rest :=
  ⟨rfl, (getIntegerVal_spec hindex
    (getIntegerVal_spec hstatus (getIntegerVal_spec hid h).2).2).2⟩

end Helpers

end RfsAtsc
