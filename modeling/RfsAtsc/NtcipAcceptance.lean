import RfsAtsc.GetResponses
import RfsAtsc.NtcipElements

/-!
# What the reply parser accepts

A well-formed GetResponse is a SEQUENCE of a version, a community and a GetResponse of
three INTEGERs and a SEQUENCE of bindings, every length being that of what it encloses.
The parser looks at some of this as it walks through a buffer and not at the rest: what
it leaves out is listed here, and a buffer that it accepts is well formed exactly when
that holds as well.
-/

namespace RfsAtsc

open TracedMemory BerEncoding

/-! ## Well-formed messages -/

/-- The content of an INTEGER is of one byte or more, and its length of one byte. -/
structure IntegerOk (content : List Byte) : Prop where
  ne : content ≠ []
  short : content.length < 128

/-- A binding: an object identifier under the prefix, and an INTEGER. -/
structure WireBinding where
  form : LenForm
  oid : List Byte
  value : List Byte
  oid_under : ascOidPrefix.take ASC_PREFIX_LENGTH <+: oid
  oid_short : oid.length < 128
  value_ok : IntegerOk value
  fits : form.Fits (tlv SNMP_OBJECT_ID .short oid ++ tlv SNMP_INTEGER .short value).length

def WireBinding.content (b : WireBinding) : List Byte :=
  tlv SNMP_OBJECT_ID .short b.oid ++ tlv SNMP_INTEGER .short b.value

def WireBinding.bytes (b : WireBinding) : List Byte := tlv SNMP_SEQUENCE b.form b.content

/-- What a message says, and the forms of its longer lengths. -/
structure WireFields where
  version : List Byte
  community : List Byte
  requestId : List Byte
  errorStatus : List Byte
  errorIndex : List Byte
  binds : List WireBinding
  messageForm : LenForm
  pduForm : LenForm
  listForm : LenForm

def WireFields.listContent (m : WireFields) : List Byte := m.binds.flatMap WireBinding.bytes

def WireFields.pduContent (m : WireFields) : List Byte :=
  tlv SNMP_INTEGER .short m.requestId ++
    (tlv SNMP_INTEGER .short m.errorStatus ++
      (tlv SNMP_INTEGER .short m.errorIndex ++ tlv SNMP_SEQUENCE m.listForm m.listContent))

def WireFields.messageContent (m : WireFields) : List Byte :=
  tlv SNMP_INTEGER .short m.version ++
    (tlv SNMP_OCTET_STR .short m.community ++ tlv SNMP_GET_RESPONSE m.pduForm m.pduContent)

def WireFields.bytes (m : WireFields) : List Byte :=
  tlv SNMP_SEQUENCE m.messageForm m.messageContent

/-- A well-formed GetResponse. -/
structure WireMessage extends WireFields where
  version_ok : IntegerOk version
  community_short : community.length < 128
  requestId_ok : IntegerOk requestId
  errorStatus_ok : IntegerOk errorStatus
  errorIndex_ok : IntegerOk errorIndex
  list_fits : listForm.Fits toWireFields.listContent.length
  pdu_fits : pduForm.Fits toWireFields.pduContent.length
  message_fits : messageForm.Fits toWireFields.messageContent.length

/-- `buf[0..byte_count)` is a well-formed GetResponse, its lengths written in the forms that
the parser reads: one byte for a primitive, up to three for what holds others. -/
def WellFormed (buf : Mem Byte) (byteCount : Int) : Prop :=
  ∃ m : WireMessage, buf.Holds 0 m.bytes ∧ (m.bytes.length : Int) = byteCount

/-! ### Answers about the objects of `get_list` -/

/-- The content of a number is that of an INTEGER. -/
theorem IntContent.ok (v : IntContent) : IntegerOk v.content := ⟨v.content_ne, v.short⟩

/-- So is that of a byte. -/
theorem ByteContent.ok (v : ByteContent) : IntegerOk v.content := by
  refine ⟨?_, Nat.lt_of_le_of_lt v.length_le (by decide)⟩
  rcases v.spells with ⟨h, -⟩ | h
  · rw [h]
    exact List.cons_ne_nil _ _
  · rw [h]
    exact List.cons_ne_nil _ _

/-- A binding of an object of `get_list`. -/
def VarBind.toWire (b : VarBind) : WireBinding where
  form := b.form
  oid := b.object.oid
  value := b.value.content
  oid_under := List.prefix_append _ _
  oid_short := b.oid_short
  value_ok := b.value.ok
  fits := b.form.fits_of_lt b.content_bounds.1

/-- **An answer about the objects of `get_list` is a well-formed message.** -/
theorem GetResponse.wellFormed (r : GetResponse) {buf : Mem Byte}
    (hholds : buf.Holds 0 r.bytes) : WellFormed buf r.bytes.length := by
  let fields : WireFields :=
    { version := r.version.content, community := r.community,
      requestId := r.requestId.content, errorStatus := r.errorStatus.content,
      errorIndex := r.errorIndex.content,
      binds := r.binds.map VarBind.toWire,
      messageForm := r.messageForm, pduForm := r.pduForm, listForm := r.listForm }
  have hlist : fields.listContent = r.listContent := List.flatMap_map _ _ _
  have hpdu : fields.pduContent = r.pduContent := by
    rw [WireFields.pduContent, hlist]
    rfl
  have hmessage : fields.messageContent = r.messageContent := by
    rw [WireFields.messageContent, hpdu]
    rfl
  have hbytes : fields.bytes = r.bytes := by
    rw [WireFields.bytes, hmessage]
    rfl
  refine ⟨{ fields with
    version_ok := r.version.ok
    community_short := r.community_short
    requestId_ok := r.requestId.ok
    errorStatus_ok := r.errorStatus.ok
    errorIndex_ok := r.errorIndex.ok
    list_fits := hlist ▸ r.list_fits
    pdu_fits := hpdu ▸ r.pdu_fits
    message_fits := hmessage ▸ r.message_fits }, ?_, ?_⟩
  · exact hbytes ▸ hholds
  · exact congrArg (fun bs : List Byte => (bs.length : Int)) hbytes

/-! ## What the parser looks at -/

section Places

variable (buf : Mem Byte)

/-! Where the elements of a response stand, each behind the one before. -/

def versionAt : Int := headerExtent buf 0

def communityAt : Int := integerEnd buf (versionAt buf)

def responseAt : Int := communityExtent buf (communityAt buf)

def requestIdAt : Int := headerExtent buf (responseAt buf)

def errorStatusAt : Int := integerEnd buf (requestIdAt buf)

def errorIndexAt : Int := integerEnd buf (errorStatusAt buf)

def listAt : Int := integerEnd buf (errorIndexAt buf)

def objectsAt : Int := headerExtent buf (listAt buf)

/-- The value of the object at `i` stands behind its identifier. -/
def valueAt (i : Int) : Int := oidEnd buf (headerExtent buf i)

/-- The next object stands behind the value. -/
def objectBehind (i : Int) : Int := integerEnd buf (valueAt buf i)

variable (byteCount : Int)

/-- Each object begins with a count that there seems to be room for, and has no identifier
that the parser does not know. -/
def ObjectsMade : Nat → Int → Prop
  | 0, i => byteCount ≤ i
  | fuel+1, i => i < byteCount →
      HeaderPasses buf byteCount i ∧ OidTaken buf (headerExtent buf i) ∧
        ObjectsMade fuel (objectBehind buf i)

/-- The checks that the parser makes. -/
@[mk_iff] structure MadeChecks : Prop where
  message : HeaderPasses buf byteCount 0
  version : communityAt buf ≤ byteCount
  communityTag : buf.cell (communityAt buf) = SNMP_OCTET_STR
  community : responseAt buf ≤ byteCount
  response : buf.cell (responseAt buf) = SNMP_GET_RESPONSE
  pdu : HeaderPasses buf byteCount (responseAt buf)
  list : HeaderPasses buf byteCount (listAt buf)
  objects : ObjectsMade buf byteCount byteCount.toNat (objectsAt buf)

/-- A first length byte of a form that there is. -/
def StandardLength (b : Byte) : Prop := b.toNat < 128 ∨ b = 0x81 ∨ b = 0x82

/-- An INTEGER is there, with a content and a short length. -/
structure IsInteger (i : Int) : Prop where
  tag : buf.cell i = SNMP_INTEGER
  count_pos : 0 < (buf.cell (i + 1)).toNat
  count_short : (buf.cell (i + 1)).toNat < 128

/-- What the header at `i` counts reaches up to `j`. -/
def CountsUpTo (i j : Int) : Prop :=
  ((announcedCount buf i).toNat : Int) = j - headerExtent buf i

/-- A binding as its header announces it. -/
structure IsBinding (i : Int) : Prop where
  tag : buf.cell i = SNMP_SEQUENCE
  form : StandardLength (buf.cell (i + 1))
  oidTag : buf.cell (headerExtent buf i) = SNMP_OBJECT_ID
  oidShort : (buf.cell (headerExtent buf i + 1)).toNat < 128
  value : IsInteger buf (valueAt buf i)
  count : CountsUpTo buf i (objectBehind buf i)

/-- Each object is a binding, and the last ends where the message does. -/
def ObjectsOmitted : Nat → Int → Prop
  | 0, i => i = byteCount
  | fuel+1, i =>
      if i < byteCount then IsBinding buf i ∧ ObjectsOmitted fuel (objectBehind buf i)
      else i = byteCount

/-- The checks that the parser leaves out. -/
structure OmittedChecks : Prop where
  messageTag : buf.cell 0 = SNMP_SEQUENCE
  messageForm : StandardLength (buf.cell 1)
  messageCount : CountsUpTo buf 0 byteCount
  version : IsInteger buf (versionAt buf)
  communityShort : (buf.cell (communityAt buf + 1)).toNat < 128
  pduForm : StandardLength (buf.cell (responseAt buf + 1))
  pduCount : CountsUpTo buf (responseAt buf) byteCount
  requestId : IsInteger buf (requestIdAt buf)
  errorStatus : IsInteger buf (errorStatusAt buf)
  errorIndex : IsInteger buf (errorIndexAt buf)
  listTag : buf.cell (listAt buf) = SNMP_SEQUENCE
  listForm : StandardLength (buf.cell (listAt buf + 1))
  listCount : CountsUpTo buf (listAt buf) byteCount
  objects : ObjectsOmitted buf byteCount byteCount.toNat (objectsAt buf)

end Places

/-- `parse_asc_get_response` returns one, and has published a record. -/
def Accepted (buf : Mem Byte) (byteCount : Int) (asc : Atsc) : Prop :=
  ∃ r, parseAscGetResponse buf byteCount getList asc = some r ∧ r.ret = 1 ∧ r.published.isSome

/-! ## The checks that are made -/

section Made

variable (buf : Mem Byte) (byteCount : Int)

/-- The objects are parsed without an error when they all pass their checks. -/
theorem parseAscObjects_iff (fuel : Nat) (c : Cursor) (asc : Atsc) :
    (∃ p, parseAscObjects buf byteCount getList fuel c asc = some p ∧ p.ret ≠ 0) ↔
      ObjectsMade buf byteCount fuel c.i := by
  have hdone (c : Cursor) (asc : Atsc) : ∃ p : ObjectParse,
      some { ret := 1, cursor := c, asc := asc } = some p ∧ p.ret ≠ 0 :=
    ⟨_, rfl, show (1 : Int) ≠ 0 by decide⟩
  induction fuel generalizing c asc with
  | zero =>
      rw [parseAscObjects, ObjectsMade]
      by_cases hin : c.i < byteCount
      · rw [if_pos hin]
        exact iff_of_false (by simp) (by omega)
      · rw [if_neg hin]
        exact iff_of_true (hdone c asc) (by omega)
  | succ fuel ih =>
      rw [parseAscObjects, ObjectsMade]
      by_cases hin : c.i < byteCount
      · rw [if_pos hin]
        simp only
        obtain ⟨hpasses, hend⟩ := parseAscObject_ret buf byteCount asc c
        by_cases hret : (parseAscObject buf c byteCount getList asc).ret = 0
        · rw [if_pos hret]
          refine iff_of_false ?_ ?_
          · intro h
            obtain ⟨p, hp, hne⟩ := h
            rw [← Option.some.inj hp] at hne
            exact hne hret
          · intro h
            exact hpasses.mpr ⟨(h hin).1, (h hin).2.1⟩ hret
        · obtain ⟨hheader, htaken⟩ := hpasses.mp hret
          rw [if_neg hret]
          refine (ih _ _).trans ?_
          rw [hend hret]
          constructor
          · exact fun h _ => ⟨hheader, htaken, h⟩
          · exact fun h => (h hin).2.2
      · rw [if_neg hin]
        exact iff_of_true (hdone c asc) fun h => absurd h hin

/-- A record is published with every one returned, so that is all there is to look at. -/
theorem accepted_iff_ret_one (asc : Atsc) :
    Accepted buf byteCount asc ↔
      ∃ r, parseAscGetResponse buf byteCount getList asc = some r ∧ r.ret = 1 := by
  constructor
  · intro h
    obtain ⟨r, hparse, hret, -⟩ := h
    exact ⟨r, hparse, hret⟩
  · intro h
    obtain ⟨r, hparse, hret⟩ := h
    exact ⟨r, hparse, hret, (published_iff_ret_one buf byteCount hparse).mpr hret⟩

/-- Past a check that returns zero, one is returned when the check passes. -/
private theorem guard_ret_one {failed : Prop} [Decidable failed] {c : Cursor}
    {parse : Option ResponseParse} :
    (∃ r, (if failed then some { ret := 0, published := none, cursor := c } else parse) = some r ∧
        r.ret = 1) ↔
      ¬ failed ∧ ∃ r, parse = some r ∧ r.ret = 1 := by
  by_cases hfailed : failed
  · rw [if_pos hfailed]
    refine iff_of_false ?_ fun h => h.1 hfailed
    intro h
    obtain ⟨r, hr, hret⟩ := h
    rw [← Option.some.inj hr] at hret
    exact absurd hret (show ¬ (0 : Int) = 1 by decide)
  · rw [if_neg hfailed]
    exact (and_iff_right hfailed).symm

/-- The end of the parser returns one when the objects are parsed. -/
private theorem parseBindings_ret_one (c : Cursor) (asc : Atsc) :
    (∃ r, parseBindings buf byteCount getList c asc = some r ∧ r.ret = 1) ↔
      ObjectsMade buf byteCount byteCount.toNat c.i := by
  rw [← parseAscObjects_iff buf byteCount byteCount.toNat c asc]
  unfold parseBindings
  constructor
  · intro h
    obtain ⟨r, hr, hret⟩ := h
    obtain ⟨p, hp, rfl⟩ := Option.map_eq_some_iff.mp hr
    refine ⟨p, hp, fun hzero => ?_⟩
    rw [if_pos hzero] at hret
    exact absurd hret (show ¬ (0 : Int) = 1 by decide)
  · intro h
    obtain ⟨p, hp, hne⟩ := h
    rw [hp, Option.map_some, if_neg hne]
    exact ⟨_, rfl, rfl⟩

/-- **The parser returns one exactly when a buffer passes the checks it makes.** -/
theorem accepted_iff_madeChecks (asc : Atsc) :
    Accepted buf byteCount asc ↔ MadeChecks buf byteCount := by
  rw [accepted_iff_ret_one, parseAscGetResponse_eq]
  simp only [guard_ret_one, parseBindings_ret_one, not_not, ← ne_eq]
  rw [madeChecks_iff, messageHeader_passes]
  -- a station stands where the bytes say once those before it have passed
  refine and_congr_right fun hmessage => ?_
  have hcommunityAt : (versionRead buf byteCount).2.i = communityAt buf := by
    rw [versionRead_i, messageHeader_i buf byteCount hmessage]
    rfl
  have hcommunity := communityRead_passes buf byteCount
  rw [hcommunityAt] at hcommunity
  rw [versionRead_passes, hcommunityAt, hcommunity, and_assoc]
  refine and_congr_right fun _ => and_congr_right fun htag => and_congr_right fun hend => ?_
  have hresponseAt : (communityRead buf byteCount).2.i = responseAt buf := by
    rw [communityRead_i buf byteCount (hcommunity.mpr ⟨htag, hend⟩), hcommunityAt]
    rfl
  have hpdu := pduHeader_passes buf byteCount
  rw [hresponseAt] at hpdu
  rw [hresponseAt, hpdu]
  refine and_congr_right fun _ => and_congr_right fun hpasses => ?_
  have hlistAt : (errorIndexEnd buf byteCount).i = listAt buf := by
    rw [errorIndexEnd_i, errorStatusEnd_i, requestIdEnd_i,
      pduHeader_i buf byteCount (hresponseAt ▸ hpasses), hresponseAt]
    rfl
  rw [listHeader_passes, hlistAt]
  refine and_congr_right fun hlist => ?_
  rw [listHeader_i buf byteCount (hlistAt ▸ hlist), hlistAt]
  rfl

end Made

/-! ## From the checks to a message -/

section Sound

variable {buf : Mem Byte} {byteCount i : Int}

/-- From one place to another the buffer spells `bs`. -/
def SpellsTo (buf : Mem Byte) (i j : Int) (bs : List Byte) : Prop :=
  buf.Holds i bs ∧ j = i + bs.length

/-- What is spelled up to a place and on from it is spelled as a whole. -/
theorem SpellsTo.append {i j k : Int} {xs ys : List Byte} (hx : SpellsTo buf i j xs)
    (hy : SpellsTo buf j k ys) : SpellsTo buf i k (xs ++ ys) := by
  refine ⟨(buf.holds_append _ _ _).mpr ⟨hx.1, ?_⟩, ?_⟩
  · rw [← hx.2]
    exact hy.1
  · rw [hy.2, hx.2, List.length_append]
    push_cast
    omega

/-- A tag, a short length and as many bytes. -/
theorem spells_tlv_short {tag : Byte} (htag : buf.cell i = tag) {n : Nat}
    (hcount : (buf.cell (i + 1)).toNat = n) :
    SpellsTo buf i (i + 2 + n) (tlv tag .short (buf.take (i + 1 + 1) n)) := by
  refine ⟨⟨htag, ?_, buf.holds_take _ _⟩, ?_⟩
  · rw [Mem.take_length, ← hcount, ofNat_toNat_byte]
  · rw [tlv_length, Mem.take_length]
    simp only [LenForm.width]
    push_cast
    ring

/-- An INTEGER spells a tag, a short length and a content. -/
theorem IsInteger.spells (h : IsInteger buf i) :
    ∃ content, IntegerOk content ∧
      SpellsTo buf i (integerEnd buf i) (tlv SNMP_INTEGER .short content) := by
  have hlength := buf.take_length (i + 1 + 1) (buf.cell (i + 1)).toNat
  refine ⟨buf.take (i + 1 + 1) (buf.cell (i + 1)).toNat, ⟨?_, ?_⟩, ?_⟩
  · intro hnil
    rw [hnil, List.length_nil] at hlength
    have hpos := h.count_pos
    omega
  · rw [hlength]
    exact h.count_short
  · rw [integerEnd, if_neg (not_not_intro h.tag)]
    exact spells_tlv_short h.tag rfl

/-- So does an OCTET STRING. -/
theorem community_spells (htag : buf.cell i = SNMP_OCTET_STR)
    (hshort : (buf.cell (i + 1)).toNat < 128) :
    ∃ name, name.length < 128 ∧
      SpellsTo buf i (communityExtent buf i) (tlv SNMP_OCTET_STR .short name) := by
  refine ⟨buf.take (i + 1 + 1) (buf.cell (i + 1)).toNat, ?_, ?_⟩
  · rw [Mem.take_length]
    exact hshort
  · rw [communityExtent, if_neg (not_not_intro htag)]
    exact spells_tlv_short htag rfl

/-- A length of a standard form, behind its tag. -/
theorem announcedCount_spells (hform : StandardLength (buf.cell (i + 1))) :
    ∃ form : LenForm, form.Fits (announcedCount buf i).toNat ∧
      SpellsTo buf (i + 1) (i + 1 + lengthExtent (buf.cell (i + 1)))
        (lenBytes form (announcedCount buf i).toNat) := by
  have htwo : i + 1 + 1 = i + 2 := by ring
  have hthree : i + 2 + 1 = i + 3 := by ring
  unfold announcedCount lengthExtent
  rcases hform with hshort | hone | hlong
  · have hbit : buf.cell (i + 1) &&& SNMP_MULTI_BYTE_COUNT = 0 := short_top_bit _ hshort
    simp only [if_pos hbit, toNat_widen]
    exact ⟨.short, hshort, ⟨(ofNat_toNat_byte _).symm, trivial⟩, rfl⟩
  · rw [hone]
    simp only [if_neg (show ¬ (0x81 : Byte) &&& SNMP_MULTI_BYTE_COUNT = 0 by decide),
      if_pos (show (0x81 : Byte) &&& 1 ≠ 0 by decide), toNat_widen]
    refine ⟨.long1, (buf.cell (i + 2)).isLt, ⟨hone, ?_, trivial⟩, rfl⟩
    rw [htwo, ofNat_toNat_byte]
  · rw [hlong]
    simp only [if_neg (show ¬ (0x82 : Byte) &&& SNMP_MULTI_BYTE_COUNT = 0 by decide),
      if_neg (show ¬ (0x82 : Byte) &&& 1 ≠ 0 by decide),
      if_pos (show (0x82 : Byte) &&& 2 ≠ 0 by decide)]
    obtain ⟨hhigh, hlow⟩ := bytes_of_pair (buf.cell (i + 2)) (buf.cell (i + 3))
    have hbound := (buf.cell (i + 2)).isLt
    have hbound' := (buf.cell (i + 3)).isLt
    generalize hn : (buf.cell (i + 2)).toNat * 256 + (buf.cell (i + 3)).toNat = n at hhigh hlow
    have hlt : n < 65536 := by omega
    have hvalue := shiftIn_pair hlt (by decide : 16 ≤ 32)
    rw [hhigh, hlow] at hvalue
    rw [hvalue, BitVec.toNat_ofNat,
      Nat.mod_eq_of_lt (Nat.lt_trans hlt (by decide : 65536 < 2 ^ 32))]
    refine ⟨.long2, hlt, ⟨hlong, ?_, ?_, trivial⟩, rfl⟩
    · rw [htwo, hhigh]
    · rw [htwo, hthree, hlow]

/-- A header that passes, with a length of a standard form. -/
theorem header_spells (hpasses : HeaderPasses buf byteCount i)
    (hform : StandardLength (buf.cell (i + 1))) :
    ∃ form : LenForm, form.Fits (announcedCount buf i).toNat ∧
      SpellsTo buf i (headerExtent buf i)
        (header (buf.cell i) form (announcedCount buf i).toNat) := by
  obtain ⟨form, hfits, hspells⟩ := announcedCount_spells hform
  refine ⟨form, hfits, ?_⟩
  have htag : SpellsTo buf i (i + 1) [buf.cell i] := ⟨⟨rfl, trivial⟩, rfl⟩
  rw [headerExtent, if_neg fun h => hpasses.1.elim h.1 h.2]
  exact htag.append hspells

/-- A header and what it counts are a whole. -/
theorem SpellsTo.whole {i j k : Int} {tag : Byte} {form : LenForm} {n : Nat}
    {content : List Byte} (hheader : SpellsTo buf i j (header tag form n))
    (hcontent : SpellsTo buf j k content) (hcount : (n : Int) = k - j) :
    content.length = n ∧ SpellsTo buf i k (tlv tag form content) := by
  have hlength : content.length = n := by
    have hend := hcontent.2
    omega
  refine ⟨hlength, ?_⟩
  rw [tlv, hlength]
  exact hheader.append hcontent

/-! ### Objects -/

/-- Ten bytes that compare equal to the prefix are the prefix. -/
theorem prefix_of_strncmpEq {bs : List Byte} (hlength : bs.length = ASC_PREFIX_LENGTH)
    (h : strncmpEq 255 (bs ++ [0]) ascOidPrefix = true) :
    bs = ascOidPrefix.take ASC_PREFIX_LENGTH := by
  have hwhole : (bs ++ [0]).take 255 = bs ++ [0] := by
    apply List.take_of_length_le
    rw [List.length_append, hlength]
    decide
  have hten : (ascOidPrefix.take 255).takeWhile (· ≠ 0) =
      ascOidPrefix.take ASC_PREFIX_LENGTH := by decide
  have hsame : (bs ++ [0]).takeWhile (· ≠ 0) = ascOidPrefix.take ASC_PREFIX_LENGTH := by
    rw [strncmpEq, hwhole, hten] at h
    exact eq_of_beq h
  have hsplit := List.takeWhile_append_dropWhile (p := fun b : Byte => decide (b ≠ 0))
    (l := bs ++ [0])
  rw [hsame] at hsplit
  exact (List.append_inj_left hsplit (by rw [hlength]; decide)).symm

/-- No object of the list has an empty end. -/
private theorem getList_not_nil : ∀ object ∈ getList, ¬ strncmpEq 255 ([] ++ [0]) object.id := by
  decide

/-- An identifier that is taken, with its tag, is one under the prefix. -/
theorem oid_spells (htaken : OidTaken buf i) (htag : buf.cell i = SNMP_OBJECT_ID) :
    ∃ oid : List Byte, ascOidPrefix.take ASC_PREFIX_LENGTH <+: oid ∧
      oid.length = (buf.cell (i + 1)).toNat ∧
      SpellsTo buf i (oidEnd buf i) (tlv SNMP_OBJECT_ID .short oid) := by
  generalize hcount : (buf.cell (i + 1)).toNat = count
  obtain ⟨hunder, object, hobject, hsame⟩ := htaken htag
  have hten : buf.take (i + 2) ASC_PREFIX_LENGTH = ascOidPrefix.take ASC_PREFIX_LENGTH :=
    prefix_of_strncmpEq (buf.take_length _ _) hunder
  have hlong : ASC_PREFIX_LENGTH ≤ count := by
    by_contra hshort
    have hnone : (buf.cell (i + 1)).toNat - ASC_PREFIX_LENGTH = 0 := by omega
    rw [suffixRead, hnone] at hsame
    exact getList_not_nil object hobject hsame
  have hsplit : count = ASC_PREFIX_LENGTH + (count - ASC_PREFIX_LENGTH) := by omega
  refine ⟨buf.take (i + 1 + 1) count, ?_, buf.take_length _ _, ?_⟩
  · rw [hsplit, Mem.take_add, show i + 1 + 1 = i + 2 by ring, hten]
    exact List.prefix_append _ _
  · have hend : oidEnd buf i = i + 2 + count := by
      rw [oidEnd, if_neg (not_not_intro htag), hcount]
      omega
    rw [hend]
    exact spells_tlv_short htag hcount

/-- A binding that passes all the checks is one. -/
theorem IsBinding.spells (h : IsBinding buf i) (hheader : HeaderPasses buf byteCount i)
    (htaken : OidTaken buf (headerExtent buf i)) :
    ∃ b : WireBinding, SpellsTo buf i (objectBehind buf i) b.bytes := by
  obtain ⟨form, hfits, hheader⟩ := header_spells hheader h.form
  obtain ⟨oid, hunder, hlength, hoid⟩ := oid_spells htaken h.oidTag
  obtain ⟨value, hvalueOk, hvalue⟩ := h.value.spells
  obtain ⟨hcontent, hbytes⟩ := hheader.whole (hoid.append hvalue) h.count
  rw [h.tag] at hbytes
  have hfits' : form.Fits
      (tlv SNMP_OBJECT_ID .short oid ++ tlv SNMP_INTEGER .short value).length := by
    rw [hcontent]
    exact hfits
  exact ⟨{ form := form, oid := oid, value := value, oid_under := hunder,
           oid_short := by rw [hlength]; exact h.oidShort, value_ok := hvalueOk,
           fits := hfits' }, hbytes⟩

/-- Objects that pass all the checks are bindings up to the end of the message. -/
theorem objects_spell (fuel : Nat) (hmade : ObjectsMade buf byteCount fuel i)
    (homitted : ObjectsOmitted buf byteCount fuel i) :
    ∃ binds : List WireBinding, SpellsTo buf i byteCount (binds.flatMap WireBinding.bytes) := by
  have hnone (i : Int) (h : i = byteCount) : ∃ binds : List WireBinding,
      SpellsTo buf i byteCount (binds.flatMap WireBinding.bytes) :=
    ⟨[], trivial, by simp [h]⟩
  induction fuel generalizing i with
  | zero => exact hnone i homitted
  | succ fuel ih =>
      rw [ObjectsMade] at hmade
      rw [ObjectsOmitted] at homitted
      by_cases hin : i < byteCount
      · rw [if_pos hin] at homitted
        obtain ⟨hheader, htaken, hrest⟩ := hmade hin
        obtain ⟨b, hb⟩ := homitted.1.spells hheader htaken
        obtain ⟨binds, hbinds⟩ := ih hrest homitted.2
        refine ⟨b :: binds, ?_⟩
        rw [List.flatMap_cons]
        exact hb.append hbinds
      · rw [if_neg hin] at homitted
        exact hnone i homitted

/-- **A buffer that passes the checks made and those left out is a well-formed message.** -/
theorem wellFormed_of_checks (hmade : MadeChecks buf byteCount)
    (homitted : OmittedChecks buf byteCount) : WellFormed buf byteCount := by
  -- the headers and primitives, front to back
  obtain ⟨messageForm, hmessageFits, hmessage⟩ :=
    header_spells hmade.message homitted.messageForm
  obtain ⟨version, hversionOk, hversion⟩ := homitted.version.spells
  obtain ⟨community, hcommunityShort, hcommunity⟩ :=
    community_spells hmade.communityTag homitted.communityShort
  obtain ⟨pduForm, hpduFits, hpdu⟩ := header_spells hmade.pdu homitted.pduForm
  obtain ⟨requestId, hrequestIdOk, hrequestId⟩ := homitted.requestId.spells
  obtain ⟨errorStatus, herrorStatusOk, herrorStatus⟩ := homitted.errorStatus.spells
  obtain ⟨errorIndex, herrorIndexOk, herrorIndex⟩ := homitted.errorIndex.spells
  obtain ⟨listForm, hlistFits, hlist⟩ := header_spells hmade.list homitted.listForm
  obtain ⟨binds, hobjects⟩ := objects_spell byteCount.toNat hmade.objects homitted.objects
  -- the lengths, from the innermost out, all up to the end of the message
  obtain ⟨hlistLength, hlistBytes⟩ := hlist.whole hobjects homitted.listCount
  rw [homitted.listTag] at hlistBytes
  obtain ⟨hpduLength, hpduBytes⟩ := hpdu.whole
    (hrequestId.append (herrorStatus.append (herrorIndex.append hlistBytes))) homitted.pduCount
  rw [hmade.response] at hpduBytes
  obtain ⟨hmessageLength, hmessageBytes⟩ := hmessage.whole
    (hversion.append (hcommunity.append hpduBytes)) homitted.messageCount
  rw [homitted.messageTag] at hmessageBytes
  let fields : WireFields :=
    { version := version, community := community, requestId := requestId,
      errorStatus := errorStatus, errorIndex := errorIndex, binds := binds,
      messageForm := messageForm, pduForm := pduForm, listForm := listForm }
  refine ⟨{ fields with
    version_ok := hversionOk
    community_short := hcommunityShort
    requestId_ok := hrequestIdOk
    errorStatus_ok := herrorStatusOk
    errorIndex_ok := herrorIndexOk
    list_fits := hlistLength ▸ hlistFits
    pdu_fits := hpduLength ▸ hpduFits
    message_fits := hmessageLength ▸ hmessageFits }, hmessageBytes.1, ?_⟩
  have hwhole := hmessageBytes.2
  rw [Int.zero_add] at hwhole
  exact hwhole.symm

end Sound

/-! ## From a message to the checks -/

section Complete

variable {buf : Mem Byte} {byteCount i j : Int} {rest : List Byte}

/-- The first byte spelled is the one at the place. -/
theorem SpellsTo.cell {b : Byte} {bs : List Byte} (h : SpellsTo buf i j (b :: bs)) :
    buf.cell i = b :=
  h.1.1

/-- Behind some of what is spelled stands the rest. -/
theorem SpellsTo.behind {bs : List Byte} (h : SpellsTo buf i j (bs ++ rest)) {k : Int}
    (hk : k = i + bs.length) : SpellsTo buf k j rest := by
  obtain ⟨hholds, hend⟩ := h
  rw [Mem.holds_append] at hholds
  rw [List.length_append] at hend
  exact ⟨hk ▸ hholds.2, by push_cast at hend; omega⟩

/-- Behind the first byte stands the rest. -/
theorem SpellsTo.next {b : Byte} {bs : List Byte} (h : SpellsTo buf i j (b :: bs)) :
    SpellsTo buf (i + 1) j bs := by
  have hsplit : SpellsTo buf i j ([b] ++ bs) := h
  exact hsplit.behind rfl

/-- A short length is the byte behind the tag. -/
theorem SpellsTo.count {tag : Byte} {content : List Byte} (hshort : content.length < 128)
    (h : SpellsTo buf i j (tlv tag .short content ++ rest)) :
    (buf.cell (i + 1)).toNat = content.length := by
  have hbyte : buf.cell (i + 1) = BitVec.ofNat 8 content.length := h.next.cell
  rw [hbyte, toNat_ofNat_of_short hshort]

/-- So the whole ends where the byte says. -/
theorem SpellsTo.behind_short {tag : Byte} {content : List Byte} (hshort : content.length < 128)
    (h : SpellsTo buf i j (tlv tag .short content ++ rest)) :
    SpellsTo buf (i + 2 + (buf.cell (i + 1)).toNat) j rest := by
  refine h.behind ?_
  rw [h.count hshort, tlv_length]
  simp only [LenForm.width]
  push_cast
  ring

/-- An INTEGER that is spelled is one, and the rest stands behind it. -/
theorem IsInteger.of_spells {content : List Byte} (hok : IntegerOk content)
    (h : SpellsTo buf i j (tlv SNMP_INTEGER .short content ++ rest)) :
    IsInteger buf i ∧ SpellsTo buf (integerEnd buf i) j rest := by
  have htag : buf.cell i = SNMP_INTEGER := h.cell
  have hcount := h.count hok.short
  refine ⟨⟨htag, ?_, ?_⟩, ?_⟩
  · rw [hcount]
    exact List.length_pos_iff.mpr hok.ne
  · rw [hcount]
    exact hok.short
  · rw [integerEnd, if_neg (not_not_intro htag)]
    exact h.behind_short hok.short

/-- So it is with an OCTET STRING. -/
theorem community_of_spells {name : List Byte} (hshort : name.length < 128)
    (h : SpellsTo buf i j (tlv SNMP_OCTET_STR .short name ++ rest)) :
    (buf.cell (i + 1)).toNat < 128 ∧ SpellsTo buf (communityExtent buf i) j rest := by
  have htag : buf.cell i = SNMP_OCTET_STR := h.cell
  refine ⟨?_, ?_⟩
  · rw [h.count hshort]
    exact hshort
  · rw [communityExtent, if_neg (not_not_intro htag)]
    exact h.behind_short hshort

/-- A length is announced as what it is, in whichever form it is written. -/
theorem announcedCount_of_spells {form : LenForm} {n : Nat} (hfits : form.Fits n)
    (h : SpellsTo buf (i + 1) j (lenBytes form n ++ rest)) :
    StandardLength (buf.cell (i + 1)) ∧ (announcedCount buf i).toNat = n ∧
      SpellsTo buf (i + 1 + lengthExtent (buf.cell (i + 1))) j rest := by
  let d : Cursor := { i := i + 1, reads := [], nameStores := [] }
  have hahead : Ahead buf (i + 1 + (lenBytes form n).length) d (lenBytes form n ++ []) := by
    rw [List.append_nil]
    refine ⟨((buf.holds_append _ _ _).mp h.1).1, rfl, ?_⟩
    rw [lenBytes_length]
    cases form <;> decide
  obtain ⟨hannounced, hextent⟩ := sequenceLength_announced buf i (d := d) rfl
  obtain ⟨hvalue, hbehind⟩ := sequenceLength_spec hfits hahead
  refine ⟨?_, ?_, h.behind ?_⟩
  · cases form with
    | short =>
        have hbyte : buf.cell (i + 1) = BitVec.ofNat 8 n := h.cell
        left
        rw [hbyte, toNat_ofNat_of_short hfits]
        exact hfits
    | long1 => exact Or.inr (Or.inl h.cell)
    | long2 => exact Or.inr (Or.inr h.cell)
  · rw [← hannounced, hvalue, BitVec.toNat_ofNat]
    exact Nat.mod_eq_of_lt (Nat.lt_trans hfits.lt (by decide))
  · have hends := hbehind.ends
    rw [hextent, List.length_nil] at hends
    omega

/-- The header of a whole that passes counts its content. -/
theorem header_of_spells {tag : Byte} {form : LenForm} {content : List Byte}
    (hfits : form.Fits content.length) (hpasses : HeaderPasses buf byteCount i)
    (h : SpellsTo buf i j (tlv tag form content ++ rest)) :
    buf.cell i = tag ∧ StandardLength (buf.cell (i + 1)) ∧
      (announcedCount buf i).toNat = content.length ∧
      SpellsTo buf (headerExtent buf i) j (content ++ rest) := by
  rw [tlv, List.append_assoc] at h
  obtain ⟨hform, hcount, hcontent⟩ := announcedCount_of_spells hfits h.next
  refine ⟨h.cell, hform, hcount, ?_⟩
  rw [headerExtent, if_neg fun hnot => hpasses.1.elim hnot.1 hnot.2]
  exact hcontent

/-- A count is that of all that is left. -/
theorem SpellsTo.countsUpTo {content : List Byte}
    (h : SpellsTo buf (headerExtent buf i) j (content ++ []))
    (hcount : (announcedCount buf i).toNat = content.length) : CountsUpTo buf i j := by
  have hend := h.2
  rw [List.append_nil] at hend
  unfold CountsUpTo
  omega

/-- A binding is announced as what it is, and the next object stands behind it. -/
theorem IsBinding.of_spells (b : WireBinding) (h : SpellsTo buf i j (b.bytes ++ rest))
    (hheader : HeaderPasses buf byteCount i) (htaken : OidTaken buf (headerExtent buf i)) :
    IsBinding buf i ∧ SpellsTo buf (objectBehind buf i) j rest := by
  obtain ⟨htag, hform, hcount, hcontent⟩ := header_of_spells b.fits hheader h
  rw [List.append_assoc] at hcontent
  have hoidTag : buf.cell (headerExtent buf i) = SNMP_OBJECT_ID := hcontent.cell
  have hoidCount := hcontent.count b.oid_short
  obtain ⟨oid, -, hlength, hoid⟩ := oid_spells htaken hoidTag
  have hvalue : SpellsTo buf (valueAt buf i) j (tlv SNMP_INTEGER .short b.value ++ rest) := by
    refine hcontent.behind ?_
    rw [tlv_length, ← hoidCount, ← hlength, ← tlv_length SNMP_OBJECT_ID .short oid]
    exact hoid.2
  obtain ⟨hinteger, hbehind⟩ := IsInteger.of_spells b.value_ok hvalue
  refine ⟨⟨htag, hform, hoidTag, ?_, hinteger, ?_⟩, hbehind⟩
  · rw [hoidCount]
    exact b.oid_short
  · have hstart := hcontent.2
    have hstop := hbehind.2
    unfold CountsUpTo objectBehind
    rw [hcount]
    simp only [List.length_append] at hstart ⊢
    push_cast at hstart ⊢
    omega

/-- Bindings up to the end of the message are objects one by one. -/
theorem objectsOmitted_of_spells (fuel : Nat) (binds : List WireBinding)
    (hmade : ObjectsMade buf byteCount fuel i)
    (h : SpellsTo buf i byteCount (binds.flatMap WireBinding.bytes)) :
    ObjectsOmitted buf byteCount fuel i := by
  have hend := h.2
  induction fuel generalizing i binds with
  | zero =>
      rw [ObjectsMade] at hmade
      rw [ObjectsOmitted]
      omega
  | succ fuel ih =>
      rw [ObjectsMade] at hmade
      rw [ObjectsOmitted]
      by_cases hin : i < byteCount
      · rw [if_pos hin]
        obtain ⟨hheader, htaken, hmore⟩ := hmade hin
        cases binds with
        | nil =>
            rw [List.flatMap_nil, List.length_nil] at hend
            omega
        | cons b binds =>
            rw [List.flatMap_cons] at h
            obtain ⟨hb, hrest⟩ := IsBinding.of_spells b h hheader htaken
            exact ⟨hb, ih binds hmore hrest hrest.2⟩
      · rw [if_neg hin]
        omega

/-- **A well-formed message that passes the checks made passes those left out.** -/
theorem omittedChecks_of_wellFormed (hmade : MadeChecks buf byteCount)
    (hwell : WellFormed buf byteCount) : OmittedChecks buf byteCount := by
  obtain ⟨m, hholds, hlength⟩ := hwell
  have hstart : SpellsTo buf 0 byteCount (m.bytes ++ []) := by
    rw [List.append_nil]
    exact ⟨hholds, by omega⟩
  obtain ⟨hmessageTag, hmessageForm, hmessageCount, hmessage⟩ :=
    header_of_spells m.message_fits hmade.message hstart
  have hversion := hmessage
  rw [List.append_nil, WireFields.messageContent] at hversion
  obtain ⟨hversionInteger, hcommunity⟩ := IsInteger.of_spells m.version_ok hversion
  obtain ⟨hcommunityShort, hpdu⟩ := community_of_spells m.community_short hcommunity
  rw [← List.append_nil (tlv SNMP_GET_RESPONSE _ _)] at hpdu
  obtain ⟨-, hpduForm, hpduCount, hpduContent⟩ := header_of_spells m.pdu_fits hmade.pdu hpdu
  have hrequestId := hpduContent
  rw [List.append_nil, WireFields.pduContent] at hrequestId
  obtain ⟨hrequestIdInteger, herrorStatus⟩ := IsInteger.of_spells m.requestId_ok hrequestId
  obtain ⟨herrorStatusInteger, herrorIndex⟩ :=
    IsInteger.of_spells m.errorStatus_ok herrorStatus
  obtain ⟨herrorIndexInteger, hlist⟩ := IsInteger.of_spells m.errorIndex_ok herrorIndex
  rw [← List.append_nil (tlv SNMP_SEQUENCE _ _)] at hlist
  obtain ⟨hlistTag, hlistForm, hlistCount, hlistContent⟩ :=
    header_of_spells m.list_fits hmade.list hlist
  have hobjects := hlistContent
  rw [List.append_nil] at hobjects
  exact {
    messageTag := hmessageTag
    messageForm := hmessageForm
    messageCount := hmessage.countsUpTo hmessageCount
    version := hversionInteger
    communityShort := hcommunityShort
    pduForm := hpduForm
    pduCount := hpduContent.countsUpTo hpduCount
    requestId := hrequestIdInteger
    errorStatus := herrorStatusInteger
    errorIndex := herrorIndexInteger
    listTag := hlistTag
    listForm := hlistForm
    listCount := hlistContent.countsUpTo hlistCount
    objects := objectsOmitted_of_spells byteCount.toNat m.binds hmade.objects hobjects }

end Complete

/-- **What the parser accepts is well formed exactly when a buffer that passes the checks
it makes passes those it leaves out.** -/
theorem accepted_wellFormed_iff (buf : Mem Byte) (byteCount : Int) (asc : Atsc) :
    (Accepted buf byteCount asc → WellFormed buf byteCount) ↔
      (MadeChecks buf byteCount → OmittedChecks buf byteCount) := by
  rw [accepted_iff_madeChecks]
  constructor
  · intro h hmade
    exact omittedChecks_of_wellFormed hmade (h hmade)
  · intro h hmade
    exact wellFormed_of_checks hmade (h hmade)

/-! ## An ill-formed buffer that is accepted -/

/-- A SEQUENCE of one byte with no version, a GetResponse without its INTEGERs, and a
binding without an identifier. -/
def hollowResponse : List Byte :=
  [0x30, 0x01, 0x04, 0x00, 0xa2, 0x01, 0x30, 0x01, 0x30, 0x03, 0x02, 0x01, 0x05]

/-- A record on the stack, all zeros. -/
def stackAtsc : Atsc where
  vehicleDetectorStatus := Mem.ofList 0 []
  phaseStatusReds := Mem.ofList 0 []
  phaseStatusYellows := Mem.ofList 0 []
  phaseStatusGreens := Mem.ofList 0 []
  phaseStatusOns := Mem.ofList 0 []
  phaseStatusNext := Mem.ofList 0 []
  infoSource := 0

/-- It passes every check that is made. -/
theorem hollowResponse_madeChecks : MadeChecks (Mem.ofList 0 hollowResponse) 13 where
  message := by decide
  version := by decide
  communityTag := by decide
  community := by decide
  response := by decide
  pdu := by decide
  list := by decide
  objects := by
    intro _
    refine ⟨by decide, by decide, fun h => ?_⟩
    exact absurd h (by decide)

/-- **Not every buffer that the parser accepts is a well-formed GetResponse.** -/
theorem accepted_not_always_wellFormed :
    ¬ ∀ (buf : Mem Byte) (byteCount : Int) (asc : Atsc),
      Accepted buf byteCount asc → WellFormed buf byteCount := by
  intro hall
  have hmade := hollowResponse_madeChecks
  have hwell := hall (Mem.ofList 0 hollowResponse) 13 stackAtsc
    ((accepted_iff_madeChecks _ _ _).mpr hmade)
  exact absurd (omittedChecks_of_wellFormed hmade hwell).version.tag (by decide)

end RfsAtsc
