import RfsAtsc.NtcipParse

/-!
# The elements that the reply parser comes to

The parser goes from element to element: a header, an INTEGER, an OCTET STRING, an OBJECT
IDENTIFIER.  The bytes at its place alone tell how far an element is read, whether it passes,
and where the parser goes on behind it.  The cursors of the helpers are related to these
places here, and do not appear in what is said of a buffer later.
-/

namespace RfsAtsc

open TracedMemory BerEncoding

/-! ## Elements -/

section Elements

variable (buf : Mem Byte)

/-- The end of an INTEGER; nothing is read behind another tag. -/
def integerExtent (i : Int) : Int :=
  if buf.cell i ≠ SNMP_INTEGER then i + 1 else i + 2 + (buf.cell (i + 1)).toNat

/-- How many bytes a length takes, by its first. -/
def lengthExtent (b : Byte) : Int :=
  if b &&& SNMP_MULTI_BYTE_COUNT = 0 then 1
  else if b &&& 1 ≠ 0 then 2
  else if b &&& 2 ≠ 0 then 3
  else 1

/-- The end of the header of a SEQUENCE or a GetResponse. -/
def headerExtent (i : Int) : Int :=
  if buf.cell i ≠ SNMP_SEQUENCE ∧ buf.cell i ≠ SNMP_GET_RESPONSE then i + 1
  else i + 1 + lengthExtent (buf.cell (i + 1))

/-- The end of an OCTET STRING. -/
def communityExtent (i : Int) : Int :=
  if buf.cell i ≠ SNMP_OCTET_STR then i + 1 else i + 2 + (buf.cell (i + 1)).toNat

/-- The ten bytes compared with the prefix. -/
def prefixRead (i : Int) : List Byte := buf.take i ASC_PREFIX_LENGTH ++ [0]

/-- The end of an OBJECT IDENTIFIER: ten bytes at least, whatever its length, and no more
of one that is not under the prefix. -/
def oidExtent (i : Int) : Int :=
  if buf.cell i ≠ SNMP_OBJECT_ID then i + 1
  else if ¬ strncmpEq 255 (prefixRead buf (i + 2)) ascOidPrefix then i + 2 + ASC_PREFIX_LENGTH
  else i + 2 + ASC_PREFIX_LENGTH + ((buf.cell (i + 1)).toNat - ASC_PREFIX_LENGTH : Nat)

/-! ### Where the parser goes on -/

/-- What a header announces. -/
def announcedCount (i : Int) : BitVec 32 :=
  let first := buf.cell (i + 1)
  if first &&& SNMP_MULTI_BYTE_COUNT = 0 then first.setWidth 32
  else if first &&& 1 ≠ 0 then (buf.cell (i + 2)).setWidth 32
  else if first &&& 2 ≠ 0 then
    shiftIn ((buf.cell (i + 2)).setWidth 32) (buf.cell (i + 3))
  else 0

/-- The header has its tag, and announces something that there is room for. -/
def HeaderPasses (byteCount i : Int) : Prop :=
  (buf.cell i = SNMP_SEQUENCE ∨ buf.cell i = SNMP_GET_RESPONSE) ∧ announcedCount buf i ≠ 0 ∧
    announcedCount buf i ≤ BitVec.ofInt 32 (byteCount - headerExtent buf i)

instance (byteCount i : Int) : Decidable (HeaderPasses buf byteCount i) :=
  inferInstanceAs (Decidable (_ ∧ _ ∧ _))

/-- Behind an INTEGER, or where one was expected. -/
def integerEnd (i : Int) : Int :=
  if buf.cell i ≠ SNMP_INTEGER then i else i + 2 + (buf.cell (i + 1)).toNat

/-- Behind an OBJECT IDENTIFIER, or where one was expected. -/
def oidEnd (i : Int) : Int :=
  if buf.cell i ≠ SNMP_OBJECT_ID then i
  else i + 2 + ASC_PREFIX_LENGTH + ((buf.cell (i + 1)).toNat - ASC_PREFIX_LENGTH : Nat)

/-- The bytes compared with the identifiers of `get_list`. -/
def suffixRead (i : Int) : List Byte :=
  buf.take (i + 2 + ASC_PREFIX_LENGTH) ((buf.cell (i + 1)).toNat - ASC_PREFIX_LENGTH) ++ [0]

/-- An OBJECT IDENTIFIER that the parser takes; it takes anything else as well. -/
def OidTaken (i : Int) : Prop :=
  buf.cell i = SNMP_OBJECT_ID →
    strncmpEq 255 (prefixRead buf (i + 2)) ascOidPrefix ∧
      ∃ oid ∈ getList, strncmpEq 255 (suffixRead buf i) oid.id

instance (i : Int) : Decidable (OidTaken buf i) :=
  inferInstanceAs (Decidable (_ → _ ∧ _))

end Elements

/-! ## What the helpers make of an element -/

section Helpers

variable (buf : Mem Byte) (byteCount : Int) (c : Cursor)

/-- A name read is the bytes read, closed by a zero. -/
theorem readName_eq (n : Nat) (j : Int) :
    (readName buf n j c).1 = buf.take c.i n ++ [0] := by
  induction n generalizing j c with
  | zero => rfl
  | succ n ih =>
      rw [readName, ih]
      rfl

/-- The length behind a tag is read as it is announced. -/
theorem sequenceLength_announced (i : Int) {d : Cursor} (hd : d.i = i + 1) :
    (sequenceLength buf d).1 = announcedCount buf i ∧
      (sequenceLength buf d).2.i = i + 1 + lengthExtent (buf.cell (i + 1)) := by
  have htwo : i + 1 + 1 = i + 2 := by ring
  have hthree : i + 2 + 1 = i + 3 := by ring
  have hnext (e : Cursor) : e.next.i = e.i + 1 := rfl
  simp only [sequenceLength, announcedCount, lengthExtent, Cursor.next_i, hd, htwo, hthree]
  split_ifs
  · exact ⟨rfl, by simp only [hnext, hd]⟩
  · exact ⟨rfl, by simp only [hnext, hd]; ring⟩
  · exact ⟨rfl, by simp only [hnext, hd]; ring⟩
  · exact ⟨rfl, by simp only [hnext, hd]⟩

/-- A sequence count is not zero when its header passes, and then stands behind it. -/
theorem getSequenceCount_passes :
    (getSequenceCount buf c byteCount).1 ≠ 0 ↔ HeaderPasses buf byteCount c.i := by
  obtain ⟨hcount, hlength⟩ := sequenceLength_announced buf c.i (d := c.next) rfl
  unfold getSequenceCount HeaderPasses
  by_cases htag : buf.cell c.i ≠ SNMP_SEQUENCE ∧ buf.cell c.i ≠ SNMP_GET_RESPONSE
  · rw [if_pos htag]
    exact iff_of_false (not_not_intro rfl) fun h => h.1.elim htag.1 htag.2
  · have hpass : buf.cell c.i = SNMP_SEQUENCE ∨ buf.cell c.i = SNMP_GET_RESPONSE := by
      by_contra h
      exact htag (not_or.mp h)
    have hroom : headerExtent buf c.i = (sequenceLength buf c.next).2.i := by
      rw [hlength, headerExtent, if_neg htag]
    rw [if_neg htag, hroom]
    simp only [hcount]
    split_ifs with hmore
    · exact iff_of_false (not_not_intro rfl) fun h => BitVec.not_lt.mpr h.2.2 hmore
    · rw [hcount]
      exact ⟨fun h => ⟨hpass, h, BitVec.not_lt.mp hmore⟩, fun h => h.2.1⟩

/-- A header that passes leaves the index behind it. -/
theorem getSequenceCount_i (h : HeaderPasses buf byteCount c.i) :
    (getSequenceCount buf c byteCount).2.i = headerExtent buf c.i := by
  have htag : ¬ (buf.cell c.i ≠ SNMP_SEQUENCE ∧ buf.cell c.i ≠ SNMP_GET_RESPONSE) :=
    fun hnot => h.1.elim hnot.1 hnot.2
  obtain ⟨-, hlength⟩ := sequenceLength_announced buf c.i (d := c.next) rfl
  unfold getSequenceCount headerExtent
  rw [if_neg htag, if_neg htag, ← hlength]
  simp only
  split_ifs
  · rfl
  · rfl

/-- An INTEGER leaves the index behind it, or where it was. -/
theorem getIntegerVal_i : (getIntegerVal buf c).2.i = integerEnd buf c.i := by
  unfold getIntegerVal integerEnd
  split_ifs
  · rfl
  · rw [valLoop_i, Cursor.next_i, Cursor.next_i]
    ring

/-- A community is read when it has its tag and ends in the message. -/
theorem readCommunityName_passes :
    (readCommunityName buf c byteCount).1 ≠ 0 ↔
      buf.cell c.i = SNMP_OCTET_STR ∧ communityExtent buf c.i ≤ byteCount := by
  unfold readCommunityName communityExtent
  by_cases htag : buf.cell c.i = SNMP_OCTET_STR
  · have hend : (readName buf (buf.cell c.next.i).toNat 0 c.next.next).2.i =
        c.i + 2 + (buf.cell (c.i + 1)).toNat := by
      rw [readName_i, Cursor.next_i, Cursor.next_i]
      ring
    simp only [if_neg (not_not_intro htag), hend]
    rw [and_iff_right htag, ← not_lt]
    split_ifs with hout
    · exact iff_of_false (not_not_intro rfl) (not_not_intro hout)
    · exact iff_of_true (show (1 : Int) ≠ 0 by decide) hout
  · rw [if_pos htag]
    exact iff_of_false (not_not_intro rfl) fun h => htag h.1

/-- A community that is read leaves the index behind it. -/
theorem readCommunityName_i (h : (readCommunityName buf c byteCount).1 ≠ 0) :
    (readCommunityName buf c byteCount).2.i = communityExtent buf c.i := by
  unfold readCommunityName communityExtent at *
  split_ifs at h ⊢ with htag
  · exact absurd rfl h
  · simp only at h ⊢
    split_ifs at h ⊢ with hout
    · exact absurd rfl h
    · rw [readName_i]
      simp only [Cursor.next_i]
      ring

/-- Every object of `get_list` is of a type that is known, and the first of its group. -/
theorem getList_known : ∀ oid ∈ getList,
    oid.type ≠ UNKNOWN_OBJECT_TYPE ∧ (oid.id.getD (oid.idLength - 1) 0).toNat = 1 := by
  intro oid hoid
  simp only [getList, List.mem_cons, List.not_mem_nil, or_false] at hoid
  rcases hoid with rfl | rfl | rfl | rfl | rfl | rfl
  all_goals exact ⟨by decide, rfl⟩

/-- An object is known when its identifier is taken, or not there. -/
theorem parseOid_taken :
    ((parseOid buf c getList).type ≠ UNKNOWN_OBJECT_TYPE ↔ OidTaken buf c.i) ∧
      ((parseOid buf c getList).type ≠ UNKNOWN_OBJECT_TYPE →
        (parseOid buf c getList).cursor.i = oidEnd buf c.i) := by
  have htwo : c.i + 1 + 1 = c.i + 2 := by ring
  unfold parseOid OidTaken oidEnd prefixRead suffixRead
  by_cases htag : buf.cell c.i = SNMP_OBJECT_ID
  · simp only [htag, ne_eq, not_true_eq_false, if_false, forall_const, readName_eq, readName_i,
      Cursor.next_i, htwo]
    by_cases hunder : strncmpEq 255 (buf.take (c.i + 2) ASC_PREFIX_LENGTH ++ [0]) ascOidPrefix
    · rw [if_neg (not_not_intro hunder)]
      split
      · rename_i oid hfind
        have hmem := List.mem_of_find?_eq_some hfind
        have hsame := List.find?_some hfind
        refine ⟨iff_of_true (getList_known oid hmem).1 ⟨hunder, oid, hmem, ?_⟩, fun _ => ?_⟩
        · exact hsame
        · rw [readName_i, readName_i]
          simp only [Cursor.next_i, htwo]
      · rename_i hfind
        refine ⟨iff_of_false (not_not_intro rfl) fun h => ?_, fun h => absurd rfl h⟩
        obtain ⟨-, oid, hmem, hsame⟩ := h
        exact List.find?_eq_none.mp hfind oid hmem hsame
    · rw [if_pos hunder]
      exact ⟨iff_of_false (not_not_intro rfl) fun h => hunder h.1, fun h => absurd rfl h⟩
  · simp only [htag, ne_eq, not_false_eq_true, if_true, false_implies, Cursor.back_i]
    exact ⟨iff_of_true (show (0 : Int) ≠ UNKNOWN_OBJECT_TYPE by decide) trivial, fun _ => trivial⟩

end Helpers

/-! ## The stations of the parser -/

section Stations

variable (buf : Mem Byte) (byteCount : Int)

/-! What each part of `parse_asc_get_response` gives, begun where the one before has ended. -/

def messageHeader : BitVec 32 × Cursor := getSequenceCount buf Cursor.start byteCount

def versionRead : Int × Cursor := readVersionNumber buf (messageHeader buf byteCount).2 byteCount

def communityRead : Int × Cursor := readCommunityName buf (versionRead buf byteCount).2 byteCount

def pduHeader : BitVec 32 × Cursor :=
  getSequenceCount buf (communityRead buf byteCount).2.read byteCount

def requestIdEnd : Cursor := (getIntegerVal buf (pduHeader buf byteCount).2).2

def errorStatusEnd : Cursor := (getIntegerVal buf (requestIdEnd buf byteCount)).2

def errorIndexEnd : Cursor := (getIntegerVal buf (errorStatusEnd buf byteCount)).2

def listHeader : BitVec 32 × Cursor := getSequenceCount buf (errorIndexEnd buf byteCount) byteCount

def objectHeader (c : Cursor) : BitVec 32 × Cursor := getSequenceCount buf c byteCount

def objectOid (c : Cursor) : OidParse := parseOid buf (objectHeader buf byteCount c).2 getList

def objectEnd (c : Cursor) : Cursor := (getIntegerVal buf (objectOid buf byteCount c).cursor).2

/-- The parser, station by station. -/
theorem parseAscGetResponse_eq (asc : Atsc) :
    parseAscGetResponse buf byteCount getList asc =
      if (messageHeader buf byteCount).1 = 0 then
        some { ret := 0, published := none, cursor := (messageHeader buf byteCount).2 }
      else if (versionRead buf byteCount).1 = 0 then
        some { ret := 0, published := none, cursor := (versionRead buf byteCount).2 }
      else if (communityRead buf byteCount).1 = 0 then
        some { ret := 0, published := none, cursor := (communityRead buf byteCount).2 }
      else if buf.cell (communityRead buf byteCount).2.i ≠ SNMP_GET_RESPONSE then
        some { ret := 0, published := none, cursor := (communityRead buf byteCount).2.read }
      else if (pduHeader buf byteCount).1 = 0 then
        some { ret := 0, published := none, cursor := (pduHeader buf byteCount).2 }
      else if (listHeader buf byteCount).1 = 0 then
        some { ret := 0, published := none, cursor := (listHeader buf byteCount).2 }
      else parseBindings buf byteCount getList (listHeader buf byteCount).2 (zeroAtsc asc) :=
  rfl

/-- A record is published when one is returned, and only then. -/
theorem published_iff_ret_one {asc : Atsc} {r : ResponseParse}
    (h : parseAscGetResponse buf byteCount getList asc = some r) :
    r.published.isSome ↔ r.ret = 1 := by
  have herror (c : Cursor)
      (h : some ({ ret := 0, published := none, cursor := c } : ResponseParse) = some r) :
      r.published.isSome ↔ r.ret = 1 := by
    rw [← Option.some.inj h]
    exact iff_of_false Bool.false_ne_true (show ¬ (0 : Int) = 1 by decide)
  rw [parseAscGetResponse_eq] at h
  split_ifs at h
  case neg =>
    obtain ⟨p, -, rfl⟩ := Option.map_eq_some_iff.mp h
    split_ifs
    · exact iff_of_false Bool.false_ne_true (show ¬ (0 : Int) = 1 by decide)
    · exact iff_of_true rfl rfl
  all_goals exact herror _ h

/-- The version leaves the index behind it whether or not it passes. -/
theorem versionRead_cursor :
    (versionRead buf byteCount).2 = (getIntegerVal buf (messageHeader buf byteCount).2).2 := by
  unfold versionRead readVersionNumber
  simp only
  split_ifs
  · rfl
  · rfl

/-- The version passes when the index has not gone past the message behind it. -/
theorem versionRead_passes :
    (versionRead buf byteCount).1 ≠ 0 ↔ (versionRead buf byteCount).2.i ≤ byteCount := by
  rw [versionRead_cursor, ← not_lt]
  unfold versionRead readVersionNumber
  simp only
  split_ifs with hpast
  · exact iff_of_false (not_not_intro rfl) (not_not_intro hpast)
  · exact iff_of_true (show (1 : Int) ≠ 0 by decide) hpast

/-- The first header passes by what stands at the start. -/
theorem messageHeader_passes :
    (messageHeader buf byteCount).1 ≠ 0 ↔ HeaderPasses buf byteCount 0 :=
  getSequenceCount_passes buf byteCount Cursor.start

/-- The community passes by what stands behind the version. -/
theorem communityRead_passes :
    (communityRead buf byteCount).1 ≠ 0 ↔
      buf.cell (versionRead buf byteCount).2.i = SNMP_OCTET_STR ∧
        communityExtent buf (versionRead buf byteCount).2.i ≤ byteCount :=
  readCommunityName_passes buf byteCount (versionRead buf byteCount).2

/-- The response passes by what stands behind the community. -/
theorem pduHeader_passes :
    (pduHeader buf byteCount).1 ≠ 0 ↔
      HeaderPasses buf byteCount (communityRead buf byteCount).2.i :=
  getSequenceCount_passes buf byteCount (communityRead buf byteCount).2.read

/-- The list passes by what stands behind the error index. -/
theorem listHeader_passes :
    (listHeader buf byteCount).1 ≠ 0 ↔
      HeaderPasses buf byteCount (errorIndexEnd buf byteCount).i :=
  getSequenceCount_passes buf byteCount (errorIndexEnd buf byteCount)

/-! ### Where they stand

Each station leaves the index where the bytes at its place say. -/

/-- Behind the first header stands the version. -/
theorem messageHeader_i (h : HeaderPasses buf byteCount 0) :
    (messageHeader buf byteCount).2.i = headerExtent buf 0 :=
  getSequenceCount_i buf byteCount Cursor.start h

/-- Behind the version stands the community. -/
theorem versionRead_i :
    (versionRead buf byteCount).2.i = integerEnd buf (messageHeader buf byteCount).2.i := by
  rw [versionRead_cursor, getIntegerVal_i]

/-- Behind the community stands the response. -/
theorem communityRead_i (h : (communityRead buf byteCount).1 ≠ 0) :
    (communityRead buf byteCount).2.i =
      communityExtent buf (versionRead buf byteCount).2.i :=
  readCommunityName_i buf byteCount (versionRead buf byteCount).2 h

/-- Behind its header stands the request id. -/
theorem pduHeader_i (h : HeaderPasses buf byteCount (communityRead buf byteCount).2.i) :
    (pduHeader buf byteCount).2.i = headerExtent buf (communityRead buf byteCount).2.i :=
  getSequenceCount_i buf byteCount (communityRead buf byteCount).2.read h

/-- Behind the request id stands the error status. -/
theorem requestIdEnd_i :
    (requestIdEnd buf byteCount).i = integerEnd buf (pduHeader buf byteCount).2.i :=
  getIntegerVal_i buf _

/-- Behind the error status stands the error index. -/
theorem errorStatusEnd_i :
    (errorStatusEnd buf byteCount).i = integerEnd buf (requestIdEnd buf byteCount).i :=
  getIntegerVal_i buf _

/-- Behind the error index stands the list. -/
theorem errorIndexEnd_i :
    (errorIndexEnd buf byteCount).i = integerEnd buf (errorStatusEnd buf byteCount).i :=
  getIntegerVal_i buf _

/-- Behind its header stand the objects. -/
theorem listHeader_i (h : HeaderPasses buf byteCount (errorIndexEnd buf byteCount).i) :
    (listHeader buf byteCount).2.i = headerExtent buf (errorIndexEnd buf byteCount).i :=
  getSequenceCount_i buf byteCount (errorIndexEnd buf byteCount) h

/-! ### The objects of the list -/

/-- An object is parsed when it passes them, and then to its end. -/
theorem parseAscObject_iff (c : Cursor) (asc : Atsc) :
    (parseAscObject buf c byteCount getList asc).ret ≠ 0 ↔
      (objectHeader buf byteCount c).1 ≠ 0 ∧
        (objectOid buf byteCount c).type ≠ UNKNOWN_OBJECT_TYPE := by
  unfold objectOid objectHeader parseAscObject
  simp only
  split_ifs with hcount hknown
  · exact iff_of_false (not_not_intro rfl) fun h => h.1 hcount
  · exact iff_of_false (not_not_intro rfl) fun h => h.2 hknown
  · exact iff_of_true (show (1 : Int) ≠ 0 by decide) ⟨hcount, hknown⟩

/-- An object that is parsed ends behind its value. -/
theorem parseAscObject_cursor {c : Cursor} {asc : Atsc}
    (h : (parseAscObject buf c byteCount getList asc).ret ≠ 0) :
    (parseAscObject buf c byteCount getList asc).cursor = objectEnd buf byteCount c := by
  obtain ⟨hcount, hknown⟩ := (parseAscObject_iff buf byteCount c asc).mp h
  unfold objectEnd
  unfold objectOid objectHeader at *
  unfold parseAscObject
  simp only [if_neg hcount, if_neg hknown]
  rfl

/-- An object is parsed when its header passes and its identifier is taken, and then to its
end. -/
theorem parseAscObject_ret (asc : Atsc) (c : Cursor) :
    ((parseAscObject buf c byteCount getList asc).ret ≠ 0 ↔
        HeaderPasses buf byteCount c.i ∧ OidTaken buf (headerExtent buf c.i)) ∧
      ((parseAscObject buf c byteCount getList asc).ret ≠ 0 →
        (parseAscObject buf c byteCount getList asc).cursor.i =
          integerEnd buf (oidEnd buf (headerExtent buf c.i))) := by
  have hoid := parseOid_taken buf (objectHeader buf byteCount c).2
  have hret : (parseAscObject buf c byteCount getList asc).ret ≠ 0 ↔
      HeaderPasses buf byteCount c.i ∧ OidTaken buf (headerExtent buf c.i) := by
    rw [parseAscObject_iff, objectHeader, getSequenceCount_passes]
    refine and_congr_right fun hheader => ?_
    rw [objectHeader, getSequenceCount_i buf byteCount c hheader] at hoid
    exact hoid.1
  refine ⟨hret, fun h => ?_⟩
  have hheader := (hret.mp h).1
  have hknown := ((parseAscObject_iff buf byteCount c asc).mp h).2
  rw [parseAscObject_cursor buf byteCount h, objectEnd, getIntegerVal_i, objectOid, hoid.2 hknown,
    objectHeader, getSequenceCount_i buf byteCount c hheader]

end Stations

end RfsAtsc
