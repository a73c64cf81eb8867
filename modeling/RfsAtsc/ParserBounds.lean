import RfsAtsc.NtcipAcceptance

/-!
# Where the reply parser reads and stores

The parser reads an element to the end that its own length byte gives, and compares the
index with the size of the message afterwards or not at all.  It therefore keeps to the
message exactly when each element it comes to does.
-/

namespace RfsAtsc

open TracedMemory BerEncoding

/-- The community lies in the message, and its name with the `'\0'` in 255 bytes. -/
def CommunityInside (buf : Mem Byte) (byteCount i : Int) : Prop :=
  communityExtent buf i ≤ byteCount ∧
    (buf.cell i = SNMP_OCTET_STR → (buf.cell (i + 1)).toNat ≤ 254)

/-! ## Places read and stored to -/

/-- The places read lie in the message, and those of a `name` array stored to among its
255. -/
structure Inside (byteCount : Int) (c : Cursor) : Prop where
  reads : ∀ k ∈ c.reads, 0 ≤ k ∧ k < byteCount
  nameStores : ∀ j ∈ c.nameStores, 0 ≤ j ∧ j ≤ 254

section Helpers

variable (buf : Mem Byte) {byteCount : Int} {c : Cursor}

/-- At the start nothing has been read. -/
theorem inside_start (byteCount : Int) : Inside byteCount Cursor.start :=
  ⟨fun _ h => absurd h List.not_mem_nil, fun _ h => absurd h List.not_mem_nil⟩

/-- An index given back changes nothing of what has been read. -/
theorem inside_back (c : Cursor) (i : Int) : Inside byteCount (c.back i) ↔ Inside byteCount c :=
  ⟨fun h => ⟨h.reads, h.nameStores⟩, fun h => ⟨h.reads, h.nameStores⟩⟩

/-- A byte read is inside if it is in front of the end. -/
theorem inside_read (hc : 0 ≤ c.i) :
    Inside byteCount c.read ↔ Inside byteCount c ∧ c.i + 1 ≤ byteCount := by
  constructor
  · intro h
    have hhere := h.reads c.i List.mem_cons_self
    exact ⟨⟨fun k hk => h.reads k (List.mem_cons_of_mem _ hk), h.nameStores⟩, by omega⟩
  · intro h
    refine ⟨fun k hk => ?_, h.1.nameStores⟩
    rcases List.mem_cons.mp hk with rfl | hk
    · exact ⟨hc, by omega⟩
    · exact h.1.reads k hk

/-- So is one behind which the index goes on. -/
theorem inside_next (hc : 0 ≤ c.i) :
    Inside byteCount c.next ↔ Inside byteCount c ∧ c.i + 1 ≤ byteCount :=
  Iff.trans ⟨fun h => ⟨h.reads, h.nameStores⟩, fun h => ⟨h.reads, h.nameStores⟩⟩ (inside_read hc)

/-- A store to `name` is inside up to its last place. -/
theorem inside_storeName (c : Cursor) {j : Int} (hj : 0 ≤ j) :
    Inside byteCount (c.storeName j) ↔ Inside byteCount c ∧ j ≤ 254 := by
  constructor
  · intro h
    exact ⟨⟨h.reads, fun k hk => h.nameStores k (List.mem_cons_of_mem _ hk)⟩,
      (h.nameStores j List.mem_cons_self).2⟩
  · intro h
    refine ⟨h.1.reads, fun k hk => ?_⟩
    rcases List.mem_cons.mp hk with rfl | hk
    · exact ⟨hj, h.2⟩
    · exact h.1.nameStores k hk

/-- The value loop is inside if its last byte is. -/
theorem valLoop_inside (n : Nat) (val : BitVec 32) (hc : 0 ≤ c.i) :
    Inside byteCount (valLoop buf n val c).2 ↔
      Inside byteCount c ∧ (0 < n → c.i + n ≤ byteCount) := by
  induction n generalizing val c with
  | zero => simp [valLoop]
  | succ n ih =>
      have hnext : 0 ≤ c.next.i := by
        rw [Cursor.next_i]
        omega
      rw [valLoop, ih _ hnext, inside_next hc, Cursor.next_i, and_assoc]
      refine and_congr_right fun _ => ?_
      push_cast
      omega

/-- The loop over a name is inside if its last byte is, in the buffer and in `name`. -/
theorem readName_inside (n : Nat) (j : Int) (hj : 0 ≤ j) (hc : 0 ≤ c.i) :
    Inside byteCount (readName buf n j c).2 ↔
      Inside byteCount c ∧ (0 < n → c.i + n ≤ byteCount) ∧ j + n ≤ 254 := by
  induction n generalizing j c with
  | zero =>
      rw [readName, inside_storeName c hj]
      simp
  | succ n ih =>
      have hnext : 0 ≤ (c.next.storeName j).i := by
        rw [Cursor.storeName_i, Cursor.next_i]
        omega
      rw [readName, ih (j + 1) (by omega) hnext, inside_storeName c.next hj, inside_next hc,
        Cursor.storeName_i, Cursor.next_i, and_assoc, and_assoc]
      refine and_congr_right fun _ => ?_
      push_cast
      omega

/-- An INTEGER is read to its end. -/
theorem getIntegerVal_inside (hc : 0 ≤ c.i) :
    Inside byteCount (getIntegerVal buf c).2 ↔
      Inside byteCount c ∧ integerExtent buf c.i ≤ byteCount := by
  have hnext : 0 ≤ c.next.i := by
    rw [Cursor.next_i]
    omega
  have hcontent : 0 ≤ c.next.next.i := by
    rw [Cursor.next_i]
    omega
  unfold getIntegerVal integerExtent
  split
  · rw [inside_back, inside_next hc]
  · rw [valLoop_inside buf _ _ hcontent, inside_next hnext, inside_next hc]
    simp only [Cursor.next_i, and_assoc]
    refine and_congr_right fun _ => ?_
    omega

/-- A length is inside if it ends in the message. -/
theorem sequenceLength_inside (hc : 0 ≤ c.i) :
    Inside byteCount (sequenceLength buf c).2 ↔
      Inside byteCount c ∧ c.i + lengthExtent (buf.cell c.i) ≤ byteCount := by
  have hnext : 0 ≤ c.next.i := by
    rw [Cursor.next_i]
    omega
  have hnext' : 0 ≤ c.next.next.i := by
    rw [Cursor.next_i]
    omega
  simp only [sequenceLength, lengthExtent]
  split_ifs
  · exact inside_next hc
  · rw [inside_next hnext, inside_next hc, Cursor.next_i, and_assoc]
    refine and_congr_right fun _ => ?_
    omega
  · rw [inside_next hnext', inside_next hnext, inside_next hc]
    simp only [Cursor.next_i, and_assoc]
    refine and_congr_right fun _ => ?_
    omega
  · exact inside_next hc

/-- So is the header of a SEQUENCE, whether there is room for what it announces or not. -/
theorem getSequenceCount_inside (hc : 0 ≤ c.i) :
    Inside byteCount (getSequenceCount buf c byteCount).2 ↔
      Inside byteCount c ∧ headerExtent buf c.i ≤ byteCount := by
  have hnext : 0 ≤ c.next.i := by
    rw [Cursor.next_i]
    omega
  have hlength : Inside byteCount (sequenceLength buf c.next).2 ↔
      Inside byteCount c ∧ c.i + 1 + lengthExtent (buf.cell (c.i + 1)) ≤ byteCount := by
    have hpos : 1 ≤ lengthExtent (buf.cell (c.i + 1)) := by
      unfold lengthExtent
      split_ifs
      all_goals decide
    rw [sequenceLength_inside buf hnext, inside_next hc, Cursor.next_i, and_assoc]
    refine and_congr_right fun _ => ?_
    omega
  unfold getSequenceCount headerExtent
  split
  · rw [inside_back, inside_next hc]
  · simp only
    split
    · exact hlength
    · exact hlength

/-- The version is inside if it ends in the message. -/
theorem readVersionNumber_inside (hc : 0 ≤ c.i) :
    Inside byteCount (readVersionNumber buf c byteCount).2 ↔
      Inside byteCount c ∧ integerExtent buf c.i ≤ byteCount := by
  rw [← getIntegerVal_inside buf hc]
  simp only [readVersionNumber]
  split
  · rfl
  · rfl

/-- The community is inside if it ends in the message and fits its array. -/
theorem readCommunityName_inside (hc : 0 ≤ c.i) :
    Inside byteCount (readCommunityName buf c byteCount).2 ↔
      Inside byteCount c ∧ CommunityInside buf byteCount c.i := by
  have hnext : 0 ≤ c.next.i := by
    rw [Cursor.next_i]
    omega
  have hcontent : 0 ≤ c.next.next.i := by
    rw [Cursor.next_i]
    omega
  have hname := @readName_inside buf byteCount c.next.next (buf.cell c.next.i).toNat 0 le_rfl
    hcontent
  rw [inside_next hnext, inside_next hc] at hname
  simp only [Cursor.next_i, and_assoc] at hname
  unfold readCommunityName CommunityInside communityExtent
  by_cases htag : buf.cell c.i = SNMP_OCTET_STR
  · have hdone : Inside byteCount (readName buf (buf.cell c.next.i).toNat 0 c.next.next).2 ↔
        Inside byteCount c ∧ c.i + 2 + (buf.cell (c.i + 1)).toNat ≤ byteCount ∧
          (buf.cell (c.i + 1)).toNat ≤ 254 := by
      rw [Cursor.next_i, hname]
      refine and_congr_right fun _ => ?_
      omega
    simp only [htag, ne_eq, not_true_eq_false, if_false, forall_const]
    split
    · rw [inside_back]
      exact hdone
    · exact hdone
  · simp only [htag, ne_eq, not_false_eq_true, if_true, false_implies, and_true, inside_back,
      inside_next hc]

/-- An OBJECT IDENTIFIER is read to its end; its name has room. -/
theorem parseOid_inside (list : List AscOid) (hc : 0 ≤ c.i) :
    Inside byteCount (parseOid buf c list).cursor ↔
      Inside byteCount c ∧ oidExtent buf c.i ≤ byteCount := by
  have hnext : 0 ≤ c.next.i := by
    rw [Cursor.next_i]
    omega
  have hcontent : 0 ≤ c.next.next.i := by
    rw [Cursor.next_i]
    omega
  have hshort := (buf.cell (c.i + 1)).isLt
  have hunder : Inside byteCount (readName buf ASC_PREFIX_LENGTH 0 c.next.next).2 ↔
      Inside byteCount c ∧ c.i + 2 + ASC_PREFIX_LENGTH ≤ byteCount := by
    rw [readName_inside buf _ 0 le_rfl hcontent, inside_next hnext, inside_next hc]
    simp only [Cursor.next_i, and_assoc, ASC_PREFIX_LENGTH]
    refine and_congr_right fun _ => ?_
    omega
  have hbehind : (readName buf ASC_PREFIX_LENGTH 0 c.next.next).2.i =
      c.i + 2 + ASC_PREFIX_LENGTH := by
    rw [readName_i, Cursor.next_i, Cursor.next_i]
    ring
  have hsuffix : Inside byteCount (readName buf ((buf.cell (c.i + 1)).toNat - ASC_PREFIX_LENGTH) 0
        (readName buf ASC_PREFIX_LENGTH 0 c.next.next).2).2 ↔
      Inside byteCount c ∧ c.i + 2 + ASC_PREFIX_LENGTH +
        ((buf.cell (c.i + 1)).toNat - ASC_PREFIX_LENGTH : Nat) ≤ byteCount := by
    have hpos : 0 ≤ (readName buf ASC_PREFIX_LENGTH 0 c.next.next).2.i := by omega
    rw [readName_inside buf _ 0 le_rfl hpos, hunder, hbehind, and_assoc]
    refine and_congr_right fun _ => ?_
    simp only [ASC_PREFIX_LENGTH]
    omega
  have hname : prefixRead buf (c.i + 2) = (readName buf ASC_PREFIX_LENGTH 0 c.next.next).1 := by
    rw [readName_eq, prefixRead, Cursor.next_i, Cursor.next_i]
    congr 2
    ring
  simp only [parseOid, oidExtent, hname, Cursor.next_i]
  by_cases htag : buf.cell c.i = SNMP_OBJECT_ID
  · simp only [htag, ne_eq, not_true_eq_false, if_false]
    split
    · rw [inside_back]
      exact hunder
    · split
      · exact hsuffix
      · exact hsuffix
  · simp only [htag, ne_eq, not_false_eq_true, if_true, inside_back, inside_next hc]

end Helpers

/-! ## The objects -/

section Objects

variable (buf : Mem Byte) (byteCount : Int)

/-- What is read of an object lies in the message: its header; behind one that passes its
identifier; and behind one that is taken its value. -/
def ObjectInside (i : Int) : Prop :=
  headerExtent buf i ≤ byteCount ∧
    (HeaderPasses buf byteCount i →
      oidExtent buf (headerExtent buf i) ≤ byteCount ∧
        (OidTaken buf (headerExtent buf i) →
          integerExtent buf (oidEnd buf (headerExtent buf i)) ≤ byteCount))

/-- So does what is read of every object, as far as the objects are parsed. -/
def ObjectsInside : Nat → Int → Prop
  | 0, _ => True
  | fuel + 1, i => i < byteCount →
      ObjectInside buf byteCount i ∧
        (HeaderPasses buf byteCount i → OidTaken buf (headerExtent buf i) →
          ObjectsInside fuel (integerEnd buf (oidEnd buf (headerExtent buf i))))

/-- It stops behind the part that does not pass, or at its end. -/
theorem parseAscObject_stops (asc : Atsc) (c : Cursor) :
    (parseAscObject buf c byteCount getList asc).cursor =
      if (objectHeader buf byteCount c).1 = 0 then (objectHeader buf byteCount c).2
      else if (objectOid buf byteCount c).type = UNKNOWN_OBJECT_TYPE then
        (objectOid buf byteCount c).cursor
      else objectEnd buf byteCount c := by
  unfold objectEnd objectOid objectHeader parseAscObject
  simp only
  split_ifs
  · rfl
  · rfl
  · rfl

/-- An object is inside if every part that is read of it is. -/
theorem parseAscObject_inside (asc : Atsc) {c : Cursor} (hc : 0 ≤ c.i) :
    Inside byteCount (parseAscObject buf c byteCount getList asc).cursor ↔
      Inside byteCount c ∧ ObjectInside buf byteCount c.i := by
  have hheader : 0 ≤ (objectHeader buf byteCount c).2.i :=
    hc.trans (getSequenceCount_le buf byteCount c)
  have hoid : 0 ≤ (objectOid buf byteCount c).cursor.i :=
    hheader.trans (parseOid_le buf _ getList)
  have hread : Inside byteCount (objectHeader buf byteCount c).2 ↔
      Inside byteCount c ∧ headerExtent buf c.i ≤ byteCount := getSequenceCount_inside buf hc
  have hread' : Inside byteCount (objectOid buf byteCount c).cursor ↔
      Inside byteCount (objectHeader buf byteCount c).2 ∧
        oidExtent buf (objectHeader buf byteCount c).2.i ≤ byteCount :=
    parseOid_inside buf getList hheader
  have hread'' : Inside byteCount (objectEnd buf byteCount c) ↔
      Inside byteCount (objectOid buf byteCount c).cursor ∧
        integerExtent buf (objectOid buf byteCount c).cursor.i ≤ byteCount :=
    getIntegerVal_inside buf hoid
  have hcounts : (objectHeader buf byteCount c).1 ≠ 0 ↔ HeaderPasses buf byteCount c.i :=
    getSequenceCount_passes buf byteCount c
  have htaken : ((objectOid buf byteCount c).type ≠ UNKNOWN_OBJECT_TYPE ↔
        OidTaken buf (objectHeader buf byteCount c).2.i) ∧
      ((objectOid buf byteCount c).type ≠ UNKNOWN_OBJECT_TYPE →
        (objectOid buf byteCount c).cursor.i = oidEnd buf (objectHeader buf byteCount c).2.i) :=
    parseOid_taken buf (objectHeader buf byteCount c).2
  rw [parseAscObject_stops, ObjectInside]
  by_cases hpasses : HeaderPasses buf byteCount c.i
  · have hbehind : (objectHeader buf byteCount c).2.i = headerExtent buf c.i :=
      getSequenceCount_i buf byteCount c hpasses
    rw [hbehind] at hread' htaken
    rw [if_neg (hcounts.mpr hpasses)]
    by_cases hknown : OidTaken buf (headerExtent buf c.i)
    · rw [if_neg (htaken.1.mpr hknown), hread'', hread', hread,
        htaken.2 (htaken.1.mpr hknown)]
      simp only [hpasses, hknown, forall_const, and_assoc]
    · rw [if_pos (not_not.mp (mt htaken.1.mp hknown)), hread', hread]
      simp only [hpasses, hknown, forall_const, false_implies, and_true, and_assoc]
  · rw [if_pos (not_not.mp (mt hcounts.mp hpasses)), hread]
    simp only [hpasses, false_implies, and_true]

/-- The objects are inside if each is, as far as they are parsed. -/
theorem parseAscObjects_inside (fuel : Nat) {c : Cursor} (asc : Atsc) (hc : 0 ≤ c.i)
    (hfuel : byteCount - c.i ≤ fuel) {p : ObjectParse}
    (hp : parseAscObjects buf byteCount getList fuel c asc = some p) :
    Inside byteCount p.cursor ↔ Inside byteCount c ∧ ObjectsInside buf byteCount fuel c.i := by
  induction fuel generalizing c asc with
  | zero =>
      rw [parseAscObjects, if_neg (by omega), Option.some.injEq] at hp
      rw [← hp, ObjectsInside, and_true]
  | succ fuel ih =>
      simp only [parseAscObjects] at hp
      rw [ObjectsInside]
      have hobject := parseAscObject_inside buf byteCount asc hc
      obtain ⟨hiff, hend⟩ := parseAscObject_ret buf byteCount asc c
      split_ifs at hp with hin hret
      · rw [Option.some.injEq] at hp
        have hfails := mt hiff.mpr (not_not_intro hret)
        rw [← hp, hobject]
        refine and_congr_right fun _ => ?_
        constructor
        · exact fun h _ => ⟨h, fun hpasses htaken => absurd ⟨hpasses, htaken⟩ hfails⟩
        · exact fun h => (h hin).1
      · have hpasses := hiff.mp hret
        have hadvance := parseAscObject_advances buf byteCount c getList asc hret
        have hrest := ih _ (by omega) (by omega) hp
        rw [hend hret] at hrest
        rw [hrest, hobject, and_assoc]
        refine and_congr_right fun _ => ?_
        constructor
        · exact fun h _ => ⟨h.1, fun _ _ => h.2⟩
        · exact fun h => ⟨(h hin).1, (h hin).2 hpasses.1 hpasses.2⟩
      · rw [Option.some.injEq] at hp
        rw [← hp]
        exact (and_iff_left fun h => absurd h hin).symm

end Objects

/-! ## The groups -/

/-- The group arrays are stored to inside their bounds. -/
structure GroupsInside (asc : Atsc) : Prop where
  detectors : ∀ a ∈ asc.vehicleDetectorStatus.stored, 0 ≤ a ∧ a < MAX_VEHICLE_DETECTOR_GROUPS
  reds : ∀ a ∈ asc.phaseStatusReds.stored, 0 ≤ a ∧ a < MAX_PHASE_STATUS_GROUPS
  yellows : ∀ a ∈ asc.phaseStatusYellows.stored, 0 ≤ a ∧ a < MAX_PHASE_STATUS_GROUPS
  greens : ∀ a ∈ asc.phaseStatusGreens.stored, 0 ≤ a ∧ a < MAX_PHASE_STATUS_GROUPS
  ons : ∀ a ∈ asc.phaseStatusOns.stored, 0 ≤ a ∧ a < MAX_PHASE_STATUS_GROUPS
  next : ∀ a ∈ asc.phaseStatusNext.stored, 0 ≤ a ∧ a < MAX_PHASE_STATUS_GROUPS

/-- The record on the stack, nothing stored to it yet. -/
def Atsc.untraced (asc : Atsc) : Atsc :=
  { asc with
    vehicleDetectorStatus := asc.vehicleDetectorStatus.untraced
    phaseStatusReds := asc.phaseStatusReds.untraced
    phaseStatusYellows := asc.phaseStatusYellows.untraced
    phaseStatusGreens := asc.phaseStatusGreens.untraced
    phaseStatusOns := asc.phaseStatusOns.untraced
    phaseStatusNext := asc.phaseStatusNext.untraced }

/-- Clearing a group stores in it. -/
theorem zeroGroup_stored (n : Nat) (group : Mem Byte) :
    ∀ a ∈ (zeroGroup n group.untraced).stored, 0 ≤ a ∧ a < n := by
  intro a ha
  rcases Mem.write_stored _ _ _ ha with hbefore | hblock
  · exact absurd hbefore List.not_mem_nil
  · rw [List.length_replicate, zero_add] at hblock
    exact hblock

/-- Clearing the record stores in its groups. -/
theorem zeroAtsc_groups (asc : Atsc) : GroupsInside (zeroAtsc asc.untraced) where
  detectors := zeroGroup_stored _ _
  reds := zeroGroup_stored _ _
  yellows := zeroGroup_stored _ _
  greens := zeroGroup_stored _ _
  ons := zeroGroup_stored _ _
  next := zeroGroup_stored _ _

/-- A first element stored is inside any array. -/
theorem store_first {m : Mem Byte} {n : Nat} (hn : 0 < n)
    (h : ∀ a ∈ m.stored, 0 ≤ a ∧ a < n) (b : Byte) :
    ∀ a ∈ (m.store ((1 : Int) - 1) b).stored, 0 ≤ a ∧ a < n := by
  intro a ha
  rcases List.mem_cons.mp ha with rfl | ha
  · omega
  · exact h a ha

/-- An entry of the first instance is stored in its group. -/
theorem storeGroupEntry_groups {objectType inst : Int} (hinst : objectType = 0 ∨ inst = 1)
    (val : Byte) {asc : Atsc} (h : GroupsInside asc) :
    GroupsInside (storeGroupEntry objectType inst val asc) := by
  have hdetectors : 0 < MAX_VEHICLE_DETECTOR_GROUPS := by decide
  have hphases : 0 < MAX_PHASE_STATUS_GROUPS := by decide
  rcases hinst with rfl | rfl
  · exact h
  · unfold storeGroupEntry
    split_ifs
    · exact { h with detectors := store_first hdetectors h.detectors val }
    · exact h
    · exact { h with reds := store_first hphases h.reds val }
    · exact { h with yellows := store_first hphases h.yellows val }
    · exact { h with greens := store_first hphases h.greens val }
    · exact { h with ons := store_first hphases h.ons val }
    · exact { h with next := store_first hphases h.next val }
    · exact h

/-- A known object is of the first instance, or there was no identifier. -/
theorem parseOid_inst (buf : Mem Byte) (c : Cursor)
    (h : (parseOid buf c getList).type ≠ UNKNOWN_OBJECT_TYPE) :
    (parseOid buf c getList).type = 0 ∨ (parseOid buf c getList).inst = 1 := by
  simp only [parseOid] at h ⊢
  split_ifs at h ⊢
  · exact Or.inl rfl
  · split at h
    · rename_i oid hfind
      have hfirst := (getList_known oid (List.mem_of_find?_eq_some hfind)).2
      exact Or.inr (congrArg Int.ofNat hfirst)
    · exact absurd rfl h
  · exact absurd rfl h

/-- An object leaves the groups inside their bounds, and so do all of them. -/
theorem parseAscObject_groups (buf : Mem Byte) (c : Cursor) (byteCount : Int) {asc : Atsc}
    (h : GroupsInside asc) : GroupsInside (parseAscObject buf c byteCount getList asc).asc := by
  simp only [parseAscObject]
  split_ifs with hcount hknown
  · exact h
  · exact h
  · exact storeGroupEntry_groups (parseOid_inst buf _ hknown) _ h

/-- So the objects store in the groups alone. -/
theorem parseAscObjects_groups (buf : Mem Byte) (byteCount : Int) (fuel : Nat) (c : Cursor)
    {asc : Atsc} (h : GroupsInside asc) {p : ObjectParse}
    (hp : parseAscObjects buf byteCount getList fuel c asc = some p) : GroupsInside p.asc := by
  induction fuel generalizing c asc with
  | zero =>
      rw [parseAscObjects] at hp
      split_ifs at hp
      exact Option.some.inj hp ▸ h
  | succ fuel ih =>
      simp only [parseAscObjects] at hp
      have hobject := parseAscObject_groups buf c byteCount h
      split_ifs at hp
      · exact Option.some.inj hp ▸ hobject
      · exact ih _ hobject hp
      · exact Option.some.inj hp ▸ h

/-! ## The whole parse -/

section Whole

variable (buf : Mem Byte) (byteCount : Int)

/-- The list of bindings, as far as it is read, lies in the message. -/
def ListInside (i : Int) : Prop :=
  headerExtent buf i ≤ byteCount ∧
    (HeaderPasses buf byteCount i →
      ObjectsInside buf byteCount byteCount.toNat (headerExtent buf i))

/-- So does the GetResponse, from its tag on. -/
def ResponseInside (i : Int) : Prop :=
  headerExtent buf i ≤ byteCount ∧
    (HeaderPasses buf byteCount i →
      let requestId := headerExtent buf i
      let errorStatus := integerEnd buf requestId
      let errorIndex := integerEnd buf errorStatus
      integerExtent buf requestId ≤ byteCount ∧ integerExtent buf errorStatus ≤ byteCount ∧
        integerExtent buf errorIndex ≤ byteCount ∧
        ListInside buf byteCount (integerEnd buf errorIndex))

/-- So does the community, and what is read behind it. -/
def NamedInside (i : Int) : Prop :=
  CommunityInside buf byteCount i ∧
    (buf.cell i = SNMP_OCTET_STR →
      let response := communityExtent buf i
      response + 1 ≤ byteCount ∧
        (buf.cell response = SNMP_GET_RESPONSE → ResponseInside buf byteCount response))

/-- Each element that the parser comes to lies in the message, as far as it is read. -/
def ElementsInside : Prop :=
  headerExtent buf 0 ≤ byteCount ∧
    (HeaderPasses buf byteCount 0 →
      integerExtent buf (headerExtent buf 0) ≤ byteCount ∧
        NamedInside buf byteCount (integerEnd buf (headerExtent buf 0)))

/-- A parse that ends does so having kept to the message. -/
def KeepsInside (parse : Option ResponseParse) : Prop :=
  ∀ r, parse = some r → Inside byteCount r.cursor

/-- The parser reads in the message alone, and stores in its `name` arrays and its groups
alone. -/
def ParserInside (asc : Atsc) : Prop :=
  KeepsInside byteCount (parseAscGetResponse buf byteCount getList asc.untraced) ∧
    GroupsInside (zeroAtsc asc.untraced) ∧
    ∀ p, parseAscObjects buf byteCount getList byteCount.toNat (listHeader buf byteCount).2
        (zeroAtsc asc.untraced) = some p → GroupsInside p.asc

/-- Where a parse stops at a check, or goes on. -/
private theorem guard_inside {failed : Prop} [Decidable failed] {c : Cursor}
    {parse : Option ResponseParse} :
    KeepsInside byteCount
        (if failed then some { ret := 0, published := none, cursor := c } else parse) ↔
      (failed → Inside byteCount c) ∧ (¬ failed → KeepsInside byteCount parse) := by
  unfold KeepsInside
  by_cases hfailed : failed
  · simp only [hfailed, if_true, Option.some.injEq, forall_const, not_true_eq_false, false_implies,
      and_true]
    exact ⟨fun h => h _ rfl, fun h r hr => hr ▸ h⟩
  · simp only [hfailed, if_false, false_implies, not_false_eq_true, forall_const, true_and]

/-- A station: what is read up to its check, and behind it what is read on. -/
private theorem station_inside {failed passes before here later : Prop} [Decidable failed]
    {c : Cursor} {parse : Option ResponseParse} (hpasses : ¬ failed → passes)
    (hfails : here → passes → ¬ failed) (hhere : Inside byteCount c ↔ before ∧ here)
    (hlater : ¬ failed → passes → (KeepsInside byteCount parse ↔ Inside byteCount c ∧ later)) :
    KeepsInside byteCount
        (if failed then some { ret := 0, published := none, cursor := c } else parse) ↔
      before ∧ here ∧ (passes → later) := by
  rw [guard_inside]
  by_cases hfailed : failed
  · simp only [hfailed, forall_const, not_true_eq_false, false_implies, and_true]
    rw [hhere]
    refine and_congr_right fun _ => ?_
    exact ⟨fun h => ⟨h, fun hp => absurd hfailed (hfails h hp)⟩, fun h => h.1⟩
  · have hp := hpasses hfailed
    simp only [hfailed, false_implies, not_false_eq_true, forall_const, true_and, hp]
    rw [hlater hfailed hp, hhere, and_assoc]

/-- A header is such a station. -/
private theorem header_inside {c : Cursor} (hc : 0 ≤ c.i) {parse : Option ResponseParse}
    {later : Prop}
    (hlater : HeaderPasses buf byteCount c.i →
      (KeepsInside byteCount parse ↔
        Inside byteCount (getSequenceCount buf c byteCount).2 ∧ later)) :
    KeepsInside byteCount
        (if (getSequenceCount buf c byteCount).1 = 0 then
          some { ret := 0, published := none, cursor := (getSequenceCount buf c byteCount).2 }
        else parse) ↔
      Inside byteCount c ∧ headerExtent buf c.i ≤ byteCount ∧
        (HeaderPasses buf byteCount c.i → later) :=
  have hpasses := getSequenceCount_passes buf byteCount c
  station_inside byteCount hpasses.mp (fun _ => hpasses.mpr) (getSequenceCount_inside buf hc)
    fun _ => hlater

/-- The end of the parser reads the objects. -/
private theorem parseBindings_inside (asc : Atsc) {c : Cursor} (hc : 0 ≤ c.i) :
    KeepsInside byteCount (parseBindings buf byteCount getList c asc) ↔
      Inside byteCount c ∧ ObjectsInside buf byteCount byteCount.toNat c.i := by
  have hfuel : byteCount - c.i ≤ byteCount.toNat := by omega
  obtain ⟨p, hp⟩ := Option.isSome_iff_exists.mp
    (parseAscObjects_isSome buf byteCount c getList byteCount.toNat asc hfuel)
  rw [← parseAscObjects_inside buf byteCount _ asc hc hfuel hp, KeepsInside, parseBindings, hp,
    Option.map_some]
  constructor
  · intro h
    have hcursor := h _ rfl
    split_ifs at hcursor
    · exact hcursor
    · exact hcursor
  · intro h r hr
    rw [← Option.some.inj hr]
    split_ifs
    · exact h
    · exact h

/-- The stations of the parser stand in the buffer one behind the other. -/
private theorem stations_nonneg :
    0 ≤ (messageHeader buf byteCount).2.i ∧ 0 ≤ (versionRead buf byteCount).2.i ∧
      0 ≤ (communityRead buf byteCount).2.i ∧ 0 ≤ (pduHeader buf byteCount).2.i ∧
      0 ≤ (requestIdEnd buf byteCount).i ∧ 0 ≤ (errorStatusEnd buf byteCount).i ∧
      0 ≤ (errorIndexEnd buf byteCount).i ∧ 0 ≤ (listHeader buf byteCount).2.i := by
  have hmessage : 0 ≤ (messageHeader buf byteCount).2.i :=
    getSequenceCount_le buf byteCount Cursor.start
  have hversion : 0 ≤ (versionRead buf byteCount).2.i :=
    hmessage.trans (readVersionNumber_le buf byteCount _)
  have hcommunity : 0 ≤ (communityRead buf byteCount).2.i :=
    hversion.trans (readCommunityName_le buf byteCount _)
  have hpdu : 0 ≤ (pduHeader buf byteCount).2.i :=
    hcommunity.trans (getSequenceCount_le buf byteCount (communityRead buf byteCount).2.read)
  have hid : 0 ≤ (requestIdEnd buf byteCount).i := hpdu.trans (getIntegerVal_le buf _)
  have hstatus : 0 ≤ (errorStatusEnd buf byteCount).i := hid.trans (getIntegerVal_le buf _)
  have hindex : 0 ≤ (errorIndexEnd buf byteCount).i := hstatus.trans (getIntegerVal_le buf _)
  exact ⟨hmessage, hversion, hcommunity, hpdu, hid, hstatus, hindex,
    hindex.trans (getSequenceCount_le buf byteCount _)⟩

/-- From the GetResponse on. -/
private theorem response_inside (asc : Atsc) :
    KeepsInside byteCount
        (if (pduHeader buf byteCount).1 = 0 then
          some { ret := 0, published := none, cursor := (pduHeader buf byteCount).2 }
        else if (listHeader buf byteCount).1 = 0 then
          some { ret := 0, published := none, cursor := (listHeader buf byteCount).2 }
        else parseBindings buf byteCount getList (listHeader buf byteCount).2 asc) ↔
      Inside byteCount (communityRead buf byteCount).2.read ∧
        ResponseInside buf byteCount (communityRead buf byteCount).2.i := by
  obtain ⟨-, -, hresponse, hpdu, hid, hstatus, hindex, hlist⟩ := stations_nonneg buf byteCount
  refine header_inside buf byteCount (c := (communityRead buf byteCount).2.read) hresponse
    fun hpasses => ?_
  have hreads : Inside byteCount (errorIndexEnd buf byteCount) ↔
      Inside byteCount (pduHeader buf byteCount).2 ∧
        integerExtent buf (pduHeader buf byteCount).2.i ≤ byteCount ∧
        integerExtent buf (requestIdEnd buf byteCount).i ≤ byteCount ∧
        integerExtent buf (errorStatusEnd buf byteCount).i ≤ byteCount := by
    rw [errorIndexEnd, getIntegerVal_inside buf hstatus, errorStatusEnd,
      getIntegerVal_inside buf hid, requestIdEnd, getIntegerVal_inside buf hpdu, and_assoc,
      and_assoc]
  have hbindings :
      KeepsInside byteCount
          (if (listHeader buf byteCount).1 = 0 then
            some { ret := 0, published := none, cursor := (listHeader buf byteCount).2 }
          else parseBindings buf byteCount getList (listHeader buf byteCount).2 asc) ↔
        Inside byteCount (errorIndexEnd buf byteCount) ∧
          ListInside buf byteCount (errorIndexEnd buf byteCount).i := by
    refine header_inside buf byteCount hindex fun hlistPasses => ?_
    rw [parseBindings_inside buf byteCount asc hlist, listHeader_i buf byteCount hlistPasses]
    rfl
  refine hbindings.trans ?_
  rw [hreads, and_assoc, and_assoc, and_assoc, errorIndexEnd_i, errorStatusEnd_i,
    requestIdEnd_i, pduHeader_i buf byteCount hpasses]
  rfl

/-- From the community on. -/
private theorem community_inside (asc : Atsc) :
    KeepsInside byteCount
        (if (communityRead buf byteCount).1 = 0 then
          some { ret := 0, published := none, cursor := (communityRead buf byteCount).2 }
        else if buf.cell (communityRead buf byteCount).2.i ≠ SNMP_GET_RESPONSE then
          some { ret := 0, published := none, cursor := (communityRead buf byteCount).2.read }
        else if (pduHeader buf byteCount).1 = 0 then
          some { ret := 0, published := none, cursor := (pduHeader buf byteCount).2 }
        else if (listHeader buf byteCount).1 = 0 then
          some { ret := 0, published := none, cursor := (listHeader buf byteCount).2 }
        else parseBindings buf byteCount getList (listHeader buf byteCount).2 asc) ↔
      Inside byteCount (versionRead buf byteCount).2 ∧
        NamedInside buf byteCount (versionRead buf byteCount).2.i := by
  obtain ⟨-, hversion, hcommunity, -⟩ := stations_nonneg buf byteCount
  have hpasses := communityRead_passes buf byteCount
  refine station_inside byteCount (fun h => (hpasses.mp h).1)
    (fun hin htag => hpasses.mpr ⟨htag, hin.1⟩)
    (readCommunityName_inside buf hversion) fun hread _ => ?_
  have hend := communityRead_i buf byteCount hread
  rw [← hend]
  exact station_inside byteCount not_not.mp (fun _ => not_not_intro) (inside_read hcommunity)
    fun _ _ => response_inside buf byteCount asc

/-- A version in the message passes its check, which comes after it has been read. -/
private theorem versionRead_of_inside
    (h : integerExtent buf (messageHeader buf byteCount).2.i ≤ byteCount) :
    (versionRead buf byteCount).1 ≠ 0 := by
  rw [versionRead_passes, versionRead_i]
  unfold integerExtent at h
  unfold integerEnd
  split_ifs at h ⊢
  · omega
  · omega

/-- **The parser keeps to the message and to its arrays exactly when each element that it
comes to lies in the message.** -/
theorem parserInside_iff (asc : Atsc) :
    ParserInside buf byteCount asc ↔ ElementsInside buf byteCount := by
  obtain ⟨hmessage, -⟩ := stations_nonneg buf byteCount
  have hgroups : ∀ p, parseAscObjects buf byteCount getList byteCount.toNat
      (listHeader buf byteCount).2 (zeroAtsc asc.untraced) = some p → GroupsInside p.asc :=
    fun p hp => parseAscObjects_groups buf byteCount _ _ (zeroAtsc_groups asc) hp
  have hread := @readVersionNumber_inside buf byteCount _ hmessage
  have hstations : KeepsInside byteCount
        (parseAscGetResponse buf byteCount getList asc.untraced) ↔
      Inside byteCount Cursor.start ∧ ElementsInside buf byteCount := by
    rw [parseAscGetResponse_eq]
    refine header_inside buf byteCount le_rfl fun hpasses => ?_
    have hcommunity := community_inside buf byteCount (zeroAtsc asc.untraced)
    have hversion := station_inside byteCount (fun _ => trivial)
      (fun hin (_ : True) => versionRead_of_inside buf byteCount hin) hread fun _ _ => hcommunity
    rw [versionRead_i, messageHeader_i buf byteCount hpasses, forall_const] at hversion
    exact hversion
  rw [and_iff_right (inside_start byteCount)] at hstations
  exact (and_iff_left ⟨zeroAtsc_groups asc, hgroups⟩).trans hstations

end Whole

/-- A message of three bytes, of which the last announces a version. -/
def cutVersion : List Byte := [0x30, 0x01, 0x02]

/-- **The parser reads past a message that ends in its version's tag.** -/
theorem parser_reads_past : ¬ ∀ (buf : Mem Byte) (byteCount : Int) (asc : Atsc),
    ParserInside buf byteCount asc := by
  intro h
  have hparse : parseAscGetResponse (Mem.ofList 0 cutVersion) 3 getList stackAtsc.untraced =
      some { ret := 0, published := none,
             cursor := { i := 4, reads := [3, 2, 1, 0], nameStores := [] } } := by
    rfl
  have hinside := (h (Mem.ofList 0 cutVersion) 3 stackAtsc).1 _ hparse
  have hlast := (hinside.reads 3 List.mem_cons_self).2
  exact absurd hlast (by decide)

end RfsAtsc
