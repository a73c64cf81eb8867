import RfsAtsc.AscRequests

/-!
# Where the request builders store

The room for an object is reckoned with two bytes for its own header, two for its
identifier's, and none for its value.  A builder therefore passes the end of its buffer
exactly where an object ends within its value's length behind it.
-/

namespace RfsAtsc

open TracedMemory

/-- A builder stores below `bufsize` alone, and returns no more. -/
structure FmtInside (bufsize : Int) (r : FmtResult) : Prop where
  stores : ∀ a ∈ r.buf.stored, 0 ≤ a ∧ a < bufsize
  ret : r.ret ≤ bufsize

/-- The bytes of objects with values of `v` bytes each. -/
def objectsSize (v : Nat) (list : List AscSetOid) : Nat :=
  (list.map fun oid => 14 + oid.idLength + v).sum

/-- Some first objects of the list end behind the buffer, but no more than a value of `v`
bytes. -/
def Overruns (v : Nat) (bufsize : Int) (list : List AscSetOid) : Prop :=
  ∃ front, front <+: list ∧ front ≠ [] ∧
    bufsize < SNMP_HEADER_SIZE + objectsSize v front ∧
    SNMP_HEADER_SIZE + objectsSize v front ≤ bufsize + v

@[simp] theorem objectsSize_nil (v : Nat) : objectsSize v [] = 0 := rfl

@[simp] theorem objectsSize_cons (v : Nat) (oid : AscSetOid) (list : List AscSetOid) :
    objectsSize v (oid :: list) = 14 + oid.idLength + v + objectsSize v list := by
  rw [objectsSize, List.map_cons, List.sum_cons, objectsSize]

section Bounds

variable {value : AscSetOid → List Byte} {v : Nat}

theorem length_flatMap_oidBytes (hv : ∀ oid, (value oid).length = v) (list : List AscSetOid) :
    (list.flatMap (oidBytes value)).length = objectsSize v list := by
  induction list with
  | nil => rfl
  | cons oid list ih =>
      rw [List.flatMap_cons, List.length_append, ih, oidBytes_length, hv, objectsSize_cons]

/-- The first objects of a list are its first one, or that and first ones of the rest. -/
theorem exists_front_cons {P : List AscSetOid → Prop} (oid : AscSetOid) (list : List AscSetOid) :
    (∃ front, front <+: oid :: list ∧ front ≠ [] ∧ P front) ↔
      P [oid] ∨ ∃ front, front <+: list ∧ front ≠ [] ∧ P (oid :: front) := by
  constructor
  · intro h
    obtain ⟨front, hfront, hne, hP⟩ := h
    obtain ⟨x, rest, rfl⟩ := List.exists_cons_of_ne_nil hne
    obtain ⟨rfl, hrest⟩ := List.cons_prefix_cons.mp hfront
    by_cases hlast : rest = []
    · exact Or.inl (hlast ▸ hP)
    · exact Or.inr ⟨rest, hrest, hlast, hP⟩
  · intro h
    rcases h with hP | ⟨front, hfront, -, hP⟩
    · exact ⟨[oid], List.prefix_append [oid] list, List.cons_ne_nil _ _, hP⟩
    · exact ⟨oid :: front, List.cons_prefix_cons.mpr ⟨rfl, hfront⟩, List.cons_ne_nil _ _, hP⟩

/-- The objects put end behind the buffer when they began there, or when some of the first
end there by no more than a value. -/
theorem oidsPut_overrun (hv : ∀ oid, (value oid).length = v) (bufsize : Int)
    (list : List AscSetOid) (i : Int) :
    bufsize < i + objectsSize v (oidsPut value bufsize i list) ↔
      bufsize < i ∨ ∃ front, front <+: list ∧ front ≠ [] ∧
        bufsize < i + objectsSize v front ∧ i + objectsSize v front ≤ bufsize + v := by
  induction list generalizing i with
  | nil =>
      rw [oidsPut, objectsSize_nil, Nat.cast_zero, add_zero]
      refine (or_iff_left ?_).symm
      intro h
      obtain ⟨front, hfront, hne, -⟩ := h
      exact hne (List.prefix_nil.mp hfront)
  | cons oid list ih =>
      rw [oidsPut, exists_front_cons]
      have hlength : (oidBytes value oid).length = 14 + oid.idLength + v := by
        rw [oidBytes_length, hv]
      have hsplit (n : Nat) : i + ((14 + oid.idLength + v + n : Nat) : Int) =
          i + (14 + oid.idLength + v : Nat) + n := by
        push_cast
        ring
      by_cases hfits : OidFits bufsize i oid
      · have hbegin : ¬ bufsize < i := by
          unfold OidFits at hfits
          omega
        have hin : i + ((14 + oid.idLength + v : Nat) : Int) ≤ bufsize + v := by
          unfold OidFits at hfits
          push_cast
          omega
        rw [if_pos hfits, or_iff_right hbegin]
        simp only [objectsSize_cons, objectsSize_nil, hlength, hsplit, ih, add_zero,
          and_iff_left hin]
      · -- what is no longer put ends too far behind for any front
        have hout (n : Nat) : ¬ i + (14 + oid.idLength + v : Nat) + n ≤ bufsize + v := by
          unfold OidFits at hfits
          push_cast
          omega
        have hfirst : ¬ i + ((14 + oid.idLength + v : Nat) : Int) ≤ bufsize + v := by
          have hnone := hout 0
          rwa [Nat.cast_zero, add_zero] at hnone
        rw [if_neg hfits]
        simp only [objectsSize_cons, objectsSize_nil, hsplit, hout, hfirst, and_false, exists_false,
          or_false, Nat.cast_zero, add_zero]

/-- Every block of a request ends with its objects. -/
theorem requestBlocks_bounds (pduType requestId : Byte) (objects : List Byte) :
    ∀ b ∈ requestBlocks pduType requestId objects,
      0 ≤ b.1 ∧ b.1 + b.2.length ≤ (SNMP_HEADER_SIZE + objects.length : Nat) := by
  simp only [requestBlocks, openingBytes, statusBytes, communityName, byteCountBytes,
    SNMP_HEADER_SIZE, List.mem_cons, List.not_mem_nil, or_false, forall_eq_or_imp, forall_eq,
    List.length_cons, List.length_nil, List.length_append]
  omega

/-- Blocks of a request, the objects among them, are stored from the front of the buffer to
the end of the objects. -/
theorem writes_inside_iff (pduType requestId : Byte) (objects : List Byte) (buf : Mem Byte)
    {bufsize : Int} (hsize : SNMP_HEADER_SIZE ≤ bufsize) {blocks : List (Int × List Byte)}
    (hsub : blocks ⊆ requestBlocks pduType requestId objects) (hobjects : (32, objects) ∈ blocks) :
    (∀ a ∈ (buf.untraced.writes blocks).stored, 0 ≤ a ∧ a < bufsize) ↔
      (SNMP_HEADER_SIZE + objects.length : Nat) ≤ bufsize := by
  simp only [Mem.mem_writes_stored]
  constructor
  · intro h
    by_cases hempty : objects.length = 0
    · rw [hempty]
      exact hsize
    · have hlow : (32 : Int) ≤ 31 + objects.length := by omega
      have hhigh : (31 + objects.length : Int) < 32 + objects.length := by omega
      have hlast := (h (31 + objects.length) (Or.inr ⟨_, hobjects, hlow, hhigh⟩)).2
      simp only [SNMP_HEADER_SIZE]
      push_cast
      omega
  · intro h a ha
    rcases ha with hbefore | ⟨b, hb, hlow, hhigh⟩
    · exact absurd hbefore List.not_mem_nil
    · have hbounds := requestBlocks_bounds pduType requestId objects b (hsub hb)
      omega

/-- A builder keeps to its buffer when the objects put do. -/
theorem fmtAscRequest_inside_of_size (pduType requestId : Byte) (buf : Mem Byte) {bufsize : Int}
    (list : List AscSetOid) (hsize : SNMP_HEADER_SIZE ≤ bufsize) :
    FmtInside bufsize (fmtAscRequest pduType value buf.untraced bufsize requestId list) ↔
      (SNMP_HEADER_SIZE + ((oidsPut value bufsize SNMP_HEADER_SIZE list).flatMap
        (oidBytes value)).length : Nat) ≤ bufsize := by
  have hfourth (objects : List Byte) :
      (32, objects) ∈ (requestBlocks pduType requestId objects).take 4 := by
    simp [requestBlocks]
  have hwhole (objects : List Byte) : (32, objects) ∈ requestBlocks pduType requestId objects :=
    List.mem_of_mem_take (hfourth objects)
  by_cases hfit : OidsFit value bufsize SNMP_HEADER_SIZE list
  · rw [fmtAscRequest_of_fit pduType requestId value buf.untraced bufsize list hsize hfit,
      oidsPut_of_fit value bufsize hfit]
    have hstores := writes_inside_iff pduType requestId (list.flatMap (oidBytes value)) buf hsize
      (List.Subset.refl _) (hwhole _)
    refine ⟨fun h => hstores.mp h.stores, fun h => ⟨hstores.mpr h, ?_⟩⟩
    exact_mod_cast h
  · rw [fmtAscRequest_of_not_fit pduType requestId value buf.untraced bufsize list hsize hfit]
    have hstores := writes_inside_iff pduType requestId
      ((oidsPut value bufsize SNMP_HEADER_SIZE list).flatMap (oidBytes value)) buf hsize
      (List.take_subset 4 _) (hfourth _)
    refine ⟨fun h => hstores.mp h.stores, fun h => ⟨hstores.mpr h, ?_⟩⟩
    exact (Int.natCast_nonneg _).trans hsize

/-- A builder keeps to its buffer when that has a size, and no first objects of the list end
behind it by no more than a value. -/
theorem fmtAscRequest_inside (hv : ∀ oid, (value oid).length = v) (pduType requestId : Byte)
    (buf : Mem Byte) (bufsize : Int) (list : List AscSetOid) :
    FmtInside bufsize (fmtAscRequest pduType value buf.untraced bufsize requestId list) ↔
      0 ≤ bufsize ∧ ¬ Overruns v bufsize list := by
  by_cases hsize : SNMP_HEADER_SIZE ≤ bufsize
  · have hover := oidsPut_overrun hv bufsize list SNMP_HEADER_SIZE
    rw [or_iff_right (not_lt.mpr hsize)] at hover
    rw [fmtAscRequest_inside_of_size pduType requestId buf list hsize,
      length_flatMap_oidBytes hv, Overruns, ← hover, not_lt, Nat.cast_add,
      and_iff_right ((Int.natCast_nonneg _).trans hsize)]
  · have hnone : ¬ Overruns v bufsize list := by
      intro h
      obtain ⟨front, -, hne, -, hend⟩ := h
      obtain ⟨oid, rest, rfl⟩ := List.exists_cons_of_ne_nil hne
      rw [objectsSize_cons] at hend
      push_cast at hend
      omega
    rw [fmtAscRequest, if_pos (not_le.mp hsize), and_iff_left hnone]
    exact ⟨fun h => h.ret, fun h => ⟨fun a ha => absurd ha List.not_mem_nil, h⟩⟩

end Bounds

/-- **The builders keep to their buffer exactly when it has a size, and no first objects of the
list end behind it by up to the two bytes of a NULL, or the three of an INTEGER.** -/
theorem fmtAscRequests_inside_iff (buf : Mem Byte) (bufsize : Int) (requestId : Byte)
    (list : List AscSetOid) :
    (FmtInside bufsize (fmtAscGetRequest buf.untraced bufsize requestId list) ↔
        0 ≤ bufsize ∧ ¬ Overruns 2 bufsize list) ∧
      (FmtInside bufsize (fmtAscSetRequest buf.untraced bufsize requestId list) ↔
        0 ≤ bufsize ∧ ¬ Overruns 3 bufsize list) :=
  ⟨fmtAscRequest_inside nullValue_length SNMP_GET_REQUEST requestId buf bufsize list,
    fmtAscRequest_inside setValue_length SNMP_SET_REQUEST requestId buf bufsize list⟩

/-- **The request for `get_list` overruns a buffer of 156 bytes**: it takes 158. -/
theorem fmtAscGetRequest_overruns : ¬ ∀ (buf : Mem Byte) (bufsize : Int) (requestId : Byte)
    (list : List AscSetOid),
    FmtInside bufsize (fmtAscGetRequest buf.untraced bufsize requestId list) ∧
      FmtInside bufsize (fmtAscSetRequest buf.untraced bufsize requestId list) := by
  intro h
  have hret := (h (Mem.ofList 0 []) 156 0 getRequestList).1.ret
  exact absurd hret (by decide)

end RfsAtsc
