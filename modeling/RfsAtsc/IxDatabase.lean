import RfsAtsc.IxMessages

/-!
# Intersection messages in the database: `ix_db_utils`

A message is spread over one variable for its header and one for each approach, which
holds the approach's struct and its stop lines one after the other.  The database is a
parameter: a variable gives back the bytes last written to it, and a read of more bytes
than that has something behind them.
-/

namespace RfsAtsc

open TracedMemory

/-- The database client: what `db_clt_write` and `db_clt_read` do to the variables. -/
structure Database where
  Store : Type
  write : Store → Int → List UChar → Store
  read : Store → Int → Nat → List UChar
  read_length : ∀ s v n, (read s v n).length = n
  read_write : ∀ s v bs n, bs.length ≤ n → (read (write s v bs) v n).take bs.length = bs
  read_write_other : ∀ s v w bs n, w ≠ v → read (write s v bs) w n = read s w n

/-- The variables of a message: its header's, and its first approach's, the others
following. -/
structure IxVars where
  ixDbVar : Int
  approachStart : Int
  apart : ixDbVar < approachStart

/-- `DB_IX_MSG_VAR` and `DB_IX_APPROACH1_VAR`. -/
def ixVars : IxVars := ⟨3400, 3401, by decide⟩

/-- `tmp_buf` in `ix_approach_update`: the struct and its stop lines. -/
def IxApproach.bytes (p : IxApproach) : List UChar :=
  p.fields.bytes ++ p.stopLineArray.flatMap IxStopLine.bytes

/-- The write of `ix_approach_update`. -/
def approachWrite (vars : IxVars) (i : Nat) (p : IxApproach) : Int × List UChar :=
  (vars.approachStart + i, p.bytes)

/-- The writes of `ix_msg_update`, in their order: the header's, then each approach's. -/
def msgWrites (vars : IxVars) (m : IxMsg) : List (Int × List UChar) :=
  (vars.ixDbVar, m.fields.bytes) :: m.approachArray.mapIdx (approachWrite vars)

/-- The header read of `ix_msg_read`. -/
def readMsgFields (D : Database) (vars : IxVars) (s : D.Store) : IxMsgFields :=
  IxMsgFields.ofBytes (D.read s vars.ixDbVar msgSize)

/-- `ix_approach_read`.  `stack` is what lies where `tmp_buf` is, and behind it. -/
def ixApproachRead (D : Database) (vars : IxVars) (s : D.Store) (stack : Mem UChar) (i : Nat) :
    IxApproach :=
  let tmpBuf := stack.write 0 (D.read s (vars.approachStart + i) MAX_APPROACH_SIZE)
  let fields := IxApproachFields.ofBytes (tmpBuf.take 0 approachSize)
  { fields := fields
    stopLineArray := (List.range fields.numberOfStopLines.toNat).map fun j : Nat =>
      IxStopLine.ofBytes (tmpBuf.take (approachSize + stopLineSize * j) stopLineSize)
    length_eq := by simp only [List.length_map, List.length_range] }

/-- An approach that `tmp_buf` of `ix_approach_read` has room for. -/
def IxApproach.Bounded (p : IxApproach) : Prop := p.stopLineArray.length ≤ MAX_STOP_LINES

/-- A variable shows some bytes to a read of `n`. -/
def Shows (D : Database) (s : D.Store) (v : Int) (n : Nat) (bs : List UChar) : Prop :=
  (D.read s v n).take bs.length = bs

/-! ## What a read gives -/

theorem IxApproach.bytes_length (p : IxApproach) :
    p.bytes.length = 17 + 12 * p.stopLineArray.length := by
  have hlines : (p.stopLineArray.flatMap IxStopLine.bytes).length =
      12 * p.stopLineArray.length := by
    generalize p.stopLineArray = ls
    induction ls with
    | nil => rfl
    | cons l ls ih =>
        have hsize : l.bytes.length = 12 := rfl
        rw [List.flatMap_cons, List.length_append, ih, hsize, List.length_cons]
        omega
  rw [IxApproach.bytes, List.length_append, hlines, IxApproachFields.bytes_length]

theorem IxApproach.Bounded.bytes_length_le {p : IxApproach} (h : p.Bounded) :
    p.bytes.length ≤ MAX_APPROACH_SIZE := by
  have hlines : p.stopLineArray.length ≤ 2 := h
  rw [p.bytes_length]
  change _ ≤ 41
  omega

theorem readMsgFields_of_shows {D : Database} {vars : IxVars} {s : D.Store} {h : IxMsgFields}
    (hshows : Shows D s vars.ixDbVar msgSize h.bytes) : readMsgFields D vars s = h := by
  rw [Shows, h.bytes_length, List.take_of_length_le (Nat.le_of_eq (D.read_length _ _ _))] at hshows
  rw [readMsgFields, hshows, IxMsgFields.ofBytes_bytes]

/-- Stop lines held one after the other are read off one by one. -/
private theorem map_take_stopLines {m : Mem UChar} {a : Int} {ls : List IxStopLine}
    (h : m.Holds a (ls.flatMap IxStopLine.bytes)) :
    ((List.range ls.length).map fun j : Nat =>
      IxStopLine.ofBytes (m.take (a + stopLineSize * j) stopLineSize)) = ls := by
  induction ls generalizing a with
  | nil => rfl
  | cons l ls ih =>
      rw [List.flatMap_cons, Mem.holds_append] at h
      obtain ⟨hfirst, hrest⟩ := h
      have hread : m.take a stopLineSize = l.bytes := (m.holds_iff_take a l.bytes).mp hfirst
      have htail := ih hrest
      rw [List.length_cons, List.range_succ_eq_map, List.map_cons, List.map_map]
      refine congrArg₂ List.cons ?_ ?_
      · have haddr : a + (stopLineSize : Int) * ((0 : Nat) : Int) = a := by simp
        rw [haddr, hread, IxStopLine.ofBytes_bytes]
      · refine Eq.trans (List.map_congr_left fun j _ => ?_) htail
        have haddr : a + (stopLineSize : Int) * ((j + 1 : Nat) : Int) =
            a + (l.bytes.length : Int) + stopLineSize * j := by
          rw [IxStopLine.bytes_length]
          push_cast
          ring
        exact congrArg (fun b => IxStopLine.ofBytes (m.take b stopLineSize)) haddr

/-- An approach shown by its variable is read whole, whatever the stack held. -/
theorem ixApproachRead_of_shows {D : Database} {vars : IxVars} {s : D.Store} {p : IxApproach}
    {i : Nat} (stack : Mem UChar)
    (hshows : Shows D s (vars.approachStart + i) MAX_APPROACH_SIZE p.bytes) :
    ixApproachRead D vars s stack i = p := by
  have hheld : (stack.write 0 (D.read s (vars.approachStart + i) MAX_APPROACH_SIZE)).Holds 0
      (p.fields.bytes ++ p.stopLineArray.flatMap IxStopLine.bytes) := by
    have hwritten := stack.write_holds 0 (D.read s (vars.approachStart + i) MAX_APPROACH_SIZE)
    have hsplit : D.read s (vars.approachStart + i) MAX_APPROACH_SIZE =
        p.bytes ++ (D.read s (vars.approachStart + i) MAX_APPROACH_SIZE).drop p.bytes.length := by
      conv_lhs => rw [← List.take_append_drop p.bytes.length (D.read s _ _), hshows]
    rw [hsplit, Mem.holds_append] at hwritten
    rw [hsplit]
    exact hwritten.1
  obtain ⟨hfields, hlines⟩ := (Mem.holds_append _ _ _ _).mp hheld
  have hread := (Mem.holds_iff_take _ _ _).mp hfields
  obtain ⟨fields, lines, hlength⟩ := p
  simp only [IxApproachFields.bytes_length] at hread hlines
  have hstops := map_take_stopLines hlines
  rw [ixApproachRead]
  simp only [hread, IxApproachFields.ofBytes_bytes, ← hlength, IxApproach.mk.injEq, true_and]
  simpa using hstops

/-! ## What a write leaves -/

theorem shows_write_same (D : Database) (s : D.Store) (v : Int) {bs : List UChar} {n : Nat}
    (hlen : bs.length ≤ n) : Shows D (D.write s v bs) v n bs :=
  D.read_write s v bs n hlen

theorem Shows.write_other {D : Database} {s : D.Store} {v w : Int} {n : Nat} {bs : List UChar}
    (h : Shows D s w n bs) (hne : w ≠ v) (cs : List UChar) : Shows D (D.write s v cs) w n bs := by
  rw [Shows, D.read_write_other s v w cs n hne]
  exact h

end RfsAtsc
