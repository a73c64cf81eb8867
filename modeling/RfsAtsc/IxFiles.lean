import RfsAtsc.DecimalText
import RfsAtsc.IxMessages

/-!
# Intersection messages as text: `ix_file_utils`

A message is written as a line for its header, then for each approach a line and a
line for each of its stop lines.  Reading goes by the same lines.  The header's scan
list names the altitude of the centre twice and that of the antenna never.
-/

namespace RfsAtsc

open DecimalText

/-! ## Conversions -/

/-- `%hhu`. -/
def hhu (x : BitVec 8) : Printed :=
  ⟨x.toNat, 3, printInt_natCast_length (by decide) (by have := x.isLt; omega)⟩

/-- `%hu`. -/
def hu (x : BitVec 16) : Printed :=
  ⟨x.toNat, 5, printInt_natCast_length (by decide) (by have := x.isLt; omega)⟩

/-- `%hd`. -/
def hd (x : BitVec 16) : Printed :=
  ⟨x.toInt, 6, printInt_length (by decide) (by
    have hlow := BitVec.le_toInt x
    have hhigh := @BitVec.toInt_lt 16 x
    norm_num at hlow hhigh ⊢
    omega)⟩

/-- `%u`. -/
def pu (x : BitVec 32) : Printed :=
  ⟨x.toNat, 10, printInt_natCast_length (by decide) (by have := x.isLt; omega)⟩

/-- `%d`. -/
def pd (x : BitVec 32) : Printed :=
  ⟨x.toInt, 11, printInt_length (by decide) (by
    have hlow := BitVec.le_toInt x
    have hhigh := @BitVec.toInt_lt 32 x
    norm_num at hlow hhigh ⊢
    omega)⟩

/-- The `k`-th value scanned goes into a field of `w` bits that held `old`. -/
def stored (vals : List Int) (k : Nat) {w : Nat} (old : BitVec w) : BitVec w :=
  match vals[k]? with
  | none => old
  | some v => BitVec.ofInt w v

/-! ## Writing -/

/-- The line of `ix_stop_line_t` in `ix_approach_update_file`: longitude first. -/
def IxStopLine.printed (l : IxStopLine) : List Printed :=
  [pd l.longitude, pd l.latitude, hu l.lineLength, hu l.orientation]

/-- The first line of `ix_approach_update_file`. -/
def IxApproachFields.printed (p : IxApproachFields) : List Printed :=
  [hhu p.approachType, hhu p.signalState, hd p.timeToNext, hhu p.vehiclesDetected,
    hhu p.pedSignalState, hhu p.secondsToPedSignalStateChange, hhu p.pedDetected,
    hhu p.secondsSincePedDetect, hhu p.secondsSincePedPhaseStarted,
    hhu p.emergencyVehicleApproach, hhu p.secondsUntilLightRail, hhu p.highPriorityFreightTrain,
    hhu p.vehicleStoppedInIx, hhu p.reserved0, hhu p.reserved1, hhu p.numberOfStopLines]

/-- The header line of `ix_msg_update_file`. -/
def IxMsgFields.printed (h : IxMsgFields) : List Printed :=
  [hhu h.flag, hhu h.version, hu h.messageLength, hhu h.messageType, hhu h.controlField,
    hhu h.ipiByte, pu h.intersectionId, pu h.mapNodeId, pd h.ixCenterLat, pd h.ixCenterLong,
    hd h.ixCenterAlt, pd h.antennaLat, pd h.antennaLong, hd h.antennaAlt, pd h.seconds,
    pd h.nanosecs, hhu h.cabinetErr, hhu h.preemptCalls, hhu h.busPriorityCalls,
    hhu h.preemptState, hhu h.specialAlarm, hhu h.reserved0, hhu h.reserved1, hhu h.reserved2,
    hhu h.reserved3, hhu h.numApproaches]

/-- `ix_approach_update_file`. -/
def ixApproachUpdateFile (p : IxApproach) : List Char :=
  printLine p.fields.printed ++ p.stopLineArray.flatMap fun l => printLine l.printed

/-- `ix_msg_update_file`. -/
def ixMsgUpdateFile (m : IxMsg) : List Char :=
  printLine m.fields.printed ++ m.approachArray.flatMap ixApproachUpdateFile

/-! ## Reading -/

/-- The size of `tmp_buf`. -/
def tmpBufSize : Nat := 256

/-- What the memory holds that is handed to the reader or allocated by it. -/
structure FileMemory where
  header : IxMsgFields
  approach : Nat → IxApproachFields
  line : Nat → Nat → IxStopLine

/-- The `sscanf` of a stop line. -/
def IxStopLine.scanned (old : IxStopLine) (vals : List Int) : IxStopLine where
  longitude := stored vals 0 old.longitude
  latitude := stored vals 1 old.latitude
  lineLength := stored vals 2 old.lineLength
  orientation := stored vals 3 old.orientation

/-- The `sscanf` of an approach line. -/
def IxApproachFields.scanned (old : IxApproachFields) (vals : List Int) : IxApproachFields where
  approachType := stored vals 0 old.approachType
  signalState := stored vals 1 old.signalState
  timeToNext := stored vals 2 old.timeToNext
  vehiclesDetected := stored vals 3 old.vehiclesDetected
  pedSignalState := stored vals 4 old.pedSignalState
  secondsToPedSignalStateChange := stored vals 5 old.secondsToPedSignalStateChange
  pedDetected := stored vals 6 old.pedDetected
  secondsSincePedDetect := stored vals 7 old.secondsSincePedDetect
  secondsSincePedPhaseStarted := stored vals 8 old.secondsSincePedPhaseStarted
  emergencyVehicleApproach := stored vals 9 old.emergencyVehicleApproach
  secondsUntilLightRail := stored vals 10 old.secondsUntilLightRail
  highPriorityFreightTrain := stored vals 11 old.highPriorityFreightTrain
  vehicleStoppedInIx := stored vals 12 old.vehicleStoppedInIx
  reserved0 := stored vals 13 old.reserved0
  reserved1 := stored vals 14 old.reserved1
  numberOfStopLines := stored vals 15 old.numberOfStopLines

/-- The `sscanf` of the header line.  The 14th value, which is the antenna's altitude,
goes where the 11th went. -/
def IxMsgFields.scanned (old : IxMsgFields) (vals : List Int) : IxMsgFields where
  flag := stored vals 0 old.flag
  version := stored vals 1 old.version
  messageLength := stored vals 2 old.messageLength
  messageType := stored vals 3 old.messageType
  controlField := stored vals 4 old.controlField
  ipiByte := stored vals 5 old.ipiByte
  intersectionId := stored vals 6 old.intersectionId
  mapNodeId := stored vals 7 old.mapNodeId
  ixCenterLat := stored vals 8 old.ixCenterLat
  ixCenterLong := stored vals 9 old.ixCenterLong
  ixCenterAlt := stored vals 13 (stored vals 10 old.ixCenterAlt)
  antennaLat := stored vals 11 old.antennaLat
  antennaLong := stored vals 12 old.antennaLong
  antennaAlt := old.antennaAlt
  seconds := stored vals 14 old.seconds
  nanosecs := stored vals 15 old.nanosecs
  cabinetErr := stored vals 16 old.cabinetErr
  preemptCalls := stored vals 17 old.preemptCalls
  busPriorityCalls := stored vals 18 old.busPriorityCalls
  preemptState := stored vals 19 old.preemptState
  specialAlarm := stored vals 20 old.specialAlarm
  reserved0 := stored vals 21 old.reserved0
  reserved1 := stored vals 22 old.reserved1
  reserved2 := stored vals 23 old.reserved2
  reserved3 := stored vals 24 old.reserved3
  numApproaches := stored vals 25 old.numApproaches

/-- The loop over the stop lines, `n` of them from index `i` up.  At the end of the file
it stops and leaves the others as they are in memory. -/
def readStopLines (mem : Nat → IxStopLine) : Nat → Nat → List Char → List IxStopLine × List Char
  | 0, _, file => ([], file)
  | n+1, i, file =>
      match fgets tmpBufSize file with
      | none => ((List.range (n + 1)).map fun j => mem (i + j), file)
      | some (line, file) =>
          let l := (mem i).scanned (scanInts 4 line)
          let rest := readStopLines mem n (i + 1) file
          (l :: rest.1, rest.2)

/-- As many stop lines are read as were asked for. -/
theorem readStopLines_length (mem : Nat → IxStopLine) (n i : Nat) (file : List Char) :
    (readStopLines mem n i file).1.length = n := by
  induction n generalizing i file with
  | zero => rfl
  | succ n ih =>
      rw [readStopLines]
      split
      · simp only [List.length_map, List.length_range]
      · exact congrArg Nat.succ (ih _ _)

/-- An approach as memory holds it. -/
def approachIn (mem : IxApproachFields) (lines : Nat → IxStopLine) : IxApproach where
  fields := mem
  stopLineArray := (List.range mem.numberOfStopLines.toNat).map lines
  length_eq := by simp only [List.length_map, List.length_range]

/-- `ix_approach_read_file`.  At the end of the file it leaves the approach as it is. -/
def ixApproachReadFile (mem : IxApproachFields) (lines : Nat → IxStopLine) (file : List Char) :
    IxApproach × List Char :=
  match fgets tmpBufSize file with
  | none => (approachIn mem lines, file)
  | some (line, file) =>
      let fields := mem.scanned (scanInts 16 line)
      let read := readStopLines lines fields.numberOfStopLines.toNat 0 file
      (⟨fields, read.1, readStopLines_length _ _ _ _⟩, read.2)

/-- The loop over the approaches, `n` of them from index `i` up. -/
def readApproaches (mem : FileMemory) : Nat → Nat → List Char → List IxApproach × List Char
  | 0, _, file => ([], file)
  | n+1, i, file =>
      let p := ixApproachReadFile (mem.approach i) (mem.line i) file
      let rest := readApproaches mem n (i + 1) p.2
      (p.1 :: rest.1, rest.2)

/-- As many approaches are read as were asked for. -/
theorem readApproaches_length (mem : FileMemory) (n i : Nat) (file : List Char) :
    (readApproaches mem n i file).1.length = n := by
  induction n generalizing i file with
  | zero => rfl
  | succ n ih => exact congrArg Nat.succ (ih _ _)

/-- A message as memory holds it. -/
def messageIn (mem : FileMemory) : IxMsg where
  fields := mem.header
  approachArray := (List.range mem.header.numApproaches.toNat).map fun i =>
    approachIn (mem.approach i) (mem.line i)
  length_eq := by simp only [List.length_map, List.length_range]

/-- `ix_msg_read_file`: the message, and the rest of the file.  At the end of the file
it leaves the message as it is. -/
def ixMsgReadFile (mem : FileMemory) (file : List Char) : IxMsg × List Char :=
  match fgets tmpBufSize file with
  | none => (messageIn mem, file)
  | some (line, file) =>
      let fields := mem.header.scanned (scanInts 26 line)
      let read := readApproaches mem fields.numApproaches.toNat 0 file
      (⟨fields, read.1, readApproaches_length _ _ _ _⟩, read.2)

/-! ## Reading what was written -/

/-- An unsigned field is stored as it was printed. -/
theorem stored_natCast {w : Nat} {vals : List Int} {k : Nat} {x : BitVec w} (old : BitVec w)
    (h : vals[k]? = some (x.toNat : Int)) : stored vals k old = x := by
  rw [stored, h]
  exact (BitVec.ofInt_natCast w x.toNat).trans (BitVec.ofNat_toNat w x |>.trans (by simp))

/-- So is a signed one. -/
theorem stored_toInt {w : Nat} {vals : List Int} {k : Nat} {x : BitVec w} (old : BitVec w)
    (h : vals[k]? = some x.toInt) : stored vals k old = x := by
  rw [stored, h]
  exact BitVec.ofInt_toInt

/-- A stop line is scanned as it was printed. -/
theorem IxStopLine.scanned_printed (old l : IxStopLine) :
    old.scanned (l.printed.map Printed.value) = l := by
  obtain ⟨latitude, longitude, lineLength, orientation⟩ := l
  rw [IxStopLine.scanned, IxStopLine.mk.injEq]
  exact ⟨stored_toInt _ rfl, stored_toInt _ rfl, stored_natCast _ rfl, stored_natCast _ rfl⟩

/-- So are the fields of an approach. -/
theorem IxApproachFields.scanned_printed (old p : IxApproachFields) :
    old.scanned (p.printed.map Printed.value) = p := by
  obtain ⟨⟩ := p
  rw [IxApproachFields.scanned, IxApproachFields.mk.injEq]
  exact ⟨stored_natCast _ rfl, stored_natCast _ rfl, stored_toInt _ rfl, stored_natCast _ rfl,
    stored_natCast _ rfl, stored_natCast _ rfl, stored_natCast _ rfl, stored_natCast _ rfl,
    stored_natCast _ rfl, stored_natCast _ rfl, stored_natCast _ rfl, stored_natCast _ rfl,
    stored_natCast _ rfl, stored_natCast _ rfl, stored_natCast _ rfl, stored_natCast _ rfl⟩

/-- The header comes back, but for the altitudes: the centre has the antenna's, and the
antenna keeps what memory held. -/
theorem IxMsgFields.scanned_printed (old h : IxMsgFields) :
    old.scanned (h.printed.map Printed.value) =
      { h with ixCenterAlt := h.antennaAlt, antennaAlt := old.antennaAlt } := by
  obtain ⟨⟩ := h
  rw [IxMsgFields.scanned, IxMsgFields.mk.injEq]
  exact ⟨stored_natCast _ rfl, stored_natCast _ rfl, stored_natCast _ rfl, stored_natCast _ rfl,
    stored_natCast _ rfl, stored_natCast _ rfl, stored_natCast _ rfl, stored_natCast _ rfl,
    stored_toInt _ rfl, stored_toInt _ rfl, stored_toInt _ rfl, stored_toInt _ rfl,
    stored_toInt _ rfl, rfl, stored_toInt _ rfl, stored_toInt _ rfl, stored_natCast _ rfl,
    stored_natCast _ rfl, stored_natCast _ rfl, stored_natCast _ rfl, stored_natCast _ rfl,
    stored_natCast _ rfl, stored_natCast _ rfl, stored_natCast _ rfl, stored_natCast _ rfl,
    stored_natCast _ rfl⟩

/-- A stop line's text fits the buffer, as do the two below. -/
theorem IxStopLine.lineWidth_printed (l : IxStopLine) : lineWidth l.printed = 37 := by
  simp [lineWidth, IxStopLine.printed, pd, hu]

/-- The line of an approach is 68 wide at most. -/
theorem IxApproachFields.lineWidth_printed (p : IxApproachFields) : lineWidth p.printed = 68 := by
  simp [lineWidth, IxApproachFields.printed, hhu, hd]

/-- That of the header is 175 wide at most. -/
theorem IxMsgFields.lineWidth_printed (h : IxMsgFields) : lineWidth h.printed = 175 := by
  simp [lineWidth, IxMsgFields.printed, hhu, hu, hd, pu, pd]

/-- The stop lines of an approach are read back, whatever memory held. -/
theorem readStopLines_spec (mem : Nat → IxStopLine) (ls : List IxStopLine) (i : Nat)
    (rest : List Char) :
    readStopLines mem ls.length i (ls.flatMap (fun l => printLine l.printed) ++ rest) =
      (ls, rest) := by
  induction ls generalizing i with
  | nil => rfl
  | cons l ls ih =>
      have hwidth : lineWidth l.printed < tmpBufSize := by
        rw [l.lineWidth_printed]
        decide
      have hscan : scanInts 4 (printLine l.printed) = l.printed.map Printed.value :=
        scanInts_printLine l.printed
      rw [List.flatMap_cons, List.append_assoc, List.length_cons, readStopLines,
        fgets_printLine _ _ hwidth]
      simp only [hscan, IxStopLine.scanned_printed, ih]

/-- An approach is read back with its stop lines, whatever memory held. -/
theorem ixApproachReadFile_spec (mem : IxApproachFields) (lines : Nat → IxStopLine)
    (p : IxApproach) (rest : List Char) :
    ixApproachReadFile mem lines (ixApproachUpdateFile p ++ rest) = (p, rest) := by
  have hwidth : lineWidth p.fields.printed < tmpBufSize := by
    rw [p.fields.lineWidth_printed]
    decide
  have hscan : scanInts 16 (printLine p.fields.printed) = p.fields.printed.map Printed.value :=
    scanInts_printLine p.fields.printed
  have hlines := readStopLines_spec lines p.stopLineArray 0 rest
  obtain ⟨fields, stops, hlength⟩ := p
  simp only at hwidth hscan hlines hlength
  rw [ixApproachUpdateFile, List.append_assoc, ixApproachReadFile, fgets_printLine _ _ hwidth]
  simp only [hscan, IxApproachFields.scanned_printed, ← hlength, hlines]

/-- Approaches are read from the file as they were written to it. -/
theorem readApproaches_spec (mem : FileMemory) (ps : List IxApproach) (i : Nat)
    (rest : List Char) :
    readApproaches mem ps.length i (ps.flatMap ixApproachUpdateFile ++ rest) = (ps, rest) := by
  induction ps generalizing i with
  | nil => rfl
  | cons p ps ih =>
      rw [List.flatMap_cons, List.append_assoc, List.length_cons, readApproaches]
      simp only [ixApproachReadFile_spec, ih]

/-- What reading a written message gives: the message, but for the two altitudes. -/
theorem ixMsgReadFile_spec (mem : FileMemory) (m : IxMsg) (rest : List Char) :
    (ixMsgReadFile mem (ixMsgUpdateFile m ++ rest)).1.fields =
        { m.fields with ixCenterAlt := m.fields.antennaAlt, antennaAlt := mem.header.antennaAlt } ∧
      (ixMsgReadFile mem (ixMsgUpdateFile m ++ rest)).1.approachArray = m.approachArray ∧
      (ixMsgReadFile mem (ixMsgUpdateFile m ++ rest)).2 = rest := by
  have hwidth : lineWidth m.fields.printed < tmpBufSize := by
    rw [m.fields.lineWidth_printed]
    decide
  have hscan : scanInts 26 (printLine m.fields.printed) = m.fields.printed.map Printed.value :=
    scanInts_printLine m.fields.printed
  have happroaches := readApproaches_spec mem m.approachArray 0 rest
  rw [m.length_eq] at happroaches
  rw [ixMsgUpdateFile, List.append_assoc, ixMsgReadFile, fgets_printLine _ _ hwidth]
  simp only [hscan, IxMsgFields.scanned_printed, happroaches]
  exact ⟨trivial, trivial, trivial⟩

/-- **File round trip**: a message read from what was written for it is equal to it
exactly when its two altitudes are equal and the memory read into held that altitude for
the antenna. -/
theorem ixMsgReadFile_eq_iff (mem : FileMemory) (m : IxMsg) (rest : List Char) :
    (ixMsgReadFile mem (ixMsgUpdateFile m ++ rest)).1 = m ↔
      m.fields.ixCenterAlt = m.fields.antennaAlt ∧
        mem.header.antennaAlt = m.fields.antennaAlt := by
  obtain ⟨hfields, happroaches, _⟩ := ixMsgReadFile_spec mem m rest
  constructor
  · intro h
    rw [h] at hfields
    have hcenter := congrArg IxMsgFields.ixCenterAlt hfields
    have hantenna := congrArg IxMsgFields.antennaAlt hfields
    exact ⟨hcenter, hantenna.symm⟩
  · intro h
    obtain ⟨hcenter, hantenna⟩ := h
    have hsame : { m.fields with
        ixCenterAlt := m.fields.antennaAlt, antennaAlt := mem.header.antennaAlt } = m.fields := by
      rw [← hcenter, hantenna]
    rw [hsame] at hfields
    obtain ⟨fields, approaches, hlength⟩ := m
    generalize ixMsgReadFile mem _ = read at hfields happroaches ⊢
    obtain ⟨⟨readFields, readApproaches, hread⟩, tail⟩ := read
    simp only at hfields happroaches
    subst hfields happroaches
    rfl

/-- The antenna one metre above the centre: its altitude is not read back. -/
theorem ixMsgReadFile_not_always :
    ¬ ∀ (mem : FileMemory) (m : IxMsg), (ixMsgReadFile mem (ixMsgUpdateFile m)).1 = m := by
  intro h
  let header : IxMsgFields :=
    { IxMsgFields.ofBytes [0x7e, 2] with ixCenterAlt := 5, antennaAlt := 6 }
  let mem : FileMemory :=
    { header := IxMsgFields.ofBytes []
      approach := fun _ => IxApproachFields.ofBytes []
      line := fun _ _ => IxStopLine.ofBytes [] }
  have hread := (ixMsgReadFile_spec mem ⟨header, [], rfl⟩ []).1
  rw [List.append_nil, h mem ⟨header, [], rfl⟩] at hread
  exact absurd (congrArg IxMsgFields.ixCenterAlt hread) (by decide)

end RfsAtsc
