import RfsAtsc.FieldSwaps
import RfsAtsc.UrmsSetMeter

/-!
# Intersection messages

The three packed structs of `ix_msg.h` as they lie in the memory of a little-endian
machine, without the pointers that end two of them, and the messages made of them: a
header, approaches, and stop lines of each approach.
-/

namespace RfsAtsc

open TracedMemory

/-! ## Integers in memory -/

/-- A 16-bit field. -/
def le16 (x : BitVec 16) : List UChar := [x.extractLsb' 0 8, x.extractLsb' 8 8]

/-- A 32-bit field. -/
def le32 (x : BitVec 32) : List UChar :=
  [x.extractLsb' 0 8, x.extractLsb' 8 8, x.extractLsb' 16 8, x.extractLsb' 24 8]

/-- The byte at an offset of a struct. -/
def u8At (bs : List UChar) (i : Nat) : UChar := bs.getD i 0

/-- The 16-bit field at an offset of a struct. -/
def u16At (bs : List UChar) (i : Nat) : BitVec 16 := u8At bs (i + 1) ++ u8At bs i

/-- The 32-bit field at an offset of a struct. -/
def u32At (bs : List UChar) (i : Nat) : BitVec 32 :=
  u8At bs (i + 3) ++ u8At bs (i + 2) ++ u8At bs (i + 1) ++ u8At bs i

/-- A `short` takes two bytes. -/
theorem le16_length (x : BitVec 16) : (le16 x).length = 2 := rfl

/-- And an `int` four. -/
theorem le32_length (x : BitVec 32) : (le32 x).length = 4 := rfl

/-- The two bytes of a `short` are the `short`. -/
theorem le16_joined (x : BitVec 16) : x.extractLsb' 8 8 ++ x.extractLsb' 0 8 = x := by
  apply BitVec.eq_of_getLsbD_eq
  intro i hi
  rw [BitVec.getLsbD_append]
  split
  · simp [*]
  · rename_i hlow
    have hindex : 8 + (i - 8) = i := by omega
    simp [hindex, show i - 8 < 8 by omega]

/-- And the four of an `int` the `int`. -/
theorem le32_joined (x : BitVec 32) :
    x.extractLsb' 24 8 ++ x.extractLsb' 16 8 ++ x.extractLsb' 8 8 ++ x.extractLsb' 0 8 = x := by
  apply BitVec.eq_of_getLsbD_eq
  intro i hi
  simp only [BitVec.getLsbD_append, BitVec.getLsbD_extractLsb']
  split
  · simp [*]
  · split
    · have hindex : 8 + (i - 8) = i := by omega
      simp [*]
    · split
      · have hindex : 16 + (i - 8 - 8) = i := by omega
        simp [*]
      · have hindex : 24 + (i - 8 - 8 - 8) = i := by omega
        simp [hindex, show i - 8 - 8 - 8 < 8 by omega]

/-! ## The structs -/

/-- `ix_stop_line_t`. -/
structure IxStopLine where
  latitude : BitVec 32
  longitude : BitVec 32
  lineLength : BitVec 16
  orientation : BitVec 16
deriving DecidableEq

/-- `ix_approach_t`, without its pointer. -/
structure IxApproachFields where
  approachType : UChar
  signalState : UChar
  timeToNext : BitVec 16
  vehiclesDetected : UChar
  pedSignalState : UChar
  secondsToPedSignalStateChange : UChar
  pedDetected : UChar
  secondsSincePedDetect : UChar
  secondsSincePedPhaseStarted : UChar
  emergencyVehicleApproach : UChar
  secondsUntilLightRail : UChar
  highPriorityFreightTrain : UChar
  vehicleStoppedInIx : UChar
  reserved0 : UChar
  reserved1 : UChar
  numberOfStopLines : UChar
deriving DecidableEq

/-- `ix_msg_t`, without its pointer. -/
structure IxMsgFields where
  flag : UChar
  version : UChar
  messageLength : BitVec 16
  messageType : UChar
  controlField : UChar
  ipiByte : UChar
  intersectionId : BitVec 32
  mapNodeId : BitVec 32
  ixCenterLat : BitVec 32
  ixCenterLong : BitVec 32
  ixCenterAlt : BitVec 16
  antennaLat : BitVec 32
  antennaLong : BitVec 32
  antennaAlt : BitVec 16
  seconds : BitVec 32
  nanosecs : BitVec 32
  cabinetErr : UChar
  preemptCalls : UChar
  busPriorityCalls : UChar
  preemptState : UChar
  specialAlarm : UChar
  reserved0 : UChar
  reserved1 : UChar
  reserved2 : UChar
  reserved3 : UChar
  numApproaches : UChar
deriving DecidableEq

/-- An approach with its array of stop lines, as many as it declares. -/
structure IxApproach where
  fields : IxApproachFields
  stopLineArray : List IxStopLine
  length_eq : stopLineArray.length = fields.numberOfStopLines.toNat
deriving DecidableEq

/-- A message with its array of approaches, as many as it declares. -/
structure IxMsg where
  fields : IxMsgFields
  approachArray : List IxApproach
  length_eq : approachArray.length = fields.numApproaches.toNat
deriving DecidableEq

/-- `sizeof(ix_stop_line_t)`. -/
abbrev stopLineSize : Nat := 12

/-- `sizeof(ix_approach_t) - IX_POINTER_SIZE`. -/
abbrev approachSize : Nat := 17

/-- `sizeof(ix_msg_t) - IX_POINTER_SIZE`. -/
abbrev msgSize : Nat := 53

/-- `MAX_APPROACHES`. -/
def MAX_APPROACHES : Nat := 10

/-- `MAX_STOP_LINES`. -/
def MAX_STOP_LINES : Nat := 2

/-- `MAX_APPROACH_SIZE`. -/
def MAX_APPROACH_SIZE : Nat := approachSize + MAX_STOP_LINES * stopLineSize

/-- `MAX_IX_MSG_PKT_SIZE`. -/
def MAX_IX_MSG_PKT_SIZE : Nat := msgSize + MAX_APPROACHES * MAX_APPROACH_SIZE

def IxStopLine.bytes (l : IxStopLine) : List UChar :=
  le32 l.latitude ++ le32 l.longitude ++ le16 l.lineLength ++ le16 l.orientation

def IxStopLine.ofBytes (bs : List UChar) : IxStopLine where
  latitude := u32At bs 0
  longitude := u32At bs 4
  lineLength := u16At bs 8
  orientation := u16At bs 10

def IxApproachFields.bytes (p : IxApproachFields) : List UChar :=
  [p.approachType, p.signalState] ++ le16 p.timeToNext ++
    [p.vehiclesDetected, p.pedSignalState, p.secondsToPedSignalStateChange, p.pedDetected,
      p.secondsSincePedDetect, p.secondsSincePedPhaseStarted, p.emergencyVehicleApproach,
      p.secondsUntilLightRail, p.highPriorityFreightTrain, p.vehicleStoppedInIx, p.reserved0,
      p.reserved1, p.numberOfStopLines]

def IxApproachFields.ofBytes (bs : List UChar) : IxApproachFields where
  approachType := u8At bs 0
  signalState := u8At bs 1
  timeToNext := u16At bs 2
  vehiclesDetected := u8At bs 4
  pedSignalState := u8At bs 5
  secondsToPedSignalStateChange := u8At bs 6
  pedDetected := u8At bs 7
  secondsSincePedDetect := u8At bs 8
  secondsSincePedPhaseStarted := u8At bs 9
  emergencyVehicleApproach := u8At bs 10
  secondsUntilLightRail := u8At bs 11
  highPriorityFreightTrain := u8At bs 12
  vehicleStoppedInIx := u8At bs 13
  reserved0 := u8At bs 14
  reserved1 := u8At bs 15
  numberOfStopLines := u8At bs 16

def IxMsgFields.bytes (h : IxMsgFields) : List UChar :=
  [h.flag, h.version] ++ le16 h.messageLength ++ [h.messageType, h.controlField, h.ipiByte] ++
    le32 h.intersectionId ++ le32 h.mapNodeId ++ le32 h.ixCenterLat ++ le32 h.ixCenterLong ++
    le16 h.ixCenterAlt ++ le32 h.antennaLat ++ le32 h.antennaLong ++ le16 h.antennaAlt ++
    le32 h.seconds ++ le32 h.nanosecs ++
    [h.cabinetErr, h.preemptCalls, h.busPriorityCalls, h.preemptState, h.specialAlarm,
      h.reserved0, h.reserved1, h.reserved2, h.reserved3, h.numApproaches]

def IxMsgFields.ofBytes (bs : List UChar) : IxMsgFields where
  flag := u8At bs 0
  version := u8At bs 1
  messageLength := u16At bs 2
  messageType := u8At bs 4
  controlField := u8At bs 5
  ipiByte := u8At bs 6
  intersectionId := u32At bs 7
  mapNodeId := u32At bs 11
  ixCenterLat := u32At bs 15
  ixCenterLong := u32At bs 19
  ixCenterAlt := u16At bs 23
  antennaLat := u32At bs 25
  antennaLong := u32At bs 29
  antennaAlt := u16At bs 33
  seconds := u32At bs 35
  nanosecs := u32At bs 39
  cabinetErr := u8At bs 43
  preemptCalls := u8At bs 44
  busPriorityCalls := u8At bs 45
  preemptState := u8At bs 46
  specialAlarm := u8At bs 47
  reserved0 := u8At bs 48
  reserved1 := u8At bs 49
  reserved2 := u8At bs 50
  reserved3 := u8At bs 51
  numApproaches := u8At bs 52

/-- The packed stop line has its size. -/
@[simp] theorem IxStopLine.bytes_length (l : IxStopLine) : l.bytes.length = stopLineSize := rfl

/-- The packed approach has its own. -/
@[simp] theorem IxApproachFields.bytes_length (p : IxApproachFields) :
    p.bytes.length = approachSize := rfl

/-- And so has the packed header. -/
@[simp] theorem IxMsgFields.bytes_length (h : IxMsgFields) : h.bytes.length = msgSize := by
  simp only [IxMsgFields.bytes, List.length_append, List.length_cons, List.length_nil,
    le16_length, le32_length]

/-- The bytes of a stop line give it back. -/
@[simp] theorem IxStopLine.ofBytes_bytes (l : IxStopLine) : IxStopLine.ofBytes l.bytes = l := by
  simp only [IxStopLine.ofBytes, IxStopLine.bytes, le16, le32, List.cons_append,
    List.nil_append, u16At, u32At, u8At, List.getD_cons_zero, List.getD_cons_succ, le16_joined,
    le32_joined]

/-- Those of an approach its fields. -/
@[simp] theorem IxApproachFields.ofBytes_bytes (p : IxApproachFields) :
    IxApproachFields.ofBytes p.bytes = p := by
  simp only [IxApproachFields.ofBytes, IxApproachFields.bytes, le16, List.cons_append,
    List.nil_append, u16At, u8At, List.getD_cons_zero, List.getD_cons_succ, le16_joined]

/-- And those of a header its fields. -/
@[simp] theorem IxMsgFields.ofBytes_bytes (h : IxMsgFields) :
    IxMsgFields.ofBytes h.bytes = h := by
  simp only [IxMsgFields.ofBytes, IxMsgFields.bytes, le16, le32, List.cons_append,
    List.nil_append, u16At, u32At, u8At, List.getD_cons_zero, List.getD_cons_succ, le16_joined,
    le32_joined]

end RfsAtsc
