import RfsAtsc.ApproachConfig
import RfsAtsc.IxCodec

/-!
# The intersection message of `phases`

Every turn of its loop `phases` fills the message from the approach configuration and the
colours of the turn.  The message's length comes from a count of stop lines kept while the
configuration was read; the encoder adds up the approaches and stop lines that the message
has.  The two agree.
-/

namespace RfsAtsc.Phases

open TracedMemory

def APPROACH_T_STRAIGHT_THROUGH : Int := 1
def APPROACH_T_LEFT_TURN : Int := 2
def APPROACH_T_RIGHT_TURN : Int := 3

/-- What else the message is filled from: the site's name and the overlaps. -/
structure MessageConfig where
  site : List Char
  noOverlaps : Nat
  overlapPhase : Int → Int
  overlapApproach : Int → Int

/-- `timespec_t`. -/
structure Timespec where
  tvSec : Int
  tvNsec : Int

/-! ## Filling the message -/

/-- The cast of a decimal to `int`. -/
def truncate (q : ℚ) : Int := q.num.tdiv q.den

/-- What an approach shows. -/
structure ShownApproach where
  approachType : Int
  signalState : Int
  timeToNext : Int

/-- What its phase shows.  Odd phases turn left, and phase 4 at `fifth`. -/
def phaseShown (cfg : MessageConfig) (v : Signals) (phase : Int) : ShownApproach where
  approachType :=
    if cfg.site.take 5 = ['f', 'i', 'f', 't', 'h'] ∧ phase = 4 then APPROACH_T_LEFT_TURN
    else if phase.tmod 2 = 1 then APPROACH_T_LEFT_TURN
    else APPROACH_T_STRAIGHT_THROUGH
  signalState := v.signalColor phase
  timeToNext := truncate (10 * v.timeLeft phase)

/-- An overlap of approach `i` shows instead. -/
def overlapShown (cfg : MessageConfig) (v : Signals) (i : Int) (shown : ShownApproach) (j : Int) :
    ShownApproach :=
  if cfg.overlapApproach j = i then
    { approachType := APPROACH_T_RIGHT_TURN
      signalState := v.signalColor (cfg.overlapPhase j)
      timeToNext := truncate (10 * v.timeLeft (cfg.overlapPhase j)) }
  else shown

/-- The struct of stop line `j` of approach `i`. -/
def fillStopLine (s : ApproachReader) (i j : Int) : IxStopLine where
  latitude := BitVec.ofInt 32 (s.stopLat i j)
  longitude := BitVec.ofInt 32 (s.stopLong i j)
  lineLength := BitVec.ofInt 16 (s.stopLength i j)
  orientation := BitVec.ofInt 16 (s.stopOrient i j)

/-- The struct of approach `i`, with its stop lines. -/
def fillApproach (cfg : MessageConfig) (v : Signals) (s : ApproachReader) (i : Int) : IxApproach :=
  let shown := (upTo cfg.noOverlaps).foldl (overlapShown cfg v i) (phaseShown cfg v (s.phaseNo i))
  let numberOfStopLines := BitVec.ofInt 8 (s.noStop i)
  { fields :=
      { approachType := BitVec.ofInt 8 shown.approachType
        signalState := BitVec.ofInt 8 shown.signalState
        timeToNext := BitVec.ofInt 16 shown.timeToNext
        vehiclesDetected := 0
        pedSignalState := 0
        secondsToPedSignalStateChange := 255
        pedDetected := 0
        secondsSincePedDetect := 255
        secondsSincePedPhaseStarted := 255
        emergencyVehicleApproach := 0
        secondsUntilLightRail := 255
        highPriorityFreightTrain := 0
        vehicleStoppedInIx := 0
        reserved0 := 0
        reserved1 := 0
        numberOfStopLines := numberOfStopLines }
    stopLineArray := (upTo numberOfStopLines.toNat).map (fillStopLine s i)
    length_eq := by rw [List.length_map, upTo, List.length_map, List.length_range] }

/-- The message, with its approaches. -/
def fillIxMsg (cfg : MessageConfig) (v : Signals) (s : ApproachReader) (trigTime : Timespec) :
    IxMsg :=
  let numApproaches := BitVec.ofInt 8 s.noApproaches
  { fields :=
      { flag := 0x7e
        version := 2
        messageLength :=
          BitVec.ofInt 16 (msgSize + s.noApproaches * approachSize + s.totalNoStops * stopLineSize)
        messageType := 0
        controlField := 0
        ipiByte := 0
        intersectionId := BitVec.ofInt 32 s.intersectionId
        mapNodeId := BitVec.ofInt 32 s.nodeId
        ixCenterLat := BitVec.ofInt 32 s.lat1
        ixCenterLong := BitVec.ofInt 32 s.long1
        ixCenterAlt := BitVec.ofInt 16 s.alt1
        antennaLat := BitVec.ofInt 32 s.lat2
        antennaLong := BitVec.ofInt 32 s.long2
        antennaAlt := BitVec.ofInt 16 s.alt2
        seconds := BitVec.ofInt 32 trigTime.tvSec
        nanosecs := BitVec.ofInt 32 trigTime.tvNsec
        cabinetErr := 0
        preemptCalls := 0
        busPriorityCalls := 0
        preemptState := 0
        specialAlarm := 0
        reserved0 := 0
        reserved1 := 0
        reserved2 := 0
        reserved3 := 0
        numApproaches := numApproaches }
    approachArray := (upTo numApproaches.toNat).map (fillApproach cfg v s)
    length_eq := by rw [List.length_map, upTo, List.length_map, List.length_range] }

/-! ## Sizes -/

theorem length_upTo (n : Nat) : (upTo n).length = n := by
  rw [upTo, List.length_map, List.length_range]

/-- A count that fits a byte is stored as it is. -/
theorem toNat_ofInt_of_lt {n w : Nat} (h : n < 2 ^ w) : (BitVec.ofInt w n).toNat = n := by
  rw [BitVec.toNat_ofInt]
  have hmod : ((n : Int) % (2 ^ w : Nat)) = n := Int.emod_eq_of_lt (by omega) (by exact_mod_cast h)
  rw [hmod, Int.toNat_natCast]

/-- The bytes that the encoder gives an approach. -/
def Approach.encodedSize (a : Approach) : Nat := 17 + 12 * a.stopLines.length

section Sizes

variable {c : ApproachConfig} {s : ApproachReader}

theorem ApproachConfig.Valid.stopLines_le_two (hvalid : c.Valid) {a : Approach}
    (ha : a ∈ c.approaches) : a.stopLines.length ≤ 2 := hvalid.stopLines_le a ha

theorem ApproachConfig.Valid.approaches_le_ten (hvalid : c.Valid) : c.approaches.length ≤ 10 :=
  hvalid.approaches_le

/-- An approach in the message has the stop lines that the configuration gives it. -/
theorem size_fillApproach (hvalid : c.Valid) (hread : s.Holds c) (cfg : MessageConfig)
    (v : Signals) {m : Nat} {a : Approach} (ha : c.approaches[m]? = some a) :
    (fillApproach cfg v s (m + 1)).size = a.encodedSize := by
  obtain ⟨hm, _⟩ := List.getElem?_eq_some_iff.mp ha
  have hstops : s.noStop (m + 1) = a.stopLines.length := (hread.approach m a hm ha).noStop
  have hle := hvalid.stopLines_le_two (List.mem_of_getElem? ha)
  have hcount : (BitVec.ofInt 8 (s.noStop (m + 1))).toNat = a.stopLines.length := by
    rw [hstops]
    exact toNat_ofInt_of_lt (by omega)
  change 17 + 12 * ((upTo (BitVec.ofInt 8 (s.noStop (m + 1))).toNat).map _).length = _
  rw [List.length_map, length_upTo, hcount, Approach.encodedSize]

/-- So the message has the configuration's approaches and stop lines. -/
theorem encodedSize_fillIxMsg (hvalid : c.Valid) (hread : s.Holds c) (cfg : MessageConfig)
    (v : Signals) (trigTime : Timespec) :
    (fillIxMsg cfg v s trigTime).encodedSize =
      53 + (c.approaches.map Approach.encodedSize).sum := by
  have hle := hvalid.approaches_le_ten
  have hcount : (BitVec.ofInt 8 s.noApproaches).toNat = c.approaches.length := by
    rw [hread.noApproaches]
    exact toNat_ofInt_of_lt (by omega)
  have hsizes : ((upTo c.approaches.length).map (fillApproach cfg v s)).map IxApproach.size =
      c.approaches.map Approach.encodedSize := by
    refine List.ext_getElem ?_ fun m hm hm' => ?_
    · rw [List.length_map, List.length_map, List.length_map, length_upTo]
    · rw [List.length_map] at hm'
      have hget := List.getElem?_eq_getElem hm'
      simp only [upTo, List.getElem_map, List.getElem_range]
      exact size_fillApproach hvalid hread cfg v hget
  change 53 + (((upTo (BitVec.ofInt 8 s.noApproaches).toNat).map (fillApproach cfg v s)).map
    IxApproach.size).sum = _
  rw [hcount, hsizes]

/-- Summed up approach by approach, the size is the formula's. -/
theorem sum_encodedSize (as : List Approach) :
    (((as.map Approach.encodedSize).sum : Nat) : Int) = 17 * as.length + 12 * noStopLines as := by
  induction as with
  | nil => rfl
  | cons a as ih =>
      have hcons : noStopLines (a :: as) = a.stopLines.length + noStopLines as := by
        rw [noStopLines, List.map_cons, List.sum_cons, noStopLines]
      rw [List.map_cons, List.sum_cons, List.length_cons, hcons, Approach.encodedSize]
      omega

theorem sum_encodedSize_le {as : List Approach} (h : ∀ a ∈ as, a.stopLines.length ≤ 2) :
    (as.map Approach.encodedSize).sum ≤ 41 * as.length := by
  induction as with
  | nil => exact le_rfl
  | cons a as ih =>
      have hone := h a List.mem_cons_self
      have hrest := ih fun b hb => h b (List.mem_cons_of_mem a hb)
      rw [List.map_cons, List.sum_cons, List.length_cons, Approach.encodedSize]
      omega

/-- The length stored is the size of the encoding. -/
theorem messageLength_eq_encodedSize (hvalid : c.Valid) (hread : Recovered c s)
    (cfg : MessageConfig) (v : Signals) (trigTime : Timespec) :
    (fillIxMsg cfg v s trigTime).fields.messageLength.toNat =
      (fillIxMsg cfg v s trigTime).encodedSize := by
  have hlength := hvalid.approaches_le_ten
  have hbound := sum_encodedSize_le fun a ha => hvalid.stopLines_le_two ha
  have hsum := sum_encodedSize c.approaches
  have hformula : (msgSize : Int) + s.noApproaches * approachSize + s.totalNoStops * stopLineSize =
      ((53 + (c.approaches.map Approach.encodedSize).sum : Nat) : Int) := by
    rw [hread.holds.noApproaches, hread.total, Nat.cast_add, hsum]
    push_cast
    ring
  rw [encodedSize_fillIxMsg hvalid hread.holds]
  change (BitVec.ofInt 16 _).toNat = _
  rw [hformula]
  exact toNat_ofInt_of_lt (by omega)

end Sizes

/-! ## The length of the message -/

/-- **The message's length**: read from a file that has the configuration, each approach
with a stop line at least, the length stored is what `ix_msg_format` returns for the
message, in a buffer of `MAX_IX_MSG_PKT_SIZE` bytes or more. -/
theorem messageLength_eq_ixMsgFormat {c : ApproachConfig} (hvalid : c.Valid)
    (hstops : ∀ a ∈ c.approaches, 1 ≤ a.stopLines.length) {file : List Char}
    (hfile : c.InFile file) (uninitialised : ApproachReader) (cfg : MessageConfig) (v : Signals)
    (trigTime : Timespec) (buf : Mem UChar) {bufSize : Int}
    (hroom : (MAX_IX_MSG_PKT_SIZE : Int) ≤ bufSize) :
    let m := fillIxMsg cfg v (readApproachConfig uninitialised file) trigTime
    (m.fields.messageLength.toNat : Int) = (ixMsgFormat m buf bufSize).1 := by
  have hread : Recovered c (readApproachConfig uninitialised file) := by
    refine readApproachConfig_recovered hvalid (fun a ha => ?_) hfile uninitialised
    exact List.ne_nil_of_length_pos (hstops a (List.mem_of_mem_dropLast ha))
  have hlength := messageLength_eq_encodedSize hvalid hread cfg v trigTime
  have hfit : ((fillIxMsg cfg v (readApproachConfig uninitialised file) trigTime).encodedSize :
      Int) ≤ bufSize := by
    have happroaches := hvalid.approaches_le_ten
    have hbound := sum_encodedSize_le fun a ha => hvalid.stopLines_le_two ha
    rw [encodedSize_fillIxMsg hvalid hread.holds]
    change (463 : Int) ≤ bufSize at hroom
    omega
  intro m
  rw [(ixMsgFormat_spec m buf hfit).1]
  exact congrArg Nat.cast hlength

/-- The message of two approaches with three stop lines. -/
theorem messageLength_twoApproaches :
    let m := fillIxMsg ⟨['p', 'a', 'g', 'e'], 0, fun _ => 0, fun _ => 0⟩ zeroed.toSignals
      (readApproachConfig blankTables twoApproaches.text) ⟨0, 0⟩
    (m.fields.messageLength.toNat : Int) = (ixMsgFormat m (Mem.ofList 0 []) 463).1 :=
  messageLength_eq_ixMsgFormat ⟨by decide, by decide, by decide, by decide⟩ (by decide)
    inFile_twoApproaches
    _ _ _ _ _ (by decide)

end RfsAtsc.Phases
