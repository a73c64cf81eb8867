import RfsAtsc.Phase170
import RfsAtsc.AtscStatus
import RfsAtsc.IxMessages

/-!
# The messages of a tick of `phase170e`

After the countdown a tick fills the approaches of the intersection message (`assem_ix_msg`)
and the status record from the tracer.  Each approach has a phase that
controls it, and three tables of the site lead from phase to phase: `phase_swap` to the
output that the approach sees, `atsc_phase_swap` to the number under which it is
broadcast, `phase_af` to the phase that comes next.
-/

namespace RfsAtsc

open TracedMemory

/-! ## The site -/

/-- `ix_approach_fix`. -/
structure IxApproachFix where
  approachType : UChar
  controlPhase : UChar
  noStoplines : UChar
  stoplineCfg : Nat → IxStopLine

/-- What a tick reads of `E170_timing_typ` for the approaches and the record, and its timing. -/
structure E170Site where
  timing : E170Timing
  totalNoApproaches : UChar
  approch : Nat → IxApproachFix
  phaseAf : Int → UChar
  phaseSwap : Int → UChar
  atscPhaseSwap : Int → UChar

/-- An approach of one stop line. -/
def oneStopline (approachType controlPhase : UChar) (line : IxStopLine) : IxApproachFix where
  approachType := approachType
  controlPhase := controlPhase
  noStoplines := 1
  stoplineCfg := fun j => if j = 0 then line else ⟨0, 0, 0, 0⟩

/-- `signal_timing_cfg[0]` with its approaches. -/
def rfsSite : E170Site where
  timing := rfsIntersection
  totalNoApproaches := 4
  approch := fun i =>
    if i = 0 then oneStopline 1 2 ⟨379155444, BitVec.ofInt 32 (-1223347639), 390, 18⟩
    else if i = 1 then oneStopline 1 4 ⟨379156222, BitVec.ofInt 32 (-1223348250), 309, 287⟩
    else if i = 2 then oneStopline 1 2 ⟨379155889, BitVec.ofInt 32 (-1223349278), 408, 205⟩
    else if i = 3 then oneStopline 1 4 ⟨379155056, BitVec.ofInt 32 (-1223348889), 412, 107⟩
    else oneStopline 0 0 ⟨0, 0, 0, 0⟩
  phaseAf := ofInitializer [0, 4, 0, 2]
  phaseSwap := ofInitializer [0, 2, 0, 4]
  atscPhaseSwap := ofInitializer [0, 4, 0, 2]

variable (site : E170Site)

/-- The index of the phase that controls approach `i`. -/
def E170Site.controlIndex (i : Nat) : Int := (site.approch i).controlPhase.toNat - (1 : Int)

/-- The index of the output that approach `i` sees. -/
def E170Site.outputIndex (i : Nat) : Int :=
  (site.phaseSwap (site.controlIndex i)).toNat - (1 : Int)

/-- The number under which the phase of approach `i` is broadcast. -/
def E170Site.swappedPhase (i : Nat) : Int := (site.atscPhaseSwap (site.controlIndex i)).toNat

/-- The index of the phase that comes after that of approach `i`. -/
def E170Site.nextIndex (i : Nat) : Int :=
  (site.phaseAf (site.controlIndex i)).toNat - (1 : Int)

/-! ## The approaches of `assem_ix_msg` -/

/-- A decimal cast to `short`. -/
def shortOfRat (q : ℚ) : BitVec 16 := BitVec.ofInt 16 (q.num.tdiv q.den)

/-- The head colour that approach `i` sees. -/
def approachState (tr : SignalTrace) (i : Nat) : UChar :=
  tr.signal.signalState.cell (site.outputIndex i)

/-- The struct of approach `i`, with its stop lines. -/
def assemApproach (tr : SignalTrace) (i : Nat) : IxApproach :=
  { fields :=
      { approachType := (site.approch i).approachType
        signalState := approachState site tr i
        timeToNext := shortOfRat (10 * tr.time2next (site.outputIndex i))
        vehiclesDetected := 0
        pedSignalState := 0
        secondsToPedSignalStateChange := 255
        pedDetected := 0
        secondsSincePedDetect := 255
        secondsSincePedPhaseStarted := 255
        emergencyVehicleApproach := 0
        secondsUntilLightRail := 255
        highPriorityFreightTrain := 0
        vehicleStoppedInIx := 0
        reserved0 := 0
        reserved1 := 0
        numberOfStopLines := (site.approch i).noStoplines }
    stopLineArray :=
      (List.range (site.approch i).noStoplines.toNat).map (site.approch i).stoplineCfg
    length_eq := by rw [List.length_map, List.length_range] }

/-! ## The status record -/

/-- The arrays of `atsc_typ` that show the head colours. -/
inductive Lamp where
  | red
  | yellow
  | green
deriving DecidableEq

/-- The place of an array in the record, counted from the first. -/
def Lamp.offset : Lamp → Int
  | .red => 0
  | .yellow => 4
  | .green => 8

/-- The place of `phase_status_ons`; `phase_status_flashing` is before it. -/
def phaseStatusOns : Int := 16

/-- The place of `phase_status_next`. -/
def phaseStatusNext : Int := 20

/-- The place of `info_source`, behind the arrays. -/
def infoSource : Int := 24

/-- The array of a colour in the record. -/
def lampGroup (atsc : Mem UChar) (l : Lamp) : StatusArray := fun i => atsc.cell (l.offset + i)

/-- The record cleared, with its source. -/
def clearedAtsc : Mem UChar :=
  Mem.write ⟨fun _ => 0, []⟩ infoSource (le32 (BitVec.ofInt 32 ATSC_SOURCE_NTCIP))

/-- The byte of the phase of approach `i` is set in the array of its colour, and in
`phase_status_ons` when it is green or yellow.  An index past an array reaches the next
one. -/
def showColor (signalState : UChar) (i : Nat) (atsc : Mem UChar) : Mem UChar :=
  let k := site.swappedPhase i - 1
  if signalState = SIGNAL_STATE_GREEN then
    (atsc.store (Lamp.green.offset + k) 1).store (phaseStatusOns + k) 1
  else if signalState = SIGNAL_STATE_YELLOW then
    (atsc.store (Lamp.yellow.offset + k) 1).store (phaseStatusOns + k) 1
  else if signalState = SIGNAL_STATE_RED then atsc.store (Lamp.red.offset + k) 1
  else atsc

/-- The phase of approach `i` is on in the record. -/
def ShownOn (i : Nat) (atsc : Mem UChar) : Prop :=
  atsc.cell (phaseStatusOns + (site.swappedPhase i - 1)) = 1

instance (i : Nat) (atsc : Mem UChar) : Decidable (ShownOn site i atsc) :=
  inferInstanceAs (Decidable (_ = _))

/-- The phase that comes after one that is on is set in `phase_status_next`. -/
def showNext (i : Nat) (atsc : Mem UChar) : Mem UChar :=
  if ShownOn site i atsc then
    atsc.store (phaseStatusNext + ((site.atscPhaseSwap (site.nextIndex i)).toNat - 1)) 1
  else atsc

/-- One turn of the loop over the approaches, given what the approach shows. -/
def showApproach (signalState : UChar) (i : Nat) (atsc : Mem UChar) : Mem UChar :=
  showNext site i (showColor site signalState i atsc)

/-- What approach `i` shows in the intersection message goes into the record. -/
def broadcastApproach (tr : SignalTrace) (atsc : Mem UChar) (i : Nat) : Mem UChar :=
  showApproach site (assemApproach site tr i).fields.signalState i atsc

/-- The record that a tick broadcasts. -/
def assemAtsc (tr : SignalTrace) : Mem UChar :=
  (List.range site.totalNoApproaches.toNat).foldl (broadcastApproach site tr) clearedAtsc

end RfsAtsc
