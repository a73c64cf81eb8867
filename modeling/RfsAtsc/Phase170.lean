import RfsAtsc.TracedMemory
import RfsAtsc.EventMachine
import RfsAtsc.UrmsSetMeter
import Mathlib.Data.Rat.Defs
import Mathlib.Algebra.Order.Ring.Rat
import Mathlib.Tactic.Linarith

/-!
# The 170E status loop: `phase170e`

The main loop of `phase170e` as a machine of its triggers.  A status message updates
the tracer, a priority request changes the onsets counted down to, and a timer tick
runs the cycle clocks on and counts down each permitted phase.

Clocks and intervals are exact.  An array is a function of its index, so that an
index outside it still reads something; `signal_state` is a memory, and the cells
from 8 up are whatever lies behind the array.
-/

namespace RfsAtsc

open TracedMemory EventMachine

def SIGNAL_STATE_GREEN : UChar := 1
def SIGNAL_STATE_YELLOW : UChar := 2
def SIGNAL_STATE_RED : UChar := 3

/-- `MAX_PLANS`. -/
def MAX_PLANS : Int := 5

/-- `MAX_NMEA_PHAZ`. -/
def MAX_NMEA_PHAZ : Int := 8

/-- `Early_Green`. -/
def EARLY_GREEN : UChar := 2

/-- `Green_Extension`. -/
def GREEN_EXTENSION : UChar := 3

/-- `MAX_GE`. -/
def MAX_GE : ℚ := 10

/-- The indices of a loop over the phases. -/
def phazIndices : List Int := [0, 1, 2, 3, 4, 5, 6, 7]

/-- The indices of the loop over the plans: plan 0 is running free. -/
def planIndices : List Int := [1, 2, 3, 4]

/-! ## Configuration -/

/-- What the loop reads of `ix_phase_timing_fix`. -/
structure PhaseTiming where
  permittedPhase : Int → UChar
  phaseBf : Int → UChar
  yellowIntv : Int → ℚ
  allredIntv : Int → ℚ

/-- What the loop reads of `ix_control_plan_fix`. -/
structure ControlPlan where
  planActivated : UChar
  cycleLength : ℚ
  forceOff : Int → ℚ

/-- What the loop reads of `E170_timing_typ`. -/
structure E170Timing where
  phaseTiming : PhaseTiming
  planTiming : Int → ControlPlan

/-- An array from its initialiser: what is left out is zero. -/
def ofInitializer {α : Type} [Zero α] (entries : List α) : Int → α :=
  fun i => if 0 ≤ i then entries.getD i.toNat 0 else 0

/-- `signal_timing_cfg[0]`, the site `main` always takes. -/
def rfsIntersection : E170Timing where
  phaseTiming :=
    { permittedPhase := ofInitializer [0, 1, 0, 1]
      phaseBf := ofInitializer [0, 4, 0, 2]
      yellowIntv := ofInitializer [0, 3, 0, 3]
      allredIntv := ofInitializer [0] }
  planTiming := fun i =>
    if i = 0 then ⟨0, 60, ofInitializer []⟩
    else if i = 1 then ⟨1, 66, ofInitializer [0, 0, 0, 48]⟩
    else ⟨0, 0, ofInitializer []⟩

/-- `signal_state_onset`: by plan, phase and kind of onset, which is green, yellow or
red. -/
abbrev Onsets := Int → Int → Int → ℚ

/-- `cycle_rounding`. -/
def cycleRounding (f cycleLen : ℚ) : ℚ := if f ≥ cycleLen then f - cycleLen else f

/-- Store the three onsets of one phase of one plan. -/
def Onsets.set (onsets : Onsets) (i j : Int) (green yellow red : ℚ) : Onsets :=
  fun i' j' c =>
    if i' = i ∧ j' = j then
      if c = 0 then green else if c = 1 then yellow else if c = 2 then red else onsets i' j' c
    else onsets i' j' c

/-- The green onset of phase index `j`: the predecessor's force-off and clearance. -/
def greenOnset (timing : E170Timing) (i j : Int) : ℚ :=
  let k := (timing.phaseTiming.phaseBf j).toNat - (1 : Int)
  cycleRounding
    ((timing.planTiming i).forceOff k + timing.phaseTiming.yellowIntv k +
      timing.phaseTiming.allredIntv k)
    (timing.planTiming i).cycleLength

/-- The red onset of phase index `j`. -/
def redOnset (timing : E170Timing) (i j : Int) : ℚ :=
  cycleRounding ((timing.planTiming i).forceOff j + timing.phaseTiming.yellowIntv j)
    (timing.planTiming i).cycleLength

/-- One plan's turn of `get_signal_change_onset`. -/
def planOnsets (timing : E170Timing) (onsets : Onsets) (i : Int) : Onsets :=
  if (timing.planTiming i).planActivated = 0 then onsets
  else phazIndices.foldl (fun onsets j =>
    if timing.phaseTiming.permittedPhase j = 0 then onsets
    else onsets.set i j (greenOnset timing i j) ((timing.planTiming i).forceOff j)
      (redOnset timing i j)) onsets

/-- `get_signal_change_onset`. -/
def getSignalChangeOnset (timing : E170Timing) (onsets : Onsets) : Onsets :=
  planIndices.foldl (planOnsets timing) onsets

/-- The table `main` computes, cleared before. -/
def signalStateOnset (timing : E170Timing) : Onsets :=
  getSignalChangeOnset timing (fun _ _ _ => 0)

/-! ## Messages and the tracer -/

/-- `timestamp_t`. -/
structure Timestamp where
  hour : Int
  min : Int
  sec : Int
  millisec : Int
deriving DecidableEq

/-- `signal_status_typ`.  `forceOffPoint` and `pattern` are `char`. -/
structure SignalStatus where
  ringAPhase : UChar
  ringBPhase : UChar
  ringAInterval : UChar
  ringBInterval : UChar
  localCycleClock : UChar
  masterCycleClock : UChar
  forceOffPoint : Fin 8 → UChar
  pattern : UChar
  ts : Timestamp

/-- `signal_priority_request_typ`. -/
structure SignalPriorityRequest where
  requestedBusID : Int
  requestedType : UChar
  executionPhase : UChar
  desiredForceOff : Int
  ts : Timestamp

/-- `traffic_controller_state_typ`, with the time in seconds. -/
structure TrafficControllerState where
  ringAPhase : UChar
  ringBPhase : UChar
  ringAInterval : UChar
  ringBInterval : UChar
  localCycleClock : UChar
  masterCycleClock : UChar
  forceOffPoint : Fin 8 → UChar
  pattern : UChar
  signalState : Mem UChar
  ts : Timestamp
  tp : ℚ

/-- `priority_state_typ`. -/
structure PriorityState where
  requestedBusID : Int
  priorityType : UChar
  requestPhase : UChar
  requestedForceoff : UChar
  ts : Timestamp
  tp : ℚ

/-- `signal_trace_typ`, but for its two pointers. -/
structure SignalTrace where
  signal : TrafficControllerState
  prio : PriorityState
  priorityStatus : UChar
  busTimeSaved : UChar
  activeLocalCycleClock : ℚ
  activeMasterCycleClock : ℚ
  timeused : Int → ℚ
  time2next : Int → ℚ
  traceTime : ℚ

/-- `update_head_color`. -/
def updateHeadColor (intv : UChar) : UChar :=
  if intv.toNat ≤ 7 then SIGNAL_STATE_GREEN
  else if 12 ≤ intv.toNat ∧ intv.toNat ≤ 14 then SIGNAL_STATE_YELLOW
  else SIGNAL_STATE_RED

/-- The head colour of a ring's phase goes to its place in `signal_state`. -/
def storeRing (signalState : Mem UChar) (phase intv : UChar) : Mem UChar :=
  if phase.toNat > 0 then signalState.store ((phase.toNat : Int) - 1) (updateHeadColor intv)
  else signalState

/-- `update_signal_state`. -/
def updateSignalState (tracer : TrafficControllerState) (input : SignalStatus) :
    TrafficControllerState :=
  let reds := phazIndices.foldl (fun m i => m.store i SIGNAL_STATE_RED) tracer.signalState
  { ringAPhase := input.ringAPhase
    ringBPhase := input.ringBPhase
    ringAInterval := input.ringAInterval
    ringBInterval := input.ringBInterval
    localCycleClock := input.localCycleClock
    masterCycleClock := input.masterCycleClock
    forceOffPoint := input.forceOffPoint
    pattern := input.pattern
    signalState :=
      storeRing (storeRing reds input.ringAPhase input.ringAInterval) input.ringBPhase
        input.ringBInterval
    ts := input.ts
    tp := tracer.tp }

/-- `update_priority_state`. -/
def updatePriorityState (tracer : SignalTrace) (input : SignalPriorityRequest) : SignalTrace :=
  { tracer with
    prio :=
      { requestedBusID := input.requestedBusID
        priorityType := input.requestedType
        requestPhase := input.executionPhase
        requestedForceoff := BitVec.ofInt 8 input.desiredForceOff
        ts := input.ts
        tp := tracer.prio.tp }
    priorityStatus := input.requestedType }

/-! ## The loop -/

/-- The variables of the loop: `signal_trig`, the tracer, `signal_EG_onset`, and the
local `pattern`, which only a tick and an early-green request set. -/
structure Phase170 where
  signalTrig : Bool
  signalTrace : SignalTrace
  signalEGOnset : Int → Int → ℚ
  pattern : Int

/-- What the loop waits for, with the time it reads then.  `other` is a trigger that
it does not know, or whose variable it cannot read. -/
inductive Trigger where
  | timer (now : ℚ)
  | status (input : SignalStatus) (now : ℚ)
  | request (input : SignalPriorityRequest) (now : ℚ)
  | other

/-- A `float` converted to `unsigned char`. -/
def ucharOfRat (q : ℚ) : UChar := BitVec.ofInt 8 (q.num.tdiv q.den)

/-- The onset counted down to and the one counted from, by the head colour. -/
def onsetsOf (color : UChar) : Option (Int × Int) :=
  if color = SIGNAL_STATE_GREEN then some (1, 0)
  else if color = SIGNAL_STATE_YELLOW then some (2, 1)
  else if color = SIGNAL_STATE_RED then some (0, 2)
  else none

/-- The time left to an onset by the local clock. -/
def timeLeft (onset clock cycleLen : ℚ) : ℚ :=
  let left := onset - clock
  if left < -3 / 2 then left + cycleLen else if left < 0 then 0 else left

/-- The time used since the onset counted from. -/
def timeUsed (next last left cycleLen : ℚ) : ℚ :=
  let between := if next - last < 0 then next - last + cycleLen else next - last
  let used := between - left
  if used < -3 / 2 then used + cycleLen else if used < 0 then 0 else used

/-- Phase 2 during a green extension. -/
def ExtendedGreen (tr : SignalTrace) (i : Int) : Prop :=
  i = 1 ∧ tr.priorityStatus = GREEN_EXTENSION ∧
    tr.signal.signalState.cell i = SIGNAL_STATE_GREEN ∧ tr.activeMasterCycleClock ≤ 10

/-- Phase 4 during a green extension. -/
def ExtendedRed (tr : SignalTrace) (i : Int) : Prop :=
  i = 3 ∧ tr.priorityStatus = GREEN_EXTENSION ∧
    tr.signal.signalState.cell i = SIGNAL_STATE_RED ∧
    tr.signal.signalState.cell 1 = SIGNAL_STATE_GREEN ∧ tr.activeMasterCycleClock ≤ 10

instance (tr : SignalTrace) (i : Int) : Decidable (ExtendedGreen tr i) :=
  inferInstanceAs (Decidable (_ ∧ _))

instance (tr : SignalTrace) (i : Int) : Decidable (ExtendedRed tr i) :=
  inferInstanceAs (Decidable (_ ∧ _))

/-- `time_left` and `time_used` of one phase, with the onsets in force for it and the
two its head colour selects. -/
def phaseCountdown (timing : E170Timing) (tr : SignalTrace) (active : Int → ℚ) (cycleLen : ℚ)
    (i j jj : Int) : ℚ × ℚ :=
  if ExtendedGreen tr i then
    let left := active j - tr.activeMasterCycleClock
    (left, timeUsed (active j) (active jj) left cycleLen)
  else if ExtendedRed tr i then
    let left := 10 + timing.phaseTiming.yellowIntv 1 + timing.phaseTiming.allredIntv 1 -
      tr.activeMasterCycleClock
    (if left < 0 then 0 else left,
      cycleLen - (timing.planTiming 1).forceOff i - timing.phaseTiming.yellowIntv i +
        tr.activeMasterCycleClock)
  else
    let left := timeLeft (active j) tr.activeLocalCycleClock cycleLen
    (left, timeUsed (active j) (active jj) left cycleLen)

/-- The onsets in force for phase index `i`: the early-green ones while that priority
lasts, else the plan's. -/
def activeOnsets (timing : E170Timing) (egOnset : Int → Int → ℚ) (pattern : Int)
    (tr : SignalTrace) (i : Int) : Int → ℚ :=
  if tr.priorityStatus = EARLY_GREEN then egOnset i else signalStateOnset timing pattern i

/-- The loop over the phases.  A head that is not green, yellow or red ends it. -/
def countdownPhases (timing : E170Timing) (egOnset : Int → Int → ℚ) (pattern : Int)
    (cycleLen : ℚ) (tr : SignalTrace) : List Int → SignalTrace
  | [] => tr
  | i :: is =>
      if timing.phaseTiming.permittedPhase i = 0 then
        countdownPhases timing egOnset pattern cycleLen tr is
      else
        match onsetsOf (tr.signal.signalState.cell i) with
        | none => tr
        | some (j, jj) =>
            let active := activeOnsets timing egOnset pattern tr i
            let counted := phaseCountdown timing tr active cycleLen i j jj
            countdownPhases timing egOnset pattern cycleLen
              { tr with
                time2next := Function.update tr.time2next i counted.1
                timeused := Function.update tr.timeused i counted.2 } is

/-- The priority flag is cleared when the phase that ends the priority is green. -/
def clearPriority (tr : SignalTrace) : SignalTrace :=
  if tr.priorityStatus = GREEN_EXTENSION ∧ tr.signal.signalState.cell 3 = SIGNAL_STATE_GREEN then
    { tr with priorityStatus := 0, busTimeSaved := 0 }
  else if tr.priorityStatus = EARLY_GREEN ∧
      tr.signal.signalState.cell 1 = SIGNAL_STATE_GREEN then
    { tr with priorityStatus := 0, busTimeSaved := 0 }
  else tr

/-- The cycle clocks run on by the time since the status was taken. -/
def activeClocks (tr : SignalTrace) (timeGap cycleLen now : ℚ) : SignalTrace :=
  { tr with
    activeLocalCycleClock := cycleRounding (tr.signal.localCycleClock.toNat + timeGap) cycleLen
    activeMasterCycleClock := cycleRounding (tr.signal.masterCycleClock.toNat + timeGap) cycleLen
    traceTime := now }

/-- A timer tick: the new variables, and the tracer that goes into the messages. -/
def timerTick (timing : E170Timing) (s : Phase170) (now : ℚ) : Phase170 × List SignalTrace :=
  if s.signalTrig = false then (s, [])
  else
    let pattern := s.signalTrace.signal.pattern.toInt
    if pattern = 0 then ({ s with pattern := pattern }, [])
    else
      let timeGap := now - s.signalTrace.signal.tp
      if timeGap > 5 then ({ s with pattern := pattern, signalTrig := false }, [])
      else
        let cycleLen := (timing.planTiming pattern).cycleLength
        let tr := clearPriority (activeClocks s.signalTrace timeGap cycleLen now)
        let tr := countdownPhases timing s.signalEGOnset pattern cycleLen tr phazIndices
        ({ s with pattern := pattern, signalTrace := tr }, [tr])

/-- A status message: taken when its master clock is not the tracer's. -/
def statusTrigger (s : Phase170) (input : SignalStatus) (now : ℚ) : Phase170 :=
  if input.masterCycleClock ≠ s.signalTrace.signal.masterCycleClock then
    { s with
      signalTrig := true
      signalTrace :=
        { s.signalTrace with
          signal := { updateSignalState s.signalTrace.signal input with tp := now } } }
  else { s with signalTrig := true }

/-- `signal_EG_onset` after an early-green request: new onsets for phases 2 and 4, the
others cleared. -/
def earlyGreenOnset (timing : E170Timing) (pattern : Int) (desiredForceOff : Int) :
    Int → Int → ℚ :=
  let cycleLen := (timing.planTiming pattern).cycleLength
  let red4 := cycleRounding (desiredForceOff + timing.phaseTiming.yellowIntv 3) cycleLen
  let green2 := cycleRounding (red4 + timing.phaseTiming.allredIntv 3) cycleLen
  fun i c =>
    if i = 3 then
      if c = 0 then signalStateOnset timing pattern 3 0
      else if c = 1 then desiredForceOff
      else if c = 2 then red4 else 0
    else if i = 1 then
      if c = 0 then green2
      else if c = 1 then signalStateOnset timing pattern 1 1
      else if c = 2 then signalStateOnset timing pattern 1 2 else 0
    else 0

/-- A priority request. -/
def requestTrigger (timing : E170Timing) (s : Phase170) (input : SignalPriorityRequest)
    (now : ℚ) : Phase170 :=
  let tr := updatePriorityState
    { s.signalTrace with prio := { s.signalTrace.prio with tp := now } } input
  if input.requestedType = EARLY_GREEN then
    let pattern := tr.signal.pattern.toInt
    let egOnset := earlyGreenOnset timing pattern input.desiredForceOff
    { s with
      pattern := pattern
      signalEGOnset := egOnset
      signalTrace :=
        { tr with
          busTimeSaved := ucharOfRat (signalStateOnset timing pattern 1 0 - egOnset 1 0) } }
  else if input.requestedType = GREEN_EXTENSION then
    { s with
      signalTrace :=
        { tr with
          busTimeSaved := ucharOfRat (signalStateOnset timing s.pattern 1 0 -
            signalStateOnset timing s.pattern 1 1 - MAX_GE) } }
  else { s with signalTrace := tr }

/-- One turn of the loop. -/
def phase170Step (timing : E170Timing) (s : Phase170) : Trigger → Phase170 × List SignalTrace
  | .timer now => timerTick timing s now
  | .status input now => (statusTrigger s input now, [])
  | .request input now => (requestTrigger timing s input now, [])
  | .other => (s, [])

/-- The loop as a machine. -/
def phase170Loop (timing : E170Timing) : Machine Phase170 Trigger SignalTrace :=
  ⟨phase170Step timing⟩

/-- The tracer before the loop: cleared. -/
def clearedTrace : SignalTrace where
  signal :=
    { ringAPhase := 0, ringBPhase := 0, ringAInterval := 0, ringBInterval := 0
      localCycleClock := 0, masterCycleClock := 0, forceOffPoint := fun _ => 0, pattern := 0
      signalState := ⟨fun _ => 0, []⟩, ts := ⟨0, 0, 0, 0⟩, tp := 0 }
  prio :=
    { requestedBusID := 0, priorityType := 0, requestPhase := 0, requestedForceoff := 0
      ts := ⟨0, 0, 0, 0⟩, tp := 0 }
  priorityStatus := 0
  busTimeSaved := 0
  activeLocalCycleClock := 0
  activeMasterCycleClock := 0
  timeused := fun _ => 0
  time2next := fun _ => 0
  traceTime := 0

/-- The loop at its start. -/
def startPhase170 : Phase170 where
  signalTrig := false
  signalTrace := clearedTrace
  signalEGOnset := fun _ _ => 0
  pattern := 0

theorem mem_phazIndices {i : Int} : i ∈ phazIndices ↔ 0 ≤ i ∧ i < MAX_NMEA_PHAZ := by
  simp only [phazIndices, List.mem_cons, List.not_mem_nil, or_false, MAX_NMEA_PHAZ]
  omega

end RfsAtsc
