import RfsAtsc.AtscStatus
import RfsAtsc.EventMachine
import Mathlib.Algebra.Order.Field.Rat
import Mathlib.Data.NNRat.Defs

/-!
# The signal loop: `phases`

The main loop of `phases` as a machine of what wakes it: an ATSC trigger, which
brings a new record, the timer, or something it does not know.  Each time it
decodes the colours of the plan's phases from the last record, counts down, and
gives the overlap phases their colours.

Clocks and lengths are exact, and the timing plan in effect stays the same.  The
colours are the `int`s that the arrays hold.  An array is a function of its index,
so that an index outside it still reads something.
-/

namespace RfsAtsc.Phases

open TracedMemory EventMachine

def SIGNAL_STATE_UNKNOWN : Int := 0
def SIGNAL_STATE_GREEN : Int := 1
def SIGNAL_STATE_YELLOW : Int := 2
def SIGNAL_STATE_RED : Int := 3

/-- `MAX_OVERLAPS`. -/
def MAX_OVERLAPS : Nat := 4

/-- The indices of a loop from 1 to `n`. -/
def upTo (n : Nat) : List Int := (List.range n).map fun i : Nat => (i : Int) + 1

/-! ## Configuration -/

/-- What the loop reads of the timing plan in effect, row by row. -/
structure TimingPlan where
  noPhases : Nat
  timingType : Int
  finalPhaseNo : Int
  cycleLength : Int
  phaseIndex : Int → Int
  greenLength : Int → ℚ
  yellowLength : Int → ℚ
  allRedLength : Int → ℚ

/-- One overlap: two parents and two omit phases, of which 0 is none. -/
structure Overlap where
  overlapPhase : Int
  parentPhase1 : Int
  parentPhase2 : Int
  omitPhase1 : Int
  omitPhase2 : Int

/-- What the loop reads of its configuration. -/
structure PhasesConfig where
  sniffGreen : Int
  sniffYellow : Int
  plan : TimingPlan
  noOverlaps : Nat
  overlap : Int → Overlap

/-! ## State -/

/-- What the loop reads of `atsc_typ`. -/
structure AtscTyp where
  phaseStatusReds : StatusArray
  phaseStatusYellows : StatusArray
  phaseStatusGreens : StatusArray
  infoSource : Int

/-- The variables of the overlap loop.  `start_parentsred` and `jj` are shared by all
the overlaps. -/
structure Signals where
  signalColor : Int → Int
  timeLeft : Int → ℚ
  oldParentColor1 : Int → Int
  oldParentColor2 : Int → Int
  startParentsred : ℚ
  jj : Int

/-- The variables of the main loop. -/
structure PhasesState extends Signals where
  atsc : AtscTyp
  firstTrigger : Bool
  currTime : ℚ
  timeSec : ℚ
  cycleSec : ℚ
  green : Int → Int
  yellow : Int → Int
  red : Int → Int
  oldGreen : Int → Int
  oldYellow : Int → Int
  oldRed : Int → Int
  timeUsed : Int → ℚ
  startGreen : Int → ℚ
  startYellow : Int → ℚ
  startRed : Int → ℚ

/-- What wakes the loop. -/
inductive Trigger where
  | atsc (record : AtscTyp)
  | timer
  | unknown

/-- One turn of the loop: the clock when it begins to wait, what it receives, and the
clock then.  Both clocks count from the start of the program. -/
structure LoopEvent where
  clock : ℚ≥0
  trigger : Trigger
  time : ℚ≥0

/-- What the loop starts from, with anything at all in the variables that it does not
initialise. -/
def boot (uninitialised : PhasesState) : PhasesState :=
  { uninitialised with
    oldParentColor1 := fun i =>
      if 1 ≤ i ∧ i ≤ MAX_OVERLAPS then -1 else uninitialised.oldParentColor1 i
    oldParentColor2 := fun i =>
      if 1 ≤ i ∧ i ≤ MAX_OVERLAPS then -1 else uninitialised.oldParentColor2 i
    firstTrigger := false
    currTime := 0
    timeSec := 0
    cycleSec := 0
    oldGreen := fun i => if 1 ≤ i ∧ i ≤ MAX_PHASES then -1 else uninitialised.oldGreen i
    oldYellow := fun i => if 1 ≤ i ∧ i ≤ MAX_PHASES then -1 else uninitialised.oldYellow i
    oldRed := fun i => if 1 ≤ i ∧ i ≤ MAX_PHASES then -1 else uninitialised.oldRed i }

/-- Memory that the loop does not initialise, as a fresh stack has it. -/
def zeroed : PhasesState where
  signalColor _ := 0
  timeLeft _ := 0
  oldParentColor1 _ := 0
  oldParentColor2 _ := 0
  startParentsred := 0
  jj := 0
  atsc := { phaseStatusReds := 0, phaseStatusYellows := 0, phaseStatusGreens := 0, infoSource := 0 }
  firstTrigger := false
  currTime := 0
  timeSec := 0
  cycleSec := 0
  green _ := 0
  yellow _ := 0
  red _ := 0
  oldGreen _ := 0
  oldYellow _ := 0
  oldRed _ := 0
  timeUsed _ := 0
  startGreen _ := 0
  startYellow _ := 0
  startRed _ := 0

/-! ## Receiving -/

/-- The clocks are brought up to date before the loop waits, and the record when an
ATSC trigger ends the wait. -/
def receive (s : PhasesState) (e : LoopEvent) : PhasesState :=
  let s :=
    { s with
      currTime := e.clock
      timeSec := s.timeSec + (e.clock - s.currTime)
      cycleSec := s.cycleSec + (e.clock - s.currTime) }
  match e.trigger with
  | .atsc record => { s with firstTrigger := true, atsc := record }
  | .timer => s
  | .unknown => s

/-! ## Decoding the colours -/

/-- Inputs on all three colours. -/
def decodeAll (s : PhasesState) (phaseNum : Int) : PhasesState :=
  let s :=
    { s with
      green := Function.update s.green phaseNum
        (atscPhaseIsSet s.atsc.phaseStatusGreens phaseNum)
      yellow := Function.update s.yellow phaseNum
        (atscPhaseIsSet s.atsc.phaseStatusYellows phaseNum)
      red := Function.update s.red phaseNum
        (atscPhaseIsSet s.atsc.phaseStatusReds phaseNum) }
  if s.green phaseNum = 1 then
    { s with
      signalColor := Function.update s.signalColor phaseNum SIGNAL_STATE_GREEN
      startGreen :=
        if s.green phaseNum ≠ s.oldGreen phaseNum then
          Function.update s.startGreen phaseNum s.timeSec
        else s.startGreen }
  else if s.yellow phaseNum = 1 then
    { s with
      signalColor := Function.update s.signalColor phaseNum SIGNAL_STATE_YELLOW
      startYellow :=
        if s.yellow phaseNum ≠ s.oldYellow phaseNum then
          Function.update s.startYellow phaseNum s.timeSec
        else s.startYellow }
  else if s.red phaseNum = 1 then
    { s with
      signalColor := Function.update s.signalColor phaseNum SIGNAL_STATE_RED
      startRed :=
        if s.red phaseNum ≠ s.oldRed phaseNum then
          Function.update s.startRed phaseNum s.timeSec
        else s.startRed }
  else s

/-- Inputs on green and yellow.  A phase with both is yellow. -/
def decodeGreenYellow (plan : TimingPlan) (s : PhasesState) (phaseNum : Int) : PhasesState :=
  let s :=
    { s with
      green := Function.update s.green phaseNum
        (atscPhaseIsSet s.atsc.phaseStatusGreens phaseNum)
      yellow := Function.update s.yellow phaseNum
        (atscPhaseIsSet s.atsc.phaseStatusYellows phaseNum) }
  if s.green phaseNum = 1 ∧ s.yellow phaseNum = 0 then
    { s with
      signalColor := Function.update s.signalColor phaseNum SIGNAL_STATE_GREEN
      red := Function.update s.red phaseNum 0
      atsc :=
        { s.atsc with phaseStatusReds := clearAtscPhase s.atsc.phaseStatusReds phaseNum }
      startGreen :=
        if s.green phaseNum ≠ s.oldGreen phaseNum then
          Function.update s.startGreen phaseNum s.timeSec
        else s.startGreen }
  else if s.yellow phaseNum = 1 then
    let s :=
      { s with
        signalColor := Function.update s.signalColor phaseNum SIGNAL_STATE_YELLOW
        red := Function.update s.red phaseNum 0
        atsc :=
          { s.atsc with
            phaseStatusReds := clearAtscPhase s.atsc.phaseStatusReds phaseNum } }
    if s.yellow phaseNum ≠ s.oldYellow phaseNum then
      { s with
        startYellow := Function.update s.startYellow phaseNum s.timeSec
        cycleSec := if phaseNum = plan.finalPhaseNo then 0 else s.cycleSec }
    else s
  else if s.green phaseNum = 0 ∧ s.yellow phaseNum = 0 then
    let s :=
      { s with
        signalColor := Function.update s.signalColor phaseNum SIGNAL_STATE_RED
        red := Function.update s.red phaseNum 1
        atsc :=
          { s.atsc with
            phaseStatusReds := setAtscPhase s.atsc.phaseStatusReds phaseNum } }
    if s.red phaseNum ≠ s.oldRed phaseNum then
      { s with startRed := Function.update s.startRed phaseNum s.timeSec }
    else s
  else s

/-- When green was on the turn before, this is where yellow begins. -/
def beginYellow (plan : TimingPlan) (s : PhasesState) (phaseNum : Int) : PhasesState :=
  if s.green phaseNum ≠ s.oldGreen phaseNum ∧ s.oldGreen phaseNum ≠ -1 then
    { s with
      startYellow := Function.update s.startYellow phaseNum s.timeSec
      cycleSec := if phaseNum = plan.finalPhaseNo then 0 else s.cycleSec }
  else s

/-- Without green, a phase is yellow for as long as row `i` of the plan says, and then
red.  When the process started without green, it can be either. -/
def decodeGreenOff (plan : TimingPlan) (s : PhasesState) (phaseNum i : Int) : PhasesState :=
  if s.oldGreen phaseNum = -1 ∨ s.startYellow phaseNum = -1 then
    { s with
      signalColor := Function.update s.signalColor phaseNum SIGNAL_STATE_UNKNOWN
      startYellow := Function.update s.startYellow phaseNum (-1) }
  else if s.timeSec - s.startYellow phaseNum ≤ plan.yellowLength i then
    { s with
      signalColor := Function.update s.signalColor phaseNum SIGNAL_STATE_YELLOW
      yellow := Function.update s.yellow phaseNum 1
      red := Function.update s.red phaseNum 0
      atsc :=
        { s.atsc with
          phaseStatusYellows := setAtscPhase s.atsc.phaseStatusYellows phaseNum
          phaseStatusReds := clearAtscPhase s.atsc.phaseStatusReds phaseNum } }
  else
    let s :=
      { s with
        signalColor := Function.update s.signalColor phaseNum SIGNAL_STATE_RED
        yellow := Function.update s.yellow phaseNum 0
        red := Function.update s.red phaseNum 1
        atsc :=
          { s.atsc with
            phaseStatusReds := setAtscPhase s.atsc.phaseStatusReds phaseNum
            phaseStatusYellows := clearAtscPhase s.atsc.phaseStatusYellows phaseNum } }
    if s.red phaseNum ≠ s.oldRed phaseNum then
      { s with startRed := Function.update s.startRed phaseNum s.timeSec }
    else s

/-- Input on green only. -/
def decodeGreenOnly (plan : TimingPlan) (s : PhasesState) (phaseNum i : Int) : PhasesState :=
  let s :=
    { s with
      green := Function.update s.green phaseNum
        (atscPhaseIsSet s.atsc.phaseStatusGreens phaseNum) }
  if s.green phaseNum = 1 then
    { s with
      signalColor := Function.update s.signalColor phaseNum SIGNAL_STATE_GREEN
      yellow := Function.update s.yellow phaseNum 0
      red := Function.update s.red phaseNum 0
      atsc :=
        { s.atsc with
          phaseStatusYellows := clearAtscPhase s.atsc.phaseStatusYellows phaseNum
          phaseStatusReds := clearAtscPhase s.atsc.phaseStatusReds phaseNum }
      startGreen :=
        if s.green phaseNum ≠ s.oldGreen phaseNum then
          Function.update s.startGreen phaseNum s.timeSec
        else s.startGreen }
  else if s.green phaseNum = 0 then decodeGreenOff plan (beginYellow plan s phaseNum) phaseNum i
  else s

/-- The source gives green only: AB3418, or sniffers on the greens and not on the
yellows. -/
def GreenOnly (cfg : PhasesConfig) (infoSource : Int) : Prop :=
  infoSource = ATSC_SOURCE_SNIFF ∧ cfg.sniffGreen = 1 ∧ cfg.sniffYellow = 0 ∨
    infoSource = ATSC_SOURCE_AB3418

instance (cfg : PhasesConfig) (infoSource : Int) : Decidable (GreenOnly cfg infoSource) :=
  inferInstanceAs (Decidable (_ ∨ _))

/-- One row of the decoding loop. -/
def decodeRow (cfg : PhasesConfig) (s : PhasesState) (i : Int) : PhasesState :=
  let phaseNum := cfg.plan.phaseIndex i
  if s.atsc.infoSource = ATSC_SOURCE_NTCIP then decodeAll s phaseNum
  else if s.atsc.infoSource = ATSC_SOURCE_SNIFF ∧ cfg.sniffGreen = 1 ∧ cfg.sniffYellow = 1 then
    decodeGreenYellow cfg.plan s phaseNum
  else if GreenOnly cfg s.atsc.infoSource then decodeGreenOnly cfg.plan s phaseNum i
  else s

def decode (cfg : PhasesConfig) (s : PhasesState) : PhasesState :=
  (upTo cfg.plan.noPhases).foldl (decodeRow cfg) s

/-! ## The countdown -/

/-- One row of the countdown loop.  An actuated signal's time is taken negative, and
zero at most. -/
def countdownRow (plan : TimingPlan) (s : PhasesState) (i : Int) : PhasesState :=
  let phaseNum := plan.phaseIndex i
  if s.signalColor phaseNum = SIGNAL_STATE_UNKNOWN then
    { s with timeLeft := Function.update s.timeLeft phaseNum 0 }
  else if s.signalColor phaseNum = SIGNAL_STATE_GREEN then
    { s with
      timeLeft := Function.update s.timeLeft phaseNum
        (if plan.timingType = 1 then
          min (-(s.startGreen phaseNum + plan.yellowLength i - s.timeSec)) 0
        else s.startGreen phaseNum + plan.greenLength i - s.timeSec)
      timeUsed := Function.update s.timeUsed phaseNum (s.timeSec - s.startGreen phaseNum) }
  else if s.signalColor phaseNum = SIGNAL_STATE_YELLOW then
    { s with
      timeLeft := Function.update s.timeLeft phaseNum
        (s.startYellow phaseNum + plan.yellowLength i - s.timeSec)
      timeUsed := Function.update s.timeUsed phaseNum (s.timeSec - s.startYellow phaseNum) }
  else if s.signalColor phaseNum = SIGNAL_STATE_RED then
    { s with
      timeLeft := Function.update s.timeLeft phaseNum
        (if plan.timingType = 1 then
          min (-(s.startRed phaseNum + plan.yellowLength i - s.timeSec)) 0
        else
          s.startRed phaseNum + plan.cycleLength - plan.greenLength i - plan.yellowLength i -
            s.timeSec)
      timeUsed := Function.update s.timeUsed phaseNum (s.timeSec - s.startRed phaseNum) }
  else s

def countdown (plan : TimingPlan) (s : PhasesState) : PhasesState :=
  (upTo plan.noPhases).foldl (countdownRow plan) s

/-! ## The overlaps -/

/-- The last row of the plan that lists the phase, or `jj` if none does. -/
def TimingPlan.findRow (plan : TimingPlan) (phase jj : Int) : Int :=
  (upTo plan.noPhases).foldl (fun jj j => if plan.phaseIndex j = phase then j else jj) jj

/-- An overlap phase gets its colour and its time. -/
def Signals.show (v : Signals) (phase color : Int) (left : ℚ) : Signals :=
  { v with
    signalColor := Function.update v.signalColor phase color
    timeLeft := Function.update v.timeLeft phase left }

/-- The moment and the row of a parent phase are noted. -/
def Signals.note (plan : TimingPlan) (timeSec : ℚ) (v : Signals) (parent : Int) : Signals :=
  { v with
    jj := plan.findRow parent v.jj
    startParentsred := timeSec }

/-- Green or yellow. -/
def Signals.IsOn (v : Signals) (phase : Int) : Prop :=
  v.signalColor phase = SIGNAL_STATE_GREEN ∨ v.signalColor phase = SIGNAL_STATE_YELLOW

instance (v : Signals) (phase : Int) : Decidable (v.IsOn phase) :=
  inferInstanceAs (Decidable (_ ∨ _))

/-- The colour of overlap `i` from those of its parents. -/
def overlapColor (plan : TimingPlan) (o : Overlap) (timeSec : ℚ) (v : Signals) (i : Int) :
    Signals :=
  if v.signalColor o.parentPhase1 = SIGNAL_STATE_GREEN ∨
      v.signalColor o.parentPhase2 = SIGNAL_STATE_GREEN then
    v.show o.overlapPhase SIGNAL_STATE_GREEN 0
  else if v.signalColor o.parentPhase2 = SIGNAL_STATE_YELLOW then
    let v :=
      if v.oldParentColor2 i ≠ SIGNAL_STATE_YELLOW then v.note plan timeSec o.parentPhase2
      else v
    v.show o.overlapPhase SIGNAL_STATE_YELLOW
      (v.startParentsred + plan.yellowLength v.jj - timeSec)
  else if v.signalColor o.parentPhase1 = SIGNAL_STATE_YELLOW then
    if v.signalColor o.parentPhase2 = SIGNAL_STATE_RED then
      let v :=
        if v.oldParentColor1 i ≠ SIGNAL_STATE_YELLOW then v.note plan timeSec o.parentPhase1
        else v
      if timeSec - v.startParentsred ≤ plan.yellowLength v.jj + plan.allRedLength v.jj then
        v.show o.overlapPhase SIGNAL_STATE_GREEN 0
      else
        v.show o.overlapPhase SIGNAL_STATE_YELLOW
          (v.startParentsred + plan.yellowLength v.jj - timeSec)
    else
      v.show o.overlapPhase SIGNAL_STATE_YELLOW
        (v.startParentsred + plan.yellowLength v.jj - timeSec)
  else if v.signalColor o.parentPhase1 = SIGNAL_STATE_RED ∧
      v.signalColor o.parentPhase2 = SIGNAL_STATE_RED then
    let v :=
      if v.oldParentColor1 i = SIGNAL_STATE_YELLOW ∧ v.oldParentColor2 i = SIGNAL_STATE_RED ∧
          v.timeLeft o.parentPhase2 ≤ 90 then
        v.note plan timeSec o.parentPhase1
      else v
    v.show o.overlapPhase
      (if timeSec - v.startParentsred ≤ plan.allRedLength v.jj then SIGNAL_STATE_GREEN
      else SIGNAL_STATE_RED) 0
  else v.show o.overlapPhase SIGNAL_STATE_RED 0

/-- One turn of the overlap loop. -/
def overlapTurn (cfg : PhasesConfig) (timeSec : ℚ) (v : Signals) (i : Int) : Signals :=
  let o := cfg.overlap i
  let v := overlapColor cfg.plan o timeSec v i
  let v :=
    { v with
      oldParentColor1 := Function.update v.oldParentColor1 i (v.signalColor o.parentPhase1)
      oldParentColor2 := Function.update v.oldParentColor2 i (v.signalColor o.parentPhase2) }
  -- red during omit phases
  if o.omitPhase1 ≠ 0 ∧ v.IsOn o.omitPhase1 ∨ o.omitPhase2 ≠ 0 ∧ v.IsOn o.omitPhase2 then
    v.show o.overlapPhase SIGNAL_STATE_RED 0
  else v

def overlapLoop (cfg : PhasesConfig) (timeSec : ℚ) (v : Signals) : Signals :=
  (upTo cfg.noOverlaps).foldl (overlapTurn cfg timeSec) v

/-! ## The main loop -/

/-- One row of the loop that keeps the inputs for the next turn. -/
def keepOldRow (plan : TimingPlan) (s : PhasesState) (i : Int) : PhasesState :=
  let phaseNum := plan.phaseIndex i
  { s with
    oldGreen := Function.update s.oldGreen phaseNum (s.green phaseNum)
    oldYellow := Function.update s.oldYellow phaseNum (s.yellow phaseNum)
    oldRed := Function.update s.oldRed phaseNum (s.red phaseNum) }

def keepOld (plan : TimingPlan) (s : PhasesState) : PhasesState :=
  (upTo plan.noPhases).foldl (keepOldRow plan) s

/-- The record as completed goes out once a trigger has come, unless its source gave
all the colours. -/
def broadcast (s : PhasesState) : List AtscTyp :=
  if (s.atsc.infoSource = ATSC_SOURCE_SNIFF ∨ s.atsc.infoSource = ATSC_SOURCE_AB3418) ∧
      s.firstTrigger then [s.atsc]
  else []

/-- One turn of the main loop. -/
def phasesStep (cfg : PhasesConfig) (s : PhasesState) (e : LoopEvent) :
    PhasesState × List AtscTyp :=
  let s := receive s e
  let s := decode cfg s
  let s := countdown cfg.plan s
  let s := { s with toSignals := overlapLoop cfg s.timeSec s.toSignals }
  (keepOld cfg.plan s, broadcast s)

/-- The machine of the main loop. -/
def phasesMachine (cfg : PhasesConfig) : Machine PhasesState LoopEvent AtscTyp where
  step := phasesStep cfg

/-! ## Indices -/

/-- The indices of a loop from 1 up to `n`. -/
theorem mem_upTo {n : Nat} {i : Int} : i ∈ upTo n ↔ 1 ≤ i ∧ i ≤ n := by
  simp only [upTo, List.mem_map, List.mem_range]
  constructor
  · intro h
    obtain ⟨j, hj, rfl⟩ := h
    omega
  · intro h
    exact ⟨(i - 1).toNat, by omega, by omega⟩

/-- Its last index comes last. -/
theorem upTo_succ (n : Nat) : upTo (n + 1) = upTo n ++ [(n : Int) + 1] := by
  simp [upTo, List.range_succ]

/-! ## What decoding and counting down leave alone -/

/-- Only what the decoder writes has changed. -/
def Redecoded (s t : PhasesState) : Prop :=
  t = { s with
    signalColor := t.signalColor
    cycleSec := t.cycleSec
    green := t.green
    yellow := t.yellow
    red := t.red
    startGreen := t.startGreen
    startYellow := t.startYellow
    startRed := t.startRed
    atsc :=
      { s.atsc with
        phaseStatusReds := t.atsc.phaseStatusReds
        phaseStatusYellows := t.atsc.phaseStatusYellows } }

/-- Decoding twice is decoding. -/
theorem Redecoded.trans {s t u : PhasesState} (hst : Redecoded s t) (htu : Redecoded t u) :
    Redecoded s u := by
  unfold Redecoded at hst htu ⊢
  rw [htu, hst]

/-- And so is decoding in either branch. -/
theorem Redecoded.ite {s t u : PhasesState} {c : Prop} [Decidable c] (ht : Redecoded s t)
    (hu : Redecoded s u) : Redecoded s (if c then t else u) := by
  split
  · exact ht
  · exact hu

/-- What a row changes belongs to the decoding: for the three bits of NTCIP. -/
theorem decodeAll_redecoded (s : PhasesState) (phaseNum : Int) :
    Redecoded s (decodeAll s phaseNum) :=
  .ite rfl (.ite rfl (.ite rfl rfl))

/-- For greens and yellows. -/
theorem decodeGreenYellow_redecoded (plan : TimingPlan) (s : PhasesState) (phaseNum : Int) :
    Redecoded s (decodeGreenYellow plan s phaseNum) :=
  .ite rfl (.ite (.ite rfl rfl) (.ite (.ite rfl rfl) rfl))

/-- For the begin of a yellow. -/
theorem beginYellow_redecoded (plan : TimingPlan) (s : PhasesState) (phaseNum : Int) :
    Redecoded s (beginYellow plan s phaseNum) :=
  .ite rfl rfl

/-- For the turns behind a green. -/
theorem decodeGreenOff_redecoded (plan : TimingPlan) (s : PhasesState) (phaseNum i : Int) :
    Redecoded s (decodeGreenOff plan s phaseNum i) :=
  .ite rfl (.ite rfl (.ite rfl rfl))

/-- For greens alone. -/
theorem decodeGreenOnly_redecoded (plan : TimingPlan) (s : PhasesState) (phaseNum i : Int) :
    Redecoded s (decodeGreenOnly plan s phaseNum i) := by
  have hread : Redecoded s
      { s with
        green := Function.update s.green phaseNum
          (atscPhaseIsSet s.atsc.phaseStatusGreens phaseNum) } := rfl
  refine .ite rfl (.ite ?_ rfl)
  refine Redecoded.trans ?_ (decodeGreenOff_redecoded plan _ phaseNum i)
  exact hread.trans (beginYellow_redecoded plan _ phaseNum)

/-- And so for every row, whatever the source. -/
theorem decodeRow_redecoded (cfg : PhasesConfig) (s : PhasesState) (i : Int) :
    Redecoded s (decodeRow cfg s i) :=
  .ite (decodeAll_redecoded s _) (.ite (decodeGreenYellow_redecoded _ s _)
    (.ite (decodeGreenOnly_redecoded _ s _ i) rfl))

/-- The decoder leaves alone what none of its rows writes, whatever the source. -/
theorem decodeRows_redecoded (cfg : PhasesConfig) (is : List Int) (s : PhasesState) :
    Redecoded s (is.foldl (decodeRow cfg) s) := by
  induction is generalizing s with
  | nil => rfl
  | cons i is ih => exact (decodeRow_redecoded cfg s i).trans (ih (decodeRow cfg s i))

/-- Only the times have changed. -/
def Recounted (s t : PhasesState) : Prop :=
  t = { s with timeLeft := t.timeLeft, timeUsed := t.timeUsed }

/-- Counting twice is counting. -/
theorem Recounted.trans {s t u : PhasesState} (hst : Recounted s t) (htu : Recounted t u) :
    Recounted s u := by
  unfold Recounted at hst htu ⊢
  rw [htu, hst]

/-- And so is counting in either branch. -/
theorem Recounted.ite {s t u : PhasesState} {c : Prop} [Decidable c] (ht : Recounted s t)
    (hu : Recounted s u) : Recounted s (if c then t else u) := by
  split
  · exact ht
  · exact hu

/-- A row of the countdown changes the times only. -/
theorem countdownRow_recounted (plan : TimingPlan) (s : PhasesState) (i : Int) :
    Recounted s (countdownRow plan s i) :=
  .ite rfl (.ite rfl (.ite rfl (.ite rfl rfl)))

/-- And so does the countdown. -/
theorem countdown_recounted (plan : TimingPlan) (s : PhasesState) :
    Recounted s (countdown plan s) := by
  unfold countdown
  induction upTo plan.noPhases generalizing s with
  | nil => rfl
  | cons i is ih => exact (countdownRow_recounted plan s i).trans (ih (countdownRow plan s i))

end RfsAtsc.Phases
