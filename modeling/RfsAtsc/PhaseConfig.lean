import RfsAtsc.ApproachConfig

/-!
# The phase configuration: `phase.cfg`

Behind the approaches `phases` reads its timing plans, the intervals of the day, the
sniffers and the overlaps.  Seven flags say what the next line is, and four counters where
it goes.  The flags stand for a stage; a file in the layout takes the reader from stage to
stage, and it ends with the configuration in its tables.
-/

namespace RfsAtsc.Phases

open DecimalText

/-! ## The reader -/

/-- The flags of the reader. -/
structure Flags where
  timingPlanStart : Bool
  timingIntervalStart : Bool
  timingTableStart : Bool
  readPlansOnly : Bool
  endPlans : Bool
  snifferStart : Bool
  overlapStart : Bool
deriving DecidableEq

/-- The variables of the reader.  The tables start at index 1. -/
structure PhaseReader extends Flags where
  line : Nat
  i : Int
  j : Int
  k : Int
  m : Int
  noPhases : Int
  noTimings : Int
  noIntervals : Int
  noOverlaps : Int
  timingType : Int → Int
  finalPhaseNo : Int → Int
  cycleLength : Int → Int
  phaseIndex : Int → Int → Int
  offsetForGreen : Int → Int → ℚ
  greenLength : Int → Int → ℚ
  yellowLength : Int → Int → ℚ
  allRedLength : Int → Int → ℚ
  hourStart : Int → Int
  minuteStart : Int → Int
  planNo : Int → Int
  sniffGreen : Int
  sniffYellow : Int
  sniffRed : Int
  overlapPhase : Int → Int
  overlapApproach : Int → Int
  parentPhase : Int → Int → Int
  omitPhase : Int → Int → Int

/-- What `sscanf` converts of a line: `ints n` with `n` times `%d`, and `phase` with
`%d %f %f %f %f`. -/
structure ScannedLine where
  ints : Nat → List Int
  phase : List Int × List ℚ

/-- One integer and four decimals. -/
def scanPhaseRow (text : List Char) : List Int × List ℚ :=
  match scanInt text with
  | none => ([], [])
  | some (v, rest) => ([v], scanRats 4 rest)

def scanned (text : List Char) : ScannedLine where
  ints n := scanInts n text
  phase := scanPhaseRow text

/-- The first line of a timing plan.  An actuated plan has only its type. -/
def scanPlan (s : PhaseReader) (ints : Nat → List Int) : PhaseReader :=
  let s :=
    { s with
      timingType := Function.update s.timingType s.i ((ints 1).getD 0 (s.timingType s.i)) }
  let s :=
    if s.timingType s.i ≠ 1 then
      { s with
        timingType := Function.update s.timingType s.i ((ints 3).getD 0 (s.timingType s.i))
        finalPhaseNo := Function.update s.finalPhaseNo s.i ((ints 3).getD 1 (s.finalPhaseNo s.i))
        cycleLength := Function.update s.cycleLength s.i ((ints 3).getD 2 (s.cycleLength s.i)) }
    else s
  { s with timingPlanStart := false, j := 1 }

/-- A phase's numbers are stored. -/
def storePhase (s : PhaseReader) (row : List Int × List ℚ) : PhaseReader :=
  { s with
    phaseIndex := update2 s.phaseIndex s.i s.j (row.1.getD 0 (s.phaseIndex s.i s.j))
    offsetForGreen := update2 s.offsetForGreen s.i s.j (row.2.getD 0 (s.offsetForGreen s.i s.j))
    greenLength := update2 s.greenLength s.i s.j (row.2.getD 1 (s.greenLength s.i s.j))
    yellowLength := update2 s.yellowLength s.i s.j (row.2.getD 2 (s.yellowLength s.i s.j))
    allRedLength := update2 s.allRedLength s.i s.j (row.2.getD 3 (s.allRedLength s.i s.j))
    j := s.j + 1 }

/-- A phase's line: behind the last the next plan begins, behind the last plan the
intervals. -/
def scanPhase (s : PhaseReader) (row : List Int × List ℚ) : PhaseReader :=
  let s := storePhase s row
  let s := if s.j > s.noPhases then { s with j := 1, i := s.i + 1, timingPlanStart := true } else s
  if s.i > s.noTimings then
    { s with
      timingPlanStart := false
      timingIntervalStart := true
      readPlansOnly := false
      endPlans := true }
  else s

/-- The number of intervals. -/
def scanIntervals (s : PhaseReader) (vs : List Int) : PhaseReader :=
  let s :=
    { s with
      noIntervals := vs.getD 0 s.noIntervals
      k := 1
      timingIntervalStart := false }
  if s.noIntervals ≠ 0 then { s with timingTableStart := true } else { s with snifferStart := true }

/-- An interval's numbers are stored. -/
def storeInterval (s : PhaseReader) (vs : List Int) : PhaseReader :=
  { s with
    hourStart := Function.update s.hourStart s.k (vs.getD 0 (s.hourStart s.k))
    minuteStart := Function.update s.minuteStart s.k (vs.getD 1 (s.minuteStart s.k))
    planNo := Function.update s.planNo s.k (vs.getD 2 (s.planNo s.k))
    k := s.k + 1 }

/-- An interval's line: behind the last come the sniffers. -/
def scanInterval (s : PhaseReader) (vs : List Int) : PhaseReader :=
  let s := storeInterval s vs
  if s.k > s.noIntervals then { s with timingTableStart := false, snifferStart := true } else s

/-- The sniffers. -/
def scanSniffers (s : PhaseReader) (vs : List Int) : PhaseReader :=
  { s with
    sniffGreen := vs.getD 0 s.sniffGreen
    sniffYellow := vs.getD 1 s.sniffYellow
    sniffRed := vs.getD 2 s.sniffRed
    snifferStart := false
    overlapStart := true }

/-- The number of overlaps. -/
def scanOverlaps (s : PhaseReader) (vs : List Int) : PhaseReader :=
  { s with
    noOverlaps := vs.getD 0 s.noOverlaps
    m := 1
    overlapStart := false }

/-- An overlap's line. -/
def scanOverlap (s : PhaseReader) (vs : List Int) : PhaseReader :=
  let parents := update2 s.parentPhase s.m 1 (vs.getD 2 (s.parentPhase s.m 1))
  let omits := update2 s.omitPhase s.m 1 (vs.getD 4 (s.omitPhase s.m 1))
  { s with
    overlapPhase := Function.update s.overlapPhase s.m (vs.getD 0 (s.overlapPhase s.m))
    overlapApproach := Function.update s.overlapApproach s.m (vs.getD 1 (s.overlapApproach s.m))
    parentPhase := update2 parents s.m 2 (vs.getD 3 (s.parentPhase s.m 2))
    omitPhase := update2 omits s.m 2 (vs.getD 5 (s.omitPhase s.m 2))
    m := s.m + 1 }

/-- The `switch` on a line. -/
def scanPhaseLine (s : PhaseReader) (scan : ScannedLine) : PhaseReader :=
  match s.line with
  | 1 => { s with noPhases := (scan.ints 1).getD 0 s.noPhases }
  | 2 =>
      { s with
        noTimings := (scan.ints 1).getD 0 s.noTimings
        i := 1
        timingPlanStart := true }
  | _ =>
      if s.timingPlanStart then scanPlan s scan.ints
      else if s.readPlansOnly then scanPhase s scan.phase
      else if s.timingIntervalStart then scanIntervals s (scan.ints 1)
      else if s.timingTableStart then scanInterval s (scan.ints 3)
      else if s.snifferStart then scanSniffers s (scan.ints 3)
      else if s.overlapStart then scanOverlaps s (scan.ints 1)
      else scanOverlap s (scan.ints 6)

/-- A line's turn, and whether nothing is left to read. -/
def phaseTurn (s : PhaseReader) (lineinput : List Char) : PhaseReader × Bool :=
  let s := scanPhaseLine s (scanned lineinput)
  if s.m > s.noOverlaps then (s, true) else ({ s with line := s.line + 1 }, false)

/-- What the reader starts from, with anything at all in the variables that it does not
initialise. -/
def startPhases (uninitialised : PhaseReader) : PhaseReader :=
  { uninitialised with
    line := 1
    k := 1
    m := 1
    noIntervals := 100
    noOverlaps := 100
    timingPlanStart := false
    timingIntervalStart := false
    timingTableStart := false
    readPlansOnly := true
    endPlans := false
    snifferStart := false
    overlapStart := false }

/-- Variables that happen to be 0. -/
def blankPhases : PhaseReader where
  toFlags := ⟨false, false, false, false, false, false, false⟩
  line := 0
  i := 0
  j := 0
  k := 0
  m := 0
  noPhases := 0
  noTimings := 0
  noIntervals := 0
  noOverlaps := 0
  timingType _ := 0
  finalPhaseNo _ := 0
  cycleLength _ := 0
  phaseIndex _ _ := 0
  offsetForGreen _ _ := 0
  greenLength _ _ := 0
  yellowLength _ _ := 0
  allRedLength _ _ := 0
  hourStart _ := 0
  minuteStart _ := 0
  planNo _ := 0
  sniffGreen := 0
  sniffYellow := 0
  sniffRed := 0
  overlapPhase _ := 0
  overlapApproach _ := 0
  parentPhase _ _ := 0
  omitPhase _ _ := 0

/-- The reading loop over the file. -/
def readPhaseConfig (uninitialised : PhaseReader) (file : List Char) : PhaseReader :=
  readLines phaseTurn (fileLines 100 file) (startPhases uninitialised)

/-! ## Stages -/

/-- What a line is, from the third on. -/
inductive Stage where
  | plan
  | phase
  | intervals
  | interval
  | sniffers
  | overlaps
  | overlap

/-- The flags of a stage: `timing_plan_start`, `timing_interval_start`,
`timing_table_start`, `read_plans_only`, `end_plans`, `sniffer_start`, `overlap_start`. -/
def Stage.flags : Stage → Flags
  | .plan => ⟨true, false, false, true, false, false, false⟩
  | .phase => ⟨false, false, false, true, false, false, false⟩
  | .intervals => ⟨false, true, false, false, true, false, false⟩
  | .interval => ⟨false, false, true, false, true, false, false⟩
  | .sniffers => ⟨false, false, false, false, true, true, false⟩
  | .overlaps => ⟨false, false, false, false, true, false, true⟩
  | .overlap => ⟨false, false, false, false, true, false, false⟩

/-- How a line of a stage is scanned. -/
def Stage.scan : Stage → PhaseReader → ScannedLine → PhaseReader
  | .plan, s, scan => scanPlan s scan.ints
  | .phase, s, scan => scanPhase s scan.phase
  | .intervals, s, scan => scanIntervals s (scan.ints 1)
  | .interval, s, scan => scanInterval s (scan.ints 3)
  | .sniffers, s, scan => scanSniffers s (scan.ints 3)
  | .overlaps, s, scan => scanOverlaps s (scan.ints 1)
  | .overlap, s, scan => scanOverlap s (scan.ints 6)

/-- The reader is at a line of the stage. -/
structure PhaseReader.At (s : PhaseReader) (stage : Stage) : Prop where
  body : 2 < s.line
  flags : s.toFlags = stage.flags

/-- A line that turns the flags of one stage into those of another leads there. -/
theorem PhaseReader.At.goes {s t : PhaseReader} {stage stage' : Stage} (h : s.At stage)
    (turn : Flags → Flags) (hline : t.line = s.line + 1) (hflags : t.toFlags = turn s.toFlags)
    (hturn : turn stage.flags = stage'.flags) : t.At stage' where
  body := by
    rw [hline]
    exact Nat.lt_succ_of_lt h.body
  flags := by
    rw [hflags, h.flags, hturn]

/-- Behind the second line the flags decide. -/
theorem scanPhaseLine_body {s : PhaseReader} (hbody : 2 < s.line) (scan : ScannedLine) :
    scanPhaseLine s scan =
      if s.timingPlanStart then scanPlan s scan.ints
      else if s.readPlansOnly then scanPhase s scan.phase
      else if s.timingIntervalStart then scanIntervals s (scan.ints 1)
      else if s.timingTableStart then scanInterval s (scan.ints 3)
      else if s.snifferStart then scanSniffers s (scan.ints 3)
      else if s.overlapStart then scanOverlaps s (scan.ints 1)
      else scanOverlap s (scan.ints 6) := by
  unfold scanPhaseLine
  split
  all_goals first | rfl | omega

/-- At a stage exactly its flags are set, and the line is scanned as one of it. -/
theorem scanPhaseLine_at {s : PhaseReader} {stage : Stage} (h : s.At stage) (scan : ScannedLine) :
    scanPhaseLine s scan = stage.scan s scan := by
  have hplan := congrArg Flags.timingPlanStart h.flags
  have hintervals := congrArg Flags.timingIntervalStart h.flags
  have htable := congrArg Flags.timingTableStart h.flags
  have honly := congrArg Flags.readPlansOnly h.flags
  have hsniffer := congrArg Flags.snifferStart h.flags
  have hoverlap := congrArg Flags.overlapStart h.flags
  rw [scanPhaseLine_body h.body, hplan, hintervals, htable, honly, hsniffer, hoverlap]
  cases stage with
  | plan => rfl
  | phase => rfl
  | intervals => rfl
  | interval => rfl
  | sniffers => rfl
  | overlaps => rfl
  | overlap => rfl

/-- A line is taken as one of the reader's stage. -/
theorem phaseTurn_at {s : PhaseReader} {stage : Stage} (h : s.At stage) (text : List Char) :
    phaseTurn s text =
      let t := stage.scan s (scanned text)
      if t.m > t.noOverlaps then (t, true) else ({ t with line := t.line + 1 }, false) := by
  rw [phaseTurn, scanPhaseLine_at h]

/-! ## Scanning the lines of a stage -/

section Scanning

variable (s : PhaseReader)

/-- A plan that is not actuated. -/
theorem scanPlan_timed {timingType : Int} (h : timingType ≠ 1) (finalPhaseNo cycleLength : Int) :
    scanPlan s [timingType, finalPhaseNo, cycleLength].take =
      { s with
        timingType := Function.update s.timingType s.i timingType
        finalPhaseNo := Function.update s.finalPhaseNo s.i finalPhaseNo
        cycleLength := Function.update s.cycleLength s.i cycleLength
        timingPlanStart := false
        j := 1 } := by
  have hfirst : ([timingType, finalPhaseNo, cycleLength].take 1).getD 0 (s.timingType s.i) =
    timingType := rfl
  simp only [scanPlan, hfirst, Function.update_self, if_pos h]
  simp

/-- An actuated plan. -/
theorem scanPlan_actuated :
    scanPlan s [1].take =
      { s with
        timingType := Function.update s.timingType s.i 1
        timingPlanStart := false
        j := 1 } := by
  have hfirst : (([1] : List Int).take 1).getD 0 (s.timingType s.i) = 1 := rfl
  simp only [scanPlan, hfirst, Function.update_self]
  rfl

variable (row : List Int × List ℚ)

/-- A phase before the last of its plan. -/
theorem scanPhase_more (hj : s.j < s.noPhases) (hi : s.i ≤ s.noTimings) :
    scanPhase s row = storePhase s row := by
  have hphase : ¬ s.j + 1 > s.noPhases := by omega
  have hplan : ¬ s.i > s.noTimings := by omega
  change (let t := if s.j + 1 > s.noPhases then _ else storePhase s row
    if t.i > t.noTimings then _ else t) = _
  rw [if_neg hphase]
  exact if_neg hplan

/-- The last phase of a plan before the last. -/
theorem scanPhase_morePlans (hj : s.noPhases ≤ s.j) (hi : s.i < s.noTimings) :
    scanPhase s row = { storePhase s row with j := 1, i := s.i + 1, timingPlanStart := true } := by
  have hphase : s.j + 1 > s.noPhases := by omega
  have hplan : ¬ s.i + 1 > s.noTimings := by omega
  change (let t := if s.j + 1 > s.noPhases then
      { storePhase s row with j := 1, i := s.i + 1, timingPlanStart := true } else _
    if t.i > t.noTimings then _ else t) = _
  rw [if_pos hphase]
  exact if_neg hplan

/-- The last phase of the last plan. -/
theorem scanPhase_lastPlan (hj : s.noPhases ≤ s.j) (hi : s.noTimings ≤ s.i) :
    scanPhase s row =
      { storePhase s row with
        j := 1
        i := s.i + 1
        timingPlanStart := false
        timingIntervalStart := true
        readPlansOnly := false
        endPlans := true } := by
  have hphase : s.j + 1 > s.noPhases := by omega
  have hplan : s.i + 1 > s.noTimings := by omega
  change (let t := if s.j + 1 > s.noPhases then
      { storePhase s row with j := 1, i := s.i + 1, timingPlanStart := true } else _
    if t.i > t.noTimings then
      { t with
        timingPlanStart := false
        timingIntervalStart := true
        readPlansOnly := false
        endPlans := true }
    else t) = _
  rw [if_pos hphase]
  exact if_pos hplan

/-- No intervals: the sniffers come next. -/
theorem scanIntervals_none :
    scanIntervals s [0] =
      { s with noIntervals := 0, k := 1, timingIntervalStart := false, snifferStart := true } := rfl

/-- Some intervals: they come next. -/
theorem scanIntervals_some {n : Int} (h : n ≠ 0) :
    scanIntervals s [n] =
      { s with noIntervals := n, k := 1, timingIntervalStart := false, timingTableStart := true } :=
  if_pos h

/-- An interval before the last. -/
theorem scanInterval_more (vs : List Int) (h : s.k < s.noIntervals) :
    scanInterval s vs = storeInterval s vs := by
  refine if_neg ?_
  change ¬ s.k + 1 > s.noIntervals
  omega

/-- The last interval. -/
theorem scanInterval_last (vs : List Int) (h : s.noIntervals ≤ s.k) :
    scanInterval s vs =
      { storeInterval s vs with timingTableStart := false, snifferStart := true } := by
  refine if_pos ?_
  change s.k + 1 > s.noIntervals
  omega

end Scanning

end RfsAtsc.Phases
