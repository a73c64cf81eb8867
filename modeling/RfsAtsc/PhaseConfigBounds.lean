import RfsAtsc.PhaseRecovery

/-!
# The tables of `phase.cfg` and their bounds

The tables of the phase configuration are declared with four constants and indexed by four
counters.  Two do not match: the starts of the intervals are dimensioned by the number of
plans, and the yellow and all-red lengths by the number of approaches.  So the reader stays
in its tables for fewer intervals and fewer phases than the maxima allow.
-/

namespace RfsAtsc.Phases

open DecimalText

/-- `MAX_TIMINGS`. -/
def MAX_TIMINGS : Nat := 5

/-- `MAX_INTERVALS`. -/
def MAX_INTERVALS : Nat := 10

/-- `MAX_PARENTS`. -/
def MAX_PARENTS : Nat := 2

/-! ## Accesses -/

/-- The tables of the phase configuration. -/
inductive ConfigTable where
  | phaseIndex
  | hourStart
  | minuteStart
  | cycleLength
  | timingType
  | finalPhaseNo
  | overlapPhase
  | overlapApproach
  | parentPhase
  | omitPhase
  | offsetForGreen
  | greenLength
  | yellowLength
  | allRedLength
  | planNo
deriving DecidableEq

/-- The dimensions that a table is declared with. -/
def ConfigTable.dims : ConfigTable → List Int
  | .phaseIndex => [MAX_TIMINGS + 1, MAX_PHASES + 1]
  | .hourStart => [MAX_TIMINGS + 1]
  | .minuteStart => [MAX_TIMINGS + 1]
  | .cycleLength => [MAX_TIMINGS + 1]
  | .timingType => [MAX_TIMINGS + 1]
  | .finalPhaseNo => [MAX_TIMINGS + 1]
  | .overlapPhase => [MAX_OVERLAPS + 1]
  | .overlapApproach => [MAX_OVERLAPS + 1]
  | .parentPhase => [MAX_OVERLAPS + 1, MAX_PARENTS + 1]
  | .omitPhase => [MAX_OVERLAPS + 1, MAX_PARENTS + 1]
  | .offsetForGreen => [MAX_TIMINGS + 1, MAX_PHASES + 1]
  | .greenLength => [MAX_TIMINGS + 1, MAX_PHASES + 1]
  | .yellowLength => [MAX_TIMINGS + 1, MAX_APPROACHES + 1]
  | .allRedLength => [MAX_TIMINGS + 1, MAX_APPROACHES + 1]
  | .planNo => [MAX_INTERVALS]

/-- A table indexed. -/
structure TableAccess where
  table : ConfigTable
  index : List Int
deriving DecidableEq

/-- Each index is inside the declared bound. -/
def TableAccess.InBounds (a : TableAccess) : Prop :=
  List.Forall₂ (fun i d : Int => 0 ≤ i ∧ i < d) a.index a.table.dims

/-- The first line of a plan. -/
def planAccesses (s : PhaseReader) (ints : Nat → List Int) : List TableAccess :=
  ⟨.timingType, [s.i]⟩ ::
    if (ints 1).getD 0 (s.timingType s.i) ≠ 1 then
      [⟨.timingType, [s.i]⟩, ⟨.finalPhaseNo, [s.i]⟩, ⟨.cycleLength, [s.i]⟩]
    else []

/-- The line of phase `j` of plan `i`, or its echo. -/
def phaseAccesses (i j : Int) : List TableAccess :=
  [⟨.phaseIndex, [i, j]⟩, ⟨.offsetForGreen, [i, j]⟩, ⟨.greenLength, [i, j]⟩,
    ⟨.yellowLength, [i, j]⟩, ⟨.allRedLength, [i, j]⟩]

/-- The line of interval `k`, or its echo. -/
def intervalAccesses (k : Int) : List TableAccess :=
  [⟨.hourStart, [k]⟩, ⟨.minuteStart, [k]⟩, ⟨.planNo, [k]⟩]

/-- The line of overlap `m`, or its echo. -/
def overlapAccesses (m : Int) : List TableAccess :=
  [⟨.overlapPhase, [m]⟩, ⟨.overlapApproach, [m]⟩, ⟨.parentPhase, [m, 1]⟩, ⟨.parentPhase, [m, 2]⟩,
    ⟨.omitPhase, [m, 1]⟩, ⟨.omitPhase, [m, 2]⟩]

/-- What a line's turn indexes. -/
def lineAccesses (s : PhaseReader) (scan : ScannedLine) : List TableAccess :=
  match s.line with
  | 1 => []
  | 2 => []
  | _ =>
      if s.timingPlanStart then planAccesses s scan.ints
      else if s.readPlansOnly then phaseAccesses s.i s.j
      else if s.timingIntervalStart then []
      else if s.timingTableStart then intervalAccesses s.k
      else if s.snifferStart then []
      else if s.overlapStart then []
      else overlapAccesses s.m

/-- The echo of plan `i`. -/
def echoPlan (s : PhaseReader) (i : Int) : List TableAccess :=
  ⟨.timingType, [i]⟩ ::
    ((if s.timingType i ≠ 1 then
        [⟨.timingType, [i]⟩, ⟨.finalPhaseNo, [i]⟩, ⟨.cycleLength, [i]⟩]
      else [⟨.timingType, [i]⟩]) ++
      (upTo s.noPhases.toNat).flatMap (phaseAccesses i))

/-- What the echo of the configuration indexes. -/
def echoAccesses (s : PhaseReader) : List TableAccess :=
  (upTo s.noIntervals.toNat).flatMap intervalAccesses ++
    (upTo s.noTimings.toNat).flatMap (echoPlan s) ++
    (upTo s.noOverlaps.toNat).flatMap overlapAccesses

/-- A turn that keeps what it indexes. -/
def loggedTurn (s : PhaseReader × List TableAccess) (lineinput : List Char) :
    (PhaseReader × List TableAccess) × Bool :=
  let next := phaseTurn s.1 lineinput
  ((next.1, s.2 ++ lineAccesses s.1 (scanned lineinput)), next.2)

/-- Every access made while the file is read, and while the configuration is echoed. -/
def phaseConfigAccesses (uninitialised : PhaseReader) (file : List Char) : List TableAccess :=
  let last := readLines loggedTurn (fileLines 100 file) (startPhases uninitialised, [])
  last.2 ++ echoAccesses last.1

/-- The counts stay within the declared maxima. -/
structure CountsDeclared (s : PhaseReader) : Prop where
  noPhases : s.noPhases ≤ MAX_PHASES
  noTimings : s.noTimings ≤ MAX_TIMINGS
  noIntervals : s.noIntervals ≤ MAX_INTERVALS
  noOverlaps : s.noOverlaps ≤ MAX_OVERLAPS

/-- No more intervals than plans are declared, and no more phases than approaches unless
there are no plans. -/
structure TablesFit (s : PhaseReader) : Prop where
  noIntervals : s.noIntervals ≤ MAX_TIMINGS
  noPhases : 1 ≤ s.noTimings → s.noPhases ≤ MAX_APPROACHES

/-! ## Bounds of the accesses -/

/-- An access to a table of one dimension is in bounds by its index. -/
theorem inBounds_one {table : ConfigTable} {i d : Int} (hdims : table.dims = [d]) :
    (TableAccess.mk table [i]).InBounds ↔ 0 ≤ i ∧ i < d := by
  rw [TableAccess.InBounds, hdims, List.forall₂_cons]
  exact and_iff_left .nil

/-- An access to a table of two dimensions is in bounds by both. -/
theorem inBounds_two {table : ConfigTable} {i j d e : Int} (hdims : table.dims = [d, e]) :
    (TableAccess.mk table [i, j]).InBounds ↔ (0 ≤ i ∧ i < d) ∧ 0 ≤ j ∧ j < e := by
  rw [TableAccess.InBounds, hdims, List.forall₂_cons, List.forall₂_cons]
  exact and_congr_right fun _ => and_iff_left .nil

/-- All of some accesses are inside their bounds. -/
def AllInBounds (accesses : List TableAccess) : Prop := ∀ a ∈ accesses, a.InBounds

/-- Accesses in bounds, and more of them. -/
theorem AllInBounds.append {xs ys : List TableAccess} (hxs : AllInBounds xs)
    (hys : AllInBounds ys) : AllInBounds (xs ++ ys) := by
  intro a ha
  rcases List.mem_append.mp ha with hx | hy
  · exact hxs a hx
  · exact hys a hy

section Lines

variable {s : PhaseReader} {i j : Int}

/-- A plan's line stays in the tables for every plan there may be. -/
theorem planAccesses_inBounds (hi : 0 ≤ s.i ∧ s.i ≤ MAX_TIMINGS) (ints : Nat → List Int) :
    AllInBounds (planAccesses s ints) := by
  have hbound : 0 ≤ s.i ∧ s.i < (MAX_TIMINGS : Int) + 1 := ⟨hi.1, Int.lt_add_one_of_le hi.2⟩
  intro a ha
  rcases List.mem_cons.mp ha with rfl | ha
  · exact (inBounds_one rfl).mpr hbound
  · split at ha
    · rcases List.mem_cons.mp ha with rfl | ha
      · exact (inBounds_one rfl).mpr hbound
      · rcases List.mem_cons.mp ha with rfl | ha
        · exact (inBounds_one rfl).mpr hbound
        · obtain rfl := List.mem_singleton.mp ha
          exact (inBounds_one rfl).mpr hbound
    · exact absurd ha List.not_mem_nil

/-- A phase's line does where the phase has room among the approaches. -/
theorem phaseAccesses_inBounds (hi : 0 ≤ i ∧ i ≤ MAX_TIMINGS) (hj : 0 ≤ j ∧ j ≤ MAX_APPROACHES) :
    AllInBounds (phaseAccesses i j) := by
  have hplan : 0 ≤ i ∧ i < (MAX_TIMINGS : Int) + 1 := ⟨hi.1, Int.lt_add_one_of_le hi.2⟩
  have happroach : 0 ≤ j ∧ j < (MAX_APPROACHES : Int) + 1 := ⟨hj.1, Int.lt_add_one_of_le hj.2⟩
  have hphase : 0 ≤ j ∧ j < (MAX_PHASES : Int) + 1 := by
    have hless : (MAX_APPROACHES : Int) ≤ MAX_PHASES := by decide
    exact ⟨hj.1, by omega⟩
  intro a ha
  simp only [phaseAccesses, List.mem_cons, List.not_mem_nil, or_false] at ha
  rcases ha with rfl | rfl | rfl | rfl | rfl
  · exact (inBounds_two rfl).mpr ⟨hplan, hphase⟩
  · exact (inBounds_two rfl).mpr ⟨hplan, hphase⟩
  · exact (inBounds_two rfl).mpr ⟨hplan, hphase⟩
  · exact (inBounds_two rfl).mpr ⟨hplan, happroach⟩
  · exact (inBounds_two rfl).mpr ⟨hplan, happroach⟩

/-- An interval's line does where the interval has room among the plans. -/
theorem intervalAccesses_inBounds {k : Int} (hk : 0 ≤ k ∧ k ≤ MAX_TIMINGS) :
    AllInBounds (intervalAccesses k) := by
  have hstart : 0 ≤ k ∧ k < (MAX_TIMINGS : Int) + 1 := ⟨hk.1, Int.lt_add_one_of_le hk.2⟩
  have hplan : 0 ≤ k ∧ k < (MAX_INTERVALS : Int) := by
    have hless : (MAX_TIMINGS : Int) < MAX_INTERVALS := by decide
    exact ⟨hk.1, lt_of_le_of_lt hk.2 hless⟩
  intro a ha
  simp only [intervalAccesses, List.mem_cons, List.not_mem_nil, or_false] at ha
  rcases ha with rfl | rfl | rfl
  · exact (inBounds_one rfl).mpr hstart
  · exact (inBounds_one rfl).mpr hstart
  · exact (inBounds_one rfl).mpr hplan

/-- An overlap's line does for every overlap there may be. -/
theorem overlapAccesses_inBounds {m : Int} (hm : 0 ≤ m ∧ m ≤ MAX_OVERLAPS) :
    AllInBounds (overlapAccesses m) := by
  have hoverlap : 0 ≤ m ∧ m < (MAX_OVERLAPS : Int) + 1 := ⟨hm.1, Int.lt_add_one_of_le hm.2⟩
  have hfirst : (0 : Int) ≤ 1 ∧ (1 : Int) < (MAX_PARENTS : Int) + 1 := by decide
  have hsecond : (0 : Int) ≤ 2 ∧ (2 : Int) < (MAX_PARENTS : Int) + 1 := by decide
  intro a ha
  simp only [overlapAccesses, List.mem_cons, List.not_mem_nil, or_false] at ha
  rcases ha with rfl | rfl | rfl | rfl | rfl | rfl
  · exact (inBounds_one rfl).mpr hoverlap
  · exact (inBounds_one rfl).mpr hoverlap
  · exact (inBounds_two rfl).mpr ⟨hoverlap, hfirst⟩
  · exact (inBounds_two rfl).mpr ⟨hoverlap, hsecond⟩
  · exact (inBounds_two rfl).mpr ⟨hoverlap, hfirst⟩
  · exact (inBounds_two rfl).mpr ⟨hoverlap, hsecond⟩

end Lines

/-! ## The echo -/

/-- A loop stays in bounds if every turn of it does. -/
theorem AllInBounds.flatMap {f : Int → List TableAccess} {n : Int}
    (h : ∀ i, 1 ≤ i → i ≤ n → AllInBounds (f i)) : AllInBounds ((upTo n.toNat).flatMap f) := by
  intro a ha
  obtain ⟨i, hi, ha⟩ := List.mem_flatMap.mp ha
  obtain ⟨hlow, hhigh⟩ := mem_upTo.mp hi
  exact h i hlow (by omega) a ha

/-- Echoing a plan stays in bounds if its phases have room among the approaches. -/
theorem echoPlan_inBounds {s : PhaseReader} {i : Int} (hi : 0 ≤ i ∧ i ≤ MAX_TIMINGS)
    (hphases : s.noPhases ≤ MAX_APPROACHES) : AllInBounds (echoPlan s i) := by
  have hbound : 0 ≤ i ∧ i < (MAX_TIMINGS : Int) + 1 := ⟨hi.1, Int.lt_add_one_of_le hi.2⟩
  have hheader : AllInBounds (if s.timingType i ≠ 1 then
      [⟨.timingType, [i]⟩, ⟨.finalPhaseNo, [i]⟩, ⟨.cycleLength, [i]⟩]
      else [⟨.timingType, [i]⟩]) := by
    intro a ha
    split at ha
    · simp only [List.mem_cons, List.not_mem_nil, or_false] at ha
      rcases ha with rfl | rfl | rfl
      · exact (inBounds_one rfl).mpr hbound
      · exact (inBounds_one rfl).mpr hbound
      · exact (inBounds_one rfl).mpr hbound
    · obtain rfl := List.mem_singleton.mp ha
      exact (inBounds_one rfl).mpr hbound
  have hrows : AllInBounds ((upTo s.noPhases.toNat).flatMap (phaseAccesses i)) := by
    refine AllInBounds.flatMap fun j hlow hhigh => ?_
    exact phaseAccesses_inBounds hi ⟨by omega, hhigh.trans hphases⟩
  intro a ha
  rcases List.mem_cons.mp ha with rfl | ha
  · exact (inBounds_one rfl).mpr hbound
  · exact hheader.append hrows a ha

/-- The echo stays in the tables exactly if the counts fit them. -/
theorem echoAccesses_inBounds_iff {s : PhaseReader} (hcounts : CountsDeclared s) :
    AllInBounds (echoAccesses s) ↔ TablesFit s := by
  have hplans := hcounts.noTimings
  have hoverlaps := hcounts.noOverlaps
  constructor
  · intro h
    constructor
    · by_contra hmore
      have hmem : (⟨.hourStart, [s.noIntervals]⟩ : TableAccess) ∈ echoAccesses s := by
        refine List.mem_append_left _ (List.mem_append_left _ (List.mem_flatMap.mpr
          ⟨s.noIntervals, mem_upTo.mpr ?_, List.mem_cons_self⟩))
        change ¬ s.noIntervals ≤ 5 at hmore
        omega
      have hbound := ((inBounds_one rfl).mp (h _ hmem)).2
      omega
    · intro hplan
      by_contra hmore
      have hmem : (⟨.yellowLength, [1, s.noPhases]⟩ : TableAccess) ∈ echoAccesses s := by
        refine List.mem_append_left _ (List.mem_append_right _ (List.mem_flatMap.mpr
          ⟨1, mem_upTo.mpr ?_, List.mem_cons_of_mem _ (List.mem_append_right _
            (List.mem_flatMap.mpr ⟨s.noPhases, mem_upTo.mpr ?_, ?_⟩))⟩))
        · omega
        · change ¬ s.noPhases ≤ 10 at hmore
          omega
        · simp [phaseAccesses]
      have hbound := ((inBounds_two rfl).mp (h _ hmem)).2.2
      omega
  · intro h
    refine AllInBounds.append (AllInBounds.append ?_ ?_) ?_
    · exact AllInBounds.flatMap fun k hlow hhigh =>
        intervalAccesses_inBounds ⟨by omega, hhigh.trans h.noIntervals⟩
    · exact AllInBounds.flatMap fun i hlow hhigh =>
        echoPlan_inBounds ⟨by omega, hhigh.trans hplans⟩ (h.noPhases (hlow.trans hhigh))
    · exact AllInBounds.flatMap fun m hlow hhigh =>
        overlapAccesses_inBounds ⟨by omega, hhigh.trans hoverlaps⟩

/-! ## Reading any file -/

/-- What the counters of a stage are between. -/
def Stage.Counters (s : PhaseReader) : Stage → Prop
  | .plan => 1 ≤ s.i ∧ (s.i = 1 ∨ s.i ≤ s.noTimings)
  | .phase =>
      (1 ≤ s.i ∧ (s.i = 1 ∨ s.i ≤ s.noTimings)) ∧
        1 ≤ s.j ∧ (s.j = 1 ∨ s.j ≤ s.noPhases ∧ s.i ≤ s.noTimings)
  | .interval => 1 ≤ s.k ∧ (s.k = 1 ∨ s.k ≤ s.noIntervals)
  | _ => True

/-- The stages behind the number of intervals. -/
def Stage.PastIntervals : Stage → Prop
  | .plan => False
  | .phase => False
  | .intervals => False
  | _ => True

/-- The reader goes on at a line of the stage. -/
structure Running (s : PhaseReader) (stage : Stage) : Prop where
  at_stage : s.At stage
  m_pos : 1 ≤ s.m
  m_le : s.m ≤ s.noOverlaps
  counters : stage.Counters s

/-- The counts that have been read at a stage stay. -/
structure CountsKept (stage : Stage) (s t : PhaseReader) : Prop where
  noPhases : t.noPhases = s.noPhases
  noTimings : t.noTimings = s.noTimings
  noIntervals : stage.PastIntervals → t.noIntervals = s.noIntervals
  noOverlaps : stage = .overlap → t.noOverlaps = s.noOverlaps

/-- Counts are kept where nothing happens. -/
theorem CountsKept.refl (stage : Stage) (s : PhaseReader) : CountsKept stage s s :=
  ⟨rfl, rfl, fun _ => rfl, fun _ => rfl⟩

/-- Where a line leads: the counts read stay, and the reader ends or goes on at a stage
that has read as much. -/
structure Leads (stage : Stage) (s t : PhaseReader) : Prop where
  kept : CountsKept stage s t
  next : t.m ≤ t.noOverlaps → ∃ stage', Running { t with line := t.line + 1 } stage' ∧
    (stage.PastIntervals → stage'.PastIntervals) ∧ (stage = .overlap → stage' = .overlap)

section Leads

variable {s : PhaseReader}

/-- The number of the line is none of the counters. -/
theorem Stage.counters_line (stage : Stage) (s : PhaseReader) (n : Nat) :
    stage.Counters { s with line := n } ↔ stage.Counters s := by
  cases stage <;> rfl

/-- A line that keeps the counts read and turns the flags into those of a stage leads there. -/
theorem Running.leads {t : PhaseReader} {stage : Stage} (h : Running s stage) (stage' : Stage)
    (turn : Flags → Flags) (hkept : CountsKept stage s t) (hline : t.line = s.line)
    (hflags : t.toFlags = turn s.toFlags) (hturn : turn stage.flags = stage'.flags)
    (hpos : 1 ≤ t.m) (hcounters : stage'.Counters t)
    (hpast : stage.PastIntervals → stage'.PastIntervals)
    (hlast : stage = .overlap → stage' = .overlap) : Leads stage s t := by
  refine ⟨hkept, fun hgoes => ⟨stage', ⟨?_, hpos, hgoes, ?_⟩, hpast, hlast⟩⟩
  · exact h.at_stage.goes turn (congrArg (· + 1) hline) hflags hturn
  · exact (stage'.counters_line t _).mpr hcounters

/-- A plan's line leads to its first phase. -/
theorem leads_scanPlan (h : Running s .plan) (ints : Nat → List Int) :
    Leads .plan s (scanPlan s ints) := by
  have hsame : ∃ timingType finalPhaseNo cycleLength, scanPlan s ints =
      { s with
        timingType := timingType
        finalPhaseNo := finalPhaseNo
        cycleLength := cycleLength
        timingPlanStart := false
        j := 1 } := by
    unfold scanPlan
    dsimp only
    split
    · exact ⟨_, _, _, rfl⟩
    · exact ⟨_, _, _, rfl⟩
  obtain ⟨timingType, finalPhaseNo, cycleLength, hscan⟩ := hsame
  rw [hscan]
  exact h.leads .phase (fun f => { f with timingPlanStart := false })
    ⟨rfl, rfl, fun _ => rfl, fun _ => rfl⟩ rfl rfl rfl h.m_pos ⟨h.counters, le_rfl, .inl rfl⟩
    (fun hpast => hpast.elim) (fun heq => Stage.noConfusion heq)

/-- Behind the last plan. -/
private theorem Running.leads_intervals {t : PhaseReader} (h : Running s .phase)
    (hkept : CountsKept .phase s t) (hline : t.line = s.line)
    (hflags : t.toFlags =
      { s.toFlags with
        timingPlanStart := false
        timingIntervalStart := true
        readPlansOnly := false
        endPlans := true }) (hpos : 1 ≤ t.m) : Leads .phase s t :=
  h.leads .intervals (fun f =>
      { f with
        timingPlanStart := false
        timingIntervalStart := true
        readPlansOnly := false
        endPlans := true }) hkept hline hflags rfl hpos trivial (fun hpast => hpast.elim)
    (fun heq => Stage.noConfusion heq)

/-- A phase's line leads to the next phase, the next plan or the intervals. -/
theorem leads_scanPhase (h : Running s .phase) (row : List Int × List ℚ) :
    Leads .phase s (scanPhase s row) := by
  obtain ⟨⟨hi, hplan⟩, hj, _⟩ := h.counters
  unfold scanPhase
  dsimp only
  by_cases hphase : (storePhase s row).j > (storePhase s row).noPhases
  · rw [if_pos hphase]
    dsimp only
    split
    · exact h.leads_intervals ⟨rfl, rfl, fun _ => rfl, fun _ => rfl⟩ rfl rfl h.m_pos
    · rename_i hmore
      have hnext : s.i + 1 ≤ s.noTimings := not_lt.mp hmore
      exact h.leads .plan (fun f => { f with timingPlanStart := true })
        ⟨rfl, rfl, fun _ => rfl, fun _ => rfl⟩ rfl rfl rfl h.m_pos
        ⟨Int.le_add_one hi, .inr hnext⟩ (fun hpast => hpast.elim) (fun heq => Stage.noConfusion heq)
  · rw [if_neg hphase]
    split
    · exact h.leads_intervals ⟨rfl, rfl, fun _ => rfl, fun _ => rfl⟩ rfl rfl h.m_pos
    · rename_i hmore
      have hnext : s.j + 1 ≤ s.noPhases := not_lt.mp hphase
      have hsame : s.i ≤ s.noTimings := not_lt.mp hmore
      exact h.leads .phase id ⟨rfl, rfl, fun _ => rfl, fun _ => rfl⟩ rfl rfl rfl h.m_pos
        ⟨⟨hi, hplan⟩, Int.le_add_one hj, .inr ⟨hnext, hsame⟩⟩ (fun hpast => hpast.elim)
        (fun heq => Stage.noConfusion heq)

/-- The number of intervals leads to the first of them, or to the sniffers. -/
theorem leads_scanIntervals (h : Running s .intervals) (vs : List Int) :
    Leads .intervals s (scanIntervals s vs) := by
  unfold scanIntervals
  dsimp only
  split
  · exact h.leads .interval
      (fun f => { f with timingIntervalStart := false, timingTableStart := true })
      ⟨rfl, rfl, fun hpast => hpast.elim, fun _ => rfl⟩ rfl rfl rfl h.m_pos
      ⟨le_rfl, .inl rfl⟩ (fun hpast => hpast.elim)
      (fun heq => Stage.noConfusion heq)
  · exact h.leads .sniffers
      (fun f => { f with timingIntervalStart := false, snifferStart := true })
      ⟨rfl, rfl, fun hpast => hpast.elim, fun _ => rfl⟩ rfl rfl rfl h.m_pos trivial
      (fun hpast => hpast.elim) (fun heq => Stage.noConfusion heq)

/-- An interval's line leads to the next, or to the sniffers. -/
theorem leads_scanInterval (h : Running s .interval) (vs : List Int) :
    Leads .interval s (scanInterval s vs) := by
  unfold scanInterval
  dsimp only
  split
  · exact h.leads .sniffers (fun f => { f with timingTableStart := false, snifferStart := true })
      ⟨rfl, rfl, fun _ => rfl, fun _ => rfl⟩ rfl rfl rfl h.m_pos trivial (fun _ => trivial)
      (fun heq => Stage.noConfusion heq)
  · rename_i hmore
    have hnext : s.k + 1 ≤ s.noIntervals := not_lt.mp hmore
    exact h.leads .interval id ⟨rfl, rfl, fun _ => rfl, fun _ => rfl⟩ rfl rfl rfl h.m_pos
      ⟨Int.le_add_one h.counters.1, .inr hnext⟩ (fun _ => trivial)
      (fun heq => Stage.noConfusion heq)

/-- Every stage's lines lead on so. -/
theorem leads_scan {stage : Stage} (h : Running s stage) (scan : ScannedLine) :
    Leads stage s (stage.scan s scan) := by
  cases stage with
  | plan => exact leads_scanPlan h scan.ints
  | phase => exact leads_scanPhase h scan.phase
  | intervals => exact leads_scanIntervals h (scan.ints 1)
  | interval => exact leads_scanInterval h (scan.ints 3)
  | sniffers =>
      exact h.leads .overlaps (fun f => { f with snifferStart := false, overlapStart := true })
        ⟨rfl, rfl, fun _ => rfl, fun _ => rfl⟩ rfl rfl rfl h.m_pos trivial (fun _ => trivial)
        (fun heq => Stage.noConfusion heq)
  | overlaps =>
      exact h.leads .overlap (fun f => { f with overlapStart := false })
        ⟨rfl, rfl, fun _ => rfl, fun heq => Stage.noConfusion heq⟩ rfl rfl rfl le_rfl trivial
        (fun _ => trivial) (fun _ => rfl)
  | overlap =>
      exact h.leads .overlap id ⟨rfl, rfl, fun _ => rfl, fun _ => rfl⟩ rfl rfl rfl
        (Int.le_add_one h.m_pos) trivial (fun _ => trivial) (fun _ => rfl)

end Leads

/-- The counts that bound a stage's counters. -/
def Stage.Fits (s : PhaseReader) : Stage → Prop
  | .plan => s.noTimings ≤ MAX_TIMINGS
  | .phase => s.noTimings ≤ MAX_TIMINGS ∧ (1 ≤ s.noTimings → s.noPhases ≤ MAX_APPROACHES)
  | .interval => s.noIntervals ≤ MAX_TIMINGS
  | .overlap => s.noOverlaps ≤ MAX_OVERLAPS
  | _ => True

section Runs

variable {s t : PhaseReader} {stage : Stage}

/-- If the counts at the end fit, those of every line on the way did. -/
theorem CountsKept.fits (h : CountsKept stage s t) (hcounts : CountsDeclared t)
    (hfit : TablesFit t) : stage.Fits s := by
  have hplans := hcounts.noTimings
  have hphases := hfit.noPhases
  rw [h.noTimings] at hplans hphases
  rw [h.noPhases] at hphases
  cases stage with
  | plan => exact hplans
  | phase => exact ⟨hplans, hphases⟩
  | intervals => trivial
  | interval =>
      have hintervals := hfit.noIntervals
      rw [h.noIntervals trivial] at hintervals
      exact hintervals
  | sniffers => trivial
  | overlaps => trivial
  | overlap =>
      have hoverlaps := hcounts.noOverlaps
      rw [h.noOverlaps rfl] at hoverlaps
      exact hoverlaps

/-- Counts kept by a line and then to the end. -/
theorem CountsKept.trans {stage' : Stage} {u : PhaseReader} (h : CountsKept stage s t)
    (h' : CountsKept stage' t u) (hpast : stage.PastIntervals → stage'.PastIntervals)
    (hlast : stage = .overlap → stage' = .overlap) : CountsKept stage s u where
  noPhases := h'.noPhases.trans h.noPhases
  noTimings := h'.noTimings.trans h.noTimings
  noIntervals := fun hs => (h'.noIntervals (hpast hs)).trans (h.noIntervals hs)
  noOverlaps := fun hs => (h'.noOverlaps (hlast hs)).trans (h.noOverlaps hs)

/-- Behind the second line the flags decide. -/
theorem lineAccesses_body (hbody : 2 < s.line) (scan : ScannedLine) :
    lineAccesses s scan =
      if s.timingPlanStart then planAccesses s scan.ints
      else if s.readPlansOnly then phaseAccesses s.i s.j
      else if s.timingIntervalStart then []
      else if s.timingTableStart then intervalAccesses s.k
      else if s.snifferStart then []
      else if s.overlapStart then []
      else overlapAccesses s.m := by
  unfold lineAccesses
  split
  all_goals first | rfl | omega

/-- A line's accesses are inside their bounds if the counts of its stage fit. -/
theorem lineAccesses_inBounds (h : Running s stage) (hfits : stage.Fits s) (scan : ScannedLine) :
    AllInBounds (lineAccesses s scan) := by
  have hplan := congrArg Flags.timingPlanStart h.at_stage.flags
  have hintervals := congrArg Flags.timingIntervalStart h.at_stage.flags
  have htable := congrArg Flags.timingTableStart h.at_stage.flags
  have honly := congrArg Flags.readPlansOnly h.at_stage.flags
  have hsniffer := congrArg Flags.snifferStart h.at_stage.flags
  have hoverlap := congrArg Flags.overlapStart h.at_stage.flags
  have hnone : AllInBounds [] := fun a ha => absurd ha List.not_mem_nil
  have hone : (1 : Int) ≤ MAX_TIMINGS := by decide
  rw [lineAccesses_body h.at_stage.body, hplan, hintervals, htable, honly, hsniffer, hoverlap]
  cases stage with
  | plan =>
      obtain ⟨hi, hle⟩ := h.counters
      refine planAccesses_inBounds ⟨by omega, ?_⟩ _
      rcases hle with heq | hle
      · exact heq.trans_le hone
      · exact hle.trans hfits
  | phase =>
      obtain ⟨⟨hi, hile⟩, hj, hjle⟩ := h.counters
      obtain ⟨htimings, hphases⟩ := hfits
      have happroaches : (1 : Int) ≤ MAX_APPROACHES := by decide
      refine phaseAccesses_inBounds ⟨by omega, ?_⟩ ⟨by omega, ?_⟩
      · rcases hile with heq | hle
        · exact heq.trans_le hone
        · exact hle.trans htimings
      · rcases hjle with heq | ⟨hle, hplans⟩
        · exact heq.trans_le happroaches
        · exact hle.trans (hphases (hi.trans hplans))
  | intervals => exact hnone
  | interval =>
      obtain ⟨hk, hkle⟩ := h.counters
      refine intervalAccesses_inBounds ⟨by omega, ?_⟩
      rcases hkle with heq | hle
      · exact heq.trans_le hone
      · exact hle.trans hfits
  | sniffers => exact hnone
  | overlaps => exact hnone
  | overlap =>
      have hm := h.m_pos
      exact overlapAccesses_inBounds ⟨by omega, h.m_le.trans hfits⟩

/-- **A run from any stage**: the counts read stay, and as far as the counts fit, the
accesses are inside their bounds. -/
theorem Running.run (h : Running s stage) (lines : List (List Char)) (log : List TableAccess) :
    CountsKept stage s (readLines loggedTurn lines (s, log)).1 ∧
      (CountsDeclared (readLines loggedTurn lines (s, log)).1 →
        TablesFit (readLines loggedTurn lines (s, log)).1 → AllInBounds log →
        AllInBounds (readLines loggedTurn lines (s, log)).2) := by
  induction lines generalizing s stage log with
  | nil => exact ⟨CountsKept.refl stage s, fun _ _ hlog => hlog⟩
  | cons line lines ih =>
      rw [readLines]
      split
      · exact ih h log
      · obtain ⟨hkept, hnext⟩ := leads_scan h (scanned line)
        have hturn := phaseTurn_at h.at_stage line
        have haccesses := fun hfits => lineAccesses_inBounds h hfits (scanned line)
        by_cases hend : (stage.scan s (scanned line)).m > (stage.scan s (scanned line)).noOverlaps
        · rw [if_pos hend] at hturn
          simp only [loggedTurn, hturn, if_true]
          refine ⟨hkept, fun hcounts hfit hlog => ?_⟩
          exact hlog.append (haccesses (hkept.fits hcounts hfit))
        · rw [if_neg hend] at hturn
          obtain ⟨stage', hrunning, hpast, hlast⟩ := hnext (not_lt.mp hend)
          obtain ⟨hrest, hinside⟩ := ih hrunning (log ++ lineAccesses s (scanned line))
          simp only [loggedTurn, hturn, Bool.false_eq_true, if_false]
          have hall := hkept.trans ⟨hrest.noPhases, hrest.noTimings, hrest.noIntervals,
            hrest.noOverlaps⟩ hpast hlast
          refine ⟨hall, fun hcounts hfit hlog => ?_⟩
          exact hinside hcounts hfit (hlog.append (haccesses (hall.fits hcounts hfit)))

end Runs

/-! ## From the first line -/

/-- The reader at the first two lines. -/
structure Beginning (s : PhaseReader) : Prop where
  m_eq : s.m = 1
  noOverlaps : s.noOverlaps = 100
  flags : s.toFlags = Stage.phase.flags

/-- From here the lines make no access out of bounds, if the counts they leave allow it. -/
def ReadsInside (s : PhaseReader) (lines : List (List Char)) : Prop :=
  CountsDeclared (readLines loggedTurn lines (s, [])).1 →
    TablesFit (readLines loggedTurn lines (s, [])).1 →
      AllInBounds (readLines loggedTurn lines (s, [])).2

/-- A line that indexes no table only leads on, and so do the comments before it. -/
theorem readsInside_of_quiet {s : PhaseReader}
    (hquiet : ∀ text, ∃ t, phaseTurn s text = (t, false) ∧ lineAccesses s (scanned text) = [] ∧
      ∀ lines, ReadsInside t lines) (lines : List (List Char)) : ReadsInside s lines := by
  induction lines with
  | nil => exact fun _ _ a ha => absurd ha List.not_mem_nil
  | cons text lines ih =>
      unfold ReadsInside
      rw [readLines]
      split
      · exact ih
      · obtain ⟨t, hturn, hnone, hrest⟩ := hquiet text
        simp only [loggedTurn, hturn, hnone, Bool.false_eq_true, if_false]
        exact hrest lines

section Beginning

variable {s : PhaseReader}

/-- The first two lines are not the last. -/
theorem Beginning.goes (h : Beginning s) : ¬ s.m > s.noOverlaps := by
  rw [h.m_eq, h.noOverlaps]
  decide

/-- From the second line on the reader stays in its tables. -/
theorem Beginning.second_line (h : Beginning s) (hline : s.line = 2) (lines : List (List Char)) :
    ReadsInside s lines := by
  refine readsInside_of_quiet (fun text => ?_) lines
  let t : PhaseReader :=
    { s with
      noTimings := ((scanned text).ints 1).getD 0 s.noTimings
      i := 1
      timingPlanStart := true
      line := 3 }
  have hrunning : Running t .plan := by
    refine ⟨⟨Nat.lt_succ_self 2, ?_⟩, h.m_eq.ge, not_lt.mp h.goes, le_rfl, Or.inl rfl⟩
    change { s.toFlags with timingPlanStart := true } = _
    rw [h.flags]
    rfl
  refine ⟨t, ?_, ?_, fun lines hcounts hfit => ?_⟩
  · simp only [phaseTurn, scanPhaseLine, hline]
    exact if_neg h.goes
  · simp only [lineAccesses, hline]
  · exact (hrunning.run lines []).2 hcounts hfit fun a ha => absurd ha List.not_mem_nil

/-- So it does from the first. -/
theorem Beginning.first_line (h : Beginning s) (hline : s.line = 1) (lines : List (List Char)) :
    ReadsInside s lines := by
  refine readsInside_of_quiet (fun text => ?_) lines
  let t : PhaseReader :=
    { s with
      noPhases := ((scanned text).ints 1).getD 0 s.noPhases
      line := 2 }
  have hbeginning : Beginning t := ⟨h.m_eq, h.noOverlaps, h.flags⟩
  refine ⟨t, ?_, ?_, hbeginning.second_line rfl⟩
  · simp only [phaseTurn, scanPhaseLine, hline]
    exact if_neg h.goes
  · simp only [lineAccesses, hline]

end Beginning

/-- Keeping what is indexed changes nothing. -/
theorem readLines_loggedTurn (lines : List (List Char)) (s : PhaseReader) (log : List TableAccess) :
    (readLines loggedTurn lines (s, log)).1 = readLines phaseTurn lines s := by
  induction lines generalizing s log with
  | nil => rfl
  | cons line lines ih =>
      rw [readLines, readLines]
      split
      · exact ih s log
      · dsimp only
        by_cases hlast : (phaseTurn s line).2 = true
        · have hlogged : (loggedTurn (s, log) line).2 = true := hlast
          rw [if_pos hlast, if_pos hlogged]
          rfl
        · have hlogged : ¬ (loggedTurn (s, log) line).2 = true := hlast
          rw [if_neg hlast, if_neg hlogged]
          exact ih _ _

/-- **The tables of `phase.cfg`**: for counts within the declared maxima, every access made
while any file is read and its configuration echoed is inside its table exactly if there are
no more than `MAX_TIMINGS` intervals, and no more than `MAX_APPROACHES` phases unless there
are no plans. -/
theorem phaseConfigAccesses_inBounds_iff (uninitialised : PhaseReader) (file : List Char)
    (hcounts : CountsDeclared (readPhaseConfig uninitialised file)) :
    AllInBounds (phaseConfigAccesses uninitialised file) ↔
      TablesFit (readPhaseConfig uninitialised file) := by
  have hsame : (readLines loggedTurn (fileLines 100 file) (startPhases uninitialised, [])).1 =
      readPhaseConfig uninitialised file := readLines_loggedTurn _ _ _
  rw [← hsame] at hcounts ⊢
  constructor
  · intro h
    exact (echoAccesses_inBounds_iff hcounts).mp fun a ha => h a (List.mem_append_right _ ha)
  · intro hfit
    have hbeginning : Beginning (startPhases uninitialised) := ⟨rfl, rfl, rfl⟩
    have hread := hbeginning.first_line rfl (fileLines 100 file) hcounts hfit
    exact hread.append ((echoAccesses_inBounds_iff hcounts).mpr hfit)

/-- The counts that the reader ends with are those of the configuration in the file. -/
theorem countsDeclared_of_holds {s : PhaseReader} {c : PhaseFile} (h : s.Holds c)
    (hphases : (c.noPhases : Int) ≤ MAX_PHASES) (hplans : c.plans.length ≤ MAX_TIMINGS)
    (hintervals : c.intervals.length ≤ MAX_INTERVALS)
    (hoverlaps : c.overlaps.length ≤ MAX_OVERLAPS) :
    CountsDeclared s where
  noPhases := h.intervals.plans.noPhases.trans_le hphases
  noTimings := h.intervals.plans.noTimings.trans_le (by exact_mod_cast hplans)
  noIntervals := h.intervals.noIntervals.trans_le (by exact_mod_cast hintervals)
  noOverlaps := h.noOverlaps.trans_le (by exact_mod_cast hoverlaps)

/-- The reader recovers the configuration of one actuated plan. -/
theorem holds_actuated {intervals : List IntervalEntry}
    (hints : ∀ row ∈ (actuatedFile intervals).rows, ∀ f ∈ row, f.FitsInt)
    (hfit : (actuatedLines intervals).all (fitsLine 100) = true) :
    (readPhaseConfig blankPhases (actuatedText intervals)).Holds (actuatedFile intervals) := by
  obtain ⟨t, hread, hholds⟩ := readsToEnd_rows (valid_actuated hints) blankPhases
  rw [readPhaseConfig, readLines_readsToEnd hread (inFile_actuated hfit)]
  exact hholds

/-- Its counts are within the maxima. -/
theorem countsDeclared_actuated {intervals : List IntervalEntry}
    (hints : ∀ row ∈ (actuatedFile intervals).rows, ∀ f ∈ row, f.FitsInt)
    (hfit : (actuatedLines intervals).all (fitsLine 100) = true)
    (hintervals : intervals.length ≤ MAX_INTERVALS) :
    CountsDeclared (readPhaseConfig blankPhases (actuatedText intervals)) := by
  have hone : (1 : Int) ≤ MAX_PHASES ∧ 1 ≤ MAX_TIMINGS ∧ 1 ≤ MAX_OVERLAPS := by decide
  exact countsDeclared_of_holds (holds_actuated hints hfit) hone.1 hone.2.1 hintervals hone.2.2

/-- With one interval the reader stays in its tables as far as they fit. -/
theorem phaseConfigAccesses_actuated :
    AllInBounds (phaseConfigAccesses blankPhases (actuatedText [⟨6, 45, 1⟩])) ↔
      TablesFit (readPhaseConfig blankPhases (actuatedText [⟨6, 45, 1⟩])) :=
  phaseConfigAccesses_inBounds_iff _ _ (countsDeclared_actuated (by decide) (by decide) (by decide))

/-- The six intervals of Page Mill Road. -/
def pageIntervals : List IntervalEntry :=
  [⟨6, 45, 2⟩, ⟨7, 30, 1⟩, ⟨9, 30, 2⟩, ⟨15, 0, 1⟩, ⟨19, 0, 2⟩, ⟨21, 0, 1⟩]

/-- They are within `MAX_INTERVALS`, but the sixth start is behind the end of its table. -/
theorem phaseConfigAccesses_not_always :
    ¬ ∀ (uninitialised : PhaseReader) (file : List Char),
      CountsDeclared (readPhaseConfig uninitialised file) →
        AllInBounds (phaseConfigAccesses uninitialised file) := by
  intro h
  have hfile : (actuatedLines pageIntervals).all (fitsLine 100) = true := by decide
  have hints : ∀ row ∈ (actuatedFile pageIntervals).rows, ∀ f ∈ row, f.FitsInt := by decide
  have hcounts := countsDeclared_actuated hints hfile (by decide)
  have hholds := holds_actuated hints hfile
  have hsame : (readLines loggedTurn (fileLines 100 (actuatedText pageIntervals))
      (startPhases blankPhases, [])).1 = readPhaseConfig blankPhases (actuatedText pageIntervals) :=
    readLines_loggedTurn _ _ _
  have hecho : AllInBounds
      (echoAccesses (readPhaseConfig blankPhases (actuatedText pageIntervals))) := by
    rw [← hsame]
    exact fun a ha => h blankPhases _ hcounts a (List.mem_append_right _ ha)
  have hfit := ((echoAccesses_inBounds_iff hcounts).mp hecho).noIntervals
  rw [hholds.intervals.noIntervals] at hfit
  exact absurd hfit (by decide)

end RfsAtsc.Phases
