import RfsAtsc.PhasesLoop
import Mathlib.Tactic.Linarith

/-!
# Decoding from green only

One turn of the main loop, for one phase of the plan, when the record's source gives
green only.  The phase's row of the plan is the last that lists it.  What the turn
makes of its colour and of the start of its yellow depends on its green bit, on the
green of the turn before and on the clock.
-/

namespace RfsAtsc.Phases

/-! ## One phase -/

/-- What the decoder keeps of one phase. -/
structure PhaseEntry where
  green : Int
  startYellow : ℚ
  signalColor : Int

def PhasesState.entry (s : PhasesState) (phase : Int) : PhaseEntry :=
  { green := s.green phase, startYellow := s.startYellow phase,
    signalColor := s.signalColor phase }

/-- `start_yellow` after a turn without green: unknown if no turn came before, and now if
that had green. -/
def yellowStart (timeSec : ℚ) (oldGreen : Int) (start : ℚ) : ℚ :=
  if oldGreen = -1 then -1 else if oldGreen ≠ 0 then timeSec else start

/-- The colour without green, for a yellow of the given start and length. -/
def offColor (timeSec start yellowLength : ℚ) : Int :=
  if start = -1 then SIGNAL_STATE_UNKNOWN
  else if timeSec - start ≤ yellowLength then SIGNAL_STATE_YELLOW
  else SIGNAL_STATE_RED

/-- What a turn makes of a phase. -/
def decodedEntry (bit : Int) (timeSec : ℚ) (oldGreen : Int) (start yellowLength : ℚ) :
    PhaseEntry :=
  if bit = 1 then { green := 1, startYellow := start, signalColor := SIGNAL_STATE_GREEN }
  else
    { green := 0
      startYellow := yellowStart timeSec oldGreen start
      signalColor := offColor timeSec (yellowStart timeSec oldGreen start) yellowLength }

/-- A second row for the phase starts no other yellow. -/
theorem yellowStart_yellowStart (timeSec : ℚ) (oldGreen : Int) (start : ℚ) :
    yellowStart timeSec oldGreen (yellowStart timeSec oldGreen start) =
      yellowStart timeSec oldGreen start := by
  unfold yellowStart
  by_cases hfirst : oldGreen = -1
  · rw [if_pos hfirst, if_pos hfirst]
  · rw [if_neg hfirst, if_neg hfirst]
    by_cases hgreen : oldGreen ≠ 0
    · rw [if_pos hgreen, if_pos hgreen]
    · rw [if_neg hgreen, if_neg hgreen]

/-! ## What a row leaves alone -/

/-- The same clocks, the same greens and source of the record, and the same greens of the
turn before. -/
structure SameInputs (s t : PhasesState) : Prop where
  currTime : t.currTime = s.currTime
  timeSec : t.timeSec = s.timeSec
  oldGreen : t.oldGreen = s.oldGreen
  greens : t.atsc.phaseStatusGreens = s.atsc.phaseStatusGreens
  infoSource : t.atsc.infoSource = s.atsc.infoSource

/-- The inputs stay over two steps if they stay over each. -/
theorem SameInputs.trans {s t u : PhasesState} (hst : SameInputs s t) (htu : SameInputs t u) :
    SameInputs s u where
  currTime := htu.currTime.trans hst.currTime
  timeSec := htu.timeSec.trans hst.timeSec
  oldGreen := htu.oldGreen.trans hst.oldGreen
  greens := htu.greens.trans hst.greens
  infoSource := htu.infoSource.trans hst.infoSource

/-- Decoding leaves the inputs alone. -/
theorem Redecoded.sameInputs {s t : PhasesState} (h : Redecoded s t) : SameInputs s t := by
  rw [h]
  exact ⟨rfl, rfl, rfl, rfl, rfl⟩

/-- The green bit of a phase is read. -/
def readGreen (s : PhasesState) (phaseNum : Int) : PhasesState :=
  { s with
    green := Function.update s.green phaseNum
      (atscPhaseIsSet s.atsc.phaseStatusGreens phaseNum) }

/-- What is kept of a phase is the same. -/
def SameEntry (phase : Int) (s t : PhasesState) : Prop := t.entry phase = s.entry phase

/-- An entry stays over two steps if it stays over each. -/
theorem SameEntry.trans {phase : Int} {s t u : PhasesState} (hst : SameEntry phase s t)
    (htu : SameEntry phase t u) : SameEntry phase s u :=
  Eq.trans htu hst

/-- And in a branch if it stays in both. -/
theorem SameEntry.ite {phase : Int} {s t u : PhasesState} {c : Prop} [Decidable c]
    (ht : SameEntry phase s t) (hu : SameEntry phase s u) :
    SameEntry phase s (if c then t else u) := by
  split
  · exact ht
  · exact hu

/-- The begin of another phase's yellow leaves the entry alone. -/
theorem beginYellow_other (plan : TimingPlan) (s : PhasesState) {phase phaseNum : Int}
    (hne : phase ≠ phaseNum) : SameEntry phase s (beginYellow plan s phaseNum) := by
  refine .ite ?_ rfl
  simp only [SameEntry, PhasesState.entry, Function.update_of_ne hne]

/-- And so does what another phase does behind its green. -/
theorem decodeGreenOff_other (plan : TimingPlan) (s : PhasesState) {phase phaseNum : Int}
    (hne : phase ≠ phaseNum) (i : Int) : SameEntry phase s (decodeGreenOff plan s phaseNum i) := by
  refine .ite ?_ (.ite ?_ (.ite ?_ ?_))
  all_goals simp only [SameEntry, PhasesState.entry, Function.update_of_ne hne]

/-- A row leaves the other phases alone. -/
theorem decodeGreenOnly_other (plan : TimingPlan) (s : PhasesState) {phase phaseNum : Int}
    (hne : phase ≠ phaseNum) (i : Int) :
    SameEntry phase s (decodeGreenOnly plan s phaseNum i) := by
  have hread : SameEntry phase s (readGreen s phaseNum) := by
    simp only [SameEntry, readGreen, PhasesState.entry, Function.update_of_ne hne]
  refine .ite ?_ (.ite ?_ hread)
  · simp only [SameEntry, PhasesState.entry, Function.update_of_ne hne]
  · refine SameEntry.trans ?_ (decodeGreenOff_other plan _ hne i)
    exact hread.trans (beginYellow_other plan _ hne)

/-! ## What a row does for its own phase -/

/-- A phase without green notes the begin of its yellow in the turn after green, and later keeps
it. -/
theorem beginYellow_self (plan : TimingPlan) (s : PhasesState) {phase : Int}
    (hgreen : s.green phase = 0) :
    (beginYellow plan s phase).green phase = 0 ∧
      ((beginYellow plan s phase).startYellow phase =
        if s.oldGreen phase ≠ 0 ∧ s.oldGreen phase ≠ -1 then s.timeSec
        else s.startYellow phase) := by
  unfold beginYellow
  rw [hgreen]
  by_cases hbegins : s.oldGreen phase ≠ 0 ∧ s.oldGreen phase ≠ -1
  · rw [if_pos ⟨hbegins.1.symm, hbegins.2⟩, if_pos hbegins]
    exact ⟨hgreen, Function.update_self _ _ _⟩
  · rw [if_neg fun h => hbegins ⟨h.1.symm, h.2⟩, if_neg hbegins]
    exact ⟨hgreen, rfl⟩

/-- Without green the yellow's start is known or not, and the colour goes by it. -/
theorem decodeGreenOff_entry (plan : TimingPlan) (s : PhasesState) (phase i : Int) :
    (decodeGreenOff plan s phase i).entry phase =
      { green := s.green phase
        startYellow := if s.oldGreen phase = -1 then -1 else s.startYellow phase
        signalColor := if s.oldGreen phase = -1 then SIGNAL_STATE_UNKNOWN
          else offColor s.timeSec (s.startYellow phase) (plan.yellowLength i) } := by
  unfold decodeGreenOff PhasesState.entry offColor
  by_cases hfirst : s.oldGreen phase = -1
  · simp only [hfirst, true_or, if_true, Function.update_self]
  · by_cases hunknown : s.startYellow phase = -1
    · simp only [hfirst, hunknown, or_true, if_true, if_false, Function.update_self]
    · by_cases hyellow : s.timeSec - s.startYellow phase ≤ plan.yellowLength i
      · simp only [hfirst, hunknown, hyellow, or_self, if_true, if_false, Function.update_self]
      · simp only [hfirst, hunknown, hyellow, or_self, if_false, Function.update_self]
        split
        · simp only [Function.update_self]
        · simp only [Function.update_self]

/-- A row decodes its own phase. -/
theorem decodeGreenOnly_entry (plan : TimingPlan) (s : PhasesState) (phase i : Int)
    (hbit : atscPhaseIsSet s.atsc.phaseStatusGreens phase = 1 ∨
      atscPhaseIsSet s.atsc.phaseStatusGreens phase = 0) :
    (decodeGreenOnly plan s phase i).entry phase =
      decodedEntry (atscPhaseIsSet s.atsc.phaseStatusGreens phase) s.timeSec (s.oldGreen phase)
        (s.startYellow phase) (plan.yellowLength i) := by
  unfold decodeGreenOnly decodedEntry
  simp only [Function.update_self]
  rcases hbit with hset | hclear
  · rw [hset, if_pos rfl, if_pos rfl]
    simp only [PhasesState.entry, Function.update_self]
  · rw [hclear, if_neg (by decide), if_pos rfl, if_neg (by decide)]
    let read : PhasesState := { s with green := Function.update s.green phase 0 }
    have hbegin := beginYellow_self plan read (Function.update_self phase 0 s.green)
    have hsame := (beginYellow_redecoded plan read phase).sameInputs
    have hentry := decodeGreenOff_entry plan (beginYellow plan read phase) phase i
    rw [hbegin.1, hbegin.2, hsame.oldGreen, hsame.timeSec] at hentry
    rw [hentry]
    unfold yellowStart
    by_cases hfirst : s.oldGreen phase = -1
    · simp only [read, hfirst, if_true, offColor]
    · by_cases hoff : s.oldGreen phase = 0
      · simp only [read, hoff, ne_eq, not_true_eq_false, false_and, if_false]
        rfl
      · simp only [read, hfirst, hoff, ne_eq, not_false_eq_true, and_self, if_true, if_false]

/-! ## The whole decoder -/

/-- The last of some rows that lists the phase, or `jj`. -/
def TimingPlan.findRowIn (plan : TimingPlan) (phase : Int) (is : List Int) (jj : Int) : Int :=
  is.foldl (fun jj j => if plan.phaseIndex j = phase then j else jj) jj

/-- The row of a phase is the last that lists it. -/
def TimingPlan.yellowOf (plan : TimingPlan) (phase : Int) : ℚ :=
  plan.yellowLength (plan.findRow phase 0)

/-- With greens alone there is one way to decode a row. -/
theorem decodeRow_greenOnly {cfg : PhasesConfig} {s : PhasesState}
    (hsource : GreenOnly cfg s.atsc.infoSource) (i : Int) :
    decodeRow cfg s i = decodeGreenOnly cfg.plan s (cfg.plan.phaseIndex i) i := by
  have hntcip : ¬ s.atsc.infoSource = ATSC_SOURCE_NTCIP := by
    rcases hsource with ⟨hsniff, _⟩ | habs
    · rw [hsniff]
      decide
    · rw [habs]
      decide
  have hyellow : ¬ (s.atsc.infoSource = ATSC_SOURCE_SNIFF ∧ cfg.sniffGreen = 1 ∧
      cfg.sniffYellow = 1) := by
    intro h
    rcases hsource with ⟨_, _, hnone⟩ | habs
    · rw [h.2.2] at hnone
      exact absurd hnone (by decide)
    · rw [h.1] at habs
      exact absurd habs (by decide)
  unfold decodeRow
  rw [if_neg hntcip, if_neg hyellow, if_pos hsource]

/-- What the rows so far have done to a phase. -/
structure RowsDone (cfg : PhasesConfig) (phase : Int) (s t : PhasesState) (is : List Int) :
    Prop where
  untouched : (∀ i ∈ is, cfg.plan.phaseIndex i ≠ phase) → t.entry phase = s.entry phase
  decoded : (∃ i ∈ is, cfg.plan.phaseIndex i = phase) →
    t.entry phase = decodedEntry (atscPhaseIsSet s.atsc.phaseStatusGreens phase) s.timeSec
      (s.oldGreen phase) (s.startYellow phase)
      (cfg.plan.yellowLength (cfg.plan.findRowIn phase is 0))

/-- A second row for the phase only brings its own length. -/
theorem decodedEntry_again (bit : Int) (timeSec : ℚ) (oldGreen : Int)
    (start yellowLength other : ℚ) :
    decodedEntry bit timeSec oldGreen
        (decodedEntry bit timeSec oldGreen start other).startYellow yellowLength =
      decodedEntry bit timeSec oldGreen start yellowLength := by
  unfold decodedEntry
  split
  · rfl
  · simp only [yellowStart_yellowStart]

/-- After some rows those phases that they list are decoded, and the others as they were. -/
theorem rowsDone {cfg : PhasesConfig} {phase : Int} {s : PhasesState}
    (hsource : GreenOnly cfg s.atsc.infoSource)
    (hbit : atscPhaseIsSet s.atsc.phaseStatusGreens phase = 1 ∨
      atscPhaseIsSet s.atsc.phaseStatusGreens phase = 0) (is : List Int) :
    RowsDone cfg phase s (is.foldl (decodeRow cfg) s) is := by
  induction is using List.reverseRecOn with
  | nil => exact ⟨fun _ => rfl, fun h => absurd h (by simp)⟩
  | append_singleton is i ih =>
      rw [List.foldl_append, List.foldl_cons, List.foldl_nil]
      have hsame := (decodeRows_redecoded cfg is s).sameInputs
      generalize is.foldl (decodeRow cfg) s = t at ih hsame ⊢
      obtain ⟨huntouched, hdecoded⟩ := ih
      have hsource' : GreenOnly cfg t.atsc.infoSource := by
        rw [hsame.infoSource]
        exact hsource
      rw [decodeRow_greenOnly hsource']
      have hfind : cfg.plan.findRowIn phase (is ++ [i]) 0 =
          if cfg.plan.phaseIndex i = phase then i else cfg.plan.findRowIn phase is 0 := by
        simp only [TimingPlan.findRowIn, List.foldl_append, List.foldl_cons, List.foldl_nil]
      refine ⟨?_, ?_⟩
      · intro hnone
        have hother := decodeGreenOnly_other cfg.plan t (hnone i (by simp)).symm i
        exact Eq.trans hother (huntouched fun j hj => hnone j (List.mem_append_left _ hj))
      · intro hsome
        rw [hfind]
        by_cases hrow : cfg.plan.phaseIndex i = phase
        · have hentry := decodeGreenOnly_entry cfg.plan t phase i
            (by rw [hsame.greens]; exact hbit)
          have hstart : t.startYellow phase = (t.entry phase).startYellow := rfl
          rw [hrow, if_pos rfl, hentry, hsame.greens, hsame.timeSec, hsame.oldGreen, hstart]
          by_cases hbefore : ∃ j ∈ is, cfg.plan.phaseIndex j = phase
          · rw [hdecoded hbefore]
            exact decodedEntry_again _ _ _ _ _ _
          · rw [huntouched fun j hj hlists => hbefore ⟨j, hj, hlists⟩]
            rfl
        · have hother := decodeGreenOnly_other cfg.plan t (Ne.symm hrow) i
          obtain ⟨j, hj, hlists⟩ := hsome
          rcases List.mem_append.mp hj with hj | hj
          · rw [if_neg hrow]
            exact Eq.trans hother (hdecoded ⟨j, hj, hlists⟩)
          · rw [List.mem_singleton.mp hj] at hlists
            exact absurd hlists hrow

/-- The decoder, for a phase that the plan lists. -/
theorem decode_spec {cfg : PhasesConfig} {phase : Int} {s : PhasesState}
    (hsource : GreenOnly cfg s.atsc.infoSource)
    (hbit : atscPhaseIsSet s.atsc.phaseStatusGreens phase = 1 ∨
      atscPhaseIsSet s.atsc.phaseStatusGreens phase = 0)
    (hlisted : ∃ i ∈ upTo cfg.plan.noPhases, cfg.plan.phaseIndex i = phase) :
    (decode cfg s).entry phase =
      decodedEntry (atscPhaseIsSet s.atsc.phaseStatusGreens phase) s.timeSec
        (s.oldGreen phase) (s.startYellow phase) (cfg.plan.yellowOf phase) :=
  (rowsDone hsource hbit (upTo cfg.plan.noPhases)).decoded hlisted

/-! ## The rest of the turn -/

/-- Nothing of the decoder's changes, but perhaps the colours of other phases. -/
structure SameDecoding (phase : Int) (s t : PhasesState) : Prop where
  inputs : SameInputs s t
  entry : SameEntry phase s t

/-- The countdown leaves the decoding alone. -/
theorem countdown_sameDecoding (plan : TimingPlan) (phase : Int) (s : PhasesState) :
    SameDecoding phase s (countdown plan s) := by
  rw [countdown_recounted plan s]
  exact ⟨⟨rfl, rfl, rfl, rfl, rfl⟩, rfl⟩

/-- A colour that is not the overlap's own. -/
def SameColor (phase : Int) (v w : Signals) : Prop := w.signalColor phase = v.signalColor phase

/-- A colour that both branches keep is kept. -/
theorem SameColor.ite {phase : Int} {u v w : Signals} {c : Prop} [Decidable c]
    (hv : SameColor phase u v) (hw : SameColor phase u w) :
    SameColor phase u (if c then v else w) := by
  split
  · exact hv
  · exact hw

/-- To show another phase's colour keeps it. -/
theorem show_sameColor {phase other : Int} (hne : phase ≠ other) {u v : Signals}
    (hv : SameColor phase u v) (color : Int) (left : ℚ) :
    SameColor phase u (v.show other color left) := by
  have hother : (v.show other color left).signalColor phase = v.signalColor phase := by
    simp only [Signals.show, Function.update_of_ne hne]
  exact hother.trans hv

/-- So an overlap keeps it unless the phase is its own. -/
theorem overlapTurn_sameColor (cfg : PhasesConfig) {phase : Int} (timeSec : ℚ) (v : Signals)
    {i : Int} (hne : phase ≠ (cfg.overlap i).overlapPhase) :
    SameColor phase v (overlapTurn cfg timeSec v i) := by
  have hcolor : SameColor phase v (overlapColor cfg.plan (cfg.overlap i) timeSec v i) := by
    refine .ite ?_ (.ite ?_ (.ite (.ite (.ite ?_ ?_) ?_) (.ite ?_ ?_)))
    all_goals refine show_sameColor hne ?_ _ _
    · rfl
    · exact .ite rfl rfl
    · exact .ite rfl rfl
    · exact .ite rfl rfl
    · rfl
    · exact .ite rfl rfl
    · rfl
  have hkept : SameColor phase v
      { overlapColor cfg.plan (cfg.overlap i) timeSec v i with
        oldParentColor1 := Function.update
          (overlapColor cfg.plan (cfg.overlap i) timeSec v i).oldParentColor1 i
          ((overlapColor cfg.plan (cfg.overlap i) timeSec v i).signalColor
            (cfg.overlap i).parentPhase1)
        oldParentColor2 := Function.update
          (overlapColor cfg.plan (cfg.overlap i) timeSec v i).oldParentColor2 i
          ((overlapColor cfg.plan (cfg.overlap i) timeSec v i).signalColor
            (cfg.overlap i).parentPhase2) } := hcolor
  exact .ite (show_sameColor hne hkept _ _) hkept

/-- And the loop keeps it for a phase that is none of the overlaps'. -/
theorem overlapLoop_sameColor (cfg : PhasesConfig) {phase : Int} (timeSec : ℚ) (v : Signals)
    (hne : ∀ i ∈ upTo cfg.noOverlaps, phase ≠ (cfg.overlap i).overlapPhase) :
    SameColor phase v (overlapLoop cfg timeSec v) := by
  unfold overlapLoop
  generalize upTo cfg.noOverlaps = is at hne ⊢
  induction is generalizing v with
  | nil => rfl
  | cons i is ih =>
      have hturn := overlapTurn_sameColor cfg timeSec v (hne i List.mem_cons_self)
      exact Eq.trans (ih _ fun j hj => hne j (List.mem_cons_of_mem _ hj)) hturn

/-- Keeping the inputs does not change them. -/
theorem keepOldRow_green (plan : TimingPlan) (is : List Int) (s : PhasesState) :
    (is.foldl (keepOldRow plan) s).green = s.green := by
  induction is generalizing s with
  | nil => rfl
  | cons i is ih => exact ih (keepOldRow plan s i)

/-- And a phase that a row lists has its input kept. -/
theorem keepOldRow_oldGreen (plan : TimingPlan) {phase : Int} {is : List Int} (s : PhasesState)
    (hlisted : ∃ i ∈ is, plan.phaseIndex i = phase) :
    (is.foldl (keepOldRow plan) s).oldGreen phase = s.green phase := by
  induction is using List.reverseRecOn with
  | nil => exact absurd hlisted (by simp)
  | append_singleton is i ih =>
      rw [List.foldl_append, List.foldl_cons, List.foldl_nil, keepOldRow]
      by_cases hrow : plan.phaseIndex i = phase
      · simp only [hrow, Function.update_self]
        rw [keepOldRow_green]
      · simp only [Function.update_of_ne (Ne.symm hrow)]
        obtain ⟨j, hj, hlists⟩ := hlisted
        rcases List.mem_append.mp hj with hj | hj
        · exact ih ⟨j, hj, hlists⟩
        · rw [List.mem_singleton.mp hj] at hlists
          exact absurd hlists hrow

/-- Nothing else of the decoder's changes. -/
theorem keepOld_frame (plan : TimingPlan) (phase : Int) (s : PhasesState) :
    (keepOld plan s).entry phase = s.entry phase ∧ (keepOld plan s).currTime = s.currTime ∧
      (keepOld plan s).timeSec = s.timeSec ∧ (keepOld plan s).atsc = s.atsc := by
  unfold keepOld
  induction upTo plan.noPhases generalizing s with
  | nil => exact ⟨rfl, rfl, rfl, rfl⟩
  | cons i is ih => exact ih (keepOldRow plan s i)

/-! ## One turn -/

/-- A phase of the plan: numbered as the controllers do, and no overlap's own. -/
structure PlanPhase (cfg : PhasesConfig) (phase : Int) : Prop where
  listed : ∃ i ∈ upTo cfg.plan.noPhases, cfg.plan.phaseIndex i = phase
  low : 1 ≤ phase
  high : phase ≤ MAX_PHASES
  notOverlap : ∀ i ∈ upTo cfg.noOverlaps, phase ≠ (cfg.overlap i).overlapPhase

/-- The clocks are brought up to date together, whatever the source. -/
theorem phasesStep_clocks (cfg : PhasesConfig) {s : PhasesState} (hclocks : s.timeSec = s.currTime)
    (e : LoopEvent) :
    (receive s e).timeSec = e.clock ∧ (phasesStep cfg s e).1.timeSec = e.clock ∧
      (phasesStep cfg s e).1.currTime = e.clock := by
  have hreceive : (receive s e).timeSec = s.timeSec + (e.clock - s.currTime) ∧
      (receive s e).currTime = e.clock := by
    unfold receive
    cases e.trigger
    all_goals exact ⟨rfl, rfl⟩
  have htime : (receive s e).timeSec = e.clock := by
    rw [hreceive.1, hclocks, add_sub_cancel]
  have hsame := (decodeRows_redecoded cfg (upTo cfg.plan.noPhases) (receive s e)).sameInputs.trans
    (countdown_sameDecoding cfg.plan 0 (decode cfg (receive s e))).inputs
  obtain ⟨_, hcurr, hsec, _⟩ := keepOld_frame cfg.plan 0
    { countdown cfg.plan (decode cfg (receive s e)) with
      toSignals := overlapLoop cfg (countdown cfg.plan (decode cfg (receive s e))).timeSec
        (countdown cfg.plan (decode cfg (receive s e))).toSignals }
  exact ⟨htime, (hsec.trans hsame.timeSec).trans htime,
    (hcurr.trans hsame.currTime).trans hreceive.2⟩

/-- A turn has decoded a phase. -/
structure Decoded (cfg : PhasesConfig) (phase : Int) (s t : PhasesState) : Prop where
  greens : t.atsc.phaseStatusGreens = s.atsc.phaseStatusGreens
  infoSource : t.atsc.infoSource = s.atsc.infoSource
  entry : t.entry phase =
    decodedEntry (atscPhaseIsSet s.atsc.phaseStatusGreens phase) s.timeSec (s.oldGreen phase)
      (s.startYellow phase) (cfg.plan.yellowOf phase)
  oldGreen : t.oldGreen phase = (t.entry phase).green

/-- One turn of the main loop, from what it has received, for a record that gives green
only. -/
theorem phasesStep_decoded {cfg : PhasesConfig} {phase : Int} (hphase : PlanPhase cfg phase)
    {s : PhasesState} {e : LoopEvent} (hsource : GreenOnly cfg (receive s e).atsc.infoSource) :
    Decoded cfg phase (receive s e) (phasesStep cfg s e).1 := by
  have hbit := atscPhaseIsSet_eq_one_or_zero (receive s e).atsc.phaseStatusGreens hphase.low
    hphase.high
  have hdecodeEntry := decode_spec hsource hbit hphase.listed
  have hcountdown := countdown_sameDecoding cfg.plan phase (decode cfg (receive s e))
  have hcolor := overlapLoop_sameColor cfg
    (countdown cfg.plan (decode cfg (receive s e))).timeSec
    (countdown cfg.plan (decode cfg (receive s e))).toSignals hphase.notOverlap
  let overlapped : PhasesState :=
    { countdown cfg.plan (decode cfg (receive s e)) with
      toSignals := overlapLoop cfg (countdown cfg.plan (decode cfg (receive s e))).timeSec
        (countdown cfg.plan (decode cfg (receive s e))).toSignals }
  obtain ⟨hkept, _, _, hatsc⟩ := keepOld_frame cfg.plan phase overlapped
  have hold := keepOldRow_oldGreen cfg.plan overlapped hphase.listed
  have hsame := (decodeRows_redecoded cfg (upTo cfg.plan.noPhases) (receive s e)).sameInputs.trans
    hcountdown.inputs
  have hentry : (phasesStep cfg s e).1.entry phase = (decode cfg (receive s e)).entry phase := by
    refine hkept.trans (Eq.trans ?_ hcountdown.entry)
    unfold PhasesState.entry
    rw [hcolor]
  constructor
  case greens => exact (congrArg AtscTyp.phaseStatusGreens hatsc).trans hsame.greens
  case infoSource => exact (congrArg AtscTyp.infoSource hatsc).trans hsame.infoSource
  case entry => exact hentry.trans hdecodeEntry
  case oldGreen => exact Eq.trans hold (congrArg PhaseEntry.green hkept).symm

end RfsAtsc.Phases
