import RfsAtsc.GreenDecoding

/-!
# Colours inferred from green only

From a source that gives green only the main loop infers the other colours: what is
not green is yellow for the plan's length, counted from when green was first seen to
be off, and then red.  Before green has ever been seen the colour is unknown.

The decoder counts between the readings of the clock at the top of the loop, each
taken before the wait for an event, and it runs before the first record has come.
-/

namespace RfsAtsc.Phases

open EventMachine

/-! ## What the triggers have shown -/

/-- A phase's green as the ATSC triggers have shown it.  `off` has the event that first
showed it clear. -/
inductive GreenView where
  | unseen
  | on
  | off (since : LoopEvent)

def GreenView.see (phase : Int) (view : GreenView) (e : LoopEvent) : GreenView :=
  match e.trigger with
  | .atsc record =>
      if atscPhaseIsSet record.phaseStatusGreens phase = 1 then .on
      else
        match view with
        | .unseen => .unseen
        | .on => .off e
        | .off since => .off since
  | .timer => view
  | .unknown => view

def greenView (phase : Int) (history : List LoopEvent) : GreenView :=
  history.foldl (GreenView.see phase) .unseen

/-- What is seen of a phase's green, event by event. -/
theorem greenView_concat (phase : Int) (history : List LoopEvent) (e : LoopEvent) :
    greenView phase (history ++ [e]) = (greenView phase history).see phase e := by
  rw [greenView, List.foldl_append]
  rfl

/-- The event is an ATSC trigger. -/
def LoopEvent.IsAtsc (e : LoopEvent) : Prop :=
  match e.trigger with
  | .atsc _ => True
  | .timer => False
  | .unknown => False

/-- An event brings a record or it is of another kind. -/
theorem LoopEvent.isAtsc_iff (e : LoopEvent) :
    e.IsAtsc ↔ ∃ record, e.trigger = .atsc record := by
  unfold LoopEvent.IsAtsc
  cases e.trigger with
  | atsc record => exact iff_of_true trivial ⟨record, rfl⟩
  | timer => exact iff_of_false id fun h => nomatch h
  | unknown => exact iff_of_false id fun h => nomatch h

/-- Another kind shows nothing of the green. -/
theorem GreenView.see_other (phase : Int) (view : GreenView) {e : LoopEvent}
    (hother : ¬ e.IsAtsc) : view.see phase e = view := by
  unfold GreenView.see
  unfold LoopEvent.IsAtsc at hother
  cases htrigger : e.trigger with
  | atsc record =>
      rw [htrigger] at hother
      exact absurd trivial hother
  | timer => rfl
  | unknown => rfl

/-- What an event makes of a view: green is shown, it is shown clear for the first time, or
nothing is new. -/
theorem GreenView.see_cases (phase : Int) (view : GreenView) (e : LoopEvent) :
    view.see phase e = .on ∨ (view = .on ∧ view.see phase e = .off e) ∨
      view.see phase e = view := by
  by_cases hbrings : e.IsAtsc
  · obtain ⟨record, htrigger⟩ := e.isAtsc_iff.mp hbrings
    simp only [GreenView.see, htrigger]
    by_cases hset : atscPhaseIsSet record.phaseStatusGreens phase = 1
    · exact .inl (if_pos hset)
    · rw [if_neg hset]
      cases view with
      | unseen => exact .inr (.inr rfl)
      | on => exact .inr (.inl ⟨rfl, rfl⟩)
      | off since => exact .inr (.inr rfl)
  · exact .inr (.inr (GreenView.see_other phase view hbrings))

/-- The record that an event brings is one of green only. -/
def LoopEvent.BringsGreenOnly (cfg : PhasesConfig) (e : LoopEvent) : Prop :=
  match e.trigger with
  | .atsc record => GreenOnly cfg record.infoSource
  | .timer => True
  | .unknown => True

/-- The colour after an event is the one to infer. -/
def ColorInferred (cfg : PhasesConfig) (phase : Int) (pre : List LoopEvent) (s : PhasesState)
    (e : LoopEvent) : Prop :=
  let color := (phasesStep cfg s e).1.signalColor phase
  match greenView phase (pre ++ [e]) with
  | .unseen => e.IsAtsc → color = SIGNAL_STATE_UNKNOWN
  | .on => color = SIGNAL_STATE_GREEN
  | .off since =>
      color = if (e.time : ℚ) - since.time ≤ cfg.plan.yellowOf phase then SIGNAL_STATE_YELLOW
        else SIGNAL_STATE_RED

/-- The decoder has no green from before, and no yellow that began. -/
def PhasesState.Unmarked (s : PhasesState) (phase : Int) : Prop :=
  s.oldGreen phase = -1 ∨ s.oldGreen phase = 0 ∧ s.startYellow phase = -1

/-- Nothing decoded before the first green stands in the way, and the readings of the clock
put an event on the side of the yellow's end on which its own time does. -/
def InStep (cfg : PhasesConfig) (phase : Int) (pre : List LoopEvent) (s : PhasesState)
    (e : LoopEvent) : Prop :=
  match greenView phase (pre ++ [e]) with
  | .unseen => e.IsAtsc → s.Unmarked phase
  | .on => True
  | .off since =>
      (e.clock : ℚ) - since.clock ≤ cfg.plan.yellowOf phase ↔
        (e.time : ℚ) - since.time ≤ cfg.plan.yellowOf phase

/-! ## What the decoder knows -/

/-- The decoder's memory of a phase after what the triggers have shown. -/
def Remembers (cfg : PhasesConfig) (phase : Int) (view : GreenView) (s : PhasesState) : Prop :=
  match view with
  | .unseen => True
  | .on =>
      GreenOnly cfg s.atsc.infoSource ∧ atscPhaseIsSet s.atsc.phaseStatusGreens phase = 1 ∧
        s.oldGreen phase = 1 ∧ s.signalColor phase = SIGNAL_STATE_GREEN
  | .off since =>
      GreenOnly cfg s.atsc.infoSource ∧ atscPhaseIsSet s.atsc.phaseStatusGreens phase = 0 ∧
        s.oldGreen phase = 0 ∧ s.startYellow phase = since.clock ∧
        s.signalColor phase = offColor s.timeSec since.clock (cfg.plan.yellowOf phase)

/-- The invariant of the loop for one phase. -/
structure ColorInv (cfg : PhasesConfig) (phase : Int) (pre : List LoopEvent) (s : PhasesState) :
    Prop where
  clocks : s.timeSec = s.currTime
  remembers : Remembers cfg phase (greenView phase pre) s

/-- At the start nothing has been seen. -/
theorem colorInv_boot (cfg : PhasesConfig) (phase : Int) (uninitialised : PhasesState) :
    ColorInv cfg phase [] (boot uninitialised) := ⟨rfl, trivial⟩

/-- No reading of the clock is the mark of an unknown start. -/
theorem clock_ne_unknown (e : LoopEvent) : (e.clock : ℚ) ≠ -1 := by
  have hclock : (0 : ℚ) ≤ e.clock := e.clock.2
  intro hunknown
  rw [hunknown] at hclock
  exact absurd hclock (by decide)

/-- A turn with the green bit set. -/
theorem remembers_on {cfg : PhasesConfig} {phase : Int} (hphase : PlanPhase cfg phase)
    {s : PhasesState} {e : LoopEvent} (hsource : GreenOnly cfg (receive s e).atsc.infoSource)
    (hset : atscPhaseIsSet (receive s e).atsc.phaseStatusGreens phase = 1) :
    Remembers cfg phase .on (phasesStep cfg s e).1 := by
  have hdone := phasesStep_decoded hphase hsource
  have hentry := hdone.entry
  rw [hset, decodedEntry, if_pos rfl] at hentry
  refine ⟨?_, ?_, ?_, congrArg PhaseEntry.signalColor hentry⟩
  · rw [hdone.infoSource]
    exact hsource
  · rw [hdone.greens]
    exact hset
  · rw [hdone.oldGreen, hentry]

/-- A turn with the green bit clear, when the start of the yellow is known. -/
theorem remembers_off {cfg : PhasesConfig} {phase : Int} (hphase : PlanPhase cfg phase)
    {s : PhasesState} {e since : LoopEvent} (hclocks : s.timeSec = s.currTime)
    (hsource : GreenOnly cfg (receive s e).atsc.infoSource)
    (hclear : atscPhaseIsSet (receive s e).atsc.phaseStatusGreens phase = 0)
    (hstart : yellowStart e.clock ((receive s e).oldGreen phase)
      ((receive s e).startYellow phase) = since.clock) :
    Remembers cfg phase (.off since) (phasesStep cfg s e).1 := by
  have hdone := phasesStep_decoded hphase hsource
  obtain ⟨hreceived, htime, _⟩ := phasesStep_clocks cfg hclocks e
  have hentry := hdone.entry
  rw [hclear, decodedEntry, if_neg (by decide), hreceived, hstart] at hentry
  refine ⟨?_, ?_, ?_, congrArg PhaseEntry.startYellow hentry, ?_⟩
  · rw [hdone.infoSource]
    exact hsource
  · rw [hdone.greens]
    exact hclear
  · rw [hdone.oldGreen, hentry]
  · rw [htime]
    exact congrArg PhaseEntry.signalColor hentry

/-- To take a trigger in changes neither the old input nor the begin of a yellow. -/
theorem receive_decoder (s : PhasesState) (e : LoopEvent) :
    (receive s e).oldGreen = s.oldGreen ∧ (receive s e).startYellow = s.startYellow := by
  unfold receive
  cases e.trigger
  all_goals exact ⟨rfl, rfl⟩

/-- A record that comes in is the one that is decoded. -/
theorem receive_atsc {s : PhasesState} {e : LoopEvent} {record : AtscTyp}
    (htrigger : e.trigger = .atsc record) : (receive s e).atsc = record := by
  unfold receive
  rw [htrigger]

/-- Without one the old record is decoded again. -/
theorem receive_other {s : PhasesState} {e : LoopEvent} (hother : ¬ e.IsAtsc) :
    (receive s e).atsc = s.atsc := by
  unfold receive
  unfold LoopEvent.IsAtsc at hother
  cases htrigger : e.trigger with
  | atsc record =>
      rw [htrigger] at hother
      exact absurd trivial hother
  | timer => rfl
  | unknown => rfl

/-- A record of greens alone is decoded as one. -/
theorem greenOnly_receive {cfg : PhasesConfig} (s : PhasesState) {e : LoopEvent}
    (hbrings : e.IsAtsc) (he : e.BringsGreenOnly cfg) :
    GreenOnly cfg (receive s e).atsc.infoSource := by
  obtain ⟨record, htrigger⟩ := e.isAtsc_iff.mp hbrings
  rw [LoopEvent.BringsGreenOnly, htrigger] at he
  rw [receive_atsc htrigger]
  exact he

/-- A trigger that leaves green unseen brings a clear bit. -/
theorem clear_of_see_unseen {cfg : PhasesConfig} {phase : Int} (hphase : PlanPhase cfg phase)
    (s : PhasesState) {e : LoopEvent} (hbrings : e.IsAtsc) {view : GreenView}
    (hview : view.see phase e = .unseen) :
    atscPhaseIsSet (receive s e).atsc.phaseStatusGreens phase = 0 := by
  obtain ⟨record, htrigger⟩ := e.isAtsc_iff.mp hbrings
  rw [receive_atsc htrigger]
  refine (atscPhaseIsSet_eq_one_or_zero _ hphase.low hphase.high).resolve_left ?_
  intro hset
  simp only [GreenView.see, htrigger, hset, if_true, reduceCtorEq] at hview

/-- A yellow that began stays dated by its beginning. -/
theorem yellowStart_kept {phase : Int} {s : PhasesState} {since : LoopEvent} (e : LoopEvent)
    (hgreen : s.oldGreen phase = 0) (hclock : s.startYellow phase = since.clock) :
    yellowStart e.clock ((receive s e).oldGreen phase) ((receive s e).startYellow phase) =
      since.clock := by
  obtain ⟨hold, hstart⟩ := receive_decoder s e
  rw [hold, hstart, hgreen, hclock]
  rfl

/-- An event that brings no record leaves remembered what was. -/
theorem Remembers.other {cfg : PhasesConfig} {phase : Int} (hphase : PlanPhase cfg phase)
    {view : GreenView} {s : PhasesState} {e : LoopEvent} (h : Remembers cfg phase view s)
    (hclocks : s.timeSec = s.currTime) (hother : ¬ e.IsAtsc) :
    Remembers cfg phase view (phasesStep cfg s e).1 := by
  have hatsc : (receive s e).atsc = s.atsc := receive_other hother
  cases view with
  | unseen => trivial
  | on =>
      obtain ⟨hsource, hset, -⟩ := h
      refine remembers_on hphase ?_ ?_
      · rw [hatsc]
        exact hsource
      · rw [hatsc]
        exact hset
  | off since =>
      obtain ⟨hsource, hclear, hgreen, hclock, -⟩ := h
      refine remembers_off hphase hclocks ?_ ?_ (yellowStart_kept e hgreen hclock)
      · rw [hatsc]
        exact hsource
      · rw [hatsc]
        exact hclear

/-- Each allowed event keeps the invariant. -/
theorem colorInv_step {cfg : PhasesConfig} {phase : Int} (hphase : PlanPhase cfg phase)
    (pre : List LoopEvent) (s : PhasesState) (e : LoopEvent) (h : ColorInv cfg phase pre s)
    (he : e.BringsGreenOnly cfg) :
    ColorInv cfg phase (pre ++ [e]) ((phasesMachine cfg).step s e).1 := by
  obtain ⟨hclocks, hremembers⟩ := h
  obtain ⟨_, htime, hcurr⟩ := phasesStep_clocks cfg hclocks e
  refine ⟨htime.trans hcurr.symm, ?_⟩
  change Remembers cfg phase _ (phasesStep cfg s e).1
  rw [greenView_concat]
  by_cases hbrings : e.IsAtsc
  · obtain ⟨record, htrigger⟩ := e.isAtsc_iff.mp hbrings
    have hatsc : (receive s e).atsc = record := receive_atsc htrigger
    have hsource := greenOnly_receive s hbrings he
    simp only [GreenView.see, htrigger]
    by_cases hset : atscPhaseIsSet record.phaseStatusGreens phase = 1
    · rw [if_pos hset]
      exact remembers_on hphase hsource (by rw [hatsc]; exact hset)
    · have hclear : atscPhaseIsSet (receive s e).atsc.phaseStatusGreens phase = 0 := by
        rw [hatsc]
        exact (atscPhaseIsSet_eq_one_or_zero _ hphase.low hphase.high).resolve_left hset
      rw [if_neg hset]
      cases hview : greenView phase pre with
      | unseen => trivial
      | on =>
          rw [hview] at hremembers
          refine remembers_off hphase hclocks hsource hclear ?_
          rw [(receive_decoder s e).1, hremembers.2.2.1]
          rfl
      | off since =>
          rw [hview] at hremembers
          exact remembers_off hphase hclocks hsource hclear
            (yellowStart_kept e hremembers.2.2.1 hremembers.2.2.2.1)
  · rw [GreenView.see_other phase _ hbrings]
    exact hremembers.other hphase hclocks hbrings

/-! ## Where the inference holds -/

/-- A trigger before the first green leaves the colour unknown exactly when nothing decoded
before it stands in the way. -/
theorem unknown_iff_unmarked {cfg : PhasesConfig} {phase : Int} (hphase : PlanPhase cfg phase)
    {s : PhasesState} {e : LoopEvent} (hclocks : s.timeSec = s.currTime)
    (hsource : GreenOnly cfg (receive s e).atsc.infoSource)
    (hclear : atscPhaseIsSet (receive s e).atsc.phaseStatusGreens phase = 0) :
    (phasesStep cfg s e).1.signalColor phase = SIGNAL_STATE_UNKNOWN ↔ s.Unmarked phase := by
  have hentry := (phasesStep_decoded hphase hsource).entry
  obtain ⟨hold, hstart⟩ := receive_decoder s e
  rw [hclear, decodedEntry, if_neg (by decide), (phasesStep_clocks cfg hclocks e).1, hold,
    hstart] at hentry
  have hcolor : (phasesStep cfg s e).1.signalColor phase =
      offColor e.clock (yellowStart e.clock (s.oldGreen phase) (s.startYellow phase))
        (cfg.plan.yellowOf phase) := congrArg PhaseEntry.signalColor hentry
  have hunknown (start : ℚ) :
      offColor e.clock start (cfg.plan.yellowOf phase) = SIGNAL_STATE_UNKNOWN ↔ start = -1 := by
    unfold offColor
    by_cases hmark : start = -1
    · rw [if_pos hmark]
      exact iff_of_true rfl hmark
    · rw [if_neg hmark]
      split
      · exact iff_of_false (by decide) hmark
      · exact iff_of_false (by decide) hmark
  rw [hcolor, hunknown]
  unfold yellowStart PhasesState.Unmarked
  by_cases hfirst : s.oldGreen phase = -1
  · rw [if_pos hfirst]
    exact iff_of_true rfl (.inl hfirst)
  · by_cases hoff : s.oldGreen phase = 0
    · rw [if_neg hfirst, if_neg (not_not_intro hoff), or_iff_right hfirst]
      exact (and_iff_right hoff).symm
    · rw [if_neg hfirst, if_pos hoff]
      refine iff_of_false (clock_ne_unknown e) ?_
      intro h
      rcases h with h | h
      · exact hfirst h
      · exact hoff h.1

/-- At a turn the colour is the one inferred exactly when the turn is in step. -/
theorem colorInferred_iff_inStep {cfg : PhasesConfig} {phase : Int} (hphase : PlanPhase cfg phase)
    (pre : List LoopEvent) (s : PhasesState) (e : LoopEvent) (h : ColorInv cfg phase pre s)
    (he : e.BringsGreenOnly cfg) :
    ColorInferred cfg phase pre s e ↔ InStep cfg phase pre s e := by
  have hnext := (colorInv_step hphase pre s e h he).remembers
  have htime := (phasesStep_clocks cfg h.clocks e).2.1
  unfold ColorInferred InStep
  cases hview : greenView phase (pre ++ [e]) with
  | unseen =>
      rw [greenView_concat] at hview
      refine imp_congr_right fun hbrings => ?_
      exact unknown_iff_unmarked hphase h.clocks (greenOnly_receive s hbrings he)
        (clear_of_see_unseen hphase s hbrings hview)
  | on =>
      rw [hview] at hnext
      exact iff_of_true hnext.2.2.2 trivial
  | off since =>
      rw [hview] at hnext
      have hcolor : (phasesStep cfg s e).1.signalColor phase =
          offColor (phasesStep cfg s e).1.timeSec since.clock (cfg.plan.yellowOf phase) :=
        hnext.2.2.2.2
      have hcolors : SIGNAL_STATE_YELLOW ≠ SIGNAL_STATE_RED := by decide
      simp only [hcolor, htime, offColor, if_neg (clock_ne_unknown since)]
      grind

/-- **Colour inference.**  Along every run in which each record gives green only, a phase of
the plan has the colour to infer after every event if and only if the decoder is in step
at every event. -/
theorem colorInferred_along_iff {cfg : PhasesConfig} {phase : Int} (hphase : PlanPhase cfg phase)
    (uninitialised : PhasesState) (es : List LoopEvent)
    (hes : (phasesMachine cfg).Along (boot uninitialised) (fun _ _ e => e.BringsGreenOnly cfg) es) :
    (phasesMachine cfg).Along (boot uninitialised) (ColorInferred cfg phase) es ↔
      (phasesMachine cfg).Along (boot uninitialised) (InStep cfg phase) es :=
  (phasesMachine cfg).along_congr_of_history (colorInv_boot cfg phase uninitialised)
    (colorInv_step hphase) (colorInferred_iff_inStep hphase) es hes

/-! ## Runs that begin with a trigger -/

/-- The first event is a trigger, and each record gives green only. -/
def TriggerFirst (cfg : PhasesConfig) (pre : List LoopEvent) (_ : PhasesState) (e : LoopEvent) :
    Prop :=
  e.BringsGreenOnly cfg ∧ (pre = [] → e.IsAtsc)

/-- Once a trigger has come, a green that has not been seen has been decoded as clear, and no
yellow has begun. -/
structure UnknownInv (cfg : PhasesConfig) (phase : Int) (pre : List LoopEvent)
    (s : PhasesState) : Prop where
  color : ColorInv cfg phase pre s
  unmarked : greenView phase pre = .unseen → s.Unmarked phase
  record : greenView phase pre = .unseen → pre ≠ [] → GreenOnly cfg s.atsc.infoSource ∧
    atscPhaseIsSet s.atsc.phaseStatusGreens phase = 0

/-- At the start the colour is not known. -/
theorem unknownInv_boot (cfg : PhasesConfig) {phase : Int} (hphase : PlanPhase cfg phase)
    (uninitialised : PhasesState) : UnknownInv cfg phase [] (boot uninitialised) where
  color := colorInv_boot cfg phase uninitialised
  unmarked := fun _ => .inl (if_pos ⟨hphase.low, hphase.high⟩)
  record := fun _ hnil => absurd rfl hnil

/-- A green that is still unseen was unseen before. -/
theorem GreenView.unseen_of_see {phase : Int} {view : GreenView} {e : LoopEvent}
    (h : view.see phase e = .unseen) : view = .unseen := by
  rcases GreenView.see_cases phase view e with hon | ⟨-, hoff⟩ | hsame
  · exact nomatch hon.symm.trans h
  · exact nomatch hoff.symm.trans h
  · exact hsame.symm.trans h

/-- It stays unknown until a trigger. -/
theorem unknownInv_step {cfg : PhasesConfig} {phase : Int} (hphase : PlanPhase cfg phase)
    (pre : List LoopEvent) (s : PhasesState) (e : LoopEvent) (h : UnknownInv cfg phase pre s)
    (he : TriggerFirst cfg pre s e) :
    UnknownInv cfg phase (pre ++ [e]) ((phasesMachine cfg).step s e).1 := by
  have hreceived : greenView phase (pre ++ [e]) = .unseen →
      GreenOnly cfg (receive s e).atsc.infoSource ∧
        atscPhaseIsSet (receive s e).atsc.phaseStatusGreens phase = 0 := by
    intro hview
    rw [greenView_concat] at hview
    by_cases hbrings : e.IsAtsc
    · exact ⟨greenOnly_receive s hbrings he.1, clear_of_see_unseen hphase s hbrings hview⟩
    · rw [receive_other hbrings]
      exact h.record (GreenView.unseen_of_see hview) fun hnil => hbrings (he.2 hnil)
  have hdone (hview : greenView phase (pre ++ [e]) = .unseen) :=
    phasesStep_decoded hphase (hreceived hview).1
  obtain ⟨hold, hstart⟩ := receive_decoder s e
  refine ⟨colorInv_step hphase pre s e h.color he.1, ?_, ?_⟩
  · intro hview
    have hbefore : s.Unmarked phase := by
      rw [greenView_concat] at hview
      exact h.unmarked (GreenView.unseen_of_see hview)
    have hentry := (hdone hview).entry
    rw [(hreceived hview).2, decodedEntry, if_neg (by decide)] at hentry
    refine .inr ⟨?_, ?_⟩
    · exact ((hdone hview).oldGreen).trans (congrArg PhaseEntry.green hentry)
    · refine (congrArg PhaseEntry.startYellow hentry).trans ?_
      rw [hold, hstart]
      unfold yellowStart
      rcases hbefore with hfirst | hoff
      · rw [if_pos hfirst]
      · simp only [hoff.1, hoff.2]
        rfl
  · intro hview _
    have hdone := hdone hview
    refine ⟨?_, ?_⟩
    · change GreenOnly cfg (phasesStep cfg s e).1.atsc.infoSource
      rw [hdone.infoSource]
      exact (hreceived hview).1
    · change atscPhaseIsSet (phasesStep cfg s e).1.atsc.phaseStatusGreens phase = 0
      rw [hdone.greens]
      exact (hreceived hview).2

/-- The readings of the clock put an event on the side of the yellow's end on which its own
time does. -/
def ClocksAgree (cfg : PhasesConfig) (phase : Int) (pre : List LoopEvent) (_ : PhasesState)
    (e : LoopEvent) : Prop :=
  ∀ since, greenView phase (pre ++ [e]) = .off since →
    ((e.clock : ℚ) - since.clock ≤ cfg.plan.yellowOf phase ↔
      (e.time : ℚ) - since.time ≤ cfg.plan.yellowOf phase)

/-- The event since which the green is off is one of the history. -/
theorem mem_of_greenView_off {phase : Int} {history : List LoopEvent} {since : LoopEvent}
    (h : greenView phase history = .off since) : since ∈ history := by
  induction history using List.reverseRecOn with
  | nil => exact nomatch h
  | append_singleton pre e ih =>
      rw [greenView_concat] at h
      rcases GreenView.see_cases phase (greenView phase pre) e with hon | ⟨-, hoff⟩ | hsame
      · exact nomatch hon.symm.trans h
      · obtain rfl : e = since := GreenView.off.inj (hoff.symm.trans h)
        exact List.mem_append_right _ (List.mem_singleton_self e)
      · exact List.mem_append_left _ (ih (hsame.symm.trans h))

/-- Readings taken at the events themselves always agree. -/
theorem clocksAgree_of_exact (cfg : PhasesConfig) (phase : Int) (s : PhasesState)
    {es : List LoopEvent} (hexact : ∀ e ∈ es, e.clock = e.time) :
    (phasesMachine cfg).Along s (ClocksAgree cfg phase) es := by
  intro pre e post hsplit since hview
  have hmem : ∀ f ∈ pre ++ [e], f ∈ es := by
    intro f hf
    rw [hsplit, List.append_cons]
    exact List.mem_append_left _ hf
  rw [hexact e (hmem e (List.mem_append_right _ (List.mem_singleton_self e))),
    hexact since (hmem since (mem_of_greenView_off hview))]

/-- When a trigger comes first, only the readings of the clock matter. -/
theorem inStep_of_triggerFirst {cfg : PhasesConfig} {phase : Int} (hphase : PlanPhase cfg phase)
    (uninitialised : PhasesState) (es : List LoopEvent)
    (hes : (phasesMachine cfg).Along (boot uninitialised) (TriggerFirst cfg) es)
    (hclocks : (phasesMachine cfg).Along (boot uninitialised) (ClocksAgree cfg phase) es) :
    (phasesMachine cfg).Along (boot uninitialised) (InStep cfg phase) es := by
  have hunmarked : (phasesMachine cfg).Along (boot uninitialised)
      (fun pre s _ => greenView phase pre = .unseen → s.Unmarked phase) es :=
    (phasesMachine cfg).along_of_history (unknownInv_boot cfg hphase uninitialised)
      (unknownInv_step hphase) (fun _ _ _ h _ => h.unmarked) es hes
  intro pre e post hsplit
  unfold InStep
  cases hview : greenView phase (pre ++ [e]) with
  | unseen =>
      intro _
      rw [greenView_concat] at hview
      exact hunmarked pre e post hsplit (GreenView.unseen_of_see hview)
  | on => trivial
  | off since => exact hclocks pre e post hsplit since hview

/-- Phases 2 and 4 of a site whose yellows last 4 and all-reds 2. -/
def rfsPhases : PhasesConfig where
  sniffGreen := 1
  sniffYellow := 0
  plan :=
    { noPhases := 2, timingType := 0, finalPhaseNo := 4, cycleLength := 72,
      phaseIndex := fun i => 2 * i, greenLength := fun i => if i = 1 then 45 else 15,
      yellowLength := fun _ => 4, allRedLength := fun _ => 2 }
  noOverlaps := 0
  overlap _ := ⟨0, 0, 0, 0, 0⟩

/-- A record of an AB3418 source: its greens in the first byte. -/
def ab3418Record (greens : BitVec 8) : AtscTyp where
  phaseStatusReds _ := 0
  phaseStatusYellows _ := 0
  phaseStatusGreens i := if i = 0 then greens else 0
  infoSource := ATSC_SOURCE_AB3418

/-- An event and the reading of the clock just before it. -/
def eventAt (time : ℚ≥0) (trigger : Trigger) : LoopEvent :=
  { clock := time, trigger := trigger, time := time }

/-- Phase 2 is in the plan. -/
theorem planPhase_rfsPhases : PlanPhase rfsPhases 2 where
  listed := ⟨1, by decide, by decide⟩
  low := by decide
  high := by decide
  notOverlap := fun i hi => absurd hi List.not_mem_nil

/-- A green, its end, and the timer three and five seconds after. -/
def greenEnds : List LoopEvent :=
  [eventAt 1 (.atsc (ab3418Record 2)), eventAt 10 (.atsc (ab3418Record 8)), eventAt 13 .timer,
    eventAt 15 .timer]

/-- Phase 2 is green, green until its bit is clear, yellow and then red. -/
theorem colorInferred_along_iff_greenEnds :
    (phasesMachine rfsPhases).Along (boot zeroed) (ColorInferred rfsPhases 2) greenEnds := by
  refine (colorInferred_along_iff planPhase_rfsPhases zeroed greenEnds ?_).mpr
    (inStep_of_triggerFirst planPhase_rfsPhases zeroed greenEnds ?_ ?_)
  · simp only [greenEnds, Machine.along_cons_iff, Machine.along_nil, and_true]
    exact ⟨.inr rfl, .inr rfl, trivial, trivial⟩
  · simp only [greenEnds, Machine.along_cons_iff, Machine.along_nil, and_true]
    exact ⟨⟨.inr rfl, fun _ => trivial⟩, ⟨.inr rfl, fun _ => trivial⟩,
      ⟨trivial, fun hnil => absurd hnil (List.cons_ne_nil _ _)⟩,
      ⟨trivial, fun hnil => absurd hnil (List.cons_ne_nil _ _)⟩⟩
  · refine clocksAgree_of_exact rfsPhases 2 _ ?_
    intro e he
    simp only [greenEnds, List.mem_cons, List.not_mem_nil, or_false] at he
    rcases he with rfl | rfl | rfl | rfl
    all_goals rfl

/-- The timer's turn before the first record leaves a green of zero behind, and a start that
is not unknown: the first record gives a yellow. -/
theorem colorInferred_not_always :
    ¬ ∀ (cfg : PhasesConfig) (phase : Int) (uninitialised : PhasesState) (es : List LoopEvent),
      PlanPhase cfg phase →
      (phasesMachine cfg).Along (boot uninitialised) (fun _ _ e => e.BringsGreenOnly cfg) es →
      (phasesMachine cfg).Along (boot uninitialised) (ColorInferred cfg phase) es := by
  intro h
  have hlast := h rfsPhases 2 zeroed
    [eventAt (1 / 5) .timer, eventAt (1 / 2) (.atsc (ab3418Record 0))] planPhase_rfsPhases ?_
    [eventAt (1 / 5) .timer] (eventAt (1 / 2) (.atsc (ab3418Record 0))) [] rfl
  · exact absurd (hlast trivial) (by decide +kernel)
  · simp only [Machine.along_cons_iff, Machine.along_nil, and_true]
    refine ⟨trivial, ?_⟩
    exact .inr rfl

end RfsAtsc.Phases
