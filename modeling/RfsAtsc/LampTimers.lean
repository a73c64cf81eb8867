import RfsAtsc.ColorInference
import RfsAtsc.PhaseTimers

/-!
# The timers from several lamps

From a source that gives all three colours, or green and yellow, a turn notes when a colour
began if the colour's own lamp has changed, and not if the colour that is shown has.  The two
are the same as long as the lamps of a phase do not overlap and none goes dark
(`lampTimed_along_iff`).  A lamp that was lit while another colour was shown has no beginning
of its own, and its colour is counted from an earlier one.
-/

namespace RfsAtsc.Phases

open EventMachine

/-! ## Lamps -/

/-- The colour that the bits of a phase show, if any is lit. -/
def PhaseReading.shown : PhaseReading → Option Int
  | .all green yellow red =>
      if green = 1 then some SIGNAL_STATE_GREEN
      else if yellow = 1 then some SIGNAL_STATE_YELLOW
      else if red = 1 then some SIGNAL_STATE_RED
      else none
  | .greenYellow green yellow =>
      if green = 1 ∧ yellow = 0 then some SIGNAL_STATE_GREEN
      else if yellow = 1 then some SIGNAL_STATE_YELLOW
      else if green = 0 ∧ yellow = 0 then some SIGNAL_STATE_RED
      else none
  | .greenOnly _ => none
  | .nothing => none

/-- The lamp of a colour.  Without an input of its own red is lit when the others are not. -/
def PhaseReading.lamp : PhaseReading → Int → Int
  | .all green yellow red, color =>
      if color = SIGNAL_STATE_GREEN then green
      else if color = SIGNAL_STATE_YELLOW then yellow
      else red
  | .greenYellow green yellow, color =>
      if color = SIGNAL_STATE_GREEN then green
      else if color = SIGNAL_STATE_YELLOW then yellow
      else if green = 0 ∧ yellow = 0 then 1
      else 0
  | .greenOnly _, _ => 0
  | .nothing, _ => 0

/-- The source gives the lamps, and each bit is set or clear. -/
def PhaseReading.GivesLamps : PhaseReading → Prop
  | .all _ _ _ => True
  | .greenYellow green yellow => (green = 1 ∨ green = 0) ∧ (yellow = 1 ∨ yellow = 0)
  | .greenOnly _ => False
  | .nothing => False

/-- Distinct colours. -/
theorem colors_distinct :
    SIGNAL_STATE_GREEN ≠ SIGNAL_STATE_YELLOW ∧ SIGNAL_STATE_GREEN ≠ SIGNAL_STATE_RED ∧
      SIGNAL_STATE_YELLOW ≠ SIGNAL_STATE_RED := by
  decide

theorem PhaseReading.lamp_shown {r : PhaseReading} {color : Int} (h : r.shown = some color) :
    r.lamp color = 1 ∧ IsColor color := by
  have hdistinct := colors_distinct
  unfold IsColor
  cases r with
  | all green yellow red =>
      simp only [PhaseReading.shown, PhaseReading.lamp] at h ⊢
      grind
  | greenYellow green yellow =>
      simp only [PhaseReading.shown, PhaseReading.lamp] at h ⊢
      grind
  | greenOnly green => exact nomatch h
  | nothing => exact nomatch h

/-- A lamp that is lit is not dark. -/
theorem PhaseReading.shown_of_lamp {r : PhaseReading} {color : Int} (hr : r.GivesLamps)
    (hlit : r.lamp color = 1) : r.shown ≠ none := by
  cases r with
  | all green yellow red =>
      simp only [PhaseReading.shown, PhaseReading.lamp] at hlit ⊢
      grind
  | greenYellow green yellow =>
      simp only [PhaseReading.shown]
      unfold PhaseReading.GivesLamps at hr
      grind
  | greenOnly green => exact hr.elim
  | nothing => exact hr.elim

namespace PhaseMemory

def lamp (m : PhaseMemory) (color : Int) : Int :=
  if color = SIGNAL_STATE_GREEN then m.green
  else if color = SIGNAL_STATE_YELLOW then m.yellow
  else m.red

def oldLamp (m : PhaseMemory) (color : Int) : Int :=
  if color = SIGNAL_STATE_GREEN then m.oldGreen
  else if color = SIGNAL_STATE_YELLOW then m.oldYellow
  else m.oldRed

def startOf (m : PhaseMemory) (color : Int) : ℚ :=
  if color = SIGNAL_STATE_GREEN then m.startGreen
  else if color = SIGNAL_STATE_YELLOW then m.startYellow
  else m.startRed

end PhaseMemory

/-! ## One turn -/

/-- What a turn makes of a phase whose lamps it reads. -/
structure LampTurned (timeSec : ℚ) (r : PhaseReading) (m t : PhaseMemory) : Prop where
  lamp : ∀ color, t.lamp color = r.lamp color
  oldLamp : ∀ color, t.oldLamp color = m.oldLamp color
  shown : ∀ color, r.shown = some color → t.signalColor = color ∧
    t.startOf color = if m.oldLamp color = 1 then m.startOf color else timeSec
  dark : r.shown = none → t.signalColor = m.signalColor
  started : ∀ color, t.startOf color = m.startOf color ∨ t.startOf color = timeSec

theorem lampTurned_row (m : PhaseMemory) (timeSec yellowLength : ℚ) {r : PhaseReading}
    (hr : r.GivesLamps) : LampTurned timeSec r m (m.decode timeSec yellowLength r) := by
  have hdistinct := colors_distinct
  cases r with
  | all green yellow red =>
      constructor
      all_goals
        simp only [PhaseMemory.decode, PhaseMemory.showGreen, PhaseMemory.showYellow,
          PhaseMemory.showRed, PhaseMemory.lamp, PhaseMemory.oldLamp, PhaseMemory.startOf,
          PhaseReading.shown, PhaseReading.lamp]
        grind
  | greenYellow green yellow =>
      unfold PhaseReading.GivesLamps at hr
      constructor
      all_goals
        simp only [PhaseMemory.decode, PhaseMemory.showGreen, PhaseMemory.showYellow,
          PhaseMemory.showRed, PhaseMemory.lamp, PhaseMemory.oldLamp, PhaseMemory.startOf,
          PhaseReading.shown, PhaseReading.lamp]
        grind
  | greenOnly green => exact hr.elim
  | nothing => exact hr.elim

/-- A second row for the phase changes nothing. -/
theorem LampTurned.again {timeSec : ℚ} {r : PhaseReading} {m t u : PhaseMemory}
    (h : LampTurned timeSec r m t) (hagain : LampTurned timeSec r t u) :
    LampTurned timeSec r m u := by
  constructor
  case lamp => exact hagain.lamp
  case oldLamp => exact fun color => (hagain.oldLamp color).trans (h.oldLamp color)
  case shown =>
      intro color hshown
      obtain ⟨hcolor, hstart⟩ := hagain.shown color hshown
      refine ⟨hcolor, ?_⟩
      rw [hstart, h.oldLamp, (h.shown color hshown).2]
      split
      · rfl
      · rfl
  case dark => exact fun hdark => (hagain.dark hdark).trans (h.dark hdark)
  case started =>
      intro color
      rcases hagain.started color with hsame | hnow
      · rw [hsame]
        exact h.started color
      · exact .inr hnow

/-! ## Runs -/

/-- The event's record, if it brings one, gives the lamps: all three colours, or green and
yellow. -/
def LoopEvent.BringsLamps (cfg : PhasesConfig) (e : LoopEvent) : Prop :=
  match e.trigger with
  | .atsc record => record.infoSource = ATSC_SOURCE_NTCIP ∨ GreenYellow cfg record.infoSource
  | .timer => True
  | .unknown => True

/-- The first event is a trigger, each record gives the lamps, and the clock goes on between
one turn and the next. -/
def LampOnward (cfg : PhasesConfig) (pre : List LoopEvent) (s : PhasesState) (e : LoopEvent) :
    Prop :=
  e.BringsLamps cfg ∧ (pre = [] → e.IsAtsc) ∧ (pre ≠ [] → s.currTime < e.clock)

/-- After a turn in which a phase shows a colour, it has the times of a colour that it has had
since the turn that brought it. -/
def LampTimed (cfg : PhasesConfig) (phase : Int) (start : PhasesState) (pre : List LoopEvent)
    (s : PhasesState) (e : LoopEvent) : Prop :=
  ((receive s e).atsc.reading cfg phase).shown ≠ none →
    ∀ f, ColorCame cfg phase start (pre ++ [e]) f →
      Counts cfg.plan phase (cfg.plan.findRow phase 0) (e.clock - f.clock) (phasesStep cfg s e).1

/-- The colour that a turn shows was shown before exactly if its lamp was lit. -/
def LampsInTurn (cfg : PhasesConfig) (phase : Int) (pre : List LoopEvent) (s : PhasesState)
    (e : LoopEvent) : Prop :=
  pre ≠ [] → ∀ color, ((receive s e).atsc.reading cfg phase).shown = some color →
    (s.signalColor phase = color ↔ (s.atsc.reading cfg phase).lamp color = 1)

/-- The invariant of the loop for the lamps of one phase. -/
structure LampInv (cfg : PhasesConfig) (phase : Int) (start : PhasesState)
    (pre : List LoopEvent) (s : PhasesState) : Prop where
  run : s = (phasesMachine cfg).run start pre
  clocks : s.timeSec = s.currTime
  first : pre = [] → s.currTime = 0 ∧ ∀ color, (s.memory phase).oldLamp color = -1
  lamps : pre ≠ [] → (s.atsc.reading cfg phase).GivesLamps ∧
    ∀ color, (s.memory phase).oldLamp color = (s.atsc.reading cfg phase).lamp color
  past : ∀ color, (s.memory phase).startOf color ≤ s.currTime
  events : ∀ f ∈ pre, f.clock ≤ s.currTime

/-- No colour of the phase begins in a time to come, in the memory that the loop does not
initialise. -/
def NoStartToCome (phase : Int) (uninitialised : PhasesState) : Prop :=
  ∀ color, (uninitialised.memory phase).startOf color ≤ 0

theorem lampInv_boot (cfg : PhasesConfig) {phase : Int} (hphase : PlanPhase cfg phase)
    {uninitialised : PhasesState} (hstarts : NoStartToCome phase uninitialised) :
    LampInv cfg phase (boot uninitialised) [] (boot uninitialised) where
  run := rfl
  clocks := rfl
  first := by
    refine fun _ => ⟨rfl, fun color => ?_⟩
    have hrange : 1 ≤ phase ∧ phase ≤ MAX_PHASES := ⟨hphase.low, hphase.high⟩
    simp only [PhaseMemory.oldLamp, PhasesState.memory, boot, if_pos hrange, ite_self]
  lamps := fun hsome => absurd rfl hsome
  past := hstarts
  events := fun f hf => absurd hf List.not_mem_nil

/-- The clock has not gone back. -/
theorem LampInv.later {cfg : PhasesConfig} {phase : Int} {start s : PhasesState}
    {pre : List LoopEvent} {e : LoopEvent} (h : LampInv cfg phase start pre s)
    (he : LampOnward cfg pre s e) : s.currTime ≤ e.clock := by
  by_cases hnil : pre = []
  · rw [(h.first hnil).1]
    exact e.clock.2
  · exact (he.2.2 hnil).le

/-- A turn reads the lamps. -/
theorem LampInv.reads {cfg : PhasesConfig} {phase : Int} (hphase : PlanPhase cfg phase)
    {start s : PhasesState} {pre : List LoopEvent} {e : LoopEvent}
    (h : LampInv cfg phase start pre s) (he : LampOnward cfg pre s e) :
    ((receive s e).atsc.reading cfg phase).GivesLamps := by
  by_cases hbrings : e.IsAtsc
  · obtain ⟨record, htrigger⟩ := e.isAtsc_iff.mp hbrings
    have hsource := he.1
    rw [LoopEvent.BringsLamps, htrigger] at hsource
    rw [receive_atsc htrigger, AtscTyp.reading]
    rcases hsource with hall | hboth
    · rw [if_pos hall]
      trivial
    · have hother : record.infoSource ≠ ATSC_SOURCE_NTCIP := by
        rw [hboth.1]
        decide
      have hboth' : record.infoSource = ATSC_SOURCE_SNIFF ∧ cfg.sniffGreen = 1 ∧
          cfg.sniffYellow = 1 := hboth
      rw [if_neg hother, if_pos hboth']
      exact ⟨atscPhaseIsSet_eq_one_or_zero _ hphase.low hphase.high,
        atscPhaseIsSet_eq_one_or_zero _ hphase.low hphase.high⟩
  · rw [receive_other hbrings]
    exact (h.lamps fun hnil => hbrings (he.2.1 hnil)).1

/-- A turn decodes the lamps that it reads. -/
theorem turnMemory_lampTurned {cfg : PhasesConfig} {phase : Int} (hphase : PlanPhase cfg phase)
    {s : PhasesState} {e : LoopEvent}
    (hreads : ((receive s e).atsc.reading cfg phase).GivesLamps) :
    LampTurned e.clock ((receive s e).atsc.reading cfg phase) (s.memory phase)
      (turnMemory cfg phase s e) := by
  let R (_ : Int) (t : PhaseMemory) : Prop :=
    LampTurned e.clock ((receive s e).atsc.reading cfg phase) (s.memory phase) t
  have hrow : ∀ i, R i ((s.memory phase).decode e.clock (cfg.plan.yellowLength i)
      ((receive s e).atsc.reading cfg phase)) :=
    fun i => lampTurned_row (s.memory phase) e.clock (cfg.plan.yellowLength i) hreads
  have hagain : ∀ i j t, R j t → R i (t.decode e.clock (cfg.plan.yellowLength i)
      ((receive s e).atsc.reading cfg phase)) :=
    fun i _ t ht => ht.again (lampTurned_row t e.clock (cfg.plan.yellowLength i) hreads)
  exact decodeRows_of_again hrow hagain hphase.listed

theorem lampInv_step {cfg : PhasesConfig} {phase : Int} (hphase : PlanPhase cfg phase)
    {start : PhasesState} (pre : List LoopEvent) (s : PhasesState) (e : LoopEvent)
    (h : LampInv cfg phase start pre s) (he : LampOnward cfg pre s e) :
    LampInv cfg phase start (pre ++ [e]) ((phasesMachine cfg).step s e).1 := by
  have hreads := h.reads hphase he
  have hturned := turnMemory_lampTurned hphase hreads
  have hdone := phasesStep_turn hphase e h.clocks
  change LampInv cfg phase start (pre ++ [e]) (phasesStep cfg s e).1
  constructor
  case run =>
    rw [Machine.run_concat, ← h.run]
    rfl
  case clocks => exact hdone.clock.1.trans hdone.clock.2.symm
  case first => exact fun hnil => absurd hnil (by simp)
  case lamps =>
    intro _
    rw [hdone.reading, hdone.memory]
    exact ⟨hreads, hturned.lamp⟩
  case past =>
    intro color
    rw [hdone.memory, hdone.clock.2]
    change (turnMemory cfg phase s e).startOf color ≤ e.clock
    rcases hturned.started color with hsame | hnow
    · rw [hsame]
      exact (h.past color).trans (h.later he)
    · rw [hnow]
  case events =>
    intro f hf
    rw [hdone.clock.2]
    rcases List.mem_append.mp hf with hf | hf
    · exact (h.events f hf).trans (h.later he)
    · rw [List.mem_singleton.mp hf]

/-- The last turn shows a colour which it has had since the turn that brought it. -/
def CountsFrom (cfg : PhasesConfig) (phase : Int) (start : PhasesState) (pre : List LoopEvent)
    (s : PhasesState) : Prop :=
  pre ≠ [] → ∀ color, (s.atsc.reading cfg phase).shown = some color →
    s.signalColor phase = color ∧
      ∀ f, ColorCame cfg phase start pre f → (s.memory phase).startOf color = f.clock

section Turn

variable {cfg : PhasesConfig} {phase : Int} (hphase : PlanPhase cfg phase)
  {start s : PhasesState} {pre : List LoopEvent} {e : LoopEvent}
  (h : LampInv cfg phase start pre s) (he : LampOnward cfg pre s e) {color : Int}
  (hshown : ((receive s e).atsc.reading cfg phase).shown = some color)

include hphase h he hshown

/-- The colour that a turn shows, when it began for the loop, and its times. -/
theorem LampInv.shows :
    (phasesStep cfg s e).1.signalColor phase = color ∧
      ((phasesStep cfg s e).1.memory phase).startOf color =
        (if (s.memory phase).oldLamp color = 1 then (s.memory phase).startOf color
        else e.clock) ∧
      Counts cfg.plan phase (cfg.plan.findRow phase 0)
        (e.clock - ((phasesStep cfg s e).1.memory phase).startOf color)
        (phasesStep cfg s e).1 := by
  have hturned := turnMemory_lampTurned hphase (h.reads hphase he)
  have hdone := phasesStep_turn hphase e h.clocks
  obtain ⟨hcolor, hstart⟩ := hturned.shown color hshown
  have hafter : (phasesStep cfg s e).1.signalColor phase = color :=
    (congrArg PhaseMemory.signalColor hdone.memory).trans hcolor
  refine ⟨hafter, ?_, ?_⟩
  · rw [hdone.memory]
    exact hstart
  · have hcounts := hdone.counted.color (hcolor.symm ▸ (PhaseReading.lamp_shown hshown).2)
    have hbegan : (turnMemory cfg phase s e).start =
        ((phasesStep cfg s e).1.memory phase).startOf color := by
      rw [hdone.memory, ← hcolor]
      rfl
    rw [hbegan, hdone.clock.1] at hcounts
    exact hcounts

/-- A colour that the phase did not have came with the turn. -/
theorem LampInv.came_new (hnew : pre = [] ∨ s.signalColor phase ≠ color) (f : LoopEvent) :
    ColorCame cfg phase start (pre ++ [e]) f ↔ f = e := by
  refine Machine.cameWith_new (hnew.imp_right fun hchanged => ?_)
  rw [Machine.run_concat, ← h.run]
  exact ((h.shows hphase he hshown).1.symm ▸ hchanged)

/-- A colour that the phase had came before. -/
theorem LampInv.came_kept (hsome : pre ≠ []) (hsame : s.signalColor phase = color)
    (f : LoopEvent) :
    ColorCame cfg phase start (pre ++ [e]) f ↔ ColorCame cfg phase start pre f := by
  refine Machine.cameWith_kept hsome ?_
  rw [Machine.run_concat, ← h.run]
  exact hsame.trans (h.shows hphase he hshown).1.symm

/-- The times tell that the colour was shown before exactly if its lamp was lit. -/
theorem LampInv.inTurn_of_timed (hsome : pre ≠ [])
    (htimed : LampTimed cfg phase start pre s e) :
    s.signalColor phase = color ↔ (s.atsc.reading cfg phase).lamp color = 1 := by
  obtain ⟨-, hstart, hcounts⟩ := h.shows hphase he hshown
  have hlater := he.2.2 hsome
  have htimes := htimed (by rw [hshown]; exact Option.some_ne_none color)
  rw [(h.lamps hsome).2] at hstart
  constructor
  · intro hsame
    by_contra hdark
    -- the turn begins the colour anew
    obtain ⟨f, hf⟩ : ∃ f, ColorCame cfg phase start pre f :=
      (phasesMachine cfg).exists_cameWith hsome
    have hbefore := h.events f hf.mem
    have hused := (htimes f ((h.came_kept hphase he hshown hsome hsame f).mpr hf)).timeUsed
    rw [hcounts.timeUsed, hstart, if_neg hdark] at hused
    linarith
  · intro hlit
    by_contra hchanged
    -- the turn counts the colour from an earlier one
    have hpast := h.past color
    have hused := (htimes e ((h.came_new hphase he hshown (.inr hchanged) e).mpr rfl)).timeUsed
    rw [hcounts.timeUsed, hstart, if_pos hlit] at hused
    linarith

/-- A colour whose lamp is lit exactly if it was shown counts from the turn that brought it. -/
theorem LampInv.countsFrom_step (hbefore : CountsFrom cfg phase start pre s)
    (hturn : LampsInTurn cfg phase pre s e) (f : LoopEvent)
    (hf : ColorCame cfg phase start (pre ++ [e]) f) :
    ((phasesStep cfg s e).1.memory phase).startOf color = f.clock := by
  obtain ⟨-, hstart, -⟩ := h.shows hphase he hshown
  rw [hstart]
  by_cases hnew : pre = [] ∨ s.signalColor phase ≠ color
  · have hdark : (s.memory phase).oldLamp color ≠ 1 := by
      rcases hnew with hnil | hchanged
      · rw [(h.first hnil).2]
        decide
      · intro hlit
        by_cases hnil : pre = []
        · rw [(h.first hnil).2] at hlit
          exact absurd hlit (by decide)
        · rw [(h.lamps hnil).2] at hlit
          exact hchanged ((hturn hnil color hshown).mpr hlit)
    rw [if_neg hdark, (h.came_new hphase he hshown hnew f).mp hf]
  · rw [not_or, not_not] at hnew
    obtain ⟨hsome, hsame⟩ := hnew
    have hlit := (hturn hsome color hshown).mp hsame
    rw [(h.lamps hsome).2, if_pos hlit]
    -- the turn before showed a colour, since this one's lamp was lit
    obtain ⟨other, hother⟩ := Option.ne_none_iff_exists'.mp
      (PhaseReading.shown_of_lamp (h.lamps hsome).1 hlit)
    obtain ⟨hcolor, hcame⟩ := hbefore hsome other hother
    rw [← hsame, hcolor]
    exact hcame f ((h.came_kept hphase he hshown hsome hsame f).mp hf)

end Turn

/-- The times of a phase are right in every turn so far. -/
theorem countsFrom_step {cfg : PhasesConfig} {phase : Int} (hphase : PlanPhase cfg phase)
    {start : PhasesState} (pre : List LoopEvent) (s : PhasesState) (e : LoopEvent)
    (h : LampInv cfg phase start pre s ∧ CountsFrom cfg phase start pre s)
    (he : LampOnward cfg pre s e ∧ LampsInTurn cfg phase pre s e) :
    LampInv cfg phase start (pre ++ [e]) ((phasesMachine cfg).step s e).1 ∧
      CountsFrom cfg phase start (pre ++ [e]) ((phasesMachine cfg).step s e).1 := by
  refine ⟨lampInv_step hphase pre s e h.1 he.1, ?_⟩
  intro _ color hcolor
  have hshown : ((receive s e).atsc.reading cfg phase).shown = some color := by
    rw [← (phasesStep_turn hphase e h.1.clocks).reading]
    exact hcolor
  exact ⟨(h.1.shows hphase he.1 hshown).1, h.1.countsFrom_step hphase he.1 hshown h.2 he.2⟩

theorem lampTimed_of_inTurn {cfg : PhasesConfig} {phase : Int} (hphase : PlanPhase cfg phase)
    {start : PhasesState} (pre : List LoopEvent) (s : PhasesState) (e : LoopEvent)
    (h : LampInv cfg phase start pre s ∧ CountsFrom cfg phase start pre s)
    (he : LampOnward cfg pre s e ∧ LampsInTurn cfg phase pre s e) :
    LampTimed cfg phase start pre s e := by
  intro hlit f hf
  obtain ⟨color, hshown⟩ := Option.ne_none_iff_exists'.mp hlit
  rw [← h.1.countsFrom_step hphase he.1 hshown h.2 he.2 f hf]
  exact (h.1.shows hphase he.1 hshown).2.2

/-- **The timers from several lamps.**  Along every run in which each record gives the lamps, a
trigger comes first and the clock goes on, a phase of the plan has in every turn that shows
its colour the times of a colour that it has had since the turn that brought it, if and only
if in every turn the colour shown was shown before exactly if its lamp was lit. -/
theorem lampTimed_along_iff {cfg : PhasesConfig} {phase : Int} (hphase : PlanPhase cfg phase)
    {uninitialised : PhasesState} (hstarts : NoStartToCome phase uninitialised)
    (es : List LoopEvent)
    (hes : (phasesMachine cfg).Along (boot uninitialised) (LampOnward cfg) es) :
    (phasesMachine cfg).Along (boot uninitialised)
        (LampTimed cfg phase (boot uninitialised)) es ↔
      (phasesMachine cfg).Along (boot uninitialised) (LampsInTurn cfg phase) es := by
  have hboot := lampInv_boot cfg hphase hstarts
  constructor
  · intro htimed
    have hinv : (phasesMachine cfg).Along (boot uninitialised)
        (fun pre s e => LampInv cfg phase (boot uninitialised) pre s ∧ LampOnward cfg pre s e) es :=
      (phasesMachine cfg).along_of_history hboot (lampInv_step hphase)
        (fun _ _ _ h he => ⟨h, he⟩) es hes
    intro pre e post hsplit hsome color hshown
    obtain ⟨h, he⟩ := hinv pre e post hsplit
    exact h.inTurn_of_timed hphase he hshown hsome (htimed pre e post hsplit)
  · intro hturns
    have hinit : LampInv cfg phase (boot uninitialised) [] (boot uninitialised) ∧
        CountsFrom cfg phase (boot uninitialised) [] (boot uninitialised) :=
      ⟨hboot, fun hsome => absurd rfl hsome⟩
    exact (phasesMachine cfg).along_of_history hinit (countsFrom_step hphase)
      (lampTimed_of_inTurn hphase) es
      fun pre e post hsplit => ⟨hes pre e post hsplit, hturns pre e post hsplit⟩

/-- A run is one of these when its first event is a trigger, its records give the lamps, and its
readings of the clock go on. -/
theorem lampOnward_along {cfg : PhasesConfig} (uninitialised : PhasesState)
    {es : List LoopEvent} (hlamps : ∀ e ∈ es, e.BringsLamps cfg)
    (hfirst : ∀ e ∈ es.head?, e.IsAtsc) (hclocks : es.Pairwise fun e f => e.clock < f.clock) :
    (phasesMachine cfg).Along (boot uninitialised) (LampOnward cfg) es := by
  rintro pre e post rfl
  refine ⟨hlamps e (by simp), ?_, ?_⟩
  · rintro rfl
    exact hfirst e rfl
  · intro hsome
    obtain ⟨-, ⟨hnil, -⟩ | ⟨f, hf, hread⟩⟩ := currTime_run cfg uninitialised pre
    · exact absurd hnil hsome
    · rw [hread]
      exact_mod_cast (List.pairwise_append.mp hclocks).2.2 f hf e List.mem_cons_self

theorem planPhase_sniffedPhases : PlanPhase sniffedPhases 2 where
  listed := ⟨1, by decide, by decide⟩
  low := by decide
  high := by decide
  notOverlap := fun i hi => absurd hi List.not_mem_nil

/-- A record of the sniffers: its greens and yellows in their first bytes. -/
def sniffedRecord (greens yellows : BitVec 8) : AtscTyp where
  phaseStatusReds _ := 0
  phaseStatusYellows i := if i = 0 then yellows else 0
  phaseStatusGreens i := if i = 0 then greens else 0
  infoSource := ATSC_SOURCE_SNIFF

/-- A green in which the yellow is on for one trigger. -/
def yellowFlickers : List LoopEvent :=
  [eventAt 1 (.atsc (sniffedRecord 2 0)), eventAt 20 (.atsc (sniffedRecord 2 2)),
    eventAt 22 (.atsc (sniffedRecord 2 0))]

/-- A green that a yellow has interrupted counts from before it. -/
theorem lampTimed_along_iff_yellowFlickers :
    ¬ (phasesMachine sniffedPhases).Along (boot zeroed)
      (LampTimed sniffedPhases 2 (boot zeroed)) yellowFlickers := by
  have hstarts : NoStartToCome 2 zeroed := by
    intro color
    simp only [PhaseMemory.startOf, PhasesState.memory, zeroed, ite_self, le_refl]
  have hes : (phasesMachine sniffedPhases).Along (boot zeroed) (LampOnward sniffedPhases)
      yellowFlickers := by
    refine lampOnward_along zeroed ?_ ?_ ?_
    · intro e he
      simp only [yellowFlickers, List.mem_cons, List.not_mem_nil, or_false] at he
      rcases he with rfl | rfl | rfl
      all_goals exact .inr ⟨rfl, rfl, rfl⟩
    · intro e he
      obtain rfl := Option.mem_some_iff.mp he
      trivial
    · simp only [yellowFlickers, eventAt]
      decide
  rw [lampTimed_along_iff planPhase_sniffedPhases hstarts yellowFlickers hes]
  intro hturns
  have hlast := hturns [eventAt 1 (.atsc (sniffedRecord 2 0)),
    eventAt 20 (.atsc (sniffedRecord 2 2))] (eventAt 22 (.atsc (sniffedRecord 2 0))) [] rfl
    (List.cons_ne_nil _ _) SIGNAL_STATE_GREEN (by decide +kernel)
  have hyellow := hlast.mpr (by decide +kernel)
  exact absurd hyellow (by decide +kernel)

end RfsAtsc.Phases
