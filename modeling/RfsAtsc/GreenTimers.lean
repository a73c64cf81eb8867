import RfsAtsc.ColorInference
import RfsAtsc.PhaseTimers

/-!
# The timers from green only

From a source that gives green only the main loop also infers how long a phase has had its
colour.  In every run in which the clock does not go back, whatever the order of triggers and
timer events, it counts the time since the turn that brought the colour (`timed_along`).
-/

namespace RfsAtsc.Phases

open EventMachine

/-! ## One turn -/

/-- What a turn makes of a phase of which it reads green only. -/
structure GreenTurned (timeSec yellowLength : ℚ) (bit : Int) (m t : PhaseMemory) : Prop where
  green : t.green = bit
  oldGreen : t.oldGreen = m.oldGreen
  oldRed : t.oldRed = m.oldRed
  on : bit = 1 → t.signalColor = SIGNAL_STATE_GREEN ∧ t.red = 0 ∧
    t.startGreen = if m.oldGreen = 1 then m.startGreen else timeSec
  off : bit = 0 → t.startYellow = yellowStart timeSec m.oldGreen m.startYellow ∧
    t.signalColor = offColor timeSec t.startYellow yellowLength
  yellow : t.signalColor = SIGNAL_STATE_YELLOW → t.red = 0
  red : t.signalColor = SIGNAL_STATE_RED → t.red = 1 ∧
    t.startRed = if m.oldRed = 1 then m.startRed else timeSec
  redKept : m.oldRed = 1 → t.startRed = m.startRed

/-- A row makes the turn that the bit asks for. -/
theorem greenTurned_row (m : PhaseMemory) (timeSec yellowLength : ℚ) {bit : Int}
    (hbit : bit = 1 ∨ bit = 0) :
    GreenTurned timeSec yellowLength bit m (m.decode timeSec yellowLength (.greenOnly bit)) := by
  have hgreen : SIGNAL_STATE_GREEN ≠ SIGNAL_STATE_YELLOW ∧
      SIGNAL_STATE_GREEN ≠ SIGNAL_STATE_RED := by
    decide
  have hunknown : SIGNAL_STATE_UNKNOWN ≠ SIGNAL_STATE_YELLOW ∧
      SIGNAL_STATE_UNKNOWN ≠ SIGNAL_STATE_RED := by decide
  have hyellow : SIGNAL_STATE_YELLOW ≠ SIGNAL_STATE_RED := by decide
  constructor
  all_goals
    simp only [PhaseMemory.decode, PhaseMemory.showGreen, PhaseMemory.beginYellow,
      PhaseMemory.greenOff, PhaseMemory.showRed, yellowStart, offColor]
    grind

/-- A second row for the phase only brings its own length. -/
theorem GreenTurned.again {timeSec other yellowLength : ℚ} {bit : Int} {m t u : PhaseMemory}
    (h : GreenTurned timeSec other bit m t) (hagain : GreenTurned timeSec yellowLength bit t u) :
    GreenTurned timeSec yellowLength bit m u := by
  constructor
  case green => exact hagain.green
  case oldGreen => exact hagain.oldGreen.trans h.oldGreen
  case oldRed => exact hagain.oldRed.trans h.oldRed
  case on =>
      intro hset
      obtain ⟨hcolor, hred, hstart⟩ := hagain.on hset
      refine ⟨hcolor, hred, ?_⟩
      rw [hstart, h.oldGreen, (h.on hset).2.2]
      split
      · rfl
      · rfl
  case off =>
      intro hclear
      obtain ⟨hstart, hcolor⟩ := hagain.off hclear
      refine ⟨?_, hcolor⟩
      rw [hstart, h.oldGreen, (h.off hclear).1, yellowStart_yellowStart]
  case yellow => exact hagain.yellow
  case red =>
      intro hcolor
      obtain ⟨hred, hstart⟩ := hagain.red hcolor
      refine ⟨hred, ?_⟩
      rw [hstart, h.oldRed]
      by_cases hbefore : m.oldRed = 1
      · rw [if_pos hbefore, if_pos hbefore, h.redKept hbefore]
      · rw [if_neg hbefore, if_neg hbefore]
  case redKept =>
      intro hbefore
      rw [hagain.redKept (h.oldRed.trans hbefore), h.redKept hbefore]

/-! ## What is known of a phase after a turn -/

/-- What the loop has kept of a phase of which it reads green only, by its colour. -/
inductive GreenKept (timeSec yellowLength : ℚ) (m : PhaseMemory) : Prop where
  | unknown (color : m.signalColor = SIGNAL_STATE_UNKNOWN) (off : m.oldGreen = 0)
      (unset : m.startYellow = -1)
  | green (color : m.signalColor = SIGNAL_STATE_GREEN) (on : m.oldGreen = 1)
      (red : m.oldRed = 0)
  | yellow (color : m.signalColor = SIGNAL_STATE_YELLOW) (off : m.oldGreen = 0)
      (red : m.oldRed = 0) (begun : 0 ≤ m.startYellow)
      (lasts : timeSec - m.startYellow ≤ yellowLength)
  | red (color : m.signalColor = SIGNAL_STATE_RED) (off : m.oldGreen = 0) (red : m.oldRed = 1)
      (begun : 0 ≤ m.startYellow) (elapsed : yellowLength < timeSec - m.startYellow)

/-- A green began where it was noted. -/
theorem start_of_green {m : PhaseMemory} (hcolor : m.signalColor = SIGNAL_STATE_GREEN) :
    m.start = m.startGreen := if_pos hcolor

/-- So did a yellow. -/
theorem start_of_yellow {m : PhaseMemory} (hcolor : m.signalColor = SIGNAL_STATE_YELLOW) :
    m.start = m.startYellow := by
  rw [PhaseMemory.start, hcolor, if_neg (by decide), if_pos rfl]

/-- So did a red. -/
theorem start_of_red {m : PhaseMemory} (hcolor : m.signalColor = SIGNAL_STATE_RED) :
    m.start = m.startRed := by
  rw [PhaseMemory.start, hcolor, if_neg (by decide), if_neg (by decide)]

/-- Green was on in the turn before exactly if the phase was green. -/
theorem GreenKept.on_iff {timeSec yellowLength : ℚ} {m : PhaseMemory}
    (h : GreenKept timeSec yellowLength m) :
    m.oldGreen = 1 ↔ m.signalColor = SIGNAL_STATE_GREEN := by
  cases h with
  | green color on red => exact iff_of_true on color
  | unknown color off unset =>
      rw [off, color]
      decide
  | yellow color off red begun lasts =>
      rw [off, color]
      decide
  | red color off red begun elapsed =>
      rw [off, color]
      decide

section Turn

variable {timeSec yellowLength : ℚ} {m t : PhaseMemory}

/-- A turn with the green bit set. -/
theorem GreenTurned.kept_on (hturned : GreenTurned timeSec yellowLength 1 m t) :
    GreenKept timeSec yellowLength t.keep ∧
      t.start = if m.oldGreen = 1 then m.startGreen else timeSec := by
  obtain ⟨hcolor, hred, hstart⟩ := hturned.on rfl
  exact ⟨.green hcolor hturned.green hred, (start_of_green hcolor).trans hstart⟩

/-- A turn with the green bit clear, when it is not known when the yellow began. -/
theorem GreenTurned.kept_unknown (hturned : GreenTurned timeSec yellowLength 0 m t)
    (hunset : yellowStart timeSec m.oldGreen m.startYellow = -1) :
    GreenKept timeSec yellowLength t.keep ∧ t.signalColor = SIGNAL_STATE_UNKNOWN := by
  obtain ⟨hstart, hcolor⟩ := hturned.off rfl
  rw [hunset] at hstart
  rw [hstart, offColor, if_pos rfl] at hcolor
  exact ⟨.unknown hcolor hturned.green hstart, hcolor⟩

/-- A turn with the green bit clear, when it is. -/
theorem GreenTurned.kept_off (hturned : GreenTurned timeSec yellowLength 0 m t) {begun : ℚ}
    (hset : yellowStart timeSec m.oldGreen m.startYellow = begun) (hbegun : 0 ≤ begun) :
    GreenKept timeSec yellowLength t.keep ∧
      (timeSec - begun ≤ yellowLength ∧ t.signalColor = SIGNAL_STATE_YELLOW ∧ t.start = begun ∨
        yellowLength < timeSec - begun ∧ t.signalColor = SIGNAL_STATE_RED ∧
          t.start = if m.oldRed = 1 then m.startRed else timeSec) := by
  obtain ⟨hstart, hcolor⟩ := hturned.off rfl
  rw [hset] at hstart
  have hknown : begun ≠ -1 := by
    intro hmark
    rw [hmark] at hbegun
    exact absurd hbegun (by decide)
  have hbegun' : 0 ≤ t.startYellow := hstart.symm ▸ hbegun
  rw [offColor, hstart, if_neg hknown] at hcolor
  by_cases hlasts : timeSec - begun ≤ yellowLength
  · rw [if_pos hlasts] at hcolor
    have hlasts' : timeSec - t.startYellow ≤ yellowLength := hstart.symm ▸ hlasts
    exact ⟨.yellow hcolor hturned.green (hturned.yellow hcolor) hbegun' hlasts',
      .inl ⟨hlasts, hcolor, (start_of_yellow hcolor).trans hstart⟩⟩
  · rw [if_neg hlasts] at hcolor
    have hover : yellowLength < timeSec - begun := lt_of_not_ge hlasts
    have hover' : yellowLength < timeSec - t.startYellow := hstart.symm ▸ hover
    obtain ⟨hred, hnoted⟩ := hturned.red hcolor
    exact ⟨.red hcolor hturned.green hred hbegun' hover',
      .inr ⟨hover, hcolor, (start_of_red hcolor).trans hnoted⟩⟩

/-- A turn keeps what is known of a phase, and its colour is unknown, began with the turn, or is
that of the turn before and began when that did. -/
theorem GreenTurned.kept {before : ℚ} {bit : Int} (hbit : bit = 1 ∨ bit = 0)
    (hturned : GreenTurned timeSec yellowLength bit m t) (hlater : before ≤ timeSec)
    (hclock : 0 ≤ timeSec) (hm : GreenKept before yellowLength m) :
    GreenKept timeSec yellowLength t.keep ∧
      (t.signalColor = SIGNAL_STATE_UNKNOWN ∨
        m.signalColor ≠ t.signalColor ∧ t.start = timeSec ∨
        m.signalColor = t.signalColor ∧ t.start = m.start) := by
  rcases hbit with rfl | rfl
  · obtain ⟨hkept, hstart⟩ := hturned.kept_on
    have hcolor := (hturned.on rfl).1
    refine ⟨hkept, .inr ?_⟩
    by_cases hon : m.oldGreen = 1
    · have hgreen := hm.on_iff.mp hon
      rw [if_pos hon, ← start_of_green hgreen] at hstart
      exact .inr ⟨hgreen.trans hcolor.symm, hstart⟩
    · rw [if_neg hon] at hstart
      rw [hcolor]
      exact .inl ⟨fun hgreen => hon (hm.on_iff.mpr hgreen), hstart⟩
  · cases hm with
    | unknown color off unset =>
        obtain ⟨hkept, hcolor⟩ := hturned.kept_unknown (by rw [off, unset]; rfl)
        exact ⟨hkept, .inl hcolor⟩
    | green color on red =>
        obtain ⟨hkept, hcases⟩ := hturned.kept_off (by rw [on]; rfl) hclock
        refine ⟨hkept, .inr (.inl ?_)⟩
        rw [color]
        rcases hcases with ⟨_, hcolor, hstart⟩ | ⟨_, hcolor, hstart⟩
        · rw [hcolor]
          exact ⟨by decide, hstart⟩
        · rw [hcolor, hstart, red]
          exact ⟨by decide, if_neg (by decide)⟩
    | yellow color off red begun lasts =>
        obtain ⟨hkept, hcases⟩ := hturned.kept_off (by rw [off]; rfl) begun
        refine ⟨hkept, .inr ?_⟩
        rw [color]
        rcases hcases with ⟨_, hcolor, hstart⟩ | ⟨_, hcolor, hstart⟩
        · exact .inr ⟨hcolor.symm, hstart.trans (start_of_yellow color).symm⟩
        · rw [hcolor, hstart, red]
          exact .inl ⟨by decide, if_neg (by decide)⟩
    | red color off red begun elapsed =>
        obtain ⟨hkept, hcases⟩ := hturned.kept_off (by rw [off]; rfl) begun
        refine ⟨hkept, .inr (.inr ?_)⟩
        rcases hcases with ⟨hlasts, _⟩ | ⟨_, hcolor, hstart⟩
        · -- the clock has not gone back to before the yellow's end
          exact absurd hlasts (by linarith)
        · rw [if_pos red, ← start_of_red color] at hstart
          exact ⟨color.trans hcolor.symm, hstart⟩

/-- The first turn. -/
theorem GreenTurned.kept_first {bit : Int} (hbit : bit = 1 ∨ bit = 0)
    (hturned : GreenTurned timeSec yellowLength bit m t) (hfirst : m.oldGreen = -1) :
    GreenKept timeSec yellowLength t.keep ∧
      (t.signalColor = SIGNAL_STATE_UNKNOWN ∨ t.start = timeSec) := by
  rcases hbit with rfl | rfl
  · obtain ⟨hkept, hstart⟩ := hturned.kept_on
    rw [hfirst, if_neg (by decide)] at hstart
    exact ⟨hkept, .inr hstart⟩
  · obtain ⟨hkept, hcolor⟩ := hturned.kept_unknown (by rw [hfirst]; rfl)
    exact ⟨hkept, .inl hcolor⟩

end Turn

/-! ## Runs -/

/-- The first event is a trigger, each record gives green only, and the clock does not go
back. -/
def Onward (cfg : PhasesConfig) (pre : List LoopEvent) (s : PhasesState) (e : LoopEvent) :
    Prop :=
  TriggerFirst cfg pre s e ∧ s.currTime ≤ e.clock

/-- After a turn a phase has no time left when its colour is unknown, and otherwise the times
of a colour that it has had since the turn that brought it.  A yellow is not over. -/
structure Timed (cfg : PhasesConfig) (phase : Int) (start : PhasesState) (pre : List LoopEvent)
    (s : PhasesState) (e : LoopEvent) : Prop where
  unknown : (phasesStep cfg s e).1.signalColor phase = SIGNAL_STATE_UNKNOWN →
    (phasesStep cfg s e).1.timeLeft phase = 0
  known : (phasesStep cfg s e).1.signalColor phase ≠ SIGNAL_STATE_UNKNOWN →
    ∀ f, ColorCame cfg phase start (pre ++ [e]) f →
      Counts cfg.plan phase (cfg.plan.findRow phase 0) (e.clock - f.clock) (phasesStep cfg s e).1
  yellow : (phasesStep cfg s e).1.signalColor phase = SIGNAL_STATE_YELLOW →
    0 ≤ (phasesStep cfg s e).1.timeLeft phase

/-- The invariant of the loop for the timers of one phase. -/
structure TimerInv (cfg : PhasesConfig) (phase : Int) (start : PhasesState)
    (pre : List LoopEvent) (s : PhasesState) : Prop where
  run : s = (phasesMachine cfg).run start pre
  clocks : s.timeSec = s.currTime
  first : pre = [] → (s.memory phase).oldGreen = -1
  kept : pre ≠ [] → GreenKept s.timeSec (cfg.plan.yellowOf phase) (s.memory phase)
  reading : pre ≠ [] → ∃ bit, (bit = 1 ∨ bit = 0) ∧ s.atsc.reading cfg phase = .greenOnly bit
  came : s.signalColor phase ≠ SIGNAL_STATE_UNKNOWN →
    ∀ f, ColorCame cfg phase start pre f → (s.memory phase).start = f.clock

/-- At the start nothing has been timed. -/
theorem timerInv_boot (cfg : PhasesConfig) {phase : Int} (hphase : PlanPhase cfg phase)
    (uninitialised : PhasesState) :
    TimerInv cfg phase (boot uninitialised) [] (boot uninitialised) where
  run := rfl
  clocks := rfl
  first := fun _ => if_pos ⟨hphase.low, hphase.high⟩
  kept := fun hsome => absurd rfl hsome
  reading := fun hsome => absurd rfl hsome
  came := fun _ _ hf => absurd hf.mem List.not_mem_nil

/-- With greens alone one bit is read of a phase. -/
theorem reading_greenOnly {cfg : PhasesConfig} {atsc : AtscTyp}
    (hsource : GreenOnly cfg atsc.infoSource) (phase : Int) :
    atsc.reading cfg phase = .greenOnly (atscPhaseIsSet atsc.phaseStatusGreens phase) := by
  have hother : atsc.infoSource ≠ ATSC_SOURCE_NTCIP ∧
      ¬ (atsc.infoSource = ATSC_SOURCE_SNIFF ∧ cfg.sniffGreen = 1 ∧ cfg.sniffYellow = 1) := by
    rcases hsource with ⟨hsniff, _, hnone⟩ | habs
    · rw [hsniff, hnone]
      exact ⟨by decide, fun hboth => absurd hboth.2.2 (by decide)⟩
    · rw [habs]
      exact ⟨by decide, fun hboth => absurd hboth.1 (by decide)⟩
  rw [AtscTyp.reading, if_neg hother.1, if_neg hother.2, if_pos hsource]

/-- A turn reads green only. -/
theorem TimerInv.reads {cfg : PhasesConfig} {phase : Int} (hphase : PlanPhase cfg phase)
    {start s : PhasesState} {pre : List LoopEvent} {e : LoopEvent}
    (h : TimerInv cfg phase start pre s) (he : TriggerFirst cfg pre s e) :
    ∃ bit, (bit = 1 ∨ bit = 0) ∧ (receive s e).atsc.reading cfg phase = .greenOnly bit := by
  by_cases hbrings : e.IsAtsc
  · exact ⟨_, atscPhaseIsSet_eq_one_or_zero _ hphase.low hphase.high,
      reading_greenOnly (greenOnly_receive s hbrings he.1) phase⟩
  · rw [receive_other hbrings]
    exact h.reading fun hnil => hbrings (he.2 hnil)

/-- A turn decodes what it reads. -/
theorem TimerInv.turned {cfg : PhasesConfig} {phase : Int} (hphase : PlanPhase cfg phase)
    {start s : PhasesState} {pre : List LoopEvent} {e : LoopEvent}
    (h : TimerInv cfg phase start pre s) (he : TriggerFirst cfg pre s e) :
    ∃ bit, (bit = 1 ∨ bit = 0) ∧ (receive s e).atsc.reading cfg phase = .greenOnly bit ∧
      GreenTurned e.clock (cfg.plan.yellowOf phase) bit (s.memory phase)
        (turnMemory cfg phase s e) := by
  obtain ⟨bit, hbit, hreads⟩ := h.reads hphase he
  refine ⟨bit, hbit, hreads, ?_⟩
  rw [turnMemory, hreads]
  let R (i : Int) (t : PhaseMemory) : Prop :=
    GreenTurned e.clock (cfg.plan.yellowLength i) bit (s.memory phase) t
  have hagain : ∀ i j t, R j t →
      R i (t.decode e.clock (cfg.plan.yellowLength i) (.greenOnly bit)) :=
    fun i _ t ht => ht.again (greenTurned_row t e.clock (cfg.plan.yellowLength i) hbit)
  have hrow : ∀ i, R i ((s.memory phase).decode e.clock (cfg.plan.yellowLength i)
      (.greenOnly bit)) :=
    fun i => greenTurned_row (s.memory phase) e.clock (cfg.plan.yellowLength i) hbit
  exact decodeRows_of_again hrow hagain hphase.listed

/-- What a turn keeps of a phase, and when its colour began. -/
theorem TimerInv.turn {cfg : PhasesConfig} {phase : Int} {start s : PhasesState}
    {pre : List LoopEvent} {e : LoopEvent} {bit : Int} {t : PhaseMemory}
    (h : TimerInv cfg phase start pre s) (hlater : s.currTime ≤ e.clock)
    (hbit : bit = 1 ∨ bit = 0)
    (hturned : GreenTurned e.clock (cfg.plan.yellowOf phase) bit (s.memory phase) t) :
    GreenKept e.clock (cfg.plan.yellowOf phase) t.keep ∧
      (t.signalColor = SIGNAL_STATE_UNKNOWN ∨
        (pre = [] ∨ s.signalColor phase ≠ t.signalColor) ∧ t.start = e.clock ∨
        (pre ≠ [] ∧ s.signalColor phase = t.signalColor) ∧
          t.start = (s.memory phase).start) := by
  have hclock : (0 : ℚ) ≤ e.clock := e.clock.2
  by_cases hnil : pre = []
  · obtain ⟨hkept, hstart⟩ := hturned.kept_first hbit (h.first hnil)
    exact ⟨hkept, hstart.imp_right fun hnow => .inl ⟨.inl hnil, hnow⟩⟩
  · have hlater' : s.timeSec ≤ e.clock := h.clocks.symm ▸ hlater
    obtain ⟨hkept, hcolor⟩ := hturned.kept hbit hlater' hclock (h.kept hnil)
    refine ⟨hkept, hcolor.imp_right fun hstart => ?_⟩
    rcases hstart with ⟨hchanged, hnow⟩ | ⟨hsame, hbefore⟩
    · exact .inl ⟨.inr hchanged, hnow⟩
    · exact .inr ⟨⟨hnil, hsame⟩, hbefore⟩

/-- A turn keeps the timers in step with the inputs. -/
theorem timerInv_step {cfg : PhasesConfig} {phase : Int} (hphase : PlanPhase cfg phase)
    {start : PhasesState} (pre : List LoopEvent) (s : PhasesState) (e : LoopEvent)
    (h : TimerInv cfg phase start pre s) (he : Onward cfg pre s e) :
    TimerInv cfg phase start (pre ++ [e]) ((phasesMachine cfg).step s e).1 := by
  obtain ⟨bit, hbit, hreads, hturned⟩ := h.turned hphase he.1
  have hdone := phasesStep_turn hphase e h.clocks
  obtain ⟨hkept, hcolor⟩ := h.turn he.2 hbit hturned
  have hrun : (phasesStep cfg s e).1 = (phasesMachine cfg).run start (pre ++ [e]) := by
    rw [Machine.run_concat, ← h.run]
    rfl
  constructor
  case run => exact hrun
  case clocks => exact hdone.clock.1.trans hdone.clock.2.symm
  case first => exact fun hnil => absurd hnil (by simp)
  case kept =>
      intro _
      change GreenKept (phasesStep cfg s e).1.timeSec _ ((phasesStep cfg s e).1.memory phase)
      rw [hdone.clock.1, hdone.memory]
      exact hkept
  case reading => exact fun _ => ⟨bit, hbit, hdone.reading.trans hreads⟩
  case came =>
      intro hknown f hf
      have hafter : (phasesStep cfg s e).1.signalColor phase =
          (turnMemory cfg phase s e).signalColor :=
        congrArg PhaseMemory.signalColor hdone.memory
      have hstart : ((phasesStep cfg s e).1.memory phase).start =
          (turnMemory cfg phase s e).start := by
        rw [hdone.memory]
        rfl
      have hlast : (phasesMachine cfg).run start (pre ++ [e]) = (phasesStep cfg s e).1 :=
        hrun.symm
      change ((phasesStep cfg s e).1.memory phase).start = f.clock
      rw [hstart]
      rcases hcolor with hunknown | ⟨hnew, hnow⟩ | ⟨⟨hsome, hsame⟩, hbefore⟩
      · exact absurd (hafter.trans hunknown) hknown
      · have hfe : f = e := by
          refine (Machine.cameWith_new ?_).mp hf
          rw [hlast, ← h.run, hafter]
          exact hnew
        rw [hnow, hfe]
      · rw [hbefore]
        refine h.came ?_ f ?_
        · rw [hsame, ← hafter]
          exact hknown
        · refine (Machine.cameWith_kept hsome ?_).mp hf
          rw [hlast, ← h.run, hafter]
          exact hsame

/-- A phase of which green is read is unknown or has a colour. -/
theorem GreenKept.isColor {timeSec yellowLength : ℚ} {m : PhaseMemory}
    (h : GreenKept timeSec yellowLength m) (hknown : m.signalColor ≠ SIGNAL_STATE_UNKNOWN) :
    IsColor m.signalColor := by
  cases h with
  | unknown color off unset => exact absurd color hknown
  | green color on red => exact .inl color
  | yellow color off red begun lasts => exact .inr (.inl color)
  | red color off red begun elapsed => exact .inr (.inr color)

/-- A yellow that is shown is not over. -/
theorem GreenKept.yellow_lasts {timeSec yellowLength : ℚ} {m : PhaseMemory}
    (h : GreenKept timeSec yellowLength m) (hyellow : m.signalColor = SIGNAL_STATE_YELLOW) :
    timeSec - m.start ≤ yellowLength := by
  rw [start_of_yellow hyellow]
  cases h with
  | yellow color off red begun lasts => exact lasts
  | unknown color off unset => exact absurd (color.symm.trans hyellow) (by decide)
  | green color on red => exact absurd (color.symm.trans hyellow) (by decide)
  | red color off red begun elapsed => exact absurd (color.symm.trans hyellow) (by decide)

/-- So the times shown count from the turn that brought the colour. -/
theorem timed_of_timerInv {cfg : PhasesConfig} {phase : Int} (hphase : PlanPhase cfg phase)
    {start : PhasesState} (pre : List LoopEvent) (s : PhasesState) (e : LoopEvent)
    (h : TimerInv cfg phase start pre s) (he : Onward cfg pre s e) :
    Timed cfg phase start pre s e := by
  have hnext := timerInv_step hphase pre s e h he
  have hkept : GreenKept (phasesStep cfg s e).1.timeSec (cfg.plan.yellowOf phase)
      ((phasesStep cfg s e).1.memory phase) := hnext.kept (by simp)
  have hdone := phasesStep_turn hphase e h.clocks
  have hcounted := hdone.counted
  have hcounts (hcolor : IsColor ((phasesStep cfg s e).1.signalColor phase)) :
      Counts cfg.plan phase (cfg.plan.findRow phase 0)
        (e.clock - ((phasesStep cfg s e).1.memory phase).start) (phasesStep cfg s e).1 := by
    have hcolor' : IsColor ((phasesStep cfg s e).1.memory phase).signalColor := hcolor
    rw [hdone.memory] at hcolor' ⊢
    rw [← hdone.clock.1]
    exact hcounted.color hcolor'
  constructor
  case unknown =>
      intro hunknown
      have hunknown' : ((phasesStep cfg s e).1.memory phase).signalColor =
          SIGNAL_STATE_UNKNOWN := hunknown
      rw [hdone.memory] at hunknown'
      exact hcounted.unknown hunknown'
  case known =>
      intro hknown f hf
      rw [← hnext.came hknown f hf]
      exact hcounts (hkept.isColor hknown)
  case yellow =>
      intro hyellow
      have hlasts := hkept.yellow_lasts hyellow
      rw [(hcounts (.inr (.inl hyellow))).timeLeft, hyellow, TimingPlan.leftAfter, if_pos rfl,
        sub_nonneg, ← hdone.clock.1]
      exact hlasts

/-- A run is one of these when its first event is a trigger, its records give green only, and
its readings of the clock are in order. -/
theorem onward_along {cfg : PhasesConfig} (uninitialised : PhasesState) {es : List LoopEvent}
    (hgreen : ∀ e ∈ es, e.BringsGreenOnly cfg) (hfirst : ∀ e ∈ es.head?, e.IsAtsc)
    (hclocks : es.Pairwise fun e f => e.clock ≤ f.clock) :
    (phasesMachine cfg).Along (boot uninitialised) (Onward cfg) es := by
  rintro pre e post rfl
  refine ⟨⟨hgreen e (by simp), ?_⟩, ?_⟩
  · rintro rfl
    exact hfirst e rfl
  · obtain ⟨-, ⟨-, hzero⟩ | ⟨f, hf, hread⟩⟩ := currTime_run cfg uninitialised pre
    · rw [hzero]
      exact e.clock.2
    · rw [hread]
      exact_mod_cast (List.pairwise_append.mp hclocks).2.2 f hf e List.mem_cons_self

/-- **The timers from green only.**  Along every run in which each record gives green only, a
trigger comes first and the clock does not go back, a phase of the plan has after every turn
the times of a colour that it has had since the turn that brought it. -/
theorem timed_along {cfg : PhasesConfig} {phase : Int} (hphase : PlanPhase cfg phase)
    (uninitialised : PhasesState) (es : List LoopEvent)
    (hes : (phasesMachine cfg).Along (boot uninitialised) (Onward cfg) es) :
    (phasesMachine cfg).Along (boot uninitialised) (Timed cfg phase (boot uninitialised)) es :=
  (phasesMachine cfg).along_of_history (timerInv_boot cfg hphase uninitialised)
    (timerInv_step hphase) (timed_of_timerInv hphase) es hes

/-- A green and its end have their times. -/
theorem timed_along_greenEnds :
    (phasesMachine rfsPhases).Along (boot zeroed) (Timed rfsPhases 2 (boot zeroed)) greenEnds := by
  refine timed_along planPhase_rfsPhases zeroed greenEnds (onward_along zeroed ?_ ?_ ?_)
  · intro e he
    simp only [greenEnds, List.mem_cons, List.not_mem_nil, or_false] at he
    rcases he with rfl | rfl | rfl | rfl
    · exact .inr rfl
    · exact .inr rfl
    · trivial
    · trivial
  · intro e he
    obtain rfl := Option.mem_some_iff.mp he
    trivial
  · simp only [greenEnds, eventAt]
    decide

end RfsAtsc.Phases
