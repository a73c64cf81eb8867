import RfsAtsc.GreenDecoding

/-!
# The colours that are broadcast

From records with green only, or green and yellow, `phases` infers the other colours and
completes the record in place before it sends it on.  With green only it rewrites both other
bits of a phase.  With green and yellow it rewrites the red bit alone, so a phase that came
with both inputs on is decoded yellow and goes out green as well.
-/

namespace RfsAtsc.Phases

open TracedMemory EventMachine

/-! ## The machine with its plans -/

/-- The main loop, with the timing plan that each turn finds in effect. -/
def plansMachine (cfg : PhasesConfig) : Machine PhasesState (TimingPlan × LoopEvent) AtscTyp where
  step := fun s e => phasesStep { cfg with plan := e.1 } s e.2

/-- The source gives green and yellow. -/
def GreenYellow (cfg : PhasesConfig) (infoSource : Int) : Prop :=
  infoSource = ATSC_SOURCE_SNIFF ∧ cfg.sniffGreen = 1 ∧ cfg.sniffYellow = 1

/-- The source gives green and yellow, or green only: the record is completed. -/
def Completed (cfg : PhasesConfig) (infoSource : Int) : Prop :=
  GreenYellow cfg infoSource ∨ GreenOnly cfg infoSource

/-- A phase that the controllers number. -/
def IsPhase (phase : Int) : Prop := 1 ≤ phase ∧ phase ≤ MAX_PHASES

/-- Of the phase's three bits exactly that of the colour is set. -/
structure ShowsColor (record : AtscTyp) (phase color : Int) : Prop where
  green : atscPhaseIsSet record.phaseStatusGreens phase = 1 ↔ color = SIGNAL_STATE_GREEN
  yellow : atscPhaseIsSet record.phaseStatusYellows phase = 1 ↔ color = SIGNAL_STATE_YELLOW
  red : atscPhaseIsSet record.phaseStatusReds phase = 1 ↔ color = SIGNAL_STATE_RED

/-- The phase has been decoded green, yellow or red. -/
def IsColor (color : Int) : Prop :=
  color = SIGNAL_STATE_GREEN ∨ color = SIGNAL_STATE_YELLOW ∨ color = SIGNAL_STATE_RED

/-- Each phase of the plan that has been decoded green, yellow or red is shown so in every
completed record that the turn broadcasts. -/
def BroadcastShows (cfg : PhasesConfig) (s : PhasesState) (e : LoopEvent) : Prop :=
  ∀ record ∈ (phasesStep cfg s e).2, Completed cfg record.infoSource →
    ∀ i ∈ upTo cfg.plan.noPhases, IsPhase (cfg.plan.phaseIndex i) →
      IsColor ((decode cfg (receive s e)).signalColor (cfg.plan.phaseIndex i)) →
        ShowsColor record (cfg.plan.phaseIndex i)
          ((decode cfg (receive s e)).signalColor (cfg.plan.phaseIndex i))

/-- A phase has its green and its yellow bit in the record. -/
def BothInputs (record : AtscTyp) (phase : Int) : Prop :=
  atscPhaseIsSet record.phaseStatusGreens phase = 1 ∧
    atscPhaseIsSet record.phaseStatusYellows phase = 1

/-- No phase of the plan has both inputs in the record as received, where the source gives
green and yellow and the record is sent on. -/
def OneInput (cfg : PhasesConfig) (s : PhasesState) (e : LoopEvent) : Prop :=
  (receive s e).firstTrigger = true → GreenYellow cfg (receive s e).atsc.infoSource →
    ∀ i ∈ upTo cfg.plan.noPhases, IsPhase (cfg.plan.phaseIndex i) →
      ¬ BothInputs (receive s e).atsc (cfg.plan.phaseIndex i)

/-! ## One row -/

/-- The colour and the bits of a phase are as before. -/
structure SameLamp (phase : Int) (s t : PhasesState) : Prop where
  color : t.signalColor phase = s.signalColor phase
  yellow : atscPhaseIsSet t.atsc.phaseStatusYellows phase = 1 ↔
    atscPhaseIsSet s.atsc.phaseStatusYellows phase = 1
  red : atscPhaseIsSet t.atsc.phaseStatusReds phase = 1 ↔
    atscPhaseIsSet s.atsc.phaseStatusReds phase = 1

/-- A status array with one phase set or clear, or as it was. -/
def Touched (num : Int) (status status' : StatusArray) : Prop :=
  status' = status ∨ status' = setAtscPhase status num ∨ status' = clearAtscPhase status num

/-- A write to one phase's bit leaves the others' bits as they were. -/
theorem Touched.isSet_iff {num phase : Int} (hphase : IsPhase phase) (hne : phase ≠ num)
    {status status' : StatusArray} (h : Touched num status status') :
    atscPhaseIsSet status' phase = 1 ↔ atscPhaseIsSet status phase = 1 := by
  have hhigh : phase ≤ 32 := hphase.2.trans (by decide)
  rcases h with rfl | rfl | rfl
  · exact Iff.rfl
  · exact (isSet_setAtscPhase status num hphase.1 hhigh).trans (or_iff_left hne)
  · exact (isSet_clearAtscPhase status num hphase.1 hhigh).trans (and_iff_left hne)

/-- A turn writes at most the lamp of `num`. -/
structure Writes (num : Int) (s t : PhasesState) : Prop where
  color : ∀ phase ≠ num, t.signalColor phase = s.signalColor phase
  yellow : Touched num s.atsc.phaseStatusYellows t.atsc.phaseStatusYellows
  red : Touched num s.atsc.phaseStatusReds t.atsc.phaseStatusReds

/-- What writes in both branches writes. -/
theorem Writes.ite {num : Int} {s t u : PhasesState} {c : Prop} [Decidable c] (ht : Writes num s t)
    (hu : Writes num s u) : Writes num s (if c then t else u) := by
  split
  · exact ht
  · exact hu

/-- The writes of a row leave the other phases' lamps as they were. -/
theorem Writes.sameLamp {num phase : Int} (hphase : IsPhase phase) (hne : phase ≠ num)
    {s t : PhasesState} (h : Writes num s t) : SameLamp phase s t :=
  ⟨h.color phase hne, h.yellow.isSet_iff hphase hne, h.red.isSet_iff hphase hne⟩

section Rows

variable (plan : TimingPlan) (s : PhasesState) (num i : Int)

/-- A colour stored is that of the row's own phase. -/
private theorem update_color (color : Int) :
    ∀ phase ≠ num, Function.update s.signalColor num color phase = s.signalColor phase :=
  fun _ hne => Function.update_of_ne hne _ _

/-- A row of NTCIP writes its own phase only. -/
theorem decodeAll_writes : Writes num s (decodeAll s num) :=
  .ite ⟨update_color s num _, .inl rfl, .inl rfl⟩
    (.ite ⟨update_color s num _, .inl rfl, .inl rfl⟩
      (.ite ⟨update_color s num _, .inl rfl, .inl rfl⟩ ⟨fun _ _ => rfl, .inl rfl, .inl rfl⟩))

/-- A row of greens and yellows writes its own phase only. -/
theorem decodeGreenYellow_writes : Writes num s (decodeGreenYellow plan s num) :=
  .ite ⟨update_color s num _, .inl rfl, .inr (.inr rfl)⟩
    (.ite (.ite ⟨update_color s num _, .inl rfl, .inr (.inr rfl)⟩
        ⟨update_color s num _, .inl rfl, .inr (.inr rfl)⟩)
      (.ite (.ite ⟨update_color s num _, .inl rfl, .inr (.inl rfl)⟩
          ⟨update_color s num _, .inl rfl, .inr (.inl rfl)⟩)
        ⟨fun _ _ => rfl, .inl rfl, .inl rfl⟩))

/-- What a row does behind a green is its own phase's. -/
theorem decodeGreenOff_writes : Writes num s (decodeGreenOff plan s num i) :=
  .ite ⟨update_color s num _, .inl rfl, .inl rfl⟩
    (.ite ⟨update_color s num _, .inr (.inl rfl), .inr (.inr rfl)⟩
      (.ite ⟨update_color s num _, .inr (.inr rfl), .inr (.inl rfl)⟩
        ⟨update_color s num _, .inr (.inr rfl), .inr (.inl rfl)⟩))

/-- A row of greens and yellows does not write the yellows. -/
theorem decodeGreenYellow_yellows :
    (decodeGreenYellow plan s num).atsc.phaseStatusYellows = s.atsc.phaseStatusYellows := by
  unfold decodeGreenYellow
  dsimp only
  split
  · rfl
  · split
    · split
      · rfl
      · rfl
    · split
      · split
        · rfl
        · rfl
      · rfl

/-- The begin of a yellow shows nothing yet. -/
theorem beginYellow_lamps :
    (beginYellow plan s num).signalColor = s.signalColor ∧
      (beginYellow plan s num).atsc = s.atsc := by
  unfold beginYellow
  split
  · exact ⟨rfl, rfl⟩
  · exact ⟨rfl, rfl⟩

/-- A row of greens alone writes its own phase only. -/
theorem decodeGreenOnly_writes : Writes num s (decodeGreenOnly plan s num i) := by
  refine .ite ⟨update_color s num _, .inr (.inr rfl), .inr (.inr rfl)⟩
    (.ite ?_ ⟨fun _ _ => rfl, .inl rfl, .inl rfl⟩)
  let t : PhasesState :=
    { s with green := Function.update s.green num (atscPhaseIsSet s.atsc.phaseStatusGreens num) }
  obtain ⟨hcolor, hatsc⟩ := beginYellow_lamps plan t num
  have hoff := decodeGreenOff_writes plan (beginYellow plan t num) num i
  refine ⟨fun phase hne => ?_, ?_, ?_⟩
  · exact (hoff.color phase hne).trans (congrFun hcolor phase)
  · have hyellow := hoff.yellow
    rw [hatsc] at hyellow
    exact hyellow
  · have hred := hoff.red
    rw [hatsc] at hred
    exact hred

/-- A row writes at most its own phase's lamp. -/
theorem decodeRow_writes (cfg : PhasesConfig) :
    Writes (cfg.plan.phaseIndex i) s (decodeRow cfg s i) :=
  .ite (decodeAll_writes s _) (.ite (decodeGreenYellow_writes _ s _)
    (.ite (decodeGreenOnly_writes _ s _ i) ⟨fun _ _ => rfl, .inl rfl, .inl rfl⟩))

end Rows

/-! ## A row's own phase -/

/-- If it has been decoded green, yellow or red, the phase is shown so. -/
def Shown (phase : Int) (s : PhasesState) : Prop :=
  IsColor (s.signalColor phase) → ShowsColor s.atsc phase (s.signalColor phase)

/-- The phase is shown in a colour that is known, with these bits. -/
theorem shown_of_bits {phase color : Int} {s : PhasesState} (hcolor : s.signalColor phase = color)
    (hgreen : atscPhaseIsSet s.atsc.phaseStatusGreens phase = 1 ↔ color = SIGNAL_STATE_GREEN)
    (hyellow : atscPhaseIsSet s.atsc.phaseStatusYellows phase = 1 ↔ color = SIGNAL_STATE_YELLOW)
    (hred : atscPhaseIsSet s.atsc.phaseStatusReds phase = 1 ↔ color = SIGNAL_STATE_RED) :
    Shown phase s := by
  intro _
  rw [hcolor]
  exact ⟨hgreen, hyellow, hred⟩

section OwnPhase

variable {phase : Int} (hphase : IsPhase phase) (status : StatusArray)

include hphase

/-- A bit that is set is read as set. -/
theorem isSet_set_self : atscPhaseIsSet (setAtscPhase status phase) phase = 1 :=
  (isSet_setAtscPhase status phase hphase.1 (hphase.2.trans (by decide))).mpr (Or.inr rfl)

/-- A bit that is cleared is not. -/
theorem not_isSet_clear_self : ¬ atscPhaseIsSet (clearAtscPhase status phase) phase = 1 := by
  intro h
  exact ((isSet_clearAtscPhase status phase hphase.1 (hphase.2.trans (by decide))).mp h).2 rfl

end OwnPhase

/-- A phase's bit is 1 or 0. -/
theorem atsc_isSet_cases {phase : Int} (hphase : IsPhase phase) (status : StatusArray) :
    atscPhaseIsSet status phase = 1 ∨ atscPhaseIsSet status phase = 0 :=
  atscPhaseIsSet_eq_one_or_zero status hphase.1 hphase.2

/-- What a row of a source with green and yellow leaves of its phase. -/
structure GreenYellowRow (phase : Int) (s t : PhasesState) : Prop where
  shown : ¬ BothInputs s.atsc phase → Shown phase t
  both : BothInputs s.atsc phase → t.signalColor phase = SIGNAL_STATE_YELLOW

section GreenYellowRow

variable {phase : Int} {s t : PhasesState}

/-- A cleared bit goes with another colour. -/
private theorem one_ne_color {c d : Int} (hne : c ≠ d) {b : Int} (hb : b = 0) :
    b = 1 ↔ c = d := by
  constructor
  · intro h
    omega
  · exact fun h => absurd h hne

/-- The row of a green phase. -/
theorem greenRow (hphase : IsPhase phase) (hcolor : t.signalColor phase = SIGNAL_STATE_GREEN)
    (hgreens : t.atsc.phaseStatusGreens = s.atsc.phaseStatusGreens)
    (hyellows : t.atsc.phaseStatusYellows = s.atsc.phaseStatusYellows)
    (hreds : t.atsc.phaseStatusReds = clearAtscPhase s.atsc.phaseStatusReds phase)
    (hgreen : atscPhaseIsSet s.atsc.phaseStatusGreens phase = 1)
    (hyellow : atscPhaseIsSet s.atsc.phaseStatusYellows phase = 0) : GreenYellowRow phase s t := by
  refine ⟨fun _ => shown_of_bits hcolor ?_ ?_ ?_, fun hboth => ?_⟩
  · rw [hgreens]
    exact iff_of_true hgreen rfl
  · rw [hyellows]
    exact one_ne_color (by decide) hyellow
  · rw [hreds]
    exact iff_of_false (not_isSet_clear_self hphase _) (by decide)
  · have hon := hboth.2
    omega

/-- The row of a yellow phase, whose green bit may be set as well. -/
theorem yellowRow (hphase : IsPhase phase) (hcolor : t.signalColor phase = SIGNAL_STATE_YELLOW)
    (hgreens : t.atsc.phaseStatusGreens = s.atsc.phaseStatusGreens)
    (hyellows : t.atsc.phaseStatusYellows = s.atsc.phaseStatusYellows)
    (hreds : t.atsc.phaseStatusReds = clearAtscPhase s.atsc.phaseStatusReds phase)
    (hyellow : atscPhaseIsSet s.atsc.phaseStatusYellows phase = 1) : GreenYellowRow phase s t := by
  refine ⟨fun hone => shown_of_bits hcolor ?_ ?_ ?_, fun _ => hcolor⟩
  · rw [hgreens]
    exact iff_of_false (fun hgreen => hone ⟨hgreen, hyellow⟩) (by decide)
  · rw [hyellows]
    exact iff_of_true hyellow rfl
  · rw [hreds]
    exact iff_of_false (not_isSet_clear_self hphase _) (by decide)

/-- The row of a red phase. -/
theorem redRow (hphase : IsPhase phase) (hcolor : t.signalColor phase = SIGNAL_STATE_RED)
    (hgreens : t.atsc.phaseStatusGreens = s.atsc.phaseStatusGreens)
    (hyellows : t.atsc.phaseStatusYellows = s.atsc.phaseStatusYellows)
    (hreds : t.atsc.phaseStatusReds = setAtscPhase s.atsc.phaseStatusReds phase)
    (hgreen : atscPhaseIsSet s.atsc.phaseStatusGreens phase = 0)
    (hyellow : atscPhaseIsSet s.atsc.phaseStatusYellows phase = 0) : GreenYellowRow phase s t := by
  refine ⟨fun _ => shown_of_bits hcolor ?_ ?_ ?_, fun hboth => ?_⟩
  · rw [hgreens]
    exact one_ne_color (by decide) hgreen
  · rw [hyellows]
    exact one_ne_color (by decide) hyellow
  · rw [hreds]
    exact iff_of_true (isSet_set_self hphase _) rfl
  · have hon := hboth.1
    omega

/-- A row of greens and yellows leaves its phase's lamps as the row stands. -/
theorem decodeGreenYellow_row (plan : TimingPlan) (s : PhasesState) (hphase : IsPhase phase) :
    GreenYellowRow phase s (decodeGreenYellow plan s phase) := by
  unfold decodeGreenYellow
  simp only [Function.update_self]
  rcases atsc_isSet_cases hphase s.atsc.phaseStatusYellows with hyellow | hyellow
  · have hgreen : ¬ (atscPhaseIsSet s.atsc.phaseStatusGreens phase = 1 ∧
        atscPhaseIsSet s.atsc.phaseStatusYellows phase = 0) := by
      intro h
      omega
    rw [if_neg hgreen, if_pos hyellow]
    split
    · exact yellowRow hphase (Function.update_self _ _ _) rfl rfl rfl hyellow
    · exact yellowRow hphase (Function.update_self _ _ _) rfl rfl rfl hyellow
  · have hoff : ¬ atscPhaseIsSet s.atsc.phaseStatusYellows phase = 1 := by omega
    rcases atsc_isSet_cases hphase s.atsc.phaseStatusGreens with hgreen | hgreen
    · rw [if_pos ⟨hgreen, hyellow⟩]
      exact greenRow hphase (Function.update_self _ _ _) rfl rfl rfl hgreen hyellow
    · have hnot : ¬ (atscPhaseIsSet s.atsc.phaseStatusGreens phase = 1 ∧
          atscPhaseIsSet s.atsc.phaseStatusYellows phase = 0) := by
        intro h
        omega
      rw [if_neg hnot, if_neg hoff, if_pos ⟨hgreen, hyellow⟩]
      split
      · exact redRow hphase (Function.update_self _ _ _) rfl rfl rfl hgreen hyellow
      · exact redRow hphase (Function.update_self _ _ _) rfl rfl rfl hgreen hyellow

end GreenYellowRow

/-- Without green, a phase is shown in the colour that is inferred. -/
theorem decodeGreenOff_shown (plan : TimingPlan) (s : PhasesState) {phase : Int}
    (hphase : IsPhase phase) (i : Int)
    (hgreen : atscPhaseIsSet s.atsc.phaseStatusGreens phase = 0) :
    Shown phase (decodeGreenOff plan s phase i) := by
  have hyellowOn := isSet_set_self hphase s.atsc.phaseStatusYellows
  have hyellowOff := not_isSet_clear_self hphase s.atsc.phaseStatusYellows
  have hredOn := isSet_set_self hphase s.atsc.phaseStatusReds
  have hredOff := not_isSet_clear_self hphase s.atsc.phaseStatusReds
  unfold decodeGreenOff
  split
  · intro hcolor
    have hunknown : (Function.update s.signalColor phase SIGNAL_STATE_UNKNOWN) phase =
        SIGNAL_STATE_UNKNOWN := Function.update_self _ _ _
    unfold IsColor at hcolor
    simp only [hunknown] at hcolor
    exact absurd hcolor (by decide)
  · split
    · exact shown_of_bits (Function.update_self _ _ _) (one_ne_color (by decide) hgreen)
        (iff_of_true hyellowOn rfl) (iff_of_false hredOff (by decide))
    · dsimp only
      split
      · exact shown_of_bits (Function.update_self _ _ _) (one_ne_color (by decide) hgreen)
          (iff_of_false hyellowOff (by decide)) (iff_of_true hredOn rfl)
      · exact shown_of_bits (Function.update_self _ _ _) (one_ne_color (by decide) hgreen)
          (iff_of_false hyellowOff (by decide)) (iff_of_true hredOn rfl)

/-- A row of greens alone leaves its phase shown by one lamp. -/
theorem decodeGreenOnly_shown (plan : TimingPlan) (s : PhasesState) {phase : Int}
    (hphase : IsPhase phase) (i : Int) : Shown phase (decodeGreenOnly plan s phase i) := by
  unfold decodeGreenOnly
  simp only [Function.update_self]
  rcases atsc_isSet_cases hphase s.atsc.phaseStatusGreens with hgreen | hgreen
  · rw [if_pos hgreen]
    exact shown_of_bits (Function.update_self _ _ _) (iff_of_true hgreen rfl)
      (iff_of_false (not_isSet_clear_self hphase _) (by decide))
      (iff_of_false (not_isSet_clear_self hphase _) (by decide))
  · have hoff : ¬ atscPhaseIsSet s.atsc.phaseStatusGreens phase = 1 := by omega
    rw [if_neg hoff, if_pos hgreen]
    refine decodeGreenOff_shown plan _ hphase i ?_
    rw [(beginYellow_lamps plan _ phase).2]
    exact hgreen

/-! ## All rows -/

/-- With greens and yellows there is one way to decode a row. -/
theorem decodeRow_greenYellow {cfg : PhasesConfig} {s : PhasesState}
    (hsource : GreenYellow cfg s.atsc.infoSource) (i : Int) :
    decodeRow cfg s i = decodeGreenYellow cfg.plan s (cfg.plan.phaseIndex i) := by
  have hntcip : ¬ s.atsc.infoSource = ATSC_SOURCE_NTCIP := by
    rw [hsource.1]
    decide
  unfold decodeRow
  rw [if_neg hntcip]
  exact if_pos hsource

/-- One of the rows is the phase's. -/
def ListedIn (cfg : PhasesConfig) (is : List Int) (phase : Int) : Prop :=
  ∃ i ∈ is, cfg.plan.phaseIndex i = phase

/-- What the rows so far have made of the record and the colours. -/
structure RowsShown (cfg : PhasesConfig) (s t : PhasesState) (is : List Int) : Prop where
  inputs : SameInputs s t
  yellows : GreenYellow cfg s.atsc.infoSource →
    t.atsc.phaseStatusYellows = s.atsc.phaseStatusYellows
  shown : ∀ phase, IsPhase phase → ListedIn cfg is phase →
    (GreenYellow cfg s.atsc.infoSource → ¬ BothInputs s.atsc phase) → Shown phase t
  both : GreenYellow cfg s.atsc.infoSource → ∀ phase, IsPhase phase → ListedIn cfg is phase →
    BothInputs s.atsc phase → t.signalColor phase = SIGNAL_STATE_YELLOW

/-- What another row leaves of a phase. -/
theorem Shown.of_sameLamp {phase : Int} {s t : PhasesState} (h : Shown phase s)
    (hsame : SameLamp phase s t) (hgreens : t.atsc.phaseStatusGreens = s.atsc.phaseStatusGreens) :
    Shown phase t := by
  intro hcolor
  rw [hsame.color] at hcolor ⊢
  obtain ⟨hgreen, hyellow, hred⟩ := h hcolor
  rw [← hgreens] at hgreen
  exact ⟨hgreen, hsame.yellow.trans hyellow, hsame.red.trans hred⟩

/-- A phase of the rows with one more, which is not of that one. -/
theorem ListedIn.before {cfg : PhasesConfig} {is : List Int} {i phase : Int}
    (h : ListedIn cfg (is ++ [i]) phase) (hne : cfg.plan.phaseIndex i ≠ phase) :
    ListedIn cfg is phase := by
  obtain ⟨j, hj, hphase⟩ := h
  rcases List.mem_append.mp hj with hj | hj
  · exact ⟨j, hj, hphase⟩
  · rw [List.mem_singleton.mp hj] at hphase
    exact absurd hphase hne

/-- No phase is listed in no rows. -/
theorem not_listedIn_nil {cfg : PhasesConfig} {phase : Int} : ¬ ListedIn cfg [] phase := by
  intro h
  obtain ⟨i, hi, _⟩ := h
  exact absurd hi List.not_mem_nil

/-- One more row shows its own phase and leaves the others as they are. -/
theorem RowsShown.row {cfg : PhasesConfig} {s t : PhasesState} {is : List Int}
    (hsource : Completed cfg s.atsc.infoSource) (h : RowsShown cfg s t is) (i : Int) :
    RowsShown cfg s (decodeRow cfg t i) (is ++ [i]) := by
  have hinputs := (decodeRow_redecoded cfg t i).sameInputs
  have hwrites := decodeRow_writes t i cfg
  have hboth : GreenYellow cfg s.atsc.infoSource → ∀ phase,
      BothInputs t.atsc phase ↔ BothInputs s.atsc phase := by
    intro hgy phase
    rw [BothInputs, BothInputs, h.inputs.greens, h.yellows hgy]
  have hrow : GreenYellow cfg s.atsc.infoSource → ∀ phase, IsPhase phase →
      cfg.plan.phaseIndex i = phase → GreenYellowRow phase t (decodeRow cfg t i) := by
    intro hgy phase hphase hi
    rw [← h.inputs.infoSource] at hgy
    rw [decodeRow_greenYellow hgy, hi]
    exact decodeGreenYellow_row cfg.plan t hphase
  refine ⟨h.inputs.trans hinputs, fun hgy => ?_, fun phase hphase hlisted hone => ?_,
    fun hgy phase hphase hlisted hinput => ?_⟩
  · rw [← h.yellows hgy]
    rw [← h.inputs.infoSource] at hgy
    rw [decodeRow_greenYellow hgy]
    exact decodeGreenYellow_yellows cfg.plan t _
  · by_cases hi : cfg.plan.phaseIndex i = phase
    · rcases hsource with hgy | honly
      · exact (hrow hgy phase hphase hi).shown fun hinput =>
          hone hgy ((hboth hgy phase).mp hinput)
      · rw [← h.inputs.infoSource] at honly
        rw [decodeRow_greenOnly honly, hi]
        exact decodeGreenOnly_shown cfg.plan t hphase i
    · have hbefore := h.shown phase hphase (hlisted.before hi) hone
      exact hbefore.of_sameLamp (hwrites.sameLamp hphase (Ne.symm hi)) hinputs.greens
  · by_cases hi : cfg.plan.phaseIndex i = phase
    · exact (hrow hgy phase hphase hi).both ((hboth hgy phase).mpr hinput)
    · have hbefore := h.both hgy phase hphase (hlisted.before hi) hinput
      exact (hwrites.color phase (Ne.symm hi)).trans hbefore

/-- The rows show every phase that they list, and a phase with both inputs as yellow. -/
theorem rowsShown {cfg : PhasesConfig} {s : PhasesState} (hsource : Completed cfg s.atsc.infoSource)
    (is : List Int) : RowsShown cfg s (is.foldl (decodeRow cfg) s) is := by
  induction is using List.reverseRecOn with
  | nil =>
      exact ⟨⟨rfl, rfl, rfl, rfl, rfl⟩, fun _ => rfl,
        fun _ _ hlisted _ => absurd hlisted not_listedIn_nil,
        fun _ _ _ hlisted _ => absurd hlisted not_listedIn_nil⟩
  | append_singleton is i ih =>
      rw [List.foldl_append]
      exact ih.row hsource i

/-! ## The broadcasts of a run -/

/-- A turn broadcasts the record as its decoder leaves it. -/
theorem mem_broadcast_iff (cfg : PhasesConfig) (s : PhasesState) (e : LoopEvent)
    (record : AtscTyp) :
    record ∈ (phasesStep cfg s e).2 ↔
      ((((receive s e).atsc.infoSource = ATSC_SOURCE_SNIFF ∨
          (receive s e).atsc.infoSource = ATSC_SOURCE_AB3418) ∧ (receive s e).firstTrigger = true) ∧
        record = (decode cfg (receive s e)).atsc) := by
  have hdecoded := decodeRows_redecoded cfg (upTo cfg.plan.noPhases) (receive s e)
  have hcounted := countdown_recounted cfg.plan (decode cfg (receive s e))
  have hatsc : (countdown cfg.plan (decode cfg (receive s e))).atsc =
      (decode cfg (receive s e)).atsc := by
    rw [hcounted]
  have hfirst : (countdown cfg.plan (decode cfg (receive s e))).firstTrigger =
      (receive s e).firstTrigger := by
    rw [hcounted]
    change (decode cfg (receive s e)).firstTrigger = _
    rw [decode, hdecoded]
  have hsource : (decode cfg (receive s e)).atsc.infoSource = (receive s e).atsc.infoSource :=
    hdecoded.sameInputs.infoSource
  rw [phasesStep]
  simp only [broadcast, hatsc, hfirst, hsource]
  split
  · rename_i hsent
    rw [List.mem_singleton]
    exact (and_iff_right hsent).symm
  · rename_i hsent
    exact iff_of_false List.not_mem_nil fun h => hsent h.1

/-- A turn shows the colours of the plan's phases exactly if none comes with both inputs. -/
theorem broadcastShows_iff (cfg : PhasesConfig) (s : PhasesState) (e : LoopEvent) :
    BroadcastShows cfg s e ↔ OneInput cfg s e := by
  have hinputs := (decodeRows_redecoded cfg (upTo cfg.plan.noPhases) (receive s e)).sameInputs
  constructor
  · intro h htrigger hgy i hi hphase hboth
    have hcompleted : Completed cfg (decode cfg (receive s e)).atsc.infoSource := by
      rw [decode, hinputs.infoSource]
      exact Or.inl hgy
    have hrows := rowsShown (Or.inl hgy) (upTo cfg.plan.noPhases)
    have hcolor : (decode cfg (receive s e)).signalColor (cfg.plan.phaseIndex i) =
        SIGNAL_STATE_YELLOW := hrows.both hgy _ hphase ⟨i, hi, rfl⟩ hboth
    have hmem := (mem_broadcast_iff cfg s e _).mpr ⟨⟨Or.inl hgy.1, htrigger⟩, rfl⟩
    have hshows := h _ hmem hcompleted i hi hphase (Or.inr (Or.inl hcolor))
    have hgreens : (decode cfg (receive s e)).atsc.phaseStatusGreens =
        (receive s e).atsc.phaseStatusGreens := hinputs.greens
    have hgreen := hshows.green
    rw [hcolor, hgreens] at hgreen
    exact absurd (hgreen.mp hboth.1) (by decide)
  · intro h record hmem hcompleted i hi hphase hcolor
    obtain ⟨⟨_, htrigger⟩, rfl⟩ := (mem_broadcast_iff cfg s e record).mp hmem
    rw [decode, hinputs.infoSource] at hcompleted
    have hrows := rowsShown hcompleted (upTo cfg.plan.noPhases)
    exact hrows.shown _ hphase ⟨i, hi, rfl⟩ (fun hgy => h htrigger hgy i hi hphase) hcolor

/-- **The colours that are broadcast**: along every run, each phase of the plan in effect that
is decoded green, yellow or red goes out with exactly that colour's bit, exactly if no phase
of the plan comes with both its green and its yellow input from a source of both. -/
theorem broadcastShows_along_iff (cfg : PhasesConfig) (uninitialised : PhasesState)
    (es : List (TimingPlan × LoopEvent)) :
    (plansMachine cfg).Along (boot uninitialised)
        (fun _ s e => BroadcastShows { cfg with plan := e.1 } s e.2) es ↔
      (plansMachine cfg).Along (boot uninitialised)
        (fun _ s e => OneInput { cfg with plan := e.1 } s e.2) es := by
  let Any : List (TimingPlan × LoopEvent) → PhasesState → Prop := fun _ _ => True
  have hinit : Any [] (boot uninitialised) := trivial
  refine Machine.along_congr (plansMachine cfg) hinit (fun _ _ _ _ => trivial) ?_ es
  exact fun _ s e _ => broadcastShows_iff { cfg with plan := e.1 } s e.2

/-- One phase, 2, with four seconds of yellow. -/
def phaseTwoPlan : TimingPlan where
  noPhases := 1
  timingType := 0
  finalPhaseNo := 2
  cycleLength := 60
  phaseIndex _ := 2
  greenLength _ := 30
  yellowLength _ := 4
  allRedLength _ := 2

/-- Sniffers on the greens and the yellows. -/
def sniffedPhases : PhasesConfig where
  sniffGreen := 1
  sniffYellow := 1
  plan := phaseTwoPlan
  noOverlaps := 0
  overlap _ := ⟨0, 0, 0, 0, 0⟩

/-- A record from the sniffers, with phase 2 green and yellow. -/
def bothInputsRecord : AtscTyp where
  phaseStatusReds _ := 0
  phaseStatusYellows _ := 2
  phaseStatusGreens _ := 2
  infoSource := ATSC_SOURCE_SNIFF

/-- Phase 2 is decoded yellow, and its green bit goes out as well. -/
theorem broadcastShows_not_always :
    ¬ ∀ (cfg : PhasesConfig) (uninitialised : PhasesState) (es : List (TimingPlan × LoopEvent)),
      (plansMachine cfg).Along (boot uninitialised)
        (fun _ s e => BroadcastShows { cfg with plan := e.1 } s e.2) es := by
  intro h
  have hstep := h sniffedPhases zeroed
    [(phaseTwoPlan, { clock := 1, trigger := .atsc bothInputsRecord, time := 1 })] [] _ [] rfl
  have hone := (broadcastShows_iff _ _ _).mp hstep rfl ⟨rfl, rfl, rfl⟩ 1 (by decide)
    ⟨by decide, by decide⟩
  exact hone ⟨by decide, by decide⟩

end RfsAtsc.Phases
