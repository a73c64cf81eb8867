import RfsAtsc.BroadcastColors

/-!
# The timers of a phase

For each phase the main loop notes when its green, its yellow and its red began, and shows
from that how long the phase has had its colour and how long it will keep it.

A turn does to one phase of the plan what a small machine of its own does
(`phasesStep_turn`): it reads the phase's bits as far as the source gives them, once for each
row of the plan that lists the phase, and keeps them for the next turn.
-/

namespace RfsAtsc.Phases

open EventMachine

/-! ## What is read of a phase -/

/-- The bits of a phase that a turn reads, as the source gives them. -/
inductive PhaseReading where
  | all (green yellow red : Int)
  | greenYellow (green yellow : Int)
  | greenOnly (green : Int)
  | nothing

def AtscTyp.reading (cfg : PhasesConfig) (atsc : AtscTyp) (phase : Int) : PhaseReading :=
  if atsc.infoSource = ATSC_SOURCE_NTCIP then
    .all (atscPhaseIsSet atsc.phaseStatusGreens phase)
      (atscPhaseIsSet atsc.phaseStatusYellows phase) (atscPhaseIsSet atsc.phaseStatusReds phase)
  else if atsc.infoSource = ATSC_SOURCE_SNIFF ∧ cfg.sniffGreen = 1 ∧ cfg.sniffYellow = 1 then
    .greenYellow (atscPhaseIsSet atsc.phaseStatusGreens phase)
      (atscPhaseIsSet atsc.phaseStatusYellows phase)
  else if GreenOnly cfg atsc.infoSource then
    .greenOnly (atscPhaseIsSet atsc.phaseStatusGreens phase)
  else .nothing

/-! ## One phase -/

/-- What the loop keeps of one phase. -/
@[ext]
structure PhaseMemory where
  signalColor : Int
  green : Int
  yellow : Int
  red : Int
  oldGreen : Int
  oldYellow : Int
  oldRed : Int
  startGreen : ℚ
  startYellow : ℚ
  startRed : ℚ

def PhasesState.memory (s : PhasesState) (phase : Int) : PhaseMemory where
  signalColor := s.signalColor phase
  green := s.green phase
  yellow := s.yellow phase
  red := s.red phase
  oldGreen := s.oldGreen phase
  oldYellow := s.oldYellow phase
  oldRed := s.oldRed phase
  startGreen := s.startGreen phase
  startYellow := s.startYellow phase
  startRed := s.startRed phase

namespace PhaseMemory

variable (m : PhaseMemory) (timeSec : ℚ)

/-- A colour is shown, and when it began is noted if its input has changed. -/
def showGreen : PhaseMemory :=
  { m with
    signalColor := SIGNAL_STATE_GREEN
    startGreen := if m.green ≠ m.oldGreen then timeSec else m.startGreen }

def showYellow : PhaseMemory :=
  { m with
    signalColor := SIGNAL_STATE_YELLOW
    startYellow := if m.yellow ≠ m.oldYellow then timeSec else m.startYellow }

def showRed : PhaseMemory :=
  { m with
    signalColor := SIGNAL_STATE_RED
    startRed := if m.red ≠ m.oldRed then timeSec else m.startRed }

/-- The turn after green, yellow begins. -/
def beginYellow : PhaseMemory :=
  if m.green ≠ m.oldGreen ∧ m.oldGreen ≠ -1 then { m with startYellow := timeSec } else m

/-- Without green, for a yellow of the given length. -/
def greenOff (yellowLength : ℚ) : PhaseMemory :=
  if m.oldGreen = -1 ∨ m.startYellow = -1 then
    { m with signalColor := SIGNAL_STATE_UNKNOWN, startYellow := -1 }
  else if timeSec - m.startYellow ≤ yellowLength then
    { m with signalColor := SIGNAL_STATE_YELLOW, yellow := 1, red := 0 }
  else { m with yellow := 0, red := 1 }.showRed timeSec

/-- One row of the plan, for the phase that it lists. -/
def decode (yellowLength : ℚ) : PhaseReading → PhaseMemory
  | .all green yellow red =>
      let m := { m with green := green, yellow := yellow, red := red }
      if green = 1 then m.showGreen timeSec
      else if yellow = 1 then m.showYellow timeSec
      else if red = 1 then m.showRed timeSec
      else m
  | .greenYellow green yellow =>
      let m := { m with green := green, yellow := yellow }
      if green = 1 ∧ yellow = 0 then { m with red := 0 }.showGreen timeSec
      else if yellow = 1 then { m with red := 0 }.showYellow timeSec
      else if green = 0 ∧ yellow = 0 then { m with red := 1 }.showRed timeSec
      else m
  | .greenOnly green =>
      let m := { m with green := green }
      if green = 1 then { m with yellow := 0, red := 0 }.showGreen timeSec
      else if green = 0 then (m.beginYellow timeSec).greenOff timeSec yellowLength
      else m
  | .nothing => m

/-- The inputs are kept for the next turn. -/
def keep : PhaseMemory := { m with oldGreen := m.green, oldYellow := m.yellow, oldRed := m.red }

/-- A turn, for the rows of the plan that list the phase. -/
def decodeRows (plan : TimingPlan) (reading : PhaseReading) (rows : List Int) : PhaseMemory :=
  rows.foldl (fun m i => m.decode timeSec (plan.yellowLength i) reading) m

/-- When the colour shown began. -/
def start : ℚ :=
  if m.signalColor = SIGNAL_STATE_GREEN then m.startGreen
  else if m.signalColor = SIGNAL_STATE_YELLOW then m.startYellow
  else m.startRed

end PhaseMemory

/-- The rows of the plan that list a phase. -/
def TimingPlan.rowsOf (plan : TimingPlan) (phase : Int) (is : List Int) : List Int :=
  is.filter fun i => plan.phaseIndex i = phase

/-! ## A row as its phase has it -/

/-- What is kept of a phase is chosen with the state. -/
theorem memory_ite (c : Prop) [Decidable c] (s t : PhasesState) (phase : Int) :
    (if c then s else t).memory phase = if c then s.memory phase else t.memory phase := by
  split
  · rfl
  · rfl

/-- An entry that a branch updates is chosen with the branch. -/
theorem update_ite_self {α : Type} (c : Prop) [Decidable c] (f : Int → α) (phase : Int)
    (value : α) :
    (if c then Function.update f phase value else f) phase = if c then value else f phase := by
  split
  · exact Function.update_self phase value f
  · rfl

section Rows

variable (plan : TimingPlan) (s : PhasesState) (phase i : Int) (yellowLength : ℚ)

/-- NTCIP: a row decodes the three bits of its phase. -/
theorem decodeAll_memory :
    (decodeAll s phase).memory phase =
      (s.memory phase).decode s.timeSec yellowLength
        (.all (atscPhaseIsSet s.atsc.phaseStatusGreens phase)
          (atscPhaseIsSet s.atsc.phaseStatusYellows phase)
          (atscPhaseIsSet s.atsc.phaseStatusReds phase)) := by
  simp only [decodeAll, PhaseMemory.decode, memory_ite, Function.update_self]
  simp only [PhasesState.memory, PhaseMemory.showGreen, PhaseMemory.showYellow,
    PhaseMemory.showRed, Function.update_self, update_ite_self]
  rfl

/-- A sniffer of greens and yellows: a row decodes these two bits. -/
theorem decodeGreenYellow_memory :
    (decodeGreenYellow plan s phase).memory phase =
      (s.memory phase).decode s.timeSec yellowLength
        (.greenYellow (atscPhaseIsSet s.atsc.phaseStatusGreens phase)
          (atscPhaseIsSet s.atsc.phaseStatusYellows phase)) := by
  simp only [decodeGreenYellow, PhaseMemory.decode, memory_ite, Function.update_self]
  simp only [PhasesState.memory, PhaseMemory.showGreen, PhaseMemory.showYellow,
    PhaseMemory.showRed, Function.update_self, update_ite_self]
  split_ifs
  all_goals simp_all only [ne_eq, not_false_eq_true, if_true, if_false]

/-- The begin of yellow is noted for the row's own phase. -/
theorem beginYellow_memory :
    (beginYellow plan s phase).memory phase = (s.memory phase).beginYellow s.timeSec := by
  rw [beginYellow, memory_ite]
  simp only [PhaseMemory.beginYellow, PhasesState.memory, Function.update_self]
  rfl

/-- Without green the row's phase goes on to yellow or to red. -/
theorem decodeGreenOff_memory :
    (decodeGreenOff plan s phase i).memory phase =
      (s.memory phase).greenOff s.timeSec (plan.yellowLength i) := by
  simp only [decodeGreenOff, memory_ite, Function.update_self]
  simp only [PhaseMemory.greenOff, PhasesState.memory, PhaseMemory.showRed, Function.update_self]
  split_ifs
  all_goals simp [*]

/-- Greens alone: a row decodes the one bit of its phase. -/
theorem decodeGreenOnly_memory :
    (decodeGreenOnly plan s phase i).memory phase =
      (s.memory phase).decode s.timeSec (plan.yellowLength i)
        (.greenOnly (atscPhaseIsSet s.atsc.phaseStatusGreens phase)) := by
  simp only [decodeGreenOnly, PhaseMemory.decode, memory_ite, Function.update_self,
    decodeGreenOff_memory, beginYellow_memory,
    (beginYellow_redecoded plan _ phase).sameInputs.timeSec]
  simp only [PhasesState.memory, PhaseMemory.showGreen, Function.update_self, update_ite_self]
  rfl

/-- A row reads of its phase what the source gives, and decodes that. -/
theorem decodeRow_memory {cfg : PhasesConfig} (hrow : cfg.plan.phaseIndex i = phase) :
    (decodeRow cfg s i).memory phase =
      (s.memory phase).decode s.timeSec (cfg.plan.yellowLength i) (s.atsc.reading cfg phase) := by
  rw [decodeRow, AtscTyp.reading, hrow]
  split_ifs
  · exact decodeAll_memory s phase _
  · exact decodeGreenYellow_memory _ s phase _
  · exact decodeGreenOnly_memory _ s phase i
  · rfl

/-! ## A row of another phase -/

/-- What is kept of a phase is as before. -/
def SameMemory (phase : Int) (s t : PhasesState) : Prop := t.memory phase = s.memory phase

/-- A phase that both branches leave alone is left alone. -/
theorem SameMemory.ite {phase : Int} {s t u : PhasesState} {c : Prop} [Decidable c]
    (ht : SameMemory phase s t) (hu : SameMemory phase s u) :
    SameMemory phase s (if c then t else u) := by
  split
  · exact ht
  · exact hu

variable {phase} {num : Int} (hne : phase ≠ num)

include hne

/-- A row leaves the other phases alone: one that reads three bits does. -/
private theorem decodeAll_otherMemory : SameMemory phase s (decodeAll s num) := by
  refine .ite ?_ (.ite ?_ (.ite ?_ ?_))
  all_goals
    simp only [SameMemory, PhasesState.memory, ite_apply, Function.update_of_ne hne, ite_self]

/-- One that reads two does. -/
private theorem decodeGreenYellow_otherMemory :
    SameMemory phase s (decodeGreenYellow plan s num) := by
  refine .ite ?_ (.ite (.ite ?_ ?_) (.ite (.ite ?_ ?_) ?_))
  all_goals
    simp only [SameMemory, PhasesState.memory, ite_apply, Function.update_of_ne hne, ite_self]

/-- The begin of a yellow does. -/
private theorem beginYellow_otherMemory : SameMemory phase s (beginYellow plan s num) := by
  refine .ite ?_ rfl
  simp only [SameMemory, PhasesState.memory, Function.update_of_ne hne]

/-- The turns behind it do. -/
private theorem decodeGreenOff_otherMemory : SameMemory phase s (decodeGreenOff plan s num i) := by
  refine .ite ?_ (.ite ?_ (.ite ?_ ?_))
  all_goals simp only [SameMemory, PhasesState.memory, Function.update_of_ne hne]

/-- And so does one that reads greens alone. -/
private theorem decodeGreenOnly_otherMemory :
    SameMemory phase s (decodeGreenOnly plan s num i) := by
  have hread : SameMemory phase s (readGreen s num) := by
    simp only [SameMemory, readGreen, PhasesState.memory, Function.update_of_ne hne]
  refine .ite ?_ (.ite ?_ hread)
  · simp only [SameMemory, PhasesState.memory, ite_apply, Function.update_of_ne hne, ite_self]
  · have hbegin := beginYellow_otherMemory plan (readGreen s num) hne
    have hoff := decodeGreenOff_otherMemory plan (beginYellow plan (readGreen s num) num) i hne
    exact Eq.trans hoff (Eq.trans hbegin hread)

omit hne in
/-- A row leaves the other phases alone. -/
theorem decodeRow_otherMemory {cfg : PhasesConfig} (hrow : phase ≠ cfg.plan.phaseIndex i) :
    SameMemory phase s (decodeRow cfg s i) :=
  .ite (decodeAll_otherMemory s hrow) (.ite (decodeGreenYellow_otherMemory _ s hrow)
    (.ite (decodeGreenOnly_otherMemory _ s i hrow) rfl))

end Rows

/-! ## The whole decoder -/

/-- A row does not change the record that it reads. -/
theorem decodeAll_atsc (s : PhasesState) (num : Int) : (decodeAll s num).atsc = s.atsc := by
  simp only [decodeAll]
  split_ifs
  all_goals rfl

/-- What a row writes into the record, the rows do not read. -/
theorem decodeRow_reading (cfg : PhasesConfig) (s : PhasesState) (phase i : Int) :
    (decodeRow cfg s i).atsc.reading cfg phase = s.atsc.reading cfg phase := by
  have hsame := (decodeRow_redecoded cfg s i).sameInputs
  unfold AtscTyp.reading
  rw [hsame.infoSource, hsame.greens]
  split_ifs with hall hboth
  · rw [decodeRow, if_pos hall, decodeAll_atsc]
  · rw [decodeRow, if_neg hall, if_pos hboth, decodeGreenYellow_yellows]
  · rfl
  · rfl

/-- So every row of a turn reads the same bits. -/
theorem decodeRows_reading (cfg : PhasesConfig) (is : List Int) (s : PhasesState) (phase : Int) :
    (is.foldl (decodeRow cfg) s).atsc.reading cfg phase = s.atsc.reading cfg phase := by
  induction is generalizing s with
  | nil => rfl
  | cons i is ih => exact (ih (decodeRow cfg s i)).trans (decodeRow_reading cfg s phase i)

/-- The last row counts if it lists the phase. -/
theorem rowsOf_concat (plan : TimingPlan) (phase : Int) (is : List Int) (i : Int) :
    plan.rowsOf phase (is ++ [i]) =
      plan.rowsOf phase is ++ if plan.phaseIndex i = phase then [i] else [] := by
  simp [TimingPlan.rowsOf, List.filter_cons]

/-- The rows decode a phase as those that list it do. -/
theorem decodeRows_memory (cfg : PhasesConfig) (s : PhasesState) (phase : Int) (is : List Int) :
    (is.foldl (decodeRow cfg) s).memory phase =
      (s.memory phase).decodeRows s.timeSec cfg.plan (s.atsc.reading cfg phase)
        (cfg.plan.rowsOf phase is) := by
  induction is using List.reverseRecOn with
  | nil => rfl
  | append_singleton is i ih =>
      rw [List.foldl_append, List.foldl_cons, List.foldl_nil, rowsOf_concat]
      have hsame := (decodeRows_redecoded cfg is s).sameInputs
      have hreading := decodeRows_reading cfg is s phase
      generalize is.foldl (decodeRow cfg) s = t at ih hsame hreading ⊢
      by_cases hrow : cfg.plan.phaseIndex i = phase
      · rw [decodeRow_memory t phase i hrow, ih, hsame.timeSec, hreading, if_pos hrow,
          PhaseMemory.decodeRows, PhaseMemory.decodeRows, List.foldl_append]
        rfl
      · rw [if_neg hrow, List.append_nil, ← ih]
        exact decodeRow_otherMemory t i (Ne.symm hrow)

/-- What each row does, and a second row on top of another, the rows that list the phase do,
and the last of them decides. -/
theorem decodeRows_of_again {plan : TimingPlan} {phase : Int} {m : PhaseMemory} {timeSec : ℚ}
    {reading : PhaseReading} {R : Int → PhaseMemory → Prop}
    (hrow : ∀ i, R i (m.decode timeSec (plan.yellowLength i) reading))
    (hagain : ∀ i j t, R j t → R i (t.decode timeSec (plan.yellowLength i) reading))
    {is : List Int} (hlisted : ∃ i ∈ is, plan.phaseIndex i = phase) :
    R (plan.findRowIn phase is 0) (m.decodeRows timeSec plan reading (plan.rowsOf phase is)) := by
  induction is using List.reverseRecOn with
  | nil => exact absurd hlisted (by simp)
  | append_singleton is i ih =>
      rw [rowsOf_concat, TimingPlan.findRowIn, List.foldl_append, List.foldl_cons,
        List.foldl_nil]
      by_cases hlists : plan.phaseIndex i = phase
      · rw [if_pos hlists, if_pos hlists, PhaseMemory.decodeRows, List.foldl_append]
        by_cases hbefore : ∃ j ∈ is, plan.phaseIndex j = phase
        · exact hagain i _ _ (ih hbefore)
        · have hnone : plan.rowsOf phase is = [] := by
            rw [TimingPlan.rowsOf, List.filter_eq_nil_iff]
            intro j hj hfound
            exact hbefore ⟨j, hj, of_decide_eq_true hfound⟩
          rw [hnone]
          exact hrow i
      · rw [if_neg hlists, if_neg hlists, List.append_nil]
        obtain ⟨j, hj, hfound⟩ := hlisted
        refine ih ⟨j, (List.mem_append.mp hj).resolve_right ?_, hfound⟩
        intro hlast
        rw [List.mem_singleton.mp hlast] at hfound
        exact hlists hfound

/-! ## The countdown -/

/-- The time left of a colour that a phase has had for the time `used`. -/
def TimingPlan.leftAfter (plan : TimingPlan) (row color : Int) (used : ℚ) : ℚ :=
  if color = SIGNAL_STATE_YELLOW then plan.yellowLength row - used
  else if plan.timingType = 1 then min (used - plan.yellowLength row) 0
  else if color = SIGNAL_STATE_GREEN then plan.greenLength row - used
  else plan.cycleLength - plan.greenLength row - plan.yellowLength row - used

/-- The times of a phase are those of a colour that it has had for the time `used`. -/
structure Counts (plan : TimingPlan) (phase row : Int) (used : ℚ) (t : PhasesState) : Prop where
  timeUsed : t.timeUsed phase = used
  timeLeft : t.timeLeft phase = plan.leftAfter row (t.signalColor phase) used

/-- A row of the countdown, for a phase with a colour and for one without. -/
structure CountedBy (plan : TimingPlan) (phase row : Int) (m : PhaseMemory) (t : PhasesState) :
    Prop where
  color : IsColor m.signalColor → Counts plan phase row (t.timeSec - m.start) t
  unknown : m.signalColor = SIGNAL_STATE_UNKNOWN → t.timeLeft phase = 0

/-- A row of the countdown leaves its phase with times that were counted by it. -/
theorem countdownRow_counted (plan : TimingPlan) (s : PhasesState) {phase i : Int}
    (hrow : plan.phaseIndex i = phase) :
    CountedBy plan phase i (s.memory phase) (countdownRow plan s i) := by
  unfold countdownRow
  rw [hrow]
  constructor
  case color =>
      intro hcolor
      have hleft (start length : ℚ) :
          start + length - s.timeSec = length - (s.timeSec - start) := by
        ring
      have hred (start cycle green yellow : ℚ) :
          start + cycle - green - yellow - s.timeSec =
            cycle - green - yellow - (s.timeSec - start) := by
        ring
      rcases hcolor with hcolor | hcolor | hcolor
      all_goals
        replace hcolor : s.signalColor phase = _ := hcolor
        constructor
      all_goals
        simp [hcolor, PhasesState.memory, PhaseMemory.start, TimingPlan.leftAfter, hleft, hred,
          SIGNAL_STATE_UNKNOWN, SIGNAL_STATE_GREEN, SIGNAL_STATE_YELLOW, SIGNAL_STATE_RED]
  case unknown =>
      intro hunknown
      have hcolor : s.signalColor phase = SIGNAL_STATE_UNKNOWN := hunknown
      simp only [hcolor, if_true, Function.update_self]

/-- The times of a phase are as before. -/
def SameTimes (phase : Int) (s t : PhasesState) : Prop :=
  t.timeUsed phase = s.timeUsed phase ∧ t.timeLeft phase = s.timeLeft phase

/-- The times of another phase stay. -/
theorem countdownRow_other (plan : TimingPlan) (s : PhasesState) {phase i : Int}
    (hrow : phase ≠ plan.phaseIndex i) : SameTimes phase s (countdownRow plan s i) := by
  simp only [countdownRow]
  split_ifs
  all_goals simp only [SameTimes, Function.update_of_ne hrow, and_self]

/-- Times that stay, with the clock and the colour, are still counted by that row. -/
theorem CountedBy.of_same {plan : TimingPlan} {phase row : Int} {m : PhaseMemory}
    {s t : PhasesState} (h : CountedBy plan phase row m s) (htimes : SameTimes phase s t)
    (hclock : t.timeSec = s.timeSec) (hcolor : t.signalColor phase = s.signalColor phase) :
    CountedBy plan phase row m t where
  color := by
    intro hshown
    obtain ⟨hused, hleft⟩ := h.color hshown
    rw [hclock]
    exact ⟨htimes.1.trans hused, by rw [htimes.2, hcolor, hleft]⟩
  unknown := fun hunknown => htimes.2.trans (h.unknown hunknown)

/-- The countdown of a phase is that of the last row that lists it. -/
theorem countdownRows_counted (plan : TimingPlan) (s : PhasesState) {phase : Int}
    {is : List Int} (hlisted : ∃ i ∈ is, plan.phaseIndex i = phase) :
    CountedBy plan phase (plan.findRowIn phase is 0) (s.memory phase)
      (is.foldl (countdownRow plan) s) := by
  induction is using List.reverseRecOn with
  | nil => exact absurd hlisted (by simp)
  | append_singleton is i ih =>
      have hsame : Recounted s (is.foldl (countdownRow plan) s) := by
        clear ih hlisted
        induction is generalizing s with
        | nil => rfl
        | cons i is ih => exact (countdownRow_recounted plan s i).trans (ih _)
      rw [List.foldl_append, List.foldl_cons, List.foldl_nil, TimingPlan.findRowIn,
        List.foldl_append, List.foldl_cons, List.foldl_nil]
      generalize is.foldl (countdownRow plan) s = t at ih hsame ⊢
      have hmemory : t.memory phase = s.memory phase := by
        rw [hsame]
        rfl
      by_cases hrow : plan.phaseIndex i = phase
      · rw [if_pos hrow, ← hmemory]
        exact countdownRow_counted plan t hrow
      · obtain ⟨j, hj, hlists⟩ := hlisted
        have hbefore : j ∈ is := by
          rcases List.mem_append.mp hj with hj | hj
          · exact hj
          · rw [List.mem_singleton.mp hj] at hlists
            exact absurd hlists hrow
        have hrecounted := countdownRow_recounted plan t i
        rw [if_neg hrow]
        exact (ih ⟨j, hbefore, hlists⟩).of_same (countdownRow_other plan t (Ne.symm hrow))
          (by rw [hrecounted]) (by rw [hrecounted])

/-! ## The overlaps leave the times alone -/

/-- A time left that is not the overlap's own. -/
def SameLeft (phase : Int) (v w : Signals) : Prop := w.timeLeft phase = v.timeLeft phase

/-- The time left that both branches keep is kept. -/
theorem SameLeft.ite {phase : Int} {u v w : Signals} {c : Prop} [Decidable c]
    (hv : SameLeft phase u v) (hw : SameLeft phase u w) :
    SameLeft phase u (if c then v else w) := by
  split
  · exact hv
  · exact hw

/-- To show another phase's colour keeps it. -/
theorem show_sameLeft {phase other : Int} (hne : phase ≠ other) {u v : Signals}
    (hv : SameLeft phase u v) (color : Int) (left : ℚ) :
    SameLeft phase u (v.show other color left) := by
  have hother : (v.show other color left).timeLeft phase = v.timeLeft phase := by
    simp only [Signals.show, Function.update_of_ne hne]
  exact hother.trans hv

/-- So an overlap keeps it unless the phase is its own. -/
theorem overlapTurn_sameLeft (cfg : PhasesConfig) {phase : Int} (timeSec : ℚ) (v : Signals)
    {i : Int} (hne : phase ≠ (cfg.overlap i).overlapPhase) :
    SameLeft phase v (overlapTurn cfg timeSec v i) := by
  have hleft : SameLeft phase v (overlapColor cfg.plan (cfg.overlap i) timeSec v i) := by
    refine .ite ?_ (.ite ?_ (.ite (.ite (.ite ?_ ?_) ?_) (.ite ?_ ?_)))
    all_goals refine show_sameLeft hne ?_ _ _
    all_goals first | rfl | exact .ite rfl rfl
  let kept : Signals :=
    { overlapColor cfg.plan (cfg.overlap i) timeSec v i with
      oldParentColor1 := Function.update
        (overlapColor cfg.plan (cfg.overlap i) timeSec v i).oldParentColor1 i
        ((overlapColor cfg.plan (cfg.overlap i) timeSec v i).signalColor
          (cfg.overlap i).parentPhase1)
      oldParentColor2 := Function.update
        (overlapColor cfg.plan (cfg.overlap i) timeSec v i).oldParentColor2 i
        ((overlapColor cfg.plan (cfg.overlap i) timeSec v i).signalColor
          (cfg.overlap i).parentPhase2) }
  have hkept : SameLeft phase v kept := hleft
  exact .ite (show_sameLeft hne hkept _ _) hkept

/-- And the loop keeps it for a phase that is none of the overlaps'. -/
theorem overlapLoop_sameLeft (cfg : PhasesConfig) {phase : Int} (timeSec : ℚ) (v : Signals)
    (hne : ∀ i ∈ upTo cfg.noOverlaps, phase ≠ (cfg.overlap i).overlapPhase) :
    SameLeft phase v (overlapLoop cfg timeSec v) := by
  unfold overlapLoop
  generalize upTo cfg.noOverlaps = is at hne ⊢
  induction is generalizing v with
  | nil => rfl
  | cons i is ih =>
      have hturn := overlapTurn_sameLeft cfg timeSec v (hne i List.mem_cons_self)
      exact Eq.trans (ih _ fun j hj => hne j (List.mem_cons_of_mem _ hj)) hturn

/-! ## One turn -/

/-- An array that the rows store at the phases they list. -/
def TimingPlan.stored (plan : TimingPlan) (is : List Int) (now old : Int → Int) : Int → Int :=
  fun phase => if ∃ i ∈ is, plan.phaseIndex i = phase then now phase else old phase

/-- Without rows nothing is stored. -/
theorem stored_nil (plan : TimingPlan) (now old : Int → Int) : plan.stored [] now old = old := by
  funext phase
  simp only [TimingPlan.stored, List.not_mem_nil, false_and, exists_false, if_false]

/-- The last row stores the input of its phase. -/
theorem stored_concat (plan : TimingPlan) (is : List Int) (i : Int) (now old : Int → Int) :
    plan.stored (is ++ [i]) now old =
      Function.update (plan.stored is now old) (plan.phaseIndex i) (now (plan.phaseIndex i)) := by
  funext phase
  by_cases hrow : phase = plan.phaseIndex i
  · rw [hrow, Function.update_self, TimingPlan.stored, if_pos ⟨i, by simp, rfl⟩]
  · rw [Function.update_of_ne hrow]
    simp only [TimingPlan.stored, List.mem_append, List.mem_singleton, or_and_right, exists_or,
      exists_eq_left, Ne.symm hrow, or_false]

/-- The rows keep the inputs of the phases that they list, and change nothing else. -/
theorem keepOldRows_eq (plan : TimingPlan) (is : List Int) (s : PhasesState) :
    is.foldl (keepOldRow plan) s =
      { s with
        oldGreen := plan.stored is s.green s.oldGreen
        oldYellow := plan.stored is s.yellow s.oldYellow
        oldRed := plan.stored is s.red s.oldRed } := by
  induction is using List.reverseRecOn with
  | nil =>
      rw [stored_nil, stored_nil, stored_nil]
      rfl
  | append_singleton is i ih =>
      rw [List.foldl_append, ih, List.foldl_cons, List.foldl_nil, stored_concat, stored_concat,
        stored_concat]
      rfl

/-- At the end of a turn a phase of the plan keeps its inputs, and its times stay. -/
theorem keepOld_memory (plan : TimingPlan) (s : PhasesState) {phase : Int}
    (hlisted : ∃ i ∈ upTo plan.noPhases, plan.phaseIndex i = phase) :
    (keepOld plan s).memory phase = (s.memory phase).keep ∧ SameTimes phase s (keepOld plan s) := by
  rw [keepOld, keepOldRows_eq]
  simp only [PhasesState.memory, PhaseMemory.keep, TimingPlan.stored, if_pos hlisted, SameTimes,
    and_self]

/-- What a turn makes of one phase. -/
structure PhaseTurned (cfg : PhasesConfig) (phase : Int) (s : PhasesState) (e : LoopEvent)
    (m : PhaseMemory) (t : PhasesState) : Prop where
  reading : t.atsc.reading cfg phase = (receive s e).atsc.reading cfg phase
  memory : t.memory phase = m.keep
  clock : t.timeSec = e.clock ∧ t.currTime = e.clock
  counted : CountedBy cfg.plan phase (cfg.plan.findRow phase 0) m t

/-- What a turn decodes of one phase. -/
def turnMemory (cfg : PhasesConfig) (phase : Int) (s : PhasesState) (e : LoopEvent) :
    PhaseMemory :=
  (s.memory phase).decodeRows e.clock cfg.plan ((receive s e).atsc.reading cfg phase)
    (cfg.plan.rowsOf phase (upTo cfg.plan.noPhases))

/-- A turn does to one phase of the plan what it reads of it alone says. -/
theorem phasesStep_turn {cfg : PhasesConfig} {phase : Int} (hphase : PlanPhase cfg phase)
    {s : PhasesState} (e : LoopEvent) (hclocks : s.timeSec = s.currTime) :
    PhaseTurned cfg phase s e (turnMemory cfg phase s e) (phasesStep cfg s e).1 := by
  let decoded := decode cfg (receive s e)
  let counted := countdown cfg.plan decoded
  let overlapped : PhasesState :=
    { counted with toSignals := overlapLoop cfg counted.timeSec counted.toSignals }
  have hreceive : (receive s e).memory phase = s.memory phase := by
    unfold receive
    cases e.trigger
    all_goals rfl
  have hclock := (phasesStep_clocks cfg hclocks e).1
  have hdecoded : decoded.memory phase = turnMemory cfg phase s e := by
    have hrows := decodeRows_memory cfg (receive s e) phase (upTo cfg.plan.noPhases)
    rw [hreceive, hclock] at hrows
    exact hrows
  have hrecounted : Recounted decoded counted := countdown_recounted cfg.plan decoded
  have hcolor := overlapLoop_sameColor cfg counted.timeSec counted.toSignals hphase.notOverlap
  have hleft := overlapLoop_sameLeft cfg counted.timeSec counted.toSignals hphase.notOverlap
  have hmemory : overlapped.memory phase = turnMemory cfg phase s e := by
    have hsame : counted.memory phase = decoded.memory phase := by
      rw [hrecounted]
      rfl
    rw [← hdecoded, ← hsame]
    exact PhaseMemory.ext hcolor rfl rfl rfl rfl rfl rfl rfl rfl rfl
  have hcounted := countdownRows_counted cfg.plan decoded hphase.listed
  rw [hdecoded] at hcounted
  obtain ⟨hkept, htimes⟩ := keepOld_memory cfg.plan overlapped hphase.listed
  obtain ⟨hentry, _, hsec, hatsc⟩ := keepOld_frame cfg.plan phase overlapped
  constructor
  case reading =>
    have hread : decoded.atsc = (phasesStep cfg s e).1.atsc := by
      refine Eq.trans ?_ hatsc.symm
      change decoded.atsc = counted.atsc
      rw [hrecounted]
    rw [← hread]
    exact decodeRows_reading cfg _ (receive s e) phase
  case memory => exact hkept.trans (congrArg PhaseMemory.keep hmemory)
  case clock => exact (phasesStep_clocks cfg hclocks e).2
  case counted =>
    have hoverlapped : CountedBy cfg.plan phase (cfg.plan.findRow phase 0)
        (turnMemory cfg phase s e) overlapped :=
      CountedBy.of_same hcounted ⟨rfl, hleft⟩ rfl hcolor
    exact hoverlapped.of_same htimes hsec (congrArg PhaseEntry.signalColor hentry)

/-! ## Runs -/

/-- Before the first turn the loop's clock is at the start of the program, and then at the
reading that a turn began with. -/
theorem currTime_run (cfg : PhasesConfig) (uninitialised : PhasesState) (pre : List LoopEvent) :
    ((phasesMachine cfg).run (boot uninitialised) pre).timeSec =
        ((phasesMachine cfg).run (boot uninitialised) pre).currTime ∧
      (pre = [] ∧ ((phasesMachine cfg).run (boot uninitialised) pre).currTime = 0 ∨
        ∃ f ∈ pre, ((phasesMachine cfg).run (boot uninitialised) pre).currTime = f.clock) := by
  let Inv (pre : List LoopEvent) (s : PhasesState) : Prop :=
    s.timeSec = s.currTime ∧
      (pre = [] ∧ s.currTime = 0 ∨ ∃ f ∈ pre, s.currTime = f.clock)
  have hinit : Inv [] (boot uninitialised) := ⟨rfl, .inl ⟨rfl, rfl⟩⟩
  refine (phasesMachine cfg).inv_run hinit (fun pre s e h => ?_) pre
  obtain ⟨_, hsec, hcurr⟩ := phasesStep_clocks cfg h.1 e
  exact ⟨hsec.trans hcurr.symm, .inr ⟨e, by simp, hcurr⟩⟩

/-- The turn that brought the colour which a phase has after the events. -/
def ColorCame (cfg : PhasesConfig) (phase : Int) (start : PhasesState) (es : List LoopEvent)
    (f : LoopEvent) : Prop :=
  (phasesMachine cfg).CameWith (fun s => s.signalColor phase) start es f

end RfsAtsc.Phases
