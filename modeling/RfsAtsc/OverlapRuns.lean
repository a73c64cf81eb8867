import RfsAtsc.OverlapIndependence
import RfsAtsc.PhaseTimers

/-!
# One overlap in the main loop

The main loop finds the colours that drive the overlap loop, and what it finds of a phase
that is no overlap's own does not depend on the overlaps.  So along a run an overlap is
shown as the main loop with that overlap alone would show it, as long as what it looks up
is its own.
-/

namespace RfsAtsc.Phases

open EventMachine

/-! ## The turns of the main loop -/

/-- Only the colours and the times of the phases have changed. -/
def SameOverlaps (v w : Signals) : Prop :=
  w = { v with signalColor := w.signalColor, timeLeft := w.timeLeft }

/-- What is kept of the overlaps stays over two steps if it stays over each. -/
theorem SameOverlaps.trans {u v w : Signals} (huv : SameOverlaps u v) (hvw : SameOverlaps v w) :
    SameOverlaps u w := by
  unfold SameOverlaps at huv hvw ⊢
  rw [hvw, huv]

/-- Decoding leaves it alone. -/
theorem Redecoded.sameOverlaps {s t : PhasesState} (h : Redecoded s t) :
    SameOverlaps s.toSignals t.toSignals := by
  rw [h]
  rfl

/-- So does the countdown. -/
theorem Recounted.sameOverlaps {s t : PhasesState} (h : Recounted s t) :
    SameOverlaps s.toSignals t.toSignals := by
  rw [h]
  rfl

/-- What the overlap loop finds at a turn of the main loop. -/
def sightOf (cfg : PhasesConfig) (s : PhasesState) (e : LoopEvent) : Sight :=
  let s := countdown cfg.plan (decode cfg (receive s e))
  { timeSec := s.timeSec, signalColor := s.signalColor, timeLeft := s.timeLeft }

/-- A turn of the main loop is a turn of the overlap loop. -/
theorem phasesStep_toSignals (cfg : PhasesConfig) (s : PhasesState) (e : LoopEvent) :
    (phasesStep cfg s e).1.toSignals =
      ((overlapMachine cfg).step s.toSignals (sightOf cfg s e)).1 := by
  have hreceive : (receive s e).toSignals = s.toSignals := by
    unfold receive
    split
    all_goals rfl
  have hdecode : SameOverlaps (receive s e).toSignals (decode cfg (receive s e)).toSignals :=
    (decodeRows_redecoded cfg (upTo cfg.plan.noPhases) (receive s e)).sameOverlaps
  have hcountdown := hdecode.trans
    (countdown_recounted cfg.plan (decode cfg (receive s e))).sameOverlaps
  rw [hreceive] at hcountdown
  have hkeep (t : PhasesState) : (keepOld cfg.plan t).toSignals = t.toSignals := by
    have hkeepFold : ∀ is : List Int,
        (is.foldl (keepOldRow cfg.plan) t).toSignals = t.toSignals := by
      intro is
      induction is generalizing t with
      | nil => rfl
      | cons i is ih => exact ih _
    exact hkeepFold _
  simp only [phasesStep, hkeep, overlapMachine, sightOf]
  exact congrArg (overlapLoop cfg _) hcountdown

/-- What the overlap loop finds along a run of the main loop. -/
def sightsOf (cfg : PhasesConfig) : PhasesState → List LoopEvent → List Sight
  | _, [] => []
  | s, e :: es => sightOf cfg s e :: sightsOf cfg (phasesStep cfg s e).1 es

/-- A run of the main loop is a run of the overlap loop. -/
theorem phasesMachine_run_toSignals (cfg : PhasesConfig) (s : PhasesState)
    (es : List LoopEvent) :
    ((phasesMachine cfg).run s es).toSignals =
      (overlapMachine cfg).run s.toSignals (sightsOf cfg s es) := by
  induction es generalizing s with
  | nil => rfl
  | cons e es ih =>
      have hstep := ih (phasesStep cfg s e).1
      rw [phasesStep_toSignals] at hstep
      exact hstep

/-! ## What an overlap sees -/

/-- Two sights are one to an overlap. -/
structure SameSight (o : Overlap) (e e' : Sight) : Prop where
  timeSec : e'.timeSec = e.timeSec
  parent1 : e'.signalColor o.parentPhase1 = e.signalColor o.parentPhase1
  parent2 : e'.signalColor o.parentPhase2 = e.signalColor o.parentPhase2
  omit1 : e'.signalColor o.omitPhase1 = e.signalColor o.omitPhase1
  omit2 : e'.signalColor o.omitPhase2 = e.signalColor o.omitPhase2
  left2 : e'.timeLeft o.parentPhase2 = e.timeLeft o.parentPhase2

/-- Two ways of colouring the phases are one to an overlap's parents. -/
def SameParents (o : Overlap) (before before' : Int → Int) : Prop :=
  before' o.parentPhase1 = before o.parentPhase1 ∧ before' o.parentPhase2 = before o.parentPhase2

section Sights

variable {o : Overlap}

/-- From the same sight an overlap notes the same. -/
theorem SameSight.notes {e e' : Sight} (h : SameSight o e e') {before before' : Int → Int}
    (hbefore : SameParents o before before') : o.notes before' e' = o.notes before e := by
  unfold Overlap.notes Overlap.notedParent
  rw [h.timeSec, h.parent1, h.parent2, h.left2, hbefore.1, hbefore.2]

/-- From the same sight a note gives it the same answer. -/
theorem SameSight.answer {e e' : Sight} (h : SameSight o e e') (plan : TimingPlan) (n : Note) :
    o.answer plan e' n = o.answer plan e n := by
  have homitted : o.Omitted e' ↔ o.Omitted e := by
    unfold Overlap.Omitted
    rw [h.omit1, h.omit2]
  have hcolor : o.color plan e' n = o.color plan e n := by
    unfold Overlap.color
    rw [h.timeSec, h.parent1, h.parent2]
  rw [Overlap.answer, Overlap.answer, hcolor]
  exact if_congr homitted rfl rfl

/-- Histories that are one to an overlap make it note the same. -/
theorem notesAlong_same {es es' : List Sight} (h : List.Forall₂ (SameSight o) es es')
    {before before' : Int → Int} (hbefore : SameParents o before before') :
    notesAlong o.notes before' es' = notesAlong o.notes before es ∧
      SameParents o (colorsAfter before es) (colorsAfter before' es') := by
  induction h generalizing before before' with
  | nil => exact ⟨rfl, hbefore⟩
  | cons hfirst _ ih =>
      obtain ⟨hnotes, hcolors⟩ := ih (And.intro hfirst.parent1 hfirst.parent2)
      rw [notesAlong, notesAlong, hfirst.notes hbefore, hnotes]
      exact ⟨rfl, hcolors⟩

/-- From sights that were the same all along it has noted the same itself. -/
theorem ownNotes_same {pre pre' : List Sight} {e e' : Sight}
    (hpre : List.Forall₂ (SameSight o) pre pre') (h : SameSight o e e') :
    o.ownNotes pre' e' = o.ownNotes pre e := by
  have hfirst : SameParents o unknownColors unknownColors := ⟨rfl, rfl⟩
  obtain ⟨hnotes, hcolors⟩ := notesAlong_same hpre hfirst
  rw [Overlap.ownNotes, Overlap.ownNotes, hnotes, h.notes hcolors]

end Sights

/-! ## What the overlaps leave alone -/

/-- A phase and the clocks are as they were. -/
structure SamePhase (cfg : PhasesConfig) (phase : Int) (s t : PhasesState) : Prop where
  memory : t.memory phase = s.memory phase
  timeLeft : t.timeLeft phase = s.timeLeft phase
  reading : t.atsc.reading cfg phase = s.atsc.reading cfg phase
  timeSec : t.timeSec = s.timeSec
  currTime : t.currTime = s.currTime

section Turns

variable {cfg : PhasesConfig} {phase : Int} {s t : PhasesState}

/-- A phase that is the same stays so when a trigger comes in. -/
theorem SamePhase.receive (h : SamePhase cfg phase s t) (e : LoopEvent) :
    SamePhase cfg phase (receive s e) (receive t e) := by
  have hsec : t.timeSec + (e.clock - t.currTime) = s.timeSec + (e.clock - s.currTime) := by
    rw [h.timeSec, h.currTime]
  unfold Phases.receive
  cases e.trigger with
  | atsc record => exact ⟨h.memory, h.timeLeft, rfl, hsec, rfl⟩
  | timer => exact ⟨h.memory, h.timeLeft, h.reading, hsec, rfl⟩
  | unknown => exact ⟨h.memory, h.timeLeft, h.reading, hsec, rfl⟩

/-- It stays so in the decoding. -/
theorem SamePhase.decode (h : SamePhase cfg phase s t) :
    SamePhase cfg phase (decode cfg s) (decode cfg t) := by
  have hs := decodeRows_redecoded cfg (upTo cfg.plan.noPhases) s
  have ht := decodeRows_redecoded cfg (upTo cfg.plan.noPhases) t
  unfold Phases.decode
  constructor
  case memory =>
      rw [decodeRows_memory, decodeRows_memory, h.memory, h.timeSec, h.reading]
  case timeLeft =>
      rw [hs, ht]
      exact h.timeLeft
  case reading =>
      rw [decodeRows_reading, decodeRows_reading]
      exact h.reading
  case timeSec =>
      rw [hs, ht]
      exact h.timeSec
  case currTime =>
      rw [hs, ht]
      exact h.currTime

/-- It stays so in a row of the countdown. -/
theorem SamePhase.countdownRow (h : SamePhase cfg phase s t) (i : Int) :
    SamePhase cfg phase (countdownRow cfg.plan s i) (countdownRow cfg.plan t i) := by
  have hs := countdownRow_recounted cfg.plan s i
  have ht := countdownRow_recounted cfg.plan t i
  constructor
  case memory =>
      rw [hs, ht]
      exact h.memory
  case timeLeft =>
      by_cases hrow : phase = cfg.plan.phaseIndex i
      · have hcolor : t.signalColor phase = s.signalColor phase :=
          congrArg PhaseMemory.signalColor h.memory
        have hgreen : t.startGreen phase = s.startGreen phase :=
          congrArg PhaseMemory.startGreen h.memory
        have hyellow : t.startYellow phase = s.startYellow phase :=
          congrArg PhaseMemory.startYellow h.memory
        have hred : t.startRed phase = s.startRed phase :=
          congrArg PhaseMemory.startRed h.memory
        simp only [Phases.countdownRow, ← hrow, hcolor, hgreen, hyellow, hred, h.timeSec]
        split_ifs
        all_goals first | exact h.timeLeft | simp only [Function.update_self]
      · rw [(countdownRow_other cfg.plan s hrow).2, (countdownRow_other cfg.plan t hrow).2]
        exact h.timeLeft
  case reading =>
      rw [hs, ht]
      exact h.reading
  case timeSec =>
      rw [hs, ht]
      exact h.timeSec
  case currTime =>
      rw [hs, ht]
      exact h.currTime

/-- It stays so in the countdown. -/
theorem SamePhase.countdown (h : SamePhase cfg phase s t) :
    SamePhase cfg phase (countdown cfg.plan s) (countdown cfg.plan t) := by
  unfold Phases.countdown
  induction upTo cfg.plan.noPhases generalizing s t with
  | nil => exact h
  | cons i is ih => exact ih (h.countdownRow i)

/-- A phase that is no overlap's own stays as it is, whatever the overlaps. -/
theorem SamePhase.overlaps {cfg' : PhasesConfig} (h : SamePhase cfg phase s t)
    (hcfg : ∀ i ∈ upTo cfg.noOverlaps, phase ≠ (cfg.overlap i).overlapPhase)
    (hcfg' : ∀ i ∈ upTo cfg'.noOverlaps, phase ≠ (cfg'.overlap i).overlapPhase) :
    SamePhase cfg phase { s with toSignals := overlapLoop cfg s.timeSec s.toSignals }
      { t with toSignals := overlapLoop cfg' t.timeSec t.toSignals } where
  memory := by
    have hs := overlapLoop_sameColor cfg s.timeSec s.toSignals hcfg
    have ht := overlapLoop_sameColor cfg' t.timeSec t.toSignals hcfg'
    have hmemory := h.memory
    simp only [PhasesState.memory, PhaseMemory.mk.injEq] at hmemory ⊢
    exact ⟨ht.trans (hmemory.1.trans hs.symm), hmemory.2⟩
  timeLeft := by
    have hs := overlapLoop_sameLeft cfg s.timeSec s.toSignals hcfg
    have ht := overlapLoop_sameLeft cfg' t.timeSec t.toSignals hcfg'
    exact ht.trans (h.timeLeft.trans hs.symm)
  reading := h.reading
  timeSec := h.timeSec
  currTime := h.currTime

/-- It stays so when its inputs are kept. -/
theorem SamePhase.keepOld (h : SamePhase cfg phase s t) :
    SamePhase cfg phase (keepOld cfg.plan s) (keepOld cfg.plan t) := by
  unfold Phases.keepOld
  rw [keepOldRows_eq, keepOldRows_eq]
  refine ⟨?_, h.timeLeft, h.reading, h.timeSec, h.currTime⟩
  have hmemory := h.memory
  simp only [PhasesState.memory, PhaseMemory.mk.injEq] at hmemory ⊢
  simp only [TimingPlan.stored, hmemory, and_self]

/-- A turn leaves such a phase the same, whether there is one overlap or there are all, and
the overlap loop finds the same of it. -/
theorem SamePhase.turn {k : Nat} (hk : (k : Int) ∈ upTo cfg.noOverlaps)
    (hapart : ∀ i ∈ upTo cfg.noOverlaps, phase ≠ (cfg.overlap i).overlapPhase)
    (h : SamePhase cfg phase s t) (e : LoopEvent) :
    SamePhase cfg phase (Phases.countdown cfg.plan (Phases.decode cfg (Phases.receive s e)))
        (Phases.countdown cfg.plan (Phases.decode cfg (Phases.receive t e))) ∧
      SamePhase cfg phase (phasesStep cfg s e).1 (phasesStep (cfg.only k) t e).1 := by
  have hfound := ((h.receive e).decode).countdown
  have halone : ∀ i ∈ upTo (cfg.only k).noOverlaps,
      phase ≠ ((cfg.only k).overlap i).overlapPhase := fun _ _ => hapart k hk
  exact ⟨hfound, (hfound.overlaps hapart halone).keepOld⟩

end Turns

/-! ## Runs of the main loop -/

/-- The phases that an overlap looks at. -/
def Overlap.LooksAt (o : Overlap) (phase : Int) : Prop :=
  phase = o.parentPhase1 ∨ phase = o.parentPhase2 ∨ phase = o.omitPhase1 ∨ phase = o.omitPhase2

/-- A phase that an overlap looks at is none of the overlaps' own. -/
theorem PhasesConfig.Distinct.not_overlapPhase {cfg : PhasesConfig} (hcfg : cfg.Distinct)
    {k : Nat} (hk : (k : Int) ∈ upTo cfg.noOverlaps) {phase : Int}
    (hphase : (cfg.overlap k).LooksAt phase) :
    ∀ i ∈ upTo cfg.noOverlaps, phase ≠ (cfg.overlap i).overlapPhase := by
  intro i hi
  have hapart := hcfg.apart k hk i hi
  rcases hphase with rfl | rfl | rfl | rfl
  · exact hapart.parent1
  · exact hapart.parent2
  · exact hapart.omit1
  · exact hapart.omit2

section Runs

variable {cfg : PhasesConfig} {k : Nat}

/-- The phases that an overlap looks at are the same to it. -/
def SameLooks (cfg : PhasesConfig) (k : Nat) (s t : PhasesState) : Prop :=
  ∀ phase, (cfg.overlap k).LooksAt phase → SamePhase cfg phase s t

/-- A turn gives both loops the same sight, and leaves what the overlap looks at the same. -/
theorem SameLooks.turn (hcfg : cfg.Distinct) (hk : (k : Int) ∈ upTo cfg.noOverlaps)
    {s t : PhasesState} (h : SameLooks cfg k s t) (e : LoopEvent) :
    SameSight (cfg.overlap k) (sightOf cfg s e) (sightOf (cfg.only k) t e) ∧
      SameLooks cfg k (phasesStep cfg s e).1 (phasesStep (cfg.only k) t e).1 := by
  have hturn (phase : Int) (hphase : (cfg.overlap k).LooksAt phase) :=
    (h phase hphase).turn hk (hcfg.not_overlapPhase hk hphase) e
  have hcolor (phase : Int) (hphase : (cfg.overlap k).LooksAt phase) :
      (sightOf (cfg.only k) t e).signalColor phase = (sightOf cfg s e).signalColor phase :=
    congrArg PhaseMemory.signalColor (hturn phase hphase).1.memory
  constructor
  · exact {
      timeSec := (hturn _ (.inl rfl)).1.timeSec
      parent1 := hcolor _ (.inl rfl)
      parent2 := hcolor _ (.inr (.inl rfl))
      omit1 := hcolor _ (.inr (.inr (.inl rfl)))
      omit2 := hcolor _ (.inr (.inr (.inr rfl)))
      left2 := (hturn _ (.inr (.inl rfl))).1.timeLeft }
  · exact fun phase hphase => (hturn phase hphase).2

/-- Along a run an overlap sees what it sees alone. -/
theorem SameLooks.run (hcfg : cfg.Distinct) (hk : (k : Int) ∈ upTo cfg.noOverlaps)
    {s t : PhasesState} (h : SameLooks cfg k s t) (es : List LoopEvent) :
    List.Forall₂ (SameSight (cfg.overlap k)) (sightsOf cfg s es) (sightsOf (cfg.only k) t es) ∧
      SameLooks cfg k ((phasesMachine cfg).run s es) ((phasesMachine (cfg.only k)).run t es) := by
  induction es generalizing s t with
  | nil => exact ⟨.nil, h⟩
  | cons e es ih =>
      obtain ⟨hsight, hnext⟩ := h.turn hcfg hk e
      obtain ⟨hrest, hend⟩ := ih hnext
      exact ⟨.cons hsight hrest, hend⟩

end Runs

/-- At a turn of the main loop overlap `k` is shown as the main loop with overlap `k` alone
shows it at the same turn. -/
def ShownAsAlone (cfg : PhasesConfig) (uninitialised : PhasesState) (k : Nat)
    (pre : List LoopEvent) (s : PhasesState) (e : LoopEvent) : Prop :=
  let alone := (phasesMachine (cfg.only k)).run (boot uninitialised) pre
  let shown := (phasesStep cfg s e).1
  let shownAlone := (phasesStep (cfg.only k) alone e).1
  shown.signalColor (cfg.overlap k).overlapPhase =
      shownAlone.signalColor (cfg.overlap k).overlapPhase ∧
    shown.timeLeft (cfg.overlap k).overlapPhase =
      shownAlone.timeLeft (cfg.overlap k).overlapPhase

/-- A turn at which what overlap `k` looks up is its own, by the colours that the main loop
has found up to it. -/
def UndisturbedTurn (cfg : PhasesConfig) (uninitialised : PhasesState) (k : Nat)
    (pre : List LoopEvent) (s : PhasesState) (e : LoopEvent) : Prop :=
  Undisturbed cfg k (sightsOf cfg (boot uninitialised) pre) (sightOf cfg s e)

/-- After a history without a disturbance the overlap is shown as it is alone. -/
theorem shownAsAlone_of_undisturbed {cfg : PhasesConfig} (hcfg : cfg.Distinct)
    (uninitialised : PhasesState) {k : Nat} (hk : (k : Int) ∈ upTo cfg.noOverlaps)
    {pre : List LoopEvent} {e : LoopEvent}
    (h : UndisturbedTurn cfg uninitialised k pre
      ((phasesMachine cfg).run (boot uninitialised) pre) e) :
    ShownAsAlone cfg uninitialised k pre ((phasesMachine cfg).run (boot uninitialised) pre) e := by
  have hstart : SameLooks cfg k (boot uninitialised) (boot uninitialised) :=
    fun _ _ => ⟨rfl, rfl, rfl, rfl, rfl⟩
  obtain ⟨hpre, hlooks⟩ := hstart.run hcfg hk pre
  obtain ⟨hsight, -⟩ := hlooks.turn hcfg hk e
  -- the answer of all the overlaps is the one of overlap `k` alone, after the same sights
  have hsame := independent_of_undisturbed hcfg uninitialised hk h
  have halone := alone_answer hcfg uninitialised hk
    (sightsOf cfg (boot uninitialised) pre) (sightOf cfg
      ((phasesMachine cfg).run (boot uninitialised) pre) e)
  -- and the sights of the main loop with that overlap alone are the same to it
  have hown := alone_answer hcfg uninitialised hk
    (sightsOf (cfg.only k) (boot uninitialised) pre) (sightOf (cfg.only k)
      ((phasesMachine (cfg.only k)).run (boot uninitialised) pre) e)
  rw [ownNotes_same hpre hsight, hsight.answer, ← halone, Prod.mk.injEq] at hown
  unfold Independent at hsame
  unfold ShownAsAlone
  simp only [phasesStep_toSignals, phasesMachine_run_toSignals]
  exact ⟨hsame.1.trans hown.1.symm, hsame.2.trans hown.2.symm⟩

/-- **Overlap independence.**  Along every history of colours an overlap has the colour and
the time that it has as the only one, as long as what it looks up is its own; and so it has
along every run of the main loop. -/
theorem independent_along {cfg : PhasesConfig} (hcfg : cfg.Distinct)
    (uninitialised : PhasesState) {k : Nat} (hk : (k : Int) ∈ upTo cfg.noOverlaps) :
    (∀ history, (overlapMachine cfg).Along (boot uninitialised).toSignals
        (fun pre _ e => Undisturbed cfg k pre e) history →
      (overlapMachine cfg).Along (boot uninitialised).toSignals
        (Independent cfg uninitialised k) history) ∧
    ∀ events, (phasesMachine cfg).Along (boot uninitialised)
        (UndisturbedTurn cfg uninitialised k) events →
      (phasesMachine cfg).Along (boot uninitialised) (ShownAsAlone cfg uninitialised k) events := by
  constructor
  · intro history h pre e post hsplit
    exact independent_of_undisturbed hcfg uninitialised hk (h pre e post hsplit)
  · intro events h pre e post hsplit
    exact shownAsAlone_of_undisturbed hcfg uninitialised hk (h pre e post hsplit)

/-! ## Two overlaps -/

/-- Two overlaps without omit phases, on a plan whose yellows last 3 and all-reds 1. -/
def twoOverlaps : PhasesConfig where
  sniffGreen := 0
  sniffYellow := 0
  plan :=
    { noPhases := 8, timingType := 0, finalPhaseNo := 8, cycleLength := 120, phaseIndex := id,
      greenLength := fun _ => 20, yellowLength := fun _ => 3, allRedLength := fun _ => 1 }
  noOverlaps := 2
  overlap i := if i = 1 then ⟨9, 1, 8, 0, 0⟩ else ⟨10, 5, 4, 0, 0⟩

/-- One phase is yellow and all the others are red. -/
def oneYellow (timeSec : ℚ) (phase : Int) : Sight where
  timeSec := timeSec
  signalColor p := if p = phase then SIGNAL_STATE_YELLOW else SIGNAL_STATE_RED
  timeLeft _ := 20

/-- The second overlap's parent 5 is yellow and then red.  Ten seconds later the first
overlap's parent 8 turns yellow. -/
def staggered : List Sight := [oneYellow 10 5, oneYellow 13 2, oneYellow 23 8]

/-- The two overlaps and the phases they look at are distinct. -/
theorem distinct_twoOverlaps : twoOverlaps.Distinct where
  few := by decide
  overlaps := by decide
  apart := by
    intro i hi j hj
    have hpair : (upTo twoOverlaps.noOverlaps) = [1, 2] := by decide
    rw [hpair] at hi hj
    simp only [List.mem_cons, List.not_mem_nil, or_false] at hi hj
    rcases hi with rfl | rfl
    · rcases hj with rfl | rfl
      · constructor <;> decide
      · constructor <;> decide
    · rcases hj with rfl | rfl
      · constructor <;> decide
      · constructor <;> decide

/-- Phase 5 is green, phase 8 is yellow and all the others are red. -/
def greenBeside (timeSec : ℚ) : Sight where
  timeSec := timeSec
  signalColor p :=
    if p = 5 then SIGNAL_STATE_GREEN else if p = 8 then SIGNAL_STATE_YELLOW else SIGNAL_STATE_RED
  timeLeft _ := 20

/-- A record of all three colours of the phases 1 to 8. -/
def allColors (greens yellows reds : Byte) : AtscTyp where
  phaseStatusReds _ := reds
  phaseStatusYellows _ := yellows
  phaseStatusGreens _ := greens
  infoSource := ATSC_SOURCE_NTCIP

/-- The first overlap notes its parent 8 while the second is green, and then the second
notes its own parent 5. -/
theorem independent_along_beside :
    (overlapMachine twoOverlaps).Along (boot zeroed).toSignals (Independent twoOverlaps zeroed 2)
      [greenBeside 5, oneYellow 10 5, oneYellow 13 2] ∧
    (phasesMachine twoOverlaps).Along (boot zeroed) (ShownAsAlone twoOverlaps zeroed 2)
      [{ clock := 5, trigger := .atsc (allColors 0x10 0x80 0x6f), time := 5 },
        { clock := 10, trigger := .atsc (allColors 0 0x10 0xef), time := 10 },
        { clock := 13, trigger := .atsc (allColors 0 0x02 0xfd), time := 13 }] := by
  have hk : ((2 : Nat) : Int) ∈ upTo twoOverlaps.noOverlaps := by decide
  obtain ⟨hhistory, hevents⟩ := independent_along distinct_twoOverlaps zeroed hk
  refine ⟨hhistory _ ?_, hevents _ ?_⟩
  · rw [Machine.along_cons_iff, Machine.along_cons_iff, Machine.along_cons_iff]
    refine ⟨?_, ?_, ?_, Machine.along_nil _ _ _⟩
    · decide +kernel
    · decide +kernel
    · decide +kernel
  · rw [Machine.along_cons_iff, Machine.along_cons_iff, Machine.along_cons_iff]
    refine ⟨?_, ?_, ?_, Machine.along_nil _ _ _⟩
    all_goals unfold UndisturbedTurn
    · decide +kernel
    · decide +kernel
    · decide +kernel

/-- The second overlap turns green again behind the red of both its parents. -/
theorem independent_not_always :
    ¬ ∀ (cfg : PhasesConfig) (uninitialised : PhasesState) (k : Nat) (history : List Sight),
      cfg.Distinct → (k : Int) ∈ upTo cfg.noOverlaps →
      (overlapMachine cfg).Along (boot uninitialised).toSignals
        (Independent cfg uninitialised k) history := by
  intro h
  have hlast := h twoOverlaps zeroed 2 staggered distinct_twoOverlaps (by decide)
    [oneYellow 10 5, oneYellow 13 2] (oneYellow 23 8) [] rfl
  exact absurd hlast.1 (by decide +kernel)

end RfsAtsc.Phases
