import RfsAtsc.Phase170

/-!
# Which status messages reach the tracer

`phase170e` takes a status message only when its master cycle clock differs from the
tracer's, which starts at zero.  The comparison is there to skip duplicates, and it
also skips every message that brings something else in the same second, and a first
message at clock zero.
-/

namespace RfsAtsc

open TracedMemory EventMachine

/-! ## What `update_signal_state` derives -/

/-- The head colour of phase index `i`: a ring's own where the ring serves the phase,
ring B before ring A, and red elsewhere. -/
def headColor (input : SignalStatus) (i : Int) : UChar :=
  if (input.ringBPhase.toNat : Int) = i + 1 then updateHeadColor input.ringBInterval
  else if (input.ringAPhase.toNat : Int) = i + 1 then updateHeadColor input.ringAInterval
  else SIGNAL_STATE_RED

/-- The tracer holds what the message says. -/
structure Tracks (signal : TrafficControllerState) (input : SignalStatus) : Prop where
  pattern : signal.pattern = input.pattern
  ringAPhase : signal.ringAPhase = input.ringAPhase
  ringBPhase : signal.ringBPhase = input.ringBPhase
  ringAInterval : signal.ringAInterval = input.ringAInterval
  ringBInterval : signal.ringBInterval = input.ringBInterval
  forceOffPoint : signal.forceOffPoint = input.forceOffPoint
  localCycleClock : signal.localCycleClock = input.localCycleClock
  masterCycleClock : signal.masterCycleClock = input.masterCycleClock
  signalState : ∀ i ∈ phazIndices, signal.signalState.cell i = headColor input i

/-- Clearing every head to red, cell by cell. -/
private theorem cell_foldl_store (is : List Int) (v : UChar) (m : Mem UChar) (i : Int) :
    (is.foldl (fun m i => m.store i v) m).cell i = if i ∈ is then v else m.cell i := by
  induction is generalizing m with
  | nil => rfl
  | cons j is ih =>
      rw [List.foldl_cons, ih]
      by_cases hmem : i ∈ is
      · rw [if_pos hmem, if_pos (List.mem_cons_of_mem j hmem)]
      · by_cases heq : i = j
        · rw [if_neg hmem, heq, m.store_cell_same, if_pos List.mem_cons_self]
        · have hcons : i ∉ j :: is := by
            rw [List.mem_cons, not_or]
            exact ⟨heq, hmem⟩
          rw [if_neg hmem, if_neg hcons, m.store_cell_ne v heq]

/-- A ring stores the colour of its own phase. -/
theorem storeRing_cell (m : Mem UChar) (phase intv : UChar) {i : Int} (hi : 0 ≤ i) :
    (storeRing m phase intv).cell i =
      if (phase.toNat : Int) = i + 1 then updateHeadColor intv else m.cell i := by
  rw [storeRing]
  by_cases hserved : (phase.toNat : Int) = i + 1
  · have haddr : (phase.toNat : Int) - 1 = i := by omega
    rw [if_pos (by omega : phase.toNat > 0), if_pos hserved, haddr, m.store_cell_same]
  · rw [if_neg hserved]
    split
    · exact m.store_cell_ne _ (by omega)
    · rfl

/-- `update_signal_state` makes the tracer hold what the message says, whatever it held
before. -/
theorem updateSignalState_tracks (tracer : TrafficControllerState) (input : SignalStatus)
    (now : ℚ) : Tracks { updateSignalState tracer input with tp := now } input where
  pattern := rfl
  ringAPhase := rfl
  ringBPhase := rfl
  ringAInterval := rfl
  ringBInterval := rfl
  forceOffPoint := rfl
  localCycleClock := rfl
  masterCycleClock := rfl
  signalState := by
    intro i hi
    have hpos : 0 ≤ i := (mem_phazIndices.mp hi).1
    change (storeRing (storeRing _ _ _) _ _).cell i = _
    rw [storeRing_cell _ _ _ hpos, storeRing_cell _ _ _ hpos, cell_foldl_store, if_pos hi]
    rfl

/-! ## Messages taken along a run -/

/-- Two messages agree in everything the tracer takes but the time of day. -/
structure SameStatus (a b : SignalStatus) : Prop where
  pattern : a.pattern = b.pattern
  ringAPhase : a.ringAPhase = b.ringAPhase
  ringBPhase : a.ringBPhase = b.ringBPhase
  ringAInterval : a.ringAInterval = b.ringAInterval
  ringBInterval : a.ringBInterval = b.ringBInterval
  forceOffPoint : a.forceOffPoint = b.forceOffPoint
  localCycleClock : a.localCycleClock = b.localCycleClock
  masterCycleClock : a.masterCycleClock = b.masterCycleClock

/-- What tracks a message tracks another that says the same. -/
theorem Tracks.of_same {signal : TrafficControllerState} {a b : SignalStatus}
    (h : Tracks signal a) (hsame : SameStatus a b) : Tracks signal b where
  pattern := h.pattern.trans hsame.pattern
  ringAPhase := h.ringAPhase.trans hsame.ringAPhase
  ringBPhase := h.ringBPhase.trans hsame.ringBPhase
  ringAInterval := h.ringAInterval.trans hsame.ringAInterval
  ringBInterval := h.ringBInterval.trans hsame.ringBInterval
  forceOffPoint := h.forceOffPoint.trans hsame.forceOffPoint
  localCycleClock := h.localCycleClock.trans hsame.localCycleClock
  masterCycleClock := h.masterCycleClock.trans hsame.masterCycleClock
  signalState := by
    intro i hi
    rw [h.signalState i hi, headColor, headColor, hsame.ringAPhase, hsame.ringBPhase,
      hsame.ringAInterval, hsame.ringBInterval]

/-- A tracer holds the fields of one message only. -/
theorem Tracks.same {signal : TrafficControllerState} {a b : SignalStatus}
    (ha : Tracks signal a) (hb : Tracks signal b) : SameStatus a b where
  pattern := ha.pattern.symm.trans hb.pattern
  ringAPhase := ha.ringAPhase.symm.trans hb.ringAPhase
  ringBPhase := ha.ringBPhase.symm.trans hb.ringBPhase
  ringAInterval := ha.ringAInterval.symm.trans hb.ringAInterval
  ringBInterval := ha.ringBInterval.symm.trans hb.ringBInterval
  forceOffPoint := ha.forceOffPoint.symm.trans hb.forceOffPoint
  localCycleClock := ha.localCycleClock.symm.trans hb.localCycleClock
  masterCycleClock := ha.masterCycleClock.symm.trans hb.masterCycleClock

/-- The message taken, when a trigger comes after `taken`: a status message whose
master clock is another one, the clock before the first being zero. -/
def takeMessage (taken : Option SignalStatus) : Trigger → Option SignalStatus
  | .status input _ =>
      if input.masterCycleClock ≠ (taken.map SignalStatus.masterCycleClock).getD 0 then some input
      else taken
  | _ => taken

/-- The last message taken out of a list of triggers. -/
def lastTaken (es : List Trigger) : Option SignalStatus := es.foldl takeMessage none

@[simp] theorem lastTaken_concat (es : List Trigger) (e : Trigger) :
    lastTaken (es ++ [e]) = takeMessage (lastTaken es) e := by
  simp [lastTaken]

/-- What the tracer holds: the last message taken, or what it was cleared to. -/
def HoldsTaken (es : List Trigger) (s : Phase170) : Prop :=
  match lastTaken es with
  | none => s.signalTrace.signal = clearedTrace.signal
  | some input => Tracks s.signalTrace.signal input

/-- A field that the tracer holds is that of the last message taken, or what it was cleared
to. -/
theorem HoldsTaken.field {α : Type} {es : List Trigger} {s : Phase170} (h : HoldsTaken es s)
    (held : TrafficControllerState → α) (field : SignalStatus → α)
    (htracks : ∀ input, Tracks s.signalTrace.signal input →
      held s.signalTrace.signal = field input) :
    held s.signalTrace.signal = ((lastTaken es).map field).getD (held clearedTrace.signal) := by
  unfold HoldsTaken at h
  cases htaken : lastTaken es with
  | none =>
      rw [htaken] at h
      rw [h]
      rfl
  | some input =>
      rw [htaken] at h
      exact htracks input h

/-- The clock in the tracer is that of the last message taken. -/
theorem HoldsTaken.masterCycleClock {es : List Trigger} {s : Phase170} (h : HoldsTaken es s) :
    s.signalTrace.signal.masterCycleClock =
      ((lastTaken es).map SignalStatus.masterCycleClock).getD 0 :=
  h.field TrafficControllerState.masterCycleClock _ fun _ htracks => htracks.masterCycleClock

/-- A trigger that takes no message and leaves the tracer's copy of the controller alone
keeps what it holds. -/
private theorem HoldsTaken.of_same {es : List Trigger} {s t : Phase170} {e : Trigger}
    (h : HoldsTaken es s) (htaken : takeMessage (lastTaken es) e = lastTaken es)
    (hsignal : t.signalTrace.signal = s.signalTrace.signal) : HoldsTaken (es ++ [e]) t := by
  rw [HoldsTaken, lastTaken_concat, htaken, hsignal]
  exact h

@[simp] theorem countdownPhases_signal (timing : E170Timing) (egOnset : Int → Int → ℚ)
    (pattern : Int) (cycleLen : ℚ) (tr : SignalTrace) (is : List Int) :
    (countdownPhases timing egOnset pattern cycleLen tr is).signal = tr.signal := by
  induction is generalizing tr with
  | nil => rfl
  | cons i is ih =>
      rw [countdownPhases]
      split
      · exact ih tr
      · split
        · rfl
        · exact ih _

@[simp] theorem clearPriority_signal (tr : SignalTrace) :
    (clearPriority tr).signal = tr.signal := by
  unfold clearPriority
  split
  · rfl
  · split
    · rfl
    · rfl

/-- A tick leaves the tracer's copy of the controller alone. -/
theorem timerTick_signal (timing : E170Timing) (s : Phase170) (now : ℚ) :
    (timerTick timing s now).1.signalTrace.signal = s.signalTrace.signal := by
  simp only [timerTick]
  split
  · rfl
  · split
    · rfl
    · split
      · rfl
      · simp only [countdownPhases_signal, clearPriority_signal, activeClocks]

/-- So does a priority request. -/
theorem requestTrigger_signal (timing : E170Timing) (s : Phase170)
    (input : SignalPriorityRequest) (now : ℚ) :
    (requestTrigger timing s input now).signalTrace.signal = s.signalTrace.signal := by
  simp only [requestTrigger]
  split
  · rfl
  · split
    · rfl
    · rfl

/-- At the start none was taken. -/
theorem holdsTaken_start : HoldsTaken [] startPhase170 := rfl

/-- One trigger keeps what the tracer holds in step with the message taken last. -/
theorem holdsTaken_step (timing : E170Timing) (es : List Trigger) (s : Phase170) (e : Trigger)
    (h : HoldsTaken es s) : HoldsTaken (es ++ [e]) ((phase170Loop timing).step s e).1 := by
  cases e with
  | timer now => exact h.of_same rfl (timerTick_signal timing s now)
  | request input now => exact h.of_same rfl (requestTrigger_signal timing s input now)
  | other => exact h.of_same rfl rfl
  | status input now =>
      change HoldsTaken _ (statusTrigger s input now)
      by_cases hclock : input.masterCycleClock = s.signalTrace.signal.masterCycleClock
      · have htaken : takeMessage (lastTaken es) (.status input now) = lastTaken es :=
          if_neg (not_not.mpr (hclock.trans h.masterCycleClock))
        refine h.of_same htaken ?_
        rw [statusTrigger, if_neg (not_not.mpr hclock)]
      · have hother : input.masterCycleClock ≠
            ((lastTaken es).map SignalStatus.masterCycleClock).getD 0 := by
          rw [← h.masterCycleClock]
          exact hclock
        have htaken : takeMessage (lastTaken es) (.status input now) = some input :=
          if_pos hother
        rw [HoldsTaken, lastTaken_concat, htaken, statusTrigger, if_pos hclock]
        exact updateSignalState_tracks _ input now

/-! ## No lost status -/

/-- A status message is in the tracer after its trigger. -/
def StatusKept (timing : E170Timing) (_pre : List Trigger) (s : Phase170) (e : Trigger) : Prop :=
  ∀ input now, e = .status input now →
    Tracks ((phase170Loop timing).step s e).1.signalTrace.signal input

/-- A status message brings another master clock than the last one taken, which is zero
before any, or is the same status again. -/
def FreshStatus (pre : List Trigger) (_s : Phase170) (e : Trigger) : Prop :=
  ∀ input now, e = .status input now →
    input.masterCycleClock ≠ ((lastTaken pre).map SignalStatus.masterCycleClock).getD 0 ∨
      ∃ taken, lastTaken pre = some taken ∧ SameStatus taken input

/-- The cleared tracer holds no message: no head is red in it. -/
private theorem not_tracks_cleared (input : SignalStatus) :
    ¬ Tracks clearedTrace.signal input := by
  intro h
  have hhead : (0 : UChar) = headColor input 0 := h.signalState 0 (List.mem_cons_self)
  have hcolor : ∀ intv : UChar, updateHeadColor intv ≠ 0 := by
    intro intv
    rw [updateHeadColor]
    split
    · decide
    · split
      · decide
      · decide
  rw [headColor] at hhead
  split at hhead
  · exact hcolor _ hhead.symm
  · split at hhead
    · exact hcolor _ hhead.symm
    · exact absurd hhead (by decide)

/-- One step: the message is in the tracer exactly when it was fresh. -/
private theorem statusKept_iff_fresh (timing : E170Timing) (pre : List Trigger) (s : Phase170)
    (e : Trigger) (h : HoldsTaken pre s) :
    StatusKept timing pre s e ↔ FreshStatus pre s e := by
  refine forall_congr' fun input => forall_congr' fun now => imp_congr_right fun he => ?_
  subst he
  change Tracks (statusTrigger s input now).signalTrace.signal input ↔ _
  rw [← h.masterCycleClock]
  by_cases hclock : input.masterCycleClock = s.signalTrace.signal.masterCycleClock
  · rw [statusTrigger, if_neg (not_not.mpr hclock)]
    unfold HoldsTaken at h
    cases htaken : lastTaken pre with
    | none =>
        rw [htaken] at h
        rw [h] at hclock ⊢
        constructor
        · intro htracks
          exact absurd htracks (not_tracks_cleared input)
        · intro hfresh
          rcases hfresh with hne | ⟨taken, hnone, _⟩
          · exact absurd hclock hne
          · exact absurd hnone (by simp)
    | some taken =>
        rw [htaken] at h
        constructor
        · intro htracks
          exact Or.inr ⟨taken, rfl, h.same htracks⟩
        · intro hfresh
          rcases hfresh with hne | ⟨taken', hsome, hsame⟩
          · exact absurd hclock hne
          · obtain rfl := Option.some.inj hsome
            exact h.of_same hsame
  · rw [statusTrigger, if_pos hclock]
    exact ⟨fun _ => Or.inl hclock, fun _ => updateSignalState_tracks _ input now⟩

/-- **No lost status**: along any run, every status message is in the tracer after its
trigger exactly when each brings another master clock than the last one taken or
repeats that one. -/
theorem statusKept_along_iff (timing : E170Timing) (es : List Trigger) :
    (phase170Loop timing).Along startPhase170 (StatusKept timing) es ↔
      (phase170Loop timing).Along startPhase170 FreshStatus es :=
  (phase170Loop timing).along_congr holdsTaken_start (holdsTaken_step timing)
    (statusKept_iff_fresh timing) es

/-- Phase 2 turns from green to yellow within one second of the master clock: the
second message is lost. -/
theorem statusKept_not_always :
    ¬ ∀ (timing : E170Timing) (es : List Trigger),
      (phase170Loop timing).Along startPhase170 (StatusKept timing) es := by
  intro h
  let status (intv : UChar) : SignalStatus :=
    ⟨2, 0, intv, 0, 40, 40, fun _ => 0, 1, ⟨0, 0, 0, 0⟩⟩
  have hkept := h rfsIntersection [.status (status 0) 0, .status (status 12) (1 / 2)]
    [.status (status 0) 0] (.status (status 12) (1 / 2)) [] rfl (status 12) (1 / 2) rfl
  exact absurd (show (0 : UChar) = 12 from hkept.ringAInterval) (by decide)

end RfsAtsc
