import RfsAtsc.Phase170Messages
import RfsAtsc.StatusTracking

/-!
# The tables of `phase170e` and what indexes them

Ring phases and the pattern come as bytes of a status message.  They index `signal_state`
when the message is taken, and `plan_timing` and the onsets at later ticks and priority
requests.  A ring phase is compared with zero only, and a pattern with zero only, at the
tick: nothing keeps either inside its table, or the pattern to a plan that is activated.
-/

namespace RfsAtsc

open TracedMemory EventMachine

/-! ## Accesses -/

/-- A table with the indices it is read or stored at. -/
inductive Phase170Access where
  /-- `signal_state[i]`. -/
  | signalState (i : Int)
  /-- `plan_timing[plan].cycle_length`. -/
  | cycleLength (plan : Int)
  /-- `plan_timing[plan].force_off[phase]`. -/
  | forceOff (plan phase : Int)
  /-- `signal_state_onset[plan][phase][kind]`. -/
  | onset (plan phase kind : Int)
  /-- `signal_EG_onset[phase][kind]`. -/
  | egOnset (phase kind : Int)
  /-- A table of the eight phases. -/
  | phaseTable (phase : Int)

/-- An index inside an array of `bound` entries. -/
def IsIndex (bound i : Int) : Prop := 0 ≤ i ∧ i < bound

instance (bound i : Int) : Decidable (IsIndex bound i) := inferInstanceAs (Decidable (_ ∧ _))

/-- Each index is inside the bound its array is declared with. -/
def Phase170Access.InBounds : Phase170Access → Prop
  | .signalState i => IsIndex MAX_NMEA_PHAZ i
  | .cycleLength plan => IsIndex MAX_PLANS plan
  | .forceOff plan phase => IsIndex MAX_PLANS plan ∧ IsIndex MAX_NMEA_PHAZ phase
  | .onset plan phase kind => IsIndex MAX_PLANS plan ∧ IsIndex MAX_NMEA_PHAZ phase ∧ IsIndex 3 kind
  | .egOnset phase kind => IsIndex MAX_NMEA_PHAZ phase ∧ IsIndex 3 kind
  | .phaseTable phase => IsIndex MAX_NMEA_PHAZ phase

/-- The plan whose cycle length or onset an access uses. -/
def Phase170Access.planUsed : Phase170Access → Option Int
  | .cycleLength plan => some plan
  | .onset plan _ _ => some plan
  | _ => none

/-- In bounds, and of an activated plan where it uses one. -/
def Phase170Access.Safe (timing : E170Timing) (a : Phase170Access) : Prop :=
  a.InBounds ∧ ∀ plan, a.planUsed = some plan → (timing.planTiming plan).planActivated ≠ 0

/-- Store of the head colour of a ring's phase. -/
def ringAccess (phase : UChar) : List Phase170Access :=
  if phase.toNat > 0 then [.signalState ((phase.toNat : Int) - 1)] else []

/-- Accesses of a status message. -/
def statusAccesses (s : Phase170) (input : SignalStatus) : List Phase170Access :=
  if input.masterCycleClock ≠ s.signalTrace.signal.masterCycleClock then
    phazIndices.map .signalState ++ ringAccess input.ringAPhase ++ ringAccess input.ringBPhase
  else []

/-- Accesses of a priority request. -/
def requestAccesses (s : Phase170) (input : SignalPriorityRequest) : List Phase170Access :=
  if input.requestedType = EARLY_GREEN then
    let pattern := s.signalTrace.signal.pattern.toInt
    [.cycleLength pattern, .onset pattern 3 0, .egOnset 3 0, .egOnset 3 1, .phaseTable 3,
      .egOnset 3 2, .onset pattern 1 1, .egOnset 1 1, .onset pattern 1 2, .egOnset 1 2,
      .egOnset 1 0, .onset pattern 1 0]
  else if input.requestedType = GREEN_EXTENSION then
    [.onset s.pattern 1 0, .onset s.pattern 1 1]
  else []

/-- Heads looked at before the priority flag is cleared. -/
def clearPriorityAccesses (tr : SignalTrace) : List Phase170Access :=
  if tr.priorityStatus = GREEN_EXTENSION then [.signalState 3]
  else if tr.priorityStatus = EARLY_GREEN then [.signalState 1]
  else []

/-- The onset of phase index `i` in force. -/
def activeAccess (pattern : Int) (tr : SignalTrace) (i c : Int) : Phase170Access :=
  if tr.priorityStatus = EARLY_GREEN then .egOnset i c else .onset pattern i c

/-- Accesses of the two green-extension cases. -/
def extensionAccesses (pattern : Int) (tr : SignalTrace) (i j jj : Int) : List Phase170Access :=
  if i = 1 ∧ tr.priorityStatus = GREEN_EXTENSION then
    .signalState i ::
      if ExtendedGreen tr i then [activeAccess pattern tr i j, activeAccess pattern tr i jj] else []
  else if i = 3 ∧ tr.priorityStatus = GREEN_EXTENSION then
    .signalState i ::
      ((if tr.signal.signalState.cell i = SIGNAL_STATE_RED then [.signalState 1] else []) ++
        if ExtendedRed tr i then [.phaseTable 1, .forceOff 1 i, .phaseTable i] else [])
  else []

/-- Accesses of the loop over the phases. -/
def countdownAccesses (timing : E170Timing) (pattern : Int) (tr : SignalTrace) :
    List Int → List Phase170Access
  | [] => []
  | i :: is =>
      if timing.phaseTiming.permittedPhase i = 0 then
        .phaseTable i :: countdownAccesses timing pattern tr is
      else
        .phaseTable i :: activeAccess pattern tr i 0 :: .signalState i ::
          match onsetsOf (tr.signal.signalState.cell i) with
          | none => []
          | some (j, jj) =>
              activeAccess pattern tr i j :: activeAccess pattern tr i jj ::
                (extensionAccesses pattern tr i j jj ++ .phaseTable i ::
                  countdownAccesses timing pattern tr is)

/-- Accesses of `assem_ix_msg` for approach `i`. -/
def assemAccesses (site : E170Site) (i : Nat) : List Phase170Access :=
  [.phaseTable (site.controlIndex i), .signalState (site.outputIndex i),
    .phaseTable (site.outputIndex i)]

/-- Accesses of the loop that fills the status record. -/
def broadcastAccesses (site : E170Site) (tr : SignalTrace) :
    Mem UChar → List Nat → List Phase170Access
  | _, [] => []
  | atsc, i :: is =>
      let shown := showColor site (assemApproach site tr i).fields.signalState i atsc
      .phaseTable (site.controlIndex i) ::
        ((if ShownOn site i shown then
            [.phaseTable (site.controlIndex i), .phaseTable (site.nextIndex i)]
          else []) ++
          broadcastAccesses site tr (broadcastApproach site tr atsc i) is)

/-- Accesses of the loop that fills the ring phases, for approach `i`. -/
def ringPhaseAccesses (site : E170Site) (i : Nat) : List Phase170Access :=
  [.phaseTable (site.controlIndex i), .phaseTable (site.outputIndex i)]

/-- Accesses of the messages of a tick. -/
def messageAccesses (site : E170Site) (tr : SignalTrace) : List Phase170Access :=
  let approaches := List.range site.totalNoApproaches.toNat
  approaches.flatMap (assemAccesses site) ++ broadcastAccesses site tr clearedAtsc approaches ++
    approaches.flatMap (ringPhaseAccesses site)

/-- Accesses of a timer tick. -/
def tickAccesses (site : E170Site) (s : Phase170) (now : ℚ) : List Phase170Access :=
  if s.signalTrig = false then []
  else
    let pattern := s.signalTrace.signal.pattern.toInt
    if pattern = 0 then []
    else
      let timeGap := now - s.signalTrace.signal.tp
      if timeGap > 5 then []
      else
        let cycleLen := (site.timing.planTiming pattern).cycleLength
        let tr := activeClocks s.signalTrace timeGap cycleLen now
        .cycleLength pattern :: (clearPriorityAccesses tr ++
          (countdownAccesses site.timing pattern (clearPriority tr) phazIndices ++
            (timerTick site.timing s now).2.flatMap (messageAccesses site)))

/-- Accesses of one turn of the loop. -/
def phase170Accesses (site : E170Site) (s : Phase170) : Trigger → List Phase170Access
  | .timer now => tickAccesses site s now
  | .status input _ => statusAccesses s input
  | .request input _ => requestAccesses s input
  | .other => []

/-- Every access of a turn is safe. -/
def SafeTurn (site : E170Site) (_pre : List Trigger) (s : Phase170) (e : Trigger) : Prop :=
  ∀ a ∈ phase170Accesses site s e, a.Safe site.timing

/-- A plan that the tables have, and that is activated. -/
def PlanUsable (timing : E170Timing) (pattern : Int) : Prop :=
  IsIndex MAX_PLANS pattern ∧ (timing.planTiming pattern).planActivated ≠ 0

/-- A ring has no phase, or one that `signal_state` has a place for. -/
def RingFits (phase : UChar) : Prop := (phase.toNat : Int) ≤ MAX_NMEA_PHAZ

/-- The pattern of the last message taken; before the first it is that of running free. -/
def patternTaken (pre : List Trigger) : UChar := ((lastTaken pre).map SignalStatus.pattern).getD 0

/-- What a turn needs: fitting ring phases of a message that is taken, and a usable pattern
where a tick or a request counts with one.  A tick and an early green count with the pattern
of the last message taken, a green extension with the one counted with before. -/
def TurnFits (timing : E170Timing) (pre : List Trigger) (s : Phase170) : Trigger → Prop
  | .timer now =>
      s.signalTrig = true → (patternTaken pre).toInt ≠ 0 → now - s.signalTrace.signal.tp ≤ 5 →
        PlanUsable timing (patternTaken pre).toInt
  | .status input _ =>
      input.masterCycleClock ≠ ((lastTaken pre).map SignalStatus.masterCycleClock).getD 0 →
        RingFits input.ringAPhase ∧ RingFits input.ringBPhase
  | .request input _ =>
      (input.requestedType = EARLY_GREEN → PlanUsable timing (patternTaken pre).toInt) ∧
      (input.requestedType = GREEN_EXTENSION → PlanUsable timing s.pattern)
  | .other => True

/-! ## One access -/

variable {timing : E170Timing}

@[simp] theorem safe_signalState {i : Int} :
    (Phase170Access.signalState i).Safe timing ↔ IsIndex MAX_NMEA_PHAZ i := by
  simp [Phase170Access.Safe, Phase170Access.InBounds, Phase170Access.planUsed]

@[simp] theorem safe_phaseTable {i : Int} :
    (Phase170Access.phaseTable i).Safe timing ↔ IsIndex MAX_NMEA_PHAZ i := by
  simp [Phase170Access.Safe, Phase170Access.InBounds, Phase170Access.planUsed]

@[simp] theorem safe_cycleLength {plan : Int} :
    (Phase170Access.cycleLength plan).Safe timing ↔ PlanUsable timing plan := by
  simp [Phase170Access.Safe, Phase170Access.InBounds, Phase170Access.planUsed, PlanUsable]

@[simp] theorem safe_forceOff {plan i : Int} :
    (Phase170Access.forceOff plan i).Safe timing ↔
      IsIndex MAX_PLANS plan ∧ IsIndex MAX_NMEA_PHAZ i := by
  simp [Phase170Access.Safe, Phase170Access.InBounds, Phase170Access.planUsed]

@[simp] theorem safe_egOnset {i c : Int} :
    (Phase170Access.egOnset i c).Safe timing ↔ IsIndex MAX_NMEA_PHAZ i ∧ IsIndex 3 c := by
  simp [Phase170Access.Safe, Phase170Access.InBounds, Phase170Access.planUsed]

@[simp] theorem safe_onset {plan i c : Int} :
    (Phase170Access.onset plan i c).Safe timing ↔
      PlanUsable timing plan ∧ IsIndex MAX_NMEA_PHAZ i ∧ IsIndex 3 c := by
  simp only [Phase170Access.Safe, Phase170Access.InBounds, Phase170Access.planUsed, PlanUsable,
    Option.some.injEq, forall_eq']
  exact and_right_comm

/-! ## A status message and a request -/

/-- The pattern in the tracer is that of the last message taken. -/
theorem HoldsTaken.pattern {pre : List Trigger} {s : Phase170} (h : HoldsTaken pre s) :
    s.signalTrace.signal.pattern = patternTaken pre :=
  h.field TrafficControllerState.pattern _ fun _ htracks => htracks.pattern

/-- A ring's store is safe when its phase fits. -/
theorem ringAccess_safe_iff (phase : UChar) :
    (∀ a ∈ ringAccess phase, a.Safe timing) ↔ RingFits phase := by
  unfold ringAccess RingFits
  split
  · simp only [List.mem_singleton, forall_eq, safe_signalState, IsIndex]
    omega
  · simp only [List.not_mem_nil, false_imp_iff, implies_true, true_iff, MAX_NMEA_PHAZ]
    omega

/-- A status message that is taken is safe exactly when its two phases fit. -/
theorem statusAccesses_safe_iff (s : Phase170) (input : SignalStatus) :
    (∀ a ∈ statusAccesses s input, a.Safe timing) ↔
      (input.masterCycleClock ≠ s.signalTrace.signal.masterCycleClock →
        RingFits input.ringAPhase ∧ RingFits input.ringBPhase) := by
  unfold statusAccesses
  split
  case isTrue htaken =>
      have hreds : ∀ a ∈ phazIndices.map Phase170Access.signalState, a.Safe timing := by
        simpa [IsIndex] using fun i hi => mem_phazIndices.mp hi
      rw [List.forall_mem_append, List.forall_mem_append, ringAccess_safe_iff,
        ringAccess_safe_iff]
      constructor
      · intro h _
        exact ⟨h.1.2, h.2⟩
      · intro h
        exact ⟨⟨hreds, (h htaken).1⟩, (h htaken).2⟩
  case isFalse hkept =>
      simp only [List.not_mem_nil, false_imp_iff, implies_true, true_iff]
      intro htaken
      exact absurd htaken hkept

/-- A request is safe exactly when the plan that it uses is. -/
theorem requestAccesses_safe_iff (s : Phase170) (input : SignalPriorityRequest) :
    (∀ a ∈ requestAccesses s input, a.Safe timing) ↔
      (input.requestedType = EARLY_GREEN →
        PlanUsable timing s.signalTrace.signal.pattern.toInt) ∧
      (input.requestedType = GREEN_EXTENSION → PlanUsable timing s.pattern) := by
  unfold requestAccesses
  split
  case isTrue hearly =>
      have hother : EARLY_GREEN ≠ GREEN_EXTENSION := by decide
      simp [hearly, hother, IsIndex, MAX_NMEA_PHAZ]
  case isFalse hearly =>
      split
      case isTrue hextension =>
          have hother : GREEN_EXTENSION ≠ EARLY_GREEN := by decide
          simp [hextension, hother, IsIndex, MAX_NMEA_PHAZ]
      case isFalse hextension => simp [hearly, hextension]

/-! ## A tick -/

/-- The onsets counted between are two of the three. -/
theorem onsetsOf_isIndex {color : UChar} {j jj : Int} (h : onsetsOf color = some (j, jj)) :
    IsIndex 3 j ∧ IsIndex 3 jj := by
  unfold onsetsOf at h
  split at h
  · cases h
    decide
  · split at h
    · cases h
      decide
    · split at h
      · cases h
        decide
      · cases h

section Tick

variable {pattern : Int} (hpattern : PlanUsable timing pattern) (tr : SignalTrace)
include hpattern

/-- A table that is looked up for the active plan is safe for an index that is. -/
theorem activeAccess_safe {i c : Int} (hi : IsIndex MAX_NMEA_PHAZ i) (hc : IsIndex 3 c) :
    (activeAccess pattern tr i c).Safe timing := by
  unfold activeAccess
  split
  · exact safe_egOnset.mpr ⟨hi, hc⟩
  · exact safe_onset.mpr ⟨hpattern, hi, hc⟩

/-- A green extension is safe with its indices in their tables. -/
theorem extensionAccesses_safe {i j jj : Int} (hi : IsIndex MAX_NMEA_PHAZ i)
    (hj : IsIndex 3 j) (hjj : IsIndex 3 jj) :
    ∀ a ∈ extensionAccesses pattern tr i j jj, a.Safe timing := by
  have hnext := activeAccess_safe hpattern tr hi hj
  have hlast := activeAccess_safe hpattern tr hi hjj
  have hone : IsIndex MAX_NMEA_PHAZ 1 := by decide
  have hplan : IsIndex MAX_PLANS 1 := by decide
  unfold extensionAccesses
  split
  · split
    · simp [hi, hnext, hlast]
    · simp [hi]
  · split
    · split <;> split <;> simp [hi, hone, hplan]
    · simp

/-- The loop over the phases stays in its tables. -/
theorem countdownAccesses_safe {is : List Int} (his : ∀ i ∈ is, IsIndex MAX_NMEA_PHAZ i) :
    ∀ a ∈ countdownAccesses timing pattern tr is, a.Safe timing := by
  induction is with
  | nil => simp [countdownAccesses]
  | cons i is ih =>
      obtain ⟨hi, hrest⟩ := List.forall_mem_cons.mp his
      have htable : (Phase170Access.phaseTable i).Safe timing := safe_phaseTable.mpr hi
      rw [countdownAccesses]
      split
      · exact List.forall_mem_cons.mpr ⟨htable, ih hrest⟩
      · have hgreen := activeAccess_safe hpattern tr hi (c := 0) (by decide)
        refine List.forall_mem_cons.mpr ⟨htable, List.forall_mem_cons.mpr ⟨hgreen,
          List.forall_mem_cons.mpr ⟨safe_signalState.mpr hi, ?_⟩⟩⟩
        split
        case h_1 => exact fun a ha => absurd ha List.not_mem_nil
        case h_2 j jj honsets =>
            obtain ⟨hj, hjj⟩ := onsetsOf_isIndex honsets
            refine List.forall_mem_cons.mpr ⟨activeAccess_safe hpattern tr hi hj,
              List.forall_mem_cons.mpr ⟨activeAccess_safe hpattern tr hi hjj,
                List.forall_mem_append.mpr ⟨extensionAccesses_safe hpattern tr hi hj hjj,
                  List.forall_mem_cons.mpr ⟨htable, ih hrest⟩⟩⟩⟩

end Tick

/-- Clearing a priority is safe. -/
theorem clearPriorityAccesses_safe (tr : SignalTrace) :
    ∀ a ∈ clearPriorityAccesses tr, a.Safe timing := by
  unfold clearPriorityAccesses
  split
  · simp [IsIndex, MAX_NMEA_PHAZ]
  · split <;> simp [IsIndex, MAX_NMEA_PHAZ]

/-! ## The messages -/

/-- The phases that the tables of a site name for its approaches are phases. -/
structure E170Site.Configured (site : E170Site) : Prop where
  control : ∀ i < site.totalNoApproaches.toNat, IsIndex MAX_NMEA_PHAZ (site.controlIndex i)
  output : ∀ i < site.totalNoApproaches.toNat, IsIndex MAX_NMEA_PHAZ (site.outputIndex i)
  next : ∀ i < site.totalNoApproaches.toNat, IsIndex MAX_NMEA_PHAZ (site.nextIndex i)

section Messages

variable {site : E170Site} (hsite : site.Configured)
include hsite

/-- So is the broadcast of approaches that the site has. -/
theorem broadcastAccesses_safe (tr : SignalTrace) (atsc : Mem UChar) {is : List Nat}
    (his : ∀ i ∈ is, i < site.totalNoApproaches.toNat) :
    ∀ a ∈ broadcastAccesses site tr atsc is, a.Safe timing := by
  induction is generalizing atsc with
  | nil => exact fun a ha => absurd ha List.not_mem_nil
  | cons i is ih =>
      obtain ⟨hi, hrest⟩ := List.forall_mem_cons.mp his
      have hcontrol := hsite.control i hi
      have hnext := hsite.next i hi
      refine List.forall_mem_cons.mpr ⟨safe_phaseTable.mpr hcontrol,
        List.forall_mem_append.mpr ⟨?_, ih _ hrest⟩⟩
      split
      · simp [hcontrol, hnext]
      · simp

/-- The messages stay in the tables of a configured site, whatever the tracer holds. -/
theorem messageAccesses_safe (tr : SignalTrace) :
    ∀ a ∈ messageAccesses site tr, a.Safe timing := by
  refine List.forall_mem_append.mpr ⟨List.forall_mem_append.mpr ⟨?_, ?_⟩, ?_⟩
  · intro a ha
    obtain ⟨i, hi, ha⟩ := List.mem_flatMap.mp ha
    have hlt := List.mem_range.mp hi
    have hcontrol := hsite.control i hlt
    have houtput := hsite.output i hlt
    simp only [assemAccesses, List.mem_cons, List.not_mem_nil, or_false] at ha
    rcases ha with rfl | rfl | rfl
    · exact safe_phaseTable.mpr hcontrol
    · exact safe_signalState.mpr houtput
    · exact safe_phaseTable.mpr houtput
  · exact broadcastAccesses_safe hsite tr _ fun i hi => List.mem_range.mp hi
  · intro a ha
    obtain ⟨i, hi, ha⟩ := List.mem_flatMap.mp ha
    have hlt := List.mem_range.mp hi
    simp only [ringPhaseAccesses, List.mem_cons, List.not_mem_nil, or_false] at ha
    rcases ha with rfl | rfl
    · exact safe_phaseTable.mpr (hsite.control i hlt)
    · exact safe_phaseTable.mpr (hsite.output i hlt)

/-- A tick is safe when the pattern it counts with is usable. -/
theorem tickAccesses_safe_iff (s : Phase170) (now : ℚ) :
    (∀ a ∈ tickAccesses site s now, a.Safe site.timing) ↔
      (s.signalTrig = true → s.signalTrace.signal.pattern.toInt ≠ 0 →
        now - s.signalTrace.signal.tp ≤ 5 →
          PlanUsable site.timing s.signalTrace.signal.pattern.toInt) := by
  unfold tickAccesses
  split
  case isTrue hidle => simp [hidle]
  case isFalse htrig =>
      have htrig' : s.signalTrig = true := by simpa using htrig
      dsimp only
      split
      case isTrue hfree => simp [hfree]
      case isFalse hrunning =>
          split
          case isTrue hlate => simp [not_le.mpr hlate]
          case isFalse hfresh =>
              constructor
              · intro h _ _ _
                exact safe_cycleLength.mp (h _ List.mem_cons_self)
              · intro h
                have hpattern := h htrig' hrunning (not_lt.mp hfresh)
                refine List.forall_mem_cons.mpr ⟨safe_cycleLength.mpr hpattern,
                  List.forall_mem_append.mpr ⟨clearPriorityAccesses_safe _,
                    List.forall_mem_append.mpr ⟨?_, ?_⟩⟩⟩
                · exact countdownAccesses_safe hpattern _ fun i hi => mem_phazIndices.mp hi
                · intro a ha
                  obtain ⟨tr, -, ha⟩ := List.mem_flatMap.mp ha
                  exact messageAccesses_safe hsite tr a ha

/-- **One turn.**  Where the tracer holds the last message taken, the accesses are safe
exactly when the turn fits. -/
theorem safeTurn_iff (pre : List Trigger) (s : Phase170) (e : Trigger) (h : HoldsTaken pre s) :
    SafeTurn site pre s e ↔ TurnFits site.timing pre s e := by
  have hpattern : s.signalTrace.signal.pattern = patternTaken pre := h.pattern
  cases e with
  | timer now =>
      have htick := tickAccesses_safe_iff hsite s now
      rw [hpattern] at htick
      exact htick
  | status input now =>
      have hstatus : (∀ a ∈ statusAccesses s input, a.Safe site.timing) ↔ _ :=
        statusAccesses_safe_iff s input
      rw [h.masterCycleClock] at hstatus
      exact hstatus
  | request input now =>
      have hrequest : (∀ a ∈ requestAccesses s input, a.Safe site.timing) ↔ _ :=
        requestAccesses_safe_iff s input
      rw [hpattern] at hrequest
      exact hrequest
  | other => exact iff_of_true (fun a ha => absurd ha List.not_mem_nil) trivial

/-- Along a run the accesses are safe exactly when every turn fits. -/
theorem safe_along_iff (es : List Trigger) :
    (phase170Loop site.timing).Along startPhase170 (SafeTurn site) es ↔
      (phase170Loop site.timing).Along startPhase170 (TurnFits site.timing) es :=
  (phase170Loop site.timing).along_congr holdsTaken_start (holdsTaken_step site.timing)
    (safeTurn_iff hsite) es

end Messages

/-! ## Messages that fit -/

/-- Running free, or a usable plan. -/
def PatternFits (timing : E170Timing) (pattern : Int) : Prop :=
  pattern = 0 ∨ PlanUsable timing pattern

/-- A status message whose bytes fit, and a request that does not count with running free. -/
def MessageFits (timing : E170Timing) (_pre : List Trigger) (s : Phase170) : Trigger → Prop
  | .status input _ =>
      RingFits input.ringAPhase ∧ RingFits input.ringBPhase ∧
        PatternFits timing input.pattern.toInt
  | .request input _ =>
      (input.requestedType = EARLY_GREEN → s.signalTrace.signal.pattern.toInt ≠ 0) ∧
      (input.requestedType = GREEN_EXTENSION → s.pattern ≠ 0)
  | _ => True

/-- The pattern of the tracer fits, and so does the one counted with. -/
structure PatternsFit (timing : E170Timing) (s : Phase170) : Prop where
  tracer : PatternFits timing s.signalTrace.signal.pattern.toInt
  counted : PatternFits timing s.pattern

/-- At the start no pattern has been taken. -/
theorem patternsFit_start : PatternsFit timing startPhase170 := ⟨.inl rfl, .inl rfl⟩

/-- A tick counts with the tracer's pattern or leaves the variable alone. -/
theorem timerTick_pattern (timing : E170Timing) (s : Phase170) (now : ℚ) :
    (timerTick timing s now).1.pattern = s.pattern ∨
      (timerTick timing s now).1.pattern = s.signalTrace.signal.pattern.toInt := by
  unfold timerTick
  split
  · exact .inl rfl
  · refine .inr ?_
    dsimp only
    split
    · rfl
    · split
      · rfl
      · rfl

/-- So does a request. -/
theorem requestTrigger_pattern (timing : E170Timing) (s : Phase170)
    (input : SignalPriorityRequest) (now : ℚ) :
    (requestTrigger timing s input now).pattern = s.pattern ∨
      (requestTrigger timing s input now).pattern = s.signalTrace.signal.pattern.toInt := by
  unfold requestTrigger
  dsimp only
  split
  · exact .inr rfl
  · split
    · exact .inl rfl
    · exact .inl rfl

/-- A trigger that takes no message counts with one of the two patterns. -/
theorem PatternsFit.of_same {s t : Phase170} (h : PatternsFit timing s)
    (hsignal : t.signalTrace.signal = s.signalTrace.signal)
    (hpattern : t.pattern = s.pattern ∨ t.pattern = s.signalTrace.signal.pattern.toInt) :
    PatternsFit timing t := by
  refine ⟨?_, ?_⟩
  · rw [hsignal]
    exact h.tracer
  · rcases hpattern with hsame | htracer
    · rw [hsame]
      exact h.counted
    · rw [htracer]
      exact h.tracer

/-- Fitting messages keep both patterns fit. -/
theorem patternsFit_step (pre : List Trigger) (s : Phase170) (e : Trigger)
    (h : PatternsFit timing s) (hfits : MessageFits timing pre s e) :
    PatternsFit timing ((phase170Loop timing).step s e).1 := by
  cases e with
  | timer now => exact h.of_same (timerTick_signal timing s now) (timerTick_pattern timing s now)
  | status input now =>
      change PatternsFit timing (statusTrigger s input now)
      unfold statusTrigger
      split
      · exact ⟨hfits.2.2, h.counted⟩
      · exact ⟨h.tracer, h.counted⟩
  | request input now =>
      exact h.of_same (requestTrigger_signal timing s input now)
        (requestTrigger_pattern timing s input now)
  | other => exact h

/-- Where the patterns fit, a fitting message is safe. -/
theorem PatternsFit.safeTurn {site : E170Site} (hsite : site.Configured) (pre : List Trigger)
    {s : Phase170} (h : PatternsFit site.timing s) {e : Trigger}
    (hfits : MessageFits site.timing pre s e) : SafeTurn site pre s e := by
  cases e with
  | timer now =>
      exact (tickAccesses_safe_iff hsite s now).mpr fun _ hrunning _ =>
        h.tracer.resolve_left hrunning
  | status input now =>
      exact (statusAccesses_safe_iff s input).mpr fun _ => ⟨hfits.1, hfits.2.1⟩
  | request input now =>
      refine (requestAccesses_safe_iff s input).mpr ⟨?_, ?_⟩
      · intro hearly
        exact h.tracer.resolve_left (hfits.1 hearly)
      · intro hextension
        exact h.counted.resolve_left (hfits.2 hextension)
  | other => exact fun a ha => absurd ha List.not_mem_nil

/-- **Fitting messages.**  A run of status messages whose ring phases and patterns fit, and
of requests that do not count with running free, is safe at any configured site. -/
theorem safe_of_messagesFit {site : E170Site} (hsite : site.Configured) (es : List Trigger)
    (h : (phase170Loop site.timing).Along startPhase170 (MessageFits site.timing) es) :
    (phase170Loop site.timing).Along startPhase170 (SafeTurn site) es :=
  (phase170Loop site.timing).along_of_along patternsFit_start patternsFit_step
    (fun pre _ _ hinv hfits => hinv.safeTurn hsite pre hfits) es h

/-! ## Runs -/

/-- The site of the program has its tables in order. -/
theorem rfsSite_configured : rfsSite.Configured where
  control := by decide
  output := by decide
  next := by decide

/-- **Bounds and plans along a run**: `phase170e` stays in its tables and uses activated
plans only, exactly in the runs whose turns all fit. -/
theorem rfsSite_safe_iff (es : List Trigger) :
    (phase170Loop rfsSite.timing).Along startPhase170 (SafeTurn rfsSite) es ↔
      (phase170Loop rfsSite.timing).Along startPhase170 (TurnFits rfsSite.timing) es :=
  safe_along_iff rfsSite_configured es

/-- Not every run is safe: the intersection runs free, and an early green is requested. -/
theorem rfsSite_not_always_safe :
    ¬ ∀ es : List Trigger,
      (phase170Loop rfsSite.timing).Along startPhase170 (SafeTurn rfsSite) es := by
  intro h
  let free : SignalStatus := ⟨2, 0, 0, 0, 40, 40, fun _ => 0, 0, ⟨0, 0, 0, 0⟩⟩
  let early : SignalPriorityRequest := ⟨1, EARLY_GREEN, 4, 40, ⟨0, 0, 0, 0⟩⟩
  have hsafe := h [.status free 0, .request early 1] [.status free 0] (.request early 1) [] rfl
  have hplan := safe_cycleLength.mp (hsafe (.cycleLength 0) List.mem_cons_self)
  exact hplan.2 rfl

end RfsAtsc
