import RfsAtsc.StatusTracking

/-!
# The countdown stays within the cycle

At a tick each permitted phase counts down to an onset of the plan in effect, or to
an onset that an early-green request moved.  Outside the two green-extension branches
the local clock wraps with the cycle and so does the countdown, as long as the onset
was computed under a cycle no longer than the present one.  The green-extension branches
count by the master clock and do not wrap.
-/

namespace RfsAtsc

open TracedMemory EventMachine

/-- A plan the configuration has in use. -/
def Activated (timing : E170Timing) (p : Int) : Prop :=
  p ∈ planIndices ∧ (timing.planTiming p).planActivated ≠ 0

instance (timing : E170Timing) (p : Int) : Decidable (Activated timing p) :=
  inferInstanceAs (Decidable (_ ∧ _))

/-- The cycle length of a plan. -/
abbrev cycleOf (timing : E170Timing) (p : Int) : ℚ := (timing.planTiming p).cycleLength

/-- What the countdown asks of the plans in use. -/
structure ValidTiming (timing : E170Timing) : Prop where
  cycle : ∀ p, Activated timing p → 5 < cycleOf timing p
  forceOff : ∀ p, Activated timing p → ∀ j ∈ phazIndices,
    0 ≤ (timing.planTiming p).forceOff j ∧ (timing.planTiming p).forceOff j < cycleOf timing p
  clearance : ∀ p, Activated timing p → ∀ j ∈ phazIndices,
    timing.phaseTiming.yellowIntv j + timing.phaseTiming.allredIntv j < cycleOf timing p

/-- No interval is negative, and each permitted phase has a phase before it. -/
structure SoundIntervals (timing : E170Timing) : Prop where
  yellow : ∀ j ∈ phazIndices, 0 ≤ timing.phaseTiming.yellowIntv j
  allred : ∀ j ∈ phazIndices, 0 ≤ timing.phaseTiming.allredIntv j
  before : ∀ j ∈ phazIndices, timing.phaseTiming.permittedPhase j ≠ 0 →
    ((timing.phaseTiming.phaseBf j).toNat : Int) - 1 ∈ phazIndices

/-! ## Clocks that wrap -/

/-- A clock that has passed the end of the cycle at most once is brought back into it. -/
theorem cycleRounding_range {f cycleLen : ℚ} (hlow : 0 ≤ f) (hhigh : f < 2 * cycleLen) :
    0 ≤ cycleRounding f cycleLen ∧ cycleRounding f cycleLen < cycleLen := by
  rw [cycleRounding]
  split
  · exact ⟨by linarith, by linarith⟩
  · exact ⟨hlow, by linarith⟩

/-- The time left is in the cycle exactly when the onset is within one cycle of the
clock. -/
theorem timeLeft_range_iff {onset clock cycleLen : ℚ} (hcycle : 5 < cycleLen) :
    (0 ≤ timeLeft onset clock cycleLen ∧ timeLeft onset clock cycleLen < cycleLen) ↔
      clock - cycleLen ≤ onset ∧ onset < clock + cycleLen := by
  rw [timeLeft]
  split
  · constructor
    · intro h
      exact ⟨by linarith [h.1], by linarith [h.2]⟩
    · intro h
      exact ⟨by linarith [h.1], by linarith [h.2]⟩
  · split
    · exact ⟨fun _ => ⟨by linarith, by linarith⟩, fun _ => ⟨le_rfl, by linarith⟩⟩
    · constructor
      · intro h
        exact ⟨by linarith [h.1], by linarith [h.2]⟩
      · intro h
        exact ⟨by linarith, by linarith [h.2]⟩

/-! ## The table of onsets -/

/-- The onset of kind `c` of phase index `j` in plan `i`, where the table had `old`. -/
def onsetEntry (timing : E170Timing) (i j c : Int) (old : ℚ) : ℚ :=
  if c = 0 then greenOnset timing i j
  else if c = 1 then (timing.planTiming i).forceOff j
  else if c = 2 then redOnset timing i j
  else old

theorem onsetEntry_twice (timing : E170Timing) (i j c : Int) (old : ℚ) :
    onsetEntry timing i j c (onsetEntry timing i j c old) = onsetEntry timing i j c old := by
  simp only [onsetEntry]
  split
  · rfl
  · split
    · rfl
    · split
      · rfl
      · rfl

/-- A loop whose turns each rewrite some entries of the table: an entry is rewritten when
some turn rewrites it. -/
private theorem foldl_onsets (timing : E170Timing) (turn : Onsets → Int → Onsets)
    (P : Int → Int → Int → Prop) [∀ k i j, Decidable (P k i j)]
    (hturn : ∀ onsets k i j c, turn onsets k i j c =
      if P k i j then onsetEntry timing i j c (onsets i j c) else onsets i j c)
    (ks : List Int) (onsets : Onsets) (i j c : Int) :
    ks.foldl turn onsets i j c =
      if ∃ k ∈ ks, P k i j then onsetEntry timing i j c (onsets i j c) else onsets i j c := by
  induction ks generalizing onsets with
  | nil => simp
  | cons k ks ih =>
      rw [List.foldl_cons, ih, hturn]
      by_cases hhere : P k i j
      · have hsome : ∃ l ∈ k :: ks, P l i j := ⟨k, List.mem_cons_self, hhere⟩
        rw [if_pos hhere, if_pos hsome, onsetEntry_twice, ite_self]
      · have hrest : (∃ l ∈ k :: ks, P l i j) ↔ ∃ l ∈ ks, P l i j := by
          rw [List.exists_mem_cons_iff]
          exact or_iff_right hhere
        rw [if_neg hhere]
        simp only [hrest]

/-- One plan's turn fills in the permitted phases of that plan. -/
theorem planOnsets_apply (timing : E170Timing) (onsets : Onsets) (p i j c : Int) :
    planOnsets timing onsets p i j c =
      if i = p ∧ (timing.planTiming i).planActivated ≠ 0 ∧ j ∈ phazIndices ∧
          timing.phaseTiming.permittedPhase j ≠ 0 then
        onsetEntry timing i j c (onsets i j c)
      else onsets i j c := by
  rw [planOnsets]
  by_cases hactive : (timing.planTiming p).planActivated = 0
  · rw [if_pos hactive, if_neg]
    intro h
    exact h.2.1 (by rw [h.1, hactive])
  · rw [if_neg hactive, foldl_onsets timing _
      (fun k i j => i = p ∧ j = k ∧ timing.phaseTiming.permittedPhase j ≠ 0)]
    · refine if_congr ?_ rfl rfl
      constructor
      · intro h
        obtain ⟨k, hk, hi, hj, hpermitted⟩ := h
        exact ⟨hi, by rw [hi]; exact hactive, by rw [hj]; exact hk, hpermitted⟩
      · intro h
        exact ⟨j, h.2.2.1, h.1, rfl, h.2.2.2⟩
    · intro onsets k i j c
      by_cases hpermitted : timing.phaseTiming.permittedPhase k = 0
      · rw [if_pos hpermitted, if_neg]
        intro h
        exact h.2.2 (by rw [h.2.1, hpermitted])
      · rw [if_neg hpermitted, Onsets.set]
        by_cases hhere : i = p ∧ j = k
        · obtain ⟨rfl, rfl⟩ := hhere
          rw [if_pos ⟨rfl, rfl⟩]
          exact (if_pos ⟨rfl, rfl, hpermitted⟩).symm
        · rw [if_neg hhere, if_neg]
          intro h
          exact hhere ⟨h.1, h.2.1⟩

/-- The table of onsets: the permitted phases of the plans in use are filled in. -/
theorem getSignalChangeOnset_apply (timing : E170Timing) (onsets : Onsets) (i j c : Int) :
    getSignalChangeOnset timing onsets i j c =
      if Activated timing i ∧ j ∈ phazIndices ∧ timing.phaseTiming.permittedPhase j ≠ 0 then
        onsetEntry timing i j c (onsets i j c)
      else onsets i j c := by
  rw [getSignalChangeOnset, foldl_onsets timing _ _ (planOnsets_apply timing)]
  refine if_congr ?_ rfl rfl
  constructor
  · intro h
    obtain ⟨p, hp, hi, hactive, hj, hpermitted⟩ := h
    exact ⟨⟨by rw [hi]; exact hp, hactive⟩, hj, hpermitted⟩
  · intro h
    obtain ⟨⟨hp, hactive⟩, hj, hpermitted⟩ := h
    exact ⟨i, hp, rfl, hactive, hj, hpermitted⟩

section Onsets

variable {timing : E170Timing} (hvalid : ValidTiming timing) (hsound : SoundIntervals timing)
include hvalid hsound

/-- The onsets of a plan in use lie in its cycle. -/
theorem onsetEntry_range {p j : Int} (hp : Activated timing p) (hj : j ∈ phazIndices)
    (hpermitted : timing.phaseTiming.permittedPhase j ≠ 0) (c : Int) :
    0 ≤ onsetEntry timing p j c 0 ∧ onsetEntry timing p j c 0 < cycleOf timing p := by
  have hcycle := hvalid.cycle p hp
  have hoff := hvalid.forceOff p hp j hj
  have hclear := hvalid.clearance p hp j hj
  have hyellow := hsound.yellow j hj
  have hallred := hsound.allred j hj
  have hbefore := hsound.before j hj hpermitted
  have hoffBefore := hvalid.forceOff p hp _ hbefore
  have hclearBefore := hvalid.clearance p hp _ hbefore
  have hyellowBefore := hsound.yellow _ hbefore
  have hallredBefore := hsound.allred _ hbefore
  rw [onsetEntry]
  split
  · rw [greenOnset]
    exact cycleRounding_range (by linarith) (by linarith)
  · split
    · exact hoff
    · split
      · rw [redOnset]
        exact cycleRounding_range (by linarith) (by linarith)
      · exact ⟨le_rfl, by linarith⟩

theorem signalStateOnset_range {p j : Int} (hp : Activated timing p) (hj : j ∈ phazIndices)
    (c : Int) :
    0 ≤ signalStateOnset timing p j c ∧ signalStateOnset timing p j c < cycleOf timing p := by
  rw [signalStateOnset, getSignalChangeOnset_apply]
  split
  · rename_i h
    exact onsetEntry_range hvalid hsound hp hj h.2.2 c
  · exact ⟨le_rfl, by linarith [hvalid.cycle p hp]⟩

/-- The onsets that an early-green request computes lie in the cycle of the plan then in
effect. -/
theorem earlyGreenOnset_range {p : Int} (hp : Activated timing p) {desiredForceOff : Int}
    (hlow : 0 ≤ desiredForceOff) (hhigh : (desiredForceOff : ℚ) < cycleOf timing p)
    (i c : Int) :
    0 ≤ earlyGreenOnset timing p desiredForceOff i c ∧
      earlyGreenOnset timing p desiredForceOff i c < cycleOf timing p := by
  have h3 : (3 : Int) ∈ phazIndices := by decide
  have h1 : (1 : Int) ∈ phazIndices := by decide
  have hcycle := hvalid.cycle p hp
  have hclear := hvalid.clearance p hp 3 h3
  have hyellow := hsound.yellow 3 h3
  have hallred := hsound.allred 3 h3
  have hlow' : (0 : ℚ) ≤ desiredForceOff := by exact_mod_cast hlow
  have hred := @cycleRounding_range (desiredForceOff + timing.phaseTiming.yellowIntv 3)
    (cycleOf timing p) (by linarith) (by linarith)
  have hgreen := @cycleRounding_range (cycleRounding (desiredForceOff +
    timing.phaseTiming.yellowIntv 3) (cycleOf timing p) + timing.phaseTiming.allredIntv 3)
    (cycleOf timing p) (by linarith [hred.1]) (by linarith [hred.2])
  have hzero : (0 : ℚ) ≤ 0 ∧ (0 : ℚ) < cycleOf timing p := ⟨le_rfl, by linarith⟩
  simp only [earlyGreenOnset]
  split
  · split
    · exact signalStateOnset_range hvalid hsound hp h3 0
    · split
      · exact ⟨hlow', hhigh⟩
      · split
        · exact hred
        · exact hzero
  · split
    · split
      · exact hgreen
      · split
        · exact signalStateOnset_range hvalid hsound hp h1 1
        · split
          · exact signalStateOnset_range hvalid hsound hp h1 2
          · exact hzero
    · exact hzero

end Onsets

/-! ## What a tick computes -/

/-- The loop leaves the entries of other phases alone. -/
private theorem countdownPhases_other (timing : E170Timing) (egOnset : Int → Int → ℚ)
    (pattern : Int) (cycleLen : ℚ) (tr : SignalTrace) {is : List Int} {i : Int} (hi : i ∉ is) :
    (countdownPhases timing egOnset pattern cycleLen tr is).time2next i = tr.time2next i := by
  induction is generalizing tr with
  | nil => rfl
  | cons k is ih =>
      rw [List.mem_cons, not_or] at hi
      rw [countdownPhases]
      split
      · exact ih tr hi.2
      · split
        · rfl
        · rw [ih _ hi.2]
          exact Function.update_of_ne hi.1 _ _

/-- Where every head is green, yellow or red, the loop counts down each permitted phase. -/
theorem countdownPhases_time2next (timing : E170Timing) (egOnset : Int → Int → ℚ)
    (pattern : Int) (cycleLen : ℚ) (tr : SignalTrace) {is : List Int}
    (hheads : ∀ i ∈ is, ∃ js, onsetsOf (tr.signal.signalState.cell i) = some js)
    {i : Int} (hi : i ∈ is) (hpermitted : timing.phaseTiming.permittedPhase i ≠ 0) {j jj : Int}
    (hj : onsetsOf (tr.signal.signalState.cell i) = some (j, jj)) :
    (countdownPhases timing egOnset pattern cycleLen tr is).time2next i =
      (phaseCountdown timing tr (activeOnsets timing egOnset pattern tr i) cycleLen i j jj).1 := by
  induction is generalizing tr with
  | nil => exact absurd hi List.not_mem_nil
  | cons k is ih =>
      have hrest : ∀ i ∈ is, ∃ js, onsetsOf (tr.signal.signalState.cell i) = some js :=
        fun i hi => hheads i (List.mem_cons_of_mem k hi)
      obtain ⟨⟨l, ll⟩, hl⟩ := hheads k List.mem_cons_self
      rw [countdownPhases, hl]
      by_cases htail : i ∈ is
      · split
        · exact ih tr hrest htail hj
        · exact ih { tr with time2next := _, timeused := _ } hrest htail hj
      · rcases List.mem_cons.mp hi with heq | hmem
        · subst heq
          obtain ⟨rfl, rfl⟩ := Prod.mk.inj (Option.some.inj (hl.symm.trans hj))
          rw [if_neg hpermitted]
          rw [countdownPhases_other timing egOnset pattern cycleLen _ htail]
          exact Function.update_self _ _ _
        · exact absurd hmem htail

/-- A tick counts down: a status has been taken within five seconds, and the controller
does not run free. -/
structure Counts (s : Phase170) (now : ℚ) : Prop where
  triggered : s.signalTrig = true
  coordinated : s.signalTrace.signal.pattern.toInt ≠ 0
  recent : now - s.signalTrace.signal.tp ≤ 5

/-- The pattern in effect. -/
abbrev Phase170.inEffect (s : Phase170) : Int := s.signalTrace.signal.pattern.toInt

/-- The tracer as the loop over the phases finds it. -/
def tickedTrace (timing : E170Timing) (s : Phase170) (now : ℚ) : SignalTrace :=
  clearPriority (activeClocks s.signalTrace (now - s.signalTrace.signal.tp)
    (cycleOf timing s.inEffect) now)

@[simp] theorem tickedTrace_signal (timing : E170Timing) (s : Phase170) (now : ℚ) :
    (tickedTrace timing s now).signal = s.signalTrace.signal := by
  rw [tickedTrace, clearPriority_signal, activeClocks]

/-- A tick sends the counted tracer, or nothing. -/
theorem mem_timerTick (timing : E170Timing) (s : Phase170) (now : ℚ) (tr : SignalTrace) :
    tr ∈ (timerTick timing s now).2 ↔
      Counts s now ∧ tr = countdownPhases timing s.signalEGOnset s.inEffect
        (cycleOf timing s.inEffect) (tickedTrace timing s now) phazIndices := by
  simp only [timerTick]
  by_cases htrig : s.signalTrig = false
  · rw [if_pos htrig]
    constructor
    · intro h
      exact absurd h List.not_mem_nil
    · intro h
      exact absurd h.1.triggered (by rw [htrig]; decide)
  · rw [if_neg htrig]
    by_cases hfree : s.signalTrace.signal.pattern.toInt = 0
    · rw [if_pos hfree]
      constructor
      · intro h
        exact absurd h List.not_mem_nil
      · intro h
        exact absurd hfree h.1.coordinated
    · rw [if_neg hfree]
      by_cases hgap : now - s.signalTrace.signal.tp > 5
      · rw [if_pos hgap]
        constructor
        · intro h
          exact absurd h List.not_mem_nil
        · intro h
          exact absurd h.1.recent (not_le.mpr hgap)
      · rw [if_neg hgap, List.mem_singleton]
        constructor
        · intro h
          exact ⟨⟨eq_true_of_ne_false htrig, hfree, not_lt.mp hgap⟩, h⟩
        · intro h
          exact h.2

/-! ## The countdown of one phase -/

/-- The condition of one phase at a tick, on the tracer that the loop finds. -/
def TraceCounts (timing : E170Timing) (egOnset : Int → Int → ℚ) (pattern : Int)
    (tr : SignalTrace) (i : Int) : Prop :=
  if ExtendedGreen tr i then
    tr.activeMasterCycleClock ≤ (timing.planTiming pattern).forceOff 1
  else if ExtendedRed tr i then
    10 + timing.phaseTiming.yellowIntv 1 + timing.phaseTiming.allredIntv 1 <
      tr.activeMasterCycleClock + cycleOf timing pattern
  else
    (tr.priorityStatus = EARLY_GREEN ∧
        ∃ q, Activated timing q ∧ cycleOf timing pattern < cycleOf timing q) ∨
      ¬ SoundIntervals timing →
    ∀ j jj, onsetsOf (tr.signal.signalState.cell i) = some (j, jj) →
      tr.activeLocalCycleClock - cycleOf timing pattern ≤
          activeOnsets timing egOnset pattern tr i j ∧
        activeOnsets timing egOnset pattern tr i j <
          tr.activeLocalCycleClock + cycleOf timing pattern

/-- What early-green onsets keep: each was computed under some plan in use. -/
def BoundedOnsets (timing : E170Timing) (egOnset : Int → Int → ℚ) : Prop :=
  ∀ i c, egOnset i c = 0 ∨
    ∃ q, Activated timing q ∧ 0 ≤ egOnset i c ∧ egOnset i c < cycleOf timing q

/-- During a green extension phase 2 counts to the force-off of the plan in effect. -/
theorem activeOnsets_extendedGreen {timing : E170Timing} (egOnset : Int → Int → ℚ) {pattern : Int}
    (hactive : Activated timing pattern) {tr : SignalTrace}
    (hpermitted : timing.phaseTiming.permittedPhase 1 ≠ 0) (hgreen : ExtendedGreen tr 1) :
    activeOnsets timing egOnset pattern tr 1 1 = (timing.planTiming pattern).forceOff 1 := by
  have hnormal : tr.priorityStatus ≠ EARLY_GREEN := by
    rw [hgreen.2.1]
    decide
  have hindex : (1 : Int) ∈ phazIndices := by decide
  rw [activeOnsets, if_neg hnormal, signalStateOnset, getSignalChangeOnset_apply,
    if_pos ⟨hactive, hindex, hpermitted⟩]
  rfl

section Phase

variable {timing : E170Timing} (hvalid : ValidTiming timing) {egOnset : Int → Int → ℚ}
  (hbounded : SoundIntervals timing → BoundedOnsets timing egOnset) {pattern : Int}
  (hactive : Activated timing pattern) {tr : SignalTrace}
  (hlocal : 0 ≤ tr.activeLocalCycleClock ∧ tr.activeLocalCycleClock < cycleOf timing pattern)
  (hmaster : 0 ≤ tr.activeMasterCycleClock ∧ tr.activeMasterCycleClock < cycleOf timing pattern)
include hvalid hbounded hactive hlocal

/-- With sound intervals the onset counted to is within one cycle of the clock, unless an
early green counts to an onset of a longer cycle. -/
theorem activeOnsets_within (hsound : SoundIntervals timing)
    (hshort : ¬ (tr.priorityStatus = EARLY_GREEN ∧
      ∃ q, Activated timing q ∧ cycleOf timing pattern < cycleOf timing q))
    {i : Int} (hi : i ∈ phazIndices) (j : Int) :
    tr.activeLocalCycleClock - cycleOf timing pattern ≤
        activeOnsets timing egOnset pattern tr i j ∧
      activeOnsets timing egOnset pattern tr i j <
        tr.activeLocalCycleClock + cycleOf timing pattern := by
  rw [activeOnsets]
  split
  · rename_i hearly
    rcases hbounded hsound i j with hzero | ⟨q, hq, hlow, hhigh⟩
    · rw [hzero]
      exact ⟨by linarith [hlocal.2], by linarith [hlocal.1, hvalid.cycle _ hactive]⟩
    · have hlonger : cycleOf timing q ≤ cycleOf timing pattern :=
        not_lt.mp fun hlt => hshort ⟨hearly, q, hq, hlt⟩
      exact ⟨by linarith [hlocal.2], by linarith [hlocal.1]⟩
  · have hrange := signalStateOnset_range hvalid hsound hactive hi j
    exact ⟨by linarith [hlocal.2, hrange.1], by linarith [hlocal.1, hrange.2]⟩

include hmaster

/-- One phase at one tick: its countdown is in the cycle exactly when the condition
holds. -/
theorem phaseCountdown_range_iff {i : Int} (hi : i ∈ phazIndices)
    (hpermitted : timing.phaseTiming.permittedPhase i ≠ 0) {j jj : Int}
    (hj : onsetsOf (tr.signal.signalState.cell i) = some (j, jj)) :
    (0 ≤ (phaseCountdown timing tr (activeOnsets timing egOnset pattern tr i)
          (cycleOf timing pattern) i j jj).1 ∧
      (phaseCountdown timing tr (activeOnsets timing egOnset pattern tr i)
          (cycleOf timing pattern) i j jj).1 < cycleOf timing pattern) ↔
      TraceCounts timing egOnset pattern tr i := by
  have hcycle := hvalid.cycle _ hactive
  by_cases hgreen : ExtendedGreen tr i
  · have hindex := hgreen.1
    subst hindex
    have hyellow : j = 1 := by
      rw [hgreen.2.2.1] at hj
      exact (congrArg Prod.fst (Option.some.inj hj)).symm
    have honset := activeOnsets_extendedGreen egOnset hactive hpermitted hgreen
    have hoff := hvalid.forceOff _ hactive 1 hi
    rw [phaseCountdown, if_pos hgreen, TraceCounts, if_pos hgreen, hyellow, honset]
    constructor
    · intro h
      linarith [h.1]
    · intro h
      exact ⟨by linarith, by linarith [hmaster.1, hoff.2]⟩
  · by_cases hred : ExtendedRed tr i
    · rw [phaseCountdown, if_neg hgreen, if_pos hred, TraceCounts, if_neg hgreen, if_pos hred]
      dsimp only
      split
      · exact ⟨fun _ => by linarith, fun _ => ⟨le_rfl, by linarith⟩⟩
      · constructor
        · intro h
          linarith [h.2]
        · intro h
          exact ⟨by linarith, by linarith⟩
    · rw [phaseCountdown, if_neg hgreen, if_neg hred, TraceCounts, if_neg hgreen, if_neg hred]
      rw [timeLeft_range_iff hcycle]
      constructor
      · intro h _ l ll hl
        obtain ⟨rfl, rfl⟩ := Prod.mk.inj (Option.some.inj (hj.symm.trans hl))
        exact h
      · intro h
        by_cases hcase : (tr.priorityStatus = EARLY_GREEN ∧
            ∃ q, Activated timing q ∧ cycleOf timing pattern < cycleOf timing q) ∨
              ¬ SoundIntervals timing
        · exact h hcase j jj hj
        · rw [not_or, not_not] at hcase
          exact activeOnsets_within hvalid hbounded hactive hlocal hcase.2 hcase.1 hi j

end Phase

/-! ## The condition of a tick -/

/-- The colour of the head of phase index `i`. -/
abbrev Phase170.head (s : Phase170) (i : Int) : UChar := s.signalTrace.signal.signalState.cell i

/-- A green extension is in force: it was asked for, and phase 4 is not green yet. -/
def Phase170.Extending (s : Phase170) : Prop :=
  s.signalTrace.priorityStatus = GREEN_EXTENSION ∧ s.head 3 ≠ SIGNAL_STATE_GREEN

/-- An early green is in force: it was asked for, and phase 2 is not green yet. -/
def Phase170.GreenEarly (s : Phase170) : Prop :=
  s.signalTrace.priorityStatus = EARLY_GREEN ∧ s.head 1 ≠ SIGNAL_STATE_GREEN

instance (s : Phase170) : Decidable s.Extending := inferInstanceAs (Decidable (_ ∧ _))

instance (s : Phase170) : Decidable s.GreenEarly := inferInstanceAs (Decidable (_ ∧ _))

/-- The controller's clock of this reading at a moment after its status was taken. -/
def Phase170.clockAt (timing : E170Timing) (s : Phase170) (reading : UChar) (now : ℚ) : ℚ :=
  cycleRounding (reading.toNat + (now - s.signalTrace.signal.tp)) (cycleOf timing s.inEffect)

/-- The local clock at a tick. -/
def Phase170.localClock (timing : E170Timing) (s : Phase170) (now : ℚ) : ℚ :=
  s.clockAt timing s.signalTrace.signal.localCycleClock now

/-- The master clock at a tick. -/
def Phase170.masterClock (timing : E170Timing) (s : Phase170) (now : ℚ) : ℚ :=
  s.clockAt timing s.signalTrace.signal.masterCycleClock now

/-- The onsets of a phase: those noted with the request for an early green in force, or else
the plan's. -/
def Phase170.onset (timing : E170Timing) (s : Phase170) (i : Int) : Int → ℚ :=
  if s.GreenEarly then s.signalEGOnset i else signalStateOnset timing s.inEffect i

/-- The condition of one phase at a tick.  In the first ten seconds of a green extension
phase 2's force-off is not behind the master clock, and phase 4's green is less than a cycle
ahead of it.  Elsewhere, when early green is in force and some plan has a longer cycle than
the plan in effect, or when the intervals are not sound, the onset counted to is within one
cycle of the local clock. -/
def CountsWithin (timing : E170Timing) (s : Phase170) (now : ℚ) (i : Int) : Prop :=
  if i = 1 ∧ s.Extending ∧ s.head 1 = SIGNAL_STATE_GREEN ∧ s.masterClock timing now ≤ 10 then
    s.masterClock timing now ≤ (timing.planTiming s.inEffect).forceOff 1
  else if i = 3 ∧ s.Extending ∧ s.head 3 = SIGNAL_STATE_RED ∧ s.head 1 = SIGNAL_STATE_GREEN ∧
      s.masterClock timing now ≤ 10 then
    10 + timing.phaseTiming.yellowIntv 1 + timing.phaseTiming.allredIntv 1 <
      s.masterClock timing now + cycleOf timing s.inEffect
  else
    (s.GreenEarly ∧ ∃ q, Activated timing q ∧ cycleOf timing s.inEffect < cycleOf timing q) ∨
      ¬ SoundIntervals timing →
    ∀ j jj, onsetsOf (s.head i) = some (j, jj) →
      s.localClock timing now - cycleOf timing s.inEffect ≤ s.onset timing i j ∧
        s.onset timing i j < s.localClock timing now + cycleOf timing s.inEffect

/-- Clearing the priority leaves it in force where no phase that ends it is green. -/
theorem clearPriority_status (tr : SignalTrace) :
    ((clearPriority tr).priorityStatus = GREEN_EXTENSION ↔
        tr.priorityStatus = GREEN_EXTENSION ∧
          tr.signal.signalState.cell 3 ≠ SIGNAL_STATE_GREEN) ∧
      ((clearPriority tr).priorityStatus = EARLY_GREEN ↔
        tr.priorityStatus = EARLY_GREEN ∧
          tr.signal.signalState.cell 1 ≠ SIGNAL_STATE_GREEN) := by
  have hextension : (0 : UChar) ≠ GREEN_EXTENSION := by decide
  have hearly : (0 : UChar) ≠ EARLY_GREEN := by decide
  have hapart : (GREEN_EXTENSION : UChar) ≠ EARLY_GREEN := by decide
  unfold clearPriority
  split
  · rename_i hended
    refine ⟨iff_of_false hextension fun h => h.2 hended.2, iff_of_false hearly fun h => ?_⟩
    exact hapart (hended.1.symm.trans h.1)
  · rename_i hextends
    split
    · rename_i hended
      refine ⟨iff_of_false hextension fun h => ?_, iff_of_false hearly fun h => h.2 hended.2⟩
      exact hapart (h.1.symm.trans hended.1)
    · rename_i hcomes
      exact ⟨⟨fun h => ⟨h, fun hgreen => hextends ⟨h, hgreen⟩⟩, fun h => h.1⟩,
        ⟨fun h => ⟨h, fun hgreen => hcomes ⟨h, hgreen⟩⟩, fun h => h.1⟩⟩

section Tick

variable (timing : E170Timing) (s : Phase170) (now : ℚ)

/-- The clocks that the loop over the phases finds. -/
theorem tickedTrace_clock :
    (tickedTrace timing s now).activeLocalCycleClock = s.localClock timing now ∧
      (tickedTrace timing s now).activeMasterCycleClock = s.masterClock timing now := by
  unfold tickedTrace clearPriority
  split
  · exact ⟨rfl, rfl⟩
  · split
    · exact ⟨rfl, rfl⟩
    · exact ⟨rfl, rfl⟩

/-- The priority that it finds. -/
theorem tickedTrace_priority :
    ((tickedTrace timing s now).priorityStatus = GREEN_EXTENSION ↔ s.Extending) ∧
      ((tickedTrace timing s now).priorityStatus = EARLY_GREEN ↔ s.GreenEarly) :=
  clearPriority_status _

/-- Phase 2 as it finds it. -/
theorem tickedTrace_extendedGreen (i : Int) :
    ExtendedGreen (tickedTrace timing s now) i ↔
      i = 1 ∧ s.Extending ∧ s.head 1 = SIGNAL_STATE_GREEN ∧ s.masterClock timing now ≤ 10 := by
  unfold ExtendedGreen
  refine and_congr_right fun hi => ?_
  rw [hi, (tickedTrace_priority timing s now).1, tickedTrace_signal,
    (tickedTrace_clock timing s now).2]

/-- Phase 4 as it finds it. -/
theorem tickedTrace_extendedRed (i : Int) :
    ExtendedRed (tickedTrace timing s now) i ↔
      i = 3 ∧ s.Extending ∧ s.head 3 = SIGNAL_STATE_RED ∧ s.head 1 = SIGNAL_STATE_GREEN ∧
        s.masterClock timing now ≤ 10 := by
  unfold ExtendedRed
  refine and_congr_right fun hi => ?_
  rw [hi, (tickedTrace_priority timing s now).1, tickedTrace_signal,
    (tickedTrace_clock timing s now).2]

/-- The onsets that it takes. -/
theorem tickedTrace_onset (i : Int) :
    activeOnsets timing s.signalEGOnset s.inEffect (tickedTrace timing s now) i =
      s.onset timing i := by
  unfold activeOnsets Phase170.onset
  simp only [(tickedTrace_priority timing s now).2]

/-- The condition of a tick is the one on the tracer that the loop finds. -/
theorem traceCounts_iff (i : Int) :
    TraceCounts timing s.signalEGOnset s.inEffect (tickedTrace timing s now) i ↔
      CountsWithin timing s now i := by
  unfold TraceCounts CountsWithin
  simp only [tickedTrace_extendedGreen, tickedTrace_extendedRed, tickedTrace_onset,
    (tickedTrace_clock timing s now).1, (tickedTrace_clock timing s now).2,
    (tickedTrace_priority timing s now).2, tickedTrace_signal]

end Tick

/-- Without a bus to serve, sound intervals meet the condition of every phase. -/
theorem countsWithin_of_sound {timing : E170Timing} (hsound : SoundIntervals timing)
    {s : Phase170} (hextension : s.signalTrace.priorityStatus ≠ GREEN_EXTENSION)
    (hearly : s.signalTrace.priorityStatus ≠ EARLY_GREEN) (now : ℚ) (i : Int) :
    CountsWithin timing s now i := by
  rw [CountsWithin, if_neg fun h => hextension h.2.1.1, if_neg fun h => hextension h.2.1.1]
  rintro (⟨hcase, -⟩ | hcase)
  · exact absurd hcase.1 hearly
  · exact absurd hsound hcase

/-! ## Runs -/

/-- The triggers a run may bring.  A status message has ring phases up to 8 and runs free
or follows a plan in use, with its clocks below the cycle; a request is for early green or
green extension under a plan in effect, an early green's force-off being in the cycle; and
time does not run back behind the status last taken. -/
def Allowed (timing : E170Timing) (_pre : List Trigger) (s : Phase170) : Trigger → Prop
  | .timer now => s.signalTrace.signal.tp ≤ now
  | .status input _ =>
      input.ringAPhase.toNat ≤ 8 ∧ input.ringBPhase.toNat ≤ 8 ∧
        (input.pattern.toInt = 0 ∨
          Activated timing input.pattern.toInt ∧
            (input.localCycleClock.toNat : ℚ) < cycleOf timing input.pattern.toInt ∧
            (input.masterCycleClock.toNat : ℚ) < cycleOf timing input.pattern.toInt)
  | .request input _ =>
      Activated timing s.inEffect ∧
        (input.requestedType = GREEN_EXTENSION ∨
          input.requestedType = EARLY_GREEN ∧ 0 ≤ input.desiredForceOff ∧
            (input.desiredForceOff : ℚ) < cycleOf timing s.inEffect)
  | .other => True

/-- A tick computes a countdown in the cycle for every permitted phase. -/
def CountdownInCycle (timing : E170Timing) (_pre : List Trigger) (s : Phase170) (e : Trigger) :
    Prop :=
  ∀ tr ∈ ((phase170Loop timing).step s e).2, ∀ i ∈ phazIndices,
    timing.phaseTiming.permittedPhase i ≠ 0 →
      0 ≤ tr.time2next i ∧ tr.time2next i < cycleOf timing s.inEffect

/-- A tick meets the condition of every permitted phase. -/
def CountsDown (timing : E170Timing) (_pre : List Trigger) (s : Phase170) (e : Trigger) : Prop :=
  ∀ now, e = .timer now → Counts s now → ∀ i ∈ phazIndices,
    timing.phaseTiming.permittedPhase i ≠ 0 → CountsWithin timing s now i

/-- What a run keeps: the controller runs free, or under a plan in use with its clocks
below the cycle and every head green, yellow or red; and the early-green onsets are
bounded. -/
structure CountInv (timing : E170Timing) (s : Phase170) : Prop where
  plan : s.inEffect = 0 ∨
    Activated timing s.inEffect ∧
      (s.signalTrace.signal.localCycleClock.toNat : ℚ) < cycleOf timing s.inEffect ∧
      (s.signalTrace.signal.masterCycleClock.toNat : ℚ) < cycleOf timing s.inEffect
  heads : s.inEffect ≠ 0 → ∀ i ∈ phazIndices,
    ∃ js, onsetsOf (s.signalTrace.signal.signalState.cell i) = some js
  bounded : SoundIntervals timing → BoundedOnsets timing s.signalEGOnset

theorem countInv_start (timing : E170Timing) : CountInv timing startPhase170 where
  plan := Or.inl rfl
  heads := fun h => absurd rfl h
  bounded := fun _ _ _ => Or.inl rfl

/-- A step that leaves the tracer's copy of the controller and the early-green onsets alone
keeps the invariant. -/
private theorem CountInv.of_same {timing : E170Timing} {s t : Phase170} (h : CountInv timing s)
    (hsignal : t.signalTrace.signal = s.signalTrace.signal)
    (hbounded : SoundIntervals timing → BoundedOnsets timing t.signalEGOnset) :
    CountInv timing t where
  plan := by
    rw [Phase170.inEffect, hsignal]
    exact h.plan
  heads := by
    rw [Phase170.inEffect, hsignal]
    exact h.heads
  bounded := hbounded

/-- The head colours of a message are green, yellow or red. -/
theorem onsetsOf_headColor (input : SignalStatus) (i : Int) :
    ∃ js, onsetsOf (headColor input i) = some js := by
  have hcolor : ∀ intv, ∃ js, onsetsOf (updateHeadColor intv) = some js := by
    intro intv
    rw [updateHeadColor]
    split
    · exact ⟨(1, 0), rfl⟩
    · split
      · exact ⟨(2, 1), rfl⟩
      · exact ⟨(0, 2), rfl⟩
  rw [headColor]
  split
  · exact hcolor _
  · split
    · exact hcolor _
    · exact ⟨(0, 2), rfl⟩

theorem timerTick_signalEGOnset (timing : E170Timing) (s : Phase170) (now : ℚ) :
    (timerTick timing s now).1.signalEGOnset = s.signalEGOnset := by
  simp only [timerTick]
  split
  · rfl
  · split
    · rfl
    · split
      · rfl
      · rfl

/-- An allowed trigger keeps the invariant. -/
theorem countInv_step {timing : E170Timing} (hvalid : ValidTiming timing) (pre : List Trigger)
    (s : Phase170) (e : Trigger) (h : CountInv timing s) (hallowed : Allowed timing pre s e) :
    CountInv timing ((phase170Loop timing).step s e).1 := by
  cases e with
  | timer now =>
      refine h.of_same (timerTick_signal timing s now) ?_
      change SoundIntervals timing → BoundedOnsets timing (timerTick timing s now).1.signalEGOnset
      rw [timerTick_signalEGOnset]
      exact h.bounded
  | other => exact h
  | request input now =>
      refine h.of_same (requestTrigger_signal timing s input now) ?_
      intro hsound
      change BoundedOnsets timing (requestTrigger timing s input now).signalEGOnset
      rcases hallowed with ⟨hactive, hge | ⟨heg, hlow, hhigh⟩⟩
      · have hnot : ¬ input.requestedType = EARLY_GREEN := by
          rw [hge]
          decide
        simp only [requestTrigger, if_neg hnot, if_pos hge]
        exact h.bounded hsound
      · simp only [requestTrigger, if_pos heg]
        intro i c
        exact Or.inr ⟨s.inEffect, hactive,
          earlyGreenOnset_range hvalid hsound hactive hlow hhigh i c⟩
  | status input now =>
      change CountInv timing (statusTrigger s input now)
      obtain ⟨_, _, hplan⟩ := hallowed
      rw [statusTrigger]
      split
      · refine ⟨hplan, fun _ i hi => ?_, h.bounded⟩
        have hcell := (updateSignalState_tracks s.signalTrace.signal input now).signalState i hi
        change ∃ js, onsetsOf ((updateSignalState s.signalTrace.signal input).signalState.cell i)
          = some js
        rw [show (updateSignalState s.signalTrace.signal input).signalState.cell i =
          headColor input i from hcell]
        exact onsetsOf_headColor input i
      · exact ⟨h.plan, h.heads, h.bounded⟩

/-- The clocks of a tick that counts down are in the cycle. -/
theorem tickedTrace_clocks {timing : E170Timing} (hvalid : ValidTiming timing) {s : Phase170}
    {now : ℚ} (hactive : Activated timing s.inEffect) (hclock : s.signalTrace.signal.tp ≤ now)
    (hrecent : now - s.signalTrace.signal.tp ≤ 5)
    (hlocal : (s.signalTrace.signal.localCycleClock.toNat : ℚ) < cycleOf timing s.inEffect)
    (hmaster : (s.signalTrace.signal.masterCycleClock.toNat : ℚ) < cycleOf timing s.inEffect) :
    (0 ≤ (tickedTrace timing s now).activeLocalCycleClock ∧
        (tickedTrace timing s now).activeLocalCycleClock < cycleOf timing s.inEffect) ∧
      0 ≤ (tickedTrace timing s now).activeMasterCycleClock ∧
        (tickedTrace timing s now).activeMasterCycleClock < cycleOf timing s.inEffect := by
  have hcycle := hvalid.cycle _ hactive
  have hpos : ∀ n : Nat, (0 : ℚ) ≤ n := fun n => Nat.cast_nonneg n
  rw [(tickedTrace_clock timing s now).1, (tickedTrace_clock timing s now).2]
  exact ⟨cycleRounding_range (by linarith [hpos s.signalTrace.signal.localCycleClock.toNat])
      (by linarith),
    cycleRounding_range (by linarith [hpos s.signalTrace.signal.masterCycleClock.toNat])
      (by linarith)⟩

/-- One phase at a tick of a run. -/
private theorem countedPhase_range_iff {timing : E170Timing} (hvalid : ValidTiming timing)
    {s : Phase170} (h : CountInv timing s) {now : ℚ} (hclock : s.signalTrace.signal.tp ≤ now)
    (hcounts : Counts s now) {i : Int} (hi : i ∈ phazIndices)
    (hpermitted : timing.phaseTiming.permittedPhase i ≠ 0) :
    (0 ≤ (countdownPhases timing s.signalEGOnset s.inEffect (cycleOf timing s.inEffect)
          (tickedTrace timing s now) phazIndices).time2next i ∧
        (countdownPhases timing s.signalEGOnset s.inEffect (cycleOf timing s.inEffect)
          (tickedTrace timing s now) phazIndices).time2next i < cycleOf timing s.inEffect) ↔
      CountsWithin timing s now i := by
  rcases h.plan with hfree | ⟨hactive, hlocal, hmaster⟩
  · exact absurd hfree hcounts.coordinated
  · have hclocks := tickedTrace_clocks hvalid hactive hclock hcounts.recent hlocal hmaster
    have hheads : ∀ i ∈ phazIndices,
        ∃ js, onsetsOf ((tickedTrace timing s now).signal.signalState.cell i) = some js := by
      rw [tickedTrace_signal]
      exact h.heads hcounts.coordinated
    obtain ⟨⟨j, jj⟩, hj⟩ := hheads i hi
    rw [countdownPhases_time2next timing _ _ _ _ hheads hi hpermitted hj, ← traceCounts_iff]
    exact phaseCountdown_range_iff hvalid h.bounded hactive hclocks.1 hclocks.2 hi hpermitted hj

/-- One step of a run. -/
private theorem countdownInCycle_iff {timing : E170Timing} (hvalid : ValidTiming timing)
    (pre : List Trigger) (s : Phase170) (e : Trigger) (h : CountInv timing s)
    (hallowed : Allowed timing pre s e) :
    CountdownInCycle timing pre s e ↔ CountsDown timing pre s e := by
  cases e with
  | status input now =>
      exact ⟨fun _ _ htimer => Trigger.noConfusion htimer,
        fun _ _ hmem => absurd hmem List.not_mem_nil⟩
  | request input now =>
      exact ⟨fun _ _ htimer => Trigger.noConfusion htimer,
        fun _ _ hmem => absurd hmem List.not_mem_nil⟩
  | other =>
      exact ⟨fun _ _ htimer => Trigger.noConfusion htimer,
        fun _ _ hmem => absurd hmem List.not_mem_nil⟩
  | timer now =>
      constructor
      · intro hrange now' htimer hcounts i hi hpermitted
        obtain rfl := Trigger.timer.inj htimer
        exact (countedPhase_range_iff hvalid h hallowed hcounts hi hpermitted).mp
          (hrange _ ((mem_timerTick timing s now _).mpr ⟨hcounts, rfl⟩) i hi hpermitted)
      · intro hwithin tr htr i hi hpermitted
        obtain ⟨hcounts, rfl⟩ := (mem_timerTick timing s now tr).mp htr
        exact (countedPhase_range_iff hvalid h hallowed hcounts hi hpermitted).mpr
          (hwithin now rfl hcounts i hi hpermitted)

/-- **The countdown stays in the cycle**, along any run of allowed triggers, exactly when
every tick meets the condition of every permitted phase. -/
theorem countdownInCycle_along_iff (timing : E170Timing) (hvalid : ValidTiming timing)
    (es : List Trigger) (hes : (phase170Loop timing).Along startPhase170 (Allowed timing) es) :
    (phase170Loop timing).Along startPhase170 (CountdownInCycle timing) es ↔
      (phase170Loop timing).Along startPhase170 (CountsDown timing) es :=
  (phase170Loop timing).along_congr_of_along (countInv_start timing) (countInv_step hvalid)
    (countdownInCycle_iff hvalid) es hes

/-- The shipped configuration has what the countdown asks. -/
theorem validTiming_rfsIntersection : ValidTiming rfsIntersection := by
  have honly : ∀ p, Activated rfsIntersection p → p = 1 := by
    have hall : ∀ p ∈ planIndices, Activated rfsIntersection p → p = 1 := by decide
    exact fun p hp => hall p hp.1 hp
  refine ⟨fun p hp => ?_, fun p hp => ?_, fun p hp => ?_⟩
  · rw [honly p hp]
    decide
  · rw [honly p hp]
    decide +kernel
  · rw [honly p hp]
    decide +kernel

/-- Phase 2 is green at master clock 5 under plan 1. -/
private def greenStatus : SignalStatus :=
  ⟨2, 0, 0, 0, 60, 5, fun _ => 0, 1, ⟨0, 0, 0, 0⟩⟩

/-- A bus asks for a green extension. -/
private def extensionRequest : SignalPriorityRequest := ⟨7, GREEN_EXTENSION, 2, 10, ⟨0, 0, 0, 0⟩⟩

private theorem allowed_extension :
    (phase170Loop rfsIntersection).Along startPhase170 (Allowed rfsIntersection)
      [.status greenStatus 0, .request extensionRequest 0, .timer 0] := by
  rw [Machine.along_cons_iff, Machine.along_cons_iff, Machine.along_cons_iff]
  refine ⟨?_, ?_, ?_, Machine.along_nil _ _ _⟩
  · exact ⟨by decide, by decide, Or.inr ⟨by decide, by decide +kernel, by decide +kernel⟩⟩
  · exact ⟨by decide, Or.inl rfl⟩
  · exact le_rfl

/-- During a green extension of the shipped configuration phase 2 counts down to a
force-off behind the master clock: five seconds after it the time left is -5. -/
theorem countdownInCycle_not_always :
    ¬ ∀ timing, ValidTiming timing → ∀ es,
      (phase170Loop timing).Along startPhase170 (Allowed timing) es →
        (phase170Loop timing).Along startPhase170 (CountdownInCycle timing) es := by
  intro h
  have hrange := h rfsIntersection validTiming_rfsIntersection _ allowed_extension
    [.status greenStatus 0, .request extensionRequest 0] (.timer 0) [] rfl
  have hbehind : ∃ tr ∈ ((phase170Loop rfsIntersection).step
      ((phase170Loop rfsIntersection).run startPhase170
        [.status greenStatus 0, .request extensionRequest 0]) (.timer 0)).2,
      tr.time2next 1 < 0 := by
    decide +kernel
  obtain ⟨tr, htr, hneg⟩ := hbehind
  exact absurd (hrange tr htr 1 (by decide) (by decide)).1 (not_le.mpr hneg)

/-- The shipped configuration's intervals are sound. -/
theorem soundIntervals_rfsIntersection : SoundIntervals rfsIntersection where
  yellow := by decide +kernel
  allred := by decide +kernel
  before := by decide +kernel

/-- The theorem at the shipped configuration: without the request, where the countdown stays
in the cycle, and with it. -/
theorem countdownInCycle_rfsIntersection :
    (phase170Loop rfsIntersection).Along startPhase170 (CountdownInCycle rfsIntersection)
        [.status greenStatus 0, .timer 0] ∧
      ((phase170Loop rfsIntersection).Along startPhase170 (CountdownInCycle rfsIntersection)
          [.status greenStatus 0, .request extensionRequest 0, .timer 0] ↔
        (phase170Loop rfsIntersection).Along startPhase170 (CountsDown rfsIntersection)
          [.status greenStatus 0, .request extensionRequest 0, .timer 0]) := by
  refine ⟨(countdownInCycle_along_iff rfsIntersection validTiming_rfsIntersection _ ?_).mpr ?_,
    countdownInCycle_along_iff rfsIntersection validTiming_rfsIntersection _ allowed_extension⟩
  · rw [Machine.along_cons_iff, Machine.along_cons_iff]
    refine ⟨?_, le_rfl, Machine.along_nil _ _ _⟩
    exact ⟨by decide, by decide, Or.inr ⟨by decide, by decide +kernel, by decide +kernel⟩⟩
  · rw [Machine.along_cons_iff, Machine.along_cons_iff]
    refine ⟨fun now htimer => absurd htimer (by simp), ?_, Machine.along_nil _ _ _⟩
    intro now htimer _ i _ _
    obtain rfl := Trigger.timer.inj htimer
    exact countsWithin_of_sound soundIntervals_rfsIntersection (by decide +kernel)
      (by decide +kernel) _ i

end RfsAtsc
