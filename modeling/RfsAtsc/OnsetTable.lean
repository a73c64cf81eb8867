import RfsAtsc.Countdown

/-!
# The table of onsets: `get_signal_change_onset`

For every plan in use and every permitted phase the table holds the onsets of green,
yellow and red within the plan's cycle.  Plan 0 is running free and has no onsets, and a
sum is brought back by one cycle at most, which is enough as long as no interval is
negative.
-/

namespace RfsAtsc

/-- The indices of all the plans. -/
def allPlanIndices : List Int := 0 :: planIndices

/-- The index of the phase before phase index `j`. -/
def phaseBefore (timing : E170Timing) (j : Int) : Int :=
  (timing.phaseTiming.phaseBf j).toNat - (1 : Int)

/-- The entries of the table that the function is to compute, for these plans. -/
def HasOnsets (plans : List Int) (timing : E170Timing) (i j : Int) : Prop :=
  (i ∈ plans ∧ (timing.planTiming i).planActivated ≠ 0) ∧
    j ∈ phazIndices ∧ timing.phaseTiming.permittedPhase j ≠ 0

/-- The force-offs lie in the cycle, no clearance is as long as the cycle, and every
permitted phase has a phase before it. -/
structure TimingFits (plans : List Int) (timing : E170Timing) : Prop where
  forceOff : ∀ i ∈ plans, (timing.planTiming i).planActivated ≠ 0 → ∀ j ∈ phazIndices,
    0 ≤ (timing.planTiming i).forceOff j ∧ (timing.planTiming i).forceOff j < cycleOf timing i
  clearance : ∀ i ∈ plans, (timing.planTiming i).planActivated ≠ 0 → ∀ j ∈ phazIndices,
    timing.phaseTiming.yellowIntv j + timing.phaseTiming.allredIntv j < cycleOf timing i
  before : ∀ j ∈ phazIndices, timing.phaseTiming.permittedPhase j ≠ 0 →
    phaseBefore timing j ∈ phazIndices

/-- What the table holds afterwards, where it held `old`: the onsets lie in the cycle, yellow
starts at the force-off, red a yellow interval later and green a clearance after the force-off
of the phase before, up to whole cycles; and nothing else has changed. -/
structure OnsetsRight (plans : List Int) (timing : E170Timing) (old onsets : Onsets) : Prop where
  range : ∀ i j, HasOnsets plans timing i j → ∀ c : Int, 0 ≤ c ∧ c ≤ 2 →
    0 ≤ onsets i j c ∧ onsets i j c < cycleOf timing i
  yellow : ∀ i j, HasOnsets plans timing i j → onsets i j 1 = (timing.planTiming i).forceOff j
  red : ∀ i j, HasOnsets plans timing i j → ∃ n : Int,
    onsets i j 2 = onsets i j 1 + timing.phaseTiming.yellowIntv j + n * cycleOf timing i
  green : ∀ i j, HasOnsets plans timing i j → ∃ n : Int,
    onsets i j 0 = (timing.planTiming i).forceOff (phaseBefore timing j) +
      timing.phaseTiming.yellowIntv (phaseBefore timing j) +
      timing.phaseTiming.allredIntv (phaseBefore timing j) + n * cycleOf timing i
  frame : ∀ i j, ¬HasOnsets plans timing i j → ∀ c, onsets i j c = old i j c

/-- Rounding takes off a whole number of cycles. -/
theorem cycleRounding_congr (f cycleLen : ℚ) :
    ∃ n : Int, cycleRounding f cycleLen = f + n * cycleLen := by
  rw [cycleRounding]
  split
  · refine ⟨-1, ?_⟩
    rw [Int.cast_neg, Int.cast_one]
    ring
  · exact ⟨0, by simp⟩

theorem greenOnset_eq (timing : E170Timing) (i j : Int) :
    greenOnset timing i j = cycleRounding ((timing.planTiming i).forceOff (phaseBefore timing j) +
      timing.phaseTiming.yellowIntv (phaseBefore timing j) +
      timing.phaseTiming.allredIntv (phaseBefore timing j)) (cycleOf timing i) := rfl

/-- The entries that the function computes. -/
private theorem onsets_of_hasOnsets {timing : E170Timing} {i j : Int}
    (h : HasOnsets planIndices timing i j) (old : Onsets) :
    getSignalChangeOnset timing old i j 0 = greenOnset timing i j ∧
      getSignalChangeOnset timing old i j 1 = (timing.planTiming i).forceOff j ∧
      getSignalChangeOnset timing old i j 2 = redOnset timing i j := by
  have hentry : ∀ c, getSignalChangeOnset timing old i j c =
      onsetEntry timing i j c (old i j c) := by
    intro c
    rw [getSignalChangeOnset_apply]
    exact if_pos h
  refine ⟨?_, ?_, ?_⟩
  · rw [hentry, onsetEntry, if_pos rfl]
  · rw [hentry, onsetEntry, if_neg (by decide), if_pos rfl]
  · rw [hentry, onsetEntry, if_neg (by decide), if_neg (by decide), if_pos rfl]

/-- **The table of onsets is right for the plans 1 to 4** when no interval is negative. -/
theorem onsets_right (timing : E170Timing) (old : Onsets)
    (hfits : TimingFits planIndices timing)
    (hintervals : ∀ j ∈ phazIndices,
      0 ≤ timing.phaseTiming.yellowIntv j ∧ 0 ≤ timing.phaseTiming.allredIntv j) :
    OnsetsRight planIndices timing old (getSignalChangeOnset timing old) where
  range := by
    intro i j h c hc
    obtain ⟨hgreen, hyellow, hred⟩ := onsets_of_hasOnsets h old
    obtain ⟨⟨hi, hactive⟩, hj, hpermitted⟩ := h
    have hbefore := hfits.before j hj hpermitted
    have hoff := hfits.forceOff i hi hactive j hj
    have hclear := hfits.clearance i hi hactive j hj
    have hint := hintervals j hj
    have hoffBefore := hfits.forceOff i hi hactive _ hbefore
    have hclearBefore := hfits.clearance i hi hactive _ hbefore
    have hintBefore := hintervals _ hbefore
    have hkind : c = 0 ∨ c = 1 ∨ c = 2 := by omega
    rcases hkind with rfl | rfl | rfl
    · rw [hgreen, greenOnset_eq]
      exact cycleRounding_range (by linarith [hoffBefore.1, hintBefore.1, hintBefore.2])
        (by linarith [hoffBefore.2, hclearBefore])
    · rw [hyellow]
      exact hoff
    · rw [hred]
      exact cycleRounding_range (by linarith [hoff.1, hint.1]) (by linarith [hoff.2, hint.2])
  yellow := fun i j h => (onsets_of_hasOnsets h old).2.1
  red := by
    intro i j h
    obtain ⟨-, hyellow, hred⟩ := onsets_of_hasOnsets h old
    rw [hyellow, hred]
    exact cycleRounding_congr _ _
  green := by
    intro i j h
    rw [(onsets_of_hasOnsets h old).1]
    exact cycleRounding_congr _ _
  frame := by
    intro i j h c
    rw [getSignalChangeOnset_apply]
    exact if_neg h

/-- The shipped configuration, and the same with plan 0 in use or with a negative yellow. -/
private def freeRunning : E170Timing where
  phaseTiming := rfsIntersection.phaseTiming
  planTiming := fun i => if i = 0 then ⟨1, 60, ofInitializer []⟩ else rfsIntersection.planTiming i

private def negativeYellow : E170Timing where
  phaseTiming := { rfsIntersection.phaseTiming with yellowIntv := ofInitializer [0, -1, 0, 3] }
  planTiming := rfsIntersection.planTiming

private theorem timingFits_freeRunning : TimingFits allPlanIndices freeRunning where
  forceOff := by decide +kernel
  clearance := by decide +kernel
  before := by decide +kernel

private theorem timingFits_negativeYellow : TimingFits planIndices negativeYellow where
  forceOff := by decide +kernel
  clearance := by decide +kernel
  before := by decide +kernel

/-- Plan 0 in use has no onsets, and a negative yellow puts the start of red before the
cycle. -/
theorem onsets_not_always_right :
    (¬ ∀ timing old, TimingFits allPlanIndices timing →
      OnsetsRight allPlanIndices timing old (getSignalChangeOnset timing old)) ∧
    ¬ ∀ timing old, TimingFits planIndices timing →
      OnsetsRight planIndices timing old (getSignalChangeOnset timing old) := by
  constructor
  · intro h
    have hplan : HasOnsets allPlanIndices freeRunning 0 1 := by
      refine ⟨⟨?_, ?_⟩, ?_, ?_⟩ <;> decide
    obtain ⟨n, hn⟩ := (h freeRunning (fun _ _ _ => 0) timingFits_freeRunning).red 0 1 hplan
    have hsame : ∀ c, getSignalChangeOnset freeRunning (fun _ _ _ => 0) 0 1 c = 0 := by
      intro c
      rw [getSignalChangeOnset_apply]
      apply if_neg
      intro hactive
      exact absurd hactive.1.1 (by decide)
    have hyellow : freeRunning.phaseTiming.yellowIntv 1 = 3 := rfl
    have hcycle : cycleOf freeRunning 0 = 60 := rfl
    rw [hsame, hsame, hyellow, hcycle] at hn
    have hint : (0 : Int) = 0 + 3 + n * 60 := by exact_mod_cast hn
    omega
  · intro h
    have hplan : HasOnsets planIndices negativeYellow 1 1 := by
      refine ⟨⟨?_, ?_⟩, ?_, ?_⟩ <;> decide
    have hred := (h negativeYellow (fun _ _ _ => 0) timingFits_negativeYellow).range 1 1 hplan 2
      (by decide)
    have hneg : getSignalChangeOnset negativeYellow (fun _ _ _ => 0) 1 1 2 < 0 := by
      decide +kernel
    exact absurd hred.1 (not_le.mpr hneg)

/-- The shipped configuration. -/
theorem onsets_right_site :
    OnsetsRight planIndices rfsIntersection (fun _ _ _ => 0)
      (getSignalChangeOnset rfsIntersection fun _ _ _ => 0) := by
  apply onsets_right
  · exact
      { forceOff := by decide +kernel
        clearance := by decide +kernel
        before := by decide +kernel }
  · decide +kernel

end RfsAtsc
