import Mathlib.Tactic.NormNum
import Mathlib.Tactic.Ring
import RfsAtsc.UrmsPolls

/-!
# The flag `computation_finished` of the ramp meter's status

The main loop of `urms.c` adds up the volumes of the metered lanes in one loop over them,
and in the same loop compares the sum so far with the one it saved, sets or clears the flag,
and saves the sum and the time.  So it saves a partial sum at each lane, and what is
published is what the turn of the fourth lane leaves: whether the fourth lane's own volumes
add up to something.

The times are taken exactly.  `laneTurn` is the turn of the polls with the clock left open
(`computation_lane_eq`).
-/

namespace RfsAtsc.UrmsComputation

open EventMachine
open UrmsPolls (meteredLaneStatAt mainlineStatAt queueStatAt)

/-! ## The loop over the lanes -/

/-- The volumes of one lane: demand, passage, leading, trailing and first queue. -/
def laneVolumes (response : List Byte) (i : Nat) : Int :=
  (UrmsPolls.byteAt response (meteredLaneStatAt i)).toInt +
    (UrmsPolls.byteAt response (meteredLaneStatAt i + 2)).toInt +
    (UrmsPolls.byteAt response (mainlineStatAt i + 1)).toInt +
    (UrmsPolls.byteAt response (mainlineStatAt i + 5)).toInt +
    (UrmsPolls.byteAt response (queueStatAt i 0)).toInt

/-- The locals of the loop over the metered lanes, with a clock of any kind. -/
structure Clocked (Time : Type) where
  compFinishedTemp : Int
  compFinishedSav : Int
  timeSav : Time
  computationFinished : Byte

variable {Time : Type}

/-- One metered lane; `timedOut` is the test of the thirty seconds. -/
def laneTurn (timedOut : Time → Time → Bool) (response : List Byte) (currTime : Time)
    (c : Clocked Time) (i : Nat) : Clocked Time :=
  let compFinishedTemp := c.compFinishedTemp + laneVolumes response i
  if compFinishedTemp ≠ c.compFinishedSav ∨ timedOut currTime c.timeSav then
    { compFinishedTemp := compFinishedTemp
      compFinishedSav :=
        if compFinishedTemp ≠ c.compFinishedSav then compFinishedTemp else c.compFinishedSav
      timeSav := currTime
      computationFinished := 1 }
  else { c with compFinishedTemp := compFinishedTemp, computationFinished := 0 }

/-- The locals of the polls, with their clock. -/
def clockedOf (c : UrmsPolls.Computation) : Clocked Float :=
  ⟨c.compFinishedTemp, c.compFinishedSav, c.timeSav, c.computationFinished⟩

/-- The turn of the polls is this one with their clock. -/
theorem computation_lane_eq (response : List Byte) (currTime : Float) (c : UrmsPolls.Computation)
    (i : Nat) :
    clockedOf (c.lane response currTime i) =
      laneTurn (fun now saved => decide (now + 0.025 - saved ≥ 30.0)) response currTime
        (clockedOf c) i := by
  let temp := c.compFinishedTemp + laneVolumes response i
  by_cases h : temp ≠ c.compFinishedSav ∨ currTime + 0.025 - c.timeSav ≥ 30.0
  · have hclock : temp ≠ (clockedOf c).compFinishedSav ∨
        decide (currTime + 0.025 - c.timeSav ≥ 30.0) = true := h.imp_right decide_eq_true
    exact (congrArg clockedOf (if_pos h)).trans (if_pos hclock).symm
  · have hclock : ¬(temp ≠ (clockedOf c).compFinishedSav ∨
        decide (currTime + 0.025 - c.timeSav ≥ 30.0) = true) :=
      fun hor => h (hor.imp_right of_decide_eq_true)
    exact (congrArg clockedOf (if_neg h)).trans (if_neg hclock).symm

/-- The loop over the four lanes. -/
def lanesLoop (timedOut : Time → Time → Bool) (response : List Byte) (currTime : Time)
    (c : Clocked Time) : Clocked Time :=
  (List.range UrmsTransfer.MAX_METERED_LANES).foldl (laneTurn timedOut response currTime) c

/-! ## The main loop -/

/-- A successful poll: the response, and the time on the clock. -/
structure StatusPoll where
  response : List Byte
  currTime : ℚ

/-- What the main loop keeps between two polls. -/
structure FinishedState where
  compFinishedSav : Int
  timeSav : ℚ

/-- The main loop before its first poll. -/
def startFinished : FinishedState := ⟨0, 0⟩

/-- `(curr_time + 0.025 - time_sav) >= 30.0`. -/
def thirtySeconds (now saved : ℚ) : Bool := now + 25 / 1000 - saved ≥ 30

/-- A poll, `none` where it fails: the state afterwards and the flag published. -/
def finishedStep (s : FinishedState) : Option StatusPoll → FinishedState × List Byte
  | none => (s, [])
  | some p =>
      let c := lanesLoop thirtySeconds p.response p.currTime
        { compFinishedTemp := 0
          compFinishedSav := s.compFinishedSav
          timeSav := s.timeSav
          computationFinished := 0 }
      (⟨c.compFinishedSav, c.timeSav⟩, [c.computationFinished])

/-- The main loop as a machine that publishes flags. -/
def finishedLoop : Machine FinishedState (Option StatusPoll) Byte := ⟨finishedStep⟩

/-! ## What the flag is to say -/

/-- The volumes of all four metered lanes. -/
def total (response : List Byte) : Int :=
  laneVolumes response 0 + laneVolumes response 1 + laneVolumes response 2 +
    laneVolumes response 3

/-- The latest successful poll. -/
def previousPoll (es : List (Option StatusPoll)) : Option StatusPoll :=
  (es.filterMap id).getLast?

/-- The times of the polls that published the flag set, in a run from a state. -/
def finishedTimes : FinishedState → List (Option StatusPoll) → List ℚ
  | _, [] => []
  | s, none :: es => finishedTimes s es
  | s, some p :: es =>
      (if (finishedStep s (some p)).2 = [1] then [p.currTime] else []) ++
        finishedTimes (finishedStep s (some p)).1 es

/-- When the flag was last set, 0 as long as it has not been. -/
def lastFinished (es : List (Option StatusPoll)) : ℚ :=
  (finishedTimes startFinished es).getLast?.getD 0

/-- At a poll that is not the first the flag is set exactly when the total has changed, or
thirty seconds less the slack have passed since it was last set. -/
def FlagRight (pre : List (Option StatusPoll)) (s : FinishedState) (e : Option StatusPoll) :
    Prop :=
  ∀ p q, e = some p → previousPoll pre = some q → ∀ flag ∈ (finishedStep s e).2,
    flag = 1 ↔ total p.response ≠ total q.response ∨
      30 ≤ p.currTime + 25 / 1000 - lastFinished pre

/-- When the fourth lane last had volumes, 0 as long as it has not had any. -/
def lastFourth (es : List (Option StatusPoll)) : ℚ :=
  (((es.filterMap id).filter fun p => laneVolumes p.response 3 ≠ 0).map
    StatusPoll.currTime).getLast?.getD 0

/-- At a poll that is not the first the fourth lane has volumes exactly when the total has
changed, or thirty seconds less the slack have passed since it last had some. -/
def FourthLaneTells (pre : List (Option StatusPoll)) (_s : FinishedState)
    (e : Option StatusPoll) : Prop :=
  ∀ p q, e = some p → previousPoll pre = some q →
    (laneVolumes p.response 3 ≠ 0 ↔ total p.response ≠ total q.response ∨
      30 ≤ p.currTime + 25 / 1000 - lastFourth pre)

/-! ## What the loop over the lanes leaves -/

section Lanes

variable {timedOut : Time → Time → Bool} (hclock : ∀ t, timedOut t t = false) (response : List Byte)
  (currTime : Time) (c : Clocked Time) (i : Nat)

/-- Every turn saves the sum so far. -/
theorem laneTurn_sav : (laneTurn timedOut response currTime c i).compFinishedSav =
    (laneTurn timedOut response currTime c i).compFinishedTemp := by
  unfold laneTurn
  dsimp only
  split
  · split
    · rfl
    · rename_i hsame
      exact (not_not.mp hsame).symm
  · rename_i hidle
    exact (not_not.mp (not_or.mp hidle).1).symm

include hclock in
/-- After a turn the thirty seconds are not over. -/
theorem laneTurn_not_over :
    timedOut currTime (laneTurn timedOut response currTime c i).timeSav = false := by
  unfold laneTurn
  dsimp only
  split
  · exact hclock currTime
  · rename_i hidle
    exact Bool.eq_false_iff.mpr (not_or.mp hidle).2

/-- A turn on a saved sum, within the thirty seconds, sets the flag when its own lane has
volumes. -/
theorem laneTurn_flag (hsav : c.compFinishedSav = c.compFinishedTemp)
    (hwithin : timedOut currTime c.timeSav = false) :
    (laneTurn timedOut response currTime c i).computationFinished =
      if laneVolumes response i ≠ 0 then 1 else 0 := by
  have hchanged : c.compFinishedTemp + laneVolumes response i ≠ c.compFinishedSav ↔
      laneVolumes response i ≠ 0 := by
    rw [hsav]
    omega
  by_cases hv : laneVolumes response i ≠ 0
  · rw [if_pos hv, laneTurn, if_pos (Or.inl (hchanged.mpr hv))]
  · rw [if_neg hv, laneTurn, if_neg]
    rw [not_or, hchanged, hwithin]
    exact ⟨hv, Bool.false_ne_true⟩

include hclock in
/-- **The flag is that of the fourth lane.** -/
theorem lanesLoop_flag :
    (lanesLoop timedOut response currTime c).computationFinished =
      if laneVolumes response 3 ≠ 0 then 1 else 0 := by
  have hlanes : lanesLoop timedOut response currTime c =
      laneTurn timedOut response currTime (laneTurn timedOut response currTime
        (laneTurn timedOut response currTime
          (laneTurn timedOut response currTime c 0) 1) 2) 3 := rfl
  rw [hlanes]
  apply laneTurn_flag
  · exact laneTurn_sav response currTime _ 2
  · exact laneTurn_not_over hclock response currTime _ 2

end Lanes

/-- A time is not thirty seconds after itself. -/
theorem thirtySeconds_self (t : ℚ) : thirtySeconds t t = false := by
  have hslack : t + 25 / 1000 - t = 25 / 1000 := by ring
  rw [thirtySeconds, hslack]
  norm_num

/-- A successful poll publishes whether the fourth lane has volumes. -/
theorem finishedStep_flag (s : FinishedState) (p : StatusPoll) :
    (finishedStep s (some p)).2 = [if laneVolumes p.response 3 ≠ 0 then 1 else 0] := by
  simp only [finishedStep, lanesLoop_flag thirtySeconds_self]

theorem finishedTimes_eq (s : FinishedState) (es : List (Option StatusPoll)) :
    finishedTimes s es = ((es.filterMap id).filter
      fun p => laneVolumes p.response 3 ≠ 0).map StatusPoll.currTime := by
  induction es generalizing s with
  | nil => rfl
  | cons e es ih =>
      cases e with
      | none => simpa [finishedTimes] using ih s
      | some p =>
          rw [finishedTimes, finishedStep_flag, ih]
          by_cases hv : laneVolumes p.response 3 ≠ 0
          · simp [hv]
          · simp [hv]

theorem lastFinished_eq (es : List (Option StatusPoll)) : lastFinished es = lastFourth es := by
  rw [lastFinished, finishedTimes_eq, lastFourth]

/-- **The flag, exactly.**  Along a run it says after each poll but the first whether the total
has changed or thirty seconds have passed exactly when the fourth lane's volumes do. -/
theorem flagRight_along_iff (es : List (Option StatusPoll)) :
    finishedLoop.Along startFinished FlagRight es ↔
      finishedLoop.Along startFinished FourthLaneTells es := by
  let Any : List (Option StatusPoll) → FinishedState → Prop := fun _ _ => True
  have hagree : ∀ pre t e, Any pre t → (FlagRight pre t e ↔ FourthLaneTells pre t e) := by
    intro pre t e _
    refine forall_congr' fun p => forall_congr' fun q => imp_congr_right fun he => ?_
    subst he
    rw [finishedStep_flag, lastFinished_eq]
    refine imp_congr_right fun _ => ?_
    by_cases hv : laneVolumes p.response 3 ≠ 0
    · simp [hv]
    · simp [hv]
  exact finishedLoop.along_congr trivial (fun _ _ _ _ => trivial) hagree es

/-- A response with one demand volume in the first lane. -/
private def demandResponse (volume : Byte) : List Byte :=
  List.replicate 251 0 ++ [volume] ++ List.replicate 165 0

/-- The first lane's demand goes from 0 to 5 while the fourth lane stands still: the total
changes and the flag stays clear. -/
theorem change_in_first_lane_unseen :
    ¬ ∀ es, finishedLoop.Along startFinished FlagRight es := by
  intro h
  let before : StatusPoll := ⟨demandResponse 0, 100⟩
  let after : StatusPoll := ⟨demandResponse 5, 105⟩
  have hprevious : previousPoll [some before] = some before := rfl
  have hright := h [some before, some after] [some before] (some after) [] rfl after before rfl
    hprevious
  have hfourth : laneVolumes after.response 3 = 0 := by decide +kernel
  have hzero : total before.response = 0 := by decide +kernel
  have hfive : total after.response = 5 := by decide +kernel
  have hchanged : total after.response ≠ total before.response := by omega
  rw [finishedStep_flag, hfourth] at hright
  have hflag := (hright _ (List.mem_singleton.mpr rfl)).mpr (Or.inl hchanged)
  exact absurd hflag (by decide)

end RfsAtsc.UrmsComputation
