import RfsAtsc.StartTables
import Mathlib.Data.Prod.Lex
import Mathlib.Algebra.Order.Ring.Int

/-!
# The timing plan in effect: `get_timing_plan`

The plans of the day start at given hours and minutes.  The lookup compares hours first
and then the minutes of one interval of the hour, so with several starts in one hour it
can miss the last that has passed.
-/

namespace RfsAtsc.Phases

open StartTables

/-- What the lookup reads of `struct tm`. -/
structure Tm where
  tmHour : Int
  tmMin : Int

/-- The table of intervals, from index 1. -/
structure Intervals where
  hourStart : Int → Int
  minuteStart : Int → Int
  pintervals : Int → Int

/-- The loop from interval `i` on, with as many turns left; `activePlan` is not initialised
before it. -/
def timingPlanLoop (tmval : Tm) (noIntervals : Int) (table : Intervals) (activePlan : Int) :
    Nat → Int → Int
  | 0, _ => activePlan
  | turns + 1, i =>
      if tmval.tmHour < table.hourStart 1 then table.pintervals noIntervals
      else if tmval.tmHour = table.hourStart 1 then
        if tmval.tmMin ≥ table.minuteStart 1 then table.pintervals 1
        else table.pintervals noIntervals
      else if tmval.tmHour = table.hourStart noIntervals then
        if tmval.tmMin ≥ table.minuteStart noIntervals then table.pintervals noIntervals
        else table.pintervals (noIntervals - 1)
      else if tmval.tmHour > table.hourStart noIntervals then table.pintervals noIntervals
      else if tmval.tmHour ≥ table.hourStart i ∧ tmval.tmHour ≤ table.hourStart (i + 1) then
        if tmval.tmHour = table.hourStart i then
          if tmval.tmMin ≥ table.minuteStart i then table.pintervals i
          else table.pintervals (i - 1)
        else if tmval.tmHour = table.hourStart (i + 1) then
          if tmval.tmMin ≥ table.minuteStart (i + 1) then table.pintervals (i + 1)
          else table.pintervals i
        else table.pintervals i
      else timingPlanLoop tmval noIntervals table activePlan turns (i + 1)

/-- `get_timing_plan`.  `localtime` is `localtime_r`. -/
def getTimingPlan (localtime : Int → Tm) (localTimeSec noIntervals : Int) (table : Intervals)
    (uninitialised : Int) : Int :=
  if noIntervals = 0 then 1
  else
    timingPlanLoop (localtime localTimeSec) noIntervals table uninitialised noIntervals.toNat 1

/-! ## What the lookup is for -/

/-- A time of day. -/
abbrev DayTime := Int ×ₗ Int

def Tm.dayTime (t : Tm) : DayTime := toLex (t.tmHour, t.tmMin)

/-- The start of interval `i`. -/
def Intervals.start (table : Intervals) (i : Nat) : DayTime :=
  toLex (table.hourStart i, table.minuteStart i)

/-- The plan of the interval in effect. -/
def Intervals.planInEffect (table : Intervals) (n : Nat) (t : DayTime) : Int :=
  table.pintervals (inEffect n table.start t)

/-- Interval `a` is the first that starts in the hour. -/
structure FirstOfHour (table : Intervals) (n : Nat) (hour : Int) (a : Nat) : Prop where
  pos : 1 ≤ a
  le : a ≤ n
  hour_eq : table.hourStart a = hour
  before : ∀ b : Nat, 1 ≤ b → b < a → table.hourStart b ≠ hour

/-- The plan in effect is the one the lookup takes for the time's hour.  In the hour of the
last start, when this is not the first's, the last start but one has passed, or its plan
is the one in effect.  In another hour, the first start of the hour has not passed, or its
plan is the one in effect. -/
def HourDecides (table : Intervals) (n : Nat) (t : Tm) : Prop :=
  if t.tmHour = table.hourStart n ∧ t.tmHour ≠ table.hourStart 1 then
    t.dayTime < table.start (n - 1) →
      table.planInEffect n t.dayTime = table.pintervals (n - 1)
  else
    ∀ a, FirstOfHour table n t.tmHour a → table.start a ≤ t.dayTime →
      table.planInEffect n t.dayTime = table.pintervals a

/-! ## Hours and starts -/

theorem Intervals.start_le_iff (table : Intervals) (i : Nat) (t : Tm) :
    table.start i ≤ t.dayTime ↔ table.hourStart i < t.tmHour ∨
      table.hourStart i = t.tmHour ∧ table.minuteStart i ≤ t.tmMin :=
  Prod.Lex.toLex_le_toLex

theorem Intervals.lt_start_iff (table : Intervals) (i : Nat) (t : Tm) :
    t.dayTime < table.start i ↔ t.tmHour < table.hourStart i ∨
      t.tmHour = table.hourStart i ∧ t.tmMin < table.minuteStart i :=
  Prod.Lex.toLex_lt_toLex

section Table

variable {table : Intervals} {n : Nat} (h : Increasing n table.start)
include h

/-- The hours of increasing starts do not decrease. -/
theorem hourStart_le {i j : Nat} (hi : 1 ≤ i) (hij : i ≤ j) (hj : j ≤ n) :
    table.hourStart i ≤ table.hourStart j := by
  rcases Nat.lt_or_eq_of_le hij with hlt | rfl
  · rcases Prod.Lex.toLex_lt_toLex.mp (h i j hi hlt hj) with hhour | hminute
    · exact le_of_lt hhour
    · exact le_of_eq hminute.1
  · exact le_rfl

/-- The plan in effect, from an interval that has started and is followed by none that
has. -/
theorem planInEffect_eq {t : Tm} {i : Nat} (hi : 1 ≤ i) (hin : i ≤ n)
    (hstarted : table.start i ≤ t.dayTime) (hnext : i < n → t.dayTime < table.start (i + 1)) :
    table.planInEffect n t.dayTime = table.pintervals i := by
  rw [Intervals.planInEffect, inEffect_eq h hi hin hstarted hnext]

/-- Before the first start the plan in effect is the last interval's. -/
theorem planInEffect_of_lt_first {t : Tm} (ht : t.dayTime < table.start 1) :
    table.planInEffect n t.dayTime = table.pintervals n := by
  rw [Intervals.planInEffect, inEffect_of_lt_first h ht]

end Table

/-- An hour has one first interval at most. -/
theorem FirstOfHour.unique {table : Intervals} {n : Nat} {hour : Int} {a b : Nat}
    (ha : FirstOfHour table n hour a) (hb : FirstOfHour table n hour b) : a = b := by
  rcases Nat.lt_trichotomy a b with hlt | heq | hgt
  · exact absurd ha.hour_eq (hb.before a ha.pos hlt)
  · exact heq
  · exact absurd hb.hour_eq (ha.before b hb.pos hgt)

/-! ## The lookup, hour by hour -/

/-- Strictly between the hours of the first and the last start, the loop ends at the
interval before the first one whose hour is not earlier. -/
theorem timingPlanLoop_between {table : Intervals} {n : Nat} {tmval : Tm} {activePlan : Int}
    (hfirst : table.hourStart 1 < tmval.tmHour) (hlast : tmval.tmHour < table.hourStart n)
    (turns : Nat) {i : Nat} (hturns : i + turns = n + 1) (hi : 1 ≤ i) (hin : i ≤ n)
    (hbefore : table.hourStart i < tmval.tmHour) :
    ∃ k : Nat, 1 ≤ k ∧ k < n ∧ table.hourStart k < tmval.tmHour ∧
      tmval.tmHour ≤ table.hourStart (k + 1 : Nat) ∧
      timingPlanLoop tmval n table activePlan turns i =
        if tmval.tmHour = table.hourStart (k + 1 : Nat) ∧
            table.minuteStart (k + 1 : Nat) ≤ tmval.tmMin then
          table.pintervals (k + 1 : Nat)
        else table.pintervals k := by
  induction turns generalizing i with
  | zero => exact absurd hin (by omega)
  | succ turns ih =>
      have hcast : ((i + 1 : Nat) : Int) = (i : Int) + 1 := by
        push_cast
        rfl
      rw [timingPlanLoop, if_neg (by omega), if_neg (by omega), if_neg (by omega),
        if_neg (by omega), ← hcast]
      have hnot : i ≠ n := by
        intro heq
        rw [heq] at hbefore
        omega
      by_cases hhere : tmval.tmHour ≤ table.hourStart (i + 1 : Nat)
      · refine ⟨i, hi, by omega, hbefore, hhere, ?_⟩
        rw [if_pos ⟨le_of_lt hbefore, hhere⟩, if_neg (by omega)]
        by_cases hhour : tmval.tmHour = table.hourStart (i + 1 : Nat)
        · rw [if_pos hhour]
          exact if_congr (by rw [and_iff_right hhour]) rfl rfl
        · rw [if_neg hhour, if_neg fun hboth => hhour hboth.1]
      · rw [if_neg fun hboth => hhere hboth.2]
        exact ih (by omega) (by omega) (by omega) (by omega)

/-- The condition in an hour whose first interval is known. -/
theorem hourDecides_of_first {table : Intervals} {n : Nat} {t : Tm} {a : Nat}
    (ha : FirstOfHour table n t.tmHour a)
    (hnotLast : ¬ (t.tmHour = table.hourStart n ∧ t.tmHour ≠ table.hourStart 1)) :
    HourDecides table n t ↔
      (table.start a ≤ t.dayTime → table.planInEffect n t.dayTime = table.pintervals a) := by
  rw [HourDecides, if_neg hnotLast]
  constructor
  · intro hall
    exact hall a ha
  · intro hone b hb
    rw [hb.unique ha]
    exact hone

/-- In an hour in which nothing starts, there is nothing to decide. -/
theorem hourDecides_of_none {table : Intervals} {n : Nat} (hn : 1 ≤ n) {t : Tm}
    (hnone : ∀ a : Nat, 1 ≤ a → a ≤ n → table.hourStart a ≠ t.tmHour) :
    HourDecides table n t := by
  rw [HourDecides, if_neg fun hlast => hnone n hn le_rfl hlast.1.symm]
  intro a ha
  exact absurd ha.hour_eq (hnone a ha.pos ha.le)

section Lookup

variable {table : Intervals} {n : Nat} (h : Increasing n table.start) (hn : 1 ≤ n) {t : Tm}
  (uninitialised : Int)
include h hn

/-- Before the hour of the first start. -/
theorem lookup_early (hhour : t.tmHour < table.hourStart 1) :
    timingPlanLoop t n table uninitialised n 1 = table.planInEffect n t.dayTime ↔
      HourDecides table n t := by
  have hplan := planInEffect_of_lt_first h ((table.lt_start_iff 1 t).mpr (Or.inl hhour))
  have hdecides : HourDecides table n t := by
    refine hourDecides_of_none hn fun a ha han heq => ?_
    have hmono := hourStart_le h le_rfl ha han
    push_cast at hmono
    omega
  refine iff_of_true (Eq.trans ?_ hplan.symm) hdecides
  obtain ⟨m, rfl⟩ : ∃ m, n = m + 1 := ⟨n - 1, by omega⟩
  rw [timingPlanLoop, if_pos hhour]

/-- In the hour of the first start. -/
theorem lookup_first (hhour : t.tmHour = table.hourStart 1) :
    timingPlanLoop t n table uninitialised n 1 = table.planInEffect n t.dayTime ↔
      HourDecides table n t := by
  have hfirst : FirstOfHour table n t.tmHour 1 :=
    ⟨le_rfl, hn, hhour.symm, fun b hb hb1 => absurd hb (by omega)⟩
  have hstarted : table.start 1 ≤ t.dayTime ↔ t.tmMin ≥ table.minuteStart 1 := by
    rw [table.start_le_iff]
    push_cast
    omega
  rw [hourDecides_of_first hfirst fun hlast => hlast.2 hhour]
  have hloop : timingPlanLoop t n table uninitialised n 1 =
      if t.tmMin ≥ table.minuteStart 1 then table.pintervals 1 else table.pintervals n := by
    obtain ⟨m, rfl⟩ : ∃ m, n = m + 1 := ⟨n - 1, by omega⟩
    rw [timingPlanLoop, if_neg (by omega), if_pos hhour]
  rw [hloop]
  by_cases hminute : t.tmMin ≥ table.minuteStart 1
  · rw [if_pos hminute]
    constructor
    · intro heq _
      exact heq.symm
    · intro hone
      exact (hone (hstarted.mpr hminute)).symm
  · rw [if_neg hminute]
    have hbefore : t.dayTime < table.start 1 := not_le.mp fun hle => hminute (hstarted.mp hle)
    exact iff_of_true (planInEffect_of_lt_first h hbefore).symm
      fun hle => absurd hle (not_le.mpr hbefore)

/-- In the hour of the last start, when it is not the first's. -/
theorem lookup_last (hnotFirst : table.hourStart 1 < t.tmHour)
    (hhour : t.tmHour = table.hourStart n) :
    timingPlanLoop t n table uninitialised n 1 = table.planInEffect n t.dayTime ↔
      HourDecides table n t := by
  have hloop : timingPlanLoop t n table uninitialised n 1 =
      if t.tmMin ≥ table.minuteStart n then table.pintervals n else table.pintervals (n - 1) := by
    obtain ⟨m, rfl⟩ : ∃ m, n = m + 1 := ⟨n - 1, by omega⟩
    rw [timingPlanLoop, if_neg (by omega), if_neg (by omega), if_pos hhour]
  have htwo : n ≠ 1 := by
    intro heq
    rw [heq] at hhour
    push_cast at hhour
    omega
  have hstarted : table.start n ≤ t.dayTime ↔ t.tmMin ≥ table.minuteStart n := by
    rw [table.start_le_iff]
    omega
  have hpred : ((n - 1 : Nat) : Int) = n - 1 := by omega
  rw [HourDecides, if_pos ⟨hhour, by omega⟩, hloop]
  by_cases hminute : t.tmMin ≥ table.minuteStart n
  · have hafter := h (n - 1) n (by omega) (by omega) le_rfl
    have hplan := planInEffect_eq h hn le_rfl (hstarted.mpr hminute)
      fun hlt => absurd hlt (by omega)
    rw [if_pos hminute]
    refine iff_of_true hplan.symm fun hlt => ?_
    exact absurd (hlt.trans hafter) (not_lt.mpr (hstarted.mpr hminute))
  · have hbefore : t.dayTime < table.start n := not_le.mp fun hle => hminute (hstarted.mp hle)
    rw [if_neg hminute]
    by_cases hlate : t.dayTime < table.start (n - 1)
    · rw [imp_iff_right hlate]
      exact eq_comm
    · have hplan := planInEffect_eq h (show 1 ≤ n - 1 by omega) (by omega) (not_lt.mp hlate)
        fun _ => by rw [show n - 1 + 1 = n by omega]; exact hbefore
      rw [hplan, hpred]
      exact iff_of_true rfl fun hlt => absurd hlt hlate

/-- After the hour of the last start. -/
theorem lookup_late (hhour : table.hourStart n < t.tmHour) :
    timingPlanLoop t n table uninitialised n 1 = table.planInEffect n t.dayTime ↔
      HourDecides table n t := by
  have hfirst := hourStart_le h le_rfl hn le_rfl
  push_cast at hfirst
  have hplan := planInEffect_eq h hn le_rfl ((table.start_le_iff n t).mpr (Or.inl hhour))
    fun hlt => absurd hlt (by omega)
  have hdecides : HourDecides table n t := by
    refine hourDecides_of_none hn fun a ha han heq => ?_
    have hmono := hourStart_le h ha han le_rfl
    omega
  refine iff_of_true (Eq.trans ?_ hplan.symm) hdecides
  obtain ⟨m, rfl⟩ : ∃ m, n = m + 1 := ⟨n - 1, by omega⟩
  rw [timingPlanLoop, if_neg (by omega), if_neg (by omega), if_neg (by omega), if_pos hhour]

/-- Between the hours of the first and the last start. -/
theorem lookup_between (hafter : table.hourStart 1 < t.tmHour)
    (hbefore : t.tmHour < table.hourStart n) :
    timingPlanLoop t n table uninitialised n 1 = table.planInEffect n t.dayTime ↔
      HourDecides table n t := by
  obtain ⟨k, hk, hkn, hlow, hhigh, hloop⟩ :=
    @timingPlanLoop_between table n t uninitialised hafter hbefore n 1 (by omega) le_rfl hn hafter
  rw [Nat.cast_one] at hloop
  have hstart : table.start k ≤ t.dayTime := (table.start_le_iff k t).mpr (Or.inl hlow)
  have hearlier : ∀ b : Nat, 1 ≤ b → b ≤ k → table.hourStart b ≠ t.tmHour := by
    intro b hb hbk
    have hmono := hourStart_le h hb hbk (le_of_lt hkn)
    omega
  have hkept : t.dayTime < table.start (k + 1) → table.planInEffect n t.dayTime =
      table.pintervals k := fun hnext => planInEffect_eq h hk (le_of_lt hkn) hstart fun _ => hnext
  by_cases hhour : t.tmHour = table.hourStart (k + 1 : Nat)
  · have hfirst : FirstOfHour table n t.tmHour (k + 1) :=
      ⟨by omega, hkn, hhour.symm, fun b hb hbk => hearlier b hb (Nat.lt_succ_iff.mp hbk)⟩
    have hstarted : table.start (k + 1) ≤ t.dayTime ↔
        table.minuteStart (k + 1 : Nat) ≤ t.tmMin := by
      rw [table.start_le_iff]
      omega
    rw [hourDecides_of_first hfirst (by omega), hloop]
    by_cases hminute : table.minuteStart (k + 1 : Nat) ≤ t.tmMin
    · rw [if_pos ⟨hhour, hminute⟩, imp_iff_right (hstarted.mpr hminute)]
      exact eq_comm
    · have hnext : t.dayTime < table.start (k + 1) :=
        not_le.mp fun hle => hminute (hstarted.mp hle)
      rw [if_neg fun hboth => hminute hboth.2]
      exact iff_of_true (hkept hnext).symm fun hle => absurd hle (not_le.mpr hnext)
  · have hnext : t.dayTime < table.start (k + 1) :=
      (table.lt_start_iff (k + 1) t).mpr (Or.inl (lt_of_le_of_ne hhigh hhour))
    rw [hloop, if_neg fun hboth => hhour hboth.1]
    refine iff_of_true (hkept hnext).symm (hourDecides_of_none hn fun b hb hbn => ?_)
    by_cases hbk : b ≤ k
    · exact hearlier b hb hbk
    · have hmono := hourStart_le h (show 1 ≤ k + 1 by omega) (show k + 1 ≤ b by omega) hbn
      omega

end Lookup

/-- **The timing plan in effect**: over a table of at least one interval with increasing
starts, the lookup returns the plan of the last interval that has started, and before the
first start the plan of the last, exactly when the interval that it takes for the time's
hour has that plan. -/
theorem getTimingPlan_eq_iff (localtime : Int → Tm) (localTimeSec : Int) {table : Intervals}
    {n : Nat} (hn : 1 ≤ n) (h : Increasing n table.start) (uninitialised : Int) :
    getTimingPlan localtime localTimeSec n table uninitialised =
        table.planInEffect n (localtime localTimeSec).dayTime ↔
      HourDecides table n (localtime localTimeSec) := by
  have hsome : ¬ (n : Int) = 0 := by omega
  rw [getTimingPlan, if_neg hsome, Int.toNat_natCast]
  rcases Int.lt_trichotomy (localtime localTimeSec).tmHour (table.hourStart 1) with
    hearly | hfirst | hafter
  · exact lookup_early h hn uninitialised hearly
  · exact lookup_first h hn uninitialised hfirst
  · rcases Int.lt_trichotomy (localtime localTimeSec).tmHour (table.hourStart n) with
      hbefore | hlast | hlate
    · exact lookup_between h hn uninitialised hafter hbefore
    · exact lookup_last h hn uninitialised hafter hlast
    · exact lookup_late h hn uninitialised hlate

/-- Starts at six and at twelve, of the plans 1 and 2: at half past one plan 2 is found. -/
theorem getTimingPlan_two_starts :
    getTimingPlan (fun _ => ⟨13, 30⟩) 0 (2 : Nat) ⟨fun i => 6 * i, fun _ => 0, fun i => i⟩ 0 =
      2 := by
  let table : Intervals := ⟨fun i => 6 * i, fun _ => 0, fun i => i⟩
  have h : Increasing 2 table.start := fun i j _ hij _ =>
    Prod.Lex.toLex_lt_toLex.mpr (Or.inl (show 6 * (i : Int) < 6 * j by omega))
  have hplan : table.planInEffect 2 (Tm.dayTime ⟨13, 30⟩) = 2 := by
    rw [Intervals.planInEffect, inEffect_eq h (by decide) le_rfl
      ((table.start_le_iff 2 ⟨13, 30⟩).mpr (Or.inl (by decide))) fun hlt => absurd hlt (by decide)]
    rfl
  have hhour : HourDecides table 2 ⟨13, 30⟩ := by
    rw [HourDecides, if_neg (by decide)]
    intro a ha
    exact absurd ha.hour_eq (show 6 * (a : Int) ≠ 13 by omega)
  rw [← hplan]
  exact (getTimingPlan_eq_iff (fun _ => ⟨13, 30⟩) 0 (by decide) h 0).mpr hhour

/-- With one start an hour at most the lookup always finds the plan in effect. -/
theorem hourDecides_of_hours_increasing {table : Intervals} {n : Nat} (hn : 1 ≤ n)
    (hhours : ∀ i j : Nat, 1 ≤ i → i < j → j ≤ n → table.hourStart i < table.hourStart j) (t : Tm) :
    HourDecides table n t := by
  have h : Increasing n table.start :=
    fun i j hi hij hj => Prod.Lex.toLex_lt_toLex.mpr (Or.inl (hhours i j hi hij hj))
  rw [HourDecides]
  split
  · rename_i hlast
    intro hlate
    have htwo : n ≠ 1 := by
      intro heq
      rw [heq, Nat.cast_one] at hlast
      exact hlast.2 hlast.1
    have hearlier := hhours (n - 1) n (by omega) (by omega) le_rfl
    have hstarted := (table.start_le_iff (n - 1) t).mpr (Or.inl (by omega))
    exact absurd hlate (not_lt.mpr hstarted)
  · intro a ha hstarted
    refine planInEffect_eq h ha.pos ha.le hstarted fun han => ?_
    have hlater := hhours a (a + 1) ha.pos (Nat.lt_succ_self a) han
    rw [ha.hour_eq] at hlater
    exact (table.lt_start_iff (a + 1) t).mpr (Or.inl hlater)

/-- Two plans start in the hour from six, the second at half past: at a quarter to seven
the lookup still returns the first. -/
theorem getTimingPlan_not_always :
    ¬ ∀ (localtime : Int → Tm) (localTimeSec : Int) (table : Intervals) (n : Nat), 1 ≤ n →
      Increasing n table.start → ∀ uninitialised,
        getTimingPlan localtime localTimeSec n table uninitialised =
          table.planInEffect n (localtime localTimeSec).dayTime := by
  intro h
  let table : Intervals :=
    ⟨fun _ => 6, fun i => if i = 1 then 0 else 30, fun i => i⟩
  have hincreasing : Increasing 2 table.start := by
    intro i j hi hij hj
    obtain ⟨rfl, rfl⟩ : i = 1 ∧ j = 2 := by omega
    exact Prod.Lex.toLex_lt_toLex.mpr (Or.inr ⟨rfl, by decide⟩)
  have hplan := h (fun _ => ⟨6, 45⟩) 0 table 2 (by decide) hincreasing 0
  have hlast : inEffect 2 table.start (Tm.dayTime ⟨6, 45⟩) = 2 :=
    inEffect_eq hincreasing (by decide) le_rfl
      (Prod.Lex.toLex_le_toLex.mpr (Or.inr ⟨rfl, by decide⟩)) fun hlt => absurd hlt (by decide)
  rw [Intervals.planInEffect, hlast] at hplan
  exact absurd hplan (by decide)

end RfsAtsc.Phases
