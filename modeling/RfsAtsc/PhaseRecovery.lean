import RfsAtsc.PhaseConfig
import Mathlib.Tactic.NormNum.Basic
import Mathlib.Tactic.NormNum.Eq
import Mathlib.Tactic.NormNum.Inv
import Mathlib.Tactic.NormNum.Pow

/-!
# Recovery of `phase.cfg`

A configuration of timing plans, intervals, sniffers and overlaps, its rows in the layout of
`phase.cfg`, and the reader led by them from stage to stage.  What each stage has read stays
in the tables, so the whole configuration is there at the end.
-/

namespace RfsAtsc.Phases

open DecimalText

/-! ## Configurations -/

/-- A phase of a plan. -/
structure PhaseTimes where
  phaseIndex : Int
  offsetForGreen : ℚ
  greenLength : ℚ
  yellowLength : ℚ
  allRedLength : ℚ

/-- How a plan is timed. -/
inductive PlanTiming where
  | fixed (finalPhaseNo cycleLength : Int)
  | actuated
  | coordinated (finalPhaseNo cycleLength : Int)

structure PlanEntry where
  timing : PlanTiming
  phases : List PhaseTimes

structure IntervalEntry where
  hourStart : Int
  minuteStart : Int
  planNo : Int

structure SnifferEntry where
  sniffGreen : Int
  sniffYellow : Int
  sniffRed : Int

structure OverlapEntry where
  overlapPhase : Int
  overlapApproach : Int
  parentPhase1 : Int
  parentPhase2 : Int
  omitPhase1 : Int
  omitPhase2 : Int

/-- What `phase.cfg` says. -/
structure PhaseFile where
  noPhases : Nat
  plans : List PlanEntry
  intervals : List IntervalEntry
  sniffers : SnifferEntry
  overlaps : List OverlapEntry

/-! ## Rows -/

/-- A row of integers. -/
def intRow (vs : List Int) : List Field := vs.map Field.int

def PhaseTimes.row (q : PhaseTimes) : List Field :=
  Field.int q.phaseIndex ::
    [q.offsetForGreen, q.greenLength, q.yellowLength, q.allRedLength].map Field.dec

/-- What is converted of a phase's row. -/
def PhaseTimes.numbers (q : PhaseTimes) : List Int × List ℚ :=
  ([q.phaseIndex], [q.offsetForGreen, q.greenLength, q.yellowLength, q.allRedLength])

/-- An actuated plan's line has its type only. -/
def PlanTiming.numbers : PlanTiming → List Int
  | .fixed finalPhaseNo cycleLength => [0, finalPhaseNo, cycleLength]
  | .actuated => [1]
  | .coordinated finalPhaseNo cycleLength => [2, finalPhaseNo, cycleLength]

def PlanEntry.rows (p : PlanEntry) : List (List Field) :=
  intRow p.timing.numbers :: p.phases.map PhaseTimes.row

def IntervalEntry.numbers (v : IntervalEntry) : List Int := [v.hourStart, v.minuteStart, v.planNo]

def SnifferEntry.numbers (v : SnifferEntry) : List Int := [v.sniffGreen, v.sniffYellow, v.sniffRed]

def OverlapEntry.numbers (o : OverlapEntry) : List Int :=
  [o.overlapPhase, o.overlapApproach, o.parentPhase1, o.parentPhase2, o.omitPhase1, o.omitPhase2]

def IntervalEntry.row (v : IntervalEntry) : List Field := intRow v.numbers

def SnifferEntry.row (v : SnifferEntry) : List Field := intRow v.numbers

def OverlapEntry.row (o : OverlapEntry) : List Field := intRow o.numbers

/-- The rows up to the sniffers. -/
def PhaseFile.planRows (c : PhaseFile) : List (List Field) :=
  intRow [(c.noPhases : Int)] :: intRow [(c.plans.length : Int)] :: c.plans.flatMap PlanEntry.rows

/-- The rows of a configuration in the layout of `phase.cfg`. -/
def PhaseFile.rows (c : PhaseFile) : List (List Field) :=
  c.planRows ++ (intRow [(c.intervals.length : Int)] :: c.intervals.map IntervalEntry.row) ++
    [c.sniffers.row] ++ (intRow [(c.overlaps.length : Int)] :: c.overlaps.map OverlapEntry.row)

/-- One phase at least, one plan at least, a line for each phase in each plan, and integers that
are values of `int`. -/
structure PhaseFile.Valid (c : PhaseFile) : Prop where
  noPhases_pos : 1 ≤ c.noPhases
  plans_pos : 1 ≤ c.plans.length
  phases_length : ∀ p ∈ c.plans, p.phases.length = c.noPhases
  ints : ∀ row ∈ c.rows, ∀ f ∈ row, f.FitsInt

/-- The file has the configuration in the layout of `phase.cfg`. -/
def PhaseFile.InFile (c : PhaseFile) (file : List Char) : Prop := Renders 100 c.rows file

/-! ## What the tables hold -/

section Tables

variable (s : PhaseReader)

def PhaseReader.phaseTimes (i j : Int) : PhaseTimes :=
  ⟨s.phaseIndex i j, s.offsetForGreen i j, s.greenLength i j, s.yellowLength i j,
    s.allRedLength i j⟩

def PhaseReader.intervalEntry (k : Int) : IntervalEntry :=
  ⟨s.hourStart k, s.minuteStart k, s.planNo k⟩

def PhaseReader.sniffers : SnifferEntry := ⟨s.sniffGreen, s.sniffYellow, s.sniffRed⟩

def PhaseReader.overlapEntry (m : Int) : OverlapEntry :=
  ⟨s.overlapPhase m, s.overlapApproach m, s.parentPhase m 1, s.parentPhase m 2, s.omitPhase m 1,
    s.omitPhase m 2⟩

/-- The tables hold a plan's timing. -/
def PhaseReader.TimingHeld (i : Int) : PlanTiming → Prop
  | .fixed finalPhaseNo cycleLength =>
      s.timingType i = 0 ∧ s.finalPhaseNo i = finalPhaseNo ∧ s.cycleLength i = cycleLength
  | .actuated => s.timingType i = 1
  | .coordinated finalPhaseNo cycleLength =>
      s.timingType i = 2 ∧ s.finalPhaseNo i = finalPhaseNo ∧ s.cycleLength i = cycleLength

end Tables

/-- A table holds the first `n` of a list, from index 1 on. -/
def Held {α : Type} (entry : Int → α) (xs : List α) (n : Nat) : Prop :=
  ∀ (m : Nat) x, m < n → xs[m]? = some x → entry (m + 1) = x

/-- Of no entries the table holds each. -/
theorem Held.zero {α : Type} (entry : Int → α) (xs : List α) : Held entry xs 0 :=
  fun m _ hm _ => absurd hm (Nat.not_lt_zero m)

/-- The next one is stored behind them. -/
theorem Held.push {α : Type} {entry : Int → α} {xs : List α} {n : Nat} (h : Held entry xs n)
    {x : α} (hx : xs[n]? = some x) : Held (Function.update entry (n + 1) x) xs (n + 1) := by
  intro m y hm hy
  rcases Nat.lt_or_eq_of_le (Nat.le_of_lt_succ hm) with hlt | rfl
  · have hne : ((m : Int) + 1) ≠ n + 1 := by omega
    exact (Function.update_of_ne hne x entry).trans (h m y hlt hy)
  · rw [Function.update_self]
    exact Option.some.inj (hx.symm.trans hy)

/-- The tables hold the first `n` plans. -/
structure PlansHeld (c : PhaseFile) (s : PhaseReader) (n : Nat) : Prop where
  noPhases : s.noPhases = c.noPhases
  noTimings : s.noTimings = c.plans.length
  timing : ∀ (m : Nat) p, m < n → c.plans[m]? = some p → s.TimingHeld (m + 1) p.timing
  phases : ∀ (m : Nat) p, m < n → c.plans[m]? = some p →
    Held (s.phaseTimes (m + 1)) p.phases p.phases.length

/-- The tables hold the intervals too. -/
structure IntervalsHeld (c : PhaseFile) (s : PhaseReader) : Prop where
  plans : PlansHeld c s c.plans.length
  noIntervals : s.noIntervals = c.intervals.length
  intervals : Held s.intervalEntry c.intervals c.intervals.length

/-- The variables hold the configuration. -/
structure PhaseReader.Holds (s : PhaseReader) (c : PhaseFile) : Prop where
  intervals : IntervalsHeld c s
  sniffers : s.sniffers = c.sniffers
  noOverlaps : s.noOverlaps = c.overlaps.length
  overlaps : Held s.overlapEntry c.overlaps c.overlaps.length

/-! ## What a stored row changes -/

section Stored

variable (s : PhaseReader)

/-- A phase stored is at the plan and the place of the reader. -/
theorem phaseTimes_storePhase (q : PhaseTimes) :
    (storePhase s q.numbers).phaseTimes = update2 s.phaseTimes s.i s.j q := by
  funext i j
  by_cases hi : i = s.i
  · subst hi
    by_cases hj : j = s.j
    · subst hj
      simp only [PhaseReader.phaseTimes, storePhase, update2_same, Function.update_self]
      rfl
    · simp only [PhaseReader.phaseTimes, storePhase, update2_same, Function.update_of_ne hj]
  · simp only [PhaseReader.phaseTimes, storePhase, update2_ne _ _ _ hi]

/-- An interval stored is at the reader's place. -/
theorem intervalEntry_storeInterval (v : IntervalEntry) :
    (storeInterval s v.numbers).intervalEntry =
      Function.update s.intervalEntry s.k v := by
  funext k
  by_cases hk : k = s.k
  · subst hk
    simp only [PhaseReader.intervalEntry, storeInterval, Function.update_self]
    rfl
  · simp only [PhaseReader.intervalEntry, storeInterval, Function.update_of_ne hk]

/-- An overlap stored is at the reader's place. -/
theorem overlapEntry_scanOverlap (o : OverlapEntry) :
    (scanOverlap s o.numbers).overlapEntry = Function.update s.overlapEntry s.m o := by
  funext m
  by_cases hm : m = s.m
  · subst hm
    have hother : (1 : Int) ≠ 2 := by decide
    simp only [PhaseReader.overlapEntry, scanOverlap, update2_same, Function.update_self,
      Function.update_of_ne hother]
    rfl
  · simp only [PhaseReader.overlapEntry, scanOverlap, update2_ne _ _ _ hm,
      Function.update_of_ne hm]

end Stored

/-! ## What a row's line is scanned as -/

/-- A line that spells integers is converted to them. -/
theorem scanned_ints {vs : List Int} {text : List Char} (h : SpellsRow (intRow vs) text) :
    (scanned text).ints = vs.take := funext fun n => scanInts_spells h n

/-- A line that spells a phase is converted to its numbers. -/
theorem scanned_phase {q : PhaseTimes} {text : List Char} (h : SpellsRow q.row text) :
    (scanned text).phase = q.numbers := by
  obtain ⟨rest, hscan, hrest⟩ := scanInt_spells h
  change scanPhaseRow text = _
  rw [scanPhaseRow, hscan]
  exact congrArg (Prod.mk [q.phaseIndex]) (scanRats_spells hrest)

/-- The turn of a row of integers at a stage that has others behind it. -/
theorem phaseTurn_ints {s t : PhaseReader} {stage : Stage} (h : s.At stage) (vs : List Int)
    (hscan : ∀ phase, stage.scan s ⟨vs.take, phase⟩ = t) (hmore : t.m ≤ t.noOverlaps)
    {text : List Char} (hspells : SpellsRow (intRow vs) text) :
    phaseTurn s text = ({ t with line := t.line + 1 }, false) := by
  have hline : stage.scan s (scanned text) = t := by
    rw [← hscan (scanned text).phase, ← scanned_ints hspells]
  rw [phaseTurn_at h, hline]
  exact if_neg (not_lt.mpr hmore)

/-- The turn of a phase's row. -/
theorem phaseTurn_phase {s t : PhaseReader} (h : s.At .phase) {q : PhaseTimes}
    (hscan : scanPhase s q.numbers = t) (hmore : t.m ≤ t.noOverlaps) {text : List Char}
    (hspells : SpellsRow q.row text) :
    phaseTurn s text = ({ t with line := t.line + 1 }, false) := by
  have hline : Stage.phase.scan s (scanned text) = t := by
    rw [← hscan, ← scanned_phase hspells]
    rfl
  rw [phaseTurn_at h, hline]
  exact if_neg (not_lt.mpr hmore)

/-! ## Where the reader is -/

/-- No overlap has been announced. -/
structure Early (s : PhaseReader) : Prop where
  m_eq : s.m = 1
  noOverlaps : s.noOverlaps = 100

/-- Before the overlaps there is more to read. -/
theorem Early.more {s : PhaseReader} (h : Early s) : s.m ≤ s.noOverlaps := by
  rw [h.m_eq, h.noOverlaps]
  decide

/-- The reader is at the first line of plan `n + 1`. -/
structure AtPlan (c : PhaseFile) (s : PhaseReader) (n : Nat) : Prop where
  at_plan : s.At .plan
  early : Early s
  held : PlansHeld c s n
  i_eq : s.i = n + 1

/-- The reader is in plan `n + 1` and has read some of its phases. -/
structure InPlan (c : PhaseFile) (s : PhaseReader) (n : Nat) (p : PlanEntry) (done : Nat) :
    Prop where
  at_phase : s.At .phase
  early : Early s
  held : PlansHeld c s n
  timing : s.TimingHeld (n + 1) p.timing
  phases : Held (s.phaseTimes (n + 1)) p.phases done
  i_eq : s.i = n + 1
  j_eq : s.j = done + 1

/-- The reader is at the number of intervals. -/
structure AtIntervals (c : PhaseFile) (s : PhaseReader) : Prop where
  at_intervals : s.At .intervals
  early : Early s
  held : PlansHeld c s c.plans.length

/-- The reader has read some of the intervals, and others follow. -/
structure InIntervals (c : PhaseFile) (s : PhaseReader) (done : Nat) : Prop where
  at_interval : s.At .interval
  early : Early s
  held : PlansHeld c s c.plans.length
  noIntervals : s.noIntervals = c.intervals.length
  intervals : Held s.intervalEntry c.intervals done
  k_eq : s.k = done + 1

/-- The reader is at the sniffers. -/
structure AtSniffers (c : PhaseFile) (s : PhaseReader) : Prop where
  at_sniffers : s.At .sniffers
  early : Early s
  held : IntervalsHeld c s

/-- The reader is at the number of overlaps. -/
structure AtOverlaps (c : PhaseFile) (s : PhaseReader) : Prop where
  at_overlaps : s.At .overlaps
  early : Early s
  held : IntervalsHeld c s
  sniffers : s.sniffers = c.sniffers

/-- The reader has read some of the overlaps, and others follow. -/
structure InOverlaps (c : PhaseFile) (s : PhaseReader) (done : Nat) : Prop where
  at_overlap : s.At .overlap
  held : IntervalsHeld c s
  sniffers : s.sniffers = c.sniffers
  noOverlaps : s.noOverlaps = c.overlaps.length
  overlaps : Held s.overlapEntry c.overlaps done
  m_eq : s.m = done + 1

section Reading

variable {c : PhaseFile} {s : PhaseReader} {n : Nat} {p : PlanEntry} {done : Nat}

/-! ## Plans -/

/-- A change of the plans' tables at other indices leaves what they hold. -/
theorem PlansHeld.of_entries {t : PhaseReader} (h : PlansHeld c s n)
    (hphases : t.noPhases = s.noPhases) (htimings : t.noTimings = s.noTimings)
    (htiming : ∀ (m : Nat) timing, m < n → s.TimingHeld (m + 1) timing →
      t.TimingHeld (m + 1) timing)
    (hentry : ∀ m : Nat, m < n → t.phaseTimes (m + 1) = s.phaseTimes (m + 1)) :
    PlansHeld c t n where
  noPhases := hphases.trans h.noPhases
  noTimings := htimings.trans h.noTimings
  timing := fun m p hm hp => htiming m _ hm (h.timing m p hm hp)
  phases := by
    intro m p hm hp
    rw [hentry m hm]
    exact h.phases m p hm hp

/-- With all its phases, plan `n + 1` is held too. -/
theorem PlansHeld.push (h : PlansHeld c s n) (hp : c.plans[n]? = some p)
    (htiming : s.TimingHeld (n + 1) p.timing)
    (hphases : Held (s.phaseTimes (n + 1)) p.phases p.phases.length) : PlansHeld c s (n + 1) where
  noPhases := h.noPhases
  noTimings := h.noTimings
  timing := by
    intro m q hm hq
    rcases Nat.lt_or_eq_of_le (Nat.le_of_lt_succ hm) with hlt | rfl
    · exact h.timing m q hlt hq
    · obtain rfl := Option.some.inj (hp.symm.trans hq)
      exact htiming
  phases := by
    intro m q hm hq
    rcases Nat.lt_or_eq_of_le (Nat.le_of_lt_succ hm) with hlt | rfl
    · exact h.phases m q hlt hq
    · obtain rfl := Option.some.inj (hp.symm.trans hq)
      exact hphases

/-- A timing elsewhere stays. -/
theorem timingHeld_of_ne {t : PhaseReader} {i : Int} {timing : PlanTiming}
    (htype : t.timingType i = s.timingType i) (hfinal : t.finalPhaseNo i = s.finalPhaseNo i)
    (hcycle : t.cycleLength i = s.cycleLength i) (h : s.TimingHeld i timing) :
    t.TimingHeld i timing := by
  cases timing with
  | fixed finalPhaseNo cycleLength =>
      obtain ⟨h1, h2, h3⟩ := h
      exact ⟨htype.trans h1, hfinal.trans h2, hcycle.trans h3⟩
  | actuated => exact htype.trans h
  | coordinated finalPhaseNo cycleLength =>
      obtain ⟨h1, h2, h3⟩ := h
      exact ⟨htype.trans h1, hfinal.trans h2, hcycle.trans h3⟩

/-- What the first line of a plan leaves. -/
structure Headed (s t : PhaseReader) (timing : PlanTiming) : Prop where
  flags : t.toFlags = { s.toFlags with timingPlanStart := false }
  line : t.line = s.line
  early : Early s → Early t
  i_eq : t.i = s.i
  j_eq : t.j = 1
  held : ∀ (c : PhaseFile) (n : Nat), s.i = n + 1 → PlansHeld c s n → PlansHeld c t n
  timing : t.TimingHeld s.i timing

/-- A plan's first line stores at the plan's own place. -/
theorem headed_of_tables (timingType : Int) {finalPhaseNo cycleLength : Int → Int}
    (hfinal : ∀ i ≠ s.i, finalPhaseNo i = s.finalPhaseNo i)
    (hcycle : ∀ i ≠ s.i, cycleLength i = s.cycleLength i) {timing : PlanTiming}
    (h : { s with
      timingType := Function.update s.timingType s.i timingType
      finalPhaseNo := finalPhaseNo
      cycleLength := cycleLength
      timingPlanStart := false
      j := 1 }.TimingHeld s.i timing) :
    Headed s
      { s with
        timingType := Function.update s.timingType s.i timingType
        finalPhaseNo := finalPhaseNo
        cycleLength := cycleLength
        timingPlanStart := false
        j := 1 } timing where
  flags := rfl
  line := rfl
  early := fun hearly => ⟨hearly.m_eq, hearly.noOverlaps⟩
  i_eq := rfl
  j_eq := rfl
  held := by
    intro c n hi hheld
    refine hheld.of_entries rfl rfl (fun m other hm hother => ?_) fun _ _ => rfl
    have hne : ((m : Int) + 1) ≠ s.i := by
      rw [hi]
      omega
    exact timingHeld_of_ne (Function.update_of_ne hne _ _) (hfinal _ hne) (hcycle _ hne) hother
  timing := h

/-- A plan's first line leaves its timing in the tables. -/
theorem headed_scanPlan (s : PhaseReader) (timing : PlanTiming) :
    Headed s (scanPlan s timing.numbers.take) timing := by
  cases timing with
  | fixed finalPhaseNo cycleLength =>
      rw [PlanTiming.numbers, scanPlan_timed s (by decide) finalPhaseNo cycleLength]
      refine headed_of_tables 0 (fun i hi => Function.update_of_ne hi _ _)
        (fun i hi => Function.update_of_ne hi _ _) ⟨?_, ?_, ?_⟩
      · exact Function.update_self _ _ _
      · exact Function.update_self _ _ _
      · exact Function.update_self _ _ _
  | actuated =>
      rw [PlanTiming.numbers, scanPlan_actuated s]
      exact headed_of_tables 1 (fun _ _ => rfl) (fun _ _ => rfl) (Function.update_self _ _ _)
  | coordinated finalPhaseNo cycleLength =>
      rw [PlanTiming.numbers, scanPlan_timed s (by decide) finalPhaseNo cycleLength]
      refine headed_of_tables 2 (fun i hi => Function.update_of_ne hi _ _)
        (fun i hi => Function.update_of_ne hi _ _) ⟨?_, ?_, ?_⟩
      · exact Function.update_self _ _ _
      · exact Function.update_self _ _ _
      · exact Function.update_self _ _ _

/-- A plan's first row is read. -/
theorem AtPlan.read_header (h : AtPlan c s n) (p : PlanEntry) :
    ∃ t, (∀ text, SpellsRow (intRow p.timing.numbers) text → phaseTurn s text = (t, false)) ∧
      InPlan c t n p 0 := by
  have hread := headed_scanPlan s p.timing
  refine ⟨{ scanPlan s p.timing.numbers.take with
      line := (scanPlan s p.timing.numbers.take).line + 1 }, fun text hspells => ?_, ?_⟩
  · exact phaseTurn_ints h.at_plan _ (fun _ => rfl) (hread.early h.early).more hspells
  · have hflags := hread.flags
    rw [h.at_plan.flags] at hflags
    have htiming := hread.timing
    rw [h.i_eq] at htiming
    refine ⟨⟨?_, hflags⟩, ?_, ?_, htiming, Held.zero _ _, hread.i_eq.trans h.i_eq, hread.j_eq⟩
    · change 2 < _ + 1
      rw [hread.line]
      exact Nat.lt_succ_of_lt h.at_plan.body
    · exact ⟨(hread.early h.early).m_eq, (hread.early h.early).noOverlaps⟩
    · exact (hread.held c n h.i_eq h.held).of_entries rfl rfl (fun _ _ _ hm => hm) fun _ _ => rfl

/-- What storing a phase of plan `n + 1` leaves. -/
theorem InPlan.store (h : InPlan c s n p done) {q : PhaseTimes} (hq : p.phases[done]? = some q) :
    PlansHeld c (storePhase s q.numbers) n ∧
      Held ((storePhase s q.numbers).phaseTimes (n + 1)) p.phases (done + 1) := by
  have htables := phaseTimes_storePhase s q
  rw [h.i_eq, h.j_eq] at htables
  constructor
  · refine h.held.of_entries rfl rfl (fun _ _ _ hm => hm) fun m hm => ?_
    have hne : ((m : Int) + 1) ≠ n + 1 := by omega
    rw [htables, update2_ne _ _ _ hne]
  · rw [htables, update2_same]
    exact h.phases.push hq

/-- A phase with others behind it is read. -/
theorem InPlan.read_phase (h : InPlan c s n p done) (hn : n < c.plans.length)
    (hlength : p.phases.length = c.noPhases) {q : PhaseTimes} (hq : p.phases[done]? = some q)
    (hmore : done + 1 < p.phases.length) :
    ∃ t, (∀ text, SpellsRow q.row text → phaseTurn s text = (t, false)) ∧
      InPlan c t n p (done + 1) := by
  obtain ⟨hheld, hphases⟩ := h.store hq
  have hscan : scanPhase s q.numbers = storePhase s q.numbers := by
    refine scanPhase_more s _ ?_ ?_
    · rw [h.j_eq, h.held.noPhases]
      omega
    · rw [h.i_eq, h.held.noTimings]
      omega
  refine ⟨{ storePhase s q.numbers with line := s.line + 1 },
    fun text hspells => phaseTurn_phase h.at_phase hscan h.early.more hspells, ?_⟩
  refine ⟨⟨Nat.lt_succ_of_lt h.at_phase.body, h.at_phase.flags⟩, ⟨h.early.m_eq, h.early.noOverlaps⟩,
    ?_, ?_, hphases, h.i_eq, ?_⟩
  · exact hheld.of_entries rfl rfl (fun _ _ _ hm => hm) fun _ _ => rfl
  · exact timingHeld_of_ne rfl rfl rfl h.timing
  · change s.j + 1 = _
    rw [h.j_eq]
    push_cast
    rfl

/-- The last phase of a plan is read: the next plan follows, or the intervals. -/
theorem InPlan.read_lastPhase (h : InPlan c s n p done) (hp : c.plans[n]? = some p)
    (hlength : p.phases.length = c.noPhases) {q : PhaseTimes} (hq : p.phases[done]? = some q)
    (hlast : done + 1 = p.phases.length) :
    ∃ t, (∀ text, SpellsRow q.row text → phaseTurn s text = (t, false)) ∧
      (n + 1 < c.plans.length → AtPlan c t (n + 1)) ∧
      (n + 1 = c.plans.length → AtIntervals c t) := by
  obtain ⟨hn, _⟩ := List.getElem?_eq_some_iff.mp hp
  obtain ⟨hheld, hphases⟩ := h.store hq
  rw [hlast] at hphases
  have hpushed := hheld.push hp (timingHeld_of_ne rfl rfl rfl h.timing) hphases
  have hj : s.noPhases ≤ s.j := by
    rw [h.j_eq, h.held.noPhases]
    omega
  rcases Nat.lt_or_eq_of_le (Nat.succ_le_of_lt hn) with hmore | hend
  · have hi : s.i < s.noTimings := by
      rw [h.i_eq, h.held.noTimings]
      omega
    refine ⟨_, fun text hspells => phaseTurn_phase h.at_phase (scanPhase_morePlans s _ hj hi)
      h.early.more hspells, fun _ => ?_, fun hend => absurd hend hmore.ne⟩
    refine ⟨h.at_phase.goes (fun f => { f with timingPlanStart := true }) rfl rfl rfl,
      ⟨h.early.m_eq, h.early.noOverlaps⟩,
      hpushed.of_entries rfl rfl (fun _ _ _ hm => hm) fun _ _ => rfl, ?_⟩
    change s.i + 1 = _
    rw [h.i_eq]
    push_cast
    rfl
  · have hi : s.noTimings ≤ s.i := by
      rw [h.i_eq, h.held.noTimings]
      omega
    refine ⟨_, fun text hspells => phaseTurn_phase h.at_phase (scanPhase_lastPlan s _ hj hi)
      h.early.more hspells, fun hmore => absurd hend hmore.ne, fun _ => ?_⟩
    have hall : n + 1 = c.plans.length := hend
    rw [hall] at hpushed
    refine ⟨h.at_phase.goes (fun f =>
        { f with
          timingPlanStart := false
          timingIntervalStart := true
          readPlansOnly := false
          endPlans := true }) rfl rfl rfl, ⟨h.early.m_eq, h.early.noOverlaps⟩, ?_⟩
    exact hpushed.of_entries rfl rfl (fun _ _ _ hm => hm) fun _ _ => rfl

/-- The phases of a plan are read. -/
theorem InPlan.read_phases (h : InPlan c s n p done) (hp : c.plans[n]? = some p)
    (hlength : p.phases.length = c.noPhases) {qs : List PhaseTimes} (hqs : p.phases.drop done = qs)
    (hne : qs ≠ []) :
    ∃ t, Reads phaseTurn (qs.map PhaseTimes.row) s t ∧
      (n + 1 < c.plans.length → AtPlan c t (n + 1)) ∧
      (n + 1 = c.plans.length → AtIntervals c t) := by
  induction qs generalizing done s with
  | nil => exact absurd rfl hne
  | cons q qs ih =>
      obtain ⟨hq, hrest, hcount⟩ := next_of_drop hqs
      cases qs with
      | nil =>
          have hlast : done + 1 = p.phases.length := by
            rw [List.length_nil] at hcount
            omega
          obtain ⟨t, hturn, hnext⟩ := h.read_lastPhase hp hlength hq hlast
          exact ⟨t, Reads.single hturn, hnext⟩
      | cons q' qs =>
          have hmore : done + 1 < p.phases.length := by
            rw [List.length_cons] at hcount
            omega
          obtain ⟨hn, _⟩ := List.getElem?_eq_some_iff.mp hp
          obtain ⟨t, hturn, hin⟩ := h.read_phase hn hlength hq hmore
          obtain ⟨u, hreads, hnext⟩ := ih hin hrest (List.cons_ne_nil _ _)
          exact ⟨u, Reads.row hturn hreads, hnext⟩

/-- The plans are read. -/
theorem AtPlan.read_plans (hvalid : c.Valid) (h : AtPlan c s n) {ps : List PlanEntry}
    (hps : c.plans.drop n = ps) (hne : ps ≠ []) :
    ∃ t, Reads phaseTurn (ps.flatMap PlanEntry.rows) s t ∧ AtIntervals c t := by
  induction ps generalizing n s with
  | nil => exact absurd rfl hne
  | cons p ps ih =>
      obtain ⟨hp, hrest, hcount⟩ := next_of_drop hps
      have hlength := hvalid.phases_length p (List.mem_of_getElem? hp)
      have hphases : p.phases ≠ [] := by
        have hpos := hvalid.noPhases_pos
        exact List.ne_nil_of_length_pos (by omega)
      obtain ⟨t, hturn, hin⟩ := h.read_header p
      obtain ⟨u, hreads, hmore, hend⟩ := hin.read_phases hp hlength List.drop_zero hphases
      have hplan : Reads phaseTurn p.rows s u := Reads.row hturn hreads
      rw [List.flatMap_cons]
      cases ps with
      | nil =>
          refine ⟨u, hplan.append (Reads.nil u), hend ?_⟩
          rw [List.length_nil] at hcount
          omega
      | cons p' ps =>
          have hat : AtPlan c u (n + 1) := by
            refine hmore ?_
            rw [List.length_cons] at hcount
            omega
          obtain ⟨v, hlater, hintervals⟩ := ih hat hrest (List.cons_ne_nil _ _)
          exact ⟨v, hplan.append hlater, hintervals⟩

/-! ## Intervals -/

/-- The number of intervals is read: the intervals follow, or the sniffers. -/
theorem AtIntervals.read_count (h : AtIntervals c s) :
    ∃ t, (∀ text, SpellsRow (intRow [(c.intervals.length : Int)]) text →
        phaseTurn s text = (t, false)) ∧
      (c.intervals ≠ [] → InIntervals c t 0) ∧ (c.intervals = [] → AtSniffers c t) := by
  by_cases hnone : c.intervals = []
  · have hzero : (c.intervals.length : Int) = 0 := by
      rw [hnone]
      rfl
    rw [hzero]
    refine ⟨_, fun text hspells => phaseTurn_ints h.at_intervals [0]
      (fun _ => scanIntervals_none s) h.early.more hspells, fun hne => absurd hnone hne,
      fun _ => ?_⟩
    refine ⟨h.at_intervals.goes
        (fun f => { f with timingIntervalStart := false, snifferStart := true }) rfl rfl rfl,
      ⟨h.early.m_eq, h.early.noOverlaps⟩,
      ⟨h.held.of_entries rfl rfl (fun _ _ _ hm => hm) fun _ _ => rfl, hzero.symm, ?_⟩⟩
    rw [hnone]
    exact Held.zero _ _
  · have hpos : (c.intervals.length : Int) ≠ 0 := by
      have hlen := List.length_pos_of_ne_nil hnone
      omega
    refine ⟨_, fun text hspells => phaseTurn_ints h.at_intervals
      [(c.intervals.length : Int)] (fun _ => scanIntervals_some s hpos) h.early.more hspells,
      fun _ => ?_, fun hnil => absurd hnil hnone⟩
    exact ⟨h.at_intervals.goes
        (fun f => { f with timingIntervalStart := false, timingTableStart := true }) rfl rfl rfl,
      ⟨h.early.m_eq, h.early.noOverlaps⟩,
      h.held.of_entries rfl rfl (fun _ _ _ hm => hm) fun _ _ => rfl, rfl, Held.zero _ _, rfl⟩

/-- An interval is read: another follows, or the sniffers. -/
theorem InIntervals.read_interval (h : InIntervals c s done) {v : IntervalEntry}
    (hv : c.intervals[done]? = some v) :
    ∃ t, (∀ text, SpellsRow v.row text → phaseTurn s text = (t, false)) ∧
      (done + 1 < c.intervals.length → InIntervals c t (done + 1)) ∧
      (done + 1 = c.intervals.length → AtSniffers c t) := by
  obtain ⟨hdone, _⟩ := List.getElem?_eq_some_iff.mp hv
  have hstored : Held (storeInterval s v.numbers).intervalEntry c.intervals (done + 1) := by
    rw [intervalEntry_storeInterval, h.k_eq]
    exact h.intervals.push hv
  rcases Nat.lt_or_eq_of_le (Nat.succ_le_of_lt hdone) with hmore | hend
  · have hk : s.k < s.noIntervals := by
      rw [h.k_eq, h.noIntervals]
      omega
    refine ⟨_, fun text hspells => phaseTurn_ints h.at_interval v.numbers
      (fun _ => scanInterval_more s v.numbers hk) h.early.more hspells, fun _ => ?_,
      fun hend => absurd hend hmore.ne⟩
    refine ⟨h.at_interval.goes id rfl rfl rfl, ⟨h.early.m_eq, h.early.noOverlaps⟩,
      h.held.of_entries rfl rfl (fun _ _ _ hm => hm) fun _ _ => rfl, h.noIntervals, hstored, ?_⟩
    change s.k + 1 = _
    rw [h.k_eq]
    push_cast
    rfl
  · have hk : s.noIntervals ≤ s.k := by
      rw [h.k_eq, h.noIntervals]
      omega
    have hall : done + 1 = c.intervals.length := hend
    rw [hall] at hstored
    refine ⟨_, fun text hspells => phaseTurn_ints h.at_interval v.numbers
      (fun _ => scanInterval_last s v.numbers hk) h.early.more hspells,
      fun hmore => absurd hall hmore.ne, fun _ => ?_⟩
    exact ⟨h.at_interval.goes
        (fun f => { f with timingTableStart := false, snifferStart := true }) rfl rfl rfl,
      ⟨h.early.m_eq, h.early.noOverlaps⟩,
      ⟨h.held.of_entries rfl rfl (fun _ _ _ hm => hm) fun _ _ => rfl, h.noIntervals, hstored⟩⟩

/-- The intervals left are read, and lead to the sniffers. -/
theorem InIntervals.read_intervals (h : InIntervals c s done) {vs : List IntervalEntry}
    (hvs : c.intervals.drop done = vs) (hne : vs ≠ []) :
    ∃ t, Reads phaseTurn (vs.map IntervalEntry.row) s t ∧ AtSniffers c t := by
  induction vs generalizing done s with
  | nil => exact absurd rfl hne
  | cons v vs ih =>
      obtain ⟨hv, hrest, hcount⟩ := next_of_drop hvs
      obtain ⟨t, hturn, hmore, hend⟩ := h.read_interval hv
      cases vs with
      | nil =>
          refine ⟨t, Reads.single hturn, hend ?_⟩
          rw [List.length_nil] at hcount
          omega
      | cons v' vs =>
          have hin : InIntervals c t (done + 1) := by
            refine hmore ?_
            rw [List.length_cons] at hcount
            omega
          obtain ⟨u, hreads, hat⟩ := ih hin hrest (List.cons_ne_nil _ _)
          exact ⟨u, Reads.row hturn hreads, hat⟩

/-- The intervals are read, with their number. -/
theorem AtIntervals.read_intervals (h : AtIntervals c s) :
    ∃ t, Reads phaseTurn (intRow [(c.intervals.length : Int)] ::
        c.intervals.map IntervalEntry.row) s t ∧ AtSniffers c t := by
  obtain ⟨t, hturn, hsome, hnone⟩ := h.read_count
  by_cases hnil : c.intervals = []
  · rw [hnil, List.map_nil]
    rw [hnil] at hturn
    exact ⟨t, Reads.single hturn, hnone hnil⟩
  · obtain ⟨u, hreads, hat⟩ := (hsome hnil).read_intervals List.drop_zero hnil
    exact ⟨u, Reads.row hturn hreads, hat⟩

/-! ## Sniffers and overlaps -/

/-- What a change of the tables behind the intervals leaves. -/
theorem IntervalsHeld.of_entries {t : PhaseReader} (h : IntervalsHeld c s)
    (hphases : t.noPhases = s.noPhases) (htimings : t.noTimings = s.noTimings)
    (htiming : ∀ i timing, s.TimingHeld i timing → t.TimingHeld i timing)
    (hentry : t.phaseTimes = s.phaseTimes) (hintervals : t.noIntervals = s.noIntervals)
    (hinterval : t.intervalEntry = s.intervalEntry) : IntervalsHeld c t where
  plans := h.plans.of_entries hphases htimings (fun _ _ _ hm => htiming _ _ hm)
    fun _ _ => by rw [hentry]
  noIntervals := hintervals.trans h.noIntervals
  intervals := by
    rw [hinterval]
    exact h.intervals

/-- The sniffers are read, and lead to the overlaps. -/
theorem AtSniffers.read (h : AtSniffers c s) :
    ∃ t, (∀ text, SpellsRow c.sniffers.row text → phaseTurn s text = (t, false)) ∧
      AtOverlaps c t := by
  refine ⟨{ scanSniffers s c.sniffers.numbers with line := s.line + 1 }, fun text hspells =>
    phaseTurn_ints (t := scanSniffers s c.sniffers.numbers) h.at_sniffers c.sniffers.numbers
      (fun _ => rfl) h.early.more hspells, ?_⟩
  exact ⟨h.at_sniffers.goes (fun f => { f with snifferStart := false, overlapStart := true })
      rfl rfl rfl, ⟨h.early.m_eq, h.early.noOverlaps⟩,
    h.held.of_entries rfl rfl (fun _ _ hm => hm) rfl rfl rfl, rfl⟩

/-- An overlap is stored behind those that have been read. -/
theorem InOverlaps.stored (h : InOverlaps c s done) {o : OverlapEntry}
    (ho : c.overlaps[done]? = some o) :
    Held (scanOverlap s o.numbers).overlapEntry c.overlaps (done + 1) := by
  rw [overlapEntry_scanOverlap, h.m_eq]
  exact h.overlaps.push ho

/-- The last overlap ends the reading. -/
theorem InOverlaps.read_last (h : InOverlaps c s done) {o : OverlapEntry}
    (ho : c.overlaps[done]? = some o) (hlast : done + 1 = c.overlaps.length) :
    ∃ t, (∀ text, SpellsRow o.row text → (phaseTurn s text).1 = t) ∧ t.Holds c := by
  have hend : s.m + 1 > s.noOverlaps := by
    rw [h.m_eq, h.noOverlaps]
    omega
  have hstored := h.stored ho
  rw [hlast] at hstored
  refine ⟨scanOverlap s o.numbers, fun text hspells => ?_, ?_⟩
  · rw [phaseTurn_at h.at_overlap]
    change (if s.m + 1 > s.noOverlaps then (scanOverlap s ((scanned text).ints 6), true)
      else _).1 = _
    rw [if_pos hend, scanned_ints hspells]
    rfl
  · exact ⟨h.held.of_entries rfl rfl (fun _ _ hm => hm) rfl rfl rfl, h.sniffers, h.noOverlaps,
      hstored⟩

/-- An overlap with others behind it is read. -/
theorem InOverlaps.read_overlap (h : InOverlaps c s done) {o : OverlapEntry}
    (ho : c.overlaps[done]? = some o) (hmore : done + 1 < c.overlaps.length) :
    ∃ t, (∀ text, SpellsRow o.row text → phaseTurn s text = (t, false)) ∧
      InOverlaps c t (done + 1) := by
  have hgoes : s.m + 1 ≤ s.noOverlaps := by
    rw [h.m_eq, h.noOverlaps]
    omega
  have hstored := h.stored ho
  refine ⟨{ scanOverlap s o.numbers with line := s.line + 1 }, fun text hspells =>
    phaseTurn_ints (t := scanOverlap s o.numbers) h.at_overlap o.numbers (fun _ => rfl) hgoes
      hspells, ?_⟩
  refine ⟨⟨Nat.lt_succ_of_lt h.at_overlap.body, h.at_overlap.flags⟩,
    h.held.of_entries rfl rfl (fun _ _ hm => hm) rfl rfl rfl, h.sniffers, h.noOverlaps, hstored, ?_⟩
  change s.m + 1 = _
  rw [h.m_eq]
  push_cast
  rfl

/-- The overlaps left are read, and behind the last the tables hold the configuration. -/
theorem InOverlaps.read_overlaps (h : InOverlaps c s done) {os : List OverlapEntry}
    (hos : c.overlaps.drop done = os) (hne : os ≠ []) :
    ∃ t, ReadsToEnd phaseTurn (os.map OverlapEntry.row) s t ∧ t.Holds c := by
  induction os generalizing done s with
  | nil => exact absurd rfl hne
  | cons o os ih =>
      obtain ⟨ho, hrest, hcount⟩ := next_of_drop hos
      cases os with
      | nil =>
          have hlast : done + 1 = c.overlaps.length := by
            rw [List.length_nil] at hcount
            omega
          obtain ⟨t, hturn, hholds⟩ := h.read_last ho hlast
          exact ⟨t, ReadsToEnd.last hturn, hholds⟩
      | cons o' os =>
          have hmore : done + 1 < c.overlaps.length := by
            rw [List.length_cons] at hcount
            omega
          obtain ⟨t, hturn, hin⟩ := h.read_overlap ho hmore
          obtain ⟨u, hreads, hholds⟩ := ih hin hrest (List.cons_ne_nil _ _)
          exact ⟨u, ReadsToEnd.row hturn hreads, hholds⟩

/-- The overlaps are read, with their number. -/
theorem AtOverlaps.read_overlaps (h : AtOverlaps c s) :
    ∃ t, ReadsToEnd phaseTurn (intRow [(c.overlaps.length : Int)] ::
        c.overlaps.map OverlapEntry.row) s t ∧ t.Holds c := by
  have hheld : ∀ vs, IntervalsHeld c (scanOverlaps s vs) :=
    fun vs => h.held.of_entries rfl rfl (fun _ _ hm => hm) rfl rfl rfl
  by_cases hnil : c.overlaps = []
  · have hzero : (c.overlaps.length : Int) = 0 := by
      rw [hnil]
      rfl
    rw [hnil, List.map_nil]
    refine ⟨scanOverlaps s [0], ReadsToEnd.last fun text hspells => ?_, ?_⟩
    · rw [phaseTurn_at h.at_overlaps]
      change (if (1 : Int) > (scanOverlaps s ((scanned text).ints 1)).noOverlaps then
        (scanOverlaps s ((scanned text).ints 1), true) else _).1 = _
      rw [scanned_ints hspells]
      rfl
    · refine ⟨hheld _, h.sniffers, hzero.symm, ?_⟩
      rw [hnil]
      exact Held.zero _ _
  · have hpos := List.length_pos_of_ne_nil hnil
    have hgoes : (1 : Int) ≤ c.overlaps.length := by omega
    have hin : InOverlaps c
        { scanOverlaps s [(c.overlaps.length : Int)] with line := s.line + 1 } 0 :=
      ⟨h.at_overlaps.goes (fun f => { f with overlapStart := false }) rfl rfl rfl,
        h.held.of_entries rfl rfl (fun _ _ hm => hm) rfl rfl rfl, h.sniffers, rfl, Held.zero _ _,
        rfl⟩
    obtain ⟨t, hreads, hholds⟩ := hin.read_overlaps List.drop_zero hnil
    refine ⟨t, ReadsToEnd.row (fun text hspells => ?_) hreads, hholds⟩
    exact phaseTurn_ints (t := scanOverlaps s [(c.overlaps.length : Int)]) h.at_overlaps
      [(c.overlaps.length : Int)] (fun _ => rfl) hgoes hspells

end Reading

/-! ## The first two lines -/

/-- The first two lines lead to the first plan. -/
theorem reads_head (c : PhaseFile) (uninitialised : PhaseReader) :
    ∃ t, Reads phaseTurn [intRow [(c.noPhases : Int)], intRow [(c.plans.length : Int)]]
        (startPhases uninitialised) t ∧ AtPlan c t 0 := by
  let s := startPhases uninitialised
  let s1 := { s with line := 2, noPhases := (c.noPhases : Int) }
  let s2 :=
    { s1 with
      line := 3
      noTimings := (c.plans.length : Int)
      i := 1
      timingPlanStart := true }
  have h1 : ∀ text, SpellsRow (intRow [(c.noPhases : Int)]) text →
      phaseTurn s text = (s1, false) := by
    intro text hspells
    have hints := scanned_ints hspells
    have hline : scanPhaseLine s (scanned text) = { s with noPhases := (c.noPhases : Int) } := by
      change { s with noPhases := ((scanned text).ints 1).getD 0 s.noPhases } = _
      rw [hints]
      rfl
    rw [phaseTurn, hline]
    rfl
  have h2 : ∀ text, SpellsRow (intRow [(c.plans.length : Int)]) text →
      phaseTurn s1 text = (s2, false) := by
    intro text hspells
    have hints := scanned_ints hspells
    have hline : scanPhaseLine s1 (scanned text) =
        { s1 with noTimings := (c.plans.length : Int), i := 1, timingPlanStart := true } := by
      change { s1 with
        noTimings := ((scanned text).ints 1).getD 0 s1.noTimings
        i := 1
        timingPlanStart := true } = _
      rw [hints]
      rfl
    rw [phaseTurn, hline]
    rfl
  refine ⟨s2, Reads.row h1 (Reads.single h2), ⟨Nat.lt_succ_self 2, rfl⟩, ⟨rfl, rfl⟩,
    ⟨rfl, rfl, ?_, ?_⟩, rfl⟩
  · exact fun m p hm _ => absurd hm (Nat.not_lt_zero m)
  · exact fun m p hm _ => absurd hm (Nat.not_lt_zero m)

/-- The rows of a configuration lead the reader to its end with the configuration in its
tables. -/
theorem readsToEnd_rows {c : PhaseFile} (hvalid : c.Valid) (uninitialised : PhaseReader) :
    ∃ t, ReadsToEnd phaseTurn c.rows (startPhases uninitialised) t ∧ t.Holds c := by
  have hplans : c.plans ≠ [] := List.ne_nil_of_length_pos hvalid.plans_pos
  obtain ⟨s1, hhead, hat1⟩ := reads_head c uninitialised
  obtain ⟨s2, hread2, hat2⟩ := hat1.read_plans hvalid List.drop_zero hplans
  obtain ⟨s3, hread3, hat3⟩ := hat2.read_intervals
  obtain ⟨s4, hturn, hat4⟩ := hat3.read
  obtain ⟨s5, hread5, hholds⟩ := hat4.read_overlaps
  have hall := (hhead.append (hread2.append (hread3.append (Reads.single hturn)))).toEnd hread5
  have hrows : c.rows = ([intRow [(c.noPhases : Int)], intRow [(c.plans.length : Int)]] ++
      (c.plans.flatMap PlanEntry.rows ++ ((intRow [(c.intervals.length : Int)] ::
        c.intervals.map IntervalEntry.row) ++ [c.sniffers.row]))) ++
      (intRow [(c.overlaps.length : Int)] :: c.overlaps.map OverlapEntry.row) := by
    simp only [PhaseFile.rows, PhaseFile.planRows, List.append_assoc, List.cons_append,
      List.nil_append]
  rw [hrows]
  exact ⟨s5, hall, hholds⟩

/-- **Recovery of `phase.cfg`**: the reader recovers every configuration from a file that has
it, whatever its variables held before. -/
theorem readPhaseConfig_holds {c : PhaseFile} (hvalid : c.Valid) {file : List Char}
    (hfile : c.InFile file) (uninitialised : PhaseReader) :
    (readPhaseConfig uninitialised file).Holds c := by
  obtain ⟨t, hread, hholds⟩ := readsToEnd_rows hvalid uninitialised
  rw [readPhaseConfig, readLines_readsToEnd hread hfile]
  exact hholds

/-- One actuated plan for one phase, with intervals and one overlap. -/
def actuatedFile (intervals : List IntervalEntry) : PhaseFile where
  noPhases := 1
  plans := [⟨.actuated, [⟨2, -1, -1, 4, 1 / 2⟩]⟩]
  intervals := intervals
  sniffers := ⟨1, 0, 0⟩
  overlaps := [⟨9, 9, 1, 8, 2, 7⟩]

/-- Its lines, number by number. -/
def actuatedLines (intervals : List IntervalEntry) : List (List (List Char)) :=
  [[['1']], [['1']], [['1']], [['2'], ['-', '1'], ['-', '1'], ['4', '.', '0'], ['0', '.', '5']],
    [printInt intervals.length]] ++ intervals.map (fun v => v.numbers.map printInt) ++
    [[['1'], ['0'], ['0']], [['1']], [['9'], ['9'], ['1'], ['8'], ['2'], ['7']]]

def actuatedText (intervals : List IntervalEntry) : List Char :=
  (actuatedLines intervals).flatMap fun tokens => lineText tokens ++ ['\n']

/-- Printed integers spell a row of them. -/
theorem spelt_intRow (vs : List Int) : List.Forall₂ Field.Spelt (intRow vs) (vs.map printInt) := by
  rw [intRow, List.forall₂_map_left_iff, List.forall₂_map_right_iff]
  exact List.forall₂_same.mpr fun v _ => speltInteger_printInt v

/-- The printed lines have the configuration of one actuated plan. -/
theorem inFile_actuated {intervals : List IntervalEntry}
    (hfit : (actuatedLines intervals).all (fitsLine 100) = true) :
    (actuatedFile intervals).InFile (actuatedText intervals) := by
  have hone : SpeltDecimal (-1) ['-', '1'] := by
    have hdigits : Nat.ofDigitChars 10 ['1'] 0 = 1 := by decide
    refine ⟨true, ['1'], [], false, rfl, List.cons_ne_nil _ _, List.all_eq_true.mp rfl,
      List.all_eq_true.mp rfl, by decide, ?_⟩
    norm_num [decimalValue, hdigits]
  have hyellow : SpeltDecimal 4 ['4', '.', '0'] := by
    have hdigits : Nat.ofDigitChars 10 ['4', '0'] 0 = 40 := by decide
    refine ⟨false, ['4'], ['0'], true, rfl, List.cons_ne_nil _ _, List.all_eq_true.mp rfl,
      List.all_eq_true.mp rfl, by decide, ?_⟩
    norm_num [decimalValue, hdigits]
  have hred : SpeltDecimal (1 / 2) ['0', '.', '5'] := by
    have hdigits : Nat.ofDigitChars 10 ['0', '5'] 0 = 5 := by decide
    refine ⟨false, ['0'], ['5'], true, rfl, List.cons_ne_nil _ _, List.all_eq_true.mp rfl,
      List.all_eq_true.mp rfl, by decide, ?_⟩
    norm_num [decimalValue, hdigits]
  have hphase : List.Forall₂ Field.Spelt (PhaseTimes.row ⟨2, -1, -1, 4, 1 / 2⟩)
      [['2'], ['-', '1'], ['-', '1'], ['4', '.', '0'], ['0', '.', '5']] :=
    .cons (speltInteger_printInt 2) (.cons hone (.cons hone (.cons hyellow (.cons hred .nil))))
  have hrows : List.Forall₂ (List.Forall₂ Field.Spelt) (intervals.map IntervalEntry.row)
      (intervals.map fun v => v.numbers.map printInt) := by
    rw [List.forall₂_map_left_iff, List.forall₂_map_right_iff]
    exact List.forall₂_same.mpr fun v _ => spelt_intRow v.numbers
  have hsplit : (actuatedFile intervals).rows = [intRow [1], intRow [1], intRow [1],
      PhaseTimes.row ⟨2, -1, -1, 4, 1 / 2⟩, intRow [(intervals.length : Int)]] ++
      intervals.map IntervalEntry.row ++
      [intRow [1, 0, 0], intRow [1], intRow [9, 9, 1, 8, 2, 7]] := by
    simp [PhaseFile.rows, PhaseFile.planRows, actuatedFile, PlanEntry.rows, PlanTiming.numbers,
      SnifferEntry.row, SnifferEntry.numbers, OverlapEntry.row, OverlapEntry.numbers]
  refine renders_lineText ?_ hfit
  rw [hsplit]
  refine List.rel_append (List.rel_append (.cons (spelt_intRow [1]) (.cons (spelt_intRow [1])
    (.cons (spelt_intRow [1]) (.cons hphase (.cons (spelt_intRow [(intervals.length : Int)])
    .nil))))) hrows) ?_
  exact .cons (spelt_intRow [1, 0, 0]) (.cons (spelt_intRow [1])
    (.cons (spelt_intRow [9, 9, 1, 8, 2, 7]) .nil))

/-- That configuration is valid if its numbers are values of `int`. -/
theorem valid_actuated {intervals : List IntervalEntry}
    (hints : ∀ row ∈ (actuatedFile intervals).rows, ∀ f ∈ row, f.FitsInt) :
    (actuatedFile intervals).Valid := by
  refine ⟨le_rfl, le_rfl, fun p hp => ?_, hints⟩
  obtain rfl := List.mem_singleton.mp hp
  rfl

/-- It is recovered, with an interval from a quarter to seven on. -/
theorem readPhaseConfig_actuated :
    (readPhaseConfig blankPhases (actuatedText [⟨6, 45, 1⟩])).Holds (actuatedFile [⟨6, 45, 1⟩]) :=
  readPhaseConfig_holds (valid_actuated (by decide)) (inFile_actuated (by decide)) _

end RfsAtsc.Phases
