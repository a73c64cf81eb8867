import RfsAtsc.PhasesLoop
import Mathlib.Tactic.Linarith

/-!
# Overlaps and what they note

An overlap answers from its parents' colours and from one moment with its row of the
plan, noted when a parent turns yellow or both come to red.  The loop has one such
note for all its overlaps.  Here the answer and the noting are functions of the
colours alone, and the loop is shown to compute them.
-/

namespace RfsAtsc.Phases

open EventMachine

/-! ## The answer of one overlap -/

/-- What the overlap loop finds: the clock, and the colours and times of the phases. -/
structure Sight where
  timeSec : ℚ
  signalColor : Int → Int
  timeLeft : Int → ℚ

/-- `start_parentsred` and `jj`. -/
structure Note where
  moment : ℚ
  row : Int

def Note.yellowEnd (plan : TimingPlan) (n : Note) : ℚ := n.moment + plan.yellowLength n.row

def Note.allRedEnd (plan : TimingPlan) (n : Note) : ℚ := n.moment + plan.allRedLength n.row

def Note.clearEnd (plan : TimingPlan) (n : Note) : ℚ :=
  n.moment + (plan.yellowLength n.row + plan.allRedLength n.row)

/-- Green or yellow, of the phases an overlap is omitted for. -/
def Overlap.Omitted (o : Overlap) (e : Sight) : Prop :=
  o.omitPhase1 ≠ 0 ∧
      (e.signalColor o.omitPhase1 = SIGNAL_STATE_GREEN ∨
        e.signalColor o.omitPhase1 = SIGNAL_STATE_YELLOW) ∨
    o.omitPhase2 ≠ 0 ∧
      (e.signalColor o.omitPhase2 = SIGNAL_STATE_GREEN ∨
        e.signalColor o.omitPhase2 = SIGNAL_STATE_YELLOW)

instance (o : Overlap) (e : Sight) : Decidable (o.Omitted e) :=
  inferInstanceAs (Decidable (_ ∨ _))

/-- The parent whose yellow or clearance begins, seen from the colours before. -/
def Overlap.notedParent (o : Overlap) (before : Int → Int) (e : Sight) : Option Int :=
  if e.signalColor o.parentPhase1 = SIGNAL_STATE_GREEN ∨
      e.signalColor o.parentPhase2 = SIGNAL_STATE_GREEN then none
  else if e.signalColor o.parentPhase2 = SIGNAL_STATE_YELLOW then
    if before o.parentPhase2 ≠ SIGNAL_STATE_YELLOW then some o.parentPhase2 else none
  else if e.signalColor o.parentPhase1 = SIGNAL_STATE_YELLOW then
    if e.signalColor o.parentPhase2 = SIGNAL_STATE_RED ∧
        before o.parentPhase1 ≠ SIGNAL_STATE_YELLOW then some o.parentPhase1
    else none
  else if e.signalColor o.parentPhase1 = SIGNAL_STATE_RED ∧
      e.signalColor o.parentPhase2 = SIGNAL_STATE_RED ∧
      before o.parentPhase1 = SIGNAL_STATE_YELLOW ∧
      before o.parentPhase2 = SIGNAL_STATE_RED ∧ e.timeLeft o.parentPhase2 ≤ 90 then
    some o.parentPhase1
  else none

/-- The note after an overlap's turn. -/
def Overlap.noteAfter (plan : TimingPlan) (o : Overlap) (before : Int → Int) (e : Sight)
    (n : Note) : Note :=
  match o.notedParent before e with
  | some parent => { moment := e.timeSec, row := plan.findRow parent n.row }
  | none => n

/-- The colour and the time that an overlap phase gets from its parents, with the note
after its turn. -/
def Overlap.color (plan : TimingPlan) (o : Overlap) (e : Sight) (n : Note) : Int × ℚ :=
  if e.signalColor o.parentPhase1 = SIGNAL_STATE_GREEN ∨
      e.signalColor o.parentPhase2 = SIGNAL_STATE_GREEN then (SIGNAL_STATE_GREEN, 0)
  else if e.signalColor o.parentPhase2 = SIGNAL_STATE_YELLOW then
    (SIGNAL_STATE_YELLOW, n.yellowEnd plan - e.timeSec)
  else if e.signalColor o.parentPhase1 = SIGNAL_STATE_YELLOW then
    if e.signalColor o.parentPhase2 = SIGNAL_STATE_RED ∧ e.timeSec ≤ n.clearEnd plan then
      (SIGNAL_STATE_GREEN, 0)
    else (SIGNAL_STATE_YELLOW, n.yellowEnd plan - e.timeSec)
  else if e.signalColor o.parentPhase1 = SIGNAL_STATE_RED ∧
      e.signalColor o.parentPhase2 = SIGNAL_STATE_RED then
    (if e.timeSec ≤ n.allRedEnd plan then SIGNAL_STATE_GREEN else SIGNAL_STATE_RED, 0)
  else (SIGNAL_STATE_RED, 0)

/-- The colour and the time that it gets. -/
def Overlap.answer (plan : TimingPlan) (o : Overlap) (e : Sight) (n : Note) : Int × ℚ :=
  if o.Omitted e then (SIGNAL_STATE_RED, 0) else o.color plan e n

/-! ## One turn of the loop -/

/-- The note that the overlaps share. -/
def Signals.noted (v : Signals) : Note := { moment := v.startParentsred, row := v.jj }

/-- The variables show an overlap the colours of a sight, and those before. -/
structure Signals.Sees (v : Signals) (o : Overlap) (i : Int) (before : Int → Int) (e : Sight) :
    Prop where
  parent1 : v.signalColor o.parentPhase1 = e.signalColor o.parentPhase1
  parent2 : v.signalColor o.parentPhase2 = e.signalColor o.parentPhase2
  omit1 : v.signalColor o.omitPhase1 = e.signalColor o.omitPhase1
  omit2 : v.signalColor o.omitPhase2 = e.signalColor o.omitPhase2
  left2 : v.timeLeft o.parentPhase2 = e.timeLeft o.parentPhase2
  old1 : v.oldParentColor1 i = before o.parentPhase1
  old2 : v.oldParentColor2 i = before o.parentPhase2

/-- An overlap phase is none of the phases that an overlap looks at. -/
structure Overlap.Apart (o : Overlap) (phase : Int) : Prop where
  parent1 : o.parentPhase1 ≠ phase
  parent2 : o.parentPhase2 ≠ phase
  omit1 : o.omitPhase1 ≠ phase
  omit2 : o.omitPhase2 ≠ phase

/-- What a turn has done: the overlap phase has an answer, the note is a new one, and the
parents' colours are kept. -/
structure Turned (o : Overlap) (i : Int) (v v' : Signals) (n : Note) (shown : Int × ℚ)
    (e : Sight) : Prop where
  noted : v'.noted = n
  signalColor : v'.signalColor = Function.update v.signalColor o.overlapPhase shown.1
  timeLeft : v'.timeLeft = Function.update v.timeLeft o.overlapPhase shown.2
  old1 : v'.oldParentColor1 =
    Function.update v.oldParentColor1 i (e.signalColor o.parentPhase1)
  old2 : v'.oldParentColor2 =
    Function.update v.oldParentColor2 i (e.signalColor o.parentPhase2)

/-- The variables with another note. -/
def Signals.withNote (v : Signals) (n : Note) : Signals :=
  { v with startParentsred := n.moment, jj := n.row }

theorem Signals.show_ite (v : Signals) (phase : Int) (c : Prop) [Decidable c] (x y : Int × ℚ) :
    v.show phase (if c then x else y).1 (if c then x else y).2 =
      if c then v.show phase x.1 x.2 else v.show phase y.1 y.2 := by
  split
  · rfl
  · rfl

/-- The colour from the parents is the overlap's own function of what it sees and of the
note. -/
theorem overlapColor_eq (plan : TimingPlan) {o : Overlap} {i : Int} {before : Int → Int}
    {e : Sight} {v : Signals} (h : v.Sees o i before e) :
    overlapColor plan o e.timeSec v i =
      (v.withNote (o.noteAfter plan before e v.noted)).show o.overlapPhase
        (o.color plan e (o.noteAfter plan before e v.noted)).1
        (o.color plan e (o.noteAfter plan before e v.noted)).2 := by
  obtain ⟨hparent1, hparent2, _, _, hleft2, hold1, hold2⟩ := h
  unfold overlapColor Overlap.noteAfter Overlap.notedParent Overlap.color
  rw [hparent1, hparent2, hleft2, hold1, hold2]
  by_cases hgreen : e.signalColor o.parentPhase1 = SIGNAL_STATE_GREEN ∨
      e.signalColor o.parentPhase2 = SIGNAL_STATE_GREEN
  · simp only [if_pos hgreen]
    rfl
  simp only [if_neg hgreen]
  by_cases hyellow2 : e.signalColor o.parentPhase2 = SIGNAL_STATE_YELLOW
  · simp only [if_pos hyellow2]
    by_cases hbegins : before o.parentPhase2 ≠ SIGNAL_STATE_YELLOW
    · simp only [if_pos hbegins]
      rfl
    · simp only [if_neg hbegins]
      rfl
  simp only [if_neg hyellow2]
  by_cases hyellow1 : e.signalColor o.parentPhase1 = SIGNAL_STATE_YELLOW
  · simp only [if_pos hyellow1]
    by_cases hred2 : e.signalColor o.parentPhase2 = SIGNAL_STATE_RED
    · simp only [hred2, true_and, sub_le_iff_le_add', Signals.show_ite]
      by_cases hbegins : before o.parentPhase1 ≠ SIGNAL_STATE_YELLOW
      · simp only [if_pos hbegins]
        rfl
      · simp only [if_neg hbegins]
        rfl
    · simp only [hred2, false_and]
      rfl
  simp only [if_neg hyellow1]
  by_cases hred : e.signalColor o.parentPhase1 = SIGNAL_STATE_RED ∧
      e.signalColor o.parentPhase2 = SIGNAL_STATE_RED
  · simp only [hred.1, hred.2, true_and, and_self, if_true, sub_le_iff_le_add']
    by_cases hbegins : before o.parentPhase1 = SIGNAL_STATE_YELLOW ∧
        before o.parentPhase2 = SIGNAL_STATE_RED ∧ e.timeLeft o.parentPhase2 ≤ 90
    · simp only [if_pos hbegins]
      rfl
    · simp only [if_neg hbegins]
      rfl
  · have hnone : ¬ (e.signalColor o.parentPhase1 = SIGNAL_STATE_RED ∧
        e.signalColor o.parentPhase2 = SIGNAL_STATE_RED ∧
        before o.parentPhase1 = SIGNAL_STATE_YELLOW ∧
        before o.parentPhase2 = SIGNAL_STATE_RED ∧ e.timeLeft o.parentPhase2 ≤ 90) :=
      fun h => hred ⟨h.1, h.2.1⟩
    simp only [if_neg hred, if_neg hnone]
    rfl

/-- One turn of the loop, for an overlap phase that its overlap does not look at. -/
theorem overlapTurn_spec (cfg : PhasesConfig) {i : Int} {before : Int → Int} {e : Sight}
    {v : Signals} (h : v.Sees (cfg.overlap i) i before e)
    (hapart : (cfg.overlap i).Apart (cfg.overlap i).overlapPhase) :
    Turned (cfg.overlap i) i v (overlapTurn cfg e.timeSec v i)
      ((cfg.overlap i).noteAfter cfg.plan before e v.noted)
      ((cfg.overlap i).answer cfg.plan e
        ((cfg.overlap i).noteAfter cfg.plan before e v.noted)) e := by
  generalize ho : cfg.overlap i = o at h hapart ⊢
  have hcolor := overlapColor_eq cfg.plan h
  generalize o.noteAfter cfg.plan before e v.noted = n at hcolor ⊢
  have hlooks1 (color : Int) : Function.update v.signalColor o.overlapPhase color o.omitPhase1 =
      e.signalColor o.omitPhase1 := by
    rw [Function.update_of_ne hapart.omit1, h.omit1]
  have hlooks2 (color : Int) : Function.update v.signalColor o.overlapPhase color o.omitPhase2 =
      e.signalColor o.omitPhase2 := by
    rw [Function.update_of_ne hapart.omit2, h.omit2]
  have hparent1 (color : Int) :
      Function.update v.signalColor o.overlapPhase color o.parentPhase1 =
        e.signalColor o.parentPhase1 := by
    rw [Function.update_of_ne hapart.parent1, h.parent1]
  have hparent2 (color : Int) :
      Function.update v.signalColor o.overlapPhase color o.parentPhase2 =
        e.signalColor o.parentPhase2 := by
    rw [Function.update_of_ne hapart.parent2, h.parent2]
  unfold overlapTurn
  simp only [ho, hcolor, Signals.IsOn, Signals.show, Signals.withNote, hlooks1, hlooks2,
    hparent1, hparent2]
  by_cases homit : o.Omitted e
  · rw [Overlap.answer, if_pos homit]
    unfold Overlap.Omitted at homit
    rw [if_pos homit]
    exact ⟨rfl, Function.update_idem _ _ _, Function.update_idem _ _ _, rfl, rfl⟩
  · rw [Overlap.answer, if_neg homit]
    unfold Overlap.Omitted at homit
    rw [if_neg homit]
    exact ⟨rfl, rfl, rfl, rfl, rfl⟩

/-! ## The whole loop -/

/-- The overlap phases are apart from each other and from all the phases that the
overlaps look at. -/
structure PhasesConfig.Distinct (cfg : PhasesConfig) : Prop where
  few : cfg.noOverlaps ≤ MAX_OVERLAPS
  overlaps : ∀ i ∈ upTo cfg.noOverlaps, ∀ j ∈ upTo cfg.noOverlaps, i ≠ j →
    (cfg.overlap i).overlapPhase ≠ (cfg.overlap j).overlapPhase
  apart : ∀ i ∈ upTo cfg.noOverlaps, ∀ j ∈ upTo cfg.noOverlaps,
    (cfg.overlap i).Apart (cfg.overlap j).overlapPhase

/-- The note after the turns of the overlaps up to `m`. -/
def PhasesConfig.noteTo (cfg : PhasesConfig) (before : Int → Int) (e : Sight) (n : Note)
    (m : Nat) : Note :=
  (upTo m).foldl (fun n i => (cfg.overlap i).noteAfter cfg.plan before e n) n

theorem PhasesConfig.noteTo_succ (cfg : PhasesConfig) (before : Int → Int) (e : Sight)
    (n : Note) (m : Nat) :
    cfg.noteTo before e n (m + 1) =
      (cfg.overlap ((m : Int) + 1)).noteAfter cfg.plan before e (cfg.noteTo before e n m) := by
  simp only [PhasesConfig.noteTo, upTo_succ, List.foldl_append, List.foldl_cons, List.foldl_nil]

/-- The variables hold a sight, and the parents' colours before it. -/
structure Signals.Holds (v : Signals) (cfg : PhasesConfig) (before : Int → Int) (e : Sight) :
    Prop where
  signalColor : v.signalColor = e.signalColor
  timeLeft : v.timeLeft = e.timeLeft
  old : ∀ i ∈ upTo cfg.noOverlaps,
    v.oldParentColor1 i = before (cfg.overlap i).parentPhase1 ∧
      v.oldParentColor2 i = before (cfg.overlap i).parentPhase2

/-- What the turns up to `m` have done. -/
structure LoopDone (cfg : PhasesConfig) (before : Int → Int) (e : Sight) (v v' : Signals)
    (m : Nat) : Prop where
  noted : v'.noted = cfg.noteTo before e v.noted m
  frame : ∀ phase, (∀ i ∈ upTo m, phase ≠ (cfg.overlap i).overlapPhase) →
    v'.signalColor phase = e.signalColor phase ∧ v'.timeLeft phase = e.timeLeft phase
  answer : ∀ k : Nat, (k : Int) ∈ upTo m →
    (v'.signalColor (cfg.overlap k).overlapPhase, v'.timeLeft (cfg.overlap k).overlapPhase) =
      (cfg.overlap k).answer cfg.plan e (cfg.noteTo before e v.noted k)
  kept : ∀ i ∈ upTo m,
    v'.oldParentColor1 i = e.signalColor (cfg.overlap i).parentPhase1 ∧
      v'.oldParentColor2 i = e.signalColor (cfg.overlap i).parentPhase2
  still : ∀ i, i ∉ upTo m →
    v'.oldParentColor1 i = v.oldParentColor1 i ∧ v'.oldParentColor2 i = v.oldParentColor2 i

theorem mem_upTo_succ {m : Nat} {i : Int} : i ∈ upTo (m + 1) ↔ i ∈ upTo m ∨ i = m + 1 := by
  rw [upTo_succ, List.mem_append, List.mem_singleton]

theorem upTo_subset {m n : Nat} (h : m ≤ n) {i : Int} (hi : i ∈ upTo m) : i ∈ upTo n := by
  have hrange := mem_upTo.mp hi
  exact mem_upTo.mpr ⟨hrange.1, by omega⟩

theorem succ_not_mem_upTo (m : Nat) : (m : Int) + 1 ∉ upTo m := by
  intro hin
  have hrange := mem_upTo.mp hin
  omega

theorem succ_mem_upTo {m n : Nat} (h : m < n) : (m : Int) + 1 ∈ upTo n :=
  mem_upTo.mpr ⟨by omega, by omega⟩

/-- The next overlap still sees the colours of the sight, and those before. -/
theorem LoopDone.sees {cfg : PhasesConfig} {before : Int → Int} {e : Sight} {v v' : Signals}
    {m : Nat} (hcfg : cfg.Distinct) (hv : v.Holds cfg before e) (hm : m < cfg.noOverlaps)
    (h : LoopDone cfg before e v v' m) :
    v'.Sees (cfg.overlap (m + 1)) (m + 1) before e := by
  have hmem := succ_mem_upTo hm
  have hnew := succ_not_mem_upTo m
  have hlook (phase : Int)
      (hphase : ∀ j ∈ upTo cfg.noOverlaps, phase ≠ (cfg.overlap j).overlapPhase) :=
    h.frame phase fun i hi => hphase i (upTo_subset hm.le hi)
  have hapart := hcfg.apart _ hmem
  exact {
    parent1 := (hlook _ fun j hj => (hapart j hj).parent1).1
    parent2 := (hlook _ fun j hj => (hapart j hj).parent2).1
    omit1 := (hlook _ fun j hj => (hapart j hj).omit1).1
    omit2 := (hlook _ fun j hj => (hapart j hj).omit2).1
    left2 := (hlook _ fun j hj => (hapart j hj).parent2).2
    old1 := by rw [(h.still _ hnew).1, (hv.old _ hmem).1]
    old2 := by rw [(h.still _ hnew).2, (hv.old _ hmem).2] }

/-- Each turn adds its answer and leaves those before it. -/
theorem LoopDone.turn {cfg : PhasesConfig} {before : Int → Int} {e : Sight} {v v' : Signals}
    {m : Nat} (hcfg : cfg.Distinct) (hv : v.Holds cfg before e) (hm : m < cfg.noOverlaps)
    (h : LoopDone cfg before e v v' m) :
    LoopDone cfg before e v (overlapTurn cfg e.timeSec v' (m + 1)) (m + 1) := by
  have hmem := succ_mem_upTo hm
  have hturned := overlapTurn_spec cfg (h.sees hcfg hv hm) (hcfg.apart _ hmem _ hmem)
  rw [h.noted, ← cfg.noteTo_succ] at hturned
  constructor
  case noted => exact hturned.noted
  case frame =>
      intro phase hphase
      have hother := hphase _ (mem_upTo_succ.mpr (.inr rfl))
      rw [hturned.signalColor, hturned.timeLeft, Function.update_of_ne hother,
        Function.update_of_ne hother]
      exact h.frame phase fun i hi => hphase i (mem_upTo_succ.mpr (.inl hi))
  case answer =>
      intro k hk
      rw [hturned.signalColor, hturned.timeLeft]
      rcases mem_upTo_succ.mp hk with hk | hk
      · have hne : (k : Int) ≠ m + 1 := fun heq => succ_not_mem_upTo m (heq ▸ hk)
        have hother := hcfg.overlaps _ (upTo_subset hm.le hk) _ hmem hne
        rw [Function.update_of_ne hother, Function.update_of_ne hother]
        exact h.answer k hk
      · obtain rfl : k = m + 1 := by omega
        simp only [Nat.cast_add, Nat.cast_one, Function.update_self]
  case kept =>
      intro i hi
      rw [hturned.old1, hturned.old2]
      by_cases heq : i = m + 1
      · rw [heq, Function.update_self, Function.update_self]
        exact ⟨rfl, rfl⟩
      · rw [Function.update_of_ne heq, Function.update_of_ne heq]
        exact h.kept i ((mem_upTo_succ.mp hi).resolve_right heq)
  case still =>
      intro i hi
      have hne : i ≠ m + 1 := fun heq => hi (mem_upTo_succ.mpr (.inr heq))
      rw [hturned.old1, hturned.old2, Function.update_of_ne hne, Function.update_of_ne hne]
      exact h.still i fun hin => hi (mem_upTo_succ.mpr (.inl hin))

/-- The overlap loop gives each overlap the answer to its sight and to the note after its
own turn, and leaves the colours of the other phases. -/
theorem overlapLoop_spec {cfg : PhasesConfig} {before : Int → Int} {e : Sight} {v : Signals}
    (hcfg : cfg.Distinct) (hv : v.Holds cfg before e) :
    LoopDone cfg before e v (overlapLoop cfg e.timeSec v) cfg.noOverlaps := by
  have hupto : ∀ m ≤ cfg.noOverlaps,
      LoopDone cfg before e v ((upTo m).foldl (overlapTurn cfg e.timeSec) v) m := by
    intro m
    induction m with
    | zero =>
        intro _
        constructor
        case noted => rfl
        case frame =>
            intro phase _
            exact ⟨congrFun hv.signalColor phase, congrFun hv.timeLeft phase⟩
        case answer => exact fun k hk => absurd hk List.not_mem_nil
        case kept => exact fun i hi => absurd hi List.not_mem_nil
        case still => exact fun i _ => ⟨rfl, rfl⟩
    | succ m ih =>
        intro hm
        rw [upTo_succ, List.foldl_append]
        exact (ih (by omega)).turn hcfg hv hm
  exact hupto _ (Nat.le_refl _)

end RfsAtsc.Phases
