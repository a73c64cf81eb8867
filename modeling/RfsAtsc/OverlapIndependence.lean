import RfsAtsc.OverlapNotes

/-!
# Are the overlaps independent?

The history of the phases' colours drives the overlap loop.  All that passes from one
turn to the next, besides each overlap's own memory of its parents, is the note that
the overlaps share.  So an overlap has the colour and the time that it would have as the
only one wherever it looks up no note, or the last moment noted and the last parent
noted are its own.
-/

namespace RfsAtsc.Phases

open EventMachine

/-! ## The overlap loop over a history -/

/-- The overlap loop, turn after turn, over what it finds. -/
def overlapMachine (cfg : PhasesConfig) : Machine Signals Sight Unit where
  step v e :=
    (overlapLoop cfg e.timeSec { v with signalColor := e.signalColor, timeLeft := e.timeLeft },
      [])

/-! ## What a history notes -/

/-- One thing noted: the moment, and the parent. -/
structure Noted where
  moment : ℚ
  parent : Int

/-- The note after one more. -/
def Note.take (plan : TimingPlan) (n : Note) (x : Noted) : Note :=
  { moment := x.moment, row := plan.findRow x.parent n.row }

/-- What an overlap notes at a turn. -/
def Overlap.notes (o : Overlap) (before : Int → Int) (e : Sight) : List Noted :=
  (o.notedParent before e).toList.map fun parent => { moment := e.timeSec, parent := parent }

/-- What the overlaps up to `m` note at a turn, in the order of the loop. -/
def PhasesConfig.notes (cfg : PhasesConfig) (m : Nat) (before : Int → Int) (e : Sight) :
    List Noted :=
  (upTo m).flatMap fun i => (cfg.overlap i).notes before e

/-- Before the first turn no colour is known. -/
def unknownColors : Int → Int := fun _ => -1

/-- The colours that the last turn found. -/
def colorsAfter (before : Int → Int) : List Sight → Int → Int
  | [] => before
  | e :: es => colorsAfter e.signalColor es

/-- What is noted along a history. -/
def notesAlong (notes : (Int → Int) → Sight → List Noted) (before : Int → Int) :
    List Sight → List Noted
  | [] => []
  | e :: es => notes before e ++ notesAlong notes e.signalColor es

/-- The last sight has the last colours. -/
theorem colorsAfter_concat (before : Int → Int) (es : List Sight) (e : Sight) :
    colorsAfter before (es ++ [e]) = e.signalColor := by
  induction es generalizing before with
  | nil => rfl
  | cons f es ih => exact ih f.signalColor

/-- What is noted along a history, and then in the last sight. -/
theorem notesAlong_concat (notes : (Int → Int) → Sight → List Noted) (before : Int → Int)
    (es : List Sight) (e : Sight) :
    notesAlong notes before (es ++ [e]) =
      notesAlong notes before es ++ notes (colorsAfter before es) e := by
  induction es generalizing before with
  | nil => exact List.append_nil _
  | cons f es ih =>
      rw [List.cons_append, notesAlong, ih, notesAlong, List.append_assoc]
      rfl

/-- All that is noted in a history and, at the turn after it, by the overlaps up to `k`. -/
def PhasesConfig.allNotes (cfg : PhasesConfig) (k : Nat) (pre : List Sight) (e : Sight) :
    List Noted :=
  notesAlong (cfg.notes cfg.noOverlaps) unknownColors pre ++
    cfg.notes k (colorsAfter unknownColors pre) e

/-- What one overlap notes in a history and at the turn after it. -/
def Overlap.ownNotes (o : Overlap) (pre : List Sight) (e : Sight) : List Noted :=
  notesAlong o.notes unknownColors pre ++ o.notes (colorsAfter unknownColors pre) e

/-- An overlap takes its notes one after the other. -/
theorem Overlap.noteAfter_eq (plan : TimingPlan) (o : Overlap) (before : Int → Int) (e : Sight)
    (n : Note) : o.noteAfter plan before e n = (o.notes before e).foldl (Note.take plan) n := by
  rw [Overlap.noteAfter, Overlap.notes]
  cases o.notedParent before e with
  | none => rfl
  | some parent => rfl

/-- So does the loop, up to an overlap's place. -/
theorem PhasesConfig.noteTo_eq (cfg : PhasesConfig) (before : Int → Int) (e : Sight) (n : Note)
    (m : Nat) : cfg.noteTo before e n m = (cfg.notes m before e).foldl (Note.take cfg.plan) n := by
  induction m with
  | zero => rfl
  | succ m ih =>
      rw [cfg.noteTo_succ, ih, Overlap.noteAfter_eq, ← List.foldl_append, PhasesConfig.notes,
        PhasesConfig.notes, upTo_succ, List.flatMap_append, List.flatMap_singleton]

/-- The loop's variables after a history: the note is the last of what was noted, and each
overlap keeps the colours that the last turn found of its parents. -/
structure Tracks (cfg : PhasesConfig) (first : Note) (history : List Sight) (v : Signals) :
    Prop where
  noted : v.noted =
    (notesAlong (cfg.notes cfg.noOverlaps) unknownColors history).foldl (Note.take cfg.plan) first
  old : ∀ i ∈ upTo cfg.noOverlaps,
    v.oldParentColor1 i = colorsAfter unknownColors history (cfg.overlap i).parentPhase1 ∧
      v.oldParentColor2 i = colorsAfter unknownColors history (cfg.overlap i).parentPhase2

/-- After the loop each overlap has been answered from the notes up to its place. -/
theorem Tracks.loopDone {cfg : PhasesConfig} {first : Note} {history : List Sight} {v : Signals}
    (hcfg : cfg.Distinct) (h : Tracks cfg first history v) (e : Sight) :
    LoopDone cfg (colorsAfter unknownColors history) e
      { v with signalColor := e.signalColor, timeLeft := e.timeLeft }
      ((overlapMachine cfg).step v e).1 cfg.noOverlaps :=
  overlapLoop_spec hcfg ⟨rfl, rfl, h.old⟩

/-- A turn keeps track of what has been noted. -/
theorem Tracks.step {cfg : PhasesConfig} (hcfg : cfg.Distinct) {first : Note}
    (history : List Sight) (v : Signals) (e : Sight) (h : Tracks cfg first history v) :
    Tracks cfg first (history ++ [e]) ((overlapMachine cfg).step v e).1 where
  noted := by
    have hnoted : ({ v with signalColor := e.signalColor, timeLeft := e.timeLeft } :
        Signals).noted = v.noted := rfl
    rw [(h.loopDone hcfg e).noted, hnoted, cfg.noteTo_eq, h.noted, ← List.foldl_append,
      notesAlong_concat]
  old := by
    rw [colorsAfter_concat]
    exact (h.loopDone hcfg e).kept

/-- At the start nothing has been noted. -/
theorem Tracks.boot {cfg : PhasesConfig} (hcfg : cfg.Distinct) (uninitialised : PhasesState) :
    Tracks cfg uninitialised.noted [] (Phases.boot uninitialised).toSignals where
  noted := rfl
  old := by
    intro i hi
    have hrange := mem_upTo.mp hi
    have hfew : 1 ≤ i ∧ i ≤ (MAX_OVERLAPS : Int) :=
      ⟨hrange.1, hrange.2.trans (by exact_mod_cast hcfg.few)⟩
    exact ⟨if_pos hfew, if_pos hfew⟩

/-- After every history the loop's note is the last one of any overlap. -/
theorem tracks_run {cfg : PhasesConfig} (hcfg : cfg.Distinct) (uninitialised : PhasesState)
    (history : List Sight) :
    Tracks cfg uninitialised.noted history
      ((overlapMachine cfg).run (boot uninitialised).toSignals history) :=
  (overlapMachine cfg).inv_run (Tracks.boot hcfg uninitialised) (Tracks.step hcfg) history

/-- What overlap `k` gets at a turn: the answer to all that was noted up to its place. -/
theorem overlap_answer {cfg : PhasesConfig} (hcfg : cfg.Distinct) (uninitialised : PhasesState)
    {k : Nat} (hk : (k : Int) ∈ upTo cfg.noOverlaps) (pre : List Sight) (e : Sight) :
    let v := ((overlapMachine cfg).step
      ((overlapMachine cfg).run (boot uninitialised).toSignals pre) e).1
    (v.signalColor (cfg.overlap k).overlapPhase, v.timeLeft (cfg.overlap k).overlapPhase) =
      (cfg.overlap k).answer cfg.plan e
        ((cfg.allNotes k pre e).foldl (Note.take cfg.plan) uninitialised.noted) := by
  have htracks := tracks_run hcfg uninitialised pre
  have hanswer := (htracks.loopDone hcfg e).answer k hk
  have hnoted := htracks.noted
  simp only [Signals.noted] at hanswer hnoted
  rw [hnoted, cfg.noteTo_eq, ← List.foldl_append] at hanswer
  exact hanswer

/-! ## The last of the notes -/

/-- The plan has a row for the phase. -/
def TimingPlan.Lists (plan : TimingPlan) (phase : Int) : Prop :=
  ∃ j ∈ upTo plan.noPhases, plan.phaseIndex j = phase

instance (plan : TimingPlan) (phase : Int) : Decidable (plan.Lists phase) :=
  inferInstanceAs (Decidable (∃ j ∈ upTo plan.noPhases, plan.phaseIndex j = phase))

/-- The moment of the last note. -/
def lastMoment (xs : List Noted) : Option ℚ := xs.getLast?.map Noted.moment

/-- The parent of the last note for which the plan has a row. -/
def TimingPlan.lastParent (plan : TimingPlan) (xs : List Noted) : Option Int :=
  (xs.filter fun x => plan.Lists x.parent).getLast?.map Noted.parent

/-- A phase is looked up in the plan whatever row was there before. -/
theorem TimingPlan.findRow_of_lists {plan : TimingPlan} {phase : Int} (h : plan.Lists phase)
    (jj : Int) : plan.findRow phase jj = plan.findRow phase 0 := by
  unfold TimingPlan.Lists at h
  unfold TimingPlan.findRow
  generalize upTo plan.noPhases = js at h ⊢
  induction js using List.reverseRecOn with
  | nil => exact absurd h (by simp)
  | append_singleton js j ih =>
      rw [List.foldl_append, List.foldl_append, List.foldl_cons, List.foldl_cons,
        List.foldl_nil, List.foldl_nil]
      by_cases hrow : plan.phaseIndex j = phase
      · rw [if_pos hrow, if_pos hrow]
      · rw [if_neg hrow, if_neg hrow]
        obtain ⟨i, hi, hlists⟩ := h
        refine ih ⟨i, (List.mem_append.mp hi).resolve_right fun hlast => ?_, hlists⟩
        rw [List.mem_singleton.mp hlast] at hlists
        exact hrow hlists

/-- A phase without a row leaves the row that was there before. -/
theorem TimingPlan.findRow_of_not_lists {plan : TimingPlan} {phase : Int}
    (h : ¬ plan.Lists phase) (jj : Int) : plan.findRow phase jj = jj := by
  unfold TimingPlan.Lists at h
  unfold TimingPlan.findRow
  generalize upTo plan.noPhases = js at h ⊢
  induction js using List.reverseRecOn with
  | nil => rfl
  | append_singleton js j ih =>
      rw [List.foldl_append, List.foldl_cons, List.foldl_nil, if_neg ?_]
      · exact ih fun ⟨i, hi, hlists⟩ => h ⟨i, List.mem_append_left _ hi, hlists⟩
      · exact fun hrow => h ⟨j, List.mem_append_right _ List.mem_cons_self, hrow⟩

/-- What is left of many notes is the last moment and the row of the last parent that has
one. -/
theorem foldl_take (plan : TimingPlan) (first : Note) (xs : List Noted) :
    xs.foldl (Note.take plan) first =
      { moment := (lastMoment xs).getD first.moment
        row := ((plan.lastParent xs).map fun parent => plan.findRow parent 0).getD first.row } := by
  induction xs using List.reverseRecOn with
  | nil => rfl
  | append_singleton xs x ih =>
      have hmoment : lastMoment (xs ++ [x]) = some x.moment := by
        rw [lastMoment, List.getLast?_concat]
        rfl
      rw [List.foldl_append, List.foldl_cons, List.foldl_nil, ih, Note.take, hmoment]
      by_cases hlists : plan.Lists x.parent
      · rw [TimingPlan.findRow_of_lists hlists, TimingPlan.lastParent, List.filter_append,
          List.filter_cons_of_pos (by simpa using hlists), List.filter_nil, List.getLast?_concat]
        rfl
      · rw [TimingPlan.findRow_of_not_lists hlists]
        simp only [TimingPlan.lastParent, List.filter_append, List.filter_cons, List.filter_nil,
          hlists, decide_false, Bool.false_eq_true, if_false, List.append_nil]
        rfl

/-! ## When two notes give one answer -/

/-- Two notes give an overlap the same colour and time: where they matter, they end the
yellow at the same time, or are on the same side of the clearance. -/
def Overlap.Agree (plan : TimingPlan) (o : Overlap) (e : Sight) (n m : Note) : Prop :=
  o.Omitted e ∨
    if e.signalColor o.parentPhase1 = SIGNAL_STATE_GREEN ∨
        e.signalColor o.parentPhase2 = SIGNAL_STATE_GREEN then True
    else if e.signalColor o.parentPhase2 = SIGNAL_STATE_YELLOW then
      n.yellowEnd plan = m.yellowEnd plan
    else if e.signalColor o.parentPhase1 = SIGNAL_STATE_YELLOW then
      if e.signalColor o.parentPhase2 = SIGNAL_STATE_RED then
        e.timeSec ≤ n.clearEnd plan ∧ e.timeSec ≤ m.clearEnd plan ∨
          n.clearEnd plan < e.timeSec ∧ m.clearEnd plan < e.timeSec ∧
            n.yellowEnd plan = m.yellowEnd plan
      else n.yellowEnd plan = m.yellowEnd plan
    else if e.signalColor o.parentPhase1 = SIGNAL_STATE_RED ∧
        e.signalColor o.parentPhase2 = SIGNAL_STATE_RED then
      (e.timeSec ≤ n.allRedEnd plan ↔ e.timeSec ≤ m.allRedEnd plan)
    else True

/-- Two yellows are left for as long when they end together. -/
private theorem yellow_eq_iff (plan : TimingPlan) (e : Sight) (n m : Note) :
    (SIGNAL_STATE_YELLOW, n.yellowEnd plan - e.timeSec) =
        (SIGNAL_STATE_YELLOW, m.yellowEnd plan - e.timeSec) ↔
      n.yellowEnd plan = m.yellowEnd plan := by
  rw [Prod.mk.injEq, sub_left_inj]
  exact and_iff_right rfl

/-- Two answers in a clearance are the same before both ends, or behind both with one yellow. -/
private theorem clear_eq_iff (plan : TimingPlan) (e : Sight) (n m : Note) :
    (if e.timeSec ≤ n.clearEnd plan then (SIGNAL_STATE_GREEN, (0 : ℚ))
        else (SIGNAL_STATE_YELLOW, n.yellowEnd plan - e.timeSec)) =
      (if e.timeSec ≤ m.clearEnd plan then (SIGNAL_STATE_GREEN, (0 : ℚ))
        else (SIGNAL_STATE_YELLOW, m.yellowEnd plan - e.timeSec)) ↔
      e.timeSec ≤ n.clearEnd plan ∧ e.timeSec ≤ m.clearEnd plan ∨
        n.clearEnd plan < e.timeSec ∧ m.clearEnd plan < e.timeSec ∧
          n.yellowEnd plan = m.yellowEnd plan := by
  have hcolors : SIGNAL_STATE_GREEN ≠ SIGNAL_STATE_YELLOW := by decide
  by_cases hn : e.timeSec ≤ n.clearEnd plan
  · have hn' : ¬ n.clearEnd plan < e.timeSec := not_lt.mpr hn
    by_cases hm : e.timeSec ≤ m.clearEnd plan
    · rw [if_pos hn, if_pos hm]
      grind
    · rw [if_pos hn, if_neg hm]
      grind
  · have hn' : n.clearEnd plan < e.timeSec := not_le.mp hn
    by_cases hm : e.timeSec ≤ m.clearEnd plan
    · have hm' : ¬ m.clearEnd plan < e.timeSec := not_lt.mpr hm
      rw [if_neg hn, if_pos hm]
      grind
    · rw [if_neg hn, if_neg hm, yellow_eq_iff]
      have hm' : m.clearEnd plan < e.timeSec := not_le.mp hm
      grind

/-- Two answers behind a red are the same on the same side of both ends. -/
private theorem allRed_eq_iff (plan : TimingPlan) (e : Sight) (n m : Note) :
    (if e.timeSec ≤ n.allRedEnd plan then SIGNAL_STATE_GREEN else SIGNAL_STATE_RED, (0 : ℚ)) =
        (if e.timeSec ≤ m.allRedEnd plan then SIGNAL_STATE_GREEN else SIGNAL_STATE_RED, (0 : ℚ)) ↔
      (e.timeSec ≤ n.allRedEnd plan ↔ e.timeSec ≤ m.allRedEnd plan) := by
  have hcolors : SIGNAL_STATE_GREEN ≠ SIGNAL_STATE_RED := by decide
  rw [Prod.mk.injEq, and_iff_left rfl]
  by_cases hn : e.timeSec ≤ n.allRedEnd plan
  · rw [if_pos hn]
    grind
  · rw [if_neg hn]
    grind

/-- Two notes give the same answer exactly when they agree. -/
theorem Overlap.answer_eq_iff (plan : TimingPlan) (o : Overlap) (e : Sight) (n m : Note) :
    o.answer plan e n = o.answer plan e m ↔ o.Agree plan e n m := by
  unfold Overlap.answer Overlap.Agree Overlap.color
  by_cases homit : o.Omitted e
  · rw [if_pos homit, if_pos homit]
    exact iff_of_true rfl (.inl homit)
  rw [if_neg homit, if_neg homit, or_iff_right homit]
  by_cases hgreen : e.signalColor o.parentPhase1 = SIGNAL_STATE_GREEN ∨
      e.signalColor o.parentPhase2 = SIGNAL_STATE_GREEN
  · simp only [if_pos hgreen]
  simp only [if_neg hgreen]
  by_cases hyellow2 : e.signalColor o.parentPhase2 = SIGNAL_STATE_YELLOW
  · simp only [if_pos hyellow2]
    exact yellow_eq_iff plan e n m
  simp only [if_neg hyellow2]
  by_cases hyellow1 : e.signalColor o.parentPhase1 = SIGNAL_STATE_YELLOW
  · simp only [if_pos hyellow1]
    by_cases hred2 : e.signalColor o.parentPhase2 = SIGNAL_STATE_RED
    · simp only [hred2, true_and, if_true]
      exact clear_eq_iff plan e n m
    · simp only [hred2, false_and, if_false]
      exact yellow_eq_iff plan e n m
  simp only [if_neg hyellow1]
  by_cases hred : e.signalColor o.parentPhase1 = SIGNAL_STATE_RED ∧
      e.signalColor o.parentPhase2 = SIGNAL_STATE_RED
  · simp only [if_pos hred]
    exact allRed_eq_iff plan e n m
  · simp only [if_neg hred]

/-! ## One overlap and all of them -/

/-- Overlap `k` as the only one. -/
def PhasesConfig.only (cfg : PhasesConfig) (k : Nat) : PhasesConfig :=
  { cfg with noOverlaps := 1, overlap := fun _ => cfg.overlap k }

/-- An overlap configured alone is distinct from its phases as it was. -/
theorem PhasesConfig.Distinct.only {cfg : PhasesConfig} (hcfg : cfg.Distinct) {k : Nat}
    (hk : (k : Int) ∈ upTo cfg.noOverlaps) : (cfg.only k).Distinct where
  few := Nat.one_le_iff_ne_zero.mpr (by decide)
  overlaps := by
    intro i hi j hj hne
    have hi1 := mem_upTo.mp hi
    have hj1 := mem_upTo.mp hj
    simp only [PhasesConfig.only, Nat.cast_one] at hi1 hj1
    omega
  apart := fun _ _ _ _ => hcfg.apart _ hk _ hk

/-- At a turn overlap `k` gets what it gets as the only overlap, after the same history. -/
def Independent (cfg : PhasesConfig) (uninitialised : PhasesState) (k : Nat)
    (pre : List Sight) (v : Signals) (e : Sight) : Prop :=
  let alone := (overlapMachine (cfg.only k)).run (boot uninitialised).toSignals pre
  let all := ((overlapMachine cfg).step v e).1
  let alone := ((overlapMachine (cfg.only k)).step alone e).1
  all.signalColor (cfg.overlap k).overlapPhase = alone.signalColor (cfg.overlap k).overlapPhase ∧
    all.timeLeft (cfg.overlap k).overlapPhase = alone.timeLeft (cfg.overlap k).overlapPhase

/-- Alone, overlap `k` finds its own notes. -/
theorem PhasesConfig.allNotes_only (cfg : PhasesConfig) (k : Nat) (pre : List Sight) (e : Sight) :
    (cfg.only k).allNotes 1 pre e = (cfg.overlap k).ownNotes pre e := by
  have hone : (cfg.only k).notes 1 = (cfg.overlap k).notes := by
    funext before e
    exact List.append_nil _
  change notesAlong ((cfg.only k).notes 1) unknownColors pre ++ _ = _
  rw [hone]
  rfl

/-- What overlap `k` gets as the only one. -/
theorem alone_answer {cfg : PhasesConfig} (hcfg : cfg.Distinct) (uninitialised : PhasesState)
    {k : Nat} (hk : (k : Int) ∈ upTo cfg.noOverlaps) (pre : List Sight) (e : Sight) :
    let v := ((overlapMachine (cfg.only k)).step
      ((overlapMachine (cfg.only k)).run (boot uninitialised).toSignals pre) e).1
    (v.signalColor (cfg.overlap k).overlapPhase, v.timeLeft (cfg.overlap k).overlapPhase) =
      (cfg.overlap k).answer cfg.plan e
        (((cfg.overlap k).ownNotes pre e).foldl (Note.take cfg.plan) uninitialised.noted) := by
  have hone : ((1 : Nat) : Int) ∈ upTo (cfg.only k).noOverlaps := List.mem_singleton.mpr rfl
  have halone := overlap_answer (hcfg.only hk) uninitialised hone pre e
  rw [cfg.allNotes_only] at halone
  exact halone

/-- An overlap is independent exactly where all that was noted and what it noted itself give
it one answer. -/
theorem independent_iff_agree {cfg : PhasesConfig} (hcfg : cfg.Distinct)
    (uninitialised : PhasesState) {k : Nat} (hk : (k : Int) ∈ upTo cfg.noOverlaps)
    (pre : List Sight) (e : Sight) :
    Independent cfg uninitialised k pre
        ((overlapMachine cfg).run (boot uninitialised).toSignals pre) e ↔
      (cfg.overlap k).Agree cfg.plan e
        ((cfg.allNotes k pre e).foldl (Note.take cfg.plan) uninitialised.noted)
        (((cfg.overlap k).ownNotes pre e).foldl (Note.take cfg.plan) uninitialised.noted) := by
  unfold Independent
  rw [← Overlap.answer_eq_iff, ← Prod.mk.injEq]
  exact Eq.congr (overlap_answer hcfg uninitialised hk pre e)
    (alone_answer hcfg uninitialised hk pre e)

/-! ## Histories that leave an overlap its notes -/

/-- An overlap's colour or time depends on a note: it is not omitted, neither parent is
green, and one is yellow or both are red. -/
def Overlap.LooksUp (o : Overlap) (e : Sight) : Prop :=
  ¬ o.Omitted e ∧ e.signalColor o.parentPhase1 ≠ SIGNAL_STATE_GREEN ∧
    e.signalColor o.parentPhase2 ≠ SIGNAL_STATE_GREEN ∧
    (e.signalColor o.parentPhase1 = SIGNAL_STATE_YELLOW ∨
      e.signalColor o.parentPhase2 = SIGNAL_STATE_YELLOW ∨
      e.signalColor o.parentPhase1 = SIGNAL_STATE_RED ∧
        e.signalColor o.parentPhase2 = SIGNAL_STATE_RED)

instance (o : Overlap) (e : Sight) : Decidable (o.LooksUp e) :=
  inferInstanceAs (Decidable (_ ∧ _))

/-- When overlap `k` looks up a note, the last moment noted is one that it noted itself, and
so is the last parent noted that the plan has a row for. -/
def Undisturbed (cfg : PhasesConfig) (k : Nat) (pre : List Sight) (e : Sight) : Prop :=
  (cfg.overlap k).LooksUp e →
    lastMoment (cfg.allNotes k pre e) = lastMoment ((cfg.overlap k).ownNotes pre e) ∧
      cfg.plan.lastParent (cfg.allNotes k pre e) =
        cfg.plan.lastParent ((cfg.overlap k).ownNotes pre e)

instance (cfg : PhasesConfig) (k : Nat) (pre : List Sight) (e : Sight) :
    Decidable (Undisturbed cfg k pre e) :=
  inferInstanceAs (Decidable (_ → _))

/-- Where it looks up nothing, any two notes give one answer. -/
theorem Overlap.agree_of_not_looksUp {plan : TimingPlan} {o : Overlap} {e : Sight}
    (h : ¬ o.LooksUp e) (n m : Note) : o.Agree plan e n m := by
  unfold Overlap.Agree
  by_cases homit : o.Omitted e
  · exact .inl homit
  · right
    unfold Overlap.LooksUp at h
    split_ifs
    all_goals grind

/-- An overlap left its notes is independent. -/
theorem independent_of_undisturbed {cfg : PhasesConfig} (hcfg : cfg.Distinct)
    (uninitialised : PhasesState) {k : Nat} (hk : (k : Int) ∈ upTo cfg.noOverlaps)
    {pre : List Sight} {e : Sight} (h : Undisturbed cfg k pre e) :
    Independent cfg uninitialised k pre
      ((overlapMachine cfg).run (boot uninitialised).toSignals pre) e := by
  rw [independent_iff_agree hcfg uninitialised hk]
  by_cases hlooks : (cfg.overlap k).LooksUp e
  · obtain ⟨hmoment, hparent⟩ := h hlooks
    rw [foldl_take, foldl_take, hmoment, hparent]
    exact (Overlap.answer_eq_iff _ _ _ _ _).mp rfl
  · exact Overlap.agree_of_not_looksUp hlooks _ _

end RfsAtsc.Phases
