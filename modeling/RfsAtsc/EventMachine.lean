import Mathlib.Data.List.Induction

/-!
# Event machines

A machine that takes one event at a time, moves to a new state and sends some
outputs.  A property of a run is a property of its steps, and a step is seen with
the history of the events before it: `Along` says that every step of a run has the
property.  Two properties that agree wherever an invariant holds agree along every
run (`along_congr`).
-/

namespace EventMachine

variable {State Event Output : Type}

/-- A machine: what an event does to the state, and what it sends. -/
structure Machine (State Event Output : Type) where
  step : State → Event → State × List Output

variable (m : Machine State Event Output)

/-- The state after a list of events. -/
def Machine.run (s : State) (es : List Event) : State :=
  es.foldl (fun s e => (m.step s e).1) s

@[simp] theorem Machine.run_nil (s : State) : m.run s [] = s := rfl

@[simp] theorem Machine.run_concat (s : State) (es : List Event) (e : Event) :
    m.run s (es ++ [e]) = (m.step (m.run s es) e).1 := by
  simp [Machine.run]

/-- What a list of events makes the machine send, in order. -/
def Machine.outputs (s : State) : List Event → List Output
  | [] => []
  | e :: es => (m.step s e).2 ++ Machine.outputs (m.step s e).1 es

@[simp] theorem Machine.outputs_concat (s : State) (es : List Event) (e : Event) :
    m.outputs s (es ++ [e]) = m.outputs s es ++ (m.step (m.run s es) e).2 := by
  induction es generalizing s with
  | nil => simp [Machine.outputs]
  | cons f es ih =>
      rw [List.cons_append, Machine.outputs, ih, Machine.outputs, List.append_assoc]
      rfl

/-- Every step of the run has the property: `P history state event`, with the
events and the state before the step. -/
def Machine.Along (s : State) (P : List Event → State → Event → Prop) (es : List Event) : Prop :=
  ∀ pre e post, es = pre ++ e :: post → P pre (m.run s pre) e

@[simp] theorem Machine.along_nil (s : State) (P : List Event → State → Event → Prop) :
    m.Along s P [] := by
  intro pre e post hsplit
  exact absurd hsplit (by simp)

/-- The first step of a run and the rest, which has it in its history. -/
theorem Machine.along_cons_iff (s : State) (P : List Event → State → Event → Prop) (e : Event)
    (es : List Event) :
    m.Along s P (e :: es) ↔
      P [] s e ∧ m.Along (m.step s e).1 (fun pre => P (e :: pre)) es := by
  constructor
  · intro h
    refine ⟨h [] e es rfl, ?_⟩
    intro pre e' post hsplit
    exact h (e :: pre) e' post (by rw [hsplit, List.cons_append])
  · intro h pre e' post hsplit
    cases pre with
    | nil =>
        obtain ⟨rfl, rfl⟩ := List.cons.inj hsplit
        exact h.1
    | cons f pre =>
        obtain ⟨rfl, hrest⟩ := List.cons.inj hsplit
        exact h.2 pre e' post hrest

/-- An invariant of states and their histories holds after every run. -/
theorem Machine.inv_run {Inv : List Event → State → Prop} {s : State} (hinit : Inv [] s)
    (hstep : ∀ pre t e, Inv pre t → Inv (pre ++ [e]) (m.step t e).1) (es : List Event) :
    Inv es (m.run s es) := by
  induction es using List.reverseRecOn with
  | nil => exact hinit
  | append_singleton es e ih =>
      rw [m.run_concat]
      exact hstep es _ e ih

/-- A property of steps that an invariant gives holds along every run. -/
theorem Machine.along_of_inv {Inv : List Event → State → Prop}
    {P : List Event → State → Event → Prop} {s : State} (hinit : Inv [] s)
    (hstep : ∀ pre t e, Inv pre t → Inv (pre ++ [e]) (m.step t e).1)
    (hgives : ∀ pre t e, Inv pre t → P pre t e) (es : List Event) : m.Along s P es :=
  fun pre e _ _ => hgives pre _ e (m.inv_run hinit hstep pre)

/-- Two properties of steps that agree under an invariant agree along a run. -/
theorem Machine.along_congr {Inv : List Event → State → Prop}
    {P Q : List Event → State → Event → Prop} {s : State} (hinit : Inv [] s)
    (hstep : ∀ pre t e, Inv pre t → Inv (pre ++ [e]) (m.step t e).1)
    (hagree : ∀ pre t e, Inv pre t → (P pre t e ↔ Q pre t e)) (es : List Event) :
    m.Along s P es ↔ m.Along s Q es := by
  constructor
  · intro h pre e post hsplit
    exact (hagree _ _ _ (m.inv_run hinit hstep pre)).mp (h pre e post hsplit)
  · intro h pre e post hsplit
    exact (hagree _ _ _ (m.inv_run hinit hstep pre)).mpr (h pre e post hsplit)

/-- A run's own steps lead to each of its states. -/
theorem Machine.Along.init {m : Machine State Event Output} {s : State}
    {P : List Event → State → Event → Prop} {pre post : List Event}
    (h : m.Along s P (pre ++ post)) : m.Along s P pre := by
  intro pre' e post' hsplit
  exact h pre' e (post' ++ post) (by rw [hsplit, List.append_assoc, List.cons_append])

/-- An invariant of states and their histories that only the allowed steps keep holds after
every run of them. -/
theorem Machine.history_inv_run {Inv : List Event → State → Prop}
    {Allowed : List Event → State → Event → Prop} {s : State} (hinit : Inv [] s)
    (hstep : ∀ pre t e, Inv pre t → Allowed pre t e → Inv (pre ++ [e]) (m.step t e).1)
    (es : List Event) (hes : m.Along s Allowed es) : Inv es (m.run s es) := by
  induction es using List.reverseRecOn with
  | nil => exact hinit
  | append_singleton es e ih =>
      rw [m.run_concat]
      exact hstep es _ e (ih hes.init) (hes es e [] rfl)

/-- A property that such an invariant gives on the allowed steps holds along every run of
them. -/
theorem Machine.along_of_history {Inv : List Event → State → Prop}
    {Allowed P : List Event → State → Event → Prop} {s : State} (hinit : Inv [] s)
    (hstep : ∀ pre t e, Inv pre t → Allowed pre t e → Inv (pre ++ [e]) (m.step t e).1)
    (hgives : ∀ pre t e, Inv pre t → Allowed pre t e → P pre t e) (es : List Event)
    (hes : m.Along s Allowed es) : m.Along s P es := by
  intro pre e post hsplit
  have hpre : m.Along s Allowed pre := by
    rw [hsplit] at hes
    exact hes.init
  exact hgives pre _ e (m.history_inv_run hinit hstep pre hpre) (hes pre e post hsplit)

/-- Two properties of steps that agree on the allowed steps, under such an invariant, agree
along every run of allowed steps. -/
theorem Machine.along_congr_of_history {Inv : List Event → State → Prop}
    {Allowed P Q : List Event → State → Event → Prop} {s : State} (hinit : Inv [] s)
    (hstep : ∀ pre t e, Inv pre t → Allowed pre t e → Inv (pre ++ [e]) (m.step t e).1)
    (hagree : ∀ pre t e, Inv pre t → Allowed pre t e → (P pre t e ↔ Q pre t e))
    (es : List Event) (hes : m.Along s Allowed es) : m.Along s P es ↔ m.Along s Q es := by
  have hsame : m.Along s (fun pre t e => P pre t e ↔ Q pre t e) es :=
    m.along_of_history hinit hstep hagree es hes
  constructor
  · intro h pre e post hsplit
    exact (hsame pre e post hsplit).mp (h pre e post hsplit)
  · intro h pre e post hsplit
    exact (hsame pre e post hsplit).mpr (h pre e post hsplit)

/-- A property that an invariant of states gives on the allowed steps holds along every run
of them. -/
theorem Machine.along_of_along {Inv : State → Prop}
    {Allowed P : List Event → State → Event → Prop} {s : State} (hinit : Inv s)
    (hstep : ∀ pre t e, Inv t → Allowed pre t e → Inv (m.step t e).1)
    (hgives : ∀ pre t e, Inv t → Allowed pre t e → P pre t e) (es : List Event)
    (hes : m.Along s Allowed es) : m.Along s P es := by
  let Hist : List Event → State → Prop := fun _ => Inv
  have hgives' : ∀ pre t e, Hist pre t → Allowed pre t e → P pre t e := hgives
  exact m.along_of_history hinit hstep hgives' es hes

/-- Two properties of steps that agree on the allowed steps, under an invariant these
keep, agree along every run of allowed steps. -/
theorem Machine.along_congr_of_along {Inv : State → Prop}
    {Allowed P Q : List Event → State → Event → Prop} {s : State} (hinit : Inv s)
    (hstep : ∀ pre t e, Inv t → Allowed pre t e → Inv (m.step t e).1)
    (hagree : ∀ pre t e, Inv t → Allowed pre t e → (P pre t e ↔ Q pre t e)) (es : List Event)
    (hes : m.Along s Allowed es) : m.Along s P es ↔ m.Along s Q es := by
  let Hist : List Event → State → Prop := fun _ => Inv
  have hagree' : ∀ pre t e, Hist pre t → Allowed pre t e → (P pre t e ↔ Q pre t e) := hagree
  exact m.along_congr_of_history hinit hstep hagree' es hes

/-! ## Since when -/

section CameWith

variable {m} {α : Type} {obs : State → α} {s : State}

/-- What is observed of the state after the events came with `f`: nothing after `f` changed
it, and before `f`, if anything came before, it was another. -/
def Machine.CameWith (m : Machine State Event Output) (obs : State → α) (s : State)
    (es : List Event) (f : Event) : Prop :=
  ∃ pre post, es = pre ++ f :: post ∧
    (pre = [] ∨ obs (m.run s pre) ≠ obs (m.run s es)) ∧
    ∀ mid rest, post = mid ++ rest → obs (m.run s (pre ++ f :: mid)) = obs (m.run s es)

theorem Machine.CameWith.mem {es : List Event} {f : Event} (h : m.CameWith obs s es f) :
    f ∈ es := by
  obtain ⟨pre, post, rfl, _⟩ := h
  exact List.mem_append_right _ List.mem_cons_self

/-- What changes with an event, or is there with the first, came with it. -/
theorem Machine.cameWith_new {es : List Event} {e f : Event}
    (hnew : es = [] ∨ obs (m.run s es) ≠ obs (m.run s (es ++ [e]))) :
    m.CameWith obs s (es ++ [e]) f ↔ f = e := by
  constructor
  · rintro ⟨pre, post, hsplit, -, hsame⟩
    induction post using List.reverseRecOn with
    | nil => exact (List.cons.inj (List.append_inj' hsplit rfl).2).1.symm
    | append_singleton mid last _ =>
        -- an event after `f` found it as it is
        rw [← List.cons_append, ← List.append_assoc] at hsplit
        obtain ⟨rfl, -⟩ := List.append_inj' hsplit rfl
        rcases hnew with hnil | hchanged
        · exact absurd hnil (by simp)
        · exact absurd (hsame mid [last] rfl) hchanged
  · rintro rfl
    refine ⟨es, [], rfl, hnew, ?_⟩
    intro mid rest hnil
    rw [(List.append_eq_nil_iff.mp hnil.symm).1]

/-- What an event leaves came with the event it had come with. -/
theorem Machine.cameWith_kept {es : List Event} {e f : Event} (hsome : es ≠ [])
    (hkept : obs (m.run s es) = obs (m.run s (es ++ [e]))) :
    m.CameWith obs s (es ++ [e]) f ↔ m.CameWith obs s es f := by
  constructor
  · rintro ⟨pre, post, hsplit, hbefore, hsame⟩
    induction post using List.reverseRecOn with
    | nil =>
        obtain ⟨rfl, -⟩ := List.append_inj' hsplit rfl
        rcases hbefore with hnil | hchanged
        · exact absurd hnil hsome
        · exact absurd hkept hchanged
    | append_singleton mid last _ =>
        rw [← List.cons_append, ← List.append_assoc] at hsplit
        obtain ⟨rfl, -⟩ := List.append_inj' hsplit rfl
        rw [← hkept] at hbefore hsame
        refine ⟨pre, mid, rfl, hbefore, ?_⟩
        intro mid' rest hmid
        exact hsame mid' (rest ++ [last]) (by rw [hmid, List.append_assoc])
  · rintro ⟨pre, post, rfl, hbefore, hsame⟩
    refine ⟨pre, post ++ [e], by simp, ?_, ?_⟩
    · rw [← hkept]
      exact hbefore
    · intro mid rest hpost
      cases rest using List.reverseRecOn with
      | nil =>
          rw [List.append_nil] at hpost
          rw [← hpost, ← List.cons_append, ← List.append_assoc]
      | append_singleton rest last =>
          rw [← List.append_assoc] at hpost
          rw [← hkept]
          exact hsame mid rest (List.append_inj' hpost rfl).1

/-- What is observed after some events came with one of them. -/
theorem Machine.exists_cameWith {es : List Event} (hsome : es ≠ []) :
    ∃ f, m.CameWith obs s es f := by
  classical
  induction es using List.reverseRecOn with
  | nil => exact absurd rfl hsome
  | append_singleton es e ih =>
      by_cases hnew : es = [] ∨ obs (m.run s es) ≠ obs (m.run s (es ++ [e]))
      · exact ⟨e, (m.cameWith_new hnew).mpr rfl⟩
      · rw [not_or, not_not] at hnew
        obtain ⟨f, hf⟩ := ih hnew.1
        exact ⟨f, (m.cameWith_kept hnew.1 hnew.2).mpr hf⟩

end CameWith

/-! ## Two machines -/

section Simulation

variable {State' : Type} {m : Machine State Event Output} {m' : Machine State' Event Output}
  {R : State → State' → Prop}
  (hstep : ∀ s s' e, R s s' → (m.step s e).2 = (m'.step s' e).2 ∧ R (m.step s e).1 (m'.step s' e).1)

include hstep

/-- Machines that send the same in each step from related states send the same in every
run. -/
theorem Machine.simulates {s : State} {s' : State'} (h : R s s') (es : List Event) :
    m.outputs s es = m'.outputs s' es ∧ R (m.run s es) (m'.run s' es) := by
  induction es using List.reverseRecOn with
  | nil => exact ⟨rfl, h⟩
  | append_singleton es e ih =>
      obtain ⟨hsame, hend⟩ := hstep _ _ e ih.2
      rw [m.run_concat, m'.run_concat, m.outputs_concat, m'.outputs_concat, ih.1, hsame]
      exact ⟨rfl, hend⟩

end Simulation

/-! ## Counting steps -/

/-- How many steps of a run have a property. -/
def Machine.count (P : State → Event → Prop) [∀ s e, Decidable (P s e)] (s : State) :
    List Event → ℕ
  | [] => 0
  | e :: es => (if P s e then 1 else 0) + Machine.count P (m.step s e).1 es

/-- What each such step costs, the run costs in all. -/
theorem Machine.count_add {P : State → Event → Prop} [∀ s e, Decidable (P s e)]
    {left : State → ℕ}
    (hspends : ∀ s e, (if P s e then 1 else 0) + left (m.step s e).1 = left s) (s : State)
    (es : List Event) : m.count P s es + left (m.run s es) = left s := by
  induction es generalizing s with
  | nil => exact Nat.zero_add _
  | cons e es ih =>
      have hrest := ih (m.step s e).1
      have hfirst := hspends s e
      rw [Machine.count, Nat.add_assoc]
      change _ + (_ + left (m.run (m.step s e).1 es)) = _
      rw [hrest, hfirst]

/-- In runs of two machines that simulate one another as many steps have a property. -/
theorem Machine.count_eq {State' : Type} {m : Machine State Event Output}
    {m' : Machine State' Event Output} {R : State → State' → Prop}
    (hstep : ∀ s s' e, R s s' → R (m.step s e).1 (m'.step s' e).1)
    {P : State → Event → Prop} {P' : State' → Event → Prop} [∀ s e, Decidable (P s e)]
    [∀ s e, Decidable (P' s e)] (hagree : ∀ s s' e, R s s' → (P s e ↔ P' s' e)) {s : State}
    {s' : State'} (h : R s s') (es : List Event) : m.count P s es = m'.count P' s' es := by
  induction es generalizing s s' with
  | nil => rfl
  | cons e es ih =>
      rw [Machine.count, Machine.count, ih (hstep s s' e h)]
      simp only [hagree s s' e h]

end EventMachine
