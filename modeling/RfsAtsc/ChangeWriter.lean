import Mathlib.Data.List.Chain
import RfsAtsc.EventMachine

/-!
# Writers that look for a change

A writer builds a record from each event and stores it only when a key of the record
differs from the key it stored last.  What the stored record shows after every step
then depends on the whole run; `shows_iff_chain` brings it down to a condition on
each event and the one before it.
-/

namespace ChangeWriter

open EventMachine

variable {State Event Output Record Key : Type}

/-- A machine that stores the record built from an event, and its key, exactly when the
key differs from the last one. -/
structure Writes (m : Machine State Event Output) (build : Event → Record) (key : Record → Key)
    (record : State → Record) (last : State → Key) : Prop where
  changed : ∀ s e, key (build e) ≠ last s →
    record (m.step s e).1 = build e ∧ last (m.step s e).1 = key (build e)
  unchanged : ∀ s e, key (build e) = last s →
    record (m.step s e).1 = record s ∧ last (m.step s e).1 = last s

variable {m : Machine State Event Output} {build : Event → Record} {key : Record → Key}
variable {record : State → Record} {last : State → Key}

/-- The stored record shows an event, and its key is the last one and the event's. -/
structure Current (build : Event → Record) (key : Record → Key) (record : State → Record)
    (last : State → Key) (Shows : Record → Event → Prop) (s : State) (e : Event) : Prop where
  shown : Shows (record s) e
  stored : key (record s) = last s
  latest : last s = key (build e)

/-- An event after another is shown: by its own record when the key changes, and by the
record of the one before when it does not. -/
def Follows (build : Event → Record) (key : Record → Key) (Shows : Record → Event → Prop)
    (Same : Event → Event → Prop) (e e' : Event) : Prop :=
  (key (build e') ≠ key (build e) → Shows (build e') e') ∧
    (key (build e') = key (build e) → Same e e')

/-- One step: the next event is shown exactly when it follows the one before, and the
record is then current. -/
theorem Writes.step_iff (w : Writes m build key record last) {Shows : Record → Event → Prop}
    {Same : Event → Event → Prop}
    (hsame : ∀ r e e', Shows r e → key r = key (build e) → key (build e') = key (build e) →
      (Shows r e' ↔ Same e e'))
    {s : State} {e : Event} (h : Current build key record last Shows s e) (e' : Event) :
    (Shows (record (m.step s e').1) e' ↔ Follows build key Shows Same e e') ∧
      (Shows (record (m.step s e').1) e' →
        Current build key record last Shows (m.step s e').1 e') := by
  by_cases hkey : key (build e') = last s
  · obtain ⟨hrecord, hlast⟩ := w.unchanged s e' hkey
    have hlatest : key (build e') = key (build e) := hkey.trans h.latest
    rw [hrecord]
    refine ⟨?_, fun hshown => ⟨?_, ?_, ?_⟩⟩
    · rw [hsame _ e e' h.shown (h.stored.trans h.latest) hlatest]
      exact ⟨fun hsm => ⟨fun hne => absurd hlatest hne, fun _ => hsm⟩, fun hf => hf.2 hlatest⟩
    · rw [hrecord]
      exact hshown
    · rw [hrecord, hlast]
      exact h.stored
    · rw [hlast]
      exact hkey.symm
  · obtain ⟨hrecord, hlast⟩ := w.changed s e' hkey
    have hchanged : key (build e') ≠ key (build e) := fun heq => hkey (heq.trans h.latest.symm)
    rw [hrecord]
    refine ⟨?_, fun hshown => ⟨?_, ?_, hlast⟩⟩
    · exact ⟨fun hsh => ⟨fun _ => hsh, fun heq => absurd heq hchanged⟩, fun hf => hf.1 hchanged⟩
    · rw [hrecord]
      exact hshown
    · rw [hrecord, hlast]

/-- **Every event is shown exactly when each follows the one before.** -/
theorem Writes.shows_iff_chain (w : Writes m build key record last)
    {Shows : Record → Event → Prop} {Same : Event → Event → Prop}
    (hsame : ∀ r e e', Shows r e → key r = key (build e) → key (build e') = key (build e) →
      (Shows r e' ↔ Same e e'))
    {s : State} {e : Event} (h : Current build key record last Shows s e) (es : List Event) :
    m.Along s (fun _ t e' => Shows (record (m.step t e').1) e') es ↔
      List.IsChain (Follows build key Shows Same) (e :: es) := by
  induction es generalizing s e with
  | nil => exact iff_of_true (m.along_nil _ _) (List.isChain_singleton e)
  | cons e' es ih =>
      obtain ⟨hfollows, hcurrent⟩ := w.step_iff hsame h e'
      rw [m.along_cons_iff, List.isChain_cons_cons, ← hfollows]
      exact and_congr_right fun hshown => ih (hcurrent hshown)

end ChangeWriter
