import RfsAtsc.IxSnapshots

/-!
# An approach's record in the database

`ix_approach_update` writes as many stop lines as the approach has.  `ix_approach_read`
reads `MAX_APPROACH_SIZE` bytes into a buffer of that size, and then copies as many stop
lines as the record declares, which past the buffer come from whatever is behind it on
the stack.  So an approach comes back exactly when it has no more than `MAX_STOP_LINES`.
-/

namespace RfsAtsc

open TracedMemory

/-- `ix_approach_update`. -/
def ixApproachUpdate (D : Database) (vars : IxVars) (s : D.Store) (p : IxApproach) (i : Nat) :
    D.Store :=
  let record := approachWrite vars i p
  D.write s record.1 record.2

/-- The approach read back is the one written, whatever the stack held. -/
def ReadsBack (D : Database) (vars : IxVars) (s : D.Store) (p : IxApproach) (i : Nat) : Prop :=
  ∀ stack, ixApproachRead D vars (ixApproachUpdate D vars s p i) stack i = p

/-- A stack that holds one byte throughout. -/
def filledStack (v : UChar) : Mem UChar := ⟨fun _ => v, []⟩

/-- Behind the buffer, a filled stack gives a struct of one byte throughout. -/
private theorem filledStack_take (v : UChar) {bs : List UChar} {a : Int} (ha : bs.length ≤ a)
    (n : Nat) : ((filledStack v).write 0 bs).take a n = List.replicate n v := by
  induction n generalizing a with
  | zero => rfl
  | succ n ih =>
      have hcell : ((filledStack v).write 0 bs).cell a = v :=
        Mem.write_cell_outside _ _ _ (Or.inr (by omega))
      rw [Mem.take, hcell, ih (by omega), List.replicate_succ]

/-- A stop line past the two that the buffer holds is made of what lies behind it. -/
theorem ixApproachRead_beyond (D : Database) (vars : IxVars) (s : D.Store) (v : UChar) (i : Nat)
    {j : Nat} (hj : MAX_STOP_LINES ≤ j)
    (hdeclared : j < (ixApproachRead D vars s (filledStack v) i).fields.numberOfStopLines.toNat) :
    (ixApproachRead D vars s (filledStack v) i).stopLineArray[j]? =
      some (IxStopLine.ofBytes (List.replicate stopLineSize v)) := by
  have hbuffer : ((D.read s (vars.approachStart + i) MAX_APPROACH_SIZE).length : Int) ≤
      approachSize + stopLineSize * (j : Int) := by
    rw [D.read_length]
    change ((41 : Nat) : Int) ≤ 17 + 12 * (j : Int)
    change 2 ≤ j at hj
    omega
  have hread := filledStack_take v hbuffer stopLineSize
  change ((List.range _).map _)[j]? = _
  change j < (IxApproachFields.ofBytes _).numberOfStopLines.toNat at hdeclared
  rw [List.getElem?_map, List.getElem?_range hdeclared, Option.map_some, hread]

/-- **An approach comes back from its record** exactly when it has no more stop lines than
`ix_approach_read` has room for. -/
theorem readsBack_iff (D : Database) (vars : IxVars) (s : D.Store) (p : IxApproach) (i : Nat) :
    ReadsBack D vars s p i ↔ p.Bounded := by
  constructor
  · intro h
    by_contra hmany
    have hthird : MAX_STOP_LINES < p.fields.numberOfStopLines.toNat := by
      rw [← p.length_eq]
      exact not_le.mp hmany
    have hline : ∀ v : UChar, p.stopLineArray[MAX_STOP_LINES]? =
        some (IxStopLine.ofBytes (List.replicate stopLineSize v)) := by
      intro v
      have hbeyond := ixApproachRead_beyond D vars (ixApproachUpdate D vars s p i) v i le_rfl
      rw [h (filledStack v)] at hbeyond
      exact hbeyond hthird
    have hsame := Option.some.inj ((hline 0).symm.trans (hline 1))
    exact absurd (congrArg IxStopLine.lineLength hsame) (by decide)
  · intro hbounded stack
    exact ixApproachRead_of_shows stack (D.read_write _ _ _ _ hbounded.bytes_length_le)

/-- An approach of three stop lines, as a datagram can bring it, does not come back. -/
theorem readsBack_not_always :
    ¬ ∀ (D : Database) (vars : IxVars) (s : D.Store) (p : IxApproach) (i : Nat),
      ReadsBack D vars s p i := by
  intro h
  let line : IxStopLine := ⟨379156194, -1223348805, 400, 0⟩
  let p : IxApproach :=
    ⟨⟨1, 1, 0, 0, 0, 255, 0, 255, 255, 0, 255, 0, 0, 0, 0, 3⟩, [line, line, line], rfl⟩
  let written : cellDatabase.Store := ixApproachUpdate cellDatabase ixVars (fun _ _ => 0) p 0
  have hback := congrArg IxApproach.stopLineArray
    (h cellDatabase ixVars (fun _ _ => 0) p 0 (filledStack 0))
  have hlost : (ixApproachRead cellDatabase ixVars written (filledStack 0) 0).stopLineArray[2]? =
      some ⟨0, 0, 0, 0⟩ := by
    decide +kernel
  rw [hback] at hlost
  exact absurd hlost (by decide)

end RfsAtsc
