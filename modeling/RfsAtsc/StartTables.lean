import Mathlib.Order.Lattice
import Mathlib.Order.Nat
import Mathlib.Data.Nat.Find

/-!
# Tables of starts

A table of intervals in the order of their starts, numbered from one.  The interval in
effect is the last that has started, and before the first start it is the last of the
table, which runs on from the period before.
-/

namespace StartTables

variable {α : Type} [LinearOrder α] {n : Nat} {start : Nat → α}

/-- The starts increase from the first to the `n`-th. -/
def Increasing (n : Nat) (start : Nat → α) : Prop :=
  ∀ i j, 1 ≤ i → i < j → j ≤ n → start i < start j

/-- The interval in effect. -/
def inEffect (n : Nat) (start : Nat → α) (t : α) : Nat :=
  match Nat.findGreatest (fun i => 1 ≤ i ∧ start i ≤ t) n with
  | 0 => n
  | i + 1 => i + 1

theorem Increasing.le {i j : Nat} (h : Increasing n start) (hi : 1 ≤ i) (hij : i ≤ j)
    (hj : j ≤ n) : start i ≤ start j := by
  rcases Nat.lt_or_eq_of_le hij with hlt | rfl
  · exact le_of_lt (h i j hi hlt hj)
  · exact le_rfl

/-- Before the first start the last interval is in effect. -/
theorem inEffect_of_lt_first (h : Increasing n start) {t : α} (ht : t < start 1) :
    inEffect n start t = n := by
  have hnone : Nat.findGreatest (fun i => 1 ≤ i ∧ start i ≤ t) n = 0 := by
    rw [Nat.findGreatest_eq_zero_iff]
    intro i hi hin hstarted
    have hfirst := h.le le_rfl hi hin
    exact absurd (hfirst.trans hstarted.2) (not_le.mpr ht)
  rw [inEffect, hnone]

/-- An interval that has started, and no later one has, is in effect. -/
theorem inEffect_eq (h : Increasing n start) {t : α} {i : Nat} (hi : 1 ≤ i) (hin : i ≤ n)
    (hstarted : start i ≤ t) (hnext : i < n → t < start (i + 1)) : inEffect n start t = i := by
  have hfound : Nat.findGreatest (fun i => 1 ≤ i ∧ start i ≤ t) n = i := by
    rw [Nat.findGreatest_eq_iff]
    refine ⟨hin, fun _ => ⟨hi, hstarted⟩, fun j hij hjn hlater => ?_⟩
    have hfollowing := h.le (by omega) (Nat.succ_le_of_lt hij) hjn
    exact absurd (hfollowing.trans hlater.2) (not_le.mpr (hnext (by omega)))
  rw [inEffect, hfound]
  cases i with
  | zero => exact absurd hi (by decide)
  | succ i => rfl

end StartTables
