import Mathlib.Data.Finset.Image
import RfsAtsc.AtscStatus

/-!
# Status groups as sets of numbers

A group of `max` bytes holds the set of the numbers from 1 to `8 * max` whose bits are
set.  `set_atsc` puts a number into the set, `clear_atsc` takes one out, and a number
that the group does not have changes nothing.  So it is while an `int` holds `8 * max`.
A group of `2 ^ 28` bytes or more has numbers that no `int` is, and the count that the
functions compare a number with is then too small.
-/

namespace RfsAtsc

/-- The numbers that a group of `max` bytes has. -/
def groupNumbers (max : Nat) : Finset Int :=
  (Finset.range (8 * max)).image fun k : Nat => (k : Int) + 1

/-- The numbers that are set in a group. -/
def numbersSet (status : StatusArray) (max : Nat) : Finset Int :=
  (groupNumbers max).filter fun num => atscIsSet status num max = 1

/-- A call that changes a group. -/
inductive StatusOp where
  | set (num : Int)
  | clear (num : Int)

/-- The group after one call. -/
def StatusOp.run (max : Nat) (status : StatusArray) : StatusOp → StatusArray
  | .set num => (setAtsc status num max).2
  | .clear num => (clearAtsc status num max).2

/-- What one call means for the set. -/
def StatusOp.apply (max : Nat) (nums : Finset Int) : StatusOp → Finset Int
  | .set num => if num ∈ groupNumbers max then insert num nums else nums
  | .clear num => nums.erase num

@[simp] theorem mem_groupNumbers {max : Nat} {num : Int} :
    num ∈ groupNumbers max ↔ 1 ≤ num ∧ num ≤ 8 * max := by
  rw [groupNumbers, Finset.mem_image]
  constructor
  · rintro ⟨k, hk, rfl⟩
    have hlt := Finset.mem_range.mp hk
    omega
  · rintro ⟨hlow, hhigh⟩
    exact ⟨(num - 1).toNat, Finset.mem_range.mpr (by omega), by omega⟩

section Group

variable (status : StatusArray) {max : Nat} (hmax : 8 * (max : Int) ≤ INT_MAX)

include hmax

theorem mem_numbersSet {status : StatusArray} {num : Int} :
    num ∈ numbersSet status max ↔ atscIsSet status num max = 1 := by
  rw [numbersSet, Finset.mem_filter, mem_groupNumbers]
  constructor
  · exact And.right
  · intro hset
    refine ⟨?_, hset⟩
    by_contra houtside
    rw [atscIsSet_of_outside status hmax houtside] at hset
    contradiction

/-- One call keeps the group and its set together. -/
theorem numbersSet_run (op : StatusOp) :
    numbersSet (op.run max status) max = op.apply max (numbersSet status max) := by
  cases op with
  | set num =>
      by_cases hnum : num ∈ groupNumbers max
      · obtain ⟨hlow, hhigh⟩ := mem_groupNumbers.mp hnum
        ext q
        rw [mem_numbersSet hmax, StatusOp.run, atscIsSet_setAtsc status hmax hlow hhigh,
          StatusOp.apply, if_pos hnum, Finset.mem_insert, mem_numbersSet hmax]
        by_cases hq : q = num <;> simp [hq]
      · rw [StatusOp.run, StatusOp.apply, if_neg hnum,
          setAtsc_of_outside status hmax (mt mem_groupNumbers.mpr hnum)]
  | clear num =>
      by_cases hnum : num ∈ groupNumbers max
      · obtain ⟨hlow, hhigh⟩ := mem_groupNumbers.mp hnum
        ext q
        rw [mem_numbersSet hmax, StatusOp.run, atscIsSet_clearAtsc status hmax hlow hhigh,
          StatusOp.apply, Finset.mem_erase, mem_numbersSet hmax]
        by_cases hq : q = num <;> simp [hq]
      · have hnot : num ∉ numbersSet status max :=
          fun hmem => hnum (Finset.mem_of_mem_filter num hmem)
        rw [StatusOp.run, StatusOp.apply,
          clearAtsc_of_outside status hmax (mt mem_groupNumbers.mpr hnum),
          Finset.erase_eq_of_notMem hnot]

/-- A call touches no byte outside its group. -/
theorem StatusOp.run_of_outside (op : StatusOp) {index : Int} (hindex : index < 0 ∨ max ≤ index) :
    op.run max status index = status index := by
  cases op with
  | set num =>
      by_cases hnum : 1 ≤ num ∧ num ≤ 8 * (max : Int)
      · obtain ⟨j, rfl⟩ : ∃ j : Nat, num = j + 1 := ⟨(num - 1).toNat, by omega⟩
        rw [StatusOp.run, setAtsc_eq status hmax (by omega)]
        exact Function.update_of_ne (by omega) _ _
      · rw [StatusOp.run, setAtsc_of_outside status hmax hnum]
  | clear num =>
      by_cases hnum : 1 ≤ num ∧ num ≤ 8 * (max : Int)
      · obtain ⟨j, rfl⟩ : ∃ j : Nat, num = j + 1 := ⟨(num - 1).toNat, by omega⟩
        rw [StatusOp.run, clearAtsc_eq status hmax (by omega)]
        exact Function.update_of_ne (by omega) _ _
      · rw [StatusOp.run, clearAtsc_of_outside status hmax hnum]

/-- **The calls of a program do to the group what they do to its set of numbers.** -/
theorem numbersSet_runAll (ops : List StatusOp) :
    numbersSet (ops.foldl (StatusOp.run max) status) max =
      ops.foldl (StatusOp.apply max) (numbersSet status max) := by
  induction ops generalizing status with
  | nil => rfl
  | cons op ops ih => rw [List.foldl_cons, List.foldl_cons, ih, numbersSet_run status hmax]

end Group

/-- The group is the set of the numbers that it shows.  A number of the group, an `int`, is
set or cleared and no other changes; one that the group does not have is refused and
changes nothing; no call touches a byte outside the group; and any calls one after another
do to the group what they do to the set. -/
structure GroupIsSet (max : Nat) (status : StatusArray) : Prop where
  inside : ∀ p ≤ INT_MAX, 1 ≤ p ∧ p ≤ 8 * (max : Int) →
    atscIsSet (setAtsc status p max).2 p max = 1 ∧
    atscIsSet (clearAtsc status p max).2 p max = 0 ∧
    ∀ q, q ≠ p →
      atscIsSet (setAtsc status p max).2 q max = atscIsSet status q max ∧
      atscIsSet (clearAtsc status p max).2 q max = atscIsSet status q max
  outside : ∀ p, ¬(1 ≤ p ∧ p ≤ 8 * (max : Int)) →
    setAtsc status p max = (-1, status) ∧ clearAtsc status p max = (-1, status) ∧
    atscIsSet status p max = -1
  frame : ∀ (ops : List StatusOp) (index : Int), index < 0 ∨ max ≤ index →
    ops.foldl (StatusOp.run max) status index = status index
  calls : ∀ ops : List StatusOp,
    numbersSet (ops.foldl (StatusOp.run max) status) max =
      ops.foldl (StatusOp.apply max) (numbersSet status max)

theorem groupIsSet_of_fits {max : Nat} (hmax : 8 * (max : Int) ≤ INT_MAX)
    (status : StatusArray) : GroupIsSet max status where
  inside := by
    rintro p - ⟨hlow, hhigh⟩
    refine ⟨?_, ?_, ?_⟩
    · rw [atscIsSet_setAtsc status hmax hlow hhigh, if_pos rfl]
    · rw [atscIsSet_clearAtsc status hmax hlow hhigh, if_pos rfl]
    · intro q hq
      rw [atscIsSet_setAtsc status hmax hlow hhigh, atscIsSet_clearAtsc status hmax hlow hhigh,
        if_neg hq, if_neg hq]
      exact ⟨rfl, rfl⟩
  outside := by
    intro p hp
    exact ⟨setAtsc_of_outside status hmax hp, clearAtsc_of_outside status hmax hp,
      atscIsSet_of_outside status hmax hp⟩
  frame := by
    intro ops index hindex
    induction ops generalizing status with
    | nil => rfl
    | cons op ops ih => rw [List.foldl_cons, ih, op.run_of_outside status hmax hindex]
  calls := numbersSet_runAll status hmax

/-- The count for a group that is too large leaves out a number that is an `int`. -/
theorem maxBits_lt {max : Nat} (hmax : INT_MAX < 8 * (max : Int)) :
    maxBits max < INT_MAX ∧ maxBits max < 8 * max := by
  have hlarge : INT_MAX = 2147483647 := by decide
  unfold maxBits int32
  have hlt := Int.bmod_lt (x := 8 * (max : Int)) (Nat.two_pow_pos 32)
  have hwrap := Int.bmod_add_bdiv (8 * (max : Int)) (2 ^ 32)
  omega

/-- **A status group is a finite set of numbers if and only if an `int` holds the count of
its bits.**  In a larger group the first number past the count, an `int` itself, is
refused like one that the group does not have. -/
theorem atsc_group_is_finite_set (max : Nat) (status : StatusArray) :
    GroupIsSet max status ↔ 8 * (max : Int) ≤ INT_MAX := by
  constructor
  · intro hgroup
    by_contra hlarge
    obtain ⟨hint, hcount⟩ := maxBits_lt (not_le.mp hlarge)
    have hpositive : 0 < INT_MAX := by decide
    obtain ⟨p, hp⟩ : ∃ p, p = Max.max (maxBits max) 0 + 1 := ⟨_, rfl⟩
    have hset := (hgroup.inside p (by omega) (by omega)).1
    rw [atscIsSet, if_pos (.inr (by omega))] at hset
    exact absurd hset (by decide)
  · intro hmax
    exact groupIsSet_of_fits hmax status

/-- In a group of `2 ^ 28` bytes number 1 is refused. -/
theorem atsc_group_not_always_set :
    ¬ ∀ (max : Nat) (status : StatusArray), GroupIsSet max status := by
  intro h
  obtain ⟨max, hmax⟩ : ∃ max : Nat, (max : Int) = 2 ^ 28 := ⟨2 ^ 28, by norm_cast⟩
  have hcount : (1 : Int) > maxBits max := by
    rw [maxBits, hmax]
    decide
  have hset := ((h max fun _ => 0).inside 1 (by decide) (by omega)).1
  rw [atscIsSet, if_pos (.inr hcount)] at hset
  exact absurd hset (by decide)

end RfsAtsc
