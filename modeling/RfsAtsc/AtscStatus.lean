import RfsAtsc.NtcipParse

/-!
# Status groups: `atsc.h`

Phases and detectors are numbered from one.  Number `j` is bit `(j - 1) % 8` of byte
`(j - 1) / 8` of its group.  Numbers and sizes are `int`s, and so is the count of a group's
bits, which a group of `2 ^ 28` bytes is too large for.
-/

namespace RfsAtsc

open TracedMemory

/-- `MAX_PHASES`. -/
def MAX_PHASES : Int := 16

def ATSC_SOURCE_AB3418 : Int := 2
def ATSC_SOURCE_SNIFF : Int := 3

/-- A status array, as a function of its index. -/
abbrev StatusArray := Int → Byte

/-- The largest `int`. -/
def INT_MAX : Int := 2 ^ 31 - 1

/-- What an `int` keeps of the result of `int` arithmetic. -/
def int32 (v : Int) : Int := v.bmod (2 ^ 32)

/-- `index`, computed before the number is checked. -/
def statusIndex (num : Int) : Int := (int32 (num - 1)).tdiv 8

/-- `1 << bit_position`. -/
def statusBit (num : Int) : Byte := 1 <<< ((int32 (num - 1)).tmod 8).toNat

/-- `max_bits`. -/
def maxBits (max : Nat) : Int := int32 (8 * max)

/-- `atsc_is_set`. -/
def atscIsSet (status : StatusArray) (num : Int) (max : Nat) : Int :=
  if num < 1 ∨ num > maxBits max then -1
  else if status (statusIndex num) &&& statusBit num ≠ 0 then 1
  else 0

/-- `set_atsc`, with what it returns. -/
def setAtsc (status : StatusArray) (num : Int) (max : Nat) : Int × StatusArray :=
  let index := statusIndex num
  if num < 1 ∨ num > maxBits max then (-1, status)
  else
    let stored := status index ||| statusBit num
    (stored.toNat, Function.update status index stored)

/-- `clear_atsc`, with what it returns. -/
def clearAtsc (status : StatusArray) (num : Int) (max : Nat) : Int × StatusArray :=
  let index := statusIndex num
  if num < 1 ∨ num > maxBits max then (-1, status)
  else
    let stored := status index &&& ~~~statusBit num
    (stored.toNat, Function.update status index stored)

/-- `atsc_phase_is_set`. -/
def atscPhaseIsSet (status : StatusArray) (phaseNum : Int) : Int :=
  atscIsSet status phaseNum MAX_PHASE_STATUS_GROUPS

/-- `set_atsc_phase`, for its effect. -/
def setAtscPhase (status : StatusArray) (phaseNum : Int) : StatusArray :=
  (setAtsc status phaseNum MAX_PHASE_STATUS_GROUPS).2

/-- `clear_atsc_phase`, for its effect. -/
def clearAtscPhase (status : StatusArray) (phaseNum : Int) : StatusArray :=
  (clearAtsc status phaseNum MAX_PHASE_STATUS_GROUPS).2

/-! ## Numbers, bytes and bits -/

/-- Arithmetic that stays within an `int` is exact. -/
theorem int32_of_le {v : Int} (hlow : 0 ≤ v) (hhigh : v ≤ INT_MAX) : int32 v = v := by
  have hmax : INT_MAX = 2147483647 := by decide
  refine Int.bmod_eq_of_le ?_ ?_
  · omega
  · omega

/-- The count of the bits of a group that is not too large. -/
theorem maxBits_eq {max : Nat} (hmax : 8 * (max : Int) ≤ INT_MAX) : maxBits max = 8 * max :=
  int32_of_le (by omega) hmax

/-- The byte and the bit of number `k + 1`. -/
private theorem num_place {k : Nat} (hk : (k : Int) ≤ INT_MAX) :
    statusIndex (k + 1) = (k / 8 : Nat) ∧ statusBit (k + 1) = BitVec.twoPow 8 (k % 8) := by
  rw [statusIndex, statusBit, add_sub_cancel_right, int32_of_le (by omega) hk]
  refine ⟨(Int.ofNat_tdiv k 8).symm, ?_⟩
  have hplace : ((k : Int).tmod 8).toNat = k % 8 := by
    rw [show (8 : Int) = (8 : Nat) from rfl, ← Int.ofNat_tmod, Int.toNat_natCast]
  rw [hplace]
  rfl

section Group

variable (status : StatusArray) {max : Nat} (hmax : 8 * (max : Int) ≤ INT_MAX)

include hmax

private theorem num_in_range {k : Nat} (hk : k < 8 * max) :
    ¬((k : Int) + 1 < 1 ∨ (k : Int) + 1 > maxBits max) := by
  rw [maxBits_eq hmax]
  omega

/-- Number `k + 1` of a group is bit `k % 8` of byte `k / 8`. -/
theorem atscIsSet_eq {k : Nat} (hk : k < 8 * max) :
    atscIsSet status (k + 1) max = if (status (k / 8 : Nat)).getLsbD (k % 8) then 1 else 0 := by
  obtain ⟨hindex, hbit⟩ := num_place (k := k) (by omega)
  rw [atscIsSet, if_neg (num_in_range hmax hk), hindex, hbit, BitVec.and_twoPow]
  cases (status (k / 8 : Nat)).getLsbD (k % 8) with
  | true =>
      have hnonzero : BitVec.twoPow 8 (k % 8) ≠ 0 := by
        intro hzero
        have hplace := congrArg (fun b : Byte => b.getLsbD (k % 8)) hzero
        simp [Nat.mod_lt] at hplace
      simpa using hnonzero
  | false => simp

/-- A number that the group does not have. -/
theorem atscIsSet_of_outside {num : Int} (h : ¬(1 ≤ num ∧ num ≤ 8 * max)) :
    atscIsSet status num max = -1 := by
  rw [atscIsSet, maxBits_eq hmax, if_pos (by omega)]

/-- Setting it changes nothing. -/
theorem setAtsc_of_outside {num : Int} (h : ¬(1 ≤ num ∧ num ≤ 8 * max)) :
    setAtsc status num max = (-1, status) := by
  rw [setAtsc, maxBits_eq hmax, if_pos (by omega)]

/-- Nor does clearing it. -/
theorem clearAtsc_of_outside {num : Int} (h : ¬(1 ≤ num ∧ num ≤ 8 * max)) :
    clearAtsc status num max = (-1, status) := by
  rw [clearAtsc, maxBits_eq hmax, if_pos (by omega)]

/-- The byte that setting number `j + 1` stores, and that the call returns. -/
theorem setAtsc_eq {j : Nat} (hj : j < 8 * max) :
    setAtsc status (j + 1) max =
      (((status (j / 8 : Nat) ||| BitVec.twoPow 8 (j % 8)).toNat : Int),
        Function.update status (j / 8 : Nat)
          (status (j / 8 : Nat) ||| BitVec.twoPow 8 (j % 8))) := by
  obtain ⟨hindex, hbit⟩ := num_place (k := j) (by omega)
  rw [setAtsc, if_neg (num_in_range hmax hj), hindex, hbit]

/-- The byte that clearing number `j + 1` stores, and that the call returns. -/
theorem clearAtsc_eq {j : Nat} (hj : j < 8 * max) :
    clearAtsc status (j + 1) max =
      (((status (j / 8 : Nat) &&& ~~~BitVec.twoPow 8 (j % 8)).toNat : Int),
        Function.update status (j / 8 : Nat)
          (status (j / 8 : Nat) &&& ~~~BitVec.twoPow 8 (j % 8))) := by
  obtain ⟨hindex, hbit⟩ := num_place (k := j) (by omega)
  rw [clearAtsc, if_neg (num_in_range hmax hj), hindex, hbit]

/-- A byte stored for number `j + 1` whose other bits are the old ones changes the group in
that number alone. -/
private theorem atscIsSet_stored {j : Nat} (hj : j < 8 * max) {stored : Byte} (value : Bool)
    (hstored : ∀ i < 8, stored.getLsbD i =
      if j % 8 = i then value else (status (j / 8 : Nat)).getLsbD i) (q : Int) :
    atscIsSet (Function.update status (j / 8 : Nat) stored) q max =
      if q = j + 1 then (if value then 1 else 0) else atscIsSet status q max := by
  by_cases hq : 1 ≤ q ∧ q ≤ 8 * (max : Int)
  · obtain ⟨k, rfl⟩ : ∃ k : Nat, q = k + 1 := ⟨(q - 1).toNat, by omega⟩
    have hk : k < 8 * max := by omega
    rw [atscIsSet_eq _ hmax hk]
    by_cases hkj : k = j
    · subst hkj
      rw [if_pos rfl, Function.update_self, hstored _ (Nat.mod_lt k (by decide)), if_pos rfl]
    · have hne : ¬(k : Int) + 1 = j + 1 := by omega
      rw [if_neg hne, atscIsSet_eq status hmax hk]
      by_cases hbyte : k / 8 = j / 8
      · have hbit : ¬j % 8 = k % 8 := by omega
        rw [hbyte, Function.update_self, hstored _ (Nat.mod_lt k (by decide)), if_neg hbit]
      · rw [Function.update_of_ne (by omega)]
  · rw [atscIsSet_of_outside _ hmax hq, atscIsSet_of_outside _ hmax hq, if_neg (by omega)]

/-- **Setting a number of the group sets it and no other.** -/
theorem atscIsSet_setAtsc {num : Int} (hlow : 1 ≤ num) (hhigh : num ≤ 8 * max) (q : Int) :
    atscIsSet (setAtsc status num max).2 q max =
      if q = num then 1 else atscIsSet status q max := by
  obtain ⟨j, rfl⟩ : ∃ j : Nat, num = j + 1 := ⟨(num - 1).toNat, by omega⟩
  have hj : j < 8 * max := by omega
  rw [setAtsc_eq status hmax hj]
  refine atscIsSet_stored status hmax hj true ?_ q
  intro i hi
  rw [BitVec.getLsbD_or, BitVec.getLsbD_twoPow]
  by_cases hbit : j % 8 = i <;> simp [hbit, hi]

/-- **Clearing a number of the group clears it and no other.** -/
theorem atscIsSet_clearAtsc {num : Int} (hlow : 1 ≤ num) (hhigh : num ≤ 8 * max) (q : Int) :
    atscIsSet (clearAtsc status num max).2 q max =
      if q = num then 0 else atscIsSet status q max := by
  obtain ⟨j, rfl⟩ : ∃ j : Nat, num = j + 1 := ⟨(num - 1).toNat, by omega⟩
  have hj : j < 8 * max := by omega
  rw [clearAtsc_eq status hmax hj]
  refine atscIsSet_stored status hmax hj false ?_ q
  intro i hi
  rw [BitVec.getLsbD_and, BitVec.getLsbD_not, BitVec.getLsbD_twoPow]
  by_cases hbit : j % 8 = i <;> simp [hbit, hi]

end Group

/-! ## Phases -/

/-- The bits of the phases are few enough for an `int`. -/
theorem phase_group_fits : 8 * ((MAX_PHASE_STATUS_GROUPS : Nat) : Int) ≤ INT_MAX := by decide

/-- The bit of a phase that the controllers number is set or clear. -/
theorem atscPhaseIsSet_eq_one_or_zero (status : StatusArray) {phaseNum : Int}
    (hlow : 1 ≤ phaseNum) (hhigh : phaseNum ≤ MAX_PHASES) :
    atscPhaseIsSet status phaseNum = 1 ∨ atscPhaseIsSet status phaseNum = 0 := by
  have hrange : ¬(phaseNum < 1 ∨ phaseNum > maxBits MAX_PHASE_STATUS_GROUPS) := by
    rw [maxBits_eq phase_group_fits]
    simp only [MAX_PHASES] at hhigh
    simp only [MAX_PHASE_STATUS_GROUPS]
    omega
  unfold atscPhaseIsSet atscIsSet
  rw [if_neg hrange]
  by_cases hbit : status (statusIndex phaseNum) &&& statusBit phaseNum = 0
  · exact .inr (if_neg (not_not_intro hbit))
  · exact .inl (if_pos hbit)

/-- Phase `k + 1` of a group is bit `k % 8` of byte `k / 8`. -/
theorem atscPhaseIsSet_iff (status : StatusArray) {k : Nat} (hk : k < 32) :
    atscPhaseIsSet status (k + 1) = 1 ↔ (status (k / 8 : Nat)).getLsbD (k % 8) = true := by
  rw [atscPhaseIsSet,
    atscIsSet_eq status phase_group_fits (by simpa [MAX_PHASE_STATUS_GROUPS] using hk)]
  cases (status (k / 8 : Nat)).getLsbD (k % 8) <;> simp

/-- Setting a phase sets its own bit, if the group has one, and no other. -/
theorem isSet_setAtscPhase (status : StatusArray) (num : Int) {phase : Int} (hlow : 1 ≤ phase)
    (hhigh : phase ≤ 32) :
    atscPhaseIsSet (setAtscPhase status num) phase = 1 ↔
      atscPhaseIsSet status phase = 1 ∨ phase = num := by
  have hgroup : (8 : Int) * (MAX_PHASE_STATUS_GROUPS : Nat) = 32 := by decide
  by_cases hnum : 1 ≤ num ∧ num ≤ 8 * (MAX_PHASE_STATUS_GROUPS : Nat)
  · rw [atscPhaseIsSet, setAtscPhase, atscIsSet_setAtsc status phase_group_fits hnum.1 hnum.2]
    by_cases hphase : phase = num
    · simp [hphase]
    · simp [hphase, atscPhaseIsSet]
  · rw [setAtscPhase, setAtsc_of_outside status phase_group_fits hnum]
    exact (or_iff_left (by omega)).symm

/-- The same in the numbering of the groups. -/
theorem setAtscPhase_isSet (status : StatusArray) (num : Nat) {k : Nat} (hk : k < 32) :
    atscPhaseIsSet (setAtscPhase status num) (k + 1) = 1 ↔
      atscPhaseIsSet status (k + 1) = 1 ∨ num = k + 1 := by
  refine (isSet_setAtscPhase status num (by omega) (by omega)).trans (or_congr_right ?_)
  omega

/-- Clearing a phase clears its own bit and no other. -/
theorem isSet_clearAtscPhase (status : StatusArray) (num : Int) {phase : Int} (hlow : 1 ≤ phase)
    (hhigh : phase ≤ 32) :
    atscPhaseIsSet (clearAtscPhase status num) phase = 1 ↔
      atscPhaseIsSet status phase = 1 ∧ phase ≠ num := by
  have hgroup : (8 : Int) * (MAX_PHASE_STATUS_GROUPS : Nat) = 32 := by decide
  by_cases hnum : 1 ≤ num ∧ num ≤ 8 * (MAX_PHASE_STATUS_GROUPS : Nat)
  · rw [atscPhaseIsSet, clearAtscPhase, atscIsSet_clearAtsc status phase_group_fits hnum.1 hnum.2]
    by_cases hphase : phase = num
    · simp [hphase]
    · simp [hphase, atscPhaseIsSet]
  · rw [clearAtscPhase, clearAtsc_of_outside status phase_group_fits hnum]
    exact (and_iff_left (by omega)).symm

end RfsAtsc
