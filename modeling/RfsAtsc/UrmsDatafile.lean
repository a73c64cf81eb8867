import Mathlib.Algebra.Order.Field.Rat
import Mathlib.Tactic.Linarith
import Mathlib.Tactic.Ring
import RfsAtsc.UrmsPolls

/-!
# The occupancies of `urms_datafile`

After each poll one loop copies the occupancies of eight mainline lanes and of the first
queue loops into `urms_datafile`, of which eight, eight and four have a place.  The last
four turns read the second row of `queue_stat` and store behind `queue_occ`: two of them in
`metering_rate`, and two behind the record.

The record is a memory of words of four bytes.  A word is of any type, `float` says how a
float lies in one, and the occupancies are exact.
-/

namespace RfsAtsc.UrmsDatafile

open TracedMemory
open UrmsPolls (wordAt mainlineStatAt queueStatAt)
open UrmsTransfer (MAX_MAINLINES MAX_METERED_LANES)

/-- The words of `mainline_lead_occ[i]`, `mainline_trail_occ[i]` and `queue_occ[i]`. -/
def leadOccAt (i : Nat) : Int := i
def trailOccAt (i : Nat) : Int := 8 + i
def queueOccAt (i : Nat) : Int := 16 + i

/-- The first of the two words of `metering_rate`. -/
def meteringRateAt : Int := 20

/-- The arrays that the loop indexes. -/
inductive DataArray where
  | mainlineStat
  | queueStatRow
  | mainlineLeadOcc
  | mainlineTrailOcc
  | queueOcc
deriving DecidableEq

/-- How many elements they have. -/
def DataArray.length : DataArray → Nat
  | .mainlineStat => MAX_MAINLINES
  | .queueStatRow => MAX_METERED_LANES
  | .mainlineLeadOcc => 8
  | .mainlineTrailOcc => 8
  | .queueOcc => 4

/-- The words, and the indices used so far. -/
structure Datafile (W : Type) where
  words : Mem W
  uses : List (DataArray × Nat)

variable {W : Type} (float : ℚ → W)

/-- `0.1 * ((msb << 8) + (unsigned char) lsb)`. -/
def occOf (response : List Byte) (a : Nat) : ℚ := wordAt response a / 10

/-- One turn of the loop. -/
def copyTurn (response : List Byte) (s : Datafile W) (i : Nat) : Datafile W where
  words :=
    ((s.words.store (leadOccAt i) (float (occOf response (mainlineStatAt i + 2)))).store
      (trailOccAt i) (float (occOf response (mainlineStatAt i + 6)))).store
      (queueOccAt i) (float (occOf response (queueStatAt 0 i + 1)))
  uses := s.uses ++ [(.mainlineStat, i), (.mainlineLeadOcc, i), (.mainlineStat, i),
    (.mainlineTrailOcc, i), (.queueStatRow, i), (.queueOcc, i)]

/-- The loop, for a number of turns. -/
def copyTurns (response : List Byte) (words : Mem W) (n : Nat) : Datafile W :=
  (List.range n).foldl (copyTurn float response) { words := words, uses := [] }

/-- The per-poll copy into `urms_datafile`. -/
def copyDatafile (response : List Byte) (words : Mem W) : Datafile W :=
  copyTurns float response words MAX_MAINLINES

/-- A big-endian occupancy of 16 bits. -/
def bigEndianAt (response : List Byte) (a : Nat) : ℚ :=
  (256 * (UrmsPolls.byteAt response a).toNat + (UrmsPolls.byteAt response (a + 1)).toNat : Nat)

/-- What the copy is to do: every occupancy in its place, a tenth of what the controller
reports; no index out of bounds; and nothing else changed. -/
structure DatafileCopied (response : List Byte) (before : Mem W) (after : Datafile W) : Prop where
  lead : ∀ k < 8, after.words.cell (leadOccAt k) =
    float (bigEndianAt response (mainlineStatAt k + 2) / 10)
  trail : ∀ k < 8, after.words.cell (trailOccAt k) =
    float (bigEndianAt response (mainlineStatAt k + 6) / 10)
  queue : ∀ k < 4, after.words.cell (queueOccAt k) =
    float (bigEndianAt response (queueStatAt 0 k + 1) / 10)
  bounds : ∀ use ∈ after.uses, use.2 < use.1.length
  frame : ∀ a, a < 0 ∨ meteringRateAt ≤ a → after.words.cell a = before.cell a

/-! ## What the loop does -/

theorem copyTurns_succ (response : List Byte) (words : Mem W) (n : Nat) :
    copyTurns float response words (n + 1) =
      copyTurn float response (copyTurns float response words n) n := by
  rw [copyTurns, List.range_succ, List.foldl_append]
  rfl

/-- After some turns: the words written, and the others as they were. -/
structure CopiedTo (response : List Byte) (before : Mem W) (n : Nat) (words : Mem W) : Prop where
  lead : ∀ k < n, words.cell (leadOccAt k) = float (occOf response (mainlineStatAt k + 2))
  trail : ∀ k < n, words.cell (trailOccAt k) = float (occOf response (mainlineStatAt k + 6))
  queue : ∀ k < n, words.cell (queueOccAt k) = float (occOf response (queueStatAt 0 k + 1))
  frame : ∀ a, a < 0 ∨ 16 + (n : Int) ≤ a → words.cell a = before.cell a

/-- A store of one of the three arrays, seen from the words of all of them. -/
private theorem copyTurn_cell (response : List Byte) (s : Datafile W) (i : Nat) (a : Int) :
    (copyTurn float response s i).words.cell a =
      if a = queueOccAt i then float (occOf response (queueStatAt 0 i + 1))
      else if a = trailOccAt i then float (occOf response (mainlineStatAt i + 6))
      else if a = leadOccAt i then float (occOf response (mainlineStatAt i + 2))
      else s.words.cell a := by
  rw [copyTurn]
  by_cases hq : a = queueOccAt i
  · rw [if_pos hq, hq, Mem.store_cell_same]
  · rw [if_neg hq, Mem.store_cell_ne _ _ hq]
    by_cases ht : a = trailOccAt i
    · rw [if_pos ht, ht, Mem.store_cell_same]
    · rw [if_neg ht, Mem.store_cell_ne _ _ ht]
      by_cases hl : a = leadOccAt i
      · rw [if_pos hl, hl, Mem.store_cell_same]
      · rw [if_neg hl, Mem.store_cell_ne _ _ hl]

/-- **What the loop leaves, turn by turn**: the occupancies with a signed high byte, and the
queues' ones running on behind `queue_occ`. -/
theorem copiedTo_copyTurns (response : List Byte) (before : Mem W) {n : Nat}
    (hn : n ≤ MAX_MAINLINES) :
    CopiedTo float response before n (copyTurns float response before n).words := by
  simp only [MAX_MAINLINES] at hn
  induction n with
  | zero =>
      refine ⟨?_, ?_, ?_, fun _ _ => rfl⟩ <;>
        exact fun k hk => absurd hk (Nat.not_lt_zero k)
  | succ n ih =>
      obtain ⟨hlead, htrail, hqueue, hframe⟩ := ih (by omega)
      rw [copyTurns_succ]
      refine ⟨?_, ?_, ?_, ?_⟩
      · intro k hk
        rw [copyTurn_cell, if_neg (by simp only [leadOccAt, queueOccAt]; omega),
          if_neg (by simp only [leadOccAt, trailOccAt]; omega)]
        by_cases hkn : k = n
        · rw [hkn, if_pos rfl]
        · rw [if_neg (by simp only [leadOccAt]; omega)]
          exact hlead k (by omega)
      · intro k hk
        rw [copyTurn_cell, if_neg (by simp only [trailOccAt, queueOccAt]; omega)]
        by_cases hkn : k = n
        · rw [hkn, if_pos rfl]
        · rw [if_neg (by simp only [trailOccAt]; omega),
            if_neg (by simp only [trailOccAt, leadOccAt]; omega)]
          exact htrail k (by omega)
      · intro k hk
        rw [copyTurn_cell]
        by_cases hkn : k = n
        · rw [hkn, if_pos rfl]
        · rw [if_neg (by simp only [queueOccAt]; omega),
            if_neg (by simp only [trailOccAt, queueOccAt]; omega),
            if_neg (by simp only [leadOccAt, queueOccAt]; omega)]
          exact hqueue k (by omega)
      · intro a ha
        rw [copyTurn_cell, if_neg (by simp only [queueOccAt]; omega),
          if_neg (by simp only [trailOccAt]; omega), if_neg (by simp only [leadOccAt]; omega)]
        exact hframe a (by omega)

/-- An occupancy is a tenth of the 16 bits exactly when its high byte is below `0x80`. -/
theorem occOf_eq_iff (response : List Byte) (a : Nat) :
    occOf response a = bigEndianAt response a / 10 ↔
      (UrmsPolls.byteAt response a).toNat < 128 := by
  have hten : occOf response a = bigEndianAt response a / 10 ↔
      wordAt response a =
        ((256 * (UrmsPolls.byteAt response a).toNat +
          (UrmsPolls.byteAt response (a + 1)).toNat : Nat) : Int) := by
    rw [occOf, bigEndianAt, div_left_inj' (by norm_num)]
    norm_cast
  rw [hten, wordAt, BitVec.toInt_eq_toNat_cond]
  have hlt := (UrmsPolls.byteAt response a).isLt
  split <;> omega

/-- **The copy is never right**: the fifth turn indexes `queue_occ` and a row of `queue_stat`
behind their end, whatever the response. -/
theorem datafile_never_copied (response : List Byte) (before : Mem W) :
    ¬DatafileCopied float response before (copyDatafile float response before) := by
  intro h
  have huse : ((DataArray.queueOcc, 4) : DataArray × Nat) ∈
      (copyDatafile float response before).uses := by
    have huses : (copyDatafile float response before).uses =
        (List.range MAX_MAINLINES).flatMap fun i => [(.mainlineStat, i), (.mainlineLeadOcc, i),
          (.mainlineStat, i), (.mainlineTrailOcc, i), (.queueStatRow, i), (.queueOcc, i)] := rfl
    rw [huses]
    decide
  exact absurd (h.bounds _ huse) (by decide)

/-- A response whose second queue loop of the first lane has an occupancy of one per cent. -/
private def secondLoopResponse : List Byte :=
  List.replicate 357 0 ++ [10] ++ List.replicate 59 0

/-- One per cent in the second queue loop of the first lane overwrites `metering_rate`. -/
theorem metering_rate_overwritten :
    ¬ ∀ (response : List Byte) (before : Mem ℚ),
      DatafileCopied id response before (copyDatafile id response before) := by
  intro h
  have hkept := (h secondLoopResponse (.ofList 0 [])).frame meteringRateAt (Or.inr le_rfl)
  have hstored := (copiedTo_copyTurns id secondLoopResponse (.ofList 0 []) le_rfl).queue 4
    (by decide)
  have hone : occOf secondLoopResponse (queueStatAt 0 4 + 1) = 1 := by decide +kernel
  have hsame : (1 : ℚ) = 0 := by
    calc (1 : ℚ) = (copyDatafile id secondLoopResponse (.ofList 0 [])).words.cell (queueOccAt 4) :=
          (hstored.trans hone).symm
      _ = 0 := hkept
  exact absurd hsame one_ne_zero

end RfsAtsc.UrmsDatafile
