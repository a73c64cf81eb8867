import RfsAtsc.Fcs
import Mathlib.Tactic.IntervalCases

/-!
# Phase status from a long status message

The message names the active phases, one bit each, and the interval of either ring, one
nibble each.  From these the colour of every active phase is looked up, and the byte of
the yellow phases is gathered.
-/

namespace RfsAtsc.PhaseStatus

def RED : Byte := 0
def YELOW : Byte := 1
def GREEN : Byte := 2

def intervalColor : List Byte :=
  [GREEN, RED, GREEN, RED, GREEN, GREEN, GREEN, GREEN,
   RED, RED, RED, RED, YELOW, YELOW, RED, RED]

/-- What is read of `get_long_status8_resp_mess_typ`. -/
structure LongStatus where
  activePhase : Byte
  interval : Byte

/-- `phase_status_t`, its time stamp left out. -/
structure PhaseStatusT where
  greens : Byte
  yellows : Byte
  reds : Byte
  phaseStatusColors : Nat → Byte
  barrierFlag : Byte

def zeroStatus : PhaseStatusT :=
  { greens := 0, yellows := 0, reds := 0, phaseStatusColors := fun _ => 0, barrierFlag := 0 }

/-- The interval is `max termination` or `gap termination`. -/
def Terminates (interval : Byte) : Prop := interval = 0xc ∨ interval = 0xd

instance (interval : Byte) : Decidable (Terminates interval) :=
  inferInstanceAs (Decidable (_ ∨ _))

/-- Phase `i` takes the colour of the interval, and the phases of the mask the yellow. -/
def setPhase (pstatus : LongStatus) (i : Nat) (intervalTemp mask : Byte) (p : PhaseStatusT) :
    PhaseStatusT :=
  { p with
    phaseStatusColors :=
      Function.update p.phaseStatusColors i (intervalColor.getD intervalTemp.toNat 0)
    yellows :=
      if Terminates intervalTemp then p.yellows ||| (pstatus.activePhase &&& mask)
      else p.yellows }

/-- One turn of the loop.  Only the `else` is skipped for ring A: the last three
statements run for either ring, with the nibble the turn has last read. -/
def phaseTurn (pstatus : LongStatus) (p : PhaseStatusT) (i : Nat) : PhaseStatusT :=
  if pstatus.activePhase &&& ((1 : Byte) <<< i) ≠ 0 then
    if pstatus.activePhase &&& ((1 : Byte) <<< i) ≤ 8 then
      let intervalTemp := pstatus.interval &&& 0xf
      setPhase pstatus i intervalTemp 0xf0 (setPhase pstatus i intervalTemp 0xf p)
    else
      let intervalTemp := (pstatus.interval >>> 4) &&& 0xf
      setPhase pstatus i intervalTemp 0xf0 p
  else p

/-- The status of a message, and the greens kept for the next one. -/
def processPhaseStatus (greensSav : Byte) (pstatus : LongStatus) (greens : Byte) :
    PhaseStatusT × Byte :=
  let p := (List.range 8).foldl (phaseTurn pstatus) { zeroStatus with greens := greens }
  ({ p with
      reds := ~~~ (p.greens ||| p.yellows)
      barrierFlag := if greensSav = 0x22 ∧ greens &&& greensSav = 0 then 1 else 0 },
    greens)

/-! ## One turn -/

/-- The phase is active. -/
def LongStatus.Active (m : LongStatus) (i : Nat) : Prop := m.activePhase.getLsbD i = true

instance (m : LongStatus) (i : Nat) : Decidable (m.Active i) :=
  inferInstanceAs (Decidable (_ = _))

/-- The interval nibble of the phase's ring: the low one for phases 1 to 4. -/
def LongStatus.ringInterval (m : LongStatus) (i : Nat) : Byte :=
  if i < 4 then m.interval &&& 0xf else (m.interval >>> 4) &&& 0xf

/-- The mask of a phase picks its bit of the active phases. -/
theorem active_mask (m : LongStatus) (i : Nat) :
    m.activePhase &&& ((1 : Byte) <<< i) = if m.Active i then BitVec.twoPow 8 i else 0 := by
  have hone : (1 : Byte) <<< i = BitVec.twoPow 8 i := (BitVec.twoPow_eq 8 i).symm
  rw [hone, BitVec.and_twoPow]
  rfl

/-- The turn of an active phase, by its ring. -/
theorem phaseTurn_eq (m : LongStatus) (p : PhaseStatusT) {i : Nat} (hi : i < 8) :
    phaseTurn m p i =
      if m.Active i then
        setPhase m i (m.ringInterval i) 0xf0
          (if i < 4 then setPhase m i (m.ringInterval i) 0xf p else p)
      else p := by
  unfold phaseTurn LongStatus.ringInterval
  by_cases hactive : m.Active i
  · have hplace : (BitVec.twoPow 8 i ≠ 0) ∧ (BitVec.twoPow 8 i ≤ 8 ↔ i < 4) := by
      interval_cases i <;> decide
    by_cases hring : i < 4
    · simp only [active_mask, if_pos hactive, hplace.1, hplace.2, hring, if_true, ne_eq,
        not_false_eq_true]
    · simp only [active_mask, if_pos hactive, hplace.1, hplace.2, hring, if_true, if_false,
        ne_eq, not_false_eq_true]
  · simp only [active_mask, if_neg hactive, ne_eq, not_true_eq_false, if_false]

/-- An active phase takes the colour of its own ring. -/
theorem phaseTurn_colors (m : LongStatus) (p : PhaseStatusT) {i : Nat} (hi : i < 8) (k : Nat) :
    (phaseTurn m p i).phaseStatusColors k =
      if k = i ∧ m.Active i then intervalColor.getD (m.ringInterval i).toNat 0
      else p.phaseStatusColors k := by
  rw [phaseTurn_eq m p hi]
  by_cases hactive : m.Active i
  · rw [if_pos hactive]
    by_cases hk : k = i
    · subst hk
      simp only [hactive, and_self, if_true, setPhase, Function.update_self]
    · simp only [hk, false_and, if_false]
      split
      · simp only [setPhase, Function.update_of_ne hk]
      · simp only [setPhase, Function.update_of_ne hk]
  · simp only [hactive, and_false, if_false]

/-- What the turn of phase `i` makes yellow: the active phases of its own ring and,
whichever ring that is, the active phases of ring B. -/
def Spreads (m : LongStatus) (i k : Nat) : Prop :=
  m.Active i ∧ Terminates (m.ringInterval i) ∧ m.Active k ∧ (i < 4 ∨ 4 ≤ k)

/-- The low mask has the phases of ring A. -/
private theorem lowMask_bit {k : Nat} (hk : k < 8) :
    (0xf : Byte).getLsbD k = decide (k < 4) := by
  interval_cases k <;> rfl

/-- The high mask has those of ring B. -/
private theorem highMask_bit {k : Nat} (hk : k < 8) :
    (0xf0 : Byte).getLsbD k = decide (4 ≤ k) := by
  interval_cases k <;> rfl

/-- A phase adds the active phases of its ring to the yellows when its interval ends a green. -/
theorem setPhase_yellows (m : LongStatus) (i : Nat) (intervalTemp mask : Byte)
    (p : PhaseStatusT) (k : Nat) :
    (setPhase m i intervalTemp mask p).yellows.getLsbD k = true ↔
      p.yellows.getLsbD k = true ∨
        (Terminates intervalTemp ∧ m.Active k ∧ mask.getLsbD k = true) := by
  unfold setPhase LongStatus.Active
  by_cases hends : Terminates intervalTemp
  · simp [hends]
  · simp [hends]

/-- A turn adds the phases that its own spreads to. -/
theorem phaseTurn_yellows (m : LongStatus) (p : PhaseStatusT) {i k : Nat} (hi : i < 8)
    (hk : k < 8) :
    (phaseTurn m p i).yellows.getLsbD k = true ↔
      p.yellows.getLsbD k = true ∨ Spreads m i k := by
  rw [phaseTurn_eq m p hi]
  unfold Spreads
  by_cases hactive : m.Active i
  · by_cases hring : i < 4
    · simp only [if_pos hactive, if_pos hring, setPhase_yellows, lowMask_bit hk,
        highMask_bit hk, decide_eq_true_eq]
      have hside : k < 4 ∨ 4 ≤ k := Nat.lt_or_ge k 4
      grind
    · simp only [if_pos hactive, if_neg hring, setPhase_yellows, highMask_bit hk,
        decide_eq_true_eq]
      grind
  · simp [hactive]

/-! ## The loop -/

/-- The turns add what each of them does. -/
theorem phaseTurns_yellows (m : LongStatus) {k : Nat} (hk : k < 8) (phases : List Nat)
    (hphases : ∀ i ∈ phases, i < 8) (p : PhaseStatusT) :
    (phases.foldl (phaseTurn m) p).yellows.getLsbD k = true ↔
      p.yellows.getLsbD k = true ∨ ∃ i ∈ phases, Spreads m i k := by
  induction phases generalizing p with
  | nil => simp
  | cons i phases ih =>
      have hi : i < 8 := hphases i (List.mem_cons_self ..)
      rw [List.foldl_cons, ih (fun j hj => hphases j (List.mem_cons_of_mem i hj)),
        phaseTurn_yellows m p hi hk, or_assoc]
      simp only [List.mem_cons, exists_eq_or_imp]

/-- The colour of an active phase is that of its ring's interval. -/
theorem phaseTurns_colors (m : LongStatus) (k : Nat) (phases : List Nat)
    (hphases : ∀ i ∈ phases, i < 8) (p : PhaseStatusT) :
    (phases.foldl (phaseTurn m) p).phaseStatusColors k =
      if k ∈ phases ∧ m.Active k then intervalColor.getD (m.ringInterval k).toNat 0
      else p.phaseStatusColors k := by
  induction phases generalizing p with
  | nil => simp
  | cons i phases ih =>
      have hi : i < 8 := hphases i (List.mem_cons_self ..)
      rw [List.foldl_cons, ih (fun j hj => hphases j (List.mem_cons_of_mem i hj)),
        phaseTurn_colors m p hi]
      by_cases hk : k = i
      · subst hk
        by_cases hactive : m.Active k
        · simp [hactive]
        · simp [hactive]
      · simp [hk]

/-- The turns are those of eight phases. -/
private theorem phase_lt {i : Nat} (hi : i ∈ List.range 8) : i < 8 := List.mem_range.mp hi

/-- Every active phase has the colour of its own ring's interval, and the others none. -/
theorem processPhaseStatus_colors (greensSav greens : Byte) (m : LongStatus) {k : Nat}
    (hk : k < 8) :
    (processPhaseStatus greensSav m greens).1.phaseStatusColors k =
      if m.Active k then intervalColor.getD (m.ringInterval k).toNat 0 else 0 := by
  have hturns := phaseTurns_colors m k (List.range 8) (fun _ => phase_lt)
    { zeroStatus with greens := greens }
  simpa [processPhaseStatus, hk, zeroStatus] using hturns

/-- Yellow are the active phases of a ring that terminates and, where ring A does with a
phase active, every active phase of ring B. -/
theorem processPhaseStatus_yellows (greensSav greens : Byte) (m : LongStatus) {k : Nat}
    (hk : k < 8) :
    (processPhaseStatus greensSav m greens).1.yellows.getLsbD k = true ↔
      m.Active k ∧ (Terminates (m.ringInterval k) ∨
        (4 ≤ k ∧ ∃ i < 4, m.Active i ∧ Terminates (m.ringInterval i))) := by
  have hturns := phaseTurns_yellows m hk (List.range 8) (fun _ => phase_lt)
    { zeroStatus with greens := greens }
  have hzero : zeroStatus.yellows.getLsbD k = false := BitVec.getLsbD_zero
  unfold processPhaseStatus
  simp only [hturns, hzero, Bool.false_eq_true, false_or, List.mem_range]
  constructor
  · intro hspread
    obtain ⟨i, hi, hactive, hends, hk', hside⟩ := hspread
    refine ⟨hk', ?_⟩
    by_cases hring : i < 4 ↔ k < 4
    · -- the same ring has the same interval
      have hown : m.ringInterval i = m.ringInterval k := by
        unfold LongStatus.ringInterval
        simp only [hring]
      exact Or.inl (hown ▸ hends)
    · exact Or.inr ⟨by omega, i, by omega, hactive, hends⟩
  · intro hyellow
    obtain ⟨hactive, hown | hother⟩ := hyellow
    · exact ⟨k, hk, hactive, hown, hactive, by omega⟩
    · obtain ⟨hring, i, hi, hactive', hends⟩ := hother
      exact ⟨i, by omega, hactive', hends, hactive, Or.inl hi⟩

/-! ## Yellows and colours by ring -/

/-- Yellow are the active phases whose own ring terminates, and an active phase has the
colour of its own ring's interval. -/
def OwnRing (m : LongStatus) (p : PhaseStatusT) : Prop :=
  (∀ i < 8, p.yellows.getLsbD i = true ↔ m.Active i ∧ Terminates (m.ringInterval i)) ∧
    ∀ i < 8, m.Active i →
      p.phaseStatusColors i = intervalColor.getD (m.ringInterval i).toNat 0

/-- A phase of ring A is active and terminates while one of ring B is active and does
not. -/
def RingsDiffer (m : LongStatus) : Prop :=
  (∃ i < 4, m.Active i ∧ Terminates (m.ringInterval i)) ∧
    ∃ k < 8, 4 ≤ k ∧ m.Active k ∧ ¬ Terminates (m.ringInterval k)

/-- **The status goes by the phase's own ring, unless ring A alone terminates with phases
of both rings active.** -/
theorem processPhaseStatus_ownRing_iff (greensSav greens : Byte) (m : LongStatus) :
    OwnRing m (processPhaseStatus greensSav m greens).1 ↔ ¬ RingsDiffer m := by
  constructor
  · intro hown hdiffer
    obtain ⟨hringA, k, hk, hringB, hactive, hlasts⟩ := hdiffer
    have hyellow := (processPhaseStatus_yellows greensSav greens m hk).mpr
      ⟨hactive, Or.inr ⟨hringB, hringA⟩⟩
    exact hlasts ((hown.1 k hk).mp hyellow).2
  · intro hsame
    refine ⟨fun k hk => ?_, fun k hk hactive => ?_⟩
    · apply (processPhaseStatus_yellows greensSav greens m hk).trans
      constructor
      · intro hyellow
        obtain ⟨hactive, hown | hother⟩ := hyellow
        · exact ⟨hactive, hown⟩
        · refine ⟨hactive, ?_⟩
          by_contra hlasts
          exact hsame ⟨hother.2, k, hk, hother.1, hactive, hlasts⟩
      · exact fun h => ⟨h.1, Or.inl h.2⟩
    · rw [processPhaseStatus_colors greensSav greens m hk, if_pos hactive]

/-- Phases 1 and 5 active, ring A in gap termination and ring B in passage. -/
def gapOut : LongStatus := { activePhase := 0x11, interval := 0x5d }

/-- Phase 5 is reported yellow while its ring rests in passage. -/
theorem gapOut_ownRing_fails :
    ¬ ∀ (greensSav greens : Byte) (m : LongStatus),
      OwnRing m (processPhaseStatus greensSav m greens).1 := by
  intro hall
  have hyellow := (hall 0 0 gapOut).1 4 (by decide)
  have hset : (processPhaseStatus 0 gapOut 0).1.yellows.getLsbD 4 = true := by decide
  have hlasts : ¬ Terminates (gapOut.ringInterval 4) := by decide
  exact hlasts (hyellow.mp hset).2

end RfsAtsc.PhaseStatus
