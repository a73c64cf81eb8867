import RfsAtsc.ChangeWriter
import RfsAtsc.PhasesLoop

/-!
# The sniffer: `sniffer/atsc_db.c`

The sniffer reads which lamps burn as one byte of digital inputs, a `0` for a lamp
that is on, and a table says which phase and colour each input belongs to.
`write_atsc_db_var` builds a record from the byte and writes it when the greens of
phases 1 to 8 are not those of the record written last.
-/

namespace RfsAtsc.Sniffer

open RfsAtsc.Phases EventMachine

/-- `phase_color`: `N`, and whatever else the table holds, is not assigned. -/
inductive PhaseColor where
  | G
  | Y
  | R
  | N
deriving DecidableEq

/-- `bit_to_nema_phase_t`. -/
structure BitToNemaPhase where
  phaseColor : PhaseColor
  phaseNumber : Byte

/-- `nema_asg` with its `num_bits_to_nema` entries, one for each bit of a byte. -/
structure NemaAsg where
  bits : List BitToNemaPhase
  length_le : bits.length ≤ 8

/-- A record with all fields 0. -/
def zeroAtsc : AtscTyp where
  phaseStatusReds := 0
  phaseStatusYellows := 0
  phaseStatusGreens := 0
  infoSource := 0

/-- `switch (p->phase_color)`. -/
def setColor (current : AtscTyp) (p : BitToNemaPhase) : AtscTyp :=
  match p.phaseColor with
  | .G => { current with
      phaseStatusGreens := setAtscPhase current.phaseStatusGreens p.phaseNumber.toNat }
  | .R => { current with
      phaseStatusReds := setAtscPhase current.phaseStatusReds p.phaseNumber.toNat }
  | .Y => { current with
      phaseStatusYellows := setAtscPhase current.phaseStatusYellows p.phaseNumber.toNat }
  | .N => current

/-- The loop over the bits, from bit `i` on. -/
def setBits (digioByte : Byte) : Nat → List BitToNemaPhase → AtscTyp → AtscTyp
  | _, [], current => current
  | i, p :: rest, current =>
      -- 0 means on
      let bitSet := !digioByte.getLsbD i
      setBits digioByte (i + 1) rest (if bitSet then setColor current p else current)

/-- The record `write_atsc_db_var` builds. -/
def currentAtsc (nemaAsg : NemaAsg) (digioByte : Byte) : AtscTyp :=
  { setBits digioByte 0 nemaAsg.bits zeroAtsc with infoSource := ATSC_SOURCE_SNIFF }

/-- The static variable of `atsc_db.c` and the database variable it writes. -/
structure State where
  lastGreens : Byte
  atscVar : AtscTyp

/-- `write_atsc_db_var`, with the records it writes. -/
def writeAtscDbVar (nemaAsg : NemaAsg) (s : State) (digioByte : Byte) : State × List AtscTyp :=
  let current := currentAtsc nemaAsg digioByte
  if current.phaseStatusGreens 0 ≠ s.lastGreens then
    ({ lastGreens := current.phaseStatusGreens 0, atscVar := current }, [current])
  else (s, [])

/-- The sniffer, fed one byte at a time. -/
def sniffer (nemaAsg : NemaAsg) : Machine State Byte AtscTyp where
  step := writeAtscDbVar nemaAsg

/-- Before the first byte: the variable is all zero. -/
def State.initial : State where
  lastGreens := 0
  atscVar := zeroAtsc

/-! ## What a record shows -/

/-- The lamps of one colour in a record. -/
def lamps (atsc : AtscTyp) : PhaseColor → StatusArray
  | .G => atsc.phaseStatusGreens
  | .Y => atsc.phaseStatusYellows
  | .R => atsc.phaseStatusReds
  | .N => 0

/-- An input assigned to a colour of a phase reads 0. -/
def Lit (nemaAsg : NemaAsg) (color : PhaseColor) (phase : Int) (digioByte : Byte) : Prop :=
  ∃ i p, nemaAsg.bits[i]? = some p ∧ p.phaseColor = color ∧ (p.phaseNumber.toNat : Int) = phase ∧
    digioByte.getLsbD i = false

/-- A record shows a byte: in every group element, a bit of a colour is set exactly when
an input assigned to it reads 0. -/
def Shows (nemaAsg : NemaAsg) (atsc : AtscTyp) (digioByte : Byte) : Prop :=
  ∀ color, color ≠ .N → ∀ phase : Int, 1 ≤ phase → phase ≤ 8 * MAX_PHASE_STATUS_GROUPS →
    (atscPhaseIsSet (lamps atsc color) phase = 1 ↔ Lit nemaAsg color phase digioByte)

/-- One entry of the table goes to the lamps of its own colour and leaves the others. -/
private theorem lamps_setColor (current : AtscTyp) (p : BitToNemaPhase) {color : PhaseColor}
    (hcolor : color ≠ .N) :
    lamps (setColor current p) color =
      if p.phaseColor = color then setAtscPhase (lamps current color) p.phaseNumber.toNat
      else lamps current color := by
  cases hp : p.phaseColor <;> cases color <;> simp [setColor, lamps, hp] at hcolor ⊢

/-- One entry of the table sets its own bit of its own colour. -/
theorem setColor_isSet (current : AtscTyp) (p : BitToNemaPhase) {color : PhaseColor}
    (hcolor : color ≠ .N) {k : Nat} (hk : k < 32) :
    atscPhaseIsSet (lamps (setColor current p) color) (k + 1) = 1 ↔
      atscPhaseIsSet (lamps current color) (k + 1) = 1 ∨
        p.phaseColor = color ∧ p.phaseNumber.toNat = k + 1 := by
  rw [lamps_setColor current p hcolor]
  by_cases hown : p.phaseColor = color
  · rw [if_pos hown, setAtscPhase_isSet _ _ hk]
    simp [hown]
  · simp [hown]

/-- The loop adds the bits whose inputs read 0. -/
theorem setBits_isSet (digioByte : Byte) (i : Nat) (bits : List BitToNemaPhase)
    (current : AtscTyp) {color : PhaseColor} (hcolor : color ≠ .N) {k : Nat} (hk : k < 32) :
    atscPhaseIsSet (lamps (setBits digioByte i bits current) color) (k + 1) = 1 ↔
      atscPhaseIsSet (lamps current color) (k + 1) = 1 ∨
        ∃ j p, bits[j]? = some p ∧ p.phaseColor = color ∧ p.phaseNumber.toNat = k + 1 ∧
          digioByte.getLsbD (i + j) = false := by
  induction bits generalizing i current with
  | nil => simp [setBits]
  | cons p rest ih =>
      have hsplit : (∃ j q, (p :: rest)[j]? = some q ∧ q.phaseColor = color ∧
          q.phaseNumber.toNat = k + 1 ∧ digioByte.getLsbD (i + j) = false) ↔
            (p.phaseColor = color ∧ p.phaseNumber.toNat = k + 1 ∧ digioByte.getLsbD i = false) ∨
              ∃ j q, rest[j]? = some q ∧ q.phaseColor = color ∧
                q.phaseNumber.toNat = k + 1 ∧ digioByte.getLsbD (i + 1 + j) = false := by
        rw [← Nat.or_exists_add_one]
        simp only [List.getElem?_cons_zero, List.getElem?_cons_succ, Option.some.injEq,
          exists_eq_left', Nat.add_zero, Nat.add_assoc, Nat.add_comm 1]
      rw [setBits, ih, hsplit]
      by_cases hbit : digioByte.getLsbD i = false
      · rw [hbit, Bool.not_false, if_pos rfl, setColor_isSet current p hcolor hk, or_assoc]
        simp
      · rw [Bool.not_eq_false] at hbit
        rw [hbit, Bool.not_true, if_neg (by simp)]
        simp

/-- The numbers of the phases of a group. -/
private theorem phase_number {phase : Int} (hlow : 1 ≤ phase)
    (hhigh : phase ≤ 8 * MAX_PHASE_STATUS_GROUPS) : ∃ k : Nat, k < 32 ∧ phase = k + 1 := by
  simp only [MAX_PHASE_STATUS_GROUPS] at hhigh
  exact ⟨(phase - 1).toNat, by omega, by omega⟩

private theorem zero_not_isSet {k : Nat} (hk : k < 32) :
    ¬ atscPhaseIsSet 0 (k + 1) = 1 := by
  rw [atscPhaseIsSet_iff _ hk]
  simp

/-- The record built from a byte shows it. -/
theorem currentAtsc_shows (nemaAsg : NemaAsg) (digioByte : Byte) :
    Shows nemaAsg (currentAtsc nemaAsg digioByte) digioByte := by
  intro color hcolor phase hlow hhigh
  obtain ⟨k, hk, rfl⟩ := phase_number hlow hhigh
  have hlamps : lamps (currentAtsc nemaAsg digioByte) color
      = lamps (setBits digioByte 0 nemaAsg.bits zeroAtsc) color := by
    cases color <;> rfl
  have hzero : lamps zeroAtsc color = 0 := by
    cases color <;> rfl
  rw [hlamps, setBits_isSet digioByte 0 nemaAsg.bits zeroAtsc hcolor hk, hzero,
    or_iff_right (zero_not_isSet hk), Lit]
  simp only [Nat.zero_add]
  norm_cast

/-- With every input off the record stays all zero. -/
theorem setBits_off (i : Nat) (bits : List BitToNemaPhase) (current : AtscTyp)
    (h : i + bits.length ≤ 8) : setBits 0xff i bits current = current := by
  induction bits generalizing i with
  | nil => rfl
  | cons p rest ih =>
      rw [List.length_cons] at h
      have hoff : (0xff : Byte).getLsbD i = true := by
        have hones : (0xff : Byte) = BitVec.allOnes 8 := by decide
        rw [hones, BitVec.getLsbD_allOnes]
        simp
        omega
      rw [setBits, hoff]
      exact ih (i + 1) (by omega)

/-- The variable starts as if every input had been off. -/
theorem initial_shows (nemaAsg : NemaAsg) : Shows nemaAsg zeroAtsc 0xff := by
  have hshows := currentAtsc_shows nemaAsg 0xff
  rw [currentAtsc, setBits_off 0 nemaAsg.bits zeroAtsc (by simpa using nemaAsg.length_le)] at hshows
  intro color hcolor phase hlow hhigh
  have hlamps : lamps zeroAtsc color
      = lamps { zeroAtsc with infoSource := ATSC_SOURCE_SNIFF } color := by
    cases color <;> rfl
  rw [hlamps]
  exact hshows color hcolor phase hlow hhigh

/-! ## The writer -/

/-- `write_atsc_db_var` looks for a change in the greens of phases 1 to 8 only. -/
theorem writes (nemaAsg : NemaAsg) :
    ChangeWriter.Writes (sniffer nemaAsg) (currentAtsc nemaAsg) (fun r => r.phaseStatusGreens 0)
      State.atscVar State.lastGreens where
  changed s e hne := by
    simp only [sniffer, writeAtscDbVar, if_pos hne]
    exact ⟨trivial, trivial⟩
  unchanged s e heq := by
    simp only [sniffer, writeAtscDbVar, heq, ne_eq, not_true, if_false]
    exact ⟨trivial, trivial⟩

/-- The lamps of two bytes that show the same, phase by phase and colour by colour. -/
def SameLamps (nemaAsg : NemaAsg) (e e' : Byte) : Prop :=
  ∀ color, color ≠ .N → ∀ phase : Int, 1 ≤ phase → phase ≤ 8 * MAX_PHASE_STATUS_GROUPS →
    (Lit nemaAsg color phase e ↔ Lit nemaAsg color phase e')

/-- A byte after another brings no change, or one in the greens of phases 1 to 8. -/
def ChangeInGreens (nemaAsg : NemaAsg) (e e' : Byte) : Prop :=
  (∃ phase : Int, 1 ≤ phase ∧ phase ≤ 8 ∧ ¬ (Lit nemaAsg .G phase e ↔ Lit nemaAsg .G phase e')) ∨
    SameLamps nemaAsg e e'

/-- The first byte of the greens is the greens of phases 1 to 8. -/
theorem greens_eq_iff (nemaAsg : NemaAsg) (e e' : Byte) :
    (currentAtsc nemaAsg e').phaseStatusGreens 0 = (currentAtsc nemaAsg e).phaseStatusGreens 0 ↔
      ∀ phase : Int, 1 ≤ phase → phase ≤ 8 →
        (Lit nemaAsg .G phase e ↔ Lit nemaAsg .G phase e') := by
  have hbit : ∀ (b : Byte) (k : Nat), k < 8 →
      (((currentAtsc nemaAsg b).phaseStatusGreens 0).getLsbD k = true ↔
        Lit nemaAsg .G (k + 1) b) := by
    intro b k hk
    have hshown := currentAtsc_shows nemaAsg b .G (by decide) (k + 1) (by omega)
      (by simp only [MAX_PHASE_STATUS_GROUPS]; omega)
    rw [atscPhaseIsSet_iff _ (by omega), Nat.div_eq_of_lt hk, Nat.mod_eq_of_lt hk] at hshown
    exact hshown
  constructor
  · intro heq phase hlow hhigh
    obtain ⟨k, hk, rfl⟩ : ∃ k : Nat, k < 8 ∧ phase = k + 1 :=
      ⟨(phase - 1).toNat, by omega, by omega⟩
    rw [← hbit e k hk, ← hbit e' k hk, heq]
  · intro hsame
    apply BitVec.eq_of_getLsbD_eq
    intro k hk
    rw [Bool.eq_iff_iff, hbit e k hk, hbit e' k hk]
    exact (hsame (k + 1) (by omega) (by omega)).symm

/-- What a byte needs to be shown after another. -/
theorem follows_iff (nemaAsg : NemaAsg) (e e' : Byte) :
    ChangeWriter.Follows (currentAtsc nemaAsg) (fun r => r.phaseStatusGreens 0)
        (Shows nemaAsg) (SameLamps nemaAsg) e e' ↔ ChangeInGreens nemaAsg e e' := by
  have hgreens : (∃ phase : Int, 1 ≤ phase ∧ phase ≤ 8 ∧
      ¬ (Lit nemaAsg .G phase e ↔ Lit nemaAsg .G phase e')) ↔
        (currentAtsc nemaAsg e').phaseStatusGreens 0
          ≠ (currentAtsc nemaAsg e).phaseStatusGreens 0 := by
    rw [ne_eq, greens_eq_iff]
    push Not
    rfl
  rw [ChangeInGreens, hgreens, ChangeWriter.Follows]
  constructor
  · intro hfollows
    by_cases heq : (currentAtsc nemaAsg e').phaseStatusGreens 0
        = (currentAtsc nemaAsg e).phaseStatusGreens 0
    · exact Or.inr (hfollows.2 heq)
    · exact Or.inl heq
  · intro hchange
    refine ⟨fun _ => currentAtsc_shows nemaAsg e', fun heq => ?_⟩
    rcases hchange with hne | hsame
    · exact absurd heq hne
    · exact hsame

/-- **Publication, exactly.**  After every call the variable shows the latest byte
exactly when every byte that changes the lamps of the one before, the first byte those
of an input that is all off, changes a green of phases 1 to 8. -/
theorem sniffer_shows_iff (nemaAsg : NemaAsg) (bytes : List Byte) :
    (sniffer nemaAsg).Along State.initial
        (fun _ s digioByte =>
          Shows nemaAsg ((sniffer nemaAsg).step s digioByte).1.atscVar digioByte)
        bytes ↔
      List.IsChain (ChangeInGreens nemaAsg) (0xff :: bytes) := by
  have hstart : ChangeWriter.Current (currentAtsc nemaAsg) (fun r => r.phaseStatusGreens 0)
      State.atscVar State.lastGreens (Shows nemaAsg) State.initial 0xff := by
    refine ⟨initial_shows nemaAsg, rfl, ?_⟩
    rw [currentAtsc, setBits_off 0 nemaAsg.bits zeroAtsc (by simpa using nemaAsg.length_le)]
    rfl
  have hsame : ∀ r e e', Shows nemaAsg r e →
      r.phaseStatusGreens 0 = (currentAtsc nemaAsg e).phaseStatusGreens 0 →
      (currentAtsc nemaAsg e').phaseStatusGreens 0
        = (currentAtsc nemaAsg e).phaseStatusGreens 0 →
      (Shows nemaAsg r e' ↔ SameLamps nemaAsg e e') := by
    intro r e e' hshown _ _
    constructor
    · intro hshown' color hcolor phase hlow hhigh
      rw [← hshown color hcolor phase hlow hhigh, hshown' color hcolor phase hlow hhigh]
    · intro hlamps color hcolor phase hlow hhigh
      rw [hshown color hcolor phase hlow hhigh, hlamps color hcolor phase hlow hhigh]
  rw [(writes nemaAsg).shows_iff_chain hsame hstart bytes]
  exact List.IsChain.iff (follows_iff nemaAsg)

/-- The table of the site `rfs`. -/
def rfsNemaAsg : NemaAsg where
  bits := [⟨.G, 2⟩, ⟨.G, 4⟩, ⟨.Y, 2⟩, ⟨.Y, 4⟩]
  length_le := by decide

/-- Green, yellow and then red on phase 2: the end of the yellow is not written. -/
theorem sniffer_keeps_yellow :
    ¬ ∀ (nemaAsg : NemaAsg) (bytes : List Byte),
      (∀ p ∈ nemaAsg.bits, 1 ≤ p.phaseNumber ∧ p.phaseNumber ≤ 16) →
      (sniffer nemaAsg).Along State.initial
        (fun _ s digioByte =>
          Shows nemaAsg ((sniffer nemaAsg).step s digioByte).1.atscVar digioByte)
        bytes := by
  intro hall
  have hshown := hall rfsNemaAsg [0xfe, 0xfb, 0xff] (by decide) [0xfe, 0xfb] 0xff [] rfl
    .Y (by decide) 2 (by decide) (by decide)
  have hset : atscPhaseIsSet (lamps ((sniffer rfsNemaAsg).step
      ((sniffer rfsNemaAsg).run State.initial [0xfe, 0xfb]) 0xff).1.atscVar .Y) 2 = 1 := by
    decide
  obtain ⟨i, p, hp, hcolor, hphase, hoff⟩ := hshown.mp hset
  have hi : i < 4 := (List.getElem?_eq_some_iff.mp hp).1
  have hon : (0xff : Byte).getLsbD i = true := by
    match i, hi with
    | 0, _ => rfl
    | 1, _ => rfl
    | 2, _ => rfl
    | 3, _ => rfl
  exact absurd (hoff.symm.trans hon) (by decide)

end RfsAtsc.Sniffer
