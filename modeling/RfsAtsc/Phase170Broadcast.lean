import RfsAtsc.Phase170Messages

/-!
# What the broadcast record of `phase170e` decodes to

Readers of the status record take phase `p` to be bit `(p - 1) % 8` of byte `(p - 1) / 8` of
an array.  `phase170e` gives each phase a byte of its own and stores 1 there.  The two meet
in phase 1 alone, so the colours are read back only where every approach with a colour is
broadcast as phase 1, and in one colour.
-/

namespace RfsAtsc

open TracedMemory

/-- The colour that an array stands for. -/
def Lamp.color : Lamp → UChar
  | .red => SIGNAL_STATE_RED
  | .yellow => SIGNAL_STATE_YELLOW
  | .green => SIGNAL_STATE_GREEN

variable (site : E170Site) (tr : SignalTrace)

/-- Each approach finds, under its swapped phase number, exactly the bit of its own colour
set in the record that the tick broadcasts. -/
def ColorsReadBack : Prop :=
  ∀ i < site.totalNoApproaches.toNat, ∀ l : Lamp,
    atscPhaseIsSet (lampGroup (assemAtsc site tr) l) (site.swappedPhase i) = 1 ↔
      approachState site tr i = l.color

/-- Each approach that is green, yellow or red has swapped phase number 1, and so has none
of another colour. -/
def OnePhaseOneColor : Prop :=
  ∀ i < site.totalNoApproaches.toNat, (∃ l : Lamp, approachState site tr i = l.color) →
    site.swappedPhase i = 1 ∧
      ∀ j < site.totalNoApproaches.toNat, site.swappedPhase j = 1 →
        approachState site tr j = approachState site tr i

/-! ## The bytes stored -/

theorem Lamp.color_injective : Function.Injective Lamp.color := by
  intro l l' h
  cases l <;> cases l' <;> first | rfl | cases h

/-- A lamp's array is one of three. -/
theorem Lamp.offset_cases (l : Lamp) : l.offset = 0 ∨ l.offset = 4 ∨ l.offset = 8 := by
  cases l with
  | red => exact .inl rfl
  | yellow => exact .inr (.inl rfl)
  | green => exact .inr (.inr rfl)

/-- Approach `i` stores its colour at `a`. -/
def Lights (i : Nat) (a : Int) : Prop :=
  ∃ l : Lamp, approachState site tr i = l.color ∧ a = l.offset + (site.swappedPhase i - 1)

theorem swappedPhase_nonneg (i : Nat) : 0 ≤ site.swappedPhase i := Int.natCast_nonneg _

/-- What comes next is stored behind the colours. -/
theorem showNext_cell (i : Nat) (atsc : Mem UChar) {a : Int} (ha : a < 12) :
    (showNext site i atsc).cell a = atsc.cell a := by
  unfold showNext
  split
  · exact atsc.store_cell_ne 1 (by simp only [phaseStatusNext]; omega)
  · rfl

/-- So is what is on. -/
private theorem store_on_cell (i : Nat) (atsc : Mem UChar) {a : Int} (ha : a < 12) :
    (atsc.store (phaseStatusOns + (site.swappedPhase i - 1)) 1).cell a = atsc.cell a := by
  have hphase := swappedPhase_nonneg site i
  exact atsc.store_cell_ne 1 (by simp only [phaseStatusOns]; omega)

/-- An approach with a colour stores one byte among the colours. -/
theorem showApproach_lamp (l : Lamp) (i : Nat) (atsc : Mem UChar) {a : Int} (ha : a < 12) :
    (showApproach site l.color i atsc).cell a =
      (atsc.store (l.offset + (site.swappedPhase i - 1)) 1).cell a := by
  rw [showApproach, showNext_cell site i _ ha]
  cases l with
  | red => rfl
  | yellow => exact store_on_cell site i _ ha
  | green => exact store_on_cell site i _ ha

/-- An approach without one stores none. -/
theorem showApproach_dark {signalState : UChar} (hdark : ∀ l : Lamp, signalState ≠ l.color)
    (i : Nat) (atsc : Mem UChar) {a : Int} (ha : a < 12) :
    (showApproach site signalState i atsc).cell a = atsc.cell a := by
  have hgreen : signalState ≠ SIGNAL_STATE_GREEN := hdark .green
  have hyellow : signalState ≠ SIGNAL_STATE_YELLOW := hdark .yellow
  have hred : signalState ≠ SIGNAL_STATE_RED := hdark .red
  rw [showApproach, showNext_cell site i _ ha, showColor, if_neg hgreen, if_neg hyellow,
    if_neg hred]

/-- One turn of the loop, seen among the colours. -/
theorem broadcastApproach_cell (i : Nat) (atsc : Mem UChar) {a : Int} (ha : a < 12) :
    Lights site tr i a ∧ (broadcastApproach site tr atsc i).cell a = 1 ∨
      ¬ Lights site tr i a ∧ (broadcastApproach site tr atsc i).cell a = atsc.cell a := by
  by_cases hdark : ∀ l : Lamp, approachState site tr i ≠ l.color
  · refine .inr ⟨?_, showApproach_dark site hdark i atsc ha⟩
    intro hlit
    obtain ⟨l, hcolor, -⟩ := hlit
    exact hdark l hcolor
  · push Not at hdark
    obtain ⟨l, hcolor⟩ := hdark
    have hstored : (broadcastApproach site tr atsc i).cell a =
        (atsc.store (l.offset + (site.swappedPhase i - 1)) 1).cell a := by
      have hshown : (assemApproach site tr i).fields.signalState = l.color := hcolor
      rw [broadcastApproach, hshown]
      exact showApproach_lamp site l i atsc ha
    by_cases hplace : a = l.offset + (site.swappedPhase i - 1)
    · refine .inl ⟨⟨l, hcolor, hplace⟩, hstored.trans ?_⟩
      rw [hplace, Mem.store_cell_same]
    · refine .inr ⟨?_, hstored.trans (atsc.store_cell_ne 1 hplace)⟩
      intro hlit
      obtain ⟨l', hcolor', hplace'⟩ := hlit
      obtain rfl : l' = l := Lamp.color_injective (hcolor'.symm.trans hcolor)
      exact hplace hplace'

/-- **The colours of the record.**  A byte is 1 where some approach stores its colour, and
0 elsewhere. -/
theorem assemAtsc_cell {a : Int} (hlow : 0 ≤ a) (hhigh : a < 12) :
    let Lit := ∃ i < site.totalNoApproaches.toNat, Lights site tr i a
    Lit ∧ (assemAtsc site tr).cell a = 1 ∨ ¬ Lit ∧ (assemAtsc site tr).cell a = 0 := by
  unfold assemAtsc
  generalize site.totalNoApproaches.toNat = n
  induction n with
  | zero =>
      refine .inr ⟨?_, ?_⟩
      · intro hlit
        obtain ⟨i, hi, -⟩ := hlit
        exact absurd hi (Nat.not_lt_zero i)
      · exact Mem.write_cell_outside _ _ _ (.inl (by simp only [infoSource]; omega))
  | succ n ih =>
      rw [List.range_succ, List.foldl_append]
      rcases broadcastApproach_cell site tr n
        ((List.range n).foldl (broadcastApproach site tr) clearedAtsc) hhigh
        with ⟨hlights, hone⟩ | ⟨hnot, hsame⟩
      · exact .inl ⟨⟨n, Nat.lt_succ_self n, hlights⟩, hone⟩
      · have hlit : (∃ i < n + 1, Lights site tr i a) ↔ ∃ i < n, Lights site tr i a := by
          constructor
          · intro h
            obtain ⟨i, hi, hlights⟩ := h
            have hne : i ≠ n := fun heq => hnot (heq ▸ hlights)
            exact ⟨i, by omega, hlights⟩
          · intro h
            obtain ⟨i, hi, hlights⟩ := h
            exact ⟨i, by omega, hlights⟩
        rw [hlit, List.foldl_cons, List.foldl_nil, hsame]
        exact ih

/-! ## The bits read -/

/-- A number outside the group reads neither 1 nor 0. -/
theorem atscPhaseIsSet_outside (status : StatusArray) {phaseNum : Int}
    (hout : phaseNum < 1 ∨ 32 < phaseNum) : atscPhaseIsSet status phaseNum = -1 := by
  have hgroup : (8 : Int) * (MAX_PHASE_STATUS_GROUPS : Nat) = 32 := by decide
  exact atscIsSet_of_outside status phase_group_fits (by omega)

/-- Of the byte that is stored the lowest bit is set. -/
private theorem lowest_bit {b : Nat} (hb : b < 8) :
    (1 : UChar).getLsbD b = true ↔ b = 0 := by
  revert b
  decide

/-- A phase is read as set where its bit is the lowest of a byte that has been stored. -/
theorem isSet_lampGroup (l : Lamp) {p : Int} :
    atscPhaseIsSet (lampGroup (assemAtsc site tr) l) p = 1 ↔
      ∃ q : Nat, q < 4 ∧ p = 8 * q + 1 ∧
        ∃ i < site.totalNoApproaches.toNat, Lights site tr i (l.offset + q) := by
  by_cases hout : p < 1 ∨ 32 < p
  · rw [atscPhaseIsSet_outside _ hout]
    refine ⟨fun h => absurd h (by decide), ?_⟩
    intro h
    obtain ⟨q, hq, hp, -⟩ := h
    omega
  · obtain ⟨k, rfl⟩ : ∃ k : Nat, p = k + 1 := ⟨(p - 1).toNat, by omega⟩
    have hk : k < 32 := by omega
    have hoffset := l.offset_cases
    rw [atscPhaseIsSet_iff _ hk]
    rcases assemAtsc_cell site tr (a := l.offset + (k / 8 : Nat)) (by omega) (by omega)
      with ⟨hlit, hcell⟩ | ⟨hdark, hcell⟩
    · rw [lampGroup, hcell, lowest_bit (Nat.mod_lt k (by decide))]
      constructor
      · intro hzero
        exact ⟨k / 8, by omega, by omega, hlit⟩
      · intro h
        obtain ⟨q, hq, hp, -⟩ := h
        omega
    · rw [lampGroup, hcell]
      constructor
      · intro hset
        exact absurd hset (by simp)
      · intro h
        obtain ⟨q, hq, hp, hlit⟩ := h
        have hbyte : k / 8 = q := by omega
        exact absurd (hbyte ▸ hlit) hdark

/-! ## The two conventions -/

variable {site tr}

/-- Where the colours are read back, an approach with a colour is phase 1. -/
theorem ColorsReadBack.phase_one (h : ColorsReadBack site tr) {i : Nat}
    (hi : i < site.totalNoApproaches.toNat) {l : Lamp}
    (hcolor : approachState site tr i = l.color) : site.swappedPhase i = 1 := by
  obtain ⟨q, hq, hphase, j, hj, l', hcolor', hplace⟩ :=
    (isSet_lampGroup site tr l).mp ((h i hi l).mpr hcolor)
  -- the approach that stored the byte is read back in turn
  obtain ⟨q', -, hphase', -⟩ := (isSet_lampGroup site tr l').mp ((h j hj l').mpr hcolor')
  have hoffset := l.offset_cases
  have hoffset' := l'.offset_cases
  omega

/-- It is the only colour of phase 1. -/
theorem ColorsReadBack.one_color (h : ColorsReadBack site tr) {i : Nat}
    (hi : i < site.totalNoApproaches.toNat) {l : Lamp}
    (hcolor : approachState site tr i = l.color) {j : Nat}
    (hj : j < site.totalNoApproaches.toNat) (hphase : site.swappedPhase j = 1) :
    approachState site tr j = l.color := by
  have hsame : site.swappedPhase j = site.swappedPhase i :=
    hphase.trans (h.phase_one hi hcolor).symm
  apply (h j hj l).mp
  rw [hsame]
  exact (h i hi l).mpr hcolor

/-- With one phase and one colour, the colours are read back. -/
theorem OnePhaseOneColor.readBack (h : OnePhaseOneColor site tr) : ColorsReadBack site tr := by
  intro i hi l
  rw [isSet_lampGroup]
  constructor
  · intro hset
    obtain ⟨q, hq, hphase, j, hj, l', hcolor', hplace⟩ := hset
    obtain ⟨hone, hsame⟩ := h j hj ⟨l', hcolor'⟩
    have hoffset := l.offset_cases
    have hoffset' := l'.offset_cases
    have hq0 : q = 0 := by omega
    have hlamp : l = l' := by
      have heq : l.offset = l'.offset := by omega
      cases l <;> cases l' <;> first | rfl | exact absurd heq (by decide)
    rw [hsame i hi (by omega), hcolor', hlamp]
  · intro hcolor
    obtain ⟨hone, -⟩ := h i hi ⟨l, hcolor⟩
    refine ⟨0, by decide, by simpa using hone, i, hi, l, hcolor, ?_⟩
    rw [hone]
    rfl

variable (site tr)

/-- **The colours broadcast.**  They are read back exactly where the approaches that have a
colour are all phase 1 and have the colour of every approach of phase 1. -/
theorem colorsReadBack_iff : ColorsReadBack site tr ↔ OnePhaseOneColor site tr := by
  constructor
  · intro h i hi hlit
    obtain ⟨l, hcolor⟩ := hlit
    refine ⟨h.phase_one hi hcolor, ?_⟩
    intro j hj hphase
    rw [h.one_color hi hcolor hj hphase, hcolor]
  · exact OnePhaseOneColor.readBack

/-- At the site of the program the first approach is broadcast as phase 4, and its colour is
lost. -/
theorem rfsSite_not_readBack {l : Lamp} (hcolor : tr.signal.signalState.cell 1 = l.color) :
    ¬ ColorsReadBack rfsSite tr := by
  intro h
  have hone : rfsSite.swappedPhase 0 = 1 := h.phase_one (by decide) (l := l) hcolor
  exact absurd hone (by decide)

/-- All heads are red, as after a message without active phases. -/
def allRedTrace : SignalTrace :=
  { clearedTrace with
    signal := { clearedTrace.signal with signalState := ⟨fun _ => SIGNAL_STATE_RED, []⟩ } }

/-- Not every record is read back: at the site of the program, all heads red. -/
theorem colorsReadBack_not_always :
    ¬ ∀ (site : E170Site) (tr : SignalTrace), ColorsReadBack site tr :=
  fun h => rfsSite_not_readBack allRedTrace (l := .red) rfl (h rfsSite allRedTrace)

end RfsAtsc
