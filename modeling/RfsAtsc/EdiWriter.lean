import RfsAtsc.ChangeWriter
import RfsAtsc.SnifferWriter

/-!
# The conflict monitor: `edi2010/atsc_db_edi.c`

A message of the monitor holds one byte for each of 16 channels and each colour.
`write_atsc_db_var` copies the first four bytes of a colour into its four groups,
where a byte stands for eight phases, and writes the record when a byte of the greens
or the yellows is not that of the message before.
-/

namespace RfsAtsc.Edi

open RfsAtsc.Phases EventMachine

def ATSC_SOURCE_EDI : Int := 4

def GREEN_OFFSET : Int := 1
def YELLOW_OFFSET : Int := 17
def RED_OFFSET : Int := 33

/-- `BUFSIZE`. -/
def BUFSIZE : Nat := 50

/-- A message of the monitor: its format, the greens, the yellows, the reds and the
cabinet status. -/
structure EdiMessage where
  bytes : List Byte
  length_eq : bytes.length = BUFSIZE

/-- `buf` once a message is in. -/
def EdiMessage.buf (msg : EdiMessage) (i : Int) : Byte := msg.bytes.getD i.toNat 0

/-- The record under way and the variables of the loop over the groups. -/
structure Locals where
  current : AtscTyp
  sendDbVar : Bool
  lastGreens : StatusArray
  lastYellows : StatusArray

/-- One turn of the loop over the groups. -/
def copyGroup (ediarr : Int → Byte) (w : Locals) (i : Nat) : Locals :=
  let greens := Function.update w.current.phaseStatusGreens i (ediarr (i + GREEN_OFFSET))
  let reds := Function.update w.current.phaseStatusReds i (ediarr (i + RED_OFFSET))
  let yellows := Function.update w.current.phaseStatusYellows i (ediarr (i + YELLOW_OFFSET))
  { current := { w.current with
      phaseStatusGreens := greens
      phaseStatusReds := reds
      phaseStatusYellows := yellows }
    sendDbVar :=
      if greens i ≠ w.lastGreens i ∨ yellows i ≠ w.lastYellows i then true else w.sendDbVar
    lastGreens := Function.update w.lastGreens i (greens i)
    lastYellows := Function.update w.lastYellows i (yellows i) }

/-- The first `n` turns. -/
def copyGroups (ediarr : Int → Byte) (n : Nat) (w : Locals) : Locals :=
  (List.range n).foldl (copyGroup ediarr) w

/-- The static variables of `atsc_db_edi.c` and the database variable it writes. -/
structure State where
  lastGreens : StatusArray
  lastYellows : StatusArray
  atscVar : AtscTyp

/-- The variables in front of the loop: all fields of the record 0 but its source. -/
def State.enter (s : State) : Locals where
  current := { Sniffer.zeroAtsc with infoSource := ATSC_SOURCE_EDI }
  sendDbVar := false
  lastGreens := s.lastGreens
  lastYellows := s.lastYellows

/-- `write_atsc_db_var`, with the records it writes. -/
def writeAtscDbVar (s : State) (ediarr : Int → Byte) : State × List AtscTyp :=
  let w := copyGroups ediarr MAX_PHASE_STATUS_GROUPS s.enter
  let current := { w.current with infoSource := ATSC_SOURCE_SNIFF }
  if w.sendDbVar then
    ({ lastGreens := w.lastGreens, lastYellows := w.lastYellows, atscVar := current }, [current])
  else
    ({ lastGreens := w.lastGreens, lastYellows := w.lastYellows, atscVar := s.atscVar }, [])

/-- The loop of `main` over the messages. -/
def edi : Machine State EdiMessage AtscTyp where
  step s msg := writeAtscDbVar s msg.buf

/-- Before the first message: the variable is all zero. -/
def State.initial : State where
  lastGreens := 0
  lastYellows := 0
  atscVar := Sniffer.zeroAtsc

/-! ## What the loop copies -/

/-- The groups with the first `n` of them copied. -/
def copied (ediarr : Int → Byte) (offset : Int) (n : Nat) (status : StatusArray) : StatusArray :=
  fun i => if 0 ≤ i ∧ i < n then ediarr (i + offset) else status i

theorem copied_zero (ediarr : Int → Byte) (offset : Int) (status : StatusArray) :
    copied ediarr offset 0 status = status := by
  funext i
  exact if_neg (by omega)

theorem update_copied (ediarr : Int → Byte) (offset : Int) (n : Nat) (status : StatusArray) :
    Function.update (copied ediarr offset n status) n (ediarr (n + offset))
      = copied ediarr offset (n + 1) status := by
  funext i
  by_cases hi : i = n
  · rw [hi, Function.update_self, copied, if_pos (by omega)]
  · rw [Function.update_of_ne hi, copied, copied]
    by_cases hin : 0 ≤ i ∧ i < n
    · rw [if_pos hin, if_pos (by omega)]
    · rw [if_neg hin, if_neg (by omega)]

/-- The group just copied. -/
theorem copied_self (ediarr : Int → Byte) (offset : Int) (n : Nat) (status : StatusArray) :
    copied ediarr offset (n + 1) status n = ediarr (n + offset) :=
  if_pos (by omega)

/-- A group still to be copied. -/
theorem copied_next (ediarr : Int → Byte) (offset : Int) (n : Nat) (status : StatusArray) :
    copied ediarr offset n status n = status n :=
  if_neg (by omega)

/-- What `n` turns of the loop leave. -/
theorem copyGroups_eq (ediarr : Int → Byte) (n : Nat) (w : Locals) :
    (copyGroups ediarr n w).current = { w.current with
        phaseStatusGreens := copied ediarr GREEN_OFFSET n w.current.phaseStatusGreens
        phaseStatusReds := copied ediarr RED_OFFSET n w.current.phaseStatusReds
        phaseStatusYellows := copied ediarr YELLOW_OFFSET n w.current.phaseStatusYellows } ∧
      (copyGroups ediarr n w).lastGreens = copied ediarr GREEN_OFFSET n w.lastGreens ∧
      (copyGroups ediarr n w).lastYellows = copied ediarr YELLOW_OFFSET n w.lastYellows ∧
      ((copyGroups ediarr n w).sendDbVar = true ↔ w.sendDbVar = true ∨
        ∃ i < n, ediarr (i + GREEN_OFFSET) ≠ w.lastGreens i ∨
          ediarr (i + YELLOW_OFFSET) ≠ w.lastYellows i) := by
  induction n with
  | zero => simp [copyGroups, copied_zero]
  | succ n ih =>
      obtain ⟨hcurrent, hgreens, hyellows, hsend⟩ := ih
      have hturn : copyGroups ediarr (n + 1) w = copyGroup ediarr (copyGroups ediarr n w) n := by
        rw [copyGroups, List.range_succ, List.foldl_append]
        rfl
      rw [hturn, copyGroup, hcurrent, hgreens, hyellows]
      simp only [copied_self, copied_next, update_copied]
      refine ⟨trivial, trivial, trivial, ?_⟩
      rw [Nat.exists_lt_succ_right, ← or_assoc, ← hsend]
      split
      · rename_i hdiffer
        exact iff_of_true rfl (Or.inr hdiffer)
      · rename_i hequal
        exact (or_iff_left hequal).symm

/-- The record a message makes. -/
def recordOf (msg : EdiMessage) : AtscTyp where
  phaseStatusReds := copied msg.buf RED_OFFSET MAX_PHASE_STATUS_GROUPS 0
  phaseStatusYellows := copied msg.buf YELLOW_OFFSET MAX_PHASE_STATUS_GROUPS 0
  phaseStatusGreens := copied msg.buf GREEN_OFFSET MAX_PHASE_STATUS_GROUPS 0
  infoSource := ATSC_SOURCE_SNIFF

/-- The groups of greens and yellows, which the writer compares. -/
def groups (greens yellows : StatusArray) : Fin 4 → Byte × Byte :=
  fun i => (greens (i : Nat), yellows (i : Nat))

def recordGroups (r : AtscTyp) : Fin 4 → Byte × Byte :=
  groups r.phaseStatusGreens r.phaseStatusYellows

def lastGroups (s : State) : Fin 4 → Byte × Byte := groups s.lastGreens s.lastYellows

theorem recordGroups_recordOf (msg : EdiMessage) :
    recordGroups (recordOf msg) = fun i : Fin 4 =>
      (msg.buf ((i : Nat) + GREEN_OFFSET), msg.buf ((i : Nat) + YELLOW_OFFSET)) := by
  funext i
  have hi := i.isLt
  simp [recordGroups, groups, recordOf, copied, MAX_PHASE_STATUS_GROUPS]

/-- A step: the record is written when a group differs, and the groups are kept in
either case. -/
theorem step_eq (s : State) (msg : EdiMessage) :
    (edi.step s msg).1.atscVar
        = (if recordGroups (recordOf msg) ≠ lastGroups s then recordOf msg else s.atscVar) ∧
      lastGroups (edi.step s msg).1 = recordGroups (recordOf msg) := by
  obtain ⟨hcurrent, hgreens, hyellows, hsend⟩ :=
    copyGroups_eq msg.buf MAX_PHASE_STATUS_GROUPS s.enter
  have hdiffer : recordGroups (recordOf msg) ≠ lastGroups s ↔
      ∃ i : Nat, i < 4 ∧ (msg.buf (i + GREEN_OFFSET) ≠ s.lastGreens i ∨
        msg.buf (i + YELLOW_OFFSET) ≠ s.lastYellows i) := by
    rw [recordGroups_recordOf, ne_eq, funext_iff, not_forall, Fin.exists_iff]
    simp only [lastGroups, groups, Prod.mk.injEq, not_and_or, exists_prop, ne_eq]
  have hlast : lastGroups (edi.step s msg).1 = groups
      (copied msg.buf GREEN_OFFSET MAX_PHASE_STATUS_GROUPS s.lastGreens)
      (copied msg.buf YELLOW_OFFSET MAX_PHASE_STATUS_GROUPS s.lastYellows) := by
    simp only [edi, writeAtscDbVar, hgreens, hyellows]
    split <;> rfl
  refine ⟨?_, ?_⟩
  · simp only [edi, writeAtscDbVar, hcurrent]
    by_cases hne : recordGroups (recordOf msg) ≠ lastGroups s
    · rw [if_pos hne, if_pos (hsend.mpr (Or.inr (hdiffer.mp hne)))]
      rfl
    · have hquiet := mt hsend.mp (not_or.mpr ⟨Bool.false_ne_true, mt hdiffer.mpr hne⟩)
      rw [if_neg hne, if_neg hquiet]
  · rw [hlast, recordGroups_recordOf]
    funext i
    have hi := i.isLt
    simp [groups, copied, MAX_PHASE_STATUS_GROUPS]

/-- `write_atsc_db_var` looks for a change in its four greens and yellows. -/
theorem writes : ChangeWriter.Writes edi recordOf recordGroups State.atscVar lastGroups where
  changed s e hne := by
    obtain ⟨hvar, hlast⟩ := step_eq s e
    rw [hvar, if_pos hne]
    exact ⟨rfl, hlast⟩
  unchanged s e heq := by
    obtain ⟨hvar, hlast⟩ := step_eq s e
    rw [hvar, if_neg (not_not_intro heq)]
    exact ⟨rfl, hlast.trans heq⟩

/-! ## What a message says and what a record shows -/

/-- The colours of a channel. -/
inductive Color where
  | green
  | yellow
  | red

def Color.offset : Color → Int
  | .green => GREEN_OFFSET
  | .yellow => YELLOW_OFFSET
  | .red => RED_OFFSET

/-- The groups of a colour. -/
def Color.status (r : AtscTyp) : Color → StatusArray
  | .green => r.phaseStatusGreens
  | .yellow => r.phaseStatusYellows
  | .red => r.phaseStatusReds

/-- The byte of channel `p`, numbered from one. -/
def EdiMessage.channel (msg : EdiMessage) (color : Color) (p : Int) : Byte :=
  msg.buf (p - 1 + color.offset)

/-- The groups of a colour show its channels: phase `p` is set exactly when the byte of
channel `p` is not zero. -/
def ShowsColor (status : StatusArray) (msg : EdiMessage) (color : Color) : Prop :=
  ∀ p : Int, 1 ≤ p → p ≤ MAX_PHASES →
    (atscPhaseIsSet status p = 1 ↔ msg.channel color p ≠ 0)

/-- A record shows a message. -/
def Shows (r : AtscTyp) (msg : EdiMessage) : Prop :=
  ∀ color, ShowsColor (color.status r) msg color

/-- The first two bytes of a colour, read as groups of eight, spell its channels. -/
def Spelled (msg : EdiMessage) (color : Color) : Prop :=
  ∀ k : Nat, k < 16 →
    ((msg.buf ((k / 8 : Nat) + color.offset)).getLsbD (k % 8) = true ↔
      msg.buf (k + color.offset) ≠ 0)

/-- Two messages have the same channels on. -/
def SameChannels (msg msg' : EdiMessage) (color : Color) : Prop :=
  ∀ k : Nat, k < 16 → (msg.buf (k + color.offset) ≠ 0 ↔ msg'.buf (k + color.offset) ≠ 0)

/-- The channels, numbered from one, by their place. -/
private theorem channels_iff (P : Int → Prop) :
    (∀ p : Int, 1 ≤ p → p ≤ MAX_PHASES → P p) ↔ ∀ k : Nat, k < 16 → P (k + 1) := by
  simp only [MAX_PHASES]
  constructor
  · intro h k hk
    exact h (k + 1) (by omega) (by omega)
  · intro h p hlow hhigh
    have hp := h (p - 1).toNat (by omega)
    rwa [Int.toNat_of_nonneg (by omega), sub_add_cancel] at hp

/-- Groups that hold the first bytes of a colour show its channels when these spell
them. -/
theorem showsColor_iff_spelled {status : StatusArray} {msg : EdiMessage} {color : Color}
    (hstatus : ∀ i : Nat, i < 4 → status i = msg.buf (i + color.offset)) :
    ShowsColor status msg color ↔ Spelled msg color := by
  rw [ShowsColor, channels_iff]
  refine forall_congr' fun k => forall_congr' fun hk => ?_
  rw [atscPhaseIsSet_iff status (by omega), hstatus (k / 8) (by omega), EdiMessage.channel,
    add_sub_cancel_right]

/-- Groups that show one message show another with the same channels on. -/
theorem showsColor_iff_same {status : StatusArray} {msg msg' : EdiMessage} {color : Color}
    (h : ShowsColor status msg color) :
    ShowsColor status msg' color ↔ SameChannels msg msg' color := by
  rw [ShowsColor, channels_iff] at h ⊢
  refine forall_congr' fun k => forall_congr' fun hk => ?_
  rw [h k hk, EdiMessage.channel, EdiMessage.channel, add_sub_cancel_right]

/-! ## Runs -/

/-- Four bytes of the greens or the yellows change from one message to the next. -/
def GroupsChange (msg msg' : EdiMessage) : Prop :=
  ∃ i : Nat, i < 4 ∧ (msg'.buf (i + GREEN_OFFSET) ≠ msg.buf (i + GREEN_OFFSET) ∨
    msg'.buf (i + YELLOW_OFFSET) ≠ msg.buf (i + YELLOW_OFFSET))

/-- A message after another is decoded right: its first bytes spell its greens and its
yellows, and they spell its reds when the record is written; when it is not, the reds
are on as before. -/
def SpelledAfter (msg msg' : EdiMessage) : Prop :=
  Spelled msg' .green ∧ Spelled msg' .yellow ∧ (GroupsChange msg msg' → Spelled msg' .red) ∧
    (¬ GroupsChange msg msg' → SameChannels msg msg' .red)

/-- A message with every byte 0. -/
def EdiMessage.dark : EdiMessage where
  bytes := List.replicate BUFSIZE 0
  length_eq := List.length_replicate

theorem dark_buf (i : Int) : EdiMessage.dark.buf i = 0 := by
  rw [EdiMessage.buf, EdiMessage.dark, List.getD_eq_getElem?_getD, List.getElem?_replicate]
  split <;> rfl

/-- The variable starts as if a dark message had been written. -/
theorem initial_shows : Shows Sniffer.zeroAtsc EdiMessage.dark := by
  intro color
  have hzero : color.status Sniffer.zeroAtsc = 0 := by
    cases color <;> rfl
  rw [hzero, showsColor_iff_spelled (fun i _ => (dark_buf _).symm)]
  intro k _
  rw [dark_buf, dark_buf]
  simp

theorem shows_iff (r : AtscTyp) (msg : EdiMessage) :
    Shows r msg ↔ ShowsColor r.phaseStatusGreens msg .green ∧
      ShowsColor r.phaseStatusYellows msg .yellow ∧ ShowsColor r.phaseStatusReds msg .red := by
  constructor
  · intro h
    exact ⟨h .green, h .yellow, h .red⟩
  · intro h color
    cases color with
    | green => exact h.1
    | yellow => exact h.2.1
    | red => exact h.2.2

theorem groupsChange_iff (msg msg' : EdiMessage) :
    GroupsChange msg msg' ↔ recordGroups (recordOf msg') ≠ recordGroups (recordOf msg) := by
  rw [recordGroups_recordOf, recordGroups_recordOf, ne_eq, funext_iff, not_forall, Fin.exists_iff]
  simp only [GroupsChange, Prod.mk.injEq, not_and_or, exists_prop, ne_eq]

/-- The record of a message shows it when its first bytes spell every colour. -/
theorem recordOf_shows_iff (msg : EdiMessage) :
    Shows (recordOf msg) msg ↔ Spelled msg .green ∧ Spelled msg .yellow ∧ Spelled msg .red := by
  have hcopied : ∀ (offset : Int) (i : Nat), i < 4 →
      copied msg.buf offset MAX_PHASE_STATUS_GROUPS 0 i = msg.buf (i + offset) := by
    intro offset i hi
    exact if_pos (by simp only [MAX_PHASE_STATUS_GROUPS]; omega)
  rw [shows_iff]
  exact and_congr (showsColor_iff_spelled (hcopied _))
    (and_congr (showsColor_iff_spelled (hcopied _)) (showsColor_iff_spelled (hcopied _)))

/-- A record that shows one message shows the next with the same greens and yellows
in its groups, when their first bytes spell them and the same reds are on. -/
theorem shows_next_iff {r : AtscTyp} {msg msg' : EdiMessage} (h : Shows r msg)
    (hgroups : recordGroups r = recordGroups (recordOf msg')) :
    Shows r msg' ↔ Spelled msg' .green ∧ Spelled msg' .yellow ∧ SameChannels msg msg' .red := by
  rw [recordGroups_recordOf] at hgroups
  have hbytes : ∀ i : Nat, i < 4 → r.phaseStatusGreens i = msg'.buf (i + GREEN_OFFSET) ∧
      r.phaseStatusYellows i = msg'.buf (i + YELLOW_OFFSET) := by
    intro i hi
    exact Prod.ext_iff.mp (congrFun hgroups ⟨i, hi⟩)
  rw [shows_iff]
  exact and_congr (showsColor_iff_spelled fun i hi => (hbytes i hi).1)
    (and_congr (showsColor_iff_spelled fun i hi => (hbytes i hi).2)
      (showsColor_iff_same (h .red)))

/-- What a message needs to be shown after another. -/
theorem follows_iff (msg msg' : EdiMessage) :
    ChangeWriter.Follows recordOf recordGroups Shows
        (fun e e' => Spelled e' .green ∧ Spelled e' .yellow ∧ SameChannels e e' .red) msg msg' ↔
      SpelledAfter msg msg' := by
  rw [ChangeWriter.Follows, SpelledAfter, ← groupsChange_iff, recordOf_shows_iff]
  by_cases hchange : GroupsChange msg msg'
  · have hne := (groupsChange_iff msg msg').mp hchange
    simp [hchange, hne]
  · have heq := not_not.mp (mt (groupsChange_iff msg msg').mpr hchange)
    simp [hchange, heq]

/-- **EDI decoding, exactly.**  After every message the variable shows it exactly when
every message is decoded right after the one before, the first after a dark one. -/
theorem edi_shows_iff (msgs : List EdiMessage) :
    edi.Along State.initial (fun _ s msg => Shows (edi.step s msg).1.atscVar msg) msgs ↔
      List.IsChain SpelledAfter (EdiMessage.dark :: msgs) := by
  have hstart : ChangeWriter.Current recordOf recordGroups State.atscVar lastGroups Shows
      State.initial EdiMessage.dark := by
    refine ⟨initial_shows, rfl, ?_⟩
    rw [recordGroups_recordOf]
    simp only [dark_buf]
    rfl
  have hsame : ∀ r e e', Shows r e → recordGroups r = recordGroups (recordOf e) →
      recordGroups (recordOf e') = recordGroups (recordOf e) →
      (Shows r e' ↔ Spelled e' .green ∧ Spelled e' .yellow ∧ SameChannels e e' .red) :=
    fun r e e' hshown hstored hlatest => shows_next_iff hshown (hstored.trans hlatest.symm)
  rw [writes.shows_iff_chain hsame hstart msgs]
  exact List.IsChain.iff follows_iff

/-- The green of channel 2 alone. -/
def greenTwo : EdiMessage where
  bytes := [0x00, 0x00, 0x01] ++ List.replicate 47 0
  length_eq := by decide

/-- Channel 2 comes out as phase 9. -/
theorem edi_misplaces_channel :
    ¬ ∀ msgs : List EdiMessage,
      edi.Along State.initial (fun _ s msg => Shows (edi.step s msg).1.atscVar msg) msgs := by
  intro hall
  have hshown := hall [greenTwo] [] greenTwo [] rfl .green 2 (by decide) (by decide)
  have hon : greenTwo.channel .green 2 ≠ 0 := by decide
  exact absurd (hshown.mpr hon) (by decide)

end RfsAtsc.Edi
