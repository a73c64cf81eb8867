import RfsAtsc.ConfigText
import RfsAtsc.IxMessages
import RfsAtsc.SnifferWriter

/-!
# The wires of the sniffer: the configuration in `sniffer/atsc_dio.c`

The sniffer reads which input is wired to which lamp from `<site>.nema.cfg`: the number of
wires, then a colour and a phase for each.  The phase is converted with `%d` into a byte of
`nema_asg`, so each conversion stores four bytes: the phase, and three more over the entry
behind it and the colour of the next.  Entry by entry the lines put right what the line
before has overwritten; what the last entries store lands behind the table.
-/

namespace RfsAtsc.Sniffer

open DecimalText TracedMemory EventMachine RfsAtsc.Phases

/-- `&nema_asg[i-1].phase_color`. -/
def phaseColorAddr (i : Int) : Int := 2 * (i - 1)

/-- `&nema_asg[i-1].phase_number`. -/
def phaseNumberAddr (i : Int) : Int := 2 * (i - 1) + 1

/-- The variables of the reading loop, `nema_asg` as memory. -/
structure NemaReader where
  line : Nat
  i : Int
  numBitsToNema : Int
  nemaAsg : Mem Byte

/-- A character as it is stored. -/
def charByte (c : Char) : Byte := BitVec.ofNat 8 c.toNat

/-- `sscanf(lineinput, "%c %d", ..)` into entry `i`: the `%d` stores a whole `int`. -/
def scanWire (i : Int) (lineinput : List Char) (nemaAsg : Mem Byte) : Mem Byte :=
  match lineinput with
  | [] => nemaAsg
  | c :: rest =>
      let nemaAsg := nemaAsg.store (phaseColorAddr i) (charByte c)
      match scanInt rest with
      | none => nemaAsg
      | some (v, _) => nemaAsg.write (phaseNumberAddr i) (le32 (BitVec.ofInt 32 v))

/-- `switch (line)`. -/
def nemaLine (s : NemaReader) (lineinput : List Char) : NemaReader :=
  match s.line with
  | 1 =>
      { s with
        numBitsToNema :=
          match scanInt lineinput with
          | none => s.numBitsToNema
          | some (v, _) => v
        i := 1 }
  | _ => { s with nemaAsg := scanWire s.i lineinput s.nemaAsg, i := s.i + 1 }

/-- One line that is no comment, and whether it is the last that is read. -/
def nemaTurn (s : NemaReader) (lineinput : List Char) : NemaReader × Bool :=
  let s := nemaLine s lineinput
  -- nothing left to read
  if s.i > s.numBitsToNema then (s, true)
  else ({ s with line := s.line + 1 }, false)

/-- The variables before the first line.  `i` is not initialised, the globals are zero. -/
def startNema (i : Int) : NemaReader where
  line := 1
  i := i
  numBitsToNema := 0
  nemaAsg := Mem.ofList 0 []

/-- The variables when the file is closed. -/
def readNema (i : Int) (file : List Char) : NemaReader :=
  readLines nemaTurn (fileLines 100 file) (startNema i)

/-! ## What the loop reads -/

/-- The lines of the wires from entry `i` on. -/
def scanWires (i : Int) : List (List Char) → Mem Byte → Mem Byte
  | [], nemaAsg => nemaAsg
  | text :: texts, nemaAsg => scanWires (i + 1) texts (scanWire i text nemaAsg)

/-- Behind the first line every line is a wire's. -/
theorem nemaTurn_wire {s : NemaReader} (hline : s.line ≠ 1) (text : List Char) :
    nemaTurn s text =
      if s.i + 1 > s.numBitsToNema then
        ({ s with nemaAsg := scanWire s.i text s.nemaAsg, i := s.i + 1 }, true)
      else
        ({ s with
          line := s.line + 1, nemaAsg := scanWire s.i text s.nemaAsg, i := s.i + 1 }, false) := by
  have hswitch : nemaLine s text =
      { s with nemaAsg := scanWire s.i text s.nemaAsg, i := s.i + 1 } := by
    unfold nemaLine
    split
    · contradiction
    · rfl
  rw [nemaTurn, hswitch]

/-- The first line says how many of the others are read. -/
theorem runRows_wires (texts : List (List Char)) {s : NemaReader} (hline : 2 ≤ s.line)
    (hi : s.i ≤ s.numBitsToNema) :
    (runRows nemaTurn texts s).numBitsToNema = s.numBitsToNema ∧
      (runRows nemaTurn texts s).nemaAsg =
        scanWires s.i (texts.take (s.numBitsToNema - s.i + 1).toNat) s.nemaAsg := by
  induction texts generalizing s with
  | nil => exact ⟨rfl, by rw [List.take_nil]; rfl⟩
  | cons text texts ih =>
      have hturn := nemaTurn_wire (s := s) (by omega) text
      by_cases hlast : s.i + 1 > s.numBitsToNema
      · rw [if_pos hlast] at hturn
        have hone : (s.numBitsToNema - s.i + 1).toNat = 1 := by omega
        rw [runRows_last (congrArg Prod.snd hturn), hturn, hone]
        exact ⟨rfl, rfl⟩
      · rw [if_neg hlast] at hturn
        have hmore : (s.numBitsToNema - s.i + 1).toNat =
            (s.numBitsToNema - (s.i + 1) + 1).toNat + 1 := by omega
        rw [runRows_next (congrArg Prod.snd hturn), hturn, hmore, List.take_succ_cons]
        exact ih (Nat.le_succ_of_le hline) (by simpa using hlast)

/-- The number that the first line gives, or 0. -/
def numBits (file : List Char) : Int :=
  match dataLines (fileLines 100 file) with
  | [] => 0
  | count :: _ => (scanInt count).elim 0 Prod.fst

/-- The lines of wires that are read: as many as that number, if there are as many. -/
def wireLines (file : List Char) : List (List Char) :=
  (dataLines (fileLines 100 file)).tail.take (numBits file).toNat

/-- The loop reads the wires' lines into the table, one after the other. -/
theorem readNema_eq (i : Int) (file : List Char) :
    (readNema i file).numBitsToNema = numBits file ∧
      (readNema i file).nemaAsg = scanWires 1 (wireLines file) (Mem.ofList 0 []) := by
  rw [readNema, readLines_eq_runRows, numBits, wireLines, numBits]
  cases dataLines (fileLines 100 file) with
  | nil => exact ⟨rfl, rfl⟩
  | cons count texts =>
      simp only [List.tail_cons]
      have hturn : nemaTurn (startNema i) count =
          if 1 > (scanInt count).elim 0 Prod.fst then
            (⟨1, 1, (scanInt count).elim 0 Prod.fst, Mem.ofList 0 []⟩, true)
          else (⟨2, 1, (scanInt count).elim 0 Prod.fst, Mem.ofList 0 []⟩, false) := by
        rw [nemaTurn, nemaLine, startNema]
        cases scanInt count <;> rfl
      generalize (scanInt count).elim 0 Prod.fst = n at hturn ⊢
      by_cases hnone : 1 > n
      · rw [if_pos hnone] at hturn
        have hzero : n.toNat = 0 := by omega
        rw [runRows_last (congrArg Prod.snd hturn), hturn, hzero]
        exact ⟨rfl, rfl⟩
      · rw [if_neg hnone] at hturn
        have hcount : (n - 1 + 1).toNat = n.toNat := by rw [Int.sub_add_cancel]
        rw [runRows_next (congrArg Prod.snd hturn), hturn, ← hcount]
        exact runRows_wires texts (Nat.le_refl 2) (not_lt.mp hnone)

/-! ## Files that name their wires -/

/-- The letter of a colour. -/
def PhaseColor.letter : PhaseColor → Char
  | .G => 'G'
  | .Y => 'Y'
  | .R => 'R'
  | .N => 'N'

/-- A stored colour: a letter other than these is not assigned. -/
def PhaseColor.ofByte (b : Byte) : PhaseColor :=
  if b = charByte 'G' then .G
  else if b = charByte 'Y' then .Y
  else if b = charByte 'R' then .R
  else .N

/-- A colour is read back from its letter. -/
theorem PhaseColor.ofByte_letter (color : PhaseColor) :
    PhaseColor.ofByte (charByte color.letter) = color := by
  cases color <;> decide

/-- An entry as it lies in the table. -/
def BitToNemaPhase.bytes (p : BitToNemaPhase) : List Byte :=
  [charByte p.phaseColor.letter, p.phaseNumber]

/-- A line that names a wire: the letter of its colour, then its phase. -/
def SpellsWire (p : BitToNemaPhase) (text : List Char) : Prop :=
  ∃ rest, text = p.phaseColor.letter :: rest ∧ SpellsRow [.int p.phaseNumber.toNat] rest

/-- A file that names wires: their number, a line for each, and whatever follows, with
comments among them, each line shorter than the buffer. -/
structure NemaFile (bits : List BitToNemaPhase) (file : List Char) : Prop where
  form : ∃ (lines : List (List Char)) (count : List Char) (wires more : List (List Char)),
    file = lines.flatMap (fun line => line ++ ['\n']) ∧
      (∀ line ∈ lines, '\n' ∉ line ∧ line.length + 1 < 100) ∧
      dataLines lines = count :: (wires ++ more) ∧ SpellsRow [.int bits.length] count ∧
      List.Forall₂ SpellsWire bits wires

/-- A line spells its wire with the newline too. -/
theorem SpellsWire.newline {p : BitToNemaPhase} {text : List Char} (h : SpellsWire p text) :
    SpellsWire p (text ++ ['\n']) := by
  obtain ⟨rest, rfl, hrest⟩ := h
  exact ⟨rest ++ ['\n'], rfl, hrest.newline⟩

/-- What such a file has the loop read. -/
theorem NemaFile.lines {bits : List BitToNemaPhase} {file : List Char} (h : NemaFile bits file) :
    numBits file = bits.length ∧ List.Forall₂ SpellsWire bits (wireLines file) := by
  obtain ⟨lines, count, wires, more, rfl, hfit, hdata, hcount, hwires⟩ := h.form
  have hlines : dataLines (fileLines 100 (lines.flatMap fun line => line ++ ['\n'])) =
      (count ++ ['\n']) :: (wires ++ more).map fun line => line ++ ['\n'] := by
    rw [fileLines_of_fit hfit, dataLines_newline, hdata, List.map_cons]
  obtain ⟨_, hscan, _⟩ := scanInt_spells hcount.newline
  have hbits : numBits (lines.flatMap fun line => line ++ ['\n']) = bits.length := by
    rw [numBits, hlines]
    simp only [hscan, Option.elim_some]
  refine ⟨hbits, ?_⟩
  have htake : (wires.map fun line => line ++ ['\n']).length = ((bits.length : Int)).toNat := by
    rw [List.length_map, Int.toNat_natCast, hwires.length_eq]
  rw [wireLines, hbits, hlines, List.tail_cons, List.map_append, ← htake,
    List.take_left, List.forall₂_map_right_iff]
  exact hwires.imp fun _ _ => SpellsWire.newline

/-! ## The table -/

/-- The low byte of a phase stored as an `int`. -/
private theorem le32_phase (b : Byte) :
    ∃ high, le32 (BitVec.ofInt 32 b.toNat) = b :: high ∧ high.length = 3 := by
  have hlow : (BitVec.ofInt 32 b.toNat).extractLsb' 0 8 = b := by
    apply BitVec.eq_of_toNat_eq
    have hlt := b.isLt
    simp only [BitVec.ofInt_natCast, BitVec.extractLsb'_toNat, BitVec.toNat_ofNat,
      Nat.shiftRight_zero]
    omega
  rw [le32, hlow]
  exact ⟨_, rfl, rfl⟩

/-- A wire's line makes its entry, and leaves the entries before it. -/
theorem scanWire_holds {p : BitToNemaPhase} {text : List Char} (h : SpellsWire p text)
    {done : List Byte} {n : Nat} (hn : done.length = 2 * n) {m : Mem Byte}
    (hdone : m.Holds 0 done) :
    (scanWire (n + 1) text m).Holds 0 (done ++ p.bytes) := by
  obtain ⟨rest, rfl, hrest⟩ := h
  obtain ⟨_, hscan, _⟩ := scanInt_spells hrest
  obtain ⟨high, hbytes, _⟩ := le32_phase p.phaseNumber
  have hcolor : phaseColorAddr (n + 1) = 0 + (done.length : Int) := by
    rw [phaseColorAddr, hn]
    push_cast
    ring
  have hnumber : phaseNumberAddr (n + 1) =
      0 + ((done ++ [charByte p.phaseColor.letter]).length : Int) := by
    rw [phaseNumberAddr, List.length_append, hn, List.length_singleton]
    push_cast
    ring
  have hwire : scanWire (n + 1) (p.phaseColor.letter :: rest) m =
      (m.store (phaseColorAddr (n + 1)) (charByte p.phaseColor.letter)).write
        (phaseNumberAddr (n + 1)) (p.phaseNumber :: high) := by
    rw [scanWire, hscan]
    simp only [hbytes]
  have hentry : done ++ p.bytes =
      done ++ [charByte p.phaseColor.letter] ++ [p.phaseNumber] := by
    rw [List.append_assoc]
    rfl
  have hfirst := hdone.store_end (charByte p.phaseColor.letter)
  rw [hwire, hcolor, hnumber, Mem.write, hentry]
  -- the high bytes land behind the entry
  apply (hfirst.store_end p.phaseNumber).write_outside high
  right
  simp only [List.length_append, List.length_singleton]
  omega

/-- Lines of wires make their entries, one after the other. -/
theorem scanWires_holds {bits : List BitToNemaPhase} {texts : List (List Char)}
    (h : List.Forall₂ SpellsWire bits texts) {done : List Byte} {n : Nat}
    (hn : done.length = 2 * n) {m : Mem Byte} (hdone : m.Holds 0 done) :
    (scanWires (n + 1) texts m).Holds 0 (done ++ bits.flatMap BitToNemaPhase.bytes) := by
  induction h generalizing done n m with
  | nil =>
      rw [List.flatMap_nil, List.append_nil]
      exact hdone
  | @cons p text bits texts hwire _ ih =>
      have hnext : (done ++ p.bytes).length = 2 * (n + 1) := by
        rw [List.length_append, hn]
        rfl
      have hrest := ih hnext (scanWire_holds hwire hn hdone)
      rw [List.flatMap_cons, ← List.append_assoc]
      exact_mod_cast hrest

/-- Entry `i` of the table. -/
def entryAt (nemaAsg : Mem Byte) (i : Int) : BitToNemaPhase where
  phaseColor := PhaseColor.ofByte (nemaAsg.cell (phaseColorAddr i))
  phaseNumber := nemaAsg.cell (phaseNumberAddr i)

/-- The entries that the sniffer goes through. -/
def NemaReader.bits (s : NemaReader) : List BitToNemaPhase :=
  (upTo s.numBitsToNema.toNat).map (entryAt s.nemaAsg)

/-- Entries that lie in the table one after the other are what is read of it. -/
theorem entryAt_of_holds {bits : List BitToNemaPhase} {m : Mem Byte} {n : Nat}
    (h : m.Holds (2 * n) (bits.flatMap BitToNemaPhase.bytes)) {k : Nat} {p : BitToNemaPhase}
    (hk : bits[k]? = some p) : entryAt m (n + k + 1) = p := by
  induction bits generalizing n k with
  | nil => cases hk
  | cons q bits ih =>
      obtain ⟨hcolor, hnumber, hrest⟩ := h
      cases k with
      | zero =>
          obtain rfl := Option.some.inj hk
          have hcolorAddr : phaseColorAddr (n + (0 : Nat) + 1) = 2 * n := by
            rw [phaseColorAddr]
            push_cast
            ring
          have hnumberAddr : phaseNumberAddr (n + (0 : Nat) + 1) = 2 * n + 1 := by
            rw [phaseNumberAddr]
            push_cast
            ring
          rw [entryAt, hcolorAddr, hnumberAddr, hcolor, hnumber, PhaseColor.ofByte_letter]
      | succ k =>
          have hplace : (2 * n + 1 + 1 : Int) = 2 * ((n + 1 : Nat) : Int) := by
            push_cast
            ring
          rw [hplace] at hrest
          have hentry := ih hrest hk
          have hindex : ((n + 1 : Nat) : Int) + k + 1 = n + (k + 1 : Nat) + 1 := by
            push_cast
            ring
          rw [← hindex]
          exact hentry

/-- **The wires are read as the file names them**, whatever the conversions store over the
entries behind. -/
theorem readNema_bits {bits : List BitToNemaPhase} {file : List Char} (h : NemaFile bits file)
    (i : Int) : (readNema i file).bits = bits := by
  obtain ⟨hcount, hmem⟩ := readNema_eq i file
  obtain ⟨hlength, hwires⟩ := h.lines
  have hholds := scanWires_holds hwires (n := 0) rfl ((Mem.ofList (0 : Byte) []).holds_nil 0)
  rw [NemaReader.bits, hcount, hlength, Int.toNat_natCast, hmem]
  apply List.ext_getElem?
  intro k
  rw [upTo, List.map_map, List.getElem?_map]
  by_cases hk : k < bits.length
  · rw [List.getElem?_range hk, List.getElem?_eq_getElem hk, Option.map_some]
    have hentry := entryAt_of_holds (n := 0) hholds (List.getElem?_eq_getElem hk)
    simp only [Nat.cast_zero, zero_add] at hentry
    exact congrArg some hentry
  · have hnone : (List.range bits.length)[k]? = none :=
      List.getElem?_eq_none (by rw [List.length_range]; omega)
    rw [hnone, List.getElem?_eq_none (not_lt.mp hk)]
    rfl

/-! ## From the file to the variable -/

/-- The table that the sniffer goes through, where a byte has an input for each wire. -/
def nemaTable (i : Int) (file : List Char) : Option NemaAsg :=
  if h : (readNema i file).bits.length ≤ 8 then some ⟨(readNema i file).bits, h⟩ else none

/-- After a byte the variable shows the lamps of one moment, before the first byte or at one
of the bytes up to this, at which the greens of phases 1 to 8 were those of now. -/
def ShowsMoment (nemaAsg : NemaAsg) (pre : List Byte) (s : State) (digioByte : Byte) : Prop :=
  ∃ moment ∈ 0xff :: (pre ++ [digioByte]),
    Shows nemaAsg ((sniffer nemaAsg).step s digioByte).1.atscVar moment ∧
      ∀ phase : Int, 1 ≤ phase → phase ≤ 8 →
        (Lit nemaAsg .G phase moment ↔ Lit nemaAsg .G phase digioByte)

/-- The variable shows a moment, and the static variable its greens. -/
def MomentShown (nemaAsg : NemaAsg) (pre : List Byte) (s : State) : Prop :=
  ∃ moment ∈ 0xff :: pre, Shows nemaAsg s.atscVar moment ∧
    (currentAtsc nemaAsg moment).phaseStatusGreens 0 = s.lastGreens

/-- A byte whose greens are those written last changes nothing, another is written as it is. -/
theorem momentShown_step {nemaAsg : NemaAsg} {pre : List Byte} {s : State}
    (h : MomentShown nemaAsg pre s) (digioByte : Byte) :
    MomentShown nemaAsg (pre ++ [digioByte]) ((sniffer nemaAsg).step s digioByte).1 ∧
      ((sniffer nemaAsg).step s digioByte).1.lastGreens =
        (currentAtsc nemaAsg digioByte).phaseStatusGreens 0 := by
  by_cases hsame : (currentAtsc nemaAsg digioByte).phaseStatusGreens 0 = s.lastGreens
  · have hkept : (sniffer nemaAsg).step s digioByte = (s, []) := by
      simp only [sniffer, writeAtscDbVar, hsame, ne_eq, not_true, if_false]
    obtain ⟨moment, hmem, hshows, hgreens⟩ := h
    rw [hkept]
    refine ⟨⟨moment, ?_, hshows, hgreens⟩, hsame.symm⟩
    rw [← List.cons_append]
    exact List.mem_append_left _ hmem
  · have hwritten : (sniffer nemaAsg).step s digioByte =
        ({ lastGreens := (currentAtsc nemaAsg digioByte).phaseStatusGreens 0,
           atscVar := currentAtsc nemaAsg digioByte }, [currentAtsc nemaAsg digioByte]) := by
      simp only [sniffer, writeAtscDbVar, hsame, ne_eq, not_false_eq_true, if_true]
    rw [hwritten]
    refine ⟨⟨digioByte, ?_, currentAtsc_shows nemaAsg digioByte, rfl⟩, rfl⟩
    exact List.mem_cons_of_mem _ (List.mem_append_right _ List.mem_cons_self)

/-- At the start nothing is shown. -/
theorem momentShown_initial (nemaAsg : NemaAsg) : MomentShown nemaAsg [] State.initial := by
  refine ⟨0xff, List.mem_cons_self, initial_shows nemaAsg, ?_⟩
  rw [currentAtsc, setBits_off 0 nemaAsg.bits zeroAtsc (by simpa using nemaAsg.length_le)]
  rfl

/-- A table's writer shows one moment at a time. -/
theorem showsMoment_along (nemaAsg : NemaAsg) (bytes : List Byte) :
    (sniffer nemaAsg).Along State.initial (ShowsMoment nemaAsg) bytes := by
  refine Machine.along_of_inv (sniffer nemaAsg) (momentShown_initial nemaAsg) ?_ ?_ bytes
  · intro pre s digioByte h
    exact (momentShown_step h digioByte).1
  · intro pre s digioByte h
    obtain ⟨⟨moment, hmem, hshows, hgreens⟩, hlast⟩ := momentShown_step h digioByte
    refine ⟨moment, hmem, hshows, ?_⟩
    exact (greens_eq_iff nemaAsg moment digioByte).mp (hlast.symm.trans hgreens.symm)

/-- **From the file to the variable.**  A file that names at most eight wires gives the
sniffer these wires; and whatever bytes it reads, the variable shows the lamps of one moment
as the file has them wired, and the greens of phases 1 to 8 as they are now. -/
theorem wired_along {bits : List BitToNemaPhase} {file : List Char} (hfile : NemaFile bits file)
    (hcount : bits.length ≤ 8) (i : Int) :
    ∃ nemaAsg, nemaTable i file = some nemaAsg ∧ nemaAsg.bits = bits ∧
      ∀ bytes, (sniffer nemaAsg).Along State.initial (ShowsMoment nemaAsg) bytes := by
  have hbits := readNema_bits hfile i
  have hfits : (readNema i file).bits.length ≤ 8 := by
    rw [hbits]
    exact hcount
  exact ⟨⟨(readNema i file).bits, hfits⟩, dif_pos hfits, hbits, showsMoment_along _⟩

/-! ### Writing such a file -/

/-- A wire's line as it is written. -/
def wireText (p : BitToNemaPhase) : List Char :=
  p.phaseColor.letter :: ' ' :: printInt p.phaseNumber.toNat

/-- The lines of a file of wires. -/
def nemaLines (bits : List BitToNemaPhase) : List (List Char) :=
  printInt bits.length :: bits.map wireText

def nemaText (bits : List BitToNemaPhase) : List Char :=
  (nemaLines bits).flatMap fun line => line ++ ['\n']

/-- A wire printed spells itself. -/
theorem spellsWire_wireText (p : BitToNemaPhase) : SpellsWire p (wireText p) := by
  refine ⟨_, rfl, [' '], printInt p.phaseNumber.toNat, [], ?_, ?_,
    speltInteger_printInt _, ?_, ?_⟩
  · rw [List.append_nil, List.singleton_append]
  · intro c hc
    rw [List.mem_singleton.mp hc]
    rfl
  · exact fun c hc => absurd hc (Option.not_mem_none c)
  · exact fun c hc => absurd hc List.not_mem_nil

/-- A printed number has no newline. -/
private theorem newline_not_mem_printInt (v : Int) : '\n' ∉ printInt v := by
  intro hc
  apply newline_not_mem_printFields [⟨v, (printInt v).length, Nat.le_refl _⟩]
  rw [printFields, List.flatMap_singleton]
  exact List.mem_append_left _ hc

/-- A printed count is no comment. -/
private theorem not_isComment_count (n : Nat) : isComment (printInt n) = false := by
  change isComment (Nat.toDigits 10 n) = false
  have hdigit : ∀ c ∈ Nat.toDigits 10 n, c.isDigit = true := fun c hc => isDigit_of_mem_toDigits hc
  cases hdigits : Nat.toDigits 10 n with
  | nil => rfl
  | cons c cs =>
      have hc := hdigit c (by rw [hdigits]; exact List.mem_cons_self)
      apply decide_eq_false
      rintro rfl
      exact absurd hc (by decide)

/-- The lines that are written fit the buffer, and none is a comment. -/
private theorem nemaLines_fit {bits : List BitToNemaPhase} (hcount : bits.length ≤ 16) :
    ∀ line ∈ nemaLines bits,
      ('\n' ∉ line ∧ line.length + 1 < 100) ∧ isComment line = false := by
  intro line hline
  rcases List.mem_cons.mp hline with rfl | hwire
  · have hlength : (printInt bits.length).length ≤ 2 :=
      printInt_natCast_length (by decide) (by omega)
    exact ⟨⟨newline_not_mem_printInt _, by omega⟩, not_isComment_count _⟩
  · obtain ⟨p, _, rfl⟩ := List.mem_map.mp hwire
    have hnumber : (printInt p.phaseNumber.toNat).length ≤ 3 :=
      printInt_natCast_length (by decide) (Nat.lt_trans p.phaseNumber.isLt (by decide))
    have hletter : p.phaseColor.letter ≠ '\n' ∧ p.phaseColor.letter ≠ '#' := by
      cases p.phaseColor <;> decide
    refine ⟨⟨?_, ?_⟩, decide_eq_false hletter.2⟩
    · rw [wireText, List.mem_cons, List.mem_cons, not_or, not_or]
      exact ⟨Ne.symm hletter.1, by decide, newline_not_mem_printInt _⟩
    · rw [wireText, List.length_cons, List.length_cons]
      omega

/-- What is written names the wires. -/
theorem nemaFile_nemaText {bits : List BitToNemaPhase} (hcount : bits.length ≤ 16) :
    NemaFile bits (nemaText bits) := by
  have hfit := nemaLines_fit hcount
  refine ⟨nemaLines bits, printInt bits.length, bits.map wireText, [], rfl,
    fun line hline => (hfit line hline).1, ?_, ?_, ?_⟩
  · rw [List.append_nil]
    refine List.filter_eq_self.mpr fun line hline => ?_
    rw [(hfit line hline).2]
    rfl
  · refine ⟨[], printInt bits.length, [], ?_, ?_, speltInteger_printInt _, ?_, ?_⟩
    · rw [List.append_nil, List.nil_append]
    · exact fun c hc => absurd hc List.not_mem_nil
    · exact fun c hc => absurd hc (Option.not_mem_none c)
    · exact fun c hc => absurd hc List.not_mem_nil
  · rw [List.forall₂_map_right_iff]
    exact List.forall₂_same.mpr fun p _ => spellsWire_wireText p

/-- The wires of the site `rfs`, written and read. -/
theorem wired_along_rfs :
    ∃ nemaAsg, nemaTable 0 (nemaText rfsNemaAsg.bits) = some nemaAsg ∧
      nemaAsg.bits = rfsNemaAsg.bits ∧
      ∀ bytes, (sniffer nemaAsg).Along State.initial (ShowsMoment nemaAsg) bytes :=
  wired_along (nemaFile_nemaText (by decide)) (by decide) 0

/-! ## The bounds of the table -/

end RfsAtsc.Sniffer
