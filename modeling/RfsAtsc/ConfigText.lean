import RfsAtsc.DecimalText
import Mathlib.Algebra.Field.Rat
import Mathlib.Data.List.Forall2
import Mathlib.Data.List.TakeWhile

/-!
# Configuration text

Text files of numbers, read line by line: `fgets` gives the lines one after the other,
lines that start with `#` are passed over, and `sscanf` converts the numbers of a line.
`SpellsRow` says that a line spells a row of numbers, with white space between them;
`Renders` that a file does so line by line, with comments anywhere.  A converted row
gives the numbers back, a decimal its exact value.
-/

namespace DecimalText

/-! ## Lines -/

/-- The lines that `fgets` gives one after the other, `fuel` of them at most. -/
def fgetsLines (size : Nat) : Nat → List Char → List (List Char)
  | 0, _ => []
  | fuel + 1, file =>
      match fgets size file with
      | none => []
      | some (line, rest) => line :: fgetsLines size fuel rest

/-- All the lines of a file: each takes a character at least. -/
def fileLines (size : Nat) (file : List Char) : List (List Char) :=
  fgetsLines size file.length file

/-- A line that starts with `#`. -/
def isComment : List Char → Bool
  | c :: _ => c = '#'
  | [] => false

/-- The lines that are no comments. -/
def dataLines (lines : List (List Char)) : List (List Char) :=
  lines.filter fun line => !isComment line

section ReadLines

variable {State : Type} (turn : State → List Char → State × Bool)

/-- Read the lines one after the other, passing over comments; a turn says whether it is
the last. -/
def readLines : List (List Char) → State → State
  | [], s => s
  | line :: lines, s =>
      if isComment line then readLines lines s
      else
        let next := turn s line
        if next.2 then next.1 else readLines lines next.1

end ReadLines

/-- Take rows one after the other, as lines are read. -/
def runRows {State Row : Type} (turn : State → Row → State × Bool) : List Row → State → State
  | [], s => s
  | row :: rows, s =>
      let next := turn s row
      if next.2 then next.1 else runRows turn rows next.1

/-- Reading the lines is taking those that are no comments. -/
theorem readLines_eq_runRows {State : Type} (turn : State → List Char → State × Bool)
    (lines : List (List Char)) (s : State) :
    readLines turn lines s = runRows turn (dataLines lines) s := by
  induction lines generalizing s with
  | nil => rfl
  | cons line lines ih =>
      cases hcomment : isComment line with
      | true =>
          simp only [dataLines, List.filter_cons, hcomment, readLines, if_true, Bool.not_true,
            Bool.false_eq_true, if_false]
          exact ih s
      | false =>
          simp only [dataLines, List.filter_cons, hcomment, readLines, Bool.not_false, if_true,
            Bool.false_eq_true, if_false, runRows]
          split
          · rfl
          · exact ih _

section RunRows

variable {State Row : Type} {turn : State → Row → State × Bool}

/-- A row that is not the last leads to the next. -/
theorem runRows_next {s : State} {row : Row} (h : (turn s row).2 = false) (rows : List Row) :
    runRows turn (row :: rows) s = runRows turn rows (turn s row).1 := by
  simp only [runRows, h, Bool.false_eq_true, if_false]

/-- Behind the last row nothing is taken. -/
theorem runRows_last {s : State} {row : Row} (h : (turn s row).2 = true) (rows : List Row) :
    runRows turn (row :: rows) s = (turn s row).1 := by
  simp only [runRows, h, if_true]

/-- The last row there is, whether the turn says so or not. -/
theorem runRows_single (s : State) (row : Row) : runRows turn [row] s = (turn s row).1 := by
  cases h : (turn s row).2 with
  | true => exact runRows_last h []
  | false => exact runRows_next h []

end RunRows

/-! ## Decimals -/

/-- The value of a decimal with these digits before and behind the point. -/
def decimalValue (whole fraction : List Char) : ℚ :=
  (Nat.ofDigitChars 10 (whole ++ fraction) 0 : ℚ) / 10 ^ fraction.length

/-- What follows a decimal point, and what follows that. -/
def scanFraction : List Char → List Char × List Char
  | '.' :: cs => (cs.takeWhile Char.isDigit, cs.dropWhile Char.isDigit)
  | cs => ([], cs)

/-- An exponent, if there is one, and what follows.  An `e` without digits fails. -/
def scanExponent : List Char → Option (Int × List Char)
  | c :: cs =>
      if c = 'e' ∨ c = 'E' then
        let signed := scanSign cs
        let digits := signed.2.takeWhile Char.isDigit
        if digits = [] then none
        else
          let n : Int := Nat.ofDigitChars 10 digits 0
          some (if signed.1 then -n else n, signed.2.dropWhile Char.isDigit)
      else some (0, c :: cs)
  | [] => some (0, [])

/-- One conversion of a decimal: white space is skipped, then a sign, digits with a point
among them, and an exponent. -/
def scanRat (text : List Char) : Option (ℚ × List Char) :=
  let signed := scanSign (text.dropWhile isSpace)
  let whole := signed.2.takeWhile Char.isDigit
  let fraction := scanFraction (signed.2.dropWhile Char.isDigit)
  if whole = [] ∧ fraction.1 = [] then none
  else
    match scanExponent fraction.2 with
    | none => none
    | some (e, rest) =>
        let q := decimalValue whole fraction.1 * 10 ^ e
        some (if signed.1 then -q else q, rest)

/-- At most `n` conversions of decimals: the values before the first that fails. -/
def scanRats : Nat → List Char → List ℚ
  | 0, _ => []
  | n + 1, text =>
      match scanRat text with
      | none => []
      | some (q, rest) => q :: scanRats n rest

/-! ## Rows of numbers -/

/-- A number of a row. -/
inductive Field where
  | int (v : Int)
  | dec (q : ℚ)

/-- A value that an `int` holds.  What `%d` makes of digits that say another is not defined, so
that a configuration is said to be valid only with such values. -/
def FitsInt (v : Int) : Prop := -2147483648 ≤ v ∧ v ≤ 2147483647

instance (v : Int) : Decidable (FitsInt v) := inferInstanceAs (Decidable (_ ∧ _))

/-- The integers of a row are values of `int`. -/
def Field.FitsInt : Field → Prop
  | .int v => DecimalText.FitsInt v
  | .dec _ => True

instance (f : Field) : Decidable f.FitsInt :=
  match f with
  | .int v => inferInstanceAs (Decidable (DecimalText.FitsInt v))
  | .dec _ => isTrue trivial

/-- An integer in the usual form: digits, a minus before them as the case may be. -/
structure SpeltInteger (v : Int) (text : List Char) : Prop where
  form : ∃ (negative : Bool) (digits : List Char),
    text = (if negative then ['-'] else []) ++ digits ∧ digits ≠ [] ∧
      (∀ c ∈ digits, c.isDigit = true) ∧
      v = if negative then -(Nat.ofDigitChars 10 digits 0 : Int)
        else (Nat.ofDigitChars 10 digits 0 : Int)

/-- A decimal in the usual form: digits, a minus before them and a point among them as the
case may be. -/
structure SpeltDecimal (q : ℚ) (text : List Char) : Prop where
  form : ∃ (negative : Bool) (whole fraction : List Char) (point : Bool),
    text = (if negative then ['-'] else []) ++
        (whole ++ if point then '.' :: fraction else []) ∧
      whole ≠ [] ∧ (∀ c ∈ whole, c.isDigit = true) ∧ (∀ c ∈ fraction, c.isDigit = true) ∧
      (point = false → fraction = []) ∧
      q = if negative then -decimalValue whole fraction else decimalValue whole fraction

/-- The text of a number. -/
def Field.Spelt : Field → List Char → Prop
  | .int v, text => SpeltInteger v text
  | .dec q, text => SpeltDecimal q text

/-- A text spells numbers, with white space between them. -/
def SpellsRow : List Field → List Char → Prop
  | [], text => ∀ c ∈ text, isSpace c = true
  | f :: fs, text => ∃ spaces token rest, text = spaces ++ (token ++ rest) ∧
      (∀ c ∈ spaces, isSpace c = true) ∧ f.Spelt token ∧ (∀ c ∈ rest.head?, isSpace c = true) ∧
        SpellsRow fs rest

/-- A file spells rows of numbers line by line, with comments among them, each line
shorter than a buffer of `size` characters. -/
structure Renders (size : Nat) (rows : List (List Field)) (file : List Char) : Prop where
  form : ∃ lines : List (List Char), file = lines.flatMap (fun line => line ++ ['\n']) ∧
    (∀ line ∈ lines, '\n' ∉ line ∧ line.length + 1 < size) ∧
      List.Forall₂ SpellsRow rows (dataLines lines)

/-! ## What is converted -/

/-- White space is no digit, no point and no exponent. -/
theorem not_numeral_of_isSpace {c : Char} (h : isSpace c = true) :
    c.isDigit = false ∧ c ≠ '.' ∧ c ≠ 'e' ∧ c ≠ 'E' := by
  have hlow : c.toNat ≤ 32 := by
    rw [isSpace, Bool.or_eq_true, Bool.and_eq_true] at h
    rcases h with hblank | hcontrol
    · rw [decide_eq_true_eq] at hblank
      rw [hblank]
      decide
    · have hreturn : c.toNat ≤ 13 := decide_eq_true_eq.mp hcontrol.2
      omega
  have hne : ∀ d : Char, 32 < d.toNat → c ≠ d := by
    intro d hd heq
    rw [heq] at hlow
    omega
  refine ⟨?_, hne '.' (by decide), hne 'e' (by decide), hne 'E' (by decide)⟩
  rw [Char.isDigit, Bool.and_eq_false_iff]
  refine Or.inl (decide_eq_false fun hdigit => ?_)
  have hzero : 48 ≤ c.toNat := hdigit
  omega

/-- In front of a digit there is no sign. -/
private theorem scanSign_of_digit {c : Char} (h : c.isDigit = true) (cs : List Char) :
    scanSign (c :: cs) = (false, c :: cs) := by
  obtain ⟨_, hminus, hplus, _⟩ := not_special_of_isDigit h
  rw [scanSign]
  · intro cs' heq
    exact hminus (List.cons.inj heq).1
  · intro cs' heq
    exact hplus (List.cons.inj heq).1

/-- A sign or none before digits. -/
private theorem scanSign_digits_append (negative : Bool) {whole : List Char} (hne : whole ≠ [])
    (hdigits : ∀ c ∈ whole, c.isDigit = true) (rest : List Char) :
    scanSign ((if negative then ['-'] else []) ++ (whole ++ rest)) = (negative, whole ++ rest) := by
  cases negative with
  | true => rfl
  | false =>
      obtain ⟨c, cs, rfl⟩ := List.exists_cons_of_ne_nil hne
      exact scanSign_of_digit (hdigits c List.mem_cons_self) (cs ++ rest)

/-- A number begins with its sign or a digit, and not with white space. -/
private theorem signed_head (negative : Bool) {whole : List Char} (hne : whole ≠ [])
    (hdigits : ∀ c ∈ whole, c.isDigit = true) (rest : List Char) :
    ∀ c ∈ ((if negative then ['-'] else []) ++ (whole ++ rest)).head?, isSpace c = false := by
  intro c hc
  cases negative with
  | true =>
      obtain rfl := Option.some.inj hc
      decide
  | false =>
      obtain ⟨d, ds, rfl⟩ := List.exists_cons_of_ne_nil hne
      obtain rfl := Option.some.inj hc
      exact (not_special_of_isDigit (hdigits d List.mem_cons_self)).1

/-- A fraction is read up to the white space behind it. -/
private theorem scanFraction_spelt {fraction : List Char} {point : Bool}
    (hdigits : ∀ c ∈ fraction, c.isDigit = true) (hpoint : point = false → fraction = [])
    {rest : List Char} (hrest : ∀ c ∈ rest.head?, isSpace c = true) :
    scanFraction ((if point then '.' :: fraction else []) ++ rest) = (fraction, rest) := by
  have hstop : ∀ c ∈ rest.head?, c.isDigit = false :=
    fun c hc => (not_numeral_of_isSpace (hrest c hc)).1
  cases point with
  | true =>
      obtain ⟨htake, hdrop⟩ := takeWhile_append_of_all hdigits hstop
      exact Prod.ext htake hdrop
  | false =>
      rw [hpoint rfl]
      cases rest with
      | nil => rfl
      | cons c cs =>
          have hdot := (not_numeral_of_isSpace (hrest c rfl)).2.1
          change scanFraction (c :: cs) = _
          rw [scanFraction]
          intro cs' heq
          exact hdot (List.cons.inj heq).1

/-- In front of white space there is no exponent. -/
private theorem scanExponent_none {rest : List Char}
    (hrest : ∀ c ∈ rest.head?, isSpace c = true) : scanExponent rest = some (0, rest) := by
  cases rest with
  | nil => rfl
  | cons c cs =>
      obtain ⟨_, _, hlower, hupper⟩ := not_numeral_of_isSpace (hrest c rfl)
      rw [scanExponent, if_neg (not_or.mpr ⟨hlower, hupper⟩)]

/-- A conversion gives an integer's value, past white space and up to white space. -/
theorem scanInt_spelt {v : Int} {token : List Char} (h : SpeltInteger v token)
    {spaces rest : List Char} (hspaces : ∀ c ∈ spaces, isSpace c = true)
    (hrest : ∀ c ∈ rest.head?, isSpace c = true) :
    scanInt (spaces ++ (token ++ rest)) = some (v, rest) := by
  obtain ⟨negative, digits, rfl, hne, hdigits, rfl⟩ := h.form
  have hskip := (takeWhile_append_of_all hspaces (signed_head negative hne hdigits rest)).2
  obtain ⟨htake, hdrop⟩ := takeWhile_append_of_all hdigits
    fun c hc => (not_numeral_of_isSpace (hrest c hc)).1
  rw [scanInt]
  simp only [List.append_assoc]
  rw [hskip, scanSign_digits_append negative hne hdigits]
  simp only [htake, hdrop, if_neg hne]

/-- A printed integer is in the usual form. -/
theorem speltInteger_printInt (v : Int) : SpeltInteger v (printInt v) := by
  cases v with
  | ofNat n =>
      refine ⟨false, Nat.toDigits 10 n, rfl, Nat.toDigits_ne_nil,
        fun c hc => isDigit_of_mem_toDigits hc, ?_⟩
      rw [Nat.ofDigitChars_ten_toDigits]
      rfl
  | negSucc n =>
      refine ⟨true, Nat.toDigits 10 (n + 1), rfl, Nat.toDigits_ne_nil,
        fun c hc => isDigit_of_mem_toDigits hc, ?_⟩
      rw [Nat.ofDigitChars_ten_toDigits]
      rfl

/-- A conversion gives a decimal's exact value, past white space and up to white space. -/
theorem scanRat_spelt {q : ℚ} {token : List Char} (h : SpeltDecimal q token)
    {spaces rest : List Char} (hspaces : ∀ c ∈ spaces, isSpace c = true)
    (hrest : ∀ c ∈ rest.head?, isSpace c = true) :
    scanRat (spaces ++ (token ++ rest)) = some (q, rest) := by
  obtain ⟨negative, whole, fraction, point, rfl, hne, hwhole, hfraction, hpoint, rfl⟩ := h.form
  have htail : ∀ c ∈ ((if point then '.' :: fraction else []) ++ rest).head?,
      c.isDigit = false := by
    intro c hc
    cases point with
    | true =>
        obtain rfl := Option.some.inj hc
        decide
    | false => exact (not_numeral_of_isSpace (hrest c hc)).1
  have hskip := (takeWhile_append_of_all hspaces (signed_head negative hne hwhole
    ((if point then '.' :: fraction else []) ++ rest))).2
  obtain ⟨htake, hdrop⟩ := takeWhile_append_of_all hwhole htail
  have hdigits : ¬ (whole = [] ∧ fraction = []) := fun hnone => hne hnone.1
  rw [scanRat]
  simp only [List.append_assoc]
  rw [hskip, scanSign_digits_append negative hne hwhole]
  simp only [htake, hdrop, scanFraction_spelt hfraction hpoint hrest, if_neg hdigits,
    scanExponent_none hrest, zpow_zero, mul_one]

/-- The first field of a row is converted when it is an integer. -/
theorem scanInt_spells {v : Int} {fs : List Field} {text : List Char}
    (h : SpellsRow (.int v :: fs) text) :
    ∃ rest, scanInt text = some (v, rest) ∧ SpellsRow fs rest := by
  obtain ⟨spaces, token, rest, rfl, hspaces, htoken, hrest, hfs⟩ := h
  exact ⟨rest, scanInt_spelt htoken hspaces hrest, hfs⟩

/-- The first field of a row is converted when it is a decimal. -/
theorem scanRat_spells {q : ℚ} {fs : List Field} {text : List Char}
    (h : SpellsRow (.dec q :: fs) text) :
    ∃ rest, scanRat text = some (q, rest) ∧ SpellsRow fs rest := by
  obtain ⟨spaces, token, rest, rfl, hspaces, htoken, hrest, hfs⟩ := h
  exact ⟨rest, scanRat_spelt htoken hspaces hrest, hfs⟩

/-- White space holds no number. -/
private theorem scanInt_blank {text : List Char} (h : ∀ c ∈ text, isSpace c = true) :
    scanInt text = none := by
  have hskip : text.dropWhile isSpace = [] := List.dropWhile_eq_nil_iff.mpr h
  rw [scanInt, hskip]
  rfl

/-- Integers of a row: as many as are asked for, or all there are. -/
theorem scanInts_spells {vs : List Int} {text : List Char} (h : SpellsRow (vs.map Field.int) text)
    (n : Nat) : scanInts n text = vs.take n := by
  induction vs generalizing n text with
  | nil =>
      cases n with
      | zero => rfl
      | succ n => rw [scanInts, scanInt_blank h, List.take_nil]
  | cons v vs ih =>
      cases n with
      | zero => rfl
      | succ n =>
          obtain ⟨rest, hscan, hrest⟩ := scanInt_spells h
          rw [scanInts, hscan, List.take_succ_cons]
          simp only [ih hrest]

/-- Decimals of a row. -/
theorem scanRats_spells {qs : List ℚ} {text : List Char} (h : SpellsRow (qs.map Field.dec) text) :
    scanRats qs.length text = qs := by
  induction qs generalizing text with
  | nil => rfl
  | cons q qs ih =>
      obtain ⟨rest, hscan, hrest⟩ := scanRat_spells h
      rw [List.length_cons, scanRats, hscan]
      simp only [ih hrest]

/-! ## The lines of a rendered file -/

/-- A line spells its row with the newline too. -/
theorem SpellsRow.newline {fs : List Field} {text : List Char} (h : SpellsRow fs text) :
    SpellsRow fs (text ++ ['\n']) := by
  induction fs generalizing text with
  | nil =>
      intro c hc
      rcases List.mem_append.mp hc with htext | hnewline
      · exact h c htext
      · rw [List.mem_singleton.mp hnewline]
        rfl
  | cons f fs ih =>
      obtain ⟨spaces, token, rest, rfl, hspaces, htoken, hrest, hfs⟩ := h
      refine ⟨spaces, token, rest ++ ['\n'], ?_, hspaces, htoken, ?_, ih hfs⟩
      · simp only [List.append_assoc]
      · intro c hc
        cases rest with
        | nil =>
            obtain rfl := Option.some.inj hc
            rfl
        | cons d ds => exact hrest c hc

/-- A line is a comment with the newline or without. -/
theorem isComment_newline (line : List Char) : isComment (line ++ ['\n']) = isComment line := by
  cases line with
  | nil => rfl
  | cons c cs => rfl

/-- Lines that fit the buffer are read as they are. -/
theorem fileLines_of_fit {size : Nat} {lines : List (List Char)}
    (hfit : ∀ line ∈ lines, '\n' ∉ line ∧ line.length + 1 < size) :
    fileLines size (lines.flatMap fun line => line ++ ['\n']) =
      lines.map fun line => line ++ ['\n'] := by
  have hgeneral : ∀ (lines : List (List Char)) (fuel : Nat),
      (∀ line ∈ lines, '\n' ∉ line ∧ line.length + 1 < size) → lines.length ≤ fuel →
        fgetsLines size fuel (lines.flatMap fun line => line ++ ['\n']) =
          lines.map fun line => line ++ ['\n'] := by
    intro lines
    induction lines with
    | nil =>
        intro fuel _ _
        cases fuel with
        | zero => rfl
        | succ fuel => rfl
    | cons line lines ih =>
        intro fuel hfit hfuel
        obtain ⟨hnewline, hlength⟩ := hfit line List.mem_cons_self
        cases fuel with
        | zero => exact absurd hfuel (by simp)
        | succ fuel =>
            have hline := fgets_line hnewline hlength
              (lines.flatMap fun line => line ++ ['\n'])
            rw [List.flatMap_cons, List.append_assoc, List.singleton_append, fgetsLines, hline]
            simp only [List.map_cons]
            rw [ih fuel (fun l hl => hfit l (List.mem_cons_of_mem _ hl))
              (Nat.le_of_succ_le_succ hfuel)]
  refine hgeneral lines _ hfit ?_
  clear hfit hgeneral
  induction lines with
  | nil => exact Nat.le_refl 0
  | cons line lines ih =>
      rw [List.flatMap_cons, List.length_append, List.length_append, List.length_cons,
        List.length_singleton]
      omega

/-- So the same lines are passed over. -/
theorem dataLines_newline (lines : List (List Char)) :
    dataLines (lines.map fun line => line ++ ['\n']) =
      (dataLines lines).map fun line => line ++ ['\n'] := by
  rw [dataLines, dataLines, List.filter_map]
  congr 1
  refine List.filter_congr fun line _ => ?_
  simp only [Function.comp_apply, isComment_newline]

/-- Reading a rendered file is taking its lines, each of which spells a row. -/
theorem readLines_texts {size : Nat} {rows : List (List Field)} {file : List Char}
    (h : Renders size rows file) :
    ∃ texts, List.Forall₂ SpellsRow rows texts ∧
      ∀ {State : Type} (turn : State → List Char → State × Bool) (s : State),
        readLines turn (fileLines size file) s = runRows turn texts s := by
  obtain ⟨lines, rfl, hfit, hrows⟩ := h.form
  refine ⟨(dataLines lines).map fun line => line ++ ['\n'], ?_, fun turn s => ?_⟩
  · rw [List.forall₂_map_right_iff]
    exact hrows.imp fun _ _ => SpellsRow.newline
  · rw [fileLines_of_fit hfit, readLines_eq_runRows, dataLines_newline]

/-- **Reading a rendered file** is taking its rows, for a turn that takes a text as the row
that it spells. -/
theorem readLines_renders {State Row : Type} {turn : State → List Char → State × Bool}
    {rowTurn : State → Row → State × Bool} {fields : Row → List Field}
    (hturn : ∀ s row text, SpellsRow (fields row) text → turn s text = rowTurn s row) {size : Nat}
    {rows : List Row} {file : List Char} (h : Renders size (rows.map fields) file) (s : State) :
    readLines turn (fileLines size file) s = runRows rowTurn rows s := by
  obtain ⟨texts, hrows, hread⟩ := readLines_texts h
  rw [hread]
  rw [List.forall₂_map_left_iff] at hrows
  clear h hread
  induction hrows generalizing s with
  | nil => rfl
  | @cons row text rows texts hspells _ ih =>
      have hsame := hturn s row text hspells
      cases hlast : (rowTurn s row).2 with
      | true =>
          rw [runRows_last (by rw [hsame]; exact hlast), runRows_last hlast, hsame]
      | false =>
          rw [runRows_next (by rw [hsame]; exact hlast), runRows_next hlast, hsame, ih]

/-! ## Reading row by row -/

/-- However its rows are spelt, a text leads the turns from one state to another, and none
of them is the last. -/
inductive Reads {State : Type} (turn : State → List Char → State × Bool) :
    List (List Field) → State → State → Prop where
  | nil (s : State) : Reads turn [] s s
  | row {row : List Field} {rows : List (List Field)} {s t u : State}
      (hturn : ∀ text, SpellsRow row text → turn s text = (t, false))
      (hrest : Reads turn rows t u) :
      Reads turn (row :: rows) s u

/-- Where the entries of a list that are still to be read begin with one, it is the next
entry, and the others stand behind it. -/
theorem next_of_drop {α : Type} {xs rest : List α} {n : Nat} {x : α}
    (h : xs.drop n = x :: rest) :
    xs[n]? = some x ∧ xs.drop (n + 1) = rest ∧ xs.length = n + (rest.length + 1) := by
  have hcount := congrArg List.length h
  rw [List.length_drop, List.length_cons] at hcount
  refine ⟨?_, ?_, by omega⟩
  · rw [← List.head?_drop, h, List.head?_cons]
  · rw [← List.tail_drop, h, List.tail_cons]

section Reads

variable {State : Type} {turn : State → List Char → State × Bool} {rows : List (List Field)}
  {s t u : State}

/-- A row that leads on from every line that spells it. -/
theorem Reads.single {row : List Field}
    (hturn : ∀ text, SpellsRow row text → turn s text = (t, false)) : Reads turn [row] s t :=
  Reads.row hturn (Reads.nil t)

/-- Rows that lead on, and then more of them. -/
theorem Reads.append {rows' : List (List Field)} (h : Reads turn rows s t)
    (h' : Reads turn rows' t u) : Reads turn (rows ++ rows') s u := by
  induction h with
  | nil => exact h'
  | row hturn _ ih => exact Reads.row hturn (ih h')

/-- However its rows are spelt, the turns end in a state with the last of them, whether that
is known to be the last or not. -/
inductive ReadsToEnd {State : Type} (turn : State → List Char → State × Bool) :
    List (List Field) → State → State → Prop where
  | last {row : List Field} {s t : State}
      (hturn : ∀ text, SpellsRow row text → (turn s text).1 = t) : ReadsToEnd turn [row] s t
  | row {row : List Field} {rows : List (List Field)} {s t u : State}
      (hturn : ∀ text, SpellsRow row text → turn s text = (t, false))
      (hrest : ReadsToEnd turn rows t u) : ReadsToEnd turn (row :: rows) s u

/-- Rows that lead on, and then those that lead to the end. -/
theorem Reads.toEnd {rows' : List (List Field)} (h : Reads turn rows s t)
    (h' : ReadsToEnd turn rows' t u) : ReadsToEnd turn (rows ++ rows') s u := by
  induction h with
  | nil => exact h'
  | row hturn _ ih => exact ReadsToEnd.row hturn (ih h')

/-- Rows that lead to the end do so from the lines that spell them. -/
theorem ReadsToEnd.run (h : ReadsToEnd turn rows s t) {texts : List (List Char)}
    (hrows : List.Forall₂ SpellsRow rows texts) : runRows turn texts s = t := by
  induction h generalizing texts with
  | last hturn =>
      cases hrows with
      | @cons _ text _ _ hspells hnil =>
          cases hnil
          rw [runRows_single]
          exact hturn text hspells
  | row hturn _ ih =>
      cases hrows with
      | @cons _ text _ texts hspells hrows =>
          have hnext := hturn text hspells
          rw [runRows_next (congrArg Prod.snd hnext), hnext]
          exact ih hrows

/-- **A rendered file is read to its end.** -/
theorem readLines_readsToEnd (h : ReadsToEnd turn rows s t) {size : Nat} {file : List Char}
    (hfile : Renders size rows file) : readLines turn (fileLines size file) s = t := by
  obtain ⟨texts, hrows, hread⟩ := readLines_texts hfile
  rw [hread]
  exact h.run hrows

end Reads

/-! ## Writing rows -/

/-- The texts of a row's numbers with a blank behind each. -/
def lineText (tokens : List (List Char)) : List Char := tokens.flatMap fun token => token ++ [' ']

/-- A line that is no comment and fits the buffer. -/
def fitsLine (size : Nat) (tokens : List (List Char)) : Bool :=
  !(lineText tokens).contains '\n' && decide ((lineText tokens).length + 1 < size) &&
    !isComment (lineText tokens)

/-- Numbers with a blank between them spell their row. -/
theorem spells_lineText {fs : List Field} {tokens : List (List Char)}
    (h : List.Forall₂ Field.Spelt fs tokens) : SpellsRow fs (lineText tokens) := by
  induction h with
  | nil => exact fun c hc => absurd hc List.not_mem_nil
  | @cons f token fs tokens hspelt htail ih =>
      have hblank : SpellsRow fs ([' '] ++ lineText tokens) := by
        cases htail with
        | nil =>
            intro c hc
            rw [List.mem_singleton.mp hc]
            rfl
        | cons hspelt' _ =>
            obtain ⟨spaces, token', rest, heq, hspaces, hrest⟩ := ih
            refine ⟨' ' :: spaces, token', rest, congrArg (' ' :: ·) heq, ?_, hrest⟩
            intro c hc
            rcases List.mem_cons.mp hc with rfl | hc
            · rfl
            · exact hspaces c hc
      refine ⟨[], token, [' '] ++ lineText tokens, ?_, ?_, hspelt, ?_, hblank⟩
      · rw [lineText, List.flatMap_cons, List.append_assoc]
        rfl
      · exact fun c hc => absurd hc List.not_mem_nil
      · intro c hc
        obtain rfl := Option.some.inj hc
        rfl

/-- Rows written so, one a line, are a rendered file. -/
theorem renders_lineText {size : Nat} {rows : List (List Field)} {texts : List (List (List Char))}
    (hrows : List.Forall₂ (List.Forall₂ Field.Spelt) rows texts)
    (hfit : texts.all (fitsLine size) = true) :
    Renders size rows (texts.flatMap fun tokens => lineText tokens ++ ['\n']) := by
  have hline : ∀ tokens ∈ texts, ('\n' ∉ lineText tokens ∧ (lineText tokens).length + 1 < size) ∧
      isComment (lineText tokens) = false := by
    intro tokens htokens
    have hone := List.all_eq_true.mp hfit tokens htokens
    rw [fitsLine, Bool.and_eq_true, Bool.and_eq_true, Bool.not_eq_true', Bool.not_eq_true',
      decide_eq_true_eq, ← Bool.not_eq_true, List.contains_iff_mem] at hone
    exact hone
  refine ⟨texts.map lineText, ?_, ?_, ?_⟩
  · rw [List.flatMap_map]
  · intro line hmem
    obtain ⟨tokens, htokens, rfl⟩ := List.mem_map.mp hmem
    exact (hline tokens htokens).1
  · have hall : dataLines (texts.map lineText) = texts.map lineText := by
      refine List.filter_eq_self.mpr fun line hmem => ?_
      obtain ⟨tokens, htokens, rfl⟩ := List.mem_map.mp hmem
      rw [(hline tokens htokens).2]
      rfl
    rw [hall, List.forall₂_map_right_iff]
    exact hrows.imp fun _ _ => spells_lineText

end DecimalText
