import Mathlib.Data.List.TakeDrop
import Mathlib.Data.List.Basic
import Mathlib.Algebra.Ring.Nat

/-!
# Decimal text

Integers printed and scanned in decimal, as `printf` and `scanf` do it, and lines read
with a bound on their length, as `fgets` does.  A printed number carries a bound on its
own length, so that a line of them carries one too.
-/

namespace DecimalText

/-- White space. -/
def isSpace (c : Char) : Bool := c = ' ' || ('\t' ≤ c && c ≤ '\r')

/-- An integer in decimal. -/
def printInt : Int → List Char
  | .ofNat n => Nat.toDigits 10 n
  | .negSucc n => '-' :: Nat.toDigits 10 (n + 1)

/-- An optional sign: whether it is negative, and what follows. -/
def scanSign : List Char → Bool × List Char
  | '-' :: cs => (true, cs)
  | '+' :: cs => (false, cs)
  | cs => (false, cs)

/-- One conversion: white space is skipped, then a sign and as many digits as there
are; without a digit it fails. -/
def scanInt (text : List Char) : Option (Int × List Char) :=
  let signed := scanSign (text.dropWhile isSpace)
  let digits := signed.2.takeWhile Char.isDigit
  if digits = [] then none
  else
    let n : Int := Nat.ofDigitChars 10 digits 0
    some (if signed.1 then -n else n, signed.2.dropWhile Char.isDigit)

/-- At most `n` conversions: the values before the first that fails. -/
def scanInts : Nat → List Char → List Int
  | 0, _ => []
  | n+1, text =>
      match scanInt text with
      | none => []
      | some (v, rest) => v :: scanInts n rest

/-- Up to `n` characters of a text, ending with the first newline. -/
def lineOf : Nat → List Char → List Char × List Char
  | 0, text => ([], text)
  | _+1, [] => ([], [])
  | n+1, c :: cs =>
      if c = '\n' then ([c], cs)
      else (c :: (lineOf n cs).1, (lineOf n cs).2)

/-- `fgets` with a buffer of `size`: the line and the rest of the file, none at its end. -/
def fgets (size : Nat) (file : List Char) : Option (List Char × List Char) :=
  if file = [] then none else some (lineOf (size - 1) file)

/-! ## Scanning what was printed -/

/-- A run of characters ends where the next one is not of its kind. -/
theorem takeWhile_append_of_all {p : Char → Bool} {xs ys : List Char}
    (hall : ∀ c ∈ xs, p c = true) (hstop : ∀ c ∈ ys.head?, p c = false) :
    (xs ++ ys).takeWhile p = xs ∧ (xs ++ ys).dropWhile p = ys := by
  induction xs with
  | nil =>
      cases ys with
      | nil => exact ⟨rfl, rfl⟩
      | cons y ys =>
          have hy : p y = false := hstop y rfl
          exact ⟨by rw [List.nil_append, List.takeWhile_cons, hy]; rfl,
            by rw [List.nil_append, List.dropWhile_cons, hy]; rfl⟩
  | cons x xs ih =>
      have hx : p x = true := hall x List.mem_cons_self
      obtain ⟨htake, hdrop⟩ := ih fun c hc => hall c (List.mem_cons_of_mem x hc)
      rw [List.cons_append]
      exact ⟨by rw [List.takeWhile_cons, hx, if_pos rfl, htake],
        by rw [List.dropWhile_cons, hx, if_pos rfl, hdrop]⟩

/-- The digits of a number are digits. -/
theorem isDigit_of_mem_toDigits {n : Nat} {c : Char} (hc : c ∈ Nat.toDigits 10 n) :
    c.isDigit = true :=
  Nat.isDigit_of_mem_toDigits (by decide) (by decide) hc

/-- A digit is no white space and no sign. -/
theorem not_special_of_isDigit {c : Char} (h : c.isDigit = true) :
    isSpace c = false ∧ c ≠ '-' ∧ c ≠ '+' ∧ c ≠ '\n' := by
  have hlow : 48 ≤ c.toNat := by
    have h' := h
    simp only [Char.isDigit, Bool.and_eq_true, decide_eq_true_eq] at h'
    exact h'.1
  have hne : ∀ d : Char, d.toNat < 48 → c ≠ d := by
    intro d hd heq
    rw [heq] at hlow
    omega
  refine ⟨?_, hne '-' (by decide), hne '+' (by decide), hne '\n' (by decide)⟩
  rw [isSpace, Bool.or_eq_false_iff, Bool.and_eq_false_iff]
  refine ⟨decide_eq_false (hne ' ' (by decide)), Or.inr (decide_eq_false ?_)⟩
  intro hle
  have hreturn : c.toNat ≤ 13 := hle
  omega

/-- The digits of a number, after its sign. -/
private theorem scan_digits (n : Nat) {rest : List Char}
    (hrest : ∀ c ∈ rest.head?, c.isDigit = false) :
    (Nat.toDigits 10 n ++ rest).takeWhile Char.isDigit = Nat.toDigits 10 n ∧
      (Nat.toDigits 10 n ++ rest).dropWhile Char.isDigit = rest :=
  takeWhile_append_of_all (fun _ hc => isDigit_of_mem_toDigits hc) hrest

/-- In front of them there is no sign. -/
private theorem scanSign_digits (n : Nat) (rest : List Char) :
    scanSign (Nat.toDigits 10 n ++ rest) = (false, Nat.toDigits 10 n ++ rest) := by
  cases hdigits : Nat.toDigits 10 n with
  | nil => exact absurd hdigits Nat.toDigits_ne_nil
  | cons c cs =>
      have hc : c.isDigit = true := isDigit_of_mem_toDigits (n := n) (by simp [hdigits])
      obtain ⟨_, hminus, hplus, _⟩ := not_special_of_isDigit hc
      rw [List.cons_append, scanSign]
      · intro cs' heq
        exact hminus (List.cons.inj heq).1
      · intro cs' heq
        exact hplus (List.cons.inj heq).1

/-- A printed number starts with no white space. -/
private theorem printInt_head (v : Int) (rest : List Char) :
    ∀ c ∈ (printInt v ++ rest).head?, isSpace c = false := by
  intro c hc
  cases v with
  | ofNat n =>
      cases hdigits : Nat.toDigits 10 n with
      | nil => exact absurd hdigits Nat.toDigits_ne_nil
      | cons d ds =>
          have hd : d.isDigit = true := isDigit_of_mem_toDigits (n := n) (by simp [hdigits])
          rw [printInt, hdigits, List.cons_append, List.head?_cons, Option.mem_some_iff] at hc
          rw [← hc]
          exact (not_special_of_isDigit hd).1
  | negSucc n =>
      rw [printInt, List.cons_append, List.head?_cons, Option.mem_some_iff] at hc
      rw [← hc]
      decide

/-- A conversion gives back a printed number, past white space and up to what is no
digit. -/
theorem scanInt_printInt (v : Int) {spaces rest : List Char}
    (hspaces : ∀ c ∈ spaces, isSpace c = true) (hrest : ∀ c ∈ rest.head?, c.isDigit = false) :
    scanInt (spaces ++ (printInt v ++ rest)) = some (v, rest) := by
  have hskip := (takeWhile_append_of_all hspaces (printInt_head v rest)).2
  rw [scanInt, hskip]
  cases v with
  | ofNat n =>
      obtain ⟨htake, hdrop⟩ := scan_digits n hrest
      simp only [printInt, scanSign_digits, htake, hdrop, if_neg Nat.toDigits_ne_nil,
        Nat.ofDigitChars_ten_toDigits]
      rfl
  | negSucc n =>
      obtain ⟨htake, hdrop⟩ := scan_digits (n + 1) hrest
      simp only [printInt, List.cons_append, scanSign, htake, hdrop, if_neg Nat.toDigits_ne_nil,
        Nat.ofDigitChars_ten_toDigits]
      rfl

/-! ## Lines of numbers -/

/-- A number to be printed, with a bound on its length. -/
structure Printed where
  value : Int
  width : Nat
  fits : (printInt value).length ≤ width

/-- A number below a power of ten has no more digits than that. -/
theorem printInt_natCast_length {n k : Nat} (hk : 0 < k) (h : n < 10 ^ k) :
    (printInt n).length ≤ k :=
  (Nat.length_toDigits_le_iff (by decide) hk).mpr h

/-- An integer takes a sign more. -/
theorem printInt_length {v : Int} {k : Nat} (hk : 0 < k) (h : v.natAbs < 10 ^ k) :
    (printInt v).length ≤ k + 1 := by
  cases v with
  | ofNat n => exact Nat.le_succ_of_le (printInt_natCast_length hk h)
  | negSucc n =>
      rw [printInt, List.length_cons]
      exact Nat.succ_le_succ ((Nat.length_toDigits_le_iff (by decide) hk).mpr h)

/-- Each number with a blank behind it. -/
def printFields (ps : List Printed) : List Char := ps.flatMap fun p => printInt p.value ++ [' ']

/-- A line of numbers. -/
def printLine (ps : List Printed) : List Char := printFields ps ++ ['\n']

/-- A bound on a line's length. -/
def lineWidth (ps : List Printed) : Nat := (ps.map fun p => p.width + 1).sum + 1

/-- Fields are printed within the width of their line. -/
theorem printFields_length_le (ps : List Printed) :
    (printFields ps).length + 1 ≤ lineWidth ps := by
  induction ps with
  | nil => exact Nat.le_refl 1
  | cons p ps ih =>
      have hp := p.fits
      simp only [printFields, lineWidth, List.flatMap_cons, List.length_append, List.length_cons,
        List.length_nil, List.map_cons, List.sum_cons] at ih ⊢
      omega

/-- They hold no newline. -/
theorem newline_not_mem_printFields (ps : List Printed) : '\n' ∉ printFields ps := by
  intro h
  obtain ⟨p, _, hc⟩ := List.mem_flatMap.mp h
  rcases List.mem_append.mp hc with hc | hc
  · have hdigits : ∀ n, '\n' ∉ Nat.toDigits 10 n := by
      intro n hn
      exact (not_special_of_isDigit (isDigit_of_mem_toDigits hn)).2.2.2 rfl
    cases hv : p.value with
    | ofNat n =>
        rw [hv, printInt] at hc
        exact hdigits n hc
    | negSucc n =>
        rw [hv, printInt] at hc
        rcases List.mem_cons.mp hc with hminus | hn
        · exact absurd hminus (by decide)
        · exact hdigits _ hn
  · exact absurd (List.mem_singleton.mp hc) (by decide)

/-- A line is read up to its newline if there is room. -/
private theorem lineOf_append {n : Nat} {body rest : List Char} (hbody : '\n' ∉ body)
    (hlen : body.length + 1 ≤ n) : lineOf n (body ++ '\n' :: rest) = (body ++ ['\n'], rest) := by
  induction body generalizing n with
  | nil =>
      obtain ⟨k, rfl⟩ := Nat.exists_eq_succ_of_ne_zero (show n ≠ 0 by omega)
      rfl
  | cons c body ih =>
      rw [List.length_cons] at hlen
      rw [List.mem_cons, not_or] at hbody
      obtain ⟨k, rfl⟩ := Nat.exists_eq_succ_of_ne_zero (show n ≠ 0 by omega)
      rw [List.cons_append, lineOf, if_neg (Ne.symm hbody.1), ih hbody.2 (by omega)]
      rfl

/-- A line that fits the buffer is read whole, with its newline. -/
theorem fgets_line {line : List Char} {size : Nat} (hnewline : '\n' ∉ line)
    (hfit : line.length + 1 < size) (rest : List Char) :
    fgets size (line ++ '\n' :: rest) = some (line ++ ['\n'], rest) := by
  rw [fgets, if_neg (List.append_ne_nil_of_right_ne_nil _ (List.cons_ne_nil _ _)),
    lineOf_append hnewline (by omega)]

/-- So is a line of numbers that fits. -/
theorem fgets_printLine (ps : List Printed) (rest : List Char) {size : Nat}
    (hsize : lineWidth ps < size) :
    fgets size (printLine ps ++ rest) = some (printLine ps, rest) := by
  have hlen := printFields_length_le ps
  rw [printLine, List.append_assoc, List.singleton_append]
  exact fgets_line (newline_not_mem_printFields ps) (by omega) rest

/-- The numbers of a line are scanned back. -/
theorem scanInts_printLine (ps : List Printed) :
    scanInts ps.length (printLine ps) = ps.map Printed.value := by
  have hgeneral : ∀ (ps : List Printed) (spaces : List Char),
      (∀ c ∈ spaces, isSpace c = true) →
        scanInts ps.length (spaces ++ printLine ps) = ps.map Printed.value := by
    intro ps
    induction ps with
    | nil => exact fun _ _ => rfl
    | cons p ps ih =>
        intro spaces hspaces
        have hline : spaces ++ printLine (p :: ps) =
            spaces ++ (printInt p.value ++ ([' '] ++ printLine ps)) := by
          simp only [printLine, printFields, List.flatMap_cons, List.append_assoc]
        have hblank : ∀ c ∈ ([' '] ++ printLine ps).head?, c.isDigit = false := by
          intro c hc
          rw [List.cons_append, List.head?_cons, Option.mem_some_iff] at hc
          rw [← hc]
          decide
        rw [hline, List.length_cons, scanInts, scanInt_printInt p.value hspaces hblank]
        have hblanks : ∀ c ∈ [' '], isSpace c = true := by
          intro c hc
          rw [List.mem_singleton.mp hc]
          rfl
        simp only [List.map_cons]
        rw [ih [' '] hblanks]
  exact hgeneral ps [] (fun c hc => absurd hc List.not_mem_nil)

end DecimalText
