import Mathlib.Data.List.TakeWhile
import RfsAtsc.Fcs
import RfsAtsc.TracedMemory

/-!
# Splitting a configuration string: the options `-c` and `-T` of `urms.c`

The loop moves a pointer over a copy of the option.  A comma at the pointer stands for an
empty field; anything else is taken up to the next comma by `strtok`, which writes a
terminator over that comma, and the pointer goes past it.  A last field that is empty has
no comma at the pointer: `strtok` finds no token there and returns a null pointer, which
`strcpy` reads from.
-/

namespace RfsAtsc.ConfigSplit

open TracedMemory

def comma : Byte := 0x2c

/-- The bytes of a row of `str_seg`. -/
def SEG_SIZE : Nat := 20

/-- The string at a position of a buffer. -/
def stringAt (buf : List Byte) (p : Nat) : List Byte := (buf.drop p).takeWhile (· ≠ 0)

/-- `strstr(p, ",")`: where the first comma of the string is. -/
def strstrComma (buf : List Byte) (p : Nat) : Option Nat :=
  ((stringAt buf p).findIdx? (· = comma)).map (p + ·)

/-- `strtok(p, ",")`: where the token starts, and the buffer with a terminator behind it. -/
def strtokComma (buf : List Byte) (p : Nat) : Option (Nat × List Byte) :=
  let tok := p + ((stringAt buf p).takeWhile (· = comma)).length
  if stringAt buf tok = [] then none
  else
    let stop := tok + ((stringAt buf tok).takeWhile (· ≠ comma)).length
    some (tok, if buf.getD stop 0 = comma then buf.set stop 0 else buf)

/-- The copy of the option, the pointer into it, and `str_seg`, a row behind another. -/
structure SplitState where
  buf : List Byte
  p : Nat
  strSeg : Mem Byte

/-- Row `i` of `str_seg`. -/
def rowAt (i : Nat) : Int := (SEG_SIZE * i : Nat)

/-- One turn of the loop; `none` is a `strcpy` from a null pointer. -/
def splitTurn (i : Nat) (s : SplitState) : Option SplitState :=
  if strstrComma s.buf s.p = some s.p then
    some { s with strSeg := s.strSeg.store (rowAt i) 0xff, p := s.p + 1 }
  else
    (strtokComma s.buf s.p).map fun t =>
      let token := stringAt t.2 t.1
      { buf := t.2
        p := s.p + token.length + 1
        strSeg := s.strSeg.write (rowAt i) (token ++ [0]) }

/-- `for(i=...; i<...; i++)`, for the turns that are left. -/
def splitLoop : Nat → Nat → SplitState → Option SplitState
  | 0, _, s => some s
  | turns + 1, i, s => (splitTurn i s).bind (splitLoop turns (i + 1))

/-- Fields joined with commas. -/
def joined : List (List Byte) → List Byte
  | [] => []
  | [field] => field
  | field :: next :: rest => field ++ comma :: joined (next :: rest)

/-- The loop over `n` fields of an option, with anything in `str_seg`. -/
def splitOption (n : Nat) (option : List Byte) (strSeg : Mem Byte) : Option SplitState :=
  splitLoop n 0 { buf := option ++ [0], p := 0, strSeg := strSeg }

/-- A field fits a row and has neither a comma nor a terminator. -/
def PlainField (field : List Byte) : Prop :=
  field.length < SEG_SIZE ∧ ∀ b ∈ field, b ≠ comma ∧ b ≠ 0

instance (field : List Byte) : Decidable (PlainField field) := inferInstanceAs (Decidable (_ ∧ _))

/-- The row of a field: the field as a string, or the marker of an empty one. -/
def RowHolds (strSeg : Mem Byte) (i : Nat) (field : List Byte) : Prop :=
  if field = [] then strSeg.cell (rowAt i) = 0xff else strSeg.Holds (rowAt i) (field ++ [0])

/-! ## One turn -/

section Turn

variable {s : SplitState} {field tail : List Byte}

/-- What a field is read as: it ends at a terminator, or at a comma before one. -/
private theorem stringAt_of_drop {buf : List Byte} {p : Nat} (hfield : ∀ b ∈ field, b ≠ 0)
    (h : buf.drop p = field ++ 0 :: tail) : stringAt buf p = field := by
  rw [stringAt, h, List.takeWhile_append_of_pos (by simpa using hfield)]
  simp

/-- A comma at the pointer: the marker is stored and the pointer moves over the comma. -/
theorem splitTurn_comma (i : Nat) (h : s.buf.drop s.p = comma :: tail) :
    splitTurn i s = some { s with strSeg := s.strSeg.store (rowAt i) 0xff, p := s.p + 1 } := by
  have hstring : stringAt s.buf s.p = comma :: tail.takeWhile (· ≠ 0) := by
    rw [stringAt, h]
    rfl
  have hhere : strstrComma s.buf s.p = some s.p := by
    rw [strstrComma, hstring]
    rfl
  rw [splitTurn, if_pos hhere]

/-- No string at the pointer: there is no token. -/
theorem splitTurn_end (i : Nat) (h : s.buf.drop s.p = [0]) : splitTurn i s = none := by
  have hstring : stringAt s.buf s.p = [] := by
    rw [stringAt, h]
    rfl
  have hnowhere : strstrComma s.buf s.p ≠ some s.p := by
    rw [strstrComma, hstring]
    simp
  have hnone : strtokComma s.buf s.p = none := by
    rw [strtokComma, hstring]
    exact if_pos hstring
  rw [splitTurn, if_neg hnowhere, hnone]
  rfl

/-- A field that is not empty has no comma in front. -/
private theorem strstrComma_ne {buf : List Byte} {p : Nat} {b : Byte} {bs : List Byte}
    (hb : b ≠ comma) (h : stringAt buf p = b :: bs) : strstrComma buf p ≠ some p := by
  rw [strstrComma, h, List.findIdx?_cons, if_neg (by simpa using hb)]
  cases bs.findIdx? (· = comma) with
  | none => simp
  | some k => simp

/-- The token is the field, with a terminator behind it now. -/
private theorem strtokComma_of_field {buf : List Byte} {p : Nat} {c : Byte}
    (hne : field ≠ []) (hplain : ∀ b ∈ field, b ≠ comma ∧ b ≠ 0) (hc : c = comma ∨ c = 0)
    (h : buf.drop p = field ++ c :: tail) :
    ∃ buf', strtokComma buf p = some (p, buf') ∧ buf'.drop p = field ++ 0 :: tail ∧
      ∃ b bs, b ≠ comma ∧ stringAt buf p = b :: bs := by
  obtain ⟨b, field', rfl⟩ := List.exists_cons_of_ne_nil hne
  have hb : b ≠ comma ∧ b ≠ 0 := hplain b List.mem_cons_self
  have hstring : stringAt buf p = (b :: field') ++ (c :: tail).takeWhile (· ≠ 0) := by
    rw [stringAt, h, List.takeWhile_append_of_pos (by simpa using fun x hx => (hplain x hx).2)]
  have hlead : (stringAt buf p).takeWhile (· = comma) = [] := by
    rw [hstring]
    simp [hb.1]
  have htoken : (stringAt buf p).takeWhile (· ≠ comma) = b :: field' := by
    rw [hstring, List.takeWhile_append_of_pos (by simpa using fun x hx => (hplain x hx).1)]
    rcases hc with rfl | rfl
    · simp [comma]
    · simp
  have hstop : buf.getD (p + (b :: field').length) 0 = c := by
    have hget := congrArg (fun l => l.getD (b :: field').length 0) h
    simpa [List.getD_eq_getElem?_getD, List.getElem?_drop] using hget
  refine ⟨if c = comma then buf.set (p + (b :: field').length) 0 else buf, ?_, ?_, b, _, hb.1,
    hstring.trans (List.cons_append ..)⟩
  · simp only [strtokComma, hlead, List.length_nil, Nat.add_zero, htoken, hstop]
    rw [if_neg]
    rw [hstring]
    simp
  · rcases hc with rfl | rfl
    · rw [if_pos rfl, ← List.set_drop, h]
      simp
    · rw [if_neg (by decide), h]

/-- A field that is not empty: it is stored with its terminator, and the pointer moves over
what stood behind it. -/
theorem splitTurn_field (i : Nat) {c : Byte} (hne : field ≠ [])
    (hplain : ∀ b ∈ field, b ≠ comma ∧ b ≠ 0) (hc : c = comma ∨ c = 0)
    (h : s.buf.drop s.p = field ++ c :: tail) :
    ∃ s', splitTurn i s = some s' ∧ s'.buf.drop s'.p = tail ∧
      s'.strSeg = s.strSeg.write (rowAt i) (field ++ [0]) := by
  obtain ⟨buf', htok, hdrop, b, bs, hb, hstring⟩ := strtokComma_of_field hne hplain hc h
  have htoken : stringAt buf' s.p = field :=
    stringAt_of_drop (fun x hx => (hplain x hx).2) hdrop
  refine ⟨{ buf := buf', p := s.p + field.length + 1,
            strSeg := s.strSeg.write (rowAt i) (field ++ [0]) }, ?_, ?_, rfl⟩
  · rw [splitTurn, if_neg (strstrComma_ne hb hstring), htok, Option.map_some, htoken]
  · rw [Nat.add_assoc, ← List.drop_drop, hdrop, List.drop_append]
    simp

end Turn

/-! ## The loop -/

/-- What a turn stores for its field. -/
def storeRow (strSeg : Mem Byte) (i : Nat) (field : List Byte) : Mem Byte :=
  if field = [] then strSeg.store (rowAt i) 0xff else strSeg.write (rowAt i) (field ++ [0])

theorem storeRow_holds (strSeg : Mem Byte) (i : Nat) (field : List Byte) :
    RowHolds (storeRow strSeg i field) i field := by
  rw [RowHolds, storeRow]
  by_cases hempty : field = []
  · simp [hempty]
  · rw [if_neg hempty, if_neg hempty]
    exact strSeg.write_holds _ _

/-- A row is stored within its twenty bytes. -/
theorem storeRow_cell_below (strSeg : Mem Byte) (i : Nat) (field : List Byte) {a : Int}
    (ha : a < rowAt i) : (storeRow strSeg i field).cell a = strSeg.cell a := by
  rw [storeRow]
  split
  · exact strSeg.store_cell_ne _ (by omega)
  · exact strSeg.write_cell_outside _ _ (Or.inl ha)

theorem rowAt_succ (i : Nat) : rowAt (i + 1) = rowAt i + SEG_SIZE := by
  simp only [rowAt, SEG_SIZE]
  omega

/-- What is stored in the rows behind leaves a row alone. -/
theorem RowHolds.congr {m m' : Mem Byte} {i : Nat} {field : List Byte} (h : RowHolds m i field)
    (hshort : field.length < SEG_SIZE) (hsame : ∀ a < rowAt (i + 1), m'.cell a = m.cell a) :
    RowHolds m' i field := by
  rw [rowAt_succ] at hsame
  rw [RowHolds] at h ⊢
  split
  · rename_i hempty
    rw [if_pos hempty] at h
    rw [hsame _ (by simp only [SEG_SIZE]; omega)]
    exact h
  · rename_i hfield
    rw [if_neg hfield] at h
    apply h.congr
    intro a _ hhigh
    apply hsame
    rw [List.length_append, List.length_singleton] at hhigh
    omega

/-- A turn with a field and its comma in front of the pointer. -/
private theorem splitTurn_next (i : Nat) {s : SplitState} {field tail : List Byte}
    (hplain : PlainField field) (h : s.buf.drop s.p = field ++ comma :: tail) :
    ∃ s', splitTurn i s = some s' ∧ s'.buf.drop s'.p = tail ∧
      s'.strSeg = storeRow s.strSeg i field := by
  by_cases hempty : field = []
  · subst hempty
    refine ⟨_, splitTurn_comma i h, ?_, (if_pos rfl).symm⟩
    rw [← List.drop_drop, h]
    rfl
  · obtain ⟨s', hturn, hdrop, hseg⟩ := splitTurn_field i hempty hplain.2 (Or.inl rfl) h
    exact ⟨s', hturn, hdrop, hseg.trans (if_neg hempty).symm⟩

/-- What the loop leaves of the fields in front of the pointer: a null pointer when the last
one is empty, and otherwise all of them in the rows from `i` on. -/
def StoresFrom (i : Nat) (s : SplitState) (fields : List (List Byte)) : Prop :=
  (fields.getLast? = some [] → splitLoop fields.length i s = none) ∧
    (fields.getLast? ≠ some [] → ∃ s', splitLoop fields.length i s = some s' ∧
      (∀ k field, fields[k]? = some field → RowHolds s'.strSeg (i + k) field) ∧
      ∀ a < rowAt i, s'.strSeg.cell a = s.strSeg.cell a)

/-- The last field: it is stored when it is not empty. -/
private theorem storesFrom_last {field : List Byte} (hplain : PlainField field) (i : Nat)
    {s : SplitState} (h : s.buf.drop s.p = field ++ [0]) : StoresFrom i s [field] := by
  refine ⟨?_, ?_⟩
  · intro hlast
    obtain rfl : field = [] := by simpa using hlast
    rw [List.length_singleton, splitLoop, splitTurn_end i h]
    rfl
  · intro hlast
    have hne : field ≠ [] := by simpa using hlast
    obtain ⟨s', hturn, -, hseg⟩ := splitTurn_field i hne hplain.2 (Or.inr rfl) h
    have hstored : s'.strSeg = storeRow s.strSeg i field := hseg.trans (if_neg hne).symm
    refine ⟨s', ?_, ?_, ?_⟩
    · rw [List.length_singleton, splitLoop, hturn]
      rfl
    · intro k g hk
      obtain ⟨rfl, rfl⟩ : k = 0 ∧ field = g := by
        simpa [List.getElem?_singleton] using hk
      rw [hstored]
      exact storeRow_holds _ _ _
    · intro a ha
      rw [hstored]
      exact storeRow_cell_below _ _ _ ha

/-- The loop over the fields in front of the pointer. -/
theorem storesFrom_joined (fields : List (List Byte)) (hne : fields ≠ [])
    (hplain : ∀ field ∈ fields, PlainField field) (i : Nat) (s : SplitState)
    (h : s.buf.drop s.p = joined fields ++ [0]) : StoresFrom i s fields := by
  induction fields generalizing i s with
  | nil => exact absurd rfl hne
  | cons field rest ih =>
      have hfield := hplain field List.mem_cons_self
      cases rest with
      | nil => exact storesFrom_last hfield i h
      | cons next rest =>
          have hfront : s.buf.drop s.p = field ++ comma :: (joined (next :: rest) ++ [0]) := by
            rw [h, joined, List.append_assoc, List.cons_append]
          obtain ⟨s', hturn, hdrop, hseg⟩ := splitTurn_next i hfield hfront
          obtain ⟨hnull, hrows⟩ := ih (List.cons_ne_nil _ _)
            (fun f hf => hplain f (List.mem_cons_of_mem _ hf)) (i + 1) s' hdrop
          have hloop : splitLoop (field :: next :: rest).length i s =
              splitLoop (next :: rest).length (i + 1) s' := by
            rw [List.length_cons, splitLoop, hturn]
            rfl
          rw [StoresFrom, List.getLast?_cons_cons, hloop]
          refine ⟨hnull, ?_⟩
          intro hlast
          obtain ⟨s'', hrun, hlater, hbelow⟩ := hrows hlast
          refine ⟨s'', hrun, ?_, ?_⟩
          · intro k g hk
            cases k with
            | zero =>
                obtain rfl : field = g := by simpa using hk
                have hhere := storeRow_holds s.strSeg i field
                rw [← hseg] at hhere
                exact hhere.congr hfield.1 hbelow
            | succ k =>
                rw [Nat.add_comm k 1, ← Nat.add_assoc]
                exact hlater k g (by simpa using hk)
          · intro a ha
            rw [hbelow a (by rw [rowAt_succ]; simp only [SEG_SIZE]; omega), hseg,
              storeRow_cell_below _ _ _ ha]

/-- **The splitting, exactly.**  The loop stores every field of the option in its row, with the
marker for an empty one, exactly when the last field is not empty; otherwise it copies from a
null pointer. -/
theorem splitOption_stores_iff (fields : List (List Byte)) (strSeg : Mem Byte)
    (hcount : fields.length = 17 ∨ fields.length = 7)
    (hplain : ∀ field ∈ fields, PlainField field) :
    (∃ s, splitOption fields.length (joined fields) strSeg = some s ∧
      ∀ k field, fields[k]? = some field → RowHolds s.strSeg k field) ↔
      fields.getLast? ≠ some [] := by
  have hne : fields ≠ [] := by
    rintro rfl
    simp at hcount
  obtain ⟨hnull, hrows⟩ := storesFrom_joined fields hne hplain 0
    { buf := joined fields ++ [0], p := 0, strSeg := strSeg } rfl
  constructor
  · rintro ⟨s, hrun, -⟩ hlast
    rw [splitOption, hnull hlast] at hrun
    contradiction
  · intro hlast
    obtain ⟨s, hrun, hall, -⟩ := hrows hlast
    refine ⟨s, hrun, ?_⟩
    intro k field hk
    simpa using hall k field hk

/-- Seven fields of which the last is empty. -/
private def lastEmpty : List (List Byte) := [[0x61], [0x62], [0x63], [0x31], [0x32], [0x33], []]

/-- Seven fields, the first, the third and the fourth of them empty. -/
private def innerEmpty : List (List Byte) := [[], [0x62], [], [], [0x32], [0x33], [0x34]]

/-- With the last field empty `strcpy` gets a null pointer. -/
theorem last_empty_is_null :
    ¬ ∀ (fields : List (List Byte)) (strSeg : Mem Byte),
      (fields.length = 17 ∨ fields.length = 7) → (∀ field ∈ fields, PlainField field) →
      ∃ s, splitOption fields.length (joined fields) strSeg = some s ∧
        ∀ k field, fields[k]? = some field → RowHolds s.strSeg k field := by
  intro h
  have hplain : ∀ field ∈ lastEmpty, PlainField field := by decide
  obtain ⟨s, hrun, -⟩ := h lastEmpty (.ofList 0 []) (Or.inr rfl) hplain
  have hnull := (storesFrom_joined lastEmpty (by decide) hplain 0
    { buf := joined lastEmpty ++ [0], p := 0, strSeg := .ofList 0 [] } rfl).1 rfl
  rw [splitOption, hnull] at hrun
  exact absurd hrun.symm (Option.some_ne_none s)

/-- Empty fields elsewhere are marked. -/
theorem splitOption_stores_inner :
    ∃ s, splitOption innerEmpty.length (joined innerEmpty) (.ofList 0 []) = some s ∧
      ∀ k field, innerEmpty[k]? = some field → RowHolds s.strSeg k field :=
  (splitOption_stores_iff innerEmpty (.ofList 0 []) (Or.inr rfl) (by decide)).mpr (by decide)

end RfsAtsc.ConfigSplit
