import RfsAtsc.BerEncoding

/-!
# Reading definite lengths back

A reader of tags, lengths and contents that takes an element for what its length says and
nothing else: it fails where fewer bytes are left than are announced, and a reader of
elements in a row fails unless they fill the input.  What is written as `tlv` is read back
as it was, whatever comes behind it.
-/

namespace BerEncoding

/-! ## Elements -/

/-- The number that bytes spell, the first the highest. -/
def natValue (bs : List Octet) : Nat := bs.foldl (fun v b => v * 256 + b.toNat) 0

/-- A length in a definite form, and what comes behind it.  `0x80` and `0xff` begin none. -/
def readLength : List Octet → Option (Nat × List Octet)
  | [] => none
  | first :: rest =>
      if first.toNat < 128 then some (first.toNat, rest)
      else
        let count := first.toNat - 128
        if 0 < count ∧ count < 127 ∧ count ≤ rest.length then
          some (natValue (rest.take count), rest.drop count)
        else none

/-- An element at the front of an input. -/
structure Element where
  tag : Octet
  content : List Octet
  rest : List Octet

def readElement : List Octet → Option Element
  | [] => none
  | tag :: input =>
      (readLength input).bind fun p =>
        if p.1 ≤ p.2.length then
          some { tag := tag, content := p.2.take p.1, rest := p.2.drop p.1 }
        else none

/-- The content of an element with a certain tag, and what comes behind it. -/
def readTagged (tag : Octet) (input : List Octet) : Option (List Octet × List Octet) :=
  (readElement input).bind fun e => if e.tag = tag then some (e.content, e.rest) else none

theorem natValue_pair {n : Nat} (h : n < 65536) :
    natValue [BitVec.ofNat 8 (n / 256), BitVec.ofNat 8 n] = n := by
  simp only [natValue, List.foldl_cons, List.foldl_nil, BitVec.toNat_ofNat]
  omega

theorem readLength_lenBytes {form : LenForm} {n : Nat} (h : form.Fits n) (rest : List Octet) :
    readLength (lenBytes form n ++ rest) = some (n, rest) := by
  cases form with
  | short =>
      have hshort : n < 128 := h
      rw [lenBytes, List.singleton_append, readLength, toNat_ofNat_of_short hshort, if_pos hshort]
  | long1 =>
      have hbyte : (BitVec.ofNat 8 n).toNat = n := Nat.mod_eq_of_lt h
      simp [lenBytes, readLength, natValue, hbyte]
  | long2 => simp [lenBytes, readLength, natValue_pair h]

/-- **An element written is read back, whatever comes behind it.** -/
theorem readElement_tlv (tag : Octet) {form : LenForm} {content : List Octet}
    (h : form.Fits content.length) (rest : List Octet) :
    readElement (tlv tag form content ++ rest) =
      some { tag := tag, content := content, rest := rest } := by
  have hroom : content.length ≤ (content ++ rest).length := by
    rw [List.length_append]
    exact Nat.le_add_right _ _
  rw [tlv, header, List.cons_append, List.cons_append, List.append_assoc, readElement,
    readLength_lenBytes h, Option.bind_some, if_pos hroom, List.take_left, List.drop_left]

theorem readTagged_tlv (tag : Octet) {form : LenForm} {content : List Octet}
    (h : form.Fits content.length) (rest : List Octet) :
    readTagged tag (tlv tag form content ++ rest) = some (content, rest) := by
  rw [readTagged, readElement_tlv tag h, Option.bind_some, if_pos rfl]

/-- So is one that nothing comes behind. -/
theorem readTagged_tlv_nil (tag : Octet) {form : LenForm} {content : List Octet}
    (h : form.Fits content.length) :
    readTagged tag (tlv tag form content) = some (content, []) := by
  have hread := readTagged_tlv tag h []
  rwa [List.append_nil] at hread

/-! ## Integers -/

/-- A number in two's complement, in as few bytes as it takes. -/
def intValue : List Octet → Option Int
  | [] => none
  | [b] => some b.toInt
  | a :: b :: bs =>
      if a = 0 ∧ b.toNat < 128 ∨ a = 0xff ∧ 128 ≤ b.toNat then none
      else some ((b :: bs).foldl (fun v c => v * 256 + c.toNat) a.toInt)

/-- An INTEGER. -/
def readInteger (input : List Octet) : Option (Int × List Octet) :=
  (readTagged 0x02 input).bind fun p => (intValue p.1).map fun v => (v, p.2)

/-- An INTEGER of one byte is read back. -/
theorem readInteger_byte (b : Octet) (rest : List Octet) :
    readInteger (tlv 0x02 .short [b] ++ rest) = some (b.toInt, rest) := by
  have hshort : LenForm.short.Fits [b].length := show 1 < 128 by decide
  rw [readInteger, readTagged_tlv 0x02 hshort]
  rfl

/-- A byte below 128 is no negative number. -/
theorem toInt_of_short {b : Octet} (h : b.toNat < 128) : b.toInt = b.toNat := by
  rw [BitVec.toInt_eq_toNat_of_lt]
  omega

/-! ## Elements in a row -/

variable {α β : Type}

/-- Read one after the other as long as something is left. -/
def readAll (read : List Octet → Option (α × List Octet)) :
    Nat → List Octet → Option (List α)
  | _, [] => some []
  | 0, _ :: _ => none
  | fuel+1, b :: input =>
      (read (b :: input)).bind fun p => (readAll read fuel p.2).map fun xs => p.1 :: xs

variable {read : List Octet → Option (α × List Octet)}

theorem readAll_of_some {fuel : Nat} {input rest : List Octet} {x : α} (hne : input ≠ [])
    (h : read input = some (x, rest)) :
    readAll read (fuel + 1) input = (readAll read fuel rest).map fun xs => x :: xs := by
  cases input with
  | nil => exact absurd rfl hne
  | cons b input => rw [readAll, h, Option.bind_some]

/-- Where nothing can be read at the front, nothing is read at all. -/
theorem readAll_of_none {fuel : Nat} {input : List Octet} (hne : input ≠ [])
    (h : read input = none) : readAll read fuel input = none := by
  cases input with
  | nil => exact absurd rfl hne
  | cons b input =>
      cases fuel with
      | zero => rfl
      | succ fuel => rw [readAll, h, Option.bind_none]

/-- **What is written one behind the other is read back one behind the other.** -/
theorem readAll_flatMap {encode : β → List Octet} {value : β → α} (xs : List β)
    (h : ∀ x ∈ xs, ∀ rest, read (encode x ++ rest) = some (value x, rest))
    (hne : ∀ x ∈ xs, encode x ≠ []) {fuel : Nat} (hfuel : xs.length ≤ fuel) :
    readAll read fuel (xs.flatMap encode) = some (xs.map value) := by
  induction xs generalizing fuel with
  | nil =>
      cases fuel with
      | zero => rfl
      | succ fuel => rfl
  | cons x xs ih =>
      obtain ⟨fuel, rfl⟩ : ∃ n, fuel = n + 1 := by
        cases fuel with
        | zero => exact absurd hfuel (Nat.not_succ_le_zero _)
        | succ n => exact ⟨n, rfl⟩
      have hrest := ih (fun y hy => h y (List.mem_cons_of_mem _ hy))
        (fun y hy => hne y (List.mem_cons_of_mem _ hy)) (Nat.le_of_succ_le_succ hfuel)
      have hfront : encode x ++ xs.flatMap encode ≠ [] :=
        List.append_ne_nil_of_left_ne_nil (hne x List.mem_cons_self) _
      rw [List.flatMap_cons, readAll_of_some hfront (h x List.mem_cons_self _), hrest,
        Option.map_some, List.map_cons]

/-- Elements that are not empty are no more than their bytes. -/
theorem length_le_flatMap {encode : β → List Octet} (xs : List β)
    (hne : ∀ x ∈ xs, encode x ≠ []) : xs.length ≤ (xs.flatMap encode).length := by
  induction xs with
  | nil => exact le_rfl
  | cons x xs ih =>
      have hfirst := List.length_pos_of_ne_nil (hne x List.mem_cons_self)
      have hrest := ih fun y hy => hne y (List.mem_cons_of_mem _ hy)
      rw [List.flatMap_cons, List.length_append, List.length_cons]
      omega

end BerEncoding
