import Mathlib.Data.BitVec
import Mathlib.Data.List.Basic

/-!
# Tags, lengths and big-endian integers

The definite-length encodings of the Basic Encoding Rules, as far as two length
bytes go: a length in its short form, or behind `0x81` or `0x82`, and an integer
content as a bit-vector shifted in byte by byte.  A length may be written in any
form that has room for it; nothing asks for the shortest.
-/

namespace BerEncoding

/-- One byte of an encoding. -/
abbrev Octet := BitVec 8

/-! ## Lengths -/

/-- The form of a length: one byte below 128, or one or two bytes behind a byte
that counts them. -/
inductive LenForm where
  | short
  | long1
  | long2
deriving DecidableEq

/-- The form has room for the length. -/
def LenForm.Fits : LenForm → Nat → Prop
  | .short, n => n < 128
  | .long1, n => n < 256
  | .long2, n => n < 65536

instance : ∀ (form : LenForm) (n : Nat), Decidable (form.Fits n)
  | .short, n => inferInstanceAs (Decidable (n < 128))
  | .long1, n => inferInstanceAs (Decidable (n < 256))
  | .long2, n => inferInstanceAs (Decidable (n < 65536))

/-- Every form has room for a length below 128. -/
theorem LenForm.fits_of_lt (form : LenForm) {n : Nat} (h : n < 128) : form.Fits n := by
  cases form with
  | short => exact h
  | long1 => exact Nat.lt_trans h (by decide)
  | long2 => exact Nat.lt_trans h (by decide)

theorem LenForm.Fits.lt {form : LenForm} {n : Nat} (h : form.Fits n) : n < 65536 := by
  cases form with
  | short => exact Nat.lt_trans h (by decide)
  | long1 => exact Nat.lt_trans h (by decide)
  | long2 => exact h

/-- The bytes of a length in a form. -/
def lenBytes : LenForm → Nat → List Octet
  | .short, n => [BitVec.ofNat 8 n]
  | .long1, n => [0x81, BitVec.ofNat 8 n]
  | .long2, n => [0x82, BitVec.ofNat 8 (n / 256), BitVec.ofNat 8 n]

/-- How many bytes a form takes. -/
def LenForm.width : LenForm → Nat
  | .short => 1
  | .long1 => 2
  | .long2 => 3

@[simp] theorem lenBytes_length (form : LenForm) (n : Nat) :
    (lenBytes form n).length = form.width := by
  cases form <;> rfl

/-- A tag and a length. -/
def header (tag : Octet) (form : LenForm) (n : Nat) : List Octet := tag :: lenBytes form n

@[simp] theorem header_length (tag : Octet) (form : LenForm) (n : Nat) :
    (header tag form n).length = 1 + form.width := by
  simp [header]
  omega

/-- A tag, the length of the content, and the content. -/
def tlv (tag : Octet) (form : LenForm) (content : List Octet) : List Octet :=
  header tag form content.length ++ content

@[simp] theorem tlv_length (tag : Octet) (form : LenForm) (content : List Octet) :
    (tlv tag form content).length = 1 + form.width + content.length := by
  rw [tlv, List.length_append, header_length]

/-- A byte that holds a short length is that length. -/
theorem toNat_ofNat_of_short {n : Nat} (h : n < 128) : (BitVec.ofNat 8 n).toNat = n := by
  rw [BitVec.toNat_ofNat]
  exact Nat.mod_eq_of_lt (Nat.lt_trans h (by decide))

/-- A short length leaves the top bit of its byte clear. -/
theorem short_top_bit : ∀ b : Octet, b.toNat < 128 → b &&& 0x80 = 0 := by
  decide

theorem ofNat_toNat_byte (b : Octet) : BitVec.ofNat 8 b.toNat = b := by
  rw [BitVec.ofNat_toNat]
  exact BitVec.setWidth_eq _

/-- Two bytes are the high and the low one of a number. -/
theorem bytes_of_pair (high low : Octet) :
    BitVec.ofNat 8 ((high.toNat * 256 + low.toNat) / 256) = high ∧
      BitVec.ofNat 8 (high.toNat * 256 + low.toNat) = low := by
  have hlow := low.isLt
  refine ⟨?_, ?_⟩
  · have hdiv : (high.toNat * 256 + low.toNat) / 256 = high.toNat := by omega
    rw [hdiv, ofNat_toNat_byte]
  · apply BitVec.eq_of_toNat_eq
    rw [BitVec.toNat_ofNat]
    omega

/-! ## Integers -/

variable {w : Nat}

theorem toNat_widen (b : Octet) : (b.setWidth 32).toNat = b.toNat := by
  rw [BitVec.toNat_setWidth]
  exact Nat.mod_eq_of_lt (Nat.lt_trans b.isLt (by decide))

/-- Shift a byte in at the bottom of a value. -/
def shiftIn (v : BitVec w) (b : Octet) : BitVec w := v <<< 8 ||| b.setWidth w

/-- The value of a content, its first byte the highest; what does not fit is
shifted out at the top. -/
def bigEndian (w : Nat) (content : List Octet) : BitVec w := content.foldl shiftIn 0

theorem bigEndian_concat (content : List Octet) (b : Octet) :
    bigEndian w (content ++ [b]) = shiftIn (bigEndian w content) b := by
  simp [bigEndian]

/-- The byte shifted in last is the low byte. -/
theorem shiftIn_low (hw : 8 ≤ w) (v : BitVec w) (b : Octet) :
    (shiftIn v b).setWidth 8 = b := by
  apply BitVec.eq_of_getElem_eq
  intro k hk
  have hkw : k < w := by omega
  simp [shiftIn, hk, hkw]

/-- **The low byte of a value is the last byte of its content.** -/
theorem bigEndian_concat_low (hw : 8 ≤ w) (content : List Octet) (b : Octet) :
    (bigEndian w (content ++ [b])).setWidth 8 = b := by
  rw [bigEndian_concat, shiftIn_low hw]

/-- Two bytes shifted in spell the number they are the digits of. -/
theorem shiftIn_pair {n : Nat} (h : n < 65536) (hw : 16 ≤ w) :
    shiftIn ((BitVec.ofNat 8 (n / 256)).setWidth w) (BitVec.ofNat 8 n) = BitVec.ofNat w n := by
  have hpow : 2 ^ 16 ≤ 2 ^ w := Nat.pow_le_pow_right (by decide) hw
  have hhigh : n / 256 % 2 ^ 8 % 2 ^ w = n / 256 := by
    rw [Nat.mod_eq_of_lt (a := n / 256) (by omega), Nat.mod_eq_of_lt (by omega)]
  have hlow : n % 2 ^ 8 % 2 ^ w = n % 2 ^ 8 := Nat.mod_eq_of_lt (by omega)
  have hwhole : n % 2 ^ w = n := Nat.mod_eq_of_lt (by omega)
  have hshift : (n / 256) <<< 8 % 2 ^ w = (n / 256) <<< 8 := by
    apply Nat.mod_eq_of_lt
    rw [Nat.shiftLeft_eq]
    omega
  apply BitVec.eq_of_toNat_eq
  rw [shiftIn, BitVec.toNat_or, BitVec.toNat_shiftLeft, BitVec.toNat_setWidth,
    BitVec.toNat_setWidth, BitVec.toNat_ofNat, BitVec.toNat_ofNat, BitVec.toNat_ofNat, hhigh,
    hlow, hwhole, hshift, ← Nat.shiftLeft_add_eq_or_of_lt (Nat.mod_lt _ (by decide)),
    Nat.shiftLeft_eq]
  omega

end BerEncoding
