import Mathlib.Data.List.Basic
import Mathlib.Logic.Function.Basic

/-!
# Table-driven reflected CRC-16

The byte-at-a-time form of a reflected sixteen-bit cyclic redundancy check over
an arbitrary table of 256 words.  Appending the complemented remainder, low byte
first, leaves a remainder that does not depend on the message
(`run_complement`).  A table of eight serial shifts computes the bit-serial check
(`IsSerial.run_eq_serial`), and when the high bytes of the table are pairwise
distinct a step loses nothing of the remainder or of the byte (`step_injective`,
`step_byte_injective`), so that a burst of two bytes is seen (`run_burst_injective`).
-/

namespace TableCrc

/-- The low byte of a remainder. -/
def lowByte (w : BitVec 16) : BitVec 8 := w.setWidth 8

/-- The high byte of a remainder. -/
def highByte (w : BitVec 16) : BitVec 8 := (w >>> 8).setWidth 8

@[simp] theorem lowByte_xor (a b : BitVec 16) :
    lowByte (a ^^^ b) = lowByte a ^^^ lowByte b := by
  simp [lowByte]

@[simp] theorem highByte_xor (a b : BitVec 16) :
    highByte (a ^^^ b) = highByte a ^^^ highByte b := by
  simp [highByte, BitVec.ushiftRight_xor_distrib]

@[simp] theorem lowByte_extend (b : BitVec 8) : lowByte (b.setWidth 16) = b := by
  simp [lowByte]

@[simp] theorem lowByte_shift (w : BitVec 16) : lowByte (w >>> 8) = highByte w := rfl

@[simp] theorem highByte_shift (w : BitVec 16) : highByte (w >>> 8) = 0#8 := by
  apply BitVec.eq_of_toNat_eq
  simp [highByte, Nat.shiftRight_eq_div_pow]
  omega

/-- A remainder is its two bytes. -/
theorem eq_of_bytes {a b : BitVec 16} (hlow : lowByte a = lowByte b)
    (hhigh : highByte a = highByte b) : a = b := by
  have hl := congrArg BitVec.toNat hlow
  have hh := congrArg BitVec.toNat hhigh
  simp [lowByte, highByte, Nat.shiftRight_eq_div_pow] at hl hh
  apply BitVec.eq_of_toNat_eq
  omega

/-- A word is its two bytes. -/
theorem highByte_append_lowByte (w : BitVec 16) : highByte w ++ lowByte w = w := by
  apply BitVec.eq_of_getLsbD_eq
  intro k hk
  rw [BitVec.getLsbD_append]
  split
  · simp [lowByte, *]
  · rename_i hhigh
    rw [highByte, BitVec.getLsbD_setWidth, BitVec.getLsbD_ushiftRight,
      Nat.add_sub_cancel' (by omega), decide_eq_true (by omega), Bool.true_and]

variable (tab : BitVec 8 → BitVec 16)

/-- One byte: the table's word for the low byte of `fcs ^ b`, and `fcs` moved
down eight places. -/
def step (fcs : BitVec 16) (b : BitVec 8) : BitVec 16 :=
  (fcs >>> 8) ^^^ tab (lowByte (fcs ^^^ b.setWidth 16))

/-- A message, byte by byte. -/
def run (fcs : BitVec 16) (bs : List (BitVec 8)) : BitVec 16 :=
  bs.foldl (step tab) fcs

@[simp] theorem run_nil (fcs : BitVec 16) : run tab fcs [] = fcs := rfl

@[simp] theorem run_cons (fcs : BitVec 16) (b : BitVec 8) (bs : List (BitVec 8)) :
    run tab fcs (b :: bs) = run tab (step tab fcs b) bs := rfl

/-- The check of two parts goes on from that of the first. -/
theorem run_append (fcs : BitVec 16) (xs ys : List (BitVec 8)) :
    run tab fcs (xs ++ ys) = run tab (run tab fcs xs) ys :=
  List.foldl_append

/-- The table index a step uses is the low byte of the remainder against the
byte. -/
theorem lowByte_step (fcs : BitVec 16) (b : BitVec 8) :
    lowByte (step tab fcs b) = highByte fcs ^^^ lowByte (tab (lowByte fcs ^^^ b)) := by
  simp [step]

/-- The high byte of a step is the table's. -/
theorem highByte_step (fcs : BitVec 16) (b : BitVec 8) :
    highByte (step tab fcs b) = highByte (tab (lowByte fcs ^^^ b)) := by
  simp [step]

/-- The complemented remainder as it is sent, low byte first. -/
def complement (fcs : BitVec 16) : List (BitVec 8) := [~~~ lowByte fcs, ~~~ highByte fcs]

@[simp] theorem complement_length (fcs : BitVec 16) : (complement fcs).length = 2 := rfl

/-- What remains once a message is followed by its complemented remainder. -/
def residue : BitVec 16 :=
  (tab (BitVec.allOnes 8) >>> 8) ^^^ tab (~~~ lowByte (tab (BitVec.allOnes 8)))

/-- **Residue.**  The complemented remainder cancels the remainder: what is left
depends on the table alone. -/
theorem run_complement (fcs : BitVec 16) : run tab fcs (complement fcs) = residue tab := by
  have hsecond : ∀ x y : BitVec 8, x ^^^ y ^^^ ~~~ x = ~~~ y := by
    intro x y
    rw [← BitVec.not_xor_right, BitVec.xor_comm x y, BitVec.xor_assoc, BitVec.xor_self,
      BitVec.xor_zero]
  have hfirst : lowByte fcs ^^^ ~~~ lowByte fcs = BitVec.allOnes 8 := by
    rw [← BitVec.not_xor_right, BitVec.xor_self, BitVec.not_zero]
  apply eq_of_bytes
  · simp only [complement, run_cons, run_nil, residue, lowByte_step, highByte_step, hfirst,
      hsecond, lowByte_xor, lowByte_shift]
  · simp only [complement, run_cons, run_nil, residue, lowByte_step, highByte_step, hfirst,
      hsecond, highByte_xor, highByte_shift, BitVec.zero_xor]

/-- One bit of the serial check: the remainder moves down a place, and the
polynomial is folded in when a one falls out. -/
def shift (poly : BitVec 16) (w : BitVec 16) : BitVec 16 :=
  if w.getLsbD 0 then (w >>> 1) ^^^ poly else w >>> 1

/-- `n` bits of the serial check. -/
def shifts (poly : BitVec 16) : Nat → BitVec 16 → BitVec 16
  | 0, w => w
  | n+1, w => shifts poly n (shift poly w)

/-- A shift is linear. -/
theorem shift_xor (poly a b : BitVec 16) :
    shift poly (a ^^^ b) = shift poly a ^^^ shift poly b := by
  unfold shift
  simp only [BitVec.getLsbD_xor, BitVec.ushiftRight_xor_distrib]
  cases a.getLsbD 0 <;> cases b.getLsbD 0
  · simp
  · simp [BitVec.xor_assoc]
  · simp only [Bool.bne_false, if_true, Bool.false_eq_true, if_false]
    rw [BitVec.xor_assoc, BitVec.xor_assoc, BitVec.xor_comm poly]
  · simp only [bne_self_eq_false, Bool.false_eq_true, if_false, if_true]
    rw [BitVec.xor_assoc (a >>> 1), BitVec.xor_comm (b >>> 1), ← BitVec.xor_assoc poly,
      BitVec.xor_self, BitVec.zero_xor]

/-- So are several. -/
theorem shifts_xor (poly : BitVec 16) (n : Nat) (a b : BitVec 16) :
    shifts poly n (a ^^^ b) = shifts poly n a ^^^ shifts poly n b := by
  induction n generalizing a b with
  | zero => rfl
  | succ n ih => simp only [shifts, shift_xor, ih]

/-- One bit of a message put to the serial check: the polynomial is folded in
when the bit differs from the one that falls out. -/
def serialBit (poly : BitVec 16) (w : BitVec 16) (bit : Bool) : BitVec 16 :=
  if (w.getLsbD 0 ^^ bit) = true then (w >>> 1) ^^^ poly else w >>> 1

/-- The `n` low bits of a byte, lowest first. -/
def lowBits : Nat → BitVec 8 → List Bool
  | 0, _ => []
  | n+1, b => b.getLsbD 0 :: lowBits n (b >>> 1)

/-- The bit-serial check of a message, every byte sent lowest bit first. -/
def serial (poly : BitVec 16) (fcs : BitVec 16) (bs : List (BitVec 8)) : BitVec 16 :=
  (bs.flatMap (lowBits 8)).foldl (serialBit poly) fcs

/-- A clear low bit only moves the remainder down. -/
theorem shift_of_clear {poly w : BitVec 16} (h : w.getLsbD 0 = false) : shift poly w = w >>> 1 := by
  rw [shift, h]
  rfl

/-- A remainder whose low bits are clear only moves down. -/
theorem shifts_of_clear {poly w : BitVec 16} {n : Nat} (h : ∀ i < n, w.getLsbD i = false) :
    shifts poly n w = w >>> n := by
  induction n generalizing w with
  | zero => simp [shifts]
  | succ n ih =>
      have hrest : ∀ i < n, (w >>> 1).getLsbD i = false := by
        intro i hi
        rw [BitVec.getLsbD_ushiftRight]
        exact h (1 + i) (by omega)
      rw [shifts, shift_of_clear (h 0 (by omega)), ih hrest, ← BitVec.shiftRight_add,
        Nat.add_comm]

/-- A bit put in at the low end and one shift. -/
theorem serialBit_eq (poly w : BitVec 16) (b : BitVec 8) :
    serialBit poly w (b.getLsbD 0) ^^^ (b >>> 1).setWidth 16
      = shift poly (w ^^^ b.setWidth 16) := by
  have hlow : (w ^^^ b.setWidth 16).getLsbD 0 = (w.getLsbD 0 ^^ b.getLsbD 0) := by
    simp
  have hrest : (b.setWidth 16) >>> 1 = (b >>> 1).setWidth 16 := by
    apply BitVec.eq_of_getLsbD_eq
    intro i hi
    simp only [BitVec.getLsbD_ushiftRight, BitVec.getLsbD_setWidth]
    by_cases hbyte : 1 + i < 8
    · simp [hi, show 1 + i < 16 by omega]
    · simp [BitVec.getLsbD_of_ge b (1 + i) (by omega)]
  unfold serialBit shift
  rw [hlow, BitVec.ushiftRight_xor_distrib, hrest]
  split
  · rw [BitVec.xor_assoc, BitVec.xor_comm poly, BitVec.xor_assoc]
  · rfl

/-- The bits of a byte fed in one by one are the byte fed in at once and shifted. -/
theorem serial_lowBits (poly w : BitVec 16) {n : Nat} {b : BitVec 8} (h : b >>> n = 0#8) :
    (lowBits n b).foldl (serialBit poly) w = shifts poly n (w ^^^ b.setWidth 16) := by
  induction n generalizing w b with
  | zero =>
      have hzero : b = 0#8 := by simpa using h
      simp [lowBits, shifts, hzero]
  | succ n ih =>
      have hrest : (b >>> 1) >>> n = 0#8 := by
        rw [← BitVec.shiftRight_add, Nat.add_comm]
        exact h
      rw [lowBits, List.foldl_cons, ih _ hrest, shifts, serialBit_eq]

@[simp] theorem extend_shift (b : BitVec 8) : b.setWidth 16 >>> 8 = 0#16 := by
  apply BitVec.eq_of_toNat_eq
  simp [Nat.shiftRight_eq_div_pow]
  omega

/-- Eight shifts take the low byte through the table and move the rest down. -/
theorem shifts_eight (poly w : BitVec 16) :
    shifts poly 8 w = (w >>> 8) ^^^ shifts poly 8 ((lowByte w).setWidth 16) := by
  have hclear : ∀ i < 8, (w ^^^ (lowByte w).setWidth 16).getLsbD i = false := by
    intro i hi
    simp [lowByte, hi, show i < 16 by omega]
  have hdown : (w ^^^ (lowByte w).setWidth 16) >>> 8 = w >>> 8 := by
    rw [BitVec.ushiftRight_xor_distrib, extend_shift, BitVec.xor_zero]
  calc
    shifts poly 8 w
        = shifts poly 8 (w ^^^ (lowByte w).setWidth 16 ^^^ (lowByte w).setWidth 16) := by
          rw [BitVec.xor_assoc, BitVec.xor_self, BitVec.xor_zero]
    _ = shifts poly 8 (w ^^^ (lowByte w).setWidth 16)
          ^^^ shifts poly 8 ((lowByte w).setWidth 16) := shifts_xor poly 8 _ _
    _ = _ := by rw [shifts_of_clear hclear, hdown]

/-- The table holds eight serial bits of each index. -/
def IsSerial (poly : BitVec 16) : Prop :=
  ∀ i : BitVec 8, tab i = shifts poly 8 (i.setWidth 16)

/-- A serial table is linear in exclusive or. -/
theorem IsSerial.xor {tab : BitVec 8 → BitVec 16} {poly : BitVec 16} (h : IsSerial tab poly)
    (i j : BitVec 8) : tab (i ^^^ j) = tab i ^^^ tab j := by
  rw [h, h i, h j, BitVec.setWidth_xor, shifts_xor]

/-- The high bytes of a serial table are pairwise distinct as soon as only the
index zero has high byte zero. -/
theorem IsSerial.high_injective {tab : BitVec 8 → BitVec 16} {poly : BitVec 16}
    (h : IsSerial tab poly) (hzero : ∀ i, highByte (tab i) = 0#8 → i = 0#8) :
    Function.Injective fun i => highByte (tab i) := by
  intro i j hij
  apply BitVec.xor_eq_zero_iff.mp
  apply hzero
  rw [h.xor, highByte_xor]
  exact BitVec.xor_eq_zero_iff.mpr hij

/-- **Table and serial check agree.**  A serial table computes the bit-serial
check of every message. -/
theorem IsSerial.run_eq_serial {tab : BitVec 8 → BitVec 16} {poly : BitVec 16}
    (h : IsSerial tab poly) (fcs : BitVec 16) (bs : List (BitVec 8)) :
    run tab fcs bs = serial poly fcs bs := by
  induction bs generalizing fcs with
  | nil => rfl
  | cons b bs ih =>
      have hbyte : step tab fcs b = (lowBits 8 b).foldl (serialBit poly) fcs := by
        rw [serial_lowBits poly fcs (BitVec.ushiftRight_eq_zero (Nat.le_refl 8)), shifts_eight,
          ← h, step, BitVec.ushiftRight_xor_distrib, extend_shift, BitVec.xor_zero]
      rw [run_cons, hbyte, ih, serial, serial, List.flatMap_cons, List.foldl_append]

section Injective

variable {tab} (htab : Function.Injective fun i => highByte (tab i))
include htab

/-- With the byte known, a step loses nothing of the remainder. -/
theorem step_injective (b : BitVec 8) : Function.Injective fun fcs => step tab fcs b := by
  intro s t h
  have hindex : lowByte s ^^^ b = lowByte t ^^^ b := by
    apply htab
    simpa only [highByte_step] using congrArg highByte h
  have hlow : lowByte s = lowByte t := (BitVec.xor_left_inj _).mp hindex
  have hhigh := congrArg lowByte h
  simp only [lowByte_step, hlow] at hhigh
  exact eq_of_bytes hlow ((BitVec.xor_left_inj _).mp hhigh)

/-- With the remainder known, a step loses nothing of the byte. -/
theorem step_byte_injective (fcs : BitVec 16) : Function.Injective (step tab fcs) := by
  intro x y h
  have hindex : lowByte fcs ^^^ x = lowByte fcs ^^^ y := by
    apply htab
    simpa only [highByte_step] using congrArg highByte h
  exact (BitVec.xor_right_inj _).mp hindex

/-- Two remainders that a common message brings together were one already. -/
theorem run_injective (bs : List (BitVec 8)) : Function.Injective fun fcs => run tab fcs bs := by
  induction bs with
  | nil => exact Function.injective_id
  | cons b bs ih =>
      intro s t h
      exact step_injective htab b (ih h)

/-- Two consecutive bytes are determined by the remainder after them. -/
theorem run_pair_injective {fcs : BitVec 16} {x y x' y' : BitVec 8}
    (h : run tab fcs [x, y] = run tab fcs [x', y']) : x = x' ∧ y = y' := by
  simp only [run_cons, run_nil] at h
  have hsecond : lowByte (step tab fcs x) ^^^ y = lowByte (step tab fcs x') ^^^ y' := by
    apply htab
    simpa only [highByte_step] using congrArg highByte h
  have hmiddle : highByte (step tab fcs x) = highByte (step tab fcs x') := by
    have hlow := congrArg lowByte h
    rw [lowByte_step tab (step tab fcs x), lowByte_step tab (step tab fcs x'), hsecond] at hlow
    exact (BitVec.xor_left_inj _).mp hlow
  have hfirst : lowByte fcs ^^^ x = lowByte fcs ^^^ x' := by
    apply htab
    simpa only [highByte_step] using hmiddle
  have hx : x = x' := (BitVec.xor_right_inj _).mp hfirst
  subst hx
  exact ⟨rfl, (BitVec.xor_right_inj _).mp hsecond⟩

/-- **Bursts are seen.**  Messages of one length that differ at most in two
consecutive bytes have different remainders unless they are one message. -/
theorem run_burst_injective {fcs : BitVec 16} {xs ys : List (BitVec 8)} {i : Nat}
    (hlen : xs.length = ys.length) (hsame : ∀ j, j ≠ i → j ≠ i + 1 → xs[j]? = ys[j]?)
    (h : run tab fcs xs = run tab fcs ys) : xs = ys := by
  induction i generalizing fcs xs ys with
  | zero =>
      match xs, ys, hlen with
      | [], [], _ => rfl
      | [x], [y], _ => rw [step_byte_injective htab fcs h]
      | x :: x' :: rest, y :: y' :: rest', _ =>
          have hrest : rest = rest' := by
            apply List.ext_getElem?
            intro j
            exact hsame (j + 2) (by omega) (by omega)
          subst hrest
          have hpair : run tab fcs [x, x'] = run tab fcs [y, y'] := run_injective htab rest h
          obtain ⟨rfl, rfl⟩ := run_pair_injective htab hpair
          rfl
  | succ i ih =>
      match xs, ys, hlen with
      | [], [], _ => rfl
      | x :: rest, y :: rest', hlen =>
          have hfirst : x = y := by
            have hzero := hsame 0 (by omega) (by omega)
            exact Option.some.inj hzero
          subst hfirst
          have hrest : rest = rest' := by
            refine ih (Nat.succ.inj hlen) ?_ h
            intro j hj hj'
            exact hsame (j + 1) (by omega) (by omega)
          rw [hrest]

/-- **The trailer is unique.**  A message followed by two bytes leaves the
residue exactly when they are its complemented remainder. -/
theorem run_pair_eq_residue_iff (fcs : BitVec 16) (x y : BitVec 8) :
    run tab fcs [x, y] = residue tab ↔ [x, y] = complement fcs := by
  constructor
  · intro h
    rw [← run_complement tab fcs] at h
    obtain ⟨rfl, rfl⟩ := run_pair_injective htab h
    rfl
  · intro h
    rw [h, run_complement]

end Injective

end TableCrc
