import RfsAtsc.RequestMessages
import Mathlib.Tactic.IntervalCases

/-!
# Probing the controller's memory

`tscp_memory_probe` reads a range of the controller's memory in chunks of sixteen bytes.
With a match value and a substitution value it writes a new byte over every byte that
matches, by a message of `set_timing`.  The address of a byte is handed to `set_timing`
as a phase, from its second last digit, and a cell address without that digit.
-/

namespace RfsAtsc

open TracedMemory

/-! ## The controller -/

/-- A cell a message names: its address, high byte first, and its byte. -/
def messCell (body : List Byte) (k : Nat) : U16 × Byte :=
  (body.getD k 0 ++ body.getD (k + 1) 0, body.getD (k + 2) 0)

/-- The two cells of a message of `set_timing`: `magic_num` and `cell_addr_data`. -/
def messCells (body : List Byte) : List (U16 × Byte) := [messCell body 5, messCell body 8]

/-- The memory of a controller: the byte at every address, and what a message makes of
it.  Whatever that is, only the cells the message names can change. -/
structure Controller (σ : Type) where
  cell : σ → U16 → Byte
  set : σ → List (U16 × Byte) → σ
  set_cell : ∀ s cells a, a ∉ cells.map Prod.fst → cell (set s cells) a = cell s a

variable {σ : Type}

/-- `get_mem`: the `n` bytes from address `a` up. -/
def Controller.getMem (c : Controller σ) (s : σ) : U16 → Nat → List Byte
  | _, 0 => []
  | a, n + 1 => c.cell s a :: c.getMem s (a + 1) n

/-! ## The program -/

/-- The options: the range, and the values of `-m` and `-s` if they are given. -/
structure ProbeArgs where
  lomem : U16
  himem : U16
  matchVal : Option Byte
  substVal : Option Byte

/-- The controller's memory, and the requests handed to `set_timing` so far. -/
structure ProbeRun (σ : Type) where
  memory : σ
  sent : List DbTimingSet2070

/-- The request for a byte that matches. -/
def substRequest (i : U16) (substVal : Byte) : DbTimingSet2070 :=
  { phase := ((i &&& 0xf0) >>> 4).setWidth 8
    cellAddr := (i &&& 0xff0f) + 0x10
    data := substVal }

/-- The request for the byte `b` at address `i`.  The match value is a `char`, which is
signed, and the byte is not. -/
def probeRequest (p : ProbeArgs) (i : U16) (b : Byte) : Option DbTimingSet2070 :=
  match p.matchVal, p.substVal with
  | some matchVal, some substVal =>
      if (b.toNat : Int) = matchVal.toInt then some (substRequest i substVal) else none
  | none, some substVal => some { phase := 0, cellAddr := i, data := substVal }
  | _, none => none

variable (c : Controller σ) (stack : Mem Byte) (p : ProbeArgs)

/-- `set_timing`, its message taken by the controller. -/
def ProbeRun.send (r : ProbeRun σ) (t : DbTimingSet2070) : ProbeRun σ :=
  { memory := c.set r.memory (messCells (setTimingMess stack t).body)
    sent := r.sent ++ [t] }

/-- The inner loop, over the bytes of one chunk. -/
def probeBytes : U16 → List Byte → ProbeRun σ → ProbeRun σ
  | _, [], r => r
  | i, b :: bytes, r =>
      probeBytes (i + 1) bytes
        (match probeRequest p i b with
          | some t => r.send c stack t
          | none => r)

/-- `while (num_left > 0)`. -/
def probeLoop : Nat → Int → U16 → ProbeRun σ → Option (ProbeRun σ)
  | 0, _, _, _ => none
  | fuel + 1, numLeft, lomem, r =>
      if numLeft > 0 then
        let numBytes := if numLeft / 16 > 0 then 16 else numLeft % 16
        let data := c.getMem r.memory lomem numBytes.toNat
        probeLoop fuel (numLeft - numBytes) (lomem + BitVec.ofInt 16 numBytes)
          (probeBytes c stack p lomem data r)
      else some r

/-- `main`.  `num_left` is a `short`. -/
def memoryProbe (fuel : Nat) (r : ProbeRun σ) : Option (ProbeRun σ) :=
  if p.himem < p.lomem then some r
  else
    let numLeft := (p.himem - p.lomem + 1).toInt
    probeLoop c stack p fuel numLeft p.lomem r

/-- The address and byte in the message's `cell_addr_data`. -/
def written (t : DbTimingSet2070) : U16 × Byte := messCell (setTimingMess stack t).body 8

/-! ## The message -/

/-- Both bytes of an address, exchanged. -/
def swapBytes (w : U16) : U16 := ((w <<< 8) &&& 0xFF00) + ((w >>> 8) &&& 0x00FF)

/-- The swap written with shifts and masks. -/
theorem swapBytes_eq_or (w : U16) :
    swapBytes w = ((w <<< 8) &&& 0xFF00) ||| ((w >>> 8) &&& 0x00FF) := by
  apply BitVec.add_eq_or_of_and_eq_zero
  apply BitVec.eq_of_getLsbD_eq
  intro k hk
  interval_cases k <;> simp

/-- A swapped word has its high byte first in memory. -/
theorem leBytes_swapBytes (w : U16) :
    leBytes (swapBytes w) = [TableCrc.highByte w, TableCrc.lowByte w] := by
  have hlow : TableCrc.lowByte (swapBytes w) = TableCrc.highByte w := by
    rw [swapBytes_eq_or]
    apply BitVec.eq_of_getLsbD_eq
    intro k hk
    interval_cases k <;> simp [TableCrc.lowByte, TableCrc.highByte]
  have hhigh : TableCrc.highByte (swapBytes w) = TableCrc.lowByte w := by
    rw [swapBytes_eq_or]
    apply BitVec.eq_of_getLsbD_eq
    intro k hk
    interval_cases k <;> simp [TableCrc.lowByte, TableCrc.highByte]
  rw [leBytes, hlow, hhigh]

/-- The address a request is for, before its bytes are exchanged. -/
def requestAddr (t : DbTimingSet2070) : U16 :=
  if t.phase.toNat > 0 then ((t.phase.zeroExtend 16 - 1) <<< 4) + t.cellAddr else t.cellAddr

/-- The address in the message is the one asked for, swapped. -/
theorem setTimingCellAddr_eq (t : DbTimingSet2070) :
    setTimingCellAddr t = swapBytes (requestAddr t) := by
  unfold setTimingCellAddr requestAddr
  split
  · rfl
  · rfl

/-- The second digit goes into the phase and comes back from it. -/
theorem row_of_phase (i : U16) :
    (((i &&& 0xf0) >>> 4).setWidth 8).zeroExtend 16 * 16 + (i &&& 0xff0f) = i := by
  have hrow : (((i &&& 0xf0) >>> 4).setWidth 8).zeroExtend 16 * 16 = i &&& 0xf0 := by
    rw [show (16 : U16) = BitVec.twoPow 16 4 by decide, ← BitVec.shiftLeft_eq_mul_twoPow]
    apply BitVec.eq_of_getLsbD_eq
    intro k hk
    interval_cases k <;> simp
  have hdisjoint : (i &&& 0xf0) &&& (i &&& 0xff0f) = 0 := by
    apply BitVec.eq_of_getLsbD_eq
    intro k hk
    interval_cases k <;> simp
  rw [hrow, BitVec.add_eq_or_of_and_eq_zero _ _ hdisjoint, ← BitVec.and_or_distrib_left]
  exact BitVec.and_allOnes

/-- The digit that becomes the phase is zero. -/
def RowZero (i : U16) : Prop := i &&& 0xf0 = 0

instance (i : U16) : Decidable (RowZero i) := inferInstanceAs (Decidable (_ = _))

/-- The row of a cell is its phase unless it is zero. -/
theorem phase_pos_iff (i : U16) :
    0 < (((i &&& 0xf0) >>> 4).setWidth 8 : Byte).toNat ↔ ¬ RowZero i := by
  have hback : (((i &&& 0xf0) >>> 4).setWidth 8 : Byte) = 0 ↔ RowZero i := by
    constructor
    · intro hzero
      have hi := row_of_phase i
      rw [hzero] at hi
      have hcell : i &&& 0xff0f = i := by simpa using hi
      rw [RowZero, ← hcell, BitVec.and_assoc]
      exact BitVec.and_zero
    · intro hzero
      rw [hzero]
      rfl
  rw [← hback, Nat.pos_iff_ne_zero, not_iff_not]
  exact BitVec.toNat_inj (y := 0)

/-- With a digit the request is for the byte's own address, and without one for the
address sixteen higher. -/
theorem requestAddr_subst (i : U16) (substVal : Byte) :
    requestAddr (substRequest i substVal) = if RowZero i then i + 0x10 else i := by
  unfold requestAddr substRequest
  by_cases hrow : RowZero i
  · have hnone : ¬ 0 < (((i &&& 0xf0) >>> 4).setWidth 8 : Byte).toNat := by
      rw [phase_pos_iff]
      exact not_not.mpr hrow
    have hcell : i &&& 0xff0f = i := by
      have hi := row_of_phase i
      rw [show i &&& 0xf0 = 0 from hrow] at hi
      simpa using hi
    simp only [gt_iff_lt, if_neg hnone, if_pos hrow, hcell]
  · have hpos := (phase_pos_iff i).mpr hrow
    simp only [gt_iff_lt, if_pos hpos, if_neg hrow]
    rw [BitVec.shiftLeft_eq_mul_twoPow, show BitVec.twoPow 16 4 = 16 by decide]
    have hi := row_of_phase i
    generalize (((i &&& 0xf0) >>> 4).setWidth 8 : Byte).zeroExtend 16 = phase at hi ⊢
    generalize i &&& 0xff0f = cell at hi ⊢
    bv_omega

/-- The message sets the one cell that was asked for. -/
theorem messCells_setTiming (t : DbTimingSet2070) :
    messCells (setTimingMess stack t).body = [(0, 0), (requestAddr t, t.data)] := by
  rw [setTimingMess_body, setTimingBody, setTimingCellAddr_eq, leBytes_swapBytes]
  have haddr := TableCrc.highByte_append_lowByte (requestAddr t)
  simp only [messCells, messCell, List.cons_append, List.nil_append, List.getD_cons_succ,
    List.getD_cons_zero, haddr]
  rfl

/-- So that cell is written with the value asked for. -/
theorem written_eq (t : DbTimingSet2070) : written stack t = (requestAddr t, t.data) :=
  (List.cons.inj (List.cons.inj (messCells_setTiming stack t)).2).1

/-- A message leaves every address alone but `0` and its own. -/
theorem ProbeRun.send_cell (r : ProbeRun σ) (t : DbTimingSet2070) {a : U16} (hzero : a ≠ 0)
    (hown : a ≠ requestAddr t) :
    c.cell (r.send c stack t).memory a = c.cell r.memory a := by
  apply c.set_cell
  rw [messCells_setTiming]
  simp only [List.map_cons, List.map_nil, List.mem_cons, List.not_mem_nil, or_false]
  exact not_or.mpr ⟨hzero, hown⟩

/-! ## The inner loop -/

/-- The requests for `n` addresses of a memory. -/
def requestsFor (mem : U16 → Byte) : U16 → Nat → List DbTimingSet2070
  | _, 0 => []
  | a, n + 1 => (probeRequest p a (mem a)).toList ++ requestsFor mem (a + 1) n

/-- A span that is probed sends a request for each of its bytes that matches. -/
theorem probeBytes_sent (s : σ) (a : U16) (n : Nat) (r : ProbeRun σ) :
    (probeBytes c stack p a (c.getMem s a n) r).sent =
      r.sent ++ requestsFor p (c.cell s) a n := by
  induction n generalizing a r with
  | zero => simp [Controller.getMem, probeBytes, requestsFor]
  | succ n ih =>
      rw [Controller.getMem, probeBytes, ih, requestsFor, ← List.append_assoc]
      cases probeRequest p a (c.cell s a) with
      | none => simp
      | some t => rfl

/-- A chunk leaves an address alone that no request for it names. -/
theorem probeBytes_cell (s : σ) {x : U16} (hzero : x ≠ 0) (a : U16) (n : Nat)
    (r : ProbeRun σ) (hnamed : ∀ t ∈ requestsFor p (c.cell s) a n, x ≠ requestAddr t) :
    c.cell (probeBytes c stack p a (c.getMem s a n) r).memory x = c.cell r.memory x := by
  induction n generalizing a r with
  | zero => rfl
  | succ n ih =>
      rw [requestsFor] at hnamed
      rw [Controller.getMem, probeBytes,
        ih (a + 1) _ (fun t ht => hnamed t (List.mem_append_right _ ht))]
      cases hrequest : probeRequest p a (c.cell s a) with
      | none => rfl
      | some t =>
          refine ProbeRun.send_cell c stack r t hzero (hnamed t ?_)
          simp [hrequest]

/-- Every request is for a byte at some address. -/
theorem probeBytes_mem (a : U16) (bytes : List Byte) (r : ProbeRun σ) {t : DbTimingSet2070}
    (ht : t ∈ (probeBytes c stack p a bytes r).sent) :
    t ∈ r.sent ∨ ∃ i b, probeRequest p i b = some t := by
  induction bytes generalizing a r with
  | nil => exact Or.inl ht
  | cons b bytes ih =>
      rcases ih (a + 1) _ ht with hsent | hlater
      · cases hrequest : probeRequest p a b with
        | none =>
            rw [hrequest] at hsent
            exact Or.inl hsent
        | some u =>
            rw [hrequest] at hsent
            rcases List.mem_append.mp hsent with hbefore | hnow
            · exact Or.inl hbefore
            · rw [List.mem_singleton.mp hnow]
              exact Or.inr ⟨a, b, hrequest⟩
      · exact Or.inr hlater

/-- Two spans one behind the other are one. -/
theorem requestsFor_add (mem : U16 → Byte) (a : U16) (m n : Nat) :
    requestsFor p mem a (m + n) =
      requestsFor p mem a m ++ requestsFor p mem (a + BitVec.ofNat 16 m) n := by
  induction m generalizing a with
  | zero => simp [requestsFor]
  | succ m ih =>
      have haddr : a + BitVec.ofNat 16 (m + 1) = a + 1 + BitVec.ofNat 16 m := by
        rw [BitVec.ofNat_add, BitVec.add_assoc, BitVec.add_comm (BitVec.ofNat 16 m)]
        rfl
      rw [Nat.succ_add, requestsFor, requestsFor, ih, haddr, List.append_assoc]

/-- The address is one of the `n` from `a` up, as numbers. -/
def InSpan (a n : Nat) (x : U16) : Prop := a ≤ x.toNat ∧ x.toNat < a + n

instance (a n : Nat) (x : U16) : Decidable (InSpan a n x) :=
  inferInstanceAs (Decidable (_ ∧ _))

/-- The requests depend on the bytes of the span alone. -/
theorem requestsFor_congr {mem mem' : U16 → Byte} {a n : Nat} (hfit : a + n ≤ 2 ^ 16)
    (hsame : ∀ x, InSpan a n x → mem x = mem' x) :
    requestsFor p mem (BitVec.ofNat 16 a) n = requestsFor p mem' (BitVec.ofNat 16 a) n := by
  induction n generalizing a with
  | zero => rfl
  | succ n ih =>
      have hfirst : InSpan a (n + 1) (BitVec.ofNat 16 a) := by
        unfold InSpan
        rw [BitVec.toNat_ofNat, Nat.mod_eq_of_lt (by omega)]
        omega
      have hrest : BitVec.ofNat 16 a + 1 = BitVec.ofNat 16 (a + 1) := (BitVec.ofNat_add a 1).symm
      rw [requestsFor, requestsFor, hsame _ hfirst, hrest,
        ih (by omega) (fun x hx => hsame x ⟨by have := hx.1; omega, by have := hx.2; omega⟩)]

/-- A request comes from an address of the span. -/
theorem mem_requestsFor {mem : U16 → Byte} {a n : Nat} (hfit : a + n ≤ 2 ^ 16)
    {t : DbTimingSet2070} (ht : t ∈ requestsFor p mem (BitVec.ofNat 16 a) n) :
    ∃ x, InSpan a n x ∧ probeRequest p x (mem x) = some t := by
  induction n generalizing a with
  | zero => exact absurd ht (List.not_mem_nil)
  | succ n ih =>
      have hrest : BitVec.ofNat 16 a + 1 = BitVec.ofNat 16 (a + 1) := (BitVec.ofNat_add a 1).symm
      rw [requestsFor, hrest] at ht
      rcases List.mem_append.mp ht with hfirst | hlater
      · refine ⟨BitVec.ofNat 16 a, ?_, Option.mem_toList.mp hfirst⟩
        unfold InSpan
        rw [BitVec.toNat_ofNat, Nat.mod_eq_of_lt (by omega)]
        omega
      · obtain ⟨x, hx, hrequest⟩ := ih (by omega) hlater
        exact ⟨x, ⟨by have := hx.1; omega, by have := hx.2; omega⟩, hrequest⟩

/-! ## The outer loop -/

/-- With nothing left the loop ends. -/
theorem probeLoop_done (fuel : Nat) {numLeft : Int} (h : ¬ numLeft > 0) (lomem : U16)
    (r : ProbeRun σ) : probeLoop c stack p (fuel + 1) numLeft lomem r = some r := by
  rw [probeLoop, if_neg h]

/-- Every request of the loop is for a byte at some address. -/
theorem probeLoop_mem (fuel : Nat) (numLeft : Int) (lomem : U16) (r : ProbeRun σ)
    {r' : ProbeRun σ} (h : probeLoop c stack p fuel numLeft lomem r = some r')
    {t : DbTimingSet2070} (ht : t ∈ r'.sent) :
    t ∈ r.sent ∨ ∃ i b, probeRequest p i b = some t := by
  induction fuel generalizing numLeft lomem r with
  | zero => simp [probeLoop] at h
  | succ fuel ih =>
      rw [probeLoop] at h
      split at h
      · rcases ih _ _ _ h with hchunk | hlater
        · exact probeBytes_mem c stack p _ _ _ hchunk
        · exact Or.inr hlater
      · rw [Option.some.injEq] at h
        exact Or.inl (h ▸ ht)

/-- No request of the span is for an address ahead of its byte. -/
def NotAhead (mem : U16 → Byte) (a n : Nat) : Prop :=
  ∀ x t, InSpan a n x → probeRequest p x (mem x) = some t →
    (requestAddr t).toNat ≤ x.toNat

/-- Where no request is for an address ahead of its byte, the loop comes to its end and
has sent what the memory it found asks for: the chunks to come are still as they were. -/
theorem probeLoop_sent (mem : U16 → Byte) (n a : Nat) (hfit : a + n ≤ 2 ^ 16)
    (hback : NotAhead p mem a n) (r : ProbeRun σ)
    (hmem : ∀ x : U16, a ≤ x.toNat → c.cell r.memory x = mem x) :
    ∃ fuel r', probeLoop c stack p fuel n (BitVec.ofNat 16 a) r = some r' ∧
      r'.sent = r.sent ++ requestsFor p mem (BitVec.ofNat 16 a) n := by
  induction n using Nat.strong_induction_on generalizing a r with
  | _ n ih =>
      rcases Nat.eq_zero_or_pos n with rfl | hpos
      · exact ⟨1, r, probeLoop_done c stack p 0 (by simp) _ r, by simp [requestsFor]⟩
      · obtain ⟨m, hm⟩ : ∃ m, m = min 16 n := ⟨_, rfl⟩
        have hchunk : (if (n : Int) / 16 > 0 then 16 else (n : Int) % 16) = (m : Int) := by
          split
          · omega
          · omega
        have hread : requestsFor p (c.cell r.memory) (BitVec.ofNat 16 a) m =
            requestsFor p mem (BitVec.ofNat 16 a) m :=
          requestsFor_congr p (by omega) (fun x hx => hmem x hx.1)
        have hrest : ∀ x : U16, a + m ≤ x.toNat →
            c.cell (probeBytes c stack p (BitVec.ofNat 16 a)
              (c.getMem r.memory (BitVec.ofNat 16 a) m) r).memory x = mem x := by
          intro x hx
          rw [← hmem x (by omega)]
          apply probeBytes_cell c stack p r.memory
          · intro hzero
            rw [hzero] at hx
            have hx' : a + m ≤ 0 := hx
            omega
          · intro t ht hnamed
            rw [hread] at ht
            obtain ⟨y, hy, hrequest⟩ := mem_requestsFor p (by omega) ht
            have hle := hback y t ⟨hy.1, by have := hy.2; omega⟩ hrequest
            have hlt := hy.2
            rw [← hnamed] at hle
            omega
        obtain ⟨fuel, r', hloop, hsent⟩ := ih (n - m) (by omega) (a + m) (by omega)
          (fun x t hx => hback x t ⟨by have := hx.1; omega, by have := hx.2; omega⟩) _ hrest
        refine ⟨fuel + 1, r', ?_, ?_⟩
        · have hnext : BitVec.ofNat 16 a + BitVec.ofInt 16 (m : Int) = BitVec.ofNat 16 (a + m) := by
            rw [BitVec.ofInt_natCast, BitVec.ofNat_add]
          have hleft : (n : Int) - (m : Int) = ((n - m : Nat) : Int) := by omega
          rw [probeLoop, if_pos (by omega)]
          simp only [hchunk, Int.toNat_natCast, hnext, hleft]
          exact hloop
        · have hsplit := requestsFor_add p mem (BitVec.ofNat 16 a) m (n - m)
          rw [show m + (n - m) = n by omega, ← BitVec.ofNat_add] at hsplit
          rw [hsent, probeBytes_sent, hread, hsplit, List.append_assoc]

/-! ## Match and substitute -/

/-- The cells written are the addresses of the range whose byte matches, each once and
with the substitution value. -/
def SubstitutesExactly (lomem himem : U16) (matchVal substVal : Byte) (mem : U16 → Byte)
    (cells : List (U16 × Byte)) : Prop :=
  ∀ a : U16, cells.filter (fun w => w.1 = a) =
    if lomem ≤ a ∧ a ≤ himem ∧ mem a = matchVal then [(a, substVal)] else []

/-- Nothing in the range matches; or the range has at most 32767 addresses, the match
value is no negative `char`, and every address that matches has a second last digit. -/
def ProbeFits (lomem himem : U16) (matchVal : Byte) (mem : U16 → Byte) : Prop :=
  (∀ a, lomem ≤ a → a ≤ himem → mem a ≠ matchVal) ∨
    (himem.toNat < lomem.toNat + 32767 ∧ matchVal.toNat < 128 ∧
      ∀ a, lomem ≤ a → a ≤ himem → mem a = matchVal → ¬ RowZero a)

/-- A signed match value equals an unsigned byte only below 128. -/
theorem char_eq_iff (b matchVal : Byte) :
    (b.toNat : Int) = matchVal.toInt ↔ b = matchVal ∧ matchVal.toNat < 128 := by
  rw [BitVec.toInt_eq_toNat_cond, ← BitVec.toNat_inj]
  have hb := b.isLt
  have hm := matchVal.isLt
  split
  · omega
  · omega

/-- A byte is replaced when it is the one looked for, below 128. -/
theorem probeRequest_eq_some_iff {lomem himem i : U16} {matchVal substVal b : Byte}
    {t : DbTimingSet2070} :
    probeRequest ⟨lomem, himem, some matchVal, some substVal⟩ i b = some t ↔
      (b = matchVal ∧ matchVal.toNat < 128) ∧ t = substRequest i substVal := by
  unfold probeRequest
  simp only [char_eq_iff]
  split
  · rename_i hmatch
    rw [Option.some.injEq, and_iff_right hmatch]
    exact eq_comm
  · rename_i hmatch
    exact iff_of_false (by simp) (fun h => hmatch h.1)

/-- Sixteen higher there is a digit. -/
theorem RowZero.next {i : U16} (h : RowZero i) : ¬ RowZero (i + 0x10) := by
  have hdisjoint : i &&& 0x10 = 0 := by
    have hmask : (0x10 : U16) = 0xf0 &&& 0x10 := by decide
    rw [hmask, ← BitVec.and_assoc, show i &&& 0xf0 = 0 from h]
    exact BitVec.zero_and
  rw [BitVec.add_eq_or_of_and_eq_zero _ _ hdisjoint]
  intro hzero
  have hbit := congrArg (fun w : U16 => w.getLsbD 4) hzero
  simp at hbit

/-- No request is for an address without a digit. -/
theorem requestAddr_row (i : U16) (substVal : Byte) :
    ¬ RowZero (requestAddr (substRequest i substVal)) := by
  rw [requestAddr_subst]
  split
  · rename_i hrow
    exact hrow.next
  · assumption

/-- A span is its first place and the rest. -/
theorem span_cons {a n : Nat} {x : U16} (hfit : a + (n + 1) ≤ 2 ^ 16) :
    InSpan a (n + 1) x ↔ BitVec.ofNat 16 a = x ∨ InSpan (a + 1) n x := by
  have hfirst : BitVec.ofNat 16 a = x ↔ a = x.toNat := by
    rw [← BitVec.toNat_inj, BitVec.toNat_ofNat, Nat.mod_eq_of_lt (by omega)]
  rw [hfirst]
  unfold InSpan
  omega

/-- What the requests of a span write at one address, if none is for a byte without a
digit. -/
theorem requestsFor_written {lomem himem : U16} {matchVal substVal : Byte}
    {mem : U16 → Byte} (n a : Nat) (hfit : a + n ≤ 2 ^ 16)
    (hrow : ∀ x, InSpan a n x → mem x = matchVal → matchVal.toNat < 128 → ¬ RowZero x)
    (x : U16) :
    ((requestsFor ⟨lomem, himem, some matchVal, some substVal⟩ mem (BitVec.ofNat 16 a) n).map
        (written stack)).filter (fun w => w.1 = x) =
      if InSpan a n x ∧ mem x = matchVal ∧ matchVal.toNat < 128 then [(x, substVal)]
      else [] := by
  induction n generalizing a with
  | zero =>
      have hnone : ¬ InSpan a 0 x := by
        unfold InSpan
        omega
      simp [requestsFor, hnone]
  | succ n ih =>
      have hnext : BitVec.ofNat 16 a + 1 = BitVec.ofNat 16 (a + 1) := (BitVec.ofNat_add a 1).symm
      have hspan := span_cons (x := x) hfit
      have hlater := ih (a + 1) (by omega)
        (fun y hy => hrow y ((span_cons hfit).mpr (Or.inr hy)))
      have hapart : BitVec.ofNat 16 a = x → ¬ InSpan (a + 1) n x := by
        intro hx hin
        have hle := hin.1
        rw [← hx, BitVec.toNat_ofNat, Nat.mod_eq_of_lt (by omega)] at hle
        omega
      rw [requestsFor, List.map_append, List.filter_append, hnext, hlater]
      by_cases hmatch : mem (BitVec.ofNat 16 a) = matchVal ∧ matchVal.toNat < 128
      · have hdigit := hrow _ ((span_cons hfit).mpr (Or.inl rfl)) hmatch.1 hmatch.2
        rw [probeRequest_eq_some_iff.mpr ⟨hmatch, rfl⟩]
        have hcell : written stack (substRequest (BitVec.ofNat 16 a) substVal) =
            (BitVec.ofNat 16 a, substVal) := by
          rw [written_eq, requestAddr_subst, if_neg hdigit]
          rfl
        by_cases hx : BitVec.ofNat 16 a = x
        · subst hx
          simp [hcell, hspan, hapart rfl, hmatch]
        · simp [hcell, hx, hspan]
      · have hnone : probeRequest ⟨lomem, himem, some matchVal, some substVal⟩
            (BitVec.ofNat 16 a) (mem (BitVec.ofNat 16 a)) = none := by
          rw [Option.eq_none_iff_forall_ne_some]
          intro t ht
          exact hmatch (probeRequest_eq_some_iff.mp ht).1
        rw [hnone]
        by_cases hx : BitVec.ofNat 16 a = x
        · subst hx
          simp [hapart rfl, hmatch]
        · simp [hx, hspan]

/-! ## The whole probe -/

/-- The range counted in a `short`. -/
theorem numLeft_of_short {lomem himem : U16} (hle : lomem ≤ himem)
    (hshort : himem.toNat < lomem.toNat + 32767) :
    (himem - lomem + 1).toInt = ((himem.toNat + 1 - lomem.toNat : Nat) : Int) := by
  have hnum : (himem - lomem + 1).toNat = himem.toNat + 1 - lomem.toNat := by bv_omega
  rw [BitVec.toInt_eq_toNat_cond, hnum, if_pos (by omega)]

/-- A span of 32768 bytes or more counts as none. -/
theorem numLeft_of_long {lomem himem : U16} (_hle : lomem ≤ himem)
    (hlong : ¬ himem.toNat < lomem.toNat + 32767) :
    ¬ (himem - lomem + 1).toInt > 0 := by
  have hnum : (himem - lomem + 1).toNat = (himem.toNat + 1 - lomem.toNat) % 2 ^ 16 := by
    bv_omega
  rw [BitVec.toInt_eq_toNat_cond, hnum]
  have hlo := lomem.isLt
  have hhi := himem.isLt
  split
  · omega
  · omega

/-- The places from `lomem` to `himem` are a span. -/
theorem inRange_iff_span {lomem himem : U16} (hle : lomem ≤ himem) (x : U16) :
    InSpan lomem.toNat (himem.toNat + 1 - lomem.toNat) x ↔ lomem ≤ x ∧ x ≤ himem := by
  unfold InSpan
  rw [BitVec.le_def, BitVec.le_def]
  have hnum : lomem.toNat ≤ himem.toNat := hle
  omega

/-- Every request of a probe is for a byte that matches, with a match value the
comparison can meet. -/
theorem memoryProbe_mem {lomem himem : U16} {matchVal substVal : Byte} {fuel : Nat} {s : σ}
    {r : ProbeRun σ}
    (h : memoryProbe c stack ⟨lomem, himem, some matchVal, some substVal⟩ fuel ⟨s, []⟩ = some r)
    {t : DbTimingSet2070} (ht : t ∈ r.sent) :
    matchVal.toNat < 128 ∧ ∃ i, t = substRequest i substVal := by
  unfold memoryProbe at h
  split at h
  · rw [← Option.some.inj h] at ht
    exact absurd ht (List.not_mem_nil)
  · rcases probeLoop_mem c stack _ _ _ _ _ h ht with hnone | hrequest
    · exact absurd hnone (List.not_mem_nil)
    · obtain ⟨i, b, hsome⟩ := hrequest
      obtain ⟨⟨-, hsigned⟩, htarget⟩ := probeRequest_eq_some_iff.mp hsome
      exact ⟨hsigned, i, htarget⟩

/-- A range whose length is no positive `short` is not probed at all. -/
theorem memoryProbe_long {lomem himem : U16} (hlong : ¬ himem.toNat < lomem.toNat + 32767)
    {matchVal substVal : Option Byte} {fuel : Nat} {r r' : ProbeRun σ}
    (h : memoryProbe c stack ⟨lomem, himem, matchVal, substVal⟩ fuel r = some r') : r' = r := by
  have hle : lomem ≤ himem := by
    rw [BitVec.le_def]
    omega
  rw [memoryProbe, if_neg (BitVec.not_lt.mpr hle)] at h
  cases fuel with
  | zero => simp [probeLoop] at h
  | succ fuel =>
      rw [probeLoop_done c stack _ fuel (numLeft_of_long hle hlong)] at h
      exact (Option.some.inj h).symm

/-- A probe that does what it should finds a range that fits. -/
theorem probeFits_of_exactly {lomem himem : U16} {matchVal substVal : Byte} {fuel : Nat} {s : σ}
    {r : ProbeRun σ}
    (h : memoryProbe c stack ⟨lomem, himem, some matchVal, some substVal⟩ fuel ⟨s, []⟩ = some r)
    (hexact : SubstitutesExactly lomem himem matchVal substVal (c.cell s)
      (r.sent.map (written stack))) :
    ProbeFits lomem himem matchVal (c.cell s) := by
  -- an address that matches is written, by a request
  have hwritten : ∀ a, lomem ≤ a → a ≤ himem → c.cell s a = matchVal →
      ∃ t ∈ r.sent, written stack t = (a, substVal) := by
    intro a hlo hhi hmatch
    have hcell := hexact a
    rw [if_pos ⟨hlo, hhi, hmatch⟩] at hcell
    have hmem : (a, substVal) ∈ r.sent.map (written stack) := by
      apply List.mem_of_mem_filter
      rw [hcell]
      exact List.mem_singleton_self _
    exact List.mem_map.mp hmem
  by_cases hnone : ∀ a, lomem ≤ a → a ≤ himem → c.cell s a ≠ matchVal
  · exact Or.inl hnone
  · push Not at hnone
    obtain ⟨a, hlo, hhi, hmatch⟩ := hnone
    obtain ⟨t, ht, -⟩ := hwritten a hlo hhi hmatch
    refine Or.inr ⟨?_, (memoryProbe_mem c stack h ht).1, ?_⟩
    · by_contra hlong
      rw [memoryProbe_long c stack hlong h] at ht
      exact absurd ht (List.not_mem_nil)
    · intro b hlob hhib hmatchb
      obtain ⟨u, hu, hcell⟩ := hwritten b hlob hhib hmatchb
      obtain ⟨i, rfl⟩ := (memoryProbe_mem c stack h hu).2
      rw [written_eq] at hcell
      rw [← (Prod.mk.inj hcell).1]
      exact requestAddr_row i substVal

/-- In a range that fits the requests go to the addresses that match. -/
theorem exactly_of_probeFits {lomem himem : U16} (hle : lomem ≤ himem)
    (hshort : himem.toNat < lomem.toNat + 32767) {matchVal substVal : Byte} {s : σ}
    (hrow : ∀ a, lomem ≤ a → a ≤ himem → c.cell s a = matchVal → matchVal.toNat < 128 →
      ¬ RowZero a)
    (hsigned : (∀ a, lomem ≤ a → a ≤ himem → c.cell s a ≠ matchVal) ∨ matchVal.toNat < 128) :
    ∃ fuel r,
      memoryProbe c stack ⟨lomem, himem, some matchVal, some substVal⟩ fuel ⟨s, []⟩ = some r ∧
      SubstitutesExactly lomem himem matchVal substVal (c.cell s)
        (r.sent.map (written stack)) := by
  obtain ⟨n, hn⟩ : ∃ n, n = himem.toNat + 1 - lomem.toNat := ⟨_, rfl⟩
  have hspan : ∀ x, InSpan lomem.toNat n x ↔ lomem ≤ x ∧ x ≤ himem := by
    rw [hn]
    exact inRange_iff_span hle
  have hfit : lomem.toNat + n ≤ 2 ^ 16 := by
    have hhi := himem.isLt
    have hlo := lomem.isLt
    omega
  have hrow' : ∀ x, InSpan lomem.toNat n x → c.cell s x = matchVal → matchVal.toNat < 128 →
      ¬ RowZero x := fun x hx => hrow x ((hspan x).mp hx).1 ((hspan x).mp hx).2
  have hback : NotAhead ⟨lomem, himem, some matchVal, some substVal⟩ (c.cell s) lomem.toNat n := by
    intro x t hx hrequest
    obtain ⟨⟨hmatch, hsigned'⟩, rfl⟩ := probeRequest_eq_some_iff.mp hrequest
    rw [requestAddr_subst, if_neg (hrow' x hx hmatch hsigned')]
  obtain ⟨fuel, r, hloop, hsent⟩ :=
    probeLoop_sent c stack _ (c.cell s) n lomem.toNat hfit hback ⟨s, []⟩ (fun _ _ => rfl)
  rw [BitVec.ofNat_toNat, BitVec.setWidth_eq] at hloop hsent
  refine ⟨fuel, r, ?_, fun a => ?_⟩
  · rw [memoryProbe, if_neg (BitVec.not_lt.mpr hle)]
    simp only [numLeft_of_short hle hshort, ← hn]
    exact hloop
  · have hcells := @requestsFor_written stack lomem himem _ substVal _ n lomem.toNat hfit hrow' a
    rw [BitVec.ofNat_toNat, BitVec.setWidth_eq] at hcells
    rw [hsent, List.nil_append, hcells]
    refine if_congr ?_ rfl rfl
    rw [hspan a, and_assoc]
    constructor
    · exact fun h => ⟨h.1, h.2.1, h.2.2.1⟩
    · intro h
      rcases hsigned with hnone | hsigned
      · exact absurd h.2.2 (hnone a h.1 h.2.1)
      · exact ⟨h.1, h.2.1, h.2.2, hsigned⟩

/-- **The probe comes to its end and substitutes exactly the bytes that match, in exactly
the ranges that fit,** whatever the controller's memory and whatever it does with the
messages. -/
theorem memoryProbe_iff (s : σ) (lomem himem : U16) (matchVal substVal : Byte) :
    (∃ fuel r,
      memoryProbe c stack ⟨lomem, himem, some matchVal, some substVal⟩ fuel ⟨s, []⟩ = some r ∧
      SubstitutesExactly lomem himem matchVal substVal (c.cell s)
        (r.sent.map (written stack))) ↔
      ProbeFits lomem himem matchVal (c.cell s) := by
  constructor
  · intro hprobe
    obtain ⟨fuel, r, hrun, hexact⟩ := hprobe
    exact probeFits_of_exactly c stack hrun hexact
  · intro hfits
    by_cases hle : lomem ≤ himem
    · by_cases hshort : himem.toNat < lomem.toNat + 32767
      · apply exactly_of_probeFits c stack hle hshort
        · rcases hfits with hnone | ⟨-, -, hrow⟩
          · exact fun a hlo hhi hmatch => absurd hmatch (hnone a hlo hhi)
          · exact fun a hlo hhi hmatch _ => hrow a hlo hhi hmatch
        · rcases hfits with hnone | ⟨-, hsigned, -⟩
          · exact Or.inl hnone
          · exact Or.inr hsigned
      · rcases hfits with hnone | ⟨hshort', -, -⟩
        · refine ⟨1, ⟨s, []⟩, ?_, fun a => ?_⟩
          · rw [memoryProbe, if_neg (BitVec.not_lt.mpr hle)]
            exact probeLoop_done c stack _ 0 (numLeft_of_long hle hshort) _ _
          · rw [if_neg fun h => hnone a h.1 h.2.1 h.2.2]
            rfl
        · exact absurd hshort' hshort
    · refine ⟨0, ⟨s, []⟩, ?_, fun a => ?_⟩
      · rw [memoryProbe, if_pos (BitVec.not_le.mp hle)]
      · rw [if_neg fun h => hle (BitVec.le_trans h.1 h.2.1)]
        rfl

/-- A controller that stores what it is sent. -/
def storingController : Controller (U16 → Byte) where
  cell := fun s => s
  set := fun s cells => cells.foldl (fun s w => Function.update s w.1 w.2) s
  set_cell := by
    intro s cells a ha
    induction cells generalizing s with
    | nil => rfl
    | cons w cells ih =>
        rw [List.map_cons, List.mem_cons, not_or] at ha
        rw [List.foldl_cons, ih _ ha.2]
        exact Function.update_of_ne ha.1 _ _

/-- Address `0x100` matches and has no second last digit: the new byte goes to `0x110`,
and `0x100` keeps the old one. -/
theorem memoryProbe_rowZero :
    ¬ ∀ (σ : Type) (c : Controller σ) (stack : Mem Byte) (s : σ) (lomem himem : U16)
        (matchVal substVal : Byte), lomem ≤ himem →
      ∃ fuel r,
        memoryProbe c stack ⟨lomem, himem, some matchVal, some substVal⟩ fuel ⟨s, []⟩ = some r ∧
        SubstitutesExactly lomem himem matchVal substVal (c.cell s)
          (r.sent.map (written stack)) := by
  intro hall
  obtain ⟨fuel, r, hrun, hexact⟩ :=
    hall _ storingController (Mem.ofList 0 []) (fun _ => 0) 0x100 0x100 0 5 (by decide)
  rcases probeFits_of_exactly storingController _ hrun hexact with hnone | ⟨-, -, hrow⟩
  · exact hnone 0x100 (by decide) (by decide) rfl
  · exact hrow 0x100 (by decide) (by decide) rfl (by decide)

example :
    (memoryProbe storingController (Mem.ofList 0 []) ⟨0x100, 0x100, some 0, some 5⟩ 2
      ⟨fun _ => 0, []⟩).map (fun r => r.sent.map (written (Mem.ofList 0 []))) =
      some [(0x110, 5)] := by
  decide +kernel

end RfsAtsc
