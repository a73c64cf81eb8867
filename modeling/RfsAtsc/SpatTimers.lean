import RfsAtsc.RoundTrip

/-!
# Timers of the signal status record

`get_spat` reads one frame into the caller's `raw_signal_status_msg_t` and brings the two
interval timers to tenths of a second, in place, one byte each.
-/

namespace RfsAtsc

open TracedMemory ByteStuffing

/-- How the `select` before the read ends. -/
inductive Selected where
  | ready
  | interrupted
  | failed
deriving DecidableEq

/-- What `get_spat` returns, `none` if it waits for ever, and the caller's record. -/
structure SpatRead where
  ret : Option Int
  record : Mem Byte

/-- Intervals whose timer the controller sends in tenths of a second. -/
def TenthsCode (interval : Byte) : Prop :=
  interval = 0xc ∨ interval = 0x7 ∨ interval = 0xd ∨ interval = 0xf

instance (interval : Byte) : Decidable (TenthsCode interval) :=
  inferInstanceAs (Decidable (_ ∨ _ ∨ _ ∨ _))

/-- `data[timer] *= 10`, unless the interval is one of tenths. -/
def scaleTimer (interval timer : Int) (record : Mem Byte) : Mem Byte :=
  if TenthsCode (record.cell interval) then record
  else record.store timer (record.cell timer * 10)

/-- Both timers: `interval_A` is byte 6 and `intvA_timer` byte 8, those of ring B are
bytes 7 and 9. -/
def scaleTimers (record : Mem Byte) : Mem Byte :=
  scaleTimer 7 9 (scaleTimer 6 8 record)

/-- `get_spat`.  Without `wait_for_data` it reads nothing, but the timers are scaled all
the same. -/
def getSpat (waitForData : Bool) (selected : Selected) (port : List Byte)
    (record stack : Mem Byte) : SpatRead :=
  if waitForData then
    if selected = .failed then { ret := some (-2), record := record }
    else
      let heard := serDriverRead port record stack
      match heard.ret with
      | none => { ret := none, record := heard.messagebuff }
      | some false => { ret := some (-1), record := heard.messagebuff }
      | some true => { ret := some 0, record := scaleTimers heard.messagebuff }
  else { ret := some 0, record := scaleTimers record }

/-! ## One timer -/

/-- A timer of tenths is the frame's, and any other is ten times the frame's as a
number. -/
def TimerInTenths (interval timer result : Byte) : Prop :=
  if TenthsCode interval then result = timer else result.toNat = 10 * timer.toNat

/-- A timer fits if it is in tenths already or ten times it is still a byte. -/
def TimerFits (interval timer : Byte) : Prop :=
  TenthsCode interval ∨ timer.toNat ≤ 25

instance (interval timer : Byte) : Decidable (TimerFits interval timer) :=
  inferInstanceAs (Decidable (_ ∨ _))

theorem timer_times_ten (timer : Byte) :
    (timer * 10).toNat = 10 * timer.toNat ↔ timer.toNat ≤ 25 := by
  have hten : (10 : Byte).toNat = 10 := rfl
  rw [BitVec.toNat_mul, hten]
  constructor
  · intro hsame
    have hbyte : timer.toNat * 10 % 2 ^ 8 < 2 ^ 8 := Nat.mod_lt _ (by decide)
    omega
  · intro hsmall
    rw [Nat.mod_eq_of_lt (by omega), Nat.mul_comm]

/-- What is stored for a timer is right exactly when the timer fits. -/
theorem scaleTimer_iff (record : Mem Byte) (interval timer : Int) :
    TimerInTenths (record.cell interval) (record.cell timer)
        ((scaleTimer interval timer record).cell timer) ↔
      TimerFits (record.cell interval) (record.cell timer) := by
  unfold TimerInTenths TimerFits scaleTimer
  by_cases htenths : TenthsCode (record.cell interval)
  · simp only [htenths, if_true, true_or]
  · simp only [htenths, if_false, false_or, Mem.store_cell_same]
    exact timer_times_ten (record.cell timer)

/-- The other bytes are left alone. -/
theorem scaleTimer_other (record : Mem Byte) (interval timer : Int) {a : Int}
    (ha : a ≠ timer) : (scaleTimer interval timer record).cell a = record.cell a := by
  unfold scaleTimer
  split
  · rfl
  · exact record.store_cell_ne _ ha

/-! ## The record -/

/-- `sizeof(raw_signal_status_msg_t)`. -/
def SPAT_RECORD_SIZE : Nat := 39

/-- The record's bytes against the frame's: both timers in tenths, and the other fields as
they came. -/
structure SpatRecord (frame : Nat → Byte) (record : Mem Byte) : Prop where
  timerA : TimerInTenths (frame 6) (frame 8) (record.cell 8)
  timerB : TimerInTenths (frame 7) (frame 9) (record.cell 9)
  others : ∀ k : Nat, k < SPAT_RECORD_SIZE → k ≠ 8 → k ≠ 9 → record.cell k = frame k

/-- Both timers of the frame fit. -/
def TimersFit (frame : Nat → Byte) : Prop :=
  TimerFits (frame 6) (frame 8) ∧ TimerFits (frame 7) (frame 9)

instance (frame : Nat → Byte) : Decidable (TimersFit frame) :=
  inferInstanceAs (Decidable (_ ∧ _))

theorem scaleTimers_iff {frame : Nat → Byte} {record : Mem Byte}
    (h : ∀ k : Nat, k < SPAT_RECORD_SIZE → record.cell k = frame k) :
    SpatRecord frame (scaleTimers record) ↔ TimersFit frame := by
  have h6 : record.cell 6 = frame 6 := h 6 (by decide)
  have h7 : record.cell 7 = frame 7 := h 7 (by decide)
  have h8 : record.cell 8 = frame 8 := h 8 (by decide)
  have h9 : record.cell 9 = frame 9 := h 9 (by decide)
  have hA := scaleTimer_iff record 6 8
  have hB := scaleTimer_iff (scaleTimer 6 8 record) 7 9
  rw [scaleTimer_other record 6 8 (by decide), scaleTimer_other record 6 8 (by decide), h7,
    h9] at hB
  rw [h6, h8] at hA
  have hkeep : (scaleTimers record).cell 8 = (scaleTimer 6 8 record).cell 8 :=
    scaleTimer_other _ 7 9 (by decide)
  constructor
  · intro hrecord
    exact ⟨hA.mp (hkeep ▸ hrecord.timerA), hB.mp hrecord.timerB⟩
  · intro hfit
    refine ⟨?_, hB.mpr hfit.2, ?_⟩
    · rw [hkeep]
      exact hA.mpr hfit.1
    · intro k hk hA hB
      rw [scaleTimers, scaleTimer_other _ 7 9 (by omega), scaleTimer_other _ 6 8 (by omega)]
      exact h k hk

/-! ## The frames accepted -/

/-- The bytes an accepted frame puts into the record. -/
def frameByte (opening : Byte) (content : List Byte) (k : Nat) : Byte :=
  (messageData opening content).getD k 0

theorem frameByte_held {x : Byte} {content : List Byte} {m : Mem Byte}
    (hlen : content.length ≤ 94) (h : m.Holds 0 (messageData x content)) :
    ∀ k : Nat, k < SPAT_RECORD_SIZE → m.cell k = frameByte x content k := by
  intro k hk
  have hin : k < (messageData x content).length := by
    have hsize : SPAT_RECORD_SIZE = 39 := rfl
    rw [messageData_length x (by omega)]
    omega
  have hcell := h.cell_eq hin
  rw [zero_add] at hcell
  rw [hcell, frameByte, List.getD_eq_getElem?_getD, List.getElem?_eq_getElem hin]
  rfl

/-- With a frame waiting `get_spat` returns `0` on the frames `ser_driver_read` accepts,
and on no others. -/
theorem getSpat_ret_iff (selected : Selected) (hselected : selected ≠ .failed)
    (port : List Byte) (record stack : Mem Byte) :
    (getSpat true selected port record stack).ret = some 0 ↔
      ∃ x content rest, Accepts port x content rest := by
  rw [← serDriverRead_true_iff port record stack, getSpat, if_pos rfl, if_neg hselected]
  cases hret : (serDriverRead port record stack).ret with
  | none => simp only [hret, reduceCtorEq]
  | some ok =>
      cases ok with
      | false => simp [hret]
      | true => simp only [hret]

/-- The record after an accepted frame. -/
theorem getSpat_record {selected : Selected} (hselected : selected ≠ .failed)
    {port : List Byte} {x : Byte} {content rest : List Byte}
    (haccepts : Accepts port x content rest) (record stack : Mem Byte) :
    ∃ m : Mem Byte, m.Holds 0 (messageData x content) ∧
      getSpat true selected port record stack = { ret := some 0, record := scaleTimers m } := by
  obtain ⟨hret, -, hdata⟩ := haccepts.reads record stack
  refine ⟨_, hdata, ?_⟩
  rw [getSpat, if_pos rfl, if_neg hselected]
  simp only [hret]

/-- **The record is the frame's in tenths of a second exactly when both timers fit:** in
every other frame a timer wraps around. -/
theorem getSpat_record_iff {selected : Selected} (hselected : selected ≠ .failed)
    {port : List Byte} {x : Byte} {content rest : List Byte}
    (haccepts : Accepts port x content rest) (record stack : Mem Byte) :
    (getSpat true selected port record stack).ret = some 0 ∧
      (SpatRecord (frameByte x content) (getSpat true selected port record stack).record ↔
        TimersFit (frameByte x content)) := by
  obtain ⟨m, hdata, hread⟩ := getSpat_record hselected haccepts record stack
  rw [hread]
  exact ⟨rfl, scaleTimers_iff (frameByte_held haccepts.2.1 hdata)⟩

/-- A signal status message: phases 2 and 6 in minimum green, with the timers given. -/
def minGreen (timerA timerB : Byte) : List Byte :=
  [0x13, 0xc0, 0xce, 0x22, 0x02, 0x02, timerA, timerB] ++ List.replicate 27 0

theorem getSpat_record_half_second :
    SpatRecord (frameByte 0x7e (withFcs (0x01 :: minGreen 5 25)))
      (getSpat true .ready (hdlcFrame (0x01 :: minGreen 5 25) ++ []) (Mem.ofList 0 [])
        (Mem.ofList 0 [])).record :=
  ((getSpat_record_iff (by decide) (accepts_hdlcFrame (by decide) (by decide) [])
    (Mem.ofList 0 []) (Mem.ofList 0 [])).2).mpr (by decide +kernel)

/-- With 26 to go the record says 4. -/
theorem getSpat_wraps :
    ¬ ∀ (selected : Selected) (port : List Byte) (x : Byte) (content rest : List Byte)
        (record stack : Mem Byte), selected ≠ .failed → Accepts port x content rest →
      SpatRecord (frameByte x content) (getSpat true selected port record stack).record := by
  intro hall
  have haccepts := @accepts_hdlcFrame 0x01 (minGreen 26 5) (by decide) (by decide) []
  obtain ⟨m, hdata, hread⟩ := @getSpat_record .ready (by decide) _ _ _ _ haccepts
    (Mem.ofList 0 []) (Mem.ofList 0 [])
  have hrecord := hall .ready _ _ _ _ (Mem.ofList 0 []) (Mem.ofList 0 []) (by decide) haccepts
  rw [hread, scaleTimers_iff (frameByte_held haccepts.2.1 hdata)] at hrecord
  exact absurd hrecord (by decide +kernel)

end RfsAtsc
