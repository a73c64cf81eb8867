import RfsAtsc.RequestMessages

/-!
# Requests and their replies

The commands send a request, wait for a reply and return `0` for any frame that
`ser_driver_read` accepts.  None of them looks at the message type of the reply,
its fourth byte; success is therefore tied to the type only as long as the
controller's stream offers no other frame (`commands_match_iff`).
-/

namespace RfsAtsc

open TracedMemory ByteStuffing

/-- What a command returns, `none` for one that waits for ever; the bytes it
sent; and the reply it read, if it came to that. -/
structure Exchange where
  ret : Option Int
  wire : Option (List Byte)
  heard : Option ReadResult

/-- The part the commands share: `select` for writing, `write`, `select` for
reading and `ser_driver_read`.  The `select` for reading times out on a silent
port. -/
def exchange (sent : Sent) (writable waitForData : Bool) (port : List Byte)
    (readBuff stack : Mem Byte) : Exchange :=
  if writable then
    if waitForData then
      if port = [] then { ret := some (-2), wire := some sent.wire, heard := none }
      else
        let heard := serDriverRead port readBuff stack
        let ret := heard.ret.map fun ok => if ok then 0 else -1
        { ret := ret, wire := some sent.wire, heard := some heard }
    else { ret := some 0, wire := some sent.wire, heard := none }
  else { ret := some (-3), wire := none, heard := none }

/-- The memory a command finds: its uninitialised message, its uninitialised
`readBuff`, and the buffer of `ser_driver_read`. -/
structure Locals where
  mess : Mem Byte
  readBuff : Mem Byte
  msgbuf : Mem Byte

/-- `set_timing`, with `wait_for_data` set. -/
def setTiming (t : DbTimingSet2070) (writable : Bool) (port : List Byte) (l : Locals) : Exchange :=
  exchange (setTimingMess l.mess t) writable true port l.readBuff l.msgbuf

/-- `set_overlap`, with `wait_for_data` set. -/
def setOverlap (poverlapSetRequest : Mem Byte) (writable : Bool) (port : List Byte) (l : Locals) :
    Exchange :=
  exchange (setOverlapMess poverlapSetRequest) writable true port l.readBuff l.msgbuf

/-- `get_timing`: what it returns, and the caller's `phase_timing`. -/
def getTiming (t : DbTimingGet2070) (waitForData writable : Bool) (phaseTiming : Mem Byte)
    (port : List Byte) (l : Locals) : Exchange × Mem Byte :=
  let e := exchange (getTimingMess l.mess t) writable waitForData port l.readBuff l.msgbuf
  match e.heard with
  | some heard =>
      if heard.ret = some true then (e, phaseTiming.write 0 (heard.messagebuff.take 8 16))
      else (e, phaseTiming)
  | none => (e, phaseTiming)

/-- `get_short_status`.  The message goes to the caller's `readBuff`, if there is
one. -/
def getShortStatus (waitForData : Bool) (readBuff : Option (Mem Byte)) (fpout : Int)
    (writable : Bool) (port : List Byte) (l : Locals) : Exchange :=
  if fpout ≤ 0 then { ret := some (-1), wire := none, heard := none }
  else
    exchange (getShortStatusMess l.mess) writable (waitForData && readBuff.isSome) port
      (readBuff.getD l.readBuff) l.msgbuf

/-! ## Matching a reply to its request -/

/-- The command returns `0` on a frame only if the frame carries the message
type. -/
def Exchange.Matches (e : Exchange) (messType : Byte) : Prop :=
  ∀ heard, e.heard = some heard → e.ret = some 0 → heard.messagebuff.cell 4 = messType

/-- The stream offers no frame of another message type. -/
def OffersOnly (port : List Byte) (messType : Byte) : Prop :=
  ∀ x content rest, Accepts port x content rest → content[3]? = some messType

/-- The message type is the fourth byte of the content; in a shorter message the
closing flag or a zero stands in its place. -/
theorem messageData_type {x messType : Byte} {content : List Byte} {m : Mem Byte}
    (hdata : m.Holds 0 (messageData x content)) (hflag : messType ≠ 0x7e)
    (hzero : messType ≠ 0) (hlen : content.length ≤ 94) :
    m.cell 4 = messType ↔ content[3]? = some messType := by
  have hcell := hdata.cell_eq (k := 4) (by rw [messageData_length x (by omega)]; omega)
  have hentry : (messageData x content)[4]? = some (m.cell 4) := by
    rw [List.getElem?_eq_getElem (by rw [messageData_length x (by omega)]; omega), ← hcell]
    rfl
  rw [messageData, List.cons_append, List.getElem?_cons_succ] at hentry
  rcases Nat.lt_or_ge 3 content.length with hin | hout
  · rw [List.getElem?_append_left hin] at hentry
    rw [hentry, Option.some.injEq]
  · rw [List.getElem?_append_right hout] at hentry
    rw [List.getElem?_eq_none hout]
    refine iff_of_false ?_ (by simp)
    intro heq
    subst heq
    rcases Nat.eq_zero_or_pos (3 - content.length) with hnone | hpos
    · rw [hnone, List.getElem?_cons_zero, Option.some.injEq] at hentry
      exact hflag hentry.symm
    · obtain ⟨k, hk⟩ := Nat.exists_eq_succ_of_ne_zero (Nat.pos_iff_ne_zero.mp hpos)
      rw [hk, List.getElem?_cons_succ, List.getElem?_replicate, if_pos (by omega),
        Option.some.injEq] at hentry
      exact hzero hentry.symm

/-- **Matching, exactly.**  A command that waits matches the reply to its request
exactly when the stream offers no frame of another type. -/
theorem exchange_matches_iff (sent : Sent) (writable waitForData : Bool) (port : List Byte)
    (readBuff stack : Mem Byte) {messType : Byte} (hflag : messType ≠ 0x7e)
    (hzero : messType ≠ 0) :
    (exchange sent writable waitForData port readBuff stack).Matches messType ↔
      (writable = true → waitForData = true → OffersOnly port messType) := by
  cases writable with
  | false => simp [Exchange.Matches, exchange]
  | true =>
      cases waitForData with
      | false => simp [Exchange.Matches, exchange]
      | true =>
          constructor
          · intro hmatch _ _ x content rest haccepts
            obtain ⟨hret, -, hdata⟩ := haccepts.reads readBuff stack
            have hport : port ≠ [] := by
              intro heq
              subst heq
              obtain ⟨⟨y, c, hspells, -⟩, -, -⟩ := haccepts
              simp at hspells
            have htype := hmatch (serDriverRead port readBuff stack)
              (by simp [exchange, hport]) (by simp [exchange, hport, hret])
            exact (messageData_type hdata hflag hzero haccepts.2.1).mp htype
          · intro honly heard hheard hzeroRet
            by_cases hport : port = []
            · simp [exchange, hport] at hheard
            · simp only [exchange, if_true, if_neg hport, Option.some.injEq] at hheard hzeroRet
              subst hheard
              have htrue : (serDriverRead port readBuff stack).ret = some true := by
                obtain ⟨ok, hok, hval⟩ := Option.map_eq_some_iff.mp hzeroRet
                cases ok with
                | true => exact hok
                | false => exact absurd hval (by decide)
              obtain ⟨x, content, rest, haccepts⟩ := (serDriverRead_true_iff _ _ _).mp htrue
              have hdata := (haccepts.reads readBuff stack).2.2
              exact (messageData_type hdata hflag hzero haccepts.2.1).mpr
                (honly rfl rfl x content rest haccepts)

/-! ## The four commands -/

theorem getTiming_fst (t : DbTimingGet2070) (waitForData writable : Bool) (phaseTiming : Mem Byte)
    (port : List Byte) (l : Locals) :
    (getTiming t waitForData writable phaseTiming port l).1
      = exchange (getTimingMess l.mess t) writable waitForData port l.readBuff l.msgbuf := by
  simp only [getTiming]
  split
  · split <;> rfl
  · rfl

/-- A reply that was read decides what the command returns. -/
theorem exchange_ret_of_heard {sent : Sent} {writable waitForData : Bool} {port : List Byte}
    {readBuff stack : Mem Byte} {heard : ReadResult}
    (h : (exchange sent writable waitForData port readBuff stack).heard = some heard) :
    (exchange sent writable waitForData port readBuff stack).ret
      = heard.ret.map fun ok => if ok then 0 else -1 := by
  revert h
  unfold exchange
  split
  · split
    · split
      · simp
      · intro h
        simp only [Option.some.injEq] at h
        rw [h]
    · simp
  · simp

/-- `get_timing` writes `*phase_timing` only when it returns `0`. -/
theorem getTiming_phaseTiming {t : DbTimingGet2070} {waitForData writable : Bool}
    {phaseTiming : Mem Byte} {port : List Byte} {l : Locals}
    (h : (getTiming t waitForData writable phaseTiming port l).1.ret ≠ some 0) :
    (getTiming t waitForData writable phaseTiming port l).2 = phaseTiming := by
  rw [getTiming_fst] at h
  simp only [getTiming]
  split
  · rename_i heard hheard
    split
    · rename_i htrue
      rw [exchange_ret_of_heard hheard, htrue] at h
      exact absurd rfl h
    · rfl
  · rfl

/-- **Requests and replies, exactly.**  Each of the four commands takes only a frame
of its own message type for success, and `get_timing` leaves `*phase_timing` alone
otherwise, exactly when the stream offers the command no frame of another type
while it waits. -/
theorem commands_match_iff (getReq : DbTimingGet2070) (setReq : DbTimingSet2070)
    (poverlapSetRequest phaseTiming : Mem Byte) (readBuff : Option (Mem Byte)) (fpout : Int)
    (waitForData writable : Bool) (port : List Byte) (l : Locals) :
    (((getTiming getReq waitForData writable phaseTiming port l).1.Matches 0xc9 ∧
        ((getTiming getReq waitForData writable phaseTiming port l).1.ret ≠ some 0 →
          (getTiming getReq waitForData writable phaseTiming port l).2 = phaseTiming)) ↔
        (writable = true → waitForData = true → OffersOnly port 0xc9)) ∧
      ((setTiming setReq writable port l).Matches 0xd9 ↔
        (writable = true → OffersOnly port 0xd9)) ∧
      ((setOverlap poverlapSetRequest writable port l).Matches 0xd6 ↔
        (writable = true → OffersOnly port 0xd6)) ∧
      ((getShortStatus waitForData readBuff fpout writable port l).Matches 0xc4 ↔
        (0 < fpout → writable = true → waitForData = true → readBuff.isSome = true →
          OffersOnly port 0xc4)) := by
  refine ⟨?_, ?_, ?_, ?_⟩
  · have hsilent : (getTiming getReq waitForData writable phaseTiming port l).1.ret ≠ some 0 →
        (getTiming getReq waitForData writable phaseTiming port l).2 = phaseTiming :=
      getTiming_phaseTiming
    rw [and_iff_left hsilent, getTiming_fst]
    exact exchange_matches_iff _ _ _ _ _ _ (by decide) (by decide)
  · rw [setTiming, exchange_matches_iff _ _ _ _ _ _ (by decide) (by decide)]
    simp
  · rw [setOverlap, exchange_matches_iff _ _ _ _ _ _ (by decide) (by decide)]
    simp
  · by_cases hfpout : fpout ≤ 0
    · simp [getShortStatus, hfpout, Exchange.Matches, not_lt.mpr hfpout]
    · rw [getShortStatus, if_neg hfpout,
        exchange_matches_iff _ _ _ _ _ _ (by decide) (by decide)]
      simp [not_le.mp hfpout]

/-- The reply `0xe9`, with which the controller refuses the request. -/
def timingRefused : List Byte := [0x05, 0x13, 0xc0, 0xe9, 0x01, 0x02, 0x03, 0x04]

/-- `get_timing` takes a refusal for success and copies what stands in it over the
caller's timing. -/
theorem getTiming_accepts_refusal :
    (getTiming ⟨1, 0x100⟩ true true (Mem.ofList 0 []) (hdlcFrame timingRefused)
        ⟨Mem.ofList 0 [], Mem.ofList 0 [], Mem.ofList 0 []⟩).1.ret = some 0 ∧
      (getTiming ⟨1, 0x100⟩ true true (Mem.ofList 0 []) (hdlcFrame timingRefused)
        ⟨Mem.ofList 0 [], Mem.ofList 0 [], Mem.ofList 0 []⟩).2.cell 0 = 0x04 ∧
      ¬ (getTiming ⟨1, 0x100⟩ true true (Mem.ofList 0 []) (hdlcFrame timingRefused)
        ⟨Mem.ofList 0 [], Mem.ofList 0 [], Mem.ofList 0 []⟩).1.Matches 0xc9 := by
  refine ⟨by decide +kernel, by decide +kernel, ?_⟩
  rw [getTiming_fst, exchange_matches_iff _ _ _ _ _ _ (by decide) (by decide)]
  intro honly
  have haccepts := @accepts_hdlcFrame 0x05 timingRefused.tail (by decide) (by decide) []
  rw [List.append_nil] at haccepts
  exact absurd (honly rfl rfl _ _ _ haccepts) (by decide)

end RfsAtsc
