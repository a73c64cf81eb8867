import RfsAtsc.SerialReader

/-!
# The status poll over UDP

`get_status_udp` receives a datagram into the caller's message and hands the same
message to `ser_driver_read_udp`.  The reader looks for an opening flag and finds
the datagram's own, so that it never reads, unescapes or checks anything; only a
datagram that does not start with the flag sends it to the socket for more.
-/

namespace RfsAtsc

open TracedMemory ByteStuffing

/-! ## The verdict of `ser_driver_read_udp` -/

/-- The port spells a message the UDP reader accepts.  Over signed bytes the check
starts from a value that depends on its last two bytes. -/
def UdpAccepts (port : List Byte) : Prop :=
  ∃ x content rest front a b, Spells port x content (0x7e :: rest) ∧ content.length ≤ 94 ∧
    x :: content = front ++ [a, b] ∧ pppfcs (oldfcsUdp a b) content = PPPGOODFCS

/-- A message that starts with the flag is taken as it is. -/
theorem serDriverReadUdp_flagged {m : Mem Byte} (h : m.cell 0 = 0x7e) (port : List Byte) :
    serDriverReadUdp port m = ⟨some true, m, port⟩ := by
  rw [serDriverReadUdp, if_neg (not_not.mpr h)]

/-- Over signed bytes the low byte of the starting value is all ones. -/
theorem lowByte_oldfcsUdp (a b : Byte) : TableCrc.lowByte (oldfcsUdp a b) = 0xff := by
  apply BitVec.eq_of_getLsbD_eq
  intro k hk
  simp only [TableCrc.lowByte, oldfcsUdp, BitVec.getLsbD_setWidth, BitVec.getLsbD_or,
    BitVec.getLsbD_not, BitVec.getLsbD_shiftLeft]
  have hones : (0xff : Byte).getLsbD k = true := by
    have hall : (0xff : Byte) = BitVec.allOnes 8 := by decide
    rw [hall, BitVec.getLsbD_allOnes]
    simpa using hk
  rw [hones]
  simp [hk, show k < 16 by omega, show k < 32 by omega]

theorem list_last_two (x : Byte) {content : List Byte} (h : content ≠ []) :
    ∃ front a b, x :: content = front ++ [a, b] := by
  obtain ⟨init, b, rfl⟩ := (List.eq_nil_or_concat' content).resolve_left h
  rcases List.eq_nil_or_concat' init with rfl | ⟨front, a, rfl⟩
  · exact ⟨[], x, b, rfl⟩
  · exact ⟨x :: front, a, b, by simp⟩

theorem last_two_unique {front front' : List Byte} {a b a' b' : Byte}
    (h : front ++ [a, b] = front' ++ [a', b']) : a = a' ∧ b = b' := by
  have hsame := (List.append_inj' h rfl).2
  simpa only [List.cons.injEq, and_true] using hsame

/-- The last two bytes of a message, where the buffer holds it. -/
theorem last_two_cells {m : Mem Byte} {content front : List Byte} {x a b : Byte}
    (hheld : m.Holds 0 (x :: content)) (hsplit : x :: content = front ++ [a, b]) :
    m.cell ((content.length + 1 : Nat) - 2) = a ∧ m.cell ((content.length + 1 : Nat) - 1) = b := by
  have hlengths := congrArg List.length hsplit
  simp only [List.length_cons, List.length_append, List.length_nil] at hlengths
  have haddr : (0 : Int) + front.length = (content.length + 1 : Nat) - 2 := by omega
  have hnext : ((content.length + 1 : Nat) : Int) - 2 + 1 = (content.length + 1 : Nat) - 1 := by
    ring
  rw [hsplit, Mem.holds_append, haddr] at hheld
  obtain ⟨-, hfirst, hsecond, -⟩ := hheld
  rw [hnext] at hsecond
  exact ⟨hfirst, hsecond⟩

variable {port content rest : List Byte} {x : Byte}

/-- A message in time for its closing flag: TRUE when its check is good. -/
theorem serDriverReadUdp_flag {m : Mem Byte} (hm : m.cell 0 ≠ 0x7e)
    (h : Spells port x content (0x7e :: rest)) (hlen : content.length ≤ 94) :
    (serDriverReadUdp port m).ret = some true ↔
      ∃ front a b, x :: content = front ++ [a, b] ∧
        pppfcs (oldfcsUdp a b) content = PPPGOODFCS := by
  obtain ⟨m', hread, hheld, -⟩ := readMessage_flag h hlen m
  have hfcs := newfcs_of_holds oldfcsUdp (p := ⟨.flag, m', content.length + 1, rest⟩) rfl hheld
  have hret : (serDriverReadUdp port m).ret = some true ↔
      pppfcs (oldfcsUdp (m'.cell ((content.length + 1 : Nat) - 2))
        (m'.cell ((content.length + 1 : Nat) - 1))) content = PPPGOODFCS := by
    unfold serDriverReadUdp
    simp only [if_pos hm, hread, hfcs]
    split
    · rename_i hbad
      exact iff_of_false (by simp) hbad
    · rename_i hgood
      exact iff_of_true rfl (not_not.mp hgood)
  rw [hret]
  by_cases hnil : content = []
  · subst hnil
    refine iff_of_false ?_ ?_
    · intro hgood
      have hlow := congrArg TableCrc.lowByte hgood
      rw [show pppfcs _ [] = _ from TableCrc.run_nil _ _, lowByte_oldfcsUdp] at hlow
      exact absurd hlow (by decide)
    · intro hends
      obtain ⟨front, a, b, hsplit, -⟩ := hends
      have hlengths := congrArg List.length hsplit
      simp at hlengths
  · obtain ⟨front, a, b, hsplit⟩ := list_last_two x hnil
    rw [List.cons_append, Mem.holds_cons, Mem.holds_append] at hheld
    have hlast := last_two_cells ⟨hheld.1, hheld.2.1⟩ hsplit
    rw [hlast.1, hlast.2]
    constructor
    · intro hgood
      exact ⟨front, a, b, hsplit, hgood⟩
    · intro hends
      obtain ⟨front', a', b', hsplit', hgood⟩ := hends
      obtain ⟨rfl, rfl⟩ := last_two_unique (hsplit.symm.trans hsplit')
      exact hgood

/-- A message that ends in an error, or never. -/
private theorem serDriverReadUdp_error {m m' : Mem Byte} {i : Nat} {e : LoopEnd}
    (hm : m.cell 0 ≠ 0x7e) (hread : readMessage port m = ⟨e, m', i, rest⟩) (hflag : e ≠ .flag) :
    (serDriverReadUdp port m).ret ≠ some true := by
  unfold serDriverReadUdp
  simp only [if_pos hm, hread]
  split
  · exact absurd rfl hflag
  · simp
  · simp

/-- **What `ser_driver_read_udp` accepts** once it reads at all. -/
theorem serDriverReadUdp_true_iff {m : Mem Byte} (hm : m.cell 0 ≠ 0x7e) (port : List Byte) :
    (serDriverReadUdp port m).ret = some true ↔ UdpAccepts port := by
  constructor
  · intro hret
    rcases port_cases port with hshort | ⟨x, content, tail, hspells, hend⟩
    · obtain ⟨m', hread⟩ := readMessage_short hshort m
      exact absurd hret (serDriverReadUdp_error hm hread (by decide))
    · rcases hend with hfull | ⟨hlen, rfl | rfl | ⟨rest, rfl⟩ | ⟨z, rest, rfl, hflag, hesc⟩⟩
      · cases tail with
        | nil =>
            obtain ⟨m', hread⟩ := readMessage_silent hspells hfull.le m
            exact absurd hret (serDriverReadUdp_error hm hread (by decide))
        | cons b rest =>
            obtain ⟨m', hread⟩ := readMessage_tooLong hspells hfull m
            exact absurd hret (serDriverReadUdp_error hm hread (by decide))
      · obtain ⟨m', hread⟩ := readMessage_silent hspells hlen.le m
        exact absurd hret (serDriverReadUdp_error hm hread (by decide))
      · obtain ⟨m', hread⟩ := readMessage_blocked hspells (by omega) m
        exact absurd hret (serDriverReadUdp_error hm hread (by decide))
      · obtain ⟨front, a, b, hsplit, hgood⟩ :=
          (serDriverReadUdp_flag hm hspells (by omega)).mp hret
        exact ⟨x, content, rest, front, a, b, hspells, by omega, hsplit, hgood⟩
      · obtain ⟨m', hread⟩ := readMessage_illegal hspells (by omega) hflag hesc m
        exact absurd hret (serDriverReadUdp_error hm hread (by decide))
  · intro haccepts
    obtain ⟨x, content, rest, front, a, b, hspells, hlen, hsplit, hgood⟩ := haccepts
    exact (serDriverReadUdp_flag hm hspells hlen).mpr ⟨front, a, b, hsplit, hgood⟩

/-! ## `get_status_udp` -/

/-- `sizeof(get_long_status8_resp_mess_typ)`. -/
def sizeofGetLongStatus8Resp : Nat := 40

/-- `get_status_udp` with a message to receive into: what it returns, `none` if it
waits for ever, and the message.  The socket hands over one datagram, `none` if the
`select` in front of it times out, and then the bytes of the `read`s that may
follow. -/
def getStatusUdp (waitForData : Bool) (readBuff : Mem Byte) (fpout : Int) (writable : Bool)
    (datagram : Option (List Byte)) (later : List Byte) : Option Int × Mem Byte :=
  if fpout ≤ 0 then (some (-1), readBuff)
  else if writable then
    if waitForData then
      match datagram with
      | none => (some (-2), readBuff)
      | some d =>
          let received := d.take sizeofGetLongStatus8Resp
          let bytesRecd := received.length
          let read := serDriverReadUdp later (readBuff.write 0 received)
          (read.ret.map fun ok => if ok then (bytesRecd : Int) else -1, read.messagebuff)
    else (some 0, readBuff)
  else (some (-3), readBuff)

/-- What integrity asks of a datagram: an opening flag, a closing
flag, and between them a stuffed message with a good check. -/
def GoodDatagram (d : List Byte) : Prop :=
  ∃ inner content, d = 0x7e :: inner ++ [0x7e] ∧ unstuff hdlc inner = some content ∧
    checkModframeString content = PPPGOODFCS

/-- A datagram is accepted, by a return that is not negative, only if it is
good. -/
def AcceptsOnlyGood (ret : Option Int) (d : List Byte) : Prop :=
  ∀ n, ret = some n → 0 ≤ n → GoodDatagram d

/-- The first byte of the message once the datagram is in. -/
def firstByte (readBuff : Mem Byte) (d : List Byte) : Byte := d.head?.getD (readBuff.cell 0)

theorem write_datagram_first (readBuff : Mem Byte) (d : List Byte) :
    (readBuff.write 0 (d.take sizeofGetLongStatus8Resp)).cell 0 = firstByte readBuff d := by
  cases d with
  | nil => rfl
  | cons b d => exact (readBuff.write_holds 0 ((b :: d).take sizeofGetLongStatus8Resp)).1

/-- A datagram is accepted exactly when the reader returns TRUE. -/
theorem getStatusUdp_accepts_iff {readBuff : Mem Byte} {fpout : Int} {d later : List Byte}
    (hfpout : 0 < fpout) :
    (∃ n, (getStatusUdp true readBuff fpout true (some d) later).1 = some n ∧ 0 ≤ n) ↔
      (serDriverReadUdp later
        (readBuff.write 0 (d.take sizeofGetLongStatus8Resp))).ret = some true := by
  rw [getStatusUdp, if_neg (not_le.mpr hfpout)]
  simp only [if_true]
  cases (serDriverReadUdp later (readBuff.write 0 (d.take sizeofGetLongStatus8Resp))).ret with
  | none => simp
  | some ok =>
      cases ok with
      | true => simp
      | false => simp

/-- **Integrity, exactly.**  While it waits for data, `get_status_udp` accepts only
good datagrams exactly when the datagram is good, or it does not start with a flag
and what the socket delivers next spells no message the reader accepts. -/
theorem getStatusUdp_integrity_iff (readBuff : Mem Byte) (fpout : Int) (writable : Bool)
    (d later : List Byte) :
    AcceptsOnlyGood (getStatusUdp true readBuff fpout writable (some d) later).1 d ↔
      (0 < fpout → writable = true →
        GoodDatagram d ∨ firstByte readBuff d ≠ 0x7e ∧ ¬ UdpAccepts later) := by
  by_cases hfpout : fpout ≤ 0
  · rw [getStatusUdp, if_pos hfpout]
    refine iff_of_true ?_ (fun hpos => absurd hpos (not_lt.mpr hfpout))
    intro n hn hpos
    rw [Option.some.injEq] at hn
    omega
  · cases writable with
    | false =>
        rw [getStatusUdp, if_neg hfpout]
        refine iff_of_true ?_ (by simp)
        intro n hn hpos
        simp at hn
        omega
    | true =>
        have hopen : 0 < fpout := not_le.mp hfpout
        have haccepts := @getStatusUdp_accepts_iff readBuff fpout d later hopen
        have hread : (serDriverReadUdp later
            (readBuff.write 0 (d.take sizeofGetLongStatus8Resp))).ret = some true ↔
              firstByte readBuff d = 0x7e ∨ UdpAccepts later := by
          by_cases hfirst : firstByte readBuff d = 0x7e
          · rw [serDriverReadUdp_flagged ((write_datagram_first readBuff d).trans hfirst)]
            simp [hfirst]
          · rw [serDriverReadUdp_true_iff (by rw [write_datagram_first]; exact hfirst)]
            exact (or_iff_right hfirst).symm
        rw [hread] at haccepts
        constructor
        · intro honly _ _
          by_contra hbad
          rw [not_or] at hbad
          have htrue : firstByte readBuff d = 0x7e ∨ UdpAccepts later := by
            by_contra hnone
            rw [not_or] at hnone
            exact hbad.2 hnone
          obtain ⟨n, hn, hpos⟩ := haccepts.mpr htrue
          exact hbad.1 (honly n hn hpos)
        · intro hcond n hn hpos
          have htrue := haccepts.mp ⟨n, hn, hpos⟩
          rcases hcond hopen rfl with hgood | ⟨hfirst, hnone⟩
          · exact hgood
          · exact absurd htrue (by rw [not_or]; exact ⟨hfirst, hnone⟩)

/-- A datagram cut off behind its opening flag is accepted as a status. -/
theorem truncated_datagram_accepted :
    (getStatusUdp true (Mem.ofList 0 []) 3 true (some [0x7e, 0x05, 0x13]) []).1 = some 3 ∧
      ¬ GoodDatagram [0x7e, 0x05, 0x13] ∧
      ¬ AcceptsOnlyGood
        (getStatusUdp true (Mem.ofList 0 []) 3 true (some [0x7e, 0x05, 0x13]) []).1
        [0x7e, 0x05, 0x13] := by
  have hret : (getStatusUdp true (Mem.ofList 0 []) 3 true (some [0x7e, 0x05, 0x13]) []).1
      = some 3 := by
    decide +kernel
  have hbad : ¬ GoodDatagram [0x7e, 0x05, 0x13] := by
    intro hgood
    obtain ⟨inner, content, hsplit, -, -⟩ := hgood
    have hlast := congrArg List.getLast? hsplit
    rw [List.getLast?_concat] at hlast
    exact absurd hlast (by decide)
  exact ⟨hret, hbad, fun honly => hbad (honly 3 hret (by decide))⟩

end RfsAtsc
