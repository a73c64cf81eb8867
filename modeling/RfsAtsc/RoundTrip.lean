import RfsAtsc.SerialReader

/-!
# The round trip of a message

A message framed by `fcs_hdlc` and read back by `ser_driver_read`.  The reader
undoes every whole frame; the round trip therefore holds exactly for the bodies
`fcs_hdlc` stuffs as it should (`roundTrip_iff`).
-/

namespace RfsAtsc

open TracedMemory ByteStuffing

theorem stuff_address {addr : Byte} (h : hdlc.Plain addr) (body : List Byte) :
    stuff hdlc (addr :: body) = addr :: stuff hdlc body := by
  rw [stuff_cons, stuffByte_plain hdlc h]
  rfl

/-- With a plain address the frame of a message spells the message. -/
theorem spells_stuffed {addr : Byte} (h : hdlc.Plain addr) (opening : Byte)
    (content tail : List Byte) :
    Spells (opening :: stuff hdlc (addr :: content) ++ tail) opening (addr :: content) tail := by
  rw [stuff_address h]
  exact Spells.of_lead_ne h.1 content

/-- With a plain address the frame of a message is accepted, whatever follows
it. -/
theorem accepts_hdlcFrame {addr : Byte} {body : List Byte} (h : hdlc.Plain addr)
    (hlen : (addr :: body).length ≤ 92) (rest : List Byte) :
    Accepts (hdlcFrame (addr :: body) ++ rest) 0x7e (withFcs (addr :: body)) rest := by
  refine ⟨?_, ?_, checkModframeString_withFcs _⟩
  · rw [hdlcFrame, List.append_assoc]
    exact spells_stuffed h 0x7e _ _
  · rw [withFcs_length]
    omega

/-- The round trip: `fcs_hdlc` keeps to the 200 bytes of the message, and what it
leaves, up to and including the closing flag, is read back as a flag and exactly
the body and its check. -/
def RoundTrip (body : List Byte) (msgbuf messagebuff stack : Mem Byte) : Prop :=
  let sent := fcsHdlc body.length msgbuf
  let heard := serDriverRead (frameBytes sent) messagebuff stack
  (∀ a ∈ sent.mess.stored, 0 ≤ a ∧ a < 200) ∧
    heard.ret = some true ∧ heard.messagebuff.Holds 0 (messageData 0x7e (withFcs body))

theorem roundTrip_of_stuffable {addr : Byte} {body : List Byte} {msgbuf : Mem Byte}
    (haddr : hdlc.Plain addr) (hlen : (addr :: body).length ≤ 92)
    (h : Ready msgbuf (addr :: body)) (hstuff : Stuffable (addr :: body))
    (messagebuff stack : Mem Byte) : RoundTrip (addr :: body) msgbuf messagebuff stack := by
  obtain ⟨hframe, hstored⟩ := fcsHdlc_stuffable h hstuff
  have hread := (accepts_hdlcFrame haddr hlen []).reads messagebuff stack
  rw [List.append_nil, ← hframe] at hread
  refine ⟨?_, hread.1, hread.2.2⟩
  · intro a ha
    have hbound := hstored a ha
    have htwice := stuff_length_le hdlc (withFcs (addr :: body))
    have hsize := congrArg List.length hframe
    rw [frameBytes, Mem.take_length, hdlcFrame_length] at hsize
    rw [withFcs_length] at htwice
    omega

theorem not_roundTrip_of_not_stuffable {addr : Byte} {body : List Byte} {msgbuf : Mem Byte}
    (haddr : hdlc.Plain addr) (hlen : (addr :: body).length ≤ 92)
    (h : Ready msgbuf (addr :: body)) (hstuff : ¬ Stuffable (addr :: body))
    (messagebuff stack : Mem Byte) : ¬ RoundTrip (addr :: body) msgbuf messagebuff stack := by
  rw [List.length_cons] at hlen
  intro htrip
  obtain ⟨-, hret, -⟩ := htrip
  rcases fcsHdlc_not_stuffable h haddr.2 hstuff with
    ⟨p, z, behind, hp, hflag, hesc, hframe⟩ | ⟨hne, hframe⟩
  · rw [hframe, serDriverRead_illegal (spells_stuffed haddr 0x7e p _)
      (by simp only [List.length_cons]; omega) hflag hesc] at hret
    exact absurd hret (by simp)
  · have hspells : Spells
        (0x7e :: stuff hdlc (addr :: body ++ [fcsHigh (addr :: body), fcsHigh (addr :: body)])
          ++ [0x7e]) 0x7e
        (addr :: body ++ [fcsHigh (addr :: body), fcsHigh (addr :: body)]) [0x7e] :=
      spells_stuffed haddr 0x7e _ _
    have hread := (serDriverRead_flag hspells (by simp; omega) messagebuff stack).1
    rw [hframe, hread] at hret
    have hgood : checkModframeString
        (addr :: body ++ [fcsHigh (addr :: body), fcsHigh (addr :: body)]) = PPPGOODFCS := by
      simpa using hret
    rw [checkModframeString_pair, fcsBytes_eq] at hgood
    exact hne (List.cons.inj hgood).1.symm

/-- **The round trip, exactly.**  A message of 1 to 92 bytes whose address is
plain survives framing and reading exactly when every escape in it is the first
byte of its check, or its last byte in front of two equal bytes of check. -/
theorem roundTrip_iff (addr : Byte) (body : List Byte) (msgbuf messagebuff stack : Mem Byte)
    (haddr : hdlc.Plain addr) (hlen : (addr :: body).length ≤ 92)
    (h : Ready msgbuf (addr :: body)) :
    RoundTrip (addr :: body) msgbuf messagebuff stack ↔ Stuffable (addr :: body) := by
  constructor
  · intro htrip
    by_contra hstuff
    exact not_roundTrip_of_not_stuffable haddr hlen h hstuff messagebuff stack htrip
  · intro hstuff
    exact roundTrip_of_stuffable haddr hlen h hstuff messagebuff stack

/-- A body with a flag in it makes the round trip. -/
theorem roundTrip_iff_flag_inside :
    RoundTrip [0x05, 0x7e, 0x01] (Mem.ofList 0 [0x7e, 0x05, 0x7e, 0x01]) (Mem.ofList 0 [])
      (Mem.ofList 0 []) :=
  (roundTrip_iff 0x05 [0x7e, 0x01] (Mem.ofList 0 [0x7e, 0x05, 0x7e, 0x01]) (Mem.ofList 0 [])
    (Mem.ofList 0 []) (by decide) (by decide) ⟨Mem.ofList_holds 0 _, rfl⟩).mpr
    (by decide +kernel)

/-- An escape in front of the last byte of a body: the frame is left with two raw
escapes, and the reader returns FALSE. -/
theorem inner_escape_lost :
    hdlc.Plain 0x05 ∧ Ready (Mem.ofList 0 [0x7e, 0x05, 0x7d, 0x00]) [0x05, 0x7d, 0x00] ∧
      (serDriverRead (frameBytes (fcsHdlc 3 (Mem.ofList 0 [0x7e, 0x05, 0x7d, 0x00])))
        (Mem.ofList 0 []) (Mem.ofList 0 [])).ret = some false ∧
      ¬ RoundTrip [0x05, 0x7d, 0x00] (Mem.ofList 0 [0x7e, 0x05, 0x7d, 0x00])
        (Mem.ofList 0 []) (Mem.ofList 0 []) := by
  have hread : (serDriverRead (frameBytes (fcsHdlc 3 (Mem.ofList 0 [0x7e, 0x05, 0x7d, 0x00])))
      (Mem.ofList 0 []) (Mem.ofList 0 [])).ret = some false := by
    decide +kernel
  refine ⟨by decide, ⟨Mem.ofList_holds 0 _, rfl⟩, hread, ?_⟩
  intro htrip
  obtain ⟨-, htrue, -⟩ := htrip
  exact absurd (hread.symm.trans htrue) (by decide)

end RfsAtsc
