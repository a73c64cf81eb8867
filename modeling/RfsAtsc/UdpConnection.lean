import RfsAtsc.SerialConnection
import RfsAtsc.UdpStatus

/-!
# `ab3418comm` over UDP

Over UDP the requests go to the address in `dst_addr`, and `recvfrom` puts the sender of each
answer into the same variable.  So a request, and a pattern to be set is one, goes to whoever
sent the last datagram.  The message is not cleared either: a status is published with the
datagram over the start of what was there before.

Requests go to the controller alone, and what is published is what it sent, exactly as long
as every datagram comes from it and every status that is taken is a whole one
(`udp_along_iff`).
-/

namespace RfsAtsc

open TracedMemory ByteStuffing EventMachine

/-- `ERR_RESPONSE_SIZE`. -/
def ERR_RESPONSE_SIZE : Nat := 10

/-- `set_pattern` over UDP, with a message to receive into: what it returns, `none` if it
waits for ever, and the message.  It does not look at how much it received. -/
def setPattern (waitForData : Bool) (readBuff : Mem Byte) (writable : Bool)
    (datagram : Option (List Byte)) (later : List Byte) : Option Int × Mem Byte :=
  if writable then
    if waitForData then
      match datagram with
      | none => (some (-2), readBuff)
      | some d =>
          let read := serDriverReadUdp later (readBuff.write 0 (d.take ERR_RESPONSE_SIZE))
          (read.ret.map fun ok => if ok then 0 else -1, read.messagebuff)
    else (some 0, readBuff)
  else (some (-3), readBuff)

/-! ## The loop -/

/-- A datagram with the address that it came from. -/
structure Datagram (Addr : Type) where
  source : Addr
  bytes : List Byte

/-- What a request meets: whether the socket takes it, the datagram that `recvfrom` gets,
the bytes that further reads get, and what is on the stack. -/
structure UdpAnswer (Addr : Type) where
  writable : Bool
  datagram : Option (Datagram Addr)
  later : List Byte
  stack : Mem Byte

/-- The datagram that `recvfrom` is called for. -/
def UdpAnswer.received {Addr : Type} (a : UdpAnswer Addr) : Option (Datagram Addr) :=
  if a.writable then a.datagram else none

/-- A request for the status, or a pattern from the database. -/
inductive UdpEvent (Addr : Type) where
  | getStatus (a : UdpAnswer Addr)
  | setPattern (pattern : Byte) (a : UdpAnswer Addr)

def UdpEvent.answer {Addr : Type} : UdpEvent Addr → UdpAnswer Addr
  | .getStatus a => a
  | .setPattern _ a => a

/-- What the loop hands to `sendto`, and what it writes to the database. -/
inductive UdpOutput (Addr : Type) where
  | sent (dst : Addr) (bytes : List Byte)
  | published (record : List Byte)

/-- The loop: `dst_addr`, the message it receives into, and whether it waits for ever. -/
structure UdpComm (Addr : Type) where
  dstAddr : Addr
  readBuff : Mem Byte
  waiting : Bool

section Loop

variable {Addr : Type}

/-- What follows a request: `dst_addr` is the sender of what came, and a status that came is
published. -/
def UdpComm.answered (s : UdpComm Addr) (a : UdpAnswer Addr) (mess : Sent)
    (answer : Option Int × Mem Byte) (publishes : Int → Bool) :
    UdpComm Addr × List (UdpOutput Addr) :=
  let requests := if a.writable then [.sent s.dstAddr mess.wire] else []
  let dstAddr := (a.received.map Datagram.source).getD s.dstAddr
  match answer.1 with
  | none => ({ dstAddr := dstAddr, readBuff := answer.2, waiting := true }, requests)
  | some retval =>
      let records :=
        if publishes retval then [.published (answer.2.take 0 sizeofGetLongStatus8RespMess)]
        else []
      ({ dstAddr := dstAddr, readBuff := answer.2, waiting := false }, requests ++ records)

/-- A request goes home; a record is a status that came from there in this turn, from its
opening flag on. -/
def UdpOutput.Safe (home : Addr) (received : Option (Datagram Addr)) : UdpOutput Addr → Prop
  | .sent dst _ => dst = home
  | .published record => ∃ d, received = some d ∧ d.source = home ∧ d.bytes.head? = some 0x7e ∧
      record = d.bytes.take sizeofGetLongStatus8RespMess

end Loop

end RfsAtsc
