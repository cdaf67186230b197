import Tqsim.Common.Run
import Tqsim.Common.Spsc

/-!
# The packet buffer

`packet_buffer.c`, and `comm_send` and `comm_recv` of `hsim_comm.c` in the
mode of shared memory. One process sends and the other receives, each with
its own program counter; a step is a test of `pb_is_full` or `pb_is_empty`,
the copy of one byte of a packet, or the update of an index.
-/

namespace Tqsim

namespace Hsim

/-- `PKT_BUFFER_SIZE`. -/
def pktBufferSize : ℕ := 0x1000

/-- `sizeof(Packet)`. -/
def sizeofPacket : ℕ := 32

/-- A packet in memory. -/
abbrev RawPacket := Fin sizeofPacket → UInt8

/-- `PacketBuffer`. -/
structure PacketBuffer where
  start : ℕ
  endIdx : ℕ
  elems : ℕ → RawPacket

/-- `pb_init`, of memory that holds anything. -/
def pbInit (elems : ℕ → RawPacket) : PacketBuffer := ⟨0, 0, elems⟩

/-- `pb_is_full`. -/
def pbIsFull (pb : PacketBuffer) : Bool := (pb.endIdx + 1) % pktBufferSize == pb.start

/-- `pb_is_empty`. -/
def pbIsEmpty (pb : PacketBuffer) : Bool := pb.endIdx == pb.start

/-- One byte of the `memcpy` in `pb_write`. -/
def pbWriteByte (pb : PacketBuffer) (elem : RawPacket) (i : Fin sizeofPacket) : PacketBuffer :=
  { pb with
    elems := Function.update pb.elems pb.endIdx
      (Function.update (pb.elems pb.endIdx) i (elem i)) }

/-- The end of `pb_write`. -/
def pbAdvanceEnd (pb : PacketBuffer) : PacketBuffer :=
  { pb with endIdx := (pb.endIdx + 1) % pktBufferSize }

/-- One byte of the `memcpy` in `pb_read`. -/
def pbReadByte (pb : PacketBuffer) (elem : RawPacket) (i : Fin sizeofPacket) : RawPacket :=
  Function.update elem i (pb.elems pb.start i)

/-- The end of `pb_read`. -/
def pbAdvanceStart (pb : PacketBuffer) : PacketBuffer :=
  { pb with start := (pb.start + 1) % pktBufferSize }

/-- Where a process is in `comm_send` or `comm_recv`, with the packet it points
to. -/
inductive CommLoc where
  | idle
  /-- At `while (pb_is_full(sendBuffer))`, or `while (pb_is_empty(recvBuffer))`. -/
  | waiting (packet : RawPacket)
  /-- In `memcpy`, or past it. -/
  | copying (packet : RawPacket) (copied : ℕ)

/-- A buffer with the process that sends and the one that receives. The packets
sent and received are no variables of the source. -/
structure Channel where
  pb : PacketBuffer
  sender : CommLoc
  receiver : CommLoc
  sent : List RawPacket
  received : List RawPacket

namespace Channel

/-- A step of `comm_send`. -/
def commSendStep (c : Channel) : Option Channel :=
  match c.sender with
  | .idle => none
  | .waiting packet =>
    if pbIsFull c.pb then some c else some { c with sender := .copying packet 0 }
  | .copying packet k =>
    if h : k < sizeofPacket then
      some { c with pb := pbWriteByte c.pb packet ⟨k, h⟩, sender := .copying packet (k + 1) }
    else
      some { c with pb := pbAdvanceEnd c.pb, sender := .idle, sent := c.sent ++ [packet] }

/-- A step of `comm_recv`. -/
def commRecvStep (c : Channel) : Option Channel :=
  match c.receiver with
  | .idle => none
  | .waiting packet =>
    if pbIsEmpty c.pb then some c else some { c with receiver := .copying packet 0 }
  | .copying packet k =>
    if h : k < sizeofPacket then
      some { c with receiver := .copying (pbReadByte c.pb packet ⟨k, h⟩) (k + 1) }
    else
      some { c with
        pb := pbAdvanceStart c.pb, receiver := .idle, received := c.received ++ [packet] }

/-- Before the first call of either process. -/
def initial (elems : ℕ → RawPacket) : Channel := ⟨pbInit elems, .idle, .idle, [], []⟩

end Channel

/-- Who takes a step. -/
inductive CommMove where
  /-- `comm_send` is called with a packet. -/
  | commSend (packet : RawPacket)
  | sender
  /-- `comm_recv` is called with a packet to be overwritten. -/
  | commRecv (packet : RawPacket)
  | receiver

def Channel.step (c : Channel) : CommMove → Option Channel
  | .commSend packet => match c.sender with
    | .idle => some { c with sender := .waiting packet }
    | _ => none
  | .sender => c.commSendStep
  | .commRecv packet => match c.receiver with
    | .idle => some { c with receiver := .waiting packet }
    | _ => none
  | .receiver => c.commRecvStep

end Hsim

end Tqsim
