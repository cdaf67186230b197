import Tqsim.Common.Run
import Tqsim.Hsim.Model.Packet

/-!
# The buffer for bulk data

`spm_buffer.c`, and `comm_send_data` and `comm_recv_data` of `hsim_comm.c`:
a buffer in shared memory for one piece of data, whose size says whether
there is one. One process sends a sequence of pieces and the other receives
each with its own copy of the size. A step is a test of `sp_is_full` or
`sp_is_empty`, the copy, or the store to `size`.
-/

namespace Tqsim

namespace Hsim

/-- `SP_BUFFER_SIZE`. -/
def spBufferSize : ℕ := 0x1000

/-- `SPMBuffer`, with what follows the payload in memory. -/
structure SPMBuffer where
  size : UInt32
  payload : Bytes

/-- `sp_init`, of memory that holds anything. -/
def spInit (payload : Bytes) : SPMBuffer := ⟨0, payload⟩

/-- `sp_is_full`. -/
def spIsFull (sb : SPMBuffer) : Bool := decide (sb.size > 0)

/-- `sp_is_empty`. -/
def spIsEmpty (sb : SPMBuffer) : Bool := sb.size == 0

/-- The `memcpy` of `sp_write`. -/
def spCopyIn (sb : SPMBuffer) (data : Bytes) (size : UInt32) : SPMBuffer :=
  { sb with payload := memcpy sb.payload 0 data size.toNat }

/-- The `memcpy` of `sp_read`: the bytes it copies. -/
def spCopyOut (sb : SPMBuffer) (size : UInt32) : List UInt8 :=
  (List.range size.toNat).map sb.payload

/-- The end of `sp_write`, and with 0 of `sp_read`. -/
def spSetSize (sb : SPMBuffer) (size : UInt32) : SPMBuffer := { sb with size := size }

/-- The arguments of a call of `comm_send_data`. -/
structure BulkData where
  buf : Bytes
  size : UInt32

/-- The bytes to be sent. -/
def BulkData.bytes (m : BulkData) : List UInt8 := (List.range m.size.toNat).map m.buf

/-- Where a process is in a call. -/
inductive CallLoc (β : Type) where
  /-- At `while (sp_is_full(sharedBuffer))`, or `while (sp_is_empty(sharedBuffer))`. -/
  | waiting
  /-- Before `memcpy`. -/
  | copying
  /-- Before the store to `size`. -/
  | copied (data : β)

/-- The buffer with both processes, and what the calls that have returned did.
`reach` is no variable of the source: as many bytes have been accessed, from
the payload on. -/
structure Bulk where
  buffer : SPMBuffer
  sender : CallLoc Unit
  receiver : CallLoc (List UInt8)
  /-- The number of calls of `comm_send_data` that have returned. -/
  sent : ℕ
  /-- What the calls of `comm_recv_data` that have returned copied. -/
  received : List (List UInt8)
  reach : ℕ

namespace Bulk

variable (data : List BulkData)

/-- Before the first calls. -/
def initial (payload : Bytes) : Bulk := ⟨spInit payload, .waiting, .waiting, 0, [], 0⟩

/-- A step of `comm_send_data`, if there is a call to be made. -/
def sendStep (s : Bulk) : Option Bulk :=
  (data[s.sent]?).map fun m =>
    match s.sender with
    | .waiting => if spIsFull s.buffer then s else { s with sender := .copying }
    | .copying =>
      { s with
        buffer := spCopyIn s.buffer m.buf m.size
        sender := .copied ()
        reach := max s.reach m.size.toNat }
    | .copied _ =>
      { s with buffer := spSetSize s.buffer m.size, sender := .waiting, sent := s.sent + 1 }

/-- A step of `comm_recv_data`, if there is a call to be made. -/
def recvStep (s : Bulk) : Option Bulk :=
  (data[s.received.length]?).map fun m =>
    match s.receiver with
    | .waiting => if spIsEmpty s.buffer then s else { s with receiver := .copying }
    | .copying =>
      { s with
        receiver := .copied (spCopyOut s.buffer m.size)
        reach := max s.reach m.size.toNat }
    | .copied bytes =>
      { s with
        buffer := spSetSize s.buffer 0
        receiver := .waiting
        received := s.received ++ [bytes] }

end Bulk

/-- Who takes a step. -/
inductive BulkMove where
  | sender
  | receiver

def Bulk.step (data : List BulkData) (s : Bulk) : BulkMove → Option Bulk
  | .sender => s.sendStep data
  | .receiver => s.recvStep data

end Hsim

end Tqsim
