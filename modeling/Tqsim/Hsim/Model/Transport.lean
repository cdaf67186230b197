import Mathlib.Algebra.BigOperators.Group.Finset.Basic
import Tqsim.Hsim.Model.PacketBuffer
import Tqsim.Hsim.Model.Packet

/-!
# Packets over a pipe or a socket

`comm_send` and `comm_recv` of `hsim_comm.c` in these modes: loops around
`write` and `read`, which transfer as many bytes as they return. Addresses
are counted from the first byte of the packet on, so that the byte before it
has the address `-1`. A turn of a loop is described by what the call in it
returned, and fails where the loop has ended or the call cannot return that.
-/

namespace Tqsim

namespace Hsim

/-! ## A packet in memory -/

/-- The number in the first `n` bytes, least byte first. -/
def ofBytes (n : ℕ) (b : Bytes) : ℕ := ∑ i ∈ Finset.range n, (b i).toNat * 256 ^ i

/-- The packet types in the order of the enumeration. -/
def PacketType.all : List PacketType := [.read, .write, .iread, .iwrite, .elapsed, .syscall]

/-- The number of a packet type. -/
def PacketType.code (t : PacketType) : ℕ := all.idxOf t

def PacketType.ofCode (code : ℕ) : Option PacketType := all[code]?

theorem sub_twenty_lt {i : ℕ} (h : 20 ≤ i ∧ i < 28) : i - 20 < 8 := by omega

/-- The bytes of a `Packet`: `type`, `size`, `cycle`, `address`, `data` and
`flags` at 0, 4, 8, 16, 20 and 28. -/
def Packet.toRaw (p : Packet) : RawPacket := fun i =>
  if i.val < 4 then bytesOf p.type.code i
  else if i.val < 8 then bytesOf p.size.toNat (i - 4)
  else if i.val < 16 then bytesOf p.cycle.toNat (i - 8)
  else if i.val < 20 then bytesOf p.address.toNat (i - 16)
  else if h : 20 ≤ i.val ∧ i.val < 28 then p.data ⟨i - 20, sub_twenty_lt h⟩
  else bytesOf p.flags.toNat (i - 28)

/-- The packet that bytes are, if they begin with a packet type. -/
def Packet.ofRaw (b : Bytes) : Option Packet :=
  (PacketType.ofCode (ofBytes 4 b)).map fun type =>
    { type := type
      size := UInt32.ofNat (ofBytes 4 fun i => b (4 + i))
      cycle := UInt64.ofNat (ofBytes 8 fun i => b (8 + i))
      address := UInt32.ofNat (ofBytes 4 fun i => b (16 + i))
      data := fun i => b (20 + i)
      flags := UInt32.ofNat (ofBytes 4 fun i => b (28 + i)) }

/-! ## Sending -/

/-- The variables of `comm_send`, and the addresses of the bytes that `write`
has transferred. -/
structure SendState where
  pPos : ℤ
  nLength : ℤ
  written : List ℤ
  deriving DecidableEq, Repr

/-- A number of addresses, from one on. -/
def addresses (first : ℤ) (n : ℕ) : List ℤ := (List.range n).map fun i : ℕ => first + i

def commSendStart : SendState := ⟨0, sizeofPacket, []⟩

/-- `while (nLength > 0)`: a turn in which `write` returns `nSend`. -/
def commSendTurn (s : SendState) (nSend : ℤ) : Option SendState :=
  if 0 < s.nLength ∧ (nSend = -1 ∨ 1 ≤ nSend ∧ nSend ≤ s.nLength) then
    some {
      pPos := s.pPos + nSend
      nLength := s.nLength - nSend
      written := s.written ++ addresses s.pPos nSend.toNat }
  else none

/-! ## Receiving -/

/-- The variables of `comm_recv`, the memory, and the bytes that have not been
read. -/
structure RecvState where
  pBuf : ℤ
  nLength : ℤ
  memory : ℤ → UInt8
  stream : List UInt8

def commRecvStart (memory : ℤ → UInt8) (stream : List UInt8) : RecvState :=
  ⟨0, sizeofPacket, memory, stream⟩

/-- What `read` does when it returns a number of bytes. -/
def RecvState.read (s : RecvState) (n : ℕ) : RecvState :=
  { s with
    memory := fun x =>
      if s.pBuf ≤ x ∧ x < s.pBuf + n then s.stream.getD (x - s.pBuf).toNat 0 else s.memory x
    stream := s.stream.drop n }

/-- `while (nLength > 0)`: a turn in which `read` returns `nRecv`. -/
def commRecvTurn (s : RecvState) (nRecv : ℤ) : Option RecvState :=
  if 0 < s.nLength ∧ (nRecv = -1 ∨ nRecv = 0 ∨
      1 ≤ nRecv ∧ nRecv ≤ s.nLength ∧ nRecv ≤ s.stream.length) then
    let s := s.read nRecv.toNat
    if nRecv > 0 then some { s with pBuf := s.pBuf + nRecv, nLength := s.nLength - nRecv }
    else some s
  else none

end Hsim

end Tqsim
