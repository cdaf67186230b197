import Mathlib.Data.Fintype.Pi

/-!
# Packets

`hsim_packet.h` and `hsim_syscall.h`: what TQSIM and the simulation kernel
send each other.
-/

namespace Tqsim

namespace Hsim

/-- Memory, from some address on. -/
abbrev Bytes := ℕ → UInt8

/-- `memcpy` of `n` bytes to the offset `off` of the destination. -/
def memcpy (dst : Bytes) (off : ℕ) (src : Bytes) (n : ℕ) : Bytes :=
  fun i => if off ≤ i ∧ i < off + n then src (i - off) else dst i

/-- A number in memory, least byte first. -/
def bytesOf (v : ℕ) : Bytes := fun i => UInt8.ofNat (v >>> (8 * i))

/-- The 32-bit word at an index. -/
def word (b : Bytes) (i : ℕ) : UInt32 :=
  (b (4 * i)).toUInt32 ||| (b (4 * i + 1)).toUInt32 <<< 8 |||
    (b (4 * i + 2)).toUInt32 <<< 16 ||| (b (4 * i + 3)).toUInt32 <<< 24

/-- `PacketType`. -/
inductive PacketType where
  | read
  | write
  | iread
  | iwrite
  | elapsed
  | syscall
  deriving DecidableEq, Repr

/-- `Packet`. -/
structure Packet where
  type : PacketType
  size : UInt32
  cycle : UInt64
  address : UInt32
  data : Fin 8 → UInt8
  flags : UInt32
  deriving DecidableEq

/-- `AccessType`, a set of flags. -/
inductive AccessType where
  | nonBlockingAccess
  | blockingAccess
  | instAccess
  deriving DecidableEq, Repr

def AccessType.toFlags : AccessType → UInt32
  | nonBlockingAccess => 0
  | blockingAccess => 1
  | instAccess => 2

/-- `hsim_syscall`. -/
inductive HsimSyscall where
  | nop
  | begin | exit | setNoticePeriod | getId | sleep | wakeup | vcacheSync
  | cacheFlush | cacheWriteback | cacheInvalidate
  | cacheFlushAll | cacheWritebackAll | cacheInvalidateAll
  | getCycle | getNumInsts
  | getIl1Access | getDl1Access | getUl2Access
  | getIl1Miss | getDl1Miss | getUl2Miss
  | getUl2AccessTile | getUl2MissTile
  | hostToGuestAddr | guestToHostAddr
  | lmRead | lmWrite
  | fetchMem
  | connect | disconnect | isConnected | loadTemplate
  | testAndSet
  | setDvfsLevel | getDvfsLevel
  | barrierInit | barrier
  | debug
  | hwLock | hwUnlock
  deriving DecidableEq, Repr

/-- The system calls in the order of the enumeration. -/
def HsimSyscall.all : List HsimSyscall :=
  [.nop, .begin, .exit, .setNoticePeriod, .getId, .sleep, .wakeup, .vcacheSync, .cacheFlush,
    .cacheWriteback, .cacheInvalidate, .cacheFlushAll, .cacheWritebackAll, .cacheInvalidateAll,
    .getCycle, .getNumInsts, .getIl1Access, .getDl1Access, .getUl2Access, .getIl1Miss,
    .getDl1Miss, .getUl2Miss, .getUl2AccessTile, .getUl2MissTile, .hostToGuestAddr,
    .guestToHostAddr, .lmRead, .lmWrite, .fetchMem, .connect, .disconnect, .isConnected,
    .loadTemplate, .testAndSet, .setDvfsLevel, .getDvfsLevel, .barrierInit, .barrier, .debug,
    .hwLock, .hwUnlock]

/-- The number of a system call. -/
def HsimSyscall.code (c : HsimSyscall) : UInt32 := UInt32.ofNat (all.idxOf c)

/-- The system call that a register holds. -/
def HsimSyscall.ofCode (code : UInt32) : Option HsimSyscall := all[code.toNat]?

end Hsim

end Tqsim
