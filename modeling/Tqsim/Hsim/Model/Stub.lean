import Tqsim.Common.Run
import Tqsim.Hsim.Model.Memmap
import Tqsim.Hsim.Model.Packet

/-!
# The stub

`hsim_stub.c`: the guest's accesses to what it shares with the rest of the
platform are forwarded to the simulation kernel as packets, each with the
cycles that have passed since the last one, and periodic notices tell the
kernel the time in between.

The kernel is another process. What it answers comes with the call that
receives the answer; in between it may store into the system registers, which
both processes share (`Event.peer`). Local packets that the source leaves
partly uninitialised start from whatever their memory held (`stack`). A call
that waits for an answer that never comes does not return. `sent` is no
variable of the source: it holds what was handed to `comm_send`.
-/

namespace Tqsim

namespace Hsim

/-- An answer of the simulation kernel: the packet that is received, and what
the shared memory holds by then. -/
structure Reply where
  packet : Packet
  registers : Bytes
  /-- The payload of the shared buffer, for `comm_recv_data`. -/
  payload : Bytes

/-- The arguments of an access other than the cycle, and what its
surroundings hold at that time. -/
structure Access where
  address : UInt32
  rw : Bool
  data : Bytes
  /-- In bits. -/
  size : ℕ
  atype : AccessType
  stack : Packet
  replies : List Reply
  cachesimIl1NumMiss : UInt64
  cachesimIl1NumAccess : UInt64
  numInsts : UInt64

/-- The variables of the stub. -/
structure Stub where
  coreId : Int32
  cpuCycle : UInt64
  lastSyncCycles : UInt64
  commNoticePeriod : Int32
  /-- The system registers, and what follows them in memory. -/
  registers : Bytes
  memmap : Memmap
  /-- The guest's memory, from `guest_base` on. -/
  guestMemory : Bytes
  sent : List Packet

namespace Stub

/-- `comm_send`. -/
def commSend (s : Stub) (packet : Packet) : Stub := { s with sent := s.sent ++ [packet] }

/-- `comm_recv`, of the next answer. -/
def commRecv (s : Stub) : List Reply → Option (Stub × Reply × List Reply)
  | [] => none
  | r :: replies => some ({ s with registers := r.registers }, r, replies)

/-- A 64-bit value in the first two registers. -/
def setRegister64 (s : Stub) (v : UInt64) : Stub :=
  { s with registers := memcpy s.registers 0 (bytesOf v.toNat) 8 }

/-- `mem_access`: the state, and what `data` points to. -/
def memAccess (s : Stub) (cycle : UInt64) (a : Access) : Option (Stub × Bytes) :=
  let sizeInByte := min (a.size / 8) 8
  let packet := { a.stack with
    cycle := cycle
    address := a.address
    size := UInt32.ofNat sizeInByte
    type := if a.rw then .write else .read
    flags := a.atype.toFlags
    data := fun i => if a.rw ∧ i.val < sizeInByte then a.data i else a.stack.data i }
  let s := s.commSend packet
  if packet.flags &&& AccessType.blockingAccess.toFlags ≠ 0 ∧ ¬ a.rw then
    (s.commRecv a.replies).map fun (s, r, _) =>
      (s, memcpy a.data 0 (fun i => if h : i < 8 then r.packet.data ⟨i, h⟩ else 0) sizeInByte)
  else some (s, a.data)

/-- `while (1) { comm_recv(&my_packet); if (...) break; }` of
`syscall_sleep`. -/
def awaitWakeup (s : Stub) : List Reply → Option (Stub × Packet)
  | [] => none
  | r :: replies =>
    let s := { s with registers := r.registers }
    if HsimSyscall.ofCode (word s.registers (numSysReg - 1)) = some .wakeup then some (s, r.packet)
    else awaitWakeup s replies

/-- `syscall_fetch_mem` after `comm_send`. A size that is negative as an `int`
is a fault. -/
def fetchMem (s : Stub) (dstAddress fetchSize : UInt32) (replies : List Reply) :
    Option (Stub × Packet) :=
  if fetchSize.toNat < 2 ^ 31 then
    (s.commRecv replies).map fun (s, r, _) =>
      ({ s with guestMemory := memcpy s.guestMemory dstAddress.toNat r.payload fetchSize.toNat },
        r.packet)
  else none

/-- The `switch` of `hsim_internal_access`: the state, and the packet. -/
def syscall (s : Stub) (packet : Packet) (a : Access) : Option (Stub × Packet) :=
  match HsimSyscall.ofCode (word s.registers (numSysReg - 1)) with
  | some .setNoticePeriod =>
    some ({ s with commNoticePeriod := (word s.registers 0).toInt32 }, packet)
  | some .sleep => awaitWakeup (s.commSend { packet with type := .syscall }) a.replies
  | some .getIl1Miss => some (s.setRegister64 a.cachesimIl1NumMiss, packet)
  | some .getIl1Access => some (s.setRegister64 a.cachesimIl1NumAccess, packet)
  | some .getNumInsts => some (s.setRegister64 a.numInsts, packet)
  | some .hostToGuestAddr | some .guestToHostAddr | some .getUl2Access | some .getDl1Access
  | some .getDl1Miss | some .getUl2Miss | some .getUl2AccessTile | some .getUl2MissTile
  | some .getCycle | some .lmRead | some .lmWrite | some .cacheFlushAll
  | some .cacheWritebackAll | some .cacheInvalidateAll | some .cacheFlush
  | some .cacheWriteback | some .cacheInvalidate | some .connect | some .disconnect
  | some .loadTemplate | some .testAndSet | some .barrierInit | some .barrier
  | some .isConnected | some .debug | some .hwLock | some .hwUnlock =>
    let s := s.commSend { packet with
      type := .syscall, flags := AccessType.blockingAccess.toFlags }
    (s.commRecv a.replies).map fun (s, r, _) => (s, r.packet)
  | some .getId =>
    some ({ s with registers := memcpy s.registers 0 (bytesOf s.coreId.toUInt32.toNat) 4 }, packet)
  | some .fetchMem =>
    let dstAddress := word s.registers 0
    let fetchSize := word s.registers 2
    fetchMem (s.commSend { packet with type := .syscall }) dstAddress fetchSize a.replies
  | _ => some (s, packet)

/-- The register at an address. -/
def registerIndex (address : UInt32) : ℕ := ((address - sysRegBase) / 4).toNat

/-- The store of a write access to the system registers. -/
def storeRegister (s : Stub) (a : Access) : Stub :=
  if a.rw then
    { s with registers := memcpy s.registers (4 * registerIndex a.address) a.data (a.size / 8) }
  else s

/-- `hsim_internal_access`. -/
def hsimInternalAccess (s : Stub) (cycle : UInt64) (a : Access) : Option (Stub × Bytes) :=
  let packet := { a.stack with
    cycle := cycle
    size := UInt32.ofNat (a.size / 8)
    flags := AccessType.blockingAccess.toFlags }
  let s := s.storeRegister a
  (if registerIndex a.address = numSysReg - 1 then s.syscall packet a
    else some (s, packet)).map fun (s, packet) =>
      (s, if a.rw then a.data
        else memcpy a.data 0 (fun i => s.registers (4 * registerIndex a.address + i))
          packet.size.toNat)

/-- `delta_cycle` of an access. -/
def deltaCycle (s : Stub) (curCycle : UInt64) : UInt64 :=
  if curCycle > s.lastSyncCycles then curCycle - s.lastSyncCycles else 1

/-- What `hsim_access` does with an address of a type. -/
def dispatchAccess (s : Stub) (cycle : UInt64) (a : Access) :
    MemoryType → Option (Stub × Bytes)
  | .memSharedC | .memSharedNc | .memVirtual | .memScratchpad => s.memAccess cycle a
  | .memInternal => s.hsimInternalAccess cycle a
  -- only a message is printed
  | _ => some (s, a.data)

/-- `hsim_access`. -/
def hsimAccess (s : Stub) (curCycle : UInt64) (a : Access) : Option (Stub × Bytes) := do
  let delta := s.deltaCycle curCycle
  let (memoryType, memmap) ← memmapGetType s.memmap a.address
  let (s, data) ← dispatchAccess { s with cpuCycle := curCycle, memmap := memmap } delta a memoryType
  some ({ s with lastSyncCycles := curCycle }, data)

/-- `comm_sync`. -/
def commSync (s : Stub) (cycle : UInt64) (stack : Packet) : Stub :=
  s.commSend { stack with type := .elapsed, address := 0, cycle := cycle }

/-- `hsim_notice`. The period, an `int`, is converted for the comparison. -/
def hsimNotice (s : Stub) (curCycle : UInt64) (stack : Packet) : Stub :=
  let delta := curCycle - s.lastSyncCycles
  let s := { s with cpuCycle := curCycle }
  if curCycle > s.lastSyncCycles ∧ delta > s.commNoticePeriod.toInt64.toUInt64 then
    { s.commSync delta stack with lastSyncCycles := curCycle }
  else s

/-- `comm_close`, up to the answer. -/
def commClose (s : Stub) (cycle numInsts : UInt64) (stack : Packet) (replies : List Reply) :
    Option Stub :=
  let s := s.setRegister64 numInsts
  let s := { s with
    registers := memcpy s.registers (4 * (numSysReg - 1)) (bytesOf HsimSyscall.exit.code.toNat) 4 }
  let s := s.commSend { stack with type := .syscall, cycle := cycle }
  (s.commRecv replies).map fun (s, _, _) => s

/-- `hsim_end`. The regions that it frees are not looked at any more. -/
def hsimEnd (s : Stub) (cycle numInsts : UInt64) (stack : Packet) (replies : List Reply) :
    Option Stub :=
  (commClose { s with cpuCycle := cycle } (cycle - s.lastSyncCycles) numInsts stack replies).map
    fun s => { s with lastSyncCycles := cycle }

/-- `hsim_start`, with what `comm_read_env` reads: the notice period, the core
and the regions. -/
def hsimStart (coreId commNoticePeriod : Int32) (regions : List MemRegion)
    (registers guestMemory : Bytes) : Option Stub :=
  (regions.foldlM memmapAddRegion memmapInitialize).map fun memmap =>
    { coreId, cpuCycle := 0, lastSyncCycles := 0, commNoticePeriod, registers, memmap, guestMemory,
      sent := [] }

end Stub

/-- What happens to the stub between its start and its end. -/
inductive Event where
  | access (curCycle : UInt64) (a : Access)
  | notice (curCycle : UInt64) (stack : Packet)
  /-- The kernel stores into the system registers. -/
  | peer (registers : Bytes)

/-- The cycle argument of a call. -/
def Event.cycle? : Event → Option UInt64
  | access c _ | notice c _ => some c
  | peer _ => none

/-- An event. -/
def Stub.step (s : Stub) : Event → Option Stub
  | .access c a => (s.hsimAccess c a).map Prod.fst
  | .notice c stack => some (s.hsimNotice c stack)
  | .peer registers => some { s with registers := registers }

end Hsim

end Tqsim
