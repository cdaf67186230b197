import Tqsim.Hsim.Model.Stub

/-!
# The window of the system registers

`hsim_internal_access` rounds the offset of an address to a whole register
and then copies as many bytes as the access is wide. For accesses that start
at a register and end in the window that is what a memory of bytes does; any
other one writes other bytes than those it addresses.
-/

namespace Tqsim

namespace Hsim

variable {s s' : Stub} {a : Access} {c : UInt64}

/-- Where an address is, from the first byte of the registers on. -/
def windowOffset (address : UInt32) : ℕ := (address - sysRegBase).toNat

/-- `sizeof(uint32_t) * NUM_SYS_REG`. -/
def windowSize : ℕ := 4 * numSysReg

/-- The width of an access in bytes. -/
def Access.width (a : Access) : ℕ := a.size / 8

/-- **A window of bytes**: what a write access does to it. -/
def windowStore (registers : Bytes) (a : Access) : Bytes := fun i =>
  if a.rw = true ∧ windowOffset a.address ≤ i ∧ i < windowOffset a.address + a.width ∧
      i < windowSize then a.data (i - windowOffset a.address)
  else registers i

/-- The bytes after some accesses. -/
def windowAfter (registers : Bytes) (accesses : List (UInt64 × Access)) : Bytes :=
  accesses.foldl (fun registers x => windowStore registers x.2) registers

/-- The system calls that the `switch` of `hsim_internal_access` has no case
for. -/
def HsimSyscall.idle : List HsimSyscall :=
  [.nop, .begin, .exit, .wakeup, .vcacheSync, .setDvfsLevel, .getDvfsLevel]

/-- An access makes no system call: it is not to the last register, or what this
then holds is no call that does anything. -/
def Stub.Quiet (s : Stub) (a : Access) : Prop :=
  Stub.registerIndex a.address = numSysReg - 1 →
    ∀ code ∈ HsimSyscall.ofCode (word (s.storeRegister a).registers (numSysReg - 1)),
      code ∈ HsimSyscall.idle

/-- The state after an access. -/
def Stub.internalStep (s : Stub) (x : UInt64 × Access) : Option Stub :=
  (s.hsimInternalAccess x.1 x.2).map Prod.fst

/-- **The registers are byte accurate** for accesses of some addresses and
widths: after any of them that make no system call, the registers and what
follows them in memory hold what a window of bytes holds, and a read of a
range of the window returns its bytes. -/
def ByteAccurate (K : UInt32 → ℕ → Prop) : Prop :=
  ∀ (s : Stub) (accesses : List (UInt64 × Access)), (∀ x ∈ accesses, K x.2.address x.2.width) →
    Run.Every Stub.internalStep (fun s x => s.Quiet x.2) accesses s →
    ∃ s', Run.play Stub.internalStep accesses s = some s' ∧
      s'.registers = windowAfter s.registers accesses ∧
      ∀ (c : UInt64) (a : Access), K a.address a.width → a.rw = false → s'.Quiet a →
        windowOffset a.address + a.width ≤ windowSize →
        (s'.hsimInternalAccess c a).map Prod.snd = some (memcpy a.data 0
          (fun i => windowAfter s.registers accesses (windowOffset a.address + i)) a.width)

/-! ## One access -/

theorem syscall_of_idle {packet : Packet}
    (h : ∀ code ∈ HsimSyscall.ofCode (word s.registers (numSysReg - 1)),
      code ∈ HsimSyscall.idle) : s.syscall packet a = some (s, packet) := by
  unfold Stub.syscall
  cases hcode : HsimSyscall.ofCode (word s.registers (numSysReg - 1)) with
  | none => rfl
  | some code =>
    have hidle := h code hcode
    simp only [HsimSyscall.idle, List.mem_cons, List.not_mem_nil, or_false] at hidle
    rcases hidle with rfl | rfl | rfl | rfl | rfl | rfl | rfl <;> rfl

/-- **An access without a system call** stores, or reads. -/
theorem hsimInternalAccess_of_quiet (h : s.Quiet a) (c : UInt64) :
    s.hsimInternalAccess c a = some (s.storeRegister a, if a.rw then a.data
      else memcpy a.data 0 (fun i =>
        (s.storeRegister a).registers (4 * Stub.registerIndex a.address + i))
          (UInt32.ofNat a.width).toNat) := by
  unfold Stub.hsimInternalAccess
  by_cases hindex : Stub.registerIndex a.address = numSysReg - 1
  · simp only [if_pos hindex, syscall_of_idle (h hindex), Option.map_some]
    rfl
  · simp only [if_neg hindex, Option.map_some]
    rfl

theorem internalStep_of_quiet {x : UInt64 × Access} (h : s.Quiet x.2) :
    s.internalStep x = some (s.storeRegister x.2) := by
  rw [Stub.internalStep, hsimInternalAccess_of_quiet h, Option.map_some]

/-- The offset that the source computes is the one of the register. -/
theorem four_mul_registerIndex (address : UInt32) :
    4 * Stub.registerIndex address = windowOffset address / 4 * 4 := by
  rw [Stub.registerIndex, windowOffset, UInt32.toNat_div, Nat.mul_comm]
  rfl

theorem four_mul_registerIndex_of_aligned {address : UInt32} (h : windowOffset address % 4 = 0) :
    4 * Stub.registerIndex address = windowOffset address := by
  rw [four_mul_registerIndex]
  omega

/-- A store that starts at a register and ends in the window. -/
theorem registers_storeRegister (halign : windowOffset a.address % 4 = 0)
    (hfits : windowOffset a.address + a.width ≤ windowSize) (s : Stub) :
    (s.storeRegister a).registers = windowStore s.registers a := by
  funext i
  unfold Stub.storeRegister windowStore
  cases hrw : a.rw with
  | false => simp
  | true =>
    simp only [if_true, memcpy, four_mul_registerIndex_of_aligned halign, true_and]
    by_cases hi : windowOffset a.address ≤ i ∧ i < windowOffset a.address + a.size / 8
    · rw [if_pos hi, if_pos ⟨hi.1, hi.2, by have := hi.2; unfold Access.width at hfits; omega⟩]
    · rw [if_neg hi, if_neg fun h => hi ⟨h.1, h.2.1⟩]

/-! ## All accesses -/

/-- **Aligned accesses in the window** keep the registers a window of bytes. -/
theorem play_internalStep {accesses : List (UInt64 × Access)}
    (hacc : ∀ x ∈ accesses, windowOffset x.2.address % 4 = 0 ∧
      windowOffset x.2.address + x.2.width ≤ windowSize) (s : Stub)
    (hquiet : Run.Every Stub.internalStep (fun s x => s.Quiet x.2) accesses s) :
    ∃ s', Run.play Stub.internalStep accesses s = some s' ∧
      s'.registers = windowAfter s.registers accesses := by
  induction accesses generalizing s with
  | nil => exact ⟨s, rfl, rfl⟩
  | cons x accesses ih =>
    obtain ⟨halign, hfits⟩ := hacc x List.mem_cons_self
    obtain ⟨hx, hrest⟩ := hquiet
    have hstep := internalStep_of_quiet (x := x) hx
    simp only [hstep] at hrest
    obtain ⟨s', hs', hregs⟩ := ih (fun y hy => hacc y (List.mem_cons_of_mem x hy)) _ hrest
    refine ⟨s', by rw [Run.play, hstep]; exact hs', ?_⟩
    rw [hregs, registers_storeRegister halign hfits]
    rfl

/-- One write, where the registers are byte accurate. -/
theorem ByteAccurate.storeRegister {K : UInt32 → ℕ → Prop} (h : ByteAccurate K)
    (hK : K a.address a.width) (hquiet : s.Quiet a) :
    (s.storeRegister a).registers = windowStore s.registers a := by
  have hstep := internalStep_of_quiet (x := (0, a)) hquiet
  obtain ⟨s', hs', hregs, -⟩ := h s [(0, a)] (by simpa using hK) ⟨hquiet, by split <;> trivial⟩
  rw [Run.play, hstep] at hs'
  obtain rfl := Option.some.inj hs'
  exact hregs

/-- A stub with something in its registers. -/
def stubWith (registers : Bytes) : Stub where
  coreId := 0
  cpuCycle := 0
  lastSyncCycles := 0
  commNoticePeriod := 500
  registers := registers
  memmap := memmapInitialize
  guestMemory := fun _ => 0
  sent := []

/-- A write. -/
def writeOf (address : UInt32) (width : ℕ) (data : Bytes) : Access where
  address := address
  rw := true
  data := data
  size := 8 * width
  atype := .blockingAccess
  stack := ⟨.read, 0, 0, 0, fun _ => 0, 0⟩
  replies := []
  cachesimIl1NumMiss := 0
  cachesimIl1NumAccess := 0
  numInsts := 0

theorem width_writeOf (address : UInt32) (width : ℕ) (data : Bytes) :
    (writeOf address width data).width = width := Nat.mul_div_cancel_left width (by decide)

/-- The last register after zeros were written where all bits were set: it holds
no call that does anything. -/
theorem idle_zeros : ∀ width ∈ [1, 2, 4, 8], (HsimSyscall.ofCode (word (memcpy (fun _ => 0xFF)
    (4 * (numSysReg - 1)) (fun _ => 0) (8 * width / 8)) (numSysReg - 1))).all
      (fun code => decide (code ∈ HsimSyscall.idle)) = true := by
  decide

theorem quiet_zeros (address : UInt32) {width : ℕ} (hwidth : width ∈ [1, 2, 4, 8]) :
    (stubWith fun _ => 0xFF).Quiet (writeOf address width fun _ => 0) := by
  intro hindex code hcode
  simp only [writeOf] at hindex
  simp only [Stub.storeRegister, writeOf, stubWith, hindex, if_true] at hcode
  have hidle := idle_zeros width hwidth
  rw [Option.mem_def.1 hcode, Option.all_some] at hidle
  exact of_decide_eq_true hidle

/-- **The registers are byte accurate** for accesses, if and only if all of them
start at a register and end in the window. -/
theorem byteAccurate_iff (K : UInt32 → ℕ → Prop)
    (hwidth : ∀ address width, K address width → width ∈ [1, 2, 4, 8]) :
    ByteAccurate K ↔ ∀ address width, K address width →
      windowOffset address % 4 = 0 ∧ windowOffset address + width ≤ windowSize := by
  constructor
  · intro h address width hK
    have hw := hwidth address width hK
    have hpos : 1 ≤ width ∧ width ≤ 8 := by
      simp only [List.mem_cons, List.not_mem_nil, or_false] at hw
      omega
    have hstore := h.storeRegister (a := writeOf address width fun _ => 0)
      (by rw [width_writeOf]; exact hK) (quiet_zeros address hw)
    -- each byte that is written is one of the range, and in the window
    have hbyte : ∀ i, windowOffset address / 4 * 4 ≤ i → i < windowOffset address / 4 * 4 + width →
        windowOffset address ≤ i ∧ i < windowOffset address + width ∧ i < windowSize := by
      intro i hi hi'
      by_contra hnot
      have heq := congrFun hstore i
      have hwrite : windowOffset address / 4 * 4 ≤ i ∧
          i < windowOffset address / 4 * 4 + 8 * width / 8 := ⟨hi, by omega⟩
      simp only [Stub.storeRegister, windowStore, width_writeOf] at heq
      simp only [writeOf, stubWith, four_mul_registerIndex, if_true, memcpy, if_pos hwrite,
        true_and, if_neg hnot] at heq
      exact absurd heq (by decide)
    have hfirst := hbyte (windowOffset address / 4 * 4) le_rfl (by omega)
    have hlast := hbyte (windowOffset address / 4 * 4 + width - 1) (by omega) (by omega)
    omega
  · intro hK s accesses hacc hquiet
    obtain ⟨s', hs', hregs⟩ := play_internalStep (fun x hx => hK _ _ (hacc x hx)) s hquiet
    refine ⟨s', hs', hregs, fun c a ha hrw hquiet' _ => ?_⟩
    obtain ⟨halign, hfits⟩ := hK _ _ ha
    have hw : (UInt32.ofNat a.width).toNat = a.width := by
      have := hwidth _ _ ha
      simp only [List.mem_cons, List.not_mem_nil, or_false] at this
      exact UInt32.toNat_ofNat_of_lt' (by norm_num [UInt32.size]; omega)
    rw [hsimInternalAccess_of_quiet hquiet', Option.map_some, hw,
      four_mul_registerIndex_of_aligned halign]
    simp [Stub.storeRegister, hrw, hregs]

/-- Whole registers, one at a time. -/
theorem byteAccurate_words :
    ByteAccurate fun address width => windowOffset address % 4 = 0 ∧
      windowOffset address < windowSize ∧ width = 4 := by
  refine (byteAccurate_iff _ ?_).2 ?_
  · rintro address width ⟨-, -, rfl⟩
    decide
  · rintro address width ⟨halign, hlt, rfl⟩
    simp only [windowSize, numSysReg] at hlt ⊢
    omega

/-- A byte that is written to the second byte of the window goes to the first
one, and eight bytes from the last register on reach beyond the window. -/
theorem internalStep_misaligned :
    memmapGetType memmapInitialize 0xE0000001 = some (.memInternal, memmapInitialize) ∧
    memmapGetType memmapInitialize 0xE000001C = some (.memInternal, memmapInitialize) ∧
    (∃ s', (stubWith fun _ => 0).internalStep (0, writeOf 0xE0000001 1 fun _ => 0x5A) = some s' ∧
      s'.registers 0 = 0x5A ∧ s'.registers 1 = 0) ∧
    ∃ s', (stubWith fun _ => 0).internalStep (0, writeOf 0xE000001C 8 fun _ => 0xFF) = some s' ∧
      s'.registers windowSize = 0xFF := by
  refine ⟨if_pos (by decide), if_pos (by decide), ⟨_, rfl, by decide, by decide⟩, _, rfl, by decide⟩

end Hsim

end Tqsim
