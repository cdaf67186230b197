import Tqsim.Cachesim.Helpers.Levels
import Tqsim.Guest.Clock
import Tqsim.Guest.Model.Loads
import Tqsim.Hsim.Helpers.Effects
import Tqsim.Hsim.Lookup

/-!
# Shared and local loads

A load helper reads the same bytes whether the kernel sends them or the
guest's own memory holds them. What it makes of them is not the same: a
shared load zero-extends them, and a local one extends them as the type in
the helper's name says. The two agree just when the type is unsigned or the
sign is positive.
-/

namespace Tqsim

namespace Guest

open TraceAnalyzer (Double exactDouble)
open Hsim (Bytes Packet Reply AccessType Stub Access Memmap MapCall SysReg word memcpy
  memmapInitialize memmapIsShared memmapIsLocal memmapGetType)
open Cachesim (CachesimConfig SimCall plainCall cachesimInitialize)

variable {F : Type} {D : Double F} {cfg : CoreConfig} {M N : Machine F} {l : Load} {α : Type}
  {b src : Bytes}

/-! ## The widths -/

/-- The widths of a load. -/
inductive Width where
  | u8
  | s8
  | u16
  | s16
  | u32
  | d64
  deriving DecidableEq, Repr

/-- What a load of a width returns. -/
abbrev Width.Reg : Width → Type
  | d64 => UInt64
  | u8 | s8 | u16 | s16 | u32 => UInt32

/-- The helper for a width. -/
def Width.helper : (w : Width) → LoadHelper w.Reg
  | u8 => hsimLd8u
  | s8 => hsimLd8s
  | u16 => hsimLd16u
  | s16 => hsimLd16s
  | u32 => hsimLd32u
  | d64 => hsimLd64

def Width.bytes (w : Width) : ℕ := w.helper.size / 8

/-- **The condition on the bytes**: with a signed width, the sign bit is not
set. -/
def Width.Nonneg (b : Bytes) : Width → Prop
  | s8 => b 0 < 0x80
  | s16 => halfword b < 0x8000
  | u8 | u16 | u32 | d64 => True

instance (w : Width) : Decidable (w.Nonneg b) := by
  cases w <;> unfold Width.Nonneg <;> infer_instance

/-! ## Extension -/

/-- The sign is the highest bit. -/
theorem setWidth_eq_signExtend_iff {n k : ℕ} (x : BitVec n) (hlt : n < k) :
    x.setWidth k = x.signExtend k ↔ x.msb = false := by
  constructor
  · intro heq
    have hmsb := congrArg BitVec.msb heq
    have htop : x.getLsbD (k - 1) = false := BitVec.getLsbD_of_ge x (k - 1) (by omega)
    rw [BitVec.msb_signExtend, BitVec.msb_setWidth, htop, Bool.and_false, if_neg (by omega),
      decide_eq_true (by omega), Bool.true_and] at hmsb
    exact hmsb.symm
  · exact fun h => (BitVec.signExtend_eq_setWidth_of_msb_false h).symm

theorem toUInt32_eq_int8_iff (x : UInt8) : x.toUInt32 = x.toInt8.toInt32.toUInt32 ↔ x < 0x80 := by
  rw [← UInt32.toBitVec_inj]
  refine (setWidth_eq_signExtend_iff x.toBitVec (show 8 < 32 by omega)).trans ?_
  rw [BitVec.msb_eq_decide, decide_eq_false_iff_not, not_le]
  exact Iff.rfl

theorem toUInt32_eq_int16_iff (x : UInt16) :
    x.toUInt32 = x.toInt16.toInt32.toUInt32 ↔ x < 0x8000 := by
  rw [← UInt32.toBitVec_inj]
  refine (setWidth_eq_signExtend_iff x.toBitVec (show 16 < 32 by omega)).trans ?_
  rw [BitVec.msb_eq_decide, decide_eq_false_iff_not, not_le]
  exact Iff.rfl

/-- What a shared load leaves in the word of the helper. -/
theorem word_memcpy_one : word (memcpy (fun _ => 0) 0 b 1) 0 = (b 0).toUInt32 := by
  simp [word, memcpy]

theorem word_memcpy_two : word (memcpy (fun _ => 0) 0 b 2) 0 = (halfword b).toUInt32 := by
  have hword : word (memcpy (fun _ => 0) 0 b 2) 0 = (b 0).toUInt32 ||| (b 1).toUInt32 <<< 8 := by
    simp [word, memcpy]
  have hlt := (b 1).toNat_lt
  apply UInt32.toNat_inj.1
  rw [hword, halfword, UInt16.toNat_toUInt32, UInt32.toNat_or, UInt16.toNat_or,
    UInt32.toNat_shiftLeft, UInt16.toNat_shiftLeft, UInt8.toNat_toUInt32, UInt8.toNat_toUInt32,
    UInt8.toNat_toUInt16, UInt8.toNat_toUInt16, Nat.shiftLeft_eq, Nat.shiftLeft_eq]
  -- neither of the shifts loses a bit
  rw [show (8 : UInt32).toNat % 32 = 8 from rfl, show (8 : UInt16).toNat % 16 = 8 from rfl,
    Nat.mod_eq_of_lt (show (b 1).toNat * 2 ^ 8 < 2 ^ 32 by omega),
    Nat.mod_eq_of_lt (show (b 1).toNat * 2 ^ 8 < 2 ^ 16 by omega)]

/-- A copy takes no more than its bytes. -/
theorem memcpy_congr {dst : Bytes} {n : ℕ} (h : ∀ i < n, src i = b i) :
    memcpy dst 0 src n = memcpy dst 0 b n := by
  funext i
  simp only [memcpy]
  split
  next hi => exact h _ (by omega)
  next => rfl

/-- Nor does a load from memory. -/
theorem Width.ofLocal_congr (w : Width) (h : ∀ i < w.bytes, src i = b i) :
    w.helper.ofLocal src = w.helper.ofLocal b := by
  cases w
  case u8 | s8 =>
    have h0 := h 0 (by decide)
    simp only [Width.helper, hsimLd8u, hsimLd8s, doGenHsimLd, VarType.load, h0]
  case u16 | s16 =>
    have h0 := h 0 (by decide)
    have h1 := h 1 (by decide)
    simp only [Width.helper, hsimLd16u, hsimLd16s, doGenHsimLd, VarType.load, halfword, h0, h1]
  case u32 =>
    have hbyte : ∀ i < 4, src i = b i := h
    simp [Width.helper, hsimLd32u, doGenHsimLd, VarType.load, word, hbyte]
  case d64 =>
    have hbyte : ∀ i < 8, src i = b i := h
    simp [Width.helper, hsimLd64, doubleword, word, hbyte]

/-- **The two readings of the same bytes.** -/
theorem Width.ofShared_eq_ofLocal_iff (w : Width) (b : Bytes) :
    w.helper.ofShared (memcpy (fun _ => 0) 0 b w.bytes) = w.helper.ofLocal b ↔ w.Nonneg b := by
  cases w with
  | u8 => exact iff_of_true word_memcpy_one trivial
  | s8 =>
    show word (memcpy (fun _ => 0) 0 b 1) 0 = (b 0).toInt8.toInt32.toUInt32 ↔ _
    rw [word_memcpy_one]
    exact toUInt32_eq_int8_iff (b 0)
  | u16 => exact iff_of_true word_memcpy_two trivial
  | s16 =>
    show word (memcpy (fun _ => 0) 0 b 2) 0 = (halfword b).toInt16.toInt32.toUInt32 ↔ _
    rw [word_memcpy_two]
    exact toUInt32_eq_int16_iff (halfword b)
  | u32 =>
    refine iff_of_true ?_ trivial
    show word (memcpy (fun _ => 0) 0 b 4) 0 = word b 0
    simp [word, memcpy]
  | d64 =>
    refine iff_of_true ?_ trivial
    show doubleword (memcpy (fun _ => 0) 0 b 8) = doubleword b
    simp [doubleword, word, memcpy]

/-! ## The two paths -/

/-- The map and the caches are as calls leave them. -/
structure Machine.Reachable (cfg : CoreConfig) (M : Machine F) : Prop where
  memmap : ∃ calls, Run.play Memmap.call calls memmapInitialize = some M.stub.memmap
  cachesim : ∃ (config : CachesimConfig) (calls : List SimCall), config.HasWays ∧
    Run.play (plainCall cfg.hsim cfg.robSize) calls (cachesimInitialize config) =
      some M.core.cachesim

/-- The address lies in a shared region, and the kernel answers a read of it
with the bytes. -/
structure Machine.Serves (M : Machine F) (l : Load) (n : ℕ) (b : Bytes) : Prop where
  shared : ∃ m, memmapIsShared M.stub.memmap l.addr = some (true, m)
  not_sysReg : ¬ SysReg l.addr
  answer : ∃ r replies, l.replies = r :: replies ∧ ∀ i : Fin 8, i.val < n → r.packet.data i = b i

/-- The address is local, and the guest's memory holds the bytes there. -/
structure Machine.Holds (M : Machine F) (l : Load) (n : ℕ) (b : Bytes) : Prop where
  not_shared : ∃ m, memmapIsShared M.stub.memmap l.addr = some (false, m)
  isLocal : memmapIsLocal l.addr = true
  bytes : ∀ i < n, M.stub.guestMemory (l.addr.toNat + i) = b i

theorem Machine.Reachable.spells (hM : M.Reachable cfg) : ∃ nodes, M.stub.memmap.Spells nodes := by
  obtain ⟨calls, hplay⟩ := hM.memmap
  obtain ⟨m, nodes, hm, hstores⟩ := Hsim.Memmap.Stores.start.play calls
  obtain rfl : m = M.stub.memmap := Option.some.inj (hm.symm.trans hplay)
  exact ⟨nodes, hstores.spells⟩

theorem Machine.Reachable.formed (hM : M.Reachable cfg) : M.core.cachesim.Formed := by
  obtain ⟨config, calls, hways, hplay⟩ := hM.cachesim
  exact (Cachesim.formed_cachesimInitialize hways).play _ _ hplay

theorem LoadHelper.load_of_shared (h : LoadHelper α) {m : Memmap}
    (hm : memmapIsShared M.stub.memmap l.addr = some (true, m)) :
    h.load D cfg M l = orFault (h.loadShared D (M.setMemmap m) l) := by
  rw [load, hm]
  rfl

theorem LoadHelper.load_of_isLocal (h : LoadHelper α) {m : Memmap}
    (hm : memmapIsShared M.stub.memmap l.addr = some (false, m))
    (hlocal : memmapIsLocal l.addr = true) :
    h.load D cfg M l = orFault (h.loadLocal D cfg (M.setMemmap m) l) := by
  rw [load, hm]
  exact if_pos hlocal

/-- **A shared load** returns what the kernel sent, in a word that was zero. -/
theorem LoadHelper.load_shared (h : LoadHelper α) (hsize : h.size ≤ 64) (hM : M.Reachable cfg)
    (hserves : M.Serves l (h.size / 8) b) :
    ∃ N, h.load D cfg M l = .ok (h.ofShared (memcpy (fun _ => 0) 0 b (h.size / 8)), N) := by
  obtain ⟨nodes, hspells⟩ := hM.spells
  obtain ⟨m, hshared⟩ := hserves.shared
  obtain ⟨type, m', -, hm', -, htype⟩ := hspells.getType_of_isShared hshared hserves.not_sysReg
  obtain ⟨r, replies, hreplies, hdata⟩ := hserves.answer
  have hbytes : ∀ i < h.size / 8, (if h : i < 8 then r.packet.data ⟨i, h⟩ else 0) = b i := by
    intro i hi
    have hlt : i < 8 := by omega
    rw [dif_pos hlt]
    exact hdata ⟨i, hlt⟩ hi
  obtain ⟨s, hs⟩ := Hsim.hsimAccess_served (s := (M.setMemmap m).stub)
    (a := (M.setMemmap m).access l h.size .blockingAccess) hm' (htype.1 rfl) rfl rfl hreplies
    (UInt64.ofInt ((M.setMemmap m).core.getSimpleCycle D))
  have hval : memcpy (fun _ => 0) 0 (fun i => if h : i < 8 then r.packet.data ⟨i, h⟩ else 0)
      (min (h.size / 8) 8) = memcpy (fun _ => 0) 0 b (h.size / 8) := by
    rw [Nat.min_eq_left (by omega), memcpy_congr hbytes]
  refine ⟨⟨M.core.readTime D, s⟩, ?_⟩
  rw [h.load_of_shared hshared, loadShared, Machine.hsimAccess, hs, ← hval]
  rfl

/-- A local address is not that of the last register. -/
theorem registerIndex_of_isLocal {addr : UInt32} (h : memmapIsLocal addr = true) :
    Stub.registerIndex addr ≠ Hsim.numSysReg - 1 := by
  have hlt : addr.toNat < 0x30000000 := UInt32.lt_iff_toNat_lt.1 (of_decide_eq_true h)
  rw [Stub.registerIndex, UInt32.toNat_div, UInt32.toNat_sub]
  simp only [Hsim.sysRegBase, Hsim.numSysReg, UInt32.reduceToNat]
  omega

theorem LoadHelper.loadLocal_returns (h : LoadHelper α) {nodes : List ℕ}
    (hspells : M.stub.memmap.Spells nodes) (hformed : M.core.cachesim.Formed)
    (hlocal : memmapIsLocal l.addr = true) :
    ∃ N, h.loadLocal D cfg M l =
      some (h.ofLocal fun i => M.stub.guestMemory (l.addr.toNat + i), N) := by
  obtain ⟨missType, cachesim, hacc, -⟩ := hformed.daccess cfg.hsim cfg.robSize l.missType
    (UInt64.ofInt (M.core.getSimpleCycle D)) l.addr false
  obtain ⟨core, hcore⟩ : ∃ core, M.core.dcacheAccess D cfg ⟨l.addr, false, l.missType⟩ =
      some (missType, core) := by
    rw [Core.dcacheAccess, hacc]
    exact ⟨_, rfl⟩
  rw [loadLocal, hcore, Option.bind_some]
  by_cases hmiss : missType ≠ .l1Hit
  · -- the access that reports the miss returns, whatever it reads
    obtain ⟨s, val, -, hs, -⟩ := Hsim.hsimAccess_returns
      (a := Machine.access { M with core := core } l h.size .nonBlockingAccess) hspells nofun
      (fun hlast => absurd hlast (registerIndex_of_isLocal hlocal))
      (UInt64.ofInt (core.getSimpleCycle D))
    refine ⟨⟨core.readTime D, s⟩, ?_⟩
    simp only [if_pos hmiss, Machine.hsimAccess, hs, Option.map_some]
  · exact ⟨{ M with core := core }, by simp only [if_neg hmiss]⟩

/-- **A local load** returns what the guest's memory holds. -/
theorem LoadHelper.load_local (h : LoadHelper α) (hM : M.Reachable cfg)
    (hshared : ∃ m, memmapIsShared M.stub.memmap l.addr = some (false, m))
    (hlocal : memmapIsLocal l.addr = true) :
    ∃ N, h.load D cfg M l =
      .ok (h.ofLocal fun i => M.stub.guestMemory (l.addr.toNat + i), N) := by
  obtain ⟨nodes, hspells⟩ := hM.spells
  obtain ⟨shared, m, nodes', hm, hspells'⟩ := hspells.isShared l.addr
  obtain ⟨m₁, hm₁⟩ := hshared
  obtain ⟨rfl, rfl⟩ := Prod.mk.inj (Option.some.inj (hm.symm.trans hm₁))
  rw [h.load_of_isLocal hm hlocal]
  obtain ⟨N, hN⟩ : ∃ N, h.loadLocal D cfg (M.setMemmap m) l =
      some (h.ofLocal fun i => M.stub.guestMemory (l.addr.toNat + i), N) :=
    h.loadLocal_returns hspells' hM.formed hlocal
  exact ⟨N, by rw [hN]; rfl⟩

theorem orFault_eq_ok_iff {o : Option α} {a : α} : orFault o = .ok a ↔ o = some a := by
  cases o <;> simp [orFault]

/-- The clock is all that an access reads of the core. -/
theorem Machine.hsimAccess_core {size : ℕ} {atype : AccessType} {val : Bytes}
    (h : M.hsimAccess D l size atype = some (N, val)) : N.core = M.core.readTime D := by
  obtain ⟨⟨s, val'⟩, -, heq⟩ := Option.map_eq_some_iff.1 h
  rw [← (Prod.mk.inj heq).1]

/-- A local address: the clock is read once more after a miss. -/
theorem Core.hsimAccess_local {c core : Core F} {a : DataAccess} {missType : CacheMissType}
    (h : c.dcacheAccess D cfg a = some (missType, core)) :
    c.hsimAccess D cfg false a = some (if missType ≠ .l1Hit then core.readTime D else core) := by
  rw [Core.hsimAccess, if_neg Bool.false_ne_true, h, Option.map_some]

/-- **The core sees an access** of the kind that the memory map says. -/
theorem LoadHelper.load_core (h : LoadHelper α) {v : α} (hload : h.load D cfg M l = .ok (v, N)) :
    ∃ shared m, memmapIsShared M.stub.memmap l.addr = some (shared, m) ∧
      M.core.hsimAccess D cfg shared ⟨l.addr, false, l.missType⟩ = some N.core := by
  unfold load at hload
  split at hload
  next => cases hload
  next shared m hm =>
    refine ⟨shared, m, hm, ?_⟩
    cases shared with
    | true =>
      obtain ⟨⟨N', val⟩, hacc, heq⟩ := Option.map_eq_some_iff.1 (orFault_eq_ok_iff.1 hload)
      rw [← (Prod.mk.inj heq).2, Machine.hsimAccess_core hacc]
      rfl
    | false =>
      simp only [Bool.false_eq_true, if_false] at hload
      split at hload
      next =>
        obtain ⟨⟨missType, core⟩, hcore, hrest⟩ :=
          Option.bind_eq_some_iff.1 (orFault_eq_ok_iff.1 hload)
        refine (Core.hsimAccess_local (c := M.core) hcore).trans ?_
        simp only at hrest
        split at hrest
        next hmiss =>
          obtain ⟨⟨N', val⟩, hacc, heq⟩ := Option.map_eq_some_iff.1 hrest
          rw [if_pos hmiss, ← (Prod.mk.inj heq).2, Machine.hsimAccess_core hacc]
        next hmiss => rw [if_neg hmiss, ← (Prod.mk.inj (Option.some.inj hrest)).2]
      next => cases hload

/-- **Shared and local loads.** In all states of the core and the stub, a load
of a shared address and one of a local address with the same bytes both
return, and with the same value just if the width is unsigned or the sign bit
is not set. -/
theorem load_shared_eq_local_iff (w : Width) (b : Bytes) {M M' : Machine F} {l l' : Load}
    (hM : M.Reachable cfg) (hM' : M'.Reachable cfg) (hserves : M.Serves l w.bytes b)
    (hholds : M'.Holds l' w.bytes b) :
    ∃ v N v' N', w.helper.load D cfg M l = .ok (v, N) ∧ w.helper.load D cfg M' l' = .ok (v', N') ∧
      (v = v' ↔ w.Nonneg b) := by
  have hsize : w.helper.size ≤ 64 := by cases w <;> decide
  obtain ⟨N, hN⟩ := w.helper.load_shared (D := D) hsize hM hserves
  obtain ⟨N', hN'⟩ := w.helper.load_local (D := D) hM' hholds.not_shared hholds.isLocal
  rw [w.ofLocal_congr hholds.bytes] at hN'
  exact ⟨_, N, _, N', hN, hN', w.ofShared_eq_ofLocal_iff b⟩

/-! ## A signed byte -/

/-- A map with one shared region. -/
def sharedMap : Memmap :=
  (Hsim.memmapAddRegion memmapInitialize ⟨0x1000, 0x100, .memSharedC⟩).getD memmapInitialize

/-- A machine without caches, whose memory holds one byte everywhere. -/
def byteMachine (memmap : Memmap) (byte : UInt8) : Machine ℚ where
  core := startCore
  stub := ⟨0, 0, 0, 1000, fun _ => 0, memmap, fun _ => byte, []⟩

/-- A load, and an answer with that byte. -/
def byteLoad (byte : UInt8) : Load :=
  let packet : Packet := ⟨.read, 0, 0, 0, fun _ => byte, 0⟩
  ⟨0x1000, 0x8000, packet, .l1Miss, [⟨packet, fun _ => 0, fun _ => 0⟩]⟩

theorem reachable_byteMachine {memmap : Memmap} (byte : UInt8) (calls : List MapCall)
    (h : Run.play Memmap.call calls memmapInitialize = some memmap) :
    (byteMachine memmap byte).Reachable shortSamples :=
  ⟨⟨calls, h⟩, ⟨none, none, none, 100⟩, [], ⟨nofun, nofun, nofun⟩, rfl⟩

theorem reachable_sharedMap (byte : UInt8) :
    (byteMachine sharedMap byte).Reachable shortSamples :=
  reachable_byteMachine byte [.addRegion ⟨0x1000, 0x100, .memSharedC⟩] rfl

theorem reachable_emptyMap (byte : UInt8) :
    (byteMachine memmapInitialize byte).Reachable shortSamples :=
  reachable_byteMachine byte [] rfl

theorem serves_byteMachine (byte : UInt8) :
    (byteMachine sharedMap byte).Serves (byteLoad byte) 1 fun _ => byte where
  shared := ⟨_, rfl⟩
  not_sysReg := show ¬ SysReg 0x1000 by decide
  answer := ⟨_, _, rfl, fun _ _ => rfl⟩

theorem holds_byteMachine (byte : UInt8) :
    (byteMachine memmapInitialize byte).Holds (byteLoad byte) 1 fun _ => byte where
  not_shared := ⟨_, rfl⟩
  isLocal := rfl
  bytes _ _ := rfl

/-- The byte is positive. -/
theorem load_shared_eq_local_positive : ∃ v N N',
    hsimLd8s.load exactDouble shortSamples (byteMachine sharedMap 0x70) (byteLoad 0x70) =
      .ok (v, N) ∧
    hsimLd8s.load exactDouble shortSamples (byteMachine memmapInitialize 0x70) (byteLoad 0x70) =
      .ok (v, N') := by
  obtain ⟨v, N, v', N', hload, hload', heq⟩ := load_shared_eq_local_iff (D := exactDouble) .s8
    (fun _ => 0x70) (reachable_sharedMap 0x70) (reachable_emptyMap 0x70) (serves_byteMachine 0x70)
    (holds_byteMachine 0x70)
  obtain rfl : v = v' := heq.2 (by decide)
  exact ⟨v, N, N', hload, hload'⟩

/-- The byte is negative, and only the local load says so. -/
theorem load_shared_ne_local_negative :
    (byteMachine sharedMap 0xF0).Reachable shortSamples ∧
    (byteMachine memmapInitialize 0xF0).Reachable shortSamples ∧
    (byteMachine sharedMap 0xF0).Serves (byteLoad 0xF0) 1 (fun _ => 0xF0) ∧
    (byteMachine memmapInitialize 0xF0).Holds (byteLoad 0xF0) 1 (fun _ => 0xF0) ∧
    (hsimLd8s.load exactDouble shortSamples (byteMachine sharedMap 0xF0) (byteLoad 0xF0)).map
      Prod.fst = .ok 0x000000F0 ∧
    (hsimLd8s.load exactDouble shortSamples (byteMachine memmapInitialize 0xF0)
      (byteLoad 0xF0)).map Prod.fst = .ok 0xFFFFFFF0 := by
  refine ⟨reachable_sharedMap 0xF0, reachable_emptyMap 0xF0, serves_byteMachine 0xF0,
    holds_byteMachine 0xF0, ?_, ?_⟩
  · decide
  · decide

end Guest

end Tqsim
