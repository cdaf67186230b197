import Tqsim.Guest.Model.Machine
import Tqsim.Guest.Routing

/-!
# The guest does not see the simulator

What a guest computes depends on the values that its loads return. With
`CONFIG_HSIM` every load, store and instruction goes through the caches, the
predictor, the clock and the stub. None of this shows: as long as it stays
away from the system registers, the guest runs on a plain memory of bytes,
and on the answers of the kernel for what is shared.
-/

namespace Tqsim

namespace Guest

open TraceAnalyzer (Double exactDouble)
open Hsim (Bytes Packet Reply AccessType Stub Access Memmap MemRegion MemoryType MapCall SysReg
  memcpy memmapInitialize memmapIsShared memmapIsLocal memmapGetType added)
open Cachesim (Hierarchy filterFetch)

variable {F : Type} {D : Double F} {cfg : CoreConfig} {M N : Machine F} {regions : List MemRegion}
  {m : Memmap} {nodes : List ℕ} {addr : UInt32}

/-! ## The guest's run -/

/-- The widths of a store. -/
inductive StoreWidth where
  | w8
  | w16
  | w32
  | d64
  deriving DecidableEq, Repr

/-- What a store of a width writes. -/
abbrev StoreWidth.Reg : StoreWidth → Type
  | d64 => UInt64
  | w8 | w16 | w32 => UInt32

/-- The helper for a width. -/
def StoreWidth.helper : (w : StoreWidth) → StoreHelper w.Reg
  | w8 => hsimSt8
  | w16 => hsimSt16
  | w32 => hsimSt32
  | d64 => hsimSt64

/-- A helper call of the guest. -/
inductive HelperCall where
  | instIncrement (i : Step)
  | setBranchInst (isCond : Int32)
  | load (w : Width) (l : Load)
  | store (w : StoreWidth) (s : Store w.Reg)

/-- What a load returns. -/
abbrev Value := (w : Width) × w.Reg

/-- A call, what it returns if it is a load, and the state after it. A call
that faults or exits does not return. -/
def Machine.call (D : Double F) (cfg : CoreConfig) (M : Machine F) :
    HelperCall → Option (Option Value × Machine F)
  | .instIncrement i => (M.instIncrement D cfg i).map (none, ·)
  | .setBranchInst isCond => some (none, M.setBranchInst isCond)
  | .load w l => (w.helper.load D cfg M l).toOption.map fun (v, M) => (some ⟨w, v⟩, M)
  | .store w s => (w.helper.store D cfg M s).toOption.map (none, ·)

/-! ## The plain memory -/

/-- **An address of the guest's own**: below the limit of `memmap_is_local`, and
in no region that is shared. -/
def Private (regions : List MemRegion) (addr : UInt32) : Prop :=
  memmapIsLocal addr = true ∧ ∀ r ∈ regions, r.contains addr = true → ¬ r.type.Shared

/-- **A shared address**: in a region, in none that is not shared, and not that
of a system register. -/
def Shared (regions : List MemRegion) (addr : UInt32) : Prop :=
  ¬ SysReg addr ∧ (∃ r ∈ regions, r.contains addr = true) ∧
    ∀ r ∈ regions, r.contains addr = true → r.type.Shared

instance decidablePrivate (regions : List MemRegion) (addr : UInt32) :
    Decidable (Private regions addr) :=
  inferInstanceAs (Decidable (_ ∧ _))

instance decidableShared (regions : List MemRegion) (addr : UInt32) :
    Decidable (Shared regions addr) :=
  inferInstanceAs (Decidable (_ ∧ _ ∧ _))

/-- The data of an answer. -/
def answer (r : Reply) : Bytes := fun i => if h : i < 8 then r.packet.data ⟨i, h⟩ else 0

/-- **A guest on a plain memory.** Its own addresses are bytes of the memory;
what it reads at a shared address is the kernel's answer. It does not access
or execute the system registers. -/
def plainCall (regions : List MemRegion) (mem : Bytes) :
    HelperCall → Option (Option Value × Bytes)
  | .instIncrement i => if SysReg i.pc then none else some (none, mem)
  | .setBranchInst _ => some (none, mem)
  | .load w l =>
    if Private regions l.addr then
      some (some ⟨w, w.helper.ofLocal fun i => mem (l.addr.toNat + i)⟩, mem)
    else if Shared regions l.addr then
      l.replies.head?.map fun r =>
        (some ⟨w, w.helper.ofShared (memcpy (fun _ => 0) 0 (answer r) w.bytes)⟩, mem)
    else none
  | .store w s =>
    if Private regions s.addr then
      some (none, memcpy mem s.addr.toNat (w.helper.bytes s.val) (w.helper.size / 8))
    else if Shared regions s.addr then some (none, mem)
    else none

/-! ## The map -/

theorem not_sysReg_of_isLocal (h : memmapIsLocal addr = true) : ¬ SysReg addr := by
  have hlt : addr.toNat < 0x30000000 := UInt32.lt_iff_toNat_lt.1 (of_decide_eq_true h)
  rintro ⟨hge, -⟩
  have hbase : 0xE0000000 ≤ addr.toNat := UInt32.le_iff_toNat_le.1 hge
  omega

/-- Outside of the system registers no address is that of the last one. -/
theorem registerIndex_of_not_sysReg (h : ¬ SysReg addr) :
    Stub.registerIndex addr ≠ Hsim.numSysReg - 1 := by
  intro hidx
  apply h
  rw [Stub.registerIndex, UInt32.toNat_div, UInt32.toNat_sub] at hidx
  simp only [Hsim.sysRegBase, Hsim.numSysReg, UInt32.reduceToNat] at hidx
  constructor
  · rw [UInt32.le_iff_toNat_le]
    simp only [Hsim.sysRegBase, UInt32.reduceToNat]
    have := addr.toNat_lt
    omega
  · rw [UInt32.lt_iff_toNat_lt]
    have hend : (Hsim.sysRegBase + UInt32.ofNat Hsim.numSysReg * 4).toNat = 0xE0000020 := rfl
    rw [hend]
    have := addr.toNat_lt
    omega

/-- A lookup finds a region with the address if there is one. -/
theorem typeFound_cases (h : m.Stores regions nodes) (addr : UInt32) :
    ∃ found m' nodes', Hsim.memmapFindMemRegion m addr = some (found, m') ∧
      m'.Stores regions nodes' ∧
      ((found = none ∧ ∀ r ∈ regions, r.contains addr ≠ true) ∨
        ∃ i, found = some i ∧ m'.region i ∈ regions ∧ (m'.region i).contains addr = true) := by
  obtain ⟨m', nodes', hm', hstores, hregion⟩ := h.findMemRegion addr
  refine ⟨_, m', nodes', hm', hstores, ?_⟩
  cases hfound : nodes.find? fun r => (m.region r).contains addr with
  | none =>
    refine .inl ⟨rfl, fun r hr hcontains => ?_⟩
    have hsome := h.find_isSome.2 ⟨r, hr, hcontains⟩
    rw [hfound] at hsome
    exact Bool.noConfusion hsome
  | some i =>
    obtain ⟨r, hr, hcontains⟩ := h.contains_of_find hfound
    have hi := hstores.region i r hr
    exact .inr ⟨i, rfl, hi ▸ List.mem_of_getElem? hr, hi ▸ hcontains⟩

/-- **The test on an address of the guest's own.** -/
theorem Private.isShared (hp : Private regions addr) (h : m.Stores regions nodes) :
    ∃ m' nodes', memmapIsShared m addr = some (false, m') ∧ m'.Stores regions nodes' := by
  obtain ⟨found, m', nodes', hfind, hstores, hcases⟩ := typeFound_cases h addr
  refine ⟨m', nodes', ?_, hstores⟩
  rw [Hsim.isShared_of_find hfind, decide_eq_false]
  rintro (hsys | hshared)
  · exact not_sysReg_of_isLocal hp.1 hsys
  · rcases hcases with ⟨rfl, -⟩ | ⟨i, rfl, hmem, hcontains⟩
    · exact absurd hshared (show ¬ MemoryType.memUnknown.Shared by decide)
    · exact hp.2 _ hmem hcontains hshared

/-- **The test on a shared address.** -/
theorem Shared.isShared (hs : Shared regions addr) (h : m.Stores regions nodes) :
    ∃ m' nodes', memmapIsShared m addr = some (true, m') ∧ m'.Stores regions nodes' := by
  obtain ⟨found, m', nodes', hfind, hstores, hcases⟩ := typeFound_cases h addr
  refine ⟨m', nodes', ?_, hstores⟩
  rw [Hsim.isShared_of_find hfind, decide_eq_true]
  obtain ⟨-, ⟨r, hr, hcontains⟩, hall⟩ := hs
  rcases hcases with ⟨-, hnone⟩ | ⟨i, rfl, hmem, hcontains⟩
  · exact absurd hcontains (hnone r hr)
  · exact .inr (hall _ hmem hcontains)

theorem getType_stores (h : m.Stores regions nodes) (addr : UInt32) :
    ∃ type m' nodes', memmapGetType m addr = some (type, m') ∧ m'.Stores regions nodes' := by
  obtain ⟨m', nodes', hfind, hstores, -⟩ := h.findMemRegion addr
  rw [memmapGetType]
  split
  next => exact ⟨_, m, nodes, rfl, h⟩
  next => exact ⟨_, m', nodes', by rw [hfind]; rfl, hstores⟩

/-! ## The stub -/

/-- **An access outside of the system registers** leaves the guest's memory
alone, and only reorders the map. It returns, unless it waits for an answer
that does not come. -/
theorem hsimAccess_keeps {s : Stub} {a : Access} (h : s.memmap.Stores regions nodes)
    (hreg : ¬ SysReg a.address) (hanswer : a.atype = .blockingAccess → a.rw = false →
      a.replies ≠ []) (c : UInt64) :
    ∃ s' data nodes', s.hsimAccess c a = some (s', data) ∧ s'.memmap.Stores regions nodes' ∧
      s'.guestMemory = s.guestMemory := by
  obtain ⟨type, m', nodes', hm', hstores⟩ := getType_stores h a.address
  have hlast := registerIndex_of_not_sysReg hreg
  -- what the access does, by the type
  have hdispatch : ∀ t : Stub, ∃ s' data, t.dispatchAccess (s.deltaCycle c) a type =
      some (s', data) ∧ s'.memmap = t.memmap ∧ s'.guestMemory = t.guestMemory := by
    intro t
    cases type
    case memSharedC | memSharedNc | memVirtual | memScratchpad =>
      simp only [Stub.dispatchAccess, Stub.memAccess]
      split
      next hwaits =>
        obtain ⟨hblock, hrw⟩ := hwaits
        obtain ⟨r, replies, hreplies⟩ := List.exists_cons_of_ne_nil
          (hanswer ((Hsim.blocking_iff a.atype).1 hblock) (Bool.eq_false_iff.2 hrw))
        rw [hreplies]
        exact ⟨_, _, rfl, rfl, rfl⟩
      next => exact ⟨_, _, rfl, rfl, rfl⟩
    case memInternal =>
      simp only [Stub.dispatchAccess, Stub.hsimInternalAccess, if_neg hlast, Option.map_some]
      refine ⟨_, _, rfl, ?_⟩
      unfold Stub.storeRegister
      split
      · exact ⟨rfl, rfl⟩
      · exact ⟨rfl, rfl⟩
    all_goals exact ⟨_, _, rfl, rfl, rfl⟩
  obtain ⟨t, data, ht, hmap, hmem⟩ := hdispatch { s with cpuCycle := c, memmap := m' }
  refine ⟨{ t with lastSyncCycles := c }, data, nodes', ?_, ?_, hmem⟩
  · simp only [Stub.hsimAccess, hm', Option.bind_eq_bind, Option.bind_some, ht]
  · rw [hmap]
    exact hstores

theorem hsimNotice_keeps (s : Stub) (c : UInt64) (stack : Packet) :
    (s.hsimNotice c stack).memmap = s.memmap ∧
      (s.hsimNotice c stack).guestMemory = s.guestMemory := by
  simp only [Stub.hsimNotice]
  split
  · exact ⟨rfl, rfl⟩
  · exact ⟨rfl, rfl⟩

/-! ## The simulation -/

/-- **The machine runs a plain memory**: that is what the guest's memory holds,
and the map and the caches are in order. -/
structure Machine.Runs (M : Machine F) (regions : List MemRegion) (mem : Bytes) : Prop where
  memmap : ∃ nodes, M.stub.memmap.Stores regions nodes
  cachesim : M.core.cachesim.Formed
  guestMemory : M.stub.guestMemory = mem

variable {mem : Bytes} {l : Load} {α : Type}

/-- The filter of the fetches does not fail. -/
theorem filterFetch_formed {h : Hierarchy} (hf : h.Formed) (hsim : Bool) (robSize : Int32)
    (stack : CacheMissType) (previousPc : UInt32) (curCycle : UInt64) (pc : UInt32) :
    ∃ missType h' previousPc', filterFetch h hsim robSize stack previousPc curCycle pc =
      some (missType, h', previousPc') ∧ h'.Formed := by
  unfold filterFetch
  split
  · obtain ⟨missType, h', hacc, hf', -⟩ := hf.iaccess hsim robSize stack curCycle pc
    exact ⟨missType, h', _, by rw [hacc]; rfl, hf'⟩
  · exact ⟨_, h, _, rfl, hf⟩

theorem resolveBranch_cachesim (c : Core F) (i : InstIncrement) :
    (c.resolveBranch i).cachesim = c.cachesim := by
  unfold Core.resolveBranch
  split <;> rfl

/-- The sampling looks at the caches only. -/
theorem countInst_cachesim (D : Double F) (cfg : CoreConfig) (M : Machine F) (i : Step) :
    (M.countInst D cfg i).core.cachesim = M.core.cachesim := by
  simp only [Machine.countInst, Core.countInst, Core.startPeriod, Core.finishSample, Core.firstInst]
  split_ifs <;> rfl

namespace Machine.Runs

/-- The core may change, if its caches stay in order. -/
theorem setCore (hM : M.Runs regions mem) {core : Core F} (hcore : core.cachesim.Formed) :
    ({ M with core := core } : Machine F).Runs regions mem :=
  ⟨hM.memmap, hcore, hM.guestMemory⟩

theorem setMemmap (hM : M.Runs regions mem) (hm : m.Stores regions nodes) :
    (M.setMemmap m).Runs regions mem :=
  ⟨⟨nodes, hm⟩, hM.cachesim, hM.guestMemory⟩

/-- An access through the stub. -/
theorem hsimAccess (hM : M.Runs regions mem) (hreg : ¬ SysReg l.addr) (size : ℕ)
    (atype : AccessType) (hanswer : atype = .blockingAccess → l.replies ≠ []) :
    ∃ N val, M.hsimAccess D l size atype = some (N, val) ∧ N.Runs regions mem := by
  obtain ⟨nodes, hstores⟩ := hM.memmap
  obtain ⟨s', data, nodes', hs', hstores', hmem⟩ := hsimAccess_keeps
    (a := M.access l size atype) hstores hreg (fun hblock _ => hanswer hblock)
    (UInt64.ofInt (M.core.getSimpleCycle D))
  refine ⟨⟨M.core.readTime D, s'⟩, data, by rw [Machine.hsimAccess, hs']; rfl,
    ⟨nodes', hstores'⟩, hM.cachesim, hmem.trans hM.guestMemory⟩

/-- A write through the stub does not wait. -/
theorem hsimWrite (hM : M.Runs regions mem) (hreg : ¬ SysReg l.addr) (data : Bytes) (size : ℕ)
    (atype : AccessType) :
    ∃ N, M.hsimWrite D l data size atype = some N ∧ N.Runs regions mem := by
  obtain ⟨nodes, hstores⟩ := hM.memmap
  obtain ⟨s', data', nodes', hs', hstores', hmem⟩ := hsimAccess_keeps
    (a := M.writeAccess l data size atype) hstores hreg (fun _ hrw => Bool.noConfusion hrw)
    (UInt64.ofInt (M.core.getSimpleCycle D))
  exact ⟨⟨M.core.readTime D, s'⟩, by rw [Machine.hsimWrite, hs']; rfl, ⟨nodes', hstores'⟩,
    hM.cachesim, hmem.trans hM.guestMemory⟩

theorem dcacheAccess (hM : M.Runs regions mem) (D : Double F) (cfg : CoreConfig) (a : DataAccess) :
    ∃ missType core, M.core.dcacheAccess D cfg a = some (missType, core) ∧
      ({ M with core := core } : Machine F).Runs regions mem := by
  obtain ⟨missType, cachesim, hacc, hformed, -⟩ := hM.cachesim.daccess cfg.hsim cfg.robSize a.stack
    (UInt64.ofInt (M.core.getSimpleCycle D)) a.addr a.isWrite
  rw [Core.dcacheAccess, hacc, Option.map_some]
  exact ⟨_, _, rfl, hM.setCore hformed⟩

/-- **A load of the guest's own** returns the bytes of the memory. -/
theorem load_private (hM : M.Runs regions mem) (D : Double F) (cfg : CoreConfig)
    (hp : Private regions l.addr) (h : LoadHelper α) :
    ∃ N, h.load D cfg M l = .ok (h.ofLocal fun i => mem (l.addr.toNat + i), N) ∧
      N.Runs regions mem := by
  obtain ⟨nodes, hstores⟩ := hM.memmap
  obtain ⟨m, nodes', hm, hstores'⟩ := hp.isShared hstores
  have hM' := hM.setMemmap hstores'
  obtain ⟨missType, core, hcore, hruns⟩ := hM'.dcacheAccess D cfg
    ⟨l.addr, false, l.missType⟩
  have hval : (fun i => (M.setMemmap m).stub.guestMemory (l.addr.toNat + i)) =
      fun i => mem (l.addr.toNat + i) := by
    rw [hM'.guestMemory]
  rw [h.load_of_isLocal hm hp.1, LoadHelper.loadLocal, hval, hcore, Option.bind_some]
  by_cases hmiss : missType ≠ .l1Hit
  · -- a miss is reported, into a word that nothing reads
    obtain ⟨N, val, hN, hNruns⟩ := hruns.hsimAccess (D := D) (l := l)
      (not_sysReg_of_isLocal hp.1) h.size .nonBlockingAccess (fun hne => by cases hne)
    refine ⟨N, ?_, hNruns⟩
    simp only [if_pos hmiss, hN, Option.map_some]
    rfl
  · refine ⟨_, ?_, hruns⟩
    simp only [if_neg hmiss]
    rfl

/-- **A store to the guest's own** writes the bytes of the memory. -/
theorem store_private {s : Store α} (hM : M.Runs regions mem) (D : Double F) (cfg : CoreConfig)
    (hp : Private regions s.addr) (h : StoreHelper α) :
    ∃ N, h.store D cfg M s = .ok N ∧
      N.Runs regions (memcpy mem s.addr.toNat (h.bytes s.val) (h.size / 8)) := by
  obtain ⟨nodes, hstores⟩ := hM.memmap
  obtain ⟨m, nodes', hm, hstores'⟩ := hp.isShared hstores
  have hM' := hM.setMemmap hstores'
  have hwritten : ((M.setMemmap m).storeGuest s.addr (h.bytes s.val) (h.size / 8)).Runs regions
      (memcpy mem s.addr.toNat (h.bytes s.val) (h.size / 8)) := by
    refine ⟨hM'.memmap, hM'.cachesim, ?_⟩
    simp only [Machine.storeGuest, hM'.guestMemory]
  obtain ⟨missType, core, hcore, hruns⟩ := hwritten.dcacheAccess D cfg
    ⟨s.addr, true, s.missType⟩
  have hlocal : h.store D cfg M s = orFault (h.storeLocal D cfg (M.setMemmap m) s) := by
    rw [StoreHelper.store, hm]
    exact if_pos hp.1
  rw [hlocal, StoreHelper.storeLocal, hcore, Option.bind_some]
  by_cases hmiss : missType ≠ .l1Hit
  · obtain ⟨N, hN, hNruns⟩ := hruns.hsimWrite (D := D) (l := s.toLoad)
      (not_sysReg_of_isLocal hp.1) (fun _ => 0) h.size .nonBlockingAccess
    refine ⟨N, ?_, hNruns⟩
    simp only [if_pos hmiss, hN]
    rfl
  · refine ⟨_, ?_, hruns⟩
    simp only [if_neg hmiss]
    rfl

/-- **A load of a shared address** returns the kernel's answer. -/
theorem load_shared (hM : M.Runs regions mem) (D : Double F) (cfg : CoreConfig)
    (hs : Shared regions l.addr) {r : Reply} (hr : l.replies.head? = some r) (h : LoadHelper α)
    (hsize : h.size ≤ 64) :
    ∃ N, h.load D cfg M l = .ok (h.ofShared (memcpy (fun _ => 0) 0 (answer r) (h.size / 8)), N) ∧
      N.Runs regions mem := by
  obtain ⟨nodes, hstores⟩ := hM.memmap
  obtain ⟨m, nodes', hm, hstores'⟩ := hs.isShared hstores
  have hM' := hM.setMemmap hstores'
  obtain ⟨replies, hreplies⟩ := List.head?_eq_some_iff.1 hr
  have hne : l.replies ≠ [] := hreplies ▸ List.cons_ne_nil r replies
  obtain ⟨N, val, hN, hNruns⟩ := hM'.hsimAccess (D := D) hs.1 h.size .blockingAccess fun _ => hne
  -- the access is one that the kernel serves
  obtain ⟨type, m', -, hm', -, htype⟩ := hstores.spells.getType_of_isShared hm hs.1
  obtain ⟨s, hserved⟩ := Hsim.hsimAccess_served (s := (M.setMemmap m).stub)
    (a := (M.setMemmap m).access l h.size .blockingAccess) hm' (htype.1 rfl) rfl rfl hreplies
    (UInt64.ofInt ((M.setMemmap m).core.getSimpleCycle D))
  have hval : memcpy (fun _ => 0) 0 (answer r) (h.size / 8) = val := by
    have hacc := hN
    rw [Machine.hsimAccess, hserved, Option.map_some, Option.some.injEq, Prod.mk.injEq] at hacc
    rw [← hacc.2, Nat.min_eq_left (by simp only [Machine.access]; omega)]
    rfl
  refine ⟨N, ?_, hNruns⟩
  rw [h.load_of_shared hm, LoadHelper.loadShared, hN, hval]
  rfl

/-- **A store to a shared address** goes to the kernel. -/
theorem store_shared {s : Store α} (hM : M.Runs regions mem) (D : Double F) (cfg : CoreConfig)
    (hs : Shared regions s.addr) (h : StoreHelper α) :
    ∃ N, h.store D cfg M s = .ok N ∧ N.Runs regions mem := by
  obtain ⟨nodes, hstores⟩ := hM.memmap
  obtain ⟨m, nodes', hm, hstores'⟩ := hs.isShared hstores
  obtain ⟨N, hN, hNruns⟩ := (hM.setMemmap hstores').hsimWrite (D := D) (l := s.toLoad) hs.1
    (h.bytes s.val) h.size .blockingAccess
  refine ⟨N, ?_, hNruns⟩
  rw [h.store_of_shared hm, StoreHelper.storeShared, hN]
  rfl

/-- The fetch of an instruction. -/
theorem fetchLine (hM : M.Runs regions mem) (D : Double F) (cfg : CoreConfig) (i : Step)
    (hreg : ¬ SysReg i.pc) : ∃ N, M.fetchLine D cfg i = some N ∧ N.Runs regions mem := by
  obtain ⟨missType, cachesim, previousPc, hfetch, hformed⟩ := filterFetch_formed hM.cachesim
    cfg.hsim cfg.robSize i.stack M.core.previousPc
    (UInt64.ofInt (({ M.core with curPC := i.pc } : Core F).getSimpleCycle D)) i.pc
  -- a miss is forwarded, in whatever state the clock has been read
  have hmiss : ∀ core : Core F, core.cachesim = cachesim →
      ∃ N, (({ M with core := core } : Machine F).hsimAccess D i.fetch (8 * 64) .instAccess).map
        Prod.fst = some N ∧ N.Runs regions mem := by
    rintro core rfl
    obtain ⟨N, val, hN, hNruns⟩ := (hM.setCore hformed).hsimAccess (D := D) (l := i.fetch) hreg
      (8 * 64) .instAccess (fun hne => by cases hne)
    exact ⟨N, by rw [hN]; rfl, hNruns⟩
  simp only [Machine.fetchLine, hfetch, Option.bind_some]
  split
  · exact hmiss _ rfl
  · exact ⟨_, rfl, hM.setCore hformed⟩

/-- **An instruction** leaves the memory alone. -/
theorem instIncrement (hM : M.Runs regions mem) (D : Double F) (cfg : CoreConfig) (i : Step)
    (hreg : ¬ SysReg i.pc) : ∃ N, M.instIncrement D cfg i = some N ∧ N.Runs regions mem := by
  have hbranch : (M.core.resolveBranch i.toInstIncrement).cachesim.Formed := by
    rw [resolveBranch_cachesim]
    exact hM.cachesim
  obtain ⟨N, hN, hNruns⟩ := (hM.setCore hbranch).fetchLine D cfg i hreg
  have hstub : (N.countInst D cfg i).stub.memmap = N.stub.memmap ∧
      (N.countInst D cfg i).stub.guestMemory = N.stub.guestMemory := by
    simp only [Machine.countInst]
    split
    · exact hsimNotice_keeps _ _ _
    · exact ⟨rfl, rfl⟩
  refine ⟨N.countInst D cfg i, by rw [Machine.instIncrement, hN]; rfl, ?_, ?_, ?_⟩
  · rw [hstub.1]
    exact hNruns.memmap
  · rw [countInst_cachesim]
    exact hNruns.cachesim
  · rw [hstub.2]
    exact hNruns.guestMemory

/-- **Every call of the plain guest** is one of the machine, with the same
answer. -/
theorem call (hM : M.Runs regions mem) (D : Double F) (cfg : CoreConfig) {c : HelperCall}
    {v : Option Value} {mem' : Bytes} (hcall : plainCall regions mem c = some (v, mem')) :
    ∃ N, M.call D cfg c = some (v, N) ∧ N.Runs regions mem' := by
  cases c with
  | instIncrement i =>
    simp only [plainCall] at hcall
    split at hcall
    next => cases hcall
    next hreg =>
      obtain ⟨rfl, rfl⟩ := Prod.mk.inj (Option.some.inj hcall)
      obtain ⟨N, hN, hNruns⟩ := hM.instIncrement D cfg i hreg
      exact ⟨N, by rw [Machine.call, hN]; rfl, hNruns⟩
  | setBranchInst isCond =>
    obtain ⟨rfl, rfl⟩ := Prod.mk.inj (Option.some.inj hcall)
    exact ⟨_, rfl, hM.setCore hM.cachesim⟩
  | load w l =>
    have hsize : w.helper.size ≤ 64 := by cases w <;> decide
    simp only [plainCall] at hcall
    split at hcall
    next hp =>
      obtain ⟨rfl, rfl⟩ := Prod.mk.inj (Option.some.inj hcall)
      obtain ⟨N, hN, hNruns⟩ := hM.load_private D cfg hp w.helper
      exact ⟨N, by rw [Machine.call, hN]; rfl, hNruns⟩
    next =>
      split at hcall
      next hs =>
        obtain ⟨r, hr, heq⟩ := Option.map_eq_some_iff.1 hcall
        obtain ⟨rfl, rfl⟩ := Prod.mk.inj heq
        obtain ⟨N, hN, hNruns⟩ := hM.load_shared D cfg hs hr w.helper hsize
        exact ⟨N, by rw [Machine.call, hN]; rfl, hNruns⟩
      next => cases hcall
  | store w s =>
    simp only [plainCall] at hcall
    split at hcall
    next hp =>
      obtain ⟨rfl, rfl⟩ := Prod.mk.inj (Option.some.inj hcall)
      obtain ⟨N, hN, hNruns⟩ := hM.store_private D cfg hp w.helper
      exact ⟨N, by rw [Machine.call, hN]; rfl, hNruns⟩
    next =>
      split at hcall
      next hs =>
        obtain ⟨rfl, rfl⟩ := Prod.mk.inj (Option.some.inj hcall)
        obtain ⟨N, hN, hNruns⟩ := hM.store_shared D cfg hs w.helper
        exact ⟨N, by rw [Machine.call, hN]; rfl, hNruns⟩
      next => cases hcall

/-- **So is every run.** -/
theorem log (hM : M.Runs regions mem) (D : Double F) (cfg : CoreConfig) {calls : List HelperCall}
    {values : List (HelperCall × Option Value)} {mem' : Bytes}
    (hplain : Run.log (plainCall regions) calls mem = some (values, mem')) :
    ∃ N, Run.log (Machine.call D cfg) calls M = some (values, N) ∧ N.Runs regions mem' := by
  have hstep : ∀ (M : Machine F) mem c v mem', M.Runs regions mem →
      plainCall regions mem c = some (v, mem') →
      ∃ N, M.call D cfg c = some (v, N) ∧ N.Runs regions mem' :=
    fun M mem c v mem' hM hcall => hM.call D cfg hcall
  exact Run.log_simulates hstep hM hplain

end Machine.Runs

/-- The answer of the kernel to a load. -/
def samplePacket : Packet := ⟨.read, 4, 0, 0x1000, fun i => UInt8.ofNat (i + 1), 0⟩

/-- The fetch, as the core sees it. -/
theorem Machine.fetchLine_core {i : Step} (h : M.fetchLine D cfg i = some N) :
    M.core.fetchLine D cfg i.toInstIncrement = some N.core := by
  obtain ⟨⟨missType, cachesim, previousPc⟩, hfetch, hrest⟩ := Option.bind_eq_some_iff.1 h
  simp only at hrest
  rw [Core.fetchLine, hfetch, Option.map_some]
  split at hrest
  next hmiss =>
    obtain ⟨⟨N', val⟩, hacc, rfl⟩ := Option.map_eq_some_iff.1 hrest
    simp only [if_pos hmiss, Machine.hsimAccess_core hacc]
  next hmiss =>
    simp only [if_neg hmiss, ← Option.some.inj hrest]

theorem Machine.instIncrement_core {i : Step} (h : M.instIncrement D cfg i = some N) :
    M.core.instIncrement D cfg i.toInstIncrement = some N.core := by
  obtain ⟨N', hfetch, rfl⟩ := Option.map_eq_some_iff.1 h
  have hcore := Machine.fetchLine_core hfetch
  simp only at hcore
  rw [Core.instIncrement, Core.beforePeriod, hcore]
  rfl

/-- A helper call, as the core sees it: of a load or store the access, to an
address that the map takes for shared or not. -/
inductive HelperCall.Seen (M : Machine F) : HelperCall → Call → Prop
  | instIncrement (i : Step) : Seen M (.instIncrement i) (.instIncrement i.toInstIncrement)
  | setBranchInst (isCond : Int32) : Seen M (.setBranchInst isCond) (.setBranchInst isCond)
  | load {shared : Bool} {m : Memmap} (w : Width) (l : Load)
      (h : memmapIsShared M.stub.memmap l.addr = some (shared, m)) :
      Seen M (.load w l) (.hsimAccess shared ⟨l.addr, false, l.missType⟩)
  | store {shared : Bool} {m : Memmap} (w : StoreWidth) (s : Store w.Reg)
      (h : memmapIsShared M.stub.memmap s.addr = some (shared, m)) :
      Seen M (.store w s) (.hsimAccess shared ⟨s.addr, true, s.missType⟩)

theorem toOption_eq_some {ε α : Type} {x : Except ε α} {a : α} (h : x.toOption = some a) :
    x = .ok a := by
  cases x with
  | error e => cases h
  | ok b => exact congrArg Except.ok (Option.some.inj h)

/-- **The core sees every call.** -/
theorem Machine.call_core {c : HelperCall} {v : Option Value} (h : M.call D cfg c = some (v, N)) :
    ∃ c', c.Seen M c' ∧ M.core.call D cfg c' = some N.core := by
  cases c with
  | instIncrement i =>
    obtain ⟨N', hN', heq⟩ := Option.map_eq_some_iff.1 h
    rw [← (Prod.mk.inj heq).2]
    exact ⟨_, .instIncrement i, Machine.instIncrement_core hN'⟩
  | setBranchInst isCond =>
    rw [← (Prod.mk.inj (Option.some.inj h)).2]
    exact ⟨_, .setBranchInst isCond, rfl⟩
  | load w l =>
    obtain ⟨⟨x, N'⟩, hN', heq⟩ := Option.map_eq_some_iff.1 h
    rw [← (Prod.mk.inj heq).2]
    obtain ⟨shared, m, hm, hcore⟩ := w.helper.load_core (toOption_eq_some hN')
    exact ⟨_, .load w l hm, hcore⟩
  | store w s =>
    obtain ⟨N', hN', heq⟩ := Option.map_eq_some_iff.1 h
    rw [← (Prod.mk.inj heq).2]
    obtain ⟨shared, m, hm, hcore⟩ := w.helper.store_core (toOption_eq_some hN')
    exact ⟨_, .store w s hm, hcore⟩

/-- **The core of a machine** goes through a run of the core alone. -/
theorem Machine.log_core {calls : List HelperCall} {values : List (HelperCall × Option Value)}
    (h : Run.log (Machine.call D cfg) calls M = some (values, N)) :
    ∃ calls', List.Forall₂ (fun c c' => ∃ M' : Machine F, c.Seen M' c') calls calls' ∧
      Run.play (Core.call D cfg) calls' M.core = some N.core := by
  induction calls generalizing M values with
  | nil =>
    rw [(Prod.mk.inj (Option.some.inj h)).2]
    exact ⟨[], .nil, rfl⟩
  | cons c calls ih =>
    obtain ⟨v, M', values', hcall, hrest, -⟩ := Run.log_cons_eq_some h
    obtain ⟨c', hseen, hcore⟩ := Machine.call_core hcall
    obtain ⟨calls', hall, hplay⟩ := ih hrest
    refine ⟨c' :: calls', .cons ⟨M, hseen⟩ hall, ?_⟩
    rw [Run.play, hcore]
    exact hplay

end Guest

end Tqsim
