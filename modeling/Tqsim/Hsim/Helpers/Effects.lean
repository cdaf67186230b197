import Tqsim.Hsim.Helpers.Regions
import Tqsim.Hsim.Model.Stub

/-!
# What a call sends, and when it returns

Which calls hand a packet to `comm_send`, with what cycles, and what they
leave alone; and that an access returns when the kernel answers.
-/

namespace Tqsim

namespace Hsim

variable {s s' : Stub} {a : Access} {c : UInt64} {p p' : Packet} {data : Bytes}

/-- The cycle fields of the packets that a part of a call sends; the variables
it leaves alone. -/
structure Sends (s s' : Stub) (cycles : List UInt64) : Prop where
  sent : s'.sent.map Packet.cycle = s.sent.map Packet.cycle ++ cycles
  lastSyncCycles : s'.lastSyncCycles = s.lastSyncCycles
  memmap : s'.memmap = s.memmap

theorem Sends.nil (hsent : s'.sent = s.sent) (hlast : s'.lastSyncCycles = s.lastSyncCycles)
    (hmap : s'.memmap = s.memmap) : Sends s s' [] :=
  ⟨by simp [hsent], hlast, hmap⟩

/-- What a part of a call returns. -/
theorem Sends.of_eq {β : Type} {t : Stub} {x y : β} {cycles : List UInt64}
    (h : some (t, x) = some (s', y)) (ht : Sends s t cycles) : Sends s s' cycles := by
  simp only [Option.some.injEq, Prod.mk.injEq] at h
  exact h.1 ▸ ht

/-- What follows a packet sends nothing more. -/
theorem Sends.after (h : Sends (s.commSend p) s' []) (hp : p.cycle = c) : Sends s s' [c] where
  sent := by simpa [Stub.commSend, hp] using h.sent
  lastSyncCycles := h.lastSyncCycles
  memmap := h.memmap

theorem commRecv_sends {r : Reply} {replies replies' : List Reply}
    (h : s.commRecv replies = some (s', r, replies')) : Sends s s' [] := by
  cases replies with
  | nil => cases h
  | cons r' replies => exact .of_eq h (.nil rfl rfl rfl)

/-- The answer that ends a blocking call. -/
theorem commRecv_map_sends {β : Type} {replies : List Reply} {f : Stub × Reply × List Reply → β}
    {g : β → Stub} {x : β} (hg : ∀ t r rs, Sends t (g (f (t, r, rs))) [])
    (h : (s.commRecv replies).map f = some x) : Sends s (g x) [] := by
  obtain ⟨⟨t, r, rs⟩, ht, rfl⟩ := Option.map_eq_some_iff.1 h
  have h1 := commRecv_sends ht
  have h2 := hg t r rs
  exact ⟨by rw [h2.sent, h1.sent]; simp, h2.lastSyncCycles.trans h1.lastSyncCycles,
    h2.memmap.trans h1.memmap⟩

theorem memAccess_sends (h : s.memAccess c a = some (s', data)) : Sends s s' [c] := by
  unfold Stub.memAccess at h
  simp only at h
  split at h
  next =>
    exact .after (commRecv_map_sends (g := Prod.fst) (fun t r rs => .nil rfl rfl rfl) h) rfl
  next => exact .after (.of_eq h (.nil rfl rfl rfl)) rfl

theorem awaitWakeup_sends {replies : List Reply} (h : s.awaitWakeup replies = some (s', p)) :
    Sends s s' [] := by
  induction replies generalizing s with
  | nil => cases h
  | cons r replies ih =>
    simp only [Stub.awaitWakeup] at h
    split at h
    next => exact .of_eq h (.nil rfl rfl rfl)
    next =>
      have hrest := ih h
      exact ⟨hrest.sent, hrest.lastSyncCycles, hrest.memmap⟩

theorem fetchMem_sends {dst size : UInt32} {replies : List Reply}
    (h : s.fetchMem dst size replies = some (s', p)) : Sends s s' [] := by
  unfold Stub.fetchMem at h
  split at h
  next => exact commRecv_map_sends (g := Prod.fst) (fun t r rs => .nil rfl rfl rfl) h
  next => cases h

/-- The system calls for which `hsim_internal_access` calls `comm_send`. -/
def HsimSyscall.sends : HsimSyscall → Bool
  | nop | begin | exit | setNoticePeriod | getId | wakeup | vcacheSync | getNumInsts
  | getIl1Access | getIl1Miss | setDvfsLevel | getDvfsLevel => false
  | _ => true

/-- The call in the last register, if it is one that sends. -/
def syscallSends (s : Stub) : Bool :=
  (HsimSyscall.ofCode (word s.registers (numSysReg - 1))).any HsimSyscall.sends

theorem syscall_sends (h : s.syscall p a = some (s', p')) :
    Sends s s' (if syscallSends s then [p.cycle] else []) := by
  unfold Stub.syscall at h
  unfold syscallSends
  cases hcode : HsimSyscall.ofCode (word s.registers (numSysReg - 1)) with
  | none =>
    rw [hcode] at h
    exact .of_eq h (.nil rfl rfl rfl)
  | some code =>
    rw [hcode] at h
    cases code
    case sleep => exact .after (awaitWakeup_sends h) rfl
    case fetchMem => exact .after (fetchMem_sends h) rfl
    case nop | begin | exit | setNoticePeriod | getId | wakeup | vcacheSync | getNumInsts
        | getIl1Access | getIl1Miss | setDvfsLevel | getDvfsLevel =>
      exact .of_eq h (.nil rfl rfl rfl)
    all_goals
      exact .after (commRecv_map_sends (g := Prod.fst) (fun t r rs => .nil rfl rfl rfl) h) rfl

/-- Whether an access to an address of a type calls `comm_send`. -/
def typeSends (s : Stub) (a : Access) : MemoryType → Bool
  | .memSharedC | .memSharedNc | .memVirtual | .memScratchpad => true
  | .memInternal =>
    decide (Stub.registerIndex a.address = numSysReg - 1) && syscallSends (s.storeRegister a)
  | _ => false

theorem storeRegister_sends : Sends s (s.storeRegister a) [] := by
  unfold Stub.storeRegister
  split
  · exact .nil rfl rfl rfl
  · exact .nil rfl rfl rfl

theorem hsimInternalAccess_sends (h : s.hsimInternalAccess c a = some (s', data)) :
    Sends s s' (if typeSends s a .memInternal then [c] else []) := by
  obtain ⟨⟨t, q⟩, ht, heq⟩ := Option.map_eq_some_iff.1 h
  obtain rfl : t = s' := congrArg Prod.fst heq
  have hstore := storeRegister_sends (s := s) (a := a)
  have hcall : Sends (s.storeRegister a) t (if typeSends s a .memInternal then [c] else []) := by
    simp only [typeSends]
    split at ht
    next hreg => simpa [hreg] using syscall_sends ht
    next hreg =>
      have hquiet : Sends (s.storeRegister a) t [] := .of_eq ht (.nil rfl rfl rfl)
      simpa [hreg] using hquiet
  exact ⟨by rw [hcall.sent, hstore.sent, List.append_nil],
    hcall.lastSyncCycles.trans hstore.lastSyncCycles, hcall.memmap.trans hstore.memmap⟩

theorem dispatchAccess_sends {type : MemoryType} (h : s.dispatchAccess c a type = some (s', data)) :
    Sends s s' (if typeSends s a type then [c] else []) := by
  cases type
  case memSharedC | memSharedNc | memVirtual | memScratchpad => exact memAccess_sends h
  case memInternal => exact hsimInternalAccess_sends h
  all_goals exact .of_eq h (.nil rfl rfl rfl)

theorem storeRegister_congr (s s' : Stub) (h : s'.registers = s.registers) :
    (s'.storeRegister a).registers = (s.storeRegister a).registers := by
  unfold Stub.storeRegister
  split
  · simp only [h]
  · exact h

/-- Of the state, only the registers matter. -/
theorem typeSends_congr (s s' : Stub) (h : s'.registers = s.registers) (type : MemoryType) :
    typeSends s' a type = typeSends s a type := by
  cases type <;> simp only [typeSends, syscallSends, storeRegister_congr s s' h]

/-- **Whether an access calls `comm_send`**, from the state before it. -/
def accessSends (s : Stub) (a : Access) : Bool :=
  (memmapGetType s.memmap a.address).any fun (type, _) => typeSends s a type

/-- **An access** sends the cycles since the last one, or nothing; its cycle
counts as synchronised in either case. -/
theorem hsimAccess_sends (h : s.hsimAccess c a = some (s', data)) :
    s'.sent.map Packet.cycle = s.sent.map Packet.cycle ++
        (if accessSends s a then [s.deltaCycle c] else []) ∧
      s'.lastSyncCycles = c := by
  obtain ⟨⟨type, m⟩, hm, h⟩ := Option.bind_eq_some_iff.1 h
  obtain ⟨⟨t, d⟩, ht, h⟩ := Option.bind_eq_some_iff.1 h
  simp only [Option.some.injEq, Prod.mk.injEq] at h
  obtain ⟨rfl, -⟩ := h
  have hsends := (dispatchAccess_sends ht).sent
  rw [typeSends_congr s { s with cpuCycle := c, memmap := m } rfl] at hsends
  refine ⟨?_, rfl⟩
  simp only [accessSends, hm, Option.any_some]
  exact hsends

/-- **The end** sends the cycles since the last synchronisation, as a difference
in 64 bits. -/
theorem hsimEnd_sends {numInsts : UInt64} {stack : Packet} {replies : List Reply}
    (h : s.hsimEnd c numInsts stack replies = some s') :
    s'.sent.map Packet.cycle = s.sent.map Packet.cycle ++ [c - s.lastSyncCycles] ∧
      s'.lastSyncCycles = c := by
  obtain ⟨t, ht, rfl⟩ := Option.map_eq_some_iff.1 h
  have hsends : Sends _ t [] :=
    commRecv_map_sends (g := id) (fun t r rs => .nil rfl rfl rfl) ht
  refine ⟨?_, rfl⟩
  simpa [Stub.commSend, Stub.setRegister64] using hsends.sent

/-! ## Returning -/

/-- The kernel answers an access: if it is to wake a sleeping core it does, and
if it is to transfer memory the size is not negative. -/
structure Answered (s : Stub) (a : Access) : Prop where
  wakeup : ∃ r ∈ a.replies, HsimSyscall.ofCode (word r.registers (numSysReg - 1)) = some .wakeup
  fetchSize : (word (s.storeRegister a).registers 2).toNat < 2 ^ 31

theorem commRecv_isSome {replies : List Reply} (h : replies ≠ []) : (s.commRecv replies).isSome := by
  cases replies with
  | nil => exact absurd rfl h
  | cons r replies => rfl

theorem awaitWakeup_isSome {replies : List Reply}
    (h : ∃ r ∈ replies, HsimSyscall.ofCode (word r.registers (numSysReg - 1)) = some .wakeup) :
    (s.awaitWakeup replies).isSome := by
  induction replies generalizing s with
  | nil => simp at h
  | cons r replies ih =>
    simp only [Stub.awaitWakeup]
    split
    next => rfl
    next hr =>
      obtain ⟨r', hr', hwake⟩ := h
      rcases List.mem_cons.1 hr' with rfl | hmem
      · exact absurd hwake hr
      · exact ih ⟨r', hmem, hwake⟩

theorem syscall_isSome (hans : Answered s a) : ((s.storeRegister a).syscall p a).isSome := by
  have hne : a.replies ≠ [] := by
    obtain ⟨r, hr, -⟩ := hans.wakeup
    exact List.ne_nil_of_mem hr
  unfold Stub.syscall
  cases HsimSyscall.ofCode (word (s.storeRegister a).registers (numSysReg - 1)) with
  | none => rfl
  | some code =>
    cases code
    case sleep => exact awaitWakeup_isSome hans.wakeup
    case fetchMem =>
      simp only [Stub.fetchMem, if_pos hans.fetchSize, Option.isSome_map]
      exact commRecv_isSome hne
    case nop | begin | exit | setNoticePeriod | getId | wakeup | vcacheSync | getNumInsts
        | getIl1Access | getIl1Miss | setDvfsLevel | getDvfsLevel => rfl
    all_goals
      simp only [Option.isSome_map]
      exact commRecv_isSome hne

/-- The test for a blocking access. -/
theorem blocking_iff (t : AccessType) :
    t.toFlags &&& AccessType.blockingAccess.toFlags ≠ 0 ↔ t = .blockingAccess := by
  cases t <;> decide

/-- A call waits in two cases: for the answer to a blocking access, and for
the system call in the last register. -/
theorem dispatchAccess_isSome (hmem : a.atype = .blockingAccess → a.replies ≠ [])
    (hreg : Stub.registerIndex a.address = numSysReg - 1 → Answered s a) (type : MemoryType) :
    (s.dispatchAccess c a type).isSome := by
  cases type
  case memSharedC | memSharedNc | memVirtual | memScratchpad =>
    simp only [Stub.dispatchAccess, Stub.memAccess]
    split
    next hwaits =>
      rw [Option.isSome_map]
      exact commRecv_isSome (hmem ((blocking_iff a.atype).1 hwaits.1))
    next => rfl
  case memInternal =>
    simp only [Stub.dispatchAccess, Stub.hsimInternalAccess, Option.isSome_map]
    split
    next hlast => exact syscall_isSome (hreg hlast)
    next => rfl
  all_goals rfl

/-- **An access that is answered returns**, and the map stays a list. -/
theorem hsimAccess_returns {l : List ℕ} (hmap : s.memmap.Spells l)
    (hmem : a.atype = .blockingAccess → a.replies ≠ [])
    (hreg : Stub.registerIndex a.address = numSysReg - 1 → Answered s a) (c : UInt64) :
    ∃ s' data l', s.hsimAccess c a = some (s', data) ∧ s'.memmap.Spells l' := by
  obtain ⟨type, m, l', hm, hspells⟩ := hmap.getType a.address
  have hreg' : Stub.registerIndex a.address = numSysReg - 1 →
      Answered { s with cpuCycle := c, memmap := m } a := by
    intro hlast
    refine ⟨(hreg hlast).wakeup, ?_⟩
    rw [storeRegister_congr s { s with cpuCycle := c, memmap := m } rfl]
    exact (hreg hlast).fetchSize
  obtain ⟨⟨t, data⟩, ht⟩ := Option.isSome_iff_exists.1
    (dispatchAccess_isSome (c := s.deltaCycle c) hmem hreg' type)
  refine ⟨{ t with lastSyncCycles := c }, data, l', ?_, ?_⟩
  · simp only [Stub.hsimAccess, hm, Option.bind_eq_bind, Option.bind_some, ht]
  · exact (dispatchAccess_sends ht).memmap ▸ hspells

/-- **A blocking read** of an address that the kernel serves returns the bytes
of its answer. -/
theorem hsimAccess_served {type : MemoryType} {m : Memmap} {r : Reply} {replies : List Reply}
    (hm : memmapGetType s.memmap a.address = some (type, m)) (htype : type.Shared)
    (hrw : a.rw = false) (hatype : a.atype = .blockingAccess) (hreplies : a.replies = r :: replies)
    (c : UInt64) :
    ∃ s', s.hsimAccess c a = some (s', memcpy a.data 0
      (fun i => if h : i < 8 then r.packet.data ⟨i, h⟩ else 0) (min (a.size / 8) 8)) := by
  have hdispatch : ∀ t : Stub, t.dispatchAccess (s.deltaCycle c) a type =
      t.memAccess (s.deltaCycle c) a := by
    intro t
    rcases htype with rfl | rfl | rfl <;> rfl
  simp only [Stub.hsimAccess, hm, Option.bind_eq_bind, Option.bind_some, hdispatch,
    Stub.memAccess, hrw, hatype, hreplies]
  exact ⟨_, rfl⟩

/-- **The stub starts**, with a map that is a list. -/
theorem hsimStart_returns (coreId period : Int32) (regions : List MemRegion)
    (registers guestMemory : Bytes) : ∃ s l,
      Stub.hsimStart coreId period regions registers guestMemory = some s ∧
        s.memmap.Spells l := by
  have hfold : ∀ (m : Memmap) (l : List ℕ), m.Spells l → ∃ m' l',
      regions.foldlM memmapAddRegion m = some m' ∧ m'.Spells l' := by
    induction regions with
    | nil => exact fun m l hm => ⟨m, l, rfl, hm⟩
    | cons r regions ih =>
      intro m l hm
      obtain ⟨m₁, h₁, hspells, -⟩ := hm.addRegion r
      obtain ⟨m', l', h', hspells'⟩ := ih m₁ _ hspells
      exact ⟨m', l', by rw [List.foldlM_cons, h₁]; exact h', hspells'⟩
  obtain ⟨m, l, hm, hspells⟩ := hfold _ _ spells_memmapInitialize
  exact ⟨_, l, by rw [Stub.hsimStart, hm]; rfl, hspells⟩

end Hsim

end Tqsim
