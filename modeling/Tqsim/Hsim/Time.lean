import Tqsim.Hsim.Helpers.Effects

/-!
# The time that the packets carry

Each packet carries the cycles that have passed since the last one, so that
the simulation kernel, which adds them up, knows the time of the core. The
sum is right just when every access sends a packet: `hsim_access` counts its
cycle as synchronised whether or not it sends one, and what it does not send
is lost. `hsim_notice` does so only when it sends.
-/

namespace Tqsim

namespace Hsim

variable {s s' : Stub} {a : Access} {c : UInt64}

/-- The cycles that all packets sent carry. -/
def sentCycles (s : Stub) : ℕ := ((s.sent.map Packet.cycle).map UInt64.toNat).sum

/-- An access that arrives with no cycle advance since the last
synchronisation. -/
def noAdvance (s : Stub) : Event → ℕ
  | .access c _ => if c > s.lastSyncCycles then 0 else 1
  | _ => 0

/-- The cycles that an access does not send. -/
def droppedCycles (s : Stub) : Event → ℕ
  | .access c a => if accessSends s a then 0 else (s.deltaCycle c).toNat
  | _ => 0

theorem deltaCycle_toNat (h : s.lastSyncCycles ≤ c) (a : Access) :
    s.lastSyncCycles.toNat + (s.deltaCycle c).toNat = c.toNat + noAdvance s (.access c a) := by
  have hle := UInt64.le_iff_toNat_le.1 h
  simp only [Stub.deltaCycle, noAdvance]
  split
  next hlt =>
    rw [UInt64.toNat_sub_of_le _ _ h]
    omega
  next hlt =>
    have := UInt64.lt_iff_toNat_lt.not.1 hlt
    rw [UInt64.toNat_one]
    omega

theorem deltaCycle_pos : 0 < (s.deltaCycle c).toNat := by
  unfold Stub.deltaCycle
  split
  next hlt =>
    have hlt := UInt64.lt_iff_toNat_lt.1 hlt
    rw [UInt64.toNat_sub_of_le _ _ (UInt64.le_iff_toNat_le.2 hlt.le)]
    omega
  next => exact Nat.one_pos

/-- An access drops something unless it sends. -/
theorem droppedCycles_eq_zero_iff : droppedCycles s (.access c a) = 0 ↔ accessSends s a = true := by
  have hpos := deltaCycle_pos (s := s) (c := c)
  simp only [droppedCycles]
  split
  next h => simp [h]
  next h => simp [h, hpos.ne']

/-- **One event.** What is sent, and what is dropped, is the time that has
passed, and one cycle for an access without any. -/
theorem step_cycles {e : Event} (hs' : s.step e = some s')
    (hle : ∀ c ∈ e.cycle?, s.lastSyncCycles ≤ c) :
    sentCycles s' + droppedCycles s e + s.lastSyncCycles.toNat =
      sentCycles s + noAdvance s e + s'.lastSyncCycles.toNat := by
  cases e with
  | access c a =>
    obtain ⟨⟨t, data⟩, ht, rfl⟩ := Option.map_eq_some_iff.1 hs'
    obtain ⟨hsent, hlast⟩ := hsimAccess_sends ht
    have hdelta := deltaCycle_toNat (hle c rfl) a
    simp only [sentCycles, hsent, hlast, droppedCycles]
    split
    · simp only [List.map_append, List.map_cons, List.map_nil, List.sum_append, List.sum_cons,
        List.sum_nil]
      omega
    · simp only [List.append_nil]
      omega
  | notice c stack =>
    obtain rfl := Option.some.inj hs'
    have hle := hle c rfl
    have := UInt64.le_iff_toNat_le.1 hle
    simp only [Stub.hsimNotice, droppedCycles, noAdvance]
    split
    · simp only [sentCycles, Stub.commSync, Stub.commSend, List.map_append, List.map_cons,
        List.map_nil, List.sum_append, List.sum_cons, List.sum_nil, UInt64.toNat_sub_of_le _ _ hle]
      omega
    · rfl
  | peer registers =>
    obtain rfl := Option.some.inj hs'
    rfl

/-- The last synchronisation was at an earlier one of the calls' cycles. -/
theorem step_lastSyncCycles {e : Event} (hs' : s.step e = some s') :
    s'.lastSyncCycles = s.lastSyncCycles ∨ s'.lastSyncCycles ∈ e.cycle? := by
  cases e with
  | access c a =>
    obtain ⟨⟨t, data⟩, ht, rfl⟩ := Option.map_eq_some_iff.1 hs'
    exact .inr (by simp [(hsimAccess_sends ht).2, Event.cycle?])
  | notice c stack =>
    obtain rfl := Option.some.inj hs'
    simp only [Stub.hsimNotice]
    split
    · exact .inr rfl
    · exact .inl rfl
  | peer registers =>
    obtain rfl := Option.some.inj hs'
    exact .inl rfl

/-- **A run**, with cycle arguments that never decrease. -/
theorem run_cycles {events : List Event} {last : UInt64}
    (hrun : Run.play Stub.step events s = some s')
    (hmono : (events.filterMap Event.cycle? ++ [last]).Pairwise (· ≤ ·))
    (hle : ∀ c ∈ events.filterMap Event.cycle? ++ [last], s.lastSyncCycles ≤ c) :
    sentCycles s' + Run.tally Stub.step droppedCycles events s + s.lastSyncCycles.toNat =
        sentCycles s + Run.tally Stub.step noAdvance events s + s'.lastSyncCycles.toNat ∧
      s'.lastSyncCycles ≤ last := by
  induction events generalizing s with
  | nil =>
    obtain rfl := Option.some.inj hrun
    exact ⟨rfl, hle last (by simp)⟩
  | cons e events ih =>
    obtain ⟨t, ht, hrun⟩ := Option.bind_eq_some_iff.1 hrun
    have hsub : (events.filterMap Event.cycle? ++ [last]).Sublist
        ((e :: events).filterMap Event.cycle? ++ [last]) :=
      (List.Sublist.filterMap _ (List.sublist_cons_self e events)).append_right _
    have hstep := step_cycles ht fun c hc => hle c (by
      rw [List.filterMap_cons_some hc]
      simp)
    have hle' : ∀ c ∈ events.filterMap Event.cycle? ++ [last], t.lastSyncCycles ≤ c := by
      intro c hc
      rcases step_lastSyncCycles ht with heq | hmem
      · exact heq ▸ hle c (hsub.subset hc)
      · rw [List.filterMap_cons_some hmem] at hmono
        exact List.rel_of_pairwise_cons hmono hc
    obtain ⟨hrest, hlast⟩ := ih hrun (hmono.sublist hsub) hle'
    refine ⟨?_, hlast⟩
    simp only [Run.tally, ht, Option.elim_some]
    omega

theorem sentCycles_hsimEnd {last numInsts : UInt64} {stack : Packet} {replies : List Reply}
    (h : s.hsimEnd last numInsts stack replies = some s') (hle : s.lastSyncCycles ≤ last) :
    sentCycles s' + s.lastSyncCycles.toNat = sentCycles s + last.toNat := by
  have hle' := UInt64.le_iff_toNat_le.1 hle
  simp only [sentCycles, (hsimEnd_sends h).1, List.map_append, List.map_cons, List.map_nil,
    List.sum_append, List.sum_cons, List.sum_nil, UInt64.toNat_sub_of_le _ _ hle]
  omega

/-- **The account of a whole run**, from `hsim_start` to `hsim_end`. -/
theorem sentCycles_add_dropped {coreId period : Int32} {regions : List MemRegion}
    {registers guestMemory : Bytes} {events : List Event} {last numInsts : UInt64}
    {stack : Packet} {replies : List Reply} {s₀ : Stub}
    (hstart : Stub.hsimStart coreId period regions registers guestMemory = some s₀)
    (hrun : Run.play Stub.step events s₀ = some s)
    (hend : s.hsimEnd last numInsts stack replies = some s')
    (hmono : (events.filterMap Event.cycle? ++ [last]).Pairwise (· ≤ ·)) :
    sentCycles s' + Run.tally Stub.step droppedCycles events s₀ =
      last.toNat + Run.tally Stub.step noAdvance events s₀ := by
  obtain ⟨m, -, rfl⟩ := Option.map_eq_some_iff.1 hstart
  obtain ⟨hsum, hlast⟩ := run_cycles hrun hmono fun c _ => UInt64.le_iff_toNat_le.2 (Nat.zero_le _)
  have hout := sentCycles_hsimEnd hend hlast
  -- the stub starts at cycle zero with nothing sent
  simp only [UInt64.toNat_zero, show ∀ t : Stub, t.sent = [] → sentCycles t = 0 from
    fun t ht => by simp [sentCycles, ht]] at hsum
  omega

/-- **When no simulated time is dropped.** The packets of a run carry the time
at its end, and one cycle for each access that arrives with no advance, just
when every access sends a packet. -/
theorem sentCycles_eq_iff (coreId period : Int32) (regions : List MemRegion)
    (registers guestMemory : Bytes) (events : List Event) (last numInsts : UInt64)
    (stack : Packet) (replies : List Reply) (s₀ s s' : Stub)
    (hstart : Stub.hsimStart coreId period regions registers guestMemory = some s₀)
    (hrun : Run.play Stub.step events s₀ = some s)
    (hend : s.hsimEnd last numInsts stack replies = some s')
    (hmono : (events.filterMap Event.cycle? ++ [last]).Pairwise (· ≤ ·)) :
    sentCycles s' = last.toNat + Run.tally Stub.step noAdvance events s₀ ↔
      ∀ before c a after t, events = before ++ .access c a :: after →
        Run.play Stub.step before s₀ = some t → accessSends t a = true := by
  have hsum := sentCycles_add_dropped hstart hrun hend hmono
  have hzero : sentCycles s' = last.toNat + Run.tally Stub.step noAdvance events s₀ ↔
      Run.tally Stub.step droppedCycles events s₀ = 0 := by omega
  rw [hzero, Run.tally_eq_zero_iff]
  constructor
  · intro h before c a after t heq ht
    exact droppedCycles_eq_zero_iff.1 (h before _ after t heq ht)
  · intro h before e after t heq ht
    cases e with
    | access c a => exact droppedCycles_eq_zero_iff.2 (h before c a after t heq ht)
    | notice c stack => rfl
    | peer registers => rfl

/-! ## Two runs -/

/-- A packet, and an answer of the kernel, with nothing in them. -/
def blankPacket : Packet := ⟨.read, 0, 0, 0, fun _ => 0, 0⟩

def blankReply : Reply := ⟨blankPacket, fun _ => 0, fun _ => 0⟩

/-- What a run at the default notice period sends, and how many of its
accesses arrive with no advance. -/
def outcome (regions : List MemRegion) (events : List Event) (last : UInt64) : Option (ℕ × ℕ) :=
  (Stub.hsimStart 0 500 regions (fun _ => 0) (fun _ => 0)).bind fun s₀ =>
    (Run.play Stub.step events s₀).bind fun s =>
      (s.hsimEnd last 0 blankPacket [blankReply]).map fun s' =>
        (sentCycles s', Run.tally Stub.step noAdvance events s₀)

theorem exists_run_of_outcome {regions : List MemRegion} {events : List Event} {last : UInt64}
    {n k : ℕ} (h : outcome regions events last = some (n, k)) : ∃ s₀ s s',
      Stub.hsimStart 0 500 regions (fun _ => 0) (fun _ => 0) = some s₀ ∧
        Run.play Stub.step events s₀ = some s ∧
        s.hsimEnd last 0 blankPacket [blankReply] = some s' ∧
        sentCycles s' = n ∧ Run.tally Stub.step noAdvance events s₀ = k := by
  obtain ⟨s₀, hstart, h⟩ := Option.bind_eq_some_iff.1 h
  obtain ⟨s, hrun, h⟩ := Option.bind_eq_some_iff.1 h
  obtain ⟨s', hend, h⟩ := Option.map_eq_some_iff.1 h
  exact ⟨s₀, s, s', hstart, hrun, hend, congrArg Prod.fst h, congrArg Prod.snd h⟩

/-- A write that waits for no answer. -/
def sampleWrite (address : UInt32) : Access where
  address := address
  rw := true
  data _ := 0
  size := 32
  atype := .nonBlockingAccess
  stack := blankPacket
  replies := []
  cachesimIl1NumMiss := 0
  cachesimIl1NumAccess := 0
  numInsts := 0

def sharedRegion : MemRegion := ⟨0x30000000, 0x1000, .memSharedC⟩

/-- Two writes to a shared region in the same cycle, and a notice. -/
def sharedEvents : List Event :=
  [.access 5 (sampleWrite 0x30000010), .access 5 (sampleWrite 0x30000020), .notice 600 blankPacket]

theorem sentCycles_eq_sharedEvents : ∃ s₀ s',
    Stub.hsimStart 0 500 [sharedRegion] (fun _ => 0) (fun _ => 0) = some s₀ ∧
      sentCycles s' = 700 + Run.tally Stub.step noAdvance sharedEvents s₀ ∧
      ∀ before c a after t, sharedEvents = before ++ .access c a :: after →
        Run.play Stub.step before s₀ = some t → accessSends t a = true := by
  obtain ⟨s₀, s, s', hstart, hrun, hend, hsent, hlate⟩ := exists_run_of_outcome
    (show outcome [sharedRegion] sharedEvents 700 = some (701, 1) by decide)
  have hsum : sentCycles s' = 700 + Run.tally Stub.step noAdvance sharedEvents s₀ := by
    rw [hsent, hlate]
  exact ⟨s₀, s', hstart, hsum, (sentCycles_eq_iff 0 500 [sharedRegion] (fun _ => 0) (fun _ => 0)
    sharedEvents 700 0 blankPacket [blankReply] s₀ s s' hstart hrun hend (by decide)).1 hsum⟩

/-- A write to an address of no region: its cycles are sent neither with it nor
later. -/
def unmappedEvents : List Event := [.access 5 (sampleWrite 0x40000000)]

theorem sentCycles_ne_unmappedEvents : ∃ s₀ s s',
    Stub.hsimStart 0 500 [sharedRegion] (fun _ => 0) (fun _ => 0) = some s₀ ∧
      Run.play Stub.step unmappedEvents s₀ = some s ∧
      s.hsimEnd 5 0 blankPacket [blankReply] = some s' ∧
      (unmappedEvents.filterMap Event.cycle? ++ [5]).Pairwise (· ≤ ·) ∧
      sentCycles s' = 0 ∧ Run.tally Stub.step noAdvance unmappedEvents s₀ = 0 := by
  obtain ⟨s₀, s, s', hstart, hrun, hend, hsent, hlate⟩ := exists_run_of_outcome
    (show outcome [sharedRegion] unmappedEvents 5 = some (0, 0) by decide)
  exact ⟨s₀, s, s', hstart, hrun, hend, by decide, hsent, hlate⟩

end Hsim

end Tqsim
