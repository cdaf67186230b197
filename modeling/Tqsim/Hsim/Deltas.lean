import Tqsim.Hsim.Time

/-!
# Cycles that go back

The estimate of the time may be revised downwards, and the cycle arguments of
the calls with it. `hsim_access` and `hsim_notice` look whether their argument
lies before the last synchronisation, and `hsim_end` does not: its packet is
the one that can carry a difference that has wrapped around.
-/

namespace Tqsim

namespace Hsim

variable {s s' : Stub} {c : UInt64}

/-- A call, or a store of the kernel in between. What the map looks like once
`hsim_end` has freed its regions comes with the call. -/
inductive StubCall where
  | event (e : Event)
  | hsimEnd (cycle numInsts : UInt64) (stack : Packet) (replies : List Reply) (memmap : Memmap)

/-- The cycle argument of a call. -/
def StubCall.cycle? : StubCall → Option UInt64
  | event e => e.cycle?
  | hsimEnd c _ _ _ _ => some c

/-- The state after a call. -/
def Stub.call (s : Stub) : StubCall → Option Stub
  | .event e => s.step e
  | .hsimEnd c numInsts stack replies memmap =>
    (s.hsimEnd c numInsts stack replies).map fun s => { s with memmap := memmap }

/-- **The cycles that a call sends**, one number for each packet that it hands to
`comm_send`, also where it does not return afterwards. -/
def StubCall.sends (s : Stub) : StubCall → List UInt64
  | event (.access c a) => if accessSends s a then [s.deltaCycle c] else []
  | event (.notice c _) =>
    if c > s.lastSyncCycles ∧ c - s.lastSyncCycles > s.commNoticePeriod.toInt64.toUInt64 then
      [c - s.lastSyncCycles]
    else []
  | event (.peer _) => []
  | hsimEnd c _ _ _ _ => [c - s.lastSyncCycles]

/-- **No packet carries a wrapped time.** -/
def StubCall.Unwrapped (s : Stub) (k : StubCall) : Prop :=
  ∀ c ∈ k.cycle?, ∀ d ∈ k.sends s, d.toNat ≤ max 1 c.toNat

/-- A call of `hsim_end` does not lie before the last synchronisation; or its
argument is zero and the last synchronisation at the last cycle that there is,
one before it. -/
def StubCall.InTime (s : Stub) : StubCall → Prop
  | event _ => True
  | hsimEnd c _ _ _ _ => s.lastSyncCycles ≤ c ∨ c = 0 ∧ s.lastSyncCycles = -1

instance StubCall.decidableInTime (s : Stub) (k : StubCall) : Decidable (k.InTime s) := by
  cases k <;> unfold StubCall.InTime <;> infer_instance

/-! ## What is sent -/

/-- **A call that returns** has sent just that. -/
theorem call_sends {k : StubCall} (h : s.call k = some s') :
    s'.sent.map Packet.cycle = s.sent.map Packet.cycle ++ k.sends s := by
  cases k with
  | hsimEnd c numInsts stack replies memmap =>
    obtain ⟨t, ht, rfl⟩ := Option.map_eq_some_iff.1 h
    exact (hsimEnd_sends ht).1
  | event e =>
    cases e with
    | access c a =>
      obtain ⟨⟨t, data⟩, ht, rfl⟩ := Option.map_eq_some_iff.1 h
      exact (hsimAccess_sends ht).1
    | notice c stack =>
      obtain rfl := Option.some.inj h
      simp only [Stub.hsimNotice, StubCall.sends]
      split
      · simp only [Stub.commSync, Stub.commSend, List.map_append, List.map_cons, List.map_nil]
      · rw [List.append_nil]
    | peer registers =>
      obtain rfl := Option.some.inj h
      exact (List.append_nil _).symm

/-! ## The bounds -/

theorem toNat_sub_le_max (h : c > s.lastSyncCycles) :
    (c - s.lastSyncCycles).toNat ≤ max 1 c.toNat := by
  rw [UInt64.toNat_sub_of_le _ _ (UInt64.le_of_lt h)]
  omega

theorem deltaCycle_le (s : Stub) (c : UInt64) : (s.deltaCycle c).toNat ≤ max 1 c.toNat := by
  unfold Stub.deltaCycle
  split
  next hlt => exact toNat_sub_le_max hlt
  next => exact le_max_left _ _

/-- **The difference of `hsim_end`**, which nothing guards. -/
theorem toNat_sub_le_max_iff (c last : UInt64) :
    (c - last).toNat ≤ max 1 c.toNat ↔ last ≤ c ∨ c = 0 ∧ last = -1 := by
  have hc := c.toNat_lt
  have hl := last.toNat_lt
  have htop : (-1 : UInt64).toNat = 2 ^ 64 - 1 := by decide
  rw [UInt64.toNat_sub, UInt64.le_iff_toNat_le, ← UInt64.toNat_inj, ← UInt64.toNat_inj, htop,
    UInt64.toNat_zero]
  omega

/-- **One call.** -/
theorem unwrapped_iff (s : Stub) (k : StubCall) : k.Unwrapped s ↔ k.InTime s := by
  unfold StubCall.Unwrapped
  cases k with
  | hsimEnd c numInsts stack replies memmap =>
    simp only [StubCall.cycle?, StubCall.sends, StubCall.InTime, Option.mem_some_iff, forall_eq',
      List.mem_singleton, forall_eq]
    exact toNat_sub_le_max_iff c s.lastSyncCycles
  | event e =>
    refine iff_of_true ?_ trivial
    intro c hc d hd
    cases e with
    | access c' a =>
      obtain rfl := Option.some.inj hc
      simp only [StubCall.sends] at hd
      split at hd
      next => exact List.mem_singleton.1 hd ▸ deltaCycle_le s _
      next => cases hd
    | notice c' stack =>
      obtain rfl := Option.some.inj hc
      simp only [StubCall.sends] at hd
      split at hd
      next h => exact List.mem_singleton.1 hd ▸ toNat_sub_le_max h.1
      next => cases hd
    | peer registers => cases hc

/-- **When no packet carries a wrapped time**: just if no call of `hsim_end` lies
before the last synchronisation. -/
theorem every_unwrapped_iff (calls : List StubCall) (s₀ : Stub) :
    (∀ before k after s s', calls = before ++ k :: after →
        Run.play Stub.call before s₀ = some s → s.call k = some s' →
        s'.sent.map Packet.cycle = s.sent.map Packet.cycle ++ k.sends s) ∧
      (Run.Every Stub.call (fun s k => k.Unwrapped s) calls s₀ ↔
        Run.Every Stub.call (fun s k => k.InTime s) calls s₀) := by
  refine ⟨fun before k after s s' _ _ hcall => call_sends hcall, ?_⟩
  simp only [unwrapped_iff]

/-- A notice, and an end at a cycle before it. -/
def earlyEnd : List StubCall :=
  [.event (.notice 600 blankPacket), .hsimEnd 5 0 blankPacket [blankReply] memmapInitialize]

/-- The last packet carries 595 cycles less than none. -/
theorem sends_earlyEnd : ∃ s₀ s,
    Stub.hsimStart 0 500 [] (fun _ => 0) (fun _ => 0) = some s₀ ∧
      Run.play Stub.call earlyEnd s₀ = some s ∧
      s.sent.map (fun p => p.cycle.toNat) = [600, 2 ^ 64 - 595] ∧
      ¬ Run.Every Stub.call (fun s k => k.Unwrapped s) earlyEnd s₀ := by
  refine ⟨_, _, rfl, rfl, by decide, ?_⟩
  simp only [unwrapped_iff]
  decide

/-! ## Ends that come last -/

/-- The last synchronisation was at the argument of an earlier call. -/
theorem call_lastSyncCycles {k : StubCall} (h : s.call k = some s') :
    s'.lastSyncCycles = s.lastSyncCycles ∨ s'.lastSyncCycles ∈ k.cycle? := by
  cases k with
  | event e => exact step_lastSyncCycles h
  | hsimEnd c numInsts stack replies memmap =>
    obtain ⟨t, ht, rfl⟩ := Option.map_eq_some_iff.1 h
    exact .inr (congrArg some (hsimEnd_sends ht).2.symm)

theorem play_lastSyncCycles {calls : List StubCall} (h : Run.play Stub.call calls s = some s') :
    s'.lastSyncCycles = s.lastSyncCycles ∨ s'.lastSyncCycles ∈ calls.filterMap StubCall.cycle? := by
  induction calls generalizing s with
  | nil => exact .inl (Option.some.inj h ▸ rfl)
  | cons k calls ih =>
    obtain ⟨t, ht, h⟩ := Option.bind_eq_some_iff.1 h
    rcases ih h with heq | hmem
    · rw [heq]
      rcases call_lastSyncCycles ht with hlast | hlast
      · exact .inl hlast
      · exact .inr (List.mem_filterMap.2 ⟨k, List.mem_cons_self, hlast⟩)
    · obtain ⟨k', hk', hcycle⟩ := List.mem_filterMap.1 hmem
      exact .inr (List.mem_filterMap.2 ⟨k', List.mem_cons_of_mem k hk', hcycle⟩)

/-- **Where every `hsim_end` comes at the latest cycle so far**, no packet
carries a wrapped time, whatever the other arguments are. -/
theorem every_unwrapped_of_latest {calls : List StubCall} {s₀ : Stub} (hs₀ : s₀.lastSyncCycles = 0)
    (hlatest : ∀ before c numInsts stack replies memmap after,
      calls = before ++ .hsimEnd c numInsts stack replies memmap :: after →
        ∀ c' ∈ before.filterMap StubCall.cycle?, c' ≤ c) :
    Run.Every Stub.call (fun s k => k.Unwrapped s) calls s₀ := by
  refine Run.every_iff.2 fun before k after s heq hplay => (unwrapped_iff s k).2 ?_
  cases k with
  | event e => trivial
  | hsimEnd c numInsts stack replies memmap =>
    refine .inl ?_
    rcases play_lastSyncCycles hplay with hlast | hmem
    · rw [hlast, hs₀]
      exact UInt64.le_iff_toNat_le.2 (Nat.zero_le _)
    · exact hlatest before c numInsts stack replies memmap after heq _ hmem

end Hsim

end Tqsim
