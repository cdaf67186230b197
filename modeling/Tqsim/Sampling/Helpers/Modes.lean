import Tqsim.Sampling.Helpers.Invariant

/-!
# The modes of the two threads

`Inv` follows the phases of a run whose samples are no longer than their
period. Nothing is assumed here about the two numbers: whatever they are, the
guest and the analysis thread together are in one of three modes, and while
a sample is recorded the buffer holds its instructions, as far as there is
room, with the addresses that were pushed since.
-/

namespace Tqsim

namespace Sampling

open TraceAnalyzer

variable {F : Type} {E : Env F} {cfg : SampleConfig} {s s' : Sampler F} {an : State F}
variable {perf : Perfmodel F}

/-! ## The calls -/

/-- The accesses among the latest calls, listed newest first, back to the
instruction before which `k` others come. -/
def accessesBack : ℕ → List Call → ℕ
  | _, [] => 0
  | k, .dcacheAccess _ _ _ :: calls => accessesBack k calls + 1
  | k, .setBranchInst _ :: calls => accessesBack k calls
  | 0, .instIncrement _ :: _ => 0
  | k + 1, .instIncrement _ :: calls => accessesBack k calls

/-- **The accesses since an instruction**: the last one for `k = 0`, and for
each greater `k` one instruction further back. -/
def accessesSince (k : ℕ) (history : List Call) : ℕ := accessesBack k history.reverse

section Calls

variable (k : ℕ) (h : List Call)

@[simp] theorem accessesSince_dcacheAccess (addr : UInt32) (w : Bool)
    (d : UInt32 → Bool → CacheMissType) :
    accessesSince k (h ++ [.dcacheAccess addr w d]) = accessesSince k h + 1 := by
  simp [accessesSince, accessesBack]

@[simp] theorem accessesSince_setBranchInst (isCond : UInt32) :
    accessesSince k (h ++ [.setBranchInst isCond]) = accessesSince k h := by
  simp [accessesSince, accessesBack]

@[simp] theorem accessesSince_zero_instIncrement (i : InstIncrement) :
    accessesSince 0 (h ++ [.instIncrement i]) = 0 := by
  simp [accessesSince, accessesBack]

@[simp] theorem accessesSince_succ_instIncrement (i : InstIncrement) :
    accessesSince (k + 1) (h ++ [.instIncrement i]) = accessesSince k h := by
  simp [accessesSince, accessesBack]

end Calls

/-! ## The buffer while a sample is recorded -/

/-- **What the buffer holds** after `n` instructions of a sample, the calls so
far being `h`. -/
structure Holds (q : InstQueue Inst) (n : ℕ) (h : List Call) : Prop where
  capacity : q.capacity = traceBufferCapacity
  size : q.elems.length = min n 1000001
  recorded : ∀ inst ∈ q.elems, inst.Recorded
  newest : ∀ inst, q.elems.getLast? = some inst →
    inst.effAddr.length = accessesSince (n - 1000001) h

namespace Holds

variable {q q' : InstQueue Inst} {n : ℕ} {h : List Call}

theorem empty (h : List Call) : Holds ⟨[], traceBufferCapacity⟩ 0 h where
  capacity := rfl
  size := (Nat.zero_min _).symm
  recorded := by simp
  newest := by simp

theorem fits (hq : Holds q n h) : q.Fits := by
  have hsize := hq.size
  refine .inr ?_
  rw [hq.capacity, InstQueue.size, hsize, traceBufferCapacity]
  omega

/-- The buffer, as the trace of an analysis. -/
def trace (hq : Holds q n h) : Trace := ⟨q, hq.fits, hq.recorded⟩

theorem isFullQueue_iff (hq : Holds q n h) : q.isFullQueue = true ↔ 1000001 ≤ n := by
  have hsize := hq.size
  simp only [InstQueue.isFullQueue, InstQueue.size, hq.capacity, traceBufferCapacity, hsize]
  simp

/-- A record is stored while there is room, and the newest one stays the
newest afterwards. -/
theorem pushCode (hq : Holds q n h) (seq pc code : UInt32) (m : CacheMissType) (i : InstIncrement) :
    Holds (pushCode q seq pc code m) (n + 1) (h ++ [.instIncrement i]) := by
  have hsize := hq.size
  unfold Sampling.pushCode
  split
  next hfull =>
    have hn := hq.isFullQueue_iff.1 hfull
    refine ⟨hq.capacity, by omega, hq.recorded, fun inst hinst => ?_⟩
    rw [show n + 1 - 1000001 = n - 1000001 + 1 by omega, accessesSince_succ_instIncrement]
    exact hq.newest inst hinst
  next hfull =>
    have hn : n < 1000001 := Nat.lt_of_not_le fun hle => hfull (hq.isFullQueue_iff.2 hle)
    have hroom : q.HasRoom := (isFullQueue_eq_false_iff q).1 (Bool.eq_false_iff.2 hfull)
    rw [InstQueue.pushBackInst, if_pos hroom]
    refine ⟨hq.capacity, ?_, fun inst hinst => ?_, fun inst hinst => ?_⟩
    · rw [List.length_append, hsize, List.length_singleton]
      omega
    · rcases List.mem_append.1 hinst with hold | hnew
      · exact hq.recorded inst hold
      · obtain rfl := List.mem_singleton.1 hnew
        exact ⟨_, _, _, rfl⟩
    · obtain rfl := Option.some.inj (List.getLast?_concat.symm.trans hinst)
      rw [show n + 1 - 1000001 = 0 by omega, accessesSince_zero_instIncrement]
      rfl

/-- A change of the newest record that appends addresses to it. -/
theorem updateNewest (hq : Holds q n h) {f : Inst → Inst} {h' : List Call}
    (hf : ∀ inst, inst.Recorded → (f inst).Recorded)
    (hlen : ∀ inst, inst.effAddr.length = accessesSince (n - 1000001) h →
      (f inst).effAddr.length = accessesSince (n - 1000001) h')
    (hq' : updateNewest q f = some q') : Holds q' n h' := by
  obtain ⟨last, hlast, rfl⟩ := Option.map_eq_some_iff.1 hq'
  have hmem : last ∈ q.elems := List.mem_of_getLast? hlast
  have hpos := List.length_pos_of_mem hmem
  refine ⟨hq.capacity, ?_, fun inst hinst => ?_, fun inst hinst => ?_⟩
  · rw [List.length_append, List.length_dropLast, List.length_singleton, ← hq.size]
    omega
  · rcases List.mem_append.1 hinst with hold | hnew
    · exact hq.recorded inst (List.mem_of_mem_dropLast hold)
    · obtain rfl := List.mem_singleton.1 hnew
      exact hf last (hq.recorded last hmem)
  · obtain rfl := Option.some.inj (List.getLast?_concat.symm.trans hinst)
    exact hlen last (hq.newest last hlast)

theorem pushMemaddr (hq : Holds q n h) {addr : UInt32} {w : Bool}
    {d : UInt32 → Bool → CacheMissType} (hq' : pushMemaddr q addr (d addr w) = some q') :
    Holds q' n (h ++ [.dcacheAccess addr w d]) := by
  refine hq.updateNewest (fun inst hinst => ?_) (fun inst hinst => ?_) hq'
  · obtain ⟨seq, pc, code, heq⟩ := hinst
    exact ⟨seq, pc, code, by rw [heq]; rfl⟩
  · rw [accessesSince_dcacheAccess, ← hinst]
    exact List.length_append

theorem pushBpred (hq : Holds q n h) {correct : Bool} (hq' : pushBpred q correct = some q') :
    Holds q' n h := by
  refine hq.updateNewest (fun inst hinst => ?_) (fun inst hinst => ?_) hq'
  · obtain ⟨seq, pc, code, heq⟩ := hinst
    exact ⟨seq, pc, code, by rw [heq]; rfl⟩
  · exact hinst

theorem setBranchInst (hq : Holds q n h) (isCond : UInt32) :
    Holds q n (h ++ [.setBranchInst isCond]) :=
  ⟨hq.capacity, hq.size, hq.recorded, by simpa using hq.newest⟩

end Holds

/-! ## The modes -/

/-- The statements of `inst_increment` after `if (!num_insts)`. -/
def Loc.begun : Loc → Bool
  | .finish _ _ | .period _ _ | .record _ _ => true
  | _ => false

/-- The calls that the buffer has followed: one of `inst_increment` is among
them when it has ended. -/
def Sampler.followed (s : Sampler F) : List Call :=
  if s.loc.underWay = 0 then s.history else s.history.dropLast

/-- Before the first instruction has set anything up. -/
structure Before (s : Sampler F) : Prop where
  isSampled : s.isSampled = false
  thread : s.thread = .idle
  numThread : s.numThread = 0
  numSampledInst : s.numSampledInst = 0
  numInsts : s.numInsts = 0
  begun : s.loc.begun = false

/-- A sample is recorded, and no thread is there. -/
structure Recording (E : Env F) (s : Sampler F) : Prop where
  isSampled : s.isSampled = true
  thread : s.thread = .idle
  numThread : s.numThread = 0
  begun : s.numInsts ≠ 0 ∨ s.loc.begun = true
  drained : Drained E s.analyzer
  holds : Holds s.traceBuffer s.numSampledInst s.followed
  /-- Between two calls the sample has an instruction. -/
  nonempty : s.loc.begun = false → s.numSampledInst ≠ 0

/-- The buffer is the analysis thread's. -/
structure Analyzing (E : Env F) (s : Sampler F) : Prop where
  isSampled : s.isSampled = false
  numThread : s.numThread = 1
  numSampledInst : s.numSampledInst = 0
  begun : s.numInsts ≠ 0 ∨ s.loc.begun = true
  thread : ∃ (trace : Trace) (A : State F), Drained E A ∧
    trace.queue.capacity = traceBufferCapacity ∧ ThreadAt E trace.queue A s

/-- **The modes** of the two threads. -/
def Mode (E : Env F) (s : Sampler F) : Prop :=
  Before s ∨ Recording E s ∨ Analyzing E s

theorem Analyzing.not_idle (h : Analyzing E s) : s.thread ≠ .idle := by
  obtain ⟨trace, A, -, -, hat⟩ := h.thread
  intro hidle
  simp only [ThreadAt, hidle] at hat

theorem Mode.recording (h : Mode E s) (hsam : s.isSampled = true) : Recording E s := by
  rcases h with h | h | h
  · exact absurd (h.isSampled.symm.trans hsam) Bool.false_ne_true
  · exact h
  · exact absurd (h.isSampled.symm.trans hsam) Bool.false_ne_true

/-- The variables of the guest that a mode speaks of. -/
def Sampler.control (s : Sampler F) : Bool × ℕ × ℕ × ℕ × Thread × State F × Bool :=
  (s.isSampled, s.numSampledInst, s.numInsts, s.numThread, s.thread, s.analyzer, s.loc.begun)

/-- A step within a mode: it may change the buffer while a sample is recorded,
and leaves everything to the thread otherwise. -/
theorem Mode.within (h : Mode E s) (hc : s'.control = s.control)
    (hrec : s.isSampled = true → Holds s.traceBuffer s.numSampledInst s.followed →
      Holds s'.traceBuffer s.numSampledInst s'.followed)
    (hout : s.isSampled = false → s'.shared = s.shared) : Mode E s' := by
  simp only [Sampler.control, Prod.mk.injEq] at hc
  obtain ⟨h1, h2, h3, h4, h5, h6, h7⟩ := hc
  have hbegun : s.numInsts ≠ 0 ∨ s.loc.begun = true → s'.numInsts ≠ 0 ∨ s'.loc.begun = true := by
    rw [h3, h7]
    exact id
  rcases h with h | h | h
  · exact .inl ⟨h1.trans h.isSampled, h5.trans h.thread, h4.trans h.numThread,
      h2.trans h.numSampledInst, h3.trans h.numInsts, h7.trans h.begun⟩
  · refine .inr (.inl ⟨h1.trans h.isSampled, h5.trans h.thread, h4.trans h.numThread,
      hbegun h.begun, ?_, ?_, ?_⟩)
    · rw [h6]
      exact h.drained
    · rw [h2]
      exact hrec h.isSampled h.holds
    · rw [h7, h2]
      exact h.nonempty
  · obtain ⟨trace, A, hd, hcap, ht⟩ := h.thread
    exact .inr (.inr ⟨h1.trans h.isSampled, h4.trans h.numThread, h2.trans h.numSampledInst,
      hbegun h.begun, trace, A, hd, hcap, ht.congr (hout h.isSampled)⟩)

/-! ## The steps -/

/-- In a call of `inst_increment`, that call is the last one. -/
def Called (s : Sampler F) : Prop :=
  s.loc.underWay = 1 → ∃ h i, s.history = h ++ [.instIncrement i]

/-- **A helper call.** -/
theorem Mode.call {c : Call} (h : Mode E s) (hloc : s.loc = .ready) (hs' : s.call c = some s') :
    Mode E s' ∧ Called s' := by
  have hfollowed : s.followed = s.history := by rw [Sampler.followed, hloc]; rfl
  cases c with
  | instIncrement i =>
    obtain rfl := Option.some.inj hs'
    refine ⟨h.within (by simp [Sampler.control, hloc, Loc.begun]) (fun _ hq => ?_) fun _ => rfl,
      fun _ => ⟨_, _, rfl⟩⟩
    rw [hfollowed] at hq
    simpa [Sampler.followed, Loc.underWay] using hq
  | dcacheAccess addr isWrite d =>
    simp only [Sampler.call] at hs'
    split at hs'
    next hsam =>
      obtain ⟨q, hq, rfl⟩ := Option.map_eq_some_iff.1 hs'
      refine ⟨h.within rfl (fun _ hold => ?_) fun hno => absurd (hno.symm.trans hsam)
        Bool.false_ne_true, fun hway => ?_⟩
      · rw [hfollowed] at hold
        simpa [Sampler.followed, Sampler.pushed, hloc, Loc.underWay] using hold.pushMemaddr hq
      · simp [Sampler.pushed, hloc, Loc.underWay] at hway
    next hsam =>
      obtain rfl := Option.some.inj hs'
      refine ⟨h.within rfl (fun hyes => absurd hyes hsam) fun _ => rfl, fun hway => ?_⟩
      simp [hloc, Loc.underWay] at hway
  | setBranchInst isCond =>
    obtain rfl := Option.some.inj hs'
    refine ⟨h.within rfl (fun _ hold => ?_) fun _ => rfl, fun hway => ?_⟩
    · rw [hfollowed] at hold
      simpa [Sampler.followed, hloc, Loc.underWay] using hold.setBranchInst isCond
    · simp [hloc, Loc.underWay] at hway

theorem Mode.resolveBranch {i : InstIncrement} (h : Mode E s) (hloc : s.loc = .resolve i)
    (hs' : s.resolveBranch i = some s') : Mode E s' := by
  have hfollowed : s.followed = s.history.dropLast := by rw [Sampler.followed, hloc]; rfl
  unfold Sampler.resolveBranch at hs'
  split at hs'
  next =>
    simp only at hs'
    split at hs'
    next hpush =>
      obtain ⟨q, hq, rfl⟩ := Option.map_eq_some_iff.1 hs'
      refine h.within (by simp [Sampler.control, Sampler.pushed, hloc, Loc.begun])
        (fun _ hold => ?_) fun hno => absurd (hno.symm.trans hpush.1) Bool.false_ne_true
      rw [hfollowed] at hold
      exact hold.pushBpred hq
    next =>
      obtain rfl := Option.some.inj hs'
      exact h.within (by simp [Sampler.control, hloc, Loc.begun]) (fun _ => hfollowed ▸ id)
        fun _ => rfl
  next =>
    obtain rfl := Option.some.inj hs'
    exact h.within (by simp [Sampler.control, hloc, Loc.begun]) (fun _ => hfollowed ▸ id)
      fun _ => rfl

theorem Mode.fetchLine {i : InstIncrement} (h : Mode E s) (hloc : s.loc = .fetch i) :
    Mode E (s.fetchLine i) := by
  have hfollowed : s.followed = s.history.dropLast := by rw [Sampler.followed, hloc]; rfl
  unfold Sampler.fetchLine
  split <;>
    exact h.within (by simp [Sampler.control, hloc, Loc.begun]) (fun _ => hfollowed ▸ id)
      fun _ => rfl

/-- The first instruction finds nothing set up. -/
theorem Mode.firstInst {i : InstIncrement} {m : CacheMissType} (h : Mode E s)
    (hloc : s.loc = .first i m) : Mode E (s.firstInst E i m) := by
  have hfollowed : s.followed = s.history.dropLast := by rw [Sampler.followed, hloc]; rfl
  have hbegun : s.loc.begun = false := by rw [hloc]; rfl
  unfold Sampler.firstInst
  split
  next hzero =>
    have hnot : ¬ (s.numInsts ≠ 0 ∨ s.loc.begun = true) := by
      rw [hbegun]
      simpa using hzero
    rcases h with h | h | h
    · refine .inr (.inl ⟨rfl, h.thread, h.numThread, .inr rfl, initTraceAnalyzer_drained E _, ?_,
        by simp [Loc.begun]⟩)
      simp only [h.numSampledInst]
      exact Holds.empty _
    · exact absurd h.begun hnot
    · exact absurd h.begun hnot
  next hzero =>
    rcases h with h | h | h
    · exact absurd h.numInsts hzero
    · refine .inr (.inl ⟨h.isSampled, h.thread, h.numThread, .inr rfl, h.drained, ?_,
        by simp [Loc.begun]⟩)
      have hold := h.holds
      rw [hfollowed] at hold
      exact hold
    · obtain ⟨trace, A, hd, hcap, ht⟩ := h.thread
      exact .inr (.inr ⟨h.isSampled, h.numThread, h.numSampledInst, .inr rfl, trace, A, hd, hcap,
        ht.congr rfl⟩)

/-- The end of a sample hands the buffer over. -/
theorem Mode.finishSample {i : InstIncrement} {m : CacheMissType} (h : Mode E s)
    (hloc : s.loc = .finish i m) (hs' : s.finishSample cfg i m = some s') : Mode E s' := by
  have hfollowed : s.followed = s.history.dropLast := by rw [Sampler.followed, hloc]; rfl
  unfold Sampler.finishSample at hs'
  split at hs'
  next =>
    obtain ⟨t, ht, hs'⟩ := Option.bind_eq_some_iff.1 hs'
    obtain rfl := Option.some.inj hs'
    obtain ⟨hidle, rfl⟩ := threadStart_eq_some ht
    rcases h with h | h | h
    · have hbegun := h.begun
      simp [hloc, Loc.begun] at hbegun
    · exact .inr (.inr ⟨rfl, by simp [h.numThread], rfl, .inr rfl, h.holds.trace, s.analyzer,
        h.drained, h.holds.capacity, rfl, rfl⟩)
    · exact absurd hidle h.not_idle
  next =>
    obtain rfl := Option.some.inj hs'
    exact h.within (by simp [Sampler.control, hloc, Loc.begun]) (fun _ => hfollowed ▸ id)
      fun _ => rfl

/-- The thread that is waited for leaves an empty buffer. -/
theorem Analyzing.exited (h : Analyzing E s) (hexit : s.thread = .exited) :
    Drained E s.analyzer ∧ s.traceBuffer = ⟨[], traceBufferCapacity⟩ := by
  obtain ⟨trace, A, hd, hcap, hat⟩ := h.thread
  simp only [ThreadAt, hexit] at hat
  obtain ⟨fuel, a, hret, -, -, han, hbuf⟩ := hat
  rw [han, hbuf, traceAnalysis_traceBuffer hd hret, hcap]
  exact ⟨traceAnalysis_drained hd hret, rfl⟩

/-- A period begins without a thread, and its sample with an empty buffer if
there was one. -/
theorem Mode.startPeriod {i : InstIncrement} {m : CacheMissType} (h : Mode E s)
    (hloc : s.loc = .period i m) (hs' : s.startPeriod E cfg i m = some s') : Mode E s' := by
  have hfollowed : s.followed = s.history.dropLast := by rw [Sampler.followed, hloc]; rfl
  unfold Sampler.startPeriod at hs'
  split at hs'
  next =>
    obtain ⟨⟨cycle, penalty, t⟩, ht, hs'⟩ := Option.bind_eq_some_iff.1 hs'
    obtain rfl := Option.some.inj hs'
    rcases h with h | h | h
    · have hbegun := h.begun
      simp [hloc, Loc.begun] at hbegun
    · rcases threadEnd_eq_some ht with ⟨hnum, -⟩ | ⟨-, -, -, rfl⟩
      · exact absurd h.numThread hnum
      refine .inr (.inl ⟨rfl, h.thread, h.numThread, .inr rfl, h.drained, ?_,
        by simp [Loc.begun]⟩)
      have hold := h.holds
      rw [hfollowed] at hold
      exact hold
    · rcases threadEnd_eq_some ht with ⟨-, hexit, -, -, rfl⟩ | ⟨hnum, -⟩
      · obtain ⟨hd, hbuf⟩ := h.exited hexit
        refine .inr (.inl ⟨rfl, rfl, by simp [h.numThread, Sampler.update], .inr rfl, hd, ?_,
          by simp [Loc.begun]⟩)
        simp only [Sampler.update, hbuf, h.numSampledInst]
        exact Holds.empty _
      · rw [h.numThread] at hnum
        cases hnum
  next =>
    obtain rfl := Option.some.inj hs'
    exact h.within (by simp [Sampler.control, hloc, Loc.begun]) (fun _ => hfollowed ▸ id)
      fun _ => rfl

/-- The record of an instruction. -/
theorem Mode.recordInst {i : InstIncrement} {m : CacheMissType} (h : Mode E s) (hcalled : Called s)
    (hloc : s.loc = .record i m) : Mode E (s.recordInst i m) := by
  obtain ⟨hist, i', hhist⟩ := hcalled (by rw [hloc]; rfl)
  have hfollowed : s.followed = hist := by
    rw [Sampler.followed, hloc, hhist]
    exact List.dropLast_concat
  unfold Sampler.recordInst
  split
  next hsam =>
    have h := h.recording hsam
    refine .inr (.inl ⟨hsam, h.thread, h.numThread, .inl (Nat.succ_ne_zero _), h.drained, ?_,
      fun _ => Nat.succ_ne_zero _⟩)
    have hold := h.holds
    rw [hfollowed] at hold
    have hnew := hold.pushCode (UInt32.ofNat s.numSampledInst) i.pc (i.getInstByte i.pc i.flag) m i'
    rw [← hhist] at hnew
    exact hnew
  next hsam =>
    rcases h with h | h | h
    · have hbegun := h.begun
      simp [hloc, Loc.begun] at hbegun
    · exact absurd h.isSampled hsam
    · obtain ⟨trace, A, hd, hcap, ht⟩ := h.thread
      exact .inr (.inr ⟨h.isSampled, h.numThread, h.numSampledInst, .inl (Nat.succ_ne_zero _),
        trace, A, hd, hcap, ht.congr rfl⟩)

/-- A step of the analysis thread. -/
theorem Mode.analysis (h : Mode E s) (hs' : s.threadStep E = some s') : Mode E s' := by
  obtain ⟨hguest, hrun, -⟩ := threadStep_guest hs'
  simp only [Sampler.guest, Prod.mk.injEq] at hguest
  obtain ⟨h1, h2, h3, h4, h5, -⟩ := hguest
  rcases h with h | h | h
  · exact absurd h.thread hrun
  · exact absurd h.thread hrun
  · obtain ⟨trace, A, hd, hcap, ht⟩ := h.thread
    refine .inr (.inr ⟨h3.trans h.isSampled, h5.trans h.numThread, h4.trans h.numSampledInst, ?_,
      trace, A, hd, hcap, ht.step hs'⟩)
    rw [h1, h2]
    exact h.begun

/-! ## What a statement adds to the log -/

theorem threadStart_log (hs' : s.threadStart = some s') :
    s'.history = s.history ∧ s'.log = s.log ++ [.start s.traceBuffer] := by
  obtain ⟨-, rfl⟩ := threadStart_eq_some hs'
  exact ⟨rfl, rfl⟩

theorem threadEnd_history {cycle : ℕ} {penalty : ℤ}
    (h : s.threadEnd = some (cycle, penalty, s')) : s'.history = s.history := by
  rcases threadEnd_eq_some h with ⟨-, -, -, -, rfl⟩ | ⟨-, -, -, rfl⟩
  · rfl
  · rfl

/-- Where the guest waits for a thread and updates the model. -/
def Updating (cfg : SampleConfig) (s : Sampler F) : Prop :=
  s.loc = .wrapupEnd ∨
    ∃ i m, s.loc = .period i m ∧ s.numInsts ≠ 0 ∧ s.numInsts % cfg.defaultPeriod = 0

/-- What a statement logs: at most one event, unless it updates the model. -/
def Logs (cfg : SampleConfig) (s s' : Sampler F) : Prop :=
  s'.log = s.log ∨ (∃ e, s'.log = s.log ++ [e] ∧ ∀ u, e ≠ .update u) ∨
    Updating cfg s ∧ ∃ cycle penalty t, s.threadEnd = some (cycle, penalty, t) ∧
      s'.log = t.log ++ [.update ⟨t.numInsts, cycle, penalty, t.sampleStat⟩]

/-- **What every statement does**: it forgets no call, goes to the next
statement of its function, and logs what `Logs` says. -/
theorem block_spec (hs' : s.block E cfg = some s') :
    s'.history = s.history ∧ (s'.loc.closed = true ↔ s.loc.underWay = 0) ∧ Logs cfg s s' := by
  unfold Sampler.block at hs'
  split at hs'
  next => cases hs'
  next => cases hs'
  next hloc =>
    unfold Sampler.resolveBranch at hs'
    split at hs'
    · simp only at hs'
      split at hs'
      · obtain ⟨q, -, rfl⟩ := Option.map_eq_some_iff.1 hs'
        exact ⟨rfl, by simp [hloc, Loc.closed, Loc.underWay], .inr (.inl ⟨.push, rfl, by simp⟩)⟩
      · obtain rfl := Option.some.inj hs'
        exact ⟨rfl, by simp [hloc, Loc.closed, Loc.underWay], .inl rfl⟩
    · obtain rfl := Option.some.inj hs'
      exact ⟨rfl, by simp [hloc, Loc.closed, Loc.underWay], .inl rfl⟩
  next hloc =>
    obtain rfl := Option.some.inj hs'
    unfold Sampler.fetchLine
    split <;> exact ⟨rfl, by simp [hloc, Loc.closed, Loc.underWay], .inl rfl⟩
  next hloc =>
    obtain rfl := Option.some.inj hs'
    unfold Sampler.firstInst
    split <;> exact ⟨rfl, by simp [hloc, Loc.closed, Loc.underWay], .inl rfl⟩
  next hloc =>
    unfold Sampler.finishSample at hs'
    split at hs'
    · obtain ⟨t, ht, hs'⟩ := Option.bind_eq_some_iff.1 hs'
      obtain ⟨hhist, hlog⟩ := threadStart_log ht
      obtain rfl := Option.some.inj hs'
      exact ⟨hhist, by simp [hloc, Loc.closed, Loc.underWay],
        .inr (.inl ⟨.start s.traceBuffer, hlog, by simp⟩)⟩
    · obtain rfl := Option.some.inj hs'
      exact ⟨rfl, by simp [hloc, Loc.closed, Loc.underWay], .inl rfl⟩
  next i m hloc =>
    unfold Sampler.startPeriod at hs'
    split at hs'
    next hper =>
      obtain ⟨⟨cycle, penalty, t⟩, ht, hs'⟩ := Option.bind_eq_some_iff.1 hs'
      have hhist := threadEnd_history ht
      obtain rfl := Option.some.inj hs'
      exact ⟨hhist, by simp [hloc, Loc.closed, Loc.underWay],
        .inr (.inr ⟨.inr ⟨i, m, hloc, hper⟩, cycle, penalty, t, ht, rfl⟩)⟩
    next =>
      obtain rfl := Option.some.inj hs'
      exact ⟨rfl, by simp [hloc, Loc.closed, Loc.underWay], .inl rfl⟩
  next hloc =>
    obtain rfl := Option.some.inj hs'
    unfold Sampler.recordInst
    split
    · exact ⟨rfl, by simp [hloc, Loc.closed, Loc.underWay], .inr (.inl ⟨.push, rfl, by simp⟩)⟩
    · exact ⟨rfl, by simp [hloc, Loc.closed, Loc.underWay], .inl rfl⟩
  next hloc =>
    unfold Sampler.wrapupStart at hs'
    split at hs'
    · obtain ⟨t, ht, hs'⟩ := Option.bind_eq_some_iff.1 hs'
      obtain ⟨hhist, hlog⟩ := threadStart_log ht
      obtain rfl := Option.some.inj hs'
      exact ⟨hhist, by simp [hloc, Loc.closed, Loc.underWay],
        .inr (.inl ⟨.start s.traceBuffer, hlog, by simp⟩)⟩
    · obtain rfl := Option.some.inj hs'
      exact ⟨rfl, by simp [hloc, Loc.closed, Loc.underWay], .inl rfl⟩
  next hloc =>
    obtain ⟨⟨cycle, penalty, t⟩, ht, hs'⟩ := Option.bind_eq_some_iff.1 hs'
    have hhist := threadEnd_history ht
    obtain rfl := Option.some.inj hs'
    exact ⟨hhist, by simp [hloc, Loc.closed, Loc.underWay],
      .inr (.inr ⟨.inl hloc, cycle, penalty, t, ht, rfl⟩)⟩

/-! ## The run -/

theorem underWay_of_open (hs' : s.block E cfg = some s') (hopen : s'.loc.closed = false) :
    s.loc.underWay = 1 := by
  have hne : s.loc.underWay ≠ 0 := fun hzero => by
    rw [(block_spec hs').2.1.2 hzero] at hopen
    cases hopen
  cases hloc : s.loc <;> simp [hloc, Loc.underWay] at hne ⊢

/-- **A statement of `inst_increment`.** -/
theorem Mode.block (h : Mode E s) (hcalled : Called s) (hs' : s.block E cfg = some s')
    (hopen : s'.loc.closed = false) : Mode E s' ∧ Called s' := by
  have hway := underWay_of_open hs' hopen
  refine ⟨?_, fun _ => by rw [(block_spec hs').1]; exact hcalled hway⟩
  unfold Sampler.block at hs'
  split at hs'
  next => cases hs'
  next => cases hs'
  next i hloc => exact h.resolveBranch hloc hs'
  next i hloc => exact Option.some.inj hs' ▸ h.fetchLine hloc
  next i m hloc => exact Option.some.inj hs' ▸ h.firstInst hloc
  next i m hloc => exact h.finishSample hloc hs'
  next i m hloc => exact h.startPeriod hloc hs'
  next i m hloc => exact Option.some.inj hs' ▸ h.recordInst hcalled hloc
  next c hloc => simp [hloc, Loc.underWay] at hway
  next hloc => simp [hloc, Loc.underWay] at hway

theorem Loc.open_of_underWay {l : Loc} (h : l.underWay = 1) : l.closed = false := by
  cases l <;> first | rfl | cases h

/-- **One of the modes in every state of a run**, until `gdb_exit` leaves the
helpers' statements. -/
theorem mode_of_reachable (hs : Reachable E cfg an perf s) :
    s.loc.closed = false → Mode E s ∧ Called s := by
  obtain ⟨moves, hmoves⟩ := hs
  refine Run.play_invariant (P := fun s => s.loc.closed = false → Mode E s ∧ Called s) ?_ ?_ hmoves
  · intro t m u ht hu hopen
    cases m with
    | call c =>
      simp only [Sampler.move] at hu
      split at hu
      next hloc => exact (ht (by rw [hloc]; rfl)).1.call hloc hu
      next => cases hu
    | exit c =>
      simp only [Sampler.move] at hu
      split at hu
      next hloc =>
        obtain rfl := Option.some.inj hu
        refine ⟨(ht (by rw [hloc]; rfl)).1.within (by simp [Sampler.control, hloc, Loc.begun])
          (fun _ hold => ?_) fun _ => rfl, by simp [Called, Loc.underWay]⟩
        rw [Sampler.followed, hloc] at hold
        exact hold
      next => cases hu
    | guest =>
      have hway := underWay_of_open hu hopen
      obtain ⟨hmode, hcalled⟩ := ht (Loc.open_of_underWay hway)
      exact hmode.block hcalled hu hopen
    | analysis =>
      have hguest := (threadStep_guest hu).1
      simp only [Sampler.guest, Prod.mk.injEq] at hguest
      obtain ⟨h1, -, -, -, -, -, h7, -⟩ := hguest
      obtain ⟨hmode, hcalled⟩ := ht (h1 ▸ hopen)
      exact ⟨hmode.analysis hu, fun hway => by rw [h7]; exact hcalled (h1 ▸ hway)⟩
  · exact fun _ => ⟨.inl ⟨rfl, rfl, rfl, rfl, rfl, rfl⟩,
      by simp [Called, Sampler.initial, Loc.underWay]⟩

end Sampling

end Tqsim
