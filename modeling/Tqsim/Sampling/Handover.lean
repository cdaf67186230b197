import Tqsim.Sampling.Helpers.Invariant

/-!
# The handover of the trace buffer

From any interleaving of the two threads: the guest never touches the trace
buffer while an analysis is under way, each analysis is given the first
instructions of its period as the guest executed them, and what it returns
is what the model is updated with at the end of the period.
-/

namespace Tqsim

namespace Sampling

open TraceAnalyzer

variable {F : Type} {E : Env F} {cfg : SampleConfig} {s s' : Sampler F} {an : State F}
variable {perf : Perfmodel F}

/-- A sample is handed over when it is complete. -/
theorem complete_of_allows {ph : Phase} {l : Loc} {n : ℕ}
    (hper : cfg.length ≤ cfg.defaultPeriod) (hr : l.Allows cfg ph n) :
    ∀ k < ph.started, k * cfg.defaultPeriod + cfg.length ≤ n := by
  intro k hk
  cases ph with
  | before => exact absurd hk (Nat.not_lt_zero k)
  | recording k' j =>
    have hn : n = k' * cfg.defaultPeriod + j := by
      cases l <;> first | exact hr.1 | exact hr.elim
    have hmul := Nat.mul_le_mul_right cfg.defaultPeriod (Nat.succ_le_of_lt hk)
    simp only [Phase.started, Nat.succ_mul] at hmul
    omega
  | analyzing k' =>
    have hn : k' * cfg.defaultPeriod + cfg.length ≤ n := by
      cases l <;> first | exact hr.1 | exact hr.1.le | exact hr.elim
    have hmul := Nat.mul_le_mul_right cfg.defaultPeriod (Nat.lt_succ_iff.1 hk)
    omega

theorem Tracked.length {ex : List Executed} (ht : Tracked s ex) : ex.length = s.numInsts := by
  unfold Tracked at ht
  cases hloc : s.loc with
  | ready | wrapup c | wrapupEnd | exited | resolve i =>
    simp only [hloc] at ht
    exact ht.2.length
  | fetch i =>
    simp only [hloc] at ht
    exact ht.2.1
  | first i m | finish i m | period i m | record i m =>
    simp only [hloc] at ht
    exact Entered.length ht

/-- The call under way changes no sample handed over. -/
theorem Tracked.sample_eq {ph : Phase} {ex : List Executed}
    (hper : cfg.length ≤ cfg.defaultPeriod) (ht : Tracked s ex)
    (hr : s.loc.Allows cfg ph s.numInsts) :
    ∀ k < ph.started, sample cfg (executed s.history) k = sample cfg ex k := by
  have hcomplete := complete_of_allows hper hr
  -- in a call, after its first statement
  have hcall : ∀ i h, s.history = h ++ [.instIncrement i] → ex = resolved i (executed h) →
      ex.length = s.numInsts → ∀ k < ph.started,
        sample cfg (executed s.history) k = sample cfg ex k := by
    rintro i h hh rfl hlen k hk
    rw [hh, executed_instIncrement]
    exact sample_append _ (hlen ▸ hcomplete k hk)
  unfold Tracked at ht
  cases hloc : s.loc with
  | ready | wrapup c | wrapupEnd | exited =>
    simp only [hloc] at ht
    intro k _
    rw [ht.1]
  | resolve i =>
    simp only [hloc] at ht hr
    obtain ⟨⟨h, hh, rfl⟩, hf⟩ := ht
    intro k hk
    have hres := sample_updateLast_of_resting (hf.length ▸ hr) hper
      (fun e => { e with next := some i }) k hk
    rw [hh, executed_instIncrement, ← hres]
    exact sample_append _ (by rw [length_resolved, hf.length]; exact hcomplete k hk)
  | fetch i =>
    simp only [hloc] at ht
    obtain ⟨⟨h, hh, hex⟩, hlen, -⟩ := ht
    exact hcall i h hh hex hlen
  | first i m | finish i m | period i m | record i m =>
    simp only [hloc] at ht
    obtain ⟨h, hh, hex⟩ := ht.history
    exact hcall i h hh hex ht.length

/-- **The handover.** -/
structure Handover (E : Env F) (cfg : SampleConfig) (an : State F) (s : Sampler F) : Prop where
  /-- No push happens while an analysis is under way. -/
  exclusive : Exclusive s.log
  /-- The traces handed over are the samples, one after the other. -/
  samples : starts s.log =
    (List.range (starts s.log).length).map (sample cfg (executed s.history))
  /-- None of them is short of an instruction. -/
  complete : ∀ q ∈ starts s.log, q.size = cfg.length
  /-- The updates of the model are those of their analyses. -/
  analyzed : ∃ A, Analyzed E cfg (initTraceAnalyzer E an)
    ((starts s.log).take (updates s.log).length) (updates s.log) A

/-- **Sampling is correct**, in every interleaving of the two threads. -/
theorem handover_of_reachable (E : Env F) (cfg : SampleConfig) (an : State F) (perf : Perfmodel F)
    (hpos : 1 ≤ cfg.length) (hper : cfg.length ≤ cfg.defaultPeriod)
    (hcap : (cfg.length : ℤ) ≤ traceBufferCapacity) (s : Sampler F)
    (hs : Reachable E cfg an perf s) (hopen : s.loc.closed = false) : Handover E cfg an s := by
  obtain ⟨ph, hc, hr, -, hcon⟩ := reachable_inv_of_open hpos hper hs hopen
  obtain ⟨ex, ht, hcon⟩ := hcon hcap
  have hsame := ht.sample_eq hper hr
  have hlen : (starts s.log).length = ph.started := hc.counts.starts
  have hlenu : (updates s.log).length = ph.joined := hc.counts.updates
  -- the log holds the samples, and the chain of the analyses joined
  obtain ⟨hstarts, A, hanalyzed⟩ : starts s.log = (List.range ph.started).map (sample cfg ex) ∧
      ∃ A, Analyzed E cfg (initTraceAnalyzer E an) ((List.range ph.joined).map (sample cfg ex))
        (updates s.log) A := by
    cases ph with
    | before =>
      rw [List.length_eq_zero_iff.1 hlen, List.length_eq_zero_iff.1 hlenu]
      exact ⟨rfl, _, .nil⟩
    | recording k j => exact ⟨hcon.2.2.starts, _, hcon.2.2.analyzed⟩
    | analyzing k =>
      obtain ⟨-, A, hled, -⟩ := hcon
      exact ⟨hled.starts, A, hled.analyzed⟩
  have hsamples : starts s.log = (List.range ph.started).map (sample cfg (executed s.history)) := by
    rw [hstarts]
    exact List.map_congr_left fun k hk => (hsame k (List.mem_range.1 hk)).symm
  have hle : ph.joined ≤ ph.started := by
    cases ph <;> simp [Phase.joined, Phase.started]
  refine ⟨hc.counts.exclusive, by rw [hlen]; exact hsamples, fun q hq => ?_, A, ?_⟩
  · rw [hstarts] at hq
    obtain ⟨k, hk, rfl⟩ := List.mem_map.1 hq
    have hlenex := ht.length
    have := complete_of_allows hper hr k (List.mem_range.1 hk)
    simp only [sample, InstQueue.size, List.length_mapIdx, List.length_take, List.length_drop]
    omega
  · rw [hlenu, hstarts, ← List.map_take, List.take_range, Nat.min_eq_left hle]
    exact hanalyzed

/-- A call of `inst_increment` for an instruction word, all predictions and
accesses being right. -/
def sampleInc (pc code : UInt32) : InstIncrement where
  pc := pc
  flag := 0
  bpredsimAccess _ _ _ := true
  cachesimIaccess _ := .l1Hit
  getInstByte _ _ := code
  counters := ⟨0, 0, 0, 0⟩

/-- A model before any update. -/
def samplePerfmodel : Perfmodel ℚ := ⟨0, 0, 0, 0, 0, 0, 1, 0⟩

/-- An instruction, from its call to the end of the call. -/
def instMoves (pc code : UInt32) : List Move :=
  .call (.instIncrement (sampleInc pc code)) :: List.replicate 6 .guest

/-- A load that misses is sampled, and analyzed while the next instruction is
executed; the third one begins the second period. -/
def sampleMoves : List Move :=
  instMoves 0 0xE5943000 ++ [.call (.dcacheAccess 0x1000 false fun _ _ => .l1Miss)] ++
    instMoves 4 0xE0810002 ++ List.replicate 19 .analysis ++ instMoves 8 0xE0810002

/-- The run, with one analysis done. -/
theorem handover_sample : ∃ s, Reachable (sampleEnv 2) ⟨1, 2⟩ blankState samplePerfmodel s ∧
    (updates s.log).length = 1 ∧ Handover (sampleEnv 2) ⟨1, 2⟩ blankState s := by
  have hrun : ((Run.play (Sampler.move (sampleEnv 2) ⟨1, 2⟩) sampleMoves
      (Sampler.initial blankState samplePerfmodel)).map fun s =>
        (s.loc.closed, (updates s.log).length)) = some (false, 1) := by decide
  obtain ⟨s, hs, hsame⟩ := Option.map_eq_some_iff.1 hrun
  simp only [Prod.mk.injEq] at hsame
  exact ⟨s, ⟨sampleMoves, hs⟩, hsame.2, handover_of_reachable (sampleEnv 2) ⟨1, 2⟩ blankState
    samplePerfmodel (by decide) (by decide) (by decide) s ⟨sampleMoves, hs⟩ hsame.1⟩

end Sampling

end Tqsim
