import Tqsim.TraceAnalyzer.Analysis

/-!
# The structure of the pipeline at a cycle boundary

The containers of the analyzer agree with one another at the end of every
cycle: the reorder buffer, the issue queue, the unit buffer, the load and
store queues and the counters all describe the same set of live records.
`WellFormed` says so in terms of the code's own fields.
-/

namespace Tqsim

namespace TraceAnalyzer

variable {F : Type} {s s' : State F} {E : Env F} {base : ℕ} {T : List Inst}

/-- **The structure of the pipeline.** -/
structure WellFormed (s : State F) : Prop where
  /-- The window has `size` slots, ... -/
  size : s.rob.size ≤ s.rob.capacity
  /-- ... ends before `end_idx`, ... -/
  endIdx : s.rob.endIdx = (s.rob.startIdx + s.rob.size) % s.rob.capacity
  /-- ... and holds, from `start_idx` on, the uncommitted records in program
  order, whose `rob_idx` is their slot, ... -/
  slots : ∀ k < s.rob.size,
    s.rob.entries ((s.rob.startIdx + k) % s.rob.capacity) = some (s.pipe.commitLog.length + k) ∧
      s.rob.robIdx (s.pipe.commitLog.length + k) = (s.rob.startIdx + k) % s.rob.capacity
  /-- ... which are just the records that are allocated. -/
  live : ∀ r, s.pipe.live r = true ↔ ∃ k < s.rob.size, r = s.pipe.commitLog.length + k
  /-- The issue queue holds the live records in state `Dispatch`, in program
  order. -/
  iq : s.pipe.iq.elems = (List.range s.pipe.next).filter fun r =>
    s.pipe.live r && (s.pipe.heap r).state == .dispatch
  fuBuffer : ∀ r, r ∈ s.pipe.fuBuffer.elems ↔ s.pipe.live r = true ∧
    ((s.pipe.heap r).state = .issue ∨
      (s.pipe.heap r).state = .complete ∧ 1 ≤ (s.pipe.heap r).remainingLatency)
  fuBuffer_nodup : s.pipe.fuBuffer.elems.Nodup
  ldq : ∀ r, r ∈ s.pipe.ldq.elems ↔ s.pipe.live r = true ∧ (s.pipe.heap r).type = .memRead
  ldq_nodup : s.pipe.ldq.elems.Nodup
  stq : ∀ r, r ∈ s.pipe.stq.elems ↔ s.pipe.live r = true ∧ (s.pipe.heap r).type = .memWrite
  stq_nodup : s.pipe.stq.elems.Nodup
  fetched : s.pipe.numFetchedInsts = s.pipe.numDispatchedInsts + s.pipe.traceBuffer.size
  dispatched : s.pipe.numDispatchedInsts = s.pipe.numCommittedInsts + s.rob.size

/-- A slot of the window, counted from `start_idx`. -/
theorem Window.slot_from_start {cap k : ℕ} {p : Pipe F} {rob : ROB} (h : Window cap base p rob) :
    (rob.startIdx + k) % rob.capacity = Circular.slot cap base (p.oldest + k) := by
  rw [h.start, h.capacity, Circular.slot, Circular.slot, Nat.mod_add_mod, Nat.add_assoc]

/-- The issue queue, from its members and their order. -/
theorem Inv.iq_eq (h : Inv E base T s) :
    s.pipe.iq.elems = (List.range s.pipe.next).filter fun r =>
      s.pipe.live r && (s.pipe.heap r).state == .dispatch := by
  refine h.stages.iq_sorted.eq_of_mem_iff (List.pairwise_lt_range.filter _) fun r => ?_
  simp only [List.mem_filter, List.mem_range, Bool.and_eq_true, beq_iff_eq, h.window.live,
    h.stages.iq_mem]
  exact ⟨fun hr => ⟨hr.1, h.stages.inFlight_of_state hr.1 (by simp [hr.2]), hr.2⟩,
    fun hr => ⟨hr.1, hr.2.2⟩⟩

/-- The unit buffer, from the states of the records. -/
theorem Inv.mem_fuBuffer_iff (h : Inv E base T s) (hheld : Held s.pipe) (r : ℕ) :
    r ∈ s.pipe.fuBuffer.elems ↔ s.pipe.live r = true ∧ ((s.pipe.heap r).state = .issue ∨
      (s.pipe.heap r).state = .complete ∧ 1 ≤ (s.pipe.heap r).remainingLatency) := by
  rw [h.window.live]
  constructor
  · intro hr
    refine ⟨hheld.inFlight h.stages hr, ?_⟩
    rcases (h.stages.fu_mem r hr).2 with hst | hst
    · exact .inl hst
    · exact .inr ⟨hst, hheld.left r hr hst⟩
  · rintro ⟨hin, hst | ⟨hst, hrem⟩⟩
    · exact h.stages.issue_mem r hin.2 hst
    · exact h.stages.left_mem r hin.2 hst hrem

/-- **The invariant makes a well-formed pipeline.** -/
theorem Inv.wellFormed (h : Inv E base T s) (hheld : Held s.pipe)
    (hloss : Lossless E.disasm s.pipe) : WellFormed s := by
  have hsize := h.window.size
  have hin : ∀ k < s.rob.size, s.pipe.InFlight (s.pipe.oldest + k) := fun k hk => by
    constructor <;> omega
  constructor
  · rw [h.window.capacity]
    exact h.window.fits
  · rw [h.window.slot_from_start, h.window.finish]
    congr 1
    omega
  · intro k hk
    rw [h.window.slot_from_start]
    exact ⟨h.window.entry _ (hin k hk), h.window.idx _ (hin k hk)⟩
  · intro r
    rw [h.window.live]
    constructor
    · rintro ⟨h1, h2⟩
      refine ⟨r - s.pipe.oldest, by omega, ?_⟩
      show r = s.pipe.oldest + (r - s.pipe.oldest)
      omega
    · rintro ⟨k, hk, rfl⟩
      exact hin k hk
  · exact h.iq_eq
  · exact h.mem_fuBuffer_iff hheld
  · exact h.stages.fu_nodup
  · intro r
    rw [h.window.live]
    exact h.memQueues.ldq_mem r
  · exact h.memQueues.ldq_nodup
  · intro r
    rw [h.window.live]
    exact h.memQueues.stq_mem r
  · exact h.memQueues.stq_nodup
  · exact hloss.fetched
  · have := h.traced.dispatched
    omega

/-- An analysis of a trace that fits reaches a state after every number of
cycles, unless the reorder buffer exceeds its array. -/
theorem exists_reaches {trace : Trace} (hd : Drained E s) (hrob : E.cfg.robSize ≤ robEntries)
    (hul2 : 0 ≤ E.cfg.ul2Latency) (n : ℕ) : ∃ s', Reaches E trace s n s' ∧
      Inv E s.rob.startIdx (robTrace E.disasm trace.queue) s' ∧ Held s'.pipe := by
  refine Run.total (fun t ht => ?_) n ⟨hd.inv trace, ?_⟩
  · obtain ⟨u, hu⟩ := ht.1.cycle_total ht.2 hul2 hrob
    obtain ⟨v, hv, hheld, rfl⟩ := (held_keeps E _ _ hul2).cycle ht.1 ht.2 hu
    exact ⟨_, hu, hv.tick, hheld.left, hheld.nonneg⟩
  · exact ⟨by simp [beginAnalysis, hd.fuBuffer], fun r hr => absurd hr (Nat.not_lt_zero r)⟩

end TraceAnalyzer

end Tqsim
