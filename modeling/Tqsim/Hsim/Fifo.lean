import Tqsim.Hsim.Model.PacketBuffer

/-!
# The packet buffer is a queue

The two processes on a packet buffer are a writer and a reader of a ring, so
that packets are received as they were sent, in whatever order the processes
take their steps.
-/

namespace Tqsim

namespace Hsim

variable {c c' : Channel}

/-- A process as a party of a ring. -/
def CommLoc.toParty : CommLoc → Spsc.Party UInt8 sizeofPacket
  | idle => .idle
  | waiting packet => .waiting packet
  | copying packet k => .copying packet k

/-- The channel as a ring with its two parties. -/
def Channel.toSpsc (c : Channel) : Spsc.State UInt8 sizeofPacket where
  ring := ⟨c.pb.start, c.pb.endIdx, c.pb.elems⟩
  writer := c.sender.toParty
  reader := c.receiver.toParty
  sent := c.sent
  received := c.received

def CommMove.toSpsc : CommMove → Spsc.Move UInt8 sizeofPacket
  | commSend packet => .send packet
  | sender => .writer
  | commRecv packet => .recv packet
  | receiver => .reader

/-- **The processes refine the ring**: each of their steps is one of its
parties'. -/
theorem step_toSpsc (m : CommMove) (h : c.step m = some c') :
    Spsc.step pktBufferSize c.toSpsc m.toSpsc = some c'.toSpsc := by
  obtain ⟨pb, sender, receiver, sent, received⟩ := c
  cases m with
  | commSend packet =>
    cases sender <;> simp only [Channel.step, Option.some.injEq, reduceCtorEq] at h
    exact h ▸ rfl
  | commRecv packet =>
    cases receiver <;> simp only [Channel.step, Option.some.injEq, reduceCtorEq] at h
    exact h ▸ rfl
  | sender =>
    cases sender with
    | idle => cases h
    | waiting packet =>
      simp only [Channel.step, Channel.commSendStep, pbIsFull, beq_iff_eq] at h
      split at h
      next hfull => exact Option.some.inj h ▸ if_pos hfull
      next hfull => exact Option.some.inj h ▸ if_neg hfull
    | copying packet k =>
      simp only [Channel.step, Channel.commSendStep] at h
      split at h
      next hk => exact Option.some.inj h ▸ dif_pos hk
      next hk => exact Option.some.inj h ▸ dif_neg hk
  | receiver =>
    cases receiver with
    | idle => cases h
    | waiting packet =>
      simp only [Channel.step, Channel.commRecvStep, pbIsEmpty, beq_iff_eq] at h
      split at h
      next hempty => exact Option.some.inj h ▸ if_pos hempty
      next hempty => exact Option.some.inj h ▸ if_neg hempty
    | copying packet k =>
      simp only [Channel.step, Channel.commRecvStep] at h
      split at h
      next hk => exact Option.some.inj h ▸ dif_pos hk
      next hk => exact Option.some.inj h ▸ dif_neg hk

/-- **The invariant holds in every state of a run.** -/
theorem inv_of_play {elems : ℕ → RawPacket} {moves : List CommMove}
    (h : Run.play Channel.step moves (Channel.initial elems) = some c) :
    Spsc.Inv pktBufferSize c.toSpsc :=
  Run.play_invariant (P := fun c => Spsc.Inv pktBufferSize c.toSpsc)
    (fun _ m _ hc hstep => hc.step (step_toSpsc m hstep))
    (Spsc.Inv.of_empty (by decide) elems) h

/-- **The packet buffer is a lossless queue**, in every interleaving. -/
theorem packetBuffer_fifo (elems : ℕ → RawPacket) (moves : List CommMove) (c : Channel)
    (h : Run.play Channel.step moves (Channel.initial elems) = some c) :
    c.received <+: c.sent ∧ c.sent.length - c.received.length ≤ pktBufferSize - 1 ∧
      ∀ packet packet' j k, c.sender = .copying packet j → c.receiver = .copying packet' k →
        c.pb.endIdx ≠ c.pb.start := by
  have hinv := inv_of_play h
  have hlt : c.sent.length < c.received.length + pktBufferSize := hinv.lt
  refine ⟨hinv.out, by omega, fun packet packet' j k _ hr => ?_⟩
  have hr' : c.toSpsc.reader = .copying packet' k := by
    simp only [Channel.toSpsc, hr, CommLoc.toParty]
  exact hinv.last_ne_first hr'

/-- A packet is sent, and while it is received the next one is written. -/
def sampleMoves : List CommMove :=
  .commSend (fun _ => 1) :: List.replicate (sizeofPacket + 2) .sender ++
    [.commSend fun _ => 2, .sender, .sender, .commRecv fun _ => 0, .receiver, .receiver]

/-- How many bytes of a packet a process has copied. -/
def CommLoc.copied? : CommLoc → Option ℕ
  | copying _ k => some k
  | _ => none

theorem CommLoc.eq_copying {l : CommLoc} {k : ℕ} (h : l.copied? = some k) :
    ∃ packet, l = .copying packet k := by
  cases l with
  | idle | waiting packet => cases h
  | copying packet j => exact ⟨packet, by rw [Option.some.inj h]⟩

theorem packetBuffer_fifo_sample : ∃ c,
    Run.play Channel.step sampleMoves (Channel.initial fun _ _ => 0) = some c ∧
      c.sender.copied? = some 1 ∧ c.receiver.copied? = some 1 ∧
      c.received <+: c.sent ∧ c.pb.endIdx ≠ c.pb.start := by
  have hrun : (Run.play Channel.step sampleMoves (Channel.initial fun _ _ => 0)).map (fun c =>
      (c.sender.copied?, c.receiver.copied?)) = some (some 1, some 1) := by decide
  obtain ⟨c, hc, heq⟩ := Option.map_eq_some_iff.1 hrun
  obtain ⟨hs, hr⟩ := Prod.mk.inj heq
  obtain ⟨packet, hsender⟩ := CommLoc.eq_copying hs
  obtain ⟨packet', hreceiver⟩ := CommLoc.eq_copying hr
  obtain ⟨hout, -, hslots⟩ := packetBuffer_fifo (fun _ _ => 0) sampleMoves c hc
  exact ⟨c, hc, hs, hr, hout, hslots packet packet' 1 1 hsender hreceiver⟩

end Hsim

end Tqsim
