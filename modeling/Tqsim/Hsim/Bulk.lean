import Tqsim.Hsim.Model.SpmBuffer

/-!
# Bulk data through the shared buffer

The size of the data says whether the buffer is full. So data of size 0 never
fills it: its call returns, but the receiver does not see it, and the next
data takes its place. Data that is larger than the payload is copied beyond
it. All other data arrives, whatever the order of the steps.
-/

namespace Tqsim

namespace Hsim

variable {data : List BulkData} {s s' : Bulk} {m : BulkData}

/-- **Exact so far**: no byte outside the payload was accessed; the calls of the
two processes alternate, so that no data was skipped or received twice, and
each received the bytes that were sent; and unless all calls have returned,
one of the processes can go on. -/
structure Bulk.Exact (data : List BulkData) (s : Bulk) : Prop where
  inside : s.reach ≤ spBufferSize
  received_le : s.received.length ≤ s.sent
  sent_le : s.sent ≤ s.received.length + 1
  bytes : s.received <+: data.map BulkData.bytes
  progress : s.received.length < data.length → ∃ move s', s.step data move = some s' ∧ s' ≠ s

/-- Sizes that the buffer is made for. -/
def BulkData.Fits (m : BulkData) : Prop := 1 ≤ m.size.toNat ∧ m.size.toNat ≤ spBufferSize

/-- Where the two processes are, as long as all sizes fit. -/
inductive Bulk.Phase (data : List BulkData) (s : Bulk) : Prop
  /-- All that was sent has been received. -/
  | empty (hsender : s.sender = .waiting) (hreceiver : s.receiver = .waiting)
      (hsent : s.sent = s.received.length) (hsize : s.buffer.size = 0)
  | sending (hsender : s.sender = .copying) (hreceiver : s.receiver = .waiting)
      (hsent : s.sent = s.received.length) (hsize : s.buffer.size = 0)
  | written (m : BulkData) (hm : data[s.sent]? = some m) (hsender : s.sender = .copied ())
      (hreceiver : s.receiver = .waiting) (hsent : s.sent = s.received.length)
      (hsize : s.buffer.size = 0) (hbytes : spCopyOut s.buffer m.size = m.bytes)
  /-- One piece of data is in the buffer, and not received yet. -/
  | full (m : BulkData) (hm : data[s.received.length]? = some m) (hsender : s.sender = .waiting)
      (hreceiver : s.receiver = .waiting ∨ s.receiver = .copying ∨ s.receiver = .copied m.bytes)
      (hsent : s.sent = s.received.length + 1) (hsize : s.buffer.size = m.size)
      (hbytes : spCopyOut s.buffer m.size = m.bytes)

/-- **The invariant.** -/
structure Bulk.Inv (data : List BulkData) (s : Bulk) : Prop where
  phase : s.Phase data
  inside : s.reach ≤ spBufferSize
  bytes : s.received <+: data.map BulkData.bytes

theorem spCopyOut_spCopyIn (sb : SPMBuffer) (m : BulkData) :
    spCopyOut (spCopyIn sb m.buf m.size) m.size = m.bytes := by
  refine List.map_congr_left fun i hi => ?_
  have hlt : i < m.size.toNat := List.mem_range.1 hi
  simp [spCopyIn, memcpy, hlt]

theorem BulkData.Fits.size_ne (h : m.Fits) : m.size ≠ 0 := by
  intro hzero
  have h1 := h.1
  rw [hzero] at h1
  exact absurd h1 (by decide)

theorem spIsFull_of_ne {sb : SPMBuffer} (h : sb.size ≠ 0) : spIsFull sb = true :=
  decide_eq_true (UInt32.pos_iff_ne_zero.2 h)

/-! ## Steps -/

namespace Bulk

theorem sendStep_test (hm : data[s.sent]? = some m) (hloc : s.sender = .waiting)
    (hsize : s.buffer.size = 0) : s.sendStep data = some { s with sender := .copying } := by
  simp [sendStep, hm, hloc, spIsFull, hsize]

theorem sendStep_wait (hm : data[s.sent]? = some m) (hloc : s.sender = .waiting)
    (hsize : s.buffer.size ≠ 0) : s.sendStep data = some s := by
  simp [sendStep, hm, hloc, spIsFull_of_ne hsize]

theorem sendStep_copy (hm : data[s.sent]? = some m) (hloc : s.sender = .copying) :
    s.sendStep data = some { s with
      buffer := spCopyIn s.buffer m.buf m.size
      sender := .copied ()
      reach := max s.reach m.size.toNat } := by
  simp [sendStep, hm, hloc]

theorem sendStep_store (hm : data[s.sent]? = some m) (hloc : s.sender = .copied ()) :
    s.sendStep data = some { s with
      buffer := spSetSize s.buffer m.size, sender := .waiting, sent := s.sent + 1 } := by
  simp [sendStep, hm, hloc]

theorem recvStep_wait (hm : data[s.received.length]? = some m) (hloc : s.receiver = .waiting)
    (hsize : s.buffer.size = 0) : s.recvStep data = some s := by
  simp [recvStep, hm, hloc, spIsEmpty, hsize]

theorem recvStep_test (hm : data[s.received.length]? = some m) (hloc : s.receiver = .waiting)
    (hsize : s.buffer.size ≠ 0) : s.recvStep data = some { s with receiver := .copying } := by
  simp [recvStep, hm, hloc, spIsEmpty, hsize]

theorem recvStep_copy (hm : data[s.received.length]? = some m) (hloc : s.receiver = .copying) :
    s.recvStep data = some { s with
      receiver := .copied (spCopyOut s.buffer m.size)
      reach := max s.reach m.size.toNat } := by
  simp [recvStep, hm, hloc]

theorem recvStep_store {bytes : List UInt8} (hm : data[s.received.length]? = some m)
    (hloc : s.receiver = .copied bytes) :
    s.recvStep data = some { s with
      buffer := spSetSize s.buffer 0
      receiver := .waiting
      received := s.received ++ [bytes] } := by
  simp [recvStep, hm, hloc]

/-! ## Sizes that fit -/

/-- **A step of the sender.** -/
theorem Inv.sendStep (hfits : ∀ m ∈ data, m.Fits) (h : s.Inv data)
    (hs' : s.sendStep data = some s') : s'.Inv data := by
  obtain ⟨m, hm, -⟩ := Option.map_eq_some_iff.1 hs'
  have hm_fits := hfits m (List.mem_of_getElem? hm)
  cases h.phase with
  | empty hsender hreceiver hsent hsize =>
    rw [sendStep_test hm hsender hsize] at hs'
    exact Option.some.inj hs' ▸ ⟨.sending rfl hreceiver hsent hsize, h.inside, h.bytes⟩
  | sending hsender hreceiver hsent hsize =>
    rw [sendStep_copy hm hsender] at hs'
    exact Option.some.inj hs' ▸ ⟨.written m hm rfl hreceiver hsent hsize
      (spCopyOut_spCopyIn s.buffer m), max_le h.inside hm_fits.2, h.bytes⟩
  | written m' hm' hsender hreceiver hsent hsize hbytes =>
    obtain rfl : m = m' := Option.some.inj (hm.symm.trans hm')
    rw [sendStep_store hm hsender] at hs'
    exact Option.some.inj hs' ▸ ⟨.full m (hsent ▸ hm) rfl (.inl hreceiver) (by simp [hsent]) rfl
      hbytes, h.inside, h.bytes⟩
  | full m' hm' hsender hreceiver hsent hsize hbytes =>
    have hne := (hfits m' (List.mem_of_getElem? hm')).size_ne
    rw [sendStep_wait hm hsender (hsize ▸ hne)] at hs'
    exact Option.some.inj hs' ▸ h

/-- **A step of the receiver.** -/
theorem Inv.recvStep (hfits : ∀ m ∈ data, m.Fits) (h : s.Inv data)
    (hs' : s.recvStep data = some s') : s'.Inv data := by
  obtain ⟨m, hm, -⟩ := Option.map_eq_some_iff.1 hs'
  have hm_fits := hfits m (List.mem_of_getElem? hm)
  cases h.phase with
  | empty hsender hreceiver hsent hsize =>
    rw [recvStep_wait hm hreceiver hsize] at hs'
    exact Option.some.inj hs' ▸ h
  | sending hsender hreceiver hsent hsize =>
    rw [recvStep_wait hm hreceiver hsize] at hs'
    exact Option.some.inj hs' ▸ h
  | written m' hm' hsender hreceiver hsent hsize hbytes =>
    rw [recvStep_wait hm hreceiver hsize] at hs'
    exact Option.some.inj hs' ▸ h
  | full m' hm' hsender hreceiver hsent hsize hbytes =>
    obtain rfl : m = m' := Option.some.inj (hm.symm.trans hm')
    rcases hreceiver with hreceiver | hreceiver | hreceiver
    · rw [recvStep_test hm hreceiver (hsize ▸ hm_fits.size_ne)] at hs'
      exact Option.some.inj hs' ▸ ⟨.full m hm hsender (.inr (.inl rfl)) hsent hsize hbytes,
        h.inside, h.bytes⟩
    · rw [recvStep_copy hm hreceiver] at hs'
      exact Option.some.inj hs' ▸ ⟨.full m hm hsender (.inr (.inr (congrArg _ hbytes))) hsent hsize
        hbytes, max_le h.inside hm_fits.2, h.bytes⟩
    · -- the call returns with the bytes of this piece
      rw [recvStep_store hm hreceiver] at hs'
      refine Option.some.inj hs' ▸ ⟨.empty hsender rfl (by simp [hsent]) rfl, h.inside, ?_⟩
      obtain ⟨rest, hrest⟩ := h.bytes
      have hnext : (data.map BulkData.bytes)[s.received.length]? = some m.bytes := by
        rw [List.getElem?_map, hm, Option.map_some]
      rw [← hrest, List.getElem?_append_right le_rfl, Nat.sub_self] at hnext
      obtain ⟨rest', rfl⟩ := List.head?_eq_some_iff.1 (List.head?_eq_getElem?.trans hnext)
      exact ⟨rest', by rw [← hrest]; simp⟩

theorem Inv.step (hfits : ∀ m ∈ data, m.Fits) (h : s.Inv data) {move : BulkMove}
    (hs' : s.step data move = some s') : s'.Inv data := by
  cases move with
  | sender => exact h.sendStep hfits hs'
  | receiver => exact h.recvStep hfits hs'

theorem inv_initial (data : List BulkData) (payload : Bytes) : (initial payload).Inv data where
  phase := .empty rfl rfl rfl rfl
  inside := Nat.zero_le _
  bytes := List.nil_prefix

/-- **The invariant says that all is exact**, and that one of the processes can
go on. -/
theorem Inv.exact (hfits : ∀ m ∈ data, m.Fits) (h : s.Inv data) : s.Exact data := by
  have hprogress : s.received.length < data.length →
      ∃ move s', s.step data move = some s' ∧ s' ≠ s := by
    intro hlt
    obtain ⟨m, hm⟩ : ∃ m, data[s.received.length]? = some m := ⟨_, List.getElem?_eq_getElem hlt⟩
    cases h.phase with
    | empty hsender hreceiver hsent hsize =>
      rw [← hsent] at hm
      refine ⟨.sender, _, sendStep_test hm hsender hsize, fun heq => ?_⟩
      simpa [hsender] using congrArg Bulk.sender heq
    | sending hsender hreceiver hsent hsize =>
      rw [← hsent] at hm
      refine ⟨.sender, _, sendStep_copy hm hsender, fun heq => ?_⟩
      simpa [hsender] using congrArg Bulk.sender heq
    | written m hm' hsender hreceiver hsent hsize hbytes =>
      refine ⟨.sender, _, sendStep_store hm' hsender, fun heq => ?_⟩
      simpa using congrArg Bulk.sent heq
    | full m hm' hsender hreceiver hsent hsize hbytes =>
      have hne := (hfits m (List.mem_of_getElem? hm')).size_ne
      rcases hreceiver with hreceiver | hreceiver | hreceiver
      · refine ⟨.receiver, _, recvStep_test hm' hreceiver (hsize ▸ hne), fun heq => ?_⟩
        simpa [hreceiver] using congrArg Bulk.receiver heq
      · refine ⟨.receiver, _, recvStep_copy hm' hreceiver, fun heq => ?_⟩
        simpa [hreceiver] using congrArg Bulk.receiver heq
      · refine ⟨.receiver, _, recvStep_store hm' hreceiver, fun heq => ?_⟩
        simpa using congrArg Bulk.received heq
  refine ⟨h.inside, ?_, ?_, h.bytes, hprogress⟩
  all_goals cases h.phase <;> omega

/-! ## Other sizes -/

/-- The first `k` pieces of data have been sent and received, and neither process
is in the middle of a call. -/
structure Settled (k : ℕ) (s : Bulk) : Prop where
  sender : s.sender = .waiting
  receiver : s.receiver = .waiting
  sent : s.sent = k
  received : s.received.length = k
  size : s.buffer.size = 0

/-- After a call of the sender. -/
def afterSend (s : Bulk) (m : BulkData) : Bulk :=
  { s with
    buffer := spSetSize (spCopyIn s.buffer m.buf m.size) m.size
    sender := .waiting
    sent := s.sent + 1
    reach := max s.reach m.size.toNat }

theorem play_send (hm : data[s.sent]? = some m) (hloc : s.sender = .waiting)
    (hsize : s.buffer.size = 0) :
    Run.play (Bulk.step data) [.sender, .sender, .sender] s = some (s.afterSend m) := by
  simp [Run.play, Bulk.step, Bulk.sendStep, hm, hloc, hsize, spIsFull, afterSend]

/-- After a call of the receiver. -/
def afterRecv (s : Bulk) (m : BulkData) : Bulk :=
  { s with
    buffer := spSetSize s.buffer 0
    receiver := .waiting
    received := s.received ++ [spCopyOut s.buffer m.size]
    reach := max s.reach m.size.toNat }

theorem play_recv (hm : data[s.received.length]? = some m) (hloc : s.receiver = .waiting)
    (hsize : s.buffer.size ≠ 0) :
    Run.play (Bulk.step data) [.receiver, .receiver, .receiver] s = some (s.afterRecv m) := by
  simp [Run.play, Bulk.step, Bulk.recvStep, hm, hloc, hsize, spIsEmpty, afterRecv]

/-- Data that fits is sent and received. -/
theorem Settled.round {k : ℕ} (h : Settled k s) (hm : data[k]? = some m) (hfits : m.Fits) :
    ∃ moves s', Run.play (Bulk.step data) moves s = some s' ∧ Settled (k + 1) s' := by
  have hsend := play_send (h.sent ▸ hm) h.sender h.size
  have hm' : data[(s.afterSend m).received.length]? = some m := by
    rw [← hm, ← h.received]
    rfl
  have hrecv := play_recv hm' h.receiver hfits.size_ne
  refine ⟨_, _, Run.play_trans hsend hrecv, rfl, rfl, congrArg (· + 1) h.sent, ?_, rfl⟩
  simp only [afterRecv, afterSend, List.length_append, h.received, List.length_singleton]

/-- As long as the data fits, each piece can be received before the next one is
sent. -/
theorem exists_settled (payload : Bytes) {k : ℕ} (hk : k ≤ data.length)
    (hfits : ∀ i < k, ∀ m : BulkData, data[i]? = some m → m.Fits) :
    ∃ moves s, Run.play (Bulk.step data) moves (initial payload) = some s ∧ Settled k s := by
  induction k with
  | zero => exact ⟨[], initial payload, rfl, rfl, rfl, rfl, rfl, rfl⟩
  | succ k ih =>
    obtain ⟨moves, s, hs, hsettled⟩ := ih (Nat.le_of_succ_le hk) fun i hi =>
      hfits i (Nat.lt_succ_of_lt hi)
    have hm := List.getElem?_eq_getElem hk
    obtain ⟨moves', s', hs', hsettled'⟩ := hsettled.round hm (hfits k (Nat.lt_succ_self k) _ hm)
    exact ⟨moves ++ moves', s', Run.play_trans hs hs', hsettled'⟩

/-- **Data that does not fit** is copied beyond the payload, or its place is taken
by the next data, or it is never received. -/
theorem Settled.not_exact {k : ℕ} (h : Settled k s) (hm : data[k]? = some m) (hfits : ¬ m.Fits) :
    ∃ moves s', Run.play (Bulk.step data) moves s = some s' ∧ ¬ s'.Exact data := by
  have hlt := (List.getElem?_eq_some_iff.1 hm).1
  have hsend := play_send (h.sent ▸ hm) h.sender h.size
  by_cases hlarge : spBufferSize < m.size.toNat
  · -- the copy goes beyond the payload
    refine ⟨_, _, hsend, fun hexact => ?_⟩
    have hinside : max s.reach m.size.toNat ≤ spBufferSize := hexact.inside
    omega
  · have hzero : (s.afterSend m).buffer.size = 0 := by
      unfold BulkData.Fits at hfits
      exact UInt32.toNat_inj.1 (show m.size.toNat = 0 by omega)
    rcases Nat.lt_or_ge (k + 1) data.length with hnext | hlast
    · -- the buffer is not full, and the next data is sent
      obtain ⟨m', hm'⟩ : ∃ m', data[(s.afterSend m).sent]? = some m' :=
        ⟨_, List.getElem?_eq_getElem (by simpa only [afterSend, h.sent] using hnext)⟩
      refine ⟨_, _, Run.play_trans hsend (play_send hm' rfl hzero), fun hexact => ?_⟩
      have hsent : s.sent + 1 + 1 ≤ s.received.length + 1 := hexact.sent_le
      have := h.sent
      have := h.received
      omega
    · -- the receiver waits, and there is no other call
      refine ⟨_, _, hsend, fun hexact => ?_⟩
      obtain ⟨move, s', hs', hne⟩ := hexact.progress (lt_of_eq_of_lt h.received hlt)
      cases move with
      | sender =>
        have hnone : data[(s.afterSend m).sent]? = none :=
          List.getElem?_eq_none (by simpa only [afterSend, h.sent] using hlast)
        simp [Bulk.step, Bulk.sendStep, hnone] at hs'
      | receiver =>
        have hwait := recvStep_wait (s := s.afterSend m) (h.received ▸ hm) h.receiver hzero
        exact hne (Option.some.inj (hs'.symm.trans hwait))

end Bulk

/-- **Bulk data is transferred exactly** in every interleaving, if and only if all
sizes are between 1 and the size of the payload. -/
theorem bulk_exact_iff (data : List BulkData) (payload : Bytes) :
    (∀ moves s, Run.play (Bulk.step data) moves (Bulk.initial payload) = some s → s.Exact data) ↔
      ∀ m ∈ data, 1 ≤ m.size.toNat ∧ m.size.toNat ≤ spBufferSize := by
  constructor
  · intro h
    -- the data before the first that does not fit can be sent and received
    have hfits : ∀ (k : ℕ) (m : BulkData), data[k]? = some m → m.Fits := by
      intro k
      induction k using Nat.strong_induction_on with
      | _ k ih =>
        intro m hm
        by_contra hnot
        obtain ⟨moves, s, hs, hsettled⟩ := Bulk.exists_settled payload
          (List.getElem?_eq_some_iff.1 hm).1.le ih
        obtain ⟨moves', s', hs', hexact⟩ := hsettled.not_exact hm hnot
        exact hexact (h _ s' (Run.play_trans hs hs'))
    intro m hm
    obtain ⟨k, hk⟩ := List.getElem?_of_mem hm
    exact hfits k m hk
  · intro hfits moves s hs
    have hinv := Run.play_invariant (P := Bulk.Inv data) (fun _ _ _ h hs' => h.step hfits hs')
      (Bulk.inv_initial data payload) hs
    exact hinv.exact hfits

/-- Three bytes, nothing, and two bytes. -/
def emptyBetween : List BulkData :=
  [⟨fun _ => 1, 3⟩, ⟨fun _ => 2, 0⟩, ⟨fun _ => 3, 2⟩]

/-- The first data is sent and received, then both others are sent and the
receiver makes another call. -/
def emptyBetweenMoves : List BulkMove :=
  List.replicate 3 .sender ++ List.replicate 3 .receiver ++ List.replicate 6 .sender ++
    List.replicate 3 .receiver

/-- The second call of the receiver takes the third data for the second, and the
third call never returns; and data that is larger than the payload is copied
beyond it. -/
theorem bulk_not_exact :
    (∃ s, Run.play (Bulk.step emptyBetween) emptyBetweenMoves (Bulk.initial fun _ => 0) = some s ∧
      s.sent = 3 ∧ s.received = [[1, 1, 1], []] ∧
      ∀ move, s.step emptyBetween move = none ∨ s.step emptyBetween move = some s) ∧
    ∃ s, Run.play (Bulk.step [⟨fun _ => 1, 0x1001⟩]) [.sender, .sender] (Bulk.initial fun _ => 0) =
      some s ∧ spBufferSize < s.reach := by
  refine ⟨⟨_, rfl, rfl, rfl, fun move => ?_⟩, _, rfl, by decide⟩
  cases move with
  | sender => exact .inl rfl
  | receiver => exact .inr rfl

end Hsim

end Tqsim
