import Tqsim.Common.Words
import Tqsim.Hsim.Model.Transport

/-!
# Packets over a pipe or a socket arrive

Both loops advance by what the call returned. `comm_recv` does so only for a
positive count, so that it puts the bytes of a stream together however they
come. `comm_send` takes a failure for a count, and goes back by one byte: it
sends that byte again, or the byte before the packet.
-/

namespace Tqsim

namespace Hsim

variable {p : Packet} {b : Bytes} {n v : ℕ}

/-! ## A packet in memory -/

/-- The byte of a number at a place. -/
theorem toNat_bytesOf (v i : ℕ) : (bytesOf v i).toNat = v / 256 ^ i % 256 := by
  rw [bytesOf, UInt8.toNat_ofNat', Nat.shiftRight_eq_div_pow, Nat.pow_mul]

/-- **A number is what its bytes stand for**, if they are enough. -/
theorem ofBytes_eq (h : ∀ i < n, b i = bytesOf v i) (hv : v < 256 ^ n) : ofBytes n b = v := by
  rw [← Nat.mod_eq_of_lt hv, ← Words.sum_digits]
  refine Finset.sum_congr rfl fun i hi => ?_
  rw [h i (Finset.mem_range.1 hi), toNat_bytesOf]

theorem PacketType.ofCode_code (t : PacketType) : PacketType.ofCode t.code = some t := by
  cases t <;> rfl

theorem PacketType.code_lt (t : PacketType) : t.code < 256 ^ 4 := by
  cases t <;> decide

/-- **A packet is what its bytes are.** -/
theorem Packet.ofRaw_toRaw (h : ∀ i : Fin sizeofPacket, b i = p.toRaw i) :
    Packet.ofRaw b = some p := by
  have hbyte : ∀ i, (hi : i < sizeofPacket) → b i = p.toRaw ⟨i, hi⟩ := fun i hi => h ⟨i, hi⟩
  have htype : ofBytes 4 b = p.type.code := ofBytes_eq (fun i hi => by
    rw [hbyte i (by unfold sizeofPacket; omega)]
    simp [Packet.toRaw, hi]) p.type.code_lt
  have hsize : ofBytes 4 (fun i => b (4 + i)) = p.size.toNat := ofBytes_eq (fun i hi => by
    rw [hbyte (4 + i) (by unfold sizeofPacket; omega)]
    simp [Packet.toRaw, show 4 + i < 8 by omega]) p.size.toNat_lt
  have hcycle : ofBytes 8 (fun i => b (8 + i)) = p.cycle.toNat := ofBytes_eq (fun i hi => by
    rw [hbyte (8 + i) (by unfold sizeofPacket; omega)]
    simp [Packet.toRaw, show 8 + i < 16 by omega, show ¬ 8 + i < 4 by omega]) p.cycle.toNat_lt
  have haddress : ofBytes 4 (fun i => b (16 + i)) = p.address.toNat := ofBytes_eq (fun i hi => by
    rw [hbyte (16 + i) (by unfold sizeofPacket; omega)]
    simp [Packet.toRaw, show 16 + i < 20 by omega, show ¬ 16 + i < 4 by omega,
      show ¬ 16 + i < 8 by omega]) p.address.toNat_lt
  have hdata : ∀ i : Fin 8, b (20 + i) = p.data i := fun i => by
    have hi := i.isLt
    rw [hbyte (20 + i) (by unfold sizeofPacket; omega)]
    simp [Packet.toRaw, show 20 + i.val < 28 by omega, show ¬ 20 + i.val < 4 by omega,
      show ¬ 20 + i.val < 8 by omega, show ¬ 20 + i.val < 16 by omega]
  have hflags : ofBytes 4 (fun i => b (28 + i)) = p.flags.toNat := ofBytes_eq (fun i hi => by
    rw [hbyte (28 + i) (by unfold sizeofPacket; omega)]
    simp [Packet.toRaw, show ¬ 28 + i < 4 by omega, show ¬ 28 + i < 8 by omega,
      show ¬ 28 + i < 16 by omega, show ¬ 28 + i < 20 by omega]) p.flags.toNat_lt
  rw [Packet.ofRaw, htype, PacketType.ofCode_code, Option.map_some, hsize, hcycle, haddress, hflags]
  simp only [UInt32.ofNat_toNat, UInt64.ofNat_toNat, funext hdata]

/-! ## Sending -/

theorem addresses_append (first : ℤ) (m n : ℕ) :
    addresses first m ++ addresses (first + m) n = addresses first (m + n) := by
  unfold addresses
  rw [List.range_add, List.map_append, List.map_map]
  congr 1
  refine List.map_congr_left fun i _ => ?_
  simp only [Function.comp_apply, Nat.cast_add]
  omega

/-- **A turn of `comm_send`** fails and goes back, or transfers some bytes. -/
theorem commSendTurn_cases {s s' : SendState} {nSend : ℤ} (h : commSendTurn s nSend = some s') :
    0 < s.nLength ∧
      (nSend = -1 ∧ s' = ⟨s.pPos - 1, s.nLength + 1, s.written⟩ ∨
        ∃ n : ℕ, nSend = n ∧ 1 ≤ n ∧ (n : ℤ) ≤ s.nLength ∧
          s' = ⟨s.pPos + n, s.nLength - n, s.written ++ addresses s.pPos n⟩) := by
  unfold commSendTurn at h
  split at h
  next hturn =>
    obtain ⟨hpos, hfail | ⟨h1, hle⟩⟩ := hturn
    · obtain rfl := Option.some.inj h
      refine ⟨hpos, .inl ⟨hfail, ?_⟩⟩
      rw [hfail]
      simp [addresses, sub_eq_add_neg]
    · obtain rfl := Option.some.inj h
      refine ⟨hpos, .inr ⟨nSend.toNat, by omega, by omega, by omega, ?_⟩⟩
      rw [Int.toNat_of_nonneg (by omega)]
  next => cases h

/-- **What the turns of `comm_send` do.** They write as many bytes as they
advance, and one more for each failure; without a failure, the bytes in their
order. -/
theorem play_commSendTurn {results : List ℤ} {s s' : SendState}
    (h : Run.play commSendTurn results s = some s') (hs : 0 ≤ s.nLength) :
    s'.pPos + s'.nLength = s.pPos + s.nLength ∧ 0 ≤ s'.nLength ∧
      (s'.written.length : ℤ) + s.pPos = s.written.length + s'.pPos + results.count (-1) ∧
      (-1 ∉ results → ∃ n : ℕ, s'.pPos = s.pPos + n ∧
        s'.written = s.written ++ addresses s.pPos n) := by
  induction results generalizing s with
  | nil =>
    obtain rfl := Option.some.inj h
    refine ⟨rfl, hs, by simp, fun _ => ⟨0, by simp, by simp [addresses]⟩⟩
  | cons nSend results ih =>
    obtain ⟨t, ht, hplay⟩ := Option.bind_eq_some_iff.1 h
    obtain ⟨hpos, ⟨rfl, rfl⟩ | ⟨n, rfl, hn, hle, rfl⟩⟩ := commSendTurn_cases ht
    · obtain ⟨hlen, hnonneg, hcount, -⟩ := ih hplay (by simp only; omega)
      simp only at hlen hcount
      refine ⟨by omega, hnonneg, ?_, fun hno => absurd List.mem_cons_self hno⟩
      rw [List.count_cons_self]
      push_cast
      omega
    · obtain ⟨hlen, hnonneg, hcount, horder⟩ := ih hplay (by simp only; omega)
      simp only [List.length_append] at hlen hcount
      have hne : (n : ℤ) ≠ -1 := by omega
      refine ⟨by omega, hnonneg, ?_, fun hno => ?_⟩
      · rw [List.count_cons_of_ne hne]
        simp only [addresses, List.length_map, List.length_range] at hcount
        push_cast at hcount
        omega
      · obtain ⟨m, hm, hwritten⟩ := horder fun hmem => hno (List.mem_cons_of_mem _ hmem)
        refine ⟨n + m, by simp only at hm; push_cast; omega, ?_⟩
        rw [hwritten]
        simp only
        rw [List.append_assoc, addresses_append]

/-- **The bytes are sent as they are**, if and only if no call failed. -/
theorem written_eq_iff {results : List ℤ} {s : SendState}
    (h : Run.play commSendTurn results commSendStart = some s) (hend : s.nLength ≤ 0) :
    s.written = addresses 0 sizeofPacket ↔ -1 ∉ results := by
  obtain ⟨hlen, hnonneg, hcount, horder⟩ := play_commSendTurn h (by decide)
  simp only [commSendStart, List.length_nil, List.nil_append] at hlen hcount horder
  constructor
  · intro hwritten hmem
    have hpos := List.count_pos_iff.2 hmem
    rw [hwritten, addresses, List.length_map, List.length_range] at hcount
    omega
  · intro hno
    obtain ⟨n, hn, hwritten⟩ := horder hno
    have hsize : n = sizeofPacket := by omega
    rw [hwritten, hsize]

/-! ## Receiving -/

/-- **The first `k` bytes of a stream have been received.** -/
structure Received (buf : ℤ → UInt8) (bytes : List UInt8) (k : ℕ) (t : RecvState) : Prop where
  pBuf : t.pBuf = k
  nLength : t.nLength + k = sizeofPacket
  nonneg : 0 ≤ t.nLength
  le : k ≤ bytes.length
  stream : t.stream = bytes.drop k
  memory : ∀ x, t.memory x = if 0 ≤ x ∧ x < k then bytes.getD x.toNat 0 else buf x

/-- **A turn of `comm_recv`** receives some more of them, or none. -/
theorem Received.commRecvTurn {buf : ℤ → UInt8} {bytes : List UInt8} {k : ℕ} {t t' : RecvState}
    {nRecv : ℤ} (h : Received buf bytes k t) (ht : commRecvTurn t nRecv = some t') :
    ∃ k', Received buf bytes k' t' := by
  unfold Hsim.commRecvTurn at ht
  split at ht
  next hturn =>
    obtain ⟨-, hcases⟩ := hturn
    by_cases hpos : 0 < nRecv
    · -- bytes arrive behind the others
      obtain ⟨hle, hle'⟩ : nRecv ≤ t.nLength ∧ nRecv ≤ t.stream.length := by omega
      rw [if_pos hpos] at ht
      obtain rfl := Option.some.inj ht
      obtain ⟨n, rfl⟩ : ∃ n : ℕ, nRecv = n := ⟨nRecv.toNat, by omega⟩
      rw [h.stream, List.length_drop] at hle'
      have hlen := h.nLength
      have hbytes := h.le
      refine ⟨k + n, ?_, ?_, ?_, by omega, ?_, fun x => ?_⟩
      · simp only [RecvState.read, h.pBuf]
        push_cast
        rfl
      · simp only [RecvState.read]
        push_cast
        omega
      · simp only [RecvState.read]
        omega
      · simp only [RecvState.read, Int.toNat_natCast, h.stream, List.drop_drop]
      · simp only [RecvState.read, Int.toNat_natCast, h.pBuf, h.stream, h.memory]
        by_cases hnew : (k : ℤ) ≤ x ∧ x < k + n
        · rw [if_pos hnew, if_pos ⟨by omega, by push_cast; omega⟩, List.getD_eq_getElem?_getD,
            List.getElem?_drop, ← List.getD_eq_getElem?_getD]
          congr 1
          omega
        · rw [if_neg hnew]
          refine if_congr ?_ rfl rfl
          push_cast
          omega
    · -- nothing is transferred
      rw [if_neg hpos] at ht
      obtain rfl := Option.some.inj ht
      have hzero : nRecv.toNat = 0 := by omega
      refine ⟨k, h.pBuf, h.nLength, h.nonneg, h.le, ?_, fun x => ?_⟩
      · simp only [RecvState.read, hzero, List.drop_zero, h.stream]
      · simp only [RecvState.read, hzero]
        rw [if_neg (by push_cast; omega)]
        exact h.memory x
  next => cases ht

theorem received_of_play {buf : ℤ → UInt8} {bytes : List UInt8} {results : List ℤ} {t : RecvState}
    (h : Run.play commRecvTurn results (commRecvStart buf bytes) = some t) :
    ∃ k, Received buf bytes k t := by
  refine Run.play_invariant (P := fun t => ∃ k, Received buf bytes k t) (fun t _ t' ht hturn => ?_)
    ⟨0, rfl, by simp [commRecvStart], Int.natCast_nonneg _, Nat.zero_le _, rfl, fun x => ?_⟩ h
  · obtain ⟨k, hk⟩ := ht
    exact hk.commRecvTurn hturn
  · rw [if_neg (by push_cast; omega)]
    rfl

/-! ## Both -/

/-- **A packet has been transported**: its bytes were written once and in their
order, and no others were; and what reads give of them, however they are
split, makes the packet again. -/
structure Transported (p : Packet) (memory : ℤ → UInt8) (s : SendState) : Prop where
  written : s.written = addresses 0 sizeofPacket
  bytes : s.written.map memory = List.ofFn p.toRaw
  /-- Until it has all bytes, there are bytes to be read. -/
  waiting : ∀ buf results t,
    Run.play commRecvTurn results (commRecvStart buf (s.written.map memory)) = some t →
      0 < t.nLength → t.stream ≠ []
  /-- Nothing but the packet is written to. -/
  frame : ∀ buf results t,
    Run.play commRecvTurn results (commRecvStart buf (s.written.map memory)) = some t →
      ∀ x, ¬ (0 ≤ x ∧ x < sizeofPacket) → t.memory x = buf x
  received : ∀ buf results t,
    Run.play commRecvTurn results (commRecvStart buf (s.written.map memory)) = some t →
      t.nLength ≤ 0 → Packet.ofRaw (fun i : ℕ => t.memory i) = some p

/-- **A packet is transported exactly**, if and only if no `write` failed. -/
theorem transported_iff (p : Packet) (memory : ℤ → UInt8)
    (hp : ∀ i : Fin sizeofPacket, memory (i.val : ℤ) = p.toRaw i) (results : List ℤ) (s : SendState)
    (h : Run.play commSendTurn results commSendStart = some s) (hend : s.nLength ≤ 0) :
    Transported p memory s ↔ -1 ∉ results := by
  rw [← written_eq_iff h hend]
  refine ⟨fun ht => ht.written, fun hwritten => ?_⟩
  have hbytes : s.written.map memory = List.ofFn p.toRaw := by
    rw [hwritten, addresses, List.map_map, ← List.map_coe_finRange_eq_range, List.map_map,
      List.ofFn_eq_map]
    refine List.map_congr_left fun i _ => ?_
    simp only [Function.comp_apply, zero_add, hp]
  have hlength : (s.written.map memory).length = sizeofPacket := by rw [hbytes, List.length_ofFn]
  refine ⟨hwritten, hbytes, fun buf results t ht hpos => ?_, fun buf results t ht x hx => ?_,
    fun buf results t ht hdone => ?_⟩
  · obtain ⟨k, hk⟩ := received_of_play ht
    have hlen := hk.nLength
    rw [hk.stream, Ne, List.drop_eq_nil_iff]
    omega
  · obtain ⟨k, hk⟩ := received_of_play ht
    have hlen := hk.nLength
    have hnonneg := hk.nonneg
    rw [hk.memory, if_neg (by omega)]
  · obtain ⟨k, hk⟩ := received_of_play ht
    have hlen := hk.nLength
    have hnonneg := hk.nonneg
    refine Packet.ofRaw_toRaw fun i => ?_
    have hi := i.isLt
    rw [hk.memory, if_pos (by omega), hbytes, List.getD_eq_getElem?_getD]
    simp

/-- A packet for the register at `0xE0000008`. -/
def samplePacket : Packet := ⟨.write, 4, 600, 0xE0000008, fun _ => 7, 1⟩

/-- Memory with a packet in it. -/
def memoryOf (p : Packet) : ℤ → UInt8 := fun x =>
  if h : x.toNat < sizeofPacket then p.toRaw ⟨x.toNat, h⟩ else 0

/-- The packet in two pieces. -/
theorem transported_pieces : ∃ s, Run.play commSendTurn [5, 27] commSendStart = some s ∧
    s.nLength ≤ 0 ∧ Transported samplePacket (memoryOf samplePacket) s := by
  refine ⟨_, rfl, by decide, (transported_iff samplePacket _ (fun i => ?_) [5, 27] _ rfl
    (by decide)).2 (by decide)⟩
  simp [memoryOf]

/-- `write` fails after ten bytes, and the tenth byte is sent twice; it fails at
once, and the byte before the packet is sent. -/
theorem written_twice :
    (∃ s, Run.play commSendTurn [10, -1, 23] commSendStart = some s ∧ s.nLength ≤ 0 ∧
      s.written.count 9 = 2) ∧
    ∃ s, Run.play commSendTurn [-1, 33] commSendStart = some s ∧ s.nLength ≤ 0 ∧
      -1 ∈ s.written :=
  ⟨⟨_, rfl, by decide, by decide⟩, _, rfl, by decide, by decide⟩

end Hsim

end Tqsim
