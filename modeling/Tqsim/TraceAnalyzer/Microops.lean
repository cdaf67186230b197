import Tqsim.TraceAnalyzer.Analysis
import Tqsim.TraceAnalyzer.Operands

/-!
# The micro-ops of PUSH and POP

`convert_microop` takes the registers of the micro-ops out of `src_reg` or
`dst_reg` by the index of the address, so that the two lists must line up
with the addresses. They do for POP, and for a PUSH of one register; the
list of a PUSH begins with the stack pointer. The cache miss of the record
is copied to a micro-op under a test that its fresh record never passes.
-/

namespace Tqsim

namespace TraceAnalyzer

open SetBits

variable {d : DarmT} {w : UInt32} {inst : Inst} {rest : List Inst} {cap : ℤ} {c : ℕ}

/-! ## Registers and addresses -/

/-- The registers a PUSH or POP transfers, in ascending order. -/
def DarmT.transferred (d : DarmT) : List ℤ :=
  match d.rt with
  | some t => [((t : ℕ) : ℤ)]
  | none => d.regs

/-- A micro-op of a PUSH or POP that moves register `r` to or from the address
`x`. -/
def Inst.Transfers (type : InstTypeName) (r : ℤ) (x : UInt32) (m : Inst) : Prop :=
  m.effAddr = [x] ∧
    match type with
    | .push => m.type = .memWrite ∧ r ∈ m.srcReg
    | _ => m.type = .memRead ∧ r ∈ m.dstReg

/-- The micro-op that moves the stack pointer. -/
def Inst.UpdatesSp (m : Inst) : Prop := m.type = .intAlu ∧ m.srcReg = [13] ∧ m.dstReg = [13]

/-- **Registers and addresses pair up** at the front of a buffer: a micro-op
for each, in order, then the update of the stack pointer, then what was
there. -/
def PairsUp (type : InstTypeName) (regs : List ℤ) (addrs : List UInt32) (rest buffer : List Inst) :
    Prop :=
  ∃ ms sp, buffer = ms ++ sp :: rest ∧ ms.length = regs.length ∧ sp.UpdatesSp ∧
    ∀ (i : ℕ) r x (m : Inst), regs[i]? = some r → addrs[i]? = some x → ms[i]? = some m →
      m.Transfers type r x

/-- The buffer has room for a record's micro-ops. -/
def RoomFor (cap : ℤ) (behind n : ℕ) : Prop := cap = 0 ∨ ((behind + n : ℕ) : ℤ) ≤ cap

/-- A PUSH of a register list, in which the stack pointer comes first, keeps
its order just when the list holds no other register. -/
def PushInOrder (w : UInt32) : Prop :=
  operandForm w = .list → typeOf (darmArmv7Disasm w).2.instr = .push →
    ∀ r ∈ setBits (w &&& bitmsk16).toUInt16.toBitVec, r = 13

theorem lost_eq_zero_iff {behind n : ℕ} (hcap : 0 ≤ cap) : lost cap behind n = 0 ↔
    RoomFor cap behind n := by
  unfold lost RoomFor
  split <;> omega

theorem singleton_getD {x : UInt32} {i : ℕ} (hx : inst.effAddr[i]? = some x) :
    [inst.effAddr.getD i 0] = [x] := by
  rw [List.getD_eq_getElem?_getD, hx, Option.getD_some]

/-- The `i`-th micro-op transfers register `r` at its address just when `r` is
the `i`-th entry of the list it is taken from. -/
theorem pushMicroop_transfers_iff {r : ℤ} {x : UInt32} {i : ℕ} (hx : inst.effAddr[i]? = some x) :
    (pushMicroop inst i).Transfers .push r x ↔ r = inst.srcReg.getD i (-1) := by
  rw [pushMicroop, if_neg (by simp [initInst])]
  constructor
  · rintro ⟨-, -, hr⟩
    exact List.mem_singleton.mp hr
  · intro hr
    exact ⟨singleton_getD hx, rfl, List.mem_singleton.mpr hr⟩

theorem popMicroop_transfers_iff {r : ℤ} {x : UInt32} {i : ℕ} (hx : inst.effAddr[i]? = some x) :
    (popMicroop inst i).Transfers .pop r x ↔ r = inst.dstReg.getD i (-1) := by
  rw [popMicroop, if_neg (by simp [initInst])]
  constructor
  · rintro ⟨-, -, hr⟩
    exact List.mem_singleton.mp hr
  · intro hr
    exact ⟨singleton_getD hx, rfl, List.mem_singleton.mpr hr⟩

/-- A buffer that a conversion made pairs up when nothing is lost and each
micro-op takes its own register. -/
theorem pairsUp_iff {type : InstTypeName} {regs : List ℤ} {addrs : List UInt32} {n k : ℕ}
    {f : ℕ → Inst} {g : ℕ → ℤ} {sp : Inst} (hsp : sp.UpdatesSp) (hregs : regs.length = n)
    (haddrs : addrs.length = n) (hk : k ≤ n)
    (hf : ∀ (i : ℕ) r x, addrs[i]? = some x → ((f i).Transfers type r x ↔ r = g i)) :
    PairsUp type regs addrs rest (((List.range n).map f ++ [sp]).drop k ++ rest) ↔
      k = 0 ∧ ∀ (i : ℕ) r, regs[i]? = some r → r = g i := by
  have hlt : ∀ {i : ℕ} {r : ℤ}, regs[i]? = some r → i < n := fun hr =>
    hregs ▸ (List.getElem?_eq_some_iff.mp hr).1
  have hget : ∀ {i : ℕ}, i < n → ((List.range n).map f)[i]? = some (f i) := by
    intro i hi
    simp [hi]
  constructor
  · rintro ⟨ms, sp', heq, hlen, -, hall⟩
    have hk0 : k = 0 := by
      have := congrArg List.length heq
      simp only [List.length_append, List.length_drop, List.length_map, List.length_range,
        List.length_cons, List.length_nil] at this
      omega
    subst hk0
    rw [List.drop_zero, List.append_assoc] at heq
    have hms := List.append_inj_left heq (by simp [hlen, hregs])
    refine ⟨rfl, fun i r hr => ?_⟩
    have hi : i < addrs.length := haddrs ▸ hlt hr
    have hx : addrs[i]? = some addrs[i] := List.getElem?_eq_getElem hi
    exact (hf i r _ hx).mp (hall i r _ _ hr hx (hms ▸ hget (hlt hr)))
  · rintro ⟨rfl, hall⟩
    refine ⟨(List.range n).map f, sp, by simp, by simp [hregs], hsp, fun i r x m hr hx hm => ?_⟩
    rw [hget (hlt hr)] at hm
    obtain rfl := Option.some.inj hm
    exact (hf i r x hx).mpr (hall i r hr)

theorem getD_append_of_getElem? {l t : List ℤ} {i : ℕ} {r z : ℤ} (h : l[i]? = some r) :
    (l ++ t).getD i z = r := by
  obtain ⟨hi, -⟩ := List.getElem?_eq_some_iff.mp h
  rw [List.getD_eq_getElem?_getD, List.getElem?_append_left hi, h, Option.getD_some]

/-- The destinations of a POP begin with what it transfers. -/
theorem destinations_of_pop (h : typeOf d.instr = .pop) : d.transferred <+: d.destinations := by
  unfold DarmT.destinations DarmT.transferred
  rw [h]
  cases d.rt with
  | none => exact List.prefix_rfl
  | some t => exact List.prefix_append [((t : ℕ) : ℤ)] d.regs

/-- The sources of a single-register PUSH begin with what it transfers. -/
theorem sources_of_push (h : typeOf d.instr = .push) (hrt : d.rt.isSome) :
    d.transferred <+: d.sources := by
  obtain ⟨t, ht⟩ := Option.isSome_iff_exists.mp hrt
  unfold DarmT.sources DarmT.transferred
  rw [h, ht]
  exact ⟨regEntry d.rn ++ d.regs, rfl⟩

/-- Read one entry late, a list agrees with itself just when all of it is the
entry put before it. -/
theorem getD_cons_eq_iff {l t : List ℤ} {a z : ℤ} :
    (∀ (i : ℕ) r, l[i]? = some r → r = (a :: l ++ t).getD i z) ↔ ∀ r ∈ l, r = a := by
  constructor
  · intro hall
    have key : ∀ (i : ℕ) r, l[i]? = some r → r = a := by
      intro i
      induction i with
      | zero => exact fun r hr => hall 0 r hr
      | succ i ih =>
        intro r hr
        have hi : i < l.length := by
          have := (List.getElem?_eq_some_iff.mp hr).1
          omega
        have hpred : l[i]? = some l[i] := List.getElem?_eq_getElem hi
        have := hall (i + 1) r hr
        rw [List.cons_append, List.getD_cons_succ, getD_append_of_getElem? hpred] at this
        exact this.trans (ih _ hpred)
    intro r hr
    obtain ⟨i, hi⟩ := List.mem_iff_getElem?.mp hr
    exact key i r hi
  · intro hall i r hr
    rw [hall r (List.mem_of_getElem? hr)]
    cases i with
    | zero => rfl
    | succ i =>
      have hi : i < l.length := by
        have := (List.getElem?_eq_some_iff.mp hr).1
        omega
      have hpred : l[i]? = some l[i] := List.getElem?_eq_getElem hi
      rw [List.cons_append, List.getD_cons_succ, getD_append_of_getElem? hpred]
      exact (hall _ (List.getElem_mem hi)).symm

theorem decodeInst_effAddr (disasm : UInt32 → Darm) (inst : Inst) :
    (decodeInst disasm inst).effAddr = inst.effAddr :=
  decodeInst_field Inst.effAddr _ _ (fun _ _ => rfl) (fun _ _ => rfl) fun _ _ _ => rfl

/-- The forms of a PUSH or POP: one register, or a list. -/
theorem DarmT.HasForm.stack_cases {form : OperandForm} (h : d.HasForm w form)
    (hstack : (typeOf d.instr).isStack = true) :
    form = .immediate ∧ d.rt.isSome ∨
      form = .list ∧ d.rn = some 13 ∧ d.rt = none ∧
        d.reglist = (w &&& bitmsk16).toUInt16 := by
  have hmem : (typeOf d.instr).isMemory = true := by
    cases ht : typeOf d.instr <;> rw [ht] at hstack <;> first | rfl | exact Bool.noConfusion hstack
  cases form with
  | data | shifted | accumulate | long => exact absurd (h.1.1.symm.trans hmem) Bool.false_ne_true
  | transfer => exact absurd (h.1.symm.trans hmem) Bool.false_ne_true
  | immediate => exact .inl ⟨rfl, (h.2.2.2 hstack).2⟩
  | offset => exact absurd (h.2.2.2.symm.trans hstack) Bool.false_ne_true
  | list => exact .inr ⟨rfl, h.2.2.2.2 hstack, h.2.2.1, h.2.2.2.1⟩

/-- A POP finds its registers where they are. -/
theorem pop_registers (hinst : inst.Recorded)
    (htype : typeOf (darmArmv7Disasm inst.code).2.instr = .pop) (i : ℕ) (r : ℤ)
    (hr : (darmArmv7Disasm inst.code).2.transferred[i]? = some r) :
    r = (decodeInst disasm inst).dstReg.getD i (-1) := by
  obtain ⟨t, ht⟩ := destinations_of_pop htype
  rw [(decodeInst_lists hinst rfl (by rw [htype]; decide)).2, ← ht, List.append_assoc,
    getD_append_of_getElem? hr]

/-- A PUSH does when it is in order. -/
theorem push_registers_iff (hinst : inst.Recorded)
    (htype : typeOf (darmArmv7Disasm inst.code).2.instr = .push) :
    (∀ (i : ℕ) r, (darmArmv7Disasm inst.code).2.transferred[i]? = some r →
      r = (decodeInst disasm inst).srcReg.getD i (-1)) ↔ PushInOrder inst.code := by
  have hsup : typeOf (darmArmv7Disasm inst.code).2.instr ≠ .unsupported := by
    rw [htype]
    decide
  rw [(decodeInst_lists hinst rfl hsup).1]
  rcases (hasForm_operandForm _ hsup).stack_cases (by rw [htype]; rfl) with
    ⟨hform, hrt⟩ | ⟨hform, hrn, hrt, hlist⟩
  · obtain ⟨t, ht⟩ := sources_of_push htype hrt
    refine ⟨fun _ heq => ?_, fun _ i r hr => ?_⟩
    · rw [hform] at heq
      cases heq
    · rw [← ht, List.append_assoc, getD_append_of_getElem? hr]
  · have hsources : (darmArmv7Disasm inst.code).2.sources =
        13 :: (darmArmv7Disasm inst.code).2.regs := by
      rw [DarmT.sources, htype, hrn, hrt]
      rfl
    have htransferred : (darmArmv7Disasm inst.code).2.transferred =
        (darmArmv7Disasm inst.code).2.regs := by
      rw [DarmT.transferred, hrt]
    rw [hsources, htransferred, getD_cons_eq_iff, DarmT.regs, hlist]
    refine ⟨fun h _ _ r hr => ?_, fun h r hr => ?_⟩
    · exact Int.ofNat_inj.mp (h r (List.mem_map_of_mem hr))
    · obtain ⟨i, hi, rfl⟩ := List.mem_map.mp hr
      rw [h hform htype i hi]
      rfl

/-- **PUSH and POP pair registers with addresses** just when the buffer has
room and the instruction is not a PUSH of a list with other registers than
the stack pointer. -/
theorem convertMicroop_pairsUp_iff (hinst : inst.Recorded)
    (hstack : (decodeInst disasm inst).type = .push ∨ (decodeInst disasm inst).type = .pop)
    (hn : inst.effAddr.length = (darmArmv7Disasm inst.code).2.transferred.length)
    (hfits : InstQueue.Fits ⟨inst :: rest, cap⟩) (c : ℕ) :
    PairsUp (decodeInst disasm inst).type (darmArmv7Disasm inst.code).2.transferred inst.effAddr
        rest (convertMicroop ⟨decodeInst disasm inst :: rest, cap⟩ (decodeInst disasm inst)
          c).1.elems ↔
      RoomFor cap rest.length (inst.effAddr.length + 1) ∧ PushInOrder inst.code := by
  have hcap : 0 ≤ cap := by
    simp only [InstQueue.Fits, InstQueue.size, List.length_cons] at hfits
    omega
  have hlost : lost cap rest.length (inst.effAddr.length + 1) ≤ inst.effAddr.length :=
    Nat.le_of_lt_succ (lost_lt hfits (Nat.succ_pos _))
  have hsp : (spMicroop (decodeInst disasm inst)).UpdatesSp := ⟨rfl, rfl, rfl⟩
  have heff := decodeInst_effAddr disasm inst
  have htype := decodeInst_type hinst.decoded
  have hfits : InstQueue.Fits ⟨decodeInst disasm inst :: rest, cap⟩ := hfits
  rw [convertMicroop_eq _ rest hfits, expandInst, ← lost_eq_zero_iff hcap]
  rcases hstack with hpush | hpop
  · rw [hpush] at htype ⊢
    have hops : microops (decodeInst disasm inst) =
        (List.range inst.effAddr.length).map (pushMicroop (decodeInst disasm inst)) ++
          [spMicroop (decodeInst disasm inst)] := by
      rw [microops, hpush, heff]
    rw [hops, List.length_append, List.length_map, List.length_range, List.length_singleton,
      pairsUp_iff hsp hn.symm rfl hlost
        fun i r x hx => pushMicroop_transfers_iff (by rw [heff]; exact hx),
      push_registers_iff hinst htype.symm]
  · rw [hpop] at htype ⊢
    have hops : microops (decodeInst disasm inst) =
        (List.range inst.effAddr.length).map (popMicroop (decodeInst disasm inst)) ++
          [spMicroop (decodeInst disasm inst)] := by
      rw [microops, hpop, heff]
    have horder : PushInOrder inst.code := by
      intro _ hpush
      rw [← htype] at hpush
      cases hpush
    rw [hops, List.length_append, List.length_map, List.length_range, List.length_singleton,
      pairsUp_iff hsp hn.symm rfl hlost
        fun i r x hx => popMicroop_transfers_iff (by rw [heff]; exact hx)]
    exact and_congr_right fun _ =>
      ⟨fun _ => horder, fun _ => pop_registers hinst htype.symm⟩

/-- A record with this code and these addresses. -/
def stackRecord (w : UInt32) (addrs : List UInt32) : Inst :=
  { initInst 0 0 w with effAddr := addrs }

theorem stackRecord_recorded (w : UInt32) (addrs : List UInt32) : (stackRecord w addrs).Recorded :=
  ⟨0, 0, w, rfl⟩

/-- `ldm sp!, {r0, r1}`, the POP of two registers. -/
theorem convertMicroop_pairsUp_pop :
    ((decodeInst disasm (stackRecord 0xE8BD0003 [0x100, 0x104])).type = .push ∨
        (decodeInst disasm (stackRecord 0xE8BD0003 [0x100, 0x104])).type = .pop) ∧
      (PairsUp (decodeInst disasm (stackRecord 0xE8BD0003 [0x100, 0x104])).type
          (darmArmv7Disasm 0xE8BD0003).2.transferred [0x100, 0x104] []
          (convertMicroop ⟨[decodeInst disasm (stackRecord 0xE8BD0003 [0x100, 0x104])], 0⟩
            (decodeInst disasm (stackRecord 0xE8BD0003 [0x100, 0x104])) 1).1.elems ↔
        RoomFor 0 0 3 ∧ PushInOrder 0xE8BD0003) :=
  ⟨by decide, convertMicroop_pairsUp_iff (stackRecord_recorded _ _) (by decide)
    (by decide) (by decide) 1⟩

/-- `stmdb sp!, {r0, r1}`: the store to the first address is given `sp`, the
one to the second `r0`. -/
theorem push_list_off_by_one :
    (decodeInst disasm (stackRecord 0xE92D0003 [0x100, 0x104])).type = .push ∧
      (darmArmv7Disasm 0xE92D0003).2.transferred = [0, 1] ∧
      (convertMicroop ⟨[decodeInst disasm (stackRecord 0xE92D0003 [0x100, 0x104])], 0⟩
          (decodeInst disasm (stackRecord 0xE92D0003 [0x100, 0x104])) 1).1.elems.map
        (fun m => (m.type, m.effAddr, m.srcReg)) =
      [(.memWrite, [0x100], [13]), (.memWrite, [0x104], [0]), (.intAlu, [], [13])] := by
  decide

/-! ## Cache misses -/

variable {F : Type} {E : Env F}

/-- The record after the accesses of its instruction. -/
def Inst.accessed (inst : Inst) (accesses : List (UInt32 × CacheMissType)) : Inst :=
  accesses.foldl (fun inst a => setInstEffAddr inst a.1 a.2) inst

/-- **The cache miss of a record is kept** by the micro-ops that were put in
its place: it is the largest among theirs, and a load of a POP that missed
is charged for it. -/
def KeepsMiss (E : Env F) (inst : Inst) (rest buffer : List Inst) : Prop :=
  ∃ ms, buffer = ms ++ rest ∧
    IsGreatest {n | ∃ m ∈ ms, m.cacheMiss.toNat = n} inst.cacheMiss.toNat ∧
    (inst.type = .pop → inst.cacheMiss ≠ .l1Hit →
      ∃ m ∈ ms, m.type = .memRead ∧ writebackLatency E m = 2 + (E.cfg.ul2Latency + 1))

theorem toNat_eq_zero_iff {miss : CacheMissType} : miss.toNat = 0 ↔ miss = .l1Hit := by
  cases miss <;> simp [CacheMissType.toNat]

/-- An access keeps the worse of the misses. -/
theorem accessed_cacheMiss_iff {accesses : List (UInt32 × CacheMissType)} :
    (inst.accessed accesses).cacheMiss = .l1Hit ↔
      inst.cacheMiss = .l1Hit ∧ ∀ a ∈ accesses, a.2 = .l1Hit := by
  induction accesses generalizing inst with
  | nil => simp [Inst.accessed]
  | cons a accesses ih =>
    have hstep : (setInstEffAddr inst a.1 a.2).cacheMiss = .l1Hit ↔
        inst.cacheMiss = .l1Hit ∧ a.2 = .l1Hit := by
      unfold setInstEffAddr
      cases inst.cacheMiss <;> cases a.2 <;> simp [CacheMissType.toNat]
    have := @ih (setInstEffAddr inst a.1 a.2)
    rw [hstep] at this
    simpa [Inst.accessed, and_assoc] using this

/-- No micro-op has a cache miss. -/
theorem microops_cacheMiss (h : inst.type = .push ∨ inst.type = .pop) :
    ∀ m ∈ microops inst, m.cacheMiss = .l1Hit := by
  intro m hm
  rcases mem_microops hm with ⟨i, rfl⟩ | ⟨i, rfl⟩ | rfl | ⟨-, hpop, hpush⟩
  · rw [popMicroop, if_neg (by simp [initInst])]
    rfl
  · rw [pushMicroop, if_neg (by simp [initInst])]
    rfl
  · rfl
  · exact (h.elim hpush hpop).elim

theorem decodeInst_cacheMiss (disasm : UInt32 → Darm) (inst : Inst) :
    (decodeInst disasm inst).cacheMiss = inst.cacheMiss :=
  decodeInst_field Inst.cacheMiss _ _ (fun _ _ => rfl) (fun _ _ => rfl) fun _ _ _ => rfl

/-- **The expansion keeps the cache miss just when there was none**, for every
record that was made with no miss and got its misses from its accesses. -/
theorem convertMicroop_keepsMiss_iff {accesses : List (UInt32 × CacheMissType)}
    (hfresh : inst.cacheMiss = .l1Hit)
    (hstack : (decodeInst disasm (inst.accessed accesses)).type = .push ∨
      (decodeInst disasm (inst.accessed accesses)).type = .pop)
    (hfits : InstQueue.Fits ⟨inst :: rest, cap⟩) (c : ℕ) :
    KeepsMiss E (decodeInst disasm (inst.accessed accesses)) rest
        (convertMicroop ⟨decodeInst disasm (inst.accessed accesses) :: rest, cap⟩
          (decodeInst disasm (inst.accessed accesses)) c).1.elems ↔
      ∀ a ∈ accesses, a.2 = .l1Hit := by
  have hmiss : (decodeInst disasm (inst.accessed accesses)).cacheMiss = .l1Hit ↔
      ∀ a ∈ accesses, a.2 = .l1Hit := by
    rw [decodeInst_cacheMiss, accessed_cacheMiss_iff]
    simp [hfresh]
  have hops := microops_cacheMiss hstack
  generalize decodeInst disasm (inst.accessed accesses) = decoded at hmiss hops hstack ⊢
  have hfits : InstQueue.Fits ⟨decoded :: rest, cap⟩ := hfits
  rw [convertMicroop_eq _ rest hfits, ← hmiss]
  have hall : ∀ m ∈ expandInst cap rest.length decoded, m.cacheMiss = .l1Hit := fun m hm =>
    hops m (List.mem_of_mem_drop hm)
  constructor
  · rintro ⟨ms, heq, ⟨⟨m, hm, hgreatest⟩, -⟩, -⟩
    rw [← List.append_cancel_right heq] at hm
    rw [hall m hm] at hgreatest
    exact toNat_eq_zero_iff.mp hgreatest.symm
  · intro hhit
    obtain ⟨m, hm⟩ := List.exists_mem_of_ne_nil _ (expandInst_ne_nil hfits decoded)
    refine ⟨_, rfl, ⟨⟨m, hm, ?_⟩, ?_⟩, fun _ hmissed => absurd hhit hmissed⟩
    · rw [hall m hm, hhit]
    · rintro n ⟨m', hm', rfl⟩
      rw [hall m' hm', hhit]

/-- The accesses of a POP of two registers, the first of which misses. -/
def missedAccesses : List (UInt32 × CacheMissType) := [(0x100, .l1Miss), (0x104, .l1Hit)]

/-- The POP of two registers after these accesses. -/
theorem convertMicroop_keepsMiss_pop :
    ((decodeInst disasm ((stackRecord 0xE8BD0003 []).accessed missedAccesses)).type = .push ∨
        (decodeInst disasm ((stackRecord 0xE8BD0003 []).accessed missedAccesses)).type = .pop) ∧
      (KeepsMiss (sampleEnv 40)
          (decodeInst disasm ((stackRecord 0xE8BD0003 []).accessed missedAccesses)) []
          (convertMicroop
            ⟨[decodeInst disasm ((stackRecord 0xE8BD0003 []).accessed missedAccesses)], 0⟩
            (decodeInst disasm ((stackRecord 0xE8BD0003 []).accessed missedAccesses)) 1).1.elems ↔
        ∀ a ∈ missedAccesses, a.2 = .l1Hit) :=
  ⟨by decide, convertMicroop_keepsMiss_iff rfl (by decide) (by decide) 1⟩

/-- None of its micro-ops has a miss, and no load is charged the ten cycles of
one. -/
theorem pop_miss_lost :
    (decodeInst disasm ((stackRecord 0xE8BD0003 []).accessed missedAccesses)).cacheMiss =
        .l1Miss ∧
      (convertMicroop
          ⟨[decodeInst disasm ((stackRecord 0xE8BD0003 []).accessed missedAccesses)], 0⟩
          (decodeInst disasm ((stackRecord 0xE8BD0003 []).accessed missedAccesses)) 1).1.elems.map
        (fun m => (m.type, m.cacheMiss, writebackLatency (sampleEnv 40) m)) =
      [(.memRead, .l1Hit, 3), (.memRead, .l1Hit, 3), (.intAlu, .l1Hit, 2)] := by
  decide

end TraceAnalyzer

end Tqsim
