import Tqsim.TraceFile.Model.TraceFile

/-!
# The round trip

What is read back from a trace file are the records that the logged pushes
make, whatever the capacity of the buffer they are read into: a line reads
as the event it was written for, and a full buffer cuts the events between
two instructions, the second of which waits for the next call.
-/

namespace Tqsim

namespace TraceFile

open TraceAnalyzer (Inst InstQueue initInst setInstEffAddr setInstBpredMispred
  isFullQueue_eq_false_iff)
open CText

variable {e : TraceEvent} {events : List TraceEvent} {l l₁ l₂ : List Inst} {capacity : ℤ}
  {r : Reader}

/-! ## A line -/

theorem hex_ne_nil (n : UInt32) : hex n ≠ [] := numeral_ne_nil _ _

theorem notMem_hex (n : UInt32) {c : Char} (hc : digitVal c = none) : c ∉ hex n :=
  notMem_numeral (by decide) (by decide) _ hc

theorem length_hex_le (n : UInt32) : (hex n).length ≤ 8 :=
  length_numeral_le (by decide) (by decide) n.toNat_lt

theorem strtoul_hex (n : UInt32) : (strtoul 16 (hex n)).toUInt32 = n := by
  have h : strtoul 16 (numeral 16 n.toNat ++ []) = UInt64.ofNat n.toNat :=
    strtoul_numeral (by decide) (by decide) (by have := n.toNat_lt; omega) (by simp [Ends])
  rw [List.append_nil] at h
  rw [hex, h]
  simp

/-- The last word of a line has the end of the line in it. -/
theorem strtoul_last {n : ℕ} (hn : n < 2 ^ 64) :
    strtoul 10 (numeral 10 n ++ ['\n']) = UInt64.ofNat n :=
  strtoul_numeral (by decide) (by decide) hn (by simp [Ends, digitVal])

theorem strtok_hex (n : UInt32) (rest : List Char) :
    strtok ' ' (hex n ++ ' ' :: rest) = some (hex n, rest) :=
  strtok_append (hex_ne_nil n) (notMem_hex n rfl) rest

theorem strtok_numeral_end (n : ℕ) :
    strtok ' ' (numeral 10 n ++ ['\n']) = some (numeral 10 n ++ ['\n'], []) := by
  refine strtok_last (by simp) ?_
  simpa using notMem_numeral (by decide) (by decide) n rfl

theorem missTypeOf_toNat (m : CacheMissType) : missTypeOf (UInt64.ofNat m.toNat) = some m := by
  cases m <;> rfl

theorem missType_toNat_lt (m : CacheMissType) : m.toNat < 2 ^ 64 := by
  cases m <;> decide

/-- What reading an event does. -/
def TraceEvent.read (r : Reader) : TraceEvent → Option (Bool × Reader)
  | .code seq pc word missType => some (r.pushCode seq pc word missType)
  | e => (e.push r.traceBuffer).map fun q => (true, { r with traceBuffer := q })

/-- **A line reads as the event it was written for.** -/
theorem readLine_line (r : Reader) (e : TraceEvent) :
    r.readLine (e.line ++ ['\n']) = e.read r := by
  cases e with
  | code seq pc word m =>
    have hline : (TraceEvent.code seq pc word m).line ++ ['\n'] = ['c'] ++ ' ' ::
        (hex seq ++ ' ' :: (hex pc ++ ' ' :: (hex word ++ ' ' ::
          (numeral 10 m.toNat ++ ['\n'])))) := by
      simp [TraceEvent.line]
    rw [hline, Reader.readLine, strtok_append (by simp) (by simp)]
    simp only [List.head?_cons, if_true]
    simp only [Reader.readCode, strtok_hex, Option.bind_some, strtok_numeral_end,
      strtoul_last (missType_toNat_lt m), missTypeOf_toNat, Option.map_some, strtoul_hex]
    rfl
  | memaddr addr m =>
    have hline : (TraceEvent.memaddr addr m).line ++ ['\n'] =
        ['a'] ++ ' ' :: (hex addr ++ ' ' :: (numeral 10 m.toNat ++ ['\n'])) := by
      simp [TraceEvent.line]
    rw [hline, Reader.readLine, strtok_append (by simp) (by simp)]
    simp only [List.head?_cons, Option.some.injEq, Char.reduceEq, if_true, if_false]
    simp only [Reader.readMemaddr, strtok_hex, Option.bind_some, strtok_numeral_end,
      strtoul_last (missType_toNat_lt m), missTypeOf_toNat, strtoul_hex]
    rfl
  | bpred correct =>
    have hline : (TraceEvent.bpred correct).line ++ ['\n'] =
        ['b'] ++ ' ' :: (numeral 10 correct.toNat ++ ['\n']) := by
      simp [TraceEvent.line]
    have hbool : ((UInt64.ofNat correct.toNat).toUInt32 != 0) = correct := by
      cases correct <;> rfl
    rw [hline, Reader.readLine, strtok_append (by simp) (by simp)]
    simp only [List.head?_cons, Option.some.injEq, Char.reduceEq, if_true, if_false]
    simp only [Reader.readBpred, strtok_numeral_end, Option.bind_some,
      strtoul_last (show correct.toNat < 2 ^ 64 by cases correct <;> decide), hbool]
    rfl

/-- A line fits into the reader's buffer. -/
theorem length_line (e : TraceEvent) : e.line.length + 1 < 256 := by
  cases e with
  | code seq pc word m =>
    have h1 := length_hex_le seq
    have h2 := length_hex_le pc
    have h3 := length_hex_le word
    have h4 : (numeral 10 m.toNat).length ≤ 1 := by cases m <;> decide
    simp only [TraceEvent.line, List.length_append, List.length_cons]
    omega
  | memaddr addr m =>
    have h1 := length_hex_le addr
    have h4 : (numeral 10 m.toNat).length ≤ 1 := by cases m <;> decide
    simp only [TraceEvent.line, List.length_append, List.length_cons]
    omega
  | bpred correct =>
    have h4 : (numeral 10 correct.toNat).length ≤ 1 := by cases correct <;> decide
    simp only [TraceEvent.line, List.length_cons]
    omega

theorem newline_notMem_line (e : TraceEvent) : '\n' ∉ e.line := by
  have hdec : ∀ n, '\n' ∉ numeral 10 n := fun n => notMem_numeral (by decide) (by decide) n rfl
  have hhex : ∀ n, '\n' ∉ hex n := fun n => notMem_hex n rfl
  cases e <;> simp [TraceEvent.line, hdec, hhex]

/-- **The next line of a trace file** is that of the next event. -/
theorem fgets_logFile (e : TraceEvent) (events : List TraceEvent) :
    fgets 256 (logFile (e :: events)) = some (e.line ++ ['\n'], logFile events) := by
  have happ : logFile (e :: events) = e.line ++ '\n' :: logFile events := by
    simp [logFile]
  rw [happ, fgets_append (newline_notMem_line e) (length_line e)]

theorem length_le_logFile (events : List TraceEvent) : events.length ≤ (logFile events).length := by
  induction events with
  | nil => exact le_rfl
  | cons e events ih =>
    simp only [logFile, List.flatMap_cons, List.length_append, List.length_cons] at ih ⊢
    omega

/-! ## The records -/

/-- The last record is changed. -/
def updateLast (f : Inst → Inst) (l : List Inst) : List Inst :=
  l.dropLast ++ (l.getLast?.map f).toList

/-- A list of records after an event. -/
def TraceEvent.extend (l : List Inst) : TraceEvent → List Inst
  | .code seq pc word missType => l ++ [{ initInst seq pc word with instCacheMiss := missType }]
  | .memaddr addr missType => updateLast (fun inst => setInstEffAddr inst addr missType) l
  | .bpred correct => updateLast (fun inst => setInstBpredMispred inst !correct) l

/-- A list of records after a sequence of events. -/
def build (l : List Inst) (events : List TraceEvent) : List Inst :=
  events.foldl TraceEvent.extend l

theorem updateLast_concat (f : Inst → Inst) (l : List Inst) (inst : Inst) :
    updateLast f (l ++ [inst]) = l ++ [f inst] := by
  simp [updateLast]

/-- Only the last record is ever changed. -/
theorem extend_append (l₁ : List Inst) (hl : l₂ ≠ []) (e : TraceEvent) :
    e.extend (l₁ ++ l₂) = l₁ ++ e.extend l₂ ∧ e.extend l₂ ≠ [] := by
  obtain ⟨l, inst, rfl⟩ := List.eq_nil_or_concat l₂ |>.resolve_left hl
  rw [List.concat_eq_append]
  cases e with
  | code seq pc word m => exact ⟨List.append_assoc .., by simp [TraceEvent.extend]⟩
  | memaddr addr m =>
    simp only [TraceEvent.extend]
    rw [← List.append_assoc, updateLast_concat, updateLast_concat, List.append_assoc]
    exact ⟨rfl, by simp⟩
  | bpred correct =>
    simp only [TraceEvent.extend]
    rw [← List.append_assoc, updateLast_concat, updateLast_concat, List.append_assoc]
    exact ⟨rfl, by simp⟩

theorem build_append (hl : l₂ ≠ []) (events : List TraceEvent) :
    build (l₁ ++ l₂) events = l₁ ++ build l₂ events := by
  induction events generalizing l₂ with
  | nil => rfl
  | cons e events ih =>
    obtain ⟨happ, hne⟩ := extend_append l₁ hl e
    rw [build, List.foldl_cons, happ]
    exact ih hne

/-- There is a record for what comes next to belong to. -/
def Starts (l : List Inst) (events : List TraceEvent) : Prop :=
  l ≠ [] ∨ events = [] ∨ ∃ seq pc word m rest, events = .code seq pc word m :: rest

/-- A change of the newest record. -/
theorem updateNewest_eq (hl : l ≠ []) (f : Inst → Inst) :
    Sampling.updateNewest ⟨l, capacity⟩ f = some ⟨updateLast f l, capacity⟩ := by
  rw [Sampling.updateNewest, updateLast, List.getLast?_eq_some_getLast hl]
  rfl

/-- An event that belongs to the newest record. -/
theorem push_of_ne_code (hl : l ≠ []) (he : ∀ seq pc word m, e ≠ .code seq pc word m) :
    e.push ⟨l, capacity⟩ = some ⟨e.extend l, capacity⟩ := by
  cases e with
  | code seq pc word m => exact absurd rfl (he seq pc word m)
  | memaddr addr m => exact updateNewest_eq hl _
  | bpred correct => exact updateNewest_eq hl _

/-- An empty buffer has room. -/
theorem hasRoom_nil (hcap : 0 < capacity) : (InstQueue.mk ([] : List Inst) capacity).HasRoom :=
  .inr hcap

/-- A new record, where there is room. -/
theorem pushCode_of_room (hroom : (InstQueue.mk l capacity).isFullQueue = false)
    (seq pc word : UInt32) (m : CacheMissType) :
    Sampling.pushCode ⟨l, capacity⟩ seq pc word m =
      ⟨(TraceEvent.code seq pc word m).extend l, capacity⟩ := by
  rw [Sampling.pushCode, if_neg (by simp [hroom]), InstQueue.pushBackInst,
    if_pos ((isFullQueue_eq_false_iff _).1 hroom)]
  rfl

theorem Starts.of_ne_nil (h : l ≠ []) : Starts l events := .inl h

/-- Only a new record can come first. -/
theorem Starts.ne_nil (h : Starts l (e :: events)) (he : ∀ seq pc word m, e ≠ .code seq pc word m) :
    l ≠ [] := by
  rcases h with hl | hnil | ⟨seq, pc, word, m, rest, hcode⟩
  · exact hl
  · cases hnil
  · exact absurd (List.cons.inj hcode).1 (he seq pc word m)

/-- The reader adds an event to the newest record. -/
theorem read_of_ne_code (hl : l ≠ []) (he : ∀ seq pc word m, e ≠ .code seq pc word m)
    (file : List Char) : e.read ⟨file, none, ⟨l, capacity⟩⟩ =
      some (true, ⟨file, none, ⟨e.extend l, capacity⟩⟩) := by
  have hpush : e.push ⟨l, capacity⟩ = some ⟨e.extend l, capacity⟩ := push_of_ne_code hl he
  cases e with
  | code seq pc word m => exact absurd rfl (he seq pc word m)
  | memaddr addr m => simp only [TraceEvent.read, hpush, Option.map_some]
  | bpred correct => simp only [TraceEvent.read, hpush, Option.map_some]

/-! ## The reader -/

/-- **One call, from the loop on.** What it leaves unread, after the record
that waits, makes the rest of the records. -/
theorem fillLoop_logFile (hcap : 0 < capacity) (hstart : Starts l events) {n : ℕ}
    (hn : events.length < n) :
    ∃ r' events', Reader.fillLoop n ⟨logFile events, none, ⟨l, capacity⟩⟩ = some r' ∧
      r'.file = logFile events' ∧ r'.traceBuffer.capacity = capacity ∧
      build l events = r'.traceBuffer.elems ++ build r'.onTheFlyInst.toList events' ∧
      (r'.onTheFlyInst = none → events' = []) ∧
      (r'.traceBuffer.elems = [] → l = [] ∧ events = []) := by
  induction events generalizing l n with
  | nil =>
    obtain ⟨n, rfl⟩ := Nat.exists_eq_succ_of_ne_zero (Nat.ne_of_gt hn)
    exact ⟨_, [], rfl, rfl, rfl, (List.append_nil l).symm, fun _ => rfl, fun h => ⟨h, rfl⟩⟩
  | cons e events ih =>
    obtain ⟨n, rfl⟩ := Nat.exists_eq_succ_of_ne_zero (Nat.ne_of_gt (Nat.zero_lt_of_lt hn))
    have hn' : events.length < n := Nat.lt_of_succ_lt_succ hn
    rw [Reader.fillLoop]
    simp only [fgets_logFile, readLine_line]
    by_cases hcode : ∃ seq pc word m, e = .code seq pc word m
    · obtain ⟨seq, pc, word, m, rfl⟩ := hcode
      simp only [TraceEvent.read, Option.bind_some, Reader.pushCode]
      cases hfull : (InstQueue.mk l capacity).isFullQueue with
      | true =>
        -- the record waits for the next call
        have hl : l ≠ [] := by
          rintro rfl
          rw [(isFullQueue_eq_false_iff _).2 (hasRoom_nil hcap)] at hfull
          cases hfull
        refine ⟨_, events, rfl, rfl, rfl, ?_, fun h => ?_, fun h => absurd h hl⟩
        · exact build_append (by simp) events
        · simp at h
      | false =>
        simp only [Bool.false_eq_true, if_false, if_true, pushCode_of_room hfull]
        have hne : (TraceEvent.code seq pc word m).extend l ≠ [] := by simp [TraceEvent.extend]
        obtain ⟨r', events', hr', h1, h2, h3, h4, h5⟩ := ih (.of_ne_nil hne) hn'
        exact ⟨r', events', hr', h1, h2, h3, h4, fun h => absurd (h5 h).1 hne⟩
    · have he : ∀ seq pc word m, e ≠ .code seq pc word m :=
        fun seq pc word m h => hcode ⟨seq, pc, word, m, h⟩
      have hl : l ≠ [] := hstart.ne_nil he
      have hne : e.extend l ≠ [] := (extend_append [] hl e).2
      simp only [read_of_ne_code hl he, Option.bind_some, if_true]
      obtain ⟨r', events', hr', h1, h2, h3, h4, h5⟩ := ih (.of_ne_nil hne) hn'
      exact ⟨r', events', hr', h1, h2, h3, h4, fun h => absurd (h5 h).1 hne⟩

/-- **Repeated calls** give all records, whatever waits at the first. -/
theorem seqMain_eq (hcap : 0 < capacity) (waiting : Option Inst)
    (hstart : Starts waiting.toList events) {n : ℕ}
    (hn : (build waiting.toList events).length < n) :
    Reader.seqMain n ⟨logFile events, waiting, ⟨[], capacity⟩⟩ =
      some (build waiting.toList events) := by
  induction n generalizing events waiting with
  | zero => omega
  | succ n ih =>
    have hpush : (Reader.mk (logFile events) waiting ⟨[], capacity⟩).pushOnTheFly =
        ⟨logFile events, none, ⟨waiting.toList, capacity⟩⟩ := by
      cases waiting with
      | none => rfl
      | some inst =>
        simp only [Reader.pushOnTheFly, InstQueue.pushBackInst, if_pos (hasRoom_nil hcap)]
        rfl
    obtain ⟨r', events', hr', hfile, hcapacity, hbuild, hwait, hempty⟩ :=
      fillLoop_logFile hcap hstart (Nat.lt_succ_of_le (length_le_logFile events))
    rw [Reader.seqMain, Reader.fillTraceBufferFromFile, hpush, hr', Option.bind_some]
    by_cases hsize : r'.traceBuffer.size = 0
    · obtain ⟨hnone, rfl⟩ := hempty (List.eq_nil_of_length_eq_zero hsize)
      rw [if_pos hsize, hnone]
      rfl
    · have hnext : ({ r' with traceBuffer := { r'.traceBuffer with elems := [] } } : Reader) =
          ⟨logFile events', r'.onTheFlyInst, ⟨[], capacity⟩⟩ := by
        rw [← hfile, ← hcapacity]
      have hstart' : Starts r'.onTheFlyInst.toList events' := by
        cases hinst : r'.onTheFlyInst with
        | none => exact .inr (.inl (hwait hinst))
        | some inst => exact .inl (by simp)
      have hlt : (build r'.onTheFlyInst.toList events').length < n := by
        rw [hbuild, List.length_append] at hn
        have hpos : 0 < r'.traceBuffer.elems.length := Nat.pos_of_ne_zero hsize
        omega
      rw [if_neg hsize, hnext, ih _ hstart' hlt, Option.map_some, hbuild]

/-! ## The writer's side -/

/-- Without a bound, every push makes the list longer by its event. -/
theorem foldlM_push (hl : l ≠ []) (events : List TraceEvent) :
    events.foldlM TraceEvent.push (InstQueue.mk l 0) = some ⟨build l events, 0⟩ := by
  induction events generalizing l with
  | nil => rfl
  | cons e events ih =>
    have hpush : e.push ⟨l, 0⟩ = some ⟨e.extend l, 0⟩ := by
      by_cases hcode : ∃ seq pc word m, e = .code seq pc word m
      · obtain ⟨seq, pc, word, m, rfl⟩ := hcode
        exact congrArg some (pushCode_of_room rfl seq pc word m)
      · exact push_of_ne_code hl fun seq pc word m h => hcode ⟨seq, pc, word, m, h⟩
    rw [List.foldlM_cons, hpush]
    exact ih (extend_append [] hl e).2

theorem records_eq (seq pc word : UInt32) (m : CacheMissType) (events : List TraceEvent) :
    records (.code seq pc word m :: events) =
      some (build [] (.code seq pc word m :: events)) := by
  have hpush : (TraceEvent.code seq pc word m).push ⟨[], 0⟩ =
      some ⟨(TraceEvent.code seq pc word m).extend [], 0⟩ :=
    congrArg some (pushCode_of_room rfl seq pc word m)
  rw [records, List.foldlM_cons, hpush]
  exact congrArg (Option.map InstQueue.elems) (foldlM_push (by simp [TraceEvent.extend]) events)

theorem length_extend_le (e : TraceEvent) (l : List Inst) :
    (e.extend l).length ≤ l.length + 1 := by
  have hupdate : ∀ f, (updateLast f l).length ≤ l.length + 1 := by
    intro f
    rw [updateLast, List.length_append, List.length_dropLast]
    exact Nat.add_le_add (Nat.sub_le _ _) Option.length_toList_le
  cases e with
  | code seq pc word m => simp [TraceEvent.extend]
  | memaddr addr m => exact hupdate _
  | bpred correct => exact hupdate _

theorem length_build_le (l : List Inst) (events : List TraceEvent) :
    (build l events).length ≤ l.length + events.length := by
  induction events generalizing l with
  | nil => exact le_rfl
  | cons e events ih =>
    have h₁ := ih (e.extend l)
    have h₂ := length_extend_le e l
    rw [build, List.foldl_cons, List.length_cons]
    exact h₁.trans (by omega)

/-- **The round trip.** Reading a trace file call by call, into a buffer of any
positive capacity that is emptied between the calls, gives the records that the
logged pushes make: all of them, in order, with all their fields. -/
theorem seqMain_logFile (hcap : 0 < capacity) (seq pc word : UInt32) (m : CacheMissType)
    (events : List TraceEvent) {n : ℕ} (hn : events.length + 1 < n) :
    ∃ insts, records (.code seq pc word m :: events) = some insts ∧
      Reader.seqMain n ⟨logFile (.code seq pc word m :: events), none, ⟨[], capacity⟩⟩ =
        some insts := by
  have hlen := length_build_le [] (.code seq pc word m :: events)
  rw [List.length_nil, List.length_cons] at hlen
  refine ⟨_, records_eq seq pc word m events, ?_⟩
  exact seqMain_eq hcap none (.inr (.inr ⟨seq, pc, word, m, events, rfl⟩))
    (hlen.trans_lt (by omega))

/-- Two instructions, read into a buffer with room for one. -/
theorem seqMain_logFile_single :
    ∃ insts, records [.code 0 0x8000 0xE5912000 .l1Miss, .memaddr 0xFFFFFFFC .l2Miss,
        .code 1 0x8004 0x1AFFFFFE .l1Hit, .bpred false] = some insts ∧
      Reader.seqMain 5 ⟨logFile [.code 0 0x8000 0xE5912000 .l1Miss, .memaddr 0xFFFFFFFC .l2Miss,
        .code 1 0x8004 0x1AFFFFFE .l1Hit, .bpred false], none, ⟨[], 1⟩⟩ = some insts :=
  seqMain_logFile (by decide) 0 0x8000 0xE5912000 .l1Miss
    [.memaddr 0xFFFFFFFC .l2Miss, .code 1 0x8004 0x1AFFFFFE .l1Hit, .bpred false] (by decide)

end TraceFile

end Tqsim
