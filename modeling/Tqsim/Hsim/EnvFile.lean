import Tqsim.Common.Run
import Tqsim.Hsim.Helpers.Settings

/-!
# Reading the environment file

A line that sets a region has to hold three fields: for each `:` in its
value a pointer is stored, into an array of three, and three are converted.
With two of them the region is the one the line gives.

The loop over the file ends when `fgets` finds no line, but before that it
looks at the first byte of the buffer, which is then still the last line's:
a file whose last line is a comment is read forever.
-/

open CBuffer Function

namespace Tqsim

namespace Hsim

/-! ## Regions -/

/-- The pointers that are stored for the fields of a line, if it has a
value. -/
def lpszData (buf : Buffer) : Option (List ℕ) :=
  match cutSetting lineSize 0 buf none with
  | (_, none) => none
  | (buf, some value) => some (regionFields buf value).2

/-- No pointer is stored past the end of the array, and those that are
converted were stored. -/
def FieldsAssigned (buf : Buffer) : Prop :=
  ∃ ps, lpszData buf = some ps ∧ ps.length ≤ 3 ∧ ∀ i < 3, i < ps.length

/-- A decimal number, as text. -/
def IsDecimal (s : List Char) : Prop := s ≠ [] ∧ ∀ c ∈ s, CText.isDigit 10 c = true

theorem MemoryType.code_ofCode (code : UInt32) : (MemoryType.ofCode code).code = code := by
  unfold MemoryType.ofCode
  split_ifs <;> simp_all [MemoryType.code]

theorem IsDecimal.colon_notMem {s : List Char} (hs : IsDecimal s) : ':' ∉ s := fun hmem =>
  absurd (hs.2 ':' hmem) (by decide)

theorem IsDecimal.toNat_fieldVal {s : List Char} (hs : IsDecimal s)
    (hlt : CText.value 10 s < 2 ^ 31) : (fieldVal s).toNat = CText.value 10 s := by
  rw [fieldVal, CText.atoi_digits hs.1 hs.2 (hlt.trans (by decide)), Int32.toUInt32_ofNat',
    UInt32.toNat_ofNat', Nat.mod_eq_of_lt (hlt.trans (by decide))]

theorem length_lpszData (stack : Buffer) {line key text : List Char}
    (hline : line.length < lineSize) (hset : setting line = some (key, text)) :
    ∃ ps, lpszData (fgetsBuffer stack line) = some ps ∧ ps.length = text.count ':' + 1 := by
  obtain ⟨cut, value, heq, hcut⟩ := cutSetting_line stack hline
  obtain ⟨-, p, rfl, -, hspells, hlen⟩ := hcut.some key text hset
  obtain ⟨buf', hfields, -, hpieces⟩ := regionFields_eq hspells hlen
  refine ⟨p :: marks ':' p text, ?_, ?_⟩
  · simp only [lpszData, heq, hfields]
  · rw [hpieces.length_eq, length_splitOn]

/-- **Two colons, three fields.** -/
theorem fieldsAssigned_iff (env : Env) (stack : Buffer) (line text : List Char)
    (hline : line.length < lineSize) (hset : setting line = some ("Memorymap".toList, text)) :
    (FieldsAssigned (fgetsBuffer stack line) ↔ text.count ':' = 2) ∧
    ∀ base size type, IsDecimal base → IsDecimal size → IsDecimal type →
      CText.value 10 base < 2 ^ 31 → CText.value 10 size < 2 ^ 31 →
      CText.value 10 type < 2 ^ 31 → text = base ++ ':' :: (size ++ ':' :: type) →
      ∃ (buf' : Buffer) (r : MemRegion),
        env.readLine (fgetsBuffer stack line) =
          some (buf', { env with regions := env.regions ++ [r] }) ∧
        r.base.toNat = CText.value 10 base ∧ r.size.toNat = CText.value 10 size ∧
        r.type.code.toNat = CText.value 10 type := by
  constructor
  · obtain ⟨ps, hps, hlen⟩ := length_lpszData stack hline hset
    constructor
    · rintro ⟨ps', hps', hle, hall⟩
      cases hps.symm.trans hps'
      have := hall 2 (by omega)
      omega
    · intro hcount
      exact ⟨ps, hps, by omega, fun i hi => by omega⟩
  · intro base size type hbase hsize htype hbaseLt hsizeLt htypeLt htext
    obtain ⟨buf', -, heq⟩ := readLine_eq env stack hline
    have hsplit : text.splitOn ':' = [base, size, type] := by
      rw [htext, List.splitOn_append_cons_self_of_not_mem hbase.colon_notMem,
        List.splitOn_append_cons_self_of_not_mem hsize.colon_notMem,
        List.splitOn_eq_singleton htype.colon_notMem]
    have happly : env.apply line = env.addFields [base, size, type] := by
      rw [Env.apply, hset, ← hsplit]
      rfl
    refine ⟨buf', ⟨fieldVal base, fieldVal size, .ofCode (fieldVal type)⟩, ?_,
      hbase.toNat_fieldVal hbaseLt, hsize.toNat_fieldVal hsizeLt, ?_⟩
    · rw [heq, happly]
      rfl
    · rw [MemoryType.code_ofCode]
      exact htype.toNat_fieldVal htypeLt

theorem fieldsAssigned_sample :
    FieldsAssigned (fgetsBuffer (fun _ => '\x00') "Memorymap=4096:256:3\n".toList) :=
  (fieldsAssigned_iff ⟨0, 0, []⟩ _ _ "4096:256:3".toList (by decide) (by decide)).1.2 (by decide)

theorem lpszData_few :
    lpszData (fgetsBuffer (fun _ => '\x00') "Memorymap=1:2\n".toList) = some [10, 12] := by
  decide

theorem lpszData_many :
    lpszData (fgetsBuffer (fun _ => '\x00') "Memorymap=1:2:3:4\n".toList) =
      some [10, 12, 14, 16] := by
  decide

/-- With one colon a pointer is read that was never stored; with three, a
fourth pointer is stored. -/
theorem not_fieldsAssigned_few_many :
    ¬ FieldsAssigned (fgetsBuffer (fun _ => '\x00') "Memorymap=1:2\n".toList) ∧
    ¬ FieldsAssigned (fgetsBuffer (fun _ => '\x00') "Memorymap=1:2:3:4\n".toList) := by
  constructor
  · rintro ⟨ps, hps, -, hall⟩
    cases lpszData_few.symm.trans hps
    exact absurd (hall 2 (by decide)) (by decide)
  · rintro ⟨ps, hps, hle, -⟩
    cases lpszData_many.symm.trans hps
    exact absurd hle (by decide)

/-! ## The loop -/

/-- The first character of the last line, or of what the buffer held if there
is none. -/
def lastHead (c : Char) (lines : List (List Char)) : Char :=
  lines.getLast?.elim c fun line => line.headD '\x00'

/-- A line sets a region only with three fields. -/
def RegionInThree (line : List Char) : Prop :=
  ∀ text, setting line = some ("Memorymap".toList, text) → text.count ':' = 2

/-- The lines that are not comments. -/
def settingLines (lines : List (List Char)) : List (List Char) :=
  lines.filter fun line => line.head? != some '#'

theorem lastHead_cons (c : Char) (line : List Char) (lines : List (List Char)) :
    lastHead c (line :: lines) = lastHead (line.headD '\x00') lines := by
  rw [lastHead, lastHead, List.getLast?_cons]
  cases lines.getLast? <;> rfl

theorem lastHead_ne_iff {c c' : Char} (hc : c ≠ '#') (hc' : c' ≠ '#') (lines : List (List Char)) :
    lastHead c lines ≠ '#' ↔ lastHead c' lines ≠ '#' := by
  unfold lastHead
  cases lines.getLast? with
  | none => exact iff_of_true hc hc'
  | some line => exact Iff.rfl

theorem fgetsBuffer_zero (buf : Buffer) (c : Char) (line : List Char) :
    fgetsBuffer buf (c :: line) 0 = c :=
  And.left (holds_write buf 0 (c :: (line ++ ['\x00'])))

/-- A turn at the end of the file. -/
theorem readEnvLoop_nil (buf : Buffer) (env : Env) (n : ℕ) : readEnvLoop (n + 1) buf [] env =
    if buf 0 = '#' then readEnvLoop n buf [] env else some (some env) := rfl

/-- A turn with a line. -/
theorem readEnvLoop_of_fgets {line rest file : List Char} (n : ℕ) (buf : Buffer)
    (hread : CText.fgets lineSize file = some (line, rest)) (env : Env) :
    readEnvLoop (n + 1) buf file env =
      if fgetsBuffer buf line 0 = '#' then readEnvLoop n (fgetsBuffer buf line) rest env
      else (env.readLine (fgetsBuffer buf line)).elim (some none)
        fun read => readEnvLoop n read.1 rest read.2 := by
  rw [readEnvLoop, hread]
  dsimp only
  cases env.readLine (fgetsBuffer buf line) <;> rfl

/-- **At the end of the file a `#` in the buffer stays.** -/
theorem readEnvLoop_of_hash {buf : Buffer} (h : buf 0 = '#') (env : Env) (n : ℕ) :
    readEnvLoop n buf [] env = none := by
  induction n with
  | zero => rfl
  | succ n ih => rw [readEnvLoop_nil, if_pos h, ih]

theorem readEnvLoop_of_eof {buf : Buffer} (h : buf 0 ≠ '#') (env : Env) (n : ℕ) :
    readEnvLoop (n + 1) buf [] env = some (some env) := by
  rw [readEnvLoop_nil, if_neg h]

/-- A line that is a comment. -/
theorem readEnvLoop_of_comment {c : Char} {line rest file : List Char} (n : ℕ) (buf : Buffer)
    (hread : CText.fgets lineSize file = some (c :: line, rest)) (hc : c = '#') (env : Env) :
    readEnvLoop (n + 1) buf file env =
      readEnvLoop n (fgetsBuffer buf (c :: line)) rest env := by
  rw [readEnvLoop_of_fgets n buf hread, fgetsBuffer_zero, if_pos hc]

/-- A line that is not: it takes effect, or has no meaning. -/
theorem readEnvLoop_of_setting {c : Char} {line rest file : List Char} (buf : Buffer)
    (hread : CText.fgets lineSize file = some (c :: line, rest)) (hc : c ≠ '#') (env : Env) :
    ∃ (buf' : Buffer), buf' 0 ≠ '#' ∧ ∀ n, readEnvLoop (n + 1) buf file env =
      (env.apply (c :: line)).elim (some none) (readEnvLoop n buf' rest) := by
  obtain ⟨-, hlen, -⟩ := CText.fgets_eq_some (by decide) hread
  obtain ⟨buf', hhead, heq⟩ := readLine_eq env buf hlen
  refine ⟨buf', hhead fun h => hc (Option.some.inj h), fun n => ?_⟩
  rw [readEnvLoop_of_fgets n buf hread, fgetsBuffer_zero, if_neg hc, heq]
  cases env.apply (c :: line) <;> rfl

/-- No turn is the last but the one that returns. -/
theorem exists_readEnvLoop_iff {buf : Buffer} {file : List Char} {env env' : Env} :
    (∃ n, readEnvLoop n buf file env = some (some env')) ↔
      ∃ n, readEnvLoop (n + 1) buf file env = some (some env') := by
  constructor
  · rintro ⟨_ | n, hn⟩
    · cases hn
    · exact ⟨n, hn⟩
  · rintro ⟨n, hn⟩
    exact ⟨n + 1, hn⟩

/-- **What the loop returns, and when.** Every line that is no comment has
taken effect, in order. -/
theorem readEnvLoop_iff {lines : List (List Char)} (buf : Buffer) {file : List Char}
    (hfile : CText.lines lineSize file = lines) (env env' : Env) :
    (∃ n, readEnvLoop n buf file env = some (some env')) ↔ lastHead (buf 0) lines ≠ '#' ∧
      Run.play Env.apply (settingLines lines) env = some env' := by
  induction lines generalizing buf file env with
  | nil =>
    rw [CText.eq_nil_of_lines_eq_nil (by decide) hfile]
    by_cases hhash : buf 0 = '#'
    · refine iff_of_false ?_ fun h => h.1 hhash
      rintro ⟨n, hn⟩
      rw [readEnvLoop_of_hash hhash] at hn
      cases hn
    · simp only [exists_readEnvLoop_iff, readEnvLoop_of_eof hhash, exists_const]
      exact ⟨fun h => ⟨hhash, Option.some.inj h⟩, fun h => congrArg some h.2⟩
  | cons line lines ih =>
    obtain ⟨rest, hread, hrest⟩ := CText.exists_of_lines_eq_cons (by decide) hfile
    obtain ⟨hne, -, -⟩ := CText.fgets_eq_some (by decide) hread
    obtain ⟨c, line, rfl⟩ := List.exists_cons_of_ne_nil hne
    rw [exists_readEnvLoop_iff, lastHead_cons, settingLines, List.filter_cons]
    by_cases hc : c = '#'
    · -- the comment is in the buffer now, and nothing else has changed
      simp only [readEnvLoop_of_comment _ _ hread hc]
      rw [ih _ hrest, fgetsBuffer_zero, if_neg (by simpa using hc)]
      rfl
    · obtain ⟨buf', hhead, hturn⟩ := readEnvLoop_of_setting buf hread hc env
      simp only [hturn]
      rw [if_pos (by simpa using hc), Run.play]
      cases env.apply (c :: line) with
      | none => simp
      | some env₁ =>
        rw [List.headD_cons, lastHead_ne_iff hc hhead]
        exact ih buf' hrest env₁

theorem exists_addFields_iff (env : Env) (fields : List (List Char)) :
    (∃ env', env.addFields fields = some env') ↔ fields.length = 3 := by
  rcases fields with _ | ⟨base, _ | ⟨size, _ | ⟨type, _ | ⟨more, rest⟩⟩⟩⟩ <;> simp [Env.addFields]

/-- A line has a meaning exactly when it sets no region, or one in three
fields. -/
theorem exists_apply_iff (env : Env) (line : List Char) :
    (∃ env', env.apply line = some env') ↔ RegionInThree line := by
  unfold Env.apply RegionInThree
  cases setting line with
  | none => simp
  | some kv =>
    obtain ⟨key, text⟩ := kv
    by_cases hkey : key = "Memorymap".toList
    · subst hkey
      have hset : env.set "Memorymap".toList text = env.addFields (text.splitOn ':') := rfl
      simp only [hset, exists_addFields_iff, length_splitOn]
      constructor
      · rintro h text' heq
        cases heq
        omega
      · intro h
        rw [h text rfl]
    · refine iff_of_true ?_ fun text' heq => absurd (congrArg Prod.fst (Option.some.inj heq)) hkey
      simp only [Env.set, if_neg hkey]
      split_ifs
      all_goals exact ⟨_, rfl⟩

theorem exists_play_iff (env : Env) (lines : List (List Char)) :
    (∃ env', Run.play Env.apply lines env = some env') ↔ ∀ line ∈ lines, RegionInThree line := by
  induction lines generalizing env with
  | nil => simp [Run.play]
  | cons line lines ih =>
    rw [List.forall_mem_cons, ← exists_apply_iff env line, Run.play]
    cases env.apply line with
    | none => simp
    | some env₁ => simpa using ih env₁

/-- **The loop ends exactly when the last line is no comment**, and no line
that it cuts has lost its meaning. -/
theorem commReadEnv_exits_iff (stack : Buffer) (file : List Char) (env : Env) :
    (∃ n env', commReadEnv n stack (some file) env = some (some env')) ↔
      lastHead (stack 0) (CText.lines lineSize file) ≠ '#' ∧
      ∀ line ∈ CText.lines lineSize file, line.head? ≠ some '#' → RegionInThree line := by
  have hall : (∀ line ∈ CText.lines lineSize file, line.head? ≠ some '#' → RegionInThree line) ↔
      ∀ line ∈ settingLines (CText.lines lineSize file), RegionInThree line := by
    simp [settingLines]
  rw [hall, ← exists_play_iff env, exists_comm]
  simp only [commReadEnv, readEnvLoop_iff stack rfl]
  exact exists_and_left

/-- A comment and nothing else: no number of turns is enough. -/
theorem not_exits_comment :
    ¬ ∃ n result, commReadEnv n (fun _ => '\x00') (some "# end\n".toList) ⟨0, 0, []⟩ =
      some result := by
  have hread : CText.fgets lineSize "# end\n".toList = some ('#' :: " end\n".toList, []) := by
    decide
  rintro ⟨_ | n, result, hn⟩
  · cases hn
  · rw [commReadEnv, readEnvLoop_of_comment n _ hread rfl,
      readEnvLoop_of_hash (fgetsBuffer_zero _ _ _)] at hn
    cases hn

end Hsim

end Tqsim
