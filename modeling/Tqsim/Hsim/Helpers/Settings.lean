import Tqsim.Hsim.Model.Env

/-!
# What a line sets

The loops of `comm_read_env` cut a line in its buffer. What is read there
is the line's own text, cut at `=` and `:` as `List.splitOn` does: the key is
what comes before the first `=`, the value what comes after the last.
-/

open CBuffer Function

namespace Tqsim

namespace Hsim

variable {env : Env} {buf : Buffer} {line : List Char}

/-! ## On the text -/

/-- The text of a line, up to the character that ends it. -/
def lineText (line : List Char) : List Char :=
  line.takeWhile fun c => c != '\x00' && c != '\n'

/-- The key and the value of a line. -/
def setting (line : List Char) : Option (List Char × List Char) :=
  match (lineText line).splitOn '=' with
  | [] => none
  | key :: pieces => pieces.getLast?.map (key, ·)

/-- The number a field stands for. -/
def fieldVal (field : List Char) : UInt32 := (CText.atoi field).toUInt32

/-- A region from the text of its fields, of which there must be three. -/
def Env.addFields (env : Env) : List (List Char) → Option Env
  | [base, size, type] =>
    some { env with
      regions := env.regions ++ [⟨fieldVal base, fieldVal size, .ofCode (fieldVal type)⟩] }
  | _ => none

/-- A value for a key. -/
def Env.set (env : Env) (key value : List Char) : Option Env :=
  if key = "NoticePeriod".toList then
    some { env with commNoticePeriod := CText.atoi value }
  else if key = "Memorymap".toList then env.addFields (value.splitOn ':')
  else if key = "ProcessorId".toList then some { env with coreId := CText.atoi value }
  else some env

/-- What a line does. -/
def Env.apply (env : Env) (line : List Char) : Option Env :=
  match setting line with
  | none => some env
  | some (key, value) => env.set key value

theorem mem_lineText {c : Char} (hc : c ∈ lineText line) : c ≠ '\x00' ∧ c ≠ '\n' := by
  simpa using List.mem_takeWhile_imp hc

/-- With the null character `fgets` adds, some character ends every line. -/
theorem exists_stop (line : List Char) : ∃ (stop : Char) (rest : List Char),
    line ++ ['\x00'] = lineText line ++ [stop] ++ rest ∧ (stop = '\x00' ∨ stop = '\n') := by
  induction line with
  | nil => exact ⟨'\x00', [], rfl, .inl rfl⟩
  | cons c line ih =>
    unfold lineText
    by_cases hc : c = '\x00' ∨ c = '\n'
    · refine ⟨c, line ++ ['\x00'], ?_, hc⟩
      rw [List.takeWhile_cons_of_neg (by rcases hc with rfl | rfl <;> simp)]
      rfl
    · obtain ⟨stop, rest, heq, hstop⟩ := ih
      refine ⟨stop, rest, ?_, hstop⟩
      rw [List.takeWhile_cons_of_pos (by simpa [not_or] using hc), List.cons_append, heq]
      rfl

/-! ## In the buffer -/

theorem cutSetting_eq {n p : ℕ} {text : List Char} {stop : Char} {value : Option ℕ}
    (h : Holds buf p (text ++ [stop])) (htext : ∀ c ∈ text, c ≠ '\x00' ∧ c ≠ '\n')
    (hstop : stop = '\x00' ∨ stop = '\n') (hn : text.length < n) :
    cutSetting n p buf value =
      (write buf p (cutText '=' text), (marks '=' p text).getLast?.or value) := by
  obtain ⟨n, rfl⟩ := Nat.exists_eq_add_one_of_ne_zero (Nat.ne_zero_of_lt hn)
  induction text generalizing n p buf value with
  | nil =>
    rw [cutSetting, h.1, if_neg (by rcases hstop with rfl | rfl <;> decide), if_pos hstop]
    rfl
  | cons c text ih =>
    rw [List.length_cons, Nat.add_lt_add_iff_right] at hn
    obtain ⟨n, rfl⟩ := Nat.exists_eq_add_one_of_ne_zero (Nat.ne_zero_of_lt hn)
    obtain ⟨hc, h⟩ := h
    obtain ⟨hne, htext⟩ := List.forall_mem_cons.1 htext
    rw [cutSetting, hc, marks, cutText, List.map_cons, List.cons_append, cutChar]
    by_cases heq : c = '='
    · simp only [if_pos heq]
      rw [ih (h.update_of_lt (Nat.lt_succ_self p) _) htext n hn, write, List.getLast?_cons]
      cases (marks '=' (p + 1) text).getLast? <;> rfl
    · simp only [if_neg heq]
      rw [if_neg (not_or.2 hne), ih h htext n hn, write_cons_of_eq hc]
      rfl

theorem cutFields_eq {n p : ℕ} {value : List Char} {lpszData : List ℕ} (h : Spells buf p value)
    (hn : value.length < n) : cutFields n p buf lpszData =
      (write buf p (cutText ':' value), lpszData ++ marks ':' p value) := by
  obtain ⟨n, rfl⟩ := Nat.exists_eq_add_one_of_ne_zero (Nat.ne_zero_of_lt hn)
  obtain ⟨h, hnul⟩ := h
  induction value generalizing n p buf lpszData with
  | nil =>
    rw [cutFields, h.1, if_neg (by decide), if_pos rfl, marks, List.append_nil]
    exact congrArg (·, lpszData) (write_cons_of_eq h.1 []).symm
  | cons c value ih =>
    rw [List.length_cons, Nat.add_lt_add_iff_right] at hn
    obtain ⟨n, rfl⟩ := Nat.exists_eq_add_one_of_ne_zero (Nat.ne_zero_of_lt hn)
    obtain ⟨hc, h⟩ := h
    rw [List.mem_cons, not_or] at hnul
    rw [cutFields, hc, marks, cutText, List.map_cons, List.cons_append, cutChar]
    by_cases heq : c = ':'
    · simp only [if_pos heq]
      rw [ih n hn (h.update_of_lt (Nat.lt_succ_self p) _) hnul.2, write, List.append_assoc]
      rfl
    · simp only [if_neg heq]
      rw [if_neg (Ne.symm hnul.1), ih n hn h hnul.2, write_cons_of_eq hc]
      rfl

/-- The first byte of a line that was cut is a null character or the first
of the line. -/
theorem cutText_head (hhash : line.head? ≠ some '#') : ∃ (c : Char) (rest : List Char),
    cutText '=' (lineText line) = c :: rest ∧ c ≠ '#' := by
  cases h : lineText line with
  | nil => exact ⟨'\x00', [], rfl, by decide⟩
  | cons c text =>
    refine ⟨cutChar '=' c, cutText '=' text, rfl, ?_⟩
    have hfirst : line.head? = some c := by
      have := List.takeWhile_prefix (l := line) fun c => c != '\x00' && c != '\n'
      rw [← lineText, h] at this
      obtain ⟨rest, rfl⟩ := this
      rfl
    unfold cutChar
    split
    · decide
    · rintro rfl
      exact hhash hfirst

/-- A buffer that holds a line once it was cut: its first byte, and where its
key and its value are. -/
structure IsCut (line : List Char) (buf : Buffer) (value : Option ℕ) : Prop where
  head : line.head? ≠ .some '#' → buf 0 ≠ '#'
  none : setting line = .none → value = .none
  some : ∀ key text, setting line = .some (key, text) → stringAt lineSize buf 0 = key ∧
    ∃ p, value = .some p ∧ 0 < p ∧ Spells buf p text ∧ p + text.length < lineSize

/-- **What a line is cut into.** -/
theorem cutSetting_line (buf : Buffer) (hline : line.length < lineSize) :
    ∃ (buf' : Buffer) (value : Option ℕ),
      cutSetting lineSize 0 (fgetsBuffer buf line) none = (buf', value) ∧
      IsCut line buf' value := by
  obtain ⟨stop, rest, heq, hstop⟩ := exists_stop line
  have hholds : Holds (fgetsBuffer buf line) 0 (lineText line ++ [stop]) := by
    have := holds_write buf 0 (line ++ ['\x00'])
    nth_rewrite 2 [heq] at this
    exact this.of_append
  have hlen : (lineText line).length ≤ line.length := (List.takeWhile_sublist _).length_le
  have hcut := holds_write (fgetsBuffer buf line) 0 (cutText '=' (lineText line))
  refine ⟨_, _, cutSetting_eq hholds (fun c hc => mem_lineText hc) hstop (by omega), ?_⟩
  rw [Option.or_none]
  generalize write (fgetsBuffer buf line) 0 (cutText '=' (lineText line)) = buf' at hcut
  have hpieces := forall₂_marks (fun hmem => (mem_lineText hmem).1 rfl) hcut
  cases hsplit : (lineText line).splitOn '=' with
  | nil => exact absurd hsplit (List.splitOn_ne_nil '=' _)
  | cons key pieces =>
    rw [hsplit] at hpieces
    obtain ⟨⟨hkey, hkeyLen⟩, hpieces⟩ := List.forall₂_cons.1 hpieces
    have hsetting : setting line = pieces.getLast?.map (key, ·) := by rw [setting, hsplit]
    have hlast := rel_getLast_of_forall₂ hpieces
    have hpos : ∀ p ∈ (marks '=' 0 (lineText line)).getLast?, 0 < p := fun p hp =>
      lt_of_mem_marks (List.mem_of_mem_getLast? hp)
    generalize (marks '=' 0 (lineText line)).getLast? = value at hlast hpos
    refine ⟨fun hhash => ?_, fun hnone => ?_, fun key' text hsome => ?_⟩
    · obtain ⟨c, rest, hc, hne⟩ := cutText_head hhash
      rw [hc] at hcut
      rw [hcut.1]
      exact hne
    · rw [hsetting, Option.map_eq_none_iff] at hnone
      rw [hnone] at hlast
      cases hlast
      rfl
    · rw [hsetting, Option.map_eq_some_iff] at hsome
      obtain ⟨text', htext, heq⟩ := hsome
      cases heq
      rw [htext] at hlast
      cases hlast with
      | some h =>
        exact ⟨stringAt_of_spells hkey (by omega), _, rfl, hpos _ rfl, h.1, by omega⟩

/-! ## One turn -/

/-- What fields stand for in the buffer and as text. -/
theorem addRegion_eq {ps : List ℕ} {fields : List (List Char)}
    (h : List.Forall₂ (fun p field => stringAt lineSize buf p = field) ps fields) :
    env.addRegion buf ps = env.addFields fields := by
  cases h with
  | nil => rfl
  | cons hbase h =>
    cases h with
    | nil => rfl
    | cons hsize h =>
      cases h with
      | nil => rfl
      | cons htype h =>
        cases h with
        | nil => simp only [Env.addRegion, Env.addFields, arData, fieldVal, hbase, hsize, htype]
        | cons _ _ => rfl

/-- **The fields of a value**, in the buffer. -/
theorem regionFields_eq {p : ℕ} {value : List Char} (h : Spells buf p value)
    (hlen : p + value.length < lineSize) : ∃ (buf' : Buffer),
      regionFields buf p = (buf', p :: marks ':' p value) ∧ (∀ j < p, buf' j = buf j) ∧
      List.Forall₂ (fun q field => stringAt lineSize buf' q = field)
        (p :: marks ':' p value) (value.splitOn ':') := by
  refine ⟨_, cutFields_eq h (by omega), fun j hj => write_of_lt _ hj, ?_⟩
  refine (forall₂_marks h.2 (holds_write buf p _)).imp fun q field hfield => ?_
  exact stringAt_of_spells hfield.1 (by omega)

/-- **One turn does to the settings what the line says.** -/
theorem readLine_eq (env : Env) (buf : Buffer) (hline : line.length < lineSize) :
    ∃ (buf' : Buffer), (line.head? ≠ some '#' → buf' 0 ≠ '#') ∧
      env.readLine (fgetsBuffer buf line) = (env.apply line).map (buf', ·) := by
  obtain ⟨cut, value, heq, hcut⟩ := cutSetting_line buf hline
  unfold Env.readLine Env.apply
  rw [heq]
  cases hsetting : setting line with
  | none =>
    rw [hcut.none hsetting]
    exact ⟨cut, hcut.head, rfl⟩
  | some kv =>
    obtain ⟨key, text⟩ := kv
    obtain ⟨hkey, p, rfl, hpos, hspells, hlen⟩ := hcut.some key text hsetting
    simp only [hkey, stringAt_of_spells hspells hlen, Env.set]
    split
    · exact ⟨cut, hcut.head, rfl⟩
    split
    · obtain ⟨buf', hfields, hbefore, hpieces⟩ := regionFields_eq hspells hlen
      refine ⟨buf', ?_, ?_⟩
      · rw [hbefore 0 hpos]
        exact hcut.head
      · rw [hfields]
        simp only [addRegion_eq hpieces]
    split
    · exact ⟨cut, hcut.head, rfl⟩
    · exact ⟨cut, hcut.head, rfl⟩

end Hsim

end Tqsim
