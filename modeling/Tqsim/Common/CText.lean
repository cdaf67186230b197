import Mathlib.Tactic
import Mathlib.Data.List.TakeWhile
import Mathlib.Data.Nat.Digits.Lemmas

/-!
# Text in C

The functions of the C library that write and read lines of numbers:
`printf`'s `%X` and `%d` of a number that is not negative, `strtoul`, `atoi`,
`strtok` and `fgets`. A string is the list of its characters, and a file
open for reading what is left of it.
-/

namespace CText

/-! ## Numbers -/

/-- A digit, as `%X` writes it. -/
def digitChar (d : ℕ) : Char := if d < 10 then Char.ofNat (48 + d) else Char.ofNat (55 + d)

/-- `%X` in base 16, `%d` in base 10. -/
def numeral (base n : ℕ) : List Char :=
  if n = 0 then ['0'] else ((Nat.digits base n).map digitChar).reverse

/-- The value of a letter or digit. -/
def digitVal (c : Char) : Option ℕ :=
  if '0' ≤ c ∧ c ≤ '9' then some (c.toNat - 48)
  else if 'A' ≤ c ∧ c ≤ 'Z' then some (c.toNat - 55)
  else if 'a' ≤ c ∧ c ≤ 'z' then some (c.toNat - 87)
  else none

/-- A digit of a base. -/
def isDigit (base : ℕ) (c : Char) : Bool := (digitVal c).any (· < base)

/-- The number that digits stand for. -/
def value (base : ℕ) (s : List Char) : ℕ :=
  s.foldl (fun n c => base * n + (digitVal c).getD 0) 0

/-- `isspace`. -/
def isspace (c : Char) : Bool := c ∈ [' ', '\t', '\n', '\x0b', '\x0c', '\r']

/-- A sign, and what follows it. -/
def sign : List Char → Bool × List Char
  | '-' :: s => (true, s)
  | '+' :: s => (false, s)
  | s => (false, s)

/-- In base 16 a number may start with `0x`. -/
def skipMark (base : ℕ) : List Char → List Char
  | '0' :: x :: c :: s =>
    if base = 16 ∧ (x = 'x' ∨ x = 'X') ∧ isDigit 16 c then c :: s else '0' :: x :: c :: s
  | s => s

/-- `strtoul`, with an `unsigned long` of 64 bits. -/
def strtoul (base : ℕ) (s : List Char) : UInt64 :=
  let (negative, s) := sign (s.dropWhile isspace)
  let n := value base ((skipMark base s).takeWhile (isDigit base))
  if n < 2 ^ 64 then if negative then -UInt64.ofNat n else UInt64.ofNat n else -1

/-- `strtol`, with a `long` of 64 bits. -/
def strtol (base : ℕ) (s : List Char) : Int64 :=
  let (negative, s) := sign (s.dropWhile isspace)
  let n := value base ((skipMark base s).takeWhile (isDigit base))
  if negative then if n ≤ 2 ^ 63 then -Int64.ofNat n else Int64.minValue
  else if n < 2 ^ 63 then Int64.ofNat n else Int64.maxValue

/-- `atoi`: the lower half of what `strtol` reads. -/
def atoi (s : List Char) : Int32 := (strtol 10 s).toInt32

theorem digitVal_digitChar {d : ℕ} (hd : d < 16) : digitVal (digitChar d) = some d := by
  interval_cases d <;> rfl

theorem isDigit_digitChar {base d : ℕ} (hbase : base ≤ 16) (hd : d < base) :
    isDigit base (digitChar d) = true := by
  rw [isDigit, digitVal_digitChar (hd.trans_le hbase)]
  simpa using hd

theorem isDigit_of_mem_numeral {base n : ℕ} (hbase : 2 ≤ base) (hbase' : base ≤ 16) {c : Char}
    (hc : c ∈ numeral base n) : isDigit base c = true := by
  unfold numeral at hc
  split at hc
  · rw [List.mem_singleton.1 hc]
    exact isDigit_digitChar (d := 0) hbase' (by omega)
  · obtain ⟨d, hd, rfl⟩ := List.mem_map.1 (List.mem_reverse.1 hc)
    exact isDigit_digitChar hbase' (Nat.digits_lt_base hbase hd)

theorem numeral_ne_nil (base n : ℕ) : numeral base n ≠ [] := by
  unfold numeral
  split
  · simp
  next hn =>
    intro hnil
    exact hn (Nat.digits_eq_nil_iff_eq_zero.1 (List.map_eq_nil_iff.1 (List.reverse_eq_nil_iff.1
      hnil)))

/-- Digits, the lowest first. -/
theorem value_digits (base : ℕ) {L : List ℕ} (hL : ∀ d ∈ L, d < 16) :
    value base (L.map digitChar).reverse = Nat.ofDigits base L := by
  rw [value, List.foldl_reverse]
  induction L with
  | nil => rfl
  | cons d L ih =>
    rw [List.map_cons, List.foldr_cons, ih fun e he => hL e (List.mem_cons_of_mem d he),
      digitVal_digitChar (hL d List.mem_cons_self), Nat.ofDigits_cons, Option.getD_some]
    omega

theorem value_numeral {base : ℕ} (hbase : 2 ≤ base) (hbase' : base ≤ 16) (n : ℕ) :
    value base (numeral base n) = n := by
  unfold numeral
  split
  next hn => rw [hn]; rfl
  · rw [value_digits base fun d hd => (Nat.digits_lt_base hbase hd).trans_le hbase',
      Nat.ofDigits_digits]

theorem length_numeral_le {base n k : ℕ} (hbase : 2 ≤ base) (hk : 1 ≤ k) (hn : n < base ^ k) :
    (numeral base n).length ≤ k := by
  unfold numeral
  split
  · exact hk
  · rw [List.length_reverse, List.length_map]
    exact (Nat.digits_length_le_iff hbase n).2 hn

/-- A character that no number goes on with. -/
def Ends (s : List Char) : Prop := ∀ c ∈ s.head?, digitVal c = none

theorem isDigit_eq_false {c : Char} (h : digitVal c = none) (base : ℕ) :
    isDigit base c = false := by
  rw [isDigit, h]
  rfl

theorem notMem_numeral {base : ℕ} (hbase : 2 ≤ base) (hbase' : base ≤ 16) (n : ℕ) {c : Char}
    (hc : digitVal c = none) : c ∉ numeral base n := fun hmem => by
  have := isDigit_of_mem_numeral hbase hbase' hmem
  rw [isDigit_eq_false hc] at this
  cases this

theorem takeWhile_numeral {base n : ℕ} (hbase : 2 ≤ base) (hbase' : base ≤ 16) {rest : List Char}
    (hrest : Ends rest) :
    (numeral base n ++ rest).takeWhile (isDigit base) = numeral base n := by
  rw [List.takeWhile_append_of_pos fun c hc => isDigit_of_mem_numeral hbase hbase' hc]
  cases rest with
  | nil => simp
  | cons c rest => simp [isDigit_eq_false (hrest c rfl)]

/-- A digit is no blank and no sign, and does not mark the base. -/
theorem digitVal_eq_none_of_isspace {c : Char} (h : isspace c = true) : digitVal c = none := by
  simp only [isspace, List.mem_cons, List.not_mem_nil, or_false, decide_eq_true_eq] at h
  rcases h with rfl | rfl | rfl | rfl | rfl | rfl <;> rfl

theorem skipMark_numeral {base n : ℕ} (hbase : 2 ≤ base) (hbase' : base ≤ 16) {rest : List Char}
    (hrest : Ends rest) : skipMark base (numeral base n ++ rest) = numeral base n ++ rest := by
  have hdigit : ∀ c ∈ numeral base n, isDigit base c = true := fun c hc =>
    isDigit_of_mem_numeral hbase hbase' hc
  have hnil := numeral_ne_nil base n
  generalize numeral base n = l at hdigit hnil
  unfold skipMark
  split
  next x c s heq =>
    rw [heq]
    refine if_neg ?_
    rintro ⟨-, hx, -⟩
    -- the second character is a digit, or comes after the number
    obtain ⟨a, l, rfl⟩ := List.exists_cons_of_ne_nil hnil
    obtain ⟨-, heq⟩ := List.cons.inj heq
    cases l with
    | nil =>
      have := hrest x (by rw [show rest = x :: c :: s from heq]; rfl)
      rcases hx with rfl | rfl <;> cases this
    | cons b l =>
      obtain ⟨rfl, -⟩ := List.cons.inj heq
      have hb := hdigit b (by simp)
      rcases hx with rfl | rfl <;> simp [isDigit, digitVal] at hb <;> omega
  next => rfl

theorem digitVal_ne_none {base : ℕ} {c : Char} (h : isDigit base c = true) :
    digitVal c ≠ none := fun hnone => by simp [isDigit_eq_false hnone] at h

theorem dropWhile_isspace_of_digit {c : Char} (hc : digitVal c ≠ none) (s : List Char) :
    (c :: s).dropWhile isspace = c :: s :=
  List.dropWhile_cons_of_neg fun h => hc (digitVal_eq_none_of_isspace h)

theorem sign_of_digit {c : Char} (hc : digitVal c ≠ none) (s : List Char) :
    sign (c :: s) = (false, c :: s) := by
  unfold sign
  split
  next heq => exact absurd (List.cons.inj heq).1 fun h => hc (by rw [h]; rfl)
  next heq => exact absurd (List.cons.inj heq).1 fun h => hc (by rw [h]; rfl)
  next => rfl

/-- **What `printf` writes, `strtoul` reads.** -/
theorem strtoul_numeral {base n : ℕ} (hbase : 2 ≤ base) (hbase' : base ≤ 16) (hn : n < 2 ^ 64)
    {rest : List Char} (hrest : Ends rest) :
    strtoul base (numeral base n ++ rest) = UInt64.ofNat n := by
  obtain ⟨c, l, hcl⟩ := List.exists_cons_of_ne_nil (numeral_ne_nil base n)
  have hc : digitVal c ≠ none :=
    digitVal_ne_none (isDigit_of_mem_numeral hbase hbase' (n := n) (by simp [hcl]))
  have hdrop : (numeral base n ++ rest).dropWhile isspace = numeral base n ++ rest := by
    rw [hcl, List.cons_append, dropWhile_isspace_of_digit hc]
  have hsign : sign (numeral base n ++ rest) = (false, numeral base n ++ rest) := by
    rw [hcl, List.cons_append, sign_of_digit hc]
  simp only [strtoul, hdrop, hsign, skipMark_numeral hbase hbase' hrest,
    takeWhile_numeral hbase hbase' hrest, value_numeral hbase hbase' n, hn, if_true,
    Bool.false_eq_true, if_false]

/-- Only base 16 is marked. -/
theorem skipMark_of_ne {base : ℕ} (hbase : base ≠ 16) (s : List Char) : skipMark base s = s := by
  unfold skipMark
  split
  · exact if_neg fun h => hbase h.1
  · rfl

/-- **`atoi` reads decimal digits.** -/
theorem atoi_digits {s : List Char} (hne : s ≠ []) (hs : ∀ c ∈ s, isDigit 10 c = true)
    (hlt : value 10 s < 2 ^ 63) : atoi s = Int32.ofNat (value 10 s) := by
  obtain ⟨c, t, rfl⟩ := List.exists_cons_of_ne_nil hne
  have hc := digitVal_ne_none (hs c List.mem_cons_self)
  have hstrtol : strtol 10 (c :: t) = Int64.ofNat (value 10 (c :: t)) := by
    simp only [strtol, dropWhile_isspace_of_digit hc, sign_of_digit hc,
      skipMark_of_ne (show 10 ≠ 16 by decide), List.takeWhile_eq_self_iff.2 hs, hlt, if_true,
      Bool.false_eq_true, if_false]
  rw [atoi, hstrtol, Int64.toInt32_ofNat']

/-! ## Words and lines -/

/-- `strtok` with one delimiter: the next word, and what is left for the next
call. -/
def strtok (delim : Char) (s : List Char) : Option (List Char × List Char) :=
  match s.dropWhile (· == delim) with
  | [] => none
  | c :: t => some ((c :: t).takeWhile (· != delim), ((c :: t).dropWhile (· != delim)).tail)

/-- A word at the front. -/
theorem strtok_append {delim : Char} {word : List Char} (hne : word ≠ []) (hword : delim ∉ word)
    (rest : List Char) : strtok delim (word ++ delim :: rest) = some (word, rest) := by
  obtain ⟨c, t, rfl⟩ := List.exists_cons_of_ne_nil hne
  have hc : c ≠ delim := fun h => hword (by simp [h])
  have hall : ∀ d ∈ c :: t, (d != delim) = true := fun d hd =>
    bne_iff_ne.2 fun h => hword (h ▸ hd)
  have hdrop : (c :: t ++ delim :: rest).dropWhile (· == delim) = c :: (t ++ delim :: rest) := by
    rw [List.cons_append, List.dropWhile_cons_of_neg (by simpa using hc)]
  rw [strtok, hdrop]
  simp only [← List.cons_append]
  rw [List.takeWhile_append_of_pos hall, List.dropWhile_append_of_pos hall]
  simp

/-- The last word. -/
theorem strtok_last {delim : Char} {word : List Char} (hne : word ≠ []) (hword : delim ∉ word) :
    strtok delim word = some (word, []) := by
  obtain ⟨c, t, rfl⟩ := List.exists_cons_of_ne_nil hne
  have hc : c ≠ delim := fun h => hword (by simp [h])
  have hall : ∀ d ∈ c :: t, (d != delim) = true := fun d hd =>
    bne_iff_ne.2 fun h => hword (h ▸ hd)
  rw [strtok, List.dropWhile_cons_of_neg (by simpa using hc)]
  simp only
  rw [List.takeWhile_eq_self_iff.2 hall, List.dropWhile_eq_nil_iff.2 hall, List.tail_nil]

/-- The characters of a line, with the one that ends it, but no more than
`n`. -/
def readLine : ℕ → List Char → List Char × List Char
  | 0, s => ([], s)
  | _ + 1, [] => ([], [])
  | n + 1, c :: s =>
    if c = '\n' then ([c], s) else ((c :: (readLine n s).1), (readLine n s).2)

/-- `fgets` into `size` bytes: the line, and what is left of the file. -/
def fgets (size : ℕ) (file : List Char) : Option (List Char × List Char) :=
  if file = [] then none else some (readLine (size - 1) file)

theorem readLine_cons (n : ℕ) (c : Char) (s : List Char) : readLine (n + 1) (c :: s) =
    if c = '\n' then ([c], s) else (c :: (readLine n s).1, (readLine n s).2) := rfl

/-- A line that fits. -/
theorem fgets_append {size : ℕ} {line : List Char} (hline : '\n' ∉ line)
    (hsize : line.length + 1 < size) (rest : List Char) :
    fgets size (line ++ '\n' :: rest) = some (line ++ ['\n'], rest) := by
  have hread : ∀ n, line.length + 1 ≤ n →
      readLine n (line ++ '\n' :: rest) = (line ++ ['\n'], rest) := by
    clear hsize
    induction line with
    | nil =>
      rintro (_ | n) hn
      · omega
      · rfl
    | cons c line ih =>
      rintro (_ | n) hn
      · omega
      · have hc : c ≠ '\n' := fun h => hline (by simp [h])
        rw [List.length_cons] at hn
        rw [List.cons_append, readLine_cons, if_neg hc,
          ih (fun h => hline (List.mem_cons_of_mem c h)) n (by omega)]
        rfl
  rw [fgets, if_neg (by simp), hread (size - 1) (by omega)]

theorem readLine_append : ∀ (n : ℕ) (s : List Char), (readLine n s).1 ++ (readLine n s).2 = s
  | 0, _ => rfl
  | _ + 1, [] => rfl
  | n + 1, c :: s => by
    rw [readLine_cons]
    split
    · rfl
    · rw [List.cons_append, readLine_append n s]

theorem length_readLine_le : ∀ (n : ℕ) (s : List Char), (readLine n s).1.length ≤ n
  | 0, _ => le_rfl
  | _ + 1, [] => Nat.zero_le _
  | n + 1, c :: s => by
    rw [readLine_cons]
    split
    · exact Nat.le_add_left 1 n
    · exact Nat.succ_le_succ (length_readLine_le n s)

theorem readLine_ne_nil (n : ℕ) {s : List Char} (hs : s ≠ []) : (readLine (n + 1) s).1 ≠ [] := by
  obtain ⟨c, t, rfl⟩ := List.exists_cons_of_ne_nil hs
  rw [readLine_cons]
  split <;> exact List.cons_ne_nil _ _

/-- A line is not empty and fits, and with what is left it is the file. -/
theorem fgets_eq_some {size : ℕ} (hsize : 2 ≤ size) {file line rest : List Char}
    (h : fgets size file = some (line, rest)) :
    line ≠ [] ∧ line.length < size ∧ line ++ rest = file := by
  obtain ⟨n, rfl⟩ := Nat.exists_eq_add_of_le' hsize
  unfold fgets at h
  split at h
  · cases h
  next hne =>
    obtain ⟨rfl, rfl⟩ := Prod.mk.inj (Option.some.inj h)
    exact ⟨readLine_ne_nil n hne, Nat.lt_succ_of_le (length_readLine_le _ _), readLine_append _ _⟩

/-- The lines of a file, as `fgets` reads them one after the other; `n` of
them at most. -/
def linesUpTo (size : ℕ) : ℕ → List Char → List (List Char)
  | 0, _ => []
  | n + 1, file =>
    match fgets size file with
    | none => []
    | some (line, rest) => line :: linesUpTo size n rest

/-- All lines of a file, of which there are no more than characters. -/
def lines (size : ℕ) (file : List Char) : List (List Char) := linesUpTo size file.length file

theorem linesUpTo_of_le {size : ℕ} (hsize : 2 ≤ size) : ∀ (n m : ℕ) (file : List Char),
    file.length ≤ n → file.length ≤ m → linesUpTo size n file = linesUpTo size m file
  | 0, m, file, hn, _ => by
    rw [List.length_eq_zero_iff.1 (Nat.le_zero.1 hn)]
    cases m <;> rfl
  | n + 1, 0, file, _, hm => by
    rw [List.length_eq_zero_iff.1 (Nat.le_zero.1 hm)]
    rfl
  | n + 1, m + 1, file, hn, hm => by
    rw [linesUpTo, linesUpTo]
    cases h : fgets size file with
    | none => rfl
    | some read =>
      obtain ⟨line, rest⟩ := read
      obtain ⟨hne, -, rfl⟩ := fgets_eq_some hsize h
      have := List.length_pos_of_ne_nil hne
      rw [List.length_append] at hn hm
      simp only
      rw [linesUpTo_of_le hsize n m rest (by omega) (by omega)]

theorem lines_of_fgets {size : ℕ} (hsize : 2 ≤ size) {file line rest : List Char}
    (h : fgets size file = some (line, rest)) : lines size file = line :: lines size rest := by
  obtain ⟨hne, -, rfl⟩ := fgets_eq_some hsize h
  obtain ⟨c, l, rfl⟩ := List.exists_cons_of_ne_nil hne
  rw [lines, lines, List.cons_append, List.length_cons, linesUpTo, ← List.cons_append, h]
  simp only
  rw [linesUpTo_of_le hsize _ rest.length rest (by simp) le_rfl]

theorem eq_nil_of_lines_eq_nil {size : ℕ} (hsize : 2 ≤ size) {file : List Char}
    (h : lines size file = []) : file = [] := by
  by_contra hne
  rw [lines_of_fgets hsize (if_neg hne)] at h
  cases h

theorem exists_of_lines_eq_cons {size : ℕ} (hsize : 2 ≤ size) {file line : List Char}
    {ls : List (List Char)} (h : lines size file = line :: ls) :
    ∃ rest, fgets size file = some (line, rest) ∧ lines size rest = ls := by
  have hne : file ≠ [] := by
    rintro rfl
    cases h
  have hread : fgets size file = some (readLine (size - 1) file) := if_neg hne
  rw [lines_of_fgets hsize hread] at h
  obtain ⟨rfl, rfl⟩ := List.cons.inj h
  exact ⟨_, hread, rfl⟩

end CText
