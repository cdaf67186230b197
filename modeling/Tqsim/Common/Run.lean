import Mathlib.Tactic

/-!
# Runs of a partial step function

`iterate step n s` is the state after `n` steps from `s`, where a step may
fail. An invariant that every step keeps holds along every run, and where a
step cannot fail under the invariant, neither can a run. `play step as s` is
the same for steps that are chosen one by one: a schedule of the moves of
several parties, say, or a sequence of calls. `log call as s` keeps what each
call of a sequence answered.
-/

namespace Run

variable {σ : Type*} {step : σ → Option σ} {P : σ → Prop}

/-- `n` steps of a partial step function. -/
def iterate (step : σ → Option σ) : ℕ → σ → Option σ
  | 0, s => some s
  | n + 1, s => (step s).bind (iterate step n)

@[simp] theorem iterate_zero (s : σ) : iterate step 0 s = some s := rfl

theorem iterate_succ (n : ℕ) (s : σ) :
    iterate step (n + 1) s = (step s).bind (iterate step n) := rfl

/-- The last step of a run, rather than the first. -/
theorem iterate_succ_last (n : ℕ) (s : σ) :
    iterate step (n + 1) s = (iterate step n s).bind step := by
  induction n generalizing s with
  | zero => simp [iterate]
  | succ n ih =>
    rw [iterate_succ, iterate_succ]
    cases hs : step s with
    | none => rfl
    | some t => exact ih t

/-- A run that reaches a state went through a state one step before it. -/
theorem exists_of_iterate_succ {n : ℕ} {s t : σ} (h : iterate step (n + 1) s = some t) :
    ∃ u, iterate step n s = some u ∧ step u = some t := by
  rw [iterate_succ_last] at h
  exact Option.bind_eq_some_iff.1 h

/-- **An invariant holds along a run.** -/
theorem invariant (hstep : ∀ s t, P s → step s = some t → P t) {n : ℕ} {s t : σ} (hs : P s)
    (h : iterate step n s = some t) : P t := by
  induction n generalizing s with
  | zero => exact Option.some.inj h ▸ hs
  | succ n ih =>
    obtain ⟨u, hu, ht⟩ := Option.bind_eq_some_iff.1 h
    exact ih (hstep s u hs hu) ht

/-- **Where the invariant excludes failure, a run of any length exists.** -/
theorem total (hstep : ∀ s, P s → ∃ t, step s = some t ∧ P t) (n : ℕ) {s : σ} (hs : P s) :
    ∃ t, iterate step n s = some t ∧ P t := by
  induction n generalizing s with
  | zero => exact ⟨s, rfl, hs⟩
  | succ n ih =>
    obtain ⟨u, hu, hPu⟩ := hstep s hs
    obtain ⟨t, ht, hPt⟩ := ih hPu
    exact ⟨t, by rw [iterate_succ, hu]; exact ht, hPt⟩

/-! ## Chosen steps -/

section Play

variable {α : Type*} {move : σ → α → Option σ}

/-- The steps of a sequence of choices. -/
def play (move : σ → α → Option σ) : List α → σ → Option σ
  | [], s => some s
  | a :: as, s => (move s a).bind (play move as)

theorem play_append (as bs : List α) (s : σ) :
    play move (as ++ bs) s = (play move as s).bind (play move bs) := by
  induction as generalizing s with
  | nil => rfl
  | cons a as ih =>
    rw [List.cons_append, play, play]
    cases move s a with
    | none => rfl
    | some t => exact ih t

/-- One sequence after another. -/
theorem play_trans {as bs : List α} {s t u : σ} (hs : play move as s = some t)
    (ht : play move bs t = some u) : play move (as ++ bs) s = some u := by
  rw [play_append, hs]
  exact ht

/-- Every step that is taken meets a condition on the state before it. -/
def Every (move : σ → α → Option σ) (C : σ → α → Prop) : List α → σ → Prop
  | [], _ => True
  | a :: as, s => C s a ∧ match move s a with
    | some t => Every move C as t
    | none => True

instance Every.decidable {C : σ → α → Prop} [∀ s a, Decidable (C s a)] :
    ∀ as s, Decidable (Every move C as s)
  | [], _ => isTrue trivial
  | a :: as, s =>
    haveI : Decidable (match move s a with
        | some t => Every move C as t
        | none => True) :=
      match move s a with
      | some t => Every.decidable as t
      | none => isTrue trivial
    inferInstanceAs (Decidable (_ ∧ _))

/-- The condition, at each state that a part of the steps leads to. -/
theorem every_iff {C : σ → α → Prop} {as : List α} {s : σ} : Every move C as s ↔
    ∀ before a after t, as = before ++ a :: after → play move before s = some t → C t a := by
  induction as generalizing s with
  | nil => simp [Every]
  | cons a as ih =>
    constructor
    · rintro ⟨hC, htail⟩ before b after t heq hplay
      cases before with
      | nil =>
        obtain ⟨rfl, -⟩ := List.cons.inj heq
        exact Option.some.inj hplay ▸ hC
      | cons c before =>
        obtain ⟨rfl, hrest⟩ := List.cons.inj heq
        obtain ⟨u, hu, hplay⟩ := Option.bind_eq_some_iff.1 hplay
        rw [hu] at htail
        exact ih.1 htail before b after t hrest hplay
    · intro h
      refine ⟨h [] a as s rfl rfl, ?_⟩
      cases hu : move s a with
      | none => trivial
      | some u =>
        refine ih.2 fun before b after t heq hplay => ?_
        exact h (a :: before) b after t (by rw [heq]; rfl) (by rw [play, hu]; exact hplay)

/-- **An invariant of the steps that meet a condition** holds along every
sequence of such steps. -/
theorem Every.invariant {C : σ → α → Prop} {as : List α}
    (hstep : ∀ s, ∀ a ∈ as, ∀ t, P s → C s a → move s a = some t → P t) {s t : σ}
    (hC : Every move C as s) (hs : P s) (h : play move as s = some t) : P t := by
  induction as generalizing s with
  | nil => exact Option.some.inj h ▸ hs
  | cons a as ih =>
    obtain ⟨u, hu, ht⟩ := Option.bind_eq_some_iff.1 h
    obtain ⟨hCa, hrest⟩ := hC
    rw [hu] at hrest
    refine ih (fun s b hb => hstep s b (List.mem_cons_of_mem a hb)) hrest ?_ ht
    exact hstep s a List.mem_cons_self u hs hCa hu

theorem every_true (as : List α) (s : σ) : Every move (fun _ _ => True) as s := by
  induction as generalizing s with
  | nil => trivial
  | cons a as ih =>
    refine ⟨trivial, ?_⟩
    split
    · exact ih _
    · trivial

/-- **An invariant holds along the steps of every sequence.** -/
theorem play_invariant (hstep : ∀ s a t, P s → move s a = some t → P t) {as : List α} {s t : σ}
    (hs : P s) (h : play move as s = some t) : P t :=
  (every_true as s).invariant (fun s a _ t hP _ => hstep s a t hP) hs h

/-- **A simulation.** Where every step of an abstract machine is matched, the
steps of every sequence exist, and the states they reach are related. -/
theorem play_simulates {τ : Type*} {R : σ → τ → Prop} {f : τ → α → τ}
    (hstep : ∀ s t a, R s t → ∃ s', move s a = some s' ∧ R s' (f t a)) (as : List α) {s : σ} {t : τ}
    (h : R s t) : ∃ s', play move as s = some s' ∧ R s' (as.foldl f t) := by
  induction as generalizing s t with
  | nil => exact ⟨s, rfl, h⟩
  | cons a as ih =>
    obtain ⟨u, hu, hR⟩ := hstep s t a h
    obtain ⟨s', hs', hR'⟩ := ih hR
    exact ⟨s', by rw [play, hu]; exact hs', hR'⟩

/-- **Where an invariant excludes failure, every sequence is played.** -/
theorem play_total (hstep : ∀ s a, P s → ∃ t, move s a = some t ∧ P t) (as : List α) {s : σ}
    (hs : P s) : ∃ t, play move as s = some t ∧ P t :=
  play_simulates (R := fun s (_ : Unit) => P s) (f := fun t _ => t) (t := ())
    (fun s _ a h => hstep s a h) as hs

/-- What the steps of a sequence add up to. -/
def tally (move : σ → α → Option σ) (f : σ → α → ℕ) : List α → σ → ℕ
  | [], _ => 0
  | a :: as, s => f s a + (move s a).elim 0 (tally move f as)

/-- Nothing adds up just when no step that is taken adds anything. -/
theorem tally_eq_zero_iff {f : σ → α → ℕ} {as : List α} {s : σ} :
    tally move f as s = 0 ↔
      ∀ before a after t, as = before ++ a :: after → play move before s = some t → f t a = 0 := by
  rw [← every_iff]
  induction as generalizing s with
  | nil => exact iff_of_true rfl trivial
  | cons a as ih =>
    rw [tally, Nat.add_eq_zero_iff, Every]
    refine and_congr_right fun _ => ?_
    cases move s a with
    | none => exact iff_of_true rfl trivial
    | some u => exact ih

end Play

/-! ## Calls that answer -/

section Log

variable {α β : Type*} {call : σ → α → Option (β × σ)}

/-- The calls of a sequence, each with its answer, and the state they lead
to. -/
def log (call : σ → α → Option (β × σ)) : List α → σ → Option (List (α × β) × σ)
  | [], s => some ([], s)
  | a :: as, s => (call s a).bind fun (b, t) =>
    (log call as t).map fun (l, u) => ((a, b) :: l, u)

/-- A log that begins with a call begins with its answer. -/
theorem log_cons_eq_some {a : α} {as : List α} {s u : σ} {l : List (α × β)}
    (h : log call (a :: as) s = some (l, u)) :
    ∃ b t l', call s a = some (b, t) ∧ log call as t = some (l', u) ∧ l = (a, b) :: l' := by
  obtain ⟨⟨b, t⟩, hcall, h⟩ := Option.bind_eq_some_iff.1 h
  obtain ⟨⟨l', u'⟩, hlog, heq⟩ := Option.map_eq_some_iff.1 h
  obtain ⟨rfl, rfl⟩ := Prod.mk.inj heq
  exact ⟨b, t, l', hcall, hlog, rfl⟩

/-- A log lists the calls that were made. -/
theorem log_fst {as : List α} {s t : σ} {l : List (α × β)} (h : log call as s = some (l, t)) :
    l.map Prod.fst = as := by
  induction as generalizing s l with
  | nil =>
    obtain ⟨rfl, -⟩ := Prod.mk.inj (Option.some.inj h)
    rfl
  | cons a as ih =>
    obtain ⟨b, u, l', -, hlog, rfl⟩ := log_cons_eq_some h
    rw [List.map_cons, ih hlog]

/-- **An invariant of the log and the state** that every call keeps holds after
every sequence of calls. -/
theorem log_invariant {P : List (α × β) → σ → Prop}
    (hstep : ∀ l s a b t, P l s → call s a = some (b, t) → P (l ++ [(a, b)]) t)
    {as : List α} {s t : σ} {l l' : List (α × β)} (hs : P l s)
    (h : log call as s = some (l', t)) : P (l ++ l') t := by
  induction as generalizing s l l' with
  | nil =>
    obtain ⟨rfl, rfl⟩ := Prod.mk.inj (Option.some.inj h)
    rwa [List.append_nil]
  | cons a as ih =>
    obtain ⟨b, u, l'', hcall, hlog, rfl⟩ := log_cons_eq_some h
    have hu := ih (hstep l s a b u hs hcall) hlog
    rwa [List.append_assoc] at hu

/-- **Where an invariant excludes failure, every call is answered.** -/
theorem log_total (hstep : ∀ s a, P s → ∃ b t, call s a = some (b, t) ∧ P t) (as : List α) {s : σ}
    (hs : P s) : ∃ l t, log call as s = some (l, t) ∧ P t := by
  induction as generalizing s with
  | nil => exact ⟨[], s, rfl, hs⟩
  | cons a as ih =>
    obtain ⟨b, u, hcall, hu⟩ := hstep s a hs
    obtain ⟨l, t, hlog, ht⟩ := ih hu
    exact ⟨(a, b) :: l, t, by simp [log, hcall, hlog], ht⟩

/-- **A simulation, with answers.** Where every call of an abstract machine is
matched with the same answer, so is every sequence of calls. -/
theorem log_simulates {τ : Type*} {R : σ → τ → Prop} {call' : τ → α → Option (β × τ)}
    (hstep : ∀ s t a b t', R s t → call' t a = some (b, t') →
      ∃ s', call s a = some (b, s') ∧ R s' t')
    {as : List α} {s : σ} {t t' : τ} {l : List (α × β)} (h : R s t)
    (hlog : log call' as t = some (l, t')) : ∃ s', log call as s = some (l, s') ∧ R s' t' := by
  induction as generalizing s t l with
  | nil =>
    obtain ⟨rfl, rfl⟩ := Prod.mk.inj (Option.some.inj hlog)
    exact ⟨s, rfl, h⟩
  | cons a as ih =>
    obtain ⟨b, u, l', hcall, hrest, rfl⟩ := log_cons_eq_some hlog
    obtain ⟨v, hv, hR⟩ := hstep s t a b u h hcall
    obtain ⟨s', hs', hR'⟩ := ih hR hrest
    exact ⟨s', by simp [log, hv, hs'], hR'⟩

end Log

end Run
