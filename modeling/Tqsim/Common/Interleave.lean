import Tqsim.Common.Run

/-!
# A party that works in the background

Two parties move on one state: one by choices, and the other, the worker, by
steps of its own. A sequence of moves has the choices of the first party, in
their order, with moves of the worker in between (`isWork`). Where a choice
and a step of the worker that are both possible can be made in either order,
with the same result, it does not matter when the worker moves: what a
sequence of moves leads to depends on the choices and on the number of the
worker's steps, and a sequence that has made fewer of both can make the
rest.
-/

namespace Interleave

open Run (play iterate)

variable {σ α : Type*} {move : σ → α → Option σ} {isWork : α → Bool} {P : σ → Prop}

/-- The choices of the first party among the moves. -/
def choices (isWork : α → Bool) (moves : List α) : List α := moves.filter (!isWork ·)

@[simp] theorem choices_cons_work {a : α} {moves : List α} (ha : isWork a = true) :
    choices isWork (a :: moves) = choices isWork moves := by
  simp [choices, ha]

@[simp] theorem choices_cons_choice {a : α} {moves : List α} (ha : isWork a = false) :
    choices isWork (a :: moves) = a :: choices isWork moves := by
  simp [choices, ha]

/-- **The two parties do not disturb each other**, in the states of interest. -/
structure Independent (move : σ → α → Option σ) (isWork : α → Bool) (work : σ → Option σ)
    (P : σ → Prop) : Prop where
  /-- What the worker's moves are. -/
  move_work : ∀ s a, isWork a = true → move s a = work s
  /-- The states of interest are closed under all moves. -/
  closed : ∀ s a t, P s → move s a = some t → P t
  /-- A choice and a step of the worker, in either order. -/
  commute : ∀ s a t u, P s → isWork a = false → move s a = some t → work s = some u →
    ∃ v, work t = some v ∧ move u a = some v

namespace Independent

variable {work : σ → Option σ} {s t u : σ} {a : α} {x y : List α}

/-- A step of the worker comes first. -/
theorem work_first (h : Independent move isWork work P) (hs : P s) (hx : play move x s = some t)
    (hu : work s = some u) (hcount : 0 < x.countP isWork) :
    ∃ x', play move x' u = some t ∧ choices isWork x' = choices isWork x ∧
      x'.countP isWork + 1 = x.countP isWork := by
  induction x generalizing s u with
  | nil => simp at hcount
  | cons a x ih =>
    obtain ⟨v, hv, hx⟩ := Option.bind_eq_some_iff.1 hx
    cases ha : isWork a with
    | true =>
      rw [h.move_work s a ha, hu] at hv
      obtain rfl := Option.some.inj hv
      exact ⟨x, hx, by simp [ha], by simp [ha]⟩
    | false =>
      obtain ⟨w, hw, huw⟩ := h.commute s a v u hs ha hv hu
      obtain ⟨x', hx', hsame, hlen⟩ := ih (h.closed s a v hs hv) hx hw (by simpa [ha] using hcount)
      exact ⟨a :: x', by rw [play, huw]; exact hx', by simp [ha, hsame], by simpa [ha] using hlen⟩

/-- A step of the worker comes last, where it makes no other. -/
theorem work_last (h : Independent move isWork work P) (hs : P s) (hx : play move x s = some t)
    (hu : work s = some u) (hcount : x.countP isWork = 0) :
    ∃ v, work t = some v ∧ play move x u = some v := by
  induction x generalizing s u with
  | nil => exact ⟨u, Option.some.inj hx ▸ hu, rfl⟩
  | cons a x ih =>
    obtain ⟨v, hv, hx⟩ := Option.bind_eq_some_iff.1 hx
    have ha : isWork a = false := by
      by_contra hne
      rw [Bool.not_eq_false] at hne
      simp [hne] at hcount
    obtain ⟨w, hw, huw⟩ := h.commute s a v u hs ha hv hu
    obtain ⟨z, hz, hplay⟩ := ih (h.closed s a v hs hv) hx hw (by simpa [ha] using hcount)
    exact ⟨z, hz, by rw [play, huw]; exact hplay⟩

/-- The first choice comes before the steps of the worker. -/
theorem choice_first (h : Independent move isWork work P) (hs : P s) (hx : play move x s = some t)
    (ha : isWork a = false) (hu : move s a = some u) {rest : List α}
    (hfirst : choices isWork x = a :: rest) :
    ∃ x', play move x' u = some t ∧ choices isWork x' = rest ∧
      x'.countP isWork = x.countP isWork := by
  induction x generalizing s u with
  | nil => simp [choices] at hfirst
  | cons b x ih =>
    obtain ⟨v, hv, hx⟩ := Option.bind_eq_some_iff.1 hx
    cases hb : isWork b with
    | true =>
      have hwork := h.move_work s b hb ▸ hv
      obtain ⟨w, hw, hvw⟩ := h.commute s a u v hs ha hu hwork
      rw [choices_cons_work hb] at hfirst
      obtain ⟨x', hx', hsame, hlen⟩ := ih (h.closed s b v hs hv) hx hvw hfirst
      refine ⟨b :: x', ?_, by simp [hb, hsame], by simp [hb, hlen]⟩
      rw [play, h.move_work u b hb, hw]
      exact hx'
    | false =>
      rw [choices_cons_choice hb] at hfirst
      obtain ⟨rfl, hrest⟩ := List.cons.inj hfirst
      rw [hv] at hu
      obtain rfl := Option.some.inj hu
      exact ⟨x, hx, hrest, by simp [hb]⟩

/-- **The order of the moves does not matter.** A sequence `y` that has made
some of the choices of `x` is continued with the others, and the two meet
where the worker has made its steps of both. -/
theorem merge (h : Independent move isWork work P) (hs : P s) (hx : play move x s = some t)
    (hy : play move y s = some u) {rest : List α}
    (hsame : choices isWork x = choices isWork y ++ rest) :
    ∃ z n v, play move z u = some v ∧ iterate work n t = some v ∧ choices isWork z = rest ∧
      x.countP isWork + n = y.countP isWork + z.countP isWork := by
  -- along `y`; what is left of `x` is rearranged to begin alike
  induction y generalizing s x t with
  | nil =>
    obtain rfl := Option.some.inj hy
    exact ⟨x, 0, t, hx, rfl, hsame, by simp⟩
  | cons b y ih =>
    obtain ⟨r, hr, hy⟩ := Option.bind_eq_some_iff.1 hy
    have hPr := h.closed s b r hs hr
    cases hb : isWork b with
    | true =>
      have hwork := h.move_work s b hb ▸ hr
      rw [choices_cons_work hb] at hsame
      rw [List.countP_cons_of_pos hb]
      rcases Nat.eq_zero_or_pos (x.countP isWork) with hzero | hpos
      · obtain ⟨w, hw, hxw⟩ := h.work_last hs hx hwork hzero
        obtain ⟨z, n, v, hz, hn, hrest, hcount⟩ := ih hPr hxw hy hsame
        refine ⟨z, n + 1, v, hz, ?_, hrest, by omega⟩
        rw [Run.iterate_succ, hw]
        exact hn
      · obtain ⟨x', hx', hsame', hlen⟩ := h.work_first hs hx hwork hpos
        obtain ⟨z, n, v, hz, hn, hrest, hcount⟩ := ih hPr hx' hy (hsame'.trans hsame)
        exact ⟨z, n, v, hz, hn, hrest, by omega⟩
    | false =>
      rw [choices_cons_choice hb, List.cons_append] at hsame
      obtain ⟨x', hx', hsame', hlen⟩ := h.choice_first hs hx hb hr hsame
      obtain ⟨z, n, v, hz, hn, hrest, hcount⟩ := ih hPr hx' hy hsame'
      refine ⟨z, n, v, hz, hn, hrest, ?_⟩
      rw [List.countP_cons_of_neg (by simp [hb])]
      omega

/-- Without a choice the worker works alone. -/
theorem iterate_of_choices_nil (h : Independent move isWork work P) (hx : play move x s = some t)
    (hnone : choices isWork x = []) : iterate work x.length s = some t := by
  induction x generalizing s with
  | nil => exact hx
  | cons a x ih =>
    obtain ⟨v, hv, hx⟩ := Option.bind_eq_some_iff.1 hx
    cases ha : isWork a with
    | true =>
      rw [choices_cons_work ha] at hnone
      rw [List.length_cons, Run.iterate_succ, ← h.move_work s a ha, hv]
      exact ih hx hnone
    | false => simp [ha] at hnone

/-- Two sequences with the same choices meet. -/
theorem meet (h : Independent move isWork work P) (hs : P s) (hx : play move x s = some t)
    (hy : play move y s = some u) (hsame : choices isWork x = choices isWork y) :
    ∃ m n v, iterate work m t = some v ∧ iterate work n u = some v := by
  obtain ⟨z, n, v, hz, hn, hnone, -⟩ :=
    h.merge hs hx hy (hsame.trans (List.append_nil _).symm)
  exact ⟨n, z.length, v, hn, h.iterate_of_choices_nil hz hnone⟩

/-- **What the worker does not touch** is a function of the choices. -/
theorem view_eq (h : Independent move isWork work P) {β : Type*} {view : σ → β}
    (hview : ∀ s t, work s = some t → view t = view s) (hs : P s) (hx : play move x s = some t)
    (hy : play move y s = some u) (hsame : choices isWork x = choices isWork y) :
    view t = view u := by
  have hkeep : ∀ n s t, iterate work n s = some t → view t = view s := fun n s t hn =>
    Run.invariant (P := fun w => view w = view s) (fun a b ha hb => (hview a b hb).trans ha) rfl hn
  obtain ⟨m, n, v, ht, hu⟩ := h.meet hs hx hy hsame
  exact (hkeep m t v ht).symm.trans (hkeep n u v hu)

/-! ## A first party without a choice -/

/-- The choices, where there is only one. -/
theorem choices_eq_replicate (hone : ∀ b, isWork b = false → b = a) (moves : List α) :
    choices isWork moves = List.replicate (choices isWork moves).length a := by
  refine List.eq_replicate_iff.2 ⟨rfl, fun b hb => hone b ?_⟩
  simpa using (List.mem_filter.1 hb).2

/-- One of two sequences of a single choice continues the other. -/
theorem choices_le (hone : ∀ b, isWork b = false → b = a)
    (hle : (choices isWork y).length ≤ (choices isWork x).length) :
    choices isWork x = choices isWork y ++
      List.replicate ((choices isWork x).length - (choices isWork y).length) a := by
  rw [choices_eq_replicate hone x, choices_eq_replicate hone y, List.replicate_append_replicate]
  simp only [List.length_replicate]
  rw [Nat.add_sub_cancel' hle]

end Independent

end Interleave
