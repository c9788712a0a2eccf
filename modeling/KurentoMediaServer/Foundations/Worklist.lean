import KurentoMediaServer.Foundations.Run

/-! A system with a list of work. Some steps put a batch at its end, others take the
element at its head, and the rest leave it alone. Then what a run takes, followed by what
it leaves, is what was there before it followed by its batches in order. A step may also
use up a bound: then a run has at most so many of these steps. -/

namespace KurentoMediaServer.Foundations

variable {σ ε α : Type*}

/-- `batch` and `taken` say what a step puts in and what it takes out. -/
structure Worklist (step : σ → ε → σ → Prop) (pending : σ → List α) (batch : ε → List α)
    (taken : ε → Option α) : Prop where
  step : ∀ s e t, step s e t → (taken e).toList ++ pending t = pending s ++ batch e

namespace Worklist

variable {step : σ → ε → σ → Prop} {pending : σ → List α} {batch : ε → List α}
  {taken : ε → Option α} {s t : σ} {es : List ε}

/-- The work is done in the order it comes in, and nothing is lost. -/
theorem run (w : Worklist step pending batch taken) (h : Run step s es t) :
    es.filterMap taken ++ pending t = pending s ++ es.flatMap batch := by
  induction h with
  | nil => simp
  | @snoc t u es e _ hstep ih =>
    have h1 : [e].filterMap taken = (taken e).toList := by
      cases h : taken e <;> simp [h]
    rw [List.filterMap_append, h1, List.append_assoc, w.step _ _ _ hstep, ← List.append_assoc, ih,
      List.append_assoc, List.flatMap_append, List.flatMap_singleton]

theorem count_taken [DecidableEq α] (w : Worklist step pending batch taken) (h : Run step s es t)
    (a : α) : (es.filterMap taken).count a + (pending t).count a =
      (pending s).count a + (es.flatMap batch).count a := by
  rw [← List.count_append, w.run h, List.count_append]

end Worklist

/-! ### Steps that use up a bound -/

section Bound
variable {step : σ → ε → σ → Prop} {inv : σ → Prop} {counts : ε → Bool} (bound : σ → ℕ)
  {s t : σ} {es : List ε}

/-- Each step that counts takes one from a bound, and no other step changes it. -/
theorem Run.countP_add (hinv : ∀ s e t, inv s → step s e t → inv t)
    (hstep : ∀ s e t, inv s → step s e t → bound s = bound t + if counts e then 1 else 0)
    (h : Run step s es t) (hs : inv s) : bound s = bound t + es.countP counts := by
  induction h with
  | nil => simp
  | snoc hr hlast ih =>
    rw [ih, hstep _ _ _ (hr.invariant hinv hs) hlast, List.countP_append, List.countP_singleton]
    omega

/-- The same where a step may take more from the bound than it has to. -/
theorem Run.countP_le (hinv : ∀ s e t, inv s → step s e t → inv t)
    (hstep : ∀ s e t, inv s → step s e t → (bound t + if counts e then 1 else 0) ≤ bound s)
    (h : Run step s es t) (hs : inv s) : bound t + es.countP counts ≤ bound s := by
  induction h with
  | nil => simp
  | snoc hr hlast ih =>
    have := hstep _ _ _ (hr.invariant hinv hs) hlast
    rw [List.countP_append, List.countP_singleton]
    omega

/-- While the bound is not used up there is a step that counts; then such steps use it up. -/
theorem Run.exists_used_up (hinv : ∀ s e t, inv s → step s e t → inv t)
    (hstep : ∀ s e t, inv s → step s e t → (bound t + if counts e then 1 else 0) ≤ bound s)
    (hnext : ∀ s, inv s → 0 < bound s → ∃ e t, counts e = true ∧ step s e t) (s : σ) (hs : inv s) :
    ∃ es t, Run step s es t ∧ (∀ e ∈ es, counts e = true) ∧ bound t = 0 := by
  induction hn : bound s using Nat.strongRecOn generalizing s with
  | _ n ih =>
    by_cases hz : bound s = 0
    · exact ⟨[], s, .nil s, by simp, hz⟩
    · obtain ⟨e, t, he, hst⟩ := hnext s hs (Nat.pos_of_ne_zero hz)
      have hbound := hstep s e t hs hst
      rw [if_pos he] at hbound
      obtain ⟨es, u, hr, hes, hu⟩ := ih (bound t) (by omega) t (hinv s e t hs hst) rfl
      exact ⟨[e] ++ es, u, (Run.single hst).append hr, by simpa [he] using hes, hu⟩

end Bound

end KurentoMediaServer.Foundations
