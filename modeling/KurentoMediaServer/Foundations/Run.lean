import Mathlib.Data.List.Induction

/-! Labelled step relations and their finite runs, with the labels in order.
An invariant is proved once for a step and then holds along every run; the
variant with a guard is for systems that keep their invariant only while every
step meets a side condition. `Since` speaks about the labels alone: something
happened and nothing of another kind has happened after it. -/

namespace KurentoMediaServer.Foundations

variable {σ ε : Type*}

/-- Finite runs of a step relation. The last step stands at the end. -/
inductive Run (step : σ → ε → σ → Prop) : σ → List ε → σ → Prop
  | nil (s : σ) : Run step s [] s
  | snoc {s t u : σ} {es : List ε} {e : ε} :
      Run step s es t → step t e u → Run step s (es ++ [e]) u

/-- A step taken from a state where its guard holds. -/
def Guarded (guard : σ → ε → Prop) (step : σ → ε → σ → Prop) (s : σ) (e : ε) (t : σ) : Prop :=
  guard s e ∧ step s e t

namespace Run

variable {step step' : σ → ε → σ → Prop}

theorem single {s t : σ} {e : ε} (h : step s e t) : Run step s [e] t := (nil s).snoc h

theorem append {s t u : σ} {es fs : List ε} (h : Run step s es t) (g : Run step t fs u) :
    Run step s (es ++ fs) u := by
  induction g with
  | nil => simpa using h
  | snoc _ hstep ih =>
    rw [← List.append_assoc]
    exact ih.snoc hstep

/-- A run over a list ending in `e` ends with an `e` step. -/
theorem of_snoc {s u : σ} {es : List ε} {e : ε} (h : Run step s (es ++ [e]) u) :
    ∃ t, Run step s es t ∧ step t e u := by
  generalize hl : es ++ [e] = l at h
  cases h with
  | nil => simp at hl
  | @snoc t _ fs f hr hs =>
    obtain ⟨rfl, h2⟩ := List.append_inj' hl rfl
    obtain rfl : e = f := by simpa using h2
    exact ⟨t, hr, hs⟩

/-- A run can be cut at any point of its label list. -/
theorem split {s u : σ} {es fs : List ε} (h : Run step s (es ++ fs) u) :
    ∃ t, Run step s es t ∧ Run step t fs u := by
  induction fs using List.reverseRecOn generalizing u with
  | nil => exact ⟨u, by simpa using h, nil u⟩
  | append_singleton fs f ih =>
    rw [← List.append_assoc] at h
    obtain ⟨v, hv, hf⟩ := h.of_snoc
    obtain ⟨t, h1, h2⟩ := ih hv
    exact ⟨t, h1, h2.snoc hf⟩

theorem mono (hs : ∀ s e t, step s e t → step' s e t) {s t : σ} {es : List ε}
    (h : Run step s es t) : Run step' s es t := by
  induction h with
  | nil => exact nil _
  | snoc _ hstep ih => exact ih.snoc (hs _ _ _ hstep)

/-- An invariant every step keeps holds at the end of every run. -/
theorem invariant {motive : σ → Prop} (hstep : ∀ s e t, motive s → step s e t → motive t)
    {s t : σ} {es : List ε} (h : Run step s es t) (hs : motive s) : motive t := by
  induction h with
  | nil => exact hs
  | snoc _ hst ih => exact hstep _ _ _ ih hst

/-- The same for a property of the state together with the labels so far. -/
theorem history_invariant {motive : List ε → σ → Prop}
    (hstep : ∀ es s e t, motive es s → step s e t → motive (es ++ [e]) t)
    {s t : σ} {es : List ε} (h : Run step s es t) (hs : motive [] s) : motive es t := by
  induction h with
  | nil => exact hs
  | snoc _ hst ih => exact hstep _ _ _ _ ih hst

/-- A run maps to a run of another system when its steps do, wherever an invariant
holds. -/
theorem simulate {τ : Type*} {step' : τ → ε → τ → Prop} {inv : σ → Prop} {f : σ → τ}
    (hinv : ∀ s e t, inv s → step s e t → inv t)
    (hstep : ∀ s e t, inv s → step s e t → step' (f s) e (f t)) {s t : σ} {es : List ε}
    (h : Run step s es t) (hs : inv s) : Run step' (f s) es (f t) := by
  induction h with
  | nil => exact nil _
  | snoc hr hst ih => exact ih.snoc (hstep _ _ _ (hr.invariant hinv hs) hst)

/-- Every step is matched by a run over the labels `f` gives for it, along a relation of
the states. -/
theorem simulates {τ δ : Type*} {step' : τ → δ → τ → Prop} {R : σ → τ → Prop} (f : ε → List δ)
    (hstep : ∀ s e t s', R s s' → step s e t → ∃ t', Run step' s' (f e) t' ∧ R t t') {s t : σ}
    {es : List ε} (h : Run step s es t) {s' : τ} (hs : R s s') :
    ∃ t', Run step' s' (es.flatMap f) t' ∧ R t t' := by
  induction h with
  | nil => exact ⟨s', nil s', hs⟩
  | snoc _ hst ih =>
    obtain ⟨u', hu, hR⟩ := ih
    obtain ⟨t', ht, hRt⟩ := hstep _ _ _ _ hR hst
    rw [List.flatMap_append, List.flatMap_singleton]
    exact ⟨t', hu.append ht, hRt⟩

/-- The run of a step function that returns. -/
theorem of_foldlM {f : σ → ε → Option σ} {s t : σ} {es : List ε} (h : es.foldlM f s = some t) :
    Run (fun s e t => f s e = some t) s es t := by
  induction es using List.reverseRecOn generalizing t with
  | nil =>
    obtain rfl : s = t := by simpa using h
    exact nil s
  | append_singleton es e ih =>
    rw [List.foldlM_append, Option.bind_eq_bind, Option.bind_eq_some_iff] at h
    obtain ⟨u, hu, hlast⟩ := h
    exact (ih hu).snoc (by simpa using hlast)

/-- The same with a guard that is checked before each step. -/
theorem of_foldlM_guarded {guard : σ → ε → Prop} [∀ s e, Decidable (guard s e)]
    {f : σ → ε → Option σ} {s t : σ} {es : List ε}
    (h : es.foldlM (fun s e => if guard s e then f s e else none) s = some t) :
    Run (Guarded guard fun s e t => f s e = some t) s es t :=
  (of_foldlM h).mono fun s e t hst => by
    split_ifs at hst with hg
    exact ⟨hg, hst⟩

/-- Dropping the guard of a guarded run. -/
theorem unguarded {guard : σ → ε → Prop} {s t : σ} {es : List ε}
    (h : Run (Guarded guard step) s es t) : Run step s es t :=
  h.mono fun _ _ _ hg => hg.2

end Run

/-! ### Histories -/

/-- Some event satisfies `p` and none after it satisfies `q`. -/
def Since (p q : ε → Prop) (es : List ε) : Prop :=
  ∃ pre e post, es = pre ++ e :: post ∧ p e ∧ ∀ f ∈ post, ¬ q f

theorem not_since_nil (p q : ε → Prop) : ¬ Since p q [] := by
  rintro ⟨pre, e, post, h, -⟩
  simp at h

theorem since_snoc {p q : ε → Prop} (es : List ε) (e : ε) :
    Since p q (es ++ [e]) ↔ p e ∨ (Since p q es ∧ ¬ q e) := by
  constructor
  · rintro ⟨pre, f, post, h, hf, hpost⟩
    rcases List.eq_nil_or_concat post with rfl | ⟨post', g, rfl⟩
    · obtain ⟨-, h2⟩ := List.append_inj' h rfl
      obtain rfl : e = f := by simpa using h2
      exact Or.inl hf
    · rw [List.concat_eq_append, ← List.cons_append, ← List.append_assoc] at h
      obtain ⟨h1, h2⟩ := List.append_inj' h rfl
      obtain rfl : e = g := by simpa using h2
      exact Or.inr ⟨⟨pre, f, post', h1, hf, fun g hg => hpost g (by simp [hg])⟩, hpost e (by simp)⟩
  · rintro (hp | ⟨⟨pre, f, post, rfl, hf, hpost⟩, he⟩)
    · exact ⟨es, e, [], rfl, hp, by simp⟩
    · refine ⟨pre, f, post ++ [e], by simp, hf, fun g hg => ?_⟩
      rcases List.mem_append.mp hg with h | h
      · exact hpost g h
      · rw [List.mem_singleton] at h; subst h; exact he

end KurentoMediaServer.Foundations
