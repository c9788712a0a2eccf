import Mathlib.Data.Nat.Notation

/-! Computations on a state that may throw and may draw numbers from a supply that
never runs out. The state and the supply survive an exception. `Ensures n m Q` says
that, started with the supply at `n`, the computation never gives numbers back and
that a value it returns satisfies `Q` together with where the supply then is. -/

namespace KurentoMediaServer.Foundations

/-- A computation over states `σ` with exceptions `ε`. -/
def Supply (ε σ α : Type) := σ → ℕ → Except ε α × σ × ℕ

namespace Supply

variable {ε σ α β : Type}

instance : Monad (Supply ε σ) where
  pure a := fun st n => (.ok a, st, n)
  bind m f := fun st n => match m st n with
    | (.ok a, st, n) => f a st n
    | (.error e, st, n) => (.error e, st, n)

instance : MonadExceptOf ε (Supply ε σ) where
  throw e := fun st n => (.error e, st, n)
  tryCatch m h := fun st n => match m st n with
    | (.ok a, st, n) => (.ok a, st, n)
    | (.error e, st, n) => h e st n

instance : MonadLift (Except ε) (Supply ε σ) where
  monadLift x := fun st n => (x, st, n)

/-- The next number. -/
def draw : Supply ε σ ℕ := fun st n => (.ok n, st, n + 1)

/-- A computation that draws nothing. -/
def onState (f : σ → Except ε α × σ) : Supply ε σ α := fun st n => ((f st).1, (f st).2, n)

/-- From `n` on the supply only grows, and a returned value satisfies `Q`. -/
def Ensures (n : ℕ) (m : Supply ε σ α) (Q : ℕ → α → Prop) : Prop :=
  ∀ st, n ≤ (m st n).2.2 ∧ ∀ a, (m st n).1 = .ok a → Q (m st n).2.2 a

variable {n : ℕ} {Q : ℕ → α → Prop}

theorem ensures_pure {a : α} (h : Q n a) : Ensures n (pure a : Supply ε σ α) Q :=
  fun _ => ⟨Nat.le_refl _, fun _ ha => by cases ha; exact h⟩

theorem ensures_throw (e : ε) : Ensures n (throw e : Supply ε σ α) Q :=
  fun _ => ⟨Nat.le_refl _, fun _ ha => by cases ha⟩

theorem ensures_lift {x : Except ε α} (h : ∀ a, x = .ok a → Q n a) :
    Ensures n (monadLift x : Supply ε σ α) Q :=
  fun _ => ⟨Nat.le_refl _, h⟩

theorem ensures_draw {Q : ℕ → ℕ → Prop} (h : Q (n + 1) n) :
    Ensures n (draw : Supply ε σ ℕ) Q :=
  fun _ => ⟨Nat.le_succ n, fun _ ha => by cases ha; exact h⟩

theorem ensures_onState {f : σ → Except ε α × σ} (h : ∀ a, Q n a) : Ensures n (onState f) Q :=
  fun _ => ⟨Nat.le_refl _, fun a _ => h a⟩

theorem ensures_bind {m : Supply ε σ α} {f : α → Supply ε σ β} {P : ℕ → α → Prop}
    {R : ℕ → β → Prop} (hm : Ensures n m P)
    (hf : ∀ k a, n ≤ k → P k a → Ensures k (f a) R) : Ensures n (m >>= f) R := by
  intro st
  obtain ⟨hle, hp⟩ := hm st
  simp only [bind]
  rcases h : m st n with ⟨e | a, st', k⟩
  · rw [h] at hle
    exact ⟨hle, fun _ hb => by cases hb⟩
  · rw [h] at hle hp
    obtain ⟨hle', hq⟩ := hf k a hle (hp a rfl) st'
    exact ⟨Nat.le_trans hle hle', hq⟩

theorem ensures_tryCatch {m : Supply ε σ α} {h : ε → Supply ε σ α} (hm : Ensures n m Q)
    (hh : ∀ k e, n ≤ k → Ensures k (h e) Q) : Ensures n (tryCatch m h) Q := by
  intro st
  obtain ⟨hle, hq⟩ := hm st
  simp only [tryCatch, tryCatchThe, MonadExceptOf.tryCatch]
  rcases hr : m st n with ⟨e | a, st', k⟩
  · rw [hr] at hle
    obtain ⟨hle', hq'⟩ := hh k e hle st'
    exact ⟨Nat.le_trans hle hle', hq'⟩
  · rw [hr] at hle hq
    exact ⟨hle, hq⟩

/-- A lifted value draws nothing and throws or goes on. -/
theorem ensures_lift_bind {x : Except ε α} {f : α → Supply ε σ β} {R : ℕ → β → Prop}
    (h : ∀ a, x = .ok a → Ensures n (f a) R) : Ensures n (monadLift x >>= f) R := by
  cases x with
  | error e => exact fun _ => ⟨Nat.le_refl _, fun _ hb => by cases hb⟩
  | ok a => exact h a rfl

theorem ensures_onState_bind {g : σ → Except ε α × σ} {f : α → Supply ε σ β} {R : ℕ → β → Prop}
    (h : ∀ a, Ensures n (f a) R) : Ensures n (onState g >>= f) R := by
  intro st
  simp only [bind, onState]
  rcases g st with ⟨e | a, st'⟩
  · exact ⟨Nat.le_refl _, fun _ hb => by cases hb⟩
  · exact h a st'

/-! ### How a computation ends -/

/-- A sequence ends in its first part, or in the second once the first has returned. -/
theorem bind_cases {m : Supply ε σ α} {f : α → Supply ε σ β} {st : σ} {r : Except ε β × σ × ℕ}
    (h : (m >>= f) st n = r) : (∃ e, m st n = (.error e, r.2) ∧ r.1 = .error e) ∨
      ∃ a st' k, m st n = (.ok a, st', k) ∧ f a st' k = r := by
  simp only [bind] at h
  rcases hm : m st n with ⟨e | a, st', k⟩
  · rw [hm] at h
    subst h
    exact Or.inl ⟨e, rfl, rfl⟩
  · rw [hm] at h
    exact Or.inr ⟨a, st', k, rfl, h⟩

/-- The same when the first part is a value. -/
theorem lift_bind_cases {x : Except ε α} {f : α → Supply ε σ β} {st : σ} {r : Except ε β × σ × ℕ}
    (h : ((monadLift x : Supply ε σ α) >>= f) st n = r) :
    (∃ e, x = .error e ∧ r = (.error e, st, n)) ∨ ∃ a, x = .ok a ∧ f a st n = r := by
  cases x with
  | error e => exact Or.inl ⟨e, rfl, h.symm⟩
  | ok a => exact Or.inr ⟨a, rfl, h⟩

/-- A handler that throws again changes nothing but the exception. -/
theorem rethrow_error {m : Supply ε σ α} {handler : ε → Supply ε σ α} {st st' : σ} {k : ℕ} {e' : ε}
    (hh : ∀ e, ∃ e', handler e = throw e') (h : tryCatch m handler st n = (.error e', st', k)) :
    ∃ e, m st n = (.error e, st', k) := by
  simp only [tryCatch, tryCatchThe, MonadExceptOf.tryCatch] at h
  rcases hm : m st n with ⟨e | a, st₁, k₁⟩
  · obtain ⟨e₁, he⟩ := hh e
    rw [hm] at h
    simp only [he] at h
    cases h
    exact ⟨e, rfl⟩
  · rw [hm] at h
    cases h

theorem rethrow_ok {m : Supply ε σ α} {handler : ε → Supply ε σ α} {st st' : σ} {k : ℕ} {a : α}
    (hh : ∀ e, ∃ e', handler e = throw e') (h : tryCatch m handler st n = (.ok a, st', k)) :
    m st n = (.ok a, st', k) := by
  simp only [tryCatch, tryCatchThe, MonadExceptOf.tryCatch] at h
  rcases hm : m st n with ⟨e | a, st₁, k₁⟩
  · obtain ⟨e₁, he⟩ := hh e
    rw [hm] at h
    simp only [he] at h
    cases h
  · rw [hm] at h
    exact h

/-! ### Computations that only read -/

/-- The state is left as it is. -/
def Quiet (m : Supply ε σ α) : Prop := ∀ st n, (m st n).2.1 = st

theorem quiet_pure (a : α) : Quiet (pure a : Supply ε σ α) := fun _ _ => rfl

theorem quiet_throw (e : ε) : Quiet (throw e : Supply ε σ α) := fun _ _ => rfl

theorem quiet_lift (x : Except ε α) : Quiet (monadLift x : Supply ε σ α) := fun _ _ => rfl

theorem quiet_draw : Quiet (draw : Supply ε σ ℕ) := fun _ _ => rfl

theorem quiet_bind {m : Supply ε σ α} {f : α → Supply ε σ β} (hm : Quiet m)
    (hf : ∀ a, Quiet (f a)) : Quiet (m >>= f) := by
  intro st n
  have hst := hm st n
  simp only [bind]
  rcases h : m st n with ⟨e | a, st', k⟩
  · rwa [h] at hst
  · rw [h] at hst
    exact (hf a st' k).trans hst

end Supply

end KurentoMediaServer.Foundations
