import KurentoMediaServer.Foundations.Supply

/-! Which exceptions a computation can end with. A sequence throws what its parts throw,
and a handler decides what becomes of the exceptions of its body. -/

namespace KurentoMediaServer.Foundations

variable {ε σ α β : Type} {P Q : ε → Prop}

/-- If it is an exception, it satisfies `P`. -/
def Throws (P : ε → Prop) (x : Except ε α) : Prop := ∀ e, x = .error e → P e

theorem throws_ok (a : α) : Throws P (.ok a : Except ε α) := nofun

theorem throws_error {e : ε} (h : P e) : Throws P (.error e : Except ε α) := by
  rintro e' ⟨⟩
  exact h

theorem Throws.mono {x : Except ε α} (h : Throws P x) (hPQ : ∀ e, P e → Q e) : Throws Q x :=
  fun e he => hPQ e (h e he)

theorem Throws.bind {x : Except ε α} {f : α → Except ε β} (hx : Throws P x)
    (hf : ∀ a, Throws P (f a)) : Throws P (x >>= f) := by
  cases x with
  | error e => exact throws_error (hx e rfl)
  | ok a => exact hf a

theorem Throws.map {x : Except ε α} (f : α → β) (hx : Throws P x) : Throws P (x.map f) := by
  cases x with
  | error e => exact throws_error (hx e rfl)
  | ok a => exact throws_ok _

namespace Supply

/-- Wherever it is started, if it throws, the exception satisfies `P`. -/
def Throws (P : ε → Prop) (m : Supply ε σ α) : Prop := ∀ st n, Foundations.Throws P (m st n).1

theorem throws_pure (a : α) : Throws P (pure a : Supply ε σ α) := fun _ _ => throws_ok a

theorem throws_throw {e : ε} (h : P e) : Throws P (throw e : Supply ε σ α) :=
  fun _ _ => throws_error h

theorem throws_lift {x : Except ε α} (h : Foundations.Throws P x) :
    Throws P (monadLift x : Supply ε σ α) := fun _ _ => h

theorem throws_draw : Throws P (draw : Supply ε σ ℕ) := fun _ n => throws_ok n

theorem throws_bind {m : Supply ε σ α} {f : α → Supply ε σ β} (hm : Throws P m)
    (hf : ∀ a, Throws P (f a)) : Throws P (m >>= f) := by
  intro st n
  have hfirst := hm st n
  simp only [bind]
  rcases h : m st n with ⟨e | a, st', k⟩
  · rw [h] at hfirst
    exact throws_error (hfirst e rfl)
  · exact hf a st' k

theorem throws_tryCatch {m : Supply ε σ α} {handler : ε → Supply ε σ α}
    (hm : Throws Q m) (hh : ∀ e, Q e → Throws P (handler e)) : Throws P (tryCatch m handler) := by
  intro st n
  have hfirst := hm st n
  simp only [tryCatch, tryCatchThe, MonadExceptOf.tryCatch]
  rcases h : m st n with ⟨e | a, st', k⟩
  · rw [h] at hfirst
    exact hh e (hfirst e rfl) st' k
  · exact throws_ok a

/-- A computation may throw anything. -/
theorem throws_true (m : Supply ε σ α) : Throws (fun _ => True) m := fun _ _ _ _ => trivial

end Supply

end KurentoMediaServer.Foundations
