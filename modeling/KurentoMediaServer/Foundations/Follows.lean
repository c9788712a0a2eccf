import KurentoMediaServer.Foundations.Supply
import Mathlib.Order.Defs.Unbundled

/-! Relations between the state a computation begins in and the one it ends in,
whether it returns or throws. For a preorder it is enough to look at the operations a
computation is made of. -/

namespace KurentoMediaServer.Foundations.Supply

variable {ε σ α β : Type} {R : σ × ℕ → σ × ℕ → Prop}

/-- However it ends, the computation has moved along `R`. -/
def Follows (R : σ × ℕ → σ × ℕ → Prop) (m : Supply ε σ α) : Prop :=
  ∀ st n, R (st, n) (m st n).2

section Preorder
variable [IsPreorder (σ × ℕ) R]

theorem follows_pure (a : α) : Follows R (pure a : Supply ε σ α) := fun _ _ => refl_of R _

theorem follows_throw (e : ε) : Follows R (throw e : Supply ε σ α) := fun _ _ => refl_of R _

theorem follows_lift (x : Except ε α) : Follows R (monadLift x : Supply ε σ α) :=
  fun _ _ => refl_of R _

theorem follows_bind {m : Supply ε σ α} {f : α → Supply ε σ β} (hm : Follows R m)
    (hf : ∀ a, Follows R (f a)) : Follows R (m >>= f) := by
  intro st n
  have hfirst := hm st n
  simp only [bind]
  rcases h : m st n with ⟨e | a, st', k⟩
  · rwa [h] at hfirst
  · rw [h] at hfirst
    exact trans_of R hfirst (hf a st' k)

theorem follows_tryCatch {m : Supply ε σ α} {handler : ε → Supply ε σ α} (hm : Follows R m)
    (hh : ∀ e, Follows R (handler e)) : Follows R (tryCatch m handler) := by
  intro st n
  have hfirst := hm st n
  simp only [tryCatch, tryCatchThe, MonadExceptOf.tryCatch]
  rcases h : m st n with ⟨e | a, st', k⟩
  · rw [h] at hfirst
    exact trans_of R hfirst (hh e st' k)
  · rwa [h] at hfirst

end Preorder

theorem follows_onState {f : σ → Except ε α × σ} (h : ∀ st n, R (st, n) ((f st).2, n)) :
    Follows R (onState f) := h

theorem follows_draw (h : ∀ st n, R (st, n) (st, n + 1)) :
    Follows R (draw : Supply ε σ ℕ) := h

end KurentoMediaServer.Foundations.Supply
