import KurentoMediaServer.Foundations.Run
import Mathlib.Algebra.Order.Group.Nat
import Mathlib.Logic.Function.Iterate

/-! Delays that grow with every failure and start again after a success. In every run the
delay is the growth iterated as often as there were failures since the last success. A
delay that is doubled up to a cap is the power of two, capped. -/

namespace KurentoMediaServer.Foundations

variable {σ ε α : Type*}

/-- How many `p` there have been since the last `q`. -/
def countSince (p q : ε → Bool) (es : List ε) : ℕ :=
  es.foldl (fun n e => if q e then 0 else if p e then n + 1 else n) 0

theorem countSince_snoc (p q : ε → Bool) (es : List ε) (e : ε) :
    countSince p q (es ++ [e]) =
      if q e then 0 else if p e then countSince p q es + 1 else countSince p q es := by
  rw [countSince, List.foldl_append]
  rfl

/-- The delay of a system whose `q` reset it and whose `p` let it grow. -/
theorem Run.delay {step : σ → ε → σ → Prop} {p q : ε → Bool} {delay : σ → α} {first : α}
    {grow : α → α}
    (hstep : ∀ s e t, step s e t →
      delay t = if q e then first else if p e then grow (delay s) else delay s)
    {s t : σ} {es : List ε} (h : Run step s es t) (hs : delay s = first) :
    delay t = grow^[countSince p q es] first := by
  induction h with
  | nil => exact hs
  | @snoc t u es e _ hlast ih =>
    rw [hstep _ _ _ hlast, countSince_snoc, ih]
    split_ifs
    · rfl
    · rw [Function.iterate_succ_apply']
    · rfl

/-- Doubling up to a cap. -/
theorem iterate_double {cap first : ℕ} (h : first ≤ cap) (k : ℕ) :
    (fun x => min (2 * x) cap)^[k] first = min (2 ^ k * first) cap := by
  induction k with
  | zero => simp [h]
  | succ k ih =>
    rw [Function.iterate_succ_apply', ih, Nat.pow_succ, Nat.mul_right_comm]
    omega

end KurentoMediaServer.Foundations
