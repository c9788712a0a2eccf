import KurentoMediaServer.Foundations.Run
import Mathlib.Data.PEquiv

/-! One-to-one partial matchings (`PEquiv`) under two updates: `link` pairs two
elements and drops whatever either was paired with, `unlink` drops the pair of
an element on the right. After any history the pairs are those that were linked
at some point with nothing after that touching either side. -/

namespace KurentoMediaServer.Foundations.Matching

variable {α β : Type*} [DecidableEq α] [DecidableEq β]

/-- Pair `a` with `b`; the former partners of both become free. -/
def link (m : α ≃. β) (a : α) (b : β) : α ≃. β where
  toFun x := if x = a then some b else if m x = some b then none else m x
  invFun y := if y = b then some a else if m.symm y = some a then none else m.symm y
  inv x y := by
    have h : m.symm y = some x ↔ m x = some y := m.inv x y
    by_cases hx : x = a <;> by_cases hy : y = b <;> grind

/-- Drop the pair of `b`, if it has one. -/
def unlink (m : α ≃. β) (b : β) : α ≃. β where
  toFun x := if m x = some b then none else m x
  invFun y := if y = b then none else m.symm y
  inv x y := by
    have h : m.symm y = some x ↔ m x = some y := m.inv x y
    by_cases hy : y = b <;> grind

theorem link_apply_iff (m : α ≃. β) (a x : α) (b y : β) :
    link m a b x = some y ↔ (x = a ∧ y = b) ∨ (x ≠ a ∧ y ≠ b ∧ m x = some y) := by
  change (if x = a then some b else if m x = some b then none else m x) = some y ↔ _
  grind

omit [DecidableEq α] in
theorem unlink_apply_iff (m : α ≃. β) (x : α) (b y : β) :
    unlink m b x = some y ↔ y ≠ b ∧ m x = some y := by
  change (if m x = some b then none else m x) = some y ↔ _
  grind

/-- Linking two elements that are already paired changes nothing. -/
theorem link_of_paired (m : α ≃. β) (a : α) (b : β) (h : m a = some b) : link m a b = m := by
  refine PEquiv.ext fun x => Option.ext fun y => ?_
  rw [link_apply_iff]
  have hinj : ∀ x y, m x = some y → (x = a ↔ y = b) := fun x y hxy =>
    ⟨fun hx => by subst hx; simpa [h] using hxy.symm, fun hy => by subst hy; exact m.inj hxy h⟩
  grind

/-! ### Histories -/

/-- One update of a matching. -/
inductive Op (α β : Type*)
  | link (a : α) (b : β)
  | unlink (b : β)

def Op.apply : Op α β → (α ≃. β) → (α ≃. β)
  | .link a b, m => Matching.link m a b
  | .unlink b, m => Matching.unlink m b

/-- The matching left by a history, starting from no pairs. -/
def run (ops : List (Op α β)) : α ≃. β := ops.foldl (fun m o => o.apply m) ⊥

theorem run_snoc (ops : List (Op α β)) (o : Op α β) : run (ops ++ [o]) = o.apply (run ops) :=
  List.foldl_append

/-- The updates that end the pair of `a` and `b`. -/
def Op.Breaks (a : α) (b : β) : Op α β → Prop
  | .link a' b' => (a' = a ∧ b' ≠ b) ∨ (a' ≠ a ∧ b' = b)
  | .unlink b' => b' = b

/-! ### Histories of events that update a matching -/

variable {ε : Type*}

/-- Some event linked `a` and `b` and no later one touched either. -/
def StandingBy (op : ε → Option (Op α β)) (es : List ε) (a : α) (b : β) : Prop :=
  Since (fun e => op e = some (.link a b)) (fun e => ∃ o, op e = some o ∧ o.Breaks a b) es

theorem run_filterMap_snoc (op : ε → Option (Op α β)) (es : List ε) (e : ε) :
    run ((es ++ [e]).filterMap op) = match op e with
      | some o => o.apply (run (es.filterMap op))
      | none => run (es.filterMap op) := by
  rw [List.filterMap_append]
  cases h : op e with
  | none => simp [h]
  | some o => simp [h, run_snoc]

/-- The pairs of the matching that a sequence of events leaves are the standing
ones. -/
theorem run_filterMap_iff (op : ε → Option (Op α β)) (es : List ε) (a : α) (b : β) :
    run (es.filterMap op) a = some b ↔ StandingBy op es a b := by
  induction es using List.reverseRecOn with
  | nil => simp [run, StandingBy, not_since_nil]
  | append_singleton es e ih =>
    rw [StandingBy, since_snoc, ← StandingBy, ← ih, run_filterMap_snoc]
    cases op e with
    | none => simp
    | some o =>
      cases o with
      | link a' b' =>
        simp only [Op.apply, link_apply_iff, Op.Breaks, Option.some.injEq, Op.link.injEq]
        grind
      | unlink b' =>
        simp only [Op.apply, unlink_apply_iff, Op.Breaks, Option.some.injEq]
        grind

end KurentoMediaServer.Foundations.Matching
