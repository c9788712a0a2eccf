import KurentoMediaServer.Foundations.Run
import Mathlib.Logic.Function.Basic

/-! A map whose entries expire one by one. Every assignment starts a timer of its
own; a timer that fires takes away the entry it was started for, if that is still
there. What a key holds is the value of its latest assignment, until the timer of
that assignment has fired. -/

namespace KurentoMediaServer.Foundations

/-- What happens to the map: an assignment, labelled with the timer it starts, a
look-up, labelled with its answer, and the firing of a timer. -/
inductive ExpiryEvent (κ ν : Type*)
  | assign (key : κ) (value : ν) (timer : ℕ)
  | look (key : κ) (answer : Option ν)
  | expire (timer : ℕ)

/-- The event assigns the key. -/
def ExpiryEvent.Assigns {κ ν : Type*} (k : κ) : ExpiryEvent κ ν → Prop
  | .assign key _ _ => key = k
  | _ => False

/-- Values with their timers, and the number of the next timer. -/
structure ExpiryMap (κ ν : Type*) where
  entries : κ → Option (ν × ℕ)
  next : ℕ

namespace ExpiryMap

variable {κ ν : Type*} [DecidableEq κ]

def empty : ExpiryMap κ ν := ⟨fun _ => none, 0⟩

def assign (m : ExpiryMap κ ν) (k : κ) (v : ν) : ExpiryMap κ ν :=
  ⟨Function.update m.entries k (some (v, m.next)), m.next + 1⟩

def expire (m : ExpiryMap κ ν) (n : ℕ) : ExpiryMap κ ν :=
  { m with entries := fun k => (m.entries k).filter fun e => e.2 ≠ n }

/-- A timer whose entry is gone never fires. -/
def Step (m : ExpiryMap κ ν) : ExpiryEvent κ ν → ExpiryMap κ ν → Prop
  | .assign k v n, m' => n = m.next ∧ m' = m.assign k v
  | .look k answer, m' => answer = (m.entries k).map Prod.fst ∧ m' = m
  | .expire n, m' => (∃ k v, m.entries k = some (v, n)) ∧ m' = m.expire n

/-- Timers in the map or fired have been started. -/
structure Started (es : List (ExpiryEvent κ ν)) (m : ExpiryMap κ ν) : Prop where
  entry_lt : ∀ k v n, m.entries k = some (v, n) → n < m.next
  fired_lt : ∀ n, .expire n ∈ es → n < m.next

theorem entries_assign (m : ExpiryMap κ ν) (k : κ) (v : ν) (k' : κ) :
    (m.assign k v).entries k' = if k' = k then some (v, m.next) else m.entries k' := by
  simp [assign, Function.update_apply]

omit [DecidableEq κ] in
theorem entries_expire (m : ExpiryMap κ ν) (n : ℕ) (k : κ) (v : ν) (n' : ℕ) :
    (m.expire n).entries k = some (v, n') ↔ m.entries k = some (v, n') ∧ n' ≠ n := by
  simp [expire, Option.filter_eq_some_iff]

theorem Started.step {es : List (ExpiryEvent κ ν)} {m m' : ExpiryMap κ ν} {e : ExpiryEvent κ ν}
    (h : Started es m) (hstep : Step m e m') : Started (es ++ [e]) m' := by
  cases e with
  | assign k v n =>
    obtain ⟨rfl, rfl⟩ := hstep
    refine ⟨fun k' v' n' he => ?_, fun n' hn => ?_⟩
    · rw [entries_assign] at he
      split_ifs at he with hk
      · cases he; exact Nat.lt_succ_self _
      · exact Nat.lt_succ_of_lt (h.entry_lt k' v' n' he)
    · exact Nat.lt_succ_of_lt (h.fired_lt n' (by simpa using hn))
  | look k answer =>
    obtain ⟨-, rfl⟩ := hstep
    exact ⟨h.entry_lt, fun n hn => h.fired_lt n (by simpa using hn)⟩
  | expire n =>
    obtain ⟨⟨k, v, he⟩, rfl⟩ := hstep
    refine ⟨fun k' v' n' he' => h.entry_lt k' v' n' ((entries_expire ..).mp he').1, fun n' hn => ?_⟩
    rcases List.mem_append.mp hn with hn | hn
    · exact h.fired_lt n' hn
    · obtain rfl : n' = n := by simpa using hn
      exact h.entry_lt k v n' he

/-- The value and the timer of a key are those of its latest assignment, as long as
that timer has not fired. -/
def History (es : List (ExpiryEvent κ ν)) (m : ExpiryMap κ ν) : Prop :=
  ∀ k v n, m.entries k = some (v, n) ↔
    Since (· = .assign k v n) (ExpiryEvent.Assigns k) es ∧ .expire n ∉ es

theorem History.step {es : List (ExpiryEvent κ ν)} {m m' : ExpiryMap κ ν} {e : ExpiryEvent κ ν}
    (h : History es m) (hs : Started es m) (hstep : Step m e m') : History (es ++ [e]) m' := by
  intro k v n
  have hk := h k v n
  rw [since_snoc]
  cases e with
  | assign k' v' n' =>
    obtain ⟨rfl, rfl⟩ := hstep
    rw [entries_assign]
    by_cases hkey : k = k'
    · -- the new timer is fresh, so it has not fired before
      subst hkey
      have hfresh : .expire m.next ∉ es := fun hm => absurd (hs.fired_lt _ hm) (Nat.lt_irrefl _)
      simp only [↓reduceIte, Option.some.injEq, Prod.mk.injEq, ExpiryEvent.Assigns,
        ExpiryEvent.assign.injEq, true_and, not_true_eq_false, and_false, or_false,
        List.mem_append, List.mem_singleton, reduceCtorEq]
      constructor
      · rintro ⟨rfl, rfl⟩; exact ⟨⟨rfl, rfl⟩, hfresh⟩
      · rintro ⟨⟨rfl, rfl⟩, -⟩; exact ⟨rfl, rfl⟩
    · rw [if_neg hkey, hk]
      simp [ExpiryEvent.Assigns, Ne.symm hkey]
  | look k' answer =>
    obtain ⟨-, rfl⟩ := hstep
    simpa [ExpiryEvent.Assigns] using hk
  | expire n' =>
    obtain ⟨-, rfl⟩ := hstep
    rw [entries_expire, hk]
    simp [ExpiryEvent.Assigns, and_assoc]

/-- Along every run from the empty map. -/
theorem history_of_run {es : List (ExpiryEvent κ ν)} {m : ExpiryMap κ ν}
    (h : Run Step empty es m) : History es m := by
  have hinv : Started es m ∧ History es m := by
    refine h.history_invariant (motive := fun es m => Started es m ∧ History es m)
      (fun es s e t hi hstep => ⟨hi.1.step hstep, hi.2.step hi.1 hstep⟩) ⟨⟨?_, ?_⟩, ?_⟩
    · simp [empty]
    · simp
    · intro k v n
      simp [empty, not_since_nil]
  exact hinv.2

end ExpiryMap

end KurentoMediaServer.Foundations
