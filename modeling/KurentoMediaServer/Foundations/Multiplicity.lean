import KurentoMediaServer.Foundations.KeyedTree

/-! How many nodes of a keyed tree stand at a path, counting every sibling of a key. A
push on a path never lowers the number of nodes anywhere, and raises it at the path. -/

namespace KurentoMediaServer.Foundations.KeyedTree

variable {κ δ α : Type*} [DecidableEq κ]

/-- The sum of `h` over the values of a key. -/
def total (k : κ) (h : α → ℕ) : List (κ × α) → ℕ
  | [] => 0
  | (j, x) :: rest => (if j = k then h x else 0) + total k h rest

theorem total_append (k : κ) (h : α → ℕ) (l₁ l₂ : List (κ × α)) :
    total k h (l₁ ++ l₂) = total k h l₁ + total k h l₂ := by
  induction l₁ with
  | nil => simp [total]
  | cons x rest ih =>
    rw [List.cons_append, total, total, ih]
    omega

theorem total_eq_zero {k : κ} {l : List (κ × α)} (hk : k ∉ l.map Prod.fst) (h : α → ℕ) :
    total k h l = 0 := by
  induction l with
  | nil => rfl
  | cons x rest ih =>
    simp only [List.map_cons, List.mem_cons, not_or] at hk
    rw [total, if_neg (Ne.symm hk.1), ih hk.2]

/-- Among distinct keys the sum has one term. -/
theorem total_of_nodup {k : κ} {l : List (κ × α)} (hl : (l.map Prod.fst).Nodup) (h : α → ℕ) :
    total k h l = (l.lookup k).elim 0 h := by
  induction l with
  | nil => rfl
  | cons x rest ih =>
    obtain ⟨j, x⟩ := x
    simp only [List.map_cons, List.nodup_cons] at hl
    rw [total, List.lookup_cons]
    by_cases hj : j = k
    · subst hj
      simp [total_eq_zero hl.1]
    · rw [if_neg hj, beq_false_of_ne (Ne.symm hj), Nat.zero_add]
      exact ih hl.2

theorem total_filter_of_ne {j k : κ} (hj : j ≠ k) (h : α → ℕ) (l : List (κ × α)) :
    total j h (l.filter fun p => p.1 ≠ k) = total j h l := by
  induction l with
  | nil => rfl
  | cons x rest ih =>
    by_cases hx : x.1 = k
    · rw [List.filter_cons_of_neg (by simpa using hx), total, ih, if_neg (by rw [hx]; exact hj.symm),
        Nat.zero_add]
    · rw [List.filter_cons_of_pos (by simpa using hx), total, total, ih]

theorem total_upsert_of_ne {j k : κ} (hj : j ≠ k) (h : α → ℕ) (g : Option α → α)
    (l : List (κ × α)) : total j h (upsert k g l) = total j h l := by
  induction l with
  | nil => simp [upsert, total, hj.symm]
  | cons x rest ih =>
    obtain ⟨i, x⟩ := x
    simp only [upsert]
    split_ifs with hi
    · rw [total, total, if_neg (by rw [hi]; exact hj.symm), if_neg (by rw [hi]; exact hj.symm)]
    · rw [total, total, ih]

/-- If the change adds `n` to the value, it adds `n` to the sum. -/
theorem total_upsert_le {k : κ} {h : α → ℕ} {g : Option α → α} {n : ℕ}
    (hg : ∀ o : Option α, o.elim 0 h + n ≤ h (g o)) (l : List (κ × α)) :
    total k h l + n ≤ total k h (upsert k g l) := by
  induction l with
  | nil =>
    have hn := hg none
    simpa [upsert, total] using hn
  | cons x rest ih =>
    obtain ⟨i, x⟩ := x
    simp only [upsert]
    split_ifs with hi
    · have hx := hg (some x)
      simp only [Option.elim_some] at hx
      rw [total, total, if_pos hi, if_pos hi]
      omega
    · rw [total, total]
      omega

/-- The number of nodes at a path. -/
def mult : List κ → KeyedTree κ δ → ℕ
  | [], _ => 1
  | k :: ks, t => total k (mult ks) t.children

theorem mult_cons (k : κ) (ks : List κ) (t : KeyedTree κ δ) :
    mult (k :: ks) t = total k (mult ks) t.children := rfl

theorem mult_erase_of_ne {j k : κ} (hj : j ≠ k) (q : List κ) (t : KeyedTree κ δ) :
    mult (j :: q) (t.erase k) = mult (j :: q) t := by
  rw [mult_cons, mult_cons, children_erase, total_filter_of_ne hj]

variable [Inhabited δ]

/-- A push on a path lowers the number of nodes at no path, and raises it at its own. -/
theorem mult_forceAt_push (p q : List κ) (k : κ) (c t : KeyedTree κ δ) :
    mult q t + (if q = p ++ [k] then 1 else 0) ≤
      mult q (forceAt (fun parent => parent.push k c) p t) := by
  induction p generalizing q t with
  | nil =>
    cases q with
    | nil => simp [mult]
    | cons j q =>
      rw [forceAt_nil, mult_cons, mult_cons, children_push, total_append]
      by_cases hq : j :: q = [k]
      · obtain ⟨rfl, rfl⟩ := List.cons.inj hq
        simp [total, mult]
      · simp [hq]
  | cons i p ih =>
    cases q with
    | nil => simp [mult]
    | cons j q =>
      rw [forceAt_cons, mult_cons, mult_cons, children_node]
      by_cases hj : j = i
      · subst hj
        have hq : (j :: q = j :: p ++ [k]) = (q = p ++ [k]) := by simp
        simp only [hq]
        apply total_upsert_le
        intro o
        cases o with
        | none => exact Nat.le_trans (Nat.add_le_add_right (Nat.zero_le _) _) (ih q default)
        | some c' => exact ih q c'
      · have hq : ¬ j :: q = i :: p ++ [k] := fun h => hj (List.cons.inj h).1
        rw [total_upsert_of_ne hj, if_neg hq]
        exact Nat.le_refl _

end KurentoMediaServer.Foundations.KeyedTree
