import Mathlib.Order.Lattice

/-! Association lists in key order, the contents of a `std::map` in iteration
order. `put` overwrites the value of a key that is present and otherwise inserts
the pair before the first larger key. The laws hold for every list, sorted or
not, so no invariant has to be carried along. -/

namespace KurentoMediaServer.Foundations.Assoc

variable {κ ν : Type*} [LinearOrder κ]

/-- The value of a key. -/
def find (k : κ) : List (κ × ν) → Option ν
  | [] => none
  | (k', v) :: rest => if k = k' then some v else find k rest

/-- Assign a value to a key. -/
def put (k : κ) (x : ν) : List (κ × ν) → List (κ × ν)
  | [] => [(k, x)]
  | (k', v) :: rest =>
    if k = k' then (k, x) :: rest
    else if k < k' then (k, x) :: (k', v) :: rest
    else (k', v) :: put k x rest

@[simp] theorem find_nil (k : κ) : find k ([] : List (κ × ν)) = none := rfl

@[simp] theorem find_put_self (k : κ) (x : ν) (l : List (κ × ν)) : find k (put k x l) = some x := by
  induction l with
  | nil => simp [put, find]
  | cons p rest ih =>
    simp only [put]
    split_ifs with h1 h2
    · simp [find]
    · simp [find]
    · simp [find, h1, ih]

theorem find_put_of_ne {k k' : κ} (h : k' ≠ k) (x : ν) (l : List (κ × ν)) :
    find k' (put k x l) = find k' l := by
  induction l with
  | nil => simp [put, find, h]
  | cons p rest ih =>
    simp only [put]
    split_ifs with h1 h2
    · subst h1; simp [find, h]
    · simp [find, h]
    · simp [find, ih]

theorem find_put (k k' : κ) (x : ν) (l : List (κ × ν)) :
    find k' (put k x l) = if k' = k then some x else find k' l := by
  split_ifs with h
  · subst h; exact find_put_self ..
  · exact find_put_of_ne h x l

/-- The later assignment of a key wins. -/
@[simp] theorem put_put (k : κ) (x y : ν) (l : List (κ × ν)) : put k y (put k x l) = put k y l := by
  induction l with
  | nil => simp [put]
  | cons p rest ih =>
    simp only [put]
    split_ifs with h1 h2
    · simp [put]
    · simp [put]
    · simp [put, h1, h2, ih]

/-- Assignments of different keys commute. -/
theorem put_comm {k k' : κ} (h : k ≠ k') (x y : ν) (l : List (κ × ν)) :
    put k x (put k' y l) = put k' y (put k x l) := by
  have hlt : k < k' ∨ k' < k := lt_or_gt_of_ne h
  induction l with
  | nil =>
    rcases hlt with hlt | hlt <;> simp [put, h, h.symm, hlt, le_of_lt hlt]
  | cons p rest ih =>
    obtain ⟨p, v⟩ := p
    -- where each key falls relative to the head decides both sides
    rcases lt_trichotomy k p with h1 | h1 | h1 <;> rcases lt_trichotomy k' p with h2 | h2 | h2 <;>
      grind [put]

end KurentoMediaServer.Foundations.Assoc
