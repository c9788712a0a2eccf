import Mathlib.Data.List.TakeWhile

/-! The words of a list: its maximal runs of elements other than a separator. A scanner
finds them by searching for positions, so the search is described by how it cuts the
list in two. -/

namespace KurentoMediaServer.Foundations

variable {α : Type*}

/-! ### Positions -/

/-- The first position from `start` on at which `p` holds. -/
def findFrom (p : α → Bool) (l : List α) (start : ℕ) : Option ℕ :=
  ((l.drop start).findIdx? p).map (start + ·)

theorem findIdx?_eq_some {p : α → Bool} {l : List α} {i : ℕ} (h : l.findIdx? p = some i) :
    ∃ w c rest, l = w ++ c :: rest ∧ (∀ x ∈ w, p x = false) ∧ p c = true ∧ i = w.length := by
  induction l generalizing i with
  | nil => simp at h
  | cons x l ih =>
    rw [List.findIdx?_cons] at h
    split_ifs at h with hx
    · exact ⟨[], x, l, rfl, by simp, hx, by simpa using h.symm⟩
    · obtain ⟨j, hj, rfl⟩ := Option.map_eq_some_iff.mp h
      obtain ⟨w, c, rest, rfl, hw, hc, rfl⟩ := ih hj
      refine ⟨x :: w, c, rest, rfl, ?_, hc, rfl⟩
      intro y hy
      rcases List.mem_cons.mp hy with rfl | hy
      · simpa using hx
      · exact hw y hy

/-- A position that is found cuts off what does not match, and something matches there. -/
theorem findFrom_eq_some {p : α → Bool} {l : List α} {start i : ℕ}
    (h : findFrom p l start = some i) :
    ∃ w c rest, l.drop start = w ++ c :: rest ∧ (∀ x ∈ w, p x = false) ∧ p c = true ∧
      i = start + w.length ∧ l.drop i = c :: rest := by
  obtain ⟨j, hj, rfl⟩ := Option.map_eq_some_iff.mp h
  obtain ⟨w, c, rest, hl, hw, hc, rfl⟩ := findIdx?_eq_some hj
  refine ⟨w, c, rest, hl, hw, hc, rfl, ?_⟩
  rw [← List.drop_drop, hl, List.drop_left]

theorem findFrom_eq_none {p : α → Bool} {l : List α} {start : ℕ} :
    findFrom p l start = none ↔ ∀ x ∈ l.drop start, p x = false := by
  rw [findFrom, Option.map_eq_none_iff, List.findIdx?_eq_none_iff]

theorem lt_length_of_findFrom {p : α → Bool} {l : List α} {start i : ℕ}
    (h : findFrom p l start = some i) : start ≤ i ∧ i < l.length := by
  obtain ⟨w, c, rest, -, -, -, rfl, hd⟩ := findFrom_eq_some h
  have hlen := congrArg List.length hd
  rw [List.length_drop, List.length_cons] at hlen
  omega

/-! ### Words -/

variable [DecidableEq α] {sep : α} {l w : List α}

/-- The parts between separators that are not empty. -/
def words (sep : α) (l : List α) : List (List α) := (l.splitOn sep).filter (· ≠ [])

@[simp] theorem words_nil : words sep [] = [] := by
  simp [words]

theorem words_append_sep (l m : List α) : words sep (l ++ sep :: m) = words sep l ++ words sep m := by
  rw [words, List.splitOn_append_cons_self, List.filter_append]
  rfl

@[simp] theorem words_sep_cons (m : List α) : words sep (sep :: m) = words sep m := by
  have h : words sep ([] ++ sep :: m) = words sep [] ++ words sep m := words_append_sep [] m
  rwa [words_nil, List.nil_append, List.nil_append] at h

/-- A list without the separator is a word. -/
theorem words_of_notMem (hw : w ≠ []) (h : sep ∉ w) : words sep w = [w] := by
  rw [words, List.splitOn_eq_singleton h]
  simp [hw]

/-- The first word ends at a separator. -/
theorem words_append_of_notMem (hw : w ≠ []) (h : sep ∉ w) (m : List α) :
    words sep (w ++ sep :: m) = w :: words sep m := by
  rw [words_append_sep, words_of_notMem hw h, List.singleton_append]

/-- There is no word among separators. -/
theorem words_eq_nil (h : ∀ x ∈ l, x = sep) : words sep l = [] := by
  induction l with
  | nil => exact words_nil
  | cons x l ih =>
    rw [h x List.mem_cons_self, words_sep_cons]
    exact ih fun y hy => h y (List.mem_cons_of_mem x hy)

/-- Separators in front of a list make no word. -/
theorem words_append_of_all (h : ∀ x ∈ w, x = sep) (m : List α) :
    words sep (w ++ m) = words sep m := by
  induction w with
  | nil => rfl
  | cons x w ih =>
    rw [List.cons_append, h x List.mem_cons_self, words_sep_cons]
    exact ih fun y hy => h y (List.mem_cons_of_mem x hy)

/-- A separator between two lists that have words separates them. -/
theorem words_ne_nil (h : ∃ x ∈ l, x ≠ sep) : words sep l ≠ [] := by
  induction l with
  | nil => simp at h
  | cons x l ih =>
    by_cases hx : x = sep
    · subst hx
      rw [words_sep_cons]
      apply ih
      obtain ⟨y, hy, hne⟩ := h
      exact ⟨y, (List.mem_cons.mp hy).resolve_left hne, hne⟩
    · intro hn
      have hm : ∃ w ∈ (x :: l).splitOn sep, w ≠ [] := by
        rw [List.splitOn_cons_eq_if_modifyHead, if_neg (by simpa using hx)]
        cases hs : l.splitOn sep with
        | nil => exact absurd hs (List.splitOn_ne_nil sep l)
        | cons z zs => exact ⟨x :: z, List.mem_cons_self, by simp⟩
      obtain ⟨w, hw, hne⟩ := hm
      have hmem : w ∈ words sep (x :: l) := List.mem_filter.mpr ⟨hw, by simpa using hne⟩
      rw [hn] at hmem
      simp at hmem

end KurentoMediaServer.Foundations
