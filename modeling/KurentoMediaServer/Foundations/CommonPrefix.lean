import Mathlib.Data.List.DropRight
import Mathlib.Data.List.Infix

/-! The part two lists begin with alike, and its part up to the last of a given element:
the longest path of directories two file names share, if the element is the slash. -/

namespace KurentoMediaServer.Foundations

variable {α : Type*} [DecidableEq α]

def commonPrefix : List α → List α → List α
  | a :: as, b :: bs => if a = b then a :: commonPrefix as bs else []
  | _, _ => []

theorem prefix_commonPrefix_iff {p s t : List α} :
    p <+: commonPrefix s t ↔ p <+: s ∧ p <+: t := by
  induction p generalizing s t with
  | nil => simp
  | cons c cs ih =>
    cases s with
    | nil => simp [commonPrefix]
    | cons a as =>
      cases t with
      | nil => simp [commonPrefix]
      | cons b bs =>
        rw [commonPrefix]
        split_ifs with hab
        · rw [List.cons_prefix_cons, List.cons_prefix_cons, List.cons_prefix_cons, ih, hab]
          tauto
        · simp only [List.prefix_nil, reduceCtorEq, List.cons_prefix_cons, false_iff]
          exact fun h => hab (h.1.1.symm.trans h.2.1)

theorem commonPrefix_prefix_right (s t : List α) : commonPrefix s t <+: t :=
  (prefix_commonPrefix_iff.mp List.prefix_rfl).2

theorem commonPrefix_append (s t : List α) : commonPrefix s (s ++ t) = s := by
  induction s with
  | nil => rfl
  | cons a as ih => rw [List.cons_append, commonPrefix, if_pos rfl, ih]

/-- A list up to the last `c` in it. -/
def upToLast (c : α) (s : List α) : List α := s.rdropWhile (· ≠ c)

/-- It has every part of the list that ends in `c`. -/
theorem prefix_upToLast_iff {c : α} {p s : List α} :
    p ++ [c] <+: upToLast c s ↔ p ++ [c] <+: s := by
  refine ⟨fun h => h.trans (List.rdropWhile_prefix _ _), fun h => ?_⟩
  induction s using List.reverseRecOn with
  | nil => exact h
  | append_singleton s a ih =>
    unfold upToLast at ih ⊢
    by_cases ha : a = c
    · rwa [List.rdropWhile_concat_neg _ _ _ (by simpa using ha)]
    · rw [List.rdropWhile_concat_pos _ _ _ (by simpa using ha)]
      refine ih ((List.prefix_concat_iff.mp h).resolve_left fun heq => ha ?_)
      exact (List.singleton_inj.mp (List.append_inj' heq rfl).2).symm

/-- It ends in `c`, with no `c` in what comes after it. -/
theorem upToLast_eq {c : α} {s : List α} (h : c ∈ s) :
    ∃ p r, s = p ++ c :: r ∧ c ∉ r ∧ upToLast c s = p ++ [c] := by
  induction s using List.reverseRecOn with
  | nil => cases h
  | append_singleton s a ih =>
    unfold upToLast at ih ⊢
    by_cases ha : a = c
    · exact ⟨s, [], by rw [ha], by simp, by
        rw [List.rdropWhile_concat_neg _ _ _ (by simpa using ha), ha]⟩
    · have hs : c ∈ s := (List.mem_append.mp h).resolve_right fun h =>
        ha (List.mem_singleton.mp h).symm
      obtain ⟨p, r, hp, hr, hup⟩ := ih hs
      refine ⟨p, r ++ [a], by rw [hp]; simp, ?_, ?_⟩
      · simpa [hr] using fun h : c = a => ha h.symm
      · rw [List.rdropWhile_concat_pos _ _ _ (by simpa using ha), hup]

theorem upToLast_of_notMem {c : α} {s : List α} (h : c ∉ s) : upToLast c s = [] :=
  List.rdropWhile_eq_nil_iff.mpr fun a ha => by
    simpa using fun hac : a = c => h (hac ▸ ha)

end KurentoMediaServer.Foundations
