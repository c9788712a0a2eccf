import KurentoMediaServer.Foundations.DeepMerge
import Mathlib.Data.List.Forall2

/-! Keyed trees up to the order of siblings with different keys. Among siblings of one
key the order counts, so an array, whose elements all have the same key, keeps its
order. Changes of a tree at places beside each other commute up to this order, and so a
run of such changes may be taken in any order. -/

namespace KurentoMediaServer.Foundations

section Lists

variable {α : Type*} {R : α → α → Prop} {l l' : List α}

theorem forall₂_tail (h : List.Forall₂ R l l') : List.Forall₂ R l.tail l'.tail := by
  cases h with
  | nil => exact .nil
  | cons _ ht => exact ht

theorem forall₂_head (h : List.Forall₂ R l l') {d : α} (hd : R d d) :
    R (l.head?.getD d) (l'.head?.getD d) := by
  cases h with
  | nil => exact hd
  | cons hh _ => exact hh

end Lists

namespace KeyedTree

variable {κ δ : Type*} [DecidableEq κ]

/-- The children of a key, in order. -/
def under (k : κ) (t : KeyedTree κ δ) : List (KeyedTree κ δ) :=
  (t.children.filter fun p => p.1 = k).map Prod.snd

/-- The datum of a node, which is named by the keys on the way to it and its place among
the siblings of each key. -/
def datumAt : List (κ × ℕ) → KeyedTree κ δ → Option δ
  | [], t => some t.data
  | (k, i) :: p, t => ((t.under k)[i]?).bind (datumAt p)

/-- The same nodes, up to the order of siblings with different keys. -/
def Alike (s t : KeyedTree κ δ) : Prop := ∀ p, datumAt p s = datumAt p t

namespace Alike

variable {r s t : KeyedTree κ δ}

theorem refl (t : KeyedTree κ δ) : Alike t t := fun _ => rfl

theorem symm (h : Alike s t) : Alike t s := fun p => (h p).symm

theorem trans (h : Alike r s) (h' : Alike s t) : Alike r t := fun p => (h p).trans (h' p)

instance : @Std.Refl (KeyedTree κ δ) Alike := ⟨refl⟩

theorem equivalence : Equivalence (@Alike κ δ _) := ⟨refl, symm, trans⟩

theorem data (h : Alike s t) : s.data = t.data := Option.some.inj (h [])

theorem length_under (h : Alike s t) (k : κ) : (s.under k).length = (t.under k).length := by
  have hi : ∀ i : ℕ, i < (s.under k).length ↔ i < (t.under k).length := by
    intro i
    have hm : ∀ u : KeyedTree κ δ, datumAt [(k, i)] u = ((u.under k)[i]?).map KeyedTree.data :=
      fun u => Option.map_eq_bind.symm
    have hi := congrArg Option.isSome (h [(k, i)])
    rw [hm, hm, Option.isSome_map, Option.isSome_map, Bool.eq_iff_iff] at hi
    simpa using hi
  have hs := hi (s.under k).length
  have ht := hi (t.under k).length
  omega

theorem under (h : Alike s t) (k : κ) : List.Forall₂ Alike (s.under k) (t.under k) := by
  refine List.forall₂_iff_get.mpr ⟨h.length_under k, fun i hs ht p => ?_⟩
  have hp := h ((k, i) :: p)
  simpa [datumAt, hs, ht] using hp

end Alike

variable {s t : KeyedTree κ δ}

/-- Trees that are alike have the same datum and, key by key, children that are alike. -/
theorem alike_iff :
    Alike s t ↔ s.data = t.data ∧ ∀ k, List.Forall₂ Alike (s.under k) (t.under k) := by
  constructor
  · exact fun h => ⟨h.data, h.under⟩
  · rintro ⟨hd, hu⟩ p
    cases p with
    | nil => exact congrArg some hd
    | cons x p =>
      obtain ⟨k, i⟩ := x
      obtain ⟨hlen, hget⟩ := List.forall₂_iff_get.mp (hu k)
      by_cases hi : i < (s.under k).length
      · have hi' : i < (t.under k).length := by omega
        simpa [datumAt, hi, hi'] using hget i hi hi' p
      · have hi' : ¬ i < (t.under k).length := by omega
        rw [datumAt, datumAt, List.getElem?_eq_none (by omega), List.getElem?_eq_none (by omega)]

theorem alike_of_under (hd : s.data = t.data) (hu : ∀ k, s.under k = t.under k) :
    Alike s t := by
  refine alike_iff.mpr ⟨hd, fun k => ?_⟩
  rw [hu]
  exact List.forall₂_refl _

/-! ### Look-up and changes -/

theorem head?_filter_map (k : κ) (cs : List (κ × KeyedTree κ δ)) :
    ((cs.filter fun p => p.1 = k).map Prod.snd).head? = cs.lookup k := by
  induction cs with
  | nil => rfl
  | cons p rest ih =>
    rw [List.lookup_cons]
    by_cases hk : p.1 = k
    · rw [List.filter_cons_of_pos (by simpa using hk)]
      simp [hk]
    · rw [List.filter_cons_of_neg (by simpa using hk), beq_false_of_ne (Ne.symm hk)]
      exact ih

/-- Look-up reads the first child of a key. -/
theorem head?_under (k : κ) (t : KeyedTree κ δ) : (t.under k).head? = t.children.lookup k :=
  head?_filter_map k t.children

theorem under_push (j k : κ) (t c : KeyedTree κ δ) :
    (t.push k c).under j = t.under j ++ if j = k then [c] else [] := by
  rw [under, children_push, List.filter_append, List.map_append]
  by_cases hj : j = k
  · simp [under, hj]
  · simp [under, hj, Ne.symm hj]

theorem under_erase (j k : κ) (t : KeyedTree κ δ) :
    (t.erase k).under j = if j = k then [] else t.under j := by
  rw [under, children_erase, List.filter_filter]
  split_ifs with hj
  · subst hj
    simp
  · rw [under]
    congr 1
    apply List.filter_congr
    intro p _
    by_cases hp : p.1 = j <;> simp [hp, hj]

theorem under_upsert_of_ne {j k : κ} (hj : j ≠ k) (d : δ)
    (g : Option (KeyedTree κ δ) → KeyedTree κ δ) (cs : List (κ × KeyedTree κ δ)) :
    (node d (upsert k g cs)).under j = (node d cs).under j := by
  rw [under, under, children_node, children_node]
  induction cs with
  | nil => simp [upsert, Ne.symm hj]
  | cons p rest ih =>
    obtain ⟨i, c⟩ := p
    rw [upsert]
    split_ifs with hi
    · subst hi
      simp [Ne.symm hj]
    · rw [List.filter_cons, List.filter_cons]
      split_ifs
      · rw [List.map_cons, List.map_cons, ih]
      · exact ih

theorem under_upsert_self (k : κ) (d : δ) (g : Option (KeyedTree κ δ) → KeyedTree κ δ)
    (cs : List (κ × KeyedTree κ δ)) :
    (node d (upsert k g cs)).under k =
      g ((node d cs).under k).head? :: ((node d cs).under k).tail := by
  rw [under, under, children_node, children_node]
  induction cs with
  | nil => simp [upsert]
  | cons p rest ih =>
    obtain ⟨i, c⟩ := p
    rw [upsert]
    split_ifs with hi
    · simp [hi]
    · rw [List.filter_cons_of_neg (by simpa using hi), List.filter_cons_of_neg (by simpa using hi)]
      exact ih

/-- The only child of its key, and the last one. -/
theorem under_erase_push (j k : κ) (t c : KeyedTree κ δ) :
    ((t.erase k).push k c).under j = if j = k then [c] else t.under j := by
  rw [under_push, under_erase]
  split_ifs <;> simp

theorem Alike.push (h : Alike s t) {c c' : KeyedTree κ δ} (hc : Alike c c') (k : κ) :
    Alike (s.push k c) (t.push k c') := by
  refine alike_iff.mpr ⟨h.data, fun j => ?_⟩
  rw [under_push, under_push]
  refine List.rel_append (h.under j) ?_
  split_ifs
  · exact .cons hc .nil
  · exact .nil

theorem Alike.erase (h : Alike s t) (k : κ) : Alike (s.erase k) (t.erase k) := by
  refine alike_iff.mpr ⟨h.data, fun j => ?_⟩
  rw [under_erase, under_erase]
  split_ifs
  · exact .nil
  · exact h.under j

variable [Inhabited δ]

theorem child_eq (k : κ) (t : KeyedTree κ δ) : t.child k = ((t.under k).head?).getD default := by
  rw [child, head?_under]

theorem Alike.child (h : Alike s t) (k : κ) : Alike (s.child k) (t.child k) := by
  rw [child_eq, child_eq]
  exact forall₂_head (h.under k) (.refl default)

/-- Below a child that is missing nothing is found. -/
theorem getD_walk_cons (k : κ) (p : List κ) (t : KeyedTree κ δ) :
    (walk (k :: p) t).getD default = (walk p (t.child k)).getD default := by
  rw [walk_cons, KeyedTree.child]
  cases t.children.lookup k with
  | some c => rfl
  | none => cases p <;> rfl

theorem Alike.getD_walk (h : Alike s t) (p : List κ) :
    Alike ((walk p s).getD default) ((walk p t).getD default) := by
  induction p generalizing s t with
  | nil => exact h
  | cons k p ih =>
    rw [getD_walk_cons, getD_walk_cons]
    exact ih (h.child k)

theorem Alike.forceAt {g g' : KeyedTree κ δ → KeyedTree κ δ}
    (hg : ∀ s t, Alike s t → Alike (g s) (g' t)) (p : List κ) (h : Alike s t) :
    Alike (forceAt g p s) (forceAt g' p t) := by
  induction p generalizing s t with
  | nil => exact hg s t h
  | cons k p ih =>
    refine alike_iff.mpr ⟨h.data, fun j => ?_⟩
    rw [forceAt_cons, forceAt_cons]
    by_cases hj : j = k
    · subst hj
      rw [under_upsert_self, under_upsert_self, node_eta, node_eta, ← child_eq, ← child_eq]
      exact .cons (ih (h.child j)) (forall₂_tail (h.under j))
    · rw [under_upsert_of_ne hj, under_upsert_of_ne hj, node_eta, node_eta]
      exact h.under j

/-! ### Changes beside each other -/

/-- Walk down a path, creating what is missing, and apply `g` at its end. On the way
every child is taken out and put back as the last one, and as the only one of its key. -/
def rebuildAt (g : KeyedTree κ δ → KeyedTree κ δ) : List κ → KeyedTree κ δ → KeyedTree κ δ
  | [], t => g t
  | k :: ks, t => (t.erase k).push k (rebuildAt g ks (t.child k))

theorem child_erase_push_self (k : κ) (t c : KeyedTree κ δ) :
    ((t.erase k).push k c).child k = c := by
  rw [child_eq, under_erase_push, if_pos rfl]
  rfl

theorem child_erase_push_of_ne {j k : κ} (hj : j ≠ k) (t c : KeyedTree κ δ) :
    ((t.erase k).push k c).child j = t.child j := by
  rw [child_eq, child_eq, under_erase_push, if_neg hj]

/-- Changes at two places, neither of which is below the other, commute. -/
theorem rebuildAt_comm {p q : List κ} (hp : ¬ p <+: q) (hq : ¬ q <+: p)
    (g h : KeyedTree κ δ → KeyedTree κ δ) (t : KeyedTree κ δ) :
    Alike (rebuildAt h q (rebuildAt g p t)) (rebuildAt g p (rebuildAt h q t)) := by
  induction p generalizing q t with
  | nil => exact absurd List.nil_prefix hp
  | cons k p ih =>
    cases q with
    | nil => exact absurd List.nil_prefix hq
    | cons j q =>
      by_cases hj : j = k
      · subst hj
        -- both go through the same child, and the rest of the paths diverge
        have hp' : ¬ p <+: q := fun hpre => hp (List.cons_prefix_cons.mpr ⟨rfl, hpre⟩)
        have hq' : ¬ q <+: p := fun hpre => hq (List.cons_prefix_cons.mpr ⟨rfl, hpre⟩)
        refine alike_iff.mpr ⟨rfl, fun i => ?_⟩
        simp only [KeyedTree.rebuildAt, child_erase_push_self, under_erase_push]
        split_ifs
        · exact .cons (ih hp' hq' (t.child j)) .nil
        · exact List.forall₂_refl _
      · refine alike_of_under rfl fun i => ?_
        simp only [KeyedTree.rebuildAt, child_erase_push_of_ne hj,
          child_erase_push_of_ne (Ne.symm hj), under_erase_push]
        by_cases hi : i = j
        · rw [if_pos hi, if_neg (by rw [hi]; exact hj), if_pos hi]
        · rw [if_neg hi, if_neg hi]

end KeyedTree

/-! ### Folds up to an equivalence -/

section Folds

variable {α σ : Type*} {R : σ → σ → Prop} {op : σ → α → σ}

theorem foldl_congr_rel (hop : ∀ a s t, R s t → R (op s a) (op t a)) (l : List α) {s t : σ}
    (h : R s t) : R (l.foldl op s) (l.foldl op t) := by
  induction l generalizing s t with
  | nil => exact h
  | cons a l ih => exact ih (hop a s t h)

/-- A fold may be taken in any order, up to an equivalence that its steps respect, where
any two of its steps commute up to it. -/
theorem foldl_rel_of_perm (hR : Equivalence R) (hop : ∀ a s t, R s t → R (op s a) (op t a))
    {l l' : List α} (hperm : l.Perm l')
    (hcomm : l.Pairwise fun a b => ∀ s, R (op (op s a) b) (op (op s b) a)) (s : σ) :
    R (l.foldl op s) (l'.foldl op s) := by
  induction hperm generalizing s with
  | nil => exact hR.refl s
  | cons a _ ih => exact ih (List.pairwise_cons.mp hcomm).2 (op s a)
  | swap a b l =>
    have hba := (List.pairwise_cons.mp hcomm).1 a List.mem_cons_self s
    exact foldl_congr_rel hop l hba
  | trans hp _ ih ih' =>
    have hsymm : ∀ {a b}, (∀ s, R (op (op s a) b) (op (op s b) a)) →
        ∀ s, R (op (op s b) a) (op (op s a) b) := fun h s => hR.symm (h s)
    exact hR.trans (ih hcomm s) (ih' ((hp.pairwise_iff hsymm).mp hcomm) s)

end Folds

end KurentoMediaServer.Foundations
