import KurentoMediaServer.Foundations.Alike

/-! What changes at places of a keyed tree leave behind. A change is found at its place,
and a path that neither leads to the place nor through it finds what it found before. So
after a run of changes at places beside each other, each place holds its own change. -/

namespace KurentoMediaServer.Foundations.KeyedTree

variable {κ δ : Type*} [DecidableEq κ] [Inhabited δ]

/-- Neither path leads through the end of the other. -/
def Divergent (p q : List κ) : Prop := ¬ p <+: q ∧ ¬ q <+: p

omit [DecidableEq κ] in
theorem Divergent.symm {p q : List κ} (h : Divergent p q) : Divergent q p := ⟨h.2, h.1⟩

omit [DecidableEq κ] in
/-- Paths that lead apart do so however they go on. -/
theorem Divergent.of_isPrefix {p q p' q' : List κ} (h : Divergent p q) (hp : p <+: p')
    (hq : q <+: q') : Divergent p' q' := by
  have hor {r : List κ} (hpr : p <+: r) (hqr : q <+: r) : False :=
    (List.prefix_or_prefix_of_prefix hpr hqr).elim h.1 h.2
  exact ⟨fun hle => hor (hp.trans hle) hq, fun hle => hor hp (hq.trans hle)⟩

omit [Inhabited δ] in
theorem lookup_erase_push_of_ne {j k : κ} (h : j ≠ k) (t c : KeyedTree κ δ) :
    ((t.erase k).push k c).children.lookup j = t.children.lookup j := by
  rw [children_push, List.lookup_append, lookup_erase_of_ne h, List.lookup_cons,
    beq_false_of_ne h, List.lookup_nil, Option.or_none]

omit [Inhabited δ] in
theorem lookup_erase_push_self (k : κ) (t c : KeyedTree κ δ) :
    ((t.erase k).push k c).children.lookup k = some c := by
  rw [children_push, List.lookup_append, lookup_erase_self, List.lookup_cons_self, Option.none_or]

theorem walk_rebuildAt (g : KeyedTree κ δ → KeyedTree κ δ) (p q : List κ) (t : KeyedTree κ δ) :
    walk (p ++ q) (rebuildAt g p t) = walk q (g ((walk p t).getD default)) := by
  induction p generalizing t with
  | nil => rfl
  | cons k p ih =>
    rw [List.cons_append, walk_cons, rebuildAt, lookup_erase_push_self, Option.bind_some, ih,
      getD_walk_cons]

theorem walk_rebuildAt_of_divergent {p q : List κ} (h : Divergent p q)
    (g : KeyedTree κ δ → KeyedTree κ δ) (t : KeyedTree κ δ) :
    walk q (rebuildAt g p t) = walk q t := by
  induction p generalizing q t with
  | nil => exact absurd List.nil_prefix h.1
  | cons k p ih =>
    cases q with
    | nil => exact absurd List.nil_prefix h.2
    | cons j q =>
      rw [walk_cons, walk_cons, rebuildAt]
      by_cases hj : j = k
      · subst hj
        have hpq : Divergent p q := ⟨fun hp => h.1 (List.cons_prefix_cons.mpr ⟨rfl, hp⟩),
          fun hq => h.2 (List.cons_prefix_cons.mpr ⟨rfl, hq⟩)⟩
        rw [lookup_erase_push_self, Option.bind_some, ih hpq, child]
        cases t.children.lookup j with
        | some c => rfl
        | none =>
          cases q with
          | nil => exact absurd List.nil_prefix hpq.2
          | cons => rfl
      · rw [lookup_erase_push_of_ne hj]

/-! ### Runs of changes -/

section Runs
variable {α : Type*} {place : α → List κ} {op : KeyedTree κ δ → α → KeyedTree κ δ}
  {change : α → KeyedTree κ δ → KeyedTree κ δ}

/-- A path beside all the places finds what it found before. -/
theorem walk_foldl_of_divergent {l : List α} {q : List κ}
    (hop : ∀ a ∈ l, ∀ t, op t a = rebuildAt (change a) (place a) t)
    (hq : ∀ a ∈ l, Divergent (place a) q) (t : KeyedTree κ δ) :
    walk q (l.foldl op t) = walk q t := by
  induction l generalizing t with
  | nil => rfl
  | cons a l ih =>
    rw [List.forall_mem_cons] at hop hq
    rw [List.foldl_cons, ih hop.2 hq.2, hop.1, walk_rebuildAt_of_divergent hq.1]

/-- Each place holds its own change of what was there. -/
theorem walk_foldl_place {l : List α}
    (hop : ∀ a ∈ l, ∀ t, op t a = rebuildAt (change a) (place a) t)
    (hl : l.Pairwise fun a b => Divergent (place a) (place b)) {a : α} (ha : a ∈ l)
    (t : KeyedTree κ δ) :
    walk (place a) (l.foldl op t) = some (change a ((walk (place a) t).getD default)) := by
  induction l generalizing t with
  | nil => cases ha
  | cons b l ih =>
    rw [List.forall_mem_cons] at hop
    rw [List.pairwise_cons] at hl
    rw [List.foldl_cons, hop.1]
    rcases List.mem_cons.mp ha with rfl | ha
    · rw [walk_foldl_of_divergent hop.2 fun b hb => (hl.1 b hb).symm]
      have hself := walk_rebuildAt (change a) (place a) [] t
      rwa [List.append_nil, walk_nil] at hself
    · rw [ih hop.2 hl.2 ha, walk_rebuildAt_of_divergent (hl.1 a ha)]

end Runs

end KurentoMediaServer.Foundations.KeyedTree
