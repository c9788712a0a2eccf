import KurentoMediaServer.Foundations.KeyedTree

/-! The right-biased deep merge of two keyed trees. Which nodes are merged child by
child is a parameter: a composite node of the right tree is laid over the left one,
any other node of it replaces what the left tree has. -/

namespace KurentoMediaServer.Foundations.KeyedTree

variable {κ δ : Type*}

/-- `P` holds of the root and of every composite node below composite nodes. -/
inductive Within (composite : KeyedTree κ δ → Bool) (P : KeyedTree κ δ → Prop) :
    KeyedTree κ δ → Prop
  | intro {t : KeyedTree κ δ} (root : P t)
      (below : ∀ p ∈ t.children, composite p.2 = true → Within composite P p.2) :
      Within composite P t

variable {composite : KeyedTree κ δ → Bool} {P Q : KeyedTree κ δ → Prop} {a b : KeyedTree κ δ}

theorem Within.root (h : Within composite P b) : P b := by
  cases h; assumption

theorem Within.child (h : Within composite P b) {p : κ × KeyedTree κ δ} (hp : p ∈ b.children)
    (hc : composite p.2 = true) : Within composite P p.2 := by
  cases h with
  | intro _ hb => exact hb p hp hc

theorem Within.imp (h : Within composite P b) (hi : ∀ t, P t → Q t) : Within composite Q b := by
  induction h with
  | intro hr _ ih => exact .intro (hi _ hr) ih

variable [DecidableEq κ] [Inhabited δ]

/-- The child of a key, or an empty tree. -/
def child (k : κ) (t : KeyedTree κ δ) : KeyedTree κ δ := (t.children.lookup k).getD default

theorem walk_default (k : κ) (ks : List κ) : walk (k :: ks) (default : KeyedTree κ δ) = none := rfl

theorem walk_child {k : κ} {c : KeyedTree κ δ} (h : a.children.lookup k = some c) :
    a.child k = c := by
  rw [child, h, Option.getD_some]

mutual

/-- The children of the left tree whose key the right tree lacks, and then the right
tree's children, the composite ones laid over the left tree's. -/
def deepMerge (composite : KeyedTree κ δ → Bool) (a : KeyedTree κ δ) :
    KeyedTree κ δ → KeyedTree κ δ
  | .node _ cs =>
    .node a.data ((a.children.filter fun p => p.1 ∉ cs.map Prod.fst) ++ overlay composite a cs)

def overlay (composite : KeyedTree κ δ → Bool) (a : KeyedTree κ δ) :
    List (κ × KeyedTree κ δ) → List (κ × KeyedTree κ δ)
  | [] => []
  | (k, sub) :: rest =>
    (k, if composite sub then deepMerge composite (a.child k) sub else sub) ::
      overlay composite a rest

end

/-- What the merged tree has under a key of the right tree. -/
def merged (composite : KeyedTree κ δ → Bool) (a sub : KeyedTree κ δ) : KeyedTree κ δ :=
  if composite sub then deepMerge composite a sub else sub

theorem overlay_eq_map (cs : List (κ × KeyedTree κ δ)) :
    overlay composite a cs = cs.map fun p => (p.1, merged composite (a.child p.1) p.2) := by
  induction cs with
  | nil => simp [overlay]
  | cons p rest ih => rw [overlay, ih]; rfl

theorem deepMerge_eq (a b : KeyedTree κ δ) : deepMerge composite a b =
    .node a.data ((a.children.filter fun p => p.1 ∉ b.keys) ++
      b.children.map fun p => (p.1, merged composite (a.child p.1) p.2)) := by
  cases b with
  | node d cs => rw [deepMerge, overlay_eq_map]; rfl

@[simp] theorem data_deepMerge (a b : KeyedTree κ δ) : (deepMerge composite a b).data = a.data := by
  rw [deepMerge_eq]; rfl

omit [Inhabited δ] in
theorem lookup_map_snd (f : κ → KeyedTree κ δ → KeyedTree κ δ) (k : κ)
    (cs : List (κ × KeyedTree κ δ)) :
    (cs.map fun p => (p.1, f p.1 p.2)).lookup k = (cs.lookup k).map (f k) := by
  induction cs with
  | nil => rfl
  | cons p rest ih =>
    rw [List.map_cons, List.lookup_cons, List.lookup_cons, ih]
    by_cases h : k = p.1
    · simp [h]
    · simp [beq_false_of_ne h]

/-- Look-up in the merged tree. -/
theorem lookup_deepMerge (a b : KeyedTree κ δ) (k : κ) :
    (deepMerge composite a b).children.lookup k =
      match b.children.lookup k with
      | some sub => some (merged composite (a.child k) sub)
      | none => a.children.lookup k := by
  have hf := lookup_filter (fun j => decide (j ∉ b.keys)) k a.children
  rw [deepMerge_eq, children_node, List.lookup_append, hf,
    lookup_map_snd (fun j sub => merged composite (a.child j) sub)]
  by_cases hk : k ∈ b.keys
  · obtain ⟨p, hp, rfl⟩ := List.mem_map.mp hk
    have hs : (b.children.lookup p.1).isSome = true :=
      List.lookup_isSome_iff.mpr ⟨p, hp, by simp⟩
    obtain ⟨sub, hsub⟩ := Option.isSome_iff_exists.mp hs
    rw [hsub, if_neg (by simpa using hk)]
    rfl
  · rw [lookup_eq_none_of_notMem hk, if_pos (by simpa using hk)]
    simp

/-- Every node of the left tree is kept, with its data, unless a node of the right
tree that is not composite stands on the way to it; where the right tree has nothing,
it is kept as it is. -/
theorem walk_deepMerge_left {p : List κ} {n : KeyedTree κ δ} (h : walk p a = some n)
    (hc : ∀ q m, q <+: p → q ≠ [] → walk q b = some m → composite m = true) :
    ∃ n', walk p (deepMerge composite a b) = some n' ∧ n'.data = n.data ∧
      (walk p b = none → n' = n) := by
  induction p generalizing a b with
  | nil =>
    rw [walk_nil, Option.some.injEq] at h
    exact ⟨_, rfl, by rw [data_deepMerge, h], fun hn => by simp at hn⟩
  | cons k p ih =>
    obtain ⟨c, hk, hn⟩ := Option.bind_eq_some_iff.mp h
    rw [walk_cons, lookup_deepMerge]
    cases hb : b.children.lookup k with
    | none =>
      exact ⟨n, by rw [hk]; exact hn, rfl, fun _ => rfl⟩
    | some sub =>
      have hs : composite sub = true :=
        hc [k] sub (List.cons_prefix_cons.mpr ⟨rfl, List.nil_prefix⟩) (by simp)
          (by rw [walk_cons, hb]; rfl)
      have hwb : ∀ q, walk (k :: q) b = walk q sub := fun q => by rw [walk_cons, hb]; rfl
      have hrest := ih hn (b := sub) fun q m hq hne hm =>
        hc (k :: q) m (List.cons_prefix_cons.mpr ⟨rfl, hq⟩) (by simp) (by rw [hwb]; exact hm)
      simpa only [merged, hs, if_true, walk_child hk, hwb, Option.bind_some] using hrest

/-- Every node of the right tree that is not composite is in the merged tree as it is. -/
theorem walk_deepMerge_right {p : List κ} {m : KeyedTree κ δ} (hp : p ≠ [])
    (h : walk p b = some m) (hm : composite m = false) :
    walk p (deepMerge composite a b) = some m := by
  induction p generalizing a b with
  | nil => exact absurd rfl hp
  | cons k p ih =>
    obtain ⟨sub, hb, hw⟩ := Option.bind_eq_some_iff.mp h
    rw [walk_cons, lookup_deepMerge, hb]
    show walk p (merged composite (a.child k) sub) = some m
    by_cases hs : composite sub = true
    · rw [merged, if_pos hs]
      apply ih _ hw
      rintro rfl
      rw [walk_nil, Option.some.injEq] at hw
      rw [hw, hm] at hs
      exact Bool.false_ne_true hs
    · rw [merged, if_neg hs]
      exact hw

/-- Laying the same tree over the result once more changes nothing. -/
theorem deepMerge_deepMerge (hb : Within composite (fun n => n.keys.Nodup) b)
    (a : KeyedTree κ δ) :
    deepMerge composite (deepMerge composite a b) b = deepMerge composite a b := by
  induction hb generalizing a with
  | @intro b hd hbelow ih =>
    have hleft : ((deepMerge composite a b).children.filter fun p => p.1 ∉ b.keys) =
        a.children.filter fun p => p.1 ∉ b.keys := by
      rw [deepMerge_eq, children_node, List.filter_append, List.filter_filter]
      have hr : (b.children.map fun p => (p.1, merged composite (a.child p.1) p.2)).filter
          (fun p => p.1 ∉ b.keys) = [] := by
        apply List.filter_eq_nil_iff.mpr
        intro p hp
        obtain ⟨q, hq, rfl⟩ := List.mem_map.mp hp
        have hk : q.1 ∈ b.keys := List.mem_map_of_mem hq
        simpa using hk
      rw [hr, List.append_nil]
      simp
    have hright : ∀ p ∈ b.children,
        merged composite ((deepMerge composite a b).child p.1) p.2 =
          merged composite (a.child p.1) p.2 := by
      intro p hp
      have hl : (deepMerge composite a b).child p.1 = merged composite (a.child p.1) p.2 := by
        rw [child, lookup_deepMerge, lookup_of_mem hd hp]
        rfl
      by_cases hc : composite p.2 = true
      · simp only [hl, merged, hc, if_true]
        exact ih p hp hc _
      · simp only [merged, hc, if_false, Bool.false_eq_true]
    rw [deepMerge_eq (deepMerge composite a b) b, hleft, data_deepMerge, deepMerge_eq a b]
    congr 2
    apply List.map_congr_left
    intro p hp
    rw [← deepMerge_eq, hright p hp]

/-- Siblings stay distinct. -/
theorem nodup_deepMerge (ha : All (fun n => n.keys.Nodup) a) (hb : All (fun n => n.keys.Nodup) b) :
    All (fun n => n.keys.Nodup) (deepMerge composite a b) := by
  induction b generalizing a with
  | node d cs ih =>
    obtain ⟨hka, hca⟩ := all_iff.mp ha
    obtain ⟨hkb, hcb⟩ := all_iff.mp hb
    have hchild : ∀ k, All (fun n => n.keys.Nodup) (a.child k) := by
      intro k
      rw [child]
      cases hk : a.children.lookup k with
      | none => exact all_iff.mpr ⟨List.nodup_nil, by simp⟩
      | some c => exact hca _ (mem_of_lookup hk)
    rw [deepMerge_eq, all_node]
    constructor
    · rw [keys, children_node, List.map_append, List.map_map]
      refine List.nodup_append.mpr ⟨(List.filter_sublist.map Prod.fst).nodup hka, hkb, ?_⟩
      intro x hx y hy
      obtain ⟨p, hp, rfl⟩ := List.mem_map.mp hx
      rintro rfl
      exact of_decide_eq_true (List.mem_filter.mp hp).2 hy
    · intro p hp
      rcases List.mem_append.mp hp with hm | hm
      · exact hca p (List.mem_filter.mp hm).1
      · obtain ⟨q, hq, rfl⟩ := List.mem_map.mp hm
        show All _ (merged composite (a.child q.1) q.2)
        rw [merged]
        split_ifs
        · exact ih q hq (hchild q.1) (hcb q hq)
        · exact hcb q hq

end KurentoMediaServer.Foundations.KeyedTree
