import Mathlib.Data.List.Basic
import Mathlib.Data.List.Nodup

/-! Ordered trees with a datum at every node and keyed children. Keys may repeat
among siblings: look-up reads the first child of a key, while `At` speaks of every
node. The one way of changing a tree in place is `forceAt`, which walks down a
path, creates the nodes that are missing and applies a function to the last one. -/

namespace KurentoMediaServer.Foundations

/-- A tree with data in `δ` and children keyed by `κ`. -/
inductive KeyedTree (κ δ : Type*) where
  | node (data : δ) (children : List (κ × KeyedTree κ δ))

namespace KeyedTree

section AssociationLists

variable {κ α : Type*} [DecidableEq κ]

theorem lookup_filter (p : κ → Bool) (k : κ) (l : List (κ × α)) :
    (l.filter fun x => p x.1).lookup k = if p k then l.lookup k else none := by
  induction l with
  | nil => simp
  | cons x rest ih =>
    obtain ⟨j, x⟩ := x
    by_cases hj : p j = true
    · rw [List.filter_cons_of_pos (by simpa using hj), List.lookup_cons, List.lookup_cons, ih]
      by_cases hk : k = j
      · subst hk; simp [hj]
      · rw [beq_false_of_ne hk]
    · rw [List.filter_cons_of_neg (by simpa using hj), ih, List.lookup_cons]
      by_cases hk : k = j
      · subst hk; simp [hj]
      · rw [beq_false_of_ne hk]

theorem mem_of_lookup {k : κ} {x : α} {l : List (κ × α)} (h : l.lookup k = some x) :
    (k, x) ∈ l := by
  obtain ⟨l₁, l₂, rfl, -⟩ := List.lookup_eq_some_iff.mp h
  simp

/-- Among distinct keys the look-up finds every pair. -/
theorem lookup_of_mem {k : κ} {x : α} {l : List (κ × α)} (hl : (l.map Prod.fst).Nodup)
    (h : (k, x) ∈ l) : l.lookup k = some x := by
  induction l with
  | nil => simp at h
  | cons y rest ih =>
    obtain ⟨j, y⟩ := y
    simp only [List.map_cons, List.nodup_cons] at hl
    rcases List.mem_cons.mp h with he | hm
    · cases he
      exact List.lookup_cons_self
    · have hne : k ≠ j := by
        rintro rfl
        exact hl.1 (List.mem_map_of_mem hm)
      rw [List.lookup_cons, beq_false_of_ne hne]
      exact ih hl.2 hm

theorem lookup_eq_none_of_notMem {k : κ} {l : List (κ × α)} (h : k ∉ l.map Prod.fst) :
    l.lookup k = none := by
  apply List.lookup_eq_none_iff.mpr
  intro x hx
  rw [bne_iff_ne]
  rintro rfl
  exact h (List.mem_map_of_mem hx)

/-- Apply `g` to the first value of a key, or append the key with `g none`. -/
def upsert (k : κ) (g : Option α → α) : List (κ × α) → List (κ × α)
  | [] => [(k, g none)]
  | (j, x) :: rest => if j = k then (j, g (some x)) :: rest else (j, x) :: upsert k g rest

theorem lookup_upsert_self (k : κ) (g : Option α → α) (l : List (κ × α)) :
    (upsert k g l).lookup k = some (g (l.lookup k)) := by
  induction l with
  | nil => simp [upsert]
  | cons x rest ih =>
    obtain ⟨j, x⟩ := x
    simp only [upsert]
    split_ifs with h
    · subst h; simp
    · have hne : (k == j) = false := beq_false_of_ne (Ne.symm h)
      rw [List.lookup_cons, List.lookup_cons, hne]
      exact ih

theorem lookup_upsert_of_ne {j k : κ} (h : j ≠ k) (g : Option α → α) (l : List (κ × α)) :
    (upsert k g l).lookup j = l.lookup j := by
  induction l with
  | nil => simp [upsert, h]
  | cons x rest ih =>
    obtain ⟨i, x⟩ := x
    simp only [upsert]
    split_ifs with hi
    · have hne : (j == i) = false := beq_false_of_ne (by rw [hi]; exact h)
      rw [List.lookup_cons, List.lookup_cons, hne]
    · rw [List.lookup_cons, List.lookup_cons, ih]

/-- A child of the changed list is an old one, or the one that was changed. -/
theorem of_mem_upsert {k : κ} {g : Option α → α} {l : List (κ × α)} {y : κ × α}
    (h : y ∈ upsert k g l) : y ∈ l ∨ y = (k, g (l.lookup k)) := by
  induction l with
  | nil => exact Or.inr (by simpa [upsert] using h)
  | cons x rest ih =>
    obtain ⟨j, x⟩ := x
    simp only [upsert] at h
    split_ifs at h with hj
    · subst hj
      rcases List.mem_cons.mp h with rfl | hm
      · exact Or.inr (by simp)
      · exact Or.inl (List.mem_cons_of_mem _ hm)
    · have hne : (k == j) = false := beq_false_of_ne (Ne.symm hj)
      rcases List.mem_cons.mp h with rfl | hm
      · exact Or.inl List.mem_cons_self
      · rw [List.lookup_cons, hne]
        exact (ih hm).imp_left (List.mem_cons_of_mem _)

/-- An old child stays, unless it is the one that was changed. -/
theorem mem_upsert_of_mem {k : κ} {g : Option α → α} {l : List (κ × α)} {y : κ × α}
    (h : y ∈ l) : y ∈ upsert k g l ∨ y.1 = k ∧ l.lookup k = some y.2 := by
  induction l with
  | nil => simp at h
  | cons x rest ih =>
    obtain ⟨j, x⟩ := x
    simp only [upsert]
    split_ifs with hj
    · subst hj
      rcases List.mem_cons.mp h with rfl | hm
      · exact Or.inr ⟨rfl, by simp⟩
      · exact Or.inl (List.mem_cons_of_mem _ hm)
    · have hne : (k == j) = false := beq_false_of_ne (Ne.symm hj)
      rcases List.mem_cons.mp h with rfl | hm
      · exact Or.inl List.mem_cons_self
      · rw [List.lookup_cons, hne]
        exact (ih hm).imp_left (List.mem_cons_of_mem _)

/-- Only what is made of the first value of the key matters. -/
theorem upsert_congr {k : κ} {g g' : Option α → α} {l : List (κ × α)}
    (h : g (l.lookup k) = g' (l.lookup k)) : upsert k g l = upsert k g' l := by
  induction l with
  | nil =>
    rw [List.lookup_nil] at h
    rw [upsert, upsert, h]
  | cons x rest ih =>
    obtain ⟨j, x⟩ := x
    by_cases hj : j = k
    · subst hj
      rw [List.lookup_cons_self] at h
      rw [upsert, upsert, if_pos rfl, if_pos rfl, h]
    · rw [List.lookup_cons, beq_false_of_ne (Ne.symm hj)] at h
      rw [upsert, upsert, if_neg hj, if_neg hj, ih h]

theorem map_fst_upsert (k : κ) (g : Option α → α) (l : List (κ × α)) :
    (upsert k g l).map Prod.fst =
      if k ∈ l.map Prod.fst then l.map Prod.fst else l.map Prod.fst ++ [k] := by
  induction l with
  | nil => simp [upsert]
  | cons x rest ih =>
    obtain ⟨j, x⟩ := x
    simp only [upsert]
    split_ifs with hj hm hm
    · rfl
    · exact absurd (by simp [hj]) hm
    · have hr : k ∈ rest.map Prod.fst := (List.mem_cons.mp hm).resolve_left (Ne.symm hj)
      simp [ih, hr]
    · have hr : k ∉ rest.map Prod.fst := fun h => hm (List.mem_cons_of_mem _ h)
      rw [List.map_cons, List.map_cons, ih, if_neg hr]
      rfl

theorem nodup_upsert {k : κ} {g : Option α → α} {l : List (κ × α)}
    (h : (l.map Prod.fst).Nodup) : ((upsert k g l).map Prod.fst).Nodup := by
  rw [map_fst_upsert]
  split_ifs with hk
  · exact h
  · exact List.nodup_append.mpr ⟨h, List.nodup_singleton k, by
      intro a ha b hb
      rw [List.mem_singleton.mp hb]
      rintro rfl
      exact hk ha⟩

end AssociationLists

variable {κ δ : Type*}

def data : KeyedTree κ δ → δ
  | .node d _ => d

def children : KeyedTree κ δ → List (κ × KeyedTree κ δ)
  | .node _ cs => cs

@[simp] theorem data_node (d : δ) (cs : List (κ × KeyedTree κ δ)) : (node d cs).data = d := rfl

@[simp] theorem children_node (d : δ) (cs : List (κ × KeyedTree κ δ)) :
    (node d cs).children = cs := rfl

@[simp] theorem node_eta (t : KeyedTree κ δ) : node t.data t.children = t := by
  cases t; rfl

/-- The keys of the children, in order. -/
def keys (t : KeyedTree κ δ) : List κ := t.children.map Prod.fst

instance [Inhabited δ] : Inhabited (KeyedTree κ δ) := ⟨node default []⟩

@[simp] theorem data_default [Inhabited δ] : (default : KeyedTree κ δ).data = default := rfl

@[simp] theorem children_default [Inhabited δ] : (default : KeyedTree κ δ).children = [] := rfl

/-- Induction over the children of a node. -/
@[elab_as_elim, induction_eliminator]
theorem induct {motive : KeyedTree κ δ → Prop}
    (node : ∀ d cs, (∀ p ∈ cs, motive p.2) → motive (.node d cs)) (t : KeyedTree κ δ) :
    motive t := by
  refine @KeyedTree.rec κ δ motive (fun cs => ∀ p ∈ cs, motive p.2) (fun p => motive p.2)
    node ?_ ?_ ?_ t
  · intro p hp
    simp at hp
  · intro p rest hp hrest q hq
    rcases List.mem_cons.mp hq with rfl | hm
    · exact hp
    · exact hrest q hm
  · exact fun _ _ h => h

/-! ### Every node -/

/-- `At path s t`: the tree `t` has the node `s` at the path, through any of the
siblings that share a key. -/
inductive At : List κ → KeyedTree κ δ → KeyedTree κ δ → Prop
  | here (t : KeyedTree κ δ) : At [] t t
  | child {k : κ} {q : List κ} {c s t : KeyedTree κ δ} (hc : (k, c) ∈ t.children)
      (hs : At q s c) : At (k :: q) s t

@[simp] theorem at_nil {s t : KeyedTree κ δ} : At [] s t ↔ s = t := by
  constructor
  · rintro ⟨⟩; rfl
  · rintro rfl; exact .here _

theorem at_cons {k : κ} {q : List κ} {s t : KeyedTree κ δ} :
    At (k :: q) s t ↔ ∃ c, (k, c) ∈ t.children ∧ At q s c := by
  constructor
  · rintro (_ | ⟨hc, hs⟩); exact ⟨_, hc, hs⟩
  · rintro ⟨c, hc, hs⟩; exact .child hc hs

theorem At.append {p q : List κ} {r s t : KeyedTree κ δ} (h : At p s t) (hr : At q r s) :
    At (p ++ q) r t := by
  induction h with
  | here => exact hr
  | child hc _ ih => exact .child hc (ih hr)

/-- Every node of the tree has the property. -/
def All (P : KeyedTree κ δ → Prop) (t : KeyedTree κ δ) : Prop := ∀ q s, At q s t → P s

theorem all_iff {P : KeyedTree κ δ → Prop} {t : KeyedTree κ δ} :
    All P t ↔ P t ∧ ∀ p ∈ t.children, All P p.2 := by
  constructor
  · intro h
    exact ⟨h [] t (.here t), fun p hp q s hs => h (p.1 :: q) s (.child hp hs)⟩
  · rintro ⟨ht, hc⟩ q s (_ | ⟨hm, hs⟩)
    · exact ht
    · exact hc _ hm _ _ hs

@[simp] theorem all_node {P : KeyedTree κ δ → Prop} {d : δ} {cs : List (κ × KeyedTree κ δ)} :
    All P (node d cs) ↔ P (node d cs) ∧ ∀ p ∈ cs, All P p.2 := all_iff

/-! ### Look-up by path -/

variable [DecidableEq κ]

/-- The node at a path, through the first child of every key. -/
def walk : List κ → KeyedTree κ δ → Option (KeyedTree κ δ)
  | [], t => some t
  | k :: ks, t => (t.children.lookup k).bind (walk ks)

@[simp] theorem walk_nil (t : KeyedTree κ δ) : walk [] t = some t := rfl

theorem walk_cons (k : κ) (ks : List κ) (t : KeyedTree κ δ) :
    walk (k :: ks) t = (t.children.lookup k).bind (walk ks) := rfl

theorem walk_append (p q : List κ) (t : KeyedTree κ δ) :
    walk (p ++ q) t = (walk p t).bind (walk q) := by
  induction p generalizing t with
  | nil => rfl
  | cons k p ih =>
    rw [List.cons_append, walk_cons, walk_cons, Option.bind_assoc]
    congr 1
    exact funext ih

theorem at_of_walk {q : List κ} {s t : KeyedTree κ δ} (h : walk q t = some s) : At q s t := by
  induction q generalizing t with
  | nil => exact at_nil.mpr (Option.some.inj h).symm
  | cons k q ih =>
    obtain ⟨c, hc, hs⟩ := Option.bind_eq_some_iff.mp h
    exact .child (mem_of_lookup hc) (ih hs)

/-- Where siblings have distinct keys, look-up reaches every node. -/
theorem walk_of_at {q : List κ} {s t : KeyedTree κ δ} (ht : All (fun n => n.keys.Nodup) t)
    (h : At q s t) : walk q t = some s := by
  induction h with
  | here => rfl
  | child hc _ ih =>
    obtain ⟨hk, hcs⟩ := all_iff.mp ht
    rw [walk_cons, lookup_of_mem hk hc]
    exact ih (hcs _ hc)

/-! ### Changes -/

/-- Append a child. -/
def push (t : KeyedTree κ δ) (k : κ) (c : KeyedTree κ δ) : KeyedTree κ δ :=
  node t.data (t.children ++ [(k, c)])

/-- Remove the children of a key. -/
def erase (t : KeyedTree κ δ) (k : κ) : KeyedTree κ δ :=
  node t.data (t.children.filter fun p => p.1 ≠ k)

/-- Walk down a path, creating what is missing, and apply `g` at its end. -/
def forceAt [Inhabited δ] (g : KeyedTree κ δ → KeyedTree κ δ) :
    List κ → KeyedTree κ δ → KeyedTree κ δ
  | [], t => g t
  | k :: ks, t => node t.data (upsert k (fun o => forceAt g ks (o.getD default)) t.children)

omit [DecidableEq κ] in
@[simp] theorem data_push (t : KeyedTree κ δ) (k : κ) (c : KeyedTree κ δ) : (t.push k c).data = t.data := rfl

omit [DecidableEq κ] in
@[simp] theorem children_push (t : KeyedTree κ δ) (k : κ) (c : KeyedTree κ δ) :
    (t.push k c).children = t.children ++ [(k, c)] := rfl

@[simp] theorem data_erase (k : κ) (t : KeyedTree κ δ) : (t.erase k).data = t.data := rfl

theorem children_erase (k : κ) (t : KeyedTree κ δ) :
    (t.erase k).children = t.children.filter fun p => p.1 ≠ k := rfl

theorem lookup_erase_of_ne {j k : κ} (h : j ≠ k) (t : KeyedTree κ δ) :
    (t.erase k).children.lookup j = t.children.lookup j := by
  have hf := lookup_filter (fun i => decide (i ≠ k)) j t.children
  rw [children_erase, hf, if_pos (by simpa using h)]

theorem lookup_erase_self (k : κ) (t : KeyedTree κ δ) : (t.erase k).children.lookup k = none := by
  have hf := lookup_filter (fun i => decide (i ≠ k)) k t.children
  rw [children_erase, hf, if_neg (by simp)]

theorem walk_erase_of_ne {j k : κ} (h : j ≠ k) (q : List κ) (t : KeyedTree κ δ) :
    walk (j :: q) (t.erase k) = walk (j :: q) t := by
  rw [walk_cons, walk_cons, lookup_erase_of_ne h]

/-- Erasing only takes nodes away below the root. -/
theorem at_erase {q : List κ} {k : κ} {s t : KeyedTree κ δ} (h : At q s (t.erase k)) (hq : q ≠ []) :
    At q s t := by
  cases h with
  | here => exact absurd rfl hq
  | child hc hs => exact .child (List.mem_filter.mp hc).1 hs

theorem at_erase_of_ne {q : List κ} {j k : κ} {s t : KeyedTree κ δ} (h : At (j :: q) s t)
    (hj : j ≠ k) : At (j :: q) s (t.erase k) := by
  obtain ⟨c, hc, hs⟩ := at_cons.mp h
  exact .child (List.mem_filter.mpr ⟨hc, by simpa using hj⟩) hs

variable [Inhabited δ]

@[simp] theorem forceAt_nil (g : KeyedTree κ δ → KeyedTree κ δ) (t : KeyedTree κ δ) :
    forceAt g [] t = g t := rfl

theorem forceAt_cons (g : KeyedTree κ δ → KeyedTree κ δ) (k : κ) (ks : List κ)
    (t : KeyedTree κ δ) : forceAt g (k :: ks) t =
      node t.data (upsert k (fun o => forceAt g ks (o.getD default)) t.children) := rfl

/-- A change does not touch the data above its place. -/
@[simp] theorem data_forceAt (g : KeyedTree κ δ → KeyedTree κ δ) (k : κ) (ks : List κ)
    (t : KeyedTree κ δ) : (forceAt g (k :: ks) t).data = t.data := rfl

/-- What stands at the place and below after a change. -/
theorem walk_forceAt_append (g : KeyedTree κ δ → KeyedTree κ δ) (p q : List κ)
    (t : KeyedTree κ δ) :
    walk (p ++ q) (forceAt g p t) = walk q (g ((walk p t).getD default)) := by
  induction p generalizing t with
  | nil => rfl
  | cons k p ih =>
    rw [List.cons_append, walk_cons, forceAt_cons, children_node, lookup_upsert_self,
      Option.bind_some, ih, walk_cons]
    cases hk : t.children.lookup k with
    | some c => rfl
    | none => cases p <;> rfl

/-- On the way to its place a change keeps the nodes and their data. -/
theorem walk_forceAt_prefix (g : KeyedTree κ δ → KeyedTree κ δ) (q u : List κ)
    (t : KeyedTree κ δ) :
    walk q (forceAt g (q ++ u) t) = some (forceAt g u ((walk q t).getD default)) := by
  induction q generalizing t with
  | nil => rfl
  | cons k q ih =>
    rw [List.cons_append, walk_cons, forceAt_cons, children_node, lookup_upsert_self,
      Option.bind_some, ih, walk_cons]
    cases hk : t.children.lookup k with
    | some c => rfl
    | none => cases q <;> rfl

/-- The nodes after a change: old ones, the ones at and below its place, and the
ones on the way there. -/
theorem at_forceAt {g : KeyedTree κ δ → KeyedTree κ δ} {p q : List κ} {s t : KeyedTree κ δ}
    (h : At q s (forceAt g p t)) :
    (q ≠ [] ∧ At q s t) ∨
    (∃ r, q = p ++ r ∧ At r s (g ((walk p t).getD default))) ∨
    (∃ u, p = q ++ u ∧ u ≠ [] ∧ s = forceAt g u ((walk q t).getD default)) := by
  induction p generalizing q t with
  | nil => exact Or.inr (Or.inl ⟨q, rfl, h⟩)
  | cons k p ih =>
    cases h with
    | here => exact Or.inr (Or.inr ⟨k :: p, rfl, by simp, rfl⟩)
    | @child j q c s _ hc hs =>
      rcases of_mem_upsert hc with hm | he
      · exact Or.inl ⟨by simp, .child hm hs⟩
      cases he
      have hw : ∀ r, ((walk (k :: r) t).getD default) =
          (walk r ((t.children.lookup k).getD default)).getD default := by
        intro r
        rw [walk_cons]
        cases t.children.lookup k with
        | some c => rfl
        | none => cases r <;> rfl
      rcases ih hs with ⟨hq, ha⟩ | ⟨r, hr, ha⟩ | ⟨u, hu, hne, rfl⟩
      · refine Or.inl ⟨by simp, ?_⟩
        cases hk : t.children.lookup k with
        | some c => rw [hk] at ha; exact .child (mem_of_lookup hk) ha
        | none =>
          rw [hk] at ha
          cases ha with
          | here => exact absurd rfl hq
          | child hc _ => simp at hc
      · exact Or.inr (Or.inl ⟨r, by rw [hr, List.cons_append], by rw [hw]; exact ha⟩)
      · exact Or.inr (Or.inr ⟨u, by rw [hu, List.cons_append], hne, by rw [hw]⟩)

/-! ### A push on a path -/

/-- The pushed child is there. -/
theorem at_forceAt_push (p : List κ) (k : κ) (c t : KeyedTree κ δ) :
    At (p ++ [k]) c (forceAt (fun parent => parent.push k c) p t) := by
  have hw := walk_forceAt_append (fun parent => parent.push k c) p [] t
  rw [List.append_nil] at hw
  refine (at_of_walk hw).append (.child ?_ (.here c))
  simp

theorem children_forceAt_push_ne_nil (p : List κ) (k : κ) (c t : KeyedTree κ δ) :
    (forceAt (fun parent => parent.push k c) p t).children ≠ [] := by
  cases p with
  | nil => simp
  | cons f p =>
    have hm := lookup_upsert_self f
      (fun o => forceAt (fun parent => parent.push k c) p (o.getD default)) t.children
    exact List.ne_nil_of_mem (mem_of_lookup hm)

/-- A node after a push is an old one, belongs to the pushed child, or is on the way to
it and has its old data. -/
theorem of_at_forceAt_push {p q : List κ} {k : κ} {c s t : KeyedTree κ δ}
    (h : At q s (forceAt (fun parent => parent.push k c) p t)) :
    (q ≠ [] ∧ At q s t) ∨ (∃ r, q = p ++ k :: r ∧ At r s c) ∨
      (q <+: p ∧ s.data = ((walk q t).getD default).data) := by
  rcases at_forceAt h with ho | ⟨r, rfl, hr⟩ | ⟨u, rfl, hu, rfl⟩
  · exact Or.inl ho
  · cases hr with
    | here => exact Or.inr (Or.inr ⟨by simp, by simp⟩)
    | @child j r x _ _ hx hs =>
      rw [children_push, List.mem_append, List.mem_singleton] at hx
      rcases hx with hx | hx
      · left
        refine ⟨by simp, ?_⟩
        cases hw : walk p t with
        | none => simp [hw] at hx
        | some n =>
          rw [hw] at hx
          exact (at_of_walk hw).append (.child hx hs)
      · cases hx
        exact Or.inr (Or.inl ⟨r, rfl, hs⟩)
  · refine Or.inr (Or.inr ⟨List.prefix_append q u, ?_⟩)
    cases u with
    | nil => exact absurd rfl hu
    | cons i u => rw [data_forceAt]

/-- No node is lost, and none that had children is left without. -/
theorem at_forceAt_push_of_at {p q : List κ} {k : κ} {c s t : KeyedTree κ δ} (h : At q s t) :
    ∃ s', At q s' (forceAt (fun parent => parent.push k c) p t) ∧ s'.data = s.data ∧
      (s.children ≠ [] → s'.children ≠ []) := by
  induction p generalizing q t with
  | nil =>
    cases h with
    | here => exact ⟨_, .here _, rfl, fun _ => by simp⟩
    | child hc hs => exact ⟨s, .child (List.mem_append_left _ hc) hs, rfl, id⟩
  | cons f p ih =>
    cases h with
    | here =>
      exact ⟨_, .here _, rfl, fun _ => children_forceAt_push_ne_nil (f :: p) k c s⟩
    | @child j q x _ _ hc hs =>
      rcases mem_upsert_of_mem (k := f)
        (g := fun o => forceAt (fun parent => parent.push k c) p (o.getD default)) hc with hm | hm
      · exact ⟨s, .child hm hs, rfl, id⟩
      · obtain ⟨rfl, hl⟩ := hm
        obtain ⟨s', hs', hd, hne⟩ := ih hs
        have hn := lookup_upsert_self j
          (fun o => forceAt (fun parent => parent.push k c) p (o.getD default)) t.children
        rw [hl] at hn
        exact ⟨s', .child (mem_of_lookup hn) hs', hd, hne⟩

/-- A push leaves the look-up of every path beside the pushed child alone. -/
theorem walk_forceAt_push_of_diverge {p q : List κ} {k : κ} (hp : ¬ p ++ [k] <+: q)
    (hq : ¬ q <+: p ++ [k]) (c t : KeyedTree κ δ) :
    walk q (forceAt (fun parent => parent.push k c) p t) = walk q t := by
  induction p generalizing q t with
  | nil =>
    cases q with
    | nil => exact absurd List.nil_prefix hq
    | cons j q =>
      have hne : j ≠ k := by
        rintro rfl
        exact hp (by simp)
      rw [forceAt_nil, walk_cons, walk_cons, children_push, List.lookup_append, List.lookup_cons,
        List.lookup_nil, beq_false_of_ne hne, Option.or_none]
  | cons f p ih =>
    cases q with
    | nil => exact absurd List.nil_prefix hq
    | cons j q =>
      rw [forceAt_cons, walk_cons, walk_cons, children_node]
      by_cases hj : j = f
      · subst hj
        have hp' : ¬ p ++ [k] <+: q := fun h => hp (List.cons_prefix_cons.mpr ⟨rfl, h⟩)
        have hq' : ¬ q <+: p ++ [k] := fun h => hq (List.cons_prefix_cons.mpr ⟨rfl, h⟩)
        rw [lookup_upsert_self, Option.bind_some, ih hp' hq']
        cases hk : t.children.lookup j with
        | some c => rfl
        | none =>
          cases q with
          | nil => exact absurd List.nil_prefix hq'
          | cons i q => rfl
      · rw [lookup_upsert_of_ne hj]

end KeyedTree

end KurentoMediaServer.Foundations
