import KurentoMediaServer.Config.Serialise

/-! The paths that `mergePropertyTrees` hands to `get_child` and `add_child`. An array
below the root is copied before its keys, which are empty, are used as paths. The root
is never copied, and a node that has a member with an empty key beside others is no
array, so there a path is empty and stands for the node itself. -/

namespace KurentoMediaServer.Config

open Foundations KeyedTree

/-! ### The rounds of a merge -/

/-- A round of the loop: the node that a child is merged into, and the path that
`get_child` and `add_child` are given. -/
structure Round where
  ptMerged : PTree
  path : String

mutual

/-- `mergePropertyTrees`, with the rounds of its loops at every depth. -/
def mergeRounds (ptMerged : PTree) : PTree → ℕ → PTree × List Round
  | .node data children, level =>
    if level > 0 ∧ PTree.empty (.node data children) = true then
      (.node data children, [])
    else if level > 0 ∧
        PTree.count (.node data children) "" = PTree.size (.node data children) then
      (.node data children, [])
    else mergeChildrenRounds ptMerged children level

def mergeChildrenRounds (ptMerged : PTree) :
    List (String × PTree) → ℕ → PTree × List Round
  | [], _ => (ptMerged, [])
  | (first, second) :: rest, level =>
    let path := cString first
    let inner := mergeRounds (PTree.getChild ptMerged path default) second (level + 1)
    let later := mergeChildrenRounds (PTree.addChild (ptMerged.erase path) path inner.1) rest level
    (later.1, ⟨ptMerged, path⟩ :: inner.2 ++ later.2)

end

mutual

/-- The rounds are those of the merge. -/
theorem fst_mergeRounds (a b : PTree) (level : ℕ) :
    (mergeRounds a b level).1 = mergePropertyTrees a b level := by
  cases b with
  | node d cs =>
    rw [mergeRounds, mergePropertyTrees]
    split_ifs
    · rfl
    · rfl
    · exact fst_mergeChildrenRounds a cs level

theorem fst_mergeChildrenRounds (a : PTree) (cs : List (String × PTree)) (level : ℕ) :
    (mergeChildrenRounds a cs level).1 = mergeChildren a cs level := by
  cases cs with
  | nil => rw [mergeChildrenRounds, mergeChildren]
  | cons p rest =>
    obtain ⟨first, second⟩ := p
    rw [mergeChildrenRounds, mergeChildren]
    show (mergeChildrenRounds _ rest level).1 = _
    rw [fst_mergeChildrenRounds, fst_mergeRounds]

end

theorem mergeRounds_copy {b : PTree} (hb : b.isObject = false) (a : PTree) (level : ℕ) :
    (mergeRounds a b (level + 1)).2 = [] := by
  cases b with
  | node d cs =>
    have hc := PTree.count_eq_size_iff.mpr hb
    simp only [mergeRounds, hc, and_true, Nat.zero_lt_succ, gt_iff_lt, if_true, ite_self]

theorem mergeRounds_children {b : PTree} {level : ℕ} (hb : level = 0 ∨ b.isObject = true)
    (a : PTree) : mergeRounds a b level = mergeChildrenRounds a b.children level := by
  cases b with
  | node d cs =>
    rcases hb with rfl | hb
    · simp [mergeRounds]
    · have hc : ¬ PTree.count (.node d cs) "" = PTree.size (.node d cs) := by
        rw [PTree.count_eq_size_iff, hb]
        simp
      have he : PTree.empty (.node d cs) = false := by
        rw [PTree.empty, List.isEmpty_eq_false_iff]
        exact PTree.children_ne_nil_of_isObject hb
      simp only [mergeRounds, hc, he, and_false, if_false, Bool.false_eq_true, children_node]

theorem forall_mergeChildrenRounds {P : String → Prop} {Q : PTree → Prop}
    {cs : List (String × PTree)} {level : ℕ}
    (hQ : ∀ p ∈ cs, ∀ a, (∀ r ∈ (mergeRounds a p.2 (level + 1)).2, P r.path) ↔ Q p.2)
    (a : PTree) : (∀ r ∈ (mergeChildrenRounds a cs level).2, P r.path) ↔
      ∀ p ∈ cs, P (cString p.1) ∧ Q p.2 := by
  induction cs generalizing a with
  | nil =>
    rw [mergeChildrenRounds]
    simp
  | cons p rest ih =>
    obtain ⟨first, second⟩ := p
    rw [List.forall_mem_cons] at hQ
    rw [mergeChildrenRounds, List.forall_mem_cons]
    simp only [List.cons_append, List.forall_mem_cons, List.forall_mem_append]
    rw [hQ.1, ih hQ.2, and_assoc]

/-- The paths are the keys of the root and of the objects below objects, whatever they
are merged into. -/
theorem forall_mergeRounds {P : String → Prop} {b : PTree} {level : ℕ}
    (hl : level = 0 ∨ b.isObject = true) (a : PTree) :
    (∀ r ∈ (mergeRounds a b level).2, P r.path) ↔
      Within PTree.isObject (fun n => ∀ k ∈ n.keys, P (cString k)) b := by
  induction b using KeyedTree.induct generalizing a level with
  | node d cs ih =>
    rw [mergeRounds_children hl, children_node, forall_mergeChildrenRounds
      (Q := fun sub => sub.isObject = true →
        Within PTree.isObject (fun n => ∀ k ∈ n.keys, P (cString k)) sub)]
    · constructor
      · intro h
        refine .intro ?_ fun p hp => (h p hp).2
        intro k hk
        obtain ⟨p, hp, rfl⟩ := List.mem_map.mp hk
        exact (h p hp).1
      · intro h p hp
        exact ⟨h.root p.1 (List.mem_map_of_mem hp), h.child hp⟩
    · intro p hp a
      by_cases ho : p.2.isObject = true
      · rw [ih p hp (Or.inr ho) a]
        simp [ho]
      · rw [mergeRounds_copy (by simpa using ho)]
        simp [ho]

/-! ### Empty paths -/

/-- What is left of a path after each of its dots. -/
def afterDots : List Char → List (List Char)
  | [] => []
  | c :: rest => if c = '.' then rest :: afterDots rest else afterDots rest

/-- What `reduce ()` is called on, time after time, when a child is added at a path: the
path, and what is left after each of its dots. -/
def reduced (path : String) : List (List Char) := path.toList :: afterDots path.toList

/-- A member without a name starts as a copy of the whole node that it is a member of. -/
def Round.CopiesParent (r : Round) : Prop :=
  (fragments r.path).getLastD "" = "" ∧ r.ptMerged.getChild r.path default =
    (walk (fragments r.path).dropLast r.ptMerged).getD default

/-- Merging `b` into `a` works on no empty path. -/
structure PathLaw (a b : PTree) : Prop where
  nonempty : ∀ r ∈ (mergeRounds a b 0).2, r.path ≠ ""
  reduces : ∀ r ∈ (mergeRounds a b 0).2, [] ∉ reduced r.path
  noCopy : ∀ r ∈ (mergeRounds a b 0).2, ¬ r.CopiesParent

theorem nil_mem_afterDots (cs : List Char) : [] ∈ afterDots cs ↔ cs.getLast? = some '.' := by
  induction cs with
  | nil => simp [afterDots]
  | cons c cs ih =>
    rw [afterDots]
    cases cs with
    | nil =>
      split_ifs with hc
      · simp [hc]
      · simp [afterDots, hc]
    | cons d ds =>
      split_ifs with hc
      · rw [List.mem_cons, ih, List.getLast?_cons_cons]
        simp
      · rw [ih, List.getLast?_cons_cons]

/-- The last part of a path is empty when the path is, and when it ends in a dot. -/
theorem getLast?_splitOn (cs : List Char) :
    (cs.splitOn '.').getLast? = some [] ↔ cs = [] ∨ cs.getLast? = some '.' := by
  induction cs with
  | nil => simp
  | cons c cs ih =>
    rw [List.splitOn_cons_eq_if_modifyHead]
    split_ifs with hc
    · have hdot : c = '.' := by simpa using hc
      subst hdot
      rw [List.getLast?_cons_of_ne_nil (List.splitOn_ne_nil '.' cs), ih]
      cases cs with
      | nil => simp
      | cons d ds => simp
    · have hdot : c ≠ '.' := by simpa using hc
      cases hs : cs.splitOn '.' with
      | nil => exact absurd hs (List.splitOn_ne_nil '.' cs)
      | cons z zs =>
        rw [hs] at ih
        cases cs with
        | nil =>
          obtain ⟨rfl, rfl⟩ : z = [] ∧ zs = [] := by simpa [eq_comm] using hs
          simp [hdot]
        | cons d ds =>
          rw [List.modifyHead_cons, List.getLast?_cons_cons]
          cases zs with
          | nil =>
            have hz : z ≠ [] := by
              rintro rfl
              have hi : ['.'].intercalate ((d :: ds).splitOn '.') = d :: ds :=
                List.intercalate_splitOn '.'
              rw [hs] at hi
              simp at hi
            simpa [hz] using ih
          | cons z' zs' => simpa using ih

theorem nil_mem_reduced (path : String) :
    [] ∈ reduced path ↔ (fragments path).getLast? = some "" := by
  have hlast : (fragments path).getLast? = some "" ↔
      (path.toList.splitOn '.').getLast? = some [] := by
    rw [fragments, List.getLast?_map, Option.map_eq_some_iff]
    constructor
    · rintro ⟨l, hl, he⟩
      rw [hl, String.ofList_eq_empty_iff.mp he]
    · exact fun h => ⟨[], h, rfl⟩
  rw [hlast, getLast?_splitOn, reduced, List.mem_cons, nil_mem_afterDots, eq_comm]

/-- A path whose last part is empty is looked up as the node that the child is added to. -/
theorem Round.copiesParent_iff (r : Round) :
    r.CopiesParent ↔ (fragments r.path).getLast? = some "" := by
  have hlast : (fragments r.path).getLastD "" = "" ↔ (fragments r.path).getLast? = some "" := by
    rw [List.getLastD_eq_getLast?, List.getLast?_eq_some_getLast (fragments_ne_nil r.path)]
    simp
  constructor
  · exact fun h => hlast.mp h.1
  · intro h
    refine ⟨hlast.mpr h, ?_⟩
    rw [PTree.getChild, PTree.getChildOptional, steps, if_pos h]

theorem ne_empty_of_getLast? {path : String} (h : (fragments path).getLast? ≠ some "") :
    path ≠ "" := by
  rintro rfl
  exact h rfl

/-- Merging works on no empty path, whatever `a` is, exactly when every key that is
merged names a node by its last part: up to its first null character it is not empty
and does not end in a dot. -/
theorem pathLaw_iff (a b : PTree) : PathLaw a b ↔ Addressable b := by
  have hrounds := forall_mergeRounds (P := fun path => (fragments path).getLast? ≠ some "")
    (b := b) (Or.inl rfl) a
  refine Iff.trans ?_ hrounds
  constructor
  · intro h r hr hlast
    exact h.reduces r hr ((nil_mem_reduced r.path).mpr hlast)
  · intro h
    refine ⟨fun r hr => ne_empty_of_getLast? (h r hr), fun r hr hnil => ?_, fun r hr hc => ?_⟩
    · exact h r hr ((nil_mem_reduced r.path).mp hnil)
    · exact h r hr (r.copiesParent_iff.mp hc)

/-- `["1"]`, an array at the top of a file, merged into the empty configuration. -/
theorem not_pathLaw : ¬ ∀ a b : PTree, verifyJson a 0 = true → verifyJson b 0 = true →
    PathLaw a b := by
  intro h
  have hlaw := h default (.node "" [("", .node "1" [])]) (by decide) (by decide)
  exact hlaw.nonempty ⟨default, ""⟩ List.mem_cons_self rfl

end KurentoMediaServer.Config
