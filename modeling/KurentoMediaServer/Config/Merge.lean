import KurentoMediaServer.Config.PropertyTree
import KurentoMediaServer.Foundations.DeepMerge

/-! `mergePropertyTrees`, which lays the settings of a configuration file over the
configuration loaded so far. On trees whose keys are plain it is the right-biased
deep merge. The keys are handed to boost as C strings, so a key with a null character
is merged under the part before it. -/

namespace KurentoMediaServer.Config

open Foundations KeyedTree

/-! ### The code -/

mutual

/-- `mergePropertyTrees (ptMerged, ptSecond, level)`; the result is `ptMerged`. -/
def mergePropertyTrees (ptMerged : PTree) : PTree → ℕ → PTree
  | .node data children, level =>
    if level > 0 ∧ PTree.empty (.node data children) = true then
      .node data children
    else if level > 0 ∧
        PTree.count (.node data children) "" = PTree.size (.node data children) then
      .node data children
    else mergeChildren ptMerged children level

def mergeChildren (ptMerged : PTree) : List (String × PTree) → ℕ → PTree
  | [], _ => ptMerged
  | (first, second) :: rest, level =>
    let child := mergePropertyTrees (PTree.getChild ptMerged (cString first) default) second
      (level + 1)
    mergeChildren (PTree.addChild (ptMerged.erase (cString first)) (cString first) child) rest level

end

def mergeStep (t : PTree) (first : String) (second : PTree) (level : ℕ) : PTree :=
  PTree.addChild (t.erase (cString first)) (cString first)
    (mergePropertyTrees (PTree.getChild t (cString first) default) second (level + 1))

theorem mergeChildren_nil (t : PTree) (level : ℕ) : mergeChildren t [] level = t := by
  rw [mergeChildren]

theorem mergeChildren_step (t : PTree) (p : String × PTree) (rest : List (String × PTree))
    (level : ℕ) : mergeChildren t (p :: rest) level =
      mergeChildren (mergeStep t p.1 p.2 level) rest level := by
  rw [mergeChildren]; rfl

/-- What every round of the loop preserves, the loop preserves. -/
theorem mergeChildren_induction {I : PTree → Prop} {cs : List (String × PTree)} {level : ℕ}
    (hstep : ∀ p ∈ cs, ∀ t, I t → I (mergeStep t p.1 p.2 level)) {t : PTree} (ht : I t) :
    I (mergeChildren t cs level) := by
  induction cs generalizing t with
  | nil =>
    rw [mergeChildren_nil]
    exact ht
  | cons p rest ih =>
    rw [mergeChildren_step]
    exact ih (fun q hq => hstep q (List.mem_cons_of_mem p hq)) (hstep p List.mem_cons_self t ht)

/-- A leaf or an array below the root is copied. -/
theorem mergePropertyTrees_copy {b : PTree} (hb : b.isObject = false) (a : PTree) (level : ℕ) :
    mergePropertyTrees a b (level + 1) = b := by
  cases b with
  | node d cs =>
    have hc := PTree.count_eq_size_iff.mpr hb
    simp only [mergePropertyTrees, hc, and_true, Nat.zero_lt_succ, gt_iff_lt, if_true, ite_self]

/-- The root, whatever it is, and every object are merged child by child. -/
theorem mergePropertyTrees_children {b : PTree} {level : ℕ}
    (hb : level = 0 ∨ b.isObject = true) (a : PTree) :
    mergePropertyTrees a b level = mergeChildren a b.children level := by
  cases b with
  | node d cs =>
    rcases hb with rfl | hb
    · simp [mergePropertyTrees]
    · have hc : ¬ PTree.count (.node d cs) "" = PTree.size (.node d cs) := by
        rw [PTree.count_eq_size_iff, hb]
        simp
      have he : PTree.empty (.node d cs) = false := by
        rw [PTree.empty, List.isEmpty_eq_false_iff]
        exact PTree.children_ne_nil_of_isObject hb
      simp only [mergePropertyTrees, hc, he, and_false, if_false, Bool.false_eq_true, children_node]

/-! ### Plain keys -/

theorem getChild_of_plain {k : String} (hk : PlainKey k) (t : PTree) :
    t.getChild k default = t.child k := by
  rw [PTree.getChild, PTree.getChildOptional, hk.steps, walk_cons, KeyedTree.child]
  cases t.children.lookup k <;> rfl

theorem addChild_of_plain {k : String} (hk : PlainKey k) (t c : PTree) :
    t.addChild k c = t.push k c := by
  rw [PTree.addChild, hk.fragments]
  rfl

/-- One round of the loop moves a plain key to the end. -/
theorem mergeStep_of_plain {k : String} (hk : PlainKey k) (t sub : PTree) (level : ℕ) :
    mergeStep t k sub level =
      (t.erase k).push k (mergePropertyTrees (t.child k) sub (level + 1)) := by
  rw [mergeStep, hk.cString, addChild_of_plain hk, getChild_of_plain hk]

/-- The loop over distinct plain keys: the other children first, then these keys in
their order. -/
theorem mergeChildren_eq {cs : List (String × PTree)} (hk : ∀ k ∈ cs.map Prod.fst, PlainKey k)
    (hd : (cs.map Prod.fst).Nodup) (t : PTree) (level : ℕ) :
    mergeChildren t cs level =
      .node t.data ((t.children.filter fun p => p.1 ∉ cs.map Prod.fst) ++
        cs.map fun p => (p.1, mergePropertyTrees (t.child p.1) p.2 (level + 1))) := by
  induction cs generalizing t with
  | nil => simp [mergeChildren_nil]
  | cons p rest ih =>
    obtain ⟨k, sub⟩ := p
    simp only [List.map_cons, List.mem_cons, forall_eq_or_imp, List.nodup_cons] at hk hd
    rw [mergeChildren_step, mergeStep_of_plain hk.1, ih hk.2 hd.2]
    -- the keys still to come do not see the one that moved
    have hchild : ∀ p ∈ rest, ((t.erase k).push k
        (mergePropertyTrees (t.child k) sub (level + 1))).child p.1 = t.child p.1 := by
      intro p hp
      have hne : p.1 ≠ k := fun h => hd.1 (h ▸ List.mem_map_of_mem hp)
      simp only [KeyedTree.child, children_push, List.lookup_append, lookup_erase_of_ne hne,
        List.lookup_cons, List.lookup_nil, beq_false_of_ne hne, Option.or_none]
    have hrest : rest.map (fun p => (p.1, mergePropertyTrees (((t.erase k).push k
        (mergePropertyTrees (t.child k) sub (level + 1))).child p.1) p.2 (level + 1))) =
        rest.map fun p => (p.1, mergePropertyTrees (t.child p.1) p.2 (level + 1)) := by
      apply List.map_congr_left
      intro p hp
      rw [hchild p hp]
    rw [hrest, children_push, children_erase, List.filter_append, List.filter_filter]
    simp only [data_push, data_erase, List.map_cons, List.mem_cons, not_or]
    congr 1
    rw [List.append_assoc]
    congr 1
    · apply List.filter_congr
      intro p _
      by_cases hp : p.1 = k <;> simp [hp]
    · simp [hd.1]

/-- A tree whose objects have distinct plain keys. -/
def Mergeable (b : PTree) : Prop :=
  Within PTree.isObject (fun n => (∀ k ∈ n.keys, PlainKey k) ∧ n.keys.Nodup) b

theorem mergePropertyTrees_eq_deepMerge {b : PTree} (hb : Mergeable b) {level : ℕ}
    (hl : level = 0 ∨ b.isObject = true) (a : PTree) :
    mergePropertyTrees a b level = deepMerge PTree.isObject a b := by
  induction hb generalizing a level with
  | @intro b hk hbelow ih =>
    rw [mergePropertyTrees_children hl, mergeChildren_eq hk.1 hk.2, deepMerge_eq]
    congr 2
    apply List.map_congr_left
    intro p hp
    by_cases ho : p.2.isObject = true
    · rw [ih p hp ho (Or.inr ho), merged, if_pos ho]
    · rw [mergePropertyTrees_copy (by simpa using ho), merged, if_neg ho]

end KurentoMediaServer.Config
