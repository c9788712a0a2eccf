import KurentoMediaServer.Config.Merge

/-! The override law of the configuration: what merging a tree `b` into a tree `a`
keeps of either. It holds of every `b` with plain keys. A null character in a key of an
object of `b` breaks it, since the code passes the key on as a C string. -/

namespace KurentoMediaServer.Config

open Foundations KeyedTree

/-- Outside arrays, sibling keys are distinct and are neither empty nor dotted. -/
def WellKeyed (t : PTree) : Prop :=
  All (fun n : PTree => n.isArray = false →
    (∀ k ∈ n.keys, k ≠ "" ∧ '.' ∉ k.toList) ∧ n.keys.Nodup) t

/-- Where `b` has an object, what `a` has there is an object without data, or is empty. -/
def Compatible (a b : PTree) : Prop :=
  ∀ (p : List String) (n m : PTree), walk p a = some n → walk p b = some m →
    m.isObject = true → (n.isObject = true ∧ n.data = "") ∨ n.empty = true

/-- No key of an object has a null character. -/
def NulFree (b : PTree) : Prop :=
  Within PTree.isObject (fun n => ∀ k ∈ n.keys, '\x00' ∉ k.toList) b

/-- Merging `b` into `a` overrides `a` by `b`. -/
structure OverrideLaw (a b : PTree) : Prop where
  /-- The result is the right-biased deep merge. -/
  deep : mergePropertyTrees a b 0 = deepMerge PTree.isObject a b
  /-- No setting of `a` is lost, except where `b` has a leaf or an array on the way. -/
  keeps : ∀ p n, walk p a = some n →
    (∀ q m, q <+: p → q ≠ [] → walk q b = some m → PTree.isObject m = true) →
    ∃ n', walk p (mergePropertyTrees a b 0) = some n' ∧ n'.data = n.data ∧
      (walk p b = none → n' = n)
  /-- Every leaf and every array of `b` wins. -/
  wins : ∀ p m, p ≠ [] → walk p b = some m → PTree.isObject m = false →
    walk p (mergePropertyTrees a b 0) = some m
  /-- Merging `b` again changes nothing. -/
  again : mergePropertyTrees (mergePropertyTrees a b 0) b 0 = mergePropertyTrees a b 0

theorem isArray_of_isObject {t : PTree} (h : t.isObject = true) : t.isArray = false := by
  rw [← Bool.not_eq_true, PTree.isArray_iff, h]
  simp

theorem WellKeyed.mergeable {b : PTree} (hb : WellKeyed b) (hr : b.isArray = false)
    (hn : NulFree b) : Mergeable b := by
  induction hn with
  | intro hnul _ ih =>
    obtain ⟨hroot, hchildren⟩ := all_iff.mp hb
    obtain ⟨hk, hd⟩ := hroot hr
    refine .intro ⟨fun k hm => ⟨(hk k hm).1, (hk k hm).2, hnul k hm⟩, hd⟩ fun p hp ho => ?_
    exact ih p hp ho (hchildren p hp) (isArray_of_isObject ho)

/-- On plain keys every part of the law holds, whatever `a` is. -/
theorem Mergeable.overrideLaw {b : PTree} (hb : Mergeable b) (a : PTree) : OverrideLaw a b := by
  have hm : ∀ t, mergePropertyTrees t b 0 = deepMerge PTree.isObject t b := fun t =>
    mergePropertyTrees_eq_deepMerge hb (Or.inl rfl) t
  refine ⟨hm a, ?_, ?_, ?_⟩
  · intro p n h hc
    rw [hm]
    exact walk_deepMerge_left h hc
  · intro p m hp h ho
    rw [hm]
    exact walk_deepMerge_right hp h ho
  · rw [hm, hm]
    exact deepMerge_deepMerge (hb.imp fun _ h => h.2) a

/-! ### Keys with a null character -/

theorem mem_keys_addChild {path k : String} {t c : PTree} (h : k ∈ (t.addChild path c).keys) :
    k ∈ t.keys ∨ k ∈ fragments path := by
  have hf := dropLast_append_getLastD path
  rw [PTree.addChild] at h
  cases hd : (fragments path).dropLast with
  | nil =>
    rw [hd, List.nil_append] at hf
    rw [hd, forceAt_nil, keys, children_push, List.map_append, List.mem_append] at h
    refine h.imp_right fun hk => ?_
    rw [← hf]
    simpa using hk
  | cons j js =>
    rw [hd, List.cons_append] at hf
    rw [hd, forceAt_cons, keys, children_node, map_fst_upsert] at h
    split_ifs at h
    · exact Or.inl h
    · refine (List.mem_append.mp h).imp_right fun hk => ?_
      rw [← hf, List.mem_singleton.mp hk]
      exact List.mem_cons_self

theorem mem_keys_mergeChildren {cs : List (String × PTree)} {t : PTree} {level : ℕ} {k : String}
    (h : k ∈ (mergeChildren t cs level).keys) : k ∈ t.keys ∨ '\x00' ∉ k.toList := by
  induction cs generalizing t with
  | nil => exact Or.inl (by rwa [mergeChildren_nil] at h)
  | cons p rest ih =>
    rw [mergeChildren_step] at h
    rcases ih h with hk | hk
    · rcases mem_keys_addChild hk with hk | hk
      · rw [keys, children_erase] at hk
        obtain ⟨q, hq, rfl⟩ := List.mem_map.mp hk
        exact Or.inl (List.mem_map_of_mem (List.mem_filter.mp hq).1)
      · exact Or.inr fun hc => nul_notMem_cString p.1 (mem_of_mem_fragments hk hc).1
    · exact Or.inr hk

/-- A tree that merges into the empty one by the law has no null character in a key. -/
theorem nulFree_of_deep {b : PTree} (hb : WellKeyed b) (hr : b.isArray = false) {level : ℕ}
    (hl : level = 0 ∨ b.isObject = true)
    (h : mergePropertyTrees default b level = deepMerge PTree.isObject default b) : NulFree b := by
  induction b using KeyedTree.induct generalizing level with
  | node d cs ih =>
    obtain ⟨hroot, hchildren⟩ := all_iff.mp hb
    obtain ⟨hk, hd⟩ := hroot hr
    rw [mergePropertyTrees_children hl] at h
    have hnul : ∀ k ∈ cs.map Prod.fst, '\x00' ∉ k.toList := by
      intro k hm
      have hkeys : k ∈ (mergeChildren default (node d cs).children level).keys := by
        rw [h, deepMerge_eq, keys, children_node, List.map_append, List.map_map, List.mem_append]
        exact Or.inr hm
      exact (mem_keys_mergeChildren hkeys).resolve_left (by simp [keys])
    refine .intro hnul fun p hp ho => ?_
    rw [mergeChildren_eq (fun k hm => ⟨(hk k hm).1, (hk k hm).2, hnul k hm⟩) hd, deepMerge_eq] at h
    -- the two lists hold the same child under the key of `p`
    have hmap := (List.append_inj (KeyedTree.node.inj h).2 rfl).2
    have hpair := List.map_inj_left.mp hmap p hp
    have hsub := (Prod.mk.inj hpair).2
    rw [merged, if_pos ho] at hsub
    exact ih p hp (hchildren p hp) (isArray_of_isObject ho) (Or.inr ho) hsub

theorem wellKeyed_default : WellKeyed default := by
  rw [WellKeyed, all_iff]
  simp [keys]

theorem compatible_default (b : PTree) : Compatible default b := by
  intro p n m hn _ _
  cases p with
  | nil =>
    cases hn
    exact Or.inr rfl
  | cons k p => simp [walk_default] at hn

/-- The law holds of merging `b` into every tree, if and only if no key of an object
of `b` has a null character. -/
theorem overrideLaw_iff {b : PTree} (hb : WellKeyed b) (hr : b.isArray = false) :
    (∀ a : PTree, WellKeyed a → a.isArray = false → Compatible a b → OverrideLaw a b) ↔
      NulFree b := by
  constructor
  · intro h
    exact nulFree_of_deep hb hr (Or.inl rfl)
      (h default wellKeyed_default rfl (compatible_default b)).deep
  · exact fun hn a _ _ _ => (hb.mergeable hr hn).overrideLaw a

/-- `{"net": {"port": "8888"}}` over `{"net": {"path": "kurento"}}`. -/
theorem overrideLaw_iff_port :
    OverrideLaw (.node "" [("net", .node "" [("path", .node "kurento" [])])])
      (.node "" [("net", .node "" [("port", .node "8888" [])])]) := by
  refine (overrideLaw_iff ?_ (by decide)).mpr ?_ _ ?_ (by decide) ?_
  · rw [WellKeyed]
    simp [keys]
  · refine .intro (by simp [keys]) fun p hp _ => .intro ?_ ?_
    · rw [List.mem_singleton.mp hp]
      simp [keys]
    · rw [List.mem_singleton.mp hp]
      simp [PTree.isObject]
  · rw [WellKeyed]
    simp [keys]
  · intro p n m hn hm ho
    rcases p with _ | ⟨k, _ | ⟨k', p⟩⟩
    · cases hn
      exact Or.inl (by decide)
    · by_cases hk : k = "net"
      · subst hk
        cases hn
        exact Or.inl (by decide)
      · simp [walk_cons, List.lookup_cons, beq_false_of_ne hk] at hn
    · by_cases hk : k = "net"
      · subst hk
        by_cases hk' : k' = "path"
        · subst hk'
          cases hm
        · simp [walk_cons, List.lookup_cons, beq_false_of_ne hk'] at hn
      · simp [walk_cons, List.lookup_cons, beq_false_of_ne hk] at hn

/-- `{"a\u0000b": "1"}` over the empty tree is merged under the key `a`. -/
theorem not_overrideLaw : ¬ ∀ a b : PTree, WellKeyed a → a.isArray = false → WellKeyed b →
    b.isArray = false → Compatible a b → OverrideLaw a b := by
  intro h
  have hb : WellKeyed (.node "" [("a\x00b", .node "1" [])]) := by
    rw [WellKeyed]
    simp [keys]
  have hw := (h default _ wellKeyed_default rfl hb (by decide) (compatible_default _)).wins
    ["a\x00b"] (.node "1" []) (by decide) rfl rfl
  have hl : walk ["a\x00b"] (mergePropertyTrees default
      (.node "" [("a\x00b", .node "1" [])]) 0) = none := rfl
  rw [hl] at hw
  exact Option.some_ne_none _ hw.symm

end KurentoMediaServer.Config
