import KurentoMediaServer.Config.Override
import KurentoMediaServer.Foundations.Multiplicity

/-! Merging the tree of an INI file. Its section names are single keys, and may have
dots. `get_child` and `add_child` take such a name as a path, while `erase` takes it as
a key: the node at the path stays and the merged section becomes a second node of the
same path. -/

namespace KurentoMediaServer.Config

open Foundations KeyedTree

/-- What `read_ini` makes: entries and sections of entries under distinct names. -/
def IsIni (b : PTree) : Prop :=
  b.keys.Nodup ∧ ∀ p ∈ b.children, p.1 ≠ "" ∧ p.2.keys.Nodup ∧
    ∀ e ∈ p.2.children, e.1 ≠ "" ∧ e.2.children = []

/-- No node has two children with one key. -/
def Distinct (t : PTree) : Prop := All (fun n : PTree => n.keys.Nodup) t

/-- The names of an INI file are paths into the configuration. -/
structure IniLaw (a b : PTree) : Prop where
  /-- An entry of a section is found under the section's name and its own. -/
  entries : ∀ p ∈ b.children, ∀ e ∈ p.2.children,
    PTree.get (mergePropertyTrees a b 0) (p.1 ++ "." ++ e.1) = some e.2.data
  /-- An entry before the first section is found under its name. -/
  leaves : ∀ p ∈ b.children, p.2.children = [] →
    PTree.get (mergePropertyTrees a b 0) p.1 = some p.2.data
  /-- No node of the result has two children with one key. -/
  distinct : Distinct (mergePropertyTrees a b 0)
  /-- Merging the file again changes nothing. -/
  again : mergePropertyTrees (mergePropertyTrees a b 0) b 0 = mergePropertyTrees a b 0

/-- Names of sections and of entries that `K` holds of. -/
def Names (K : String → Prop) (b : PTree) : Prop :=
  ∀ p ∈ b.children, K p.1 ∧ ∀ e ∈ p.2.children, K e.1

/-! ### Plain names -/

theorem IsIni.not_isObject {b : PTree} (hb : IsIni b) {p e : String × PTree} (hp : p ∈ b.children)
    (he : e ∈ p.2.children) : e.2.isObject = false :=
  PTree.isObject_of_empty ((hb.2 p hp).2.2 e he).2

theorem IsIni.mergeable {b : PTree} (hb : IsIni b) (hn : Names PlainKey b) : Mergeable b := by
  refine .intro ⟨?_, hb.1⟩ fun p hp _ => .intro ⟨?_, (hb.2 p hp).2.1⟩ ?_
  · intro k hk
    obtain ⟨p, hp, rfl⟩ := List.mem_map.mp hk
    exact (hn p hp).1
  · intro k hk
    obtain ⟨e, he, rfl⟩ := List.mem_map.mp hk
    exact (hn p hp).2 e he
  · intro e he ho
    rw [hb.not_isObject hp he] at ho
    exact absurd ho Bool.false_ne_true

theorem IsIni.distinct {b : PTree} (hb : IsIni b) : Distinct b := by
  refine all_iff.mpr ⟨hb.1, fun p hp => all_iff.mpr ⟨(hb.2 p hp).2.1, fun e he => ?_⟩⟩
  have hc := ((hb.2 p hp).2.2 e he).2
  refine all_iff.mpr ⟨?_, by simp [hc]⟩
  rw [keys, hc]
  exact List.nodup_nil

theorem steps_entry {p e : String} (hp : PlainKey p) (he : PlainKey e) :
    steps (p ++ "." ++ e) = [p, e] := by
  have hf : fragments (p ++ "." ++ e) = [p, e] := by
    rw [fragments_append, hp.fragments, he.fragments]
    rfl
  have hl : (fragments (p ++ "." ++ e)).getLast? ≠ some "" := by
    rw [hf]
    simpa using he.1
  rw [steps_of_getLast? hl, hf]

/-- With plain names the law holds over every tree. -/
theorem iniLaw_of_plain {a b : PTree} (hb : IsIni b) (hn : Names PlainKey b) (ha : Distinct a) :
    IniLaw a b := by
  have hm := hb.mergeable hn
  have hlaw := hm.overrideLaw a
  refine ⟨?_, ?_, ?_, hlaw.again⟩
  · intro p hp e he
    have hw : walk [p.1, e.1] b = some e.2 := by
      rw [walk_cons, lookup_of_mem hb.1 hp, Option.bind_some, walk_cons,
        lookup_of_mem (hb.2 p hp).2.1 he]
      rfl
    have hr := hlaw.wins [p.1, e.1] e.2 (List.cons_ne_nil _ _) hw (hb.not_isObject hp he)
    rw [PTree.get, PTree.getChildOptional, steps_entry (hn p hp).1 ((hn p hp).2 e he), hr]
    rfl
  · intro p hp hc
    have hw : walk [p.1] b = some p.2 := by
      rw [walk_cons, lookup_of_mem hb.1 hp]
      rfl
    have hr := hlaw.wins [p.1] p.2 (List.cons_ne_nil _ _) hw (PTree.isObject_of_empty hc)
    rw [PTree.get, PTree.getChildOptional, (hn p hp).1.steps, hr]
    rfl
  · rw [Distinct, hlaw.deep]
    exact nodup_deepMerge ha hb.distinct

/-! ### Names with a null character -/

/-- Every key of every node satisfies `K`. -/
def AllKeys (K : String → Prop) (t : PTree) : Prop := All (fun n : PTree => ∀ k ∈ n.keys, K k) t

variable {K : String → Prop}

theorem AllKeys.forceAt {g : PTree → PTree} (hg : ∀ n, AllKeys K n → AllKeys K (g n))
    {p : List String} (hp : ∀ k ∈ p, K k) {t : PTree} (ht : AllKeys K t) :
    AllKeys K (forceAt g p t) := by
  induction p generalizing t with
  | nil => exact hg t ht
  | cons k p ih =>
    obtain ⟨hkeys, hchildren⟩ := all_iff.mp ht
    have hk := List.forall_mem_cons.mp hp
    rw [forceAt_cons]
    refine all_node.mpr ⟨?_, fun q hq => ?_⟩
    · intro j hj
      rw [keys, children_node, map_fst_upsert] at hj
      split_ifs at hj
      · exact hkeys j hj
      · rcases List.mem_append.mp hj with hj | hj
        · exact hkeys j hj
        · rw [List.mem_singleton.mp hj]
          exact hk.1
    · rcases of_mem_upsert hq with hq | rfl
      · exact hchildren q hq
      · apply ih hk.2
        cases hl : t.children.lookup k with
        | none => exact all_iff.mpr ⟨by simp [keys], by simp⟩
        | some c => exact hchildren (k, c) (mem_of_lookup hl)

theorem AllKeys.erase {t : PTree} (ht : AllKeys K t) (k : String) : AllKeys K (t.erase k) := by
  obtain ⟨hkeys, hchildren⟩ := all_iff.mp ht
  refine all_iff.mpr ⟨?_, fun q hq => hchildren q (List.mem_filter.mp hq).1⟩
  intro j hj
  obtain ⟨q, hq, rfl⟩ := List.mem_map.mp hj
  exact hkeys q.1 (List.mem_map_of_mem (List.mem_filter.mp hq).1)

theorem AllKeys.addChild {t c : PTree} (ht : AllKeys K t) (hc : AllKeys K c) {path : String}
    (hp : ∀ k ∈ fragments path, K k) : AllKeys K (t.addChild path c) := by
  have hf := dropLast_append_getLastD path
  refine AllKeys.forceAt ?_ (fun k hk => hp k (List.dropLast_subset _ hk)) ht
  intro n hn
  obtain ⟨hkeys, hchildren⟩ := all_iff.mp hn
  refine all_iff.mpr ⟨?_, ?_⟩
  · intro j hj
    rw [keys, children_push, List.map_append] at hj
    rcases List.mem_append.mp hj with hj | hj
    · exact hkeys j hj
    · apply hp
      rw [← hf, List.mem_append]
      exact Or.inr hj
  · intro q hq
    rcases List.mem_append.mp hq with hq | hq
    · exact hchildren q hq
    · rw [List.mem_singleton.mp hq]
      exact hc

theorem AllKeys.walk {q : List String} {s t : PTree} (ht : AllKeys K t) (h : walk q t = some s) :
    AllKeys K s ∧ ∀ k ∈ q, K k := by
  induction q generalizing t with
  | nil =>
    cases h
    exact ⟨ht, by simp⟩
  | cons k q ih =>
    obtain ⟨c, hc, hs⟩ := Option.bind_eq_some_iff.mp h
    obtain ⟨hkeys, hchildren⟩ := all_iff.mp ht
    have hm := mem_of_lookup hc
    obtain ⟨hsk, hq⟩ := ih (hchildren (k, c) hm) hs
    exact ⟨hsk, List.forall_mem_cons.mpr ⟨hkeys k (List.mem_map_of_mem hm), hq⟩⟩

theorem allKeys_of_children {t : PTree} (h : t.children = []) : AllKeys K t :=
  all_iff.mpr ⟨by simp [keys, h], by simp [h]⟩

/-- What the loop adds has no null character in its keys, if the children it merges
add none. -/
theorem AllKeys.mergeChildren {cs : List (String × PTree)} {level : ℕ}
    (hc : ∀ p ∈ cs, ∀ t, AllKeys ('\x00' ∉ ·.toList) t →
      AllKeys ('\x00' ∉ ·.toList) (mergePropertyTrees t p.2 (level + 1)))
    {t : PTree} (ht : AllKeys ('\x00' ∉ ·.toList) t) :
    AllKeys ('\x00' ∉ ·.toList) (mergeChildren t cs level) := by
  refine mergeChildren_induction (fun p hp t ht => ?_) ht
  have hchild : AllKeys ('\x00' ∉ ·.toList) (t.getChild (cString p.1) default) := by
    rw [PTree.getChild, PTree.getChildOptional]
    cases hw : KeyedTree.walk (steps (cString p.1)) t with
    | none => exact allKeys_of_children rfl
    | some s => exact (ht.walk hw).1
  refine AllKeys.addChild (ht.erase _) (hc p hp _ hchild) ?_
  exact fun k hk hm => nul_notMem_cString p.1 (mem_of_mem_fragments hk hm).1

theorem IsIni.allKeys_merge {b : PTree} (hb : IsIni b) :
    AllKeys ('\x00' ∉ ·.toList) (mergePropertyTrees default b 0) := by
  rw [mergePropertyTrees_children (Or.inl rfl)]
  refine AllKeys.mergeChildren (fun p hp t ht => ?_) (allKeys_of_children rfl)
  have hleaf : ∀ e ∈ p.2.children, AllKeys ('\x00' ∉ ·.toList) e.2 := fun e he =>
    allKeys_of_children ((hb.2 p hp).2.2 e he).2
  by_cases ho : p.2.isObject = true
  · rw [mergePropertyTrees_children (Or.inr ho)]
    refine AllKeys.mergeChildren (fun e he t _ => ?_) ht
    rw [mergePropertyTrees_copy (hb.not_isObject hp he)]
    exact hleaf e he
  · rw [mergePropertyTrees_copy (by simpa using ho)]
    refine all_iff.mpr ⟨fun k hk hm => ho ?_, hleaf⟩
    obtain ⟨e, he, rfl⟩ := List.mem_map.mp hk
    exact PTree.isObject_iff.mpr ⟨e, he, ((hb.2 p hp).2.2 e he).1⟩

/-- A path that is found in a tree without null characters has none. -/
theorem AllKeys.get {t : PTree} (ht : AllKeys ('\x00' ∉ ·.toList) t) {path v : String}
    (h : PTree.get t path = some v) : '\x00' ∉ path.toList := by
  intro hm
  obtain ⟨k, hk, hkm⟩ := exists_mem_fragments hm (by decide)
  obtain ⟨s, hs, -⟩ := Option.map_eq_some_iff.mp h
  have hne : k ≠ "" := by
    rintro rfl
    simp at hkm
  exact (ht.walk hs).2 k (mem_steps hk hne) hkm

theorem names_nulFree {b : PTree} (hb : IsIni b) (h : IniLaw default b) :
    Names ('\x00' ∉ ·.toList) b := by
  intro p hp
  have hkeys := hb.allKeys_merge
  by_cases hc : p.2.children = []
  · exact ⟨hkeys.get (h.leaves p hp hc), by simp [hc]⟩
  · have hn : ∀ e ∈ p.2.children, '\x00' ∉ p.1.toList ∧ '\x00' ∉ e.1.toList := by
      intro e he
      have hg := hkeys.get (h.entries p hp e he)
      simpa [not_or] using hg
    obtain ⟨e, he⟩ := List.exists_mem_of_ne_nil _ hc
    exact ⟨(hn e he).1, fun e he => (hn e he).2⟩

end KurentoMediaServer.Config
