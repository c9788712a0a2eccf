import KurentoMediaServer.Config.Override

/-! Which configurations `write_json` accepts, and when merging keeps them acceptable.
A node may have data or children, not both. `mergePropertyTrees` never looks at the data
of a node that it adds a child to, so a value of either tree on the way to a key that is
set leaves a node with both. -/

namespace KurentoMediaServer.Config

open Foundations KeyedTree

/-! ### The check -/

mutual

/-- `verify_json`, the check `write_json` makes before it writes. -/
def verifyJson : PTree → ℕ → Bool
  | .node data children, depth =>
    (depth != 0 || data == "") && (data == "" || children.isEmpty) &&
      verifyChildren children (depth + 1)

def verifyChildren : List (String × PTree) → ℕ → Bool
  | [], _ => true
  | (_, child) :: rest, depth => verifyJson child depth && verifyChildren rest depth

end

/-- Data or children, not both. -/
def Sound (n : PTree) : Prop := n.data = "" ∨ n.children = []

theorem verifyChildren_iff (cs : List (String × PTree)) (depth : ℕ) :
    verifyChildren cs depth = true ↔ ∀ p ∈ cs, verifyJson p.2 depth = true := by
  induction cs with
  | nil => simp [verifyChildren]
  | cons p rest ih => simp [verifyChildren, ih]

theorem verifyJson_succ (t : PTree) (depth : ℕ) :
    verifyJson t (depth + 1) = true ↔ All Sound t := by
  induction t using KeyedTree.induct generalizing depth with
  | node d cs ih =>
    have hc : (∀ p ∈ cs, verifyJson p.2 (depth + 1 + 1) = true) ↔ ∀ p ∈ cs, All Sound p.2 :=
      forall₂_congr fun p hp => ih p hp (depth + 1)
    rw [verifyJson, all_node, ← hc]
    simp [verifyChildren_iff, Sound]

theorem verifyJson_zero (t : PTree) : verifyJson t 0 = true ↔ t.data = "" ∧ All Sound t := by
  cases t with
  | node d cs =>
    have hc : (∀ p ∈ cs, verifyJson p.2 (0 + 1) = true) ↔ ∀ p ∈ cs, All Sound p.2 :=
      forall₂_congr fun p _ => verifyJson_succ p.2 0
    rw [verifyJson, all_node, ← hc]
    simp only [bne_self_eq_false, Bool.false_or, Bool.and_eq_true, beq_iff_eq, Bool.or_eq_true,
      List.isEmpty_iff, verifyChildren_iff, Sound, data_node, children_node, and_assoc]

/-! ### What a tree sets -/

/-- The path that a key of the second tree is merged at. -/
def place (key : String) : List String := fragments (cString key)

/-- Merging `b` sets a child at the path. -/
inductive Sets : PTree → List String → Prop
  | key {b : PTree} {p : String × PTree} (hp : p ∈ b.children) : Sets b (place p.1)
  | inside {b : PTree} {p : String × PTree} {q : List String} (hp : p ∈ b.children)
      (ho : p.2.isObject = true) (h : Sets p.2 q) : Sets b (place p.1 ++ q)

/-- Merging `b` copies a node with data to the path. -/
inductive Values : PTree → List String → Prop
  | copied {b s : PTree} {p : String × PTree} {q : List String} (hp : p ∈ b.children)
      (ho : p.2.isObject = false) (hs : At q s p.2) (hd : s.data ≠ "") :
      Values b (place p.1 ++ q)
  | inside {b : PTree} {p : String × PTree} {q : List String} (hp : p ∈ b.children)
      (ho : p.2.isObject = true) (h : Values p.2 q) : Values b (place p.1 ++ q)

/-- `t` has a value at the path. -/
def Carries (t : PTree) (v : List String) : Prop := ∃ s, At v s t ∧ s.data ≠ ""

/-- No value of `a` or of `b` is on the way to a path that merging `b` sets. -/
def Clear (a b : PTree) : Prop :=
  ∀ v w, Carries a v ∨ Values b v → Sets b w → v <+: w → v = w

/-- Every key of an object names a node by its last part. -/
def Addressable (b : PTree) : Prop :=
  Within PTree.isObject (fun n => ∀ k ∈ n.keys, (place k).getLast? ≠ some "") b

/-! ### Values stay off the paths that are set -/

/-- Every value is at a path that `V` allows, and without children. -/
def ValuesIn (V : List String → Prop) (t : PTree) : Prop :=
  ∀ q s, At q s t → s.data ≠ "" → V q ∧ s.children = []

variable {V : List String → Prop} {t c b : PTree}

theorem ValuesIn.sound (h : ValuesIn V t) : All Sound t := by
  intro q s hs
  by_cases hd : s.data = ""
  · exact Or.inl hd
  · exact Or.inr (h q s hs hd).2

theorem valuesIn_default : ValuesIn V default := by
  intro q s hs hd
  cases hs with
  | here => exact absurd rfl hd
  | child hc _ => simp at hc

theorem ValuesIn.walk (h : ValuesIn V t) (F : List String) :
    ValuesIn (fun q => V (F ++ q)) ((walk F t).getD default) := by
  cases hw : KeyedTree.walk F t with
  | none => exact valuesIn_default
  | some n =>
    intro q s hs hd
    exact h (F ++ q) s ((at_of_walk hw).append hs) hd

theorem ValuesIn.erase (h : ValuesIn V t) (k : String) : ValuesIn V (t.erase k) := by
  intro q s hs hd
  by_cases hq : q = []
  · subst hq
    obtain ⟨hv, hc⟩ := h [] t (.here t) (by rwa [at_nil.mp hs] at hd)
    refine ⟨hv, ?_⟩
    rw [at_nil.mp hs, children_erase, hc]
    rfl
  · exact h q s (at_erase hs hq) hd

/-- A child may be added at a path that no value is on the way to. -/
theorem ValuesIn.addChild (h : ValuesIn V t) {path : String}
    (hc : ValuesIn (fun q => V (fragments path ++ q)) c)
    (hV : ∀ v, V v → v <+: fragments path → v = fragments path) :
    ValuesIn V (t.addChild path c) := by
  have hf := dropLast_append_getLastD path
  have hon : ∀ q, q <+: (fragments path).dropLast → ((KeyedTree.walk q t).getD default).data = "" := by
    intro q hq
    cases hw : KeyedTree.walk q t with
    | none => rfl
    | some n =>
      by_contra hd
      have hv := (h q n (at_of_walk hw) hd).1
      have he := hV q hv (hq.trans (List.dropLast_prefix _))
      have hl := hq.length_le
      rw [he, ← hf, List.dropLast_concat, List.length_append, List.length_singleton] at hl
      omega
  intro q s hs hd
  rcases of_at_forceAt_push hs with ⟨hq, ho⟩ | ⟨r, rfl, hr⟩ | ⟨hq, he⟩
  · exact h q s ho hd
  · have hr' : V (fragments path ++ r) ∧ s.children = [] := hc r s hr hd
    rwa [← hf, List.append_assoc] at hr'
  · rw [hon q hq] at he
    exact absurd he hd

/-- Merging `b` keeps every value without children, if no value is on the way to a path
that is set. -/
theorem ValuesIn.merge {b : PTree} (hb : All Sound b) (haddr : Addressable b)
    (hV : ∀ v, Values b v → V v) (hclear : ∀ v w, V v → Sets b w → v <+: w → v = w)
    {level : ℕ} (hl : level = 0 ∨ b.isObject = true) {t : PTree} (ht : ValuesIn V t) :
    ValuesIn V (mergePropertyTrees t b level) := by
  induction haddr generalizing V level t with
  | @intro b hroot _ ih =>
    obtain ⟨-, hsound⟩ := all_iff.mp hb
    rw [mergePropertyTrees_children hl]
    refine mergeChildren_induction (fun p hp t ht => ?_) ht
    have hsteps : steps (cString p.1) = place p.1 :=
      steps_of_getLast? (hroot p.1 (List.mem_map_of_mem hp))
    have hchild : ValuesIn (fun q => V (place p.1 ++ q)) (t.getChild (cString p.1) default) := by
      rw [PTree.getChild, PTree.getChildOptional, hsteps]
      exact ht.walk (place p.1)
    refine ValuesIn.addChild (ht.erase _) ?_ fun v hv hpre => hclear v _ hv (.key hp) hpre
    by_cases ho : p.2.isObject = true
    · refine ih p hp ho (hsound p hp) (fun v hv => hV _ (.inside hp ho hv)) ?_ (Or.inr ho) hchild
      intro v w hv hw hpre
      have he := hclear _ _ hv (.inside hp ho hw) ((List.prefix_append_right_inj _).mpr hpre)
      exact List.append_cancel_left he
    · have hcopy : p.2.isObject = false := by simpa using ho
      rw [mergePropertyTrees_copy hcopy]
      intro q s hs hd
      exact ⟨hV _ (.copied hp hcopy hs hd), (hsound p hp q s hs).resolve_left hd⟩

theorem data_addChild {path : String} (t c : PTree) : (t.addChild path c).data = t.data := by
  rw [PTree.addChild]
  cases (fragments path).dropLast with
  | nil => rfl
  | cons j js => rfl

/-- The data of the root stay. -/
theorem data_mergePropertyTrees {b : PTree} {level : ℕ} (hl : level = 0 ∨ b.isObject = true)
    (t : PTree) : (mergePropertyTrees t b level).data = t.data := by
  rw [mergePropertyTrees_children hl]
  refine mergeChildren_induction (I := fun s => s.data = t.data) (fun p _ s hs => ?_) rfl
  rw [mergeStep, data_addChild, data_erase, hs]

/-- Merging trees that `write_json` accepts gives one, if the way to what is set is clear
of values. -/
theorem verifyJson_merge {a b : PTree} (ha : verifyJson a 0 = true) (hb : verifyJson b 0 = true)
    (haddr : Addressable b) (hclear : Clear a b) :
    verifyJson (mergePropertyTrees a b 0) 0 = true := by
  obtain ⟨hdata, hsa⟩ := (verifyJson_zero a).mp ha
  obtain ⟨-, hsb⟩ := (verifyJson_zero b).mp hb
  have hvalues : ValuesIn (fun v => Carries a v ∨ Values b v) a := fun q s hs hd =>
    ⟨Or.inl ⟨s, hs, hd⟩, (hsa q s hs).resolve_left hd⟩
  refine (verifyJson_zero _).mpr ⟨?_, ?_⟩
  · rw [data_mergePropertyTrees (Or.inl rfl), hdata]
  · exact (hvalues.merge hsb haddr (fun v hv => Or.inr hv) hclear (Or.inl rfl)).sound

end KurentoMediaServer.Config
