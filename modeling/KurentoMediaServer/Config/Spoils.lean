import KurentoMediaServer.Config.Serialise

/-! Exactly when merging leaves a node with data and children. The keys of `b` are merged
one after the other, each into the tree that the keys before it have left. A key that finds
data on the way to its place puts a child below that data. What a key spoils is mended only
when a later key of the same object is, as it stands, the first part of that place: then
the code erases all there is under it. -/

namespace KurentoMediaServer.Config

open Foundations KeyedTree

variable {t b : PTree} {k j : String} {cs : List (String × PTree)} {level : ℕ}

/-! ### What a round of the loop spoils -/

/-- A node with data and children at the key `j` or below. -/
def Clash (j : String) (t : PTree) : Prop := ∃ q n, At (j :: q) n t ∧ ¬ Sound n

theorem not_all_sound_iff : ¬ All Sound t ↔ ¬ Sound t ∨ ∃ j, Clash j t := by
  constructor
  · intro h
    obtain ⟨q, n, hn, hs⟩ : ∃ q n, At q n t ∧ ¬ Sound n := by simpa [All] using h
    cases hn with
    | here => exact Or.inl hs
    | @child j q c _ _ hc hn => exact Or.inr ⟨j, q, n, .child hc hn, hs⟩
  · rintro (h | ⟨j, q, n, hn, hs⟩) hall
    · exact h (hall [] t (.here t))
    · exact hs (hall _ n hn)

/-- On the way to the place of `k`, below the key `j`, a node has data. -/
def DataOnWay (t : PTree) (k j : String) : Prop :=
  ∃ v n, j :: v <+: place k ∧ j :: v ≠ place k ∧ walk (j :: v) t = some n ∧ n.data ≠ ""

theorem place_eq_append (k : String) :
    place k = (fragments (cString k)).dropLast ++ [(fragments (cString k)).getLastD ""] :=
  (dropLast_append_getLastD (cString k)).symm

theorem dot_notMem_place (h : j ∈ place k) : '.' ∉ j.toList := fun hm =>
  (mem_of_mem_fragments h hm).2 rfl

/-- A key that is erased as it stands is no part of a longer way. -/
theorem ne_of_prefix_dropLast {v : List String} (h : j :: v <+: (fragments (cString k)).dropLast) :
    j ≠ cString k := by
  rintro rfl
  have hj : '.' ∉ (cString k).toList := by
    refine dot_notMem_place (k := k) ?_
    rw [place_eq_append]
    exact List.mem_append_left _ (h.subset List.mem_cons_self)
  rw [fragments_of_dot_notMem hj, List.dropLast_singleton, List.prefix_nil] at h
  cases h

section Step
variable {sub : PTree}

/-- A round puts the merged child at the place of its key, once the key is erased as it
stands. -/
theorem mergeStep_eq (t : PTree) (k : String) (sub : PTree) (level : ℕ) :
    mergeStep t k sub level = forceAt (fun parent => parent.push ((fragments (cString k)).getLastD "")
      (mergePropertyTrees (PTree.getChild t (cString k) default) sub (level + 1)))
      (fragments (cString k)).dropLast (t.erase (cString k)) := rfl

theorem Clash.mergeStep (h : Clash j t) (hj : cString k ≠ j) : Clash j (mergeStep t k sub level) := by
  obtain ⟨q, n, hn, hs⟩ := h
  rw [mergeStep_eq]
  obtain ⟨n', hn', hd', hc'⟩ := at_forceAt_push_of_at (at_erase_of_ne hn (Ne.symm hj))
  simp only [Sound, not_or] at hs
  exact ⟨q, n', hn', by simpa [Sound, hd'] using ⟨hs.1, hc' hs.2⟩⟩

theorem DataOnWay.clash_mergeStep (h : DataOnWay t k j) : Clash j (mergeStep t k sub level) := by
  obtain ⟨v, n, hv, hne, hw, hd⟩ := h
  rw [place_eq_append, List.prefix_concat_iff, ← place_eq_append] at hv
  obtain ⟨u, hu⟩ := hv.resolve_left hne
  have hstep := walk_forceAt_prefix (fun parent => parent.push
    ((fragments (cString k)).getLastD "")
    (mergePropertyTrees (PTree.getChild t (cString k) default) sub (level + 1)))
    (j :: v) u (t.erase (cString k))
  rw [hu, walk_erase_of_ne (ne_of_prefix_dropLast ⟨u, hu⟩), hw, Option.getD_some] at hstep
  refine ⟨v, _, at_of_walk hstep, ?_⟩
  rw [Sound, not_or]
  refine ⟨?_, children_forceAt_push_ne_nil _ _ _ _⟩
  cases u with
  | nil => exact hd
  | cons x u => exact hd

theorem clash_mergeStep_of_child (hj : [j] <+: place k)
    (hc : ¬ All Sound (mergePropertyTrees (PTree.getChild t (cString k) default) sub (level + 1))) :
    Clash j (mergeStep t k sub level) := by
  obtain ⟨q, n, hn, hs⟩ := by simpa [All] using hc
  obtain ⟨F, hF⟩ := hj
  have hput := at_forceAt_push (fragments (cString k)).dropLast ((fragments (cString k)).getLastD "")
    (mergePropertyTrees (PTree.getChild t (cString k) default) sub (level + 1)) (t.erase (cString k))
  rw [← place_eq_append, ← hF] at hput
  exact ⟨F ++ q, n, hput.append hn, hs⟩

/-- There is no other way for a round to leave such a node. -/
theorem clash_mergeStep_cases (h : Clash j (mergeStep t k sub level)) :
    (Clash j t ∧ cString k ≠ j) ∨ DataOnWay t k j ∨ ([j] <+: place k ∧
      ¬ All Sound (mergePropertyTrees (PTree.getChild t (cString k) default) sub (level + 1))) := by
  have hplace := place_eq_append k
  obtain ⟨q, n, hn, hs⟩ := h
  rw [mergeStep_eq] at hn
  rcases of_at_forceAt_push hn with ⟨-, ho⟩ | ⟨r, hq, hr⟩ | ⟨hq, he⟩
  · obtain ⟨c, hc, hn⟩ := at_cons.mp ho
    obtain ⟨hc, hj⟩ := List.mem_filter.mp hc
    exact Or.inl ⟨⟨q, n, .child hc hn, hs⟩, fun he => of_decide_eq_true hj he.symm⟩
  · refine Or.inr (Or.inr ⟨?_, fun h => hs (h r n hr)⟩)
    have hjq : j :: q = place k ++ r := by rw [hq, hplace]; simp
    obtain ⟨i, F, hF⟩ := List.exists_cons_of_ne_nil (fragments_ne_nil (cString k))
    rw [place, hF, List.cons_append, List.cons.injEq] at hjq
    rw [place, hF, hjq.1]
    simp
  · have hw : walk (j :: q) (t.erase (cString k)) = walk (j :: q) t :=
      walk_erase_of_ne (ne_of_prefix_dropLast hq) q t
    have hd : n.data ≠ "" := fun hd => hs (Or.inl hd)
    rw [he, hw] at hd
    refine Or.inr (Or.inl ⟨q, (walk (j :: q) t).getD default, ?_, ?_, ?_, hd⟩)
    · rw [hplace]
      exact hq.trans (List.prefix_append _ _)
    · intro hjq
      have hl := hq.length_le
      have hlen := congrArg List.length hjq
      rw [hplace, List.length_append, List.length_singleton] at hlen
      omega
    · cases hwalk : walk (j :: q) t with
      | none => rw [hwalk] at hd; exact absurd rfl hd
      | some m => rfl

/-- After a round there is a node with data and children below `j` if there was one that is
not erased, if there is data on the way below `j`, or if the child that is put below `j`
has such a node. -/
theorem clash_mergeStep_iff : Clash j (mergeStep t k sub level) ↔
    (Clash j t ∧ cString k ≠ j) ∨ DataOnWay t k j ∨ ([j] <+: place k ∧
      ¬ All Sound (mergePropertyTrees (PTree.getChild t (cString k) default) sub (level + 1))) := by
  constructor
  · exact clash_mergeStep_cases
  · rintro (⟨h, hj⟩ | h | ⟨hj, hc⟩)
    · exact h.mergeStep hj
    · exact h.clash_mergeStep
    · exact clash_mergeStep_of_child hj hc

end Step

theorem children_mergeStep_ne_nil (k : String) (t sub : PTree) (level : ℕ) :
    (mergeStep t k sub level).children ≠ [] :=
  children_forceAt_push_ne_nil _ _ _ _

theorem children_mergeChildren_ne_nil (hcs : cs ≠ []) (t : PTree) (level : ℕ) :
    (mergeChildren t cs level).children ≠ [] := by
  cases cs with
  | nil => exact absurd rfl hcs
  | cons p rest =>
    rw [mergeChildren_step]
    exact mergeChildren_induction (I := fun s => s.children ≠ [])
      (fun q _ s _ => children_mergeStep_ne_nil q.1 s q.2 level)
      (children_mergeStep_ne_nil p.1 t p.2 level)

/-! ### The whole loop -/

/-- Below the first level the depth makes no difference. -/
theorem mergePropertyTrees_succ (b t : PTree) (level : ℕ) :
    mergePropertyTrees t b (level + 1) = mergePropertyTrees t b 1 := by
  induction b using KeyedTree.induct generalizing t level with
  | node d cs ih =>
    by_cases hb : PTree.isObject (.node d cs) = true
    · rw [mergePropertyTrees_children (Or.inr hb), mergePropertyTrees_children (Or.inr hb),
        children_node]
      clear hb
      induction cs generalizing t with
      | nil => rw [mergeChildren_nil, mergeChildren_nil]
      | cons p rest ihr =>
        rw [List.forall_mem_cons] at ih
        rw [mergeChildren_step, mergeChildren_step, mergeStep, mergeStep, ih.1 _ (level + 1),
          ih.1 _ 1, ihr ih.2]
    · have hcopy : PTree.isObject (.node d cs) = false := by simpa using hb
      rw [mergePropertyTrees_copy hcopy, mergePropertyTrees_copy hcopy]

theorem mergeChildren_level (t : PTree) (cs : List (String × PTree)) (level : ℕ) :
    mergeChildren t cs level = mergeChildren t cs 0 := by
  induction cs generalizing t with
  | nil => rw [mergeChildren_nil, mergeChildren_nil]
  | cons p rest ih =>
    rw [mergeChildren_step, mergeChildren_step, mergeStep, mergeStep, mergePropertyTrees_succ, ih]

/-- One of the keys is `j` as it stands: all there is under `j` is erased. -/
def Erases (cs : List (String × PTree)) (j : String) : Prop := ∃ q ∈ cs, cString q.1 = j

/-- The key `p`, when it is its turn, spoils something below `j`. -/
def StepSpoils (t : PTree) (p : String × PTree) (j : String) : Prop :=
  DataOnWay t p.1 j ∨ ([j] <+: place p.1 ∧
    ¬ All Sound (mergePropertyTrees (PTree.getChild t (cString p.1) default) p.2 1))

/-- After the loop there is a node with data and children below `j` if there was one, or
one of the keys has made one, and no later key erases what is under `j`. -/
theorem clash_mergeChildren_iff : Clash j (mergeChildren t cs 0) ↔ (Clash j t ∧ ¬ Erases cs j) ∨
    ∃ ds p es, cs = ds ++ p :: es ∧ StepSpoils (mergeChildren t ds 0) p j ∧ ¬ Erases es j := by
  induction cs generalizing t with
  | nil => simp [mergeChildren_nil, Erases]
  | cons p rest ih =>
    rw [mergeChildren_step, ih, clash_mergeStep_iff]
    have herase : Erases (p :: rest) j ↔ cString p.1 = j ∨ Erases rest j := by simp [Erases]
    rw [herase, not_or]
    constructor
    · rintro (⟨⟨hc, hp⟩ | hp, hr⟩ | ⟨ds, q, es, rfl, hq, he⟩)
      · exact Or.inl ⟨hc, hp, hr⟩
      · exact Or.inr ⟨[], p, rest, rfl, by rwa [mergeChildren_nil], hr⟩
      · exact Or.inr ⟨p :: ds, q, es, rfl, by rwa [mergeChildren_step], he⟩
    · rintro (⟨hc, hp, hr⟩ | ⟨ds, q, es, hcs, hq, he⟩)
      · exact Or.inl ⟨Or.inl ⟨hc, hp⟩, hr⟩
      · cases ds with
        | nil =>
          obtain ⟨rfl, rfl⟩ := List.cons.inj hcs
          rw [mergeChildren_nil] at hq
          exact Or.inl ⟨Or.inr hq, he⟩
        | cons d ds =>
          obtain ⟨rfl, rfl⟩ := List.cons.inj hcs
          rw [mergeChildren_step] at hq
          exact Or.inr ⟨ds, q, es, rfl, hq, he⟩

/-- Merging `b` into `t` puts a child below data, and no later key erases it. -/
inductive Spoils : PTree → PTree → Prop
  /-- The tree itself has data. -/
  | root {t b : PTree} (hd : t.data ≠ "") (hb : b.children ≠ []) : Spoils t b
  /-- There is data on the way to the place of a key. -/
  | way {t b : PTree} {ds es : List (String × PTree)} {p : String × PTree} {j : String}
      (hb : b.children = ds ++ p :: es) (h : DataOnWay (mergeChildren t ds 0) p.1 j)
      (hlast : ¬ Erases es j) : Spoils t b
  /-- The object under a key spoils the node that it is merged into. -/
  | inside {t b : PTree} {ds es : List (String × PTree)} {p : String × PTree} {j : String}
      (hb : b.children = ds ++ p :: es) (hj : [j] <+: place p.1) (ho : p.2.isObject = true)
      (h : Spoils (PTree.getChild (mergeChildren t ds 0) (cString p.1) default) p.2)
      (hlast : ¬ Erases es j) : Spoils t b
  /-- An earlier key has spoilt the tree. -/
  | before {t b : PTree} {j : String} (h : Clash j t) (hlast : ¬ Erases b.children j) : Spoils t b

/-- A merge leaves a node with data and children exactly when it spoils the tree. -/
theorem all_sound_merge_iff {b : PTree} (hb : All Sound b) {level : ℕ}
    (hl : level = 0 ∨ b.isObject = true) {t : PTree} (ht : t.data = "" ∨ b.children ≠ []) :
    All Sound (mergePropertyTrees t b level) ↔ ¬ Spoils t b := by
  induction b using KeyedTree.induct generalizing t level with
  | node d cs ih =>
    obtain ⟨-, hsound⟩ := all_iff.mp hb
    have hsub : ∀ p ∈ cs, ∀ s : PTree, ¬ All Sound (mergePropertyTrees s p.2 1) ↔
        PTree.isObject p.2 = true ∧ Spoils s p.2 := by
      intro p hp s
      by_cases ho : PTree.isObject p.2 = true
      · rw [ih p hp (hsound p hp) (Or.inr ho) (Or.inr (PTree.children_ne_nil_of_isObject ho)),
          not_not, and_iff_right ho]
      · rw [mergePropertyTrees_copy (by simpa using ho)]
        exact iff_of_false (not_not_intro (hsound p hp)) fun h => ho h.1
    have hdata := data_mergePropertyTrees hl t
    rw [mergePropertyTrees_children hl] at hdata ⊢
    rw [mergeChildren_level, children_node] at hdata ⊢
    rw [← not_iff_not, not_not, not_all_sound_iff]
    constructor
    · rintro (hs | ⟨j, hj⟩)
      · rw [Sound, hdata, not_or] at hs
        exact .root hs.1 (ht.resolve_left hs.1)
      · rcases clash_mergeChildren_iff.mp hj with ⟨hc, he⟩ | ⟨ds, p, es, rfl, hp, he⟩
        · exact .before hc he
        · rcases hp with hway | ⟨hplace, hchild⟩
          · exact .way rfl hway he
          · obtain ⟨ho, h⟩ := (hsub p (by simp) _).mp hchild
            exact .inside rfl hplace ho h he
    · intro h
      cases h with
      | root hd hcs =>
        left
        rw [Sound, hdata, not_or]
        exact ⟨hd, children_mergeChildren_ne_nil hcs t 0⟩
      | @way _ _ ds es p j hcs hway he =>
        exact Or.inr ⟨j, clash_mergeChildren_iff.mpr (Or.inr ⟨ds, p, es, hcs, Or.inl hway, he⟩)⟩
      | @inside _ _ ds es p j hcs hplace ho h he =>
        rw [children_node] at hcs
        have hchild := (hsub p (by rw [hcs]; simp) _).mpr ⟨ho, h⟩
        exact Or.inr ⟨j, clash_mergeChildren_iff.mpr
          (Or.inr ⟨ds, p, es, hcs, Or.inr ⟨hplace, hchild⟩, he⟩)⟩
      | @before _ _ j hc he =>
        exact Or.inr ⟨j, clash_mergeChildren_iff.mpr (Or.inl ⟨hc, he⟩)⟩

end KurentoMediaServer.Config
