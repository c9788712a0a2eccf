import KurentoMediaServer.Config.Spoils
import Mathlib.Data.List.Pairwise

/-! Files whose keys do not overlap. A round of the loop for one key touches nothing beside
its place, so the order of the keys does not matter: merging such a file spoils a tree
exactly when a value of either is on the way to what the file sets. -/

namespace KurentoMediaServer.Config

open Foundations KeyedTree

/-- At every object, no key's path begins with the path of another key. -/
def Tidy (b : PTree) : Prop :=
  Within PTree.isObject (fun n => (∀ k ∈ n.keys, "" ∉ place k) ∧
    n.children.Pairwise fun p q => ¬ place p.1 <+: place q.1 ∧ ¬ place q.1 <+: place p.1) b

theorem Tidy.addressable {b : PTree} (h : Tidy b) : Addressable b :=
  h.imp fun _ hn k hk hl => hn.1 k hk (List.mem_of_getLast? hl)

variable {t : PTree} {k j : String} {F v : List String}

theorem cString_ne_of_apart (hj : '.' ∉ j.toList) (h : ¬ place k <+: j :: F) : cString k ≠ j := by
  rintro rfl
  rw [place, fragments_of_dot_notMem hj] at h
  exact h (by simp)

/-- A round of the loop leaves the look-up of every path beside its place alone. -/
theorem walk_mergeStep (hj : '.' ∉ j.toList) (h : ¬ place k <+: j :: F) (h' : ¬ j :: F <+: place k)
    (sub : PTree) (level : ℕ) : walk (j :: F) (mergeStep t k sub level) = walk (j :: F) t := by
  have hf := dropLast_append_getLastD (cString k)
  rw [mergeStep, PTree.addChild, walk_forceAt_push_of_diverge,
    walk_erase_of_ne (cString_ne_of_apart hj h).symm]
  · rw [hf]; exact h
  · rw [hf]; exact h'

/-- It keeps the data on the way to every other place. -/
theorem data_walk_mergeStep {n : PTree} (hF : ∀ i ∈ F, '.' ∉ i.toList) (h : ¬ place k <+: F)
    (hv : v <+: F) (hw : walk v t = some n) (sub : PTree) (level : ℕ) :
    ∃ n', walk v (mergeStep t k sub level) = some n' ∧ n'.data = n.data := by
  have hf := dropLast_append_getLastD (cString k)
  have hkv : ¬ place k <+: v := fun hp => h (hp.trans hv)
  have herase : walk v (t.erase (cString k)) = some (if v = [] then t.erase (cString k) else n) := by
    cases v with
    | nil => rfl
    | cons j v =>
      have hj : '.' ∉ j.toList := hF j (hv.subset List.mem_cons_self)
      rw [walk_erase_of_ne (cString_ne_of_apart hj hkv).symm, hw]
      rfl
  have hdata : (if v = [] then t.erase (cString k) else n).data = n.data := by
    split_ifs with hnil
    · subst hnil
      cases hw
      rfl
    · rfl
  rw [mergeStep, PTree.addChild]
  by_cases hvk : v <+: place k
  · -- the path is on the way to the place of `k`
    have hinit : v <+: (fragments (cString k)).dropLast := by
      rw [place, ← hf, List.prefix_concat_iff] at hvk
      have hk : v = (fragments (cString k)).dropLast ++ [(fragments (cString k)).getLastD ""] →
          place k = v := fun he => by rw [he, hf, place]
      exact hvk.resolve_left fun he => hkv (hk he ▸ List.prefix_rfl)
    obtain ⟨u, hu⟩ := hinit
    rw [← hu, walk_forceAt_prefix, herase]
    refine ⟨_, rfl, ?_⟩
    cases u with
    | nil => exact hdata
    | cons i u => exact hdata
  · rw [walk_forceAt_push_of_diverge, herase]
    · exact ⟨_, rfl, hdata⟩
    · rw [hf]; exact hkv
    · rw [hf]; exact hvk

/-! ### A value on the way -/

section Way
variable {cs ds : List (String × PTree)} {p : String × PTree} {level : ℕ}

theorem walk_mergeChildren_of_apart
    (hcs : ∀ q ∈ cs, ¬ place q.1 <+: place k ∧ ¬ place k <+: place q.1) :
    walk (place k) (mergeChildren t cs level) = walk (place k) t := by
  obtain ⟨j, F, hF⟩ : ∃ j F, place k = j :: F :=
    List.exists_cons_of_ne_nil (fragments_ne_nil (cString k))
  have hj : '.' ∉ j.toList := dot_notMem_place (k := k) (by rw [hF]; exact List.mem_cons_self)
  refine mergeChildren_induction (I := fun s => walk (place k) s = walk (place k) t)
    (fun q hq s hs => ?_) rfl
  obtain ⟨hqk, hkq⟩ := hcs q hq
  rw [hF] at hqk hkq
  rw [← hs, hF]
  exact walk_mergeStep hj hqk hkq q.2 level

theorem data_walk_mergeChildren (hcs : ∀ q ∈ cs, ¬ place q.1 <+: place k) {n : PTree}
    (hv : v <+: place k) (hw : walk v t = some n) (level : ℕ) :
    ∃ n', walk v (mergeChildren t cs level) = some n' ∧ n'.data = n.data := by
  refine mergeChildren_induction (I := fun s => ∃ n', walk v s = some n' ∧ n'.data = n.data)
    (fun q hq s hs => ?_) ⟨n, hw, rfl⟩
  obtain ⟨n', hw', hd'⟩ := hs
  obtain ⟨n'', hw'', hd''⟩ := data_walk_mergeStep (fun _ hi => dot_notMem_place hi) (hcs q hq) hv hw'
    q.2 level
  exact ⟨n'', hw'', hd''.trans hd'⟩

/-- The keys beside a key of a tidy object lead elsewhere. -/
theorem Tidy.apart {b : PTree} (hb : Tidy b) (hcs : b.children = cs ++ p :: ds) :
    (∀ q ∈ cs, ¬ place q.1 <+: place p.1 ∧ ¬ place p.1 <+: place q.1) ∧
      ∀ q ∈ ds, ¬ place q.1 <+: place p.1 := by
  have hpair := hb.root.2
  rw [hcs] at hpair
  obtain ⟨-, hpd, hcp⟩ := List.pairwise_append.mp hpair
  exact ⟨fun q hq => hcp q hq p List.mem_cons_self, fun q hq =>
    ((List.pairwise_cons.mp hpd).1 q hq).2⟩

/-- So no later key erases the first part of its place. -/
theorem not_erases_of_apart (hds : ∀ q ∈ ds, ¬ place q.1 <+: place k) (hj : [j] <+: place k) :
    ¬ Erases ds j := by
  rintro ⟨q, hq, rfl⟩
  refine hds q hq ?_
  rwa [place, fragments_of_dot_notMem (dot_notMem_place (k := k) (hj.subset List.mem_cons_self))]

theorem Tidy.spoils_of_way {b : PTree} (hb : Tidy b) (hcs : b.children = cs ++ p :: ds) {n : PTree}
    (hw : walk v t = some n) (hd : n.data ≠ "") (hpre : v <+: place p.1) (hne : v ≠ place p.1) :
    Spoils t b := by
  obtain ⟨hbefore, hafter⟩ := hb.apart hcs
  cases v with
  | nil =>
    cases hw
    exact .root hd (by simp [hcs])
  | cons j v =>
    obtain ⟨n', hw', hd'⟩ := data_walk_mergeChildren (fun q hq => (hbefore q hq).1) hpre hw 0
    have hj : [j] <+: place p.1 := .trans (by simp) hpre
    exact .way hcs ⟨v, n', hpre, hne, hw', by rwa [hd']⟩ (not_erases_of_apart hafter hj)

end Way

/-- If a value of `t` is on the way to what merging `b` sets, the merge spoils `t`. -/
theorem spoils_of_value {b : PTree} {w : List String} (hw : Sets b w) (hb : Tidy b) {n : PTree}
    (hv : walk v t = some n) (hd : n.data ≠ "") (hpre : v <+: w) (hne : v ≠ w) : Spoils t b := by
  induction hw generalizing t v n with
  | @key b p hp =>
    obtain ⟨cs, ds, hcs⟩ := List.append_of_mem hp
    exact hb.spoils_of_way hcs hv hd hpre hne
  | @inside b p q hp ho hq ih =>
    obtain ⟨cs, ds, hcs⟩ := List.append_of_mem hp
    by_cases hvp : place p.1 <+: v
    · -- the value is below the place of `p`, in the node that its object is merged into
      obtain ⟨hbefore, hafter⟩ := hb.apart hcs
      obtain ⟨v, rfl⟩ := hvp
      obtain ⟨c, hc, hvc⟩ := Option.bind_eq_some_iff.mp (by rwa [walk_append] at hv)
      have hsteps : steps (cString p.1) = place p.1 :=
        steps_of_getLast? (hb.addressable.root p.1 (List.mem_map_of_mem hp))
      have hchild : PTree.getChild (mergeChildren t cs 0) (cString p.1) default = c := by
        rw [PTree.getChild, PTree.getChildOptional, hsteps, walk_mergeChildren_of_apart hbefore, hc]
        rfl
      obtain ⟨j, F, hF⟩ := List.exists_cons_of_ne_nil (fragments_ne_nil (cString p.1))
      have hj : [j] <+: place p.1 := by simp [place, hF]
      refine .inside hcs hj ho ?_ (not_erases_of_apart hafter hj)
      rw [hchild]
      exact ih (hb.child hp ho) hvc hd ((List.prefix_append_right_inj _).mp hpre)
        fun he => hne (by rw [he])
    · have hvp' : v <+: place p.1 :=
        (List.prefix_or_prefix_of_prefix hpre (List.prefix_append _ _)).resolve_right hvp
      exact hb.spoils_of_way hcs hv hd hvp' fun he => hvp (he ▸ List.prefix_rfl)

/-! ### Values of the file itself -/

theorem Tidy.eq_of_prefix {b : PTree} (hb : Tidy b) {p q : String × PTree} {w : List String}
    (hp : p ∈ b.children) (hq : q ∈ b.children) (hpw : place p.1 <+: w) (hqw : place q.1 <+: w) :
    p = q := by
  by_contra hne
  have hsymm : Std.Symm fun p q : String × PTree =>
      ¬ place p.1 <+: place q.1 ∧ ¬ place q.1 <+: place p.1 := ⟨fun _ _ h => ⟨h.2, h.1⟩⟩
  have hapart := hb.root.2.forall hp hq hne
  rcases List.prefix_or_prefix_of_prefix hpw hqw with h | h
  · exact hapart.1 h
  · exact hapart.2 h

/-- Among the keys of a tidy tree no value is on the way to another key. -/
theorem Tidy.values_clear {b : PTree} (hb : Tidy b) {v w : List String} (hv : Values b v)
    (hw : Sets b w) (hpre : v <+: w) : v = w := by
  induction hv generalizing w with
  | @copied b s p q hp ho hs hd =>
    have hpw : place p.1 <+: w := (List.prefix_append _ _).trans hpre
    cases hw with
    | @key _ p' hp' =>
      obtain rfl := hb.eq_of_prefix hp hp' hpw List.prefix_rfl
      exact hpre.eq_of_length_le (by simp)
    | @inside _ p' q' hp' ho' hq' =>
      obtain rfl := hb.eq_of_prefix hp hp' hpw (List.prefix_append _ _)
      rw [ho] at ho'
      exact absurd ho' Bool.false_ne_true
  | @inside b p v hp ho hv ih =>
    have hpw : place p.1 <+: w := (List.prefix_append _ _).trans hpre
    cases hw with
    | @key _ p' hp' =>
      obtain rfl := hb.eq_of_prefix hp hp' hpw List.prefix_rfl
      exact hpre.eq_of_length_le (by simp)
    | @inside _ p' q' hp' ho' hq' =>
      obtain rfl := hb.eq_of_prefix hp hp' hpw (List.prefix_append _ _)
      rw [ih (hb.child hp ho) hq' ((List.prefix_append_right_inj _).mp hpre)]

theorem Tidy.ne_empty_of_sets {b : PTree} (hb : Tidy b) {w : List String} (hw : Sets b w)
    {k : String} (hk : k ∈ w) : k ≠ "" := by
  induction hw with
  | @key b p hp =>
    rintro rfl
    exact hb.root.1 p.1 (List.mem_map_of_mem hp) hk
  | @inside b p q hp ho _ ih =>
    rcases List.mem_append.mp hk with hk | hk
    · rintro rfl
      exact hb.root.1 p.1 (List.mem_map_of_mem hp) hk
    · exact ih (hb.child hp ho) hk

/-- Outside arrays look-up reaches every node of a well keyed tree. -/
theorem WellKeyed.walk_of_at {a s : PTree} (ha : WellKeyed a) {v : List String} (h : At v s a)
    (hv : ∀ k ∈ v, k ≠ "") : walk v a = some s := by
  induction h with
  | here => rfl
  | @child k q c s t hc hs ih =>
    obtain ⟨hroot, hchildren⟩ := all_iff.mp ha
    obtain ⟨hk, hq⟩ := List.forall_mem_cons.mp hv
    have ho : PTree.isObject t = true := PTree.isObject_iff.mpr ⟨(k, c), hc, hk⟩
    rw [walk_cons, lookup_of_mem (hroot (isArray_of_isObject ho)).2 hc]
    exact ih (hchildren _ hc) hq

/-- Where no key is on the way to another, merging spoils a tree exactly when a value of
either is on the way to what is set. -/
theorem Tidy.spoils_iff {a b : PTree} (hb : Tidy b) (ha : WellKeyed a) (hva : verifyJson a 0 = true)
    (hvb : verifyJson b 0 = true) : Spoils a b ↔ ¬ Clear a b := by
  obtain ⟨hdata, -⟩ := (verifyJson_zero a).mp hva
  obtain ⟨-, hsb⟩ := (verifyJson_zero b).mp hvb
  constructor
  · intro h hclear
    have hm := ((verifyJson_zero _).mp (verifyJson_merge hva hvb hb.addressable hclear)).2
    exact (all_sound_merge_iff hsb (Or.inl rfl) (Or.inl hdata)).mp hm h
  · intro h
    simp only [Clear, not_forall] at h
    obtain ⟨v, w, hv, hw, hpre, hne⟩ := h
    rcases hv with ⟨s, hs, hd⟩ | hv
    · have hwalk := ha.walk_of_at hs fun k hk => hb.ne_empty_of_sets hw (hpre.subset hk)
      exact spoils_of_value hw hb hwalk hd hpre hne
    · exact absurd (hb.values_clear hv hw hpre) hne

end KurentoMediaServer.Config
