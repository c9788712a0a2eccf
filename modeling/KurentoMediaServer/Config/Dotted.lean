import KurentoMediaServer.Config.Ini

/-! A dotted name in an INI file. Merging the file once more adds a further node at
the path of the name, so the law of INI files fails for every file with such a name,
unless the file itself has another entry on that path. -/

namespace KurentoMediaServer.Config

open Foundations KeyedTree

/-- The entries of a file, each with the section it stands in. -/
def settings (b : PTree) : List (String × Option String) :=
  b.children.flatMap fun p =>
    if PTree.empty p.2 then [(p.1, none)] else p.2.children.map fun e => (p.1, some e.1)

/-- The path that an entry is meant for. -/
def settingPath : String × Option String → List String
  | (p, none) => fragments p
  | (p, some e) => fragments p ++ fragments e

/-- The name of the entry, or of its section, has a dot. -/
def Dotted (x : String × Option String) : Prop :=
  '.' ∈ x.1.toList ∨ ∃ e, x.2 = some e ∧ '.' ∈ e.toList

/-- Another entry of the file stands at the path of this one or on the way to it. -/
def Crossed (b : PTree) (x : String × Option String) : Prop :=
  ∃ y ∈ settings b, y ≠ x ∧ settingPath y <+: settingPath x

variable {b t : PTree} {p e : String × PTree}

theorem mem_settings_leaf (hp : p ∈ b.children) (hc : p.2.children = []) :
    (p.1, none) ∈ settings b := by
  refine List.mem_flatMap.mpr ⟨p, hp, ?_⟩
  simp [PTree.empty, hc]

theorem mem_settings_entry (hp : p ∈ b.children) (he : e ∈ p.2.children) :
    (p.1, some e.1) ∈ settings b := by
  refine List.mem_flatMap.mpr ⟨p, hp, ?_⟩
  have hc : p.2.children ≠ [] := List.ne_nil_of_mem he
  rw [PTree.empty, if_neg (by simpa using hc)]
  exact List.mem_map_of_mem he

theorem of_mem_settings {x : String × Option String} (hx : x ∈ settings b) :
    ∃ p ∈ b.children, x.1 = p.1 ∧ (x.2 = none ∨ ∃ e ∈ p.2.children, x.2 = some e.1) := by
  obtain ⟨p, hp, hm⟩ := List.mem_flatMap.mp hx
  split_ifs at hm
  · rw [List.mem_singleton.mp hm]
    exact ⟨p, hp, rfl, Or.inl rfl⟩
  · obtain ⟨e, he, rfl⟩ := List.mem_map.mp hm
    exact ⟨p, hp, rfl, Or.inr ⟨e, he, rfl⟩⟩

theorem settingPath_eq (x : String × Option String) :
    settingPath x = fragments x.1 ++ x.2.elim [] fragments := by
  obtain ⟨p, _ | e⟩ := x
  · exact (List.append_nil _).symm
  · rfl

/-! ### Nodes at a path -/

theorem mult_addChild (path : String) (q : List String) (t c : PTree) :
    mult q t + (if q = fragments path then 1 else 0) ≤ mult q (t.addChild path c) := by
  have h := mult_forceAt_push (fragments path).dropLast q ((fragments path).getLastD "") c t
  rwa [dropLast_append_getLastD] at h

theorem mult_mergeStep_of_ne {k j : String} (hk : cString k ≠ j) (q : List String)
    (t sub : PTree) (level : ℕ) :
    mult (j :: q) t + (if j :: q = fragments (cString k) then 1 else 0) ≤
      mult (j :: q) (mergeStep t k sub level) := by
  have h := mult_addChild (cString k) (j :: q) (t.erase (cString k))
    (mergePropertyTrees (PTree.getChild t (cString k) default) sub (level + 1))
  rwa [mult_erase_of_ne hk.symm] at h

theorem mult_mergeChildren_of_ne {cs : List (String × PTree)} {j : String}
    (hj : ∀ p ∈ cs, cString p.1 ≠ j) (q : List String) (t : PTree) (level : ℕ) :
    mult (j :: q) t + (if ∃ p ∈ cs, j :: q = fragments (cString p.1) then 1 else 0) ≤
      mult (j :: q) (mergeChildren t cs level) := by
  induction cs generalizing t with
  | nil => simp [mergeChildren_nil]
  | cons p rest ih =>
    obtain ⟨hp, hrest⟩ := List.forall_mem_cons.mp hj
    have hstep := mult_mergeStep_of_ne hp q t p.2 level
    have htail := ih hrest (mergeStep t p.1 p.2 level)
    rw [mergeChildren_step]
    simp only [List.mem_cons, exists_eq_or_imp]
    split_ifs at hstep htail ⊢ <;> grind

/-- `p` leaves the nodes at the path `j.j'` alone: it is not an entry `j`, nor a section
`j` with an entry `j'`. -/
def Beside (j j' : String) (p : String × PTree) : Prop :=
  p.1 = j → p.2.children ≠ [] ∧ ∀ e ∈ p.2.children, e.1 ≠ j'

/-- `p` adds a node at the path `j.q`. -/
def Adds (j : String) (q : List String) (p : String × PTree) : Prop :=
  j :: q = fragments p.1 ∨ (p.1 = j ∧ ∃ e ∈ p.2.children, q = fragments e.1)

theorem mult_child_le (ht : t.keys.Nodup) (j : String) (q : List String) :
    mult (j :: q) t ≤ mult q (t.child j) := by
  rw [mult_cons, total_of_nodup ht, KeyedTree.child]
  cases t.children.lookup j with
  | none => exact Nat.zero_le _
  | some c => exact Nat.le_refl _

theorem mult_erase_push (j : String) (q : List String) (t c : PTree) :
    mult (j :: q) ((t.erase j).push j c) = mult q c := by
  have hz : j ∉ (t.erase j).children.map Prod.fst := by
    intro hm
    obtain ⟨p, hp, he⟩ := List.mem_map.mp hm
    simpa [he] using (List.mem_filter.mp hp).2
  rw [mult_cons, children_push, total_append, total_eq_zero hz]
  simp [total]

/-- A round of the loop over the file lowers the number of nodes at a path it has
nothing beside, and raises it where it adds one. -/
theorem mult_mergeStep (hb : IsIni b) (hn : Names ('\x00' ∉ ·.toList) b) (hp : p ∈ b.children)
    (ht : t.keys.Nodup) {j j' : String} {q : List String} (hj : '.' ∉ j.toList)
    (hbeside : Beside j j' p) :
    mult (j :: j' :: q) t ≤ mult (j :: j' :: q) (mergeStep t p.1 p.2 0) ∧
      (Adds j (j' :: q) p →
        mult (j :: j' :: q) t + 1 ≤ mult (j :: j' :: q) (mergeStep t p.1 p.2 0)) := by
  obtain ⟨hnp, hne⟩ := hn p hp
  obtain ⟨hp0, -, hentries⟩ := hb.2 p hp
  by_cases hk : p.1 = j
  · obtain ⟨hc, hother⟩ := hbeside hk
    have hplain : PlainKey p.1 := ⟨hp0, hk ▸ hj, hnp⟩
    have ho : p.2.isObject = true := by
      obtain ⟨e, he⟩ := List.exists_mem_of_ne_nil _ hc
      exact PTree.isObject_iff.mpr ⟨e, he, (hentries e he).1⟩
    have hother' : ∀ e ∈ p.2.children, cString e.1 ≠ j' := fun e he => by
      rw [cString_eq (hne e he)]
      exact hother e he
    have hsec := mult_mergeChildren_of_ne hother' q (t.child j) (0 + 1)
    have hle := mult_child_le ht j (j' :: q)
    rw [mergeStep_of_plain hplain, mergePropertyTrees_children (Or.inr ho), hk, mult_erase_push]
    refine ⟨by omega, fun ha => ?_⟩
    have hadd : ∃ e ∈ p.2.children, j' :: q = fragments (cString e.1) := by
      rcases ha with ha | ⟨-, e, he, ha⟩
      · rw [hk, fragments_of_dot_notMem hj] at ha
        simp at ha
      · exact ⟨e, he, by rwa [cString_eq (hne e he)]⟩
    rw [if_pos hadd] at hsec
    omega
  · have hstep := mult_mergeStep_of_ne (k := p.1) (j := j) (by rwa [cString_eq hnp]) (j' :: q) t
      p.2 0
    rw [cString_eq hnp] at hstep
    refine ⟨by omega, fun ha => ?_⟩
    rw [if_pos (ha.resolve_right fun h => hk h.1)] at hstep
    exact hstep

theorem nodup_mergeStep (k : String) (sub : PTree) (level : ℕ) (ht : t.keys.Nodup) :
    (mergeStep t k sub level).keys.Nodup := by
  have hf := dropLast_append_getLastD (cString k)
  have he : ((t.erase (cString k)).children.map Prod.fst).Nodup :=
    (List.filter_sublist.map Prod.fst).nodup ht
  rw [mergeStep, PTree.addChild]
  cases hd : (fragments (cString k)).dropLast with
  | nil =>
    -- the name has no dot: it is the key that was erased
    rw [hd, List.nil_append] at hf
    have hk := eq_of_fragments_eq_singleton hf.symm
    rw [forceAt_nil, keys, children_push, List.map_append, hk]
    refine List.nodup_append.mpr ⟨he, List.nodup_singleton _, ?_⟩
    intro x hx y hy
    rw [List.map_singleton, List.mem_singleton] at hy
    rw [hy]
    rintro rfl
    obtain ⟨p, hp, hpk⟩ := List.mem_map.mp hx
    simpa [hpk] using (List.mem_filter.mp hp).2
  | cons j js =>
    rw [forceAt_cons]
    exact nodup_upsert he

theorem mult_mergeChildren (hb : IsIni b) (hn : Names ('\x00' ∉ ·.toList) b) {j j' : String}
    {q : List String} (hj : '.' ∉ j.toList) {cs : List (String × PTree)}
    (hcs : ∀ p ∈ cs, p ∈ b.children ∧ Beside j j' p) (ht : t.keys.Nodup) :
    mult (j :: j' :: q) t ≤ mult (j :: j' :: q) (mergeChildren t cs 0) ∧
      ((∃ p ∈ cs, Adds j (j' :: q) p) →
        mult (j :: j' :: q) t + 1 ≤ mult (j :: j' :: q) (mergeChildren t cs 0)) := by
  induction cs generalizing t with
  | nil => simp [mergeChildren_nil]
  | cons p rest ih =>
    obtain ⟨⟨hp, hbeside⟩, hrest⟩ := List.forall_mem_cons.mp hcs
    obtain ⟨hle, hadd⟩ := mult_mergeStep (q := q) hb hn hp ht hj hbeside
    obtain ⟨htail, haddTail⟩ := ih hrest (nodup_mergeStep p.1 p.2 0 ht)
    rw [mergeChildren_step]
    refine ⟨Nat.le_trans hle htail, ?_⟩
    rintro ⟨x, hx, ha⟩
    rcases List.mem_cons.mp hx with rfl | hx
    · exact Nat.le_trans (hadd ha) htail
    · have h := haddTail ⟨x, hx, ha⟩
      omega

/-! ### The law fails -/

/-- In a file that adds a node below two plain keys and has nothing beside it, merging
again changes the result. -/
theorem IniLaw.not_adds {a : PTree} (h : IniLaw a b) (hb : IsIni b)
    (hn : Names ('\x00' ∉ ·.toList) b) {j j' : String} {q : List String} (hj : '.' ∉ j.toList)
    (hbeside : ∀ p ∈ b.children, Beside j j' p) : ¬ ∃ p ∈ b.children, Adds j (j' :: q) p := by
  intro hadd
  have hroot := (all_iff.mp h.distinct).1
  have hmult := (mult_mergeChildren (q := q) hb hn hj (fun p hp => ⟨hp, hbeside p hp⟩) hroot).2 hadd
  have hagain := h.again
  rw [mergePropertyTrees_children (Or.inl rfl) (mergePropertyTrees a b 0)] at hagain
  rw [hagain] at hmult
  omega

/-- What a file has beside an entry `x` on the path `j.j'` that no other entry crosses. -/
theorem beside_of_not_crossed {x : String × Option String} (hx : ¬ Crossed b x) {j j' : String}
    (hj : '.' ∉ j.toList) (hj' : '.' ∉ j'.toList) (hpath : [j, j'] <+: settingPath x)
    (hleaf : x ≠ (j, none)) (hentry : x ≠ (j, some j')) : ∀ p ∈ b.children, Beside j j' p := by
  intro p hp hk
  constructor
  · intro hc
    have hm := mem_settings_leaf hp hc
    rw [hk] at hm
    refine hx ⟨_, hm, hleaf.symm, ?_⟩
    rw [settingPath, fragments_of_dot_notMem hj]
    exact List.IsPrefix.trans (by simp) hpath
  · intro e he hk'
    have hm := mem_settings_entry hp he
    rw [hk, hk'] at hm
    refine hx ⟨_, hm, hentry.symm, ?_⟩
    rw [settingPath, fragments_of_dot_notMem hj, fragments_of_dot_notMem hj']
    exact hpath

theorem dot_notMem_of_mem_fragments {path k : String} (h : k ∈ fragments path) :
    '.' ∉ k.toList := fun hm => (mem_of_mem_fragments h hm).2 rfl

/-- Where the law holds, every entry with a dotted name is crossed by another. -/
theorem IniLaw.crossed {a : PTree} (h : IniLaw a b) (hb : IsIni b)
    (hn : Names ('\x00' ∉ ·.toList) b) {x : String × Option String} (hx : x ∈ settings b)
    (hd : Dotted x) : Crossed b x := by
  by_contra hc
  obtain ⟨p, hp, hxp, hentry⟩ := of_mem_settings hx
  by_cases hdot : '.' ∈ x.1.toList
  · -- the section is added at the path of its name
    obtain ⟨j, j', q, hf⟩ := fragments_of_dot_mem hdot
    have hparts : ∀ i ∈ j :: j' :: q, '.' ∉ i.toList := by
      rw [← hf]
      exact fun i => dot_notMem_of_mem_fragments
    have hj := hparts j List.mem_cons_self
    have hj' := hparts j' (List.mem_cons_of_mem j List.mem_cons_self)
    have hne : x.1 ≠ j := fun he => hj (he ▸ hdot)
    have hpath : [j, j'] <+: settingPath x := by
      rw [settingPath_eq, hf]
      simp
    refine h.not_adds hb hn hj (beside_of_not_crossed hc hj hj' hpath ?_ ?_)
      ⟨p, hp, Or.inl (hxp ▸ hf.symm)⟩
    · exact fun he => hne (congrArg Prod.fst he)
    · exact fun he => hne (congrArg Prod.fst he)
  · -- the section's name is plain, and the entry is added at the path of its own
    obtain ⟨e, hxe, hdote⟩ := hd.resolve_left hdot
    obtain ⟨j', j'', q, hf⟩ := fragments_of_dot_mem hdote
    have hmem : j' ∈ fragments e := by
      rw [hf]
      exact List.mem_cons_self
    have hj' := dot_notMem_of_mem_fragments hmem
    have hpath : [x.1, j'] <+: settingPath x := by
      rw [settingPath_eq, hxe, fragments_of_dot_notMem hdot]
      simp [hf]
    obtain ⟨e', he', hxe'⟩ := hentry.resolve_left fun hl => by simp [hxe] at hl
    have hee : e = e'.1 := Option.some.inj (hxe.symm.trans hxe')
    refine h.not_adds hb hn hdot (beside_of_not_crossed hc hdot hj' hpath ?_ ?_)
      ⟨p, hp, Or.inr ⟨hxp.symm, e', he', by rw [← hee]; exact hf.symm⟩⟩
    · intro he
      rw [he] at hxe
      exact Option.some_ne_none e hxe.symm
    · intro he
      rw [he] at hxe
      exact hj' (Option.some.inj hxe ▸ hdote)

/-- With plain names the law holds over every tree. A null character in a name breaks it
over some tree. A dot in a name breaks it over every tree, unless another entry of the file
crosses every entry of a dotted name. -/
theorem iniLaw_of_names (hb : IsIni b) :
    (Names PlainKey b → ∀ a, Distinct a → IniLaw a b) ∧
    ((∀ a, Distinct a → IniLaw a b) → Names ('\x00' ∉ ·.toList) b) ∧
    (Names ('\x00' ∉ ·.toList) b → ∀ a, IniLaw a b →
      ∀ x ∈ settings b, Dotted x → Crossed b x) := by
  refine ⟨fun hn a ha => iniLaw_of_plain hb hn ha, fun h => ?_, fun hn a h x hx hd => ?_⟩
  · refine names_nulFree hb (h default ?_)
    exact all_iff.mpr ⟨List.nodup_nil, by simp⟩
  · exact h.crossed hb hn hx hd

/-- `[net] port=9999` over `{"net": {"path": "kurento", "port": "8888"}}`. -/
theorem iniLaw_of_names_port :
    IniLaw (.node "" [("net", .node "" [("path", .node "kurento" []), ("port", .node "8888" [])])])
      (.node "" [("net", .node "" [("port", .node "9999" [])])]) := by
  refine (iniLaw_of_names ?_).1 ?_ _ ?_
  · simp [IsIni, keys]
  · intro p hp
    rw [List.mem_singleton.mp hp]
    simp [PlainKey]
  · rw [Distinct]
    simp [keys]

/-- `[mediaServer.net.websocket] port=9999` over a configuration that sets this port:
`get ("mediaServer.net.websocket.port")` still reads the old value. -/
theorem not_iniLaw : ¬ ∀ a b : PTree, Distinct a → IsIni b → IniLaw a b := by
  intro h
  have hlaw := h (.node "" [("mediaServer", .node "" [("net", .node "" [("websocket",
      .node "" [("port", .node "8888" [])])])])])
    (.node "" [("mediaServer.net.websocket", .node "" [("port", .node "9999" [])])])
    (by rw [Distinct]; simp [keys]) (by simp [IsIni, keys])
  have hport := hlaw.entries _ List.mem_cons_self _ List.mem_cons_self
  revert hport
  decide

end KurentoMediaServer.Config
