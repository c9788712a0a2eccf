import KurentoMediaServer.Config.ModulePlace

/-! Files of one name in different directories. The key of a file keeps of its directories
the parts between the dots of their stems, and a part that is empty ends the way to its
place: what comes below is copied as an array. So two files of one name leave each other's
settings alone exactly when these parts lead apart. -/

namespace KurentoMediaServer.Config

open Foundations KeyedTree

/-! ### The names of the files -/

theorem toList_dot_append (a e : String) :
    (a ++ "." ++ e).toList.reverse = e.toList.reverse ++ '.' :: a.toList.reverse := by
  simp

theorem extension_append {e : String} (he : '.' ∉ e.toList) (a : String) :
    extension (a ++ "." ++ e) = "." ++ e := by
  have hmem : '.' ∈ (a ++ "." ++ e).toList := by simp
  have hall : ∀ c ∈ e.toList.reverse, (c ≠ '.') := by
    intro c hc
    rintro rfl
    exact he (List.mem_reverse.mp hc)
  rw [extension, if_pos hmem, toList_dot_append, List.takeWhile_append_of_pos (by simpa using hall),
    List.takeWhile_cons_of_neg (by simp), List.append_nil, List.reverse_reverse]
  apply String.toList_inj.mp
  simp

theorem stem_append {e : String} (he : '.' ∉ e.toList) (a : String) : stem (a ++ "." ++ e) = a := by
  have hmem : '.' ∈ (a ++ "." ++ e).toList := by simp
  have hall : ∀ c ∈ e.toList.reverse, (c ≠ '.') := by
    intro c hc
    rintro rfl
    exact he (List.mem_reverse.mp hc)
  rw [stem, if_pos hmem, toList_dot_append, List.dropWhile_append_of_pos (by simpa using hall),
    List.dropWhile_cons_of_neg (by simp), List.tail_cons, List.reverse_reverse, String.ofList_toList]

def jsonFile (parentPath name : String) (tree : PTree) : ConfigFile :=
  ⟨parentPath, name ++ "." ++ "conf" ++ "." ++ "json", fun _ => .ok tree⟩

theorem extension_jsonFile (parentPath name : String) (tree : PTree) :
    extension (jsonFile parentPath name tree).filename = ".json" ∧
      extension (stem (jsonFile parentPath name tree).filename) = ".conf" := by
  have hjson : '.' ∉ ("json" : String).toList := by decide
  have hconf : '.' ∉ ("conf" : String).toList := by decide
  constructor
  · rw [jsonFile, extension_append hjson]
    decide
  · rw [jsonFile, stem_append hjson, extension_append hconf]
    decide

theorem readConfig_jsonFile (parentPath name : String) (tree : PTree) :
    readConfig (jsonFile parentPath name tree) = .ok tree := by
  obtain ⟨hjson, hconf⟩ := extension_jsonFile parentPath name tree
  unfold readConfig
  rw [if_pos hconf, if_pos hjson]
  rfl

theorem fileName_jsonFile (parentPath name : String) (tree : PTree) :
    fileName (jsonFile parentPath name tree) = name := by
  obtain ⟨hjson, hconf⟩ := extension_jsonFile parentPath name tree
  unfold fileName
  rw [hconf, hjson]
  apply String.toList_inj.mp
  simp [jsonFile]

/-! ### Where a file is written -/

/-- The parts before the first one that is empty. -/
def lead (parts : List String) : List String := parts.takeWhile (· ≠ "")

variable {parts rest : List String} {t M n : PTree}

theorem lead_isPrefix (parts : List String) : lead parts <+: parts := List.takeWhile_prefix _

theorem ne_empty_of_mem_lead {k : String} (h : k ∈ lead parts) : k ≠ "" := by
  simpa using List.mem_takeWhile_imp h

/-- The way to a place is plain, or is cut at an empty part. -/
theorem lead_cases (parts : List String) :
    lead parts = parts ∨ ∃ rest, parts = lead parts ++ "" :: rest := by
  induction parts with
  | nil => exact Or.inl rfl
  | cons k ks ih =>
    by_cases hk : k = ""
    · subst hk
      exact Or.inr ⟨ks, by simp [lead]⟩
    · have hl : lead (k :: ks) = k :: lead ks := by simp [lead, hk]
      rw [hl]
      rcases ih with h | ⟨rest, h⟩
      · exact Or.inl (by rw [h])
      · exact Or.inr ⟨rest, by rw [List.cons_append, ← h]⟩

/-- The file's tree with the keys of its place above it. -/
def chain (parts : List String) (M : PTree) : PTree := forceAt (fun _ => M) parts default

theorem chain_cons (k : String) (ks : List String) (M : PTree) :
    chain (k :: ks) M = .node "" [(k, chain ks M)] := rfl

theorem chain_append (parts rest : List String) (M : PTree) :
    chain (parts ++ rest) M = chain parts (chain rest M) := by
  induction parts with
  | nil => rfl
  | cons k ks ih => rw [List.cons_append, chain_cons, chain_cons, ih]

theorem walk_chain (parts p : List String) (M : PTree) : walk (parts ++ p) (chain parts M) = walk p M :=
  walk_forceAt_append _ parts p default

/-- Above the file's tree there are no values. -/
theorem data_of_walk_chain {p : List String} (h : walk p (chain parts M) = some n) (hd : n.data ≠ "") :
    ∃ q, walk q M = some n := by
  induction parts generalizing p with
  | nil => exact ⟨p, h⟩
  | cons k ks ih =>
    rw [chain_cons] at h
    cases p with
    | nil =>
      cases h
      exact absurd rfl hd
    | cons j p =>
      obtain ⟨c, hc, hp⟩ := Option.bind_eq_some_iff.mp (walk_cons j p _ ▸ h)
      rw [children_node, List.lookup_cons] at hc
      split at hc
      · cases hc
        exact ih hp
      · cases hc

theorem merge_chain (hk : ∀ k ∈ parts, PlainKey k) (rest : List String) (t M : PTree) :
    mergePropertyTrees t (chain (parts ++ rest) M) 0 =
      rebuildAt (mergePropertyTrees · (chain rest M) parts.length) parts t := by
  rw [chain_append, chain, mergePropertyTrees_chain hk, Nat.zero_add]

/-- A tree with an empty part above it is copied where the plain way ends. -/
theorem walk_merge_cut (hk : ∀ k ∈ parts, PlainKey k) (hne : parts ≠ []) (p : List String) (t : PTree) :
    walk (parts ++ p) (mergePropertyTrees t (chain (parts ++ "" :: rest) M) 0) =
      walk p (chain ("" :: rest) M) := by
  have hcopy : PTree.isObject (chain ("" :: rest) M) = false := by simp [chain_cons, PTree.isObject]
  obtain ⟨l, hl⟩ := Nat.exists_eq_succ_of_ne_zero (fun h => hne (List.eq_nil_of_length_eq_zero h))
  rw [merge_chain hk, walk_rebuildAt, hl, mergePropertyTrees_copy hcopy]

/-! ### Module files -/

section Modules
variable {m : List String × ConfigFile} {p : List String}

theorem keyParts_eq (m : List String × ConfigFile) :
    keyParts m = "modules" :: (nameParts m.1 ++ fragments (fileName m.2)) :=
  fragments_moduleKey m.1 (fileName m.2)

theorem walk_loadModule_self (hl : loads m = true) (hk : ∀ k ∈ lead (keyParts m), PlainKey k)
    (hm : Mergeable (moduleConfig m)) (hp : p ≠ []) (hw : walk p (moduleConfig m) = some n)
    (hn : PTree.isObject n = false) (config : PTree) :
    walk (keyParts m ++ p) (loadModule config m.1 m.2) = some n := by
  rcases lead_cases (keyParts m) with hlead | ⟨rest, hcut⟩
  · rw [hlead] at hk
    have hobject := isObject_moduleConfig hl
    rw [loadModule_eq hl hk, walk_rebuildAt, mergePropertyTrees_eq_deepMerge hm (Or.inr hobject)]
    exact walk_deepMerge_right hp hw hn
  · have hne : lead (keyParts m) ≠ [] := by
      rw [keyParts_eq]
      simp [lead]
    rw [loadModule_of_chain hl]
    generalize lead (keyParts m) = parts at hk hne hcut
    rw [hcut, List.append_assoc]
    exact (walk_merge_cut hk hne _ config).trans ((walk_chain ("" :: rest) p _).trans hw)

/-- A file that is cut leaves no other values where the plain way ends. -/
theorem walk_loadModule_cut (hl : loads m = true) (hk : ∀ k ∈ parts, PlainKey k) (hne : parts ≠ [])
    (hcut : keyParts m = parts ++ "" :: rest) (hd : n.data ≠ "")
    (hM : ∀ q, walk q (moduleConfig m) ≠ some n) (config : PTree) :
    walk (parts ++ p) (loadModule config m.1 m.2) ≠ some n := by
  intro h
  rw [loadModule_of_chain hl, hcut] at h
  obtain ⟨q, hq⟩ := data_of_walk_chain ((walk_merge_cut hk hne p config).symm.trans h) hd
  exact hM q hq

/-- Beside the plain way to its place it changes nothing. -/
theorem walk_loadModule_of_divergent (hk : ∀ k ∈ parts, PlainKey k)
    (hparts : keyParts m = parts ++ rest) (hp : Divergent parts p) (config : PTree) :
    walk p (loadModule config m.1 m.2) = walk p config := by
  by_cases hl : loads m = true
  · rw [loadModule_of_chain hl, hparts]
    exact (congrArg _ (merge_chain hk rest config _)).trans (walk_rebuildAt_of_divergent hp _ config)
  · rw [loadModule_of_not_loads (by simpa using hl)]

end Modules

/-! ### Files with one setting -/

theorem mergeable_chain (hk : ∀ k ∈ parts, PlainKey k) {v : PTree} (hv : v.children = []) :
    Mergeable (chain parts v) := by
  induction parts with
  | nil => exact .intro (by simp [chain, keys, hv]) (by simp [chain, hv])
  | cons k ks ih =>
    rw [List.forall_mem_cons] at hk
    refine .intro ⟨by simpa [chain_cons, keys] using hk.1, by simp [chain_cons, keys]⟩ ?_
    rw [chain_cons, children_node, List.forall_mem_singleton]
    exact fun _ => ih hk.2

theorem Mergeable.put_configPath (h : Mergeable t) (value : String) :
    Mergeable (PTree.put t "configPath" value) := by
  obtain ⟨hplain, hnodup⟩ := h.root
  rw [Config.put_configPath, forceAt_cons]
  refine .intro ⟨fun k hk => ?_, nodup_upsert hnodup⟩ fun p hp ho => ?_
  · rw [keys, children_node, map_fst_upsert] at hk
    split_ifs at hk
    · exact hplain k hk
    · rcases List.mem_append.mp hk with hk | hk
      · exact hplain k hk
      · rw [List.mem_singleton.mp hk]
        exact plainKey_configPath
  · rcases of_mem_upsert hp with hp | rfl
    · exact h.child hp ho
    · cases hl : t.children.lookup "configPath" with
      | none => simp [hl, PTree.isObject] at ho
      | some c =>
        rw [hl] at ho
        have hc : Mergeable c := h.child (mem_of_lookup hl) ho
        cases hc with
        | intro hroot hbelow => exact .intro hroot hbelow

theorem rebuildAt_default (g : PTree → PTree) (parts : List String) :
    rebuildAt g parts default = chain parts (g default) := by
  induction parts with
  | nil => rfl
  | cons k ks ih =>
    rw [chain_cons, ← ih]
    rfl

def portAt (q : List String) (port : String) : PTree := chain (q ++ ["port"]) (.node port [])

section Port
variable {q : List String} {port parentPath name : String} {dirs : List String}

theorem plain_concat_port (hq : ∀ k ∈ q, PlainKey k) : ∀ k ∈ q ++ ["port"], PlainKey k := by
  intro k hk
  rcases List.mem_append.mp hk with hk | hk
  · exact hq k hk
  · rw [List.mem_singleton.mp hk]
    simp [PlainKey]

theorem moduleConfig_jsonFile (hq : ∀ k ∈ q, PlainKey k) :
    moduleConfig (dirs, jsonFile parentPath name (portAt q port)) =
      PTree.put (portAt q port) "configPath" parentPath := by
  have hmerge : mergePropertyTrees default (portAt q port) 0 = portAt q port := by
    have hcopy : PTree.isObject (.node port []) = false := rfl
    rw [portAt, chain, mergePropertyTrees_chain (plain_concat_port hq), rebuildAt_default,
      List.length_append, List.length_singleton, ← Nat.add_assoc, mergePropertyTrees_copy hcopy]
    rfl
  rw [moduleConfig, readConfig_jsonFile]
  show PTree.put (mergePropertyTrees default (portAt q port) 0) "configPath" parentPath = _
  rw [hmerge]

theorem walk_put_configPath {p : List String} (hp : p ≠ []) (hpath : p ≠ ["configPath"]) (t : PTree)
    (value : String) : walk p (PTree.put t "configPath" value) = walk p t := by
  rw [put_configPath]
  match p with
  | [] => exact absurd rfl hp
  | [k] =>
    have hk : k ≠ "configPath" := fun h => hpath (by rw [h])
    rw [walk_cons, walk_cons, forceAt_cons, children_node, lookup_upsert_of_ne hk]
  | k :: j :: p =>
    rw [walk_cons, walk_cons, forceAt_cons, children_node]
    by_cases hk : k = "configPath"
    · subst hk
      rw [lookup_upsert_self]
      cases t.children.lookup "configPath" <;> rfl
    · rw [lookup_upsert_of_ne hk]

theorem walk_moduleConfig_jsonFile (hq : ∀ k ∈ q, PlainKey k) :
    walk (q ++ ["port"]) (moduleConfig (dirs, jsonFile parentPath name (portAt q port))) =
      some (.node port []) := by
  have hpath : q ++ ["port"] ≠ ["configPath"] := by
    intro h
    have hl := congrArg List.getLast? h
    simp at hl
  rw [moduleConfig_jsonFile hq, walk_put_configPath (by simp) hpath]
  have hw := walk_chain (q ++ ["port"]) [] (.node port [])
  rwa [List.append_nil] at hw

end Port

/-! ### Files of one name -/

theorem mem_of_mem_stem {name : String} {c : Char} (h : c ∈ (stem name).toList) : c ∈ name.toList := by
  rw [stem] at h
  split_ifs at h
  · rw [String.toList_ofList, List.mem_reverse] at h
    exact List.mem_reverse.mp ((List.dropWhile_suffix _).subset (List.mem_of_mem_tail h))
  · exact h

/-- In a file system no name has a null character, so a part that is not empty is plain. -/
theorem plainKey_of_mem_nameParts {dirs : List String} (h : ∀ dir ∈ dirs, '\x00' ∉ dir.toList)
    {k : String} (hk : k ∈ nameParts dirs) (hne : k ≠ "") : PlainKey k := by
  obtain ⟨s, hs, hk⟩ := List.mem_flatMap.mp hk
  obtain ⟨dir, hdir, rfl⟩ := List.mem_map.mp (List.mem_filter.mp hs).1
  refine ⟨hne, fun hm => (mem_of_mem_fragments hk hm).2 rfl, fun hm => ?_⟩
  exact h dir hdir (mem_of_mem_stem (mem_of_mem_fragments hk hm).1)

theorem plain_modules_lead {dirs : List String} (h : ∀ dir ∈ dirs, '\x00' ∉ dir.toList) :
    ∀ k ∈ "modules" :: lead (nameParts dirs), PlainKey k := by
  refine List.forall_mem_cons.mpr ⟨plainKey_modules, fun k hk => ?_⟩
  exact plainKey_of_mem_nameParts h ((lead_isPrefix _).subset hk) (ne_empty_of_mem_lead hk)

/-- A setting of `m` that is found at its place when it is loaded is not found there any
more once `m'` is loaded after it. -/
def Overrides (m' m : List String × ConfigFile) : Prop :=
  ∃ config p n, walk p (moduleConfig m) = some n ∧ PTree.isObject n = false ∧
    walk (keyParts m ++ p) (loadModules config [m]) = some n ∧
    walk (keyParts m ++ p) (loadModules config [m, m']) ≠ some n

/-- Files whose directories lead apart do not override each other. -/
theorem not_overrides {m m' : List String × ConfigFile} (h' : ∀ dir ∈ m'.1, '\x00' ∉ dir.toList)
    (hd : Divergent (lead (nameParts m.1)) (lead (nameParts m'.1))) : ¬ Overrides m' m := by
  rintro ⟨config, p, n, -, -, hw, hne⟩
  obtain ⟨rest, hrest⟩ := lead_isPrefix (nameParts m'.1)
  have hparts : keyParts m' = ("modules" :: lead (nameParts m'.1)) ++
      (rest ++ fragments (fileName m'.2)) := by
    rw [keyParts_eq, List.cons_append, ← List.append_assoc, hrest]
  have hapart : Divergent ("modules" :: lead (nameParts m'.1)) (keyParts m ++ p) := by
    have hpre : lead (nameParts m.1) <+: nameParts m.1 ++ fragments (fileName m.2) ++ p :=
      ((lead_isPrefix _).trans (List.prefix_append _ _)).trans (List.prefix_append _ _)
    obtain ⟨h1, h2⟩ := hd.symm.of_isPrefix List.prefix_rfl hpre
    rw [keyParts_eq, List.cons_append]
    exact ⟨fun h => h1 (List.cons_prefix_cons.mp h).2, fun h => h2 (List.cons_prefix_cons.mp h).2⟩
  apply hne
  rw [loadModules_cons, loadModules_cons, loadModules_nil,
    walk_loadModule_of_divergent (plain_modules_lead h') hparts hapart]
  exact hw

/-! ### Where the ways meet -/

/-- A module file with the setting `port` below the keys `q`. -/
def portModule (dirs : List String) (name : String) (q : List String) (port : String) :
    List String × ConfigFile :=
  (dirs, jsonFile "" name (portAt q port))

section PortModule
variable {dirs q : List String} {name port : String}

theorem loads_portModule : loads (portModule dirs name q port) = true := by
  rw [loads, portModule, readConfig_jsonFile]
  rfl

theorem keyParts_portModule (hname : PlainKey name) (q : List String) (port : String) :
    keyParts (portModule dirs name q port) = "modules" :: (nameParts dirs ++ [name]) := by
  rw [keyParts_eq, portModule, fileName_jsonFile, hname.fragments]

theorem walk_portModule (h : ∀ dir ∈ dirs, '\x00' ∉ dir.toList) (hname : PlainKey name)
    (hq : ∀ k ∈ q, PlainKey k) (port : String) (config : PTree) :
    walk ("modules" :: (nameParts dirs ++ [name]) ++ (q ++ ["port"]))
      (loadModules config [portModule dirs name q port]) = some (.node port []) := by
  rw [← keyParts_portModule hname q port, loadModules_cons, loadModules_nil]
  refine walk_loadModule_self loads_portModule (fun k hk => ?_) ?_ (by simp)
    (walk_moduleConfig_jsonFile hq) rfl config
  · have hne := ne_empty_of_mem_lead hk
    have hmem := (lead_isPrefix _).subset hk
    rw [keyParts_portModule hname, List.mem_cons, List.mem_append, List.mem_singleton] at hmem
    rcases hmem with rfl | hmem | rfl
    · exact plainKey_modules
    · exact plainKey_of_mem_nameParts h hmem hne
    · exact hname
  · rw [portModule, moduleConfig_jsonFile hq]
    exact (mergeable_chain (plain_concat_port hq) rfl).put_configPath ""

/-- Its values are its port and its directory. -/
theorem walk_portModule_ne (p : List String) :
    walk p (moduleConfig (portModule dirs name [] "2")) ≠ some (.node "1" []) := by
  rw [portModule, moduleConfig_jsonFile (by simp)]
  intro h
  have hM : PTree.put (portAt [] "2") "configPath" "" =
      .node "" [("port", .node "2" []), ("configPath", .node "" [])] := rfl
  have hdata (n : PTree) (hn : At p n (.node "" [("port", .node "2" []), ("configPath", .node "" [])])) :
      n.data ≠ "1" := by
    cases hn with
    | here => decide
    | child hc hn =>
      simp only [children_node, List.mem_cons, Prod.mk.injEq, List.not_mem_nil, or_false] at hc
      rcases hc with ⟨-, rfl⟩ | ⟨-, rfl⟩
      all_goals
        cases hn with
        | here => decide
        | child hc _ => cases hc
  rw [hM] at h
  exact hdata _ (at_of_walk h) rfl

theorem overrides_portModule (h : ∀ dir ∈ dirs, '\x00' ∉ dir.toList) (hname : PlainKey name)
    (hq : ∀ k ∈ q, PlainKey k) {m : List String × ConfigFile}
    (hne : ∀ config, walk ("modules" :: (nameParts dirs ++ [name]) ++ (q ++ ["port"]))
      (loadModule config m.1 m.2) ≠ some (.node "1" [])) :
    Overrides m (portModule dirs name q "1") := by
  refine ⟨default, q ++ ["port"], .node "1" [], walk_moduleConfig_jsonFile hq, rfl, ?_, ?_⟩
  · rw [keyParts_portModule hname]
    exact walk_portModule h hname hq "1" default
  · rw [keyParts_portModule hname, loadModules_cons, loadModules_cons, loadModules_nil]
    exact hne _

/-- A file whose port is at the same path wins. -/
theorem overrides_of_path {dirs' q' : List String} {name' : String}
    (h : ∀ dir ∈ dirs, '\x00' ∉ dir.toList) (h' : ∀ dir ∈ dirs', '\x00' ∉ dir.toList)
    (hname : PlainKey name) (hname' : PlainKey name') (hq : ∀ k ∈ q, PlainKey k)
    (hq' : ∀ k ∈ q', PlainKey k)
    (hpath : nameParts dirs' ++ [name'] ++ q' = nameParts dirs ++ [name] ++ q) :
    Overrides (portModule dirs' name' q' "2") (portModule dirs name q "1") := by
  refine overrides_portModule h hname hq fun config he => ?_
  have hw := walk_portModule h' hname' hq' "2" config
  rw [List.cons_append, ← List.append_assoc, hpath, loadModules_cons, loadModules_nil] at hw
  rw [List.cons_append, ← List.append_assoc, hw] at he
  simp at he

/-- A file that is cut on the way to the path takes the port away. -/
theorem overrides_of_cut {dirs' parts rest p : List String} {name' : String}
    (h : ∀ dir ∈ dirs, '\x00' ∉ dir.toList) (hname : PlainKey name) (hname' : PlainKey name')
    (hq : ∀ k ∈ q, PlainKey k) (hk : ∀ k ∈ "modules" :: parts, PlainKey k)
    (hcut : nameParts dirs' ++ [name'] = parts ++ "" :: rest)
    (hpath : nameParts dirs ++ [name] ++ q = parts ++ p) :
    Overrides (portModule dirs' name' [] "2") (portModule dirs name q "1") := by
  refine overrides_portModule h hname hq fun config => ?_
  have hkey : keyParts (portModule dirs' name' [] "2") = ("modules" :: parts) ++ "" :: rest := by
    rw [keyParts_portModule hname', hcut, List.cons_append]
  have hway : "modules" :: (nameParts dirs ++ [name]) ++ (q ++ ["port"]) =
      ("modules" :: parts) ++ (p ++ ["port"]) := by
    rw [List.cons_append, ← List.append_assoc, hpath, List.append_assoc]
    rfl
  rw [hway]
  exact walk_loadModule_cut loads_portModule hk (by simp) hkey (by simp) walk_portModule_ne config

end PortModule

/-- Where the way to one directory leads to another or through it, there are files of one
name of which one overrides the other. -/
theorem exists_overrides {dirs dirs' : List String} (h : ∀ dir ∈ dirs, '\x00' ∉ dir.toList)
    (h' : ∀ dir ∈ dirs', '\x00' ∉ dir.toList)
    (hlead : lead (nameParts dirs) <+: lead (nameParts dirs')) :
    ∃ m m' : List String × ConfigFile, m.1 = dirs ∧ m'.1 = dirs' ∧
      m.2.filename = m'.2.filename ∧ (Overrides m' m ∨ Overrides m m') := by
  have hfile : PlainKey "file" := by simp [PlainKey]
  have hnone : ∀ k ∈ ([] : List String), PlainKey k := by simp
  have hplain := plain_modules_lead h
  obtain ⟨rest, hrest⟩ := hlead.trans (lead_isPrefix _)
  rcases lead_cases (nameParts dirs) with hl | ⟨cut, hcut⟩
  · rw [hl] at hrest hplain
    cases rest with
    | nil =>
      -- the places are the same, and the later file wins
      exact ⟨portModule dirs "file" [] "1", portModule dirs' "file" [] "2", rfl, rfl, rfl,
        Or.inl (overrides_of_path h h' hfile hfile hnone hnone (by simp [← hrest]))⟩
    | cons r rest =>
      by_cases hr : r = ""
      · -- the way to the second file is cut above the first
        subst hr
        exact ⟨portModule dirs "file" [] "1", portModule dirs' "file" [] "2", rfl, rfl, rfl,
          Or.inl (overrides_of_cut h hfile hfile hnone hplain (by rw [← hrest, List.append_assoc]; rfl)
            (List.append_nil _))⟩
      · -- the first file is named like the next directory on the way to the second
        have hmem : ∀ k ∈ rest ++ [r], k ∈ nameParts dirs' := by
          intro k hk
          rw [← hrest]
          simp only [List.mem_append, List.mem_cons, List.not_mem_nil, or_false] at hk ⊢
          tauto
        have hname : PlainKey r := plainKey_of_mem_nameParts h' (hmem r (by simp)) hr
        have hq : ∀ k ∈ lead (rest ++ [r]), PlainKey k := fun k hk =>
          plainKey_of_mem_nameParts h' (hmem k ((lead_isPrefix _).subset hk)) (ne_empty_of_mem_lead hk)
        refine ⟨portModule dirs r (lead (rest ++ [r])) "1", portModule dirs' r [] "2", rfl, rfl, rfl,
          Or.inl ?_⟩
        rcases lead_cases (rest ++ [r]) with hl' | ⟨cut, hcut⟩
        · exact overrides_of_path h h' hname hname hq hnone (by rw [hl', ← hrest]; simp)
        · have hway : nameParts dirs' ++ [r] =
              (nameParts dirs ++ [r] ++ lead (rest ++ [r])) ++ "" :: cut := by
            rw [← hrest, List.append_assoc _ _ ("" :: cut), ← hcut]
            simp
          refine overrides_of_cut h hname hname hq ?_ hway (List.append_nil _).symm
          rw [← List.cons_append, ← List.cons_append]
          simp only [List.forall_mem_append, List.forall_mem_singleton]
          exact ⟨⟨hplain, hname⟩, hq⟩
  · -- the way to the first file is cut above the second
    have hway : nameParts dirs ++ ["file"] = lead (nameParts dirs) ++ "" :: (cut ++ ["file"]) := by
      generalize lead (nameParts dirs) = parts at hcut
      rw [hcut, List.append_assoc]
      rfl
    exact ⟨portModule dirs "file" [] "2", portModule dirs' "file" [] "1", rfl, rfl, rfl,
      Or.inr (overrides_of_cut h' hfile hfile hnone hplain hway
        (by rw [← hrest, List.append_nil, List.append_assoc]))⟩

/-! ### Distinct keys -/

/-- Two directories below a root have different keys, and so have files of one name in
them, which never override each other's settings. -/
structure KeyLaw (root dirs dirs' : List String) : Prop where
  distinct : ∃ rounds key key', pathToKey rounds (root ++ dirs) root = some key ∧
    pathToKey rounds (root ++ dirs') root = some key' ∧ key ≠ key'
  modules : ∀ name, moduleKey dirs name ≠ moduleKey dirs' name
  kept : ∀ m m' : List String × ConfigFile, m.1 = dirs → m'.1 = dirs' →
    m.2.filename = m'.2.filename → ¬ Overrides m' m ∧ ¬ Overrides m m'

theorem keyLaw_iff_divergent (root : List String) {dirs dirs' : List String}
    (h : ∀ dir ∈ dirs, '\x00' ∉ dir.toList) (h' : ∀ dir ∈ dirs', '\x00' ∉ dir.toList) :
    KeyLaw root dirs dirs' ↔ Divergent (lead (nameParts dirs)) (lead (nameParts dirs')) := by
  constructor
  · intro hlaw
    constructor
    · intro hlead
      obtain ⟨m, m', hm, hm', hname, ho⟩ := exists_overrides h h' hlead
      obtain ⟨h1, h2⟩ := hlaw.kept m m' hm hm' hname
      exact ho.elim h1 h2
    · intro hlead
      obtain ⟨m, m', hm, hm', hname, ho⟩ := exists_overrides h' h hlead
      obtain ⟨h1, h2⟩ := hlaw.kept m' m hm' hm hname.symm
      exact ho.elim h2 h1
  · intro hd
    have hne : nameParts dirs ≠ nameParts dirs' := fun he => hd.1 (he ▸ List.prefix_rfl)
    obtain ⟨rounds, hkey, hkey'⟩ := exists_pathToKey root dirs dirs'
    refine ⟨⟨rounds, _, _, hkey, hkey', fun he => hne ((diffPathToKey_eq_iff dirs dirs').mp he)⟩,
      fun name he => ?_, ?_⟩
    · have hf := congrArg fragments he
      rw [fragments_moduleKey, fragments_moduleKey, List.cons.injEq] at hf
      exact hne (List.append_cancel_right hf.2)
    · rintro m m' rfl rfl -
      exact ⟨not_overrides h' hd, not_overrides h hd.symm⟩

theorem lead_nameParts_of_plain {dirs : List String} (h : ∀ dir ∈ dirs, dir ≠ "" ∧ '.' ∉ dir.toList) :
    lead (nameParts dirs) = dirs := by
  rw [nameParts_of_plain h, lead, List.takeWhile_eq_self_iff]
  intro dir hdir
  simpa using (h dir hdir).1

/-- Files of one name in two directories leave each other's settings alone exactly when the
ways to the directories part: what is left of their names, cut at the dots and up to the
first empty part, differs before one of them ends. Where the names have no dots, neither
directory is then in the other. -/
theorem keyLaw_iff (root : List String) {dirs dirs' : List String}
    (h : ∀ dir ∈ dirs, '\x00' ∉ dir.toList) (h' : ∀ dir ∈ dirs', '\x00' ∉ dir.toList) :
    (KeyLaw root dirs dirs' ↔ Divergent (lead (nameParts dirs)) (lead (nameParts dirs'))) ∧
    ((∀ dir ∈ dirs, dir ≠ "" ∧ '.' ∉ dir.toList) → (∀ dir ∈ dirs', dir ≠ "" ∧ '.' ∉ dir.toList) →
      (KeyLaw root dirs dirs' ↔ ¬ dirs <+: dirs' ∧ ¬ dirs' <+: dirs)) := by
  have hiff := keyLaw_iff_divergent root h h'
  refine ⟨hiff, fun hp hp' => ?_⟩
  rw [hiff, lead_nameParts_of_plain hp, lead_nameParts_of_plain hp']
  rfl

/-- The directories `a` and `b`, and the root and `a`. -/
theorem keyLaw_iff_beside :
    KeyLaw ["modules"] ["a"] ["b"] ∧ ¬ KeyLaw ["modules"] [] ["a"] := by
  constructor
  · exact ((keyLaw_iff ["modules"] (by decide) (by decide)).2 (by decide) (by decide)).mpr (by decide)
  · rw [(keyLaw_iff ["modules"] (by decide) (by decide)).1]
    exact fun h => h.1 (by decide)

/-- `modules/v1.0` and `modules/v1.1` have one key. The root and `modules/a` have two, but
`modules/a/a.conf.json` is loaded below the settings of `modules/a.conf.json`. -/
theorem not_keyLaw :
    (¬ ∀ root dirs dirs' : List String, dirs ≠ dirs' → KeyLaw root dirs dirs') ∧
    diffPathToKey ["v1.0"] = diffPathToKey ["v1.1"] ∧ diffPathToKey [] ≠ diffPathToKey ["a"] ∧
    Overrides (portModule ["a"] "a" [] "2") (portModule [] "a" ["a"] "1") := by
  refine ⟨fun h => ?_, rfl, by decide, ?_⟩
  · have hlaw := h ["modules"] ["v1.0"] ["v1.1"] (by decide)
    exact hlaw.modules "name" rfl
  · have ha : PlainKey "a" := by simp [PlainKey]
    exact overrides_of_path (by simp) (by decide) ha ha (by simpa using ha) (by simp) rfl

end KurentoMediaServer.Config
