import KurentoMediaServer.Config.Conflict
import KurentoMediaServer.Config.Load

/-! Whether a load ends in `write_json` throwing, outside any try block. Two steps of
`loadFile` can spoil a configuration: the merge, by a value on the way to what is set,
and the `put` of `configPath`, by a node of that name with children. -/

namespace KurentoMediaServer.Config

open Foundations KeyedTree

/-! ### The path of the configuration -/

theorem plainKey_configPath : PlainKey "configPath" := by
  simp [PlainKey]

theorem put_configPath (t : PTree) (value : String) : PTree.put t "configPath" value =
    forceAt (fun n => .node value n.children) ["configPath"] t := by
  have hget : PTree.getChildOptional t "configPath" = t.children.lookup "configPath" := by
    rw [PTree.getChildOptional, plainKey_configPath.steps, walk_cons]
    cases t.children.lookup "configPath" <;> rfl
  rw [PTree.put, hget]
  cases hl : t.children.lookup "configPath" with
  | some c =>
    rw [plainKey_configPath.steps]
  | none =>
    show PTree.putChild t "configPath" (.node value []) = _
    rw [PTree.putChild, plainKey_configPath.fragments, forceAt_cons, forceAt_cons]
    congr 1
    apply upsert_congr
    rw [hl]
    rfl

/-- The `put` keeps a configuration acceptable if and only if it has no text to put or
the node has no children. -/
theorem verifyJson_put {t : PTree} (ht : verifyJson t 0 = true) (value : String) :
    verifyJson (PTree.put t "configPath" value) 0 = true ↔
      value = "" ∨ (t.child "configPath").children = [] := by
  obtain ⟨hdata, hsound⟩ := (verifyJson_zero t).mp ht
  have hw : walk ["configPath"] t = t.children.lookup "configPath" := by
    rw [walk_cons]
    cases t.children.lookup "configPath" <;> rfl
  rw [put_configPath, verifyJson_zero]
  constructor
  · rintro ⟨-, h⟩
    have hput := walk_forceAt_append (fun n : PTree => .node value n.children) ["configPath"] [] t
    rw [List.append_nil, hw] at hput
    exact h _ _ (at_of_walk hput)
  · intro h
    refine ⟨hdata, fun q s hs => ?_⟩
    rcases at_forceAt hs with ⟨-, ho⟩ | ⟨r, -, hr⟩ | ⟨u, hu, hne, rfl⟩
    · exact hsound q s ho
    · rw [hw] at hr
      cases hr with
      | here => exact h
      | @child j r c _ _ hc hs =>
        have hm : At ("configPath" :: j :: r) s t := by
          cases hl : t.children.lookup "configPath" with
          | none => simp [hl] at hc
          | some n =>
            rw [hl] at hc
            exact .child (mem_of_lookup hl) (.child hc hs)
        exact hsound _ s hm
    · left
      cases q with
      | nil =>
        rw [← hdata]
        cases u with
        | nil => exact absurd rfl hne
        | cons i u => rfl
      | cons i q =>
        rw [List.cons_append, List.cons.injEq] at hu
        have hnil := List.append_eq_nil_iff.mp hu.2.symm
        exact absurd hnil.2 hne

/-! ### The node `configPath` after a merge -/

/-- The last key of `b` that leads to `configPath` gives it a value without children;
where no key does, `a` has none there. -/
def PathFree (a b : PTree) : Prop :=
  (∃ ds p es, b.children = ds ++ p :: es ∧ place p.1 = ["configPath"] ∧ p.2.children = [] ∧
    ∀ q ∈ es, ¬ ["configPath"] <+: place q.1) ∨
  (a.child "configPath").children = [] ∧ ∀ q ∈ b.children, ¬ ["configPath"] <+: place q.1

variable {k i : String} {F : List String}

theorem child_eq_walk (k : String) (t : PTree) : t.child k = (walk [k] t).getD default := by
  rw [KeyedTree.child, walk_cons]
  cases t.children.lookup k <;> rfl

theorem child_mergeStep_of_apart (h : ¬ ["configPath"] <+: place k) (t sub : PTree) (level : ℕ) :
    (mergeStep t k sub level).child "configPath" = t.child "configPath" := by
  have h' : ¬ place k <+: ["configPath"] := by
    intro hp
    rcases List.prefix_cons_iff.mp hp with hnil | ⟨u, hu, hnil⟩
    · exact fragments_ne_nil _ hnil
    · rw [List.prefix_nil.mp hnil] at hu
      exact h (hu ▸ List.prefix_rfl)
  rw [child_eq_walk, child_eq_walk, walk_mergeStep plainKey_configPath.2.1 h' h]

theorem child_mergeStep_self (h : place k = ["configPath"]) (t sub : PTree) (level : ℕ) :
    (mergeStep t k sub level).child "configPath" =
      mergePropertyTrees (t.child "configPath") sub (level + 1) := by
  have hk : cString k = "configPath" := (eq_of_fragments_eq_singleton h).symm
  rw [mergeStep, hk, addChild_of_plain plainKey_configPath, getChild_of_plain plainKey_configPath,
    KeyedTree.child, children_push, List.lookup_append, lookup_erase_self]
  simp

theorem child_mergeStep_below (h : place k = "configPath" :: i :: F) (t sub : PTree) (level : ℕ) :
    ((mergeStep t k sub level).child "configPath").children ≠ [] := by
  rw [place] at h
  rw [mergeStep, PTree.addChild, h, List.dropLast_cons_cons, forceAt_cons, KeyedTree.child,
    children_node, lookup_upsert_self]
  exact children_forceAt_push_ne_nil _ _ _ _

theorem children_merge_ne_nil {b : PTree} (hb : b.isObject = true) (t : PTree) (level : ℕ) :
    (mergePropertyTrees t b level).children ≠ [] := by
  rw [mergePropertyTrees_children (Or.inr hb)]
  exact children_mergeChildren_ne_nil (PTree.children_ne_nil_of_isObject hb) t level

theorem child_mergeStep_iff (t sub : PTree) (level : ℕ) :
    ((mergeStep t k sub level).child "configPath").children = [] ↔
      (place k = ["configPath"] ∧ sub.children = []) ∨
        ((t.child "configPath").children = [] ∧ ¬ ["configPath"] <+: place k) := by
  by_cases hk : ["configPath"] <+: place k
  · simp only [hk, not_true_eq_false, and_false, or_false]
    obtain ⟨F, hF⟩ := hk
    cases F with
    | nil =>
      have hself : place k = ["configPath"] := hF.symm
      rw [child_mergeStep_self hself, and_iff_right hself]
      by_cases ho : PTree.isObject sub = true
      · exact iff_of_false (children_merge_ne_nil ho _ _) (PTree.children_ne_nil_of_isObject ho)
      · rw [mergePropertyTrees_copy (by simpa using ho)]
    | cons i F =>
      refine iff_of_false (child_mergeStep_below hF.symm t sub level) fun h => ?_
      rw [h.1] at hF
      cases hF
  · rw [child_mergeStep_of_apart hk, and_iff_left hk, or_iff_right]
    rintro ⟨h, -⟩
    exact hk (h ▸ List.prefix_rfl)

/-- What the last key that leads to `configPath` leaves there. -/
theorem child_mergeChildren_iff (cs : List (String × PTree)) (t : PTree) :
    ((mergeChildren t cs 0).child "configPath").children = [] ↔ PathFree t (.node "" cs) := by
  induction cs generalizing t with
  | nil => simp [mergeChildren_nil, PathFree]
  | cons p rest ih =>
    rw [mergeChildren_step, ih, PathFree, PathFree, child_mergeStep_iff]
    simp only [children_node, List.forall_mem_cons]
    constructor
    · rintro (⟨ds, q, es, rfl, h⟩ | ⟨⟨hp, hs⟩ | ⟨ht, hp⟩, hrest⟩)
      · exact Or.inl ⟨p :: ds, q, es, rfl, h⟩
      · exact Or.inl ⟨[], p, rest, rfl, hp, hs, hrest⟩
      · exact Or.inr ⟨ht, hp, hrest⟩
    · rintro (⟨ds, q, es, hcs, hq, hs, hes⟩ | ⟨ht, hp, hrest⟩)
      · cases ds with
        | nil =>
          obtain ⟨rfl, rfl⟩ := List.cons.inj hcs
          exact Or.inr ⟨Or.inl ⟨hq, hs⟩, hes⟩
        | cons d ds =>
          obtain ⟨rfl, rfl⟩ := List.cons.inj hcs
          exact Or.inl ⟨ds, q, es, rfl, hq, hs, hes⟩
      · exact Or.inr ⟨Or.inr ⟨ht, hp⟩, hrest⟩

/-! ### One file -/

/-- `write_json` accepts the merged configuration, before and after `configPath` is put. -/
structure MergeWritable (a b : PTree) (parentPath : String) : Prop where
  merged : verifyJson (mergePropertyTrees a b 0) 0 = true
  put : verifyJson (PTree.put (mergePropertyTrees a b 0) "configPath" parentPath) 0 = true

/-- The merge puts no child below data for good, and no text is put at a node with
children. -/
def MergeClear (a b : PTree) (parentPath : String) : Prop :=
  ¬ Spoils a b ∧ (parentPath = "" ∨ PathFree a b)

theorem verifyJson_merge_iff {a b : PTree} (ha : verifyJson a 0 = true) (hb : verifyJson b 0 = true) :
    verifyJson (mergePropertyTrees a b 0) 0 = true ↔ ¬ Spoils a b := by
  obtain ⟨hdata, -⟩ := (verifyJson_zero a).mp ha
  obtain ⟨-, hsb⟩ := (verifyJson_zero b).mp hb
  rw [verifyJson_zero, data_mergePropertyTrees (Or.inl rfl), and_iff_right hdata]
  exact all_sound_merge_iff hsb (Or.inl rfl) (Or.inl hdata)

theorem mergeWritable_iff_clear {a b : PTree} (ha : verifyJson a 0 = true)
    (hb : verifyJson b 0 = true) (parentPath : String) :
    MergeWritable a b parentPath ↔ MergeClear a b parentPath := by
  have hpath : ((mergePropertyTrees a b 0).child "configPath").children = [] ↔ PathFree a b := by
    rw [mergePropertyTrees_children (Or.inl rfl)]
    exact child_mergeChildren_iff b.children a
  rw [MergeClear, ← verifyJson_merge_iff ha hb, ← hpath]
  constructor
  · rintro ⟨hm, hput⟩
    exact ⟨hm, (verifyJson_put hm parentPath).mp hput⟩
  · rintro ⟨hm, hput⟩
    exact ⟨hm, (verifyJson_put hm parentPath).mpr hput⟩

/-! ### The run over the files -/

/-- The tree that is read from the file, if any, is acceptable by itself. -/
def Valid (file : ConfigFile) : Prop := ∀ b, readConfig file = .ok b → verifyJson b 0 = true

/-- Merging the file into `config` is clear. -/
def FileClear (config : PTree) (file : ConfigFile) : Prop :=
  ∀ b, readConfig file = .ok b → MergeClear config b file.parentPath

/-- A module file is clear by itself, and merging it under its key spoils nothing. -/
def ModuleClear (config : PTree) (m : List String × ConfigFile) : Prop :=
  FileClear default m.2 ∧ ∀ moduleConfig name, loadFile default m.2 = .ok (moduleConfig, name) →
    ¬ Spoils config (loadedConfig m.1 moduleConfig name)

/-- Every step of a run over module files is clear, in the state it starts from. -/
def RunClear : PTree → List (List String × ConfigFile) → Prop
  | _, [] => True
  | config, m :: rest => ModuleClear config m ∧ RunClear (loadModule config m.1 m.2) rest

def LoadClear (fs : FileSystem) (config : PTree) (file : ConfigFile) (modulesConfigPath : String) :
    Prop :=
  FileClear config file ∧ ∀ c name, loadFile config file = .ok (c, name) →
    RunClear c (allModuleFiles fs file modulesConfigPath)

/-- `write_json` accepts what merging the file into `config` gives. -/
def FileWritable (config : PTree) (file : ConfigFile) : Prop :=
  ∀ b, readConfig file = .ok b → MergeWritable config b file.parentPath

/-- It accepts the configuration of the module by itself, and the one with the module. -/
def ModuleWritable (config : PTree) (m : List String × ConfigFile) : Prop :=
  FileWritable default m.2 ∧ verifyJson (loadModule config m.1 m.2) 0 = true

def RunWritable : PTree → List (List String × ConfigFile) → Prop
  | _, [] => True
  | config, m :: rest => ModuleWritable config m ∧ RunWritable (loadModule config m.1 m.2) rest

def LoadWritable (fs : FileSystem) (config : PTree) (file : ConfigFile)
    (modulesConfigPath : String) : Prop :=
  FileWritable config file ∧ ∀ c name, loadFile config file = .ok (c, name) →
    RunWritable c (allModuleFiles fs file modulesConfigPath)

theorem loadFile_eq_ok {config c : PTree} {file : ConfigFile} {name : String}
    (h : loadFile config file = .ok (c, name)) : ∃ b, readConfig file = .ok b ∧
      c = PTree.put (mergePropertyTrees config b 0) "configPath" file.parentPath := by
  rw [loadFile] at h
  cases hr : readConfig file with
  | error e => rw [hr] at h; cases h
  | ok b =>
    rw [hr] at h
    cases h
    exact ⟨b, rfl, rfl⟩

theorem fileWritable_iff {config : PTree} {file : ConfigFile} (hc : verifyJson config 0 = true)
    (hv : Valid file) : FileWritable config file ↔ FileClear config file :=
  forall₂_congr fun b hb => mergeWritable_iff_clear hc (hv b hb) file.parentPath

theorem FileWritable.verifyJson {config c : PTree} {file : ConfigFile} {name : String}
    (h : FileWritable config file) (hl : loadFile config file = .ok (c, name)) :
    verifyJson c 0 = true := by
  obtain ⟨b, hb, rfl⟩ := loadFile_eq_ok hl
  exact (h b hb).put

theorem verifyJson_loadedConfig {c : PTree} (hc : verifyJson c 0 = true) (dirs : List String)
    (name : String) : verifyJson (loadedConfig dirs c name) 0 = true := by
  have hsound := ((verifyJson_zero c).mp hc).2
  rw [loadedConfig, PTree.putChild, verifyJson_zero]
  match hf : fragments (moduleKey dirs name) with
  | [] => exact absurd hf (fragments_ne_nil _)
  | i :: F =>
    refine ⟨rfl, fun q s hs => ?_⟩
    rcases at_forceAt hs with ⟨hq, ho⟩ | ⟨r, -, hr⟩ | ⟨u, hu, hne, rfl⟩
    · cases ho with
      | here => exact absurd rfl hq
      | child hm _ => simp at hm
    · exact hsound r s hr
    · -- the nodes on the way to the key are new
      left
      have hd : ((walk q (default : PTree)).getD default).data = "" := by cases q <;> rfl
      cases u with
      | nil => exact absurd rfl hne
      | cons x u => rwa [data_forceAt]

/-- Each step is clear exactly when it leaves acceptable configurations. -/
theorem moduleWritable_iff {config : PTree} {m : List String × ConfigFile}
    (hc : verifyJson config 0 = true) (hv : Valid m.2) :
    ModuleWritable config m ↔ ModuleClear config m := by
  have hempty : verifyJson (default : PTree) 0 = true := rfl
  rw [ModuleWritable, ModuleClear, ← fileWritable_iff hempty hv]
  refine and_congr_right fun hf => ?_
  rw [loadModule]
  cases h : loadFile default m.2 with
  | error e => simpa [mergeModule] using hc
  | ok r =>
    obtain ⟨moduleConfig, name⟩ := r
    have hm := verifyJson_loadedConfig (hf.verifyJson h) m.1 name
    simp only [mergeModule, verifyJson_merge_iff hc hm, Except.ok.injEq, Prod.mk.injEq, and_imp]
    constructor
    · rintro hs _ _ rfl rfl
      exact hs
    · exact fun hs => hs _ _ rfl rfl

theorem runWritable_iff {config : PTree} {files : List (List String × ConfigFile)}
    (hc : verifyJson config 0 = true) (hv : ∀ m ∈ files, Valid m.2) :
    RunWritable config files ↔ RunClear config files := by
  induction files generalizing config with
  | nil => exact Iff.rfl
  | cons m rest ih =>
    obtain ⟨hm, hrest⟩ := List.forall_mem_cons.mp hv
    rw [RunWritable, RunClear, ← moduleWritable_iff hc hm]
    exact and_congr_right fun h => ih h.2 hrest

theorem RunWritable.verifyJson {config : PTree} {files : List (List String × ConfigFile)}
    (hc : verifyJson config 0 = true) (h : RunWritable config files) :
    verifyJson (loadModules config files) 0 = true := by
  induction files generalizing config with
  | nil => exact hc
  | cons m rest ih =>
    rw [loadModules_cons]
    exact ih h.1.2 h.2

theorem loadWritable_iff {fs : FileSystem} {config : PTree} {file : ConfigFile}
    {modulesConfigPath : String} (hc : verifyJson config 0 = true) (hv : Valid file)
    (hmodules : ∀ m ∈ allModuleFiles fs file modulesConfigPath, Valid m.2) :
    LoadWritable fs config file modulesConfigPath ↔ LoadClear fs config file modulesConfigPath := by
  rw [LoadWritable, LoadClear, ← fileWritable_iff hc hv]
  exact and_congr_right fun hf => forall₃_congr fun c name hl =>
    runWritable_iff (hf.verifyJson hl) hmodules

/-- A load all of whose configurations are acceptable is not aborted. -/
theorem LoadWritable.not_isAborted {fs : FileSystem} {config : PTree} {file : ConfigFile}
    {modulesConfigPath : String} (h : LoadWritable fs config file modulesConfigPath) :
    (loadConfig fs config file modulesConfigPath).isAborted = false := by
  unfold loadConfig
  cases hl : loadFile config file with
  | error e => rfl
  | ok r =>
    obtain ⟨c, name⟩ := r
    have hv := (h.2 c name hl).verifyJson (h.1.verifyJson hl)
    rw [← loadModulesConfig_eq] at hv
    simp [hv, Outcome.isAborted]

/-- Merging a file keeps a configuration acceptable to `write_json` exactly when it puts no
child below data for good and no text where there are children; where the keys of the file
do not overlap, exactly when no value is on the way to what is set. So a load of acceptable
files goes through acceptable configurations exactly when each of its merges is clear in
the state it starts from, and is then not aborted. -/
theorem mergeWritable_iff (a b : PTree) (parentPath : String) (ha : verifyJson a 0 = true)
    (hb : verifyJson b 0 = true) :
    (MergeWritable a b parentPath ↔ MergeClear a b parentPath) ∧
    (WellKeyed a → Tidy b → (Spoils a b ↔ ¬ Clear a b)) ∧
    ∀ (fs : FileSystem) (file : ConfigFile) (modulesConfigPath : String), Valid file →
      (∀ m ∈ allModuleFiles fs file modulesConfigPath, Valid m.2) →
      (LoadWritable fs a file modulesConfigPath ↔ LoadClear fs a file modulesConfigPath) ∧
      (LoadClear fs a file modulesConfigPath →
        (loadConfig fs a file modulesConfigPath).isAborted = false) := by
  refine ⟨mergeWritable_iff_clear ha hb parentPath, fun hwa htb => htb.spoils_iff hwa ha hb, ?_⟩
  intro fs file modulesConfigPath hv hmodules
  have hload := loadWritable_iff ha hv hmodules
  exact ⟨hload, fun h => (hload.mpr h).not_isAborted⟩

/-- `{"y": "1"}` below `x` of `{"x": "5"}`, which a second `x` of the same file replaces. -/
theorem mergeWritable_iff_replaced :
    MergeClear (.node "" [("x", .node "5" [])])
      (.node "" [("x", .node "" [("y", .node "1" [])]), ("x", .node "5" [])]) "/etc/kurento" ∧
    ¬ MergeClear (.node "" [("x", .node "5" [])])
      (.node "" [("x", .node "5" []), ("x", .node "" [("y", .node "1" [])])]) "/etc/kurento" := by
  constructor
  · exact (mergeWritable_iff _ _ _ (by decide) (by decide)).1.mp ⟨by decide, by decide⟩
  · intro h
    have hm := ((mergeWritable_iff _ _ _ (by decide) (by decide)).1.mpr h).merged
    revert hm
    decide

/-- `/etc/kurento/kurento.conf.json`. -/
def sampleFile : ConfigFile := ⟨"/etc/kurento", "kurento.conf.json", fun _ => .ok
  (.node "" [("modules", .node "" [("kurento", .node "" [("SdpEndpoint", .node "on" [])])])])⟩

/-- `modules/kurento/SdpEndpoint.conf.json` in the same directory. -/
def sampleModule : ConfigFile := ⟨"/etc/kurento/modules/kurento", "SdpEndpoint.conf.json", fun _ =>
  .ok (.node "" [("codec", .node "VP8" [])])⟩

def sampleModules : FileSystem
  | "/etc/kurento/modules" => some ("/etc/kurento/modules",
      [.directory "kurento" [.regular sampleModule.filename sampleModule.read]])
  | _ => none

/-- `{"x": "5"}` and `{"x": {"y": "1"}}`: the merged node `x` has data and a child. In the
same way a main file that has a value where a module file is loaded aborts the server. -/
theorem not_mergeWritable :
    (¬ ∀ (a b : PTree) (parentPath : String), verifyJson a 0 = true → verifyJson b 0 = true →
      MergeWritable a b parentPath) ∧
    (loadConfig sampleModules default sampleFile "").isAborted = true := by
  constructor
  · intro h
    have hm := (h (.node "" [("x", .node "5" [])])
      (.node "" [("x", .node "" [("y", .node "1" [])])]) "" (by decide) (by decide)).merged
    revert hm
    decide
  · have hmain : loadFile default sampleFile = .ok (.node "" [("modules", .node ""
        [("kurento", .node "" [("SdpEndpoint", .node "on" [])])]),
        ("configPath", .node "/etc/kurento" [])], "kurento") := rfl
    have hfiles : allModuleFiles sampleModules sampleFile "" = [(["kurento"], sampleModule)] := rfl
    have hmodule : loadFile default sampleModule = .ok (.node "" [("codec", .node "VP8" []),
        ("configPath", .node "/etc/kurento/modules/kurento" [])], "SdpEndpoint") := rfl
    have hkey : moduleKey ["kurento"] "SdpEndpoint" = "modules.kurento.SdpEndpoint" := rfl
    have hpath : fragments "modules.kurento.SdpEndpoint" = ["modules", "kurento", "SdpEndpoint"] :=
      rfl
    unfold loadConfig
    simp only [hmain, loadModulesConfig_eq, hfiles, loadModules, List.foldl_cons,
      List.foldl_nil, loadModule, mergeModule, hmodule, loadedConfig, PTree.putChild, hkey, hpath]
    decide

end KurentoMediaServer.Config
