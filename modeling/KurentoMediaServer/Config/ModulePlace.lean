import KurentoMediaServer.Config.ModuleOrder
import KurentoMediaServer.Config.Override
import KurentoMediaServer.Config.Startup
import KurentoMediaServer.Foundations.Places

/-! What a load leaves of the main file and of the module files. Module files change
nothing outside `modules`, whatever they are called and whatever they hold, so the main
file's settings and its directory stay. Module files at places beside each other are found
there: each is merged into what the main file has for it, and its settings win. -/

namespace KurentoMediaServer.Config

open Foundations KeyedTree

/-! ### Outside `modules` -/

theorem plainKey_modules : PlainKey "modules" := by
  simp [PlainKey]

theorem walk_loadModule {k : String} (hk : k ≠ "modules") (p : List String) (config : PTree)
    (dirs : List String) (file : ConfigFile) :
    walk (k :: p) (loadModule config dirs file) = walk (k :: p) config := by
  rw [loadModule]
  cases loadFile default file with
  | error e => rfl
  | ok r =>
    obtain ⟨moduleConfig, name⟩ := r
    have hchain : loadedConfig dirs moduleConfig name = .node "" [("modules",
        forceAt (fun _ => moduleConfig) (nameParts dirs ++ fragments name) default)] := by
      rw [loadedConfig, PTree.putChild, fragments_moduleKey]
      rfl
    rw [mergeModule, hchain, mergePropertyTrees_children (Or.inl rfl), children_node,
      mergeChildren_step, mergeChildren_nil, mergeStep_of_plain plainKey_modules, walk_cons,
      walk_cons, lookup_erase_push_of_ne hk]

theorem walk_loadModules {k : String} (hk : k ≠ "modules") (p : List String) (config : PTree)
    (files : List (List String × ConfigFile)) :
    walk (k :: p) (loadModules config files) = walk (k :: p) config := by
  induction files generalizing config with
  | nil => rfl
  | cons m rest ih => rw [loadModules_cons, ih, walk_loadModule hk]

/-- The configuration when the main file is read. -/
def mainConfig (config readConfig : PTree) (file : ConfigFile) : PTree :=
  PTree.put (mergePropertyTrees config readConfig 0) "configPath" file.parentPath

theorem get_mainConfig (config readConfig : PTree) (file : ConfigFile) :
    (walk ["configPath"] (mainConfig config readConfig file)).map KeyedTree.data =
      some file.parentPath := by
  have hput := walk_forceAt_append (fun n : PTree => .node file.parentPath n.children)
    ["configPath"] [] (mergePropertyTrees config readConfig 0)
  rw [List.append_nil, ← put_configPath] at hput
  rw [mainConfig, hput]
  rfl

/-- What a module file puts at its place: its settings, and its directory. -/
def moduleConfig (m : List String × ConfigFile) : PTree :=
  match readConfig m.2 with
  | .ok readConfig => mainConfig default readConfig m.2
  | .error _ => default

theorem isObject_mainConfig (config readConfig : PTree) (file : ConfigFile) :
    PTree.isObject (mainConfig config readConfig file) = true := by
  have hput := get_mainConfig config readConfig file
  obtain ⟨n, hn, -⟩ := Option.map_eq_some_iff.mp hput
  obtain ⟨c, hc, -⟩ := Option.bind_eq_some_iff.mp (walk_cons "configPath" [] _ ▸ hn)
  exact PTree.isObject_iff.mpr ⟨_, mem_of_lookup hc, (by decide : "configPath" ≠ "")⟩

theorem isObject_moduleConfig {m : List String × ConfigFile} (h : loads m = true) :
    PTree.isObject (moduleConfig m) = true := by
  rw [loads] at h
  rw [moduleConfig]
  cases hr : readConfig m.2 with
  | error e =>
    rw [hr] at h
    cases h
  | ok readConfig => exact isObject_mainConfig default readConfig m.2

/-- A module file that is loaded is merged as a tree with the keys of its place above it. -/
theorem loadModule_of_chain {m : List String × ConfigFile} (h : loads m = true) (config : PTree) :
    loadModule config m.1 m.2 =
      mergePropertyTrees config (forceAt (fun _ => moduleConfig m) (keyParts m) default) 0 := by
  rw [loads] at h
  rw [loadModule, loadFile, moduleConfig]
  cases hr : readConfig m.2 with
  | error e =>
    rw [hr] at h
    cases h
  | ok readConfig => rfl

/-- So it is merged into what is at its place. -/
theorem loadModule_eq {m : List String × ConfigFile} (h : loads m = true)
    (hk : ∀ k ∈ keyParts m, PlainKey k) (config : PTree) :
    loadModule config m.1 m.2 =
      rebuildAt (mergePropertyTrees · (moduleConfig m) (keyParts m).length) (keyParts m) config := by
  rw [loadModule_of_chain h, mergePropertyTrees_chain hk, Nat.zero_add]

/-- In every load over module files at places beside each other, each file that is read is
found at its place, merged into what the configuration had there, with its own directory.
Where its keys are plain its settings win. Beside these places nothing is changed. -/
theorem modules_in_place (fs : FileSystem) (config : PTree) (file : ConfigFile)
    (modulesConfigPath : String)
    (ha : Apart ((allModuleFiles fs file modulesConfigPath).filter loads)) :
    (∀ m ∈ allModuleFiles fs file modulesConfigPath, loads m = true →
      walk (keyParts m) (loadModulesConfig fs config file modulesConfigPath) =
          some (mergePropertyTrees ((walk (keyParts m) config).getD default) (moduleConfig m)
            (keyParts m).length) ∧
      (Mergeable (moduleConfig m) → ∀ p n, p ≠ [] → walk p (moduleConfig m) = some n →
        PTree.isObject n = false →
        walk (keyParts m ++ p) (loadModulesConfig fs config file modulesConfigPath) = some n)) ∧
    ∀ q, (∀ m ∈ allModuleFiles fs file modulesConfigPath, loads m = true →
        Divergent (keyParts m) q) →
      walk q (loadModulesConfig fs config file modulesConfigPath) = walk q config := by
  rw [loadModulesConfig_eq, ← loadModules_filter]
  have hop : ∀ m ∈ (allModuleFiles fs file modulesConfigPath).filter loads, ∀ t : PTree,
      loadModule t m.1 m.2 =
        rebuildAt (mergePropertyTrees · (moduleConfig m) (keyParts m).length) (keyParts m) t :=
    fun m hm t => loadModule_eq (List.mem_filter.mp hm).2 (ha.plain m hm) t
  constructor
  · intro m hm hl
    have hmem := List.mem_filter.mpr ⟨hm, hl⟩
    have hplace := walk_foldl_place hop ha.beside hmem config
    refine ⟨hplace, fun hmerge p n hp hn ho => ?_⟩
    have hobject := isObject_moduleConfig hl
    rw [walk_append, loadModules, hplace, Option.bind_some,
      mergePropertyTrees_eq_deepMerge hmerge (Or.inr hobject)]
    exact walk_deepMerge_right hp hn ho
  · exact fun q hq => walk_foldl_of_divergent hop
      (fun m hm => hq m (List.mem_filter.mp hm).1 (List.mem_filter.mp hm).2) config

theorem modules_in_place_sample :
    walk ["modules", "kurento", "SdpEndpoint"] (loadModulesConfig sampleModules default sampleFile "") =
      some (mergePropertyTrees default (moduleConfig (["kurento"], sampleModule)) 3) := by
  have hfiles : allModuleFiles sampleModules sampleFile "" = [(["kurento"], sampleModule)] := rfl
  have hloads : loads (["kurento"], sampleModule) = true := rfl
  have hapart : Apart ((allModuleFiles sampleModules sampleFile "").filter loads) := by
    rw [hfiles, List.filter_cons_of_pos hloads, List.filter_nil]
    apply apart_of_plain
    · intro m hm dir hdir
      rw [List.mem_singleton.mp hm] at hdir
      rw [List.mem_singleton.mp hdir]
      exact ⟨by decide, by decide, by decide⟩
    · intro m hm
      rw [List.mem_singleton.mp hm]
      exact ⟨by decide, by decide, by decide⟩
    · exact List.pairwise_singleton ..
  exact ((modules_in_place sampleModules default sampleFile "" hapart).1 (["kurento"], sampleModule)
    (by rw [hfiles]; exact List.mem_singleton_self _) hloads).1

end KurentoMediaServer.Config
