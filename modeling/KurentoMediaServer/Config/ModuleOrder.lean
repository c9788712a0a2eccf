import KurentoMediaServer.Config.ModuleKey
import KurentoMediaServer.Foundations.Alike

/-! The order of the module files. Each file is merged at a place of its own, so the
files may be loaded in any order: up to the order of siblings with different keys the
configuration is the same, and a file that is not loaded leaves no trace. -/

namespace KurentoMediaServer.Config

open Foundations KeyedTree

/-! ### Merging into trees that are alike -/

section Alike

variable {s t c c' : PTree}

theorem alike_getChild (h : Alike s t) (path : String) :
    Alike (s.getChild path default) (t.getChild path default) :=
  h.getD_walk (steps path)

theorem alike_addChild (h : Alike s t) (hc : Alike c c') (path : String) :
    Alike (s.addChild path c) (t.addChild path c') :=
  Alike.forceAt (fun _ _ hp => hp.push hc _) (fragments path).dropLast h

theorem alike_mergeChildren {cs : List (String × PTree)} {level : ℕ}
    (hcs : ∀ p ∈ cs, ∀ s t, Alike s t →
      Alike (mergePropertyTrees s p.2 (level + 1)) (mergePropertyTrees t p.2 (level + 1)))
    (h : Alike s t) : Alike (mergeChildren s cs level) (mergeChildren t cs level) := by
  induction cs generalizing s t with
  | nil =>
    rw [mergeChildren_nil, mergeChildren_nil]
    exact h
  | cons p rest ih =>
    rw [mergeChildren_step, mergeChildren_step]
    apply ih fun q hq => hcs q (List.mem_cons_of_mem p hq)
    have hchild := alike_getChild h (cString p.1)
    exact alike_addChild (h.erase _) (hcs p List.mem_cons_self _ _ hchild) (cString p.1)

/-- Merging does not look at the order of siblings, whatever the keys are. -/
theorem alike_mergePropertyTrees (b : PTree) (level : ℕ) (h : Alike s t) :
    Alike (mergePropertyTrees s b level) (mergePropertyTrees t b level) := by
  induction b using KeyedTree.induct generalizing s t level with
  | node d cs ih =>
    rw [mergePropertyTrees, mergePropertyTrees]
    split_ifs
    · exact .refl _
    · exact .refl _
    · exact alike_mergeChildren (fun p hp s t hst => ih p hp (level + 1) hst) h

end Alike

/-! ### The place of a file -/

/-- A tree that is put below plain keys is merged where these keys lead. -/
theorem mergePropertyTrees_chain {parts : List String} (hk : ∀ k ∈ parts, PlainKey k)
    (m t : PTree) (level : ℕ) :
    mergePropertyTrees t (forceAt (fun _ => m) parts default) level =
      rebuildAt (fun old => mergePropertyTrees old m (level + parts.length)) parts t := by
  induction parts generalizing t level with
  | nil => rfl
  | cons k ks ih =>
    rw [List.forall_mem_cons] at hk
    have hchain : forceAt (fun _ => m) (k :: ks) (default : PTree) =
        .node "" [(k, forceAt (fun _ => m) ks default)] := rfl
    have ho : PTree.isObject (.node "" [(k, forceAt (fun _ => m) ks default)]) = true :=
      PTree.isObject_iff.mpr ⟨_, List.mem_singleton_self _, hk.1.1⟩
    rw [hchain, mergePropertyTrees_children (Or.inr ho), children_node, mergeChildren_step,
      mergeChildren_nil, mergeStep_of_plain hk.1, ih hk.2, rebuildAt, List.length_cons,
      Nat.add_right_comm, Nat.add_assoc level]

def loads (m : List String × ConfigFile) : Bool := (readConfig m.2).isOk

/-- The keys on the way to the place of a file. -/
def keyParts (m : List String × ConfigFile) : List String :=
  fragments (moduleKey m.1 (fileName m.2))

theorem loadModule_of_loads {m : List String × ConfigFile} (h : loads m = true)
    (hk : ∀ k ∈ keyParts m, PlainKey k) : ∃ g : PTree → PTree,
      ∀ config, loadModule config m.1 m.2 = rebuildAt g (keyParts m) config := by
  rw [loads] at h
  cases hr : readConfig m.2 with
  | error e =>
    rw [hr] at h
    cases h
  | ok readConfig =>
    refine ⟨fun old => mergePropertyTrees old (PTree.put (mergePropertyTrees default readConfig 0)
      "configPath" m.2.parentPath) (0 + (keyParts m).length), fun config => ?_⟩
    rw [← mergePropertyTrees_chain hk, loadModule, loadFile, hr]
    rfl

theorem loadModule_of_not_loads {m : List String × ConfigFile} (h : loads m = false)
    (config : PTree) : loadModule config m.1 m.2 = config := by
  rw [loads] at h
  cases hr : readConfig m.2 with
  | error e =>
    rw [loadModule, loadFile, hr]
    rfl
  | ok readConfig =>
    rw [hr] at h
    cases h

theorem alike_loadModule {s t : PTree} (h : Alike s t) (m : List String × ConfigFile) :
    Alike (loadModule s m.1 m.2) (loadModule t m.1 m.2) := by
  rw [loadModule, loadModule, loadFile]
  cases readConfig m.2 with
  | error e => exact h
  | ok readConfig => exact alike_mergePropertyTrees _ 0 h

/-! ### Runs over module files -/

theorem loadModules_filter (config : PTree) (files : List (List String × ConfigFile)) :
    loadModules config (files.filter loads) = loadModules config files := by
  induction files generalizing config with
  | nil => rfl
  | cons m rest ih =>
    by_cases hm : loads m = true
    · rw [List.filter_cons_of_pos hm, loadModules_cons, loadModules_cons, ih]
    · rw [List.filter_cons_of_neg hm, loadModules_cons,
        loadModule_of_not_loads (by simpa using hm), ih]

/-- Files at places beside each other, with names that keys are made of as they stand. -/
structure Apart (files : List (List String × ConfigFile)) : Prop where
  /-- No part of a key is empty. A part has no dots, and a name in a file system has no
  null character. -/
  plain : ∀ m ∈ files, ∀ k ∈ keyParts m, PlainKey k
  beside : files.Pairwise fun m m' =>
    ¬ keyParts m <+: keyParts m' ∧ ¬ keyParts m' <+: keyParts m

theorem alike_loadModules (config : PTree) {files files' : List (List String × ConfigFile)}
    (hperm : (files.filter loads).Perm (files'.filter loads)) (h : Apart (files.filter loads)) :
    Alike (loadModules config files) (loadModules config files') := by
  rw [← loadModules_filter config files, ← loadModules_filter config files']
  apply foldl_rel_of_perm Alike.equivalence _ hperm
  · refine h.beside.imp_of_mem fun {m m'} hm hm' hne config => ?_
    obtain ⟨g, hg⟩ := loadModule_of_loads (List.mem_filter.mp hm).2 (h.plain m hm)
    obtain ⟨g', hg'⟩ := loadModule_of_loads (List.mem_filter.mp hm').2 (h.plain m' hm')
    rw [hg, hg', hg, hg']
    exact rebuildAt_comm hne.1 hne.2 g g' config
  · exact fun m s t hst => alike_loadModule hst m

/-- Where no name has a dot, the keys are the directories and the name of the file. -/
theorem apart_of_plain {files : List (List String × ConfigFile)}
    (hdirs : ∀ m ∈ files, ∀ dir ∈ m.1, PlainKey dir)
    (hnames : ∀ m ∈ files, PlainKey (fileName m.2))
    (hbeside : files.Pairwise fun m m' => ¬ m.1 ++ [fileName m.2] <+: m'.1 ++ [fileName m'.2] ∧
      ¬ m'.1 ++ [fileName m'.2] <+: m.1 ++ [fileName m.2]) : Apart files := by
  have hparts : ∀ m ∈ files, keyParts m = "modules" :: (m.1 ++ [fileName m.2]) := by
    intro m hm
    have hd : ∀ dir ∈ m.1, dir ≠ "" ∧ '.' ∉ dir.toList := fun dir h =>
      ⟨(hdirs m hm dir h).1, (hdirs m hm dir h).2.1⟩
    rw [keyParts, fragments_moduleKey, nameParts_of_plain hd, (hnames m hm).fragments]
  constructor
  · intro m hm k hk
    rw [hparts m hm, List.mem_cons, List.mem_append, List.mem_singleton] at hk
    rcases hk with rfl | hk | rfl
    · exact ⟨by decide, by decide, by decide⟩
    · exact hdirs m hm k hk
    · exact hnames m hm
  · refine hbeside.imp_of_mem fun {m m'} hm hm' h => ?_
    rw [hparts m hm, hparts m' hm']
    simpa using h

/-! ### The order of a directory iterator -/

/-- Two ways of going through a directory: the entries of any directory may come in any
order, and files that are not loaded may come in between. -/
inductive Reordered : List DirEntry → List DirEntry → Prop
  | nil : Reordered [] []
  | cons (entry : DirEntry) {rest rest' : List DirEntry} (h : Reordered rest rest') :
      Reordered (entry :: rest) (entry :: rest')
  | directory (name : String) {entries entries' rest rest' : List DirEntry}
      (hd : Reordered entries entries') (h : Reordered rest rest') :
      Reordered (.directory name entries :: rest) (.directory name entries' :: rest')
  | swap (entry entry' : DirEntry) (rest : List DirEntry) :
      Reordered (entry :: entry' :: rest) (entry' :: entry :: rest)
  | skip {name : String} {read : Reader}
      (hl : ∀ dir dirs, loads (dirs, ⟨dir, name, read⟩) = false) (rest : List DirEntry) :
      Reordered (.regular name read :: rest) rest
  | symm {entries entries' : List DirEntry} (h : Reordered entries entries') :
      Reordered entries' entries
  | trans {entries entries' entries'' : List DirEntry} (h : Reordered entries entries')
      (h' : Reordered entries' entries'') : Reordered entries entries''

theorem Reordered.perm {entries entries' : List DirEntry} (h : Reordered entries entries')
    (dir : String) (dirs : List String) :
    ((moduleFiles dir dirs entries).filter loads).Perm
      ((moduleFiles dir dirs entries').filter loads) := by
  induction h generalizing dir dirs with
  | nil => exact .refl _
  | cons entry _ ih =>
    rw [moduleFiles, moduleFiles, List.filter_append, List.filter_append]
    exact (ih dir dirs).append_left _
  | directory name _ _ ihd ih =>
    rw [moduleFiles, moduleFiles, entryFiles, entryFiles, List.filter_append, List.filter_append]
    exact (ihd _ _).append (ih dir dirs)
  | swap entry entry' rest =>
    simp only [moduleFiles, List.filter_append, ← List.append_assoc]
    exact List.perm_append_comm.append_right _
  | skip hl rest =>
    rw [moduleFiles, entryFiles, List.filter_append, List.filter_cons_of_neg (by simp [hl])]
    exact .refl _
  | symm _ ih => exact (ih dir dirs).symm
  | trans _ _ ih ih' => exact (ih dir dirs).trans (ih' dir dirs)

/-- Whatever the order in which the files below a directory are loaded, the configuration
is the same up to the order of siblings with different keys, and a file that is not loaded
leaves no trace in it. -/
theorem alike_loadModulesConfigFromDir (config : PTree) (dir : String) (dirs : List String)
    {entries entries' : List DirEntry}
    (hperm : ((moduleFiles dir dirs entries).filter loads).Perm
      ((moduleFiles dir dirs entries').filter loads))
    (ha : Apart ((moduleFiles dir dirs entries).filter loads)) :
    Alike (loadModulesConfigFromDir config dir dirs entries)
        (loadModulesConfigFromDir config dir dirs entries') ∧
      loadModulesConfigFromDir config dir dirs entries =
        loadModules config ((moduleFiles dir dirs entries).filter loads) := by
  rw [loadModulesConfigFromDir_eq, loadModulesConfigFromDir_eq]
  exact ⟨alike_loadModules config hperm ha, (loadModules_filter config _).symm⟩

/-- A file beside a directory, and a file that is not read before them. -/
theorem alike_loadModulesConfigFromDir_two :
    let webRtc : DirEntry := .regular "WebRtc.conf.json" fun _ =>
      .ok (.node "" [("stunServerPort", .node "3478" [])])
    let broken : DirEntry := .regular "broken.conf.json" fun _ => .error "expected value"
    let kurento : DirEntry := .directory "kurento" [.regular "SdpEndpoint.conf.json" fun _ =>
      .ok (.node "" [("maxVideoPort", .node "1" [])])]
    Alike (loadModulesConfigFromDir default "modules" [] [broken, webRtc, kurento])
      (loadModulesConfigFromDir default "modules" [] [kurento, webRtc]) := by
  intro webRtc broken kurento
  have hfiles : (moduleFiles "modules" [] [broken, webRtc, kurento]).filter loads =
      entryFiles "modules" [] webRtc ++ entryFiles "modules" [] kurento := rfl
  have hbroken (dir : String) (dirs : List String) :
      loads (dirs, ⟨dir, "broken.conf.json", fun _ => .error "expected value"⟩) = false := by
    have hjson : extension "broken.conf.json" = ".json" := by decide
    have hconf : extension (stem "broken.conf.json") = ".conf" := by decide
    unfold loads readConfig
    rw [if_pos hconf, if_pos hjson]
    rfl
  have horder : Reordered [broken, webRtc, kurento] [kurento, webRtc] :=
    .trans (.skip hbroken _) (.swap webRtc kurento [])
  refine (alike_loadModulesConfigFromDir default "modules" [] (horder.perm "modules" []) ?_).1
  · rw [hfiles]
    apply apart_of_plain
    · intro m hm dir hdir
      rcases List.mem_cons.mp hm with rfl | hm
      · simp at hdir
      · rw [List.mem_singleton.mp hm] at hdir
        rw [List.mem_singleton.mp hdir]
        exact ⟨by decide, by decide, by decide⟩
    · intro m hm
      rcases List.mem_cons.mp hm with rfl | hm
      · exact ⟨by decide, by decide, by decide⟩
      · rw [List.mem_singleton.mp hm]
        exact ⟨by decide, by decide, by decide⟩
    · apply List.pairwise_pair.mpr
      exact ⟨by decide, by decide⟩

end KurentoMediaServer.Config
