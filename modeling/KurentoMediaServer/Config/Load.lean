import KurentoMediaServer.Config.Merge
import KurentoMediaServer.Config.Serialise

/-! `loadConfig`: the main configuration file, then the module files below the module
directories in the order the directory iterators yield them, and at the end the
configuration written as JSON for the log. What boost reads from a file is data of the
file: a tree, or the text of a parse error. -/

namespace KurentoMediaServer.Config

open Foundations KeyedTree

/-! ### Names of files -/

/-- `extension ()` of a file name: from its last dot on. -/
def extension (name : String) : String :=
  if '.' ∈ name.toList then
    String.ofList ('.' :: (name.toList.reverse.takeWhile (· ≠ '.')).reverse)
  else ""

/-- `stem ()` of a file name: the part before its last dot. -/
def stem (name : String) : String :=
  if '.' ∈ name.toList then
    String.ofList ((name.toList.reverse.dropWhile (· ≠ '.')).tail.reverse)
  else name

/-- `split (s, delim)`: the lines that `std::getline` yields. -/
def split (s : String) (delim : Char) : List String :=
  let elems := (s.toList.splitOn delim).map String.ofList
  if elems.getLast? = some "" then elems.dropLast else elems

inductive Format where
  | json | info | ini | xml

/-- What the readers make of a file: a tree, or the message of the parse error. -/
abbrev Reader := Format → Except String PTree

/-- A regular file: `parent_path ().string ()`, `filename ().string ()` and its contents. -/
structure ConfigFile where
  parentPath : String
  filename : String
  read : Reader

structure ParseException where
  message : String

/-! ### One file -/

/-- The tree that `loadFile` reads, by the two extensions of the name. -/
def readConfig (file : ConfigFile) : Except ParseException PTree :=
  let extension1 := extension (stem file.filename)
  let extension2 := extension file.filename
  let read (format : Format) (prefixed : String) : Except ParseException PTree :=
    (file.read format).mapError fun what => ⟨prefixed ++ what⟩
  if extension1 = ".conf" then
    if extension2 = ".json" then read .json "JSON parse error: "
    else if extension2 = ".info" then read .info "INFO parse error: "
    else if extension2 = ".ini" then read .ini "INI parse error: "
    else if extension2 = ".xml" then read .xml "XML parse error: "
    else .error ⟨"Unknown conf format: " ++ extension2⟩
  else .error ⟨"Unknown file type: " ++ file.filename⟩

def fileName (file : ConfigFile) : String :=
  let name := file.filename.toList
  String.ofList (name.take (name.length - (extension (stem file.filename)).toList.length -
    (extension file.filename).toList.length))

/-- `loadFile (config, fspath)`: the new configuration and the name returned. -/
def loadFile (config : PTree) (file : ConfigFile) : Except ParseException (PTree × String) :=
  (readConfig file).map fun readConfig =>
    (PTree.put (mergePropertyTrees config readConfig 0) "configPath" file.parentPath, fileName file)

/-! ### The module files -/

/-- `diffPathToKey`: the stems of the directories below the root that is searched. An
empty stem leaves no part in the path that is built of them. -/
def diffPathToKey (dirs : List String) : String :=
  ((dirs.map stem).filter (· ≠ "")).foldl
    (fun key it => if key = "" then it else key ++ "." ++ it) ""

def moduleKey (dirs : List String) (name : String) : String :=
  let key := diffPathToKey dirs
  (if key = "" then "modules" else "modules." ++ key) ++ "." ++ name

/-- `loadedConfig`: the module's configuration under its key. -/
def loadedConfig (dirs : List String) (moduleConfig : PTree) (name : String) : PTree :=
  PTree.putChild default (moduleKey dirs name) moduleConfig

/-- A loaded module is merged under its key; a parse error leaves the configuration as
it is. -/
def mergeModule (config : PTree) (dirs : List String) :
    Except ParseException (PTree × String) → PTree
  | .ok (moduleConfig, name) => mergePropertyTrees config (loadedConfig dirs moduleConfig name) 0
  | .error _ => config

def loadModule (config : PTree) (dirs : List String) (file : ConfigFile) : PTree :=
  mergeModule config dirs (loadFile default file)

inductive DirEntry where
  | regular (name : String) (read : Reader)
  | directory (name : String) (entries : List DirEntry)
  | other

mutual

/-- `loadModulesConfigFromDir (config, dir, parentDir)`, with the path of `dir` and the
directories between it and `parentDir`. -/
def loadModulesConfigFromDir (config : PTree) (dir : String) (dirs : List String) :
    List DirEntry → PTree
  | [] => config
  | entry :: rest => loadModulesConfigFromDir (loadEntry config dir dirs entry) dir dirs rest

def loadEntry (config : PTree) (dir : String) (dirs : List String) : DirEntry → PTree
  | .regular name read => loadModule config dirs ⟨dir, name, read⟩
  | .directory name entries =>
    loadModulesConfigFromDir config (dir ++ "/" ++ name) (dirs ++ [name]) entries
  | .other => config

end

/-- The directory that a location names, by its normal path, if it is one. -/
abbrev FileSystem := String → Option (String × List DirEntry)

/-- `loadModulesConfig (config, configFilePath, modulesConfigPath)`. -/
def loadModulesConfig (fs : FileSystem) (config : PTree) (configFile : ConfigFile)
    (modulesConfigPath : String) : PTree :=
  let modulesConfigPath :=
    if modulesConfigPath = "" then configFile.parentPath ++ "/modules" else modulesConfigPath
  (split modulesConfigPath ':').foldl (fun config location =>
    match fs location with
    | some (dir, entries) => loadModulesConfigFromDir config dir [] entries
    | none => config) config

/-! ### The configuration -/

/-- How `loadConfig` ends: with the configuration, with `exit (1)` on a parse error, or
with an exception of `write_json` that nothing catches. -/
inductive Outcome where
  | loaded (config : PTree)
  | exited (message : String)
  | aborted

def Outcome.isAborted : Outcome → Bool
  | .aborted => true
  | _ => false

/-- `loadConfig (config, file_name, modulesConfigPath)`. -/
def loadConfig (fs : FileSystem) (config : PTree) (file : ConfigFile)
    (modulesConfigPath : String) : Outcome :=
  match loadFile config file with
  | .error e => .exited e.message
  | .ok (config, _) =>
    let config := loadModulesConfig fs config file modulesConfigPath
    if verifyJson config 0 then .loaded config else .aborted

/-! ### The order of the module files -/

mutual

/-- The regular files below a directory in the order they are loaded, each with the
directories above it. -/
def moduleFiles (dir : String) (dirs : List String) :
    List DirEntry → List (List String × ConfigFile)
  | [] => []
  | entry :: rest => entryFiles dir dirs entry ++ moduleFiles dir dirs rest

def entryFiles (dir : String) (dirs : List String) : DirEntry → List (List String × ConfigFile)
  | .regular name read => [(dirs, ⟨dir, name, read⟩)]
  | .directory name entries => moduleFiles (dir ++ "/" ++ name) (dirs ++ [name]) entries
  | .other => []

end

def loadModules (config : PTree) (files : List (List String × ConfigFile)) : PTree :=
  files.foldl (fun config m => loadModule config m.1 m.2) config

theorem loadModules_nil (config : PTree) : loadModules config [] = config :=
  rfl

theorem loadModules_cons (config : PTree) (m : List String × ConfigFile)
    (rest : List (List String × ConfigFile)) :
    loadModules config (m :: rest) = loadModules (loadModule config m.1 m.2) rest :=
  List.foldl_cons ..

theorem loadModules_append (config : PTree) (xs ys : List (List String × ConfigFile)) :
    loadModules config (xs ++ ys) = loadModules (loadModules config xs) ys :=
  List.foldl_append

mutual

theorem loadModulesConfigFromDir_eq (config : PTree) (dir : String) (dirs : List String) :
    ∀ entries : List DirEntry, loadModulesConfigFromDir config dir dirs entries =
      loadModules config (moduleFiles dir dirs entries)
  | [] => rfl
  | entry :: rest => by
    rw [loadModulesConfigFromDir, moduleFiles, loadModules_append, loadEntry_eq,
      loadModulesConfigFromDir_eq]

theorem loadEntry_eq (config : PTree) (dir : String) (dirs : List String) :
    ∀ entry : DirEntry, loadEntry config dir dirs entry =
      loadModules config (entryFiles dir dirs entry)
  | .regular name read => by
    rw [loadEntry, entryFiles, loadModules_cons, loadModules_nil]
  | .directory name entries => by
    rw [loadEntry, entryFiles, loadModulesConfigFromDir_eq]
  | .other => rfl

end

/-- All the module files of a load, location by location. -/
def allModuleFiles (fs : FileSystem) (configFile : ConfigFile) (modulesConfigPath : String) :
    List (List String × ConfigFile) :=
  let modulesConfigPath :=
    if modulesConfigPath = "" then configFile.parentPath ++ "/modules" else modulesConfigPath
  (split modulesConfigPath ':').flatMap fun location =>
    match fs location with
    | some (dir, entries) => moduleFiles dir [] entries
    | none => []

theorem loadModulesConfig_eq (fs : FileSystem) (config : PTree) (configFile : ConfigFile)
    (modulesConfigPath : String) :
    loadModulesConfig fs config configFile modulesConfigPath =
      loadModules config (allModuleFiles fs configFile modulesConfigPath) := by
  rw [loadModulesConfig, allModuleFiles]
  generalize split _ ':' = locations
  induction locations generalizing config with
  | nil => rfl
  | cons location rest ih =>
    rw [List.foldl_cons, ih, List.flatMap_cons, loadModules_append]
    cases fs location with
    | none => rfl
    | some found => rw [← loadModulesConfigFromDir_eq]

end KurentoMediaServer.Config
