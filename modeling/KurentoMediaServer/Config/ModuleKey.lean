import KurentoMediaServer.Config.Load
import Mathlib.Data.List.Induction

/-! The keys of module files. A directory is named in a key by its stem, and the stems
stand between dots, so a key keeps of the directories only the parts between the dots of
their stems. -/

namespace KurentoMediaServer.Config

/-! ### The loop over the directories -/

/-- `stem / diffpath`: an empty stem adds nothing. -/
def prepend (stem : String) (diffpath : List String) : List String :=
  if stem = "" then diffpath else stem :: diffpath

/-- The first loop of `diffPathToKey`, over the components of the paths: `none` if it has
not ended after the given number of rounds. -/
def diffPath : ℕ → List String → List String → List String → Option (List String)
  | 0, _, _, _ => none
  | rounds + 1, tmppath, ancestorPath, diffpath =>
    if tmppath = ancestorPath then some diffpath
    else diffPath rounds tmppath.dropLast ancestorPath
      (prepend (stem (tmppath.getLastD "")) diffpath)

def joinKey (diffpath : List String) : String :=
  diffpath.foldl (fun key it => if key = "" then it else key ++ "." ++ it) ""

/-- `diffPathToKey (path, ancestorPath)`, if it returns within the rounds. -/
def pathToKey (rounds : ℕ) (path ancestorPath : List String) : Option String :=
  (diffPath rounds path ancestorPath []).map joinKey

theorem diffPath_eq (root dirs diffpath : List String) :
    diffPath (dirs.length + 1) (root ++ dirs) root diffpath =
      some ((dirs.map stem).filter (· ≠ "") ++ diffpath) := by
  induction dirs using List.reverseRecOn generalizing diffpath with
  | nil => simp [diffPath]
  | append_singleton dirs dir ih =>
    have hne : root ++ (dirs ++ [dir]) ≠ root := by simp
    have hdrop : (root ++ (dirs ++ [dir])).dropLast = root ++ dirs := by
      rw [← List.append_assoc, List.dropLast_concat]
    have hlast : (root ++ (dirs ++ [dir])).getLastD "" = dir := by
      rw [← List.append_assoc, List.getLastD_concat]
    rw [List.length_append, List.length_singleton, diffPath, if_neg hne, hdrop, hlast, ih,
      prepend, List.map_append, List.filter_append]
    by_cases hs : stem dir = "" <;> simp [hs]

theorem diffPath_mono {rounds more : ℕ} {tmppath ancestorPath diffpath d : List String}
    (h : diffPath rounds tmppath ancestorPath diffpath = some d) (hle : rounds ≤ more) :
    diffPath more tmppath ancestorPath diffpath = some d := by
  induction rounds generalizing more tmppath diffpath with
  | zero => cases h
  | succ rounds ih =>
    cases more with
    | zero => omega
    | succ more =>
      rw [diffPath] at h ⊢
      split_ifs at h ⊢
      · exact h
      · exact ih h (by omega)

/-! ### What a key keeps -/

/-- The parts between the dots of the stems. -/
def nameParts (dirs : List String) : List String :=
  ((dirs.map stem).filter (· ≠ "")).flatMap fragments

theorem fragments_injective : Function.Injective fragments := by
  intro p q h
  have hinj : Function.Injective String.ofList := fun _ _ => String.ofList_injective
  have hl : p.toList.splitOn '.' = q.toList.splitOn '.' := List.map_injective_iff.mpr hinj h
  have hp : ['.'].intercalate (p.toList.splitOn '.') = p.toList := List.intercalate_splitOn '.'
  have hq : ['.'].intercalate (q.toList.splitOn '.') = q.toList := List.intercalate_splitOn '.'
  rw [hl, hq] at hp
  exact String.toList_inj.mp hp.symm

/-- From a key on, every stem adds its parts. -/
theorem fragments_foldl {key : String} (hk : key ≠ "") (stems : List String) :
    let whole := stems.foldl (fun key it => if key = "" then it else key ++ "." ++ it) key
    whole ≠ "" ∧ fragments whole = fragments key ++ stems.flatMap fragments := by
  induction stems generalizing key with
  | nil => simp [hk]
  | cons it rest ih =>
    have hne : key ++ "." ++ it ≠ "" := by simp
    obtain ⟨h, hf⟩ := ih hne
    rw [List.foldl_cons, if_neg hk]
    refine ⟨h, ?_⟩
    rw [hf, fragments_append, List.flatMap_cons, List.append_assoc]

/-- A key is empty, or made of the parts of the stems. -/
theorem diffPathToKey_cases (dirs : List String) :
    (diffPathToKey dirs = "" ∧ nameParts dirs = []) ∨
      (diffPathToKey dirs ≠ "" ∧ fragments (diffPathToKey dirs) = nameParts dirs) := by
  rw [diffPathToKey, nameParts]
  cases hs : (dirs.map stem).filter (· ≠ "") with
  | nil => exact Or.inl ⟨rfl, rfl⟩
  | cons s rest =>
    have hm : s ∈ (dirs.map stem).filter (· ≠ "") := hs ▸ List.mem_cons_self
    have hne : s ≠ "" := by simpa using (List.mem_filter.mp hm).2
    rw [List.foldl_cons, if_pos rfl]
    exact Or.inr (fragments_foldl hne rest)

theorem diffPathToKey_eq_iff (dirs dirs' : List String) :
    diffPathToKey dirs = diffPathToKey dirs' ↔ nameParts dirs = nameParts dirs' := by
  rcases diffPathToKey_cases dirs with ⟨h, hp⟩ | ⟨h, hp⟩ <;>
    rcases diffPathToKey_cases dirs' with ⟨h', hp'⟩ | ⟨h', hp'⟩
  · rw [h, h', hp, hp']
    simp
  · rw [h, hp, ← hp']
    exact iff_of_false h'.symm (fragments_ne_nil _).symm
  · rw [h', hp', ← hp]
    exact iff_of_false h (fragments_ne_nil _)
  · rw [← hp, ← hp']
    exact fragments_injective.eq_iff.symm

theorem fragments_moduleKey (dirs : List String) (name : String) :
    fragments (moduleKey dirs name) = "modules" :: (nameParts dirs ++ fragments name) := by
  have hmodules : fragments "modules" = ["modules"] := fragments_of_dot_notMem (by decide)
  rw [moduleKey]
  rcases diffPathToKey_cases dirs with ⟨h, hp⟩ | ⟨h, hp⟩
  · rw [if_pos h, fragments_append, hmodules, hp]
    rfl
  · have hkey : fragments ("modules." ++ diffPathToKey dirs) =
        fragments "modules" ++ fragments (diffPathToKey dirs) :=
      fragments_append "modules" (diffPathToKey dirs)
    rw [if_neg h, fragments_append, hkey, hmodules, hp]
    rfl

theorem exists_pathToKey (root dirs dirs' : List String) :
    ∃ rounds, pathToKey rounds (root ++ dirs) root = some (diffPathToKey dirs) ∧
      pathToKey rounds (root ++ dirs') root = some (diffPathToKey dirs') := by
  refine ⟨max (dirs.length + 1) (dirs'.length + 1), ?_, ?_⟩
  · have h := diffPath_eq root dirs []
    rw [pathToKey, diffPath_mono h (le_max_left _ _), List.append_nil]
    rfl
  · have h := diffPath_eq root dirs' []
    rw [pathToKey, diffPath_mono h (le_max_right _ _), List.append_nil]
    rfl

theorem nameParts_of_plain {dirs : List String} (h : ∀ dir ∈ dirs, dir ≠ "" ∧ '.' ∉ dir.toList) :
    nameParts dirs = dirs := by
  induction dirs with
  | nil => rfl
  | cons dir rest ih =>
    rw [List.forall_mem_cons] at h
    obtain ⟨⟨hne, hdot⟩, hrest⟩ := h
    have hstem : stem dir = dir := if_neg hdot
    rw [nameParts] at ih ⊢
    rw [List.map_cons, hstem, List.filter_cons_of_pos (by simpa using hne), List.flatMap_cons,
      fragments_of_dot_notMem hdot, ih hrest]
    rfl

end KurentoMediaServer.Config
