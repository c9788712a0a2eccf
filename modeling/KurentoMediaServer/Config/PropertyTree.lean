import KurentoMediaServer.Foundations.KeyedTree
import Mathlib.Data.List.TakeWhile

/-! `boost::property_tree::ptree` as the configuration loader uses it: a string at
every node and a list of keyed children. A path names a node by the keys between its
dots, whereas `erase` and `count` take a single key, dots included. -/

namespace KurentoMediaServer.Config

open Foundations

abbrev PTree := KeyedTree String String

/-- The string that `std::string::data ()` is read as where a `const char *` is
taken: it ends before the first null character. -/
def cString (s : String) : String := String.ofList (s.toList.takeWhile (· ≠ '\x00'))

/-- The parts of a path between its dots. -/
def fragments (path : String) : List String := (path.toList.splitOn '.').map String.ofList

/-- The keys a look-up follows: a last part that is empty is not looked for, and the
empty path is the node itself. -/
def steps (path : String) : List String :=
  if (fragments path).getLast? = some "" then (fragments path).dropLast else fragments path

namespace PTree

variable (t : PTree)

/-- `empty ()`: no children. -/
def empty : Bool := t.children.isEmpty

/-- `size ()`. -/
def size : ℕ := t.children.length

/-- `count (key)`. -/
def count (key : String) : ℕ := (t.children.filter fun p => p.1 = key).length

/-- `get_child_optional (path)`. -/
def getChildOptional (path : String) : Option PTree := KeyedTree.walk (steps path) t

/-- `get_child (path, default)`. -/
def getChild (path : String) (dflt : PTree) : PTree := (t.getChildOptional path).getD dflt

/-- `get <std::string> (path)`, without a value where it throws. -/
def get (path : String) : Option String := (t.getChildOptional path).map KeyedTree.data

/-- `add_child (path, child)`: the nodes on the path that are missing are created and
the child becomes a further child of the last one. -/
def addChild (path : String) (child : PTree) : PTree :=
  KeyedTree.forceAt (fun parent => parent.push ((fragments path).getLastD "") child)
    (fragments path).dropLast t

/-- `put_child (path, child)`: as `add_child`, but a node at the path is replaced. -/
def putChild (path : String) (child : PTree) : PTree :=
  KeyedTree.forceAt (fun _ => child) (fragments path) t

/-- `put (path, value)`: the data of the node at the path, which is created when it is
missing; its children stay. -/
def put (path : String) (value : String) : PTree :=
  match t.getChildOptional path with
  | some _ => KeyedTree.forceAt (fun n => .node value n.children) (steps path) t
  | none => t.putChild path (.node value [])

/-- A node with a named child. Leaves and arrays are the other nodes: they have no
children, or children without a key only. -/
def isObject : Bool := t.children.any fun p => p.1 ≠ ""

/-- A node with children, none of which has a key. -/
def isArray : Bool := !t.empty && t.count "" == t.size

variable {t}

theorem count_eq_size_iff : t.count "" = t.size ↔ t.isObject = false := by
  simp only [count, size, isObject, List.length_filter_eq_length_iff, List.any_eq_false,
    decide_eq_true_eq, ne_eq, not_not]

theorem isArray_iff : t.isArray = true ↔ t.children ≠ [] ∧ t.isObject = false := by
  simp only [isArray, empty, Bool.and_eq_true, Bool.not_eq_true', List.isEmpty_eq_false_iff,
    beq_iff_eq, count_eq_size_iff]

theorem isObject_iff : t.isObject = true ↔ ∃ p ∈ t.children, p.1 ≠ "" := by
  simp [isObject]

theorem isObject_of_empty (h : t.children = []) : t.isObject = false := by
  simp [isObject, h]

theorem children_ne_nil_of_isObject (h : t.isObject = true) : t.children ≠ [] := by
  intro hc
  rw [isObject_of_empty hc] at h
  exact Bool.false_ne_true h

end PTree

/-! ### Paths -/

@[simp] theorem fragments_ne_nil (path : String) : fragments path ≠ [] := by
  simp [fragments]

/-- The parts of a path, put back together. -/
theorem dropLast_append_getLastD (path : String) :
    (fragments path).dropLast ++ [(fragments path).getLastD ""] = fragments path := by
  have h := fragments_ne_nil path
  rw [List.getLastD_eq_getLast?, List.getLast?_eq_some_getLast h]
  exact List.dropLast_concat_getLast h

theorem mem_of_mem_splitOn {α : Type*} [DecidableEq α] {a x : α} {xs l : List α}
    (h : l ∈ xs.splitOn a) (hx : x ∈ l) : x ∈ xs ∧ x ≠ a := by
  induction xs generalizing l with
  | nil =>
    rw [List.splitOn_nil, List.mem_singleton] at h
    simp [h] at hx
  | cons y xs ih =>
    rw [List.splitOn_cons_eq_if_modifyHead] at h
    split_ifs at h with hy
    · rcases List.mem_cons.mp h with rfl | hm
      · simp at hx
      · exact (ih hm hx).imp_left (List.mem_cons_of_mem y)
    · have hne : y ≠ a := by
        rintro rfl
        simp at hy
      -- the element goes to the front of the first part
      cases hs : xs.splitOn a with
      | nil => exact absurd hs (List.splitOn_ne_nil a xs)
      | cons z zs =>
        rw [hs] at ih
        rw [hs, List.modifyHead_cons] at h
        rcases List.mem_cons.mp h with rfl | hm
        · rcases List.mem_cons.mp hx with rfl | hx
          · exact ⟨List.mem_cons_self, hne⟩
          · exact (ih List.mem_cons_self hx).imp_left (List.mem_cons_of_mem y)
        · exact (ih (List.mem_cons_of_mem z hm) hx).imp_left (List.mem_cons_of_mem y)

theorem exists_mem_splitOn {α : Type*} [DecidableEq α] {a x : α} {xs : List α} (h : x ∈ xs)
    (hx : x ≠ a) : ∃ l ∈ xs.splitOn a, x ∈ l := by
  induction xs with
  | nil => simp at h
  | cons y xs ih =>
    rw [List.splitOn_cons_eq_if_modifyHead]
    split_ifs with hy
    · have hne : x ≠ y := by
        rintro rfl
        exact hx (by simpa using hy)
      obtain ⟨l, hl, hm⟩ := ih ((List.mem_cons.mp h).resolve_left hne)
      exact ⟨l, List.mem_cons_of_mem _ hl, hm⟩
    · cases hs : xs.splitOn a with
      | nil => exact absurd hs (List.splitOn_ne_nil a xs)
      | cons z zs =>
        rw [hs] at ih
        rcases List.mem_cons.mp h with rfl | hm
        · exact ⟨x :: z, List.mem_cons_self, List.mem_cons_self⟩
        · obtain ⟨l, hl, hxl⟩ := ih hm
          rcases List.mem_cons.mp hl with rfl | hl
          · exact ⟨y :: l, List.mem_cons_self, List.mem_cons_of_mem y hxl⟩
          · exact ⟨l, List.mem_cons_of_mem _ hl, hxl⟩

/-- The parts of a path have its characters, but no dot. -/
theorem mem_of_mem_fragments {path k : String} (h : k ∈ fragments path) {c : Char}
    (hc : c ∈ k.toList) : c ∈ path.toList ∧ c ≠ '.' := by
  obtain ⟨l, hl, rfl⟩ := List.mem_map.mp h
  rw [String.toList_ofList] at hc
  exact mem_of_mem_splitOn hl hc

/-- Every character of a path other than a dot is in one of its parts. -/
theorem exists_mem_fragments {path : String} {c : Char} (h : c ∈ path.toList) (hc : c ≠ '.') :
    ∃ k ∈ fragments path, c ∈ k.toList := by
  obtain ⟨l, hl, hm⟩ := exists_mem_splitOn h hc
  exact ⟨String.ofList l, List.mem_map_of_mem hl, by rwa [String.toList_ofList]⟩

theorem fragments_of_dot_notMem {key : String} (h : '.' ∉ key.toList) : fragments key = [key] := by
  rw [fragments, List.splitOn_eq_singleton h]
  simp

/-- A path of one part is that part. -/
theorem eq_of_fragments_eq_singleton {path k : String} (h : fragments path = [k]) : k = path := by
  obtain ⟨l, hl, rfl⟩ := List.map_eq_singleton_iff.mp h
  have hi : ['.'].intercalate (path.toList.splitOn '.') = path.toList :=
    List.intercalate_splitOn '.'
  rw [hl, List.intercalate_singleton] at hi
  rw [hi, String.ofList_toList]

/-- A dotted path has at least two parts. -/
theorem fragments_of_dot_mem {path : String} (h : '.' ∈ path.toList) :
    ∃ j j' q, fragments path = j :: j' :: q := by
  match hf : fragments path with
  | [] => exact absurd hf (fragments_ne_nil path)
  | [k] =>
    have hk := eq_of_fragments_eq_singleton hf
    have hm : k ∈ fragments path := by rw [hf]; exact List.mem_cons_self
    exact absurd rfl (mem_of_mem_fragments hm (hk ▸ h)).2
  | j :: j' :: q => exact ⟨j, j', q, rfl⟩

/-- The parts of `p.e`. -/
theorem fragments_append (p e : String) :
    fragments (p ++ "." ++ e) = fragments p ++ fragments e := by
  have h : (p ++ "." ++ e).toList = p.toList ++ '.' :: e.toList := by simp
  rw [fragments, h, List.splitOn_append_cons_self, List.map_append]
  rfl

/-- A part that is not looked for is empty. -/
theorem mem_steps {path k : String} (h : k ∈ fragments path) (hk : k ≠ "") : k ∈ steps path := by
  rw [steps]
  split_ifs with hl
  · rw [← List.dropLast_append_getLast? "" hl, List.mem_append] at h
    exact h.resolve_right fun he => hk (List.mem_singleton.mp he)
  · exact h

theorem steps_of_getLast? {path : String} (h : (fragments path).getLast? ≠ some "") :
    steps path = fragments path := if_neg h

/-- A key that a path is made of as it stands: it is not empty and has neither a dot
nor a null character. -/
def PlainKey (key : String) : Prop := key ≠ "" ∧ '.' ∉ key.toList ∧ '\x00' ∉ key.toList

theorem cString_eq {key : String} (h : '\x00' ∉ key.toList) : cString key = key := by
  have ht : key.toList.takeWhile (· ≠ '\x00') = key.toList := by
    apply List.takeWhile_eq_self_iff.mpr
    intro c hc
    simp only [ne_eq, decide_eq_true_eq]
    rintro rfl
    exact h hc
  rw [cString, ht, String.ofList_toList]

theorem nul_notMem_cString (s : String) : '\x00' ∉ (cString s).toList := by
  rw [cString, String.toList_ofList]
  intro h
  simpa using List.mem_takeWhile_imp h

theorem PlainKey.cString {key : String} (h : PlainKey key) : cString key = key :=
  cString_eq h.2.2

theorem PlainKey.fragments {key : String} (h : PlainKey key) : fragments key = [key] :=
  fragments_of_dot_notMem h.2.1

theorem PlainKey.steps {key : String} (h : PlainKey key) : steps key = [key] := by
  have hl : (Config.fragments key).getLast? ≠ some "" := by
    rw [h.fragments]
    simpa using h.1
  rw [steps_of_getLast? hl, h.fragments]

end KurentoMediaServer.Config
