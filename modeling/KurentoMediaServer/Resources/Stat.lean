import KurentoMediaServer.Resources.GetInt

/-! The number of threads that is read from the line of `/proc/self/stat`. The name of
the command is the only field with separators in it, and it stands before the count. -/

namespace KurentoMediaServer.Resources

open Foundations Methods

/-- `getNumberOfThreads ()`, given the line of `/proc/self/stat`. -/
def getNumberOfThreads (stat : List Char) : Except Fault ℤ :=
  (getInt stat ' ' 19).map Prod.fst

/-! ### The line of the process -/

/-- A field of `/proc/self/stat` after the name of the command. -/
inductive StatField where
  | number (n : ℤ)
  | letter (c : Char) (h : c.isAlpha = true)

def StatField.text : StatField → List Char
  | .number n => (toString n).toList
  | .letter c _ => [c]

/-- The line for a process: its number, the name of its command in parentheses, and the
fields that follow. -/
def statLine (pid : ℕ) (comm : List Char) (fields : List StatField) : List Char :=
  (toString pid).toList ++ ' ' :: ('(' :: comm ++ [')']) ++
    fields.flatMap fun field => ' ' :: field.text

theorem toList_toString_negSucc (n : ℕ) :
    (toString (Int.negSucc n)).toList = '-' :: (toString (n + 1)).toList := by
  show ("-" ++ Nat.repr (n + 1)).toList = _
  rw [String.toList_append, Nat.toString_eq_repr]
  rfl

/-- The text of a natural number has no sign. -/
theorem sign_toString (n : ℕ) :
    sign ((toString n).toList.dropWhile isSpace) = (false, (toString n).toList) := by
  obtain ⟨c, rest, hc⟩ := List.exists_cons_of_ne_nil (toList_toString_ne_nil n)
  have hd : c.isDigit = true := isDigit_of_mem_toString (hc ▸ List.mem_cons_self)
  have hm : c ≠ '-' := by rintro rfl; simp at hd
  have hp : c ≠ '+' := by rintro rfl; simp at hd
  have hs : isSpace c = false := isSpace_of_isDigit hd
  rw [hc, List.dropWhile_cons_of_neg (by simp [hs]), sign_of_ne hm hp]

theorem atol_toString {n : ℤ} (hl : -2 ^ 63 ≤ n) (hu : n < 2 ^ 63) :
    atol (toString n).toList = n := by
  cases n with
  | ofNat m =>
    show atol (toString m).toList = m
    simp only [atol, sign_toString, takeWhile_isDigit_toString, digitsValue_toString,
      Bool.false_eq_true, if_false]
    simp only [Int.ofNat_eq_natCast] at hl hu
    omega
  | negSucc m =>
    have hs : sign ((toString (Int.negSucc m)).toList.dropWhile isSpace) =
        (true, (toString (m + 1)).toList) := by
      rw [toList_toString_negSucc]
      rfl
    simp only [atol, hs, takeWhile_isDigit_toString, digitsValue_toString, if_true]
    omega

theorem space_notMem_toString (n : ℕ) : ' ' ∉ (toString n).toList := by
  intro h
  exact absurd (isDigit_of_mem_toString h) (by decide)

theorem StatField.text_ne_nil (field : StatField) : field.text ≠ [] := by
  cases field with
  | letter c h => simp [text]
  | number n =>
    cases n with
    | ofNat m => exact toList_toString_ne_nil m
    | negSucc m =>
      rw [text, toList_toString_negSucc]
      simp

theorem StatField.space_notMem_text (field : StatField) : ' ' ∉ field.text := by
  cases field with
  | letter c h =>
    simp only [text, List.mem_singleton]
    rintro rfl
    exact absurd h (by decide)
  | number n =>
    cases n with
    | ofNat m => exact space_notMem_toString m
    | negSucc m =>
      rw [text, toList_toString_negSucc, List.mem_cons, not_or]
      exact ⟨by decide, space_notMem_toString _⟩

/-! ### The words of the line -/

/-- Every field is a word. -/
theorem words_fields (l : List Char) (fields : List StatField) :
    words ' ' (l ++ fields.flatMap fun field => ' ' :: field.text) =
      words ' ' l ++ fields.map StatField.text := by
  induction fields generalizing l with
  | nil => simp
  | cons field rest ih =>
    rw [List.flatMap_cons, List.cons_append, words_append_sep, ih,
      words_of_notMem field.text_ne_nil field.space_notMem_text]
    rfl

/-- The words of the name in its parentheses. -/
def nameWords (comm : List Char) : List (List Char) := words ' ' ('(' :: comm ++ [')'])

theorem words_statLine (pid : ℕ) (comm : List Char) (fields : List StatField) :
    words ' ' (statLine pid comm fields) =
      (toString pid).toList :: (nameWords comm ++ fields.map StatField.text) := by
  rw [statLine, words_fields, words_append_of_notMem (toList_toString_ne_nil pid)
    (space_notMem_toString pid)]
  rfl

theorem nameWords_ne_nil (comm : List Char) : nameWords comm ≠ [] :=
  words_ne_nil ⟨'(', by simp, by decide⟩

theorem nameWords_of_notMem {comm : List Char} (h : ' ' ∉ comm) :
    nameWords comm = ['(' :: comm ++ [')']] :=
  words_of_notMem (by simp) (by simp [h])

/-- The word that is read, counted from the name on. -/
theorem getNumberOfThreads_eq (pid : ℕ) (comm : List Char) {fields : List StatField}
    (h : fields.length = 50) : ∃ w,
      (nameWords comm ++ fields.map StatField.text)[18]? = some w ∧
      getNumberOfThreads (statLine pid comm fields) = .ok (atol w) := by
  have hlen : (nameWords comm ++ fields.map StatField.text).length =
      (nameWords comm).length + 50 := by
    rw [List.length_append, List.length_map, h]
  have hpos := List.length_pos_of_ne_nil (nameWords_ne_nil comm)
  have hlt : 18 < (nameWords comm ++ fields.map StatField.text).length := by omega
  have hw := List.getElem?_eq_getElem hlt
  have hread := reads_getInt (statLine pid comm fields) ' ' 19
  rw [words_statLine] at hread
  obtain ⟨str', hr⟩ := hread.of_getElem? hw (by rw [List.length_cons]; omega)
  exact ⟨_, hw, by rw [getNumberOfThreads, hr]; rfl⟩

/-- A name without a space is one word, and then `num_threads` is where it is looked for. -/
theorem getNumberOfThreads_of_notMem {comm : List Char} (hspace : ' ' ∉ comm) (pid : ℕ)
    {fields : List StatField} {numThreads : ℤ} (hlen : fields.length = 50)
    (hfield : fields[17]? = some (.number numThreads)) (hl : -2 ^ 63 ≤ numThreads)
    (hu : numThreads < 2 ^ 63) :
    getNumberOfThreads (statLine pid comm fields) = .ok numThreads := by
  obtain ⟨w, hw, hr⟩ := getNumberOfThreads_eq pid comm hlen
  rw [nameWords_of_notMem hspace, List.singleton_append, List.getElem?_cons_succ,
    List.getElem?_map, hfield] at hw
  cases hw
  rw [hr]
  exact congrArg Except.ok (atol_toString hl hu)

end KurentoMediaServer.Resources
