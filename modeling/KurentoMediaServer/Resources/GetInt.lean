import KurentoMediaServer.Foundations.Words
import KurentoMediaServer.Methods.Refs

/-! `get_int`, which reads one number of a line of words. The characters of a `std::string`
are a list; a write beside them is a fault. -/

namespace KurentoMediaServer.Resources

open Foundations Methods

/-! ### The standard library -/

def sign : List Char → Bool × List Char
  | '-' :: rest => (true, rest)
  | '+' :: rest => (false, rest)
  | rest => (false, rest)

/-- `atol`: as `std::stoi` reads a number, but 0 where there is no digit, and the nearest
`long` where the number is none. -/
def atol (s : List Char) : ℤ :=
  let (negative, s) := sign (s.dropWhile isSpace)
  let n : ℤ := digitsValue (s.takeWhile Char.isDigit)
  max (-2 ^ 63) (min (2 ^ 63 - 1) (if negative then -n else n))

/-- The C string at a position of a `std::string`. -/
def cStr (str : List Char) (start : ℕ) : List Char := (str.drop start).takeWhile (· ≠ '\x00')

/-- `str.find_first_not_of (sep, start)`. Nothing is found from `npos` on. -/
def findFirstNotOf (str : List Char) (sep : Char) (start : Option ℕ) : Option ℕ :=
  start.bind (findFrom (· ≠ sep) str)

/-- `str.find (sep, start)`. -/
def find (str : List Char) (sep : Char) (start : ℕ) : Option ℕ := findFrom (· = sep) str start

/-- What nothing answers for: a write beside a string, and the use of a directory that has
not been opened. -/
inductive Fault where
  | outOfBounds | nullDirectory

/-- `str[pos] = c`. -/
def write (str : List Char) (pos : Option ℕ) (c : Char) : Except Fault (List Char) :=
  match pos with
  | some i => if i < str.length then .ok (str.set i c) else .error .outOfBounds
  | none => .error .outOfBounds

/-! ### The tokenizer -/

theorem lt_of_findFirstNotOf {str : List Char} {sep : Char} {start next : ℕ}
    (h : findFirstNotOf str sep (find str sep start) = some next) :
    start < next ∧ next < str.length := by
  obtain ⟨i, hi, hn⟩ := Option.bind_eq_some_iff.mp h
  obtain ⟨w, c, rest, -, -, hc, -, hd⟩ := findFrom_eq_some hi
  obtain ⟨w', c', rest', hd', -, hc', rfl, -⟩ := findFrom_eq_some hn
  have hle := (lt_length_of_findFrom hi).1
  have hlt := (lt_length_of_findFrom hn).2
  -- a separator stands where the word ends, and none where the next one starts
  cases w' with
  | nil =>
    rw [hd, List.nil_append, List.cons.injEq] at hd'
    simp [← hd'.1, of_decide_eq_true hc] at hc'
  | cons x w' =>
    simp only [List.length_cons] at hlt ⊢
    omega

/-- The loop of `get_int`, at the start of the word with number `count`: the number read
and the string left. -/
def getIntLoop (str : List Char) (sep : Char) (nToken start count : ℕ) :
    Except Fault (ℤ × List Char) :=
  let endPos := find str sep start
  if count = nToken then do
    let str ← write str endPos '\x00'
    return (atol (cStr str start), str)
  else
    match h : findFirstNotOf str sep endPos with
    | none => .ok (0, str)
    | some next => getIntLoop str sep nToken next (count + 1)
termination_by str.length - start
decreasing_by
  have := lt_of_findFirstNotOf h
  omega

def getInt (str : List Char) (sep : Char) (nToken : ℕ) : Except Fault (ℤ × List Char) :=
  match findFirstNotOf str sep (some 0) with
  | none => .ok (0, str)
  | some start => getIntLoop str sep nToken start 0

/-! ### Numbers -/

theorem sign_of_ne {c : Char} (hm : c ≠ '-') (hp : c ≠ '+') (rest : List Char) :
    sign (c :: rest) = (false, c :: rest) := by
  unfold sign
  split
  · next h => exact absurd (List.cons.inj h).1 hm
  · next h => exact absurd (List.cons.inj h).1 hp
  · rfl

section CString

abbrev NotNul (c : Char) : Bool := c ≠ '\x00'

theorem dropWhile_isSpace_takeWhile (s : List Char) :
    (s.takeWhile NotNul).dropWhile isSpace = (s.dropWhile isSpace).takeWhile NotNul := by
  induction s with
  | nil => rfl
  | cons c s ih =>
    by_cases hc : isSpace c = true
    · have hne : NotNul c = true := by
        apply decide_eq_true
        rintro rfl
        exact absurd hc (by decide)
      rw [List.takeWhile_cons, if_pos hne, List.dropWhile_cons, if_pos hc, List.dropWhile_cons,
        if_pos hc, ih]
    · by_cases hne : NotNul c = true
      · rw [List.takeWhile_cons, if_pos hne, List.dropWhile_cons, if_neg hc, List.dropWhile_cons,
          if_neg hc, List.takeWhile_cons, if_pos hne]
      · rw [List.takeWhile_cons, if_neg hne, List.dropWhile_cons, if_neg hc, List.takeWhile_cons,
          if_neg hne]
        rfl

theorem takeWhile_isDigit_takeWhile (s : List Char) :
    (s.takeWhile NotNul).takeWhile Char.isDigit = s.takeWhile Char.isDigit := by
  rw [List.takeWhile_takeWhile]
  congr 1
  funext c
  by_cases hc : c = '\x00'
  · subst hc
    decide
  · simp [hc]

theorem sign_takeWhile (s : List Char) :
    sign (s.takeWhile NotNul) = ((sign s).1, (sign s).2.takeWhile NotNul) := by
  cases s with
  | nil => rfl
  | cons c rest =>
    by_cases hm : c = '-'
    · subst hm
      rfl
    · by_cases hp : c = '+'
      · subst hp
        rfl
      · rw [sign_of_ne hm hp]
        by_cases hne : NotNul c = true
        · rw [List.takeWhile_cons, if_pos hne, sign_of_ne hm hp]
        · rw [List.takeWhile_cons, if_neg hne]
          rfl

theorem atol_takeWhile (s : List Char) : atol (s.takeWhile NotNul) = atol s := by
  simp only [atol, dropWhile_isSpace_takeWhile, sign_takeWhile, takeWhile_isDigit_takeWhile]

end CString

/-! ### The words that are read -/

section Reads
variable {str : List Char} {sep : Char} {start : ℕ}

def AtWord (str : List Char) (sep : Char) (start : ℕ) : Prop :=
  ∃ c rest, str.drop start = c :: rest ∧ c ≠ sep

/-- What reading the word `k` of `ws`, the words at the end of the string, comes to: the
last one can only be read if a separator follows it. -/
def Reads (str : List Char) (sep : Char) (ws : List (List Char)) (k : ℕ)
    (r : Except Fault (ℤ × List Char)) : Prop :=
  match ws[k]? with
  | none => r = .ok (0, str)
  | some w =>
    if ws.length = k + 1 ∧ str.getLast? ≠ some sep then r = .error .outOfBounds
    else ∃ i < str.length, r = .ok (atol w, str.set i '\x00')

theorem Reads.cons {ws : List (List Char)} {k : ℕ} {r : Except Fault (ℤ × List Char)}
    (h : Reads str sep ws k r) (w : List Char) : Reads str sep (w :: ws) (k + 1) r := by
  simpa only [Reads, List.getElem?_cons_succ, List.length_cons, Nat.add_right_cancel_iff] using h

theorem Reads.of_getElem? {ws : List (List Char)} {k : ℕ} {r : Except Fault (ℤ × List Char)}
    {w : List Char} (h : Reads str sep ws k r) (hw : ws[k]? = some w) (hl : ws.length ≠ k + 1) :
    ∃ str', r = .ok (atol w, str') := by
  rw [Reads, hw] at h
  dsimp only at h
  rw [if_neg fun hc => hl hc.1] at h
  obtain ⟨i, -, hr⟩ := h
  exact ⟨_, hr⟩

theorem find_eq_none (h : find str sep start = none) : sep ∉ str.drop start := by
  intro hm
  have hx := findFrom_eq_none.mp h sep hm
  simp at hx

theorem find_eq_some {i : ℕ} (hs : AtWord str sep start) (h : find str sep start = some i) :
    ∃ w rest, w ≠ [] ∧ sep ∉ w ∧ str.drop start = w ++ sep :: rest ∧ i = start + w.length ∧
      str.drop i = sep :: rest := by
  obtain ⟨w, c, rest, hd, hw, hc, rfl, hi⟩ := findFrom_eq_some h
  obtain rfl := of_decide_eq_true hc
  refine ⟨w, rest, ?_, ?_, hd, rfl, hi⟩
  · rintro rfl
    obtain ⟨c', rest', hd', hne⟩ := hs
    rw [hd, List.nil_append, List.cons.injEq] at hd'
    exact hne hd'.1.symm
  · intro hm
    exact of_decide_eq_false (hw c hm) rfl

/-- From a separator on the search goes to the next word, and misses none. -/
theorem findFirstNotOf_eq_some {i next : ℕ} (h : findFirstNotOf str sep (some i) = some next) :
    AtWord str sep next ∧ words sep (str.drop i) = words sep (str.drop next) := by
  obtain ⟨w, c, rest, hd, hw, hc, -, hn⟩ := findFrom_eq_some h
  have hne : c ≠ sep := of_decide_eq_true hc
  refine ⟨⟨c, rest, hn, hne⟩, ?_⟩
  rw [hd, hn]
  exact words_append_of_all (fun x hx => by simpa using hw x hx) (c :: rest)

theorem findFirstNotOf_eq_none {i : ℕ} (h : findFirstNotOf str sep (some i) = none) :
    words sep (str.drop i) = [] := by
  apply words_eq_nil
  intro x hx
  simpa using findFrom_eq_none.mp h x hx

/-- What is read of a word that has been cut off is its number. -/
theorem atol_cStr_set {w rest : List Char} {c : Char} (h : str.drop start = w ++ c :: rest) :
    atol (cStr (str.set (start + w.length) '\x00') start) = atol w := by
  have hset : (str.set (start + w.length) '\x00').drop start = w ++ '\x00' :: rest := by
    rw [List.drop_set, if_neg (by omega), h, Nat.add_sub_cancel_left,
      List.set_append_right _ _ le_rfl, Nat.sub_self, List.set_cons_zero]
  have hcut : (w ++ '\x00' :: rest).takeWhile NotNul = w.takeWhile NotNul := by
    rw [List.takeWhile_append]
    split_ifs with hw
    · rw [(List.takeWhile_prefix NotNul).eq_of_length hw]
      simp
    · rfl
  rw [cStr, hset]
  exact (congrArg atol hcut).trans (atol_takeWhile w)

theorem getLast?_drop_of_ne_nil {i : ℕ} (h : str.drop i ≠ []) :
    (str.drop i).getLast? = str.getLast? := by
  rw [List.getLast?_drop, if_neg]
  intro hle
  exact h (List.drop_eq_nil_of_le hle)

/-- The loop reads the word that is `k` words after the one it starts at. -/
theorem reads_getIntLoop (hs : AtWord str sep start) (k count : ℕ) :
    Reads str sep (words sep (str.drop start)) k
      (getIntLoop str sep (count + k) start count) := by
  induction k generalizing start count with
  | zero =>
    rw [getIntLoop, if_pos (by omega)]
    cases hf : find str sep start with
    | none =>
      have hsep := find_eq_none hf
      obtain ⟨c, rest, hd, -⟩ := hs
      have hne : str.drop start ≠ [] := by simp [hd]
      rw [words_of_notMem hne hsep, Reads]
      have hl : str.getLast? ≠ some sep := by
        rw [← getLast?_drop_of_ne_nil hne]
        exact fun h => hsep (List.mem_of_getLast? h)
      simp [hl, write, bind, Except.bind]
    | some i =>
      have hlt := (lt_length_of_findFrom hf).2
      obtain ⟨w, rest, hw, hsep, hd, rfl, hdi⟩ := find_eq_some hs hf
      have hat := atol_cStr_set hd
      rw [hd, words_append_of_notMem hw hsep, Reads]
      simp only [List.getElem?_cons_zero, List.length_cons, Nat.add_right_cancel_iff]
      rw [if_neg]
      · exact ⟨start + w.length, hlt, by simp [write, hlt, bind, Except.bind, pure, Except.pure, hat]⟩
      · -- past the last word there are separators only
        rintro ⟨h0, hlast⟩
        have hrest : ∀ x ∈ rest, x = sep := by
          by_contra hx
          push Not at hx
          exact words_ne_nil hx (List.length_eq_zero_iff.mp h0)
        apply hlast
        rw [← getLast?_drop_of_ne_nil (i := start + w.length) (by simp [hdi]), hdi]
        cases hr : rest.getLast? with
        | none => simp [List.getLast?_cons, hr]
        | some x => simp [List.getLast?_cons, hr, hrest x (List.mem_of_getLast? hr)]
  | succ k ih =>
    rw [getIntLoop, if_neg (by omega)]
    cases hf : find str sep start with
    | none =>
      have hsep := find_eq_none hf
      obtain ⟨c, rest, hd, -⟩ := hs
      rw [words_of_notMem (by simp [hd]) hsep, Reads]
      rfl
    | some i =>
      obtain ⟨w, rest, hw, hsep, hd, rfl, hdi⟩ := find_eq_some hs hf
      have hwords : words sep (str.drop start) = w :: words sep (str.drop (start + w.length)) := by
        rw [hd, words_append_of_notMem hw hsep, hdi, words_sep_cons]
      rw [hwords]
      cases hn : findFirstNotOf str sep (some (start + w.length)) with
      | none =>
        rw [findFirstNotOf_eq_none hn, Reads]
        rfl
      | some next =>
        obtain ⟨hat, heq⟩ := findFirstNotOf_eq_some hn
        rw [heq]
        have hrun := (ih hat (count + 1)).cons w
        rwa [show count + 1 + k = count + (k + 1) by omega] at hrun

/-- `get_int` reads the word with the number it is given. -/
theorem reads_getInt (str : List Char) (sep : Char) (n : ℕ) :
    Reads str sep (words sep str) n (getInt str sep n) := by
  rw [getInt]
  cases h : findFirstNotOf str sep (some 0) with
  | none =>
    have hnil := findFirstNotOf_eq_none h
    rw [List.drop_zero] at hnil
    rw [hnil, Reads]
    rfl
  | some start =>
    obtain ⟨hat, heq⟩ := findFirstNotOf_eq_some h
    rw [List.drop_zero] at heq
    have hrun := reads_getIntLoop hat n 0
    rw [← heq, Nat.zero_add] at hrun
    exact hrun

end Reads

/-! ### The law of the tokenizer -/

/-- `get_int` writes in the string only, and returns the number of the word it is to
read, or 0 if there are not as many words. -/
def Tokenizes (str : List Char) (sep : Char) (n : ℕ) : Prop :=
  ∃ str', str'.length = str.length ∧
    getInt str sep n = .ok ((((words sep str)[n]?).map atol).getD 0, str')

/-- It does so unless the word is the last one and ends the string. -/
theorem tokenizes_iff (str : List Char) (sep : Char) (n : ℕ) :
    Tokenizes str sep n ↔ ((words sep str).length = n + 1 → str.getLast? = some sep) := by
  have h := reads_getInt str sep n
  rw [Reads] at h
  cases hw : (words sep str)[n]? with
  | none =>
    simp only [hw] at h
    have hlen : (words sep str).length ≤ n := List.getElem?_eq_none_iff.mp hw
    constructor
    · intro _ hn
      omega
    · exact fun _ => ⟨str, rfl, by rw [h, hw]; rfl⟩
  | some w =>
    simp only [hw] at h
    split_ifs at h with hlast
    · constructor
      · rintro ⟨str', -, hr⟩
        rw [h] at hr
        cases hr
      · exact fun hn => absurd (hn hlast.1) hlast.2
    · obtain ⟨i, -, hr⟩ := h
      constructor
      · intro _ hn
        by_contra hne
        exact hlast ⟨hn, hne⟩
      · exact fun _ => ⟨_, List.length_set, by rw [hr, hw]; rfl⟩

/-- The only word of `7` is not followed by a separator: the write goes to `str[npos]`. -/
theorem not_tokenizes : ¬ ∀ str sep n, Tokenizes str sep n := by
  intro h
  obtain ⟨str', -, hr⟩ := h ['7'] ' ' 0
  have hf : getInt ['7'] ' ' 0 = .error .outOfBounds := by
    show getIntLoop ['7'] ' ' 0 0 0 = _
    rw [getIntLoop, if_pos rfl]
    rfl
  rw [hf] at hr
  cases hr

end KurentoMediaServer.Resources
