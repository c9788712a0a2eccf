import KurentoMediaServer.Debug.Safe
import KurentoMediaServer.Foundations.CommonPrefix

/-! How `DeathHandler::SignalHandler` shortens the path of a source file. It compares the
path with the working directory, which stands before it in the memory, and goes back to
the last slash. When they have no part in common this takes it out of the path, back over
the name of the function to the slash the working directory ends with. -/

namespace KurentoMediaServer.Debug

open Foundations Foundations.CString

/-- A character of the memory of the handler, and none outside. -/
def readAt (m : ℕ → Char) (i : ℤ) : Option Char :=
  if 0 ≤ i ∧ i < kNeededMemory then some (m i.toNat) else none

/-- `for (cpi = 0; cwd[cpi] == line[cpi]; cpi++)`, from `cpi` on. -/
def commonLoop (m : ℕ → Char) (cwd line : ℕ) : ℕ → ℕ → Option ℕ
  | 0, _ => none
  | n + 1, cpi =>
    (readAt m (cwd + cpi)).bind fun a => (readAt m (line + cpi)).bind fun b =>
      if a = b then commonLoop m cwd line n (cpi + 1) else some cpi

/-- `for (; line[cpi - 1] != '/'; cpi--)`. -/
def slashLoop (m : ℕ → Char) (line : ℕ) : ℕ → ℤ → Option ℤ
  | 0, _ => none
  | n + 1, cpi =>
    (readAt m (line + cpi - 1)).bind fun c =>
      if c ≠ '/' then slashLoop m line n (cpi - 1) else some cpi

/-- Where the line begins without the common path root. -/
def cutCommonPathRoot (m : ℕ → Char) (cwd line : ℕ) : Option ℕ :=
  (commonLoop m cwd line kNeededMemory 0).bind fun cpi =>
    (readAt m (line + cpi - 1)).bind fun c =>
      (if c ≠ '/' then slashLoop m line kNeededMemory cpi else some (cpi : ℤ)).map fun cpi =>
        if cpi > 1 then line + cpi.toNat else line

/-- `while (!strncmp (path_cut_pos, "../", 3))`. -/
def skipParents (m : ℕ → Char) : ℕ → ℕ → ℕ
  | 0, pathCutPos => pathCutPos
  | n + 1, pathCutPos =>
    if startsWith m pathCutPos "../".toList then skipParents m n (pathCutPos + 3) else pathCutPos

/-- Where the line begins without the relative path root. -/
def cutRelativePaths (m : ℕ → Char) (line : ℕ) : ℕ :=
  match strstr m kNeededMemory line "../".toList with
  | none => line
  | some pathCutPos => skipParents m kNeededMemory (pathCutPos + 3)

/-! ### The paths -/

/-- The directories a path has in common with the working directory. -/
def commonRoot (dir path : List Char) : List Char := upToLast '/' (commonPrefix dir path)

/-- A path without them, unless they are the root alone. -/
def withoutRoot (dir path : List Char) : List Char :=
  if 1 < (commonRoot dir path).length then path.drop (commonRoot dir path).length else path

def dropParents : List Char → List Char
  | '.' :: '.' :: '/' :: path => dropParents path
  | path => path

/-- What comes after the first steps to a parent. -/
def withoutParents (path : List Char) : List Char :=
  match path.dropInfix? "../".toList with
  | none => path
  | some (_, rest) => dropParents rest

/-- `q` points into the text `s` at `p`, where `t` is left of it. -/
def PointsInto (p : ℕ) (s : List Char) (q : ℕ) (t : List Char) : Prop :=
  ∃ a, s = a ++ t ∧ q = p + a.length

section Paths
variable {m : ℕ → Char} {p q r cwd line cpi n : ℕ} {s t u dir path : List Char} {c : Char}

theorem PointsInto.refl (p : ℕ) (s : List Char) : PointsInto p s p s := ⟨[], rfl, rfl⟩

theorem PointsInto.trans (h : PointsInto p s q t) (g : PointsInto q t r u) :
    PointsInto p s r u := by
  obtain ⟨a, rfl, rfl⟩ := h
  obtain ⟨b, rfl, rfl⟩ := g
  exact ⟨a ++ b, by simp, by rw [List.length_append, Nat.add_assoc]⟩

theorem PointsInto.holds (h : PointsInto p s q t) (hs : Holds m p s) : Holds m q t := by
  obtain ⟨a, rfl, rfl⟩ := h
  exact hs.right

theorem PointsInto.add_length (h : PointsInto p s q t) : q + t.length = p + s.length := by
  obtain ⟨a, rfl, rfl⟩ := h
  rw [List.length_append]
  omega

/-- What is left of a text that does not end in a slash, where the part cut off does. -/
theorem getLast?_of_cut (ht : s.getLast? = some c) (hc : c ≠ '/') (hs : s = u ++ '/' :: t) :
    t.getLast? = some c := by
  subst hs
  cases t with
  | nil =>
    rw [List.getLast?_concat] at ht
    exact absurd (Option.some.inj ht).symm hc
  | cons a as => simpa using ht

theorem commonRoot_isPrefix (dir path : List Char) : commonRoot dir path <+: path :=
  (List.rdropWhile_prefix _ _).trans (commonPrefix_prefix_right dir path)

/-- The common root is made of the directories both paths go through. -/
theorem prefix_commonRoot_iff :
    u ++ ['/'] <+: commonRoot dir path ↔ u ++ ['/'] <+: dir ∧ u ++ ['/'] <+: path := by
  rw [commonRoot, prefix_upToLast_iff, prefix_commonPrefix_iff]

theorem getLast?_withoutRoot (dir : List Char) (h : path.getLast? = some c) (hc : c ≠ '/') :
    (withoutRoot dir path).getLast? = some c := by
  unfold withoutRoot
  split_ifs with hroot
  · have hmem : '/' ∈ commonPrefix dir path := by
      by_contra hno
      rw [commonRoot, upToLast_of_notMem hno] at hroot
      exact absurd hroot (by decide)
    obtain ⟨p, r, -, -, hup⟩ := upToLast_eq hmem
    have heq := List.prefix_iff_eq_append.mp (commonRoot_isPrefix dir path)
    rw [show commonRoot dir path = p ++ ['/'] from hup] at heq ⊢
    exact getLast?_of_cut (u := p) h hc (by simpa using heq.symm)
  · exact h

theorem getLast?_dropParents (h : s.getLast? = some c) (hc : c ≠ '/') :
    (dropParents s).getLast? = some c := by
  induction s using dropParents.induct with
  | case1 path ih =>
    exact ih (getLast?_of_cut (u := ['.', '.']) h hc rfl)
  | case2 s hs =>
    rwa [dropParents]
    exact hs

theorem getLast?_withoutParents (h : path.getLast? = some c) (hc : c ≠ '/') :
    (withoutParents path).getLast? = some c := by
  unfold withoutParents
  cases hd : path.dropInfix? "../".toList with
  | none => exact h
  | some q =>
    obtain ⟨⟨i, hi, heq⟩, -⟩ := List.dropInfix?_eq_some_iff.mp hd
    obtain rfl := eq_of_beq heq
    exact getLast?_dropParents (getLast?_of_cut (u := q.1 ++ ['.', '.']) h hc (by simp [hi])) hc

/-- A file below the working directory is shown as seen from there. -/
theorem withoutRoot_append (hslash : dir.getLast? = some '/') (hlen : 1 < dir.length)
    (file : List Char) : withoutRoot dir (dir ++ file) = file := by
  have hroot : commonRoot dir (dir ++ file) = dir := by
    obtain ⟨ds, rfl⟩ := List.getLast?_eq_some_iff.mp hslash
    rw [commonRoot, commonPrefix_append, upToLast, List.rdropWhile_concat_neg _ _ _ (by simp)]
  rw [withoutRoot, hroot, if_pos hlen, List.drop_left]

theorem dropParents_ne (s rest : List Char) : dropParents s ≠ "../".toList ++ rest := by
  induction s using dropParents.induct with
  | case1 path ih => exact ih
  | case2 s hs =>
    rw [dropParents]
    · exact hs rest
    · exact hs

theorem withoutParents_ne (path rest : List Char) :
    withoutParents path ≠ "../".toList ++ rest := by
  unfold withoutParents
  cases hd : path.dropInfix? "../".toList with
  | none =>
    rintro rfl
    have hat : ("../".toList ++ rest).dropInfix? "../".toList = some ([], rest) :=
      List.dropInfix?_eq_some_iff.mpr
        ⟨⟨"../".toList, rfl, beq_self_eq_true _⟩, fun _ _ _ _ _ => Nat.zero_le _⟩
    rw [hat] at hd
    cases hd
  | some q => exact dropParents_ne q.2 rest

/-! ### The loops -/

theorem readAt_natCast {i : ℕ} (hi : i < kNeededMemory) : readAt m i = some (m i) :=
  if_pos ⟨by omega, by omega⟩

/-- The loop ends where two different texts first differ. -/
theorem commonLoop_eq (hs : Holds m (cwd + cpi) s) (ht : Holds m (line + cpi) t) (hne : s ≠ t)
    (hcwd : cwd + cpi + s.length < kNeededMemory) (hline : line + cpi + t.length < kNeededMemory)
    (hn : s.length < n) :
    commonLoop m cwd line n cpi = some (cpi + (commonPrefix s t).length) := by
  induction s generalizing t cpi n with
  | nil =>
    obtain ⟨n, rfl⟩ := Nat.exists_eq_add_one_of_ne_zero (show n ≠ 0 by omega)
    cases t with
    | nil => exact absurd rfl hne
    | cons b bs =>
      rw [commonLoop, ← Nat.cast_add, readAt_natCast (by omega), ← Nat.cast_add,
        readAt_natCast (by omega)]
      simp [commonPrefix, show m (cwd + cpi) = nul from hs, ht.2.1, ht.1.symm]
  | cons a as ih =>
    obtain ⟨n, rfl⟩ := Nat.exists_eq_add_one_of_ne_zero (show n ≠ 0 by omega)
    have hlen : (a :: as).length = as.length + 1 := rfl
    rw [commonLoop, ← Nat.cast_add, readAt_natCast (by omega), ← Nat.cast_add,
      readAt_natCast (by omega), hs.2.1]
    cases t with
    | nil => simp [commonPrefix, show m (line + cpi) = nul from ht, hs.1]
    | cons b bs =>
      have hlen' : (b :: bs).length = bs.length + 1 := rfl
      rw [ht.2.1, commonPrefix, Option.bind_some, Option.bind_some]
      split_ifs with hab
      · rw [ih hs.2.2 ht.2.2 (fun h => hne (by rw [hab, h])) (by omega) (by omega) (by omega),
          List.length_cons]
        congr 1
        omega
      · rfl

/-- The loop goes back to the last slash before it. -/
theorem slashLoop_eq {k : ℤ} {d : ℕ} (hk : readAt m (line + k - 1) = some '/')
    (hd : ∀ i : ℤ, k ≤ i → i < k + d → ∃ c, readAt m (line + i) = some c ∧ c ≠ '/') (hn : d < n) :
    slashLoop m line n (k + d) = some k := by
  induction d generalizing n with
  | zero =>
    obtain ⟨n, rfl⟩ := Nat.exists_eq_add_one_of_ne_zero (show n ≠ 0 by omega)
    rw [slashLoop, Nat.cast_zero, add_zero, hk]
    rfl
  | succ d ih =>
    obtain ⟨n, rfl⟩ := Nat.exists_eq_add_one_of_ne_zero (show n ≠ 0 by omega)
    obtain ⟨c, hc, hne⟩ := hd (k + d) (by omega) (by omega)
    rw [slashLoop, Nat.cast_succ, show (line : ℤ) + (k + (d + 1)) - 1 = line + (k + d) by omega, hc,
      Option.bind_some, if_pos hne, show k + ((d : ℤ) + 1) - 1 = k + d by omega]
    exact ih (fun i h1 h2 => hd i h1 (by omega)) (by omega)

/-- The test before the loop changes nothing. -/
theorem cutCommonPathRoot_of_loops {k : ℤ} (hcommon : commonLoop m cwd line kNeededMemory 0 = some cpi)
    (hslash : slashLoop m line kNeededMemory cpi = some k) :
    cutCommonPathRoot m cwd line = some (if k > 1 then line + k.toNat else line) := by
  rw [cutCommonPathRoot, hcommon, Option.bind_some]
  have hunfold : slashLoop m line kNeededMemory cpi =
      (readAt m (line + cpi - 1)).bind fun c =>
        if c ≠ '/' then slashLoop m line 12287 (cpi - 1) else some (cpi : ℤ) := rfl
  cases hc : readAt m (line + cpi - 1) with
  | none =>
    rw [hunfold, hc] at hslash
    cases hslash
  | some c =>
    rw [Option.bind_some]
    by_cases h : c = '/'
    · rw [hunfold, hc, Option.bind_some, if_neg (not_not.mpr h)] at hslash
      rw [if_neg (not_not.mpr h), hslash]
      rfl
    · rw [if_pos h, hslash]
      rfl

/-- In the common part the loop ends behind the common root. -/
theorem slashLoop_common (hpath : Holds m line path) (hroom : line + path.length < kNeededMemory)
    (hmem : '/' ∈ commonPrefix dir path) :
    slashLoop m line kNeededMemory (commonPrefix dir path).length =
      some ((commonRoot dir path).length : ℤ) := by
  obtain ⟨rest, hrest⟩ := commonPrefix_prefix_right dir path
  obtain ⟨p, r, hp, hr, hup⟩ := upToLast_eq hmem
  have htext : path = p ++ '/' :: (r ++ rest) := by rw [← hrest, hp]; simp
  have hlen : path.length = p.length + (r.length + rest.length + 1) := by
    rw [htext]
    simp
  rw [htext] at hpath
  have hroot : (commonRoot dir path).length = p.length + 1 := by rw [commonRoot, hup]; simp
  have hcpi : ((commonPrefix dir path).length : ℤ) = (p.length + 1 : ℕ) + (r.length : ℕ) := by
    rw [hp, List.length_append, List.length_cons]
    omega
  rw [hcpi, hroot]
  apply slashLoop_eq
  · rw [show (line : ℤ) + (p.length + 1 : ℕ) - 1 = (line + p.length : ℕ) by omega,
      readAt_natCast (by omega), hpath.right.2.1]
  · intro i h1 h2
    obtain ⟨j, rfl⟩ : ∃ j : ℕ, i = (p.length + 1 + j : ℕ) := ⟨(i - (p.length + 1)).toNat, by omega⟩
    have hj : j < r.length := by omega
    refine ⟨r[j], ?_, fun h => hr (h ▸ List.getElem_mem hj)⟩
    have hchar := hpath.right.2.2.getElem (i := j) (by rw [List.length_append]; omega)
    rw [List.getElem_append_left hj] at hchar
    rw [← Nat.cast_add, readAt_natCast (by omega),
      show line + (p.length + 1 + j) = line + p.length + 1 + j by omega, hchar]
  · omega

/-- Where nothing is common it ends at a slash before the line, since the working directory
has one. -/
theorem slashLoop_before (hdir : Holds m cwd dir) (hslash : dir.getLast? = some '/')
    (hbefore : cwd + dir.length < line) (hroom : line < kNeededMemory) :
    ∃ k ≤ 0, slashLoop m line kNeededMemory 0 = some k := by
  obtain ⟨ds, rfl⟩ : ∃ ds, dir = ds ++ ['/'] := List.getLast?_eq_some_iff.mp hslash
  have hlen : (ds ++ ['/']).length = ds.length + 1 := by simp
  have hend : m (cwd + ds.length) = '/' := hdir.right.2.1
  set a := Nat.findGreatest (fun i => m i = '/') (line - 1) with ha
  have hle : a ≤ line - 1 := Nat.findGreatest_le _
  have hat : m a = '/' := Nat.findGreatest_spec (P := fun i => m i = '/') (by omega) hend
  have hback : slashLoop m line kNeededMemory ((a + 1 - line : ℤ) + ((line - 1 - a : ℕ) : ℤ)) =
      some (a + 1 - line : ℤ) := by
    apply slashLoop_eq
    · rw [show (line : ℤ) + (a + 1 - line) - 1 = (a : ℕ) by omega, readAt_natCast (by omega), hat]
    · intro i h1 h2
      obtain ⟨j, hj⟩ : ∃ j : ℕ, (line : ℤ) + i = (j : ℕ) := ⟨(line + i).toNat, by omega⟩
      refine ⟨m j, by rw [hj, readAt_natCast (by omega)], ?_⟩
      exact Nat.findGreatest_is_greatest (P := fun i => m i = '/') (show a < j by omega) (by omega)
    · omega
  rw [show (a + 1 - line : ℤ) + ((line - 1 - a : ℕ) : ℤ) = 0 by omega] at hback
  exact ⟨_, by omega, hback⟩

/-- Paths from the root have the slash in common, if anything. -/
theorem commonPrefix_eq_nil (hroot : dir.head? = some '/') (hmem : '/' ∉ commonPrefix dir path) :
    commonPrefix dir path = [] := by
  cases dir with
  | nil => cases hroot
  | cons d ds =>
    obtain rfl : d = '/' := by simpa using hroot
    cases path with
    | nil => rfl
    | cons b bs =>
      rw [commonPrefix] at hmem ⊢
      split_ifs with h
      · rw [if_pos h] at hmem
        exact absurd List.mem_cons_self hmem
      · rfl

/-- Every access stays in the memory, and the line begins where the common root ends. -/
theorem cutCommonPathRoot_eq (hdir : Holds m cwd dir) (hpath : Holds m line path)
    (hroot : dir.head? = some '/') (hslash : dir.getLast? = some '/')
    (hlast : path.getLast? = some c) (hc : c ≠ '/') (hbefore : cwd + dir.length < line)
    (hroom : line + path.length < kNeededMemory) :
    ∃ q, cutCommonPathRoot m cwd line = some q ∧
      PointsInto line path q (withoutRoot dir path) := by
  have hne : dir ≠ path := fun h => hc (Option.some.inj (hlast.symm.trans (h ▸ hslash)))
  have hcommon : commonLoop m cwd line kNeededMemory 0 =
      some (0 + (commonPrefix dir path).length) :=
    commonLoop_eq hdir hpath hne (by omega) (by omega) (by omega)
  rw [Nat.zero_add] at hcommon
  by_cases hmem : '/' ∈ commonPrefix dir path
  · refine ⟨_, cutCommonPathRoot_of_loops hcommon (slashLoop_common hpath hroom hmem), ?_⟩
    unfold withoutRoot
    split_ifs with h1 h2 h2
    · exact ⟨commonRoot dir path,
        (List.prefix_iff_eq_append.mp (commonRoot_isPrefix dir path)).symm, by simp⟩
    · omega
    · omega
    · exact .refl _ _
  · have hnil := commonPrefix_eq_nil hroot hmem
    obtain ⟨k, hk, hback⟩ := slashLoop_before hdir hslash hbefore (by omega)
    rw [hnil] at hcommon
    refine ⟨_, cutCommonPathRoot_of_loops hcommon hback, ?_⟩
    rw [if_neg (by omega), withoutRoot, commonRoot, hnil, upToLast_of_notMem List.not_mem_nil,
      if_neg (by simp)]
    exact .refl _ _

/-- The loop leaves out the steps to a parent. -/
theorem skipParents_eq (h : Holds m p s) (hn : s.length < n) :
    PointsInto p s (skipParents m n p) (dropParents s) := by
  induction s using dropParents.induct generalizing p n with
  | case1 path ih =>
    obtain ⟨n, rfl⟩ := Nat.exists_eq_add_one_of_ne_zero (show n ≠ 0 by omega)
    have hhas : (('.' :: '.' :: '/' :: path).dropPrefix? "../".toList).isSome = true := by
      simp [List.dropPrefix?]
    rw [skipParents, h.startsWith_eq (by decide), if_pos hhas]
    have hstep : PointsInto p ('.' :: '.' :: '/' :: path) (p + 3) path := ⟨['.', '.', '/'], rfl, rfl⟩
    exact hstep.trans (ih (hstep.holds h) (by simp only [List.length_cons] at hn; omega))
  | case2 s hs =>
    have hno : (s.dropPrefix? "../".toList).isSome = false := by
      cases hd : s.dropPrefix? "../".toList with
      | none => rfl
      | some rest =>
        obtain ⟨i, rfl, heq⟩ := List.dropPrefix?_eq_some_iff.mp hd
        obtain rfl := eq_of_beq heq
        exact absurd rfl (hs rest)
    obtain ⟨n, rfl⟩ := Nat.exists_eq_add_one_of_ne_zero (show n ≠ 0 by omega)
    rw [skipParents, h.startsWith_eq (by decide), hno, if_neg Bool.false_ne_true, dropParents]
    · exact .refl p s
    · exact hs

theorem cutRelativePaths_eq (h : Holds m line path) (hroom : path.length < kNeededMemory) :
    PointsInto line path (cutRelativePaths m line) (withoutParents path) := by
  rw [cutRelativePaths, h.strstr_eq (by decide) hroom, withoutParents]
  cases hd : path.dropInfix? "../".toList with
  | none => exact .refl line path
  | some q =>
    obtain ⟨⟨i, hi, heq⟩, -⟩ := List.dropInfix?_eq_some_iff.mp hd
    obtain rfl := eq_of_beq heq
    have hstep : PointsInto line path (line + q.1.length + 3) q.2 :=
      ⟨q.1 ++ "../".toList, hi, by rw [List.length_append]; rfl⟩
    exact hstep.trans (skipParents_eq (hstep.holds h) (by
      have := congrArg List.length hi
      rw [List.length_append] at this
      omega))

/-- Wherever a source file is, the handler never leaves its memory while it shortens the
path. What it shows is the path without the directories it shares with the working
directory, and of that only what follows its first steps to a parent, if it has any. -/
theorem path_shortened (hdir : Holds m cwd dir) (hpath : Holds m line path)
    (hroot : dir.head? = some '/') (hslash : dir.getLast? = some '/')
    (hlast : path.getLast? = some c) (hc : c ≠ '/') (hbefore : cwd + dir.length < line)
    (hroom : line + path.length < kNeededMemory) :
    (∃ q, cutCommonPathRoot m cwd line = some q ∧ Holds m q (withoutRoot dir path) ∧
      Holds m (cutRelativePaths m q) (withoutParents (withoutRoot dir path)) ∧
      (withoutParents (withoutRoot dir path)).getLast? = some c) ∧
    (∀ u, u ++ ['/'] <+: commonRoot dir path ↔ u ++ ['/'] <+: dir ∧ u ++ ['/'] <+: path) ∧
    (1 < dir.length → ∀ file, path = dir ++ file → withoutRoot dir path = file) ∧
    ∀ rest, withoutParents (withoutRoot dir path) ≠ "../".toList ++ rest := by
  obtain ⟨q, hq, hpoints⟩ :=
    cutCommonPathRoot_eq hdir hpath hroot hslash hlast hc hbefore hroom
  have hleft := getLast?_withoutRoot dir hlast hc
  have hlen := hpoints.add_length
  have hle : line ≤ q := by
    obtain ⟨a, -, hqa⟩ := hpoints
    omega
  have hparents := cutRelativePaths_eq (hpoints.holds hpath) (by omega)
  refine ⟨⟨q, hq, hpoints.holds hpath, hparents.holds (hpoints.holds hpath),
    getLast?_withoutParents hleft hc⟩, fun _ => prefix_commonRoot_iff, fun h file hfile => ?_,
    withoutParents_ne _⟩
  rw [hfile]
  exact withoutRoot_append hslash h file

/-- A file of the server, 100 characters behind the working directory. -/
def serverFile : ℕ → Char :=
  put (put (fun _ => nul) 0 ("/home/kms/".toList ++ [nul])) 100
    ("/home/kms/src/../server/main.cpp:42\n".toList ++ [nul])

theorem path_shortened_server : ∃ q, cutCommonPathRoot serverFile 0 100 = some q ∧
    Holds serverFile (cutRelativePaths serverFile q) "server/main.cpp:42\n".toList := by
  have hdir : Holds serverFile 0 "/home/kms/".toList :=
    (holds_put (by decide)).of_sameOutside (sameOutside_put _ _ _) (Or.inl (by decide))
  have hpath : Holds serverFile 100 "/home/kms/src/../server/main.cpp:42\n".toList :=
    holds_put (by decide)
  obtain ⟨⟨q, hq, -, h, -⟩, -⟩ := path_shortened (c := '\n') hdir hpath (by decide) (by decide)
    (by decide) (by decide) (by decide) (by decide)
  exact ⟨q, hq, h⟩

end Paths

end KurentoMediaServer.Debug
