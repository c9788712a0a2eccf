import KurentoMediaServer.Debug.Frame

/-! The two messages of a frame. Where there is room for them, each is made as it is meant:
the text begun is never the one that is read or the one a number is printed to. -/

namespace KurentoMediaServer.Debug

open Foundations Foundations.CString

/-! ### One text in the memory -/

/-- A text at `p`, with nothing written before `a` or outside the memory of the handler. -/
structure Written (a : ℕ) (m : ℕ → Char) (p : ℕ) (s : List Char) (m' : ℕ → Char) : Prop where
  holds : Holds m' p s
  same : SameOutside a kNeededMemory m m'

section Written
variable {a p q size line memory : ℕ} {m m' : ℕ → Char} {s t text : List Char} {c : Char}
  {pieces : List Piece} {o : Options} {ppid : ℤ}

theorem Written.literal (h : Written a m p s m') (ht : nul ∉ t) (ha : a ≤ p)
    (hroom : p + s.length + t.length < kNeededMemory) :
    Written a m p (s ++ t) (strcatLiteral kNeededMemory m' p t) := by
  obtain ⟨htext, hsame⟩ := strcatLiteral_spec h.holds ht (by omega : s.length ≤ kNeededMemory)
  exact ⟨htext, h.same.trans (hsame.mono ha (by omega))⟩

theorem Written.literalIf (h : Written a m p s m') (b : Bool) (ht : nul ∉ t) (ha : a ≤ p)
    (hroom : p + s.length + t.length < kNeededMemory) :
    Written a m p (s ++ if b then t else [])
      (if b then strcatLiteral kNeededMemory m' p t else m') := by
  cases b
  · simpa using h
  · exact h.literal ht ha hroom

theorem Written.strcat (h : Written a m p s m') (ht : Holds m' q t) (ha : a ≤ p)
    (hroom : p + s.length + t.length < kNeededMemory)
    (hd : q + t.length < p ∨ p + s.length + t.length < q) :
    Written a m p (s ++ t) (CString.strcat kNeededMemory m' p q) := by
  obtain ⟨htext, hsame⟩ := strcat_spec h.holds ht (by omega : _ < kNeededMemory) hd
  exact ⟨htext, h.same.trans (hsame.mono ha (by omega))⟩

theorem Written.appendPieces (h : Written a m p s m') (hp : ∀ x ∈ pieces, x.Printable)
    (hlen : s.length + (shownText pieces).length < size) (ha : a ≤ p)
    (hroom : p + size + 32 ≤ kNeededMemory) :
    ∃ m'', pieces.foldlM (fun m x => x.append size p m) m' = some m'' ∧
      Written a m p (s ++ shownText pieces) m'' := by
  have hstart : Shows size p m' s m' := ⟨h.holds, .refl _ _ _⟩
  obtain ⟨m'', hm, hshows⟩ := hstart.pieces hp hlen (by omega)
  exact ⟨m'', hm, hshows.holds, h.same.trans (hshows.same.mono ha hroom)⟩

/-- Pieces without a number do not care where numbers are printed. -/
theorem append_of_texts {size' : ℕ} (hp : ∀ x ∈ pieces, ∃ s, x = .text s) (m : ℕ → Char) :
    pieces.foldlM (fun m x => x.append size p m) m =
      pieces.foldlM (fun m x => x.append size' p m) m := by
  induction pieces generalizing m with
  | nil => rw [List.foldlM_nil, List.foldlM_nil]
  | cons x xs ih =>
    obtain ⟨s, rfl⟩ := hp x List.mem_cons_self
    simp only [List.foldlM_cons, Piece.append, Option.bind_eq_bind, Option.bind_some]
    exact ih (fun y hy => hp y (List.mem_cons_of_mem _ hy)) _

theorem printable_functionPieces (hppid : 0 ≤ ppid) :
    ∀ x ∈ functionPieces o ppid, x.Printable := by
  intro x hx
  unfold functionPieces at hx
  split_ifs at hx <;>
    simp only [List.mem_append, List.mem_cons, List.not_mem_nil, or_false] at hx
  · rcases hx with ((rfl | h | rfl | rfl | rfl) | h) | rfl
    · decide
    · exact printable_colored _ (by decide) x h
    · decide
    · exact hppid
    · decide
    · exact printable_colored _ (by decide) x h
    · decide
  · rcases hx with (rfl | h) | rfl
    · decide
    · exact printable_colored _ (by decide) x h
    · decide

theorem printable_linePieces (hppid : 0 ≤ ppid) : ∀ x ∈ linePieces o ppid, x.Printable := by
  intro x hx
  unfold linePieces at hx
  split_ifs at hx <;>
    simp only [List.mem_append, List.mem_cons, List.not_mem_nil, or_false, false_or] at hx
  · rcases hx with (((rfl | h) | rfl | rfl | rfl) | h) | rfl
    · decide
    · exact printable_colored _ (by decide) x h
    · decide
    · exact hppid
    · decide
    · exact printable_colored _ (by decide) x h
    · decide
  · rw [hx]
    decide

theorem length_functionPieces_le (hppid : ppid < 2 ^ 31) :
    (shownText (functionPieces o ppid)).length ≤ 30 := by
  have hpid := length_numeral_le_of_lt ppid.toNat (by decide : 2 ≤ 10) (by decide : 0 < 10)
    (by omega)
  have hreset : (shownText (colored o.colorOutput "\x1b[0m")).length ≤ 4 := length_colored_le ..
  have hyellow : (shownText (colored o.colorOutput "\x1b[0m\x1b[33;1m")).length ≤ 11 :=
    length_colored_le ..
  have hopen : " (".toList.length = 2 := rfl
  have hclose : ")".toList.length = 1 := rfl
  have hbracket : "]".toList.length = 1 := rfl
  have hline : "\n".toList.length = 1 := rfl
  unfold functionPieces
  split_ifs
  · simp only [shownText_append, shownText_cons, shownText_nil, List.length_append,
      List.length_nil, Piece.shown]
    omega
  · simp only [shownText_append, shownText_singleton, List.length_append, Piece.shown,
      List.append_nil]
    omega

theorem length_linePieces_le (hppid : ppid < 2 ^ 31) :
    (shownText (linePieces o ppid)).length ≤ 25 := by
  have hpid := length_numeral_le_of_lt ppid.toNat (by decide : 2 ≤ 10) (by decide : 0 < 10)
    (by omega)
  have hreset : (shownText (colored o.colorOutput "\x1b[0m")).length ≤ 4 := length_colored_le ..
  have hyellow : (shownText (colored o.colorOutput "\x1b[33;1m")).length ≤ 7 := length_colored_le ..
  have hblank : " ".toList.length = 1 := rfl
  have hopen : "(".toList.length = 1 := rfl
  have hclose : ")".toList.length = 1 := rfl
  have hline : "\n".toList.length = 1 := rfl
  unfold linePieces
  split_ifs
  · simp only [shownText_append, shownText_cons, shownText_nil, List.length_append,
      List.length_nil, Piece.shown]
    omega
  · simp only [shownText_singleton, List.nil_append, Piece.shown]
    omega

/-! ### The messages of a frame -/

/-- The message with the function, which ends before the process id is printed, if it is. -/
theorem functionMessage_eq (h : Holds m line text) (hppid : 0 ≤ ppid) (hppid' : ppid < 2 ^ 31)
    (hline : line + text.length < memory) (hroom : memory + text.length + 80 ≤ kNeededMemory)
    (hpid : o.appendPid = true → text.length + 40 ≤ 512 ∧ memory + 544 ≤ kNeededMemory) :
    ∃ m', functionMessage o ppid line memory m = some m' ∧
      Written memory m memory (functionText o ppid text) m' := by
  have hbegun : Written memory m memory (if o.colorOutput then "\x1b[34;1m".toList else [])
      (if o.colorOutput then put m memory ("\x1b[34;1m".toList ++ [nul])
        else Function.update m memory nul) := by
    cases o.colorOutput
    · exact ⟨Function.update_self .., sameOutside_update nul le_rfl (by omega)⟩
    · exact ⟨holds_put (by decide), (sameOutside_put _ _ _).mono le_rfl (by
        have : ("\x1b[34;1m".toList ++ [nul]).length = 8 := rfl
        omega)⟩
  have hblue : (if o.colorOutput then "\x1b[34;1m".toList else []).length ≤ 7 := by
    split_ifs <;> decide
  have hbracket : "[".toList.length = 1 := rfl
  have hopened := hbegun.literal (t := "[".toList) (by decide) le_rfl (by omega)
  have hname := hopened.strcat (h.of_sameOutside hopened.same (Or.inl hline)) le_rfl
    (by rw [List.length_append]; omega) (Or.inl hline)
  have hpieces := length_functionPieces_le (o := o) hppid'
  have hlen : ((if o.colorOutput then "\x1b[34;1m".toList else []) ++ "[".toList ++ text).length ≤
      text.length + 8 := by
    rw [List.length_append, List.length_append]
    omega
  cases happend : o.appendPid with
  | true =>
    obtain ⟨hfits, hfits'⟩ := hpid happend
    exact hname.appendPieces (printable_functionPieces hppid) (by omega) le_rfl hfits'
  | false =>
    have htexts : ∀ x ∈ functionPieces o ppid, ∃ s, x = .text s := by
      intro x hx
      simp only [functionPieces, happend, colored, Bool.false_eq_true, ↓reduceIte, List.append_nil,
        List.mem_append, List.mem_singleton] at hx
      rcases hx with (rfl | hx) | rfl
      · exact ⟨_, rfl⟩
      · split_ifs at hx
        · exact ⟨_, List.mem_singleton.mp hx⟩
        · cases hx
      · exact ⟨_, rfl⟩
    obtain ⟨m', hm, hw⟩ : ∃ m', (functionPieces o ppid).foldlM
        (fun m x => x.append (text.length + 40) memory m) _ = some m' ∧ _ :=
      hname.appendPieces (printable_functionPieces hppid) (by omega) le_rfl (by omega)
    exact ⟨m', (append_of_texts htexts _).trans hm, hw⟩

theorem length_marked_le (source : List Char) : (marked source).length ≤ source.length + 11 := by
  unfold marked
  cases hd : source.dropInfix? ":".toList with
  | none => exact Nat.le_add_right _ _
  | some q =>
    obtain ⟨⟨i, hi, heq⟩, -⟩ := List.dropInfix?_eq_some_iff.mp hd
    obtain rfl := eq_of_beq heq
    have hlen := congrArg List.length hi
    have hgreen : "\x1b[32;1m".toList.length = 7 := rfl
    have hend : "\x1b[0m\n".toList.length = 5 := rfl
    have hcolon : ":".toList.length = 1 := rfl
    simp only [List.length_append, List.length_dropLast] at hlen ⊢
    omega

theorem marked_ne_nil {source : List Char} (h : source ≠ []) : marked source ≠ [] := by
  unfold marked
  split
  · exact h
  · simp

/-- The line number is kept outside the line while it is marked. -/
theorem markLineNumber_eq (h : Holds m line text) (ha : a ≤ line)
    (hline : line + text.length + 12 < memory) (hroom : memory + text.length < kNeededMemory) :
    Written a m line (marked text) (markLineNumber line memory m) := by
  unfold markLineNumber marked
  rw [h.strstr_eq (by decide) (by omega)]
  cases hd : text.dropInfix? ":".toList with
  | none => exact ⟨h, .refl _ _ _⟩
  | some q =>
    obtain ⟨path, number⟩ := q
    obtain ⟨⟨i, rfl, heq⟩, -⟩ := List.dropInfix?_eq_some_iff.mp hd
    obtain rfl := eq_of_beq heq
    set t := ":".toList ++ number with ht
    have hne : t ≠ [] := by simp [ht]
    rw [List.append_assoc, ← ht] at h hline hroom
    rw [List.length_append] at hline hroom
    have hpos : 0 < t.length := List.length_pos_of_ne_nil hne
    have hlast : t.dropLast.length + 1 = t.length := by
      rw [List.length_dropLast]
      omega
    dsimp only [Option.map_some]
    -- the number is copied, without its last char
    obtain ⟨hcopy, hcopied⟩ := strcpy_spec h.right (by omega : t.length < kNeededMemory)
      (show line + path.length + t.length < memory ∨ memory + t.length < _ by omega)
    set m₁ := strcpy kNeededMemory m memory (line + path.length) with hm₁
    rw [hcopy.strlen_eq (by omega)]
    have hkept : Holds (Function.update m₁ (memory + t.length - 1) nul) memory t.dropLast := by
      rw [show memory + t.length - 1 = memory + t.dropLast.length by omega]
      exact Holds.left (t := [t.getLast hne]) (by rwa [List.dropLast_append_getLast hne])
    set m₂ := Function.update m₁ (memory + t.length - 1) nul with hm₂
    have hsame₂ : SameOutside memory kNeededMemory m m₂ :=
      (hcopied.mono le_rfl (by omega)).trans (sameOutside_update nul (by omega) (by omega))
    -- the colour takes its place
    have hgreen : ("\x1b[32;1m".toList ++ [nul]).length = 8 := rfl
    have hgreen' : "\x1b[32;1m".toList.length = 7 := rfl
    have hput := sameOutside_put m₂ (line + path.length) ("\x1b[32;1m".toList ++ [nul])
    set m₃ := put m₂ (line + path.length) ("\x1b[32;1m".toList ++ [nul]) with hm₃
    have hpath : Holds m₃ line (path ++ "\x1b[32;1m".toList) :=
      h.left.append (holds_put (by decide)) fun i h1 h2 => by
        rw [hput i (by omega), hsame₂ i (by omega), Function.update_of_ne (by omega)]
    have hnumber : Holds m₃ memory t.dropLast := hkept.of_sameOutside hput (Or.inr (by omega))
    have hw : Written a m line (path ++ "\x1b[32;1m".toList) m₃ :=
      ⟨hpath, (hsame₂.mono (by omega) le_rfl).trans (hput.mono (by omega) (by omega))⟩
    have hwn := hw.strcat hnumber ha (by rw [List.length_append]; omega)
      (Or.inr (by rw [List.length_append]; omega))
    have hend : "\x1b[0m\n".toList.length = 5 := rfl
    exact hwn.literal (by decide) ha (by rw [List.length_append, List.length_append]; omega)

/-- The last char of the line gives way to its end. -/
theorem finishLine_eq (h : Holds m line text) (htext : text ≠ []) (hppid : 0 ≤ ppid)
    (hppid' : ppid < 2 ^ 31) (ha : a ≤ line) (hline : line + text.length + 25 < memory)
    (hroom : memory + 32 ≤ kNeededMemory) :
    ∃ m', finishLine o ppid line memory m = some m' ∧
      Written a m line (lineText o ppid text) m' := by
  have hpos : 0 < text.length := List.length_pos_of_ne_nil htext
  have hlast : text.dropLast.length + 1 = text.length := by
    rw [List.length_dropLast]
    omega
  have hpieces := length_linePieces_le (o := o) hppid'
  have hcut : Written a m line text.dropLast
      (Function.update m (line + strlen m kNeededMemory line - 1) nul) := by
    rw [h.strlen_eq (by omega), show line + text.length - 1 = line + text.dropLast.length by omega]
    exact ⟨Holds.left (t := [text.getLast htext]) (by rwa [List.dropLast_append_getLast htext]),
      sameOutside_update nul (by omega) (by omega)⟩
  exact hcut.appendPieces (printable_linePieces hppid) (by omega) ha (by omega)

/-- Where the shortened path begins. -/
theorem shortened_eq {cwd : ℕ} {dir : List Char} (o : Options) (hdir : Holds m cwd dir)
    (h : Holds m line text) (hroot : dir.head? = some '/') (hslash : dir.getLast? = some '/')
    (hlast : text.getLast? = some c) (hc : c ≠ '/') (hbefore : cwd + dir.length < line)
    (hroom : line + text.length < kNeededMemory) :
    ∃ q, (if o.cutCommonPathRoot then cutCommonPathRoot m cwd line else some line) = some q ∧
      PointsInto line text (if o.cutRelativePaths then cutRelativePaths m q else q)
        (shortened o dir text) ∧ (shortened o dir text).getLast? = some c := by
  obtain ⟨q, hq, hpoints, hleft⟩ : ∃ q,
      (if o.cutCommonPathRoot then cutCommonPathRoot m cwd line else some line) = some q ∧
      PointsInto line text q (if o.cutCommonPathRoot then withoutRoot dir text else text) ∧
      (if o.cutCommonPathRoot then withoutRoot dir text else text).getLast? = some c := by
    cases o.cutCommonPathRoot
    · exact ⟨line, rfl, .refl _ _, hlast⟩
    · obtain ⟨q, hq, hpoints⟩ := cutCommonPathRoot_eq hdir h hroot hslash hlast hc hbefore hroom
      exact ⟨q, hq, hpoints, getLast?_withoutRoot dir hlast hc⟩
  refine ⟨q, hq, ?_⟩
  have hlen := hpoints.add_length
  have hle : line ≤ q := by
    obtain ⟨b, -, hqb⟩ := hpoints
    omega
  unfold shortened
  cases o.cutRelativePaths
  · exact ⟨hpoints, hleft⟩
  · exact ⟨hpoints.trans (cutRelativePaths_eq (hpoints.holds h) (by omega)),
      getLast?_withoutParents hleft hc⟩

theorem placeMessage_eq {cwd : ℕ} {dir : List Char} (hdir : Holds m cwd dir) (h : Holds m line text)
    (hroot : dir.head? = some '/') (hslash : dir.getLast? = some '/')
    (hlast : text.getLast? = some c) (hc : c ≠ '/') (hbefore : cwd + dir.length < line)
    (hppid : 0 ≤ ppid) (hppid' : ppid < 2 ^ 31) (ha : a ≤ line)
    (hline : line + text.length + 40 < memory) (hroom : memory + text.length + 32 ≤ kNeededMemory) :
    ∃ q m', placeMessage o ppid cwd line memory m = some (q, m') ∧
      Written a m q (lineText o ppid (sourceText o dir text)) m' ∧
      (lineText o ppid (sourceText o dir text)).length ≤ kNeededMemory := by
  have hpieces := length_linePieces_le (o := o) hppid'
  obtain ⟨q, hq, hpoints, hshort⟩ := shortened_eq o hdir h hroot hslash hlast hc hbefore (by omega)
  have hqlen := hpoints.add_length
  have hle : line ≤ (if o.cutRelativePaths then cutRelativePaths m q else q) := by
    obtain ⟨b, -, hqb⟩ := hpoints
    omega
  rw [placeMessage, hq, Option.bind_some]
  dsimp only
  set r := if o.cutRelativePaths then cutRelativePaths m q else q with hr
  have hmarked : Written a m r (sourceText o dir text)
      (if o.colorOutput then markLineNumber r memory m else m) := by
    unfold sourceText
    cases o.colorOutput
    · exact ⟨hpoints.holds h, .refl _ _ _⟩
    · exact markLineNumber_eq (hpoints.holds h) (by omega) (by omega) (by omega)
  have hlong : (sourceText o dir text).length ≤ (shortened o dir text).length + 11 := by
    have := length_marked_le (shortened o dir text)
    unfold sourceText
    split_ifs <;> omega
  have hne : sourceText o dir text ≠ [] := by
    have hshort' : shortened o dir text ≠ [] := fun h => by simp [h] at hshort
    unfold sourceText
    split_ifs
    · exact marked_ne_nil hshort'
    · exact hshort'
  obtain ⟨m', hm', hw⟩ := finishLine_eq (o := o) (a := a) hmarked.holds hne hppid hppid' (by omega)
    (show _ < memory by omega) (by omega)
  refine ⟨r, m', by rw [hm', Option.map_some], ⟨hw.holds, hmarked.same.trans hw.same⟩, ?_⟩
  rw [lineText, List.length_append, List.length_dropLast]
  omega

end Written

end KurentoMediaServer.Debug
