import KurentoMediaServer.Debug.Messages

/-! The stack trace as a whole. What `addr2line` knows of a frame is put together in the
line itself; then the messages are made. Whatever a frame leaves in the memory, the next
one begins anew, so the trace prints the messages of all its frames in order. -/

namespace KurentoMediaServer.Debug

open Foundations Foundations.CString

/-- A frame for which there is room. Its function is short enough to have the process id
behind it. -/
structure Fits (o : Options) (prevMemory : ℕ) (f : Frame) : Prop where
  function : '\n' ∉ f.function
  nulFree : nul ∉ f.answer ∧ nul ∉ f.image
  addr_lt : f.addr < 2 ^ 64
  length : f.answer.length + f.image.length + 100 ≤ lineMaxLength
  room : prevMemory + lineMaxLength + f.answer.length + f.image.length + 116 ≤ kNeededMemory
  pid : o.appendPid = true → prevMemory + lineMaxLength + 544 ≤ kNeededMemory ∧
    ∀ s t, (f.text o.colorOutput).dropInfix? "\n".toList = some (s, t) → s.length + 40 ≤ 512

section Addr2line
variable {colorOutput : Bool} {f : Frame} {line : ℕ} {m : ℕ → Char}

theorem length_address (h : f.addr < 2 ^ 64) : ('0' :: 'x' :: numeral 16 f.addr).length ≤ 18 := by
  have := length_numeral_le_of_lt f.addr (by decide : 2 ≤ 16) (by decide : 0 < 16)
    (h.trans_le (by decide))
  simp only [List.length_cons]
  omega

theorem dropInfix?_answer (h : '\n' ∉ f.function) :
    f.answer.dropInfix? "\n".toList = some (f.function, f.source ++ ['\n']) := by
  refine List.dropInfix?_eq_some_iff.mpr ⟨⟨"\n".toList, by simp [Frame.answer], by simp⟩, ?_⟩
  intro p i s hs hi
  obtain rfl := eq_of_beq hi
  by_contra hlt
  refine h ?_
  have hget := congrArg (fun l => l[p.length]?) hs
  simp only [Frame.answer, List.append_assoc] at hget
  rw [List.getElem?_append_left (by omega), List.getElem?_append_right le_rfl] at hget
  exact List.mem_of_getElem? (by simpa using hget)

theorem length_text_le (h : f.addr < 2 ^ 64) :
    (f.text colorOutput).length ≤ f.answer.length + f.image.length + 36 := by
  have haddr := length_address h
  have hgreen : "\x1b[32;1m".toList.length = 7 := rfl
  have hreset : "\x1b[0m".toList.length = 4 := rfl
  have hat : " at ".toList.length = 4 := rfl
  have hblank : " ".toList.length = 1 := rfl
  have hcolon : ":".toList.length = 1 := rfl
  have hline : "\n".toList.length = 1 := rfl
  have hanswer : f.answer.length = f.function.length + f.source.length + 2 := by
    simp only [Frame.answer, List.length_append, List.length_cons, List.length_nil]
    omega
  unfold Frame.text
  dsimp only
  split_ifs
  · simp only [List.length_append]
    omega
  · simp only [List.length_append, List.length_nil]
    omega
  · simp only [List.length_append, List.length_singleton]
    omega
  · omega

theorem getLast?_text : ∃ c, (f.text colorOutput).getLast? = some c ∧ c ≠ '/' := by
  have hblank : " ".toList = [' '] := rfl
  have hline : "\n".toList = ['\n'] := rfl
  unfold Frame.text
  split_ifs
  · exact ⟨' ', by rw [hblank, List.getLast?_concat], by decide⟩
  · exact ⟨' ', by rw [hblank, List.getLast?_concat], by decide⟩
  · exact ⟨'\n', by rw [hline, List.getLast?_concat], by decide⟩
  · exact ⟨'\n', by rw [Frame.answer, List.getLast?_concat], by decide⟩

theorem source_ne_nil {text u v s t : List Char} (htext : text = u ++ '\n' :: v) (hv : v ≠ [])
    (h : text.dropInfix? "\n".toList = some (s, t)) : t ≠ [] := by
  rintro rfl
  obtain ⟨⟨i, hi, heq⟩, hmin⟩ := List.dropInfix?_eq_some_iff.mp h
  obtain rfl := eq_of_beq heq
  have hle := hmin u "\n".toList v (by simp [htext]) (by simp)
  have hlen := congrArg List.length (htext.symm.trans hi)
  have hpos := List.length_pos_of_ne_nil hv
  have hline : "\n".toList.length = 1 := rfl
  simp only [List.length_append, List.length_cons, List.length_nil] at hlen
  omega

/-- A function is never alone in the text. -/
theorem text_source {s t : List Char}
    (h : (f.text colorOutput).dropInfix? "\n".toList = some (s, t)) : t ≠ [] := by
  by_cases hunknown : f.answer.head? = some '?'
  · -- the text ends in a blank
    rintro rfl
    obtain ⟨⟨i, hi, heq⟩, -⟩ := List.dropInfix?_eq_some_iff.mp h
    obtain rfl := eq_of_beq heq
    have hblank : " ".toList = [' '] := rfl
    have hline : "\n".toList = ['\n'] := rfl
    have hlast := congrArg List.getLast? hi
    rw [Frame.text, if_pos hunknown, hblank, hline, List.append_nil, List.getLast?_concat,
      List.getLast?_concat] at hlast
    exact absurd hlast (by decide)
  · unfold Frame.text at h
    dsimp only at h
    rw [if_neg hunknown] at h
    split_ifs at h
    · exact source_ne_nil (u := f.function)
        (v := f.image ++ ":".toList ++ ('0' :: 'x' :: numeral 16 f.addr) ++ "\n".toList)
        (by simp) (by simp) h
    · exact source_ne_nil (u := f.function) (v := f.source ++ ['\n']) (by simp [Frame.answer])
        (by simp) h

/-- What is appended where the function is unknown. -/
theorem Written.unknownFunction {m' : ℕ → Char} {memory : ℕ} {s t image : List Char}
    (h : Written line m line s m') (ht : Holds m' memory t) (himage : nul ∉ image) (b : Bool)
    (hmemory : line + s.length + t.length < memory)
    (hroom : line + s.length + t.length + image.length + 9 < kNeededMemory) :
    Written line m line
      (s ++ t ++ (if b then "\x1b[0m".toList else []) ++ " at ".toList ++ image ++ " ".toList)
      (let m := CString.strcat kNeededMemory m' line memory
       let m := if b then strcatLiteral kNeededMemory m line "\x1b[0m".toList else m
       let m := strcatLiteral kNeededMemory m line " at ".toList
       let m := strcatLiteral kNeededMemory m line image
       strcatLiteral kNeededMemory m line " ".toList) := by
  have hreset : "\x1b[0m".toList.length = 4 := rfl
  have hat : " at ".toList.length = 4 := rfl
  have hblank : " ".toList.length = 1 := rfl
  have hend : (if b then "\x1b[0m".toList else []).length ≤ 4 := by
    split_ifs <;> decide
  have haddress := h.strcat ht le_rfl (by omega) (Or.inr hmemory)
  have hcolor := haddress.literalIf (t := "\x1b[0m".toList) b (by decide) le_rfl
    (by rw [List.length_append]; omega)
  have hword := hcolor.literal (t := " at ".toList) (by decide) le_rfl
    (by rw [List.length_append, List.length_append]; omega)
  have hname := hword.literal himage le_rfl
    (by rw [List.length_append, List.length_append, List.length_append]; omega)
  exact hname.literal (by decide) le_rfl (by
    rw [List.length_append, List.length_append, List.length_append, List.length_append]
    omega)

/-- What is appended where the place in the source is unknown. -/
theorem Written.unknownPlace {m' : ℕ → Char} {memory : ℕ} {s t : List Char}
    (h : Written line m line s m') (ht : Holds m' memory t)
    (hmemory : line + s.length + t.length + 1 < memory)
    (hroom : line + s.length + t.length + 2 < kNeededMemory) :
    Written line m line (s ++ ":".toList ++ t ++ "\n".toList)
      (let m := strcatLiteral kNeededMemory m' line ":".toList
       let m := CString.strcat kNeededMemory m line memory
       strcatLiteral kNeededMemory m line "\n".toList) := by
  have hcolon : ":".toList.length = 1 := rfl
  have hline : "\n".toList.length = 1 := rfl
  have hplace := h.literal (t := ":".toList) (by decide) le_rfl (by omega)
  have hkept : Holds (strcatLiteral kNeededMemory m' line ":".toList) memory t :=
    ht.of_sameOutside (strcatLiteral_spec h.holds (by decide) (by omega)).2 (Or.inr (by omega))
  have haddress := hplace.strcat hkept le_rfl (by rw [List.length_append]; omega)
    (Or.inr (by rw [List.length_append]; omega))
  exact haddress.literal (by decide) le_rfl
    (by rw [List.length_append, List.length_append]; omega)

theorem addr2line_eq (hnul : nul ∉ f.answer ∧ nul ∉ f.image) (hfunction : '\n' ∉ f.function)
    (haddr : f.addr < 2 ^ 64) (hlength : f.answer.length + f.image.length + 100 ≤ lineMaxLength)
    (hroom : line + lineMaxLength + 64 ≤ kNeededMemory) :
    ∃ m', addr2line colorOutput f line m = some m' ∧
      Written line m line (f.text colorOutput) m' := by
  have hmax : lineMaxLength = 4096 := rfl
  have hlen := length_address haddr
  have hanswer : f.answer.length = f.function.length + 1 + (f.source ++ ['\n']).length := by
    simp only [Frame.answer, List.length_append, List.length_cons, List.length_nil]
    omega
  have h₀ : Written line m line f.answer (put m line (f.answer ++ [nul])) :=
    ⟨holds_put hnul.1, (sameOutside_put _ _ _).mono le_rfl (by
      rw [List.length_append, List.length_singleton]
      omega)⟩
  set m₀ := put m line (f.answer ++ [nul]) with hm₀
  have hparts : Holds m₀ line ((f.function ++ ['\n']) ++ (f.source ++ ['\n'])) := by
    simpa [Frame.answer] using h₀.holds
  obtain ⟨m₁, hptoa, hp⟩ := ptoa_printed haddr (line + lineMaxLength) m₀
  have hsame₁ : SameOutside line kNeededMemory m₀ m₁ := hp.same.mono (by omega) hroom
  rw [addr2line, ← hm₀, Frame.text]
  dsimp only
  by_cases hunknown : f.answer.head? = some '?'
  · -- the function is unknown
    rw [if_pos ((h₀.holds.head?_iff (by decide)).mpr hunknown), if_pos hunknown, hptoa,
      Option.map_some]
    refine ⟨_, rfl, ?_⟩
    have hgreen : "\x1b[32;1m".toList.length = 7 := rfl
    have hgreen' : ("\x1b[32;1m".toList ++ [nul]).length = 8 := rfl
    have hw₁ : Written line m line f.answer m₁ :=
      ⟨h₀.holds.of_sameOutside hp.same (Or.inl (by omega)), h₀.same.trans hsame₁⟩
    have hw₂ : Written line m line (if colorOutput then "\x1b[32;1m".toList else f.answer)
        (if colorOutput then put m₁ line ("\x1b[32;1m".toList ++ [nul]) else m₁) := by
      cases colorOutput
      · exact hw₁
      · exact ⟨holds_put (by decide),
          hw₁.same.trans ((sameOutside_put _ _ _).mono le_rfl (by omega))⟩
    have haddress : Holds (if colorOutput then put m₁ line ("\x1b[32;1m".toList ++ [nul]) else m₁)
        (line + lineMaxLength) ('0' :: 'x' :: numeral 16 f.addr) := by
      cases colorOutput
      · exact hp.holds
      · exact hp.holds.of_sameOutside (sameOutside_put _ _ _) (Or.inr (by omega))
    have hlen₂ : (if colorOutput then "\x1b[32;1m".toList else f.answer).length ≤
        f.answer.length + 7 := by
      split_ifs <;> omega
    exact hw₂.unknownFunction haddress hnul.2 colorOutput (by omega) (by omega)
  · have hsecond : Holds m₀ (line + f.function.length + 1) (f.source ++ ['\n']) := by
      simpa [Nat.add_assoc] using hparts.right
    rw [if_neg fun h => hunknown ((h₀.holds.head?_iff (by decide)).mp h), if_neg hunknown,
      h₀.holds.strstr_eq (by decide) (by omega), dropInfix?_answer hfunction, Option.map_some,
      Option.bind_some]
    by_cases hplace : (f.source ++ ['\n']).head? = some '?'
    · rw [if_pos hplace, if_pos ((hsecond.head?_iff (by decide)).mpr hplace), hptoa,
        Option.map_some]
      refine ⟨_, rfl, ?_⟩
      have himage := sameOutside_put m₁ (line + f.function.length + 1) (f.image ++ [nul])
      have himage' : (f.image ++ [nul]).length = f.image.length + 1 := by simp
      have hnamed : (f.function ++ ['\n']).length = f.function.length + 1 := by simp
      have hw₂ : Written line m line (f.function ++ ['\n'] ++ f.image)
          (put m₁ (line + f.function.length + 1) (f.image ++ [nul])) := by
        refine ⟨hparts.left.append ?_ fun i h1 h2 => ?_, h₀.same.trans
          (hsame₁.trans (himage.mono (by omega) (by omega)))⟩
        · rw [hnamed, ← Nat.add_assoc]
          exact holds_put hnul.2
        · rw [himage i (by omega), hp.same i (by omega), Function.update_of_ne (by omega)]
      have hlen₂ : (f.function ++ ['\n'] ++ f.image).length =
          f.function.length + 1 + f.image.length := by
        rw [List.length_append, hnamed]
      exact hw₂.unknownPlace (hp.holds.of_sameOutside himage (Or.inr (by omega))) (by omega)
        (by omega)
    · rw [if_neg hplace, if_neg fun h => hplace ((hsecond.head?_iff (by decide)).mp h)]
      exact ⟨m₀, rfl, h₀⟩

end Addr2line

section Trace
variable {o : Options} {ppid : ℤ} {cwd prevMemory : ℕ} {dir : List Char} {f : Frame}
  {m : ℕ → Char}

/-- A frame prints its messages, and writes behind the working directory only. -/
theorem frame_eq (hdir : Holds m cwd dir) (hroot : dir.head? = some '/')
    (hslash : dir.getLast? = some '/') (hbefore : cwd + dir.length < prevMemory)
    (hfits : Fits o prevMemory f) (hppid : 0 ≤ ppid) (hppid' : ppid < 2 ^ 31) :
    ∃ m', frame o ppid cwd prevMemory f m = some (frameTexts o ppid dir f, m') ∧
      SameOutside prevMemory kNeededMemory m m' := by
  obtain ⟨hfunction, hnul, haddr, hlength, hroom, hpid⟩ := hfits
  have hmax : lineMaxLength = 4096 := rfl
  have hpieces := length_linePieces_le (o := o) hppid'
  obtain ⟨m₀, hm₀, h₀, hsame₀⟩ : ∃ m₀, addr2line o.colorOutput f prevMemory m = some m₀ ∧
      Written prevMemory m prevMemory (f.text o.colorOutput) m₀ :=
    addr2line_eq hnul hfunction haddr hlength (by omega)
  have htextlen : (f.text o.colorOutput).length ≤ f.answer.length + f.image.length + 36 :=
    length_text_le haddr
  obtain ⟨c, hlast, hc⟩ : ∃ c, (f.text o.colorOutput).getLast? = some c ∧ c ≠ '/' := getLast?_text
  have hsource : ∀ s t, (f.text o.colorOutput).dropInfix? "\n".toList = some (s, t) → t ≠ [] :=
    fun s t => text_source
  rw [frame, frameTexts, hm₀, Option.bind_some]
  dsimp only
  set text := f.text o.colorOutput with htextdef
  rw [h₀.strstr_eq (by decide) (by omega)]
  cases hd : text.dropInfix? "\n".toList with
  | none =>
    have htext : text ≠ [] := fun h => by simp [h] at hlast
    obtain ⟨m', hm, hw⟩ := finishLine_eq h₀ htext hppid hppid' le_rfl
      (show _ < prevMemory + lineMaxLength by omega) (by omega)
    have hshown : textAt m' kNeededMemory prevMemory = lineText o ppid text :=
      hw.holds.textAt_eq (by
        rw [lineText, List.length_append, List.length_dropLast]
        omega)
    exact ⟨m', by rw [Option.map_none, hm, Option.map_some, hshown], hsame₀.trans hw.same⟩
  | some q =>
    obtain ⟨name, s⟩ := q
    obtain ⟨⟨i, htext, heq⟩, -⟩ := List.dropInfix?_eq_some_iff.mp hd
    obtain rfl := eq_of_beq heq
    have hs : s ≠ [] := hsource name s hd
    have hlen : text.length = name.length + 1 + s.length := by
      rw [htext, List.length_append, List.length_append]
      rfl
    have hslast : s.getLast? = some c := by
      rw [htext, List.getLast?_append, List.getLast?_eq_some_getLast hs] at hlast
      rw [List.getLast?_eq_some_getLast hs]
      simpa using hlast
    rw [htext, List.append_assoc] at h₀
    dsimp only [Option.map_some]
    -- the function
    have hcut := sameOutside_update (m := m₀) (p := prevMemory + name.length) (a := prevMemory)
      (b := prevMemory + name.length + 1) nul (by omega) (by omega)
    obtain ⟨m₂, hm₂, hw₂⟩ := functionMessage_eq (o := o) h₀.left hppid hppid'
      (show _ < prevMemory + lineMaxLength by omega) (by omega)
      (fun happend => ⟨(hpid happend).2 name s hd, (hpid happend).1⟩)
    have hfunction : textAt m₂ kNeededMemory (prevMemory + lineMaxLength) = functionText o ppid name := by
      apply hw₂.holds.textAt_eq
      have := length_functionPieces_le (o := o) hppid'
      have hblue : (if o.colorOutput then "\x1b[34;1m".toList else []).length ≤ 7 := by
        split_ifs <;> decide
      have hbracket : "[".toList.length = 1 := rfl
      rw [functionText, List.length_append, List.length_append, List.length_append]
      omega
    have hsame₂ : SameOutside prevMemory kNeededMemory m m₂ :=
      hsame₀.trans ((hcut.mono le_rfl (by omega)).trans (hw₂.same.mono (by omega) le_rfl))
    -- the place in the source
    have hright : Holds m₀ (prevMemory + name.length) ('\n' :: s) := h₀.right
    have hat : Holds m₂ (prevMemory + name.length + 1) s :=
      (hright.2.2.of_sameOutside hcut (Or.inr le_rfl)).of_sameOutside hw₂.same
        (Or.inl (by omega))
    obtain ⟨q, m₃, hm₃, hw₃, hlong⟩ := placeMessage_eq (o := o) (a := prevMemory)
      (hdir.of_sameOutside hsame₂ (Or.inl hbefore)) hat hroot hslash hslast hc (by omega) hppid
      hppid' (by omega) (show _ < prevMemory + lineMaxLength by omega) (by omega)
    refine ⟨m₃, ?_, hsame₂.trans hw₃.same⟩
    rw [hm₂, Option.bind_some, hm₃, Option.map_some, hfunction]
    dsimp only
    rw [hw₃.holds.textAt_eq hlong]

/-- The whole trace prints the messages meant for each of its frames, in order, whatever is
in the memory, and leaves everything alone that stands before the place for the lines. -/
theorem trace_printed {frames : List Frame} (hdir : Holds m cwd dir)
    (hroot : dir.head? = some '/') (hslash : dir.getLast? = some '/')
    (hbefore : cwd + dir.length < prevMemory) (hfits : ∀ f ∈ frames, Fits o prevMemory f)
    (hppid : 0 ≤ ppid) (hppid' : ppid < 2 ^ 31) :
    ∃ m', stackTrace o ppid cwd prevMemory frames m =
        some (frames.flatMap (frameTexts o ppid dir), m') ∧
      SameOutside prevMemory kNeededMemory m m' := by
  induction frames generalizing m with
  | nil => exact ⟨m, rfl, .refl _ _ _⟩
  | cons f frames ih =>
    obtain ⟨m₁, hm₁, hsame₁⟩ := frame_eq hdir hroot hslash hbefore
      (hfits f List.mem_cons_self) hppid hppid'
    obtain ⟨m₂, hm₂, hsame₂⟩ := ih (hdir.of_sameOutside hsame₁ (Or.inl hbefore))
      fun g hg => hfits g (List.mem_cons_of_mem _ hg)
    refine ⟨m₂, ?_, hsame₁.trans hsame₂⟩
    rw [stackTrace, hm₁, Option.bind_some]
    dsimp only
    rw [hm₂, Option.map_some, List.flatMap_cons]

/-- A function of the server, and one that is unknown. -/
def serverFrames : List Frame :=
  [⟨"/usr/bin/kms".toList, 66, "main".toList, "/home/kms/server/main.cpp:42".toList⟩,
    ⟨"/lib/libc.so".toList, 255, "??".toList, "??:0".toList⟩]

theorem trace_printed_server :
    ∃ m', stackTrace ⟨true, true, false, true⟩ 42 0 11 serverFrames
        (put (fun _ => nul) 0 ("/home/kms/".toList ++ [nul])) =
      some (["\x1b[34;1m[main]\x1b[0m\n".toList,
        "server/main.cpp\x1b[32;1m:42\x1b[0m\n".toList,
        "\x1b[32;1m0xFF\x1b[0m at /lib/libc.so\n".toList], m') ∧
      SameOutside 11 kNeededMemory (put (fun _ => nul) 0 ("/home/kms/".toList ++ [nul])) m' := by
  have hdir : Holds (put (fun _ => nul) 0 ("/home/kms/".toList ++ [nul])) 0 "/home/kms/".toList :=
    holds_put (by decide)
  have hfits : ∀ f ∈ serverFrames, Fits ⟨true, true, false, true⟩ 11 f := by
    intro f hf
    simp only [serverFrames, List.mem_cons, List.not_mem_nil, or_false] at hf
    rcases hf with rfl | rfl
    · exact ⟨by decide, by decide, by decide, by decide, by decide, nofun⟩
    · exact ⟨by decide, by decide, by decide, by decide, by decide, nofun⟩
  exact trace_printed hdir (by decide) (by decide) (by decide) hfits (by decide) (by decide)

end Trace

end KurentoMediaServer.Debug
