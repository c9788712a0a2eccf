import KurentoMediaServer.Debug.Safe

/-! The first message of `DeathHandler::SignalHandler`. It is put together with `strcat`
at the start of the memory of the handler, and its numbers are printed 128 characters
further on and appended from there. The message is right as long as it ends before the
numbers, which it does for every signal, thread and process. -/

namespace KurentoMediaServer.Debug

open Foundations.CString

def SIGABRT : ℤ := 6
def SIGFPE : ℤ := 8
def SIGSEGV : ℤ := 11

/-- What one `strcat` appends to the message. -/
inductive Piece where
  | text (s : String)
  | itoa (v : ℤ)
  | utoa (v : ℕ)

/-- One `strcat` on the message at `msg`, with the numbers printed at `msg + size`. -/
def Piece.append (size msg : ℕ) (m : ℕ → Char) : Piece → Option (ℕ → Char)
  | .text s => some (strcatLiteral kNeededMemory m msg s.toList)
  | .itoa v => (Debug.itoa v m (msg + size) 10).map fun (buf, m) => strcat kNeededMemory m msg buf
  | .utoa v => (Debug.utoa v m (msg + size) 10).map fun (buf, m) => strcat kNeededMemory m msg buf

/-- The calls of `strcat` for one kind of colour. -/
def colored (colorOutput : Bool) (s : String) : List Piece :=
  if colorOutput then [.text s] else []

def signalName (sig : ℤ) : List Piece :=
  if sig = SIGSEGV then [.text "Segmentation fault"]
  else if sig = SIGABRT then [.text "Aborted"]
  else if sig = SIGFPE then [.text "Floating point exception"]
  else [.text "Caught signal ", .itoa sig]

/-- The calls of `strcat` the message is made with, in order. -/
def headerPieces (colorOutput : Bool) (sig : ℤ) (thread : ℕ) (ppid : ℤ) : List Piece :=
  signalName sig ++ colored colorOutput "\x1b[0m" ++ [.text " (thread "] ++
    colored colorOutput "\x1b[33;1m" ++ [.utoa thread] ++ colored colorOutput "\x1b[0m" ++
    [.text ", pid "] ++ colored colorOutput "\x1b[33;1m" ++ [.itoa ppid] ++
    colored colorOutput "\x1b[0m" ++ [.text ")"]

/-- The message `SignalHandler` prints first, in the memory `m` at `msg`. -/
def header (colorOutput : Bool) (sig : ℤ) (thread : ℕ) (ppid : ℤ) (msg : ℕ) (m : ℕ → Char) :
    Option (ℕ → Char) :=
  let begun :=
    if colorOutput then put m msg ("\x1b[31;1m".toList ++ [nul]) else Function.update m msg nul
  (headerPieces colorOutput sig thread ppid).foldlM (fun m p => p.append 128 msg m) begun

/-! ### The text of a message -/

/-- What a piece shows. -/
def Piece.shown : Piece → List Char
  | .text s => s.toList
  | .itoa v => numeral 10 v.toNat
  | .utoa v => numeral 10 v

/-- A piece that can be appended: a literal, or a number that is not negative. -/
def Piece.Printable : Piece → Prop
  | .text s => nul ∉ s.toList
  | .itoa v => 0 ≤ v
  | .utoa _ => True

instance : (p : Piece) → Decidable p.Printable
  | .text s => inferInstanceAs (Decidable (nul ∉ s.toList))
  | .itoa v => inferInstanceAs (Decidable (0 ≤ v))
  | .utoa _ => .isTrue trivial

def shownText (pieces : List Piece) : List Char := pieces.flatMap Piece.shown

/-- The text of a message begun with `s` in the buffer at `msg`, whose numbers are printed
from `size` on. -/
structure Shows (size msg : ℕ) (m : ℕ → Char) (s : List Char) (m' : ℕ → Char) : Prop where
  holds : Holds m' msg s
  same : SameOutside msg (msg + size + 32) m m'

section Append
variable {size msg : ℕ} {m m' m'' : ℕ → Char} {s t : List Char}

/-- A number printed behind the message is appended to it. -/
theorem Shows.number (h : Shows size msg m s m') {q : ℕ} (hp : Printed (msg + size) 32 m' t q m'')
    (hlen : s.length + t.length < size) (hmem : size < kNeededMemory) :
    Shows size msg m (s ++ t) (strcat kNeededMemory m'' msg q) := by
  have hq := hp.le
  obtain ⟨htext, hsame⟩ := strcat_spec (h.holds.of_sameOutside hp.same (by omega)) hp.holds
    (by omega : _ < kNeededMemory) (show _ < msg ∨ msg + s.length + t.length < q by omega)
  exact ⟨htext, h.same.trans ((hp.same.mono (by omega) (by omega)).trans
    (hsame.mono le_rfl (by omega)))⟩

theorem Shows.piece (h : Shows size msg m s m') {p : Piece} (hp : p.Printable)
    (hlen : s.length + p.shown.length < size) (hmem : size < kNeededMemory) :
    ∃ m'', p.append size msg m' = some m'' ∧ Shows size msg m (s ++ p.shown) m'' := by
  cases p with
  | text text =>
    obtain ⟨htext, hsame⟩ := strcatLiteral_spec h.holds hp (by omega : s.length ≤ kNeededMemory)
    have hlen' : s.length + text.toList.length < size := hlen
    exact ⟨_, rfl, htext, h.same.trans (hsame.mono le_rfl (by omega))⟩
  | itoa v =>
    obtain ⟨n, rfl⟩ := Int.eq_ofNat_of_zero_le hp
    obtain ⟨q, m₁, hutoa, hprinted⟩ := utoa_printed (by decide : 2 ≤ 10) (by decide) n (msg + size) m'
    exact ⟨_, by rw [Piece.append, itoa_natCast, show (10 : ℤ) = ((10 : ℕ) : ℤ) from rfl, hutoa]; rfl,
      h.number hprinted hlen hmem⟩
  | utoa n =>
    obtain ⟨q, m₁, hutoa, hprinted⟩ := utoa_printed (by decide : 2 ≤ 10) (by decide) n (msg + size) m'
    exact ⟨_, by rw [Piece.append, show (10 : ℤ) = ((10 : ℕ) : ℤ) from rfl, hutoa]; rfl,
      h.number hprinted hlen hmem⟩

/-- All pieces of a message that ends before its numbers are printed. -/
theorem Shows.pieces (h : Shows size msg m s m') {pieces : List Piece}
    (hp : ∀ p ∈ pieces, p.Printable) (hlen : s.length + (shownText pieces).length < size)
    (hmem : size < kNeededMemory) :
    ∃ m'', pieces.foldlM (fun m p => p.append size msg m) m' = some m'' ∧
      Shows size msg m (s ++ shownText pieces) m'' := by
  induction pieces generalizing s m' with
  | nil => exact ⟨m', rfl, by simpa [shownText] using h⟩
  | cons p ps ih =>
    have hcons : shownText (p :: ps) = p.shown ++ shownText ps := rfl
    rw [hcons, List.length_append] at hlen
    obtain ⟨m₁, hm₁, h₁⟩ := h.piece (hp p (List.mem_cons_self ..)) (by omega) hmem
    obtain ⟨m₂, hm₂, h₂⟩ := ih h₁ (fun q hq => hp q (List.mem_cons_of_mem _ hq))
      (by rw [List.length_append]; omega)
    exact ⟨m₂, by rw [List.foldlM_cons, hm₁]; exact hm₂, by rwa [hcons, ← List.append_assoc]⟩

end Append

/-! ### The header -/

/-- The message for a signal, with its colours. -/
def headerText (colorOutput : Bool) (sig : ℤ) (thread : ℕ) (ppid : ℤ) : List Char :=
  (if colorOutput then "\x1b[31;1m".toList else []) ++
    shownText (headerPieces colorOutput sig thread ppid)

section Header
variable (colorOutput : Bool) {sig ppid : ℤ} (thread : ℕ)

theorem shownText_append (ps qs : List Piece) :
    shownText (ps ++ qs) = shownText ps ++ shownText qs := List.flatMap_append

theorem shownText_nil : shownText [] = [] := rfl

theorem shownText_cons (p : Piece) (ps : List Piece) :
    shownText (p :: ps) = p.shown ++ shownText ps := rfl

theorem shownText_singleton (p : Piece) : shownText [p] = p.shown := List.append_nil _

theorem length_signalName_le (hsig : sig < 2 ^ 31) : (shownText (signalName sig)).length ≤ 24 := by
  have hnum := length_numeral_le_of_lt sig.toNat (by decide : 2 ≤ 10) (by decide : 0 < 10)
    (by omega)
  unfold signalName
  split_ifs
  · decide
  · decide
  · decide
  · have hcaught : "Caught signal ".toList.length = 14 := rfl
    simp only [shownText, List.flatMap_cons, List.flatMap_nil, Piece.shown, List.append_nil,
      List.length_append]
    omega

theorem length_colored_le (s : String) :
    (shownText (colored colorOutput s)).length ≤ s.toList.length := by
  cases colorOutput
  · exact Nat.zero_le _
  · simp [colored, shownText, Piece.shown]

/-- The longest message has 103 characters. -/
theorem length_headerText_le (hsig : sig < 2 ^ 31) (hthread : thread < 2 ^ 64)
    (hppid : ppid < 2 ^ 31) : (headerText colorOutput sig thread ppid).length ≤ 103 := by
  have hname := length_signalName_le hsig
  have hpid := length_numeral_le_of_lt ppid.toNat (by decide : 2 ≤ 10) (by decide : 0 < 10)
    (by omega)
  have hid := length_numeral_le_of_lt thread (by decide : 2 ≤ 10) (by decide : 0 < 20)
    (hthread.trans_le (by decide))
  have hred : (if colorOutput then "\x1b[31;1m".toList else []).length ≤ 7 := by
    split_ifs <;> decide
  have hreset : (shownText (colored colorOutput "\x1b[0m")).length ≤ 4 := length_colored_le ..
  have hyellow : (shownText (colored colorOutput "\x1b[33;1m")).length ≤ 7 := length_colored_le ..
  have hthreadText : " (thread ".toList.length = 9 := rfl
  have hpidText : ", pid ".toList.length = 6 := rfl
  have hendText : ")".toList.length = 1 := rfl
  simp only [headerText, headerPieces, shownText_append, shownText_singleton, List.length_append,
    Piece.shown]
  omega

theorem printable_colored {s : String} (hs : nul ∉ s.toList) :
    ∀ p ∈ colored colorOutput s, p.Printable := by
  intro p hp
  unfold colored at hp
  split_ifs at hp
  · obtain rfl := List.mem_singleton.mp hp
    exact hs
  · cases hp

theorem printable_headerPieces (hsig : 0 ≤ sig) (hppid : 0 ≤ ppid) :
    ∀ p ∈ headerPieces colorOutput sig thread ppid, p.Printable := by
  have hname : ∀ p ∈ signalName sig, p.Printable := by
    intro p hp
    unfold signalName at hp
    split_ifs at hp <;> simp only [List.mem_cons, List.not_mem_nil, or_false] at hp
    · subst hp
      decide
    · subst hp
      decide
    · subst hp
      decide
    · rcases hp with rfl | rfl
      · decide
      · exact hsig
  intro p hp
  simp only [headerPieces, List.mem_append, List.mem_singleton] at hp
  rcases hp with (((((((((h | h) | rfl) | h) | rfl) | h) | rfl) | h) | rfl) | h) | rfl
  · exact hname p h
  · exact printable_colored _ (by decide) p h
  · decide
  · exact printable_colored _ (by decide) p h
  · trivial
  · exact printable_colored _ (by decide) p h
  · decide
  · exact printable_colored _ (by decide) p h
  · exact hppid
  · exact printable_colored _ (by decide) p h
  · decide

/-- Whatever the signal, the thread and the process, the handler reads no digit outside
its table, the message it prints is the one meant, and nothing is written but the first
160 characters of its memory. -/
theorem header_shown (hsig : 0 ≤ sig) (hsig' : sig < 2 ^ 31) (hthread : thread < 2 ^ 64)
    (hppid : 0 ≤ ppid) (hppid' : ppid < 2 ^ 31) (msg : ℕ) (m : ℕ → Char) :
    ∃ m', header colorOutput sig thread ppid msg m = some m' ∧
      Holds m' msg (headerText colorOutput sig thread ppid) ∧ SameOutside msg (msg + 160) m m' := by
  have hlen := length_headerText_le colorOutput thread hsig' hthread hppid'
  have hbegun : Shows 128 msg m (if colorOutput then "\x1b[31;1m".toList else [])
      (if colorOutput then put m msg ("\x1b[31;1m".toList ++ [nul])
        else Function.update m msg nul) := by
    cases colorOutput
    · exact ⟨Function.update_self .., sameOutside_update nul le_rfl (by omega)⟩
    · exact ⟨holds_put (by decide), (sameOutside_put _ _ _).mono le_rfl (by simp)⟩
  rw [headerText, List.length_append] at hlen
  obtain ⟨m', hm', h⟩ := hbegun.pieces
    (printable_headerPieces colorOutput thread hsig hppid) (by omega) (by decide)
  exact ⟨m', hm', h.holds, h.same⟩

/-- The message for a segmentation fault in a terminal with colours. -/
theorem header_shown_segv :
    ∃ m', header true SIGSEGV 140737353938112 42 0 (fun _ => nul) = some m' ∧
      Holds m' 0 (headerText true SIGSEGV 140737353938112 42) ∧
      SameOutside 0 160 (fun _ => nul) m' :=
  header_shown true _ (by decide) (by decide) (by decide) (by decide) (by decide) 0 fun _ => nul

example : String.ofList (headerText false SIGSEGV 140737353938112 42) =
    "Segmentation fault (thread 140737353938112, pid 42)" := by decide

end Header

end KurentoMediaServer.Debug
