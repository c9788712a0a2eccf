import Mathlib.Data.List.Basic
import Mathlib.Logic.Function.Basic
import Mathlib.Order.Nat

/-! Texts that end in a NUL, in a memory of characters, and the functions of the C
library that copy and search them. The loops take a bound on the memory they may walk over; with
room enough they do what they are specified to do, and touch nothing outside the
places they write. -/

namespace KurentoMediaServer.Foundations.CString

def nul : Char := Char.ofNat 0

/-- A text stands at `p`, with its end. -/
def Holds (m : ℕ → Char) : ℕ → List Char → Prop
  | p, [] => m p = nul
  | p, c :: cs => c ≠ nul ∧ m p = c ∧ Holds m (p + 1) cs

/-- Nothing outside `[a, b)` is written. -/
def SameOutside (a b : ℕ) (m m' : ℕ → Char) : Prop := ∀ i, i < a ∨ b ≤ i → m' i = m i

/-- The characters of a list written from `p` on. -/
def put (m : ℕ → Char) : ℕ → List Char → ℕ → Char
  | _, [] => m
  | p, c :: cs => put (Function.update m p c) (p + 1) cs

def strlen (m : ℕ → Char) : ℕ → ℕ → ℕ
  | 0, _ => 0
  | n + 1, p => if m p = nul then 0 else strlen m n (p + 1) + 1

def strcpy : ℕ → (ℕ → Char) → ℕ → ℕ → ℕ → Char
  | 0, m, _, _ => m
  | n + 1, m, dst, src =>
    if m src = nul then Function.update m dst nul
    else strcpy n (Function.update m dst (m src)) (dst + 1) (src + 1)

def strcat (n : ℕ) (m : ℕ → Char) (dst src : ℕ) : ℕ → Char :=
  strcpy n m (dst + strlen m n dst) src

/-- `strcat` with a literal, which stands outside the memory. -/
def strcatLiteral (n : ℕ) (m : ℕ → Char) (dst : ℕ) (text : List Char) : ℕ → Char :=
  put m (dst + strlen m n dst) (text ++ [nul])

/-- Whether a literal stands at `p`, as `strncmp` with its length finds. -/
def startsWith (m : ℕ → Char) : ℕ → List Char → Bool
  | _, [] => true
  | p, c :: cs => m p == c && startsWith m (p + 1) cs

def strstr (m : ℕ → Char) : ℕ → ℕ → List Char → Option ℕ
  | 0, _, _ => none
  | n + 1, p, text =>
    if startsWith m p text then some p else if m p = nul then none else strstr m n (p + 1) text

/-- The text that stands at `p`. -/
def textAt (m : ℕ → Char) : ℕ → ℕ → List Char
  | 0, _ => []
  | n + 1, p => if m p = nul then [] else m p :: textAt m n (p + 1)

variable {m m' m'' : ℕ → Char} {a b p dst src n : ℕ} {s t : List Char}

/-! ### What is left alone -/

theorem SameOutside.refl (a b : ℕ) (m : ℕ → Char) : SameOutside a b m m := fun _ _ => rfl

theorem SameOutside.trans (h : SameOutside a b m m') (g : SameOutside a b m' m'') :
    SameOutside a b m m'' := fun i hi => (g i hi).trans (h i hi)

theorem SameOutside.mono {a' b' : ℕ} (h : SameOutside a b m m') (ha : a' ≤ a) (hb : b ≤ b') :
    SameOutside a' b' m m' := fun i hi => h i (by omega)

theorem sameOutside_update (c : Char) (ha : a ≤ p) (hb : p < b) :
    SameOutside a b m (Function.update m p c) := fun i hi => Function.update_of_ne (by omega) ..

theorem sameOutside_put (m : ℕ → Char) (p : ℕ) (s : List Char) :
    SameOutside p (p + s.length) m (put m p s) := by
  induction s generalizing m p with
  | nil => exact SameOutside.refl p p m
  | cons c cs ih =>
    have hlen : (c :: cs).length = cs.length + 1 := rfl
    exact (sameOutside_update c le_rfl (by omega)).trans
      ((ih (Function.update m p c) (p + 1)).mono (by omega) (by omega))

/-! ### Texts -/

theorem Holds.congr (h : Holds m p s) (hm : ∀ i, p ≤ i → i ≤ p + s.length → m' i = m i) :
    Holds m' p s := by
  induction s generalizing p with
  | nil => exact (hm p le_rfl (by simp)).trans h
  | cons c cs ih =>
    obtain ⟨hc, hp, hs⟩ := h
    have hlen : (c :: cs).length = cs.length + 1 := rfl
    exact ⟨hc, (hm p le_rfl (by omega)).trans hp, ih hs fun i h1 h2 => hm i (by omega) (by omega)⟩

theorem Holds.of_sameOutside (h : Holds m p s) (hm : SameOutside a b m m')
    (hd : p + s.length < a ∨ b ≤ p) : Holds m' p s :=
  h.congr fun i h1 h2 => hm i (by omega)

/-- A text goes on with another where it ended. -/
theorem Holds.append (h : Holds m p s) (ht : Holds m' (p + s.length) t)
    (hm : ∀ i, p ≤ i → i < p + s.length → m' i = m i) : Holds m' p (s ++ t) := by
  induction s generalizing p with
  | nil => simpa using ht
  | cons c cs ih =>
    obtain ⟨hc, hp, hs⟩ := h
    have hlen : (c :: cs).length = cs.length + 1 := rfl
    refine ⟨hc, (hm p le_rfl (by omega)).trans hp, ih hs ?_ fun i h1 h2 => hm i (by omega) (by omega)⟩
    rwa [show p + 1 + cs.length = p + (c :: cs).length by omega]

theorem Holds.strlen_eq (h : Holds m p s) (hn : s.length ≤ n) : strlen m n p = s.length := by
  induction s generalizing p n with
  | nil =>
    cases n with
    | zero => rfl
    | succ n => exact if_pos h
  | cons c cs ih =>
    obtain ⟨hc, hp, hs⟩ := h
    cases n with
    | zero => simp at hn
    | succ n => rw [strlen, if_neg (hp ▸ hc), ih hs (by simpa using hn), List.length_cons]

theorem holds_put (hs : nul ∉ s) : Holds (put m p (s ++ [nul])) p s := by
  induction s generalizing m p with
  | nil => exact Function.update_self ..
  | cons c cs ih =>
    refine ⟨fun hc => hs (by simp [hc]), ?_, ih fun h => hs (List.mem_cons_of_mem _ h)⟩
    have hkept := sameOutside_put (Function.update m p c) (p + 1) (cs ++ [nul]) p (by omega)
    exact hkept.trans (Function.update_self ..)

/-! ### Copying -/

/-- A text is copied to a place it does not overlap. -/
theorem strcpy_spec (h : Holds m src s) (hn : s.length < n)
    (hd : src + s.length < dst ∨ dst + s.length < src) :
    Holds (strcpy n m dst src) dst s ∧
      SameOutside dst (dst + s.length + 1) m (strcpy n m dst src) := by
  induction s generalizing m dst src n with
  | nil =>
    cases n with
    | zero => simp at hn
    | succ n =>
      rw [strcpy, if_pos (show m src = nul from h)]
      exact ⟨Function.update_self .., sameOutside_update nul le_rfl (by simp)⟩
  | cons c cs ih =>
    obtain ⟨hc, hp, hs⟩ := h
    have hlen : (c :: cs).length = cs.length + 1 := rfl
    cases n with
    | zero => simp at hn
    | succ n =>
      rw [strcpy, if_neg (hp ▸ hc), hp]
      have hrest : Holds (Function.update m dst c) (src + 1) cs :=
        hs.congr fun i _ _ => sameOutside_update c le_rfl (Nat.lt_succ_self dst) i (by omega)
      obtain ⟨h1, h2⟩ := ih hrest (by omega : cs.length < n)
        (show _ < dst + 1 ∨ dst + 1 + _ < _ by omega)
      refine ⟨⟨hc, ?_, h1⟩, ?_⟩
      · exact (h2 dst (by omega)).trans (Function.update_self ..)
      · exact (sameOutside_update c le_rfl (by omega)).trans (h2.mono (by omega) (by omega))

/-- A text is appended to one it does not overlap, the room it needs included. -/
theorem strcat_spec (hs : Holds m dst s) (ht : Holds m src t) (hn : s.length + t.length < n)
    (hd : src + t.length < dst ∨ dst + s.length + t.length < src) :
    Holds (strcat n m dst src) dst (s ++ t) ∧
      SameOutside dst (dst + s.length + t.length + 1) m (strcat n m dst src) := by
  rw [strcat, hs.strlen_eq (by omega)]
  obtain ⟨h1, h2⟩ := strcpy_spec ht (by omega : t.length < n)
    (show _ < dst + s.length ∨ dst + s.length + _ < _ by omega)
  exact ⟨hs.append h1 fun i _ hi => h2 i (by omega), h2.mono (by omega) le_rfl⟩

theorem strcatLiteral_spec (hs : Holds m dst s) (ht : nul ∉ t) (hn : s.length ≤ n) :
    Holds (strcatLiteral n m dst t) dst (s ++ t) ∧
      SameOutside dst (dst + s.length + t.length + 1) m (strcatLiteral n m dst t) := by
  rw [strcatLiteral, hs.strlen_eq hn]
  have hsame := sameOutside_put m (dst + s.length) (t ++ [nul])
  have hlen : (t ++ [nul]).length = t.length + 1 := by simp
  exact ⟨hs.append (holds_put ht) fun i _ hi => hsame i (by omega),
    hsame.mono (by omega) (by omega)⟩

/-! ### Searching -/

theorem Holds.textAt_eq (h : Holds m p s) (hn : s.length ≤ n) : textAt m n p = s := by
  induction s generalizing p n with
  | nil =>
    cases n with
    | zero => rfl
    | succ n => exact if_pos h
  | cons c cs ih =>
    obtain ⟨hc, hp, hs⟩ := h
    cases n with
    | zero => simp at hn
    | succ n => rw [textAt, if_neg (hp ▸ hc), hp, ih hs (by simpa using hn)]

theorem Holds.right (h : Holds m p (s ++ t)) : Holds m (p + s.length) t := by
  induction s generalizing p with
  | nil => exact h
  | cons c cs ih =>
    rw [List.length_cons, Nat.add_comm cs.length, ← Nat.add_assoc]
    exact ih h.2.2

theorem Holds.head?_iff (h : Holds m p s) {c : Char} (hc : c ≠ nul) : m p = c ↔ s.head? = some c := by
  cases s with
  | nil => simp [show m p = nul from h, hc.symm]
  | cons a as => simp [h.2.1]

theorem Holds.getElem (h : Holds m p s) {i : ℕ} (hi : i < s.length) : m (p + i) = s[i] := by
  induction s generalizing p i with
  | nil => cases hi
  | cons c cs ih =>
    cases i with
    | zero => exact h.2.1
    | succ i =>
      rw [List.getElem_cons_succ, ← ih h.2.2 (by simpa using hi), Nat.add_right_comm]
      rfl

/-- A text is cut with a NUL. -/
theorem Holds.left (h : Holds m p (s ++ t)) :
    Holds (Function.update m (p + s.length) nul) p s := by
  induction s generalizing p with
  | nil => exact Function.update_self ..
  | cons c cs ih =>
    rw [List.length_cons, Nat.add_comm cs.length, ← Nat.add_assoc]
    exact ⟨h.1, (Function.update_of_ne (by omega) ..).trans h.2.1, ih h.2.2⟩

theorem Holds.startsWith_eq (h : Holds m p s) (ht : nul ∉ t) :
    startsWith m p t = (s.dropPrefix? t).isSome := by
  induction t generalizing p s with
  | nil => simp [startsWith]
  | cons b bs ih =>
    cases s with
    | nil =>
      have hb : nul ≠ b := fun hb => ht (by simp [hb])
      simp [startsWith, show m p = nul from h, hb, List.dropPrefix?]
    | cons c cs =>
      rw [startsWith, List.dropPrefix?, h.2.1, ih h.2.2 fun hm => ht (List.mem_cons_of_mem _ hm)]
      cases hcb : c == b <;> simp

/-- A literal is found where the text has it first. -/
theorem Holds.strstr_eq (h : Holds m p s) (ht : nul ∉ t) (hn : s.length < n) :
    strstr m n p t = (s.dropInfix? t).map fun q => p + q.1.length := by
  have hgo {n : ℕ} {s acc : List Char} (h : Holds m (p + acc.length) s) (hn : s.length < n) :
      strstr m n (p + acc.length) t = (List.dropInfix?.go t s acc).map fun q => p + q.1.length := by
    induction s generalizing acc n with
    | nil =>
      obtain ⟨n, rfl⟩ := Nat.exists_eq_add_one_of_ne_zero (show n ≠ 0 by omega)
      rw [strstr, h.startsWith_eq ht, if_pos (show m _ = nul from h), List.dropInfix?.go]
      cases t <;> simp [List.dropPrefix?]
    | cons c cs ih =>
      obtain ⟨n, rfl⟩ := Nat.exists_eq_add_one_of_ne_zero (show n ≠ 0 by omega)
      rw [strstr, h.startsWith_eq ht, List.dropInfix?.go]
      cases hd : (c :: cs).dropPrefix? t with
      | none =>
        have hrest : Holds m (p + (c :: acc).length) cs := h.2.2
        rw [Option.isSome_none, if_neg Bool.false_ne_true, if_neg (h.2.1 ▸ h.1)]
        exact ih hrest (by simpa using hn)
      | some r => simp
  have hstart : Holds m (p + ([] : List Char).length) s := h
  exact hgo hstart hn

end KurentoMediaServer.Foundations.CString
