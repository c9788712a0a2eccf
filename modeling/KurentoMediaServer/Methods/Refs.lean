import KurentoMediaServer.Json.Rpc
import Mathlib.Data.List.TakeWhile

/-! `injectRefs`: references to results of earlier operations are replaced by
their values, at any depth. Reading a response by its index can make the array of
responses grow, but only on the way to an exception: when `injectRefs` returns it
has left the responses as they were, and what it does to the params depends on
nothing but the value, or the exception, each index resolves to. -/

namespace KurentoMediaServer.Methods

open Foundations

/-- What `std::isspace` accepts. -/
def isSpace (c : Char) : Bool := c ∈ [' ', '\t', '\n', '\x0b', '\x0c', '\x0d']

/-- The value of decimal digits. -/
def digitsValue (digits : List Char) : ℕ :=
  digits.foldl (fun n c => 10 * n + (c.toNat - '0'.toNat)) 0

/-- `std::stoi`: skips white space, reads a sign and digits and stops at the first
character that is not a digit. -/
def stoi (s : List Char) : Except Exc ℤ :=
  let s := s.dropWhile isSpace
  let (negative, s) := match s with
    | '-' :: rest => (true, rest)
    | '+' :: rest => (false, rest)
    | rest => (false, rest)
  let digits := s.takeWhile Char.isDigit
  if digits = [] then throw .invalidArgument
  else
    let n : ℤ := if negative then -digitsValue digits else digitsValue digits
    if -2 ^ 31 ≤ n ∧ n < 2 ^ 31 then pure n else throw .outOfRange

/-! ### Decimal digits -/

theorem isSpace_of_isDigit {c : Char} (h : c.isDigit = true) : isSpace c = false := by
  rw [Bool.eq_false_iff]
  intro hs
  simp only [isSpace, List.mem_cons, List.not_mem_nil, or_false, decide_eq_true_eq] at hs
  rcases hs with rfl | rfl | rfl | rfl | rfl | rfl <;> exact absurd h (by decide)

theorem isDigit_of_mem_toString {n : ℕ} {c : Char} (h : c ∈ (toString n).toList) :
    c.isDigit = true := by
  rw [Nat.toString_eq_repr, Nat.toList_repr] at h
  exact Nat.isDigit_of_mem_toDigits (by decide) (by decide) h

theorem toList_toString_ne_nil (n : ℕ) : (toString n).toList ≠ [] := by
  rw [Nat.toString_eq_repr, Nat.toList_repr]
  exact Nat.toDigits_ne_nil

theorem takeWhile_isDigit_toString (n : ℕ) :
    (toString n).toList.takeWhile Char.isDigit = (toString n).toList := by
  apply List.takeWhile_eq_self_iff.mpr
  exact fun c => isDigit_of_mem_toString

theorem digitsValue_toString (n : ℕ) : digitsValue (toString n).toList = n := by
  rw [Nat.toString_eq_repr, Nat.toList_repr]
  exact Nat.ofDigitChars_toDigits (by decide) (by decide)

theorem toString_injective {m n : ℕ} (h : toString m = toString n) : m = n := by
  rw [← digitsValue_toString m, h, digitsValue_toString]

section Inject
variable (rpc : JsonRpc)

/-- The exception for a malformed transaction. -/
def malformedTransaction (message : String) : Exc :=
  .call (rpc.kurentoException .malformedTransaction message).toCall

/-- `insertResult`: the value and the responses it leaves. -/
def insertResult (responses : Json) (index : ℤ) : Except Exc (Json × Json) := do
  let (response, responses) ← responses.elem index
  match rpc.getValue response "result" with
  | .ok result => return (← result.get "value", responses)
  | .error (.call _) =>
    throw (malformedTransaction rpc ("Result not found on request " ++ toString index))
  | .error e => throw e

/-- What follows `newref:` in a value whose text is a reference. -/
def refOf (v : Json) : Option (List Char) :=
  let param := (rpc.getString v).toList
  if NEW_REF.length < param.length ∧ NEW_REF.toList <+: param then
    some (param.drop NEW_REF.length)
  else none

/-- `injectRefs` on a value that is neither an object nor an array. -/
def injectLeaf (v responses : Json) : Except Exc (Json × Json) :=
  match refOf rpc v with
  | none => pure (v, responses)
  | some ref =>
    match stoi ref >>= insertResult rpc responses with
    | .error .invalidArgument =>
      throw (malformedTransaction rpc ("Invalid index of newref '" ++ String.ofList ref ++ "'"))
    | r => r

mutual

/-- `injectRefs`: the params and the responses it leaves. -/
def injectRefs (params responses : Json) : Except Exc (Json × Json) :=
  match params with
  | .arr items => do
    let (items, responses) ← injectItems items responses
    pure (.arr items, responses)
  | .obj ms => do
    let (ms, responses) ← injectMembers ms responses
    pure (.obj ms, responses)
  | v => injectLeaf rpc v responses

def injectItems (items : List Json) (responses : Json) : Except Exc (List Json × Json) :=
  match items with
  | [] => pure ([], responses)
  | v :: rest => do
    let (v, responses) ← injectRefs v responses
    let (rest, responses) ← injectItems rest responses
    pure (v :: rest, responses)

def injectMembers (ms : List (String × Json)) (responses : Json) :
    Except Exc (List (String × Json) × Json) :=
  match ms with
  | [] => pure ([], responses)
  | (k, v) :: rest => do
    let (v, responses) ← injectRefs v responses
    let (rest, responses) ← injectMembers rest responses
    pure ((k, v) :: rest, responses)

end

/-! ### The value of a reference -/

/-- The value the index of a response stands for. -/
def resolve (responses : Json) (index : ℤ) : Except Exc Json :=
  (insertResult rpc responses index).map Prod.fst

/-- The value of the result of a response. -/
def resultOf (index : ℤ) (response : Json) : Except Exc Json :=
  match rpc.getValue response "result" with
  | .ok result => result.get "value"
  | .error (.call _) =>
    throw (malformedTransaction rpc ("Result not found on request " ++ toString index))
  | .error e => throw e

theorem resolve_eq (responses : Json) (index : ℤ) :
    resolve rpc responses index = responses.elem index >>= fun r => resultOf rpc index r.1 := by
  unfold resolve insertResult resultOf
  rcases responses.elem index with e | ⟨response, responses'⟩
  · rfl
  · simp only [bind, Except.bind]
    rcases rpc.getValue response "result" with e | result
    · cases e <;> rfl
    · cases h : result.get "value" <;> simp [h, Except.map, pure, Except.pure]

/-- Reading an element leaves the value as it was, or reads null past its end. -/
theorem elem_eq_ok {v x v' : Json} {index : ℤ} (h : v.elem index = .ok (x, v')) :
    v' = v ∨ x = .null := by
  cases v with
  | null =>
    simp only [Json.elem] at h
    split_ifs at h
    simp_all
  | arr items =>
    simp only [Json.elem] at h
    split_ifs at h
    cases hx : items[index.toNat]? <;> simp_all
  | _ => simp [Json.elem] at h

/-- Inserting a result changes no response. -/
theorem insertResult_eq (responses : Json) (index : ℤ) :
    insertResult rpc responses index = (resolve rpc responses index).map (·, responses) := by
  unfold resolve insertResult
  rcases h : responses.elem index with e | ⟨response, responses'⟩
  · rfl
  · rcases elem_eq_ok h with rfl | rfl
    · simp only [bind, Except.bind]
      cases rpc.getValue response "result" with
      | ok result => cases h2 : result.get "value" <;> simp [h2, Except.map, pure, Except.pure]
      | error e => cases e <;> rfl
    · rfl

/-- What a leaf becomes, given what the indices stand for. -/
def substituteLeaf (value : ℤ → Except Exc Json) (v : Json) : Except Exc Json :=
  match refOf rpc v with
  | none => pure v
  | some ref =>
    match stoi ref >>= value with
    | .error .invalidArgument =>
      throw (malformedTransaction rpc ("Invalid index of newref '" ++ String.ofList ref ++ "'"))
    | r => r

mutual

/-- The params with every reference replaced. -/
def substitute (value : ℤ → Except Exc Json) (params : Json) : Except Exc Json :=
  match params with
  | .arr items => return .arr (← substituteItems value items)
  | .obj ms => return .obj (← substituteMembers value ms)
  | v => substituteLeaf rpc value v

def substituteItems (value : ℤ → Except Exc Json) (items : List Json) : Except Exc (List Json) :=
  match items with
  | [] => pure []
  | v :: rest => return (← substitute value v) :: (← substituteItems value rest)

def substituteMembers (value : ℤ → Except Exc Json) (ms : List (String × Json)) :
    Except Exc (List (String × Json)) :=
  match ms with
  | [] => pure []
  | (k, v) :: rest => return (k, ← substitute value v) :: (← substituteMembers value rest)

end

theorem injectLeaf_eq (v responses : Json) :
    injectLeaf rpc v responses =
      (substituteLeaf rpc (resolve rpc responses) v).map (·, responses) := by
  unfold injectLeaf substituteLeaf
  cases refOf rpc v with
  | none => rfl
  | some ref =>
    dsimp only
    cases stoi ref with
    | error e => cases e <;> rfl
    | ok index =>
      simp only [bind, Except.bind, insertResult_eq]
      cases resolve rpc responses index with
      | error e => cases e <;> rfl
      | ok value => rfl

mutual

/-- `injectRefs` replaces every reference by what its index resolves to and leaves
the responses alone. -/
theorem injectRefs_eq (params responses : Json) :
    injectRefs rpc params responses =
      (substitute rpc (resolve rpc responses) params).map (·, responses) := by
  cases params with
  | arr items =>
    simp only [injectRefs, substitute, injectItems_eq items responses, bind, Except.bind]
    cases substituteItems rpc (resolve rpc responses) items <;> rfl
  | obj ms =>
    simp only [injectRefs, substitute, injectMembers_eq ms responses, bind, Except.bind]
    cases substituteMembers rpc (resolve rpc responses) ms <;> rfl
  | _ => simp only [injectRefs, substitute, injectLeaf_eq]

theorem injectItems_eq (items : List Json) (responses : Json) :
    injectItems rpc items responses =
      (substituteItems rpc (resolve rpc responses) items).map (·, responses) := by
  cases items with
  | nil => rfl
  | cons v rest =>
    simp only [injectItems, substituteItems, injectRefs_eq v responses, bind, Except.bind]
    cases substitute rpc (resolve rpc responses) v with
    | error e => rfl
    | ok v =>
      simp only [Except.map, injectItems_eq rest responses]
      cases substituteItems rpc (resolve rpc responses) rest <;> rfl

theorem injectMembers_eq (ms : List (String × Json)) (responses : Json) :
    injectMembers rpc ms responses =
      (substituteMembers rpc (resolve rpc responses) ms).map (·, responses) := by
  cases ms with
  | nil => rfl
  | cons m rest =>
    simp only [injectMembers, substituteMembers, injectRefs_eq m.2 responses, bind, Except.bind]
    cases substitute rpc (resolve rpc responses) m.2 with
    | error e => rfl
    | ok v =>
      simp only [Except.map, injectMembers_eq rest responses]
      cases substituteMembers rpc (resolve rpc responses) rest <;> rfl

end

/-- A member of the params and what it becomes. -/
theorem find_substituteMembers {value : ℤ → Except Exc Json} {ms ms' : List (String × Json)}
    (h : substituteMembers rpc value ms = .ok ms') {key : String} {v : Json}
    (hv : Assoc.find key ms = some v) :
    ∃ v', substitute rpc value v = .ok v' ∧ Assoc.find key ms' = some v' := by
  induction ms generalizing ms' with
  | nil => cases hv
  | cons m rest ih =>
    simp only [substituteMembers, bind_eq_ok, pure, Except.pure, Except.ok.injEq] at h
    obtain ⟨x, hx, rest', hrest, rfl⟩ := h
    simp only [Assoc.find] at hv ⊢
    split_ifs at hv ⊢ with hk
    · cases hv
      exact ⟨x, hx, rfl⟩
    · exact ih hrest hv

/-! ### References that can be replaced -/

mutual

/-- Every reference in the value names an index with the given property. -/
def RefersTo (P : ℤ → Prop) (params : Json) : Prop :=
  match params with
  | .arr items => ItemsReferTo P items
  | .obj ms => MembersReferTo P ms
  | v => ∀ ref, refOf rpc v = some ref → ∃ index, stoi ref = .ok index ∧ P index

def ItemsReferTo (P : ℤ → Prop) (items : List Json) : Prop :=
  match items with
  | [] => True
  | v :: rest => RefersTo P v ∧ ItemsReferTo P rest

def MembersReferTo (P : ℤ → Prop) (ms : List (String × Json)) : Prop :=
  match ms with
  | [] => True
  | (_, v) :: rest => RefersTo P v ∧ MembersReferTo P rest

end

variable {rpc}

theorem MembersReferTo.find {P : ℤ → Prop} {ms : List (String × Json)}
    (h : MembersReferTo rpc P ms) {key : String} {v : Json} (hv : Assoc.find key ms = some v) :
    RefersTo rpc P v := by
  induction ms with
  | nil => cases hv
  | cons m rest ih =>
    simp only [Assoc.find] at hv
    split_ifs at hv
    · cases hv
      exact h.1
    · exact ih h.2 hv

theorem substituteLeaf_ok {value : ℤ → Except Exc Json} {P : ℤ → Prop} {v : Json}
    (hP : ∀ k, P k → ∃ x, value k = .ok x)
    (h : ∀ ref, refOf rpc v = some ref → ∃ index, stoi ref = .ok index ∧ P index) :
    ∃ x, substituteLeaf rpc value v = .ok x := by
  unfold substituteLeaf
  cases hr : refOf rpc v with
  | none => exact ⟨v, rfl⟩
  | some ref =>
    obtain ⟨index, hi, hp⟩ := h ref hr
    obtain ⟨x, hx⟩ := hP index hp
    exact ⟨x, by simp [hi, hx, bind, Except.bind]⟩

mutual

/-- Params whose references all resolve are replaced without an exception. -/
theorem substitute_ok {value : ℤ → Except Exc Json} {P : ℤ → Prop}
    (hP : ∀ k, P k → ∃ x, value k = .ok x) (params : Json) (h : RefersTo rpc P params) :
    ∃ x, substitute rpc value params = .ok x := by
  cases params with
  | arr items =>
    obtain ⟨xs, hxs⟩ := substituteItems_ok hP items h
    exact ⟨.arr xs, by simp only [substitute, hxs]; rfl⟩
  | obj ms =>
    obtain ⟨xs, hxs⟩ := substituteMembers_ok hP ms h
    exact ⟨.obj xs, by simp only [substitute, hxs]; rfl⟩
  | _ => exact substituteLeaf_ok hP h

theorem substituteItems_ok {value : ℤ → Except Exc Json} {P : ℤ → Prop}
    (hP : ∀ k, P k → ∃ x, value k = .ok x) (items : List Json) (h : ItemsReferTo rpc P items) :
    ∃ xs, substituteItems rpc value items = .ok xs := by
  cases items with
  | nil => exact ⟨[], rfl⟩
  | cons v rest =>
    obtain ⟨x, hx⟩ := substitute_ok hP v h.1
    obtain ⟨xs, hxs⟩ := substituteItems_ok hP rest h.2
    exact ⟨x :: xs, by simp only [substituteItems, hx, hxs]; rfl⟩

theorem substituteMembers_ok {value : ℤ → Except Exc Json} {P : ℤ → Prop}
    (hP : ∀ k, P k → ∃ x, value k = .ok x) (ms : List (String × Json))
    (h : MembersReferTo rpc P ms) : ∃ xs, substituteMembers rpc value ms = .ok xs := by
  cases ms with
  | nil => exact ⟨[], rfl⟩
  | cons m rest =>
    obtain ⟨x, hx⟩ := substitute_ok hP m.2 h.1
    obtain ⟨xs, hxs⟩ := substituteMembers_ok hP rest h.2
    exact ⟨(m.1, x) :: xs, by simp only [substituteMembers, hx, hxs]; rfl⟩

end

end Inject

end KurentoMediaServer.Methods
