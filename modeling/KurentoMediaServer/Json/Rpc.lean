import KurentoMediaServer.Json.Value

/-! What the server relies on in kms-jsonrpc's helpers: `JsonFixes::getString`
reads a string as itself and an integer as its decimal text, and
`JsonRpc::getValue` throws a `CallException` for a member that is absent or of
another type, and lets JsonCpp's exception through when the container is an array
or a scalar. -/

namespace KurentoMediaServer

open Foundations

/-- The prefix of a reference to the result of another operation. -/
def NEW_REF : String := "newref:"

/-- The parts of kms-jsonrpc and of kms-core's exceptions that are not in the
repository. The text of a value that is not a string is that of a JSON literal,
so it cannot be a reference. -/
structure JsonRpc where
  /-- `JsonFixes::getString`. -/
  getString : Json → String
  /-- The exception of `getValue` for a missing or ill-typed member. -/
  paramError : String → CallException
  errorType : ErrorCode → String
  getString_str : ∀ s, getString (.str s) = s
  getString_int : ∀ n, getString (.int n) = toString n
  getString_literal : ∀ v, (∀ s, v ≠ .str s) → ¬ NEW_REF.toList <+: (getString v).toList

namespace JsonRpc

variable (rpc : JsonRpc)

def kurentoException (code : ErrorCode) (message : String) : KurentoException :=
  ⟨code, message, rpc.errorType code⟩

/-- `JsonRpc::getValue` into a `Json::Value`. -/
def getValue (params : Json) (name : String) : Except Exc Json := do
  let ms ← params.members
  match Assoc.find name ms with
  | some v => pure v
  | none => throw (.call (rpc.paramError name))

/-- `JsonRpc::getValue` into a `std::string`. -/
def getStringValue (params : Json) (name : String) : Except Exc String := do
  let v ← rpc.getValue params name
  if v.isScalar then pure (rpc.getString v) else throw (.call (rpc.paramError name))

/-- `JsonRpc::getValue` into a `bool`. -/
def getBoolValue (params : Json) (name : String) : Except Exc Bool := do
  match ← rpc.getValue params name with
  | .bool b => pure b
  | _ => throw (.call (rpc.paramError name))

def getArray (params : Json) (name : String) : Except Exc Json := do
  let v ← rpc.getValue params name
  if v.isArray then pure v else throw (.call (rpc.paramError name))

/-- The text `getValue` reads from a member, if it reads one. -/
def text? (v : Json) (name : String) : Option String :=
  (v.member? name).bind fun m => if m.isScalar then some (rpc.getString m) else none

theorem text?_str {name : String} {v : Json} {s : String} (h : v.member? name = some (.str s)) :
    rpc.text? v name = some s := by
  simp [text?, h, Json.isScalar, rpc.getString_str]

theorem getValue_of_record {params : Json} (name : String) (h : params.isRecord = true) :
    rpc.getValue params name = match params.member? name with
      | some v => .ok v
      | none => .error (.call (rpc.paramError name)) := by
  rcases (Json.isRecord_iff params).mp h with rfl | ⟨ms, rfl⟩
  · rfl
  · simp only [getValue, Json.members_obj, Json.member?_obj, bind, Except.bind]
    cases Assoc.find name ms <;> rfl

theorem getValue_of_not_record {params : Json} (name : String) (h : params.isRecord = false) :
    rpc.getValue params name = .error .logicError := by
  simp [getValue, Json.members_of_not_isRecord h, bind, Except.bind]

theorem getValue_eq_ok {params v : Json} {name : String} :
    rpc.getValue params name = .ok v ↔ params.member? name = some v := by
  by_cases h : params.isRecord = true
  · rw [rpc.getValue_of_record name h]
    cases params.member? name <;> simp
  · rw [rpc.getValue_of_not_record name (by simpa using h)]
    simp only [reduceCtorEq, false_iff]
    exact fun hm => h (Json.isRecord_of_member? hm)

theorem getStringValue_of_record {params : Json} (name : String) (h : params.isRecord = true) :
    rpc.getStringValue params name = match rpc.text? params name with
      | some s => .ok s
      | none => .error (.call (rpc.paramError name)) := by
  simp only [getStringValue, rpc.getValue_of_record name h, text?]
  cases params.member? name with
  | none => rfl
  | some v =>
    simp only [bind, Except.bind, Option.bind_some]
    split_ifs <;> rfl

theorem getStringValue_of_not_record {params : Json} (name : String)
    (h : params.isRecord = false) : rpc.getStringValue params name = .error .logicError := by
  simp [getStringValue, rpc.getValue_of_not_record name h, bind, Except.bind]

theorem getStringValue_eq_ok {params : Json} {name s : String} :
    rpc.getStringValue params name = .ok s ↔ rpc.text? params name = some s := by
  by_cases h : params.isRecord = true
  · rw [rpc.getStringValue_of_record name h]
    cases rpc.text? params name <;> simp
  · have hr : params.isRecord = false := by simpa using h
    rw [rpc.getStringValue_of_not_record name hr]
    cases params <;> simp_all [text?, Json.member?, Json.isRecord]

end JsonRpc

/-- `Json::Reader::parse` and `Json::writeString` without indentation. -/
structure JsonText where
  parse : String → Option Json
  writeString : Json → String

/-! ### Instances -/

theorem mem_toString_int {n : ℤ} {c : Char} (h : c ∈ (toString n).toList) :
    c.isDigit = true ∨ c = '-' := by
  rw [Int.toString_eq_repr, Int.repr_eq_if] at h
  split at h
  · rw [Nat.toList_repr] at h
    exact Or.inl (Nat.isDigit_of_mem_toDigits (by decide) (by decide) h)
  · rw [String.toList_append, List.mem_append, Nat.toList_repr] at h
    rcases h with h | h
    · right; simpa using h
    · exact Or.inl (Nat.isDigit_of_mem_toDigits (by decide) (by decide) h)

theorem toString_int_not_ref (n : ℤ) : ¬ NEW_REF.toList <+: (toString n).toList := by
  intro h
  have hn : 'n' ∈ (toString n).toList := h.subset (by decide)
  rcases mem_toString_int hn with h | h <;> simp at h

/-- Literal texts, with a double shown by its numerator only. -/
def JsonRpc.plain : JsonRpc where
  getString
    | .str s => s
    | .int n => toString n
    | .real q => toString q.num
    | .bool b => if b then "true" else "false"
    | _ => ""
  paramError name := ⟨.invalidParams, name, .null⟩
  errorType _ := "UNDEFINED"
  getString_str _ := rfl
  getString_int _ := rfl
  getString_literal v hv := by
    cases v with
    | str s => exact absurd rfl (hv s)
    | int n => exact toString_int_not_ref n
    | real q => exact toString_int_not_ref q.num
    | bool b => cases b <;> decide
    | null | arr | obj => exact (by decide : ¬ NEW_REF.toList <+: "".toList)

mutual

/-- The text of a value whose strings need no escapes. -/
def Json.text : Json → String
  | .null => "null"
  | .bool b => if b then "true" else "false"
  | .int n => toString n
  | .real q => toString q.num
  | .str s => "\"" ++ s ++ "\""
  | .arr items => "[" ++ ",".intercalate (Json.itemTexts items) ++ "]"
  | .obj ms => "\x7b" ++ ",".intercalate (Json.memberTexts ms) ++ "\x7d"

def Json.itemTexts : List Json → List String
  | [] => []
  | v :: rest => v.text :: Json.itemTexts rest

def Json.memberTexts : List (String × Json) → List String
  | [] => []
  | (k, v) :: rest => ("\"" ++ k ++ "\":" ++ v.text) :: Json.memberTexts rest

end

/-- A reader of the texts of the given values. -/
def JsonText.ofValues (vs : List Json) : JsonText where
  parse s := vs.find? fun v => v.text = s
  writeString := Json.text

end KurentoMediaServer
