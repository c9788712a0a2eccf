import KurentoMediaServer.Foundations.Assoc
import Mathlib.Algebra.Group.Int.Defs
import Mathlib.Algebra.Ring.Rat
import Mathlib.Data.String.Basic

/-! `Json::Value` and the exceptions of the server. Access by a string key
treats null as an empty object and throws on arrays and scalars; access by an
index treats null as an empty array. A number is an integer or, for a double, the
rational it denotes. -/

namespace KurentoMediaServer

open Foundations

/-- A JSON value; the members of an object stand in key order. -/
inductive Json where
  | null
  | bool (b : Bool)
  | int (n : ℤ)
  | real (q : ℚ)
  | str (s : String)
  | arr (items : List Json)
  | obj (members : List (String × Json))

/-- The error codes the server names itself; `other` is any further code. -/
inductive ErrorCode where
  | parseError | invalidParams
  | malformedTransaction | invalidSession | mediaObjectNotFound
  | mediaObjectEventNotSupported | notImplemented | notEnoughResources
  | other (code : ℤ)
  deriving DecidableEq

structure KurentoException where
  code : ErrorCode
  message : String
  type : String

/-- `JsonRpc::CallException`. -/
structure CallException where
  code : ErrorCode
  message : String
  data : Json

/-- What can be thrown. `logicError` is JsonCpp's, `invalidArgument` and
`outOfRange` come from `std::stoi`, `unknown` is any other exception type. -/
inductive Exc where
  | call (e : CallException)
  | kurento (e : KurentoException)
  | logicError
  | invalidArgument
  | outOfRange
  | badFunctionCall
  | unknown

/-- The exception built from a `KurentoException` for the client; its data
carry the type. -/
def KurentoException.toCall (e : KurentoException) : CallException :=
  ⟨e.code, e.message, .obj [("type", .str e.type)]⟩

/-- A computation that returns has done so at every step. -/
theorem bind_eq_ok {α β : Type} {x : Except Exc α} {f : α → Except Exc β} {b : β} :
    (x >>= f) = .ok b ↔ ∃ a, x = .ok a ∧ f a = .ok b := by
  cases x <;> simp [bind, Except.bind]

namespace Json

def isNull : Json → Bool
  | .null => true
  | _ => false

def isObject : Json → Bool
  | .obj _ => true
  | _ => false

def isArray : Json → Bool
  | .arr _ => true
  | _ => false

/-! ### Access by key -/

/-- The members seen by string-key access. -/
def members : Json → Except Exc (List (String × Json))
  | .null => .ok []
  | .obj ms => .ok ms
  | _ => .error .logicError

def isMember (v : Json) (key : String) : Except Exc Bool :=
  v.members.map fun ms => (Assoc.find key ms).isSome

/-- `v[key]` as a value; an absent member reads as null. -/
def get (v : Json) (key : String) : Except Exc Json :=
  v.members.map fun ms => (Assoc.find key ms).getD .null

/-- `v[key] = x`. -/
def set (v : Json) (key : String) (x : Json) : Except Exc Json :=
  v.members.map fun ms => .obj (Assoc.put key x ms)

/-- A member, if `v` is an object that has it. -/
def member? (v : Json) (key : String) : Option Json :=
  match v with
  | .obj ms => Assoc.find key ms
  | _ => none

/-- The object with the given members assigned in turn. -/
def object (ms : List (String × Json)) : Json :=
  .obj (ms.foldl (fun acc m => Assoc.put m.1 m.2 acc) [])

@[simp] theorem members_null : members .null = .ok [] := rfl

@[simp] theorem members_obj (ms : List (String × Json)) : members (.obj ms) = .ok ms := rfl

@[simp] theorem isMember_obj (key : String) (ms : List (String × Json)) :
    isMember (.obj ms) key = .ok (Assoc.find key ms).isSome := rfl

@[simp] theorem get_obj (key : String) (ms : List (String × Json)) :
    get (.obj ms) key = .ok ((Assoc.find key ms).getD .null) := rfl

@[simp] theorem set_obj (key : String) (x : Json) (ms : List (String × Json)) :
    set (.obj ms) key x = .ok (.obj (Assoc.put key x ms)) := rfl

@[simp] theorem set_null (key : String) (x : Json) : set .null key x = .ok (.obj [(key, x)]) := rfl

@[simp] theorem member?_null (key : String) : member? .null key = none := rfl

@[simp] theorem member?_obj (key : String) (ms : List (String × Json)) :
    member? (.obj ms) key = Assoc.find key ms := rfl

/-- Key access works exactly on null and on objects. -/
def isRecord : Json → Bool
  | .null | .obj _ => true
  | _ => false

theorem isRecord_iff (v : Json) : v.isRecord = true ↔ v = .null ∨ ∃ ms, v = .obj ms := by
  cases v <;> simp [isRecord]

theorem set_of_record {v : Json} (key : String) (x : Json) (h : v.isRecord = true) :
    v.set key x = .ok (.obj (Assoc.put key x (v.members.toOption.getD []))) := by
  rcases (isRecord_iff v).mp h with rfl | ⟨ms, rfl⟩ <;> rfl

theorem isRecord_of_isObject {v : Json} (h : v.isObject = true) : v.isRecord = true := by
  cases v <;> simp_all [isObject, isRecord]

theorem isRecord_of_member? {v x : Json} {key : String} (h : v.member? key = some x) :
    v.isRecord = true := by
  cases v <;> simp_all [member?, isRecord]

theorem members_of_not_isRecord {v : Json} (h : v.isRecord = false) :
    v.members = .error .logicError := by
  cases v <;> simp_all [isRecord, members]

/-! ### Access by index -/

/-- `v[index]` through the non-const operator: the element, and the array, which
grows up to the index when it was shorter. -/
def elem (v : Json) (index : ℤ) : Except Exc (Json × Json) :=
  match v with
  | .null =>
    if index < 0 then .error .logicError
    else .ok (.null, .arr (List.replicate (index.toNat + 1) .null))
  | .arr items =>
    if index < 0 then .error .logicError
    else match items[index.toNat]? with
      | some x => .ok (x, .arr items)
      | none => .ok (.null,
          .arr (items ++ List.replicate (index.toNat + 1 - items.length) .null))
  | _ => .error .logicError

/-- `v[index] = x` for a non-negative index. -/
def setElem (v : Json) (index : ℕ) (x : Json) : Except Exc Json :=
  match v with
  | .null => .ok (.arr (List.replicate index Json.null ++ [x]))
  | .arr items =>
    .ok (.arr (List.set (items ++ List.replicate (index + 1 - items.length) Json.null) index x))
  | _ => .error .logicError

theorem setElem_length (x : Json) (items : List Json) :
    setElem (.arr items) items.length x = .ok (.arr (items ++ [x])) := by
  simp [setElem]

/-! ### Conversions -/

/-- `isConvertibleTo (stringValue)`. -/
def isScalar : Json → Bool
  | .arr _ | .obj _ => false
  | _ => true

/-- `isConvertibleTo (uintValue)`. -/
def isConvertibleToUInt : Json → Bool
  | .null | .bool _ => true
  | .int n => 0 ≤ n ∧ n < 2 ^ 32
  | .real q => 0 ≤ q ∧ q ≤ 2 ^ 32 - 1
  | _ => false

/-- `asUInt` of a convertible value; a double is truncated. -/
def asUInt : Json → ℕ
  | .bool true => 1
  | .int n => n.toNat
  | .real q => (q.num / q.den).toNat
  | _ => 0

theorem isConvertibleToUInt_int (n : ℕ) (h : n < 2 ^ 32) :
    isConvertibleToUInt (.int n) = true := by
  simp only [isConvertibleToUInt, decide_eq_true_eq]
  omega

end Json

end KurentoMediaServer
