import KurentoMediaServer.Methods.Refs

/-! Which references `injectRefs` replaces, by what, and how it fails. It ends at the
first reference that has no value, in the order it visits them. A reference has one
when `std::stoi` reads an index from it and the result of that operation is an
object or null; the value is then the member of that name, or null if there is none.
Not every other reference is answered with MALFORMED_TRANSACTION: an index below
zero or beyond an int makes another exception escape. -/

namespace KurentoMediaServer.Methods

open Foundations

variable {rpc : JsonRpc}

/-! ### The references of a value -/

/-- What follows `newref:` in a string that is longer and starts with it. -/
def strRef (s : String) : Option (List Char) :=
  if NEW_REF.length < s.toList.length ∧ NEW_REF.toList <+: s.toList then
    some (s.toList.drop NEW_REF.length)
  else none

/-- Only strings are references. -/
theorem refOf_eq (v : Json) : refOf rpc v = match v with
    | .str s => strRef s
    | _ => none := by
  cases v with
  | str s => simp [refOf, strRef, rpc.getString_str]
  | _ =>
    unfold refOf
    rw [if_neg]
    exact fun h => rpc.getString_literal _ (by simp) h.2

mutual

/-- The references in a value, in the order they are visited. -/
def refs : Json → List (List Char)
  | .str s => (strRef s).toList
  | .arr items => itemRefs items
  | .obj ms => memberRefs ms
  | _ => []

def itemRefs : List Json → List (List Char)
  | [] => []
  | v :: rest => refs v ++ itemRefs rest

def memberRefs : List (String × Json) → List (List Char)
  | [] => []
  | (_, v) :: rest => refs v ++ memberRefs rest

end

/-- What a reference is replaced by, given what the indices stand for. -/
def refValue (rpc : JsonRpc) (value : ℤ → Except Exc Json) (ref : List Char) : Except Exc Json :=
  match stoi ref >>= value with
  | .error .invalidArgument =>
    throw (malformedTransaction rpc ("Invalid index of newref '" ++ String.ofList ref ++ "'"))
  | r => r

theorem substituteLeaf_eq (value : ℤ → Except Exc Json) (v : Json) :
    substituteLeaf rpc value v = match refOf rpc v with
      | none => .ok v
      | some ref => refValue rpc value ref := rfl

/-- A pass over the references that ends at the first without a value. -/
def checkRefs (rpc : JsonRpc) (value : ℤ → Except Exc Json) (rs : List (List Char)) :
    Except Exc Unit := rs.forM fun ref => (refValue rpc value ref).map fun _ => ()

theorem checkRefs_append (value : ℤ → Except Exc Json) (rs rs' : List (List Char)) :
    checkRefs rpc value (rs ++ rs') = (do checkRefs rpc value rs; checkRefs rpc value rs') :=
  List.forM_append

section Outcome
variable (rpc)

mutual

/-- Substitution ends as the pass over the references does. -/
theorem substitute_outcome (value : ℤ → Except Exc Json) (params : Json) :
    (substitute rpc value params).map (fun _ => ()) = checkRefs rpc value (refs params) := by
  cases params with
  | str s =>
    simp only [substitute, substituteLeaf_eq, refOf_eq, refs]
    cases strRef s with
    | none => rfl
    | some ref =>
      cases h : refValue rpc value ref <;>
        simp [checkRefs, h, Except.map, bind, Except.bind, pure, Except.pure]
  | arr items =>
    simp only [substitute, refs, ← substituteItems_outcome value items]
    cases substituteItems rpc value items <;> rfl
  | obj ms =>
    simp only [substitute, refs, ← substituteMembers_outcome value ms]
    cases substituteMembers rpc value ms <;> rfl
  | _ => simp only [substitute, substituteLeaf_eq, refOf_eq, refs]; rfl

theorem substituteItems_outcome (value : ℤ → Except Exc Json) (items : List Json) :
    (substituteItems rpc value items).map (fun _ => ()) = checkRefs rpc value (itemRefs items) := by
  cases items with
  | nil => rfl
  | cons v rest =>
    simp only [substituteItems, itemRefs, checkRefs_append, ← substitute_outcome value v,
      ← substituteItems_outcome value rest]
    cases substitute rpc value v with
    | error e => rfl
    | ok v => cases substituteItems rpc value rest <;> rfl

theorem substituteMembers_outcome (value : ℤ → Except Exc Json) (ms : List (String × Json)) :
    (substituteMembers rpc value ms).map (fun _ => ()) = checkRefs rpc value (memberRefs ms) := by
  cases ms with
  | nil => rfl
  | cons m rest =>
    simp only [substituteMembers, memberRefs, checkRefs_append, ← substitute_outcome value m.2,
      ← substituteMembers_outcome value rest]
    cases substitute rpc value m.2 with
    | error e => rfl
    | ok v => cases substituteMembers rpc value rest <;> rfl

end

end Outcome

theorem checkRefs_eq_ok {value : ℤ → Except Exc Json} {rs : List (List Char)} :
    checkRefs rpc value rs = .ok () ↔ ∀ ref ∈ rs, ∃ v, refValue rpc value ref = .ok v := by
  induction rs with
  | nil => simp [checkRefs, pure, Except.pure]
  | cons ref rest ih =>
    simp only [List.forall_mem_cons, ← ih]
    cases h : refValue rpc value ref <;> simp [checkRefs, h, Except.map, bind, Except.bind]

/-- The exception is that of the first reference without a value. -/
theorem checkRefs_eq_error {value : ℤ → Except Exc Json} {rs : List (List Char)} {e : Exc} :
    checkRefs rpc value rs = .error e ↔ ∃ pre ref post, rs = pre ++ ref :: post ∧
      (∀ r ∈ pre, ∃ v, refValue rpc value r = .ok v) ∧ refValue rpc value ref = .error e := by
  constructor
  · intro h
    induction rs with
    | nil => cases h
    | cons ref rest ih =>
      cases hr : refValue rpc value ref with
      | error e' =>
        obtain rfl : e' = e := by simpa [checkRefs, hr, Except.map, bind, Except.bind] using h
        exact ⟨[], ref, rest, rfl, by simp, hr⟩
      | ok v =>
        have hrest : checkRefs rpc value rest = .error e := by
          simpa [checkRefs, hr, Except.map, bind, Except.bind] using h
        obtain ⟨pre, ref', post, rfl, hpre, he⟩ := ih hrest
        exact ⟨ref :: pre, ref', post, rfl, List.forall_mem_cons.mpr ⟨⟨v, hr⟩, hpre⟩, he⟩
  · rintro ⟨pre, ref, post, rfl, hpre, he⟩
    rw [checkRefs_append, checkRefs_eq_ok.mpr hpre]
    simp [checkRefs, he, Except.map, bind, Except.bind]

/-! ### Indices -/

/-- The exceptions of `std::stoi`. -/
theorem stoi_error {s : List Char} {e : Exc} (h : stoi s = .error e) :
    e = .invalidArgument ∨ e = .outOfRange := by
  simp only [stoi] at h
  split_ifs at h <;> cases h <;> simp

/-- The digits of a number are read back, if it is an int. -/
theorem stoi_toString (n : ℕ) :
    stoi (toString n).toList = if n < 2 ^ 31 then .ok ↑n else .error .outOfRange := by
  have htake := takeWhile_isDigit_toString n
  have hvalue := digitsValue_toString n
  obtain ⟨c, rest, hc⟩ := List.exists_cons_of_ne_nil (toList_toString_ne_nil n)
  have hcd : c.isDigit = true := isDigit_of_mem_toString (hc ▸ List.mem_cons_self)
  have hspace : isSpace c = false := isSpace_of_isDigit hcd
  have hminus : c ≠ '-' := by rintro rfl; simp at hcd
  have hplus : c ≠ '+' := by rintro rfl; simp at hcd
  rw [hc] at htake hvalue ⊢
  simp only [stoi, List.dropWhile_cons, hspace, Bool.false_eq_true, ↓reduceIte]
  split
  · next h => exact absurd (List.cons.inj h).1 hminus
  · next h => exact absurd (List.cons.inj h).1 hplus
  · simp only [htake, hvalue, reduceCtorEq, ↓reduceIte, Bool.false_eq_true]
    split_ifs <;> first | rfl | omega

/-! ### What a reference stands for -/

/-- The value of `responses` after operations with the given responses; it is null
before the first. -/
def HoldsResponses (rs : List Json) (responses : Json) : Prop :=
  responses = .arr rs ∨ (responses = .null ∧ rs = [])

/-- The result of the operation a reference names. -/
def namedResult (rs : List Json) (ref : List Char) : Option Json :=
  match stoi ref with
  | .ok index => if 0 ≤ index then rs[index.toNat]?.bind (·.member? "result") else none
  | .error _ => none

/-- A reference that has a value. -/
def Accepted (rs : List Json) (ref : List Char) : Prop :=
  ∃ result, namedResult rs ref = some result ∧ result.isRecord = true

/-- A reference that is answered with MALFORMED_TRANSACTION: it is no number, or one
that is not negative and names no response with a result. -/
def Rejected (rs : List Json) (ref : List Char) : Prop :=
  stoi ref = .error .invalidArgument ∨ ∃ index, stoi ref = .ok index ∧ 0 ≤ index ∧
    ∀ response, rs[index.toNat]? = some response →
      response.isRecord = true ∧ response.member? "result" = none

/-- Before the first response no reference has a value. -/
theorem not_accepted_nil (ref : List Char) : ¬ Accepted [] ref := by
  rintro ⟨result, hn, -⟩
  unfold namedResult at hn
  cases hi : stoi ref <;> simp [hi] at hn

section Resolve
variable {rs : List Json} {responses : Json} {ref : List Char}

/-- Reading a response goes by its index, and past the last it reads null. -/
theorem resolve_of_holds (h : HoldsResponses rs responses) (index : ℤ) :
    resolve rpc responses index =
      if index < 0 then .error .logicError else
      match rs[index.toNat]? with
      | some response => resultOf rpc index response
      | none => .error
          (malformedTransaction rpc ("Result not found on request " ++ toString index)) := by
  rw [resolve_eq]
  rcases h with rfl | ⟨rfl, rfl⟩
  · simp only [Json.elem]
    split_ifs
    · rfl
    · cases rs[index.toNat]? <;> rfl
  · simp only [Json.elem, List.getElem?_nil]
    split_ifs <;> rfl

/-- The value of the result of a response that is an object or null. -/
theorem resultOf_of_record {response : Json} (index : ℤ) (h : response.isRecord = true) :
    resultOf rpc index response = match response.member? "result" with
      | some result => result.get "value"
      | none => .error
          (malformedTransaction rpc ("Result not found on request " ++ toString index)) := by
  rw [resultOf, rpc.getValue_of_record "result" h]
  cases response.member? "result" <;> rfl

theorem get_of_record {v : Json} (key : String) (h : v.isRecord = true) :
    v.get key = .ok ((v.member? key).getD .null) := by
  rcases (Json.isRecord_iff v).mp h with rfl | ⟨ms, rfl⟩ <;> rfl

theorem get_of_not_record {v : Json} (key : String) (h : v.isRecord = false) :
    v.get key = .error .logicError := by
  rw [Json.get, Json.members_of_not_isRecord h]
  rfl

/-- The value of a reference is the member `value` of the result it names, or null
where there is none. -/
theorem refValue_of_accepted (h : HoldsResponses rs responses) {result : Json}
    (hn : namedResult rs ref = some result) (hr : result.isRecord = true) :
    refValue rpc (resolve rpc responses) ref = .ok ((result.member? "value").getD .null) := by
  unfold namedResult at hn
  cases hi : stoi ref with
  | error e => simp [hi] at hn
  | ok index =>
    simp only [hi] at hn
    split_ifs at hn with hpos
    obtain ⟨response, hresponse, hresult⟩ := Option.bind_eq_some_iff.mp hn
    have hvalue : resolve rpc responses index = .ok ((result.member? "value").getD .null) := by
      rw [resolve_of_holds h, if_neg (not_lt.mpr hpos), hresponse]
      dsimp only
      rw [resultOf_of_record index (Json.isRecord_of_member? hresult), hresult]
      exact get_of_record "value" hr
    simp only [refValue, hi, bind, Except.bind, hvalue]

/-- An index has a value, or is answered with MALFORMED_TRANSACTION, or makes JsonCpp's
exception escape. -/
theorem resolve_cases (h : HoldsResponses rs responses) {index : ℤ} (hi : stoi ref = .ok index) :
    (Accepted rs ref ∧ ∃ v, resolve rpc responses index = .ok v) ∨
    (Rejected rs ref ∧ ∃ message, resolve rpc responses index =
      .error (malformedTransaction rpc message)) ∨
    (¬ Accepted rs ref ∧ ¬ Rejected rs ref ∧ resolve rpc responses index = .error .logicError) := by
  have hnamed : namedResult rs ref =
      if 0 ≤ index then rs[index.toNat]?.bind (·.member? "result") else none := by
    simp only [namedResult, hi]
  have hrejected : Rejected rs ref ↔ 0 ≤ index ∧ ∀ response, rs[index.toNat]? = some response →
      response.isRecord = true ∧ response.member? "result" = none := by
    simp [Rejected, hi]
  rw [resolve_of_holds h, Accepted, hnamed, hrejected]
  by_cases hpos : 0 ≤ index
  · rw [if_neg (not_lt.mpr hpos)]
    simp only [hpos, ↓reduceIte, true_and]
    cases hresponse : rs[index.toNat]? with
    | none => exact Or.inr (Or.inl ⟨by simp, _, rfl⟩)
    | some response =>
      simp only [Option.bind_some, Option.some.injEq, forall_eq']
      by_cases hr : response.isRecord = true
      · rw [resultOf_of_record index hr]
        cases hresult : response.member? "result" with
        | none => exact Or.inr (Or.inl ⟨⟨hr, rfl⟩, _, rfl⟩)
        | some result =>
          simp only [Option.some.injEq, exists_eq_left']
          by_cases hrr : result.isRecord = true
          · exact Or.inl ⟨hrr, _, get_of_record "value" hrr⟩
          · exact Or.inr (Or.inr ⟨hrr, by simp, get_of_not_record "value" (by simpa using hrr)⟩)
      · have hr' : response.isRecord = false := by simpa using hr
        refine Or.inr (Or.inr ⟨?_, by simp [hr], ?_⟩)
        · rintro ⟨result, hresult, -⟩
          exact hr (Json.isRecord_of_member? hresult)
        · rw [resultOf, rpc.getValue_of_not_record "result" hr']
          rfl
  · rw [if_pos (not_le.mp hpos)]
    exact Or.inr (Or.inr ⟨by simp [hpos], by simp [hpos], rfl⟩)

variable (rpc) in
/-- The same for a reference: what `std::stoi` cannot read is malformed, and an index
beyond an int makes another exception escape. -/
theorem refValue_cases (h : HoldsResponses rs responses) (ref : List Char) :
    (Accepted rs ref ∧ ∃ v, refValue rpc (resolve rpc responses) ref = .ok v) ∨
    (Rejected rs ref ∧ ∃ message, refValue rpc (resolve rpc responses) ref =
      .error (malformedTransaction rpc message)) ∨
    (¬ Accepted rs ref ∧ ¬ Rejected rs ref ∧
      ∃ e, refValue rpc (resolve rpc responses) ref = .error e ∧ ∀ c, e ≠ .call c) := by
  cases hi : stoi ref with
  | error e =>
    have hno : ¬ Accepted rs ref := by
      rintro ⟨result, hn, -⟩
      simp [namedResult, hi] at hn
    rcases stoi_error hi with rfl | rfl
    · exact Or.inr (Or.inl ⟨Or.inl hi, _, by simp only [refValue, hi, bind, Except.bind]; rfl⟩)
    · refine Or.inr (Or.inr ⟨hno, ?_, .outOfRange, by simp [refValue, hi, bind, Except.bind], by simp⟩)
      rintro (hbad | ⟨index, hok, -⟩)
      · simp [hi] at hbad
      · simp [hi] at hok
  | ok index =>
    have hvalue : ∀ r, resolve rpc responses index = r → r ≠ .error .invalidArgument →
        refValue rpc (resolve rpc responses) ref = r := by
      rintro r rfl hr
      simp only [refValue, hi, bind, Except.bind]
    rcases resolve_cases h hi with ⟨hacc, v, hv⟩ | ⟨hrej, message, hm⟩ | ⟨hacc, hrej, he⟩
    · exact Or.inl ⟨hacc, v, hvalue _ hv (by simp)⟩
    · exact Or.inr (Or.inl ⟨hrej, message, hvalue _ hm (by simp [malformedTransaction])⟩)
    · exact Or.inr (Or.inr ⟨hacc, hrej, .logicError, hvalue _ he (by simp), by simp⟩)

variable (rpc) in
theorem refValue_ok_iff (h : HoldsResponses rs responses) (ref : List Char) :
    (∃ v, refValue rpc (resolve rpc responses) ref = .ok v) ↔ Accepted rs ref := by
  rcases refValue_cases rpc h ref with ⟨hacc, hv⟩ | ⟨hrej, message, hm⟩ | ⟨hacc, -, e, he, -⟩
  · exact iff_of_true hv hacc
  · refine iff_of_false (by simp [hm]) ?_
    rintro ⟨result, hn, hr⟩
    simp [refValue_of_accepted h hn hr] at hm
  · exact iff_of_false (by simp [he]) hacc

/-- A rejected reference has no value. -/
theorem Rejected.not_accepted (h : Rejected rs ref) : ¬ Accepted rs ref := by
  rintro ⟨result, hn, hr⟩
  unfold namedResult at hn
  rcases h with hbad | ⟨index, hi, hpos, hnone⟩
  · simp [hbad] at hn
  · simp only [hi, hpos, ↓reduceIte] at hn
    obtain ⟨response, hresponse, hresult⟩ := Option.bind_eq_some_iff.mp hn
    simp [(hnone response hresponse).2] at hresult

variable (rpc) in
/-- `injectRefs` returns when every reference has a value, and otherwise ends with the
exception of the first that has none. -/
theorem injectRefs_ok_iff (h : HoldsResponses rs responses) (params : Json) :
    (∃ r, injectRefs rpc params responses = .ok r) ↔ ∀ ref ∈ refs params, Accepted rs ref := by
  have hout := substitute_outcome rpc (resolve rpc responses) params
  have hok : checkRefs rpc (resolve rpc responses) (refs params) = .ok () ↔ _ := checkRefs_eq_ok
  rw [injectRefs_eq]
  simp only [← refValue_ok_iff rpc h, ← hok, ← hout]
  cases substitute rpc (resolve rpc responses) params <;> simp [Except.map]

variable (rpc) in
theorem injectRefs_error_iff (h : HoldsResponses rs responses) (params : Json) (e : Exc) :
    injectRefs rpc params responses = .error e ↔ ∃ pre ref post, refs params = pre ++ ref :: post ∧
      (∀ r ∈ pre, Accepted rs r) ∧ refValue rpc (resolve rpc responses) ref = .error e := by
  have hout := substitute_outcome rpc (resolve rpc responses) params
  have herr : checkRefs rpc (resolve rpc responses) (refs params) = .error e ↔ _ :=
    checkRefs_eq_error
  rw [injectRefs_eq]
  simp only [refValue_ok_iff rpc h] at herr
  rw [← herr, ← hout]
  cases substitute rpc (resolve rpc responses) params <;> simp [Except.map]

end Resolve

end KurentoMediaServer.Methods
