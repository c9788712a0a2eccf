import KurentoMediaServer.Methods.References

/-! What `injectRefs` returns, and what it throws. When it returns, the params have kept
their shape, every reference is replaced by the value of the result it names and
nothing else has changed; a result without a value is replaced by null. When it throws,
it is the exception of the first reference that cannot be replaced, and that is not
always MALFORMED_TRANSACTION. -/

namespace KurentoMediaServer.Methods

open Foundations

variable {rpc : JsonRpc}

/-! ### The shape of the params -/

mutual

/-- The second value is the first with each reference replaced by one the relation
allows and everything else kept. What is put in is not looked into. -/
def Rewritten (R : List Char → Json → Prop) (v v' : Json) : Prop :=
  match v with
  | .str s => match strRef s with
    | some ref => R ref v'
    | none => v' = .str s
  | .arr items => ∃ items', v' = .arr items' ∧ ItemsRewritten R items items'
  | .obj ms => ∃ ms', v' = .obj ms' ∧ MembersRewritten R ms ms'
  | v => v' = v

def ItemsRewritten (R : List Char → Json → Prop) (items items' : List Json) : Prop :=
  match items, items' with
  | [], [] => True
  | v :: rest, v' :: rest' => Rewritten R v v' ∧ ItemsRewritten R rest rest'
  | _, _ => False

def MembersRewritten (R : List Char → Json → Prop) (ms ms' : List (String × Json)) : Prop :=
  match ms, ms' with
  | [], [] => True
  | (k, v) :: rest, (k', v') :: rest' => k' = k ∧ Rewritten R v v' ∧ MembersRewritten R rest rest'
  | _, _ => False

end

section Shape
variable {R R' : List Char → Json → Prop}

mutual

theorem Rewritten.imp {v v' : Json} (h : Rewritten R v v')
    (himp : ∀ ref ∈ refs v, ∀ x, R ref x → R' ref x) : Rewritten R' v v' := by
  cases v with
  | str s =>
    simp only [Rewritten, refs] at h himp ⊢
    cases hr : strRef s with
    | none => simpa [hr] using h
    | some ref =>
      simp only [hr] at h ⊢
      exact himp ref (by simp [hr]) v' h
  | arr items =>
    obtain ⟨items', rfl, hitems⟩ := h
    exact ⟨items', rfl, hitems.imp himp⟩
  | obj ms =>
    obtain ⟨ms', rfl, hms⟩ := h
    exact ⟨ms', rfl, hms.imp himp⟩
  | _ => exact h

theorem ItemsRewritten.imp {items items' : List Json} (h : ItemsRewritten R items items')
    (himp : ∀ ref ∈ itemRefs items, ∀ x, R ref x → R' ref x) : ItemsRewritten R' items items' := by
  cases items with
  | nil => cases items' <;> exact h
  | cons v rest =>
    cases items' with
    | nil => exact h
    | cons v' rest' =>
      simp only [itemRefs, List.mem_append] at himp
      exact ⟨h.1.imp fun ref hr => himp ref (Or.inl hr), h.2.imp fun ref hr => himp ref (Or.inr hr)⟩

theorem MembersRewritten.imp {ms ms' : List (String × Json)} (h : MembersRewritten R ms ms')
    (himp : ∀ ref ∈ memberRefs ms, ∀ x, R ref x → R' ref x) : MembersRewritten R' ms ms' := by
  cases ms with
  | nil => cases ms' <;> exact h
  | cons m rest =>
    cases ms' with
    | nil => exact h
    | cons m' rest' =>
      simp only [memberRefs, List.mem_append] at himp
      exact ⟨h.1, h.2.1.imp fun ref hr => himp ref (Or.inl hr),
        h.2.2.imp fun ref hr => himp ref (Or.inr hr)⟩

end

mutual

/-- Every reference has been replaced by something. -/
theorem Rewritten.exists {v v' : Json} (h : Rewritten R v v') : ∀ ref ∈ refs v, ∃ x, R ref x := by
  cases v with
  | str s =>
    simp only [Rewritten, refs] at h ⊢
    cases hr : strRef s with
    | none => simp
    | some ref =>
      simp only [hr] at h
      simpa using ⟨v', h⟩
  | arr items =>
    obtain ⟨items', rfl, hitems⟩ := h
    exact hitems.exists
  | obj ms =>
    obtain ⟨ms', rfl, hms⟩ := h
    exact hms.exists
  | _ => simp [refs]

theorem ItemsRewritten.exists {items items' : List Json} (h : ItemsRewritten R items items') :
    ∀ ref ∈ itemRefs items, ∃ x, R ref x := by
  cases items with
  | nil => simp [itemRefs]
  | cons v rest =>
    cases items' with
    | nil => exact h.elim
    | cons v' rest' =>
      intro ref hr
      rcases List.mem_append.mp hr with hr | hr
      · exact h.1.exists ref hr
      · exact h.2.exists ref hr

theorem MembersRewritten.exists {ms ms' : List (String × Json)} (h : MembersRewritten R ms ms') :
    ∀ ref ∈ memberRefs ms, ∃ x, R ref x := by
  cases ms with
  | nil => simp [memberRefs]
  | cons m rest =>
    cases ms' with
    | nil => exact h.elim
    | cons m' rest' =>
      intro ref hr
      rcases List.mem_append.mp hr with hr | hr
      · exact h.2.1.exists ref hr
      · exact h.2.2.exists ref hr

end

end Shape

mutual

/-- Substitution keeps the shape and gives each reference its value. -/
theorem substitute_rewritten {value : ℤ → Except Exc Json} {params params' : Json}
    (h : substitute rpc value params = .ok params') :
    Rewritten (fun ref v => refValue rpc value ref = .ok v) params params' := by
  cases params with
  | str s =>
    simp only [substitute, substituteLeaf_eq, refOf_eq] at h
    simp only [Rewritten]
    cases hr : strRef s with
    | none => simpa [hr, eq_comm] using h
    | some ref => simpa [hr] using h
  | arr items =>
    simp only [substitute, bind_eq_ok, pure, Except.pure, Except.ok.injEq] at h
    obtain ⟨items', hitems, rfl⟩ := h
    exact ⟨items', rfl, substituteItems_rewritten hitems⟩
  | obj ms =>
    simp only [substitute, bind_eq_ok, pure, Except.pure, Except.ok.injEq] at h
    obtain ⟨ms', hms, rfl⟩ := h
    exact ⟨ms', rfl, substituteMembers_rewritten hms⟩
  | _ =>
    simp only [substitute, substituteLeaf_eq, refOf_eq, Except.ok.injEq] at h
    exact h.symm

theorem substituteItems_rewritten {value : ℤ → Except Exc Json} {items items' : List Json}
    (h : substituteItems rpc value items = .ok items') :
    ItemsRewritten (fun ref v => refValue rpc value ref = .ok v) items items' := by
  cases items with
  | nil =>
    obtain rfl : [] = items' := by simpa [substituteItems, pure, Except.pure] using h
    trivial
  | cons v rest =>
    simp only [substituteItems, bind_eq_ok, pure, Except.pure, Except.ok.injEq] at h
    obtain ⟨v', hv, rest', hrest, rfl⟩ := h
    exact ⟨substitute_rewritten hv, substituteItems_rewritten hrest⟩

theorem substituteMembers_rewritten {value : ℤ → Except Exc Json}
    {ms ms' : List (String × Json)} (h : substituteMembers rpc value ms = .ok ms') :
    MembersRewritten (fun ref v => refValue rpc value ref = .ok v) ms ms' := by
  cases ms with
  | nil =>
    obtain rfl : [] = ms' := by simpa [substituteMembers, pure, Except.pure] using h
    trivial
  | cons m rest =>
    simp only [substituteMembers, bind_eq_ok, pure, Except.pure, Except.ok.injEq] at h
    obtain ⟨v', hv, rest', hrest, rfl⟩ := h
    exact ⟨rfl, substitute_rewritten hv, substituteMembers_rewritten hrest⟩

end

/-! ### What is returned -/

section Exact
variable {rs : List Json} {responses params : Json} {ref : List Char}

/-- The value is the member `value` of the result of the response a reference names. -/
def NamedValue (rs : List Json) (ref : List Char) (v : Json) : Prop :=
  ∃ k : ℤ, stoi ref = .ok k ∧ 0 ≤ k ∧ k < rs.length ∧ ∃ response result,
    rs[k.toNat]? = some response ∧ response.member? "result" = some result ∧
      result.member? "value" = some v

theorem NamedValue.result {v : Json} (h : NamedValue rs ref v) :
    ∃ result, namedResult rs ref = some result ∧ result.member? "value" = some v := by
  obtain ⟨k, hk, hpos, -, response, result, hresponse, hresult, hv⟩ := h
  refine ⟨result, ?_, hv⟩
  simp only [namedResult, hk, hpos, ↓reduceIte, hresponse]
  exact hresult

/-- When `injectRefs` returns it has left the responses alone, and each reference is
replaced by the value of an object or null, read as null where that has no value. -/
theorem injectRefs_rewritten (h : HoldsResponses rs responses) {params' responses' : Json}
    (hok : injectRefs rpc params responses = .ok (params', responses')) :
    responses' = responses ∧ Rewritten (fun ref v => ∃ result, namedResult rs ref = some result ∧
      result.isRecord = true ∧ v = (result.member? "value").getD .null) params params' := by
  have hall := (injectRefs_ok_iff rpc h params).mp ⟨_, hok⟩
  rw [injectRefs_eq] at hok
  cases hs : substitute rpc (resolve rpc responses) params with
  | error e => simp [hs, Except.map] at hok
  | ok p =>
    obtain ⟨rfl, rfl⟩ : p = params' ∧ responses = responses' := by
      simpa [hs, Except.map] using hok
    refine ⟨rfl, (substitute_rewritten hs).imp fun ref href v hv => ?_⟩
    obtain ⟨result, hn, hr⟩ := hall ref href
    rw [refValue_of_accepted h hn hr] at hv
    exact ⟨result, hn, hr, (Except.ok.inj hv).symm⟩

/-- Whenever `injectRefs` returns, every reference has been replaced by exactly the
value it names, and neither the rest of the params nor the responses have changed. -/
def ReplacesExactly (rpc : JsonRpc) (rs : List Json) (params responses : Json) : Prop :=
  ∀ params' responses', injectRefs rpc params responses = .ok (params', responses') →
    responses' = responses ∧ Rewritten (NamedValue rs) params params'

/-- That is so unless every reference can be replaced and one of them names a result
without a value. -/
theorem replaces_exactly_iff (h : HoldsResponses rs responses) (params : Json) :
    ReplacesExactly rpc rs params responses ↔
      ((∀ ref ∈ refs params, Accepted rs ref) → ∀ ref ∈ refs params, ∃ v, NamedValue rs ref v) := by
  constructor
  · intro hexact hall
    obtain ⟨⟨params', responses'⟩, hok⟩ := (injectRefs_ok_iff rpc h params).mpr hall
    exact (hexact params' responses' hok).2.exists
  · intro hvalues params' responses' hok
    have hall := (injectRefs_ok_iff rpc h params).mp ⟨_, hok⟩
    obtain ⟨hsame, hrw⟩ := injectRefs_rewritten h hok
    refine ⟨hsame, hrw.imp fun ref href v hv => ?_⟩
    obtain ⟨x, hx⟩ := hvalues hall ref href
    obtain ⟨result, hn, -, rfl⟩ := hv
    obtain ⟨result', hn', hvalue⟩ := hx.result
    obtain rfl : result = result' := by simpa [hn] using hn'
    rw [hvalue]
    exact hx

theorem replaces_exactly_iff_create :
    let rs := [Json.obj [("id", .int 0), ("result", .obj [("value", .str "newref:7")])]]
    ReplacesExactly JsonRpc.plain rs (.obj [("object", .str "newref:0")]) (.arr rs) := by
  intro rs
  refine (replaces_exactly_iff (Or.inl rfl) _).mpr fun _ ref href => ?_
  obtain rfl : ref = ['0'] := List.mem_singleton.mp href
  exact ⟨.str "newref:7", 0, rfl, le_rfl, by decide, _, _, rfl, rfl, rfl⟩

/-- A reference to an operation that returns no value, such as a release, becomes null. -/
theorem not_replaces_exactly :
    let rs := [Json.obj [("id", .int 0), ("result", .obj [("sessionId", .str "s")])]]
    injectRefs JsonRpc.plain (.str "newref:0") (.arr rs) = .ok (.null, .arr rs) ∧
      ¬ ReplacesExactly JsonRpc.plain rs (.str "newref:0") (.arr rs) := by
  intro rs
  have hok : injectRefs JsonRpc.plain (.str "newref:0") (.arr rs) = .ok (.null, .arr rs) := rfl
  refine ⟨hok, fun h => ?_⟩
  obtain ⟨-, hrw⟩ := h _ _ hok
  obtain ⟨k, hk, -, -, response, result, hresponse, hresult, hvalue⟩ :
      NamedValue rs ['0'] .null := hrw
  obtain rfl : 0 = k := Except.ok.inj hk
  obtain rfl := Option.some.inj hresponse
  obtain rfl := Option.some.inj hresult
  cases hvalue

/-! ### What is thrown -/

/-- The reference is exactly the decimal digits of the index of an operation executed
before whose response has a result with a value. -/
def ExactRef (rs : List Json) (ref : List Char) : Prop :=
  ∃ (i : ℕ) (response result value : Json), ref = (toString i).toList ∧ rs[i]? = some response ∧
    response.member? "result" = some result ∧ result.member? "value" = some value

/-- `injectRefs` returns exactly when every reference is well formed, and otherwise
throws a `CallException` with code MALFORMED_TRANSACTION. -/
def RejectsMalformed (rpc : JsonRpc) (rs : List Json) (params responses : Json) : Prop :=
  ((∃ r, injectRefs rpc params responses = .ok r) ↔ ∀ ref ∈ refs params, ExactRef rs ref) ∧
  ∀ e, injectRefs rpc params responses = .error e →
    ∃ c, e = .call c ∧ c.code = .malformedTransaction

/-- A well-formed reference is read as its index or not at all. -/
theorem ExactRef.not_rejected (h : ExactRef rs ref) : ¬ Rejected rs ref := by
  obtain ⟨i, response, result, value, rfl, hresponse, hresult, -⟩ := h
  rw [Rejected, stoi_toString]
  split_ifs
  · rintro (hbad | ⟨k, hk, -, hnone⟩)
    · cases hbad
    · cases hk
      simp [(hnone response hresponse).2] at hresult
  · rintro (hbad | ⟨k, hk, -⟩)
    · cases hbad
    · cases hk

/-- That is so when, in the order they are visited, the first reference without a value
is one that is rejected, or when there is none and all are well formed. -/
theorem rejects_malformed_iff (h : HoldsResponses rs responses) (params : Json) :
    RejectsMalformed rpc rs params responses ↔
      (∃ pre ref post, refs params = pre ++ ref :: post ∧ (∀ r ∈ pre, Accepted rs r) ∧
        Rejected rs ref) ∨ ∀ ref ∈ refs params, Accepted rs ref ∧ ExactRef rs ref := by
  have hok := injectRefs_ok_iff rpc h params
  have herror := injectRefs_error_iff rpc h params
  constructor
  · rintro ⟨hreturns, hthrows⟩
    cases hr : injectRefs rpc params responses with
    | ok r =>
      have hall := hok.mp ⟨r, hr⟩
      exact Or.inr fun ref href => ⟨hall ref href, hreturns.mp ⟨r, hr⟩ ref href⟩
    | error e =>
      obtain ⟨c, rfl, -⟩ := hthrows e hr
      obtain ⟨pre, ref, post, hrefs, hpre, hvalue⟩ := (herror _).mp hr
      refine Or.inl ⟨pre, ref, post, hrefs, hpre, ?_⟩
      rcases refValue_cases rpc h ref with ⟨-, v, hv⟩ | ⟨hrej, -⟩ | ⟨-, -, e, he, hcall⟩
      · simp [hv] at hvalue
      · exact hrej
      · rw [he] at hvalue
        exact absurd (Except.error.inj hvalue) (hcall c)
  · rintro (⟨pre, ref, post, hrefs, hpre, hrej⟩ | hall)
    · have hmem : ref ∈ refs params := by simp [hrefs]
      obtain ⟨message, hvalue⟩ : ∃ message, refValue rpc (resolve rpc responses) ref =
          .error (malformedTransaction rpc message) := by
        rcases refValue_cases rpc h ref with ⟨hacc, -⟩ | ⟨-, hm⟩ | ⟨-, hno, -⟩
        · exact absurd hacc hrej.not_accepted
        · exact hm
        · exact absurd hrej hno
      have hr := (herror _).mpr ⟨pre, ref, post, hrefs, hpre, hvalue⟩
      refine ⟨iff_of_false (by simp [hr]) fun hwf => (hwf ref hmem).not_rejected hrej, fun e he => ?_⟩
      rw [hr] at he
      cases he
      exact ⟨_, rfl, rfl⟩
    · obtain ⟨r, hr⟩ := hok.mpr fun ref href => (hall ref href).1
      refine ⟨iff_of_true ⟨r, hr⟩ fun ref href => (hall ref href).2, fun e he => ?_⟩
      rw [hr] at he
      cases he

theorem rejects_malformed_iff_unknown :
    RejectsMalformed JsonRpc.plain [] (.arr [.int 3, .str "newref:x"]) .null :=
  (rejects_malformed_iff (Or.inr ⟨rfl, rfl⟩) _).mpr
    (Or.inl ⟨[], ['x'], [], rfl, by simp, Or.inl rfl⟩)

/-- An index below zero and one beyond an int make other exceptions escape, and what
follows the digits is ignored. -/
theorem not_rejects_malformed :
    let rs := [Json.obj [("id", .int 0), ("result", .obj [("value", .str "object")])]]
    injectRefs JsonRpc.plain (.str "newref:-1") (.arr rs) = .error .logicError ∧
    injectRefs JsonRpc.plain (.str "newref:2147483648") (.arr rs) = .error .outOfRange ∧
    injectRefs JsonRpc.plain (.str "newref:0x") (.arr rs) = .ok (.str "object", .arr rs) ∧
    ¬ RejectsMalformed JsonRpc.plain rs (.str "newref:-1") (.arr rs) ∧
    ¬ RejectsMalformed JsonRpc.plain rs (.str "newref:2147483648") (.arr rs) ∧
    ¬ RejectsMalformed JsonRpc.plain rs (.str "newref:0x") (.arr rs) := by
  intro rs
  have hnegative : injectRefs JsonRpc.plain (.str "newref:-1") (.arr rs) = .error .logicError := rfl
  have hlarge : injectRefs JsonRpc.plain (.str "newref:2147483648") (.arr rs) =
      .error .outOfRange := rfl
  have htrailing : injectRefs JsonRpc.plain (.str "newref:0x") (.arr rs) =
      .ok (.str "object", .arr rs) := rfl
  refine ⟨hnegative, hlarge, htrailing, fun h => ?_, fun h => ?_, fun h => ?_⟩
  · obtain ⟨c, hc, -⟩ := h.2 _ hnegative
    cases hc
  · obtain ⟨c, hc, -⟩ := h.2 _ hlarge
    cases hc
  · obtain ⟨i, -, -, -, hdigits, -⟩ := h.1.mp ⟨_, htrailing⟩ ['0', 'x'] (by decide)
    have hx : 'x' ∈ (toString i).toList := hdigits ▸ (by decide)
    exact absurd (isDigit_of_mem_toString hx) (by decide)

end Exact

end KurentoMediaServer.Methods
