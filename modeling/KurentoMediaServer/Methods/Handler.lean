import KurentoMediaServer.Methods.Process
import KurentoMediaServer.Methods.Transaction

/-! `handler.process` with the hooks of `ServerMethods`. A request that passes the
protocol check is answered from the cache if `preProcess` finds it there; otherwise
its method is run and `postProcess` records the response. The transaction method
calls the handler again, so its definition follows the depth of that nesting. -/

namespace KurentoMediaServer.Methods

open Foundations Cache

/-! ### Values that differ in their id -/

/-- Two objects that are the same once their ids are. -/
def SameButId (v w : Json) : Prop :=
  ∃ ms ns, v = .obj ms ∧ w = .obj ns ∧ ∀ x, Assoc.put "id" x ms = Assoc.put "id" x ns

/-- A request with an id that is neither null nor a container. -/
def Identified (r : Json) : Prop :=
  ∃ v, r.member? "id" = some v ∧ v.isScalar = true ∧ v.isNull = false

theorem SameButId.refl (ms : List (String × Json)) : SameButId (.obj ms) (.obj ms) :=
  ⟨ms, ms, rfl, rfl, fun _ => rfl⟩

theorem SameButId.symm {v w : Json} (h : SameButId v w) : SameButId w v := by
  obtain ⟨ms, ns, rfl, rfl, h⟩ := h
  exact ⟨ns, ms, rfl, rfl, fun x => (h x).symm⟩

theorem SameButId.trans {v w u : Json} (h : SameButId v w) (g : SameButId w u) : SameButId v u := by
  obtain ⟨ms, ns, rfl, rfl, h⟩ := h
  obtain ⟨ns', os, hn, rfl, g⟩ := g
  obtain rfl : ns = ns' := by simpa using hn
  exact ⟨ms, os, rfl, rfl, fun x => (h x).trans (g x)⟩

theorem sameButId_put (x : Json) (ms : List (String × Json)) :
    SameButId (.obj (Assoc.put "id" x ms)) (.obj ms) :=
  ⟨_, _, rfl, rfl, fun y => by rw [Assoc.put_put]⟩

theorem SameButId.isObject {v w : Json} (h : SameButId v w) : v.isObject = true := by
  obtain ⟨ms, ns, rfl, -⟩ := h
  rfl

theorem Identified.sameButId {r : Json} (h : Identified r) : SameButId r r := by
  obtain ⟨v, hv, -⟩ := h
  cases r <;> first | exact SameButId.refl _ | simp [Json.member?] at hv

theorem SameButId.member? {v w : Json} (h : SameButId v w) {k : String} (hk : k ≠ "id") :
    v.member? k = w.member? k := by
  obtain ⟨ms, ns, rfl, rfl, h⟩ := h
  have h1 := Assoc.find_put_of_ne hk Json.null ms
  have h2 := Assoc.find_put_of_ne hk Json.null ns
  rw [Json.member?_obj, Json.member?_obj, ← h1, ← h2, h]

/-! ### kms-jsonrpc's handler -/

/-- What kms-jsonrpc's `Handler` does itself, with what the server relies on: it
lets only objects through, its responses echo the id and depend on nothing else of
it, a result stands under `result`, an error under `error`. -/
structure RpcHandler where
  /-- The response to a request that breaks the protocol. -/
  checkProtocol : Json → Option Json
  /-- The response with the result of a method. -/
  success : Json → Json → Json
  /-- The response to a method that throws, and to an unknown one. -/
  failure : Json → Exc → Json
  /-- What `process` returns with a response of `preProcess`. -/
  cachedRet : Json → Bool
  batch : List (Bool × Json) → Bool × Json
  protocol_object : ∀ r, checkProtocol r = none → r.isObject = true
  protocol_error : ∀ r v, checkProtocol r = some v → v.isRecord = true ∧ v.member? "result" = none
  protocol_id : ∀ r r', SameButId r r' → Identified r → Identified r' →
    (checkProtocol r = none ∧ checkProtocol r' = none) ∨
      ∃ v v', checkProtocol r = some v ∧ checkProtocol r' = some v' ∧ SameButId v v'
  success_id : ∀ r r' result, SameButId r r' → Identified r → Identified r' →
    SameButId (success r result) (success r' result)
  failure_id : ∀ r r' e, SameButId r r' → Identified r → Identified r' →
    SameButId (failure r e) (failure r' e)
  success_result : ∀ r result, Identified r →
    (success r result).member? "result" = some result ∧ (success r result).member? "error" = none
  failure_error : ∀ r e, Identified r → (failure r e).member? "result" = none ∧
    ((failure r e).member? "error").isSome = true
  notification : ∀ r result e, ¬ Identified r →
    ((success r result).isNull = true ∨ (success r result).member? "result" = some result) ∧
    (failure r e).isRecord = true ∧ (failure r e).member? "result" = none

namespace RpcHandler

variable (jsonrpc : RpcHandler) {r : Json}

theorem success_object (h : Identified r) (result : Json) : (jsonrpc.success r result).isObject = true :=
  (jsonrpc.success_id r r result h.sameButId h h).isObject

theorem failure_object (h : Identified r) (e : Exc) : (jsonrpc.failure r e).isObject = true :=
  (jsonrpc.failure_id r r e h.sameButId h h).isObject

theorem checkProtocol_object (h : Identified r) {v : Json} (hv : jsonrpc.checkProtocol r = some v) :
    v.isObject = true := by
  rcases jsonrpc.protocol_id r r h.sameButId h h with ⟨hn, -⟩ | ⟨v', v'', hv', -, hs⟩
  · simp [hn] at hv
  · obtain rfl : v' = v := by simpa [hv'] using hv
    exact hs.isObject

/-- Every object is a request, and the only thing checked. -/
def plain : RpcHandler where
  checkProtocol r := if r.isObject then none else some (.obj [("error", .str "Invalid request")])
  success r result :=
    match r.member? "id" with
    | none | some .null | some (.arr _) | some (.obj _) => .null
    | some id => .obj [("id", id), ("jsonrpc", .str "2.0"), ("result", result)]
  failure r e :=
    .obj [("error", .str (match e with | .call e => e.message | _ => "Unexpected error")),
      ("id", (r.member? "id").getD .null), ("jsonrpc", .str "2.0")]
  cachedRet _ := true
  batch responses := (responses.all Prod.fst, .arr (responses.map Prod.snd))
  protocol_object r h := by
    by_contra hr
    simp [hr] at h
  protocol_error r v h := by
    split_ifs at h
    cases h
    exact ⟨rfl, rfl⟩
  protocol_id r r' h _ _ := by simp [h.isObject, h.symm.isObject]
  success_id r r' result _ h h' := by
    obtain ⟨v, hv, hs, hn⟩ := h
    obtain ⟨v', hv', hs', hn'⟩ := h'
    rw [hv, hv']
    cases v <;> cases v' <;> simp_all [Json.isScalar, Json.isNull, SameButId, Assoc.put]
  failure_id r r' e _ _ _ := ⟨_, _, rfl, rfl, fun _ => rfl⟩
  success_result r result h := by
    obtain ⟨v, hv, hs, hn⟩ := h
    rw [hv]
    cases v <;> simp_all [Json.isScalar, Json.isNull, Assoc.find]
  failure_error r e _ := by simp [Assoc.find]
  notification r result e h := by
    refine ⟨?_, rfl, by simp [Assoc.find]⟩
    cases hv : r.member? "id" with
    | none => exact Or.inl rfl
    | some v => cases v <;> first | exact Or.inl rfl | exact absurd ⟨_, hv, rfl, rfl⟩ h

end RpcHandler

variable {σ : Type} (rpc : JsonRpc) (core : Core σ) (jsonrpc : RpcHandler)

/-! ### The hooks -/

/-- The session and the request id `preProcess` looks up. -/
def preKey (request : Json) : Except Exc (String × String) := do
  let requestId ← rpc.getStringValue request "id"
  let params ← rpc.getValue request "params"
  let sessionId ← rpc.getStringValue params "sessionId"
  return (sessionId, requestId)

/-- `ServerMethods::preProcess`: the cached response, if there is one. Whatever is
thrown, the request goes on. -/
def preProcess (cache : RequestCache) (request : Json) : Option Json :=
  match preKey rpc request with
  | .ok (sessionId, requestId) => cache.getCachedResponse sessionId requestId
  | .error _ => none

/-- The session `postProcess` stores a response under: that of the result, or that
of the params. -/
def postSession (request response : Json) : Except Exc String :=
  match (do rpc.getStringValue (← rpc.getValue response "result") "sessionId") with
  | .error (.call _) => do rpc.getStringValue (← rpc.getValue request "params") "sessionId"
  | r => r

def postKey (request response : Json) : Except Exc (String × String) := do
  let requestId ← rpc.getStringValue request "id"
  let sessionId ← postSession rpc request response
  return (sessionId, requestId)

def postProcess (cache : RequestCache) (request response : Json) : Except Exc RequestCache :=
  match postKey rpc request response with
  | .error (.call _) => pure cache
  | .error e => throw e
  | .ok (sessionId, requestId) =>
    match cache.getCachedResponse sessionId requestId with
    | some _ => pure cache
    | none => pure (cache.addResponse sessionId requestId response)

/-! ### Requests -/

abbrev MethodRun (σ : Type) := Json → Server σ → Option (Except Exc Json × Server σ)

/-- The methods added to the handler, given the handler a transaction calls. -/
def dispatch (handler : Json → Server σ → Option ((Bool × Json) × Server σ)) (name : String) :
    MethodRun σ := fun params st =>
  if name = "transaction" then transaction rpc core handler params st
  else match method rpc core name with
    | some m =>
      let (result, media, drawn) := m params st.media st.drawn
      some (result, { st with media, drawn })
    | none => some (.error (.call ⟨.other (-32601), "Method not found.", .null⟩), st)

/-- The response to a method that has returned or thrown. -/
def respond (request : Json) (result : Except Exc Json) : Bool × Json :=
  match result with
  | .ok result => (true, jsonrpc.success request result)
  | .error e => (false, jsonrpc.failure request e)

/-- The end of a request: `postProcess` and the answer. An exception of
`postProcess`, which takes params that are an array or a scalar, is answered like one
of the method. -/
def finish (request : Json) (answer : Bool × Json) (st : Server σ) : (Bool × Json) × Server σ :=
  match postProcess rpc st.cache request answer.2 with
  | .ok cache => (answer, { st with cache })
  | .error e => ((false, jsonrpc.failure request e), st)

def call (methods : String → MethodRun σ) (request : Json) (st : Server σ) :
    Option ((Bool × Json) × Server σ) :=
  match jsonrpc.checkProtocol request with
  | some response => some ((false, response), st)
  | none =>
    match preProcess rpc st.cache request with
    | some response => some ((jsonrpc.cachedRet response, response), st)
    | none =>
      (methods ((rpc.text? request "method").getD "") (paramsOf request) st).map fun r =>
        finish rpc jsonrpc request (respond jsonrpc request r.1) r.2

def callAll (methods : String → MethodRun σ) :
    List Json → Server σ → Option (List (Bool × Json) × Server σ)
  | [], st => some ([], st)
  | request :: rest, st =>
    match call rpc jsonrpc methods request st with
    | none => none
    | some (response, st) => (callAll methods rest st).map fun r => (response :: r.1, r.2)

/-- `handler.process`, for transactions nested less than `depth` deep. -/
def handlerProcess : ℕ → Json → Server σ → Option ((Bool × Json) × Server σ)
  | 0, _, _ => none
  | depth + 1, .arr requests, st =>
    (callAll rpc jsonrpc (dispatch rpc core (handlerProcess depth)) requests st).map
      fun r => (jsonrpc.batch r.1, r.2)
  | depth + 1, request, st => call rpc jsonrpc (dispatch rpc core (handlerProcess depth)) request st

/-! ### The keys -/

/-- The session a response shows in its result. -/
def resultSession (response : Json) : Option String :=
  (response.member? "result").bind (rpc.text? · "sessionId")

section Keys
variable {rpc}

theorem preKey_eq_ok {r : Json} {s rid : String} :
    preKey rpc r = .ok (s, rid) ↔ rpc.text? r "id" = some rid ∧ paramsSession rpc r = some s := by
  simp only [preKey, bind_eq_ok, rpc.getStringValue_eq_ok, rpc.getValue_eq_ok, paramsSession,
    Option.bind_eq_some_iff, pure, Except.pure, Except.ok.injEq, Prod.mk.injEq]
  constructor
  · rintro ⟨rid', h1, p, h2, s', h3, rfl, rfl⟩
    exact ⟨h1, p, h2, h3⟩
  · rintro ⟨h1, p, h2, h3⟩
    exact ⟨rid, h1, p, h2, s, h3, rfl, rfl⟩

theorem preProcess_eq_some {cache : RequestCache} {r resp : Json} :
    preProcess rpc cache r = some resp ↔ ∃ s rid, rpc.text? r "id" = some rid ∧
      paramsSession rpc r = some s ∧ cache.getCachedResponse s rid = some resp := by
  unfold preProcess
  rcases h : preKey rpc r with e | ⟨s, rid⟩
  · simp only [reduceCtorEq, false_iff]
    rintro ⟨s, rid, h1, h2, -⟩
    rw [preKey_eq_ok.mpr ⟨h1, h2⟩] at h
    cases h
  · obtain ⟨h1, h2⟩ := preKey_eq_ok.mp h
    simp [h1, h2]

theorem preProcess_of_key (cache : RequestCache) {v : Json} {s rid : String}
    (hid : rpc.text? v "id" = some rid) (hs : paramsSession rpc v = some s) :
    preProcess rpc cache v = cache.getCachedResponse s rid := by
  refine Option.ext fun resp => ?_
  rw [preProcess_eq_some]
  simp [hid, hs]

theorem postKey_id {r resp : Json} {s rid : String} (h : postKey rpc r resp = .ok (s, rid)) :
    rpc.text? r "id" = some rid := by
  simp only [postKey, bind_eq_ok, rpc.getStringValue_eq_ok, pure, Except.pure, Except.ok.injEq,
    Prod.mk.injEq] at h
  obtain ⟨rid', h1, s', -, -, rfl⟩ := h
  exact h1

/-- Only objects and null have a key: reading the result of anything else throws what
`postProcess` does not catch. -/
theorem isRecord_of_postKey {r resp : Json} {k : String × String} (h : postKey rpc r resp = .ok k) :
    resp.isRecord = true := by
  by_contra hresp
  have hsession : postSession rpc r resp = .error .logicError := by
    simp [postSession, rpc.getValue_of_not_record "result" (by simpa using hresp), bind, Except.bind]
  simp only [postKey, hsession, bind_eq_ok] at h
  obtain ⟨_, _, _, h, _⟩ := h
  cases h

/-- The key of a response: the session is the one its result shows, or else that of
the params. -/
theorem postKey_eq_ok {r resp : Json} (hresp : resp.isRecord = true)
    (hresult : ∀ v, resp.member? "result" = some v → v.isRecord = true) {s rid : String} :
    postKey rpc r resp = .ok (s, rid) ↔ rpc.text? r "id" = some rid ∧
      (resultSession rpc resp).orElse (fun _ => paramsSession rpc r) = some s := by
  have hparams : ∀ s, (do rpc.getStringValue (← rpc.getValue r "params") "sessionId") = .ok s ↔
      paramsSession rpc r = some s := fun s => by
    simp only [bind_eq_ok, rpc.getValue_eq_ok, rpc.getStringValue_eq_ok, paramsSession,
      Option.bind_eq_some_iff]
  have hsession : ∀ s, postSession rpc r resp = .ok s ↔
      (resultSession rpc resp).orElse (fun _ => paramsSession rpc r) = some s := fun s => by
    unfold postSession resultSession
    rw [rpc.getValue_of_record "result" hresp]
    cases hm : resp.member? "result" with
    | none => simpa [bind, Except.bind] using hparams s
    | some v =>
      simp only [bind, Except.bind, Option.bind_some,
        rpc.getStringValue_of_record "sessionId" (hresult v hm)]
      cases rpc.text? v "sessionId" with
      | none => simpa [bind, Except.bind] using hparams s
      | some s' => simp
  simp only [postKey, bind_eq_ok, rpc.getStringValue_eq_ok, hsession, pure, Except.pure,
    Except.ok.injEq, Prod.mk.injEq]
  constructor
  · rintro ⟨rid', h1, s', h2, rfl, rfl⟩
    exact ⟨h1, h2⟩
  · rintro ⟨h1, h2⟩
    exact ⟨rid, h1, s, h2, rfl, rfl⟩

end Keys

end KurentoMediaServer.Methods
