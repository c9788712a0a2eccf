import KurentoMediaServer.Json.Rpc

/-! `ServerMethods::process`: parse a request, give it the session of the
connection when it has none of its own, hand it to `handler.process`, read the
session of the response and serialise it. -/

namespace KurentoMediaServer.Methods

open Foundations

variable {σ : Type}

/-- The C++ interface `Processor` as the transport uses it. `process` takes the
request and the session of the channel and gives the response and the session of
the request; it may fail to return when the handler does. -/
structure Processor (σ : Type) where
  process : String → String → σ → Option (Except Exc (String × String) × σ)
  keepAliveSession : String → σ → Except Exc Unit × σ

section Session
variable (rpc : JsonRpc)

def getSessionId (resp : Json) : Except Exc String := do
  -- a response that is an error has no session
  if ← resp.isMember "error" then pure ""
  else
    let result ← rpc.getValue resp "result"
    rpc.getStringValue result "sessionId"

/-- `injectSessionId`. Reading `req["params"]` throws on an array or a scalar, and
so does looking for the session in params that are one; only a `CallException`
leads to the injection. -/
def injectSessionId (req : Json) (sessionId : String) : Except Exc Json := do
  let params ← req.get "params"
  match rpc.getStringValue params "sessionId" with
  | .ok _ => pure req
  | .error (.call _) =>
    let params ← params.set "sessionId" (.str sessionId)
    req.set "params" params
  | .error e => throw e

/-- `ServerMethods::process` over the given `handler.process`. -/
def process (text : JsonText) (handler : Json → σ → Option ((Bool × Json) × σ))
    (requestStr sessionId : String) (st : σ) : Option (Except Exc (String × String) × σ) :=
  match text.parse requestStr with
  | none => some (.error (.call ⟨.parseError, "Parse error.", .null⟩), st)
  | some request =>
    match if sessionId ≠ "" then injectSessionId rpc request sessionId else .ok request with
    | .error e => some (.error e, st)
    | .ok request =>
      match handler request st with
      | none => none
      | some ((_, response), st) =>
        let responseStr := if response.isNull then "" else text.writeString response
        match getSessionId rpc response with
        | .ok newSessionId => some (.ok (responseStr, newSessionId), st)
        | .error (.call _) => some (.ok (responseStr, sessionId), st)
        | .error e => some (.error e, st)

end Session

/-! ### Requests and responses -/

section Session
variable (rpc : JsonRpc)

def paramsSession (req : Json) : Option String := (req.member? "params").bind (rpc.text? · "sessionId")

/-- The session a response reports: that of a result, none for an error. -/
def replySession (resp : Json) : Option String :=
  if (resp.member? "error").isSome then none
  else (resp.member? "result").bind (rpc.text? · "sessionId")

/-- The params read by string-key access: an absent member reads as null. -/
def paramsOf (req : Json) : Json := (req.member? "params").getD .null

/-- The request with the session written into its params. -/
def withSession (sessionId : String) (req : Json) : Json :=
  .obj (Assoc.put "params" (.obj (Assoc.put "sessionId" (.str sessionId)
    ((paramsOf req).members.toOption.getD []))) (req.members.toOption.getD []))

theorem get_params {req : Json} (h : req.isRecord = true) : req.get "params" = .ok (paramsOf req) := by
  rcases (Json.isRecord_iff req).mp h with rfl | ⟨ms, rfl⟩ <;> rfl

theorem paramsSession_eq (req : Json) :
    paramsSession rpc req = rpc.text? (paramsOf req) "sessionId" := by
  unfold paramsSession paramsOf
  cases req.member? "params" <;> rfl

/-- Injection leaves a request with a session alone and gives it one otherwise. -/
theorem injectSessionId_of_record {req : Json} (sessionId : String) (h : req.isRecord = true)
    (hp : (paramsOf req).isRecord = true) :
    injectSessionId rpc req sessionId =
      .ok (if (paramsSession rpc req).isSome then req else withSession sessionId req) := by
  simp only [injectSessionId, get_params h, bind, Except.bind, paramsSession_eq,
    rpc.getStringValue_of_record "sessionId" hp]
  cases rpc.text? (paramsOf req) "sessionId" with
  | some s => rfl
  | none => simp [Json.set_of_record _ _ hp, Json.set_of_record _ _ h, withSession]

theorem injectSessionId_of_not_record {req : Json} (sessionId : String)
    (h : req.isRecord = false ∨ (paramsOf req).isRecord = false) :
    injectSessionId rpc req sessionId = .error .logicError := by
  by_cases hr : req.isRecord = true
  · have hp : (paramsOf req).isRecord = false := by simpa [hr] using h
    simp [injectSessionId, get_params hr, rpc.getStringValue_of_not_record _ hp, bind, Except.bind,
      throw, throwThe, MonadExceptOf.throw]
  · have hr' : req.isRecord = false := by simpa using hr
    simp [injectSessionId, Json.get, Json.members_of_not_isRecord hr', bind, Except.bind, Except.map]

theorem withSession_session (s : String) (req : Json) :
    paramsSession rpc (withSession s req) = some s := by
  simp [paramsSession, withSession, JsonRpc.text?, Json.isScalar, rpc.getString_str]

/-- A response whose string-key accesses in `getSessionId` do not throw. -/
def Readable (resp : Json) : Prop :=
  resp.isRecord = true ∧ ∀ r, resp.member? "result" = some r →
    (resp.member? "error").isSome = false → r.isRecord = true

/-- The session `process` returns for a response, given that of the channel. -/
def nextSession (resp : Json) (sessionId : String) : String :=
  if (resp.member? "error").isSome then "" else (replySession rpc resp).getD sessionId

theorem isMember_of_record {v : Json} (key : String) (h : v.isRecord = true) :
    v.isMember key = .ok (v.member? key).isSome := by
  rcases (Json.isRecord_iff v).mp h with rfl | ⟨ms, rfl⟩ <;> rfl

/-- On a readable response `getSessionId` gives nothing for an error, the session
of a result that has one, and throws a `CallException` otherwise. -/
theorem getSessionId_of_readable {resp : Json} (h : Readable resp) :
    ∃ e, getSessionId rpc resp =
      if (resp.member? "error").isSome then .ok ""
      else match replySession rpc resp with
        | some s => .ok s
        | none => .error (.call e) := by
  obtain ⟨hr, hres⟩ := h
  simp only [getSessionId, isMember_of_record "error" hr, bind, Except.bind, replySession]
  by_cases he : (resp.member? "error").isSome = true
  · exact ⟨rpc.paramError "result", by simp [he, pure, Except.pure]⟩
  · have he' : (resp.member? "error").isSome = false := by simpa using he
    simp only [he', Bool.false_eq_true, ↓reduceIte, rpc.getValue_of_record "result" hr]
    cases hm : resp.member? "result" with
    | none => exact ⟨_, rfl⟩
    | some r =>
      simp only [Option.bind_some, rpc.getStringValue_of_record "sessionId" (hres r hm he')]
      exact ⟨_, rfl⟩

theorem getSessionId_of_not_readable {resp : Json} (h : ¬ Readable resp) :
    getSessionId rpc resp = .error .logicError := by
  by_cases hr : resp.isRecord = true
  · obtain ⟨r, hm, he, hrr⟩ : ∃ r, resp.member? "result" = some r ∧
        (resp.member? "error").isSome = false ∧ r.isRecord = false := by
      by_contra hno
      refine h ⟨hr, fun r hm he => ?_⟩
      by_contra hrr
      exact hno ⟨r, hm, he, by simpa using hrr⟩
    simp [getSessionId, isMember_of_record "error" hr, he, rpc.getValue_of_record "result" hr, hm,
      rpc.getStringValue_of_not_record "sessionId" hrr, bind, Except.bind]
  · have hr' : resp.isRecord = false := by simpa using hr
    simp [getSessionId, Json.isMember, Json.members_of_not_isRecord hr', bind, Except.bind, Except.map]

def Admits (sessionId : String) (req : Json) : Prop :=
  sessionId = "" ∨ (req.isRecord = true ∧ (paramsOf req).isRecord = true)

def delivered (sessionId : String) (req : Json) : Json :=
  if sessionId = "" ∨ (paramsSession rpc req).isSome then req else withSession sessionId req

/-- What `process` does with a text that is a request: with the session injected
it calls the handler, and with a readable response it returns its text. -/
theorem process_of_parsed {text : JsonText} (handler : Json → σ → Option ((Bool × Json) × σ))
    {payload sessionId : String} {req : Json} (st : σ) (hp : text.parse payload = some req)
    (ha : Admits sessionId req) :
    (handler (delivered rpc sessionId req) st = none →
      process rpc text handler payload sessionId st = none) ∧
    ∀ ret resp st', handler (delivered rpc sessionId req) st = some ((ret, resp), st') →
      (Readable resp → process rpc text handler payload sessionId st =
        some (.ok (if resp.isNull then "" else text.writeString resp,
          nextSession rpc resp sessionId), st')) ∧
      (¬ Readable resp →
        process rpc text handler payload sessionId st = some (.error .logicError, st')) := by
  have hin : (if sessionId ≠ "" then injectSessionId rpc req sessionId else .ok req) =
      .ok (delivered rpc sessionId req) := by
    by_cases hs : sessionId = ""
    · simp [hs, delivered]
    · obtain ⟨h1, h2⟩ := ha.resolve_left hs
      simp [hs, delivered, injectSessionId_of_record rpc sessionId h1 h2]
  simp only [process, hp, hin]
  refine ⟨fun h => by rw [h], fun ret resp st' h => ?_⟩
  simp only [h]
  constructor
  · intro hr
    obtain ⟨e, hg⟩ := getSessionId_of_readable rpc hr
    rw [hg, nextSession]
    by_cases he : (resp.member? "error").isSome = true
    · simp [he]
    · simp only [he, Bool.false_eq_true, ↓reduceIte]
      cases replySession rpc resp <;> rfl
  · intro hr
    simp [getSessionId_of_not_readable rpc hr]

/-- A request the session cannot be injected into makes `process` throw. -/
theorem process_of_not_admitted {text : JsonText} (handler : Json → σ → Option ((Bool × Json) × σ))
    {payload sessionId : String} {req : Json} (st : σ) (hp : text.parse payload = some req)
    (ha : ¬ Admits sessionId req) :
    process rpc text handler payload sessionId st = some (.error .logicError, st) := by
  rw [Admits, not_or, Classical.not_and_iff_not_or_not] at ha
  have hin : injectSessionId rpc req sessionId = .error .logicError :=
    injectSessionId_of_not_record rpc sessionId (by simpa using ha.2)
  simp [process, hp, ha.1, hin]

theorem process_handled {text : JsonText} {handler : Json → σ → Option ((Bool × Json) × σ)}
    {payload sessionId : String} {st t : σ} {req : Json} {x : Except Exc (String × String)}
    (hp : text.parse payload = some req) (ha : Admits sessionId req)
    (h : process rpc text handler payload sessionId st = some (x, t)) :
    ∃ r, handler (delivered rpc sessionId req) st = some (r, t) := by
  obtain ⟨hnone, hsome⟩ := process_of_parsed rpc handler st hp ha
  rcases hh : handler (delivered rpc sessionId req) st with _ | ⟨⟨ret, resp⟩, u⟩
  · rw [hnone hh] at h
    cases h
  · obtain ⟨hread, hunread⟩ := hsome ret resp u hh
    refine ⟨(ret, resp), ?_⟩
    by_cases hr : Readable resp
    · rw [hread hr] at h
      cases h
      rfl
    · rw [hunread hr] at h
      cases h
      rfl

/-- `process` does nothing to the server, or what the handler does. -/
theorem process_eq_some {text : JsonText} {handler : Json → σ → Option ((Bool × Json) × σ)}
    {payload sessionId : String} {st t : σ} {x : Except Exc (String × String)}
    (h : process rpc text handler payload sessionId st = some (x, t)) :
    t = st ∨ ∃ req r, text.parse payload = some req ∧ Admits sessionId req ∧
      handler (delivered rpc sessionId req) st = some (r, t) := by
  cases hp : text.parse payload with
  | none =>
    simp only [process, hp, Option.some.injEq, Prod.mk.injEq] at h
    exact Or.inl h.2.symm
  | some req =>
    by_cases ha : Admits sessionId req
    · obtain ⟨r, hr⟩ := process_handled rpc hp ha h
      exact Or.inr ⟨req, r, rfl, ha, hr⟩
    · rw [process_of_not_admitted rpc handler st hp ha] at h
      cases h
      exact Or.inl rfl

end Session

end KurentoMediaServer.Methods
