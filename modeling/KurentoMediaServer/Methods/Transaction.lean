import KurentoMediaServer.Cache.RequestCache
import KurentoMediaServer.Methods.Methods
import KurentoMediaServer.Methods.Refs

/-! `ServerMethods::transaction`, over the `handler.process` its operations are
handed to. Operations are rewritten in place one after the other: each gets the
session, an internal id and the results it refers to, is executed, and its response
joins the ones the later operations refer to. The loop ends with the first
operation that fails, or with an exception. -/

namespace KurentoMediaServer.Methods

open Foundations Cache

/-- The server: the media state, the request cache and the number of UUIDs drawn. -/
structure Server (σ : Type) where
  media : σ
  cache : RequestCache
  drawn : ℕ

variable {σ τ : Type} (rpc : JsonRpc) (core : Core σ)

/-- What the transaction gives an operation as its id. -/
def internalId (uniqueId : String) (i : ℕ) : String := uniqueId ++ "_" ++ toString i

/-- The id of operation `i` must convert to `i`. -/
def requireId (i : ℕ) (id : Json) : Except Exc Unit :=
  if id.isConvertibleToUInt = true ∧ id.asUInt = i then pure ()
  else throw (malformedTransaction rpc
    ("Id of request '" ++ toString i ++ "' should be '" ++ toString i ++ "'"))

/-- Operation `i` as it is handed to the handler, and the responses. The params are
created if the operation has none. -/
def prepare (uniqueId sessionId : String) (i : ℕ) (operation responses : Json) :
    Except Exc (Json × Json) := do
  let params ← operation.get "params"
  let params ← params.set "sessionId" (.str sessionId)
  let operation ← operation.set "params" params
  let id ← operation.get "id"
  requireId rpc i id
  let operation ← operation.set "id" (.str (internalId uniqueId id.asUInt))
  let (params, responses) ← injectRefs rpc params responses
  let operation ← operation.set "params" params
  return (operation, responses)

/-- The response of operation `i` put in its place, under the id of the operation. -/
def recordResponse (i : ℕ) (responses response : Json) : Except Exc Json := do
  let response ← response.set "id" (.int i)
  responses.setElem i response

/-- The loop over the operations from the one at `i` on. -/
def transactionLoop (handler : Json → τ → Option ((Bool × Json) × τ)) (uniqueId sessionId : String)
    (i : ℕ) (operations : List Json) (responses : Json) (st : τ) :
    Option (Except Exc Json × τ) :=
  match operations with
  | [] => some (.ok responses, st)
  | operation :: rest =>
    match prepare rpc uniqueId sessionId i operation responses with
    | .error e => some (.error e, st)
    | .ok (operation, responses) =>
      match handler operation st with
      | none => none
      | some ((ret, response), st) =>
        match recordResponse i responses response with
        | .error e => some (.error e, st)
        | .ok responses =>
          if ret then transactionLoop handler uniqueId sessionId (i + 1) rest responses st
          else some (.ok responses, st)

/-- What `transaction` reads from its params: the session and the operations. -/
def transactionParams (params : Json) : Body σ (String × List Json) := do
  requireParams params
  let (sessionId, _) ← getOrCreateSessionId rpc core params
  match ← rpc.getArray params "operations" with
  | .arr operations => return (sessionId, operations)
  | _ => return (sessionId, [])

def transactionResult (sessionId : String) (responses : Json) : Json :=
  .object [("value", if responses.isNull then .arr [] else responses), ("sessionId", .str sessionId)]

/-- `ServerMethods::transaction`, over whatever state the handler works on: `enter`
makes it from the server. -/
def transactionOver (enter : Server σ → τ) (handler : Json → τ → Option ((Bool × Json) × τ))
    (params : Json) (st : Server σ) : Option (Except Exc Json × τ) :=
  let uniqueId := core.uuid st.drawn
  match transactionParams rpc core params st.media (st.drawn + 1) with
  | (.error e, media, drawn) => some (.error e, enter { st with media, drawn })
  | (.ok (sessionId, operations), media, drawn) =>
    match transactionLoop rpc handler uniqueId sessionId 0 operations .null
        (enter { st with media, drawn }) with
    | none => none
    | some (.error e, st) => some (.error e, st)
    | some (.ok responses, st) => some (.ok (transactionResult sessionId responses), st)

def transaction : (Json → Server σ → Option ((Bool × Json) × Server σ)) → Json → Server σ →
    Option (Except Exc Json × Server σ) := transactionOver rpc core id

/-! ### Preparing an operation -/

section Prepare
variable {rpc} {uniqueId sessionId : String} {i : ℕ} {operation responses : Json}
  {ms pms : List (String × Json)}

theorem requireId_eq_ok {id : Json} {u : Unit} :
    requireId rpc i id = .ok u ↔ id.isConvertibleToUInt = true ∧ id.asUInt = i := by
  unfold requireId
  split_ifs with h <;> simp [h, pure, Except.pure]

def withSessionId (sessionId : String) (pms : List (String × Json)) : Json :=
  .obj (Assoc.put "sessionId" (.str sessionId) pms)

/-- Preparing an operation whose members and params can be assigned: past the check
of its id the references are replaced, and the operation gets its id and params. -/
theorem prepare_eq (hop : operation.members = .ok ms)
    (hp : ((Assoc.find "params" ms).getD .null).members = .ok pms) :
    prepare rpc uniqueId sessionId i operation responses = do
      requireId rpc i ((Assoc.find "id" ms).getD .null)
      let params ← substitute rpc (resolve rpc responses) (withSessionId sessionId pms)
      return (.obj (Assoc.put "id" (.str (internalId uniqueId i)) (Assoc.put "params" params ms)),
        responses) := by
  have hne : ("params" : String) ≠ "id" := by decide
  simp only [prepare, Json.get, Json.set, hop, hp, bind, Except.bind, Except.map, Json.members_obj,
    Assoc.find_put_of_ne hne.symm, injectRefs_eq, withSessionId]
  rcases hid : requireId rpc i ((Assoc.find "id" ms).getD .null) with e | u
  · rfl
  · simp only [(requireId_eq_ok.mp hid).2]
    cases substitute rpc (resolve rpc responses) (.obj (Assoc.put "sessionId" (.str sessionId) pms)) with
    | error e => rfl
    | ok q =>
      simp only [Assoc.put_comm hne, Assoc.put_put]

/-- What preparing needs, and what it makes of the operation. -/
theorem prepare_eq_ok {operation' responses' : Json} :
    prepare rpc uniqueId sessionId i operation responses = .ok (operation', responses') ↔
      ∃ ms pms params, operation.members = .ok ms ∧
        ((Assoc.find "params" ms).getD .null).members = .ok pms ∧
        requireId rpc i ((Assoc.find "id" ms).getD .null) = .ok () ∧
        substitute rpc (resolve rpc responses) (withSessionId sessionId pms) = .ok params ∧
        operation' = .obj (Assoc.put "id" (.str (internalId uniqueId i))
          (Assoc.put "params" params ms)) ∧ responses' = responses := by
  constructor
  · intro h
    obtain ⟨ms, hms⟩ : ∃ ms, operation.members = .ok ms := by
      rcases hm : operation.members with e | ms
      · simp [prepare, Json.get, hm, bind, Except.bind, Except.map] at h
      · exact ⟨ms, rfl⟩
    obtain ⟨pms, hpms⟩ : ∃ pms, ((Assoc.find "params" ms).getD .null).members = .ok pms := by
      rcases hm : ((Assoc.find "params" ms).getD .null).members with e | pms
      · simp [prepare, Json.get, Json.set, hms, hm, bind, Except.bind, Except.map] at h
      · exact ⟨pms, rfl⟩
    rw [prepare_eq hms hpms] at h
    simp only [bind_eq_ok, pure, Except.pure, Except.ok.injEq, Prod.mk.injEq] at h
    obtain ⟨⟨⟩, hid, params, hs, rfl, rfl⟩ := h
    exact ⟨ms, pms, params, hms, hpms, hid, hs, rfl, rfl⟩
  · rintro ⟨ms, pms, params, hms, hpms, hid, hs, rfl, rfl⟩
    rw [prepare_eq hms hpms, hid]
    simp [hs, bind, Except.bind, pure, Except.pure]

end Prepare

theorem ensures_transactionParams {rpc : JsonRpc} {core : Core σ} {params : Json} {n : ℕ} :
    Supply.Ensures n (transactionParams rpc core params)
      fun k r => SessionFor rpc core params n k r.1 := by
  refine Supply.ensures_lift_bind fun _ _ => ?_
  refine Supply.ensures_bind ensures_getOrCreateSessionId fun k s _ hs => ?_
  refine Supply.ensures_lift_bind fun operations _ => ?_
  cases operations <;> exact Supply.ensures_pure hs

theorem transactionParams_quiet (rpc : JsonRpc) (core : Core σ) (params : Json) :
    Supply.Quiet (transactionParams rpc core params) := by
  refine Supply.quiet_bind (Supply.quiet_lift _) fun _ => ?_
  refine Supply.quiet_bind (quiet_getOrCreateSessionId params) fun s => ?_
  refine Supply.quiet_bind (Supply.quiet_lift _) fun operations => ?_
  cases operations <;> exact Supply.quiet_pure _

theorem transactionParams_eq {rpc : JsonRpc} {core : Core σ} {params : Json} {media media' : σ}
    {n k : ℕ} {x : Except Exc (String × List Json)}
    (h : transactionParams rpc core params media n = (x, media', k)) : media' = media ∧ n ≤ k := by
  have hq := transactionParams_quiet rpc core params media n
  have hdraw : Supply.Ensures n (transactionParams rpc core params) _ := ensures_transactionParams
  have hle := (hdraw media).1
  rw [h] at hq hle
  exact ⟨hq, hle⟩

end KurentoMediaServer.Methods
