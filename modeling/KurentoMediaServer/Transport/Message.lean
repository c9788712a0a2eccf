import KurentoMediaServer.Methods.Process
import KurentoMediaServer.Transport.Connections

/-! `WebSocketTransport::processMessage` over `ServerMethods::process`: which
payloads are answered. A frame is what is handed to `send` of the server the
connection belongs to; an exception that leaves `processMessage` ends in the loop
of `run`, which drops it together with the reply. -/

namespace KurentoMediaServer.Transport

open Foundations Methods

variable {σ Hdl : Type} [DecidableEq Hdl]

/-- The connection tables, the server behind the processor, and the frames sent. -/
structure State (σ Hdl : Type) where
  tables : Tables Hdl
  server : σ
  sent : List (Hdl × String)

/-- The session a connection is associated with, empty if there is none. -/
def State.session (t : State σ Hdl) (hdl : Hdl) : String :=
  (t.tables.connectionsReverse.lookup hdl).getD ""

/-- `WebSocketTransport::processMessage`; `secure` is whether the message came in
through the secure server. -/
def processMessage (processor : Processor σ) (alive : Hdl → Bool) (secure : Bool) (hdl : Hdl)
    (payload : String) (t : State σ Hdl) : Option (Except Exc Unit × State σ Hdl) :=
  match processor.process payload (t.session hdl) t.server with
  | none => none
  | some (.error e, server) => some (.error e, { t with server })
  | some (.ok (response, sessionId), server) =>
    match storeConnection processor.keepAliveSession alive hdl secure sessionId t.tables server with
    | (.error e, tables, server) => some (.error e, { t with tables, server })
    | (.ok (), tables, server) => some (.ok (), ⟨tables, server, t.sent ++ [(hdl, response)]⟩)

/-- `ServerMethods` as a processor, over a `handler.process` that always returns. -/
def serverMethods (rpc : JsonRpc) (text : JsonText) (handler : Json → σ → (Bool × Json) × σ)
    (keepAliveSession : String → σ → Except Exc Unit × σ) : Processor σ where
  process := process rpc text fun req st => some (handler req st)
  keepAliveSession := keepAliveSession

/-! ### Which messages are answered -/

def IsRpcObject (v : Json) : Prop := v.member? "jsonrpc" = some (.str "2.0")

theorem IsRpcObject.not_null {v : Json} (h : IsRpcObject v) : v.isNull = false := by
  cases v <;> simp_all [IsRpcObject, Json.member?, Json.isNull]

/-- A request that asks for a response. -/
def HasId (v : Json) : Prop := (v.member? "id").isSome = true

def IsNotification (v : Json) : Prop := v.member? "id" = none ∧ (v.member? "method").isSome = true

/-- What the answer of `handler.process` may be: null or an object whose result is one
that a method of the server writes (null or an object), or an array for a batch. -/
structure HandlerReplies (handler : Json → σ → (Bool × Json) × σ) : Prop where
  shape : ∀ v st, (handler v st).1.2.isRecord = true ∨
    (v.isArray = true ∧ (handler v st).1.2.isArray = true)
  result : ∀ v st r, (handler v st).1.2.member? "result" = some r → r.isRecord = true

/-- For a request with an id it is a JSON-RPC object. -/
structure HandlerAnswers (handler : Json → σ → (Bool × Json) × σ) : Prop
    extends HandlerReplies handler where
  request : ∀ v st, HasId v → IsRpcObject (handler v st).1.2

section Answered
variable (rpc : JsonRpc) (text : JsonText) (handler : Json → σ → (Bool × Json) × σ)
  (keepAlive : String → σ → Except Exc Unit × σ)
  (alive : Hdl → Bool) (secure : Bool) (hdl : Hdl) (payload : String) (t : State σ Hdl)

/-- The message is answered as it should be: nothing is thrown, a text that is not
JSON or a request with an id gets exactly one frame with a JSON-RPC object, and a
notification gets none. -/
def Answered : Prop :=
  ∃ t', processMessage (serverMethods rpc text handler keepAlive) alive secure hdl payload t =
      some (.ok (), t') ∧
    match text.parse payload with
    | none => ∃ r, IsRpcObject r ∧ t'.sent = t.sent ++ [(hdl, text.writeString r)]
    | some v =>
      (HasId v → ∃ r, IsRpcObject r ∧ t'.sent = t.sent ++ [(hdl, text.writeString r)]) ∧
      (IsNotification v → t'.sent = t.sent)

/-- The messages the code answers: the payload is JSON and no notification, it can
be given the session of the connection, the handler does not answer with an array,
and `keepAliveSession` does not throw for a session that is new to the connection. -/
def Answerable : Prop :=
  ∃ v, text.parse payload = some v ∧ ¬ IsNotification v ∧ Admits (t.session hdl) v ∧
    ∃ ret resp st, handler (delivered rpc (t.session hdl) v) t.server = ((ret, resp), st) ∧
      (v.isArray = true → resp.isArray = false) ∧
      (nextSession rpc resp (t.session hdl) = "" ∨
        t.tables.connections.lookup (nextSession rpc resp (t.session hdl)) = some hdl ∨
        Tolerated (keepAlive (nextSession rpc resp (t.session hdl)) st).1)

variable {rpc text handler keepAlive alive secure hdl payload t}

theorem isArray_delivered {sessionId : String} {v : Json} (ha : Admits sessionId v) :
    (delivered rpc sessionId v).isArray = v.isArray := by
  unfold delivered
  split_ifs with hs
  · rfl
  · have hv := (ha.resolve_left fun h => hs (Or.inl h)).1
    rcases (Json.isRecord_iff v).mp hv with rfl | ⟨ms, rfl⟩ <;> rfl

/-- The session injection touches no member but the params. -/
theorem hasId_delivered {sessionId : String} {v : Json} (h : HasId v) :
    HasId (delivered rpc sessionId v) := by
  unfold delivered
  split_ifs with hs
  · exact h
  · cases v with
    | obj ms =>
      simpa [HasId, withSession, Assoc.find_put_of_ne (show "id" ≠ "params" by decide),
        Except.toOption] using h
    | _ => simp [HasId, Json.member?] at h

theorem readable_iff (hh : HandlerReplies handler) (v : Json) (st : σ) :
    Readable (handler v st).1.2 ↔ (v.isArray = true → (handler v st).1.2.isArray = false) := by
  constructor
  · rintro ⟨hr, -⟩ -
    revert hr
    cases (handler v st).1.2 <;> simp [Json.isRecord, Json.isArray]
  · intro h
    rcases hh.shape v st with hr | ⟨hv, hr⟩
    · exact ⟨hr, fun r hm _ => hh.result v st r hm⟩
    · simp [h hv] at hr

variable (keepAlive alive secure) in
/-- The frame of a message that passes the session injection and whose response
can be read: what is thrown depends only on storing the session. -/
theorem processMessage_of_readable {v : Json} (hp : text.parse payload = some v)
    (ha : Admits (t.session hdl) v) {ret : Bool} {resp : Json} {st : σ}
    (hh : handler (delivered rpc (t.session hdl) v) t.server = ((ret, resp), st))
    (hr : Readable resp) :
    processMessage (serverMethods rpc text handler keepAlive) alive secure hdl payload t =
      match storeConnection keepAlive alive hdl secure (nextSession rpc resp (t.session hdl))
          t.tables st with
      | (.error e, tables, server) => some (.error e, { t with tables, server })
      | (.ok (), tables, server) => some (.ok (), ⟨tables, server, t.sent ++
          [(hdl, if resp.isNull then "" else text.writeString resp)]⟩) := by
  have hpr := ((process_of_parsed rpc (fun req st => some (handler req st)) t.server hp
    ha).2 ret resp st (by simp [hh])).1 hr
  simp only [processMessage, serverMethods, hpr]

/-- The code answers a message as it should exactly when it is answerable. -/
theorem answered_iff (hh : HandlerAnswers handler) (ht : Reachable t.tables)
    (hc : alive hdl = true) :
    Answered rpc text handler keepAlive alive secure hdl payload t ↔
      Answerable rpc text handler keepAlive hdl payload t := by
  cases hp : text.parse payload with
  | none => simp [Answered, Answerable, processMessage, serverMethods, process, hp]
  | some v =>
    by_cases ha : Admits (t.session hdl) v
    · rcases hr : handler (delivered rpc (t.session hdl) v) t.server with ⟨⟨ret, resp⟩, st⟩
      have hread : Readable resp ↔ (v.isArray = true → resp.isArray = false) := by
        have h := readable_iff hh.toHandlerReplies (delivered rpc (t.session hdl) v) t.server
        rwa [hr, isArray_delivered ha] at h
      by_cases hrd : Readable resp
      · have hok := storeConnection_ok_iff keepAlive secure
          (s := nextSession rpc resp (t.session hdl)) st ht.matched hc
        have hpm := processMessage_of_readable keepAlive alive secure hp ha hr hrd
        have hreq : HasId v → IsRpcObject resp := fun h => by
          have hd : HasId (delivered rpc (t.session hdl) v) := hasId_delivered h
          have := hh.request _ t.server hd
          rwa [hr] at this
        rcases hst : storeConnection keepAlive alive hdl secure
            (nextSession rpc resp (t.session hdl)) t.tables st with ⟨e | _, tables, server⟩
        · rw [hst] at hok hpm
          simp only [reduceCtorEq, false_iff] at hok
          simp [Answered, Answerable, hp, hpm, hr, ha, hok]
        · rw [hst] at hok hpm
          simp only [true_iff] at hok
          constructor
          · rintro ⟨t', ht', hans⟩
            refine ⟨v, hp, fun hn => ?_, ha, ret, resp, st, hr, hread.mp hrd, hok⟩
            rw [hp] at hans
            rw [hpm, Option.some.injEq, Prod.mk.injEq] at ht'
            have hsent := hans.2 hn
            simp [← ht'.2] at hsent
          · rintro ⟨v', hv', hn, -⟩
            obtain rfl : v = v' := by simpa [hp] using hv'
            refine ⟨_, hpm, ?_⟩
            rw [hp]
            exact ⟨fun hid => ⟨resp, hreq hid, by simp [(hreq hid).not_null]⟩, fun h => absurd h hn⟩
      · have hpr := ((process_of_parsed rpc (fun req st => some (handler req st)) t.server
          hp ha).2 ret resp st (by simp [hr])).2 hrd
        have harr := hread.not.mp hrd
        simp [Answered, Answerable, processMessage, serverMethods, hp, hpr, hr, harr]
    · have hpr := process_of_not_admitted rpc (fun req st => some (handler req st))
        t.server hp ha
      simp [Answered, Answerable, processMessage, serverMethods, hp, hpr, ha]

end Answered

/-! ### A handler that answers every request with its session -/

def echoSession (req : Json) (st : Unit) : (Bool × Json) × Unit :=
  ((true, match req.member? "id" with
    | some id => .obj [("id", id), ("jsonrpc", .str "2.0"), ("result", .obj
        (((paramsSession JsonRpc.plain req).map fun s => ("sessionId", Json.str s)).toList))]
    | none => .null), st)

theorem echoSession_answers : HandlerAnswers echoSession where
  request v st h := by
    obtain ⟨id, hid⟩ := Option.isSome_iff_exists.mp h
    simp [echoSession, hid, IsRpcObject, Assoc.find]
  shape v st := by
    cases h : v.member? "id" <;> simp [echoSession, h, Json.isRecord]
  result v st r h := by
    cases hid : v.member? "id" with
    | none => simp [echoSession, hid] at h
    | some id =>
      simp only [echoSession, hid, Json.member?_obj, Assoc.find, String.reduceEq, ↓reduceIte,
        Option.some.injEq] at h
      rw [← h]; rfl

def pingRequest : Json := .obj [("id", .int 1), ("jsonrpc", .str "2.0"), ("method", .str "ping")]

def pingNotification : Json := .obj [("jsonrpc", .str "2.0"), ("method", .str "ping")]

def connectRequest : Json := .obj [("id", .int 0), ("jsonrpc", .str "2.0"),
  ("method", .str "connect"), ("params", .obj [("sessionId", .str "s")])]

/-- A ping is answered. -/
theorem answered_iff_ping :
    Answered JsonRpc.plain (.ofValues [pingRequest]) echoSession (fun _ st => (.ok (), st))
      (fun _ => true) false 0 pingRequest.text ⟨Tables.empty, (), []⟩ := by
  have hparse : (JsonText.ofValues [pingRequest]).parse pingRequest.text = some pingRequest := by rfl
  have hrequest : ¬ IsNotification pingRequest := fun h => by cases h.1
  exact (answered_iff echoSession_answers .empty rfl).mpr
    ⟨pingRequest, hparse, hrequest, Or.inl rfl, _, _, (), rfl, fun _ => rfl, Or.inl rfl⟩

/-- A text that is not JSON is not answered, and a notification is sent a frame. -/
theorem not_answered :
    ¬ Answered JsonRpc.plain (.ofValues [pingNotification]) echoSession (fun _ st => (.ok (), st))
        (fun _ => true) false 0 "ping" ⟨Tables.empty, (), []⟩ ∧
    ¬ Answered JsonRpc.plain (.ofValues [pingNotification]) echoSession (fun _ st => (.ok (), st))
        (fun _ => true) false 0 pingNotification.text ⟨Tables.empty, (), []⟩ := by
  constructor
  · rintro ⟨t', ht', -⟩
    have hp : (JsonText.ofValues [pingNotification]).parse "ping" = none := by rfl
    simp [processMessage, serverMethods, process, hp] at ht'
  · rintro ⟨t', ht', hans⟩
    have hp : (JsonText.ofValues [pingNotification]).parse pingNotification.text =
        some pingNotification := by rfl
    rw [hp] at hans
    have hsent := hans.2 ⟨rfl, rfl⟩
    have hrun : processMessage (serverMethods JsonRpc.plain (.ofValues [pingNotification])
        echoSession (fun _ st => (.ok (), st))) (fun _ => true) false 0 pingNotification.text
        ⟨Tables.empty, (), []⟩ = some (.ok (), ⟨Tables.empty, (), [(0, "")]⟩) := by rfl
    rw [hrun] at ht'
    simp only [Option.some.injEq, Prod.mk.injEq, true_and] at ht'
    simp [← ht'] at hsent

end KurentoMediaServer.Transport
