import KurentoMediaServer.Foundations.Supply
import KurentoMediaServer.Json.Rpc

/-! The methods of `ServerMethods`, except `transaction`. Each reads its params,
works on the media set and builds a result. What they reach of kms-core (the media
set, the factories, the objects) is a parameter. Whatever a method does, a session
its result reports is that of its params, or one it generated when they have none. -/

namespace KurentoMediaServer.Methods

open Foundations

/-- What the methods read from a media object. -/
structure MediaObject where
  id : String
  type : String
  qualifiedType : String
  hierarchy : List String

/-- A method body over the media state; it draws the numbers of the UUIDs. -/
abbrev Body (σ : Type) := Supply Exc σ

/-- What the methods use of kms-core and of the transport, over the media state
`σ`. A null object pointer is none. No UUID is generated twice; its text is made of
hexadecimal digits and hyphens. -/
structure Core (σ : Type) where
  /-- The UUIDs, in the order they are generated. -/
  uuid : ℕ → String
  uuid_injective : Function.Injective uuid
  uuid_plain : ∀ n, uuid n ≠ "" ∧ '_' ∉ (uuid n).toList
  instanceId : String
  getMediaObject : String → String → σ → Except Exc (Option MediaObject) × σ
  keepAliveSession : String → σ → Except Exc Unit × σ
  release : String → σ → Except Exc Unit × σ
  ref : String → String → σ → Except Exc Unit × σ
  unref : String → String → σ → Except Exc Unit × σ
  removeEventHandler : String → String → String → σ → Except Exc Unit × σ
  releaseSession : String → σ → Except Exc Unit × σ
  unrefSession : String → σ → Except Exc Unit × σ
  eventSubscriptionHandler : MediaObject → String → String → Json → Body σ String
  subscription_draws : ∀ obj s t p n,
    Supply.Ensures n (eventSubscriptionHandler obj s t p) fun _ _ => True
  invoke : MediaObject → String → Json → σ → Except Exc Json × σ
  Factory : Type
  getFactory : String → σ → Except Exc Factory × σ
  checkResources : σ → Except Exc Unit × σ
  /-- The id of the object made. -/
  createObject : Factory → String → Json → σ → Except Exc String × σ

variable {σ : Type} (rpc : JsonRpc) (core : Core σ)

/-- `generateUUID ()`. -/
def generateUUID : Body σ String := do return core.uuid (← Supply.draw)

/-- `requireParams`. -/
def requireParams (params : Json) : Except Exc Unit :=
  if params.isNull then
    throw (.call ⟨.invalidParams, "'params' is required", .obj [("type", .str "INVALID_PARAMS")]⟩)
  else pure ()

/-- `getOrCreateSessionId`: the session, and whether the params have it. -/
def getOrCreateSessionId (params : Json) : Body σ (String × Bool) :=
  match rpc.getStringValue params "sessionId" with
  | .ok sessionId => pure (sessionId, true)
  | .error (.call _) => do return (← generateUUID core, false)
  | .error e => throw e

/-- The handlers that give a `KurentoException` to the client as a `CallException`. -/
def catchKurento {α : Type} (m : Body σ α) : Body σ α :=
  tryCatch m fun
    | .kurento e => throw (.call e.toCall)
    | e => throw e

/-- Use of an object pointer; nothing answers for a null one. -/
def deref (obj : Option MediaObject) : Except Exc MediaObject :=
  match obj with
  | some obj => pure obj
  | none => throw .unknown

/-- A value that is optional: a missing or ill-typed one leaves the default. -/
def orDefault {α : Type} (x : Except Exc α) (default : α) : Except Exc α :=
  match x with
  | .error (.call _) => pure default
  | x => x

def describe (params : Json) : Body σ Json := do
  requireParams params
  let (sessionId, _) ← getOrCreateSessionId rpc core params
  let objectId ← rpc.getStringValue params "object"
  let obj ← catchKurento (Supply.onState (core.getMediaObject sessionId objectId))
  let obj ← deref obj
  return .object [("sessionId", .str sessionId), ("type", .str obj.type),
    ("qualifiedType", .str obj.qualifiedType), ("hierarchy", .arr (obj.hierarchy.map .str))]

def keepAlive (params : Json) : Body σ Json := do
  requireParams params
  let sessionId ← rpc.getStringValue params "sessionId"
  catchKurento (Supply.onState (core.keepAliveSession sessionId))
  return .object [("sessionId", .str sessionId)]

def release (params : Json) : Body σ Json := do
  requireParams params
  let objectId ← rpc.getStringValue params "object"
  let (sessionId, _) ← getOrCreateSessionId rpc core params
  catchKurento (Supply.onState (core.release objectId))
  return .object [("sessionId", .str sessionId)]

/-- `ref` and `unref`, over what they ask of the media set. -/
def refOrUnref (act : String → String → σ → Except Exc Unit × σ) (params : Json) : Body σ Json := do
  requireParams params
  let objectId ← rpc.getStringValue params "object"
  let sessionId ← rpc.getStringValue params "sessionId"
  catchKurento (Supply.onState (act sessionId objectId))
  return .object [("sessionId", .str sessionId)]

def ref : Json → Body σ Json := refOrUnref rpc core.ref

def unref : Json → Body σ Json := refOrUnref rpc core.unref

def unsubscribe (params : Json) : Body σ Json := do
  requireParams params
  let objectId ← rpc.getStringValue params "object"
  let subscription ← rpc.getStringValue params "subscription"
  let sessionId ← rpc.getStringValue params "sessionId"
  Supply.onState (core.removeEventHandler sessionId objectId subscription)
  return .object [("sessionId", .str sessionId)]

/-- The calls `subscribe` makes between its two handlers. -/
def subscribeTo (sessionId objectId eventType : String) (params : Json) : Body σ String := do
  let obj ← Supply.onState (core.getMediaObject sessionId objectId)
  let obj ← deref obj
  let handlerId ← tryCatch (core.eventSubscriptionHandler obj sessionId eventType params) fun
    | .badFunctionCall => throw (.kurento (rpc.kurentoException .notImplemented
        "Current transport does not support events"))
    | e => throw e
  if handlerId = "" then
    throw (.kurento (rpc.kurentoException .mediaObjectEventNotSupported "Event not found"))
  else return handlerId

def subscribe (params : Json) : Body σ Json := do
  requireParams params
  let eventType ← rpc.getStringValue params "type"
  let objectId ← rpc.getStringValue params "object"
  let (sessionId, _) ← getOrCreateSessionId rpc core params
  let handlerId ← catchKurento (subscribeTo rpc core sessionId objectId eventType params)
  return .object [("sessionId", .str sessionId), ("value", .str handlerId)]

/-- The calls `invoke` makes on the object. -/
def invokeOn (sessionId objectId operation : String) (operationParams : Json) : Body σ Json := do
  match ← Supply.onState (core.getMediaObject sessionId objectId) with
  | none => throw (.kurento (rpc.kurentoException .mediaObjectNotFound "Object not found"))
  | some obj => Supply.onState (core.invoke obj operation operationParams)

def invoke (params : Json) : Body σ Json := do
  requireParams params
  let operation ← rpc.getStringValue params "operation"
  let objectId ← rpc.getStringValue params "object"
  let operationParams ← orDefault (rpc.getValue params "operationParams") .null
  let (sessionId, _) ← getOrCreateSessionId rpc core params
  let value ← catchKurento (invokeOn rpc core sessionId objectId operation operationParams)
  return .object [("value", value), ("sessionId", .str sessionId)]

/-- The session `connect` keeps alive or generates. -/
def connectSession (params : Json) : Body σ String := do
  if params.isNull then generateUUID core
  else
    let (sessionId, doKeepAlive) ← getOrCreateSessionId rpc core params
    if doKeepAlive then catchKurento (Supply.onState (core.keepAliveSession sessionId))
    return sessionId

def connect (params : Json) : Body σ Json := do
  let sessionId ← connectSession rpc core params
  return .object [("sessionId", .str sessionId), ("serverId", .str core.instanceId)]

/-- The calls `create` makes to build the object. -/
def createObject (type sessionId : String) (params : Json) : Body σ String := do
  let factory ← Supply.onState (core.getFactory type)
  Supply.onState core.checkResources
  let constructorParams ← params.get "constructorParams"
  Supply.onState (core.createObject factory sessionId constructorParams)

def create (params : Json) : Body σ Json := do
  requireParams params
  let type ← rpc.getStringValue params "type"
  let (sessionId, _) ← getOrCreateSessionId rpc core params
  let id ← catchKurento (createObject core type sessionId params)
  return .object [("value", .str id), ("sessionId", .str sessionId)]

def ping (params : Json) : Except Exc Json :=
  match rpc.getStringValue params "sessionId" with
  | .ok sessionId => pure (.object [("sessionId", .str sessionId), ("value", .str "pong")])
  | .error (.call _) => pure (.object [("value", .str "pong")])
  | .error e => throw e

def closeSession (params : Json) : Body σ Json := do
  requireParams params
  let release ← orDefault (rpc.getBoolValue params "release") false
  let sessionId ← rpc.getStringValue params "sessionId"
  if release then Supply.onState (core.releaseSession sessionId)
  else Supply.onState (core.unrefSession sessionId)
  return .null

/-- The methods added to the handler, `transaction` apart. -/
def method (name : String) : Option (Json → Body σ Json) :=
  match name with
  | "connect" => some (connect rpc core)
  | "create" => some (create rpc core)
  | "invoke" => some (invoke rpc core)
  | "subscribe" => some (subscribe rpc core)
  | "unsubscribe" => some (unsubscribe rpc core)
  | "release" => some (release rpc core)
  | "ref" => some (ref rpc core)
  | "unref" => some (unref rpc core)
  | "keepAlive" => some (keepAlive rpc core)
  | "describe" => some (describe rpc core)
  | "ping" => some fun params => ping rpc params
  | "closeSession" => some (closeSession rpc core)
  | _ => none

/-! ### The session a result reports -/

/-- `s` is the session of the params, or was generated for params without one. -/
def SessionFor (params : Json) (n k : ℕ) (s : String) : Prop :=
  rpc.text? params "sessionId" = some s ∨
    (rpc.text? params "sessionId" = none ∧ ∃ i, n ≤ i ∧ i < k ∧ s = core.uuid i)

/-- The result is null or an object, and the session it reports, if any, is the one
for the params. -/
def ReportsSession (params : Json) (n k : ℕ) (result : Json) : Prop :=
  result.isRecord = true ∧
    ∀ s, rpc.text? result "sessionId" = some s → SessionFor rpc core params n k s

variable {rpc core} {params : Json} {n k : ℕ}

theorem SessionFor.mono {s : String} {n' k' : ℕ} (h : SessionFor rpc core params n k s)
    (hn : n' ≤ n) (hk : k ≤ k') : SessionFor rpc core params n' k' s := by
  rcases h with h | ⟨h, i, h1, h2, h3⟩
  · exact Or.inl h
  · exact Or.inr ⟨h, i, hn.trans h1, h2.trans_le hk, h3⟩

theorem sessionFor_of_getStringValue {s : String}
    (h : rpc.getStringValue params "sessionId" = .ok s) : SessionFor rpc core params n k s :=
  Or.inl (rpc.getStringValue_eq_ok.mp h)

theorem reportsSession_object {s : String} {ms : List (String × Json)}
    (hm : ∀ v, Assoc.find "sessionId" (ms.foldl (fun acc m => Assoc.put m.1 m.2 acc) []) = some v →
      v = .str s) (hs : SessionFor rpc core params n k s) :
    ReportsSession rpc core params n k (.object ms) := by
  refine ⟨rfl, fun s' hs' => ?_⟩
  simp only [JsonRpc.text?, Json.object, Json.member?_obj, Option.bind_eq_some_iff] at hs'
  obtain ⟨v, hv, h⟩ := hs'
  obtain rfl := hm v hv
  have hss : s = s' := by simpa [Json.isScalar, rpc.getString_str] using h
  exact hss ▸ hs

theorem ensures_getOrCreateSessionId :
    Supply.Ensures n (getOrCreateSessionId rpc core params)
      fun k s => SessionFor rpc core params n k s.1 := by
  unfold getOrCreateSessionId
  split
  · next s h => exact Supply.ensures_pure (sessionFor_of_getStringValue h)
  · next e h =>
    have hno : rpc.text? params "sessionId" = none := by
      rcases ht : rpc.text? params "sessionId" with _ | s
      · rfl
      · rw [rpc.getStringValue_eq_ok.mpr ht] at h; cases h
    exact fun st => ⟨Nat.le_succ n, fun s hs => by
      cases hs
      exact Or.inr ⟨hno, n, le_rfl, Nat.lt_succ_self n, rfl⟩⟩
  · exact Supply.ensures_throw _

theorem quiet_getOrCreateSessionId (params : Json) :
    Supply.Quiet (getOrCreateSessionId rpc core params) := by
  unfold getOrCreateSessionId
  split
  · exact Supply.quiet_pure _
  · exact Supply.quiet_bind (Supply.quiet_bind Supply.quiet_draw fun _ => Supply.quiet_pure _)
      fun _ => Supply.quiet_pure _
  · exact Supply.quiet_throw _

theorem ensures_catchKurento {α : Type} {m : Body σ α} {Q : ℕ → α → Prop}
    (h : Supply.Ensures n m Q) : Supply.Ensures n (catchKurento m) Q := by
  refine Supply.ensures_tryCatch h fun k e _ => ?_
  cases e <;> exact Supply.ensures_throw _

theorem ensures_media_bind {α : Type} {g : σ → Except Exc α × σ} {f : α → Body σ Json}
    {R : ℕ → Json → Prop} (h : ∀ a, Supply.Ensures n (f a) R) :
    Supply.Ensures n (catchKurento (Supply.onState g) >>= f) R := by
  intro st
  simp only [bind, catchKurento, tryCatch, tryCatchThe, MonadExceptOf.tryCatch, Supply.onState]
  rcases g st with ⟨e | a, st'⟩
  · cases e <;> exact ⟨Nat.le_refl _, fun _ hb => by cases hb⟩
  · exact h a st'

/-- A result made of the session and other members. -/
theorem ensures_result {s : String} {ms : List (String × Json)}
    (hm : ∀ v, Assoc.find "sessionId" (ms.foldl (fun acc m => Assoc.put m.1 m.2 acc) []) = some v →
      v = .str s) {n₀ : ℕ} (hs : SessionFor rpc core params n₀ n s) :
    Supply.Ensures n (pure (.object ms) : Body σ Json)
      fun k => ReportsSession rpc core params n₀ k :=
  Supply.ensures_pure (reportsSession_object hm hs)

theorem ensures_describe : Supply.Ensures n (describe rpc core params)
    fun k => ReportsSession rpc core params n k := by
  refine Supply.ensures_lift_bind fun _ _ => ?_
  refine Supply.ensures_bind ensures_getOrCreateSessionId fun k s _ hs => ?_
  refine Supply.ensures_lift_bind fun objectId _ => ?_
  refine ensures_media_bind fun obj => ?_
  refine Supply.ensures_lift_bind fun obj _ => ?_
  exact ensures_result (by simp [Assoc.find_put]) hs

theorem ensures_keepAlive : Supply.Ensures n (keepAlive rpc core params)
    fun k => ReportsSession rpc core params n k := by
  refine Supply.ensures_lift_bind fun _ _ => ?_
  refine Supply.ensures_lift_bind fun sessionId hs => ?_
  refine ensures_media_bind fun _ => ?_
  exact ensures_result (by simp) (sessionFor_of_getStringValue hs)

theorem ensures_release : Supply.Ensures n (release rpc core params)
    fun k => ReportsSession rpc core params n k := by
  refine Supply.ensures_lift_bind fun _ _ => ?_
  refine Supply.ensures_lift_bind fun objectId _ => ?_
  refine Supply.ensures_bind ensures_getOrCreateSessionId fun k s _ hs => ?_
  refine ensures_media_bind fun _ => ?_
  exact ensures_result (by simp) hs

theorem ensures_refOrUnref (act : String → String → σ → Except Exc Unit × σ) :
    Supply.Ensures n (refOrUnref rpc act params)
      fun k => ReportsSession rpc core params n k := by
  refine Supply.ensures_lift_bind fun _ _ => ?_
  refine Supply.ensures_lift_bind fun objectId _ => ?_
  refine Supply.ensures_lift_bind fun sessionId hs => ?_
  refine ensures_media_bind fun _ => ?_
  exact ensures_result (by simp) (sessionFor_of_getStringValue hs)

theorem ensures_unsubscribe : Supply.Ensures n (unsubscribe rpc core params)
    fun k => ReportsSession rpc core params n k := by
  refine Supply.ensures_lift_bind fun _ _ => ?_
  refine Supply.ensures_lift_bind fun objectId _ => ?_
  refine Supply.ensures_lift_bind fun subscription _ => ?_
  refine Supply.ensures_lift_bind fun sessionId hs => ?_
  refine Supply.ensures_onState_bind fun _ => ?_
  exact ensures_result (by simp) (sessionFor_of_getStringValue hs)

theorem ensures_subscribeTo (sessionId objectId eventType : String) :
    Supply.Ensures n (subscribeTo rpc core sessionId objectId eventType params)
      fun _ _ => True := by
  refine Supply.ensures_onState_bind fun obj => ?_
  refine Supply.ensures_lift_bind fun obj _ => ?_
  have hcatch : Supply.Ensures n (tryCatch
      (core.eventSubscriptionHandler obj sessionId eventType params) fun
        | .badFunctionCall => throw (.kurento (rpc.kurentoException .notImplemented
            "Current transport does not support events"))
        | e => throw e) fun _ _ => True := by
    refine Supply.ensures_tryCatch (core.subscription_draws _ _ _ _ _) fun k e _ => ?_
    cases e <;> exact Supply.ensures_throw _
  refine Supply.ensures_bind hcatch fun k handlerId _ _ => ?_
  split_ifs
  · exact Supply.ensures_throw _
  · exact Supply.ensures_pure trivial

theorem ensures_subscribe : Supply.Ensures n (subscribe rpc core params)
    fun k => ReportsSession rpc core params n k := by
  refine Supply.ensures_lift_bind fun _ _ => ?_
  refine Supply.ensures_lift_bind fun eventType _ => ?_
  refine Supply.ensures_lift_bind fun objectId _ => ?_
  refine Supply.ensures_bind ensures_getOrCreateSessionId fun k s _ hs => ?_
  refine Supply.ensures_bind (ensures_catchKurento (ensures_subscribeTo _ _ _))
    fun k' handlerId hk _ => ?_
  exact ensures_result (by simp [Assoc.find_put]) (hs.mono le_rfl hk)

theorem ensures_invokeOn (sessionId objectId operation : String) (operationParams : Json) :
    Supply.Ensures n (invokeOn rpc core sessionId objectId operation operationParams)
      fun _ _ => True := by
  refine Supply.ensures_onState_bind fun obj => ?_
  cases obj with
  | none => exact Supply.ensures_throw _
  | some obj => exact Supply.ensures_onState fun _ => trivial

theorem ensures_invoke : Supply.Ensures n (invoke rpc core params)
    fun k => ReportsSession rpc core params n k := by
  refine Supply.ensures_lift_bind fun _ _ => ?_
  refine Supply.ensures_lift_bind fun operation _ => ?_
  refine Supply.ensures_lift_bind fun objectId _ => ?_
  refine Supply.ensures_lift_bind fun operationParams _ => ?_
  refine Supply.ensures_bind ensures_getOrCreateSessionId fun k s _ hs => ?_
  refine Supply.ensures_bind (ensures_catchKurento (ensures_invokeOn _ _ _ _)) fun k' value hk _ => ?_
  exact ensures_result (by simp) (hs.mono le_rfl hk)

theorem ensures_connectSession : Supply.Ensures n (connectSession rpc core params)
    fun k s => SessionFor rpc core params n k s := by
  unfold connectSession
  split_ifs with hp
  · refine Supply.ensures_bind (Supply.ensures_draw (Q := fun k i => k = n + 1 ∧ i = n) ⟨rfl, rfl⟩)
      fun k i _ h => Supply.ensures_pure ?_
    obtain ⟨rfl, rfl⟩ := h
    have hno : rpc.text? params "sessionId" = none := by
      cases params <;> simp_all [Json.isNull, JsonRpc.text?]
    exact Or.inr ⟨hno, i, le_rfl, Nat.lt_succ_self i, rfl⟩
  · refine Supply.ensures_bind ensures_getOrCreateSessionId fun k r _ hs => ?_
    obtain ⟨s, doKeepAlive⟩ := r
    dsimp only
    split_ifs
    · refine Supply.ensures_bind (ensures_catchKurento
        (Supply.ensures_onState (Q := fun _ _ => True) fun _ => trivial)) fun k' _ hk _ => ?_
      exact Supply.ensures_pure (hs.mono le_rfl hk)
    · exact Supply.ensures_pure hs

theorem ensures_connect : Supply.Ensures n (connect rpc core params)
    fun k => ReportsSession rpc core params n k := by
  refine Supply.ensures_bind ensures_connectSession fun k s _ hs => ?_
  exact ensures_result (by simp [Assoc.find_put]) hs

theorem ensures_createObject (type sessionId : String) :
    Supply.Ensures n (createObject core type sessionId params) fun _ _ => True := by
  refine Supply.ensures_onState_bind fun factory => ?_
  refine Supply.ensures_onState_bind fun _ => ?_
  refine Supply.ensures_lift_bind fun constructorParams _ => ?_
  exact Supply.ensures_onState fun _ => trivial

theorem ensures_create : Supply.Ensures n (create rpc core params)
    fun k => ReportsSession rpc core params n k := by
  refine Supply.ensures_lift_bind fun _ _ => ?_
  refine Supply.ensures_lift_bind fun type _ => ?_
  refine Supply.ensures_bind ensures_getOrCreateSessionId fun k s _ hs => ?_
  refine Supply.ensures_bind (ensures_catchKurento (ensures_createObject _ _)) fun k' id hk _ => ?_
  exact ensures_result (by simp) (hs.mono le_rfl hk)

theorem ensures_ping : Supply.Ensures n (ping rpc params : Body σ Json)
    fun k => ReportsSession rpc core params n k := by
  refine Supply.ensures_lift fun result h => ?_
  unfold ping at h
  split at h
  · next s hs =>
    cases h
    exact reportsSession_object (by simp [Assoc.find_put]) (sessionFor_of_getStringValue hs)
  · cases h
    exact ⟨rfl, fun s hs => by simp [JsonRpc.text?, Json.object, Assoc.put, Assoc.find] at hs⟩
  · cases h

theorem ensures_closeSession : Supply.Ensures n (closeSession rpc core params)
    fun k => ReportsSession rpc core params n k := by
  have hnull : ∀ k, Supply.Ensures k (pure .null : Body σ Json)
      fun k => ReportsSession rpc core params n k := fun k =>
    Supply.ensures_pure ⟨rfl, fun s hs => by simp [JsonRpc.text?] at hs⟩
  refine Supply.ensures_lift_bind fun _ _ => ?_
  refine Supply.ensures_lift_bind fun release _ => ?_
  refine Supply.ensures_lift_bind fun sessionId _ => ?_
  split_ifs <;> exact Supply.ensures_onState_bind fun _ => hnull _

/-- Every method but `transaction` reports the session of its params, if it reports
one. -/
theorem ensures_method {name : String} {m : Json → Body σ Json} (h : method rpc core name = some m) :
    Supply.Ensures n (m params) fun k => ReportsSession rpc core params n k := by
  unfold method at h
  split at h <;> cases h
  · exact ensures_connect
  · exact ensures_create
  · exact ensures_invoke
  · exact ensures_subscribe
  · exact ensures_unsubscribe
  · exact ensures_release
  · exact ensures_refOrUnref _
  · exact ensures_refOrUnref _
  · exact ensures_keepAlive
  · exact ensures_describe
  · exact ensures_ping
  · exact ensures_closeSession

/-! ### An instance -/

/-- A media state that counts the objects made; objects are never looked for in it. -/
def Core.counting : Core ℕ where
  uuid n := String.ofList (List.replicate (n + 1) 'u')
  uuid_injective n m h := by
    have hlen := congrArg (List.length ∘ String.toList) h
    simpa using hlen
  uuid_plain n := by simp [List.replicate_succ]
  instanceId := "server"
  getMediaObject _ objectId made :=
    (.ok (some ⟨objectId, "MediaObject", "kurento.MediaObject", []⟩), made)
  keepAliveSession _ made := (.ok (), made)
  release _ made := (.ok (), made)
  ref _ _ made := (.ok (), made)
  unref _ _ made := (.ok (), made)
  removeEventHandler _ _ _ made := (.ok (), made)
  releaseSession _ made := (.ok (), made)
  unrefSession _ made := (.ok (), made)
  eventSubscriptionHandler _ _ _ _ := do return toString (← Supply.draw)
  subscription_draws _ _ _ _ _ := Supply.ensures_bind
    (Supply.ensures_draw (Q := fun _ _ => True) trivial) fun _ _ _ _ => Supply.ensures_pure trivial
  invoke _ _ _ made := (.ok .null, made)
  Factory := String
  getFactory type made := (.ok type, made)
  checkResources made := (.ok (), made)
  createObject _ _ _ made := (.ok (toString made), made + 1)

end KurentoMediaServer.Methods
