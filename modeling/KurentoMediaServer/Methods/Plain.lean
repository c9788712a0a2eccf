import KurentoMediaServer.Foundations.Throws
import KurentoMediaServer.Methods.Oblivious

/-! The server without its request cache. With the setting
`mediaServer.resources.disableRequestCache` neither hook is given to the handler, and
every request that keeps to the protocol has its method run. Both servers handle a request
that is not in the cache alike: the operations of a transaction are never found there, and
what `postProcess` throws the method has thrown before, if there is such a method. -/

namespace KurentoMediaServer.Methods

open Foundations Cache

variable {σ : Type} (rpc : JsonRpc) (core : Core σ) (jsonrpc : RpcHandler)

/-- One request, without hooks. -/
def plainCall (methods : String → MethodRun σ) (request : Json) (st : Server σ) :
    Option ((Bool × Json) × Server σ) :=
  match jsonrpc.checkProtocol request with
  | some response => some ((false, response), st)
  | none =>
    (methods ((rpc.text? request "method").getD "") (paramsOf request) st).map fun r =>
      (respond jsonrpc request r.1, r.2)

/-- The requests of a batch, in order. -/
def plainCallAll (methods : String → MethodRun σ) :
    List Json → Server σ → Option (List (Bool × Json) × Server σ)
  | [], st => some ([], st)
  | request :: rest, st =>
    match plainCall rpc jsonrpc methods request st with
    | none => none
    | some (response, st) => (plainCallAll methods rest st).map fun r => (response :: r.1, r.2)

/-- `handler.process` without hooks, for transactions nested less than `depth` deep. -/
def plainProcess : ℕ → Json → Server σ → Option ((Bool × Json) × Server σ)
  | 0, _, _ => none
  | depth + 1, .arr requests, st =>
    (plainCallAll rpc jsonrpc (dispatch rpc core (plainProcess depth)) requests st).map
      fun r => (jsonrpc.batch r.1, r.2)
  | depth + 1, request, st => plainCall rpc jsonrpc (dispatch rpc core (plainProcess depth)) request st

/-- The handler as the constructor of `ServerMethods` sets it up. -/
def configuredProcess (disableRequestCache : Bool) (depth : ℕ) :
    Json → Server σ → Option ((Bool × Json) × Server σ) :=
  if disableRequestCache then plainProcess rpc core jsonrpc depth
  else handlerProcess rpc core jsonrpc depth

/-- The same outcome, and servers that are the same but for the caches. -/
def Agree {α : Type} (a b : α × Server σ) : Prop := a.1 = b.1 ∧ SameMedia a.2 b.2

section Plain
variable {rpc core jsonrpc} {request : Json} {st st' : Server σ}

theorem SameMedia.trans {st st' st'' : Server σ} (h : SameMedia st st') (g : SameMedia st' st'') :
    SameMedia st st'' := ⟨h.1.trans g.1, h.2.trans g.2⟩

/-! ### Params that are no object -/

variable (rpc core) in
/-- A method of the handler. -/
def Known (name : String) : Prop := name = "transaction" ∨ (method rpc core name).isSome = true

theorem isNull_of_not_record {v : Json} (h : v.isRecord = false) : v.isNull = false := by
  cases v <;> first | rfl | cases h

variable (rpc) in
theorem getBoolValue_of_not_record {v : Json} (name : String) (h : v.isRecord = false) :
    rpc.getBoolValue v name = .error .logicError := by
  simp [JsonRpc.getBoolValue, rpc.getValue_of_not_record name h, bind, Except.bind]

variable (rpc core) in
theorem getOrCreateSessionId_of_not_record {v : Json} (h : v.isRecord = false) :
    getOrCreateSessionId rpc core v = throw .logicError := by
  rw [getOrCreateSessionId, rpc.getStringValue_of_not_record "sessionId" h]

/-- Params that are an array or a scalar end every method where it first reads them. -/
theorem method_of_not_record {name : String} {m : Json → Body σ Json}
    (hm : method rpc core name = some m) {params : Json} (hp : params.isRecord = false) (media : σ)
    (n : ℕ) : m params media n = (.error .logicError, media, n) := by
  have hnull := isNull_of_not_record hp
  have hread (name : String) := rpc.getStringValue_of_not_record name hp
  have hsession := getOrCreateSessionId_of_not_record rpc core hp
  unfold method at hm
  split at hm <;> cases hm
  · simp only [connect, connectSession, hnull, hsession]
    rfl
  · simp only [create, requireParams, hnull, hread]
    rfl
  · simp only [invoke, requireParams, hnull, hread]
    rfl
  · simp only [subscribe, requireParams, hnull, hread]
    rfl
  · simp only [unsubscribe, requireParams, hnull, hread]
    rfl
  · simp only [release, requireParams, hnull, hread]
    rfl
  · simp only [ref, refOrUnref, requireParams, hnull, hread]
    rfl
  · simp only [unref, refOrUnref, requireParams, hnull, hread]
    rfl
  · simp only [keepAlive, requireParams, hnull, hread]
    rfl
  · simp only [describe, requireParams, hnull, hsession]
    rfl
  · simp only [ping, hread]
    rfl
  · simp only [closeSession, requireParams, hnull, getBoolValue_of_not_record rpc _ hp, orDefault]
    rfl

theorem dispatch_of_not_record {name : String} (hname : Known rpc core name) {params : Json}
    (hp : params.isRecord = false)
    (handler : Json → Server σ → Option ((Bool × Json) × Server σ)) (st : Server σ) :
    ∃ t, dispatch rpc core handler name params st = some (.error .logicError, t) := by
  unfold dispatch
  split_ifs with htransaction
  · have hparams : transactionParams rpc core params st.media (st.drawn + 1) =
        (.error .logicError, st.media, st.drawn + 1) := by
      simp only [transactionParams, requireParams, isNull_of_not_record hp,
        getOrCreateSessionId_of_not_record rpc core hp]
      rfl
    simp only [transaction, transactionOver, hparams]
    exact ⟨_, rfl⟩
  · obtain ⟨m, hm⟩ := Option.isSome_iff_exists.mp (hname.resolve_left htransaction)
    simp only [hm, method_of_not_record hm hp]
    exact ⟨_, rfl⟩

/-! ### What `postProcess` throws -/

/-- A `CallException`. -/
def IsCall (e : Exc) : Prop := ∃ c, e = .call c

/-- A `CallException`, or the exception of jsoncpp for a value that is no object. -/
def IsRead (e : Exc) : Prop := IsCall e ∨ e = .logicError

theorem isCall_getValue {v : Json} (name : String) (h : v.isRecord = true) :
    Throws IsCall (rpc.getValue v name) := by
  rw [rpc.getValue_of_record name h]
  cases v.member? name
  · exact throws_error ⟨_, rfl⟩
  · exact throws_ok _

theorem isCall_getStringValue {v : Json} (name : String) (h : v.isRecord = true) :
    Throws IsCall (rpc.getStringValue v name) := by
  rw [rpc.getStringValue_of_record name h]
  cases rpc.text? v name
  · exact throws_error ⟨_, rfl⟩
  · exact throws_ok _

theorem isRead_getValue (v : Json) (name : String) : Throws IsRead (rpc.getValue v name) := by
  by_cases h : v.isRecord = true
  · exact (isCall_getValue name h).mono fun _ => Or.inl
  · rw [rpc.getValue_of_not_record name (by simpa using h)]
    exact throws_error (Or.inr rfl)

theorem isRead_getStringValue (v : Json) (name : String) :
    Throws IsRead (rpc.getStringValue v name) := by
  by_cases h : v.isRecord = true
  · exact (isCall_getStringValue name h).mono fun _ => Or.inl
  · rw [rpc.getStringValue_of_not_record name (by simpa using h)]
    exact throws_error (Or.inr rfl)

variable (rpc) in
/-- Reading the session of a member that is an object or null. -/
theorem isCall_session {v : Json} (name : String) (h : v.isRecord = true)
    (hm : ∀ w, v.member? name = some w → w.isRecord = true) :
    Throws IsCall (do rpc.getStringValue (← rpc.getValue v name) "sessionId") := by
  cases hw : v.member? name with
  | none =>
    rw [rpc.getValue_of_record name h, hw]
    exact throws_error ⟨_, rfl⟩
  | some w =>
    rw [rpc.getValue_eq_ok.mpr hw]
    exact isCall_getStringValue "sessionId" (hm w hw)

variable (rpc) in
theorem isRead_session (v : Json) (name : String) :
    Throws IsRead (do rpc.getStringValue (← rpc.getValue v name) "sessionId") :=
  (isRead_getValue v name).bind fun w => isRead_getStringValue w "sessionId"

variable (rpc) in
theorem isCall_postKey {response : Json} (hr : request.isRecord = true)
    (hp : (paramsOf request).isRecord = true) (hresp : response.isRecord = true)
    (hres : ∀ v, response.member? "result" = some v → v.isRecord = true) :
    Throws IsCall (postKey rpc request response) := by
  have hparams : ∀ v, request.member? "params" = some v → v.isRecord = true := fun v hv => by
    simpa [paramsOf, hv] using hp
  refine (isCall_getStringValue "id" hr).bind fun rid => Throws.bind ?_ fun s => throws_ok _
  have hresult := isCall_session rpc "result" hresp hres
  unfold postSession
  split
  · exact isCall_session rpc "params" hr hparams
  · exact hresult

variable (rpc) in
theorem isRead_postKey (request response : Json) : Throws IsRead (postKey rpc request response) := by
  refine (isRead_getStringValue request "id").bind fun rid => Throws.bind ?_ fun s => throws_ok _
  have hresult := isRead_session rpc response "result"
  unfold postSession
  split
  · exact isRead_session rpc request "params"
  · exact hresult

variable (rpc jsonrpc st) in
/-- `postProcess` leaves the answer as it is when the params are an object or null, and
when the method has met what `postProcess` meets in them. -/
theorem finish_agree {result : Except Exc Json} (hr : request.isRecord = true)
    (h : ((paramsOf request).isRecord = true ∧ ∀ v, result = .ok v → v.isRecord = true) ∨
      result = .error .logicError) :
    Agree (finish rpc jsonrpc request (respond jsonrpc request result) st)
      (respond jsonrpc request result, st) := by
  have hthrows : Throws (fun e => IsCall e ∨ (e = .logicError ∧ result = .error .logicError))
      (postKey rpc request (respond jsonrpc request result).2) := by
    rcases h with ⟨hp, hres⟩ | hresult
    · obtain ⟨hresp, hresult⟩ := respond_shape jsonrpc request result
      exact (isCall_postKey rpc hr hp hresp fun v hv => hres v (hresult v hv)).mono fun _ => Or.inl
    · exact (isRead_postKey rpc request _).mono fun _ he => he.imp_right fun he => ⟨he, hresult⟩
  unfold finish postProcess
  rcases hk : postKey rpc request (respond jsonrpc request result).2 with e | ⟨s, rid⟩
  · rcases hthrows e hk with ⟨c, rfl⟩ | ⟨rfl, rfl⟩ <;> exact ⟨rfl, rfl, rfl⟩
  · dsimp only
    cases st.cache.getCachedResponse s rid <;> exact ⟨rfl, rfl, rfl⟩

/-! ### Requests that are not in the cache -/

variable (rpc core) in
/-- The params are an object or null, or else a method of the handler is asked for. -/
def Answerable (request : Json) : Prop :=
  (paramsOf request).isRecord = true ∨ Known rpc core ((rpc.text? request "method").getD "")

/-- Methods that agree make calls that agree. -/
theorem call_agree {methods methods' : String → MethodRun σ}
    (hm : ∀ name params, Option.Rel Agree (methods name params st) (methods' name params st'))
    (hrec : ∀ name params v u, methods name params st = some (.ok v, u) → v.isRecord = true)
    (hp : (paramsOf request).isRecord = true ∨ ∃ u, methods ((rpc.text? request "method").getD "")
      (paramsOf request) st = some (.error .logicError, u))
    (hpre : jsonrpc.checkProtocol request = none → preProcess rpc st.cache request = none)
    (hst : SameMedia st st') :
    Option.Rel Agree (call rpc jsonrpc methods request st)
      (plainCall rpc jsonrpc methods' request st') := by
  unfold call plainCall
  cases hproto : jsonrpc.checkProtocol request with
  | some response => exact .some ⟨rfl, hst⟩
  | none =>
    rw [hpre hproto]
    rcases rel_cases (hm ((rpc.text? request "method").getD "") (paramsOf request)) with
      ⟨hn, hn'⟩ | ⟨⟨x, u⟩, ⟨x', u'⟩, hu, hu', hx, hsu⟩
    · rw [hn, hn']
      exact .none
    · obtain rfl : x = x' := hx
      have hr := Json.isRecord_of_isObject (jsonrpc.protocol_object request hproto)
      have hv : ∀ v, x = .ok v → v.isRecord = true := fun v hv => hrec _ _ v u (hv ▸ hu)
      have hend : ((paramsOf request).isRecord = true ∧ ∀ v, x = .ok v → v.isRecord = true) ∨
          x = .error .logicError := by
        rcases hp with hp | ⟨w, hw⟩
        · exact Or.inl ⟨hp, hv⟩
        · rw [hu] at hw
          exact Or.inr (Prod.mk.inj (Option.some.inj hw)).1
      obtain ⟨hanswer, hserver⟩ := finish_agree rpc jsonrpc u hr hend
      rw [hu, hu']
      exact .some ⟨hanswer, hserver.trans hsu⟩

variable (rpc core jsonrpc) in
/-- Requests that are not in the cache are handled alike. -/
def AgreeUncached (depth : ℕ) : Prop :=
  ∀ ⦃request : Json⦄ ⦃st st' : Server σ⦄, request.isArray = false →
    Answerable rpc core request → Fresh core st →
    (jsonrpc.checkProtocol request = none → preProcess rpc st.cache request = none) →
    SameMedia st st' → Option.Rel Agree (handlerProcess rpc core jsonrpc depth request st)
      (plainProcess rpc core jsonrpc depth request st')

/-- The params of an operation that is handed over are an object. -/
theorem prepare_params {uniqueId sessionId : String} {i : ℕ} {operation responses r : Json}
    (h : prepare rpc uniqueId sessionId i operation responses = .ok (request, r)) :
    (paramsOf request).isRecord = true := by
  obtain ⟨ms, pms, params, -, -, -, hs, rfl, -⟩ := prepare_eq_ok.mp h
  simp only [withSessionId, substitute, bind_eq_ok, pure, Except.pure, Except.ok.injEq] at hs
  obtain ⟨pms', -, rfl⟩ := hs
  have hne : ("params" : String) ≠ "id" := by decide
  rw [paramsOf, Json.member?_obj, Assoc.find_put_of_ne hne, Assoc.find_put_self]
  rfl

/-- The operations have internal ids, which are not in the cache. -/
theorem transactionLoop_agree {depth : ℕ} (h : AgreeUncached rpc core jsonrpc depth)
    {uniqueId : String} {i : ℕ} (sessionId : String) (operations : List Json) (responses : Json)
    (hpr : Pristine core (fun _ _ => True) (internalId uniqueId) i st) (hst : SameMedia st st') :
    Option.Rel Agree
      (transactionLoop rpc (handlerProcess rpc core jsonrpc depth) uniqueId sessionId i operations
        responses st)
      (transactionLoop rpc (plainProcess rpc core jsonrpc depth) uniqueId sessionId i operations
        responses st') := by
  induction operations generalizing i responses st st' with
  | nil => exact .some ⟨rfl, hst⟩
  | cons operation rest ih =>
    simp only [transactionLoop]
    rcases hp : prepare rpc uniqueId sessionId i operation responses with e | ⟨request, r₁⟩
    · exact .some ⟨rfl, hst⟩
    · obtain ⟨hobj, hid, -⟩ := prepare_id hp
      have hc : Carries rpc (fun _ => True) (internalId uniqueId i) request :=
        carries_of_member? hid
      have harr : request.isArray = false := by cases request <;> first | rfl | cases hobj
      rcases rel_cases (h harr (Or.inl (prepare_params hp)) hpr.fresh (fun _ => hc.preProcess hpr) hst) with
        ⟨hn, hn'⟩ | ⟨⟨⟨ret, v⟩, u⟩, ⟨a', u'⟩, hu, hu', ha, hsu⟩
      · simp only [hn, hn']
        exact .none
      · obtain rfl : (ret, v) = a' := ha
        simp only [hu, hu']
        cases recordResponse i r₁ v with
        | error e => exact .some ⟨rfl, hsu⟩
        | ok r₂ =>
          cases ret
          · exact .some ⟨rfl, hsu⟩
          · exact ih r₂ (handlerProcess_step hpr hc hu).2 hsu

theorem transaction_agree {depth : ℕ} (h : AgreeUncached rpc core jsonrpc depth) (params : Json)
    (hf : Fresh core st) (hst : SameMedia st st') :
    Option.Rel Agree (transaction rpc core (handlerProcess rpc core jsonrpc depth) params st)
      (transaction rpc core (plainProcess rpc core jsonrpc depth) params st') := by
  obtain ⟨media, cache, drawn⟩ := st
  obtain ⟨_, cache', _⟩ := st'
  obtain ⟨rfl, rfl⟩ := hst
  simp only [transaction, transactionOver]
  rcases hp : transactionParams rpc core params media (drawn + 1) with ⟨e | ⟨s, ops⟩, media', drawn'⟩
  · exact .some ⟨rfl, rfl, rfl⟩
  · have hlt : drawn < drawn' := (transactionParams_eq hp).2
    have hst : SameMedia ⟨media', cache, drawn'⟩ (⟨media', cache', drawn'⟩ : Server σ) := ⟨rfl, rfl⟩
    rcases rel_cases (transactionLoop_agree h s ops .null (hf.pristine_internalId media' hlt) hst)
      with ⟨hn, hn'⟩ | ⟨⟨x, u⟩, ⟨x', u'⟩, hu, hu', hx, hsu⟩
    · simp only [id, hn, hn']
      exact .none
    · obtain rfl : x = x' := hx
      simp only [id, hu, hu']
      cases x <;> exact .some ⟨rfl, hsu⟩

theorem dispatch_agree {depth : ℕ} (h : AgreeUncached rpc core jsonrpc depth) (name : String)
    (params : Json) (hf : Fresh core st) (hst : SameMedia st st') :
    Option.Rel Agree (dispatch rpc core (handlerProcess rpc core jsonrpc depth) name params st)
      (dispatch rpc core (plainProcess rpc core jsonrpc depth) name params st') := by
  unfold dispatch
  split_ifs
  · exact transaction_agree h params hf hst
  · cases method rpc core name with
    | none => exact .some ⟨rfl, hst⟩
    | some m =>
      simp only [hst.1, hst.2]
      exact .some ⟨rfl, rfl, rfl⟩

/-- One call, with transactions nested less than `depth` deep. -/
theorem call_dispatch_agree {depth : ℕ} (h : AgreeUncached rpc core jsonrpc depth)
    (hp : Answerable rpc core request) (hf : Fresh core st)
    (hpre : jsonrpc.checkProtocol request = none → preProcess rpc st.cache request = none)
    (hst : SameMedia st st') :
    Option.Rel Agree
      (call rpc jsonrpc (dispatch rpc core (handlerProcess rpc core jsonrpc depth)) request st)
      (plainCall rpc jsonrpc (dispatch rpc core (plainProcess rpc core jsonrpc depth)) request
        st') := by
  refine call_agree (fun name params => dispatch_agree h name params hf hst)
    (fun _ _ _ _ hd => (dispatch_reports (handlerProcess_extends depth) hd).1) ?_ hpre hst
  by_cases hrec : (paramsOf request).isRecord = true
  · exact Or.inl hrec
  · exact Or.inr (dispatch_of_not_record (hp.resolve_left hrec) (by simpa using hrec) _ st)

variable (rpc core jsonrpc) in
theorem agreeUncached (depth : ℕ) : AgreeUncached rpc core jsonrpc depth := by
  induction depth with
  | zero =>
    intro request st st' _ _ _ _ _
    exact .none
  | succ depth ih =>
    intro request st st' harr hp hf hpre hst
    have hcall := call_dispatch_agree ih hp hf hpre hst
    cases request <;> first | exact hcall | cases harr

/-! ### Messages -/

/-- `process` does what its handler does. -/
theorem process_agree {text : JsonText} {payload sessionId : String}
    {handler handler' : Json → Server σ → Option ((Bool × Json) × Server σ)}
    (h : ∀ req, text.parse payload = some req → Admits sessionId req →
      Option.Rel Agree (handler (delivered rpc sessionId req) st)
        (handler' (delivered rpc sessionId req) st'))
    (hst : SameMedia st st') :
    Option.Rel Agree (process rpc text handler payload sessionId st)
      (process rpc text handler' payload sessionId st') := by
  cases hp : text.parse payload with
  | none =>
    simp only [process, hp]
    exact .some ⟨rfl, hst⟩
  | some req =>
    by_cases ha : Admits sessionId req
    · obtain ⟨hnone, hsome⟩ := process_of_parsed rpc handler st hp ha
      obtain ⟨hnone', hsome'⟩ := process_of_parsed rpc handler' st' hp ha
      rcases rel_cases (h req hp ha) with ⟨hn, hn'⟩ | ⟨⟨⟨ret, resp⟩, u⟩, ⟨a', u'⟩, hu, hu', hr, hsu⟩
      · rw [hnone hn, hnone' hn']
        exact .none
      · obtain rfl : (ret, resp) = a' := hr
        by_cases hread : Readable resp
        · rw [(hsome _ _ _ hu).1 hread, (hsome' _ _ _ hu').1 hread]
          exact .some ⟨rfl, hsu⟩
        · rw [(hsome _ _ _ hu).2 hread, (hsome' _ _ _ hu').2 hread]
          exact .some ⟨rfl, hsu⟩
    · rw [process_of_not_admitted rpc handler st hp ha, process_of_not_admitted rpc handler' st' hp ha]
      exact .some ⟨rfl, hst⟩

end Plain

end KurentoMediaServer.Methods
