import KurentoMediaServer.Foundations.Run
import KurentoMediaServer.Cache.AtMostOnce

/-! Retransmissions. A request that has been dispatched leaves its response in the cache
under the key a later request with the same id and session is looked up by. It stays
there until its own timer fires, whatever other requests and timers come in between.
This goes for whole requests, for those of a batch and for operations of transactions
alike: `Reaches` tells the requests that are handled on the way. -/

namespace KurentoMediaServer.Cache

open Foundations Methods

variable {σ : Type} (rpc : JsonRpc) (core : Core σ) (jsonrpc : RpcHandler)

/-- The methods, with transactions nested less than `depth` deep. -/
abbrev methodsAt (depth : ℕ) : String → MethodRun σ :=
  dispatch rpc core (handlerProcess rpc core jsonrpc depth)

/-- In a state without a response for it, a request that keeps to the protocol is
dispatched. -/
def Dispatched (request : Json) (st : Server σ) : Prop :=
  jsonrpc.checkProtocol request = none ∧ preProcess rpc st.cache request = none

/-- While `handler.process` handles `req` from `st` it comes to `q` in the state `u`:
`q` is `req` itself, or one of a batch, or an operation of a transaction it has come
to. The index `d` is the depth left for transactions in `q`. -/
inductive Reaches (req : Json) (st : Server σ) : ℕ → ℕ → Json → Server σ → Prop
  | self {depth : ℕ} : req.isArray = false → Reaches req st (depth + 1) depth req st
  | item {depth : ℕ} {pre post : List Json} {q : Json} {rs : List (Bool × Json)} {u : Server σ} :
      req = .arr (pre ++ q :: post) →
      callAll rpc jsonrpc (methodsAt rpc core jsonrpc depth) pre st = some (rs, u) →
      Reaches req st (depth + 1) depth q u
  | operation {depth d : ℕ} {q₀ q op : Json} {u₀ u : Server σ} {s : String} {pre post rs : List Json}
      {media : σ} {drawn : ℕ} :
      Reaches req st depth (d + 1) q₀ u₀ → Dispatched rpc jsonrpc q₀ u₀ →
      rpc.text? q₀ "method" = some "transaction" →
      transactionParams rpc core (paramsOf q₀) u₀.media (u₀.drawn + 1) =
        (.ok (s, pre ++ op :: post), media, drawn) →
      execute (prepared rpc (core.uuid u₀.drawn) s) (handlerProcess rpc core jsonrpc (d + 1)) pre []
        { u₀ with media, drawn } = some (.ok true, rs, u) →
      prepared rpc (core.uuid u₀.drawn) s rs.length op rs = .ok q →
      Reaches req st depth d q u

section Frame
variable {rpc core jsonrpc} {req q : Json} {st t u : Server σ} {depth d : ℕ} {r : Bool × Json}

theorem methodsAt_extends (depth : ℕ) (name : String) (params : Json) (st : Server σ)
    (result : Except Exc Json) (t : Server σ)
    (h : methodsAt rpc core jsonrpc depth name params st = some (result, t)) :
    Extends core (fun _ _ => False) st t :=
  dispatch_extends (handlerProcess_extends depth) name params st result t h

theorem handlerProcess_of_not_array (h : req.isArray = false) :
    handlerProcess rpc core jsonrpc (depth + 1) req st =
      call rpc jsonrpc (methodsAt rpc core jsonrpc depth) req st := by
  cases req <;> first | rfl | cases h

/-- A request that is reached is handled by a call, and the server is only extended
before and after it. -/
theorem Reaches.frame (h : Reaches rpc core jsonrpc req st depth d q u) (hst : st.cache.Records)
    (hr : handlerProcess rpc core jsonrpc depth req st = some (r, t)) :
    Extends core (fun _ _ => True) st u ∧ ∃ a u',
      call rpc jsonrpc (methodsAt rpc core jsonrpc d) q u = some (a, u') ∧
      Extends core (fun _ _ => True) u' t := by
  induction h with
  | @self depth harr =>
    rw [handlerProcess_of_not_array harr] at hr
    exact ⟨Extends.refl st, r, t, hr, Extends.refl t⟩
  | @item depth pre post q rs u hreq hpre =>
    subst hreq
    obtain ⟨⟨rs', t'⟩, hall, he⟩ := Option.map_eq_some_iff.mp hr
    cases he
    rw [callAll_append, hpre] at hall
    obtain ⟨⟨rs'', t''⟩, hpost, he⟩ := Option.map_eq_some_iff.mp hall
    cases he
    simp only [callAll] at hpost
    split at hpost
    · cases hpost
    · next a u' hu' =>
      obtain ⟨⟨rs₂, t₂⟩, hrest, he⟩ := Option.map_eq_some_iff.mp hpost
      cases he
      exact ⟨(callAll_extends (methodsAt_extends depth) hpre).weaken fun _ _ _ => Or.inl trivial,
        a, u', hu', (callAll_extends (methodsAt_extends depth) hrest).weaken
          fun _ _ _ => Or.inl trivial⟩
  | @operation depth d q₀ q op u₀ u s pre post rs media drawn _ hdisp hname hp hpre hq ih =>
    obtain ⟨hx₀, a₀, u₀', hcall, hx₀'⟩ := ih hr
    rcases call_cases hcall with ⟨-, -, hv⟩ | ⟨-, -, hv⟩ | ⟨-, -, result, v, hm, hf⟩
    · rw [hdisp.1] at hv
      cases hv
    · rw [hdisp.2] at hv
      cases hv
    · have hbegin : Extends core (fun _ _ => True) u₀ { u₀ with media, drawn } :=
        Extends.of_cache_eq (Nat.le_of_succ_le (transactionParams_eq hp).2) rfl
      have hfinish := finish_extends core rpc jsonrpc q₀ (respond jsonrpc q₀ result) v
      rw [hf] at hfinish
      have hend : Extends core (fun _ _ => True) v t :=
        (hfinish.weaken fun _ _ _ => Or.inl trivial).trans hx₀'
      -- the method is the transaction, and the transaction is its operations
      rw [hname, Option.getD_some, methodsAt, dispatch, if_pos rfl,
        transaction_eq_execute (hx₀.records hst) hp, execute_append, hpre] at hm
      obtain ⟨⟨x, vs, v'⟩, hpost, he⟩ := Option.map_eq_some_iff.mp hm
      cases he
      simp only [execute, hq] at hpost
      have hid := prepared_identified hq
      rw [handlerProcess_of_identified d hid] at hpost
      refine ⟨(hx₀.trans hbegin).trans (execute_extends hpre), ?_⟩
      split at hpost
      · cases hpost
      · next v₁ u₁ hu₁ => exact ⟨_, u₁, hu₁, (execute_extends hpost).trans hend⟩
      · next v₁ u₁ hu₁ => cases hpost; exact ⟨_, _, hu₁, hend⟩

end Frame

/-! ### The key of a dispatched request -/

/-- The session a request is handled in: the one its params name, or else the one its
result shows. -/
def effectiveSession (request response : Json) : Option String :=
  (paramsSession rpc request).orElse fun _ => resultSession rpc response

/-- A request with the id `rid` that is handled in the session `s`, and its response. -/
structure ForKey (s rid : String) (request response : Json) : Prop where
  protocol : jsonrpc.checkProtocol request = none
  id : rpc.text? request "id" = some rid
  session : effectiveSession rpc request response = some s

/-- What generating new UUIDs means for a request: its id is no internal id of one to
come, and when it names no session the cache knows none that may be generated. -/
structure Novel (rid : String) (request : Json) (st : Server σ) : Prop where
  id : ∀ n i, st.drawn ≤ n → rid ≠ internalId (core.uuid n) i
  session : paramsSession rpc request = none → ∀ n r, st.drawn ≤ n →
    st.cache.entry (core.uuid n) r = none

section Key
variable {rpc core jsonrpc} {q : Json} {u u' : Server σ} {a : Bool × Json} {s rid : String} {d : ℕ}

theorem call_dispatched (hdisp : Dispatched rpc jsonrpc q u)
    (hcall : call rpc jsonrpc (methodsAt rpc core jsonrpc d) q u = some (a, u')) :
    ∃ result v, Extends core (fun _ _ => False) u v ∧
      (∀ w, result = .ok w → ReportsSession rpc core (paramsOf q) u.drawn v.drawn w) ∧
      finish rpc jsonrpc q (respond jsonrpc q result) v = (a, u') ∧
      methodsAt rpc core jsonrpc d ((rpc.text? q "method").getD "") (paramsOf q) u =
        some (result, v) := by
  rcases call_cases hcall with ⟨-, -, hv⟩ | ⟨-, -, hv⟩ | ⟨-, -, result, v, hm, hf⟩
  · rw [hdisp.1] at hv
    cases hv
  · rw [hdisp.2] at hv
    cases hv
  · refine ⟨result, v, methodsAt_extends d _ _ _ _ _ hm, fun w hw => ?_, hf, hm⟩
    subst hw
    exact dispatch_reports (handlerProcess_extends d) hm

/-- The answer is the response to the method, or an error in its place when the
response cannot be given a key. -/
theorem finish_cases {answer : Bool × Json} {v : Server σ}
    (hf : finish rpc jsonrpc q answer v = (a, u')) :
    (a = answer ∧ u'.drawn = v.drawn) ∨
      ∃ e, a = respond jsonrpc q (.error e) ∧ postKey rpc q answer.2 = .error e ∧ u' = v := by
  unfold finish postProcess at hf
  rcases hk : postKey rpc q answer.2 with e | ⟨s, rid⟩
  · rw [hk] at hf
    cases e <;> cases hf <;> first
      | exact Or.inl ⟨rfl, rfl⟩
      | exact Or.inr ⟨_, rfl, rfl, rfl⟩
  · rw [hk] at hf
    dsimp only at hf
    cases hc : v.cache.getCachedResponse s rid <;> (rw [hc] at hf; cases hf; exact Or.inl ⟨rfl, rfl⟩)

theorem call_reports (hdisp : Dispatched rpc jsonrpc q u)
    (hcall : call rpc jsonrpc (methodsAt rpc core jsonrpc d) q u = some (a, u')) :
    a.2.isRecord = true ∧ ∀ v, a.2.member? "result" = some v →
      ReportsSession rpc core (paramsOf q) u.drawn u'.drawn v := by
  obtain ⟨result, v, -, hrep, hf, -⟩ := call_dispatched hdisp hcall
  rcases finish_cases hf with ⟨rfl, hd⟩ | ⟨e, rfl, -⟩
  · obtain ⟨hrec, hres⟩ := respond_shape jsonrpc q result
    exact ⟨hrec, fun w hw => hd ▸ hrep w (hres w hw)⟩
  · obtain ⟨hrec, hres⟩ := respond_shape jsonrpc q (.error e)
    exact ⟨hrec, fun w hw => by cases hres w hw⟩

/-- The session a response is stored under is the one the request is handled in. -/
theorem postKey_iff {response : Json} {n k : ℕ} (hrec : response.isRecord = true)
    (hrep : ∀ v, response.member? "result" = some v → ReportsSession rpc core (paramsOf q) n k v)
    (hid : rpc.text? q "id" = some rid) :
    postKey rpc q response = .ok (s, rid) ↔ effectiveSession rpc q response = some s := by
  rw [postKey_eq_ok hrec fun v hv => (hrep v hv).1]
  simp only [hid, true_and, effectiveSession]
  cases hp : paramsSession rpc q with
  | none => cases resultSession rpc response <;> simp
  | some s' =>
    cases hr : resultSession rpc response with
    | none => simp
    | some s'' =>
      obtain ⟨v, hv, hs⟩ := Option.bind_eq_some_iff.mp hr
      rw [paramsSession_eq] at hp
      rcases (hrep v hv).2 s'' hs with h | ⟨h, -⟩
      · rw [hp] at h
        cases h
        simp
      · rw [hp] at h
        cases h

/-- A session that the params do not name is one the cache does not know. -/
theorem session_of_novel {k : ℕ} {response : Json}
    (hrep : ∀ v, response.member? "result" = some v →
      ReportsSession rpc core (paramsOf q) u.drawn k v)
    (hs : effectiveSession rpc q response = some s) (hnovel : Novel rpc core rid q u) :
    paramsSession rpc q = some s ∨
      (paramsSession rpc q = none ∧ u.cache.entry s rid = none) := by
  cases hp : paramsSession rpc q with
  | some s' => exact Or.inl (by simpa [effectiveSession, hp] using hs)
  | none =>
    have hres : resultSession rpc response = some s := by simpa [effectiveSession, hp] using hs
    obtain ⟨v, hv, hvs⟩ := Option.bind_eq_some_iff.mp hres
    have hp' := hp
    rw [paramsSession_eq] at hp'
    rcases (hrep v hv).2 s hvs with h | ⟨-, i, hi, -, rfl⟩
    · rw [hp'] at h
      cases h
    · exact Or.inr ⟨rfl, hnovel.session hp i rid hi⟩

/-- A dispatched request leaves its response under the id and the session it was
handled in. -/
theorem call_stores (hdisp : Dispatched rpc jsonrpc q u)
    (hcall : call rpc jsonrpc (methodsAt rpc core jsonrpc d) q u = some (a, u'))
    (hkey : ForKey rpc jsonrpc s rid q a.2) (hnovel : Novel rpc core rid q u) :
    ∃ n, u'.cache.entry s rid = some ⟨a.2, n, false⟩ := by
  obtain ⟨hrec, hrep⟩ := call_reports hdisp hcall
  obtain ⟨result, v, hx, hmethod, hf, -⟩ := call_dispatched hdisp hcall
  -- nothing is known under the key before, and the method adds nothing to it
  have hunknown : u.cache.entry s rid = none := by
    rcases session_of_novel hrep hkey.session hnovel with hp | ⟨-, hno⟩
    · have hlook := preProcess_of_key u.cache hkey.id hp
      rw [hdisp.2] at hlook
      simpa [RequestCache.getCachedResponse] using hlook.symm
    · exact hno
  have hnone : v.cache.getCachedResponse s rid = none := by
    rw [RequestCache.getCachedResponse, hx.entry_eq id hnovel.id, hunknown, Option.map_none]
  rcases finish_cases hf with ⟨rfl, -⟩ | ⟨e, rfl, he, -⟩
  · have hk := (postKey_iff hrec hrep hkey.id).mpr hkey.session
    simp only [finish, postProcess, hk, hnone, pure, Except.pure] at hf
    cases hf
    exact ⟨_, by rw [RequestCache.entry_addResponse, if_pos ⟨rfl, rfl⟩]⟩
  · -- an error in place of the answer shows no session, and the params name none either
    have hp : paramsSession rpc q = some s := by
      simpa [effectiveSession, resultSession, respond, failure_result] using hkey.session
    rw [postKey_respond hmethod hkey.id hp] at he
    cases he

/-- A request whose key is in the cache is answered with the response that stands there,
whatever its method would do. -/
theorem call_replays {e : CacheEntry} (he : u.cache.entry s rid = some e)
    (hcall : call rpc jsonrpc (methodsAt rpc core jsonrpc d) q u = some (a, u'))
    (hkey : ForKey rpc jsonrpc s rid q a.2) (hnovel : Novel rpc core rid q u) :
    a.2 = e.response ∧ u' = u ∧ ∀ methods, call rpc jsonrpc methods q u = some (a, u) := by
  have hlook : paramsSession rpc q = some s → preProcess rpc u.cache q = some e.response :=
    fun hp => by rw [preProcess_of_key _ hkey.id hp, RequestCache.getCachedResponse, he, Option.map_some]
  have hp : paramsSession rpc q = some s := by
    cases hpre : preProcess rpc u.cache q with
    | none =>
      obtain ⟨-, hrep⟩ := call_reports ⟨hkey.protocol, hpre⟩ hcall
      rcases session_of_novel hrep hkey.session hnovel with hp | ⟨-, hno⟩
      · exact hp
      · rw [he] at hno
        cases hno
    | some resp =>
      obtain ⟨s', rid', -, hp, -⟩ := preProcess_eq_some.mp hpre
      rw [hp]
      have hs := hkey.session
      rwa [effectiveSession, hp] at hs
  have hcached (methods : String → MethodRun σ) : call rpc jsonrpc methods q u =
      some ((jsonrpc.cachedRet e.response, e.response), u) := by
    simp only [call, hkey.protocol, hlook hp]
  rw [hcached] at hcall
  cases hcall
  exact ⟨rfl, rfl, hcached⟩

end Key

/-! ### Where a response comes from -/

section Added
variable {rpc core jsonrpc} {req q : Json} {st t u u' : Server σ} {a : Bool × Json} {s rid : String}
  {depth d : ℕ}

theorem finish_adds {answer : Bool × Json} {v : Server σ} {c : CacheEntry}
    (hf : finish rpc jsonrpc q answer v = (a, u')) (hno : v.cache.entry s rid = none)
    (hyes : u'.cache.entry s rid = some c) :
    postKey rpc q a.2 = .ok (s, rid) ∧ a.2 = c.response := by
  have hchanged : u'.cache ≠ v.cache := by
    rintro hc
    rw [RequestCache.entry, hc] at hyes
    exact absurd (hno.symm.trans hyes) (Option.some_ne_none c).symm
  unfold finish postProcess at hf
  rcases hk : postKey rpc q answer.2 with e | ⟨s', rid'⟩
  · rw [hk] at hf
    cases e <;> cases hf <;> exact absurd rfl hchanged
  · rw [hk] at hf
    dsimp only at hf
    cases hc : v.cache.getCachedResponse s' rid' with
    | some x =>
      rw [hc] at hf
      cases hf
      exact absurd rfl hchanged
    | none =>
      rw [hc] at hf
      cases hf
      simp only [RequestCache.entry_addResponse] at hyes
      split_ifs at hyes with hkey
      · obtain ⟨rfl, rfl⟩ := hkey
        cases hyes
        exact ⟨hk, rfl⟩
      · exact absurd (hno.symm.trans hyes) (Option.some_ne_none c).symm

/-- Only a transaction that has its operations changes the cache. -/
theorem dispatch_transaction {handler : Json → Server σ → Option ((Bool × Json) × Server σ)}
    {result : Except Exc Json} {params : Json}
    (hm : dispatch rpc core handler ((rpc.text? q "method").getD "") params u = some (result, t))
    (hc : t.cache ≠ u.cache) :
    ∃ s operations media drawn, rpc.text? q "method" = some "transaction" ∧
      transactionParams rpc core params u.media (u.drawn + 1) = (.ok (s, operations), media, drawn) ∧
      transaction rpc core handler params u = some (result, t) := by
  unfold dispatch at hm
  split_ifs at hm with hname
  · rcases hp : transactionParams rpc core params u.media (u.drawn + 1) with
      ⟨e | ⟨s, operations⟩, media, drawn⟩
    · simp only [transaction, transactionOver, hp, Option.some.injEq, Prod.mk.injEq] at hm
      exact absurd (by rw [← hm.2]; rfl) hc
    · refine ⟨s, operations, media, drawn, ?_, rfl, hm⟩
      cases hq : rpc.text? q "method" with
      | none =>
        rw [hq] at hname
        exact absurd hname (by decide)
      | some m =>
        rw [hq] at hname
        exact congrArg some hname
  · split at hm <;> cases hm <;> exact absurd rfl hc

variable (rpc jsonrpc) in
/-- The request is dispatched under the key, and the entry holds its answer. -/
structure Stores (s rid : String) (c : CacheEntry) (q : Json) (u : Server σ) (a : Bool × Json)
    (u' : Server σ) : Prop where
  dispatched : Dispatched rpc jsonrpc q u
  key : ForKey rpc jsonrpc s rid q a.2
  response : a.2 = c.response
  before : u.cache.entry s rid = none
  after : u'.cache.entry s rid = some c

theorem Reaches.added {c : CacheEntry} (h : Reaches rpc core jsonrpc req st depth d q u)
    (hu : u.cache.Records)
    (hcall : call rpc jsonrpc (methodsAt rpc core jsonrpc d) q u = some (a, u'))
    (hno : u.cache.entry s rid = none) (hyes : u'.cache.entry s rid = some c) :
    ∃ d' q' w b w', Reaches rpc core jsonrpc req st depth d' q' w ∧
      call rpc jsonrpc (methodsAt rpc core jsonrpc d') q' w = some (b, w') ∧
      Stores rpc jsonrpc s rid c q' w b w' := by
  induction d using Nat.strong_induction_on generalizing q u a u' with
  | _ d ih =>
    by_cases hdisp : Dispatched rpc jsonrpc q u
    · obtain ⟨result, v, hx, -, hf, hm⟩ := call_dispatched hdisp hcall
      obtain ⟨hrec, hrep⟩ := call_reports hdisp hcall
      cases hv : v.cache.entry s rid with
      | none =>
        -- its own response
        obtain ⟨hkey, hresponse⟩ := finish_adds hf hv hyes
        have hid := postKey_id hkey
        exact ⟨d, q, u, a, u', h, hcall, hdisp,
          ⟨hdisp.1, hid, (postKey_iff hrec hrep hid).mp hkey⟩, hresponse, hno, hyes⟩
      | some c' =>
        -- an operation of the transaction it is
        have hfinish := (finish_extends core rpc jsonrpc q (respond jsonrpc q result) v).kept s rid c'
        rw [hf] at hfinish
        obtain rfl : c' = c := Option.some.inj ((hfinish hv).symm.trans hyes)
        obtain ⟨sid, ops, media, drawn, hname, hp, hrun⟩ := dispatch_transaction hm fun hc => by
          rw [RequestCache.entry, hc] at hv
          exact absurd (hno.symm.trans hv) (Option.some_ne_none c').symm
        rw [transaction_eq_execute hu hp] at hrun
        obtain ⟨⟨x, vs, v'⟩, hex, he⟩ := Option.map_eq_some_iff.mp hrun
        cases he
        obtain ⟨pre, op, post, rs, w, req', r, w', rfl, hpre, hq, hr, hw, hw'⟩ :=
          execute_change (P := fun u : Server σ => u.cache.entry s rid = some c') hex
            (by simp [hno]) hv
        have hkept := (handlerProcess_extends d _ _ _ _ hr).kept s rid
        have hwno : w.cache.entry s rid = none := by
          cases hwc : w.cache.entry s rid with
          | none => rfl
          | some c₁ => exact absurd (hwc.trans (hkept c₁ hwc ▸ hw')) hw
        cases d with
        | zero => cases hr
        | succ d =>
          rw [handlerProcess_of_identified d (prepared_identified hq)] at hr
          have hw₀ : w.cache.Records := (execute_extends hpre).records hu
          exact ih d (Nat.lt_succ_self d) (.operation h hdisp hname hp hpre hq) hw₀ hr hwno hw'
    · rcases call_cases hcall with ⟨rfl, -⟩ | ⟨rfl, -⟩ | ⟨hp, hpre, -⟩
      · exact absurd (hno.symm.trans hyes) (Option.some_ne_none c).symm
      · exact absurd (hno.symm.trans hyes) (Option.some_ne_none c).symm
      · exact absurd ⟨hp, hpre⟩ hdisp

theorem handlerProcess_added {r : Bool × Json} {c : CacheEntry} (hst : st.cache.Records)
    (hr : handlerProcess rpc core jsonrpc depth req st = some (r, t))
    (hno : st.cache.entry s rid = none) (hyes : t.cache.entry s rid = some c) :
    ∃ d q u a u', Reaches rpc core jsonrpc req st depth d q u ∧
      call rpc jsonrpc (methodsAt rpc core jsonrpc d) q u = some (a, u') ∧
      Stores rpc jsonrpc s rid c q u a u' := by
  cases depth with
  | zero => cases hr
  | succ depth =>
    by_cases harr : req.isArray = true
    · obtain ⟨items, rfl⟩ : ∃ items, req = .arr items := by
        cases req <;> first | exact ⟨_, rfl⟩ | cases harr
      obtain ⟨⟨rs, t'⟩, hall, he⟩ := Option.map_eq_some_iff.mp hr
      cases he
      obtain ⟨pre, q, post, vs, u, a, u', rfl, hpre, hcall, hu, hu'⟩ :=
        callAll_change (P := fun u : Server σ => u.cache.entry s rid = some c) hall
          (by simp [hno]) hyes
      have hrec : u.cache.Records := (callAll_extends (methodsAt_extends depth) hpre).records hst
      have hkept := (call_extends (methodsAt_extends depth) hcall).kept s rid
      have huno : u.cache.entry s rid = none := by
        cases huc : u.cache.entry s rid with
        | none => rfl
        | some c₁ => exact absurd (huc.trans (hkept c₁ huc ▸ hu')) hu
      exact (Reaches.item rfl hpre).added hrec hcall huno hu'
    · have harr' : req.isArray = false := by simpa using harr
      rw [handlerProcess_of_not_array harr'] at hr
      exact (Reaches.self harr').added hst hr hno hyes

end Added

/-! ### Runs -/

/-- A call of `process`, with the nesting its handler returns for, or a timer. -/
inductive ServerEvent where
  | process (payload sessionId : String) (depth : ℕ)
  | timeout (source : ℕ)

variable (text : JsonText)

def ServerStep (st : Server σ) : ServerEvent → Server σ → Prop
  | .process payload sessionId depth, t =>
    ∃ x, process rpc text (handlerProcess rpc core jsonrpc depth) payload sessionId st = some (x, t)
  | .timeout source, t => t = { st with cache := st.cache.fire source }

/-- While the event takes place `q` is handled in the state `u`, and answered. -/
def Exchange (st : Server σ) : ServerEvent → Json → Server σ → Bool × Json → Server σ → Prop
  | .process payload sessionId depth, q, u, a, u' =>
    ∃ req d, text.parse payload = some req ∧ Admits sessionId req ∧
      Reaches rpc core jsonrpc (delivered rpc sessionId req) st depth d q u ∧
      call rpc jsonrpc (methodsAt rpc core jsonrpc d) q u = some (a, u')
  | .timeout _, _, _, _, _ => False

/-- A request answered with the given response, whatever its method would do, and
with the server as it was. -/
def Replayed (response : Json) (q : Json) (w : Server σ) (a : Bool × Json) (w' : Server σ) : Prop :=
  a.2 = response ∧ w' = w ∧ ∀ methods, call rpc jsonrpc methods q w = some (a, w)

/-- No request with the key is handled while the event takes place. -/
def Without (s rid : String) (st : Server σ) (e : ServerEvent) : Prop :=
  ∀ q u a u', Exchange rpc core jsonrpc text st e q u a u' → ¬ ForKey rpc jsonrpc s rid q a.2

section Runs
variable {rpc core jsonrpc text} {st t u u' : Server σ} {e : ServerEvent} {q : Json}
  {a : Bool × Json} {s rid : String}

theorem ServerStep.timed (h : ServerStep rpc core jsonrpc text st e t)
    (hst : st.cache.Timed ∧ st.cache.Records) : t.cache.Timed ∧ t.cache.Records := by
  cases e with
  | process payload sessionId depth =>
    obtain ⟨x, h⟩ := h
    rcases process_eq_some rpc h with rfl | ⟨req, r, -, -, hr⟩
    · exact hst
    · have hx := handlerProcess_extends depth _ _ _ _ hr
      exact ⟨hx.timed hst.1, hx.records hst.2⟩
  | timeout n =>
    obtain rfl := h
    refine ⟨hst.1.fire n, fun s r e he => ?_⟩
    rw [RequestCache.entry_fire] at he
    split_ifs at he
    exact hst.2 s r e he

/-- The server is only extended before a request is handled, by it and after it. -/
theorem Exchange.frame (h : Exchange rpc core jsonrpc text st e q u a u')
    (hst : st.cache.Records) (hstep : ServerStep rpc core jsonrpc text st e t) :
    Extends core (fun _ _ => True) st u ∧ Extends core (fun _ _ => True) u u' ∧
      Extends core (fun _ _ => True) u' t := by
  cases e with
  | process payload sessionId depth =>
    obtain ⟨req, d, hp, ha, hreach, hcall⟩ := h
    obtain ⟨x, hx⟩ := hstep
    obtain ⟨r, hr⟩ := process_handled rpc hp ha hx
    obtain ⟨hbefore, a', w, hcall', hafter⟩ := hreach.frame hst hr
    rw [hcall] at hcall'
    cases hcall'
    exact ⟨hbefore, (call_extends (methodsAt_extends d) hcall).weaken fun _ _ _ => Or.inl trivial,
      hafter⟩
  | timeout n => exact h.elim

theorem Exchange.stores (h : Exchange rpc core jsonrpc text st e q u a u')
    (hdisp : Dispatched rpc jsonrpc q u) (hkey : ForKey rpc jsonrpc s rid q a.2)
    (hnovel : Novel rpc core rid q u) : ∃ n, u'.cache.entry s rid = some ⟨a.2, n, false⟩ := by
  cases e with
  | process payload sessionId depth =>
    obtain ⟨-, d, -, -, -, hcall⟩ := h
    exact call_stores hdisp hcall hkey hnovel
  | timeout n => exact h.elim

theorem Exchange.replays {c : CacheEntry} (h : Exchange rpc core jsonrpc text st e q u a u')
    (hc : u.cache.entry s rid = some c) (hkey : ForKey rpc jsonrpc s rid q a.2)
    (hnovel : Novel rpc core rid q u) : Replayed rpc jsonrpc c.response q u a u' := by
  cases e with
  | process payload sessionId depth =>
    obtain ⟨-, d, -, -, -, hcall⟩ := h
    exact call_replays hc hcall hkey hnovel
  | timeout n => exact h.elim

theorem ServerStep.keeps {c : CacheEntry} (h : ServerStep rpc core jsonrpc text st e t)
    (hst : st.cache.Timed) (hc : st.cache.entry s rid = some c) (he : e ≠ .timeout c.source) :
    t.cache.entry s rid = some c := by
  cases e with
  | process payload sessionId depth =>
    obtain ⟨x, h⟩ := h
    rcases process_eq_some rpc h with rfl | ⟨req, r, -, -, hr⟩
    · exact hc
    · exact (handlerProcess_extends depth _ _ _ _ hr).kept s rid c hc
  | timeout n =>
    obtain rfl := h
    rw [RequestCache.entry_fire, if_neg, hc]
    rw [hst.entry_iff, hc]
    rintro ⟨c', hc', rfl⟩
    cases hc'
    exact he rfl

theorem ServerStep.added {c : CacheEntry} (h : ServerStep rpc core jsonrpc text st e t)
    (hst : st.cache.Records) (hno : st.cache.entry s rid = none)
    (hyes : t.cache.entry s rid = some c) :
    ∃ q u a u', Exchange rpc core jsonrpc text st e q u a u' ∧
      Stores rpc jsonrpc s rid c q u a u' := by
  cases e with
  | process payload sessionId depth =>
    obtain ⟨x, h⟩ := h
    rcases process_eq_some rpc h with rfl | ⟨req, r, hp, ha, hr⟩
    · exact absurd (hno.symm.trans hyes) (Option.some_ne_none c).symm
    · obtain ⟨d, q, u, a, u', hreach, hcall, hstores⟩ := handlerProcess_added hst hr hno hyes
      exact ⟨q, u, a, u', ⟨req, d, hp, ha, hreach, hcall⟩, hstores⟩
  | timeout n =>
    obtain rfl := h
    rw [RequestCache.entry_fire, hno, ite_self] at hyes
    cases hyes

/-- When such a request is handled in a state without the key, one is dispatched. -/
theorem Exchange.dispatches (h : Exchange rpc core jsonrpc text st e q u a u')
    (hstep : ServerStep rpc core jsonrpc text st e t) (hst : st.cache.Records)
    (hno : st.cache.entry s rid = none) (hkey : ForKey rpc jsonrpc s rid q a.2) :
    ∃ q u a u', Exchange rpc core jsonrpc text st e q u a u' ∧ ForKey rpc jsonrpc s rid q a.2 ∧
      Dispatched rpc jsonrpc q u := by
  cases hpre : preProcess rpc u.cache q with
  | none => exact ⟨q, u, a, u', h, hkey, hkey.protocol, hpre⟩
  | some resp =>
    -- the response found was added since, by another such request
    obtain ⟨s', rid', hid, hp, hc⟩ := preProcess_eq_some.mp hpre
    obtain ⟨c, hc, -⟩ := Option.map_eq_some_iff.mp hc
    have hs := hkey.session
    rw [effectiveSession, hp] at hs
    cases hs
    rw [hkey.id] at hid
    cases hid
    obtain ⟨-, hcall, hafter⟩ := h.frame hst hstep
    obtain ⟨q₁, w, b, w', hex, hstores⟩ :=
      ServerStep.added hstep hst hno ((hcall.trans hafter).kept s rid c hc)
    exact ⟨q₁, w, b, w', hex, hstores.key, hstores.dispatched⟩

theorem timed_of_run {hist : List ServerEvent}
    (h : Run (ServerStep rpc core jsonrpc text) st hist t)
    (hst : st.cache.Timed ∧ st.cache.Records) : t.cache.Timed ∧ t.cache.Records :=
  h.invariant (motive := fun u => u.cache.Timed ∧ u.cache.Records)
    (fun _ _ _ hu hstep => hstep.timed hu) hst

theorem kept_of_run {hist : List ServerEvent} {c : CacheEntry}
    (h : Run (ServerStep rpc core jsonrpc text) st hist t)
    (hst : st.cache.Timed ∧ st.cache.Records) (hc : st.cache.entry s rid = some c)
    (hn : .timeout c.source ∉ hist) : t.cache.entry s rid = some c := by
  induction h with
  | nil => exact hc
  | snoc hrun hstep ih =>
    simp only [List.mem_append, List.mem_singleton, not_or] at hn
    exact hstep.keeps (timed_of_run hrun hst).1 (ih hn.1) (Ne.symm hn.2)

theorem absent_of_run {hist : List ServerEvent} (h : Run (Guarded
      (Without rpc core jsonrpc text s rid) (ServerStep rpc core jsonrpc text)) st hist t)
    (hst : st.cache.Timed ∧ st.cache.Records) (hno : st.cache.entry s rid = none) :
    t.cache.entry s rid = none := by
  induction h with
  | nil => exact hno
  | snoc hrun hstep ih =>
    by_contra hyes
    obtain ⟨c, hc⟩ := Option.ne_none_iff_exists'.mp hyes
    obtain ⟨q, u, a, u', hex, hstores⟩ :=
      hstep.2.added (timed_of_run hrun.unguarded hst).2 ih hc
    exact hstep.1 q u a u' hex hstores.key

/-- A request that comes after a dispatched one with the same id and the same session,
in the same batch or in a later event, is answered with the same response, and no
method is run, until the timer of that response fires. Then the next such request is
dispatched. -/
theorem retransmission_replayed {st₀ : Server σ} {hist : List ServerEvent}
    (h0 : st₀.cache = .empty) (hrun : Run (ServerStep rpc core jsonrpc text) st₀ hist st)
    (hstep : ServerStep rpc core jsonrpc text st e t)
    (hex : Exchange rpc core jsonrpc text st e q u a u') (hdisp : Dispatched rpc jsonrpc q u)
    (hkey : ForKey rpc jsonrpc s rid q a.2) (hnovel : Novel rpc core rid q u) :
    ∃ n, t.cache.entry s rid = some ⟨a.2, n, false⟩ ∧
      (∀ q' w b w', Exchange rpc core jsonrpc text st e q' w b w' →
        Extends core (fun _ _ => True) u' w → ForKey rpc jsonrpc s rid q' b.2 →
        Novel rpc core rid q' w → Replayed rpc jsonrpc a.2 q' w b w') ∧
      ∀ hist₁ v, Run (ServerStep rpc core jsonrpc text) t hist₁ v → .timeout n ∉ hist₁ →
        (∀ e' v' q' w b w', ServerStep rpc core jsonrpc text v e' v' →
          Exchange rpc core jsonrpc text v e' q' w b w' → ForKey rpc jsonrpc s rid q' b.2 →
          Novel rpc core rid q' w → Replayed rpc jsonrpc a.2 q' w b w') ∧
        ∀ v₁ hist₂ v₂, ServerStep rpc core jsonrpc text v (.timeout n) v₁ →
          Run (Guarded (Without rpc core jsonrpc text s rid) (ServerStep rpc core jsonrpc text))
            v₁ hist₂ v₂ →
          ∀ e' v', ServerStep rpc core jsonrpc text v₂ e' v' →
            (∃ q' w b w', Exchange rpc core jsonrpc text v₂ e' q' w b w' ∧
              ForKey rpc jsonrpc s rid q' b.2) →
            ∃ q' w b w', Exchange rpc core jsonrpc text v₂ e' q' w b w' ∧
              ForKey rpc jsonrpc s rid q' b.2 ∧ Dispatched rpc jsonrpc q' w := by
  have hst := timed_of_run hrun (by rw [h0]; exact ⟨RequestCache.timed_empty, RequestCache.records_empty⟩)
  obtain ⟨n, hn⟩ := hex.stores hdisp hkey hnovel
  have ht := hstep.timed hst
  have htn := (hex.frame hst.2 hstep).2.2.kept s rid _ hn
  refine ⟨n, htn, fun q' w b w' hex' hw hkey' hnovel' => ?_,
    fun hist₁ v hrun₁ hn₁ => ⟨fun e' v' q' w b w' hstep' hex' hkey' hnovel' => ?_,
      fun v₁ hist₂ v₂ hfire hrun₂ e' v' hstep' hsome => ?_⟩⟩
  · exact hex'.replays (hw.kept s rid _ hn) hkey' hnovel'
  · have hv := kept_of_run hrun₁ ht htn hn₁
    have hw := (hex'.frame (timed_of_run hrun₁ ht).2 hstep').1.kept s rid _ hv
    exact hex'.replays hw hkey' hnovel'
  · have hv := timed_of_run hrun₁ ht
    have hgone : v₁.cache.entry s rid = none := by
      obtain rfl := hfire
      rw [RequestCache.entry_fire, if_pos]
      exact (hv.1.entry_iff n s rid).mpr ⟨_, kept_of_run hrun₁ ht htn hn₁, rfl⟩
    have hv₁ := hfire.timed hv
    obtain ⟨q', w, b, w', hex', hkey'⟩ := hsome
    exact hex'.dispatches hstep' (timed_of_run hrun₂.unguarded hv₁).2
      (absent_of_run hrun₂ hv₁ hgone) hkey'

/-- A request on a channel without a session is handled by one call. -/
theorem process_single {payload : String} {depth : ℕ} (hp : text.parse payload = some q)
    (harr : q.isArray = false)
    (hcall : call rpc jsonrpc (methodsAt rpc core jsonrpc depth) q st = some (a, t)) :
    ServerStep rpc core jsonrpc text st (.process payload "" (depth + 1)) t ∧
      Exchange rpc core jsonrpc text st (.process payload "" (depth + 1)) q st a t := by
  have hadmits : Admits "" q := Or.inl rfl
  have hdelivered : delivered rpc "" q = q := if_pos (Or.inl rfl)
  have hr : handlerProcess rpc core jsonrpc (depth + 1) (delivered rpc "" q) st = some (a, t) := by
    rw [hdelivered, handlerProcess_of_not_array harr]
    exact hcall
  have hprocess := (process_of_parsed rpc _ st hp hadmits).2 a.1 a.2 t hr
  refine ⟨?_, q, depth, hp, hadmits, hdelivered.symm ▸ .self harr, hcall⟩
  by_cases hread : Readable a.2
  · exact ⟨_, hprocess.1 hread⟩
  · exact ⟨_, hprocess.2 hread⟩

end Runs

/-! ### A request that comes twice -/

def createEvent : ServerEvent := .process createRequest.text "" 1

def CreateStep : Server ℕ → ServerEvent → Server ℕ → Prop :=
  ServerStep JsonRpc.plain Core.counting RpcHandler.plain (.ofValues [createRequest])

def CreateExchange : Server ℕ → ServerEvent → Json → Server ℕ → Bool × Json → Server ℕ → Prop :=
  Exchange JsonRpc.plain Core.counting RpcHandler.plain (.ofValues [createRequest])

/-- The object is made once; sent again, the request is answered with the same response. -/
theorem retransmission_replayed_create :
    ∃ a t, CreateStep ⟨0, .empty, 0⟩ createEvent t ∧
      CreateExchange ⟨0, .empty, 0⟩ createEvent createRequest ⟨0, .empty, 0⟩ a t ∧ t.media = 1 ∧
      ∃ b, CreateExchange t createEvent createRequest t b t ∧
        Replayed JsonRpc.plain RpcHandler.plain a.2 createRequest t b t := by
  have hparse : (JsonText.ofValues [createRequest]).parse createRequest.text = some createRequest := by
    simp [JsonText.ofValues]
  have hsingle (st : Server ℕ) (a t) (h : call JsonRpc.plain RpcHandler.plain
      (methodsAt JsonRpc.plain Core.counting RpcHandler.plain 0) createRequest st = some (a, t)) :
      CreateStep st createEvent t ∧ CreateExchange st createEvent createRequest st a t :=
    process_single hparse rfl h
  obtain ⟨a, t, hcall, hmade, hkey⟩ : ∃ a t, call JsonRpc.plain RpcHandler.plain
      (methodsAt JsonRpc.plain Core.counting RpcHandler.plain 0) createRequest ⟨0, .empty, 0⟩ =
        some (a, t) ∧ t.media = 1 ∧ ForKey JsonRpc.plain RpcHandler.plain "s" "1" createRequest a.2 :=
    ⟨_, _, rfl, rfl, ⟨rfl, rfl, rfl⟩⟩
  have hnovel (st : Server ℕ) : Novel JsonRpc.plain Core.counting "1" createRequest st :=
    ⟨fun n j _ => toString_int_ne_internalId 1 _ j, fun h => by cases h⟩
  obtain ⟨n, hn, -, hlater⟩ := retransmission_replayed rfl (.nil _) (hsingle _ _ _ hcall).1
    (hsingle _ _ _ hcall).2 ⟨rfl, rfl⟩ hkey (hnovel _)
  -- the response stands in the cache, so the second call finds it
  have hagain : call JsonRpc.plain RpcHandler.plain
      (methodsAt JsonRpc.plain Core.counting RpcHandler.plain 0) createRequest t =
        some ((true, a.2), t) := by
    have hlook : preProcess JsonRpc.plain t.cache createRequest = some a.2 := by
      have hid : JsonRpc.plain.text? createRequest "id" = some "1" := rfl
      have hs : paramsSession JsonRpc.plain createRequest = some "s" := rfl
      rw [preProcess_of_key _ hid hs, RequestCache.getCachedResponse, hn, Option.map_some]
    simp only [call, hlook]
    rfl
  obtain ⟨hstep, hexchange⟩ := hsingle _ _ _ hcall
  obtain ⟨hstep', hexchange'⟩ := hsingle _ _ _ hagain
  exact ⟨a, t, hstep, hexchange, hmade, _, hexchange',
    (hlater [] t (.nil t) (by simp)).1 createEvent t _ _ _ _ hstep' hexchange' hkey (hnovel t)⟩

end KurentoMediaServer.Cache
