import KurentoMediaServer.Cache.Retransmit

/-! Where an answer from the cache comes from. An entry found there has been stored by
one request of the run, dispatched under the key of the request that finds it: in the
same session and with an id of the same text. Nothing else of the two requests is
compared, so a string id finds the answer to an integer one, and a request that reuses
an id finds the answer to another method. -/

namespace KurentoMediaServer.Cache

open Foundations Methods

variable {σ : Type} {rpc : JsonRpc} {core : Core σ} {jsonrpc : RpcHandler} {text : JsonText}
  {st₀ st t u u' : Server σ} {e : ServerEvent} {q : Json} {a : Bool × Json} {s rid : String}

variable (rpc core jsonrpc text) in
/-- In the run, the answer of `q` has been stored as the entry, in one of the events. -/
def StoredInRun (st₀ : Server σ) (hist : List ServerEvent) (t : Server σ) (s rid : String)
    (c : CacheEntry) (q : Json) (a : Bool × Json) : Prop :=
  ∃ pre e post st₁ st₂ u u', hist = pre ++ e :: post ∧
    Run (ServerStep rpc core jsonrpc text) st₀ pre st₁ ∧
    ServerStep rpc core jsonrpc text st₁ e st₂ ∧
    Run (ServerStep rpc core jsonrpc text) st₂ post t ∧
    Exchange rpc core jsonrpc text st₁ e q u a u' ∧ Stores rpc jsonrpc s rid c q u a u'

theorem StoredInRun.snoc {hist : List ServerEvent} {c : CacheEntry}
    (h : StoredInRun rpc core jsonrpc text st₀ hist st s rid c q a)
    (hstep : ServerStep rpc core jsonrpc text st e t) :
    StoredInRun rpc core jsonrpc text st₀ (hist ++ [e]) t s rid c q a := by
  obtain ⟨pre, e', post, st₁, st₂, u, u', rfl, hpre, hst₁, hpost, hex, hstores⟩ := h
  exact ⟨pre, e', post ++ [e], st₁, st₂, u, u', by simp, hpre, hst₁, hpost.snoc hstep, hex, hstores⟩

theorem ServerStep.entry_unchanged {c c' : CacheEntry}
    (h : ServerStep rpc core jsonrpc text st e t) (hc : st.cache.entry s rid = some c)
    (hc' : t.cache.entry s rid = some c') : c = c' := by
  cases e with
  | process payload sessionId depth =>
    obtain ⟨x, h⟩ := h
    rcases process_eq_some rpc h with rfl | ⟨req, r, -, -, hr⟩
    · exact Option.some.inj (hc.symm.trans hc')
    · exact Option.some.inj (((handlerProcess_extends depth _ _ _ _ hr).kept s rid c hc).symm.trans hc')
  | timeout n =>
    obtain rfl := h
    rw [RequestCache.entry_fire] at hc'
    split_ifs at hc'
    exact Option.some.inj (hc.symm.trans hc')

theorem entry_of_run {hist : List ServerEvent} {c : CacheEntry} (h0 : st₀.cache = .empty)
    (h : Run (ServerStep rpc core jsonrpc text) st₀ hist t) (hc : t.cache.entry s rid = some c) :
    ∃ q a, StoredInRun rpc core jsonrpc text st₀ hist t s rid c q a := by
  induction h with
  | nil => simp [h0, RequestCache.empty, RequestCache.entry] at hc
  | @snoc v t hist e hrun hstep ih =>
    cases hv : v.cache.entry s rid with
    | some c' =>
      obtain rfl := hstep.entry_unchanged hv hc
      obtain ⟨q, a, hq⟩ := ih hv
      exact ⟨q, a, hq.snoc hstep⟩
    | none =>
      have hst : st₀.cache.Timed ∧ st₀.cache.Records := by
        rw [h0]; exact ⟨RequestCache.timed_empty, RequestCache.records_empty⟩
      obtain ⟨q, u, a, u', hex, hstores⟩ := hstep.added (timed_of_run hrun hst).2 hv hc
      exact ⟨q, a, hist, e, [], v, t, u, u', rfl, hrun, hstep, .nil t, hex, hstores⟩

/-- When `preProcess` answers a request from the cache, the answer is the response with
which the dispatched path has answered a request of the run that was handled in the same
session and has an id of the same text. The server is left as it was. -/
theorem cached_answer_origin {hist : List ServerEvent} {response : Json}
    (h0 : st₀.cache = .empty) (hrun : Run (ServerStep rpc core jsonrpc text) st₀ hist st)
    (hstep : ServerStep rpc core jsonrpc text st e t)
    (hex : Exchange rpc core jsonrpc text st e q u a u')
    (hproto : jsonrpc.checkProtocol q = none) (hpre : preProcess rpc u.cache q = some response) :
    a.2 = response ∧ u' = u ∧ ∃ s rid c q' b, rpc.text? q "id" = some rid ∧
      paramsSession rpc q = some s ∧ u.cache.entry s rid = some c ∧
      StoredInRun rpc core jsonrpc text st₀ (hist ++ [e]) t s rid c q' b ∧
      rpc.text? q' "id" = some rid ∧ effectiveSession rpc q' b.2 = some s ∧ b.2 = response := by
  have hst : st.cache.Timed ∧ st.cache.Records :=
    timed_of_run hrun (by rw [h0]; exact ⟨RequestCache.timed_empty, RequestCache.records_empty⟩)
  obtain ⟨s, rid, hid, hs, hlook⟩ := preProcess_eq_some.mp hpre
  obtain ⟨c, hc, hresponse⟩ := Option.map_eq_some_iff.mp hlook
  obtain ⟨-, hcall, hafter⟩ := hex.frame hst.2 hstep
  obtain ⟨q', b, hstored⟩ :=
    entry_of_run h0 (hrun.snoc hstep) ((hcall.trans hafter).kept s rid c hc)
  obtain ⟨_, _, _, _, _, _, _, _, _, _, _, _, hstores⟩ := id hstored
  have hanswer : a.2 = response ∧ u' = u := by
    cases e with
    | process payload sessionId depth =>
      obtain ⟨req, d, -, -, -, hcalled⟩ := hex
      rcases call_cases hcalled with ⟨-, -, hv⟩ | ⟨rfl, -, hv⟩ | ⟨-, hv, -⟩
      · rw [hproto] at hv
        cases hv
      · exact ⟨Option.some.inj (hv.symm.trans hpre), rfl⟩
      · rw [hpre] at hv
        cases hv
    | timeout n => exact hex.elim
  exact ⟨hanswer.1, hanswer.2, s, rid, c, q', b, hid, hs, hc, hstored, hstores.key.id,
    hstores.key.session, hstores.response.trans hresponse⟩

/-! ### Two requests of one key -/

/-- Another request of the same session whose id has the same text. -/
def pingRequest : Json := .obj [("id", .str "1"), ("jsonrpc", .str "2.0"), ("method", .str "ping"),
  ("params", .obj [("sessionId", .str "s")])]

def pingEvent : ServerEvent := .process pingRequest.text "" 1

def PairStep : Server ℕ → ServerEvent → Server ℕ → Prop :=
  ServerStep JsonRpc.plain Core.counting RpcHandler.plain (.ofValues [createRequest, pingRequest])

def PairExchange : Server ℕ → ServerEvent → Json → Server ℕ → Bool × Json → Server ℕ → Prop :=
  Exchange JsonRpc.plain Core.counting RpcHandler.plain (.ofValues [createRequest, pingRequest])

theorem respond_plain_id {request : Json} {i : String} (result : Except Exc Json)
    (h : request.member? "id" = some (.str i)) :
    (respond RpcHandler.plain request result).2.member? "id" = some (.str i) := by
  cases result <;> simp [respond, RpcHandler.plain, h, Assoc.find]

/-- The second request is answered with the response to the first. -/
theorem pair_run : ∃ (a : Bool × Json) (t : Server ℕ), PairStep ⟨0, .empty, 0⟩ createEvent t ∧
    PairStep t pingEvent t ∧ PairExchange t pingEvent pingRequest t (true, a.2) t ∧
    preProcess JsonRpc.plain t.cache pingRequest = some a.2 ∧
    a.2.member? "id" = some (.int 1) := by
  have hcreate : (JsonText.ofValues [createRequest, pingRequest]).parse createRequest.text =
      some createRequest := by simp [JsonText.ofValues]
  have hping : (JsonText.ofValues [createRequest, pingRequest]).parse pingRequest.text =
      some pingRequest := by
    have hne : createRequest.text ≠ pingRequest.text := by decide
    simp [JsonText.ofValues, hne]
  obtain ⟨a, t, hcall, hid, hpre, hagain⟩ : ∃ (a : Bool × Json) (t : Server ℕ),
      call JsonRpc.plain RpcHandler.plain (methodsAt JsonRpc.plain Core.counting RpcHandler.plain 0)
        createRequest ⟨0, .empty, 0⟩ = some (a, t) ∧
      a.2.member? "id" = some (.int 1) ∧ preProcess JsonRpc.plain t.cache pingRequest = some a.2 ∧
      call JsonRpc.plain RpcHandler.plain (methodsAt JsonRpc.plain Core.counting RpcHandler.plain 0)
        pingRequest t = some ((true, a.2), t) := ⟨_, _, rfl, rfl, rfl, rfl⟩
  obtain ⟨hstep, hex⟩ := process_single hping rfl hagain
  exact ⟨a, t, (process_single hcreate rfl hcall).1, hstep, hex, hpre, hid⟩

theorem cached_answer_origin_ping : ∃ (a : Bool × Json) (t : Server ℕ) (q' : Json) (b : Bool × Json),
    PairExchange t pingEvent pingRequest t (true, a.2) t ∧
      JsonRpc.plain.text? q' "id" = some "1" ∧ b.2 = a.2 := by
  obtain ⟨a, t, hstep₁, hstep₂, hex, hpre, -⟩ := pair_run
  obtain ⟨-, -, s, rid, c, q', b, hid, -, -, -, hid', -, hb⟩ :=
    cached_answer_origin rfl (Run.single hstep₁) hstep₂ hex rfl hpre
  obtain rfl : "1" = rid := Option.some.inj hid
  exact ⟨a, t, q', b, hex, hid', hb⟩

/-- A ping with the id "1" is answered from the cache with the response to a create with
the id 1. No request with the id of the ping has been stored with that response, and the
response does not have that id. -/
theorem not_cached_for_same_request : ∃ (a : Bool × Json) (t : Server ℕ),
    PairStep ⟨0, .empty, 0⟩ createEvent t ∧ PairStep t pingEvent t ∧
    PairExchange t pingEvent pingRequest t (true, a.2) t ∧
    preProcess JsonRpc.plain t.cache pingRequest = some a.2 ∧
    a.2.member? "id" ≠ pingRequest.member? "id" ∧
    ∀ st₁ e q' w b w' s rid c, PairExchange st₁ e q' w b w' →
      Stores JsonRpc.plain RpcHandler.plain s rid c q' w b w' → b.2 = a.2 →
      q'.member? "id" ≠ pingRequest.member? "id" := by
  obtain ⟨a, t, hstep₁, hstep₂, hex, hpre, hid⟩ := pair_run
  have hping : pingRequest.member? "id" = some (.str "1") := rfl
  refine ⟨a, t, hstep₁, hstep₂, hex, hpre, by simp [hid, hping], ?_⟩
  intro st₁ e q' w b w' s rid c hex' hstores hb hsame
  rw [hping] at hsame
  -- the response to such a request would have its id
  cases e with
  | process payload sessionId depth =>
    obtain ⟨-, d, -, -, -, hcall⟩ := hex'
    obtain ⟨result, v, -, -, hf, -⟩ := call_dispatched hstores.dispatched hcall
    have hbid : b.2.member? "id" = some (.str "1") := by
      rcases finish_cases hf with ⟨rfl, -⟩ | ⟨e, rfl, -, -⟩
      · exact respond_plain_id result hsame
      · exact respond_plain_id (.error e) hsame
    rw [hb, hid] at hbid
    cases hbid
  | timeout n => exact hex'.elim

end KurentoMediaServer.Cache
