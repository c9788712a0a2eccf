import KurentoMediaServer.Cache.Retransmit
import KurentoMediaServer.Methods.Nested
import KurentoMediaServer.Methods.Plain

/-! The server with the request cache against the server without it. When the requests
that are answered from the cache are taken out of a run of the one, a run of the other
remains, with the same answers and the same media state. As long as no request is answered
from the cache, the setting that disables it changes no reply. -/

namespace KurentoMediaServer.Cache

open Foundations Methods

variable {σ : Type} (rpc : JsonRpc) (core : Core σ) (jsonrpc : RpcHandler)

/-! ### Calls -/

/-- A request, the nesting its handler returns for, and the answer. -/
structure Handled where
  depth : ℕ
  request : Json
  answer : Bool × Json

/-- A request that is not answered from the cache, one that is, or a timer. -/
inductive CallEvent where
  | run (handled : Handled)
  | replay (handled : Handled)
  | timeout (source : ℕ)

/-- What is left without the cache. -/
def CallEvent.run? : CallEvent → Option Handled
  | .run handled => some handled
  | .replay _ | .timeout _ => none

def Cached (request : Json) (st : Server σ) : Prop :=
  jsonrpc.checkProtocol request = none ∧ preProcess rpc st.cache request ≠ none

def Handles (h : Handled) (st t : Server σ) : Prop :=
  call rpc jsonrpc (methodsAt rpc core jsonrpc h.depth) h.request st = some (h.answer, t)

def CachedStep (st : Server σ) : CallEvent → Server σ → Prop
  | .run h, t => ¬ Cached rpc jsonrpc h.request st ∧ Handles rpc core jsonrpc h st t
  | .replay h, t => Cached rpc jsonrpc h.request st ∧ Handles rpc core jsonrpc h st t
  | .timeout source, t => t = { st with cache := st.cache.fire source }

def PlainStep (st : Server σ) (h : Handled) (t : Server σ) : Prop :=
  plainCall rpc jsonrpc (dispatch rpc core (plainProcess rpc core jsonrpc h.depth)) h.request st =
    some (h.answer, t)

/-- The request asks for a method there is, unless its params are an object or null, and
its id is no internal id of a UUID that is yet to be generated. -/
structure Ordinary (request : Json) (st : Server σ) : Prop where
  params : Answerable rpc core request
  id : ∀ n i, st.drawn ≤ n → rpc.text? request "id" ≠ some (internalId (core.uuid n) i)

def OrdinaryRun (st : Server σ) : CallEvent → Prop
  | .run h => Ordinary rpc core h.request st
  | .replay _ | .timeout _ => True

section Calls
variable {rpc core jsonrpc} {st st' t : Server σ} {q : Json}

/-- What is added under other ids leaves the internal ids to come alone. -/
theorem fresh_of_extends {own : String → String → Prop} (h : Fresh core st)
    (hx : Extends core own st t)
    (hown : ∀ s rid, own s rid → ∀ n i, st.drawn ≤ n → rid ≠ internalId (core.uuid n) i) :
    Fresh core t := by
  intro s n i hn
  have hle := hx.drawn_le.trans hn
  rw [Option.eq_none_iff_forall_ne_some]
  intro e he
  rcases hx.added _ _ _ he with h' | h' | ⟨m, j, -, hm, hr⟩
  · rw [h s n i hle] at h'
    cases h'
  · exact hown _ _ h' n i hle rfl
  · obtain ⟨rfl, -⟩ := (uuid_internalId_inj core).mp hr
    omega

theorem fresh_fire (h : Fresh core st) (source : ℕ) :
    Fresh core { st with cache := st.cache.fire source } := by
  intro s n i hn
  rw [RequestCache.entry_fire, h s n i hn, ite_self]

theorem fresh_call {depth : ℕ} {a : Bool × Json} (h : Fresh core st) (hq : Ordinary rpc core q st)
    (hc : call rpc jsonrpc (methodsAt rpc core jsonrpc depth) q st = some (a, t)) :
    Fresh core t :=
  fresh_of_extends h (call_extends (methodsAt_extends depth) hc) fun _ _ hk n i hn hr =>
    hq.id n i hn (hr ▸ postKey_id hk)

theorem preProcess_of_not_cached (h : ¬ Cached rpc jsonrpc q st)
    (hp : jsonrpc.checkProtocol q = none) : preProcess rpc st.cache q = none := by
  by_contra hne
  exact h ⟨hp, hne⟩

/-- A request that is answered from the cache leaves the server as it was. -/
theorem eq_of_cached {methods : String → MethodRun σ} {a : Bool × Json}
    (h : Cached rpc jsonrpc q st) (hc : call rpc jsonrpc methods q st = some (a, t)) : t = st := by
  rcases call_cases hc with ⟨ht, -⟩ | ⟨ht, -⟩ | ⟨-, hno, -⟩
  · exact ht
  · exact ht
  · exact absurd hno h.2

/-- A request that is not in the cache is answered alike by both servers. -/
theorem call_agree_plain {depth : ℕ} (hf : Fresh core st) (hq : Ordinary rpc core q st)
    (hc : ¬ Cached rpc jsonrpc q st) (hst : SameMedia st st') :
    Option.Rel Agree (call rpc jsonrpc (methodsAt rpc core jsonrpc depth) q st)
      (plainCall rpc jsonrpc (dispatch rpc core (plainProcess rpc core jsonrpc depth)) q st') :=
  call_dispatch_agree (agreeUncached rpc core jsonrpc depth) hq.params hf
    (preProcess_of_not_cached hc) hst

/-- Both servers are in the same state but for the cache, which knows no internal ids to
come. -/
def Beside (core : Core σ) (st st' : Server σ) : Prop := Fresh core st ∧ SameMedia st st'

theorem CachedStep.removed {e : CallEvent} (h : Beside core st st') (hg : OrdinaryRun rpc core st e)
    (hstep : CachedStep rpc core jsonrpc st e t) :
    ∃ t', Run (PlainStep rpc core jsonrpc) st' e.run?.toList t' ∧ Beside core t t' := by
  obtain ⟨hf, hst⟩ := h
  cases e with
  | run h =>
    obtain ⟨hc, hcall⟩ := hstep
    rcases rel_cases (call_agree_plain hf hg hc hst) with ⟨hn, -⟩ | ⟨a, b, ha, hb, heq, hsb⟩
    · rw [Handles, hn] at hcall
      cases hcall
    · obtain rfl : a = (h.answer, t) := Option.some.inj (ha.symm.trans hcall)
      obtain ⟨answer, t'⟩ := b
      obtain rfl : h.answer = answer := heq
      exact ⟨t', .single hb, fresh_call hf hg hcall, hsb⟩
  | replay h =>
    obtain rfl := eq_of_cached hstep.1 hstep.2
    exact ⟨st', .nil st', hf, hst⟩
  | timeout source =>
    obtain rfl := hstep
    exact ⟨st', .nil st', fresh_fire hf source, hst⟩

/-- The cache does nothing but answer repeats: without the requests that are answered from
it, and without its timers, a run is a run of the server that has none, with the same
answers, the same media state and the same UUIDs. -/
theorem replays_removed {st₀ : Server σ} {hist : List CallEvent} (h0 : Fresh core st₀)
    (hrun : Run (Guarded (OrdinaryRun rpc core) (CachedStep rpc core jsonrpc)) st₀ hist t) :
    ∃ t', Run (PlainStep rpc core jsonrpc) st₀ (hist.filterMap CallEvent.run?) t' ∧
      SameMedia t t' := by
  have hbegin : Beside core st₀ st₀ := ⟨h0, rfl, rfl⟩
  obtain ⟨t', ht, -, hst⟩ := hrun.simulates (fun e => e.run?.toList)
    (fun _ _ _ _ hR hstep => hstep.2.removed hR hstep.1) hbegin
  rw [List.filterMap_eq_flatMap_toList]
  exact ⟨t', ht, hst⟩

end Calls

theorem ordinary_create (core : Core σ) (st : Server σ) :
    Ordinary JsonRpc.plain core createRequest st :=
  ⟨Or.inl rfl, fun _ i _ h => toString_int_ne_internalId 1 _ i (Option.some.inj h)⟩

/-- The object is asked for twice and made once, with the cache and, without the second
request, without it. -/
theorem replays_removed_create : ∃ a t t',
    Run (CachedStep JsonRpc.plain Core.counting RpcHandler.plain) ⟨0, .empty, 0⟩
      [.run ⟨0, createRequest, a⟩, .replay ⟨0, createRequest, (true, a.2)⟩] t ∧
    Run (PlainStep JsonRpc.plain Core.counting RpcHandler.plain) ⟨0, .empty, 0⟩
      [⟨0, createRequest, a⟩] t' ∧ t.media = 1 ∧ t'.media = 1 := by
  obtain ⟨a, t, hcall, hmade, hpre, hagain⟩ : ∃ a t,
      call JsonRpc.plain RpcHandler.plain (methodsAt JsonRpc.plain Core.counting RpcHandler.plain 0)
        createRequest ⟨0, .empty, 0⟩ = some (a, t) ∧ t.media = 1 ∧
      preProcess JsonRpc.plain t.cache createRequest = some a.2 ∧
      call JsonRpc.plain RpcHandler.plain (methodsAt JsonRpc.plain Core.counting RpcHandler.plain 0)
        createRequest t = some ((true, a.2), t) := ⟨_, _, rfl, rfl, rfl, rfl⟩
  have hfirst : ¬ Cached JsonRpc.plain RpcHandler.plain createRequest
      (⟨0, .empty, 0⟩ : Server ℕ) := fun h => h.2 rfl
  have hsecond : Cached JsonRpc.plain RpcHandler.plain createRequest t := ⟨rfl, by simp [hpre]⟩
  have hrun : Run (Guarded (OrdinaryRun JsonRpc.plain Core.counting) (CachedStep JsonRpc.plain
      Core.counting RpcHandler.plain)) ⟨0, .empty, 0⟩
      [.run ⟨0, createRequest, a⟩, .replay ⟨0, createRequest, (true, a.2)⟩] t :=
    (Run.single ⟨ordinary_create _ _, hfirst, hcall⟩).snoc ⟨trivial, hsecond, hagain⟩
  obtain ⟨t', hplain, hmedia, -⟩ := replays_removed (fresh_empty Core.counting 0 0) hrun
  exact ⟨a, t, t', hrun.unguarded, hplain, hmade, hmedia ▸ hmade⟩

-- there is no such method, and `postProcess` throws on the params
example : let request : Json := .obj [("id", .int 1), ("method", .str "pong"), ("params", .arr [])]
    (call JsonRpc.plain RpcHandler.plain (methodsAt JsonRpc.plain Core.counting RpcHandler.plain 0)
      request ⟨0, .empty, 0⟩).map Prod.fst = some (respond RpcHandler.plain request
        (.error .logicError)) ∧
    (plainCall JsonRpc.plain RpcHandler.plain (dispatch JsonRpc.plain Core.counting
      (plainProcess JsonRpc.plain Core.counting RpcHandler.plain 0)) request ⟨0, .empty, 0⟩).map
      Prod.fst = some (respond RpcHandler.plain request
        (.error (.call ⟨.other (-32601), "Method not found.", .null⟩))) := ⟨rfl, rfl⟩

/-! ### Messages -/

def requestsOf : Json → List Json
  | .arr requests => requests
  | request => [request]

/-- A call of `process` with its outcome, or a timer. -/
inductive MessageEvent where
  | process (payload sessionId : String) (depth : ℕ) (outcome : Except Exc (String × String))
  | timeout (source : ℕ)

variable (text : JsonText)

/-- A step of the server with the setting. Where there is no entry no timer does anything. -/
def ConfiguredStep (disableRequestCache : Bool) (st : Server σ) : MessageEvent → Server σ → Prop
  | .process payload sessionId depth outcome, t =>
    process rpc text (configuredProcess rpc core jsonrpc disableRequestCache (depth + 1)) payload
      sessionId st = some (outcome, t)
  | .timeout source, t => t = { st with cache := st.cache.fire source }

/-- Handled one after the other, the requests are ordinary ones that are not answered from
the cache. -/
def Unrepeated (depth : ℕ) : List Json → Server σ → Prop
  | [], _ => True
  | q :: rest, st => Ordinary rpc core q st ∧ ¬ Cached rpc jsonrpc q st ∧
    ∀ a t, call rpc jsonrpc (methodsAt rpc core jsonrpc depth) q st = some (a, t) →
      Unrepeated depth rest t

def UnrepeatedMessage (st : Server σ) : MessageEvent → Prop
  | .process payload sessionId depth _ => ∀ request, text.parse payload = some request →
    Admits sessionId request →
      Unrepeated rpc core jsonrpc depth (requestsOf (delivered rpc sessionId request)) st
  | .timeout _ => True

section Messages
variable {rpc core jsonrpc text} {st st' t : Server σ} {depth : ℕ}

theorem callAll_agree_plain {requests : List Json} (hf : Fresh core st)
    (h : Unrepeated rpc core jsonrpc depth requests st) (hst : SameMedia st st') :
    Option.Rel Agree (callAll rpc jsonrpc (methodsAt rpc core jsonrpc depth) requests st)
      (plainCallAll rpc jsonrpc (dispatch rpc core (plainProcess rpc core jsonrpc depth)) requests
        st') := by
  induction requests generalizing st st' with
  | nil => exact .some ⟨rfl, hst⟩
  | cons q rest ih =>
    obtain ⟨hq, hc, hrest⟩ := h
    simp only [callAll, plainCallAll]
    rcases rel_cases (call_agree_plain hf hq hc hst) with
      ⟨hn, hn'⟩ | ⟨⟨a, u⟩, ⟨a', u'⟩, hu, hu', ha, hsu⟩
    · rw [hn, hn']
      exact .none
    · obtain rfl : a = a' := ha
      rw [hu, hu']
      rcases rel_cases (ih (fresh_call hf hq hu) (hrest a u hu) hsu) with
        ⟨hn, hn'⟩ | ⟨⟨as, v⟩, ⟨as', v'⟩, hv, hv', has, hsv⟩
      · simp only [hn, hn']
        exact .none
      · obtain rfl : as = as' := has
        simp only [hv, hv']
        exact .some ⟨rfl, hsv⟩

theorem handlerProcess_agree_plain {request : Json} (hf : Fresh core st)
    (h : Unrepeated rpc core jsonrpc depth (requestsOf request) st) (hst : SameMedia st st') :
    Option.Rel Agree (handlerProcess rpc core jsonrpc (depth + 1) request st)
      (plainProcess rpc core jsonrpc (depth + 1) request st') := by
  cases request with
  | arr requests =>
    have hall : Unrepeated rpc core jsonrpc depth requests st := h
    rw [handlerProcess, plainProcess]
    rcases rel_cases (callAll_agree_plain hf hall hst) with
      ⟨hn, hn'⟩ | ⟨⟨as, v⟩, ⟨as', v'⟩, hv, hv', has, hsv⟩
    · rw [hn, hn']
      exact .none
    · obtain rfl : as = as' := has
      rw [hv, hv']
      exact .some ⟨rfl, hsv⟩
  | _ => exact call_agree_plain hf h.1 h.2.1 hst

theorem fresh_callAll {requests : List Json} {rs : List (Bool × Json)} (hf : Fresh core st)
    (h : Unrepeated rpc core jsonrpc depth requests st)
    (hr : callAll rpc jsonrpc (methodsAt rpc core jsonrpc depth) requests st = some (rs, t)) :
    Fresh core t := by
  induction requests generalizing st rs with
  | nil =>
    cases hr
    exact hf
  | cons q rest ih =>
    obtain ⟨hq, -, hrest⟩ := h
    simp only [callAll] at hr
    split at hr
    · cases hr
    · next a u hu =>
      obtain ⟨⟨rs', t'⟩, hr', he⟩ := Option.map_eq_some_iff.mp hr
      cases he
      exact ih (fresh_call hf hq hu) (hrest a u hu) hr'

theorem fresh_handlerProcess {request : Json} {r : Bool × Json} (hf : Fresh core st)
    (h : Unrepeated rpc core jsonrpc depth (requestsOf request) st)
    (hr : handlerProcess rpc core jsonrpc (depth + 1) request st = some (r, t)) :
    Fresh core t := by
  cases request with
  | arr requests =>
    obtain ⟨⟨rs, u⟩, hc, he⟩ := Option.map_eq_some_iff.mp hr
    cases he
    exact fresh_callAll hf h hc
  | _ => exact fresh_call hf h.1 hr

theorem ConfiguredStep.agree {e : MessageEvent} (h : Beside core st st')
    (hg : UnrepeatedMessage rpc core jsonrpc text st e)
    (hstep : ConfiguredStep rpc core jsonrpc text false st e t) :
    ∃ t', ConfiguredStep rpc core jsonrpc text true st' e t' ∧ Beside core t t' := by
  obtain ⟨hf, hst⟩ := h
  cases e with
  | process payload sessionId depth outcome =>
    have hagree := process_agree (fun req hp ha => handlerProcess_agree_plain hf (hg req hp ha) hst)
      hst
    rcases rel_cases hagree with ⟨hn, -⟩ | ⟨a, ⟨x, t'⟩, ha, hb, heq, hsb⟩
    · exact absurd (hn.symm.trans hstep) (Option.some_ne_none _).symm
    · obtain rfl : a = (outcome, t) := Option.some.inj (ha.symm.trans hstep)
      obtain rfl : outcome = x := heq
      refine ⟨t', hb, ?_, hsb⟩
      rcases process_eq_some rpc hstep with rfl | ⟨req, r, hp, ha, hr⟩
      · exact hf
      · exact fresh_handlerProcess hf (hg req hp ha) hr
  | timeout source =>
    obtain rfl := hstep
    exact ⟨_, rfl, fresh_fire hf source, hst⟩

/-- As long as no request of a message is answered from the cache, the setting that
disables it makes no difference: to the same messages the server without the cache gives the
same replies and the same sessions, and its media state and its UUIDs are the same. -/
theorem disabled_cache_agrees {st₀ : Server σ} {hist : List MessageEvent} (h0 : Fresh core st₀)
    (hrun : Run (Guarded (UnrepeatedMessage rpc core jsonrpc text)
      (ConfiguredStep rpc core jsonrpc text false)) st₀ hist t) :
    ∃ t', Run (ConfiguredStep rpc core jsonrpc text true) st₀ hist t' ∧ SameMedia t t' := by
  have hbegin : Beside core st₀ st₀ := ⟨h0, rfl, rfl⟩
  obtain ⟨t', ht, -, hst⟩ := hrun.simulates (fun e => [e]) (fun _ _ _ _ hR hstep => by
    obtain ⟨t', ht, hR'⟩ := hstep.2.agree hR hstep.1
    exact ⟨t', .single ht, hR'⟩) hbegin
  rw [List.flatMap_singleton'] at ht
  exact ⟨t', ht, hst⟩

end Messages

/-- The request is sent again after its response has timed out. Both servers make two
objects. -/
theorem disabled_cache_agrees_create : ∃ x y t t',
    let hist : List MessageEvent := [.process createRequest.text "" 0 x, .timeout 0,
      .process createRequest.text "" 0 y]
    Run (ConfiguredStep JsonRpc.plain Core.counting RpcHandler.plain (.ofValues [createRequest])
      false) ⟨0, .empty, 0⟩ hist t ∧
    Run (ConfiguredStep JsonRpc.plain Core.counting RpcHandler.plain (.ofValues [createRequest])
      true) ⟨0, .empty, 0⟩ hist t' ∧ t'.media = 2 := by
  have hparse : (JsonText.ofValues [createRequest]).parse createRequest.text = some createRequest := by
    simp [JsonText.ofValues]
  obtain ⟨a, t₁, b, t, hcall, hgone, hagain, hmade⟩ : ∃ a t₁ b t,
      call JsonRpc.plain RpcHandler.plain (methodsAt JsonRpc.plain Core.counting RpcHandler.plain 0)
        createRequest ⟨0, .empty, 0⟩ = some (a, t₁) ∧
      preProcess JsonRpc.plain (t₁.cache.fire 0) createRequest = none ∧
      call JsonRpc.plain RpcHandler.plain (methodsAt JsonRpc.plain Core.counting RpcHandler.plain 0)
        createRequest { t₁ with cache := t₁.cache.fire 0 } = some (b, t) ∧ t.media = 2 :=
    ⟨_, _, _, _, rfl, rfl, rfl, rfl⟩
  obtain ⟨x, hx⟩ := (process_single hparse rfl hcall).1
  obtain ⟨y, hy⟩ := (process_single hparse rfl hagain).1
  have hguard (st : Server ℕ) (z) (h : preProcess JsonRpc.plain st.cache createRequest = none) :
      UnrepeatedMessage JsonRpc.plain Core.counting RpcHandler.plain (.ofValues [createRequest]) st
        (.process createRequest.text "" 0 z) := by
    intro request hp _
    obtain rfl : createRequest = request := Option.some.inj (hparse.symm.trans hp)
    exact ⟨ordinary_create _ _, fun hc => hc.2 h, fun _ _ _ => trivial⟩
  have hrun : Run (Guarded (UnrepeatedMessage JsonRpc.plain Core.counting RpcHandler.plain
      (.ofValues [createRequest])) (ConfiguredStep JsonRpc.plain Core.counting RpcHandler.plain
        (.ofValues [createRequest]) false)) ⟨0, .empty, 0⟩ [.process createRequest.text "" 0 x,
          .timeout 0, .process createRequest.text "" 0 y] t :=
    ((Run.single ⟨hguard _ x rfl, hx⟩).snoc ⟨trivial, rfl⟩).snoc ⟨hguard _ y hgone, hy⟩
  obtain ⟨t', hplain, hmedia, -⟩ := disabled_cache_agrees (fresh_empty Core.counting 0 0) hrun
  exact ⟨x, y, t, t', hrun.unguarded, hplain, hmedia ▸ hmade⟩

end KurentoMediaServer.Cache
