import KurentoMediaServer.Foundations.Run
import KurentoMediaServer.Transport.Message

/-! Session stickiness. Along a run of whole messages and closes the tables hold
the matching that the replies so far have linked: a connection is associated with
the session of the last reply it was sent, until it is closed or another
connection is sent a reply for that session. The session the handler sees in a
request that names none is that one. -/

namespace KurentoMediaServer.Transport

open Foundations Methods

variable {σ Hdl : Type} [DecidableEq Hdl]

/-- A handler that also records each request it is handed with its response. -/
def logged (handler : Json → σ → (Bool × Json) × σ) (req : Json)
    (st : σ × List (Json × Json)) : (Bool × Json) × σ × List (Json × Json) :=
  ((handler req st.1).1, (handler req st.1).2, st.2 ++ [(req, (handler req st.1).1.2)])

def keepLogged (keepAlive : String → σ → Except Exc Unit × σ) (s : String)
    (st : σ × List (Json × Json)) : Except Exc Unit × σ × List (Json × Json) :=
  ((keepAlive s st.1).1, (keepAlive s st.1).2, st.2)

/-- What happens on the connections: a message answered with a response, a close. -/
inductive Event (Hdl : Type) where
  | reply (hdl : Hdl) (resp : Json)
  | close (hdl : Hdl)

/-- A reply that is no error and has a session links it to the connection; a close
unlinks the connection. -/
def Event.op (rpc : JsonRpc) : Event Hdl → Option (Matching.Op String Hdl)
  | .reply hdl resp =>
    match replySession rpc resp with
    | some s => if s = "" then none else some (.link s hdl)
    | none => none
  | .close hdl => some (.unlink hdl)

/-- `s` is the session of the last such reply sent on `c`, `c` has not been closed
and no other connection has been sent such a reply for `s` since. -/
def StickyTo (rpc : JsonRpc) (hist : List (Event Hdl)) (c : Hdl) (s : String) : Prop :=
  Matching.StandingBy (Event.op rpc) hist s c

/-- An object whose params are an object, null or absent. -/
def Addressed (v : Json) : Prop := v.isObject = true ∧ (paramsOf v).isRecord = true

section Runs
variable (rpc : JsonRpc) (text : JsonText) (handler : Json → σ → (Bool × Json) × σ)
  (keepAlive : String → σ → Except Exc Unit × σ)

/-- The processor with the recording handler. -/
abbrev recording : Processor (σ × List (Json × Json)) :=
  serverMethods rpc text (logged handler) (keepLogged keepAlive)

/-- One event: a whole `processMessage` call for a live connection, or a close. -/
inductive Step : State (σ × List (Json × Json)) Hdl → Event Hdl →
    State (σ × List (Json × Json)) Hdl → Prop
  | reply {t t' : State (σ × List (Json × Json)) Hdl} {alive : Hdl → Bool} {secure : Bool}
      {hdl : Hdl} {payload : String} {v request resp : Json} :
      text.parse payload = some v → Addressed v → alive hdl = true →
      processMessage (recording rpc text handler keepAlive) alive secure hdl payload t =
        some (.ok (), t') →
      t'.server.2 = t.server.2 ++ [(request, resp)] → Step t (.reply hdl resp) t'
  | close {t : State (σ × List (Json × Json)) Hdl} (hdl : Hdl) :
      Step t (.close hdl) { t with tables := closeHandler hdl t.tables }

end Runs

section Sticky
variable {rpc : JsonRpc} {text : JsonText} {handler : Json → σ → (Bool × Json) × σ}
  {keepAlive : String → σ → Except Exc Unit × σ}

theorem admits_of_addressed {v : Json} (h : Addressed v) (s : String) : Admits s v := by
  refine Or.inr ⟨?_, h.2⟩
  revert h
  cases v <;> simp [Addressed, Json.isObject, Json.isRecord]

/-- The matching the replies and closes so far have left. -/
def linked (rpc : JsonRpc) (hist : List (Event Hdl)) : String ≃. Hdl :=
  Matching.run (hist.filterMap (Event.op rpc))

theorem linked_snoc (hist : List (Event Hdl)) (e : Event Hdl) :
    linked rpc (hist ++ [e]) = match e.op rpc with
      | some o => o.apply (linked rpc hist)
      | none => linked rpc hist := by
  rw [linked, Matching.run_filterMap_snoc]
  cases e.op rpc <;> rfl

theorem linked_apply_iff (hist : List (Event Hdl)) (s : String) (c : Hdl) :
    linked rpc hist s = some c ↔ StickyTo rpc hist c s :=
  Matching.run_filterMap_iff _ hist s c

omit [DecidableEq Hdl] in
/-- No reply links the empty session. -/
theorem StickyTo.ne_empty {hist : List (Event Hdl)} {c : Hdl} {s : String}
    (h : StickyTo rpc hist c s) : s ≠ "" := by
  obtain ⟨_, e, _, -, he, -⟩ := h
  cases e with
  | reply hdl resp =>
    simp only [Event.op] at he
    split at he
    · split_ifs at he with hs
      simp only [Option.some.injEq, Matching.Op.link.injEq] at he
      exact he.1 ▸ hs
    · contradiction
  | _ => simp [Event.op] at he

/-- The session of a connection is the one its last reply gave it. -/
theorem session_eq {t : State (σ × List (Json × Json)) Hdl} {hist : List (Event Hdl)}
    (ht : t.tables.Implements (linked rpc hist)) (c : Hdl) :
    (∀ s, StickyTo rpc hist c s → t.session c = s) ∧
    ((∀ s, ¬ StickyTo rpc hist c s) → t.session c = "") := by
  have hrev : ∀ s, t.tables.connectionsReverse.lookup c = some s ↔ StickyTo rpc hist c s := by
    intro s
    rw [← linked_apply_iff, ← ht.1, ht.matched s c]
  constructor
  · intro s hs
    rw [State.session, (hrev s).mpr hs]
    rfl
  · intro hno
    have hn : t.tables.connectionsReverse.lookup c = none :=
      Option.eq_none_iff_forall_ne_some.mpr fun s h => hno s ((hrev s).mp h)
    rw [State.session, hn]
    rfl

/-- Storing the session of a reply has the effect its event has on the matching. A
result without a session stores the pair that is there already. -/
theorem stored_implements {τ : Type} (keepAlive : String → τ → Except Exc Unit × τ)
    {t : State (σ × List (Json × Json)) Hdl} {hist : List (Event Hdl)} {alive : Hdl → Bool}
    {hdl : Hdl} (secure : Bool) (resp : Json) (st : τ)
    (ht : t.tables.Implements (linked rpc hist)) (hc : alive hdl = true) :
    (storeConnection keepAlive alive hdl secure (nextSession rpc resp (t.session hdl)) t.tables
      st).2.1.Implements (linked rpc (hist ++ [.reply hdl resp])) := by
  rw [linked_snoc]
  by_cases he : (resp.member? "error").isSome = true
  · simpa [nextSession, he, Event.op, replySession, storeConnection_noSession] using ht
  · cases hs : replySession rpc resp with
    | some s =>
      have hn : nextSession rpc resp (t.session hdl) = s := by simp [nextSession, he, hs]
      rw [hn]
      by_cases hs0 : s = ""
      · subst hs0
        simpa [Event.op, hs, storeConnection_noSession] using ht
      · simp only [Event.op, hs, hs0, ↓reduceIte, Matching.Op.apply]
        exact storeConnection_implements keepAlive secure st ht hc hs0
    | none =>
      have hn : nextSession rpc resp (t.session hdl) = t.session hdl := by
        simp [nextSession, he, hs]
      simp only [hn, Event.op, hs]
      by_cases hs0 : t.session hdl = ""
      · rw [hs0, storeConnection_noSession]
        exact ht
      · have hrev : t.tables.connectionsReverse.lookup hdl = some (t.session hdl) := by
          unfold State.session at hs0 ⊢
          cases h : t.tables.connectionsReverse.lookup hdl <;> simp_all
        have hpair : linked rpc hist (t.session hdl) = some hdl := by
          rw [← ht.1, ht.matched]; exact hrev
        have h := storeConnection_implements keepAlive secure st ht hc hs0
        rwa [Matching.link_of_paired _ _ _ hpair] at h

/-- The handler sees the request with the session of the connection, and the reply
links the session it reports. Nothing is thrown. -/
theorem processMessage_addressed (alive : Hdl → Bool) (secure : Bool) (hh : HandlerReplies handler)
    (hka : ∀ s st, Tolerated (keepAlive s st).1) {t : State (σ × List (Json × Json)) Hdl}
    {hist : List (Event Hdl)} (ht : t.tables.Implements (linked rpc hist)) {hdl : Hdl}
    {payload : String} {v : Json} (hp : text.parse payload = some v) (hv : Addressed v)
    (hc : alive hdl = true) :
    ∃ t' resp, resp = (handler (delivered rpc (t.session hdl) v) t.server.1).1.2 ∧
      processMessage (recording rpc text handler keepAlive) alive secure hdl payload t =
        some (.ok (), t') ∧
      t'.server.2 = t.server.2 ++ [(delivered rpc (t.session hdl) v, resp)] ∧
      t'.tables.Implements (linked rpc (hist ++ [.reply hdl resp])) := by
  have ha := admits_of_addressed hv (t.session hdl)
  have harr : v.isArray = false := by
    obtain ⟨ho, -⟩ := hv
    cases v <;> simp_all [Json.isObject, Json.isArray]
  rcases hr : handler (delivered rpc (t.session hdl) v) t.server.1 with ⟨⟨ret, resp⟩, st⟩
  have hrd : Readable resp := by
    have h := readable_iff hh (delivered rpc (t.session hdl) v) t.server.1
    rw [hr, isArray_delivered ha] at h
    exact h.mpr (by simp [harr])
  have hlog : logged handler (delivered rpc (t.session hdl) v) t.server =
      ((ret, resp), st, t.server.2 ++ [(delivered rpc (t.session hdl) v, resp)]) := by
    simp [logged, hr]
  have hpm := processMessage_of_readable (keepLogged keepAlive) alive secure hp ha hlog hrd
  have hok := (storeConnection_ok_iff (keepLogged keepAlive) secure
    (s := nextSession rpc resp (t.session hdl))
    (st, t.server.2 ++ [(delivered rpc (t.session hdl) v, resp)]) ht.matched hc).mpr
    (Or.inr (Or.inr (hka _ _)))
  have hserver := storeConnection_server (keepLogged keepAlive) alive hdl secure
    (nextSession rpc resp (t.session hdl)) t.tables
    (st, t.server.2 ++ [(delivered rpc (t.session hdl) v, resp)])
  have htables := stored_implements (keepLogged keepAlive) secure resp
    (st, t.server.2 ++ [(delivered rpc (t.session hdl) v, resp)]) ht hc
  rcases hst : storeConnection (keepLogged keepAlive) alive hdl secure
    (nextSession rpc resp (t.session hdl)) t.tables
    (st, t.server.2 ++ [(delivered rpc (t.session hdl) v, resp)]) with ⟨res, tables, server⟩
  rw [hst] at hpm hok hserver htables
  obtain rfl : res = .ok () := hok
  refine ⟨_, resp, rfl, hpm, ?_, htables⟩
  rcases (hserver : server = _ ∨ server = _) with rfl | rfl <;> rfl

theorem Step.linked (hh : HandlerReplies handler) (hka : ∀ s st, Tolerated (keepAlive s st).1)
    {t t' : State (σ × List (Json × Json)) Hdl} {hist : List (Event Hdl)} {e : Event Hdl}
    (ht : t.tables.Implements (linked rpc hist)) (h : Step rpc text handler keepAlive t e t') :
    t'.tables.Implements (Transport.linked rpc (hist ++ [e])) := by
  cases h with
  | reply hp hv hc hpm hlog =>
    obtain ⟨t'', resp', -, hpm', hlog', ht'⟩ := processMessage_addressed _ _ hh hka ht hp hv hc
    rw [hpm] at hpm'
    obtain rfl : t' = t'' := by simpa using hpm'
    rw [hlog] at hlog'
    obtain ⟨-, rfl⟩ : _ ∧ _ = resp' := by simpa using hlog'
    exact ht'
  | close hdl =>
    rw [linked_snoc]
    exact closeHandler_implements hdl ht

theorem isNotification_delivered {sessionId : String} {v : Json} (h : IsNotification v) :
    IsNotification (delivered rpc sessionId v) := by
  unfold delivered
  split_ifs with hs
  · exact h
  · cases v with
    | obj ms =>
      simpa [IsNotification, withSession, Assoc.find_put_of_ne (show "id" ≠ "params" by decide),
        Assoc.find_put_of_ne (show "method" ≠ "params" by decide), Except.toOption] using h
    | _ => simp [IsNotification, Json.member?] at h

/-- Along every run of whole messages and closes a request without a session
reaches the handler with the session its connection sticks to, and unchanged when
there is none; one with a session of its own reaches it unchanged. Replies to
notifications and errors change no association. -/
theorem session_stickiness (hh : HandlerReplies handler)
    (hnull : ∀ v st, IsNotification v →
      (handler v st).1.2 = .null ∨ ((handler v st).1.2.member? "error").isSome = true)
    (hka : ∀ s st, Tolerated (keepAlive s st).1) {st₀ : σ} {hist : List (Event Hdl)}
    {t : State (σ × List (Json × Json)) Hdl}
    (hrun : Run (Step rpc text handler keepAlive) ⟨.empty, (st₀, []), []⟩ hist t)
    (alive : Hdl → Bool) (secure : Bool) {hdl : Hdl} {payload : String} {v : Json}
    (hp : text.parse payload = some v) (hv : Addressed v) (hc : alive hdl = true) :
    ∃ request resp t',
      processMessage (recording rpc text handler keepAlive) alive secure hdl payload t =
        some (.ok (), t') ∧
      t'.server.2 = t.server.2 ++ [(request, resp)] ∧
      ((paramsOf v).member? "sessionId" = none →
        (∀ s, StickyTo rpc hist hdl s → paramsSession rpc request = some s ∧
          request = withSession s v) ∧
        ((∀ s, ¬ StickyTo rpc hist hdl s) → request = v)) ∧
      (∀ s, (paramsOf v).member? "sessionId" = some (.str s) → request = v) ∧
      (IsNotification v ∨ (resp.member? "error").isSome = true →
        ∀ c, t'.tables.connectionsReverse.lookup c = t.tables.connectionsReverse.lookup c) := by
  have ht : t.tables.Implements (linked rpc hist) :=
    hrun.history_invariant (motive := fun hist t => t.tables.Implements (linked rpc hist))
      (fun _ _ _ _ h hstep => hstep.linked hh hka h) implements_empty
  obtain ⟨t', resp, hresp, hpm, hlog, ht'⟩ :=
    processMessage_addressed alive secure hh hka ht hp hv hc
  refine ⟨_, resp, t', hpm, hlog, fun hno => ⟨fun s hs => ?_, fun hs => ?_⟩, fun s hs => ?_, ?_⟩
  · have hn : paramsSession rpc v = none := by simp [paramsSession_eq, JsonRpc.text?, hno]
    have hreq : delivered rpc (t.session hdl) v = withSession s v := by
      simp [delivered, (session_eq ht hdl).1 s hs, hs.ne_empty, hn]
    exact ⟨hreq ▸ withSession_session rpc s v, hreq⟩
  · simp [delivered, (session_eq ht hdl).2 hs]
  · simp [delivered, paramsSession_eq, rpc.text?_str hs]
  · intro hquiet c
    have hop : Event.op rpc (.reply hdl resp) = none := by
      have hreply : resp = .null ∨ (resp.member? "error").isSome = true := by
        refine hquiet.elim (fun hn => ?_) Or.inr
        rw [hresp]
        exact hnull _ _ (isNotification_delivered hn)
      rcases hreply with hn | he
      · simp [hn, Event.op, replySession]
      · simp [Event.op, replySession, he]
    rw [linked_snoc, hop] at ht'
    rw [ht'.2, ht.2]

end Sticky

/-- After a reply in session `s` a ping without a session is handled in it. -/
theorem session_stickiness_ping :
    ∃ t, processMessage (recording JsonRpc.plain (.ofValues [connectRequest, pingRequest])
        echoSession fun _ st => (.ok (), st)) (fun _ => true) false 0 connectRequest.text
        ⟨.empty, ((), []), []⟩ = some (.ok (), t) ∧
      ∃ request resp t', processMessage (recording JsonRpc.plain
          (.ofValues [connectRequest, pingRequest]) echoSession fun _ st => (.ok (), st))
          (fun _ => true) false 0 pingRequest.text t = some (.ok (), t') ∧
        t'.server.2 = t.server.2 ++ [(request, resp)] ∧
        paramsSession JsonRpc.plain request = some "s" := by
  have hparse : (JsonText.ofValues [connectRequest, pingRequest]).parse connectRequest.text =
      some connectRequest := by rfl
  have hparse' : (JsonText.ofValues [connectRequest, pingRequest]).parse pingRequest.text =
      some pingRequest := by rfl
  have hnull : ∀ v st, IsNotification v →
      (echoSession v st).1.2 = .null ∨ ((echoSession v st).1.2.member? "error").isSome = true := by
    rintro v st ⟨h, -⟩
    simp [echoSession, h]
  obtain ⟨t, ht⟩ : ∃ t, processMessage (recording JsonRpc.plain
      (.ofValues [connectRequest, pingRequest]) echoSession fun _ st => (.ok (), st))
      (fun _ => true) false 0 connectRequest.text ⟨.empty, ((), []), []⟩ = some (.ok (), t) :=
    ⟨_, rfl⟩
  refine ⟨t, ht, ?_⟩
  have hstep : Step JsonRpc.plain (.ofValues [connectRequest, pingRequest]) echoSession
      (fun _ st => (.ok (), st)) ⟨.empty, ((), []), []⟩
      (.reply 0 (echoSession connectRequest ()).1.2) t := by
    have hlog : t.server.2 = [] ++ [(connectRequest, (echoSession connectRequest ()).1.2)] := by
      cases ht
      rfl
    exact .reply hparse ⟨rfl, rfl⟩ rfl ht hlog
  have hka : ∀ (s : String) (st : Unit),
      Tolerated ((fun _ st => (.ok (), st) : String → Unit → Except Exc Unit × Unit) s st).1 :=
    fun _ _ => trivial
  obtain ⟨request, resp, t', h1, h2, h3, -⟩ := session_stickiness
    echoSession_answers.toHandlerReplies hnull hka
    (.single hstep) (fun _ => true) false hparse' ⟨rfl, rfl⟩ rfl
  have hs : StickyTo JsonRpc.plain [.reply 0 (echoSession connectRequest ()).1.2] 0 "s" :=
    ⟨[], _, [], rfl, rfl, by simp⟩
  exact ⟨request, resp, t', h1, h2, ((h3 rfl).1 "s" hs).1⟩

end KurentoMediaServer.Transport
