import KurentoMediaServer.Events.Refinement
import KurentoMediaServer.Transport.Message
import KurentoMediaServer.Transport.Secure

/-! Events on their way to the clients. The transport and the server behind it are run
together: messages on any connection, closed connections, expiring cache entries, the
keep-alive of sessions, and events. `sendEvent` hands the text of an event to the
connection of its session, through the server that has accepted the connection. So a
connection is sent an event once if its session has a registered subscription to it, and
otherwise not at all. -/

namespace KurentoMediaServer.Transport

open Foundations Methods Events Cache

variable {σ Hdl : Type} [DecidableEq Hdl]

def onEvent (value : Json) : Json :=
  .obj [("jsonrpc", .str "2.0"), ("method", .str "onEvent"), ("params", .obj [("value", value)])]

/-- `WebSocketEventHandler::sendEvent`. What is thrown for a session without connection
is caught there. -/
def sendEvent (text : JsonText) (value : Json) (handler : WebSocketEventHandler)
    (t : Tables Hdl) : Option (Bool × Hdl × String) × Tables Hdl :=
  send handler.sessionId (text.writeString (onEvent value)) t

/-- The handlers called for an event, one after the other, with the frames they send. -/
def sendEvents (text : JsonText) (value : Json) :
    List WebSocketEventHandler → Tables Hdl → List (Bool × Hdl × String) × Tables Hdl
  | [], t => ([], t)
  | handler :: rest, t =>
    let (frame, t) := sendEvent text value handler t
    let (frames, t) := sendEvents text value rest t
    (frame.toList ++ frames, t)

section System
variable (rpc : JsonRpc) {core : Core σ} (events : EventCore core) (jsonrpc : RpcHandler)
  (text : JsonText)

/-- `ServerMethods` behind the transport, with the nesting its handler returns for. -/
def serverProcessor (depth : ℕ) : Processor (Server (Subscriptions σ)) where
  process := process rpc text (handlerProcess rpc (withEvents rpc events) jsonrpc depth)
  keepAliveSession s st :=
    let (result, media) := (withEvents rpc events).keepAliveSession s st.media
    (result, { st with media })

/-- The handlers of kms-core that are called for an event. -/
def called (st : Subscriptions σ) (object type : String) : List WebSocketEventHandler :=
  (events.connected st.media object type).filter (events.alive st.media)

/-- What happens in the system. An event of kms-core shows the frames it is sent in. -/
inductive SystemEvent (Hdl : Type) where
  | message (hdl : Hdl) (payload : String) (depth : ℕ)
  | close (hdl : Hdl)
  | timeout (source : ℕ)
  /-- The thread that keeps sessions alive, or any other caller. -/
  | keepAlive (sessionId : String)
  | emit (object type : String) (value : Json) (frames : List (Bool × Hdl × String))

/-- The steps, where `owner` says which connections the secure server has accepted. What
`processMessage` throws ends in the loop of `run`. -/
def SystemStep (owner : Hdl → Bool) (t : State (Server (Subscriptions σ)) Hdl) :
    SystemEvent Hdl → State (Server (Subscriptions σ)) Hdl → Prop
  | .message hdl payload depth, t' => ∃ alive x, alive hdl = true ∧
    processMessage (serverProcessor rpc events jsonrpc text depth) alive (owner hdl) hdl payload t =
      some (x, t')
  | .close hdl, t' => t' = { t with tables := closeHandler hdl t.tables }
  | .timeout source, t' =>
    t' = { t with server := { t.server with cache := t.server.cache.fire source } }
  | .keepAlive s, t' =>
    t' = { t with server := ((serverProcessor rpc events jsonrpc text 0).keepAliveSession s t.server).2 }
  | .emit object type value frames, t' =>
    sendEvents text value (called events t.server.media object type) t.tables = (frames, t'.tables) ∧
      t' = { t with tables := t'.tables }

end System

/-! ### The flags of connected sessions -/

/-- A session with a connection has the flag of the server that accepted it. -/
def Flagged (owner : Hdl → Bool) (t : Tables Hdl) : Prop :=
  ∀ s c, t.connections.lookup s = some c → t.secureConnections.lookup s = some (owner c)

section Flags
variable {owner : Hdl → Bool} {alive : Hdl → Bool} {c : Hdl} {s : String} {t : Tables Hdl}

/-- A store touches no flag of another session. -/
theorem storeConnection_flag_of_ne (keepAlive : String → σ → Except Exc Unit × σ)
    (secure : Bool) (st : σ) {x : String} (hx : x ≠ s) :
    (storeConnection keepAlive alive c secure s t st).2.1.secureConnections.lookup x =
      t.secureConnections.lookup x := by
  have hfirst : (evictConnection alive c s t).1.secureConnections.lookup x =
      t.secureConnections.lookup x := by
    unfold evictConnection
    cases t.connections.lookup s with
    | none => rfl
    | some d =>
      dsimp only
      split_ifs
      · rw [StdMap.lookup_erase, if_neg hx]
      · rfl
  have hsecond := evictSession_flags c s (evictConnection alive c s t).1
  simp only [storeConnection]
  split_ifs
  · rfl
  · rcases keepAlive s st with ⟨e | _, st'⟩
    · dsimp only
      split_ifs
      · simp only [Tables.associate, StdMap.lookup_insert, hx, ↓reduceIte, hsecond, hfirst]
      · simp only [Tables.associate, hsecond, hfirst]
    · simp only [Tables.associate, StdMap.lookup_insert, hx, ↓reduceIte, hsecond, hfirst]
  · simp only [StdMap.lookup_insert, hx, ↓reduceIte, hsecond, hfirst]

/-- A store that returns has written the flag of its session. -/
theorem storeConnection_flag_self (keepAlive : String → σ → Except Exc Unit × σ)
    (secure : Bool) (st : σ) (hs : s ≠ "")
    (hok : (storeConnection keepAlive alive c secure s t st).1 = .ok ()) :
    (storeConnection keepAlive alive c secure s t st).2.1.secureConnections.lookup s =
      some secure := by
  revert hok
  simp only [storeConnection, hs, ↓reduceIte]
  split_ifs
  · rcases keepAlive s st with ⟨e | _, st'⟩
    · dsimp only
      split_ifs <;> simp
    · simp
  · simp

theorem storeConnection_flagged {keepAlive : String → σ → Except Exc Unit × σ}
    (hka : ∀ s st, Tolerated (keepAlive s st).1) (st : σ) (ht : t.Matched) (hf : Flagged owner t)
    (hc : alive c = true) (s : String) :
    Flagged owner (storeConnection keepAlive alive c (owner c) s t st).2.1 := by
  by_cases hs : s = ""
  · subst hs
    exact hf
  · have hok := (storeConnection_ok_iff keepAlive (owner c) (s := s) st ht hc).mpr
      (Or.inr (Or.inr (hka s st)))
    intro x y hxy
    rcases ((storeConnection_spec keepAlive (owner c) st ht hc hs).2 x y).mp hxy with
      ⟨rfl, rfl⟩ | ⟨hx, -, hold⟩
    · exact storeConnection_flag_self keepAlive _ st hs hok
    · rw [storeConnection_flag_of_ne keepAlive _ st hx]
      exact hf x y hold

theorem closeHandler_flagged (hdl : Hdl) (ht : t.Matched) (hf : Flagged owner t) :
    Flagged owner (closeHandler hdl t) := by
  intro x y hxy
  obtain ⟨hne, hold⟩ := ((closeHandler_spec hdl ht).2 x y).mp hxy
  unfold closeHandler
  cases hrc : t.connectionsReverse.lookup hdl with
  | none => exact hf x y hold
  | some o =>
    have hxo : x ≠ o := by
      rintro rfl
      have ho := (ht x hdl).mpr hrc
      rw [hold] at ho
      exact hne (Option.some.inj ho)
    simp only [StdMap.lookup_erase, hxo, ↓reduceIte]
    exact hf x y hold

omit [DecidableEq Hdl] in
/-- `send` uses the server of the connection and leaves the tables as they are. -/
theorem send_eq (hf : Flagged owner t) (s m : String) :
    send s m t = ((t.connections.lookup s).map fun c => (owner c, c, m), t) := by
  unfold send
  cases hc : t.connections.lookup s with
  | none => rfl
  | some c => simp only [hf s c hc, Option.getD_some, Option.map_some, StdMap.insert_of_present (hf s c hc)]

omit [DecidableEq Hdl] in
theorem sendEvents_eq (text : JsonText) (value : Json) (hf : Flagged owner t)
    (handlers : List WebSocketEventHandler) :
    sendEvents text value handlers t =
      ((handlers.map (·.sessionId)).filterMap fun s =>
        (t.connections.lookup s).map fun c => (owner c, c, text.writeString (onEvent value)), t) := by
  induction handlers with
  | nil => rfl
  | cons handler rest ih =>
    rw [sendEvents, sendEvent, send_eq hf]
    dsimp only
    rw [ih, List.map_cons, List.filterMap_cons]
    cases t.connections.lookup handler.sessionId <;> rfl

end Flags

/-! ### Every run -/

section Runs
variable {rpc : JsonRpc} {core : Core σ} {events : EventCore core} {jsonrpc : RpcHandler}
  {text : JsonText} {owner : Hdl → Bool} {x₀ : Subscriptions σ × ℕ}
  {t t' : State (Server (Subscriptions σ)) Hdl}

theorem processMessage_cases {τ : Type} {processor : Processor τ} {alive : Hdl → Bool}
    {secure : Bool} {hdl : Hdl} {payload : String} {u u' : State τ Hdl} {x : Except Exc Unit}
    (h : processMessage processor alive secure hdl payload u = some (x, u')) :
    ∃ y server, processor.process payload (u.session hdl) u.server = some (y, server) ∧
      ((u'.tables = u.tables ∧ u'.server = server) ∨
        ∃ s, u'.tables = (storeConnection processor.keepAliveSession alive hdl secure s u.tables
            server).2.1 ∧
          u'.server = (storeConnection processor.keepAliveSession alive hdl secure s u.tables
            server).2.2) := by
  unfold processMessage at h
  split at h
  · cases h
  · next e server hp =>
    cases h
    exact ⟨_, server, hp, Or.inl ⟨rfl, rfl⟩⟩
  · next response s server hp =>
    refine ⟨_, server, hp, Or.inr ⟨s, ?_⟩⟩
    split at h
    all_goals
      next hst =>
        cases h
        rw [hst]
        exact ⟨rfl, rfl⟩

/-- What every step keeps: the tables are one matching, with the flags of the sessions in
it, and the subscriptions have moved by their own steps. -/
structure SystemSound (rpc : JsonRpc) (events : EventCore core) (owner : Hdl → Bool)
    (x₀ : Subscriptions σ × ℕ) (t : State (Server (Subscriptions σ)) Hdl) : Prop where
  matched : t.tables.Matched
  flagged : Flagged owner t.tables
  leads : Leads rpc events x₀ (t.server.media, t.server.drawn)

/-- Keeping a session alive is a step of the subscriptions. -/
theorem keepAliveSession_leads (hother : Unrelated events) (jsonrpc : RpcHandler)
    (text : JsonText) (s : String) (st : Server (Subscriptions σ)) (depth : ℕ) :
    Moved (Leads rpc events) st
      ((serverProcessor rpc events jsonrpc text depth).keepAliveSession s st).2 :=
  (follows_withEvents hother).keepAliveSession s st.media st.drawn

theorem SystemStep.sound {e : SystemEvent Hdl} (hother : Unrelated events)
    (hka : ∀ s m, Tolerated (core.keepAliveSession s m).1)
    (hst : SystemSound rpc events owner x₀ t)
    (h : SystemStep rpc events jsonrpc text owner t e t') : SystemSound rpc events owner x₀ t' := by
  obtain ⟨hm, hf, hl⟩ := hst
  cases e with
  | message hdl payload depth =>
    obtain ⟨alive, x, hc, h⟩ := h
    obtain ⟨y, server, hp, hcase⟩ := processMessage_cases h
    have hserver : Moved (Leads rpc events) t.server server :=
      process_moves (follows_withEvents hother) hp
    rcases hcase with ⟨ht, hs⟩ | ⟨s, ht, hs⟩
    · rw [← hs] at hserver
      exact ⟨ht ▸ hm, ht ▸ hf, trans_of (Leads rpc events) hl hserver⟩
    · have hka' (s) (st : Server (Subscriptions σ)) : Tolerated
          ((serverProcessor rpc events jsonrpc text depth).keepAliveSession s st).1 := hka s _
      refine ⟨?_, ht ▸ storeConnection_flagged hka' server hm hf hc s, ?_⟩
      · rw [ht]
        by_cases hs0 : s = ""
        · subst hs0
          exact hm
        · exact (storeConnection_spec _ (owner hdl) server hm hc hs0).1
      · refine trans_of (Leads rpc events) hl (trans_of (Leads rpc events) hserver ?_)
        rw [hs]
        rcases storeConnection_server (serverProcessor rpc events jsonrpc text depth).keepAliveSession
          alive hdl (owner hdl) s t.tables server with h' | h'
        · rw [h']
          exact refl_of (Leads rpc events) _
        · rw [h']
          exact keepAliveSession_leads hother jsonrpc text s server depth
  | close hdl =>
    obtain rfl := h
    exact ⟨(closeHandler_spec hdl hm).1, closeHandler_flagged hdl hm hf, hl⟩
  | timeout source =>
    obtain rfl := h
    exact ⟨hm, hf, hl⟩
  | keepAlive s =>
    obtain rfl := h
    exact ⟨hm, hf, trans_of (Leads rpc events) hl (keepAliveSession_leads hother jsonrpc text s t.server 0)⟩
  | emit object type value frames =>
    obtain ⟨h, ht'⟩ := h
    rw [sendEvents_eq text value hf, Prod.mk.injEq] at h
    have hserver : t'.server = t.server := by rw [ht']
    exact ⟨h.2 ▸ hm, h.2 ▸ hf, hserver ▸ hl⟩

def systemStart (server : Server (Subscriptions σ)) : State (Server (Subscriptions σ)) Hdl :=
  ⟨.empty, server, []⟩

theorem systemSound_start (server : Server (Subscriptions σ)) :
    SystemSound rpc events owner (server.media, server.drawn) (systemStart server) :=
  ⟨matched_empty, fun s c h => by simp [systemStart, Tables.empty] at h,
    refl_of (Leads rpc events) _⟩

/-- How often a connection is among those of some sessions: as often as its own session. -/
theorem countP_frames {tables : Tables Hdl} (hm : tables.Matched) (owner : Hdl → Bool)
    (message : String) (sessions : List String) (c : Hdl) :
    (sessions.filterMap fun s => (tables.connections.lookup s).map
        fun c => (owner c, c, message)).countP (fun f => f.2.1 = c) =
      match tables.connectionsReverse.lookup c with
      | some s => sessions.count s
      | none => 0 := by
  induction sessions with
  | nil => cases tables.connectionsReverse.lookup c <;> rfl
  | cons s rest ih =>
    have hs := hm s c
    rw [List.filterMap_cons]
    cases hc : tables.connections.lookup s with
    | none =>
      simp only [Option.map_none, ih]
      cases hr : tables.connectionsReverse.lookup c with
      | none => rfl
      | some s' =>
        have hne : s ≠ s' := by
          rintro rfl
          rw [hs.mpr hr] at hc
          cases hc
        simp [hne]
    | some d =>
      simp only [Option.map_some, List.countP_cons, ih]
      cases hr : tables.connectionsReverse.lookup c with
      | none =>
        have hne : d ≠ c := by
          rintro rfl
          rw [hs.mp hc] at hr
          cases hr
        simp [hne]
      | some s' =>
        have hiff : d = c ↔ s = s' := by
          constructor
          · rintro rfl
            rw [hs.mp hc] at hr
            exact Option.some.inj hr
          · rintro rfl
            rw [hs.mpr hr] at hc
            exact (Option.some.inj hc).symm
        simp [List.count_cons, hiff]

/-- In every run of the system, an event is sent on a connection once if the connection has
a session with a registered subscription to it, and otherwise not at all; each frame holds
the event and goes through the server that has accepted its connection. -/
theorem event_frames (hother : Unrelated events)
    (hka : ∀ s m, Tolerated (core.keepAliveSession s m).1) {server : Server (Subscriptions σ)}
    (h0 : Fresh events server.media) {es : List (SystemEvent Hdl)}
    (hrun : Run (SystemStep rpc events jsonrpc text owner) (systemStart server) es t) :
    (∃ hist, Run (TameStep rpc events) (server.media, server.drawn) hist
      (t.server.media, t.server.drawn)) ∧
    ∀ hist, Run (TameStep rpc events) (server.media, server.drawn) hist
        (t.server.media, t.server.drawn) → (∀ e ∈ hist, PlainEvent rpc e) →
      ∀ object type value frames u,
        SystemStep rpc events jsonrpc text owner t (.emit object type value frames) u →
        (∀ f ∈ frames, f = (owner f.2.1, f.2.1, text.writeString (onEvent value))) ∧
        ∀ c, ((∃ s, t.tables.connections.lookup s = some c ∧
            Registered rpc events hist t.server.media s object type) →
              frames.countP (fun f => f.2.1 = c) = 1) ∧
          ((¬ ∃ s, t.tables.connections.lookup s = some c ∧
            Registered rpc events hist t.server.media s object type) →
              frames.countP (fun f => f.2.1 = c) = 0) := by
  have hst : SystemSound rpc events owner (server.media, server.drawn) t :=
    hrun.invariant (motive := SystemSound rpc events owner (server.media, server.drawn))
      (fun _ _ _ hu hstep => hstep.sound hother hka hu) (systemSound_start server)
  refine ⟨hst.leads, fun hist hhist hp object type value frames u ⟨hframes, _⟩ => ?_⟩
  rw [sendEvents_eq text value hst.flagged, Prod.mk.injEq] at hframes
  obtain ⟨rfl, -⟩ := hframes
  constructor
  · intro f hf
    obtain ⟨s, -, hs⟩ := List.mem_filterMap.mp hf
    obtain ⟨c, -, rfl⟩ := Option.map_eq_some_iff.mp hs
    rfl
  · intro c
    have hsent (s : String) := (kept_of_run h0 hhist hp).sent s object type
    rw [countP_frames hst.matched]
    cases hr : t.tables.connectionsReverse.lookup c with
    | none =>
      refine ⟨fun ⟨s, hs, _⟩ => ?_, fun _ => rfl⟩
      rw [(hst.matched s c).mp hs] at hr
      cases hr
    | some s =>
      have hc := (hst.matched s c).mpr hr
      refine ⟨fun ⟨s', hs', hreg⟩ => ?_, fun hno => (hsent s).2 fun hreg => hno ⟨s, hc, hreg⟩⟩
      rw [(hst.matched s' c).mp hs'] at hr
      obtain rfl := Option.some.inj hr
      exact (hsent s').1 hreg

end Runs

/-- The steps of a system in which the plain server accepts every connection. -/
def ErrorSystemStep : State (Server (Subscriptions EventMedia)) ℕ → SystemEvent ℕ →
    State (Server (Subscriptions EventMedia)) ℕ → Prop :=
  SystemStep JsonRpc.plain (EventCore.ofTypes ["Error"]) RpcHandler.plain
    (.ofValues [subscribeRequest]) fun _ => false

theorem event_frames_subscriber :
    ∃ t frames, Run ErrorSystemStep (systemStart ⟨noSubscriptions, .empty, 0⟩)
        [.message 0 subscribeRequest.text 1] t ∧
      ErrorSystemStep t (.emit "o" "Error" .null frames) t ∧
      frames.countP (fun f => f.2.1 = 0) = 1 := by
  have hparse : (JsonText.ofValues [subscribeRequest]).parse subscribeRequest.text =
      some subscribeRequest := by
    simp [JsonText.ofValues]
  obtain ⟨t, hmessage, ht⟩ : ∃ t : State (Server (Subscriptions EventMedia)) ℕ,
      processMessage (serverProcessor JsonRpc.plain (EventCore.ofTypes ["Error"]) RpcHandler.plain
          (.ofValues [subscribeRequest]) 1) (fun _ => true) false 0 subscribeRequest.text
          (systemStart ⟨noSubscriptions, .empty, 0⟩) = some (.ok (), t) ∧
        TameStep JsonRpc.plain (EventCore.ofTypes ["Error"]) (noSubscriptions, 0)
          (subscribeEvent 0) (t.server.media, t.server.drawn) ∧
        t.tables.connections.lookup "s" = some 0 ∧
        (EventCore.ofTypes ["Error"]).registered t.server.media.media "s" "o" (eventMedia.uuid 0) =
          some ⟨0, "o", "s"⟩ ∧
        called (EventCore.ofTypes ["Error"]) t.server.media "o" "Error" = [⟨0, "o", "s"⟩] ∧
        t.tables.secureConnections.lookup "s" = some false := by
    simp only [processMessage, serverProcessor, process, hparse]
    exact ⟨_, rfl, ⟨rfl, fun h => by cases h⟩, rfl, rfl, rfl, rfl⟩
  obtain ⟨hsub, hc, hreg, hcalled, hflag⟩ := ht
  have hrun : Run ErrorSystemStep (systemStart ⟨noSubscriptions, .empty, 0⟩)
      [.message 0 subscribeRequest.text 1] t := .single ⟨_, _, rfl, hmessage⟩
  have hemit : ErrorSystemStep t (.emit "o" "Error" .null
      [(false, 0, (JsonText.ofValues [subscribeRequest]).writeString (onEvent .null))]) t := by
    refine ⟨?_, rfl⟩
    simp only [hcalled, sendEvents, sendEvent, send, hc, hflag, Option.getD_some,
      StdMap.insert_of_present hflag]
    rfl
  have hplain : ∀ e ∈ [subscribeEvent 0], PlainEvent JsonRpc.plain e := by
    intro e he
    rw [List.mem_singleton.mp he]
    exact (plain_subscribeEvent (noSubscriptions, 0) 0).2
  have hstanding : Standing JsonRpc.plain [subscribeEvent 0] "s" "o" "Error" (eventMedia.uuid 0) :=
    ⟨[], _, [], rfl, ⟨rfl, rfl, subscription_members _ _⟩, by simp⟩
  refine ⟨t, _, hrun, hemit, ?_⟩
  exact (((event_frames (unrelated_ofTypes _) (fun _ _ => trivial) (fresh_noSubscriptions _)
    hrun).2 _ (.single hsub) hplain _ _ _ _ _ hemit).2 0).1 ⟨"s", hc, _, hstanding, by rw [hreg]; rfl⟩

end KurentoMediaServer.Transport
