import KurentoMediaServer.Events.Forgetting

/-! `processSubscription` statement by statement. It holds the mutex of the transport, so
one call runs at a time, but kms-core does not take that mutex: between any two statements
other threads may remove subscriptions and emit events. The call holds a pointer to its
handler, so the handler stays alive until the call returns, registered or not. -/

namespace KurentoMediaServer.Events

open Foundations Methods

inductive Stage where
  /-- A handler has been made and is not connected. -/
  | creating
  /-- It is connected and not registered. -/
  | connected
  /-- It is registered and not yet under its key. -/
  | filing
  /-- A handler has been found alive and is not registered again. -/
  | reusing
  deriving DecidableEq

/-- The call of `processSubscription` that holds the mutex, past its look-up. -/
structure SubscriptionCall where
  stage : Stage
  object : MediaObject
  sessionId : String
  eventType : String
  handler : WebSocketEventHandler

structure Busy (σ : Type) extends Subscriptions σ where
  drawn : ℕ
  call : Option SubscriptionCall

/-- The steps. A registration and a removal show the subscription, an event the sessions
`sendEvent` is called for. -/
inductive BusyEvent where
  | enter (sessionId object eventType : String)
  | connect
  | refuse
  | register (sessionId object eventType subscription : String)
  | file
  | unsubscribe (sessionId object subscription : String)
  | emit (object type : String) (sessions : List String)
  | forget
  deriving DecidableEq

variable {σ : Type} {core : Core σ} (events : EventCore core)

def Busy.held (t : Busy σ) : Option WebSocketEventHandler := t.call.map (·.handler)

def Busy.Alive (t : Busy σ) (h : WebSocketEventHandler) : Prop :=
  events.alive t.media h = true ∨ t.held = some h

instance (t : Busy σ) (h : WebSocketEventHandler) : Decidable (t.Alive events h) := by
  unfold Busy.Alive
  infer_instance

/-- The sessions of the handlers called for an event. -/
def Busy.sent (t : Busy σ) (object type : String) : List String :=
  ((events.connected t.media object type).filter fun h => t.Alive events h).map (·.sessionId)

def Busy.newHandler (t : Busy σ) (object : MediaObject) (sessionId : String) : WebSocketEventHandler :=
  ⟨t.made.length, object.id, sessionId⟩

inductive BusyStep : Busy σ → BusyEvent → Busy σ → Prop
  | reuse {t : Busy σ} (object : MediaObject) {s type : String} {h : WebSocketEventHandler} :
      t.call = none → t.lock events (eventId s object.id type) = some h →
      BusyStep t (.enter s object.id type) { t with call := some ⟨.reusing, object, s, type, h⟩ }
  | create {t : Busy σ} (object : MediaObject) {s type : String} :
      t.call = none → t.lock events (eventId s object.id type) = none →
      BusyStep t (.enter s object.id type)
        { t with made := t.made ++ [(t.newHandler object s, type)]
                 call := some ⟨.creating, object, s, type, t.newHandler object s⟩ }
  | connect {t : Busy σ} (c : SubscriptionCall) : t.call = some c → c.stage = .creating →
      (events.connect c.object c.eventType c.handler t.media).1 = true →
      BusyStep t .connect
        { t with media := (events.connect c.object c.eventType c.handler t.media).2
                 call := some { c with stage := .connected } }
  | refuse {t : Busy σ} (c : SubscriptionCall) : t.call = some c → c.stage = .creating →
      (events.connect c.object c.eventType c.handler t.media).1 = false →
      BusyStep t .refuse
        { t with media := (events.connect c.object c.eventType c.handler t.media).2, call := none }
  | registerNew {t : Busy σ} (c : SubscriptionCall) : t.call = some c → c.stage = .connected →
      BusyStep t (.register c.sessionId c.object.id c.eventType (core.uuid t.drawn))
        { t with media := events.addEventHandler c.sessionId c.object.id (core.uuid t.drawn)
                   c.handler t.media
                 drawn := t.drawn + 1
                 call := some { c with stage := .filing } }
  | registerAgain {t : Busy σ} (c : SubscriptionCall) : t.call = some c → c.stage = .reusing →
      BusyStep t (.register c.sessionId c.object.id c.eventType (core.uuid t.drawn))
        { t with media := events.addEventHandler c.sessionId c.object.id (core.uuid t.drawn)
                   c.handler t.media
                 drawn := t.drawn + 1
                 call := none }
  | file {t : Busy σ} (c : SubscriptionCall) : t.call = some c → c.stage = .filing →
      BusyStep t .file
        { t with handlers := t.handlers.insert (eventId c.sessionId c.object.id c.eventType) c.handler
                 call := none }
  | unsubscribe {t : Busy σ} (s o i : String) : (core.removeEventHandler s o i t.media).1 = .ok () →
      BusyStep t (.unsubscribe s o i) { t with media := (core.removeEventHandler s o i t.media).2 }
  | emit {t : Busy σ} (o type : String) : BusyStep t (.emit o type (t.sent events o type)) t
  | forget {t : Busy σ} {media : σ} {drawn : ℕ} : t.drawn ≤ drawn →
      (∀ s o i h, events.registered media s o i = some h → events.registered t.media s o i = some h) →
      (∀ o type h, h ∈ events.connected media o type → h ∈ events.connected t.media o type) →
      (∀ o type h, events.alive media h = true ∨ t.held = some h →
        (events.connected media o type).count h = (events.connected t.media o type).count h) →
      BusyStep t .forget { t with media, drawn }

/-- A call that nothing interrupts is `processSubscription`. -/
theorem processSubscription_uninterrupted (rpc : JsonRpc) (obj : MediaObject) (s type : String)
    (params : Json) (st : Subscriptions σ) (n : ℕ) :
    match processSubscription rpc events obj s type params st n with
    | (.ok i, st', n') => ∃ es, Run (BusyStep events) ⟨st, n, none⟩
        (.enter s obj.id type :: es) ⟨st', n', none⟩ ∧ .register s obj.id type i ∈ es
    | (.error _, st', n') => Run (BusyStep events) ⟨st, n, none⟩
        [.enter s obj.id type, .refuse] ⟨st', n', none⟩ := by
  rw [processSubscription_eq]
  cases hlock : st.lock events (eventId s obj.id type) with
  | some c =>
    have h1 : BusyStep events ⟨st, n, none⟩ (.enter s obj.id type)
        ⟨st, n, some ⟨.reusing, obj, s, type, c⟩⟩ := .reuse obj rfl hlock
    exact ⟨_, (Run.single h1).snoc (.registerAgain ⟨.reusing, obj, s, type, c⟩ rfl rfl), by simp⟩
  | none =>
    have h1 : BusyStep events ⟨st, n, none⟩ (.enter s obj.id type) _ :=
      .create obj rfl hlock
    dsimp only
    split_ifs with hc
    · have h2 := (Run.single h1).snoc (.connect ⟨.creating, obj, s, type, _⟩ rfl rfl hc)
      have h3 := h2.snoc (.registerNew ⟨.connected, obj, s, type, _⟩ rfl rfl)
      exact ⟨_, h3.snoc (.file ⟨.filing, obj, s, type, _⟩ rfl rfl), by simp⟩
    · exact (Run.single h1).snoc (.refuse ⟨.creating, obj, s, type, _⟩ rfl rfl (by simpa using hc))

end KurentoMediaServer.Events
