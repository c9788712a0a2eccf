import KurentoMediaServer.Foundations.StdMap
import KurentoMediaServer.Methods.Methods

/-! Subscriptions to events. A subscription of a session to the events of an object is
served by a handler; further subscriptions of the session to the same events share it.
The transport finds it in `handlers`, which holds weak pointers under the text made of
the session, the object and the event type. kms-core owns the handlers: it keeps one
alive while a subscription with it is registered, and calls it on every event. -/

namespace KurentoMediaServer.Events

open Foundations Methods

/-- `WebSocketEventHandler`, with a number in place of its address. -/
structure WebSocketEventHandler where
  number : ℕ
  object : String
  sessionId : String
  deriving DecidableEq

/-- What the transport uses of the events of kms-core. A registered handler is alive
until all its subscriptions are removed; `connected` are the handlers connected to the
events of an object, of which those alive are called, once each time they occur. -/
structure EventCore {σ : Type} (core : Core σ) where
  connect : MediaObject → String → WebSocketEventHandler → σ → Bool × σ
  addEventHandler : String → String → String → WebSocketEventHandler → σ → σ
  alive : σ → WebSocketEventHandler → Bool
  /-- The handler registered for a session, an object and a subscription. -/
  registered : σ → String → String → String → Option WebSocketEventHandler
  connected : σ → String → String → List WebSocketEventHandler
  alive_iff : ∀ st h, alive st h = true ↔ ∃ s o i, registered st s o i = some h
  connect_registered : ∀ obj t h st s o i,
    registered (connect obj t h st).2 s o i = registered st s o i
  connect_true : ∀ obj t h st, (connect obj t h st).1 = true → ∀ o' t',
    connected (connect obj t h st).2 o' t' =
      if o' = obj.id ∧ t' = t then connected st o' t' ++ [h] else connected st o' t'
  connect_false : ∀ obj t h st, (connect obj t h st).1 = false → ∀ o' t',
    connected (connect obj t h st).2 o' t' = connected st o' t'
  add_registered : ∀ s o i h st s' o' i', registered (addEventHandler s o i h st) s' o' i' =
    if s' = s ∧ o' = o ∧ i' = i then some h else registered st s' o' i'
  add_connected : ∀ s o i h st o' t',
    connected (addEventHandler s o i h st) o' t' = connected st o' t'
  remove_registered : ∀ s o i st s' o' i', (core.removeEventHandler s o i st).1 = .ok () →
    registered (core.removeEventHandler s o i st).2 s' o' i' =
      if s' = s ∧ o' = o ∧ i' = i then none else registered st s' o' i'
  remove_thrown : ∀ s o i st s' o' i', (core.removeEventHandler s o i st).1 ≠ .ok () →
    registered (core.removeEventHandler s o i st).2 s' o' i' = registered st s' o' i'
  remove_connected : ∀ s o i st o' t',
    connected (core.removeEventHandler s o i st).2 o' t' = connected st o' t'
  get_id : ∀ s o st obj, (core.getMediaObject s o st).1 = .ok (some obj) → obj.id = o
  get_registered : ∀ s o st s' o' i',
    registered (core.getMediaObject s o st).2 s' o' i' = registered st s' o' i'
  get_connected : ∀ s o st o' t',
    connected (core.getMediaObject s o st).2 o' t' = connected st o' t'

/-- The media state with the transport's `handlers`. The handlers made so far are kept
with the event type each was made for. -/
structure Subscriptions (σ : Type) where
  media : σ
  handlers : StdMap String WebSocketEventHandler
  made : List (WebSocketEventHandler × String)

def eventId (sessionId objectId eventType : String) : String :=
  sessionId ++ "|" ++ objectId ++ "|" ++ eventType

variable {σ : Type} (rpc : JsonRpc) {core : Core σ} (events : EventCore core)

/-- The handler under a key, if it is still alive. -/
def Subscriptions.lock (st : Subscriptions σ) (key : String) : Option WebSocketEventHandler :=
  (st.handlers.lookup key).filter (events.alive st.media)

def newHandler (obj : MediaObject) (sessionId eventType : String) (st : Subscriptions σ) :
    Except Exc WebSocketEventHandler × Subscriptions σ :=
  let handler := ⟨st.made.length, obj.id, sessionId⟩
  (.ok handler, { st with made := st.made ++ [(handler, eventType)] })

def registerEventHandler (obj : MediaObject) (sessionId subscriptionId : String)
    (handler : WebSocketEventHandler) : Body (Subscriptions σ) Unit :=
  Supply.onState fun st => (.ok (), { st with
    media := events.addEventHandler sessionId obj.id subscriptionId handler st.media })

def connectEventHandler (obj : MediaObject) (sessionId eventType : String)
    (handler : WebSocketEventHandler) : Body (Subscriptions σ) String := do
  let connected ← Supply.onState fun st =>
    let (connected, media) := events.connect obj eventType handler st.media
    (.ok connected, { st with media })
  if !connected then
    throw (.kurento (rpc.kurentoException .mediaObjectEventNotSupported "Event not found"))
  let subscriptionId := core.uuid (← Supply.draw)
  registerEventHandler events obj sessionId subscriptionId handler
  return subscriptionId

def processSubscription (obj : MediaObject) (sessionId eventType : String) (_params : Json) :
    Body (Subscriptions σ) String := do
  let key := eventId sessionId obj.id eventType
  match ← Supply.onState fun st => (.ok (st.lock events key), st) with
  | none =>
    let handler ← Supply.onState (newHandler obj sessionId eventType)
    let subscriptionId ← connectEventHandler rpc events obj sessionId eventType handler
    Supply.onState fun st => (.ok (), { st with handlers := st.handlers.insert key handler })
    return subscriptionId
  | some handler =>
    let subscriptionId := core.uuid (← Supply.draw)
    registerEventHandler events obj sessionId subscriptionId handler
    return subscriptionId

/-- The state of kms-core inside that of the subscriptions. -/
def onMedia {α : Type} (f : σ → Except Exc α × σ) (st : Subscriptions σ) :
    Except Exc α × Subscriptions σ :=
  ((f st.media).1, { st with media := (f st.media).2 })

theorem connectEventHandler_draws (obj : MediaObject) (s t : String) (h : WebSocketEventHandler)
    (n : ℕ) : Supply.Ensures n (connectEventHandler rpc events obj s t h) fun _ _ => True := by
  refine Supply.ensures_onState_bind fun connected => ?_
  cases connected
  · exact fun _ => ⟨le_rfl, fun _ h => by cases h⟩
  · refine Supply.ensures_bind (Supply.ensures_draw (Q := fun _ _ => True) trivial) fun k i _ _ => ?_
    exact Supply.ensures_onState_bind fun _ => Supply.ensures_pure trivial

theorem processSubscription_draws (obj : MediaObject) (s t : String) (p : Json) (n : ℕ) :
    Supply.Ensures n (processSubscription rpc events obj s t p) fun _ _ => True := by
  refine Supply.ensures_onState_bind fun h => ?_
  cases h with
  | none =>
    refine Supply.ensures_onState_bind fun h => ?_
    refine Supply.ensures_bind (connectEventHandler_draws rpc events obj s t h n) fun k i _ _ => ?_
    exact Supply.ensures_onState_bind fun _ => Supply.ensures_pure trivial
  | some h =>
    refine Supply.ensures_bind (Supply.ensures_draw (Q := fun _ _ => True) trivial) fun k i _ _ => ?_
    exact Supply.ensures_onState_bind fun _ => Supply.ensures_pure trivial

/-- kms-core with the transport's `processSubscription` set as the handler of
subscriptions. -/
def withEvents : Core (Subscriptions σ) where
  uuid := core.uuid
  uuid_injective := core.uuid_injective
  uuid_plain := core.uuid_plain
  instanceId := core.instanceId
  getMediaObject s o := onMedia (core.getMediaObject s o)
  keepAliveSession s := onMedia (core.keepAliveSession s)
  release o := onMedia (core.release o)
  ref s o := onMedia (core.ref s o)
  unref s o := onMedia (core.unref s o)
  removeEventHandler s o i := onMedia (core.removeEventHandler s o i)
  releaseSession s := onMedia (core.releaseSession s)
  unrefSession s := onMedia (core.unrefSession s)
  eventSubscriptionHandler := processSubscription rpc events
  subscription_draws := processSubscription_draws rpc events
  invoke obj op p := onMedia (core.invoke obj op p)
  Factory := core.Factory
  getFactory t := onMedia (core.getFactory t)
  checkResources := onMedia core.checkResources
  createObject f s p := onMedia (core.createObject f s p)

/-! ### Keys -/

/-- The last separator of a word is found in one way. -/
theorem append_cons_inj {α : Type*} {c : α} {x x' y y' : List α} (hy : c ∉ y) (hy' : c ∉ y')
    (h : x ++ c :: y = x' ++ c :: y') : x = x' ∧ y = y' := by
  rcases List.append_eq_append_iff.mp h with ⟨a, rfl, ha⟩ | ⟨a, rfl, ha⟩
  · cases a with
    | nil => exact ⟨by simp, by simpa using ha⟩
    | cons b a =>
      obtain ⟨rfl, rfl⟩ : c = b ∧ y = a ++ c :: y' := by simpa using ha
      exact absurd (by simp) hy
  · cases a with
    | nil => exact ⟨by simp, by simpa using ha.symm⟩
    | cons b a =>
      obtain ⟨rfl, rfl⟩ : c = b ∧ y' = a ++ c :: y := by simpa using ha
      exact absurd (by simp) hy'

theorem eventId_toList (s o t : String) :
    (eventId s o t).toList = (s.toList ++ '|' :: o.toList) ++ '|' :: t.toList := by
  simp [eventId, String.toList_append]

/-- The key tells the session, the object and the event type, when the last two are free
of the separator. -/
theorem eventId_inj {s s' o o' t t' : String} (ho : '|' ∉ o.toList) (ho' : '|' ∉ o'.toList)
    (ht : '|' ∉ t.toList) (ht' : '|' ∉ t'.toList) (h : eventId s o t = eventId s' o' t') :
    s = s' ∧ o = o' ∧ t = t' := by
  have hl := congrArg String.toList h
  rw [eventId_toList, eventId_toList] at hl
  obtain ⟨hso, htt⟩ := append_cons_inj ht ht' hl
  obtain ⟨hss, hoo⟩ := append_cons_inj ho ho' hso
  exact ⟨String.toList_injective hss, String.toList_injective hoo, String.toList_injective htt⟩

/-! ### What a request does -/

theorem processSubscription_eq (obj : MediaObject) (s t : String) (p : Json) (st : Subscriptions σ)
    (n : ℕ) : processSubscription rpc events obj s t p st n =
      match st.lock events (eventId s obj.id t) with
      | some h => (.ok (core.uuid n), { st with
          media := events.addEventHandler s obj.id (core.uuid n) h st.media }, n + 1)
      | none =>
        let h : WebSocketEventHandler := ⟨st.made.length, obj.id, s⟩
        let media := (events.connect obj t h st.media).2
        if (events.connect obj t h st.media).1 then
          (.ok (core.uuid n),
            ⟨events.addEventHandler s obj.id (core.uuid n) h media,
              st.handlers.insert (eventId s obj.id t) h, st.made ++ [(h, t)]⟩, n + 1)
        else (.error (.kurento (rpc.kurentoException .mediaObjectEventNotSupported "Event not found")),
          ⟨media, st.handlers, st.made ++ [(h, t)]⟩, n) := by
  simp only [processSubscription, bind, Supply.onState]
  cases st.lock events (eventId s obj.id t) with
  | some h => rfl
  | none =>
    simp only [newHandler, connectEventHandler, bind, Supply.onState]
    cases (events.connect obj t ⟨st.made.length, obj.id, s⟩ st.media).1 <;> rfl

/-- The same handlers and subscriptions; at most a handler has been made that was not
connected. -/
structure Idle (st st' : Subscriptions σ) : Prop where
  handlers : st'.handlers = st.handlers
  made : ∃ new : List (WebSocketEventHandler × String), st'.made = st.made ++ new ∧
    ∀ (i : ℕ) h t, new[i]? = some (h, t) → h.number = st.made.length + i
  registered : ∀ s o i, events.registered st'.media s o i = events.registered st.media s o i
  connected : ∀ o t, events.connected st'.media o t = events.connected st.media o t

section Requests
variable {rpc events} {params : Json} {st st' st'' : Subscriptions σ} {n n' : ℕ}

theorem Idle.refl (st : Subscriptions σ) : Idle events st st :=
  ⟨rfl, ⟨[], by simp⟩, fun _ _ _ => rfl, fun _ _ => rfl⟩

theorem Idle.trans (h : Idle events st st') (g : Idle events st' st'') : Idle events st st'' := by
  obtain ⟨new, hnew, hn⟩ := h.made
  obtain ⟨new', hnew', hn'⟩ := g.made
  refine ⟨g.handlers.trans h.handlers, ⟨new ++ new', by rw [hnew', hnew, List.append_assoc],
    fun i c t hi => ?_⟩, fun s o i => (g.registered s o i).trans (h.registered s o i),
    fun o t => (g.connected o t).trans (h.connected o t)⟩
  by_cases hlt : i < new.length
  · rw [List.getElem?_append_left hlt] at hi
    exact hn i c t hi
  · rw [List.getElem?_append_right (by omega)] at hi
    have hnum := hn' _ c t hi
    rw [hnew, List.length_append] at hnum
    omega

theorem idle_get (s o : String) (st : Subscriptions σ) :
    Idle events st { st with media := (core.getMediaObject s o st.media).2 } :=
  ⟨rfl, ⟨[], by simp⟩, fun _ _ _ => events.get_registered .., fun _ _ => events.get_connected ..⟩

theorem processSubscription_ok {obj : MediaObject} {s t i : String}
    (h : processSubscription rpc events obj s t params st n = (.ok i, st', n')) :
    i = core.uuid n ∧ n' = n + 1 := by
  rw [processSubscription_eq] at h
  split at h
  · cases h; exact ⟨rfl, rfl⟩
  · dsimp only at h
    split_ifs at h <;> cases h
    exact ⟨rfl, rfl⟩

/-- A subscription that fails leaves the handlers and subscriptions as they are. -/
theorem processSubscription_error {obj : MediaObject} {s t : String} {e : Exc}
    (h : processSubscription rpc events obj s t params st n = (.error e, st', n')) :
    Idle events st st' ∧ n' = n := by
  rw [processSubscription_eq] at h
  split at h
  · cases h
  · dsimp only at h
    split_ifs at h with hc
    · cases h
    · simp only [Prod.mk.injEq] at h
      obtain ⟨-, rfl, rfl⟩ := h
      refine ⟨⟨rfl, ⟨_, rfl, fun i h t hi => ?_⟩, fun _ _ _ => events.connect_registered ..,
        events.connect_false _ _ _ _ (by simpa using hc)⟩, rfl⟩
      cases i with
      | zero => cases hi; rfl
      | succ i => simp at hi

/-- The calls of a subscription: they fail and leave everything, or they end in
`processSubscription`. -/
theorem subscribeTo_cases {s o t : String} {x : Except Exc String}
    (h : subscribeTo rpc (withEvents rpc events) s o t params st n = (x, st', n')) :
    (∃ e, x = .error e ∧ Idle events st st' ∧ n' = n) ∨
      ∃ i obj media, x = .ok i ∧ core.getMediaObject s o st.media = (.ok (some obj), media) ∧
        processSubscription rpc events obj s t params { st with media } n = (.ok i, st', n') := by
  have hget : Idle events st { st with media := (core.getMediaObject s o st.media).2 } :=
    idle_get s o st
  rcases Supply.bind_cases h with ⟨e, hm, rfl⟩ | ⟨obj, st₁, n₁, hm, h⟩
  · have hst : st' = { st with media := (core.getMediaObject s o st.media).2 } :=
      (congrArg (·.2.1) hm).symm
    exact Or.inl ⟨e, rfl, hst ▸ hget, (congrArg (·.2.2) hm).symm⟩
  · obtain rfl : { st with media := (core.getMediaObject s o st.media).2 } = st₁ :=
      congrArg (·.2.1) hm
    obtain rfl : n = n₁ := congrArg (·.2.2) hm
    have hobj : (core.getMediaObject s o st.media).1 = .ok obj := congrArg (·.1) hm
    cases obj with
    | none => cases h; exact Or.inl ⟨_, rfl, hget, rfl⟩
    | some obj =>
      rcases Supply.bind_cases h with ⟨e, hm, -⟩ | ⟨obj', st₂, n₂, hm, h⟩
      · cases hm
      · cases hm
        rcases Supply.bind_cases h with ⟨e, hm, rfl⟩ | ⟨i, st₂, n₂, hm, h⟩
        · obtain ⟨e, he⟩ := Supply.rethrow_error (fun e => by cases e <;> exact ⟨_, rfl⟩) hm
          have he' : processSubscription rpc events obj s t params
              { st with media := (core.getMediaObject s o st.media).2 } n = _ := he
          obtain ⟨hidle, hn⟩ := processSubscription_error he'
          exact Or.inl ⟨_, rfl, hget.trans hidle, hn⟩
        · have hi := Supply.rethrow_ok (fun e => by cases e <;> exact ⟨_, rfl⟩) hm
          have hne : i ≠ "" := by
            have hi' : processSubscription rpc events obj s t params
                { st with media := (core.getMediaObject s o st.media).2 } n = _ := hi
            obtain ⟨rfl, -⟩ := processSubscription_ok hi'
            exact (core.uuid_plain n).1
          rw [if_neg hne] at h
          cases h
          exact Or.inr ⟨i, obj, _, rfl, by rw [← hobj], hi⟩

/-- A subscribe request: it fails and leaves everything, or it ends in
`processSubscription`, with the session and the subscription as its result. -/
theorem subscribe_cases {x : Except Exc Json}
    (h : subscribe rpc (withEvents rpc events) params st n = (x, st', n')) :
    (∃ e, x = .error e ∧ Idle events st st' ∧ n ≤ n') ∨
      ∃ s o t i obj media k, rpc.text? params "type" = some t ∧ rpc.text? params "object" = some o ∧
        n ≤ k ∧ core.getMediaObject s o st.media = (.ok (some obj), media) ∧
        processSubscription rpc events obj s t params { st with media } k = (.ok i, st', n') ∧
        x = .ok (.object [("sessionId", .str s), ("value", .str i)]) := by
  have hfail {e : Exc} (hx : (x, st', n') = (.error e, st, n)) :
      ∃ e, x = .error e ∧ Idle events st st' ∧ n ≤ n' := by
    cases hx
    exact ⟨e, rfl, .refl _, le_rfl⟩
  rcases Supply.lift_bind_cases h with ⟨e, -, hx⟩ | ⟨-, -, h⟩
  · exact Or.inl (hfail hx)
  rcases Supply.lift_bind_cases h with ⟨e, -, hx⟩ | ⟨t, ht, h⟩
  · exact Or.inl (hfail hx)
  rcases Supply.lift_bind_cases h with ⟨e, -, hx⟩ | ⟨o, ho, h⟩
  · exact Or.inl (hfail hx)
  have hquiet : Supply.Quiet (getOrCreateSessionId rpc (withEvents rpc events) params) :=
    quiet_getOrCreateSessionId params
  replace hquiet := hquiet st n
  have hdraw : Supply.Ensures n (getOrCreateSessionId rpc (withEvents rpc events) params) _ :=
    ensures_getOrCreateSessionId
  have hle := (hdraw st).1
  rcases Supply.bind_cases h with ⟨e, hm, rfl⟩ | ⟨⟨s, b⟩, st₁, k, hm, hnext⟩
  · rw [hm] at hquiet hle
    exact Or.inl ⟨e, rfl, by rw [show st' = st from hquiet]; exact .refl _, hle⟩
  · rw [hm] at hquiet hle
    obtain rfl : st₁ = st := hquiet
    rcases Supply.bind_cases hnext with ⟨e, hm, rfl⟩ | ⟨i, st₂, k', hm, hlast⟩
    · obtain ⟨e', hsub⟩ := Supply.rethrow_error (fun e => by cases e <;> exact ⟨_, rfl⟩) hm
      rcases subscribeTo_cases hsub with ⟨_, -, hidle, hk⟩ | ⟨_, _, _, he, -⟩
      · exact Or.inl ⟨e, rfl, hidle, hk ▸ hle⟩
      · cases he
    · cases hlast
      have hsub := Supply.rethrow_ok (fun e => by cases e <;> exact ⟨_, rfl⟩) hm
      rcases subscribeTo_cases hsub with ⟨_, he, -⟩ | ⟨i', obj, media, hi, hget, hproc⟩
      · cases he
      · cases hi
        exact Or.inr ⟨s, o, t, i, obj, media, k, rpc.getStringValue_eq_ok.mp ht,
          rpc.getStringValue_eq_ok.mp ho, hle, hget, hproc, rfl⟩

/-- An unsubscribe request: it fails and leaves everything, or it removes the
subscription it names. -/
theorem unsubscribe_cases {x : Except Exc Json}
    (h : unsubscribe rpc (withEvents rpc events) params st n = (x, st', n')) :
    n' = n ∧ ((∃ e, x = .error e ∧ Idle events st st') ∨
      ∃ s o i, rpc.text? params "sessionId" = some s ∧ rpc.text? params "object" = some o ∧
        rpc.text? params "subscription" = some i ∧
        (core.removeEventHandler s o i st.media).1 = .ok () ∧
        st' = { st with media := (core.removeEventHandler s o i st.media).2 } ∧
        x = .ok (.object [("sessionId", .str s)])) := by
  have hfail {e : Exc} (hx : (x, st', n') = (.error e, st, n)) :
      n' = n ∧ ∃ e, x = .error e ∧ Idle events st st' := by
    cases hx
    exact ⟨rfl, e, rfl, .refl _⟩
  rcases Supply.lift_bind_cases h with ⟨e, -, hx⟩ | ⟨-, -, h⟩
  · exact ⟨(hfail hx).1, Or.inl (hfail hx).2⟩
  rcases Supply.lift_bind_cases h with ⟨e, -, hx⟩ | ⟨o, ho, h⟩
  · exact ⟨(hfail hx).1, Or.inl (hfail hx).2⟩
  rcases Supply.lift_bind_cases h with ⟨e, -, hx⟩ | ⟨i, hi, h⟩
  · exact ⟨(hfail hx).1, Or.inl (hfail hx).2⟩
  rcases Supply.lift_bind_cases h with ⟨e, -, hx⟩ | ⟨s, hs, h⟩
  · exact ⟨(hfail hx).1, Or.inl (hfail hx).2⟩
  rcases Supply.bind_cases h with ⟨e, hm, rfl⟩ | ⟨u, st₁, k, hm, h⟩
  · have he : (core.removeEventHandler s o i st.media).1 = .error e := congrArg (·.1) hm
    obtain rfl : { st with media := (core.removeEventHandler s o i st.media).2 } = st' :=
      congrArg (·.2.1) hm
    obtain rfl : n = n' := congrArg (·.2.2) hm
    exact ⟨rfl, Or.inl ⟨e, rfl, rfl, ⟨[], by simp⟩,
      fun _ _ _ => events.remove_thrown _ _ _ _ _ _ _ (by simp [he]),
      fun _ _ => events.remove_connected ..⟩⟩
  · cases h
    have hok : (core.removeEventHandler s o i st.media).1 = .ok u := congrArg (·.1) hm
    have hst : { st with media := (core.removeEventHandler s o i st.media).2 } = st' :=
      congrArg (·.2.1) hm
    have hn : n = n' := congrArg (·.2.2) hm
    exact ⟨hn.symm, Or.inr ⟨s, o, i, rpc.getStringValue_eq_ok.mp hs, rpc.getStringValue_eq_ok.mp ho,
      rpc.getStringValue_eq_ok.mp hi, hok, hst.symm, rfl⟩⟩

end Requests

/-! ### An instance -/

/-- The registrations of `MediaSet`, and the handlers connected to each event. -/
structure EventMedia where
  registrations : StdMap (String × String × String) WebSocketEventHandler
  connections : List (String × String × WebSocketEventHandler)

/-- A media state with subscriptions and nothing else; every id free of the separator is
that of an object. -/
def eventMedia : Core EventMedia where
  uuid := Core.counting.uuid
  uuid_injective := Core.counting.uuid_injective
  uuid_plain := Core.counting.uuid_plain
  instanceId := "server"
  getMediaObject _ o st :=
    (if '|' ∈ o.toList then .error .unknown
      else .ok (some ⟨o, "MediaObject", "kurento.MediaObject", []⟩), st)
  keepAliveSession _ st := (.ok (), st)
  release _ st := (.ok (), st)
  ref _ _ st := (.ok (), st)
  unref _ _ st := (.ok (), st)
  removeEventHandler s o i st := (.ok (), { st with registrations := st.registrations.erase (s, o, i) })
  releaseSession _ st := (.ok (), st)
  unrefSession _ st := (.ok (), st)
  eventSubscriptionHandler _ _ _ _ := throw .badFunctionCall
  subscription_draws _ _ _ _ _ := Supply.ensures_throw _
  invoke _ _ _ st := (.ok .null, st)
  Factory := Unit
  getFactory _ st := (.ok (), st)
  checkResources st := (.ok (), st)
  createObject _ _ _ st := (.ok "", st)

/-- Its events: objects have those of the given types. -/
def EventCore.ofTypes (types : List String) : EventCore eventMedia where
  connect obj t h st := if t ∈ types then
    (true, { st with connections := st.connections ++ [(obj.id, t, h)] }) else (false, st)
  addEventHandler s o i h st := { st with registrations := st.registrations.insert (s, o, i) h }
  alive st h := decide (∃ k ∈ st.registrations.keys, st.registrations.lookup k = some h)
  registered st s o i := st.registrations.lookup (s, o, i)
  connected st o t := (st.connections.filter fun c => c.1 = o ∧ c.2.1 = t).map (·.2.2)
  alive_iff st h := by
    rw [decide_eq_true_iff]
    constructor
    · rintro ⟨⟨s, o, i⟩, -, hk⟩
      exact ⟨s, o, i, hk⟩
    · rintro ⟨s, o, i, hk⟩
      exact ⟨(s, o, i), Finmap.mem_keys.mpr (Finmap.mem_of_lookup_eq_some hk), hk⟩
  connect_registered obj t h st s o i := by split_ifs <;> rfl
  connect_true obj t h st hc o' t' := by
    split_ifs at hc ⊢ with ht heq
    · obtain ⟨rfl, rfl⟩ := heq
      simp [List.filter_append]
    · have hne : ¬ (obj.id = o' ∧ t = t') := fun h => heq ⟨h.1.symm, h.2.symm⟩
      simp [List.filter_append, hne]
  connect_false obj t h st hc o' t' := by
    split_ifs at hc ⊢
    rfl
  add_registered s o i h st s' o' i' := by simp [StdMap.lookup_insert]
  add_connected _ _ _ _ _ _ _ := rfl
  remove_registered s o i st s' o' i' _ := by simp [eventMedia, StdMap.lookup_erase]
  remove_thrown s o i st s' o' i' h := absurd rfl h
  remove_connected _ _ _ _ _ _ := rfl
  get_id s o st obj h := by
    simp only [eventMedia] at h
    split_ifs at h
    cases h
    rfl
  get_registered _ _ _ _ _ _ := rfl
  get_connected _ _ _ _ _ := rfl

def noSubscriptions : Subscriptions EventMedia := ⟨⟨∅, []⟩, ∅, []⟩

def subscribeParams (s o t : String) : Json :=
  .obj [("object", .str o), ("sessionId", .str s), ("type", .str t)]

end KurentoMediaServer.Events
