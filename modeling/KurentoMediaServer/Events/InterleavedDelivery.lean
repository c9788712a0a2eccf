import KurentoMediaServer.Events.Interleaving

/-! Delivery of events while calls of `processSubscription` are under way. Wherever the
other threads step in between the statements of a call, an event is sent once to each
session that has a registered subscription to it, or whose call has connected or found its
handler, and to no other. -/

namespace KurentoMediaServer.Events

open Foundations Methods

variable {σ : Type} {core : Core σ} (events : EventCore core)

/-- The subscription has been registered and not been given up since. -/
def StandingNow (es : List BusyEvent) (s o type i : String) : Prop :=
  Since (· = .register s o type i) (· = .unsubscribe s o i) es

/-- The session has a subscription to the events that is still registered. -/
def RegisteredNow (es : List BusyEvent) (t : Busy σ) (s o type : String) : Prop :=
  ∃ i, StandingNow es s o type i ∧ (events.registered t.media s o i).isSome = true

/-- The call under way subscribes the session to the events, and its handler is connected. -/
def InHand (t : Busy σ) (s o type : String) : Prop :=
  ∃ c, t.call = some c ∧ c.stage ≠ .creating ∧ c.sessionId = s ∧ c.object.id = o ∧ c.eventType = type

/-- A call is for an object and an event type free of the separator. -/
def PlainCall : BusyEvent → Prop
  | .enter _ o type => PlainKey o type
  | _ => True

/-! ### The invariant -/

/-- The call has a handler made for its session, object and event type. -/
structure CallSound (t : Busy σ) (c : SubscriptionCall) : Prop where
  session : c.handler.sessionId = c.sessionId
  object : c.handler.object = c.object.id
  made : (c.handler, c.eventType) ∈ t.made
  plain : PlainKey c.object.id c.eventType
  /-- While it is being made, no handler under its key is alive. -/
  vacant : c.stage ≠ .reusing → ∀ h,
    t.handlers.lookup (eventId c.sessionId c.object.id c.eventType) = some h → ¬ t.Alive events h
  /-- Before it is connected nobody knows it. -/
  unknown : c.stage = .creating → (∀ o type, c.handler ∉ events.connected t.media o type) ∧
    ∀ s o i, events.registered t.media s o i ≠ some c.handler
  found : c.stage = .reusing →
    t.handlers.lookup (eventId c.sessionId c.object.id c.eventType) = some c.handler

/-- The handler is connected once to the events it was made for, and to no others. -/
def Joined (t : Busy σ) (h : WebSocketEventHandler) (type : String) : Prop :=
  ∀ o' type', (events.connected t.media o' type').count h =
    if o' = h.object ∧ type' = type then 1 else 0

structure Orderly (es : List BusyEvent) (t : Busy σ) : Prop where
  number : ∀ (i : ℕ) h type, t.made[i]? = some (h, type) → h.number = i
  key : ∀ k h, t.handlers.lookup k = some h → ∃ type, (h, type) ∈ t.made ∧
    k = eventId h.sessionId h.object type ∧ PlainKey h.object type
  known : ∀ o type h, h ∈ events.connected t.media o type → ∃ type', (h, type') ∈ t.made
  serves : ∀ s o i h, events.registered t.media s o i = some h →
    h.sessionId = s ∧ h.object = o ∧ ∃ type, (h, type) ∈ t.made ∧ StandingNow es s o type i
  typed : ∀ s o type i h, StandingNow es s o type i → events.registered t.media s o i = some h →
    (h, type) ∈ t.made
  used : ∀ s o type i, StandingNow es s o type i → ∃ k, k < t.drawn ∧ i = core.uuid k
  call : ∀ c, t.call = some c → CallSound events t c
  /-- A handler that is alive stands under its key, or is the one being made. -/
  current : ∀ h, t.Alive events h → ∃ type, (h, type) ∈ t.made ∧
    (t.handlers.lookup (eventId h.sessionId h.object type) = some h ∨
      ∃ c, t.call = some c ∧ c.stage ≠ .reusing ∧ c.handler = h)
  joined : ∀ h type, t.Alive events h → (h, type) ∈ t.made →
    (∀ c, t.call = some c → c.stage = .creating → c.handler ≠ h) → Joined events t h type

section Orderly
variable {events} {es es' : List BusyEvent} {t t' : Busy σ} {s o type i : String}
  {h : WebSocketEventHandler} {c : SubscriptionCall}

theorem Orderly.made_unique (ht : Orderly events es t) {type' : String} (h1 : (h, type) ∈ t.made)
    (h2 : (h, type') ∈ t.made) : type = type' := by
  obtain ⟨i, hi⟩ := List.mem_iff_getElem?.mp h1
  obtain ⟨j, hj⟩ := List.mem_iff_getElem?.mp h2
  obtain rfl : i = j := (ht.number i h type hi).symm.trans (ht.number j h type' hj)
  rw [hi] at hj
  cases hj
  rfl

theorem Orderly.number_lt (ht : Orderly events es t) (h1 : (h, type) ∈ t.made) :
    h.number < t.made.length := by
  obtain ⟨i, hi⟩ := List.mem_iff_getElem?.mp h1
  rw [ht.number i h type hi]
  exact (List.getElem?_eq_some_iff.mp hi).1

theorem alive_of_registered (hr : events.registered t.media s o i = some h) : t.Alive events h :=
  Or.inl ((events.alive_iff _ _).mpr ⟨s, o, i, hr⟩)

theorem alive_of_call (hc : t.call = some c) : t.Alive events c.handler :=
  Or.inr (by rw [Busy.held, hc]; rfl)

/-- Two handlers that are alive and made for the same session, object and event type are
one. -/
theorem Orderly.alive_unique (ht : Orderly events es t) {d : WebSocketEventHandler}
    (hd : t.Alive events d) (hh : t.Alive events h) (hdm : (d, type) ∈ t.made)
    (hhm : (h, type) ∈ t.made) (hs : d.sessionId = h.sessionId) (ho : d.object = h.object) :
    d = h := by
  -- no handler under the key of the one being made is alive
  have hnew {d h : WebSocketEventHandler} (hd : t.Alive events d)
      (hk : t.handlers.lookup (eventId d.sessionId d.object type) = some d) (hhm : (h, type) ∈ t.made)
      (hs : d.sessionId = h.sessionId) (ho : d.object = h.object)
      (hc : ∃ c, t.call = some c ∧ c.stage ≠ .reusing ∧ c.handler = h) : d = h := by
    obtain ⟨c, hc, hstage, rfl⟩ := hc
    have hsound := ht.call c hc
    obtain rfl := ht.made_unique hhm hsound.made
    rw [hs, ho, hsound.session, hsound.object] at hk
    exact absurd hd (hsound.vacant hstage d hk)
  obtain ⟨type₁, hm₁, hd'⟩ := ht.current d hd
  obtain ⟨type₂, hm₂, hh'⟩ := ht.current h hh
  obtain rfl := ht.made_unique hdm hm₁
  obtain rfl := ht.made_unique hhm hm₂
  rcases hd' with hdk | hdc
  · rcases hh' with hhk | hhc
    · rw [hs, ho, hhk] at hdk
      exact (Option.some.inj hdk).symm
    · exact hnew hd hdk hhm hs ho hhc
  · rcases hh' with hhk | hhc
    · exact (hnew hh hhk hdm hs.symm ho.symm hdc).symm
    · obtain ⟨c, hc, -, rfl⟩ := hdc
      obtain ⟨c', hc', -, rfl⟩ := hhc
      rw [hc] at hc'
      rw [Option.some.inj hc']

/-- A handler that is called is one that is connected and alive, so its session has a
subscription to the event or its call is under way. -/
theorem Orderly.called (ht : Orderly events es t) (hc : h ∈ events.connected t.media o type)
    (ha : t.Alive events h) : (h, type) ∈ t.made ∧ h.object = o ∧
      (RegisteredNow events es t h.sessionId o type ∨ InHand t h.sessionId o type) := by
  obtain ⟨type', hm, -⟩ := ht.current h ha
  have hcreating : ∀ c, t.call = some c → c.stage = .creating → c.handler ≠ h := by
    rintro c hcall hstage rfl
    exact ((ht.call c hcall).unknown hstage).1 o type hc
  have hcount := ht.joined h type' ha hm hcreating o type
  have hpos : 0 < (events.connected t.media o type).count h := List.count_pos_iff.mpr hc
  split_ifs at hcount with heq
  · obtain ⟨rfl, rfl⟩ := heq
    refine ⟨hm, rfl, ?_⟩
    rcases ha with ha | ha
    · obtain ⟨s', o', i, hr⟩ := (events.alive_iff _ _).mp ha
      obtain ⟨hs, ho, type'', hm', hstanding⟩ := ht.serves s' o' i h hr
      obtain rfl := ht.made_unique hm hm'
      subst hs ho
      exact Or.inl ⟨i, hstanding, by rw [hr]; rfl⟩
    · obtain ⟨c, hcall, rfl⟩ := Option.map_eq_some_iff.mp ha
      have hsound := ht.call c hcall
      refine Or.inr ⟨c, hcall, fun hstage => hcreating c hcall hstage rfl, hsound.session.symm,
        hsound.object.symm, ht.made_unique hsound.made hm⟩
  · omega

/-- The handler that serves a registered subscription, or a call with a connected handler. -/
theorem Orderly.exists_handler (ht : Orderly events es t)
    (h : RegisteredNow events es t s o type ∨ InHand t s o type) :
    ∃ c : WebSocketEventHandler, t.Alive events c ∧ (c, type) ∈ t.made ∧ c.sessionId = s ∧
      c.object = o ∧ Joined events t c type := by
  rcases h with ⟨i, hstanding, hr⟩ | ⟨c, hcall, hstage, rfl, rfl, rfl⟩
  · obtain ⟨c, hc⟩ := Option.isSome_iff_exists.mp hr
    obtain ⟨hs, ho, -⟩ := ht.serves s o i c hc
    have hm := ht.typed s o type i c hstanding hc
    have ha : t.Alive events c := alive_of_registered hc
    refine ⟨c, ha, hm, hs, ho, ht.joined c type ha hm ?_⟩
    rintro d hd hstage rfl
    exact ((ht.call d hd).unknown hstage).2 s o i hc
  · have hsound := ht.call c hcall
    have ha : t.Alive events c.handler := alive_of_call hcall
    refine ⟨c.handler, ha, hsound.made, hsound.session, hsound.object,
      ht.joined _ _ ha hsound.made fun d hd hs => ?_⟩
    rw [hcall] at hd
    obtain rfl := Option.some.inj hd
    exact absurd hs hstage

theorem Busy.count_sent (t : Busy σ) (s o type : String) :
    (t.sent events o type).count s = (events.connected t.media o type).countP
      fun c => c.sessionId = s ∧ t.Alive events c := by
  rw [Busy.sent, List.count_eq_countP, List.countP_map, List.countP_filter]
  exact List.countP_congr fun c _ => by simp

theorem Orderly.sent (ht : Orderly events es t) (s o type : String) :
    (RegisteredNow events es t s o type ∨ InHand t s o type → (t.sent events o type).count s = 1) ∧
      (¬ (RegisteredNow events es t s o type ∨ InHand t s o type) →
        (t.sent events o type).count s = 0) := by
  rw [Busy.count_sent]
  constructor
  · intro h
    obtain ⟨c, ha, hm, rfl, rfl, hj⟩ := ht.exists_handler h
    have hone : ∀ d ∈ events.connected t.media c.object type,
        (decide (d.sessionId = c.sessionId ∧ t.Alive events d) = true ↔ (d == c) = true) :=
      fun d hd => by
        rw [decide_eq_true_iff, beq_iff_eq]
        constructor
        · rintro ⟨hs, hda⟩
          obtain ⟨hdm, hdo, -⟩ := ht.called hd hda
          exact ht.alive_unique hda ha hdm hm hs hdo
        · rintro rfl
          exact ⟨rfl, ha⟩
    rw [List.countP_congr hone, ← List.count_eq_countP, hj, if_pos ⟨rfl, rfl⟩]
  · intro hno
    refine List.countP_eq_zero.mpr fun d hd hd' => hno ?_
    obtain ⟨rfl, hda⟩ := decide_eq_true_iff.mp hd'
    exact (ht.called hd hda).2.2

/-! ### Steps -/

theorem standingNow_snoc_of_not {e : BusyEvent} (hr : ∀ s o type i, e ≠ .register s o type i)
    (hu : ∀ s o i, e ≠ .unsubscribe s o i) (s o type i : String) :
    StandingNow (es ++ [e]) s o type i ↔ StandingNow es s o type i := by
  simp [StandingNow, since_snoc, hr, hu]

theorem Orderly.of_standing (ht : Orderly events es t)
    (hh : ∀ s o type i, StandingNow es' s o type i ↔ StandingNow es s o type i) :
    Orderly events es' t :=
  { ht with
    serves := fun s o i h hr => by
      obtain ⟨hs, ho, type, hm, hstanding⟩ := ht.serves s o i h hr
      exact ⟨hs, ho, type, hm, (hh s o type i).mpr hstanding⟩
    typed := fun s o type i h hs => ht.typed s o type i h ((hh s o type i).mp hs)
    used := fun s o type i hs => ht.used s o type i ((hh s o type i).mp hs) }

/-- Registrations are given up. What is still alive is connected as it was. -/
theorem Orderly.shrink (ht : Orderly events es t) {media : σ} {drawn : ℕ} (hdrawn : t.drawn ≤ drawn)
    (hreg : ∀ s o i h, events.registered media s o i = some h →
      events.registered t.media s o i = some h)
    (hconn : ∀ o type h, h ∈ events.connected media o type → h ∈ events.connected t.media o type)
    (hcount : ∀ o type h, events.alive media h = true ∨ t.held = some h →
      (events.connected media o type).count h = (events.connected t.media o type).count h)
    (hless : ∀ s o type i, StandingNow es' s o type i → StandingNow es s o type i)
    (hstill : ∀ s o type i h, events.registered media s o i = some h →
      StandingNow es s o type i → StandingNow es' s o type i) :
    Orderly events es' { t with media, drawn } := by
  have halive {h : WebSocketEventHandler} (ha : { t with media, drawn : Busy σ }.Alive events h) :
      t.Alive events h := by
    refine ha.imp_left fun ha => ?_
    obtain ⟨s, o, i, hr⟩ := (events.alive_iff _ _).mp ha
    exact (events.alive_iff _ _).mpr ⟨s, o, i, hreg s o i h hr⟩
  exact
    { number := ht.number
      key := ht.key
      known := fun o type h hc => ht.known o type h (hconn o type h hc)
      serves := fun s o i h hr => by
        obtain ⟨hs, ho, type, hm, hstanding⟩ := ht.serves s o i h (hreg s o i h hr)
        exact ⟨hs, ho, type, hm, hstill s o type i h hr hstanding⟩
      typed := fun s o type i h hs hr =>
        ht.typed s o type i h (hless s o type i hs) (hreg s o i h hr)
      used := fun s o type i hs => by
        obtain ⟨k, hk, hi⟩ := ht.used s o type i (hless s o type i hs)
        exact ⟨k, hk.trans_le hdrawn, hi⟩
      call := fun c hc =>
        have hsound := ht.call c hc
        { hsound with
          vacant := fun hstage h hk ha => hsound.vacant hstage h hk (halive ha)
          unknown := fun hstage =>
            ⟨fun o type hm => (hsound.unknown hstage).1 o type (hconn o type _ hm),
              fun s o i hr => (hsound.unknown hstage).2 s o i (hreg s o i _ hr)⟩ }
      current := fun h ha => ht.current h (halive ha)
      joined := fun h type ha hm hc o' type' => by
        rw [hcount o' type' h ha]
        exact ht.joined h type (halive ha) hm hc o' type' }

theorem Orderly.enter_reuse (ht : Orderly events es t) {object : MediaObject} (hcall : t.call = none)
    (hp : PlainKey object.id type) (hlock : t.lock events (eventId s object.id type) = some h) :
    Orderly events es { t with call := some ⟨.reusing, object, s, type, h⟩ } := by
  obtain ⟨hk, hah⟩ := Option.filter_eq_some_iff.mp hlock
  obtain ⟨type', hm, hkey, ho', ht'⟩ := ht.key _ _ hk
  obtain ⟨rfl, hoo, rfl⟩ := eventId_inj hp.1 ho' hp.2 ht' hkey
  have hnone {c : SubscriptionCall} (hc : t.call = some c) : False := by
    rw [hcall] at hc
    cases hc
  have halive {x : WebSocketEventHandler}
      (ha : { t with call := some ⟨.reusing, object, h.sessionId, type, h⟩ : Busy σ }.Alive events x) :
      t.Alive events x := by
    rcases ha with ha | ha
    · exact Or.inl ha
    · cases ha
      exact Or.inl hah
  exact
    { ht with
      call := fun c hc => by
        cases hc
        exact ⟨rfl, hoo.symm, hm, hp, fun hs => absurd rfl hs, nofun, fun _ => hk⟩
      current := fun x ha => by
        obtain ⟨type', hm, hx⟩ := ht.current x (halive ha)
        exact ⟨type', hm, Or.inl (hx.resolve_right fun ⟨c, hc, _⟩ => hnone hc)⟩
      joined := fun x type ha hm _ =>
        ht.joined x type (halive ha) hm fun c hc => (hnone hc).elim }

theorem Orderly.enter_create (ht : Orderly events es t) {object : MediaObject} (hcall : t.call = none)
    (hp : PlainKey object.id type) (hlock : t.lock events (eventId s object.id type) = none) :
    Orderly events es { t with
      made := t.made ++ [(t.newHandler object s, type)]
      call := some ⟨.creating, object, s, type, t.newHandler object s⟩ } := by
  have hnone {c : SubscriptionCall} (hc : t.call = some c) : False := by
    rw [hcall] at hc
    cases hc
  have hmem {x : WebSocketEventHandler × String} (hx : x ∈ t.made) :
      x ∈ t.made ++ [(t.newHandler object s, type)] := List.mem_append_left _ hx
  have hnew (type' : String) : (t.newHandler object s, type') ∉ t.made :=
    fun hm => lt_irrefl _ (ht.number_lt hm)
  have hunregistered (s' o i : String) :
      events.registered t.media s' o i ≠ some (t.newHandler object s) := fun hr => by
    obtain ⟨-, -, type', hm, -⟩ := ht.serves s' o i _ hr
    exact hnew type' hm
  have hold {x : WebSocketEventHandler} (hx : x ≠ t.newHandler object s)
      (ha : { t with call := some ⟨.creating, object, s, type, t.newHandler object s⟩ : Busy σ }.Alive
        events x) : t.Alive events x :=
    Or.inl (ha.resolve_right fun ha => hx (Option.some.inj ha).symm)
  exact
    { number := fun j x type' hj => by
        by_cases hlt : j < t.made.length
        · exact ht.number j x type' (by rwa [List.getElem?_append_left hlt] at hj)
        · have hle := (List.getElem?_eq_some_iff.mp hj).1
          rw [List.length_append, List.length_singleton] at hle
          obtain rfl : j = t.made.length := by omega
          rw [List.getElem?_concat_length] at hj
          cases hj
          rfl
      key := fun k x hk => by
        obtain ⟨type', hm, hrest⟩ := ht.key k x hk
        exact ⟨type', hmem hm, hrest⟩
      known := fun o type' x hc => by
        obtain ⟨type'', hm⟩ := ht.known o type' x hc
        exact ⟨type'', hmem hm⟩
      serves := fun s' o i x hr => by
        obtain ⟨hs, ho, type', hm, hstanding⟩ := ht.serves s' o i x hr
        exact ⟨hs, ho, type', hmem hm, hstanding⟩
      typed := fun s' o type' i x hs hr => hmem (ht.typed s' o type' i x hs hr)
      used := ht.used
      call := fun c hc => by
        cases hc
        refine ⟨rfl, rfl, by simp, hp, fun _ x hk ha => ?_, fun _ => ⟨fun o type' hc => ?_,
          hunregistered⟩, nofun⟩
        · obtain ⟨type', hm, -⟩ := ht.key _ _ hk
          have hx : x ≠ t.newHandler object s := by
            rintro rfl
            exact hnew type' hm
          have hxa : events.alive t.media x = true := (hold hx ha).resolve_right fun hheld => by
            obtain ⟨c, hc, -⟩ := Option.map_eq_some_iff.mp hheld
            exact hnone hc
          have hlock' : t.lock events (eventId s object.id type) = some x :=
            Option.filter_eq_some_iff.mpr ⟨hk, hxa⟩
          rw [hlock] at hlock'
          cases hlock'
        · obtain ⟨type'', hm⟩ := ht.known o type' _ hc
          exact hnew type'' hm
      current := fun x ha => by
        by_cases hx : x = t.newHandler object s
        · exact ⟨type, by simp [hx], Or.inr ⟨_, rfl, nofun, hx.symm⟩⟩
        · obtain ⟨type', hm, hk⟩ := ht.current x (hold hx ha)
          exact ⟨type', hmem hm, Or.inl (hk.resolve_right fun ⟨c, hc, _⟩ => hnone hc)⟩
      joined := fun x type' ha hm hc => by
        have hx : x ≠ t.newHandler object s := (hc _ rfl rfl).symm
        have hm' : (x, type') ∈ t.made := (List.mem_append.mp hm).resolve_right fun hm =>
          hx (congrArg Prod.fst (List.mem_singleton.mp hm))
        exact ht.joined x type' (hold hx ha) hm' fun c hc => (hnone hc).elim }

theorem alive_connect (obj : MediaObject) (type : String) (d h : WebSocketEventHandler) (m : σ) :
    events.alive (events.connect obj type d m).2 h = true ↔ events.alive m h = true := by
  simp only [events.alive_iff, events.connect_registered]

theorem Orderly.connect (ht : Orderly events es t) (hcall : t.call = some c)
    (hstage : c.stage = .creating)
    (hconn : (events.connect c.object c.eventType c.handler t.media).1 = true) :
    Orderly events es { t with
      media := (events.connect c.object c.eventType c.handler t.media).2
      call := some { c with stage := .connected } } := by
  have hsound := ht.call c hcall
  have hunknown := hsound.unknown hstage
  have hcreating : c.stage ≠ .reusing := by simp [hstage]
  have hconnected := events.connect_true c.object c.eventType c.handler t.media hconn
  have halive {x : WebSocketEventHandler} (ha : { t with
      media := (events.connect c.object c.eventType c.handler t.media).2
      call := some { c with stage := .connected } : Busy σ }.Alive events x) : t.Alive events x := by
    refine ha.imp (alive_connect ..).mp fun ha => ?_
    rw [Busy.held, hcall]
    exact ha
  exact
    { number := ht.number
      key := ht.key
      known := fun o type x hx => by
        rw [hconnected] at hx
        split_ifs at hx
        · rcases List.mem_append.mp hx with hx | hx
          · exact ht.known o type x hx
          · rw [List.mem_singleton.mp hx]
            exact ⟨_, hsound.made⟩
        · exact ht.known o type x hx
      serves := fun s o i x hr => ht.serves s o i x (by rwa [events.connect_registered] at hr)
      typed := fun s o type i x hs hr =>
        ht.typed s o type i x hs (by rwa [events.connect_registered] at hr)
      used := ht.used
      call := fun d hd => by
        cases hd
        exact ⟨hsound.session, hsound.object, hsound.made, hsound.plain,
          fun _ x hk ha => hsound.vacant hcreating x hk (halive ha), nofun, nofun⟩
      current := fun x ha => by
        obtain ⟨type, hm, hx⟩ := ht.current x (halive ha)
        refine ⟨type, hm, hx.imp_right ?_⟩
        rintro ⟨d, hd, -, rfl⟩
        rw [hcall] at hd
        cases hd
        exact ⟨_, rfl, nofun, rfl⟩
      joined := fun x type ha hm _ o' type' => by
        rw [hconnected]
        by_cases hx : x = c.handler
        · -- nobody knew it before
          subst hx
          obtain rfl := ht.made_unique hm hsound.made
          have hzero := List.count_eq_zero.mpr (hunknown.1 o' type')
          rw [hsound.object]
          split_ifs <;> simp [hzero]
        · have hother : ∀ d, t.call = some d → d.stage = .creating → d.handler ≠ x := by
            rintro d hd - rfl
            rw [hcall] at hd
            cases hd
            exact hx rfl
          have hone : List.count x [c.handler] = 0 :=
            List.count_eq_zero.mpr fun hmem => hx (List.mem_singleton.mp hmem)
          rw [← ht.joined x type (halive ha) hm hother o' type']
          split_ifs
          · rw [List.count_append, hone, Nat.add_zero]
          · rfl }

/-- The handler of the call is not connected, and goes. -/
theorem Orderly.refuse (ht : Orderly events es t) (hcall : t.call = some c)
    (hstage : c.stage = .creating)
    (hconn : (events.connect c.object c.eventType c.handler t.media).1 = false) :
    Orderly events es { t with
      media := (events.connect c.object c.eventType c.handler t.media).2, call := none } := by
  have hunknown := (ht.call c hcall).unknown hstage
  have hconnected := events.connect_false c.object c.eventType c.handler t.media hconn
  have halive {x : WebSocketEventHandler} (ha : { t with
      media := (events.connect c.object c.eventType c.handler t.media).2
      call := none : Busy σ }.Alive events x) : t.Alive events x ∧ c.handler ≠ x := by
    have ha := (alive_connect ..).mp (ha.resolve_right nofun)
    refine ⟨Or.inl ha, ?_⟩
    rintro rfl
    obtain ⟨s, o, i, hr⟩ := (events.alive_iff _ _).mp ha
    exact hunknown.2 s o i hr
  have hother {x : WebSocketEventHandler} (hx : c.handler ≠ x) (d : SubscriptionCall)
      (hd : t.call = some d) : d.handler ≠ x := by
    rw [hcall] at hd
    cases hd
    exact hx
  exact
    { number := ht.number
      key := ht.key
      known := fun o type x hx => ht.known o type x (by rwa [hconnected] at hx)
      serves := fun s o i x hr => ht.serves s o i x (by rwa [events.connect_registered] at hr)
      typed := fun s o type i x hs hr =>
        ht.typed s o type i x hs (by rwa [events.connect_registered] at hr)
      used := ht.used
      call := nofun
      current := fun x ha => by
        obtain ⟨hxa, hx⟩ := halive ha
        obtain ⟨type, hm, hk⟩ := ht.current x hxa
        exact ⟨type, hm, Or.inl (hk.resolve_right fun ⟨d, hd, _, hdx⟩ => hother hx d hd hdx)⟩
      joined := fun x type ha hm _ o' type' => by
        obtain ⟨hxa, hx⟩ := halive ha
        rw [hconnected]
        exact ht.joined x type hxa hm (fun d hd _ => hother hx d hd) o' type' }

/-- The subscription of the call is registered. A new handler has still to be filed, one
that was found is under its key. -/
theorem Orderly.register (ht : Orderly events es t) (hcall : t.call = some c)
    {call' : Option SubscriptionCall}
    (hstage : (c.stage = .connected ∧ call' = some { c with stage := .filing }) ∨
      (c.stage = .reusing ∧ call' = none)) :
    Orderly events (es ++ [.register c.sessionId c.object.id c.eventType (core.uuid t.drawn)])
      { t with
        media := events.addEventHandler c.sessionId c.object.id (core.uuid t.drawn) c.handler t.media
        drawn := t.drawn + 1
        call := call' } := by
  have hsound := ht.call c hcall
  have hreg := events.add_registered c.sessionId c.object.id (core.uuid t.drawn) c.handler t.media
  have hstanding (s o type i : String) : StandingNow
      (es ++ [.register c.sessionId c.object.id c.eventType (core.uuid t.drawn)]) s o type i ↔
      StandingNow es s o type i ∨
        s = c.sessionId ∧ o = c.object.id ∧ type = c.eventType ∧ i = core.uuid t.drawn := by
    simp only [StandingNow, since_snoc, BusyEvent.register.injEq, reduceCtorEq, not_false_eq_true,
      and_true]
    grind
  have halive {x : WebSocketEventHandler} (ha : { t with
      media := events.addEventHandler c.sessionId c.object.id (core.uuid t.drawn) c.handler t.media
      drawn := t.drawn + 1
      call := call' : Busy σ }.Alive events x) : t.Alive events x := by
    rcases ha with ha | ha
    · obtain ⟨s, o, i, hr⟩ := (events.alive_iff _ _).mp ha
      rw [hreg] at hr
      split_ifs at hr
      · cases hr
        exact alive_of_call hcall
      · exact alive_of_registered hr
    · rcases hstage with ⟨-, rfl⟩ | ⟨-, rfl⟩
      · cases ha
        exact (alive_of_call hcall : t.Alive events c.handler)
      · cases ha
  have hconnected : c.stage ≠ .creating := by rcases hstage with ⟨h, -⟩ | ⟨h, -⟩ <;> simp [h]
  exact
    { number := ht.number
      key := ht.key
      known := fun o type x hx => ht.known o type x (by rwa [events.add_connected] at hx)
      serves := fun s o i x hr => by
        rw [hreg] at hr
        split_ifs at hr with heq
        · obtain ⟨rfl, rfl, rfl⟩ := heq
          cases hr
          exact ⟨hsound.session, hsound.object, _, hsound.made,
            (hstanding _ _ _ _).mpr (Or.inr ⟨rfl, rfl, rfl, rfl⟩)⟩
        · obtain ⟨hs, ho, type, hm, hx⟩ := ht.serves s o i x hr
          exact ⟨hs, ho, type, hm, (hstanding _ _ _ _).mpr (Or.inl hx)⟩
      typed := fun s o type i x hs hr => by
        rw [hreg] at hr
        rcases (hstanding _ _ _ _).mp hs with hs | ⟨rfl, rfl, rfl, rfl⟩
        · split_ifs at hr with heq
          · -- the UUID is new
            obtain ⟨k, hk, hi⟩ := ht.used s o type i hs
            rw [heq.2.2] at hi
            exact absurd (core.uuid_injective hi) (by omega)
          · exact ht.typed s o type i x hs hr
        · rw [if_pos ⟨rfl, rfl, rfl⟩] at hr
          cases hr
          exact hsound.made
      used := fun s o type i hs => by
        rcases (hstanding _ _ _ _).mp hs with hs | ⟨-, -, -, rfl⟩
        · obtain ⟨k, hk, hi⟩ := ht.used s o type i hs
          exact ⟨k, Nat.lt_succ_of_lt hk, hi⟩
        · exact ⟨t.drawn, Nat.lt_succ_self _, rfl⟩
      call := fun d hd => by
        rcases hstage with ⟨hc, rfl⟩ | ⟨-, rfl⟩
        · cases hd
          exact ⟨hsound.session, hsound.object, hsound.made, hsound.plain,
            fun _ x hk ha => hsound.vacant (by simp [hc]) x hk (halive ha), nofun, nofun⟩
        · cases hd
      current := fun x ha => by
        obtain ⟨type, hm, hx⟩ := ht.current x (halive ha)
        refine ⟨type, hm, hx.imp_right ?_⟩
        rintro ⟨d, hd, hne, rfl⟩
        rw [hcall] at hd
        cases hd
        rcases hstage with ⟨-, rfl⟩ | ⟨hc, -⟩
        · exact ⟨_, rfl, nofun, rfl⟩
        · exact absurd hc hne
      joined := fun x type ha hm _ o' type' => by
        rw [events.add_connected]
        refine ht.joined x type (halive ha) hm (fun d hd hs => ?_) o' type'
        rw [hcall] at hd
        cases hd
        exact absurd hs hconnected }

theorem Orderly.file (ht : Orderly events es t) (hcall : t.call = some c)
    (hstage : c.stage = .filing) :
    Orderly events es { t with
      handlers := t.handlers.insert (eventId c.sessionId c.object.id c.eventType) c.handler
      call := none } := by
  have hsound := ht.call c hcall
  have hnew : c.stage ≠ .reusing := by simp [hstage]
  have hkey : eventId c.handler.sessionId c.handler.object c.eventType =
      eventId c.sessionId c.object.id c.eventType := by rw [hsound.session, hsound.object]
  have halive {x : WebSocketEventHandler} (ha : { t with
      handlers := t.handlers.insert (eventId c.sessionId c.object.id c.eventType) c.handler
      call := none : Busy σ }.Alive events x) : t.Alive events x := Or.inl (ha.resolve_right nofun)
  exact
    { ht with
      key := fun k x hk => by
        rw [StdMap.lookup_insert] at hk
        split_ifs at hk with heq
        · cases hk
          exact ⟨_, hsound.made, heq.trans hkey.symm, by rw [hsound.object]; exact hsound.plain⟩
        · exact ht.key k x hk
      call := nofun
      current := fun x ha => by
        obtain ⟨type, hm, hx⟩ := ht.current x (halive ha)
        refine ⟨type, hm, Or.inl ?_⟩
        rw [StdMap.lookup_insert]
        split_ifs with heq
        · -- what was under the key is not alive
          rcases hx with hk | ⟨d, hd, -, rfl⟩
          · rw [heq] at hk
            exact absurd (halive ha) (hsound.vacant hnew x hk)
          · rw [hcall] at hd
            cases hd
            rfl
        · refine hx.resolve_right ?_
          rintro ⟨d, hd, -, rfl⟩
          rw [hcall] at hd
          cases hd
          obtain rfl := ht.made_unique hm hsound.made
          exact heq hkey
      joined := fun x type ha hm _ => by
        refine ht.joined x type (halive ha) hm fun d hd hs => ?_
        rw [hcall] at hd
        cases hd
        rw [hstage] at hs
        cases hs }

theorem Orderly.step {e : BusyEvent} (ht : Orderly events es t) (hp : PlainCall e)
    (h : BusyStep events t e t') : Orderly events (es ++ [e]) t' := by
  cases h with
  | reuse object hcall hlock =>
    exact (ht.enter_reuse hcall hp hlock).of_standing (standingNow_snoc_of_not nofun nofun)
  | create object hcall hlock =>
    exact (ht.enter_create hcall hp hlock).of_standing (standingNow_snoc_of_not nofun nofun)
  | connect c hcall hstage hconn =>
    exact (ht.connect hcall hstage hconn).of_standing (standingNow_snoc_of_not nofun nofun)
  | refuse c hcall hstage hconn =>
    exact (ht.refuse hcall hstage hconn).of_standing (standingNow_snoc_of_not nofun nofun)
  | registerNew c hcall hstage => exact ht.register hcall (Or.inl ⟨hstage, rfl⟩)
  | registerAgain c hcall hstage => exact ht.register hcall (Or.inr ⟨hstage, rfl⟩)
  | file c hcall hstage =>
    exact (ht.file hcall hstage).of_standing (standingNow_snoc_of_not nofun nofun)
  | unsubscribe s o i hok =>
    have hreg (s' o' i' : String) := events.remove_registered s o i t.media s' o' i' hok
    have hstanding (s' o' type' i' : String) :
        StandingNow (es ++ [.unsubscribe s o i]) s' o' type' i' ↔
          StandingNow es s' o' type' i' ∧ ¬ (s' = s ∧ o' = o ∧ i' = i) := by
      simp only [StandingNow, since_snoc, BusyEvent.unsubscribe.injEq, reduceCtorEq, false_or]
      grind
    refine ht.shrink (le_refl t.drawn) (fun s' o' i' x hr => ?_) (fun o' type' x hx => ?_)
      (fun o' type' x _ => by rw [events.remove_connected])
      (fun s' o' type' i' hs => ((hstanding _ _ _ _).mp hs).1) fun s' o' type' i' x hr hs => ?_
    · rw [hreg] at hr
      split_ifs at hr
      exact hr
    · rwa [events.remove_connected] at hx
    · rw [hreg] at hr
      split_ifs at hr with hne
      exact (hstanding _ _ _ _).mpr ⟨hs, hne⟩
  | emit o type => exact ht.of_standing (standingNow_snoc_of_not nofun nofun)
  | forget hdrawn hreg hconn hcount =>
    have hstanding : ∀ s o type i, StandingNow (es ++ [.forget]) s o type i ↔
        StandingNow es s o type i := standingNow_snoc_of_not nofun nofun
    exact ht.shrink hdrawn hreg hconn hcount (fun _ _ _ _ => (hstanding _ _ _ _).mp)
      fun _ _ _ _ _ _ => (hstanding _ _ _ _).mpr

theorem Fresh.orderly {st : Subscriptions σ} (h : Fresh events st) (n : ℕ) :
    Orderly events [] ⟨st, n, none⟩ where
  number i x type hi := by simp [h.made] at hi
  key k x hk := by simp [h.handlers] at hk
  known o type x hx := by simp [h.connected] at hx
  serves s o i x hr := by simp [h.registered] at hr
  typed s o type i x hs := absurd hs (not_since_nil _ _)
  used s o type i hs := absurd hs (not_since_nil _ _)
  call := nofun
  current x ha := by
    obtain ⟨s, o, i, hr⟩ := (events.alive_iff _ _).mp (ha.resolve_right nofun)
    simp [h.registered] at hr
  joined x type ha := by
    obtain ⟨s, o, i, hr⟩ := (events.alive_iff _ _).mp (ha.resolve_right nofun)
    simp [h.registered] at hr

theorem orderly_of_run {st : Subscriptions σ} {n : ℕ} (h0 : Fresh events st)
    (hrun : Run (BusyStep events) ⟨st, n, none⟩ es t) (hp : ∀ e ∈ es, PlainCall e) :
    Orderly events es t :=
  hrun.history_invariant (motive := fun es t => (∀ e ∈ es, PlainCall e) → Orderly events es t)
    (fun es x e y ih hstep hp => (ih fun e he => hp e (by simp [he])).step (hp e (by simp)) hstep)
    (fun _ => h0.orderly n) hp

end Orderly

/-- At every moment of an interleaved run an event goes once to each session with a
registered subscription to it, or whose call is past `connect`, and to no other. -/
theorem interleaved_delivers_once {st : Subscriptions σ} {n : ℕ} (h0 : Fresh events st)
    {es : List BusyEvent} {t : Busy σ} (hrun : Run (BusyStep events) ⟨st, n, none⟩ es t)
    (hp : ∀ e ∈ es, PlainCall e) (s o type : String) :
    (RegisteredNow events es t s o type ∨ InHand t s o type → (t.sent events o type).count s = 1) ∧
      (¬ (RegisteredNow events es t s o type ∨ InHand t s o type) →
        (t.sent events o type).count s = 0) :=
  (orderly_of_run h0 hrun hp).sent s o type

def ErrorBusyStep : Busy EventMedia → BusyEvent → Busy EventMedia → Prop :=
  BusyStep (EventCore.ofTypes ["Error"])

/-- A second call finds the handler of the first subscription, which is then given up. -/
def overtaken : List BusyEvent :=
  [.enter "s" "o" "Error", .connect, .register "s" "o" "Error" (eventMedia.uuid 0), .file,
    .enter "s" "o" "Error", .unsubscribe "s" "o" (eventMedia.uuid 0)]

theorem plain_overtaken : ∀ e ∈ overtaken, PlainCall e := by
  simp [overtaken, PlainCall, PlainKey]

/-- The event still goes to its session, as the call holds the handler. -/
theorem interleaved_delivers_once_overtaken :
    ∃ t, Run ErrorBusyStep ⟨noSubscriptions, 0, none⟩ overtaken t ∧
      (t.sent (EventCore.ofTypes ["Error"]) "o" "Error").count "s" = 1 := by
  let object : MediaObject := ⟨"o", "MediaObject", "kurento.MediaObject", []⟩
  let c : SubscriptionCall := ⟨.creating, object, "s", "Error", ⟨0, "o", "s"⟩⟩
  have h1 : ErrorBusyStep ⟨noSubscriptions, 0, none⟩ (.enter "s" "o" "Error") _ :=
    .create object rfl rfl
  have h2 := (Run.single h1).snoc (.connect c rfl rfl rfl)
  have h3 := h2.snoc (.registerNew { c with stage := .connected } rfl rfl)
  have h4 := h3.snoc (.file { c with stage := .filing } rfl rfl)
  have h5 : Run ErrorBusyStep _ (_ ++ [.enter "s" "o" "Error"]) _ :=
    h4.snoc (.reuse object rfl (show _ = some ⟨0, "o", "s"⟩ from rfl))
  have hrun := h5.snoc (.unsubscribe "s" "o" (eventMedia.uuid 0) rfl)
  exact ⟨_, hrun, (interleaved_delivers_once _ (fresh_noSubscriptions _) hrun plain_overtaken _ _ _).1
    (Or.inr ⟨_, rfl, nofun, rfl, rfl, rfl⟩)⟩

end KurentoMediaServer.Events
