import KurentoMediaServer.Events.Delivery

/-! Delivery of events in a server that also ends sessions and releases objects, so that
kms-core forgets subscriptions of its own accord. A registration that is there serves the
subscription it was made for, so an event is sent once to each session with a
subscription to it that is still registered, and to no other. -/

namespace KurentoMediaServer.Events

open Foundations Methods

variable {σ : Type} (rpc : JsonRpc) {core : Core σ} (events : EventCore core)

/-- kms-core may have dropped registrations, and with them handlers; those still alive
are connected as they were. -/
structure Forgets (m m' : σ) : Prop where
  registered : ∀ s o i h, events.registered m' s o i = some h → events.registered m s o i = some h
  connected : ∀ o t h, h ∈ events.connected m' o t → h ∈ events.connected m o t
  alive : ∀ o t h, events.alive m' h = true →
    (events.connected m' o t).count h = (events.connected m o t).count h

/-- A step in which kms-core, if it forgets, disconnects no handler that is alive. -/
def TameStep (x : Subscriptions σ × ℕ) (e : Event) (y : Subscriptions σ × ℕ) : Prop :=
  Step rpc events x e y ∧ (e = .forget → Forgets events x.1.media y.1.media)

/-- A subscription is to an object and an event type free of the separator. -/
def PlainEvent (e : Event) : Prop := ∀ s o t i, Subscribed rpc s o t i e → PlainKey o t

/-! ### The invariant -/

/-- Registered handlers serve their subscriptions. A subscription has an id generated
before, and if it is registered, a handler made for its event type. -/
structure Serving (hist : List Event) (st : Subscriptions σ) (n : ℕ) : Prop where
  known : ∀ o t h, h ∈ events.connected st.media o t → ∃ t', (h, t') ∈ st.made
  serves : ∀ s o i h, events.registered st.media s o i = some h →
    ∃ t, Serves rpc events hist st n s o i h t
  typed : ∀ s o t i h, Standing rpc hist s o t i → events.registered st.media s o i = some h →
    (h, t) ∈ st.made
  used : ∀ s o t i, Standing rpc hist s o t i → ∃ k, k < n ∧ i = core.uuid k

/-- The same, with the handlers under their keys. -/
structure Kept (hist : List Event) (st : Subscriptions σ) (n : ℕ) : Prop
    extends Filed events PlainKey st, Serving rpc events hist st n

/-- The session has a subscription to the events that is still registered. -/
def Registered (hist : List Event) (st : Subscriptions σ) (s o t : String) : Prop :=
  ∃ i, Standing rpc hist s o t i ∧ (events.registered st.media s o i).isSome = true

section Kept
variable {rpc events} {hist hist' : List Event} {st st' : Subscriptions σ} {n n' : ℕ}
  {s o t i : String} {h : WebSocketEventHandler}

/-- A longer history with the same standing subscriptions, and more UUIDs drawn. -/
theorem Serving.of_standing (hst : Serving rpc events hist st n) (hn : n ≤ n')
    (hh : ∀ s o t i, Standing rpc hist' s o t i ↔ Standing rpc hist s o t i) :
    Serving rpc events hist' st n' where
  known := hst.known
  serves s o i c hc := by
    obtain ⟨t, ht⟩ := hst.serves s o i c hc
    obtain ⟨k, hk, hi⟩ := ht.drawn
    exact ⟨t, { ht with drawn := ⟨k, by omega, hi⟩, standing := (hh s o t i).mpr ht.standing }⟩
  typed s o t i c hs hc := hst.typed s o t i c ((hh s o t i).mp hs) hc
  used s o t i hs := by
    obtain ⟨k, hk, hi⟩ := hst.used s o t i ((hh s o t i).mp hs)
    exact ⟨k, by omega, hi⟩

/-- What kms-core drops is served no more; the rest is served as before. -/
theorem Serving.forget (hst : Serving rpc events hist st n) {media : σ}
    (hf : Forgets events st.media media) : Serving rpc events hist { st with media } n where
  known o t c hc := hst.known o t c (hf.connected o t c hc)
  serves s o i c hc := by
    obtain ⟨t, ht⟩ := hst.serves s o i c (hf.registered s o i c hc)
    refine ⟨t, { ht with connected := fun o' t' => ?_ }⟩
    rw [hf.alive o' t' c ((events.alive_iff _ _).mpr ⟨s, o, i, hc⟩)]
    exact ht.connected o' t'
  typed s o t i c hs hc := hst.typed s o t i c hs (hf.registered s o i c hc)
  used := hst.used

theorem Serving.idle (hst : Serving rpc events hist st n) (h : Idle events st st') :
    Serving rpc events hist st' n := by
  obtain ⟨new, hnew, -⟩ := h.made
  have hmem {c : WebSocketEventHandler × String} (hc : c ∈ st.made) : c ∈ st'.made := by
    rw [hnew]
    exact List.mem_append_left _ hc
  refine ⟨fun o t c hc => ?_, fun s o i c hc => ?_, fun s o t i c hs hc => ?_, hst.used⟩
  · rw [h.connected] at hc
    obtain ⟨t', ht'⟩ := hst.known o t c hc
    exact ⟨t', hmem ht'⟩
  · rw [h.registered] at hc
    obtain ⟨t, ht⟩ := hst.serves s o i c hc
    exact ⟨t, hmem ht.made, ht.session, ht.object, ht.drawn, ht.standing,
      fun o' t' => by rw [h.connected]; exact ht.connected o' t'⟩
  · rw [h.registered] at hc
    exact hmem (hst.typed s o t i c hs hc)

/-- A new handler is connected to the events it was made for, and serves nothing yet. -/
theorem Serving.connect (hst : Serving rpc events hist st n) {obj : MediaObject}
    (hnew : ∀ t', (h, t') ∉ st.made) (hconn : (events.connect obj t h st.media).1 = true)
    (handlers : StdMap String WebSocketEventHandler) :
    Serving rpc events hist ⟨(events.connect obj t h st.media).2, handlers, st.made ++ [(h, t)]⟩ n ∧
      ∀ o' t', (events.connected (events.connect obj t h st.media).2 o' t').count h =
        if o' = obj.id ∧ t' = t then 1 else 0 := by
  have hmem {c : WebSocketEventHandler × String} (hc : c ∈ st.made) : c ∈ st.made ++ [(h, t)] :=
    List.mem_append_left _ hc
  have hconnected (o' t' : String) := events.connect_true obj t h st.media hconn o' t'
  refine ⟨⟨fun o' t' c hc => ?_, fun s o i c hc => ?_, fun s o t' i c hs hc => ?_, hst.used⟩,
    fun o' t' => ?_⟩
  · rw [hconnected] at hc
    split_ifs at hc
    · rcases List.mem_append.mp hc with hc | hc
      · obtain ⟨t'', ht''⟩ := hst.known o' t' c hc
        exact ⟨t'', hmem ht''⟩
      · rw [List.mem_singleton.mp hc]
        exact ⟨t, by simp⟩
    · obtain ⟨t'', ht''⟩ := hst.known o' t' c hc
      exact ⟨t'', hmem ht''⟩
  · rw [events.connect_registered] at hc
    obtain ⟨t', ht'⟩ := hst.serves s o i c hc
    refine ⟨t', hmem ht'.made, ht'.session, ht'.object, ht'.drawn, ht'.standing, fun o' t'' => ?_⟩
    have hne : List.count c [h] = 0 := List.count_eq_zero.mpr fun hch => by
      rw [List.mem_singleton.mp hch] at ht'
      exact hnew t' ht'.made
    rw [hconnected, ← ht'.connected o' t'']
    split_ifs
    · rw [List.count_append, hne, Nat.add_zero]
    · rfl
  · rw [events.connect_registered] at hc
    exact hmem (hst.typed s o t' i c hs hc)
  · have hzero : (events.connected st.media o' t').count h = 0 :=
      List.count_eq_zero.mpr fun hc => by
        obtain ⟨t'', ht''⟩ := hst.known o' t' h hc
        exact hnew t'' ht''
    rw [hconnected]
    split_ifs <;> simp [hzero]

/-- A subscription more, served by a handler connected to its events. -/
theorem Serving.register (hst : Serving rpc events hist st n) (hmade : (h, t) ∈ st.made)
    (hs : h.sessionId = s) (ho : h.object = o)
    (hcount : ∀ o' t', (events.connected st.media o' t').count h = if o' = o ∧ t' = t then 1 else 0)
    (hh : ∀ s' o' t' i', Standing rpc hist' s' o' t' i' ↔
      Standing rpc hist s' o' t' i' ∨ (s' = s ∧ o' = o ∧ t' = t ∧ i' = core.uuid n)) :
    Serving rpc events hist'
      { st with media := events.addEventHandler s o (core.uuid n) h st.media } (n + 1) := by
  have hfresh : ∀ s' o' t', ¬ Standing rpc hist s' o' t' (core.uuid n) := fun s' o' t' hs' => by
    obtain ⟨k, hk, hi⟩ := hst.used s' o' t' _ hs'
    exact absurd (core.uuid_injective hi) (by omega)
  refine ⟨fun o' t' c hc => ?_, fun s' o' i' c hc => ?_, fun s' o' t' i' c hs' hc => ?_,
    fun s' o' t' i' hs' => ?_⟩
  · rw [events.add_connected] at hc
    exact hst.known o' t' c hc
  · rw [events.add_registered] at hc
    split_ifs at hc with heq
    · obtain ⟨rfl, rfl, rfl⟩ := heq
      cases hc
      exact ⟨t, hmade, hs, ho, ⟨n, Nat.lt_succ_self n, rfl⟩,
        (hh _ _ _ _).mpr (Or.inr ⟨rfl, rfl, rfl, rfl⟩),
        fun o' t' => by rw [events.add_connected]; exact hcount o' t'⟩
    · obtain ⟨t', h'⟩ := hst.serves s' o' i' c hc
      obtain ⟨k, hk, hi⟩ := h'.drawn
      exact ⟨t', { h' with
        drawn := ⟨k, by omega, hi⟩
        standing := (hh _ _ _ _).mpr (Or.inl h'.standing)
        connected := fun o' t' => by rw [events.add_connected]; exact h'.connected o' t' }⟩
  · rw [events.add_registered] at hc
    rcases (hh _ _ _ _).mp hs' with hs' | ⟨rfl, rfl, rfl, rfl⟩
    · split_ifs at hc with heq
      · obtain ⟨rfl, rfl, rfl⟩ := heq
        exact absurd hs' (hfresh _ _ _)
      · exact hst.typed s' o' t' i' c hs' hc
    · rw [if_pos ⟨rfl, rfl, rfl⟩] at hc
      cases hc
      exact hmade
  · rcases (hh _ _ _ _).mp hs' with hs' | ⟨-, -, -, rfl⟩
    · obtain ⟨k, hk, hi⟩ := hst.used s' o' t' i' hs'
      exact ⟨k, by omega, hi⟩
    · exact ⟨n, Nat.lt_succ_self n, rfl⟩

/-- A subscription less. -/
theorem Serving.remove (hst : Serving rpc events hist st n)
    (hok : (core.removeEventHandler s o i st.media).1 = .ok ())
    (hh : ∀ s' o' t' i', Standing rpc hist' s' o' t' i' ↔
      Standing rpc hist s' o' t' i' ∧ ¬ (s' = s ∧ o' = o ∧ i' = i)) :
    Serving rpc events hist' { st with media := (core.removeEventHandler s o i st.media).2 } n := by
  have hreg (s' o' i' : String) := events.remove_registered s o i st.media s' o' i' hok
  refine ⟨fun o' t' c hc => ?_, fun s' o' i' c hc => ?_, fun s' o' t' i' c hs' hc => ?_,
    fun s' o' t' i' hs' => hst.used s' o' t' i' ((hh _ _ _ _).mp hs').1⟩
  · rw [events.remove_connected] at hc
    exact hst.known o' t' c hc
  · rw [hreg] at hc
    split_ifs at hc with hne
    obtain ⟨t', h'⟩ := hst.serves s' o' i' c hc
    exact ⟨t', { h' with
      standing := (hh _ _ _ _).mpr ⟨h'.standing, hne⟩
      connected := fun o' t' => by rw [events.remove_connected]; exact h'.connected o' t' }⟩
  · rw [hreg] at hc
    split_ifs at hc
    exact hst.typed s' o' t' i' c ((hh _ _ _ _).mp hs').1 hc

/-! ### Steps -/

theorem standing_subscribe {params : Json} (ht : rpc.text? params "type" = some t)
    (ho : rpc.text? params "object" = some o) (s' o' t' i' : String) :
    Standing rpc (hist ++ [.subscribe params
        (.ok (.object [("sessionId", .str s), ("value", .str i)]))]) s' o' t' i' ↔
      Standing rpc hist s' o' t' i' ∨ (s' = s ∧ o' = o ∧ t' = t ∧ i' = i) := by
  obtain ⟨hms, hmi⟩ := subscription_members s i
  simp only [Standing, since_snoc, Subscribed, Unsubscribed, ht, ho, hms, hmi, not_false_eq_true,
    and_true, Option.some.injEq, Json.str.injEq]
  grind

theorem standing_unsubscribe {params result : Json} (hs : rpc.text? params "sessionId" = some s)
    (ho : rpc.text? params "object" = some o) (hi : rpc.text? params "subscription" = some i)
    (s' o' t' i' : String) :
    Standing rpc (hist ++ [.unsubscribe params (.ok result)]) s' o' t' i' ↔
      Standing rpc hist s' o' t' i' ∧ ¬ (s' = s ∧ o' = o ∧ i' = i) := by
  simp only [Standing, since_snoc, Subscribed, Unsubscribed, hs, ho, hi, false_or,
    Option.some.injEq]
  grind

theorem Kept.idle (hst : Kept rpc events hist st n) (h : Idle events st st') (hn : n ≤ n')
    (hh : ∀ s o t i, Standing rpc hist' s o t i ↔ Standing rpc hist s o t i) :
    Kept rpc events hist' st' n' :=
  ⟨hst.toFiled.idle h, (hst.toServing.idle h).of_standing hn hh⟩

/-- The end of a subscribe request, in `processSubscription`. -/
theorem Kept.subscribed (hst : Kept rpc events hist st n) {obj : MediaObject} {params : Json}
    (hp : PlainKey obj.id t)
    (hproc : processSubscription rpc events obj s t params st n = (.ok i, st', n'))
    (hh : ∀ s' o' t' i', Standing rpc hist' s' o' t' i' ↔
      Standing rpc hist s' o' t' i' ∨ (s' = s ∧ o' = obj.id ∧ t' = t ∧ i' = core.uuid n)) :
    Kept rpc events hist' st' n' := by
  rw [processSubscription_eq] at hproc
  split at hproc
  · next c hlock =>
    -- the handler is alive, so it serves a subscription already, and is connected
    simp only [Prod.mk.injEq] at hproc
    obtain ⟨-, rfl, rfl⟩ := hproc
    obtain ⟨hk, halive⟩ := Option.filter_eq_some_iff.mp hlock
    obtain ⟨t', hmade, hkey, ho', ht'⟩ := hst.key _ _ hk
    obtain ⟨rfl, hoo, rfl⟩ := eventId_inj hp.1 ho' hp.2 ht' hkey
    obtain ⟨s₀, o₀, i₀, hreg⟩ := (events.alive_iff _ _).mp halive
    obtain ⟨t₀, h₀⟩ := hst.serves s₀ o₀ i₀ c hreg
    obtain rfl := hst.made_unique hmade h₀.made
    obtain rfl : o₀ = obj.id := h₀.object.symm.trans hoo.symm
    refine ⟨hst.toFiled.of_registered _ fun s' o' i' d hd => ?_,
      hst.toServing.register hmade rfl hoo.symm h₀.connected hh⟩
    rw [events.add_registered] at hd
    split_ifs at hd
    · cases hd
      exact Or.inr ⟨_, hk⟩
    · exact Or.inl hd
  · next hlock =>
    dsimp only at hproc
    split_ifs at hproc with hconn
    · simp only [Prod.mk.injEq] at hproc
      obtain ⟨-, rfl, rfl⟩ := hproc
      have hnew (t' : String) : ((⟨st.made.length, obj.id, s⟩ : WebSocketEventHandler), t') ∉
          st.made := fun hm => lt_irrefl _ (hst.number_lt hm)
      obtain ⟨hserving, hcount⟩ := hst.toServing.connect hnew hconn
        (st.handlers.insert (eventId s obj.id t) ⟨st.made.length, obj.id, s⟩)
      exact ⟨hst.toFiled.create hp hlock rfl _,
        hserving.register (by simp) rfl rfl hcount hh⟩
    · cases hproc

theorem Kept.forget (hst : Kept rpc events hist st n) {media : σ}
    (hf : Forgets events st.media media) : Kept rpc events hist { st with media } n :=
  ⟨hst.toFiled.of_registered _ fun s o i c hc => Or.inl (hf.registered s o i c hc),
    hst.toServing.forget hf⟩

/-- Every step of a run of plain subscriptions keeps the invariant. -/
theorem Kept.step {x y : Subscriptions σ × ℕ} {e : Event} (hst : Kept rpc events hist x.1 x.2)
    (hp : PlainEvent rpc e) (h : TameStep rpc events x e y) :
    Kept rpc events (hist ++ [e]) y.1 y.2 := by
  obtain ⟨h, htame⟩ := h
  cases e with
  | subscribe params result =>
    rcases subscribe_cases h with ⟨e, rfl, hidle, hn⟩ |
      ⟨s, o, t, i, obj, media, k, ht, ho, hk, hget, hproc, rfl⟩
    · exact hst.idle hidle hn (standing_snoc_of_not (by simp [Subscribed]) (by simp [Unsubscribed]))
    · have hobj : obj.id = o := events.get_id s o x.1.media obj (by rw [hget])
      subst hobj
      have hmedia : media = (core.getMediaObject s obj.id x.1.media).2 := by rw [hget]
      have hst' : Kept rpc events hist { x.1 with media } k :=
        hst.idle (hmedia ▸ idle_get s obj.id x.1) hk fun _ _ _ _ => Iff.rfl
      obtain ⟨rfl, -⟩ := processSubscription_ok hproc
      obtain ⟨hms, hmi⟩ := subscription_members s (core.uuid k)
      exact hst'.subscribed (hp _ _ _ _ ⟨ht, ho, hms, hmi⟩) hproc (standing_subscribe ht ho)
  | unsubscribe params result =>
    obtain ⟨hn, ⟨e, rfl, hidle⟩ | ⟨s, o, i, hs, ho, hi, hok, hy, rfl⟩⟩ := unsubscribe_cases h
    · exact hst.idle hidle hn.ge (standing_snoc_of_not (by simp [Subscribed]) (by simp [Unsubscribed]))
    · rw [hy, hn]
      refine ⟨hst.toFiled.of_registered _ fun s' o' i' c hc => Or.inl ?_,
        hst.toServing.remove hok (standing_unsubscribe hs ho hi)⟩
      rw [events.remove_registered _ _ _ _ _ _ _ hok] at hc
      split_ifs at hc
      exact hc
  | emit o t sessions =>
    obtain ⟨rfl, -⟩ := h
    exact hst.idle (.refl _) le_rfl
      (standing_snoc_of_not (by simp [Subscribed]) (by simp [Unsubscribed]))
  | forget =>
    obtain ⟨hhandlers, hmade, hn, -⟩ := h
    have hy : y.1 = { x.1 with media := y.1.media } := by
      dsimp only
      rw [← hhandlers, ← hmade]
    rw [hy]
    exact (hst.forget (htame rfl)).idle (.refl _) hn
      (standing_snoc_of_not (by simp [Subscribed]) (by simp [Unsubscribed]))

theorem Fresh.kept (h : Fresh events st) : Kept rpc events [] st n where
  toFiled := h.filed
  known o t c hc := by simp [h.connected] at hc
  serves s o i c hc := by simp [h.registered] at hc
  typed s o t i c hs := absurd hs (not_since_nil _ _)
  used s o t i hs := absurd hs (not_since_nil _ _)

theorem kept_of_run {x : Subscriptions σ × ℕ} (h0 : Fresh events st)
    (hrun : Run (TameStep rpc events) (st, n) hist x) (hp : ∀ e ∈ hist, PlainEvent rpc e) :
    Kept rpc events hist x.1 x.2 :=
  hrun.history_invariant
    (motive := fun hist x => (∀ e ∈ hist, PlainEvent rpc e) → Kept rpc events hist x.1 x.2)
    (fun hist x e y ih hstep hp => (ih fun e he => hp e (by simp [he])).step (hp e (by simp)) hstep)
    (fun _ => h0.kept) hp

/-! ### Deliveries -/

/-- A handler that is called serves a subscription of its session to the event. -/
theorem Kept.called_serves (hst : Kept rpc events hist st n)
    (hc : h ∈ events.connected st.media o t) (halive : events.alive st.media h = true) :
    ∃ i, events.registered st.media h.sessionId o i = some h ∧
      Serves rpc events hist st n h.sessionId o i h t := by
  obtain ⟨s', o', i, hreg⟩ := (events.alive_iff _ _).mp halive
  obtain ⟨t', h'⟩ := hst.serves s' o' i h hreg
  have hcount := h'.connected o t
  have hpos : 0 < (events.connected st.media o t).count h := List.count_pos_iff.mpr hc
  split_ifs at hcount with heq
  · obtain ⟨rfl, rfl⟩ := heq
    obtain rfl := h'.session
    exact ⟨i, hreg, h'⟩
  · omega

/-- The sessions sent an event are those with a registered subscription to it, each
once. -/
theorem Kept.sent (hst : Kept rpc events hist st n) (s o t : String) :
    (Registered rpc events hist st s o t → (sent events st o t).count s = 1) ∧
      (¬ Registered rpc events hist st s o t → (sent events st o t).count s = 0) := by
  rw [count_sent]
  constructor
  · rintro ⟨i, hi, hreg⟩
    obtain ⟨c, hreg⟩ := Option.isSome_iff_exists.mp hreg
    obtain ⟨t', h'⟩ := hst.serves s o i c hreg
    obtain rfl := hst.made_unique (hst.typed s o t i c hi hreg) h'.made
    have hcalive := (events.alive_iff st.media c).mpr ⟨s, o, i, hreg⟩
    -- the handler under the key of the session is the only one called for it
    have hone : ∀ d ∈ events.connected st.media o t,
        (decide (d.sessionId = s ∧ events.alive st.media d = true) = true ↔ (d == c) = true) :=
      fun d hd => by
        rw [decide_eq_true_iff, beq_iff_eq]
        constructor
        · rintro ⟨rfl, halive⟩
          obtain ⟨i', -, h''⟩ := hst.called_serves hd halive
          have hd := hst.lock_of_alive h''.made halive
          rw [h''.object, ← h'.object, ← h'.session, hst.lock_of_alive h'.made hcalive] at hd
          exact (Option.some.inj hd).symm
        · rintro rfl
          exact ⟨h'.session, hcalive⟩
    rw [List.countP_congr hone, ← List.count_eq_countP, h'.connected, if_pos ⟨rfl, rfl⟩]
  · intro hno
    refine List.countP_eq_zero.mpr fun d hd hd' => hno ?_
    obtain ⟨rfl, halive⟩ := decide_eq_true_iff.mp hd'
    obtain ⟨i, hreg, h'⟩ := hst.called_serves hd halive
    exact ⟨i, h'.standing, by simp [hreg]⟩

end Kept

end KurentoMediaServer.Events
