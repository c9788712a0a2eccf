import KurentoMediaServer.Events.Handlers
import KurentoMediaServer.Foundations.Run

/-! Delivery of events. Along every run of subscribe and unsubscribe requests the handler
of a subscription is the one its key leads to, and it is connected once. So an event is
sent once to each session with a subscription to it and to no other, however often and in
whatever order the session has subscribed and unsubscribed. -/

namespace KurentoMediaServer.Events

open Foundations Methods

variable {σ : Type} (rpc : JsonRpc) {core : Core σ} (events : EventCore core)

/-- The session `s` subscribes to the events `t` of `o` and is given the id `i`. -/
def Subscribed (s o t i : String) : Event → Prop
  | .subscribe params (.ok result) => rpc.text? params "type" = some t ∧
    rpc.text? params "object" = some o ∧ result.member? "sessionId" = some (.str s) ∧
    result.member? "value" = some (.str i)
  | _ => False

/-- The session `s` gives the subscription `i` to the object `o` up. -/
def Unsubscribed (s o i : String) : Event → Prop
  | .unsubscribe params (.ok _) => rpc.text? params "sessionId" = some s ∧
    rpc.text? params "object" = some o ∧ rpc.text? params "subscription" = some i
  | _ => False

def Standing (hist : List Event) (s o t i : String) : Prop :=
  Since (Subscribed rpc s o t i) (Unsubscribed rpc s o i) hist

/-- Objects and event types free of the separator. -/
abbrev PlainKey (o t : String) : Prop := '|' ∉ o.toList ∧ '|' ∉ t.toList

/-- The requests of a run are subscribe and unsubscribe requests, with objects and
event types free of the separator. -/
def Plain (_ : Subscriptions σ × ℕ) (e : Event) : Prop :=
  e ≠ .forget ∧ ∀ s o t i, Subscribed rpc s o t i e → PlainKey o t

/-! ### The invariant -/

/-- The handler `h` serves the subscription `i`: it was made for the session, the object
and the event type, and is connected once, to these events. -/
structure Serves (hist : List Event) (st : Subscriptions σ) (n : ℕ) (s o i : String)
    (h : WebSocketEventHandler) (t : String) : Prop where
  made : (h, t) ∈ st.made
  session : h.sessionId = s
  object : h.object = o
  drawn : ∃ k, k < n ∧ i = core.uuid k
  standing : Standing rpc hist s o t i
  connected : ∀ o' t', (events.connected st.media o' t').count h = if o' = o ∧ t' = t then 1 else 0

/-- Registered handlers serve their subscriptions, and a standing subscription has one. -/
structure Sound (hist : List Event) (st : Subscriptions σ) (n : ℕ) : Prop
    extends Filed events PlainKey st where
  connected : ∀ o t h, h ∈ events.connected st.media o t → ∃ t', (h, t') ∈ st.made
  serves : ∀ s o i h, events.registered st.media s o i = some h →
    ∃ t, Serves rpc events hist st n s o i h t
  standing : ∀ s o t i, Standing rpc hist s o t i →
    ∃ h, events.registered st.media s o i = some h ∧ (h, t) ∈ st.made

section Sound
variable {rpc events} {hist hist' : List Event} {st st' : Subscriptions σ} {n n' : ℕ}
  {s o t i : String} {h : WebSocketEventHandler}

theorem Sound.of_key (hst : Sound rpc events hist st n) (hp : PlainKey o t)
    (hk : st.handlers.lookup (eventId s o t) = some h) :
    (h, t) ∈ st.made ∧ h.sessionId = s ∧ h.object = o := by
  obtain ⟨t', hmade, hkey, ho', ht'⟩ := hst.key _ _ hk
  obtain ⟨rfl, rfl, rfl⟩ := eventId_inj hp.1 ho' hp.2 ht' hkey
  exact ⟨hmade, rfl, rfl⟩

theorem Sound.unregistered (hst : Sound rpc events hist st n) (s o : String) :
    events.registered st.media s o (core.uuid n) = none := by
  rw [Option.eq_none_iff_forall_ne_some]
  intro c hc
  obtain ⟨t, h'⟩ := hst.serves s o _ c hc
  obtain ⟨k, hk, hi⟩ := h'.drawn
  exact absurd (core.uuid_injective hi) (by omega)

theorem Sound.idle (hst : Sound rpc events hist st n) (h : Idle events st st') (hn : n ≤ n') :
    Sound rpc events hist st' n' := by
  obtain ⟨new, hnew, -⟩ := h.made
  have hmem {c : WebSocketEventHandler × String} (hc : c ∈ st.made) : c ∈ st'.made := by
    rw [hnew]
    exact List.mem_append_left _ hc
  refine ⟨hst.toFiled.idle h, fun o t c hc => ?_, fun s o i c hc => ?_, fun s o t i hs => ?_⟩
  · rw [h.connected] at hc
    obtain ⟨t', ht'⟩ := hst.connected o t c hc
    exact ⟨t', hmem ht'⟩
  · rw [h.registered] at hc
    obtain ⟨t, ht⟩ := hst.serves s o i c hc
    obtain ⟨k, hk, hi⟩ := ht.drawn
    exact ⟨t, hmem ht.made, ht.session, ht.object, ⟨k, by omega, hi⟩, ht.standing,
      fun o' t' => by rw [h.connected]; exact ht.connected o' t'⟩
  · obtain ⟨c, hc, hmade⟩ := hst.standing s o t i hs
    exact ⟨c, by rw [h.registered]; exact hc, hmem hmade⟩

/-- A longer history with the same standing subscriptions. -/
theorem Sound.of_standing (hst : Sound rpc events hist st n)
    (hh : ∀ s o t i, Standing rpc hist' s o t i ↔ Standing rpc hist s o t i) :
    Sound rpc events hist' st n where
  toFiled := hst.toFiled
  connected := hst.connected
  serves s o i c hc := by
    obtain ⟨t, ht⟩ := hst.serves s o i c hc
    exact ⟨t, { ht with standing := (hh s o t i).mpr ht.standing }⟩
  standing s o t i hs := hst.standing s o t i ((hh s o t i).mp hs)

theorem Sound.reuse (hst : Sound rpc events hist st n) (hp : PlainKey o t)
    (hlock : st.lock events (eventId s o t) = some h)
    (hh : ∀ s' o' t' i', Standing rpc hist' s' o' t' i' ↔
      Standing rpc hist s' o' t' i' ∨ (s' = s ∧ o' = o ∧ t' = t ∧ i' = core.uuid n)) :
    Sound rpc events hist'
      { st with media := events.addEventHandler s o (core.uuid n) h st.media } (n + 1) := by
  obtain ⟨hk, halive⟩ := Option.filter_eq_some_iff.mp hlock
  obtain ⟨hmade, hs, ho'⟩ := hst.of_key hp hk
  -- the handler is alive, so it serves a subscription already, and is connected
  obtain ⟨s₀, o₀, i₀, hreg⟩ := (events.alive_iff _ _).mp halive
  obtain ⟨t₀, h₀⟩ := hst.serves s₀ o₀ i₀ h hreg
  obtain rfl := hst.made_unique hmade h₀.made
  obtain rfl : o₀ = o := h₀.object.symm.trans ho'
  refine ⟨hst.toFiled.of_registered _ fun s' o' i' c hc => ?_, fun o' t' c hc => ?_,
    fun s' o' i' c hc => ?_, fun s' o' t' i' hs' => ?_⟩
  · rw [events.add_registered] at hc
    split_ifs at hc
    · cases hc
      exact Or.inr ⟨_, hk⟩
    · exact Or.inl hc
  · rw [events.add_connected] at hc
    exact hst.connected o' t' c hc
  · rw [events.add_registered] at hc
    split_ifs at hc with heq
    · obtain ⟨rfl, rfl, rfl⟩ := heq
      cases hc
      exact ⟨t, hmade, hs, ho', ⟨n, Nat.lt_succ_self n, rfl⟩,
        (hh _ _ _ _).mpr (Or.inr ⟨rfl, rfl, rfl, rfl⟩),
        fun o' t' => by rw [events.add_connected]; exact h₀.connected o' t'⟩
    · obtain ⟨t', h'⟩ := hst.serves s' o' i' c hc
      obtain ⟨k, hk, hi⟩ := h'.drawn
      exact ⟨t', { h' with
        drawn := ⟨k, by omega, hi⟩
        standing := (hh _ _ _ _).mpr (Or.inl h'.standing)
        connected := fun o' t' => by rw [events.add_connected]; exact h'.connected o' t' }⟩
  · simp only [events.add_registered]
    rcases (hh _ _ _ _).mp hs' with hs' | ⟨rfl, rfl, rfl, rfl⟩
    · obtain ⟨c, hc, hmade'⟩ := hst.standing s' o' t' i' hs'
      have hne : ¬ (s' = s ∧ o' = o₀ ∧ i' = core.uuid n) := by
        rintro ⟨rfl, rfl, rfl⟩
        rw [hst.unregistered] at hc
        cases hc
      exact ⟨c, by rw [if_neg hne]; exact hc, hmade'⟩
    · exact ⟨h, by simp, hmade⟩

/-- A subscription with a new handler, when none is alive under its key. -/
theorem Sound.create (hst : Sound rpc events hist st n) {obj : MediaObject}
    (hp : PlainKey obj.id t) (hlock : st.lock events (eventId s obj.id t) = none)
    (hnum : h = ⟨st.made.length, obj.id, s⟩) (hconn : (events.connect obj t h st.media).1 = true)
    (hh : ∀ s' o' t' i', Standing rpc hist' s' o' t' i' ↔
      Standing rpc hist s' o' t' i' ∨ (s' = s ∧ o' = obj.id ∧ t' = t ∧ i' = core.uuid n)) :
    Sound rpc events hist'
      ⟨events.addEventHandler s obj.id (core.uuid n) h (events.connect obj t h st.media).2,
        st.handlers.insert (eventId s obj.id t) h, st.made ++ [(h, t)]⟩ (n + 1) := by
  have hold {c : WebSocketEventHandler} {t' : String} (hc : (c, t') ∈ st.made) : c ≠ h := by
    rintro rfl
    have hlt := hst.number_lt hc
    rw [hnum] at hlt
    exact absurd hlt (lt_irrefl _)
  have hmem {c : WebSocketEventHandler × String} (hc : c ∈ st.made) : c ∈ st.made ++ [(h, t)] :=
    List.mem_append_left _ hc
  have hnew : (h, t) ∈ st.made ++ [(h, t)] := by simp
  have hconnected (o' t' : String) := events.connect_true obj t h st.media hconn o' t'
  have hregistered (s' o' i' : String) := events.connect_registered obj t h st.media s' o' i'
  refine ⟨hst.toFiled.create hp hlock hnum _, fun o' t' c hc => ?_, fun s' o' i' c hc => ?_,
    fun s' o' t' i' hs' => ?_⟩
  · rw [events.add_connected, hconnected] at hc
    split_ifs at hc
    · rcases List.mem_append.mp hc with hc | hc
      · obtain ⟨t'', ht''⟩ := hst.connected o' t' c hc
        exact ⟨t'', hmem ht''⟩
      · rw [List.mem_singleton.mp hc]
        exact ⟨t, hnew⟩
    · obtain ⟨t'', ht''⟩ := hst.connected o' t' c hc
      exact ⟨t'', hmem ht''⟩
  · rw [events.add_registered, hregistered] at hc
    split_ifs at hc with heq
    · obtain ⟨rfl, rfl, rfl⟩ := heq
      cases hc
      have hzero (o' t' : String) : (events.connected st.media o' t').count h = 0 := by
        refine List.count_eq_zero.mpr fun hmem => ?_
        obtain ⟨t'', ht''⟩ := hst.connected o' t' h hmem
        exact hold ht'' rfl
      refine ⟨t, hnew, by rw [hnum], by rw [hnum], ⟨n, Nat.lt_succ_self n, rfl⟩,
        (hh _ _ _ _).mpr (Or.inr ⟨rfl, rfl, rfl, rfl⟩), fun o' t' => ?_⟩
      rw [events.add_connected, hconnected]
      split_ifs <;> simp [hzero]
    · obtain ⟨t', h'⟩ := hst.serves s' o' i' c hc
      obtain ⟨k, hk, hi⟩ := h'.drawn
      refine ⟨t', hmem h'.made, h'.session, h'.object, ⟨k, by omega, hi⟩,
        (hh _ _ _ _).mpr (Or.inl h'.standing), fun o'' t'' => ?_⟩
      have hc0 : List.count c [h] = 0 :=
        List.count_eq_zero.mpr fun hmem => hold h'.made (List.mem_singleton.mp hmem)
      rw [events.add_connected, hconnected, ← h'.connected]
      split_ifs
      · rw [List.count_append, hc0, Nat.add_zero]
      · rfl
  · simp only [events.add_registered, hregistered]
    rcases (hh _ _ _ _).mp hs' with hs' | ⟨rfl, rfl, rfl, rfl⟩
    · obtain ⟨c, hc, hmade⟩ := hst.standing s' o' t' i' hs'
      have hne : ¬ (s' = s ∧ o' = obj.id ∧ i' = core.uuid n) := by
        rintro ⟨rfl, rfl, rfl⟩
        rw [hst.unregistered] at hc
        cases hc
      exact ⟨c, by rw [if_neg hne]; exact hc, hmem hmade⟩
    · exact ⟨h, by simp, hnew⟩

theorem Sound.remove (hst : Sound rpc events hist st n)
    (hok : (core.removeEventHandler s o i st.media).1 = .ok ())
    (hh : ∀ s' o' t' i', Standing rpc hist' s' o' t' i' ↔
      Standing rpc hist s' o' t' i' ∧ ¬ (s' = s ∧ o' = o ∧ i' = i)) :
    Sound rpc events hist' { st with media := (core.removeEventHandler s o i st.media).2 } n := by
  refine ⟨hst.toFiled.of_registered _ fun s' o' i' c hc => Or.inl ?_, fun o' t' c hc => ?_,
    fun s' o' i' c hc => ?_, fun s' o' t' i' hs' => ?_⟩
  · rw [events.remove_registered _ _ _ _ _ _ _ hok] at hc
    split_ifs at hc
    exact hc
  · rw [events.remove_connected] at hc
    exact hst.connected o' t' c hc
  · rw [events.remove_registered _ _ _ _ _ _ _ hok] at hc
    split_ifs at hc with hne
    obtain ⟨t', h'⟩ := hst.serves s' o' i' c hc
    exact ⟨t', { h' with
      standing := (hh _ _ _ _).mpr ⟨h'.standing, hne⟩
      connected := fun o' t' => by rw [events.remove_connected]; exact h'.connected o' t' }⟩
  · obtain ⟨hs', hne⟩ := (hh _ _ _ _).mp hs'
    obtain ⟨c, hc, hmade⟩ := hst.standing s' o' t' i' hs'
    exact ⟨c, by rw [events.remove_registered _ _ _ _ _ _ _ hok, if_neg hne]; exact hc, hmade⟩

theorem subscription_members (s i : String) :
    (Json.object [("sessionId", .str s), ("value", .str i)]).member? "sessionId" = some (.str s) ∧
      (Json.object [("sessionId", .str s), ("value", .str i)]).member? "value" = some (.str i) := by
  constructor
  · exact (Assoc.find_put_of_ne (show "sessionId" ≠ "value" by decide) _ _).trans
      (Assoc.find_put_self ..)
  · exact Assoc.find_put_self ..

/-- A request that neither subscribes nor unsubscribes leaves the subscriptions. -/
theorem standing_snoc_of_not {e : Event} (hs : ∀ s o t i, ¬ Subscribed rpc s o t i e)
    (hu : ∀ s o i, ¬ Unsubscribed rpc s o i e) (s o t i : String) :
    Standing rpc (hist ++ [e]) s o t i ↔ Standing rpc hist s o t i := by
  simp [Standing, since_snoc, hs, hu]

theorem Sound.step {x y : Subscriptions σ × ℕ} {e : Event} (hst : Sound rpc events hist x.1 x.2)
    (hp : Plain rpc x e) (h : Step rpc events x e y) : Sound rpc events (hist ++ [e]) y.1 y.2 := by
  cases e with
  | subscribe params result =>
    rcases subscribe_cases h with ⟨e, rfl, hidle, hn⟩ |
      ⟨s, o, t, i, obj, media, k, ht, ho, hk, hget, hproc, rfl⟩
    · exact (hst.idle hidle hn).of_standing (standing_snoc_of_not (by simp [Subscribed])
        (by simp [Unsubscribed]))
    · have hobj : obj.id = o := events.get_id s o x.1.media obj (by rw [hget])
      subst hobj
      have hmedia : media = (core.getMediaObject s obj.id x.1.media).2 := by rw [hget]
      have hst' : Sound rpc events hist { x.1 with media } k :=
        hst.idle (hmedia ▸ idle_get s obj.id x.1) hk
      obtain ⟨rfl, hy⟩ := processSubscription_ok hproc
      have hsub : Subscribed rpc s obj.id t (core.uuid k) (.subscribe params
          (.ok (.object [("sessionId", .str s), ("value", .str (core.uuid k))]))) :=
        ⟨ht, ho, subscription_members _ _⟩
      have hplain : PlainKey obj.id t := hp.2 _ _ _ _ hsub
      have hstanding (s' o' t' i' : String) : Standing rpc (hist ++ [.subscribe params
            (.ok (.object [("sessionId", .str s), ("value", .str (core.uuid k))]))]) s' o' t' i' ↔
          Standing rpc hist s' o' t' i' ∨
            (s' = s ∧ o' = obj.id ∧ t' = t ∧ i' = core.uuid k) := by
        obtain ⟨hms, hmi⟩ := subscription_members s (core.uuid k)
        simp only [Standing, since_snoc, Subscribed, Unsubscribed, ht, ho, hms, hmi,
          not_false_eq_true, and_true, Option.some.injEq, Json.str.injEq]
        grind
      rw [processSubscription_eq] at hproc
      split at hproc
      · next c hlock =>
        simp only [Prod.mk.injEq] at hproc
        obtain ⟨-, hy1, hy2⟩ := hproc
        rw [← hy1, ← hy2]
        exact hst'.reuse hplain hlock hstanding
      · next hlock =>
        dsimp only at hproc
        split_ifs at hproc with hconn
        · simp only [Prod.mk.injEq] at hproc
          obtain ⟨-, hy1, hy2⟩ := hproc
          rw [← hy1, ← hy2]
          exact hst'.create hplain hlock rfl hconn hstanding
        · cases hproc
  | unsubscribe params result =>
    obtain ⟨hn, ⟨e, rfl, hidle⟩ | ⟨s, o, i, hs, ho, hi, hok, hy, rfl⟩⟩ := unsubscribe_cases h
    · exact (hst.idle hidle hn.ge).of_standing (standing_snoc_of_not (by simp [Subscribed])
        (by simp [Unsubscribed]))
    · rw [hy, hn]
      refine hst.remove hok fun s' o' t' i' => ?_
      simp only [Standing, since_snoc, Subscribed, Unsubscribed, hs, ho, hi, false_or,
        Option.some.injEq]
      grind
  | emit o t sessions =>
    obtain ⟨rfl, -⟩ := h
    exact hst.of_standing (standing_snoc_of_not (by simp [Subscribed]) (by simp [Unsubscribed]))
  | forget => exact absurd rfl hp.1

theorem Fresh.sound (h : Fresh events st) : Sound rpc events [] st n where
  toFiled := h.filed
  connected o t c hc := by simp [h.connected] at hc
  serves s o i c hc := by simp [h.registered] at hc
  standing s o t i hs := absurd hs (not_since_nil _ _)

/-- A handler of the session that is called serves a subscription to the event. -/
theorem Sound.called_serves (hst : Sound rpc events hist st n)
    (hc : h ∈ events.connected st.media o t) (halive : events.alive st.media h = true) :
    ∃ i, Serves rpc events hist st n h.sessionId o i h t := by
  obtain ⟨s', o', i, hreg⟩ := (events.alive_iff _ _).mp halive
  obtain ⟨t', h'⟩ := hst.serves s' o' i h hreg
  have hcount := h'.connected o t
  have hpos : 0 < (events.connected st.media o t).count h := List.count_pos_iff.mpr hc
  split_ifs at hcount with heq
  · obtain ⟨rfl, rfl⟩ := heq
    obtain rfl := h'.session
    exact ⟨i, h'⟩
  · omega

theorem count_sent (st : Subscriptions σ) (s o t : String) :
    (sent events st o t).count s = (events.connected st.media o t).countP
      fun c => c.sessionId = s ∧ events.alive st.media c = true := by
  rw [sent, List.count_eq_countP, List.countP_map, List.countP_filter]
  exact List.countP_congr fun c _ => by simp

/-- The sessions sent an event are those with a subscription to it, each once. -/
theorem Sound.sent (hst : Sound rpc events hist st n) (s o t : String) :
    ((∃ i, Standing rpc hist s o t i) → (sent events st o t).count s = 1) ∧
      ((¬ ∃ i, Standing rpc hist s o t i) → (sent events st o t).count s = 0) := by
  rw [count_sent]
  constructor
  · rintro ⟨i, hi⟩
    obtain ⟨c, hreg, hmade⟩ := hst.standing s o t i hi
    obtain ⟨t', h'⟩ := hst.serves s o i c hreg
    obtain rfl := hst.made_unique hmade h'.made
    have hcalive := (events.alive_iff st.media c).mpr ⟨s, o, i, hreg⟩
    -- the handler under the key of the session is the only one called for it
    have hone : ∀ d ∈ events.connected st.media o t,
        (decide (d.sessionId = s ∧ events.alive st.media d = true) = true ↔ (d == c) = true) :=
      fun d hd => by
        rw [decide_eq_true_iff, beq_iff_eq]
        constructor
        · rintro ⟨rfl, halive⟩
          obtain ⟨i', h''⟩ := hst.called_serves hd halive
          have hd := hst.lock_of_alive h''.made halive
          rw [h''.object, ← h'.object, ← h'.session, hst.lock_of_alive h'.made hcalive] at hd
          exact (Option.some.inj hd).symm
        · rintro rfl
          exact ⟨h'.session, hcalive⟩
    rw [List.countP_congr hone, ← List.count_eq_countP, h'.connected, if_pos ⟨rfl, rfl⟩]
  · intro hno
    refine List.countP_eq_zero.mpr fun d hd hd' => hno ?_
    obtain ⟨rfl, halive⟩ := decide_eq_true_iff.mp hd'
    obtain ⟨i, h'⟩ := hst.called_serves hd halive
    exact ⟨i, h'.standing⟩

/-- At every event each session with a subscription to it has `sendEvent` called once,
and no other session has. -/
theorem events_delivered_once {x y : Subscriptions σ × ℕ} (h0 : Fresh events st)
    (hrun : Run (Guarded (Plain rpc) (Step rpc events)) (st, n) hist x) {sessions : List String}
    (hstep : Step rpc events x (.emit o t sessions) y) (s : String) :
    ((∃ i, Standing rpc hist s o t i) → sessions.count s = 1) ∧
      ((¬ ∃ i, Standing rpc hist s o t i) → sessions.count s = 0) := by
  have hsound : Sound rpc events hist x.1 x.2 :=
    hrun.history_invariant (motive := fun hist x => Sound rpc events hist x.1 x.2)
      (fun _ _ _ _ hst hg => hst.step hg.1 hg.2) h0.sound
  obtain ⟨-, rfl⟩ := hstep
  exact hsound.sent s o t

end Sound

/-! ### A session that subscribes twice -/

/-- A subscribe request of the session `s`, and its result. -/
def subscribeEvent (i : ℕ) : Event :=
  .subscribe (subscribeParams "s" "o" "Error")
    (.ok (.object [("sessionId", .str "s"), ("value", .str (eventMedia.uuid i))]))

def unsubscribeEvent : Event :=
  .unsubscribe (.obj [("object", .str "o"), ("sessionId", .str "s"),
    ("subscription", .str (eventMedia.uuid 0))]) (.ok (.object [("sessionId", .str "s")]))

/-- The steps of the server it is connected to. -/
def SharedStep : Subscriptions EventMedia × ℕ → Event → Subscriptions EventMedia × ℕ → Prop :=
  Step JsonRpc.plain (EventCore.ofTypes ["Error"])

theorem plain_subscribeEvent (x : Subscriptions EventMedia × ℕ) (i : ℕ) :
    Plain JsonRpc.plain x (subscribeEvent i) := by
  refine ⟨by simp [subscribeEvent], fun s o t i h => ?_⟩
  obtain ⟨ht, ho, -⟩ := h
  obtain rfl : "Error" = t := Option.some.inj ht
  obtain rfl : "o" = o := Option.some.inj ho
  decide

/-- After two subscriptions, of which the first is given up, the event is sent once. -/
theorem events_delivered_once_shared :
    ∃ x sessions, Run (Guarded (Plain JsonRpc.plain) SharedStep) (noSubscriptions, 0)
        [subscribeEvent 0, subscribeEvent 1, unsubscribeEvent] x ∧
      SharedStep x (.emit "o" "Error" sessions) x ∧ sessions.count "s" = 1 := by
  obtain ⟨x, hrun⟩ : ∃ x, Run (Guarded (Plain JsonRpc.plain) SharedStep) (noSubscriptions, 0)
      (([subscribeEvent 0] ++ [subscribeEvent 1]) ++ [unsubscribeEvent]) x :=
    ⟨_, ((Run.single ⟨plain_subscribeEvent _ 0, rfl⟩).snoc ⟨plain_subscribeEvent _ 1, rfl⟩).snoc
      ⟨⟨by simp [unsubscribeEvent], fun _ _ _ _ h => h.elim⟩, rfl⟩⟩
  have hstanding : Standing JsonRpc.plain [subscribeEvent 0, subscribeEvent 1, unsubscribeEvent]
      "s" "o" "Error" (eventMedia.uuid 1) := by
    refine ⟨[subscribeEvent 0], subscribeEvent 1, [unsubscribeEvent], rfl,
      ⟨rfl, rfl, subscription_members _ _⟩, fun f hf hu => ?_⟩
    rw [List.mem_singleton.mp hf] at hu
    have hi : eventMedia.uuid 0 = eventMedia.uuid 1 := Option.some.inj hu.2.2
    exact absurd (eventMedia.uuid_injective hi) (by decide)
  exact ⟨x, _, hrun, ⟨rfl, rfl⟩,
    (events_delivered_once (fresh_noSubscriptions _) hrun ⟨rfl, rfl⟩ "s").1 ⟨_, hstanding⟩⟩

end KurentoMediaServer.Events
