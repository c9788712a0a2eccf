import KurentoMediaServer.Events.EventCore

/-! The handlers of the transport and their keys, along every run. A handler stands under
the key made of the session, the object and the event type it was made for. As long as
it is alive it stays there: another takes its place only when it is found dead. -/

namespace KurentoMediaServer.Events

open Foundations Methods

/-- What happens to the subscriptions. An event of kms-core shows the sessions
`sendEvent` is called for. -/
inductive Event where
  | subscribe (params : Json) (result : Except Exc Json)
  | unsubscribe (params : Json) (result : Except Exc Json)
  | emit (object type : String) (sessions : List String)
  /-- kms-core forgets subscriptions, as when a session ends or an object is released. -/
  | forget

variable {σ : Type} (rpc : JsonRpc) {core : Core σ} (events : EventCore core)

/-- The sessions of the handlers called for an event. -/
def sent (st : Subscriptions σ) (object type : String) : List String :=
  ((events.connected st.media object type).filter (events.alive st.media)).map (·.sessionId)

/-- The steps, over the subscriptions and the number of UUIDs drawn. -/
def Step (st : Subscriptions σ × ℕ) : Event → Subscriptions σ × ℕ → Prop
  | .subscribe params result, t =>
    subscribe rpc (withEvents rpc events) params st.1 st.2 = (result, t)
  | .unsubscribe params result, t =>
    unsubscribe rpc (withEvents rpc events) params st.1 st.2 = (result, t)
  | .emit object type sessions, t => t = st ∧ sessions = sent events st.1 object type
  | .forget, t => t.1.handlers = st.1.handlers ∧ t.1.made = st.1.made ∧ st.2 ≤ t.2 ∧
    ∀ s o i h, events.registered t.1.media s o i = some h → events.registered st.1.media s o i = some h

/-- Handlers are numbered as they are made, stand under their own key, with `P` true of
their object and event type, and while alive are the ones their key leads to. -/
structure Filed (P : String → String → Prop) (st : Subscriptions σ) : Prop where
  number : ∀ (i : ℕ) h t, st.made[i]? = some (h, t) → h.number = i
  key : ∀ k h, st.handlers.lookup k = some h → ∃ t, (h, t) ∈ st.made ∧
    k = eventId h.sessionId h.object t ∧ P h.object t
  current : ∀ s o i h, events.registered st.media s o i = some h → ∃ t, (h, t) ∈ st.made ∧
    st.handlers.lookup (eventId h.sessionId h.object t) = some h

section Filed
variable {rpc events} {P : String → String → Prop} {st st' : Subscriptions σ} {n n' : ℕ}
  {s o t i : String} {h : WebSocketEventHandler}

theorem Filed.made_unique (hst : Filed events P st) {t' : String} (h1 : (h, t) ∈ st.made)
    (h2 : (h, t') ∈ st.made) : t = t' := by
  obtain ⟨i, hi⟩ := List.mem_iff_getElem?.mp h1
  obtain ⟨j, hj⟩ := List.mem_iff_getElem?.mp h2
  obtain rfl : i = j := (hst.number i h t hi).symm.trans (hst.number j h t' hj)
  rw [hi] at hj
  cases hj
  rfl

theorem Filed.number_lt (hst : Filed events P st) (h1 : (h, t) ∈ st.made) :
    h.number < st.made.length := by
  obtain ⟨i, hi⟩ := List.mem_iff_getElem?.mp h1
  rw [hst.number i h t hi]
  exact (List.getElem?_eq_some_iff.mp hi).1

theorem Filed.lock_of_alive (hst : Filed events P st) (hm : (h, t) ∈ st.made)
    (halive : events.alive st.media h = true) :
    st.lock events (eventId h.sessionId h.object t) = some h := by
  obtain ⟨s, o, i, hreg⟩ := (events.alive_iff _ _).mp halive
  obtain ⟨t', hm', hk⟩ := hst.current s o i h hreg
  obtain rfl := hst.made_unique hm hm'
  exact Option.filter_eq_some_iff.mpr ⟨hk, halive⟩

theorem Filed.idle (hst : Filed events P st) (h : Idle events st st') : Filed events P st' := by
  obtain ⟨new, hnew, hnum⟩ := h.made
  have hmem {c : WebSocketEventHandler × String} (hc : c ∈ st.made) : c ∈ st'.made := by
    rw [hnew]
    exact List.mem_append_left _ hc
  refine ⟨fun j c t hj => ?_, fun k c hk => ?_, fun s o i c hc => ?_⟩
  · rw [hnew] at hj
    by_cases hlt : j < st.made.length
    · exact hst.number j c t (by rwa [List.getElem?_append_left hlt] at hj)
    · rw [List.getElem?_append_right (by omega)] at hj
      have := hnum _ c t hj
      omega
  · rw [h.handlers] at hk
    obtain ⟨t, hmade, hrest⟩ := hst.key k c hk
    exact ⟨t, hmem hmade, hrest⟩
  · rw [h.registered] at hc
    obtain ⟨t, hmade, hk⟩ := hst.current s o i c hc
    exact ⟨t, hmem hmade, by rwa [h.handlers]⟩

/-- Registrations may go, and may come for the handler a key leads to. -/
theorem Filed.of_registered (hst : Filed events P st) (media : σ)
    (hreg : ∀ s o i h, events.registered media s o i = some h →
      events.registered st.media s o i = some h ∨ ∃ k, st.handlers.lookup k = some h) :
    Filed events P { st with media } where
  number := hst.number
  key := hst.key
  current s o i c hc := by
    rcases hreg s o i c hc with hc | ⟨k, hk⟩
    · exact hst.current s o i c hc
    · obtain ⟨t, hmade, rfl, -⟩ := hst.key k c hk
      exact ⟨t, hmade, hk⟩

theorem Filed.create (hst : Filed events P st) {obj : MediaObject} (hP : P obj.id t)
    (hlock : st.lock events (eventId s obj.id t) = none) (hnum : h = ⟨st.made.length, obj.id, s⟩)
    (i : String) :
    Filed events P ⟨events.addEventHandler s obj.id i h (events.connect obj t h st.media).2,
      st.handlers.insert (eventId s obj.id t) h, st.made ++ [(h, t)]⟩ := by
  have hmem {c : WebSocketEventHandler × String} (hc : c ∈ st.made) : c ∈ st.made ++ [(h, t)] :=
    List.mem_append_left _ hc
  have hnew : (h, t) ∈ st.made ++ [(h, t)] := by simp
  have hkey : eventId h.sessionId h.object t = eventId s obj.id t := by rw [hnum]
  refine ⟨fun j c t' hj => ?_, fun k c hk => ?_, fun s' o' i' c hc => ?_⟩
  · by_cases hlt : j < st.made.length
    · exact hst.number j c t' (by rwa [List.getElem?_append_left hlt] at hj)
    · rw [List.getElem?_append_right (by omega)] at hj
      obtain ⟨hj, rfl, rfl⟩ : j - st.made.length = 0 ∧ h = c ∧ t = t' := by
        cases hd : j - st.made.length with
        | zero => rw [hd] at hj; cases hj; exact ⟨rfl, rfl, rfl⟩
        | succ d => rw [hd] at hj; simp at hj
      rw [hnum]
      dsimp only
      omega
  · rw [StdMap.lookup_insert] at hk
    split_ifs at hk with heq
    · cases hk
      exact ⟨t, hnew, by rw [heq, hkey], by rw [hnum]; exact hP⟩
    · obtain ⟨t', hmade, hrest⟩ := hst.key k c hk
      exact ⟨t', hmem hmade, hrest⟩
  · rw [events.add_registered, events.connect_registered] at hc
    split_ifs at hc
    · cases hc
      exact ⟨t, hnew, by rw [hkey, StdMap.lookup_insert, if_pos rfl]⟩
    · obtain ⟨t', hmade, hk⟩ := hst.current s' o' i' c hc
      have hlive := hst.lock_of_alive hmade ((events.alive_iff st.media c).mpr ⟨s', o', i', hc⟩)
      have hne : eventId c.sessionId c.object t' ≠ eventId s obj.id t := fun heq => by
        rw [heq, hlock] at hlive
        cases hlive
      exact ⟨t', hmem hmade, by rw [StdMap.lookup_insert, if_neg hne]; exact hk⟩

structure Fresh (events : EventCore core) (st : Subscriptions σ) : Prop where
  handlers : st.handlers = ∅
  made : st.made = []
  registered : ∀ s o i, events.registered st.media s o i = none
  connected : ∀ o t, events.connected st.media o t = []

theorem Fresh.filed (h : Fresh events st) : Filed events P st where
  number i c t hi := by simp [h.made] at hi
  key k c hk := by simp [h.handlers] at hk
  current s o i c hc := by simp [h.registered] at hc

end Filed

theorem fresh_noSubscriptions (types : List String) :
    Fresh (EventCore.ofTypes types) noSubscriptions :=
  ⟨rfl, rfl, fun _ _ _ => rfl, fun _ _ => rfl⟩

end KurentoMediaServer.Events
