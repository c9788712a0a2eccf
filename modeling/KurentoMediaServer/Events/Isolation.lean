import KurentoMediaServer.Events.Handlers
import KurentoMediaServer.Foundations.Run

/-! Whose handler a subscription is given. The key of a handler is the session, the object
and the event type with separators in between, and clients choose the session and the
type. A type that contains the separator can make the key of one subscription that of
another; without it a handler is only ever shared by equal subscriptions. -/

namespace KurentoMediaServer.Events

open Foundations Methods

variable {σ : Type} (rpc : JsonRpc) {core : Core σ} (events : EventCore core)

/-- kms-core connects no handler to events that the object, told by its id, does not
declare; the types declared and the ids of objects are free of the separator. -/
structure Separated (Declares : String → String → Prop) : Prop where
  undeclared : ∀ obj t h st, ¬ Declares obj.id t → (events.connect obj t h st).1 = false
  type_plain : ∀ o t, Declares o t → '|' ∉ t.toList
  object_plain : ∀ s o st obj, (core.getMediaObject s o st).1 = .ok (some obj) → '|' ∉ obj.id.toList

/-- A subscription of the session `s` to the events `t` of an object, as it should be
handled: a handler is reused only if it was made for the same session, object and type,
undeclared events are refused, and the handler registered is one of the session. -/
structure Isolated (Declares : String → String → Prop) (st : Subscriptions σ) (obj : MediaObject)
    (s t : String) : Prop where
  reused : ∀ h, st.lock events (eventId s obj.id t) = some h →
    (h, t) ∈ st.made ∧ h.sessionId = s ∧ h.object = obj.id
  refused : ¬ Declares obj.id t → ∀ params n, (processSubscription rpc events obj s t params st n).1 =
    .error (.kurento (rpc.kurentoException .mediaObjectEventNotSupported "Event not found"))
  attached : ∀ params n i st' n', processSubscription rpc events obj s t params st n =
    (.ok i, st', n') → ∃ h, events.registered st'.media s obj.id i = some h ∧ h.sessionId = s

/-- The key `k` is also that of a live handler of another subscription, with a type free
of the separator. -/
def ReadsAs (st : Subscriptions σ) (k : String) : Prop :=
  ∃ s o t h, '|' ∉ o.toList ∧ '|' ∉ t.toList ∧ eventId s o t = k ∧ events.alive st.media h = true ∧
    (h, t) ∈ st.made ∧ h.sessionId = s ∧ h.object = o

section Isolation
variable {rpc events} {Declares : String → String → Prop} {st : Subscriptions σ} {n : ℕ}

abbrev DeclaredKey (Declares : String → String → Prop) (o t : String) : Prop :=
  '|' ∉ o.toList ∧ '|' ∉ t.toList ∧ Declares o t

theorem Filed.step (hsep : Separated events Declares) {x y : Subscriptions σ × ℕ} {e : Event}
    (hst : Filed events (DeclaredKey Declares) x.1) (h : Step rpc events x e y) :
    Filed events (DeclaredKey Declares) y.1 := by
  cases e with
  | subscribe params result =>
    rcases subscribe_cases h with ⟨e, -, hidle, -⟩ | ⟨s, o, t, i, obj, media, k, -, -, -, hget, hproc, -⟩
    · exact hst.idle hidle
    · have hmedia : media = (core.getMediaObject s o x.1.media).2 := by rw [hget]
      have hst' : Filed events (DeclaredKey Declares) { x.1 with media } :=
        hst.idle (hmedia ▸ idle_get s o x.1)
      rw [processSubscription_eq] at hproc
      split at hproc
      · next c hlock =>
        simp only [Prod.mk.injEq] at hproc
        obtain ⟨-, hy, -⟩ := hproc
        rw [← hy]
        refine hst'.of_registered _ fun s' o' i' d hd => ?_
        rw [events.add_registered] at hd
        split_ifs at hd
        · cases hd
          exact Or.inr ⟨_, (Option.filter_eq_some_iff.mp hlock).1⟩
        · exact Or.inl hd
      · next hlock =>
        dsimp only at hproc
        split_ifs at hproc with hconn
        · simp only [Prod.mk.injEq] at hproc
          obtain ⟨-, hy, -⟩ := hproc
          have hdecl : Declares obj.id t := by
            by_contra hno
            rw [hsep.undeclared _ _ _ _ hno] at hconn
            cases hconn
          rw [← hy]
          exact hst'.create ⟨hsep.object_plain s o x.1.media obj (by rw [hget]),
            hsep.type_plain _ _ hdecl, hdecl⟩ hlock rfl _
        · cases hproc
  | unsubscribe params result =>
    obtain ⟨-, ⟨-, -, hidle⟩ | ⟨s, o, i, -, -, -, hok, hy, -⟩⟩ := unsubscribe_cases h
    · exact hst.idle hidle
    · rw [hy]
      refine hst.of_registered _ fun s' o' i' d hd => Or.inl ?_
      rw [events.remove_registered _ _ _ _ _ _ _ hok] at hd
      split_ifs at hd
      exact hd
  | emit o t sessions =>
    obtain ⟨rfl, -⟩ := h
    exact hst
  | forget =>
    obtain ⟨hh, hm, -, hreg⟩ := h
    have hy : y.1 = { x.1 with media := y.1.media } := by
      dsimp only
      rw [← hh, ← hm]
    rw [hy]
    exact hst.of_registered _ fun s o i d hd => Or.inl (hreg s o i d hd)

/-- In every reachable state a subscription is handled as it should exactly if its type
is free of the separator, or its key is not that of a live handler of another one. -/
theorem isolated_iff (hsep : Separated events Declares) (h0 : Fresh events st)
    {hist : List Event} {x : Subscriptions σ × ℕ} (hrun : Run (Step rpc events) (st, n) hist x)
    {obj : MediaObject} (hobj : '|' ∉ obj.id.toList) (s t : String) :
    Isolated rpc events Declares x.1 obj s t ↔
      '|' ∉ t.toList ∨ ¬ ReadsAs events x.1 (eventId s obj.id t) := by
  have hst : Filed events (DeclaredKey Declares) x.1 :=
    hrun.invariant (motive := fun x => Filed events (DeclaredKey Declares) x.1)
      (fun _ _ _ hst h => hst.step hsep h) h0.filed
  constructor
  · rintro hiso
    by_contra hno
    simp only [not_or, not_not] at hno
    obtain ⟨hbar, s', o', t', h, -, ht', hk, halive, hm, rfl, rfl⟩ := hno
    -- the handler read from the key is found under it, and was made for another type
    have hlock := hst.lock_of_alive hm halive
    rw [hk] at hlock
    obtain rfl := hst.made_unique hm (hiso.reused h hlock).1
    exact ht' hbar
  · intro hcond
    have hreused (h : WebSocketEventHandler) (hlock : x.1.lock events (eventId s obj.id t) = some h) :
        (h, t) ∈ x.1.made ∧ h.sessionId = s ∧ h.object = obj.id ∧ Declares obj.id t := by
      obtain ⟨hk, halive⟩ := Option.filter_eq_some_iff.mp hlock
      obtain ⟨t', hm, hkey, ho', ht', hdecl⟩ := hst.key _ _ hk
      rcases hcond with ht | hno
      · obtain ⟨rfl, hoo, rfl⟩ := eventId_inj hobj ho' ht ht' hkey
        exact ⟨hm, rfl, hoo.symm, hoo ▸ hdecl⟩
      · exact absurd ⟨_, _, t', h, ho', ht', hkey.symm, halive, hm, rfl, rfl⟩ hno
    refine ⟨fun h hlock => ?_, fun hdecl params n => ?_, fun params n i st' n' hproc => ?_⟩
    · obtain ⟨hm, hs, ho, -⟩ := hreused h hlock
      exact ⟨hm, hs, ho⟩
    · rw [processSubscription_eq]
      split
      · next h hlock => exact absurd (hreused h hlock).2.2.2 hdecl
      · dsimp only
        rw [hsep.undeclared _ _ _ _ hdecl]
        rfl
    · obtain ⟨rfl, -⟩ := processSubscription_ok hproc
      rw [processSubscription_eq] at hproc
      split at hproc
      · next h hlock =>
        simp only [Prod.mk.injEq] at hproc
        obtain ⟨-, rfl, -⟩ := hproc
        exact ⟨h, by simp [events.add_registered], (hreused h hlock).2.1⟩
      · dsimp only at hproc
        split_ifs at hproc
        · simp only [Prod.mk.injEq] at hproc
          obtain ⟨-, rfl, -⟩ := hproc
          exact ⟨⟨x.1.made.length, obj.id, s⟩, by simp [events.add_registered], rfl⟩
        · cases hproc

end Isolation

/-! ### A type that contains the separator -/

/-- The subscription of a session whose name ends in the id of the object `p`. -/
def firstEvent : Event :=
  .subscribe (subscribeParams "A|p" "o" "Error")
    (.ok (.object [("sessionId", .str "A|p"), ("value", .str (eventMedia.uuid 0))]))

def objectP : MediaObject := ⟨"p", "MediaObject", "kurento.MediaObject", []⟩

/-- The steps of a server whose objects declare one type of events. -/
def ErrorStep : Subscriptions EventMedia × ℕ → Event → Subscriptions EventMedia × ℕ → Prop :=
  Step JsonRpc.plain (EventCore.ofTypes ["Error"])

def ErrorIsolated : Subscriptions EventMedia → MediaObject → String → String → Prop :=
  Isolated JsonRpc.plain (EventCore.ofTypes ["Error"]) fun _ t => t = "Error"

theorem separated_ofTypes : Separated (EventCore.ofTypes ["Error"]) fun _ t => t = "Error" where
  undeclared obj t h st ht := by simp [EventCore.ofTypes, ht]
  type_plain o t ht := by
    subst ht
    decide
  object_plain s o st obj h := by
    simp only [eventMedia] at h
    split_ifs at h with ho
    cases h
    exact ho

/-- Another session subscribes to the same events. -/
theorem isolated_other_session :
    ∃ x, Run ErrorStep (noSubscriptions, 0) [firstEvent] x ∧ ErrorIsolated x.1 objectP "A" "Error" := by
  obtain ⟨x, hrun⟩ : ∃ x, Run ErrorStep (noSubscriptions, 0) [firstEvent] x := ⟨_, .single rfl⟩
  exact ⟨x, hrun, (isolated_iff separated_ofTypes (fresh_noSubscriptions _) hrun (by decide) _ _).mpr
    (Or.inl (by decide))⟩

/-- The session `A` subscribes to the events `o|Error` of the object `p`. There are none,
and it is given the handler of the session `A|p`. -/
theorem not_isolated :
    ∃ x, Run ErrorStep (noSubscriptions, 0) [firstEvent] x ∧
      ¬ ErrorIsolated x.1 objectP "A" "o|Error" ∧
      x.1.lock (EventCore.ofTypes ["Error"]) (eventId "A" "p" "o|Error") = some ⟨0, "o", "A|p"⟩ ∧
      ∃ i y, processSubscription JsonRpc.plain (EventCore.ofTypes ["Error"]) objectP "A" "o|Error" .null
        x.1 x.2 = (.ok i, y) := by
  obtain ⟨x, hrun, hlock⟩ : ∃ x, Run ErrorStep (noSubscriptions, 0) [firstEvent] x ∧
      x.1.lock (EventCore.ofTypes ["Error"]) (eventId "A" "p" "o|Error") = some ⟨0, "o", "A|p"⟩ :=
    ⟨_, .single rfl, rfl⟩
  refine ⟨x, hrun, fun h => ?_, hlock, ?_⟩
  · exact absurd (h.reused _ hlock).2.1 (by decide)
  · rw [processSubscription_eq, show eventId "A" objectP.id "o|Error" = eventId "A" "p" "o|Error" from rfl,
      hlock]
    exact ⟨_, _, rfl⟩

end KurentoMediaServer.Events
