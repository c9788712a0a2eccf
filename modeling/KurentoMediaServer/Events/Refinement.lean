import KurentoMediaServer.Cache.Retransmit
import KurentoMediaServer.Events.Forgetting
import KurentoMediaServer.Methods.Follows

/-! The whole server as a system of subscriptions. Whatever messages it processes, with
batches, transactions of any depth and cached answers, its subscriptions move by
subscribe and unsubscribe requests and by what kms-core forgets. So what holds of those
steps holds of the server: an event reaches each session with a registered subscription
once, and no other. -/

namespace KurentoMediaServer.Events

open Foundations Methods Cache

variable {σ : Type} (rpc : JsonRpc) {core : Core σ} (events : EventCore core)

/-- The operations of kms-core that have nothing to do with events register and connect
no handler, and disconnect none that stays alive. -/
structure Unrelated : Prop where
  keepAliveSession : ∀ s m, Forgets events m (core.keepAliveSession s m).2
  release : ∀ o m, Forgets events m (core.release o m).2
  ref : ∀ s o m, Forgets events m (core.ref s o m).2
  unref : ∀ s o m, Forgets events m (core.unref s o m).2
  releaseSession : ∀ s m, Forgets events m (core.releaseSession s m).2
  unrefSession : ∀ s m, Forgets events m (core.unrefSession s m).2
  invoke : ∀ obj op p m, Forgets events m (core.invoke obj op p m).2
  getFactory : ∀ t m, Forgets events m (core.getFactory t m).2
  checkResources : ∀ m, Forgets events m (core.checkResources m).2
  createObject : ∀ f s p m, Forgets events m (core.createObject f s p m).2

/-- From one state to the other by steps of the subscriptions. -/
def Leads (x y : Subscriptions σ × ℕ) : Prop := ∃ es, Run (TameStep rpc events) x es y

instance : IsPreorder (Subscriptions σ × ℕ) (Leads rpc events) where
  refl x := ⟨[], .nil x⟩
  trans := fun _ _ _ ⟨_, h⟩ ⟨_, g⟩ => ⟨_, h.append g⟩

section Refinement
variable {rpc events} {m m' : σ} {st t : Server (Subscriptions σ)}

theorem Forgets.refl (m : σ) : Forgets events m m :=
  ⟨fun _ _ _ _ h => h, fun _ _ _ h => h, fun _ _ _ _ => rfl⟩

theorem forgets_getMediaObject (s o : String) (m : σ) :
    Forgets events m (core.getMediaObject s o m).2 :=
  ⟨fun _ _ _ _ h => by rwa [events.get_registered] at h,
    fun _ _ _ h => by rwa [events.get_connected] at h,
    fun _ _ _ _ => by rw [events.get_connected]⟩

theorem leads_of_step {x y : Subscriptions σ × ℕ} (e : Event) (h : TameStep rpc events x e y) :
    Leads rpc events x y :=
  ⟨[e], .single h⟩

/-- What kms-core forgets, with UUIDs drawn. -/
theorem leads_forget (st : Subscriptions σ) {media : σ} (hf : Forgets events st.media media)
    {n k : ℕ} (hn : n ≤ k) : Leads rpc events (st, n) ({ st with media }, k) :=
  leads_of_step .forget ⟨⟨rfl, rfl, hn, hf.registered⟩, fun _ => hf⟩

/-- Every operation moves the subscriptions by their steps. -/
theorem follows_withEvents (hother : Unrelated events) :
    (withEvents rpc events).Follows rpc (Leads rpc events) where
  draw st _ := leads_forget st (.refl _) (Nat.le_succ _)
  getMediaObject s o st _ := leads_forget st (forgets_getMediaObject s o _) le_rfl
  keepAliveSession s st _ := leads_forget st (hother.keepAliveSession s _) le_rfl
  release o st _ := leads_forget st (hother.release o _) le_rfl
  ref s o st _ := leads_forget st (hother.ref s o _) le_rfl
  unref s o st _ := leads_forget st (hother.unref s o _) le_rfl
  releaseSession s st _ := leads_forget st (hother.releaseSession s _) le_rfl
  unrefSession s st _ := leads_forget st (hother.unrefSession s _) le_rfl
  invoke obj op p st _ := leads_forget st (hother.invoke obj op p _) le_rfl
  getFactory t st _ := leads_forget st (hother.getFactory t _) le_rfl
  checkResources st _ := leads_forget st (hother.checkResources _) le_rfl
  createObject f s p st _ := leads_forget st (hother.createObject f s p _) le_rfl
  subscribe params st n :=
    leads_of_step (.subscribe params _) ⟨Prod.mk.eta.symm, fun h => by cases h⟩
  unsubscribe params st n :=
    leads_of_step (.unsubscribe params _) ⟨Prod.mk.eta.symm, fun h => by cases h⟩

theorem serverStep_leads (hother : Unrelated events) {jsonrpc : RpcHandler} {text : JsonText}
    {e : ServerEvent} (h : ServerStep rpc (withEvents rpc events) jsonrpc text st e t) :
    Moved (Leads rpc events) st t := by
  cases e with
  | process payload sessionId depth =>
    obtain ⟨x, h⟩ := h
    exact process_moves (follows_withEvents hother) h
  | timeout source =>
    obtain rfl := h
    exact .refl _

/-- A run of the server is a run of its subscriptions. -/
theorem serverRun_leads (hother : Unrelated events) {jsonrpc : RpcHandler} {text : JsonText}
    {es : List ServerEvent}
    (hrun : Run (ServerStep rpc (withEvents rpc events) jsonrpc text) st es t) :
    ∃ hist, Run (TameStep rpc events) (st.media, st.drawn) hist (t.media, t.drawn) :=
  hrun.invariant (motive := fun u => Moved (Leads rpc events) st u)
    (fun _ _ _ hu hstep => hu.trans (serverStep_leads hother hstep)) (.refl st)

/-- A run of the server, of whatever messages and timers, is one of its subscriptions.
Along every such history of subscribe and unsubscribe requests an event goes once to each
session with a registered subscription to it, and to no other session. -/
theorem server_delivers_once (hother : Unrelated events) (h0 : Fresh events st.media)
    {jsonrpc : RpcHandler} {text : JsonText} {es : List ServerEvent}
    (hrun : Run (ServerStep rpc (withEvents rpc events) jsonrpc text) st es t) :
    (∃ hist, Run (TameStep rpc events) (st.media, st.drawn) hist (t.media, t.drawn)) ∧
      ∀ hist, Run (TameStep rpc events) (st.media, st.drawn) hist (t.media, t.drawn) →
        (∀ e ∈ hist, PlainEvent rpc e) → ∀ s o type,
        (Registered rpc events hist t.media s o type →
          (sent events t.media o type).count s = 1) ∧
        (¬ Registered rpc events hist t.media s o type →
          (sent events t.media o type).count s = 0) :=
  ⟨serverRun_leads hother hrun, fun _ hhist hp s o type => (kept_of_run h0 hhist hp).sent s o type⟩

end Refinement

/-! ### A subscribe message -/

theorem unrelated_ofTypes (types : List String) : Unrelated (EventCore.ofTypes types) :=
  ⟨fun _ => .refl, fun _ => .refl, fun _ _ => .refl, fun _ _ => .refl, fun _ => .refl,
    fun _ => .refl, fun _ _ _ => .refl, fun _ => .refl, .refl, fun _ _ _ => .refl⟩

/-- A subscription of the session `s`, as a message. -/
def subscribeRequest : Json := .obj [("id", .int 1), ("jsonrpc", .str "2.0"),
  ("method", .str "subscribe"), ("params", subscribeParams "s" "o" "Error")]

/-- kms-core with one type of events, and the subscriptions of the transport. -/
def errorCore : Core (Subscriptions EventMedia) :=
  withEvents JsonRpc.plain (EventCore.ofTypes ["Error"])

/-- The steps of the server over it. -/
def ErrorServerStep : Server (Subscriptions EventMedia) → ServerEvent →
    Server (Subscriptions EventMedia) → Prop :=
  ServerStep JsonRpc.plain errorCore RpcHandler.plain (.ofValues [subscribeRequest])

theorem server_delivers_once_message :
    ∃ t, Run ErrorServerStep ⟨noSubscriptions, .empty, 0⟩
        [.process subscribeRequest.text "" 1] t ∧
      (sent (EventCore.ofTypes ["Error"]) t.media "o" "Error").count "s" = 1 := by
  have hparse : (JsonText.ofValues [subscribeRequest]).parse subscribeRequest.text =
      some subscribeRequest := by
    simp [JsonText.ofValues]
  obtain ⟨a, t, hcall, hsub⟩ : ∃ a t, call JsonRpc.plain RpcHandler.plain
      (methodsAt JsonRpc.plain errorCore RpcHandler.plain 0) subscribeRequest
        ⟨noSubscriptions, .empty, 0⟩ = some (a, t) ∧
      TameStep JsonRpc.plain (EventCore.ofTypes ["Error"]) (noSubscriptions, 0) (subscribeEvent 0)
        (t.media, t.drawn) := ⟨_, _, rfl, rfl, fun h => by cases h⟩
  have hrun : Run ErrorServerStep ⟨noSubscriptions, .empty, 0⟩
      [.process subscribeRequest.text "" 1] t := .single (process_single hparse rfl hcall).1
  have hstanding : Standing JsonRpc.plain [subscribeEvent 0] "s" "o" "Error" (eventMedia.uuid 0) :=
    ⟨[], _, [], rfl, ⟨rfl, rfl, subscription_members _ _⟩, by simp⟩
  have hreg : (EventCore.ofTypes ["Error"]).registered t.media.media "s" "o" (eventMedia.uuid 0) =
      some ⟨0, "o", "s"⟩ := by
    cases hcall
    rfl
  refine ⟨t, hrun, ((server_delivers_once (unrelated_ofTypes _) (fresh_noSubscriptions _) hrun).2
    _ (.single hsub) ?_ _ _ _).1 ⟨_, hstanding, by rw [hreg]; rfl⟩⟩
  intro e he
  rw [List.mem_singleton.mp he]
  exact (plain_subscribeEvent (noSubscriptions, 0) 0).2

end KurentoMediaServer.Events
