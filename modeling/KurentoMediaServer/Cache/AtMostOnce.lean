import KurentoMediaServer.Foundations.Run
import KurentoMediaServer.Methods.Oblivious

/-! One request sent several times, handled by workers that interleave. Handling it is
four steps: the look-up of `preProcess`, the method, the look-up of `postProcess` and
`addResponse`; the cache is locked in each and free in between. The request is run at
most once as long as no look-up is made while another worker is between its own and the
end of `postProcess`. -/

namespace KurentoMediaServer.Cache

open Foundations Methods

inductive Phase where
  | idle
  /-- `preProcess` has found nothing. -/
  | running
  /-- The method has run. -/
  | answered (answer : Bool × Json)
  /-- `postProcess` has found nothing under the key. -/
  | storing (key : String × String) (answer : Bool × Json)
  | done (answer : Bool × Json)

structure Workers (σ T : Type) where
  server : Server σ
  phase : T → Phase
  executed : ℕ

/-- Between a look-up that has failed and the end of `postProcess`. -/
def Phase.InFlight : Phase → Prop
  | .idle | .done _ => False
  | _ => True

instance (p : Phase) : Decidable p.InFlight :=
  match p with
  | .idle | .done _ => .isFalse id
  | .running | .answered _ | .storing _ _ => .isTrue trivial

def Phase.Ran : Phase → Prop
  | .answered _ | .storing _ _ => True
  | _ => False

variable {σ T : Type} [DecidableEq T] (rpc : JsonRpc) (core : Core σ) (jsonrpc : RpcHandler)
  (methods : String → MethodRun σ) (request : T → Json)

def Workers.moveTo (w : Workers σ T) (i : T) (p : Phase) : Workers σ T :=
  { w with phase := Function.update w.phase i p }

def advance (i : T) (w : Workers σ T) : Option (Workers σ T) :=
  match w.phase i with
  | .idle =>
    match preProcess rpc w.server.cache (request i) with
    | some response => some (w.moveTo i (.done (jsonrpc.cachedRet response, response)))
    | none => some (w.moveTo i .running)
  | .running =>
    (methods ((rpc.text? (request i) "method").getD "") (paramsOf (request i)) w.server).map fun r =>
      { w.moveTo i (.answered (respond jsonrpc (request i) r.1)) with
        server := r.2, executed := w.executed + 1 }
  | .answered answer =>
    match postKey rpc (request i) answer.2 with
    | .error (.call _) => some (w.moveTo i (.done answer))
    | .error e => some (w.moveTo i (.done (false, jsonrpc.failure (request i) e)))
    | .ok key =>
      match w.server.cache.getCachedResponse key.1 key.2 with
      | some _ => some (w.moveTo i (.done answer))
      | none => some (w.moveTo i (.storing key answer))
  | .storing key answer =>
    some { w.moveTo i (.done answer) with
      server := { w.server with cache := w.server.cache.addResponse key.1 key.2 answer.2 } }
  | .done _ => none

def Step (w : Workers σ T) (i : T) (w' : Workers σ T) : Prop :=
  advance rpc jsonrpc methods request i w = some w'

@[simp] theorem moveTo_phase (w : Workers σ T) (i j : T) (p : Phase) :
    (w.moveTo i p).phase j = if j = i then p else w.phase j := Function.update_apply ..

@[simp] theorem moveTo_server (w : Workers σ T) (i : T) (p : Phase) :
    (w.moveTo i p).server = w.server := rfl

/-- The steps of one worker, taken in a row, are those of the handler. -/
theorem call_run {i : T} {w : Workers σ T} {answer : Bool × Json} {t : Server σ}
    (hp : jsonrpc.checkProtocol (request i) = none) (hi : w.phase i = .idle)
    (hc : call rpc jsonrpc methods (request i) w.server = some (answer, t)) :
    ∃ hist w', (∀ j ∈ hist, j = i) ∧ Run (Step rpc jsonrpc methods request) w hist w' ∧
      w'.phase i = .done answer ∧ w'.server = t := by
  simp only [call, hp] at hc
  cases hpre : preProcess rpc w.server.cache (request i) with
  | some response =>
    simp only [hpre, Option.some.injEq, Prod.mk.injEq] at hc
    obtain ⟨rfl, rfl⟩ := hc
    have hs : Step rpc jsonrpc methods request w i
        (w.moveTo i (.done (jsonrpc.cachedRet response, response))) := by
      simp [Step, advance, hi, hpre]
    exact ⟨[i], _, by simp, .single hs, by simp, rfl⟩
  | none =>
    simp only [hpre, Option.map_eq_some_iff] at hc
    obtain ⟨⟨result, u⟩, hm, hf⟩ := hc
    have h1 : Step rpc jsonrpc methods request w i (w.moveTo i .running) := by
      simp [Step, advance, hi, hpre]
    obtain ⟨w₂, h2, hphase, hserver⟩ : ∃ w₂, Step rpc jsonrpc methods request (w.moveTo i .running) i
        w₂ ∧ w₂.phase i = .answered (respond jsonrpc (request i) result) ∧ w₂.server = u :=
      ⟨_, by simp only [Step, advance, moveTo_phase, moveTo_server, hm]; rfl, by simp, rfl⟩
    have hrun := (Run.single h1).snoc h2
    have hlast (hs : Step rpc jsonrpc methods request w₂ i (w₂.moveTo i (.done answer)))
        (ht : w₂.server = t) : ∃ hist w', (∀ j ∈ hist, j = i) ∧
          Run (Step rpc jsonrpc methods request) w hist w' ∧ w'.phase i = .done answer ∧
          w'.server = t := ⟨_, _, by simp, hrun.snoc hs, by simp, ht⟩
    unfold finish postProcess at hf
    rcases hk : postKey rpc (request i) (respond jsonrpc (request i) result).2 with e | ⟨s, r⟩
    · cases e <;>
        · rw [hk] at hf
          cases hf
          exact hlast (by simp [Step, advance, hphase, hk]) hserver
    · rw [hk] at hf
      dsimp only at hf
      cases hcached : u.cache.getCachedResponse s r with
      | some v =>
        rw [hcached] at hf
        cases hf
        exact hlast (by simp [Step, advance, hphase, hk, hserver, hcached]) hserver
      | none =>
        rw [hcached] at hf
        cases hf
        have h3 : Step rpc jsonrpc methods request w₂ i
            (w₂.moveTo i (.storing (s, r) (respond jsonrpc (request i) result))) := by
          simp [Step, advance, hphase, hk, hserver, hcached]
        have h4 : Step rpc jsonrpc methods request
            (w₂.moveTo i (.storing (s, r) (respond jsonrpc (request i) result))) i
            { w₂.moveTo i (.done (respond jsonrpc (request i) result)) with
              server := { u with
                cache := u.cache.addResponse s r (respond jsonrpc (request i) result).2 } } := by
          simp [Step, advance, hserver, Workers.moveTo]
        exact ⟨_, _, by simp, (hrun.snoc h3).snoc h4, by simp, rfl⟩

/-- A look-up of `preProcess` made while no request is in flight. -/
def Alone (w : Workers σ T) (i : T) : Prop := w.phase i = .idle → ∀ j, ¬ (w.phase j).InFlight

instance [Fintype T] (w : Workers σ T) (i : T) : Decidable (Alone w i) :=
  match h : w.phase i with
  | .idle => decidable_of_iff (∀ j, ¬ (w.phase j).InFlight) ⟨fun hj _ => hj, fun ha => ha h⟩
  | .running | .answered _ | .storing _ _ | .done _ => .isTrue fun hi => by rw [h] at hi; cases hi

/-- What the workers of one request promise: it has been run at most once, and every
answer sent is the response that stands in the cache. -/
structure AtMostOnce (sessionId requestId : String) (w : Workers σ T) : Prop where
  executed_le : w.executed ≤ 1
  answers : ∀ i answer, w.phase i = .done answer →
    w.server.cache.getCachedResponse sessionId requestId = some answer.2

def Phase.Fits (s r : String) (cache : RequestCache) (request : Json) : Phase → Prop
  | .idle => True
  | .running => cache.getCachedResponse s r = none
  | .answered answer =>
    cache.getCachedResponse s r = none ∧ postKey rpc request answer.2 = .ok (s, r)
  | .storing key _ => cache.getCachedResponse s r = none ∧ key = (s, r)
  | .done answer => cache.getCachedResponse s r = some answer.2

/-- The workers of a request: at most one is in flight, and has been executed once if
it is past the method. -/
structure Sound (s r : String) (w : Workers σ T) : Prop where
  external : ∀ n j, w.server.drawn ≤ n → r ≠ internalId (core.uuid n) j
  fits : ∀ i, (w.phase i).Fits rpc s r w.server.cache (request i)
  unique : ∀ i j, (w.phase i).InFlight → (w.phase j).InFlight → i = j
  executed_le : w.executed ≤ 1
  unexecuted : w.server.cache.getCachedResponse s r = none → (∀ i, ¬ (w.phase i).Ran) →
    w.executed = 0

section Sound
variable {rpc core jsonrpc request} {depth : ℕ} {s r : String} {w w' : Workers σ T} {i : T}

theorem Phase.Ran.inFlight {p : Phase} (h : p.Ran) : p.InFlight := by
  cases p <;> trivial

theorem Phase.Fits.absent {p : Phase} {cache : RequestCache} {v : Json} (h : p.Fits rpc s r cache v)
    (hp : p.InFlight) : cache.getCachedResponse s r = none := by
  cases p with
  | idle => exact hp.elim
  | running => exact h
  | answered => exact h.1
  | storing => exact h.1
  | done => exact hp.elim

omit [DecidableEq T] in
theorem Sound.others_idle (h : Sound rpc core request s r w) (hi : (w.phase i).InFlight) {j : T}
    (hj : j ≠ i) : w.phase j = .idle := by
  have hfits := h.fits j
  have hc := (h.fits i).absent hi
  cases hp : w.phase j with
  | idle => rfl
  | done answer =>
    rw [hp, Phase.Fits, hc] at hfits
    cases hfits
  | _ => exact absurd (h.unique j i (by rw [hp]; trivial) hi) hj

theorem Sound.moves (h : Sound rpc core request s r w) (hi : (w.phase i).InFlight) {t : Server σ}
    {p : Phase} {n : ℕ} (hr : ∀ n j, t.drawn ≤ n → r ≠ internalId (core.uuid n) j)
    (hp : p.Fits rpc s r t.cache (request i)) (hn : n ≤ 1)
    (hn' : t.cache.getCachedResponse s r = none → p.Ran) :
    Sound rpc core request s r { w.moveTo i p with server := t, executed := n } where
  external := hr
  fits j := by
    by_cases hj : j = i
    · subst hj
      simpa using hp
    · simp only [moveTo_phase, hj, ↓reduceIte, h.others_idle hi hj]
      trivial
  unique j k hj hk := by
    by_contra hne
    simp only [moveTo_phase] at hj hk
    by_cases hji : j = i
    · have hki : k ≠ i := fun hki => hne (hji.trans hki.symm)
      simp [hki, h.others_idle hi hki, Phase.InFlight] at hk
    · simp [hji, h.others_idle hi hji, Phase.InFlight] at hj
  executed_le := hn
  unexecuted hnone hran := absurd (hn' hnone) (by simpa using hran i)

theorem Sound.hit (h : Sound rpc core request s r w) {answer : Bool × Json}
    (hc : w.server.cache.getCachedResponse s r = some answer.2) :
    Sound rpc core request s r (w.moveTo i (.done answer)) where
  external := h.external
  fits j := by
    have hj := h.fits j
    simp only [moveTo_phase, moveTo_server]
    split_ifs
    · exact hc
    · exact hj
  unique j k hj hk := by
    have hjk := h.unique j k
    simp only [moveTo_phase] at hj hk
    grind [Phase.InFlight]
  executed_le := h.executed_le
  unexecuted hn _ := by
    rw [moveTo_server, hc] at hn
    cases hn

theorem Sound.miss (h : Sound rpc core request s r w) (ha : ∀ j, ¬ (w.phase j).InFlight)
    (hc : w.server.cache.getCachedResponse s r = none) :
    Sound rpc core request s r (w.moveTo i .running) where
  external := h.external
  fits j := by
    have hj := h.fits j
    simp only [moveTo_phase, moveTo_server]
    split_ifs
    · exact hc
    · exact hj
  unique j k hj hk := by
    have h1 := ha j
    have h2 := ha k
    simp only [moveTo_phase] at hj hk
    grind
  executed_le := h.executed_le
  unexecuted hn _ := h.unexecuted hn fun j hj => ha j hj.inFlight

structure SameKey (rpc : JsonRpc) (request : T → Json) (s r : String) : Prop where
  id : ∀ i, rpc.text? (request i) "id" = some r
  session : ∀ i, paramsSession rpc (request i) = some s

theorem Sound.step (hreq : SameKey rpc request s r) (h : Sound rpc core request s r w)
    (hg : Alone w i) (hs : Step rpc jsonrpc
      (dispatch rpc core (handlerProcess rpc core jsonrpc depth)) request w i w') :
    Sound rpc core request s r w' := by
  have hfits := h.fits i
  unfold Step advance at hs
  split at hs
  · next hi =>
    rw [preProcess_of_key _ (hreq.id i) (hreq.session i)] at hs
    split at hs
    · next v hv =>
      cases hs
      exact h.hit hv
    · next hv =>
      cases hs
      exact h.miss (hg hi) hv
  · next hi =>
    obtain ⟨⟨result, t⟩, hm, rfl⟩ := Option.map_eq_some_iff.mp hs
    have hext : ExtendsOwn rpc core (handlerProcess rpc core jsonrpc depth) :=
      handlerProcess_extends depth
    have hx := dispatch_extends hext _ _ _ _ _ hm
    have hrep : ∀ v, result = .ok v →
        ReportsSession rpc core (paramsOf (request i)) w.server.drawn t.drawn v := fun v hv => by
      subst hv
      exact dispatch_reports hext hm
    rw [hi] at hfits
    have hin : (w.phase i).InFlight := by rw [hi]; trivial
    have hzero : w.executed = 0 := h.unexecuted hfits fun j hj => by
      obtain rfl := h.unique j i hj.inFlight hin
      rw [hi] at hj
      exact hj
    exact h.moves hin (fun n j hn => h.external n j (hx.drawn_le.trans hn))
      ⟨by rwa [RequestCache.getCachedResponse, hx.entry_eq id h.external],
        postKey_respond hrep (hreq.id i) (hreq.session i)⟩
      (by rw [hzero]) fun _ => trivial
  · next answer hi =>
    rw [hi] at hfits
    simp only [hfits.2, hfits.1, Option.some.injEq] at hs
    subst hs
    exact h.moves (by rw [hi]; trivial) h.external ⟨hfits.1, rfl⟩ h.executed_le fun _ => trivial
  · next key answer hi =>
    rw [hi] at hfits
    obtain ⟨-, rfl⟩ := hfits
    cases hs
    have hadd : (w.server.cache.addResponse s r answer.2).getCachedResponse s r = some answer.2 := by
      simp [RequestCache.getCachedResponse, RequestCache.entry_addResponse]
    exact h.moves (by rw [hi]; trivial) h.external hadd h.executed_le fun hn => by
      rw [hadd] at hn
      cases hn
  · cases hs

/-- When every look-up of `preProcess` is made while no request is in flight, the
request is run at most once and every answer is the response left in the cache. A
look-up made while one is in flight finds nothing, and the request is run again. -/
theorem at_most_once (hreq : SameKey rpc request s r)
    (hr : ∀ n j, w.server.drawn ≤ n → r ≠ internalId (core.uuid n) j)
    (hidle : ∀ i, w.phase i = .idle) (h0 : w.executed = 0) {hist : List T}
    (hrun : Run (Guarded Alone (Step rpc jsonrpc
      (dispatch rpc core (handlerProcess rpc core jsonrpc depth)) request)) w hist w') :
    AtMostOnce s r w' ∧ ∀ i j v, (w'.phase j).InFlight → w'.phase i = .idle →
      Step rpc jsonrpc (dispatch rpc core (handlerProcess rpc core jsonrpc depth)) request w' i v →
      v.phase i = .running := by
  have h : Sound rpc core request s r w' := by
    refine hrun.invariant (motive := Sound rpc core request s r)
      (fun _ _ _ h hstep => h.step hreq hstep.1 hstep.2) ?_
    exact ⟨hr, fun i => by rw [hidle i]; trivial, fun i j hi => by rw [hidle i] at hi; exact hi.elim,
      by rw [h0]; decide, fun _ _ => h0⟩
  refine ⟨⟨h.executed_le, fun i answer hi => ?_⟩, fun i j v hj hi hs => ?_⟩
  · have hfits := h.fits i
    rwa [hi] at hfits
  · have hc := (h.fits j).absent hj
    rw [← preProcess_of_key _ (hreq.id i) (hreq.session i)] at hc
    simp only [Step, advance, hi, hc, Option.some.injEq] at hs
    subst hs
    simp

end Sound

/-! ### Two workers -/

def createRequest : Json := .obj [("id", .int 1), ("jsonrpc", .str "2.0"), ("method", .str "create"),
  ("params", .obj [("sessionId", .str "s"), ("type", .str "MediaPipeline")])]

/-- Two workers with that request, before either has begun. -/
def twoWorkers : Workers ℕ Bool := ⟨⟨0, .empty, 0⟩, fun _ => .idle, 0⟩

def countingMethods : String → MethodRun ℕ :=
  dispatch JsonRpc.plain Core.counting (handlerProcess JsonRpc.plain Core.counting RpcHandler.plain 0)

/-- The second worker comes when the first is done. -/
theorem at_most_once_in_turn :
    ∃ w', Run (Guarded Alone (Step JsonRpc.plain RpcHandler.plain countingMethods
        fun _ => createRequest)) twoWorkers [false, false, false, false, true] w' ∧
      AtMostOnce "s" "1" w' := by
  have hreq : SameKey JsonRpc.plain (fun _ : Bool => createRequest) "s" "1" :=
    ⟨fun _ => rfl, fun _ => rfl⟩
  have hr : ∀ n j, twoWorkers.server.drawn ≤ n → "1" ≠ internalId (Core.counting.uuid n) j :=
    fun n j _ => toString_int_ne_internalId 1 _ j
  obtain ⟨w', hrun⟩ : ∃ w', Run (Guarded Alone (Step JsonRpc.plain RpcHandler.plain countingMethods
      fun _ => createRequest)) twoWorkers [false, false, false, false, true] w' :=
    ⟨_, Run.of_foldlM_guarded rfl⟩
  exact ⟨w', hrun, (at_most_once hreq hr (fun _ => rfl) rfl hrun).1⟩

/-- Both workers look the request up before either has stored its response: two objects
are made, and the workers answer with different ones. -/
theorem not_at_most_once :
    ∃ w', Run (Step JsonRpc.plain RpcHandler.plain countingMethods fun _ => createRequest)
        twoWorkers [false, true, false, true, false, false, true] w' ∧
      w'.executed = 2 ∧ ¬ AtMostOnce "s" "1" w' ∧
      ∃ a b, w'.phase false = .done a ∧ w'.phase true = .done b ∧ a.2 ≠ b.2 := by
  refine ⟨_, Run.of_foldlM rfl, rfl, fun h => absurd h.executed_le (by decide), _, _, rfl, rfl,
    fun h => ?_⟩
  have hvalue : some (Json.str "0") = some (.str "1") :=
    congrArg (fun v => (v.member? "result").bind (·.member? "value")) h
  simp at hvalue

end KurentoMediaServer.Cache
