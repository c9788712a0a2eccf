import KurentoMediaServer.Foundations.Follows
import KurentoMediaServer.Methods.Frame

/-! What the requests of a server do to its media state, through `handler.process`: a
preorder that the operations of kms-core keep to is kept to by every method, by
transactions of any depth, by batches and by `process`, whatever is thrown on the way. -/

namespace KurentoMediaServer.Methods

open Foundations Cache

variable {σ : Type}

/-- The operations of kms-core move the media state, and a draw of a UUID the supply,
along `R`. The methods about events are taken as a whole. -/
structure Core.Follows (rpc : JsonRpc) (core : Core σ) (R : σ × ℕ → σ × ℕ → Prop) : Prop where
  draw : ∀ st n, R (st, n) (st, n + 1)
  getMediaObject : ∀ s o st n, R (st, n) ((core.getMediaObject s o st).2, n)
  keepAliveSession : ∀ s st n, R (st, n) ((core.keepAliveSession s st).2, n)
  release : ∀ o st n, R (st, n) ((core.release o st).2, n)
  ref : ∀ s o st n, R (st, n) ((core.ref s o st).2, n)
  unref : ∀ s o st n, R (st, n) ((core.unref s o st).2, n)
  releaseSession : ∀ s st n, R (st, n) ((core.releaseSession s st).2, n)
  unrefSession : ∀ s st n, R (st, n) ((core.unrefSession s st).2, n)
  invoke : ∀ obj op p st n, R (st, n) ((core.invoke obj op p st).2, n)
  getFactory : ∀ t st n, R (st, n) ((core.getFactory t st).2, n)
  checkResources : ∀ st n, R (st, n) ((core.checkResources st).2, n)
  createObject : ∀ f s p st n, R (st, n) ((core.createObject f s p st).2, n)
  subscribe : ∀ params, Supply.Follows R (Methods.subscribe rpc core params)
  unsubscribe : ∀ params, Supply.Follows R (Methods.unsubscribe rpc core params)

section Methods
variable {rpc : JsonRpc} {core : Core σ} {R : σ × ℕ → σ × ℕ → Prop} [IsPreorder (σ × ℕ) R]

theorem follows_catchKurento {α : Type} {m : Body σ α} (h : Supply.Follows R m) :
    Supply.Follows R (catchKurento m) :=
  Supply.follows_tryCatch h fun e => by cases e <;> exact Supply.follows_throw _

/-- A call of kms-core whose exceptions are given to the client. -/
theorem follows_catchKurento_onState {α : Type} {f : σ → Except Exc α × σ}
    (h : ∀ st n, R (st, n) ((f st).2, n)) :
    Supply.Follows R (catchKurento (Supply.onState f)) :=
  follows_catchKurento (Supply.follows_onState h)

namespace Core.Follows
variable (h : core.Follows rpc R) (params : Json)
include h

theorem generateUUID : Supply.Follows R (generateUUID core) :=
  Supply.follows_bind (Supply.follows_draw h.draw) fun _ => Supply.follows_pure _

theorem getOrCreateSessionId : Supply.Follows R (getOrCreateSessionId rpc core params) := by
  unfold Methods.getOrCreateSessionId
  split
  · exact Supply.follows_pure _
  · exact Supply.follows_bind h.generateUUID fun _ => Supply.follows_pure _
  · exact Supply.follows_throw _

theorem describe : Supply.Follows R (describe rpc core params) := by
  refine Supply.follows_bind (Supply.follows_lift _) fun _ => ?_
  refine Supply.follows_bind (h.getOrCreateSessionId params) fun s => ?_
  refine Supply.follows_bind (Supply.follows_lift _) fun objectId => ?_
  refine Supply.follows_bind
    (follows_catchKurento_onState (h.getMediaObject s.1 objectId)) fun obj => ?_
  exact Supply.follows_bind (Supply.follows_lift _) fun _ => Supply.follows_pure _

theorem keepAlive : Supply.Follows R (keepAlive rpc core params) := by
  refine Supply.follows_bind (Supply.follows_lift _) fun _ => ?_
  refine Supply.follows_bind (Supply.follows_lift _) fun sessionId => ?_
  exact Supply.follows_bind (follows_catchKurento_onState (h.keepAliveSession sessionId))
    fun _ => Supply.follows_pure _

theorem releaseMethod : Supply.Follows R (Methods.release rpc core params) := by
  refine Supply.follows_bind (Supply.follows_lift _) fun _ => ?_
  refine Supply.follows_bind (Supply.follows_lift _) fun objectId => ?_
  refine Supply.follows_bind (h.getOrCreateSessionId params) fun s => ?_
  exact Supply.follows_bind (follows_catchKurento_onState (h.release objectId))
    fun _ => Supply.follows_pure _

omit h in
theorem refOrUnref {act : String → String → σ → Except Exc Unit × σ}
    (hact : ∀ s o st n, R (st, n) ((act s o st).2, n)) :
    Supply.Follows R (refOrUnref rpc act params) := by
  refine Supply.follows_bind (Supply.follows_lift _) fun _ => ?_
  refine Supply.follows_bind (Supply.follows_lift _) fun objectId => ?_
  refine Supply.follows_bind (Supply.follows_lift _) fun sessionId => ?_
  exact Supply.follows_bind (follows_catchKurento_onState (hact sessionId objectId))
    fun _ => Supply.follows_pure _

theorem invokeMethod : Supply.Follows R (Methods.invoke rpc core params) := by
  refine Supply.follows_bind (Supply.follows_lift _) fun _ => ?_
  refine Supply.follows_bind (Supply.follows_lift _) fun operation => ?_
  refine Supply.follows_bind (Supply.follows_lift _) fun objectId => ?_
  refine Supply.follows_bind (Supply.follows_lift _) fun operationParams => ?_
  refine Supply.follows_bind (h.getOrCreateSessionId params) fun s => ?_
  refine Supply.follows_bind (follows_catchKurento ?_) fun _ => Supply.follows_pure _
  refine Supply.follows_bind (Supply.follows_onState (h.getMediaObject s.1 objectId)) fun obj => ?_
  cases obj with
  | none => exact Supply.follows_throw _
  | some obj => exact Supply.follows_onState (h.invoke obj operation operationParams)

theorem connect : Supply.Follows R (connect rpc core params) := by
  refine Supply.follows_bind ?_ fun _ => Supply.follows_pure _
  unfold connectSession
  split_ifs
  · exact h.generateUUID
  · refine Supply.follows_bind (h.getOrCreateSessionId params) fun s => ?_
    dsimp only
    split_ifs
    · exact Supply.follows_bind (follows_catchKurento_onState (h.keepAliveSession s.1))
        fun _ => Supply.follows_pure _
    · exact Supply.follows_bind (Supply.follows_pure _) fun _ => Supply.follows_pure _

theorem create : Supply.Follows R (create rpc core params) := by
  refine Supply.follows_bind (Supply.follows_lift _) fun _ => ?_
  refine Supply.follows_bind (Supply.follows_lift _) fun type => ?_
  refine Supply.follows_bind (h.getOrCreateSessionId params) fun s => ?_
  refine Supply.follows_bind (follows_catchKurento ?_) fun _ => Supply.follows_pure _
  refine Supply.follows_bind (Supply.follows_onState (h.getFactory type)) fun factory => ?_
  refine Supply.follows_bind (Supply.follows_onState h.checkResources) fun _ => ?_
  refine Supply.follows_bind (Supply.follows_lift _) fun constructorParams => ?_
  exact Supply.follows_onState (h.createObject factory s.1 constructorParams)

theorem closeSession : Supply.Follows R (closeSession rpc core params) := by
  refine Supply.follows_bind (Supply.follows_lift _) fun _ => ?_
  refine Supply.follows_bind (Supply.follows_lift _) fun release => ?_
  refine Supply.follows_bind (Supply.follows_lift _) fun sessionId => ?_
  split_ifs
  · exact Supply.follows_bind (Supply.follows_onState (h.releaseSession sessionId))
      fun _ => Supply.follows_pure _
  · exact Supply.follows_bind (Supply.follows_onState (h.unrefSession sessionId))
      fun _ => Supply.follows_pure _

/-- Every method. -/
theorem method {name : String} {m : Json → Body σ Json} (hm : method rpc core name = some m) :
    Supply.Follows R (m params) := by
  unfold Methods.method at hm
  split at hm <;> cases hm
  · exact h.connect params
  · exact h.create params
  · exact h.invokeMethod params
  · exact h.subscribe params
  · exact h.unsubscribe params
  · exact h.releaseMethod params
  · exact refOrUnref params h.ref
  · exact refOrUnref params h.unref
  · exact h.keepAlive params
  · exact h.describe params
  · exact Supply.follows_lift _
  · exact h.closeSession params

end Core.Follows

end Methods

/-! ### Whole requests -/

/-- From one server to the other the media state and the supply have moved along `R`. -/
def Moved (R : σ × ℕ → σ × ℕ → Prop) (st t : Server σ) : Prop :=
  R (st.media, st.drawn) (t.media, t.drawn)

/-- Whatever request it is given, the handler moves the server along `R`. -/
def HandlerMoves (R : σ × ℕ → σ × ℕ → Prop)
    (handler : Json → Server σ → Option ((Bool × Json) × Server σ)) : Prop :=
  ∀ request st r t, handler request st = some (r, t) → Moved R st t

/-- The same for methods. -/
def MethodsMove (R : σ × ℕ → σ × ℕ → Prop) (methods : String → MethodRun σ) : Prop :=
  ∀ name params st result t, methods name params st = some (result, t) → Moved R st t

section Requests
variable {rpc : JsonRpc} {core : Core σ} {jsonrpc : RpcHandler} {R : σ × ℕ → σ × ℕ → Prop}
  [IsPreorder (σ × ℕ) R] {st t u : Server σ}

theorem Moved.refl (st : Server σ) : Moved R st st := refl_of R _

theorem Moved.trans (h : Moved R st t) (g : Moved R t u) : Moved R st u := trans_of R h g

theorem Core.Follows.draws (h : core.Follows rpc R) (media : σ) {n k : ℕ} (hle : n ≤ k) :
    R (media, n) (media, k) := by
  induction hle with
  | refl => exact refl_of R _
  | step _ ih => exact trans_of R ih (h.draw media _)

theorem transactionLoop_moves {handler : Json → Server σ → Option ((Bool × Json) × Server σ)}
    (hh : HandlerMoves R handler) {uniqueId sessionId : String} {i : ℕ} {operations : List Json}
    {responses : Json} {result : Except Exc Json}
    (hr : transactionLoop rpc handler uniqueId sessionId i operations responses st =
      some (result, t)) : Moved R st t := by
  induction operations generalizing i responses st with
  | nil => cases hr; exact .refl _
  | cons operation rest ih =>
    simp only [transactionLoop] at hr
    split at hr
    · cases hr; exact .refl _
    · split at hr
      · cases hr
      · next ret response v hv =>
        have hstep := hh _ _ _ _ hv
        split at hr
        · cases hr; exact hstep
        · split_ifs at hr
          · exact hstep.trans (ih hr)
          · cases hr; exact hstep

theorem transaction_moves (h : core.Follows rpc R)
    {handler : Json → Server σ → Option ((Bool × Json) × Server σ)} (hh : HandlerMoves R handler)
    {params : Json} {result : Except Exc Json}
    (hr : transaction rpc core handler params st = some (result, t)) : Moved R st t := by
  unfold transaction transactionOver at hr
  dsimp only at hr
  rcases hp : transactionParams rpc core params st.media (st.drawn + 1) with ⟨x, media, k⟩
  obtain ⟨rfl, hle⟩ := transactionParams_eq hp
  have hfirst : Moved R st { st with drawn := k } := h.draws _ (Nat.le_of_succ_le hle)
  rw [hp] at hr
  cases x with
  | error e => cases hr; exact hfirst
  | ok x =>
    dsimp only at hr
    split at hr
    · cases hr
    · next hl => cases hr; exact hfirst.trans (transactionLoop_moves hh hl)
    · next hl => cases hr; exact hfirst.trans (transactionLoop_moves hh hl)

theorem dispatch_moves (h : core.Follows rpc R)
    {handler : Json → Server σ → Option ((Bool × Json) × Server σ)} (hh : HandlerMoves R handler) :
    MethodsMove R (dispatch rpc core handler) := by
  intro name params st result t hr
  unfold dispatch at hr
  split_ifs at hr
  · exact transaction_moves h hh hr
  · split at hr
    · next m hm =>
      cases hr
      exact h.method params hm st.media st.drawn
    · cases hr
      exact .refl _

/-- The cache is all that `postProcess` changes. -/
theorem finish_media {request : Json} {answer r : Bool × Json}
    (hf : finish rpc jsonrpc request answer st = (r, t)) :
    t.media = st.media ∧ t.drawn = st.drawn := by
  unfold finish at hf
  split at hf <;> cases hf <;> exact ⟨rfl, rfl⟩

theorem call_moves {methods : String → MethodRun σ} (hm : MethodsMove R methods) {request : Json}
    {r : Bool × Json} (hr : call rpc jsonrpc methods request st = some (r, t)) : Moved R st t := by
  rcases call_cases hr with ⟨rfl, -⟩ | ⟨rfl, -⟩ | ⟨-, -, result, u, hu, hf⟩
  · exact .refl _
  · exact .refl _
  · obtain ⟨hmedia, hdrawn⟩ := finish_media hf
    have hstep := hm _ _ _ _ _ hu
    rwa [Moved, ← hmedia, ← hdrawn] at hstep

theorem callAll_moves {methods : String → MethodRun σ} (hm : MethodsMove R methods)
    {requests : List Json} {rs : List (Bool × Json)}
    (hr : callAll rpc jsonrpc methods requests st = some (rs, t)) : Moved R st t := by
  induction requests generalizing st rs with
  | nil => cases hr; exact .refl _
  | cons request rest ih =>
    simp only [callAll] at hr
    split at hr
    · cases hr
    · next r u hu =>
      obtain ⟨⟨rs', t'⟩, hrest, he⟩ := Option.map_eq_some_iff.mp hr
      cases he
      exact (call_moves hm hu).trans (ih hrest)

/-- A request or a batch, with transactions nested in any way. -/
theorem handlerProcess_moves (h : core.Follows rpc R) (depth : ℕ) :
    HandlerMoves R (handlerProcess rpc core jsonrpc depth) := by
  induction depth with
  | zero => intro request st r t hr; cases hr
  | succ depth ih =>
    intro request st r t hr
    have hm := dispatch_moves h ih
    cases request with
    | arr requests =>
      obtain ⟨⟨rs, u⟩, hc, he⟩ := Option.map_eq_some_iff.mp hr
      cases he
      exact callAll_moves hm hc
    | _ => exact call_moves hm hr

/-- A message, whether or not it is a request. -/
theorem process_moves (h : core.Follows rpc R) {text : JsonText} {depth : ℕ}
    {payload sessionId : String} {x : Except Exc (String × String)}
    (hr : process rpc text (handlerProcess rpc core jsonrpc depth) payload sessionId st =
      some (x, t)) : Moved R st t := by
  rcases process_eq_some rpc hr with rfl | ⟨req, r, -, -, hreq⟩
  · exact .refl _
  · exact handlerProcess_moves h depth _ _ _ _ hreq

end Requests

end KurentoMediaServer.Methods
