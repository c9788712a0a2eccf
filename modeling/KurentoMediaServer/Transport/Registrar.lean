import KurentoMediaServer.Foundations.Run
import KurentoMediaServer.Json.Value
import Mathlib.Logic.Function.Basic

/-! `WebSocketRegistrar`: the worker that keeps a connection to the registrar and
the thread that stops it, one statement at a time. Stopping is final when `close`
finds the worker past its connect attempt or on the way out. While a client is
being made or its connect attempt is pending, `close` throws, the `io_service` is
not stopped, and the worker may still open the connection and register. -/

namespace KurentoMediaServer.Registrar

open Foundations

structure Config where
  registrarAddress : String
  localAddress : String
  localPort : ℕ
  localSecurePort : ℕ
  path : String

def Config.isSecure (cfg : Config) : Bool := "wss".toList.isPrefixOf cfg.registrarAddress.toList

def DEFAULT_WAIT_TIME : ℕ := 100

def MAX_WAIT_TIME : ℕ := 10000

inductive Link where
  | idle | pending | opened | closed
  deriving DecidableEq

/-- Where the worker is in `connectRegistrar`. Clients are numbered. -/
inductive Worker where
  | testing
  /-- In the loop, before the client is made. -/
  | creating
  | created (client : ℕ)
  /-- Between `connect` and `run`. -/
  | connected (client : ℕ)
  | running (client : ℕ)
  /-- At the test of `finished` after `run`. -/
  | ran
  | waiting
  | done
  deriving DecidableEq

/-- Where the other thread is in `stop`. -/
inductive Stopper where
  | idle
  | flagged
  /-- Past `if (secure)`. -/
  | branched (secure : Bool)
  /-- `close` has returned. -/
  | closed (secure : Bool)
  /-- Past the `try` block. -/
  | tried
  | notified
  | joined
  deriving DecidableEq

/-- The registrar with its two threads, its clients, and the messages sent. -/
structure WebSocketRegistrar where
  finished : Bool
  secure : Bool
  waitTime : ℕ
  client : Option ℕ
  secureClient : Option ℕ
  /-- Null until the first connection opens. -/
  connection : Option ℕ
  clients : ℕ
  link : ℕ → Link
  ioStopped : ℕ → Bool
  worker : Worker
  stopper : Stopper
  sent : List Json

/-- `WebSocketRegistrar::start`, which starts no thread without both addresses. -/
def start (cfg : Config) : Option WebSocketRegistrar :=
  if cfg.registrarAddress = "" ∨ cfg.localAddress = "" then none
  else some
    { finished := false, secure := false, waitTime := DEFAULT_WAIT_TIME
      client := none, secureClient := none, connection := none, clients := 0
      link := fun _ => .idle, ioStopped := fun _ => false
      worker := .testing, stopper := .idle, sent := [] }

def registerRequest (cfg : Config) : Json :=
  .obj [("jsonrpc", .str "2.0"), ("method", .str "register"), ("params", .obj [("ws", .str
    (if cfg.localSecurePort > 0 then
      "wss://" ++ cfg.localAddress ++ ":" ++ toString cfg.localSecurePort ++ "/" ++ cfg.path
    else "ws://" ++ cfg.localAddress ++ ":" ++ toString cfg.localPort ++ "/" ++ cfg.path))])]

/-- `WebSocketRegistrar::connectionOpen`; `send` may throw, which is caught. -/
def connectionOpen (cfg : Config) (hdl : ℕ) (sends : Bool) (t : WebSocketRegistrar) : WebSocketRegistrar :=
  { t with waitTime := DEFAULT_WAIT_TIME, connection := some hdl
           sent := if sends then t.sent ++ [registerRequest cfg] else t.sent }

def nextWaitTime (waitTime : ℕ) : ℕ :=
  if waitTime < MAX_WAIT_TIME / 2 then waitTime * 2 else MAX_WAIT_TIME

/-- The client `stop` works on after its test of `secure`. -/
def WebSocketRegistrar.target (t : WebSocketRegistrar) (secure : Bool) : Option ℕ :=
  if secure then t.secureClient else t.client

/-- `close (connection)` on that client does not throw: the handle is that of its
open connection. -/
def WebSocketRegistrar.Closes (t : WebSocketRegistrar) (secure : Bool) (n : ℕ) : Prop :=
  t.target secure = some n ∧ t.connection = some n ∧ t.link n = .opened

inductive Action where
  | test | create | connect | enterRun | fail | connectionOpen (sends : Bool) | remoteClose | leaveRun
  | check | wake
  | finish | branch | close | stopIo | notify | join
  deriving DecidableEq

/-- One statement of either thread, or what the remote end does to the connection
of a running client. -/
inductive Step (cfg : Config) : WebSocketRegistrar → Action → WebSocketRegistrar → Prop
  | test {t : WebSocketRegistrar} : t.worker = .testing →
      Step cfg t .test { t with worker := if t.finished then .done else .creating }
  | create {t : WebSocketRegistrar} : t.worker = .creating →
      Step cfg t .create
        { t with client := if cfg.isSecure then t.client else some t.clients
                 secureClient := if cfg.isSecure then some t.clients else t.secureClient
                 clients := t.clients + 1
                 link := Function.update t.link t.clients .idle
                 worker := .created t.clients }
  | connect {t : WebSocketRegistrar} {n : ℕ} : t.worker = .created n →
      Step cfg t .connect
        { t with secure := cfg.isSecure, link := Function.update t.link n .pending
                 worker := .connected n }
  | noConnection {t : WebSocketRegistrar} {n : ℕ} : t.worker = .created n →
      Step cfg t .connect { t with worker := .ran }
  | enterRun {t : WebSocketRegistrar} {n : ℕ} : t.worker = .connected n →
      Step cfg t .enterRun { t with worker := .running n }
  | fails {t : WebSocketRegistrar} {n : ℕ} : t.worker = .running n → t.link n = .pending →
      t.ioStopped n = false → Step cfg t .fail
        { t with link := Function.update t.link n .closed }
  | opens {t : WebSocketRegistrar} {n : ℕ} (sends : Bool) : t.worker = .running n → t.link n = .pending →
      t.ioStopped n = false → Step cfg t (.connectionOpen sends)
        (connectionOpen cfg n sends { t with link := Function.update t.link n .opened })
  | remoteClose {t : WebSocketRegistrar} {n : ℕ} : t.worker = .running n → t.link n = .opened →
      Step cfg t .remoteClose { t with link := Function.update t.link n .closed }
  | leaveRun {t : WebSocketRegistrar} {n : ℕ} : t.worker = .running n →
      t.ioStopped n = true ∨ t.link n = .closed → Step cfg t .leaveRun { t with worker := .ran }
  | check {t : WebSocketRegistrar} : t.worker = .ran →
      Step cfg t .check { t with worker := if t.finished then .done else .waiting }
  | wake {t : WebSocketRegistrar} : t.worker = .waiting →
      Step cfg t .wake { t with worker := .testing, waitTime := nextWaitTime t.waitTime }
  | finish {t : WebSocketRegistrar} : t.stopper = .idle →
      Step cfg t .finish { t with finished := true, stopper := .flagged }
  | branch {t : WebSocketRegistrar} : t.stopper = .flagged →
      Step cfg t .branch { t with stopper := .branched t.secure }
  | closes {t : WebSocketRegistrar} {b : Bool} {n : ℕ} : t.stopper = .branched b → t.Closes b n →
      Step cfg t .close { t with link := Function.update t.link n .closed, stopper := .closed b }
  | closeThrows {t : WebSocketRegistrar} {b : Bool} : t.stopper = .branched b → (∀ n, ¬ t.Closes b n) →
      Step cfg t .close { t with stopper := .tried }
  | stopIo {t : WebSocketRegistrar} {b : Bool} {n : ℕ} : t.stopper = .closed b → t.target b = some n →
      Step cfg t .stopIo { t with ioStopped := Function.update t.ioStopped n true
                                  stopper := .tried }
  | notify {t : WebSocketRegistrar} : t.stopper = .tried → Step cfg t .notify { t with stopper := .notified }
  | join {t : WebSocketRegistrar} : t.stopper = .notified → t.worker = .done →
      Step cfg t .join { t with stopper := .joined }

/-! ### Stopping -/

section Stop
variable {cfg : Config} {s t t' : WebSocketRegistrar} {a : Action}

def WebSocketRegistrar.Tried (t : WebSocketRegistrar) : Prop :=
  t.stopper = .tried ∨ t.stopper = .notified ∨ t.stopper = .joined

/-- The worker is inside `run` on a client whose connection can still open. -/
def WebSocketRegistrar.CanOpen (t : WebSocketRegistrar) : Prop :=
  ∃ n, t.worker = .running n ∧ t.link n = .pending ∧ t.ioStopped n = false

/-- The worker is neither making a client nor waiting for its connect attempt. -/
def Settled (t : WebSocketRegistrar) : Prop :=
  match t.worker with
  | .creating | .created _ | .connected _ => False
  | .running n => t.link n ≠ .pending
  | _ => True

def CloseSettled (t : WebSocketRegistrar) (a : Action) : Prop := a = .close → Settled t

theorem Settled.not_canOpen (h : Settled t) : ¬ t.CanOpen := by
  rintro ⟨n, hw, hl, -⟩
  rw [Settled, hw] at h
  exact h hl

/-- Once `finished` is set a settled worker stays settled and sends nothing. -/
theorem Step.settled (h : Step cfg t a t') (hf : t.finished = true) (hs : Settled t) :
    t'.finished = true ∧ Settled t' ∧ t'.sent = t.sent := by
  cases h with
  | test | check | wake | leaveRun => simp [Settled, hf]
  | create hw | connect hw | noConnection hw | enterRun hw => simp [Settled, hw] at hs
  | fails hw hl | opens _ hw hl => simp [Settled, hw, hl] at hs
  | remoteClose hw => simp [Settled, hw, hf]
  | finish | branch | closeThrows | stopIo | notify | join => exact ⟨by simp [hf], hs, rfl⟩
  | @closes b n =>
    refine ⟨hf, ?_, rfl⟩
    revert hs
    unfold Settled
    cases hw : t.worker with
    | running m =>
      simp only [Function.update_apply]
      split_ifs <;> simp
    | _ => simp

theorem run_settled {es : List Action} (h : Run (Step cfg) t es t') (hf : t.finished = true)
    (hs : Settled t) : t'.sent = t.sent ∧ ¬ t'.CanOpen := by
  have hinv : t'.finished = true ∧ Settled t' ∧ t'.sent = t.sent :=
    h.invariant (motive := fun u => u.finished = true ∧ Settled u ∧ u.sent = t.sent)
      (fun u a v hu hstep => by
        obtain ⟨h1, h2, h3⟩ := hstep.settled hu.1 hu.2.1
        exact ⟨h1, h2, h3.trans hu.2.2⟩) ⟨hf, hs, rfl⟩
  exact ⟨hinv.2.2, hinv.2.1.not_canOpen⟩

/-! ### A worker caught in a connect attempt -/

/-- What holds of every state reached: `finished` is set once `stop` is under way,
no `io_service` is stopped before `close` has returned, and a client handed to
`run` has its attempt pending. -/
structure Sound (t : WebSocketRegistrar) : Prop where
  finished : t.stopper ≠ .idle → t.finished = true
  io : t.stopper = .idle ∨ t.stopper = .flagged ∨ (∃ b, t.stopper = .branched b) →
    ∀ n, t.ioStopped n = false
  pending : ∀ n, t.worker = .connected n → t.link n = .pending

theorem Step.sound (h : Step cfg t a t') (ht : Sound t) : Sound t' := by
  obtain ⟨hf, hio, hp⟩ := ht
  cases h with
  | test hw | check hw => exact ⟨hf, hio, by dsimp only; split_ifs <;> simp⟩
  | create hw | noConnection hw | enterRun hw | leaveRun hw | wake hw => exact ⟨hf, hio, by simp⟩
  | connect hw => exact ⟨hf, hio, fun m hm => by cases hm; simp⟩
  | fails hw | remoteClose hw | opens _ hw => exact ⟨hf, hio, by simp [connectionOpen, hw]⟩
  | finish hs => exact ⟨fun _ => rfl, fun _ => hio (Or.inl hs), hp⟩
  | branch hs => exact ⟨fun _ => hf (by simp [hs]), fun _ => hio (by simp [hs]), hp⟩
  | closeThrows hs => exact ⟨fun _ => hf (by simp [hs]), by simp, hp⟩
  | stopIo hs | notify hs | join hs => exact ⟨fun _ => hf (by simp [hs]), by simp, hp⟩
  | closes hs hc =>
    refine ⟨fun _ => hf (by simp [hs]), by simp, fun m hm => ?_⟩
    have hpm := hp m hm
    have hne : m ≠ _ := fun h => by rw [h, hc.2.2] at hpm; cases hpm
    exact (Function.update_of_ne hne ..).trans hpm

theorem sound_start (h : start cfg = some t) : Sound t := by
  unfold start at h
  split_ifs at h
  obtain rfl := Option.some.inj h
  exact ⟨by simp, by simp, by simp⟩

/-- From `t` a register message can still be sent. -/
def CanRegister (cfg : Config) (t : WebSocketRegistrar) : Prop :=
  ∃ es u, Run (Step cfg) t es u ∧ u.sent = t.sent ++ [registerRequest cfg]

theorem canRegister_of_step (h : Step cfg t a t') (hs : t'.sent = t.sent)
    (hc : CanRegister cfg t') : CanRegister cfg t := by
  obtain ⟨es, u, hr, hu⟩ := hc
  exact ⟨[a] ++ es, u, (Run.single h).append hr, hs ▸ hu⟩

theorem canRegister_of_running {n : ℕ} (hw : t.worker = .running n) (hl : t.link n = .pending)
    (hio : t.ioStopped n = false) : CanRegister cfg t :=
  ⟨_, _, .single (.opens true hw hl hio), rfl⟩

theorem canRegister_of_connected {n : ℕ} (hw : t.worker = .connected n) (hl : t.link n = .pending)
    (hio : t.ioStopped n = false) : CanRegister cfg t :=
  canRegister_of_step (.enterRun hw) rfl (canRegister_of_running rfl hl hio)

theorem canRegister_of_created {n : ℕ} (hw : t.worker = .created n) (hio : t.ioStopped n = false) :
    CanRegister cfg t :=
  canRegister_of_step (.connect hw) rfl
    (canRegister_of_connected rfl (Function.update_self ..) hio)

theorem canRegister_of_creating (hw : t.worker = .creating) (hio : ∀ n, t.ioStopped n = false) :
    CanRegister cfg t :=
  canRegister_of_step (.create hw) rfl (canRegister_of_created rfl (hio _))

/-- A worker that is not settled can register as long as no `io_service` is
stopped. -/
theorem canRegister_of_not_settled (hio : ∀ n, t.ioStopped n = false)
    (hp : ∀ n, t.worker = .connected n → t.link n = .pending) (hs : ¬ Settled t) :
    CanRegister cfg t := by
  unfold Settled at hs
  split at hs
  · next hw => exact canRegister_of_creating hw hio
  · next n hw => exact canRegister_of_created hw (hio n)
  · next n hw => exact canRegister_of_connected hw (hp n hw) (hio n)
  · next n hw => exact canRegister_of_running hw (not_not.mp hs) (hio n)
  · exact absurd trivial hs

/-- `close` stops no `io_service` and touches no client whose attempt is pending. -/
theorem Step.close_not_settled (h : Step cfg t .close t') (ht : Sound t) (hs : ¬ Settled t) :
    CanRegister cfg t' := by
  cases h with
  | closeThrows hb => exact canRegister_of_not_settled (ht.io (by simp [hb])) ht.pending hs
  | @closes b n hb hc =>
    have hne : ∀ m, t.link m = .pending → m ≠ n := fun m hm h => by
      rw [h, hc.2.2] at hm; cases hm
    refine canRegister_of_not_settled (ht.io (by simp [hb])) (fun m hm => ?_) fun hs' => hs ?_
    · exact (Function.update_of_ne (hne m (ht.pending m hm)) ..).trans (ht.pending m hm)
    · unfold Settled at hs' ⊢
      cases hw : t.worker with
      | running m =>
        simp only [hw] at hs' ⊢
        intro hm
        rw [Function.update_of_ne (hne m hm)] at hs'
        exact hs' hm
      | _ => simp_all

def WebSocketRegistrar.Swept (t : WebSocketRegistrar) : Prop :=
  (∃ b, t.stopper = .closed b) ∨ t.Tried

theorem Step.swept (h : Step cfg t a t') (hw : t'.Swept) :
    (t.Swept ∨ a = .close) ∧ t.stopper ≠ .idle := by
  cases h with
  | finish | branch => simp [WebSocketRegistrar.Swept, WebSocketRegistrar.Tried] at hw
  | closes hb | closeThrows hb => simp [hb]
  | stopIo hb | notify hb | join hb =>
    simp [WebSocketRegistrar.Swept, WebSocketRegistrar.Tried, hb]
  | _ =>
    refine ⟨Or.inl hw, fun hi => ?_⟩
    simp [WebSocketRegistrar.Swept, WebSocketRegistrar.Tried, connectionOpen, hi] at hw

/-- When every `close` of a run finds a settled worker, no register message is sent
once `stop` is past its `try` block, and the worker is not in `run` on a client
that can still connect. The `close` of `stop` has this effect exactly when it
finds the worker settled. -/
theorem stop_final (h₀ : start cfg = some s) {es : List Action}
    (hrun : Run (Guarded CloseSettled (Step cfg)) s es t) :
    (t.Tried → ∀ fs u, Run (Step cfg) t fs u → u.sent = t.sent ∧ ¬ u.CanOpen) ∧
    ∀ u, Step cfg t .close u →
      (Settled t ↔ ∀ fs v, Run (Step cfg) u fs v → v.sent = u.sent ∧ ¬ v.CanOpen) := by
  have hinv : Sound t ∧ (t.Swept → Settled t) :=
    hrun.invariant (motive := fun t => Sound t ∧ (t.Swept → Settled t))
      (fun t a t' ht hstep => ⟨hstep.2.sound ht.1, fun hw => by
        obtain ⟨hswept, hidle⟩ := hstep.2.swept hw
        exact (hstep.2.settled (ht.1.finished hidle) (hswept.elim ht.2 hstep.1)).2.1⟩)
      ⟨sound_start h₀, fun hw => by
        unfold start at h₀
        split_ifs at h₀
        obtain rfl := Option.some.inj h₀
        simp [WebSocketRegistrar.Swept, WebSocketRegistrar.Tried] at hw⟩
  obtain ⟨hsound, hswept⟩ := hinv
  refine ⟨fun htried fs u hr => ?_, fun u hclose => ⟨fun hs fs v hr => ?_, fun hall => ?_⟩⟩
  · have hn : t.stopper ≠ .idle := by rcases htried with h | h | h <;> simp [h]
    exact run_settled hr (hsound.finished hn) (hswept (Or.inr htried))
  · have hf : t.finished = true := by
      cases hclose with
      | closes hb => exact hsound.finished (by simp [hb])
      | closeThrows hb => exact hsound.finished (by simp [hb])
    obtain ⟨hf', hs', -⟩ := hclose.settled hf hs
    exact run_settled hr hf' hs'
  · by_contra hs
    obtain ⟨fs, v, hr, hv⟩ := hclose.close_not_settled hsound hs
    simp [(hall fs v hr).1] at hv

end Stop

/-! ### Stopping before the first connection -/

def localRegistrar : Config := ⟨"ws://localhost", "localhost", 8888, 0, "kurento"⟩

/-- The stop finds a connection that has opened: it closes it and stops its `io_service`,
and the one message sent stays the only one. -/
theorem stop_final_opened :
    ∃ s t, start localRegistrar = some s ∧
      Run (Guarded CloseSettled (Step localRegistrar)) s [.test, .create, .connect, .enterRun,
        .connectionOpen true, .finish, .branch, .close, .stopIo] t ∧ t.Tried ∧
      t.sent = [registerRequest localRegistrar] ∧ t.link 0 = .closed ∧ t.ioStopped 0 = true ∧
      ∀ fs u, Run (Step localRegistrar) t fs u → u.sent = t.sent ∧ ¬ u.CanOpen := by
  have hrun : ∃ s t, start localRegistrar = some s ∧
      Run (Guarded CloseSettled (Step localRegistrar)) s [.test, .create, .connect, .enterRun,
        .connectionOpen true, .finish, .branch, .close, .stopIo] t ∧ t.Tried ∧
      t.sent = [registerRequest localRegistrar] ∧ t.link 0 = .closed ∧ t.ioStopped 0 = true := by
    refine ⟨_, _, rfl, ((((((((Run.single ⟨nofun, .test rfl⟩).snoc ⟨nofun, .create rfl⟩).snoc
      ⟨nofun, .connect rfl⟩).snoc ⟨nofun, .enterRun rfl⟩).snoc
      ⟨nofun, .opens true rfl rfl rfl⟩).snoc ⟨nofun, .finish rfl⟩).snoc ⟨nofun, .branch rfl⟩).snoc
      ⟨fun _ => ?_, .closes rfl ⟨rfl, rfl, rfl⟩⟩).snoc ⟨nofun, .stopIo rfl rfl⟩, Or.inl rfl, rfl, rfl, rfl⟩
    exact (by decide : Link.opened ≠ Link.pending)
  obtain ⟨s, t, h₀, hrun, ht, hsent, hlink, hio⟩ := hrun
  exact ⟨s, t, h₀, hrun, ht, hsent, hlink, hio, (stop_final h₀ hrun).1 ht⟩

/-- The stop comes while the first connect attempt is pending: `close` throws, the
attempt succeeds, and the registrar registers. -/
theorem stop_not_final :
    ∃ s t, start localRegistrar = some s ∧
      Run (Step localRegistrar) s
        [.test, .create, .connect, .enterRun, .finish, .branch, .close] t ∧ t.Tried ∧
      t.CanOpen ∧ ∃ u, Run (Step localRegistrar) t [.connectionOpen true] u ∧
        t.sent.length < u.sent.length := by
  refine ⟨_, _, rfl, ((((((Run.single (.test rfl)).snoc (.create rfl)).snoc (.connect rfl)).snoc
    (.enterRun rfl)).snoc (.finish rfl)).snoc (.branch rfl)).snoc
    (.closeThrows rfl fun _ h => nomatch h.2.1), Or.inl rfl, ⟨0, rfl, rfl, rfl⟩, _,
    .single (.opens true rfl rfl rfl), by simp [connectionOpen]⟩

end KurentoMediaServer.Registrar
