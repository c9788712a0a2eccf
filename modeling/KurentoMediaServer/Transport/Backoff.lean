import KurentoMediaServer.Foundations.Backoff
import KurentoMediaServer.Foundations.Worklist
import KurentoMediaServer.Transport.Registrar

/-! How often the registrar is tried. In every run of the worker and the thread that stops
it, the wait doubles with each attempt that opens no connection, up to ten seconds. Clients
and waits alternate, no client opens a second connection, and opening one sends at most
the one register message.
Once `finished` is set, the worker takes a few steps more: it makes at most one client,
opens at most one connection and waits at most once. -/

namespace KurentoMediaServer.Registrar

open Foundations

def Action.isWake : Action → Bool
  | .wake => true
  | _ => false

def Action.isOpen : Action → Bool
  | .connectionOpen _ => true
  | _ => false

def Action.isCreate : Action → Bool
  | .create => true
  | _ => false

/-- What the worker does, and what happens to its connection. -/
def Action.isWorker : Action → Bool
  | .finish | .branch | .close | .stopIo | .notify | .join => false
  | _ => true

/-- The wait after a number of attempts without a connection. -/
def backoff (attempts : ℕ) : ℕ := min (2 ^ attempts * DEFAULT_WAIT_TIME) MAX_WAIT_TIME

theorem nextWaitTime_eq (waitTime : ℕ) : nextWaitTime waitTime = min (2 * waitTime) MAX_WAIT_TIME := by
  unfold nextWaitTime MAX_WAIT_TIME
  split_ifs <;> omega

section Backoff
variable {cfg : Config} {s t t' u : WebSocketRegistrar} {a : Action} {es fs : List Action}

/-- Only an opened connection and a wait change the wait. -/
theorem Step.waitTime (h : Step cfg t a t') : t'.waitTime =
    if a.isOpen then DEFAULT_WAIT_TIME else if a.isWake then nextWaitTime t.waitTime
    else t.waitTime := by
  cases h <;> rfl

/-- Whether the worker may make a client before it waits again. -/
def Worker.creates : Worker → ℕ
  | .testing | .creating => 1
  | _ => 0

/-- Whether the worker still has to wait before it makes another client. -/
def Worker.waits : Worker → ℕ
  | .created _ | .connected _ | .running _ | .ran | .waiting => 1
  | _ => 0

/-- Whether the client of the worker may still open its connection. -/
def WebSocketRegistrar.opens (t : WebSocketRegistrar) : ℕ :=
  match t.worker with
  | .created _ | .connected _ => 1
  | .running n => if t.link n = .pending then 1 else 0
  | _ => 0

theorem Step.clients (h : Step cfg t a t') :
    t'.clients = t.clients + if a.isCreate then 1 else 0 := by
  cases h <;> rfl

theorem Step.creates (h : Step cfg t a t') : t'.clients + t'.worker.creates ≤
    t.clients + t.worker.creates + if a.isWake then 1 else 0 := by
  cases h with
  | test hw | check hw =>
    cases t.finished <;> simp [hw, Worker.creates, Action.isWake]
  | create hw | connect hw | noConnection hw | enterRun hw | leaveRun hw | wake hw =>
    simp [hw, Worker.creates, Action.isWake]
  | opens => simp [connectionOpen, Action.isWake]
  | _ => simp [Action.isWake]

theorem Step.waits (h : Step cfg t a t') : (t'.worker.waits + if a.isWake then 1 else 0) + t.clients ≤
    t.worker.waits + t'.clients := by
  cases h with
  | test hw | check hw =>
    cases t.finished <;> simp [hw, Worker.waits, Action.isWake]
  | create hw => simp [hw, Worker.waits, Action.isWake, Nat.add_comm]
  | connect hw | noConnection hw | enterRun hw | leaveRun hw | wake hw =>
    simp [hw, Worker.waits, Action.isWake]
  | opens => simp [connectionOpen, Action.isWake]
  | _ => simp [Action.isWake]

/-- No attempt becomes pending by closing a connection. -/
theorem pending_of_closed {link : ℕ → Link} {m n : ℕ}
    (h : Function.update link n .closed m = .pending) : link m = .pending := by
  by_cases hm : m = n
  · subst hm
    simp at h
  · rwa [Function.update_of_ne hm] at h

theorem Step.opens_le (h : Step cfg t a t') :
    (t'.opens + if a.isOpen then 1 else 0) + t.clients ≤ t.opens + t'.clients := by
  cases h with
  | test hw | check hw =>
    cases t.finished <;> simp [hw, WebSocketRegistrar.opens, Action.isOpen]
  | create hw => simp [hw, WebSocketRegistrar.opens, Action.isOpen, Nat.add_comm]
  | connect hw | noConnection hw | leaveRun hw | wake hw =>
    simp [hw, WebSocketRegistrar.opens, Action.isOpen]
  | enterRun hw =>
    simp only [hw, WebSocketRegistrar.opens, Action.isOpen]
    split_ifs <;> simp_all
  | fails hw hl | remoteClose hw hl =>
    simp [hw, hl, WebSocketRegistrar.opens, Action.isOpen]
  | opens _ hw hl => simp [hw, hl, WebSocketRegistrar.opens, connectionOpen, Action.isOpen]
  | @closes b n hb hc =>
    cases hw : t.worker with
    | running m =>
      by_cases h1 : Function.update t.link n .closed m = .pending
      · simp [hw, h1, pending_of_closed h1, WebSocketRegistrar.opens, Action.isOpen]
      · simp [hw, h1, WebSocketRegistrar.opens, Action.isOpen]
    | _ => simp [hw, WebSocketRegistrar.opens, Action.isOpen]
  | _ => simp [WebSocketRegistrar.opens, Action.isOpen]

/-- Only an opened connection sends anything, and no more than the one message. -/
theorem Step.sent (h : Step cfg t a t') :
    t'.sent = t.sent ++ List.replicate ([a].count (.connectionOpen true)) (registerRequest cfg) := by
  cases h with
  | opens sends => cases sends <;> simp [connectionOpen]
  | _ => exact (List.append_nil _).symm

/-- Clients and waits alternate, and there are no more opened connections than clients. -/
structure Counted (cfg : Config) (es : List Action) (t : WebSocketRegistrar) : Prop where
  clients : t.clients = es.countP Action.isCreate
  waited : t.clients + t.worker.creates ≤ es.countP Action.isWake + 1
  made : es.countP Action.isWake + t.worker.waits ≤ t.clients
  opened : es.countP Action.isOpen + t.opens ≤ t.clients
  sent : t.sent = List.replicate (es.count (.connectionOpen true)) (registerRequest cfg)

theorem Step.counted (h : Step cfg t a t') (ht : Counted cfg es t) : Counted cfg (es ++ [a]) t' := by
  obtain ⟨hc, hw, hm, ho, hs⟩ := ht
  have hclients := h.clients
  have hcreates := h.creates
  have hwaits := h.waits
  have hopens := h.opens_le
  refine ⟨?_, ?_, ?_, ?_, ?_⟩
  · rw [List.countP_append, List.countP_singleton, ← hc, hclients]
  · rw [List.countP_append, List.countP_singleton]
    omega
  · rw [List.countP_append, List.countP_singleton]
    omega
  · rw [List.countP_append, List.countP_singleton]
    omega
  · rw [h.sent, hs, List.count_append, List.replicate_append_replicate]

theorem counted_start (h : start cfg = some t) : Counted cfg [] t := by
  unfold start at h
  split_ifs at h
  obtain rfl := Option.some.inj h
  exact ⟨rfl, le_rfl, le_rfl, le_rfl, rfl⟩

/-! ### One connection for each client -/

/-- The client the worker is busy with. -/
def Worker.client? : Worker → Option ℕ
  | .created n | .connected n | .running n => some n
  | _ => none

/-- Clients are numbered as they are made. -/
def WebSocketRegistrar.Numbered (t : WebSocketRegistrar) : Prop :=
  ∀ n, t.worker.client? = some n → n < t.clients

theorem Step.numbered (h : Step cfg t a t') (ht : t.Numbered) : t'.Numbered := by
  cases h with
  | test hw | check hw =>
    intro n
    cases t.finished <;> simp [Worker.client?]
  | create hw => simp [WebSocketRegistrar.Numbered, Worker.client?]
  | noConnection | leaveRun | wake => simp [WebSocketRegistrar.Numbered, Worker.client?]
  | connect hw | enterRun hw => simpa [WebSocketRegistrar.Numbered, Worker.client?, hw] using ht
  | _ => exact ht

/-- The client `n` has been made, and its attempt is not to be made or pending any more. -/
structure WebSocketRegistrar.Spent (t : WebSocketRegistrar) (n : ℕ) : Prop where
  made : n < t.clients
  running : t.worker.client? = some n → t.worker = .running n ∧ t.link n ≠ .pending

theorem Step.spent {n : ℕ} (h : Step cfg t a t') (ht : t.Spent n) : t'.Spent n := by
  obtain ⟨hn, hr⟩ := ht
  cases h with
  | test hw | check hw =>
    refine ⟨hn, ?_⟩
    cases t.finished <;> simp [Worker.client?]
  | create hw =>
    refine ⟨Nat.lt_succ_of_lt hn, fun h => ?_⟩
    exact absurd (Option.some.inj h) (Nat.ne_of_gt hn)
  | noConnection | leaveRun | wake => exact ⟨hn, by simp [Worker.client?]⟩
  | connect hw | enterRun hw =>
    refine ⟨hn, fun h => ?_⟩
    have hrunning := (hr ((congrArg Worker.client? hw).trans h)).1
    rw [hw] at hrunning
    cases hrunning
  | fails hw | remoteClose hw | opens _ hw =>
    refine ⟨hn, fun h => ⟨(hr h).1, ?_⟩⟩
    obtain rfl := Option.some.inj ((congrArg Worker.client? hw).symm.trans h)
    simp [connectionOpen]
  | closes =>
    exact ⟨hn, fun h => ⟨(hr h).1, fun hl => (hr h).2 (pending_of_closed hl)⟩⟩
  | _ => exact ⟨hn, hr⟩

/-- A client that opens its connection is spent, and a spent client opens none. -/
theorem Step.spent_of_open {n : ℕ} {sends : Bool} (h : Step cfg t (.connectionOpen sends) t')
    (hw : t.worker = .running n) (ht : t.Numbered) : t'.Spent n := by
  cases h with
  | opens _ hw' hl =>
    obtain rfl := Worker.running.inj (hw.symm.trans hw')
    exact ⟨ht _ (by rw [hw]; rfl), fun _ => ⟨hw, by simp [connectionOpen]⟩⟩

theorem WebSocketRegistrar.Spent.not_open {n : ℕ} {sends : Bool} (ht : t.Spent n)
    (hw : t.worker = .running n) : ¬ Step cfg t (.connectionOpen sends) t' := by
  intro h
  cases h with
  | opens _ hw' hl =>
    obtain rfl := Worker.running.inj (hw.symm.trans hw')
    exact (ht.running (by rw [hw]; rfl)).2 hl

/-- In every run, the wait is the capped power of two for the waits since the last opened
connection. Clients and waits alternate, and there are no more opened connections than
clients, for a client that opens one opens none ever after. What has been sent is the one
register message, once for each opened connection whose `send` did not throw. -/
theorem attempts_backed_off (h₀ : start cfg = some s) (hrun : Run (Step cfg) s es t) :
    t.waitTime = backoff (countSince Action.isWake Action.isOpen es) ∧
    (es.countP Action.isWake ≤ es.countP Action.isCreate ∧
      es.countP Action.isCreate ≤ es.countP Action.isWake + 1) ∧
    es.countP Action.isOpen ≤ es.countP Action.isCreate ∧
    (∀ n sends, t.worker = .running n → Step cfg t (.connectionOpen sends) u →
      ∀ fs v, Run (Step cfg) u fs v → v.worker = .running n →
        ∀ sends' w, ¬ Step cfg v (.connectionOpen sends') w) ∧
    t.sent = List.replicate (es.count (.connectionOpen true)) (registerRequest cfg) := by
  have hcount : Counted cfg es t := hrun.history_invariant
    (motive := Counted cfg) (fun _ _ _ _ ht h => h.counted ht) (counted_start h₀)
  have hs : s.waitTime = DEFAULT_WAIT_TIME ∧ s.Numbered := by
    unfold start at h₀
    split_ifs at h₀
    rw [← Option.some.inj h₀]
    exact ⟨rfl, by simp [WebSocketRegistrar.Numbered, Worker.client?]⟩
  have hnumbered : t.Numbered := hrun.invariant (motive := WebSocketRegistrar.Numbered)
    (fun _ _ _ ht h => h.numbered ht) hs.2
  obtain ⟨hc, hw, hm, ho, hsent⟩ := hcount
  refine ⟨?_, ⟨by omega, by omega⟩, by omega, fun n sends hn hopen fs v hv hvn sends' w => ?_, hsent⟩
  · rw [hrun.delay (fun _ _ _ h => h.waitTime) hs.1, backoff, ← iterate_double (by decide)]
    congr 1
    exact funext nextWaitTime_eq
  · have hspent : v.Spent n := hv.invariant (motive := fun v => v.Spent n)
      (fun _ _ _ ht h => h.spent ht) (hopen.spent_of_open hn hnumbered)
    exact hspent.not_open hvn

/-! ### After `finished` is set -/

/-- The most the worker can do until it is done, once `finished` is set. -/
def WebSocketRegistrar.remaining (t : WebSocketRegistrar) : ℕ :=
  match t.worker with
  | .creating => 7
  | .created _ => 6
  | .connected _ => 5
  | .running n => if t.link n = .pending then 4 else if t.link n = .opened then 3 else 2
  | .ran => 1
  | .waiting => 2
  | .testing => 1
  | .done => 0

theorem Step.finished (h : Step cfg t a t') (hf : t.finished = true) : t'.finished = true := by
  cases h <;> first | exact hf | rfl

theorem Step.remaining_le (h : Step cfg t a t') (hf : t.finished = true) :
    (t'.remaining + if a.isWorker then 1 else 0) ≤ t.remaining := by
  cases h with
  | test hw | check hw | create hw | connect hw | noConnection hw | wake hw =>
    simp [hw, hf, WebSocketRegistrar.remaining, Action.isWorker]
  | enterRun hw | leaveRun hw =>
    simp only [hw, WebSocketRegistrar.remaining, Action.isWorker]
    split_ifs <;> simp_all
  | fails hw hl | remoteClose hw hl | opens _ hw hl =>
    simp [hw, hl, WebSocketRegistrar.remaining, connectionOpen, Action.isWorker]
  | @closes b n hb hc =>
    cases hw : t.worker with
    | running m =>
      by_cases hm : m = n
      · subst hm
        simp [hw, hc.2.2, WebSocketRegistrar.remaining, Action.isWorker]
      · simp [hw, hm, WebSocketRegistrar.remaining, Action.isWorker]
    | _ => simp [hw, WebSocketRegistrar.remaining, Action.isWorker]
  | _ => simp [WebSocketRegistrar.remaining, Action.isWorker]

/-- A client in `run` has begun its attempt. -/
def WebSocketRegistrar.Begun (t : WebSocketRegistrar) : Prop :=
  ∀ n, t.worker = .connected n ∨ t.worker = .running n → t.link n ≠ .idle

theorem Step.begun (h : Step cfg t a t') (ht : t.Begun) : t'.Begun := by
  cases h with
  | test hw | check hw =>
    intro n
    cases t.finished <;> simp
  | create | noConnection | leaveRun | wake => simp [WebSocketRegistrar.Begun]
  | connect hw => simp [WebSocketRegistrar.Begun]
  | enterRun hw => simpa [WebSocketRegistrar.Begun] using ht _ (Or.inl hw)
  | fails hw | remoteClose hw | opens _ hw =>
    simp [WebSocketRegistrar.Begun, hw, connectionOpen]
  | closes hb hc =>
    intro n hn
    simp only [Function.update_apply]
    split_ifs
    · simp
    · exact ht n hn
  | _ => exact ht

/-- Until it is done the worker has a step to take, or the remote end has. -/
theorem WebSocketRegistrar.Begun.next (ht : t.Begun) (h : 0 < t.remaining) :
    ∃ a t', a.isWorker = true ∧ Step cfg t a t' := by
  cases hw : t.worker with
  | testing => exact ⟨_, _, rfl, .test hw⟩
  | creating => exact ⟨_, _, rfl, .create hw⟩
  | created n => exact ⟨_, _, rfl, .connect hw⟩
  | connected n => exact ⟨_, _, rfl, .enterRun hw⟩
  | ran => exact ⟨_, _, rfl, .check hw⟩
  | waiting => exact ⟨_, _, rfl, .wake hw⟩
  | done => simp [WebSocketRegistrar.remaining, hw] at h
  | running n =>
    cases hl : t.link n with
    | idle => exact absurd hl (ht n (Or.inr hw))
    | opened => exact ⟨_, _, rfl, .remoteClose hw hl⟩
    | closed => exact ⟨_, _, rfl, .leaveRun hw (Or.inr hl)⟩
    | pending =>
      cases hio : t.ioStopped n with
      | false => exact ⟨_, _, rfl, .fails hw hl hio⟩
      | true => exact ⟨_, _, rfl, .leaveRun hw (Or.inl hio)⟩

theorem WebSocketRegistrar.done_of_remaining (h : t.remaining = 0) : t.worker = .done := by
  unfold WebSocketRegistrar.remaining at h
  split at h
  case h_4 => split_ifs at h
  all_goals simp_all

/-- What the worker still makes, opens and waits for. -/
def WebSocketRegistrar.clientsLeft (t : WebSocketRegistrar) : ℕ :=
  match t.worker with
  | .creating => 1
  | _ => 0

def WebSocketRegistrar.waitsLeft (t : WebSocketRegistrar) : ℕ :=
  match t.worker with
  | .waiting => 1
  | _ => 0

theorem Step.clientsLeft_le (h : Step cfg t a t') (hf : t.finished = true) :
    (t'.clientsLeft + if a.isCreate then 1 else 0) ≤ t.clientsLeft := by
  cases h <;> simp_all [WebSocketRegistrar.clientsLeft, connectionOpen, Action.isCreate]

theorem Step.waitsLeft_le (h : Step cfg t a t') (hf : t.finished = true) :
    (t'.waitsLeft + if a.isWake then 1 else 0) ≤ t.waitsLeft := by
  cases h <;> simp_all [WebSocketRegistrar.waitsLeft, connectionOpen, Action.isWake]

theorem Step.opensLeft_le (h : Step cfg t a t') (hf : t.finished = true) :
    (t'.opens + t'.clientsLeft + if a.isOpen then 1 else 0) ≤ t.opens + t.clientsLeft := by
  have hopens := h.opens_le
  have hclients := h.clients
  have hleft := h.clientsLeft_le hf
  omega

theorem WebSocketRegistrar.left_le (t : WebSocketRegistrar) :
    t.clientsLeft ≤ 1 ∧ t.waitsLeft ≤ 1 ∧ t.opens + t.clientsLeft ≤ 1 ∧ t.remaining ≤ 7 := by
  cases hw : t.worker with
  | running n =>
    simp only [WebSocketRegistrar.clientsLeft, WebSocketRegistrar.waitsLeft, hw,
      WebSocketRegistrar.opens, WebSocketRegistrar.remaining]
    split_ifs <;> decide
  | _ => simp [WebSocketRegistrar.clientsLeft, WebSocketRegistrar.waitsLeft, hw,
      WebSocketRegistrar.opens, WebSocketRegistrar.remaining]

/-- Once `finished` is set, however the threads and the remote end interleave, the worker
makes at most one client more, opens at most one connection and waits at most once. It is
done after at most seven steps of its own and of the remote end, and at every moment it
can get there. -/
theorem ends_after_finish (h₀ : start cfg = some s) (hrun : Run (Step cfg) s es t)
    (hfinish : Step cfg t .finish u) {v : WebSocketRegistrar} (h : Run (Step cfg) u fs v) :
    fs.countP Action.isCreate ≤ 1 ∧ fs.countP Action.isOpen ≤ 1 ∧ fs.countP Action.isWake ≤ 1 ∧
    v.remaining + fs.countP Action.isWorker ≤ 7 ∧
    ∃ gs w, Run (Step cfg) v gs w ∧ (∀ a ∈ gs, Action.isWorker a = true) ∧ w.worker = .done := by
  have hbegun : t.Begun := hrun.invariant (motive := WebSocketRegistrar.Begun)
    (fun _ _ _ ht h => h.begun ht) (by
      unfold start at h₀
      split_ifs at h₀
      rw [← Option.some.inj h₀]
      simp [WebSocketRegistrar.Begun])
  have hu : u.finished = true ∧ u.Begun := ⟨by cases hfinish; rfl, hfinish.begun hbegun⟩
  have hinv (t : WebSocketRegistrar) (a t') (ht : t.finished = true ∧ t.Begun)
      (h : Step cfg t a t') : t'.finished = true ∧ t'.Begun := ⟨h.finished ht.1, h.begun ht.2⟩
  have hclients := h.countP_le WebSocketRegistrar.clientsLeft hinv
    (fun _ _ _ ht h => h.clientsLeft_le ht.1) hu
  have hwaits := h.countP_le WebSocketRegistrar.waitsLeft hinv
    (fun _ _ _ ht h => h.waitsLeft_le ht.1) hu
  have hopens := h.countP_le (fun t => t.opens + t.clientsLeft) hinv
    (fun _ _ _ ht h => h.opensLeft_le ht.1) hu
  have hremaining := h.countP_le WebSocketRegistrar.remaining hinv
    (fun _ _ _ ht h => h.remaining_le ht.1) hu
  have hleft := u.left_le
  obtain ⟨gs, w, hr, hgs, hw⟩ := Run.exists_used_up WebSocketRegistrar.remaining hinv
    (fun _ _ _ ht h => h.remaining_le ht.1) (fun _ ht h => ht.2.next h) v (h.invariant hinv hu)
  exact ⟨by omega, by omega, by omega, by omega, gs, w, hr, hgs, WebSocketRegistrar.done_of_remaining hw⟩

end Backoff

/-! ### A registrar that is not there -/

/-- An attempt that fails, and the wait after it. -/
def failedAttempt : List Action := [.test, .create, .connect, .enterRun, .fail, .leaveRun, .check, .wake]

theorem run_failedAttempt : ∃ s t, start localRegistrar = some s ∧
    Run (Step localRegistrar) s failedAttempt t ∧ t.worker = .testing ∧ t.finished = false ∧
    t.stopper = .idle := by
  refine ⟨_, _, rfl, (((((((Run.single (.test rfl)).snoc (.create rfl)).snoc (.connect rfl)).snoc
    (.enterRun rfl)).snoc (.fails rfl rfl rfl)).snoc (.leaveRun rfl (Or.inr rfl))).snoc
    (.check rfl)).snoc (.wake rfl), rfl, rfl, rfl⟩

/-- The second client opens its connection after a wait of 200 ms, and opens no other. -/
theorem attempts_backed_off_failed : ∃ s t u, start localRegistrar = some s ∧
    Run (Step localRegistrar) s (failedAttempt ++ [.test, .create, .connect, .enterRun]) t ∧
    Step localRegistrar t (.connectionOpen true) u ∧ t.waitTime = 200 ∧ t.sent = [] ∧
    ∀ fs v, Run (Step localRegistrar) u fs v → v.worker = .running 1 →
      ∀ sends w, ¬ Step localRegistrar v (.connectionOpen sends) w := by
  have hrun : ∃ s t u, start localRegistrar = some s ∧
      Run (Step localRegistrar) s (failedAttempt ++ [.test, .create, .connect, .enterRun]) t ∧
      t.worker = .running 1 ∧ Step localRegistrar t (.connectionOpen true) u := by
    refine ⟨_, _, _, rfl, ((((((((((((Run.single (.test rfl)).snoc (.create rfl)).snoc
      (.connect rfl)).snoc (.enterRun rfl)).snoc (.fails rfl rfl rfl)).snoc
      (.leaveRun rfl (Or.inr rfl))).snoc (.check rfl)).snoc (.wake rfl)).snoc (.test rfl)).snoc
      (.create rfl)).snoc (.connect rfl)).snoc (.enterRun rfl)), rfl, .opens true rfl rfl rfl⟩
  obtain ⟨s, t, u, h₀, hrun, hw, hopen⟩ := hrun
  obtain ⟨hwait, -, -, honce, hsent⟩ := attempts_backed_off h₀ hrun
  exact ⟨s, t, u, h₀, hrun, hopen, hwait, hsent, honce 1 true hw hopen⟩

theorem ends_after_finish_failed : ∃ s t u v, start localRegistrar = some s ∧
    Run (Step localRegistrar) s failedAttempt t ∧ Step localRegistrar t .finish u ∧
    Run (Step localRegistrar) u [.test] v ∧
    ∃ gs w, Run (Step localRegistrar) v gs w ∧ (∀ a ∈ gs, Action.isWorker a = true) ∧
      w.worker = .done := by
  obtain ⟨s, t, h₀, hrun, hw, -, hs⟩ := run_failedAttempt
  obtain ⟨u, hfinish, hu⟩ : ∃ u, Step localRegistrar t .finish u ∧ u.worker = .testing :=
    ⟨_, .finish hs, hw⟩
  have htest : Run (Step localRegistrar) u [.test] _ := .single (.test hu)
  exact ⟨s, t, u, _, h₀, hrun, hfinish, htest, (ends_after_finish h₀ hrun hfinish htest).2.2.2.2⟩

end KurentoMediaServer.Registrar
