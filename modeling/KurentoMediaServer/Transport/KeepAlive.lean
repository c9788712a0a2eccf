import KurentoMediaServer.Foundations.Worklist
import KurentoMediaServer.Transport.Interleaved
import Mathlib.Data.Finset.Sort
import Mathlib.Data.String.Basic

/-! The thread that keeps the sessions of the connections alive, next to the calls that
store and close connections. In each round it copies the sessions under the mutex and
visits them without it; then it waits for a while, or for `stop`. A session that stays
connected is visited once a round, one that has no connection is visited at most once
more. After `stop` no round begins and the thread returns; a `stop` that comes in the
middle of a round finds nobody waiting, and the thread waits once more. -/

namespace KurentoMediaServer.Transport

open Foundations Methods

variable {σ Hdl : Type} [DecidableEq Hdl]

inductive KeepAliveThread where
  | notStarted
  /-- About to take the mutex and to test `running`. -/
  | awake
  /-- Without the mutex, with sessions still to keep alive. -/
  | visiting (conns : List String)
  | waiting
  | returned
  /-- An exception has left the thread, which ends the process. -/
  | terminated (conns : List String)

/-- The thread when `keepAliveSession` has ended, with the sessions left in its round. -/
def KeepAliveThread.visited (conns : List String) : Except Exc Unit → KeepAliveThread
  | .ok () => .visiting conns
  | .error e => if toleratesKeepAlive e then .visiting conns else .terminated conns

def KeepAliveThread.notified : KeepAliveThread → KeepAliveThread
  | .waiting => .awake
  | thread => thread

structure Live (σ Hdl : Type) extends Concurrent σ Hdl where
  running : Bool
  keepAliveThread : KeepAliveThread

def Live.start (server : σ) : Live σ Hdl := ⟨.start server, false, .notStarted⟩

/-- The steps, where a round shows the sessions it copies. -/
inductive LiveEvent (Hdl : Type) where
  | call (e : CallEvent Hdl)
  | start
  | round (conns : List String)
  | keepAlive (sessionId : String)
  | pause
  | timeout
  | exit
  | stop

/-- The sessions in `connections`, in the order of the map. -/
def Tables.sessions (t : Tables Hdl) : List String := t.connections.keys.sort

/-- The steps of the calls, of `keepAliveSessions`, and of `start` and `stop`. What is done
under the mutex in one go is one step. -/
inductive LiveStep (processor : Processor σ) : Live σ Hdl → LiveEvent Hdl → Live σ Hdl → Prop
  | call {t : Live σ Hdl} {e : CallEvent Hdl} {c : Concurrent σ Hdl} :
      (∀ conns, t.keepAliveThread ≠ .terminated conns) → CallStep processor t.toConcurrent e c →
      LiveStep processor t (.call e) { t with toConcurrent := c }
  | start {t : Live σ Hdl} : t.keepAliveThread = .notStarted →
      LiveStep processor t .start { t with running := true, keepAliveThread := .awake }
  | round {t : Live σ Hdl} : t.keepAliveThread = .awake → t.running = true →
      LiveStep processor t (.round t.tables.sessions)
        { t with keepAliveThread := .visiting t.tables.sessions }
  | keepAlive {t : Live σ Hdl} {s : String} {conns : List String} {result : Except Exc Unit}
      {server : σ} : t.keepAliveThread = .visiting (s :: conns) →
      processor.keepAliveSession s t.server = (result, server) →
      LiveStep processor t (.keepAlive s)
        { t with server, keepAliveThread := .visited conns result }
  | pause {t : Live σ Hdl} : t.keepAliveThread = .visiting [] →
      LiveStep processor t .pause { t with keepAliveThread := .waiting }
  | timeout {t : Live σ Hdl} : t.keepAliveThread = .waiting →
      LiveStep processor t .timeout { t with keepAliveThread := .awake }
  | exit {t : Live σ Hdl} : t.keepAliveThread = .awake → t.running = false →
      LiveStep processor t .exit { t with keepAliveThread := .returned }
  | stop {t : Live σ Hdl} : (∀ conns, t.keepAliveThread ≠ .terminated conns) → t.running = true →
      LiveStep processor t .stop
        { t with running := false, keepAliveThread := t.keepAliveThread.notified }

/-! ### The rounds -/

/-- The sessions of the round that are still to be kept alive. -/
def KeepAliveThread.pending : KeepAliveThread → List String
  | .visiting conns => conns
  | .terminated conns => conns
  | _ => []

@[simp] theorem KeepAliveThread.pending_visiting (conns : List String) :
    (KeepAliveThread.visiting conns).pending = conns := rfl

@[simp] theorem KeepAliveThread.pending_visited (conns : List String) (result : Except Exc Unit) :
    (KeepAliveThread.visited conns result).pending = conns := by
  rcases result with e | _
  · rw [visited]
    split_ifs <;> rfl
  · rfl

@[simp] theorem KeepAliveThread.pending_notified (thread : KeepAliveThread) :
    thread.notified.pending = thread.pending := by
  cases thread <;> rfl

/-- What a round puts before the thread. -/
def LiveEvent.batch : LiveEvent Hdl → List String
  | .round conns => conns
  | _ => []

def LiveEvent.kept : LiveEvent Hdl → Option String
  | .keepAlive s => some s
  | _ => none

def LiveEvent.isRound : LiveEvent Hdl → Bool
  | .round _ => true
  | _ => false

def Connected (s : String) (t : Live σ Hdl) : Prop := (t.tables.connections.lookup s).isSome = true

omit [DecidableEq Hdl] in
/-- The sessions that are copied are those with a connection, each once. -/
theorem count_sessions (s : String) (t : Tables Hdl) :
    t.sessions.count s = if (t.connections.lookup s).isSome then 1 else 0 := by
  have hmem : s ∈ t.sessions ↔ (t.connections.lookup s).isSome = true := by
    rw [Tables.sessions, Finset.mem_sort, Finmap.mem_keys, Finmap.lookup_isSome]
  split_ifs with hs
  · exact List.count_eq_one_of_mem (Finset.sort_nodup _ _) (hmem.mpr hs)
  · exact List.count_eq_zero_of_not_mem fun h => hs (hmem.mp h)

section Rounds
variable {processor : Processor σ} {t u : Live σ Hdl} {es : List (LiveEvent Hdl)} {s : String}

/-- The thread works off the sessions of its rounds. -/
theorem keepAlive_worklist : Worklist (LiveStep processor)
    (fun t : Live σ Hdl => t.keepAliveThread.pending) LiveEvent.batch LiveEvent.kept where
  step t e u h := by
    cases h with
    | call => simp [LiveEvent.kept, LiveEvent.batch]
    | keepAlive h => simp [LiveEvent.kept, LiveEvent.batch, h]
    | stop => simp [LiveEvent.kept, LiveEvent.batch]
    | start h | round h | pause h | timeout h | exit h =>
      simp [LiveEvent.kept, LiveEvent.batch, h, KeepAliveThread.pending]

/-- A session is in each round that begins while it has a connection, and in no other. -/
theorem count_batch {e : LiveEvent Hdl} (h : LiveStep processor t e u) (s : String) :
    e.batch.count s = if (t.tables.connections.lookup s).isSome && e.isRound then 1 else 0 := by
  cases h with
  | round => simp [LiveEvent.batch, LiveEvent.isRound, count_sessions]
  | _ => simp [LiveEvent.batch, LiveEvent.isRound]

theorem count_rounds_connected
    (h : Run (Guarded (fun t _ => Connected s t) (LiveStep processor)) t es u) :
    (es.flatMap LiveEvent.batch).count s = es.countP LiveEvent.isRound := by
  induction h with
  | nil => rfl
  | @snoc t u es e _ hlast ih =>
    obtain ⟨hc, hstep⟩ := hlast
    rw [List.flatMap_append, List.flatMap_singleton, List.count_append, ih, count_batch hstep s, hc,
      Bool.true_and, List.countP_append, List.countP_singleton]

theorem count_rounds_unconnected
    (h : Run (Guarded (fun t _ => ¬ Connected s t) (LiveStep processor)) t es u) :
    (es.flatMap LiveEvent.batch).count s = 0 := by
  induction h with
  | nil => rfl
  | @snoc t u es e _ hlast ih =>
    obtain ⟨hc, hstep⟩ := hlast
    rw [Connected, Bool.not_eq_true] at hc
    simp [List.flatMap_append, List.count_append, ih, count_batch hstep s, hc]

/-- No session is twice in what is left of a round. -/
theorem LiveStep.pending_nodup {e : LiveEvent Hdl} (h : LiveStep processor t e u)
    (ht : t.keepAliveThread.pending.Nodup) : u.keepAliveThread.pending.Nodup := by
  cases h with
  | call | start | pause | timeout | exit => simp_all [KeepAliveThread.pending]
  | round => exact Finset.sort_nodup _ _
  | keepAlive h => simp_all
  | stop => simpa using ht

/-- In every run, the thread keeps the sessions alive that its rounds have copied, in this
order. From any moment on, a session that has a connection is kept alive once in each
round that begins, and one that has none only if the round under way has copied it, and
then once. -/
theorem keptAlive_each_round {server : σ} (hrun : Run (LiveStep processor) (.start server) es t) :
    es.filterMap LiveEvent.kept ++ t.keepAliveThread.pending = es.flatMap LiveEvent.batch ∧
    ∀ s fs u,
      (Run (Guarded (fun t _ => Connected s t) (LiveStep processor)) t fs u →
        (fs.filterMap LiveEvent.kept).count s + u.keepAliveThread.pending.count s =
          t.keepAliveThread.pending.count s + fs.countP LiveEvent.isRound) ∧
      (Run (Guarded (fun t _ => ¬ Connected s t) (LiveStep processor)) t fs u →
        (fs.filterMap LiveEvent.kept).count s + u.keepAliveThread.pending.count s =
          t.keepAliveThread.pending.count s) ∧
      t.keepAliveThread.pending.count s ≤ 1 := by
  have hnodup : t.keepAliveThread.pending.Nodup :=
    hrun.invariant (motive := fun t => t.keepAliveThread.pending.Nodup)
      (fun _ _ _ ht h => h.pending_nodup ht) List.nodup_nil
  refine ⟨keepAlive_worklist.run hrun, fun s fs u => ⟨fun h => ?_, fun h => ?_, ?_⟩⟩
  · rw [keepAlive_worklist.count_taken h.unguarded s, count_rounds_connected h]
  · rw [keepAlive_worklist.count_taken h.unguarded s, count_rounds_unconnected h, add_zero]
  · exact List.nodup_iff_count_le_one.mp hnodup s

end Rounds

/-- A server that answers every request in one session and keeps it alive. -/
def sessionProcessor : Processor Unit where
  process _ _ st := some (.ok ("", "s"), st)
  keepAliveSession _ st := (.ok (), st)

def SessionStep : Live Unit ℕ → LiveEvent ℕ → Live Unit ℕ → Prop := LiveStep sessionProcessor

/-- A connection gets the session, and a round begins. -/
def firstRound : List (LiveEvent ℕ) :=
  [.start, .call (.receive 0), .call (.process 0), .call (.store 0 0 "s"), .round ["s"]]

theorem run_firstRound : ∃ t, Run SessionStep (.start ()) firstRound t ∧
    t.running = true ∧ t.keepAliveThread = .visiting ["s"] := by
  have h1 : Run SessionStep (.start ()) _ _ := .single (.start rfl)
  have h2 := h1.snoc (.call (by simp) (.receive 0 "" rfl))
  have h3 := h2.snoc (.call (by simp) (.process (Function.update_self ..) rfl))
  have h4 := h3.snoc (.call (by simp) (.store (fun _ => true) false (Function.update_self ..) rfl rfl))
  obtain ⟨t, h, hr, ha, hk⟩ : ∃ t, Run SessionStep (.start ()) [.start, .call (.receive 0),
      .call (.process 0), .call (.store 0 0 "s")] t ∧ t.running = true ∧
      t.keepAliveThread = .awake ∧ t.tables.connections.keys = {"s"} := ⟨_, h4, rfl, rfl, rfl⟩
  have hs : t.tables.sessions = ["s"] := by
    rw [Tables.sessions, hk, Finset.sort_singleton]
  have h5 := h.snoc (.round ha hr)
  rw [hs] at h5
  exact ⟨_, h5, hr, rfl⟩

theorem keptAlive_each_round_first : ∃ t, Run SessionStep (.start ()) firstRound t ∧
    t.keepAliveThread.pending = ["s"] := by
  obtain ⟨t, h, -⟩ := run_firstRound
  exact ⟨t, h, (keptAlive_each_round h).1⟩

/-! ### After `stop` -/

/-- The steps of the thread until it returns, once `running` is false. -/
def KeepAliveThread.remaining : KeepAliveThread → ℕ
  | .awake => 1
  | .visiting conns => conns.length + 3
  | .waiting => 2
  | _ => 0

/-- How often it waits for the time until then. -/
def KeepAliveThread.timeouts : KeepAliveThread → ℕ
  | .visiting _ => 1
  | .waiting => 1
  | _ => 0

def LiveEvent.isThread : LiveEvent Hdl → Bool
  | .round _ => true
  | .keepAlive _ => true
  | .pause => true
  | .timeout => true
  | .exit => true
  | _ => false

def LiveEvent.isTimeout : LiveEvent Hdl → Bool
  | .timeout => true
  | _ => false

/-- `stop` has been called, and the process has not ended. -/
structure Stopped (t : Live σ Hdl) : Prop where
  notRunning : t.running = false
  started : t.keepAliveThread ≠ .notStarted
  alive : ∀ conns, t.keepAliveThread ≠ .terminated conns

section Stop
variable {processor : Processor σ} {t u v : Live σ Hdl} {e : LiveEvent Hdl}
  {es fs : List (LiveEvent Hdl)}

/-- Where `keepAliveSession` throws nothing but INVALID_SESSION, the thread goes on. -/
theorem KeepAliveThread.visited_of_tolerated {result : Except Exc Unit} (h : Tolerated result)
    (conns : List String) : KeepAliveThread.visited conns result = .visiting conns := by
  rcases result with e | _
  · exact if_pos h
  · rfl

/-- What a step does once `stop` has been called. -/
theorem Stopped.step (hka : ∀ s st, Tolerated (processor.keepAliveSession s st).1)
    (ht : Stopped t) (h : LiveStep processor t e u) :
    Stopped u ∧ e.isRound = false ∧
    (t.keepAliveThread.remaining = u.keepAliveThread.remaining + if e.isThread then 1 else 0) ∧
    t.keepAliveThread.timeouts = u.keepAliveThread.timeouts + if e.isTimeout then 1 else 0 := by
  obtain ⟨hr, hs, ha⟩ := ht
  cases h with
  | call => exact ⟨⟨hr, hs, ha⟩, rfl, rfl, rfl⟩
  | start h => exact absurd h hs
  | round _ h => simp [hr] at h
  | keepAlive h hk =>
    have hv := KeepAliveThread.visited_of_tolerated (hk ▸ hka _ _ : Tolerated _)
    rw [h]
    refine ⟨⟨hr, ?_, ?_⟩, rfl, ?_, ?_⟩ <;>
      simp [hv, KeepAliveThread.remaining, KeepAliveThread.timeouts, LiveEvent.isThread,
        LiveEvent.isTimeout]
  | pause h | timeout h | exit h =>
    rw [h]
    exact ⟨⟨hr, by simp, by simp⟩, rfl, rfl, rfl⟩
  | stop _ h => simp [hr] at h

/-- Until it returns there is a step of the thread. -/
theorem Stopped.next (ht : Stopped t) (h : 0 < t.keepAliveThread.remaining) :
    ∃ e u, LiveEvent.isThread e = true ∧ LiveStep processor t e u := by
  cases hk : t.keepAliveThread with
  | notStarted | returned | terminated => simp [hk, KeepAliveThread.remaining] at h
  | awake => exact ⟨_, _, rfl, .exit hk ht.notRunning⟩
  | waiting => exact ⟨_, _, rfl, .timeout hk⟩
  | visiting conns =>
    cases conns with
    | nil => exact ⟨_, _, rfl, .pause hk⟩
    | cons s conns => exact ⟨_, _, rfl, .keepAlive hk rfl⟩

omit [DecidableEq Hdl] in
theorem Stopped.returned_iff (ht : Stopped t) :
    t.keepAliveThread.remaining = 0 ↔ t.keepAliveThread = .returned := by
  obtain ⟨-, hs, ha⟩ := ht
  cases hk : t.keepAliveThread <;> simp_all [KeepAliveThread.remaining]

theorem LiveStep.started (h : LiveStep processor t e u)
    (ht : t.running = true → t.keepAliveThread ≠ .notStarted) :
    u.running = true → u.keepAliveThread ≠ .notStarted := by
  cases h with
  | call => exact ht
  | @keepAlive _ conns result =>
    intro _ h
    rcases result with e | _
    · simp only [KeepAliveThread.visited] at h
      split_ifs at h
    · cases h
  | start | round | pause | timeout | exit | stop => simp

theorem LiveStep.stopped (h : LiveStep processor t .stop u)
    (ht : t.running = true → t.keepAliveThread ≠ .notStarted) : Stopped u := by
  cases h with
  | stop ha hr =>
    have hs := ht hr
    refine ⟨rfl, ?_, ?_⟩ <;> cases hk : t.keepAliveThread <;>
      simp_all [KeepAliveThread.notified]

/-- What the thread has before it when `stop` comes: one step, or in a round the rest of the
round, the wait after it and one step more. -/
theorem LiveStep.stop_remaining (h : LiveStep processor t .stop u) :
    u.keepAliveThread.remaining ≤ t.keepAliveThread.pending.length + 3 ∧
    u.keepAliveThread.timeouts = match t.keepAliveThread with | .visiting _ => 1 | _ => 0 := by
  cases h with
  | stop =>
    cases t.keepAliveThread <;> simp [KeepAliveThread.notified, KeepAliveThread.remaining,
      KeepAliveThread.timeouts, KeepAliveThread.pending]

/-- After `stop`, however its steps and those of the calls interleave, the thread begins no
round and has returned after at most as many steps as there are sessions left in its round,
and three. It waits for the time once if `stop` came in the middle of a round, and otherwise
not at all. At every moment it can return without the others. -/
theorem stop_ends_keepAlive (hka : ∀ s st, Tolerated (processor.keepAliveSession s st).1)
    {server : σ} (hrun : Run (LiveStep processor) (.start server) es t)
    (hstop : LiveStep processor t .stop u) (h : Run (LiveStep processor) u fs v) :
    fs.countP LiveEvent.isRound = 0 ∧
    fs.countP LiveEvent.isThread + v.keepAliveThread.remaining ≤
      t.keepAliveThread.pending.length + 3 ∧
    (v.keepAliveThread = .returned → fs.countP LiveEvent.isTimeout =
      match t.keepAliveThread with | .visiting _ => 1 | _ => 0) ∧
    ∃ gs w, Run (LiveStep processor) v gs w ∧ (∀ e ∈ gs, LiveEvent.isThread e = true) ∧
      w.keepAliveThread = .returned := by
  have hstarted : t.running = true → t.keepAliveThread ≠ .notStarted :=
    hrun.invariant (motive := fun t => t.running = true → t.keepAliveThread ≠ .notStarted)
      (fun _ _ _ ht h => h.started ht) (by simp [Live.start])
  have hu : Stopped u := hstop.stopped hstarted
  have hinv (t : Live σ Hdl) (e u) (ht : Stopped t) (h : LiveStep processor t e u) : Stopped u :=
    (ht.step hka h).1
  have hremaining := h.countP_add (fun t => t.keepAliveThread.remaining) hinv
    (fun _ _ _ ht h => (ht.step hka h).2.2.1) hu
  have htimeouts := h.countP_add (fun t => t.keepAliveThread.timeouts) hinv
    (fun _ _ _ ht h => (ht.step hka h).2.2.2) hu
  have hrounds : 0 = 0 + fs.countP LiveEvent.isRound := h.countP_add (fun _ => 0) hinv
    (fun _ _ _ ht h => by simp [(ht.step hka h).2.1]) hu
  obtain ⟨hle, hwaits⟩ := hstop.stop_remaining
  refine ⟨by omega, by omega, fun hv => ?_, ?_⟩
  · rw [hv] at htimeouts
    rw [← hwaits, htimeouts]
    simp [KeepAliveThread.timeouts]
  · have hv : Stopped v := h.invariant hinv hu
    obtain ⟨gs, w, hr, hgs, hw⟩ := Run.exists_used_up (fun t => t.keepAliveThread.remaining) hinv
      (fun _ _ _ ht h => (ht.step hka h).2.2.1.ge) (fun _ ht h => ht.next h) v hv
    exact ⟨gs, w, hr, hgs, (hr.invariant hinv hv).returned_iff.mp hw⟩

end Stop

theorem stop_ends_keepAlive_in_round : ∃ t u v, Run SessionStep (.start ()) firstRound t ∧
    SessionStep t .stop u ∧ Run SessionStep u [.keepAlive "s", .pause, .timeout, .exit] v ∧
    ([.keepAlive "s", .pause, .timeout, .exit] : List (LiveEvent ℕ)).countP LiveEvent.isTimeout =
      1 := by
  obtain ⟨t, ht, hr, hk⟩ := run_firstRound
  obtain ⟨u, hstop, hu, hur⟩ : ∃ u, SessionStep t .stop u ∧
      u.keepAliveThread = .visiting ["s"] ∧ u.running = false :=
    ⟨_, .stop (by simp [hk]) hr, by simp [hk, KeepAliveThread.notified], rfl⟩
  have h1 : Run SessionStep u _ _ := .single (.keepAlive hu rfl)
  have h2 := ((h1.snoc (.pause rfl)).snoc (.timeout rfl)).snoc (.exit rfl hur)
  refine ⟨t, u, _, ht, hstop, h2, ?_⟩
  have hka : ∀ s st, Tolerated (sessionProcessor.keepAliveSession s st).1 := fun _ _ => trivial
  have h := (stop_ends_keepAlive hka ht hstop h2).2.2.1 rfl
  rwa [hk] at h

end KurentoMediaServer.Transport
