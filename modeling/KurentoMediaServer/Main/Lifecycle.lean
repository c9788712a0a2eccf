import KurentoMediaServer.Foundations.Worklist

/-! `main` from its signal handlers to its end, with signals that come at any time. The
handler makes the main loop quit at the first SIGINT or SIGTERM and ignores the later
ones. GLib's loop is running from `run` on, so a `quit` before `run` leaves no trace: a
server that has been told to stop while it started is never stopped again. -/

namespace KurentoMediaServer.Main

open Foundations

inductive Signal where
  | SIGINT
  | SIGTERM
  | SIGPIPE
  deriving DecidableEq

def Signal.terminates : Signal → Bool
  | .SIGINT | .SIGTERM => true
  | .SIGPIPE => false

/-- The statement of `main` that comes next. -/
inductive Stage where
  | handleSIGINT
  | handleSIGTERM
  | handleSIGPIPE
  | loadConfig
  | createTransport
  | start
  | run
  | looping
  | stop
  | deleteMediaSet
  | returned
  | exited
  /-- By a signal without a handler. -/
  | killed
  deriving DecidableEq

/-- `main`, the variable of its handler, GLib's `is_running` and the calls on the transport. -/
structure Program where
  stage : Stage
  terminated : Bool
  isRunning : Bool
  starts : ℕ
  stops : ℕ

def Program.begin : Program := ⟨.handleSIGINT, false, false, 0, 0⟩

/-- Whether `sigaction` has been called for a signal. -/
def Stage.handles : Stage → Signal → Bool
  | .handleSIGINT, _ => false
  | .handleSIGTERM, s => s = .SIGINT
  | .handleSIGPIPE, s => s ≠ .SIGPIPE
  | _, _ => true

def Stage.ended : Stage → Bool
  | .returned | .exited | .killed => true
  | _ => false

def Program.quit (p : Program) : Program := { p with isRunning := false }

def signalHandler (p : Program) : Signal → Program
  | .SIGINT | .SIGTERM => { (if p.terminated then p else p.quit) with terminated := true }
  | .SIGPIPE => p

inductive MainEvent where
  | next
  /-- The configuration or the transport makes `main` exit. -/
  | fail
  | signal (s : Signal)
  deriving DecidableEq

def Program.next (p : Program) : Option Program :=
  match p.stage with
  | .handleSIGINT => some { p with stage := .handleSIGTERM }
  | .handleSIGTERM => some { p with stage := .handleSIGPIPE }
  | .handleSIGPIPE => some { p with stage := .loadConfig }
  | .loadConfig => some { p with stage := .createTransport }
  | .createTransport => some { p with stage := .start }
  | .start => some { p with stage := .run, starts := p.starts + 1 }
  | .run => some { p with stage := .looping, isRunning := true }
  | .looping => if p.isRunning then none else some { p with stage := .stop }
  | .stop => some { p with stage := .deleteMediaSet, stops := p.stops + 1 }
  | .deleteMediaSet => some { p with stage := .returned }
  | .returned | .exited | .killed => none

def Program.advance (p : Program) : MainEvent → Option Program
  | .next => p.next
  | .fail =>
    if p.stage = .loadConfig ∨ p.stage = .createTransport then some { p with stage := .exited }
    else none
  | .signal s =>
    if p.stage.ended then none
    else if p.stage.handles s then some (signalHandler p s)
    else some { p with stage := .killed }

def MainStep (p : Program) (e : MainEvent) (q : Program) : Prop := p.advance e = some q

/-- Told to stop before the loop was entered. -/
def Program.Deaf (p : Program) : Prop :=
  p.stage = .looping ∧ p.isRunning = true ∧ p.terminated = true

/-- The statements left after the loop has been made to quit. -/
def Program.remaining (p : Program) : ℕ :=
  match p.stage with
  | .looping => 3
  | .stop => 2
  | .deleteMediaSet => 1
  | _ => 0

/-- On the way to its end, the loop having quit. -/
def Program.Leaving (p : Program) : Prop :=
  p.isRunning = false ∧ p.terminated = true ∧
    (p.stage = .looping ∨ p.stage = .stop ∨ p.stage = .deleteMediaSet ∨ p.stage = .returned)

def startedStages : List Stage := [.run, .looping, .stop, .deleteMediaSet, .returned]

def stoppedStages : List Stage := [.deleteMediaSet, .returned]

structure Sound (hist : List MainEvent) (p : Program) : Prop where
  running : p.isRunning = true → p.stage = .looping
  quit : p.stage = .looping → p.isRunning = false → p.terminated = true
  terminated : p.stage ≠ .killed → (p.terminated = true ↔ ∃ s, s.terminates = true ∧ .signal s ∈ hist)
  starts : p.starts = if p.stage ∈ startedStages then 1 else 0
  stops : p.stops = if p.stage ∈ stoppedStages then 1 else 0

section Lifecycle
variable {p q : Program} {e : MainEvent} {hist : List MainEvent}

@[simp] theorem signalHandler_stage (p : Program) (s : Signal) :
    (signalHandler p s).stage = p.stage := by
  cases s <;> simp only [signalHandler] <;> split_ifs <;> rfl

@[simp] theorem signalHandler_terminated (p : Program) (s : Signal) :
    (signalHandler p s).terminated = (p.terminated || s.terminates) := by
  cases s <;> simp [signalHandler, Signal.terminates]

/-- The first signal to stop makes the loop quit. -/
@[simp] theorem signalHandler_isRunning (p : Program) (s : Signal) :
    (signalHandler p s).isRunning = (p.isRunning && (p.terminated || !s.terminates)) := by
  cases s <;> cases h : p.terminated <;> simp [signalHandler, Signal.terminates, Program.quit, h]

@[simp] theorem signalHandler_starts (p : Program) (s : Signal) :
    (signalHandler p s).starts = p.starts := by
  cases s <;> simp only [signalHandler] <;> split_ifs <;> rfl

@[simp] theorem signalHandler_stops (p : Program) (s : Signal) :
    (signalHandler p s).stops = p.stops := by
  cases s <;> simp only [signalHandler] <;> split_ifs <;> rfl

theorem MainStep.of_signal {s : Signal} (h : MainStep p (.signal s) q) :
    p.stage.ended = false ∧
      (q = signalHandler p s ∨ (p.stage.handles s = false ∧ q = { p with stage := .killed })) := by
  simp only [MainStep, Program.advance] at h
  split_ifs at h with hended hhandles
  · exact ⟨by simpa using hended, Or.inl (Option.some.inj h).symm⟩
  · exact ⟨by simpa using hended, Or.inr ⟨by simpa using hhandles, (Option.some.inj h).symm⟩⟩

theorem MainStep.of_fail (h : MainStep p .fail q) :
    (p.stage = .loadConfig ∨ p.stage = .createTransport) ∧ q = { p with stage := .exited } := by
  simp only [MainStep, Program.advance] at h
  split_ifs at h with hs
  exact ⟨hs, (Option.some.inj h).symm⟩

theorem Stage.handles_of_looping {s : Signal} (h : p.stage = .looping ∨ p.stage = .stop ∨
    p.stage = .deleteMediaSet ∨ p.stage = .returned) : p.stage.handles s = true := by
  rcases h with h | h | h | h <;> simp [h, handles]

/-- No event stops a program that was told to stop too early. -/
theorem MainStep.deaf (hp : p.Deaf) (h : MainStep p e q) : q.Deaf := by
  obtain ⟨hs, hr, ht⟩ := hp
  cases e with
  | next => simp [MainStep, Program.advance, Program.next, hs, hr] at h
  | fail =>
    have hfail := h.of_fail.1
    simp [hs] at hfail
  | signal s =>
    rcases h.of_signal.2 with rfl | ⟨hno, -⟩
    · exact ⟨by simpa using hs, by simp [hr, ht], by simp [ht]⟩
    · rw [Stage.handles_of_looping (Or.inl hs)] at hno
      cases hno

/-- Once the loop has quit each statement brings the end nearer, and no signal changes that. -/
theorem MainStep.leaving (hp : p.Leaving) (h : MainStep p e q) :
    q.Leaving ∧ p.remaining = q.remaining + if e == .next then 1 else 0 := by
  obtain ⟨hr, ht, hs⟩ := hp
  cases e with
  | next =>
    rcases hs with hs | hs | hs | hs <;>
      simp only [MainStep, Program.advance, Program.next, hs, hr, Bool.false_eq_true, ↓reduceIte,
        Option.some.injEq, reduceCtorEq] at h
    all_goals
      subst h
      exact ⟨⟨rfl, ht, by simp⟩, by simp [Program.remaining, hs]⟩
  | fail =>
    have hfail := h.of_fail.1
    rcases hs with hs | hs | hs | hs <;> simp [hs] at hfail
  | signal s =>
    rcases h.of_signal.2 with rfl | ⟨hno, -⟩
    · exact ⟨⟨by simp [hr], by simp [ht], by simpa using hs⟩, by simp [Program.remaining]⟩
    · rw [Stage.handles_of_looping hs] at hno
      cases hno

/-- What a statement leaves alone, and what it takes. -/
theorem MainStep.of_next (h : MainStep p .next q) :
    q.terminated = p.terminated ∧ (p.stage = .looping → p.isRunning = false) ∧
      (q.isRunning = true → q.stage = .looping ∨ p.isRunning = true ∧ p.stage ≠ .looping) ∧
      (q.stage = .looping → q.isRunning = true) ∧ p.stage ≠ .killed ∧
      (p.starts = (if p.stage ∈ startedStages then 1 else 0) →
        q.starts = if q.stage ∈ startedStages then 1 else 0) ∧
      (p.stops = (if p.stage ∈ stoppedStages then 1 else 0) →
        q.stops = if q.stage ∈ stoppedStages then 1 else 0) := by
  obtain ⟨stage, terminated, isRunning, starts, stops⟩ := p
  cases stage <;> cases isRunning <;>
    simp only [MainStep, Program.advance, Program.next, Bool.false_eq_true, ↓reduceIte,
      Option.some.injEq, reduceCtorEq] at h
  all_goals
    subst h
    simp [startedStages, stoppedStages]

theorem Sound.step (hp : Sound hist p) (h : MainStep p e q) : Sound (hist ++ [e]) q := by
  cases e with
  | next =>
    obtain ⟨hterm, hloop, hrun, hnext, hkilled, hstarts, hstops⟩ := h.of_next
    refine ⟨fun hq => (hrun hq).resolve_right fun ⟨h1, h2⟩ => h2 (hp.running h1),
      fun hq hq' => ?_, fun _ => ?_, hstarts hp.starts, hstops hp.stops⟩
    · rw [hnext hq] at hq'
      cases hq'
    · rw [hterm, hp.terminated hkilled]
      simp
  | fail =>
    obtain ⟨hs, rfl⟩ := h.of_fail
    have hstarts := hp.starts
    have hstops := hp.stops
    refine ⟨fun hr => ?_, nofun, fun _ => ?_, ?_, ?_⟩
    · rcases hs with hs | hs <;> simp [hp.running hr] at hs
    · rw [hp.terminated (by rcases hs with hs | hs <;> simp [hs])]
      simp
    · rcases hs with hs | hs <;> simpa [hs, startedStages] using hstarts
    · rcases hs with hs | hs <;> simpa [hs, stoppedStages] using hstops
  | signal s =>
    obtain ⟨hended, rfl | ⟨hno, rfl⟩⟩ := h.of_signal
    · refine ⟨fun hr => ?_, fun hl hr => ?_, fun hk => ?_, by simpa using hp.starts,
        by simpa using hp.stops⟩
      · simp only [signalHandler_isRunning, Bool.and_eq_true] at hr
        simpa using hp.running hr.1
      · simp only [signalHandler_stage] at hl
        simp only [signalHandler_isRunning, signalHandler_terminated] at hr ⊢
        have := hp.quit hl
        grind
      · simp only [signalHandler_stage] at hk
        simp only [signalHandler_terminated, Bool.or_eq_true, hp.terminated hk, List.mem_append,
          List.mem_singleton, MainEvent.signal.injEq]
        grind
    · have hearly : p.stage = .handleSIGINT ∨ p.stage = .handleSIGTERM ∨
          p.stage = .handleSIGPIPE := by
        cases hs : p.stage <;> simp_all [Stage.handles]
      have hstarts := hp.starts
      have hstops := hp.stops
      refine ⟨fun hr => ?_, nofun, fun hk => absurd rfl hk, ?_, ?_⟩
      · rcases hearly with hs | hs | hs <;> simp [hp.running hr] at hs
      · rcases hearly with hs | hs | hs <;> simpa [hs, startedStages] using hstarts
      · rcases hearly with hs | hs | hs <;> simpa [hs, stoppedStages] using hstops

theorem sound_begin : Sound [] .begin :=
  ⟨nofun, nofun, fun _ => by simp [Program.begin], by simp [Program.begin, startedStages],
    by simp [Program.begin, stoppedStages]⟩

theorem MainStep.leaves {s : Signal} (hs : p.stage = .looping) (ht : p.terminated = false)
    (hterm : s.terminates = true) (h : MainStep p (.signal s) q) : q.Leaving ∧ q.remaining = 3 := by
  rcases h.of_signal.2 with rfl | ⟨hno, -⟩
  · simp [Program.Leaving, Program.remaining, hs, ht, hterm]
  · rw [Stage.handles_of_looping (Or.inl hs)] at hno
    cases hno

theorem Program.Leaving.returned_iff (hp : p.Leaving) : p.stage = .returned ↔ p.remaining = 0 := by
  obtain ⟨-, -, hs | hs | hs | hs⟩ := hp <;> simp [remaining, hs]

theorem Program.Leaving.next (hp : p.Leaving) (h : 0 < p.remaining) : ∃ q, MainStep p .next q := by
  obtain ⟨hr, -, hs | hs | hs | hs⟩ := hp
  · exact ⟨_, by rw [MainStep, advance, Program.next, hs, hr]; rfl⟩
  · exact ⟨_, by rw [MainStep, advance, Program.next, hs]⟩
  · exact ⟨_, by rw [MainStep, advance, Program.next, hs]⟩
  · simp [remaining, hs] at h

/-- Whenever signals come, `main` starts the transport once at most, and has stopped it
when it returns. In the loop it can still come to its end if and only if it has been told
to stop there: it never ends when the first signal to stop came before the loop. -/
theorem stopped_iff (hrun : Run MainStep .begin hist p) :
    (p.stops ≤ p.starts ∧ p.starts ≤ 1 ∧ (p.stage = .returned → p.stops = 1)) ∧
    (p.stage = .looping → p.isRunning = true →
      ((∃ es q, Run MainStep p es q ∧ q.stage = .returned) ↔
        ∀ s, s.terminates = true → .signal s ∉ hist)) ∧
    ∀ s q, p.stage = .looping → (∀ s, s.terminates = true → .signal s ∉ hist) →
      s.terminates = true → MainStep p (.signal s) q → ∀ es v, Run MainStep q es v →
        es.countP (· == .next) ≤ 3 ∧ (v.stage = .returned ↔ es.countP (· == .next) = 3) := by
  have hp : Sound hist p := hrun.history_invariant (motive := Sound)
    (fun _ _ _ _ h hstep => h.step hstep) sound_begin
  have hfirst : p.stage = .looping → (∀ s, s.terminates = true → .signal s ∉ hist) →
      p.terminated = false := fun hs hno => by
    rw [← Bool.not_eq_true, hp.terminated (by rw [hs]; nofun)]
    exact fun ⟨s, hs, hmem⟩ => hno s hs hmem
  have hinv (p : Program) (e q) (hp : p.Leaving) (h : MainStep p e q) : q.Leaving := (h.leaving hp).1
  refine ⟨⟨?_, ?_, fun hs => ?_⟩, fun hs hr => ⟨fun ⟨es, q, hq, hret⟩ s hterm hmem => ?_,
    fun hno => ?_⟩, fun s q hs hno hterm hstep es v hv => ?_⟩
  · rw [hp.stops, hp.starts]
    cases p.stage <;> decide
  · rw [hp.starts]
    split_ifs <;> decide
  · rw [hp.stops, hs]
    rfl
  · have hdeaf : p.Deaf := ⟨hs, hr, (hp.terminated (by rw [hs]; nofun)).mpr ⟨s, hterm, hmem⟩⟩
    have hqd : q.Deaf := hq.invariant (motive := Program.Deaf) (fun _ _ _ hd h => h.deaf hd) hdeaf
    rw [hqd.1] at hret
    cases hret
  · have hstep : MainStep p (.signal .SIGINT) (signalHandler p .SIGINT) := by
      simp [MainStep, Program.advance, hs, Stage.ended, Stage.handles]
    obtain ⟨hl, -⟩ := hstep.leaves hs (hfirst hs hno) rfl
    obtain ⟨es, q, hq, -, hzero⟩ : ∃ es q, Run MainStep (signalHandler p .SIGINT) es q ∧
        (∀ e ∈ es, (e == .next) = true) ∧ q.remaining = 0 :=
      Run.exists_used_up Program.remaining hinv
        (fun _ _ _ hp h => Nat.le_of_eq (h.leaving hp).2.symm)
        (fun _ hp h => (hp.next h).elim fun q hq => ⟨.next, q, rfl, hq⟩) _ hl
    exact ⟨_, q, (Run.single hstep).append hq, (hq.invariant hinv hl).returned_iff.mpr hzero⟩
  · obtain ⟨hl, hthree⟩ := hstep.leaves hs (hfirst hs hno) hterm
    have hcount := hv.countP_add Program.remaining hinv (fun _ _ _ hp h => (h.leaving hp).2) hl
    rw [(hv.invariant hinv hl).returned_iff]
    omega

/-- A SIGTERM between the start of the transport and the loop. -/
def toldTooEarly : List MainEvent :=
  List.replicate 6 .next ++ [.signal .SIGTERM, .next, .signal .SIGTERM]

/-- The server goes on, and no signal to stop it has any effect. -/
theorem stopped_iff_toldTooEarly : ∃ p, Run MainStep .begin toldTooEarly p ∧
    p.stage = .looping ∧ ¬ ∃ es q, Run MainStep p es q ∧ q.stage = .returned := by
  obtain ⟨p, hrun, hs, hr⟩ : ∃ p, Run MainStep .begin toldTooEarly p ∧ p.stage = .looping ∧
      p.isRunning = true := ⟨_, Run.of_foldlM rfl, rfl, rfl⟩
  refine ⟨p, hrun, hs, fun h => ?_⟩
  exact ((stopped_iff hrun).2.1 hs hr).mp h .SIGTERM rfl (by decide)

end Lifecycle

end KurentoMediaServer.Main
