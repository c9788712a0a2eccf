import KurentoMediaServer.Main.Lifecycle
import KurentoMediaServer.Resources.ResourceManager

/-! The limit at which the server stops itself. With `mediaServer.resources.killLimit`,
`main` has the resources checked whenever the media set becomes empty, and the process sends
itself a SIGTERM when they are refused. The signal comes some time later, and like every
signal to stop it has no effect before the loop. Where no descriptor is left to count the
open files by, the server crashes. -/

namespace KurentoMediaServer.Main

open Foundations Resources

/-! ### The outcome of a check -/

section Check
variable (rpc : JsonRpc) (limitPercent : ℕ → ℕ) (process : Process)

/-- There is a descriptor left to measure by, and the threads, or the open files with the
three entries counted beside them, are beyond a limit that is checked. -/
def Over : Prop :=
  process.descriptors.length < process.hardLimit ∧
    ((Checked process.maxThreads ∧ limitPercent process.maxThreads < process.threads) ∨
      (Checked process.maxOpenFiles ∧
        limitPercent process.maxOpenFiles < process.descriptors.length + 3))

instance : Decidable (Over limitPercent process) := inferInstanceAs (Decidable (_ ∧ _))

/-- No descriptor is left to count the open files by. -/
def Exhausted : Prop :=
  process.hardLimit ≤ process.descriptors.length ∧ Checked process.maxOpenFiles

theorem checkThreads_result :
    if process.descriptors.length < process.hardLimit ∧ Checked process.maxThreads ∧
        limitPercent process.maxThreads < process.threads then
      IsRefusal (checkThreads rpc limitPercent process).result
    else (checkThreads rpc limitPercent process).result = .ok () := by
  by_cases hc : Checked process.maxThreads
  · have h := (checkThreads_cases rpc limitPercent hc).2
    simpa only [hc, true_and] using h
  · have hoff : process.maxThreads = 0 ∨ process.maxThreads = RLIM_INFINITY := by
      rw [Checked] at hc
      tauto
    rw [if_neg fun h => hc h.2.1, checkThreads, if_pos hoff]

theorem checkOpenFiles_result :
    (¬ Checked process.maxOpenFiles ∧ (checkOpenFiles rpc limitPercent process).result = .ok ()) ∨
    (Exhausted process ∧
      (checkOpenFiles rpc limitPercent process).result = .error (.fault .nullDirectory)) ∨
    (process.descriptors.length < process.hardLimit ∧ Checked process.maxOpenFiles ∧
      if limitPercent process.maxOpenFiles < process.descriptors.length + 3 then
        IsRefusal (checkOpenFiles rpc limitPercent process).result
      else (checkOpenFiles rpc limitPercent process).result = .ok ()) := by
  by_cases hc : Checked process.maxOpenFiles
  · have h := checkOpenFiles_cases rpc limitPercent hc
    split_ifs at h with hleft hmore
    · exact Or.inr (Or.inr ⟨hleft, hc, by rw [if_pos hmore]; exact h.2⟩)
    · exact Or.inr (Or.inr ⟨hleft, hc, by rw [if_neg hmore]; exact h.2⟩)
    · exact Or.inr (Or.inl ⟨⟨not_lt.mp hleft, hc⟩, h⟩)
  · have hoff : process.maxOpenFiles = 0 ∨ process.maxOpenFiles = RLIM_INFINITY := by
      rw [Checked] at hc
      tauto
    exact Or.inl ⟨hc, by rw [checkOpenFiles, if_pos hoff]⟩

/-- The check refuses, meets a null pointer, or lets the process go on. -/
theorem checkResources_result :
    (Over limitPercent process ∧ IsRefusal (checkResources rpc limitPercent process).result) ∨
    (Exhausted process ∧
      (checkResources rpc limitPercent process).result = .error (.fault .nullDirectory)) ∨
    (¬ Over limitPercent process ∧ ¬ Exhausted process ∧
      (checkResources rpc limitPercent process).result = .ok ()) := by
  have ht := checkThreads_result rpc limitPercent process
  split_ifs at ht with hcond
  · obtain ⟨e, he, hcode⟩ := ht
    have hall : checkResources rpc limitPercent process =
        checkThreads rpc limitPercent process := by
      rw [checkResources, he]
    rw [hall]
    exact Or.inl ⟨⟨hcond.1, Or.inl hcond.2⟩, e, he, hcode⟩
  · have hall : (checkResources rpc limitPercent process).result =
        (checkOpenFiles rpc limitPercent process).result := by
      rw [checkResources, ht]
    rw [hall]
    rcases checkOpenFiles_result rpc limitPercent process with
      ⟨hc, hf⟩ | ⟨hex, hf⟩ | ⟨hleft, hc, hf⟩
    · exact Or.inr (Or.inr ⟨fun h => h.2.elim (fun h' => hcond ⟨h.1, h'⟩) fun h' => hc h'.1,
        fun h => hc h.2, hf⟩)
    · exact Or.inr (Or.inl ⟨hex, hf⟩)
    · split_ifs at hf with hmore
      · exact Or.inl ⟨⟨hleft, Or.inr ⟨hc, hmore⟩⟩, hf⟩
      · refine Or.inr (Or.inr ⟨fun h => ?_, fun h => absurd hleft (not_lt.mpr h.1), hf⟩)
        exact h.2.elim (fun h' => hcond ⟨h.1, h'⟩) fun h' => hmore h'.2

theorem Over.not_exhausted {limitPercent : ℕ → ℕ} {process : Process}
    (h : Over limitPercent process) : ¬ Exhausted process :=
  fun h' => absurd h.1 (not_lt.mpr h'.1)

end Check

/-! ### The program -/

/-- `main`, and whether a SIGTERM that the process has sent itself is still on its way. -/
structure Watched where
  program : Program
  pending : Bool

def Watched.begin : Watched := ⟨.begin, false⟩

inductive WatchEvent where
  | main (e : MainEvent)
  /-- The media set becomes empty, with the process as it is. -/
  | emptied (process : Process)
  | delivered

def Stage.watches : Stage → Bool
  | .createTransport | .start | .run | .looping | .stop | .deleteMediaSet => true
  | _ => false

section Watch
variable (rpc : JsonRpc) (limitPercent : ℕ → ℕ)

/-- The slot of `killServerOnLowResources`. A SIGTERM that is sent while one is on its way
is lost; reading a null directory ends the process. -/
def killServerOnLowResources (process : Process) (w : Watched) : Watched :=
  match (checkResources rpc limitPercent process).result with
  | .ok () => w
  | .error (.throw e) => if e.code = .notEnoughResources then { w with pending := true } else w
  | .error (.fault _) => { w with program := { w.program with stage := .killed } }

def Watched.advance (w : Watched) : WatchEvent → Option Watched
  | .main e => (w.program.advance e).map fun p => { w with program := p }
  | .emptied process =>
    if w.program.stage.watches then some (killServerOnLowResources rpc limitPercent process w)
    else none
  | .delivered =>
    if w.pending then (w.program.advance (.signal .SIGTERM)).map fun p => ⟨p, false⟩ else none

def WatchStep (w : Watched) (e : WatchEvent) (v : Watched) : Prop :=
  w.advance rpc limitPercent e = some v

end Watch

/-- The statements and signals of `main` that an event stands for. -/
def WatchEvent.heard : WatchEvent → List MainEvent
  | .main e => [e]
  | .emptied _ => []
  | .delivered => [.signal .SIGTERM]

/-- The media set becomes empty beyond the limits. -/
def WatchEvent.Refused (limitPercent : ℕ → ℕ) (e : WatchEvent) : Prop :=
  ∃ process, e = .emptied process ∧ Over limitPercent process

/-- There is a descriptor left whenever the media set becomes empty. -/
def WatchEvent.Measured (e : WatchEvent) : Prop :=
  ∀ process, e = .emptied process → ¬ Exhausted process

def Program.InLoop (p : Program) : Prop :=
  p.stage = .looping ∧ p.isRunning = true ∧ p.terminated = false

section KillLimit
variable {rpc : JsonRpc} {limitPercent : ℕ → ℕ} {w v u : Watched} {e : WatchEvent}
  {hist es : List WatchEvent} {p q : Program} {process : Process}

theorem WatchStep.cases (h : WatchStep rpc limitPercent w e v) :
    (∃ m, e = .main m ∧ MainStep w.program m v.program ∧ v.pending = w.pending) ∨
    (∃ process, e = .emptied process ∧ w.program.stage.watches = true ∧
      (Over limitPercent process ∧ v = { w with pending := true } ∨
        Exhausted process ∧ v = { w with program := { w.program with stage := .killed } } ∨
        ¬ Over limitPercent process ∧ ¬ Exhausted process ∧ v = w)) ∨
    (e = .delivered ∧ MainStep w.program (.signal .SIGTERM) v.program ∧ v.pending = false) := by
  cases e with
  | main m =>
    obtain ⟨p, hp, rfl⟩ := Option.map_eq_some_iff.mp h
    exact Or.inl ⟨m, rfl, hp, rfl⟩
  | emptied process =>
    simp only [WatchStep, Watched.advance] at h
    split_ifs at h with hs
    obtain rfl := Option.some.inj h
    refine Or.inr (Or.inl ⟨process, rfl, hs, ?_⟩)
    rw [killServerOnLowResources]
    rcases checkResources_result rpc limitPercent process with
      ⟨hover, e, he, hcode⟩ | ⟨hex, hf⟩ | ⟨hover, hex, hok⟩
    · rw [he]
      exact Or.inl ⟨hover, if_pos hcode⟩
    · rw [hf]
      exact Or.inr (Or.inl ⟨hex, rfl⟩)
    · rw [hok]
      exact Or.inr (Or.inr ⟨hover, hex, rfl⟩)
  | delivered =>
    simp only [WatchStep, Watched.advance] at h
    split_ifs at h
    obtain ⟨p, hp, rfl⟩ := Option.map_eq_some_iff.mp h
    exact Or.inr (Or.inr ⟨rfl, hp, rfl⟩)

theorem MainStep.not_ended {m : MainEvent} (h : MainStep p m q) : p.stage.ended = false := by
  cases m with
  | next => cases hs : p.stage <;> simp [MainStep, Program.advance, Program.next, hs] at h <;> rfl
  | fail => rcases h.of_fail.1 with hs | hs <;> rw [hs] <;> rfl
  | signal s => exact h.of_signal.1

theorem WatchStep.not_ended (h : WatchStep rpc limitPercent w e v) :
    w.program.stage.ended = false := by
  rcases h.cases with ⟨m, -, hm, -⟩ | ⟨process, -, hs, -⟩ | ⟨-, hm, -⟩
  · exact hm.not_ended
  · cases hstage : w.program.stage <;> rw [hstage] at hs <;> first | rfl | cases hs
  · exact hm.not_ended

/-- An event leaves `main` to do what it stands for. -/
theorem WatchStep.heard (h : WatchStep rpc limitPercent w e v) (hm : e.Measured) :
    Run MainStep w.program e.heard v.program := by
  rcases h.cases with ⟨m, rfl, hstep, -⟩ | ⟨process, rfl, -, hp⟩ | ⟨rfl, hstep, -⟩
  · exact Run.single hstep
  · rcases hp with ⟨-, rfl⟩ | ⟨hex, -⟩ | ⟨-, -, rfl⟩
    · exact .nil _
    · exact absurd hex (hm process rfl)
    · exact .nil _
  · exact Run.single hstep

/-- A SIGTERM is on its way if the limits have been passed since one came. -/
theorem WatchStep.pending (h : WatchStep rpc limitPercent w e v)
    (hw : w.pending = true ↔ Since (WatchEvent.Refused limitPercent) (· = .delivered) hist) :
    v.pending = true ↔ Since (WatchEvent.Refused limitPercent) (· = .delivered) (hist ++ [e]) := by
  rw [since_snoc, ← hw]
  rcases h.cases with ⟨m, rfl, -, hp⟩ | ⟨process, rfl, -, hp⟩ | ⟨rfl, -, hp⟩
  · simp [hp, WatchEvent.Refused]
  · rcases hp with ⟨hover, rfl⟩ | ⟨hex, rfl⟩ | ⟨hover, -, rfl⟩
    · simp [WatchEvent.Refused, hover]
    · have hno : ¬ Over limitPercent process := fun h => h.not_exhausted hex
      simp [WatchEvent.Refused, hno]
    · simp [WatchEvent.Refused, hover]
  · simp [hp, WatchEvent.Refused]

theorem WatchStep.of_over (hs : w.program.stage.watches = true) (h : Over limitPercent process) :
    WatchStep rpc limitPercent w (.emptied process) { w with pending := true } := by
  rw [WatchStep, Watched.advance, if_pos hs, killServerOnLowResources]
  rcases checkResources_result rpc limitPercent process with
    ⟨-, e, he, hcode⟩ | ⟨hex, -⟩ | ⟨hno, -⟩
  · rw [he]
    exact congrArg some (if_pos hcode)
  · exact absurd hex h.not_exhausted
  · exact absurd h hno

/-- A run leaves `main` to do what its events stand for. -/
theorem run_heard (h : Run (WatchStep rpc limitPercent) w es v) (hm : ∀ e ∈ es, e.Measured) :
    Run MainStep w.program (es.flatMap WatchEvent.heard) v.program := by
  induction h with
  | nil => exact .nil _
  | snoc _ hstep ih =>
    rw [List.flatMap_append, List.flatMap_singleton]
    exact (ih fun e he => hm e (List.mem_append_left _ he)).append (hstep.heard (hm _ (by simp)))

/-- `main` goes on as it does without the limit. -/
theorem run_main {ms : List MainEvent} (b : Bool) (h : Run MainStep p ms q) :
    Run (WatchStep rpc limitPercent) ⟨p, b⟩ (ms.flatMap fun m => [.main m]) ⟨q, b⟩ := by
  have hstep (p : Program) (m : MainEvent) (q : Program) (w : Watched) (hw : w = ⟨p, b⟩)
      (h : MainStep p m q) :
      ∃ v, Run (WatchStep rpc limitPercent) w [.main m] v ∧ v = ⟨q, b⟩ := by
    subst hw
    have hmain : WatchStep rpc limitPercent ⟨p, b⟩ (.main m) ⟨q, b⟩ :=
      Option.map_eq_some_iff.mpr ⟨q, h, rfl⟩
    exact ⟨_, Run.single hmain, rfl⟩
  obtain ⟨_, hrun, rfl⟩ := h.simulates (fun m => [WatchEvent.main m]) hstep rfl
  exact hrun

/-- `main` has done what the events stand for, or it has crashed at the last of them. -/
def Followed (hist : List WatchEvent) (w : Watched) : Prop :=
  ((∀ e ∈ hist, e.Measured) ∧ Run MainStep .begin (hist.flatMap WatchEvent.heard) w.program) ∨
  ∃ pre process p, hist = pre ++ [.emptied process] ∧ Exhausted process ∧
    (∀ e ∈ pre, e.Measured) ∧ Run MainStep .begin (pre.flatMap WatchEvent.heard) p ∧
    w.program = { p with stage := .killed }

theorem Followed.step (hw : Followed hist w) (h : WatchStep rpc limitPercent w e v) :
    Followed (hist ++ [e]) v := by
  rcases hw with ⟨hmeas, hrun⟩ | ⟨pre, process, p, -, -, -, -, hp⟩
  · by_cases hm : e.Measured
    · refine Or.inl ⟨fun f hf => ?_, ?_⟩
      · rcases List.mem_append.mp hf with hf | hf
        · exact hmeas f hf
        · rwa [List.mem_singleton.mp hf]
      · rw [List.flatMap_append, List.flatMap_singleton]
        exact hrun.append (h.heard hm)
    · simp only [WatchEvent.Measured, not_forall, not_not] at hm
      obtain ⟨process, rfl, hex⟩ := hm
      refine Or.inr ⟨hist, process, w.program, rfl, hex, hmeas, hrun, ?_⟩
      rcases h.cases with ⟨m, hm, -⟩ | ⟨process', hp, -, hcase⟩ | ⟨hd, -⟩
      · cases hm
      · cases hp
        rcases hcase with ⟨hover, -⟩ | ⟨-, rfl⟩ | ⟨-, hno, -⟩
        · exact absurd hex hover.not_exhausted
        · rfl
        · exact absurd hex hno
      · cases hd
  · have hend := h.not_ended
    rw [hp] at hend
    cases hend

/-- In the loop no statement is done before a signal to stop has come. -/
theorem MainStep.inLoop {m : MainEvent} (hp : p.InLoop) (h : MainStep p m q) :
    m ≠ .next ∧ (q.InLoop ∨ q.Leaving ∧ q.remaining = 3) := by
  obtain ⟨hs, hr, ht⟩ := hp
  cases m with
  | next => simp [MainStep, Program.advance, Program.next, hs, hr] at h
  | fail =>
    have hfail := h.of_fail.1
    simp [hs] at hfail
  | signal s =>
    refine ⟨by simp, ?_⟩
    by_cases hterm : s.terminates = true
    · exact Or.inr (h.leaves hs ht hterm)
    · rcases h.of_signal.2 with rfl | ⟨hno, -⟩
      · exact Or.inl ⟨by simpa using hs, by simp [hr, hterm], by simp [ht, hterm]⟩
      · rw [Stage.handles_of_looping (Or.inl hs)] at hno
        cases hno

theorem Program.Leaving.returns (hp : p.Leaving) :
    ∃ q ms, Run MainStep p ms q ∧ q.stage = .returned ∧ ∀ m ∈ ms, m = .next := by
  have hinv (p : Program) (m q) (hp : p.Leaving) (h : MainStep p m q) : q.Leaving := (h.leaving hp).1
  obtain ⟨ms, q, hq, hms, hzero⟩ : ∃ ms q, Run MainStep p ms q ∧
      (∀ m ∈ ms, (m == .next) = true) ∧ q.remaining = 0 :=
    Run.exists_used_up Program.remaining hinv
      (fun _ _ _ hp h => Nat.le_of_eq (h.leaving hp).2.symm)
      (fun _ hp h => (hp.next h).elim fun q hq => ⟨.next, q, rfl, hq⟩) _ hp
  exact ⟨q, ms, hq, (hq.invariant hinv hp).returned_iff.mpr hzero,
    fun m hm => beq_iff_eq.mp (hms m hm)⟩

def Program.Stopping (p : Program) : Prop := p.InLoop ∨ p.Leaving

theorem MainStep.stopping {m : MainEvent} (hp : p.Stopping) (h : MainStep p m q) :
    q.Stopping ∧ p.remaining = q.remaining + if m == .next then 1 else 0 := by
  rcases hp with hp | hp
  · obtain ⟨hm, hq⟩ := h.inLoop hp
    have hthree : p.remaining = 3 := by rw [Program.remaining, hp.1]
    rw [hthree, if_neg (by simpa using hm)]
    rcases hq with hq | ⟨hq, hq3⟩
    · exact ⟨Or.inl hq, by rw [Program.remaining, hq.1]⟩
    · exact ⟨Or.inr hq, by rw [hq3]⟩
  · obtain ⟨hq, hcount⟩ := h.leaving hp
    exact ⟨Or.inr hq, hcount⟩

theorem Program.Stopping.returned_iff (hp : p.Stopping) :
    p.stage = .returned ↔ p.remaining = 0 := by
  rcases hp with ⟨hs, -⟩ | hp
  · simp [remaining, hs]
  · exact hp.returned_iff

theorem sound_of_run {ms : List MainEvent} (h : Run MainStep .begin ms p) : Sound ms p :=
  h.history_invariant (motive := Sound) (fun _ _ _ _ hp hstep => hp.step hstep) sound_begin

theorem pending_iff (hrun : Run (WatchStep rpc limitPercent) .begin hist w) :
    w.pending = true ↔ Since (WatchEvent.Refused limitPercent) (· = .delivered) hist :=
  hrun.history_invariant (motive := fun hist w =>
    w.pending = true ↔ Since (WatchEvent.Refused limitPercent) (· = .delivered) hist)
    (fun _ _ _ _ hw h => h.pending hw) (iff_of_false Bool.false_ne_true (not_since_nil _ _))

theorem followed (hrun : Run (WatchStep rpc limitPercent) .begin hist w) : Followed hist w :=
  hrun.history_invariant (motive := Followed) (fun _ _ _ _ hw h => hw.step h)
    (Or.inl ⟨by simp, .nil _⟩)

theorem Followed.of_looping (h : Followed hist w) (hs : w.program.stage = .looping) :
    Run MainStep .begin (hist.flatMap WatchEvent.heard) w.program := by
  rcases h with ⟨-, h⟩ | ⟨pre, process, p, -, -, -, -, hp⟩
  · exact h
  · rw [hp] at hs
    cases hs

theorem measured_cons (hover : Over limitPercent process) (hes : ∀ e ∈ es, e.Measured) :
    ∀ e ∈ .emptied process :: es, e.Measured := by
  intro e he
  rcases List.mem_cons.mp he with rfl | he
  · rintro _ ⟨⟩
    exact hover.not_exhausted
  · exact hes e he

/-- In the loop the limit brings `main` to its end. -/
theorem Program.InLoop.ends (hw : w.program.InLoop) (hover : Over limitPercent process) :
    ∃ es v, Run (WatchStep rpc limitPercent) w (.emptied process :: es) v ∧
      (∀ e ∈ es, e = .delivered ∨ e = .main .next) ∧ v.program.stage = .returned := by
  obtain ⟨hs, -, ht⟩ := hw
  have hempty : WatchStep rpc limitPercent w (.emptied process) { w with pending := true } :=
    .of_over (by rw [hs]; rfl) hover
  have hsignal : MainStep w.program (.signal .SIGTERM) (signalHandler w.program .SIGTERM) := by
    simp [MainStep, Program.advance, hs, Stage.ended, Stage.handles]
  have hdelivered : WatchStep rpc limitPercent { w with pending := true } .delivered
      ⟨signalHandler w.program .SIGTERM, false⟩ := by
    rw [WatchStep, Watched.advance, if_pos rfl]
    exact Option.map_eq_some_iff.mpr ⟨_, hsignal, rfl⟩
  obtain ⟨q, ms, hq, hret, hms⟩ := (hsignal.leaves hs ht rfl).1.returns
  refine ⟨.delivered :: ms.flatMap fun m => [.main m], ⟨q, false⟩,
    ((Run.single hempty).append (Run.single hdelivered)).append (run_main false hq), ?_, hret⟩
  intro e he
  rcases List.mem_cons.mp he with rfl | he
  · exact Or.inl rfl
  · obtain ⟨m, hm, he⟩ := List.mem_flatMap.mp he
    rw [List.mem_singleton.mp he, hms m hm]
    exact Or.inr rfl

/-- From the loop on, with a SIGTERM that has been sent: the loop goes on only while the
signal is on its way, and quits with three statements left. -/
theorem Program.InLoop.quits (hrun : Run (WatchStep rpc limitPercent) .begin hist w)
    (hw : w.program.InLoop) (hover : Over limitPercent process)
    (hv : Run (WatchStep rpc limitPercent) w (.emptied process :: es) v)
    (hes : ∀ e ∈ es, e.Measured) :
    (v.program.isRunning = true → v.pending = true) ∧
      (es.flatMap WatchEvent.heard).countP (· == .next) ≤ 3 ∧
      (v.program.stage = .returned ↔
        (es.flatMap WatchEvent.heard).countP (· == .next) = 3) := by
  have hmain := (followed hrun).of_looping hw.1
  have hv' := run_heard hv (measured_cons hover hes)
  have hinv (p : Program) (m q) (hp : p.Stopping) (h : MainStep p m q) : q.Stopping :=
    (h.stopping hp).1
  have hvstop : v.program.Stopping := hv'.invariant hinv (Or.inl hw)
  have hcount := hv'.countP_add Program.remaining hinv (fun _ _ _ hp h => (h.stopping hp).2)
    (Or.inl hw)
  have hskip : (.emptied process :: es).flatMap WatchEvent.heard =
      es.flatMap WatchEvent.heard := rfl
  have hthree : w.program.remaining = 3 := by rw [Program.remaining, hw.1]
  rw [hskip, hthree] at hcount
  refine ⟨fun hvr => (pending_iff (hrun.append hv)).mpr
    ⟨hist, .emptied process, es, rfl, ⟨process, rfl, hover⟩, ?_⟩, by omega, ?_⟩
  · -- the loop has not quit, so the signal has not come
    rintro _ he rfl
    have hloop : v.program.InLoop := hvstop.resolve_right fun h => by
      rw [h.1] at hvr
      cases hvr
    have hmem : .signal .SIGTERM ∈ (.emptied process :: es).flatMap WatchEvent.heard :=
      List.mem_flatMap.mpr ⟨.delivered, List.mem_cons_of_mem _ he, List.mem_singleton_self _⟩
    have htold := ((sound_of_run (hmain.append hv')).terminated (by simp [hloop.1])).mpr
      ⟨.SIGTERM, rfl, List.mem_append_right _ hmem⟩
    rw [hloop.2.2] at htold
    cases htold
  · rw [hvstop.returned_iff]
    omega

/-- A server with a kill limit. Its own SIGTERM is on its way if and only if the media set
has become empty beyond the limits since one came last, and `main` does just what the
events stand for unless it crashes for want of a descriptor. In the loop the limit brings
`main` to its end if and only if it has not been told to stop before: then the loop goes on
only while the signal is on its way, and quits with three statements left. -/
theorem limit_stops (hrun : Run (WatchStep rpc limitPercent) .begin hist w) :
    (w.pending = true ↔ Since (WatchEvent.Refused limitPercent) (· = .delivered) hist) ∧
    Followed hist w ∧
    ∀ process, w.program.stage = .looping → w.program.isRunning = true →
      Over limitPercent process →
      ((∃ es v, Run (WatchStep rpc limitPercent) w (.emptied process :: es) v ∧
          (∀ e ∈ es, e = .delivered ∨ e = .main .next) ∧ v.program.stage = .returned) ↔
        ∀ s, s.terminates = true → .signal s ∉ hist.flatMap WatchEvent.heard) ∧
      ((∀ s, s.terminates = true → .signal s ∉ hist.flatMap WatchEvent.heard) →
        ∀ es v, Run (WatchStep rpc limitPercent) w (.emptied process :: es) v →
          (∀ e ∈ es, e.Measured) →
          (v.program.isRunning = true → v.pending = true) ∧
          (es.flatMap WatchEvent.heard).countP (· == .next) ≤ 3 ∧
          (v.program.stage = .returned ↔
            (es.flatMap WatchEvent.heard).countP (· == .next) = 3)) := by
  refine ⟨pending_iff hrun, followed hrun, fun process hs hr hover => ?_⟩
  have htold : w.program.terminated = true ↔
      ∃ s, s.terminates = true ∧ .signal s ∈ hist.flatMap WatchEvent.heard :=
    (sound_of_run ((followed hrun).of_looping hs)).terminated (by rw [hs]; nofun)
  have hloop : (∀ s, s.terminates = true → .signal s ∉ hist.flatMap WatchEvent.heard) →
      w.program.InLoop := fun hno => ⟨hs, hr, by
    rw [← Bool.not_eq_true, htold]
    exact fun ⟨s, hterm, hmem⟩ => hno s hterm hmem⟩
  refine ⟨⟨fun ⟨es, v, hv, hes, hret⟩ s hterm hmem => ?_, fun hno => (hloop hno).ends hover⟩,
    fun hno es v hv hes => (hloop hno).quits hrun hover hv hes⟩
  -- told before, the loop does not quit
  have hmeas : ∀ e ∈ es, e.Measured := fun e he process hp => by
    rcases hes e he with rfl | rfl <;> cases hp
  have hdeaf : w.program.Deaf := ⟨hs, hr, htold.mpr ⟨s, hterm, hmem⟩⟩
  have hvd : v.program.Deaf := (run_heard hv (measured_cons hover hmeas)).invariant
    (motive := Program.Deaf) (fun _ _ _ hd h => h.deaf hd) hdeaf
  rw [hvd.1] at hret
  cases hret

/-- The limits are passed in the loop, by the threads. -/
theorem limit_stops_threads : ∃ w es v,
    Run (WatchStep JsonRpc.plain eightyPercent) .begin (List.replicate 7 (.main .next)) w ∧
    Run (WatchStep JsonRpc.plain eightyPercent) w
      (.emptied (serverProcess 20 100 (by decide)) :: es) v ∧ v.program.stage = .returned := by
  obtain ⟨w, hrun, hs, hr⟩ : ∃ w, Run (WatchStep JsonRpc.plain eightyPercent) .begin
      (List.replicate 7 (.main .next)) w ∧ w.program.stage = .looping ∧
      w.program.isRunning = true := ⟨_, Run.of_foldlM rfl, rfl, rfl⟩
  have hno : ∀ s, s.terminates = true →
      .signal s ∉ (List.replicate 7 (.main .next)).flatMap WatchEvent.heard := by
    simp [WatchEvent.heard]
  obtain ⟨es, v, hv, -, hret⟩ := ((limit_stops hrun).2.2 (serverProcess 20 100 (by decide)) hs hr
    ⟨by simp [serverProcess], Or.inl (by decide)⟩).1.mpr hno
  exact ⟨w, es, v, hrun, hv, hret⟩

end KillLimit

end KurentoMediaServer.Main
