import KurentoMediaServer.Foundations.Run
import KurentoMediaServer.Transport.Message
import Mathlib.Logic.Function.Basic

/-! `processMessage` calls of different connections, interleaved. A call receives
the message and reads the session of its connection, runs the processor, and
stores the connection, each as one step. A store that overtakes none of the
session's later messages keeps every association in place; one that does moves
the session back to the older connection. -/

namespace KurentoMediaServer.Transport

open Foundations Methods

variable {σ Hdl : Type} [DecidableEq Hdl]

/-- A call under way, with the number its message was received under. -/
inductive Call where
  /-- The session of the connection has been read. -/
  | waiting (received : ℕ) (payload sessionId : String)
  /-- The processor has returned a response and its session. -/
  | answered (received : ℕ) (response sessionId : String)

/-- The transport with the calls under way. `since` records under which number
the message was received whose store last wrote a session. -/
structure Concurrent (σ Hdl : Type) extends State σ Hdl where
  calls : Hdl → Option Call
  clock : ℕ
  since : String → ℕ

/-- The steps of the calls. A store shows the number of its message and the
session it stores. -/
inductive CallEvent (Hdl : Type) where
  | receive (hdl : Hdl)
  | process (hdl : Hdl)
  | store (hdl : Hdl) (received : ℕ) (sessionId : String)
  | close (hdl : Hdl)

def Concurrent.start (server : σ) : Concurrent σ Hdl :=
  ⟨⟨.empty, server, []⟩, fun _ => none, 0, fun _ => 0⟩

inductive CallStep (processor : Processor σ) :
    Concurrent σ Hdl → CallEvent Hdl → Concurrent σ Hdl → Prop
  | receive {t : Concurrent σ Hdl} (hdl : Hdl) (payload : String) : t.calls hdl = none →
      CallStep processor t (.receive hdl)
        { t with calls := Function.update t.calls hdl
                   (some (.waiting t.clock payload (t.session hdl)))
                 clock := t.clock + 1 }
  | process {t : Concurrent σ Hdl} {hdl : Hdl} {received : ℕ} {payload sessionId : String}
      {response newSessionId : String} {server : σ} :
      t.calls hdl = some (.waiting received payload sessionId) →
      processor.process payload sessionId t.server = some (.ok (response, newSessionId), server) →
      CallStep processor t (.process hdl)
        { t with server, calls := Function.update t.calls hdl
                   (some (.answered received response newSessionId)) }
  | throw {t : Concurrent σ Hdl} {hdl : Hdl} {received : ℕ} {payload sessionId : String}
      {e : Exc} {server : σ} :
      t.calls hdl = some (.waiting received payload sessionId) →
      processor.process payload sessionId t.server = some (.error e, server) →
      CallStep processor t (.process hdl)
        { t with server, calls := Function.update t.calls hdl none }
  | store {t : Concurrent σ Hdl} {hdl : Hdl} {received : ℕ} {response sessionId : String}
      (alive : Hdl → Bool) (secure : Bool) {result : Except Exc Unit} {tables : Tables Hdl}
      {server : σ} :
      t.calls hdl = some (.answered received response sessionId) → alive hdl = true →
      storeConnection processor.keepAliveSession alive hdl secure sessionId t.tables t.server =
        (result, tables, server) →
      CallStep processor t (.store hdl received sessionId)
        { t with tables, server
                 sent := match result with
                   | .ok () => t.sent ++ [(hdl, response)]
                   | .error _ => t.sent
                 calls := Function.update t.calls hdl none
                 since := Function.update t.since sessionId received }
  | close {t : Concurrent σ Hdl} (hdl : Hdl) :
      CallStep processor t (.close hdl) { t with tables := closeHandler hdl t.tables }

/-- A call that nothing interrupts is `processMessage`. -/
theorem processMessage_uninterrupted (processor : Processor σ) {alive : Hdl → Bool} {secure : Bool}
    {hdl : Hdl} {payload : String} {t : Concurrent σ Hdl} {t' : State σ Hdl}
    (hfree : t.calls hdl = none) (hc : alive hdl = true)
    (h : processMessage processor alive secure hdl payload t.toState = some (.ok (), t')) :
    ∃ s u, Run (CallStep processor) t
        [.receive hdl, .process hdl, .store hdl t.clock s] u ∧ u.toState = t' := by
  simp only [processMessage] at h
  split at h
  · contradiction
  · simp at h
  · next response sessionId server hp =>
    rcases hst : storeConnection processor.keepAliveSession alive hdl secure sessionId t.tables
        server with ⟨e | _, tables, server'⟩
    · simp [hst] at h
    · have hr : Run (CallStep processor) _ _ _ := Run.single (CallStep.receive hdl payload hfree)
      have hr2 := hr.snoc (.process (Function.update_self ..) hp)
      have hr3 := hr2.snoc (.store alive secure (Function.update_self ..) hc hst)
      refine ⟨sessionId, _, hr3, ?_⟩
      simpa [hst] using h

/-! ### The associations of a history -/

/-- A store of a session links it to the connection; a close unlinks it. -/
def CallEvent.op : CallEvent Hdl → Option (Matching.Op String Hdl)
  | .store hdl _ s => if s = "" then none else some (.link s hdl)
  | .close hdl => some (.unlink hdl)
  | _ => none

/-- What may end the association that the message received as `r` on `c` gave the
session `s`: `c` is closed, `c` is stored in another session, or a message
received after it on another connection is stored in `s`. -/
def Ends (c : Hdl) (r : ℕ) (s : String) : CallEvent Hdl → Prop
  | .close c' => c' = c
  | .store c' r' s' => (c' = c ∧ s' ≠ "" ∧ s' ≠ s) ∨ (c' ≠ c ∧ s' = s ∧ r < r')
  | _ => False

/-- The message received as `r` on `c` was stored in `s` and nothing has happened
since that may end the association. -/
def Owns (hist : List (CallEvent Hdl)) (c : Hdl) (r : ℕ) (s : String) : Prop :=
  Since (fun e => e = .store c r s) (Ends c r s) hist

/-- A session stays with the connection whose message was stored in it, however
late earlier messages of other connections are stored. -/
def SessionKept (hist : List (CallEvent Hdl)) (t : Concurrent σ Hdl) : Prop :=
  ∀ c r s, s ≠ "" → Owns hist c r s → t.tables.connections.lookup s = some c

/-- A store finds its session free, with its own connection, or with one whose
message was received earlier. -/
def InOrder (t : Concurrent σ Hdl) : CallEvent Hdl → Prop
  | .store c r s => s = "" ∨ ∀ c', t.tables.connections.lookup s = some c' → c' ≠ c → t.since s < r
  | _ => True

def Call.received : Call → ℕ
  | .waiting r _ _ => r
  | .answered r _ _ => r

/-- How the tables, the numbers and the calls under way relate to the steps so
far. Numbers are given out in order, so the messages a connection has had stored
are older than the one it is processing. -/
structure Tracked (hist : List (CallEvent Hdl)) (t : Concurrent σ Hdl) : Prop where
  tables : t.tables.Implements (Matching.run (hist.filterMap CallEvent.op))
  stored_lt : ∀ c r s, CallEvent.store c r s ∈ hist → r < t.clock
  received_lt : ∀ c k, t.calls c = some k → k.received < t.clock
  older : ∀ c k, t.calls c = some k → ∀ r s, CallEvent.store c r s ∈ hist → r < k.received
  owner : ∀ c s, s ≠ "" → t.tables.connections.lookup s = some c → Owns hist c (t.since s) s

omit [DecidableEq Hdl] in
theorem owns_snoc (hist : List (CallEvent Hdl)) (e : CallEvent Hdl) (c : Hdl) (r : ℕ) (s : String) :
    Owns (hist ++ [e]) c r s ↔ e = .store c r s ∨ (Owns hist c r s ∧ ¬ Ends c r s e) :=
  since_snoc hist e

theorem tracked_start (server : σ) : Tracked ([] : List (CallEvent Hdl)) (.start server) where
  tables := implements_empty
  stored_lt := by simp
  received_lt := by simp [Concurrent.start]
  older := by simp
  owner := by simp [Concurrent.start, Tables.empty]

theorem CallStep.tables {processor : Processor σ} {t t' : Concurrent σ Hdl} {e : CallEvent Hdl}
    (h : CallStep processor t e t') {hist : List (CallEvent Hdl)}
    (ht : t.tables.Implements (Matching.run (hist.filterMap CallEvent.op))) :
    t'.tables.Implements (Matching.run ((hist ++ [e]).filterMap CallEvent.op)) := by
  rw [Matching.run_filterMap_snoc]
  cases h with
  | receive | process | throw => exact ht
  | close hdl => exact closeHandler_implements hdl ht
  | @store hdl r _ s _ secure _ _ _ hcall hc hst =>
    by_cases hs : s = ""
    · subst hs
      obtain ⟨-, rfl, -⟩ := Prod.mk.inj hst |>.imp_right Prod.mk.inj
      simpa [CallEvent.op] using ht
    · have h := storeConnection_implements processor.keepAliveSession secure t.server ht hc hs
      rw [hst] at h
      simpa [CallEvent.op, hs, Matching.Op.apply] using h

/-- What a step does to the calls under way: a receive starts one under the next
number, a store ends the one it stores, and no other step changes a number. -/
theorem CallStep.calls {processor : Processor σ} {t t' : Concurrent σ Hdl} {e : CallEvent Hdl}
    (h : CallStep processor t e t') :
    t.clock ≤ t'.clock ∧
    (∀ c k, t'.calls c = some k → (k.received = t.clock ∧ t.clock < t'.clock ∧ e = .receive c) ∨
      (∃ k₀, t.calls c = some k₀ ∧ k₀.received = k.received ∧ ∀ r s, e ≠ .store c r s)) ∧
    ∀ c r s, e = .store c r s → ∃ k, t.calls c = some k ∧ k.received = r := by
  cases h with
  | receive hdl payload free =>
    refine ⟨Nat.le_succ _, fun c k hk => ?_, by simp⟩
    simp only [Function.update_apply] at hk
    split_ifs at hk with hc
    · obtain rfl := Option.some.inj hk
      exact Or.inl ⟨rfl, Nat.lt_succ_self _, by rw [hc]⟩
    · exact Or.inr ⟨k, hk, rfl, by simp⟩
  | @process hdl r payload _ response _ _ hcall _ =>
    refine ⟨le_rfl, fun c k hk => Or.inr ?_, by simp⟩
    simp only [Function.update_apply] at hk
    split_ifs at hk with hc
    · obtain rfl := Option.some.inj hk
      exact ⟨.waiting r payload _, hc ▸ hcall, rfl, by simp⟩
    · exact ⟨k, hk, rfl, by simp⟩
  | throw hcall _ =>
    refine ⟨le_rfl, fun c k hk => Or.inr ?_, by simp⟩
    simp only [Function.update_apply] at hk
    split_ifs at hk
    exact ⟨k, hk, rfl, by simp⟩
  | @store hdl r response s _ _ _ _ _ hcall _ _ =>
    refine ⟨le_rfl, fun c k hk => Or.inr ?_, fun c r' s' he => ?_⟩
    · simp only [Function.update_apply] at hk
      split_ifs at hk with hc
      refine ⟨k, hk, rfl, fun r' s' he => hc ?_⟩
      cases he
      rfl
    · cases he
      exact ⟨_, hcall, rfl⟩
  | close => exact ⟨le_rfl, fun c k hk => Or.inr ⟨k, hk, rfl, by simp⟩, by simp⟩

theorem CallStep.since {processor : Processor σ} {t t' : Concurrent σ Hdl} {e : CallEvent Hdl}
    (h : CallStep processor t e t') (s : String) :
    (∀ c r, e = .store c r s → t'.since s = r) ∧
    ((∀ c r, e ≠ .store c r s) → t'.since s = t.since s) := by
  cases h with
  | receive | process | throw | close => exact ⟨by simp, fun _ => rfl⟩
  | @store hdl r _ s' =>
    refine ⟨fun c r' he => ?_, fun hne => ?_⟩
    · cases he
      exact Function.update_self ..
    · exact Function.update_of_ne (fun hs => hne hdl r (by rw [hs])) ..

omit [DecidableEq Hdl] in
/-- What may end an association unlinks the session and the connection, or links
one of them elsewhere. -/
theorem Ends.breaks {c : Hdl} {r : ℕ} {s : String} {e : CallEvent Hdl} (hs : s ≠ "")
    (h : Ends c r s e) : ∃ o, e.op = some o ∧ o.Breaks s c := by
  cases e with
  | receive | process => exact h.elim
  | close c' => exact ⟨_, rfl, h⟩
  | store c' r' s' =>
    rcases h with ⟨rfl, h1, h2⟩ | ⟨h1, rfl, -⟩
    · exact ⟨.link s' c', by simp [CallEvent.op, h1], Or.inr ⟨h2, rfl⟩⟩
    · exact ⟨.link s' c', by simp [CallEvent.op, hs], Or.inl ⟨rfl, h1⟩⟩

omit [DecidableEq Hdl] in
theorem op_eq_link {e : CallEvent Hdl} {s : String} {c : Hdl} (h : e.op = some (.link s c)) :
    ∃ r, e = .store c r s := by
  cases e with
  | store c' r' s' =>
    simp only [CallEvent.op] at h
    split_ifs at h
    obtain ⟨rfl, rfl⟩ : s' = s ∧ c' = c := by simpa using h
    exact ⟨r', rfl⟩
  | _ => simp [CallEvent.op] at h

theorem CallStep.tracked {processor : Processor σ} {t t' : Concurrent σ Hdl} {e : CallEvent Hdl}
    (h : CallStep processor t e t') {hist : List (CallEvent Hdl)} (ht : Tracked hist t) :
    Tracked (hist ++ [e]) t' := by
  obtain ⟨hclock, hcalls, hstore⟩ := h.calls
  have htables := h.tables ht.tables
  refine ⟨htables, fun c r s hm => ?_, fun c k hk => ?_, fun c k hk r s hm => ?_,
    fun c s hs hc => ?_⟩
  · rcases List.mem_append.mp hm with hm | hm
    · exact (ht.stored_lt c r s hm).trans_le hclock
    · obtain ⟨k, hk, rfl⟩ := hstore c r s (List.mem_singleton.mp hm).symm
      exact (ht.received_lt c k hk).trans_le hclock
  · rcases hcalls c k hk with ⟨h1, h2, -⟩ | ⟨k₀, hk₀, h1, -⟩
    · exact h1 ▸ h2
    · exact h1 ▸ (ht.received_lt c k₀ hk₀).trans_le hclock
  · rcases hcalls c k hk with ⟨h1, -, he⟩ | ⟨k₀, hk₀, h1, he⟩
    · have hm' : CallEvent.store c r s ∈ hist := by simpa [he] using hm
      exact h1 ▸ ht.stored_lt c r s hm'
    · have hm' : CallEvent.store c r s ∈ hist := by simpa [(he r s).symm] using hm
      exact h1 ▸ ht.older c k₀ hk₀ r s hm'
  · -- the pair was written by this step, or stood before and was not touched
    rw [htables.1, Matching.run_filterMap_iff, Matching.StandingBy, since_snoc] at hc
    rw [owns_snoc]
    rcases hc with hop | ⟨hold, hkeep⟩
    · obtain ⟨r, he⟩ := op_eq_link hop
      exact Or.inl ((h.since s).1 c r he ▸ he)
    · rw [← Matching.StandingBy, ← Matching.run_filterMap_iff, ← ht.tables.1] at hold
      by_cases hst : ∃ c' r, e = .store c' r s
      · obtain ⟨c', r, rfl⟩ := hst
        obtain rfl : c' = c := by
          by_contra hne
          exact hkeep ⟨.link s c', by simp [CallEvent.op, hs], Or.inl ⟨rfl, hne⟩⟩
        exact Or.inl (by rw [(h.since s).1 c' r rfl])
      · rw [(h.since s).2 fun c' r he => hst ⟨c', r, he⟩]
        exact Or.inr ⟨ht.owner c s hs hold, fun hends => hkeep (hends.breaks hs)⟩

theorem tracked_run {processor : Processor σ} {server : σ} {t : Concurrent σ Hdl}
    {hist : List (CallEvent Hdl)} (h : Run (CallStep processor) (.start server) hist t) :
    Tracked hist t :=
  h.history_invariant (fun _ _ _ _ ht hstep => hstep.tracked ht) (tracked_start server)

def Kept (hist : List (CallEvent Hdl)) (t : Concurrent σ Hdl) : Prop :=
  ∀ c r s, s ≠ "" → Owns hist c r s →
    t.tables.connections.lookup s = some c ∧ r ≤ t.since s

theorem CallStep.kept {processor : Processor σ} {t t' : Concurrent σ Hdl} {e : CallEvent Hdl}
    (h : CallStep processor t e t') {hist : List (CallEvent Hdl)} (ht : Tracked hist t)
    (hkept : Kept hist t) (hin : InOrder t e) : Kept (hist ++ [e]) t' := by
  intro c r s hs ho
  have htables := (h.tables ht.tables).1 s
  rw [Matching.run_filterMap_snoc] at htables
  rcases (owns_snoc hist e c r s).mp ho with rfl | ⟨hold, hne⟩
  · rw [(h.since s).1 c r rfl, htables]
    simp [CallEvent.op, hs, Matching.Op.apply, Matching.link_apply_iff]
  · obtain ⟨hc, hr⟩ := hkept c r s hs hold
    have hm : Matching.run (hist.filterMap CallEvent.op) s = some c := by rw [← ht.tables.1, hc]
    cases e with
    | receive | process => exact ⟨by rw [htables]; exact hm, by rwa [(h.since s).2 (by simp)]⟩
    | close c' =>
      have hc' : c' ≠ c := hne
      refine ⟨?_, by rwa [(h.since s).2 (by simp)]⟩
      rw [htables]
      simp [CallEvent.op, Matching.Op.apply, Matching.unlink_apply_iff, hm, hc'.symm]
    | store c' r' s' =>
      by_cases hss : s' = s
      · subst hss
        rw [(h.since s').1 c' r' rfl, htables]
        by_cases hcc : c' = c
        · -- the owner itself stores the session again, for a later message
          subst hcc
          obtain ⟨k, hk, rfl⟩ := h.calls.2.2 c' r' s' rfl
          obtain ⟨pre, _, post, rfl, rfl, -⟩ := hold
          have hlt := ht.older c' k hk r s' (by simp)
          refine ⟨?_, hlt.le⟩
          simp [CallEvent.op, hs, Matching.Op.apply, Matching.link_apply_iff]
        · have hlt := (hin.resolve_left hs) c hc fun h => hcc h.symm
          have hle : ¬ r < r' := fun h => hne (Or.inr ⟨hcc, rfl, h⟩)
          omega
      · rw [(h.since s).2 (by simpa using hss), htables]
        refine ⟨?_, hr⟩
        by_cases hs' : s' = ""
        · simp [CallEvent.op, hs', hm]
        · have hcc : c ≠ c' := fun h => hne (Or.inl ⟨h.symm, hs', hss⟩)
          simp [CallEvent.op, hs', Matching.Op.apply, Matching.link_apply_iff, hm, hcc, Ne.symm hss]

/-- In a run whose stores are all in order a session stays with the connection
whose message was stored in it last by order of receipt, whatever is stored or
closed late. A store out of order ends that at once. -/
theorem session_kept {processor : Processor σ} {server : σ} {t : Concurrent σ Hdl}
    {hist : List (CallEvent Hdl)}
    (hrun : Run (Guarded InOrder (CallStep processor)) (.start server) hist t) :
    SessionKept hist t ∧
    ∀ e t', CallStep processor t e t' → (InOrder t e ↔ SessionKept (hist ++ [e]) t') := by
  have htr := tracked_run hrun.unguarded
  have hkept : Tracked hist t ∧ Kept hist t :=
    hrun.history_invariant (motive := fun hist t => Tracked hist t ∧ Kept hist t)
      (fun _ _ _ _ ht hstep => ⟨hstep.2.tracked ht.1, hstep.2.kept ht.1 ht.2 hstep.1⟩)
      ⟨tracked_start server, fun _ _ _ _ h => absurd h (not_since_nil _ _)⟩
  refine ⟨fun c r s hs ho => (hkept.2 c r s hs ho).1, fun e t' hstep => ⟨fun hin c r s hs ho =>
    (hstep.kept htr hkept.2 hin c r s hs ho).1, fun hk => ?_⟩⟩
  cases e with
  | store c r s =>
    refine or_iff_not_imp_left.mpr fun hs c' hc' hne => ?_
    by_contra hle
    -- the owner the store displaces would have to keep the session
    have ho := htr.owner c' s hs hc'
    have h1 := hk c' (t.since s) s hs ((owns_snoc ..).mpr (Or.inr ⟨ho, by simp [Ends, hs, hne.symm, hle]⟩))
    have h2 := (hstep.tables htr.tables).1 s
    rw [h1, Matching.run_filterMap_snoc] at h2
    simp only [CallEvent.op, hs, ↓reduceIte, Matching.Op.apply] at h2
    rcases (Matching.link_apply_iff _ s s c c').mp h2.symm with ⟨-, h⟩ | ⟨h, -⟩
    · exact hne h
    · exact h rfl
  | _ => trivial

/-! ### A slow request of an older connection -/

def connecting : Processor Unit :=
  serverMethods JsonRpc.plain (.ofValues [connectRequest]) echoSession fun _ st => (.ok (), st)

/-- The session moves to the connection whose connect came later, and stays with it when
the first connection is closed. -/
theorem session_kept_takeover :
    ∃ t, Run (Guarded InOrder (CallStep connecting)) (.start ()) [.receive 0, .process 0, .store 0 0 "s",
        .receive 1, .process 1, .store 1 1 "s", .close 0] t ∧
      t.tables.connections.lookup "s" = some 1 := by
  have hrun : ∃ t, Run (Guarded InOrder (CallStep connecting)) (.start ()) [.receive 0, .process 0,
      .store 0 0 "s", .receive 1, .process 1, .store 1 1 "s", .close 0] t := by
    refine ⟨_, ((((((Run.single ⟨trivial, .receive 0 connectRequest.text rfl⟩).snoc
      ⟨trivial, .process rfl rfl⟩).snoc ⟨Or.inr nofun, .store (fun _ => true) false rfl rfl rfl⟩).snoc
      ⟨trivial, .receive 1 connectRequest.text rfl⟩).snoc ⟨trivial, .process rfl rfl⟩).snoc
      ⟨Or.inr fun _ _ _ => by decide, .store (fun _ => true) false rfl rfl rfl⟩).snoc
      ⟨trivial, .close 0⟩⟩
  obtain ⟨t, ht⟩ := hrun
  have howns : Owns [.receive 0, .process 0, .store 0 0 "s", .receive 1, .process 1, .store 1 1 "s",
      .close 0] 1 1 "s" :=
    ⟨[.receive 0, .process 0, .store 0 0 "s", .receive 1, .process 1], _, [.close 0], rfl, rfl,
      by simp [Ends]⟩
  exact ⟨t, ht, (session_kept ht).1 1 1 "s" (by decide) howns⟩

/-- Connections 0 and 1 receive a connect in session `s`, in this order, and the
stores are made in the other order: the session moves back to connection 0, and
is lost when that is closed. -/
theorem session_not_kept :
    ∃ t, Run (CallStep connecting) (.start ()) [.receive 0, .receive 1, .process 1, .store 1 1 "s",
        .process 0, .store 0 0 "s", .close 0] t ∧
      ¬ SessionKept [.receive 0, .receive 1, .process 1, .store 1 1 "s",
        .process 0, .store 0 0 "s", .close 0] t := by
  refine ⟨_, ((((((Run.single (.receive 0 connectRequest.text rfl)).snoc
    (.receive 1 connectRequest.text rfl)).snoc (.process rfl rfl)).snoc
    (.store (fun _ => true) false rfl rfl rfl)).snoc (.process rfl rfl)).snoc
    (.store (fun _ => true) false rfl rfl rfl)).snoc (.close 0), fun hk => ?_⟩
  have howns : Owns [.receive 0, .receive 1, .process 1, .store 1 1 "s", .process 0,
      .store 0 0 "s", .close 0] 1 1 "s" :=
    ⟨[.receive 0, .receive 1, .process 1], _, [.process 0, .store 0 0 "s", .close 0], rfl, rfl,
      by simp [Ends]⟩
  have h := hk 1 1 "s" (by decide) howns
  cases h

end KurentoMediaServer.Transport
