import KurentoMediaServer.Methods.Frame

/-! What a transaction that throws leaves behind. The handler is run with a record of
its responses. Operations are checked one at a time, each after those before it have
been executed, so an operation that is malformed after the first makes the transaction
throw, and the responses recorded by then reach nobody. -/

namespace KurentoMediaServer.Methods

open Foundations Cache

variable {σ τ : Type}

/-- A handler with a record of its responses. -/
def recording (handler : Json → τ → Option ((Bool × Json) × τ)) (request : Json)
    (st : τ × List Json) : Option ((Bool × Json) × (τ × List Json)) :=
  (handler request st.1).map fun r => (r.1, r.2, st.2 ++ [r.1.2])

theorem recording_eq_some {handler : Json → τ → Option ((Bool × Json) × τ)} {request : Json}
    {st t : τ × List Json} {r : Bool × Json} :
    recording handler request st = some (r, t) ↔
      handler request st.1 = some (r, t.1) ∧ t.2 = st.2 ++ [r.2] := by
  obtain ⟨t, log⟩ := t
  simp only [recording, Option.map_eq_some_iff, Prod.mk.injEq]
  constructor
  · rintro ⟨⟨r', u⟩, h, rfl, rfl, rfl⟩
    exact ⟨h, rfl⟩
  · rintro ⟨h, rfl⟩
    exact ⟨(r, t), h, rfl, rfl, rfl⟩

theorem execute_recording (request : ℕ → Json → List Json → Except Exc Json)
    (handler : Json → τ → Option ((Bool × Json) × τ)) (ops rs : List Json) (st : τ) :
    execute request (recording handler) ops rs (st, rs) =
      (execute request handler ops rs st).map fun r => (r.1, r.2.1, r.2.2, r.2.1) := by
  induction ops generalizing rs st with
  | nil => rfl
  | cons op rest ih =>
    simp only [execute, recording]
    cases request rs.length op rs with
    | error e => rfl
    | ok req =>
      dsimp only
      rcases handler req st with _ | ⟨⟨ret, v⟩, u⟩
      · rfl
      · cases ret
        · rfl
        · exact ih _ _

variable (rpc : JsonRpc) (core : Core σ)

/-- The record makes no difference to the loop. -/
theorem transactionLoop_recording (handler : Json → τ → Option ((Bool × Json) × τ))
    (uniqueId sessionId : String) (i : ℕ) (ops : List Json) (responses : Json) (st : τ × List Json) :
    (transactionLoop rpc (recording handler) uniqueId sessionId i ops responses st).map
        (fun r => (r.1, r.2.1)) =
      transactionLoop rpc handler uniqueId sessionId i ops responses st.1 := by
  induction ops generalizing i responses st with
  | nil => rfl
  | cons op rest ih =>
    simp only [transactionLoop, recording]
    rcases prepare rpc uniqueId sessionId i op responses with e | ⟨req, responses⟩
    · rfl
    · dsimp only
      rcases handler req st.1 with _ | ⟨⟨ret, v⟩, u⟩
      · rfl
      · simp only [Option.map_some]
        rcases recordResponse i responses v with e | responses
        · rfl
        · cases ret
          · rfl
          · exact ih _ _ _

theorem transaction_erase (handler : Json → Server σ → Option ((Bool × Json) × Server σ))
    (params : Json) (st : Server σ) :
    (transactionOver rpc core (·, []) (recording handler) params st).map (fun r => (r.1, r.2.1)) =
      transaction rpc core handler params st := by
  simp only [transaction, transactionOver]
  rcases transactionParams rpc core params st.media (st.drawn + 1) with ⟨e | ⟨s, ops⟩, media, drawn⟩
  · rfl
  · have hloop := transactionLoop_recording rpc handler (core.uuid st.drawn) s 0 ops .null
      ({ st with media, drawn }, [])
    simp only [id, ← hloop]
    rcases transactionLoop rpc (recording handler) (core.uuid st.drawn) s 0 ops .null
      ({ st with media, drawn }, []) with _ | ⟨e | v, t⟩ <;> rfl

/-- Whatever comes of the transaction: if it throws, no operation has been executed and
the server is as it was; if an operation has been executed, the value has the response
of every one. -/
def Reported (handler : Json → Server σ → Option ((Bool × Json) × Server σ)) (params : Json)
    (st : Server σ) : Prop :=
  ∀ result t log, transactionOver rpc core (·, []) (recording handler) params st =
      some (result, t, log) →
    (∀ e, result = .error e → log = [] ∧ t.media = st.media ∧ t.cache = st.cache) ∧
    (log ≠ [] → ∃ sessionId, result =
      .ok (.object [("value", .arr (log.mapIdx withId)), ("sessionId", .str sessionId)]))

/-- An operation after the first is malformed, and all operations before it, handed over
in order, return true. -/
def LateMalformed (handler : Json → Server σ → Option ((Bool × Json) × Server σ)) (params : Json)
    (st : Server σ) : Prop :=
  ∃ sessionId pre op post media drawn rs t e,
    transactionParams rpc core params st.media (st.drawn + 1) =
      (.ok (sessionId, pre ++ op :: post), media, drawn) ∧
    pre ≠ [] ∧
    execute (prepared rpc (core.uuid st.drawn) sessionId) handler pre [] { st with media, drawn } =
      some (.ok true, rs, t) ∧
    prepared rpc (core.uuid st.drawn) sessionId pre.length op rs = .error e

section Reported
variable {rpc core} {jsonrpc : RpcHandler} {depth : ℕ} {params : Json} {st : Server σ}

variable (jsonrpc) (depth) in
/-- The transaction with the record, as its operations handed over. -/
theorem transaction_recording {sessionId : String} {operations : List Json} {media : σ} {drawn : ℕ}
    (hst : st.cache.Records)
    (hp : transactionParams rpc core params st.media (st.drawn + 1) =
      (.ok (sessionId, operations), media, drawn)) :
    transactionOver rpc core (·, []) (recording (handlerProcess rpc core jsonrpc depth)) params st =
      (execute (prepared rpc (core.uuid st.drawn) sessionId) (handlerProcess rpc core jsonrpc depth)
        operations [] { st with media, drawn }).map fun r =>
          (r.1.map fun _ => .object [("value", .arr (r.2.1.mapIdx withId)),
            ("sessionId", .str sessionId)], r.2.2, r.2.1) := by
  have hh : ∀ i req (st' : Server σ × List Json) ret v t, req.isObject = true →
      req.member? "id" = some (.str (internalId (core.uuid st.drawn) i)) → st'.1.cache.Records →
      recording (handlerProcess rpc core jsonrpc depth) req st' = some ((ret, v), t) →
      v.isRecord = true ∧ t.1.cache.Records := by
    intro i req st' ret v t _ hid hst' hr
    exact handlerProcess_record ⟨_, hid, rfl, rfl⟩ hst' (recording_eq_some.mp hr).1
  rw [transactionOver_eq (I := fun _ st => st.1.cache.Records) hp hh hst, execute_recording,
    Option.map_map]
  rfl

/-- A transaction loses the responses of executed operations exactly when an operation
after the first is malformed and is reached. -/
theorem reported_iff (hst : st.cache.Records) :
    Reported rpc core (handlerProcess rpc core jsonrpc depth) params st ↔
      ¬ LateMalformed rpc core (handlerProcess rpc core jsonrpc depth) params st := by
  constructor
  · rintro hrep ⟨sessionId, pre, op, post, media, drawn, rs, t, e, hp, hpre, hrun, he⟩
    have hlen := (execute_length hrun).2 rfl
    rw [List.length_nil, Nat.zero_add] at hlen
    have herr := execute_eq_error.mpr ⟨pre, op, post, rfl, hrun, hlen ▸ he⟩
    have hne : rs ≠ [] := by
      rw [← List.length_pos_iff, hlen]
      exact List.length_pos_iff.mpr hpre
    have hrec := transaction_recording jsonrpc depth hst hp
    rw [herr] at hrec
    exact hne ((hrep _ _ _ hrec).1 e rfl).1
  · intro hlate result t log h
    rcases hp : transactionParams rpc core params st.media (st.drawn + 1) with
      ⟨e | ⟨sessionId, operations⟩, media, drawn⟩
    · obtain ⟨rfl, -⟩ := transactionParams_eq hp
      simp only [transactionOver, hp, Option.some.injEq, Prod.mk.injEq] at h
      obtain ⟨rfl, rfl, rfl⟩ := h
      exact ⟨fun _ _ => ⟨rfl, rfl, rfl⟩, fun hne => absurd rfl hne⟩
    · obtain ⟨rfl, -⟩ := transactionParams_eq hp
      rw [transaction_recording jsonrpc _ hst hp, Option.map_eq_some_iff] at h
      obtain ⟨⟨x, rs, u⟩, hrun, h⟩ := h
      cases h
      cases x with
      | ok complete => exact ⟨fun _ he => (by cases he), fun _ => ⟨sessionId, rfl⟩⟩
      | error e =>
        obtain ⟨pre, op, post, rfl, hpre, he⟩ := execute_eq_error.mp hrun
        have hlen := (execute_length hpre).2 rfl
        rw [List.length_nil, Nat.zero_add] at hlen
        -- with no operation before it the malformed one is the first
        obtain rfl : pre = [] := by
          by_contra hne
          exact hlate ⟨sessionId, pre, op, post, st.media, drawn, rs, u, e, hp, hne, hpre, hlen ▸ he⟩
        cases hpre
        exact ⟨fun _ _ => ⟨rfl, rfl, rfl⟩, fun hne => absurd rfl hne⟩

end Reported

/-- An operation whose id is not its position. -/
def misnumbered : Json := .obj [("id", .int 7), ("jsonrpc", .str "2.0"), ("method", .str "create"),
  ("params", .obj [("type", .str "MediaPipeline")])]

/-- The params of a transaction that makes an object before it meets that operation. -/
def misnumberedParams : Json :=
  .obj [("operations", .arr [.obj [("id", .int 0), ("jsonrpc", .str "2.0"),
    ("method", .str "create"), ("params", .obj [("type", .str "MediaPipeline")])], misnumbered]),
    ("sessionId", .str "s")]

def numberedParams : Json :=
  .obj [("operations", .arr ([0, 1].map fun id => .obj [("id", .int id), ("jsonrpc", .str "2.0"),
    ("method", .str "create"), ("params", .obj [("type", .str "MediaPipeline")])])),
    ("sessionId", .str "s")]

/-- The client learns of both objects. -/
theorem reported_iff_numbered :
    Reported JsonRpc.plain Core.counting
      (handlerProcess JsonRpc.plain Core.counting RpcHandler.plain 1) numberedParams
      ⟨0, .empty, 0⟩ := by
  refine (reported_iff RequestCache.records_empty).mpr ?_
  rintro ⟨s, pre, op, post, media, drawn, rs, t, e, hp, -, hrun, he⟩
  obtain ⟨s', ops, media', drawn', vs, u, hp', hrun'⟩ : ∃ s ops media drawn vs u,
      transactionParams JsonRpc.plain Core.counting numberedParams 0 1 = (.ok (s, ops), media, drawn) ∧
      execute (prepared JsonRpc.plain (Core.counting.uuid 0) s)
        (handlerProcess JsonRpc.plain Core.counting RpcHandler.plain 1) ops []
        ⟨media, .empty, drawn⟩ = some (.ok true, vs, u) := ⟨_, _, _, _, _, _, rfl, rfl⟩
  cases hp.symm.trans hp'
  have hlen := (execute_length hrun).2 rfl
  rw [List.length_nil, Nat.zero_add] at hlen
  have herr := execute_eq_error.mpr ⟨pre, op, post, rfl, hrun, hlen ▸ he⟩
  cases herr.symm.trans hrun'

/-- The first of the two operations makes an object that no reply tells of. -/
theorem not_reported :
    ¬ Reported JsonRpc.plain Core.counting
      (handlerProcess JsonRpc.plain Core.counting RpcHandler.plain 1) misnumberedParams
      ⟨0, .empty, 0⟩ ∧
    ∃ e t, transaction JsonRpc.plain Core.counting
      (handlerProcess JsonRpc.plain Core.counting RpcHandler.plain 1) misnumberedParams
      ⟨0, .empty, 0⟩ = some (.error e, t) ∧ t.media = 1 := by
  obtain ⟨e, t, log, hrun, hmade⟩ : ∃ e t log, transactionOver JsonRpc.plain Core.counting (·, [])
      (recording (handlerProcess JsonRpc.plain Core.counting RpcHandler.plain 1)) misnumberedParams
      ⟨0, .empty, 0⟩ = some (.error e, t, log) ∧ t.media = 1 := ⟨_, _, _, rfl, rfl⟩
  refine ⟨fun hrep => ?_, e, t, ?_, hmade⟩
  · have hsame := ((hrep _ _ _ hrun).1 e rfl).2.1
    rw [hmade] at hsame
    exact absurd hsame (by decide)
  · rw [← transaction_erase, hrun]
    rfl

end KurentoMediaServer.Methods
