import KurentoMediaServer.Methods.Handler
import KurentoMediaServer.Methods.References

/-! The requests a transaction hands to `handler.process`, and those that transactions
among them hand over in turn. All of them run in the session of the outermost one.
The session is written into the params of an operation before its references are
replaced; if it looked like a reference itself, the first operation would find no
response to take a value from and end the transaction. -/

namespace KurentoMediaServer.Methods

open Foundations Cache

variable {σ τ : Type} (rpc : JsonRpc) (core : Core σ) (jsonrpc : RpcHandler)

/-- From operation `i` on the loop hands `q` to the handler in the state `u`. -/
inductive LoopHands (handler : Json → τ → Option ((Bool × Json) × τ))
    (uniqueId sessionId : String) : ℕ → List Json → Json → τ → Json → τ → Prop
  | now {i : ℕ} {operation q responses responses' : Json} {rest : List Json} {st : τ} :
      prepare rpc uniqueId sessionId i operation responses = .ok (q, responses') →
      LoopHands handler uniqueId sessionId i (operation :: rest) responses st q st
  | later {i : ℕ} {operation request response q r₀ r₁ r₂ : Json} {rest : List Json} {st t u : τ} :
      prepare rpc uniqueId sessionId i operation r₀ = .ok (request, r₁) →
      handler request st = some ((true, response), t) →
      recordResponse i r₁ response = .ok r₂ →
      LoopHands handler uniqueId sessionId (i + 1) rest r₂ t q u →
      LoopHands handler uniqueId sessionId i (operation :: rest) r₀ st q u

def TransactionHands (handler : Json → Server σ → Option ((Bool × Json) × Server σ))
    (params : Json) (st : Server σ) (q : Json) (u : Server σ) : Prop :=
  ∃ sessionId operations media drawn,
    transactionParams rpc core params st.media (st.drawn + 1) =
      (.ok (sessionId, operations), media, drawn) ∧
    LoopHands rpc handler (core.uuid st.drawn) sessionId 0 operations .null
      { st with media, drawn } q u

/-- A transaction whose handler nests less than `depth` deep hands `q` to
`handler.process` with depth `d`: as an operation of its own, or of a transaction that
has been handed over and is run. -/
inductive HandedOver (depth : ℕ) (params : Json) (st : Server σ) : ℕ → Json → Server σ → Prop
  | operation {q : Json} {u : Server σ} :
      TransactionHands rpc core (handlerProcess rpc core jsonrpc depth) params st q u →
      HandedOver depth params st depth q u
  | nested {d : ℕ} {q q' : Json} {u u' : Server σ} :
      HandedOver depth params st (d + 1) q u →
      jsonrpc.checkProtocol q = none → preProcess rpc u.cache q = none →
      rpc.text? q "method" = some "transaction" →
      TransactionHands rpc core (handlerProcess rpc core jsonrpc d) (paramsOf q) u q' u' →
      HandedOver depth params st d q' u'

section Handed
variable {rpc core jsonrpc}

/-- The loop depends on nothing but what the handler does with the requests it is
handed. -/
theorem transactionLoop_congr {handler handler' : Json → τ → Option ((Bool × Json) × τ)}
    {uniqueId sessionId : String} {i : ℕ} {operations : List Json} {responses : Json} {st : τ}
    (h : ∀ q u, LoopHands rpc handler uniqueId sessionId i operations responses st q u →
      handler q u = handler' q u) :
    transactionLoop rpc handler uniqueId sessionId i operations responses st =
      transactionLoop rpc handler' uniqueId sessionId i operations responses st := by
  induction operations generalizing i responses st with
  | nil => rfl
  | cons operation rest ih =>
    simp only [transactionLoop]
    rcases hp : prepare rpc uniqueId sessionId i operation responses with e | ⟨request, r₁⟩
    · rfl
    · dsimp only
      rw [← h request st (.now hp)]
      rcases hh : handler request st with _ | ⟨⟨ret, response⟩, t⟩
      · rfl
      · dsimp only
        rcases hr : recordResponse i r₁ response with e | r₂
        · rfl
        · dsimp only
          cases ret with
          | false => rfl
          | true => exact ih fun q u hq => h q u (.later hp hh hr hq)

/-- A transaction that has been handed over and is run by the handler hands over its
own operations. -/
theorem handlerProcess_transaction {d : ℕ} {q : Json} {u : Server σ} (harr : q.isArray = false)
    (hproto : jsonrpc.checkProtocol q = none) (hcache : preProcess rpc u.cache q = none)
    (hname : rpc.text? q "method" = some "transaction") :
    handlerProcess rpc core jsonrpc (d + 1) q u =
      (transaction rpc core (handlerProcess rpc core jsonrpc d) (paramsOf q) u).map
        fun r => finish rpc jsonrpc q (respond jsonrpc q r.1) r.2 := by
  have hcall : handlerProcess rpc core jsonrpc (d + 1) q u =
      call rpc jsonrpc (dispatch rpc core (handlerProcess rpc core jsonrpc d)) q u := by
    cases q <;> first | rfl | cases harr
  simp only [hcall, call, hproto, hcache, hname, Option.getD_some, dispatch, ↓reduceIte]

/-! ### The session of an operation -/

/-- The params of the request carry the session, under its own name. -/
def InSession (s : String) (q : Json) : Prop :=
  ∃ params, q.member? "params" = some params ∧ params.member? "sessionId" = some (.str s)

theorem prepare_session {uniqueId sessionId : String} {i : ℕ} {operation q r r' : Json}
    (h : prepare rpc uniqueId sessionId i operation r = .ok (q, r')) :
    ∃ params s, q.member? "params" = some params ∧ params.member? "sessionId" = some s ∧
      substitute rpc (resolve rpc r) (.str sessionId) = .ok s := by
  obtain ⟨ms, pms, params, -, -, -, hs, rfl, -⟩ := prepare_eq_ok.mp h
  simp only [withSessionId, substitute, bind_eq_ok, pure, Except.pure, Except.ok.injEq] at hs
  obtain ⟨pms', hpms, rfl⟩ := hs
  obtain ⟨s, hsub, hfind⟩ := find_substituteMembers rpc hpms (Assoc.find_put_self "sessionId" _ pms)
  have hne : ("params" : String) ≠ "id" := by decide
  refine ⟨.obj pms', s, ?_, hfind, hsub⟩
  rw [Json.member?_obj, Assoc.find_put_of_ne hne, Assoc.find_put_self]

/-- Before the first operation has been executed nothing can be referred to. -/
theorem strRef_of_first {sessionId : String} {v : Json}
    (h : substitute rpc (resolve rpc .null) (.str sessionId) = .ok v) :
    strRef sessionId = none := by
  have hall := (injectRefs_ok_iff rpc (Or.inr ⟨rfl, rfl⟩) (.str sessionId)).mp
    ⟨(v, .null), by rw [injectRefs_eq, h]; rfl⟩
  by_contra hne
  obtain ⟨ref, href⟩ := Option.ne_none_iff_exists'.mp hne
  exact not_accepted_nil ref (hall ref (by simp [refs, href]))

theorem substitute_plain {sessionId : String} {value : ℤ → Except Exc Json} {v : Json}
    (hplain : strRef sessionId = none) (h : substitute rpc value (.str sessionId) = .ok v) :
    v = .str sessionId := by
  simp only [substitute, substituteLeaf_eq, refOf_eq, hplain, Except.ok.injEq] at h
  exact h.symm

theorem LoopHands.inSession {handler : Json → τ → Option ((Bool × Json) × τ)}
    {uniqueId s : String} {i : ℕ} {operations : List Json} {responses q : Json} {st u : τ}
    (h : LoopHands rpc handler uniqueId s i operations responses st q u)
    (hplain : strRef s = none) : InSession s q := by
  induction h with
  | now hp =>
    obtain ⟨params, v, hparams, hs, hsub⟩ := prepare_session hp
    exact ⟨params, hparams, substitute_plain hplain hsub ▸ hs⟩
  | later _ _ _ _ ih => exact ih

/-- A session that looks like a reference lets no operation through. -/
theorem LoopHands.plain {handler : Json → τ → Option ((Bool × Json) × τ)}
    {uniqueId s : String} {i : ℕ} {operations : List Json} {q : Json} {st u : τ}
    (h : LoopHands rpc handler uniqueId s i operations .null st q u) : strRef s = none := by
  cases h with
  | now hp =>
    obtain ⟨_, _, _, _, hsub⟩ := prepare_session hp
    exact strRef_of_first hsub
  | later hp _ _ _ =>
    obtain ⟨_, _, _, _, hsub⟩ := prepare_session hp
    exact strRef_of_first hsub

theorem transactionParams_session {q : Json} {media media' : σ} {n k : ℕ} {s s' : String}
    {operations : List Json} (hq : InSession s q)
    (h : transactionParams rpc core (paramsOf q) media n = (.ok (s', operations), media', k)) :
    s' = s := by
  obtain ⟨params, hparams, hs⟩ := hq
  have htext : rpc.text? (paramsOf q) "sessionId" = some s := by
    rw [paramsOf, hparams, Option.getD_some]
    exact rpc.text?_str hs
  have hens : Supply.Ensures n (transactionParams rpc core (paramsOf q)) _ :=
    ensures_transactionParams
  have hfor := (hens media).2 (s', operations) (by rw [h])
  rcases hfor with hgiven | ⟨hnone, -⟩
  · simpa [htext] using hgiven.symm
  · rw [htext] at hnone
    cases hnone

/-- Requests are handed over in the session of the outermost transaction, and only if
that does not look like a reference. -/
theorem HandedOver.inSession {depth : ℕ} {params : Json} {st : Server σ} {s : String}
    {operations : List Json} {media : σ} {drawn : ℕ}
    (hp : transactionParams rpc core params st.media (st.drawn + 1) =
      (.ok (s, operations), media, drawn)) {d : ℕ} {q : Json} {u : Server σ}
    (h : HandedOver rpc core jsonrpc depth params st d q u) : InSession s q ∧ strRef s = none := by
  induction h with
  | operation h =>
    obtain ⟨s', operations', media', drawn', hp', hloop⟩ := h
    obtain ⟨rfl, -⟩ : s = s' ∧ operations = operations' := by
      rw [hp] at hp'
      simpa using (Prod.mk.inj hp').1
    exact ⟨hloop.inSession hloop.plain, hloop.plain⟩
  | nested _ _ _ _ h ih =>
    obtain ⟨s', operations', media', drawn', hp', hloop⟩ := h
    obtain rfl := transactionParams_session ih.1 hp'
    exact ⟨hloop.inSession ih.2, ih.2⟩

variable (rpc) in
/-- A session that looks like a reference makes the first operation throw. -/
theorem transactionLoop_of_ref (handler : Json → τ → Option ((Bool × Json) × τ))
    (uniqueId : String) {s : String} {operations : List Json} (st : τ) (hs : strRef s ≠ none)
    (hne : operations ≠ []) :
    ∃ e, transactionLoop rpc handler uniqueId s 0 operations .null st = some (.error e, st) := by
  obtain ⟨operation, rest, rfl⟩ := List.exists_cons_of_ne_nil hne
  cases hp : prepare rpc uniqueId s 0 operation .null with
  | error e => exact ⟨e, by simp only [transactionLoop, hp]⟩
  | ok r =>
    obtain ⟨_, _, _, _, hsub⟩ := prepare_session hp
    exact absurd (strRef_of_first hsub) hs

/-- Every request a transaction hands to `handler.process`, at whatever depth, has the
session of the transaction in its params. If that session is longer than `newref:` and
starts with it, nothing is handed over, and a transaction with operations throws with the
server as it was. -/
theorem operations_in_session {params : Json} {st : Server σ} {s : String}
    {operations : List Json} {media : σ} {drawn : ℕ}
    (hp : transactionParams rpc core params st.media (st.drawn + 1) =
      (.ok (s, operations), media, drawn)) (depth : ℕ) :
    (∀ d q u, HandedOver rpc core jsonrpc depth params st d q u →
      ∃ ps, q.member? "params" = some ps ∧ ps.member? "sessionId" = some (.str s)) ∧
    (strRef s ≠ none →
      (∀ d q u, ¬ HandedOver rpc core jsonrpc depth params st d q u) ∧
      (operations ≠ [] → ∃ e, transaction rpc core (handlerProcess rpc core jsonrpc depth) params st =
        some (.error e, { st with media, drawn }))) := by
  refine ⟨fun d q u h => (h.inSession hp).1, fun hs =>
    ⟨fun d q u h => hs (h.inSession hp).2, fun hne => ?_⟩⟩
  obtain ⟨e, he⟩ := transactionLoop_of_ref rpc (handlerProcess rpc core jsonrpc depth)
    (core.uuid st.drawn) { st with media, drawn } hs hne
  refine ⟨e, ?_⟩
  simp only [transaction, transactionOver, hp, id]
  rw [he]

/-- A ping in a transaction in a transaction, naming another session. -/
theorem operations_in_session_nested :
    let ping : Json := .obj [("id", .int 0), ("method", .str "ping"),
      ("params", .obj [("sessionId", .str "other")])]
    let inner : Json := .obj [("id", .int 0), ("method", .str "transaction"),
      ("params", .obj [("operations", .arr [ping])])]
    let params : Json := .obj [("operations", .arr [inner]), ("sessionId", .str "s")]
    ∃ q u, HandedOver JsonRpc.plain Core.counting RpcHandler.plain 1 params ⟨0, .empty, 0⟩ 0 q u ∧
      ∃ ps, q.member? "params" = some ps ∧ ps.member? "sessionId" = some (.str "s") := by
  intro ping inner params
  have houter : HandedOver JsonRpc.plain Core.counting RpcHandler.plain 1 params ⟨0, .empty, 0⟩ 1
      _ _ := .operation ⟨"s", [inner], 0, 1, rfl, .now rfl⟩
  have hping := houter.nested rfl rfl rfl ⟨"s", [ping], 0, 2, rfl, .now rfl⟩
  exact ⟨_, _, hping, (operations_in_session rfl 1).1 _ _ _ hping⟩

end Handed

end KurentoMediaServer.Methods
