import KurentoMediaServer.Methods.Handed
import KurentoMediaServer.Methods.Sequential

/-! A transaction whose only operation is a transaction. Before it hands that operation
over it looks for references in its params, and so in all the operations inside: they
are taken for references to its own responses, of which there are none yet. A transaction
without references nests. -/

namespace KurentoMediaServer.Methods

open Foundations Cache

variable {σ : Type} (rpc : JsonRpc) (core : Core σ) (jsonrpc : RpcHandler)

/-- The params of a transaction. -/
def transactionOf (sessionId : String) (operations : List Json) : Json :=
  withSessionId sessionId [("operations", .arr operations)]

/-- The operation, with id 0, that is a transaction. -/
def nestedOperation (operations : List Json) : Json := .obj [("id", .int 0),
  ("jsonrpc", .str "2.0"), ("method", .str "transaction"),
  ("params", .obj [("operations", .arr operations)])]

/-- The request that is handed over for it. -/
def nestedRequest (uniqueId sessionId : String) (operations : List Json) : Json :=
  .obj [("id", .str (internalId uniqueId 0)), ("jsonrpc", .str "2.0"),
    ("method", .str "transaction"), ("params", transactionOf sessionId operations)]

/-- kms-jsonrpc lets the requests for a transaction through. -/
def AcceptsTransactions (jsonrpc : RpcHandler) : Prop :=
  ∀ (id : String) (params : Json), params.isObject = true →
    jsonrpc.checkProtocol (.obj [("id", .str id), ("jsonrpc", .str "2.0"),
      ("method", .str "transaction"), ("params", params)]) = none

/-- What the outer transaction, on the right, makes of what the operations come to on
their own, on the left: the result or the error is that of its entry 0, and the server is
the same but for the cache. -/
structure Reports (sessionId : String) (direct nested : Except Exc Json × Server σ) : Prop where
  server : SameMedia direct.2 nested.2
  entry : ∃ entry, nested.1 = .ok (transactionResult sessionId (.arr [entry])) ∧
    entry.member? "id" = some (.int 0) ∧
    match direct.1 with
    | .ok result => entry.member? "result" = some result
    | .error _ => entry.member? "result" = none ∧ (entry.member? "error").isSome = true

/-- The operations nested in a transaction, and the same operations in a transaction of
their own. The outer transaction draws one UUID for itself, so the other run starts one
UUID later. -/
def NestLaw (depth : ℕ) (sessionId : String) (operations : List Json) (st : Server σ) : Prop :=
  Option.Rel (Reports sessionId)
    (transaction rpc core (handlerProcess rpc core jsonrpc depth)
      (transactionOf sessionId operations) { st with drawn := st.drawn + 1 })
    (transaction rpc core (handlerProcess rpc core jsonrpc (depth + 1))
      (transactionOf sessionId [nestedOperation operations]) st)

section Nested
variable {rpc core jsonrpc} {sessionId : String} {operations : List Json}

/-! ### Params without references -/

mutual

/-- Params without references stay as they are. -/
theorem substitute_of_refs_eq_nil {value : ℤ → Except Exc Json} (params : Json)
    (h : refs params = []) : substitute rpc value params = .ok params := by
  cases params with
  | str s =>
    have hs : strRef s = none := Option.toList_eq_nil_iff.mp h
    simp only [substitute, substituteLeaf_eq, refOf_eq, hs]
  | arr items => rw [substitute, substituteItems_of_refs_eq_nil items h]; rfl
  | obj ms => rw [substitute, substituteMembers_of_refs_eq_nil ms h]; rfl
  | _ => simp only [substitute, substituteLeaf_eq, refOf_eq]

theorem substituteItems_of_refs_eq_nil {value : ℤ → Except Exc Json} (items : List Json)
    (h : itemRefs items = []) : substituteItems rpc value items = .ok items := by
  cases items with
  | nil => rfl
  | cons v rest =>
    obtain ⟨hv, hrest⟩ := List.append_eq_nil_iff.mp h
    rw [substituteItems, substitute_of_refs_eq_nil v hv, substituteItems_of_refs_eq_nil rest hrest]
    rfl

theorem substituteMembers_of_refs_eq_nil {value : ℤ → Except Exc Json}
    (ms : List (String × Json)) (h : memberRefs ms = []) :
    substituteMembers rpc value ms = .ok ms := by
  cases ms with
  | nil => rfl
  | cons m rest =>
    obtain ⟨hv, hrest⟩ := List.append_eq_nil_iff.mp h
    rw [substituteMembers, substitute_of_refs_eq_nil m.2 hv,
      substituteMembers_of_refs_eq_nil rest hrest]
    rfl

end

theorem transactionOf_eq (sessionId : String) (operations : List Json) :
    transactionOf sessionId operations =
      .obj [("operations", .arr operations), ("sessionId", .str sessionId)] := rfl

theorem refs_transactionOf (sessionId : String) (operations : List Json) :
    refs (transactionOf sessionId operations) = itemRefs operations ++ (strRef sessionId).toList := by
  simp [transactionOf_eq, refs, memberRefs]

/-- The params of a transaction are read back. -/
theorem transactionParams_transactionOf (media : σ) (n : ℕ) :
    transactionParams rpc core (transactionOf sessionId operations) media n =
      (.ok (sessionId, operations), media, n) := by
  have hs : rpc.getStringValue (transactionOf sessionId operations) "sessionId" = .ok sessionId :=
    rpc.getStringValue_eq_ok.mpr (rpc.text?_str rfl)
  have hops : rpc.getArray (transactionOf sessionId operations) "operations" =
      .ok (.arr operations) := by
    rw [JsonRpc.getArray, rpc.getValue_eq_ok.mpr rfl]
    rfl
  simp only [transactionParams, getOrCreateSessionId, hs, hops]
  rfl

/-! ### The outer transaction -/

section Prepare
variable (rpc) (uniqueId : String)

theorem prepare_nested : prepare rpc uniqueId sessionId 0 (nestedOperation operations) .null = do
    let params ← substitute rpc (resolve rpc .null) (transactionOf sessionId operations)
    return (.obj [("id", .str (internalId uniqueId 0)), ("jsonrpc", .str "2.0"),
      ("method", .str "transaction"), ("params", params)], .null) := by
  have hid : requireId rpc 0 (.int 0) = .ok () := requireId_eq_ok.mpr ⟨by decide, rfl⟩
  rw [prepare_eq rfl rfl]
  show (do requireId rpc 0 (.int 0); _) = _
  rw [hid]
  rfl

/-- Without references the operation is handed over as it is. -/
theorem prepare_nested_of_plain (hs : strRef sessionId = none) (hops : itemRefs operations = []) :
    prepare rpc uniqueId sessionId 0 (nestedOperation operations) .null =
      .ok (nestedRequest uniqueId sessionId operations, .null) := by
  have hrefs : refs (transactionOf sessionId operations) = [] := by
    rw [refs_transactionOf, hs, hops]
    rfl
  rw [prepare_nested, substitute_of_refs_eq_nil _ hrefs]
  rfl

/-- There is no response yet that a reference could name. -/
theorem refs_of_prepare_nested {r : Json × Json}
    (h : prepare rpc uniqueId sessionId 0 (nestedOperation operations) .null = .ok r) :
    strRef sessionId = none ∧ itemRefs operations = [] := by
  rw [prepare_nested, bind_eq_ok] at h
  obtain ⟨params, hsub, -⟩ := h
  have hall := (injectRefs_ok_iff rpc (Or.inr ⟨rfl, rfl⟩) (transactionOf sessionId operations)).mp
    ⟨(params, .null), by rw [injectRefs_eq, hsub]; rfl⟩
  have hnil : refs (transactionOf sessionId operations) = [] := by
    apply List.eq_nil_iff_forall_not_mem.mpr
    exact fun ref href => not_accepted_nil ref (hall ref href)
  rw [refs_transactionOf, List.append_eq_nil_iff] at hnil
  exact ⟨Option.toList_eq_nil_iff.mp hnil.2, hnil.1⟩

end Prepare

variable {depth : ℕ} {st : Server σ}

/-- The outer transaction hands over one request, or throws. -/
theorem transaction_nested (handler : Json → Server σ → Option ((Bool × Json) × Server σ)) :
    transaction rpc core handler (transactionOf sessionId [nestedOperation operations]) st =
      match prepare rpc (core.uuid st.drawn) sessionId 0 (nestedOperation operations) .null with
      | .error e => some (.error e, { st with drawn := st.drawn + 1 })
      | .ok (q, responses) =>
        (handler q { st with drawn := st.drawn + 1 }).map fun r =>
          ((recordResponse 0 responses r.1.2).map (transactionResult sessionId), r.2) := by
  simp only [transaction, transactionOver, transactionParams_transactionOf, id, transactionLoop]
  rcases prepare rpc (core.uuid st.drawn) sessionId 0 (nestedOperation operations) .null with
    e | ⟨q, responses⟩
  · rfl
  · dsimp only
    rcases handler q { st with drawn := st.drawn + 1 } with _ | ⟨⟨ret, response⟩, t⟩
    · rfl
    · dsimp only [Option.map_some]
      rcases recordResponse 0 responses response with e | rs
      · rfl
      · cases ret <;> rfl

/-! ### The request that is handed over -/

theorem identified_nestedRequest (uniqueId sessionId : String) (operations : List Json) :
    Identified (nestedRequest uniqueId sessionId operations) := ⟨_, rfl, rfl, rfl⟩

theorem id_nestedRequest (rpc : JsonRpc) (uniqueId sessionId : String) (operations : List Json) :
    rpc.text? (nestedRequest uniqueId sessionId operations) "id" = some (internalId uniqueId 0) :=
  rpc.text?_str rfl

theorem session_nestedRequest (rpc : JsonRpc) (uniqueId sessionId : String)
    (operations : List Json) :
    paramsSession rpc (nestedRequest uniqueId sessionId operations) = some sessionId := by
  rw [paramsSession_eq]
  exact rpc.text?_str rfl

/-- It is not in the cache, so the transaction inside is run. -/
theorem handlerProcess_nestedRequest (haccepts : AcceptsTransactions jsonrpc)
    (hfresh : Fresh core st) : handlerProcess rpc core jsonrpc (depth + 1)
        (nestedRequest (core.uuid st.drawn) sessionId operations) { st with drawn := st.drawn + 1 } =
      (transaction rpc core (handlerProcess rpc core jsonrpc depth)
        (transactionOf sessionId operations) { st with drawn := st.drawn + 1 }).map fun r =>
          finish rpc jsonrpc (nestedRequest (core.uuid st.drawn) sessionId operations)
            (respond jsonrpc (nestedRequest (core.uuid st.drawn) sessionId operations) r.1) r.2 := by
  have hcache : preProcess rpc st.cache
      (nestedRequest (core.uuid st.drawn) sessionId operations) = none := by
    rw [preProcess_of_key st.cache (id_nestedRequest ..) (session_nestedRequest ..),
      RequestCache.getCachedResponse, hfresh sessionId st.drawn 0 le_rfl]
    rfl
  exact handlerProcess_transaction rfl (haccepts _ _ rfl) hcache (rpc.text?_str rfl)

/-- The end of the request changes nothing but the cache. -/
theorem finish_nestedRequest (uniqueId : String) {u t : Server σ} {result : Except Exc Json}
    (h : transaction rpc core (handlerProcess rpc core jsonrpc depth)
      (transactionOf sessionId operations) u = some (result, t)) :
    ∃ cache, finish rpc jsonrpc (nestedRequest uniqueId sessionId operations)
        (respond jsonrpc (nestedRequest uniqueId sessionId operations) result) t =
      (respond jsonrpc (nestedRequest uniqueId sessionId operations) result, { t with cache }) := by
  have hrep : ∀ v, result = .ok v → ReportsSession rpc core
      (paramsOf (nestedRequest uniqueId sessionId operations)) u.drawn t.drawn v := by
    rintro v rfl
    have hd : dispatch rpc core (handlerProcess rpc core jsonrpc depth) "transaction"
        (paramsOf (nestedRequest uniqueId sessionId operations)) u = some (.ok v, t) := h
    exact dispatch_reports (handlerProcess_extends depth) hd
  have hkey : postKey rpc (nestedRequest uniqueId sessionId operations)
      (respond jsonrpc (nestedRequest uniqueId sessionId operations) result).2 =
        .ok (sessionId, internalId uniqueId 0) :=
    postKey_respond hrep (id_nestedRequest ..) (session_nestedRequest ..)
  simp only [finish, postProcess, hkey]
  cases t.cache.getCachedResponse sessionId (internalId uniqueId 0) <;> exact ⟨_, rfl⟩

/-! ### The entry -/

variable (jsonrpc) in
theorem isObject_respond {q : Json} (hq : Identified q) (result : Except Exc Json) :
    (respond jsonrpc q result).2.isObject = true := by
  cases result with
  | ok result => exact jsonrpc.success_object hq result
  | error e => exact jsonrpc.failure_object hq e

theorem recordResponse_respond {q : Json} (hq : Identified q) (result : Except Exc Json) :
    recordResponse 0 .null (respond jsonrpc q result).2 =
      .ok (.arr [withId 0 (respond jsonrpc q result).2]) :=
  recordResponse_eq [] (Json.isRecord_of_isObject (isObject_respond jsonrpc hq result))

/-- The entry of an operation that has returned or thrown. -/
theorem reports_respond {q : Json} (hq : Identified q) {result : Except Exc Json}
    {t t' : Server σ} (ht : SameMedia t t') : Reports sessionId (result, t)
      (.ok (transactionResult sessionId (.arr [withId 0 (respond jsonrpc q result).2])), t') := by
  have hsame := sameButId_withId 0 (isObject_respond jsonrpc hq result)
  refine ⟨ht, withId 0 (respond jsonrpc q result).2, rfl, Assoc.find_put_self .., ?_⟩
  rw [hsame.member? (k := "result") (by decide)]
  cases result with
  | ok result => exact (jsonrpc.success_result q result hq).1
  | error e =>
    rw [hsame.member? (k := "error") (by decide)]
    exact jsonrpc.failure_error q e hq

/-- Without references the entry of the operation is what the transaction inside comes
to. -/
theorem nestLaw_of_plain (haccepts : AcceptsTransactions jsonrpc) (hfresh : Fresh core st)
    (hs : strRef sessionId = none) (hops : itemRefs operations = []) :
    NestLaw rpc core jsonrpc depth sessionId operations st := by
  rw [NestLaw, transaction_nested, prepare_nested_of_plain rpc (core.uuid st.drawn) hs hops]
  dsimp only
  rw [handlerProcess_nestedRequest haccepts hfresh, Option.map_map]
  rcases hd : transaction rpc core (handlerProcess rpc core jsonrpc depth)
    (transactionOf sessionId operations) { st with drawn := st.drawn + 1 } with _ | ⟨result, t⟩
  · exact .none
  · have hq := identified_nestedRequest (core.uuid st.drawn) sessionId operations
    obtain ⟨cache, hf⟩ := finish_nestedRequest (core.uuid st.drawn) hd
    rw [Option.map_some, Function.comp_apply, hf]
    dsimp only
    rw [recordResponse_respond hq]
    exact .some (reports_respond hq ⟨rfl, rfl⟩)

/-- A transaction that nests has handed its operation over. -/
theorem exists_prepare_of_nestLaw (h : NestLaw rpc core jsonrpc depth sessionId operations st) :
    ∃ r, prepare rpc (core.uuid st.drawn) sessionId 0 (nestedOperation operations) .null = .ok r := by
  rw [NestLaw, transaction_nested] at h
  rcases hp : prepare rpc (core.uuid st.drawn) sessionId 0 (nestedOperation operations) .null with
    e | r
  · rw [hp] at h
    rcases rel_cases h with ⟨-, hnone⟩ | ⟨d, n, -, hn, hreports⟩
    · cases hnone
    · cases hn
      obtain ⟨entry, he, -⟩ := hreports.entry
      cases he
  · exact ⟨r, rfl⟩

/-- A transaction nests exactly when no string in its operations is a reference, and
its session is none. -/
theorem nestLaw_iff (haccepts : AcceptsTransactions jsonrpc) (hfresh : Fresh core st) :
    NestLaw rpc core jsonrpc depth sessionId operations st ↔
      strRef sessionId = none ∧ itemRefs operations = [] := by
  constructor
  · intro h
    obtain ⟨r, hr⟩ := exists_prepare_of_nestLaw h
    exact refs_of_prepare_nested rpc (core.uuid st.drawn) hr
  · rintro ⟨hs, hops⟩
    exact nestLaw_of_plain haccepts hfresh hs hops

theorem acceptsTransactions_plain : AcceptsTransactions RpcHandler.plain := fun _ _ _ => rfl

theorem fresh_empty (core : Core σ) (media : σ) (drawn : ℕ) : Fresh core ⟨media, .empty, drawn⟩ :=
  fun s n i _ => by simp [RequestCache.empty, RequestCache.entry]

/-- A pipeline is created in a transaction in a transaction. -/
theorem nestLaw_iff_createPipeline : NestLaw JsonRpc.plain Core.counting RpcHandler.plain 1 "s"
    [createPipeline] ⟨0, .empty, 0⟩ :=
  (nestLaw_iff acceptsTransactions_plain (fresh_empty _ _ _)).mpr ⟨by decide, by decide⟩

/-- A player in that pipeline is not: the reference to the pipeline ends the outer
transaction. -/
theorem not_nestLaw : ¬ ∀ (sessionId : String) (operations : List Json) (st : Server ℕ),
    Fresh Core.counting st →
      NestLaw JsonRpc.plain Core.counting RpcHandler.plain 1 sessionId operations st := by
  intro h
  have hlaw := h "s" [createPipeline, createPlayer] ⟨0, .empty, 0⟩ (fresh_empty _ _ _)
  obtain ⟨r, hr⟩ := exists_prepare_of_nestLaw hlaw
  have hrefs := refs_of_prepare_nested JsonRpc.plain (Core.counting.uuid 0) hr
  exact absurd hrefs.2 (by decide)

/-- On their own the two operations make two objects. -/
example : ((transaction JsonRpc.plain Core.counting
    (handlerProcess JsonRpc.plain Core.counting RpcHandler.plain 1)
    (transactionOf "s" [createPipeline, createPlayer]) ⟨0, .empty, 1⟩).map fun r => r.2.media) =
      some 2 := rfl

end Nested

end KurentoMediaServer.Methods
