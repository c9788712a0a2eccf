import KurentoMediaServer.Methods.Oblivious

/-! A transaction against its operations handed over one at a time. Both leave the same
media state and give the same responses, up to the ids, for operations that are well
formed; the responses of the transaction are then the whole of its value. -/

namespace KurentoMediaServer.Methods

open Foundations Cache

variable {σ : Type} (rpc : JsonRpc) (core : Core σ) (jsonrpc : RpcHandler)

/-- An operation as it is handed over on its own: with the session in its params and
the references replaced by the results of the responses so far. -/
def plainRequest (sessionId : String) (_i : ℕ) (operation : Json) (rs : List Json) :
    Except Exc Json := do
  let params ← operation.get "params"
  let params ← params.set "sessionId" (.str sessionId)
  let (params, _) ← injectRefs rpc params (.arr rs)
  operation.set "params" params

/-- The operations handed to `handler.process` in order, up to the first for which it
returns false. -/
def sequential (depth : ℕ) (sessionId : String) (operations : List Json) (st : Server σ) :
    Option (Except Exc Bool × List Json × Server σ) :=
  execute (plainRequest rpc sessionId) (handlerProcess rpc core jsonrpc depth) operations [] st

/-- Operation `i` is an object with the id `i`, whose params are an object or absent
and, with the session in them, refer to earlier operations only. -/
def WellFormed (sessionId : String) (i : ℕ) (operation : Json) : Prop :=
  ∃ ms pms, operation = .obj ms ∧ Assoc.find "id" ms = some (.int i) ∧
    (Assoc.find "params" ms = some (.obj pms) ∨ Assoc.find "params" ms = none ∧ pms = []) ∧
    RefersTo rpc (fun k => 0 ≤ k ∧ k < i) (withSessionId sessionId pms)

section Resolve
variable {rpc}

theorem sameButId_withId (i : ℕ) {v : Json} (h : v.isObject = true) : SameButId (withId i v) v := by
  cases v <;> first | exact sameButId_put .. | cases h

theorem Succeeded.withId {v : Json} (h : Succeeded v) (i : ℕ) : Succeeded (withId i v) := by
  obtain ⟨he, result, hm, hr⟩ := h
  have hobj : v.isObject = true := by cases v <;> first | rfl | cases hm
  have hs := sameButId_withId i hobj
  exact ⟨(hs.member? (k := "error") (by decide)).trans he, result,
    (hs.member? (k := "result") (by decide)).trans hm, hr⟩

theorem resultOf_congr {v v' : Json} (h : SameButId v v') (k : ℤ) :
    resultOf rpc k v = resultOf rpc k v' := by
  simp only [resultOf]
  rw [rpc.getValue_of_record "result" (Json.isRecord_of_isObject h.isObject),
    rpc.getValue_of_record "result" (Json.isRecord_of_isObject h.symm.isObject),
    h.member? (k := "result") (by decide)]

/-- The recorded responses and the responses of the plain run stand for the same
values. -/
theorem resolve_recorded {rs rs' : List Json} (h : List.Forall₂ SameButId rs rs') :
    resolve rpc (recorded rs) = resolve rpc (.arr rs') := by
  funext k
  rw [resolve_eq, resolve_eq]
  cases h with
  | nil =>
    simp only [recorded_nil, Json.elem]
    split_ifs <;> simp [bind, Except.bind]
  | @cons v v' rs rs' hv hrs =>
    obtain ⟨hlen, hget⟩ := List.forall₂_iff_get.mp (List.Forall₂.cons hv hrs)
    simp only [recorded, reduceCtorEq, ↓reduceIte, Json.elem]
    split_ifs with hk
    · rfl
    · simp only [List.getElem?_mapIdx]
      by_cases hlt : k.toNat < (v :: rs).length
      · have hs := hget _ hlt (hlen ▸ hlt)
        rw [List.getElem?_eq_getElem hlt, List.getElem?_eq_getElem (hlen ▸ hlt)]
        exact resultOf_congr ((sameButId_withId _ hs.isObject).trans hs) k
      · rw [List.getElem?_eq_none (by omega), List.getElem?_eq_none (by omega)]
        rfl

/-- The value of an earlier operation that succeeded. -/
theorem resolve_succeeded {rs : List Json} (h : ∀ v ∈ rs, Succeeded v) {k : ℤ} (h0 : 0 ≤ k)
    (hk : k < rs.length) : ∃ x, resolve rpc (.arr rs) k = .ok x := by
  have hlt : k.toNat < rs.length := by omega
  obtain ⟨-, result, hm, hr⟩ := h _ (List.getElem_mem hlt)
  have hrec : (rs[k.toNat]).isRecord = true := Json.isRecord_of_member? hm
  rw [resolve_eq, Json.elem, if_neg (by omega), List.getElem?_eq_getElem hlt]
  simp only [bind, Except.bind, resultOf, rpc.getValue_of_record "result" hrec, hm]
  rcases (Json.isRecord_iff result).mp hr with rfl | ⟨ms, rfl⟩
  · exact ⟨_, rfl⟩
  · exact ⟨_, rfl⟩

end Resolve

section Requests
variable {rpc} {sessionId : String} {i n : ℕ} {operation : Json}

/-- A session that stands in the params of a first operation is no reference. -/
theorem WellFormed.refOf_session (h : WellFormed rpc sessionId 0 operation) :
    refOf rpc (.str sessionId) = none := by
  obtain ⟨ms, pms, -, -, -, href⟩ := h
  have hs : RefersTo rpc _ (.str sessionId) := MembersReferTo.find href (Assoc.find_put_self ..)
  rw [Option.eq_none_iff_forall_ne_some]
  intro ref hr
  obtain ⟨k, -, h1, h2⟩ := hs ref hr
  omega

/-- What either way of handing over makes of a well-formed operation. -/
theorem WellFormed.requests (h : WellFormed rpc sessionId i operation) (hi : i < 2 ^ 32)
    (uniqueId : String) (rs rs' : List Json) : ∃ ms pms, operation = .obj ms ∧
      Assoc.find "id" ms = some (.int i) ∧
      RefersTo rpc (fun k => 0 ≤ k ∧ k < i) (withSessionId sessionId pms) ∧
      prepared rpc uniqueId sessionId i operation rs =
        (substitute rpc (resolve rpc (recorded rs)) (withSessionId sessionId pms)).map
          (fun params => .obj (Assoc.put "id" (.str (internalId uniqueId i))
            (Assoc.put "params" params ms))) ∧
      plainRequest rpc sessionId i operation rs' =
        (substitute rpc (resolve rpc (.arr rs')) (withSessionId sessionId pms)).map
          (fun params => .obj (Assoc.put "params" params ms)) := by
  obtain ⟨ms, pms, rfl, hid, hp, href⟩ := h
  have hpms : ((Assoc.find "params" ms).getD .null).members = .ok pms := by
    rcases hp with hp | ⟨hp, rfl⟩ <;> simp [hp]
  refine ⟨ms, pms, rfl, hid, href, ?_, ?_⟩
  · have hreq : requireId rpc i ((Assoc.find "id" ms).getD .null) = .ok () := by
      rw [hid, Option.getD_some, requireId_eq_ok]
      exact ⟨Json.isConvertibleToUInt_int i hi, Int.toNat_natCast i⟩
    rw [prepared, prepare_eq rfl hpms, hreq]
    simp only [bind, Except.bind]
    cases substitute rpc (resolve rpc (recorded rs)) (withSessionId sessionId pms) <;> rfl
  · simp only [plainRequest, Json.get_obj, Json.set, hpms, Json.members_obj, injectRefs_eq, bind,
      Except.bind, Except.map, withSessionId]
    cases substitute rpc (resolve rpc (.arr rs')) (.obj (Assoc.put "sessionId" (.str sessionId) pms)) <;>
      rfl

/-- The session of a request made of params that name it. -/
theorem paramsSession_substitute {value : ℤ → Except Exc Json} {ms pms : List (String × Json)}
    {params : Json} (hs : refOf rpc (.str sessionId) = none)
    (h : substitute rpc value (withSessionId sessionId pms) = .ok params) :
    paramsSession rpc (.obj (Assoc.put "params" params ms)) = some sessionId := by
  simp only [withSessionId, substitute, bind_eq_ok, pure, Except.pure, Except.ok.injEq] at h
  obtain ⟨ms', hms', rfl⟩ := h
  obtain ⟨v', hv', hf⟩ := find_substituteMembers rpc hms'
    (Assoc.find_put_self "sessionId" (.str sessionId) pms)
  have heq : v' = .str sessionId := by
    simpa [substitute, substituteLeaf, hs, pure, Except.pure, eq_comm] using hv'
  subst heq
  rw [paramsSession, Json.member?_obj, Assoc.find_put_self, Option.bind_some]
  exact rpc.text?_str hf

/-- A well-formed operation, the `i`-th of `n`. -/
structure Listed (rpc : JsonRpc) (sessionId : String) (n i : ℕ) (operation : Json) : Prop where
  wellFormed : WellFormed rpc sessionId i operation
  lt : i < n
  session : refOf rpc (.str sessionId) = none

/-- An operation handed over on its own carries its own id in the session. -/
theorem Listed.carries (h : Listed rpc sessionId n i operation) (hn : n ≤ 2 ^ 32) {rs : List Json}
    {req : Json} (hreq : plainRequest rpc sessionId i operation rs = .ok req) :
    Carries rpc (fun s => i < n ∧ s = sessionId) (toString (i : ℤ)) req := by
  obtain ⟨ms, pms, rfl, hid, -, -, hq⟩ := h.wellFormed.requests (h.lt.trans_le hn) "" rs rs
  rw [hq] at hreq
  rcases hsub : substitute rpc (resolve rpc (.arr rs)) (withSessionId sessionId pms) with e | params
  · rw [hsub] at hreq
    cases hreq
  · rw [hsub] at hreq
    cases hreq
    have hid' : (Json.obj (Assoc.put "params" params ms)).member? "id" = some (.int i) := by
      rw [Json.member?_obj, Assoc.find_put_of_ne (by decide), hid]
    refine ⟨⟨_, hid', rfl, rfl⟩, ?_, fun s hps => ?_⟩
    · simp [JsonRpc.text?, hid', Json.isScalar, rpc.getString_int]
    · rw [paramsSession_substitute h.session hsub] at hps
      exact ⟨h.lt, (Option.some.inj hps).symm⟩

theorem listed_agree (uniqueId : String) (hn : n ≤ 2 ^ 32) :
    RequestsAgree rpc (fun _ _ => True) (fun i s => i < n ∧ s = sessionId)
      (internalId uniqueId) (fun i => toString (i : ℤ)) (Listed rpc sessionId n)
      (prepared rpc uniqueId sessionId) (plainRequest rpc sessionId) := by
  intro op rs rs' h hrs
  obtain ⟨ms, pms, rfl, -, -, hp, hq⟩ := h.wellFormed.requests (h.lt.trans_le hn) uniqueId rs rs'
  rw [← hrs.length_eq, hp, hq, resolve_recorded hrs]
  rcases hsub : substitute rpc (resolve rpc (.arr rs')) (withSessionId sessionId pms) with e | params
  · exact Or.inl ⟨e, rfl, rfl⟩
  · rw [hsub] at hq
    exact Or.inr ⟨_, _, rfl, rfl, sameButId_put .., carries_of_member? (Assoc.find_put_self ..),
      h.carries hn hq⟩

/-- A well-formed operation is made into a request when those before it succeeded. -/
theorem WellFormed.plainRequest_ok {rs : List Json} (h : WellFormed rpc sessionId rs.length operation)
    (hi : rs.length < 2 ^ 32) (hrs : ∀ v ∈ rs, Succeeded v) :
    ∃ r, plainRequest rpc sessionId rs.length operation rs = .ok r := by
  obtain ⟨ms, pms, rfl, -, href, -, hq⟩ := h.requests hi "" rs rs
  obtain ⟨params, hp⟩ := substitute_ok
    (fun k hk => resolve_succeeded hrs hk.1 hk.2 : ∀ k, _ → ∃ x, resolve rpc (.arr rs) k = .ok x)
    _ href
  exact ⟨_, by rw [hq, hp]; rfl⟩

end Requests

/-! ### The whole run -/

section Run
variable {rpc core jsonrpc} {depth : ℕ} {sessionId : String} {operations : List Json}

theorem listed_of_wellFormed
    (hops : ∀ i op, operations[i]? = some op → WellFormed rpc sessionId i op) (i : ℕ) (op : Json)
    (h : operations[i]? = some op) : Listed rpc sessionId operations.length i op := by
  have hi : i < operations.length := (List.getElem?_eq_some_iff.mp h).1
  have h0 := hops 0 _ (List.getElem?_eq_getElem (by omega))
  exact ⟨hops i op h, hi, h0.refOf_session⟩

/-- Well-formed operations are never refused, and all responses but the last are
results. -/
theorem sequential_succeeds {st t : Server σ} {x : Except Exc Bool} {vs : List Json} {n : ℕ}
    (hn : n ≤ 2 ^ 32) (hops : ∀ i op, operations[i]? = some op → Listed rpc sessionId n i op)
    (hp : Pristine core (fun i s => i < n ∧ s = sessionId) (fun i => toString (i : ℤ)) 0 st)
    (h : sequential rpc core jsonrpc depth sessionId operations st = some (x, vs, t)) :
    (∃ complete, x = .ok complete) ∧ ∀ v ∈ vs.dropLast, Succeeded v := by
  refine execute_rule
    (P := Listed rpc sessionId n)
    (I := fun rs st => (∀ v ∈ rs, Succeeded v) ∧
      Pristine core (fun i s => i < n ∧ s = sessionId) (fun i => toString (i : ℤ)) rs.length st)
    (Q := fun x vs _ => (∃ complete, x = .ok complete) ∧ ∀ v ∈ vs.dropLast, Succeeded v)
    (fun rs st hinv => ?_) (fun op rs st e hop hinv he => ?_)
    (fun op rs st req v t hop hinv hreq hv => ?_) (fun op rs st req v t hop hinv hreq hv => ?_)
    (by simpa using hops) (⟨by simp, hp⟩ : (∀ v ∈ [], Succeeded v) ∧ Pristine core _ _ 0 st) h
  · exact ⟨⟨true, rfl⟩, fun v hv => hinv.1 v (List.dropLast_subset _ hv)⟩
  · obtain ⟨req, hreq⟩ := hop.wellFormed.plainRequest_ok (hop.lt.trans_le hn) hinv.1
    rw [hreq] at he
    cases he
  · obtain ⟨⟨-, hsucc⟩, hnext⟩ := handlerProcess_step hinv.2 (hop.carries hn hreq) hv
    refine ⟨fun w hw => ?_, by rw [List.length_append]; exact hnext⟩
    rcases List.mem_append.mp hw with hw | hw
    · exact hinv.1 w hw
    · rw [List.mem_singleton.mp hw]
      exact hsucc rfl
  · refine ⟨⟨false, rfl⟩, fun w hw => hinv.1 w ?_⟩
    rwa [List.dropLast_concat] at hw

/-- A transaction of well-formed operations does to the media state what handing them
over one at a time does, wherever that starts from a cache without them, and returns
the responses of that run, each under the id of its operation. Its value has one entry
for each operation handed over and all but the last are results. -/
theorem transaction_sequential {params : Json} {st : Server σ} {media : σ} {drawn : ℕ}
    (cache : RequestCache)
    (hparams : transactionParams rpc core params st.media (st.drawn + 1) =
      (.ok (sessionId, operations), media, drawn))
    (hlen : operations.length ≤ 2 ^ 32)
    (hops : ∀ i op, operations[i]? = some op → WellFormed rpc sessionId i op)
    (hfresh : Fresh core st) (hcache : Fresh core { st with cache })
    (hunused : ∀ i < operations.length, cache.entry sessionId (toString (i : ℤ)) = none) :
    (sequential rpc core jsonrpc depth sessionId operations { st with cache, drawn } = none →
      transaction rpc core (handlerProcess rpc core jsonrpc depth) params st = none) ∧
    ∀ x rs t', sequential rpc core jsonrpc depth sessionId operations { st with cache, drawn } =
        some (x, rs, t') →
      ∃ t, transaction rpc core (handlerProcess rpc core jsonrpc depth) params st =
          some (.ok (.object [("value", .arr (rs.mapIdx withId)), ("sessionId", .str sessionId)]), t) ∧
        t.media = t'.media ∧ t.drawn = t'.drawn ∧
        (x = .ok true ∧ rs.length = operations.length ∨
          x = .ok false ∧ rs.length ≤ operations.length) ∧
        ∀ (i : ℕ) (v : Json), (rs.mapIdx withId)[i]? = some v →
          v.member? "id" = some (.int i) ∧ (i + 1 < rs.length → Succeeded v) := by
  obtain ⟨rfl, hdrawn⟩ := transactionParams_eq hparams
  have hall := listed_of_wellFormed hops
  obtain ⟨hpr, ht⟩ := transaction_handlerProcess jsonrpc depth hfresh hparams
  have hf : Fresh core { st with cache, drawn } := fun s n i hn =>
    hcache s n i ((Nat.le_of_succ_le hdrawn).trans hn)
  have hpr' := hf.pristine_toString hunused
  have hagree := execute_agrees (handlerProcess_oblivious rpc core jsonrpc depth)
    (listed_agree (core.uuid st.drawn) hlen) operations
    (by simpa using hall) .nil hpr hpr' ⟨rfl, rfl⟩
  rw [ht]
  refine ⟨fun hn => ?_, fun x rs t' hrun => ?_⟩
  · rcases rel_cases hagree with ⟨hnone, -⟩ | ⟨a, b, -, hb, -⟩
    · rw [hnone]
      rfl
    · rw [sequential, hb] at hn
      cases hn
  · obtain ⟨⟨complete, rfl⟩, hsucc⟩ := sequential_succeeds hlen hall hpr' hrun
    obtain ⟨hle, heq⟩ := execute_length hrun
    rcases rel_cases hagree with ⟨-, hnone⟩ | ⟨⟨x, vs, t⟩, b, ha, hb, hx, hvs, hst⟩
    · rw [sequential, hnone] at hrun
      cases hrun
    · obtain rfl : b = (.ok complete, rs, t') := Option.some.inj (hb.symm.trans hrun)
      obtain rfl : x = .ok complete := hx
      refine ⟨t, ?_, hst.1, hst.2, ?_, fun i v hv => ?_⟩
      · rw [ha, Option.map_some, mapIdx_withId_congr hvs]
        rfl
      · cases complete with
        | true => exact Or.inl ⟨rfl, by simpa using heq rfl⟩
        | false => exact Or.inr ⟨rfl, by simpa using hle⟩
      · rw [List.getElem?_mapIdx, Option.map_eq_some_iff] at hv
        obtain ⟨w, hw, rfl⟩ := hv
        refine ⟨Assoc.find_put_self .., fun hlt => Succeeded.withId (hsucc w ?_) i⟩
        rw [List.dropLast_eq_take]
        exact List.mem_of_getElem? ((List.getElem?_take_of_lt (by omega)).trans hw)

end Run

/-! ### Two operations -/

/-- Operations of a transaction: a pipeline, and a player in it. -/
def createPipeline : Json := .obj [("id", .int 0), ("jsonrpc", .str "2.0"), ("method", .str "create"),
  ("params", .obj [("type", .str "MediaPipeline")])]

def createPlayer : Json := .obj [("id", .int 1), ("jsonrpc", .str "2.0"), ("method", .str "create"),
  ("params", .obj [("constructorParams", .obj [("mediaPipeline", .str "newref:0")]),
    ("type", .str "PlayerEndpoint")])]

theorem createPipeline_wellFormed : WellFormed JsonRpc.plain "s" 0 createPipeline := by
  refine ⟨_, [("type", .str "MediaPipeline")], rfl, rfl, Or.inl rfl, ?_⟩
  refine ⟨?_, ?_, trivial⟩ <;>
    · intro ref h
      cases h

theorem createPlayer_wellFormed : WellFormed JsonRpc.plain "s" 1 createPlayer := by
  refine ⟨_, _, rfl, rfl, Or.inl rfl, ?_⟩
  refine ⟨⟨fun ref h => ?_, trivial⟩, fun ref h => ?_, fun ref h => ?_, trivial⟩
  · cases h
    exact ⟨0, rfl, by decide⟩
  · cases h
  · cases h

/-- The params of that transaction. -/
def createParams : Json :=
  .obj [("operations", .arr [createPipeline, createPlayer]), ("sessionId", .str "s")]

theorem create_wellFormed (i : ℕ) (op : Json) (h : [createPipeline, createPlayer][i]? = some op) :
    WellFormed JsonRpc.plain "s" i op := by
  match i with
  | 0 => cases h; exact createPipeline_wellFormed
  | 1 => cases h; exact createPlayer_wellFormed

/-- Both ways of handing the operations over make two objects. -/
theorem transaction_sequential_create :
    ∃ rs t t', sequential JsonRpc.plain Core.counting RpcHandler.plain 1 "s"
        [createPipeline, createPlayer] ⟨0, .empty, 1⟩ = some (.ok true, rs, t') ∧
      transaction JsonRpc.plain Core.counting
          (handlerProcess JsonRpc.plain Core.counting RpcHandler.plain 1) createParams ⟨0, .empty, 0⟩ =
        some (.ok (.object [("value", .arr (rs.mapIdx withId)), ("sessionId", .str "s")]), t) ∧
      t.media = 2 ∧ t'.media = 2 := by
  have hempty : Fresh Core.counting ⟨0, .empty, 0⟩ := fun s n i _ => by
    simp [RequestCache.empty, RequestCache.entry]
  have hparams : transactionParams JsonRpc.plain Core.counting createParams 0 1 =
      (.ok ("s", [createPipeline, createPlayer]), 0, 1) := rfl
  obtain ⟨rs, t', hrun, hmade⟩ : ∃ rs t', sequential JsonRpc.plain Core.counting RpcHandler.plain 1
      "s" [createPipeline, createPlayer] ⟨0, .empty, 1⟩ = some (.ok true, rs, t') ∧
      t'.media = 2 := ⟨_, _, rfl, rfl⟩
  obtain ⟨t, ht, hmedia, -⟩ := (transaction_sequential .empty hparams
    (by decide) create_wellFormed hempty hempty (by simp [RequestCache.empty, RequestCache.entry])).2
      _ _ _ hrun
  exact ⟨rs, t, t', hrun, ht, hmedia.trans hmade, hmade⟩

/-- A session that has handed the operations over one at a time keeps their responses in
the cache. Handing them over once more is answered from there and makes nothing, while a
transaction of them, which has ids of its own, makes two more objects. -/
theorem not_transaction_sequential :
    (∀ i op, [createPipeline, createPlayer][i]? = some op → WellFormed JsonRpc.plain "s" i op) ∧
    ∃ rs rs' result st t t', sequential JsonRpc.plain Core.counting RpcHandler.plain 1 "s"
        [createPipeline, createPlayer] ⟨0, .empty, 0⟩ = some (.ok true, rs, st) ∧
      sequential JsonRpc.plain Core.counting RpcHandler.plain 1 "s"
        [createPipeline, createPlayer] { st with drawn := st.drawn + 1 } =
          some (.ok true, rs', t') ∧
      transaction JsonRpc.plain Core.counting
          (handlerProcess JsonRpc.plain Core.counting RpcHandler.plain 1) createParams st =
        some (.ok result, t) ∧
      t'.media = 2 ∧ t.media = 4 :=
  ⟨create_wellFormed, _, _, _, _, _, _, rfl, rfl, rfl, rfl, rfl⟩

end KurentoMediaServer.Methods
