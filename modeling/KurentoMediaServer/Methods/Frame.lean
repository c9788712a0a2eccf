import KurentoMediaServer.Methods.Handler
import KurentoMediaServer.Methods.Operations

/-! What a request leaves behind and what it is answered. A request adds entries to
the cache under its own id, and under the internal ids of the transactions begun
while it runs, and changes no other. A result shows the session of the params or one
generated on the way. -/

namespace KurentoMediaServer.Methods

open Foundations Cache

variable {σ : Type} (core : Core σ)

/-! ### What a request leaves in the cache -/

/-- From `st` to `t` more UUIDs may have been drawn, no entry of the cache has gone
or changed, and a new one is under a key of `own` or under an internal id of a
transaction begun in between. -/
structure Extends (own : String → String → Prop) (st t : Server σ) : Prop where
  drawn_le : st.drawn ≤ t.drawn
  kept : ∀ s r e, st.cache.entry s r = some e → t.cache.entry s r = some e
  added : ∀ s r e, t.cache.entry s r = some e → st.cache.entry s r = some e ∨ own s r ∨
    ∃ n i, st.drawn ≤ n ∧ n < t.drawn ∧ r = internalId (core.uuid n) i
  timed : st.cache.Timed → t.cache.Timed
  records : st.cache.Records → t.cache.Records

section Extends
variable {core} {own own' : String → String → Prop} {st t u : Server σ}

theorem Extends.refl (st : Server σ) : Extends core own st st :=
  ⟨le_rfl, fun _ _ _ h => h, fun _ _ _ h => Or.inl h, id, id⟩

theorem Extends.trans (h : Extends core own st t) (g : Extends core own t u) :
    Extends core own st u where
  drawn_le := h.drawn_le.trans g.drawn_le
  kept s r e he := g.kept s r e (h.kept s r e he)
  added s r e he := by
    have h1 := h.drawn_le
    have h2 := g.drawn_le
    rcases g.added s r e he with h' | h' | ⟨n, i, hn, hn', hr⟩
    · rcases h.added s r e h' with h' | h' | ⟨n, i, hn, hn', hr⟩
      · exact Or.inl h'
      · exact Or.inr (Or.inl h')
      · exact Or.inr (Or.inr ⟨n, i, hn, by omega, hr⟩)
    · exact Or.inr (Or.inl h')
    · exact Or.inr (Or.inr ⟨n, i, by omega, hn', hr⟩)
  timed := g.timed ∘ h.timed
  records := g.records ∘ h.records

/-- Keys of `own` that are internal ids of the time in between need not be told. -/
theorem Extends.weaken (h : Extends core own st t)
    (hown : ∀ s r, own s r → own' s r ∨ ∃ n i, st.drawn ≤ n ∧ n < t.drawn ∧
      r = internalId (core.uuid n) i) : Extends core own' st t where
  drawn_le := h.drawn_le
  kept := h.kept
  added s r e he := by
    rcases h.added s r e he with h' | h' | h'
    · exact Or.inl h'
    · exact Or.inr (hown s r h')
    · exact Or.inr (Or.inr h')
  timed := h.timed
  records := h.records

/-- Changes that leave the cache alone. -/
theorem Extends.of_cache_eq (hd : st.drawn ≤ t.drawn) (hc : t.cache = st.cache) :
    Extends core own st t :=
  ⟨hd, fun _ _ _ h => hc ▸ h, fun _ _ _ h => Or.inl (hc ▸ h), fun h => hc ▸ h, fun h => hc ▸ h⟩

/-- A key that is none of `own` and no internal id is left alone. -/
theorem Extends.entry_eq (h : Extends core own st t) {s rid : String} (hown : ¬ own s rid)
    (hid : ∀ n i, st.drawn ≤ n → rid ≠ internalId (core.uuid n) i) :
    t.cache.entry s rid = st.cache.entry s rid := by
  refine Option.ext fun e => ⟨fun he => ?_, h.kept s rid e⟩
  rcases h.added s rid e he with h | h | ⟨n, i, hn, -, h⟩
  · exact h
  · exact absurd h hown
  · exact absurd h (hid n i hn)

end Extends

/-! ### Every request extends the server -/

section Frame
variable {rpc : JsonRpc} {core} {jsonrpc : RpcHandler}

/-- The ids a request, or a batch of requests, is stored under. -/
def OwnsId (rpc : JsonRpc) (request : Json) (rid : String) : Prop :=
  rpc.text? request "id" = some rid ∨
    ∃ items, request = .arr items ∧ ∃ v ∈ items, rpc.text? v "id" = some rid

/-- A handler that stores under the ids of its requests, apart from internal ones. -/
def ExtendsOwn (rpc : JsonRpc) (core : Core σ)
    (handler : Json → Server σ → Option ((Bool × Json) × Server σ)) : Prop :=
  ∀ request st r t, handler request st = some (r, t) →
    Extends core (fun _ rid => OwnsId rpc request rid) st t

variable (rpc core jsonrpc) in
theorem finish_extends (request : Json) (answer : Bool × Json) (st : Server σ) :
    Extends core
      (fun s rid => postKey rpc request (finish rpc jsonrpc request answer st).1.2 = .ok (s, rid)) st
      (finish rpc jsonrpc request answer st).2 := by
  unfold finish postProcess
  rcases hk : postKey rpc request answer.2 with e | ⟨s, rid⟩
  · cases e <;> exact Extends.of_cache_eq le_rfl rfl
  · dsimp only
    cases hc : st.cache.getCachedResponse s rid with
    | some v => exact Extends.of_cache_eq le_rfl rfl
    | none =>
      have hno : st.cache.entry s rid = none := by
        simpa [RequestCache.getCachedResponse] using hc
      refine ⟨le_rfl, fun s' r' e he => ?_, fun s' r' e he => ?_, fun h => h.addResponse ..,
        fun h => h.addResponse (isRecord_of_postKey hk) _ _⟩
      · have hne : ¬ (s' = s ∧ r' = rid) := by
          rintro ⟨rfl, rfl⟩
          rw [hno] at he
          cases he
        simpa [pure, Except.pure, RequestCache.entry_addResponse, hne] using he
      · by_cases hkey : s' = s ∧ r' = rid
        · obtain ⟨rfl, rfl⟩ := hkey
          exact Or.inr (Or.inl hk)
        · simp only [pure, Except.pure, RequestCache.entry_addResponse, hkey, ↓reduceIte] at he
          exact Or.inl he

/-- What a request can do: be refused, be answered from the cache, or have its
method run and its response recorded. -/
theorem call_cases {methods : String → MethodRun σ} {request : Json} {st t : Server σ}
    {r : Bool × Json} (h : call rpc jsonrpc methods request st = some (r, t)) :
    (t = st ∧ r.1 = false ∧ jsonrpc.checkProtocol request = some r.2) ∨
    (t = st ∧ jsonrpc.checkProtocol request = none ∧ preProcess rpc st.cache request = some r.2) ∨
    (jsonrpc.checkProtocol request = none ∧ preProcess rpc st.cache request = none ∧
      ∃ result u, methods ((rpc.text? request "method").getD "") (paramsOf request) st =
          some (result, u) ∧
        finish rpc jsonrpc request (respond jsonrpc request result) u = (r, t)) := by
  unfold call at h
  split at h
  · next v hv => cases h; exact Or.inl ⟨rfl, rfl, hv⟩
  · next hv =>
    split at h
    · next v hp => cases h; exact Or.inr (Or.inl ⟨rfl, hv, hp⟩)
    · next hp =>
      obtain ⟨⟨result, u⟩, hm, hf⟩ := Option.map_eq_some_iff.mp h
      exact Or.inr (Or.inr ⟨hv, hp, result, u, hm, hf⟩)

theorem call_extends {methods : String → MethodRun σ}
    (hm : ∀ name params st result t, methods name params st = some (result, t) →
      Extends core (fun _ _ => False) st t) {request : Json} {st t : Server σ} {r : Bool × Json}
    (h : call rpc jsonrpc methods request st = some (r, t)) :
    Extends core (fun s rid => postKey rpc request r.2 = .ok (s, rid)) st t := by
  rcases call_cases h with ⟨rfl, -⟩ | ⟨rfl, -⟩ | ⟨-, -, result, u, hu, hf⟩
  · exact Extends.refl _
  · exact Extends.refl _
  · have h2 := finish_extends core rpc jsonrpc request (respond jsonrpc request result) u
    rw [hf] at h2
    exact ((hm _ _ _ _ _ hu).weaken fun _ _ h => h.elim).trans h2

theorem transactionLoop_extends {handler : Json → Server σ → Option ((Bool × Json) × Server σ)}
    (hh : ExtendsOwn rpc core handler) {uniqueId sessionId : String} {i : ℕ}
    {operations : List Json} {responses : Json} {st t : Server σ} {result : Except Exc Json}
    (h : transactionLoop rpc handler uniqueId sessionId i operations responses st =
      some (result, t)) :
    Extends core (fun _ rid => ∃ j, rid = internalId uniqueId j) st t := by
  induction operations generalizing i responses st with
  | nil => cases h; exact Extends.refl _
  | cons operation rest ih =>
    simp only [transactionLoop] at h
    split at h
    · cases h; exact Extends.refl _
    · next operation' responses' hp =>
      obtain ⟨hobj, hid, -⟩ := prepare_id hp
      split at h
      · cases h
      · next ret response u hu =>
        have hstep : Extends core (fun _ rid => ∃ j, rid = internalId uniqueId j) st u := by
          refine (hh _ _ _ _ hu).weaken fun s rid hown => Or.inl ⟨i, ?_⟩
          rcases hown with hown | ⟨items, rfl, -⟩
          · rw [rpc.text?_str hid] at hown
            exact (Option.some.inj hown).symm
          · cases hobj
        split at h
        · cases h; exact hstep
        · split_ifs at h
          · exact hstep.trans (ih h)
          · cases h; exact hstep

theorem transaction_extends {handler : Json → Server σ → Option ((Bool × Json) × Server σ)}
    (hh : ExtendsOwn rpc core handler) {params : Json} {st t : Server σ} {result : Except Exc Json}
    (h : transaction rpc core handler params st = some (result, t)) :
    Extends core (fun _ _ => False) st t := by
  have hdraw : Supply.Ensures (st.drawn + 1) (transactionParams rpc core params) _ :=
    ensures_transactionParams
  obtain ⟨hle, -⟩ := hdraw st.media
  unfold transaction transactionOver at h
  dsimp only at h
  rcases hp : transactionParams rpc core params st.media (st.drawn + 1) with ⟨e | ⟨s, ops⟩, media, k⟩
  · simp only [hp, Option.some.injEq, Prod.mk.injEq] at h hle
    obtain ⟨-, rfl⟩ := h
    exact Extends.of_cache_eq (Nat.le_of_succ_le hle) rfl
  · simp only [hp] at h hle
    have h1 : Extends core (fun _ rid => ∃ j, rid = internalId (core.uuid st.drawn) j) st
        { st with media := media, drawn := k } :=
      Extends.of_cache_eq (Nat.le_of_succ_le hle) rfl
    have h2 : ∃ result', transactionLoop rpc handler (core.uuid st.drawn) s 0 ops .null
        { st with media := media, drawn := k } = some (result', t) := by
      split at h
      · cases h
      · next hl => cases h; exact ⟨_, hl⟩
      · next hl => cases h; exact ⟨_, hl⟩
    obtain ⟨result', hl⟩ := h2
    have h3 := transactionLoop_extends hh hl
    refine (h1.trans h3).weaken fun _ rid hown => Or.inr ?_
    obtain ⟨j, rfl⟩ := hown
    exact ⟨st.drawn, j, le_rfl, (Nat.lt_of_succ_le hle).trans_le h3.drawn_le, rfl⟩

theorem dispatch_extends {handler : Json → Server σ → Option ((Bool × Json) × Server σ)}
    (hh : ExtendsOwn rpc core handler) (name : String) (params : Json) (st : Server σ)
    (result : Except Exc Json) (t : Server σ)
    (h : dispatch rpc core handler name params st = some (result, t)) :
    Extends core (fun _ _ => False) st t := by
  unfold dispatch at h
  split_ifs at h
  · exact transaction_extends hh h
  · split at h
    · next m hm =>
      cases h
      have hens : Supply.Ensures st.drawn (m params) _ := ensures_method hm
      exact Extends.of_cache_eq (hens st.media).1 rfl
    · cases h
      exact Extends.refl _

/-- The requests of a batch after those of a prefix. -/
theorem callAll_append {methods : String → MethodRun σ} (pre post : List Json) (st : Server σ) :
    callAll rpc jsonrpc methods (pre ++ post) st =
      match callAll rpc jsonrpc methods pre st with
      | none => none
      | some (rs, st) => (callAll rpc jsonrpc methods post st).map fun r => (rs ++ r.1, r.2) := by
  induction pre generalizing st with
  | nil =>
    simp only [List.nil_append, callAll]
    cases callAll rpc jsonrpc methods post st <;> rfl
  | cons request rest ih =>
    simp only [List.cons_append, callAll]
    cases call rpc jsonrpc methods request st with
    | none => rfl
    | some r =>
      simp only [ih]
      rcases callAll rpc jsonrpc methods rest r.2 with _ | ⟨rs, u⟩
      · rfl
      · simp only [Option.map_some]
        cases callAll rpc jsonrpc methods post u <;> rfl

/-- What holds after a batch and not before has come about in one of its requests. -/
theorem callAll_change {methods : String → MethodRun σ} {P : Server σ → Prop} {requests : List Json}
    {rs : List (Bool × Json)} {st t : Server σ}
    (h : callAll rpc jsonrpc methods requests st = some (rs, t)) (hst : ¬ P st) (ht : P t) :
    ∃ pre q post vs u r u', requests = pre ++ q :: post ∧
      callAll rpc jsonrpc methods pre st = some (vs, u) ∧
      call rpc jsonrpc methods q u = some (r, u') ∧ ¬ P u ∧ P u' := by
  induction requests generalizing st rs with
  | nil => cases h; exact absurd ht hst
  | cons request rest ih =>
    simp only [callAll] at h
    split at h
    · cases h
    · next r u hu =>
      obtain ⟨⟨rs', t'⟩, hr, he⟩ := Option.map_eq_some_iff.mp h
      cases he
      by_cases hPu : P u
      · exact ⟨[], request, rest, [], st, r, u, rfl, rfl, hu, hst, hPu⟩
      · obtain ⟨pre, q, post, vs, w, r', w', rfl, hpre, hrest⟩ := ih hr hPu
        exact ⟨request :: pre, q, post, r :: vs, w, r', w', rfl, by simp [callAll, hu, hpre], hrest⟩

theorem callAll_extends {methods : String → MethodRun σ}
    (hm : ∀ name params st result t, methods name params st = some (result, t) →
      Extends core (fun _ _ => False) st t) {requests : List Json} {st t : Server σ}
    {rs : List (Bool × Json)} (h : callAll rpc jsonrpc methods requests st = some (rs, t)) :
    Extends core (fun _ rid => ∃ v ∈ requests, rpc.text? v "id" = some rid) st t := by
  induction requests generalizing st rs with
  | nil => cases h; exact Extends.refl _
  | cons request rest ih =>
    simp only [callAll] at h
    split at h
    · cases h
    · next r u hu =>
      obtain ⟨⟨rs', t'⟩, hr, he⟩ := Option.map_eq_some_iff.mp h
      cases he
      have h1 : Extends core (fun _ rid => ∃ v ∈ request :: rest, rpc.text? v "id" = some rid) st u :=
        (call_extends hm hu).weaken fun s rid hk =>
          Or.inl ⟨request, List.mem_cons_self .., postKey_id hk⟩
      refine h1.trans ((ih hr).weaken fun _ rid hv => Or.inl ?_)
      obtain ⟨v, hv, hid⟩ := hv
      exact ⟨v, List.mem_cons_of_mem _ hv, hid⟩

/-- Whatever a request does, it adds to the cache under its own id and under
internal ids only, and changes no entry. -/
theorem handlerProcess_extends (depth : ℕ) :
    ExtendsOwn rpc core (handlerProcess rpc core jsonrpc depth) := by
  induction depth with
  | zero => intro request st r t h; cases h
  | succ depth ih =>
    intro request st r t h
    have hm := dispatch_extends ih
    cases request with
    | arr requests =>
      obtain ⟨⟨rs, u⟩, hc, he⟩ := Option.map_eq_some_iff.mp h
      cases he
      exact (callAll_extends hm hc).weaken fun _ rid hv => Or.inl (Or.inr ⟨requests, rfl, hv⟩)
    | _ => exact (call_extends hm h).weaken fun s rid hk => Or.inl (Or.inl (postKey_id hk))

/-! ### What a request is answered -/

/-- The result of a method shows the session of its params, or one generated since. -/
theorem dispatch_reports {handler : Json → Server σ → Option ((Bool × Json) × Server σ)}
    (hh : ExtendsOwn rpc core handler) {name : String} {params : Json} {st : Server σ}
    {result : Json} {t : Server σ}
    (h : dispatch rpc core handler name params st = some (.ok result, t)) :
    ReportsSession rpc core params st.drawn t.drawn result := by
  unfold dispatch at h
  split_ifs at h
  · unfold transaction transactionOver at h
    have hdraw : Supply.Ensures (st.drawn + 1) (transactionParams rpc core params) _ :=
      ensures_transactionParams
    obtain ⟨-, hs⟩ := hdraw st.media
    rcases hp : transactionParams rpc core params st.media (st.drawn + 1) with
      ⟨e | ⟨s, ops⟩, media, k⟩
    · simp [hp] at h
    · simp only [hp] at h hs
      split at h
      · cases h
      · cases h
      · next hl =>
        cases h
        have hk := (transactionLoop_extends hh hl).drawn_le
        exact reportsSession_object (by simp) ((hs _ rfl).mono (Nat.le_succ _) hk)
  · split at h
    · next m hm =>
      have hens : Supply.Ensures st.drawn (m params) _ := ensures_method hm
      obtain ⟨-, hr⟩ := hens st.media
      simp only [Option.some.injEq, Prod.mk.injEq] at h
      obtain ⟨hres, rfl⟩ := h
      exact hr _ hres
    · cases h

theorem failure_result (request : Json) (e : Exc) :
    (jsonrpc.failure request e).member? "result" = none := by
  by_cases hid : Identified request
  · exact (jsonrpc.failure_error request e hid).1
  · exact (jsonrpc.notification request .null e hid).2.2

variable (jsonrpc) in
/-- A response is an object or null, and its result is that of the method. -/
theorem respond_shape (request : Json) (result : Except Exc Json) :
    (respond jsonrpc request result).2.isRecord = true ∧
      ∀ v, (respond jsonrpc request result).2.member? "result" = some v → result = .ok v := by
  by_cases hid : Identified request
  · cases result with
    | error e =>
      exact ⟨Json.isRecord_of_isObject (jsonrpc.failure_object hid e),
        fun v hv => by simp [respond, failure_result] at hv⟩
    | ok result =>
      have hres := (jsonrpc.success_result request result hid).1
      exact ⟨Json.isRecord_of_isObject (jsonrpc.success_object hid result),
        fun v hv => by simpa [respond, hres] using hv⟩
  · cases result with
    | error e =>
      exact ⟨(jsonrpc.notification request .null e hid).2.1,
        fun v hv => by simp [respond, failure_result] at hv⟩
    | ok result =>
      rcases (jsonrpc.notification request result .unknown hid).1 with hn | hres
      · have heq : jsonrpc.success request result = .null := by
          cases h : jsonrpc.success request result <;> simp_all [Json.isNull]
        exact ⟨by simp [respond, heq, Json.isRecord], fun v hv => by simp [respond, heq] at hv⟩
      · exact ⟨Json.isRecord_of_member? hres, fun v hv => by simpa [respond, hres] using hv⟩

/-- A response has the key of the request when the request names its session. -/
theorem postKey_respond {request : Json} {result : Except Exc Json} {n k : ℕ} {s rid : String}
    (hrep : ∀ v, result = .ok v → ReportsSession rpc core (paramsOf request) n k v)
    (hrid : rpc.text? request "id" = some rid) (hs : paramsSession rpc request = some s) :
    postKey rpc request (respond jsonrpc request result).2 = .ok (s, rid) := by
  obtain ⟨hrec, hres⟩ := respond_shape jsonrpc request result
  refine (postKey_eq_ok hrec fun v hv => (hrep v (hres v hv)).1).mpr ⟨hrid, ?_⟩
  cases hses : resultSession rpc (respond jsonrpc request result).2 with
  | none => exact hs
  | some s' =>
    obtain ⟨v, hv, hs'⟩ := Option.bind_eq_some_iff.mp hses
    rw [paramsSession_eq] at hs
    rcases (hrep v (hres v hv)).2 s' hs' with h | ⟨h, -⟩
    · exact h.symm.trans hs
    · rw [h] at hs
      cases hs

/-- A response with a result, which is an object or null. -/
def Succeeded (v : Json) : Prop :=
  v.member? "error" = none ∧ ∃ result, v.member? "result" = some result ∧ result.isRecord = true

/-- A request with an id that is not answered from the cache is answered with an
object, and with a result when `process` returns true. -/
theorem call_answer {methods : String → MethodRun σ}
    (hm : ∀ name params st result t, methods name params st = some (.ok result, t) →
      result.isRecord = true) {request : Json} {st t : Server σ} {r : Bool × Json}
    (hid : Identified request) (hp : preProcess rpc st.cache request = none)
    (h : call rpc jsonrpc methods request st = some (r, t)) :
    r.2.isObject = true ∧ (r.1 = true → Succeeded r.2) := by
  rcases call_cases h with ⟨-, hr, hv⟩ | ⟨-, -, hp'⟩ | ⟨-, -, result, u, hu, hf⟩
  · exact ⟨jsonrpc.checkProtocol_object hid hv, by simp [hr]⟩
  · rw [hp] at hp'
    cases hp'
  · unfold finish at hf
    split at hf
    · cases hf
      cases result with
      | error e => exact ⟨jsonrpc.failure_object hid e, by simp [respond]⟩
      | ok result =>
        obtain ⟨h1, h2⟩ := jsonrpc.success_result request result hid
        exact ⟨jsonrpc.success_object hid result, fun _ => ⟨h2, result, h1, hm _ _ _ _ _ hu⟩⟩
    · next e he =>
      cases hf
      exact ⟨jsonrpc.failure_object hid e, by simp⟩

/-- The handler on an object. -/
theorem handlerProcess_of_identified (depth : ℕ) {request : Json} (hid : Identified request)
    (st : Server σ) : handlerProcess rpc core jsonrpc (depth + 1) request st =
      call rpc jsonrpc (dispatch rpc core (handlerProcess rpc core jsonrpc depth)) request st := by
  obtain ⟨v, hv, -⟩ := hid
  cases request <;> first | rfl | simp [Json.member?] at hv

theorem handlerProcess_answer {depth : ℕ} {request : Json} {st t : Server σ} {r : Bool × Json}
    (hid : Identified request) (hp : preProcess rpc st.cache request = none)
    (h : handlerProcess rpc core jsonrpc depth request st = some (r, t)) :
    r.2.isObject = true ∧ (r.1 = true → Succeeded r.2) := by
  cases depth with
  | zero => cases h
  | succ depth =>
    rw [handlerProcess_of_identified depth hid] at h
    exact call_answer (fun _ _ _ _ _ hd => (dispatch_reports (handlerProcess_extends depth) hd).1)
      hid hp h

theorem handlerProcess_record {depth : ℕ} {request : Json} {st t : Server σ} {r : Bool × Json}
    (hid : Identified request) (hst : st.cache.Records)
    (h : handlerProcess rpc core jsonrpc depth request st = some (r, t)) :
    r.2.isRecord = true ∧ t.cache.Records := by
  refine ⟨?_, (handlerProcess_extends depth _ _ _ _ h).records hst⟩
  cases hp : preProcess rpc st.cache request with
  | none => exact Json.isRecord_of_isObject (handlerProcess_answer hid hp h).1
  | some v =>
    cases depth with
    | zero => cases h
    | succ depth =>
      rw [handlerProcess_of_identified depth hid] at h
      rcases call_cases h with ⟨-, -, hv⟩ | ⟨-, -, hp'⟩ | ⟨-, hp', -⟩
      · exact Json.isRecord_of_isObject (jsonrpc.checkProtocol_object hid hv)
      · obtain ⟨s, rid, -, -, he⟩ := preProcess_eq_some.mp hp'
        obtain ⟨e, he, heq⟩ := Option.map_eq_some_iff.mp he
        exact heq ▸ hst s rid e he
      · rw [hp] at hp'
        cases hp'

/-! ### Operations handed over -/

/-- The requests of a transaction are objects under their internal ids. -/
theorem prepared_identified {uniqueId sessionId : String} {i : ℕ} {op req : Json} {rs : List Json}
    (h : prepared rpc uniqueId sessionId i op rs = .ok req) : Identified req :=
  ⟨_, (prepare_id (prepared_eq_ok.mp h)).2.1, rfl, rfl⟩

/-- Operations extend the server; whose keys they add is left open. -/
theorem execute_extends {request : ℕ → Json → List Json → Except Exc Json} {depth : ℕ}
    {ops rs vs : List Json} {st t : Server σ} {x : Except Exc Bool}
    (h : execute request (handlerProcess rpc core jsonrpc depth) ops rs st = some (x, vs, t)) :
    Extends core (fun _ _ => True) st t := by
  have hstep : ∀ req v u u' (ret : Bool), Extends core (fun _ _ => True) st u →
      handlerProcess rpc core jsonrpc depth req u = some ((ret, v), u') →
      Extends core (fun _ _ => True) st u' := fun req v u u' ret hu hr =>
    hu.trans ((handlerProcess_extends depth _ _ _ _ hr).weaken fun _ _ _ => Or.inl trivial)
  exact execute_rule (P := fun _ _ => True) (I := fun _ u => Extends core (fun _ _ => True) st u)
    (Q := fun _ _ u => Extends core (fun _ _ => True) st u) (fun _ _ hu => hu)
    (fun _ _ _ _ _ hu _ => hu) (fun _ _ _ _ _ _ _ hu _ hr => hstep _ _ _ _ _ hu hr)
    (fun _ _ _ _ _ _ _ hu _ hr => hstep _ _ _ _ _ hu hr) (fun _ _ _ => trivial) (Extends.refl st) h

/-- A transaction is its operations handed over. -/
theorem transaction_eq_execute {depth : ℕ} {params : Json} {st : Server σ} {sessionId : String}
    {operations : List Json} {media : σ} {drawn : ℕ} (hst : st.cache.Records)
    (hp : transactionParams rpc core params st.media (st.drawn + 1) =
      (.ok (sessionId, operations), media, drawn)) :
    transaction rpc core (handlerProcess rpc core jsonrpc depth) params st =
      (execute (prepared rpc (core.uuid st.drawn) sessionId) (handlerProcess rpc core jsonrpc depth)
        operations [] { st with media, drawn }).map fun r =>
          (r.1.map fun _ => .object [("value", .arr (r.2.1.mapIdx withId)),
            ("sessionId", .str sessionId)], r.2.2) :=
  transactionOver_eq (I := fun _ u => u.cache.Records) hp (fun _ _ _ _ _ _ _ hid hinv hr =>
    handlerProcess_record ⟨_, hid, rfl, rfl⟩ hinv hr) hst

end Frame

end KurentoMediaServer.Methods
