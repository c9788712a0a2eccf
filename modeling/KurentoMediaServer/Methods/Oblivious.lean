import KurentoMediaServer.Methods.Frame
import Mathlib.Data.List.Forall2

/-! A request not in the cache is run, and what it then does depends neither on its id
nor on the cache: two such requests that differ in their ids only, handled by servers
that differ in their caches only, do the same to the media state and are answered
alike but for the id. Transactions hand over operations under ids no cache can know,
which carries this through any depth of nesting. -/

namespace KurentoMediaServer.Methods

open Foundations Cache

/-! ### Internal ids -/

theorem internalId_inj {u u' : String} (hu : '_' ∉ u.toList) {i j : ℕ} :
    internalId u i = internalId u' j ↔ u = u' ∧ i = j := by
  have hsplit : ∀ (w : String) (k : ℕ),
      (internalId w k).toList = w.toList ++ '_' :: (toString k).toList := by
    intro w k
    simp [internalId]
  have hdigits : ∀ k : ℕ, '_' ∉ (toString k).toList := fun k hk =>
    absurd (isDigit_of_mem_toString hk) (by decide)
  rw [← String.toList_inj, hsplit, hsplit,
    List.append_cons_inj_of_notMem hu (hdigits i), String.toList_inj, String.toList_inj]
  exact and_congr_right fun _ => ⟨fun h => toString_injective h.2, fun h => ⟨rfl, congrArg _ h⟩⟩

variable {σ : Type} (rpc : JsonRpc) (core : Core σ) (jsonrpc : RpcHandler)

theorem uuid_internalId_inj {n m i j : ℕ} :
    internalId (core.uuid n) i = internalId (core.uuid m) j ↔ n = m ∧ i = j := by
  rw [internalId_inj (core.uuid_plain n).2, core.uuid_injective.eq_iff]

theorem toString_int_ne_internalId (k : ℤ) (u : String) (i : ℕ) : toString k ≠ internalId u i := by
  intro h
  have hmem : '_' ∈ (toString k).toList := by
    rw [h]
    simp [internalId]
  rcases mem_toString_int hmem with h | h <;> simp at h

/-! ### Ids that are not in the cache -/

/-- No entry is under an internal id of a UUID that is yet to be generated. -/
def Fresh (st : Server σ) : Prop :=
  ∀ s n i, st.drawn ≤ n → st.cache.entry s (internalId (core.uuid n) i) = none

/-- The ids `key` of the operations from `i` on are not in use, each in the sessions `S`
that it may come with, and will not be used for others. -/
structure Pristine (S : ℕ → String → Prop) (key : ℕ → String) (i : ℕ) (st : Server σ) : Prop where
  injective : Function.Injective key
  external : ∀ i n j, st.drawn ≤ n → key i ≠ internalId (core.uuid n) j
  fresh : Fresh core st
  unused : ∀ s j, S j s → i ≤ j → st.cache.entry s (key j) = none

/-- A request with an id, in one of the sessions `S` if it names one. -/
structure Carries (S : String → Prop) (rid : String) (request : Json) : Prop where
  identified : Identified request
  id : rpc.text? request "id" = some rid
  session : ∀ s, paramsSession rpc request = some s → S s

section Pristine
variable {rpc core jsonrpc} {S : ℕ → String → Prop} {key : ℕ → String} {i : ℕ} {st t : Server σ}
  {request : Json}

theorem Pristine.step (h : Pristine core S key i st)
    (hx : Extends core (fun _ rid => rid = key i) st t) : Pristine core S key (i + 1) t where
  injective := h.injective
  external j n k hn := h.external j n k (hx.drawn_le.trans hn)
  fresh s n j hn := by
    rw [Option.eq_none_iff_forall_ne_some]
    intro e he
    rcases hx.added _ _ _ he with h' | h' | ⟨m, k, -, hm, hr⟩
    · rw [h.fresh s n j (hx.drawn_le.trans hn)] at h'
      cases h'
    · exact h.external i n j (hx.drawn_le.trans hn) h'.symm
    · obtain ⟨rfl, -⟩ := (uuid_internalId_inj core).mp hr
      omega
  unused s j hs hj := by
    rw [Option.eq_none_iff_forall_ne_some]
    intro e he
    rcases hx.added _ _ _ he with h' | h' | ⟨m, k, hm, -, hr⟩
    · rw [h.unused s j hs (by omega)] at h'
      cases h'
    · have := h.injective h'
      omega
    · exact h.external j m k hm hr

/-- The internal ids of a transaction that begins. -/
theorem Fresh.pristine_internalId (h : Fresh core st) (media : σ) {drawn : ℕ}
    (hd : st.drawn < drawn) : Pristine core (fun _ _ => True) (internalId (core.uuid st.drawn)) 0
      { st with media, drawn } where
  injective j k hjk := ((uuid_internalId_inj core).mp hjk).2
  external j n k hn hjk := by
    have := ((uuid_internalId_inj core).mp hjk).1
    dsimp only at hn
    omega
  fresh s n j hn := h s n j (hd.le.trans hn)
  unused s j _ _ := h s st.drawn j le_rfl

/-- The numbers below `n`, in a session where they are not in use. -/
theorem Fresh.pristine_toString (h : Fresh core st) {sessionId : String} {n : ℕ}
    (hid : ∀ i < n, st.cache.entry sessionId (toString (i : ℤ)) = none) :
    Pristine core (fun i s => i < n ∧ s = sessionId) (fun i => toString (i : ℤ)) 0 st where
  injective j k hjk := toString_injective hjk
  external j n k _ := toString_int_ne_internalId _ _ _
  fresh := h
  unused s j hs _ := by
    obtain ⟨hj, rfl⟩ := hs
    exact hid j hj

theorem Carries.preProcess (hc : Carries rpc (S i) (key i) request) (h : Pristine core S key i st) :
    preProcess rpc st.cache request = none := by
  rw [Option.eq_none_iff_forall_ne_some]
  intro v hv
  obtain ⟨s, rid, hid, hs, he⟩ := preProcess_eq_some.mp hv
  obtain rfl : key i = rid := by simpa [hc.id] using hid
  simp [RequestCache.getCachedResponse, h.unused s i (hc.session s hs) le_rfl] at he

/-- The only id a request with an id is stored under. -/
theorem Carries.ownsId {S : String → Prop} {rid : String} (hc : Carries rpc S rid request) {x : String}
    (h : OwnsId rpc request x) : x = rid := by
  rcases h with h | ⟨items, rfl, -⟩
  · simpa [hc.id] using h.symm
  · obtain ⟨v, hv, -⟩ := hc.identified
    cases hv

/-- One operation that is not in the cache. -/
theorem handlerProcess_step {depth : ℕ} {r : Bool × Json} (h : Pristine core S key i st)
    (hc : Carries rpc (S i) (key i) request)
    (hr : handlerProcess rpc core jsonrpc depth request st = some (r, t)) :
    (r.2.isObject = true ∧ (r.1 = true → Succeeded r.2)) ∧ Pristine core S key (i + 1) t :=
  ⟨handlerProcess_answer hc.identified (hc.preProcess h) hr,
    h.step ((handlerProcess_extends depth _ _ _ _ hr).weaken fun _ _ ho => Or.inl (hc.ownsId ho))⟩

end Pristine

/-! ### Servers with different caches -/

theorem rel_cases {α β : Type} {R : α → β → Prop} {x : Option α} {y : Option β}
    (h : Option.Rel R x y) : (x = none ∧ y = none) ∨ ∃ a b, x = some a ∧ y = some b ∧ R a b := by
  cases h with
  | none => exact Or.inl ⟨rfl, rfl⟩
  | some h => exact Or.inr ⟨_, _, rfl, rfl, h⟩

/-- The same but for the caches. -/
def SameMedia (st st' : Server σ) : Prop := st.media = st'.media ∧ st.drawn = st'.drawn

/-- A handler that two requests with different ids, and two caches without them, make
no difference to. -/
def Oblivious (handler : Json → Server σ → Option ((Bool × Json) × Server σ)) : Prop :=
  ∀ ⦃S S' : ℕ → String → Prop⦄ ⦃key key' : ℕ → String⦄ ⦃i i' : ℕ⦄ ⦃r r' : Json⦄ ⦃st st' : Server σ⦄,
    SameButId r r' → Carries rpc (S i) (key i) r → Carries rpc (S' i') (key' i') r' →
    Pristine core S key i st → Pristine core S' key' i' st' → SameMedia st st' →
    Option.Rel (fun a b => a.1.1 = b.1.1 ∧ SameButId a.1.2 b.1.2 ∧ SameMedia a.2 b.2)
      (handler r st) (handler r' st')

section Agree
variable {rpc core jsonrpc} {S S' : ℕ → String → Prop} {key key' : ℕ → String} {i i' : ℕ}
  {r r' : Json} {st st' : Server σ}

theorem postSession_congr {v v' : Json} (hr : SameButId r r') (hv : SameButId v v') :
    postSession rpc r v = postSession rpc r' v' := by
  have hres := hv.member? (k := "result") (by decide)
  have hpar := hr.member? (k := "params") (by decide)
  simp only [postSession]
  rw [rpc.getValue_of_record "result" (Json.isRecord_of_isObject hv.isObject),
    rpc.getValue_of_record "result" (Json.isRecord_of_isObject hv.symm.isObject),
    rpc.getValue_of_record "params" (Json.isRecord_of_isObject hr.isObject),
    rpc.getValue_of_record "params" (Json.isRecord_of_isObject hr.symm.isObject), hres, hpar]

/-- What `postProcess` does to a request with an id: its outcome is that of the
session. -/
theorem postProcess_of_id (cache : RequestCache) {rid : String} (v : Json)
    (hid : rpc.text? r "id" = some rid) : ∃ added, postProcess rpc cache r v =
      match postSession rpc r v with
      | .ok _ => .ok added
      | .error (.call _) => .ok cache
      | .error e => .error e := by
  simp only [postProcess, postKey, rpc.getStringValue_eq_ok.mpr hid, bind, Except.bind]
  rcases postSession rpc r v with e | s
  · cases e <;> exact ⟨cache, rfl⟩
  · simp only [pure, Except.pure]
    cases cache.getCachedResponse s rid <;> exact ⟨_, rfl⟩

theorem finish_agrees {a a' : Bool × Json} (hr : SameButId r r') (hc : Carries rpc (S i) (key i) r)
    (hc' : Carries rpc (S' i') (key' i') r') (ha : a.1 = a'.1) (hv : SameButId a.2 a'.2)
    (hst : SameMedia st st') :
    (finish rpc jsonrpc r a st).1.1 = (finish rpc jsonrpc r' a' st').1.1 ∧
      SameButId (finish rpc jsonrpc r a st).1.2 (finish rpc jsonrpc r' a' st').1.2 ∧
      SameMedia (finish rpc jsonrpc r a st).2 (finish rpc jsonrpc r' a' st').2 := by
  obtain ⟨c, h⟩ := postProcess_of_id st.cache a.2 hc.id
  obtain ⟨c', h'⟩ := postProcess_of_id st'.cache a'.2 hc'.id
  rw [postSession_congr hr hv] at h
  simp only [finish, h, h']
  rcases postSession rpc r' a'.2 with e | s
  · cases e with
    | call e => exact ⟨ha, hv, hst⟩
    | _ => exact ⟨rfl, jsonrpc.failure_id _ _ _ hr hc.identified hc'.identified, hst⟩
  · exact ⟨ha, hv, hst⟩

/-- Methods that agree make calls that agree. -/
theorem call_agrees {methods : String → MethodRun σ}
    (hm : ∀ name params st st', Fresh core st → Fresh core st' → SameMedia st st' →
      Option.Rel (fun a b => a.1 = b.1 ∧ SameMedia a.2 b.2) (methods name params st)
        (methods name params st'))
    (hr : SameButId r r') (hc : Carries rpc (S i) (key i) r) (hc' : Carries rpc (S' i') (key' i') r')
    (hp : Pristine core S key i st) (hp' : Pristine core S' key' i' st') (hst : SameMedia st st') :
    Option.Rel (fun a b => a.1.1 = b.1.1 ∧ SameButId a.1.2 b.1.2 ∧ SameMedia a.2 b.2)
      (call rpc jsonrpc methods r st) (call rpc jsonrpc methods r' st') := by
  have hmethod : rpc.text? r "method" = rpc.text? r' "method" := by
    simp [JsonRpc.text?, hr.member? (k := "method") (by decide)]
  have hparams : paramsOf r = paramsOf r' := by
    simp [paramsOf, hr.member? (k := "params") (by decide)]
  rcases jsonrpc.protocol_id r r' hr hc.identified hc'.identified with
    ⟨h, h'⟩ | ⟨v, v', h, h', hv⟩
  · simp only [call, h, h', hc.preProcess hp, hc'.preProcess hp', hmethod, hparams]
    rcases rel_cases (hm ((rpc.text? r' "method").getD "") (paramsOf r') st st' hp.fresh hp'.fresh
      hst) with ⟨hn, hn'⟩ | ⟨⟨x, u⟩, ⟨x', u'⟩, hs, hs', heq, hu⟩
    · rw [hn, hn']
      exact .none
    · obtain rfl : x = x' := heq
      rw [hs, hs']
      refine .some (finish_agrees hr hc hc' ?_ ?_ hu)
      · cases x <;> rfl
      · cases x with
        | error e => exact jsonrpc.failure_id _ _ e hr hc.identified hc'.identified
        | ok x => exact jsonrpc.success_id _ _ x hr hc.identified hc'.identified
  · simp only [call, h, h']
    exact .some ⟨rfl, hv, hst⟩

/-- Two ways of making requests of operations with the property `P`: both fail alike,
or give requests that differ in their ids only. -/
def RequestsAgree (rpc : JsonRpc) (S S' : ℕ → String → Prop) (key key' : ℕ → String)
    (P : ℕ → Json → Prop) (request request' : ℕ → Json → List Json → Except Exc Json) : Prop :=
  ∀ op rs rs', P rs.length op → List.Forall₂ SameButId rs rs' →
    (∃ e, request rs.length op rs = .error e ∧ request' rs'.length op rs' = .error e) ∨
    ∃ r r', request rs.length op rs = .ok r ∧ request' rs'.length op rs' = .ok r' ∧
      SameButId r r' ∧ Carries rpc (S rs.length) (key rs.length) r ∧ Carries rpc (S' rs'.length) (key' rs'.length) r'

/-- Operations made into requests that differ in their ids only are executed alike. -/
theorem execute_agrees {depth : ℕ} (hob : Oblivious rpc core (handlerProcess rpc core jsonrpc depth))
    {P : ℕ → Json → Prop} {request request' : ℕ → Json → List Json → Except Exc Json}
    (hreq : RequestsAgree rpc S S' key key' P request request')
    (ops : List Json) {rs rs' : List Json} (hops : ∀ j op, ops[j]? = some op → P (rs.length + j) op)
    (hrs : List.Forall₂ SameButId rs rs') (hp : Pristine core S key rs.length st)
    (hp' : Pristine core S' key' rs'.length st') (hst : SameMedia st st') :
    Option.Rel (fun a b => a.1 = b.1 ∧ List.Forall₂ SameButId a.2.1 b.2.1 ∧ SameMedia a.2.2 b.2.2)
      (execute request (handlerProcess rpc core jsonrpc depth) ops rs st)
      (execute request' (handlerProcess rpc core jsonrpc depth) ops rs' st') := by
  induction ops generalizing rs rs' st st' with
  | nil => exact .some ⟨rfl, hrs, hst⟩
  | cons op rest ih =>
    simp only [execute]
    rcases hreq op rs rs' (hops 0 op rfl) hrs with ⟨e, he, he'⟩ | ⟨r, r', hr, hr', hs, hc, hc'⟩
    · rw [he, he']
      exact .some ⟨rfl, hrs, hst⟩
    · simp only [hr, hr']
      rcases rel_cases (hob hs hc hc' hp hp' hst) with
        ⟨hn, hn'⟩ | ⟨⟨⟨ret, v⟩, u⟩, ⟨⟨ret', v'⟩, u'⟩, hu, hu', hret, hv, hsu⟩
      · rw [hn, hn']
        exact .none
      · obtain rfl : ret = ret' := hret
        have hrs' : List.Forall₂ SameButId (rs ++ [v]) (rs' ++ [v']) :=
          List.rel_append hrs (.cons hv .nil)
        rw [hu, hu']
        cases ret
        · exact .some ⟨rfl, hrs', hsu⟩
        · refine ih (fun j op hj => ?_) hrs' ?_ ?_ hsu
          · have hstep := hops (j + 1) op hj
            rwa [List.length_append, List.length_singleton, Nat.add_assoc, Nat.add_comm 1 j]
          · rw [List.length_append, List.length_singleton]
            exact (handlerProcess_step hp hc hu).2
          · rw [List.length_append, List.length_singleton]
            exact (handlerProcess_step hp' hc' hu').2

/-! ### Transactions -/

theorem withId_congr {v v' : Json} (h : SameButId v v') (i : ℕ) : withId i v = withId i v' := by
  obtain ⟨ms, ns, rfl, rfl, h⟩ := h
  exact congrArg Json.obj (h _)

theorem mapIdx_withId_congr {rs rs' : List Json} (h : List.Forall₂ SameButId rs rs') :
    rs.mapIdx withId = rs'.mapIdx withId := by
  obtain ⟨hlen, hget⟩ := List.forall₂_iff_get.mp h
  refine List.ext_getElem (by simp [hlen]) fun i h1 h2 => ?_
  simp only [List.getElem_mapIdx]
  exact withId_congr (hget i (by simpa using h1) (by simpa using h2)) i

theorem recorded_congr {rs rs' : List Json} (h : List.Forall₂ SameButId rs rs') :
    recorded rs = recorded rs' := by
  unfold recorded
  rw [mapIdx_withId_congr h]
  cases h <;> simp

theorem carries_of_member? {rid : String} (h : r.member? "id" = some (.str rid)) :
    Carries rpc (fun _ => True) rid r :=
  ⟨⟨_, h, rfl, rfl⟩, rpc.text?_str h, fun _ _ => trivial⟩

/-- The requests of a transaction depend on the responses but for their ids. -/
theorem prepared_agree (uniqueId sessionId : String) : RequestsAgree rpc (fun _ _ => True)
    (fun _ _ => True) (internalId uniqueId) (internalId uniqueId) (fun _ _ => True)
    (prepared rpc uniqueId sessionId) (prepared rpc uniqueId sessionId) := by
  intro op rs rs' _ hrs
  have heq : prepared rpc uniqueId sessionId rs'.length op rs' =
      prepared rpc uniqueId sessionId rs.length op rs := by
    rw [prepared, prepared, recorded_congr hrs, hrs.length_eq]
  rw [heq]
  rcases hp : prepared rpc uniqueId sessionId rs.length op rs with e | r
  · exact Or.inl ⟨e, rfl, rfl⟩
  · obtain ⟨hobj, hid, -⟩ := prepare_id (prepared_eq_ok.mp hp)
    have hc : Carries rpc _ _ r := carries_of_member? hid
    exact Or.inr ⟨r, r, rfl, rfl, hc.identified.sameButId, hc, hrs.length_eq ▸ hc⟩

variable (jsonrpc) in
/-- The transaction of the handler, as its operations handed over. -/
theorem transaction_handlerProcess (depth : ℕ) {params : Json} {sessionId : String}
    {operations : List Json} {media : σ} {drawn : ℕ} (hfresh : Fresh core st)
    (hp : transactionParams rpc core params st.media (st.drawn + 1) =
      (.ok (sessionId, operations), media, drawn)) :
    Pristine core (fun _ _ => True) (internalId (core.uuid st.drawn)) 0 { st with media, drawn } ∧
    transaction rpc core (handlerProcess rpc core jsonrpc depth) params st =
      (execute (prepared rpc (core.uuid st.drawn) sessionId) (handlerProcess rpc core jsonrpc depth)
        operations [] { st with media, drawn }).map fun r =>
          (r.1.map fun _ => .object [("value", .arr (r.2.1.mapIdx withId)),
            ("sessionId", .str sessionId)], r.2.2) := by
  have hlt : st.drawn < drawn := (transactionParams_eq hp).2
  have hpristine := hfresh.pristine_internalId media hlt
  refine ⟨hpristine, transactionOver_eq hp (fun i req st' ret v t _ hid hinv hr => ?_) hpristine⟩
  obtain ⟨⟨hobj, -⟩, hnext⟩ := handlerProcess_step hinv (carries_of_member? hid) hr
  exact ⟨Json.isRecord_of_isObject hobj, hnext⟩

theorem transaction_agrees {depth : ℕ}
    (hob : Oblivious rpc core (handlerProcess rpc core jsonrpc depth)) (params : Json)
    (hf : Fresh core st) (hf' : Fresh core st') (hst : SameMedia st st') :
    Option.Rel (fun a b => a.1 = b.1 ∧ SameMedia a.2 b.2)
      (transaction rpc core (handlerProcess rpc core jsonrpc depth) params st)
      (transaction rpc core (handlerProcess rpc core jsonrpc depth) params st') := by
  obtain ⟨media, cache, drawn⟩ := st
  obtain ⟨_, cache', _⟩ := st'
  obtain ⟨rfl, rfl⟩ := hst
  rcases hp : transactionParams rpc core params media (drawn + 1) with ⟨e | ⟨s, ops⟩, media', drawn'⟩
  · simp only [transaction, transactionOver, hp]
    exact .some ⟨rfl, rfl, rfl⟩
  · obtain ⟨hpr, ht⟩ := transaction_handlerProcess jsonrpc depth hf hp
    obtain ⟨hpr', ht'⟩ := transaction_handlerProcess jsonrpc depth hf' hp
    rw [ht, ht']
    rcases rel_cases (execute_agrees hob (prepared_agree (core.uuid drawn) s) ops
      (fun _ _ _ => trivial) .nil hpr hpr' ⟨rfl, rfl⟩) with
      ⟨hn, hn'⟩ | ⟨⟨x, vs, u⟩, ⟨x', vs', u'⟩, hu, hu', hx, hvs, hsu⟩
    · rw [hn, hn']
      exact .none
    · obtain rfl : x = x' := hx
      rw [hu, hu']
      exact .some ⟨by simp only [mapIdx_withId_congr hvs], hsu⟩

theorem dispatch_agrees {depth : ℕ}
    (hob : Oblivious rpc core (handlerProcess rpc core jsonrpc depth)) (name : String)
    (params : Json) (st st' : Server σ) (hf : Fresh core st) (hf' : Fresh core st')
    (hst : SameMedia st st') :
    Option.Rel (fun a b => a.1 = b.1 ∧ SameMedia a.2 b.2)
      (dispatch rpc core (handlerProcess rpc core jsonrpc depth) name params st)
      (dispatch rpc core (handlerProcess rpc core jsonrpc depth) name params st') := by
  unfold dispatch
  split_ifs
  · exact transaction_agrees hob params hf hf' hst
  · cases method rpc core name with
    | none => exact .some ⟨rfl, hst⟩
    | some m =>
      simp only [hst.1, hst.2]
      exact .some ⟨rfl, rfl, rfl⟩

variable (rpc core jsonrpc) in
/-- The server pays no heed to the id of a request it does not have in its cache, nor
to the rest of the cache. -/
theorem handlerProcess_oblivious (depth : ℕ) :
    Oblivious rpc core (handlerProcess rpc core jsonrpc depth) := by
  induction depth with
  | zero =>
    intro S S' key key' i i' r r' st st' _ _ _ _ _ _
    exact .none
  | succ depth ih =>
    intro S S' key key' i i' r r' st st' hr hc hc' hp hp' hst
    rw [handlerProcess_of_identified depth hc.identified,
      handlerProcess_of_identified depth hc'.identified]
    exact call_agrees (dispatch_agrees ih) hr hc hc' hp hp' hst

end Agree

end KurentoMediaServer.Methods
