import KurentoMediaServer.Foundations.Throws
import KurentoMediaServer.Methods.Handler

/-! Which exceptions of kms-core get out of a method as they are. `unsubscribe` and
`closeSession` have no handler for a `KurentoException` and let it through to kms-jsonrpc.
No other method does, wherever in its calls one is raised, and no transaction. -/

namespace KurentoMediaServer.Methods

open Foundations Cache

variable {σ : Type} {rpc : JsonRpc} {core : Core σ}

/-- Not a `KurentoException`. -/
def Translated : Exc → Prop
  | .kurento _ => False
  | _ => True

/-! ### Values -/

theorem translated_members (v : Json) : Throws Translated v.members := by
  cases v <;> first | exact throws_ok _ | exact throws_error trivial

theorem translated_get (v : Json) (key : String) : Throws Translated (v.get key) :=
  (translated_members v).map _

theorem translated_set (v : Json) (key : String) (x : Json) : Throws Translated (v.set key x) :=
  (translated_members v).map _

theorem translated_setElem (v : Json) (index : ℕ) (x : Json) :
    Throws Translated (v.setElem index x) := by
  cases v <;> first | exact throws_ok _ | exact throws_error trivial

theorem translated_getValue (params : Json) (name : String) :
    Throws Translated (rpc.getValue params name) := by
  refine (translated_members params).bind fun ms => ?_
  cases Assoc.find name ms
  · exact throws_error trivial
  · exact throws_ok _

theorem translated_getStringValue (params : Json) (name : String) :
    Throws Translated (rpc.getStringValue params name) := by
  refine (translated_getValue params name).bind fun v => ?_
  split_ifs
  · exact throws_ok _
  · exact throws_error trivial

theorem translated_getBoolValue (params : Json) (name : String) :
    Throws Translated (rpc.getBoolValue params name) := by
  refine (translated_getValue params name).bind fun v => ?_
  cases v <;> first | exact throws_ok _ | exact throws_error trivial

theorem translated_getArray (params : Json) (name : String) :
    Throws Translated (rpc.getArray params name) := by
  refine (translated_getValue params name).bind fun v => ?_
  split_ifs
  · exact throws_ok _
  · exact throws_error trivial

theorem translated_orDefault {α : Type} {x : Except Exc α} (h : Throws Translated x) (dflt : α) :
    Throws Translated (orDefault x dflt) := by
  unfold orDefault
  split
  · exact throws_ok _
  · exact h

theorem translated_requireParams (params : Json) : Throws Translated (requireParams params) := by
  unfold requireParams
  split_ifs
  · exact throws_error trivial
  · exact throws_ok _

theorem translated_deref (obj : Option MediaObject) : Throws Translated (deref obj) := by
  cases obj
  · exact throws_error trivial
  · exact throws_ok _

/-! ### Methods -/

theorem translated_catchKurento {α : Type} (m : Body σ α) :
    Supply.Throws Translated (catchKurento m) :=
  Supply.throws_tryCatch (Supply.throws_true m) fun e _ => by
    cases e <;> exact Supply.throws_throw trivial

theorem translated_getOrCreateSessionId (params : Json) :
    Supply.Throws Translated (getOrCreateSessionId rpc core params) := by
  unfold getOrCreateSessionId
  split
  · exact Supply.throws_pure _
  · exact Supply.throws_bind (Supply.throws_bind Supply.throws_draw fun _ => Supply.throws_pure _)
      fun _ => Supply.throws_pure _
  · next e _ h => exact Supply.throws_throw (translated_getStringValue _ _ e h)

theorem translated_requireParams_bind {α : Type} {params : Json} {f : Unit → Body σ α}
    (hf : ∀ u, Supply.Throws Translated (f u)) :
    Supply.Throws Translated ((monadLift (requireParams params) : Body σ Unit) >>= f) :=
  Supply.throws_bind (Supply.throws_lift (translated_requireParams _)) hf

theorem translated_text_bind {α : Type} {params : Json} {name : String} {f : String → Body σ α}
    (hf : ∀ s, Supply.Throws Translated (f s)) :
    Supply.Throws Translated ((monadLift (rpc.getStringValue params name) : Body σ String) >>= f) :=
  Supply.throws_bind (Supply.throws_lift (translated_getStringValue _ _)) hf

theorem translated_session_bind {α : Type} {params : Json} {f : String × Bool → Body σ α}
    (hf : ∀ s, Supply.Throws Translated (f s)) :
    Supply.Throws Translated (getOrCreateSessionId rpc core params >>= f) :=
  Supply.throws_bind (translated_getOrCreateSessionId _) hf

/-- A method that ends with calls under its handler, and a result. -/
theorem translated_catch_bind {α β : Type} {m : Body σ α} {f : α → Body σ β}
    (hf : ∀ a, Supply.Throws Translated (f a)) :
    Supply.Throws Translated (catchKurento m >>= f) :=
  Supply.throws_bind (translated_catchKurento m) hf

theorem translated_refOrUnref (act : String → String → σ → Except Exc Unit × σ) (params : Json) :
    Supply.Throws Translated (refOrUnref rpc act params) :=
  translated_requireParams_bind fun _ => translated_text_bind fun _ => translated_text_bind fun _ =>
    translated_catch_bind fun _ => Supply.throws_pure _

theorem translated_connect (params : Json) : Supply.Throws Translated (connect rpc core params) := by
  refine Supply.throws_bind ?_ fun _ => Supply.throws_pure _
  unfold connectSession
  split_ifs
  · exact Supply.throws_bind Supply.throws_draw fun _ => Supply.throws_pure _
  · refine translated_session_bind fun s => ?_
    dsimp only
    split_ifs
    · exact translated_catch_bind fun _ => Supply.throws_pure _
    · exact Supply.throws_bind (Supply.throws_pure _) fun _ => Supply.throws_pure _

theorem translated_describe (params : Json) : Supply.Throws Translated (describe rpc core params) :=
  translated_requireParams_bind fun _ => translated_session_bind fun _ => translated_text_bind fun _ =>
    translated_catch_bind fun _ => Supply.throws_bind (Supply.throws_lift (translated_deref _))
      fun _ => Supply.throws_pure _

theorem translated_ping (params : Json) : Throws Translated (ping rpc params) := by
  unfold ping
  split
  · exact throws_ok _
  · exact throws_ok _
  · next e _ h => exact throws_error (translated_getStringValue _ _ e h)

/-- Every method but the two that have no handler. -/
theorem translated_method {name : String} {m : Json → Body σ Json}
    (hm : method rpc core name = some m) (hu : name ≠ "unsubscribe") (hc : name ≠ "closeSession")
    (params : Json) : Supply.Throws Translated (m params) := by
  unfold method at hm
  split at hm
  · cases hm
    exact translated_connect params
  · cases hm
    exact translated_requireParams_bind fun _ => translated_text_bind fun _ =>
      translated_session_bind fun _ => translated_catch_bind fun _ => Supply.throws_pure _
  · cases hm
    exact translated_requireParams_bind fun _ => translated_text_bind fun _ =>
      translated_text_bind fun _ => Supply.throws_bind
        (Supply.throws_lift (translated_orDefault (translated_getValue _ _) _)) fun _ =>
      translated_session_bind fun _ => translated_catch_bind fun _ => Supply.throws_pure _
  · cases hm
    exact translated_requireParams_bind fun _ => translated_text_bind fun _ =>
      translated_text_bind fun _ => translated_session_bind fun _ =>
      translated_catch_bind fun _ => Supply.throws_pure _
  · exact absurd rfl hu
  · cases hm
    exact translated_requireParams_bind fun _ => translated_text_bind fun _ =>
      translated_session_bind fun _ => translated_catch_bind fun _ => Supply.throws_pure _
  · cases hm
    exact translated_refOrUnref _ params
  · cases hm
    exact translated_refOrUnref _ params
  · cases hm
    exact translated_requireParams_bind fun _ => translated_text_bind fun _ =>
      translated_catch_bind fun _ => Supply.throws_pure _
  · cases hm
    exact translated_describe params
  · cases hm
    exact Supply.throws_lift (translated_ping params)
  · exact absurd rfl hc
  · cases hm

/-! ### Transactions -/

theorem translated_stoi (s : List Char) : Throws Translated (stoi s) := by
  unfold stoi
  dsimp only
  split_ifs <;> first | exact throws_ok _ | exact throws_error trivial

theorem translated_insertResult (responses : Json) (index : ℤ) :
    Throws Translated (insertResult rpc responses index) := by
  have helem : Throws Translated (responses.elem index) := by
    unfold Json.elem
    split
    · split_ifs <;> first | exact throws_ok _ | exact throws_error trivial
    · split_ifs
      · exact throws_error trivial
      · split <;> exact throws_ok _
    · exact throws_error trivial
  refine helem.bind fun r => ?_
  dsimp only
  split
  · exact (translated_get _ _).bind fun _ => throws_ok _
  · exact throws_error trivial
  · next e _ h => exact throws_error (translated_getValue _ _ e h)

theorem translated_injectLeaf (v responses : Json) :
    Throws Translated (injectLeaf rpc v responses) := by
  unfold injectLeaf
  split
  · exact throws_ok _
  · split
    · exact throws_error trivial
    · exact (translated_stoi _).bind fun _ => translated_insertResult _ _

mutual

theorem translated_injectRefs (params responses : Json) :
    Throws Translated (injectRefs rpc params responses) := by
  unfold injectRefs
  split
  · exact (translated_injectItems _ _).bind fun _ => throws_ok _
  · exact (translated_injectMembers _ _).bind fun _ => throws_ok _
  · exact translated_injectLeaf _ _

theorem translated_injectItems (items : List Json) (responses : Json) :
    Throws Translated (injectItems rpc items responses) := by
  unfold injectItems
  split
  · exact throws_ok _
  · exact (translated_injectRefs _ _).bind fun _ =>
      (translated_injectItems _ _).bind fun _ => throws_ok _

theorem translated_injectMembers (ms : List (String × Json)) (responses : Json) :
    Throws Translated (injectMembers rpc ms responses) := by
  unfold injectMembers
  split
  · exact throws_ok _
  · exact (translated_injectRefs _ _).bind fun _ =>
      (translated_injectMembers _ _).bind fun _ => throws_ok _

end

theorem translated_prepare (uniqueId sessionId : String) (i : ℕ) (operation responses : Json) :
    Throws Translated (prepare rpc uniqueId sessionId i operation responses) := by
  have hid (id : Json) : Throws Translated (requireId rpc i id) := by
    unfold requireId
    split_ifs
    · exact throws_ok _
    · exact throws_error trivial
  exact (translated_get _ _).bind fun _ => (translated_set _ _ _).bind fun _ =>
    (translated_set _ _ _).bind fun _ => (translated_get _ _).bind fun _ => (hid _).bind fun _ =>
    (translated_set _ _ _).bind fun _ => (translated_injectRefs _ _).bind fun _ =>
    (translated_set _ _ _).bind fun _ => throws_ok _

section Transaction
variable {handler : Json → Server σ → Option ((Bool × Json) × Server σ)} {params : Json}
  {st t : Server σ} {e : Exc}

theorem translated_transactionLoop {uniqueId sessionId : String} {i : ℕ} {operations : List Json}
    {responses : Json} (h : transactionLoop rpc handler uniqueId sessionId i operations responses st =
      some (.error e, t)) : Translated e := by
  induction operations generalizing i responses st with
  | nil => cases h
  | cons operation rest ih =>
    simp only [transactionLoop] at h
    split at h
    · next hp =>
      cases h
      exact translated_prepare _ _ _ _ _ e hp
    · split at h
      · cases h
      · split at h
        · next hr =>
          cases h
          exact (translated_set _ _ _).bind (fun _ => translated_setElem _ _ _) e hr
        · split_ifs at h
          · exact ih h
          · cases h

theorem translated_transaction (h : transaction rpc core handler params st = some (.error e, t)) :
    Translated e := by
  have hparams : Supply.Throws Translated (transactionParams rpc core params : Body σ _) :=
    translated_requireParams_bind fun _ => translated_session_bind fun _ =>
      Supply.throws_bind (Supply.throws_lift (translated_getArray _ _)) fun v => by
        cases v <;> exact Supply.throws_pure _
  unfold transaction transactionOver at h
  dsimp only at h
  split at h
  · next hp =>
    cases h
    exact hparams _ _ e (congrArg (·.1) hp)
  · split at h
    · cases h
    · next hl =>
      cases h
      exact translated_transactionLoop hl
    · cases h

end Transaction

/-! ### The two methods without a handler -/

/-- The call of `unsubscribe` or of `closeSession` in which the media set throws. -/
inductive Untranslated (rpc : JsonRpc) (core : Core σ) (name : String) (params : Json) (st : σ)
    (e : KurentoException) (st' : σ) : Prop
  | unsubscribe {s o i : String} : name = "unsubscribe" → rpc.text? params "object" = some o →
      rpc.text? params "subscription" = some i → rpc.text? params "sessionId" = some s →
      core.removeEventHandler s o i st = (.error (.kurento e), st') →
      Untranslated rpc core name params st e st'
  | releaseSession {s : String} : name = "closeSession" →
      params.member? "release" = some (.bool true) → rpc.text? params "sessionId" = some s →
      core.releaseSession s st = (.error (.kurento e), st') →
      Untranslated rpc core name params st e st'
  | unrefSession {s : String} : name = "closeSession" →
      params.member? "release" ≠ some (.bool true) → rpc.text? params "sessionId" = some s →
      core.unrefSession s st = (.error (.kurento e), st') →
      Untranslated rpc core name params st e st'

theorem Untranslated.name_cases {name : String} {params : Json} {st st' : σ} {e : KurentoException}
    (h : Untranslated rpc core name params st e st') :
    name = "unsubscribe" ∨ name = "closeSession" := by
  cases h with
  | unsubscribe hname => exact Or.inl hname
  | releaseSession hname => exact Or.inr hname
  | unrefSession hname => exact Or.inr hname

section Untranslated
variable {params : Json} {st st' : σ} {n k : ℕ} {e : KurentoException}

theorem requireParams_of_text? {name s : String} (h : rpc.text? params name = some s) :
    requireParams params = .ok () := by
  cases params <;> simp_all [JsonRpc.text?, requireParams, Json.isNull, pure, Except.pure]

theorem record_of_text? {name s : String} (h : rpc.text? params name = some s) :
    params.isRecord = true := by
  cases params <;> simp_all [JsonRpc.text?, Json.isRecord, Json.member?]

/-- A step that does not throw a `KurentoException` has returned. -/
theorem lift_bind_kurento {α β : Type} {x : Except Exc α} (hx : Throws Translated x)
    {f : α → Body σ β} : ((monadLift x : Body σ α) >>= f) st n = (.error (.kurento e), st', k) ↔
      ∃ a, x = .ok a ∧ f a st n = (.error (.kurento e), st', k) := by
  constructor
  · intro h
    rcases Supply.lift_bind_cases h with ⟨e', rfl, h⟩ | h
    · cases h
      exact (hx _ rfl).elim
    · exact h
  · rintro ⟨a, rfl, h⟩
    exact h

theorem onState_bind_kurento {α : Type} {g : σ → Except Exc α × σ} {r : Json} :
    ((Supply.onState g : Body σ α) >>= fun _ => pure r) st n = (.error (.kurento e), st', k) ↔
      g st = (.error (.kurento e), st') ∧ k = n := by
  simp only [bind, Supply.onState]
  rcases g st with ⟨e' | a, st₁⟩
  · simp [and_assoc, eq_comm]
  · simp [pure]

theorem unsubscribe_kurento : unsubscribe rpc core params st n = (.error (.kurento e), st', k) ↔
    Untranslated rpc core "unsubscribe" params st e st' ∧ k = n := by
  simp only [unsubscribe, lift_bind_kurento (translated_requireParams _),
    lift_bind_kurento (translated_getStringValue _ _), onState_bind_kurento,
    rpc.getStringValue_eq_ok]
  constructor
  · rintro ⟨_, -, o, ho, i, hi, s, hs, h, rfl⟩
    exact ⟨.unsubscribe rfl ho hi hs h, rfl⟩
  · rintro ⟨h, rfl⟩
    cases h with
    | unsubscribe _ ho hi hs h =>
      exact ⟨(), requireParams_of_text? ho, _, ho, _, hi, _, hs, h, rfl⟩
    | releaseSession hname => exact absurd hname (by decide)
    | unrefSession hname => exact absurd hname (by decide)

/-- `release` is read as given, and as false when it is missing or not a Boolean. -/
theorem orDefault_release {b : Bool} (hp : params.isRecord = true) :
    orDefault (rpc.getBoolValue params "release") false = .ok b ↔
      (b = true ↔ params.member? "release" = some (.bool true)) := by
  simp only [JsonRpc.getBoolValue, rpc.getValue_of_record "release" hp]
  cases hv : params.member? "release" with
  | none => cases b <;> simp [orDefault, bind, Except.bind, pure, Except.pure]
  | some v => cases v <;> cases b <;>
      simp [orDefault, bind, Except.bind, pure, Except.pure, throw, throwThe, MonadExceptOf.throw]

theorem closeSession_kurento : closeSession rpc core params st n = (.error (.kurento e), st', k) ↔
    Untranslated rpc core "closeSession" params st e st' ∧ k = n := by
  simp only [closeSession, lift_bind_kurento (translated_requireParams _),
    lift_bind_kurento (translated_orDefault (translated_getBoolValue _ _) _),
    lift_bind_kurento (translated_getStringValue _ _), rpc.getStringValue_eq_ok]
  constructor
  · rintro ⟨_, -, b, hb, s, hs, h⟩
    rw [orDefault_release (record_of_text? hs)] at hb
    cases b with
    | true =>
      rw [if_pos rfl, onState_bind_kurento] at h
      exact ⟨.releaseSession rfl (hb.mp rfl) hs h.1, h.2⟩
    | false =>
      rw [if_neg Bool.false_ne_true, onState_bind_kurento] at h
      exact ⟨.unrefSession rfl (fun hr => absurd (hb.mpr hr) (by decide)) hs h.1, h.2⟩
  · rintro ⟨h, rfl⟩
    cases h with
    | unsubscribe hname => exact absurd hname (by decide)
    | releaseSession _ hr hs h =>
      exact ⟨(), requireParams_of_text? hs, true,
        (orDefault_release (record_of_text? hs)).mpr (by simp [hr]), _, hs,
        onState_bind_kurento.mpr ⟨h, rfl⟩⟩
    | unrefSession _ hr hs h =>
      exact ⟨(), requireParams_of_text? hs, false,
        (orDefault_release (record_of_text? hs)).mpr (by simp [hr]), _, hs,
        onState_bind_kurento.mpr ⟨h, rfl⟩⟩

theorem method_kurento {name : String} {m : Json → Body σ Json} (hm : method rpc core name = some m) :
    m params st n = (.error (.kurento e), st', k) ↔
      Untranslated rpc core name params st e st' ∧ k = n := by
  by_cases hu : name = "unsubscribe"
  · subst hu
    cases hm
    exact unsubscribe_kurento
  · by_cases hc : name = "closeSession"
    · subst hc
      cases hm
      exact closeSession_kurento
    · constructor
      · intro h
        exact absurd (translated_method hm hu hc params st n (.kurento e) (congrArg (·.1) h)) not_false
      · exact fun h => (h.1.name_cases.elim hu hc).elim

end Untranslated

/-- A method ends in a `KurentoException` exactly when the media set throws it to
`unsubscribe` or to `closeSession`. From no other method does one get out, nor from a
transaction of any depth. -/
theorem kurento_untranslated_iff (jsonrpc : RpcHandler) (depth : ℕ) (name : String) (params : Json)
    (st t : Server σ) (e : KurentoException) :
    dispatch rpc core (handlerProcess rpc core jsonrpc depth) name params st =
        some (.error (.kurento e), t) ↔
      ∃ media, Untranslated rpc core name params st.media e media ∧ t = { st with media } := by
  unfold dispatch
  split_ifs with ht
  · subst ht
    constructor
    · exact fun h => (translated_transaction h).elim
    · rintro ⟨media, h, -⟩
      rcases h.name_cases with h | h <;> exact absurd h (by decide)
  · cases hm : method rpc core name with
    | none =>
      constructor
      · exact fun h => by cases h
      · rintro ⟨media, h, -⟩
        rcases h.name_cases with rfl | rfl <;> cases hm
    | some m =>
      dsimp only
      constructor
      · intro h
        rcases hr : m params st.media st.drawn with ⟨x, media, k⟩
        rw [hr] at h
        obtain ⟨rfl, rfl⟩ := Prod.mk.inj (Option.some.inj h)
        obtain ⟨hthrown, rfl⟩ := (method_kurento hm).mp hr
        exact ⟨media, hthrown, rfl⟩
      · rintro ⟨media, h, rfl⟩
        rw [(method_kurento hm).mpr ⟨h, rfl⟩]

end KurentoMediaServer.Methods
