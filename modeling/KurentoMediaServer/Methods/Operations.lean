import KurentoMediaServer.Methods.Transaction

/-! The loop of `transaction` seen from outside. Operations are handed over one at a
time, each as the request made of it and of the responses so far, up to the first
that returns false or cannot be made into a request. The loop does the same with its
array of responses, as long as the responses are objects or null. -/

namespace KurentoMediaServer.Methods

open Foundations Cache

variable {σ τ : Type}

/-! ### Handing operations over -/

/-- The operations handed over after those that gave the responses `rs`: how that
ends, all responses and the state. It ends with true when every operation has
returned true, with false at the first that has not. -/
def execute (request : ℕ → Json → List Json → Except Exc Json)
    (handler : Json → τ → Option ((Bool × Json) × τ)) :
    List Json → List Json → τ → Option (Except Exc Bool × List Json × τ)
  | [], rs, st => some (.ok true, rs, st)
  | operation :: rest, rs, st =>
    match request rs.length operation rs with
    | .error e => some (.error e, rs, st)
    | .ok req =>
      match handler req st with
      | none => none
      | some ((true, response), st) => execute request handler rest (rs ++ [response]) st
      | some ((false, response), st) => some (.ok false, rs ++ [response], st)

section Execute
variable {request : ℕ → Json → List Json → Except Exc Json}
  {handler : Json → τ → Option ((Bool × Json) × τ)} {ops rs vs : List Json} {st t : τ}
  {x : Except Exc Bool}

/-- What holds of the responses and the state before an operation, and what follows
when the operations end. `P` is known of each operation and its position. -/
theorem execute_rule {P : ℕ → Json → Prop} {I : List Json → τ → Prop}
    {Q : Except Exc Bool → List Json → τ → Prop} (hdone : ∀ rs st, I rs st → Q (.ok true) rs st)
    (herror : ∀ op rs st e, P rs.length op → I rs st → request rs.length op rs = .error e →
      Q (.error e) rs st)
    (htrue : ∀ op rs st req v t, P rs.length op → I rs st → request rs.length op rs = .ok req →
      handler req st = some ((true, v), t) → I (rs ++ [v]) t)
    (hfalse : ∀ op rs st req v t, P rs.length op → I rs st → request rs.length op rs = .ok req →
      handler req st = some ((false, v), t) → Q (.ok false) (rs ++ [v]) t)
    (hops : ∀ j op, ops[j]? = some op → P (rs.length + j) op) (hinv : I rs st)
    (h : execute request handler ops rs st = some (x, vs, t)) : Q x vs t := by
  induction ops generalizing rs st with
  | nil => cases h; exact hdone _ _ hinv
  | cons op rest ih =>
    have hP : P rs.length op := hops 0 op rfl
    simp only [execute] at h
    split at h
    · next e he => cases h; exact herror _ _ _ _ hP hinv he
    · next req hreq =>
      split at h
      · cases h
      · next v u hu =>
        refine ih (fun j op hj => ?_) (htrue _ _ _ _ _ _ hP hinv hreq hu) h
        have hstep := hops (j + 1) op hj
        rwa [List.length_append, List.length_singleton, Nat.add_assoc, Nat.add_comm 1 j]
      · next v u hu => cases h; exact hfalse _ _ _ _ _ _ hP hinv hreq hu

/-- The operations after a prefix are reached when it has ended with true. -/
theorem execute_append (pre post rs : List Json) (st : τ) :
    execute request handler (pre ++ post) rs st =
      match execute request handler pre rs st with
      | some (.ok true, rs, st) => execute request handler post rs st
      | r => r := by
  induction pre generalizing rs st with
  | nil => rfl
  | cons op rest ih =>
    simp only [List.cons_append, execute]
    cases request rs.length op rs with
    | error e => rfl
    | ok req =>
      dsimp only
      rcases handler req st with _ | ⟨⟨ret, v⟩, u⟩
      · rfl
      · cases ret
        · rfl
        · exact ih _ _

/-- Each operation gives at most one response, and one if all return true. -/
theorem execute_length (h : execute request handler ops rs st = some (x, vs, t)) :
    vs.length ≤ rs.length + ops.length ∧ (x = .ok true → vs.length = rs.length + ops.length) := by
  induction ops generalizing rs st with
  | nil => cases h; simp
  | cons op rest ih =>
    simp only [execute] at h
    split at h
    · cases h; simp
    · split at h
      · cases h
      · have hlen := ih h
        simp only [List.length_append, List.length_cons] at hlen ⊢
        grind
      · cases h
        simp only [List.length_append, List.length_cons]
        grind

/-- Operations end with an exception exactly when one of them, reached with all
before it returning true, cannot be made into a request. -/
theorem execute_eq_error {e : Exc} :
    execute request handler ops rs st = some (.error e, vs, t) ↔
      ∃ pre op post, ops = pre ++ op :: post ∧
        execute request handler pre rs st = some (.ok true, vs, t) ∧
        request vs.length op vs = .error e := by
  constructor
  · intro h
    induction ops generalizing rs st with
    | nil => cases h
    | cons op rest ih =>
      simp only [execute] at h
      split at h
      · next hreq => cases h; exact ⟨[], op, rest, rfl, rfl, hreq⟩
      · next req hreq =>
        split at h
        · cases h
        · next v u hu =>
          obtain ⟨pre, op', post, rfl, hpre, he⟩ := ih h
          exact ⟨op :: pre, op', post, rfl, by simp [execute, hreq, hu, hpre], he⟩
        · cases h
  · rintro ⟨pre, op, post, rfl, hpre, he⟩
    rw [execute_append, hpre]
    simp [execute, he]

/-- What holds at the end and not at the start has come about in one of the operations. -/
theorem execute_change {P : τ → Prop} (h : execute request handler ops rs st = some (x, vs, t))
    (hst : ¬ P st) (ht : P t) :
    ∃ pre op post vs' u req r u', ops = pre ++ op :: post ∧
      execute request handler pre rs st = some (.ok true, vs', u) ∧
      request vs'.length op vs' = .ok req ∧ handler req u = some (r, u') ∧ ¬ P u ∧ P u' := by
  induction ops generalizing rs st with
  | nil => cases h; exact absurd ht hst
  | cons op rest ih =>
    simp only [execute] at h
    split at h
    · cases h; exact absurd ht hst
    · next req hreq =>
      split at h
      · cases h
      · next v u hu =>
        by_cases hPu : P u
        · exact ⟨[], op, rest, rs, st, req, (true, v), u, rfl, rfl, hreq, hu, hst, hPu⟩
        · obtain ⟨pre, op', post, vs', w, req', r, w', rfl, hpre, hrest⟩ := ih h hPu
          exact ⟨op :: pre, op', post, vs', w, req', r, w', rfl,
            by simp [execute, hreq, hu, hpre], hrest⟩
      · next v u hu =>
        cases h
        exact ⟨[], op, rest, rs, st, req, (false, v), t, rfl, rfl, hreq, hu, hst, ht⟩

end Execute

/-! ### The array of responses -/

/-- A response as it is recorded, under the id of its operation. -/
def withId (i : ℕ) (v : Json) : Json := .obj (Assoc.put "id" (.int i) (v.members.toOption.getD []))

/-- The value of `responses`: null before the first operation. -/
def recorded (rs : List Json) : Json := if rs = [] then .null else .arr (rs.mapIdx withId)

@[simp] theorem recorded_nil : recorded [] = .null := rfl

theorem recorded_snoc (rs : List Json) (v : Json) :
    recorded (rs ++ [v]) = .arr (rs.mapIdx withId ++ [withId rs.length v]) := by
  simp [recorded, List.mapIdx_append]

theorem recordResponse_eq {v : Json} (rs : List Json) (h : v.isRecord = true) :
    recordResponse rs.length (recorded rs) v = .ok (recorded (rs ++ [v])) := by
  simp only [recordResponse, Json.set_of_record _ _ h, bind, Except.bind, recorded_snoc]
  by_cases hrs : rs = []
  · subst hrs; rfl
  · have hlen : (rs.mapIdx withId).length = rs.length := List.length_mapIdx
    rw [recorded, if_neg hrs, ← hlen]
    exact Json.setElem_length ..

theorem transactionResult_recorded (sessionId : String) (rs : List Json) :
    transactionResult sessionId (recorded rs) =
      .object [("value", .arr (rs.mapIdx withId)), ("sessionId", .str sessionId)] := by
  unfold transactionResult recorded
  split_ifs <;> simp_all [Json.isNull]

/-! ### The loop -/

variable (rpc : JsonRpc) (core : Core σ)

/-- The request the loop makes of an operation. -/
def prepared (uniqueId sessionId : String) (i : ℕ) (operation : Json) (rs : List Json) :
    Except Exc Json :=
  (prepare rpc uniqueId sessionId i operation (recorded rs)).map Prod.fst

section Loop
variable {rpc core}

/-- A prepared operation is an object under its internal id. -/
theorem prepare_id {uniqueId sessionId : String} {i : ℕ} {operation responses operation' : Json}
    {responses' : Json}
    (h : prepare rpc uniqueId sessionId i operation responses = .ok (operation', responses')) :
    operation'.isObject = true ∧ operation'.member? "id" = some (.str (internalId uniqueId i)) ∧
      responses' = responses := by
  obtain ⟨ms, pms, params, -, -, -, -, rfl, rfl⟩ := prepare_eq_ok.mp h
  exact ⟨rfl, Assoc.find_put_self .., rfl⟩

theorem prepared_eq_ok {uniqueId sessionId : String} {i : ℕ} {operation req : Json}
    {rs : List Json} : prepared rpc uniqueId sessionId i operation rs = .ok req ↔
      prepare rpc uniqueId sessionId i operation (recorded rs) = .ok (req, recorded rs) := by
  unfold prepared
  rcases h : prepare rpc uniqueId sessionId i operation (recorded rs) with e | ⟨req', responses⟩
  · simp [Except.map]
  · simp [Except.map, (prepare_id h).2.2]

variable (rpc) in
/-- The loop hands the operations over and records the responses, if the handler
answers prepared operations with objects or null wherever the invariant holds. -/
theorem transactionLoop_eq {handler : Json → τ → Option ((Bool × Json) × τ)} {uniqueId : String}
    (sessionId : String) {I : ℕ → τ → Prop}
    (hh : ∀ i req st ret v t, req.isObject = true →
      req.member? "id" = some (.str (internalId uniqueId i)) → I i st →
      handler req st = some ((ret, v), t) → v.isRecord = true ∧ I (i + 1) t)
    (ops rs : List Json) (st : τ) (hinv : I rs.length st) :
    transactionLoop rpc handler uniqueId sessionId rs.length ops (recorded rs) st =
      (execute (prepared rpc uniqueId sessionId) handler ops rs st).map
        fun r => (r.1.map fun _ => recorded r.2.1, r.2.2) := by
  induction ops generalizing rs st with
  | nil => rfl
  | cons op rest ih =>
    simp only [transactionLoop, execute]
    rcases hp : prepare rpc uniqueId sessionId rs.length op (recorded rs) with e | ⟨req, responses⟩
    · simp [prepared, hp, Except.map]
    · obtain ⟨hobj, hid, rfl⟩ := prepare_id hp
      simp only [prepared_eq_ok.mpr hp]
      rcases hu : handler req st with _ | ⟨⟨ret, v⟩, u⟩
      · rfl
      · obtain ⟨hv, hinv'⟩ := hh _ _ _ _ _ _ hobj hid hinv hu
        simp only [recordResponse_eq rs hv]
        cases ret
        · rfl
        · have hlen : rs.length + 1 = (rs ++ [v]).length := by simp
          rw [hlen] at hinv' ⊢
          exact ih _ _ hinv'

/-- A transaction hands its operations over and returns what is recorded, from the
state in which its UUIDs have been drawn. -/
theorem transactionOver_eq {enter : Server σ → τ} {handler : Json → τ → Option ((Bool × Json) × τ)}
    {params : Json} {st : Server σ} {sessionId : String} {operations : List Json} {media : σ}
    {drawn : ℕ} {I : ℕ → τ → Prop}
    (hp : transactionParams rpc core params st.media (st.drawn + 1) =
      (.ok (sessionId, operations), media, drawn))
    (hh : ∀ i req st' ret v t, req.isObject = true →
      req.member? "id" = some (.str (internalId (core.uuid st.drawn) i)) → I i st' →
      handler req st' = some ((ret, v), t) → v.isRecord = true ∧ I (i + 1) t)
    (hinv : I 0 (enter { st with media, drawn })) :
    transactionOver rpc core enter handler params st =
      (execute (prepared rpc (core.uuid st.drawn) sessionId) handler operations []
        (enter { st with media, drawn })).map fun r =>
          (r.1.map fun _ => .object [("value", .arr (r.2.1.mapIdx withId)),
            ("sessionId", .str sessionId)], r.2.2) := by
  have hloop := transactionLoop_eq rpc sessionId hh operations [] _ hinv
  rw [recorded_nil, List.length_nil] at hloop
  simp only [transactionOver, hp, hloop]
  rcases execute (prepared rpc (core.uuid st.drawn) sessionId) handler operations []
    (enter { st with media, drawn }) with _ | ⟨e | b, vs, t⟩
  · rfl
  · rfl
  · simp [Except.map, transactionResult_recorded]

end Loop

end KurentoMediaServer.Methods
