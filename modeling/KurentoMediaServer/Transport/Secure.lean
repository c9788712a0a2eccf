import KurentoMediaServer.Transport.Connections

/-! `secureConnections`, the flag by which `send` picks one of the two servers. The
branch of `storeConnection` that takes a connection away from its old session
leaves the flag of that session behind, and the flag of a new session is written
only after `keepAliveSession` has returned. The flags agree with `connections` in
every state of a run exactly as long as no store does either. -/

namespace KurentoMediaServer.Transport

open Foundations

variable {σ Hdl : Type} [DecidableEq Hdl]

/-- `WebSocketTransport::send`: the flag of the server used, with the handle and the
message given to it. None stands for the `out_of_range` of `getConnection`; reading
the flag with `[]` creates a missing one. -/
def send (sessionId message : String) (t : Tables Hdl) :
    Option (Bool × Hdl × String) × Tables Hdl :=
  match t.connections.lookup sessionId with
  | none => (none, t)
  | some hdl =>
    let secure := (t.secureConnections.lookup sessionId).getD false
    (some (secure, hdl, message),
      { t with secureConnections := t.secureConnections.insert sessionId secure })

/-- The calls that touch the tables. Which connections are alive and how
`keepAliveSession` ends comes with each store. -/
inductive Op (Hdl : Type)
  | store (outcome : Except Exc Unit) (alive : Hdl → Bool) (connection : Hdl) (sessionId : String)
  | close (hdl : Hdl)
  | send (sessionId message : String)

/-- The message being answered came over the connection. -/
def Op.Live : Op Hdl → Prop
  | .store _ alive connection _ => alive connection = true
  | _ => True

/-- A call, where `owner` says which connections the secure server has accepted. -/
def Op.run (owner : Hdl → Bool) : Op Hdl → Tables Hdl → Tables Hdl
  | .store outcome alive connection sessionId, t =>
    (storeConnection (fun _ st => (outcome, st)) alive connection (owner connection) sessionId
      t ()).2.1
  | .close hdl, t => closeHandler hdl t
  | .send sessionId message, t => (Transport.send sessionId message t).2

def tablesAfter (owner : Hdl → Bool) (ops : List (Op Hdl)) : Tables Hdl :=
  ops.foldl (fun t op => op.run owner t) .empty

theorem tablesAfter_snoc (owner : Hdl → Bool) (ops : List (Op Hdl)) (op : Op Hdl) :
    tablesAfter owner (ops ++ [op]) = op.run owner (tablesAfter owner ops) := by
  simp [tablesAfter]

/-- A session has a flag iff it has a connection, the flag names the server of that
connection, and `send` uses it. -/
structure FlagsAgree (owner : Hdl → Bool) (t : Tables Hdl) : Prop where
  entry_iff : ∀ s, (t.secureConnections.lookup s).isSome ↔ (t.connections.lookup s).isSome
  flag : ∀ s c b, t.connections.lookup s = some c → t.secureConnections.lookup s = some b →
    (b = true ↔ owner c = true)
  send : ∀ s c m, t.connections.lookup s = some c → (send s m t).1 = some (owner c, c, m)

omit [DecidableEq Hdl] in
theorem flagsAgree_iff (owner : Hdl → Bool) (t : Tables Hdl) :
    FlagsAgree owner t ↔
      ∀ s, t.secureConnections.lookup s = (t.connections.lookup s).map owner := by
  constructor
  · intro h s
    have hentry := h.entry_iff s
    have hflag := h.flag s
    cases hc : t.connections.lookup s with
    | none => simpa [hc] using hentry
    | some c =>
      obtain ⟨b, hb⟩ := Option.isSome_iff_exists.mp (hentry.mpr (by simp [hc]))
      rw [hb, Option.map_some, Bool.eq_iff_iff.mpr (hflag c b hc hb)]
  · intro h
    refine ⟨fun s => ?_, fun s c b hc hb => ?_, fun s c m hc => ?_⟩
    · rw [h, Option.isSome_map]
    · rw [h, hc, Option.map_some, Option.some.injEq] at hb
      rw [hb]
    · simp [Transport.send, hc, h]

/-- What a store must meet: it names no session, or its connection is with that
session already, or with no session, and then `keepAliveSession` returns or reports
an invalid session. -/
def Op.KeepsFlags (t : Tables Hdl) : Op Hdl → Prop
  | .store outcome _ connection sessionId =>
    sessionId = "" ∨ t.connectionsReverse.lookup connection = some sessionId ∨
      (t.connectionsReverse.lookup connection = none ∧ Tolerated outcome)
  | _ => True

/-! ### The flags after each call -/

/-- Evicting another connection of the session takes the flag with it. -/
theorem evictConnection_flags {owner : Hdl → Bool} {alive : Hdl → Bool} {c : Hdl}
    {t : Tables Hdl} (s : String) (h : FlagsAgree owner t) (hc : alive c = true) (x : String) :
    (evictConnection alive c s t).1.secureConnections.lookup x =
      if x = s ∧ t.connections.lookup s ≠ some c then none
      else t.secureConnections.lookup x := by
  have hs := (flagsAgree_iff owner t).mp h s
  unfold evictConnection
  cases hcs : t.connections.lookup s with
  | none => grind
  | some d =>
    simp only [ne_eq, lock_eq_lock_iff hc, Option.some.injEq]
    split_ifs <;> grind [StdMap.lookup_erase]

theorem evictSession_flags (c : Hdl) (s : String) (t : Tables Hdl) :
    (evictSession c s t).1.secureConnections = t.secureConnections := by
  unfold evictSession
  cases t.connectionsReverse.lookup c with
  | none => rfl
  | some o => dsimp only; split_ifs <;> rfl

/-- A store for a session writes its flag, unless `keepAliveSession` throws; no other
flag changes. -/
theorem storeConnection_flags (keepAlive : String → σ → Except Exc Unit × σ) {owner : Hdl → Bool}
    {alive : Hdl → Bool} {c : Hdl} (secure : Bool) {s : String} {t : Tables Hdl} (st : σ)
    (ht : t.Matched) (h : FlagsAgree owner t) (hc : alive c = true) (hs : s ≠ "") (x : String) :
    (storeConnection keepAlive alive c secure s t st).2.1.secureConnections.lookup x =
      if x = s then
        (storeConnection keepAlive alive c secure s t st).1.toOption.map fun _ => secure
      else t.secureConnections.lookup x := by
  have hw := needsWrite_iff s ht hc
  have hflags := evictConnection_flags s h hc x
  have hsame := evictSession_flags c s (evictConnection alive c s t).1
  by_cases hsc : t.connections.lookup s = some c
  · have hw' := hw.not.mpr (by simpa using hsc)
    simp only [storeConnection, hs, ↓reduceIte, hw', Bool.false_eq_true, StdMap.lookup_insert,
      hsame, hflags, Except.toOption, Option.map_some]
    simp [hsc]
  · simp only [storeConnection, hs, ↓reduceIte, hw.mpr hsc]
    rcases keepAlive s st with ⟨e | _, st'⟩
    · by_cases he : toleratesKeepAlive e = true
      · simp only [he, ↓reduceIte, StdMap.lookup_insert, Tables.associate, hsame, hflags,
          Except.toOption, Option.map_some]
        grind
      · simp only [he, Bool.false_eq_true, ↓reduceIte, Tables.associate, hsame, hflags,
          Except.toOption, Option.map_none]
        grind
    · simp only [StdMap.lookup_insert, Tables.associate, hsame, hflags, Except.toOption,
        Option.map_some]
      grind

theorem storeConnection_agrees_iff (keepAlive : String → σ → Except Exc Unit × σ)
    {owner : Hdl → Bool} {alive : Hdl → Bool} {c : Hdl} {s : String} {t : Tables Hdl} (st : σ)
    (ht : t.Matched) (h : FlagsAgree owner t) (hc : alive c = true) (hs : s ≠ "") :
    FlagsAgree owner (storeConnection keepAlive alive c (owner c) s t st).2.1 ↔
      t.connectionsReverse.lookup c = some s ∨
        (t.connectionsReverse.lookup c = none ∧ Tolerated (keepAlive s st).1) := by
  have hflags := storeConnection_flags keepAlive (owner c) st ht h hc hs
  have hpairs := (storeConnection_spec keepAlive (owner c) st ht hc hs).2
  have hok := storeConnection_ok_iff keepAlive (owner c) st (s := s) ht hc
  rw [flagsAgree_iff] at h ⊢
  generalize storeConnection keepAlive alive c (owner c) s t st = r at hflags hpairs hok ⊢
  have hrev := ht s c
  constructor
  · intro hagree
    have hnew := hagree s
    rw [hflags, if_pos rfl, (hpairs s c).mpr (Or.inl ⟨rfl, rfl⟩)] at hnew
    have hreturned : r.1 = .ok () := by
      cases hr : r.1 with
      | error e => simp [hr, Except.toOption] at hnew
      | ok u => rfl
    have hold := hok.mp hreturned
    cases hother : t.connectionsReverse.lookup c with
    | none =>
      right
      grind
    | some o =>
      -- the flag of the old session has stayed, its connection has not
      left
      by_contra hne
      have hos : o ≠ s := by grind
      have hoc := (ht o c).mpr hother
      have hstale := hagree o
      rw [hflags, if_neg hos, h, hoc] at hstale
      have hgone : r.2.1.connections.lookup o = none := by
        rw [Option.eq_none_iff_forall_ne_some]
        intro y hy
        have := (hpairs o y).mp hy
        grind
      simp [hgone] at hstale
  · intro hkeeps x
    have hreturned : r.1 = .ok () := hok.mpr (by grind)
    rw [hflags, hreturned]
    by_cases hx : x = s
    · subst hx
      rw [if_pos rfl, (hpairs x c).mpr (Or.inl ⟨rfl, rfl⟩)]
      rfl
    · rw [if_neg hx, h]
      have hkept : r.2.1.connections.lookup x = t.connections.lookup x := by
        refine Option.ext fun y => ?_
        have hxy := hpairs x y
        have hxc := ht x c
        grind
      rw [hkept]

theorem closeHandler_agrees {owner : Hdl → Bool} {t : Tables Hdl} (c : Hdl)
    (h : FlagsAgree owner t) : FlagsAgree owner (closeHandler c t) := by
  rw [flagsAgree_iff] at h ⊢
  intro x
  unfold closeHandler
  cases hrc : t.connectionsReverse.lookup c with
  | none => exact h x
  | some o =>
    simp only [StdMap.lookup_erase]
    split_ifs
    · rfl
    · exact h x

omit [DecidableEq Hdl] in
/-- `send` finds the flag it reads. -/
theorem send_tables {owner : Hdl → Bool} {t : Tables Hdl} (s m : String)
    (h : FlagsAgree owner t) : (send s m t).2 = t := by
  unfold send
  cases hc : t.connections.lookup s with
  | none => rfl
  | some c =>
    have hflag := (flagsAgree_iff owner t).mp h s
    rw [hc, Option.map_some] at hflag
    simp only [hflag, Option.getD_some, StdMap.insert_of_present hflag]

theorem Op.run_matched (owner : Hdl → Bool) {op : Op Hdl} {t : Tables Hdl} (ht : t.Matched)
    (hlive : op.Live) : (op.run owner t).Matched := by
  cases op with
  | store outcome alive c s =>
    by_cases hs : s = ""
    · subst hs; exact ht
    · exact (storeConnection_spec _ (owner c) () ht hlive hs).1
  | close c => exact (closeHandler_spec c ht).1
  | send s m =>
    simp only [Op.run, Transport.send]
    cases t.connections.lookup s <;> exact ht

theorem Op.run_agrees_iff {owner : Hdl → Bool} {op : Op Hdl} {t : Tables Hdl} (ht : t.Matched)
    (h : FlagsAgree owner t) (hlive : op.Live) :
    FlagsAgree owner (op.run owner t) ↔ op.KeepsFlags t := by
  cases op with
  | store outcome alive c s =>
    by_cases hs : s = ""
    · subst hs
      exact iff_of_true h (Or.inl rfl)
    · simp only [Op.run, Op.KeepsFlags, hs, false_or]
      exact storeConnection_agrees_iff _ () ht h hlive hs
  | close c => exact iff_of_true (closeHandler_agrees c h) trivial
  | send s m =>
    refine iff_of_true ?_ trivial
    rw [Op.run, send_tables s m h]
    exact h

/-! ### Every run -/

theorem tablesAfter_matched (owner : Hdl → Bool) {ops : List (Op Hdl)}
    (hlive : ∀ op ∈ ops, op.Live) : (tablesAfter owner ops).Matched := by
  induction ops using List.reverseRecOn with
  | nil => exact matched_empty
  | append_singleton ops op ih =>
    rw [tablesAfter_snoc]
    exact Op.run_matched owner (ih fun o ho => hlive o (by simp [ho])) (hlive op (by simp))

/-- The flags agree in every state of a run iff every store of the run, in the state
it is made in, names no session, or finds its connection with that session already,
or finds it with no session and `keepAliveSession` returns or reports an invalid
session. -/
theorem flags_agree_iff (owner : Hdl → Bool) (ops : List (Op Hdl))
    (hlive : ∀ op ∈ ops, op.Live) :
    (∀ pre, pre <+: ops → FlagsAgree owner (tablesAfter owner pre)) ↔
      ∀ pre op, pre ++ [op] <+: ops → op.KeepsFlags (tablesAfter owner pre) := by
  induction ops using List.reverseRecOn with
  | nil =>
    refine iff_of_true (fun pre hpre => ?_) fun pre op hpre => by simp at hpre
    obtain rfl := List.prefix_nil.mp hpre
    exact (flagsAgree_iff ..).mpr fun s => rfl
  | append_singleton ops op ih =>
    have hlive' : ∀ o ∈ ops, o.Live := fun o ho => hlive o (by simp [ho])
    have hstep : FlagsAgree owner (tablesAfter owner ops) →
        (FlagsAgree owner (op.run owner (tablesAfter owner ops)) ↔
          op.KeepsFlags (tablesAfter owner ops)) := fun h =>
      Op.run_agrees_iff (tablesAfter_matched owner hlive') h (hlive op (by simp))
    constructor
    · intro h pre o hpre
      rcases List.prefix_concat_iff.mp hpre with heq | hpre
      · obtain ⟨rfl, hlast⟩ := List.append_inj' heq rfl
        obtain rfl : o = op := by simpa using hlast
        refine (hstep (h pre (List.prefix_append ..))).mp ?_
        rw [← tablesAfter_snoc]
        exact h _ hpre
      · exact (ih hlive').mp (fun p hp => h p (hp.trans (List.prefix_append ..))) pre o hpre
    · intro h
      have hbefore := (ih hlive').mpr fun p o hp => h p o (hp.trans (List.prefix_append ..))
      intro pre hpre
      rcases List.prefix_concat_iff.mp hpre with rfl | hpre
      · rw [tablesAfter_snoc]
        exact (hstep (hbefore ops (List.prefix_refl _))).mpr (h ops op (List.prefix_refl _))
      · exact hbefore pre hpre

/-- A plain connection loses its session to a secure one and closes. -/
theorem flags_agree_iff_takeover :
    FlagsAgree (fun c : ℕ => decide (c = 1)) (tablesAfter (fun c : ℕ => decide (c = 1))
      [.store (.ok ()) (fun _ => true) 0 "a", .store (.ok ()) (fun _ => true) 1 "a", .close 0]) := by
  refine (flags_agree_iff _ _ (by simp [Op.Live])).mpr (fun pre op hpre => ?_) _
    (List.prefix_refl _)
  match pre with
  | [] =>
    obtain rfl : op = _ := by simpa [List.cons_prefix_cons] using hpre
    exact Or.inr (Or.inr ⟨rfl, trivial⟩)
  | [p] =>
    obtain ⟨rfl, rfl⟩ : p = _ ∧ op = _ := by simpa [List.cons_prefix_cons] using hpre
    exact Or.inr (Or.inr ⟨rfl, trivial⟩)
  | [p, q] =>
    obtain ⟨rfl, rfl, rfl⟩ : p = _ ∧ q = _ ∧ op = _ := by
      simpa [List.cons_prefix_cons] using hpre
    trivial
  | p :: q :: r :: rest => simp [List.cons_prefix_cons] at hpre

/-- Connection 0 is used by session a and then by session b: the flag of a stays. A
secure connection whose session cannot be kept alive has no flag, and what is sent
to it goes to the plain server. -/
theorem not_flags_agree :
    let moved : List (Op ℕ) := [.store (.ok ()) (fun _ => true) 0 "a",
      .store (.ok ()) (fun _ => true) 0 "b"]
    let thrown : List (Op ℕ) := [.store (.error (.kurento ⟨.mediaObjectNotFound, "gone",
      "MEDIA_OBJECT_NOT_FOUND"⟩)) (fun _ => true) 0 "a"]
    (∀ op ∈ moved ++ thrown, op.Live) ∧
    (tablesAfter (fun _ => true) moved).secureConnections.lookup "a" = some true ∧
    (tablesAfter (fun _ => true) moved).connections.lookup "a" = none ∧
    (send "a" "event" (tablesAfter (fun _ => true) thrown)).1 = some (false, 0, "event") ∧
    ¬ FlagsAgree (fun _ => true) (tablesAfter (fun _ => true) moved) ∧
    ¬ FlagsAgree (fun _ => true) (tablesAfter (fun _ => true) thrown) := by
  intro moved thrown
  have hflag : (tablesAfter (fun _ => true) moved).secureConnections.lookup "a" = some true := rfl
  have hgone : (tablesAfter (fun _ => true) moved).connections.lookup "a" = none := rfl
  have hsent : (send "a" "event" (tablesAfter (fun _ => true) thrown)).1 =
      some (false, 0, "event") := rfl
  have hconn : (tablesAfter (fun _ => true) thrown).connections.lookup "a" = some 0 := rfl
  refine ⟨by simp [moved, thrown, Op.Live], hflag, hgone, hsent, fun h => ?_, fun h => ?_⟩
  · have hentry := h.entry_iff "a"
    simp [hflag, hgone] at hentry
  · have hserver := h.send "a" 0 "event" hconn
    simp [hsent] at hserver

end KurentoMediaServer.Transport
