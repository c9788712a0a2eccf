import KurentoMediaServer.Foundations.Matching
import KurentoMediaServer.Foundations.StdMap
import KurentoMediaServer.Json.Value

/-! The connection tables of `WebSocketTransport` and the two handlers that
write them, each running under the transport mutex. Whatever the history, and
however `keepAliveSession` ends, `connections` and `connectionsReverse` are the
two directions of one matching, `storeConnection` links the session and the
connection in it and `closeHandler` unlinks the connection. -/

namespace KurentoMediaServer.Transport

open Foundations

variable {σ Hdl : Type} [DecidableEq Hdl]

/-- The connection tables. `Hdl` is `websocketpp::connection_hdl`, compared by
ownership, so an expired handle keeps its own key. -/
structure Tables (Hdl : Type) where
  connections : StdMap String Hdl
  secureConnections : StdMap String Bool
  connectionsReverse : StdMap Hdl String

def Tables.empty : Tables Hdl := ⟨∅, ∅, ∅⟩

/-- `hdl.lock ()`: null once the connection is gone. -/
def lock (alive : Hdl → Bool) (hdl : Hdl) : Option Hdl :=
  if alive hdl then some hdl else none

/-- The first `try` block of `storeConnection`: forget another connection the
session is associated with. The flag is `needsWrite`. -/
def evictConnection (alive : Hdl → Bool) (connection : Hdl) (sessionId : String)
    (t : Tables Hdl) : Tables Hdl × Bool :=
  match t.connections.lookup sessionId with
  | none => (t, true)
  | some conn =>
    if lock alive conn ≠ lock alive connection then
      (⟨t.connections.erase sessionId, t.secureConnections.erase sessionId,
        t.connectionsReverse.erase conn⟩, true)
    else (t, false)

/-- The second `try` block: forget another session the connection is associated
with. -/
def evictSession (connection : Hdl) (sessionId : String) (t : Tables Hdl) : Tables Hdl × Bool :=
  match t.connectionsReverse.lookup connection with
  | none => (t, true)
  | some oldSession =>
    if oldSession ≠ sessionId then
      ({ t with connections := t.connections.erase oldSession
                connectionsReverse := t.connectionsReverse.erase connection }, true)
    else (t, false)

/-- The two assignments that associate a session and a connection. -/
def Tables.associate (connection : Hdl) (sessionId : String) (t : Tables Hdl) : Tables Hdl :=
  { t with connections := t.connections.insert sessionId connection
           connectionsReverse := t.connectionsReverse.insert connection sessionId }

/-- The exceptions `storeConnection` swallows after `keepAliveSession`. -/
def toleratesKeepAlive : Exc → Bool
  | .kurento e => e.code = .invalidSession
  | _ => false

/-- `WebSocketTransport::storeConnection`. -/
def storeConnection (keepAliveSession : String → σ → Except Exc Unit × σ) (alive : Hdl → Bool)
    (connection : Hdl) (secure : Bool) (sessionId : String) (t : Tables Hdl) (st : σ) :
    Except Exc Unit × Tables Hdl × σ :=
  if sessionId = "" then (.ok (), t, st)
  else
    let first := evictConnection alive connection sessionId t
    let second := evictSession connection sessionId first.1
    let markSecure (t : Tables Hdl) : Tables Hdl :=
      { t with secureConnections := t.secureConnections.insert sessionId secure }
    if first.2 || second.2 then
      let t := second.1.associate connection sessionId
      match keepAliveSession sessionId st with
      | (.ok (), st) => (.ok (), markSecure t, st)
      | (.error e, st) =>
        if toleratesKeepAlive e then (.ok (), markSecure t, st) else (.error e, t, st)
    else (.ok (), markSecure second.1, st)

/-- `WebSocketTransport::closeHandler`. -/
def closeHandler (hdl : Hdl) (t : Tables Hdl) : Tables Hdl :=
  match t.connectionsReverse.lookup hdl with
  | none => t
  | some sessionId =>
    ⟨t.connections.erase sessionId, t.secureConnections.erase sessionId,
      t.connectionsReverse.erase hdl⟩

/-! ### The tables as a matching -/

/-- The two directions agree. -/
def Tables.Matched (t : Tables Hdl) : Prop :=
  ∀ s c, t.connections.lookup s = some c ↔ t.connectionsReverse.lookup c = some s

/-- The maps hold the two directions of a matching. -/
def Tables.Implements (t : Tables Hdl) (m : String ≃. Hdl) : Prop :=
  (∀ s, t.connections.lookup s = m s) ∧ ∀ c, t.connectionsReverse.lookup c = m.symm c

theorem Tables.Implements.matched {t : Tables Hdl} {m : String ≃. Hdl} (h : t.Implements m) :
    t.Matched := by
  intro s c
  rw [h.1, h.2]
  exact (m.inv s c).symm

theorem Tables.implements_of_matched {t : Tables Hdl} {m : String ≃. Hdl} (ht : t.Matched)
    (h : ∀ s c, t.connections.lookup s = some c ↔ m s = some c) : t.Implements m :=
  ⟨fun s => Option.ext fun c => h s c, fun c => Option.ext fun s => by
    rw [← ht s c, h s c]
    exact (m.inv s c).symm⟩

theorem matched_empty : (Tables.empty : Tables Hdl).Matched := by
  intro s c
  simp [Tables.empty]

omit [DecidableEq Hdl] in
theorem lock_eq_lock_iff {alive : Hdl → Bool} {c : Hdl} (hc : alive c = true) (d : Hdl) :
    lock alive d = lock alive c ↔ d = c := by
  unfold lock
  by_cases hd : alive d = true
  · simp [hc, hd]
  · simp only [hd, Bool.false_eq_true, ↓reduceIte, hc, reduceCtorEq, false_iff]
    rintro rfl
    exact hd hc

/-- The first block drops the pair of the session, unless it is with the calling
connection already. -/
theorem evictConnection_spec {alive : Hdl → Bool} {c : Hdl} {t : Tables Hdl} (s : String)
    (ht : t.Matched) (hc : alive c = true) :
    (evictConnection alive c s t).1.Matched ∧
    (∀ x y, (evictConnection alive c s t).1.connections.lookup x = some y ↔
      t.connections.lookup x = some y ∧ (x = s → y = c)) ∧
    ((evictConnection alive c s t).2 = true ↔ t.connections.lookup s ≠ some c) := by
  unfold evictConnection
  cases hcs : t.connections.lookup s with
  | none => exact ⟨ht, by grind, by simp⟩
  | some d =>
    have hd : ∀ y, t.connectionsReverse.lookup y = some s ↔ y = d := fun y => by
      rw [← ht s y, hcs]; simp [eq_comm]
    simp only [ne_eq, lock_eq_lock_iff hc]
    by_cases hdc : d = c
    · subst hdc
      simp only [not_true_eq_false, ↓reduceIte]
      exact ⟨ht, by grind, by simp⟩
    · simp only [hdc, not_false_eq_true, ↓reduceIte]
      refine ⟨fun x y => ?_, fun x y => ?_, by simp [hdc]⟩
      · have hxy := ht x y
        simp only [StdMap.lookup_erase]
        grind
      · simp only [StdMap.lookup_erase]
        grind

/-- The second block drops the pair of the connection, unless it is with the
given session already. -/
theorem evictSession_spec {t : Tables Hdl} (c : Hdl) (s : String) (ht : t.Matched) :
    (evictSession c s t).1.Matched ∧
    (∀ x y, (evictSession c s t).1.connections.lookup x = some y ↔
      t.connections.lookup x = some y ∧ (y = c → x = s)) ∧
    ((evictSession c s t).2 = true ↔ t.connections.lookup s ≠ some c) := by
  unfold evictSession
  have hrev : ∀ x, t.connections.lookup x = some c ↔ t.connectionsReverse.lookup c = some x :=
    fun x => ht x c
  cases hrc : t.connectionsReverse.lookup c with
  | none => exact ⟨ht, by grind, by simp [hrev, hrc]⟩
  | some o =>
    by_cases hos : o = s
    · subst hos
      simp only [ne_eq, not_true_eq_false, ↓reduceIte]
      exact ⟨ht, by grind, by simp [hrev, hrc]⟩
    · simp only [ne_eq, hos, not_false_eq_true, ↓reduceIte]
      have ho : ∀ y, t.connections.lookup o = some y ↔ y = c := fun y => by
        rw [ht o y]
        constructor
        · intro hy; have := (ht o y).mpr hy; have := (hrev o).mpr hrc; grind
        · rintro rfl; exact hrc
      refine ⟨fun x y => ?_, fun x y => ?_, by simp [hrev, hrc, hos]⟩
      · have hxy := ht x y
        simp only [StdMap.lookup_erase]
        grind
      · simp only [StdMap.lookup_erase]
        grind

/-- A write is needed unless the pair is in place already. -/
theorem needsWrite_iff {alive : Hdl → Bool} {c : Hdl} {t : Tables Hdl} (s : String)
    (ht : t.Matched) (hc : alive c = true) :
    ((evictConnection alive c s t).2 ||
      (evictSession c s (evictConnection alive c s t).1).2) = true ↔
      t.connections.lookup s ≠ some c := by
  obtain ⟨h1, h1c, h1w⟩ := evictConnection_spec s ht hc
  obtain ⟨-, -, h2w⟩ := evictSession_spec c s h1
  simp only [Bool.or_eq_true, h1w, h2w, ne_eq, h1c]
  tauto

/-- The tables once both `try` blocks have run and the pair has been written. -/
def Tables.store (alive : Hdl → Bool) (c : Hdl) (s : String) (t : Tables Hdl) : Tables Hdl :=
  let first := evictConnection alive c s t
  let second := evictSession c s first.1
  if first.2 || second.2 then second.1.associate c s else second.1

theorem storeConnection_tables (keepAlive : String → σ → Except Exc Unit × σ) (alive : Hdl → Bool)
    (c : Hdl) (secure : Bool) {s : String} (hs : s ≠ "") (t : Tables Hdl) (st : σ) :
    (storeConnection keepAlive alive c secure s t st).2.1.connections = (t.store alive c s).connections ∧
    (storeConnection keepAlive alive c secure s t st).2.1.connectionsReverse =
      (t.store alive c s).connectionsReverse := by
  simp only [storeConnection, hs, ↓reduceIte, Tables.store]
  split_ifs with hw
  · split
    · exact ⟨rfl, rfl⟩
    · split_ifs <;> exact ⟨rfl, rfl⟩
  · exact ⟨rfl, rfl⟩

/-- A store for a live connection leaves the new pair and the pairs that mention
neither side, and the two directions still agree. -/
theorem store_spec {alive : Hdl → Bool} {c : Hdl} {t : Tables Hdl} (s : String)
    (ht : t.Matched) (hc : alive c = true) :
    (t.store alive c s).Matched ∧
    ∀ x y, (t.store alive c s).connections.lookup x = some y ↔
      (x = s ∧ y = c) ∨ (x ≠ s ∧ y ≠ c ∧ t.connections.lookup x = some y) := by
  obtain ⟨h1, h1c, -⟩ := evictConnection_spec s ht hc
  obtain ⟨h2, h2c, -⟩ := evictSession_spec c s h1
  simp only [Tables.store]
  have hflag := needsWrite_iff s ht hc
  generalize (evictSession c s (evictConnection alive c s t).1).1 = t2 at h2 h2c ⊢
  have hc2 : ∀ x y, t2.connections.lookup x = some y ↔
      t.connections.lookup x = some y ∧ (x = s ↔ y = c) := by
    intro x y; rw [h2c, h1c]; tauto
  by_cases hs : t.connections.lookup s = some c
  · rw [if_neg (by rw [hflag]; simpa using hs)]
    refine ⟨h2, fun x y => ?_⟩
    have hx : t.connections.lookup x = some c → x = s := fun h => by
      have h3 := (ht x c).mp h
      have h4 := (ht s c).mp hs
      grind
    have := hc2 x y
    grind
  · rw [if_pos (hflag.mpr hs)]
    -- neither side is in the tables when the pair is written
    have hfree : ∀ x y, x = s ∨ y = c → t2.connections.lookup x ≠ some y := by
      intro x y hxy h
      obtain ⟨h3, h4⟩ := (hc2 x y).mp h
      rcases hxy with rfl | rfl
      · exact hs (h4.mp rfl ▸ h3)
      · exact hs (h4.mpr rfl ▸ h3)
    refine ⟨fun x y => ?_, fun x y => ?_⟩
    · have hxy := h2 x y
      simp only [Tables.associate, StdMap.lookup_insert]
      have := hfree x y
      grind
    · simp only [Tables.associate, StdMap.lookup_insert]
      have := hfree x y
      have := hc2 x y
      grind

theorem closeHandler_spec {t : Tables Hdl} (c : Hdl) (ht : t.Matched) :
    (closeHandler c t).Matched ∧
    ∀ x y, (closeHandler c t).connections.lookup x = some y ↔
      y ≠ c ∧ t.connections.lookup x = some y := by
  unfold closeHandler
  cases hrc : t.connectionsReverse.lookup c with
  | none =>
    refine ⟨ht, fun x y => ⟨fun h => ⟨?_, h⟩, And.right⟩⟩
    rintro rfl
    simp [(ht x y).mp h] at hrc
  | some o =>
    have ho := (ht o c).mpr hrc
    refine ⟨fun x y => ?_, fun x y => ?_⟩
    · have h1 := ht x y
      have h2 := ht o y
      simp only [StdMap.lookup_erase]
      grind
    · have h1 := ht x c
      simp only [StdMap.lookup_erase]
      grind

/-- Closing a connection that is associated with no session changes no table. -/
theorem closeHandler_of_free {t : Tables Hdl} {c : Hdl}
    (h : t.connectionsReverse.lookup c = none) : closeHandler c t = t := by
  simp [closeHandler, h]

theorem storeConnection_spec (keepAlive : String → σ → Except Exc Unit × σ) {alive : Hdl → Bool}
    {c : Hdl} (secure : Bool) {s : String} {t : Tables Hdl} (st : σ) (ht : t.Matched)
    (hc : alive c = true) (hs : s ≠ "") :
    (storeConnection keepAlive alive c secure s t st).2.1.Matched ∧
    ∀ x y, (storeConnection keepAlive alive c secure s t st).2.1.connections.lookup x = some y ↔
      (x = s ∧ y = c) ∨ (x ≠ s ∧ y ≠ c ∧ t.connections.lookup x = some y) := by
  obtain ⟨h1, h2⟩ := storeConnection_tables keepAlive alive c secure hs t st
  obtain ⟨hm, hl⟩ := store_spec s ht hc
  rw [h1]
  refine ⟨fun x y => ?_, hl⟩
  rw [h1, h2]
  exact hm x y

/-- How `keepAliveSession` may end without making `storeConnection` throw. -/
def Tolerated : Except Exc Unit → Prop
  | .ok () => True
  | .error e => toleratesKeepAlive e = true

/-- `storeConnection` returns normally unless it has to write the pair and then
`keepAliveSession` throws anything but INVALID_SESSION. -/
theorem storeConnection_ok_iff (keepAlive : String → σ → Except Exc Unit × σ) {alive : Hdl → Bool}
    {c : Hdl} (secure : Bool) {s : String} {t : Tables Hdl} (st : σ) (ht : t.Matched)
    (hc : alive c = true) :
    (storeConnection keepAlive alive c secure s t st).1 = .ok () ↔
      s = "" ∨ t.connections.lookup s = some c ∨ Tolerated (keepAlive s st).1 := by
  by_cases hs : s = ""
  · simp [storeConnection, hs]
  · have hw := needsWrite_iff s ht hc
    by_cases hsc : t.connections.lookup s = some c
    · have hw' := hw.not.mpr (by simpa using hsc)
      simp [storeConnection, hs, hw', hsc]
    · simp only [storeConnection, hs, ↓reduceIte, hw.mpr hsc, hsc, false_or]
      rcases keepAlive s st with ⟨e | _, st'⟩
      · by_cases he : toleratesKeepAlive e = true <;> simp [Tolerated, he]
      · simp [Tolerated]

/-- A call without a session leaves everything as it was. -/
theorem storeConnection_noSession (keepAlive : String → σ → Except Exc Unit × σ)
    (alive : Hdl → Bool) (c : Hdl) (secure : Bool) (t : Tables Hdl) (st : σ) :
    storeConnection keepAlive alive c secure "" t st = (.ok (), t, st) := rfl

/-- The server changes by a call of `keepAliveSession` at most. -/
theorem storeConnection_server (keepAlive : String → σ → Except Exc Unit × σ) (alive : Hdl → Bool)
    (c : Hdl) (secure : Bool) (s : String) (t : Tables Hdl) (st : σ) :
    (storeConnection keepAlive alive c secure s t st).2.2 = st ∨
      (storeConnection keepAlive alive c secure s t st).2.2 = (keepAlive s st).2 := by
  simp only [storeConnection]
  split_ifs
  · exact Or.inl rfl
  · right
    rcases keepAlive s st with ⟨e | _, st'⟩
    · dsimp only
      split_ifs <;> rfl
    · rfl
  · exact Or.inl rfl

/-! ### Refinement of the abstract matching -/

theorem implements_empty : (Tables.empty : Tables Hdl).Implements ⊥ :=
  ⟨fun _ => rfl, fun _ => rfl⟩

/-- `storeConnection` links its session and its connection. -/
theorem storeConnection_implements (keepAlive : String → σ → Except Exc Unit × σ)
    {alive : Hdl → Bool} {c : Hdl} (secure : Bool) {s : String} {t : Tables Hdl}
    {m : String ≃. Hdl} (st : σ) (ht : t.Implements m) (hc : alive c = true) (hs : s ≠ "") :
    (storeConnection keepAlive alive c secure s t st).2.1.Implements (Matching.link m s c) := by
  obtain ⟨h1, h2⟩ := storeConnection_spec keepAlive secure st ht.matched hc hs
  refine Tables.implements_of_matched h1 fun x y => ?_
  rw [h2, Matching.link_apply_iff, ht.1]

/-- `closeHandler` unlinks its connection. -/
theorem closeHandler_implements {t : Tables Hdl} {m : String ≃. Hdl} (c : Hdl)
    (ht : t.Implements m) : (closeHandler c t).Implements (Matching.unlink m c) := by
  obtain ⟨h1, h2⟩ := closeHandler_spec c ht.matched
  refine Tables.implements_of_matched h1 fun x y => ?_
  rw [h2, Matching.unlink_apply_iff, ht.1]

/-! ### Every history -/

/-- The tables after any sequence of calls. Each `storeConnection` is made for a
connection that is alive, since it delivers the message being answered; which
others are alive, and how `keepAliveSession` ends, is arbitrary each time. -/
inductive Reachable : Tables Hdl → Prop
  | empty : Reachable .empty
  | store {t : Tables Hdl} (outcome : Except Exc Unit) (alive : Hdl → Bool) (c : Hdl)
      (secure : Bool) (s : String) : Reachable t → alive c = true →
      Reachable (storeConnection (fun _ st => (outcome, st)) alive c secure s t ()).2.1
  | close {t : Tables Hdl} (c : Hdl) : Reachable t → Reachable (closeHandler c t)

theorem Reachable.matched {t : Tables Hdl} (h : Reachable t) : t.Matched := by
  induction h with
  | empty => exact matched_empty
  | store outcome alive c secure s _ hc ih =>
    by_cases hs : s = ""
    · subst hs; exact ih
    · exact (storeConnection_spec _ secure () ih hc hs).1
  | close c _ ih => exact (closeHandler_spec c ih).1

/-- In every reachable state the two maps are the directions of one matching.
A store for a live connection removes exactly the pairs that mention its session
or its connection and adds theirs, whether or not it exits by exception; a close
removes exactly the pair of its connection, so that it changes nothing once the
session has been taken over. -/
theorem connections_matching {t : Tables Hdl} (h : Reachable t) :
    (∀ s c, t.connections.lookup s = some c ↔ t.connectionsReverse.lookup c = some s) ∧
    (∀ (outcome : Except Exc Unit) (alive : Hdl → Bool) (c : Hdl) (secure : Bool) (s : String),
      s ≠ "" → alive c = true → ∀ x y,
      (storeConnection (fun _ st => (outcome, st)) alive c secure s t ()).2.1.connections.lookup x
          = some y ↔
        (x = s ∧ y = c) ∨ (x ≠ s ∧ y ≠ c ∧ t.connections.lookup x = some y)) ∧
    (∀ c x y, (closeHandler c t).connections.lookup x = some y ↔
      y ≠ c ∧ t.connections.lookup x = some y) ∧
    (∀ (outcome : Except Exc Unit) (alive : Hdl → Bool) (c c' : Hdl) (secure : Bool) (s : String),
      t.connections.lookup s = some c → s ≠ "" → alive c' = true → c' ≠ c →
      closeHandler c (storeConnection (fun _ st => (outcome, st)) alive c' secure s t ()).2.1 =
        (storeConnection (fun _ st => (outcome, st)) alive c' secure s t ()).2.1) := by
  have ht := h.matched
  refine ⟨ht, fun outcome alive c secure s hs hc => (storeConnection_spec _ secure () ht hc hs).2,
    fun c => (closeHandler_spec c ht).2, fun outcome alive c c' secure s hsc hs hc' hne => ?_⟩
  apply closeHandler_of_free
  obtain ⟨hm, hl⟩ := storeConnection_spec (fun _ st => (outcome, st)) secure () ht hc' hs
  -- a session still paired with `c` would be `s`, which is now paired with `c'`
  rw [Option.eq_none_iff_forall_ne_some]
  intro x hx
  rcases (hl x c).mp ((hm x c).mpr hx) with ⟨-, rfl⟩ | ⟨hxs, -, hxc⟩
  · exact hne rfl
  · have h1 := (ht x c).mp hxc
    have h2 := (ht s c).mp hsc
    exact hxs (by simpa [h1] using h2)

theorem connections_matching_takeover :
    closeHandler 0 (storeConnection (fun _ st => (.ok (), st)) (fun _ => true) 1 true "session"
        (storeConnection (fun _ st => (.ok (), st)) (fun _ => true) 0 false "session"
          Tables.empty ()).2.1 ()).2.1 =
      (storeConnection (fun _ st => (.ok (), st)) (fun _ => true) 1 true "session"
        (storeConnection (fun _ st => (.ok (), st)) (fun _ => true) 0 false "session"
          Tables.empty ()).2.1 ()).2.1 :=
  (connections_matching (.store (.ok ()) (fun _ => true) 0 false "session" .empty rfl)).2.2.2
    (.ok ()) (fun _ => true) 0 1 true "session" (by decide) (by decide) rfl (by decide)

end KurentoMediaServer.Transport
