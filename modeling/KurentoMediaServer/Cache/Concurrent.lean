import Mathlib.Data.Fintype.Basic
import KurentoMediaServer.Cache.AtMostOnce

/-! Workers with requests of any kind, several of them with one id and session. Nothing
but their own steps touches the key of these: the responses of other requests are kept
under other keys, a session generated meanwhile is a new one and the operations of a
transaction have ids of their own. So it is enough for the look-ups of one key to wait
for each other. -/

namespace KurentoMediaServer.Cache

open Foundations Methods

variable {σ T : Type} [DecidableEq T] (rpc : JsonRpc) (core : Core σ) (jsonrpc : RpcHandler)
  (methods : String → MethodRun σ) (request : T → Json) (s r : String)

/-- A request with the id `r` that names the session `s`. -/
def HasKey (v : Json) : Prop := rpc.text? v "id" = some r ∧ paramsSession rpc v = some s

instance (v : Json) : Decidable (HasKey rpc s r v) := inferInstanceAs (Decidable (_ ∧ _))

def Phase.isRunning : Phase → Bool
  | .running => true
  | _ => false

/-- The next step of a worker, with whether it is the one that runs the method. -/
def advanceMarked (w : Workers σ T) (e : T × Bool) : Option (Workers σ T) :=
  if (w.phase e.1).isRunning = e.2 then advance rpc jsonrpc methods request e.1 w else none

def MarkedStep (w : Workers σ T) (e : T × Bool) (w' : Workers σ T) : Prop :=
  advanceMarked rpc jsonrpc methods request w e = some w'

/-- The steps that run the method for a request with the key. -/
def runsFor (hist : List (T × Bool)) : ℕ :=
  hist.countP fun e => e.2 && decide (HasKey rpc s r (request e.1))

/-- A look-up of `preProcess` for the key made while no request with it is in flight. -/
def AloneFor (w : Workers σ T) (e : T × Bool) : Prop :=
  w.phase e.1 = .idle → HasKey rpc s r (request e.1) →
    ∀ j, HasKey rpc s r (request j) → ¬ (w.phase j).InFlight

/-- What the workers with the key promise when `first` is the response cached for it
before any has begun: it is run at most once, and only when there was none; the response
that was there stays; every answer is the response that stands in the cache; and there
is none without a run or a response to begin with. -/
structure OncePerKey (first : Option Json) (runs : ℕ) (w : Workers σ T) : Prop where
  runs_le : runs + first.isSome.toNat ≤ 1
  kept : ∀ v, first = some v → w.server.cache.getCachedResponse s r = some v
  answers : ∀ i answer, HasKey rpc s r (request i) → w.phase i = .done answer →
    w.server.cache.getCachedResponse s r = some answer.2
  runs_eq : ∀ i answer, HasKey rpc s r (request i) → w.phase i = .done answer →
    runs + first.isSome.toNat = 1

def Phase.Beside (v : Json) : Phase → Prop
  | .answered answer => postKey rpc v answer.2 ≠ .ok (s, r)
  | .storing key _ => key ≠ (s, r)
  | _ => True

/-- The workers of all requests, seen from one key. -/
structure KeySound (first : Option Json) (runs : ℕ) (w : Workers σ T) : Prop where
  external : ∀ n j, w.server.drawn ≤ n → r ≠ internalId (core.uuid n) j
  undrawn : ∀ n, w.server.drawn ≤ n → s ≠ core.uuid n
  fits : ∀ i, HasKey rpc s r (request i) →
    (w.phase i).Fits rpc s r w.server.cache (request i)
  beside : ∀ i, ¬ HasKey rpc s r (request i) → (w.phase i).Beside rpc s r (request i)
  unique : ∀ i j, HasKey rpc s r (request i) → HasKey rpc s r (request j) →
    (w.phase i).InFlight → (w.phase j).InFlight → i = j
  kept : ∀ v, first = some v → w.server.cache.getCachedResponse s r = some v
  runs_le : runs + first.isSome.toNat ≤ 1
  runs_eq : runs + first.isSome.toNat = 1 ↔
    (w.server.cache.getCachedResponse s r).isSome ∨
      ∃ i, HasKey rpc s r (request i) ∧ (w.phase i).Ran

section KeySound
variable {rpc core jsonrpc request s r} {depth runs : ℕ} {first : Option Json}
  {w w' : Workers σ T} {i : T}

theorem Phase.Fits.congr {cache cache' : RequestCache} {v : Json} {p : Phase}
    (hc : cache'.getCachedResponse s r = cache.getCachedResponse s r)
    (h : p.Fits rpc s r cache v) : p.Fits rpc s r cache' v := by
  cases p with
  | idle => trivial
  | running => exact hc.trans h
  | answered => exact ⟨hc.trans h.1, h.2⟩
  | storing => exact ⟨hc.trans h.1, h.2⟩
  | done => exact hc.trans h

/-- A worker without the key moves on and leaves the key alone. -/
theorem KeySound.other (h : KeySound rpc core request s r first runs w)
    (hi : ¬ HasKey rpc s r (request i)) {t : Server σ} {p : Phase} {n : ℕ}
    (hd : w.server.drawn ≤ t.drawn)
    (hc : t.cache.getCachedResponse s r = w.server.cache.getCachedResponse s r)
    (hp : p.Beside rpc s r (request i)) :
    KeySound rpc core request s r first runs
      { w.moveTo i p with server := t, executed := n } := by
  have hphase : ∀ j, HasKey rpc s r (request j) → (w.moveTo i p).phase j = w.phase j := by
    intro j hj
    have hne : j ≠ i := fun hji => hi (hji ▸ hj)
    simp [hne]
  refine ⟨fun n j hn => h.external n j (hd.trans hn), fun n hn => h.undrawn n (hd.trans hn),
    fun j hj => ?_, fun j hj => ?_, fun j k hj hk => ?_, fun v hv => hc.trans (h.kept v hv),
    h.runs_le, ?_⟩
  · rw [hphase j hj]
    exact (h.fits j hj).congr hc
  · simp only [moveTo_phase]
    split_ifs with hji
    · subst hji
      exact hp
    · exact h.beside j hj
  · rw [hphase j hj, hphase k hk]
    exact h.unique j k hj hk
  · rw [hc, h.runs_eq]
    exact or_congr_right (exists_congr fun j => and_congr_right fun hj => by rw [hphase j hj])

omit [DecidableEq T] in
theorem KeySound.others_idle (h : KeySound rpc core request s r first runs w)
    (hi : HasKey rpc s r (request i)) (hin : (w.phase i).InFlight) {j : T}
    (hj : HasKey rpc s r (request j)) (hne : j ≠ i) : w.phase j = .idle := by
  have hfits := h.fits j hj
  have hc := (h.fits i hi).absent hin
  cases hp : w.phase j with
  | idle => rfl
  | done answer =>
    rw [hp, Phase.Fits, hc] at hfits
    cases hfits
  | _ => exact absurd (h.unique j i hj hi (by rw [hp]; trivial) hin) hne

omit [DecidableEq T] in
/-- While a request with the key is in flight it has been run when it is past the method. -/
theorem KeySound.runs_eq_of_inFlight (h : KeySound rpc core request s r first runs w)
    (hi : HasKey rpc s r (request i)) (hin : (w.phase i).InFlight) :
    runs + first.isSome.toNat = 1 ↔ (w.phase i).Ran := by
  rw [h.runs_eq, (h.fits i hi).absent hin]
  refine ⟨fun hr => ?_, fun hr => Or.inr ⟨i, hi, hr⟩⟩
  obtain hr | ⟨j, hj, hr⟩ := hr
  · cases hr
  · obtain rfl := h.unique j i hj hi hr.inFlight hin
    exact hr

theorem KeySound.own (h : KeySound rpc core request s r first runs w)
    (hi : HasKey rpc s r (request i)) (hin : (w.phase i).InFlight) {t : Server σ} {p : Phase}
    {n runs' : ℕ} (hd : w.server.drawn ≤ t.drawn) (hp : p.Fits rpc s r t.cache (request i))
    (hle : runs' + first.isSome.toNat ≤ 1) (heq : runs' + first.isSome.toNat = 1 ↔
      (t.cache.getCachedResponse s r).isSome ∨ p.Ran) :
    KeySound rpc core request s r first runs'
      { w.moveTo i p with server := t, executed := n } := by
  have hother : ∀ j, j ≠ i → HasKey rpc s r (request j) → (w.moveTo i p).phase j = .idle := by
    intro j hne hj
    simp [hne, h.others_idle hi hin hj hne]
  have hself : (w.moveTo i p).phase i = p := by simp
  refine ⟨fun n j hn => h.external n j (hd.trans hn), fun n hn => h.undrawn n (hd.trans hn),
    fun j hj => ?_, fun j hj => ?_, fun j k hj hk hj' hk' => ?_, fun v hv => ?_, hle, ?_⟩
  · by_cases hji : j = i
    · subst hji
      rw [hself]
      exact hp
    · rw [hother j hji hj]
      trivial
  · have hne : j ≠ i := fun hji => hj (hji ▸ hi)
    simpa [hne] using h.beside j hj
  · have hidle : ∀ l, HasKey rpc s r (request l) → ((w.moveTo i p).phase l).InFlight → l = i := by
      intro l hl hl'
      by_contra hne
      rw [hother l hne hl] at hl'
      exact hl'
    exact (hidle j hj hj').trans (hidle k hk hk').symm
  · have habs := (h.fits i hi).absent hin
    rw [h.kept v hv] at habs
    cases habs
  · rw [heq]
    refine or_congr_right ⟨fun hr => ⟨i, hi, by rw [hself]; exact hr⟩, fun ⟨j, hj, hr⟩ => ?_⟩
    by_cases hji : j = i
    · subst hji
      rwa [hself] at hr
    · rw [hother j hji hj] at hr
      exact hr.elim

theorem KeySound.lookup (h : KeySound rpc core request s r first runs w) {p : Phase}
    (hi : w.phase i = .idle) (hp : p.Fits rpc s r w.server.cache (request i)) (hran : ¬ p.Ran)
    (hkey : HasKey rpc s r (request i))
    (ha : p.InFlight → ∀ j, HasKey rpc s r (request j) → ¬ (w.phase j).InFlight) :
    KeySound rpc core request s r first runs (w.moveTo i p) := by
  refine ⟨h.external, h.undrawn, fun j hj => ?_, fun j hj => ?_, fun j k hj hk hj' hk' => ?_,
    h.kept, h.runs_le, ?_⟩
  · simp only [moveTo_phase, moveTo_server]
    split_ifs with hji
    · exact hji ▸ hp
    · exact h.fits j hj
  · have hne : j ≠ i := fun hji => hj (hji ▸ hkey)
    simpa [hne] using h.beside j hj
  · simp only [moveTo_phase] at hj' hk'
    split_ifs at hj' hk' with hji hki hki
    · exact hji.trans hki.symm
    · exact absurd hk' (ha hj' k hk)
    · exact absurd hj' (ha hk' j hj)
    · exact h.unique j k hj hk hj' hk'
  · rw [h.runs_eq, moveTo_server]
    refine or_congr_right (exists_congr fun j => and_congr_right fun hj => ?_)
    by_cases hji : j = i
    · subst hji
      simp only [moveTo_phase, ↓reduceIte, hi]
      exact ⟨fun hr => hr.elim, hran⟩
    · simp [hji]

omit [DecidableEq T] in
theorem KeySound.postKey_ne (h : KeySound rpc core request s r first runs w)
    (hi : ¬ HasKey rpc s r (request i)) {result : Except Exc Json} {k : ℕ}
    (hrep : ∀ v, result = .ok v →
      ReportsSession rpc core (paramsOf (request i)) w.server.drawn k v) :
    postKey rpc (request i) (respond jsonrpc (request i) result).2 ≠ .ok (s, r) := by
  intro hk
  obtain ⟨hrec, hres⟩ := respond_shape jsonrpc (request i) result
  have hid := postKey_id hk
  have hsession := ((postKey_eq_ok hrec fun v hv => (hrep v (hres v hv)).1).mp hk).2
  have hparams : paramsSession rpc (request i) ≠ some s := fun hp => hi ⟨hid, hp⟩
  cases hr : resultSession rpc (respond jsonrpc (request i) result).2 with
  | none => exact hparams (by simpa [hr] using hsession)
  | some s' =>
    obtain rfl : s' = s := by simpa [hr] using hsession
    obtain ⟨v, hv, hs'⟩ := Option.bind_eq_some_iff.mp hr
    rw [paramsSession_eq] at hparams
    -- the session shown is the one of the params, or has been generated by the method
    rcases (hrep v (hres v hv)).2 s' hs' with hp | ⟨-, n, hn, -, hs'⟩
    · exact hparams hp
    · exact h.undrawn n hn hs'

omit [DecidableEq T] in
/-- No method, not even a transaction, touches the key. -/
theorem KeySound.method_keeps (h : KeySound rpc core request s r first runs w) {v : Json}
    {name : String} {result : Except Exc Json} {t : Server σ}
    (hm : dispatch rpc core (handlerProcess rpc core jsonrpc depth) name (paramsOf v) w.server =
      some (result, t)) :
    w.server.drawn ≤ t.drawn ∧
      t.cache.getCachedResponse s r = w.server.cache.getCachedResponse s r ∧
      ∀ u, result = .ok u → ReportsSession rpc core (paramsOf v) w.server.drawn t.drawn u := by
  have hext : ExtendsOwn rpc core (handlerProcess rpc core jsonrpc depth) :=
    handlerProcess_extends depth
  have hx := dispatch_extends hext _ _ _ _ _ hm
  refine ⟨hx.drawn_le, ?_, fun u hu => ?_⟩
  · rw [RequestCache.getCachedResponse, RequestCache.getCachedResponse, hx.entry_eq id h.external]
  · subst hu
    exact dispatch_reports hext hm

theorem KeySound.other_step (h : KeySound rpc core request s r first runs w)
    (hi : ¬ HasKey rpc s r (request i)) (hs : Step rpc jsonrpc
      (dispatch rpc core (handlerProcess rpc core jsonrpc depth)) request w i w') :
    KeySound rpc core request s r first runs w' := by
  have hbeside := h.beside i hi
  unfold Step advance at hs
  split at hs
  · split at hs <;>
      · cases hs
        exact h.other hi le_rfl rfl trivial
  · obtain ⟨⟨result, t⟩, hm, rfl⟩ := Option.map_eq_some_iff.mp hs
    obtain ⟨hd, hc, hrep⟩ := h.method_keeps hm
    exact h.other hi hd hc (h.postKey_ne hi hrep)
  · next answer hp =>
    rw [hp] at hbeside
    split at hs
    · cases hs
      exact h.other hi le_rfl rfl trivial
    · cases hs
      exact h.other hi le_rfl rfl trivial
    · next key hk =>
      split at hs <;>
        · cases hs
          refine h.other hi le_rfl rfl ?_
          first
            | trivial
            | exact fun hkey => hbeside (hk.trans (congrArg Except.ok hkey))
  · next key answer hp =>
    rw [hp] at hbeside
    cases hs
    refine h.other hi le_rfl ?_ trivial
    have hne : ¬ (s = key.1 ∧ r = key.2) := fun hk => hbeside (Prod.ext hk.1.symm hk.2.symm)
    simp [RequestCache.getCachedResponse, RequestCache.entry_addResponse, hne]
  · cases hs

/-- A step of a worker with the key, whose look-up, if it is one, is made alone. -/
theorem KeySound.own_step (h : KeySound rpc core request s r first runs w)
    (hi : HasKey rpc s r (request i))
    (ha : w.phase i = .idle → ∀ j, HasKey rpc s r (request j) → ¬ (w.phase j).InFlight)
    (hs : Step rpc jsonrpc (dispatch rpc core (handlerProcess rpc core jsonrpc depth)) request w i
      w') :
    KeySound rpc core request s r first (runs + (w.phase i).isRunning.toNat) w' := by
  have hfits := h.fits i hi
  have hle := h.runs_le
  have heq := h.runs_eq_of_inFlight hi
  unfold Step advance at hs
  split at hs
  · next hp =>
    rw [preProcess_of_key _ hi.1 hi.2] at hs
    simp only [hp, Phase.isRunning, Bool.toNat_false, add_zero]
    split at hs
    · next v hv =>
      cases hs
      exact h.lookup hp hv id hi fun hin => hin.elim
    · next hv =>
      cases hs
      exact h.lookup hp hv id hi fun _ => ha hp
  · next hp =>
    obtain ⟨⟨result, t⟩, hm, rfl⟩ := Option.map_eq_some_iff.mp hs
    obtain ⟨hd, hc, hrep⟩ := h.method_keeps hm
    simp only [hp, Phase.isRunning, Bool.toNat_true]
    rw [hp] at hfits heq
    -- the key has not been run and is run now
    have hnot : ¬ runs + first.isSome.toNat = 1 := fun h1 => (heq trivial).mp h1
    exact h.own hi (by rw [hp]; trivial) hd ⟨hc.trans hfits, postKey_respond hrep hi.1 hi.2⟩
      (by omega) ⟨fun _ => Or.inr trivial, fun _ => by omega⟩
  · next answer hp =>
    rw [hp] at hfits heq
    simp only [hp, Phase.isRunning, Bool.toNat_false, add_zero]
    simp only [hfits.2, hfits.1, Option.some.injEq] at hs
    subst hs
    exact h.own hi (by rw [hp]; trivial) le_rfl ⟨hfits.1, rfl⟩ hle
      ⟨fun _ => Or.inr trivial, fun _ => (heq trivial).mpr trivial⟩
  · next key answer hp =>
    rw [hp] at hfits heq
    obtain ⟨-, rfl⟩ := hfits
    simp only [hp, Phase.isRunning, Bool.toNat_false, add_zero]
    cases hs
    have hadd : (w.server.cache.addResponse s r answer.2).getCachedResponse s r = some answer.2 := by
      simp [RequestCache.getCachedResponse, RequestCache.entry_addResponse]
    exact h.own hi (by rw [hp]; trivial) le_rfl hadd hle
      ⟨fun _ => Or.inl (by rw [hadd]; rfl), fun _ => (heq trivial).mpr trivial⟩
  · cases hs

theorem KeySound.step {e : T × Bool} (h : KeySound rpc core request s r first runs w)
    (ha : AloneFor rpc request s r w e) (hs : MarkedStep rpc jsonrpc
      (dispatch rpc core (handlerProcess rpc core jsonrpc depth)) request w e w') :
    KeySound rpc core request s r first
      (runs + (e.2 && decide (HasKey rpc s r (request e.1))).toNat) w' := by
  unfold MarkedStep advanceMarked at hs
  split_ifs at hs with hmark
  by_cases hi : HasKey rpc s r (request e.1)
  · simpa [hi, hmark] using h.own_step hi (fun hidle => ha hidle hi) hs
  · simpa [hi] using h.other_step hi hs

/-- Whatever the other requests are, those with one key are run once among them as long
as each look-up of it is made while none of them is in flight. -/
theorem once_per_key (hr : ∀ n j, w.server.drawn ≤ n → r ≠ internalId (core.uuid n) j)
    (hu : ∀ n, w.server.drawn ≤ n → s ≠ core.uuid n) (hidle : ∀ i, w.phase i = .idle)
    {hist : List (T × Bool)} (hrun : Run (Guarded (AloneFor rpc request s r) (MarkedStep rpc jsonrpc
      (dispatch rpc core (handlerProcess rpc core jsonrpc depth)) request)) w hist w') :
    OncePerKey rpc request s r (w.server.cache.getCachedResponse s r)
      (runsFor rpc request s r hist) w' := by
  have h : KeySound rpc core request s r (w.server.cache.getCachedResponse s r)
      (runsFor rpc request s r hist) w' := by
    refine hrun.history_invariant (motive := fun hist w' => KeySound rpc core request s r
      (w.server.cache.getCachedResponse s r) (runsFor rpc request s r hist) w')
      (fun es u e v h hstep => ?_) ?_
    · have hnext := h.step hstep.1 hstep.2
      have hcount : runsFor rpc request s r (es ++ [e]) = runsFor rpc request s r es +
          (e.2 && decide (HasKey rpc s r (request e.1))).toNat := by
        rw [runsFor, List.countP_append, List.countP_singleton, ← runsFor, Bool.toNat, Bool.cond_eq_ite]
      rwa [hcount]
    · refine ⟨hr, hu, fun i _ => by rw [hidle i]; trivial, fun i _ => by rw [hidle i]; trivial,
        fun i j _ _ hi => by rw [hidle i] at hi; exact hi.elim, fun v hv => hv, ?_, ?_⟩
      · cases w.server.cache.getCachedResponse s r <;> simp [runsFor]
      · have hran : ¬ ∃ i, HasKey rpc s r (request i) ∧ (w.phase i).Ran := by
          rintro ⟨i, -, hi⟩
          rw [hidle i] at hi
          exact hi
        cases w.server.cache.getCachedResponse s r <;> simp [runsFor, hran]
  refine ⟨h.runs_le, h.kept, fun i answer hi hp => ?_, fun i answer hi hp => ?_⟩
  all_goals
    have hfits := h.fits i hi
    rw [hp] at hfits
  · exact hfits
  · exact h.runs_eq.mpr (Or.inl (by rw [show _ = some answer.2 from hfits]; rfl))

end KeySound

/-! ### Three workers -/

/-- The first two workers have one request, the third has another with the same id that
names no session. -/
def threeRequests (i : Fin 3) : Json :=
  if i = 2 then
    .obj [("id", .int 1), ("jsonrpc", .str "2.0"), ("method", .str "create"),
      ("params", .obj [("type", .str "MediaPipeline")])]
  else createRequest

/-- The third worker comes in between all steps of the first, the second one after it. -/
def threeSteps : List (Fin 3 × Bool) :=
  [(0, false), (2, false), (2, true), (0, true), (2, false), (0, false), (2, false), (0, false),
    (1, false)]

instance {σ T : Type} [Fintype T] {rpc : JsonRpc} {request : T → Json} {s r : String}
    (w : Workers σ T) (e : T × Bool) : Decidable (AloneFor rpc request s r w e) :=
  match h : w.phase e.1 with
  | .idle => decidable_of_iff (HasKey rpc s r (request e.1) →
      ∀ j, HasKey rpc s r (request j) → ¬ (w.phase j).InFlight) ⟨fun hj _ => hj, fun ha => ha h⟩
  | .running | .answered _ | .storing _ _ | .done _ => .isTrue fun hi => by rw [h] at hi; cases hi

/-- Two objects are made, one of them for the two workers with the same request. -/
theorem once_per_key_three :
    ∃ w', Run (Guarded (AloneFor JsonRpc.plain threeRequests "s" "1") (MarkedStep JsonRpc.plain
        RpcHandler.plain countingMethods threeRequests))
        ⟨⟨0, .empty, 0⟩, fun _ => .idle, 0⟩ threeSteps w' ∧
      OncePerKey JsonRpc.plain threeRequests "s" "1" none 1 w' ∧ w'.server.media = 2 := by
  have hr : ∀ n j, 0 ≤ n → "1" ≠ internalId (Core.counting.uuid n) j :=
    fun n j _ => toString_int_ne_internalId 1 _ j
  have hu : ∀ n, 0 ≤ n → "s" ≠ Core.counting.uuid n := fun n _ h => by
    have hmem : 's' ∈ (Core.counting.uuid n).toList := by
      rw [← h]
      decide
    simp [Core.counting] at hmem
  obtain ⟨w', hrun, hmedia⟩ : ∃ w', Run (Guarded (AloneFor JsonRpc.plain threeRequests "s" "1")
      (MarkedStep JsonRpc.plain RpcHandler.plain countingMethods threeRequests))
      ⟨⟨0, .empty, 0⟩, fun _ => .idle, 0⟩ threeSteps w' ∧ w'.server.media = 2 :=
    ⟨_, Run.of_foldlM_guarded rfl, rfl⟩
  exact ⟨w', hrun, once_per_key hr hu (fun _ => rfl) hrun, hmedia⟩

end KurentoMediaServer.Cache
