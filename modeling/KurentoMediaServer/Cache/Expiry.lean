import KurentoMediaServer.Cache.RequestCache
import KurentoMediaServer.Foundations.Expiry

/-! `RequestCache` refines a map with per-entry expiry: `getCachedResponse` answers
with the response of the latest `addResponse` for the key until the timer of that
call has fired, the keys present are those of the pending timers, and no session is
kept without a request. -/

namespace KurentoMediaServer.Cache

open Foundations

/-- Calls and timer callbacks: an assignment is an `addResponse`, a look-up a
`getCachedResponse`. -/
abbrev CacheEvent := ExpiryEvent (String × String) Json

/-- A source that has been destroyed never fires. -/
def CacheStep (c : RequestCache) : CacheEvent → RequestCache → Prop
  | .assign (sessionId, requestId) response n, c' =>
    n = c.next ∧ c' = c.addResponse sessionId requestId response
  | .look (sessionId, requestId) answer, c' =>
    answer = c.getCachedResponse sessionId requestId ∧ c' = c
  | .expire n, c' => (∃ k, c.sources.lookup n = some k) ∧ c' = c.fire n

namespace RequestCache

def expiryMap (c : RequestCache) : ExpiryMap (String × String) Json where
  entries k := (c.entry k.1 k.2).map fun e => (e.response, e.source)
  next := c.next

def Inhabited (c : RequestCache) : Prop :=
  ∀ s requests, c.cache.lookup s = some requests → StdMap.isEmpty requests = false

theorem inhabited_empty : empty.Inhabited := fun s requests h => by simp [empty] at h

@[simp] theorem cache_destroy (c : RequestCache) (e : Option CacheEntry) :
    (c.destroy e).cache = c.cache := by
  cases e with
  | none => rfl
  | some e => simp only [destroy]; split_ifs <;> rfl

theorem Inhabited.setEntry {c : RequestCache} (h : c.Inhabited) (s r : String) (e : CacheEntry) :
    (c.setEntry s r e).Inhabited := by
  intro s' requests hl
  simp only [RequestCache.setEntry, StdMap.lookup_insert] at hl
  split_ifs at hl
  · obtain rfl := Option.some.inj hl
    rw [Bool.eq_false_iff, Ne, StdMap.isEmpty_iff]
    intro hall
    simpa [StdMap.lookup_insert] using hall r
  · exact h s' requests hl

theorem Inhabited.addResponse {c : RequestCache} (h : c.Inhabited) (s r : String)
    (response : Json) : (c.addResponse s r response).Inhabited := by
  have hcache : (c.addResponse s r response).cache =
      (c.setEntry s r ⟨response, c.next, false⟩).cache := cache_destroy ..
  intro s' requests hl
  rw [hcache] at hl
  exact h.setEntry s r _ s' requests hl

/-- The slot drops the session when it erases its last request. -/
theorem Inhabited.onTimeout {c : RequestCache} (h : c.Inhabited) (s r : String) :
    (c.onTimeout s r).Inhabited := by
  unfold RequestCache.onTimeout
  cases hs : c.cache.lookup s with
  | none => exact h
  | some requests =>
    dsimp only
    cases hr : requests.lookup r with
    | none => exact h
    | some e =>
      intro s' requests' hl
      simp only [cache_destroy] at hl
      split_ifs at hl with hempty
      · rw [StdMap.lookup_erase] at hl
        split_ifs at hl
        exact h s' requests' hl
      · rw [StdMap.lookup_insert] at hl
        split_ifs at hl
        · obtain rfl := Option.some.inj hl
          exact Bool.eq_false_iff.mpr hempty
        · exact h s' requests' hl

theorem Inhabited.fire {c : RequestCache} (h : c.Inhabited) (n : ℕ) : (c.fire n).Inhabited := by
  unfold RequestCache.fire
  cases c.sources.lookup n with
  | none => exact h
  | some k =>
    have hflag : (c.setTimedout k.1 k.2 n).Inhabited := by
      unfold setTimedout
      cases c.entry k.1 k.2 with
      | none => exact h
      | some e =>
        dsimp only
        split_ifs
        · exact h.setEntry _ _ _
        · exact h
    exact hflag.onTimeout k.1 k.2

theorem expiryMap_empty : empty.expiryMap = .empty := rfl

theorem expiryMap_addResponse (c : RequestCache) (s r : String) (response : Json) :
    (c.addResponse s r response).expiryMap = c.expiryMap.assign (s, r) response := by
  simp only [expiryMap, ExpiryMap.assign, ExpiryMap.mk.injEq]
  refine ⟨?_, rfl⟩
  funext k
  rw [entry_addResponse, Function.update_apply]
  have hk : (k.1 = s ∧ k.2 = r) ↔ k = (s, r) := by
    rw [Prod.ext_iff]
  by_cases h : k = (s, r)
  · rw [if_pos (hk.mpr h), if_pos h]; rfl
  · rw [if_neg (mt hk.mp h), if_neg h]

/-- The callback erases by key, which is the entry of the timer and no newer one. -/
theorem expiryMap_fire {c : RequestCache} (h : c.Timed) (n : ℕ) :
    (c.fire n).expiryMap = c.expiryMap.expire n := by
  simp only [expiryMap, ExpiryMap.expire, ExpiryMap.mk.injEq]
  refine ⟨?_, next_fire c n⟩
  funext k
  have hk := h.entry_iff n k.1 k.2
  rw [entry_fire]
  cases he : c.entry k.1 k.2 with
  | none => simp
  | some e =>
    rw [he] at hk
    simp only [Option.some.injEq, exists_eq_left'] at hk
    by_cases hsource : e.source = n
    · rw [if_pos (hk.mpr hsource)]; simp [Option.filter, hsource]
    · rw [if_neg (mt hk.mp hsource)]; simp [Option.filter, hsource]

structure Sound (c : RequestCache) : Prop where
  timed : c.Timed
  inhabited : c.Inhabited

theorem Sound.step {c c' : RequestCache} {e : CacheEvent} (h : c.Sound) (hstep : CacheStep c e c') :
    c'.Sound := by
  cases e with
  | assign k response n =>
    obtain ⟨-, rfl⟩ := hstep
    exact ⟨h.timed.addResponse .., h.inhabited.addResponse _ _ _⟩
  | look k answer =>
    obtain ⟨-, rfl⟩ := hstep
    exact h
  | expire n =>
    obtain ⟨-, rfl⟩ := hstep
    exact ⟨h.timed.fire n, h.inhabited.fire n⟩

theorem Sound.refines {c c' : RequestCache} {e : CacheEvent} (h : c.Sound)
    (hstep : CacheStep c e c') : ExpiryMap.Step c.expiryMap e c'.expiryMap := by
  cases e with
  | assign k response n =>
    obtain ⟨rfl, rfl⟩ := hstep
    exact ⟨rfl, expiryMap_addResponse ..⟩
  | look k answer =>
    obtain ⟨rfl, rfl⟩ := hstep
    refine ⟨?_, rfl⟩
    simp only [expiryMap, getCachedResponse, Option.map_map]
    rfl
  | expire n =>
    obtain ⟨⟨k, hk⟩, rfl⟩ := hstep
    obtain ⟨e, he, rfl⟩ := (h.timed.entry_iff n k.1 k.2).mp hk
    exact ⟨⟨k, e.response, by simp [expiryMap, he]⟩, expiryMap_fire h.timed _⟩

theorem expiryMap_run {hist : List CacheEvent} {c : RequestCache}
    (h : Run CacheStep empty hist c) : Run ExpiryMap.Step .empty hist c.expiryMap := by
  rw [← expiryMap_empty]
  exact h.simulate (fun _ _ _ hs hstep => Sound.step hs hstep)
    (fun _ _ _ hs hstep => Sound.refines hs hstep) ⟨timed_empty, inhabited_empty⟩

end RequestCache

/-- After any run the response of a key is that of its latest `addResponse` if the
timer started by that call has not fired, and otherwise there is none; the entries
are those of the pending timers, each of which belongs to the latest `addResponse`
of its key; and no session maps to an empty map. -/
theorem requestCache_refines {hist : List CacheEvent} {c : RequestCache}
    (h : Run CacheStep .empty hist c) :
    (∀ s r response, c.getCachedResponse s r = some response ↔
      ∃ n, Since (· = .assign (s, r) response n) (ExpiryEvent.Assigns (s, r)) hist ∧
        .expire n ∉ hist) ∧
    (∀ s r n, c.sources.lookup n = some (s, r) ↔ ∃ e, c.entry s r = some e ∧ e.source = n) ∧
    (∀ s r n, c.sources.lookup n = some (s, r) →
      ∃ response, Since (· = .assign (s, r) response n) (ExpiryEvent.Assigns (s, r)) hist) ∧
    (∀ s requests, c.cache.lookup s = some requests → StdMap.isEmpty requests = false) := by
  have hsound : c.Sound := h.invariant (motive := RequestCache.Sound) (fun _ _ _ hs hstep => hs.step hstep)
    ⟨RequestCache.timed_empty, RequestCache.inhabited_empty⟩
  have hhist := ExpiryMap.history_of_run (RequestCache.expiryMap_run h)
  have hentry : ∀ s r response n, (∃ e, c.entry s r = some e ∧ e.response = response ∧
      e.source = n) ↔
      Since (· = .assign (s, r) response n) (ExpiryEvent.Assigns (s, r)) hist ∧
        .expire n ∉ hist := by
    intro s r response n
    rw [← hhist]
    simp [RequestCache.expiryMap]
  refine ⟨fun s r response => ?_, fun s r n => hsound.timed.entry_iff n s r, fun s r n hn => ?_,
    hsound.inhabited⟩
  · simp only [← hentry, RequestCache.getCachedResponse, Option.map_eq_some_iff]
    constructor
    · rintro ⟨e, he, hr⟩; exact ⟨e.source, e, he, hr, rfl⟩
    · rintro ⟨n, e, he, hr, -⟩; exact ⟨e, he, hr⟩
  · obtain ⟨e, he, hsource⟩ := (hsound.timed.entry_iff n s r).mp hn
    exact ⟨e.response, ((hentry s r _ n).mp ⟨e, he, rfl, hsource⟩).1⟩

/-- A response is stored, read and replaced: the timer of the first one is cancelled. -/
theorem requestCache_refines_overwrite :
    let hist : List CacheEvent := [.assign ("s", "1") .null 0, .look ("s", "1") (some .null),
      .assign ("s", "1") (.bool true) 1]
    ∃ c, Run CacheStep .empty hist c ∧ c.sources.lookup 0 = none ∧
      ∃ n, Since (· = .assign ("s", "1") (.bool true) n) (ExpiryEvent.Assigns ("s", "1")) hist ∧
        .expire n ∉ hist := by
  let c₁ := RequestCache.empty.addResponse "s" "1" .null
  let c₂ := c₁.addResponse "s" "1" (.bool true)
  have hstored : CacheStep .empty (.assign ("s", "1") .null 0) c₁ := ⟨rfl, rfl⟩
  have hread : CacheStep c₁ (.look ("s", "1") (some .null)) c₁ :=
    ⟨by simp [c₁, RequestCache.getCachedResponse, RequestCache.entry_addResponse], rfl⟩
  have hreplaced : CacheStep c₁ (.assign ("s", "1") (.bool true) 1) c₂ := ⟨rfl, rfl⟩
  have hrun := (((Run.nil _).snoc hstored).snoc hread).snoc hreplaced
  obtain ⟨hresponse, -⟩ := requestCache_refines hrun
  refine ⟨c₂, hrun, ?_, (hresponse "s" "1" _).mp ?_⟩
  · have htimed : c₁.Timed := RequestCache.timed_empty.addResponse ..
    have hentry : c₁.entry "s" "1" = some ⟨.null, 0, false⟩ := by
      rw [RequestCache.entry_addResponse, if_pos ⟨rfl, rfl⟩]; rfl
    have hnext : c₁.next = 1 := rfl
    rw [RequestCache.sources_addResponse htimed, hentry, hnext]
    rfl
  · simp [c₂, RequestCache.getCachedResponse, RequestCache.entry_addResponse]

end KurentoMediaServer.Cache
