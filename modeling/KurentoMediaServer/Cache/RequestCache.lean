import KurentoMediaServer.Foundations.StdMap
import KurentoMediaServer.Json.Value

/-! `RequestCache`: responses by session and request, each kept until its timer
fires. A timer is a numbered source, attached with the key its callback erases; the
destructor of an entry detaches its source, unless that has fired (`timedout`).
Every entry has its own pending timer and every pending timer is that of an entry,
so a timer takes away the entry it was started for and no other. -/

namespace KurentoMediaServer.Cache

open Foundations

/-- `CacheEntry`, with the number of its timeout source. -/
structure CacheEntry where
  response : Json
  source : ℕ
  timedout : Bool

/-- The cache, the sources attached with the key their callback erases, and the
number of the next source. -/
structure RequestCache where
  cache : StdMap String (StdMap String CacheEntry)
  sources : StdMap ℕ (String × String)
  next : ℕ

namespace RequestCache

def empty : RequestCache := ⟨∅, ∅, 0⟩

def entry (c : RequestCache) (sessionId requestId : String) : Option CacheEntry :=
  (c.cache.lookup sessionId).bind fun requests => requests.lookup requestId

/-- `cache[sessionId][requestId] = entry`, the entry it replaces left to be destroyed. -/
def setEntry (c : RequestCache) (sessionId requestId : String) (e : CacheEntry) : RequestCache :=
  let requests := (c.cache.lookup sessionId).getD ∅
  { c with cache := c.cache.insert sessionId (requests.insert requestId e) }

/-- `~CacheEntry` of an entry the map has dropped, if it has dropped one. -/
def destroy (c : RequestCache) : Option CacheEntry → RequestCache
  | some e => if e.timedout then c else { c with sources := c.sources.erase e.source }
  | none => c

/-- `getCachedResponse`; none stands for the `CacheException`. -/
def getCachedResponse (c : RequestCache) (sessionId requestId : String) : Option Json :=
  (c.entry sessionId requestId).map CacheEntry.response

/-- `addResponse`. The entry the assignment replaces is destroyed. -/
def addResponse (c : RequestCache) (sessionId requestId : String) (response : Json) :
    RequestCache :=
  let c' := (c.setEntry sessionId requestId ⟨response, c.next, false⟩).destroy
    (c.entry sessionId requestId)
  { c' with sources := c'.sources.insert c.next (sessionId, requestId), next := c.next + 1 }

/-- The slot of `signalTimeout`: erase the key, and the session once it is empty. -/
def onTimeout (c : RequestCache) (sessionId requestId : String) : RequestCache :=
  match c.cache.lookup sessionId with
  | none => c
  | some requests =>
    match requests.lookup requestId with
    | none => c
    | some e =>
      let requests := requests.erase requestId
      let cache :=
        if StdMap.isEmpty requests then c.cache.erase sessionId
        else c.cache.insert sessionId requests
      { c with cache := cache }.destroy (some e)

/-- The callback of a source sets `timedout` on the entry it belongs to. -/
def setTimedout (c : RequestCache) (sessionId requestId : String) (source : ℕ) : RequestCache :=
  match c.entry sessionId requestId with
  | none => c
  | some e =>
    if e.source = source then c.setEntry sessionId requestId { e with timedout := true } else c

/-- The timer of a source fires, if it is attached. Its callback returns false, so
the source is removed. -/
def fire (c : RequestCache) (source : ℕ) : RequestCache :=
  match c.sources.lookup source with
  | none => c
  | some (sessionId, requestId) =>
    let c := (c.setTimedout sessionId requestId source).onTimeout sessionId requestId
    { c with sources := c.sources.erase source }

/-! ### Look-up after each operation -/

@[simp] theorem entry_destroy (c : RequestCache) (e : Option CacheEntry) (s r : String) :
    (c.destroy e).entry s r = c.entry s r := by
  cases e with
  | none => rfl
  | some e => simp only [destroy]; split_ifs <;> rfl

@[simp] theorem next_destroy (c : RequestCache) (e : Option CacheEntry) :
    (c.destroy e).next = c.next := by
  cases e with
  | none => rfl
  | some e => simp only [destroy]; split_ifs <;> rfl

theorem entry_setEntry (c : RequestCache) (s r : String) (e : CacheEntry) (s' r' : String) :
    (c.setEntry s r e).entry s' r' = if s' = s ∧ r' = r then some e else c.entry s' r' := by
  simp only [entry, setEntry, StdMap.lookup_insert]
  by_cases hs : s' = s
  · subst hs
    simp only [↓reduceIte, Option.bind_some, StdMap.lookup_insert, true_and]
    split_ifs
    · rfl
    · cases c.cache.lookup s' <;> simp
  · simp [hs]

theorem entry_addResponse (c : RequestCache) (s r : String) (response : Json) (s' r' : String) :
    (c.addResponse s r response).entry s' r' =
      if s' = s ∧ r' = r then some ⟨response, c.next, false⟩ else c.entry s' r' := by
  rw [← entry_setEntry c s r]
  exact entry_destroy ..

theorem entry_onTimeout (c : RequestCache) (s r : String) (s' r' : String) :
    (c.onTimeout s r).entry s' r' = if s' = s ∧ r' = r then none else c.entry s' r' := by
  unfold onTimeout
  cases hm : c.cache.lookup s with
  | none =>
    by_cases hs : s' = s
    · subst hs; simp [entry, hm]
    · simp [hs]
  | some requests =>
    have hl := StdMap.lookup_erase requests r r'
    dsimp only
    cases hr : requests.lookup r with
    | none =>
      simp only
      split_ifs with hk
      · obtain ⟨rfl, rfl⟩ := hk
        simp [entry, hm, hr]
      · rfl
    | some e =>
      rw [entry_destroy]
      by_cases hs : s' = s
      · subst hs
        by_cases he : StdMap.isEmpty (requests.erase r) = true
        · -- the session goes with its last request, so every look-up in it fails
          have hnone := (StdMap.isEmpty_iff _).mp he r'
          simp only [entry, he, ↓reduceIte, StdMap.lookup_erase, Option.bind_none, hm,
            Option.bind_some]
          grind
        · simp [entry, he, hl, hm]
      · by_cases he : StdMap.isEmpty (requests.erase r) = true
        · simp [entry, he, hs]
        · simp [entry, he, hs]

theorem entry_setTimedout (c : RequestCache) (s r : String) (n : ℕ) (s' r' : String)
    (hk : ¬ (s' = s ∧ r' = r)) : (c.setTimedout s r n).entry s' r' = c.entry s' r' := by
  unfold setTimedout
  cases c.entry s r with
  | none => rfl
  | some e =>
    dsimp only
    split_ifs
    · rw [entry_setEntry, if_neg hk]
    · rfl

theorem entry_fire (c : RequestCache) (n : ℕ) (s r : String) :
    (c.fire n).entry s r =
      if c.sources.lookup n = some (s, r) then none else c.entry s r := by
  unfold fire
  cases hn : c.sources.lookup n with
  | none => simp
  | some k =>
    have hkey : some k = some (s, r) ↔ s = k.1 ∧ r = k.2 := by
      simp [Prod.ext_iff, eq_comm]
    change ((c.setTimedout k.1 k.2 n).onTimeout k.1 k.2).entry s r = _
    rw [entry_onTimeout]
    by_cases hk : s = k.1 ∧ r = k.2
    · rw [if_pos hk, if_pos (hkey.mpr hk)]
    · rw [if_neg hk, if_neg (mt hkey.mp hk), entry_setTimedout c _ _ _ _ _ hk]

/-! ### Entries and timers -/

def Records (c : RequestCache) : Prop :=
  ∀ s r e, c.entry s r = some e → e.response.isRecord = true

theorem records_empty : empty.Records := fun s r e he => by simp [empty, entry] at he

theorem Records.addResponse {c : RequestCache} (h : c.Records) {response : Json}
    (hresponse : response.isRecord = true) (s r : String) : (c.addResponse s r response).Records := by
  intro s' r' e he
  rw [entry_addResponse] at he
  split_ifs at he
  · cases he; exact hresponse
  · exact h _ _ _ he

/-- Entries and pending timers are the same thing under two names, and no entry has
outlived its timer. -/
structure Timed (c : RequestCache) : Prop where
  entry_iff : ∀ n s r, c.sources.lookup n = some (s, r) ↔
    ∃ e, c.entry s r = some e ∧ e.source = n
  lt_next : ∀ n k, c.sources.lookup n = some k → n < c.next
  live : ∀ s r e, c.entry s r = some e → e.timedout = false

theorem timed_empty : empty.Timed where
  entry_iff n s r := by simp [empty, entry]
  lt_next n k h := by simp [empty] at h
  live s r e h := by simp [empty, entry] at h

theorem sources_addResponse {c : RequestCache} (h : c.Timed) (s r : String) (response : Json)
    (n : ℕ) :
    (c.addResponse s r response).sources.lookup n =
      if n = c.next then some (s, r)
      else if (c.entry s r).map CacheEntry.source = some n then none
      else c.sources.lookup n := by
  simp only [addResponse, StdMap.lookup_insert]
  cases he : c.entry s r with
  | none => simp [destroy, setEntry]
  | some old => simp [destroy, setEntry, h.live s r old he, StdMap.lookup_erase, eq_comm]

theorem Timed.addResponse {c : RequestCache} (h : c.Timed) (s r : String) (response : Json) :
    (c.addResponse s r response).Timed where
  entry_iff n s' r' := by
    have h1 := h.entry_iff n s' r'
    have h2 := h.lt_next n
    have h3 := h.entry_iff n s r
    rw [sources_addResponse h, entry_addResponse]
    by_cases hn : n = c.next
    · have hno : ∀ e, c.entry s' r' = some e → e.source ≠ n := fun e he hs =>
        absurd (h2 _ (h1.mpr ⟨e, he, hs⟩)) (by omega)
      rw [if_pos hn]
      by_cases hk : s' = s ∧ r' = r
      · simp [hk, hn]
      · rw [if_neg hk]
        constructor
        · intro he; exact absurd (by simpa [eq_comm] using he) hk
        · rintro ⟨e, he, hs⟩; exact absurd hs (hno e he)
    · rw [if_neg hn]
      have h4 : (c.entry s r).map CacheEntry.source = some n ↔ c.sources.lookup n = some (s, r) := by
        rw [h3, Option.map_eq_some_iff]
      by_cases hk : s' = s ∧ r' = r
      · obtain ⟨rfl, rfl⟩ := hk
        simp only [and_self, ↓reduceIte, Option.some.injEq]
        constructor
        · grind
        · rintro ⟨e, rfl, hs⟩; exact absurd hs.symm hn
      · rw [if_neg hk, ← h1]
        split_ifs with hold
        · rw [h4] at hold
          simp only [hold, Option.some.injEq, Prod.mk.injEq, false_iff]
          exact fun hc => hk ⟨hc.1.symm, hc.2.symm⟩
        · rfl
  lt_next n k hk := by
    rw [sources_addResponse h] at hk
    have h2 := h.lt_next n k
    have hn : (c.addResponse s r response).next = c.next + 1 := rfl
    grind
  live s' r' e he := by
    rw [entry_addResponse] at he
    split_ifs at he
    · cases he; rfl
    · exact h.live s' r' e he

/-- What the slot does to the sources is what the destructor of the entry does. -/
theorem sources_onTimeout (c : RequestCache) (s r : String) :
    (c.onTimeout s r).sources = (c.destroy (c.entry s r)).sources := by
  unfold onTimeout entry
  cases hm : c.cache.lookup s with
  | none => rfl
  | some requests =>
    cases hr : requests.lookup r with
    | none => simp [hr, destroy]
    | some e =>
      simp only [Option.bind_some, hr, destroy]
      split_ifs <;> rfl

@[simp] theorem next_onTimeout (c : RequestCache) (s r : String) :
    (c.onTimeout s r).next = c.next := by
  unfold onTimeout
  cases c.cache.lookup s with
  | none => rfl
  | some requests => cases h : requests.lookup r <;> simp [h]

/-- The entry of the firing timer is flagged when it is destroyed, so no source but
the firing one goes. -/
theorem sources_fire {c : RequestCache} (h : c.Timed) (n m : ℕ) :
    (c.fire n).sources.lookup m = if m = n then none else c.sources.lookup m := by
  unfold fire
  cases hn : c.sources.lookup n with
  | none => grind
  | some k =>
    obtain ⟨e, he, hsource⟩ := (h.entry_iff n k.1 k.2).mp hn
    have hflag : c.setTimedout k.1 k.2 n = c.setEntry k.1 k.2 { e with timedout := true } := by
      simp only [setTimedout, he, if_pos hsource]
    have hentry : (c.setEntry k.1 k.2 { e with timedout := true }).entry k.1 k.2 =
        some { e with timedout := true } := by simp [entry_setEntry]
    change (((c.setTimedout k.1 k.2 n).onTimeout k.1 k.2).sources.erase n).lookup m = _
    rw [StdMap.lookup_erase, sources_onTimeout, hflag, hentry]
    rfl

@[simp] theorem next_fire (c : RequestCache) (n : ℕ) : (c.fire n).next = c.next := by
  unfold fire
  cases c.sources.lookup n with
  | none => rfl
  | some k =>
    change ((c.setTimedout k.1 k.2 n).onTimeout k.1 k.2).next = _
    rw [next_onTimeout]
    unfold setTimedout
    cases c.entry k.1 k.2 with
    | none => rfl
    | some e => dsimp only; split_ifs <;> rfl

theorem Timed.fire {c : RequestCache} (h : c.Timed) (n : ℕ) : (c.fire n).Timed where
  entry_iff m s r := by
    have h1 := h.entry_iff m s r
    have h2 := h.entry_iff n s r
    rw [sources_fire h, entry_fire]
    grind
  lt_next m k hk := by
    rw [sources_fire h] at hk
    have := h.lt_next m k
    rw [next_fire]
    grind
  live s r e he := by
    rw [entry_fire] at he
    split_ifs at he
    exact h.live s r e he

end RequestCache

end KurentoMediaServer.Cache
