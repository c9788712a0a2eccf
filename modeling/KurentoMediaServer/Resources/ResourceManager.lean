import KurentoMediaServer.Resources.Stat
import KurentoMediaServer.Methods.Methods

/-! The limits on threads and open files, which `create` checks before it makes an
object. What is measured is measured through files: reading `/proc/self/stat` and
`/proc/self/fd` takes a descriptor, which there may be none left of, and a directory
lists more than what is counted in it. -/

namespace KurentoMediaServer.Resources

open Foundations Methods

/-! ### The process -/

/-- What the server can ask about its own process, and its limits; a limit is read once
and kept. -/
structure Process where
  stat : List Char
  threads : ℕ
  stat_threads : getNumberOfThreads stat = .ok threads
  threads_lt : threads < 2 ^ 63
  descriptors : List ℕ
  descriptors_nodup : descriptors.Nodup
  /-- The number of descriptors that can be open. -/
  hardLimit : ℕ
  descriptors_le : descriptors.length ≤ hardLimit
  hardLimit_le : hardLimit ≤ 2 ^ 31
  maxThreads : ℕ
  maxOpenFiles : ℕ

def RLIM_INFINITY : ℕ := 2 ^ 64 - 1

def toRlim (n : ℤ) : ℕ := (n % 2 ^ 64).toNat

namespace Process

variable (p : Process)

def freeDescriptor : ℕ :=
  ((List.range (p.descriptors.length + 1)).find? (· ∉ p.descriptors)).getD 0

/-- `opendir ("/proc/self/fd")`: the entries of the directory, which has an entry for the
descriptor it is read by, or null when no descriptor is left. -/
def opendir : Option (List String) :=
  if p.descriptors.length < p.hardLimit then
    some ("." :: ".." :: (p.descriptors ++ [p.freeDescriptor]).map toString)
  else none

/-- The line that is read from `/proc/self/stat`; it is empty when the file cannot be
opened. -/
def readStat : List Char := if p.descriptors.length < p.hardLimit then p.stat else []

end Process

/-! ### The checks -/

inductive Stop where
  | fault (f : Fault)
  | throw (e : KurentoException)

/-- A check: the directory entries it has counted, and how it has ended. -/
structure Check where
  counted : List String
  result : Except Stop Unit

section Checks
variable (rpc : JsonRpc) (limitPercent : ℕ → ℕ) (p : Process)

/-- `checkThreads (limit_percent)`; `limitPercent` is the product of a limit with it, as
`rlim_t`. -/
def checkThreads : Check :=
  if p.maxThreads = 0 ∨ p.maxThreads = RLIM_INFINITY then ⟨[], .ok ()⟩
  else
    let maxThreadsKms := limitPercent p.maxThreads
    match getNumberOfThreads p.readStat with
    | .error f => ⟨[], .error (.fault f)⟩
    | .ok nThreads =>
      if toRlim nThreads > maxThreadsKms then
        ⟨[], .error (.throw (rpc.kurentoException .notEnoughResources
          ("Reached KMS threads limit: " ++ toString maxThreadsKms)))⟩
      else ⟨[], .ok ()⟩

/-- The loop of `getNumberOfOpenFiles`, over the entries that `readdir` still yields. -/
def countEntries (openFiles : ℕ) : List String → ℕ
  | [] => openFiles
  | _ :: rest => countEntries (openFiles + 1) rest

/-- `getNumberOfOpenFiles ()`, with the entries it has counted. -/
def getNumberOfOpenFiles : List String × Except Fault ℕ :=
  match p.opendir with
  | none => ([], .error .nullDirectory)
  | some entries => (entries, .ok (countEntries 0 entries))

def checkOpenFiles : Check :=
  if p.maxOpenFiles = 0 ∨ p.maxOpenFiles = RLIM_INFINITY then ⟨[], .ok ()⟩
  else
    let maxOpenFilesKms := limitPercent p.maxOpenFiles
    match getNumberOfOpenFiles p with
    | (counted, .error f) => ⟨counted, .error (.fault f)⟩
    | (counted, .ok nOpenFiles) =>
      if toRlim nOpenFiles > maxOpenFilesKms then
        ⟨counted, .error (.throw (rpc.kurentoException .notEnoughResources
          ("Reached KMS files limit: " ++ toString maxOpenFilesKms)))⟩
      else ⟨counted, .ok ()⟩

def checkResources : Check :=
  let threads := checkThreads rpc limitPercent p
  match threads.result with
  | .error _ => threads
  | .ok () =>
    let files := checkOpenFiles rpc limitPercent p
    ⟨threads.counted ++ files.counted, files.result⟩

end Checks

/-- A check as the methods call it; nothing answers for a fault. -/
def Check.toExc (c : Check) : Except Exc Unit :=
  match c.result with
  | .ok () => .ok ()
  | .error (.fault _) => .error .unknown
  | .error (.throw e) => .error (.kurento e)

/-- The media set of a server on a process, with the checks of the resource manager. -/
def withResources {σ : Type} (rpc : JsonRpc) (limitPercent : ℕ → ℕ) (core : Core σ)
    (process : σ → Process) : Core σ :=
  { core with checkResources := fun st =>
      ((checkResources rpc limitPercent (process st)).toExc, st) }

/-! ### What the checks measure -/

section Measures
variable (rpc : JsonRpc) (limitPercent : ℕ → ℕ) {p : Process}

theorem countEntries_eq (n : ℕ) (entries : List String) :
    countEntries n entries = n + entries.length := by
  induction entries generalizing n with
  | nil => rfl
  | cons e rest ih =>
    rw [countEntries, ih, List.length_cons]
    omega

theorem toRlim_natCast {n : ℕ} (h : n < 2 ^ 64) : toRlim n = n := by
  rw [toRlim]
  omega

def Checked (limit : ℕ) : Prop := limit ≠ 0 ∧ limit ≠ RLIM_INFINITY

instance (limit : ℕ) : Decidable (Checked limit) := inferInstanceAs (Decidable (_ ∧ _))

/-- No threads are read when no descriptor is left. -/
theorem getNumberOfThreads_readStat (p : Process) : getNumberOfThreads p.readStat =
    .ok (if p.descriptors.length < p.hardLimit then p.threads else 0 : ℕ) := by
  rw [Process.readStat]
  split_ifs
  · exact p.stat_threads
  · rw [getNumberOfThreads, getInt]
    rfl

def IsRefusal (r : Except Stop Unit) : Prop :=
  ∃ e, r = .error (.throw e) ∧ e.code = .notEnoughResources

/-- The threads are counted while a descriptor is left. -/
theorem checkThreads_cases (hfinite : Checked p.maxThreads) :
    (checkThreads rpc limitPercent p).counted = [] ∧
      if p.descriptors.length < p.hardLimit ∧ limitPercent p.maxThreads < p.threads then
        IsRefusal (checkThreads rpc limitPercent p).result
      else (checkThreads rpc limitPercent p).result = .ok () := by
  have hread : toRlim (if p.descriptors.length < p.hardLimit then p.threads else 0 : ℕ) =
      if p.descriptors.length < p.hardLimit then p.threads else 0 := by
    apply toRlim_natCast
    have := p.threads_lt
    split_ifs <;> omega
  rw [checkThreads, if_neg (not_or.mpr hfinite), getNumberOfThreads_readStat]
  dsimp only
  rw [hread]
  by_cases hleft : p.descriptors.length < p.hardLimit
  · rw [if_pos hleft]
    split_ifs with hmore hc hc
    · exact ⟨rfl, _, rfl, rfl⟩
    · exact absurd ⟨hleft, hmore⟩ hc
    · exact absurd hc.2 hmore
    · exact ⟨rfl, rfl⟩
  · rw [if_neg hleft, if_neg (Nat.not_lt_zero _), if_neg fun hc => hleft hc.1]
    exact ⟨rfl, rfl⟩

/-- The files are counted with three entries too many, or through a null pointer. -/
theorem checkOpenFiles_cases (hfinite : Checked p.maxOpenFiles) :
    if p.descriptors.length < p.hardLimit then
      "." ∈ (checkOpenFiles rpc limitPercent p).counted ∧
        if limitPercent p.maxOpenFiles < p.descriptors.length + 3 then
          IsRefusal (checkOpenFiles rpc limitPercent p).result
        else (checkOpenFiles rpc limitPercent p).result = .ok ()
    else (checkOpenFiles rpc limitPercent p).result = .error (.fault .nullDirectory) := by
  rw [checkOpenFiles, if_neg (not_or.mpr hfinite), getNumberOfOpenFiles, Process.opendir]
  by_cases hleft : p.descriptors.length < p.hardLimit
  · have hlen : toRlim (countEntries 0 ("." :: ".." ::
        (p.descriptors ++ [p.freeDescriptor]).map toString) : ℕ) = p.descriptors.length + 3 := by
      have := p.descriptors_le
      have := p.hardLimit_le
      rw [countEntries_eq, toRlim_natCast]
      · simp only [List.length_cons, List.length_map, List.length_append, List.length_nil]
        omega
      · simp only [List.length_cons, List.length_map, List.length_append, List.length_nil]
        omega
    rw [if_pos hleft, if_pos hleft]
    dsimp only
    rw [hlen]
    by_cases hmore : limitPercent p.maxOpenFiles < p.descriptors.length + 3
    · rw [if_pos hmore, if_pos hmore]
      exact ⟨List.mem_cons_self, _, rfl, rfl⟩
    · rw [if_neg hmore, if_neg hmore]
      exact ⟨List.mem_cons_self, rfl⟩
  · rw [if_neg hleft, if_neg hleft]

/-- The three ways of a check with limits: through a null pointer, stopped at the threads,
and decided by the files. -/
theorem checkResources_cases (hthreads : Checked p.maxThreads) (hfiles : Checked p.maxOpenFiles) :
    (p.hardLimit ≤ p.descriptors.length ∧
      (checkResources rpc limitPercent p).result = .error (.fault .nullDirectory)) ∨
    (p.descriptors.length < p.hardLimit ∧ limitPercent p.maxThreads < p.threads ∧
      (checkResources rpc limitPercent p).counted = [] ∧
      IsRefusal (checkResources rpc limitPercent p).result) ∨
    (p.descriptors.length < p.hardLimit ∧ p.threads ≤ limitPercent p.maxThreads ∧
      "." ∈ (checkResources rpc limitPercent p).counted ∧
      if limitPercent p.maxOpenFiles < p.descriptors.length + 3 then
        IsRefusal (checkResources rpc limitPercent p).result
      else (checkResources rpc limitPercent p).result = .ok ()) := by
  obtain ⟨hnone, ht⟩ := checkThreads_cases rpc limitPercent hthreads
  have hf := checkOpenFiles_cases rpc limitPercent hfiles
  split_ifs at ht with hcond
  · -- the threads are refused
    right; left
    obtain ⟨e, he, hcode⟩ := ht
    have hall : checkResources rpc limitPercent p = checkThreads rpc limitPercent p := by
      rw [checkResources, he]
    rw [hall]
    exact ⟨hcond.1, hcond.2, hnone, e, he, hcode⟩
  · have hall : checkResources rpc limitPercent p = checkOpenFiles rpc limitPercent p := by
      rw [checkResources, ht]
      dsimp only
      rw [hnone, List.nil_append]
    rw [hall]
    by_cases hleft : p.descriptors.length < p.hardLimit
    · right; right
      rw [if_pos hleft] at hf
      exact ⟨hleft, not_lt.mp fun h => hcond ⟨hleft, h⟩, hf⟩
    · left
      rw [if_neg hleft] at hf
      exact ⟨not_lt.mp hleft, hf⟩

end Measures

/-! ### The gate of `create` -/

section Gate
variable {σ : Type} (rpc : JsonRpc) (limitPercent : ℕ → ℕ) (core : Core σ) (process : σ → Process)

/-- `calls` counts the calls of `createObject`, and looking for a factory changes neither
the count nor the process. -/
structure Counts (calls : σ → ℕ) : Prop where
  getFactory_calls : ∀ type st, calls (core.getFactory type st).2 = calls st
  getFactory_process : ∀ type st, process (core.getFactory type st).2 = process st
  createObject : ∀ factory s constructorParams st,
    calls (core.createObject factory s constructorParams st).2 = calls st + 1

def Within (p : Process) : Prop :=
  p.threads ≤ limitPercent p.maxThreads ∧ p.descriptors.length ≤ limitPercent p.maxOpenFiles

/-- `create` calls `createObject` within the limits, and otherwise throws that there are
not enough resources. -/
structure Gates (calls : σ → ℕ) (params : Json) (st : σ) (n : ℕ) : Prop where
  within : Within limitPercent (process st) →
    calls (create rpc (withResources rpc limitPercent core process) params st n).2.1 = calls st + 1
  beyond : ¬ Within limitPercent (process st) →
    calls (create rpc (withResources rpc limitPercent core process) params st n).2.1 = calls st ∧
    ∃ e, (create rpc (withResources rpc limitPercent core process) params st n).1 =
      .error (.call e) ∧ e.code = .notEnoughResources

/-- The checks meet no null pointer, and count descriptors only that were open before. -/
structure Clean (p : Process) : Prop where
  noFault : ∀ f, (checkResources rpc limitPercent p).result ≠ .error (.fault f)
  counted : ∀ entry ∈ (checkResources rpc limitPercent p).counted,
    ∃ d ∈ p.descriptors, entry = toString d

structure GateLaw (calls : σ → ℕ) (params : Json) (st : σ) (n : ℕ) : Prop where
  gates : Gates rpc limitPercent core process calls params st n
  clean : Clean rpc limitPercent (process st)

def caught : Exc → Exc
  | .kurento e => .call e.toCall
  | e => e

variable {rpc limitPercent core process} {calls : σ → ℕ} {params : Json} {st : σ} {n : ℕ}
  {type : String} {factory : core.Factory}

theorem isRecord_of_text? {v : Json} {name s : String} (h : rpc.text? v name = some s) :
    v.isRecord = true ∧ v.isNull = false := by
  obtain ⟨m, hm, -⟩ := Option.bind_eq_some_iff.mp h
  refine ⟨Json.isRecord_of_member? hm, ?_⟩
  cases v <;> first | rfl | simp [Json.member?] at hm

variable (rpc) in
theorem getOrCreateSessionId_of_record (media : Core σ) (st : σ) (n : ℕ)
    (h : params.isRecord = true) :
    ∃ r k, getOrCreateSessionId rpc media params st n = (.ok r, st, k) := by
  rw [getOrCreateSessionId, rpc.getStringValue_of_record "sessionId" h]
  cases rpc.text? params "sessionId" with
  | some s => exact ⟨_, _, rfl⟩
  | none => exact ⟨_, _, rfl⟩

/-- The calls that `create` makes end with the exception of the check, or as `createObject`
does. -/
theorem createObject_eq (hrec : params.isRecord = true)
    (hfactory : (core.getFactory type st).1 = .ok factory) (s : String) :
    createObject (withResources rpc limitPercent core process) type s params st n =
      match (checkResources rpc limitPercent (process (core.getFactory type st).2)).toExc with
      | .error e => (.error e, (core.getFactory type st).2, n)
      | .ok () =>
        let made := core.createObject factory s ((params.member? "constructorParams").getD .null)
          (core.getFactory type st).2
        (made.1, made.2, n) := by
  have hget : params.get "constructorParams" =
      .ok ((params.member? "constructorParams").getD .null) := by
    rcases (Json.isRecord_iff params).mp hrec with rfl | ⟨ms, rfl⟩ <;> rfl
  rw [createObject, hget]
  rcases hg : core.getFactory type st with ⟨x, st'⟩
  obtain rfl : x = .ok factory := by rw [hg] at hfactory; exact hfactory
  simp only [bind, Supply.onState, withResources, hg]
  rcases (checkResources rpc limitPercent (process st')).toExc with e | u
  · rfl
  · rfl

variable (rpc limitPercent process n) in
theorem create_eq (htype : rpc.text? params "type" = some type)
    (hfactory : (core.getFactory type st).1 = .ok factory) :
    match (checkResources rpc limitPercent (process (core.getFactory type st).2)).toExc with
    | .error e => (create rpc (withResources rpc limitPercent core process) params st n).1 =
        .error (caught e) ∧
      (create rpc (withResources rpc limitPercent core process) params st n).2.1 =
        (core.getFactory type st).2
    | .ok () => ∃ s constructorParams,
      (create rpc (withResources rpc limitPercent core process) params st n).2.1 =
        (core.createObject factory s constructorParams (core.getFactory type st).2).2 := by
  obtain ⟨hrec, hnull⟩ := isRecord_of_text? htype
  obtain ⟨⟨s, b⟩, k, hs⟩ := getOrCreateSessionId_of_record rpc
    (withResources rpc limitPercent core process) st n hrec
  have hreq : requireParams params = .ok () := by
    rw [requireParams, if_neg (by simp [hnull])]
    rfl
  have htyp : rpc.getStringValue params "type" = .ok type := rpc.getStringValue_eq_ok.mpr htype
  have hcreate : create rpc (withResources rpc limitPercent core process) params st n =
      (catchKurento (createObject (withResources rpc limitPercent core process) type s params) >>=
        fun id => pure (.object [("value", .str id), ("sessionId", .str s)])) st k := by
    rw [create, hreq, htyp]
    show ((getOrCreateSessionId rpc (withResources rpc limitPercent core process) params) >>= _) st n = _
    simp only [bind, hs]
  rw [hcreate]
  simp only [bind, catchKurento, tryCatch, tryCatchThe, MonadExceptOf.tryCatch,
    createObject_eq hrec hfactory]
  rcases (checkResources rpc limitPercent (process (core.getFactory type st).2)).toExc with e | u
  · cases e <;> exact ⟨rfl, rfl⟩
  · refine ⟨s, (params.member? "constructorParams").getD .null, ?_⟩
    rcases core.createObject factory s ((params.member? "constructorParams").getD .null)
      (core.getFactory type st).2 with ⟨e | id, st'⟩
    · cases e <;> rfl
    · rfl

/-! ### When the gate is sound -/

section Law
variable (hcounts : Counts core process calls) (htype : rpc.text? params "type" = some type)
  (hfactory : (core.getFactory type st).1 = .ok factory)
include hcounts htype hfactory

theorem calls_of_ok (h : (checkResources rpc limitPercent (process st)).result = .ok ()) :
    calls (create rpc (withResources rpc limitPercent core process) params st n).2.1 =
      calls st + 1 := by
  have hcreate := create_eq rpc limitPercent process n htype hfactory
  rw [hcounts.getFactory_process, Check.toExc, h] at hcreate
  obtain ⟨s, constructorParams, hst⟩ := hcreate
  rw [hst, hcounts.createObject, hcounts.getFactory_calls]

theorem calls_of_refusal
    (h : IsRefusal (checkResources rpc limitPercent (process st)).result) :
    calls (create rpc (withResources rpc limitPercent core process) params st n).2.1 = calls st ∧
    ∃ e, (create rpc (withResources rpc limitPercent core process) params st n).1 =
      .error (.call e) ∧ e.code = .notEnoughResources := by
  obtain ⟨e, he, hcode⟩ := h
  have hcreate := create_eq rpc limitPercent process n htype hfactory
  rw [hcounts.getFactory_process, Check.toExc, he] at hcreate
  obtain ⟨hr, hst⟩ := hcreate
  rw [hst, hcounts.getFactory_calls]
  exact ⟨rfl, e.toCall, hr, hcode⟩

theorem calls_of_fault {f : Fault}
    (h : (checkResources rpc limitPercent (process st)).result = .error (.fault f)) :
    calls (create rpc (withResources rpc limitPercent core process) params st n).2.1 = calls st ∧
    (create rpc (withResources rpc limitPercent core process) params st n).1 = .error .unknown := by
  have hcreate := create_eq rpc limitPercent process n htype hfactory
  rw [hcounts.getFactory_process, Check.toExc, h] at hcreate
  obtain ⟨hr, hst⟩ := hcreate
  rw [hst, hcounts.getFactory_calls]
  exact ⟨rfl, hr⟩

variable (hthreads : Checked (process st).maxThreads) (hfiles : Checked (process st).maxOpenFiles)
include hthreads hfiles

/-- The answer alone is right in more states: a descriptor is left, and the threads, or
the files with or without the three entries, are on the same side of their limit. -/
theorem gates_iff : Gates rpc limitPercent core process calls params st n ↔
    (process st).descriptors.length < (process st).hardLimit ∧
      (limitPercent (process st).maxThreads < (process st).threads ∨
        limitPercent (process st).maxOpenFiles < (process st).descriptors.length ∨
        (process st).descriptors.length + 3 ≤ limitPercent (process st).maxOpenFiles) := by
  rcases checkResources_cases rpc limitPercent hthreads hfiles with
    ⟨hleft, hr⟩ | ⟨hleft, ht, -, hr⟩ | ⟨hleft, ht, -, hr⟩
  · obtain ⟨hcalls, hexc⟩ := calls_of_fault (n := n) hcounts htype hfactory hr
    constructor
    · intro h
      by_cases hw : Within limitPercent (process st)
      · have := h.within hw
        omega
      · obtain ⟨-, e, he, -⟩ := h.beyond hw
        rw [hexc] at he
        cases he
    · rintro ⟨hlt, -⟩
      omega
  · have hrefused := calls_of_refusal (n := n) hcounts htype hfactory hr
    refine iff_of_true ⟨fun hw => absurd hw.1 (by omega), fun _ => hrefused⟩ ⟨hleft, Or.inl ht⟩
  · split_ifs at hr with hmore
    · have hrefused := calls_of_refusal (n := n) hcounts htype hfactory hr
      constructor
      · intro h
        refine ⟨hleft, Or.inr (Or.inl ?_)⟩
        by_contra hle
        have := h.within ⟨ht, not_lt.mp hle⟩
        omega
      · intro h
        refine ⟨fun hw => ?_, fun _ => hrefused⟩
        have := hw.2
        omega
    · have hmade := calls_of_ok (n := n) hcounts htype hfactory hr
      refine iff_of_true ⟨fun _ => hmade, fun hw => absurd ⟨ht, by omega⟩ hw⟩
        ⟨hleft, Or.inr (Or.inr (by omega))⟩

/-- The whole promise is kept only where the files are not counted: the threads are
beyond their limit, and there is a descriptor left to count them. -/
theorem gateLaw_iff : GateLaw rpc limitPercent core process calls params st n ↔
    (process st).descriptors.length < (process st).hardLimit ∧
      limitPercent (process st).maxThreads < (process st).threads := by
  rcases checkResources_cases rpc limitPercent hthreads hfiles with
    ⟨hleft, hr⟩ | ⟨hleft, ht, hnone, hr⟩ | ⟨hleft, ht, hdot, hr⟩
  · refine iff_of_false (fun h => h.clean.noFault _ hr) fun h => ?_
    omega
  · have hrefused := calls_of_refusal (n := n) hcounts htype hfactory hr
    refine iff_of_true ⟨⟨fun hw => absurd hw.1 (by omega), fun _ => hrefused⟩, ?_, ?_⟩ ⟨hleft, ht⟩
    · obtain ⟨e, he, -⟩ := hr
      rw [he]
      simp
    · rw [hnone]
      simp
  · refine iff_of_false (fun h => ?_) fun h => absurd h.2 (by omega)
    -- the entry of the directory itself is none of a descriptor
    obtain ⟨d, -, hd⟩ := h.clean.counted "." hdot
    have hm : '.' ∈ (toString d).toList := hd ▸ (by decide)
    exact absurd (isDigit_of_mem_toString hm) (by decide)

end Law

end Gate

/-! ### A server -/

/-- The server with 17 threads and `f` open files. -/
def serverProcess (maxThreads f : ℕ) (h : f ≤ 1000) : Process where
  stat := statLine 1 "kurento-media-s".toList (.letter 'S' rfl :: List.replicate 16 (.number 0) ++
    .number 17 :: List.replicate 32 (.number 0))
  threads := 17
  stat_threads := getNumberOfThreads_of_notMem (by decide) 1 rfl rfl (by decide) (by decide)
  threads_lt := by decide
  descriptors := List.range f
  descriptors_nodup := List.nodup_range
  hardLimit := 1000
  descriptors_le := by rwa [List.length_range]
  hardLimit_le := by decide
  maxThreads := maxThreads
  maxOpenFiles := 1000

def eightyPercent (limit : ℕ) : ℕ := limit * 4 / 5

theorem counts_counting (p : Process) : Counts Core.counting (fun _ => p) id :=
  ⟨fun _ _ => rfl, fun _ _ => rfl, fun _ _ _ _ => rfl⟩

/-- 17 of 20 threads are too many. -/
theorem gateLaw_iff_threads :
    GateLaw JsonRpc.plain eightyPercent Core.counting (fun _ => serverProcess 20 100 (by decide)) id
      (.obj [("type", .str "MediaPipeline")]) 0 0 :=
  (gateLaw_iff (counts_counting _) rfl rfl (by decide) (by decide)).mpr
    ⟨by simp [serverProcess], by decide⟩

/-- With 798 files open, 800 being the limit, no object is made. -/
theorem not_gateLaw : ¬ ∀ p : Process, Checked p.maxThreads → Checked p.maxOpenFiles →
    GateLaw JsonRpc.plain eightyPercent Core.counting (fun _ => p) id
      (.obj [("type", .str "MediaPipeline")]) 0 0 := by
  intro h
  have hgates := (h (serverProcess 1000 798 (by decide)) (by decide) (by decide)).gates
  have hmargin := ((gates_iff (counts_counting _) rfl rfl (by decide) (by decide)).mp hgates).2
  simp only [serverProcess, eightyPercent, List.length_range] at hmargin
  omega

end KurentoMediaServer.Resources
