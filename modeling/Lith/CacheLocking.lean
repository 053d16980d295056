import Lith.HttpRouter
import Lith.RwLock
import Lith.TransitionSystem

/-!
# The cache lock around a cached answer

The branch of `handle_http_route` that serves from the cache, with the lookup
and the reload it calls, as one program of every worker.  The lookup keeps the
read lock on a hit only; a stale entry makes the worker drop it, reload under
the write lock and take the read lock again before the header and the body
are sent.  A reload writes the fields of the entry one after the other.  The
versions of an entry are a record of what was ever loaded into it.  Without
interruption the program does what `serveFile` says in one piece.
-/

namespace Lith

open CString

inductive SwapStage where
  | content
  | newContent
  | size
  | lastModified
  deriving DecidableEq

/-- Where a worker is in `handle_http_route`; `outside` is before and after. -/
inductive RoutePc where
  | outside
  | lookup (req : HttpRequest) (path : Bytes)
  | scan (req : HttpRequest) (path : Bytes)
  | missed (req : HttpRequest) (path : Bytes)
  | disk (req : HttpRequest) (path : Bytes)
  | stat (req : HttpRequest) (idx : Fin maxCacheEntries)
  | compare (req : HttpRequest) (idx : Fin maxCacheEntries) (st : Stat)
  | stale (req : HttpRequest) (idx : Fin maxCacheEntries)
  | wrlock (req : HttpRequest) (idx : Fin maxCacheEntries)
  | reload (req : HttpRequest) (idx : Fin maxCacheEntries)
  | swap (req : HttpRequest) (idx : Fin maxCacheEntries) (fresh : CacheEntry)
      (stage : SwapStage)
  | reloaded (req : HttpRequest) (idx : Fin maxCacheEntries)
  | rdlock (req : HttpRequest) (idx : Fin maxCacheEntries)
  | header (req : HttpRequest) (idx : Fin maxCacheEntries)
  | body (req : HttpRequest) (idx : Fin maxCacheEntries) (header : Bytes)
  | served

namespace RoutePc

def mode : RoutePc → LockMode
  | outside | lookup _ _ | disk _ _ | wrlock _ _ | rdlock _ _ => .free
  | scan _ _ | missed _ _ | stat _ _ | compare _ _ _ | stale _ _ | header _ _
  | body _ _ _ | served => .shared
  | reload _ _ | swap _ _ _ _ | reloaded _ _ => .exclusive

def Requests : RoutePc → Prop
  | lookup _ _ | wrlock _ _ | rdlock _ _ => True
  | _ => False

def Releases : RoutePc → Prop
  | missed _ _ | stale _ _ | reloaded _ _ | served => True
  | _ => False

def Reloads : RoutePc → Prop
  | reload _ _ | swap _ _ _ _ => True
  | _ => False

def Swaps (idx : Fin maxCacheEntries) : RoutePc → Prop
  | swap _ slot _ _ => slot = idx
  | _ => False

end RoutePc

structure CachedAnswer where
  req : HttpRequest
  idx : Fin maxCacheEntries
  response : HttpResponse

structure LockingState (Worker : Type*) where
  lock : RwLock Worker
  cache : LithCache
  pcs : Worker → RoutePc
  versions : Fin maxCacheEntries → List CacheEntry
  answers : List CachedAnswer

namespace LockingState

variable {Worker : Type*} [DecidableEq Worker]

def goto (state : LockingState Worker) (worker : Worker) (pc : RoutePc) :
    LockingState Worker :=
  { state with pcs := Function.update state.pcs worker pc }

def write (state : LockingState Worker) (idx : Fin maxCacheEntries)
    (entry : CacheEntry) : LockingState Worker :=
  { state with cache := state.cache.setEntry idx entry }

def commit (state : LockingState Worker) (idx : Fin maxCacheEntries)
    (version : CacheEntry) : LockingState Worker :=
  { state with
    versions := Function.update state.versions idx
      (state.versions idx ++ [version]) }

end LockingState

/-- One step of one worker.  What the file system answers is arbitrary. -/
inductive LockingStep {Worker : Type*} [DecidableEq Worker] :
    LockingState Worker → Worker → LockingState Worker → Prop where
  | enter (state : LockingState Worker) (worker : Worker) (req : HttpRequest)
      (path : Bytes) (hpc : state.pcs worker = .outside) :
      LockingStep state worker (state.goto worker (.lookup req path))
  | lookupLock (state : LockingState Worker) (worker : Worker)
      (req : HttpRequest) (path : Bytes)
      (hpc : state.pcs worker = .lookup req path)
      (havailable : state.lock.writer = none) :
      LockingStep state worker
        { state.goto worker (.scan req path) with
          lock := state.lock.rdlock worker }
  | scanMiss (state : LockingState Worker) (worker : Worker)
      (req : HttpRequest) (path : Bytes)
      (hpc : state.pcs worker = .scan req path)
      (hmiss : lithCacheLookup state.cache path = none) :
      LockingStep state worker (state.goto worker (.missed req path))
  | scanHit (state : LockingState Worker) (worker : Worker)
      (req : HttpRequest) (path : Bytes) (idx : Fin maxCacheEntries)
      (hpc : state.pcs worker = .scan req path)
      (hhit : lithCacheLookup state.cache path = some idx) :
      LockingStep state worker (state.goto worker (.stat req idx))
  | missUnlock (state : LockingState Worker) (worker : Worker)
      (req : HttpRequest) (path : Bytes)
      (hpc : state.pcs worker = .missed req path) :
      LockingStep state worker
        { state.goto worker (.disk req path) with
          lock := state.lock.unlock worker }
  | diskAnswer (state : LockingState Worker) (worker : Worker)
      (req : HttpRequest) (path : Bytes)
      (hpc : state.pcs worker = .disk req path) :
      LockingStep state worker (state.goto worker .outside)
  | statFails (state : LockingState Worker) (worker : Worker)
      (req : HttpRequest) (idx : Fin maxCacheEntries)
      (hpc : state.pcs worker = .stat req idx) :
      LockingStep state worker (state.goto worker (.header req idx))
  | statAnswers (state : LockingState Worker) (worker : Worker)
      (req : HttpRequest) (idx : Fin maxCacheEntries) (st : Stat)
      (hpc : state.pcs worker = .stat req idx) :
      LockingStep state worker (state.goto worker (.compare req idx st))
  | compareFresh (state : LockingState Worker) (worker : Worker)
      (req : HttpRequest) (idx : Fin maxCacheEntries) (st : Stat)
      (hpc : state.pcs worker = .compare req idx st)
      (hfresh : ¬(state.cache.entries idx).lastModified < st.mtime) :
      LockingStep state worker (state.goto worker (.header req idx))
  | compareStale (state : LockingState Worker) (worker : Worker)
      (req : HttpRequest) (idx : Fin maxCacheEntries) (st : Stat)
      (hpc : state.pcs worker = .compare req idx st)
      (hstale : (state.cache.entries idx).lastModified < st.mtime) :
      LockingStep state worker (state.goto worker (.stale req idx))
  | staleUnlock (state : LockingState Worker) (worker : Worker)
      (req : HttpRequest) (idx : Fin maxCacheEntries)
      (hpc : state.pcs worker = .stale req idx) :
      LockingStep state worker
        { state.goto worker (.wrlock req idx) with
          lock := state.lock.unlock worker }
  | writeLock (state : LockingState Worker) (worker : Worker)
      (req : HttpRequest) (idx : Fin maxCacheEntries)
      (hpc : state.pcs worker = .wrlock req idx)
      (havailable : state.lock.writer = none)
      (hreaders : state.lock.readers = []) :
      LockingStep state worker
        { state.goto worker (.reload req idx) with
          lock := state.lock.wrlock worker }
  | reloadFails (state : LockingState Worker) (worker : Worker)
      (req : HttpRequest) (idx : Fin maxCacheEntries) (io : FileAccess)
      (hpc : state.pcs worker = .reload req idx)
      (hfails : (lithCacheHotReload (state.cache.entries idx) io).1 = false) :
      LockingStep state worker (state.goto worker (.reloaded req idx))
  | reloadLoads (state : LockingState Worker) (worker : Worker)
      (req : HttpRequest) (idx : Fin maxCacheEntries) (io : FileAccess)
      (hpc : state.pcs worker = .reload req idx)
      (hloads : (lithCacheHotReload (state.cache.entries idx) io).1 = true) :
      LockingStep state worker
        (state.goto worker (.swap req idx
          (lithCacheHotReload (state.cache.entries idx) io).2 .content))
  | freeContent (state : LockingState Worker) (worker : Worker)
      (req : HttpRequest) (idx : Fin maxCacheEntries) (fresh : CacheEntry)
      (hpc : state.pcs worker = .swap req idx fresh .content) :
      LockingStep state worker
        ((state.write idx { state.cache.entries idx with content := none }).goto
          worker (.swap req idx fresh .newContent))
  | setContent (state : LockingState Worker) (worker : Worker)
      (req : HttpRequest) (idx : Fin maxCacheEntries) (fresh : CacheEntry)
      (hpc : state.pcs worker = .swap req idx fresh .newContent) :
      LockingStep state worker
        ((state.write idx
          { state.cache.entries idx with content := fresh.content }).goto
          worker (.swap req idx fresh .size))
  | setSize (state : LockingState Worker) (worker : Worker)
      (req : HttpRequest) (idx : Fin maxCacheEntries) (fresh : CacheEntry)
      (hpc : state.pcs worker = .swap req idx fresh .size) :
      LockingStep state worker
        ((state.write idx
          { state.cache.entries idx with size := fresh.size }).goto
          worker (.swap req idx fresh .lastModified))
  | setLastModified (state : LockingState Worker) (worker : Worker)
      (req : HttpRequest) (idx : Fin maxCacheEntries) (fresh : CacheEntry)
      (hpc : state.pcs worker = .swap req idx fresh .lastModified) :
      LockingStep state worker
        (((state.write idx
          { state.cache.entries idx with
            lastModified := fresh.lastModified }).commit idx fresh).goto
          worker (.reloaded req idx))
  | writeUnlock (state : LockingState Worker) (worker : Worker)
      (req : HttpRequest) (idx : Fin maxCacheEntries)
      (hpc : state.pcs worker = .reloaded req idx) :
      LockingStep state worker
        { state.goto worker (.rdlock req idx) with
          lock := state.lock.unlock worker }
  | readLock (state : LockingState Worker) (worker : Worker)
      (req : HttpRequest) (idx : Fin maxCacheEntries)
      (hpc : state.pcs worker = .rdlock req idx)
      (havailable : state.lock.writer = none) :
      LockingStep state worker
        { state.goto worker (.header req idx) with
          lock := state.lock.rdlock worker }
  | writeHeader (state : LockingState Worker) (worker : Worker)
      (req : HttpRequest) (idx : Fin maxCacheEntries)
      (hpc : state.pcs worker = .header req idx) :
      LockingStep state worker
        (state.goto worker (.body req idx
          (cachedResponse req (state.cache.entries idx)).header))
  | writeBody (state : LockingState Worker) (worker : Worker)
      (req : HttpRequest) (idx : Fin maxCacheEntries) (header : Bytes)
      (hpc : state.pcs worker = .body req idx header) :
      LockingStep state worker
        { state.goto worker .served with
          answers := state.answers ++ [{
            req := req
            idx := idx
            response := {
              status := 200
              header := header
              body := (cachedResponse req (state.cache.entries idx)).body } }] }
  | servedUnlock (state : LockingState Worker) (worker : Worker)
      (hpc : state.pcs worker = .served) :
      LockingStep state worker
        { state.goto worker .outside with lock := state.lock.unlock worker }

/-- Any number of workers, any cache, no request in progress at the start. -/
def lockingSystem (Worker : Type*) [DecidableEq Worker] :
    TransitionSystem (LockingState Worker) Worker where
  start := fun state =>
    state.lock = RwLock.unlocked ∧ (∀ worker, state.pcs worker = .outside) ∧
      (∀ idx, state.versions idx = [state.cache.entries idx]) ∧
      state.answers = []
  step := LockingStep

/-- What the callers of the cache are promised in every state. -/
structure LockDiscipline {Worker : Type*} (state : LockingState Worker) :
    Prop where
  reloadExclusive : ∀ worker, (state.pcs worker).Reloads →
    state.lock.writer = some worker ∧
      ∀ other, state.lock.Holds other → other = worker
  requestsFree : ∀ worker, (state.pcs worker).Requests →
    ¬state.lock.Holds worker
  releasesHeld : ∀ worker, (state.pcs worker).Releases →
    state.lock.Holds worker
  leavesFree : ∀ worker, state.pcs worker = .outside →
    ¬state.lock.Holds worker
  oneVersion : ∀ answer ∈ state.answers,
    ∃ version ∈ state.versions answer.idx,
      answer.response = cachedResponse answer.req version

/-! ## What the program points know -/

/-- What a worker relies on while it holds a lock: the header it has sent is
that of the entry, and the fields it has not yet written are the only ones in
which the entry differs from the version it has loaded. -/
def RoutePc.Knows (cache : LithCache) : RoutePc → Prop
  | .body req idx sent =>
      sent = (cachedResponse req (cache.entries idx)).header
  | .swap _ idx fresh .content | .swap _ idx fresh .newContent =>
      fresh = { cache.entries idx with
        content := fresh.content
        size := fresh.size
        lastModified := fresh.lastModified }
  | .swap _ idx fresh .size =>
      fresh = { cache.entries idx with
        size := fresh.size
        lastModified := fresh.lastModified }
  | .swap _ idx fresh .lastModified =>
      fresh = { cache.entries idx with lastModified := fresh.lastModified }
  | _ => True

theorem RoutePc.knows_of_free {pc : RoutePc} (hfree : pc.mode = .free)
    (cache : LithCache) : pc.Knows cache := by
  cases pc <;> trivial

theorem RoutePc.mode_of_swaps {pc : RoutePc} {idx : Fin maxCacheEntries}
    (hswaps : pc.Swaps idx) : pc.mode = .exclusive := by
  cases pc <;> trivial

section Steps

variable {Worker : Type*} {state : LockingState Worker} {worker : Worker}
  {idx : Fin maxCacheEntries}

structure LockingState.Inv (state : LockingState Worker) : Prop where
  agrees : state.lock.Agrees fun worker => (state.pcs worker).mode
  settled : ∀ idx, (∀ worker, ¬(state.pcs worker).Swaps idx) →
    state.cache.entries idx ∈ state.versions idx
  knows : ∀ worker, (state.pcs worker).Knows state.cache
  answers : ∀ answer ∈ state.answers,
    ∃ version ∈ state.versions answer.idx,
      answer.response = cachedResponse answer.req version

theorem LockingState.Inv.free_of_exclusive (hinv : state.Inv)
    (hmode : (state.pcs worker).mode = .exclusive) {other : Worker}
    (hother : other ≠ worker) : (state.pcs other).mode = .free := by
  by_contra hheld
  exact hother (hinv.agrees.eq_of_exclusive hmode hheld)

theorem LockingState.Inv.answer (hinv : state.Inv) {req : HttpRequest}
    {header : Bytes} (hpc : state.pcs worker = .body req idx header) :
    ∃ version ∈ state.versions idx,
      HttpResponse.mk 200 header
          (cachedResponse req (state.cache.entries idx)).body =
        cachedResponse req version := by
  have hheader : header =
      (cachedResponse req (state.cache.entries idx)).header := by
    have hknows := hinv.knows worker
    rw [hpc] at hknows
    exact hknows
  refine ⟨state.cache.entries idx, ?_, ?_⟩
  · apply hinv.settled
    intro other hswaps
    have hwrites : (state.pcs other).mode = .exclusive :=
      RoutePc.mode_of_swaps hswaps
    have hreads : (state.pcs worker).mode = .shared := by
      rw [hpc]
      rfl
    have hsame : worker = other := by
      apply hinv.agrees.eq_of_exclusive hwrites
      simp [hreads]
    rw [hsame, hwrites] at hreads
    simp at hreads
  · rw [hheader]
    simp only [cachedResponse]

theorem LockingState.Inv.discipline (hinv : state.Inv) :
    LockDiscipline state where
  reloadExclusive := by
    intro worker hreloads
    have hmode : (state.pcs worker).mode = .exclusive := by
      cases hpc : state.pcs worker <;> rw [hpc] at hreloads <;> trivial
    refine ⟨(hinv.agrees.exclusive worker).mpr hmode, ?_⟩
    intro other hholds
    apply hinv.agrees.eq_of_exclusive hmode
    exact (hinv.agrees.holds_iff other).mp hholds
  requestsFree := by
    intro worker hrequests hholds
    apply (hinv.agrees.holds_iff worker).mp hholds
    cases hpc : state.pcs worker <;> rw [hpc] at hrequests <;> trivial
  releasesHeld := by
    intro worker hreleases
    rw [hinv.agrees.holds_iff]
    cases hpc : state.pcs worker <;> rw [hpc] at hreleases <;>
      first | trivial | simp [RoutePc.mode]
  leavesFree := by
    intro worker hpc hholds
    apply (hinv.agrees.holds_iff worker).mp hholds
    rw [hpc]
    rfl
  oneVersion := hinv.answers

variable [DecidableEq Worker]

theorem mode_update (pcs : Worker → RoutePc) (worker : Worker) (pc : RoutePc) :
    (fun other => (Function.update pcs worker pc other).mode) =
      Function.update (fun other => (pcs other).mode) worker pc.mode := by
  funext other
  by_cases hother : other = worker
  · simp [hother]
  · simp [hother]

/-- A step that writes no entry keeps the invariant if it keeps the lock in
order and the worker knows what its new program point asks for. -/
theorem LockingState.Inv.move (hinv : state.Inv) {lock : RwLock Worker}
    {before pc : RoutePc} (hpc : state.pcs worker = before)
    (hlock : lock.Agrees
      (Function.update (fun other => (state.pcs other).mode) worker pc.mode))
    (hswaps : ∀ idx, ¬before.Swaps idx) (hknows : pc.Knows state.cache) :
    LockingState.Inv { state.goto worker pc with lock := lock } where
  agrees := by
    simp only [LockingState.goto, mode_update]
    exact hlock
  settled := by
    intro idx hnone
    apply hinv.settled
    intro other
    by_cases hother : other = worker
    · rw [hother, hpc]
      exact hswaps idx
    · have hsame := hnone other
      simpa [LockingState.goto, hother] using hsame
  knows := by
    intro other
    by_cases hother : other = worker
    · simpa [LockingState.goto, hother] using hknows
    · simpa [LockingState.goto, hother] using hinv.knows other
  answers := hinv.answers

theorem LockingState.Inv.goto (hinv : state.Inv) {before pc : RoutePc}
    (hpc : state.pcs worker = before) (hmode : before.mode = pc.mode)
    (hswaps : ∀ idx, ¬before.Swaps idx) (hknows : pc.Knows state.cache) :
    (state.goto worker pc).Inv := by
  apply hinv.move hpc _ hswaps hknows
  apply hinv.agrees.update_same
  rw [hpc, hmode]

theorem LockingState.Inv.knows_write (hinv : state.Inv)
    (hmode : (state.pcs worker).mode = .exclusive) {pc : RoutePc}
    {entry : CacheEntry} (hknows : pc.Knows (state.cache.setEntry idx entry))
    (other : Worker) :
    (Function.update state.pcs worker pc other).Knows
      (state.cache.setEntry idx entry) := by
  by_cases hother : other = worker
  · rw [hother, Function.update_self]
    exact hknows
  · rw [Function.update_of_ne hother]
    exact RoutePc.knows_of_free (hinv.free_of_exclusive hmode hother) _

theorem LockingState.Inv.agrees_write (hinv : state.Inv) {pc : RoutePc}
    (hmode : (state.pcs worker).mode = pc.mode) :
    state.lock.Agrees fun other =>
      (Function.update state.pcs worker pc other).mode := by
  rw [mode_update]
  exact hinv.agrees.update_same hmode

theorem LockingState.Inv.write (hinv : state.Inv) {req : HttpRequest}
    {fresh entry : CacheEntry} {stage next : SwapStage}
    (hpc : state.pcs worker = .swap req idx fresh stage)
    (hknows : (RoutePc.swap req idx fresh next).Knows
      (state.cache.setEntry idx entry)) :
    ((state.write idx entry).goto worker (.swap req idx fresh next)).Inv where
  agrees := hinv.agrees_write (by rw [hpc]; rfl)
  settled := by
    intro slot hnone
    have hslot : slot ≠ idx := by
      intro heq
      apply hnone worker
      simp [LockingState.goto, RoutePc.Swaps, heq]
    have hbefore : state.cache.entries slot ∈ state.versions slot := by
      apply hinv.settled
      intro other
      by_cases hother : other = worker
      · rw [hother, hpc]
        exact fun heq => hslot heq.symm
      · have hsame := hnone other
        simpa [LockingState.goto, LockingState.write, hother] using hsame
    simpa [LockingState.goto, LockingState.write, LithCache.setEntry, hslot]
      using hbefore
  knows := hinv.knows_write (by rw [hpc]; rfl) hknows
  answers := hinv.answers

theorem mem_versions_commit {versions : Fin maxCacheEntries → List CacheEntry}
    {entry version : CacheEntry} {slot : Fin maxCacheEntries}
    (hmem : entry ∈ versions slot) :
    entry ∈ Function.update versions idx (versions idx ++ [version]) slot := by
  by_cases hslot : slot = idx
  · subst hslot
    simp [hmem]
  · simpa [hslot] using hmem

theorem LockingState.Inv.commit (hinv : state.Inv) {req : HttpRequest}
    {fresh : CacheEntry}
    (hpc : state.pcs worker = .swap req idx fresh .lastModified) :
    (((state.write idx { state.cache.entries idx with
      lastModified := fresh.lastModified }).commit idx fresh).goto
        worker (.reloaded req idx)).Inv where
  agrees := hinv.agrees_write (by rw [hpc]; rfl)
  settled := by
    have hfresh : fresh = { state.cache.entries idx with
        lastModified := fresh.lastModified } := by
      have hknows := hinv.knows worker
      rw [hpc] at hknows
      exact hknows
    intro slot hnone
    by_cases hslot : slot = idx
    · subst hslot
      simp only [LockingState.goto, LockingState.write, LockingState.commit,
        LithCache.setEntry, Function.update_self, List.mem_append,
        List.mem_singleton]
      exact Or.inr hfresh.symm
    · have hbefore : state.cache.entries slot ∈ state.versions slot := by
        apply hinv.settled
        intro other
        by_cases hother : other = worker
        · rw [hother, hpc]
          exact fun heq => hslot heq.symm
        · have hsame := hnone other
          simpa [LockingState.goto, LockingState.write, LockingState.commit,
            hother] using hsame
      simpa [LockingState.goto, LockingState.write, LockingState.commit,
        LithCache.setEntry, hslot] using hbefore
  knows := hinv.knows_write (by rw [hpc]; rfl) trivial
  answers := by
    intro answer hanswer
    obtain ⟨version, hversion, hsame⟩ := hinv.answers answer hanswer
    exact ⟨version, mem_versions_commit hversion, hsame⟩

theorem LockingState.Inv.served (hinv : state.Inv) {req : HttpRequest}
    {header : Bytes} (hpc : state.pcs worker = .body req idx header) :
    LockingState.Inv
      { state.goto worker .served with
        answers := state.answers ++ [{
          req := req
          idx := idx
          response := {
            status := 200
            header := header
            body := (cachedResponse req (state.cache.entries idx)).body } }] } := by
  have hmoved : (state.goto worker .served).Inv :=
    hinv.goto hpc rfl (fun _ => id) trivial
  refine ⟨hmoved.agrees, hmoved.settled, hmoved.knows, ?_⟩
  intro answer hanswer
  rcases List.mem_append.mp hanswer with hold | hnew
  · exact hinv.answers answer hold
  · rw [List.mem_singleton] at hnew
    subst hnew
    exact hinv.answer hpc

theorem lithCacheHotReload_fresh {entry : CacheEntry} {io : FileAccess}
    (hloads : (lithCacheHotReload entry io).1 = true) :
    (lithCacheHotReload entry io).2 = { entry with
      content := (lithCacheHotReload entry io).2.content
      size := (lithCacheHotReload entry io).2.size
      lastModified := (lithCacheHotReload entry io).2.lastModified } := by
  rcases lithCacheHotReload_cases entry io with h | ⟨_, _, -, -, -, h⟩
  · simp [h] at hloads
  · rw [h]

theorem LockingState.Inv.step {after : LockingState Worker} (hinv : state.Inv)
    (hstep : LockingStep state worker after) : after.Inv := by
  have hagrees := hinv.agrees
  -- The locking steps leave the entries alone, the writing steps the lock.
  cases hstep with
  | enter req path hpc =>
      exact hinv.goto hpc rfl (fun _ => id) trivial
  | lookupLock req path hpc havailable =>
      exact hinv.move hpc
        (hagrees.rdlock (congrArg RoutePc.mode hpc) havailable) (fun _ => id)
        trivial
  | scanMiss req path hpc hmiss =>
      exact hinv.goto hpc rfl (fun _ => id) trivial
  | scanHit req path idx hpc hhit =>
      exact hinv.goto hpc rfl (fun _ => id) trivial
  | missUnlock req path hpc =>
      exact hinv.move hpc (hagrees.unlock worker) (fun _ => id) trivial
  | diskAnswer req path hpc =>
      exact hinv.goto hpc rfl (fun _ => id) trivial
  | statFails req idx hpc =>
      exact hinv.goto hpc rfl (fun _ => id) trivial
  | statAnswers req idx st hpc =>
      exact hinv.goto hpc rfl (fun _ => id) trivial
  | compareFresh req idx st hpc hfresh =>
      exact hinv.goto hpc rfl (fun _ => id) trivial
  | compareStale req idx st hpc hstale =>
      exact hinv.goto hpc rfl (fun _ => id) trivial
  | staleUnlock req idx hpc =>
      exact hinv.move hpc (hagrees.unlock worker) (fun _ => id) trivial
  | writeLock req idx hpc havailable hreaders =>
      exact hinv.move hpc (hagrees.wrlock havailable hreaders) (fun _ => id)
        trivial
  | reloadFails req idx io hpc hfails =>
      exact hinv.goto hpc rfl (fun _ => id) trivial
  | reloadLoads req idx io hpc hloads =>
      exact hinv.goto hpc rfl (fun _ => id) (lithCacheHotReload_fresh hloads)
  | freeContent req idx fresh hpc =>
      apply hinv.write hpc
      have hknows := hinv.knows worker
      rw [hpc] at hknows
      simpa [RoutePc.Knows, LithCache.setEntry] using hknows
  | setContent req idx fresh hpc =>
      apply hinv.write hpc
      have hknows := hinv.knows worker
      rw [hpc] at hknows
      simpa [RoutePc.Knows, LithCache.setEntry] using hknows
  | setSize req idx fresh hpc =>
      apply hinv.write hpc
      have hknows := hinv.knows worker
      rw [hpc] at hknows
      simpa [RoutePc.Knows, LithCache.setEntry] using hknows
  | setLastModified req idx fresh hpc => exact hinv.commit hpc
  | writeUnlock req idx hpc =>
      exact hinv.move hpc (hagrees.unlock worker) (fun _ => id) trivial
  | readLock req idx hpc havailable =>
      exact hinv.move hpc
        (hagrees.rdlock (congrArg RoutePc.mode hpc) havailable) (fun _ => id)
        trivial
  | writeHeader req idx hpc =>
      exact hinv.goto hpc rfl (fun _ => id) rfl
  | writeBody req idx header hpc => exact hinv.served hpc
  | servedUnlock hpc =>
      exact hinv.move hpc (hagrees.unlock worker) (fun _ => id) trivial

end Steps

/-! ## One worker on its own -/

section Alone

variable {Worker : Type*} [DecidableEq Worker] {worker : Worker}
  {first state : LockingState Worker} {req : HttpRequest}
  {idx : Fin maxCacheEntries}

/-- The steps of one worker while all the others stand still. -/
def LockingState.Alone (worker : Worker) :
    LockingState Worker → LockingState Worker → Prop :=
  Relation.ReflTransGen fun before after => LockingStep before worker after

theorem LockingState.Alone.next {after : LockingState Worker}
    (hrun : LockingState.Alone worker first state)
    (hstep : LockingStep state worker after) :
    LockingState.Alone worker first after :=
  Relation.ReflTransGen.tail hrun hstep

/-- The writes of a reload amount to `lith_cache_hot_reload`. -/
theorem LockingState.Alone.reload (hrun : LockingState.Alone worker first state)
    (hpc : state.pcs worker = .reload req idx) (io : FileAccess) :
    ∃ after, LockingState.Alone worker first after ∧
      after.pcs worker = .reloaded req idx ∧ after.lock = state.lock ∧
      after.cache = state.cache.setEntry idx
        (lithCacheHotReload (state.cache.entries idx) io).2 ∧
      after.answers = state.answers := by
  cases hloads : (lithCacheHotReload (state.cache.entries idx) io).1 with
  | false =>
      refine ⟨_, hrun.next (.reloadFails _ _ req idx io hpc hloads),
        Function.update_self .., rfl, ?_, rfl⟩
      rcases lithCacheHotReload_cases (state.cache.entries idx) io with
        hsame | ⟨st, memory, -, -, -, hload⟩
      · simp [hsame, LockingState.goto, LithCache.setEntry]
      · simp [hload] at hloads
  | true =>
      have hfresh := lithCacheHotReload_fresh hloads
      have hloaded := hrun.next (.reloadLoads _ _ req idx io hpc hloads)
      have hfreed := hloaded.next
        (.freeContent _ _ _ _ _ (Function.update_self ..))
      have hcontent := hfreed.next
        (.setContent _ _ _ _ _ (Function.update_self ..))
      have hsize := hcontent.next
        (.setSize _ _ _ _ _ (Function.update_self ..))
      have hdone := hsize.next
        (.setLastModified _ _ _ _ _ (Function.update_self ..))
      refine ⟨_, hdone, Function.update_self .., rfl, ?_, rfl⟩
      generalize (lithCacheHotReload (state.cache.entries idx) io).2 = fresh
        at hfresh
      simp only [LockingState.goto, LockingState.write, LockingState.commit,
        LithCache.setEntry, Function.update_idem, Function.update_self]
      rw [hfresh]

theorem LockingState.Alone.refresh
    (hrun : LockingState.Alone worker first state)
    (hpc : state.pcs worker = .stat req idx)
    (hlock : state.lock = RwLock.unlocked.rdlock worker) (files : Files) :
    ∃ after, LockingState.Alone worker first after ∧
      after.pcs worker = .header req idx ∧
      after.lock = RwLock.unlocked.rdlock worker ∧
      after.cache = state.cache.setEntry idx (refreshEntry files
        (state.cache.entries idx).filepath.text (state.cache.entries idx)) ∧
      after.answers = state.answers := by
  unfold refreshEntry
  cases hstat : (files (state.cache.entries idx).filepath.text).stat with
  | none =>
      refine ⟨_, hrun.next (.statFails _ _ req idx hpc),
        Function.update_self .., hlock, ?_, rfl⟩
      simp [LockingState.goto, LithCache.setEntry]
  | some st =>
      have hasked := hrun.next (.statAnswers _ _ req idx st hpc)
      simp only
      split_ifs with hstale
      · have hfree : state.lock.unlock worker = RwLock.unlocked := by
          rw [hlock, RwLock.unlock_rdlock]
        have hfound := hasked.next
          (.compareStale _ _ _ _ _ (Function.update_self ..) hstale)
        have hdropped := hfound.next
          (.staleUnlock _ _ _ _ (Function.update_self ..))
        have hwriting := hdropped.next (.writeLock _ _ _ _
          (Function.update_self ..) (congrArg RwLock.writer hfree)
          (congrArg RwLock.readers hfree))
        obtain ⟨middle, hreload, hmiddle, hheld, hcache, hanswers⟩ :=
          hwriting.reload (Function.update_self ..)
            (files (state.cache.entries idx).filepath.text)
        have hreleased : middle.lock.unlock worker = RwLock.unlocked := by
          rw [hheld]
          simp only [LockingState.goto, hfree, RwLock.unlock_wrlock]
        have hunlocked := hreload.next (.writeUnlock _ _ _ _ hmiddle)
        have hshared := hunlocked.next (.readLock _ _ _ _
          (Function.update_self ..) (congrArg RwLock.writer hreleased))
        exact ⟨_, hshared, Function.update_self ..,
          congrArg (RwLock.rdlock · worker) hreleased, hcache, hanswers⟩
      · refine ⟨_, hasked.next
          (.compareFresh _ _ _ _ _ (Function.update_self ..) hstale),
          Function.update_self .., hlock, ?_, rfl⟩
        simp [LockingState.goto, LithCache.setEntry]

theorem LockingState.Alone.send (hrun : LockingState.Alone worker first state)
    (hpc : state.pcs worker = .header req idx)
    (hlock : state.lock = RwLock.unlocked.rdlock worker) :
    ∃ after, LockingState.Alone worker first after ∧
      after.pcs worker = .outside ∧ after.lock = RwLock.unlocked ∧
      after.cache = state.cache ∧
      after.answers = state.answers ++
        [⟨req, idx, cachedResponse req (state.cache.entries idx)⟩] := by
  have hheader := hrun.next (.writeHeader _ _ req idx hpc)
  have hbody := hheader.next
    (.writeBody _ _ _ _ _ (Function.update_self ..))
  have hdone := hbody.next (.servedUnlock _ _ (Function.update_self ..))
  refine ⟨_, hdone, Function.update_self .., ?_, rfl, ?_⟩
  · simp only [LockingState.goto, hlock, RwLock.unlock_rdlock]
  · simp only [LockingState.goto, cachedResponse]

/-- A worker that is not interrupted answers a hit as `serveFile` does. -/
theorem LockingState.alone_serveFile {path : Bytes}
    (hpc : state.pcs worker = .outside)
    (hlock : state.lock = RwLock.unlocked)
    (hhit : lithCacheLookup state.cache path = some idx)
    (files : Files) (req : HttpRequest) :
    ∃ after, LockingState.Alone worker state after ∧
      after.pcs worker = .outside ∧ after.lock = RwLock.unlocked ∧
      after.cache = (serveFile 1 files state.cache req path).2 ∧
      after.answers = state.answers ++
        [⟨req, idx, (serveFile 1 files state.cache req path).1⟩] := by
  have hkey := (lithCacheLookup_eq_some hhit).2.2
  have hstart : LockingState.Alone worker state state := .refl
  have hentered := hstart.next (.enter _ _ req path hpc)
  have hlocked := hentered.next (.lookupLock _ _ _ _
    (Function.update_self ..) (congrArg RwLock.writer hlock))
  have hfound := hlocked.next
    (.scanHit _ _ _ _ idx (Function.update_self ..) hhit)
  obtain ⟨fresh, hrefresh, hfresh, hheld, hcache, hanswers⟩ :=
    hfound.refresh (Function.update_self ..)
      (congrArg (RwLock.rdlock · worker) hlock) files
  obtain ⟨after, hsend, hafter, hreleased, hsame, hsent⟩ :=
    hrefresh.send hfresh hheld
  refine ⟨after, hsend, hafter, hreleased, ?_, ?_⟩
  · rw [hsame, hcache]
    simp [serveFile, hhit, LockingState.goto, hkey]
  · rw [hsent, hanswers, hcache]
    simp [serveFile, hhit, LockingState.goto, hkey, LithCache.setEntry]

end Alone

/-- However many workers there are and however their steps interleave. -/
theorem lockDiscipline_of_reachable {Worker : Type*} [DecidableEq Worker]
    {state : LockingState Worker}
    (hreach : (lockingSystem Worker).Reachable state) :
    LockDiscipline state := by
  apply LockingState.Inv.discipline
  apply hreach.invariant
  · intro first hstart
    obtain ⟨hlock, hpcs, hversions, hanswers⟩ := hstart
    refine ⟨?_, ?_, ?_, ?_⟩
    · rw [hlock]
      apply RwLock.agrees_unlocked
      intro worker
      rw [hpcs]
      rfl
    · intro idx _
      simp [hversions]
    · intro worker
      rw [hpcs]
      trivial
    · simp [hanswers]
  · intro before worker after hinv hstep
    exact hinv.step hstep

def indexCache : LithCache :=
  (lithCacheAdd (lithCacheInit LithCache.zero) (ascii "public/index.html")
    (ascii "text/html") (FileAccess.regular (ascii "a") 1 fun _ => 0)).2

def twoWorkers : LockingState Bool where
  lock := RwLock.unlocked
  cache := indexCache
  pcs := fun _ => .outside
  versions := fun idx => [indexCache.entries idx]
  answers := []

def rootRequest : HttpRequest :=
  parseFields (ascii "GET / HTTP/1.1\r\n\r\n") .get 4

/-- One worker has answered, and the other is reloading the entry. -/
theorem lockDiscipline_reload :
    ∃ state : LockingState Bool, (lockingSystem Bool).Reachable state ∧
      state.answers.length = 1 ∧ (state.pcs true).Reloads ∧ LockDiscipline state := by
  have hlookup : lithCacheLookup indexCache (ascii "public/index.html") =
      some ⟨0, by decide⟩ := by decide
  have hold : (indexCache.entries ⟨0, by decide⟩).lastModified < 2 := by decide
  have hstart : (lockingSystem Bool).Reachable twoWorkers :=
    .start ⟨rfl, fun _ => rfl, fun _ => rfl, rfl⟩
  have hentered := hstart.next true
    (.enter _ true rootRequest (ascii "public/index.html") rfl)
  have hother := hentered.next false
    (.enter _ false rootRequest (ascii "public/index.html") rfl)
  have hshared := hother.next false (.lookupLock _ false _ _ rfl rfl)
  have hlocked := hshared.next true (.lookupLock _ true _ _ rfl rfl)
  have hfound := hlocked.next false (.scanHit _ false _ _ _ rfl hlookup)
  have hunchecked := hfound.next false (.statFails _ false _ _ rfl)
  have hheader := hunchecked.next false (.writeHeader _ false _ _ rfl)
  have hbody := hheader.next false (.writeBody _ false _ _ _ rfl)
  have hanswered := hbody.next false (.servedUnlock _ false rfl)
  have hhit := hanswered.next true (.scanHit _ true _ _ _ rfl hlookup)
  have hstat := hhit.next true (.statAnswers _ true _ _ ⟨1, 2⟩ rfl)
  have hstale := hstat.next true (.compareStale _ true _ _ ⟨1, 2⟩ rfl hold)
  have hdropped := hstale.next true (.staleUnlock _ true _ _ rfl)
  have hwriting := hdropped.next true (.writeLock _ true _ _ rfl rfl rfl)
  refine ⟨_, hwriting, rfl, ?_, lockDiscipline_of_reachable hwriting⟩
  trivial

end Lith
