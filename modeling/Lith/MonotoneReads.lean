import Lith.RouteProgress

/-!
# Answers from the cache never go back

An answer is made of one version of an entry.  Here is which one: the last one that
was loaded when the body was sent.  So the versions of a file that are sent follow one
another in the order in which they were loaded, whoever sends them, and a request is
never answered with a version that was out of date when it came in.
-/

namespace Lith

open CString

section Steps

variable {Worker : Type*} [DecidableEq Worker] {first state after : LockingState Worker}
  {worker : Worker}

/-- What a step does to the entries, the versions and the answers. -/
inductive LockingStep.Effect (state : LockingState Worker) (worker : Worker)
    (after : LockingState Worker) : Prop where
  | quiet (hswaps : ∀ idx, ¬(state.pcs worker).Swaps idx)
      (hcache : after.cache = state.cache) (hversions : after.versions = state.versions)
      (hanswers : after.answers = state.answers)
  | fills {idx : Fin maxCacheEntries} (hbefore : (state.pcs worker).Swaps idx)
      (hswaps : (after.pcs worker).Swaps idx)
      (hothers : ∀ slot, slot ≠ idx →
        after.cache.entries slot = state.cache.entries slot)
      (hversions : after.versions = state.versions)
      (hanswers : after.answers = state.answers)
  | commits {req : HttpRequest} {idx : Fin maxCacheEntries} {fresh : CacheEntry}
      (hpc : state.pcs worker = .swap req idx fresh .lastModified)
      (hcache : after.cache = state.cache.setEntry idx
        { state.cache.entries idx with
          lastModified := fresh.lastModified })
      (hversions : after.versions =
        Function.update state.versions idx (state.versions idx ++ [fresh]))
      (hanswers : after.answers = state.answers)
  | sends {req : HttpRequest} {idx : Fin maxCacheEntries} {header : Bytes}
      (hpc : state.pcs worker = .body req idx header)
      (hcache : after.cache = state.cache) (hversions : after.versions = state.versions)
      (hanswers : after.answers = state.answers ++ [{
        req := req
        idx := idx
        response := {
          status := 200
          header := header
          body := (cachedResponse req (state.cache.entries idx)).body } }])

theorem LockingStep.effect (hstep : LockingStep state worker after) :
    LockingStep.Effect state worker after := by
  cases hstep with
  | freeContent req idx fresh hpc =>
      refine .fills (by rw [hpc]; rfl) ?_ ?_ rfl rfl
      · simp [LockingState.goto, RoutePc.Swaps]
      · intro slot hslot
        simp [LockingState.goto, LockingState.write, LithCache.setEntry, hslot]
  | setContent req idx fresh hpc =>
      refine .fills (by rw [hpc]; rfl) ?_ ?_ rfl rfl
      · simp [LockingState.goto, RoutePc.Swaps]
      · intro slot hslot
        simp [LockingState.goto, LockingState.write, LithCache.setEntry, hslot]
  | setSize req idx fresh hpc =>
      refine .fills (by rw [hpc]; rfl) ?_ ?_ rfl rfl
      · simp [LockingState.goto, RoutePc.Swaps]
      · intro slot hslot
        simp [LockingState.goto, LockingState.write, LithCache.setEntry, hslot]
  | setLastModified req idx fresh hpc => exact .commits hpc rfl rfl rfl
  | writeBody req idx header hpc => exact .sends hpc rfl rfl rfl
  | _ => exact .quiet (by simp_all [RoutePc.Swaps]) rfl rfl rfl

/-- Outside a reload the entry is the version that was loaded last. -/
def LockingState.Latest (state : LockingState Worker) : Prop :=
  ∀ idx, (∀ worker, ¬(state.pcs worker).Swaps idx) →
    (state.versions idx).getLast? = some (state.cache.entries idx)

theorem LockingState.Latest.step (hlatest : state.Latest) (hinv : state.Inv)
    (hstep : LockingStep state worker after) : after.Latest := by
  intro slot hnone
  have hothers (hworker : ¬(state.pcs worker).Swaps slot) :
      ∀ other, ¬(state.pcs other).Swaps slot := by
    intro other
    by_cases hother : other = worker
    · rwa [hother]
    · have hsame := hnone other
      rwa [hstep.pcs_of_ne hother] at hsame
  cases hstep.effect with
  | quiet hswaps hcache hversions _ =>
      rw [hcache, hversions]
      exact hlatest slot (hothers (hswaps slot))
  | @fills idx hbefore hswaps hentries hversions _ =>
      have hslot : slot ≠ idx := by
        rintro rfl
        exact hnone worker hswaps
      rw [hentries slot hslot, hversions]
      refine hlatest slot (hothers ?_)
      intro hswap
      cases hpc : state.pcs worker <;> rw [hpc] at hbefore hswap <;>
        first | exact hbefore | exact hslot (hswap.symm.trans hbefore)
  | @commits req idx fresh hpc hcache hversions _ =>
      rw [hcache, hversions]
      by_cases hslot : slot = idx
      · subst hslot
        have hknows := hinv.knows worker
        rw [hpc] at hknows
        have hfresh : fresh = { state.cache.entries slot with
          lastModified := fresh.lastModified } := hknows
        simp only [Function.update_self, LithCache.setEntry, List.getLast?_concat,
          Option.some.injEq]
        exact hfresh
      · have hworker : ¬(state.pcs worker).Swaps slot := by
          rw [hpc]
          exact fun heq => hslot heq.symm
        have hbefore := hlatest slot (hothers hworker)
        simpa [LithCache.setEntry, hslot] using hbefore
  | sends hpc hcache hversions _ =>
      rw [hcache, hversions]
      refine hlatest slot (hothers ?_)
      rw [hpc]
      exact id

omit [DecidableEq Worker] in
/-- What is sent is the response for the entry, and no reload is under way. -/
theorem LockingState.Inv.sends (hinv : state.Inv) {req : HttpRequest}
    {idx : Fin maxCacheEntries} {header : Bytes}
    (hpc : state.pcs worker = .body req idx header) :
    (∀ other, ¬(state.pcs other).Swaps idx) ∧
      HttpResponse.mk 200 header (cachedResponse req (state.cache.entries idx)).body =
        cachedResponse req (state.cache.entries idx) := by
  constructor
  · intro other hswaps
    have hwrites := RoutePc.mode_of_swaps hswaps
    have hreads : (state.pcs worker).mode = .shared := by
      rw [hpc]
      rfl
    have hsame : worker = other := by
      apply hinv.agrees.eq_of_exclusive hwrites
      simp [hreads]
    rw [hsame, hwrites] at hreads
    simp at hreads
  · have hknows := hinv.knows worker
    rw [hpc] at hknows
    have hheader : header = (cachedResponse req (state.cache.entries idx)).header :=
      hknows
    rw [hheader]
    simp only [cachedResponse]

/-- The answers since `first`, each with the place of its version. -/
structure LockingState.ServedSince (first state : LockingState Worker)
    (log : List (CachedAnswer × ℕ)) : Prop where
  answers : state.answers = first.answers ++ log.map Prod.fst
  grown : ∀ idx, first.versions idx <+: state.versions idx
  version : ∀ sent ∈ log, ∃ version,
    (state.versions sent.1.idx)[sent.2]? = some version ∧
      sent.1.response = cachedResponse sent.1.req version
  current : ∀ sent ∈ log, (first.versions sent.1.idx).length ≤ sent.2 + 1
  ordered : log.Pairwise fun earlier later =>
    earlier.1.idx = later.1.idx → earlier.2 ≤ later.2

omit [DecidableEq Worker] in
theorem LockingState.servedSince_refl (state : LockingState Worker) :
    state.ServedSince state [] where
  answers := by simp
  grown := fun _ => List.prefix_rfl
  version := by simp
  current := by simp
  ordered := .nil

omit [DecidableEq Worker] in
theorem LockingState.ServedSince.same {log : List (CachedAnswer × ℕ)}
    (hserved : first.ServedSince state log)
    (hversions : after.versions = state.versions)
    (hanswers : after.answers = state.answers) : first.ServedSince after log := by
  refine ⟨?_, ?_, ?_, hserved.current, hserved.ordered⟩
  · rw [hanswers]
    exact hserved.answers
  · rw [hversions]
    exact hserved.grown
  · rw [hversions]
    exact hserved.version

omit [DecidableEq Worker] in
theorem LockingState.ServedSince.commits {log : List (CachedAnswer × ℕ)}
    (hserved : first.ServedSince state log) {idx : Fin maxCacheEntries}
    {fresh : CacheEntry} (hversions : after.versions =
      Function.update state.versions idx (state.versions idx ++ [fresh]))
    (hanswers : after.answers = state.answers) : first.ServedSince after log := by
  have hgrown (slot : Fin maxCacheEntries) :
      state.versions slot <+: after.versions slot := by
    rw [hversions]
    by_cases hslot : slot = idx
    · subst hslot
      rw [Function.update_self]
      exact List.prefix_append _ _
    · rw [Function.update_of_ne hslot]
  refine ⟨?_, ?_, ?_, hserved.current, hserved.ordered⟩
  · rw [hanswers]
    exact hserved.answers
  · exact fun slot => (hserved.grown slot).trans (hgrown slot)
  · intro sent hsent
    obtain ⟨version, hversion, hresponse⟩ := hserved.version sent hsent
    refine ⟨version, ?_, hresponse⟩
    obtain ⟨tail, htail⟩ := hgrown sent.1.idx
    have hplace := (List.getElem?_eq_some_iff.mp hversion).1
    rw [← htail, List.getElem?_append_left hplace]
    exact hversion

omit [DecidableEq Worker] in
/-- The version that is sent is the last one. -/
theorem LockingState.ServedSince.sends {log : List (CachedAnswer × ℕ)}
    (hserved : first.ServedSince state log) (hinv : state.Inv) (hlatest : state.Latest)
    {req : HttpRequest} {idx : Fin maxCacheEntries} {header : Bytes}
    (hpc : state.pcs worker = .body req idx header)
    (hversions : after.versions = state.versions)
    (hanswers : after.answers = state.answers ++ [{
      req := req
      idx := idx
      response := {
        status := 200
        header := header
        body := (cachedResponse req (state.cache.entries idx)).body } }]) :
    ∃ log, first.ServedSince after log := by
  obtain ⟨hsettled, hresponse⟩ := hinv.sends hpc
  have hlast := hlatest idx hsettled
  rw [List.getLast?_eq_getElem?] at hlast
  have hplace : (state.versions idx).length - 1 < (state.versions idx).length :=
    (List.getElem?_eq_some_iff.mp hlast).1
  rw [hresponse] at hanswers
  refine ⟨log ++ [(⟨req, idx, cachedResponse req (state.cache.entries idx)⟩,
    (state.versions idx).length - 1)], ?_, ?_, ?_, ?_, ?_⟩
  · rw [hanswers, hserved.answers]
    simp
  · rw [hversions]
    exact hserved.grown
  · rw [hversions]
    intro sent hsent
    rcases List.mem_append.mp hsent with hsent | hsent
    · exact hserved.version sent hsent
    · rw [List.mem_singleton.mp hsent]
      exact ⟨_, hlast, rfl⟩
  · intro sent hsent
    rcases List.mem_append.mp hsent with hsent | hsent
    · exact hserved.current sent hsent
    · rw [List.mem_singleton.mp hsent]
      have hle := (hserved.grown idx).length_le
      dsimp only
      omega
  · rw [List.pairwise_append]
    refine ⟨hserved.ordered, by simp, ?_⟩
    intro sent hsent other hother hidx
    rw [List.mem_singleton.mp hother] at hidx ⊢
    obtain ⟨version, hversion, -⟩ := hserved.version sent hsent
    have hless := (List.getElem?_eq_some_iff.mp hversion).1
    rw [hidx] at hless
    dsimp only at hless ⊢
    omega

theorem LockingState.ServedSince.step {log : List (CachedAnswer × ℕ)}
    (hserved : first.ServedSince state log) (hinv : state.Inv) (hlatest : state.Latest)
    (hstep : LockingStep state worker after) : ∃ log, first.ServedSince after log := by
  cases hstep.effect with
  | quiet _ _ hversions hanswers => exact ⟨log, hserved.same hversions hanswers⟩
  | fills _ _ _ hversions hanswers => exact ⟨log, hserved.same hversions hanswers⟩
  | commits _ _ hversions hanswers => exact ⟨log, hserved.commits hversions hanswers⟩
  | sends hpc _ hversions hanswers =>
      exact hserved.sends hinv hlatest hpc hversions hanswers

end Steps

variable {Worker : Type*} [DecidableEq Worker] {first state : LockingState Worker}

theorem latest_of_reachable (hreach : (lockingSystem Worker).Reachable state) :
    state.Inv ∧ state.Latest := by
  apply hreach.invariant (P := fun state => state.Inv ∧ state.Latest)
  · intro start hstart
    refine ⟨LockingState.inv_of_start hstart, ?_⟩
    intro idx _
    rw [hstart.2.2.1]
    rfl
  · intro before worker after hboth hstep
    exact ⟨hboth.1.step hstep, hboth.2.step hboth.1 hstep⟩

/-- From any moment on, however the workers interleave: each answer is made of one
version of its entry, none of a version older than the last one of that moment, and
among the answers for one entry the versions are in the order of their loading. -/
theorem answers_never_go_back (hfirst : (lockingSystem Worker).Reachable first)
    {count : ℕ} (hrun : (lockingSystem Worker).Run first count state) :
    ∃ log, first.ServedSince state log := by
  induction hrun with
  | nil => exact ⟨[], first.servedSince_refl⟩
  | snoc hrun worker hstep ih =>
      obtain ⟨log, hserved⟩ := ih
      obtain ⟨hinv, hlatest⟩ := latest_of_reachable (hrun.reachable hfirst)
      exact hserved.step hinv hlatest hstep

/-- The file has changed: the answer is made of the second version. -/
theorem answers_never_go_back_changed :
    ∃ state : LockingState Bool, (state.versions ⟨0, by decide⟩).length = 2 ∧
      state.answers.length = 1 ∧ ∃ log, twoWorkers.ServedSince state log := by
  let changed := FileAccess.regular (ascii "b") 2 fun _ => 0
  have hlookup : lithCacheLookup indexCache (ascii "public/index.html") =
      some ⟨0, by decide⟩ := by decide
  have hold : (indexCache.entries ⟨0, by decide⟩).lastModified < 2 := by decide
  have hloads : (lithCacheHotReload (indexCache.entries ⟨0, by decide⟩) changed).1 =
      true := by decide
  have hstart : (lockingSystem Bool).Reachable twoWorkers :=
    .start ⟨rfl, fun _ => rfl, fun _ => rfl, rfl⟩
  have hrun := @TransitionSystem.Run.nil _ _ (lockingSystem Bool) twoWorkers
  have hentered := hrun.snoc true
    (.enter _ true rootRequest (ascii "public/index.html") rfl)
  have hlocked := hentered.snoc true (.lookupLock _ true _ _ rfl rfl)
  have hhit := hlocked.snoc true (.scanHit _ true _ _ _ rfl hlookup)
  have hstat := hhit.snoc true (.statAnswers _ true _ _ ⟨1, 2⟩ rfl)
  have hstale := hstat.snoc true (.compareStale _ true _ _ ⟨1, 2⟩ rfl hold)
  have hdropped := hstale.snoc true (.staleUnlock _ true _ _ rfl)
  have hwriting := hdropped.snoc true (.writeLock _ true _ _ rfl rfl rfl)
  have hloaded := hwriting.snoc true (.reloadLoads _ true _ _ changed rfl hloads)
  have hfreed := hloaded.snoc true (.freeContent _ true _ _ _ rfl)
  have hcontent := hfreed.snoc true (.setContent _ true _ _ _ rfl)
  have hsize := hcontent.snoc true (.setSize _ true _ _ _ rfl)
  have htime := hsize.snoc true (.setLastModified _ true _ _ _ rfl)
  have hunlocked := htime.snoc true (.writeUnlock _ true _ _ rfl)
  have hreading := hunlocked.snoc true (.readLock _ true _ _ rfl rfl)
  have hheader := hreading.snoc true (.writeHeader _ true _ _ rfl)
  have hbody := hheader.snoc true (.writeBody _ true _ _ _ rfl)
  exact ⟨_, rfl, rfl, answers_never_go_back hstart hbody⟩

end Lith
