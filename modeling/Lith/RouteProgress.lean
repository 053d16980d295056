import Lith.RankedRuns
import Lith.ServerThreads

/-!
# Every request from the cache is answered

The lock is taken up to three times for one request, the second time for writing
while others may read.  Once no request comes in any more, every schedule of the
workers ends, nobody is left inside, and the lock is free: a worker waits only for
one that is inside a section and can go on.
-/

namespace Lith

open CString

/-- The steps up to the end of the request at most. -/
def RoutePc.rank : RoutePc → ℕ
  | outside => 0
  | served | disk _ _ => 1
  | body _ _ _ | missed _ _ => 2
  | header _ _ => 3
  | rdlock _ _ => 4
  | reloaded _ _ => 5
  | swap _ _ _ .lastModified => 6
  | swap _ _ _ .size => 7
  | swap _ _ _ .newContent => 8
  | swap _ _ _ .content => 9
  | reload _ _ => 10
  | wrlock _ _ => 11
  | stale _ _ => 12
  | compare _ _ _ => 13
  | stat _ _ => 14
  | scan _ _ => 15
  | lookup _ _ => 16

section Steps

variable {Worker : Type*} [DecidableEq Worker] {state after : LockingState Worker}
  {worker : Worker}

theorem LockingStep.rank_lt (hstep : LockingStep state worker after)
    (hinside : state.pcs worker ≠ .outside) :
    (after.pcs worker).rank < (state.pcs worker).rank := by
  cases hstep with
  | enter req path hpc => exact absurd hpc hinside
  | _ => simp_all [LockingState.goto, LockingState.write, LockingState.commit,
      RoutePc.rank]

/-- Inside a section of the lock a worker can always go on. -/
theorem exists_step_of_holding (hmode : (state.pcs worker).mode ≠ .free) :
    ∃ after, LockingStep state worker after := by
  cases hpc : state.pcs worker with
  | outside | lookup | disk | wrlock | rdlock => simp [hpc, RoutePc.mode] at hmode
  | scan req path =>
      cases hlookup : lithCacheLookup state.cache path with
      | none => exact ⟨_, .scanMiss state worker req path hpc hlookup⟩
      | some idx => exact ⟨_, .scanHit state worker req path idx hpc hlookup⟩
  | missed req path => exact ⟨_, .missUnlock state worker req path hpc⟩
  | stat req idx => exact ⟨_, .statFails state worker req idx hpc⟩
  | compare req idx st =>
      by_cases hstale : (state.cache.entries idx).lastModified < st.mtime
      · exact ⟨_, .compareStale state worker req idx st hpc hstale⟩
      · exact ⟨_, .compareFresh state worker req idx st hpc hstale⟩
  | stale req idx => exact ⟨_, .staleUnlock state worker req idx hpc⟩
  | reload req idx =>
      exact ⟨_, .reloadFails state worker req idx .absent hpc rfl⟩
  | swap req idx fresh stage =>
      cases stage with
      | content => exact ⟨_, .freeContent state worker req idx fresh hpc⟩
      | newContent => exact ⟨_, .setContent state worker req idx fresh hpc⟩
      | size => exact ⟨_, .setSize state worker req idx fresh hpc⟩
      | lastModified => exact ⟨_, .setLastModified state worker req idx fresh hpc⟩
  | reloaded req idx => exact ⟨_, .writeUnlock state worker req idx hpc⟩
  | header req idx => exact ⟨_, .writeHeader state worker req idx hpc⟩
  | body req idx header => exact ⟨_, .writeBody state worker req idx header hpc⟩
  | served => exact ⟨_, .servedUnlock state worker hpc⟩

/-- The lock is in the hands of a worker that can go on, or it is free. -/
theorem exists_step_of_inside (hinv : state.Inv)
    (hinside : state.pcs worker ≠ .outside) :
    ∃ other next, state.pcs other ≠ .outside ∧ LockingStep state other next := by
  have hgoes (other : Worker) (hmode : (state.pcs other).mode ≠ .free) :
      ∃ other next, state.pcs other ≠ .outside ∧ LockingStep state other next := by
    obtain ⟨next, hstep⟩ := exists_step_of_holding hmode
    refine ⟨other, next, fun hpc => hmode ?_, hstep⟩
    rw [hpc]
    rfl
  cases hwriter : state.lock.writer with
  | some other =>
      apply hgoes other
      rw [(hinv.agrees.exclusive other).mp hwriter]
      simp
  | none =>
      cases hreaders : state.lock.readers with
      | cons other others =>
          apply hgoes other
          rw [(hinv.agrees.shared other).mp (by simp [hreaders])]
          simp
      | nil =>
          cases hpc : state.pcs worker with
          | outside => exact absurd hpc hinside
          | lookup req path =>
              exact ⟨worker, _, hinside, .lookupLock state worker req path hpc hwriter⟩
          | disk req path =>
              exact ⟨worker, _, hinside, .diskAnswer state worker req path hpc⟩
          | wrlock req idx =>
              exact ⟨worker, _, hinside,
                .writeLock state worker req idx hpc hwriter hreaders⟩
          | rdlock req idx =>
              exact ⟨worker, _, hinside, .readLock state worker req idx hpc hwriter⟩
          | _ => exact hgoes worker (by simp [hpc, RoutePc.mode])

/-! ## What is still to be answered -/

/-- The request of a worker that has found its entry and not sent it yet. -/
def RoutePc.pending : RoutePc → Option (HttpRequest × Fin maxCacheEntries)
  | stat req idx | compare req idx _ | stale req idx | wrlock req idx
  | reload req idx | swap req idx _ _ | reloaded req idx | rdlock req idx
  | header req idx | body req idx _ => some (req, idx)
  | _ => none

/-- Since `first` these answers were sent, each by its worker, and what was pending there
is pending still or was answered by the worker that it was pending with. -/
structure AnswersSince (first state : LockingState Worker)
    (sent : List (Worker × CachedAnswer)) : Prop where
  logged : state.answers = first.answers ++ sent.map Prod.snd
  pending : ∀ worker request, (first.pcs worker).pending = some request →
    (state.pcs worker).pending = some request ∨
      ∃ answer, (worker, answer) ∈ sent ∧ (answer.req, answer.idx) = request

theorem LockingStep.answers_cases (hstep : LockingStep state worker after) :
    after.answers = state.answers ∧ (∀ request,
        (state.pcs worker).pending = some request →
        (after.pcs worker).pending = some request) ∨
      ∃ answer, after.answers = state.answers ++ [answer] ∧
        (state.pcs worker).pending = some (answer.req, answer.idx) := by
  cases hstep with
  | writeBody req idx header hpc => exact Or.inr ⟨_, rfl, by rw [hpc]; rfl⟩
  | _ => simp_all [LockingState.goto, LockingState.write, LockingState.commit,
      RoutePc.pending]

theorem AnswersSince.step {first : LockingState Worker}
    {sent : List (Worker × CachedAnswer)} (hsince : AnswersSince first state sent)
    (hstep : LockingStep state worker after) : ∃ sent, AnswersSince first after sent := by
  have hothers {other : Worker} (hother : other ≠ worker)
      {request : HttpRequest × Fin maxCacheEntries}
      (hpending : (state.pcs other).pending = some request) :
      (after.pcs other).pending = some request := by
    rw [hstep.pcs_of_ne hother]
    exact hpending
  rcases hstep.answers_cases with ⟨hanswers, hmine⟩ | ⟨answer, hanswers, hmine⟩
  · refine ⟨sent, hanswers.trans hsince.logged, fun other request hfirst => ?_⟩
    rcases hsince.pending other request hfirst with hpending | hanswered
    · by_cases hother : other = worker
      · subst hother
        exact Or.inl (hmine request hpending)
      · exact Or.inl (hothers hother hpending)
    · exact Or.inr hanswered
  · refine ⟨sent ++ [(worker, answer)], ?_, fun other request hfirst => ?_⟩
    · rw [hanswers, hsince.logged, List.map_append, List.append_assoc]
      rfl
    · rcases hsince.pending other request hfirst with hpending | ⟨old, hold, hsame⟩
      · by_cases hother : other = worker
        · subst hother
          rw [hmine, Option.some.injEq] at hpending
          exact Or.inr ⟨answer, by simp, hpending⟩
        · exact Or.inl (hothers hother hpending)
      · exact Or.inr ⟨old, List.mem_append_left _ hold, hsame⟩

variable (Worker) in
/-- The workers go on, but nobody comes in. -/
def finishSystem : TransitionSystem (LockingState Worker) Worker :=
  (lockingSystem Worker).restrict fun state worker => state.pcs worker ≠ .outside

/-- Nobody is left inside, the lock is free and what was pending is answered, each
request by an answer of its own worker. -/
structure Finished (first last : LockingState Worker) : Prop where
  outside : ∀ worker, last.pcs worker = .outside
  lock : last.lock = .unlocked
  answered : ∃ sent : List (Worker × CachedAnswer),
    last.answers = first.answers ++ sent.map Prod.snd ∧
      ∀ worker request, (first.pcs worker).pending = some request →
        ∃ answer, (worker, answer) ∈ sent ∧ (answer.req, answer.idx) = request

theorem LockingState.inv_of_start (hstart : (lockingSystem Worker).start state) :
    state.Inv := by
  obtain ⟨hlock, hpcs, hversions, hanswers⟩ := hstart
  constructor
  case agrees =>
    rw [hlock]
    exact RwLock.agrees_unlocked fun worker => by rw [hpcs]; rfl
  case settled => simp [hversions]
  case knows =>
    intro worker
    rw [hpcs]
    trivial
  case answers => simp [hanswers]

theorem finished_of_quiet {first : LockingState Worker}
    {sent : List (Worker × CachedAnswer)} (hinv : state.Inv)
    (hsince : AnswersSince first state sent) (hquiet : (finishSystem Worker).Quiet state) :
    Finished first state := by
  have houtside (worker : Worker) : state.pcs worker = .outside := by
    by_contra hinside
    obtain ⟨other, next, hother, hstep⟩ := exists_step_of_inside hinv hinside
    exact hquiet other next ⟨hother, hstep⟩
  refine ⟨houtside, ?_, sent, hsince.logged, fun worker request hfirst => ?_⟩
  · have hreaders : state.lock.readers = [] := by
      apply List.eq_nil_iff_forall_not_mem.mpr
      intro worker hmem
      have hmode := (hinv.agrees.shared worker).mp hmem
      simp [houtside worker, RoutePc.mode] at hmode
    have hwriter : state.lock.writer = none := by
      apply Option.eq_none_iff_forall_ne_some.mpr
      intro worker hmine
      have hmode := (hinv.agrees.exclusive worker).mp hmine
      simp [houtside worker, RoutePc.mode] at hmode
    cases hlock : state.lock
    simp_all [RwLock.unlocked]
  · refine (hsince.pending worker request hfirst).resolve_left ?_
    rw [houtside worker]
    simp [RoutePc.pending]

/-- When nobody comes in any more, every schedule ends after a bounded number of
steps, with the lock free and every request that had found its entry answered. -/
theorem cached_requests_finish [Fintype Worker]
    (hreach : (lockingSystem Worker).Reachable state) :
    (finishSystem Worker).Settles state (∑ worker, (state.pcs worker).rank)
      (Finished state) := by
  have hinv : state.Inv := hreach.invariant (fun _ => LockingState.inv_of_start)
    fun _ _ _ hinv hstep => hinv.step hstep
  let Known (last : LockingState Worker) : Prop :=
    last.Inv ∧ ∃ sent, AnswersSince state last sent
  have hfirst : Known state := ⟨hinv, [], by simp, fun _ _ => Or.inl⟩
  apply TransitionSystem.settles_of_rank
    (fun last : LockingState Worker => ∑ worker, (last.pcs worker).rank) hfirst
  · rintro before worker after ⟨hbefore, sent, hsince⟩ ⟨-, hstep⟩
    exact ⟨hbefore.step hstep, hsince.step hstep⟩
  · rintro before worker after - ⟨hinside, hstep⟩
    have hless := LockingStep.rank_lt hstep hinside
    have hsum := sum_replace fun other (hother : other ≠ worker) =>
      congrArg RoutePc.rank (LockingStep.pcs_of_ne hstep hother)
    omega
  · rintro last ⟨hlast, sent, hsince⟩ hquiet
    exact finished_of_quiet hlast hsince hquiet

end Steps

/-- One worker is about to reload the entry while the other wants to look it up. -/
theorem cached_requests_finish_reload :
    ∃ state : LockingState Bool,
      (state.pcs true).pending = some (rootRequest, ⟨0, by decide⟩) ∧
        (finishSystem Bool).Settles state 26 (Finished state) := by
  have hlookup : lithCacheLookup indexCache (ascii "public/index.html") =
      some ⟨0, by decide⟩ := by decide
  have hold : (indexCache.entries ⟨0, by decide⟩).lastModified < 2 := by decide
  have hstart : (lockingSystem Bool).Reachable twoWorkers :=
    .start ⟨rfl, fun _ => rfl, fun _ => rfl, rfl⟩
  have hentered := hstart.next true
    (.enter _ true rootRequest (ascii "public/index.html") rfl)
  have hother := hentered.next false
    (.enter _ false rootRequest (ascii "public/index.html") rfl)
  have hlocked := hother.next true (.lookupLock _ true _ _ rfl rfl)
  have hhit := hlocked.next true (.scanHit _ true _ _ _ rfl hlookup)
  have hstat := hhit.next true (.statAnswers _ true _ _ ⟨1, 2⟩ rfl)
  have hstale := hstat.next true (.compareStale _ true _ _ ⟨1, 2⟩ rfl hold)
  have hdropped := hstale.next true (.staleUnlock _ true _ _ rfl)
  have hwriting := hdropped.next true (.writeLock _ true _ _ rfl rfl rfl)
  exact ⟨_, rfl, cached_requests_finish hwriting⟩

end Lith
