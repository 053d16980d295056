import Lith.RankedRuns
import Lith.SocketOwnership
import Lith.WorkerWakeups

/-!
# The pool comes to rest

After the last connection, and without wake-ups out of nothing, every schedule of
the pool ends, if the clients let it: a worker goes round the loop of a session, or the
one that discards what a client in clear still sends, as often as its client makes it.
So the rounds that are still to come are a number of the state.  Each socket in the
queue pays for the work that a worker does on it, and a notice for the workers that it
wakes.  Where a schedule ends, every accepted socket has been closed and the workers
sleep, or the shutdown has come and the workers have ended.
-/

namespace Lith

namespace PoolPc

/-- The steps up to the next sleep; `threads` may have to be woken at a shutdown. -/
def work (threads : ℕ) : PoolPc → ℕ
  | accept | acceptEnded | workerEnded | stopEnded => 0
  | acceptFailed | pushUnlock | pushClose _ | popped none | stopDestroy => 1
  | pushDiscard _ _ | popRefused | stopUnlock => 2
  | pushRefused _ _ | popLocked => 3
  | popLock | popWait => 4
  | serving _ .close => 5
  | serving _ .redirect | serving _ .session => 6
  | serving _ .sslAccept => 7
  | serving _ .sslNew => 8
  | serving _ .peek => 9
  | popped (some _) => 10
  | popFree _ _ _ => 11
  | popRead _ _ => 12
  | popUnlinked _ _ => 13
  | pushLocked _ _ => 18
  | pushLock _ _ => 19
  | pushAlloc _ => 20
  | stopLocked => 4 * threads + 4
  | stopLock => 4 * threads + 5

/-- What the notice that a thread has to send costs. -/
def debt (threads : ℕ) : Option Notice → ℕ
  | none => 0
  | some .signal => 5
  | some .broadcast => 4 * threads + 1

/-- The work behind a step, which may have ended in a sleep. -/
def workAfter (threads : ℕ) (pc : PoolPc) : ℕ :=
  (if pc = popWait then 0 else pc.work threads) + debt threads pc.notice

theorem Move.work_lt {shutdown : Bool} {pc next : PoolPc}
    (hmove : Move shutdown pc next) (hpc : pc ≠ accept) (threads : ℕ) :
    next.workAfter threads < pc.work threads := by
  cases hmove with
  | acceptFails => exact absurd rfl hpc
  | workerEnds result hend => cases result <;> simp [workAfter, work, debt, notice]
  | proceeds socket hnext => cases hnext <;> simp [workAfter, work, debt, notice]
  | _ => simp [workAfter, work, debt, notice]

theorem work_lt_afterLock {pc next : PoolPc} (hnext : pc.afterLock = some next)
    (threads : ℕ) : next.workAfter threads < pc.work threads := by
  cases pc <;> cases hnext <;> simp [workAfter, work, debt, notice]

theorem work_lt_afterUnlock {pc next : PoolPc} (hnext : pc.afterUnlock = some next)
    (threads : ℕ) : next.workAfter threads < pc.work threads := by
  cases pc <;> cases hnext <;> simp [workAfter, work, debt, notice]

theorem work_lt_afterClose {pc next : PoolPc} {socket : Socket}
    (hnext : pc.afterClose = some (socket, next)) (threads : ℕ) :
    next.workAfter threads < pc.work threads := by
  cases pc with
  | pushClose =>
      cases hnext
      simp [workAfter, work, debt, notice]
  | serving _ stage =>
      cases stage <;> cases hnext
      simp [workAfter, work, debt, notice]
  | _ => cases hnext

end PoolPc

section Work

variable {Thread : Type*} [DecidableEq Thread] {thread : Thread}

/-- A step uses up some work, or a socket in the queue pays for it. -/
theorem PoolStep.work_lt {before after : PoolState Thread} (hinv : before.Inv)
    (hstep : PoolStep before thread after) (hpc : before.pcs thread ≠ .accept)
    (threads : ℕ) :
    (after.pcs thread).workAfter threads + 11 * after.waiting.length <
      (before.pcs thread).work threads + 11 * before.waiting.length := by
  obtain ⟨nodes, hqueue⟩ := hinv.queue
  cases hstep with
  | move pc hmove =>
      have hless := hmove.work_lt hpc threads
      simpa [PoolState.waiting, PoolState.goto] using hless
  | lock pc hnext havailable =>
      have hless := PoolPc.work_lt_afterLock hnext threads
      simpa [PoolState.waiting, PoolState.goto] using hless
  | unlock pc hnext =>
      have hless := PoolPc.work_lt_afterUnlock hnext threads
      simpa [PoolState.waiting, PoolState.goto] using hless
  | wait hpc hempty hrunning =>
      simp [hpc, PoolState.waiting, PoolState.goto, PoolPc.workAfter, PoolPc.work,
        PoolPc.debt, PoolPc.notice]
  | accepts socket hstart hnew => exact absurd hstart hpc
  | allocates socket node hpc hfree =>
      simp [hpc, PoolState.waiting, PoolState.goto, PoolPc.workAfter, PoolPc.work,
        PoolPc.debt, PoolPc.notice]
  | links socket node hpc hrunning =>
      have hbound := hqueue.bound
      simp only [hpc, PoolState.waiting, PoolState.goto, PoolPc.workAfter, PoolPc.work,
        PoolPc.debt, PoolPc.notice, Function.update_self, List.length_drop,
        List.length_append, List.length_singleton, reduceCtorEq, if_false]
      omega
  | discards socket node hpc =>
      simp [hpc, PoolState.waiting, PoolState.goto, PoolPc.workAfter, PoolPc.work,
        PoolPc.debt, PoolPc.notice]
  | unlinks node cell hpc hhead hcell hrunning =>
      have hlt := hqueue.results_lt hhead hcell
      simp only [hpc, PoolState.waiting, PoolState.goto, PoolPc.workAfter, PoolPc.work,
        PoolPc.debt, PoolPc.notice, Function.update_self, List.length_drop,
        List.length_append, List.length_singleton, reduceCtorEq, if_false]
      omega
  | reads node ticket cell hpc hcell =>
      simp [hpc, PoolState.waiting, PoolState.goto, PoolPc.workAfter, PoolPc.work,
        PoolPc.debt, PoolPc.notice]
  | frees node ticket socket hpc =>
      simp [hpc, PoolState.waiting, PoolState.goto, PoolPc.workAfter, PoolPc.work,
        PoolPc.debt, PoolPc.notice]
  | closes socket pc hnext =>
      have hless := PoolPc.work_lt_afterClose hnext threads
      simpa [PoolState.waiting, PoolState.goto] using hless
  | stops hpc =>
      simp [hpc, PoolState.waiting, PoolState.goto, PoolPc.workAfter, PoolPc.work,
        PoolPc.debt, PoolPc.notice]
      omega

def WakeState.workOf (state : WakeState Thread) (threads : ℕ) (thread : Thread) : ℕ :=
  if thread ∈ state.sleepers then 0 else (state.pool.pcs thread).work threads

/-- What is left to do when no more connections come. -/
def WakeState.work [Fintype Thread] (state : WakeState Thread) : ℕ :=
  ∑ thread, state.workOf (Fintype.card Thread) thread +
    11 * state.pool.waiting.length + PoolPc.debt (Fintype.card Thread) state.due

/-- No new connection and no wake-up out of nothing. -/
def WakeState.Going (state : WakeState Thread) (thread : Thread) : Prop :=
  thread ∉ state.sleepers ∧ state.pool.pcs thread ≠ .accept

variable {state after : WakeState Thread}

theorem PoolPc.debt_or_le (threads : ℕ) (mine due : Option Notice) :
    debt threads (mine.or due) ≤ debt threads mine + debt threads due := by
  cases mine <;> simp [debt]

theorem WakeState.work_follow_lt [Fintype Thread] (hpool : state.pool.Inv)
    {pool : PoolState Thread} (hstep : PoolStep state.pool thread pool)
    (hgoing : state.Going thread) : (state.follow thread pool).work < state.work := by
  have hawake := hgoing.1
  have hless := hstep.work_lt hpool hgoing.2 (Fintype.card Thread)
  have hdebt := PoolPc.debt_or_le (Fintype.card Thread) (pool.pcs thread).notice state.due
  have hothers (other : Thread) (hother : other ≠ thread) :
      (state.follow thread pool).workOf (Fintype.card Thread) other =
        state.workOf (Fintype.card Thread) other := by
    simp only [workOf, follow, hstep.pcs_of_ne hother]
    split_ifs <;> simp_all
  have hsum := sum_replace hothers
  have hold : state.workOf (Fintype.card Thread) thread =
      (state.pool.pcs thread).work (Fintype.card Thread) := if_neg hawake
  have hnew : (state.follow thread pool).workOf (Fintype.card Thread) thread =
      if pool.pcs thread = .popWait then 0
      else (pool.pcs thread).work (Fintype.card Thread) := by
    by_cases hwait : pool.pcs thread = .popWait <;>
      simp [workOf, follow, hwait, hawake]
  rw [hold, hnew] at hsum
  simp only [work, follow, PoolPc.workAfter] at hsum hless hdebt ⊢
  omega

/-- Waking a thread costs as much as going back to sleep. -/
theorem WakeState.workOf_wake (hinv : state.SleepInv) (sleepers : List Thread)
    (due : Option Notice) (threads : ℕ) (other : Thread) :
    WakeState.workOf { state with
        sleepers := sleepers
        due := due } threads other ≤ state.workOf threads other + 4 := by
  unfold workOf
  by_cases hasleep : other ∈ state.sleepers
  · have hpc : state.pool.pcs other = .popWait := hinv.asleep other hasleep
    simp only [hpc, PoolPc.work, if_pos hasleep]
    split_ifs <;> omega
  · simp only [if_neg hasleep]
    split_ifs <;> omega

theorem WakeState.work_lt [Fintype Thread] (hinv : state.SleepInv)
    (hpool : state.pool.Inv) (hgoing : state.Going thread)
    (hstep : WakeStep state thread after) : after.work < state.work := by
  cases hstep with
  | pool pool hstep hawake hsent => exact work_follow_lt hpool hstep hgoing
  | signalNobody hpc hdue hnobody =>
      simp only [work, workOf, hdue, PoolPc.debt]
      omega
  | signal sleeper hpc hdue hsleeper =>
      have hothers (other : Thread) (hother : other ≠ sleeper) :
          WakeState.workOf { state with
            sleepers := state.sleepers.erase sleeper
            due := none } (Fintype.card Thread) other =
          state.workOf (Fintype.card Thread) other := by
        simp only [workOf, List.mem_erase_of_ne hother]
      have hsum := sum_replace hothers
      have hwoken := workOf_wake hinv (state.sleepers.erase sleeper) none
        (Fintype.card Thread) sleeper
      simp only [work, hdue, PoolPc.debt]
      omega
  | broadcast hpc hdue =>
      have hwoken := Finset.sum_le_sum fun other (_ : other ∈ Finset.univ) =>
        workOf_wake hinv [] none (Fintype.card Thread) other
      simp only [Finset.sum_add_distrib, Finset.sum_const, Finset.card_univ,
        smul_eq_mul] at hwoken
      simp only [work, hdue, PoolPc.debt]
      omega
  | spurious hsleeper => exact absurd hsleeper hgoing.1

/-! ## Where a schedule ends -/

variable (Thread) in
def goingSystem : TransitionSystem (WakeState Thread) Thread :=
  (wakeSystem Thread).restrict WakeState.Going

/-- The stages of a connection that have a loop around their reads. -/
def ServeStage.Loops : ServeStage → Prop
  | .redirect | .session => True
  | _ => False

/-- The pool, and how many times the clients are still going to make a worker read
again. -/
structure DrainState (Thread : Type*) where
  pool : WakeState Thread
  rounds : ℕ

inductive DrainStep (state : DrainState Thread) (thread : Thread) :
    DrainState Thread → Prop where
  | goes (after : WakeState Thread) (hgoing : state.pool.Going thread)
      (hstep : WakeStep state.pool thread after) :
      DrainStep state thread { state with pool := after }
  | readsAgain (socket : Socket) (stage : ServeStage) (rounds : ℕ)
      (hserving : state.pool.pool.pcs thread = .serving socket stage)
      (hloops : stage.Loops) (hmore : state.rounds = rounds + 1) :
      DrainStep state thread { state with rounds := rounds }

variable (Thread) in
/-- The pool from a given state on, without new connections. -/
def drainSystem (first : DrainState Thread) :
    TransitionSystem (DrainState Thread) Thread where
  start := fun state => state = first
  step := DrainStep

theorem DrainState.quiet_going {last first : DrainState Thread}
    (hquiet : (drainSystem Thread first).Quiet last) :
    (goingSystem Thread).Quiet last.pool := by
  rintro thread after ⟨hgoing, hstep⟩
  exact hquiet thread _ (.goes after hgoing hstep)

/-- Whoever holds the mutex can go on. -/
theorem PoolState.Inv.exists_step {pool : PoolState Thread} (hinv : pool.Inv)
    (hmutex : pool.mutex = some thread) : ∃ next, PoolStep pool thread next := by
  obtain ⟨last, halone, hfree⟩ := hinv.exists_release hmutex
  rcases Relation.ReflTransGen.cases_head halone with rfl | ⟨next, ⟨-, hstep⟩, -⟩
  · rw [hmutex] at hfree
    simp at hfree
  · exact ⟨next, hstep⟩

theorem WakeState.due_of_quiet (hinv : state.SleepInv)
    (hquiet : (goingSystem Thread).Quiet state) : state.due = none := by
  cases hdue : state.due with
  | none => rfl
  | some notice =>
      obtain ⟨thread, hthread⟩ := hinv.owed notice hdue
      have hgoing : state.Going thread := by
        constructor
        · intro hasleep
          simp [hinv.asleep thread hasleep, PoolPc.notice] at hthread
        · intro hpc
          simp [hpc, PoolPc.notice] at hthread
      cases hpc : state.pool.pcs thread with
      | pushUnlock =>
          have hsignal : state.due = some .signal := by
            rw [hdue, ← hthread, hpc]
            rfl
          cases hsleepers : state.sleepers with
          | nil =>
              exact absurd ⟨hgoing, .signalNobody state thread hpc hsignal hsleepers⟩
                (hquiet thread _)
          | cons sleeper others =>
              have hmem : sleeper ∈ state.sleepers := by simp [hsleepers]
              exact absurd ⟨hgoing, .signal state thread sleeper hpc hsignal hmem⟩
                (hquiet thread _)
      | stopUnlock =>
          have hbroadcast : state.due = some .broadcast := by
            rw [hdue, ← hthread, hpc]
            rfl
          exact absurd ⟨hgoing, .broadcast state thread hpc hbroadcast⟩ (hquiet thread _)
      | _ => simp [hpc, PoolPc.notice] at hthread

/-- Nothing is due, so a thread that could do a step of the pool sleeps or is at
the end of the accept loop's body. -/
theorem WakeState.not_going_of_quiet (hinv : state.SleepInv)
    (hquiet : (goingSystem Thread).Quiet state) {pool : PoolState Thread}
    (hstep : PoolStep state.pool thread pool) : ¬state.Going thread := by
  intro hgoing
  have hdue := WakeState.due_of_quiet hinv hquiet
  exact hquiet thread _ ⟨hgoing, .pool state thread pool hstep hgoing.1 fun _ => hdue⟩

theorem WakeState.mutex_of_quiet (hinv : state.SleepInv) (hpool : state.pool.Inv)
    (hquiet : (goingSystem Thread).Quiet state) : state.pool.mutex = none := by
  cases hmutex : state.pool.mutex with
  | none => rfl
  | some thread =>
      obtain ⟨next, hstep⟩ := hpool.exists_step hmutex
      have hlocked := (hpool.mutex thread).mp hmutex
      refine absurd ⟨fun hasleep => ?_, fun hpc => ?_⟩
        (WakeState.not_going_of_quiet hinv hquiet hstep)
      · simp [hinv.asleep thread hasleep, PoolPc.locked] at hlocked
      · simp [hpc, PoolPc.locked] at hlocked

/-- The points at which a thread stays. -/
def PoolPc.Rests : PoolPc → Prop
  | accept | acceptEnded | popWait | workerEnded | stopEnded => True
  | _ => False

/-- With the mutex free, a thread that is not at rest can do a step. -/
theorem PoolState.Inv.rests_or_step {pool : PoolState Thread} (hinv : pool.Inv)
    (hmutex : pool.mutex = none) (thread : Thread) :
    (pool.pcs thread).Rests ∨ ∃ next, PoolStep pool thread next := by
  have hfree : (pool.pcs thread).locked = false := by
    rw [← Bool.not_eq_true, ← hinv.mutex thread, hmutex]
    simp
  have hlock {next : PoolPc} (hnext : (pool.pcs thread).afterLock = some next) :
      ∃ after, PoolStep pool thread after := ⟨_, .lock pool thread next hnext hmutex⟩
  have hmove {next : PoolPc} (hnext : PoolPc.Move pool.shutdown (pool.pcs thread) next) :
      ∃ after, PoolStep pool thread after := ⟨_, .move pool thread next hnext⟩
  cases hpc : pool.pcs thread with
  | accept | acceptEnded | popWait | workerEnded | stopEnded => exact Or.inl trivial
  | pushLocked | pushUnlock | pushRefused | popLocked | popRefused | popUnlinked
  | stopLocked | stopUnlock => simp [hpc, PoolPc.locked] at hfree
  | acceptFailed =>
      right
      rw [hpc] at hmove
      cases hflag : pool.shutdown with
      | true => exact hmove (.acceptEnds hflag)
      | false => exact hmove (.acceptAgain hflag)
  | pushAlloc socket =>
      right
      rw [hpc] at hmove
      exact hmove (.allocationFails socket)
  | pushLock socket node => exact Or.inr (hlock (by rw [hpc]; rfl))
  | popLock => exact Or.inr (hlock (by rw [hpc]; rfl))
  | stopLock => exact Or.inr (hlock (by rw [hpc]; rfl))
  | pushDiscard socket node => exact Or.inr ⟨_, .discards pool thread socket node hpc⟩
  | pushClose socket =>
      exact Or.inr ⟨_, .closes pool thread socket .accept (by rw [hpc]; rfl)⟩
  | popRead node ticket =>
      obtain ⟨nodes, hqueue⟩ := hinv.queue
      have hcontent := hqueue.content thread
      rw [hpc] at hcontent
      obtain ⟨cell, hcell, -⟩ := hcontent
      exact Or.inr ⟨_, .reads pool thread node ticket cell hpc hcell⟩
  | popFree node ticket socket =>
      exact Or.inr ⟨_, .frees pool thread node ticket socket hpc⟩
  | popped result =>
      right
      rw [hpc] at hmove
      cases result with
      | none => exact hmove (.workerEnds none (Or.inr rfl))
      | some socket =>
          cases hflag : pool.shutdown with
          | true => exact hmove (.workerEnds _ (Or.inl hflag))
          | false => exact hmove (.workerServes socket hflag)
  | serving socket stage =>
      right
      rw [hpc] at hmove
      cases stage with
      | peek => exact hmove (.proceeds socket .peekFails)
      | redirect => exact hmove (.proceeds socket .redirected)
      | sslNew => exact hmove (.proceeds socket .allocationFails)
      | sslAccept => exact hmove (.proceeds socket .handshakeFails)
      | session => exact hmove (.proceeds socket .sessionEnds)
      | close => exact ⟨_, .closes pool thread socket .popLock (by rw [hpc]; rfl)⟩
  | stopDestroy =>
      right
      rw [hpc] at hmove
      exact hmove .destroys

/-! ## The workers and the sockets -/

/-- The points of a worker. -/
def PoolPc.Works : PoolPc → Prop
  | popLock | popLocked | popWait | popRefused | popUnlinked _ _ | popRead _ _
  | popFree _ _ _ | popped _ | serving _ _ | workerEnded => True
  | _ => False

theorem PoolStep.works {before after : PoolState Thread}
    (hstep : PoolStep before thread after) (hworks : (before.pcs thread).Works) :
    (after.pcs thread).Works := by
  cases hstep with
  | move pc hmove =>
      rw [PoolState.goto_pcs_self]
      generalize before.pcs thread = point at hmove hworks
      cases hmove <;> trivial
  | lock pc hnext havailable =>
      simp only [PoolState.goto_pcs_self]
      generalize before.pcs thread = point at hnext hworks
      cases point <;> cases hnext <;> trivial
  | unlock pc hnext =>
      simp only [PoolState.goto_pcs_self]
      generalize before.pcs thread = point at hnext hworks
      cases point <;> cases hnext <;> trivial
  | closes socket pc hnext =>
      simp only [PoolState.goto_pcs_self]
      generalize before.pcs thread = point at hnext hworks
      cases point with
      | serving _ stage =>
          cases stage <;> cases hnext
          trivial
      | _ => first | exact hworks.elim | cases hnext
  | _ => simp_all [PoolPc.Works]

theorem WakeStep.works (hstep : WakeStep state thread after) {worker : Thread}
    (hworks : (state.pool.pcs worker).Works) : (after.pool.pcs worker).Works := by
  cases hstep with
  | pool pool hstep hawake hsent =>
      by_cases hworker : worker = thread
      · subst hworker
        exact hstep.works hworks
      · rw [WakeState.follow, hstep.pcs_of_ne hworker]
        exact hworks
  | _ => exact hworks

theorem PoolStep.stopped_of_stopLocked {before after : PoolState Thread}
    (hstep : PoolStep before thread after) (hpc : before.pcs thread = .stopLocked) :
    after.shutdown = true := by
  cases hstep with
  | stops _ => rfl
  | move pc hmove =>
      rw [hpc] at hmove
      cases hmove
  | _ => simp_all [PoolPc.afterLock, PoolPc.afterUnlock, PoolPc.afterClose]

theorem PoolStep.shutdown_of_workerEnded {before after : PoolState Thread}
    (hinv : before.SentinelInv) (hstep : PoolStep before thread after)
    (hended : after.pcs thread = .workerEnded) : after.shutdown = true := by
  cases hstep with
  | move pc hmove =>
      rw [PoolState.goto_pcs_self] at hended
      subst hended
      cases hpc : before.pcs thread with
      | popped result =>
          rw [hpc] at hmove
          cases hmove with
          | workerEnds _ hend =>
              rcases hend with hstopped | rfl
              · exact hstopped
              · by_contra hrunning
                apply hinv (Bool.eq_false_of_not_eq_true hrunning) thread
                rw [hpc]
                trivial
      | _ =>
          rw [hpc] at hmove
          cases hmove
  | lock pc hnext havailable =>
      simp only [PoolState.goto_pcs_self] at hended
      cases hpc : before.pcs thread <;> simp_all [PoolPc.afterLock]
  | unlock pc hnext =>
      simp only [PoolState.goto_pcs_self] at hended
      cases hpc : before.pcs thread <;> simp_all [PoolPc.afterUnlock]
  | closes socket pc hnext =>
      simp only [PoolState.goto_pcs_self] at hended
      subst hended
      cases hpc : before.pcs thread with
      | serving _ stage => cases stage <;> simp [hpc, PoolPc.afterClose] at hnext
      | _ => simp [hpc, PoolPc.afterClose] at hnext
  | _ => simp at hended

/-- No worker ends before the shutdown. -/
theorem shutdown_of_workerEnded {pool : PoolState Thread}
    (hreach : (poolSystem Thread).Reachable pool) :
    ∀ worker, pool.pcs worker = .workerEnded → pool.shutdown = true := by
  apply hreach.invariant_along
  · rintro first ⟨-, -, -, -, hpcs, -⟩ worker hended
    simpa [hended] using hpcs worker
  · intro before thread after hbefore hold hstep worker hended
    by_cases hworker : worker = thread
    · subst hworker
      exact hstep.shutdown_of_workerEnded (PoolState.inv_of_reachable hbefore).sentinel
        hended
    · rw [hstep.pcs_of_ne hworker] at hended
      exact hstep.shutdown_mono (hold worker hended)

theorem restrict_of_running {pool : PoolState Thread}
    (hreach : (poolSystem Thread).Reachable pool) (hrunning : pool.shutdown = false) :
    ((poolSystem Thread).restrict QuietStop).Reachable pool := by
  induction hreach with
  | start hstart => exact .start hstart
  | next _ label hstep ih =>
      refine (ih (PoolStep.running hstep hrunning)).next label ⟨fun hpc => ?_, hstep⟩
      rw [PoolStep.stopped_of_stopLocked hstep hpc] at hrunning
      simp at hrunning

/-- What is left of the pool of `first` when nothing can go on. -/
structure WakeState.Drained (first last : WakeState Thread) : Prop where
  rests : ∀ thread, (last.pool.pcs thread).Rests
  mutex : last.pool.mutex = none
  ended : last.pool.shutdown = true →
    ∀ worker, (first.pool.pcs worker).Works → last.pool.pcs worker = .workerEnded
  served : last.pool.shutdown = false → (∃ worker, (first.pool.pcs worker).Works) →
    last.pool.waiting = [] ∧
      ∀ socket ∈ last.pool.accepted, last.pool.closed.count socket = 1

omit [DecidableEq Thread] in
theorem PoolState.OwnershipInv.closed_of_rests {pool : PoolState Thread}
    (hinv : pool.OwnershipInv) (hrests : ∀ thread, (pool.pcs thread).Rests)
    (hempty : pool.waiting = []) {socket : Socket} (hsocket : socket ∈ pool.accepted) :
    pool.closed.count socket = 1 := by
  obtain ⟨place, hplace, -⟩ := hinv.onePlace socket
  cases place with
  | outside => exact absurd hsocket hplace
  | queue =>
      have hmem : socket ∈ pool.waiting := hplace
      rw [hempty] at hmem
      simp at hmem
  | thread thread =>
      have hrest := hrests thread
      have hheld : (pool.pcs thread).holds pool.pushed = some socket := hplace
      cases hpc : pool.pcs thread <;> simp_all [PoolPc.Rests, PoolPc.holds]
  | closed => exact List.count_eq_one_of_mem hinv.closedOnce hplace

theorem drained_of_quiet {first last : WakeState Thread}
    (hreach : (wakeSystem Thread).Reachable last)
    (hworks : ∀ worker, (first.pool.pcs worker).Works → (last.pool.pcs worker).Works)
    (hquiet : (goingSystem Thread).Quiet last) : first.Drained last := by
  have hinv := sleepInv_of_reachable hreach
  have hpool := PoolState.inv_of_reachable (pool_reachable hreach)
  have hmutex := WakeState.mutex_of_quiet hinv hpool hquiet
  have hdue := WakeState.due_of_quiet hinv hquiet
  have hrests (thread : Thread) : (last.pool.pcs thread).Rests := by
    rcases hpool.rests_or_step hmutex thread with hrest | ⟨next, hstep⟩
    · exact hrest
    · by_contra hgoes
      apply WakeState.not_going_of_quiet hinv hquiet hstep
      refine ⟨fun hasleep => hgoes ?_, fun hpc => hgoes ?_⟩
      · rw [hinv.asleep thread hasleep]
        trivial
      · rw [hpc]
        trivial
  have hasleep (worker : Thread) (hpc : last.pool.pcs worker = .popWait) :
      worker ∈ last.sleepers := by
    by_contra hawake
    apply WakeState.not_going_of_quiet hinv hquiet
      (.lock last.pool worker .popLocked (by rw [hpc]; rfl) hmutex)
    exact ⟨hawake, by rw [hpc]; simp⟩
  have hworker {worker : Thread} (hfirst : (first.pool.pcs worker).Works) :
      last.pool.pcs worker = .popWait ∨ last.pool.pcs worker = .workerEnded := by
    have hrest := hrests worker
    have hlast := hworks worker hfirst
    cases hpc : last.pool.pcs worker <;> simp_all [PoolPc.Rests, PoolPc.Works]
  constructor
  case rests => exact hrests
  case mutex => exact hmutex
  case ended =>
    intro hstopped worker hfirst
    refine (hworker hfirst).resolve_left fun hpc => ?_
    have hmem := hasleep worker hpc
    rw [(hinv.stopped hstopped).resolve_left (by simp [hdue])] at hmem
    simp at hmem
  case served =>
    rintro hrunning ⟨worker, hfirst⟩
    have hnotEnded : last.pool.pcs worker ≠ .workerEnded := by
      intro hended
      rw [shutdown_of_workerEnded (pool_reachable hreach) worker hended] at hrunning
      simp at hrunning
    have hmem := hasleep worker ((hworker hfirst).resolve_right hnotEnded)
    obtain ⟨roused, hnodup, hway, hcount⟩ :=
      hinv.roused hrunning (List.ne_nil_of_mem hmem)
    have hnobody : roused = [] := by
      apply List.eq_nil_iff_forall_not_mem.mpr
      intro other hother
      obtain ⟨hpc | hpc, hawake⟩ := hway other hother
      · exact hawake (hasleep other hpc)
      · have hrest := hrests other
        rw [hpc] at hrest
        exact hrest
    have hempty : last.pool.waiting = [] := by
      apply List.eq_nil_of_length_eq_zero
      simpa [hnobody, WakeState.promised, hdue] using hcount
    refine ⟨hempty, fun socket hsocket => ?_⟩
    have howned := PoolState.ownership_of_reachable
      (restrict_of_running (pool_reachable hreach) hrunning)
    exact howned.1.closed_of_rests hrests hempty hsocket

/-- Without new connections and wake-ups out of nothing every schedule ends after a
number of steps that is bounded by the work and the rounds of the loops, and the pool
is drained wherever it ends. -/
theorem pool_drains [Fintype Thread] (hreach : (wakeSystem Thread).Reachable state)
    (rounds : ℕ) :
    (drainSystem Thread ⟨state, rounds⟩).Settles ⟨state, rounds⟩ (state.work + rounds)
      fun last => state.Drained last.pool := by
  let Known (last : DrainState Thread) : Prop := (wakeSystem Thread).Reachable last.pool ∧
    ∀ worker, (state.pool.pcs worker).Works → (last.pool.pool.pcs worker).Works
  have hfirst : Known ⟨state, rounds⟩ := ⟨hreach, fun _ => id⟩
  refine TransitionSystem.settles_of_rank
    (fun last => last.pool.work + last.rounds) hfirst ?_ ?_ ?_
  · rintro before thread after ⟨hbefore, hworks⟩ hstep
    cases hstep with
    | goes later hgoing hstep =>
        exact ⟨hbefore.next thread hstep,
          fun worker hworker => hstep.works (hworks worker hworker)⟩
    | readsAgain socket stage left hserving hloops hmore => exact ⟨hbefore, hworks⟩
  · rintro before thread after ⟨hbefore, -⟩ hstep
    cases hstep with
    | goes later hgoing hstep =>
        have hless := WakeState.work_lt (sleepInv_of_reachable hbefore)
          (PoolState.inv_of_reachable (pool_reachable hbefore)) hgoing hstep
        simp only
        omega
    | readsAgain socket stage left hserving hloops hmore =>
        simp only
        omega
  · rintro last ⟨hlast, hworks⟩ hquiet
    exact drained_of_quiet hlast hworks (DrainState.quiet_going hquiet)

end Work

theorem pool_drains_one_socket :
    ∃ state : WakeState (Fin 2), state.pool.accepted = [⟨5, 0⟩] ∧
      (state.pool.pcs 1).Works ∧
      (drainSystem (Fin 2) ⟨state, 7⟩).Settles ⟨state, 7⟩ 31
        fun last => state.Drained last.pool := by
  have hstart : (wakeSystem (Fin 2)).Reachable
      ⟨initialPool fun thread => if thread = 0 then .accept else .popLock, [], none⟩ :=
    .start ⟨⟨fun _ => rfl, rfl, rfl, rfl, by decide, rfl, rfl, rfl, rfl⟩, rfl, rfl⟩
  have haccepted := hstart.next 0
    (.pool _ 0 _ (.accepts _ 0 ⟨5, 0⟩ rfl List.not_mem_nil) (by decide) (by decide))
  refine ⟨_, rfl, ?_, pool_drains haccepted 7⟩
  trivial

end Lith
