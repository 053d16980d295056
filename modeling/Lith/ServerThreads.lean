import Lith.CacheLocking
import Lith.TaskQueue

/-!
# The pool and the cache as one server

A worker calls `handle_http_route` while it is in the session of a connection,
and the session goes on when the call has returned.  The pool moves under its
mutex and the cache under its own lock; what each of them keeps on its own it
also keeps when the steps of both are mixed.
-/

namespace Lith

structure ServerState (Thread : Type*) where
  pool : PoolState Thread
  routes : LockingState Thread

section Steps

variable {Thread : Type*}

/-- Requests are answered within a session. -/
def ServerState.RouteInv (state : ServerState Thread) : Prop :=
  ∀ thread, state.routes.pcs thread ≠ .outside →
    ∃ socket, state.pool.pcs thread = .serving socket .session

variable [DecidableEq Thread]

inductive ServerStep :
    ServerState Thread → Thread → ServerState Thread → Prop where
  | pool (state : ServerState Thread) (thread : Thread)
      (pool : PoolState Thread) (hstep : PoolStep state.pool thread pool)
      (hroute : state.routes.pcs thread = .outside) :
      ServerStep state thread { state with pool := pool }
  | route (state : ServerState Thread) (thread : Thread)
      (routes : LockingState Thread) (socket : Socket)
      (hstep : LockingStep state.routes thread routes)
      (hpc : state.pool.pcs thread = .serving socket .session) :
      ServerStep state thread { state with routes := routes }

/-! ## The other threads stand still -/

theorem PoolStep.pcs_of_ne {state after : PoolState Thread}
    {thread other : Thread} (hstep : PoolStep state thread after)
    (hother : other ≠ thread) : after.pcs other = state.pcs other := by
  cases hstep <;> exact Function.update_of_ne hother ..

theorem LockingStep.pcs_of_ne {state after : LockingState Thread}
    {thread other : Thread} (hstep : LockingStep state thread after)
    (hother : other ≠ thread) : after.pcs other = state.pcs other := by
  cases hstep <;> exact Function.update_of_ne hother ..

theorem ServerStep.pcs_of_ne {state after : ServerState Thread}
    {thread other : Thread} (hstep : ServerStep state thread after)
    (hother : other ≠ thread) :
    after.pool.pcs other = state.pool.pcs other ∧
      after.routes.pcs other = state.routes.pcs other := by
  cases hstep with
  | pool pool hstep hroute => exact ⟨hstep.pcs_of_ne hother, rfl⟩
  | route routes socket hstep hpc => exact ⟨rfl, hstep.pcs_of_ne hother⟩

theorem PoolStep.shutdown_mono {state after : PoolState Thread}
    {thread : Thread} (hstep : PoolStep state thread after)
    (hstopped : state.shutdown = true) : after.shutdown = true := by
  cases hstep <;> first | exact hstopped | rfl

theorem ServerStep.shutdown_mono {state after : ServerState Thread}
    {thread : Thread} (hstep : ServerStep state thread after)
    (hstopped : state.pool.shutdown = true) : after.pool.shutdown = true := by
  cases hstep with
  | pool pool hstep hroute => exact hstep.shutdown_mono hstopped
  | route routes socket hstep hpc => exact hstopped

theorem ServerState.RouteInv.step {state after : ServerState Thread}
    {thread : Thread} (hinv : state.RouteInv)
    (hstep : ServerStep state thread after) : after.RouteInv := by
  intro other hroute
  cases hstep with
  | pool pool hstep hfree =>
      have hother : other ≠ thread := by
        rintro rfl
        exact hroute hfree
      rw [hstep.pcs_of_ne hother]
      exact hinv other hroute
  | route routes socket hstep hpc =>
      by_cases hother : other = thread
      · rw [hother]
        exact ⟨socket, hpc⟩
      · rw [hstep.pcs_of_ne hother] at hroute
        exact hinv other hroute

/-! ## The lock when somebody else holds it too -/

/-- A step moves the lock between the modes of the points before and after,
whatever modes the other threads are in. -/
theorem LockingStep.agrees {state after : LockingState Thread}
    {worker : Thread} {mode : Thread → LockMode}
    (hstep : LockingStep state worker after)
    (hagrees : state.lock.Agrees mode)
    (hmode : mode worker = (state.pcs worker).mode) :
    after.lock.Agrees
      (Function.update mode worker (after.pcs worker).mode) := by
  have hafter (pc : RoutePc) :
      (Function.update state.pcs worker pc worker).mode = pc.mode := by
    rw [Function.update_self]
  cases hstep <;>
    simp only [LockingState.goto, LockingState.write, LockingState.commit,
      hafter]
  case lookupLock req path hpc havailable =>
    rw [hpc] at hmode
    exact hagrees.rdlock hmode havailable
  case readLock req idx hpc havailable =>
    rw [hpc] at hmode
    exact hagrees.rdlock hmode havailable
  case writeLock req idx hpc havailable hreaders =>
    exact hagrees.wrlock havailable hreaders
  case missUnlock => exact hagrees.unlock worker
  case staleUnlock => exact hagrees.unlock worker
  case writeUnlock => exact hagrees.unlock worker
  case servedUnlock => exact hagrees.unlock worker
  all_goals
    apply hagrees.update_same
    rw [hmode]
    simp only [*]
    rfl

/-! ## The mutex is given back -/

/-- The steps of one thread while all the others stand still. -/
def PoolState.Alone (thread : Thread) :
    PoolState Thread → PoolState Thread → Prop :=
  Relation.ReflTransGen fun before after =>
    (before.pcs thread).locked = true ∧ PoolStep before thread after

theorem PoolState.Alone.pcs_of_ne {state after : PoolState Thread}
    {thread other : Thread} (halone : PoolState.Alone thread state after)
    (hother : other ≠ thread) : after.pcs other = state.pcs other := by
  induction halone with
  | refl => rfl
  | tail _ hstep ih => rw [hstep.2.pcs_of_ne hother, ih]

/-- Whoever holds the mutex can go on until it is free. -/
theorem PoolState.Inv.exists_release {state : PoolState Thread}
    {thread : Thread} (hinv : state.Inv) (hmutex : state.mutex = some thread) :
    ∃ after, PoolState.Alone thread state after ∧ after.mutex = none := by
  have hlocked := (hinv.mutex thread).mp hmutex
  have hunlocks {before : PoolState Thread} {pc : PoolPc}
      (hrun : PoolState.Alone thread state before)
      (hpc : (before.pcs thread).afterUnlock = some pc) :
      ∃ after, PoolState.Alone thread state after ∧ after.mutex = none :=
    ⟨_, hrun.tail ⟨(PoolPc.locked_afterUnlock hpc).1, .unlock before thread pc hpc⟩,
      rfl⟩
  have hthen {after : PoolState Thread} (pc : PoolPc) {next : PoolPc}
      (hstep : PoolStep state thread after) (hpc : after.pcs thread = pc)
      (hnext : pc.afterUnlock = some next) :
      ∃ after, PoolState.Alone thread state after ∧ after.mutex = none := by
    apply hunlocks (.single ⟨hlocked, hstep⟩)
    rw [hpc, hnext]
  cases hpc : state.pcs thread with
  | pushUnlock => exact hunlocks .refl (by rw [hpc]; rfl)
  | pushRefused socket node => exact hunlocks .refl (by rw [hpc]; rfl)
  | popRefused => exact hunlocks .refl (by rw [hpc]; rfl)
  | popUnlinked node ticket => exact hunlocks .refl (by rw [hpc]; rfl)
  | stopUnlock => exact hunlocks .refl (by rw [hpc]; rfl)
  | stopLocked =>
      exact hthen .stopUnlock (.stops state thread hpc) (by simp) rfl
  | pushLocked socket node =>
      cases hflag : state.shutdown with
      | true =>
          have hmove : PoolPc.Move state.shutdown (state.pcs thread)
              (.pushRefused socket node) := by
            rw [hpc]
            exact .pushRefuses socket node hflag
          exact hthen (.pushRefused socket node) (.move state thread _ hmove)
            (by simp) rfl
      | false =>
          exact hthen .pushUnlock (.links state thread socket node hpc hflag)
            (by simp) rfl
  | popLocked =>
      cases hflag : state.shutdown with
      | true =>
          have hmove : PoolPc.Move state.shutdown (state.pcs thread)
              .popRefused := by
            rw [hpc]
            exact .popRefuses hflag
          exact hthen .popRefused (.move state thread _ hmove) (by simp) rfl
      | false =>
          cases hhead : state.queue.head with
          | none =>
              exact ⟨_, .single ⟨hlocked, .wait state thread hpc hhead hflag⟩,
                rfl⟩
          | some node =>
              obtain ⟨nodes, hqueue⟩ := hinv.queue
              obtain ⟨cell, hcell⟩ := hqueue.queue.chain.exists_cell hhead
              exact hthen (.popUnlinked node state.results.length)
                (.unlinks state thread node cell hpc hhead hcell hflag)
                (by simp) rfl
  | _ => simp [hpc, PoolPc.locked] at hlocked

end Steps

end Lith
