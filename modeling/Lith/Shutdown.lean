import Lith.ServerThreads
import Lith.SocketOwnership

/-!
# Shutting the server down

`thread_pool_shutdown` sets the flag and wakes the workers, and then destroys
the mutex, the condition variable and the cache without waiting for anybody:
the workers are detached.  It runs in the signal handler, on the thread that
the signal has interrupted and that stands still from then on; the other
threads go on.  Destroying an object ends its lifetime and is not felt by the
threads that use it later, since the source checks no result of these calls.

A lock that has to wait is called all the same, so the waiting is a step.
-/

namespace Lith

/-- A thread on its own stack, or the handler on the stack of another. -/
inductive Context (Thread : Type*) where
  | thread (thread : Thread)
  | handler
  deriving DecidableEq

inductive SharedObject where
  | mutex
  | cond
  | rwlock
  | content (idx : Fin maxCacheEntries)
  deriving DecidableEq

inductive Lifetime where
  | live
  | destroyed
  deriving DecidableEq

/-- What `thread_pool_shutdown` does next once it has given the mutex back;
from `wrlock` on it is in `lith_cache_destroy`. -/
inductive DestroyStage where
  | mutex
  | cond
  | wrlock
  | content (slot : ℕ)
  | rwlock
  | done
  deriving DecidableEq

inductive ShutdownEvent (Thread : Type*) where
  | signal (thread : Thread)
  | step (context : Context Thread)

structure ShutdownState (Thread : Type*) where
  server : ServerState (Context Thread)
  interrupted : Option Thread
  stage : DestroyStage
  lifetime : SharedObject → Lifetime

namespace ShutdownState

variable {Thread : Type*}

def poolPc (state : ShutdownState Thread) (context : Context Thread) : PoolPc :=
  state.server.pool.pcs context

def routePc (state : ShutdownState Thread) (context : Context Thread) :
    RoutePc :=
  state.server.routes.pcs context

def Awake (state : ShutdownState Thread) : Context Thread → Prop
  | .thread thread => state.interrupted ≠ some thread
  | .handler => state.interrupted ≠ none

/-- The next call of the context takes a lock. -/
def Requests (state : ShutdownState Thread) (context : Context Thread) : Prop :=
  (state.poolPc context).afterLock ≠ none ∨
    (state.routePc context).Requests ∨
    state.poolPc context = .stopDestroy ∧ state.stage = .wrlock

def advance (state : ShutdownState Thread) (stage : DestroyStage) :
    ShutdownState Thread :=
  { state with stage := stage }

def destroy (state : ShutdownState Thread) (object : SharedObject)
    (stage : DestroyStage) : ShutdownState Thread :=
  { state with
    stage := stage
    lifetime := Function.update state.lifetime object .destroyed }

end ShutdownState

section Steps

variable {Thread : Type*} [DecidableEq Thread]

inductive ShutdownStep : ShutdownState Thread → ShutdownEvent Thread →
    ShutdownState Thread → Prop where
  | signal (state : ShutdownState Thread) (thread : Thread)
      (hrunning : state.interrupted = none) :
      ShutdownStep state (.signal thread)
        { state with interrupted := some thread }
  | runs (state : ShutdownState Thread) (context : Context Thread)
      (server : ServerState (Context Thread))
      (hstep : ServerStep state.server context server)
      (hawake : state.Awake context)
      (hpc : state.poolPc context ≠ .stopDestroy) :
      ShutdownStep state (.step context) { state with server := server }
  | waits (state : ShutdownState Thread) (context : Context Thread)
      (hawake : state.Awake context) (hcall : state.Requests context) :
      ShutdownStep state (.step context) state
  | destroyMutex (state : ShutdownState Thread)
      (hpc : state.poolPc .handler = .stopDestroy)
      (hstage : state.stage = .mutex) :
      ShutdownStep state (.step .handler) (state.destroy .mutex .cond)
  | destroyCond (state : ShutdownState Thread)
      (hpc : state.poolPc .handler = .stopDestroy)
      (hstage : state.stage = .cond) :
      ShutdownStep state (.step .handler) (state.destroy .cond .wrlock)
  | lockCache (state : ShutdownState Thread)
      (hpc : state.poolPc .handler = .stopDestroy)
      (hstage : state.stage = .wrlock)
      (havailable : state.server.routes.lock.writer = none)
      (hreaders : state.server.routes.lock.readers = []) :
      ShutdownStep state (.step .handler)
        { state.advance (.content 0) with
          server := { state.server with
            routes := { state.server.routes with
              lock := state.server.routes.lock.wrlock .handler } } }
  | freeContent (state : ShutdownState Thread) (idx : Fin maxCacheEntries)
      (hpc : state.poolPc .handler = .stopDestroy)
      (hstage : state.stage = .content idx.val)
      (hlt : idx.val < state.server.routes.cache.entryCount)
      (hcontent : (state.server.routes.cache.entries idx).content ≠ none) :
      ShutdownStep state (.step .handler)
        (state.destroy (.content idx) (.content (idx.val + 1)))
  | skipContent (state : ShutdownState Thread) (idx : Fin maxCacheEntries)
      (hpc : state.poolPc .handler = .stopDestroy)
      (hstage : state.stage = .content idx.val)
      (hlt : idx.val < state.server.routes.cache.entryCount)
      (hcontent : (state.server.routes.cache.entries idx).content = none) :
      ShutdownStep state (.step .handler)
        (state.advance (.content (idx.val + 1)))
  | freedAll (state : ShutdownState Thread) (slot : ℕ)
      (hpc : state.poolPc .handler = .stopDestroy)
      (hstage : state.stage = .content slot)
      (hge : state.server.routes.cache.entryCount ≤ slot) :
      ShutdownStep state (.step .handler) (state.advance .rwlock)
  | destroyRwlock (state : ShutdownState Thread)
      (hpc : state.poolPc .handler = .stopDestroy)
      (hstage : state.stage = .rwlock) :
      ShutdownStep state (.step .handler)
        { state.destroy .rwlock .done with
          server := { state.server with
            pool := state.server.pool.goto .handler .stopEnded } }

/-- The server after its start: the acceptor and any number of workers, and no
signal yet. -/
def shutdownSystem (Thread : Type*) [DecidableEq Thread] :
    TransitionSystem (ShutdownState Thread) (ShutdownEvent Thread) where
  start := fun state =>
    (poolSystem (Context Thread)).start state.server.pool ∧
      (lockingSystem (Context Thread)).start state.server.routes ∧
      (∀ thread, state.poolPc (.thread thread) ∈ [.accept, .popLock]) ∧
      state.poolPc .handler = .stopLock ∧ state.interrupted = none ∧
      state.stage = .mutex ∧ ∀ object, state.lifetime object = .live
  step := ShutdownStep

end Steps

/-! ## What a step operates on -/

/-- The objects of the pool that the step between two points locks, unlocks,
waits on, signals or re-acquires. -/
def PoolPc.touched : PoolPc → PoolPc → List SharedObject
  | .pushLock _ _, _ | .popLock, _ | .stopLock, _ => [.mutex]
  | .pushUnlock, _ | .pushRefused _ _, _ | .popRefused, _
  | .popUnlinked _ _, _ | .stopUnlock, _ => [.mutex]
  | .popLocked, .popWait | .popWait, _ => [.cond, .mutex]
  | .pushLocked _ _, .pushUnlock | .stopLocked, _ => [.cond]
  | _, _ => []

/-- The cache lock, where it is taken or dropped, and the content that is sent
or that a reload frees. -/
def RoutePc.touched : RoutePc → List SharedObject
  | .lookup _ _ | .wrlock _ _ | .rdlock _ _ => [.rwlock]
  | .missed _ _ | .stale _ _ | .reloaded _ _ | .served => [.rwlock]
  | .body _ idx _ | .swap _ idx _ .content => [.content idx]
  | _ => []

def DestroyStage.touched : DestroyStage → List SharedObject
  | .wrlock => [.rwlock]
  | _ => []

namespace ShutdownState

variable {Thread : Type*}

def touched (state : ShutdownState Thread) :
    ShutdownEvent Thread → ShutdownState Thread → List SharedObject
  | .signal _, _ => []
  | .step context, after =>
      (state.poolPc context).touched (after.poolPc context) ++
        (state.routePc context).touched ++
        if state.poolPc context = .stopDestroy then state.stage.touched else []

end ShutdownState

/-- With the flag set, a thread at this point uses no shared object again. -/
def PoolPc.Past : PoolPc → Prop
  | .popRead _ _ | .popFree _ _ _ | .popped _ | .workerEnded | .acceptFailed
  | .acceptEnded => True
  | _ => False

/-- When the handler is about to destroy the mutex, every thread but the one
it runs on is past its last use. -/
def QuietDestroy {Thread : Type*} (state : ShutdownState Thread) :
    ShutdownEvent Thread → Prop
  | .signal _ => True
  | .step context => context = .handler → state.poolPc .handler = .stopDestroy →
      state.stage = .mutex → ∀ thread, state.interrupted ≠ some thread →
      (state.poolPc (.thread thread)).Past

/-! ## The handler and the locks in every run -/

def PoolPc.Stops : PoolPc → Prop
  | .stopLock | .stopLocked | .stopUnlock | .stopDestroy | .stopEnded => True
  | _ => False

/-- How the shutdown holds the cache lock, which it never gives back. -/
def DestroyStage.mode : DestroyStage → LockMode
  | .content _ | .rwlock | .done => .exclusive
  | _ => .free

/-- The objects that may be gone at a stage. -/
def DestroyStage.Passed : DestroyStage → SharedObject → Prop
  | .mutex, _ => False
  | .cond, object => object = .mutex
  | .wrlock, object => object = .mutex ∨ object = .cond
  | .content _, object => object ≠ .rwlock
  | .rwlock, object => object ≠ .rwlock
  | .done, _ => True

section Invariant

variable {Thread : Type*} {state after : ShutdownState Thread}

def ShutdownState.mode (state : ShutdownState Thread) :
    Context Thread → LockMode
  | .thread thread => (state.routePc (.thread thread)).mode
  | .handler => state.stage.mode

/-- The handler starts with the signal, sets the flag before it destroys
anything, and destroys one object after the other. -/
structure ShutdownState.HandlerInv (state : ShutdownState Thread) : Prop where
  stops : (state.poolPc .handler).Stops
  running : state.interrupted = none → state.poolPc .handler = .stopLock
  stopped : (state.poolPc .handler).HasStopped →
    state.server.pool.shutdown = true
  begun : state.stage ≠ .mutex →
    state.poolPc .handler = .stopDestroy ∨ state.poolPc .handler = .stopEnded
  passed : ∀ object, state.lifetime object = .destroyed →
    state.stage.Passed object

theorem DestroyStage.Passed.update {lifetime : SharedObject → Lifetime}
    {before after : DestroyStage} {gone : SharedObject}
    (hpassed : ∀ object, lifetime object = .destroyed → before.Passed object)
    (hlater : ∀ object, before.Passed object → after.Passed object)
    (hgone : after.Passed gone) (object : SharedObject)
    (hdestroyed : Function.update lifetime gone .destroyed object =
      .destroyed) : after.Passed object := by
  by_cases hsame : object = gone
  · rw [hsame]
    exact hgone
  · rw [Function.update_of_ne hsame] at hdestroyed
    exact hlater object (hpassed object hdestroyed)

theorem ShutdownState.HandlerInv.moves (hinv : state.HandlerInv)
    {pool : PoolState (Context Thread)} (pc : PoolPc)
    (hawake : state.Awake .handler) (hstage : state.stage = .mutex)
    (hpc : pool.pcs .handler = pc) (hstops : pc.Stops)
    (hstopped : pc.HasStopped → pool.shutdown = true) :
    ShutdownState.HandlerInv
      { state with server := { state.server with pool := pool } } where
  stops := by
    rw [ShutdownState.poolPc, hpc]
    exact hstops
  running := fun hnone => absurd hnone hawake
  stopped := by
    rw [ShutdownState.poolPc, hpc]
    exact hstopped
  begun := fun hbegun => absurd hstage hbegun
  passed := hinv.passed

/-- A step of the destruction keeps the rest of the handler's state. -/
theorem ShutdownState.HandlerInv.destroys (hinv : state.HandlerInv)
    (hpc : state.poolPc .handler = .stopDestroy)
    (hinterrupted : after.interrupted = state.interrupted)
    (hshutdown : after.server.pool.shutdown = state.server.pool.shutdown)
    (hafter : after.poolPc .handler = .stopDestroy ∨
      after.poolPc .handler = .stopEnded)
    (hpassed : ∀ object, after.lifetime object = .destroyed →
      after.stage.Passed object) : after.HandlerInv where
  stops := by
    rcases hafter with hat | hat <;> rw [hat] <;> trivial
  running := by
    intro hnone
    rw [hinterrupted] at hnone
    have hstart := hinv.running hnone
    rw [hpc] at hstart
    simp at hstart
  stopped := by
    intro _
    rw [hshutdown]
    apply hinv.stopped
    rw [hpc]
    trivial
  begun := fun _ => hafter
  passed := hpassed

theorem ShutdownState.HandlerInv.routePc (hinv : state.HandlerInv)
    (hroute : state.server.RouteInv) : state.routePc .handler = .outside := by
  by_contra hinside
  obtain ⟨socket, hserving⟩ := hroute .handler hinside
  have hstops := hinv.stops
  rw [ShutdownState.poolPc, hserving] at hstops
  exact hstops

theorem ShutdownState.HandlerInv.shutdown (hinv : state.HandlerInv)
    (hbegun : state.stage ≠ .mutex) : state.server.pool.shutdown = true := by
  apply hinv.stopped
  rcases hinv.begun hbegun with hat | hat <;> rw [hat] <;> trivial

theorem ShutdownState.mode_congr
    (hroutes : after.server.routes.pcs = state.server.routes.pcs)
    (hstage : after.stage.mode = state.stage.mode) : after.mode = state.mode := by
  funext context
  cases context with
  | thread thread =>
      simp only [ShutdownState.mode, ShutdownState.routePc, hroutes]
  | handler => exact hstage

variable [DecidableEq Thread] {event : ShutdownEvent Thread}

/-- All that `thread_pool_shutdown` does to the pool. -/
theorem PoolStep.of_stops {Thread : Type*} [DecidableEq Thread]
    {state after : PoolState Thread} {thread : Thread}
    (hstep : PoolStep state thread after) (hstops : (state.pcs thread).Stops) :
    (state.pcs thread = .stopLock ∧
      after = { state.goto thread .stopLocked with mutex := some thread }) ∨
    (state.pcs thread = .stopLocked ∧
      after = { state.goto thread .stopUnlock with shutdown := true }) ∨
    (state.pcs thread = .stopUnlock ∧
      after = { state.goto thread .stopDestroy with mutex := none }) ∨
    (state.pcs thread = .stopDestroy ∧ after = state.goto thread .stopEnded) := by
  cases hstep with
  | move pc hmove =>
      generalize hpc : state.pcs thread = before at hmove hstops
      cases hmove with
      | destroys => exact .inr (.inr (.inr ⟨rfl, rfl⟩))
      | _ => exact hstops.elim
  | lock pc hnext havailable =>
      generalize hpc : state.pcs thread = before at hnext hstops
      cases before with
      | stopLock =>
          cases hnext
          exact .inl ⟨rfl, rfl⟩
      | _ => first | exact hstops.elim | cases hnext
  | unlock pc hnext =>
      generalize hpc : state.pcs thread = before at hnext hstops
      cases before with
      | stopUnlock =>
          cases hnext
          exact .inr (.inr (.inl ⟨rfl, rfl⟩))
      | _ => first | exact hstops.elim | cases hnext
  | closes socket pc hnext =>
      generalize hpc : state.pcs thread = before at hnext hstops
      cases before <;> first | exact hstops.elim | cases hnext
  | stops hpc => exact .inr (.inl ⟨hpc, rfl⟩)
  | wait hpc => rw [hpc] at hstops; exact hstops.elim
  | accepts socket hpc => rw [hpc] at hstops; exact hstops.elim
  | allocates socket node hpc => rw [hpc] at hstops; exact hstops.elim
  | links socket node hpc => rw [hpc] at hstops; exact hstops.elim
  | discards socket node hpc => rw [hpc] at hstops; exact hstops.elim
  | unlinks node cell hpc => rw [hpc] at hstops; exact hstops.elim
  | reads node ticket cell hpc => rw [hpc] at hstops; exact hstops.elim
  | frees node ticket socket hpc => rw [hpc] at hstops; exact hstops.elim

/-- The handler's own steps before it destroys anything. -/
theorem ShutdownState.HandlerInv.runs_handler (hinv : state.HandlerInv)
    {server : ServerState (Context Thread)}
    (hstep : ServerStep state.server .handler server)
    (hawake : state.Awake .handler)
    (hpc : state.poolPc .handler ≠ .stopDestroy) :
    ShutdownState.HandlerInv { state with server := server } := by
  have hstops := hinv.stops
  cases hstep with
  | route routes socket hstep hserving =>
      rw [ShutdownState.poolPc, hserving] at hstops
      exact hstops.elim
  | pool pool hstep hroute =>
      have hearly {pc : PoolPc} (hat : state.poolPc .handler = pc)
          (hended : pc ≠ .stopEnded) : state.stage = .mutex := by
        by_contra hbegun
        rcases hinv.begun hbegun with hdestroy | hdone
        · exact hpc hdestroy
        · exact hended (hat.symm.trans hdone)
      rcases hstep.of_stops hstops with
        ⟨hat, rfl⟩ | ⟨hat, rfl⟩ | ⟨hat, rfl⟩ | ⟨hat, rfl⟩
      · exact hinv.moves .stopLocked hawake (hearly hat nofun) (by simp)
          trivial False.elim
      · exact hinv.moves .stopUnlock hawake (hearly hat nofun) (by simp)
          trivial fun _ => rfl
      · refine hinv.moves .stopDestroy hawake (hearly hat nofun) (by simp)
          trivial ?_
        intro _
        apply hinv.stopped
        rw [ShutdownState.poolPc, hat]
        trivial
      · exact absurd hat hpc

theorem ShutdownState.HandlerInv.runs_thread (hinv : state.HandlerInv)
    {server : ServerState (Context Thread)} {thread : Thread}
    (hstep : ServerStep state.server (.thread thread) server) :
    ShutdownState.HandlerInv { state with server := server } := by
  have hsame : server.pool.pcs .handler = state.poolPc .handler :=
    (hstep.pcs_of_ne (by simp)).1
  refine ⟨?_, ?_, ?_, ?_, hinv.passed⟩
  · rw [ShutdownState.poolPc, hsame]
    exact hinv.stops
  · intro hnone
    rw [ShutdownState.poolPc, hsame]
    exact hinv.running hnone
  · rw [ShutdownState.poolPc, hsame]
    intro hstopped
    exact hstep.shutdown_mono (hinv.stopped hstopped)
  · intro hstage
    rw [ShutdownState.poolPc, hsame]
    exact hinv.begun hstage

theorem ShutdownState.HandlerInv.step (hinv : state.HandlerInv)
    (hstep : ShutdownStep state event after) : after.HandlerInv := by
  have hpassed := hinv.passed
  cases hstep with
  | signal thread hrunning =>
      exact ⟨hinv.stops, nofun, hinv.stopped, hinv.begun, hpassed⟩
  | runs context server hstep hawake hpc =>
      cases context with
      | thread thread => exact hinv.runs_thread hstep
      | handler => exact hinv.runs_handler hstep hawake hpc
  | waits context hawake hcall => exact hinv
  | destroyMutex hpc hstage =>
      rw [hstage] at hpassed
      refine hinv.destroys hpc rfl rfl (.inl hpc) ?_
      exact DestroyStage.Passed.update hpassed (fun _ h => h.elim) rfl
  | destroyCond hpc hstage =>
      rw [hstage] at hpassed
      refine hinv.destroys hpc rfl rfl (.inl hpc) ?_
      exact DestroyStage.Passed.update hpassed (fun _ h => .inl h) (.inr rfl)
  | lockCache hpc hstage havailable hreaders =>
      rw [hstage] at hpassed
      refine hinv.destroys hpc rfl rfl (.inl hpc) ?_
      intro object hdestroyed hsame
      rcases hpassed object hdestroyed with hgone | hgone <;>
        simp [hgone] at hsame
  | freeContent idx hpc hstage hlt hcontent =>
      rw [hstage] at hpassed
      refine hinv.destroys hpc rfl rfl (.inl hpc) ?_
      exact DestroyStage.Passed.update hpassed (fun _ => id) nofun
  | skipContent idx hpc hstage hlt hcontent =>
      rw [hstage] at hpassed
      exact hinv.destroys hpc rfl rfl (.inl hpc) hpassed
  | freedAll slot hpc hstage hge =>
      rw [hstage] at hpassed
      exact hinv.destroys hpc rfl rfl (.inl hpc) hpassed
  | destroyRwlock hpc hstage =>
      refine hinv.destroys hpc rfl rfl (.inr ?_) ?_
      · simp [ShutdownState.poolPc, PoolState.goto]
      · exact fun _ _ => trivial

theorem ShutdownStep.routeInv (hstep : ShutdownStep state event after)
    (hinv : state.server.RouteInv) : after.server.RouteInv := by
  cases hstep with
  | runs context server hstep hawake hpc => exact hinv.step hstep
  | destroyRwlock hpc hstage =>
      intro context hroute
      obtain ⟨socket, hserving⟩ := hinv context hroute
      have hcontext : context ≠ .handler := by
        rintro rfl
        rw [ShutdownState.poolPc, hserving] at hpc
        simp at hpc
      refine ⟨socket, ?_⟩
      simp only [PoolState.goto, Function.update_of_ne hcontext]
      exact hserving
  | _ => exact hinv

theorem ShutdownStep.pool_reachable (hstep : ShutdownStep state event after)
    (hreach : (poolSystem (Context Thread)).Reachable state.server.pool) :
    (poolSystem (Context Thread)).Reachable after.server.pool := by
  cases hstep with
  | runs context server hstep hawake hpc =>
      cases hstep with
      | pool pool hstep hroute => exact hreach.next context hstep
      | route routes socket hstep hserving => exact hreach
  | destroyRwlock hpc hstage =>
      apply hreach.next .handler
      apply PoolStep.move
      rw [ShutdownState.poolPc] at hpc
      rw [hpc]
      exact .destroys
  | _ => exact hreach

theorem ShutdownStep.agrees (hstep : ShutdownStep state event after)
    (hinv : state.HandlerInv)
    (hagrees : state.server.routes.lock.Agrees state.mode) :
    after.server.routes.lock.Agrees after.mode := by
  have hkeep (hlock : after.server.routes.lock = state.server.routes.lock)
      (hroutes : after.server.routes.pcs = state.server.routes.pcs)
      (hstage : after.stage.mode = state.stage.mode) :
      after.server.routes.lock.Agrees after.mode := by
    rw [ShutdownState.mode_congr hroutes hstage, hlock]
    exact hagrees
  cases hstep with
  | signal thread hrunning => exact hkeep rfl rfl rfl
  | waits context hawake hcall => exact hagrees
  | runs context server hstep hawake hpc =>
      cases hstep with
      | pool pool hstep hroute => exact hkeep rfl rfl rfl
      | route routes socket hstep hserving =>
          cases context with
          | handler =>
              have hstops := hinv.stops
              rw [ShutdownState.poolPc, hserving] at hstops
              exact hstops.elim
          | thread thread =>
              have hmoved := hstep.agrees hagrees rfl
              convert hmoved using 1
              funext context
              by_cases hcontext : context = .thread thread
              · rw [hcontext, Function.update_self]
                rfl
              · rw [Function.update_of_ne hcontext]
                cases context with
                | handler => rfl
                | thread other =>
                    exact congrArg RoutePc.mode (hstep.pcs_of_ne hcontext)
  | lockCache hpc hstage havailable hreaders =>
      have hlocked : (state.server.routes.lock.wrlock .handler).Agrees
          (Function.update state.mode .handler .exclusive) :=
        hagrees.wrlock havailable hreaders
      convert hlocked using 1
      funext context
      cases context with
      | thread thread => rw [Function.update_of_ne (by simp)]; rfl
      | handler => rw [Function.update_self]; rfl
  | destroyMutex hpc hstage => exact hkeep rfl rfl (by rw [hstage]; rfl)
  | destroyCond hpc hstage => exact hkeep rfl rfl (by rw [hstage]; rfl)
  | freeContent idx hpc hstage hlt hcontent =>
      exact hkeep rfl rfl (by rw [hstage]; rfl)
  | skipContent idx hpc hstage hlt hcontent =>
      exact hkeep rfl rfl (by rw [hstage]; rfl)
  | freedAll slot hpc hstage hge => exact hkeep rfl rfl (by rw [hstage]; rfl)
  | destroyRwlock hpc hstage => exact hkeep rfl rfl (by rw [hstage]; rfl)

structure ShutdownState.Inv (state : ShutdownState Thread) : Prop where
  pool : (poolSystem (Context Thread)).Reachable state.server.pool
  route : state.server.RouteInv
  handler : state.HandlerInv
  agrees : state.server.routes.lock.Agrees state.mode

theorem ShutdownState.Inv.step (hinv : state.Inv)
    (hstep : ShutdownStep state event after) : after.Inv :=
  ⟨hstep.pool_reachable hinv.pool, hstep.routeInv hinv.route,
    hinv.handler.step hstep, hstep.agrees hinv.handler hinv.agrees⟩

theorem ShutdownState.inv_of_reachable
    (hreach : (shutdownSystem Thread).Reachable state) : state.Inv := by
  apply hreach.invariant
  · intro first hstart
    obtain ⟨hpool, hroutes, -, hhandler, hrunning, hstage, hlive⟩ := hstart
    obtain ⟨hlock, houtside, -, -⟩ := hroutes
    refine ⟨.start hpool, ?_, ?_, ?_⟩
    · intro context hroute
      exact absurd (houtside context) hroute
    · refine ⟨?_, fun _ => hhandler, ?_, ?_, ?_⟩
      · rw [hhandler]
        trivial
      · rw [hhandler]
        exact False.elim
      · exact fun hbegun => absurd hstage hbegun
      · intro object hdestroyed
        rw [hlive] at hdestroyed
        simp at hdestroyed
    · rw [hlock]
      apply RwLock.agrees_unlocked
      intro context
      cases context with
      | thread thread =>
          rw [ShutdownState.mode, ShutdownState.routePc, houtside]
          rfl
      | handler => rw [ShutdownState.mode, hstage]; rfl
  · intro before event after hinv hstep
    exact hinv.step hstep

theorem PoolPc.content_notMem_touched (pc next : PoolPc)
    (idx : Fin maxCacheEntries) : .content idx ∉ pc.touched next := by
  unfold PoolPc.touched
  split <;> simp

theorem RoutePc.mode_of_content_mem_touched {pc : RoutePc}
    {idx : Fin maxCacheEntries} (hmem : .content idx ∈ pc.touched) :
    pc.mode ≠ .free := by
  unfold RoutePc.touched at hmem
  split at hmem <;> simp [RoutePc.mode] at hmem ⊢

theorem DestroyStage.mode_of_passed {stage : DestroyStage}
    {idx : Fin maxCacheEntries} (hpassed : stage.Passed (.content idx)) :
    stage.mode = .exclusive := by
  cases stage <;> simp [DestroyStage.Passed, DestroyStage.mode] at hpassed ⊢

theorem ShutdownState.Inv.passed_of_not_live (hinv : state.Inv)
    {object : SharedObject} (hdead : state.lifetime object ≠ .live) :
    state.stage.Passed object := by
  apply hinv.handler.passed
  cases hlife : state.lifetime object with
  | live => exact absurd hlife hdead
  | destroyed => rfl

/-- What `lith_cache_destroy` has freed is never sent: it keeps the write lock,
and the content is read under the read lock. -/
theorem content_live_of_touched
    (hreach : (shutdownSystem Thread).Reachable state)
    {idx : Fin maxCacheEntries}
    (hobject : .content idx ∈ state.touched event after) :
    state.lifetime (.content idx) = .live := by
  have hinv := ShutdownState.inv_of_reachable hreach
  by_contra hdead
  have hwrites : state.mode .handler = .exclusive :=
    DestroyStage.mode_of_passed (hinv.passed_of_not_live hdead)
  cases event with
  | signal thread => simp [ShutdownState.touched] at hobject
  | step context =>
      have hroute : .content idx ∈ (state.routePc context).touched := by
        simp only [ShutdownState.touched, List.mem_append] at hobject
        rcases hobject with (hpool | hroute) | hdestroy
        · exact absurd hpool (PoolPc.content_notMem_touched _ _ idx)
        · exact hroute
        · split_ifs at hdestroy
          · cases hat : state.stage <;> rw [hat] at hdestroy <;>
              simp [DestroyStage.touched] at hdestroy
          · simp at hdestroy
      cases context with
      | handler =>
          rw [hinv.handler.routePc hinv.route] at hroute
          simp [RoutePc.touched] at hroute
      | thread thread =>
          have hheld : state.mode (.thread thread) ≠ .free :=
            RoutePc.mode_of_content_mem_touched hroute
          have halone := hinv.agrees.eq_of_exclusive hwrites hheld
          simp at halone

/-! ## Nobody is left when the mutex is destroyed -/

theorem PoolPc.Past.touched_eq_nil {pc : PoolPc} (hpast : pc.Past)
    (next : PoolPc) : pc.touched next = [] := by
  cases pc <;> first | rfl | exact hpast.elim

theorem PoolStep.past {Thread : Type*} [DecidableEq Thread]
    {state after : PoolState Thread} {thread : Thread}
    (hstep : PoolStep state thread after) (hstopped : state.shutdown = true)
    (hpast : (state.pcs thread).Past) : (after.pcs thread).Past := by
  cases hstep with
  | move pc hmove =>
      simp only [PoolState.goto, Function.update_self]
      generalize state.pcs thread = before at hmove hpast
      cases hmove with
      | acceptAgain hrunning => simp [hstopped] at hrunning
      | workerServes socket hrunning => simp [hstopped] at hrunning
      | acceptEnds | workerEnds => trivial
      | _ => exact hpast.elim
  | lock pc hpc havailable =>
      generalize state.pcs thread = before at hpc hpast
      cases before <;> first | exact hpast.elim | cases hpc
  | unlock pc hpc =>
      generalize state.pcs thread = before at hpc hpast
      cases before <;> first | exact hpast.elim | cases hpc
  | closes socket pc hpc =>
      generalize state.pcs thread = before at hpc hpast
      cases before <;> first | exact hpast.elim | cases hpc
  | reads node ticket cell hpc hcell =>
      simp [PoolState.goto, PoolPc.Past]
  | frees node ticket socket hpc =>
      simp [PoolState.goto, PoolPc.Past]
  | wait hpc => rw [hpc] at hpast; exact hpast.elim
  | accepts socket hpc => rw [hpc] at hpast; exact hpast.elim
  | allocates socket node hpc => rw [hpc] at hpast; exact hpast.elim
  | links socket node hpc => rw [hpc] at hpast; exact hpast.elim
  | discards socket node hpc => rw [hpc] at hpast; exact hpast.elim
  | unlinks node cell hpc => rw [hpc] at hpast; exact hpast.elim
  | stops hpc => rw [hpc] at hpast; exact hpast.elim

theorem ShutdownStep.awake {thread : Thread}
    (hstep : ShutdownStep state (.step (.thread thread)) after) :
    state.interrupted ≠ some thread := by
  cases hstep with
  | runs context server hstep hawake hpc => exact hawake
  | waits context hawake hcall => exact hawake

def ShutdownState.QuietInv (state : ShutdownState Thread) : Prop :=
  state.stage ≠ .mutex → ∀ thread, state.interrupted ≠ some thread →
    (state.poolPc (.thread thread)).Past

theorem ShutdownState.QuietInv.runs (hquiet : state.QuietInv)
    (hinv : state.HandlerInv) {context : Context Thread}
    {server : ServerState (Context Thread)}
    (hstep : ServerStep state.server context server) :
    ShutdownState.QuietInv { state with server := server } := by
  intro hbegun thread hother
  have hpast := hquiet hbegun thread hother
  by_cases hcontext : .thread thread = context
  · subst hcontext
    cases hstep with
    | pool pool hstep hroute => exact hstep.past (hinv.shutdown hbegun) hpast
    | route routes socket hstep hserving => exact hpast
  · rw [ShutdownState.poolPc, (hstep.pcs_of_ne hcontext).1]
    exact hpast

theorem ShutdownState.QuietInv.step (hquiet : state.QuietInv)
    (hinv : state.HandlerInv) (hallowed : QuietDestroy state event)
    (hstep : ShutdownStep state event after) : after.QuietInv := by
  have hkeep {stage : DestroyStage} (hat : state.stage = stage)
      (hbegun : stage ≠ .mutex) (thread : Thread)
      (hother : state.interrupted ≠ some thread) :
      (state.poolPc (.thread thread)).Past :=
    hquiet (hat ▸ hbegun) thread hother
  cases hstep with
  | signal thread hrunning =>
      intro hbegun other _
      apply hquiet hbegun other
      simp [hrunning]
  | runs context server hstep hawake hpc => exact hquiet.runs hinv hstep
  | waits context hawake hcall => exact hquiet
  | destroyMutex hpc hstage => exact fun _ => hallowed rfl hpc hstage
  | destroyCond hpc hstage => exact fun _ => hkeep hstage (by simp)
  | lockCache hpc hstage havailable hreaders =>
      exact fun _ => hkeep hstage (by simp)
  | freeContent idx hpc hstage hlt hcontent =>
      exact fun _ => hkeep hstage (by simp)
  | skipContent idx hpc hstage hlt hcontent =>
      exact fun _ => hkeep hstage (by simp)
  | freedAll slot hpc hstage hge => exact fun _ => hkeep hstage (by simp)
  | destroyRwlock hpc hstage =>
      intro _ thread hother
      have hpast := hkeep hstage (by simp) thread hother
      simpa [ShutdownState.poolPc, PoolState.goto] using hpast

theorem ShutdownState.quietInv_of_reachable
    (hreach : ((shutdownSystem Thread).restrict QuietDestroy).Reachable state) :
    state.QuietInv := by
  apply hreach.invariant_along
  · intro first hstart hbegun
    exact absurd hstart.2.2.2.2.2.1 hbegun
  · intro before event after hbefore hquiet hstep
    have hinv := ShutdownState.inv_of_reachable hbefore.of_restrict
    exact hquiet.step hinv.handler hstep.1 hstep.2

/-- No step of a run that destroys the mutex when nobody needs it any more
operates on an object that is gone. -/
theorem live_of_touched
    (hreach : ((shutdownSystem Thread).restrict QuietDestroy).Reachable state)
    (hstep : ShutdownStep state event after) {object : SharedObject}
    (hobject : object ∈ state.touched event after) :
    state.lifetime object = .live := by
  have hinv := ShutdownState.inv_of_reachable hreach.of_restrict
  have hquiet := ShutdownState.quietInv_of_reachable hreach
  by_contra hdead
  have hpassed := hinv.passed_of_not_live hdead
  have hbegun : state.stage ≠ .mutex := by
    intro hstage
    rw [hstage] at hpassed
    exact hpassed
  cases event with
  | signal thread => simp [ShutdownState.touched] at hobject
  | step context =>
      cases context with
      | thread thread =>
          have hpast := hquiet hbegun thread hstep.awake
          have hroute : state.routePc (.thread thread) = .outside := by
            by_contra hinside
            obtain ⟨socket, hserving⟩ := hinv.route _ hinside
            rw [ShutdownState.poolPc, hserving] at hpast
            exact hpast
          have hnot : state.poolPc (.thread thread) ≠ .stopDestroy := by
            intro hat
            rw [hat] at hpast
            exact hpast
          simp [ShutdownState.touched, hpast.touched_eq_nil, hroute, hnot,
            RoutePc.touched] at hobject
      | handler =>
          have hroute := hinv.handler.routePc hinv.route
          rcases hinv.handler.begun hbegun with hat | hat
          · simp only [ShutdownState.touched, hat, hroute, PoolPc.touched,
              RoutePc.touched, List.nil_append, if_true] at hobject
            cases hstage : state.stage <;> rw [hstage] at hobject hpassed <;>
              simp [DestroyStage.touched] at hobject
            subst hobject
            simp [DestroyStage.Passed] at hpassed
          · simp [ShutdownState.touched, hat, hroute, PoolPc.touched,
              RoutePc.touched] at hobject

end Invariant

def acceptorAndWorker : ShutdownState Bool where
  server := {
    pool := initialPool fun
      | .thread true => .accept
      | .thread false => .popLock
      | .handler => .stopLock
    routes := {
      lock := RwLock.unlocked
      cache := indexCache
      pcs := fun _ => .outside
      versions := fun idx => [indexCache.entries idx]
      answers := [] } }
  interrupted := none
  stage := .mutex
  lifetime := fun _ => .live

theorem start_acceptorAndWorker :
    (shutdownSystem Bool).start acceptorAndWorker := by
  refine ⟨⟨fun _ => rfl, rfl, rfl, rfl, ?_, rfl, rfl, rfl, rfl⟩,
    ⟨rfl, fun _ => rfl, fun _ => rfl, rfl⟩, ?_, rfl, rfl, rfl, fun _ => rfl⟩
  · intro context
    match context with
    | .thread true | .thread false | .handler => decide
  · intro thread
    cases thread <;> decide

theorem quietDestroy_of_ne {Thread : Type*} {state : ShutdownState Thread}
    (hpc : state.poolPc .handler ≠ .stopDestroy) (event : ShutdownEvent Thread) :
    QuietDestroy state event := by
  cases event with
  | signal thread => trivial
  | step context => exact fun _ hat => absurd hat hpc

/-- The worker has woken up and gone when the mutex is destroyed. -/
theorem live_of_touched_workerGone :
    ∃ state after : ShutdownState Bool,
      ShutdownStep state (.step .handler) after ∧
        state.lifetime .mutex = .destroyed ∧
        .rwlock ∈ state.touched (.step .handler) after ∧
        state.lifetime .rwlock = .live := by
  have hstart : ((shutdownSystem Bool).restrict QuietDestroy).Reachable
      acceptorAndWorker := .start start_acceptorAndWorker
  have hlocked := hstart.next (.step (.thread false))
    ⟨quietDestroy_of_ne (by decide) _,
      .runs _ _ _ (.pool _ _ _ (.lock _ _ _ rfl rfl) rfl) nofun nofun⟩
  have hwaiting := hlocked.next (.step (.thread false))
    ⟨quietDestroy_of_ne (by decide) _,
      .runs _ _ _ (.pool _ _ _ (.wait _ _ rfl rfl rfl) rfl) nofun nofun⟩
  have hsignal := hwaiting.next (.signal true)
    ⟨trivial, .signal _ true rfl⟩
  have hstopLocked := hsignal.next (.step .handler)
    ⟨quietDestroy_of_ne (by decide) _,
      .runs _ _ _ (.pool _ _ _ (.lock _ _ _ rfl rfl) rfl) nofun nofun⟩
  have hset := hstopLocked.next (.step .handler)
    ⟨quietDestroy_of_ne (by decide) _,
      .runs _ _ _ (.pool _ _ _ (.stops _ _ rfl) rfl) nofun nofun⟩
  have hstopUnlocked := hset.next (.step .handler)
    ⟨quietDestroy_of_ne (by decide) _,
      .runs _ _ _ (.pool _ _ _ (.unlock _ _ _ rfl) rfl) nofun nofun⟩
  have hwoken := hstopUnlocked.next (.step (.thread false))
    ⟨nofun,
      .runs _ _ _ (.pool _ _ _ (.lock _ _ _ rfl rfl) rfl) nofun nofun⟩
  have hrefused := hwoken.next (.step (.thread false))
    ⟨nofun,
      .runs _ _ _ (.pool _ _ _ (.move _ _ _ (.popRefuses rfl)) rfl) nofun nofun⟩
  have hpopped := hrefused.next (.step (.thread false))
    ⟨nofun,
      .runs _ _ _ (.pool _ _ _ (.unlock _ _ _ rfl) rfl) nofun nofun⟩
  have hdestroyed := hpopped.next (.step .handler)
    ⟨fun _ _ _ thread hother => by
      cases thread with
      | true => exact absurd rfl hother
      | false => trivial,
      .destroyMutex _ rfl rfl⟩
  have hcond := hdestroyed.next (.step .handler)
    ⟨nofun, .destroyCond _ rfl rfl⟩
  have hlocks {state : ShutdownState Bool}
      (hreach : ((shutdownSystem Bool).restrict QuietDestroy).Reachable state)
      (hpc : state.poolPc .handler = .stopDestroy)
      (hstage : state.stage = .wrlock)
      (hlock : state.server.routes.lock = RwLock.unlocked) :
      ∃ after, ShutdownStep state (.step .handler) after ∧
        .rwlock ∈ state.touched (.step .handler) after ∧
        state.lifetime .rwlock = .live := by
    have hstep := ShutdownStep.lockCache state hpc hstage
      (congrArg RwLock.writer hlock) (congrArg RwLock.readers hlock)
    have hobject (after : ShutdownState Bool) :
        .rwlock ∈ state.touched (.step .handler) after := by
      simp [ShutdownState.touched, hpc, hstage, DestroyStage.touched]
    exact ⟨_, hstep, hobject _, live_of_touched hreach hstep (hobject _)⟩
  obtain ⟨after, hstep, hobject, hlive⟩ := hlocks hcond rfl rfl rfl
  exact ⟨_, after, hstep, rfl, hobject, hlive⟩

/-- The worker wakes up when everything has been destroyed. -/
theorem not_live_of_touched_waiting :
    ¬∀ state : ShutdownState Bool, (shutdownSystem Bool).Reachable state →
      ∀ event after, ShutdownStep state event after →
      ∀ object ∈ state.touched event after, state.lifetime object = .live := by
  intro hsafe
  have hstart : (shutdownSystem Bool).Reachable acceptorAndWorker :=
    .start start_acceptorAndWorker
  have hlocked := hstart.next (.step (.thread false))
    (.runs _ _ _ (.pool _ _ _ (.lock _ _ _ rfl rfl) rfl) nofun nofun)
  have hwaiting := hlocked.next (.step (.thread false))
    (.runs _ _ _ (.pool _ _ _ (.wait _ _ rfl rfl rfl) rfl) nofun nofun)
  have hsignal := hwaiting.next (.signal true) (.signal _ true rfl)
  have hstopLocked := hsignal.next (.step .handler)
    (.runs _ _ _ (.pool _ _ _ (.lock _ _ _ rfl rfl) rfl) nofun nofun)
  have hset := hstopLocked.next (.step .handler)
    (.runs _ _ _ (.pool _ _ _ (.stops _ _ rfl) rfl) nofun nofun)
  have hstopUnlocked := hset.next (.step .handler)
    (.runs _ _ _ (.pool _ _ _ (.unlock _ _ _ rfl) rfl) nofun nofun)
  have hmutex := hstopUnlocked.next (.step .handler) (.destroyMutex _ rfl rfl)
  have hcond := hmutex.next (.step .handler) (.destroyCond _ rfl rfl)
  have hcache := hcond.next (.step .handler) (.lockCache _ rfl rfl rfl rfl)
  have hfreed := hcache.next (.step .handler)
    (.freeContent _ ⟨0, by decide⟩ rfl rfl (by decide) (by decide))
  have hall := hfreed.next (.step .handler) (.freedAll _ 1 rfl rfl (by decide))
  have hended := hall.next (.step .handler) (.destroyRwlock _ rfl rfl)
  have hdead := hsafe _ hended (.step (.thread false)) _
    (.runs _ _ _ (.pool _ _ _ (.lock _ _ _ rfl rfl) rfl) nofun nofun)
    .mutex (.tail _ (.head _))
  simp [ShutdownState.destroy, ShutdownState.advance] at hdead

end Lith
