import Lith.Shutdown

/-!
# Handlers on the stacks of the threads

SIGINT and SIGTERM may interrupt every thread at every point, also the handler of
the other one: a signal is blocked on a thread only while its own handler is there.
The interrupted program goes on only after the handler, so it stands still from
then on.  Every handler runs `thread_pool_shutdown`.

`pthread_cond_destroy` waits for the threads that still have to leave
`pthread_cond_wait`.
-/

namespace Lith

inductive Signal where
  | sigint
  | sigterm
  deriving DecidableEq

/-- The program of a thread, or the handler of a signal on its stack. -/
inductive StackFrame (Thread : Type*) where
  | own (thread : Thread)
  | handler (thread : Thread) (signal : Signal)
  deriving DecidableEq

def StackFrame.thread {Thread : Type*} : StackFrame Thread → Thread
  | own thread => thread
  | handler thread _ => thread

inductive SignalEvent (Thread : Type*) where
  | signal (thread : Thread) (signal : Signal)
  | step (frame : StackFrame Thread)

/-- The handlers on each stack are listed from the newest on, and each has its own
stage of the destruction. -/
structure SignalState (Thread : Type*) where
  server : ServerState (StackFrame Thread)
  stack : Thread → List Signal
  stage : StackFrame Thread → DestroyStage

namespace SignalState

variable {Thread : Type*}

def poolPc (state : SignalState Thread) (frame : StackFrame Thread) : PoolPc :=
  state.server.pool.pcs frame

def routePc (state : SignalState Thread) (frame : StackFrame Thread) : RoutePc :=
  state.server.routes.pcs frame

/-- On each stack the newest frame runs. -/
def Awake (state : SignalState Thread) : StackFrame Thread → Prop
  | .own thread => state.stack thread = []
  | .handler thread signal => (state.stack thread).head? = some signal

/-- How a frame holds the cache lock. -/
def mode (state : SignalState Thread) : StackFrame Thread → LockMode
  | .own thread => (state.routePc (.own thread)).mode
  | .handler thread signal => (state.stage (.handler thread signal)).mode

variable [DecidableEq Thread]

def deliver (state : SignalState Thread) (thread : Thread) (signal : Signal) :
    SignalState Thread :=
  { state with
    stack := Function.update state.stack thread (signal :: state.stack thread) }

def advance (state : SignalState Thread) (frame : StackFrame Thread)
    (stage : DestroyStage) : SignalState Thread :=
  { state with stage := Function.update state.stage frame stage }

/-- The next call of the frame belongs to the destruction, at this stage. -/
structure Destroys (state : SignalState Thread) (frame : StackFrame Thread)
    (stage : DestroyStage) : Prop where
  awake : state.Awake frame
  pc : state.poolPc frame = .stopDestroy
  stage : state.stage frame = stage

end SignalState

section Steps

variable {Thread : Type*} [DecidableEq Thread]

inductive SignalStep : SignalState Thread → SignalEvent Thread →
    SignalState Thread → Prop where
  | signal (state : SignalState Thread) (thread : Thread) (signal : Signal)
      (hopen : signal ∉ state.stack thread) :
      SignalStep state (.signal thread signal) (state.deliver thread signal)
  | runs (state : SignalState Thread) (frame : StackFrame Thread)
      (server : ServerState (StackFrame Thread))
      (hstep : ServerStep state.server frame server) (hawake : state.Awake frame)
      (hpc : state.poolPc frame ≠ .stopDestroy) :
      SignalStep state (.step frame) { state with server := server }
  | destroyMutex (state : SignalState Thread) (frame : StackFrame Thread)
      (hdestroys : state.Destroys frame .mutex) :
      SignalStep state (.step frame) (state.advance frame .cond)
  | destroyCond (state : SignalState Thread) (frame : StackFrame Thread)
      (hdestroys : state.Destroys frame .cond)
      (hleft : ∀ other, state.poolPc other ≠ .popWait) :
      SignalStep state (.step frame) (state.advance frame .wrlock)
  | lockCache (state : SignalState Thread) (frame : StackFrame Thread)
      (hdestroys : state.Destroys frame .wrlock)
      (havailable : state.server.routes.lock.writer = none)
      (hreaders : state.server.routes.lock.readers = []) :
      SignalStep state (.step frame)
        { state.advance frame (.content 0) with
          server := { state.server with
            routes := { state.server.routes with
              lock := state.server.routes.lock.wrlock frame } } }
  | freeContent (state : SignalState Thread) (frame : StackFrame Thread) (slot : ℕ)
      (hdestroys : state.Destroys frame (.content slot))
      (hlt : slot < state.server.routes.cache.entryCount) :
      SignalStep state (.step frame) (state.advance frame (.content (slot + 1)))
  | freedAll (state : SignalState Thread) (frame : StackFrame Thread) (slot : ℕ)
      (hdestroys : state.Destroys frame (.content slot))
      (hge : state.server.routes.cache.entryCount ≤ slot) :
      SignalStep state (.step frame) (state.advance frame .rwlock)
  | destroyRwlock (state : SignalState Thread) (frame : StackFrame Thread)
      (hdestroys : state.Destroys frame .rwlock) :
      SignalStep state (.step frame)
        { state.advance frame .done with
          server := { state.server with
            pool := state.server.pool.goto frame .stopEnded } }

/-- The server after its start: acceptors and workers, and no signal yet. -/
def signalSystem (Thread : Type*) [DecidableEq Thread] :
    TransitionSystem (SignalState Thread) (SignalEvent Thread) where
  start := fun state =>
    (poolSystem (StackFrame Thread)).start state.server.pool ∧
      (lockingSystem (StackFrame Thread)).start state.server.routes ∧
      (∀ thread, state.poolPc (.own thread) ∈ [.accept, .popLock]) ∧
      (∀ thread signal, state.poolPc (.handler thread signal) = .stopLock) ∧
      (∀ thread, state.stack thread = []) ∧ ∀ frame, state.stage frame = .mutex
  step := SignalStep

end Steps

/-! ## The handlers in every run -/

section Invariant

variable {Thread : Type*} {state after : SignalState Thread}

/-- A handler is in `thread_pool_shutdown`, at its start until its signal comes, and
destroys nothing before its end. -/
structure SignalState.HandlerInv (state : SignalState Thread) (thread : Thread)
    (signal : Signal) : Prop where
  stops : (state.poolPc (.handler thread signal)).Stops
  fresh : signal ∉ state.stack thread →
    state.poolPc (.handler thread signal) = .stopLock
  begun : state.stage (.handler thread signal) ≠ .mutex →
    state.poolPc (.handler thread signal) = .stopDestroy ∨
      state.poolPc (.handler thread signal) = .stopEnded

theorem SignalState.HandlerInv.stage_of_pc {thread : Thread} {signal : Signal}
    (hinv : state.HandlerInv thread signal) {pc : PoolPc}
    (hpc : state.poolPc (.handler thread signal) = pc) (hdestroy : pc ≠ .stopDestroy)
    (hended : pc ≠ .stopEnded) : state.stage (.handler thread signal) = .mutex := by
  by_contra hbegun
  rcases hinv.begun hbegun with hat | hat
  · exact hdestroy (hpc.symm.trans hat)
  · exact hended (hpc.symm.trans hat)

theorem SignalState.HandlerInv.congr {thread : Thread} {signal : Signal}
    (hinv : state.HandlerInv thread signal)
    (hpc : after.poolPc (.handler thread signal) =
      state.poolPc (.handler thread signal))
    (hstage : after.stage (.handler thread signal) =
      state.stage (.handler thread signal))
    (hstack : signal ∉ after.stack thread → signal ∉ state.stack thread) :
    after.HandlerInv thread signal where
  stops := hpc ▸ hinv.stops
  fresh := fun hout => hpc ▸ hinv.fresh (hstack hout)
  begun := by
    rw [hpc, hstage]
    exact hinv.begun

theorem SignalState.mem_stack_of_awake {thread : Thread} {signal : Signal}
    (hawake : state.Awake (.handler thread signal)) : signal ∈ state.stack thread :=
  List.mem_of_head? hawake

variable [DecidableEq Thread] {event : SignalEvent Thread}

/-- A stage follows at the point from which everything is destroyed. -/
theorem SignalState.HandlerInv.advance {thread : Thread} {signal : Signal}
    (hinv : state.HandlerInv thread signal) {frame : StackFrame Thread}
    {stage : DestroyStage} (hpc : state.poolPc frame = .stopDestroy) :
    (state.advance frame stage).HandlerInv thread signal := by
  by_cases hframe : .handler thread signal = frame
  · subst hframe
    exact ⟨hinv.stops, hinv.fresh, fun _ => Or.inl hpc⟩
  · exact hinv.congr rfl (Function.update_of_ne hframe ..) id

theorem SignalState.HandlerInv.runs {thread : Thread} {signal : Signal}
    (hinv : state.HandlerInv thread signal) {frame : StackFrame Thread}
    {server : ServerState (StackFrame Thread)}
    (hstep : ServerStep state.server frame server) (hawake : state.Awake frame)
    (hpc : state.poolPc frame ≠ .stopDestroy) :
    SignalState.HandlerInv { state with server := server } thread signal := by
  by_cases hframe : .handler thread signal = frame
  · subst hframe
    have hmem := SignalState.mem_stack_of_awake hawake
    have hstops := hinv.stops
    cases hstep with
    | route routes socket hstep hserving =>
        rw [SignalState.poolPc, hserving] at hstops
        exact hstops.elim
    | pool pool hstep hroute =>
        have hkept {before after : PoolPc}
            (hat : state.poolPc (.handler thread signal) = before)
            (hdestroy : before ≠ .stopDestroy) (hended : before ≠ .stopEnded)
            (hnext : pool.pcs (.handler thread signal) = after) (hafter : after.Stops) :
            SignalState.HandlerInv
              { state with server := { state.server with pool := pool } }
              thread signal := by
          refine ⟨?_, fun hout => absurd hmem hout, fun hbegun => ?_⟩
          · rw [SignalState.poolPc, hnext]
            exact hafter
          · exact absurd (hinv.stage_of_pc hat hdestroy hended) hbegun
        rcases hstep.of_stops hstops with
          ⟨hat, rfl⟩ | ⟨hat, rfl⟩ | ⟨hat, rfl⟩ | ⟨hat, rfl⟩
        · exact hkept hat nofun nofun (PoolState.goto_pcs_self ..) trivial
        · exact hkept hat nofun nofun (PoolState.goto_pcs_self ..) trivial
        · exact hkept hat nofun nofun (PoolState.goto_pcs_self ..) trivial
        · exact absurd hat hpc
  · exact hinv.congr (hstep.pcs_of_ne hframe).1 rfl id

theorem SignalStep.handlerInv (hstep : SignalStep state event after) {thread : Thread}
    {signal : Signal} (hinv : state.HandlerInv thread signal) :
    after.HandlerInv thread signal := by
  cases hstep with
  | signal other sent hopen =>
      refine hinv.congr rfl rfl fun hout hmem => hout ?_
      simp only [SignalState.deliver, Function.update_apply]
      split_ifs with hsame
      · subst hsame
        exact List.mem_cons_of_mem _ hmem
      · exact hmem
  | runs frame server hstep hawake hpc => exact hinv.runs hstep hawake hpc
  | destroyMutex frame hdestroys => exact hinv.advance hdestroys.pc
  | destroyCond frame hdestroys hleft => exact hinv.advance hdestroys.pc
  | lockCache frame hdestroys havailable hreaders =>
      have hadvanced : (state.advance frame (.content 0)).HandlerInv thread signal :=
        hinv.advance hdestroys.pc
      exact hadvanced.congr rfl rfl id
  | freeContent frame slot hdestroys hlt => exact hinv.advance hdestroys.pc
  | freedAll frame slot hdestroys hge => exact hinv.advance hdestroys.pc
  | destroyRwlock frame hdestroys =>
      by_cases hframe : .handler thread signal = frame
      · subst hframe
        have hended : (state.server.pool.goto (.handler thread signal)
            .stopEnded).pcs (.handler thread signal) = .stopEnded :=
          PoolState.goto_pcs_self ..
        have hmem := SignalState.mem_stack_of_awake hdestroys.awake
        refine ⟨?_, fun hout => absurd hmem hout, fun _ => Or.inr hended⟩
        rw [SignalState.poolPc, hended]
        trivial
      · exact hinv.congr (Function.update_of_ne hframe ..)
          (Function.update_of_ne hframe ..) id

theorem SignalStep.pool_reachable (hstep : SignalStep state event after)
    (hreach : (poolSystem (StackFrame Thread)).Reachable state.server.pool) :
    (poolSystem (StackFrame Thread)).Reachable after.server.pool := by
  cases hstep with
  | runs frame server hstep hawake hpc =>
      cases hstep with
      | pool pool hstep hroute => exact hreach.next frame hstep
      | route routes socket hstep hserving => exact hreach
  | destroyRwlock frame hdestroys =>
      apply hreach.next frame
      apply PoolStep.move
      rw [show state.server.pool.pcs frame = .stopDestroy from hdestroys.pc]
      exact .destroys
  | _ => exact hreach

theorem SignalStep.routeInv (hstep : SignalStep state event after)
    (hinv : state.server.RouteInv) : after.server.RouteInv := by
  cases hstep with
  | runs frame server hstep hawake hpc => exact hinv.step hstep
  | destroyRwlock frame hdestroys =>
      intro other hroute
      obtain ⟨socket, hserving⟩ := hinv other hroute
      have hother : other ≠ frame := by
        rintro rfl
        have hpc := hdestroys.pc
        rw [SignalState.poolPc, hserving] at hpc
        cases hpc
      refine ⟨socket, ?_⟩
      simp only [PoolState.goto, Function.update_of_ne hother]
      exact hserving
  | _ => exact hinv

/-- A stage of the same mode leaves the modes as they are. -/
theorem SignalState.mode_advance {frame : StackFrame Thread} {stage : DestroyStage}
    (hmode : stage.mode = (state.stage frame).mode) :
    (state.advance frame stage).mode = state.mode := by
  funext other
  cases other with
  | own thread => rfl
  | handler thread signal =>
      simp only [SignalState.mode, SignalState.advance, Function.update_apply]
      split_ifs with hsame
      · rw [hmode, hsame]
      · rfl

/-- Nobody gets into `thread_pool_shutdown` from outside. -/
theorem PoolStep.not_stops {Thread : Type*} [DecidableEq Thread]
    {state after : PoolState Thread} {thread : Thread}
    (hstep : PoolStep state thread after) (hout : ¬(state.pcs thread).Stops) :
    ¬(after.pcs thread).Stops := by
  cases hstep with
  | move pc hmove =>
      rw [PoolState.goto_pcs_self]
      generalize state.pcs thread = before at hmove hout
      cases hmove with
      | destroys => exact absurd trivial hout
      | _ => exact id
  | lock pc hpc havailable =>
      simp only [PoolState.goto, Function.update_self]
      generalize state.pcs thread = before at hpc hout
      cases before <;> first | cases hpc <;> exact id | exact absurd trivial hout
  | unlock pc hpc =>
      simp only [PoolState.goto, Function.update_self]
      generalize state.pcs thread = before at hpc hout
      cases before <;> first | cases hpc <;> exact id | exact absurd trivial hout
  | closes socket pc hpc =>
      simp only [PoolState.goto, Function.update_self]
      generalize state.pcs thread = before at hpc hout
      cases before with
      | serving served stage => cases stage <;> cases hpc; exact id
      | pushClose closing =>
          cases hpc
          exact id
      | _ => cases hpc
  | stops hpc =>
      rw [hpc] at hout
      exact absurd trivial hout
  | _ => simp [PoolState.goto, PoolPc.Stops]

theorem SignalStep.owns (hstep : SignalStep state event after)
    (howns : ∀ thread, ¬(state.poolPc (.own thread)).Stops) (thread : Thread) :
    ¬(after.poolPc (.own thread)).Stops := by
  cases hstep with
  | runs frame server hstep hawake hpc =>
      by_cases hframe : .own thread = frame
      · subst hframe
        cases hstep with
        | pool pool hstep hroute => exact hstep.not_stops (howns thread)
        | route routes socket hstep hserving => exact howns thread
      · rw [SignalState.poolPc, (hstep.pcs_of_ne hframe).1]
        exact howns thread
  | destroyRwlock frame hdestroys =>
      have hframe : .own thread ≠ frame := by
        rintro rfl
        have hpc := hdestroys.pc
        exact howns thread (by rw [hpc]; trivial)
      simp only [SignalState.poolPc, PoolState.goto, Function.update_of_ne hframe]
      exact howns thread
  | _ => exact howns thread

structure SignalState.Inv (state : SignalState Thread) : Prop where
  pool : (poolSystem (StackFrame Thread)).Reachable state.server.pool
  route : state.server.RouteInv
  owns : ∀ thread, ¬(state.poolPc (.own thread)).Stops
  handler : ∀ thread signal, state.HandlerInv thread signal
  agrees : state.server.routes.lock.Agrees state.mode
  once : ∀ thread, (state.stack thread).Nodup

theorem SignalStep.agrees (hstep : SignalStep state event after) (hinv : state.Inv) :
    after.server.routes.lock.Agrees after.mode := by
  have hagrees := hinv.agrees
  have hadvance {frame : StackFrame Thread} {before later : DestroyStage}
      (hdestroys : state.Destroys frame before) (hmode : later.mode = before.mode) :
      (state.advance frame later).server.routes.lock.Agrees
        (state.advance frame later).mode := by
    rw [SignalState.mode_advance (by rw [hdestroys.stage, hmode])]
    exact hagrees
  cases hstep with
  | signal thread signal hopen => exact hagrees
  | runs frame server hstep hawake hpc =>
      cases hstep with
      | pool pool hstep hroute => exact hagrees
      | route routes socket hstep hserving =>
          cases frame with
          | handler thread signal =>
              have hstops := (hinv.handler thread signal).stops
              rw [SignalState.poolPc, hserving] at hstops
              exact hstops.elim
          | own thread =>
              have hmoved := hstep.agrees hagrees rfl
              convert hmoved using 1
              funext other
              by_cases hother : other = .own thread
              · rw [hother, Function.update_self]
                rfl
              · rw [Function.update_of_ne hother]
                cases other with
                | handler => rfl
                | own other => exact congrArg RoutePc.mode (hstep.pcs_of_ne hother)
  | destroyMutex frame hdestroys => exact hadvance hdestroys rfl
  | destroyCond frame hdestroys hleft => exact hadvance hdestroys rfl
  | freeContent frame slot hdestroys hlt => exact hadvance hdestroys rfl
  | freedAll frame slot hdestroys hge => exact hadvance hdestroys rfl
  | destroyRwlock frame hdestroys => exact hadvance hdestroys rfl
  | lockCache frame hdestroys havailable hreaders =>
      have hlocked : (state.server.routes.lock.wrlock frame).Agrees
          (Function.update state.mode frame .exclusive) :=
        hagrees.wrlock havailable hreaders
      convert hlocked using 1
      cases frame with
      | own thread =>
          have hpc := hdestroys.pc
          exact absurd (by rw [hpc]; trivial) (hinv.owns thread)
      | handler thread signal =>
          funext other
          by_cases hother : other = .handler thread signal
          · rw [hother, Function.update_self]
            simp only [SignalState.mode, SignalState.advance, Function.update_self]
            rfl
          · rw [Function.update_of_ne hother]
            cases other with
            | own other => rfl
            | handler other sent =>
                simp only [SignalState.mode, SignalState.advance,
                  Function.update_of_ne hother]

theorem SignalStep.once (hstep : SignalStep state event after)
    (hinv : ∀ thread, (state.stack thread).Nodup) (thread : Thread) :
    (after.stack thread).Nodup := by
  cases hstep with
  | signal other signal hopen =>
      simp only [SignalState.deliver, Function.update_apply]
      split_ifs with hsame
      · exact List.nodup_cons.mpr ⟨hopen, hinv other⟩
      · exact hinv thread
  | _ => exact hinv thread

theorem SignalState.Inv.step (hinv : state.Inv)
    (hstep : SignalStep state event after) : after.Inv where
  pool := hstep.pool_reachable hinv.pool
  route := hstep.routeInv hinv.route
  owns := hstep.owns hinv.owns
  handler := fun thread signal => hstep.handlerInv (hinv.handler thread signal)
  agrees := hstep.agrees hinv
  once := hstep.once hinv.once

theorem SignalState.inv_of_reachable
    (hreach : (signalSystem Thread).Reachable state) : state.Inv := by
  apply hreach.invariant
  · rintro first ⟨hpool, ⟨hlock, houtside, -, -⟩, howns, hhandlers, hstack, hstage⟩
    refine ⟨.start hpool, ?_, ?_, ?_, ?_, ?_⟩
    · intro frame hroute
      exact absurd (houtside frame) hroute
    · intro thread
      have hpc := howns thread
      simp only [List.mem_cons, List.not_mem_nil, or_false] at hpc
      rcases hpc with hpc | hpc <;> rw [hpc] <;> exact id
    · intro thread signal
      refine ⟨?_, fun _ => hhandlers thread signal, fun hbegun => absurd (hstage _) hbegun⟩
      rw [hhandlers]
      trivial
    · rw [hlock]
      apply RwLock.agrees_unlocked
      intro frame
      cases frame with
      | own thread =>
          rw [SignalState.mode, SignalState.routePc, houtside]
          rfl
      | handler thread signal =>
          rw [SignalState.mode, hstage]
          rfl
    · intro thread
      rw [hstack]
      exact List.nodup_nil
  · intro before event after hinv hstep
    exact hinv.step hstep

theorem SignalState.Inv.holds_iff (hinv : state.Inv) (frame : StackFrame Thread) :
    state.server.routes.lock.Holds frame ↔ state.mode frame ≠ .free :=
  hinv.agrees.holds_iff frame

end Invariant

end Lith
