import Lith.SignalHandlers

/-!
# A signal on a thread that holds a lock

The handler locks the mutex of the pool, destroys the condition variable and, when
it destroys the cache, takes the write lock.  What lies under it on its stack stands
still: a lock that is held there is never given back, and a wait there never ends.
-/

namespace Lith

section Delivery

variable {Thread : Type*}

/-- The frame holds neither lock and does not wait for the condition variable. -/
structure SignalState.Idle (state : SignalState Thread) (frame : StackFrame Thread) :
    Prop where
  mutex : (state.poolPc frame).locked = false
  cond : state.poolPc frame ≠ .popWait
  rwlock : state.mode frame = .free

variable [DecidableEq Thread]

/-- What may happen from the signal on, further signals included. -/
def HandlerRun (thread : Thread) (signal : Signal) (state : SignalState Thread) :
    SignalState Thread → Prop :=
  Relation.ReflTransGen (fun before after => ∃ event, SignalStep before event after)
    (state.deliver thread signal)

variable {state later after : SignalState Thread} {thread : Thread} {signal : Signal}

theorem HandlerRun.next {frame : StackFrame Thread}
    (hrun : HandlerRun thread signal state later)
    (hstep : SignalStep later (.step frame) after) :
    HandlerRun thread signal state after :=
  hrun.tail ⟨.step frame, hstep⟩

/-! ## What lies under a handler stands still -/

/-- What is the same about a frame at two moments. -/
structure SignalState.Still (frame : StackFrame Thread)
    (state later : SignalState Thread) : Prop where
  poolPc : later.poolPc frame = state.poolPc frame
  routePc : later.routePc frame = state.routePc frame
  stage : later.stage frame = state.stage frame

omit [DecidableEq Thread] in
theorem SignalState.Still.mode {frame : StackFrame Thread}
    (hstill : SignalState.Still frame state later) : later.mode frame = state.mode frame := by
  cases frame with
  | own thread => exact congrArg RoutePc.mode hstill.routePc
  | handler thread signal => exact congrArg DestroyStage.mode hstill.stage

theorem SignalStep.still {event : SignalEvent Thread} {frame : StackFrame Thread}
    (hstep : SignalStep state event after) (hasleep : ¬state.Awake frame) :
    SignalState.Still frame state after := by
  have hother {moving : StackFrame Thread} (hawake : state.Awake moving) :
      frame ≠ moving := by
    rintro rfl
    exact hasleep hawake
  have hadvance {moving : StackFrame Thread} {stage later : DestroyStage}
      (hdestroys : state.Destroys moving stage) :
      SignalState.Still frame state (state.advance moving later) :=
    ⟨rfl, rfl, Function.update_of_ne (hother hdestroys.awake) ..⟩
  cases hstep with
  | signal other sent hopen => exact ⟨rfl, rfl, rfl⟩
  | runs moving server hstep hawake hpc =>
      obtain ⟨hpool, hroute⟩ := hstep.pcs_of_ne (hother hawake)
      exact ⟨hpool, hroute, rfl⟩
  | destroyMutex moving hdestroys => exact hadvance hdestroys
  | destroyCond moving hdestroys hleft => exact hadvance hdestroys
  | lockCache moving hdestroys havailable hreaders =>
      exact ⟨rfl, rfl, (hadvance hdestroys).stage⟩
  | freeContent moving slot hdestroys hlt => exact hadvance hdestroys
  | freedAll moving slot hdestroys hge => exact hadvance hdestroys
  | destroyRwlock moving hdestroys =>
      exact ⟨Function.update_of_ne (hother hdestroys.awake) .., rfl,
        (hadvance hdestroys).stage⟩

/-- The frames that the stack of the thread has from the bottom up to these handlers. -/
def StackFrame.Within (thread : Thread) (stack : List Signal) :
    StackFrame Thread → Prop
  | .own other => other = thread
  | .handler other signal => other = thread ∧ signal ∈ stack

omit [DecidableEq Thread] in
theorem StackFrame.Within.not_awake {frame : StackFrame Thread} {stack newer : List Signal}
    (hwithin : frame.Within thread stack)
    (hstack : state.stack thread = newer ++ signal :: stack)
    (honce : (state.stack thread).Nodup) : ¬state.Awake frame := by
  cases frame with
  | own other =>
      obtain rfl := hwithin
      simp [SignalState.Awake, hstack]
  | handler other sent =>
      obtain ⟨rfl, hmem⟩ := hwithin
      rw [SignalState.Awake, hstack]
      rw [hstack] at honce
      intro hhead
      have hapart := List.nodup_append.mp honce
      cases newer with
      | nil =>
          obtain rfl := Option.some.inj hhead
          exact (List.nodup_cons.mp honce).1 hmem
      | cons first newer =>
          obtain rfl := Option.some.inj hhead
          exact (List.nodup_cons.mp honce).1 (by simp [hmem])

/-- From the signal on, the frames under the handler stand still. -/
theorem HandlerRun.below (hinv : state.Inv) (hopen : signal ∉ state.stack thread)
    (hrun : HandlerRun thread signal state later) :
    later.Inv ∧ (∃ newer, later.stack thread = newer ++ signal :: state.stack thread) ∧
      ∀ frame : StackFrame Thread, frame.Within thread (state.stack thread) →
        SignalState.Still frame state later := by
  induction hrun with
  | refl =>
      exact ⟨hinv.step (.signal state thread signal hopen),
        ⟨[], Function.update_self ..⟩, fun frame _ => ⟨rfl, rfl, rfl⟩⟩
  | tail _ hstep ih =>
      obtain ⟨event, hstep⟩ := hstep
      obtain ⟨hbefore, ⟨newer, hstack⟩, hstill⟩ := ih
      refine ⟨hbefore.step hstep, ?_, fun frame hwithin => ?_⟩
      · cases hstep with
        | signal other sent hfresh =>
            simp only [SignalState.deliver, Function.update_apply]
            split_ifs with hsame
            · subst hsame
              exact ⟨sent :: newer, by rw [hstack]; rfl⟩
            · exact ⟨newer, hstack⟩
        | _ => exact ⟨newer, hstack⟩
      · have hold := hstill frame hwithin
        have hnew := hstep.still
          (hwithin.not_awake hstack (hbefore.once thread))
        exact ⟨hnew.poolPc.trans hold.poolPc, hnew.routePc.trans hold.routePc,
          hnew.stage.trans hold.stage⟩

/-- What has been interrupted is idle. -/
def SignalState.Sound (state : SignalState Thread) : Prop :=
  ∀ frame, ¬state.Awake frame → state.Idle frame

/-- Steps of the frames, without a signal. -/
def SignalState.Moves : SignalState Thread → SignalState Thread → Prop :=
  Relation.ReflTransGen fun before after => ∃ frame, SignalStep before (.step frame) after

theorem SignalState.Moves.next {frame : StackFrame Thread}
    (hmoves : SignalState.Moves state later) (hstep : SignalStep later (.step frame) after) :
    SignalState.Moves state after :=
  hmoves.tail ⟨frame, hstep⟩

theorem SignalState.Moves.awake_iff (hmoves : SignalState.Moves state later)
    (frame : StackFrame Thread) : later.Awake frame ↔ state.Awake frame := by
  have hstack : later.stack = state.stack := by
    induction hmoves with
    | refl => rfl
    | tail _ hstep ih =>
        obtain ⟨frame, hstep⟩ := hstep
        cases hstep <;> exact ih
  cases frame <;> simp only [SignalState.Awake, hstack]

/-- Nobody who waits for the condition variable has been interrupted there. -/
def SignalState.WaitersAwake (state : SignalState Thread) : Prop :=
  ∀ frame, state.poolPc frame = .popWait → state.Awake frame

theorem SignalState.WaitersAwake.moves (hwaiters : state.WaitersAwake)
    (hmoves : SignalState.Moves state later) : later.WaitersAwake := by
  induction hmoves with
  | refl => exact hwaiters
  | tail _ hstep ih =>
      intro frame hwaits
      obtain ⟨moving, hstep⟩ := hstep
      have hkept : SignalState.Moves _ _ := .single ⟨moving, hstep⟩
      rw [hkept.awake_iff]
      by_contra hasleep
      apply hasleep
      apply ih
      rw [← (hstep.still hasleep).poolPc]
      exact hwaits

theorem SignalState.Moves.alone {frame : StackFrame Thread}
    {pool : PoolState (StackFrame Thread)} (hmoves : SignalState.Moves state later)
    (hawake : later.Awake frame) (hroute : later.routePc frame = .outside)
    (halone : PoolState.Alone frame later.server.pool pool) :
    SignalState.Moves state
      { later with server := { later.server with pool := pool } } := by
  induction halone with
  | refl => exact hmoves
  | tail _ hstep ih =>
      obtain ⟨hlocked, hstep⟩ := hstep
      refine ih.next (.runs _ frame _ (.pool _ _ _ hstep hroute) hawake ?_)
      intro hat
      simp only [SignalState.poolPc] at hat
      rw [hat] at hlocked
      cases hlocked

/-- The handler is about to destroy the condition variable. -/
structure SignalState.Ready (state : SignalState Thread) (frame : StackFrame Thread) :
    Prop where
  destroys : state.Destroys frame .cond
  mutex : state.server.pool.mutex = none
  shutdown : state.server.pool.shutdown = true

/-- A worker that is awake leaves the condition variable and finds the flag set. -/
theorem SignalState.Ready.leave {frame waiter : StackFrame Thread}
    (hready : state.Ready frame) (hinv : state.Inv)
    (hwaits : state.poolPc waiter = .popWait) (hawake : state.Awake waiter) :
    ∃ later, SignalState.Moves state later ∧ later.Ready frame ∧
      later.poolPc waiter ≠ .popWait ∧
      ∀ other, other ≠ waiter → later.poolPc other = state.poolPc other := by
  have hroute : state.routePc waiter = .outside := by
    by_contra hinside
    obtain ⟨socket, hserving⟩ := hinv.route _ hinside
    rw [SignalState.poolPc, hserving] at hwaits
    cases hwaits
  have hother : frame ≠ waiter := by
    rintro rfl
    have hpc := hready.destroys.pc
    rw [hwaits] at hpc
    cases hpc
  have hat : state.server.pool.pcs waiter = .popWait := hwaits
  have hlock := SignalState.Moves.next .refl (.runs state waiter _ (.pool _ _ _
    (.lock _ _ .popLocked (by rw [hat]; rfl) hready.mutex) hroute) hawake
    (by simp [hwaits]))
  have hmove : PoolPc.Move state.server.pool.shutdown
      ((state.server.pool.goto waiter .popLocked).pcs waiter) .popRefused := by
    rw [PoolState.goto_pcs_self]
    exact .popRefuses hready.shutdown
  have hrefuse := hlock.next (.runs _ waiter _ (.pool _ _ _
    (.move _ _ .popRefused hmove) hroute) hawake
    (by simp [SignalState.poolPc, PoolState.goto]))
  have hunlock := hrefuse.next (.runs _ waiter _ (.pool _ _ _
    (.unlock _ _ (.popped none) (by simp [PoolState.goto, PoolPc.afterUnlock]))
    hroute) hawake (by simp [SignalState.poolPc, PoolState.goto]))
  refine ⟨_, hunlock, ⟨⟨hready.destroys.awake, ?_, hready.destroys.stage⟩, rfl,
    hready.shutdown⟩, ?_, ?_⟩
  · simp only [SignalState.poolPc, PoolState.goto, Function.update_of_ne hother]
    exact hready.destroys.pc
  · simp [SignalState.poolPc, PoolState.goto]
  · intro other hne
    simp only [SignalState.poolPc, PoolState.goto, Function.update_of_ne hne]

end Delivery

end Lith
