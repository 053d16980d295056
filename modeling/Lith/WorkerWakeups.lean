import Lith.ServerThreads

/-!
# No wake-up is lost

The pool again, now with the condition variable: a worker that waits sleeps
until it is woken, `thread_pool_push` wakes one sleeper behind the linking and
`thread_pool_shutdown` wakes all of them behind the flag.  Forgetting the sleepers
gives a run of the pool, so what every schedule of the pool keeps is kept here.
While a worker sleeps, every socket in the queue has an awake worker of its own
on the way to it, and behind a shutdown nobody is left asleep.
-/

namespace Lith

/-- What a thread owes to the sleepers before it unlocks the mutex. -/
inductive Notice where
  | signal
  | broadcast
  deriving DecidableEq

def PoolPc.notice : PoolPc → Option Notice
  | pushUnlock => some .signal
  | stopUnlock => some .broadcast
  | _ => none

structure WakeState (Thread : Type*) where
  pool : PoolState Thread
  sleepers : List Thread
  due : Option Notice

section Steps

variable {Thread : Type*} [DecidableEq Thread]

/-- The state behind a step of the pool, which may lay the thread to sleep or
leave a notice to be sent. -/
def WakeState.follow (state : WakeState Thread) (thread : Thread)
    (pool : PoolState Thread) : WakeState Thread where
  pool := pool
  sleepers := if pool.pcs thread = .popWait then thread :: state.sleepers
    else state.sleepers
  due := (pool.pcs thread).notice.or state.due

inductive WakeStep : WakeState Thread → Thread → WakeState Thread → Prop where
  | pool (state : WakeState Thread) (thread : Thread) (pool : PoolState Thread)
      (hstep : PoolStep state.pool thread pool) (hawake : thread ∉ state.sleepers)
      (hsent : (state.pool.pcs thread).notice ≠ none → state.due = none) :
      WakeStep state thread (state.follow thread pool)
  | signalNobody (state : WakeState Thread) (thread : Thread)
      (hpc : state.pool.pcs thread = .pushUnlock) (hdue : state.due = some .signal)
      (hnobody : state.sleepers = []) :
      WakeStep state thread { state with due := none }
  | signal (state : WakeState Thread) (thread sleeper : Thread)
      (hpc : state.pool.pcs thread = .pushUnlock) (hdue : state.due = some .signal)
      (hsleeper : sleeper ∈ state.sleepers) :
      WakeStep state thread
        { state with sleepers := state.sleepers.erase sleeper, due := none }
  | broadcast (state : WakeState Thread) (thread : Thread)
      (hpc : state.pool.pcs thread = .stopUnlock) (hdue : state.due = some .broadcast) :
      WakeStep state thread { state with sleepers := [], due := none }
  | spurious (state : WakeState Thread) (thread : Thread)
      (hsleeper : thread ∈ state.sleepers) :
      WakeStep state thread
        { state with sleepers := state.sleepers.erase thread }

variable (Thread) in
def wakeSystem : TransitionSystem (WakeState Thread) Thread where
  start := fun state => (poolSystem Thread).start state.pool ∧
    state.sleepers = [] ∧ state.due = none
  step := WakeStep

variable {state after : WakeState Thread} {thread : Thread}

/-- Without its sleepers a run is a run of the pool. -/
theorem pool_reachable (hreach : (wakeSystem Thread).Reachable state) :
    (poolSystem Thread).Reachable state.pool := by
  induction hreach with
  | start hstart => exact .start hstart.1
  | next _ thread hstep ih =>
      cases hstep with
      | pool pool hstep _ _ => exact ih.next thread hstep
      | signalNobody => exact ih
      | signal => exact ih
      | broadcast => exact ih
      | spurious => exact ih

/-! ## What a step of the pool can do to the queue -/

/-- The steps by their effect on the queue; `pc` and `next` are the points of the
thread before and after. -/
inductive QueueEffect (before after : PoolState Thread) (pc next : PoolPc) : Prop where
  | waits (hpc : pc = .popLocked) (hnext : next = .popWait)
      (hempty : before.queue.head = none) (hsame : after.waiting = before.waiting)
      (hrunning : after.shutdown = false)
  | links {socket : Socket} {node : ℕ} (hpc : pc = .pushLocked socket node)
      (hnext : next = .pushUnlock)
      (hmore : after.waiting.length = before.waiting.length + 1)
      (hrunning : after.shutdown = false)
  | unlinks (hpc : pc = .popLocked) (hnext : next.notice = none ∧ next ≠ .popWait)
      (hless : before.waiting.length = after.waiting.length + 1)
      (hrunning : after.shutdown = false)
  | stops (hpc : pc = .stopLocked) (hnext : next = .stopUnlock)
      (hstopped : after.shutdown = true)
  | keeps (hsame : after.waiting.length = before.waiting.length)
      (hnext : next.notice = none ∧ next ≠ .popWait)
      (hway : before.shutdown = false → pc = .popWait ∨ pc = .popLocked →
        next = .popLocked)
      (hflag : after.shutdown = before.shutdown)

theorem PoolPc.Move.effect {shutdown : Bool} {pc next : PoolPc}
    (hmove : PoolPc.Move shutdown pc next) :
    (next.notice = none ∧ next ≠ .popWait) ∧
      (shutdown = false → pc ≠ .popWait ∧ pc ≠ .popLocked) := by
  cases hmove <;> simp_all [PoolPc.notice]

theorem PoolPc.effect_afterLock {pc next : PoolPc}
    (hnext : pc.afterLock = some next) :
    (next.notice = none ∧ next ≠ .popWait) ∧
      (pc = .popWait ∨ pc = .popLocked → next = .popLocked) := by
  cases pc <;> cases hnext <;> simp [PoolPc.notice]

theorem PoolPc.effect_afterUnlock {pc next : PoolPc}
    (hnext : pc.afterUnlock = some next) :
    (next.notice = none ∧ next ≠ .popWait) ∧ pc ≠ .popWait ∧ pc ≠ .popLocked := by
  cases pc <;> cases hnext <;> simp [PoolPc.notice]

theorem PoolPc.effect_afterClose {pc next : PoolPc} {socket : Socket}
    (hnext : pc.afterClose = some (socket, next)) :
    (next.notice = none ∧ next ≠ .popWait) ∧ pc ≠ .popWait ∧ pc ≠ .popLocked := by
  cases pc with
  | pushClose =>
      cases hnext
      simp [PoolPc.notice]
  | serving _ stage =>
      cases stage <;> cases hnext
      simp [PoolPc.notice]
  | _ => cases hnext

omit [DecidableEq Thread] in
theorem PoolState.QueueInv.results_lt {pool : PoolState Thread} {nodes : List ℕ}
    (hqueue : pool.QueueInv nodes) {node : ℕ} {cell : Cell ℕ Socket}
    (hhead : pool.queue.head = some node) (hcell : pool.heap node = some cell) :
    pool.results.length < pool.pushed.length := by
  obtain ⟨rest, others, hnodes, hvalues, hrest⟩ := hqueue.queue.unlink hhead hcell
  exact (PoolState.waiting_eq_cons hvalues).2.2

theorem PoolStep.effect {before after : PoolState Thread} (hinv : before.Inv)
    (hstep : PoolStep before thread after) :
    QueueEffect before after (before.pcs thread) (after.pcs thread) := by
  obtain ⟨nodes, hqueue⟩ := hinv.queue
  have hbound := hqueue.bound
  cases hstep with
  | move pc hmove =>
      refine .keeps rfl ?_ ?_ rfl
      · simpa using hmove.effect.1
      · rintro hrunning (hpc | hpc)
        · exact absurd hpc (hmove.effect.2 hrunning).1
        · exact absurd hpc (hmove.effect.2 hrunning).2
  | lock pc hpc havailable =>
      have hquiet := PoolPc.effect_afterLock hpc
      refine .keeps rfl (by simpa using hquiet.1) (fun _ hway => ?_) rfl
      simpa using hquiet.2 hway
  | unlock pc hpc =>
      obtain ⟨hnext, hwait, hlocked⟩ := PoolPc.effect_afterUnlock hpc
      refine .keeps rfl (by simpa using hnext) (fun _ hway => ?_) rfl
      simp [hwait, hlocked] at hway
  | wait hpc hempty hrunning => exact .waits hpc (by simp) hempty rfl hrunning
  | accepts socket hpc hnew =>
      refine .keeps rfl (by simp [PoolPc.notice]) (fun _ hway => ?_) rfl
      simp [hpc] at hway
  | allocates socket node hpc hfree =>
      refine .keeps rfl (by simp [PoolPc.notice]) (fun _ hway => ?_) rfl
      simp [hpc] at hway
  | links socket node hpc hrunning =>
      refine .links hpc (by simp) ?_ hrunning
      simp only [PoolState.waiting, PoolState.goto, List.length_drop, List.length_append,
        List.length_singleton]
      omega
  | discards socket node hpc =>
      refine .keeps rfl (by simp [PoolPc.notice]) (fun _ hway => ?_) rfl
      simp [hpc] at hway
  | unlinks node cell hpc hhead hcell hrunning =>
      refine .unlinks hpc (by simp [PoolPc.notice]) ?_ hrunning
      have hlt := hqueue.results_lt hhead hcell
      simp only [PoolState.waiting, PoolState.goto, List.length_drop, List.length_append,
        List.length_singleton]
      omega
  | reads node ticket cell hpc hcell =>
      refine .keeps rfl (by simp [PoolPc.notice]) (fun _ hway => ?_) rfl
      simp [hpc] at hway
  | frees node ticket socket hpc =>
      refine .keeps ?_ (by simp [PoolPc.notice])
        (fun _ hway => by simp [hpc] at hway) rfl
      simp [PoolState.waiting, PoolState.goto]
  | closes socket pc hpc =>
      obtain ⟨hnext, hwait, hlocked⟩ := PoolPc.effect_afterClose hpc
      refine .keeps rfl (by simpa using hnext) (fun _ hway => ?_) rfl
      simp [hwait, hlocked] at hway
  | stops hpc => exact .stops hpc (by simp) rfl

/-! ## Sleepers and workers on their way -/

/-- The worker has been woken, or it is just about to look at the queue. -/
def WakeState.OnItsWay (state : WakeState Thread) (thread : Thread) : Prop :=
  (state.pool.pcs thread = .popWait ∨ state.pool.pcs thread = .popLocked) ∧
    thread ∉ state.sleepers

/-- The next notice that is due wakes one worker more. -/
def WakeState.promised (state : WakeState Thread) : ℕ :=
  if state.due = some .signal then 1 else 0

structure WakeState.SleepInv (state : WakeState Thread) : Prop where
  nodup : state.sleepers.Nodup
  asleep : ∀ thread ∈ state.sleepers, state.pool.pcs thread = .popWait
  owed : ∀ notice, state.due = some notice →
    ∃ thread, (state.pool.pcs thread).notice = some notice
  roused : state.pool.shutdown = false → state.sleepers ≠ [] →
    ∃ roused : List Thread, roused.Nodup ∧ (∀ worker ∈ roused, state.OnItsWay worker) ∧
      state.pool.waiting.length ≤ roused.length + state.promised
  stopped : state.pool.shutdown = true →
    state.due = some .broadcast ∨ state.sleepers = []

theorem PoolPc.locked_of_notice {pc : PoolPc} (hnotice : pc.notice ≠ none) :
    pc.locked = true := by
  cases pc <;> simp_all [PoolPc.notice, PoolPc.locked]

omit [DecidableEq Thread] in
/-- Whoever holds the mutex and owes no notice finds that none is due. -/
theorem WakeState.SleepInv.due_eq_none (hinv : state.SleepInv) (hpool : state.pool.Inv)
    (hlocked : (state.pool.pcs thread).locked = true)
    (hunsent : (state.pool.pcs thread).notice = none) : state.due = none := by
  cases hdue : state.due with
  | none => rfl
  | some notice =>
      obtain ⟨other, hother⟩ := hinv.owed notice hdue
      have hmine := (hpool.mutex thread).mpr hlocked
      have htheirs := (hpool.mutex other).mpr
        (PoolPc.locked_of_notice (by rw [hother]; simp))
      have hsame : thread = other := Option.some.inj (hmine.symm.trans htheirs)
      rw [← hsame, hunsent] at hother
      simp at hother

theorem WakeState.SleepInv.wake (hinv : state.SleepInv) {sleeper : Thread}
    (hsleeper : sleeper ∈ state.sleepers) {due : Option Notice}
    (hdue : due = state.due ∨ state.due = some .signal ∧ due = none) :
    WakeState.SleepInv
      { state with sleepers := state.sleepers.erase sleeper, due := due } := by
  have hrest {worker : Thread} (hmem : worker ∈ state.sleepers.erase sleeper) :
      worker ∈ state.sleepers := List.mem_of_mem_erase hmem
  constructor
  case nodup => exact hinv.nodup.erase sleeper
  case asleep => exact fun worker hmem => hinv.asleep worker (hrest hmem)
  case owed =>
    intro notice hnotice
    rcases hdue with rfl | ⟨-, rfl⟩
    · exact hinv.owed notice hnotice
    · simp at hnotice
  case roused =>
    intro hrunning _
    obtain ⟨roused, hnodup, hway, hcount⟩ :=
      hinv.roused hrunning (List.ne_nil_of_mem hsleeper)
    have hout : sleeper ∉ roused := fun hmem => (hway sleeper hmem).2 hsleeper
    refine ⟨sleeper :: roused, List.nodup_cons.mpr ⟨hout, hnodup⟩, ?_, ?_⟩
    · intro worker hmem
      rcases List.mem_cons.mp hmem with rfl | hmem
      · exact ⟨Or.inl (hinv.asleep _ hsleeper), hinv.nodup.not_mem_erase⟩
      · exact ⟨(hway worker hmem).1, fun h => (hway worker hmem).2 (hrest h)⟩
    · simp only [WakeState.promised, List.length_cons] at hcount ⊢
      split_ifs at hcount ⊢ <;> omega
  case stopped =>
    intro hstopped
    rcases hinv.stopped hstopped with hbroadcast | hnobody
    · rcases hdue with rfl | ⟨hsignal, -⟩
      · exact Or.inl hbroadcast
      · rw [hbroadcast] at hsignal
        simp at hsignal
    · rw [hnobody] at hsleeper
      simp at hsleeper

/-- A step after which nobody has fallen asleep. -/
theorem WakeState.SleepInv.stay (hinv : state.SleepInv) {pool : PoolState Thread}
    (hstep : PoolStep state.pool thread pool) (hawake : thread ∉ state.sleepers)
    (hsent : (state.pool.pcs thread).notice ≠ none → state.due = none)
    (hnext : pool.pcs thread ≠ .popWait)
    (hroused : pool.shutdown = false → state.sleepers ≠ [] →
      ∃ roused : List Thread, roused.Nodup ∧
        (∀ worker ∈ roused, (state.follow thread pool).OnItsWay worker) ∧
        pool.waiting.length ≤ roused.length + (state.follow thread pool).promised)
    (hstopped : pool.shutdown = true →
      (state.follow thread pool).due = some .broadcast ∨ state.sleepers = []) :
    (state.follow thread pool).SleepInv := by
  have hsleepers : (state.follow thread pool).sleepers = state.sleepers := if_neg hnext
  constructor
  case nodup => exact hsleepers ▸ hinv.nodup
  case asleep =>
    rw [hsleepers]
    intro other hmem
    have hother : other ≠ thread := fun h => hawake (h ▸ hmem)
    rw [WakeState.follow, hstep.pcs_of_ne hother]
    exact hinv.asleep other hmem
  case owed =>
    intro notice hdue
    cases hnotice : (pool.pcs thread).notice with
    | some mine =>
        simp only [WakeState.follow, hnotice, Option.some_or] at hdue
        exact ⟨thread, hnotice.trans hdue⟩
    | none =>
        simp only [WakeState.follow, hnotice, Option.none_or] at hdue
        obtain ⟨other, hother⟩ := hinv.owed notice hdue
        refine ⟨other, ?_⟩
        rw [WakeState.follow, hstep.pcs_of_ne, hother]
        rintro rfl
        rw [hsent (by simp [hother])] at hdue
        simp at hdue
  case roused => exact hsleepers ▸ hroused
  case stopped => exact hsleepers ▸ hstopped

/-- A worker goes to sleep when it finds the queue empty. -/
theorem WakeState.SleepInv.fallAsleep (hinv : state.SleepInv)
    (hpool : state.pool.Inv) {pool : PoolState Thread}
    (hstep : PoolStep state.pool thread pool) (hawake : thread ∉ state.sleepers)
    (hpc : state.pool.pcs thread = .popLocked) (hnext : pool.pcs thread = .popWait)
    (hempty : state.pool.queue.head = none) (hwaiting : pool.waiting = state.pool.waiting)
    (hrunning : pool.shutdown = false) : (state.follow thread pool).SleepInv := by
  have hsleepers : (state.follow thread pool).sleepers = thread :: state.sleepers :=
    if_pos hnext
  have hdue : (state.follow thread pool).due = none := by
    simp only [WakeState.follow, hnext, PoolPc.notice, Option.none_or]
    exact hinv.due_eq_none hpool (by rw [hpc]; rfl) (by rw [hpc]; rfl)
  constructor
  case nodup => exact hsleepers ▸ List.nodup_cons.mpr ⟨hawake, hinv.nodup⟩
  case asleep =>
    rw [hsleepers]
    intro other hmem
    rcases List.mem_cons.mp hmem with rfl | hmem
    · exact hnext
    · have hother : other ≠ thread := fun h => hawake (h ▸ hmem)
      rw [WakeState.follow, hstep.pcs_of_ne hother]
      exact hinv.asleep other hmem
  case owed => simp [hdue]
  case roused =>
    intro _ _
    obtain ⟨nodes, hqueue⟩ := hpool.queue
    have hnone := hqueue.queue.head_eq_none_iff_values.mp hempty
    refine ⟨[], List.nodup_nil, by simp, ?_⟩
    rw [WakeState.follow, hwaiting, hnone]
    exact Nat.zero_le _
  case stopped =>
    intro hstopped
    rw [WakeState.follow, hrunning] at hstopped
    simp at hstopped

theorem PoolStep.running {before after : PoolState Thread}
    (hstep : PoolStep before thread after) (hrunning : after.shutdown = false) :
    before.shutdown = false := by
  by_contra hstopped
  rw [hstep.shutdown_mono (by simpa using hstopped)] at hrunning
  simp at hrunning

/-- The workers on their way stay on it while another thread does a step. -/
theorem WakeState.OnItsWay.follow {worker : Thread} (hway : state.OnItsWay worker)
    {pool : PoolState Thread} (hstep : PoolStep state.pool thread pool)
    (hworker : worker ≠ thread) (hnext : pool.pcs thread ≠ .popWait) :
    (state.follow thread pool).OnItsWay worker := by
  simp only [WakeState.OnItsWay, WakeState.follow, if_neg hnext,
    hstep.pcs_of_ne hworker]
  exact hway

theorem WakeState.SleepInv.follow (hinv : state.SleepInv) (hpool : state.pool.Inv)
    {pool : PoolState Thread} (hstep : PoolStep state.pool thread pool)
    (hawake : thread ∉ state.sleepers)
    (hsent : (state.pool.pcs thread).notice ≠ none → state.due = none) :
    (state.follow thread pool).SleepInv := by
  cases hstep.effect hpool with
  | waits hpc hnext hempty hwaiting hrunning =>
      exact hinv.fallAsleep hpool hstep hawake hpc hnext hempty hwaiting hrunning
  | links hpc hnext hmore hrunning =>
      have hnow : pool.pcs thread ≠ .popWait := by rw [hnext]; simp
      have hdue := hinv.due_eq_none hpool (by rw [hpc]; rfl) (by rw [hpc]; rfl)
      apply hinv.stay hstep hawake hsent hnow
      · intro _ hasleep
        obtain ⟨roused, hnodup, hway, hcount⟩ :=
          hinv.roused (hstep.running hrunning) hasleep
        refine ⟨roused, hnodup, ?_, ?_⟩
        · intro worker hmem
          apply (hway worker hmem).follow hstep _ hnow
          rintro rfl
          simpa [hpc] using (hway worker hmem).1
        · simp only [WakeState.promised, hdue, WakeState.follow, hnext, PoolPc.notice,
            Option.some_or] at hcount ⊢
          simp only [reduceCtorEq, if_false, if_true] at hcount ⊢
          omega
      · simp [hrunning]
  | unlinks hpc hnext hless hrunning =>
      have hdue := hinv.due_eq_none hpool (by rw [hpc]; rfl) (by rw [hpc]; rfl)
      apply hinv.stay hstep hawake hsent hnext.2
      · intro _ hasleep
        obtain ⟨roused, hnodup, hway, hcount⟩ :=
          hinv.roused (hstep.running hrunning) hasleep
        refine ⟨roused.erase thread, hnodup.erase thread, ?_, ?_⟩
        · intro worker hmem
          obtain ⟨hworker, hmem⟩ := (hnodup.mem_erase_iff).mp hmem
          exact (hway worker hmem).follow hstep hworker hnext.2
        · have hleft := List.le_length_erase (a := thread) (l := roused)
          simp only [WakeState.promised, hdue, WakeState.follow, hnext.1,
            Option.none_or, reduceCtorEq, if_false] at hcount ⊢
          omega
      · simp [hrunning]
  | stops hpc hnext hstopped =>
      apply hinv.stay hstep hawake hsent (by rw [hnext]; simp)
      · simp [hstopped]
      · simp [WakeState.follow, hnext, PoolPc.notice]
  | keeps hwaiting hnext hway hflag =>
      have hdue : (state.follow thread pool).due = state.due := by
        simp [WakeState.follow, hnext.1]
      apply hinv.stay hstep hawake hsent hnext.2
      · intro hrunning hasleep
        rw [hflag] at hrunning
        obtain ⟨roused, hnodup, hroused, hcount⟩ := hinv.roused hrunning hasleep
        refine ⟨roused, hnodup, fun worker hmem => ?_, ?_⟩
        · by_cases hworker : worker = thread
          · subst hworker
            refine ⟨Or.inr (hway hrunning (hroused worker hmem).1), ?_⟩
            rw [WakeState.follow, if_neg hnext.2]
            exact hawake
          · exact (hroused worker hmem).follow hstep hworker hnext.2
        · rw [WakeState.promised, hdue, hwaiting]
          exact hcount
      · intro hstopped
        rw [hdue]
        exact hinv.stopped (hflag ▸ hstopped)

theorem WakeState.SleepInv.step (hinv : state.SleepInv) (hpool : state.pool.Inv)
    (hstep : WakeStep state thread after) : after.SleepInv := by
  cases hstep with
  | pool pool hstep hawake hsent => exact hinv.follow hpool hstep hawake hsent
  | signalNobody hpc hdue hnobody =>
      constructor <;> simp [hnobody]
  | signal sleeper hpc hdue hsleeper => exact hinv.wake hsleeper (Or.inr ⟨hdue, rfl⟩)
  | broadcast hpc hdue => constructor <;> simp
  | spurious hsleeper => exact hinv.wake hsleeper (Or.inl rfl)

theorem sleepInv_of_reachable (hreach : (wakeSystem Thread).Reachable state) :
    state.SleepInv := by
  apply hreach.invariant_along
  · rintro first ⟨-, hnobody, hdue⟩
    constructor <;> simp [hnobody, hdue]
  · intro before label next hbefore hinv hstep
    exact hinv.step (PoolState.inv_of_reachable (pool_reachable hbefore)) hstep

/-- In every run, with wake-ups out of nothing at any time, enough workers are
awake for the sockets in the queue, and a shutdown leaves nobody asleep. -/
theorem no_wakeup_is_lost (hreach : (wakeSystem Thread).Reachable state) :
    (poolSystem Thread).Reachable state.pool ∧
      (∀ worker ∈ state.sleepers, state.pool.pcs worker = .popWait) ∧
      (∀ notice, state.due = some notice → ∃ thread,
        state.pool.mutex = some thread ∧
          (state.pool.pcs thread).notice = some notice) ∧
      (state.pool.shutdown = false → state.sleepers ≠ [] →
        ∃ roused : List Thread, roused.Nodup ∧
          (∀ worker ∈ roused, state.OnItsWay worker) ∧
          state.pool.waiting.length ≤ roused.length + state.promised) ∧
      (state.pool.shutdown = true → state.due ≠ some .broadcast →
        state.sleepers = []) := by
  have hinv := sleepInv_of_reachable hreach
  have hpool := PoolState.inv_of_reachable (pool_reachable hreach)
  refine ⟨pool_reachable hreach, hinv.asleep, ?_, hinv.roused, ?_⟩
  · intro notice hdue
    obtain ⟨thread, hthread⟩ := hinv.owed notice hdue
    refine ⟨thread, (hpool.mutex thread).mpr ?_, hthread⟩
    exact PoolPc.locked_of_notice (by rw [hthread]; simp)
  · intro hstopped hsent
    exact (hinv.stopped hstopped).resolve_left hsent

end Steps

theorem no_wakeup_is_lost_two_workers :
    ∃ state : WakeState (Fin 3),
      state.sleepers = [2] ∧ state.due = none ∧ state.pool.waiting = [⟨5, 0⟩] ∧
        ∃ roused : List (Fin 3), roused.Nodup ∧
          (∀ worker ∈ roused, state.OnItsWay worker) ∧ 1 ≤ roused.length := by
  have hstart : (wakeSystem (Fin 3)).Reachable
      ⟨initialPool fun thread => if thread = 0 then .accept else .popLock, [], none⟩ := by
    exact .start ⟨⟨fun _ => rfl, rfl, rfl, rfl, by decide, rfl, rfl, rfl, rfl⟩, rfl, rfl⟩
  have hfirst := hstart.next 1
    (.pool _ 1 _ (.lock _ 1 _ rfl rfl) (by decide) (by decide))
  have hasleep := hfirst.next 1
    (.pool _ 1 _ (.wait _ 1 rfl rfl rfl) (by decide) (by decide))
  have hsecond := hasleep.next 2
    (.pool _ 2 _ (.lock _ 2 _ rfl rfl) (by decide) (by decide))
  have hboth := hsecond.next 2
    (.pool _ 2 _ (.wait _ 2 rfl rfl rfl) (by decide) (by decide))
  have haccepted := hboth.next 0
    (.pool _ 0 _ (.accepts _ 0 ⟨5, 0⟩ rfl List.not_mem_nil) (by decide) (by decide))
  have hallocated := haccepted.next 0
    (.pool _ 0 _ (.allocates _ 0 _ 100 rfl rfl) (by decide) (by decide))
  have hlocked := hallocated.next 0
    (.pool _ 0 _ (.lock _ 0 _ rfl rfl) (by decide) (by decide))
  have hlinked := hlocked.next 0
    (.pool _ 0 _ (.links _ 0 _ _ rfl rfl) (by decide) (by decide))
  have hsignalled := hlinked.next 0 (.signal _ 0 1 rfl rfl (by decide))
  obtain ⟨-, -, -, hroused, -⟩ := no_wakeup_is_lost hsignalled
  obtain ⟨roused, hnodup, hway, hcount⟩ := hroused rfl (by decide)
  exact ⟨_, by decide, rfl, rfl, roused, hnodup, hway, hcount⟩

end Lith
