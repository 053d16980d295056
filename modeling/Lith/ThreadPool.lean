import Lith.LinkedQueue
import Lith.TransitionSystem

/-!
# The thread pool

The accept loop, the workers and `thread_pool_shutdown` around one task queue,
as threads that take turns in any order.  The calls between a lock and its
unlock touch the shared queue in one step, since the mutex is held; allocating
and freeing a node, reading the socket of an unlinked node and looking at the
shutdown flag happen outside the mutex and are steps of their own.  A waiting
worker may wake up at any time.

Two logs record the order of the critical sections: the sockets that were
linked, and for each unlinking call what it returned, if it has returned.
-/

namespace Lith

/-- A valid descriptor, told apart from later uses of the same number. -/
structure Socket where
  fd : ℕ
  serial : ℕ
  deriving DecidableEq

/-- The work on one connection up to the call that closes it. -/
inductive ServeStage where
  | peek
  | redirect
  | sslNew
  | sslAccept
  | session
  | close
  deriving DecidableEq

inductive ServeStage.Next : ServeStage → ServeStage → Prop where
  | peekFails : Next .peek .close
  | cleartext : Next .peek .redirect
  | redirected : Next .redirect .close
  | tls : Next .peek .sslNew
  | allocationFails : Next .sslNew .close
  | allocated : Next .sslNew .sslAccept
  | handshakeFails : Next .sslAccept .close
  | handshake : Next .sslAccept .session
  | sessionEnds : Next .session .close

/-- Where a thread is: in the accept loop and `thread_pool_push`, in
`thread_pool_pop` and `lith_client_handler`, or in `thread_pool_shutdown`. -/
inductive PoolPc where
  | accept
  | acceptFailed
  | acceptEnded
  | pushAlloc (socket : Socket)
  | pushLock (socket : Socket) (node : ℕ)
  | pushLocked (socket : Socket) (node : ℕ)
  | pushUnlock
  | pushRefused (socket : Socket) (node : ℕ)
  | pushDiscard (socket : Socket) (node : ℕ)
  | pushClose (socket : Socket)
  | popLock
  | popLocked
  | popWait
  | popRefused
  | popUnlinked (node ticket : ℕ)
  | popRead (node ticket : ℕ)
  | popFree (node ticket : ℕ) (socket : Socket)
  | popped (result : Option Socket)
  | serving (socket : Socket) (stage : ServeStage)
  | workerEnded
  | stopLock
  | stopLocked
  | stopUnlock
  | stopDestroy
  | stopEnded
  deriving DecidableEq

namespace PoolPc

def afterLock : PoolPc → Option PoolPc
  | pushLock socket node => some (pushLocked socket node)
  | popLock => some popLocked
  | popWait => some popLocked
  | stopLock => some stopLocked
  | _ => none

def afterUnlock : PoolPc → Option PoolPc
  | pushUnlock => some accept
  | pushRefused socket node => some (pushDiscard socket node)
  | popRefused => some (popped none)
  | popUnlinked node ticket => some (popRead node ticket)
  | stopUnlock => some stopDestroy
  | _ => none

/-- The socket that the next step closes, and where the thread goes on. -/
def afterClose : PoolPc → Option (Socket × PoolPc)
  | pushClose socket => some (socket, accept)
  | serving socket .close => some (socket, popLock)
  | _ => none

/-- The steps that touch nothing but the program point; some of them look at
the shutdown flag. -/
inductive Move (shutdown : Bool) : PoolPc → PoolPc → Prop where
  | acceptFails : Move shutdown accept acceptFailed
  | acceptAgain (hrunning : shutdown = false) : Move shutdown acceptFailed accept
  | acceptEnds (hstopped : shutdown = true) :
      Move shutdown acceptFailed acceptEnded
  | allocationFails (socket : Socket) :
      Move shutdown (pushAlloc socket) (pushClose socket)
  | pushRefuses (socket : Socket) (node : ℕ) (hstopped : shutdown = true) :
      Move shutdown (pushLocked socket node) (pushRefused socket node)
  | popRefuses (hstopped : shutdown = true) : Move shutdown popLocked popRefused
  | workerEnds (result : Option Socket)
      (hend : shutdown = true ∨ result = none) :
      Move shutdown (popped result) workerEnded
  | workerServes (socket : Socket) (hrunning : shutdown = false) :
      Move shutdown (popped (some socket)) (serving socket .peek)
  | proceeds (socket : Socket) {stage next : ServeStage}
      (hnext : ServeStage.Next stage next) :
      Move shutdown (serving socket stage) (serving socket next)
  | destroys : Move shutdown stopDestroy stopEnded

def locked : PoolPc → Bool
  | pushLocked _ _ | pushUnlock | pushRefused _ _ | popLocked | popRefused
  | popUnlinked _ _ | stopLocked | stopUnlock => true
  | _ => false

def node : PoolPc → Option ℕ
  | pushLock _ node | pushLocked _ node | pushRefused _ node
  | pushDiscard _ node | popUnlinked node _ | popRead node _
  | popFree node _ _ => some node
  | _ => none

/-- The place of an unlinking call that has not returned yet. -/
def ticket : PoolPc → Option ℕ
  | popUnlinked _ ticket | popRead _ ticket | popFree _ ticket _ => some ticket
  | _ => none

def Refused : PoolPc → Prop
  | popRefused | popped none => True
  | _ => False

end PoolPc

structure PoolState (Thread : Type*) where
  heap : Heap ℕ Socket
  queue : LinkedQueue ℕ
  shutdown : Bool
  mutex : Option Thread
  pcs : Thread → PoolPc
  accepted : List Socket
  pushed : List Socket
  results : List (Option Socket)
  closed : List Socket

section Steps

variable {Thread : Type*} [DecidableEq Thread]

def PoolState.goto (state : PoolState Thread) (thread : Thread) (pc : PoolPc) :
    PoolState Thread :=
  { state with pcs := Function.update state.pcs thread pc }

@[simp] theorem PoolState.goto_pcs_self (state : PoolState Thread)
    (thread : Thread) (pc : PoolPc) : (state.goto thread pc).pcs thread = pc :=
  Function.update_self ..

inductive PoolStep : PoolState Thread → Thread → PoolState Thread → Prop where
  | move (state : PoolState Thread) (thread : Thread) (pc : PoolPc)
      (hmove : PoolPc.Move state.shutdown (state.pcs thread) pc) :
      PoolStep state thread (state.goto thread pc)
  | lock (state : PoolState Thread) (thread : Thread) (pc : PoolPc)
      (hpc : (state.pcs thread).afterLock = some pc)
      (havailable : state.mutex = none) :
      PoolStep state thread { state.goto thread pc with mutex := some thread }
  | unlock (state : PoolState Thread) (thread : Thread) (pc : PoolPc)
      (hpc : (state.pcs thread).afterUnlock = some pc) :
      PoolStep state thread { state.goto thread pc with mutex := none }
  | wait (state : PoolState Thread) (thread : Thread)
      (hpc : state.pcs thread = .popLocked) (hempty : state.queue.head = none)
      (hrunning : state.shutdown = false) :
      PoolStep state thread { state.goto thread .popWait with mutex := none }
  | accepts (state : PoolState Thread) (thread : Thread) (socket : Socket)
      (hpc : state.pcs thread = .accept) (hnew : socket ∉ state.accepted) :
      PoolStep state thread
        { state.goto thread (.pushAlloc socket) with
          accepted := state.accepted ++ [socket] }
  | allocates (state : PoolState Thread) (thread : Thread) (socket : Socket)
      (node : ℕ) (hpc : state.pcs thread = .pushAlloc socket)
      (hfree : state.heap node = none) :
      PoolStep state thread
        { state.goto thread (.pushLock socket node) with
          heap := Function.update state.heap node (some ⟨socket, none⟩) }
  | links (state : PoolState Thread) (thread : Thread) (socket : Socket)
      (node : ℕ) (hpc : state.pcs thread = .pushLocked socket node)
      (hrunning : state.shutdown = false) :
      PoolStep state thread
        { state.goto thread .pushUnlock with
          heap := (state.queue.link state.heap node).1
          queue := (state.queue.link state.heap node).2
          pushed := state.pushed ++ [socket] }
  | discards (state : PoolState Thread) (thread : Thread) (socket : Socket)
      (node : ℕ) (hpc : state.pcs thread = .pushDiscard socket node) :
      PoolStep state thread
        { state.goto thread (.pushClose socket) with
          heap := Function.update state.heap node none }
  | unlinks (state : PoolState Thread) (thread : Thread) (node : ℕ)
      (cell : Cell ℕ Socket) (hpc : state.pcs thread = .popLocked)
      (hhead : state.queue.head = some node)
      (hcell : state.heap node = some cell) (hrunning : state.shutdown = false) :
      PoolStep state thread
        { state.goto thread (.popUnlinked node state.results.length) with
          queue := state.queue.unlink cell
          results := state.results ++ [none] }
  | reads (state : PoolState Thread) (thread : Thread) (node ticket : ℕ)
      (cell : Cell ℕ Socket) (hpc : state.pcs thread = .popRead node ticket)
      (hcell : state.heap node = some cell) :
      PoolStep state thread
        (state.goto thread (.popFree node ticket cell.value))
  | frees (state : PoolState Thread) (thread : Thread) (node ticket : ℕ)
      (socket : Socket) (hpc : state.pcs thread = .popFree node ticket socket) :
      PoolStep state thread
        { state.goto thread (.popped (some socket)) with
          heap := Function.update state.heap node none
          results := state.results.set ticket (some socket) }
  | closes (state : PoolState Thread) (thread : Thread) (socket : Socket)
      (pc : PoolPc) (hpc : (state.pcs thread).afterClose = some (socket, pc)) :
      PoolStep state thread
        { state.goto thread pc with closed := state.closed ++ [socket] }
  | stops (state : PoolState Thread) (thread : Thread)
      (hpc : state.pcs thread = .stopLocked) :
      PoolStep state thread
        { state.goto thread .stopUnlock with shutdown := true }

/-- The pool as `thread_pool_init` leaves it, with any number of threads of
each kind about to start. -/
def poolSystem (Thread : Type*) [DecidableEq Thread] :
    TransitionSystem (PoolState Thread) Thread where
  start := fun state =>
    (∀ node, state.heap node = none) ∧ state.queue = LinkedQueue.empty ∧
      state.shutdown = false ∧ state.mutex = none ∧
      (∀ thread, state.pcs thread ∈ [.accept, .popLock, .stopLock]) ∧
      state.accepted = [] ∧ state.pushed = [] ∧ state.results = [] ∧
      state.closed = []
  step := PoolStep

def initialPool (pcs : Thread → PoolPc) : PoolState Thread where
  heap := fun _ => none
  queue := LinkedQueue.empty
  shutdown := false
  mutex := none
  pcs := pcs
  accepted := []
  pushed := []
  results := []
  closed := []

theorem reachable_initialPool {pcs : Thread → PoolPc}
    (hpcs : ∀ thread, pcs thread ∈ [.accept, .popLock, .stopLock]) :
    (poolSystem Thread).Reachable (initialPool pcs) :=
  .start ⟨fun _ => rfl, rfl, rfl, rfl, hpcs, rfl, rfl, rfl, rfl⟩

end Steps

end Lith
