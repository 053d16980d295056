import Lith.TaskQueue

/-!
# Who owns a socket

A socket that `accept` has returned is with the acceptor, in the queue, with a
worker or closed.  The shutdown breaks this in two ways: sockets in the queue
are never taken out again, and a worker that has just taken one leaves its
loop without closing it.  When the flag is set while the queue is empty and no
worker is between taking a socket and looking at the flag, every socket has
exactly one place throughout and ends up closed.
-/

namespace Lith

section Places

variable {Place Token : Type*} {At At' : Place → Token → Prop}

theorem at_iff_of_existsUnique {token : Token} {place : Place}
    (hone : ∃! place, At place token) (hat : At place token) (other : Place) :
    At other token ↔ other = place := by
  constructor
  · intro hother
    exact hone.unique hother hat
  · intro heq
    exact heq ▸ hat

/-- Every token keeps exactly one place when one token moves. -/
theorem existsUnique_place_move (hone : ∀ token, ∃! place, At place token)
    {moved : Token} {target : Place}
    (hothers : ∀ place token, token ≠ moved →
      (At' place token ↔ At place token))
    (hmoved : ∀ place, At' place moved ↔ place = target) (token : Token) :
    ∃! place, At' place token := by
  by_cases htoken : token = moved
  · subst htoken
    refine ⟨target, (hmoved target).mpr rfl, ?_⟩
    intro place hplace
    exact (hmoved place).mp hplace
  · obtain ⟨place, hplace, honly⟩ := hone token
    refine ⟨place, (hothers place token htoken).mpr hplace, ?_⟩
    intro other hother
    exact honly other ((hothers other token htoken).mp hother)

end Places

/-- The socket that a thread is responsible for. -/
def PoolPc.holds (pushed : List Socket) : PoolPc → Option Socket
  | .pushAlloc socket | .pushLock socket _ | .pushLocked socket _
  | .pushRefused socket _ | .pushDiscard socket _ | .pushClose socket
  | .popFree _ _ socket | .serving socket _ => some socket
  | .popUnlinked _ ticket | .popRead _ ticket => pushed[ticket]?
  | .popped result => result
  | _ => none

/-- Between taking a socket off the queue and looking at the shutdown flag. -/
def PoolPc.MidPop : PoolPc → Prop
  | .popUnlinked _ _ | .popRead _ _ | .popFree _ _ _ | .popped (some _) => True
  | _ => False

def PoolPc.HasStopped : PoolPc → Prop
  | .stopUnlock | .stopDestroy | .stopEnded => True
  | _ => False

inductive SocketPlace (Thread : Type*) where
  | outside
  | thread (thread : Thread)
  | queue
  | closed

def PoolState.At {Thread : Type*} (state : PoolState Thread) :
    SocketPlace Thread → Socket → Prop
  | .outside, socket => socket ∉ state.accepted
  | .thread thread, socket =>
      (state.pcs thread).holds state.pushed = some socket
  | .queue, socket => socket ∈ state.waiting
  | .closed, socket => socket ∈ state.closed

/-- The shutdown finds the queue empty and no worker in the middle. -/
def QuietStop {Thread : Type*} (state : PoolState Thread) (thread : Thread) :
    Prop :=
  state.pcs thread = .stopLocked →
    state.queue.head = none ∧ ∀ other, ¬(state.pcs other).MidPop

section Invariant

variable {Thread : Type*} {state after : PoolState Thread} {thread : Thread}
  {nodes : List ℕ}

structure PoolState.OwnershipInv (state : PoolState Thread) : Prop where
  onePlace : ∀ socket, ∃! place, state.At place socket
  waitingOnce : state.waiting.Nodup
  closedOnce : state.closed.Nodup

structure PoolState.QuietInv (state : PoolState Thread) : Prop where
  quiet : state.shutdown = true →
    state.waiting = [] ∧ ∀ thread, ¬(state.pcs thread).MidPop
  stopped : ∀ thread, (state.pcs thread).HasStopped → state.shutdown = true

theorem PoolPc.holds_of_isPrefix {heap : Heap ℕ Socket}
    {pushed pushed' : List Socket} {pc : PoolPc}
    (hcontent : pc.Content heap pushed) (hextends : pushed <+: pushed') :
    pc.holds pushed' = pc.holds pushed := by
  cases pc with
  | popUnlinked node ticket =>
      obtain ⟨cell, -, hget⟩ := hcontent
      simp only [PoolPc.holds, hget, getElem?_of_isPrefix hextends hget]
  | popRead node ticket =>
      obtain ⟨cell, -, hget⟩ := hcontent
      simp only [PoolPc.holds, hget, getElem?_of_isPrefix hextends hget]
  | _ => rfl

theorem PoolState.OwnershipInv.move (hinv : state.OwnershipInv)
    (moved : Socket) (source target : SocketPlace Thread)
    (hfrom : state.At source moved) (hto : after.At target moved)
    (hleft : ¬after.At source moved)
    (hrest : ∀ place socket,
      socket ≠ moved ∨ (place ≠ source ∧ place ≠ target) →
      (after.At place socket ↔ state.At place socket)) :
    ∀ socket, ∃! place, after.At place socket := by
  apply existsUnique_place_move hinv.onePlace
  · intro place socket hsocket
    exact hrest place socket (Or.inl hsocket)
  · intro place
    constructor
    · intro hplace
      by_contra htarget
      by_cases hsource : place = source
      · exact hleft (hsource ▸ hplace)
      · have hbefore :=
          (hrest place moved (Or.inr ⟨hsource, htarget⟩)).mp hplace
        exact hsource ((at_iff_of_existsUnique (hinv.onePlace moved) hfrom
          place).mp hbefore)
    · intro heq
      exact heq ▸ hto

variable [DecidableEq Thread]

theorem PoolState.OwnershipInv.keep (hinv : state.OwnershipInv) {pc : PoolPc}
    (hpcs : after.pcs = Function.update state.pcs thread pc)
    (hholds : pc.holds state.pushed = (state.pcs thread).holds state.pushed)
    (haccepted : after.accepted = state.accepted)
    (hpushed : after.pushed = state.pushed)
    (hresults : after.results.length = state.results.length)
    (hclosed : after.closed = state.closed) : after.OwnershipInv := by
  have hwaiting : after.waiting = state.waiting := by
    simp only [PoolState.waiting, hpushed, hresults]
  have hat (place : SocketPlace Thread) (socket : Socket) :
      after.At place socket ↔ state.At place socket := by
    cases place with
    | outside => simp only [PoolState.At, haccepted]
    | queue => simp only [PoolState.At, hwaiting]
    | closed => simp only [PoolState.At, hclosed]
    | thread other =>
        by_cases hother : other = thread
        · simp only [PoolState.At, hother, hpcs, Function.update_self, hpushed,
            hholds]
        · simp only [PoolState.At, hpcs, Function.update_of_ne hother, hpushed]
  refine ⟨?_, ?_, ?_⟩
  · intro socket
    simp only [hat]
    exact hinv.onePlace socket
  · rw [hwaiting]
    exact hinv.waitingOnce
  · rw [hclosed]
    exact hinv.closedOnce

theorem PoolState.OwnershipInv.accepts (hinv : state.OwnershipInv)
    {socket : Socket} (hpc : state.pcs thread = .accept)
    (hnew : socket ∉ state.accepted) :
    PoolState.OwnershipInv
      { state.goto thread (.pushAlloc socket) with
        accepted := state.accepted ++ [socket] } where
  onePlace := by
    apply hinv.move socket .outside (.thread thread)
    · exact hnew
    · simp [PoolState.At, PoolState.goto, PoolPc.holds]
    · simp [PoolState.At]
    · intro place other hother
      cases place with
      | outside =>
          have hne : other ≠ socket := hother.resolve_right fun h => h.1 rfl
          simp [PoolState.At, hne]
      | queue => rfl
      | closed => rfl
      | thread worker =>
          by_cases hworker : worker = thread
          · subst hworker
            have hne : other ≠ socket := hother.resolve_right fun h => h.2 rfl
            simp [PoolState.At, PoolState.goto, PoolPc.holds, hpc, hne.symm]
          · simp [PoolState.At, PoolState.goto, hworker]
  waitingOnce := hinv.waitingOnce
  closedOnce := hinv.closedOnce

theorem PoolState.OwnershipInv.closes (hinv : state.OwnershipInv)
    {socket : Socket} {pc : PoolPc}
    (hheld : (state.pcs thread).holds state.pushed = some socket)
    (hpc : pc.holds state.pushed = none) :
    PoolState.OwnershipInv
      { state.goto thread pc with closed := state.closed ++ [socket] } where
  onePlace := by
    apply hinv.move socket (.thread thread) .closed
    · exact hheld
    · simp [PoolState.At]
    · simp [PoolState.At, PoolState.goto, hpc]
    · intro place other hother
      cases place with
      | outside => rfl
      | queue => rfl
      | closed =>
          have hne : other ≠ socket := hother.resolve_right fun h => h.2 rfl
          simp [PoolState.At, hne]
      | thread worker =>
          by_cases hworker : worker = thread
          · subst hworker
            have hne : other ≠ socket := hother.resolve_right fun h => h.1 rfl
            simp [PoolState.At, PoolState.goto, hpc, hheld, hne.symm]
          · simp [PoolState.At, PoolState.goto, hworker]
  waitingOnce := hinv.waitingOnce
  closedOnce := by
    have hopen : socket ∉ state.closed := by
      intro hclosed
      have hplace := (hinv.onePlace socket).unique
        (show state.At .closed socket from hclosed)
        (show state.At (.thread thread) socket from hheld)
      simp at hplace
    rw [List.nodup_append]
    refine ⟨hinv.closedOnce, by simp, ?_⟩
    intro first hfirst second hsecond heq
    rw [List.mem_singleton] at hsecond
    exact hopen (hsecond ▸ heq ▸ hfirst)

theorem PoolState.OwnershipInv.links (hinv : state.OwnershipInv)
    (hqueue : state.QueueInv nodes) {socket : Socket} {node : ℕ}
    (hpc : state.pcs thread = .pushLocked socket node) :
    PoolState.OwnershipInv
      { state.goto thread .pushUnlock with
        heap := (state.queue.link state.heap node).1
        queue := (state.queue.link state.heap node).2
        pushed := state.pushed ++ [socket] } := by
  have hheld : state.At (.thread thread) socket := by
    simp [PoolState.At, hpc, PoolPc.holds]
  have hwaiting : (state.pushed ++ [socket]).drop state.results.length =
      state.waiting ++ [socket] := List.drop_append_of_le_length hqueue.bound
  refine ⟨?_, ?_, hinv.closedOnce⟩
  · apply hinv.move socket (.thread thread) .queue hheld
    · simp [PoolState.At, PoolState.waiting, PoolState.goto, hwaiting]
    · simp [PoolState.At, PoolState.goto, PoolPc.holds]
    · intro place other hother
      cases place with
      | outside => rfl
      | closed => rfl
      | queue =>
          have hne : other ≠ socket := hother.resolve_right fun h => h.2 rfl
          simp only [PoolState.At, PoolState.waiting, PoolState.goto, hwaiting]
          simp [hne]
      | thread worker =>
          by_cases hworker : worker = thread
          · subst hworker
            have hne : other ≠ socket := hother.resolve_right fun h => h.1 rfl
            simp [PoolState.At, PoolState.goto, PoolPc.holds, hpc, hne.symm]
          · have hsame := PoolPc.holds_of_isPrefix (hqueue.content worker)
              (List.prefix_append state.pushed [socket])
            simp [PoolState.At, PoolState.goto, hworker, hsame]
  · have houtside : socket ∉ state.waiting := by
      intro hqueued
      have hplace := (hinv.onePlace socket).unique
        (show state.At .queue socket from hqueued) hheld
      simp at hplace
    simp only [PoolState.waiting, PoolState.goto, hwaiting]
    rw [List.nodup_append]
    refine ⟨hinv.waitingOnce, by simp, ?_⟩
    intro first hfirst second hsecond heq
    rw [List.mem_singleton] at hsecond
    exact houtside (hsecond ▸ heq ▸ hfirst)

theorem PoolState.OwnershipInv.unlinks (hinv : state.OwnershipInv)
    (hqueue : state.QueueInv nodes) {node : ℕ} {cell : Cell ℕ Socket}
    (hpc : state.pcs thread = .popLocked)
    (hhead : state.queue.head = some node)
    (hcell : state.heap node = some cell) :
    PoolState.OwnershipInv
      { state.goto thread (.popUnlinked node state.results.length) with
        queue := state.queue.unlink cell
        results := state.results ++ [none] } := by
  obtain ⟨-, others, -, hwaiting, -⟩ := hqueue.queue.unlink hhead hcell
  obtain ⟨hget, hothers, -⟩ := PoolState.waiting_eq_cons hwaiting
  have hnodup := hinv.waitingOnce
  rw [hwaiting, List.nodup_cons] at hnodup
  refine ⟨?_, ?_, hinv.closedOnce⟩
  · apply hinv.move cell.value .queue (.thread thread)
    · simp [PoolState.At, hwaiting]
    · simp [PoolState.At, PoolState.goto, PoolPc.holds, hget]
    · simpa [PoolState.At, PoolState.waiting, PoolState.goto, hothers]
        using hnodup.1
    · intro place other hother
      cases place with
      | outside => rfl
      | closed => rfl
      | queue =>
          have hne : other ≠ cell.value :=
            hother.resolve_right fun h => h.1 rfl
          simp only [PoolState.At, hwaiting]
          simp [PoolState.waiting, PoolState.goto, hothers, hne]
      | thread worker =>
          by_cases hworker : worker = thread
          · subst hworker
            have hne : other ≠ cell.value :=
              hother.resolve_right fun h => h.2 rfl
            simp [PoolState.At, PoolState.goto, PoolPc.holds, hpc, hget,
              hne.symm]
          · simp [PoolState.At, PoolState.goto, hworker]
  · simpa [PoolState.waiting, PoolState.goto, hothers] using hnodup.2

/-! ## Steps between program points -/

theorem PoolPc.Move.holds_eq {shutdown : Bool} {pc next : PoolPc}
    (hmove : PoolPc.Move shutdown pc next)
    (hquiet : shutdown = true → ¬pc.MidPop) (pushed : List Socket) :
    next.holds pushed = pc.holds pushed := by
  cases hmove with
  | workerEnds result hend =>
      cases result with
      | none => rfl
      | some socket =>
          rcases hend with hstopped | hnone
          · exact absurd trivial (hquiet hstopped)
          · simp at hnone
  | _ => rfl

theorem PoolPc.Move.not_midPop {shutdown : Bool} {pc next : PoolPc}
    (hmove : PoolPc.Move shutdown pc next) : ¬next.MidPop := by
  cases hmove <;> exact id

theorem PoolPc.Move.hasStopped {shutdown : Bool} {pc next : PoolPc}
    (hmove : PoolPc.Move shutdown pc next) (hnext : next.HasStopped) :
    pc.HasStopped := by
  cases hmove <;> trivial

theorem PoolPc.quiet_afterLock {pc next : PoolPc}
    (hnext : pc.afterLock = some next) :
    (∀ pushed, next.holds pushed = pc.holds pushed) ∧ ¬next.MidPop ∧
      ¬next.HasStopped := by
  cases pc <;> cases hnext <;> exact ⟨fun _ => rfl, id, id⟩

theorem PoolPc.quiet_afterUnlock {pc next : PoolPc}
    (hnext : pc.afterUnlock = some next) :
    (∀ pushed, next.holds pushed = pc.holds pushed) ∧
      (next.MidPop → pc.MidPop) ∧ (next.HasStopped → pc.HasStopped) := by
  cases pc <;> cases hnext <;> exact ⟨fun _ => rfl, id, id⟩

theorem PoolPc.quiet_afterClose {pc next : PoolPc} {socket : Socket}
    (hnext : pc.afterClose = some (socket, next)) :
    (∀ pushed, pc.holds pushed = some socket ∧ next.holds pushed = none) ∧
      ¬next.MidPop ∧ ¬next.HasStopped := by
  cases pc with
  | pushClose =>
      cases hnext
      exact ⟨fun _ => ⟨rfl, rfl⟩, id, id⟩
  | serving _ stage =>
      cases stage <;> cases hnext
      exact ⟨fun _ => ⟨rfl, rfl⟩, id, id⟩
  | _ => cases hnext

theorem PoolState.OwnershipInv.step (hinv : state.OwnershipInv)
    (hqueue : state.QueueInv nodes) (hquiet : state.QuietInv)
    (hstep : PoolStep state thread after) : after.OwnershipInv := by
  cases hstep with
  | move pc hmove =>
      have hsame := hmove.holds_eq
        (fun hstopped => (hquiet.quiet hstopped).2 thread) state.pushed
      exact hinv.keep rfl hsame rfl rfl rfl rfl
  | lock pc hpc havailable =>
      exact hinv.keep rfl ((PoolPc.quiet_afterLock hpc).1 _) rfl rfl rfl rfl
  | unlock pc hpc =>
      exact hinv.keep rfl ((PoolPc.quiet_afterUnlock hpc).1 _) rfl rfl rfl rfl
  | wait hpc hempty hrunning =>
      exact hinv.keep rfl (by rw [hpc]; rfl) rfl rfl rfl rfl
  | accepts socket hpc hnew => exact hinv.accepts hpc hnew
  | allocates socket node hpc hfree =>
      exact hinv.keep rfl (by rw [hpc]; rfl) rfl rfl rfl rfl
  | links socket node hpc hrunning => exact hinv.links hqueue hpc
  | discards socket node hpc =>
      exact hinv.keep rfl (by rw [hpc]; rfl) rfl rfl rfl rfl
  | unlinks node cell hpc hhead hcell hrunning =>
      exact hinv.unlinks hqueue hpc hhead hcell
  | reads node ticket cell hpc hcell =>
      have hget := hqueue.pushed_of_read hpc hcell
      exact hinv.keep rfl (by rw [hpc]; exact hget.symm) rfl rfl rfl rfl
  | frees node ticket socket hpc =>
      exact hinv.keep rfl (by rw [hpc]; rfl) rfl rfl (by simp) rfl
  | closes socket pc hpc =>
      obtain ⟨hheld, hnone⟩ := (PoolPc.quiet_afterClose hpc).1 state.pushed
      exact hinv.closes hheld hnone
  | stops hpc => exact hinv.keep rfl (by rw [hpc]; rfl) rfl rfl rfl rfl

theorem PoolState.QuietInv.keep (hinv : state.QuietInv) {pc : PoolPc}
    (hpcs : after.pcs = Function.update state.pcs thread pc)
    (hshutdown : after.shutdown = state.shutdown)
    (hwaiting : state.shutdown = true → after.waiting = state.waiting)
    (hmid : state.shutdown = true → pc.MidPop → (state.pcs thread).MidPop)
    (hstopped : pc.HasStopped → (state.pcs thread).HasStopped) :
    after.QuietInv where
  quiet := by
    rw [hshutdown]
    intro hset
    obtain ⟨hempty, hnone⟩ := hinv.quiet hset
    refine ⟨by rw [hwaiting hset, hempty], ?_⟩
    intro other
    rw [hpcs]
    by_cases hother : other = thread
    · rw [hother, Function.update_self]
      exact fun hpc => hnone thread (hmid hset hpc)
    · rw [Function.update_of_ne hother]
      exact hnone other
  stopped := by
    intro other
    rw [hpcs, hshutdown]
    by_cases hother : other = thread
    · rw [hother, Function.update_self]
      exact fun hpc => hinv.stopped thread (hstopped hpc)
    · rw [Function.update_of_ne hother]
      exact hinv.stopped other

theorem PoolState.QuietInv.stops (hqueue : state.QueueInv nodes)
    (hempty : state.queue.head = none)
    (hnone : ∀ other, ¬(state.pcs other).MidPop) :
    PoolState.QuietInv
      { state.goto thread .stopUnlock with shutdown := true } where
  quiet := by
    intro _
    refine ⟨hqueue.queue.head_eq_none_iff_values.mp hempty, ?_⟩
    intro other
    by_cases hother : other = thread
    · simp [PoolState.goto, hother, PoolPc.MidPop]
    · simpa [PoolState.goto, hother] using hnone other
  stopped := fun _ _ => rfl

theorem PoolState.QuietInv.step (hinv : state.QuietInv)
    (hqueue : state.QueueInv nodes) (hallowed : QuietStop state thread)
    (hstep : PoolStep state thread after) : after.QuietInv := by
  cases hstep with
  | move pc hmove =>
      exact hinv.keep rfl rfl (fun _ => rfl)
        (fun _ hmid => absurd hmid hmove.not_midPop) hmove.hasStopped
  | lock pc hpc havailable =>
      obtain ⟨-, hmid, hstopped⟩ := PoolPc.quiet_afterLock hpc
      exact hinv.keep rfl rfl (fun _ => rfl) (fun _ h => absurd h hmid)
        (fun h => absurd h hstopped)
  | unlock pc hpc =>
      obtain ⟨-, hmid, hstopped⟩ := PoolPc.quiet_afterUnlock hpc
      exact hinv.keep rfl rfl (fun _ => rfl) (fun _ => hmid) hstopped
  | wait hpc hempty hrunning =>
      exact hinv.keep rfl rfl (fun _ => rfl) (fun _ h => h.elim) (fun h => h.elim)
  | accepts socket hpc hnew =>
      exact hinv.keep rfl rfl (fun _ => rfl) (fun _ h => h.elim) (fun h => h.elim)
  | allocates socket node hpc hfree =>
      exact hinv.keep rfl rfl (fun _ => rfl) (fun _ h => h.elim) (fun h => h.elim)
  | links socket node hpc hrunning =>
      have hnot (hset : state.shutdown = true) : False := by
        simp [hrunning] at hset
      exact hinv.keep rfl rfl (fun hset => (hnot hset).elim)
        (fun hset => (hnot hset).elim) (fun h => h.elim)
  | discards socket node hpc =>
      exact hinv.keep rfl rfl (fun _ => rfl) (fun _ h => h.elim) (fun h => h.elim)
  | unlinks node cell hpc hhead hcell hrunning =>
      have hnot (hset : state.shutdown = true) : False := by
        simp [hrunning] at hset
      exact hinv.keep rfl rfl (fun hset => (hnot hset).elim)
        (fun hset => (hnot hset).elim) (fun h => h.elim)
  | reads node ticket cell hpc hcell =>
      exact hinv.keep rfl rfl (fun _ => rfl) (fun _ _ => by rw [hpc]; trivial)
        (fun h => h.elim)
  | frees node ticket socket hpc =>
      exact hinv.keep rfl rfl
        (fun _ => by simp [PoolState.waiting, PoolState.goto])
        (fun _ _ => by rw [hpc]; trivial) (fun h => h.elim)
  | closes socket pc hpc =>
      obtain ⟨-, hmid, hstopped⟩ := PoolPc.quiet_afterClose hpc
      exact hinv.keep rfl rfl (fun _ => rfl) (fun _ h => absurd h hmid)
        (fun h => absurd h hstopped)
  | stops hpc =>
      obtain ⟨hempty, hnone⟩ := hallowed hpc
      exact PoolState.QuietInv.stops hqueue hempty hnone

end Invariant

/-! ## Every run with a quiet shutdown -/

/-- The shutdown has completed, the accept loop has ended and every worker has
returned. -/
def PoolState.Finished {Thread : Type*} (state : PoolState Thread) : Prop :=
  (∃ thread, state.pcs thread = .stopEnded) ∧
    ∀ thread, state.pcs thread ∈ [.acceptEnded, .workerEnded, .stopEnded]

theorem PoolState.ownership_of_reachable {Thread : Type*} [DecidableEq Thread]
    {state : PoolState Thread}
    (hreach : ((poolSystem Thread).restrict QuietStop).Reachable state) :
    state.OwnershipInv ∧ state.QuietInv := by
  apply hreach.invariant_along
  · intro first hstart
    obtain ⟨-, -, hshutdown, -, hpcs, haccepted, hpushed, hresults, hclosed⟩ :=
      hstart
    have hidle (thread : Thread) :
        (first.pcs thread).holds first.pushed = none ∧
          ¬(first.pcs thread).HasStopped := by
      have hpc := hpcs thread
      simp only [List.mem_cons, List.not_mem_nil, or_false] at hpc
      rcases hpc with hpc | hpc | hpc <;> rw [hpc] <;> exact ⟨rfl, id⟩
    have hwaiting : first.waiting = [] := by
      simp [PoolState.waiting, hpushed]
    refine ⟨⟨?_, by simp [hwaiting], by simp [hclosed]⟩, ?_, ?_⟩
    · intro socket
      refine ⟨.outside, by simp [PoolState.At, haccepted], ?_⟩
      intro place hplace
      cases place with
      | outside => rfl
      | thread thread => simp [PoolState.At, (hidle thread).1] at hplace
      | queue => simp [PoolState.At, hwaiting] at hplace
      | closed => simp [PoolState.At, hclosed] at hplace
    · simp [hshutdown]
    · intro thread hstopped
      exact absurd hstopped (hidle thread).2
  · intro before thread after hbefore hinv hstep
    obtain ⟨nodes, hqueue⟩ :=
      (PoolState.inv_of_reachable hbefore.of_restrict).queue
    exact ⟨hinv.1.step hqueue hinv.2 hstep.2,
      hinv.2.step hqueue hstep.1 hstep.2⟩

/-- After a quiet shutdown every accepted socket has been closed once. -/
theorem closed_once_of_quietStop {Thread : Type*} [DecidableEq Thread]
    {state : PoolState Thread}
    (hreach : ((poolSystem Thread).restrict QuietStop).Reachable state)
    (hfinished : state.Finished) :
    ∀ socket ∈ state.accepted, state.closed.count socket = 1 := by
  obtain ⟨hinv, hquiet⟩ := PoolState.ownership_of_reachable hreach
  obtain ⟨⟨stopper, hstopper⟩, hended⟩ := hfinished
  have hset : state.shutdown = true := by
    apply hquiet.stopped stopper
    rw [hstopper]
    trivial
  intro socket hsocket
  obtain ⟨place, hplace, -⟩ := hinv.onePlace socket
  cases place with
  | outside => exact absurd hsocket hplace
  | queue =>
      have hmem : socket ∈ state.waiting := hplace
      rw [(hquiet.quiet hset).1] at hmem
      simp at hmem
  | thread thread =>
      have hpc := hended thread
      have hheld : (state.pcs thread).holds state.pushed = some socket := hplace
      simp only [List.mem_cons, List.not_mem_nil, or_false] at hpc
      rcases hpc with hpc | hpc | hpc <;> rw [hpc] at hheld <;>
        simp [PoolPc.holds] at hheld
  | closed => exact List.count_eq_one_of_mem hinv.closedOnce hplace

/-! ## Two shutdowns -/

def threeThreads : PoolState (Fin 3) :=
  initialPool fun thread =>
    if thread = 0 then .accept else if thread = 1 then .popLock else .stopLock

theorem quietStop_of_ne {Thread : Type*} {state : PoolState Thread}
    {thread : Thread} (hpc : state.pcs thread ≠ .stopLocked) :
    QuietStop state thread :=
  fun hstop => absurd hstop hpc

theorem closed_once_refused_push :
    ∃ state : PoolState (Fin 3), state.accepted = [⟨5, 0⟩] ∧
      ∀ socket ∈ state.accepted, state.closed.count socket = 1 := by
  have hstart : ((poolSystem (Fin 3)).restrict QuietStop).Reachable threeThreads :=
    .start ⟨fun _ => rfl, rfl, rfl, rfl, by decide, rfl, rfl, rfl, rfl⟩
  have haccepted := hstart.next 0
    ⟨quietStop_of_ne (by decide), .accepts _ 0 ⟨5, 0⟩ rfl (by decide)⟩
  have hstopLocked := haccepted.next 2
    ⟨quietStop_of_ne (by decide), .lock _ 2 _ rfl rfl⟩
  have hset := hstopLocked.next 2
    ⟨fun _ => ⟨rfl, fun other => by fin_cases other <;> exact id⟩, .stops _ 2 rfl⟩
  have hstopUnlocked := hset.next 2
    ⟨quietStop_of_ne (by decide), .unlock _ 2 _ rfl⟩
  have hstopped := hstopUnlocked.next 2
    ⟨quietStop_of_ne (by decide), .move _ 2 _ .destroys⟩
  have hallocated := hstopped.next 0
    ⟨quietStop_of_ne (by decide), .allocates _ 0 _ 100 rfl rfl⟩
  have hlocked := hallocated.next 0
    ⟨quietStop_of_ne (by decide), .lock _ 0 _ rfl rfl⟩
  have hrefused := hlocked.next 0
    ⟨quietStop_of_ne (by decide), .move _ 0 _ (.pushRefuses _ _ rfl)⟩
  have hunlocked := hrefused.next 0
    ⟨quietStop_of_ne (by decide), .unlock _ 0 _ rfl⟩
  have hdiscarded := hunlocked.next 0
    ⟨quietStop_of_ne (by decide), .discards _ 0 _ _ rfl⟩
  have hclosed := hdiscarded.next 0
    ⟨quietStop_of_ne (by decide), .closes _ 0 _ _ rfl⟩
  have hfailed := hclosed.next 0
    ⟨quietStop_of_ne (by decide), .move _ 0 _ .acceptFails⟩
  have hended := hfailed.next 0
    ⟨quietStop_of_ne (by decide), .move _ 0 _ (.acceptEnds rfl)⟩
  have hpopLocked := hended.next 1
    ⟨quietStop_of_ne (by decide), .lock _ 1 _ rfl rfl⟩
  have hpopRefused := hpopLocked.next 1
    ⟨quietStop_of_ne (by decide), .move _ 1 _ (.popRefuses rfl)⟩
  have hpopped := hpopRefused.next 1
    ⟨quietStop_of_ne (by decide), .unlock _ 1 _ rfl⟩
  have hworkerEnded := hpopped.next 1
    ⟨quietStop_of_ne (by decide), .move _ 1 _ (.workerEnds _ (.inl rfl))⟩
  refine ⟨_, rfl, closed_once_of_quietStop hworkerEnded ⟨⟨2, rfl⟩, ?_⟩⟩
  decide

/-- The shutdown comes while the socket is in the queue. -/
theorem not_closed_once_queued :
    ¬∀ state : PoolState (Fin 3), (poolSystem (Fin 3)).Reachable state →
      state.Finished →
      ∀ socket ∈ state.accepted, state.closed.count socket = 1 := by
  intro hclosed
  have hstart : (poolSystem (Fin 3)).Reachable threeThreads :=
    reachable_initialPool (by decide)
  have haccepted := hstart.next 0 (.accepts _ 0 ⟨5, 0⟩ rfl (by decide))
  have hallocated := haccepted.next 0 (.allocates _ 0 _ 100 rfl rfl)
  have hlocked := hallocated.next 0 (.lock _ 0 _ rfl rfl)
  have hlinked := hlocked.next 0 (.links _ 0 _ _ rfl rfl)
  have hpushed := hlinked.next 0 (.unlock _ 0 _ rfl)
  have hstopLocked := hpushed.next 2 (.lock _ 2 _ rfl rfl)
  have hset := hstopLocked.next 2 (.stops _ 2 rfl)
  have hstopUnlocked := hset.next 2 (.unlock _ 2 _ rfl)
  have hstopped := hstopUnlocked.next 2 (.move _ 2 _ .destroys)
  have hfailed := hstopped.next 0 (.move _ 0 _ .acceptFails)
  have hended := hfailed.next 0 (.move _ 0 _ (.acceptEnds rfl))
  have hpopLocked := hended.next 1 (.lock _ 1 _ rfl rfl)
  have hpopRefused := hpopLocked.next 1 (.move _ 1 _ (.popRefuses rfl))
  have hpopped := hpopRefused.next 1 (.unlock _ 1 _ rfl)
  have hworkerEnded := hpopped.next 1
    (.move _ 1 _ (.workerEnds _ (.inl rfl)))
  have hcount := hclosed _ hworkerEnded ⟨⟨2, rfl⟩, by decide⟩ ⟨5, 0⟩ (by decide)
  revert hcount
  decide

end Lith
