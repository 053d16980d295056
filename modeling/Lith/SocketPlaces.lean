import Lith.SocketOwnership

/-!
# One owner in every run

A worker that has taken a socket and then sees the shutdown leaves without closing
it.  If such a worker is taken to hold its socket for ever, every socket has one
place in every run, however the shutdown falls.  So a socket that is served is
served by one worker, is not yet closed and will not be served again.
-/

namespace Lith

variable {Thread : Type*} [DecidableEq Thread] {state after : PoolState Thread}
  {thread : Thread} {nodes : List ℕ}

/-- A step looks at the program point of its own thread only. -/
theorem PoolStep.transfer {pcs : Thread → PoolPc} (hstep : PoolStep state thread after)
    (hsame : pcs thread = state.pcs thread) :
    ∃ pc, after.pcs = Function.update state.pcs thread pc ∧
      PoolStep
        { state with
          pcs := pcs } thread
        { after with
          pcs := Function.update pcs thread pc } := by
  cases hstep with
  | move pc hmove =>
      rw [← hsame] at hmove
      exact ⟨pc, rfl, .move _ thread pc hmove⟩
  | lock pc hpc havailable =>
      rw [← hsame] at hpc
      exact ⟨pc, rfl, .lock _ thread pc hpc havailable⟩
  | unlock pc hpc =>
      rw [← hsame] at hpc
      exact ⟨pc, rfl, .unlock _ thread pc hpc⟩
  | wait hpc hempty hrunning =>
      rw [← hsame] at hpc
      exact ⟨_, rfl, .wait _ thread hpc hempty hrunning⟩
  | accepts socket hpc hnew =>
      rw [← hsame] at hpc
      exact ⟨_, rfl, .accepts _ thread socket hpc hnew⟩
  | allocates socket node hpc hfree =>
      rw [← hsame] at hpc
      exact ⟨_, rfl, .allocates _ thread socket node hpc hfree⟩
  | links socket node hpc hrunning =>
      rw [← hsame] at hpc
      exact ⟨_, rfl, .links _ thread socket node hpc hrunning⟩
  | discards socket node hpc =>
      rw [← hsame] at hpc
      exact ⟨_, rfl, .discards _ thread socket node hpc⟩
  | unlinks node cell hpc hhead hcell hrunning =>
      rw [← hsame] at hpc
      exact ⟨_, rfl, .unlinks _ thread node cell hpc hhead hcell hrunning⟩
  | reads node ticket cell hpc hcell =>
      rw [← hsame] at hpc
      exact ⟨_, rfl, .reads _ thread node ticket cell hpc hcell⟩
  | frees node ticket socket hpc =>
      rw [← hsame] at hpc
      exact ⟨_, rfl, .frees _ thread node ticket socket hpc⟩
  | closes socket pc hpc =>
      rw [← hsame] at hpc
      exact ⟨pc, rfl, .closes _ thread socket pc hpc⟩
  | stops hpc =>
      rw [← hsame] at hpc
      exact ⟨_, rfl, .stops _ thread hpc⟩

/-- The worker leaves with a socket that it has taken. -/
def PoolState.Leaves (state : PoolState Thread) (thread : Thread)
    (after : PoolState Thread) : Prop :=
  ∃ socket, state.pcs thread = .popped (some socket) ∧
    after.pcs thread = .workerEnded

/-- But for such a worker, every step keeps the places. -/
theorem PoolState.OwnershipInv.step_of_not_leaves (hinv : state.OwnershipInv)
    (hqueue : state.QueueInv nodes) (hstays : ¬state.Leaves thread after)
    (hstep : PoolStep state thread after) : after.OwnershipInv := by
  cases hstep with
  | move pc hmove =>
      have hsame : pc.holds state.pushed = (state.pcs thread).holds state.pushed := by
        generalize hpc : state.pcs thread = before at hmove
        cases hmove with
        | workerEnds result hend =>
            cases result with
            | none => rfl
            | some socket => exact absurd ⟨socket, hpc, by simp⟩ hstays
        | _ => rfl
      exact hinv.keep rfl hsame rfl rfl rfl rfl
  | lock pc hpc havailable =>
      exact hinv.keep rfl ((PoolPc.quiet_afterLock hpc).1 _) rfl rfl rfl rfl
  | unlock pc hpc =>
      exact hinv.keep rfl ((PoolPc.quiet_afterUnlock hpc).1 _) rfl rfl rfl rfl
  | wait hpc hempty hrunning =>
      exact hinv.keep rfl (by rw [hpc]; rfl) rfl rfl rfl rfl
  | accepts socket hpc hnew => exact hinv.accepts hpc hnew
  | allocates socket node hpc hfree =>
      exact hinv.keep rfl (by rw [hpc]; rfl) rfl rfl rfl rfl
  | links socket node hpc hrunning => exact hinv.links hqueue hpc
  | discards socket node hpc =>
      exact hinv.keep rfl (by rw [hpc]; rfl) rfl rfl rfl rfl
  | unlinks node cell hpc hhead hcell hrunning =>
      exact hinv.unlinks hqueue hpc hhead hcell
  | reads node ticket cell hpc hcell =>
      have hget := hqueue.pushed_of_read hpc hcell
      exact hinv.keep rfl (by rw [hpc]; exact hget.symm) rfl rfl rfl rfl
  | frees node ticket socket hpc =>
      exact hinv.keep rfl (by rw [hpc]; rfl) rfl rfl (by simp) rfl
  | closes socket pc hpc =>
      obtain ⟨hheld, hnone⟩ := (PoolPc.quiet_afterClose hpc).1 state.pushed
      exact hinv.closes hheld hnone
  | stops hpc => exact hinv.keep rfl (by rw [hpc]; rfl) rfl rfl rfl rfl

theorem PoolState.Leaves.eq (hleaves : state.Leaves thread after)
    (hstep : PoolStep state thread after) : after = state.goto thread .workerEnded := by
  obtain ⟨socket, hpc, hnext⟩ := hleaves
  cases hstep with
  | move pc hmove =>
      rw [PoolState.goto_pcs_self] at hnext
      rw [hnext]
  | _ => simp_all [PoolPc.afterLock, PoolPc.afterUnlock, PoolPc.afterClose]

theorem PoolStep.not_workerEnded (hstep : PoolStep state thread after) :
    state.pcs thread ≠ .workerEnded := by
  intro hended
  cases hstep with
  | move pc hmove =>
      rw [hended] at hmove
      cases hmove
  | _ => simp_all [PoolPc.afterLock, PoolPc.afterUnlock, PoolPc.afterClose]

/-- The program points of a pool in which nobody leaves with a socket. -/
structure PoolState.Kept (state : PoolState Thread) (pcs : Thread → PoolPc) : Prop where
  same : ∀ thread, pcs thread = state.pcs thread ∨
    state.pcs thread = .workerEnded ∧ ∃ socket, pcs thread = .popped (some socket)
  ownership : PoolState.OwnershipInv
    { state with
      pcs := pcs }

omit [DecidableEq Thread] in
theorem PoolState.QueueInv.kept (hinv : state.QueueInv nodes) {pcs : Thread → PoolPc}
    (hsame : ∀ thread, pcs thread = state.pcs thread ∨
      state.pcs thread = .workerEnded ∧ ∃ socket, pcs thread = .popped (some socket)) :
    PoolState.QueueInv
      { state with
        pcs := pcs } nodes := by
  have hnode (thread : Thread) (node : ℕ) (hmine : (pcs thread).node = some node) :
      (state.pcs thread).node = some node := by
    rcases hsame thread with hpc | ⟨-, socket, hpc⟩
    · rwa [hpc] at hmine
    · rw [hpc] at hmine
      cases hmine
  refine ⟨hinv.queue, hinv.bound, ?_, ?_, ?_⟩
  · intro thread
    rcases hsame thread with hpc | ⟨-, socket, hpc⟩
    · simp only [hpc]
      exact hinv.content thread
    · simp only [hpc]
      trivial
  · exact fun thread node hmine => hinv.apart thread node (hnode thread node hmine)
  · exact fun first second node hfirst hsecond =>
      hinv.owner first second node (hnode first node hfirst) (hnode second node hsecond)

theorem PoolState.Kept.step {pcs : Thread → PoolPc} (hkept : state.Kept pcs)
    (hqueue : state.QueueInv nodes) (hstep : PoolStep state thread after) :
    ∃ pcs, after.Kept pcs := by
  have hsame : pcs thread = state.pcs thread :=
    (hkept.same thread).resolve_right fun h => hstep.not_workerEnded h.1
  by_cases hleaves : state.Leaves thread after
  · obtain rfl := hleaves.eq hstep
    obtain ⟨socket, hpc, -⟩ := hleaves
    refine ⟨pcs, fun other => ?_, hkept.ownership⟩
    by_cases hother : other = thread
    · rw [hother]
      exact Or.inr ⟨state.goto_pcs_self thread _, socket, hsame.trans hpc⟩
    · simpa [PoolState.goto, hother] using hkept.same other
  · obtain ⟨pc, hpcs, htransfer⟩ := hstep.transfer hsame
    refine ⟨Function.update pcs thread pc, fun other => ?_, ?_⟩
    · rw [hpcs]
      by_cases hother : other = thread
      · rw [hother, Function.update_self, Function.update_self]
        exact Or.inl rfl
      · rw [Function.update_of_ne hother, Function.update_of_ne hother]
        exact hkept.same other
    · refine hkept.ownership.step_of_not_leaves (hqueue.kept hkept.same) ?_ htransfer
      rintro ⟨socket, hpc, hnext⟩
      have hends : pc = .workerEnded :=
        (Function.update_self thread pc pcs).symm.trans hnext
      refine hleaves ⟨socket, hsame.symm.trans hpc, ?_⟩
      rw [hpcs, Function.update_self, hends]

theorem kept_of_reachable (hreach : (poolSystem Thread).Reachable state) :
    ∃ pcs, state.Kept pcs := by
  induction hreach with
  | @start first hstart =>
      refine ⟨first.pcs, fun _ => Or.inl rfl, ?_⟩
      exact (PoolState.ownership_of_reachable (.start hstart)).1
  | next hbefore label hstep ih =>
      obtain ⟨pcs, hkept⟩ := ih
      obtain ⟨nodes, hqueue⟩ := (PoolState.inv_of_reachable hbefore).queue
      exact hkept.step hqueue hstep

omit [DecidableEq Thread] in
theorem PoolState.Kept.at_thread {pcs : Thread → PoolPc} (hkept : state.Kept pcs)
    {socket : Socket} (hholds : (state.pcs thread).holds state.pushed = some socket) :
    PoolState.At
      { state with
        pcs := pcs } (.thread thread) socket := by
  have hsame : pcs thread = state.pcs thread :=
    (hkept.same thread).resolve_right fun h => by simp [h.1, PoolPc.holds] at hholds
  simpa [PoolState.At, hsame] using hholds

/-- No socket is with two threads, with a thread and in the queue, or with anybody
after it has been closed, and none is closed twice. -/
structure PoolState.OneOwner (state : PoolState Thread) : Prop where
  oneThread : ∀ first second socket,
    (state.pcs first).holds state.pushed = some socket →
    (state.pcs second).holds state.pushed = some socket → first = second
  notQueued : ∀ thread socket,
    (state.pcs thread).holds state.pushed = some socket → socket ∉ state.waiting
  notClosed : ∀ thread socket,
    (state.pcs thread).holds state.pushed = some socket → socket ∉ state.closed
  queuedOpen : ∀ socket ∈ state.waiting, socket ∉ state.closed
  queuedOnce : state.waiting.Nodup
  closedOnce : state.closed.Nodup

/-- However many shutdowns there are and whenever they fall. -/
theorem oneOwner_of_reachable (hreach : (poolSystem Thread).Reachable state) :
    state.OneOwner := by
  obtain ⟨pcs, hkept⟩ := kept_of_reachable hreach
  have hplaces := hkept.ownership.onePlace
  refine ⟨?_, ?_, ?_, ?_, hkept.ownership.waitingOnce, hkept.ownership.closedOnce⟩
  · intro first second socket hfirst hsecond
    have hplace := (hplaces socket).unique (hkept.at_thread hfirst)
      (hkept.at_thread hsecond)
    simpa using hplace
  · intro thread socket hholds hwaiting
    have hplace := (hplaces socket).unique (hkept.at_thread hholds)
      (show PoolState.At _ .queue socket from hwaiting)
    simp at hplace
  · intro thread socket hholds hclosed
    have hplace := (hplaces socket).unique (hkept.at_thread hholds)
      (show PoolState.At _ .closed socket from hclosed)
    simp at hplace
  · intro socket hwaiting hclosed
    have hplace := (hplaces socket).unique
      (show PoolState.At _ .queue socket from hwaiting)
      (show PoolState.At _ .closed socket from hclosed)
    simp at hplace

/-- The shutdown falls between taking a socket and looking at the flag. -/
theorem oneOwner_of_reachable_leaving :
    ∃ state : PoolState (Fin 3), state.accepted = [⟨5, 0⟩] ∧ state.closed = [] ∧
      state.pcs 1 = .workerEnded ∧ state.OneOwner := by
  have hstart : (poolSystem (Fin 3)).Reachable threeThreads :=
    reachable_initialPool (by decide)
  have haccepted := hstart.next 0 (.accepts _ 0 ⟨5, 0⟩ rfl (by decide))
  have hallocated := haccepted.next 0 (.allocates _ 0 _ 100 rfl rfl)
  have hlocked := hallocated.next 0 (.lock _ 0 _ rfl rfl)
  have hlinked := hlocked.next 0 (.links _ 0 _ _ rfl rfl)
  have hpushed := hlinked.next 0 (.unlock _ 0 _ rfl)
  have hpopLocked := hpushed.next 1 (.lock _ 1 _ rfl rfl)
  have hunlinked := hpopLocked.next 1 (.unlinks _ 1 100 ⟨⟨5, 0⟩, none⟩ rfl rfl rfl rfl)
  have hpopUnlocked := hunlinked.next 1 (.unlock _ 1 _ rfl)
  have hread := hpopUnlocked.next 1 (.reads _ 1 _ _ ⟨⟨5, 0⟩, none⟩ rfl rfl)
  have hfreed := hread.next 1 (.frees _ 1 _ _ _ rfl)
  have hstopLocked := hfreed.next 2 (.lock _ 2 _ rfl rfl)
  have hset := hstopLocked.next 2 (.stops _ 2 rfl)
  have hleft := hset.next 1 (.move _ 1 _ (.workerEnds _ (.inl rfl)))
  exact ⟨_, rfl, rfl, rfl, oneOwner_of_reachable hleft⟩

end Lith
