import Lith.ThreadPool

/-!
# The task queue is first-in first-out

The linked cells, the tail pointer and the counter of the pool always describe
the sockets that were linked and not yet unlinked.  Besides the queue, the
invariant keeps the nodes that threads have for themselves apart from the
queue and from each other, so that the socket an unlinked node holds is still
there when the worker reads it without the mutex.
-/

namespace Lith

def PoolPc.Content (heap : Heap ℕ Socket) (pushed : List Socket) :
    PoolPc → Prop
  | .pushLock socket node | .pushLocked socket node | .pushRefused socket node
  | .pushDiscard socket node => heap node = some ⟨socket, none⟩
  | .popUnlinked node ticket | .popRead node ticket =>
      ∃ cell, heap node = some cell ∧ pushed[ticket]? = some cell.value
  | .popFree node ticket socket =>
      heap node ≠ none ∧ pushed[ticket]? = some socket
  | _ => True

theorem PoolPc.Content.allocated {heap : Heap ℕ Socket} {pushed : List Socket}
    {pc : PoolPc} (hcontent : pc.Content heap pushed) {node : ℕ}
    (hnode : pc.node = some node) : heap node ≠ none := by
  cases pc with
  | pushLock | pushLocked | pushRefused | pushDiscard =>
      cases hnode
      simp [show heap node = _ from hcontent]
  | popUnlinked | popRead =>
      cases hnode
      obtain ⟨cell, hcell, -⟩ := hcontent
      simp [hcell]
  | popFree =>
      cases hnode
      exact hcontent.1
  | _ => cases hnode

theorem getElem?_of_isPrefix {pushed pushed' : List Socket}
    (hextends : pushed <+: pushed') {i : ℕ} {socket : Socket}
    (hget : pushed[i]? = some socket) : pushed'[i]? = some socket := by
  obtain ⟨more, rfl⟩ := hextends
  obtain ⟨hlt, -⟩ := List.getElem?_eq_some_iff.mp hget
  rw [List.getElem?_append_left hlt, hget]

theorem PoolPc.Content.frame {heap heap' : Heap ℕ Socket}
    {pushed pushed' : List Socket} {pc : PoolPc}
    (hcontent : pc.Content heap pushed)
    (hsame : ∀ node, pc.node = some node → heap' node = heap node)
    (hextends : pushed <+: pushed') : pc.Content heap' pushed' := by
  cases pc with
  | pushLock socket node => exact (hsame node rfl).trans hcontent
  | pushLocked socket node => exact (hsame node rfl).trans hcontent
  | pushRefused socket node => exact (hsame node rfl).trans hcontent
  | pushDiscard socket node => exact (hsame node rfl).trans hcontent
  | popUnlinked node ticket =>
      obtain ⟨cell, hcell, hget⟩ := hcontent
      exact ⟨cell, (hsame node rfl).trans hcell,
        getElem?_of_isPrefix hextends hget⟩
  | popRead node ticket =>
      obtain ⟨cell, hcell, hget⟩ := hcontent
      exact ⟨cell, (hsame node rfl).trans hcell,
        getElem?_of_isPrefix hextends hget⟩
  | popFree node ticket socket =>
      obtain ⟨halloc, hget⟩ := hcontent
      refine ⟨?_, getElem?_of_isPrefix hextends hget⟩
      rw [hsame node rfl]
      exact halloc
  | _ => trivial

/-! ## Steps that leave the queue alone -/

/-- Two program points with the same node and the same unfinished call. -/
structure PoolPc.Alike (pc next : PoolPc) : Prop where
  node : next.node = pc.node
  ticket : next.ticket = pc.ticket
  content : ∀ heap pushed, pc.Content heap pushed → next.Content heap pushed

theorem PoolPc.Move.alike {shutdown : Bool} {pc next : PoolPc}
    (hmove : PoolPc.Move shutdown pc next) : pc.Alike next := by
  cases hmove <;> exact ⟨rfl, rfl, fun _ _ => id⟩

theorem PoolPc.alike_afterLock {pc next : PoolPc}
    (hnext : pc.afterLock = some next) : pc.Alike next := by
  cases pc <;> cases hnext <;> exact ⟨rfl, rfl, fun _ _ => id⟩

theorem PoolPc.alike_afterUnlock {pc next : PoolPc}
    (hnext : pc.afterUnlock = some next) : pc.Alike next := by
  cases pc <;> cases hnext <;> exact ⟨rfl, rfl, fun _ _ => id⟩

theorem PoolPc.alike_afterClose {pc next : PoolPc} {socket : Socket}
    (hnext : pc.afterClose = some (socket, next)) : pc.Alike next := by
  cases pc with
  | pushClose =>
      cases hnext
      exact ⟨rfl, rfl, fun _ _ => id⟩
  | serving _ stage =>
      cases stage <;> cases hnext
      exact ⟨rfl, rfl, fun _ _ => id⟩
  | _ => cases hnext

/-! ## The queue and the nodes outside it -/

section Invariant

variable {Thread : Type*} {state : PoolState Thread} {thread : Thread}
  {nodes : List ℕ}

def PoolState.waiting (state : PoolState Thread) : List Socket :=
  state.pushed.drop state.results.length

theorem PoolState.waiting_eq_cons {socket : Socket} {others : List Socket}
    (hwaiting : state.waiting = socket :: others) :
    state.pushed[state.results.length]? = some socket ∧
      state.pushed.drop (state.results.length + 1) = others ∧
      state.results.length < state.pushed.length := by
  unfold PoolState.waiting at hwaiting
  have hlt : state.results.length < state.pushed.length := by
    by_contra hge
    rw [List.drop_eq_nil_of_le (by omega)] at hwaiting
    simp at hwaiting
  rw [List.drop_eq_getElem_cons hlt, List.cons.injEq] at hwaiting
  exact ⟨by rw [List.getElem?_eq_getElem hlt, hwaiting.1], hwaiting.2, hlt⟩

structure PoolState.QueueInv (state : PoolState Thread) (nodes : List ℕ) :
    Prop where
  queue : LinkedQueue.Represents state.heap state.queue nodes state.waiting
  bound : state.results.length ≤ state.pushed.length
  content : ∀ thread, (state.pcs thread).Content state.heap state.pushed
  apart : ∀ thread node, (state.pcs thread).node = some node → node ∉ nodes
  owner : ∀ thread other node, (state.pcs thread).node = some node →
    (state.pcs other).node = some node → thread = other

theorem PoolState.QueueInv.owner_ne (hinv : state.QueueInv nodes)
    {other : Thread} (hother : other ≠ thread) {node : ℕ}
    (htheirs : (state.pcs other).node = some node) :
    (state.pcs thread).node ≠ some node := by
  intro hmine
  exact hother (hinv.owner other thread node htheirs hmine)

theorem PoolState.QueueInv.pushed_of_read (hinv : state.QueueInv nodes)
    {node ticket : ℕ} {cell : Cell ℕ Socket}
    (hpc : state.pcs thread = .popRead node ticket)
    (hcell : state.heap node = some cell) :
    state.pushed[ticket]? = some cell.value := by
  have hcontent := hinv.content thread
  rw [hpc] at hcontent
  obtain ⟨cell', hcell', hget⟩ := hcontent
  rw [hcell] at hcell'
  rw [hget, Option.some.inj hcell']

/-- A call returns the socket linked at its place, and each unfinished call
belongs to one thread. -/
structure PoolState.CallsInv (state : PoolState Thread) : Prop where
  returned : ∀ (i : ℕ) (socket : Socket),
    state.results[i]? = some (some socket) → state.pushed[i]? = some socket
  pending : ∀ i : ℕ, state.results[i]? = some none ↔
    ∃ thread, (state.pcs thread).ticket = some i
  unique : ∀ (thread other : Thread) (i : ℕ),
    (state.pcs thread).ticket = some i →
    (state.pcs other).ticket = some i → thread = other

theorem PoolState.CallsInv.lt_length (hinv : state.CallsInv) {i : ℕ}
    (hticket : (state.pcs thread).ticket = some i) :
    i < state.results.length := by
  have hpending := (hinv.pending i).mpr ⟨thread, hticket⟩
  exact (List.getElem?_eq_some_iff.mp hpending).1

variable [DecidableEq Thread]

theorem PoolState.QueueInv.update (hinv : state.QueueInv nodes)
    {after : PoolState Thread} {pc : PoolPc} {nodes' : List ℕ}
    (hpcs : after.pcs = Function.update state.pcs thread pc)
    (hqueue : LinkedQueue.Represents after.heap after.queue nodes' after.waiting)
    (hbound : after.results.length ≤ after.pushed.length)
    (hextends : state.pushed <+: after.pushed)
    (hothers : ∀ other node, other ≠ thread →
      (state.pcs other).node = some node →
      after.heap node = state.heap node ∧ node ∉ nodes' ∧ pc.node ≠ some node)
    (hcontent : pc.Content after.heap after.pushed)
    (hapart : ∀ node, pc.node = some node → node ∉ nodes') :
    after.QueueInv nodes' where
  queue := hqueue
  bound := hbound
  content := by
    intro other
    rw [hpcs]
    by_cases hother : other = thread
    · rw [hother, Function.update_self]
      exact hcontent
    · rw [Function.update_of_ne hother]
      apply (hinv.content other).frame _ hextends
      intro node hnode
      exact (hothers other node hother hnode).1
  apart := by
    intro other node
    rw [hpcs]
    by_cases hother : other = thread
    · rw [hother, Function.update_self]
      exact hapart node
    · rw [Function.update_of_ne hother]
      intro hnode
      exact (hothers other node hother hnode).2.1
  owner := by
    intro first second node
    rw [hpcs]
    by_cases hfirst : first = thread
    · by_cases hsecond : second = thread
      · intro _ _
        rw [hfirst, hsecond]
      · rw [hfirst, Function.update_self, Function.update_of_ne hsecond]
        intro hmine htheirs
        exact absurd hmine (hothers second node hsecond htheirs).2.2
    · by_cases hsecond : second = thread
      · rw [hsecond, Function.update_self, Function.update_of_ne hfirst]
        intro htheirs hmine
        exact absurd hmine (hothers first node hfirst htheirs).2.2
      · rw [Function.update_of_ne hfirst, Function.update_of_ne hsecond]
        exact hinv.owner first second node

theorem PoolState.QueueInv.keep (hinv : state.QueueInv nodes)
    {after : PoolState Thread} {pc : PoolPc}
    (hpcs : after.pcs = Function.update state.pcs thread pc)
    (hheap : after.heap = state.heap) (hqueue : after.queue = state.queue)
    (hpushed : after.pushed = state.pushed)
    (hresults : after.results = state.results)
    (hnode : pc.node = (state.pcs thread).node)
    (hcontent : pc.Content state.heap state.pushed) :
    after.QueueInv nodes := by
  apply hinv.update hpcs
  · have hwaiting : after.waiting = state.waiting := by
      simp only [PoolState.waiting, hpushed, hresults]
    rw [hheap, hqueue, hwaiting]
    exact hinv.queue
  · rw [hpushed, hresults]
    exact hinv.bound
  · rw [hpushed]
  · intro other node hother htheirs
    refine ⟨by rw [hheap], hinv.apart other node htheirs, ?_⟩
    rw [hnode]
    exact hinv.owner_ne hother htheirs
  · rw [hheap, hpushed]
    exact hcontent
  · intro node hmine
    rw [hnode] at hmine
    exact hinv.apart thread node hmine

theorem PoolState.QueueInv.alike (hinv : state.QueueInv nodes)
    {after : PoolState Thread} {pc : PoolPc}
    (halike : (state.pcs thread).Alike pc)
    (hpcs : after.pcs = Function.update state.pcs thread pc)
    (hheap : after.heap = state.heap) (hqueue : after.queue = state.queue)
    (hpushed : after.pushed = state.pushed)
    (hresults : after.results = state.results) : after.QueueInv nodes :=
  hinv.keep hpcs hheap hqueue hpushed hresults halike.node
    (halike.content _ _ (hinv.content thread))

theorem PoolState.QueueInv.free (hinv : state.QueueInv nodes)
    {after : PoolState Thread} {pc : PoolPc} {node : ℕ}
    (hmine : (state.pcs thread).node = some node)
    (hpcs : after.pcs = Function.update state.pcs thread pc)
    (hheap : after.heap = Function.update state.heap node none)
    (hqueue : after.queue = state.queue)
    (hpushed : after.pushed = state.pushed)
    (hresults : after.results.length = state.results.length)
    (hnode : pc.node = none) (hcontent : pc.Content after.heap after.pushed) :
    after.QueueInv nodes := by
  have hapart := hinv.apart thread node hmine
  apply hinv.update hpcs
  · have hwaiting : after.waiting = state.waiting := by
      simp only [PoolState.waiting, hpushed, hresults]
    rw [hqueue, hwaiting]
    apply hinv.queue.congr
    intro other hother
    rw [hheap, Function.update_of_ne]
    intro heq
    exact hapart (heq ▸ hother)
  · rw [hpushed, hresults]
    exact hinv.bound
  · rw [hpushed]
  · intro other node' hother htheirs
    refine ⟨?_, hinv.apart other node' htheirs, by simp [hnode]⟩
    rw [hheap, Function.update_of_ne]
    intro heq
    exact hinv.owner_ne hother htheirs (heq ▸ hmine)
  · exact hcontent
  · simp [hnode]

theorem PoolState.QueueInv.allocates (hinv : state.QueueInv nodes)
    {socket : Socket} {node : ℕ} (hfree : state.heap node = none) :
    PoolState.QueueInv
      { state.goto thread (.pushLock socket node) with
        heap := Function.update state.heap node (some ⟨socket, none⟩) }
      nodes := by
  have hchain : ∀ other ∈ nodes, other ≠ node := by
    intro other hother heq
    exact hinv.queue.chain.allocated hother (heq ▸ hfree)
  refine hinv.update rfl ?_ hinv.bound List.prefix_rfl ?_ ?_ ?_
  · apply hinv.queue.congr
    intro other hother
    exact Function.update_of_ne (hchain other hother) ..
  · intro other node' _ htheirs
    have hne : node' ≠ node := by
      intro heq
      exact (hinv.content other).allocated htheirs (heq ▸ hfree)
    refine ⟨Function.update_of_ne hne .., hinv.apart other node' htheirs, ?_⟩
    simpa [PoolPc.node] using hne.symm
  · exact Function.update_self ..
  · intro node' hmine hmem
    have heq : node = node' := Option.some.inj hmine
    exact hchain node' hmem heq.symm

theorem PoolState.QueueInv.links (hinv : state.QueueInv nodes)
    {socket : Socket} {node : ℕ}
    (hpc : state.pcs thread = .pushLocked socket node) :
    PoolState.QueueInv
      { state.goto thread .pushUnlock with
        heap := (state.queue.link state.heap node).1
        queue := (state.queue.link state.heap node).2
        pushed := state.pushed ++ [socket] }
      (nodes ++ [node]) := by
  have hmine : (state.pcs thread).node = some node := by
    rw [hpc]
    rfl
  have hcell : state.heap node = some ⟨socket, none⟩ := by
    have hcontent := hinv.content thread
    rw [hpc] at hcontent
    exact hcontent
  have hfresh := hinv.apart thread node hmine
  refine hinv.update rfl ?_ ?_ (List.prefix_append _ _) ?_ trivial ?_
  · have hlinked := hinv.queue.link hcell hfresh
    have hwaiting : (state.pushed ++ [socket]).drop state.results.length =
        state.waiting ++ [socket] :=
      List.drop_append_of_le_length hinv.bound
    simp only [PoolState.waiting, PoolState.goto] at hlinked hwaiting ⊢
    rw [hwaiting]
    exact hlinked
  · have hbound := hinv.bound
    simp only [List.length_append, List.length_singleton]
    exact Nat.le_succ_of_le hbound
  · intro other node' hother htheirs
    have hne : node' ≠ node := by
      intro heq
      exact hinv.owner_ne hother htheirs (heq ▸ hmine)
    have hout := hinv.apart other node' htheirs
    refine ⟨LinkedQueue.link_heap_of_ne hinv.queue node hout, ?_, ?_⟩
    · simp [hout, hne]
    · simp [PoolPc.node]
  · simp [PoolPc.node]

theorem PoolState.QueueInv.unlinks (hinv : state.QueueInv nodes) {node : ℕ}
    {cell : Cell ℕ Socket} (hhead : state.queue.head = some node)
    (hcell : state.heap node = some cell) :
    ∃ rest, PoolState.QueueInv
      { state.goto thread (.popUnlinked node state.results.length) with
        queue := state.queue.unlink cell
        results := state.results ++ [none] } rest := by
  obtain ⟨rest, others, hnodes, hvalues, hrest⟩ :=
    hinv.queue.unlink hhead hcell
  obtain ⟨hget, hothers, hlt⟩ := PoolState.waiting_eq_cons hvalues
  subst hnodes
  refine ⟨rest, hinv.update rfl ?_ ?_ List.prefix_rfl ?_ ?_ ?_⟩
  · simp only [PoolState.waiting, PoolState.goto, List.length_append,
      List.length_singleton, hothers]
    exact hrest
  · simpa [PoolState.goto] using hlt
  · intro other node' _ htheirs
    have hout := hinv.apart other node' htheirs
    rw [List.mem_cons, not_or] at hout
    refine ⟨rfl, hout.2, ?_⟩
    simpa [PoolPc.node] using Ne.symm hout.1
  · exact ⟨cell, hcell, hget⟩
  · intro node' hmine
    have heq : node = node' := Option.some.inj hmine
    exact heq ▸ (List.nodup_cons.mp hinv.queue.nodup).1

theorem PoolState.QueueInv.step {after : PoolState Thread}
    (hinv : state.QueueInv nodes) (hstep : PoolStep state thread after) :
    ∃ nodes', after.QueueInv nodes' := by
  cases hstep with
  | move pc hmove => exact ⟨nodes, hinv.alike hmove.alike rfl rfl rfl rfl rfl⟩
  | lock pc hpc havailable =>
      exact ⟨nodes,
        hinv.alike (PoolPc.alike_afterLock hpc) rfl rfl rfl rfl rfl⟩
  | unlock pc hpc =>
      exact ⟨nodes,
        hinv.alike (PoolPc.alike_afterUnlock hpc) rfl rfl rfl rfl rfl⟩
  | closes socket pc hpc =>
      exact ⟨nodes,
        hinv.alike (PoolPc.alike_afterClose hpc) rfl rfl rfl rfl rfl⟩
  | wait hpc hempty hrunning =>
      refine ⟨nodes, hinv.alike ?_ rfl rfl rfl rfl rfl⟩
      rw [hpc]
      exact ⟨rfl, rfl, fun _ _ => id⟩
  | accepts socket hpc hnew =>
      refine ⟨nodes, hinv.alike ?_ rfl rfl rfl rfl rfl⟩
      rw [hpc]
      exact ⟨rfl, rfl, fun _ _ => id⟩
  | stops hpc =>
      refine ⟨nodes, hinv.alike ?_ rfl rfl rfl rfl rfl⟩
      rw [hpc]
      exact ⟨rfl, rfl, fun _ _ => id⟩
  | reads node ticket cell hpc hcell =>
      refine ⟨nodes, hinv.keep rfl rfl rfl rfl rfl ?_
        ⟨?_, hinv.pushed_of_read hpc hcell⟩⟩
      · rw [hpc]
        rfl
      · simp [hcell]
  | allocates socket node hpc hfree => exact ⟨nodes, hinv.allocates hfree⟩
  | links socket node hpc hrunning => exact ⟨nodes ++ [node], hinv.links hpc⟩
  | unlinks node cell hpc hhead hcell hrunning =>
      exact hinv.unlinks hhead hcell
  | discards socket node hpc =>
      refine ⟨nodes, hinv.free ?_ rfl rfl rfl rfl rfl rfl trivial⟩
      rw [hpc]
      rfl
  | frees node ticket socket hpc =>
      refine ⟨nodes, hinv.free ?_ rfl rfl rfl rfl ?_ rfl trivial⟩
      · rw [hpc]
        rfl
      · simp

/-! ## The calls and what they return -/

theorem PoolState.CallsInv.keep (hinv : state.CallsInv)
    {after : PoolState Thread} {pc : PoolPc}
    (hpcs : after.pcs = Function.update state.pcs thread pc)
    (hextends : state.pushed <+: after.pushed)
    (hresults : after.results = state.results)
    (hticket : pc.ticket = (state.pcs thread).ticket) : after.CallsInv := by
  have htickets (other : Thread) :
      (after.pcs other).ticket = (state.pcs other).ticket := by
    rw [hpcs]
    by_cases hother : other = thread
    · rw [hother, Function.update_self, hticket]
    · rw [Function.update_of_ne hother]
  refine ⟨?_, ?_, ?_⟩
  · intro i socket hreturned
    rw [hresults] at hreturned
    exact getElem?_of_isPrefix hextends (hinv.returned i socket hreturned)
  · intro i
    simp only [hresults, htickets]
    exact hinv.pending i
  · intro first second i
    simp only [htickets]
    exact hinv.unique first second i

/-- The calls that are unfinished when one thread has moved on. -/
theorem exists_ticket_update (pcs : Thread → PoolPc) (thread : Thread)
    (pc : PoolPc) (i : ℕ) :
    (∃ other, (Function.update pcs thread pc other).ticket = some i) ↔
      pc.ticket = some i ∨
        ∃ other, other ≠ thread ∧ (pcs other).ticket = some i := by
  constructor
  · rintro ⟨other, hticket⟩
    by_cases hother : other = thread
    · rw [hother, Function.update_self] at hticket
      exact .inl hticket
    · rw [Function.update_of_ne hother] at hticket
      exact .inr ⟨other, hother, hticket⟩
  · rintro (hticket | ⟨other, hother, hticket⟩)
    · exact ⟨thread, by rw [Function.update_self, hticket]⟩
    · exact ⟨other, by rw [Function.update_of_ne hother, hticket]⟩

/-- A thread that has moved on may have a call that nobody else has. -/
theorem PoolState.CallsInv.unique_update (hinv : state.CallsInv) {pc : PoolPc}
    (hnew : ∀ i, pc.ticket = some i →
      ∀ other, other ≠ thread → (state.pcs other).ticket ≠ some i)
    (first second : Thread) (i : ℕ)
    (hfirst : (Function.update state.pcs thread pc first).ticket = some i)
    (hsecond : (Function.update state.pcs thread pc second).ticket = some i) :
    first = second := by
  by_cases hone : first = thread
  · by_cases htwo : second = thread
    · rw [hone, htwo]
    · rw [hone, Function.update_self] at hfirst
      rw [Function.update_of_ne htwo] at hsecond
      exact absurd hsecond (hnew i hfirst second htwo)
  · rw [Function.update_of_ne hone] at hfirst
    by_cases htwo : second = thread
    · rw [htwo, Function.update_self] at hsecond
      exact absurd hfirst (hnew i hsecond first hone)
    · rw [Function.update_of_ne htwo] at hsecond
      exact hinv.unique first second i hfirst hsecond

theorem PoolState.CallsInv.unlinks (hinv : state.CallsInv)
    {after : PoolState Thread} {node : ℕ}
    (hfree : (state.pcs thread).ticket = none)
    (hpcs : after.pcs = Function.update state.pcs thread
      (.popUnlinked node state.results.length))
    (hpushed : after.pushed = state.pushed)
    (hresults : after.results = state.results ++ [none]) : after.CallsInv := by
  have hmine (other : Thread) (i : ℕ)
      (hticket : (state.pcs other).ticket = some i) : other ≠ thread := by
    rintro rfl
    simp [hfree] at hticket
  refine ⟨?_, ?_, ?_⟩
  · intro i socket hreturned
    rw [hpushed]
    apply hinv.returned
    by_cases hi : i < state.results.length
    · rw [hresults, List.getElem?_append_left hi] at hreturned
      exact hreturned
    · rw [hresults, List.getElem?_append_right (by omega)] at hreturned
      simp [List.getElem?_singleton] at hreturned
  · intro i
    rw [hpcs, exists_ticket_update, hresults, List.getElem?_append]
    have hold : (∃ other, other ≠ thread ∧ (state.pcs other).ticket = some i) ↔
        state.results[i]? = some none := by
      rw [hinv.pending]
      constructor
      · rintro ⟨other, -, hticket⟩
        exact ⟨other, hticket⟩
      · rintro ⟨other, hticket⟩
        exact ⟨other, hmine other i hticket, hticket⟩
    rw [hold]
    by_cases hi : i < state.results.length
    · simp [PoolPc.ticket, hi, Nat.ne_of_gt hi]
    · have hnone : state.results[i]? = none := by
        rw [List.getElem?_eq_none_iff]
        omega
      rw [if_neg hi, List.getElem?_singleton, hnone]
      simp only [PoolPc.ticket, Option.some.injEq, reduceCtorEq, or_false]
      split_ifs with hzero
      · simp only [true_iff]
        omega
      · simp only [false_iff]
        omega
  · rw [hpcs]
    apply hinv.unique_update
    intro i hticket other _ htheirs
    have hlt := hinv.lt_length htheirs
    have hlast : state.results.length = i := Option.some.inj hticket
    omega

theorem PoolState.CallsInv.frees (hinv : state.CallsInv)
    {after : PoolState Thread} {i : ℕ} {socket : Socket} {pc : PoolPc}
    (hmine : (state.pcs thread).ticket = some i)
    (hget : state.pushed[i]? = some socket)
    (hpcs : after.pcs = Function.update state.pcs thread pc)
    (hticket : pc.ticket = none) (hpushed : after.pushed = state.pushed)
    (hresults : after.results = state.results.set i (some socket)) :
    after.CallsInv := by
  have hlt := hinv.lt_length hmine
  refine ⟨?_, ?_, ?_⟩
  · intro j value hreturned
    rw [hpushed]
    by_cases hj : i = j
    · subst hj
      rw [hresults, List.getElem?_set_self hlt] at hreturned
      cases hreturned
      exact hget
    · rw [hresults, List.getElem?_set_ne hj] at hreturned
      exact hinv.returned j value hreturned
  · intro j
    rw [hpcs, exists_ticket_update, hticket]
    by_cases hj : i = j
    · subst hj
      rw [hresults, List.getElem?_set_self hlt]
      constructor
      · intro hnone
        simp at hnone
      · rintro (hnone | ⟨other, hother, htheirs⟩)
        · simp at hnone
        · exact absurd (hinv.unique other thread i htheirs hmine) hother
    · rw [hresults, List.getElem?_set_ne hj, hinv.pending]
      constructor
      · rintro ⟨other, htheirs⟩
        refine .inr ⟨other, ?_, htheirs⟩
        rintro rfl
        rw [hmine, Option.some.injEq] at htheirs
        exact hj htheirs
      · rintro (hnone | ⟨other, -, htheirs⟩)
        · simp at hnone
        · exact ⟨other, htheirs⟩
  · rw [hpcs]
    apply hinv.unique_update
    intro j hnone
    simp [hticket] at hnone

theorem PoolState.CallsInv.step {after : PoolState Thread}
    (hinv : state.CallsInv) (hqueue : state.QueueInv nodes)
    (hstep : PoolStep state thread after) : after.CallsInv := by
  cases hstep with
  | move pc hmove => exact hinv.keep rfl List.prefix_rfl rfl hmove.alike.ticket
  | lock pc hpc havailable =>
      exact hinv.keep rfl List.prefix_rfl rfl (PoolPc.alike_afterLock hpc).ticket
  | unlock pc hpc =>
      exact hinv.keep rfl List.prefix_rfl rfl
        (PoolPc.alike_afterUnlock hpc).ticket
  | closes socket pc hpc =>
      exact hinv.keep rfl List.prefix_rfl rfl
        (PoolPc.alike_afterClose hpc).ticket
  | wait hpc hempty hrunning =>
      exact hinv.keep rfl List.prefix_rfl rfl (by rw [hpc]; rfl)
  | accepts socket hpc hnew =>
      exact hinv.keep rfl List.prefix_rfl rfl (by rw [hpc]; rfl)
  | stops hpc => exact hinv.keep rfl List.prefix_rfl rfl (by rw [hpc]; rfl)
  | allocates socket node hpc hfree =>
      exact hinv.keep rfl List.prefix_rfl rfl (by rw [hpc]; rfl)
  | links socket node hpc hrunning =>
      exact hinv.keep rfl (List.prefix_append _ _) rfl (by rw [hpc]; rfl)
  | discards socket node hpc =>
      exact hinv.keep rfl List.prefix_rfl rfl (by rw [hpc]; rfl)
  | reads node ticket cell hpc hcell =>
      exact hinv.keep rfl List.prefix_rfl rfl (by rw [hpc]; rfl)
  | unlinks node cell hpc hhead hcell hrunning =>
      exact hinv.unlinks (by rw [hpc]; rfl) rfl rfl rfl
  | frees node ticket socket hpc =>
      have hcontent := hqueue.content thread
      rw [hpc] at hcontent
      exact hinv.frees (by rw [hpc]; rfl) hcontent.2 rfl rfl rfl rfl

/-! ## The mutex and the sentinel -/

/-- The mutex is held by the thread that is between a lock and its unlock. -/
def PoolState.MutexInv (state : PoolState Thread) : Prop :=
  ∀ thread, state.mutex = some thread ↔ (state.pcs thread).locked = true

theorem PoolState.MutexInv.keep (hinv : state.MutexInv) {pc : PoolPc}
    (hlocked : pc.locked = (state.pcs thread).locked) (other : Thread) :
    state.mutex = some other ↔
      (Function.update state.pcs thread pc other).locked = true := by
  by_cases hother : other = thread
  · rw [hother, Function.update_self, hlocked]
    exact hinv thread
  · rw [Function.update_of_ne hother]
    exact hinv other

theorem PoolState.MutexInv.lock (hinv : state.MutexInv) {pc : PoolPc}
    (havailable : state.mutex = none) (hlocked : pc.locked = true)
    (other : Thread) :
    some thread = some other ↔
      (Function.update state.pcs thread pc other).locked = true := by
  by_cases hother : other = thread
  · simp [hother, hlocked]
  · have hfree := hinv other
    rw [havailable] at hfree
    simp [hother, Ne.symm hother, ← hfree]

theorem PoolState.MutexInv.unlock (hinv : state.MutexInv) {pc : PoolPc}
    (hheld : (state.pcs thread).locked = true) (hlocked : pc.locked = false)
    (other : Thread) :
    none = some other ↔
      (Function.update state.pcs thread pc other).locked = true := by
  by_cases hother : other = thread
  · simp [hother, hlocked]
  · have hmine := (hinv thread).mpr hheld
    have htheirs := hinv other
    rw [hmine] at htheirs
    simp [hother, ← htheirs, Ne.symm hother]

theorem PoolPc.Move.locked_eq {shutdown : Bool} {pc next : PoolPc}
    (hmove : PoolPc.Move shutdown pc next) : next.locked = pc.locked := by
  cases hmove <;> rfl

theorem PoolPc.locked_afterLock {pc next : PoolPc}
    (hnext : pc.afterLock = some next) : next.locked = true := by
  cases pc <;> cases hnext <;> rfl

theorem PoolPc.locked_afterUnlock {pc next : PoolPc}
    (hnext : pc.afterUnlock = some next) :
    pc.locked = true ∧ next.locked = false := by
  cases pc <;> cases hnext <;> exact ⟨rfl, rfl⟩

theorem PoolPc.locked_afterClose {pc next : PoolPc} {socket : Socket}
    (hnext : pc.afterClose = some (socket, next)) :
    next.locked = pc.locked := by
  cases pc with
  | pushClose =>
      cases hnext
      rfl
  | serving _ stage =>
      cases stage <;> cases hnext
      rfl
  | _ => cases hnext

theorem PoolState.MutexInv.step {after : PoolState Thread}
    (hinv : state.MutexInv) (hstep : PoolStep state thread after) :
    after.MutexInv := by
  cases hstep with
  | move pc hmove => exact hinv.keep hmove.locked_eq
  | lock pc hpc havailable =>
      exact hinv.lock havailable (PoolPc.locked_afterLock hpc)
  | unlock pc hpc =>
      obtain ⟨hheld, hlocked⟩ := PoolPc.locked_afterUnlock hpc
      exact hinv.unlock hheld hlocked
  | wait hpc hempty hrunning => exact hinv.unlock (by rw [hpc]; rfl) rfl
  | accepts socket hpc hnew => exact hinv.keep (by rw [hpc]; rfl)
  | allocates socket node hpc hfree => exact hinv.keep (by rw [hpc]; rfl)
  | links socket node hpc hrunning => exact hinv.keep (by rw [hpc]; rfl)
  | discards socket node hpc => exact hinv.keep (by rw [hpc]; rfl)
  | unlinks node cell hpc hhead hcell hrunning =>
      exact hinv.keep (by rw [hpc]; rfl)
  | reads node ticket cell hpc hcell => exact hinv.keep (by rw [hpc]; rfl)
  | frees node ticket socket hpc => exact hinv.keep (by rw [hpc]; rfl)
  | closes socket pc hpc => exact hinv.keep (PoolPc.locked_afterClose hpc)
  | stops hpc => exact hinv.keep (by rw [hpc]; rfl)

/-- Before the shutdown no call gives up. -/
def PoolState.SentinelInv (state : PoolState Thread) : Prop :=
  state.shutdown = false → ∀ thread, ¬(state.pcs thread).Refused

theorem PoolState.SentinelInv.keep (hinv : state.SentinelInv) {pc : PoolPc}
    (hrefused : state.shutdown = false → ¬pc.Refused)
    (hrunning : state.shutdown = false) (other : Thread) :
    ¬(Function.update state.pcs thread pc other).Refused := by
  by_cases hother : other = thread
  · rw [hother, Function.update_self]
    exact hrefused hrunning
  · rw [Function.update_of_ne hother]
    exact hinv hrunning other

theorem PoolState.SentinelInv.step {after : PoolState Thread}
    (hinv : state.SentinelInv) (hstep : PoolStep state thread after) :
    after.SentinelInv := by
  cases hstep with
  | move pc hmove =>
      apply hinv.keep
      intro hrunning hrefused
      generalize state.pcs thread = before at hmove
      cases hmove with
      | popRefuses hstopped =>
          rw [hrunning] at hstopped
          simp at hstopped
      | _ => exact hrefused
  | lock pc hpc havailable =>
      apply hinv.keep
      intro _ hrefused
      generalize state.pcs thread = before at hpc
      cases before <;> cases hpc <;> exact hrefused
  | unlock pc hpc =>
      apply hinv.keep
      intro hrunning hrefused
      have hbefore := hinv hrunning thread
      generalize state.pcs thread = before at hpc hbefore
      cases before <;> cases hpc <;> first | exact hrefused | exact hbefore trivial
  | closes socket pc hpc =>
      apply hinv.keep
      intro _ hrefused
      generalize state.pcs thread = before at hpc
      cases before with
      | pushClose =>
          cases hpc
          exact hrefused
      | serving _ stage =>
          cases stage <;> cases hpc
          exact hrefused
      | _ => cases hpc
  | wait hpc hempty hrunning => exact hinv.keep fun _ => id
  | accepts socket hpc hnew => exact hinv.keep fun _ => id
  | allocates socket node hpc hfree => exact hinv.keep fun _ => id
  | links socket node hpc hrunning => exact hinv.keep fun _ => id
  | discards socket node hpc => exact hinv.keep fun _ => id
  | unlinks node cell hpc hhead hcell hrunning => exact hinv.keep fun _ => id
  | reads node ticket cell hpc hcell => exact hinv.keep fun _ => id
  | frees node ticket socket hpc => exact hinv.keep fun _ => id
  | stops hpc =>
      intro hrunning
      simp at hrunning

end Invariant

/-! ## Every schedule -/

def Delivers (result : Option Socket) (socket : Socket) : Prop :=
  ∀ value, result = some value → value = socket

structure FifoQueue {Thread : Type*} (state : PoolState Thread) : Prop where
  exclusive : ∀ thread other, (state.pcs thread).locked = true →
    (state.pcs other).locked = true → thread = other
  ends : state.queue.head = none ↔ state.queue.tail = none
  chain : ∃ nodes, Chain state.heap state.queue.head nodes state.waiting ∧
    state.queue.tail = nodes.getLast? ∧ state.queue.size = nodes.length
  count : state.queue.size = state.pushed.length - state.results.length
  order : List.Forall₂ Delivers state.results
    (state.pushed.take state.results.length)
  unfinished : ∀ i : ℕ, state.results[i]? = some none →
    ∃ thread, (state.pcs thread).ticket = some i
  oneCaller : ∀ (thread other : Thread) (i : ℕ),
    (state.pcs thread).ticket = some i →
    (state.pcs other).ticket = some i → thread = other
  sentinel : state.shutdown = false →
    ∀ thread, state.pcs thread ≠ .popped none

structure PoolState.Inv {Thread : Type*} (state : PoolState Thread) : Prop where
  queue : ∃ nodes, state.QueueInv nodes
  calls : state.CallsInv
  mutex : state.MutexInv
  sentinel : state.SentinelInv

theorem PoolState.inv_of_reachable {Thread : Type*} [DecidableEq Thread]
    {state : PoolState Thread} (hreach : (poolSystem Thread).Reachable state) :
    state.Inv := by
  apply hreach.invariant
  · intro first hstart
    obtain ⟨hheap, hqueue, hshutdown, hmutex, hpcs, -, hpushed, hresults, -⟩ :=
      hstart
    have hquiet (thread : Thread) : (first.pcs thread).node = none ∧
        (first.pcs thread).ticket = none ∧
        (first.pcs thread).locked = false ∧ ¬(first.pcs thread).Refused ∧
        (first.pcs thread).Content first.heap first.pushed := by
      have hpc := hpcs thread
      simp only [List.mem_cons, List.not_mem_nil, or_false] at hpc
      rcases hpc with hpc | hpc | hpc <;> rw [hpc] <;>
        exact ⟨rfl, rfl, rfl, id, trivial⟩
    refine ⟨⟨[], ?_⟩, ?_, ?_, ?_⟩
    · refine ⟨?_, ?_, fun thread => (hquiet thread).2.2.2.2, ?_, ?_⟩
      · simp only [PoolState.waiting, hqueue, hpushed, hresults]
        exact LinkedQueue.represents_empty _
      · simp [hresults]
      · simp
      · intro thread other node hnode
        simp [(hquiet thread).1] at hnode
    · refine ⟨?_, ?_, ?_⟩
      · simp [hresults]
      · intro i
        simp [hresults, fun thread => (hquiet thread).2.1]
      · intro thread other i hticket
        simp [(hquiet thread).2.1] at hticket
    · intro thread
      simp [hmutex, (hquiet thread).2.2.1]
    · intro _ thread
      exact (hquiet thread).2.2.2.1
  · intro before thread after hinv hstep
    obtain ⟨nodes, hqueue⟩ := hinv.queue
    exact ⟨hqueue.step hstep, hinv.calls.step hqueue hstep,
      hinv.mutex.step hstep, hinv.sentinel.step hstep⟩

theorem PoolState.CallsInv.delivers {Thread : Type*} {state : PoolState Thread}
    (hinv : state.CallsInv)
    (hbound : state.results.length ≤ state.pushed.length) :
    List.Forall₂ Delivers state.results
      (state.pushed.take state.results.length) := by
  rw [List.forall₂_iff_get]
  refine ⟨by simp [hbound], ?_⟩
  intro i hi hi' value hvalue
  have hget : state.pushed[i]? = some value := by
    apply hinv.returned
    rw [List.getElem?_eq_getElem hi]
    exact congrArg some hvalue
  obtain ⟨hlt, hsame⟩ := List.getElem?_eq_some_iff.mp hget
  simp [hsame]

/-- Under every schedule the queue is first-in first-out. -/
theorem fifoQueue_of_reachable {Thread : Type*} [DecidableEq Thread]
    {state : PoolState Thread} (hreach : (poolSystem Thread).Reachable state) :
    FifoQueue state := by
  have hinv := PoolState.inv_of_reachable hreach
  obtain ⟨nodes, hqueue⟩ := hinv.queue
  have hbound := hqueue.bound
  refine ⟨?_, hqueue.queue.head_eq_none_iff_tail,
    ⟨nodes, hqueue.queue.chain, hqueue.queue.tail, hqueue.queue.size⟩, ?_,
    hinv.calls.delivers hbound, ?_, hinv.calls.unique, ?_⟩
  · intro thread other hmine htheirs
    have hsame := (hinv.mutex thread).mpr hmine
    rw [(hinv.mutex other).mpr htheirs] at hsame
    exact (Option.some.inj hsame).symm
  · rw [hqueue.queue.size, hqueue.queue.chain.length_eq, PoolState.waiting,
      List.length_drop]
    omega
  · intro i hpending
    exact (hinv.calls.pending i).mp hpending
  · intro hrunning thread hpc
    apply hinv.sentinel hrunning thread
    rw [hpc]
    trivial

/-- Of two clients the first has been handed out, and the second is in the queue. -/
theorem fifoQueue_two_sockets :
    ∃ state : PoolState Bool, (poolSystem Bool).Reachable state ∧
      state.pushed = [⟨5, 0⟩, ⟨6, 0⟩] ∧ state.results = [some ⟨5, 0⟩] ∧
      state.waiting = [⟨6, 0⟩] ∧ FifoQueue state := by
  have hstart : (poolSystem Bool).Reachable
      (initialPool fun thread => if thread then .accept else .popLock) :=
    reachable_initialPool (by decide)
  have haccepted := hstart.next true (.accepts _ true ⟨5, 0⟩ rfl (by decide))
  have hallocated := haccepted.next true (.allocates _ true _ 100 rfl rfl)
  have hlocked := hallocated.next true (.lock _ true _ rfl rfl)
  have hlinked := hlocked.next true (.links _ true _ _ rfl rfl)
  have hpushed := hlinked.next true (.unlock _ true _ rfl)
  have hsecond := hpushed.next true (.accepts _ true ⟨6, 0⟩ rfl (by decide))
  have hnode := hsecond.next true (.allocates _ true _ 200 rfl rfl)
  have hrelocked := hnode.next true (.lock _ true _ rfl rfl)
  have hchained := hrelocked.next true (.links _ true _ _ rfl rfl)
  have hboth := hchained.next true (.unlock _ true _ rfl)
  have hentered := hboth.next false (.lock _ false _ rfl rfl)
  have hunlinked := hentered.next false
    (.unlinks _ false 100 ⟨⟨5, 0⟩, some 200⟩ rfl rfl rfl rfl)
  have hunlocked := hunlinked.next false (.unlock _ false _ rfl)
  have hread := hunlocked.next false (.reads _ false _ _ _ rfl rfl)
  have hreturned := hread.next false (.frees _ false _ _ _ rfl)
  exact ⟨_, hreturned, rfl, rfl, rfl, fifoQueue_of_reachable hreturned⟩

end Lith
