import Lith.RankedRuns

/-!
# Writers on a shared stream

Threads write to one stream.  A call of a thread is written in pieces, each of them
in one go, and between two pieces of a call anything of the other threads may come.
What a thread wrote is still the text of its calls, and a mark that every call ends
with stands in the stream once for each call that is over.
-/

namespace Lith

structure WriterState (Thread Call α : Type*) where
  pending : Thread → List (List α)
  output : List (Thread × List α)
  calls : List (Thread × Call)

namespace WriterState

variable {Thread Call α : Type*}

def stream (state : WriterState Thread Call α) : List α :=
  state.output.flatMap Prod.snd

def initial : WriterState Thread Call α where
  pending := fun _ => []
  output := []
  calls := []

variable [DecidableEq Thread]

def written (state : WriterState Thread Call α) (thread : Thread) : List α :=
  (state.output.filter fun write => write.1 = thread).flatMap Prod.snd

def callsOf (state : WriterState Thread Call α) (thread : Thread) : List Call :=
  (state.calls.filter fun call => call.1 = thread).map Prod.snd

/-- A thread that is not inside a call begins one. -/
def enter (state : WriterState Thread Call α) (thread : Thread) (call : Call)
    (pieces : List (List α)) : WriterState Thread Call α where
  pending := Function.update state.pending thread pieces
  output := state.output
  calls := state.calls ++ [(thread, call)]

def emit (state : WriterState Thread Call α) (thread : Thread) (piece : List α)
    (rest : List (List α)) : WriterState Thread Call α where
  pending := Function.update state.pending thread rest
  output := state.output ++ [(thread, piece)]
  calls := state.calls

inductive Step (pieces : Call → List (List α)) (Allowed : Call → Prop) :
    WriterState Thread Call α → Thread → WriterState Thread Call α → Prop where
  | enter {state : WriterState Thread Call α} {thread : Thread} {call : Call}
      (hidle : state.pending thread = []) (hallowed : Allowed call) :
      Step pieces Allowed state thread (state.enter thread call (pieces call))
  | emit {state : WriterState Thread Call α} {thread : Thread} {piece : List α}
      {rest : List (List α)} (hpending : state.pending thread = piece :: rest) :
      Step pieces Allowed state thread (state.emit thread piece rest)

end WriterState

open WriterState

variable {Thread Call α : Type*} [DecidableEq Thread] {pieces : Call → List (List α)}
  {Allowed : Call → Prop} {state : WriterState Thread Call α}

def writerSystem (pieces : Call → List (List α)) (Allowed : Call → Prop) :
    TransitionSystem (WriterState Thread Call α) Thread where
  start := fun state => state = .initial
  step := Step pieces Allowed

theorem allowed_of_reachable (hreach : (writerSystem pieces Allowed).Reachable state) :
    ∀ call ∈ state.calls, Allowed call.2 := by
  refine hreach.invariant (P := fun state => ∀ call ∈ state.calls, Allowed call.2) ?_ ?_
  · rintro _ rfl
    simp [initial]
  · intro before thread after hbefore hstep
    cases hstep with
    | enter _ hallowed =>
        intro call hcall
        rcases List.mem_append.mp hcall with hcall | hcall
        · exact hbefore call hcall
        · rw [List.mem_singleton.mp hcall]
          exact hallowed
    | emit _ => exact hbefore

/-- What a thread has written is, with what it still has to write, the text of its
calls in their order. -/
theorem written_append_pending (hreach : (writerSystem pieces Allowed).Reachable state)
    (thread : Thread) :
    state.written thread ++ (state.pending thread).flatten =
      (state.callsOf thread).flatMap fun call => (pieces call).flatten := by
  refine hreach.invariant (P := fun state => state.written thread ++
    (state.pending thread).flatten =
      (state.callsOf thread).flatMap fun call => (pieces call).flatten) ?_ ?_
  · rintro _ rfl
    simp [initial, written, callsOf]
  · intro before other after hbefore hstep
    unfold written callsOf at hbefore ⊢
    by_cases hsame : other = thread
    · subst hsame
      cases hstep with
      | enter hidle _ =>
          rw [hidle] at hbefore
          simp only [List.flatten_nil, List.append_nil] at hbefore
          simp [WriterState.enter, hbefore]
      | emit hpending =>
          rw [hpending] at hbefore
          simp [WriterState.emit, ← hbefore]
    · have hother : thread ≠ other := Ne.symm hsame
      cases hstep with
      | enter _ _ => simp [WriterState.enter, hother, hsame, hbefore]
      | emit _ => simp [WriterState.emit, hother, hsame, hbefore]

section Mark

variable [DecidableEq α] {mark : α}

/-- The mark is once in the last piece and nowhere before. -/
def EndsWith (mark : α) (parts : List (List α)) : Prop :=
  ∃ front last, parts = front ++ [last] ∧ (∀ piece ∈ front, mark ∉ piece) ∧
    last.count mark = 1

theorem EndsWith.ne_nil {parts : List (List α)} (hends : EndsWith mark parts) :
    parts ≠ [] := by
  obtain ⟨front, last, rfl, -⟩ := hends
  simp

theorem EndsWith.cons {piece : List α} {rest : List (List α)}
    (hends : EndsWith mark (piece :: rest)) :
    (rest = [] ∧ piece.count mark = 1) ∨
      (EndsWith mark rest ∧ piece.count mark = 0) := by
  obtain ⟨front, last, hparts, hfront, hlast⟩ := hends
  cases front with
  | nil =>
      rw [List.nil_append, List.cons.injEq] at hparts
      exact Or.inl ⟨hparts.2, hparts.1 ▸ hlast⟩
  | cons first front =>
      rw [List.cons_append, List.cons.injEq] at hparts
      obtain ⟨rfl, rfl⟩ := hparts
      refine Or.inr ⟨⟨front, last, rfl, ?_, hlast⟩, ?_⟩
      · exact fun piece hpiece => hfront piece (List.mem_cons_of_mem _ hpiece)
      · exact List.count_eq_zero.mpr (hfront piece (by simp))

variable [Fintype Thread]

def WriterState.load (state : WriterState Thread Call α) (thread : Thread) : ℕ :=
  if state.pending thread = [] then 0 else 1

/-- The threads that are inside a call. -/
def WriterState.busy (state : WriterState Thread Call α) : ℕ :=
  ∑ thread, state.load thread

omit [DecidableEq α] in
theorem busy_update {before after : WriterState Thread Call α} (thread : Thread)
    {parts : List (List α)}
    (hpending : after.pending = Function.update before.pending thread parts) :
    after.busy + before.load thread = before.busy + after.load thread := by
  refine sum_replace ?_
  intro other hother
  rw [WriterState.load, WriterState.load, hpending, Function.update_of_ne hother]

/-- The pieces that wait are the end of a call, and every call that is over has left
its mark. -/
structure WriterState.Marked (mark : α) (state : WriterState Thread Call α) : Prop where
  parts : ∀ thread, state.pending thread = [] ∨ EndsWith mark (state.pending thread)
  count : state.stream.count mark + state.busy = state.calls.length

omit [Fintype Thread] in
theorem update_ends {before : WriterState Thread Call α} {thread : Thread}
    {parts : List (List α)}
    (hbefore : ∀ thread, before.pending thread = [] ∨
      EndsWith mark (before.pending thread))
    (hparts : parts = [] ∨ EndsWith mark parts) (other : Thread) :
    Function.update before.pending thread parts other = [] ∨
      EndsWith mark (Function.update before.pending thread parts other) := by
  by_cases hsame : other = thread
  · subst hsame
    rwa [Function.update_self]
  · rw [Function.update_of_ne hsame]
    exact hbefore other

omit [DecidableEq Thread] [DecidableEq α] [Fintype Thread] in
theorem load_nil {thread : Thread} (hidle : state.pending thread = []) :
    state.load thread = 0 := if_pos hidle

omit [DecidableEq Thread] [DecidableEq α] [Fintype Thread] in
theorem load_cons {thread : Thread} (hinside : state.pending thread ≠ []) :
    state.load thread = 1 := if_neg hinside

theorem WriterState.Marked.enter (hmarked : state.Marked mark) {thread : Thread}
    (hidle : state.pending thread = []) (call : Call) {parts : List (List α)}
    (hends : EndsWith mark parts) : (state.enter thread call parts).Marked mark := by
  have hcount := hmarked.count
  refine ⟨update_ends hmarked.parts (Or.inr hends), ?_⟩
  have hbusy : (state.enter thread call parts).busy + state.load thread =
      state.busy + (state.enter thread call parts).load thread :=
    busy_update thread rfl
  have hstream : (state.enter thread call parts).stream = state.stream := rfl
  have hcalls : (state.enter thread call parts).calls.length =
      state.calls.length + 1 := by simp [WriterState.enter]
  have hinside : (state.enter thread call parts).pending thread ≠ [] := by
    simp [WriterState.enter, hends.ne_nil]
  rw [load_nil hidle, load_cons hinside] at hbusy
  rw [hstream, hcalls]
  omega

/-- One piece: a mark more and a call less, or neither. -/
theorem WriterState.Marked.emit (hmarked : state.Marked mark) {thread : Thread}
    {piece : List α} {rest : List (List α)}
    (hpending : state.pending thread = piece :: rest) :
    (state.emit thread piece rest).Marked mark := by
  have hcount := hmarked.count
  have hends := (hmarked.parts thread).resolve_left (by simp [hpending])
  rw [hpending] at hends
  have hbusy : (state.emit thread piece rest).busy + state.load thread =
      state.busy + (state.emit thread piece rest).load thread :=
    busy_update thread rfl
  have hstream : (state.emit thread piece rest).stream.count mark =
      state.stream.count mark + piece.count mark := by
    simp [WriterState.stream, WriterState.emit]
  have hcalls : (state.emit thread piece rest).calls = state.calls := rfl
  have hnext : (state.emit thread piece rest).pending thread = rest := by
    simp [WriterState.emit]
  rw [load_cons (by simp [hpending] : state.pending thread ≠ [])] at hbusy
  rcases hends.cons with ⟨hlast, hmark⟩ | ⟨hrest, hmark⟩
  · refine ⟨update_ends hmarked.parts (Or.inl hlast), ?_⟩
    rw [load_nil (hnext.trans hlast)] at hbusy
    rw [hstream, hcalls]
    omega
  · refine ⟨update_ends hmarked.parts (Or.inr hrest), ?_⟩
    have hinside := ne_of_eq_of_ne hnext hrest.ne_nil
    rw [load_cons hinside] at hbusy
    rw [hstream, hcalls]
    omega

/-- The marks in the stream, with the calls that are not over, are the calls. -/
theorem count_stream_add_busy
    (hpieces : ∀ call, Allowed call → EndsWith mark (pieces call))
    (hreach : (writerSystem pieces Allowed).Reachable state) :
    state.stream.count mark + state.busy = state.calls.length := by
  have hmarked : state.Marked mark := by
    refine hreach.invariant ?_ ?_
    · rintro _ rfl
      refine ⟨fun _ => Or.inl rfl, ?_⟩
      simp [initial, WriterState.stream, WriterState.busy, WriterState.load]
    · intro before thread after hbefore hstep
      cases hstep with
      | enter hidle hallowed => exact hbefore.enter hidle _ (hpieces _ hallowed)
      | emit hpending => exact hbefore.emit hpending
  exact hmarked.count

end Mark

end Lith
