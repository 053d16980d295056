import Lith.ConnectionPlaces

/-!
# Each connection of the server by itself

The server with all its workers, seen from one socket.  A client that speaks in clear
gets the redirect and nothing else, and one that begins a handshake gets nothing in
clear.  As long as nobody writes an error page while another worker has to send a
different one, what a TLS session has read and answered is a run of the model of one
connection, in which the other workers only reload entries of the cache, and the bytes
that were handed to `SSL_write` are the answers of that run, but for what the worker is
about to write.
-/

namespace Lith

open CString

section Steps

variable {useCache : ℤ} {publicDir : CharArray 256} {Admits : Files → Prop}
  {Thread : Type*} [DecidableEq Thread] {first : Socket → UInt8}
  {state after : HandlerState Thread} {thread : Thread}

theorem PoolStep.closed_cases {pool later : PoolState Thread}
    (hstep : PoolStep pool thread later) :
    later.closed = pool.closed ∨
      ∃ socket pc, (pool.pcs thread).afterClose = some (socket, pc) ∧
        later.closed = pool.closed ++ [socket] := by
  cases hstep with
  | closes socket pc hpc => exact Or.inr ⟨socket, pc, hpc, rfl⟩
  | _ => exact Or.inl rfl

/-- From the end of a connection there is only the closing of its socket. -/
theorem PoolStep.closes_of_close {pool later : PoolState Thread}
    (hstep : PoolStep pool thread later) {socket : Socket}
    (hserving : pool.pcs thread = .serving socket .close) :
    socket ∈ later.closed := by
  cases hstep with
  | closes other pc hpc =>
      rw [hserving] at hpc
      cases hpc
      simp
  | move pc hmove =>
      rw [hserving] at hmove
      cases hmove with
      | proceeds _ hnext => cases hnext
  | _ => simp_all [PoolPc.afterLock, PoolPc.afterUnlock]

/-- What a worker has told its client, by where it is. -/
def HandlerState.Explained (useCache : ℤ) (publicDir : CharArray 256)
    (Admits : Files → Prop) (first : Socket → UInt8) (state : HandlerState Thread)
    (thread : Thread) (socket : Socket) : Prop :=
  (state.pcs thread).Explains useCache publicDir Admits state.routes.current
    (first socket) (state.wires socket) (state.routes.pcs thread) (state.pages.pc thread)

structure HandlerState.Tells (useCache : ℤ) (publicDir : CharArray 256)
    (Admits : Files → Prop) (first : Socket → UInt8) (state : HandlerState Thread) :
    Prop where
  initial : Live useCache publicDir Admits state.routes.current .initial []
  silent : ∀ socket, (∀ thread stage, state.pool.pcs thread ≠ .serving socket stage) →
    socket ∉ state.pool.closed → state.wires socket = .silent
  serving : ∀ thread socket stage, state.pool.pcs thread = .serving socket stage →
    state.Explained useCache publicDir Admits first thread socket
  closed : ∀ socket ∈ state.pool.closed,
    (state.wires socket).Told (Live useCache publicDir Admits state.routes.current)
      (first socket)

/-- What is known of the parts when the server has come to a state. -/
structure HandlerState.Sound (state : HandlerState Thread) : Prop where
  agrees : state.Agrees
  owner : state.pool.OneOwner
  placed : state.Placed
  routes : state.routes.Inv
  latest : state.routes.Latest
  keyed : state.routes.Keyed
  pages : state.pages.Inv

theorem HandlerPc.eq_close {pc : HandlerPc} (hstage : pc.stage = some .close) :
    pc = .close := by
  cases pc <;> first | rfl | cases hstage

omit [DecidableEq Thread] in
theorem HandlerState.Tells.told_of_afterClose
    (htells : state.Tells useCache publicDir Admits first) (hagrees : state.Agrees)
    (hone : state.pool.OneOwner) {socket : Socket} {pc : PoolPc}
    (hclose : (state.pool.pcs thread).afterClose = some (socket, pc)) :
    (state.wires socket).Told (Live useCache publicDir Admits state.routes.current)
      (first socket) := by
  cases hbefore : state.pool.pcs thread with
  | pushClose mine =>
      rw [hbefore] at hclose
      cases hclose
      have hholds : (state.pool.pcs thread).holds state.pool.pushed = some socket := by
        rw [hbefore]
        rfl
      have hsilent : state.wires socket = .silent := by
        refine htells.silent socket ?_ (hone.notClosed thread socket hholds)
        intro other stage hserving
        have hsame := hone.oneThread other thread socket (by rw [hserving]; rfl) hholds
        rw [hsame, hbefore] at hserving
        cases hserving
      rw [hsilent]
      exact Wire.told_silent htells.initial _
  | serving mine stage =>
      rw [hbefore] at hclose
      cases stage <;> cases hclose
      have hstage := hagrees thread
      rw [hbefore] at hstage
      have hexplains := htells.serving thread socket .close hbefore
      rw [HandlerState.Explained, HandlerPc.eq_close hstage] at hexplains
      exact hexplains
  | _ =>
      rw [hbefore] at hclose
      cases hclose

/-- A step of the pool hands over silent sockets and closes those that are done. -/
theorem HandlerState.Tells.pool (htells : state.Tells useCache publicDir Admits first)
    (hagrees : state.Agrees) (hone : state.pool.OneOwner) {later : PoolState Thread}
    (hlater : later.OneOwner)
    (houtside : (state.pcs thread).stage = none ∨
      (state.pcs thread).stage = some .close)
    (hpool : PoolStep state.pool thread later) :
    HandlerState.Tells useCache publicDir Admits first
      { state with
        pool := later
        pcs := Function.update state.pcs thread (.entered (later.pcs thread)) } := by
  obtain ⟨pc, hpcs, -⟩ := hpool.transfer rfl
  have hothers (other : Thread) (hother : other ≠ thread) :
      later.pcs other = state.pool.pcs other := by
    rw [hpcs, Function.update_of_ne hother]
  have hsubset : state.pool.closed ⊆ later.closed := by
    rcases hpool.closed_cases with hsame | ⟨socket, next, -, hmore⟩
    · rw [hsame]
      exact List.Subset.refl _
    · rw [hmore]
      exact List.subset_append_left _ _
  have hsilent (socket : Socket) (hopen : socket ∉ later.closed)
      (hnone : ∀ other, other ≠ thread → ∀ stage,
        later.pcs other ≠ .serving socket stage) : state.wires socket = .silent := by
    apply htells.silent socket
    · intro other stage hserving
      by_cases hother : other = thread
      · subst hother
        have hstage := hagrees other
        rw [hserving] at hstage
        rcases houtside with hnothing | hclose
        · rw [hnothing] at hstage
          cases hstage
        · rw [hclose] at hstage
          cases hstage
          exact hopen (hpool.closes_of_close hserving)
      · exact hnone other hother stage (by rw [hothers other hother, hserving])
    · exact fun hclosed => hopen (hsubset hclosed)
  refine ⟨htells.initial, ?_, ?_, ?_⟩
  · intro socket hnone hopen
    exact hsilent socket hopen fun other _ stage => hnone other stage
  · intro worker socket stage hserving
    have hserves : later.pcs worker = .serving socket stage := hserving
    by_cases hworker : worker = thread
    · subst hworker
      have hholds : (later.pcs worker).holds later.pushed = some socket := by
        rw [hserves]
        rfl
      have hwire := hsilent socket (hlater.notClosed worker socket hholds)
        fun other hother next hnext =>
          hother (hlater.oneThread other worker socket (by rw [hnext]; rfl) hholds)
      simp only [HandlerState.Explained, Function.update_self, hserves]
      exact hwire
    · rw [hothers worker hworker] at hserves
      simp only [HandlerState.Explained, Function.update_of_ne hworker]
      exact htells.serving worker socket stage hserves
  · intro socket hclosed
    have hmem : socket ∈ later.closed := hclosed
    rcases hpool.closed_cases with hsame | ⟨other, next, hclose, hmore⟩
    · rw [hsame] at hmem
      exact htells.closed socket hmem
    · rw [hmore, List.mem_append, List.mem_singleton] at hmem
      rcases hmem with hmem | rfl
      · exact htells.closed socket hmem
      · exact htells.told_of_afterClose hagrees hone hclose

/-- What a worker does is about its own socket, but for the cache, which changes only
under workers that do not have its lock. -/
theorem HandlerState.Tells.step (htells : state.Tells useCache publicDir Admits first)
    (hone : state.pool.OneOwner) {socket : Socket} {stage next : ServeStage}
    (hserving : state.pool.pcs thread = .serving socket stage)
    (hpool : after.pool = state.pool.goto thread (.serving socket next))
    (hwires : ∀ other, other ≠ socket → after.wires other = state.wires other)
    (hframe : ∀ other, other ≠ thread → after.pcs other = state.pcs other ∧
      after.routes.pcs other = state.routes.pcs other ∧
      after.pages.pc other = state.pages.pc other)
    (hmoves : CacheMoves Admits state.routes.current after.routes.current)
    (hlocked : ∀ other, other ≠ thread → (state.routes.pcs other).mode ≠ .free →
      after.routes.current = state.routes.current)
    (hmine : after.Explained useCache publicDir Admits first thread socket) :
    after.Tells useCache publicDir Admits first := by
  have hholds : (state.pool.pcs thread).holds state.pool.pushed = some socket := by
    rw [hserving]
    rfl
  have hclosed : after.pool.closed = state.pool.closed := by
    rw [hpool]
    rfl
  have hthread : after.pool.pcs thread = .serving socket next := by
    rw [hpool]
    exact PoolState.goto_pcs_self ..
  have hothers (other : Thread) (hother : other ≠ thread) :
      after.pool.pcs other = state.pool.pcs other := by
    rw [hpool]
    exact Function.update_of_ne hother ..
  refine ⟨htells.initial.moves hmoves, ?_, ?_, ?_⟩
  · intro other hnone hopen
    have hne : other ≠ socket := by
      rintro rfl
      exact hnone thread next hthread
    rw [hwires other hne]
    refine htells.silent other ?_ (hclosed ▸ hopen)
    intro worker later hlater
    by_cases hworker : worker = thread
    · rw [hworker, hserving, PoolPc.serving.injEq] at hlater
      exact hne hlater.1.symm
    · exact hnone worker later (by rw [hothers worker hworker, hlater])
  · intro worker other later hlater
    by_cases hworker : worker = thread
    · subst hworker
      rw [hthread, PoolPc.serving.injEq] at hlater
      rw [← hlater.1]
      exact hmine
    · rw [hothers worker hworker] at hlater
      have hne : other ≠ socket := by
        rintro rfl
        exact hworker (hone.oneThread worker thread other (by rw [hlater]; rfl) hholds)
      obtain ⟨hpc, hroute, hpage⟩ := hframe worker hworker
      have hexplains := htells.serving worker other later hlater
      rw [HandlerState.Explained, hpc, hroute, hpage, hwires other hne]
      by_cases hfree : (state.routes.pcs worker).mode = .free
      · exact HandlerPc.Explains.moves hexplains hfree hmoves
      · rw [hlocked worker hworker hfree]
        exact hexplains
  · intro other hmem
    rw [hclosed] at hmem
    have hne : other ≠ socket := by
      rintro rfl
      exact hone.notClosed thread other hholds hmem
    rw [hwires other hne]
    exact (htells.closed other hmem).moves hmoves

/-- A step at a read of the session. -/
theorem HandlerState.Tells.at (htells : state.Tells useCache publicDir Admits first)
    (hone : state.pool.OneOwner) {socket : Socket} {ssl req : ℕ} {session : Session}
    {todo : Serving} (hat : state.At thread socket ssl req session todo)
    (hpool : after.pool = state.pool)
    (hwires : ∀ other, other ≠ socket → after.wires other = state.wires other)
    (hframe : ∀ other, other ≠ thread → after.pcs other = state.pcs other ∧
      after.routes.pcs other = state.routes.pcs other ∧
      after.pages.pc other = state.pages.pc other)
    (hmoves : CacheMoves Admits state.routes.current after.routes.current)
    (hlocked : ∀ other, other ≠ thread → (state.routes.pcs other).mode ≠ .free →
      after.routes.current = state.routes.current)
    (hmine : after.Explained useCache publicDir Admits first thread socket) :
    after.Tells useCache publicDir Admits first := by
  have hsame : after.pool = state.pool.goto thread (.serving socket .session) := by
    rw [hpool, PoolState.goto_self hat.serving]
  exact htells.step hone hat.serving hsame hwires hframe hmoves hlocked hmine

end Steps

/-! ## What the clients get -/

/-- The wire of a client that begins with this byte; `done` when nothing is going to
be written any more. -/
structure Wire.Faithful (useCache : ℤ) (publicDir : CharArray 256)
    (Admits : Files → Prop) (first : UInt8) (cache : LithCache) (done : Prop)
    (wire : Wire) : Prop where
  inClear : first ≠ 22 → wire.secure = [] ∧ wire.log = [] ∧
    (wire.clear = [] ∨ ∃ peeked, wire.clear = [redirectResponse peeked])
  overTls : first = 22 → wire.clear = [] ∧ ∃ (connection : Connection) (todo : Bytes),
    (admittedSystem Admits useCache publicDir).Reachable connection ∧
      connection.cache = cache ∧ connection.Behind wire.log ∧
      wire.secure.flatten ++ todo = connection.sent ∧
      (done → todo = [] ∧ wire.log = connection.log)

variable {Thread : Type*} [DecidableEq Thread] {useCache : ℤ}
  {publicDir : CharArray 256} {Admits : Files → Prop} {first : Socket → UInt8}
  {state : HandlerState Thread}

section Wires

variable {byte : UInt8} {cache : LithCache} {wire : Wire}

theorem Wire.Balanced.faithful {texts : List Bytes} (hbalanced : wire.Balanced texts)
    (hfollowed : Followed useCache publicDir Admits cache wire.log) (htls : byte = 22) :
    wire.Faithful useCache publicDir Admits byte cache False where
  inClear := fun hclear => absurd htls hclear
  overTls := by
    intro _
    obtain ⟨connection, hran, hcache, hbehind⟩ := hfollowed
    refine ⟨hbalanced.clear, connection, texts.flatten, hran, hcache, hbehind, ?_,
      False.elim⟩
    rw [hbalanced.bytes, hbehind.responses, Connection.sent]

theorem Wire.Spoken.faithful {session : Session}
    (hspoken : wire.Spoken (Live useCache publicDir Admits cache) session)
    (htls : byte = 22) (done : Prop) :
    wire.Faithful useCache publicDir Admits byte cache done where
  inClear := fun hclear => absurd htls hclear
  overTls := fun _ => ⟨hspoken.balanced.clear, ⟨session, cache, wire.log⟩, [],
    hspoken.ran, rfl, Or.inl rfl, hspoken.balanced.bytes, fun _ => ⟨rfl, rfl⟩⟩

theorem Wire.Told.faithful
    (htold : wire.Told (Live useCache publicDir Admits cache) byte) (done : Prop) :
    wire.Faithful useCache publicDir Admits byte cache done := by
  rcases htold with
    ⟨hclear, rfl | ⟨hsecure, hlog, hredirect⟩⟩ | ⟨htls, session, hspoken⟩
  · exact ⟨fun _ => ⟨rfl, rfl, Or.inl rfl⟩, fun h => absurd h hclear⟩
  · exact ⟨fun _ => ⟨hsecure, hlog, Or.inr hredirect⟩, fun h => absurd h hclear⟩
  · exact hspoken.faithful htls done

theorem HandlerPc.Explains.faithful {pc : HandlerPc} {route : RoutePc} {page : ErrorPc}
    (hexplains : pc.Explains useCache publicDir Admits cache byte wire route page)
    (hinside : pc ≠ .outside)
    (hinitial : Live useCache publicDir Admits cache .initial []) :
    wire.Faithful useCache publicDir Admits byte cache False := by
  have hsilent (hwire : wire = .silent) :
      wire.Faithful useCache publicDir Admits byte cache False := by
    rw [hwire]
    exact (Wire.told_silent hinitial byte).faithful False
  cases pc with
  | outside => exact absurd rfl hinside
  | peek => exact hsilent hexplains
  | redirect => exact hsilent hexplains.2
  | send text => exact hsilent hexplains.2.1
  | shutdownWrite =>
      exact Wire.Told.faithful (Or.inl ⟨hexplains.1, Or.inr hexplains.2⟩) False
  | discard => exact Wire.Told.faithful (Or.inl ⟨hexplains.1, Or.inr hexplains.2⟩) False
  | sslNew => exact hsilent hexplains.2
  | setFd ssl => exact hsilent hexplains.2
  | sslAccept ssl => exact hsilent hexplains.2
  | refuse ssl => exact hsilent hexplains.2
  | allocate ssl => exact hsilent hexplains.2
  | read ssl req session => exact hexplains.2.1.faithful hexplains.1 False
  | serve ssl req session todo =>
      exact hexplains.2.1.faithful hexplains.2.2.followed hexplains.1
  | freeRequest ssl req => exact Wire.Told.faithful (Or.inr hexplains) False
  | sslShutdown ssl => exact Wire.Told.faithful (Or.inr hexplains) False
  | sslFree ssl => exact Wire.Told.faithful (Or.inr hexplains) False
  | close => exact Wire.Told.faithful hexplains False

end Wires

omit [DecidableEq Thread] in
theorem HandlerState.Tells.faithful
    (htells : state.Tells useCache publicDir Admits first) (hagrees : state.Agrees)
    (socket : Socket) :
    (state.wires socket).Faithful useCache publicDir Admits (first socket)
      state.routes.current (socket ∈ state.pool.closed) := by
  by_cases hclosed : socket ∈ state.pool.closed
  · exact (htells.closed socket hclosed).faithful _
  rw [eq_false hclosed]
  by_cases hserved : ∃ thread stage, state.pool.pcs thread = .serving socket stage
  · obtain ⟨thread, stage, hserving⟩ := hserved
    have hinside : state.pcs thread ≠ .outside := by
      intro houtside
      have hstage := hagrees thread
      rw [houtside, hserving] at hstage
      cases hstage
    have hexplains := htells.serving thread socket stage hserving
    exact HandlerPc.Explains.faithful hexplains hinside htells.initial
  · push Not at hserved
    rw [htells.silent socket hserved hclosed]
    exact (Wire.told_silent htells.initial _).faithful False

def Wire.requests (wire : Wire) : List Bytes :=
  wire.log.filterMap Exchange.request

def Wire.responses (wire : Wire) : List HttpResponse :=
  wire.log.filterMap Exchange.response

/-- A read that the model has not taken yet has no answer either. -/
theorem Connection.Behind.answers {connection : Connection} {wire : Wire}
    (hbehind : connection.Behind wire.log)
    (hran : (admittedSystem Admits useCache publicDir).Reachable connection) :
    AnswersInOrder useCache publicDir wire.requests wire.responses := by
  have hresponses : wire.responses = connection.responses := hbehind.responses
  rw [hresponses, Wire.requests]
  rcases hbehind with hlog | ⟨hphase, buffer, hlog⟩
  · rw [hlog]
    exact answers_of_reachable hran
  · refine ⟨connection.requests, [buffer], ?_, by simp, answers_of_reading hran hphase⟩
    rw [hlog, List.filterMap_append]
    rfl

end Lith
