import Lith.CacheLocking
import Lith.Dialogue
import Lith.ErrorPages
import Lith.Redirect
import Lith.SocketPlaces

/-!
# The workers at their connections

`lith_client_handler` call by call, on the pool that hands out the sockets: the look
at the first byte, the redirect of a client that speaks in clear, the handshake, the
keep-alive loop and what is released behind it.  All workers share the TLS objects, the
blocks of the allocator, the cache with its lock and the buffer of the error pages.  In
`handle_http_route` the branch of the cache and `send_http_error` take their steps as
they do by themselves, on the cache and the buffer of all.
-/

namespace Lith

open CString

/-- What has been handed to `send` and to `SSL_write` for a socket, and what its TLS
session has read and begun to answer. -/
structure Wire where
  clear : List Bytes
  secure : List Bytes
  log : List Exchange

def Wire.silent : Wire := ⟨[], [], []⟩

def Wire.extend (wire : Wire) (texts : List Bytes) (exchanges : List Exchange) : Wire :=
  { wire with
    secure := wire.secure ++ texts
    log := wire.log ++ exchanges }

/-- What is left to do for a read: calls of the loop, or what `handle_http_route` and
`send_http_error` are at. -/
inductive Serving where
  | calls (events : List SessionEvent)
  | cached (request : HttpRequest)
  | disk (request : HttpRequest)
  | error
  | write (texts : List Bytes)

/-- The next call of a worker, with the pointers that it has. -/
inductive HandlerPc where
  | outside
  | peek
  | redirect
  | send (text : Bytes)
  | shutdownWrite
  | discard
  | sslNew
  | setFd (ssl : ℕ)
  | sslAccept (ssl : ℕ)
  | refuse (ssl : ℕ)
  | allocate (ssl : ℕ)
  | read (ssl req : ℕ) (session : Session)
  | serve (ssl req : ℕ) (session : Session) (todo : Serving)
  | freeRequest (ssl req : ℕ)
  | sslShutdown (ssl : ℕ)
  | sslFree (ssl : ℕ)
  | close

namespace HandlerPc

/-- The part of the connection as the pool sees it. -/
def stage : HandlerPc → Option ServeStage
  | outside => none
  | peek => some .peek
  | redirect | send _ | shutdownWrite | discard => some .redirect
  | sslNew => some .sslNew
  | setFd _ | sslAccept _ | refuse _ => some .sslAccept
  | allocate _ | read _ _ _ | serve _ _ _ _ | freeRequest _ _ | sslShutdown _
  | sslFree _ => some .session
  | close => some .close

/-- The TLS object that is still to be released. -/
def ssl : HandlerPc → Option ℕ
  | setFd ssl | sslAccept ssl | refuse ssl | allocate ssl | read ssl _ _
  | serve ssl _ _ _ | freeRequest ssl _ | sslShutdown ssl | sslFree ssl => some ssl
  | _ => none

/-- The block of the `HttpRequest` that is still to be released. -/
def request : HandlerPc → Option ℕ
  | read _ req _ | serve _ req _ _ | freeRequest _ req => some req
  | _ => none

/-- Where a worker is that the pool has or has not given a socket. -/
def entered : PoolPc → HandlerPc
  | .serving _ _ => peek
  | _ => outside

end HandlerPc

/-! ## The calls of one worker -/

/-- What one worker sees of its own: its place and its wire, and the live objects. -/
structure WorkerView where
  pc : HandlerPc
  wire : Wire
  sessions : Finset ℕ
  requests : Finset ℕ

def WorkerView.goto (view : WorkerView) (pc : HandlerPc) : WorkerView :=
  { view with pc := pc }

def WorkerView.extend (view : WorkerView) (texts : List Bytes)
    (exchanges : List Exchange) : WorkerView :=
  { view with wire := view.wire.extend texts exchanges }

/-- The calls of the loop that a read leads to. -/
def Session.due (session : Session) (chunk : Bytes) : List SessionEvent :=
  (session.step chunk).events.drop session.events.length

/-- What the log says of a read by itself. -/
def Session.heard (session : Session) (chunk : Bytes) : List Exchange :=
  if session.phase = .reading ∧ chunk = [] then [.hungUp] else []

/-- One call of a worker whose client begins with the byte `first`.  What the calls
of the system answer is arbitrary. -/
inductive WorkerStep (useCache : ℤ) (publicDir : CharArray 256)
    (Admits : Files → Prop) (first : UInt8) (view : WorkerView) :
    WorkerView → Prop where
  | peekFails (hpc : view.pc = .peek) :
      WorkerStep useCache publicDir Admits first view (view.goto .close)
  | peekClear (hpc : view.pc = .peek) (hclear : first ≠ 22) :
      WorkerStep useCache publicDir Admits first view (view.goto .redirect)
  | peekTls (hpc : view.pc = .peek) (htls : first = 22) :
      WorkerStep useCache publicDir Admits first view (view.goto .sslNew)
  | peekRequest (peeked : Bytes) (hpc : view.pc = .redirect)
      (hshort : peeked.length ≤ 1023) (hfirst : ∀ c ∈ peeked.head?, c = first) :
      WorkerStep useCache publicDir Admits first view
        (view.goto (.send (redirectResponse peeked)))
  | sends (text : Bytes) (hpc : view.pc = .send text) :
      WorkerStep useCache publicDir Admits first view
        { view.goto .shutdownWrite with
          wire :=
            { view.wire with
              clear := view.wire.clear ++ [text] } }
  | shutsDown (hpc : view.pc = .shutdownWrite) :
      WorkerStep useCache publicDir Admits first view (view.goto .discard)
  | discards (hpc : view.pc = .discard) :
      WorkerStep useCache publicDir Admits first view (view.goto .discard)
  | discarded (hpc : view.pc = .discard) :
      WorkerStep useCache publicDir Admits first view (view.goto .close)
  | newFails (hpc : view.pc = .sslNew) :
      WorkerStep useCache publicDir Admits first view (view.goto .close)
  | newSession (ssl : ℕ) (hpc : view.pc = .sslNew) (hfresh : ssl ∉ view.sessions) :
      WorkerStep useCache publicDir Admits first view
        { view.goto (.setFd ssl) with
          sessions := insert ssl view.sessions }
  | setsFd (ssl : ℕ) (hpc : view.pc = .setFd ssl) :
      WorkerStep useCache publicDir Admits first view (view.goto (.sslAccept ssl))
  | acceptFails (ssl : ℕ) (hpc : view.pc = .sslAccept ssl) :
      WorkerStep useCache publicDir Admits first view (view.goto (.refuse ssl))
  | accepts (ssl : ℕ) (hpc : view.pc = .sslAccept ssl) :
      WorkerStep useCache publicDir Admits first view (view.goto (.allocate ssl))
  | refuses (ssl : ℕ) (hpc : view.pc = .refuse ssl) :
      WorkerStep useCache publicDir Admits first view
        { view.goto .close with
          sessions := view.sessions.erase ssl }
  | mallocFails (ssl : ℕ) (hpc : view.pc = .allocate ssl) :
      WorkerStep useCache publicDir Admits first view (view.goto (.sslShutdown ssl))
  | allocates (ssl req : ℕ) (hpc : view.pc = .allocate ssl)
      (hfresh : req ∉ view.requests) :
      WorkerStep useCache publicDir Admits first view
        { view.goto (.read ssl req .initial) with
          requests := insert req view.requests }
  | reads (ssl req : ℕ) (session : Session) (chunk : Bytes)
      (hpc : view.pc = .read ssl req session) (hshort : chunk.length ≤ session.asked) :
      WorkerStep useCache publicDir Admits first view
        ((view.goto (.serve ssl req (session.step chunk)
          (.calls (session.due chunk)))).extend [] (session.heard chunk))
  | parses (ssl req : ℕ) (session : Session) (offset : ℕ) (buffer : Bytes)
      (events : List SessionEvent)
      (hpc : view.pc = .serve ssl req session (.calls (.parsed offset buffer :: events))) :
      WorkerStep useCache publicDir Admits first view
        ((view.goto (.serve ssl req session (.calls events))).extend []
          [.read buffer])
  | posts (ssl req : ℕ) (session : Session) (request : HttpRequest) (buffer : Bytes)
      (hpc : view.pc = .serve ssl req session (.calls [.routed request buffer]))
      (hpost : request.method = .post) :
      WorkerStep useCache publicDir Admits first view
        ((view.goto (.serve ssl req session
          (.write [(postResponse request).header, (postResponse request).body]))).extend
            [] [.answered (postResponse request)])
  | ignores (ssl req : ℕ) (session : Session) (request : HttpRequest) (buffer : Bytes)
      (hpc : view.pc = .serve ssl req session (.calls [.routed request buffer]))
      (hunknown : request.method = .unknown) :
      WorkerStep useCache publicDir Admits first view
        (view.goto (.serve ssl req session (.calls [])))
  | uncached (ssl req : ℕ) (session : Session) (request : HttpRequest) (buffer : Bytes)
      (hpc : view.pc = .serve ssl req session (.calls [.routed request buffer]))
      (hget : request.method = .get) (hsafe : isSafePath request.path.text = true)
      (hcache : useCache ≠ 1) :
      WorkerStep useCache publicDir Admits first view
        (view.goto (.serve ssl req session (.disk request)))
  | loads (ssl req : ℕ) (session : Session) (request : HttpRequest) (disk : Disk)
      (loaded : ℤ × (ℕ → UInt8)) (response : HttpResponse)
      (hpc : view.pc = .serve ssl req session (.disk request))
      (hdisk : Admits disk.files)
      (hread : readFile (disk.files (filePath publicDir request.path.text)) =
        some loaded)
      (hresponse : response = diskResponse request (filePath publicDir request.path.text)
        (disk.files (filePath publicDir request.path.text))) :
      WorkerStep useCache publicDir Admits first view
        ((view.goto (.serve ssl req session
          (.write [response.header, response.body]))).extend [] [.answered response])
  | writes (ssl req : ℕ) (session : Session) (text : Bytes) (texts : List Bytes)
      (hpc : view.pc = .serve ssl req session (.write (text :: texts))) :
      WorkerStep useCache publicDir Admits first view
        ((view.goto (.serve ssl req session (.write texts))).extend [text] [])
  | returns (ssl req : ℕ) (session : Session)
      (hpc : view.pc = .serve ssl req session (.write [])) :
      WorkerStep useCache publicDir Admits first view
        (view.goto (.serve ssl req session (.calls [])))
  | keeps (ssl req : ℕ) (session : Session)
      (hpc : view.pc = .serve ssl req session (.calls []))
      (hopen : session.phase ≠ .closed) :
      WorkerStep useCache publicDir Admits first view (view.goto (.read ssl req session))
  | ends (ssl req : ℕ) (session : Session)
      (hpc : view.pc = .serve ssl req session (.calls []))
      (hclosed : session.phase = .closed) :
      WorkerStep useCache publicDir Admits first view (view.goto (.freeRequest ssl req))
  | frees (ssl req : ℕ) (hpc : view.pc = .freeRequest ssl req) :
      WorkerStep useCache publicDir Admits first view
        { view.goto (.sslShutdown ssl) with
          requests := view.requests.erase req }
  | sslShutsDown (ssl : ℕ) (hpc : view.pc = .sslShutdown ssl) :
      WorkerStep useCache publicDir Admits first view (view.goto (.sslFree ssl))
  | sslFrees (ssl : ℕ) (hpc : view.pc = .sslFree ssl) :
      WorkerStep useCache publicDir Admits first view
        { view.goto .close with
          sessions := view.sessions.erase ssl }

/-- Where the loop and the router call `send_http_error`. -/
inductive SendsError (publicDir : CharArray 256) (Admits : Files → Prop) :
    Serving → ErrorCall → Prop where
  | rejected : SendsError publicDir Admits (.calls [.rejected]) .badRequest
  | forbidden (request : HttpRequest) (buffer : Bytes) (hget : request.method = .get)
      (hclimbs : isSafePath request.path.text = false) :
      SendsError publicDir Admits (.calls [.routed request buffer])
        (.forbidden request.keepAlive)
  | missing (request : HttpRequest) (disk : Disk) (hdisk : Admits disk.files)
      (hread : readFile (disk.files (filePath publicDir request.path.text)) = none) :
      SendsError publicDir Admits (.disk request) (.notFound request.keepAlive)

/-! ## The branch of the cache and the error pages -/

namespace RoutePc

/-- What the worker hands to `SSL_write` at this point. -/
def said (cache : LithCache) : RoutePc → List Bytes
  | header req idx => [(cachedResponse req (cache.entries idx)).header]
  | body req idx _ => [(cachedResponse req (cache.entries idx)).body]
  | _ => []

/-- The answer that begins at this point. -/
def begun (cache : LithCache) : RoutePc → List Exchange
  | header req idx => [.answered (cachedResponse req (cache.entries idx))]
  | _ => []

/-- Behind the last unlock: the file is still to be read, or has been sent. -/
def leads (request : HttpRequest) : RoutePc → Serving
  | disk _ _ => .disk request
  | served => .calls []
  | _ => .cached request

end RoutePc

namespace ErrorPc

def said (buffer : Bytes) : ErrorPc → List Bytes
  | formatted _ header => [header]
  | headerSent _ _ => [buffer]
  | _ => []

def leads : ErrorPc → Serving
  | headerSent _ _ => .calls []
  | _ => .error

end ErrorPc

/-- What a reload finds comes from such files. -/
def LoadsFrom {Thread : Type*} (Admits : Files → Prop)
    (before after : LockingState Thread) (thread : Thread) : Prop :=
  ∀ req idx fresh, after.pcs thread = .swap req idx fresh .content →
    ∃ disk : Disk, Admits disk.files ∧
      fresh = (lithCacheHotReload (before.cache.entries idx)
        (disk.files (before.cache.entries idx).filepath.text)).2

/-! ## All workers -/

structure HandlerState (Thread : Type*) where
  pool : PoolState Thread
  routes : LockingState Thread
  pages : ErrorState Thread
  pcs : Thread → HandlerPc
  wires : Socket → Wire
  sessions : Finset ℕ
  requests : Finset ℕ

namespace HandlerState

variable {Thread : Type*} [DecidableEq Thread]

def view (state : HandlerState Thread) (thread : Thread) (socket : Socket) :
    WorkerView where
  pc := state.pcs thread
  wire := state.wires socket
  sessions := state.sessions
  requests := state.requests

/-- What a call of the worker leaves, in the given part of the connection. -/
def put (state : HandlerState Thread) (thread : Thread) (socket : Socket)
    (stage : ServeStage) (view : WorkerView) : HandlerState Thread :=
  { state with
    pool := state.pool.goto thread (.serving socket stage)
    pcs := Function.update state.pcs thread view.pc
    wires := Function.update state.wires socket view.wire
    sessions := view.sessions
    requests := view.requests }

/-- The worker is at a read of this session. -/
structure At (state : HandlerState Thread) (thread : Thread) (socket : Socket)
    (ssl req : ℕ) (session : Session) (todo : Serving) : Prop where
  serving : state.pool.pcs thread = .serving socket .session
  pc : state.pcs thread = .serve ssl req session todo

def serve (state : HandlerState Thread) (thread : Thread) (socket : Socket)
    (ssl req : ℕ) (session : Session) (todo : Serving) (wire : Wire) :
    HandlerState Thread :=
  { state with
    pcs := Function.update state.pcs thread (.serve ssl req session todo)
    wires := Function.update state.wires socket wire }

end HandlerState

/-- A step of the pool is one of a thread that is not at a connection or is about to
close it. -/
inductive HandlerStep {Thread : Type*} [DecidableEq Thread] (useCache : ℤ)
    (publicDir : CharArray 256) (Admits : Files → Prop) (first : Socket → UInt8)
    (state : HandlerState Thread) (thread : Thread) : HandlerState Thread → Prop where
  | pool (pool : PoolState Thread)
      (houtside : (state.pcs thread).stage = none ∨
        (state.pcs thread).stage = some .close)
      (hpool : PoolStep state.pool thread pool) :
      HandlerStep useCache publicDir Admits first state thread
        { state with
          pool := pool
          pcs := Function.update state.pcs thread (.entered (pool.pcs thread)) }
  | work (socket : Socket) (stage next : ServeStage) (view : WorkerView)
      (hserving : state.pool.pcs thread = .serving socket stage)
      (hwork : WorkerStep useCache publicDir Admits (first socket)
        (state.view thread socket) view)
      (hnext : view.pc.stage = some next) :
      HandlerStep useCache publicDir Admits first state thread
        (state.put thread socket next view)
  | looksUp (socket : Socket) (ssl req : ℕ) (session : Session)
      (request : HttpRequest) (buffer : Bytes)
      (hat : state.At thread socket ssl req session (.calls [.routed request buffer]))
      (hget : request.method = .get) (hsafe : isSafePath request.path.text = true)
      (hcache : useCache = 1) (houtside : state.routes.pcs thread = .outside) :
      HandlerStep useCache publicDir Admits first state thread
        { state.serve thread socket ssl req session (.cached request)
            (state.wires socket) with
          routes := state.routes.goto thread
            (.lookup request (filePath publicDir request.path.text)) }
  | route (socket : Socket) (ssl req : ℕ) (session : Session) (request : HttpRequest)
      (routes : LockingState Thread)
      (hat : state.At thread socket ssl req session (.cached request))
      (hinside : state.routes.pcs thread ≠ .outside)
      (hroute : LockingStep state.routes thread routes)
      (hloads : LoadsFrom Admits state.routes routes thread) :
      HandlerStep useCache publicDir Admits first state thread
        { state.serve thread socket ssl req session
            ((state.routes.pcs thread).leads request)
            ((state.wires socket).extend
              ((state.routes.pcs thread).said state.routes.cache)
              ((state.routes.pcs thread).begun state.routes.cache)) with
          routes := routes }
  | fails (socket : Socket) (ssl req : ℕ) (session : Session) (todo : Serving)
      (call : ErrorCall) (hat : state.At thread socket ssl req session todo)
      (hsends : SendsError publicDir Admits todo call)
      (hidle : state.pages.pc thread = .idle) :
      HandlerStep useCache publicDir Admits first state thread
        { state.serve thread socket ssl req session .error
            ((state.wires socket).extend [] [.answered call.response]) with
          pages := state.pages.move thread (.called call) }
  | page (socket : Socket) (ssl req : ℕ) (session : Session)
      (label : ErrorLabel Thread) (pages : ErrorState Thread)
      (hat : state.At thread socket ssl req session .error)
      (hbusy : state.pages.pc thread ≠ .idle) (hmine : label.worker = thread)
      (hpage : ErrorStep state.pages label pages) :
      HandlerStep useCache publicDir Admits first state thread
        { state.serve thread socket ssl req session (state.pages.pc thread).leads
            ((state.wires socket).extend
              ((state.pages.pc thread).said state.pages.buffer) []) with
          pages := pages }

/-- The server behind `thread_pool_init`, for clients that begin with these bytes and
files that are always of this kind. -/
def handlerSystem (Thread : Type*) [DecidableEq Thread] (useCache : ℤ)
    (publicDir : CharArray 256) (Admits : Files → Prop) (first : Socket → UInt8) :
    TransitionSystem (HandlerState Thread) Thread where
  start := fun state =>
    (poolSystem Thread).start state.pool ∧
      (lockingSystem Thread).start state.routes ∧
      (errorSystem Thread).start state.pages ∧
      (∃ files, Admits files ∧
        state.routes.cache = threadPoolInitCache publicDir.text files) ∧
      (∀ thread, state.pcs thread = .outside) ∧
      (∀ socket, state.wires socket = .silent) ∧
      state.sessions = ∅ ∧ state.requests = ∅
  step := HandlerStep useCache publicDir Admits first

/-- Nobody writes an error page while another worker still has to send a different
one. -/
def PagesKept {Thread : Type*} (state : HandlerState Thread) (thread : Thread) : Prop :=
  KeepsPages state.pages (.generate thread)

/-- The accept loop, one worker and a thread that may shut the server down. -/
def idleServer (publicDir : CharArray 256) : HandlerState (Fin 3) where
  pool := threeThreads
  routes := {
    lock := RwLock.unlocked
    cache := threadPoolInitCache publicDir.text fun _ => .absent
    pcs := fun _ => .outside
    versions := fun idx =>
      [(threadPoolInitCache publicDir.text fun _ => .absent).entries idx]
    answers := [] }
  pages := ⟨[], fun _ => .idle, []⟩
  pcs := fun _ => .outside
  wires := fun _ => .silent
  sessions := ∅
  requests := ∅

theorem start_idleServer (useCache : ℤ) (publicDir : CharArray 256)
    {Admits : Files → Prop} (hadmits : Admits fun _ => .absent)
    (first : Socket → UInt8) :
    (handlerSystem (Fin 3) useCache publicDir Admits first).start
      (idleServer publicDir) := by
  have hpcs : ∀ thread, threeThreads.pcs thread ∈ [.accept, .popLock, .stopLock] := by
    decide
  exact ⟨⟨fun _ => rfl, rfl, rfl, rfl, hpcs, rfl, rfl, rfl, rfl⟩,
    ⟨rfl, fun _ => rfl, fun _ => rfl, rfl⟩, ⟨rfl, fun _ => rfl⟩,
    ⟨fun _ => .absent, hadmits, rfl⟩, fun _ => rfl, fun _ => rfl, rfl, rfl⟩

/-- The first client has shaken hands and the worker is in its keep-alive loop. -/
theorem exists_reading_client (useCache : ℤ) (publicDir : CharArray 256)
    {Admits : Files → Prop} (hadmits : Admits fun _ => .absent) :
    ∃ state : HandlerState (Fin 3),
      ((handlerSystem (Fin 3) useCache publicDir Admits fun _ => 22).restrict
        PagesKept).Reachable state ∧
        state.pool.pcs 1 = .serving ⟨5, 0⟩ .session ∧
        state.pcs 1 = .read 7 9 .initial ∧ state.wires ⟨5, 0⟩ = .silent ∧
        state.pages = (idleServer publicDir).pages ∧
        state.routes = (idleServer publicDir).routes := by
  let system := (handlerSystem (Fin 3) useCache publicDir Admits fun _ => 22).restrict
    PagesKept
  have hstart : system.Reachable (idleServer publicDir) :=
    .start (start_idleServer useCache publicDir hadmits fun _ => 22)
  have haccepted := hstart.next 0 ⟨nofun,
    .pool _ (.inl rfl) (.accepts _ 0 ⟨5, 0⟩ rfl List.not_mem_nil)⟩
  have hallocated := haccepted.next 0 ⟨nofun,
    .pool _ (.inl rfl) (.allocates _ 0 _ 100 rfl rfl)⟩
  have hlocked := hallocated.next 0 ⟨nofun,
    .pool _ (.inl rfl) (.lock _ 0 _ rfl rfl)⟩
  have hlinked := hlocked.next 0 ⟨nofun,
    .pool _ (.inl rfl) (.links _ 0 _ _ rfl rfl)⟩
  have hpushed := hlinked.next 0 ⟨nofun, .pool _ (.inl rfl) (.unlock _ 0 _ rfl)⟩
  have hpopLocked := hpushed.next 1 ⟨nofun,
    .pool _ (.inl rfl) (.lock _ 1 _ rfl rfl)⟩
  have hunlinked := hpopLocked.next 1 ⟨nofun,
    .pool _ (.inl rfl) (.unlinks _ 1 100 ⟨⟨5, 0⟩, none⟩ rfl rfl rfl rfl)⟩
  have hpopUnlocked := hunlinked.next 1 ⟨nofun, .pool _ (.inl rfl) (.unlock _ 1 _ rfl)⟩
  have hread := hpopUnlocked.next 1 ⟨nofun,
    .pool _ (.inl rfl) (.reads _ 1 _ _ ⟨⟨5, 0⟩, none⟩ rfl rfl)⟩
  have hfreed := hread.next 1 ⟨nofun, .pool _ (.inl rfl) (.frees _ 1 _ _ _ rfl)⟩
  have hserving := hfreed.next 1 ⟨nofun,
    .pool _ (.inl rfl) (.move _ 1 _ (.workerServes _ rfl))⟩
  have htls := hserving.next 1 ⟨nofun,
    .work ⟨5, 0⟩ .peek .sslNew _ rfl (.peekTls rfl rfl) rfl⟩
  have hnew := htls.next 1 ⟨nofun,
    .work ⟨5, 0⟩ .sslNew .sslAccept _ rfl
      (.newSession 7 rfl (Finset.notMem_empty 7)) rfl⟩
  have hset := hnew.next 1 ⟨nofun,
    .work ⟨5, 0⟩ .sslAccept .sslAccept _ rfl (.setsFd 7 rfl) rfl⟩
  have hshaken := hset.next 1 ⟨nofun,
    .work ⟨5, 0⟩ .sslAccept .session _ rfl (.accepts 7 rfl) rfl⟩
  have hrequest := hshaken.next 1 ⟨nofun,
    .work ⟨5, 0⟩ .session .session _ rfl
      (.allocates 7 9 rfl (Finset.notMem_empty 9)) rfl⟩
  exact ⟨_, hrequest, rfl, rfl, rfl, rfl, rfl⟩

def PoolPc.stage : PoolPc → Option ServeStage
  | serving _ stage => some stage
  | _ => none

theorem PoolPc.serving_of_stage {pc : PoolPc} {stage : ServeStage}
    (hstage : pc.stage = some stage) : ∃ socket, pc = .serving socket stage := by
  cases pc with
  | serving socket other =>
      cases hstage
      exact ⟨socket, rfl⟩
  | _ => cases hstage

section Steps

variable {Thread : Type*} [DecidableEq Thread] {useCache : ℤ}
  {publicDir : CharArray 256} {Admits : Files → Prop} {first : Socket → UInt8}
  {thread : Thread}
  {state after : HandlerState Thread}

theorem PoolState.goto_self {pool : PoolState Thread} {pc : PoolPc}
    (hpc : pool.pcs thread = pc) : pool.goto thread pc = pool := by
  rw [PoolState.goto, ← hpc, Function.update_eq_self]

/-- From outside a connection, or from its end, the pool leads to its beginning. -/
theorem PoolStep.stage_entered {pool later : PoolState Thread}
    (hstep : PoolStep pool thread later)
    (houtside : (pool.pcs thread).stage = none ∨
      (pool.pcs thread).stage = some .close) :
    (HandlerPc.entered (later.pcs thread)).stage = (later.pcs thread).stage := by
  have hplain {pc : PoolPc} (hnone : pc.stage = none) :
      (HandlerPc.entered pc).stage = pc.stage := by
    cases pc <;> first | rfl | cases hnone
  cases hstep with
  | move pc hmove =>
      rw [PoolState.goto_pcs_self]
      generalize pool.pcs thread = before at hmove houtside
      cases hmove with
      | workerServes => rfl
      | proceeds socket hnext =>
          rcases houtside with hnone | hclose
          · cases hnone
          · cases hclose
            cases hnext
      | _ => rfl
  | lock pc hpc =>
      apply hplain
      simp only [PoolState.goto, Function.update_self]
      cases hbefore : pool.pcs thread <;> rw [hbefore] at hpc <;> cases hpc <;> rfl
  | unlock pc hpc =>
      apply hplain
      simp only [PoolState.goto, Function.update_self]
      cases hbefore : pool.pcs thread <;> rw [hbefore] at hpc <;> cases hpc <;> rfl
  | closes socket pc hpc =>
      apply hplain
      simp only [PoolState.goto, Function.update_self]
      cases hbefore : pool.pcs thread with
      | serving other stage =>
          rw [hbefore] at hpc
          cases stage <;> cases hpc
          rfl
      | _ =>
          rw [hbefore] at hpc
          cases hpc <;> rfl
  | _ =>
      apply hplain
      simp [PoolState.goto, PoolPc.stage]

/-- A call stays in its part of the connection or goes on to a next one. -/
theorem WorkerStep.stage_next {byte : UInt8} {view next : WorkerView}
    (hstep : WorkerStep useCache publicDir Admits byte view next) :
    ∃ stage later, view.pc.stage = some stage ∧ next.pc.stage = some later ∧
      (stage = later ∨ ServeStage.Next stage later) := by
  cases hstep <;>
    refine ⟨_, _, congrArg HandlerPc.stage (by assumption), rfl, ?_⟩ <;>
    first
    | exact Or.inl rfl
    | exact Or.inr (by constructor)

def HandlerState.Agrees (state : HandlerState Thread) : Prop :=
  ∀ thread, (state.pcs thread).stage = (state.pool.pcs thread).stage

theorem HandlerState.Agrees.serve (hagrees : state.Agrees) {socket : Socket}
    {ssl req : ℕ} {session : Session} {todo : Serving}
    (hat : state.At thread socket ssl req session todo) (next : Serving)
    (other : Thread) :
    (Function.update state.pcs thread (.serve ssl req session next) other).stage =
      (state.pool.pcs other).stage := by
  by_cases hother : other = thread
  · subst hother
    rw [Function.update_self, hat.serving]
    rfl
  · rw [Function.update_of_ne hother]
    exact hagrees other

theorem HandlerState.Agrees.step (hagrees : state.Agrees)
    (hstep : HandlerStep useCache publicDir Admits first state thread after) :
    after.Agrees := by
  cases hstep with
  | pool pool houtside hpool =>
      obtain ⟨pc, hpcs, -⟩ := hpool.transfer rfl
      intro other
      by_cases hother : other = thread
      · simp only [hother, Function.update_self]
        exact hpool.stage_entered (hagrees thread ▸ houtside)
      · simp only [Function.update_of_ne hother, hpcs]
        exact hagrees other
  | work socket stage next view hserving hwork hnext =>
      intro other
      by_cases hother : other = thread
      · simp [HandlerState.put, hother, hnext, PoolPc.stage]
      · simpa [HandlerState.put, PoolState.goto, hother] using hagrees other
  | looksUp _ _ _ _ _ _ hat => exact hagrees.serve hat _
  | route _ _ _ _ _ _ hat => exact hagrees.serve hat _
  | fails _ _ _ _ _ _ hat => exact hagrees.serve hat _
  | page _ _ _ _ _ _ hat => exact hagrees.serve hat _

/-- Either the pool stays as it is or makes a step of its own. -/
theorem HandlerStep.pool_step (hagrees : state.Agrees)
    (hstep : HandlerStep useCache publicDir Admits first state thread after) :
    after.pool = state.pool ∨ PoolStep state.pool thread after.pool := by
  cases hstep with
  | pool pool houtside hpool => exact Or.inr hpool
  | work socket stage next view hserving hwork hnext =>
      obtain ⟨before, later, hbefore, hlater, hstage⟩ := hwork.stage_next
      have hsame : before = stage := by
        have hpool := hagrees thread
        rw [hserving] at hpool
        exact Option.some.inj (hbefore.symm.trans hpool)
      obtain rfl : later = next := Option.some.inj (hlater.symm.trans hnext)
      subst hsame
      rcases hstage with rfl | hstage
      · exact Or.inl (PoolState.goto_self hserving)
      · refine Or.inr (.move _ thread _ ?_)
        rw [hserving]
        exact .proceeds socket hstage
  | _ => exact Or.inl rfl

/-- The workers at their connections do with the pool what it does by itself. -/
theorem pool_of_reachable
    (hreach : (handlerSystem Thread useCache publicDir Admits first).Reachable state) :
    (poolSystem Thread).Reachable state.pool ∧ state.Agrees := by
  apply hreach.invariant
    (P := fun state => (poolSystem Thread).Reachable state.pool ∧ state.Agrees)
  · intro start hstart
    refine ⟨.start hstart.1, fun thread => ?_⟩
    have hpc := hstart.1.2.2.2.2.1 thread
    rw [hstart.2.2.2.2.1 thread]
    simp only [List.mem_cons, List.not_mem_nil, or_false] at hpc
    rcases hpc with hpc | hpc | hpc <;> rw [hpc] <;> rfl
  · intro before thread after hboth hstep
    refine ⟨?_, hboth.2.step hstep⟩
    rcases hstep.pool_step hboth.2 with hsame | hpool
    · rw [hsame]
      exact hboth.1
    · exact hboth.1.next thread hpool

end Steps

end Lith
