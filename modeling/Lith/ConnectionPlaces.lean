import Lith.ServedReads

/-!
# What the place of a worker says of its connection

What a client has been told follows from the place of the worker that serves it: in the
handler, in the branch of the cache and in `send_http_error`.  The bytes that were
handed to `SSL_write` and those that this place still has to write are the answers of
the log, and the log is one of the model of one connection, or will be when the answer
is settled.
-/

namespace Lith

open CString

/-! ## What is still to be written -/

theorem flatMap_bytes_append (log more : List Exchange) :
    ((log ++ more).filterMap Exchange.response).flatMap HttpResponse.bytes =
      (log.filterMap Exchange.response).flatMap HttpResponse.bytes ++
        (more.filterMap Exchange.response).flatMap HttpResponse.bytes := by
  rw [List.filterMap_append, List.flatMap_append]

/-- Together with these texts the client has the answers of the log. -/
structure Wire.Balanced (wire : Wire) (texts : List Bytes) : Prop where
  clear : wire.clear = []
  bytes : wire.secure.flatten ++ texts.flatten =
    (wire.log.filterMap Exchange.response).flatMap HttpResponse.bytes

theorem Wire.Balanced.extend {wire : Wire} {todo : List Bytes}
    (hbalanced : wire.Balanced todo) {said texts : List Bytes}
    {exchanges : List Exchange}
    (hnext : said.flatten ++ texts.flatten =
      todo.flatten ++ (exchanges.filterMap Exchange.response).flatMap HttpResponse.bytes) :
    (wire.extend said exchanges).Balanced texts where
  clear := hbalanced.clear
  bytes := by
    have hbytes := flatMap_bytes_append wire.log exchanges
    simp only [Wire.extend, List.flatten_append, hbytes, ← hbalanced.bytes,
      List.append_assoc, hnext]

theorem Wire.Balanced.silent {wire : Wire} {texts : List Bytes}
    (hbalanced : wire.Balanced texts) : (wire.extend [] []).Balanced texts :=
  hbalanced.extend (by simp)

def RoutePc.texts (cache : LithCache) : RoutePc → List Bytes
  | body req idx _ => [(cachedResponse req (cache.entries idx)).body]
  | _ => []

def ErrorPc.texts : ErrorPc → List Bytes
  | idle => []
  | called call | generated call | formatted call _ =>
      [call.response.header, call.response.body]
  | headerSent call _ => [call.response.body]

def Serving.texts (cache : LithCache) (route : RoutePc) (page : ErrorPc) :
    Serving → List Bytes
  | calls _ | disk _ => []
  | cached _ => route.texts cache
  | error => page.texts
  | write texts => texts

/-! ## What is known of the request -/

/-- What a place in the branch of the cache says of the request, the name of its file
and the slot. -/
def RoutePc.About (Admits : Files → Prop) (cache : LithCache) (request : HttpRequest)
    (path : Bytes) : RoutePc → Prop
  | outside => False
  | lookup req file | scan req file => req = request ∧ file = path
  | missed _ _ | disk _ _ => lithCacheLookup cache path = none
  | swap req idx fresh _ => (req = request ∧ lithCacheLookup cache path = some idx) ∧
      ∃ disk : Disk, Admits disk.files ∧ fresh = (lithCacheHotReload (cache.entries idx)
        (disk.files (cache.entries idx).filepath.text)).2
  | stat req idx | compare req idx _ | stale req idx | wrlock req idx | reload req idx
  | reloaded req idx | rdlock req idx | header req idx | body req idx _ =>
      req = request ∧ lithCacheLookup cache path = some idx
  | served => True

def RoutePc.Settled : RoutePc → Prop
  | body _ _ _ | served => True
  | _ => False

/-- Where the model of one connection is while this is left to do. -/
def Serving.Follows (useCache : ℤ) (publicDir : CharArray 256) (Admits : Files → Prop)
    (cache : LithCache) (route : RoutePc) (session : Session) (log : List Exchange) :
    Serving → Prop
  | calls events => Left useCache publicDir Admits cache session log events
  | cached request => useCache = 1 ∧
      route.About Admits cache request (filePath publicDir request.path.text) ∧
      (route.Settled → Live useCache publicDir Admits cache session log) ∧
      (¬route.Settled → Asked useCache publicDir Admits cache session log request)
  | disk request => Asked useCache publicDir Admits cache session log request ∧
      Misses useCache publicDir cache request
  | error | write _ => Live useCache publicDir Admits cache session log

section Moves

variable {useCache : ℤ} {publicDir : CharArray 256} {Admits : Files → Prop}
  {cache after : LithCache} {route : RoutePc} {session : Session} {log : List Exchange}

/-- Whoever does not have the lock keeps what it knows. -/
theorem RoutePc.About.moves {request : HttpRequest} {path : Bytes}
    (habout : route.About Admits cache request path) (hfree : route.mode = .free)
    (hmoves : CacheMoves Admits cache after) :
    route.About Admits after request path := by
  cases route with
  | outside => exact habout
  | lookup req file => exact habout
  | disk req file => exact (hmoves.lookup path).trans habout
  | wrlock req idx => exact ⟨habout.1, (hmoves.lookup path).trans habout.2⟩
  | rdlock req idx => exact ⟨habout.1, (hmoves.lookup path).trans habout.2⟩
  | _ => cases hfree

theorem Serving.Follows.moves {todo : Serving}
    (hfollows : todo.Follows useCache publicDir Admits cache route session log)
    (hfree : route.mode = .free) (hmoves : CacheMoves Admits cache after) :
    todo.Follows useCache publicDir Admits after route session log := by
  cases todo with
  | calls events => exact Left.moves hfollows hmoves
  | cached request =>
      obtain ⟨hcache, habout, hsettled, hasked⟩ := hfollows
      exact ⟨hcache, habout.moves hfree hmoves, fun h => (hsettled h).moves hmoves,
        fun h => (hasked h).moves hmoves⟩
  | disk request => exact ⟨hfollows.1.moves hmoves, hfollows.2.moves hmoves⟩
  | error => exact Live.moves hfollows hmoves
  | write texts => exact Live.moves hfollows hmoves

theorem Serving.Follows.followed {todo : Serving}
    (hfollows : todo.Follows useCache publicDir Admits cache route session log) :
    Followed useCache publicDir Admits cache log := by
  have hasked {request : HttpRequest}
      (hasked : Asked useCache publicDir Admits cache session log request) :
      Followed useCache publicDir Admits cache log := by
    obtain ⟨⟨buffer, hdue⟩, -, -⟩ := hasked
    exact hdue.followed
  cases todo with
  | calls events => exact Left.followed hfollows
  | cached request =>
      by_cases hsettled : route.Settled
      · exact (hfollows.2.2.1 hsettled).followed
      · exact hasked (hfollows.2.2.2 hsettled)
  | disk request => exact hasked hfollows.1
  | error => exact Live.followed hfollows
  | write texts => exact Live.followed hfollows

theorem RoutePc.texts_of_free (hfree : route.mode = .free) (cache after : LithCache) :
    route.texts after = route.texts cache := by
  cases route with
  | body req idx header => cases hfree
  | _ => rfl

end Moves

/-! ## The wire of a connection -/

structure Wire.Spoken (Ran : Session → List Exchange → Prop) (wire : Wire)
    (session : Session) : Prop where
  balanced : wire.Balanced []
  ran : Ran session wire.log

def Wire.Redirected (wire : Wire) : Prop :=
  wire.secure = [] ∧ wire.log = [] ∧ ∃ peeked, wire.clear = [redirectResponse peeked]

/-- The wire of a connection that is over. -/
def Wire.Told (Ran : Session → List Exchange → Prop) (first : UInt8) (wire : Wire) :
    Prop :=
  first ≠ 22 ∧ (wire = .silent ∨ wire.Redirected) ∨
    first = 22 ∧ ∃ session, wire.Spoken Ran session

/-- What a worker with these places in the branch of the cache and in the error pages
has told its client. -/
def HandlerPc.Explains (useCache : ℤ) (publicDir : CharArray 256)
    (Admits : Files → Prop) (cache : LithCache) (first : UInt8) (wire : Wire)
    (route : RoutePc) (page : ErrorPc) : HandlerPc → Prop
  | outside => True
  | peek => wire = .silent
  | redirect => first ≠ 22 ∧ wire = .silent
  | send text =>
      first ≠ 22 ∧ wire = .silent ∧ ∃ peeked, text = redirectResponse peeked
  | shutdownWrite | discard => first ≠ 22 ∧ wire.Redirected
  | sslNew | setFd _ | sslAccept _ | refuse _ | allocate _ =>
      first = 22 ∧ wire = .silent
  | read _ _ session => first = 22 ∧
      wire.Spoken (Live useCache publicDir Admits cache) session ∧
      session.phase ≠ .closed
  | serve _ _ session todo => first = 22 ∧
      wire.Balanced (todo.texts cache route page) ∧
      todo.Follows useCache publicDir Admits cache route session wire.log
  | freeRequest _ _ | sslShutdown _ | sslFree _ =>
      first = 22 ∧ ∃ session, wire.Spoken (Live useCache publicDir Admits cache) session
  | close => wire.Told (Live useCache publicDir Admits cache) first

section Wires

variable {useCache : ℤ} {publicDir : CharArray 256} {Admits : Files → Prop}
  {cache after : LithCache} {byte : UInt8} {wire : Wire} {route : RoutePc}
  {page : ErrorPc}

theorem Wire.Spoken.moves {session : Session}
    (hspoken : wire.Spoken (Live useCache publicDir Admits cache) session)
    (hmoves : CacheMoves Admits cache after) :
    wire.Spoken (Live useCache publicDir Admits after) session :=
  ⟨hspoken.balanced, hspoken.ran.moves hmoves⟩

theorem Wire.Told.moves (htold : wire.Told (Live useCache publicDir Admits cache) byte)
    (hmoves : CacheMoves Admits cache after) :
    wire.Told (Live useCache publicDir Admits after) byte := by
  rcases htold with hclear | ⟨htls, session, hspoken⟩
  · exact Or.inl hclear
  · exact Or.inr ⟨htls, session, hspoken.moves hmoves⟩

/-- The cache may change under a worker that does not have its lock. -/
theorem HandlerPc.Explains.moves {pc : HandlerPc}
    (hexplains : pc.Explains useCache publicDir Admits cache byte wire route page)
    (hfree : route.mode = .free) (hmoves : CacheMoves Admits cache after) :
    pc.Explains useCache publicDir Admits after byte wire route page := by
  cases pc with
  | read ssl req session =>
      exact ⟨hexplains.1, hexplains.2.1.moves hmoves, hexplains.2.2⟩
  | serve ssl req session todo =>
      obtain ⟨htls, hbalanced, hfollows⟩ := hexplains
      refine ⟨htls, ?_, hfollows.moves hfree hmoves⟩
      have htexts : todo.texts after route page = todo.texts cache route page := by
        cases todo with
        | cached request => exact RoutePc.texts_of_free hfree cache after
        | _ => rfl
      rw [htexts]
      exact hbalanced
  | freeRequest ssl req =>
      obtain ⟨htls, session, hspoken⟩ := hexplains
      exact ⟨htls, session, hspoken.moves hmoves⟩
  | sslShutdown ssl =>
      obtain ⟨htls, session, hspoken⟩ := hexplains
      exact ⟨htls, session, hspoken.moves hmoves⟩
  | sslFree ssl =>
      obtain ⟨htls, session, hspoken⟩ := hexplains
      exact ⟨htls, session, hspoken.moves hmoves⟩
  | close => exact Wire.Told.moves hexplains hmoves
  | _ => exact hexplains

theorem Wire.spoken_silent {Ran : Session → List Exchange → Prop}
    (hinitial : Ran .initial []) : Wire.silent.Spoken Ran .initial where
  balanced := ⟨rfl, rfl⟩
  ran := hinitial

theorem Wire.told_silent {Ran : Session → List Exchange → Prop}
    (hinitial : Ran .initial []) (byte : UInt8) : Wire.silent.Told Ran byte := by
  by_cases htls : byte = 22
  · exact Or.inr ⟨htls, .initial, Wire.spoken_silent hinitial⟩
  · exact Or.inl ⟨htls, Or.inl rfl⟩

/-! ## The calls of the handler -/

variable {Thread : Type*} [DecidableEq Thread] {thread : Thread}
  {routes later : LockingState Thread}

theorem HandlerPc.Explains.looksUp {ssl req : ℕ} {session : Session}
    {request : HttpRequest} {buffer : Bytes}
    (hexplains : (HandlerPc.serve ssl req session
      (.calls [.routed request buffer])).Explains useCache publicDir Admits cache byte
        wire route page)
    (hget : request.method = .get) (hsafe : isSafePath request.path.text = true)
    (hcache : useCache = 1) :
    (HandlerPc.serve ssl req session (.cached request)).Explains useCache publicDir Admits
      cache byte wire (.lookup request (filePath publicDir request.path.text)) page := by
  obtain ⟨htls, hbalanced, hdue⟩ := hexplains
  exact ⟨htls, hbalanced, hcache, ⟨rfl, rfl⟩, False.elim,
    fun _ => ⟨⟨buffer, hdue⟩, hget, hsafe⟩⟩

/-! ## The error pages -/

end Wires

end Lith
