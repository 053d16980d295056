import Lith.LastVersions
import Lith.ResponseStream
import Lith.ServerParts

/-!
# From a read to the end of its answer

The model of one connection takes a read and its answer in one step.  A worker takes
many, between which others reload entries of the cache.  The one that stands for them
all is where the answer is settled: the header that is sent from an entry under the
lock, the file that is read, the call that writes an error page.  Up to there the
worker owes the step, from there on it only writes what the log says.
-/

namespace Lith

open CString

/-! ## Steps of the model of one connection -/

/-- The session and the log of a connection, as the model of one connection has them
with this cache. -/
def Live (useCache : ℤ) (publicDir : CharArray 256) (Admits : Files → Prop)
    (cache : LithCache) (session : Session) (log : List Exchange) : Prop :=
  (admittedSystem Admits useCache publicDir).Reachable ⟨session, cache, log⟩

/-- What the cache may have become by a reload. -/
def CacheMoves (Admits : Files → Prop) (cache after : LithCache) : Prop :=
  after = cache ∨ ∃ (disk : Disk) (idx : Fin maxCacheEntries), Admits disk.files ∧
    idx.val < cache.entryCount ∧ after = cache.reload disk.files idx

section Reads

variable {useCache : ℤ} {publicDir : CharArray 256} {Admits : Files → Prop}
  {cache after : LithCache} {session : Session} {log : List Exchange}

theorem Live.moves (hlive : Live useCache publicDir Admits cache session log)
    (hmoves : CacheMoves Admits cache after) :
    Live useCache publicDir Admits after session log := by
  rcases hmoves with rfl | ⟨disk, idx, hdisk, hactive, rfl⟩
  · exact hlive
  · exact hlive.next (.others disk idx) ⟨hdisk, hactive, rfl⟩

theorem CacheMoves.lookup (hmoves : CacheMoves Admits cache after) (path : Bytes) :
    lithCacheLookup after path = lithCacheLookup cache path := by
  rcases hmoves with rfl | ⟨disk, idx, -, -, rfl⟩
  · rfl
  · refine LithCache.SameKeys.lookup (cache.sameKeys_setEntry ?_ ?_) path
    · exact lithCacheHotReload_filepath ..
    · exact lithCacheHotReload_isActive ..

/-- The buffers that the parser has been called with, as events and in the log. -/
def parsedEvents (parsed : List (ℕ × Bytes)) : List SessionEvent :=
  parsed.map fun call => .parsed call.1 call.2

def parsedReads (parsed : List (ℕ × Bytes)) : List Exchange :=
  parsed.map fun call => .read call.2

theorem foldl_parsedEvents (useCache : ℤ) (publicDir : CharArray 256) (files : Files)
    (parsed : List (ℕ × Bytes)) (connection : Connection) :
    (parsedEvents parsed).foldl (Connection.perform useCache publicDir files) connection =
      { connection with log := connection.log ++ parsedReads parsed } := by
  induction parsed generalizing connection with
  | nil => simp [parsedEvents, parsedReads]
  | cons call parsed ih =>
      simp only [parsedEvents, parsedReads, List.map_cons, List.foldl_cons] at ih ⊢
      rw [ih]
      simp [Connection.perform]

/-- A read was taken when the connection was at `Ran`, and these events of it are still
to be performed. -/
inductive Due (Ran : Session → List Exchange → Prop) :
    Session → List Exchange → List SessionEvent → Prop where
  | mk {before : Session} {start : List Exchange} {chunk : Bytes}
      {parsed : List (ℕ × Bytes)} {events : List SessionEvent}
      (hran : Ran before start) (hopen : before.phase ≠ .closed)
      (hshort : chunk.length ≤ before.asked)
      (hheard : ¬(before.phase = .reading ∧ chunk = []))
      (hdue : before.due chunk = parsedEvents parsed ++ events) :
      Due Ran (before.step chunk) (start ++ parsedReads parsed) events

theorem Due.mono {Ran Ran' : Session → List Exchange → Prop}
    {events : List SessionEvent} (hdue : Due Ran session log events)
    (hran : ∀ session log, Ran session log → Ran' session log) :
    Due Ran' session log events := by
  cases hdue with
  | mk hold hopen hshort hheard hevents =>
      exact .mk (hran _ _ hold) hopen hshort hheard hevents

theorem Due.parsed {Ran : Session → List Exchange → Prop} {offset : ℕ} {buffer : Bytes}
    {events : List SessionEvent}
    (hdue : Due Ran session log (.parsed offset buffer :: events)) :
    Due Ran session (log ++ [.read buffer]) events := by
  cases hdue with
  | @mk before start chunk parsed _ hran hopen hshort hheard hevents =>
      have hrest : before.due chunk =
          parsedEvents (parsed ++ [(offset, buffer)]) ++ events := by
        rw [hevents]
        simp [parsedEvents]
      have hlog : parsedReads parsed ++ [.read buffer] =
          parsedReads (parsed ++ [(offset, buffer)]) := by
        simp [parsedReads]
      rw [List.append_assoc, hlog]
      exact .mk hran hopen hshort hheard hrest

/-- What is due is performed at once. -/
theorem Due.performed {events : List SessionEvent} {more : List Exchange}
    (hdue : Due (Live useCache publicDir Admits cache) session log events) (disk : Disk)
    (hdisk : Admits disk.files)
    (hperform : ∀ connection : Connection, connection.cache = cache →
      events.foldl (Connection.perform useCache publicDir disk.files) connection =
        { connection with log := connection.log ++ more }) :
    Live useCache publicDir Admits cache session (log ++ more) := by
  cases hdue with
  | @mk before start chunk parsed _ hran hopen hshort hheard hevents =>
      refine hran.next (.own disk chunk) ⟨hdisk, hopen, hshort, ?_⟩
      have hown : (before.step chunk).events.drop before.events.length =
          parsedEvents parsed ++ events := hevents
      simp only [Connection.own, if_neg hheard, hown, List.foldl_append]
      rw [foldl_parsedEvents, hperform _ rfl]

def absentDisk : Disk := ⟨fun _ => .absent, fun _ => by decide⟩

/-- The events of a read that are left, or the read is over. -/
def Left (useCache : ℤ) (publicDir : CharArray 256) (Admits : Files → Prop)
    (cache : LithCache) (session : Session) (log : List Exchange) :
    List SessionEvent → Prop
  | [] => Live useCache publicDir Admits cache session log
  | events => Due (Live useCache publicDir Admits cache) session log events

theorem Due.left {events : List SessionEvent}
    (hdue : Due (Live useCache publicDir Admits cache) session log events)
    (habsent : Admits fun _ => .absent) :
    Left useCache publicDir Admits cache session log events := by
  cases events with
  | cons event events => exact hdue
  | nil =>
      rw [← List.append_nil log]
      exact hdue.performed absentDisk habsent fun connection _ => by simp

theorem Left.moves {events : List SessionEvent}
    (hleft : Left useCache publicDir Admits cache session log events)
    (hmoves : CacheMoves Admits cache after) :
    Left useCache publicDir Admits after session log events := by
  cases events with
  | nil => exact Live.moves hleft hmoves
  | cons event events => exact Due.mono hleft fun _ _ hran => hran.moves hmoves

/-- The events of a session only grow. -/
theorem Session.events_step (session : Session) (chunk : Bytes) :
    (session.step chunk).events = session.events ++ session.due chunk := by
  have hgrown {more : List SessionEvent}
      (hstep : (session.step chunk).events = session.events ++ more) :
      (session.step chunk).events = session.events ++ session.due chunk := by
    rw [Session.due, hstep, List.drop_left]
  cases hphase : session.phase with
  | closed => exact hgrown (by rw [Session.step_closed hphase, List.append_nil])
  | reading =>
      by_cases hchunk : chunk = []
      · have hsame : (session.step chunk).events = session.events ++ [] := by
          simp [Session.step, hphase, hchunk]
        exact hgrown hsame
      · rcases Session.step_reading hphase hchunk with
          ⟨-, -, hevents⟩ | ⟨req, -, ⟨-, hevents⟩ | ⟨bodyReceived, -, hevents⟩⟩ <;>
          exact hgrown hevents
  | draining req buffer bodyReceived =>
      rcases Session.step_draining hphase chunk with
        ⟨-, routed, hevents⟩ | ⟨-, -, -, hevents⟩
      · exact hgrown hevents
      · exact hgrown (hevents.trans (List.append_nil _).symm)

/-- The parser is called once at most, at the beginning of a request. -/
theorem Session.parsed_due {chunk : Bytes} {parsed : List (ℕ × Bytes)}
    {events : List SessionEvent} (hopen : session.phase ≠ .closed)
    (hheard : ¬(session.phase = .reading ∧ chunk = []))
    (hdue : session.due chunk = parsedEvents parsed ++ events) :
    parsed = [] ∨ session.phase = .reading ∧ ∃ call, parsed = [call] := by
  have hsteps := session.events_step chunk
  rw [hdue] at hsteps
  cases hphase : session.phase with
  | closed => exact absurd hphase hopen
  | reading =>
      have hchunk : chunk ≠ [] := fun h => hheard ⟨hphase, h⟩
      rcases Session.step_reading hphase hchunk with
        ⟨-, -, hevents⟩ | ⟨req, -, ⟨-, hevents⟩ | ⟨bodyReceived, -, hevents⟩⟩ <;>
        rw [hevents] at hsteps <;>
        match parsed with
        | [] => exact Or.inl rfl
        | [call] => exact Or.inr ⟨rfl, call, rfl⟩
        | first :: second :: rest => simp [parsedEvents] at hsteps
  | draining req buffer bodyReceived =>
      rcases Session.step_draining hphase chunk with
        ⟨-, routed, hevents⟩ | ⟨-, -, -, hevents⟩ <;>
        rw [hevents] at hsteps <;>
        match parsed with
        | [] => exact Or.inl rfl
        | call :: rest => simp [parsedEvents] at hsteps

/-- What a read leaves to do. -/
theorem Live.read (hlive : Live useCache publicDir Admits cache session log)
    (hopen : session.phase ≠ .closed) {chunk : Bytes}
    (hshort : chunk.length ≤ session.asked) (habsent : Admits fun _ => .absent) :
    Left useCache publicDir Admits cache (session.step chunk)
      (log ++ session.heard chunk) (session.due chunk) := by
  by_cases hheard : session.phase = .reading ∧ chunk = []
  · obtain ⟨hphase, rfl⟩ := hheard
    have hnone : session.due [] = [] := by
      simp [Session.due, Session.step, hphase]
    rw [hnone]
    refine hlive.next (.own absentDisk []) ⟨habsent, hopen, hshort, ?_⟩
    have hown : (session.step []).events.drop session.events.length = [] := hnone
    simp [Connection.own, hphase, hown, Session.heard]
  · have hsaid : session.heard chunk = [] := if_neg hheard
    rw [hsaid]
    have hdue : Due (Live useCache publicDir Admits cache) (session.step chunk)
        (log ++ parsedReads []) (session.due chunk) := .mk hlive hopen hshort hheard rfl
    exact hdue.left habsent

/-- The router has answered, on files that leave the cache as it is. -/
theorem Due.answered {request : HttpRequest} {buffer : Bytes}
    {answer : Option HttpResponse}
    (hdue : Due (Live useCache publicDir Admits cache) session log
      [.routed request buffer]) (disk : Disk) (hdisk : Admits disk.files)
    (hroute : handleHttpRoute useCache publicDir disk.files cache request =
      (answer, cache)) :
    Live useCache publicDir Admits cache session
      (log ++ (answer.map Exchange.answered).toList) := by
  refine hdue.performed disk hdisk fun connection hcache => ?_
  subst hcache
  simp only [List.foldl_cons, List.foldl_nil, Connection.perform, hroute]

/-- A `GET` for a safe path, read and still to be answered. -/
structure Asked (useCache : ℤ) (publicDir : CharArray 256) (Admits : Files → Prop)
    (cache : LithCache) (session : Session) (log : List Exchange)
    (request : HttpRequest) : Prop where
  due : ∃ buffer, Due (Live useCache publicDir Admits cache) session log
    [.routed request buffer]
  get : request.method = .get
  safe : isSafePath request.path.text = true

theorem Asked.moves {request : HttpRequest}
    (hasked : Asked useCache publicDir Admits cache session log request)
    (hmoves : CacheMoves Admits cache after) :
    Asked useCache publicDir Admits after session log request := by
  obtain ⟨⟨buffer, hdue⟩, hget, hsafe⟩ := hasked
  exact ⟨⟨buffer, hdue.mono fun _ _ hran => hran.moves hmoves⟩, hget, hsafe⟩

/-- The file is not in the cache. -/
def Misses (useCache : ℤ) (publicDir : CharArray 256) (cache : LithCache)
    (request : HttpRequest) : Prop :=
  (if useCache = 1 then lithCacheLookup cache (filePath publicDir request.path.text)
    else none) = none

theorem Misses.moves {request : HttpRequest}
    (hmisses : Misses useCache publicDir cache request)
    (hmoves : CacheMoves Admits cache after) :
    Misses useCache publicDir after request := by
  rw [Misses, hmoves.lookup]
  exact hmisses

theorem Asked.fromDisk {request : HttpRequest}
    (hasked : Asked useCache publicDir Admits cache session log request)
    (hmisses : Misses useCache publicDir cache request) (disk : Disk)
    (hdisk : Admits disk.files) :
    Live useCache publicDir Admits cache session (log ++ [.answered
      (diskResponse request (filePath publicDir request.path.text)
        (disk.files (filePath publicDir request.path.text)))]) := by
  obtain ⟨⟨buffer, hdue⟩, hget, hsafe⟩ := hasked
  have hmiss : (if useCache = 1 then
      lithCacheLookup cache (filePath publicDir request.path.text) else none) = none :=
    hmisses
  have hroute : handleHttpRoute useCache publicDir disk.files cache request =
      (some (diskResponse request (filePath publicDir request.path.text)
        (disk.files (filePath publicDir request.path.text))), cache) := by
    simp [handleHttpRoute, hget, hsafe, serveFile, hmiss]
  exact hdue.answered disk hdisk hroute

/-- The other answers of the router and of the loop. -/
theorem Due.posted {request : HttpRequest} {buffer : Bytes}
    (hdue : Due (Live useCache publicDir Admits cache) session log
      [.routed request buffer]) (habsent : Admits fun _ => .absent)
    (hpost : request.method = .post) :
    Live useCache publicDir Admits cache session
      (log ++ [.answered (postResponse request)]) := by
  have hroute : handleHttpRoute useCache publicDir absentDisk.files cache request =
      (some (postResponse request), cache) := by
    simp [handleHttpRoute, hpost]
  exact hdue.answered absentDisk habsent hroute

theorem Due.forbidden {request : HttpRequest} {buffer : Bytes}
    (hdue : Due (Live useCache publicDir Admits cache) session log
      [.routed request buffer]) (habsent : Admits fun _ => .absent)
    (hget : request.method = .get) (hclimbs : isSafePath request.path.text = false) :
    Live useCache publicDir Admits cache session
      (log ++ [.answered (forbiddenResponse request)]) := by
  have hroute : handleHttpRoute useCache publicDir absentDisk.files cache request =
      (some (forbiddenResponse request), cache) := by
    simp [handleHttpRoute, hget, hclimbs]
  exact hdue.answered absentDisk habsent hroute

theorem Due.rejected (hdue : Due (Live useCache publicDir Admits cache) session log
      [.rejected]) (habsent : Admits fun _ => .absent) :
    Live useCache publicDir Admits cache session
      (log ++ [.answered badRequestResponse]) :=
  hdue.performed absentDisk habsent fun _ _ => rfl

/-- What `send_http_error` is called for settles the answer. -/
theorem SendsError.answered {todo : Serving} {call : ErrorCall}
    (hsends : SendsError publicDir Admits todo call) (habsent : Admits fun _ => .absent)
    (hcalls : ∀ events, todo = .calls events →
      Left useCache publicDir Admits cache session log events)
    (hdisk : ∀ request, todo = .disk request →
      Asked useCache publicDir Admits cache session log request ∧
        Misses useCache publicDir cache request) :
    Live useCache publicDir Admits cache session
      (log ++ [.answered call.response]) := by
  cases hsends with
  | rejected =>
      have hdue : Due (Live useCache publicDir Admits cache) session log [.rejected] :=
        hcalls _ rfl
      exact hdue.rejected habsent
  | forbidden request buffer hget hclimbs =>
      have hdue : Due (Live useCache publicDir Admits cache) session log
          [.routed request buffer] := hcalls _ rfl
      exact hdue.forbidden habsent hget hclimbs
  | missing request disk hadmits hread =>
      obtain ⟨hasked, hmisses⟩ := hdisk request rfl
      have hlive := hasked.fromDisk hmisses disk hadmits
      have hmissing : diskResponse request (filePath publicDir request.path.text)
          (disk.files (filePath publicDir request.path.text)) =
            notFoundResponse request := by
        simp only [diskResponse, hread]
      rw [hmissing] at hlive
      exact hlive

/-! ## How far the model is behind -/

/-- The log is ahead of the connection by the read that is being served, if at all. -/
def Connection.Behind (connection : Connection) (log : List Exchange) : Prop :=
  log = connection.log ∨ connection.session.phase = .reading ∧
    ∃ buffer, log = connection.log ++ [.read buffer]

/-- The model of the connection, at this cache, up to the read that is being served. -/
def Followed (useCache : ℤ) (publicDir : CharArray 256) (Admits : Files → Prop)
    (cache : LithCache) (log : List Exchange) : Prop :=
  ∃ connection : Connection, (admittedSystem Admits useCache publicDir).Reachable connection ∧
    connection.cache = cache ∧ connection.Behind log

theorem Live.followed (hlive : Live useCache publicDir Admits cache session log) :
    Followed useCache publicDir Admits cache log :=
  ⟨_, hlive, rfl, Or.inl rfl⟩

theorem Due.followed {events : List SessionEvent}
    (hdue : Due (Live useCache publicDir Admits cache) session log events) :
    Followed useCache publicDir Admits cache log := by
  cases hdue with
  | @mk before start chunk parsed _ hran hopen hshort hheard hevents =>
      refine ⟨_, hran, rfl, ?_⟩
      rcases Session.parsed_due hopen hheard hevents with
        rfl | ⟨hphase, call, rfl⟩
      · exact Or.inl (List.append_nil _)
      · exact Or.inr ⟨hphase, call.2, rfl⟩

theorem Left.followed {events : List SessionEvent}
    (hleft : Left useCache publicDir Admits cache session log events) :
    Followed useCache publicDir Admits cache log := by
  cases events with
  | nil => exact Live.followed hleft
  | cons event events => exact Due.followed hleft

theorem Connection.Behind.responses {connection : Connection}
    (hbehind : connection.Behind log) :
    log.filterMap Exchange.response = connection.responses := by
  rcases hbehind with rfl | ⟨-, buffer, rfl⟩
  · rfl
  · simp [Connection.responses, Exchange.response]

end Reads

end Lith
