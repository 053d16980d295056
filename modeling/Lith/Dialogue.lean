import Lith.ClientSession
import Lith.ResponseHeaders

/-!
# Requests and responses of a connection

A connection is the keep-alive loop together with what it says to the client.
Its log holds the outer reads and the responses.  Between two of its own reads
other workers may reload entries of the shared cache, whatever time they have.

The log of every run is a dialogue: a successful outer read is answered once,
by the error page for malformed requests or by the router; an answer that
announces to keep the connection is followed by the next outer read, and one
that announces to close it is the last word.
-/

namespace Lith

open CString

inductive Exchange where
  | read (buffer : Bytes)
  | answered (response : HttpResponse)
  | hungUp
  deriving DecidableEq

structure Connection where
  session : Session
  cache : LithCache
  log : List Exchange

namespace Connection

/-- What an event of the loop means for the client and for the cache. -/
def perform (useCache : ℤ) (publicDir : CharArray 256) (files : Files)
    (connection : Connection) : SessionEvent → Connection
  | .parsed _ buffer =>
      { connection with log := connection.log ++ [.read buffer] }
  | .rejected =>
      { connection with
        log := connection.log ++ [.answered badRequestResponse] }
  | .routed req _ =>
      let routed := handleHttpRoute useCache publicDir files connection.cache req
      { connection with
        cache := routed.2
        log := connection.log ++ (routed.1.map Exchange.answered).toList }

/-- One `SSL_read` of the loop and what follows it. -/
def own (useCache : ℤ) (publicDir : CharArray 256) (files : Files)
    (connection : Connection) (chunk : Bytes) : Connection :=
  let session := connection.session.step chunk
  let heard : Connection :=
    if connection.session.phase = .reading ∧ chunk = [] then
      { connection with log := connection.log ++ [.hungUp] }
    else connection
  { (session.events.drop connection.session.events.length).foldl
      (perform useCache publicDir files) heard with
    session := session }

end Connection

/-- `lith_cache_hot_reload` of a slot. -/
def LithCache.reload (cache : LithCache) (files : Files) (idx : Fin maxCacheEntries) :
    LithCache :=
  cache.setEntry idx (lithCacheHotReload (cache.entries idx)
    (files (cache.entries idx).filepath.text)).2

inductive ConnectionLabel where
  | own (disk : Disk) (chunk : Bytes)
  | others (disk : Disk) (idx : Fin maxCacheEntries)

def connectionSystem (useCache : ℤ) (publicDir : CharArray 256) :
    TransitionSystem Connection ConnectionLabel where
  start := fun connection =>
    connection.session = Session.initial ∧ connection.log = [] ∧
      ∃ files, connection.cache = threadPoolInitCache publicDir.text files
  step := fun connection label after =>
    match label with
    | .own disk chunk =>
        connection.session.phase ≠ .closed ∧
          chunk.length ≤ connection.session.asked ∧
          after = connection.own useCache publicDir disk.files chunk
    | .others disk idx =>
        idx.val < connection.cache.entryCount ∧
          after = { connection with
            cache := connection.cache.reload disk.files idx }

/-! ## The grammar of the log -/

inductive Turn where
  | waiting
  | serving (first : Bytes)
  | finished

/-- The answer that the first read of a request should get. -/
def ProperAnswer (useCache : ℤ) (publicDir : CharArray 256) (first : Bytes)
    (response : HttpResponse) : Prop :=
  match parseHttpRequest first with
  | none => response = badRequestResponse
  | some req => ∃ (disk : Disk) (cache : LithCache),
      (handleHttpRoute useCache publicDir disk.files cache req).1 = some response

inductive Dialogue (useCache : ℤ) (publicDir : CharArray 256) :
    Turn → List Exchange → Prop where
  | opened : Dialogue useCache publicDir .waiting []
  | asks {log : List Exchange} (first : Bytes)
      (hlog : Dialogue useCache publicDir .waiting log) :
      Dialogue useCache publicDir (.serving first) (log ++ [.read first])
  | keeps {log : List Exchange} {first : Bytes} {response : HttpResponse}
      (hlog : Dialogue useCache publicDir (.serving first) log)
      (hproper : ProperAnswer useCache publicDir first response)
      (hkeeps : announced response = some true) :
      Dialogue useCache publicDir .waiting (log ++ [.answered response])
  | closes {log : List Exchange} {first : Bytes} {response : HttpResponse}
      (hlog : Dialogue useCache publicDir (.serving first) log)
      (hproper : ProperAnswer useCache publicDir first response)
      (hcloses : announced response = some false) :
      Dialogue useCache publicDir .finished (log ++ [.answered response])
  | hangsUp {log : List Exchange}
      (hlog : Dialogue useCache publicDir .waiting log) :
      Dialogue useCache publicDir .finished (log ++ [.hungUp])

/-- Whose turn it is in a phase of the loop. -/
def SessionPhase.Follows : SessionPhase → Turn → Prop
  | .reading, .waiting => True
  | .draining req _ _, .serving first => parseHttpRequest first = some req
  | .closed, .finished => True
  | _, _ => False

theorem SessionPhase.follows_waiting_iff {phase : SessionPhase} :
    phase.Follows .waiting ↔ phase = .reading := by
  cases phase <;> simp [Follows]

theorem SessionPhase.follows_finished_iff {phase : SessionPhase} :
    phase.Follows .finished ↔ phase = .closed := by
  cases phase <;> simp [Follows]

theorem SessionPhase.follows_serving_iff {phase : SessionPhase} {first : Bytes} :
    phase.Follows (.serving first) ↔ ∃ req buffer bodyReceived,
      phase = .draining req buffer bodyReceived ∧
        parseHttpRequest first = some req := by
  cases phase <;> simp [Follows]

/-! ## One read -/

/-- The phase behind the call of the router. -/
def SessionPhase.afterRoute (req : HttpRequest) : SessionPhase :=
  if req.keepAlive then .reading else .closed

theorem Session.drain_cases (session : Session) (req : HttpRequest)
    (buffer : Bytes) (bodyReceived : ℤ) :
    ((session.drain req buffer bodyReceived).phase =
          .draining req buffer bodyReceived ∧
        (session.drain req buffer bodyReceived).events = session.events ∧
        buffer.length < bufferSize - 1) ∨
      ((session.drain req buffer bodyReceived).phase = .afterRoute req ∧
        (session.drain req buffer bodyReceived).events =
          session.events ++ [SessionEvent.routed req buffer]) := by
  unfold Session.drain
  split_ifs with hguard
  · exact Or.inl ⟨rfl, rfl, hguard.2⟩
  · exact Or.inr ⟨rfl, rfl⟩

theorem Session.step_reading {session : Session} {chunk : Bytes}
    (hphase : session.phase = .reading) (hchunk : chunk ≠ []) :
    (parseHttpRequest chunk = none ∧ (session.step chunk).phase = .closed ∧
        (session.step chunk).events =
          session.events ++
            [SessionEvent.parsed session.consumed chunk, .rejected]) ∨
      ∃ req, parseHttpRequest chunk = some req ∧
        (((session.step chunk).phase = .afterRoute req ∧
            (session.step chunk).events = session.events ++
              [SessionEvent.parsed session.consumed chunk, .routed req chunk]) ∨
          ∃ bodyReceived,
            (session.step chunk).phase = .draining req chunk bodyReceived ∧
            (session.step chunk).events =
              session.events ++ [SessionEvent.parsed session.consumed chunk]) := by
  simp only [Session.step, hphase, if_neg hchunk]
  generalize hparsed : Session.mk .reading (session.consumed + chunk.length)
    (session.events ++ [SessionEvent.parsed session.consumed chunk]) = parsed
  have hevents : parsed.events =
      session.events ++ [SessionEvent.parsed session.consumed chunk] := by rw [← hparsed]
  unfold Session.accept
  cases hparse : parseHttpRequest chunk with
  | none =>
      left
      simp [Session.record, hevents]
  | some req =>
      right
      refine ⟨req, rfl, ?_⟩
      simp only
      split_ifs
      · rcases Session.drain_cases parsed req chunk
            (initialBodyReceived req chunk) with ⟨hnext, hsame, -⟩ | ⟨hnext, hlog⟩
        · exact Or.inr ⟨_, hnext, by rw [hsame, hevents]⟩
        · exact Or.inl ⟨hnext, by rw [hlog, hevents]; simp⟩
      · left
        exact ⟨rfl, by simp [Session.route, Session.record, hevents]⟩

theorem Session.step_draining {session : Session} {req : HttpRequest}
    {buffer : Bytes} {bodyReceived : ℤ}
    (hphase : session.phase = .draining req buffer bodyReceived) (chunk : Bytes) :
    ((session.step chunk).phase = .afterRoute req ∧
        ∃ routed, (session.step chunk).events =
          session.events ++ [SessionEvent.routed req routed]) ∨
      (chunk ≠ [] ∧ (buffer ++ chunk).length < bufferSize - 1 ∧
        (session.step chunk).phase =
          .draining req (buffer ++ chunk) (bodyReceived + chunk.length) ∧
        (session.step chunk).events = session.events) := by
  simp only [Session.step, hphase]
  split_ifs with hchunk
  · exact Or.inl ⟨rfl, buffer, rfl⟩
  · rcases Session.drain_cases { session with
        consumed := session.consumed + chunk.length } req (buffer ++ chunk)
        (bodyReceived + chunk.length) with ⟨hnext, hsame, hroom⟩ | ⟨hnext, hlog⟩
    · exact Or.inr ⟨hchunk, hroom, by simpa [hphase] using hnext,
        by simpa [hphase] using hsame⟩
    · exact Or.inl ⟨by simpa [hphase] using hnext, _, by simpa [hphase] using hlog⟩

variable {useCache : ℤ} {publicDir : CharArray 256}

structure Connection.Speaks (useCache : ℤ) (publicDir : CharArray 256)
    (connection : Connection) : Prop where
  plain : connection.cache.All PlainEntry
  dialogue : ∃ turn, connection.session.phase.Follows turn ∧
    Dialogue useCache publicDir turn connection.log

/-- The router has the last word in a turn and decides who speaks next. -/
theorem Dialogue.answer {first : Bytes} {log : List Exchange} {req : HttpRequest}
    (hlog : Dialogue useCache publicDir (.serving first) log)
    (hparse : parseHttpRequest first = some req) {cache : LithCache}
    (hplain : cache.All PlainEntry) (disk : Disk) :
    ∃ turn, (SessionPhase.afterRoute req).Follows turn ∧
      Dialogue useCache publicDir turn (log ++
        ((handleHttpRoute useCache publicDir disk.files cache req).1.map
          Exchange.answered).toList) := by
  obtain ⟨response, hresponse, hannounced⟩ := exists_announced_handleHttpRoute
    hplain useCache publicDir disk hparse
  have hproper : ProperAnswer useCache publicDir first response := by
    unfold ProperAnswer
    rw [hparse]
    exact ⟨disk, cache, hresponse⟩
  rw [hresponse]
  unfold SessionPhase.afterRoute
  cases halive : req.keepAlive with
  | true => exact ⟨.waiting, trivial, hlog.keeps hproper (halive ▸ hannounced)⟩
  | false => exact ⟨.finished, trivial, hlog.closes hproper (halive ▸ hannounced)⟩

theorem Connection.own_eq {connection : Connection} {files : Files}
    {chunk : Bytes} {events : List SessionEvent}
    (hheard : ¬(connection.session.phase = .reading ∧ chunk = []))
    (hevents : (connection.session.step chunk).events =
      connection.session.events ++ events) :
    connection.own useCache publicDir files chunk =
      { events.foldl (perform useCache publicDir files) connection with
        session := connection.session.step chunk } := by
  unfold own
  simp only [if_neg hheard, hevents, List.drop_left]

theorem Connection.Speaks.own_reading {connection : Connection}
    (hspeaks : connection.Speaks useCache publicDir) (disk : Disk)
    (chunk : Bytes) (hphase : connection.session.phase = .reading) :
    (connection.own useCache publicDir disk.files chunk).Speaks
      useCache publicDir := by
  obtain ⟨hplain, turn, hfollows, hlog⟩ := hspeaks
  rw [hphase] at hfollows
  cases turn with
  | serving first => exact absurd hfollows (by simp [SessionPhase.Follows])
  | finished => exact absurd hfollows (by simp [SessionPhase.Follows])
  | waiting =>
      by_cases hchunk : chunk = []
      · have hown : connection.own useCache publicDir disk.files chunk =
            { connection with
              session := { connection.session with phase := .closed }
              log := connection.log ++ [.hungUp] } := by
          simp [Connection.own, hphase, hchunk, Session.step]
        rw [hown]
        exact ⟨hplain, .finished, trivial, hlog.hangsUp⟩
      · have hheard : ¬(connection.session.phase = .reading ∧ chunk = []) :=
          fun h => hchunk h.2
        have hasks := hlog.asks chunk
        rcases Session.step_reading hphase hchunk with
          ⟨hparse, hnext, hevents⟩ |
            ⟨req, hparse, ⟨hnext, hevents⟩ | ⟨bodyReceived, hnext, hevents⟩⟩
        · rw [Connection.own_eq hheard hevents]
          refine ⟨hplain, .finished, by rw [hnext]; trivial, ?_⟩
          apply hasks.closes _ announced_badRequestResponse
          simp [ProperAnswer, hparse]
        · rw [Connection.own_eq hheard hevents]
          refine ⟨plainCache_handleHttpRoute hplain useCache publicDir
            disk.files req, ?_⟩
          rw [hnext]
          exact hasks.answer hparse hplain disk
        · rw [Connection.own_eq hheard hevents]
          exact ⟨hplain, .serving chunk, by rw [hnext]; exact hparse, hasks⟩

theorem Connection.Speaks.own_draining {connection : Connection}
    (hspeaks : connection.Speaks useCache publicDir) (disk : Disk)
    (chunk : Bytes) {req : HttpRequest} {buffer : Bytes} {bodyReceived : ℤ}
    (hphase : connection.session.phase = .draining req buffer bodyReceived) :
    (connection.own useCache publicDir disk.files chunk).Speaks
      useCache publicDir := by
  obtain ⟨hplain, turn, hfollows, hlog⟩ := hspeaks
  rw [hphase] at hfollows
  have hheard : ¬(connection.session.phase = .reading ∧ chunk = []) := by
    simp [hphase]
  cases turn with
  | waiting => exact absurd hfollows (by simp [SessionPhase.Follows])
  | finished => exact absurd hfollows (by simp [SessionPhase.Follows])
  | serving first =>
      have hparse : parseHttpRequest first = some req := hfollows
      rcases Session.step_draining hphase chunk with
        ⟨hnext, routed, hevents⟩ | ⟨-, -, hnext, hevents⟩
      · rw [Connection.own_eq hheard hevents]
        refine ⟨plainCache_handleHttpRoute hplain useCache publicDir
          disk.files req, ?_⟩
        rw [hnext]
        exact hlog.answer hparse hplain disk
      · rw [Connection.own_eq hheard (hevents.trans (List.append_nil _).symm)]
        exact ⟨hplain, .serving first, by rw [hnext]; exact hparse, hlog⟩

theorem Connection.Speaks.own {connection : Connection}
    (hspeaks : connection.Speaks useCache publicDir) (disk : Disk)
    (chunk : Bytes) (hopen : connection.session.phase ≠ .closed) :
    (connection.own useCache publicDir disk.files chunk).Speaks
      useCache publicDir := by
  cases hphase : connection.session.phase with
  | closed => exact absurd hphase hopen
  | reading => exact hspeaks.own_reading disk chunk hphase
  | draining req buffer bodyReceived =>
      exact hspeaks.own_draining disk chunk hphase

theorem Connection.speaks_of_reachable {connection : Connection}
    (hreach : (connectionSystem useCache publicDir).Reachable connection) :
    connection.Speaks useCache publicDir := by
  apply hreach.invariant
  · rintro first ⟨hsession, hlog, files, hcache⟩
    refine ⟨hcache ▸ plainCache_init publicDir.text files, .waiting, ?_, ?_⟩
    · rw [hsession]
      trivial
    · rw [hlog]
      exact .opened
  · rintro before label after hspeaks hstep
    cases label with
    | own disk chunk =>
        obtain ⟨hopen, -, rfl⟩ := hstep
        exact hspeaks.own disk chunk hopen
    | others disk idx =>
        obtain ⟨hactive, rfl⟩ := hstep
        have hentry := plainEntry_lithCacheHotReload (hspeaks.plain idx hactive)
        exact ⟨hspeaks.plain.setEntry (hentry _) idx, hspeaks.dialogue⟩

/-! ## What follows a read and what follows an answer -/

/-- A call of the outer `SSL_read`, successful or not. -/
def Exchange.IsOuterRead : Exchange → Prop
  | .read _ => True
  | .answered _ => False
  | .hungUp => True

theorem append_singleton_eq_iff {α : Type} {log before after : List α} {last item : α} :
    log ++ [last] = before ++ item :: after ↔
      (after = [] ∧ log = before ∧ last = item) ∨
        ∃ rest, after = rest ++ [last] ∧ log = before ++ item :: rest := by
  rcases List.eq_nil_or_concat after with rfl | ⟨rest, final, rfl⟩
  · simp
  · have hassoc : before ++ item :: rest.concat final =
        (before ++ item :: rest) ++ [final] := by simp
    rw [hassoc]
    constructor
    · intro heq
      obtain ⟨hlog, hlast⟩ := List.append_inj' heq rfl
      exact Or.inr ⟨rest, by simpa using hlast.symm, hlog⟩
    · rintro (⟨hnil, -⟩ | ⟨other, hrest, rfl⟩)
      · simp at hnil
      · rw [List.concat_eq_append] at hrest
        obtain ⟨rfl, hlast⟩ := List.append_inj' hrest rfl
        rw [hlast]

/-- A read is answered once, by the answer that it should get. -/
theorem Dialogue.after_read {turn : Turn} {log : List Exchange}
    (hlog : Dialogue useCache publicDir turn log) {before after : List Exchange}
    {first : Bytes} (hsplit : log = before ++ .read first :: after) :
    (after = [] ∧ turn = .serving first) ∨
      ∃ response rest, after = .answered response :: rest ∧
        ProperAnswer useCache publicDir first response := by
  induction hlog generalizing after with
  | opened => simp at hsplit
  | asks other hlog ih =>
      rcases append_singleton_eq_iff.mp hsplit with
        ⟨rfl, -, hlast⟩ | ⟨rest, rfl, hrest⟩
      · rw [Exchange.read.injEq] at hlast
        exact Or.inl ⟨rfl, by rw [hlast]⟩
      · rcases ih hrest with ⟨-, hturn⟩ | ⟨response, rest, rfl, hproper⟩
        · simp at hturn
        · exact Or.inr ⟨response, _, rfl, hproper⟩
  | keeps hlog hproper _ ih =>
      rcases append_singleton_eq_iff.mp hsplit with
        ⟨-, -, hlast⟩ | ⟨rest, rfl, hrest⟩
      · simp at hlast
      · rcases ih hrest with ⟨rfl, hturn⟩ | ⟨response, rest, rfl, hproper⟩
        · rw [Turn.serving.injEq] at hturn
          exact Or.inr ⟨_, [], rfl, hturn ▸ hproper⟩
        · exact Or.inr ⟨response, _, rfl, hproper⟩
  | closes hlog hproper _ ih =>
      rcases append_singleton_eq_iff.mp hsplit with
        ⟨-, -, hlast⟩ | ⟨rest, rfl, hrest⟩
      · simp at hlast
      · rcases ih hrest with ⟨rfl, hturn⟩ | ⟨response, rest, rfl, hproper⟩
        · rw [Turn.serving.injEq] at hturn
          exact Or.inr ⟨_, [], rfl, hturn ▸ hproper⟩
        · exact Or.inr ⟨response, _, rfl, hproper⟩
  | hangsUp hlog ih =>
      rcases append_singleton_eq_iff.mp hsplit with
        ⟨-, -, hlast⟩ | ⟨rest, rfl, hrest⟩
      · simp at hlast
      · rcases ih hrest with ⟨-, hturn⟩ | ⟨response, rest, rfl, hproper⟩
        · simp at hturn
        · exact Or.inr ⟨response, _, rfl, hproper⟩

/-- The words of an answer and what the worker does next. -/
def KeepsWord (response : HttpResponse) (turn : Turn) (after : List Exchange) :
    Prop :=
  (announced response = some true ∧
      (after = [] ∧ turn = .waiting ∨
        ∃ next rest, after = next :: rest ∧ next.IsOuterRead)) ∨
    (announced response = some false ∧ after = [] ∧ turn = .finished)

theorem KeepsWord.outerRead {response : HttpResponse} {after : List Exchange}
    (hword : KeepsWord response .waiting after) (next : Exchange)
    (hnext : next.IsOuterRead) (turn : Turn) :
    KeepsWord response turn (after ++ [next]) := by
  rcases hword with ⟨hkeeps, ⟨rfl, -⟩ | ⟨first, rest, rfl, hfirst⟩⟩ | ⟨-, -, hturn⟩
  · exact Or.inl ⟨hkeeps, Or.inr ⟨next, [], rfl, hnext⟩⟩
  · exact Or.inl ⟨hkeeps, Or.inr ⟨first, _, rfl, hfirst⟩⟩
  · simp at hturn

theorem KeepsWord.answer {response : HttpResponse} {first : Bytes}
    {after : List Exchange} (hword : KeepsWord response (.serving first) after)
    (next : Exchange) (turn : Turn) : KeepsWord response turn (after ++ [next]) := by
  rcases hword with ⟨hkeeps, ⟨-, hturn⟩ | ⟨other, rest, rfl, hother⟩⟩ | ⟨-, -, hturn⟩
  · simp at hturn
  · exact Or.inl ⟨hkeeps, Or.inr ⟨other, _, rfl, hother⟩⟩
  · simp at hturn

/-- An answer stands behind the read it answers, and its announcement is what
happens next. -/
theorem Dialogue.after_answer {turn : Turn} {log : List Exchange}
    (hlog : Dialogue useCache publicDir turn log) {before after : List Exchange}
    {response : HttpResponse}
    (hsplit : log = before ++ .answered response :: after) :
    KeepsWord response turn after := by
  induction hlog generalizing after with
  | opened => simp at hsplit
  | asks other hlog ih =>
      rcases append_singleton_eq_iff.mp hsplit with
        ⟨-, -, hlast⟩ | ⟨rest, rfl, hrest⟩
      · simp at hlast
      · exact (ih hrest).outerRead (.read other) trivial _
  | keeps hlog hproper hkeeps ih =>
      rcases append_singleton_eq_iff.mp hsplit with
        ⟨rfl, -, hlast⟩ | ⟨rest, rfl, hrest⟩
      · rw [Exchange.answered.injEq] at hlast
        exact Or.inl ⟨hlast ▸ hkeeps, Or.inl ⟨rfl, rfl⟩⟩
      · exact (ih hrest).answer _ _
  | closes hlog hproper hcloses ih =>
      rcases append_singleton_eq_iff.mp hsplit with
        ⟨rfl, -, hlast⟩ | ⟨rest, rfl, hrest⟩
      · rw [Exchange.answered.injEq] at hlast
        exact Or.inr ⟨hlast ▸ hcloses, rfl, rfl⟩
      · exact (ih hrest).answer _ _
  | hangsUp hlog ih =>
      rcases append_singleton_eq_iff.mp hsplit with
        ⟨-, -, hlast⟩ | ⟨rest, rfl, hrest⟩
      · simp at hlast
      · exact (ih hrest).outerRead .hungUp trivial _

/-- A worker that reads a body comes to its answer after a full buffer. -/
theorem Session.exists_not_draining {session : Session} {req : HttpRequest}
    {buffer : Bytes} {bodyReceived : ℤ}
    (hphase : session.phase = .draining req buffer bodyReceived) {room : ℕ}
    (hroom : bufferSize - 1 ≤ buffer.length + room) {chunks : List Bytes}
    (hchunks : room < chunks.length) :
    ∃ n ≤ room + 1, (session.run (chunks.take n)).phase = .afterRoute req := by
  induction room generalizing session buffer bodyReceived chunks with
  | zero =>
      obtain ⟨chunk, rest, rfl⟩ := List.exists_cons_of_length_pos hchunks
      refine ⟨1, by omega, ?_⟩
      rcases Session.step_draining hphase chunk with ⟨hnext, -⟩ | ⟨-, hshort, -, -⟩
      · simpa using hnext
      · rw [List.length_append] at hshort
        omega
  | succ room ih =>
      obtain ⟨chunk, rest, rfl⟩ :=
        List.exists_cons_of_length_pos (Nat.lt_of_le_of_lt (Nat.zero_le _) hchunks)
      rcases Session.step_draining hphase chunk with
        ⟨hnext, -⟩ | ⟨hchunk, -, hnext, -⟩
      · exact ⟨1, by omega, by simpa using hnext⟩
      · have hpos := List.length_pos_iff.mpr hchunk
        rw [List.length_cons] at hchunks
        have hroom' : bufferSize - 1 ≤ (buffer ++ chunk).length + room := by
          rw [List.length_append]
          omega
        obtain ⟨n, hn, hended⟩ := ih hnext hroom' (show room < rest.length by omega)
        exact ⟨n + 1, by omega, by simpa using hended⟩

/-- The log of a connection, at any moment of any run: an outer read that is
not the last entry is followed by its answer, and the last one is answered
after a bounded number of reads; an answer that announces to keep the
connection is followed by an outer read, or the worker waits in one; an answer
that announces to close it is the last entry of a connection that is closed. -/
theorem connection_dialogue {connection : Connection}
    (hreach : (connectionSystem useCache publicDir).Reachable connection) :
    (∀ before first after, connection.log = before ++ .read first :: after →
      (after = [] ∧ ∃ req buffer bodyReceived,
          parseHttpRequest first = some req ∧
          connection.session.phase = .draining req buffer bodyReceived ∧
          ∀ chunks : List Bytes, bufferSize ≤ chunks.length →
            ∃ n ≤ bufferSize,
              (connection.session.run (chunks.take n)).phase =
                .afterRoute req) ∨
        ∃ response rest, after = .answered response :: rest ∧
          ProperAnswer useCache publicDir first response) ∧
    (∀ before response after,
      connection.log = before ++ .answered response :: after →
        (announced response = some true ∧
            (after = [] ∧ connection.session.phase = .reading ∨
              ∃ next rest, after = next :: rest ∧ next.IsOuterRead)) ∨
          (announced response = some false ∧ after = [] ∧
            connection.session.phase = .closed)) ∧
    ∃ turn, connection.session.phase.Follows turn ∧
      Dialogue useCache publicDir turn connection.log := by
  obtain ⟨-, turn, hfollows, hlog⟩ := Connection.speaks_of_reachable hreach
  refine ⟨?_, ?_, turn, hfollows, hlog⟩
  · intro before first after hsplit
    rcases hlog.after_read hsplit with ⟨hafter, rfl⟩ | hanswered
    · obtain ⟨req, buffer, bodyReceived, hphase, hparse⟩ :=
        SessionPhase.follows_serving_iff.mp hfollows
      refine Or.inl ⟨hafter, req, buffer, bodyReceived, hparse, hphase, ?_⟩
      intro chunks hchunks
      have hroom : bufferSize - 1 ≤ buffer.length + (bufferSize - 1) := by omega
      have hpos : 0 < bufferSize := by decide
      obtain ⟨n, hn, hended⟩ := Session.exists_not_draining hphase hroom
        (show bufferSize - 1 < chunks.length by omega)
      exact ⟨n, by omega, hended⟩
    · exact Or.inr hanswered
  · intro before response after hsplit
    rcases hlog.after_answer hsplit with
      ⟨hkeeps, ⟨hafter, rfl⟩ | hnext⟩ | ⟨hcloses, hafter, rfl⟩
    · exact Or.inl ⟨hkeeps, Or.inl ⟨hafter,
        SessionPhase.follows_waiting_iff.mp hfollows⟩⟩
    · exact Or.inl ⟨hkeeps, Or.inr hnext⟩
    · exact Or.inr ⟨hcloses, hafter, SessionPhase.follows_finished_iff.mp hfollows⟩

/-- A client that asks for a missing file and keeps the connection. -/
def askedOnce (connection : Connection) : Connection :=
  connection.own 0 (strncpy 255 (ascii "public")) (fun _ => .absent)
    (ascii "GET /a HTTP/1.1\r\n\r\n")

def firstConnection : Connection where
  session := Session.initial
  cache := threadPoolInitCache (strncpy 255 (ascii "public")).text
    fun _ => .absent
  log := []

theorem connection_dialogue_askedOnce :
    (connectionSystem 0 (strncpy 255 (ascii "public"))).Reachable
        (askedOnce firstConnection) ∧
      ∀ before response after, (askedOnce firstConnection).log =
          before ++ .answered response :: after →
        (announced response = some true ∧
            (after = [] ∧ (askedOnce firstConnection).session.phase = .reading ∨
              ∃ next rest, after = next :: rest ∧ next.IsOuterRead)) ∨
          (announced response = some false ∧ after = [] ∧
            (askedOnce firstConnection).session.phase = .closed) := by
  have hreach : (connectionSystem 0 (strncpy 255 (ascii "public"))).Reachable
      (askedOnce firstConnection) :=
    .next (.start ⟨rfl, rfl, fun _ => .absent, rfl⟩)
      (.own ⟨fun _ => .absent, fun _ => by decide⟩ (ascii "GET /a HTTP/1.1\r\n\r\n"))
      ⟨by decide, by decide, rfl⟩
  exact ⟨hreach, (connection_dialogue hreach).2.1⟩

end Lith
