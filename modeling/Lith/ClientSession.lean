import Lith.HttpParser
import Lith.TransitionSystem

/-!
# The keep-alive loop of one TLS connection

`lith_client_handler` after the handshake, as a machine that advances by one
`SSL_read`.  The outer loop waits for a request in `reading`; a `POST` whose
body is not complete waits in `draining` for the inner loop.  A read delivers
a list of bytes, and the empty list stands for a result that is zero or
negative.  The events record the calls of the parser, with the place of the
buffer in the byte stream, and what is handed to the router.
-/

namespace Lith

open CString

def bufferSize : ℕ := 4096

inductive SessionPhase where
  | reading
  | draining (req : HttpRequest) (buffer : Bytes) (bodyReceived : ℤ)
  | closed
  deriving DecidableEq

inductive SessionEvent where
  | parsed (offset : ℕ) (buffer : Bytes)
  | routed (req : HttpRequest) (buffer : Bytes)
  | rejected
  deriving DecidableEq

structure Session where
  phase : SessionPhase
  consumed : ℕ
  events : List SessionEvent
  deriving DecidableEq

def Session.initial : Session := ⟨.reading, 0, []⟩

def Session.asked (session : Session) : ℕ :=
  match session.phase with
  | .reading => bufferSize - 1
  | .draining _ buffer _ => bufferSize - 1 - buffer.length
  | .closed => 0

def Session.record (session : Session) (event : SessionEvent) : Session :=
  { session with events := session.events ++ [event] }

/-- The call of `handle_http_route` and the test of `keep_alive` behind it. -/
def Session.route (session : Session) (req : HttpRequest) (buffer : Bytes) :
    Session :=
  { session.record (.routed req buffer) with
    phase := if req.keepAlive then .reading else .closed }

/-- The condition of the inner loop: read on or leave it for the router. -/
def Session.drain (session : Session) (req : HttpRequest) (buffer : Bytes)
    (bodyReceived : ℤ) : Session :=
  if bodyReceived < req.contentLength ∧ buffer.length < bufferSize - 1 then
    { session with phase := .draining req buffer bodyReceived }
  else session.route req buffer

def initialBodyReceived (req : HttpRequest) (buffer : Bytes) : ℤ :=
  match req.bodyStart with
  | some start => buffer.length - start
  | none => 0

def Session.accept (session : Session) (buffer : Bytes) : Session :=
  match parseHttpRequest buffer with
  | none => { session.record .rejected with phase := .closed }
  | some req =>
      if req.method = .post ∧ 0 < req.contentLength then
        session.drain req buffer (initialBodyReceived req buffer)
      else session.route req buffer

def Session.step (session : Session) (chunk : Bytes) : Session :=
  match session.phase with
  | .closed => session
  | .reading =>
      if chunk = [] then { session with phase := .closed }
      else
        Session.accept
          { session with
            consumed := session.consumed + chunk.length
            events := session.events ++ [.parsed session.consumed chunk] } chunk
  | .draining req buffer bodyReceived =>
      if chunk = [] then session.route req buffer
      else
        Session.drain { session with consumed := session.consumed + chunk.length }
          req (buffer ++ chunk) (bodyReceived + chunk.length)

def Session.run (session : Session) (chunks : List Bytes) : Session :=
  chunks.foldl Session.step session

/-- All connections: every read stays within the space that was asked for. -/
def sessionSystem : TransitionSystem Session Bytes where
  start := fun session => session = Session.initial
  step := fun session chunk after =>
    session.phase ≠ .closed ∧ chunk.length ≤ session.asked ∧
      after = session.step chunk

@[simp] theorem Session.run_nil (session : Session) :
    session.run [] = session := rfl

@[simp] theorem Session.run_cons (session : Session) (chunk : Bytes)
    (rest : List Bytes) :
    session.run (chunk :: rest) = (session.step chunk).run rest := rfl

theorem Session.run_append (session : Session) (before after : List Bytes) :
    session.run (before ++ after) = (session.run before).run after := by
  simp [Session.run]

theorem Session.step_closed {session : Session}
    (hclosed : session.phase = .closed) (chunk : Bytes) :
    session.step chunk = session := by
  simp [Session.step, hclosed]

theorem Session.run_closed {session : Session}
    (hclosed : session.phase = .closed) (chunks : List Bytes) :
    session.run chunks = session := by
  induction chunks with
  | nil => rfl
  | cons chunk rest ih => rw [Session.run_cons, step_closed hclosed, ih]

end Lith
