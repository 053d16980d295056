import Lith.BodyBuffer
import Lith.Decimal
import Lith.FieldSearch
import Lith.HttpRouter

/-!
# The number of bytes that a `POST` is told

The reply to a `POST` states how many bytes were processed.  The router prints
the announced length; what arrived is known to the loop that reads the body.
The two agree exactly if the announced length is not negative, that many bytes
of the body arrive within the buffer and before a read fails, and, when the
head did not arrive whole, the reads do not bring that many bytes before the
body itself has them.
-/

namespace Lith

open CString

/-- The buffer that the router is called with. -/
def routedBuffer (reads : SslReads) (req : HttpRequest) (first : Bytes) :
    Bytes :=
  if req.method = .post ∧ 0 < req.contentLength then
    match bodyLoop reads req first bufferSize with
    | .left loop _ => loop.memory.take loop.received.toNat
    | _ => first
  else first

variable {reads : SslReads} {req : HttpRequest} {first : Bytes}

theorem routedBuffer_eq (reads : SslReads)
    (hfirst : first.length ≤ bufferSize - 1)
    (hpost : req.method = .post) (hpos : 0 < req.contentLength) :
    ∃ loop failed n, routedBuffer reads req first = reads.arrived first n ∧
      bodyLoop reads req first n = .looping loop ∧
      loop.Holds reads req first n ∧ loop.LeftAt reads req first n failed := by
  obtain ⟨loop, failed, n, hleft, hloop, hholds, hwhy⟩ :=
    exists_left reads req hfirst
  refine ⟨loop, failed, n, ?_, hloop, hholds, hwhy⟩
  unfold routedBuffer
  rw [if_pos ⟨hpost, hpos⟩, hleft]
  exact hholds.contents

/-- The session calls the router with this buffer. -/
theorem routed_routedBuffer (hparse : parseHttpRequest first = some req)
    (hpost : req.method = .post) (hfirst : first.length ≤ bufferSize - 1)
    (reads : SslReads) (session : Session) :
    ∃ count, ((session.accept first).run (reads.chunks first count)).events =
      session.events ++ [.routed req (routedBuffer reads req first)] := by
  by_cases hpos : 0 < req.contentLength
  · obtain ⟨loop, failed, n, hrouted, hloop, -, hwhy⟩ :=
      routedBuffer_eq reads hfirst hpost hpos
    have haccept : session.accept first =
        session.drain req first (initialBodyReceived req first) := by
      simp [Session.accept, hparse, hpost, hpos]
    rw [haccept, hrouted]
    exact exists_routed hfirst session hloop hwhy
  · refine ⟨0, ?_⟩
    simp [Session.accept, hparse, hpos, routedBuffer, SslReads.chunks,
      Session.route, Session.record]

end Lith
