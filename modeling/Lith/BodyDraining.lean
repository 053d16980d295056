import Lith.ClientSession
import Lith.HeadParsing

/-!
# Bodies that are read as requests

A request announces the length of the body behind its head.  Nothing of that
body may reach the parser as the start of a new request.  The keep-alive loop
guarantees this for runs in which every announced body is taken from the
stream before the next outer read: it arrived together with its head, or it
belongs to a `POST`, fits the buffer and no read fails before its end, or the
session is closed after the response.

The head ends at the first blank line of what was received.  The parser looks
for it in the C string of the buffer, so that a NUL in the head hides it; the
inner loop then counts from the end of the first read and takes at least as much.
-/

namespace Lith

open CString

/-- The end of a head that has arrived whole. -/
def headEnd (buffer : Bytes) : Option ℕ :=
  (strstr blankLine buffer).map (· + 4)

/-- The places of the stream that the body of an accepted request occupies,
when its head arrived whole. -/
def SessionEvent.declaredBody : SessionEvent → Option (ℤ × ℤ)
  | .parsed offset buffer =>
      (parseHttpRequest buffer).bind fun req =>
        (headEnd buffer).bind fun start =>
          if 0 < req.contentLength then
            some (offset + start, offset + start + req.contentLength)
          else none
  | .routed _ _ => none
  | .rejected => none

def SessionEvent.parseOffset : SessionEvent → Option ℤ
  | .parsed offset _ => some offset
  | .routed _ _ => none
  | .rejected => none

/-- No later call of the parser starts inside a declared body. -/
def BodiesNotParsed (events : List SessionEvent) : Prop :=
  events.Pairwise fun earlier later =>
    ∀ body ∈ earlier.declaredBody, ∀ offset ∈ later.parseOffset,
      ¬(body.1 ≤ offset ∧ offset < body.2)

instance (events : List SessionEvent) : Decidable (BodiesNotParsed events) :=
  inferInstanceAs (Decidable (List.Pairwise _ _))

/-- What the next read must bring for the announced body to be consumed. -/
def DrainsBody (session : Session) (chunk : Bytes) : Prop :=
  match session.phase with
  | .reading =>
      ∀ req ∈ parseHttpRequest chunk, ∀ start ∈ headEnd chunk,
        0 < req.contentLength → req.keepAlive = true →
          start + req.contentLength ≤ chunk.length ∨
            (req.method = .post ∧ start + req.contentLength ≤ bufferSize - 1)
  | .draining req _ _ =>
      chunk = [] → req.keepAlive = true →
        ∀ event ∈ session.events.getLast?, ∀ body ∈ event.declaredBody,
          body.2 ≤ session.consumed
  | .closed => True

instance (session : Session) (chunk : Bytes) :
    Decidable (DrainsBody session chunk) := by
  unfold DrainsBody
  cases session.phase <;> infer_instance

def Settled (events : List SessionEvent) (consumed : ℤ) : Prop :=
  ∀ event ∈ events, ∀ body ∈ event.declaredBody, body.2 ≤ consumed

theorem Settled.mono {events : List SessionEvent} {consumed later : ℤ}
    (hsettled : Settled events consumed) (hle : consumed ≤ later) :
    Settled events later := by
  intro event hevent body hbody
  exact (hsettled event hevent body hbody).trans hle

theorem Settled.append {before after : List SessionEvent} {consumed : ℤ}
    (hbefore : Settled before consumed) (hafter : Settled after consumed) :
    Settled (before ++ after) consumed := by
  intro event hevent
  rcases List.mem_append.mp hevent with hevent | hevent
  · exact hbefore event hevent
  · exact hafter event hevent

theorem settled_singleton {event : SessionEvent} {consumed : ℤ}
    (hevent : ∀ body ∈ event.declaredBody, body.2 ≤ consumed) :
    Settled [event] consumed := by
  intro other hother
  rw [List.mem_singleton] at hother
  subst hother
  exact hevent

theorem mem_declaredBody_parsed {offset : ℕ} {buffer : Bytes} {req : HttpRequest}
    (hparse : parseHttpRequest buffer = some req) {body : ℤ × ℤ} :
    body ∈ (SessionEvent.parsed offset buffer).declaredBody ↔
      ∃ start : ℕ, headEnd buffer = some start ∧ 0 < req.contentLength ∧
        body = ((offset + start : ℤ), offset + start + req.contentLength) := by
  simp only [SessionEvent.declaredBody, hparse, Option.bind_some,
    Option.mem_def, Option.bind_eq_some_iff]
  constructor
  · rintro ⟨start, hstart, hsome⟩
    split_ifs at hsome with hpos
    rw [Option.some.injEq] at hsome
    exact ⟨start, hstart, hpos, hsome.symm⟩
  · rintro ⟨start, hstart, hpos, rfl⟩
    exact ⟨start, hstart, by rw [if_pos hpos]⟩

theorem headEnd_le {buffer : Bytes} {start : ℕ} (hstart : headEnd buffer = some start) :
    start ≤ buffer.length := by
  obtain ⟨i, hfound, rfl⟩ := Option.map_eq_some_iff.mp hstart
  exact strstr_bound hfound

/-- Where the parser finds the end of the head, there it is. -/
theorem headEnd_of_bodyStart {buffer : Bytes} {req : HttpRequest}
    (hparse : parseHttpRequest buffer = some req) {start : ℕ}
    (hstart : req.bodyStart = some start) : headEnd buffer = some start := by
  have hbody : req.bodyStart = parseBodyStart (cstr buffer) := by
    rcases parseHttpRequest_eq_some hparse with ⟨-, rfl⟩ | ⟨-, rfl⟩ <;> rfl
  rw [hstart] at hbody
  obtain ⟨i, hfound, hi⟩ := Option.map_eq_some_iff.mp hbody.symm
  obtain ⟨rest, hrest⟩ : cstr buffer <+: buffer := List.takeWhile_prefix _
  have hwhole := strstr_append_of_some hfound rest
  rw [hrest] at hwhole
  simp [headEnd, hwhole, hi]

/-- The count at the start of the inner loop is at most what has arrived behind the
head; behind a head with a NUL it is less. -/
theorem initialBodyReceived_le {buffer : Bytes} {req : HttpRequest}
    (hparse : parseHttpRequest buffer = some req) {start : ℕ}
    (hstart : headEnd buffer = some start) :
    initialBodyReceived req buffer + start ≤ buffer.length := by
  have hle := headEnd_le hstart
  unfold initialBodyReceived
  cases hbody : req.bodyStart with
  | none => simpa using hle
  | some found =>
      have hsame := headEnd_of_bodyStart hparse hbody
      rw [hstart, Option.some.injEq] at hsame
      simp only
      omega

theorem BodiesNotParsed.append_parsed {events : List SessionEvent}
    (hevents : BodiesNotParsed events) {offset : ℕ}
    (hsettled : Settled events offset) (buffer : Bytes) :
    BodiesNotParsed (events ++ [.parsed offset buffer]) := by
  unfold BodiesNotParsed
  rw [List.pairwise_append]
  refine ⟨hevents, List.pairwise_singleton _ _, ?_⟩
  intro earlier hearlier later hlater body hbody place hplace
  rw [List.mem_singleton] at hlater
  subst hlater
  simp only [SessionEvent.parseOffset, Option.mem_def, Option.some.injEq] at hplace
  have hend := hsettled earlier hearlier body hbody
  omega

theorem BodiesNotParsed.append_quiet {events : List SessionEvent}
    (hevents : BodiesNotParsed events) {event : SessionEvent}
    (hquiet : event.parseOffset = none) :
    BodiesNotParsed (events ++ [event]) := by
  unfold BodiesNotParsed
  rw [List.pairwise_append]
  refine ⟨hevents, List.pairwise_singleton _ _, ?_⟩
  intro earlier _ later hlater body _ place hplace
  rw [List.mem_singleton] at hlater
  subst hlater
  simp [hquiet] at hplace

/-- The last call of the parser is the one for the request that is handled
now, and the buffer holds everything read since. -/
structure CurrentRequest (session : Session) (offset : ℕ) (first : Bytes)
    (req : HttpRequest) (buffer : Bytes) (bodyReceived : ℤ) : Prop where
  separate : BodiesNotParsed session.events
  recorded : ∃ before, session.events = before ++ [.parsed offset first] ∧
    Settled before session.consumed
  parsed : parseHttpRequest first = some req
  consumed : session.consumed = offset + buffer.length
  counted : ∀ start : ℕ, headEnd first = some start →
    bodyReceived + start ≤ buffer.length

structure DrainInvariant (session : Session) : Prop where
  separate : BodiesNotParsed session.events
  reading : session.phase = .reading →
    Settled session.events session.consumed
  draining : ∀ req buffer bodyReceived,
    session.phase = .draining req buffer bodyReceived → ∃ offset first,
      CurrentRequest session offset first req buffer bodyReceived ∧
        (req.keepAlive = true → ∀ start : ℕ, headEnd first = some start →
          start + req.contentLength ≤ bufferSize - 1)

theorem initial_drainInvariant : DrainInvariant Session.initial := by
  constructor
  · exact List.Pairwise.nil
  · intro _ event hevent
    simp [Session.initial] at hevent
  · intro req buffer bodyReceived hphase
    simp [Session.initial] at hphase

theorem drainInvariant_of_closed {session : Session}
    (hclosed : session.phase = .closed)
    (hseparate : BodiesNotParsed session.events) : DrainInvariant session := by
  constructor
  · exact hseparate
  · intro hphase
    simp [hclosed] at hphase
  · intro req buffer bodyReceived hphase
    simp [hclosed] at hphase

theorem CurrentRequest.route {session : Session} {offset : ℕ} {first : Bytes}
    {req : HttpRequest} {buffer : Bytes} {bodyReceived : ℤ}
    (hcurrent : CurrentRequest session offset first req buffer bodyReceived)
    (hdone : req.keepAlive = true → ∀ start : ℕ, headEnd first = some start →
      0 < req.contentLength → start + req.contentLength ≤ buffer.length) :
    DrainInvariant (session.route req buffer) := by
  have hseparate : BodiesNotParsed (session.route req buffer).events :=
    hcurrent.separate.append_quiet rfl
  cases halive : req.keepAlive with
  | false =>
      apply drainInvariant_of_closed _ hseparate
      simp [Session.route, halive]
  | true =>
      obtain ⟨before, hevents, hbefore⟩ := hcurrent.recorded
      constructor
      · exact hseparate
      · intro _
        change Settled (session.events ++ [.routed req buffer]) session.consumed
        rw [hevents]
        apply (hbefore.append (settled_singleton _)).append
          (settled_singleton _)
        · intro body hbody
          obtain ⟨start, hstart, hpos, rfl⟩ :=
            (mem_declaredBody_parsed hcurrent.parsed).mp hbody
          have hend := hdone halive start hstart hpos
          rw [hcurrent.consumed]
          push_cast
          omega
        · intro body hbody
          simp [SessionEvent.declaredBody] at hbody
      · intro other otherBuffer otherReceived hphase
        simp [Session.route, halive] at hphase

theorem CurrentRequest.drain {session : Session} {offset : ℕ} {first : Bytes}
    {req : HttpRequest} {buffer : Bytes} {bodyReceived : ℤ}
    (hcurrent : CurrentRequest session offset first req buffer bodyReceived)
    (hreach : req.keepAlive = true → ∀ start : ℕ, headEnd first = some start →
      start + req.contentLength ≤ buffer.length ∨
        start + req.contentLength ≤ bufferSize - 1) :
    DrainInvariant (session.drain req buffer bodyReceived) := by
  unfold Session.drain
  split_ifs with htest
  · constructor
    · exact hcurrent.separate
    · intro hphase
      cases hphase
    · intro other otherBuffer otherReceived hphase
      cases hphase
      refine ⟨offset, first, ⟨hcurrent.separate, hcurrent.recorded,
        hcurrent.parsed, hcurrent.consumed, hcurrent.counted⟩, ?_⟩
      intro halive start hstart
      -- the whole body with room to spare is in the buffer, which is not full
      rcases hreach halive start hstart with hend | hend
      · have hroom := htest.2
        simp only [bufferSize] at hroom ⊢
        omega
      · exact hend
  · apply hcurrent.route
    intro halive start hstart _
    have hcount := hcurrent.counted start hstart
    rw [not_and_or] at htest
    rcases hreach halive start hstart with hend | hend
    · exact hend
    · rcases htest with htest | htest
      · omega
      · simp only [bufferSize] at htest hend
        omega

theorem DrainInvariant.accept {session : Session}
    (hseparate : BodiesNotParsed session.events)
    (hsettled : Settled session.events session.consumed)
    {chunk : Bytes} (hreading : session.phase = .reading)
    (hdrains : DrainsBody session chunk) :
    DrainInvariant (Session.accept
      { session with
        consumed := session.consumed + chunk.length
        events := session.events ++ [.parsed session.consumed chunk] } chunk) := by
  have hparsed : BodiesNotParsed
      (session.events ++ [.parsed session.consumed chunk]) :=
    hseparate.append_parsed hsettled chunk
  simp only [DrainsBody, hreading] at hdrains
  unfold Session.accept
  cases hparse : parseHttpRequest chunk with
  | none =>
      exact drainInvariant_of_closed rfl (hparsed.append_quiet rfl)
  | some req =>
      have hcurrent : CurrentRequest
          { session with
            consumed := session.consumed + chunk.length
            events := session.events ++ [.parsed session.consumed chunk] }
          session.consumed chunk req chunk (initialBodyReceived req chunk) :=
        ⟨hparsed, ⟨session.events, rfl, hsettled.mono (by simp)⟩, hparse, rfl,
          fun _ => initialBodyReceived_le hparse⟩
      simp only
      split_ifs with hpost
      · apply hcurrent.drain
        intro halive start hstart
        rcases hdrains req hparse start hstart hpost.2 halive with hend | hend
        · exact Or.inl hend
        · exact Or.inr hend.2
      · apply hcurrent.route
        intro halive start hstart hpos
        rcases hdrains req hparse start hstart hpos halive with hend | hend
        · exact hend
        · exact absurd ⟨hend.1, hpos⟩ hpost

theorem DrainInvariant.step {session : Session}
    (hinv : DrainInvariant session) {chunk : Bytes}
    (hdrains : DrainsBody session chunk) :
    DrainInvariant (session.step chunk) := by
  unfold Session.step
  cases hphase : session.phase with
  | closed => exact hinv
  | reading =>
      simp only
      split_ifs with hempty
      · exact drainInvariant_of_closed rfl hinv.separate
      · exact DrainInvariant.accept hinv.separate (hinv.reading hphase) hphase
          hdrains
  | draining req buffer bodyReceived =>
      obtain ⟨offset, first, hcurrent, hfits⟩ :=
        hinv.draining req buffer bodyReceived hphase
      obtain ⟨before, hevents, hbefore⟩ := hcurrent.recorded
      simp only [DrainsBody, hphase] at hdrains
      simp only
      split_ifs with hempty
      · apply hcurrent.route
        intro halive start hstart hpos
        have hend := hdrains hempty halive (.parsed offset first)
          (by rw [hevents]; simp) _
          ((mem_declaredBody_parsed hcurrent.parsed).mpr ⟨start, hstart, hpos, rfl⟩)
        rw [hcurrent.consumed] at hend
        push_cast at hend
        omega
      · have hlonger : CurrentRequest
            { session with consumed := session.consumed + chunk.length }
            offset first req (buffer ++ chunk) (bodyReceived + chunk.length) := by
          refine ⟨hcurrent.separate, ⟨before, hevents, hbefore.mono (by simp)⟩,
            hcurrent.parsed, ?_, ?_⟩
          · simp [hcurrent.consumed, Nat.add_assoc]
          · intro start hstart
            have hcount := hcurrent.counted start hstart
            simp only [List.length_append, Nat.cast_add]
            omega
        apply hlonger.drain
        intro halive start hstart
        exact Or.inr (hfits halive start hstart)

/-- In every run whose reads all drain the announced bodies, no byte of a
declared body is ever the first byte of a buffer that is parsed later. -/
theorem bodies_not_parsed_of_drained {session : Session}
    (hreach : (sessionSystem.restrict DrainsBody).Reachable session) :
    BodiesNotParsed session.events := by
  have hinv : DrainInvariant session := by
    apply hreach.invariant
    · intro first hfirst
      rw [show first = Session.initial from hfirst]
      exact initial_drainInvariant
    · intro before chunk after hbefore hstep
      obtain ⟨hdrains, _, _, rfl⟩ := hstep
      exact hbefore.step hdrains
  exact hinv.separate

def splitPostHead : Bytes :=
  ascii "POST /a HTTP/1.1\r\nContent-Length: 9\r\n\r\nGET"

theorem bodies_not_parsed_split_post :
    BodiesNotParsed (Session.initial.run
      [splitPostHead, ascii " /evil", ascii "GET / HTTP/1.1\r\n\r\n"]).events := by
  apply bodies_not_parsed_of_drained
  have hstart : (sessionSystem.restrict DrainsBody).Reachable Session.initial :=
    .start rfl
  have hhead := hstart.next splitPostHead
    ⟨by decide, by decide, by decide, rfl⟩
  have hbody := hhead.next (ascii " /evil")
    ⟨by decide, by decide, by decide, rfl⟩
  exact hbody.next (ascii "GET / HTTP/1.1\r\n\r\n")
    ⟨by decide, by decide, by decide, rfl⟩

/-- The body of a `GET` is not drained: here its nine bytes are parsed as the
next request. -/
theorem get_body_parsed_as_request :
    ∃ session, sessionSystem.Reachable session ∧
      ¬BodiesNotParsed session.events := by
  refine ⟨Session.initial.run
    [ascii "GET / HTTP/1.1\r\nContent-Length: 9\r\n\r\n", ascii "GET /evil"],
    ?_, by decide⟩
  have hstart : sessionSystem.Reachable Session.initial := .start rfl
  have hhead := hstart.next
    (ascii "GET / HTTP/1.1\r\nContent-Length: 9\r\n\r\n")
    ⟨by decide, by decide, rfl⟩
  exact hhead.next (ascii "GET /evil") ⟨by decide, by decide, rfl⟩

/-- A NUL in the head does not hide the body that is announced before it. -/
example : (SessionEvent.parsed 0 (ascii "GET / HTTP/1.1\r\nContent-Length: 9\r\nX:" ++
    0 :: ascii "\r\n\r\n")).declaredBody = some (42, 51) := by decide

end Lith
