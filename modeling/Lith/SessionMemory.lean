import Lith.BodyBuffer
import Lith.ParserMemory

/-!
# The receive loop in memory

The keep-alive loop of `lith_client_handler` with its arrays: the receive buffer,
the `HttpRequest` that `malloc` returned and every request overwrites, and the
`file_path` that the router builds on its stack.  A step is one `SSL_read` and
what follows it up to the next one.  A step that would access memory outside one
of the arrays has no result.

The machine on texts is a specification of this one: each step has a result, the
two ask for the same room, and what the router is called with is in the memory.
-/

namespace Lith

open CString

inductive MemoryPhase where
  | reading
  | draining
  | closed
  deriving DecidableEq

/-- A call of the parser, of the router, or of `send_http_error`, with the memory
it is made on. -/
inductive SessionCall where
  | parsed (buffer : ByteArea bufferSize)
  | routed (req : RequestArea) (buffer : ByteArea bufferSize) (received : ℕ)
      (filePath : Option (ByteArea 512))
  | rejected

structure SessionMemory where
  phase : MemoryPhase
  buffer : ByteArea bufferSize
  req : RequestArea
  received : ℕ
  bodyReceived : ℤ
  calls : List SessionCall

/-- The size that is passed to the next `SSL_read`. -/
def SessionMemory.asked (memory : SessionMemory) : ℤ :=
  match memory.phase with
  | .reading => bufferSize - 1
  | .draining => readRoom memory.received
  | .closed => 0

/-- The test of the path and the building of `file_path` in `handle_http_route`. -/
def routedPath (context : ByteArea 256) (filePath : ByteArea 512)
    (req : RequestArea) : Option (Option (ByteArea 512)) :=
  match req.method with
  | .get =>
      (scanString (ascii "..") req.path.bytes).bind fun found =>
        if found = none then (routeFilePath filePath context req.path).map some
        else some none
  | _ => some none

/-- The call of `handle_http_route` and the test of `keep_alive` behind it. -/
def SessionMemory.handle (memory : SessionMemory) (context : ByteArea 256)
    (filePath : ByteArea 512) : Option SessionMemory :=
  (routedPath context filePath memory.req).map fun target =>
    { memory with
      phase := if memory.req.keepAlive then .reading else .closed
      calls := memory.calls ++
        [.routed memory.req memory.buffer memory.received target] }

/-- The condition of the inner loop. -/
def SessionMemory.drain (memory : SessionMemory) (context : ByteArea 256)
    (filePath : ByteArea 512) : Option SessionMemory :=
  if memory.bodyReceived < memory.req.contentLength ∧
      memory.received < bufferSize - 1 then
    some
      { memory with
        phase := .draining }
  else memory.handle context filePath

/-- `body_received` before the inner loop. -/
def SessionMemory.bodyInBuffer (memory : SessionMemory) : ℤ :=
  match memory.req.bodyStart with
  | some start => memory.received - start
  | none => 0

/-- What follows the return value `0` of the parser. -/
def SessionMemory.accept (memory : SessionMemory) (context : ByteArea 256)
    (filePath : ByteArea 512) : Option SessionMemory :=
  if memory.req.method = .post ∧ 0 < memory.req.contentLength then
    let counted : SessionMemory :=
      { memory with
        bodyReceived := memory.bodyInBuffer }
    counted.drain context filePath
  else memory.handle context filePath

def SessionMemory.parse (memory : SessionMemory) (context : ByteArea 256)
    (filePath : ByteArea 512) : Option SessionMemory := do
  let (code, req) ← parseInto memory.buffer.bytes memory.req
  let called : SessionMemory :=
    { memory with
      req := req
      calls := memory.calls ++ [.parsed memory.buffer] }
  if code = 0 then called.accept context filePath
  else
    some
      { called with
        phase := .closed
        calls := called.calls ++ [.rejected] }

/-- The bytes of a read go to `buffer + received`, and a NUL behind them. -/
def SessionMemory.deliver (memory : SessionMemory) (chunk : Bytes) :
    Option SessionMemory := do
  let written ← memory.buffer.write memory.received chunk
  let ended ← written.store (memory.received + chunk.length) 0
  some
    { memory with
      buffer := ended
      received := memory.received + chunk.length }

/-- `memset(buffer, 0, sizeof(buffer))`, and a `received` of the new turn. -/
def SessionMemory.clear (memory : SessionMemory) : Option SessionMemory :=
  (memory.buffer.write 0 (List.replicate bufferSize 0)).map fun cleared =>
    { memory with
      buffer := cleared
      received := 0 }

def SessionMemory.step (memory : SessionMemory) (context : ByteArea 256)
    (filePath : ByteArea 512) (chunk : Bytes) : Option SessionMemory :=
  match memory.phase with
  | .closed => some memory
  | .reading => do
      let cleared ← memory.clear
      if chunk = [] then
        some
          { cleared with
            phase := .closed }
      else
        let delivered ← cleared.deliver chunk
        delivered.parse context filePath
  | .draining =>
      if chunk = [] then memory.handle context filePath
      else do
        let delivered ← memory.deliver chunk
        let counted : SessionMemory :=
          { delivered with
            bodyReceived := delivered.bodyReceived + chunk.length }
        counted.drain context filePath

/-- All connections of a worker whose copy of the document root is `context`.  The
buffer, the request and the counters hold anything at the start, and so does the
array of each call of the router. -/
def memorySystem (context : ByteArea 256) :
    TransitionSystem SessionMemory Bytes where
  start := fun memory => memory.phase = .reading ∧ memory.calls = []
  step := fun memory chunk after =>
    memory.phase ≠ .closed ∧ chunk.length ≤ memory.asked ∧
      ∃ filePath, memory.step context filePath chunk = some after

/-! ## What the arrays hold -/

/-- The array starts with these bytes and a NUL. -/
def ReceivedInto (buffer : ByteArea bufferSize) (bytes : Bytes) : Prop :=
  ∃ rest, buffer.bytes = bytes ++ 0 :: rest

/-- The calls are those of the machine on texts. -/
def SessionCall.Shows (publicDir : CharArray 256) :
    SessionCall → SessionEvent → Prop
  | .parsed buffer, .parsed _ chunk => ReceivedInto buffer chunk
  | .routed area buffer received filePath, .routed req text =>
      area.Stores req ∧ ReceivedInto buffer text ∧ received = text.length ∧
        filePath.map ByteArea.string = (routedFile publicDir req).map some
  | .rejected, .rejected => True
  | _, _ => False

/-- The memory waits for the same read. -/
def SessionMemory.Waits (memory : SessionMemory) : SessionPhase → Prop
  | .reading => memory.phase = .reading
  | .draining req text bodyReceived =>
      memory.phase = .draining ∧ memory.req.Stores req ∧
        ReceivedInto memory.buffer text ∧ memory.received = text.length ∧
        memory.bodyReceived = bodyReceived ∧ text.length < bufferSize - 1
  | .closed => memory.phase = .closed

structure SessionMemory.Shows (memory : SessionMemory) (publicDir : CharArray 256)
    (session : Session) : Prop where
  waits : memory.Waits session.phase
  calls : List.Forall₂ (SessionCall.Shows publicDir) memory.calls session.events

variable {publicDir : CharArray 256} {context : ByteArea 256} {memory : SessionMemory}
  {session : Session} {req : HttpRequest} {text chunk : Bytes}

theorem routedPath_eq (hcontext : context.string = some publicDir.text)
    (filePath : ByteArea 512) {area : RequestArea} (hstores : area.Stores req) :
    ∃ target, routedPath context filePath area = some target ∧
      target.map ByteArea.string = (routedFile publicDir req).map some := by
  unfold routedPath routedFile
  rw [hstores.method]
  cases hmethod : req.method with
  | post => exact ⟨none, rfl, rfl⟩
  | unknown => exact ⟨none, rfl, rfl⟩
  | get =>
      have hscan := scanString_eq hstores.path (ascii "..") (by decide) (by decide)
      by_cases hsafe : strstr (ascii "..") req.path.text = none
      · obtain ⟨written, hroute, hwritten⟩ :=
          routeFilePath_string filePath hcontext hstores.path
        refine ⟨some written, ?_, ?_⟩
        · simp [hscan, hsafe, hroute]
        · simp [isSafePath, hsafe, hwritten, filePath_eq]
      · refine ⟨none, ?_, ?_⟩
        · simp [hscan, hsafe]
        · simp [isSafePath, hsafe]

/-- The request and the bytes that the memory hands to the router. -/
structure SessionMemory.Keeps (memory : SessionMemory) (req : HttpRequest)
    (text : Bytes) : Prop where
  req : memory.req.Stores req
  buffer : ReceivedInto memory.buffer text
  received : memory.received = text.length

theorem SessionMemory.Keeps.handle (hkeeps : memory.Keeps req text)
    (hcontext : context.string = some publicDir.text) (filePath : ByteArea 512)
    (hcalls : List.Forall₂ (SessionCall.Shows publicDir) memory.calls session.events) :
    ∃ after, memory.handle context filePath = some after ∧
      after.Shows publicDir (session.route req text) := by
  obtain ⟨target, hrouted, htarget⟩ := routedPath_eq hcontext filePath hkeeps.req
  have hcall : SessionCall.Shows publicDir
      (.routed memory.req memory.buffer memory.received target) (.routed req text) :=
    ⟨hkeeps.req, hkeeps.buffer, hkeeps.received, htarget⟩
  refine ⟨_, by rw [SessionMemory.handle, hrouted, Option.map_some], ?_, ?_⟩
  · unfold Session.route Session.record
    rw [hkeeps.req.keepAlive]
    cases req.keepAlive <;> rfl
  · exact List.rel_append hcalls (.cons hcall .nil)

theorem SessionMemory.Keeps.drain (hkeeps : memory.Keeps req text)
    (hcontext : context.string = some publicDir.text) (filePath : ByteArea 512)
    (hcalls : List.Forall₂ (SessionCall.Shows publicDir) memory.calls session.events) :
    ∃ after, memory.drain context filePath = some after ∧
      after.Shows publicDir (session.drain req text memory.bodyReceived) := by
  unfold SessionMemory.drain Session.drain
  rw [hkeeps.req.contentLength, hkeeps.received]
  split_ifs with hmore
  · exact ⟨_, rfl, ⟨rfl, hkeeps.req, hkeeps.buffer, rfl, rfl, hmore.2⟩, hcalls⟩
  · exact hkeeps.handle hcontext filePath hcalls

theorem SessionMemory.Keeps.accept (hkeeps : memory.Keeps req text)
    (hcontext : context.string = some publicDir.text) (filePath : ByteArea 512)
    (hparse : parseHttpRequest text = some req)
    (hcalls : List.Forall₂ (SessionCall.Shows publicDir) memory.calls session.events) :
    ∃ after, memory.accept context filePath = some after ∧
      after.Shows publicDir (session.accept text) := by
  have hcount : memory.bodyInBuffer = initialBodyReceived req text := by
    unfold SessionMemory.bodyInBuffer initialBodyReceived
    rw [hkeeps.req.bodyStart]
    cases req.bodyStart with
    | none => rfl
    | some start =>
        change (memory.received : ℤ) - start = text.length - start
        rw [hkeeps.received]
  unfold SessionMemory.accept Session.accept
  rw [hparse, hkeeps.req.method, hkeeps.req.contentLength, hcount]
  dsimp only
  split_ifs with hbody
  · have hcounted : SessionMemory.Keeps
        { memory with
          bodyReceived := initialBodyReceived req text } req text :=
      ⟨hkeeps.req, hkeeps.buffer, hkeeps.received⟩
    exact hcounted.drain hcontext filePath hcalls
  · exact hkeeps.handle hcontext filePath hcalls

theorem SessionMemory.parse_shows (hbuffer : ReceivedInto memory.buffer chunk)
    (hreceived : memory.received = chunk.length)
    (hcontext : context.string = some publicDir.text) (filePath : ByteArea 512)
    (hcalls : List.Forall₂ (SessionCall.Shows publicDir)
      (memory.calls ++ [.parsed memory.buffer]) session.events) :
    ∃ after, memory.parse context filePath = some after ∧
      after.Shows publicDir (session.accept chunk) := by
  obtain ⟨rest, hbytes⟩ := id hbuffer
  have hread : readString memory.buffer.bytes = some (cstr chunk) := by
    rw [hbytes]
    exact readString_cstr chunk rest
  cases hparse : parseHttpRequest chunk with
  | none =>
      obtain ⟨area, hinto⟩ := parseInto_of_rejected hread hparse memory.req
      refine
        ⟨{ memory with
          phase := .closed
          req := area
          calls := memory.calls ++ [.parsed memory.buffer] ++ [.rejected] }, ?_, ?_, ?_⟩
      · rw [SessionMemory.parse, hinto]
        rfl
      · rw [Session.accept, hparse]
        rfl
      · rw [Session.accept, hparse]
        exact List.rel_append hcalls (.cons trivial .nil)
  | some req =>
      obtain ⟨area, hinto, hstores⟩ := parseInto_of_accepted hread hparse memory.req
      have hkeeps : SessionMemory.Keeps
          { memory with
            req := area
            calls := memory.calls ++ [.parsed memory.buffer] } req chunk :=
        ⟨hstores, hbuffer, hreceived⟩
      rw [SessionMemory.parse, hinto]
      exact hkeeps.accept hcontext filePath hparse hcalls

/-- The two stores behind a read stay in the buffer. -/
theorem SessionMemory.deliver_eq (memory : SessionMemory) (text chunk : Bytes)
    (hreceived : memory.received = text.length)
    (hcontents : memory.buffer.bytes.take text.length = text)
    (hroom : text.length + chunk.length ≤ bufferSize - 1) :
    ∃ buffer, memory.deliver chunk =
        some
          { memory with
            buffer := buffer
            received := (text ++ chunk).length } ∧
      ReceivedInto buffer (text ++ chunk) := by
  have hsize : 0 < bufferSize := by decide
  obtain ⟨written, hwrite, hwritten⟩ :=
    memory.buffer.exists_write text.length chunk (by omega)
  obtain ⟨ended, hstore, hended⟩ :=
    written.exists_store (by omega : text.length + chunk.length < bufferSize) 0
  refine ⟨ended, ?_, ?_⟩
  · simp [SessionMemory.deliver, hreceived, hwrite, hstore]
  · have hbehind : memory.buffer.bytes.drop (text.length + chunk.length) ≠ [] := by
      rw [Ne, List.drop_eq_nil_iff, memory.buffer.size]
      omega
    obtain ⟨c, rest, hrest⟩ := List.exists_cons_of_ne_nil hbehind
    refine ⟨rest, ?_⟩
    rw [hended, hwritten, hcontents, hrest, ← List.append_assoc,
      ← List.length_append, List.set_append_right _ _ le_rfl, Nat.sub_self,
      List.set_cons_zero]

theorem SessionMemory.clear_eq (memory : SessionMemory) :
    ∃ buffer, memory.clear =
      some
        { memory with
          buffer := buffer
          received := 0 } := by
  obtain ⟨buffer, hwrite, -⟩ := memory.buffer.exists_write 0
    (List.replicate bufferSize 0) (by rw [List.length_replicate]; omega)
  exact ⟨buffer, by rw [SessionMemory.clear, hwrite]; rfl⟩

/-- Both machines ask for the same room. -/
theorem SessionMemory.Shows.asked_eq (hshows : memory.Shows publicDir session) :
    memory.asked = session.asked := by
  have hwaits := hshows.waits
  unfold SessionMemory.asked Session.asked
  cases hphase : session.phase with
  | reading =>
      rw [hphase] at hwaits
      rw [show memory.phase = .reading from hwaits]
      rfl
  | closed =>
      rw [hphase] at hwaits
      rw [show memory.phase = .closed from hwaits]
      rfl
  | draining req text bodyReceived =>
      rw [hphase] at hwaits
      obtain ⟨hdraining, -, -, hreceived, -, hroom⟩ := hwaits
      have hsize : 0 < bufferSize := by decide
      rw [hdraining]
      dsimp only
      rw [readRoom_eq (by omega) (by omega)]
      omega

/-- One read: no access fails, and the machine on texts makes the same step. -/
theorem SessionMemory.Shows.step (hshows : memory.Shows publicDir session)
    (hcontext : context.string = some publicDir.text)
    (hchunk : chunk.length ≤ session.asked) (filePath : ByteArea 512) :
    ∃ after, memory.step context filePath chunk = some after ∧
      after.Shows publicDir (session.step chunk) := by
  have hwaits := hshows.waits
  have hcalls := hshows.calls
  unfold SessionMemory.step Session.step
  unfold Session.asked at hchunk
  cases hphase : session.phase with
  | closed =>
      rw [hphase] at hwaits
      rw [show memory.phase = .closed from hwaits]
      exact ⟨memory, rfl, hshows⟩
  | reading =>
      rw [hphase] at hwaits hchunk
      rw [show memory.phase = .reading from hwaits]
      obtain ⟨cleared, hclear⟩ := memory.clear_eq
      by_cases hend : chunk = []
      · simp only [hclear, hend, Option.bind_eq_bind, Option.bind_some, if_true]
        exact ⟨_, rfl, rfl, hcalls⟩
      · obtain ⟨buffer, hdeliver, hbuffer⟩ :=
          SessionMemory.deliver_eq
            { memory with
              buffer := cleared
              received := 0 } [] chunk rfl rfl (by simpa using hchunk)
        simp only [hclear, hend, hdeliver, Option.bind_eq_bind, Option.bind_some,
          if_false]
        exact SessionMemory.parse_shows hbuffer rfl hcontext filePath
          (List.rel_append hcalls (.cons hbuffer .nil))
  | draining req text bodyReceived =>
      rw [hphase] at hwaits hchunk
      obtain ⟨hdraining, hstores, hbuffer, hreceived, hbody, hroom⟩ := hwaits
      rw [hdraining]
      by_cases hend : chunk = []
      · simp only [hend, if_true]
        exact SessionMemory.Keeps.handle ⟨hstores, hbuffer, hreceived⟩ hcontext filePath
          hcalls
      · have hfits : chunk.length ≤ bufferSize - 1 - text.length := hchunk
        have hcontents : memory.buffer.bytes.take text.length = text := by
          obtain ⟨rest, hbytes⟩ := hbuffer
          rw [hbytes, List.take_left' rfl]
        obtain ⟨buffer, hdeliver, hafter⟩ :=
          memory.deliver_eq text chunk hreceived hcontents (by omega)
        simp only [hdeliver, hend, Option.bind_eq_bind, Option.bind_some, if_false]
        have hkeeps : SessionMemory.Keeps
            { memory with
              buffer := buffer
              received := (text ++ chunk).length
              bodyReceived := memory.bodyReceived + chunk.length } req (text ++ chunk) :=
          ⟨hstores, hafter, rfl⟩
        rw [← hbody]
        refine hkeeps.drain hcontext filePath ?_
        exact hcalls

/-! ## Whole connections -/

theorem SessionMemory.Shows.closed_iff (hshows : memory.Shows publicDir session) :
    memory.phase = .closed ↔ session.phase = .closed := by
  have hwaits := hshows.waits
  cases hphase : session.phase with
  | reading =>
      rw [hphase] at hwaits
      simp [show memory.phase = .reading from hwaits]
  | closed =>
      rw [hphase] at hwaits
      simp [show memory.phase = .closed from hwaits]
  | draining req text bodyReceived =>
      rw [hphase] at hwaits
      simp [hwaits.1]

theorem SessionMemory.Shows.asked_pos (hshows : memory.Shows publicDir session)
    (hrunning : memory.phase ≠ .closed) :
    0 < memory.asked ∧ memory.asked ≤ bufferSize - 1 := by
  have hwaits := hshows.waits
  have hsize : 1 < bufferSize := by decide
  rw [hshows.asked_eq]
  unfold Session.asked
  cases hphase : session.phase with
  | reading =>
      dsimp only
      omega
  | closed => exact absurd (hshows.closed_iff.mpr hphase) hrunning
  | draining req text bodyReceived =>
      rw [hphase] at hwaits
      obtain ⟨-, -, -, -, -, hroom⟩ := hwaits
      dsimp only
      omega

theorem shows_of_reachable (hcontext : context.string = some publicDir.text)
    (hreach : (memorySystem context).Reachable memory) :
    ∃ session, sessionSystem.Reachable session ∧ memory.Shows publicDir session := by
  induction hreach with
  | start hstart =>
      refine ⟨.initial, .start rfl, hstart.1, ?_⟩
      rw [hstart.2]
      exact .nil
  | next _ chunk hstep ih =>
      obtain ⟨session, hsession, hshows⟩ := ih
      obtain ⟨hrunning, hchunk, filePath, hafter⟩ := hstep
      rw [hshows.asked_eq, Nat.cast_le] at hchunk
      obtain ⟨after, hexists, hnext⟩ := hshows.step hcontext hchunk filePath
      rw [hafter, Option.some.injEq] at hexists
      subst hexists
      refine ⟨_, hsession.next chunk ⟨?_, hchunk, rfl⟩, hnext⟩
      exact fun hclosed => hrunning (hshows.closed_iff.mpr hclosed)

theorem exists_shows (hcontext : context.string = some publicDir.text)
    (hreach : sessionSystem.Reachable session) :
    ∃ memory, (memorySystem context).Reachable memory ∧
      memory.Shows publicDir session := by
  induction hreach with
  | start hstart =>
      subst hstart
      let first : SessionMemory :=
        { phase := .reading
          buffer := .initialised bufferSize []
          req := ⟨.unknown, .initialised 256 [], 0, none, true⟩
          received := 0
          bodyReceived := 0
          calls := [] }
      exact ⟨first, .start ⟨rfl, rfl⟩, rfl, .nil⟩
  | next _ chunk hstep ih =>
      obtain ⟨memory, hmemory, hshows⟩ := ih
      obtain ⟨hrunning, hchunk, rfl⟩ := hstep
      obtain ⟨after, hafter, hnext⟩ :=
        hshows.step hcontext hchunk (.initialised 512 [])
      refine ⟨after, hmemory.next chunk ⟨?_, ?_, _, hafter⟩, hnext⟩
      · exact fun hclosed => hrunning (hshows.closed_iff.mp hclosed)
      · rw [hshows.asked_eq]
        exact_mod_cast hchunk

/-- From the configuration file to the last request of a connection no access to
an array fails, whatever arrives and however it is cut, and the calls of the parser
and the router are those of the machine on texts, in both directions. -/
theorem connection_stays_in_memory (scratch : Scratch) (file : Option Bytes)
    (args : List Bytes) (cwd : Directory) :
    ∃ context, connectionDir scratch file args cwd = some context ∧
      (∀ memory, (memorySystem context).Reachable memory →
        (memory.phase ≠ .closed →
          0 < memory.asked ∧ memory.asked ≤ bufferSize - 1 ∧
          ∀ (filePath : ByteArea 512) (chunk : Bytes), chunk.length ≤ memory.asked →
            ∃ after, memory.step context filePath chunk = some after) ∧
        ∃ session, sessionSystem.Reachable session ∧
          memory.Shows (startProcess file args cwd).config.publicDir session) ∧
      ∀ session, sessionSystem.Reachable session →
        ∃ memory, (memorySystem context).Reachable memory ∧
          memory.Shows (startProcess file args cwd).config.publicDir session := by
  obtain ⟨context, hdir, hcontext⟩ := connectionDir_string scratch file args cwd
  refine ⟨context, hdir, ?_, fun session hreach => exists_shows hcontext hreach⟩
  intro memory hreach
  obtain ⟨session, hsession, hshows⟩ := shows_of_reachable hcontext hreach
  refine ⟨?_, session, hsession, hshows⟩
  intro hrunning
  obtain ⟨hpos, hmax⟩ := hshows.asked_pos hrunning
  refine ⟨hpos, hmax, ?_⟩
  intro filePath chunk hchunk
  rw [hshows.asked_eq, Nat.cast_le] at hchunk
  obtain ⟨after, hafter, -⟩ := hshows.step hcontext hchunk filePath
  exact ⟨after, hafter⟩

end Lith
