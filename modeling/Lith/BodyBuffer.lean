import Lith.ClientSession

/-!
# The buffer while a body is read

The inner loop of `lith_client_handler` on the memory of its buffer: each read
is stored behind the bytes that are there, a NUL is stored behind it, and two
counters are advanced.  Storing outside of the buffer is an outcome of its own.
Whatever the reads deliver, the loop stores inside the buffer, keeps the bytes
in the order of their arrival, and ends when the body is there, the buffer is
full or a read fails.
-/

namespace Lith

open CString

/-- What the calls of `SSL_read` deliver: the number of the call and the space
that was asked for determine the bytes.  No bytes stand for a result that is
zero or negative. -/
structure SslReads where
  deliver : ℕ → ℕ → Bytes
  fits : ∀ n room, (deliver n room).length ≤ room

namespace SslReads

variable (reads : SslReads) (first : Bytes)

/-- The first read and `n` more, as far as there is space in the buffer. -/
def arrived : ℕ → Bytes
  | 0 => first
  | n + 1 =>
      arrived n ++ reads.deliver n (bufferSize - 1 - (arrived n).length)

def chunk (n : ℕ) : Bytes :=
  reads.deliver n (bufferSize - 1 - (reads.arrived first n).length)

theorem arrived_succ (n : ℕ) :
    reads.arrived first (n + 1) =
      reads.arrived first n ++ reads.chunk first n := rfl

end SslReads

/-- Storing bytes in memory, if the memory reaches that far. -/
def storeAt (memory : Bytes) (offset : ℤ) (bytes : Bytes) : Option Bytes :=
  if 0 ≤ offset ∧ offset + bytes.length ≤ memory.length then
    some (memory.take offset.toNat ++
      (bytes ++ memory.drop (offset.toNat + bytes.length)))
  else none

structure BodyLoop where
  memory : Bytes
  received : ℤ
  bodyReceived : ℤ
  deriving DecidableEq

/-- `sizeof(buffer) - 1 - received`, computed as a `size_t` and passed as an
`int`. -/
def readRoom (received : ℤ) : ℤ :=
  toInt ((bufferSize - 1 - received) % 2 ^ 64)

/-- The body of the loop behind a successful read. -/
def BodyLoop.extend (loop : BodyLoop) (chunk : Bytes) : Option BodyLoop :=
  (storeAt loop.memory loop.received chunk).bind fun memory =>
    (storeAt memory (loop.received + chunk.length) [0]).map fun memory =>
      { memory := memory
        received := loop.received + chunk.length
        bodyReceived := loop.bodyReceived + chunk.length }

inductive LoopStage where
  | looping (loop : BodyLoop)
  | left (loop : BodyLoop) (failed : Bool)
  | overrun
  deriving DecidableEq

def BodyLoop.Continues (loop : BodyLoop) (req : HttpRequest) : Prop :=
  loop.bodyReceived < req.contentLength ∧ loop.received < bufferSize - 1

instance (loop : BodyLoop) (req : HttpRequest) :
    Decidable (loop.Continues req) :=
  inferInstanceAs (Decidable (_ ∧ _))

def LoopStage.step (reads : SslReads) (req : HttpRequest) (n : ℕ) :
    LoopStage → LoopStage
  | .looping loop =>
      if loop.Continues req then
        let chunk := reads.deliver n (readRoom loop.received).toNat
        if chunk = [] then .left loop true
        else
          match loop.extend chunk with
          | some loop => .looping loop
          | none => .overrun
      else .left loop false
  | .left loop failed => .left loop failed
  | .overrun => .overrun

/-- The buffer after `memset`, the first read and the NUL behind it. -/
def BodyLoop.begin (req : HttpRequest) (first : Bytes) : BodyLoop where
  memory := first ++ List.replicate (bufferSize - first.length) 0
  received := first.length
  bodyReceived := initialBodyReceived req first

def bodyLoop (reads : SslReads) (req : HttpRequest) (first : Bytes) :
    ℕ → LoopStage
  | 0 => .looping (BodyLoop.begin req first)
  | n + 1 => (bodyLoop reads req first n).step reads req n

/-! ## The invariant -/

/-- The buffer after `n` reads. -/
structure BodyLoop.Holds (loop : BodyLoop) (reads : SslReads)
    (req : HttpRequest) (first : Bytes) (n : ℕ) : Prop where
  size : loop.memory.length = bufferSize
  received : loop.received = (reads.arrived first n).length
  within : loop.received ≤ bufferSize - 1
  contents : loop.memory.take loop.received.toNat = reads.arrived first n
  terminated : loop.memory[loop.received.toNat]? = some 0
  counted : loop.bodyReceived =
    initialBodyReceived req first + (loop.received - first.length)

theorem readRoom_eq {received : ℤ} (hlow : 0 ≤ received)
    (hhigh : received ≤ bufferSize - 1) :
    readRoom received = bufferSize - 1 - received := by
  unfold readRoom toInt bufferSize at *
  rw [Int.emod_eq_of_lt (by omega) (by omega), Int.bmod_def]
  omega

theorem storeAt_eq_some {memory bytes : Bytes} {offset : ℕ}
    (hfits : offset + bytes.length ≤ memory.length) :
    storeAt memory offset bytes = some (memory.take offset ++
      (bytes ++ memory.drop (offset + bytes.length))) := by
  unfold storeAt
  rw [if_pos (by omega), Int.toNat_natCast]

variable {reads : SslReads} {req : HttpRequest} {first : Bytes} {n : ℕ}
  {loop : BodyLoop}

theorem BodyLoop.holds_begin (hfirst : first.length ≤ bufferSize - 1) :
    (BodyLoop.begin req first).Holds reads req first 0 := by
  have hroom : 0 < bufferSize - first.length := by
    unfold bufferSize at *
    omega
  refine ⟨?_, rfl, ?_, ?_, ?_, ?_⟩
  · simp only [BodyLoop.begin, List.length_append, List.length_replicate]
    omega
  · simp only [BodyLoop.begin]
    omega
  · simp [BodyLoop.begin, SslReads.arrived]
  · simp [BodyLoop.begin, hroom]
  · simp [BodyLoop.begin]

/-- The room that is asked for is the room behind the bytes. -/
theorem BodyLoop.Holds.deliver_eq (hholds : loop.Holds reads req first n) :
    reads.deliver n (readRoom loop.received).toNat = reads.chunk first n := by
  have hreceived := hholds.received
  have hwithin := hholds.within
  rw [readRoom_eq (by omega) hwithin, hreceived]
  unfold SslReads.chunk
  congr 1
  unfold bufferSize
  omega

/-- The buffer behind the bytes of one more read. -/
def BodyLoop.extended (loop : BodyLoop) (bytes chunk : Bytes) : BodyLoop where
  memory := bytes ++ chunk ++
    ([0] ++ loop.memory.drop (bytes.length + chunk.length + 1))
  received := loop.received + chunk.length
  bodyReceived := loop.bodyReceived + chunk.length

/-- Neither of the two stores leaves the memory. -/
theorem BodyLoop.extend_eq {bytes chunk : Bytes}
    (hreceived : loop.received = bytes.length)
    (hcontents : loop.memory.take bytes.length = bytes)
    (hroom : bytes.length + chunk.length < loop.memory.length) :
    loop.extend chunk = some (loop.extended bytes chunk) := by
  have hfirst : storeAt loop.memory loop.received chunk =
      some (bytes ++ chunk ++ loop.memory.drop (bytes.length + chunk.length)) := by
    rw [hreceived, storeAt_eq_some (by omega), hcontents, List.append_assoc]
  have hoffset : loop.received + (chunk.length : ℤ) =
      ((bytes ++ chunk).length : ℕ) := by
    rw [hreceived, List.length_append]
    push_cast
    rfl
  have hsecond : storeAt
      (bytes ++ chunk ++ loop.memory.drop (bytes.length + chunk.length))
        (loop.received + chunk.length) [0] =
      some (bytes ++ chunk ++
        ([0] ++ loop.memory.drop (bytes.length + chunk.length + 1))) := by
    rw [hoffset, storeAt_eq_some, List.take_left, List.length_singleton,
      List.drop_length_add_append, List.drop_drop]
    simp only [List.length_append, List.length_drop, List.length_singleton]
    omega
  simp only [BodyLoop.extend, hfirst, Option.bind_some, hsecond,
    Option.map_some]
  rfl

theorem BodyLoop.Holds.toNat_received (hholds : loop.Holds reads req first n) :
    loop.received.toNat = (reads.arrived first n).length := by
  rw [hholds.received, Int.toNat_natCast]

theorem BodyLoop.Holds.room (hholds : loop.Holds reads req first n) :
    (reads.arrived first n).length + (reads.chunk first n).length <
      loop.memory.length := by
  have hfits := reads.fits n (bufferSize - 1 - (reads.arrived first n).length)
  have hreceived := hholds.received
  have hwithin := hholds.within
  have hsize := hholds.size
  change (reads.chunk first n).length ≤ _ at hfits
  unfold bufferSize at *
  omega

theorem BodyLoop.Holds.extended (hholds : loop.Holds reads req first n) :
    (loop.extended (reads.arrived first n) (reads.chunk first n)).Holds
      reads req first (n + 1) := by
  have hroom := hholds.room
  have hsize := hholds.size
  have hcounted := hholds.counted
  have hreceived : loop.received + ((reads.chunk first n).length : ℤ) =
      (reads.arrived first (n + 1)).length := by
    rw [SslReads.arrived_succ, List.length_append, hholds.received]
    push_cast
    rfl
  have htoNat : (loop.received + ((reads.chunk first n).length : ℤ)).toNat =
      (reads.arrived first (n + 1)).length := by
    rw [hreceived, Int.toNat_natCast]
  have hlength : (reads.arrived first (n + 1)).length =
      (reads.arrived first n).length + (reads.chunk first n).length := by
    rw [SslReads.arrived_succ, List.length_append]
  unfold BodyLoop.extended
  rw [← SslReads.arrived_succ]
  refine ⟨?_, hreceived, ?_, ?_, ?_, ?_⟩
  · simp only [List.length_append, List.length_drop, List.length_singleton]
    omega
  · simp only [hreceived]
    unfold bufferSize at *
    omega
  · simp only [htoNat, List.take_left]
  · simp [htoNat]
  · simp only
    omega

/-- One turn of a loop that satisfies the invariant. -/
theorem LoopStage.step_looping (hholds : loop.Holds reads req first n) :
    LoopStage.step reads req n (.looping loop) =
      if loop.Continues req then
        if reads.chunk first n = [] then .left loop true
        else .looping
          (loop.extended (reads.arrived first n) (reads.chunk first n))
      else .left loop false := by
  have hcontents := hholds.contents
  rw [hholds.toNat_received] at hcontents
  simp only [LoopStage.step, hholds.deliver_eq,
    BodyLoop.extend_eq hholds.received hcontents hholds.room]

/-- Why a loop was left after `n` reads. -/
def BodyLoop.LeftAt (loop : BodyLoop) (reads : SslReads) (req : HttpRequest)
    (first : Bytes) (n : ℕ) (failed : Bool) : Prop :=
  if failed then loop.Continues req ∧ reads.chunk first n = []
  else ¬loop.Continues req

/-- After `n` turns the loop goes on, having read something in each of them, or
it was left in an earlier one. -/
theorem bodyLoop_cases (reads : SslReads) (req : HttpRequest)
    (hfirst : first.length ≤ bufferSize - 1) (n : ℕ) :
    (∃ loop, bodyLoop reads req first n = .looping loop ∧
        loop.Holds reads req first n ∧ n + first.length ≤ loop.received) ∨
      ∃ loop failed k, bodyLoop reads req first n = .left loop failed ∧ k < n ∧
        bodyLoop reads req first k = .looping loop ∧
        loop.Holds reads req first k ∧ loop.LeftAt reads req first k failed := by
  induction n with
  | zero =>
      exact Or.inl ⟨_, rfl, BodyLoop.holds_begin hfirst, by simp [BodyLoop.begin]⟩
  | succ n ih =>
      rcases ih with ⟨loop, hloop, hholds, hprogress⟩ |
        ⟨loop, failed, k, hleft, hk, hloop, hholds, hwhy⟩
      · have hstep : bodyLoop reads req first (n + 1) =
            LoopStage.step reads req n (.looping loop) := by
          rw [bodyLoop, hloop]
        rw [LoopStage.step_looping hholds] at hstep
        by_cases hcontinues : loop.Continues req
        · rw [if_pos hcontinues] at hstep
          by_cases hread : reads.chunk first n = []
          · rw [if_pos hread] at hstep
            exact Or.inr ⟨loop, true, n, hstep, by omega, hloop, hholds,
              hcontinues, hread⟩
          · rw [if_neg hread] at hstep
            have hpos := List.length_pos_iff.mpr hread
            refine Or.inl ⟨_, hstep, hholds.extended, ?_⟩
            simp only [BodyLoop.extended]
            push_cast
            omega
        · rw [if_neg hcontinues] at hstep
          exact Or.inr ⟨loop, false, n, hstep, by omega, hloop, hholds,
            hcontinues⟩
      · refine Or.inr ⟨loop, failed, k, ?_, by omega, hloop, hholds, hwhy⟩
        rw [bodyLoop, hleft]
        rfl

theorem bodyLoop_ne_overrun (hfirst : first.length ≤ bufferSize - 1) (n : ℕ) :
    bodyLoop reads req first n ≠ .overrun := by
  rcases bodyLoop_cases reads req hfirst n with ⟨loop, hloop, -⟩ | ⟨loop, failed, k, hleft, -⟩
  · simp [hloop]
  · simp [hleft]

theorem holds_of_looping (hfirst : first.length ≤ bufferSize - 1)
    (hloop : bodyLoop reads req first n = .looping loop) :
    loop.Holds reads req first n := by
  rcases bodyLoop_cases reads req hfirst n with
    ⟨other, hother, hholds, -⟩ | ⟨other, failed, k, hleft, -⟩
  · rw [hother, LoopStage.looping.injEq] at hloop
    exact hloop ▸ hholds
  · simp [hleft] at hloop

/-- Each turn reads at least one byte, so the loop is left in time. -/
theorem exists_left (reads : SslReads) (req : HttpRequest)
    (hfirst : first.length ≤ bufferSize - 1) :
    ∃ loop failed n, bodyLoop reads req first bufferSize = .left loop failed ∧
      bodyLoop reads req first n = .looping loop ∧
      loop.Holds reads req first n ∧ loop.LeftAt reads req first n failed := by
  rcases bodyLoop_cases reads req hfirst bufferSize with
    ⟨loop, hloop, hholds, hprogress⟩ | ⟨loop, failed, n, hleft, -, hloop, hholds, hwhy⟩
  · have hwithin := hholds.within
    unfold bufferSize at *
    omega
  · exact ⟨loop, failed, n, hleft, hloop, hholds, hwhy⟩

/-! ## The session that contains the loop -/

def SslReads.chunks (reads : SslReads) (first : Bytes) (n : ℕ) : List Bytes :=
  (List.range n).map (reads.chunk first)

theorem SslReads.run_chunks_succ (session : Session) (n : ℕ) :
    session.run (reads.chunks first (n + 1)) =
      (session.run (reads.chunks first n)).step (reads.chunk first n) := by
  simp [SslReads.chunks, List.range_succ, Session.run_append]

theorem looping_of_looping_succ {after : BodyLoop}
    (hfirst : first.length ≤ bufferSize - 1)
    (hafter : bodyLoop reads req first (n + 1) = .looping after) :
    ∃ loop, bodyLoop reads req first n = .looping loop ∧ loop.Continues req ∧
      reads.chunk first n ≠ [] ∧
      after = loop.extended (reads.arrived first n) (reads.chunk first n) := by
  rcases bodyLoop_cases reads req hfirst n with
    ⟨loop, hloop, hholds, -⟩ | ⟨loop, failed, k, hleft, -⟩
  · rw [bodyLoop, hloop, LoopStage.step_looping hholds] at hafter
    split_ifs at hafter with hcontinues hread
    rw [LoopStage.looping.injEq] at hafter
    exact ⟨loop, hloop, hcontinues, hread, hafter.symm⟩
  · rw [bodyLoop, hleft] at hafter
    simp [LoopStage.step] at hafter

/-- The machine of the session holds the bytes of the buffer. -/
theorem run_chunks_eq_drain (hfirst : first.length ≤ bufferSize - 1)
    (session : Session) (hloop : bodyLoop reads req first n = .looping loop) :
    ∃ consumed,
      (session.drain req first (initialBodyReceived req first)).run
          (reads.chunks first n) =
        Session.drain { session with consumed := consumed } req
          (reads.arrived first n) loop.bodyReceived := by
  induction n generalizing loop with
  | zero =>
      have hbegin : BodyLoop.begin req first = loop := by
        simpa [bodyLoop] using hloop
      exact ⟨session.consumed, by rw [← hbegin]; rfl⟩
  | succ n ih =>
      obtain ⟨before, hbefore, hcontinues, hread, rfl⟩ :=
        looping_of_looping_succ hfirst hloop
      have hholds := holds_of_looping hfirst hbefore
      obtain ⟨consumed, hrun⟩ := ih hbefore
      have hguard : before.bodyReceived < req.contentLength ∧
          (reads.arrived first n).length < bufferSize - 1 := by
        have hreceived := hholds.received
        obtain ⟨hbody, hroom⟩ := hcontinues
        refine ⟨hbody, ?_⟩
        unfold bufferSize at *
        omega
      refine ⟨consumed + (reads.chunk first n).length, ?_⟩
      rw [SslReads.run_chunks_succ, hrun, Session.drain, if_pos hguard]
      simp only [Session.step, if_neg hread]
      rfl

/-- The session hands the bytes of the buffer to the router. -/
theorem exists_routed (hfirst : first.length ≤ bufferSize - 1)
    (session : Session) {failed : Bool}
    (hloop : bodyLoop reads req first n = .looping loop)
    (hwhy : loop.LeftAt reads req first n failed) :
    ∃ count,
      ((session.drain req first (initialBodyReceived req first)).run
        (reads.chunks first count)).events =
          session.events ++ [.routed req (reads.arrived first n)] := by
  have hholds := holds_of_looping hfirst hloop
  have hreceived := hholds.received
  obtain ⟨consumed, hrun⟩ := run_chunks_eq_drain hfirst session hloop
  have hguard : (loop.bodyReceived < req.contentLength ∧
      (reads.arrived first n).length < bufferSize - 1) ↔ loop.Continues req := by
    unfold BodyLoop.Continues bufferSize
    omega
  cases failed with
  | true =>
      obtain ⟨hcontinues, hread⟩ := hwhy
      refine ⟨n + 1, ?_⟩
      rw [SslReads.run_chunks_succ, hrun, Session.drain,
        if_pos (hguard.mpr hcontinues), hread]
      rfl
  | false =>
      refine ⟨n, ?_⟩
      rw [hrun, Session.drain, if_neg (mt hguard.mp hwhy)]
      rfl

/-- Reading the body of a `POST` that is in the first read only in part. -/
theorem body_reassembled (hparse : parseHttpRequest first = some req)
    (hpost : req.method = .post) (hlength : 0 < req.contentLength)
    (hfirst : first.length ≤ bufferSize - 1) {start : ℕ}
    (hstart : req.bodyStart = some start) (reads : SslReads)
    (session : Session) :
    (∀ n, bodyLoop reads req first n ≠ .overrun) ∧
    (∀ n loop, bodyLoop reads req first n = .looping loop →
      loop.memory.length = bufferSize ∧ loop.received ≤ bufferSize - 1 ∧
      loop.bodyReceived = loop.received - start ∧
      loop.memory.take loop.received.toNat = reads.arrived first n ∧
      loop.memory[loop.received.toNat]? = some 0 ∧
      (loop.Continues req → 0 < readRoom loop.received ∧
        loop.received + readRoom loop.received ≤ bufferSize - 1)) ∧
    ∃ loop failed n, bodyLoop reads req first bufferSize = .left loop failed ∧
      bodyLoop reads req first n = .looping loop ∧
      (failed = true → reads.chunk first n = []) ∧
      (failed = false → req.contentLength ≤ loop.bodyReceived ∨
        loop.received = bufferSize - 1) ∧
      (∃ count, ((session.accept first).run (reads.chunks first count)).events =
        session.events ++
          [.routed req (loop.memory.take loop.received.toNat)]) ∧
      (start + req.contentLength ≤ bufferSize - 1 → failed = false →
        req.contentLength ≤
          ((loop.memory.take loop.received.toNat).drop start).length) := by
  have hcount {n : ℕ} {loop : BodyLoop} (hholds : loop.Holds reads req first n) :
      loop.bodyReceived = loop.received - start := by
    rw [hholds.counted, initialBodyReceived, hstart]
    ring
  refine ⟨bodyLoop_ne_overrun hfirst, ?_, ?_⟩
  · intro n loop hloop
    have hholds := holds_of_looping hfirst hloop
    have hreceived := hholds.received
    refine ⟨hholds.size, hholds.within, hcount hholds, hholds.contents,
      hholds.terminated, ?_⟩
    rintro ⟨-, hroom⟩
    rw [readRoom_eq (by omega) hholds.within]
    omega
  · obtain ⟨loop, failed, n, hleft, hloop, hholds, hwhy⟩ :=
      exists_left reads req hfirst
    have hbody := hcount hholds
    have hreceived := hholds.received
    have hwithin := hholds.within
    have hends : failed = false → req.contentLength ≤ loop.bodyReceived ∨
        loop.received = bufferSize - 1 := by
      rintro rfl
      have hstop : ¬loop.Continues req := hwhy
      unfold BodyLoop.Continues at hstop
      omega
    refine ⟨loop, failed, n, hleft, hloop, ?_, hends, ?_, ?_⟩
    · rintro rfl
      exact hwhy.2
    · have haccept : session.accept first =
          session.drain req first (initialBodyReceived req first) := by
        simp [Session.accept, hparse, hpost, hlength]
      rw [haccept, hholds.contents]
      exact exists_routed hfirst session hloop hwhy
    · intro hfits hfailed
      rw [hholds.contents, List.length_drop]
      have hend := hends hfailed
      omega

def headOfTwo : Bytes := ascii "POST / HTTP/1.1\r\nContent-Length: 2\r\n\r\n"

def requestOfTwo : HttpRequest where
  method := .post
  path := ⟨ascii "/", slash_lt_maxPathSize, nulFree_slash⟩
  contentLength := 2
  bodyStart := some 38
  keepAlive := true

/-- A body that arrives byte by byte. -/
def byteByByte : SslReads where
  deliver := fun n room => ([ascii "o", ascii "k"].getD n []).take room
  fits := by
    intro n room
    rw [List.length_take]
    omega

theorem body_reassembled_byteByByte :
    parseHttpRequest headOfTwo = some requestOfTwo ∧
      ∃ loop failed, bodyLoop byteByByte requestOfTwo headOfTwo bufferSize =
        .left loop failed ∧
        (failed = false → requestOfTwo.contentLength ≤
          ((loop.memory.take loop.received.toNat).drop 38).length) := by
  have hparse : parseHttpRequest headOfTwo = some requestOfTwo := by
    decide +kernel
  obtain ⟨-, -, loop, failed, n, hleft, -, -, -, -, hwhole⟩ :=
    body_reassembled hparse rfl (by decide) (by decide) (show _ = some 38 from rfl)
      byteByByte Session.initial
  exact ⟨hparse, loop, failed, hleft, hwhole (by decide)⟩

end Lith
