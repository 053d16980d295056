import Lith.ClientSession
import Lith.HeadParsing

/-!
# How the byte stream is cut into reads

The keep-alive loop parses whatever one outer read returns.  When every read
starts at a request boundary, brings the whole head and ends inside the same
request, the router sees exactly the requests that were sent, up to the first
one that closes the connection; a body may be cut at will only behind the
head of a `POST`.  Two such cuttings of one stream are served alike.
-/

namespace Lith

open CString

/-- A request as it is sent: a head that announces the length of the body
behind it, and that fits the receive buffer together with the body. -/
structure WireRequest where
  head : Bytes
  body : Bytes
  request : HttpRequest
  whole : WholeHead head request
  declared : request.contentLength = body.length
  fits : head.length + body.length ≤ bufferSize - 1

def WireRequest.bytes (wire : WireRequest) : Bytes := wire.head ++ wire.body

structure ServedRequest where
  method : HttpMethod
  path : CharArray maxPathSize
  contentLength : ℤ
  keepAlive : Bool
  body : Bytes
  deriving DecidableEq

def servedRequest (req : HttpRequest) (buffer : Bytes) : ServedRequest where
  method := req.method
  path := req.path
  contentLength := req.contentLength
  keepAlive := req.keepAlive
  body := match req.bodyStart with
    | some start => buffer.drop start
    | none => []

def SessionEvent.served : SessionEvent → Option ServedRequest
  | .routed req buffer => some (servedRequest req buffer)
  | .parsed _ _ => none
  | .rejected => none

/-- The requests handed to the router when the stream arrives in these pieces
and the connection ends behind them. -/
def servedRequests (pieces : List Bytes) : List ServedRequest :=
  (Session.initial.run (pieces ++ [[]])).events.filterMap SessionEvent.served

/-- The reads that bring one request: the first holds the whole head, the
others exist for the body of a `POST` only. -/
structure BringsRequest (wire : WireRequest) (first : Bytes)
    (more : List Bytes) : Prop where
  headFirst : wire.head <+: first
  exact : first ++ more.flatten = wire.bytes
  nonempty : ∀ piece ∈ more, piece ≠ []
  postOnly : more ≠ [] → wire.request.method = .post

/-- Every read up to the request that closes the connection stays within one
request. -/
inductive Aligned : List WireRequest → List Bytes → Prop where
  | nil : Aligned [] []
  | cons {wire : WireRequest} {first : Bytes} {more : List Bytes}
      {wires : List WireRequest} {pieces : List Bytes}
      (hbrings : BringsRequest wire first more)
      (hrest : Aligned wires pieces) :
      Aligned (wire :: wires) (first :: (more ++ pieces))
  | closing {wire : WireRequest} {first : Bytes} {more : List Bytes}
      (wires : List WireRequest) (pieces : List Bytes)
      (hbrings : BringsRequest wire first more)
      (hclose : wire.request.keepAlive = false) :
      Aligned (wire :: wires) (first :: (more ++ pieces))

def servedUntilClose : List WireRequest → List ServedRequest
  | [] => []
  | wire :: wires =>
      servedRequest wire.request wire.bytes ::
        if wire.request.keepAlive then servedUntilClose wires else []

theorem WireRequest.head_ne_nil (wire : WireRequest) : wire.head ≠ [] := by
  obtain ⟨lines, hlines⟩ := wire.whole.exists_lineFeed
  simp [hlines]

/-- The text of the body leaves the fields of the head in place. -/
def WireRequest.Shielded (wire : WireRequest) : Prop :=
  FieldsInHead wire.head (cstr wire.body)

theorem WireRequest.parse_first {wire : WireRequest} (hshield : wire.Shielded)
    {part : Bytes} (hpart : part <+: wire.body) :
    parseHttpRequest (wire.head ++ part) = some wire.request := by
  apply wire.whole.parse_append
  · exact hshield.of_isPrefix (cstr_isPrefix hpart)
  · intro hne
    have hbody : wire.body ≠ [] := by
      intro hempty
      rw [hempty, List.prefix_nil] at hpart
      exact hne hpart
    have hpos := List.length_pos_iff.mpr hbody
    rw [wire.declared]
    omega

/-! ## One request -/

theorem Session.drain_eq_route {session : Session} {req : HttpRequest}
    {buffer : Bytes} {bodyReceived : ℤ}
    (hdone : req.contentLength ≤ bodyReceived) :
    session.drain req buffer bodyReceived = session.route req buffer := by
  unfold Session.drain
  rw [if_neg]
  omega

theorem Session.drain_eq_draining {session : Session} {req : HttpRequest}
    {buffer : Bytes} {bodyReceived : ℤ}
    (hmore : bodyReceived < req.contentLength)
    (hroom : buffer.length < bufferSize - 1) :
    session.drain req buffer bodyReceived =
      { session with phase := .draining req buffer bodyReceived } := by
  unfold Session.drain
  rw [if_pos ⟨hmore, hroom⟩]

theorem Session.run_drain (session : Session) {wire : WireRequest}
    (part : Bytes) {more : List Bytes}
    (hbody : part ++ more.flatten = wire.body)
    (hnonempty : ∀ piece ∈ more, piece ≠ []) :
    (session.drain wire.request (wire.head ++ part) part.length).run more =
      Session.route
        { session with consumed := session.consumed + more.flatten.length }
        wire.request wire.bytes := by
  induction more generalizing session part with
  | nil =>
      have hpart : part = wire.body := by simpa using hbody
      rw [Session.run_nil, Session.drain_eq_route]
      · rw [hpart]
        rfl
      · rw [wire.declared, hpart]
  | cons piece more ih =>
      have hpiece : piece ≠ [] := hnonempty piece List.mem_cons_self
      have hpos := List.length_pos_iff.mpr hpiece
      have hlen : part.length + (piece.length + more.flatten.length) =
          wire.body.length := by
        rw [← hbody]
        simp
      have hfits := wire.fits
      have hwait : session.drain wire.request (wire.head ++ part) part.length =
          Session.mk (.draining wire.request (wire.head ++ part) part.length)
            session.consumed session.events := by
        apply Session.drain_eq_draining
        · rw [wire.declared]
          omega
        · rw [List.length_append]
          omega
      have hrec := ih
        { session with consumed := session.consumed + piece.length }
        (part ++ piece) (by simpa using hbody)
        (fun other hother => hnonempty other (List.mem_cons_of_mem _ hother))
      rw [List.length_append, Nat.cast_add, ← List.append_assoc] at hrec
      rw [Session.run_cons, hwait]
      simp only [Session.step, if_neg hpiece, List.flatten_cons,
        List.length_append, ← Nat.add_assoc]
      exact hrec

theorem BringsRequest.run {wire : WireRequest} {first : Bytes}
    {more : List Bytes} (hbrings : BringsRequest wire first more)
    (hshield : wire.Shielded) {session : Session}
    (hreading : session.phase = .reading) :
    session.run (first :: more) =
      Session.mk (if wire.request.keepAlive then .reading else .closed)
        (session.consumed + (first :: more).flatten.length)
        (session.events ++ [.parsed session.consumed first] ++
          [.routed wire.request wire.bytes]) := by
  obtain ⟨part, rfl⟩ := hbrings.headFirst
  have hbody : part ++ more.flatten = wire.body := by
    have hexact := hbrings.exact
    rw [WireRequest.bytes, List.append_assoc] at hexact
    exact List.append_cancel_left hexact
  have hfirst : wire.head ++ part ≠ [] := by simp [wire.head_ne_nil]
  have hparse := WireRequest.parse_first hshield
    (hbody ▸ List.prefix_append part more.flatten)
  rw [Session.run_cons]
  simp only [Session.step, hreading, if_neg hfirst, Session.accept, hparse]
  by_cases hpost : wire.request.method = .post ∧ 0 < wire.request.contentLength
  · have hcount : initialBodyReceived wire.request (wire.head ++ part) =
        part.length := by
      simp [initialBodyReceived, wire.whole.ends]
    rw [if_pos hpost, hcount, Session.run_drain _ part hbody hbrings.nonempty]
    simp [Session.route, Session.record, Nat.add_assoc]
  · have hmore : more = [] := by
      by_contra hne
      apply hpost
      refine ⟨hbrings.postOnly hne, ?_⟩
      obtain ⟨piece, others, rfl⟩ := List.exists_cons_of_ne_nil hne
      have hpos := List.length_pos_iff.mpr
        (hbrings.nonempty piece List.mem_cons_self)
      rw [wire.declared, ← hbody]
      simp only [List.flatten_cons, List.length_append]
      omega
    subst hmore
    have hwhole : wire.head ++ part = wire.bytes := by
      simpa using hbrings.exact
    rw [if_neg hpost, Session.run_nil, hwhole]
    simp [Session.route, Session.record]

/-! ## A whole connection -/

theorem Session.run_split (session : Session) (first : Bytes)
    (more pieces : List Bytes) :
    session.run (first :: (more ++ pieces) ++ [[]]) =
      (session.run (first :: more)).run (pieces ++ [[]]) := by
  rw [← Session.run_append]
  simp

theorem served_exchange (events : List SessionEvent) (offset : ℕ)
    (first : Bytes) (req : HttpRequest) (buffer : Bytes) :
    (events ++ [SessionEvent.parsed offset first] ++
        [SessionEvent.routed req buffer]).filterMap SessionEvent.served =
      events.filterMap SessionEvent.served ++ [servedRequest req buffer] := by
  rw [List.filterMap_append, List.filterMap_append]
  simp [List.filterMap_cons, SessionEvent.served]

theorem BringsRequest.served_of_closing {wire : WireRequest} {first : Bytes}
    {more : List Bytes} (hbrings : BringsRequest wire first more)
    (hshield : wire.Shielded) (hclose : wire.request.keepAlive = false)
    {session : Session} (hreading : session.phase = .reading)
    (later : List Bytes) :
    ((session.run (first :: more)).run later).events.filterMap
        SessionEvent.served =
      session.events.filterMap SessionEvent.served ++
        [servedRequest wire.request wire.bytes] := by
  rw [hbrings.run hshield hreading, Session.run_closed (by simp [hclose])]
  exact served_exchange _ _ _ _ _

theorem served_run_aligned {wires : List WireRequest} {pieces : List Bytes}
    (haligned : Aligned wires pieces)
    (hshield : ∀ wire ∈ wires, wire.Shielded)
    {session : Session} (hreading : session.phase = .reading) :
    (session.run (pieces ++ [[]])).events.filterMap SessionEvent.served =
      session.events.filterMap SessionEvent.served ++ servedUntilClose wires := by
  induction haligned generalizing session with
  | nil => simp [Session.step, hreading, servedUntilClose]
  | @cons wire first more wires pieces hbrings hrest ih =>
      have hfirst := hshield wire List.mem_cons_self
      rw [Session.run_split, servedUntilClose]
      cases halive : wire.request.keepAlive with
      | true =>
          rw [hbrings.run hfirst hreading, ih
            (fun other hother => hshield other (List.mem_cons_of_mem _ hother))
            (by simp [halive]), served_exchange]
          simp
      | false => exact hbrings.served_of_closing hfirst halive hreading _
  | @closing wire first more wires pieces hbrings hclose =>
      have hfirst := hshield wire List.mem_cons_self
      rw [Session.run_split, servedUntilClose, hclose]
      exact hbrings.served_of_closing hfirst hclose hreading _

/-- The router is handed exactly the requests that were sent. -/
theorem servedRequests_aligned {wires : List WireRequest} {pieces : List Bytes}
    (haligned : Aligned wires pieces)
    (hshield : ∀ wire ∈ wires, wire.Shielded) :
    servedRequests pieces = servedUntilClose wires := by
  unfold servedRequests
  rw [served_run_aligned haligned hshield rfl]
  rfl

/-- Two aligned cuttings of the same requests are served alike. -/
theorem servedRequests_eq_of_aligned {wires : List WireRequest}
    {pieces pieces' : List Bytes} (haligned : Aligned wires pieces)
    (haligned' : Aligned wires pieces')
    (hshield : ∀ wire ∈ wires, wire.Shielded) :
    servedRequests pieces = servedRequests pieces' := by
  rw [servedRequests_aligned haligned hshield,
    servedRequests_aligned haligned' hshield]

def Session.Admits (session : Session) : List Bytes → Prop
  | [] => True
  | piece :: pieces =>
      piece ≠ [] ∧ (session.phase = .closed ∨ piece.length ≤ session.asked) ∧
        (session.step piece).Admits pieces

def Session.decidableAdmits : (session : Session) → (pieces : List Bytes) →
    Decidable (session.Admits pieces)
  | _, [] => inferInstanceAs (Decidable True)
  | session, piece :: pieces =>
      have := (session.step piece).decidableAdmits pieces
      inferInstanceAs (Decidable (piece ≠ [] ∧
        (session.phase = .closed ∨ piece.length ≤ session.asked) ∧
          (session.step piece).Admits pieces))

instance (session : Session) (pieces : List Bytes) :
    Decidable (session.Admits pieces) :=
  session.decidableAdmits pieces

/-- A way in which the reads may cut the stream of these requests. -/
structure IsCutting (wires : List WireRequest) (pieces : List Bytes) :
    Prop where
  stream : pieces.flatten = (wires.map WireRequest.bytes).flatten
  admitted : Session.initial.Admits pieces

def getRoot : WireRequest where
  head := ascii "GET / HTTP/1.1\r\nHost: a\r\n\r\n"
  body := []
  request := {
    method := .get
    path := ⟨ascii "/", slash_lt_maxPathSize, nulFree_slash⟩
    contentLength := 0
    bodyStart := some 27
    keepAlive := true }
  whole := ⟨by decide, by decide, by decide⟩
  declared := by decide
  fits := by decide

def postTwo : WireRequest where
  head := ascii "POST / HTTP/1.1\r\nContent-Length: 2\r\n\r\n"
  body := ascii "ab"
  request := {
    method := .post
    path := ⟨ascii "/", slash_lt_maxPathSize, nulFree_slash⟩
    contentLength := 2
    bodyStart := some 38
    keepAlive := true }
  whole := ⟨by decide, by decide, by decide⟩
  declared := by decide
  fits := by decide

theorem brings_alone (wire : WireRequest) :
    BringsRequest wire (wire.head ++ wire.body) [] where
  headFirst := List.prefix_append _ _
  exact := by simp [WireRequest.bytes]
  nonempty := by simp
  postOnly := by simp

theorem servedRequests_post_get :
    servedRequests [postTwo.head ++ ascii "ab", getRoot.head] =
      servedRequests [postTwo.head, ascii "a", ascii "b", getRoot.head] := by
  have hwhole : Aligned [postTwo, getRoot]
      [postTwo.head ++ ascii "ab", getRoot.head] :=
    Aligned.cons (brings_alone postTwo) (.cons (brings_alone getRoot) .nil)
  have hsplit : Aligned [postTwo, getRoot]
      [postTwo.head, ascii "a", ascii "b", getRoot.head] := by
    have hpost : BringsRequest postTwo postTwo.head [ascii "a", ascii "b"] :=
      ⟨List.prefix_rfl, by decide, by decide, fun _ => rfl⟩
    exact Aligned.cons hpost (.cons (brings_alone getRoot) .nil)
  apply servedRequests_eq_of_aligned hwhole hsplit
  intro wire hwire
  unfold WireRequest.Shielded
  revert wire
  decide

/-- When the blank line comes with the second read, the body is counted from
the wrong place and the router is handed no body. -/
theorem servedRequests_depends_on_cutting :
    ¬∀ wires pieces pieces', IsCutting wires pieces → IsCutting wires pieces' →
      servedRequests pieces = servedRequests pieces' := by
  intro hsame
  have hwhole : IsCutting [postTwo] [postTwo.bytes] := ⟨by decide, by decide⟩
  have hcut : IsCutting [postTwo]
      [ascii "POST / HTTP/1.1\r\nContent-Length: 2\r\n", ascii "\r\nab"] :=
    ⟨by decide, by decide⟩
  have heq := hsame _ _ _ hwhole hcut
  revert heq
  decide

end Lith
