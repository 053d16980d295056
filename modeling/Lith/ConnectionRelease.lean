import Lith.ClientHandler
import Lith.OwnedTokens
import Lith.PoolDrain

/-!
# What a worker takes for a connection it releases

A TLS object and a block for the request are all that a worker takes for a
connection.  Whatever fails on the way, and however the workers take turns, what is
live is what some worker is still going to release, no two workers have the same,
and the TLS object is released before its socket is closed.
-/

namespace Lith

open CString

section Steps

variable {Thread : Type*} [DecidableEq Thread] {useCache : ℤ}
  {publicDir : CharArray 256} {Admits : Files → Prop} {first : Socket → UInt8}
  {thread : Thread}
  {state after : HandlerState Thread}

theorem WorkerStep.sessions {byte : UInt8} {view next : WorkerView}
    (hstep : WorkerStep useCache publicDir Admits byte view next) :
    TokenStep view.sessions view.pc.ssl next.sessions next.pc.ssl := by
  cases hstep with
  | newSession ssl hpc hfresh => exact .takes ssl hfresh (by rw [hpc]; rfl)
  | refuses ssl hpc => exact .gives ssl (by rw [hpc]; rfl)
  | sslFrees ssl hpc => exact .gives ssl (by rw [hpc]; rfl)
  | _ =>
      rw [‹view.pc = _›]
      exact .keeps

theorem WorkerStep.requests {byte : UInt8} {view next : WorkerView}
    (hstep : WorkerStep useCache publicDir Admits byte view next) :
    TokenStep view.requests view.pc.request next.requests next.pc.request := by
  cases hstep with
  | allocates ssl req hpc hfresh => exact .takes req hfresh (by rw [hpc]; rfl)
  | frees ssl req hpc => exact .gives req (by rw [hpc]; rfl)
  | _ =>
      rw [‹view.pc = _›]
      exact .keeps

theorem owned_update {live later : Finset ℕ} {pointer : HandlerPc → Option ℕ}
    {pcs : Thread → HandlerPc} (howned : Owned live (pointer ∘ pcs)) {pc : HandlerPc}
    (hstep : TokenStep live (pointer (pcs thread)) later (pointer pc)) :
    Owned later (pointer ∘ Function.update pcs thread pc) := by
  rw [Function.comp_update]
  exact howned.step hstep

theorem HandlerPc.pointers_of_stage {pc : HandlerPc}
    (houtside : pc.stage = none ∨ pc.stage = some .close) :
    pc.ssl = none ∧ pc.request = none := by
  cases pc <;> first | exact ⟨rfl, rfl⟩ | (rcases houtside with h | h <;> cases h)

theorem HandlerPc.pointers_entered (pc : PoolPc) :
    (entered pc).ssl = none ∧ (entered pc).request = none := by
  cases pc <;> exact ⟨rfl, rfl⟩

/-- The request belongs to a session. -/
theorem HandlerPc.ssl_of_request {pc : HandlerPc} {req : ℕ}
    (hrequest : pc.request = some req) : ∃ ssl, pc.ssl = some ssl := by
  cases pc <;> first | exact ⟨_, rfl⟩ | cases hrequest

structure HandlerState.Owns (state : HandlerState Thread) : Prop where
  sessions : Owned state.sessions (HandlerPc.ssl ∘ state.pcs)
  requests : Owned state.requests (HandlerPc.request ∘ state.pcs)

/-- At a read of its session a worker keeps what it has. -/
theorem HandlerState.Owns.serves (howns : state.Owns) {socket : Socket} {ssl req : ℕ}
    {session : Session} {todo : Serving}
    (hat : state.At thread socket ssl req session todo) {next : Serving}
    (hpcs : after.pcs = Function.update state.pcs thread (.serve ssl req session next))
    (hsessions : after.sessions = state.sessions)
    (hrequests : after.requests = state.requests) : after.Owns := by
  constructor
  · rw [hpcs, hsessions]
    refine owned_update howns.sessions ?_
    rw [hat.pc]
    exact .keeps
  · rw [hpcs, hrequests]
    refine owned_update howns.requests ?_
    rw [hat.pc]
    exact .keeps

theorem HandlerState.Owns.step (howns : state.Owns)
    (hstep : HandlerStep useCache publicDir Admits first state thread after) :
    after.Owns := by
  cases hstep with
  | pool pool houtside hpool =>
      obtain ⟨hssl, hrequest⟩ := HandlerPc.pointers_of_stage houtside
      obtain ⟨hnoSsl, hnoRequest⟩ := HandlerPc.pointers_entered (pool.pcs thread)
      refine ⟨owned_update howns.sessions ?_, owned_update howns.requests ?_⟩
      · rw [hssl, hnoSsl]
        exact .keeps
      · rw [hrequest, hnoRequest]
        exact .keeps
  | work socket stage next view hserving hwork hnext =>
      exact ⟨owned_update howns.sessions hwork.sessions,
        owned_update howns.requests hwork.requests⟩
  | looksUp socket ssl req session request buffer hat hget hsafe hcache houtside =>
      exact howns.serves hat rfl rfl rfl
  | route socket ssl req session request routes hat hinside hroute hloads =>
      exact howns.serves hat rfl rfl rfl
  | fails socket ssl req session todo call hat hsends hidle =>
      exact howns.serves hat rfl rfl rfl
  | page socket ssl req session label pages hat hbusy hmine hpage =>
      exact howns.serves hat rfl rfl rfl

theorem owns_of_reachable
    (hreach : (handlerSystem Thread useCache publicDir Admits first).Reachable state) :
    state.Owns := by
  apply hreach.invariant
  · rintro start ⟨-, -, -, -, hpcs, -, hsessions, hrequests⟩
    constructor
    · rw [hsessions]
      exact Owned.of_empty fun thread => by simp [hpcs, HandlerPc.ssl]
    · rw [hrequests]
      exact Owned.of_empty fun thread => by simp [hpcs, HandlerPc.request]
  · intro before thread after howns hstep
    exact howns.step hstep

end Steps

variable {Thread : Type*} [DecidableEq Thread] {useCache : ℤ}
  {publicDir : CharArray 256} {Admits : Files → Prop} {first : Socket → UInt8}
  {state : HandlerState Thread}

/-- The TLS objects and the requests, and the sockets that they belong to. -/
structure HandlerState.Accounted (state : HandlerState Thread) : Prop where
  owns : state.Owns
  onSocket : ∀ thread ssl, (state.pcs thread).ssl = some ssl →
    ∃ socket stage, state.pool.pcs thread = .serving socket stage ∧
      socket ∉ state.pool.closed ∧
      ∀ other next, state.pool.pcs other = .serving socket next → other = thread
  inSession : ∀ thread req, (state.pcs thread).request = some req →
    ∃ ssl ∈ state.sessions, (state.pcs thread).ssl = some ssl
  bounded : ∀ workers : Finset Thread,
    (∀ thread, (state.pool.pcs thread).Works → thread ∈ workers) →
      state.sessions.card ≤ workers.card ∧ state.requests.card ≤ workers.card
  released : (∀ thread, (state.pcs thread).ssl = none) →
    state.sessions = ∅ ∧ state.requests = ∅

/-- In every run of the server, through every failure, what the workers have taken
and not released is what they are at, one connection each. -/
theorem connections_accounted
    (hreach : (handlerSystem Thread useCache publicDir Admits first).Reachable state) :
    state.Accounted := by
  have howns := owns_of_reachable hreach
  obtain ⟨hpool, hagrees⟩ := pool_of_reachable hreach
  have hone := oneOwner_of_reachable hpool
  have hserving {thread : Thread} {ssl : ℕ} (hssl : (state.pcs thread).ssl = some ssl) :
      ∃ socket stage, state.pool.pcs thread = .serving socket stage := by
    have hstage : ∃ stage, (state.pcs thread).stage = some stage := by
      cases hpc : state.pcs thread <;> rw [hpc] at hssl <;>
        first | exact ⟨_, rfl⟩ | cases hssl
    obtain ⟨stage, hstage⟩ := hstage
    rw [hagrees thread] at hstage
    obtain ⟨socket, hpc⟩ := PoolPc.serving_of_stage hstage
    exact ⟨socket, stage, hpc⟩
  have hworks {thread : Thread} {ssl : ℕ} (hssl : (state.pcs thread).ssl = some ssl) :
      (state.pool.pcs thread).Works := by
    obtain ⟨socket, stage, hpc⟩ := hserving hssl
    rw [hpc]
    trivial
  refine ⟨howns, ?_, ?_, fun workers hworkers => ⟨?_, ?_⟩, ?_⟩
  · intro thread ssl hssl
    obtain ⟨socket, stage, hpc⟩ := hserving hssl
    have hholds : (state.pool.pcs thread).holds state.pool.pushed = some socket := by
      rw [hpc]
      rfl
    refine ⟨socket, stage, hpc, hone.notClosed thread socket hholds, ?_⟩
    intro other next hother
    exact hone.oneThread other thread socket (by rw [hother]; rfl) hholds
  · intro thread req hrequest
    obtain ⟨ssl, hssl⟩ := HandlerPc.ssl_of_request hrequest
    exact ⟨ssl, howns.sessions.live_of_held hssl, hssl⟩
  · exact howns.sessions.card_le fun thread ssl hssl => hworkers thread (hworks hssl)
  · refine howns.requests.card_le fun thread req hrequest => hworkers thread ?_
    obtain ⟨ssl, hssl⟩ := HandlerPc.ssl_of_request hrequest
    exact hworks hssl
  · intro hnone
    refine ⟨howns.sessions.eq_empty hnone, howns.requests.eq_empty fun thread => ?_⟩
    cases hrequest : (state.pcs thread).request with
    | none => exact hrequest
    | some req =>
        obtain ⟨ssl, hssl⟩ := HandlerPc.ssl_of_request hrequest
        rw [hnone thread] at hssl
        cases hssl

theorem connections_accounted_reading :
    ∃ state : HandlerState (Fin 3), (state.pcs 1).ssl = some 7 ∧
      (state.pcs 1).request = some 9 ∧ state.Accounted := by
  obtain ⟨state, hreach, -, hpc, -⟩ :=
    @exists_reading_client 1 (strncpy 255 (ascii "public")) (fun _ => True) trivial
  refine ⟨state, ?_, ?_, connections_accounted hreach.of_restrict⟩
  · rw [hpc]
    rfl
  · rw [hpc]
    rfl

end Lith
