import Lith.ClientHandler
import Lith.RouteProgress
import Lith.SocketOwnership

/-!
# The parts of the server

What all workers together do to the queue, to the cache and to the error pages is what
the models of these parts do, and a worker is inside a part only while its connection
is there: the cache lock is held by workers that serve a request from the cache, and by
nobody else.
-/

namespace Lith

open CString

section Steps

variable {Thread : Type*} [DecidableEq Thread] {useCache : ℤ}
  {publicDir : CharArray 256} {Admits : Files → Prop} {first : Socket → UInt8}
  {thread : Thread} {state after : HandlerState Thread}

theorem ErrorStep.pc_of_ne {pages later : ErrorState Thread} {label : ErrorLabel Thread}
    (hstep : ErrorStep pages label later) {other : Thread}
    (hother : other ≠ label.worker) : later.pc other = pages.pc other := by
  cases hstep <;> exact Function.update_of_ne hother ..

/-- What the other workers are at stays as it is. -/
theorem HandlerStep.frame
    (hstep : HandlerStep useCache publicDir Admits first state thread after)
    {other : Thread} (hother : other ≠ thread) :
    after.pcs other = state.pcs other ∧
      after.routes.pcs other = state.routes.pcs other ∧
      after.pages.pc other = state.pages.pc other := by
  cases hstep with
  | pool pool houtside hpool => exact ⟨Function.update_of_ne hother .., rfl, rfl⟩
  | work socket stage next view hserving hwork hnext =>
      exact ⟨Function.update_of_ne hother .., rfl, rfl⟩
  | looksUp socket ssl req session request buffer hat hget hsafe hcache houtside =>
      exact ⟨Function.update_of_ne hother .., Function.update_of_ne hother .., rfl⟩
  | route socket ssl req session request routes hat hinside hroute hloads =>
      exact ⟨Function.update_of_ne hother .., hroute.pcs_of_ne hother, rfl⟩
  | fails socket ssl req session todo call hat hsends hidle =>
      exact ⟨Function.update_of_ne hother .., rfl, Function.update_of_ne hother ..⟩
  | page socket ssl req session label pages hat hbusy hmine hpage =>
      refine ⟨Function.update_of_ne hother .., rfl, hpage.pc_of_ne ?_⟩
      rw [hmine]
      exact hother

theorem HandlerStep.routes_step
    (hstep : HandlerStep useCache publicDir Admits first state thread after) :
    after.routes = state.routes ∨ LockingStep state.routes thread after.routes := by
  cases hstep with
  | looksUp socket ssl req session request buffer hat hget hsafe hcache houtside =>
      exact Or.inr (.enter _ thread request _ houtside)
  | route socket ssl req session request routes hat hinside hroute hloads =>
      exact Or.inr hroute
  | _ => exact Or.inl rfl

theorem HandlerStep.pages_step
    (hstep : HandlerStep useCache publicDir Admits first state thread after) :
    after.pages = state.pages ∨ ∃ label : ErrorLabel Thread, label.worker = thread ∧
      ErrorStep state.pages label after.pages := by
  cases hstep with
  | fails socket ssl req session todo call hat hsends hidle =>
      exact Or.inr ⟨.call thread call, rfl, .call call hidle⟩
  | page socket ssl req session label pages hat hbusy hmine hpage =>
      exact Or.inr ⟨label, hmine, hpage⟩
  | _ => exact Or.inl rfl

/-! ## Where a worker is inside -/

/-- Behind the last unlock, and at the disk, the worker is outside again. -/
theorem LockingStep.leads_of_inside {routes later : LockingState Thread}
    (hstep : LockingStep routes thread later) (hinside : later.pcs thread ≠ .outside)
    (request : HttpRequest) : (routes.pcs thread).leads request = .cached request := by
  cases hstep with
  | diskAnswer req path hpc => simp [LockingState.goto] at hinside
  | servedUnlock hpc => simp [LockingState.goto] at hinside
  | _ =>
      rw [‹routes.pcs thread = _›]
      rfl

theorem ErrorStep.leads_of_busy {pages later : ErrorState Thread}
    {label : ErrorLabel Thread} (hstep : ErrorStep pages label later)
    (hbusy : later.pc label.worker ≠ .idle) :
    (pages.pc label.worker).leads = .error ∨ pages.pc label.worker = .idle := by
  cases hstep with
  | call call hpc => exact Or.inr hpc
  | writeBody hpc => simp [ErrorState.move, ErrorLabel.worker] at hbusy
  | generate hpc | format hpc | writeHeader hpc =>
      refine Or.inl ?_
      rw [ErrorLabel.worker, hpc]
      rfl

structure HandlerState.Placed (state : HandlerState Thread) : Prop where
  route : ∀ thread, state.routes.pcs thread ≠ .outside → ∃ ssl req session request,
    state.pcs thread = .serve ssl req session (.cached request)
  page : ∀ thread, state.pages.pc thread ≠ .idle → ∃ ssl req session,
    state.pcs thread = .serve ssl req session .error

omit [DecidableEq Thread] in
/-- A worker that is neither in the branch of the cache nor in `send_http_error`. -/
theorem HandlerState.Placed.outside (hplaced : state.Placed)
    (hcached : ∀ ssl req session request,
      state.pcs thread ≠ .serve ssl req session (.cached request)) :
    state.routes.pcs thread = .outside := by
  by_contra hinside
  obtain ⟨ssl, req, session, request, hpc⟩ := hplaced.route thread hinside
  exact hcached ssl req session request hpc

omit [DecidableEq Thread] in
theorem HandlerState.Placed.idle (hplaced : state.Placed)
    (herror : ∀ ssl req session, state.pcs thread ≠ .serve ssl req session .error) :
    state.pages.pc thread = .idle := by
  by_contra hbusy
  obtain ⟨ssl, req, session, hpc⟩ := hplaced.page thread hbusy
  exact herror ssl req session hpc

theorem WorkerStep.not_inside {byte : UInt8} {view next : WorkerView}
    (hstep : WorkerStep useCache publicDir Admits byte view next) :
    (∀ ssl req session request,
        view.pc ≠ .serve ssl req session (.cached request)) ∧
      ∀ ssl req session, view.pc ≠ .serve ssl req session .error := by
  cases hstep <;> simp_all

theorem HandlerState.Placed.step (hplaced : state.Placed)
    (hstep : HandlerStep useCache publicDir Admits first state thread after) :
    after.Placed := by
  have hmine : (after.routes.pcs thread ≠ .outside → ∃ ssl req session request,
        after.pcs thread = .serve ssl req session (.cached request)) ∧
      (after.pages.pc thread ≠ .idle → ∃ ssl req session,
        after.pcs thread = .serve ssl req session .error) := by
    cases hstep with
    | pool pool houtside hpool =>
        have hplain {ssl req : ℕ} {session : Session} {todo : Serving} :
            state.pcs thread ≠ .serve ssl req session todo := by
          intro hpc
          rw [hpc] at houtside
          rcases houtside with houtside | houtside <;> cases houtside
        exact ⟨fun h => absurd (hplaced.outside fun _ _ _ _ => hplain) h,
          fun h => absurd (hplaced.idle fun _ _ _ => hplain) h⟩
    | work socket stage next view hserving hwork hnext =>
        obtain ⟨hcached, herror⟩ := hwork.not_inside
        exact ⟨fun h => absurd (hplaced.outside hcached) h,
          fun h => absurd (hplaced.idle herror) h⟩
    | looksUp socket ssl req session request buffer hat hget hsafe hcache houtside =>
        refine ⟨fun _ => ⟨ssl, req, session, request, Function.update_self ..⟩,
          fun h => absurd (hplaced.idle ?_) h⟩
        simp [hat.pc]
    | route socket ssl req session request routes hat hinside hroute hloads =>
        refine ⟨fun h => ⟨ssl, req, session, request, ?_⟩,
          fun h => absurd (hplaced.idle ?_) h⟩
        · simp only [HandlerState.serve, Function.update_self,
            hroute.leads_of_inside h request]
        · simp [hat.pc]
    | fails socket ssl req session todo call hat hsends hidle =>
        refine ⟨fun h => absurd (hplaced.outside ?_) h,
          fun _ => ⟨ssl, req, session, Function.update_self ..⟩⟩
        cases hsends <;> simp [hat.pc]
    | page socket ssl req session label pages hat hbusy hmine hpage =>
        refine ⟨fun h => absurd (hplaced.outside ?_) h, fun h => ⟨ssl, req, session, ?_⟩⟩
        · simp [hat.pc]
        · subst hmine
          have hleads := (hpage.leads_of_busy h).resolve_right hbusy
          simp only [HandlerState.serve, Function.update_self, hleads]
  constructor
  · intro other hinside
    by_cases hother : other = thread
    · subst hother
      exact hmine.1 hinside
    · obtain ⟨hpc, hroute, -⟩ := hstep.frame hother
      rw [hroute] at hinside
      rw [hpc]
      exact hplaced.route other hinside
  · intro other hbusy
    by_cases hother : other = thread
    · subst hother
      exact hmine.2 hbusy
    · obtain ⟨hpc, -, hpage⟩ := hstep.frame hother
      rw [hpage] at hbusy
      rw [hpc]
      exact hplaced.page other hbusy

theorem placed_of_reachable
    (hreach : (handlerSystem Thread useCache publicDir Admits first).Reachable state) :
    state.Placed := by
  apply hreach.invariant
  · rintro start ⟨-, ⟨-, hroutes, -, -⟩, ⟨-, hpages⟩, -⟩
    exact ⟨fun thread h => absurd (hroutes thread) h,
      fun thread h => absurd (hpages thread) h⟩
  · intro before thread after hplaced hstep
    exact hplaced.step hstep

theorem routes_of_reachable
    (hreach : (handlerSystem Thread useCache publicDir Admits first).Reachable state) :
    (lockingSystem Thread).Reachable state.routes := by
  apply hreach.invariant
    (P := fun state => (lockingSystem Thread).Reachable state.routes)
  · exact fun start hstart => .start hstart.2.1
  · intro before thread after hroutes hstep
    rcases hstep.routes_step with hsame | hroute
    · rw [hsame]
      exact hroutes
    · exact hroutes.next thread hroute

theorem pages_of_reachable
    (hreach : (handlerSystem Thread useCache publicDir Admits first).Reachable state) :
    (errorSystem Thread).Reachable state.pages := by
  apply hreach.invariant (P := fun state => (errorSystem Thread).Reachable state.pages)
  · exact fun start hstart => .start hstart.2.2.1
  · intro before thread after hpages hstep
    rcases hstep.pages_step with hsame | ⟨label, -, hpage⟩
    · rw [hsame]
      exact hpages
    · exact hpages.next label hpage

end Steps

/-! ## The parts together -/

variable {Thread : Type*} [DecidableEq Thread] {useCache : ℤ}
  {publicDir : CharArray 256} {Admits : Files → Prop} {first : Socket → UInt8}
  {state : HandlerState Thread}

/-- Each part is where it can be by itself, and who holds the cache lock or uses the
page is at a request of an open socket. -/
structure HandlerState.Composed (state : HandlerState Thread) : Prop where
  pool : (poolSystem Thread).Reachable state.pool
  routes : (lockingSystem Thread).Reachable state.routes
  pages : (errorSystem Thread).Reachable state.pages
  lockWithin : ∀ thread, state.routes.lock.Holds thread →
    ∃ socket ∉ state.pool.closed, ∃ ssl req session request,
      state.At thread socket ssl req session (.cached request)
  pageWithin : ∀ thread, state.pages.pc thread ≠ .idle →
    ∃ socket ∉ state.pool.closed, ∃ ssl req session,
      state.At thread socket ssl req session .error

/-- The server with all its workers is made of the pool, the cache with its lock and the
error pages, and nobody waits for a request, for the queue or for a page while it holds
the cache lock. -/
theorem server_composed
    (hreach : (handlerSystem Thread useCache publicDir Admits first).Reachable state) :
    state.Composed := by
  obtain ⟨hpool, hagrees⟩ := pool_of_reachable hreach
  have hplaced := placed_of_reachable hreach
  have hroutes := routes_of_reachable hreach
  have hone := oneOwner_of_reachable hpool
  have hat {thread : Thread} {ssl req : ℕ} {session : Session} {todo : Serving}
      (hpc : state.pcs thread = .serve ssl req session todo) :
      ∃ socket ∉ state.pool.closed, state.At thread socket ssl req session todo := by
    have hstage := hagrees thread
    rw [hpc] at hstage
    obtain ⟨socket, hserving⟩ := PoolPc.serving_of_stage hstage.symm
    refine ⟨socket, hone.notClosed thread socket ?_, hserving, hpc⟩
    rw [hserving]
    rfl
  refine ⟨hpool, hroutes, pages_of_reachable hreach, ?_, ?_⟩
  · intro thread hholds
    have hinside : state.routes.pcs thread ≠ .outside := by
      intro houtside
      have hinv : state.routes.Inv := hroutes.invariant
        (fun _ => LockingState.inv_of_start) fun _ _ _ hinv hstep => hinv.step hstep
      have hmode := (hinv.agrees.holds_iff thread).mp hholds
      rw [houtside] at hmode
      exact hmode rfl
    obtain ⟨ssl, req, session, request, hpc⟩ := hplaced.route thread hinside
    obtain ⟨socket, hopen, hmine⟩ := hat hpc
    exact ⟨socket, hopen, ssl, req, session, request, hmine⟩
  · intro thread hbusy
    obtain ⟨ssl, req, session, hpc⟩ := hplaced.page thread hbusy
    obtain ⟨socket, hopen, hmine⟩ := hat hpc
    exact ⟨socket, hopen, ssl, req, session, hmine⟩

def indexRequest : Bytes := ascii "GET / HTTP/1.1\r\n\r\n"

/-- The worker looks the file of its client up, with the read lock. -/
theorem server_composed_lookup :
    ∃ state : HandlerState (Fin 3), state.routes.lock.Holds 1 ∧ state.Composed := by
  let publicDir := strncpy 255 (ascii "public")
  obtain ⟨state, hreading, hserving, hpc, -, -, hroutes⟩ :=
    @exists_reading_client 1 publicDir (fun _ => True) trivial
  obtain ⟨request, hparse, hget, hsafe⟩ : ∃ request,
      parseHttpRequest indexRequest = some request ∧ request.method = .get ∧
        isSafePath request.path.text = true := ⟨_, rfl, by decide, by decide⟩
  have hnonempty : indexRequest ≠ [] := by decide
  have hevents : (Session.initial.step indexRequest).events =
      [.parsed 0 indexRequest, .routed request indexRequest] := by
    simp [Session.step, Session.initial, Session.accept, hparse, hget, Session.route,
      Session.record, hnonempty]
  have houtside : state.routes.pcs 1 = .outside := by
    rw [hroutes]
    rfl
  have hfree : state.routes.lock.writer = none := by
    rw [hroutes]
    rfl
  have hread := hreading.of_restrict.next 1
    (.work ⟨5, 0⟩ .session .session _ hserving
      (.reads 7 9 .initial indexRequest hpc (by decide)) rfl)
  rw [Session.due, hevents] at hread
  have hparsed := hread.next 1
    (.work ⟨5, 0⟩ .session .session _ rfl (.parses 7 9 _ _ _ _ rfl) rfl)
  have hlooksUp := hparsed.next 1
    (.looksUp ⟨5, 0⟩ 7 9 _ request indexRequest ⟨rfl, rfl⟩ hget hsafe rfl houtside)
  have hlocked := hlooksUp.next 1
    (.route ⟨5, 0⟩ 7 9 _ request _ ⟨rfl, rfl⟩ (fun hpc => by cases hpc)
      (.lookupLock _ 1 _ _ rfl hfree) fun _ _ _ hpc => by cases hpc)
  exact ⟨_, Or.inl (by simp [RwLock.rdlock]), server_composed hlocked⟩

end Lith
