import Lith.TransitionSystem

/-!
# The life of the SSL contexts

`lith_ssl_init` stores a new context in the global variable before it loads
the certificate and the key, and it does not look at what the variable held.
`main` calls it twice, with the workers started in between, and each worker
keeps the context that it read when it began.  A run keeps one configured
context if the initialiser is called without a context and without workers,
does not fail behind `SSL_CTX_new`, and nobody holds the context when it is
released.
-/

namespace Lith

/-- What `lith_ssl_init` has done with an `SSL_CTX`. -/
structure SslContext where
  certificate : Bool
  privateKey : Bool
  checked : Bool
  deriving DecidableEq

/-- Where the main thread stands in `lith_ssl_init`. -/
inductive SslPc where
  | outside
  | created
  | certificateLoaded
  | keyLoaded
  deriving DecidableEq

inductive SslWorker where
  | started
  | captured (context : Option ℕ)

structure SslState where
  contexts : ℕ → Option SslContext
  globalSslCtx : Option ℕ
  pc : SslPc
  workers : ℕ → Option SslWorker

inductive SslAction where
  | newContext (answer : Option ℕ)
  | useCertificate (loaded : Bool)
  | usePrivateKey (loaded : Bool)
  | checkPrivateKey (matching : Bool)
  | cleanup
  | startWorker (worker : ℕ)
  | getContext (worker : ℕ)
  | endWorker (worker : ℕ)

namespace SslState

def init : SslState where
  contexts := fun _ => none
  globalSslCtx := none
  pc := .outside
  workers := fun _ => none

/-- `lith_ssl_init` up to `SSL_CTX_new` and the check of its answer. -/
def newContext (state : SslState) : Option ℕ → SslState
  | none => { state with globalSslCtx := none }
  | some address =>
      { state with
        contexts := Function.update state.contexts address
          (some ⟨false, false, false⟩)
        globalSslCtx := some address
        pc := .created }

/-- A step of the configuration goes on to `next` or returns `-1`. -/
def configure (state : SslState) (change : SslContext → SslContext) (next : SslPc)
    (success : Bool) : SslState :=
  if success then
    { state with
      contexts := fun address =>
        if state.globalSslCtx = some address then (state.contexts address).map change
        else state.contexts address
      pc := next }
  else { state with pc := .outside }

def useCertificate (state : SslState) (loaded : Bool) : SslState :=
  state.configure (fun context => { context with certificate := true })
    .certificateLoaded loaded

def usePrivateKey (state : SslState) (loaded : Bool) : SslState :=
  state.configure (fun context => { context with privateKey := true })
    .keyLoaded loaded

/-- The last step returns in both cases. -/
def checkPrivateKey (state : SslState) (matching : Bool) : SslState :=
  state.configure (fun context => { context with checked := true }) .outside matching

/-- `lith_ssl_cleanup`. -/
def cleanup (state : SslState) : SslState :=
  match state.globalSslCtx with
  | some address =>
      { state with
        contexts := Function.update state.contexts address none
        globalSslCtx := none }
  | none => state

def setWorker (state : SslState) (worker : ℕ) (now : Option SslWorker) : SslState :=
  { state with workers := Function.update state.workers worker now }

end SslState

/-- The main thread runs `lith_ssl_init` and `lith_ssl_cleanup` and starts
workers; these read the global variable once, at any time. -/
inductive SslStep : SslState → SslAction → SslState → Prop where
  | newContext {state : SslState} {answer : Option ℕ} (hpc : state.pc = .outside)
      (hfresh : ∀ address, answer = some address → state.contexts address = none) :
      SslStep state (.newContext answer) (state.newContext answer)
  | useCertificate {state : SslState} (loaded : Bool) (hpc : state.pc = .created) :
      SslStep state (.useCertificate loaded) (state.useCertificate loaded)
  | usePrivateKey {state : SslState} (loaded : Bool)
      (hpc : state.pc = .certificateLoaded) :
      SslStep state (.usePrivateKey loaded) (state.usePrivateKey loaded)
  | checkPrivateKey {state : SslState} (matching : Bool) (hpc : state.pc = .keyLoaded) :
      SslStep state (.checkPrivateKey matching) (state.checkPrivateKey matching)
  | cleanup {state : SslState} (hpc : state.pc = .outside) :
      SslStep state .cleanup state.cleanup
  | startWorker {state : SslState} {worker : ℕ} (hpc : state.pc = .outside)
      (hnew : state.workers worker = none) :
      SslStep state (.startWorker worker) (state.setWorker worker (some .started))
  | getContext {state : SslState} {worker : ℕ}
      (hworker : state.workers worker = some .started) :
      SslStep state (.getContext worker)
        (state.setWorker worker (some (.captured state.globalSslCtx)))
  | endWorker {state : SslState} {worker : ℕ} (hworker : state.workers worker ≠ none) :
      SslStep state (.endWorker worker) (state.setWorker worker none)

def sslSystem : TransitionSystem SslState SslAction where
  start := fun state => state = .init
  step := SslStep

/-! ## The property and the condition -/

namespace SslState

/-- Somebody besides a running `lith_ssl_init` may read the global variable. -/
def Readable (state : SslState) : Prop :=
  state.pc = .outside ∨ ∃ worker, state.workers worker ≠ none

/-- One context at most, none after a cleanup, what is published is configured,
and every worker holds what is published. -/
structure Proper (state : SslState) : Prop where
  oneLive : ∀ first second, state.contexts first ≠ none →
    state.contexts second ≠ none → first = second
  released : ∀ address, state.cleanup.contexts address = none
  configured : state.Readable → ∀ address, state.globalSslCtx = some address →
    state.contexts address = some ⟨true, true, true⟩
  captured : ∀ worker context, state.workers worker = some (.captured context) →
    context = state.globalSslCtx

/-- A context is created only when none is published and no worker runs, the
library accepts certificate and key, and no worker holds what is released. -/
def Orderly (state : SslState) : SslAction → Prop
  | .newContext answer => state.globalSslCtx = none ∧
      (answer ≠ none → ∀ worker, state.workers worker = none)
  | .useCertificate success | .usePrivateKey success | .checkPrivateKey success =>
      success = true
  | .cleanup => ∀ worker address,
      state.workers worker ≠ some (.captured (some address))
  | .startWorker _ | .getContext _ | .endWorker _ => True

end SslState

def SslPc.stage : SslPc → Option SslContext
  | .outside => none
  | .created => some ⟨false, false, false⟩
  | .certificateLoaded => some ⟨true, false, false⟩
  | .keyLoaded => some ⟨true, true, false⟩

namespace SslState

/-- What holds inside a call of `lith_ssl_init`. -/
structure Staged (state : SslState) : Prop where
  current : ∀ context, state.pc.stage = some context →
    ∃ address, state.globalSslCtx = some address ∧
      state.contexts address = some context
  alone : state.pc ≠ .outside → ∀ worker, state.workers worker = none

variable {state : SslState}

theorem released_iff : (∀ address, state.cleanup.contexts address = none) ↔
    ∀ address, state.contexts address ≠ none → state.globalSslCtx = some address := by
  unfold cleanup
  cases hglobal : state.globalSslCtx with
  | none => simp
  | some current =>
      constructor
      · intro hreleased address hlive
        by_contra hother
        apply hlive
        have hne : address ≠ current := fun h => hother (by rw [h])
        simpa [Function.update_of_ne hne] using hreleased address
      · intro honly address
        by_cases haddress : address = current
        · simp [haddress]
        · have hnone : state.contexts address = none := by
            by_contra hlive
            have hsame := honly address hlive
            rw [Option.some.injEq] at hsame
            exact haddress hsame.symm
          simpa [Function.update_of_ne haddress] using hnone

theorem Proper.owned (hproper : state.Proper) {address : ℕ}
    (hlive : state.contexts address ≠ none) : state.globalSslCtx = some address :=
  released_iff.mp hproper.released address hlive

theorem proper_of_owned
    (howned : ∀ address, state.contexts address ≠ none →
      state.globalSslCtx = some address)
    (hconfigured : state.Readable → ∀ address, state.globalSslCtx = some address →
      state.contexts address = some ⟨true, true, true⟩)
    (hcaptured : ∀ worker context, state.workers worker = some (.captured context) →
      context = state.globalSslCtx) : state.Proper where
  oneLive := by
    intro first second hfirst hsecond
    have hsame := (howned first hfirst).symm.trans (howned second hsecond)
    exact Option.some.inj hsame
  released := released_iff.mpr howned
  configured := hconfigured
  captured := hcaptured

/-! ## One step -/

theorem newContext_proper (hproper : state.Proper) (hnone : state.globalSslCtx = none)
    (hworkers : ∀ worker, state.workers worker = none) (address : ℕ) :
    (state.newContext (some address)).Proper := by
  apply proper_of_owned
  · intro other hlive
    by_cases hother : other = address
    · rw [hother]
      rfl
    · simp only [newContext, Function.update_of_ne hother] at hlive
      have howned := hproper.owned hlive
      rw [hnone] at howned
      simp at howned
  · rintro (hoff | ⟨worker, hworker⟩)
    · simp [newContext] at hoff
    · exact absurd (hworkers worker) hworker
  · intro worker context hworker
    simp only [newContext, hworkers worker] at hworker
    simp at hworker

theorem newContext_proper_iff (hproper : state.Proper) (hpc : state.pc = .outside)
    {answer : Option ℕ}
    (hfresh : ∀ address, answer = some address → state.contexts address = none) :
    (state.newContext answer).Proper ↔ state.Orderly (.newContext answer) := by
  have hreadable : state.Readable := Or.inl hpc
  cases answer with
  | none =>
      constructor
      · intro hafter
        refine ⟨?_, fun h => absurd rfl h⟩
        cases hglobal : state.globalSslCtx with
        | none => rfl
        | some current =>
            have hlive : (state.newContext none).contexts current ≠ none := by
              simp [newContext, hproper.configured hreadable current hglobal]
            exact absurd (hafter.owned hlive) (by simp [newContext])
      · rintro ⟨hnone, -⟩
        have hsame : state.newContext none = state := by
          rw [newContext, ← hnone]
        rw [hsame]
        exact hproper
  | some address =>
      have hnew : (state.newContext (some address)).contexts address =
          some ⟨false, false, false⟩ := by
        simp [newContext]
      constructor
      · intro hafter
        constructor
        · cases hglobal : state.globalSslCtx with
          | none => rfl
          | some current =>
              have hlive := hproper.configured hreadable current hglobal
              have hne : current ≠ address := by
                rintro rfl
                rw [hfresh current rfl] at hlive
                simp at hlive
              have hboth := hafter.oneLive current address
                (by simp [newContext, Function.update_of_ne hne, hlive])
                (by simp [hnew])
              exact absurd hboth hne
        · intro _ worker
          by_contra hworker
          have hconfigured := hafter.configured (Or.inr ⟨worker, hworker⟩) address rfl
          rw [hnew] at hconfigured
          simp at hconfigured
      · rintro ⟨hnone, halone⟩
        exact newContext_proper hproper hnone (halone (by simp)) address

theorem configure_contexts {address : ℕ} {context : SslContext}
    (hglobal : state.globalSslCtx = some address)
    (hcontext : state.contexts address = some context)
    (change : SslContext → SslContext) (next : SslPc) :
    (state.configure change next true).contexts address = some (change context) := by
  simp [configure, hglobal, hcontext]

/-- A step that succeeds keeps the property when it leads to the next stage or
completes the context. -/
theorem configure_proper (hproper : state.Proper) (hstaged : state.Staged)
    {context : SslContext} (hstage : state.pc.stage = some context)
    {change : SslContext → SslContext} {next : SslPc}
    (hnext : next = .outside → change context = ⟨true, true, true⟩) :
    (state.configure change next true).Proper := by
  obtain ⟨current, hglobal, hcontext⟩ := hstaged.current context hstage
  have hworkers := hstaged.alone (by
    rintro hpc
    simp [hpc, SslPc.stage] at hstage)
  apply proper_of_owned
  · intro address hlive
    apply hproper.owned
    simp only [configure, if_true] at hlive
    split_ifs at hlive <;> simpa using hlive
  · intro hreadable address haddress
    have hcurrent : current = address := Option.some.inj (hglobal.symm.trans haddress)
    subst hcurrent
    rw [configure_contexts hglobal hcontext]
    rcases hreadable with hoff | ⟨worker, hworker⟩
    · rw [hnext hoff]
    · exact absurd (hworkers worker) hworker
  · intro worker captured hworker
    simp only [configure, if_true, hworkers worker] at hworker
    simp at hworker

theorem configure_staged (hstaged : state.Staged) {context : SslContext}
    (hstage : state.pc.stage = some context) {change : SslContext → SslContext}
    {next : SslPc} (hnext : ∀ after, next.stage = some after → after = change context) :
    (state.configure change next true).Staged where
  current := by
    intro after hafter
    obtain ⟨current, hglobal, hcontext⟩ := hstaged.current context hstage
    refine ⟨current, hglobal, ?_⟩
    rw [configure_contexts hglobal hcontext, hnext after hafter]
  alone := by
    intro _ worker
    apply hstaged.alone
    rintro hpc
    simp [hpc, SslPc.stage] at hstage

/-- A step that fails leaves a context that is not configured. -/
theorem not_configure_proper (hstaged : state.Staged) {context : SslContext}
    (hstage : state.pc.stage = some context) (hopen : context ≠ ⟨true, true, true⟩)
    (change : SslContext → SslContext) (next : SslPc) :
    ¬(state.configure change next false).Proper := by
  obtain ⟨current, hglobal, hcontext⟩ := hstaged.current context hstage
  intro hafter
  have hconfigured := hafter.configured (Or.inl rfl) current hglobal
  have hsame : state.contexts current = some ⟨true, true, true⟩ := hconfigured
  rw [hcontext, Option.some.injEq] at hsame
  exact hopen hsame

theorem configure_proper_iff (hproper : state.Proper) (hstaged : state.Staged)
    {context : SslContext} (hstage : state.pc.stage = some context)
    (hopen : context ≠ ⟨true, true, true⟩) {change : SslContext → SslContext}
    {next : SslPc} (hnext : next = .outside → change context = ⟨true, true, true⟩)
    (success : Bool) :
    (state.configure change next success).Proper ↔ success = true := by
  cases success with
  | true => exact iff_of_true (configure_proper hproper hstaged hstage hnext) rfl
  | false =>
      exact iff_of_false (not_configure_proper hstaged hstage hopen change next)
        (by simp)

theorem cleanup_proper_iff (hproper : state.Proper) :
    state.cleanup.Proper ↔ state.Orderly .cleanup := by
  have hglobal : state.cleanup.globalSslCtx = none := by
    unfold cleanup
    split
    · rfl
    · assumption
  have hworkers : state.cleanup.workers = state.workers := by
    unfold cleanup
    split <;> rfl
  constructor
  · intro hafter worker address hworker
    have hcaptured := hafter.captured worker (some address) (by rw [hworkers, hworker])
    rw [hglobal] at hcaptured
    simp at hcaptured
  · intro hreleased
    apply proper_of_owned
    · intro address hlive
      exact absurd (hproper.released address) hlive
    · intro _ address haddress
      rw [hglobal] at haddress
      simp at haddress
    · intro worker context hworker
      rw [hworkers] at hworker
      rw [hglobal]
      cases context with
      | none => rfl
      | some address => exact absurd hworker (hreleased worker address)

theorem setWorker_proper (hproper : state.Proper) {worker : ℕ}
    {now : Option SslWorker} (hreadable : now ≠ none → state.Readable)
    (hcaptured : ∀ context, now = some (.captured context) →
      context = state.globalSslCtx) : (state.setWorker worker now).Proper := by
  apply proper_of_owned
  · intro address hlive
    exact hproper.owned hlive
  · intro hread address haddress
    refine hproper.configured ?_ address haddress
    rcases hread with hoff | ⟨other, hother⟩
    · exact Or.inl hoff
    · by_cases hsame : other = worker
      · simp only [setWorker, hsame, Function.update_self] at hother
        exact hreadable hother
      · simp only [setWorker, Function.update_of_ne hsame] at hother
        exact Or.inr ⟨other, hother⟩
  · intro other context hother
    by_cases hsame : other = worker
    · simp only [setWorker, hsame, Function.update_self] at hother
      exact hcaptured context hother
    · simp only [setWorker, Function.update_of_ne hsame] at hother
      exact hproper.captured other context hother

variable {after : SslState} {action : SslAction}

theorem step_proper_iff (hproper : state.Proper) (hstaged : state.Staged)
    (hstep : SslStep state action after) : after.Proper ↔ state.Orderly action := by
  cases hstep with
  | newContext hpc hfresh => exact newContext_proper_iff hproper hpc hfresh
  | useCertificate loaded hpc =>
      have hstage : state.pc.stage = some ⟨false, false, false⟩ := by rw [hpc]; rfl
      exact configure_proper_iff hproper hstaged hstage (by simp) (by simp) loaded
  | usePrivateKey loaded hpc =>
      have hstage : state.pc.stage = some ⟨true, false, false⟩ := by rw [hpc]; rfl
      exact configure_proper_iff hproper hstaged hstage (by simp) (by simp) loaded
  | checkPrivateKey matching hpc =>
      have hstage : state.pc.stage = some ⟨true, true, false⟩ := by rw [hpc]; rfl
      exact configure_proper_iff hproper hstaged hstage (by simp) (fun _ => rfl) matching
  | cleanup hpc => exact cleanup_proper_iff hproper
  | startWorker hpc hnew =>
      exact iff_of_true (setWorker_proper hproper (fun _ => Or.inl hpc) (by simp)) trivial
  | @getContext worker hworker =>
      have hreadable : state.Readable := Or.inr ⟨worker, by simp [hworker]⟩
      refine iff_of_true (setWorker_proper hproper (fun _ => hreadable) ?_) trivial
      intro context hcontext
      simpa using hcontext.symm
  | endWorker hworker =>
      exact iff_of_true (setWorker_proper hproper (by simp) (by simp)) trivial

theorem Staged.setWorker (hstaged : state.Staged) {worker : ℕ} {now : Option SslWorker}
    (hpc : now ≠ none → state.pc = .outside) : (state.setWorker worker now).Staged where
  current := hstaged.current
  alone := by
    intro hinside other
    by_cases hother : other = worker
    · simp only [SslState.setWorker, hother, Function.update_self]
      by_contra hnow
      exact hinside (hpc hnow)
    · simp only [SslState.setWorker, Function.update_of_ne hother]
      exact hstaged.alone hinside other

theorem staged_of_outside (hpc : state.pc = .outside) : state.Staged where
  current := by simp [hpc, SslPc.stage]
  alone := fun hinside => absurd hpc hinside

theorem Staged.step (hstaged : state.Staged) (hstep : SslStep state action after)
    (horderly : state.Orderly action) : after.Staged := by
  cases hstep with
  | @newContext answer hpc hfresh =>
      cases answer with
      | none => exact staged_of_outside hpc
      | some address =>
          constructor
          · intro context hcontext
            refine ⟨address, rfl, ?_⟩
            simp only [SslState.newContext, SslPc.stage, Option.some.injEq] at hcontext
            simp [SslState.newContext, ← hcontext]
          · intro _ worker
            exact horderly.2 (by simp) worker
  | useCertificate loaded hpc =>
      obtain rfl : loaded = true := horderly
      have hstage : state.pc.stage = some ⟨false, false, false⟩ := by rw [hpc]; rfl
      exact configure_staged hstaged hstage (by simp [SslPc.stage])
  | usePrivateKey loaded hpc =>
      obtain rfl : loaded = true := horderly
      have hstage : state.pc.stage = some ⟨true, false, false⟩ := by rw [hpc]; rfl
      exact configure_staged hstaged hstage (by simp [SslPc.stage])
  | checkPrivateKey matching hpc =>
      obtain rfl : matching = true := horderly
      exact staged_of_outside rfl
  | cleanup hpc =>
      apply staged_of_outside
      unfold SslState.cleanup
      split <;> exact hpc
  | startWorker hpc hnew => exact hstaged.setWorker fun _ => hpc
  | getContext hworker =>
      apply hstaged.setWorker
      intro _
      by_contra hinside
      rw [hstaged.alone hinside] at hworker
      simp at hworker
  | endWorker hworker => exact hstaged.setWorker fun h => absurd rfl h

theorem proper_init : SslState.init.Proper :=
  proper_of_owned (by simp [init]) (by simp [init]) (by simp [init])

theorem proper_of_reachable (hreach : (sslSystem.restrict Orderly).Reachable state) :
    state.Proper ∧ state.Staged := by
  apply hreach.invariant (P := fun state => state.Proper ∧ state.Staged)
  · rintro first rfl
    exact ⟨proper_init, staged_of_outside rfl⟩
  · rintro before action after ⟨hproper, hstaged⟩ ⟨horderly, hstep⟩
    exact ⟨(step_proper_iff hproper hstaged hstep).mpr horderly,
      hstaged.step hstep horderly⟩

end SslState

/-- In every run of orderly calls the property holds throughout, and the next
call keeps it if and only if it is orderly. -/
theorem ssl_contexts_run {state : SslState}
    (hreach : (sslSystem.restrict SslState.Orderly).Reachable state) :
    state.Proper ∧ ∀ action after, sslSystem.step state action after →
      (after.Proper ↔ state.Orderly action) := by
  obtain ⟨hproper, hstaged⟩ := SslState.proper_of_reachable hreach
  exact ⟨hproper, fun action after hstep =>
    SslState.step_proper_iff hproper hstaged hstep⟩

/-! ## The start of the program -/

/-- A call of `lith_ssl_init` that succeeds. -/
def SslState.sslInit (state : SslState) (address : ℕ) : SslState :=
  (((state.newContext (some address)).useCertificate true).usePrivateKey
    true).checkPrivateKey true

def sslInitialised : SslState := SslState.init.sslInit 0

/-- A worker has started and read the context of the first call. -/
def workerStarted : SslState :=
  (sslInitialised.setWorker 0 (some .started)).setWorker 0 (some (.captured (some 0)))

/-- `main` up to the event loop. -/
def serverStarted : SslState := workerStarted.sslInit 1

theorem reachable_sslInitialised :
    (sslSystem.restrict SslState.Orderly).Reachable sslInitialised := by
  have hcreated : (sslSystem.restrict SslState.Orderly).Reachable
      (SslState.init.newContext (some 0)) :=
    .next (.start rfl) (.newContext (some 0))
      ⟨⟨rfl, fun _ _ => rfl⟩, .newContext rfl fun _ _ => rfl⟩
  exact ((hcreated.next (.useCertificate true) ⟨rfl, .useCertificate true rfl⟩).next
    (.usePrivateKey true) ⟨rfl, .usePrivateKey true rfl⟩).next
      (.checkPrivateKey true) ⟨rfl, .checkPrivateKey true rfl⟩

theorem reachable_workerStarted :
    (sslSystem.restrict SslState.Orderly).Reachable workerStarted := by
  exact (reachable_sslInitialised.next (.startWorker 0)
    ⟨trivial, .startWorker rfl rfl⟩).next (.getContext 0)
      ⟨trivial, .getContext rfl⟩

theorem ssl_contexts_worker_started :
    (sslSystem.restrict SslState.Orderly).Reachable workerStarted ∧
      workerStarted.Proper :=
  ⟨reachable_workerStarted, (ssl_contexts_run reachable_workerStarted).1⟩

/-- The second call of the start leaves two contexts, the worker holds the one
that is no longer published, and the cleanup does not free it. -/
theorem second_init_leaks :
    sslSystem.Reachable serverStarted ∧
      serverStarted.contexts 0 = some ⟨true, true, true⟩ ∧
      serverStarted.contexts 1 = some ⟨true, true, true⟩ ∧
      serverStarted.workers 0 = some (.captured (some 0)) ∧
      serverStarted.globalSslCtx = some 1 ∧
      serverStarted.cleanup.contexts 0 = some ⟨true, true, true⟩ ∧
      ¬serverStarted.Proper := by
  have hstart := reachable_workerStarted.of_restrict
  have hreach : sslSystem.Reachable serverStarted :=
    (((hstart.next (.newContext (some 1)) (.newContext rfl (by
      rintro address ⟨⟩
      rfl))).next (.useCertificate true) (.useCertificate true rfl)).next
        (.usePrivateKey true) (.usePrivateKey true rfl)).next
          (.checkPrivateKey true) (.checkPrivateKey true rfl)
  have hfirst : serverStarted.contexts 0 = some ⟨true, true, true⟩ := rfl
  have hsecond : serverStarted.contexts 1 = some ⟨true, true, true⟩ := rfl
  refine ⟨hreach, hfirst, hsecond, rfl, rfl, rfl, ?_⟩
  intro hproper
  have hsame := hproper.oneLive 0 1 (by rw [hfirst]; simp) (by rw [hsecond]; simp)
  exact absurd hsame (by decide)

end Lith
