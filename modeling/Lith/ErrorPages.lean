import Lith.HttpRouter
import Lith.TransitionSystem

/-!
# Error pages of several workers

`get_error_html` writes its page into one static buffer and returns its
address.  `send_http_error` measures the page for the header, sends the header
and then sends what the buffer holds.  Workers take these steps in any order
among each other.  Each client gets its own page, with its own length, in every
run in which no worker writes a page while another one still needs a different
one.
-/

namespace Lith

open CString

/-- The arguments of `send_http_error`. -/
structure ErrorCall where
  statusCode : ℕ
  statusText : Bytes
  description : Bytes
  keepAlive : Bool
  deriving DecidableEq

namespace ErrorCall

variable (call : ErrorCall)

def page : Bytes :=
  getErrorHtml call.statusCode call.statusText call.description

def header (length : ℕ) : Bytes :=
  snprintf 384 <|
    ascii "HTTP/1.1 " ++ decimal call.statusCode ++ ascii " " ++
    call.statusText ++ ascii "\r\nContent-Length: " ++ decimal length ++
    ascii "\r\nContent-Type: text/html\r\nConnection: " ++
    (if call.statusCode = 400 then ascii "close" else connState call.keepAlive) ++
    ascii "\r\n\r\n"

def response : HttpResponse :=
  sendHttpError call.statusCode call.statusText call.description call.keepAlive

end ErrorCall

inductive ErrorPc where
  | idle
  | called (call : ErrorCall)
  | generated (call : ErrorCall)
  | formatted (call : ErrorCall) (header : Bytes)
  | headerSent (call : ErrorCall) (header : Bytes)
  deriving DecidableEq

/-- The call whose page the worker still has to read from the buffer. -/
def ErrorPc.needs : ErrorPc → Option ErrorCall
  | .idle => none
  | .called _ => none
  | .generated call => some call
  | .formatted call _ => some call
  | .headerSent call _ => some call

/-- An answer as a client received it. -/
structure ErrorAnswer where
  call : ErrorCall
  header : Bytes
  body : Bytes
  deriving DecidableEq

def ErrorAnswer.Proper (answer : ErrorAnswer) : Prop :=
  answer.body = answer.call.page ∧
    answer.header = answer.call.header answer.body.length

section Workers

variable {Worker : Type*} [DecidableEq Worker]

structure ErrorState (Worker : Type*) where
  /-- The text in the static `error_buffer`. -/
  buffer : Bytes
  pc : Worker → ErrorPc
  answers : List (Worker × ErrorAnswer)

inductive ErrorLabel (Worker : Type*) where
  | call (worker : Worker) (call : ErrorCall)
  | generate (worker : Worker)
  | format (worker : Worker)
  | writeHeader (worker : Worker)
  | writeBody (worker : Worker)

def ErrorLabel.worker : ErrorLabel Worker → Worker
  | .call worker _ | .generate worker | .format worker | .writeHeader worker
  | .writeBody worker => worker

def ErrorState.move (state : ErrorState Worker) (worker : Worker)
    (pc : ErrorPc) : ErrorState Worker :=
  { state with pc := Function.update state.pc worker pc }

inductive ErrorStep :
    ErrorState Worker → ErrorLabel Worker → ErrorState Worker → Prop where
  | call {state : ErrorState Worker} {worker : Worker} (call : ErrorCall)
      (hpc : state.pc worker = .idle) :
      ErrorStep state (.call worker call) (state.move worker (.called call))
  | generate {state : ErrorState Worker} {worker : Worker} {call : ErrorCall}
      (hpc : state.pc worker = .called call) :
      ErrorStep state (.generate worker)
        { state.move worker (.generated call) with buffer := call.page }
  | format {state : ErrorState Worker} {worker : Worker} {call : ErrorCall}
      (hpc : state.pc worker = .generated call) :
      ErrorStep state (.format worker)
        (state.move worker (.formatted call (call.header state.buffer.length)))
  | writeHeader {state : ErrorState Worker} {worker : Worker}
      {call : ErrorCall} {header : Bytes}
      (hpc : state.pc worker = .formatted call header) :
      ErrorStep state (.writeHeader worker)
        (state.move worker (.headerSent call header))
  | writeBody {state : ErrorState Worker} {worker : Worker}
      {call : ErrorCall} {header : Bytes}
      (hpc : state.pc worker = .headerSent call header) :
      ErrorStep state (.writeBody worker)
        { state.move worker .idle with
          answers := state.answers ++ [(worker, ⟨call, header, state.buffer⟩)] }

def errorSystem (Worker : Type*) [DecidableEq Worker] :
    TransitionSystem (ErrorState Worker) (ErrorLabel Worker) where
  start := fun state => state.answers = [] ∧ ∀ worker, state.pc worker = .idle
  step := ErrorStep

/-- A page is written only while no other worker needs a different one. -/
def KeepsPages (state : ErrorState Worker) : ErrorLabel Worker → Prop
  | .generate worker =>
      ∀ call, state.pc worker = .called call →
        ∀ other ≠ worker, ∀ needed, (state.pc other).needs = some needed →
          needed.page = call.page
  | _ => True

/-! ## Undisturbed runs -/

/-- What a worker knows of the buffer. -/
def ErrorPc.Knows (buffer : Bytes) : ErrorPc → Prop
  | .idle => True
  | .called _ => True
  | .generated call => buffer = call.page
  | .formatted call header =>
      buffer = call.page ∧ header = call.header buffer.length
  | .headerSent call header =>
      buffer = call.page ∧ header = call.header buffer.length

theorem ErrorPc.Knows.of_page {buffer page : Bytes} {pc : ErrorPc}
    (hknows : pc.Knows buffer)
    (hpage : ∀ needed, pc.needs = some needed → needed.page = page) :
    pc.Knows page := by
  have hsame (call : ErrorCall) (hneeds : pc.needs = some call)
      (hbuffer : buffer = call.page) : buffer = page := by
    rw [hbuffer, hpage call hneeds]
  cases pc with
  | idle => trivial
  | called call => trivial
  | generated call => exact (hpage call rfl).symm
  | formatted call header => exact hsame call rfl hknows.1 ▸ hknows
  | headerSent call header => exact hsame call rfl hknows.1 ▸ hknows

structure ErrorState.Inv (state : ErrorState Worker) : Prop where
  knows : ∀ worker, (state.pc worker).Knows state.buffer
  proper : ∀ entry ∈ state.answers, entry.2.Proper

theorem ErrorState.Inv.move {state : ErrorState Worker} (hinv : state.Inv)
    (worker : Worker) {pc : ErrorPc} (hpc : pc.Knows state.buffer) :
    (state.move worker pc).Inv := by
  refine ⟨?_, hinv.proper⟩
  intro other
  unfold ErrorState.move
  by_cases hother : other = worker
  · subst hother
    simpa using hpc
  · simpa [hother] using hinv.knows other

theorem ErrorState.Inv.step {state after : ErrorState Worker}
    {label : ErrorLabel Worker} (hinv : state.Inv)
    (hkeeps : KeepsPages state label) (hstep : ErrorStep state label after) :
    after.Inv := by
  cases hstep with
  | call call hpc => exact hinv.move _ trivial
  | generate hpc =>
      rename_i worker call
      refine ⟨?_, hinv.proper⟩
      intro other
      by_cases hother : other = worker
      · subst hother
        simp [ErrorState.move, ErrorPc.Knows]
      · have hpage := hkeeps call hpc other hother
        simpa [ErrorState.move, hother] using (hinv.knows other).of_page hpage
  | format hpc =>
      rename_i worker call
      have hknows := hinv.knows worker
      rw [hpc] at hknows
      exact hinv.move worker ⟨hknows, rfl⟩
  | writeHeader hpc =>
      rename_i worker call header
      have hknows := hinv.knows worker
      rw [hpc] at hknows
      exact hinv.move worker hknows
  | writeBody hpc =>
      rename_i worker call header
      have hknows := hinv.knows worker
      rw [hpc] at hknows
      have hidle : (state.move worker .idle).Inv := hinv.move worker trivial
      refine ⟨hidle.knows, ?_⟩
      intro entry hentry
      rcases List.mem_append.mp hentry with hentry | hentry
      · exact hinv.proper entry hentry
      · rw [List.mem_singleton] at hentry
        subst hentry
        exact hknows

theorem ErrorState.inv_of_reachable {state : ErrorState Worker}
    (hreach : ((errorSystem Worker).restrict KeepsPages).Reachable state) :
    state.Inv := by
  apply hreach.invariant
  · rintro first ⟨hanswers, hidle⟩
    refine ⟨fun worker => ?_, by simp [hanswers]⟩
    rw [hidle worker]
    trivial
  · rintro before label after hinv ⟨hkeeps, hstep⟩
    exact hinv.step hkeeps hstep

/-- In every run that keeps the pages, each client receives its own page and a
header with its length. -/
theorem errorAnswers_proper {state : ErrorState Worker}
    (hreach : ((errorSystem Worker).restrict KeepsPages).Reachable state) :
    ∀ entry ∈ state.answers, entry.2.Proper :=
  (ErrorState.inv_of_reachable hreach).proper

end Workers

def forbiddenCall : ErrorCall where
  statusCode := 403
  statusText := ascii "Forbidden"
  description := ascii "Access to this resource is strictly prohibited."
  keepAlive := true

def notFoundCall : ErrorCall where
  statusCode := 404
  statusText := ascii "Not Found"
  description :=
    ascii "The requested URL or resource could not be located on this server."
  keepAlive := true

/-! ## The calls of the server -/

def ErrorCall.badRequest : ErrorCall where
  statusCode := 400
  statusText := ascii "Bad Request"
  description := ascii "Malformed HTTP request protocol."
  keepAlive := false

def ErrorCall.forbidden (keepAlive : Bool) : ErrorCall :=
  { forbiddenCall with keepAlive := keepAlive }

def ErrorCall.notFound (keepAlive : Bool) : ErrorCall :=
  { notFoundCall with keepAlive := keepAlive }

def idleWorkers : ErrorState Bool := ⟨[], fun _ => .idle, []⟩

/-- Two workers, one after the other. -/
theorem errorAnswers_proper_sequence :
    ∃ state : ErrorState Bool,
      ((errorSystem Bool).restrict KeepsPages).Reachable state ∧
        state.answers.map Prod.fst = [false, true] ∧
        ∀ entry ∈ state.answers, entry.2.Proper := by
  have hstart : ((errorSystem Bool).restrict KeepsPages).Reachable idleWorkers :=
    .start ⟨rfl, fun _ => rfl⟩
  have hcall := hstart.next (.call false forbiddenCall) ⟨trivial, .call _ rfl⟩
  have hpage := hcall.next (.generate false) ⟨by
    rintro call hpc (_ | _) hne needed hneeds
    · exact absurd rfl hne
    · simp [ErrorState.move, idleWorkers, ErrorPc.needs] at hneeds, .generate rfl⟩
  have hformat := hpage.next (.format false) ⟨trivial, .format rfl⟩
  have hheader := hformat.next (.writeHeader false) ⟨trivial, .writeHeader rfl⟩
  have hbody := hheader.next (.writeBody false) ⟨trivial, .writeBody rfl⟩
  have hcall' := hbody.next (.call true notFoundCall) ⟨trivial, .call _ rfl⟩
  have hpage' := hcall'.next (.generate true) ⟨by
    rintro call hpc (_ | _) hne needed hneeds
    · simp [ErrorState.move, ErrorPc.needs] at hneeds
    · exact absurd rfl hne, .generate rfl⟩
  have hformat' := hpage'.next (.format true) ⟨trivial, .format rfl⟩
  have hheader' := hformat'.next (.writeHeader true) ⟨trivial, .writeHeader rfl⟩
  have hbody' := hheader'.next (.writeBody true) ⟨trivial, .writeBody rfl⟩
  exact ⟨_, hbody', rfl, errorAnswers_proper hbody'⟩

/-- The pages show the status code. -/
theorem notFoundCall_page_ne : notFoundCall.page ≠ forbiddenCall.page := by
  let start := ascii "<!DOCTYPE html>\n<html lang=\"en\">\n<head>\n    <meta charset=\"UTF-8\">\n" ++
    (ascii "    <meta name=\"viewport\" content=\"width=device-width, initial-scale=1.0\">\n" ++
    ascii "    <title>")
  have hstart : start.length + 3 ≤ 2047 := by decide +kernel
  have htake (call : ErrorCall) (hcode : (decimal call.statusCode).length = 3) :
      call.page.take (start.length + 3) = start ++ decimal call.statusCode := by
    unfold ErrorCall.page getErrorHtml snprintf
    rw [List.take_take, min_eq_left hstart]
    simp only [List.append_assoc]
    rw [← List.append_assoc _ (ascii "    <title>"), ← List.append_assoc (ascii _)]
    change List.take _ (start ++ (decimal call.statusCode ++ _)) = _
    rw [List.take_length_add_append, ← hcode, List.take_left]
  intro heq
  have hcodes := (htake notFoundCall (by decide)).symm.trans
    ((congrArg _ heq).trans (htake forbiddenCall (by decide)))
  exact absurd (List.append_cancel_left hcodes) (by decide)

/-- The second page is written before the first one is sent: the client of the
first request receives the page of the other one. -/
theorem errorAnswers_mixed :
    ∃ state : ErrorState Bool, (errorSystem Bool).Reachable state ∧
      ∃ answer, (false, answer) ∈ state.answers ∧
        answer.call = forbiddenCall ∧ answer.body = notFoundCall.page ∧
        ¬answer.Proper := by
  have hstart : (errorSystem Bool).Reachable idleWorkers :=
    .start ⟨rfl, fun _ => rfl⟩
  have hcall := hstart.next (.call false forbiddenCall) (.call _ rfl)
  have hpage := hcall.next (.generate false) (.generate rfl)
  have hcall' := hpage.next (.call true notFoundCall) (.call _ rfl)
  have hpage' := hcall'.next (.generate true) (.generate rfl)
  have hformat := hpage'.next (.format false) (.format rfl)
  have hheader := hformat.next (.writeHeader false) (.writeHeader rfl)
  have hbody := hheader.next (.writeBody false) (.writeBody rfl)
  refine ⟨_, hbody, _, List.mem_singleton.mpr rfl, rfl, rfl, ?_⟩
  exact fun hproper => notFoundCall_page_ne hproper.1

end Lith
