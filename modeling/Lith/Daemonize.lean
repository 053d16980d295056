import Lith.Descriptors
import Lith.PortBinding
import Lith.RankedRuns

/-!
# Becoming a daemon

`lith_daemonize` in a kernel: processes with their ids, session, controlling
terminal, working directory and descriptors, of which every one that a `fork` makes
runs on by itself.  A step is one system call of one process, in any order, and each
call that can fail may.  The first process and the leader of the new session leave
with `exit(0)`; the function returns in one process only.
-/

namespace Lith

open CString

inductive DaemonFile where
  | inherited (serial : ℕ)
  | devNull
  | logFile (path : Bytes)
  | listener
  deriving DecidableEq

def stdinFileno : ℕ := 0

def stdoutFileno : ℕ := 1

def stderrFileno : ℕ := 2

structure ProcessRecord where
  pid : ℕ
  group : ℕ
  session : ℕ
  terminal : Option ℕ
  cwd : Directory
  umask : ℕ
  fds : DescriptorTable DaemonFile

inductive DaemonPc where
  | firstFork
  | setsid
  | secondFork
  | umask
  | chdir
  | closeStdin
  | closeStdout
  | closeStderr
  | openNull
  | openLog
  | openTmpLog
  | dupStdout (logFd : ℕ)
  | dupStderr (logFd : ℕ)
  | leaving
  | exited
  | returned (code : ℤ)
  deriving DecidableEq

structure DaemonProcess where
  record : ProcessRecord
  pc : DaemonPc

def DaemonPc.Live (pc : DaemonPc) : Prop :=
  pc ≠ .exited ∧ ∀ code, pc ≠ .returned code

/-- The child goes on behind the `fork`. -/
def DaemonPc.inChild : DaemonPc → Option DaemonPc
  | .firstFork => some .setsid
  | .secondFork => some .umask
  | _ => none

def logPath (initialCwd : Directory) : Bytes :=
  snprintf 512 (initialCwd.path.text ++ ascii "/lith.log")

def tmpLogPath : Bytes := ascii "/tmp/lith.log"

def ProcessRecord.withFds (record : ProcessRecord) (fds : DescriptorTable DaemonFile) :
    ProcessRecord :=
  { record with
    fds := fds }

/-- The next call of a process, without the forks that succeed. -/
def DaemonProcess.call (process : DaemonProcess) (initialCwd : Directory)
    (succeeds : Bool) : DaemonProcess :=
  let record := process.record
  match process.pc with
  | .firstFork | .secondFork => ⟨record, .returned (-1)⟩
  | .setsid =>
      -- only the leader of a process group is refused
      if record.group = record.pid then ⟨record, .returned (-1)⟩
      else
        ⟨{ record with
            group := record.pid
            session := record.pid
            terminal := none }, .secondFork⟩
  | .umask =>
      ⟨{ record with
          umask := 0 }, .chdir⟩
  | .chdir =>
      if succeeds then
        ⟨{ record with
            cwd := Directory.root }, .closeStdin⟩
      else ⟨record, .returned (-1)⟩
  | .closeStdin => ⟨record.withFds (record.fds.close stdinFileno), .closeStdout⟩
  | .closeStdout => ⟨record.withFds (record.fds.close stdoutFileno), .closeStderr⟩
  | .closeStderr => ⟨record.withFds (record.fds.close stderrFileno), .openNull⟩
  | .openNull =>
      if succeeds then ⟨record.withFds (record.fds.openLowest .devNull), .openLog⟩
      else ⟨record, .returned (-1)⟩
  | .openLog =>
      if succeeds then
        ⟨record.withFds (record.fds.openLowest (.logFile (logPath initialCwd))),
          .dupStdout record.fds.lowest⟩
      else ⟨record, .openTmpLog⟩
  | .openTmpLog =>
      if succeeds then
        ⟨record.withFds (record.fds.openLowest (.logFile tmpLogPath)),
          .dupStdout record.fds.lowest⟩
      else ⟨record, .returned 0⟩
  | .dupStdout logFd =>
      ⟨record.withFds (record.fds.dup2 logFd stdoutFileno), .dupStderr logFd⟩
  | .dupStderr logFd =>
      ⟨record.withFds (record.fds.dup2 logFd stderrFileno), .returned 0⟩
  | .leaving => ⟨record, .exited⟩
  | .exited | .returned _ => process

/-- A number that no running process has as its id, its group or its session. -/
def FreshPid (processes : List DaemonProcess) (pid : ℕ) : Prop :=
  ∀ process ∈ processes, process.pc ≠ .exited →
    pid ≠ process.record.pid ∧ pid ≠ process.record.group ∧
      pid ≠ process.record.session

inductive DaemonLabel where
  | call (index : ℕ) (succeeds : Bool)
  | fork (index : ℕ) (pid : ℕ)

def DaemonLabel.Succeeds : DaemonLabel → Prop
  | .call _ succeeds => succeeds = true
  | .fork _ _ => True

inductive DaemonStep (initialCwd : Directory) :
    List DaemonProcess → DaemonLabel → List DaemonProcess → Prop where
  | call {processes : List DaemonProcess} {index : ℕ} {process : DaemonProcess}
      (hprocess : processes[index]? = some process) (hlive : process.pc.Live)
      {succeeds : Bool} (hforks : process.pc.inChild ≠ none → succeeds = false) :
      DaemonStep initialCwd processes (.call index succeeds)
        (processes.set index (process.call initialCwd succeeds))
  | fork {processes : List DaemonProcess} {index : ℕ} {process : DaemonProcess}
      (hprocess : processes[index]? = some process) {behind : DaemonPc}
      (hforks : process.pc.inChild = some behind) {pid : ℕ}
      (hfresh : FreshPid processes pid) :
      DaemonStep initialCwd processes (.fork index pid)
        (processes.set index ⟨process.record, .leaving⟩ ++
          [⟨{ process.record with
                pid := pid }, behind⟩])

/-- `lith_daemonize(initialCwd)` called by this process. -/
def daemonSystem (initialCwd : Directory) (caller : ProcessRecord) :
    TransitionSystem (List DaemonProcess) DaemonLabel where
  start := fun processes => processes = [⟨caller, .firstFork⟩]
  step := DaemonStep initialCwd

/-- A certificate, a key or a file of the cache: opened, read and closed. -/
def useFile (fds : DescriptorTable DaemonFile) (file : DaemonFile) :
    DescriptorTable DaemonFile :=
  (fds.openLowest file).close fds.lowest

/-- `lith_init_server`: its result, and the descriptors. -/
def initServerFds (answers : NetworkAnswers) (fds : DescriptorTable DaemonFile) :
    Option ℕ × DescriptorTable DaemonFile :=
  if answers.socket then
    let opened := fds.openLowest .listener
    if answers.bind && answers.listen && answers.ssl then (some fds.lowest, opened)
    else (none, opened.close fds.lowest)
  else (none, fds)

/-! ## What the returning process is -/

/-- The three standard streams, with every other descriptor as the caller had it. -/
structure Streams (caller fds : DescriptorTable DaemonFile)
    (input output error : Option DaemonFile) : Prop where
  input : fds.entries stdinFileno = input
  output : fds.entries stdoutFileno = output
  error : fds.entries stderrFileno = error
  others : ∀ fd, 3 ≤ fd → fds.entries fd = caller.entries fd

/-- Neither leader of its session nor of its group, and without a terminal. -/
structure ProcessRecord.Detached (record : ProcessRecord) : Prop where
  session : record.session ≠ record.pid
  group : record.group ≠ record.pid
  terminal : record.terminal = none

/-- The log file that was opened, if any was. -/
def LogOutput (initialCwd : Directory) (output : Option DaemonFile) : Prop :=
  output = none ∨ output = some (.logFile (logPath initialCwd)) ∨
    output = some (.logFile tmpLogPath)

structure ProcessRecord.AtRoot (record : ProcessRecord) : Prop where
  detached : record.Detached
  umask : record.umask = 0
  cwd : record.cwd = Directory.root

structure ProcessRecord.Daemonized (record caller : ProcessRecord)
    (initialCwd : Directory) : Prop where
  atRoot : record.AtRoot
  streams : ∃ output, LogOutput initialCwd output ∧
    Streams caller.fds record.fds (some .devNull) output output

/-- The socket that `lith_init_server` returns after some files were used: without a
log it is the standard output, with one it is none of the three streams. -/
def ProcessRecord.ListensApart (record : ProcessRecord) : Prop :=
  ∀ (used : List DaemonFile) (answers : NetworkAnswers),
    let started := initServerFds answers (used.foldl useFile record.fds)
    (started.1 = none → started.2 = record.fds) ∧
      ∀ serverFd, started.1 = some serverFd →
        started.2.entries serverFd = some .listener ∧
        (∀ fd, fd ≠ serverFd → started.2.entries fd = record.fds.entries fd) ∧
        if record.fds.entries stdoutFileno = none then serverFd = stdoutFileno
        else 3 ≤ serverFd

/-- What is known of the process that goes on, by its place in the function. -/
def DaemonProcess.Stage (process : DaemonProcess) (caller : ProcessRecord)
    (initialCwd : Directory) : Prop :=
  let record := process.record
  let streams := Streams caller.fds record.fds
  match process.pc with
  | .firstFork => record.fds = caller.fds
  | .setsid => record.group ≠ record.pid ∧ record.fds = caller.fds
  | .secondFork => record.terminal = none ∧ record.fds = caller.fds
  | .umask => record.Detached ∧ record.fds = caller.fds
  | .chdir => record.Detached ∧ record.umask = 0 ∧ record.fds = caller.fds
  | .closeStdin => record.AtRoot ∧ record.fds = caller.fds
  | .closeStdout =>
      record.AtRoot ∧ streams none (caller.fds.entries stdoutFileno)
        (caller.fds.entries stderrFileno)
  | .closeStderr =>
      record.AtRoot ∧ streams none none (caller.fds.entries stderrFileno)
  | .openNull => record.AtRoot ∧ streams none none none
  | .openLog | .openTmpLog => record.AtRoot ∧ streams (some .devNull) none none
  | .dupStdout logFd | .dupStderr logFd =>
      record.AtRoot ∧ logFd = stdoutFileno ∧
        ∃ file, LogOutput initialCwd (some file) ∧
          streams (some .devNull) (some file) none
  | .leaving | .exited => False
  | .returned code => code = -1 ∨ code = 0 ∧ record.Daemonized caller initialCwd

/-! ## The standard streams -/

section

variable {caller fds : DescriptorTable DaemonFile} {input output error : Option DaemonFile}

theorem Streams.of_eq (hfds : fds = caller) :
    Streams caller fds (caller.entries stdinFileno) (caller.entries stdoutFileno)
      (caller.entries stderrFileno) := by
  subst hfds
  exact ⟨rfl, rfl, rfl, fun _ _ => rfl⟩

theorem Streams.put_input (hstreams : Streams caller fds input output error)
    (file : Option DaemonFile) :
    Streams caller (fds.put stdinFileno file) file output error where
  input := fds.put_same _ _
  output := (fds.put_of_ne (by decide) _).trans hstreams.output
  error := (fds.put_of_ne (by decide) _).trans hstreams.error
  others := fun fd hfd =>
    (fds.put_of_ne (by simp only [stdinFileno]; omega) _).trans (hstreams.others fd hfd)

theorem Streams.put_output (hstreams : Streams caller fds input output error)
    (file : Option DaemonFile) :
    Streams caller (fds.put stdoutFileno file) input file error where
  input := (fds.put_of_ne (by decide) _).trans hstreams.input
  output := fds.put_same _ _
  error := (fds.put_of_ne (by decide) _).trans hstreams.error
  others := fun fd hfd =>
    (fds.put_of_ne (by simp only [stdoutFileno]; omega) _).trans (hstreams.others fd hfd)

theorem Streams.put_error (hstreams : Streams caller fds input output error)
    (file : Option DaemonFile) :
    Streams caller (fds.put stderrFileno file) input output file where
  input := (fds.put_of_ne (by decide) _).trans hstreams.input
  output := (fds.put_of_ne (by decide) _).trans hstreams.output
  error := fds.put_same _ _
  others := fun fd hfd =>
    (fds.put_of_ne (by simp only [stderrFileno]; omega) _).trans (hstreams.others fd hfd)

theorem Streams.lowest_input (hstreams : Streams caller fds none output error) :
    fds.lowest = stdinFileno :=
  fds.lowest_eq hstreams.input fun _ hother => absurd hother (Nat.not_lt_zero _)

theorem Streams.lowest_output {file : DaemonFile}
    (hstreams : Streams caller fds (some file) none error) :
    fds.lowest = stdoutFileno := by
  refine fds.lowest_eq hstreams.output ?_
  intro other hother
  obtain rfl : other = stdinFileno := by
    simp only [stdoutFileno, stdinFileno] at hother ⊢
    omega
  simp [hstreams.input]

/-- `dup2` of the standard output onto itself and onto the error stream. -/
theorem Streams.dup_error {file : DaemonFile}
    (hstreams : Streams caller fds input (some file) error) :
    Streams caller (fds.dup2 stdoutFileno stderrFileno) input (some file)
      (some file) where
  input := (fds.dup2_of_ne (by decide)).trans hstreams.input
  output := (fds.dup2_of_ne (by decide)).trans hstreams.output
  error := fds.dup2_entries hstreams.output
  others := fun fd hfd =>
    (fds.dup2_of_ne (by simp only [stderrFileno]; omega)).trans (hstreams.others fd hfd)

end

/-! ## One step -/

variable {caller : ProcessRecord} {initialCwd : Directory} {process : DaemonProcess}

theorem ProcessRecord.AtRoot.withFds {record : ProcessRecord} (hroot : record.AtRoot)
    (fds : DescriptorTable DaemonFile) : (record.withFds fds).AtRoot :=
  ⟨⟨hroot.detached.session, hroot.detached.group, hroot.detached.terminal⟩,
    hroot.umask, hroot.cwd⟩

/-- A call of the process that goes on. -/
theorem DaemonProcess.Stage.call (hstage : process.Stage caller initialCwd)
    (succeeds : Bool) : (process.call initialCwd succeeds).Stage caller initialCwd := by
  obtain ⟨record, pc⟩ := process
  cases pc with
  | firstFork => exact Or.inl rfl
  | secondFork => exact Or.inl rfl
  | setsid =>
      obtain ⟨hgroup, hfds⟩ := hstage
      simp only [DaemonProcess.call, if_neg hgroup]
      exact ⟨rfl, hfds⟩
  | umask =>
      obtain ⟨hdetached, hfds⟩ := hstage
      exact ⟨⟨hdetached.session, hdetached.group, hdetached.terminal⟩, rfl, hfds⟩
  | chdir =>
      cases succeeds with
      | false => exact Or.inl rfl
      | true =>
          obtain ⟨hdetached, humask, hfds⟩ := hstage
          exact ⟨⟨⟨hdetached.session, hdetached.group, hdetached.terminal⟩, humask,
            rfl⟩, hfds⟩
  | closeStdin =>
      obtain ⟨hroot, hfds⟩ := hstage
      exact ⟨hroot.withFds _, (Streams.of_eq hfds).put_input none⟩
  | closeStdout =>
      obtain ⟨hroot, hstreams⟩ := hstage
      exact ⟨hroot.withFds _, hstreams.put_output none⟩
  | closeStderr =>
      obtain ⟨hroot, hstreams⟩ := hstage
      exact ⟨hroot.withFds _, hstreams.put_error none⟩
  | openNull =>
      obtain ⟨hroot, hstreams⟩ := hstage
      cases succeeds with
      | false => exact Or.inl rfl
      | true =>
          have hopened := hstreams.put_input (some .devNull)
          rw [← hstreams.lowest_input] at hopened
          exact ⟨hroot.withFds _, hopened⟩
  | openLog =>
      obtain ⟨hroot, hstreams⟩ := hstage
      cases succeeds with
      | false => exact ⟨hroot, hstreams⟩
      | true =>
          have hopened := hstreams.put_output (some (.logFile (logPath initialCwd)))
          rw [← hstreams.lowest_output] at hopened
          exact ⟨hroot.withFds _, hstreams.lowest_output, _,
            Or.inr (Or.inl rfl), hopened⟩
  | openTmpLog =>
      obtain ⟨hroot, hstreams⟩ := hstage
      cases succeeds with
      | false => exact Or.inr ⟨rfl, hroot, none, Or.inl rfl, hstreams⟩
      | true =>
          have hopened := hstreams.put_output (some (.logFile tmpLogPath))
          rw [← hstreams.lowest_output] at hopened
          exact ⟨hroot.withFds _, hstreams.lowest_output, _,
            Or.inr (Or.inr rfl), hopened⟩
  | dupStdout logFd =>
      obtain ⟨hroot, rfl, file, hlog, hstreams⟩ := hstage
      refine ⟨hroot.withFds _, rfl, file, hlog, ?_⟩
      rw [← record.fds.dup2_same stdoutFileno] at hstreams
      exact hstreams
  | dupStderr logFd =>
      obtain ⟨hroot, rfl, file, hlog, hstreams⟩ := hstage
      exact Or.inr ⟨rfl, hroot.withFds _, some file, hlog,
        hstreams.dup_error⟩
  | leaving => exact hstage.elim
  | exited => exact hstage.elim
  | returned code => exact hstage

/-- The process behind a `fork`, with an id that nobody has. -/
theorem DaemonProcess.Stage.fork (hstage : process.Stage caller initialCwd)
    {behind : DaemonPc} (hforks : process.pc.inChild = some behind) {pid : ℕ}
    (hfresh : pid ≠ process.record.pid ∧ pid ≠ process.record.group ∧
      pid ≠ process.record.session) :
    DaemonProcess.Stage
      ⟨{ process.record with
          pid := pid }, behind⟩ caller initialCwd := by
  obtain ⟨record, pc⟩ := process
  cases pc with
  | firstFork =>
      obtain rfl := Option.some.inj hforks
      exact ⟨hfresh.2.1.symm, hstage⟩
  | secondFork =>
      obtain rfl := Option.some.inj hforks
      exact ⟨⟨hfresh.2.2.symm, hfresh.2.1.symm, hstage.1⟩, hstage.2⟩
  | _ => simp [DaemonPc.inChild] at hforks

/-- All processes but the last have nothing left to do but leave. -/
structure Descends (caller : ProcessRecord) (initialCwd : Directory)
    (processes : List DaemonProcess) (earlier : List DaemonProcess)
    (current : DaemonProcess) : Prop where
  split : processes = earlier ++ [current]
  leave : ∀ process ∈ earlier, process.pc = .leaving ∨ process.pc = .exited
  stage : current.Stage caller initialCwd

/-- Every process stands before the last one or is the last one. -/
theorem Descends.place {processes earlier : List DaemonProcess}
    {current : DaemonProcess}
    (hdescends : Descends caller initialCwd processes earlier current) {index : ℕ}
    (hprocess : processes[index]? = some process) :
    (index < earlier.length ∧ process ∈ earlier) ∨
      (index = earlier.length ∧ process = current) := by
  rw [hdescends.split] at hprocess
  rcases Nat.lt_trichotomy index earlier.length with hless | rfl | hmore
  · rw [List.getElem?_append_left hless] at hprocess
    exact Or.inl ⟨hless, List.mem_of_getElem? hprocess⟩
  · simp only [List.getElem?_concat_length, Option.some.injEq] at hprocess
    exact Or.inr ⟨rfl, hprocess.symm⟩
  · rw [List.getElem?_eq_none (by simp; omega)] at hprocess
    simp at hprocess

theorem Descends.call {processes earlier : List DaemonProcess}
    {current : DaemonProcess}
    (hdescends : Descends caller initialCwd processes earlier current) {index : ℕ}
    (hprocess : processes[index]? = some process) (hlive : process.pc.Live)
    (succeeds : Bool) :
    ∃ earlier current, Descends caller initialCwd
      (processes.set index (process.call initialCwd succeeds)) earlier current := by
  have hsplit := hdescends.split
  rcases hdescends.place hprocess with ⟨hless, hmem⟩ | ⟨rfl, rfl⟩
  · -- one of the others exits
    have hleaving := (hdescends.leave process hmem).resolve_right hlive.1
    refine ⟨earlier.set index (process.call initialCwd succeeds), current, ?_, ?_,
      hdescends.stage⟩
    · rw [hsplit, List.set_append_left _ _ hless]
    · intro other hother
      rcases List.mem_or_eq_of_mem_set hother with hother | rfl
      · exact hdescends.leave other hother
      · exact Or.inr (by simp [DaemonProcess.call, hleaving])
  · refine ⟨earlier, _, ?_, hdescends.leave, hdescends.stage.call succeeds⟩
    rw [hsplit, List.set_append_right _ _ le_rfl, Nat.sub_self, List.set_cons_zero]

theorem Descends.fork {processes earlier : List DaemonProcess}
    {current : DaemonProcess}
    (hdescends : Descends caller initialCwd processes earlier current) {index : ℕ}
    (hprocess : processes[index]? = some process) {behind : DaemonPc}
    (hforks : process.pc.inChild = some behind) {pid : ℕ}
    (hfresh : FreshPid processes pid) :
    ∃ earlier current, Descends caller initialCwd
      (processes.set index ⟨process.record, .leaving⟩ ++
        [⟨{ process.record with
              pid := pid }, behind⟩]) earlier current := by
  have hsplit := hdescends.split
  have hpc : process.pc ≠ .leaving ∧ process.pc ≠ .exited := by
    constructor <;> intro hpc <;> simp [hpc, DaemonPc.inChild] at hforks
  rcases hdescends.place hprocess with ⟨-, hmem⟩ | ⟨rfl, rfl⟩
  · rcases hdescends.leave process hmem with hleave | hleave
    · exact absurd hleave hpc.1
    · exact absurd hleave hpc.2
  · have hnew := hfresh process (List.mem_of_getElem? hprocess) hpc.2
    refine ⟨earlier ++ [⟨process.record, .leaving⟩], _, ?_, ?_,
      hdescends.stage.fork hforks hnew⟩
    · rw [hsplit, List.set_append_right _ _ le_rfl, Nat.sub_self, List.set_cons_zero]
    · intro other hother
      rcases List.mem_append.mp hother with hother | hother
      · exact hdescends.leave other hother
      · rw [List.mem_singleton.mp hother]
        exact Or.inl rfl

theorem Descends.step {processes earlier after : List DaemonProcess}
    {current : DaemonProcess}
    (hdescends : Descends caller initialCwd processes earlier current)
    {label : DaemonLabel} (hstep : DaemonStep initialCwd processes label after) :
    ∃ earlier current, Descends caller initialCwd after earlier current := by
  cases hstep with
  | call hprocess hlive _ => exact hdescends.call hprocess hlive _
  | fork hprocess hforks hfresh => exact hdescends.fork hprocess hforks hfresh

/-! ## Every run ends -/

/-- The calls that a process and its children have left. -/
def DaemonPc.work : DaemonPc → ℕ
  | .firstFork => 15
  | .setsid => 13
  | .secondFork => 12
  | .umask => 10
  | .chdir => 9
  | .closeStdin => 8
  | .closeStdout => 7
  | .closeStderr => 6
  | .openNull => 5
  | .openLog => 4
  | .openTmpLog => 3
  | .dupStdout _ => 2
  | .dupStderr _ => 1
  | .leaving => 1
  | .exited => 0
  | .returned _ => 0

def daemonWork (processes : List DaemonProcess) : ℕ :=
  (processes.map fun process => process.pc.work).sum

theorem call_work_lt {process : DaemonProcess} (hlive : process.pc.Live)
    (initialCwd : Directory) (succeeds : Bool) :
    (process.call initialCwd succeeds).pc.work < process.pc.work := by
  obtain ⟨record, pc⟩ := process
  cases pc with
  | exited => exact absurd rfl hlive.1
  | returned code => exact absurd rfl (hlive.2 code)
  | setsid =>
      unfold DaemonProcess.call
      dsimp only
      split_ifs <;> simp [DaemonPc.work]
  | _ => cases succeeds <;> simp [DaemonProcess.call, DaemonPc.work]

theorem daemonWork_set {processes : List DaemonProcess} {index : ℕ}
    (hprocess : processes[index]? = some process) (other : DaemonProcess) :
    daemonWork (processes.set index other) + process.pc.work =
      daemonWork processes + other.pc.work := by
  induction processes generalizing index with
  | nil => simp at hprocess
  | cons first rest ih =>
      cases index with
      | zero =>
          simp only [List.getElem?_cons_zero, Option.some.injEq] at hprocess
          subst hprocess
          simp only [daemonWork, List.set_cons_zero, List.map_cons, List.sum_cons]
          omega
      | succ index =>
          have hrest := ih hprocess
          simp only [daemonWork, List.set_cons_succ, List.map_cons, List.sum_cons]
            at hrest ⊢
          omega

theorem DaemonStep.work_lt {processes after : List DaemonProcess} {label : DaemonLabel}
    (hstep : DaemonStep initialCwd processes label after) :
    daemonWork after < daemonWork processes := by
  cases hstep with
  | @call index process hprocess hlive succeeds _ =>
      have hset := daemonWork_set hprocess (process.call initialCwd succeeds)
      have hless := call_work_lt hlive initialCwd succeeds
      omega
  | @fork index process hprocess behind hforks pid _ =>
      have hset := daemonWork_set hprocess ⟨process.record, .leaving⟩
      have hchild : 1 + behind.work < process.pc.work := by
        obtain ⟨record, pc⟩ := process
        cases pc <;> simp [DaemonPc.inChild] at hforks <;> subst hforks <;>
          simp [DaemonPc.work]
      simp only [daemonWork, List.map_append, List.map_cons, List.map_nil,
        List.sum_append, List.sum_cons, List.sum_nil] at hset ⊢
      simp only [DaemonPc.work] at hset hchild ⊢
      omega

theorem exists_freshPid (processes : List DaemonProcess) :
    ∃ pid, FreshPid processes pid := by
  have hbound : ∃ bound, ∀ process ∈ processes, process.record.pid < bound ∧
      process.record.group < bound ∧ process.record.session < bound := by
    induction processes with
    | nil => exact ⟨0, by simp⟩
    | cons first rest ih =>
        obtain ⟨bound, hrest⟩ := ih
        refine ⟨bound + first.record.pid + first.record.group +
          first.record.session + 1, ?_⟩
        intro process hmem
        rcases List.mem_cons.mp hmem with rfl | hmem
        · omega
        · have hless := hrest process hmem
          omega
  obtain ⟨bound, hless⟩ := hbound
  refine ⟨bound, ?_⟩
  intro process hmem _
  have hids := hless process hmem
  omega

/-- A process that is not through has a step, without any call failing. -/
theorem exists_step_of_live {processes : List DaemonProcess}
    (hmem : process ∈ processes) (hlive : process.pc.Live) :
    ∃ label after, label.Succeeds ∧ DaemonStep initialCwd processes label after := by
  obtain ⟨index, hprocess⟩ := List.mem_iff_getElem?.mp hmem
  cases hforks : process.pc.inChild with
  | none =>
      exact ⟨.call index true, _, rfl, .call hprocess hlive (by simp [hforks])⟩
  | some behind =>
      obtain ⟨pid, hfresh⟩ := exists_freshPid processes
      exact ⟨.fork index pid, _, trivial, .fork hprocess hforks hfresh⟩

/-- The calls are over: one process returns `code`, the others are gone. -/
def DaemonEnds (caller : ProcessRecord) (initialCwd : Directory)
    (codes : List ℤ) (processes : List DaemonProcess) : Prop :=
  ∃ earlier daemon code, processes = earlier ++ [daemon] ∧
    (∀ process ∈ earlier, process.pc = .exited) ∧ code ∈ codes ∧
    daemon.pc = .returned code ∧
    (code = 0 → daemon.record.Daemonized caller initialCwd ∧ daemon.record.ListensApart)

theorem foldl_useFile (used : List DaemonFile) (fds : DescriptorTable DaemonFile) :
    used.foldl useFile fds = fds := by
  induction used with
  | nil => rfl
  | cons file used ih => rw [List.foldl_cons, useFile, fds.close_openLowest, ih]

theorem ProcessRecord.Daemonized.listensApart {record : ProcessRecord}
    (hdaemon : record.Daemonized caller initialCwd) : record.ListensApart := by
  obtain ⟨output, -, hstreams⟩ := hdaemon.streams
  intro used answers
  rw [foldl_useFile]
  unfold initServerFds
  constructor
  · split_ifs
    · exact fun hnone => absurd hnone (by simp)
    · exact fun _ => record.fds.close_openLowest _
    · exact fun _ => rfl
  · intro serverFd
    split_ifs with hsocket hready hsilent
    · intro hserver
      obtain rfl := Option.some.inj hserver
      refine ⟨record.fds.put_same _ _, fun fd hne => record.fds.put_of_ne hne _, ?_⟩
      rw [hstreams.output] at hsilent
      subst hsilent
      exact hstreams.lowest_output
    · intro hserver
      obtain rfl := Option.some.inj hserver
      refine ⟨record.fds.put_same _ _, fun fd hne => record.fds.put_of_ne hne _, ?_⟩
      rw [hstreams.output] at hsilent
      refine record.fds.le_lowest ?_
      intro fd hfd
      rcases (by omega : fd = 0 ∨ fd = 1 ∨ fd = 2) with rfl | rfl | rfl
      · exact ne_of_eq_of_ne hstreams.input (by simp)
      · exact ne_of_eq_of_ne hstreams.output hsilent
      · exact ne_of_eq_of_ne hstreams.error hsilent
    all_goals exact fun hserver => absurd hserver (by simp)

theorem Descends.ends {processes earlier : List DaemonProcess}
    {current : DaemonProcess}
    (hdescends : Descends caller initialCwd processes earlier current)
    (hover : ∀ process ∈ processes, ¬process.pc.Live) :
    DaemonEnds caller initialCwd [0, -1] processes := by
  have hsplit := hdescends.split
  have hstage := hdescends.stage
  have hexited : ∀ process ∈ earlier, process.pc = .exited := by
    intro process hmem
    refine (hdescends.leave process hmem).resolve_left ?_
    intro hleaving
    have hdead := hover process (by rw [hsplit]; exact List.mem_append_left _ hmem)
    exact hdead (by simp [DaemonPc.Live, hleaving])
  have hdead := hover current (by simp [hsplit])
  unfold DaemonProcess.Stage at hstage
  cases hpc : current.pc with
  | returned code =>
      rw [hpc] at hstage
      rcases hstage with rfl | ⟨rfl, hdaemon⟩
      · exact ⟨earlier, current, -1, hsplit, hexited, by simp, hpc, by simp⟩
      · exact ⟨earlier, current, 0, hsplit, hexited, by simp, hpc,
          fun _ => ⟨hdaemon, hdaemon.listensApart⟩⟩
  | exited =>
      rw [hpc] at hstage
      exact hstage.elim
  | _ => exact absurd (by simp [DaemonPc.Live, hpc]) hdead

/-- Only a call that fails makes the function fail: the child is no leader of a
group, so `setsid` is not refused. -/
theorem Descends.call_ne_failed {processes earlier : List DaemonProcess}
    {current : DaemonProcess}
    (hdescends : Descends caller initialCwd processes earlier current)
    (hmem : process ∈ processes) (hlive : process.pc.Live)
    (hforks : process.pc.inChild = none) :
    (process.call initialCwd true).pc ≠ .returned (-1) := by
  have hstage : process.pc = .leaving ∨ process.Stage caller initialCwd := by
    rw [hdescends.split, List.mem_append, List.mem_singleton] at hmem
    rcases hmem with hmem | rfl
    · exact Or.inl ((hdescends.leave process hmem).resolve_right hlive.1)
    · exact Or.inr hdescends.stage
  obtain ⟨record, pc⟩ := process
  cases pc with
  | firstFork => simp [DaemonPc.inChild] at hforks
  | secondFork => simp [DaemonPc.inChild] at hforks
  | setsid =>
      rcases hstage with hleaving | ⟨hgroup, -⟩
      · simp at hleaving
      · simp [DaemonProcess.call, show record.group ≠ record.pid from hgroup]
  | returned code => exact absurd rfl (hlive.2 code)
  | _ => simp [DaemonProcess.call]

/-- Every process descends, and none has failed. -/
def DescendsWell (caller : ProcessRecord) (initialCwd : Directory)
    (processes : List DaemonProcess) : Prop :=
  (∃ earlier current, Descends caller initialCwd processes earlier current) ∧
    ∀ process ∈ processes, process.pc ≠ .returned (-1)

theorem DescendsWell.step {processes after : List DaemonProcess}
    (hwell : DescendsWell caller initialCwd processes) {label : DaemonLabel}
    (hsucceeds : label.Succeeds) (hstep : DaemonStep initialCwd processes label after) :
    DescendsWell caller initialCwd after := by
  obtain ⟨⟨earlier, current, hdescends⟩, hnever⟩ := hwell
  refine ⟨hdescends.step hstep, ?_⟩
  cases hstep with
  | @call index process hprocess hlive succeeds hforks =>
      obtain rfl : succeeds = true := hsucceeds
      have hnone : process.pc.inChild = none := by
        by_contra hsome
        exact absurd (hforks hsome) (by simp)
      intro other hother
      rcases List.mem_or_eq_of_mem_set hother with hother | rfl
      · exact hnever other hother
      · exact hdescends.call_ne_failed (List.mem_of_getElem? hprocess) hlive hnone
  | @fork index process hprocess behind hforks pid hfresh =>
      intro other hother
      rcases List.mem_append.mp hother with hother | hother
      · rcases List.mem_or_eq_of_mem_set hother with hother | rfl
        · exact hnever other hother
        · simp
      · rw [List.mem_singleton.mp hother]
        rintro rfl
        cases hpc : process.pc <;> simp [hpc, DaemonPc.inChild] at hforks

theorem descends_start (caller : ProcessRecord) (initialCwd : Directory) :
    Descends caller initialCwd [⟨caller, .firstFork⟩] [] ⟨caller, .firstFork⟩ :=
  ⟨rfl, by simp, rfl⟩

/-- Whatever the order of the processes and whichever calls fail, the run is over
after fifteen calls, and `lith_daemonize` has returned in one process while all others
have left.  Where it returned `0` that process leads neither a session nor a group,
has no terminal and lies at the root; its output is one of the two log files or is
closed, and above the standard streams it has the descriptors that the caller had.
It returns `0` if no call fails. -/
theorem daemon_detaches (caller : ProcessRecord) (initialCwd : Directory) :
    (daemonSystem initialCwd caller).Settles [⟨caller, .firstFork⟩] 15
        (DaemonEnds caller initialCwd [0, -1]) ∧
      ((daemonSystem initialCwd caller).restrict
        fun _ label => label.Succeeds).Settles [⟨caller, .firstFork⟩] 15
          (DaemonEnds caller initialCwd [0]) := by
  have hstart := descends_start caller initialCwd
  constructor
  · refine TransitionSystem.settles_of_rank daemonWork (P := fun processes =>
      ∃ earlier current, Descends caller initialCwd processes earlier current)
      ⟨[], _, hstart⟩ ?_ ?_ ?_
    · rintro before label after ⟨earlier, current, hdescends⟩ hstep
      exact hdescends.step hstep
    · intro before label after _ hstep
      exact hstep.work_lt
    · rintro last ⟨earlier, current, hdescends⟩ hquiet
      refine hdescends.ends ?_
      intro process hmem hlive
      obtain ⟨label, after, -, hstep⟩ := exists_step_of_live hmem hlive
      exact hquiet label after hstep
  · refine TransitionSystem.settles_of_rank daemonWork
      (P := DescendsWell caller initialCwd) ⟨⟨[], _, hstart⟩, by simp⟩ ?_ ?_ ?_
    · intro before label after hwell hstep
      exact hwell.step hstep.1 hstep.2
    · intro before label after _ hstep
      exact hstep.2.work_lt
    · rintro last ⟨⟨earlier, current, hdescends⟩, hnever⟩ hquiet
      have hover : ∀ process ∈ last, ¬process.pc.Live := by
        intro process hmem hlive
        obtain ⟨label, after, hsucceeds, hstep⟩ := exists_step_of_live hmem hlive
        exact hquiet label after ⟨hsucceeds, hstep⟩
      obtain ⟨others, daemon, code, hsplit, hexited, hcode, hpc, hdaemon⟩ :=
        hdescends.ends hover
      have hne : code ≠ -1 := by
        rintro rfl
        exact hnever daemon (by simp [hsplit]) hpc
      refine ⟨others, daemon, code, hsplit, hexited, ?_, hpc, hdaemon⟩
      simpa [hne] using hcode

end Lith
