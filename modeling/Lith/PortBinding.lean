import Lith.StartUp

/-!
# The port of the server

`lith start` takes the port from the configuration or from the last argument
that is a positive number, logs it, and hands it to `htons`.  The port is an
`int` all the way; the conversion to `uint16_t` in that call is the only place
where it is cut, and nothing looks at its range before.
-/

namespace Lith

open CString

/-! ## The command line -/

structure CommandLine where
  portOverride : ℤ
  useDaemon : Bool
  deriving DecidableEq

def isDaemonFlag (arg : Bytes) : Bool :=
  arg = ascii "--daemon" || arg = ascii "-d"

def CommandLine.read (line : CommandLine) (arg : Bytes) : CommandLine :=
  if isDaemonFlag arg then { line with useDaemon := true }
  else if 0 < atoi arg then { line with portOverride := atoi arg }
  else line

/-- The loop of `main` over the arguments behind `start`. -/
def parseArguments (args : List Bytes) : CommandLine :=
  args.foldl CommandLine.read ⟨0, false⟩

def ServerConfig.overridePort (config : ServerConfig) (line : CommandLine) :
    ServerConfig :=
  if 0 < line.portOverride then { config with port := line.portOverride }
  else config

/-- `main` up to `lith_ssl_init`, for a command line and a configuration file. -/
def startProcess (file : Option Bytes) (args : List Bytes) (cwd : Directory) :
    Process :=
  mainStart (parseArguments args).useDaemon cwd
    ((configOf file).overridePort (parseArguments args))

/-! ## The server socket -/

/-- `sin_port`: two bytes in network order. -/
structure NetworkPort where
  high : UInt8
  low : UInt8
  deriving DecidableEq

/-- `htons` of an `int`, which becomes a `uint16_t` on the way. -/
def htons (port : ℤ) : NetworkPort where
  high := UInt8.ofNat ((port % 2 ^ 16).toNat / 256)
  low := UInt8.ofNat ((port % 2 ^ 16).toNat % 256)

/-- The port number that `bind` reads. -/
def NetworkPort.number (sinPort : NetworkPort) : ℕ :=
  256 * sinPort.high.toNat + sinPort.low.toNat

structure NetworkAnswers where
  socket : Bool
  bind : Bool
  listen : Bool
  ssl : Bool

inductive StartEvent where
  | overriding (port : ℤ)
  | bind (sinPort : NetworkPort)
  | bindFailed (port : ℤ)
  | ready (port : ℤ)
  deriving DecidableEq

/-- `lith_init_server`: the call of `bind` and the messages that name a port. -/
def lithInitServer (config : ServerConfig) (answers : NetworkAnswers) :
    List StartEvent :=
  if answers.socket then
    .bind (htons config.port) ::
      if answers.bind then
        if answers.listen && answers.ssl then [.ready config.port] else []
      else [.bindFailed config.port]
  else []

def CommandLine.logged (line : CommandLine) : List StartEvent :=
  if 0 < line.portOverride then [.overriding line.portOverride] else []

structure StartAnswers extends NetworkAnswers where
  getcwd : Option Directory
  daemonized : Bool
  sslBefore : Bool

/-- `lith start` up to the event loop. -/
def lithStart (file : Option Bytes) (args : List Bytes) (answers : StartAnswers) :
    List StartEvent :=
  match answers.getcwd with
  | none => []
  | some cwd =>
      let line := parseArguments args
      if line.useDaemon && !answers.daemonized then line.logged
      else if answers.sslBefore then
        line.logged ++ lithInitServer (startProcess file args cwd).config
          answers.toNetworkAnswers
      else line.logged

/-! ## The effective port -/

def argumentPorts (args : List Bytes) : List ℤ :=
  ((args.filter fun arg => !isDaemonFlag arg).map atoi).filter (0 < ·)

/-- The last argument that is a positive number, or else the configured port. -/
def effectivePort (configured : ℤ) (args : List Bytes) : ℤ :=
  (argumentPorts args).getLast?.getD configured

theorem parseArguments_concat (args : List Bytes) (arg : Bytes) :
    parseArguments (args ++ [arg]) = (parseArguments args).read arg := by
  simp [parseArguments]

theorem argumentPorts_concat (args : List Bytes) (arg : Bytes) :
    argumentPorts (args ++ [arg]) = argumentPorts args ++
      if isDaemonFlag arg = false ∧ 0 < atoi arg then [atoi arg] else [] := by
  cases hflag : isDaemonFlag arg <;> by_cases hpos : 0 < atoi arg <;>
    simp [argumentPorts, hflag, hpos]

theorem portOverride_eq (args : List Bytes) :
    (parseArguments args).portOverride = (argumentPorts args).getLast?.getD 0 := by
  induction args using List.reverseRecOn with
  | nil => rfl
  | append_singleton args arg ih =>
      rw [parseArguments_concat, argumentPorts_concat, CommandLine.read]
      cases hflag : isDaemonFlag arg with
      | true => simpa using ih
      | false =>
          by_cases hpos : 0 < atoi arg
          · simp [hpos]
          · simpa [hpos] using ih

theorem overridePort_port (config : ServerConfig) (args : List Bytes) :
    (config.overridePort (parseArguments args)).port =
      effectivePort config.port args := by
  have hline := portOverride_eq args
  unfold ServerConfig.overridePort effectivePort
  cases hlast : (argumentPorts args).getLast? with
  | none =>
      rw [hlast, Option.getD_none] at hline
      simp [hline]
  | some port =>
      have hpos : 0 < port := by
        have hmem := List.mem_of_getLast? hlast
        simpa using (List.mem_filter.mp hmem).2
      rw [hlast, Option.getD_some] at hline
      simp [hline, hpos]

theorem startProcess_port (file : Option Bytes) (args : List Bytes)
    (cwd : Directory) : (startProcess file args cwd).config.port =
      effectivePort (configOf file).port args := by
  rw [← overridePort_port]
  unfold startProcess mainStart lithDaemonize ServerConfig.withAbsolutePublic
  split_ifs <;> rfl

/-! ## What is bound -/

theorem number_htons (port : ℤ) : ((htons port).number : ℤ) = port % 2 ^ 16 := by
  have hhigh : (UInt8.ofNat ((port % 2 ^ 16).toNat / 256)).toNat =
      (port % 2 ^ 16).toNat / 256 := by
    rw [UInt8.toNat_ofNat']
    omega
  have hlow : (UInt8.ofNat ((port % 2 ^ 16).toNat % 256)).toNat =
      (port % 2 ^ 16).toNat % 256 := by
    rw [UInt8.toNat_ofNat']
    omega
  simp only [htons, NetworkPort.number, hhigh, hlow]
  omega

theorem number_htons_eq_iff (port : ℤ) :
    ((htons port).number : ℤ) = port ↔ 0 ≤ port ∧ port ≤ 65535 := by
  rw [number_htons]
  omega

/-- The start gets as far as the call of `bind`. -/
structure StartAnswers.Binds (answers : StartAnswers) (args : List Bytes) : Prop where
  getcwd : answers.getcwd.isSome = true
  daemonized : (parseArguments args).useDaemon = true → answers.daemonized = true
  ssl : answers.sslBefore = true
  socket : answers.socket = true

/-- The port number that is bound and the ones that are logged are `port`. -/
structure PortKept (port : ℤ) (events : List StartEvent) : Prop where
  bound : ∀ sinPort, .bind sinPort ∈ events → (sinPort.number : ℤ) = port
  logged : ∀ number, .bindFailed number ∈ events ∨ .ready number ∈ events →
    number = port

theorem mem_lithInitServer {config : ServerConfig} {answers : NetworkAnswers}
    {event : StartEvent} (hmem : event ∈ lithInitServer config answers) :
    event = .bind (htons config.port) ∨ event = .bindFailed config.port ∨
      event = .ready config.port := by
  unfold lithInitServer at hmem
  split_ifs at hmem <;> simp at hmem <;> tauto

theorem mem_logged {line : CommandLine} {event : StartEvent}
    (hmem : event ∈ line.logged) : event = .overriding line.portOverride := by
  unfold CommandLine.logged at hmem
  split_ifs at hmem
  · exact List.mem_singleton.mp hmem
  · simp at hmem

/-- Whatever fails on the way, the events are about the effective port. -/
theorem mem_lithStart {file : Option Bytes} {args : List Bytes}
    {answers : StartAnswers} {event : StartEvent}
    (hmem : event ∈ lithStart file args answers) :
    event = .overriding (parseArguments args).portOverride ∨
      event = .bind (htons (effectivePort (configOf file).port args)) ∨
      event = .bindFailed (effectivePort (configOf file).port args) ∨
      event = .ready (effectivePort (configOf file).port args) := by
  unfold lithStart at hmem
  cases hcwd : answers.getcwd with
  | none => simp [hcwd] at hmem
  | some cwd =>
      rw [← startProcess_port file args cwd]
      simp only [hcwd] at hmem
      split_ifs at hmem
      · exact Or.inl (mem_logged hmem)
      · rcases List.mem_append.mp hmem with hmem | hmem
        · exact Or.inl (mem_logged hmem)
        · exact Or.inr (mem_lithInitServer hmem)
      · exact Or.inl (mem_logged hmem)

theorem bind_mem_lithStart {args : List Bytes} {answers : StartAnswers}
    (hbinds : answers.Binds args) (file : Option Bytes) :
    .bind (htons (effectivePort (configOf file).port args)) ∈
      lithStart file args answers := by
  obtain ⟨cwd, hcwd⟩ := Option.isSome_iff_exists.mp hbinds.getcwd
  have hdaemon : ((parseArguments args).useDaemon && !answers.daemonized) = false := by
    cases hflag : (parseArguments args).useDaemon with
    | false => rfl
    | true => simp [hbinds.daemonized hflag]
  simp only [lithStart, hcwd, hdaemon, hbinds.ssl, Bool.false_eq_true, if_false,
    if_true, List.mem_append]
  right
  rw [lithInitServer, if_pos hbinds.socket, startProcess_port]
  exact List.mem_cons_self

/-- A start that gets as far as `bind` binds the effective port if and only if
that is a port number. -/
theorem bound_port_eq_iff (file : Option Bytes) (args : List Bytes)
    (answers : StartAnswers) (hbinds : answers.Binds args) :
    PortKept (effectivePort (configOf file).port args) (lithStart file args answers) ↔
      0 ≤ effectivePort (configOf file).port args ∧
        effectivePort (configOf file).port args ≤ 65535 := by
  rw [← number_htons_eq_iff]
  constructor
  · intro hkept
    exact hkept.bound _ (bind_mem_lithStart hbinds file)
  · intro hrange
    constructor
    · intro sinPort hmem
      have hcases := mem_lithStart hmem
      simp only [reduceCtorEq, StartEvent.bind.injEq, false_or, or_false] at hcases
      rw [hcases]
      exact hrange
    · rintro number (hmem | hmem)
      · simpa using mem_lithStart hmem
      · simpa using mem_lithStart hmem

/-- A start at which nothing fails. -/
def smoothAnswers : StartAnswers where
  socket := true
  bind := true
  listen := true
  ssl := true
  getcwd := some srv
  daemonized := true
  sslBefore := true

theorem smoothAnswers_binds (args : List Bytes) : smoothAnswers.Binds args :=
  ⟨rfl, fun _ => rfl, rfl, rfl⟩

theorem bound_port_8080 :
    PortKept 8080 (lithStart none [ascii "8080", ascii "-d"] smoothAnswers) := by
  have heffective : effectivePort (configOf none).port [ascii "8080", ascii "-d"] =
      8080 := by decide
  have hkept := (bound_port_eq_iff none [ascii "8080", ascii "-d"] smoothAnswers
    (smoothAnswers_binds _)).mpr (by decide)
  rwa [heffective] at hkept

/-- `lith start 70000` listens on port 4464 and reports port 70000. -/
theorem port_70000_reduced :
    smoothAnswers.Binds [ascii "70000"] ∧
      effectivePort (configOf none).port [ascii "70000"] = 70000 ∧
      lithStart none [ascii "70000"] smoothAnswers =
        [.overriding 70000, .bind (htons 70000), .ready 70000] ∧
      (htons 70000).number = 4464 ∧
      ¬PortKept 70000 (lithStart none [ascii "70000"] smoothAnswers) := by
  have hevents : lithStart none [ascii "70000"] smoothAnswers =
      [.overriding 70000, .bind (htons 70000), .ready 70000] := by decide
  have hnumber : (htons 70000).number = 4464 := by decide
  refine ⟨smoothAnswers_binds _, by decide, hevents, hnumber, ?_⟩
  intro hkept
  have hbound := hkept.bound (htons 70000) (by rw [hevents]; simp)
  rw [hnumber] at hbound
  exact absurd hbound (by decide)

end Lith
