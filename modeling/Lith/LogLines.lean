import Lith.ConfigLines
import Lith.HeadParsing
import Lith.PortBinding
import Lith.Redirect
import Lith.SharedStream

/-!
# The log of the running server

`lith_log` writes a line with three calls of `printf`, and the threads of the server
log on one standard output.  Here are the lines of all its callers: those of
`handle_http_route`, with the paths that a client chose, those that print what the
configuration says, and the fixed ones around them.  No text that reaches a line holds
a line feed, so neither a client nor the configuration can add a line to the log,
however the threads interleave.  What `main` and the handler of the signals print
themselves is not part of the log.
-/

namespace Lith

open CString

inductive LogLevel where
  | info
  | warn
  | error
  deriving DecidableEq

def clrReset : Bytes := 27 :: ascii "[0m"

def LogLevel.word : LogLevel → Bytes
  | .info => ascii "INFO"
  | .warn => ascii "WARN"
  | .error => ascii "ERROR"

def LogLevel.color : LogLevel → Bytes
  | .info => 27 :: ascii "[32m"
  | .warn => 27 :: ascii "[33m"
  | .error => 27 :: ascii "[31m"

/-- `localtime`, as far as `%H:%M:%S` goes; a second may be a leap second. -/
structure ClockTime where
  hour : Fin 24
  minute : Fin 60
  second : Fin 61

def twoDigits (n : ℕ) : Bytes :=
  if n < 10 then 48 :: decimal n else decimal n

def ClockTime.text (time : ClockTime) : Bytes :=
  twoDigits time.hour ++ 58 :: twoDigits time.minute ++ 58 :: twoDigits time.second

/-- What a call of `lith_log` is about, with the format filled in. -/
structure LogEntry where
  level : LogLevel
  message : Bytes
  deriving DecidableEq

structure LogCall where
  time : ClockTime
  entry : LogEntry

def LogCall.front (call : LogCall) : Bytes :=
  ascii "[" ++ call.time.text ++ ascii "] " ++ call.entry.level.color ++ ascii "[" ++
    call.entry.level.word ++ ascii "]" ++ clrReset ++ ascii " "

/-- `lith_log`: what each `printf` writes. -/
def LogCall.pieces (call : LogCall) : List Bytes :=
  [call.front, call.entry.message, [10]]

/-! ## What is logged -/

def hotReloadLog (entry : CacheEntry) (size : ℕ) : LogEntry where
  level := .info
  message := ascii "[HOT-RELOAD] RAM Cache updated dynamically for: " ++
    entry.filepath.text ++ ascii " (" ++ decimal size ++ ascii " bytes updated)"

/-- The line of `lith_cache_hot_reload`, when the entry is stale and the reload
succeeds. -/
def refreshLog (files : Files) (path : Bytes) (entry : CacheEntry) : List LogEntry :=
  match (files path).stat with
  | some st =>
      if entry.lastModified < st.mtime then
        let reloaded := lithCacheHotReload entry (files entry.filepath.text)
        if reloaded.1 then [hotReloadLog entry reloaded.2.size] else []
      else []
  | none => []

def cacheHitLog (path : Bytes) : LogEntry :=
  ⟨.info, ascii "200 OK (RAM Cache hit) - Served: " ++ path⟩

def diskLog (path : Bytes) : LogEntry :=
  ⟨.info, ascii "200 OK (Disk Fallback) - Served: " ++ path⟩

def notFoundLog (filePath : Bytes) : LogEntry :=
  ⟨.warn, ascii "404 - Not Found: " ++ filePath⟩

def forbiddenLog (path : Bytes) : LogEntry :=
  ⟨.warn, ascii "Security Alert: Blocked traversal attempt on path: " ++ path⟩

def postLog (req : HttpRequest) : LogEntry :=
  ⟨.info, ascii "POST Payload size: " ++ decimal req.contentLength ++ ascii " bytes"⟩

def serveFileLog (useCache : ℤ) (files : Files) (cache : LithCache)
    (req : HttpRequest) (path : Bytes) : List LogEntry :=
  match if useCache = 1 then lithCacheLookup cache path else none with
  | some idx =>
      refreshLog files path (cache.entries idx) ++ [cacheHitLog req.path.text]
  | none =>
      match readFile (files path) with
      | some _ => [diskLog req.path.text]
      | none => [notFoundLog path]

/-- The calls of `lith_log` in `handle_http_route`. -/
def handleHttpRouteLog (useCache : ℤ) (publicDir : CharArray 256) (files : Files)
    (cache : LithCache) (req : HttpRequest) : List LogEntry :=
  match req.method with
  | .post => [postLog req]
  | .get =>
      if isSafePath req.path.text then
        serveFileLog useCache files cache req (filePath publicDir req.path.text)
      else [forbiddenLog req.path.text]
  | .unknown => []

def configName : Bytes := ascii "lith.conf"

/-- The line of `load_config`. -/
def loadConfigLog (file : Option Bytes) : LogEntry :=
  match file with
  | none =>
      ⟨.warn, ascii "Configuration file '" ++ configName ++
        ascii "' not found. Using internal defaults."⟩
  | some _ =>
      ⟨.info, ascii "Configuration loaded successfully: Port=" ++
        decimal (configOf file).port ++ ascii ", Public Directory='" ++
        (configOf file).publicDir.text ++ ascii "', Cache=" ++
        if (configOf file).useCache = 0 then ascii "DISABLED" else ascii "ENABLED"⟩

def cacheSkipLog (filepath : Bytes) : LogEntry :=
  ⟨.warn, ascii "Cache skip: File " ++ filepath ++
    ascii " too large for RAM boundaries"⟩

def cachedLog (filepath : Bytes) (size : ℕ) : LogEntry :=
  ⟨.info, ascii "Cached static resource: " ++ filepath ++ ascii " (" ++ decimal size ++
    ascii " bytes mapped to RAM)"⟩

def lithCacheAddLog (cache : LithCache) (filepath : Bytes) (io : FileAccess) :
    List LogEntry :=
  if cache.entryCount < maxCacheEntries ∧ io.opened then
    match io.stat with
    | none => []
    | some st =>
        if maxCacheFileSize < st.size then [cacheSkipLog filepath]
        else if io.memory.isSome then [cachedLog filepath (io.fread st.size).length]
        else []
  else []

/-- The files that `thread_pool_init` adds. -/
def initialFiles (publicDir : Bytes) : List Bytes :=
  [snprintf 512 (publicDir ++ ascii "/index.html"),
    snprintf 512 (publicDir ++ ascii "/style.css")]

/-- The lines of `main`, `lith_daemonize` and `lith_cache_init` before the workers. -/
def startLogs (config : ServerConfig) : List LogEntry :=
  [⟨.error, ascii "Failed to get current working directory"⟩,
    ⟨.info, ascii "CLI Argument detected: Overriding port to " ++ decimal config.port⟩,
    ⟨.info, ascii "Detaching session. LITH is shifting control to background daemon..."⟩,
    ⟨.error, ascii "Daemonization CRITICAL: First fork failed"⟩,
    ⟨.error, ascii "Daemonization CRITICAL: setsid failed to detach session"⟩,
    ⟨.error, ascii "Daemonization CRITICAL: Second fork failed"⟩,
    ⟨.error, ascii "Daemonization CRITICAL: chdir to root partition failed"⟩,
    ⟨.info, ascii "LITH Engine daemonized successfully. Operating silently in background."⟩,
    ⟨.error, ascii "Critical: Daemonization execution routine failed"⟩,
    ⟨.error, ascii "Critical: Failed to bootstrap OpenSSL context engine. Aborting launch."⟩,
    ⟨.info, ascii "RAM Cache subsystem initialized seamlessly."⟩]

/-- The other lines of the threads, from the start of the workers on. -/
def serverLogs (config : ServerConfig) : List LogEntry :=
  [⟨.error, ascii "Failed to apply SO_RCVTIMEO context on client socket."⟩,
    ⟨.warn, ascii "Network: Empty or premature request dropped."⟩,
    ⟨.info, ascii "HTTP: Cleartext protocol signature found. Enforcing dynamic 301 redirect."⟩,
    ⟨.error, ascii "SSL: Failed to allocate space for client session storage."⟩,
    ⟨.warn, ascii "SSL: Cryptographic handshake failed. Dropping insecure connection request."⟩,
    ⟨.error, ascii "Critical allocation failure for pool node"⟩,
    ⟨.info, ascii "Thread pool initialized successfully with 8 active workers."⟩,
    ⟨.error, ascii "Socket creation failed"⟩,
    ⟨.warn, ascii "Failed to set SO_REUSEADDR"⟩,
    ⟨.error, ascii "Bind failed on port " ++ decimal config.port ++
      ascii ". Port might already be in use."⟩,
    ⟨.error, ascii "Listen failed"⟩,
    ⟨.error, ascii "SSL: Failed to create global context framework"⟩,
    ⟨.error, ascii "SSL: Failed to load cryptographic certificate target: '" ++
      certPath config ++ ascii "'"⟩,
    ⟨.error, ascii "SSL: Failed to load cryptographic private key target: '" ++
      keyPath config ++ ascii "'"⟩,
    ⟨.error, ascii "SSL: Structural validation failed. Private key mismatch with public certificate."⟩,
    ⟨.info, ascii "SSL: Cryptographic engine initialized securely with modern TLS."⟩,
    ⟨.error, ascii "Critical structural error: Cryptographic layer block failure"⟩,
    ⟨.info, ascii "LITH Secure HTTP Engine (" ++ lithVersion ++ ascii ") ready on port " ++
      decimal config.port⟩,
    ⟨.info, ascii "LITH core engine event loop started. Waiting for safe incoming connections..."⟩,
    ⟨.error, ascii "Critical: Failed to initialize network socket layer"⟩,
    ⟨.info, ascii "Initiating LITH orderly shutdown sequence..."⟩,
    ⟨.info, ascii "LITH server engine stopped successfully. Goodbye."⟩]

/-- A line of a request that the parser accepted, or one of the others, in a process
with this configuration file and the configuration that `main` makes of it. -/
inductive Logged (file : Option Bytes) (config : ServerConfig) : LogEntry → Prop where
  | routed {buffer : Bytes} {req : HttpRequest}
      (hparse : parseHttpRequest buffer = some req) {files : Files} {cache : LithCache}
      {entry : LogEntry} (hentry : entry ∈ handleHttpRouteLog config.useCache
        config.publicDir files cache req) : Logged file config entry
  | added {filepath : Bytes} (hfile : filepath ∈ initialFiles config.publicDir.text)
      {cache : LithCache} {io : FileAccess} {entry : LogEntry}
      (hentry : entry ∈ lithCacheAddLog cache filepath io) : Logged file config entry
  | loaded : Logged file config (loadConfigLog file)
  | other {entry : LogEntry} (hentry : entry ∈ startLogs config ++ serverLogs config) :
      Logged file config entry

/-- What `lith_log` writes on the standard output, by any threads. -/
def logSystem (Thread : Type*) [DecidableEq Thread] (file : Option Bytes)
    (config : ServerConfig) : TransitionSystem (WriterState Thread LogCall UInt8) Thread :=
  writerSystem LogCall.pieces fun call => Logged file config call.entry

/-! ## The paths of requests -/

theorem isspace_of_mem_copyPath {room : ℕ} {text : Bytes} {c : UInt8}
    (hc : c ∈ copyPath room text) : isspace c = false := by
  induction room generalizing text with
  | zero => simp [copyPath] at hc
  | succ room ih =>
      cases text with
      | nil => simp [copyPath] at hc
      | cons d rest =>
          simp only [copyPath] at hc
          split_ifs at hc with hspace
          · simp at hc
          · rcases List.mem_cons.mp hc with rfl | hc
            · simpa using hspace
            · exact ih hc

theorem lineFeed_notMem_path {buffer : Bytes} {req : HttpRequest}
    (hparse : parseHttpRequest buffer = some req) : 10 ∉ req.path.text := by
  intro hmem
  have hspace : isspace 10 = false := by
    rcases parseHttpRequest_eq_some hparse with ⟨-, rfl⟩ | ⟨-, rfl⟩ <;>
      exact isspace_of_mem_copyPath hmem
  exact absurd hspace (by decide)

/-! ## The texts of the configuration -/

/-- A line feed at the end is trimmed away. -/
theorem lineFeed_notMem_trim {text : Bytes} (hlast : 10 ∉ text.dropLast) :
    10 ∉ trim text := by
  unfold trim
  intro hmem
  have hkept : 10 ∉ (text.dropWhile isspace).dropLast := fun hc =>
    hlast (dropLast_subset_of_isInfix (List.dropWhile_suffix _).isInfix hc)
  induction hrest : text.dropWhile isspace using List.reverseRecOn with
  | nil => simp [hrest] at hmem
  | append_singleton front c _ =>
      rw [hrest, List.dropLast_concat] at hkept
      rw [hrest] at hmem
      by_cases hc : isspace c = true
      · rw [List.rdropWhile_concat_pos _ _ _ hc] at hmem
        exact hkept ((List.rdropWhile_prefix _ _).subset hmem)
      · rw [List.rdropWhile_concat_neg _ _ _ hc] at hmem
        rcases List.mem_append.mp hmem with hmem | hmem
        · exact hkept hmem
        · rw [← List.mem_singleton.mp hmem] at hc
          exact hc (by decide)

theorem lineFeed_notMem_assignment {text value : Bytes} {setting : Setting}
    (hmem : (setting, value) ∈ assignments text) : 10 ∉ value := by
  obtain ⟨window, hwindow, delimiter, -, rfl⟩ := exists_window_of_mem_assignments hmem
  have hlast := lineFeed_notMem_dropLast (by simp) hwindow
  apply lineFeed_notMem_trim
  intro hc
  have hpart : (cstr window).drop (delimiter + 1) <:+: window :=
    (List.drop_suffix _ _).isInfix.trans (List.takeWhile_prefix _).isInfix
  exact hlast (dropLast_subset_of_isInfix hpart hc)

/-- No text of the configuration holds a line feed. -/
structure ServerConfig.Unbroken (config : ServerConfig) : Prop where
  publicDir : 10 ∉ config.publicDir.text
  sslCertPath : 10 ∉ config.sslCertPath.text
  sslKeyPath : 10 ∉ config.sslKeyPath.text

theorem lineFeed_notMem_strncpy (room : ℕ) {source : Bytes} (hsource : 10 ∉ source) :
    10 ∉ (strncpy room source).text := fun hmem =>
  hsource ((List.takeWhile_prefix _).subset (List.mem_of_mem_take hmem))

theorem ServerConfig.Unbroken.set {config : ServerConfig} (hconfig : config.Unbroken)
    (setting : Setting) {value : Bytes} (hvalue : 10 ∉ value) :
    (config.set setting value).Unbroken := by
  obtain ⟨hdir, hcert, hkey⟩ := hconfig
  have hcopy := lineFeed_notMem_strncpy 255 hvalue
  cases setting with
  | port => exact ⟨hdir, hcert, hkey⟩
  | useCache => exact ⟨hdir, hcert, hkey⟩
  | publicDir => exact ⟨hcopy, hcert, hkey⟩
  | sslCertPath => exact ⟨hdir, hcopy, hkey⟩
  | sslKeyPath => exact ⟨hdir, hcert, hcopy⟩

theorem ServerConfig.Unbroken.foldl {config : ServerConfig} (hconfig : config.Unbroken)
    {pairs : List (Setting × Bytes)} (hpairs : ∀ pair ∈ pairs, 10 ∉ pair.2) :
    (pairs.foldl (fun config pair => config.set pair.1 pair.2) config).Unbroken := by
  induction pairs generalizing config with
  | nil => exact hconfig
  | cons pair pairs ih =>
      refine ih (hconfig.set pair.1 (hpairs pair (by simp))) ?_
      exact fun other hother => hpairs other (List.mem_cons_of_mem pair hother)

theorem unbroken_configOf (file : Option Bytes) : (configOf file).Unbroken := by
  cases file with
  | none => exact ⟨by decide, by decide, by decide⟩
  | some text =>
      unfold configOf
      rw [loadConfig_some]
      refine ServerConfig.Unbroken.foldl ⟨by decide, by decide, by decide⟩ ?_
      exact fun pair hpair => lineFeed_notMem_assignment hpair

theorem unbroken_startProcess (file : Option Bytes) (args : List Bytes)
    {cwd : Directory} (hcwd : 10 ∉ cwd.path.text) :
    (startProcess file args cwd).config.Unbroken := by
  obtain ⟨hdir, hcert, hkey⟩ := unbroken_configOf file
  have habsolute :
      10 ∉ (strncpy 255 (absolutePublic cwd (configOf file).publicDir)).text := by
    refine lineFeed_notMem_strncpy 255 ?_
    intro hmem
    have hmem := List.mem_of_mem_take hmem
    rw [List.mem_append, List.mem_cons] at hmem
    rcases hmem with hmem | hmem | hmem
    · exact hcwd hmem
    · exact absurd hmem (by decide)
    · exact hdir hmem
  unfold startProcess mainStart lithDaemonize ServerConfig.withAbsolutePublic
    ServerConfig.overridePort
  split_ifs
  all_goals first
    | exact ⟨habsolute, hcert, hkey⟩
    | exact ⟨hdir, hcert, hkey⟩

/-! ## No line feed in a message -/

variable {config : ServerConfig}

theorem lineFeed_notMem_append {left right : Bytes} (hleft : 10 ∉ left)
    (hright : 10 ∉ right) : 10 ∉ left ++ right := by
  rw [List.mem_append, not_or]
  exact ⟨hleft, hright⟩

theorem lineFeed_notMem_decimal (value : ℤ) : 10 ∉ decimal value :=
  notMem_decimal (by decide) (by decide) value

theorem lineFeed_notMem_refreshLog {files : Files} {path : Bytes} {entry : CacheEntry}
    (hkey : 10 ∉ entry.filepath.text) :
    ∀ log ∈ refreshLog files path entry, 10 ∉ log.message := by
  intro log hlog
  unfold refreshLog at hlog
  split at hlog
  · dsimp only at hlog
    split_ifs at hlog
    · rw [List.mem_singleton.mp hlog]
      refine lineFeed_notMem_append (lineFeed_notMem_append (lineFeed_notMem_append
        (lineFeed_notMem_append (by decide) hkey) (by decide))
        (lineFeed_notMem_decimal _)) (by decide)
    all_goals simp at hlog
  · simp at hlog

theorem lineFeed_notMem_filePath (hconfig : config.Unbroken) {path : Bytes}
    (hpath : 10 ∉ path) : 10 ∉ filePath config.publicDir path := by
  rw [filePath_eq]
  refine lineFeed_notMem_append hconfig.publicDir ?_
  split_ifs
  · decide
  · exact hpath

theorem lineFeed_notMem_serveFileLog {useCache : ℤ} {files : Files} {cache : LithCache}
    {req : HttpRequest} {path : Bytes} (hreq : 10 ∉ req.path.text) (hpath : 10 ∉ path) :
    ∀ log ∈ serveFileLog useCache files cache req path, 10 ∉ log.message := by
  intro log hlog
  unfold serveFileLog at hlog
  split at hlog
  · rename_i idx hhit
    have hlookup : lithCacheLookup cache path = some idx := by
      split_ifs at hhit
      exact hhit
    have hkey : 10 ∉ (cache.entries idx).filepath.text := by
      rw [(lithCacheLookup_eq_some hlookup).2.2]
      exact hpath
    rcases List.mem_append.mp hlog with hlog | hlog
    · exact lineFeed_notMem_refreshLog hkey log hlog
    · rw [List.mem_singleton.mp hlog]
      exact lineFeed_notMem_append (by decide) hreq
  · split at hlog
    · rw [List.mem_singleton.mp hlog]
      exact lineFeed_notMem_append (by decide) hreq
    · rw [List.mem_singleton.mp hlog]
      exact lineFeed_notMem_append (by decide) hpath

theorem lineFeed_notMem_handleHttpRouteLog (hconfig : config.Unbroken) {buffer : Bytes}
    {req : HttpRequest} (hparse : parseHttpRequest buffer = some req) {files : Files}
    {cache : LithCache} : ∀ log ∈ handleHttpRouteLog config.useCache config.publicDir
      files cache req, 10 ∉ log.message := by
  have hpath := lineFeed_notMem_path hparse
  intro log hlog
  unfold handleHttpRouteLog at hlog
  cases hmethod : req.method with
  | post =>
      rw [hmethod] at hlog
      rw [List.mem_singleton.mp hlog]
      exact lineFeed_notMem_append (lineFeed_notMem_append (by decide)
        (lineFeed_notMem_decimal _)) (by decide)
  | get =>
      rw [hmethod] at hlog
      dsimp only at hlog
      split_ifs at hlog
      · exact lineFeed_notMem_serveFileLog hpath
          (lineFeed_notMem_filePath hconfig hpath) log hlog
      · rw [List.mem_singleton.mp hlog]
        exact lineFeed_notMem_append (by decide) hpath
  | unknown =>
      rw [hmethod] at hlog
      simp at hlog

theorem lineFeed_notMem_loadConfigLog (file : Option Bytes) :
    10 ∉ (loadConfigLog file).message := by
  have hconfig := unbroken_configOf file
  cases file with
  | none => decide
  | some text =>
      refine lineFeed_notMem_append (lineFeed_notMem_append (lineFeed_notMem_append
        (lineFeed_notMem_append (lineFeed_notMem_append (by decide)
          (lineFeed_notMem_decimal _)) (by decide)) hconfig.publicDir) (by decide)) ?_
      split_ifs <;> decide

theorem lineFeed_notMem_initialFiles {publicDir filepath : Bytes} (hdir : 10 ∉ publicDir)
    (hfile : filepath ∈ initialFiles publicDir) : 10 ∉ filepath := by
  have hcut {name : Bytes} (hname : 10 ∉ name) : 10 ∉ snprintf 512 (publicDir ++ name) :=
    fun hmem => lineFeed_notMem_append hdir hname (List.mem_of_mem_take hmem)
  rcases List.mem_pair.mp hfile with rfl | rfl
  · exact hcut (by decide)
  · exact hcut (by decide)

theorem lineFeed_notMem_lithCacheAddLog {cache : LithCache} {filepath : Bytes}
    (hfile : 10 ∉ filepath) {io : FileAccess} :
    ∀ log ∈ lithCacheAddLog cache filepath io, 10 ∉ log.message := by
  intro log hlog
  unfold lithCacheAddLog at hlog
  split at hlog
  · split at hlog
    · simp at hlog
    · split_ifs at hlog
      · rw [List.mem_singleton.mp hlog]
        exact lineFeed_notMem_append (lineFeed_notMem_append (by decide) hfile) (by decide)
      · rw [List.mem_singleton.mp hlog]
        exact lineFeed_notMem_append (lineFeed_notMem_append (lineFeed_notMem_append
          (lineFeed_notMem_append (by decide) hfile) (by decide))
          (lineFeed_notMem_decimal _)) (by decide)
      · simp at hlog
  · simp at hlog

theorem lineFeed_notMem_startLogs (config : ServerConfig) :
    ∀ log ∈ startLogs config, 10 ∉ log.message := by
  have hport := lineFeed_notMem_decimal config.port
  simp only [startLogs, List.forall_mem_cons, List.mem_append, not_or]
  refine ⟨by decide, ⟨by decide, hport⟩, by decide, by decide, by decide, by decide,
    by decide, by decide, by decide, by decide, by decide, by simp⟩

theorem lineFeed_notMem_serverLogs (hconfig : config.Unbroken) :
    ∀ log ∈ serverLogs config, 10 ∉ log.message := by
  have hcert : 10 ∉ certPath config := by
    unfold certPath
    split_ifs
    · exact hconfig.sslCertPath
    · decide
  have hkey : 10 ∉ keyPath config := by
    unfold keyPath
    split_ifs
    · exact hconfig.sslKeyPath
    · decide
  have hport := lineFeed_notMem_decimal config.port
  simp only [serverLogs, List.forall_mem_cons, List.mem_append, not_or]
  refine ⟨by decide, by decide, by decide, by decide, by decide, by decide, by decide,
    by decide, by decide, ⟨⟨by decide, hport⟩, by decide⟩, by decide, by decide,
    ⟨⟨by decide, hcert⟩, by decide⟩, ⟨⟨by decide, hkey⟩, by decide⟩, by decide, by decide,
    by decide, ⟨⟨⟨by decide, by decide⟩, by decide⟩, hport⟩, by decide, by decide,
    by decide, by decide, by simp⟩

theorem Logged.lineFeed_notMem {file : Option Bytes} (hconfig : config.Unbroken)
    {entry : LogEntry} (hlogged : Logged file config entry) : 10 ∉ entry.message := by
  cases hlogged with
  | routed hparse hentry =>
      exact lineFeed_notMem_handleHttpRouteLog hconfig hparse entry hentry
  | added hfile hentry =>
      have hpath := lineFeed_notMem_initialFiles hconfig.publicDir hfile
      exact lineFeed_notMem_lithCacheAddLog hpath entry hentry
  | loaded => exact lineFeed_notMem_loadConfigLog file
  | other hentry =>
      rcases List.mem_append.mp hentry with hentry | hentry
      · exact lineFeed_notMem_startLogs config entry hentry
      · exact lineFeed_notMem_serverLogs hconfig entry hentry

theorem lineFeed_notMem_twoDigits (n : ℕ) : 10 ∉ twoDigits n := by
  unfold twoDigits
  split_ifs
  · rw [List.mem_cons, not_or]
    exact ⟨by decide, lineFeed_notMem_decimal n⟩
  · exact lineFeed_notMem_decimal n

theorem lineFeed_notMem_front (call : LogCall) : 10 ∉ call.front := by
  have hcolor : 10 ∉ call.entry.level.color ∧ 10 ∉ call.entry.level.word := by
    cases call.entry.level <;> decide
  have htime : 10 ∉ call.time.text := by
    simp only [ClockTime.text, List.mem_append, List.mem_cons, not_or]
    exact ⟨⟨lineFeed_notMem_twoDigits _, by decide, lineFeed_notMem_twoDigits _⟩,
      by decide, lineFeed_notMem_twoDigits _⟩
  simp only [LogCall.front, List.mem_append, not_or]
  exact ⟨⟨⟨⟨⟨⟨⟨⟨by decide, htime⟩, by decide⟩, hcolor.1⟩, by decide⟩, hcolor.2⟩,
    by decide⟩, by decide⟩, by decide⟩

theorem endsWith_pieces {call : LogCall} (hmessage : 10 ∉ call.entry.message) :
    EndsWith 10 call.pieces := by
  refine ⟨[call.front, call.entry.message], [10], rfl, ?_, by decide⟩
  intro piece hpiece
  rcases List.mem_pair.mp hpiece with rfl | rfl
  · exact lineFeed_notMem_front call
  · exact hmessage

/-! ## What the log says of a route -/

/-- The last line of a route, by the status that was answered. -/
def LogEntry.Tells (entry : LogEntry) (req : HttpRequest) (file : Bytes)
    (status : ℕ) : Prop :=
  (status = 200 ∧ (entry = postLog req ∨ entry = cacheHitLog req.path.text ∨
      entry = diskLog req.path.text)) ∨
    (status = 403 ∧ entry = forbiddenLog req.path.text) ∨
    status = 404 ∧ entry = notFoundLog file

theorem serveFileLog_tells (useCache : ℤ) (files : Files) (cache : LithCache)
    (req : HttpRequest) (path : Bytes) :
    ∃ before last, serveFileLog useCache files cache req path = before ++ [last] ∧
      last.Tells req path (serveFile useCache files cache req path).1.status := by
  unfold serveFileLog serveFile
  cases if useCache = 1 then lithCacheLookup cache path else none with
  | some idx => exact ⟨_, _, rfl, Or.inl ⟨rfl, Or.inr (Or.inl rfl)⟩⟩
  | none =>
      unfold diskResponse
      cases readFile (files path) with
      | some read => exact ⟨[], _, rfl, Or.inl ⟨rfl, Or.inr (Or.inr rfl)⟩⟩
      | none => exact ⟨[], _, rfl, Or.inr (Or.inr ⟨rfl, rfl⟩)⟩

theorem handleHttpRouteLog_tells {useCache : ℤ} {publicDir : CharArray 256}
    {files : Files} {cache : LithCache} {req : HttpRequest} {response : HttpResponse}
    (hresponse : (handleHttpRoute useCache publicDir files cache req).1 =
      some response) :
    ∃ before last, handleHttpRouteLog useCache publicDir files cache req =
        before ++ [last] ∧
      last.Tells req (filePath publicDir req.path.text) response.status := by
  unfold handleHttpRoute at hresponse
  unfold handleHttpRouteLog
  cases hmethod : req.method with
  | unknown =>
      rw [hmethod] at hresponse
      simp at hresponse
  | post =>
      rw [hmethod] at hresponse
      obtain rfl := Option.some.inj hresponse
      exact ⟨[], _, rfl, Or.inl ⟨rfl, Or.inl rfl⟩⟩
  | get =>
      rw [hmethod] at hresponse
      dsimp only at hresponse ⊢
      split_ifs at hresponse ⊢ with hsafe
      · obtain rfl := Option.some.inj hresponse
        exact serveFileLog_tells useCache files cache req _
      · obtain rfl := Option.some.inj hresponse
        exact ⟨[], _, rfl, Or.inr (Or.inl ⟨rfl, rfl⟩)⟩

/-! ## The standard output -/

/-- Whatever clients ask for and however the threads interleave: what a thread has
written is its own lines in order, the standard output holds one line feed for each
call that is over, and only the last byte of a line is one. -/
theorem log_lines_counted {Thread : Type*} [DecidableEq Thread] [Fintype Thread]
    (file : Option Bytes) (args : List Bytes) {cwd : Directory}
    (hcwd : 10 ∉ cwd.path.text) {state : WriterState Thread LogCall UInt8}
    (hreach : (logSystem Thread file (startProcess file args cwd).config).Reachable state) :
    (∀ thread, state.written thread ++ (state.pending thread).flatten =
        (state.callsOf thread).flatMap fun call =>
          call.front ++ call.entry.message ++ [10]) ∧
      state.stream.count 10 + state.busy = state.calls.length ∧
      ∀ call ∈ state.calls, 10 ∉ call.2.front ++ call.2.entry.message := by
  have hconfig := unbroken_startProcess file args hcwd
  refine ⟨?_, ?_, ?_⟩
  · intro thread
    have hwritten := written_append_pending hreach thread
    simpa only [LogCall.pieces, List.flatten_cons, List.flatten_nil, List.append_nil,
      List.append_assoc] using hwritten
  · exact count_stream_add_busy
      (fun call hlogged => endsWith_pieces (hlogged.lineFeed_notMem hconfig)) hreach
  · intro call hcall
    have hlogged := allowed_of_reachable hreach call hcall
    exact lineFeed_notMem_append (lineFeed_notMem_front _)
      (hlogged.lineFeed_notMem hconfig)

def postOfFive : Bytes := ascii "POST / HTTP/1.1\r\nContent-Length: 5\r\n\r\n"

def noon : ClockTime := ⟨12, 0, 0⟩

def sniffedCall : LogCall :=
  ⟨noon, .warn, ascii "Network: Empty or premature request dropped."⟩

def postedCall : LogCall := ⟨noon, postLog (parseFields postOfFive .post 5)⟩

/-- Two workers log, one is through and the other has written the front of its line. -/
def mixedLog : WriterState Bool LogCall UInt8 :=
  ((((WriterState.initial.enter true sniffedCall sniffedCall.pieces).enter false
    postedCall postedCall.pieces).emit true sniffedCall.front
      [sniffedCall.entry.message, [10]]).emit false postedCall.front
        [postedCall.entry.message, [10]]).emit true sniffedCall.entry.message [[10]]
          |>.emit true [10] []

theorem mixedLog_reachable :
    (logSystem Bool none (startProcess none [] srv).config).Reachable mixedLog := by
  have hsniffed : Logged none (startProcess none [] srv).config sniffedCall.entry :=
    .other (by simp [serverLogs, sniffedCall])
  have hparse : parseHttpRequest postOfFive = some (parseFields postOfFive .post 5) := by
    decide
  have hposted : Logged none (startProcess none [] srv).config postedCall.entry := by
    have hentry : postedCall.entry ∈ handleHttpRouteLog 1
        (configOf none).publicDir (fun _ => FileAccess.absent) LithCache.zero
          (parseFields postOfFive .post 5) := List.mem_singleton.mpr rfl
    exact .routed hparse hentry
  refine .next (.next (.next (.next (.next (.next (.start rfl) true
    (.enter rfl hsniffed)) false (.enter ?_ hposted)) true (.emit ?_)) false (.emit ?_))
      true (.emit ?_)) true (.emit ?_)
  all_goals rfl

theorem log_lines_counted_mixedLog :
    mixedLog.stream.count 10 = 1 ∧ mixedLog.busy = 1 ∧
      mixedLog.stream.count 10 + mixedLog.busy = mixedLog.calls.length := by
  have hcounted := (log_lines_counted none [] (by decide) mixedLog_reachable).2.1
  have hbusy : mixedLog.busy = 1 := by decide
  have hcalls : mixedLog.calls.length = 2 := rfl
  exact ⟨by omega, hbusy, hcounted⟩

end Lith
