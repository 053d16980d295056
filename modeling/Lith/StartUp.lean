import Lith.Config
import Lith.PathConfinement
import Lith.RelativePath

/-!
# Starting in the foreground and as a daemon

`main` remembers the working directory, loads the configuration and, when it is
to run as a daemon, writes the directory in front of a relative `public_dir`
before `lith_daemonize` changes to the root.  The paths of the certificate and
of the key are left as they are.  Both ways of starting then use the same
places exactly if the joined path fits into its array and the other two paths
do not depend on the working directory.
-/

namespace Lith

open CString LexicalPath

/-- A directory as `getcwd` returns it. -/
structure Directory where
  path : CharArray 512
  rooted : posixPaths.isRooted path.text = true

def Directory.root : Directory where
  path := ⟨ascii "/", by decide, nulFree_slash⟩
  rooted := by decide

structure Process where
  cwd : Directory
  config : ServerConfig

/-- `%s/%s` in the array `absolute_public`. -/
def absolutePublic (cwd : Directory) (publicDir : CharArray 256) : Bytes :=
  snprintf 512 (cwd.path.text ++ 47 :: publicDir.text)

def ServerConfig.withAbsolutePublic (config : ServerConfig) (cwd : Directory) :
    ServerConfig :=
  if config.publicDir.text.head? ≠ some 47 then
    { config with
      publicDir := strncpy 255 (absolutePublic cwd config.publicDir) }
  else config

/-- `lith_daemonize`, when none of its system calls fails. -/
def lithDaemonize (process : Process) : Process :=
  { process with cwd := Directory.root }

/-- `main` up to `lith_ssl_init`. -/
def mainStart (useDaemon : Bool) (cwd : Directory) (config : ServerConfig) :
    Process :=
  if useDaemon then lithDaemonize ⟨cwd, config.withAbsolutePublic cwd⟩
  else ⟨cwd, config⟩

def certPath (config : ServerConfig) : Bytes :=
  if 0 < config.sslCertPath.text.length then config.sslCertPath.text
  else ascii "certs/server.crt"

def keyPath (config : ServerConfig) : Bytes :=
  if 0 < config.sslKeyPath.text.length then config.sslKeyPath.text
  else ascii "certs/server.key"

/-- The place that a path names for a process with this working directory. -/
def Directory.locate (cwd : Directory) (path : Bytes) : Location UInt8 :=
  posixPaths.normalise
    (if posixPaths.isRooted path then path else cwd.path.text ++ 47 :: path)

structure Places where
  publicDir : Location UInt8
  cert : Location UInt8
  key : Location UInt8
  deriving DecidableEq

/-- The places that `lith_ssl_init` and `thread_pool_init` use.  The public
directory is only used with a slash behind it. -/
def Process.places (process : Process) : Places where
  publicDir := process.cwd.locate (process.config.publicDir.text ++ [47])
  cert := process.cwd.locate (certPath process.config)
  key := process.cwd.locate (keyPath process.config)

/-! ## Paths that do not depend on the directory -/

def Directory.depth (cwd : Directory) : ℕ :=
  (posixPaths.normalise cwd.path.text).names.length

/-- The path is absolute, or climbs to the root from the directory. -/
def Directory.Reaches (cwd : Directory) (path : Bytes) : Prop :=
  posixPaths.isRooted path = true ∨
    cwd.depth ≤ posixPaths.ascent (posixPaths.names path)

theorem Directory.locate_of_rooted (cwd : Directory) {path : Bytes}
    (hpath : posixPaths.isRooted path = true) :
    cwd.locate path = posixPaths.normalise path := by
  unfold locate
  rw [if_pos hpath]

theorem Directory.locate_of_relative (cwd : Directory) {path : Bytes}
    (hpath : posixPaths.isRooted path = false) :
    cwd.locate path = ⟨true, posixPaths.walkAll true
      (posixPaths.normalise cwd.path.text).names (posixPaths.names path)⟩ := by
  unfold locate
  rw [if_neg (by simp [hpath])]
  exact posixPaths.normalise_append_sep cwd.rooted path

theorem Directory.locate_root_eq_iff (cwd : Directory) (path : Bytes) :
    Directory.root.locate path = cwd.locate path ↔ cwd.Reaches path := by
  unfold Reaches
  cases hpath : posixPaths.isRooted path with
  | true =>
      rw [locate_of_rooted _ hpath, locate_of_rooted _ hpath]
      simp
  | false =>
      have hroot : (posixPaths.normalise Directory.root.path.text).names = [] := by
        decide
      have hwalk := posixPaths.walkAll_eq_root_iff
        (posixPaths.up_notMem_normalise cwd.rooted) (posixPaths.names path)
      rw [locate_of_relative _ hpath, locate_of_relative _ hpath, hroot,
        Location.mk.injEq, eq_comm (a := posixPaths.walkAll true [] _), hwalk]
      simp [depth]

/-! ## The public directory -/

/-- The joined path fits into the array and says what the relative one says,
or happens to name the same place after being cut. -/
def Directory.Joins (cwd : Directory) (publicDir : Bytes) : Prop :=
  posixPaths.isRooted publicDir = true ∨
    if (cwd.path.text ++ 47 :: publicDir).length ≤ 255 then
      publicDir ≠ [] ∨ cwd.depth = 0
    else
      posixPaths.normalise ((cwd.path.text ++ 47 :: publicDir).take 255) =
        cwd.locate (publicDir ++ [47])

theorem strncpy_absolutePublic (cwd : Directory) (publicDir : CharArray 256) :
    (strncpy 255 (absolutePublic cwd publicDir)).text =
      (cwd.path.text ++ 47 :: publicDir.text).take 255 := by
  have hnul : 0 ∉ absolutePublic cwd publicDir := by
    intro hmem
    have hmem := List.mem_of_mem_take hmem
    rw [List.mem_append, List.mem_cons] at hmem
    rcases hmem with hmem | hmem | hmem
    · exact cwd.path.nulFree hmem
    · simp at hmem
    · exact publicDir.nulFree hmem
  change (cstr (absolutePublic cwd publicDir)).take 255 = _
  rw [cstr_eq_self hnul]
  unfold absolutePublic snprintf
  rw [List.take_take]
  rfl

theorem isRooted_take {path : Bytes} (hpath : posixPaths.isRooted path = true)
    (n : ℕ) : posixPaths.isRooted (path.take (n + 1)) = true := by
  cases path with
  | nil => simp [Alphabet.isRooted] at hpath
  | cons c rest => simpa [Alphabet.isRooted] using hpath

theorem Directory.isRooted_join (cwd : Directory) (rest : Bytes) :
    posixPaths.isRooted (cwd.path.text ++ rest) = true := by
  have hne : cwd.path.text ≠ [] := by
    intro hnil
    have hrooted := cwd.rooted
    rw [hnil] at hrooted
    simp [Alphabet.isRooted] at hrooted
  rw [posixPaths.isRooted_append hne]
  exact cwd.rooted

theorem isRooted_append_slash {path : Bytes} (hpath : path ≠ []) :
    posixPaths.isRooted (path ++ [47]) = posixPaths.isRooted path :=
  posixPaths.isRooted_append hpath [47]

theorem normalise_append_slash {path : Bytes}
    (hpath : posixPaths.isRooted path = true) :
    posixPaths.normalise (path ++ [47]) = posixPaths.normalise path :=
  posixPaths.normalise_append_sep_nil hpath

/-- In the foreground an empty public directory is the root. -/
theorem Directory.locate_publicDir (cwd : Directory) {publicDir : Bytes}
    (hrelative : posixPaths.isRooted publicDir = false) :
    cwd.locate (publicDir ++ [47]) =
      if publicDir = [] then ⟨true, []⟩
      else posixPaths.normalise (cwd.path.text ++ 47 :: publicDir) := by
  split_ifs with hempty
  · subst hempty
    rw [locate_of_rooted cwd (by decide)]
    decide
  · have hslash := isRooted_append_slash hempty
    unfold locate
    rw [if_neg (by simp [hslash, hrelative]), ← normalise_append_slash
      (cwd.isRooted_join (47 :: publicDir)), List.append_assoc, List.cons_append]

theorem locate_public_eq_iff (cwd : Directory) (config : ServerConfig) :
    Directory.root.locate
        ((config.withAbsolutePublic cwd).publicDir.text ++ [47]) =
      cwd.locate (config.publicDir.text ++ [47]) ↔
        cwd.Joins config.publicDir.text := by
  cases hroot : posixPaths.isRooted config.publicDir.text with
  | true =>
      have hhead : config.publicDir.text.head? = some 47 := of_decide_eq_true hroot
      have hne : config.publicDir.text ≠ [] := by
        intro hnil
        simp [hnil] at hhead
      have hslash := (isRooted_append_slash hne).trans hroot
      unfold ServerConfig.withAbsolutePublic Directory.Joins
      rw [if_neg (not_not.mpr hhead), Directory.locate_of_rooted _ hslash,
        Directory.locate_of_rooted _ hslash]
      simp [hroot]
  | false =>
      have hhead : config.publicDir.text.head? ≠ some 47 := of_decide_eq_false hroot
      have htake := isRooted_take (cwd.isRooted_join (47 :: config.publicDir.text)) 254
      have hne : (cwd.path.text ++ 47 :: config.publicDir.text).take 255 ≠ [] := by
        intro hnil
        rw [hnil] at htake
        simp [Alphabet.isRooted] at htake
      have hdaemon : Directory.root.locate
          ((config.withAbsolutePublic cwd).publicDir.text ++ [47]) =
            posixPaths.normalise
              ((cwd.path.text ++ 47 :: config.publicDir.text).take 255) := by
        unfold ServerConfig.withAbsolutePublic
        rw [if_pos hhead]
        change Directory.root.locate ((strncpy 255 _).text ++ [47]) = _
        rw [strncpy_absolutePublic, Directory.locate_of_rooted _
          ((isRooted_append_slash hne).trans htake), normalise_append_slash htake]
      unfold Directory.Joins
      rw [hdaemon, hroot]
      simp only [Bool.false_eq_true, false_or]
      split_ifs with hfits
      · rw [List.take_of_length_le hfits, cwd.locate_publicDir hroot]
        split_ifs with hempty
        · have hjoin := posixPaths.normalise_append_sep_nil cwd.rooted
          have hcwd : posixPaths.isRooted cwd.path.text = true := cwd.rooted
          rw [hempty]
          change posixPaths.normalise (cwd.path.text ++ [posixPaths.sep]) = _ ↔ _
          rw [hjoin]
          simp [Alphabet.normalise, hcwd, Directory.depth]
        · simp [hempty]
      · rfl

theorem certPath_withAbsolutePublic (config : ServerConfig) (cwd : Directory) :
    certPath (config.withAbsolutePublic cwd) = certPath config ∧
      keyPath (config.withAbsolutePublic cwd) = keyPath config := by
  unfold ServerConfig.withAbsolutePublic
  split_ifs <;> exact ⟨rfl, rfl⟩

/-- The daemon uses the places of the foreground server exactly if the public
directory can be joined and the other paths do not depend on the directory. -/
theorem places_daemon_eq_iff (cwd : Directory) (config : ServerConfig) :
    (mainStart true cwd config).places = (mainStart false cwd config).places ↔
      cwd.Joins config.publicDir.text ∧ cwd.Reaches (certPath config) ∧
        cwd.Reaches (keyPath config) := by
  obtain ⟨hcert, hkey⟩ := certPath_withAbsolutePublic config cwd
  have hplaces : (mainStart true cwd config).places =
      { publicDir := Directory.root.locate
          ((config.withAbsolutePublic cwd).publicDir.text ++ [47])
        cert := Directory.root.locate (certPath config)
        key := Directory.root.locate (keyPath config) } := by
    simp only [mainStart, if_true, lithDaemonize, Process.places, hcert, hkey]
  rw [hplaces, ← locate_public_eq_iff, ← cwd.locate_root_eq_iff,
    ← cwd.locate_root_eq_iff]
  simp only [mainStart, Bool.false_eq_true, if_false, Process.places,
    Places.mk.injEq]

def srv : Directory where
  path := ⟨ascii "/srv", by decide, by decide⟩
  rooted := by decide

/-- Without a configuration file, started in `/srv`: the daemon looks for the
certificate and the key below the root. -/
theorem places_daemon_ne :
    (mainStart true srv (configOf none)).places ≠
        (mainStart false srv (configOf none)).places ∧
      (mainStart false srv (configOf none)).places.cert =
        ⟨true, [ascii "srv", ascii "certs", ascii "server.crt"]⟩ ∧
      (mainStart true srv (configOf none)).places.cert =
        ⟨true, [ascii "certs", ascii "server.crt"]⟩ := by
  decide

end Lith
