import Lith.HttpRouter
import Mathlib.Data.List.DropRight

/-!
# The configuration file

`load_config` reads windows of at most 255 bytes with `fgets`, splits each one
at its first `=`, trims both sides and overwrites the named setting.  The
internal defaults are installed on the missing-file branch only, so a setting
that the file leaves out keeps the zero of static storage.
-/

namespace Lith

open CString

structure ServerConfig where
  port : ℤ
  publicDir : CharArray 256
  useCache : ℤ
  sslCertPath : CharArray 256
  sslKeyPath : CharArray 256
  deriving DecidableEq

def ServerConfig.zero : ServerConfig where
  port := 0
  publicDir := CharArray.zero 255
  useCache := 0
  sslCertPath := CharArray.zero 255
  sslKeyPath := CharArray.zero 255

inductive Setting where
  | port
  | publicDir
  | useCache
  | sslCertPath
  | sslKeyPath
  deriving DecidableEq

def Setting.ofKey (key : Bytes) : Option Setting :=
  if key = ascii "port" then some .port
  else if key = ascii "public_dir" then some .publicDir
  else if key = ascii "use_cache" then some .useCache
  else if key = ascii "ssl_cert_path" ∨ key = ascii "ssl_cert_file" then
    some .sslCertPath
  else if key = ascii "ssl_key_path" ∨ key = ascii "ssl_key_file" then
    some .sslKeyPath
  else none

def ServerConfig.set (config : ServerConfig) (setting : Setting)
    (value : Bytes) : ServerConfig :=
  match setting with
  | .port => { config with port := atoi value }
  | .publicDir => { config with publicDir := strncpy 255 value }
  | .useCache => { config with useCache := atoi value }
  | .sslCertPath => { config with sslCertPath := strncpy 255 value }
  | .sslKeyPath => { config with sslKeyPath := strncpy 255 value }

def trim (text : Bytes) : Bytes :=
  (text.dropWhile isspace).rdropWhile isspace

/-- Key and value of a line, unless it is a comment, empty or without `=`. -/
def parseLine (window : Bytes) : Option (Bytes × Bytes) :=
  let line := cstr window
  if line.head? = some 35 ∨ line.head? = some 10 ∨ line.head? = some 13 then
    none
  else
    (strchr 61 line).map fun delimiter =>
      (trim (line.take delimiter), trim (line.drop (delimiter + 1)))

def lineAssignment (window : Bytes) : Option (Setting × Bytes) :=
  (parseLine window).bind fun pair =>
    (Setting.ofKey pair.1).map fun setting => (setting, pair.2)

/-- The windows that successive `fgets` calls return when at most `room` bytes
fit into one. -/
def fgetsFrom (room : ℕ) (line : Bytes) : Bytes → List Bytes
  | [] => if line = [] then [] else [line]
  | c :: rest =>
      if c = 10 ∨ line.length + 1 = room then
        (line ++ [c]) :: fgetsFrom room [] rest
      else fgetsFrom room (line ++ [c]) rest

def fgetsLines (text : Bytes) : List Bytes := fgetsFrom 255 [] text

def ServerConfig.loadLine (config : ServerConfig) (window : Bytes) :
    ServerConfig :=
  match lineAssignment window with
  | some (setting, value) => config.set setting value
  | none => config

/-- `load_config`; the file is `none` when it cannot be opened. -/
def loadConfig (file : Option Bytes) (config : ServerConfig) :
    ℤ × ServerConfig :=
  match file with
  | none =>
      (-1, { port := 8090
             publicDir := strncpy 255 (ascii "public")
             useCache := 1
             sslCertPath := strncpy 255 (ascii "certs/server.crt")
             sslKeyPath := strncpy 255 (ascii "certs/server.key") })
  | some text => (0, (fgetsLines text).foldl ServerConfig.loadLine config)

def configOf (file : Option Bytes) : ServerConfig :=
  (loadConfig file ServerConfig.zero).2

/-! ## The last assignment wins -/

def assignments (text : Bytes) : List (Setting × Bytes) :=
  (fgetsLines text).filterMap lineAssignment

def lastValue (pairs : List (Setting × Bytes)) (setting : Setting) :
    Option Bytes :=
  ((pairs.filter fun pair => pair.1 = setting).getLast?).map Prod.snd

def ServerConfig.SameAt (setting : Setting) (left right : ServerConfig) :
    Prop :=
  match setting with
  | .port => left.port = right.port
  | .publicDir => left.publicDir = right.publicDir
  | .useCache => left.useCache = right.useCache
  | .sslCertPath => left.sslCertPath = right.sslCertPath
  | .sslKeyPath => left.sslKeyPath = right.sslKeyPath

instance (setting : Setting) (left right : ServerConfig) :
    Decidable (ServerConfig.SameAt setting left right) :=
  match setting with
  | .port => inferInstanceAs (Decidable (left.port = right.port))
  | .publicDir => inferInstanceAs (Decidable (left.publicDir = right.publicDir))
  | .useCache => inferInstanceAs (Decidable (left.useCache = right.useCache))
  | .sslCertPath =>
      inferInstanceAs (Decidable (left.sslCertPath = right.sslCertPath))
  | .sslKeyPath =>
      inferInstanceAs (Decidable (left.sslKeyPath = right.sslKeyPath))

theorem ServerConfig.SameAt.trans {setting : Setting}
    {first second third : ServerConfig} (hleft : SameAt setting first second)
    (hright : SameAt setting second third) : SameAt setting first third := by
  cases setting <;> exact Eq.trans hleft hright

theorem ServerConfig.SameAt.symm {setting : Setting}
    {left right : ServerConfig} (hsame : SameAt setting left right) :
    SameAt setting right left := by
  cases setting <;> exact Eq.symm hsame

theorem ServerConfig.sameAt_set (setting : Setting) (left right : ServerConfig)
    (value : Bytes) :
    SameAt setting (left.set setting value) (right.set setting value) := by
  cases setting <;> rfl

theorem ServerConfig.sameAt_set_of_ne {setting other : Setting}
    (hne : other ≠ setting) (config : ServerConfig) (value : Bytes) :
    SameAt setting (config.set other value) config := by
  cases other <;> cases setting <;> first | rfl | exact absurd rfl hne

theorem loadConfig_some (text : Bytes) (config : ServerConfig) :
    loadConfig (some text) config =
      (0, (assignments text).foldl (fun config pair => config.set pair.1 pair.2)
        config) := by
  simp only [loadConfig, assignments, List.foldl_filterMap]
  congr 2
  funext config window
  unfold ServerConfig.loadLine
  cases lineAssignment window <;> rfl

/-- After all assignments a setting is as if only its last one had been made. -/
theorem sameAt_foldl_set (setting : Setting) (pairs : List (Setting × Bytes))
    (config : ServerConfig) :
    ServerConfig.SameAt setting
      (pairs.foldl (fun config pair => config.set pair.1 pair.2) config)
      ((lastValue pairs setting).elim config (config.set setting)) := by
  induction pairs using List.reverseRecOn with
  | nil => cases setting <;> rfl
  | append_singleton pairs pair ih =>
      rw [List.foldl_append]
      by_cases hsetting : pair.1 = setting
      · have hlast : lastValue (pairs ++ [pair]) setting = some pair.2 := by
          simp [lastValue, hsetting]
        rw [hlast, ← hsetting]
        exact ServerConfig.sameAt_set pair.1 _ config pair.2
      · have hlast :
            lastValue (pairs ++ [pair]) setting = lastValue pairs setting := by
          simp [lastValue, hsetting]
        rw [hlast]
        exact (ServerConfig.sameAt_set_of_ne hsetting _ _).trans ih

theorem sameAt_configOf (setting : Setting) (text : Bytes) :
    ServerConfig.SameAt setting (configOf (some text))
      ((lastValue (assignments text) setting).elim ServerConfig.zero
        (ServerConfig.zero.set setting)) := by
  unfold configOf
  rw [loadConfig_some]
  exact sameAt_foldl_set setting _ _

/-! ## Settings that the file leaves out -/

def Assigned (text : Bytes) (setting : Setting) : Prop :=
  ∃ value, (setting, value) ∈ assignments text ∧ value ≠ []

theorem mem_of_lastValue {pairs : List (Setting × Bytes)} {setting : Setting}
    {value : Bytes} (hlast : lastValue pairs setting = some value) :
    (setting, value) ∈ pairs := by
  unfold lastValue at hlast
  rw [Option.map_eq_some_iff] at hlast
  obtain ⟨pair, hpair, rfl⟩ := hlast
  have hmem := List.mem_of_getLast? hpair
  rw [List.mem_filter, decide_eq_true_eq] at hmem
  obtain ⟨hmem, rfl⟩ := hmem
  exact hmem

theorem ServerConfig.sameAt_zero_of_empty (setting : Setting) :
    SameAt setting (ServerConfig.zero.set setting []) ServerConfig.zero := by
  cases setting <;> decide

theorem sameAt_zero_of_not_assigned {text : Bytes} {setting : Setting}
    (hassigned : ¬Assigned text setting) :
    ServerConfig.SameAt setting (configOf (some text)) ServerConfig.zero := by
  have hconfig := sameAt_configOf setting text
  cases hlast : lastValue (assignments text) setting with
  | none => simpa [hlast] using hconfig
  | some value =>
      have hempty : value = [] := by
        by_contra hne
        exact hassigned ⟨value, mem_of_lastValue hlast, hne⟩
      rw [hlast, hempty] at hconfig
      exact hconfig.trans (ServerConfig.sameAt_zero_of_empty setting)

def defaultedSettings : List Setting := [.port, .publicDir, .useCache]

theorem not_sameAt_zero_default {setting : Setting}
    (hsetting : setting ∈ defaultedSettings) :
    ¬ServerConfig.SameAt setting ServerConfig.zero (configOf none) := by
  revert setting
  decide

theorem exists_window_of_mem_assignments {text value : Bytes} {setting : Setting}
    (hmem : (setting, value) ∈ assignments text) :
    ∃ window ∈ fgetsLines text, ∃ delimiter,
      Setting.ofKey (trim ((cstr window).take delimiter)) = some setting ∧
        value = trim ((cstr window).drop (delimiter + 1)) := by
  unfold assignments at hmem
  obtain ⟨window, hwindow, hline⟩ := List.mem_filterMap.mp hmem
  simp only [lineAssignment, parseLine, Option.bind_eq_some_iff,
    Option.map_eq_some_iff] at hline
  obtain ⟨pair, hpair, key, hkey, hvalue⟩ := hline
  split_ifs at hpair
  rw [Option.map_eq_some_iff] at hpair
  obtain ⟨delimiter, -, rfl⟩ := hpair
  rw [Prod.mk.injEq] at hvalue
  refine ⟨window, hwindow, delimiter, ?_, hvalue.2.symm⟩
  rw [hkey, hvalue.1]

theorem trim_isInfix (text : Bytes) : trim text <:+: text :=
  (List.rdropWhile_prefix isspace _).isInfix.trans
    (List.dropWhile_suffix isspace).isInfix

theorem nulFree_of_mem_assignments {text value : Bytes} {setting : Setting}
    (hmem : (setting, value) ∈ assignments text) : 0 ∉ value := by
  obtain ⟨window, -, delimiter, -, rfl⟩ := exists_window_of_mem_assignments hmem
  intro hzero
  apply nulFree_cstr window
  exact List.mem_of_mem_drop ((trim_isInfix _).subset hzero)

theorem publicDir_ne_nil_iff (text : Bytes) :
    (configOf (some text)).publicDir.text ≠ [] ↔
      ∃ value, lastValue (assignments text) .publicDir = some value ∧
        value ≠ [] := by
  have hconfig : (configOf (some text)).publicDir = _ :=
    sameAt_configOf .publicDir text
  rw [hconfig]
  cases hlast : lastValue (assignments text) .publicDir with
  | none => simp [ServerConfig.zero, CharArray.zero]
  | some value =>
      have hfree := nulFree_of_mem_assignments (mem_of_lastValue hlast)
      simp [ServerConfig.set, strncpy, cstr_eq_self hfree]

theorem length_le_of_mem_fgetsFrom {room : ℕ} {line text window : Bytes}
    (hline : line.length < room) (hmem : window ∈ fgetsFrom room line text) :
    window.length ≤ room := by
  induction text generalizing line with
  | nil =>
      unfold fgetsFrom at hmem
      split_ifs at hmem
      · simp at hmem
      · rw [List.mem_singleton] at hmem
        subst hmem
        omega
  | cons c rest ih =>
      unfold fgetsFrom at hmem
      split_ifs at hmem with hfull
      · rw [List.mem_cons] at hmem
        rcases hmem with rfl | hmem
        · simp only [List.length_append, List.length_singleton]
          omega
        · exact ih (by simp only [List.length_nil]; omega) hmem
      · apply ih _ hmem
        simp only [List.length_append, List.length_singleton]
        omega

theorem eq_of_ofKey_publicDir {key : Bytes}
    (hkey : Setting.ofKey key = some .publicDir) : key = ascii "public_dir" := by
  unfold Setting.ofKey at hkey
  split_ifs at hkey with hport hdir
  · simp at hkey
  · exact hdir
  all_goals simp at hkey

/-- A line of the file leaves 244 bytes for the value of `public_dir`. -/
theorem publicDir_length_le (file : Option Bytes) :
    (configOf file).publicDir.text.length ≤ 244 := by
  cases file with
  | none => decide
  | some text =>
      have hconfig : (configOf (some text)).publicDir = _ :=
        sameAt_configOf .publicDir text
      rw [hconfig]
      cases hlast : lastValue (assignments text) .publicDir with
      | none => simp [ServerConfig.zero, CharArray.zero]
      | some value =>
          have hmem := mem_of_lastValue hlast
          have hfree := nulFree_of_mem_assignments hmem
          obtain ⟨window, hwindow, delimiter, hkey, hvalue⟩ :=
            exists_window_of_mem_assignments hmem
          have hwindow := length_le_of_mem_fgetsFrom (by simp) hwindow
          have hcstr : (cstr window).length ≤ window.length :=
            (List.takeWhile_prefix _).length_le
          have hname : 10 ≤ ((cstr window).take delimiter).length := by
            have hle := (trim_isInfix ((cstr window).take delimiter)).length_le
            rwa [eq_of_ofKey_publicDir hkey] at hle
          have hlength := (trim_isInfix ((cstr window).drop (delimiter + 1))).length_le
          rw [← hvalue] at hlength
          simp only [List.length_take, List.length_drop] at hname hlength
          simp only [Option.elim, ServerConfig.set, strncpy, cstr_eq_self hfree,
            List.length_take]
          omega

theorem filePath_eq_target_iff (publicDir : CharArray 256) (path : Bytes) :
    (filePath publicDir path = if path = rootTarget then indexTarget else path) ↔
      publicDir.text = [] := by
  rw [filePath_eq]
  exact List.append_left_eq_self

/-- What the file leaves out is as without a file, and `public_dir` is never
empty, so that no request path is taken for an absolute path of the machine. -/
structure KeepsDefaults (text : Bytes) : Prop where
  defaults : ∀ setting ∈ defaultedSettings, ¬Assigned text setting →
    ServerConfig.SameAt setting (configOf (some text)) (configOf none)
  publicDir : (configOf (some text)).publicDir.text ≠ []
  rooted : ∀ path, filePath (configOf (some text)).publicDir path ≠
    if path = rootTarget then indexTarget else path

theorem keepsDefaults_iff (text : Bytes) :
    KeepsDefaults text ↔
      (∀ setting ∈ defaultedSettings, Assigned text setting) ∧
        ∃ value, lastValue (assignments text) .publicDir = some value ∧
          value ≠ [] := by
  constructor
  · intro hkeeps
    refine ⟨?_, (publicDir_ne_nil_iff text).mp hkeeps.publicDir⟩
    intro setting hsetting
    by_contra hassigned
    apply not_sameAt_zero_default hsetting
    have hzero := sameAt_zero_of_not_assigned hassigned
    exact hzero.symm.trans (hkeeps.defaults setting hsetting hassigned)
  · rintro ⟨hassigned, hlast⟩
    have hdir := (publicDir_ne_nil_iff text).mpr hlast
    refine ⟨?_, hdir, ?_⟩
    · intro setting hsetting hnot
      exact absurd (hassigned setting hsetting) hnot
    · intro path htarget
      exact hdir ((filePath_eq_target_iff _ path).mp htarget)

/-- The sample file of the manual writes its keys in capitals and is read as
if it were empty. -/
theorem not_keepsDefaults_capitals :
    ¬KeepsDefaults
      (ascii "PORT=8001\nPUBLIC_DIR=views\nUSE_CACHE=0\n") := by
  intro hkeeps
  have hdir := hkeeps.publicDir
  revert hdir
  decide

end Lith
