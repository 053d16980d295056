import Lith.ConfigLines

/-!
# What a configuration file can say

The configurations that come out of `load_config`: numbers of an `int`, and texts of
one line without blanks at either end, that fit behind the shortest name of their
setting into what `fgets` reads.  There are no others that a file could ask for, and
each of them is written down in five lines that `load_config` reads back, whatever
was configured before.
-/

namespace Lith

open CString

/-- A value that a line gives behind a name that leaves this room. -/
structure FitsLine (room : ℕ) (value : Bytes) : Prop where
  nulFree : 0 ∉ value
  oneLine : 10 ∉ value
  trimmed : trim value = value
  short : value.length ≤ room

def IsInt (number : ℤ) : Prop := -2 ^ 31 ≤ number ∧ number ≤ 2 ^ 31 - 1

instance (number : ℤ) : Decidable (IsInt number) :=
  inferInstanceAs (Decidable (_ ∧ _))

structure ServerConfig.Loadable (config : ServerConfig) : Prop where
  port : IsInt config.port
  publicDir : FitsLine 244 config.publicDir.text
  useCache : IsInt config.useCache
  sslCertPath : FitsLine 241 config.sslCertPath.text
  sslKeyPath : FitsLine 242 config.sslKeyPath.text

def settingLine (name value : Bytes) : Bytes := name ++ 61 :: (value ++ [10])

/-- The file that assigns every setting once. -/
def ServerConfig.toFile (config : ServerConfig) : Bytes :=
  settingLine (ascii "port") (decimal config.port) ++
    (settingLine (ascii "public_dir") config.publicDir.text ++
      (settingLine (ascii "use_cache") (decimal config.useCache) ++
        (settingLine (ascii "ssl_cert_path") config.sslCertPath.text ++
          settingLine (ascii "ssl_key_path") config.sslKeyPath.text)))

/-! ## Names and blanks -/

def settingNames : List Bytes :=
  [ascii "port", ascii "public_dir", ascii "use_cache", ascii "ssl_cert_path",
    ascii "ssl_cert_file", ascii "ssl_key_path", ascii "ssl_key_file"]

theorem mem_settingNames {name : Bytes} {setting : Setting}
    (hname : Setting.ofKey name = some setting) : name ∈ settingNames := by
  unfold Setting.ofKey at hname
  split_ifs at hname with hport hdir hcache hcert hkey
  · rw [hport]
    decide
  · rw [hdir]
    decide
  · rw [hcache]
    decide
  · rcases hcert with rfl | rfl <;> decide
  · rcases hkey with rfl | rfl <;> decide

theorem trim_trim (text : Bytes) : trim (trim text) = trim text := by
  have hfront : (trim text).dropWhile isspace = trim text := by
    rw [List.dropWhile_eq_self_iff]
    intro hpos
    have hprefix := List.rdropWhile_prefix isspace (text.dropWhile isspace)
    have hhead := hprefix.getElem hpos
    have hsome : 0 < (text.dropWhile isspace).length := hpos.trans_le hprefix.length_le
    unfold trim at hpos ⊢
    rw [hhead]
    exact List.dropWhile_get_zero_not isspace text hsome
  nth_rewrite 1 [trim]
  rw [hfront, trim, List.rdropWhile_idempotent]

theorem trim_eq_self {text : Bytes} (htext : ∀ c ∈ text, isspace c = false) :
    trim text = text := by
  have hfront : text.dropWhile isspace = text := by
    cases text with
    | nil => rfl
    | cons c rest =>
        exact List.dropWhile_cons_of_neg (by simp [htext c List.mem_cons_self])
  rw [trim, hfront, List.rdropWhile_eq_self_iff]
  intro hsome
  simp [htext _ (List.getLast_mem hsome)]

theorem blank_of_getLast_trim {text : Bytes} (hsome : trim text ≠ []) :
    isspace ((trim text).getLast hsome) = false := by
  exact Bool.eq_false_of_not_eq_true
    (List.rdropWhile_last_not isspace (text.dropWhile isspace) hsome)

/-! ## What a file gives -/

theorem fitsLine_of_mem_assignments {text value : Bytes} {setting : Setting}
    (hmem : (setting, value) ∈ assignments text) :
    ∃ name, Setting.ofKey name = some setting ∧ FitsLine (254 - name.length) value := by
  have hfree := nulFree_of_mem_assignments hmem
  obtain ⟨window, hwindow, delimiter, hkey, hvalue⟩ :=
    exists_window_of_mem_assignments hmem
  have hfits := length_le_of_mem_fgetsFrom (by simp) hwindow
  have hlast := lineFeed_notMem_dropLast (by simp) hwindow
  have hcstr : cstr window <+: window := List.takeWhile_prefix _
  refine ⟨_, hkey, hfree, ?_, ?_, ?_⟩
  · intro hfeed
    have hinfix : value <:+: window := by
      rw [hvalue]
      exact (trim_isInfix _).trans ((List.drop_suffix _ _).isInfix.trans hcstr.isInfix)
    have hsome : trim value ≠ [] := by
      rw [hvalue, trim_trim, ← hvalue]
      exact List.ne_nil_of_mem hfeed
    have hblank := blank_of_getLast_trim hsome
    have htrimmed : trim value = value := by rw [hvalue, trim_trim]
    rw [← htrimmed, ← List.dropLast_append_getLast hsome, List.mem_append,
      List.mem_singleton] at hfeed
    rcases hfeed with hfeed | hfeed
    · rw [htrimmed] at hfeed
      exact hlast (dropLast_subset_of_isInfix hinfix hfeed)
    · rw [← hfeed] at hblank
      exact absurd hblank (by decide)
  · rw [hvalue, trim_trim]
  · have hname := (trim_isInfix ((cstr window).take delimiter)).length_le
    have hlength := (trim_isInfix ((cstr window).drop (delimiter + 1))).length_le
    have hle := hcstr.length_le
    rw [← hvalue] at hlength
    simp only [List.length_take, List.length_drop] at hname hlength
    have hshort : ∀ name ∈ settingNames, name.length ≤ 13 := by decide
    have hthirteen := hshort _ (mem_settingNames hkey)
    omega

theorem isInt_atoi (value : Bytes) : IsInt (atoi value) := by
  have hlow := Int.le_bmod (x := strtol value) (m := 2 ^ 32) (by decide)
  have hhigh := Int.bmod_lt (x := strtol value) (m := 2 ^ 32) (by decide)
  unfold IsInt atoi toInt
  omega

theorem FitsLine.mono {room more : ℕ} {value : Bytes} (hfits : FitsLine room value)
    (hroom : room ≤ more) : FitsLine more value :=
  { hfits with short := hfits.short.trans hroom }

/-- The shortest name of a setting leaves its value the most room. -/
theorem ServerConfig.Loadable.set {config : ServerConfig} (hconfig : config.Loadable)
    {name value : Bytes} {setting : Setting} (hname : Setting.ofKey name = some setting)
    (hfits : FitsLine (254 - name.length) value) :
    (config.set setting value).Loadable := by
  have hlengths : ∀ name ∈ settingNames,
      (Setting.ofKey name = some .publicDir → name.length = 10) ∧
        (Setting.ofKey name = some .sslCertPath → name.length = 13) ∧
          (Setting.ofKey name = some .sslKeyPath → name.length = 12) := by decide
  obtain ⟨hdir, hcert, hkey⟩ := hlengths name (mem_settingNames hname)
  have hcopied (room : ℕ) (hroom : room ≤ 254) (hvalue : FitsLine room value) :
      FitsLine room (strncpy 255 value).text := by
    rw [strncpy_text hvalue.nulFree (hvalue.short.trans (by omega))]
    exact hvalue
  cases setting with
  | port => exact { hconfig with port := isInt_atoi value }
  | useCache => exact { hconfig with useCache := isInt_atoi value }
  | publicDir =>
      rw [hdir hname] at hfits
      exact { hconfig with publicDir := hcopied 244 (by omega) hfits }
  | sslCertPath =>
      rw [hcert hname] at hfits
      exact { hconfig with sslCertPath := hcopied 241 (by omega) hfits }
  | sslKeyPath =>
      rw [hkey hname] at hfits
      exact { hconfig with sslKeyPath := hcopied 242 (by omega) hfits }

theorem loadable_loadConfig {prior : ServerConfig} (hprior : prior.Loadable)
    (text : Bytes) : (loadConfig (some text) prior).2.Loadable := by
  rw [loadConfig_some]
  have hall : ∀ pair ∈ assignments text, ∃ name, Setting.ofKey name = some pair.1 ∧
      FitsLine (254 - name.length) pair.2 :=
    fun _ hmem => fitsLine_of_mem_assignments hmem
  generalize assignments text = pairs at hall
  induction pairs generalizing prior with
  | nil => exact hprior
  | cons pair pairs ih =>
      obtain ⟨name, hname, hfits⟩ := hall pair List.mem_cons_self
      refine ih (hprior.set hname hfits) fun other hmem => hall other ?_
      exact List.mem_cons_of_mem pair hmem

/-! ## What the five lines say -/

theorem assignments_lineFeed (rest : Bytes) :
    assignments (10 :: rest) = assignments rest := by
  have hempty : assignments [10] = [] := by decide
  have happend := assignments_append [] rest
  rwa [List.nil_append, List.nil_append, hempty, List.nil_append] at happend

/-- A line that fills the window is read without its line feed, which makes the next
window by itself. -/
theorem assignments_shortLine {line : Bytes} (hfree : 0 ∉ line) (hline : 10 ∉ line)
    (hshort : line.length ≤ 255) (rest : Bytes) :
    assignments (line ++ 10 :: rest) =
      (lineAssignment line).toList ++ assignments rest := by
  by_cases hfull : line.length = 255
  · have hwindow := fgetsLines_long hline hfull.ge (10 :: rest)
    rw [List.take_of_length_le hshort, List.drop_eq_nil_of_le hshort,
      List.nil_append] at hwindow
    rw [← assignments_lineFeed rest, assignments, hwindow,
      ← filterMap_lineAssignment_singleton, ← List.singleton_append,
      List.filterMap_append]
    rfl
  · rw [assignments_append, assignments_line hline (by omega),
      lineAssignment_append_lineFeed hfree]

theorem assignments_settingLine {name value : Bytes} {setting : Setting}
    (hname : Setting.ofKey name = some setting)
    (hvalue : FitsLine (254 - name.length) value) (rest : Bytes) :
    assignments (settingLine name value ++ rest) =
      (setting, value) :: assignments rest := by
  have hnames : ∀ name ∈ settingNames, 0 ∉ name ∧ 61 ∉ name ∧ 10 ∉ name ∧
      trim name = name ∧ name.length ≤ 13 ∧ name ≠ [] ∧
        name.head? ≠ some 35 ∧ name.head? ≠ some 10 ∧ name.head? ≠ some 13 := by
    decide
  obtain ⟨hfree, hequals, hfeed, htrim, hshort, hsome, hcomment, hempty, hreturn⟩ :=
    hnames name (mem_settingNames hname)
  have hlineFree : 0 ∉ name ++ 61 :: value := by
    simp [hfree, hvalue.nulFree]
  have hlineFeed : 10 ∉ name ++ 61 :: value := by
    simp [hfeed, hvalue.oneLine]
  have hfits : (name ++ 61 :: value).length ≤ 255 := by
    have hvalueShort := hvalue.short
    rw [List.length_append, List.length_cons]
    omega
  have hassigns : lineAssignment (name ++ 61 :: value) = some (setting, value) := by
    rw [lineAssignment, parseLine_append hlineFree hequals,
      List.head?_append_of_ne_nil _ hsome, if_neg (by tauto), htrim, hvalue.trimmed,
      Option.bind_some, hname]
    rfl
  have hsplit : settingLine name value ++ rest =
      (name ++ 61 :: value) ++ 10 :: rest := by
    simp [settingLine]
  rw [hsplit, assignments_shortLine hlineFree hlineFeed hfits, hassigns]
  rfl

theorem decimalInteger_decimal (number : ℤ) :
    DecimalInteger (decimal number) number := by
  cases number with
  | ofNat n =>
      have hplain := DecimalInteger.plain (decimal_ne_nil n)
        fun _ hc => isdigit_of_mem_decimal hc
      rwa [digitsValue_decimal] at hplain
  | negSucc n =>
      rw [decimal_negSucc]
      have hminus := DecimalInteger.minus (decimal_ne_nil (n + 1))
        fun _ hc => isdigit_of_mem_decimal hc
      rwa [digitsValue_decimal] at hminus

theorem atoi_decimal {number : ℤ} (hint : IsInt number) :
    atoi (decimal number) = number :=
  (holdsNumber_atoi (decimal number)).2 number (decimalInteger_decimal number)
    hint.1 hint.2

theorem fitsLine_decimal {number : ℤ} (hint : IsInt number) :
    FitsLine 20 (decimal number) := by
  obtain ⟨hlow, hhigh⟩ := hint
  refine ⟨notMem_decimal (by decide) (by decide) number,
    notMem_decimal (by decide) (by decide) number, trim_eq_self ?_, ?_⟩
  · intro c hc
    rcases isdigit_or_minus_of_mem_decimal hc with hdigit | rfl
    · exact (isspace_of_isdigit hdigit).1
    · decide
  · apply length_decimal_long
    · unfold longMin
      omega
    · unfold longMax
      omega

theorem assignments_toFile {config : ServerConfig} (hconfig : config.Loadable) :
    assignments config.toFile =
      [(.port, decimal config.port), (.publicDir, config.publicDir.text),
        (.useCache, decimal config.useCache), (.sslCertPath, config.sslCertPath.text),
        (.sslKeyPath, config.sslKeyPath.text)] := by
  have hnumber {name : Bytes} (hname : name.length ≤ 234) {number : ℤ}
      (hint : IsInt number) : FitsLine (254 - name.length) (decimal number) :=
    (fitsLine_decimal hint).mono (by omega)
  have hport := @assignments_settingLine (ascii "port") _ .port (by decide)
    (hnumber (by decide) hconfig.port)
  have hdir := @assignments_settingLine (ascii "public_dir") _ .publicDir (by decide)
    hconfig.publicDir
  have hcache := @assignments_settingLine (ascii "use_cache") _ .useCache (by decide)
    (hnumber (by decide) hconfig.useCache)
  have hcert := @assignments_settingLine (ascii "ssl_cert_path") _ .sslCertPath
    (by decide) hconfig.sslCertPath
  have hkey := @assignments_settingLine (ascii "ssl_key_path") _ .sslKeyPath (by decide)
    hconfig.sslKeyPath []
  have hempty : assignments [] = [] := by decide
  rw [List.append_nil, hempty] at hkey
  rw [ServerConfig.toFile, hport, hdir, hcache, hcert, hkey]

theorem loadConfig_toFile {config : ServerConfig} (hconfig : config.Loadable)
    (prior : ServerConfig) : loadConfig (some config.toFile) prior = (0, config) := by
  have hcopy (array : CharArray 256) : strncpy 255 array.text = array :=
    CharArray.ext (strncpy_text array.nulFree (Nat.le_of_lt_succ array.fits))
  rw [loadConfig_some, assignments_toFile hconfig]
  simp only [List.foldl_cons, List.foldl_nil, ServerConfig.set, hcopy,
    atoi_decimal hconfig.port, atoi_decimal hconfig.useCache]

theorem ServerConfig.loadable_zero : ServerConfig.zero.Loadable := by
  have hempty (room : ℕ) : FitsLine room [] :=
    ⟨by simp, by simp, by decide, by simp⟩
  exact ⟨by decide, hempty 244, by decide, hempty 241, hempty 242⟩

theorem ServerConfig.loadable_default : (configOf none).Loadable :=
  ⟨by decide, ⟨by decide, by decide, by decide, by decide⟩, by decide,
    ⟨by decide, by decide, by decide, by decide⟩,
    ⟨by decide, by decide, by decide, by decide⟩⟩

/-- The configurations that some file, or no file, gives are those whose own file
gives them back over any other. -/
theorem config_written_and_read (config : ServerConfig) :
    [∃ file, configOf file = config, config.Loadable,
      ∀ prior, loadConfig (some config.toFile) prior = (0, config)].TFAE := by
  tfae_have 1 → 2 := by
    rintro ⟨file, rfl⟩
    cases file with
    | none => exact ServerConfig.loadable_default
    | some text => exact loadable_loadConfig ServerConfig.loadable_zero text
  tfae_have 2 → 3 := fun hconfig prior => loadConfig_toFile hconfig prior
  tfae_have 3 → 1 := by
    intro hfile
    refine ⟨some config.toFile, ?_⟩
    rw [configOf, hfile]
  tfae_finish

end Lith
