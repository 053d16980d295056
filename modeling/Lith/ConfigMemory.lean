import Lith.Config
import Lith.StringScan

/-!
# Loading the configuration in memory

`load_config` on the bytes of its array `line` and of the `ServerConfig` that it
fills.  The line is cut at the first `=` by a NUL, two pointers walk over the blanks
in front of key and value, and NULs are written over the blanks behind them, one by
one.  Each line is read over what is left of the one before.  Whatever the file
holds, no access leaves an array, and the configuration in memory is the one that
the reading of texts arrives at.
-/

namespace Lith

open CString

/-- A `ServerConfig` in memory. -/
structure ConfigArea where
  port : ℤ
  publicDir : ByteArea 256
  useCache : ℤ
  sslCertPath : ByteArea 256
  sslKeyPath : ByteArea 256

/-- The loop that ends the string at `start`, which is `len` bytes long, before the
blanks behind it. -/
def CString.ByteArea.trimEnd {n : ℕ} (area : ByteArea n) (start : ℕ) :
    ℕ → Option (ByteArea n)
  | 0 => some area
  | len + 1 => do
      let last ← area.bytes[start + len]?
      if isspace last then
        let shorter ← area.store (start + len) 0
        shorter.trimEnd start len
      else some area

namespace ConfigArea

/-- The comparisons with the names of the settings, and what the one that succeeds
stores. -/
def assign (config : ConfigArea) (key value : Bytes) : Option ConfigArea := do
  let name ← readString key
  match Setting.ofKey name with
  | some .port =>
      let number ← scanLong value
      some
        { config with
          port := toInt number }
  | some .publicDir =>
      let copied ← config.publicDir.copyString value 255
      some
        { config with
          publicDir := copied }
  | some .useCache =>
      let number ← scanLong value
      some
        { config with
          useCache := toInt number }
  | some .sslCertPath =>
      let copied ← config.sslCertPath.copyString value 255
      some
        { config with
          sslCertPath := copied }
  | some .sslKeyPath =>
      let copied ← config.sslKeyPath.copyString value 255
      some
        { config with
          sslKeyPath := copied }
  | none => some config

/-- A line with its `=` at `delimiter`. -/
def loadPair (config : ConfigArea) (line : ByteArea 256) (delimiter : ℕ) :
    Option (ByteArea 256 × ConfigArea) := do
  let split ← line.store delimiter 0
  let beforeKey ← readWhile isspace split.bytes
  let beforeValue ← readWhile isspace (split.bytes.drop (delimiter + 1))
  let key := beforeKey.length
  let value := delimiter + 1 + beforeValue.length
  let keyText ← readString (split.bytes.drop key)
  let keyTrimmed ← split.trimEnd key keyText.length
  let valueText ← readString (keyTrimmed.bytes.drop value)
  let trimmed ← keyTrimmed.trimEnd value valueText.length
  let assigned ← config.assign (trimmed.bytes.drop key) (trimmed.bytes.drop value)
  some (trimmed, assigned)

/-- What follows a call of `fgets`. -/
def loadLine (config : ConfigArea) (line : ByteArea 256) :
    Option (ByteArea 256 × ConfigArea) := do
  let first ← line.bytes[0]?
  if first = 35 ∨ first = 10 ∨ first = 13 then some (line, config)
  else
    match ← scanChar 61 line.bytes with
    | some delimiter => config.loadPair line delimiter
    | none => some (line, config)

/-- `fgets` writes what it has read and a NUL over the beginning of the line. -/
def loadLines (config : ConfigArea) (line : ByteArea 256) :
    List Bytes → Option ConfigArea
  | [] => some config
  | window :: windows => do
      let filled ← line.write 0 (window ++ [0])
      let (left, loaded) ← config.loadLine filled
      loaded.loadLines left windows

/-- The branch of the missing file. -/
def useDefaults (config : ConfigArea) : Option ConfigArea := do
  let publicDir ← config.publicDir.strncpy (ascii "public" ++ [0]) 255
  let certPath ← config.sslCertPath.strncpy (ascii "certs/server.crt" ++ [0]) 255
  let keyPath ← config.sslKeyPath.strncpy (ascii "certs/server.key" ++ [0]) 255
  some
    { port := 8090
      publicDir := publicDir
      useCache := 1
      sslCertPath := certPath
      sslKeyPath := keyPath }

/-- `load_config`, whose `line` begins with anything. -/
def load (config : ConfigArea) (line : ByteArea 256) :
    Option Bytes → Option (ℤ × ConfigArea)
  | none => config.useDefaults.map fun loaded => (-1, loaded)
  | some text => (config.loadLines line (fgetsLines text)).map fun loaded => (0, loaded)

/-- The memory holds this configuration. -/
structure Stores (area : ConfigArea) (config : ServerConfig) : Prop where
  port : area.port = config.port
  publicDir : area.publicDir.string = some config.publicDir.text
  useCache : area.useCache = config.useCache
  sslCertPath : area.sslCertPath.string = some config.sslCertPath.text
  sslKeyPath : area.sslKeyPath.string = some config.sslKeyPath.text

end ConfigArea

/-! ## One line -/

section Lines

variable {n : ℕ} {area : ByteArea n} {before rest : Bytes}

theorem set_append_cons (before rest : Bytes) (b c : UInt8) :
    (before ++ b :: rest).set before.length c = before ++ c :: rest := by
  simp

/-- Only the blanks behind the string are overwritten. -/
theorem exists_trimEnd (text : Bytes)
    (hbytes : area.bytes = before ++ (text ++ 0 :: rest)) :
    ∃ after gap, area.trimEnd before.length text.length = some after ∧
      gap.length + (text.rdropWhile isspace).length = text.length ∧
      after.bytes =
        before ++ (text.rdropWhile isspace ++ 0 :: (gap ++ rest)) := by
  induction text using List.reverseRecOn generalizing area rest with
  | nil => exact ⟨area, [], rfl, rfl, by simpa using hbytes⟩
  | append_singleton text c ih =>
      have hsplit : area.bytes = (before ++ text) ++ c :: 0 :: rest := by
        simp [hbytes]
      have hplace : (before ++ text).length = before.length + text.length :=
        List.length_append
      have hlast : area.bytes[before.length + text.length]? = some c := by
        rw [hsplit, ← hplace, List.getElem?_append_right le_rfl]
        simp
      rw [List.length_append, List.length_singleton, ByteArea.trimEnd, hlast,
        Option.bind_eq_bind, Option.bind_some]
      by_cases hc : isspace c
      · have hroom : before.length + text.length < n := by
          have hsize := area.size
          rw [hsplit] at hsize
          simp only [List.length_append, List.length_cons] at hsize
          omega
        obtain ⟨shorter, hstore, hshorter⟩ := area.exists_store hroom 0
        rw [hsplit, ← hplace, set_append_cons, List.append_assoc] at hshorter
        obtain ⟨after, gap, hafter, hgap, hbytes⟩ := ih hshorter
        refine ⟨after, gap ++ [0], ?_, ?_, ?_⟩
        · rw [if_pos hc, hstore]
          exact hafter
        · rw [List.rdropWhile_concat_pos _ _ _ hc, List.length_append,
            List.length_singleton]
          omega
        · rw [List.rdropWhile_concat_pos _ _ _ hc, hbytes, List.append_assoc gap]
          rfl
      · refine ⟨area, [], if_neg hc, ?_, ?_⟩
        · simp [List.rdropWhile_concat_neg _ _ _ hc]
        · simp [List.rdropWhile_concat_neg _ _ _ hc, hbytes]

end Lines

namespace ConfigArea

variable {area : ConfigArea} {config : ServerConfig} {line : ByteArea 256}

theorem exists_assign (hstores : area.Stores config) {key value name text : Bytes}
    (hname : readString key = some name) (hvalue : readString value = some text) :
    ∃ after, area.assign key value = some after ∧ after.Stores
      ((Setting.ofKey name).elim config fun setting => config.set setting text) := by
  have hfree := (readString_eq_some_iff.mp hvalue).1
  have hcopy (target : ByteArea 256) :
      ∃ copied, target.copyString value 255 = some copied ∧
        copied.string = some (strncpy 255 text).text := by
    have hroom : 255 < 256 := by omega
    simp only [CString.strncpy, cstr_eq_self hfree]
    exact target.copyString_string hvalue hroom
  unfold assign
  rw [hname, Option.bind_eq_bind, Option.bind_some]
  cases Setting.ofKey name with
  | none => exact ⟨area, rfl, hstores⟩
  | some setting =>
      cases setting with
      | port =>
          rw [scanLong_eq hvalue]
          refine ⟨_, rfl, ?_⟩
          exact { hstores with port := rfl }
      | useCache =>
          rw [scanLong_eq hvalue]
          refine ⟨_, rfl, ?_⟩
          exact { hstores with useCache := rfl }
      | publicDir =>
          obtain ⟨copied, hcopied, htext⟩ := hcopy area.publicDir
          simp only [hcopied]
          refine ⟨_, rfl, ?_⟩
          exact { hstores with publicDir := htext }
      | sslCertPath =>
          obtain ⟨copied, hcopied, htext⟩ := hcopy area.sslCertPath
          simp only [hcopied]
          refine ⟨_, rfl, ?_⟩
          exact { hstores with sslCertPath := htext }
      | sslKeyPath =>
          obtain ⟨copied, hcopied, htext⟩ := hcopy area.sslKeyPath
          simp only [hcopied]
          refine ⟨_, rfl, ?_⟩
          exact { hstores with sslKeyPath := htext }

theorem readWhile_append {text : Bytes} (hfree : 0 ∉ text) (rest : Bytes) :
    readWhile isspace (text ++ 0 :: rest) = some (text.takeWhile isspace) :=
  readWhile_eq (by decide) (readString_append hfree rest)

/-- The two pointers end at the trimmed key and the trimmed value. -/
theorem exists_loadPair (area : ConfigArea) {key value rest : Bytes} (hkey : 0 ∉ key)
    (hvalue : 0 ∉ value) (hbytes : line.bytes = key ++ 61 :: (value ++ 0 :: rest)) :
    ∃ trimmed keyAt valueAt, readString keyAt = some (trim key) ∧
      readString valueAt = some (trim value) ∧
      area.loadPair line key.length =
        (area.assign keyAt valueAt).map fun assigned => (trimmed, assigned) := by
  have hroom : key.length < 256 := by
    have hsize := line.size
    rw [hbytes] at hsize
    simp only [List.length_append, List.length_cons] at hsize
    omega
  obtain ⟨split, hsplit, hcut⟩ := line.exists_store hroom 0
  rw [hbytes, set_append_cons] at hcut
  have hbeforeKey : readWhile isspace split.bytes = some (key.takeWhile isspace) := by
    rw [hcut]
    exact readWhile_append hkey _
  have hbehind : split.bytes.drop (key.length + 1) = value ++ 0 :: rest := by
    rw [hcut, List.drop_length_add_append]
    rfl
  have hbeforeValue : readWhile isspace (split.bytes.drop (key.length + 1)) =
      some (value.takeWhile isspace) := by
    rw [hbehind]
    exact readWhile_append hvalue _
  -- the key
  have hkeyBytes : split.bytes = key.takeWhile isspace ++
      (key.dropWhile isspace ++ 0 :: (value ++ 0 :: rest)) := by
    rw [hcut, ← List.append_assoc, List.takeWhile_append_dropWhile]
  have hkeyText : readString (split.bytes.drop (key.takeWhile isspace).length) =
      some (key.dropWhile isspace) := by
    rw [hkeyBytes, List.drop_left]
    exact readString_append (fun hmem => hkey ((List.dropWhile_suffix _).subset hmem)) _
  obtain ⟨keyTrimmed, gap, hkeyTrim, hgap, hkeyAfter⟩ := exists_trimEnd _ hkeyBytes
  -- the value
  have hvalueBytes : keyTrimmed.bytes =
      (key.takeWhile isspace ++ (trim key ++ 0 :: (gap ++ value.takeWhile isspace))) ++
        (value.dropWhile isspace ++ 0 :: rest) := by
    simp only [hkeyAfter, trim, List.append_assoc, List.cons_append]
    rw [← List.append_assoc (value.takeWhile isspace), List.takeWhile_append_dropWhile]
  have hplace : (key.takeWhile isspace ++
      (trim key ++ 0 :: (gap ++ value.takeWhile isspace))).length =
        key.length + 1 + (value.takeWhile isspace).length := by
    have hkeyLength := congrArg List.length
      (List.takeWhile_append_dropWhile (p := isspace) (l := key))
    simp only [List.length_append, List.length_cons] at hkeyLength ⊢
    unfold trim
    omega
  generalize hfront : key.takeWhile isspace ++
    (trim key ++ 0 :: (gap ++ value.takeWhile isspace)) = front at hvalueBytes hplace
  have hvalueText : readString (keyTrimmed.bytes.drop front.length) =
      some (value.dropWhile isspace) := by
    rw [hvalueBytes, List.drop_left]
    exact readString_append
      (fun hmem => hvalue ((List.dropWhile_suffix _).subset hmem)) _
  obtain ⟨trimmed, tail, hvalueTrim, -, hafter⟩ := exists_trimEnd _ hvalueBytes
  have hkeyAt : readString (trimmed.bytes.drop (key.takeWhile isspace).length) =
      some (trim key) := by
    rw [hafter, ← hfront, List.append_assoc, List.drop_left, List.append_assoc]
    exact readString_append (fun hmem => hkey ((trim_isInfix key).subset hmem)) _
  have hvalueAt : readString (trimmed.bytes.drop front.length) = some (trim value) := by
    rw [hafter, List.drop_left]
    exact readString_append (fun hmem => hvalue ((trim_isInfix value).subset hmem)) _
  refine ⟨trimmed, _, _, hkeyAt, hvalueAt, ?_⟩
  unfold loadPair
  simp only [hsplit, hbeforeKey, hbeforeValue, hkeyText, hkeyTrim, ← hplace, hvalueText,
    hvalueTrim, Option.bind_eq_bind, Option.bind_some]
  cases area.assign (trimmed.bytes.drop (key.takeWhile isspace).length)
    (trimmed.bytes.drop front.length) <;> rfl

/-- The line is told apart by its first byte and its first `=`, as the text is. -/
theorem exists_loadLine (hstores : area.Stores config) {window rest : Bytes}
    (hbytes : line.bytes = window ++ 0 :: rest) :
    ∃ left after, area.loadLine line = some (left, after) ∧
      after.Stores (config.loadLine window) := by
  have hread : readString line.bytes = some (cstr window) := by
    rw [hbytes]
    exact readString_cstr window rest
  generalize htext : cstr window = text at hread
  obtain ⟨hfree, tail, hline⟩ := readString_eq_some_iff.mp hread
  have hfirst : ∃ first, line.bytes[0]? = some first ∧
      ((first = 35 ∨ first = 10 ∨ first = 13) ↔
        text.head? = some 35 ∨ text.head? = some 10 ∨ text.head? = some 13) := by
    rw [hline]
    cases text with
    | nil => exact ⟨0, rfl, by decide⟩
    | cons c text => exact ⟨c, rfl, by simp⟩
  obtain ⟨first, hzero, hiff⟩ := hfirst
  unfold loadLine ServerConfig.loadLine lineAssignment parseLine
  rw [hzero, htext, Option.bind_eq_bind, Option.bind_some]
  by_cases hskip : first = 35 ∨ first = 10 ∨ first = 13
  · rw [if_pos hskip, if_pos (hiff.mp hskip)]
    exact ⟨line, area, rfl, hstores⟩
  · rw [if_neg hskip, if_neg (fun hhead => hskip (hiff.mpr hhead)),
      scanChar_eq hread 61 (by decide)]
    simp only [Option.bind_eq_bind, Option.bind_some]
    by_cases hmem : 61 ∈ text
    · obtain ⟨key, value, rfl, hkey⟩ := List.eq_append_cons_of_mem hmem
      rw [List.mem_append, List.mem_cons, not_or, not_or] at hfree
      rw [List.append_assoc, List.cons_append] at hline
      obtain ⟨trimmed, keyAt, valueAt, hkeyAt, hvalueAt, hpair⟩ :=
        exists_loadPair area hfree.1 hfree.2.2 hline
      obtain ⟨after, hassign, hafter⟩ := exists_assign hstores hkeyAt hvalueAt
      refine ⟨trimmed, after, ?_, ?_⟩
      · simp only [strchr_append_cons hkey, hpair, hassign, Option.map_some]
      · rw [strchr_append_cons hkey]
        cases hsetting : Setting.ofKey (trim key) <;>
          simpa [List.take_left', hsetting] using hafter
    · rw [(strchr_eq_none_iff text).mpr hmem]
      exact ⟨line, area, rfl, hstores⟩

theorem exists_loadLines (hstores : area.Stores config) (line : ByteArea 256)
    {windows : List Bytes} (hshort : ∀ window ∈ windows, window.length ≤ 255) :
    ∃ after, area.loadLines line windows = some after ∧
      after.Stores (windows.foldl ServerConfig.loadLine config) := by
  induction windows generalizing area config line with
  | nil => exact ⟨area, rfl, hstores⟩
  | cons window windows ih =>
      have hwindow := hshort window (by simp)
      have hroom : 0 + (window ++ [0]).length ≤ 256 := by
        rw [List.length_append, List.length_singleton]
        omega
      obtain ⟨filled, hwrite, hfilled⟩ := line.exists_write 0 (window ++ [0]) hroom
      rw [List.take_zero, List.nil_append, List.append_assoc] at hfilled
      obtain ⟨left, loaded, hline, hloaded⟩ := exists_loadLine hstores hfilled
      obtain ⟨after, hlines, hafter⟩ := ih hloaded left fun other hmem =>
        hshort other (List.mem_cons_of_mem window hmem)
      refine ⟨after, ?_, hafter⟩
      simp only [loadLines, hwrite, hline, Option.bind_eq_bind, Option.bind_some]
      exact hlines

theorem exists_useDefaults (area : ConfigArea) :
    ∃ after, area.useDefaults = some after ∧
      after.Stores (loadConfig none config).2 := by
  have hdefault (target : ByteArea 256) {text : Bytes} (hfree : 0 ∉ text)
      (hshort : text.length < 255) :
      ∃ copied, target.strncpy (text ++ [0]) 255 = some copied ∧
        copied.string = some (CString.strncpy 255 text).text := by
    rw [strncpy_text hfree hshort.le]
    exact target.strncpy_string (readString_append hfree []) hshort (by omega)
  obtain ⟨publicDir, hpublic, hpublicDir⟩ :=
    @hdefault area.publicDir (ascii "public") (by decide) (by decide)
  obtain ⟨certPath, hcert, hcertPath⟩ :=
    @hdefault area.sslCertPath (ascii "certs/server.crt") (by decide) (by decide)
  obtain ⟨keyPath, hkey, hkeyPath⟩ :=
    @hdefault area.sslKeyPath (ascii "certs/server.key") (by decide) (by decide)
  unfold useDefaults
  simp only [hpublic, hcert, hkey]
  exact ⟨_, rfl, rfl, hpublicDir, rfl, hcertPath, hkeyPath⟩

/-- The `global_config` that the program starts with. -/
def zero : ConfigArea where
  port := 0
  publicDir := .initialised 256 []
  useCache := 0
  sslCertPath := .initialised 256 []
  sslKeyPath := .initialised 256 []

theorem stores_zero : zero.Stores .zero where
  port := rfl
  publicDir := ByteArea.string_initialised (by simp) (by simp)
  useCache := rfl
  sslCertPath := ByteArea.string_initialised (by simp) (by simp)
  sslKeyPath := ByteArea.string_initialised (by simp) (by simp)

end ConfigArea

/-- Whatever the file holds and whatever `line` held, every access is in its array,
and the configuration that is stored is the one that the texts say. -/
theorem config_loads_in_memory {area : ConfigArea} {config : ServerConfig}
    (hstores : area.Stores config) (line : ByteArea 256) (file : Option Bytes) :
    ∃ after, area.load line file = some ((loadConfig file config).1, after) ∧
      after.Stores (loadConfig file config).2 := by
  cases file with
  | none =>
      obtain ⟨after, hdefaults, hafter⟩ := area.exists_useDefaults
      exact ⟨after, by rw [ConfigArea.load, hdefaults]; rfl, hafter⟩
  | some text =>
      have hshort : ∀ window ∈ fgetsLines text, window.length ≤ 255 :=
        fun _ hmem => length_le_of_mem_fgetsFrom (by simp) hmem
      obtain ⟨after, hlines, hafter⟩ := ConfigArea.exists_loadLines hstores line hshort
      exact ⟨after, by rw [ConfigArea.load, hlines]; rfl, hafter⟩

/-- The second line is read over the first, longer one. -/
theorem config_loads_in_memory_blanks :
    ∃ after, ConfigArea.zero.load (.initialised 256 (ascii "="))
        (some (ascii "public_dir =  www \t\r\nport = 8443 \n")) = some (0, after) ∧
      after.port = 8443 ∧ after.publicDir.string = some (ascii "www") := by
  obtain ⟨after, hload, hafter⟩ := config_loads_in_memory ConfigArea.stores_zero
    (.initialised 256 (ascii "="))
    (some (ascii "public_dir =  www \t\r\nport = 8443 \n"))
  refine ⟨after, hload, ?_, ?_⟩
  · rw [hafter.port]
    decide
  · rw [hafter.publicDir]
    decide

end Lith
