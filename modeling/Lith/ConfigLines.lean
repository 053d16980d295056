import Lith.Config
import Lith.Decimal

/-!
# The lines of the configuration file

`load_config` sees windows, the author of the file sees lines.  When every line
fits into a window the two are the same, and the configuration is a matter of
lines: a setting has the value of the last line that assigns it.  A longer
line is seen as several windows, and only the first one starts with the first
byte of the line, so the rest of a long comment is read as lines of its own.
-/

namespace Lith

open CString

def physicalLines (text : Bytes) : List Bytes := text.splitOn 10

/-- The line is no comment, and the text before its first `=` is the key of the
setting. -/
structure LineAssigns (line : Bytes) (setting : Setting) (value : Bytes) : Prop where
  counts : line.head? ≠ some 35 ∧ line.head? ≠ some 10 ∧ line.head? ≠ some 13
  parts : ∃ key rest, line = key ++ 61 :: rest ∧ 61 ∉ key ∧
    Setting.ofKey (trim key) = some setting ∧ trim rest = value

inductive DecimalInteger : Bytes → ℤ → Prop where
  | plain {digits : Bytes} (hsome : digits ≠ [])
      (hdigits : ∀ c ∈ digits, isdigit c = true) :
      DecimalInteger digits (digitsValue digits)
  | plus {digits : Bytes} (hsome : digits ≠ [])
      (hdigits : ∀ c ∈ digits, isdigit c = true) :
      DecimalInteger (43 :: digits) (digitsValue digits)
  | minus {digits : Bytes} (hsome : digits ≠ [])
      (hdigits : ∀ c ∈ digits, isdigit c = true) :
      DecimalInteger (45 :: digits) (-digitsValue digits)

/-- A number is what `atoi` makes of the value, the value itself where it is a
decimal integer in the range of `int`. -/
def HoldsNumber (field : ℤ) (value : Bytes) : Prop :=
  field = atoi value ∧ ∀ n, DecimalInteger value n → -2 ^ 31 ≤ n →
    n ≤ 2 ^ 31 - 1 → field = n

def ServerConfig.Holds (config : ServerConfig) (value : Bytes) : Setting → Prop
  | .port => HoldsNumber config.port value
  | .publicDir => config.publicDir.text = value
  | .useCache => HoldsNumber config.useCache value
  | .sslCertPath => config.sslCertPath.text = value
  | .sslKeyPath => config.sslKeyPath.text = value

/-! ## One line -/

theorem trim_append_blank {c : UInt8} (hc : isspace c = true) (text : Bytes) :
    trim (text ++ [c]) = trim text := by
  unfold trim
  by_cases hblank : ∀ d ∈ text, isspace d = true
  · have hall : ∀ d ∈ text ++ [c], isspace d = true := by
      intro d hd
      rcases List.mem_append.mp hd with hd | hd
      · exact hblank d hd
      · rw [List.mem_singleton.mp hd]
        exact hc
    rw [List.dropWhile_eq_nil_iff.mpr hblank, List.dropWhile_eq_nil_iff.mpr hall]
  · push Not at hblank
    obtain ⟨d, hd, hspace⟩ := hblank
    rw [List.dropWhile_append, if_neg, List.rdropWhile_concat_pos _ _ _ hc]
    rw [List.isEmpty_iff, List.dropWhile_eq_nil_iff]
    intro hall
    exact hspace (hall d hd)

theorem parseLine_append {key rest : Bytes} (hfree : 0 ∉ key ++ 61 :: rest)
    (hkey : 61 ∉ key) :
    parseLine (key ++ 61 :: rest) =
      if (key ++ 61 :: rest).head? = some 35 ∨ (key ++ 61 :: rest).head? = some 10 ∨
          (key ++ 61 :: rest).head? = some 13 then none
      else some (trim key, trim rest) := by
  simp only [parseLine, cstr_eq_self hfree, strchr_append_cons hkey,
    Option.map_some, List.take_left']
  simp

theorem parseLine_of_notMem {line : Bytes} (hfree : 0 ∉ line) (hline : 61 ∉ line) :
    parseLine line = none := by
  simp [parseLine, cstr_eq_self hfree, (strchr_eq_none_iff line).mpr hline]

theorem eq_of_append_cons {c : UInt8} {key key' rest rest' : Bytes}
    (hkey : c ∉ key) (hkey' : c ∉ key') (hsame : key ++ c :: rest = key' ++ c :: rest') :
    key = key' ∧ rest = rest' := by
  have hlength : key.length = key'.length := by
    have hfound := strchr_append_cons hkey rest
    rw [hsame, strchr_append_cons hkey', Option.some.injEq] at hfound
    exact hfound.symm
  obtain ⟨hleft, hright⟩ := List.append_inj hsame hlength
  exact ⟨hleft, (List.cons.inj hright).2⟩

theorem lineAssignment_eq_some_iff {line : Bytes} (hfree : 0 ∉ line)
    (setting : Setting) (value : Bytes) :
    lineAssignment line = some (setting, value) ↔
      LineAssigns line setting value := by
  by_cases hmem : 61 ∈ line
  · obtain ⟨key, rest, rfl, hkey⟩ := List.eq_append_cons_of_mem hmem
    rw [lineAssignment, parseLine_append hfree hkey]
    constructor
    · intro hline
      split_ifs at hline with hhead
      · simp at hline
      · simp only [Option.bind_some, Option.map_eq_some_iff, Prod.mk.injEq] at hline
        obtain ⟨found, hfound, rfl, hvalue⟩ := hline
        push Not at hhead
        exact ⟨hhead, key, rest, rfl, hkey, hfound, hvalue⟩
    · rintro ⟨⟨hcomment, hfeed, hreturn⟩, key', rest', hsplit, hkey', hsetting, hvalue⟩
      obtain ⟨rfl, rfl⟩ := eq_of_append_cons hkey hkey' hsplit
      rw [if_neg (not_or.mpr ⟨hcomment, not_or.mpr ⟨hfeed, hreturn⟩⟩),
        Option.bind_some, hsetting, hvalue]
      rfl
  · rw [lineAssignment, parseLine_of_notMem hfree hmem]
    constructor
    · simp
    · rintro ⟨-, key, rest, rfl, -⟩
      exact absurd (by simp) hmem

theorem head?_append_lineFeed {line : Bytes} (hline : line ≠ []) :
    (line ++ [10]).head? = line.head? := by
  rw [List.head?_append_of_ne_nil _ hline]

theorem lineAssignment_append_lineFeed {line : Bytes} (hfree : 0 ∉ line) :
    lineAssignment (line ++ [10]) = lineAssignment line := by
  have hfree' : 0 ∉ line ++ [10] := by simp [hfree]
  by_cases hmem : 61 ∈ line
  · obtain ⟨key, rest, rfl, hkey⟩ := List.eq_append_cons_of_mem hmem
    have hsome : key ++ 61 :: rest ≠ [] := by simp
    have hhead := head?_append_lineFeed hsome
    rw [List.append_assoc, List.cons_append] at hfree' hhead ⊢
    rw [lineAssignment, lineAssignment, parseLine_append hfree hkey,
      parseLine_append hfree' hkey, hhead, trim_append_blank (by decide)]
  · rw [lineAssignment, lineAssignment, parseLine_of_notMem hfree hmem,
      parseLine_of_notMem hfree' (by simp [hmem])]

/-! ## All lines -/

/-- Windows end at line feeds, so a text that ends in one is read for itself. -/
theorem fgetsFrom_append (room : ℕ) (line text rest : Bytes) :
    fgetsFrom room line (text ++ 10 :: rest) =
      fgetsFrom room line (text ++ [10]) ++ fgetsFrom room [] rest := by
  induction text generalizing line with
  | nil => simp [fgetsFrom]
  | cons c text ih =>
      simp only [List.cons_append, fgetsFrom]
      split_ifs with hfull
      · rw [ih, List.cons_append]
      · rw [ih]

theorem fgetsLines_append (text rest : Bytes) :
    fgetsLines (text ++ 10 :: rest) = fgetsLines (text ++ [10]) ++ fgetsLines rest :=
  fgetsFrom_append 255 [] text rest

/-- A piece without line feed that leaves the window open. -/
theorem fgetsFrom_fill {room : ℕ} {line text : Bytes} (htext : 10 ∉ text)
    (hroom : line.length + text.length < room) (rest : Bytes) :
    fgetsFrom room line (text ++ rest) = fgetsFrom room (line ++ text) rest := by
  induction text generalizing line with
  | nil => simp
  | cons c text ih =>
      rw [List.mem_cons, not_or] at htext
      simp only [List.length_cons] at hroom
      have hopen : ¬(c = 10 ∨ line.length + 1 = room) := by
        rintro (hfeed | hfull)
        · exact htext.1 hfeed.symm
        · omega
      rw [List.cons_append, fgetsFrom, if_neg hopen, ih htext.2]
      · simp
      · simp only [List.length_append, List.length_singleton]
        omega

theorem assignments_append (text rest : Bytes) :
    assignments (text ++ 10 :: rest) =
      assignments (text ++ [10]) ++ assignments rest := by
  unfold assignments
  rw [fgetsLines_append, List.filterMap_append]

/-- `fgets` stops behind a line feed. -/
theorem lineFeed_notMem_dropLast {room : ℕ} {line text window : Bytes}
    (hline : 10 ∉ line) (hmem : window ∈ fgetsFrom room line text) :
    10 ∉ window.dropLast := by
  induction text generalizing line with
  | nil =>
      unfold fgetsFrom at hmem
      split_ifs at hmem
      · simp at hmem
      · rw [List.mem_singleton.mp hmem]
        exact fun hfeed => hline (List.mem_of_mem_dropLast hfeed)
  | cons c text ih =>
      unfold fgetsFrom at hmem
      split_ifs at hmem with hfull
      · rcases List.mem_cons.mp hmem with rfl | hmem
        · rwa [List.dropLast_concat]
        · exact ih (by simp) hmem
      · refine ih ?_ hmem
        rw [List.mem_append, List.mem_singleton, not_or]
        exact ⟨hline, fun hfeed => hfull (Or.inl hfeed.symm)⟩

theorem dropLast_subset_of_isInfix {part whole : Bytes} (hpart : part <:+: whole) :
    part.dropLast ⊆ whole.dropLast := by
  obtain ⟨front, back, rfl⟩ := hpart
  intro c hc
  cases back using List.reverseRecOn with
  | nil =>
      have hsome : part ≠ [] := by
        rintro rfl
        simp at hc
      rw [List.append_nil, List.dropLast_append_of_ne_nil hsome]
      exact List.mem_append_right _ hc
  | append_singleton back d =>
      rw [← List.append_assoc, List.dropLast_concat]
      have hmem := List.mem_of_mem_dropLast hc
      simp [hmem]

theorem filterMap_lineAssignment_singleton (line : Bytes) :
    [line].filterMap lineAssignment = (lineAssignment line).toList := by
  cases hline : lineAssignment line <;> simp [hline]

theorem assignments_line {line : Bytes} (hline : 10 ∉ line)
    (hshort : line.length ≤ 254) :
    assignments (line ++ [10]) = (lineAssignment (line ++ [10])).toList := by
  have hwindow : fgetsLines (line ++ [10]) = [line ++ [10]] := by
    unfold fgetsLines
    rw [fgetsFrom_fill hline (by simp only [List.length_nil]; omega)]
    simp [fgetsFrom]
  rw [assignments, hwindow, filterMap_lineAssignment_singleton]

theorem assignments_lastLine {line : Bytes} (hline : 10 ∉ line)
    (hshort : line.length ≤ 254) :
    assignments line = (lineAssignment line).toList := by
  by_cases hempty : line = []
  · subst hempty
    decide
  · have hwindow : fgetsLines line = [line] := by
      have hroom : ([] : Bytes).length + line.length < 255 := by
        simp only [List.length_nil]
        omega
      have hfill := fgetsFrom_fill hline hroom []
      rw [List.append_nil, List.nil_append] at hfill
      rw [fgetsLines, hfill, fgetsFrom, if_neg hempty]
    rw [assignments, hwindow, filterMap_lineAssignment_singleton]

/-- With short lines the windows are the lines. -/
theorem assignments_eq_physicalLines {text : Bytes} (hfree : 0 ∉ text)
    (hshort : ∀ line ∈ physicalLines text, line.length ≤ 254) :
    assignments text = (physicalLines text).filterMap lineAssignment := by
  induction hsize : text.length using Nat.strong_induction_on generalizing text with
  | _ size ih =>
      by_cases hmem : 10 ∈ text
      · obtain ⟨line, rest, rfl, hline⟩ := List.eq_append_cons_of_mem hmem
        have hlines : physicalLines (line ++ 10 :: rest) =
            line :: physicalLines rest :=
          List.splitOn_append_cons_self_of_not_mem hline rest
        rw [hlines] at hshort ⊢
        have hfreeLine : 0 ∉ line := fun h => hfree (by simp [h])
        have hfreeRest : 0 ∉ rest := fun h => hfree (by simp [h])
        have hrest := ih rest.length
          (by simp only [← hsize, List.length_append, List.length_cons]; omega)
          hfreeRest (fun other hother => hshort other (List.mem_cons_of_mem _ hother))
          rfl
        rw [assignments_append, assignments_line hline (hshort line List.mem_cons_self),
          hrest, lineAssignment_append_lineFeed hfreeLine,
          ← filterMap_lineAssignment_singleton, ← List.filterMap_append]
        rfl
      · have hlines : physicalLines text = [text] := List.splitOn_eq_singleton hmem
        rw [hlines] at hshort ⊢
        rw [assignments_lastLine hmem (hshort text List.mem_cons_self),
          filterMap_lineAssignment_singleton]

theorem mem_of_mem_physicalLines {text line : Bytes} {c : UInt8}
    (hline : line ∈ physicalLines text) (hc : c ∈ line) : c ∈ text := by
  unfold physicalLines at hline
  induction text generalizing line with
  | nil => simp_all
  | cons d text ih =>
      rw [List.splitOn_cons_eq_if_modifyHead] at hline
      split_ifs at hline with hfeed
      · rcases List.mem_cons.mp hline with rfl | hline
        · simp at hc
        · exact List.mem_cons_of_mem d (ih hline hc)
      · cases hlines : text.splitOn 10 with
        | nil => exact absurd hlines (List.splitOn_ne_nil _ _)
        | cons first others =>
            rw [hlines, List.modifyHead_cons, List.mem_cons] at hline
            rw [hlines] at ih
            rcases hline with rfl | hline
            · rcases List.mem_cons.mp hc with rfl | hc
              · exact List.mem_cons_self
              · exact List.mem_cons_of_mem d (ih List.mem_cons_self hc)
            · exact List.mem_cons_of_mem d (ih (List.mem_cons_of_mem _ hline) hc)

/-! ## The values -/

theorem strtol_decimalInteger {text : Bytes} {n : ℤ} (hdecimal : DecimalInteger text n)
    (hlow : longMin ≤ n) (hhigh : n ≤ longMax) : strtol text = n := by
  have hspace (c : UInt8) (hc : isspace c = false) (rest : Bytes) :
      (c :: rest).dropWhile isspace = c :: rest :=
    List.dropWhile_cons_of_neg (by simp [hc])
  have hvalue {digits : Bytes} (hdigits : ∀ c ∈ digits, isdigit c = true) :
      digits.takeWhile isdigit = digits := List.takeWhile_eq_self_iff.mpr hdigits
  cases hdecimal with
  | plain hsome hdigits =>
      obtain ⟨c, rest, rfl⟩ := List.exists_cons_of_ne_nil hsome
      obtain ⟨hblank, hminus, hplus⟩ :=
        isspace_of_isdigit (hdigits c List.mem_cons_self)
      unfold strtol
      simp only [hspace c hblank, if_neg hminus, if_neg hplus, hvalue hdigits]
      exact min_eq_left hhigh
  | plus hsome hdigits =>
      unfold strtol
      simp only [hspace 43 (by decide), hvalue hdigits]
      exact min_eq_left hhigh
  | minus hsome hdigits =>
      unfold strtol
      simp only [hspace 45 (by decide), hvalue hdigits]
      exact max_eq_left hlow

theorem holdsNumber_atoi (value : Bytes) : HoldsNumber (atoi value) value := by
  refine ⟨rfl, ?_⟩
  intro n hdecimal hlow hhigh
  have hstrtol := strtol_decimalInteger hdecimal
    (by unfold longMin; omega) (by unfold longMax; omega)
  rw [atoi, hstrtol]
  exact (toInt_eq_self_iff n).mpr ⟨hlow, hhigh⟩

theorem ServerConfig.holds_set (config : ServerConfig) (setting : Setting)
    {value : Bytes} (hfree : 0 ∉ value) (hshort : value.length ≤ 255) :
    (config.set setting value).Holds value setting := by
  cases setting with
  | port => exact holdsNumber_atoi value
  | useCache => exact holdsNumber_atoi value
  | publicDir => exact strncpy_text hfree hshort
  | sslCertPath => exact strncpy_text hfree hshort
  | sslKeyPath => exact strncpy_text hfree hshort

theorem ServerConfig.Holds.of_sameAt {left right : ServerConfig} {setting : Setting}
    {value : Bytes} (hholds : right.Holds value setting)
    (hsame : SameAt setting left right) : left.Holds value setting := by
  cases setting <;> simp only [SameAt] at hsame <;>
    simpa only [ServerConfig.Holds, hsame] using hholds

theorem LineAssigns.nulFree {line value : Bytes} {setting : Setting}
    (hassigns : LineAssigns line setting value) (hfree : 0 ∉ line) : 0 ∉ value := by
  obtain ⟨key, rest, rfl, -, -, rfl⟩ := hassigns.parts
  intro hmem
  have hrest := (trim_isInfix rest).subset hmem
  exact hfree (by simp [hrest])

theorem LineAssigns.length_lt {line value : Bytes} {setting : Setting}
    (hassigns : LineAssigns line setting value) : value.length < line.length := by
  obtain ⟨key, rest, rfl, -, -, rfl⟩ := hassigns.parts
  have hle := (trim_isInfix rest).length_le
  simp only [List.length_append, List.length_cons]
  omega

theorem lastValue_append (left right : List (Setting × Bytes)) (setting : Setting) :
    lastValue (left ++ right) setting =
      (lastValue right setting).or (lastValue left setting) := by
  unfold lastValue
  rw [List.filter_append, List.getLast?_append, Option.map_or]

theorem lastValue_eq_none_iff (pairs : List (Setting × Bytes)) (setting : Setting) :
    lastValue pairs setting = none ↔ ∀ value, (setting, value) ∉ pairs := by
  unfold lastValue
  rw [Option.map_eq_none_iff, List.getLast?_eq_none_iff, List.filter_eq_nil_iff]
  constructor
  · intro hnone value hmem
    exact hnone _ hmem (by simp)
  · rintro hnone ⟨other, value⟩ hmem hsetting
    rw [decide_eq_true_eq] at hsetting
    subst hsetting
    exact hnone value hmem

theorem sameAt_loadConfig (text : Bytes) (prior : ServerConfig) (setting : Setting) :
    ServerConfig.SameAt setting (loadConfig (some text) prior).2
      ((lastValue (assignments text) setting).elim prior (prior.set setting)) := by
  rw [loadConfig_some]
  exact sameAt_foldl_set setting _ _

theorem lastValue_none_of_lines {lines : List Bytes}
    (hfree : ∀ line ∈ lines, 0 ∉ line) {setting : Setting}
    (hnone : ∀ line ∈ lines, ∀ value, ¬LineAssigns line setting value) :
    lastValue (lines.filterMap lineAssignment) setting = none := by
  rw [lastValue_eq_none_iff]
  intro value hmem
  obtain ⟨line, hline, hassigned⟩ := List.mem_filterMap.mp hmem
  exact hnone line hline value
    ((lineAssignment_eq_some_iff (hfree line hline) setting value).mp hassigned)

/-- The configuration by lines: every setting keeps its prior value or has the
value of the last line that assigns it. -/
theorem loadConfig_last_line (text : Bytes) (hfree : 0 ∉ text)
    (hshort : ∀ line ∈ physicalLines text, line.length ≤ 254)
    (prior : ServerConfig) :
    (loadConfig (some text) prior).1 = 0 ∧ ∀ setting,
      ((∀ line ∈ physicalLines text, ∀ value, ¬LineAssigns line setting value) →
        ServerConfig.SameAt setting (loadConfig (some text) prior).2 prior) ∧
      ∀ before line after value, physicalLines text = before ++ line :: after →
        LineAssigns line setting value →
        (∀ later ∈ after, ∀ other, ¬LineAssigns later setting other) →
          (loadConfig (some text) prior).2.Holds value setting := by
  have hfreeLines : ∀ line ∈ physicalLines text, 0 ∉ line :=
    fun line hline hzero => hfree (mem_of_mem_physicalLines hline hzero)
  refine ⟨by rw [loadConfig_some], ?_⟩
  intro setting
  have hsame := sameAt_loadConfig text prior setting
  rw [assignments_eq_physicalLines hfree hshort] at hsame
  constructor
  · intro hnone
    rw [lastValue_none_of_lines hfreeLines hnone] at hsame
    exact hsame
  · intro before line after value hlines hassigns hafter
    rw [hlines] at hsame hfreeLines hshort
    have hfreeLine := hfreeLines line (by simp)
    have hline := (lineAssignment_eq_some_iff hfreeLine setting value).mpr hassigns
    have hlast : lastValue ((before ++ line :: after).filterMap lineAssignment)
        setting = some value := by
      have hfreeAfter : ∀ later ∈ after, 0 ∉ later :=
        fun later hlater => hfreeLines later (by simp [hlater])
      have hnone := lastValue_none_of_lines hfreeAfter hafter
      rw [List.filterMap_append, List.filterMap_cons_some hline,
        ← List.singleton_append, lastValue_append, lastValue_append, hnone]
      simp [lastValue]
    rw [hlast] at hsame
    apply ServerConfig.Holds.of_sameAt _ hsame
    apply ServerConfig.holds_set
    · exact hassigns.nulFree hfreeLine
    · have hlong := hshort line (by simp)
      have hlt := hassigns.length_lt
      omega

def twoPorts : Bytes := ascii "port = 80\npublic_dir=www\nport=8443\n"

theorem loadConfig_last_line_twoPorts :
    (loadConfig (some twoPorts) ServerConfig.zero).2.Holds (ascii "8443") .port ∧
      (loadConfig (some twoPorts) ServerConfig.zero).2.Holds (ascii "www")
        .publicDir := by
  have hlines : physicalLines twoPorts = [ascii "port = 80", ascii "public_dir=www",
      ascii "port=8443", []] := by decide
  have hport : LineAssigns (ascii "port=8443") .port (ascii "8443") :=
    ⟨by decide, ascii "port", ascii "8443", by decide⟩
  have hdir : LineAssigns (ascii "public_dir=www") .publicDir (ascii "www") :=
    ⟨by decide, ascii "public_dir", ascii "www", by decide⟩
  have hnone (setting : Setting) (value : Bytes) : ¬LineAssigns [] setting value := by
    rintro ⟨-, key, rest, hsplit, -⟩
    simp at hsplit
  have hother (value : Bytes) : ¬LineAssigns (ascii "port=8443") .publicDir value := by
    rw [← lineAssignment_eq_some_iff (by decide)]
    intro hassigned
    have hfound : lineAssignment (ascii "port=8443") = some (.port, ascii "8443") := by
      decide
    rw [hfound] at hassigned
    simp at hassigned
  have hconfig := (loadConfig_last_line twoPorts (by decide)
    (by rw [hlines]; decide) ServerConfig.zero).2
  constructor
  · apply (hconfig .port).2 [ascii "port = 80", ascii "public_dir=www"] _ [[]] _
      hlines hport
    intro later hlater
    rw [List.mem_singleton.mp hlater]
    exact hnone _
  · apply (hconfig .publicDir).2 [ascii "port = 80"] _ [ascii "port=8443", []] _
      hlines hdir
    intro later hlater
    rcases List.mem_cons.mp hlater with rfl | hlater
    · exact hother
    · rw [List.mem_singleton.mp hlater]
      exact hnone _

/-! ## Comments -/

/-- What follows the first window of the comment sets nothing, or only what is
set again later, or what had the value already. -/
def CommentHarmless (before comment after : Bytes) (prior : ServerConfig) : Prop :=
  ∀ setting value,
    lastValue (assignments (comment.drop 255 ++ [10])) setting = some value →
    lastValue (assignments after) setting = none →
      ServerConfig.SameAt setting (prior.set setting value)
        ((lastValue (assignments before) setting).elim prior (prior.set setting))

theorem lineAssignment_comment {window : Bytes} (hwindow : window.head? = some 35) :
    lineAssignment window = none := by
  obtain ⟨rest, rfl⟩ := List.head?_eq_some_iff.mp hwindow
  have hhead : (cstr (35 :: rest)).head? = some 35 := by
    simp [cstr]
  simp [lineAssignment, parseLine, hhead]

/-- The first window of a line that does not fit. -/
theorem fgetsLines_long {line : Bytes} (hline : 10 ∉ line) (hlong : 255 ≤ line.length)
    (rest : Bytes) :
    fgetsLines (line ++ rest) = line.take 255 :: fgetsLines (line.drop 255 ++ rest) := by
  obtain ⟨c, others, hsplit⟩ : ∃ c others, line.drop 254 = c :: others :=
    List.exists_cons_of_length_pos (by rw [List.length_drop]; omega)
  have htake : line.take (254 + 1) = line.take 254 ++ [c] := by
    rw [List.take_add, hsplit]
    rfl
  have hdrop : line.drop (254 + 1) = others := by
    rw [← List.drop_drop, hsplit]
    rfl
  have hwhole : line ++ rest = line.take 254 ++ c :: (others ++ rest) := by
    rw [← List.cons_append, ← hsplit, ← List.append_assoc, List.take_append_drop]
  have hlength : (line.take 254).length = 254 := by
    rw [List.length_take]
    omega
  have hfeed : 10 ∉ line.take 254 := fun h => hline (List.mem_of_mem_take h)
  rw [htake, hdrop, hwhole, fgetsLines,
    fgetsFrom_fill hfeed (by rw [hlength]; decide), List.nil_append, fgetsFrom,
    if_pos (Or.inr (by rw [hlength]))]
  rfl

theorem assignments_comment {comment : Bytes} (hcomment : comment.head? = some 35)
    (hline : 10 ∉ comment) :
    assignments (comment ++ [10]) = assignments (comment.drop 255 ++ [10]) := by
  by_cases hlong : 255 ≤ comment.length
  · have hfirst : (comment.take 255).head? = some 35 := by
      rw [List.head?_take]
      simpa using hcomment
    unfold assignments
    rw [fgetsLines_long hline hlong,
      List.filterMap_cons_none (lineAssignment_comment hfirst)]
  · have hhead : (comment ++ [10]).head? = some 35 := by
      rw [List.head?_append, hcomment]
      rfl
    have hrest : comment.drop 255 = [] := List.drop_eq_nil_of_le (by omega)
    have hempty : assignments [10] = [] := by decide
    rw [assignments_line hline (by omega), lineAssignment_comment hhead, hrest,
      List.nil_append, hempty]
    rfl

theorem assignments_append_of_lines {before : Bytes}
    (hbefore : before = [] ∨ ∃ lines, before = lines ++ [10]) (rest : Bytes) :
    assignments (before ++ rest) = assignments before ++ assignments rest := by
  rcases hbefore with rfl | ⟨lines, rfl⟩
  · have hempty : assignments [] = [] := by decide
    rw [hempty]
    rfl
  · rw [List.append_assoc, List.singleton_append, assignments_append]

theorem ServerConfig.eq_iff_sameAt (left right : ServerConfig) :
    left = right ↔ ∀ setting, SameAt setting left right := by
  constructor
  · rintro rfl setting
    cases setting <;> rfl
  · intro hsame
    cases left
    cases right
    rw [ServerConfig.mk.injEq]
    exact ⟨hsame .port, hsame .publicDir, hsame .useCache, hsame .sslCertPath,
      hsame .sslKeyPath⟩

theorem loadConfig_eq_iff_sameAt (left right : Bytes) (prior : ServerConfig) :
    loadConfig (some left) prior = loadConfig (some right) prior ↔
      ∀ setting, ServerConfig.SameAt setting (loadConfig (some left) prior).2
        (loadConfig (some right) prior).2 := by
  rw [← ServerConfig.eq_iff_sameAt, loadConfig_some, loadConfig_some, Prod.mk.injEq]
  simp

/-- One setting after two texts of which the first has more assignments in the
middle. -/
theorem sameAt_inserted_iff {text text' : Bytes}
    {first inserted last : List (Setting × Bytes)}
    (htext : assignments text = first ++ (inserted ++ last))
    (htext' : assignments text' = first ++ last) (prior : ServerConfig)
    (setting : Setting) :
    ServerConfig.SameAt setting (loadConfig (some text) prior).2
        (loadConfig (some text') prior).2 ↔
      ∀ value, lastValue inserted setting = some value →
        lastValue last setting = none →
          ServerConfig.SameAt setting (prior.set setting value)
            ((lastValue first setting).elim prior (prior.set setting)) := by
  have hleft := sameAt_loadConfig text prior setting
  have hright := sameAt_loadConfig text' prior setting
  rw [htext, lastValue_append, lastValue_append] at hleft
  rw [htext', lastValue_append] at hright
  cases hlast : lastValue last setting with
  | some value =>
      rw [hlast] at hleft hright
      simpa using hleft.trans hright.symm
  | none =>
      rw [hlast] at hleft hright
      cases hinserted : lastValue inserted setting with
      | none =>
          rw [hinserted] at hleft
          simpa using hleft.trans hright.symm
      | some value =>
          rw [hinserted] at hleft
          constructor
          · rintro hsame _ ⟨⟩ -
            exact (hleft.symm.trans hsame).trans hright
          · intro hharmless
            exact (hleft.trans (hharmless value rfl rfl)).trans hright.symm

/-- A comment changes nothing if and only if what follows its first 255 bytes
is harmless. -/
theorem comment_ignored_iff {before comment : Bytes}
    (hbefore : before = [] ∨ ∃ lines, before = lines ++ [10])
    (hcomment : comment.head? = some 35) (hline : 10 ∉ comment) (after : Bytes)
    (prior : ServerConfig) :
    loadConfig (some (before ++ (comment ++ 10 :: after))) prior =
        loadConfig (some (before ++ after)) prior ↔
      CommentHarmless before comment after prior := by
  have hwith : assignments (before ++ (comment ++ 10 :: after)) =
      assignments before ++ (assignments (comment.drop 255 ++ [10]) ++
        assignments after) := by
    rw [assignments_append_of_lines hbefore, assignments_append,
      assignments_comment hcomment hline]
  have hwithout := assignments_append_of_lines hbefore after
  rw [loadConfig_eq_iff_sameAt]
  exact forall_congr' (sameAt_inserted_iff hwith hwithout prior)

theorem comment_ignored_short :
    loadConfig (some (ascii "use_cache=1\n" ++ (ascii "# port=1" ++ 10 ::
        ascii "port=80"))) ServerConfig.zero =
      loadConfig (some (ascii "use_cache=1\n" ++ ascii "port=80"))
        ServerConfig.zero := by
  rw [comment_ignored_iff (Or.inr ⟨ascii "use_cache=1", by decide⟩) (by decide)
    (by decide)]
  intro setting value hpiece
  have hnone : lastValue (assignments ((ascii "# port=1").drop 255 ++ [10])) setting =
      none := by
    cases setting <;> decide
  rw [hnone] at hpiece
  simp at hpiece

/-- A comment whose 255th byte is followed by an assignment. -/
def longComment : Bytes := (35 :: List.replicate 254 45) ++ ascii "port=80"

theorem long_comment_assigns :
    longComment.head? = some 35 ∧ 10 ∉ longComment ∧
      (loadConfig (some (longComment ++ [10])) ServerConfig.zero).2.port = 80 ∧
      (loadConfig (some []) ServerConfig.zero).2.port = 0 := by
  have hfeed : 10 ∉ longComment := by
    unfold longComment
    rw [List.mem_append, List.mem_cons]
    rintro ((hhash | hdash) | hport)
    · exact absurd hhash (by decide)
    · exact absurd (List.eq_of_mem_replicate hdash) (by decide)
    · exact absurd hport (by decide)
  have hrest : longComment.drop 255 = ascii "port=80" := by
    apply List.drop_left'
    rw [List.length_cons, List.length_replicate]
  have hpiece : assignments (ascii "port=80" ++ [10]) = [(.port, ascii "80")] := by
    decide
  refine ⟨rfl, hfeed, ?_, rfl⟩
  rw [loadConfig_some, assignments_comment rfl hfeed, hrest, hpiece]
  decide

end Lith
