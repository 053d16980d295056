import Lith.HttpParser

/-!
# Parsing a head with part of its body behind it

The parser searches the whole buffer, so bytes of the body can change what it
finds.  A complete head shields its own fields: it ends with a line feed,
which no field name contains and at which every scan of a value stops.  When
the body does not bring in a spelling that is tried before the one in the
head, the parser reads the same request from the head alone and from the head
with any part of the body.
-/

namespace Lith

open CString

/-- A head that the parser accepts on its own, ending at its blank line. -/
structure WholeHead (head : Bytes) (req : HttpRequest) : Prop where
  accepted : parseHttpRequest head = some req
  ends : req.bodyStart = some head.length
  nulFree : 0 ∉ head

/-- No spelling of a field name that is tried before the one in the head turns
up when the text is behind the head. -/
def FieldsInHead (head rest : Bytes) : Prop :=
  ∀ names ∈ [contentLengthNames, connectionNames],
    ∀ name ∈ names.takeWhile fun name => strstr name head = none,
      strstr name (head ++ rest) = none

instance (head rest : Bytes) : Decidable (FieldsInHead head rest) :=
  inferInstanceAs (Decidable (∀ names ∈ _, _))

theorem FieldsInHead.of_isPrefix {head rest part : Bytes}
    (hfields : FieldsInHead head rest) (hpart : part <+: rest) :
    FieldsInHead head part := by
  intro names hnames name hname
  have hnone := hfields names hnames name hname
  rw [strstr_eq_none_iff] at hnone ⊢
  intro hinside
  apply hnone
  exact hinside.trans ((List.prefix_append_right_inj head).mpr hpart).isInfix

theorem cstr_isPrefix {part text : Bytes} (hpart : part <+: text) :
    cstr part <+: cstr text := by
  obtain ⟨rest, rfl⟩ := hpart
  unfold cstr
  rw [List.takeWhile_append]
  split_ifs
  · exact (List.takeWhile_prefix _).trans (List.prefix_append part _)
  · exact List.prefix_rfl

theorem parseHttpRequest_eq_some {buffer : Bytes} {req : HttpRequest}
    (hparse : parseHttpRequest buffer = some req) :
    (ascii "GET " <+: cstr buffer ∧ req = parseFields buffer .get 4) ∨
      (ascii "POST " <+: cstr buffer ∧ req = parseFields buffer .post 5) := by
  unfold parseHttpRequest at hparse
  split_ifs at hparse with hget hpost
  · exact Or.inl ⟨hget, (Option.some.inj hparse).symm⟩
  · exact Or.inr ⟨hpost, (Option.some.inj hparse).symm⟩

theorem WholeHead.strstr_blankLine {head : Bytes} {req : HttpRequest}
    (hhead : WholeHead head req) :
    ∃ i, strstr blankLine head = some i ∧ i + 4 = head.length := by
  have hstart : parseBodyStart (cstr head) = some head.length := by
    rw [← hhead.ends]
    rcases parseHttpRequest_eq_some hhead.accepted with ⟨_, rfl⟩ | ⟨_, rfl⟩ <;>
      rfl
  rw [cstr_eq_self hhead.nulFree, parseBodyStart, Option.map_eq_some_iff] at hstart
  exact hstart

theorem WholeHead.exists_lineFeed {head : Bytes} {req : HttpRequest}
    (hhead : WholeHead head req) : ∃ lines, head = lines ++ [10] := by
  obtain ⟨i, hfound, hlen⟩ := hhead.strstr_blankLine
  have hmatch := strstr_prefix_drop hfound
  have hdrop : head.drop i = blankLine := by
    apply (hmatch.eq_of_length _).symm
    have hfour : blankLine.length = 4 := by decide
    rw [List.length_drop, hfour]
    omega
  have hblank : blankLine = ascii "\r\n\r" ++ [10] := by decide
  refine ⟨head.take i ++ ascii "\r\n\r", ?_⟩
  rw [List.append_assoc, ← hblank, ← hdrop, List.take_append_drop]

/-! ## Scans that stop inside the head -/

theorem copyPath_append {text : Bytes} (hspace : ∃ c ∈ text, isspace c = true)
    (room : ℕ) (rest : Bytes) :
    copyPath room (text ++ rest) = copyPath room text := by
  induction text generalizing room with
  | nil => simp at hspace
  | cons c text ih =>
      cases room with
      | zero => rfl
      | succ room =>
          simp only [List.cons_append, copyPath]
          split
          · rfl
          · rename_i hc
            have htext : ∃ d ∈ text, isspace d = true := by
              obtain ⟨d, hd, hspace⟩ := hspace
              rcases List.mem_cons.mp hd with rfl | hd
              · exact absurd hspace hc
              · exact ⟨d, hd, hspace⟩
            rw [ih htext]

theorem dropWhile_append_of_stop {p : UInt8 → Bool} {text : Bytes}
    (hstop : ∃ c ∈ text, p c = false) (rest : Bytes) :
    (text ++ rest).dropWhile p = text.dropWhile p ++ rest := by
  rw [List.dropWhile_append, if_neg]
  obtain ⟨c, hc, hpc⟩ := hstop
  simp only [List.isEmpty_iff, List.dropWhile_eq_nil_iff, not_forall]
  exact ⟨c, hc, by simp [hpc]⟩

theorem takeWhile_append_of_stop {p : UInt8 → Bool} {text : Bytes}
    (hstop : ∃ c ∈ text, p c = false) (rest : Bytes) :
    (text ++ rest).takeWhile p = text.takeWhile p := by
  rw [List.takeWhile_append, if_neg]
  intro hlen
  obtain ⟨c, hc, hpc⟩ := hstop
  have hall : text.takeWhile p = text :=
    (List.takeWhile_prefix p).eq_of_length hlen
  rw [List.takeWhile_eq_self_iff] at hall
  simp [hall c hc] at hpc

/-- Number scanning does not run past a line feed that follows the number. -/
theorem strtol_append {value : Bytes} (hvalue : strtol (value ++ [10]) ≠ 0)
    (rest : Bytes) : strtol (value ++ 10 :: rest) = strtol (value ++ [10]) := by
  have hlf : isdigit 10 = false := by decide
  unfold strtol at hvalue ⊢
  by_cases hblank : ∃ c ∈ value, isspace c = false
  · have hskip := dropWhile_append_of_stop hblank
    obtain ⟨c, number, hnumber⟩ :
        ∃ c number, value.dropWhile isspace = c :: number := by
      cases hdrop : value.dropWhile isspace with
      | nil =>
          obtain ⟨c, hc, hpc⟩ := hblank
          rw [List.dropWhile_eq_nil_iff] at hdrop
          simp [hdrop c hc] at hpc
      | cons c number => exact ⟨c, number, rfl⟩
    have hdigits (front : Bytes) : (front ++ 10 :: rest).takeWhile isdigit =
        (front ++ [10]).takeWhile isdigit := by
      have hstop : ((front ++ [10]) ++ rest).takeWhile isdigit = _ :=
        takeWhile_append_of_stop ⟨10, by simp, hlf⟩ rest
      simpa using hstop
    have hrest := hdigits number
    have hall := hdigits (c :: number)
    rw [hskip, hskip, hnumber]
    simp only [List.cons_append] at hall ⊢
    rw [hrest, hall]
  · exfalso
    apply hvalue
    have hall : (value ++ [10]).dropWhile isspace = [] := by
      rw [List.dropWhile_eq_nil_iff]
      intro c hc
      rcases List.mem_append.mp hc with hc | hc
      · by_contra hpc
        exact hblank ⟨c, hc, by simpa using hpc⟩
      · rw [List.mem_singleton.mp hc]
        decide
    rw [hall]

theorem caseMatches_append {word text : Bytes}
    (hstop : ∃ c ∈ text, tolower c ∉ word.map tolower) (rest : Bytes) :
    caseMatches word (text ++ rest) = caseMatches word text := by
  obtain ⟨c, hc, hword⟩ := hstop
  unfold caseMatches
  by_cases hlen : word.length ≤ text.length
  · rw [List.take_append_of_le_length hlen]
  · have hshort : text.take word.length = text :=
      List.take_of_length_le (by omega)
    have hlong : c ∈ (text ++ rest).take word.length := by
      rw [List.take_append, hshort]
      exact List.mem_append_left _ hc
    have hneither (part : Bytes) (hpart : c ∈ part) :
        part.map tolower ≠ word.map tolower := by
      intro heq
      exact hword (heq ▸ List.mem_map_of_mem hpart)
    rw [decide_eq_false (hneither _ hlong), hshort,
      decide_eq_false (hneither _ hc)]

/-! ## Searches that do not reach the body -/

theorem FieldsInHead.findName_append {head rest : Bytes}
    (hfields : FieldsInHead head rest) {names : List Bytes}
    (hnames : names ∈ [contentLengthNames, connectionNames]) :
    findName names (head ++ rest) = findName names head := by
  have hlocal := hfields names hnames
  clear hnames
  unfold findName
  induction names with
  | nil => rfl
  | cons name names ih =>
      rw [List.takeWhile_cons] at hlocal
      cases hfound : strstr name head with
      | some i =>
          simp only [List.findSome?_cons, hfound, strstr_append_of_some hfound]
      | none =>
          simp only [hfound, decide_true, if_true, List.forall_mem_cons] at hlocal
          simp only [List.findSome?_cons, hfound, hlocal.1, ih hlocal.2]

/-- Names of one width that contain no line feed. -/
def LineNames (names : List Bytes) (width : ℕ) : Prop :=
  ∀ name ∈ names, name.length = width ∧ name ≠ [] ∧ 10 ∉ name

theorem lineNames_contentLength : LineNames contentLengthNames 15 := by
  unfold LineNames
  decide

theorem lineNames_connection : LineNames connectionNames 11 := by
  unfold LineNames
  decide

theorem LineNames.findName_append {names : List Bytes} {width : ℕ}
    (hnames : LineNames names width) (lines : Bytes) :
    findName names (lines ++ [10]) = findName names lines := by
  unfold findName
  induction names with
  | nil => rfl
  | cons name names ih =>
      obtain ⟨-, hne, hlf⟩ := hnames name List.mem_cons_self
      have hrec := ih fun other hother =>
        hnames other (List.mem_cons_of_mem _ hother)
      have hnil : strstr name [] = none := by simp [strstr, hne]
      simp only [List.findSome?_cons, strstr_append_mark hne hlf, hnil,
        Option.map_none, Option.or_none, hrec]

theorem LineNames.fieldValue_append {names : List Bytes} {width : ℕ}
    (hnames : LineNames names width) {lines rest : Bytes}
    (hfind : findName names (lines ++ 10 :: rest) = findName names (lines ++ [10])) :
    fieldValue names width (lines ++ 10 :: rest) =
      (fieldValue names width lines).map (· ++ 10 :: rest) := by
  unfold fieldValue
  rw [hfind, hnames.findName_append]
  cases hfound : findName names lines with
  | none => rfl
  | some i =>
      obtain ⟨name, hname, hsome⟩ := List.exists_of_findSome?_eq_some hfound
      have hbound := strstr_bound hsome
      rw [(hnames name hname).1] at hbound
      simp only [Option.map_some, Option.some.injEq]
      rw [List.drop_append_of_le_length hbound, List.dropWhile_append]
      split_ifs with hempty
      · rw [List.isEmpty_iff] at hempty
        rw [hempty]
        rfl
      · rfl

theorem FieldsInHead.parseContentLength_append {lines rest : Bytes}
    (hfields : FieldsInHead (lines ++ [10]) rest)
    (hvalue : parseContentLength (lines ++ [10]) ≠ 0) :
    parseContentLength (lines ++ 10 :: rest) =
      parseContentLength (lines ++ [10]) := by
  have hfind : findName contentLengthNames (lines ++ 10 :: rest) =
      findName contentLengthNames (lines ++ [10]) := by
    simpa using hfields.findName_append (by simp)
  unfold parseContentLength at hvalue ⊢
  rw [lineNames_contentLength.fieldValue_append rfl] at hvalue ⊢
  rw [lineNames_contentLength.fieldValue_append hfind]
  cases hfield : fieldValue contentLengthNames 15 lines with
  | none => rfl
  | some value =>
      simp only [hfield, Option.map_some] at hvalue
      exact strtol_append hvalue rest

theorem FieldsInHead.parseKeepAlive_append {lines rest : Bytes}
    (hfields : FieldsInHead (lines ++ [10]) rest) :
    parseKeepAlive (lines ++ 10 :: rest) =
      parseKeepAlive (lines ++ [10]) := by
  have hfind : findName connectionNames (lines ++ 10 :: rest) =
      findName connectionNames (lines ++ [10]) := by
    simpa using hfields.findName_append (by simp)
  unfold parseKeepAlive
  rw [lineNames_connection.fieldValue_append hfind,
    lineNames_connection.fieldValue_append rfl]
  cases fieldValue connectionNames 11 lines with
  | none => rfl
  | some value =>
      have hmatch (word : Bytes) (hword : tolower 10 ∉ word.map tolower) :
          caseMatches word (value ++ 10 :: rest) =
            caseMatches word (value ++ [10]) := by
        have happend : caseMatches word ((value ++ [10]) ++ rest) = _ :=
          caseMatches_append ⟨10, by simp, hword⟩ rest
        simpa using happend
      simp only [Option.map_some, hmatch (ascii "close") (by decide),
        hmatch (ascii "keep-alive") (by decide)]

/-! ## The request read from a head with part of its body -/

theorem isPrefix_append_iff_of_ne {left right text : Bytes} (rest : Bytes)
    (hright : right <+: text) (hfirst : left.head? ≠ right.head?)
    (hne : left ≠ []) (hne' : right ≠ []) : ¬left <+: text ++ rest := by
  intro hleft
  obtain ⟨a, left, rfl⟩ := List.exists_cons_of_ne_nil hne
  obtain ⟨b, right, rfl⟩ := List.exists_cons_of_ne_nil hne'
  obtain ⟨tail, rfl⟩ := hright
  rw [List.append_assoc, List.cons_append, List.cons_prefix_cons] at hleft
  simp [hleft.1] at hfirst

theorem WholeHead.requestPath_append {head : Bytes} {req : HttpRequest}
    (hhead : WholeHead head req) (rest : Bytes) {word : Bytes}
    (hword : word <+: head) (hlast : word.getLast? ≠ some 10) :
    requestPath (head ++ rest) word.length = requestPath head word.length := by
  obtain ⟨lines, rfl⟩ := hhead.exists_lineFeed
  apply CharArray.ext
  have hlen : word.length ≤ lines.length := by
    have hle := hword.length_le
    by_contra hlong
    have hfull : word = lines ++ [10] := by
      apply hword.eq_of_length
      simp only [List.length_append, List.length_singleton] at hle ⊢
      omega
    simp [hfull] at hlast
  have hdrop : (lines ++ [10]).drop word.length =
      lines.drop word.length ++ [10] := List.drop_append_of_le_length hlen
  have hfits : word.length ≤ (lines ++ [10]).length := by
    simp only [List.length_append, List.length_singleton]
    omega
  simp only [requestPath]
  rw [cstr_append hhead.nulFree, cstr_eq_self hhead.nulFree,
    List.drop_append_of_le_length hfits, hdrop]
  exact copyPath_append ⟨10, by simp, by decide⟩ _ _

/-- The parser reads the same request from a whole head and from the head
followed by text that does not change where the field names are found. -/
theorem WholeHead.parse_append {head : Bytes} {req : HttpRequest}
    (hhead : WholeHead head req) {rest : Bytes}
    (hfields : FieldsInHead head (cstr rest))
    (hlength : rest ≠ [] → req.contentLength ≠ 0) :
    parseHttpRequest (head ++ rest) = some req := by
  by_cases hrest : rest = []
  · simpa [hrest] using hhead.accepted
  · have hcstr : cstr (head ++ rest) = head ++ cstr rest :=
      cstr_append hhead.nulFree rest
    have hself : cstr head = head := cstr_eq_self hhead.nulFree
    obtain ⟨lines, hlines⟩ := hhead.exists_lineFeed
    obtain ⟨i, hblank, -⟩ := hhead.strstr_blankLine
    have hjoin : head ++ cstr rest = lines ++ 10 :: cstr rest := by
      simp [hlines]
    have hlen : req.contentLength = parseContentLength (lines ++ [10]) := by
      rw [← hlines, ← hself]
      rcases parseHttpRequest_eq_some hhead.accepted with ⟨_, rfl⟩ | ⟨_, rfl⟩ <;>
        rfl
    have hsame (method : HttpMethod) (word : Bytes) (hword : word <+: head)
        (hlast : word.getLast? ≠ some 10) :
        parseFields (head ++ rest) method word.length =
          parseFields head method word.length := by
      simp only [parseFields, hhead.requestPath_append rest hword hlast, hcstr,
        hself, HttpRequest.mk.injEq, true_and]
      refine ⟨?_, ?_, ?_⟩
      · rw [hlines] at hfields
        rw [hjoin, hlines]
        exact hfields.parseContentLength_append (hlen ▸ hlength hrest)
      · simp only [parseBodyStart, hblank, strstr_append_of_some hblank]
      · rw [hlines] at hfields
        rw [hjoin, hlines]
        exact hfields.parseKeepAlive_append
    rcases parseHttpRequest_eq_some hhead.accepted with ⟨hget, rfl⟩ | ⟨hpost, rfl⟩
    · rw [hself] at hget
      unfold parseHttpRequest
      rw [hcstr, if_pos (hget.trans (List.prefix_append _ _))]
      exact congrArg some (hsame .get (ascii "GET ") hget (by decide))
    · rw [hself] at hpost
      unfold parseHttpRequest
      rw [hcstr, if_neg (isPrefix_append_iff_of_ne _ hpost (by decide)
          (by decide) (by decide)),
        if_pos (hpost.trans (List.prefix_append _ _))]
      exact congrArg some (hsame .post (ascii "POST ") hpost (by decide))

end Lith
