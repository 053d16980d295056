import Lith.FieldSearch

/-!
# The parts of a request

A buffer that the parser accepts and in which it finds the blank line consists
of the method, the target up to the first blank, the head from there to the
end of the blank line, and the body.  The target and the head are free of NUL
bytes; the parser reads the body up to its first one.  A field name reaches
over none of the seams between the parts.
-/

namespace Lith

open CString

def methodWord : HttpMethod → Bytes
  | .get => ascii "GET "
  | .post => ascii "POST "
  | .unknown => []

structure Message where
  method : HttpMethod
  target : Bytes
  head : Bytes
  body : Bytes
  known : method ≠ .unknown
  targetPlain : ∀ c ∈ target, c ≠ 0 ∧ isspace c = false
  headBlank : ∃ c rest, head = c :: rest ∧ isspace c = true
  headNulFree : 0 ∉ head
  headEnds : behind blankLine head = some []

theorem copyPath_append_blank {text : Bytes}
    (htext : ∀ c ∈ text, isspace c = false) {c : UInt8}
    (hc : isspace c = true) (room : ℕ) (rest : Bytes) :
    copyPath room (text ++ c :: rest) = text.take room := by
  induction text generalizing room with
  | nil => cases room <;> simp [copyPath, hc]
  | cons d text ih =>
      cases room with
      | zero => rfl
      | succ room =>
          have hd := htext d List.mem_cons_self
          have hrec := ih fun other hother =>
            htext other (List.mem_cons_of_mem _ hother)
          simp [copyPath, hd, hrec]

theorem exists_target (text : Bytes) :
    ∃ target rest, text = target ++ rest ∧ (∀ c ∈ target, isspace c = false) ∧
      ∀ c, rest.head? = some c → isspace c = true := by
  refine ⟨text.takeWhile fun c => !isspace c, text.dropWhile fun c => !isspace c,
    List.takeWhile_append_dropWhile.symm, ?_, ?_⟩
  · intro c hc
    simpa using List.mem_takeWhile_imp hc
  · intro c hc
    have hstop := List.head?_dropWhile_not (fun c => !isspace c) text
    rw [hc] at hstop
    simpa using hstop

namespace Message

variable (message : Message)

def bytes : Bytes :=
  methodWord message.method ++
    (message.target ++ (message.head ++ message.body))

/-- What the parser sees of the message. -/
def seen : Bytes :=
  methodWord message.method ++
    (message.target ++ (message.head ++ cstr message.body))

theorem cstr_bytes : cstr message.bytes = message.seen := by
  have hword : 0 ∉ methodWord message.method := by
    cases message.method <;> decide
  have htarget : 0 ∉ message.target := fun hmem =>
    (message.targetPlain 0 hmem).1 rfl
  unfold bytes seen
  rw [cstr_append hword, cstr_append htarget, cstr_append message.headNulFree]

theorem parse_bytes :
    parseHttpRequest message.bytes =
      some (parseFields message.bytes message.method
        (methodWord message.method).length) := by
  unfold parseHttpRequest
  rw [message.cstr_bytes]
  unfold seen
  have hknown := message.known
  cases hmethod : message.method with
  | get =>
      have hpre : ascii "GET " <+: methodWord .get ++ (message.target ++
          (message.head ++ cstr message.body)) := List.prefix_append _ _
      rw [if_pos hpre]
      rfl
  | post =>
      have hget : ¬ascii "GET " <+: methodWord .post ++ (message.target ++
          (message.head ++ cstr message.body)) :=
        isPrefix_append_iff_of_ne _ List.prefix_rfl (by decide) (by decide)
          (by decide)
      have hpost : ascii "POST " <+: methodWord .post ++ (message.target ++
          (message.head ++ cstr message.body)) := List.prefix_append _ _
      rw [if_neg hget, if_pos hpost]
      rfl
  | unknown => exact absurd hmethod hknown

theorem head_eq_append_blankLine :
    ∃ lines, message.head = lines ++ blankLine := by
  have hends := message.headEnds
  unfold behind at hends
  rw [Option.map_eq_some_iff] at hends
  obtain ⟨i, hfound, hdrop⟩ := hends
  obtain ⟨rest, hrest⟩ := strstr_prefix_drop hfound
  have hempty : rest = [] := by
    rw [← List.drop_drop, ← hrest, List.drop_left] at hdrop
    exact hdrop
  refine ⟨message.head.take i, ?_⟩
  rw [← List.append_nil blankLine, ← hempty, hrest, List.take_append_drop]

/-- The blank line of the head is the first one of the message. -/
theorem behind_blankLine :
    behind blankLine message.seen = some (cstr message.body) := by
  have hword : 13 ∉ methodWord message.method := by
    cases message.method <;> decide
  have htarget : 13 ∉ message.target := by
    intro hmem
    have hspace := (message.targetPlain 13 hmem).2
    revert hspace
    decide
  have hblank : blankLine = 13 :: ascii "\n\r\n" := by decide
  have hends := message.headEnds
  unfold seen
  rw [hblank] at hends ⊢
  rw [behind_append_of_notMem hword, behind_append_of_notMem htarget,
    behind_append_of_some hends, List.nil_append]

theorem bodyStart_bytes (method : HttpMethod) (width : ℕ) :
    (parseFields message.bytes method width).bodyStart =
      some ((methodWord message.method).length +
        (message.target.length + message.head.length)) := by
  have hbehind := message.behind_blankLine
  unfold behind at hbehind
  rw [Option.map_eq_some_iff] at hbehind
  obtain ⟨i, hfound, hdrop⟩ := hbehind
  have hbound := strstr_bound hfound
  have hlen := congrArg List.length hdrop
  have hfour : blankLine.length = 4 := by decide
  simp only [parseFields, parseBodyStart, message.cstr_bytes, hfound,
    Option.map_some, Option.some.injEq]
  simp only [seen, List.length_drop, List.length_append, hfour] at hbound hlen
  omega

theorem path_bytes :
    (requestPath message.bytes (methodWord message.method).length).text =
      message.target.take (maxPathSize - 1) := by
  obtain ⟨c, rest, hhead, hc⟩ := message.headBlank
  simp only [requestPath, message.cstr_bytes, seen, List.drop_left, hhead,
    List.cons_append]
  exact copyPath_append_blank
    (fun d hd => (message.targetPlain d hd).2) hc _ _

/-- What the parser says of the framing and of the connection. -/
def framing : Option (ℤ × Bool) :=
  (parseHttpRequest message.bytes).map fun req =>
    (req.contentLength, req.keepAlive)

theorem framing_eq :
    message.framing = some (contentLengthReader.value message.seen,
      connectionReader.value message.seen) := by
  unfold framing
  rw [message.parse_bytes]
  simp only [Option.map_some, parseFields, message.cstr_bytes,
    parseContentLength_eq_value, parseKeepAlive_eq_value]

/-- Every accepted buffer with a blank line has these parts. -/
theorem exists_of_parse {buffer : Bytes} {req : HttpRequest}
    (hparse : parseHttpRequest buffer = some req)
    (hblank : req.bodyStart ≠ none) :
    ∃ message : Message, message.bytes = buffer ∧
      message.method = req.method := by
  have hstart : req.bodyStart = parseBodyStart (cstr buffer) := by
    rcases parseHttpRequest_eq_some hparse with ⟨-, rfl⟩ | ⟨-, rfl⟩ <;> rfl
  have hword : methodWord req.method <+: cstr buffer ∧
      req.method ≠ .unknown := by
    rcases parseHttpRequest_eq_some hparse with ⟨hpre, rfl⟩ | ⟨hpre, rfl⟩
    · exact ⟨hpre, by simp [parseFields]⟩
    · exact ⟨hpre, by simp [parseFields]⟩
  obtain ⟨⟨text, htext⟩, hknown⟩ := hword
  obtain ⟨after, hafter⟩ : ∃ after, behind blankLine (cstr buffer) = some after := by
    rw [← Option.isSome_iff_exists]
    rw [hstart] at hblank
    simpa [parseBodyStart, behind, Option.isSome_iff_ne_none] using hblank
  have hfree := nulFree_cstr buffer
  rw [← htext] at hafter hfree
  obtain ⟨target, rest, rfl, htarget, hrest⟩ := exists_target text
  simp only [List.mem_append, not_or] at hfree
  have hword : 13 ∉ methodWord req.method := by
    cases req.method <;> decide
  have hcr : 13 ∉ target := by
    intro hmem
    have hspace := htarget 13 hmem
    revert hspace
    decide
  have hfirst : blankLine = 13 :: ascii "\n\r\n" := by decide
  rw [hfirst, behind_append_of_notMem hword, behind_append_of_notMem hcr] at hafter
  obtain ⟨front, rfl, hfront⟩ := exists_front_of_behind (by simp) hafter
  obtain ⟨c, lines, rfl⟩ : ∃ c lines, front = c :: lines := by
    apply List.exists_cons_of_ne_nil
    rintro rfl
    rw [behind_nil (by simp)] at hfront
    simp at hfront
  refine ⟨{
    method := req.method
    target := target
    head := c :: lines
    body := after ++ buffer.dropWhile (· ≠ 0)
    known := hknown
    targetPlain := fun d hd => ⟨fun heq => hfree.2.1 (heq ▸ hd), htarget d hd⟩
    headBlank := ⟨c, lines, rfl, hrest c rfl⟩
    headNulFree := fun hmem => hfree.2.2 (List.mem_append_left _ hmem)
    headEnds := hfirst ▸ hfront }, ?_, rfl⟩
  unfold bytes
  have hwhole : cstr buffer ++ buffer.dropWhile (· ≠ 0) = buffer :=
    List.takeWhile_append_dropWhile
  rw [← htext] at hwhole
  simpa using hwhole

/-! ## The search for a field in the parts -/

theorem behind_head_append {β : Type} (reader : FieldReader β) {name : Bytes}
    (hname : name ∈ reader.names) (rest : Bytes) :
    behind name (message.head ++ rest) =
      ((behind name message.head).map (· ++ rest)).or (behind name rest) := by
  obtain ⟨lines, hlines⟩ : ∃ lines, message.head = lines ++ [10] := by
    obtain ⟨lines, hlines⟩ := message.head_eq_append_blankLine
    have hblank : blankLine = ascii "\r\n\r" ++ [10] := by decide
    exact ⟨lines ++ ascii "\r\n\r", by rw [hlines, hblank, List.append_assoc]⟩
  rw [hlines, reader.behind_append_of_blank_last hname (by decide)]

theorem behind_seen {β : Type} (reader : FieldReader β) {name : Bytes}
    (hname : name ∈ reader.names) :
    behind name message.seen =
      ((behind name message.target).map
          (· ++ (message.head ++ cstr message.body))).or
        (((behind name message.head).map (· ++ cstr message.body)).or
          (behind name (cstr message.body))) := by
  obtain ⟨c, rest, hhead, hc⟩ := message.headBlank
  have hword : behind name message.seen = behind name
      (message.target ++ (message.head ++ cstr message.body)) := by
    obtain ⟨word, hword, hshort⟩ :
        ∃ word, methodWord message.method = word ++ [32] ∧ word.length ≤ 4 := by
      cases hmethod : message.method with
      | get => exact ⟨ascii "GET", by decide, by decide⟩
      | post => exact ⟨ascii "POST", by decide, by decide⟩
      | unknown => exact absurd hmethod message.known
    have hnone : behind name (word ++ [32]) = none := by
      apply behind_eq_none_of_length
      have hlong := reader.lt_length_name hname
      simp only [List.length_append, List.length_singleton]
      omega
    unfold seen
    rw [hword, reader.behind_append_of_blank_last hname (by decide), hnone]
    rfl
  have htarget : behind name
      (message.target ++ (message.head ++ cstr message.body)) =
        ((behind name message.target).map
            (· ++ (message.head ++ cstr message.body))).or
          (behind name (message.head ++ cstr message.body)) := by
    rw [hhead, List.cons_append]
    exact reader.behind_append_of_blank_head hname hc _ _
  rw [hword, htarget, message.behind_head_append reader hname]

/-- Silent parts around the head leave the field to the head. -/
theorem found_seen {β : Type} (reader : FieldReader β)
    (htarget : reader.Silent message.target)
    (hbody : reader.Silent (cstr message.body)) :
    reader.found message.seen =
      (reader.found message.head).map (· ++ cstr message.body) := by
  apply reader.found_map
  intro name hname
  rw [message.behind_seen reader hname, htarget name hname, hbody name hname]
  simp

end Message

/-! ## Heads that consist of lines -/

def crlf : Bytes := ascii "\r\n"

/-- Lines with their line ends and the empty line that closes them. -/
def lineBlock : List Bytes → Bytes
  | [] => crlf
  | line :: lines => line ++ (crlf ++ lineBlock lines)

theorem nulFree_lineBlock {lines : List Bytes} (hlines : ∀ line ∈ lines, 0 ∉ line) :
    0 ∉ lineBlock lines := by
  have hcrlf : 0 ∉ crlf := by decide
  induction lines with
  | nil => exact hcrlf
  | cons line lines ih =>
      have hrec := ih fun other hother =>
        hlines other (List.mem_cons_of_mem _ hother)
      simp [lineBlock, hcrlf, hrec, hlines line List.mem_cons_self]

theorem behind_line {β : Type} (reader : FieldReader β) {name : Bytes}
    (hname : name ∈ reader.names) (line rest : Bytes) :
    behind name (line ++ (crlf ++ rest)) =
      ((behind name line).map (· ++ (crlf ++ rest))).or (behind name rest) := by
  have hcrlf : crlf = [13, 10] := by decide
  rw [hcrlf, List.cons_append, List.singleton_append,
    reader.behind_append_of_blank_head hname (by decide),
    reader.behind_cons_blank hname (by decide),
    reader.behind_cons_blank hname (by decide)]

theorem FieldReader.found_silent_line {β : Type} (reader : FieldReader β)
    {line : Bytes} (hline : reader.Silent line) (rest : Bytes) :
    reader.found (line ++ (crlf ++ rest)) = reader.found rest := by
  apply reader.found_congr
  intro name hname
  rw [behind_line reader hname, hline name hname]
  rfl

theorem FieldReader.silent_line {β : Type} (reader : FieldReader β)
    {line rest : Bytes} (hline : reader.Silent line)
    (hrest : reader.Silent rest) : reader.Silent (line ++ (crlf ++ rest)) := by
  intro name hname
  rw [behind_line reader hname, hline name hname, hrest name hname]
  rfl

theorem FieldReader.silent_lineBlock {β : Type} (reader : FieldReader β)
    {lines : List Bytes} (hlines : ∀ line ∈ lines, reader.Silent line) :
    reader.Silent (lineBlock lines) := by
  induction lines with
  | nil => exact reader.silent_of_notMem_colon (by decide)
  | cons line lines ih =>
      apply reader.silent_line (hlines line List.mem_cons_self)
      exact ih fun other hother => hlines other (List.mem_cons_of_mem _ hother)

/-- The line of the field itself, among lines that do not mention it. -/
theorem FieldReader.found_lineBlock {β : Type} (reader : FieldReader β)
    {before after : List Bytes} {stem value : Bytes}
    (hstem : stem ∈ reader.stems) (hvalue : 58 ∉ value)
    (hbefore : ∀ line ∈ before, reader.Silent line)
    (hafter : ∀ line ∈ after, reader.Silent line) :
    reader.found (lineBlock (before ++ (stem ++ 58 :: value) :: after)) =
      some (value ++ (crlf ++ lineBlock after)) := by
  induction before with
  | nil =>
      have hrest := reader.silent_lineBlock hafter
      have hsilent := reader.silent_of_notMem_colon hvalue
      have hcolon := (reader.plain stem hstem).1
      rw [List.nil_append, lineBlock]
      apply reader.found_eq_some
      · refine ⟨stem ++ [58], List.mem_map_of_mem hstem, ?_⟩
        rw [behind_line reader (List.mem_map_of_mem hstem),
          behind_name hcolon hcolon, if_pos List.suffix_rfl]
        rfl
      · intro name hname
        rw [behind_line reader hname, hrest name hname]
        unfold names at hname
        obtain ⟨other, hother, rfl⟩ := List.mem_map.mp hname
        rw [behind_name (reader.plain other hother).1 hcolon]
        split_ifs
        · exact Or.inr rfl
        · rw [hsilent _ (List.mem_map_of_mem hother)]
          exact Or.inl rfl
  | cons line before ih =>
      rw [List.cons_append, lineBlock,
        reader.found_silent_line (hbefore line List.mem_cons_self)]
      exact ih fun other hother => hbefore other (List.mem_cons_of_mem _ hother)

theorem behind_blankLine_block {line : Bytes} (hline : 13 ∉ line)
    {lines : List Bytes} (hlines : ∀ other ∈ lines, other ≠ [] ∧ 13 ∉ other) :
    behind blankLine (line ++ (crlf ++ lineBlock lines)) = some [] := by
  have hblank : blankLine = 13 :: ascii "\n\r\n" := by decide
  have hcrlf : crlf = [13, 10] := by decide
  induction lines generalizing line with
  | nil =>
      rw [hblank, behind_append_of_notMem hline]
      decide
  | cons next lines ih =>
      have hnext := hlines next List.mem_cons_self
      obtain ⟨c, others, hcons⟩ := List.exists_cons_of_ne_nil hnext.1
      have hc : c ≠ 13 := by
        rintro rfl
        exact hnext.2 (hcons ▸ List.mem_cons_self)
      have hrec := ih hnext.2 fun other hother =>
        hlines other (List.mem_cons_of_mem _ hother)
      have hcr : ¬blankLine <+: 13 :: 10 :: lineBlock (next :: lines) := by
        rw [show blankLine = [13, 10, 13, 10] from by decide, lineBlock, hcons]
        simp [List.cons_prefix_cons, hc.symm]
      have hlf : ¬blankLine <+: 10 :: lineBlock (next :: lines) := by
        rw [show blankLine = [13, 10, 13, 10] from by decide]
        simp [List.cons_prefix_cons]
      rw [hblank, behind_append_of_notMem hline, ← hblank, hcrlf,
        List.cons_append, List.singleton_append,
        behind_cons_of_not_isPrefix hcr, behind_cons_of_not_isPrefix hlf]
      exact hrec

end Lith
