import Lith.Dialogue
import Lith.FileTransfer
import Lith.FrameReading

/-!
# The client can tell the responses apart

On a connection that is kept the responses follow one another without a gap.  A
client finds the end of a header at the blank line and counts the bytes of the
body in the `Content-Length` line.  As long as no file that is loaded reaches two
gigabytes, this takes the bytes of a connection by itself apart into the responses of
its log, at any moment of any run and however much has arrived.
-/

namespace Lith

open CString

/-! ## The client -/

def contentLengthMarker : Bytes := ascii "Content-Length: "

/-- The header of a response, up to the blank line, and the body it announces. -/
structure ReceivedResponse where
  header : Bytes
  body : Bytes
  deriving DecidableEq

def readResponse (stream : Bytes) : Option (ReceivedResponse × Bytes) :=
  (behind blankLine stream).bind fun rest =>
    let header := stream.take (stream.length - rest.length)
    (behind contentLengthMarker header).bind fun value =>
      let length := digitsValue (value.takeWhile isdigit)
      if length ≤ rest.length then some (⟨header, rest.take length⟩, rest.drop length)
      else none

theorem readResponse_eq_some {stream rest : Bytes} {response : ReceivedResponse} :
    readResponse stream = some (response, rest) ↔
      ∃ behindBlank value, behind blankLine stream = some behindBlank ∧
        response.header = stream.take (stream.length - behindBlank.length) ∧
        behind contentLengthMarker response.header = some value ∧
        digitsValue (value.takeWhile isdigit) ≤ behindBlank.length ∧
        response.body = behindBlank.take (digitsValue (value.takeWhile isdigit)) ∧
        rest = behindBlank.drop (digitsValue (value.takeWhile isdigit)) := by
  unfold readResponse
  constructor
  · intro hread
    obtain ⟨behindBlank, hblank, hheader⟩ := Option.bind_eq_some_iff.mp hread
    obtain ⟨value, hvalue, hbody⟩ := Option.bind_eq_some_iff.mp hheader
    simp only at hbody
    split_ifs at hbody with hroom
    rw [Option.some.injEq, Prod.mk.injEq] at hbody
    obtain ⟨rfl, rfl⟩ := hbody
    exact ⟨behindBlank, value, hblank, rfl, hvalue, hroom, rfl, rfl⟩
  · rintro ⟨behindBlank, value, hblank, hheader, hvalue, hroom, hbody, hrest⟩
    rw [hheader] at hvalue
    cases response
    simp only at hheader hbody
    simp [hblank, hvalue, hroom, hheader, hbody, hrest]

theorem exists_header_of_behind {stream rest : Bytes}
    (hblank : behind blankLine stream = some rest) :
    ∃ header, stream = header ++ rest ∧
      stream.take (stream.length - rest.length) = header ∧ header ≠ [] := by
  obtain ⟨header, rfl, hheader⟩ := exists_front_of_behind (by decide) hblank
  refine ⟨header, rfl, by simp, ?_⟩
  rintro rfl
  simp [behind_nil (show blankLine ≠ [] by decide)] at hheader

def responseReader : FrameReader ReceivedResponse UInt8 where
  read := readResponse
  shorter := by
    intro stream response rest hread
    obtain ⟨behindBlank, value, hblank, -, -, -, -, rfl⟩ := readResponse_eq_some.mp hread
    obtain ⟨header, hstream, -, hheader⟩ := exists_header_of_behind hblank
    have hpos := List.length_pos_iff.mpr hheader
    rw [hstream, List.length_append, List.length_drop]
    omega
  stable := by
    intro stream response rest more hread
    obtain ⟨behindBlank, value, hblank, hheader, hvalue, hroom, hbody, rfl⟩ :=
      readResponse_eq_some.mp hread
    obtain ⟨header, hstream, htake, -⟩ := exists_header_of_behind hblank
    refine readResponse_eq_some.mpr ⟨behindBlank ++ more, value,
      behind_append_of_some hblank more, ?_, hvalue, ?_, ?_, ?_⟩
    · rw [hheader, htake, hstream]
      simp
    · rw [List.length_append]
      omega
    · rw [hbody, List.take_append_of_le_length hroom]
    · rw [List.drop_append_of_le_length hroom]

/-! ## A header of lines -/

/-- Lines with their ends, and the blank line. -/
def headerOfLines (lines : List Bytes) : Bytes :=
  lines.flatMap (· ++ [13, 10]) ++ [13, 10]

/-- The blank line is the one behind the last line. -/
theorem behind_blankLine_headerOfLines {lines : List Bytes} (hsome : lines ≠ [])
    (hlines : ∀ line ∈ lines, line ≠ [] ∧ 13 ∉ line) :
    behind blankLine (headerOfLines lines) = some [] := by
  induction lines with
  | nil => exact absurd rfl hsome
  | cons line lines ih =>
      obtain ⟨-, hline⟩ := hlines line List.mem_cons_self
      have htext : headerOfLines (line :: lines) =
          line ++ 13 :: 10 :: headerOfLines lines := by
        simp [headerOfLines]
      have hmarker : blankLine = 13 :: [10, 13, 10] := by decide
      rw [htext, hmarker, behind_append_of_notMem hline]
      cases lines with
      | nil => decide
      | cons next others =>
          obtain ⟨hnext, hplain⟩ := hlines next (by simp)
          obtain ⟨c, tail, rfl⟩ := List.exists_cons_of_ne_nil hnext
          have hc : c ≠ 13 := fun h => hplain (by simp [h])
          have hshape : headerOfLines ((c :: tail) :: others) =
              c :: (tail ++ 13 :: 10 :: headerOfLines others) := by
            simp [headerOfLines]
          have hrest := ih (by simp) fun other hmem =>
            hlines other (List.mem_cons_of_mem _ hmem)
          rw [hmarker] at hrest
          rw [behind_cons_of_not_isPrefix, ← hrest]
          · exact behind_append_of_notMem (show (13 : UInt8) ∉ [10] by decide) _
          · rw [hshape]
            simp [List.cons_prefix_cons, Ne.symm hc]

/-! ## Responses with a proper header -/

def HttpResponse.received (response : HttpResponse) : ReceivedResponse :=
  ⟨response.header, response.body⟩

/-- A header of lines, the second of which counts the body. -/
structure HttpResponse.Framed (response : HttpResponse) : Prop where
  blank : behind blankLine response.header = some []
  counted : ∃ rest, behind contentLengthMarker response.header =
    some (decimal response.body.length ++ 13 :: rest)

theorem HttpResponse.Framed.writes {response : HttpResponse}
    (hframed : response.Framed) :
    responseReader.Writes response.received response.bytes := by
  obtain ⟨rest, hcounted⟩ := hframed.counted
  have hdigits : (decimal response.body.length ++ 13 :: rest).takeWhile isdigit =
      decimal response.body.length := by
    rw [List.takeWhile_append_of_pos fun c hc => isdigit_of_mem_decimal hc,
      List.takeWhile_cons_of_neg (by decide), List.append_nil]
  refine readResponse_eq_some.mpr ⟨response.body, _,
    behind_append_of_some hframed.blank response.body, ?_, hcounted, ?_⟩
  · simp [HttpResponse.bytes, HttpResponse.received]
  · rw [hdigits, digitsValue_decimal]
    simp [HttpResponse.received]

/-- The header of every response, as lines. -/
theorem framed_of_lines {response : HttpResponse} (status mimeType : Bytes)
    (others : List Bytes)
    (hheader : response.header = snprintf 384 (headerOfLines (status ::
      (contentLengthMarker ++ decimal response.body.length) :: mimeType :: others)))
    (hstatus : status ≠ [] ∧ 13 ∉ status ∧ behind contentLengthMarker status = none)
    (hmime : mimeType ≠ [] ∧ 13 ∉ mimeType)
    (hothers : ∀ line ∈ others, line ≠ [] ∧ 13 ∉ line)
    (hfits : (headerOfLines (status ::
      (contentLengthMarker ++ decimal response.body.length) :: mimeType :: others)).length
        < 384) : response.Framed := by
  have hwhole : response.header = headerOfLines (status ::
      (contentLengthMarker ++ decimal response.body.length) :: mimeType :: others) := by
    rw [hheader, snprintf, List.take_of_length_le (by omega)]
  have hlength : 13 ∉ contentLengthMarker ++ decimal response.body.length := by
    rw [List.mem_append, not_or]
    exact ⟨by decide, notMem_decimal (by decide) (by decide) _⟩
  constructor
  case blank =>
    rw [hwhole]
    apply behind_blankLine_headerOfLines (by simp)
    intro line hmem
    simp only [List.mem_cons] at hmem
    rcases hmem with rfl | rfl | rfl | hmem
    · exact ⟨hstatus.1, hstatus.2.1⟩
    · exact ⟨by simp [contentLengthMarker, ascii], hlength⟩
    · exact hmime
    · exact hothers line hmem
  case counted =>
    have htext : response.header = status ++ 13 :: (10 :: contentLengthMarker ++
        (decimal response.body.length ++
          13 :: 10 :: headerOfLines (mimeType :: others))) := by
      rw [hwhole]
      simp [headerOfLines]
    have hmarker : behind contentLengthMarker (10 :: contentLengthMarker) = some [] := by
      decide
    refine ⟨10 :: headerOfLines (mimeType :: others), ?_⟩
    rw [htext, behind_append_mark (by decide) (by decide), hstatus.2.2,
      behind_append_of_some hmarker]
    rfl

theorem framed_of_okHeader {response : HttpResponse} {mimeType : Bytes} {alive : Bool}
    (hheader : response.header =
      okHeader response.body.length mimeType (connState alive))
    (hbody : response.body.length < 2 ^ 64) (hmime : 13 ∉ mimeType)
    (hshort : mimeType.length ≤ 64) : response.Framed := by
  have hdigits := length_decimal_le (show 0 < 20 by decide)
    (hbody.trans (by norm_num : (2 : ℕ) ^ 64 < 10 ^ 20))
  have hconn : 13 ∉ connState alive ∧ (connState alive).length ≤ 10 := by
    cases alive <;> decide
  have hnames : contentLengthMarker.length = 16 ∧ (ascii "HTTP/1.1 200 OK").length = 15 ∧
      (ascii "Content-Type: ").length = 14 ∧ (ascii "Connection: ").length = 12 ∧
      (ascii "Keep-Alive: timeout=3, max=100").length = 30 := by decide
  apply framed_of_lines (ascii "HTTP/1.1 200 OK") (ascii "Content-Type: " ++ mimeType)
    [ascii "Connection: " ++ connState alive, ascii "Keep-Alive: timeout=3, max=100"]
  · rw [hheader, okHeader]
    simp only [headerOfLines, List.flatMap_cons, List.flatMap_nil, List.append_assoc]
    rfl
  · decide
  · rw [List.mem_append, not_or]
    exact ⟨by simp [ascii], by decide, hmime⟩
  · intro line hmem
    simp only [List.mem_cons, List.not_mem_nil, or_false] at hmem
    rcases hmem with rfl | rfl
    · rw [List.mem_append, not_or]
      exact ⟨by simp [ascii], by decide, hconn.1⟩
    · decide
  · simp only [headerOfLines, List.flatMap_cons, List.flatMap_nil, List.length_append,
      List.length_cons, List.length_nil, hnames]
    omega

theorem framed_sendHttpError (statusCode : ℕ) {statusText : Bytes}
    (hstatus : 13 ∉ ascii "HTTP/1.1 " ++
        (decimal statusCode ++ (ascii " " ++ statusText)) ∧
      behind contentLengthMarker
        (ascii "HTTP/1.1 " ++ (decimal statusCode ++ (ascii " " ++ statusText))) = none)
    (hshort : (ascii "HTTP/1.1 " ++
      (decimal statusCode ++ (ascii " " ++ statusText))).length ≤ 100)
    (description : Bytes) (keepAlive : Bool) :
    (sendHttpError statusCode statusText description keepAlive).Framed := by
  have hhtml := length_getErrorHtml statusCode statusText description
  have hdigits : (decimal
      (getErrorHtml statusCode statusText description).length).length ≤ 4 :=
    length_decimal_le (by omega) (by omega)
  have hconn : (if statusCode = 400 then ascii "close" else connState keepAlive) =
      connState (if statusCode = 400 then false else keepAlive) := by
    split_ifs <;> rfl
  generalize halive : (if statusCode = 400 then false else keepAlive) = alive at hconn
  have hstate : 13 ∉ connState alive ∧ (connState alive).length ≤ 10 := by
    cases alive <;> decide
  have hnames : contentLengthMarker.length = 16 ∧
      (ascii "Content-Type: text/html").length = 23 ∧
      (ascii "Connection: ").length = 12 := by decide
  apply framed_of_lines
    (ascii "HTTP/1.1 " ++ (decimal statusCode ++ (ascii " " ++ statusText)))
    (ascii "Content-Type: text/html") [ascii "Connection: " ++ connState alive]
  · unfold sendHttpError
    simp only [hconn, headerOfLines, List.flatMap_cons, List.flatMap_nil,
      List.append_assoc]
    rfl
  · exact ⟨by simp [ascii], hstatus⟩
  · decide
  · intro line hmem
    rw [List.mem_singleton] at hmem
    subst hmem
    rw [List.mem_append, not_or]
    exact ⟨by simp [ascii], by decide, hstate.1⟩
  · simp only [sendHttpError, headerOfLines, List.flatMap_cons, List.flatMap_nil,
      List.length_append, List.length_cons, List.length_nil, hnames] at hshort ⊢
    omega

theorem framed_postResponse (req : HttpRequest) : (postResponse req).Framed := by
  have hbody : (postResponse req).body.length < 512 := by
    unfold postResponse snprintf
    rw [List.length_take]
    omega
  exact framed_of_okHeader rfl (hbody.trans (by norm_num)) (by decide) (by decide)

/-- An entry that was read from a small file, under a type without a line end. -/
structure CacheEntry.Small (entry : CacheEntry) : Prop where
  filled : entry.Filled
  size : entry.size < 2 ^ 31
  mimeType : 13 ∉ entry.mimeType.text

/-- What `read_file` returns and what the cache loads stays below two gigabytes, and
`ftell` has not failed for it. -/
structure SmallFiles (files : Files) : Prop where
  loaded : ∀ path size content, readFile (files path) = some (size, content) →
    0 ≤ size ∧ size < 2 ^ 31
  cached : ∀ path st memory, (files path).opened = true →
    (files path).stat = some st → (files path).memory = some memory →
      ((files path).fread st.size).length < 2 ^ 31

theorem framed_cachedResponse {entry : CacheEntry} (hsmall : entry.Small)
    (req : HttpRequest) : (cachedResponse req entry).Framed := by
  have hsize := hsmall.size
  have hint : toInt entry.size = entry.size :=
    (toInt_eq_self_iff _).mpr ⟨by omega, by omega⟩
  have hbody : (cachedResponse req entry).body.length = entry.size := by
    rw [(cachedResponse_lengths hsmall.filled req).2, hint, Int.toNat_natCast]
  have hheader : (cachedResponse req entry).header = okHeader
      (cachedResponse req entry).body.length entry.mimeType.text
      (connState req.keepAlive) := by
    rw [hbody]
    rfl
  have hfits := entry.mimeType.fits
  exact framed_of_okHeader hheader (by omega) hsmall.mimeType (by omega)

theorem getMimeType_line (path : Bytes) :
    13 ∉ getMimeType path ∧ (getMimeType path).length ≤ 64 := by
  have hdefault : 13 ∉ defaultMimeType ∧ defaultMimeType.length ≤ 64 := by decide
  have htable : ∀ row ∈ mimeTypes, 13 ∉ row.2 ∧ row.2.length ≤ 64 := by decide
  exact getMimeType_mem (P := fun mime => 13 ∉ mime ∧ mime.length ≤ 64)
    hdefault htable path

theorem framed_diskResponse {files : Files} (hsmall : SmallFiles files)
    (req : HttpRequest) (path : Bytes) : (diskResponse req path (files path)).Framed := by
  cases hread : readFile (files path) with
  | none =>
      have hmissing : diskResponse req path (files path) = notFoundResponse req := by
        simp only [diskResponse, hread]
      rw [hmissing]
      exact framed_sendHttpError 404 (by decide) (by decide) _ _
  | some loaded =>
      obtain ⟨size, content⟩ := loaded
      obtain ⟨hnonneg, hlarge⟩ := hsmall.loaded path size content hread
      have hint : toInt size = size := (toInt_eq_self_iff _).mpr ⟨by omega, by omega⟩
      have hbody : ((diskResponse req path (files path)).body.length : ℤ) = size := by
        rw [diskResponse_of_readFile hread, sslWrite_length, hint,
          Int.toNat_of_nonneg hnonneg]
      have hheader : (diskResponse req path (files path)).header = okHeader
          (diskResponse req path (files path)).body.length (getMimeType path)
          (connState req.keepAlive) := by
        rw [hbody, diskResponse_of_readFile hread]
      obtain ⟨hmime, hshort⟩ := getMimeType_line path
      exact framed_of_okHeader hheader (by omega) hmime hshort

/-! ## The cache of small files -/

theorem small_of_fread {entry : CacheEntry} (hmime : 13 ∉ entry.mimeType.text)
    {io : FileAccess} {st : Stat} (hshort : (io.fread st.size).length < 2 ^ 31) :
    CacheEntry.Small { entry with
      content := some (io.fread st.size)
      size := (io.fread st.size).length
      lastModified := st.mtime } :=
  ⟨filled_of_fread entry io st, hshort, hmime⟩

theorem CacheEntry.Small.lithCacheHotReload {entry : CacheEntry} (hentry : entry.Small)
    {files : Files} (hsmall : SmallFiles files) (path : Bytes) :
    (lithCacheHotReload entry (files path)).2.Small := by
  rcases lithCacheHotReload_cases entry (files path) with
    hsame | ⟨st, memory, hopened, hstat, hmemory, hloaded⟩
  · rw [hsame]
    exact hentry
  · rw [hloaded]
    exact small_of_fread hentry.mimeType (hsmall.cached path st memory hopened hstat hmemory)

theorem CacheEntry.Small.refreshEntry {entry : CacheEntry} (hentry : entry.Small)
    {files : Files} (hsmall : SmallFiles files) (path : Bytes) :
    (refreshEntry files path entry).Small := by
  rcases refreshEntry_cases files path entry with hsame | hreload
  · rw [hsame]
    exact hentry
  · rw [hreload]
    exact hentry.lithCacheHotReload hsmall _

/-- The router keeps the cache and answers with proper headers. -/
theorem framed_handleHttpRoute {cache : LithCache} (hcache : cache.All CacheEntry.Small)
    {files : Files} (hsmall : SmallFiles files) (useCache : ℤ)
    (publicDir : CharArray 256) (req : HttpRequest) :
    (handleHttpRoute useCache publicDir files cache req).2.All CacheEntry.Small ∧
      ∀ response, (handleHttpRoute useCache publicDir files cache req).1 =
        some response → response.Framed := by
  unfold handleHttpRoute
  cases req.method with
  | post =>
      refine ⟨hcache, fun response hresponse => ?_⟩
      rw [← Option.some.inj hresponse]
      exact framed_postResponse req
  | unknown => exact ⟨hcache, by simp⟩
  | get =>
      simp only
      split_ifs
      · unfold serveFile
        split
        · rename_i idx hhit
          have hentry := (hcache idx (by
            split_ifs at hhit
            exact (lithCacheLookup_eq_some hhit).1)).refreshEntry hsmall
              (filePath publicDir req.path.text)
          refine ⟨hcache.setEntry hentry idx, fun response hresponse => ?_⟩
          rw [← Option.some.inj hresponse]
          exact framed_cachedResponse hentry req
        · refine ⟨hcache, fun response hresponse => ?_⟩
          rw [← Option.some.inj hresponse]
          exact framed_diskResponse hsmall req _
      · refine ⟨hcache, fun response hresponse => ?_⟩
        rw [← Option.some.inj hresponse]
        exact framed_sendHttpError 403 (by decide) (by decide) _ _

/-! ## A connection -/

variable {useCache : ℤ} {publicDir : CharArray 256} {connection : Connection}

def ConnectionLabel.disk : ConnectionLabel → Disk
  | .own disk _ => disk
  | .others disk _ => disk

/-- The connections of a server whose files are always of this kind. -/
def admittedSystem (Admits : Files → Prop) (useCache : ℤ) (publicDir : CharArray 256) :
    TransitionSystem Connection ConnectionLabel where
  start := fun connection =>
    connection.session = Session.initial ∧ connection.log = [] ∧
      ∃ files, Admits files ∧
        connection.cache = threadPoolInitCache publicDir.text files
  step := fun connection label after => Admits label.disk.files ∧
    (connectionSystem useCache publicDir).step connection label after

def Exchange.request : Exchange → Option Bytes
  | .read buffer => some buffer
  | _ => none

def Exchange.response : Exchange → Option HttpResponse
  | .answered response => some response
  | _ => none

/-- What the outer reads of the worker gave. -/
def Connection.requests (connection : Connection) : List Bytes :=
  connection.log.filterMap Exchange.request

def Connection.responses (connection : Connection) : List HttpResponse :=
  connection.log.filterMap Exchange.response

/-- The bytes that have been written to the client. -/
def Connection.sent (connection : Connection) : Bytes :=
  connection.responses.flatMap HttpResponse.bytes

theorem reachable_of_admitted {Admits : Files → Prop}
    (hreach : (admittedSystem Admits useCache publicDir).Reachable connection) :
    (connectionSystem useCache publicDir).Reachable connection := by
  induction hreach with
  | start hstart =>
      obtain ⟨hsession, hlog, files, -, hcache⟩ := hstart
      exact .start ⟨hsession, hlog, files, hcache⟩
  | next _ label hstep ih => exact ih.next label hstep.2

structure Connection.Sound (connection : Connection) : Prop where
  cache : connection.cache.All CacheEntry.Small
  responses : ∀ response ∈ connection.responses, response.Framed

theorem Connection.Sound.perform (hsound : connection.Sound) {files : Files}
    (hsmall : SmallFiles files) (event : SessionEvent) :
    (connection.perform useCache publicDir files event).Sound := by
  cases event with
  | parsed consumed buffer =>
      refine ⟨hsound.cache, ?_⟩
      simpa [Connection.perform, Connection.responses, Exchange.response] using
        hsound.responses
  | rejected =>
      refine ⟨hsound.cache, fun response hmem => ?_⟩
      simp only [Connection.perform, Connection.responses, List.filterMap_append,
        List.mem_append] at hmem
      rcases hmem with hold | hnew
      · exact hsound.responses response hold
      · have hbad : response = badRequestResponse := by
          simpa [Exchange.response] using hnew
        rw [hbad]
        exact framed_sendHttpError 400 (by decide) (by decide) _ _
  | routed req buffer =>
      obtain ⟨hcache, hframed⟩ :=
        framed_handleHttpRoute hsound.cache hsmall useCache publicDir req
      refine ⟨hcache, fun response hmem => ?_⟩
      simp only [Connection.perform, Connection.responses, List.filterMap_append,
        List.mem_append] at hmem
      rcases hmem with hold | hnew
      · exact hsound.responses response hold
      · apply hframed
        cases hanswer : (handleHttpRoute useCache publicDir files
            connection.cache req).1 <;>
          simp_all [Exchange.response]

theorem Connection.Sound.own (hsound : connection.Sound) {files : Files}
    (hsmall : SmallFiles files) (chunk : Bytes) :
    (connection.own useCache publicDir files chunk).Sound := by
  have hfold (events : List SessionEvent) {heard : Connection} (hheard : heard.Sound) :
      (events.foldl (Connection.perform useCache publicDir files) heard).Sound := by
    induction events generalizing heard with
    | nil => exact hheard
    | cons event events ih => exact ih (hheard.perform hsmall event)
  have hheard : Connection.Sound
      (if connection.session.phase = .reading ∧ chunk = [] then
        { connection with log := connection.log ++ [.hungUp] }
      else connection) := by
    split_ifs
    · refine ⟨hsound.cache, ?_⟩
      simpa [Connection.responses, Exchange.response] using hsound.responses
    · exact hsound
  obtain ⟨hcache, hresponses⟩ := hfold ((connection.session.step chunk).events.drop
    connection.session.events.length) hheard
  exact ⟨hcache, hresponses⟩

/-- The read that still has to be answered. -/
def Turn.unanswered : Turn → List Bytes
  | .serving first => [first]
  | _ => []

/-- The answers stand in the order of the reads, and at most one read has none. -/
theorem Dialogue.answers_in_order {turn : Turn} {log : List Exchange}
    (hlog : Dialogue useCache publicDir turn log) :
    ∃ answered, List.Forall₂ (ProperAnswer useCache publicDir) answered
        (log.filterMap Exchange.response) ∧
      log.filterMap Exchange.request = answered ++ turn.unanswered := by
  induction hlog with
  | opened => exact ⟨[], .nil, rfl⟩
  | asks first _ ih =>
      obtain ⟨answered, hproper, hrequests⟩ := ih
      refine ⟨answered, ?_, ?_⟩
      · simpa [Exchange.response, List.filterMap_cons] using hproper
      · simpa [Exchange.request, Turn.unanswered, List.filterMap_cons] using hrequests
  | @keeps _ first _ _ hanswer _ ih =>
      obtain ⟨answered, hproper, hrequests⟩ := ih
      refine ⟨answered ++ [first], ?_, ?_⟩
      · simpa [Exchange.response, List.filterMap_cons] using
          List.rel_append hproper (.cons hanswer .nil)
      · simpa [Exchange.request, Turn.unanswered, List.filterMap_cons] using hrequests
  | @closes _ first _ _ hanswer _ ih =>
      obtain ⟨answered, hproper, hrequests⟩ := ih
      refine ⟨answered ++ [first], ?_, ?_⟩
      · simpa [Exchange.response, List.filterMap_cons] using
          List.rel_append hproper (.cons hanswer .nil)
      · simpa [Exchange.request, Turn.unanswered, List.filterMap_cons] using hrequests
  | hangsUp _ ih =>
      obtain ⟨answered, hproper, hrequests⟩ := ih
      refine ⟨answered, ?_, ?_⟩
      · simpa [Exchange.response, List.filterMap_cons] using hproper
      · simpa [Exchange.request, Turn.unanswered, List.filterMap_cons] using hrequests

theorem Connection.Sound.writes (hsound : connection.Sound) :
    ∀ response ∈ connection.responses,
      responseReader.Writes response.received response.bytes :=
  fun response hmem => (hsound.responses response hmem).writes

/-- The requests and their answers, in the order of the log. -/
def AnswersInOrder (useCache : ℤ) (publicDir : CharArray 256) (requests : List Bytes)
    (responses : List HttpResponse) : Prop :=
  ∃ answered rest, requests = answered ++ rest ∧ rest.length ≤ 1 ∧
    List.Forall₂ (ProperAnswer useCache publicDir) answered responses

theorem answers_of_reachable {Admits : Files → Prop}
    (hreach : (admittedSystem Admits useCache publicDir).Reachable connection) :
    AnswersInOrder useCache publicDir connection.requests connection.responses := by
  obtain ⟨-, turn, -, hlog⟩ :=
    Connection.speaks_of_reachable (reachable_of_admitted hreach)
  obtain ⟨answered, hproper, hrequests⟩ := hlog.answers_in_order
  exact ⟨answered, _, hrequests, by cases turn <;> simp [Turn.unanswered], hproper⟩

/-- While the worker waits for a request, there is none without its answer. -/
theorem answers_of_reading {Admits : Files → Prop}
    (hreach : (admittedSystem Admits useCache publicDir).Reachable connection)
    (hphase : connection.session.phase = .reading) :
    List.Forall₂ (ProperAnswer useCache publicDir) connection.requests
      connection.responses := by
  obtain ⟨-, turn, hfollows, hlog⟩ :=
    Connection.speaks_of_reachable (reachable_of_admitted hreach)
  rw [hphase] at hfollows
  obtain ⟨answered, hproper, hrequests⟩ := hlog.answers_in_order
  cases turn with
  | waiting =>
      have hnone : Turn.waiting.unanswered = [] := rfl
      rw [hnone, List.append_nil] at hrequests
      rw [Connection.requests, hrequests]
      exact hproper
  | _ => exact hfollows.elim

end Lith
