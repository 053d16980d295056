import Lith.CacheTransparency
import Lith.Decimal
import Lith.HeadParsing
import Lith.MarkerSearch

/-!
# What a response announces

Every response states in its `Connection` line whether the connection is kept.
The line is the fourth one of the header; the lines before it carry a number
and a media type, which contain no blank, so the search for the line stops at
the line itself, and no header is long enough to be cut.  The media types come
from the table of the server or from `thread_pool_init`, and a reload of an
entry keeps its type.
-/

namespace Lith

open CString

def connectionMarker : Bytes := ascii "Connection: "

/-- The value of the `Connection` line, when it is one of the two. -/
def announced (response : HttpResponse) : Option Bool :=
  (behind connectionMarker response.header).bind fun rest =>
    if rest.takeWhile (· ≠ 13) = ascii "keep-alive" then some true
    else if rest.takeWhile (· ≠ 13) = ascii "close" then some false
    else none

def badRequestResponse : HttpResponse :=
  sendHttpError 400 (ascii "Bad Request")
    (ascii "Malformed HTTP request protocol.") false

/-! ## The search for the line -/

/-- A field with a name that does not end in the marker's word. -/
theorem behind_connectionMarker_field {name value : Bytes} (hname : 32 ∉ name)
    (hother : ¬ascii "Connection:" <:+ name) (hvalue : 32 ∉ value) :
    behind connectionMarker (name ++ 32 :: value) = none := by
  have hmarker : connectionMarker = ascii "Connection:" ++ [32] := by decide
  rw [hmarker, behind_name (by decide) hname, if_neg hother]
  apply behind_eq_none
  intro hinside
  exact hvalue (hinside.subset (by simp))

theorem behind_connectionMarker_line {line : Bytes}
    (hline : behind connectionMarker line = none) (rest : Bytes) :
    behind connectionMarker (line ++ 13 :: rest) =
      behind connectionMarker rest := by
  rw [behind_append_mark (by decide) (by decide), hline]
  rfl

/-- The header text of all responses. -/
def headerText (status length mimeType conn rest : Bytes) : Bytes :=
  status ++ (ascii "\r\nContent-Length: " ++ (length ++
    (ascii "\r\nContent-Type: " ++ (mimeType ++
      (ascii "\r\nConnection: " ++ (conn ++ rest))))))

theorem behind_headerText {status length mimeType : Bytes}
    (hstatus : behind connectionMarker status = none) (hlength : 32 ∉ length)
    (hmime : 32 ∉ mimeType) (conn rest : Bytes) :
    behind connectionMarker (headerText status length mimeType conn rest) =
      some (conn ++ rest) := by
  have hlengthLine : behind connectionMarker
      (ascii "\nContent-Length:" ++ 32 :: length) = none :=
    behind_connectionMarker_field (by decide) (by decide) hlength
  have htypeLine : behind connectionMarker
      (ascii "\nContent-Type:" ++ 32 :: mimeType) = none :=
    behind_connectionMarker_field (by decide) (by decide) hmime
  have hconnection : behind connectionMarker (ascii "\nConnection: ") = some [] := by
    decide
  have htext : headerText status length mimeType conn rest =
      status ++ 13 :: ((ascii "\nContent-Length:" ++ 32 :: length) ++
        13 :: ((ascii "\nContent-Type:" ++ 32 :: mimeType) ++
          13 :: (ascii "\nConnection: " ++ (conn ++ rest)))) := by
    have hsplit (name : Bytes) (value others : Bytes) :
        (name ++ 32 :: value) ++ others = name ++ [32] ++ (value ++ others) := by
      simp
    rw [hsplit, hsplit]
    rfl
  rw [htext, behind_connectionMarker_line hstatus,
    behind_connectionMarker_line hlengthLine,
    behind_connectionMarker_line htypeLine, behind_append_of_some hconnection]
  rfl

theorem announced_of_header {response : HttpResponse}
    {status length mimeType rest : Bytes} {alive : Bool}
    (hheader : response.header = snprintf 384
      (headerText status length mimeType (connState alive) (13 :: rest)))
    (hstatus : behind connectionMarker status = none) (hlength : 32 ∉ length)
    (hmime : 32 ∉ mimeType)
    (hfits : status.length + length.length + mimeType.length + rest.length ≤ 300) :
    announced response = some alive := by
  have hconn : (connState alive).length ≤ 10 := by cases alive <;> decide
  have hnames : (ascii "\r\nContent-Length: ").length = 18 ∧
      (ascii "\r\nContent-Type: ").length = 16 ∧
      (ascii "\r\nConnection: ").length = 14 := by decide
  have hwhole : response.header =
      headerText status length mimeType (connState alive) (13 :: rest) := by
    rw [hheader]
    unfold snprintf
    apply List.take_of_length_le
    simp only [headerText, List.length_append, List.length_cons, hnames]
    omega
  have hvalue : 13 ∉ connState alive := by cases alive <;> decide
  unfold announced
  rw [hwhole, behind_headerText hstatus hlength hmime, Option.bind_some,
    takeWhile_ne_append hvalue]
  cases alive <;> rfl

theorem blank_notMem_decimal (value : ℤ) : 32 ∉ decimal value :=
  notMem_decimal (by decide) (by decide) value

/-! ## The responses -/

theorem announced_of_okHeader {response : HttpResponse} {length : ℤ}
    {mimeType : Bytes} {alive : Bool}
    (hheader : response.header = okHeader length mimeType (connState alive))
    (hlength : (decimal length).length ≤ 20) (hmime : 32 ∉ mimeType)
    (hshort : mimeType.length ≤ 64) : announced response = some alive := by
  have hrest : (ascii "\nKeep-Alive: timeout=3, max=100\r\n\r\n").length ≤ 40 := by
    decide
  have hstatus : (ascii "HTTP/1.1 200 OK").length = 15 := by decide
  have htext : response.header = snprintf 384 (headerText
      (ascii "HTTP/1.1 200 OK") (decimal length) mimeType (connState alive)
      (13 :: ascii "\nKeep-Alive: timeout=3, max=100\r\n\r\n")) := by
    rw [hheader]
    unfold okHeader headerText
    simp only [List.append_assoc]
    rfl
  exact announced_of_header htext (by decide) (blank_notMem_decimal length) hmime
    (by omega)

theorem length_getErrorHtml (statusCode : ℤ) (title message : Bytes) :
    (getErrorHtml statusCode title message).length < 2048 := by
  unfold getErrorHtml snprintf
  rw [List.length_take]
  omega

theorem announced_sendHttpError (statusCode : ℕ) {statusText : Bytes}
    (hstatus : behind connectionMarker
      (ascii "HTTP/1.1 " ++ (decimal statusCode ++ (ascii " " ++ statusText))) = none)
    (hshort : (ascii "HTTP/1.1 " ++
      (decimal statusCode ++ (ascii " " ++ statusText))).length ≤ 100)
    (description : Bytes) (keepAlive : Bool) :
    announced (sendHttpError statusCode statusText description keepAlive) =
      some (if statusCode = 400 then false else keepAlive) := by
  have hhtml := length_getErrorHtml statusCode statusText description
  have hlength : (decimal
      (getErrorHtml statusCode statusText description).length).length ≤ 4 :=
    length_decimal_le (by omega) (by omega)
  have hconn : (if statusCode = 400 then ascii "close" else connState keepAlive) =
      connState (if statusCode = 400 then false else keepAlive) := by
    split_ifs <;> rfl
  have htext : (sendHttpError statusCode statusText description keepAlive).header =
      snprintf 384 (headerText
        (ascii "HTTP/1.1 " ++ (decimal statusCode ++ (ascii " " ++ statusText)))
        (decimal (getErrorHtml statusCode statusText description).length)
        (ascii "text/html")
        (connState (if statusCode = 400 then false else keepAlive))
        (13 :: ascii "\n\r\n")) := by
    unfold sendHttpError headerText
    simp only [hconn, List.append_assoc]
    rfl
  have hrest : (ascii "\n\r\n").length = 3 := by decide
  have hmime : (ascii "text/html").length = 9 := by decide
  exact announced_of_header htext hstatus (blank_notMem_decimal _) (by decide)
    (by omega)

theorem announced_badRequestResponse : announced badRequestResponse = some false :=
  announced_sendHttpError 400 (by decide) (by decide) _ false

/-! ## The router -/

/-- What `thread_pool_init` puts into an entry and a reload keeps. -/
def PlainEntry (entry : CacheEntry) : Prop :=
  32 ∉ entry.mimeType.text ∧ entry.size < 2 ^ 64

/-- A file system whose files end within the range of `long`. -/
structure Disk where
  files : Files
  positions : ∀ path, longMin ≤ (files path).endPosition ∧
    (files path).endPosition ≤ longMax

theorem getMimeType_plain (path : Bytes) :
    32 ∉ getMimeType path ∧ (getMimeType path).length ≤ 64 := by
  have hdefault : 32 ∉ defaultMimeType ∧ defaultMimeType.length ≤ 64 := by decide
  have htable : ∀ row ∈ mimeTypes, 32 ∉ row.2 ∧ row.2.length ≤ 64 := by decide
  exact getMimeType_mem (P := fun mime => 32 ∉ mime ∧ mime.length ≤ 64)
    hdefault htable path

theorem length_fread_lt (io : FileAccess) (size : ℤ) :
    (io.fread size).length < 2 ^ 64 := by
  unfold FileAccess.fread sizeT
  rw [List.length_take]
  omega

theorem plainEntry_lithCacheHotReload {entry : CacheEntry} (hplain : PlainEntry entry)
    (io : FileAccess) : PlainEntry (lithCacheHotReload entry io).2 := by
  refine ⟨by simpa using hplain.1, ?_⟩
  rcases lithCacheHotReload_cases entry io with hsame | ⟨st, memory, -, -, -, hloaded⟩
  · rw [hsame]
    exact hplain.2
  · rw [hloaded]
    exact length_fread_lt _ _

theorem plainEntry_refreshEntry {entry : CacheEntry} (hplain : PlainEntry entry)
    (files : Files) (path : Bytes) :
    PlainEntry (refreshEntry files path entry) := by
  rcases refreshEntry_cases files path entry with hsame | hreload
  · rw [hsame]
    exact hplain
  · rw [hreload]
    exact plainEntry_lithCacheHotReload hplain _

theorem plainEntry_loadedEntry {mimeType : Bytes} (hmime : 32 ∉ mimeType)
    (filepath : Bytes) (io : FileAccess) (st : Stat) :
    PlainEntry (loadedEntry filepath mimeType io st) := by
  refine ⟨?_, length_fread_lt _ _⟩
  intro hmem
  exact hmime (List.takeWhile_subset _ (List.mem_of_mem_take hmem))

theorem plainCache_init (publicDir : Bytes) (files : Files) :
    (threadPoolInitCache publicDir files).All PlainEntry := by
  unfold threadPoolInitCache
  apply LithCache.All.lithCacheAdd
  · apply LithCache.All.lithCacheAdd
    · exact LithCache.all_init PlainEntry LithCache.zero
    · intro st memory _ _
      exact plainEntry_loadedEntry (by decide) _ _ _
  · intro st memory _ _
    exact plainEntry_loadedEntry (by decide) _ _ _

theorem plainCache_handleHttpRoute {cache : LithCache}
    (hplain : cache.All PlainEntry) (useCache : ℤ) (publicDir : CharArray 256)
    (files : Files) (req : HttpRequest) :
    (handleHttpRoute useCache publicDir files cache req).2.All PlainEntry := by
  unfold handleHttpRoute
  cases req.method with
  | post => exact hplain
  | unknown => exact hplain
  | get =>
      simp only
      split_ifs
      · unfold serveFile
        split
        · rename_i idx hhit
          apply hplain.setEntry
          apply plainEntry_refreshEntry
          split_ifs at hhit
          exact hplain idx (lithCacheLookup_eq_some hhit).1
        · exact hplain
      · exact hplain

theorem announced_diskResponse (disk : Disk) (req : HttpRequest) (path : Bytes) :
    announced (diskResponse req path (disk.files path)) = some req.keepAlive := by
  unfold diskResponse
  split
  · rename_i fileSize fileContent hread
    have hsize := (readFile_eq_some hread).1
    obtain ⟨hlow, hhigh⟩ := disk.positions path
    obtain ⟨hblank, hshort⟩ := getMimeType_plain path
    exact announced_of_okHeader rfl
      (length_decimal_long (hsize ▸ hlow) (hsize ▸ hhigh)) hblank hshort
  · exact announced_sendHttpError 404 (by decide) (by decide) _ _

theorem announced_cachedResponse {entry : CacheEntry} (hplain : PlainEntry entry)
    (req : HttpRequest) :
    announced (cachedResponse req entry) = some req.keepAlive := by
  have hsize : (decimal entry.size).length ≤ 20 :=
    length_decimal_le (by omega) (hplain.2.trans (by norm_num))
  have hfits := entry.mimeType.fits
  exact announced_of_okHeader rfl hsize hplain.1 (by omega)

theorem announced_postResponse {req : HttpRequest} :
    announced (postResponse req) = some req.keepAlive := by
  have hbody : (postResponse req).body.length < 10 ^ 20 := by
    unfold postResponse snprintf
    rw [List.length_take]
    omega
  exact announced_of_okHeader rfl (length_decimal_le (by omega) hbody) (by decide)
    (by decide)

/-- The router answers every parsed request, and the answer announces what the
request asked for. -/
theorem exists_announced_handleHttpRoute {cache : LithCache}
    (hplain : cache.All PlainEntry) (useCache : ℤ) (publicDir : CharArray 256)
    (disk : Disk) {buffer : Bytes} {req : HttpRequest}
    (hparse : parseHttpRequest buffer = some req) :
    ∃ response, (handleHttpRoute useCache publicDir disk.files cache req).1 =
        some response ∧ announced response = some req.keepAlive := by
  unfold handleHttpRoute
  cases hmethod : req.method with
  | post => exact ⟨_, rfl, announced_postResponse⟩
  | unknown =>
      rcases parseHttpRequest_eq_some hparse with ⟨-, rfl⟩ | ⟨-, rfl⟩ <;>
        simp [parseFields] at hmethod
  | get =>
      simp only
      split_ifs
      · refine ⟨_, rfl, ?_⟩
        unfold serveFile
        split
        · rename_i idx hhit
          apply announced_cachedResponse
          apply plainEntry_refreshEntry
          split_ifs at hhit
          exact hplain idx (lithCacheLookup_eq_some hhit).1
        · exact announced_diskResponse disk req _
      · exact ⟨_, rfl, announced_sendHttpError 403 (by decide) (by decide) _ _⟩

end Lith
