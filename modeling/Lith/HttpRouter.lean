import Lith.Cache
import Lith.HttpParser

/-!
# The HTTP router

`handle_http_route` and `send_http_error` as functions from a request, the
answers of the file system and the cache to the bytes that are written and
the cache afterwards.  A `GET` touches one file only, the one named by
`filePath`: the lookup, the `stat`, the reload and the disk fallback all use
that path.
-/

namespace Lith

open CString

structure HttpResponse where
  status : ℕ
  header : Bytes
  body : Bytes
  deriving DecidableEq

def HttpResponse.bytes (response : HttpResponse) : Bytes :=
  response.header ++ response.body

def connState (keepAlive : Bool) : Bytes :=
  if keepAlive then ascii "keep-alive" else ascii "close"

def sendHttpError (statusCode : ℕ) (statusText description : Bytes)
    (keepAlive : Bool) : HttpResponse :=
  let html := getErrorHtml statusCode statusText description
  let conn := if statusCode = 400 then ascii "close" else connState keepAlive
  { status := statusCode
    header := snprintf 384 <|
      ascii "HTTP/1.1 " ++ decimal statusCode ++ ascii " " ++ statusText ++
      ascii "\r\nContent-Length: " ++ decimal html.length ++
      ascii "\r\nContent-Type: text/html\r\nConnection: " ++ conn ++
      ascii "\r\n\r\n"
    body := html }

def okHeader (length : ℤ) (mimeType conn : Bytes) : Bytes :=
  snprintf 384 <|
    ascii "HTTP/1.1 200 OK\r\nContent-Length: " ++ decimal length ++
    ascii "\r\nContent-Type: " ++ mimeType ++
    ascii "\r\nConnection: " ++ conn ++
    ascii "\r\nKeep-Alive: timeout=3, max=100\r\n\r\n"

def postResponse (req : HttpRequest) : HttpResponse :=
  let responseBody := snprintf 512 <|
    ascii "\x7b\"status\":\"success\",\"message\":\"Data received successfully secure by LITH\",\"bytes_processed\":" ++
    decimal req.contentLength ++ ascii "\x7d"
  { status := 200
    header := okHeader responseBody.length (ascii "application/json")
      (connState req.keepAlive)
    body := responseBody }

def forbiddenResponse (req : HttpRequest) : HttpResponse :=
  sendHttpError 403 (ascii "Forbidden")
    (ascii "Access to this resource is strictly prohibited.") req.keepAlive

def notFoundResponse (req : HttpRequest) : HttpResponse :=
  sendHttpError 404 (ascii "Not Found")
    (ascii "The requested URL or resource could not be located on this server.")
    req.keepAlive

def rootTarget : Bytes := ascii "/"

def indexTarget : Bytes := ascii "/index.html"

/-- `file_path` after the `strncpy` and the `strcat`. -/
def filePath (publicDir : CharArray 256) (path : Bytes) : Bytes :=
  publicDir.text.take 511 ++ if path = rootTarget then indexTarget else path

def cachedResponse (req : HttpRequest) (entry : CacheEntry) : HttpResponse where
  status := 200
  header := okHeader entry.size entry.mimeType.text (connState req.keepAlive)
  body := (entry.content.getD []).take (toInt entry.size).toNat

def diskResponse (req : HttpRequest) (path : Bytes) (io : FileAccess) :
    HttpResponse :=
  match readFile io with
  | some (fileSize, fileContent) =>
      { status := 200
        header := okHeader fileSize (getMimeType path) (connState req.keepAlive)
        body := sslWrite fileContent (toInt fileSize) }
  | none => notFoundResponse req

def refreshEntry (files : Files) (path : Bytes) (entry : CacheEntry) :
    CacheEntry :=
  match (files path).stat with
  | some st =>
      if entry.lastModified < st.mtime then
        (lithCacheHotReload entry (files entry.filepath.text)).2
      else entry
  | none => entry

def serveFile (useCache : ℤ) (files : Files) (cache : LithCache)
    (req : HttpRequest) (path : Bytes) : HttpResponse × LithCache :=
  match if useCache = 1 then lithCacheLookup cache path else none with
  | some idx =>
      let entry := refreshEntry files path (cache.entries idx)
      (cachedResponse req entry, cache.setEntry idx entry)
  | none => (diskResponse req path (files path), cache)

/-- `handle_http_route`; a request with an unknown method gets no answer. -/
def handleHttpRoute (useCache : ℤ) (publicDir : CharArray 256) (files : Files)
    (cache : LithCache) (req : HttpRequest) :
    Option HttpResponse × LithCache :=
  match req.method with
  | .post => (some (postResponse req), cache)
  | .get =>
      if isSafePath req.path.text then
        let served := serveFile useCache files cache req
          (filePath publicDir req.path.text)
        (some served.1, served.2)
      else (some (forbiddenResponse req), cache)
  | .unknown => (none, cache)

/-- The cache as `thread_pool_init` fills it. -/
def threadPoolInitCache (publicDir : Bytes) (files : Files) : LithCache :=
  let indexPath := snprintf 512 (publicDir ++ ascii "/index.html")
  let stylePath := snprintf 512 (publicDir ++ ascii "/style.css")
  let withIndex := (lithCacheAdd (lithCacheInit LithCache.zero) indexPath
    (ascii "text/html") (files indexPath)).2
  (lithCacheAdd withIndex stylePath (ascii "text/css") (files stylePath)).2

theorem filePath_eq (publicDir : CharArray 256) (path : Bytes) :
    filePath publicDir path =
      publicDir.text ++ if path = rootTarget then indexTarget else path := by
  have hlen : publicDir.text.length ≤ 511 := by
    have hfits := publicDir.fits
    omega
  simp [filePath, List.take_of_length_le hlen]

/-- The path that the router passes to the cache lookup, to `stat` and to
`read_file`, if the request gets that far. -/
def routedFile (publicDir : CharArray 256) (req : HttpRequest) : Option Bytes :=
  if req.method = .get ∧ isSafePath req.path.text = true then
    some (filePath publicDir req.path.text)
  else none

theorem serveFile_congr_files (useCache : ℤ) {files files' : Files}
    (cache : LithCache) (req : HttpRequest) {path : Bytes}
    (hsame : files' path = files path) :
    serveFile useCache files' cache req path =
      serveFile useCache files cache req path := by
  unfold serveFile
  split
  · rename_i idx hhit
    have hkey : (cache.entries idx).filepath.text = path := by
      split_ifs at hhit
      exact (lithCacheLookup_eq_some hhit).2.2
    simp [refreshEntry, hkey, hsame]
  · rw [hsame]

/-- The router looks at no other file than `routedFile`. -/
theorem handleHttpRoute_congr_files (useCache : ℤ) (publicDir : CharArray 256)
    {files files' : Files} (cache : LithCache) (req : HttpRequest)
    (hsame : ∀ path, routedFile publicDir req = some path →
      files' path = files path) :
    handleHttpRoute useCache publicDir files' cache req =
      handleHttpRoute useCache publicDir files cache req := by
  unfold handleHttpRoute
  cases hmethod : req.method with
  | post => rfl
  | unknown => rfl
  | get =>
      simp only
      split_ifs with hsafe
      · have hrouted : routedFile publicDir req =
            some (filePath publicDir req.path.text) := by
          simp [routedFile, hmethod, hsafe]
        rw [serveFile_congr_files useCache cache req (hsame _ hrouted)]
      · rfl

end Lith
