import Lith.CacheVersions
import Lith.HttpRouter

/-!
# The cache and the disk path answer alike

A history mixes requests with changes of the file system between them.  While
the two cached files stay regular files and no content is older by its time than
a different one before it, an entry that is not newer than its file holds the
content of the file, and a hit sends the bytes that reading the file would have
sent.  It is not enough that each change of the content moves the time forward:
the time may have gone back before.  When a cached file may disappear, a hit is
answered from memory even if the file is gone.
-/

namespace Lith

open CString

inductive ServerEvent where
  | request (req : HttpRequest)
  | change (files : Files)

/-- The answers of the router over a history, one for each request. -/
def serve (useCache : ℤ) (publicDir : CharArray 256) :
    Files → LithCache → List ServerEvent → List (Option HttpResponse)
  | _, _, [] => []
  | files, cache, .request req :: events =>
      let routed := handleHttpRoute useCache publicDir files cache req
      routed.1 :: serve useCache publicDir files routed.2 events
  | _, cache, .change files :: events =>
      serve useCache publicDir files cache events

def cachedPaths (publicDir : Bytes) : List Bytes :=
  [snprintf 512 (publicDir ++ ascii "/index.html"),
    snprintf 512 (publicDir ++ ascii "/style.css")]

/-- What the path names at the start and after each change. -/
def fileHistory (path : Bytes) : Files → List ServerEvent → List FileAccess
  | files, [] => [files path]
  | files, .request _ :: events => fileHistory path files events
  | files, .change files' :: events =>
      files path :: fileHistory path files' events

/-- The path names a regular file throughout, in these versions. -/
def HasVersions (path : Bytes) (files : Files) (events : List ServerEvent)
    (versions : List FileVersion) : Prop :=
  List.Forall₂ (fun io version => ∃ memory, io = FileVersion.io version memory)
    (fileHistory path files events) versions

/-- The times tell a change of the content. -/
def FileVersion.Dated (old new : FileVersion) : Prop :=
  new.content = old.content ∨ old.mtime < new.mtime

/-- Every change of the content moves the time forward. -/
def ChangesDated (path : Bytes) (files : Files) (events : List ServerEvent) : Prop :=
  ∃ versions, HasVersions path files events versions ∧
    versions.IsChain FileVersion.Dated

/-- A content that differs from one before has a later time than that one. -/
def Maintained (path : Bytes) (files : Files) (events : List ServerEvent) : Prop :=
  ∃ versions, HasVersions path files events versions ∧
    versions.Pairwise FileVersion.Dated

/-- The entry holds a version that the given ones tell from themselves. -/
def EntryFollows (versions : List FileVersion) (entry : CacheEntry) : Prop :=
  entry.mimeType.text = getMimeType entry.filepath.text ∧
    ∃ loaded, entry.Holds loaded ∧ ∀ version ∈ versions, loaded.Dated version

def CacheFollows (publicDir : Bytes) (versions : Bytes → List FileVersion)
    (cache : LithCache) : Prop :=
  cache.All fun entry =>
    entry.filepath.text ∈ cachedPaths publicDir ∧
      EntryFollows (versions entry.filepath.text) entry

/-- From now on the cached files are in these versions. -/
def Ahead (publicDir : Bytes) (files : Files) (events : List ServerEvent)
    (versions : Bytes → List FileVersion) : Prop :=
  ∀ path ∈ cachedPaths publicDir, HasVersions path files events (versions path) ∧
    (versions path).Pairwise FileVersion.Dated

theorem HasVersions.current {path : Bytes} {files : Files}
    {events : List ServerEvent} {versions : List FileVersion}
    (hversions : HasVersions path files events versions) :
    ∃ version later memory, versions = version :: later ∧
      files path = FileVersion.io version memory := by
  induction events with
  | nil =>
      cases hversions with
      | cons hfirst _ =>
          obtain ⟨memory, hfile⟩ := hfirst
          exact ⟨_, _, memory, rfl, hfile⟩
  | cons event events ih =>
      cases event with
      | request req => exact ih hversions
      | change files' =>
          cases hversions with
          | cons hfirst _ =>
              obtain ⟨memory, hfile⟩ := hfirst
              exact ⟨_, _, memory, rfl, hfile⟩

theorem Ahead.change {publicDir : Bytes} {files files' : Files}
    {events : List ServerEvent} {versions : Bytes → List FileVersion}
    (hahead : Ahead publicDir files (.change files' :: events) versions) :
    Ahead publicDir files' events fun path => (versions path).tail := by
  intro path hpath
  obtain ⟨hversions, hdated⟩ := hahead path hpath
  unfold HasVersions at hversions ⊢
  cases hcases : versions path with
  | nil =>
      rw [hcases] at hversions
      cases hversions
  | cons version later =>
      rw [hcases] at hversions hdated
      simp only [hcases, List.tail_cons]
      cases hversions with
      | cons _ hrest => exact ⟨hrest, hdated.of_cons⟩

/-! ## Answering from an entry -/

theorem toInt_natCast_le (n : ℕ) : toInt n ≤ n := by
  unfold toInt
  rw [Int.bmod_def]
  push_cast
  split_ifs <;> omega

theorem diskResponse_io (req : HttpRequest) (path : Bytes)
    (version : FileVersion) (memory : ℕ → UInt8) :
    diskResponse req path (version.io memory) =
      { status := 200
        header := okHeader version.content.length (getMimeType path)
          (connState req.keepAlive)
        body := version.content.take (toInt version.content.length).toNat } := by
  have hread : readFile (version.io memory) =
      some ((version.content.length : ℤ),
        overwrite memory (version.content ++ [0])) := by
    have hfread : readFile (version.io memory) =
        some ((version.content.length : ℤ), overwrite memory
          ((version.io memory).fread version.status.size ++ [0])) := rfl
    rw [hfread, version.fread_size]
  have hle := toInt_natCast_le version.content.length
  have hwrite : sslWrite (overwrite memory (version.content ++ [0]))
      (toInt version.content.length) =
        version.content.take (toInt version.content.length).toNat := by
    rw [sslWrite_toNat]
    apply sslWrite_overwrite
    omega
  simp only [diskResponse, hread, hwrite]

theorem cachedResponse_eq_diskResponse {entry : CacheEntry} {version : FileVersion}
    (hcontent : entry.content = some version.content)
    (hsize : entry.size = version.content.length)
    (hmime : entry.mimeType.text = getMimeType entry.filepath.text)
    (req : HttpRequest) (memory : ℕ → UInt8) :
    cachedResponse req entry =
      diskResponse req entry.filepath.text (version.io memory) := by
  rw [diskResponse_io]
  simp only [cachedResponse, hcontent, hsize, hmime, Option.getD_some]

theorem refreshEntry_cases (files : Files) (path : Bytes) (entry : CacheEntry) :
    refreshEntry files path entry = entry ∨
      refreshEntry files path entry =
        (lithCacheHotReload entry (files entry.filepath.text)).2 := by
  unfold refreshEntry
  split
  · split_ifs
    · exact Or.inr rfl
    · exact Or.inl rfl
  · exact Or.inl rfl

@[simp] theorem refreshEntry_filepath (files : Files) (path : Bytes)
    (entry : CacheEntry) :
    (refreshEntry files path entry).filepath = entry.filepath := by
  rcases refreshEntry_cases files path entry with h | h <;> simp [h]

@[simp] theorem refreshEntry_mimeType (files : Files) (path : Bytes)
    (entry : CacheEntry) :
    (refreshEntry files path entry).mimeType = entry.mimeType := by
  rcases refreshEntry_cases files path entry with h | h <;> simp [h]

@[simp] theorem refreshEntry_isActive (files : Files) (path : Bytes)
    (entry : CacheEntry) :
    (refreshEntry files path entry).isActive = entry.isActive := by
  rcases refreshEntry_cases files path entry with h | h <;> simp [h]

/-- After the comparison of the times the entry has the content of the file. -/
theorem EntryFollows.refresh {files : Files} {entry : CacheEntry}
    {current : FileVersion} {later : List FileVersion} {memory : ℕ → UInt8}
    (hfollows : EntryFollows (current :: later) entry)
    (hfile : files entry.filepath.text = current.io memory)
    (hdated : (current :: later).Pairwise FileVersion.Dated) :
    EntryFollows (current :: later) (refreshEntry files entry.filepath.text entry) ∧
      (refreshEntry files entry.filepath.text entry).content = some current.content ∧
      (refreshEntry files entry.filepath.text entry).size =
        current.content.length := by
  obtain ⟨hmime, loaded, hholds, hfrom⟩ := hfollows
  have hrefresh : refreshEntry files entry.filepath.text entry =
      if entry.lastModified < current.mtime then
        (lithCacheHotReload entry (current.io memory)).2
      else entry := by
    unfold refreshEntry
    rw [hfile]
    rfl
  by_cases hstale : entry.lastModified < current.mtime
  · rw [if_pos hstale] at hrefresh
    have hfresh := current.lithCacheHotReload_holds entry memory
    rw [hrefresh]
    refine ⟨⟨hmime, current, hfresh, ?_⟩, hfresh.content, hfresh.size⟩
    intro version hversion
    rcases List.mem_cons.mp hversion with rfl | hlater
    · exact Or.inl rfl
    · exact List.rel_of_pairwise_cons hdated hlater
  · rw [if_neg hstale] at hrefresh
    have hsame : current.content = loaded.content := by
      refine (hfrom current List.mem_cons_self).resolve_right ?_
      rwa [← hholds.lastModified]
    rw [hrefresh, hsame]
    exact ⟨⟨hmime, loaded, hholds, hfrom⟩, hholds.content, hholds.size⟩

/-! ## One request -/

theorem serveFile_zero (files : Files) (cache : LithCache) (req : HttpRequest)
    (path : Bytes) :
    serveFile 0 files cache req path =
      (diskResponse req path (files path), cache) := rfl

theorem CacheFollows.serveFile {publicDir : Bytes} {files : Files}
    {events : List ServerEvent} {versions : Bytes → List FileVersion}
    {cache : LithCache} (hfollows : CacheFollows publicDir versions cache)
    (hahead : Ahead publicDir files events versions) (req : HttpRequest)
    (path : Bytes) :
    (serveFile 1 files cache req path).1 =
        diskResponse req path (files path) ∧
      CacheFollows publicDir versions
        (Lith.serveFile 1 files cache req path).2 := by
  unfold Lith.serveFile
  rw [if_pos rfl]
  cases hlookup : lithCacheLookup cache path with
  | none => exact ⟨rfl, hfollows⟩
  | some idx =>
      obtain ⟨hcount, -, rfl⟩ := lithCacheLookup_eq_some hlookup
      obtain ⟨hpath, hentry⟩ := hfollows idx hcount
      obtain ⟨hversions, hdated⟩ := hahead _ hpath
      obtain ⟨current, later, memory, hcurrent, hfile⟩ := hversions.current
      rw [hcurrent] at hentry hdated
      obtain ⟨hnext, hcontent, hsize⟩ := hentry.refresh hfile hdated
      constructor
      · have hsame := cachedResponse_eq_diskResponse hcontent hsize hnext.1 req memory
        simp only
        rw [hsame, refreshEntry_filepath, hfile]
      · apply LithCache.All.setEntry hfollows
        rw [refreshEntry_filepath, hcurrent]
        exact ⟨hpath, hnext⟩

theorem CacheFollows.handleHttpRoute {publicDir : CharArray 256} {files : Files}
    {events : List ServerEvent} {versions : Bytes → List FileVersion}
    {cache : LithCache} (hfollows : CacheFollows publicDir.text versions cache)
    (hahead : Ahead publicDir.text files events versions) (req : HttpRequest)
    (other : LithCache) :
    (handleHttpRoute 1 publicDir files cache req).1 =
        (Lith.handleHttpRoute 0 publicDir files other req).1 ∧
      CacheFollows publicDir.text versions
        (Lith.handleHttpRoute 1 publicDir files cache req).2 := by
  unfold Lith.handleHttpRoute
  cases req.method with
  | post => exact ⟨rfl, hfollows⟩
  | unknown => exact ⟨rfl, hfollows⟩
  | get =>
      simp only
      split_ifs
      · obtain ⟨hsame, hnext⟩ :=
          hfollows.serveFile hahead req (filePath publicDir req.path.text)
        refine ⟨?_, hnext⟩
        rw [hsame, serveFile_zero]
      · exact ⟨rfl, hfollows⟩

theorem CacheFollows.change {publicDir : Bytes}
    {versions : Bytes → List FileVersion} {cache : LithCache}
    (hfollows : CacheFollows publicDir versions cache) :
    CacheFollows publicDir (fun path => (versions path).tail) cache := by
  intro idx hcount
  obtain ⟨hpath, hmime, loaded, hholds, hfrom⟩ := hfollows idx hcount
  exact ⟨hpath, hmime, loaded, hholds, fun version hversion =>
    hfrom version (List.mem_of_mem_tail hversion)⟩

/-! ## The cache after the start -/

theorem CacheFollows.lithCacheAdd {publicDir : Bytes} {files : Files}
    {versions : Bytes → List FileVersion} {cache : LithCache}
    (hfollows : CacheFollows publicDir versions cache)
    {path mimeType : Bytes} (hpath : path ∈ cachedPaths publicDir)
    (hstored : (strncpy 255 path).text = path)
    (htype : (strncpy 63 mimeType).text = getMimeType path)
    {version : FileVersion} {memory : ℕ → UInt8}
    (hfile : files path = version.io memory)
    (hfrom : ∀ later ∈ versions path, version.Dated later) :
    CacheFollows publicDir versions
      (lithCacheAdd cache path mimeType (files path)).2 := by
  apply LithCache.All.lithCacheAdd hfollows
  intro st memory' hstat _
  rw [hfile] at hstat ⊢
  have hst : st = version.status :=
    (Option.some.inj hstat).symm
  subst hst
  have hkey : (loadedEntry path mimeType (version.io memory)
      version.status).filepath.text = path := hstored
  have hholds := version.loadedEntry_holds path mimeType memory
  rw [hkey]
  refine ⟨hpath, ?_, version, hholds, hfrom⟩
  rw [hkey]
  exact htype

theorem cacheFollows_init (publicDir : CharArray 256)
    (hlen : publicDir.text.length ≤ 244) {files : Files}
    {events : List ServerEvent} {versions : Bytes → List FileVersion}
    (hahead : Ahead publicDir.text files events versions) :
    CacheFollows publicDir.text versions
      (threadPoolInitCache publicDir.text files) := by
  have hshort (name : Bytes) (hname : name.length ≤ 11) (hfree : 0 ∉ name) :
      snprintf 512 (publicDir.text ++ name) = publicDir.text ++ name ∧
        (strncpy 255 (publicDir.text ++ name)).text =
          publicDir.text ++ name := by
    have htotal : (publicDir.text ++ name).length ≤ 255 := by
      rw [List.length_append]
      omega
    refine ⟨snprintf_of_length_lt (by omega), strncpy_text ?_ htotal⟩
    simp [publicDir.nulFree, hfree]
  obtain ⟨hindex, hindexKey⟩ := hshort (ascii "/index.html") (by decide) (by decide)
  obtain ⟨hstyle, hstyleKey⟩ := hshort (ascii "/style.css") (by decide) (by decide)
  have hindexMem : publicDir.text ++ ascii "/index.html" ∈
      cachedPaths publicDir.text := by simp [cachedPaths, hindex]
  have hstyleMem : publicDir.text ++ ascii "/style.css" ∈
      cachedPaths publicDir.text := by simp [cachedPaths, hstyle]
  have hindexType : (strncpy 63 (ascii "text/html")).text =
      getMimeType (publicDir.text ++ ascii "/index.html") := by
    have hdot : strrchr 46 (ascii "/index.html") = some 6 := by decide
    rw [getMimeType_append hdot]
    decide
  have hstyleType : (strncpy 63 (ascii "text/css")).text =
      getMimeType (publicDir.text ++ ascii "/style.css") := by
    have hdot : strrchr 46 (ascii "/style.css") = some 6 := by decide
    rw [getMimeType_append hdot]
    decide
  have hcurrent (path : Bytes) (hpath : path ∈ cachedPaths publicDir.text) :
      ∃ version memory, files path = FileVersion.io version memory ∧
        ∀ later ∈ versions path, version.Dated later := by
    obtain ⟨hversions, hdated⟩ := hahead path hpath
    obtain ⟨version, others, memory, hcases, hfile⟩ := hversions.current
    rw [hcases] at hdated ⊢
    refine ⟨version, memory, hfile, fun later hlater => ?_⟩
    rcases List.mem_cons.mp hlater with rfl | hothers
    · exact Or.inl rfl
    · exact List.rel_of_pairwise_cons hdated hothers
  obtain ⟨index, memory, hindexFile, hindexFrom⟩ := hcurrent _ hindexMem
  obtain ⟨style, memory', hstyleFile, hstyleFrom⟩ := hcurrent _ hstyleMem
  have hempty : CacheFollows publicDir.text versions
      (lithCacheInit LithCache.zero) := LithCache.all_init _ _
  have hfirst :=
    hempty.lithCacheAdd hindexMem hindexKey hindexType hindexFile hindexFrom
  have hsecond :=
    hfirst.lithCacheAdd hstyleMem hstyleKey hstyleType hstyleFile hstyleFrom
  unfold threadPoolInitCache
  simpa only [hindex, hstyle] using hsecond

/-! ## Whole histories -/

theorem serve_eq_of_follows {publicDir : CharArray 256} {files : Files}
    {cache : LithCache} {events : List ServerEvent}
    {versions : Bytes → List FileVersion}
    (hfollows : CacheFollows publicDir.text versions cache)
    (hahead : Ahead publicDir.text files events versions) (other : LithCache) :
    serve 1 publicDir files cache events =
      serve 0 publicDir files other events := by
  induction events generalizing files cache versions other with
  | nil => rfl
  | cons event events ih =>
      cases event with
      | request req =>
          obtain ⟨hsame, hnext⟩ := hfollows.handleHttpRoute hahead req other
          simp only [serve]
          rw [hsame, ih hnext hahead]
      | change files' => exact ih hfollows.change hahead.change other

/-- Over every history in which `index.html` and `style.css` are maintained,
the router answers with the cache what it answers without it. -/
theorem serve_cache_transparent (publicDir : CharArray 256)
    (hlen : publicDir.text.length ≤ 244) (files : Files)
    (events : List ServerEvent)
    (hmaintained : ∀ path ∈ cachedPaths publicDir.text,
      Maintained path files events) :
    serve 1 publicDir files (threadPoolInitCache publicDir.text files) events =
      serve 0 publicDir files (threadPoolInitCache publicDir.text files)
        events := by
  choose! versions hversions using hmaintained
  have hahead : Ahead publicDir.text files events versions := hversions
  exact serve_eq_of_follows (cacheFollows_init publicDir hlen hahead) hahead _

def twoFiles (index style : FileVersion) : Files := fun path =>
  if path = ascii "public/index.html" then index.io fun _ => 0
  else if path = ascii "public/style.css" then style.io fun _ => 0
  else FileAccess.absent

def getRequest (path : Bytes) : HttpRequest where
  method := .get
  path := strncpy 255 path
  contentLength := 0
  bodyStart := none
  keepAlive := true

theorem cachedPaths_public :
    cachedPaths (strncpy 255 (ascii "public")).text =
      [ascii "public/index.html", ascii "public/style.css"] := by decide

/-- The page is touched back and then replaced. -/
theorem serve_cache_transparent_replaced :
    let old : FileVersion := ⟨ascii "old", 10, by decide⟩
    let touched : FileVersion := ⟨ascii "old", 5, by decide⟩
    let new : FileVersion := ⟨ascii "new page", 11, by decide⟩
    let events := [.request (getRequest rootTarget), .change (twoFiles touched old),
      .request (getRequest rootTarget), .change (twoFiles new old),
      .request (getRequest rootTarget)]
    let publicDir := strncpy 255 (ascii "public")
    let start := threadPoolInitCache publicDir.text (twoFiles old old)
    serve 1 publicDir (twoFiles old old) start events =
      serve 0 publicDir (twoFiles old old) start events := by
  intro old touched new events publicDir start
  apply serve_cache_transparent publicDir (by decide)
  intro path hpath
  rw [cachedPaths_public] at hpath
  simp only [List.mem_cons, List.not_mem_nil, or_false] at hpath
  rcases hpath with rfl | rfl
  · refine ⟨[old, touched, new],
      .cons ⟨_, rfl⟩ (.cons ⟨_, rfl⟩ (.cons ⟨_, rfl⟩ .nil)), ?_⟩
    simp [FileVersion.Dated, old, touched, new]
  · refine ⟨[old, old, old],
      .cons ⟨_, rfl⟩ (.cons ⟨_, rfl⟩ (.cons ⟨_, rfl⟩ .nil)), ?_⟩
    simp [FileVersion.Dated]

/-- The page is touched back and then replaced by one that is newer than the touched
page and older than the entry: every change of the content moves the time forward. -/
theorem serve_ne_touchedBack :
    ¬∀ (publicDir : CharArray 256) (files : Files) (events : List ServerEvent),
      publicDir.text.length ≤ 244 →
      (∀ path ∈ cachedPaths publicDir.text, ChangesDated path files events) →
      serve 1 publicDir files (threadPoolInitCache publicDir.text files) events =
        serve 0 publicDir files (threadPoolInitCache publicDir.text files)
          events := by
  intro hclaim
  let old : FileVersion := ⟨ascii "A", 10, by decide⟩
  let touched : FileVersion := ⟨ascii "A", 5, by decide⟩
  let new : FileVersion := ⟨ascii "B", 6, by decide⟩
  have hsame := hclaim (strncpy 255 (ascii "public")) (twoFiles old old)
    [.change (twoFiles touched old), .change (twoFiles new old),
      .request (getRequest rootTarget)] (by decide) ?_
  · have hbodies := congrArg (List.map (Option.map HttpResponse.body)) hsame
    revert hbodies
    decide
  · intro path hpath
    rw [cachedPaths_public] at hpath
    simp only [List.mem_cons, List.not_mem_nil, or_false] at hpath
    rcases hpath with rfl | rfl
    · refine ⟨[old, touched, new],
        .cons ⟨_, rfl⟩ (.cons ⟨_, rfl⟩ (.cons ⟨_, rfl⟩ .nil)), ?_⟩
      simp [FileVersion.Dated, old, touched, new]
    · refine ⟨[old, old, old],
        .cons ⟨_, rfl⟩ (.cons ⟨_, rfl⟩ (.cons ⟨_, rfl⟩ .nil)), ?_⟩
      simp [FileVersion.Dated]

/-! ## Files that disappear -/

def AnswersOk (response : Option HttpResponse) : Prop :=
  response.map HttpResponse.status = some 200

/-- Whenever the cache lets a request be answered with `200`, the disk path
answers it with `200` too. -/
def CacheHonest (publicDir : CharArray 256) (files : Files)
    (events : List ServerEvent) : Prop :=
  List.Forall₂ (fun cached plain => AnswersOk cached → AnswersOk plain)
    (serve 1 publicDir files (threadPoolInitCache publicDir.text files) events)
    (serve 0 publicDir files (threadPoolInitCache publicDir.text files) events)

/-- A file that some path of the cache names can be opened and loaded at every
request for that path. -/
def CachedReadable (publicDir : CharArray 256) (start : LithCache) :
    Files → List ServerEvent → Prop
  | _, [] => True
  | files, .request req :: events =>
      (∀ path, routedFile publicDir req = some path →
        lithCacheLookup start path ≠ none →
        (files path).opened = true ∧ (files path).memory ≠ none) ∧
      CachedReadable publicDir start files events
  | _, .change files' :: events => CachedReadable publicDir start files' events

theorem answersOk_diskResponse_iff (req : HttpRequest) (path : Bytes)
    (io : FileAccess) :
    AnswersOk (some (diskResponse req path io)) ↔
      io.opened = true ∧ io.memory ≠ none := by
  unfold AnswersOk diskResponse readFile
  cases io.opened with
  | false => simp [notFoundResponse, sendHttpError]
  | true =>
      cases io.memory with
      | none => simp [notFoundResponse, sendHttpError]
      | some memory => simp

theorem matchesKey_setEntry_refresh (cache : LithCache) (files : Files)
    (path key : Bytes) (idx other : Fin maxCacheEntries) :
    (cache.setEntry idx
        (refreshEntry files path (cache.entries idx))).matchesKey key other =
      cache.matchesKey key other := by
  rw [Bool.eq_iff_iff, LithCache.matchesKey_iff, LithCache.matchesKey_iff,
    LithCache.setEntry_entryCount]
  by_cases hidx : other = idx
  · subst hidx
    simp [LithCache.setEntry]
  · simp [LithCache.setEntry, hidx]

theorem lithCacheLookup_handleHttpRoute (useCache : ℤ)
    (publicDir : CharArray 256) (files : Files) (cache : LithCache)
    (req : HttpRequest) (key : Bytes) :
    lithCacheLookup (handleHttpRoute useCache publicDir files cache req).2 key =
      lithCacheLookup cache key := by
  unfold handleHttpRoute
  cases req.method with
  | post => rfl
  | unknown => rfl
  | get =>
      simp only
      split_ifs
      · unfold serveFile
        split
        · apply lithCacheLookup_congr
          intro other
          exact matchesKey_setEntry_refresh _ _ _ _ _ _
        · rfl
      · rfl

theorem handleHttpRoute_honest_iff (publicDir : CharArray 256) (files : Files)
    (cache other : LithCache) (req : HttpRequest) :
    (AnswersOk (handleHttpRoute 1 publicDir files cache req).1 →
        AnswersOk (handleHttpRoute 0 publicDir files other req).1) ↔
      ∀ path, routedFile publicDir req = some path →
        lithCacheLookup cache path ≠ none →
        (files path).opened = true ∧ (files path).memory ≠ none := by
  by_cases hrouted : req.method = .get ∧ isSafePath req.path.text = true
  · obtain ⟨hget, hsafe⟩ := hrouted
    have hfile : routedFile publicDir req =
        some (filePath publicDir req.path.text) := by
      simp [routedFile, hget, hsafe]
    simp only [hfile, Option.some.injEq, forall_eq']
    simp only [handleHttpRoute, hget, hsafe, if_true, serveFile_zero,
      answersOk_diskResponse_iff]
    cases hlookup : lithCacheLookup cache (filePath publicDir req.path.text) with
    | none => simp [serveFile, hlookup, answersOk_diskResponse_iff]
    | some idx => simp [serveFile, hlookup, AnswersOk, cachedResponse]
  · have hnone : routedFile publicDir req = none := by
      simp [routedFile, hrouted]
    simp only [hnone, reduceCtorEq, false_imp_iff, implies_true, iff_true]
    unfold handleHttpRoute
    cases hmethod : req.method with
    | post => exact id
    | unknown => exact id
    | get =>
        have hunsafe : ¬isSafePath req.path.text = true := by
          intro hsafe
          exact hrouted ⟨hmethod, hsafe⟩
        simp only [if_neg hunsafe]
        exact id

theorem forall₂_serve_iff (publicDir : CharArray 256) (start : LithCache)
    {files : Files} {cache other : LithCache} {events : List ServerEvent}
    (hkeys : ∀ path, lithCacheLookup cache path = lithCacheLookup start path) :
    List.Forall₂ (fun cached plain => AnswersOk cached → AnswersOk plain)
        (serve 1 publicDir files cache events)
        (serve 0 publicDir files other events) ↔
      CachedReadable publicDir start files events := by
  induction events generalizing files cache other with
  | nil => simp [serve, CachedReadable]
  | cons event events ih =>
      cases event with
      | request req =>
          simp only [serve, CachedReadable, List.forall₂_cons]
          rw [handleHttpRoute_honest_iff, ih]
          · simp only [hkeys]
          · intro path
            rw [lithCacheLookup_handleHttpRoute, hkeys]
      | change files' => exact ih hkeys

/-- The cache never outlives a file exactly when no request for a cached path
finds its file gone. -/
theorem cacheHonest_iff_cachedReadable (publicDir : CharArray 256)
    (files : Files) (events : List ServerEvent) :
    CacheHonest publicDir files events ↔
      CachedReadable publicDir (threadPoolInitCache publicDir.text files) files
        events :=
  forall₂_serve_iff publicDir _ fun _ => rfl

/-- The page is deleted after the start and still served. -/
theorem not_cacheHonest_deleted :
    ¬CacheHonest (strncpy 255 (ascii "public"))
      (twoFiles ⟨ascii "page", 10, by decide⟩ ⟨ascii "style", 10, by decide⟩)
      [.change fun _ => FileAccess.absent, .request (getRequest rootTarget)] := by
  intro hhonest
  have hreadable := (forall₂_serve_iff _ _ fun _ => rfl).mp hhonest
  have hopened := hreadable.1 (ascii "public/index.html") (by decide) (by decide)
  simp [FileAccess.absent] at hopened

end Lith
