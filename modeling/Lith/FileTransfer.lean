import Lith.CacheHistory
import Lith.ResponseHeaders

/-!
# From the file to the socket

`read_file` takes the size of a file from `ftell` and its bytes from `fread` and
compares neither with the other, and the router announces the size as it is
but passes it to `SSL_write` as an `int`.  The buffer is what the announced size
promises when the position is a proper size and the read is complete; the two
numbers are the same when the size is an `int`.
-/

namespace Lith

open CString

/-! ## The buffer of `read_file` -/

/-- The size of the block that `malloc(*size + 1)` asks for, unless the addition
overflows. -/
def readFileRoom (size : ℤ) : Option ℕ :=
  if size + 1 ≤ longMax then some (sizeT (size + 1)) else none

/-- The size is proper, the block is larger, and what it promises was read. -/
structure ReadContract (io : FileAccess) : Prop where
  nonneg : ∀ size content, readFile io = some (size, content) → 0 ≤ size
  room : ∀ size content, readFile io = some (size, content) →
    ∃ room : ℕ, readFileRoom io.endPosition = some room ∧ size < room
  wasRead : ∀ size content, readFile io = some (size, content) →
    sslWrite content size = io.fread io.endPosition

/-- The disk branch announces no more bytes than were read, and sends only
such bytes. -/
def DiskBranchHonest (req : HttpRequest) (path : Bytes) (io : FileAccess) : Prop :=
  ∀ size content, readFile io = some (size, content) →
    (diskResponse req path io).header =
        okHeader size (getMimeType path) (connState req.keepAlive) ∧
      size ≤ (io.fread io.endPosition).length ∧
      (diskResponse req path io).body <+: io.fread io.endPosition

theorem diskResponse_of_readFile {io : FileAccess} {size : ℤ} {content : ℕ → UInt8}
    (hread : readFile io = some (size, content)) (req : HttpRequest) (path : Bytes) :
    diskResponse req path io =
      { status := 200
        header := okHeader size (getMimeType path) (connState req.keepAlive)
        body := sslWrite content (toInt size) } := by
  simp only [diskResponse, hread]

theorem sslWrite_length (memory : ℕ → UInt8) (num : ℤ) :
    (sslWrite memory num).length = num.toNat := by
  simp [sslWrite]

/-- A prefix of the block lies within the bytes that were read. -/
theorem sslWrite_readFile {io : FileAccess} {size : ℤ} {content : ℕ → UInt8}
    (hread : readFile io = some (size, content)) {num : ℤ}
    (hnum : num.toNat ≤ (io.fread io.endPosition).length) :
    sslWrite content num = (io.fread io.endPosition).take num.toNat := by
  obtain ⟨-, memory, -, rfl⟩ := readFile_eq_some hread
  rw [sslWrite_toNat]
  exact sslWrite_overwrite memory _ _ hnum

theorem length_fread_of_complete {io : FileAccess} (hnonneg : 0 ≤ io.endPosition)
    (hmax : io.endPosition < longMax)
    (hcomplete : io.endPosition ≤ io.bytes.length) :
    (io.fread io.endPosition).length = io.endPosition.toNat := by
  unfold longMax at hmax
  have hsizeT : sizeT io.endPosition = io.endPosition.toNat := by
    unfold sizeT
    omega
  rw [FileAccess.fread, List.length_take, hsizeT]
  omega

theorem readContract_of_complete {io : FileAccess} (hnonneg : 0 ≤ io.endPosition)
    (hmax : io.endPosition < longMax)
    (hcomplete : io.endPosition ≤ io.bytes.length) : ReadContract io where
  nonneg := by
    intro size content hread
    rw [(readFile_eq_some hread).1]
    exact hnonneg
  room := by
    intro size content hread
    refine ⟨sizeT (io.endPosition + 1), ?_, ?_⟩
    · rw [readFileRoom, if_pos (by omega)]
    · rw [(readFile_eq_some hread).1]
      unfold sizeT
      unfold longMax at hmax
      omega
  wasRead := by
    intro size content hread
    have hlength := length_fread_of_complete hnonneg hmax hcomplete
    rw [sslWrite_readFile hread (by rw [(readFile_eq_some hread).1, hlength]),
      (readFile_eq_some hread).1, ← hlength, List.take_length]

theorem ReadContract.complete {io : FileAccess} (hcontract : ReadContract io)
    {size : ℤ} {content : ℕ → UInt8} (hread : readFile io = some (size, content)) :
    0 ≤ io.endPosition ∧ io.endPosition < longMax ∧
      io.endPosition ≤ io.bytes.length := by
  have hnonneg := hcontract.nonneg size content hread
  obtain ⟨room, hroom, -⟩ := hcontract.room size content hread
  have hlength := congrArg List.length (hcontract.wasRead size content hread)
  rw [sslWrite_length, FileAccess.fread, List.length_take] at hlength
  rw [(readFile_eq_some hread).1] at hnonneg hlength
  refine ⟨hnonneg, ?_, ?_⟩
  · unfold readFileRoom at hroom
    split_ifs at hroom with hfits
    omega
  · omega

theorem ReadContract.diskBranchHonest {io : FileAccess}
    (hcontract : ReadContract io) (req : HttpRequest) (path : Bytes) :
    DiskBranchHonest req path io := by
  intro size content hread
  have hlength := congrArg List.length (hcontract.wasRead size content hread)
  rw [sslWrite_length] at hlength
  have hnonneg := hcontract.nonneg size content hread
  have hle : (toInt size).toNat ≤ size.toNat := by
    have hcast := toInt_natCast_le size.toNat
    rw [Int.toNat_of_nonneg hnonneg] at hcast
    omega
  rw [diskResponse_of_readFile hread, sslWrite_readFile hread (by omega)]
  exact ⟨rfl, by omega, List.take_prefix _ _⟩

/-- `read_file` keeps its contract, and the router is honest about the file, if
and only if nothing is returned or `ftell` gave a size below `LONG_MAX` and
`fread` as many bytes. -/
theorem readFile_contract_iff (io : FileAccess) :
    (ReadContract io ∧ ∀ req path, DiskBranchHonest req path io) ↔
      io.opened = false ∨ io.memory = none ∨
        0 ≤ io.endPosition ∧ io.endPosition < longMax ∧
          io.endPosition ≤ io.bytes.length := by
  constructor
  · rintro ⟨hcontract, -⟩
    cases hopened : io.opened with
    | false => exact Or.inl rfl
    | true =>
        cases hmemory : io.memory with
        | none => exact Or.inr (Or.inl rfl)
        | some memory =>
            have hread : readFile io = some (io.endPosition,
                overwrite memory (io.fread io.endPosition ++ [0])) := by
              simp [readFile, hopened, hmemory]
            exact Or.inr (Or.inr (hcontract.complete hread))
  · intro hcases
    have hcontract : ReadContract io := by
      rcases hcases with hclosed | hrefused | ⟨hnonneg, hmax, hcomplete⟩
      · have hnone : readFile io = none := by simp [readFile, hclosed]
        constructor <;> simp [hnone]
      · have hnone : readFile io = none := by simp [readFile, hrefused]
        constructor <;> simp [hnone]
      · exact readContract_of_complete hnonneg hmax hcomplete
    exact ⟨hcontract, hcontract.diskBranchHonest⟩

/-- The file shrank from ten thousand bytes to two between `ftell` and `fread`. -/
def truncatedFile : FileAccess where
  opened := true
  stat := some ⟨10000, 1⟩
  endPosition := 10000
  memory := some fun _ => 83
  bytes := ascii "ab"

theorem sslWrite_overwrite_fill (fill : UInt8) (written : Bytes) {n : ℕ}
    (hn : written.length ≤ n) :
    sslWrite (overwrite (fun _ => fill) written) n =
      written ++ List.replicate (n - written.length) fill := by
  apply List.ext_getElem
  · simp [sslWrite, hn]
  · intro i hi _
    by_cases hwritten : i < written.length <;>
      simp [sslWrite, overwrite, List.getElem_append, hwritten]

theorem truncatedFile_breaks_contract :
    ¬ReadContract truncatedFile ∧
      (diskResponse (getRequest rootTarget) (ascii "a") truncatedFile).body =
        [97, 98, 0] ++ List.replicate 9997 83 := by
  constructor
  · intro hcontract
    have hcomplete := (hcontract.complete rfl).2.2
    exact absurd hcomplete (by decide)
  · have hread : readFile truncatedFile =
        some (10000, overwrite (fun _ => 83) [97, 98, 0]) := rfl
    have hcount : toInt 10000 = (10000 : ℕ) := by decide
    have hfill := sslWrite_overwrite_fill 83 [97, 98, 0] (n := 10000) (by decide)
    simp only [diskResponse_of_readFile hread, hcount, hfill, List.length_cons,
      List.length_nil, Nat.reduceAdd, Nat.reduceSub]

/-! ## The two lengths -/

/-- The text of the `Content-Length` line. -/
def contentLengthLine (response : HttpResponse) : Option Bytes :=
  (behind (ascii "Content-Length: ") response.header).map
    (List.takeWhile (· ≠ 13))

/-- The size of the file that is served: what the entry holds, or the position
of the end. -/
def servedSize (useCache : ℤ) (files : Files) (cache : LithCache)
    (path : Bytes) : Option ℤ :=
  match if useCache = 1 then lithCacheLookup cache path else none with
  | some idx => some (refreshEntry files path (cache.entries idx)).size
  | none => (readFile (files path)).map Prod.fst

/-- The `int` that the router passes to `SSL_write` for the body. -/
def bodyCount (useCache : ℤ) (files : Files) (cache : LithCache)
    (path : Bytes) : Option ℤ :=
  (servedSize useCache files cache path).map toInt

theorem contentLengthLine_of_okHeader {response : HttpResponse} {length : ℤ}
    {mimeType conn : Bytes}
    (hheader : response.header = okHeader length mimeType conn)
    (hlength : (decimal length).length ≤ 20) :
    contentLengthLine response = some (decimal length) := by
  have hstart : behind (ascii "Content-Length: ")
      (ascii "HTTP/1.1 200 OK\r\nContent-Length: ") = some [] := by decide
  have hstartLength :
      (ascii "HTTP/1.1 200 OK\r\nContent-Length: ").length = 33 := by decide
  have hcut (tail : Bytes) : ∃ rest, snprintf 384
      (ascii "HTTP/1.1 200 OK\r\nContent-Length: " ++
        (decimal length ++ 13 :: tail)) =
      ascii "HTTP/1.1 200 OK\r\nContent-Length: " ++
        (decimal length ++ 13 :: rest) := by
    have hsplit (rest : Bytes) : ascii "HTTP/1.1 200 OK\r\nContent-Length: " ++
        (decimal length ++ 13 :: rest) =
          (ascii "HTTP/1.1 200 OK\r\nContent-Length: " ++ decimal length ++ [13]) ++
            rest := by
      simp
    rw [hsplit, snprintf_append]
    · exact ⟨_, (hsplit _).symm⟩
    · simp only [List.length_append, List.length_singleton, hstartLength]
      omega
  have hvalue : 13 ∉ decimal length := notMem_decimal (by decide) (by decide) length
  have htext : okHeader length mimeType conn = snprintf 384
      (ascii "HTTP/1.1 200 OK\r\nContent-Length: " ++ (decimal length ++
        13 :: (ascii "\nContent-Type: " ++ mimeType ++ ascii "\r\nConnection: " ++
          conn ++ ascii "\r\nKeep-Alive: timeout=3, max=100\r\n\r\n"))) := by
    unfold okHeader
    simp only [List.append_assoc]
    rfl
  obtain ⟨rest, hrest⟩ := hcut _
  unfold contentLengthLine
  rw [hheader, htext, hrest, behind_append_of_some hstart, List.nil_append,
    Option.map_some, takeWhile_ne_append hvalue]

/-- An entry whose size counts its content. -/
structure CacheEntry.Filled (entry : CacheEntry) : Prop where
  size : entry.size = (entry.content.getD []).length
  fits : entry.size < 2 ^ 64

theorem filled_of_fread (entry : CacheEntry) (io : FileAccess) (st : Stat) :
    CacheEntry.Filled { entry with
      content := some (io.fread st.size)
      size := (io.fread st.size).length
      lastModified := st.mtime } :=
  ⟨rfl, length_fread_lt io st.size⟩

theorem CacheEntry.Filled.lithCacheHotReload {entry : CacheEntry}
    (hfilled : entry.Filled) (io : FileAccess) :
    (lithCacheHotReload entry io).2.Filled := by
  rcases lithCacheHotReload_cases entry io with
    hsame | ⟨st, memory, -, -, -, hreload⟩
  · rw [hsame]
    exact hfilled
  · rw [hreload]
    exact filled_of_fread entry io st

theorem CacheEntry.Filled.refreshEntry {entry : CacheEntry}
    (hfilled : entry.Filled) (files : Files) (path : Bytes) :
    (refreshEntry files path entry).Filled := by
  rcases refreshEntry_cases files path entry with hsame | hreload
  · rw [hsame]
    exact hfilled
  · rw [hreload]
    exact hfilled.lithCacheHotReload _

theorem filled_of_reachable {history : CacheHistory}
    (hreach : cacheCallSystem.Reachable history) :
    history.cache.All CacheEntry.Filled := by
  apply hreach.invariant
    (P := fun history => history.cache.All CacheEntry.Filled)
  · rintro first ⟨cache, rfl⟩
    exact LithCache.all_init _ cache
  · rintro before call after hall rfl
    cases call with
    | add filepath mimeType io =>
        rw [CacheHistory.next, CacheHistory.add_cache]
        apply hall.lithCacheAdd
        intro st memory _ _
        exact ⟨rfl, length_fread_lt _ _⟩
    | reload idx io =>
        intro other hother
        by_cases hsame : other = idx
        · subst hsame
          simp only [CacheHistory.next, CacheHistory.reload, LithCache.setEntry,
            Function.update_self]
          exact (hall other hother).lithCacheHotReload _
        · simp only [CacheHistory.next, CacheHistory.reload, LithCache.setEntry,
            Function.update_of_ne hsame]
          exact hall other hother

theorem serveFile_of_hit {useCache : ℤ} {files : Files} {cache : LithCache}
    {path : Bytes} {idx : Fin maxCacheEntries}
    (hhit : (if useCache = 1 then lithCacheLookup cache path else none) = some idx)
    (req : HttpRequest) :
    servedSize useCache files cache path =
        some ((refreshEntry files path (cache.entries idx)).size : ℤ) ∧
      (serveFile useCache files cache req path).1 =
        cachedResponse req (refreshEntry files path (cache.entries idx)) := by
  unfold servedSize serveFile
  rw [hhit]
  exact ⟨rfl, rfl⟩

theorem serveFile_of_miss {useCache : ℤ} {files : Files} {cache : LithCache}
    {path : Bytes}
    (hmiss : (if useCache = 1 then lithCacheLookup cache path else none) = none)
    (req : HttpRequest) :
    servedSize useCache files cache path = (readFile (files path)).map Prod.fst ∧
      (serveFile useCache files cache req path).1 =
        diskResponse req path (files path) := by
  unfold servedSize serveFile
  rw [hmiss]
  exact ⟨rfl, rfl⟩

theorem cachedResponse_lengths {entry : CacheEntry} (hfilled : entry.Filled)
    (req : HttpRequest) :
    contentLengthLine (cachedResponse req entry) = some (decimal entry.size) ∧
      (cachedResponse req entry).body.length = (toInt entry.size).toNat := by
  constructor
  · apply contentLengthLine_of_okHeader rfl
    exact length_decimal_le (by omega) (hfilled.fits.trans (by norm_num))
  · have hle := toInt_natCast_le entry.size
    simp only [cachedResponse, List.length_take, ← hfilled.size]
    omega

theorem diskResponse_lengths {io : FileAccess} {size : ℤ} {content : ℕ → UInt8}
    (hread : readFile io = some (size, content)) (hlow : longMin ≤ size)
    (hhigh : size ≤ longMax) (req : HttpRequest) (path : Bytes) :
    (diskResponse req path io).status = 200 ∧
      contentLengthLine (diskResponse req path io) = some (decimal size) ∧
      (diskResponse req path io).body.length = (toInt size).toNat := by
  rw [diskResponse_of_readFile hread]
  exact ⟨rfl, contentLengthLine_of_okHeader rfl (length_decimal_long hlow hhigh),
    sslWrite_length _ _⟩

/-- Every file that is served announces its size and is written with the size
as an `int`. -/
theorem serveFile_lengths {history : CacheHistory}
    (hreach : cacheCallSystem.Reachable history) (useCache : ℤ) (disk : Disk)
    (req : HttpRequest) {path : Bytes} {size : ℤ}
    (hsize : servedSize useCache disk.files history.cache path = some size) :
    let response := (serveFile useCache disk.files history.cache req path).1
    response.status = 200 ∧ contentLengthLine response = some (decimal size) ∧
      response.body.length = (toInt size).toNat := by
  cases hlookup : if useCache = 1 then lithCacheLookup history.cache path else none with
  | some idx =>
      have hlt : idx.val < history.cache.entryCount := by
        split_ifs at hlookup
        exact (lithCacheLookup_eq_some hlookup).1
      have hfilled := (filled_of_reachable hreach idx hlt).refreshEntry
        disk.files path
      obtain ⟨hserved, hresponse⟩ := serveFile_of_hit hlookup req
      rw [hserved, Option.some.injEq] at hsize
      subst hsize
      simp only [hresponse]
      exact ⟨rfl, cachedResponse_lengths hfilled req⟩
  | none =>
      obtain ⟨hserved, hresponse⟩ := serveFile_of_miss hlookup req
      rw [hserved, Option.map_eq_some_iff] at hsize
      obtain ⟨⟨_, content⟩, hread, rfl⟩ := hsize
      obtain ⟨hlow, hhigh⟩ := disk.positions path
      rw [← (readFile_eq_some hread).1] at hlow hhigh
      simp only [hresponse]
      exact diskResponse_lengths hread hlow hhigh req path

/-- The announced length is the number passed to `SSL_write` if and only if the
size is in the range of `int`. -/
theorem content_length_eq_body_count_iff {history : CacheHistory}
    (hreach : cacheCallSystem.Reachable history) (useCache : ℤ)
    (publicDir : CharArray 256) (disk : Disk) (req : HttpRequest) {path : Bytes}
    (hrouted : routedFile publicDir req = some path) {size : ℤ}
    (hsize : servedSize useCache disk.files history.cache path = some size) :
    ∃ response count,
      (handleHttpRoute useCache publicDir disk.files history.cache req).1 =
        some response ∧
      bodyCount useCache disk.files history.cache path = some count ∧
      response.status = 200 ∧ response.body.length = count.toNat ∧
      (contentLengthLine response = some (decimal count) ↔
        -2 ^ 31 ≤ size ∧ size ≤ 2 ^ 31 - 1) := by
  obtain ⟨hstatus, hline, hbody⟩ :=
    serveFile_lengths hreach useCache disk req hsize
  refine ⟨(serveFile useCache disk.files history.cache req path).1, toInt size,
    ?_, ?_, hstatus, hbody, ?_⟩
  · unfold routedFile at hrouted
    split_ifs at hrouted with hget
    rw [Option.some.injEq] at hrouted
    subst hrouted
    simp [handleHttpRoute, hget.1, hget.2]
  · simp [bodyCount, hsize]
  · rw [hline, Option.some.injEq, decimal_injective.eq_iff, eq_comm,
      toInt_eq_self_iff]

/-- A file system in which every path is the same regular file. -/
def uniformDisk (content : Bytes) (hfits : (content.length : ℤ) ≤ longMax) : Disk where
  files := fun _ => FileAccess.regular content 1 fun _ => 0
  positions := by
    intro path
    refine ⟨?_, hfits⟩
    have hmin : longMin ≤ 0 := by decide
    exact hmin.trans (Int.natCast_nonneg _)

theorem servedSize_uniformDisk (content : Bytes)
    (hfits : (content.length : ℤ) ≤ longMax) (cache : LithCache) (path : Bytes) :
    servedSize 0 (uniformDisk content hfits).files cache path =
      some (content.length : ℤ) := rfl

theorem reachable_init_zero :
    cacheCallSystem.Reachable (CacheHistory.init LithCache.zero) :=
  .start ⟨LithCache.zero, rfl⟩

theorem content_length_eq_body_count_small :
    ∃ response count,
      (handleHttpRoute 0 (strncpy 255 (ascii "public"))
        (uniformDisk (ascii "x") letter_le_longMax).files
        (lithCacheInit LithCache.zero) (getRequest rootTarget)).1 = some response ∧
      contentLengthLine response = some (decimal count) ∧
      response.body.length = count.toNat := by
  have hrouted : routedFile (strncpy 255 (ascii "public")) (getRequest rootTarget) =
      some (ascii "public/index.html") := by decide
  obtain ⟨response, count, hresponse, -, -, hbody, hiff⟩ :=
    content_length_eq_body_count_iff reachable_init_zero
      0 (strncpy 255 (ascii "public")) (uniformDisk (ascii "x") letter_le_longMax)
      (getRequest rootTarget) hrouted (servedSize_uniformDisk _ _ _ _)
  exact ⟨response, count, hresponse, hiff.mpr (by decide), hbody⟩

theorem large_le_longMax :
    ((List.replicate 2147483648 (65 : UInt8)).length : ℤ) ≤ longMax := by
  rw [List.length_replicate]
  decide

theorem large_file_lengths_differ :
    ∃ response,
      (handleHttpRoute 0 (strncpy 255 (ascii "public"))
        (uniformDisk (List.replicate 2147483648 65) large_le_longMax).files
        (lithCacheInit LithCache.zero) (getRequest rootTarget)).1 = some response ∧
      contentLengthLine response = some (decimal 2147483648) ∧
      bodyCount 0 (uniformDisk (List.replicate 2147483648 65) large_le_longMax).files
        (lithCacheInit LithCache.zero) (ascii "public/index.html") =
          some (-2147483648) ∧
      contentLengthLine response ≠ some (decimal (-2147483648)) := by
  have hlength : ((List.replicate 2147483648 (65 : UInt8)).length : ℤ) =
      2147483648 := by
    rw [List.length_replicate]
    rfl
  have hcount : toInt 2147483648 = -2147483648 := by decide
  have hne : decimal 2147483648 ≠ decimal (-2147483648) := by decide
  have hserved := servedSize_uniformDisk (List.replicate 2147483648 65)
    large_le_longMax (lithCacheInit LithCache.zero) (ascii "public/index.html")
  rw [hlength] at hserved
  obtain ⟨-, hline, -⟩ := serveFile_lengths reachable_init_zero 0
    (uniformDisk (List.replicate 2147483648 65) large_le_longMax)
    (getRequest rootTarget) hserved
  refine ⟨_, rfl, hline, ?_, ?_⟩
  · rw [bodyCount, hserved, Option.map_some, hcount]
  · intro hsame
    exact hne (Option.some.inj (hline.symm.trans hsame))

end Lith
