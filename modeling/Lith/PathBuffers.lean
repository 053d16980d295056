import Lith.ByteArea
import Lith.PortBinding
import Lith.ResponseHeaders

/-!
# The arrays of a GET

`handle_http_route` appends to `file_path` with `strcat`, which knows no bound.
That it stays inside the 512 bytes rests on the copies made before: the value
of `public_dir` in the configuration, the absolute path of the daemon, the
copies of the pool and of the connection, and the copying loop of the parser.
Here each of them runs on its array, with every access checked, whatever the
array held before.
-/

namespace Lith

open CString

/-! ## The document root -/

/-- `strncpy` into a `public_dir`, and the NUL behind it. -/
def copyDir (field : ByteArea 256) (source : Bytes) : Option (ByteArea 256) :=
  field.copyString source 255

def loadLineDir (field : ByteArea 256) (window : Bytes) : Option (ByteArea 256) :=
  match lineAssignment window with
  | some (.publicDir, value) => copyDir field (value ++ [0])
  | _ => some field

/-- `config->public_dir` after `load_config`. -/
def loadConfigDir (file : Option Bytes) (field : ByteArea 256) :
    Option (ByteArea 256) :=
  match file with
  | none => field.strncpy (ascii "public" ++ [0]) 255
  | some text => (fgetsLines text).foldlM loadLineDir field

/-- The daemon branch of `main`, with the array `absolute_public`. -/
def daemonDir (cwd : Directory) (absolute : ByteArea 512) (field : ByteArea 256) :
    Option (ByteArea 256) :=
  if field.bytes.head? ≠ some 47 then do
    let publicDir ← field.string
    let written ← absolute.snprintf 512 (cwd.path.text ++ 47 :: publicDir)
    copyDir field written.bytes
  else some field

/-- `global_config.public_dir` when `main` is through with it. -/
def mainDir (args : List Bytes) (cwd : Directory) (absolute : ByteArea 512)
    (field : ByteArea 256) : Option (ByteArea 256) :=
  if (parseArguments args).useDaemon then daemonDir cwd absolute field else some field

/-- `pool->public_dir` after `thread_pool_init`. -/
def threadPoolDir (pool config : ByteArea 256) : Option (ByteArea 256) :=
  copyDir pool config.bytes

/-- `ectx.public_dir` in `lith_client_handler`. -/
def clientDir (context pool : ByteArea 256) : Option (ByteArea 256) :=
  copyDir context pool.bytes

/-! ## The request path and the file path -/

/-- The copying loop of the parser, from index `i` on. -/
def copyPathInto (path : ByteArea 256) (i : ℕ) : Bytes → Option (ByteArea 256)
  | [] => none
  | c :: rest =>
      if c ≠ 0 ∧ isspace c = false ∧ i < maxPathSize - 1 then
        (path.store i c).bind fun stored => copyPathInto stored (i + 1) rest
      else path.store i 0

/-- `req->path` for a request that starts with `GET `. -/
def parsePath (path : ByteArea 256) (buffer : Bytes) : Option (ByteArea 256) := do
  let cleared ← path.write 0 (List.replicate maxPathSize 0)
  copyPathInto cleared 0 (buffer.drop 4)

/-- `file_path` in `handle_http_route`. -/
def routeFilePath (filePath : ByteArea 512) (context path : ByteArea 256) :
    Option (ByteArea 512) := do
  let publicDir ← filePath.copyString context.bytes 511
  let target ← path.string
  if target = rootTarget then publicDir.strcat (indexTarget ++ [0])
  else publicDir.strcat path.bytes

/-- What the arrays hold before they are written. -/
structure Scratch where
  absolute : ByteArea 512
  pool : ByteArea 256
  context : ByteArea 256
  path : ByteArea 256
  filePath : ByteArea 512

/-- The document root of a connection, from the start of the program on. -/
def connectionDir (scratch : Scratch) (file : Option Bytes) (args : List Bytes)
    (cwd : Directory) : Option (ByteArea 256) := do
  let loaded ← loadConfigDir file (.initialised 256 [])
  let config ← mainDir args cwd scratch.absolute loaded
  let pool ← threadPoolDir scratch.pool config
  clientDir scratch.context pool

/-- The file path for a `GET` in the buffer, which ends with a NUL. -/
def servedFilePath (scratch : Scratch) (file : Option Bytes) (args : List Bytes)
    (cwd : Directory) (buffer : Bytes) : Option (ByteArea 512) := do
  let context ← connectionDir scratch file args cwd
  let path ← parsePath scratch.path (buffer ++ [0])
  routeFilePath scratch.filePath context path

/-! ## The header -/

def okHeaderText (length : ℤ) (mimeType conn : Bytes) : Bytes :=
  ascii "HTTP/1.1 200 OK\r\nContent-Length: " ++ decimal length ++
    ascii "\r\nContent-Type: " ++ mimeType ++
    ascii "\r\nConnection: " ++ conn ++
    ascii "\r\nKeep-Alive: timeout=3, max=100\r\n\r\n"

/-- The `snprintf` of the two 200 headers. -/
def writeOkHeader (header : ByteArea 384) (length : ℤ) (mimeType : Bytes)
    (keepAlive : Bool) : Option (ByteArea 384) := do
  let mime ← readString mimeType
  header.snprintf 384 (okHeaderText length mime (connState keepAlive))

/-- The memory behind a MIME type: a literal of `get_mime_type` or the array of
a cache entry. -/
inductive MimeMemory : Bytes → Prop where
  | literal (path : Bytes) : MimeMemory (getMimeType path ++ [0])
  | entry {mimeType : ByteArea 64} {text : Bytes}
      (hread : mimeType.string = some text) : MimeMemory mimeType.bytes

/-! ## The copies of the document root -/

theorem copyDir_string (field : ByteArea 256) {source text : Bytes}
    (hread : readString source = some text) :
    ∃ after, copyDir field source = some after ∧
      after.string = some (strncpy 255 text).text := by
  obtain ⟨after, hcopy, hafter⟩ := field.copyString_string hread (by omega : 255 < 256)
  refine ⟨after, hcopy, ?_⟩
  simp [hafter, strncpy, cstr_eq_self (readString_eq_some_iff.mp hread).1]

theorem copyDir_array (field : ByteArea 256) {source : ByteArea 256}
    {dir : CharArray 256} (hread : source.string = some dir.text) :
    ∃ after, copyDir field source.bytes = some after ∧
      after.string = some dir.text := by
  obtain ⟨after, hcopy, hafter⟩ := copyDir_string field hread
  have hfits := dir.fits
  rw [strncpy_text dir.nulFree (by omega)] at hafter
  exact ⟨after, hcopy, hafter⟩

theorem loadLineDir_string {field : ByteArea 256} {config : ServerConfig}
    (hread : field.string = some config.publicDir.text) (window : Bytes) :
    ∃ after, loadLineDir field window = some after ∧
      after.string = some (config.loadLine window).publicDir.text := by
  cases hline : lineAssignment window with
  | none => exact ⟨field, by simp [loadLineDir, hline],
      by simpa [ServerConfig.loadLine, hline] using hread⟩
  | some pair =>
      obtain ⟨setting, value⟩ := pair
      cases setting with
      | publicDir =>
          obtain ⟨after, hcopy, hafter⟩ :=
            copyDir_string field (readString_cstr value [])
          refine ⟨after, by simp [loadLineDir, hline, hcopy], ?_⟩
          have hcstr : cstr (cstr value) = cstr value := cstr_eq_self (nulFree_cstr value)
          simpa [ServerConfig.loadLine, hline, ServerConfig.set, strncpy, hcstr]
            using hafter
      | port | useCache | sslCertPath | sslKeyPath =>
          exact ⟨field, by simp [loadLineDir, hline],
            by simpa [ServerConfig.loadLine, hline, ServerConfig.set] using hread⟩

theorem foldlM_loadLineDir (windows : List Bytes) {field : ByteArea 256}
    {config : ServerConfig} (hread : field.string = some config.publicDir.text) :
    ∃ after, windows.foldlM loadLineDir field = some after ∧ after.string =
      some (windows.foldl ServerConfig.loadLine config).publicDir.text := by
  induction windows generalizing field config with
  | nil => exact ⟨field, rfl, hread⟩
  | cons window windows ih =>
      obtain ⟨next, hnext, hnextRead⟩ := loadLineDir_string hread window
      obtain ⟨after, hafter, hafterRead⟩ := ih hnextRead
      refine ⟨after, ?_, hafterRead⟩
      rw [List.foldlM_cons, hnext]
      exact hafter

theorem loadConfigDir_string (file : Option Bytes) :
    ∃ after, loadConfigDir file (.initialised 256 []) = some after ∧
      after.string = some (configOf file).publicDir.text := by
  cases file with
  | none =>
      have hread : readString (ascii "public" ++ [0]) = some (ascii "public") :=
        readString_append (by decide) []
      exact ByteArea.strncpy_string _ hread (by decide) (by omega)
  | some text =>
      have hzero : (ByteArea.initialised 256 []).string =
          some ServerConfig.zero.publicDir.text :=
        ByteArea.string_initialised (by simp) (by simp)
      exact foldlM_loadLineDir (fgetsLines text) hzero

theorem daemonDir_string (cwd : Directory) (absolute : ByteArea 512)
    {field : ByteArea 256} {config : ServerConfig}
    (hread : field.string = some config.publicDir.text) :
    ∃ after, daemonDir cwd absolute field = some after ∧
      after.string = some (config.withAbsolutePublic cwd).publicDir.text := by
  have hhead : field.bytes.head? = some 47 ↔ config.publicDir.text.head? = some 47 := by
    obtain ⟨-, rest, hbytes⟩ := readString_eq_some_iff.mp hread
    rw [hbytes]
    cases config.publicDir.text <;> simp
  unfold daemonDir ServerConfig.withAbsolutePublic
  by_cases hroot : config.publicDir.text.head? = some 47
  · rw [if_neg (not_not.mpr (hhead.mpr hroot)), if_neg (not_not.mpr hroot)]
    exact ⟨field, rfl, hread⟩
  · have hfree : 0 ∉ cwd.path.text ++ 47 :: config.publicDir.text := by
      rw [List.mem_append, List.mem_cons, not_or, not_or]
      exact ⟨cwd.path.nulFree, by decide, config.publicDir.nulFree⟩
    obtain ⟨written, hwrite, hwritten⟩ :=
      absolute.snprintf_string (by omega : 0 < 512) le_rfl hfree
    obtain ⟨after, hcopy, hafter⟩ := copyDir_string field hwritten
    rw [if_pos fun h => hroot (hhead.mp h), if_pos hroot]
    refine ⟨after, ?_, hafter⟩
    simp [hread, hwrite, hcopy]

theorem connectionDir_string (scratch : Scratch) (file : Option Bytes)
    (args : List Bytes) (cwd : Directory) :
    ∃ context, connectionDir scratch file args cwd = some context ∧
      context.string = some (startProcess file args cwd).config.publicDir.text := by
  have hoverride : ((configOf file).overridePort (parseArguments args)).publicDir =
      (configOf file).publicDir := by
    unfold ServerConfig.overridePort
    split_ifs <;> rfl
  obtain ⟨loaded, hload, hloaded⟩ := loadConfigDir_string file
  rw [← hoverride] at hloaded
  have hconfig : ∃ config, mainDir args cwd scratch.absolute loaded = some config ∧
      config.string = some (startProcess file args cwd).config.publicDir.text := by
    unfold mainDir startProcess mainStart
    cases (parseArguments args).useDaemon with
    | true => exact daemonDir_string cwd scratch.absolute hloaded
    | false => exact ⟨loaded, rfl, hloaded⟩
  obtain ⟨config, hmain, hconfig⟩ := hconfig
  obtain ⟨pool, hpool, hpoolRead⟩ := copyDir_array scratch.pool hconfig
  obtain ⟨context, hcontext, hcontextRead⟩ := copyDir_array scratch.context hpoolRead
  refine ⟨context, ?_, hcontextRead⟩
  simp [connectionDir, hload, hmain, threadPoolDir, hpool, clientDir, hcontext]

/-! ## The loop of the parser -/

/-- With `i` bytes stored the loop appends what `copyPath` takes with the room
that is left. -/
theorem copyPathInto_string {memory text : Bytes}
    (hread : readString memory = some text) {path : ByteArea 256} {i : ℕ}
    (hfree : 0 ∉ path.bytes.take i) (hroom : i ≤ 255) :
    ∃ after, copyPathInto path i memory = some after ∧
      after.string = some (path.bytes.take i ++ copyPath (255 - i) text) := by
  induction memory generalizing path text i with
  | nil => simp [readString] at hread
  | cons c memory ih =>
      have hend : ∃ after, path.store i 0 = some after ∧
          after.string = some (path.bytes.take i) := by
        obtain ⟨after, hstore, hbytes⟩ := path.exists_store (by omega : i < 256) 0
        rw [List.set_eq_take_append_cons_drop, if_pos (by rw [path.size]; omega)]
          at hbytes
        exact ⟨after, hstore, ByteArea.string_of_bytes hbytes hfree⟩
      by_cases hc : c = 0
      · subst hc
        simp only [readString, if_true, Option.some.injEq] at hread
        subst hread
        have hnothing : copyPath (255 - i) [] = [] := by cases 255 - i <;> rfl
        simpa [copyPathInto, hnothing] using hend
      · simp only [readString, if_neg hc, Option.map_eq_some_iff] at hread
        obtain ⟨tail, htail, rfl⟩ := hread
        by_cases hfull : i < 255
        · obtain ⟨k, hk⟩ := Nat.exists_eq_add_of_lt hfull
          have hleft : 255 - i = k + 1 := by omega
          by_cases hspace : isspace c = true
          · simpa [copyPathInto, hleft, copyPath, hspace] using hend
          · -- one more byte is stored and the loop goes on
            obtain ⟨stored, hstore, hbytes⟩ := path.exists_store (by omega : i < 256) c
            have htake : stored.bytes.take (i + 1) = path.bytes.take i ++ [c] := by
              rw [hbytes, List.set_eq_take_append_cons_drop, if_pos (by
                rw [path.size]; omega)]
              have hlength : (path.bytes.take i).length = i := by
                rw [List.length_take, path.size]
                omega
              rw [List.take_append, hlength]
              simp
            have hkept : 0 ∉ stored.bytes.take (i + 1) := by
              rw [htake, List.mem_append, List.mem_singleton, not_or]
              exact ⟨hfree, Ne.symm hc⟩
            obtain ⟨after, hafter, hafterRead⟩ := ih htail hkept (by omega)
            have hrest : 255 - (i + 1) = k := by omega
            refine ⟨after, ?_, ?_⟩
            · simp [copyPathInto, hc, hspace, maxPathSize, hfull, hstore, hafter]
            · rw [hafterRead, htake, hleft, hrest]
              simp [copyPath, hspace]
        · have hleft : 255 - i = 0 := by omega
          have hstop : ¬i < maxPathSize - 1 := by
            simp only [maxPathSize]
            omega
          simpa [copyPathInto, hstop, hleft, copyPath] using hend

theorem parsePath_string (path : ByteArea 256) {buffer : Bytes} {req : HttpRequest}
    (hparse : parseHttpRequest buffer = some req) (hget : req.method = .get) :
    ∃ after, parsePath path (buffer ++ [0]) = some after ∧
      after.string = some req.path.text := by
  have hread : readString (buffer ++ [0]) = some (cstr buffer) :=
    readString_cstr buffer []
  have hsize : 0 + (List.replicate maxPathSize (0 : UInt8)).length ≤ 256 := by
    rw [List.length_replicate]
    decide
  obtain ⟨cleared, hclear, -⟩ := path.exists_write 0 _ hsize
  rcases parseHttpRequest_eq_some hparse with ⟨hmethod, rfl⟩ | ⟨hmethod, rfl⟩
  · have hlength : 4 ≤ (cstr buffer).length := hmethod.length_le
    have hdrop := readString_drop hread hlength
    have hfree : 0 ∉ cleared.bytes.take 0 := by simp
    obtain ⟨after, hcopy, hafter⟩ := copyPathInto_string hdrop hfree (by omega)
    refine ⟨after, ?_, hafter⟩
    rw [parsePath, hclear]
    exact hcopy
  · simp [parseFields] at hget

/-! ## The file path -/

theorem routeFilePath_string (filePath : ByteArea 512) {context path : ByteArea 256}
    {publicDir : CharArray 256} {target : CharArray maxPathSize}
    (hcontext : context.string = some publicDir.text)
    (hpath : path.string = some target.text) :
    ∃ after, routeFilePath filePath context path = some after ∧
      after.string = some (publicDir.text ++
        if target.text = rootTarget then indexTarget else target.text) := by
  have hdir := publicDir.fits
  have hfits := target.fits
  unfold maxPathSize at hfits
  obtain ⟨dir, hcopy, hread⟩ :=
    filePath.copyString_string hcontext (by omega : 511 < 512)
  rw [List.take_of_length_le (by omega)] at hread
  by_cases hroot : target.text = rootTarget
  · have hindex : readString (indexTarget ++ [0]) = some indexTarget :=
      readString_append (by decide) []
    have hlength : indexTarget.length = 11 := by decide
    obtain ⟨after, hcat, hafter⟩ := ByteArea.strcat_string hread hindex (by omega)
    rw [if_pos hroot]
    refine ⟨after, ?_, hafter⟩
    rw [hroot] at hpath
    simp [routeFilePath, hcopy, hpath, hcat]
  · obtain ⟨after, hcat, hafter⟩ := ByteArea.strcat_string hread hpath (by omega)
    rw [if_neg hroot]
    refine ⟨after, ?_, hafter⟩
    simp [routeFilePath, hcopy, hpath, hroot, hcat]

theorem servedFilePath_string (scratch : Scratch) (file : Option Bytes)
    (args : List Bytes) (cwd : Directory) {buffer : Bytes} {req : HttpRequest}
    (hparse : parseHttpRequest buffer = some req) (hget : req.method = .get) :
    ∃ filePath, servedFilePath scratch file args cwd buffer = some filePath ∧
      filePath.string = some ((startProcess file args cwd).config.publicDir.text ++
        if req.path.text = rootTarget then indexTarget else req.path.text) := by
  obtain ⟨context, hcontext, hcontextRead⟩ :=
    connectionDir_string scratch file args cwd
  obtain ⟨path, hpath, hpathRead⟩ := parsePath_string scratch.path hparse hget
  obtain ⟨after, hroute, hafter⟩ :=
    routeFilePath_string scratch.filePath hcontextRead hpathRead
  refine ⟨after, ?_, hafter⟩
  simp [servedFilePath, hcontext, hpath, hroute]

/-! ## The 200 header -/

theorem MimeMemory.readString {mimeType : Bytes} (hmime : MimeMemory mimeType) :
    ∃ text, CString.readString mimeType = some text ∧ 0 ∉ text ∧ text.length ≤ 63 := by
  cases hmime with
  | literal path =>
      have hdefault : 0 ∉ defaultMimeType ∧ defaultMimeType.length ≤ 63 := by decide
      have htable : ∀ row ∈ mimeTypes, 0 ∉ row.2 ∧ row.2.length ≤ 63 := by decide
      have hplain := getMimeType_mem (P := fun mime => 0 ∉ mime ∧ mime.length ≤ 63)
        hdefault htable path
      exact ⟨_, readString_append hplain.1 [], hplain⟩
  | entry hread =>
      exact ⟨_, hread, ByteArea.nulFree_of_string hread,
        Nat.lt_succ_iff.mp (ByteArea.length_lt_of_string hread)⟩

theorem okHeaderText_bound {length : ℤ} {mime : Bytes}
    (hlength : (decimal length).length ≤ 20) (hmime : mime.length ≤ 63)
    (keepAlive : Bool) :
    (okHeaderText length mime (connState keepAlive)).length < 384 := by
  have hconn : (connState keepAlive).length ≤ 10 := by cases keepAlive <;> decide
  have hnames : (ascii "HTTP/1.1 200 OK\r\nContent-Length: ").length = 33 ∧
      (ascii "\r\nContent-Type: ").length = 16 ∧
      (ascii "\r\nConnection: ").length = 14 ∧
      (ascii "\r\nKeep-Alive: timeout=3, max=100\r\n\r\n").length = 36 := by
    decide
  simp only [okHeaderText, List.length_append, hnames]
  omega

theorem nulFree_okHeaderText (length : ℤ) {mime : Bytes} (hmime : 0 ∉ mime)
    (keepAlive : Bool) : 0 ∉ okHeaderText length mime (connState keepAlive) := by
  have hconn : 0 ∉ connState keepAlive := by cases keepAlive <;> decide
  have hlength : 0 ∉ decimal length := notMem_decimal (by decide) (by decide) length
  have hnames : 0 ∉ ascii "HTTP/1.1 200 OK\r\nContent-Length: " ∧
      0 ∉ ascii "\r\nContent-Type: " ∧ 0 ∉ ascii "\r\nConnection: " ∧
      0 ∉ ascii "\r\nKeep-Alive: timeout=3, max=100\r\n\r\n" := by decide
  simp only [okHeaderText, List.mem_append, not_or]
  exact ⟨⟨⟨⟨⟨⟨hnames.1, hlength⟩, hnames.2.1⟩, hmime⟩, hnames.2.2.1⟩, hconn⟩,
    hnames.2.2.2⟩

theorem blankLine_isSuffix_okHeaderText (length : ℤ) (mime conn : Bytes) :
    blankLine <:+ okHeaderText length mime conn := by
  have hend : blankLine <:+ ascii "\r\nKeep-Alive: timeout=3, max=100\r\n\r\n" := by
    decide
  exact hend.trans (List.suffix_append _ _)

/-- A file size is a `long` on the disk path and a `size_t` in the cache. -/
theorem length_decimal_size {length : ℤ} (hlow : longMin ≤ length)
    (hhigh : length < 2 ^ 64) : (decimal length).length ≤ 20 := by
  by_cases hlong : length ≤ longMax
  · exact length_decimal_long hlow hlong
  · obtain ⟨n, rfl⟩ := Int.eq_ofNat_of_zero_le (by
      unfold longMax at hlong
      omega : 0 ≤ length)
    exact length_decimal_le (by omega) (by omega)

theorem writeOkHeader_string (header : ByteArea 384) {length : ℤ} {mimeType : Bytes}
    (hlow : longMin ≤ length) (hhigh : length < 2 ^ 64) (hmime : MimeMemory mimeType)
    (keepAlive : Bool) :
    ∃ mime after, CString.readString mimeType = some mime ∧
      writeOkHeader header length mimeType keepAlive = some after ∧
      after.string = some (okHeaderText length mime (connState keepAlive)) := by
  obtain ⟨mime, hread, hfree, hshort⟩ := hmime.readString
  obtain ⟨after, hwrite, hafter⟩ := header.snprintf_string (by omega : 0 < 384) le_rfl
    (nulFree_okHeaderText length hfree keepAlive)
  rw [snprintf_of_length_lt (okHeaderText_bound (length_decimal_size hlow hhigh)
    hshort keepAlive)] at hafter
  refine ⟨mime, after, hread, ?_, hafter⟩
  simp [writeOkHeader, hread, hwrite]

/-- The arrays hold what the model on texts says. -/
theorem servedFilePath_filePath (scratch : Scratch) (file : Option Bytes)
    (args : List Bytes) (cwd : Directory) {buffer : Bytes} {req : HttpRequest}
    (hparse : parseHttpRequest buffer = some req) (hget : req.method = .get) :
    ∃ area, servedFilePath scratch file args cwd buffer = some area ∧
      area.string =
        some (filePath (startProcess file args cwd).config.publicDir req.path.text) := by
  rw [filePath_eq]
  exact servedFilePath_string scratch file args cwd hparse hget

theorem writeOkHeader_okHeader (header : ByteArea 384) {length : ℤ} {mimeType : Bytes}
    (hlow : longMin ≤ length) (hhigh : length < 2 ^ 64) (hmime : MimeMemory mimeType)
    (keepAlive : Bool) :
    ∃ mime after, CString.readString mimeType = some mime ∧
      writeOkHeader header length mimeType keepAlive = some after ∧
      after.string = some (okHeader length mime (connState keepAlive)) := by
  obtain ⟨text, hread, -, hshort⟩ := hmime.readString
  obtain ⟨mime, after, hmimeRead, hwrite, hafter⟩ :=
    writeOkHeader_string header hlow hhigh hmime keepAlive
  obtain rfl : text = mime := Option.some.inj (hread.symm.trans hmimeRead)
  have hlength := okHeaderText_bound (length_decimal_size hlow hhigh) hshort keepAlive
  refine ⟨text, after, hread, hwrite, ?_⟩
  rw [hafter, ← snprintf_of_length_lt hlength]
  rfl

/-- Neither `strcat` leaves `file_path`, which is the document root followed by
the path of the request, and the whole 200 header is written. -/
theorem route_buffers_safe (scratch : Scratch) (file : Option Bytes)
    (args : List Bytes) (cwd : Directory) {buffer : Bytes} {req : HttpRequest}
    (hparse : parseHttpRequest buffer = some req) (hget : req.method = .get) :
    (∃ filePath, servedFilePath scratch file args cwd buffer = some filePath ∧
      filePath.string = some ((startProcess file args cwd).config.publicDir.text ++
        if req.path.text = rootTarget then indexTarget else req.path.text)) ∧
    ∀ (header : ByteArea 384) (length : ℤ) (mimeType : Bytes) (keepAlive : Bool),
      longMin ≤ length → length < 2 ^ 64 → MimeMemory mimeType →
        ∃ mime after, CString.readString mimeType = some mime ∧
          writeOkHeader header length mimeType keepAlive = some after ∧
          after.string = some (okHeaderText length mime (connState keepAlive)) ∧
          blankLine <:+ okHeaderText length mime (connState keepAlive) := by
  refine ⟨servedFilePath_string scratch file args cwd hparse hget, ?_⟩
  intro header length mimeType keepAlive hlow hhigh hmime
  obtain ⟨mime, after, hread, hwrite, hafter⟩ :=
    writeOkHeader_string header hlow hhigh hmime keepAlive
  exact ⟨mime, after, hread, hwrite, hafter, blankLine_isSuffix_okHeaderText _ _ _⟩

/-- Arrays that hold nothing but letters before. -/
def letterArea (n : ℕ) : ByteArea n := ⟨List.replicate n 83, List.length_replicate⟩

def letterScratch : Scratch where
  absolute := letterArea 512
  pool := letterArea 256
  context := letterArea 256
  path := letterArea 256
  filePath := letterArea 512

/-- The daemon started in `/srv` without a configuration file. -/
theorem route_buffers_safe_style :
    (∃ area, servedFilePath letterScratch none [ascii "-d"] srv
        (ascii "GET /style.css HTTP/1.1\r\n\r\n") = some area ∧
      area.string = some (ascii "/srv/public/style.css")) ∧
    ∃ after, writeOkHeader (letterArea 384) 3 (getMimeType (ascii "/style.css") ++ [0])
        true = some after ∧
      after.string = some (okHeaderText 3 (ascii "text/css") (ascii "keep-alive")) := by
  have hparse : parseHttpRequest (ascii "GET /style.css HTTP/1.1\r\n\r\n") =
      some (parseFields (ascii "GET /style.css HTTP/1.1\r\n\r\n") .get 4) := by
    decide
  have hpath : (startProcess none [ascii "-d"] srv).config.publicDir.text ++
      (if ascii "/style.css" = rootTarget then indexTarget else ascii "/style.css") =
        ascii "/srv/public/style.css" := by decide
  obtain ⟨hfile, hheader⟩ :=
    route_buffers_safe letterScratch none [ascii "-d"] srv hparse rfl
  obtain ⟨mime, after, hread, hwrite, hafter, -⟩ := hheader (letterArea 384) 3 _ true
    (by decide) (by decide) (.literal (ascii "/style.css"))
  have hmime : mime = ascii "text/css" := Option.some.inj (hread.symm.trans (by decide))
  rw [hmime] at hafter
  rw [← hpath]
  exact ⟨hfile, after, hwrite, hafter⟩

end Lith
