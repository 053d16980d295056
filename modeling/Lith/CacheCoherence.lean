import Lith.CacheVersions
import Lith.TransitionSystem

/-!
# Loading an entry while a writer replaces the file

`lith_cache_add` and `lith_cache_hot_reload` open the file, ask for its status
by path and read from the handle, and a writer may rename a new version over
the path between any two of these calls.  The handle keeps the version that
was opened while the status is that of the moment, so an old content can be
stored under a new time.  A replacement after the `stat` is harmless: the
entry is then older than the file and the router reloads it.
-/

namespace Lith

open CString

inductive LoadTarget where
  | add (filepath : CharArray 512) (mimeType : Bytes)
  | reload (idx : Fin maxCacheEntries)

inductive Loading where
  | idle
  | opened (target : LoadTarget) (handle : FileVersion)
  | measured (target : LoadTarget) (handle : FileVersion) (st : Stat)

structure CoherenceState where
  files : Bytes → Option FileVersion
  cache : LithCache
  loading : Loading

/-- The calls of the two functions and the renames of the writer; a call that
may fail says whether it succeeds. -/
inductive CoherenceAction where
  | replace (path : Bytes) (version : FileVersion)
  | fopen (target : LoadTarget) (succeeds : Bool)
  | stat (succeeds : Bool)
  | fread (memory : Option (ℕ → UInt8))

def LoadTarget.path (target : LoadTarget) (cache : LithCache) : Bytes :=
  match target with
  | .add filepath _ => filepath.text
  | .reload idx => (cache.entries idx).filepath.text

def LoadTarget.finish (target : LoadTarget) (cache : LithCache) (io : FileAccess) :
    LithCache :=
  match target with
  | .add filepath mimeType => (lithCacheAdd cache filepath.text mimeType io).2
  | .reload idx =>
      cache.setEntry idx (lithCacheHotReload (cache.entries idx) io).2

/-- The answers to a call that opened one version and asked for the status of
the path, possibly of another version. -/
def loadedAccess (handle : FileVersion) (st : Option Stat)
    (memory : Option (ℕ → UInt8)) : FileAccess where
  opened := true
  stat := st
  endPosition := handle.content.length
  memory := memory
  bytes := handle.content

def CoherenceState.replace (state : CoherenceState) (path : Bytes)
    (version : FileVersion) : CoherenceState :=
  { state with files := Function.update state.files path (some version) }

inductive CoherenceStep : CoherenceState → CoherenceAction → CoherenceState → Prop where
  | replace (state : CoherenceState) (path : Bytes) (version : FileVersion)
      (hlater : ∀ old, state.files path = some old → old.mtime < version.mtime) :
      CoherenceStep state (.replace path version) (state.replace path version)
  | fopen (state : CoherenceState) (target : LoadTarget) (handle : FileVersion)
      (hidle : state.loading = .idle)
      (hfile : state.files (target.path state.cache) = some handle) :
      CoherenceStep state (.fopen target true)
        { state with loading := .opened target handle }
  | fopenFails (state : CoherenceState) (target : LoadTarget)
      (hidle : state.loading = .idle) :
      CoherenceStep state (.fopen target false)
        { state with cache := target.finish state.cache FileAccess.absent }
  | stat (state : CoherenceState) (target : LoadTarget)
      (handle current : FileVersion)
      (hopened : state.loading = .opened target handle)
      (hfile : state.files (target.path state.cache) = some current) :
      CoherenceStep state (.stat true)
        { state with loading := .measured target handle current.status }
  | statFails (state : CoherenceState) (target : LoadTarget)
      (handle : FileVersion)
      (hopened : state.loading = .opened target handle) :
      CoherenceStep state (.stat false)
        { state with
          cache := target.finish state.cache (loadedAccess handle none none)
          loading := .idle }
  | fread (state : CoherenceState) (target : LoadTarget) (handle : FileVersion)
      (st : Stat) (memory : Option (ℕ → UInt8))
      (hmeasured : state.loading = .measured target handle st) :
      CoherenceStep state (.fread memory)
        { state with
          cache := target.finish state.cache (loadedAccess handle (some st) memory)
          loading := .idle }

def coherenceSystem : TransitionSystem CoherenceState CoherenceAction where
  start := fun state =>
    state.cache = lithCacheInit LithCache.zero ∧ state.loading = .idle
  step := CoherenceStep

/-- While nothing is loading, an active entry with the time of its file has
the content of its file, and any other content is recognised by its time. -/
def CoherenceState.Coherent (state : CoherenceState) : Prop :=
  state.loading = .idle →
    ∀ idx : Fin maxCacheEntries, idx.val < state.cache.entryCount →
      (state.cache.entries idx).isActive = true →
      ∀ version,
        state.files (state.cache.entries idx).filepath.text = some version →
        ((state.cache.entries idx).lastModified = version.mtime →
          (state.cache.entries idx).content = some version.content) ∧
        ((state.cache.entries idx).content ≠ some version.content →
          (state.cache.entries idx).lastModified < version.mtime)

/-- Nothing is renamed over a path between its `fopen` and its `stat`, and no
added path is too long for the array of an entry. -/
def Undisturbed (state : CoherenceState) : CoherenceAction → Prop
  | .replace path _ => ∀ target handle, state.loading = .opened target handle →
      path ≠ target.path state.cache
  | .fopen (.add filepath _) _ => filepath.text.length ≤ 255
  | _ => True

/-! ## The invariant of undisturbed loading -/

def EntryTracks (files : Bytes → Option FileVersion) (entry : CacheEntry) :
    Prop :=
  ∃ version, files entry.filepath.text = some version ∧ entry.Tracks version

def LoadTarget.Fits : LoadTarget → Prop
  | .add filepath _ => filepath.text.length ≤ 255
  | .reload _ => True

/-- What a call in progress knows about the file. -/
def Loading.Knows (files : Bytes → Option FileVersion) (cache : LithCache) :
    Loading → Prop
  | .idle => True
  | .opened target handle =>
      target.Fits ∧ files (target.path cache) = some handle
  | .measured target handle st =>
      target.Fits ∧ st = handle.status ∧
        ∃ current, files (target.path cache) = some current ∧
          handle.Precedes current

structure CoherenceState.Inv (state : CoherenceState) : Prop where
  entries : state.cache.All (EntryTracks state.files)
  loading : state.loading.Knows state.files state.cache

theorem CoherenceState.Inv.coherent {state : CoherenceState}
    (hinv : state.Inv) : state.Coherent := by
  intro _ idx hcount _ version hfile
  obtain ⟨current, hcurrent, htracks⟩ := hinv.entries idx hcount
  have hsame : current = version := by
    rw [hcurrent] at hfile
    exact Option.some.inj hfile
  subst hsame
  rcases htracks with holder | hholds
  · refine ⟨?_, fun _ => holder⟩
    intro htime
    omega
  · refine ⟨fun _ => hholds.content, ?_⟩
    intro hcontent
    exact absurd hholds.content hcontent

/-! ## What one call stores -/

theorem finish_absent (target : LoadTarget) (cache : LithCache) :
    target.finish cache FileAccess.absent = cache := by
  cases target with
  | add filepath mimeType =>
      rcases lithCacheAdd_cases cache filepath.text mimeType FileAccess.absent with
        ⟨-, hsame⟩ | ⟨_, _, _, hopened, _⟩
      · exact hsame
      · simp [FileAccess.absent] at hopened
  | reload idx =>
      simp [LoadTarget.finish, lithCacheHotReload, FileAccess.absent,
        LithCache.setEntry]

theorem finish_without_stat (target : LoadTarget) (cache : LithCache)
    (handle : FileVersion) :
    target.finish cache (loadedAccess handle none none) = cache := by
  cases target with
  | add filepath mimeType =>
      rcases lithCacheAdd_cases cache filepath.text mimeType
          (loadedAccess handle none none) with
        ⟨-, hsame⟩ | ⟨_, _, _, _, hstat, _⟩
      · exact hsame
      · simp [loadedAccess] at hstat
  | reload idx =>
      simp [LoadTarget.finish, lithCacheHotReload, loadedAccess, LithCache.setEntry]

theorem entryTracks_of_holds {files : Bytes → Option FileVersion}
    {entry : CacheEntry} {handle current : FileVersion}
    (hfile : files entry.filepath.text = some current)
    (hnext : handle.Precedes current) (hholds : entry.Holds handle) :
    EntryTracks files entry := by
  refine ⟨current, hfile, ?_⟩
  have htracks : entry.Tracks handle := Or.inr hholds
  exact htracks.of_precedes hnext

theorem finish_tracks {files : Bytes → Option FileVersion} {cache : LithCache}
    {target : LoadTarget} {handle current : FileVersion}
    (hentries : cache.All (EntryTracks files)) (hfits : target.Fits)
    (hfile : files (target.path cache) = some current)
    (hnext : handle.Precedes current) (memory : Option (ℕ → UInt8)) :
    (target.finish cache (loadedAccess handle (some handle.status) memory)).All
      (EntryTracks files) := by
  cases target with
  | add filepath mimeType =>
      apply hentries.lithCacheAdd
      intro st memory' hstat hmemory
      have hst : st = handle.status := (Option.some.inj hstat).symm
      have hmem : memory = some memory' := hmemory
      subst hst hmem
      have hkey : (strncpy 255 filepath.text).text = filepath.text :=
        strncpy_text filepath.nulFree hfits
      apply entryTracks_of_holds _ hnext
      · exact handle.loadedEntry_holds filepath.text mimeType memory'
      · rw [← hfile]
        exact congrArg files hkey
  | reload idx =>
      apply hentries.lithCacheHotReload
      intro st memory' _ hmemory
      have hmem : memory = some memory' := hmemory
      subst hmem
      apply entryTracks_of_holds _ hnext
      · exact handle.lithCacheHotReload_holds (cache.entries idx) memory'
      · rw [lithCacheHotReload_filepath]
        exact hfile

/-! ## Every step keeps the invariant -/

theorem EntryTracks.replace {files : Bytes → Option FileVersion}
    {entry : CacheEntry} (htracks : EntryTracks files entry) {path : Bytes}
    {version : FileVersion}
    (hlater : ∀ old, files path = some old → old.mtime < version.mtime) :
    EntryTracks (Function.update files path (some version)) entry := by
  obtain ⟨current, hfile, htracks⟩ := htracks
  by_cases hpath : entry.filepath.text = path
  · refine ⟨version, ?_, ?_⟩
    · rw [hpath, Function.update_self]
    · apply htracks.of_precedes
      exact Or.inr (hlater current (hpath ▸ hfile))
  · refine ⟨current, ?_, htracks⟩
    rw [Function.update_of_ne hpath, hfile]

theorem Loading.Knows.replace {files : Bytes → Option FileVersion}
    {cache : LithCache} {loading : Loading} (hknows : loading.Knows files cache)
    {path : Bytes} {version : FileVersion}
    (hlater : ∀ old, files path = some old → old.mtime < version.mtime)
    (hapart : ∀ target handle, loading = .opened target handle →
      path ≠ target.path cache) :
    loading.Knows (Function.update files path (some version)) cache := by
  cases loading with
  | idle => trivial
  | opened target handle =>
      obtain ⟨hfits, hfile⟩ := hknows
      refine ⟨hfits, ?_⟩
      rw [Function.update_of_ne (hapart target handle rfl).symm, hfile]
  | measured target handle st =>
      obtain ⟨hfits, hst, current, hfile, hnext⟩ := hknows
      by_cases hpath : target.path cache = path
      · refine ⟨hfits, hst, version, ?_, ?_⟩
        · rw [hpath, Function.update_self]
        · exact hnext.trans (Or.inr (hlater current (hpath ▸ hfile)))
      · refine ⟨hfits, hst, current, ?_, hnext⟩
        rw [Function.update_of_ne hpath, hfile]

theorem CoherenceState.Inv.step {before after : CoherenceState}
    {action : CoherenceAction} (hinv : before.Inv)
    (hallowed : Undisturbed before action)
    (hstep : CoherenceStep before action after) : after.Inv := by
  cases hstep with
  | replace path version hlater =>
      constructor
      · intro idx hidx
        exact (hinv.entries idx hidx).replace hlater
      · exact hinv.loading.replace hlater hallowed
  | fopen target handle hidle hfile =>
      refine ⟨hinv.entries, ?_, hfile⟩
      cases target with
      | add filepath mimeType => exact hallowed
      | reload idx => trivial
  | fopenFails target hidle =>
      rw [finish_absent]
      exact hinv
  | stat target handle current hopened hfile =>
      have hknows := hinv.loading
      rw [hopened] at hknows
      obtain ⟨hfits, hhandle⟩ := hknows
      have hsame : handle = current := by
        rw [hhandle] at hfile
        exact Option.some.inj hfile
      subst hsame
      exact ⟨hinv.entries, hfits, rfl, handle, hhandle, handle.precedes_rfl⟩
  | statFails target handle hopened =>
      rw [finish_without_stat]
      exact ⟨hinv.entries, trivial⟩
  | fread target handle st memory hmeasured =>
      have hknows := hinv.loading
      rw [hmeasured] at hknows
      obtain ⟨hfits, rfl, current, hfile, hnext⟩ := hknows
      exact ⟨finish_tracks hinv.entries hfits hfile hnext memory, trivial⟩

/-- Along every undisturbed run the cache is coherent with the file system. -/
theorem coherent_of_undisturbed {state : CoherenceState}
    (hreach : (coherenceSystem.restrict Undisturbed).Reachable state) :
    state.Coherent := by
  apply CoherenceState.Inv.coherent
  apply hreach.invariant
  · intro first hstart
    refine ⟨?_, ?_⟩
    · rw [hstart.1]
      exact LithCache.all_init _ _
    · rw [hstart.2]
      trivial
  · intro before action after hinv hstep
    exact hinv.step hstep.1 hstep.2

/-! ## Two runs with one replacement -/

def firstVersion : FileVersion := ⟨ascii "a", 1, by decide⟩

def secondVersion : FileVersion := ⟨ascii "b", 2, by decide⟩

def indexLoad : LoadTarget :=
  .add ⟨ascii "public/index.html", by decide, by decide⟩ (ascii "text/html")

def beforeLoad : CoherenceState where
  files := fun path =>
    if path = ascii "public/index.html" then some firstVersion else none
  cache := lithCacheInit LithCache.zero
  loading := .idle

theorem beforeLoad_later (old : FileVersion)
    (hold : beforeLoad.files (ascii "public/index.html") = some old) :
    old.mtime < secondVersion.mtime := by
  have hfirst : firstVersion = old := Option.some.inj hold
  rw [← hfirst]
  decide

def opening : CoherenceState :=
  { beforeLoad with loading := .opened indexLoad firstVersion }

theorem coherent_late_replacement :
    let measured : CoherenceState :=
      { opening with loading := .measured indexLoad firstVersion firstVersion.status }
    let replaced := measured.replace (ascii "public/index.html") secondVersion
    CoherenceState.Coherent
      { replaced with
        cache := indexLoad.finish replaced.cache
          (loadedAccess firstVersion (some firstVersion.status) (some fun _ => 0))
        loading := .idle } := by
  intro measured replaced
  apply coherent_of_undisturbed
  have hstart : (coherenceSystem.restrict Undisturbed).Reachable beforeLoad :=
    .start ⟨rfl, rfl⟩
  have hshort : (ascii "public/index.html").length ≤ 255 := by decide
  have hopened : (coherenceSystem.restrict Undisturbed).Reachable opening :=
    hstart.next (.fopen indexLoad true)
      ⟨hshort, .fopen beforeLoad indexLoad firstVersion rfl rfl⟩
  have hmeasured : (coherenceSystem.restrict Undisturbed).Reachable measured :=
    hopened.next (.stat true)
      ⟨trivial, .stat opening indexLoad firstVersion firstVersion rfl rfl⟩
  have hreplaced : (coherenceSystem.restrict Undisturbed).Reachable replaced := by
    refine hmeasured.next _ ⟨?_, .replace measured _ _ beforeLoad_later⟩
    intro target handle hload
    simp [measured] at hload
  exact hreplaced.next (.fread (some fun _ => 0)) ⟨trivial, .fread replaced
    indexLoad firstVersion firstVersion.status (some fun _ => 0) rfl⟩

/-- The new version arrives between `fopen` and `stat`: the old content is
stored under the new time. -/
theorem not_coherent_early_replacement :
    ¬∀ state, coherenceSystem.Reachable state → state.Coherent := by
  intro hcoherent
  have hstart : coherenceSystem.Reachable beforeLoad := .start ⟨rfl, rfl⟩
  have hopened : coherenceSystem.Reachable opening :=
    hstart.next _ (.fopen beforeLoad indexLoad firstVersion rfl rfl)
  have hreplaced := hopened.next _
    (.replace opening (ascii "public/index.html") secondVersion beforeLoad_later)
  have hmeasured := hreplaced.next _
    (.stat _ indexLoad firstVersion secondVersion rfl rfl)
  have hloaded := hmeasured.next _
    (.fread _ indexLoad firstVersion secondVersion.status (some fun _ => 0) rfl)
  have hcontent := (hcoherent _ hloaded rfl ⟨0, by decide⟩ (by decide) (by decide)
    secondVersion rfl).1 (by decide)
  revert hcontent
  decide

end Lith
