import Lith.HttpRouter
import Lith.TransitionSystem

/-!
# Histories of cache calls

Any sequence of additions and hot reloads, with whatever the disk answers in
between.  A history records beside the cache which paths were added with
success and from which file each slot was last filled.  The size limit is
checked on addition only, so it holds as long as every reload finds a small
file.  The key is a cut copy of the path and is not looked for before it is
inserted, so lookups are exact as long as the added paths are short and
distinct.
-/

namespace Lith

open CString

/-- What the file system can answer: `st_size` is a non-negative `off_t`. -/
structure DiskAccess extends FileAccess where
  statSize : ∀ st, stat = some st → 0 ≤ st.size ∧ st.size ≤ longMax

def DiskAccess.regular (content : Bytes) (mtime : ℤ)
    (hfits : (content.length : ℤ) ≤ longMax) : DiskAccess where
  toFileAccess := FileAccess.regular content mtime fun _ => 0
  statSize := by
    rintro st ⟨⟩
    exact ⟨Int.natCast_nonneg _, hfits⟩

abbrev CPath := { text : Bytes // 0 ∉ text }

inductive CacheCall where
  | add (filepath : CPath) (mimeType : Bytes) (io : DiskAccess)
  | reload (idx : Fin maxCacheEntries) (io : DiskAccess)

structure CacheHistory where
  cache : LithCache
  added : List Bytes
  origin : Fin maxCacheEntries → Bytes

namespace CacheHistory

def init (cache : LithCache) : CacheHistory where
  cache := lithCacheInit cache
  added := []
  origin := fun _ => []

def add (history : CacheHistory) (filepath mimeType : Bytes) (io : FileAccess) :
    CacheHistory :=
  let result := lithCacheAdd history.cache filepath mimeType io
  if result.1 = 0 then
    { cache := result.2
      added := history.added ++ [filepath]
      origin := fun idx =>
        if idx.val = history.cache.entryCount then filepath
        else history.origin idx }
  else { history with cache := result.2 }

def reload (history : CacheHistory) (idx : Fin maxCacheEntries)
    (io : FileAccess) : CacheHistory :=
  let entry := history.cache.entries idx
  let result := lithCacheHotReload entry io
  { history with
    cache := history.cache.setEntry idx result.2
    origin := if result.1 then
        Function.update history.origin idx entry.filepath.text
      else history.origin }

def next (history : CacheHistory) : CacheCall → CacheHistory
  | .add filepath mimeType io => history.add filepath.val mimeType io.toFileAccess
  | .reload idx io => history.reload idx io.toFileAccess

end CacheHistory

def cacheCallSystem : TransitionSystem CacheHistory CacheCall where
  start := fun history => ∃ cache, history = CacheHistory.init cache
  step := fun history call after => after = history.next call

namespace CacheHistory

theorem add_cache (history : CacheHistory) (filepath mimeType : Bytes)
    (io : FileAccess) :
    (history.add filepath mimeType io).cache =
      (lithCacheAdd history.cache filepath mimeType io).2 := by
  simp only [add]
  split_ifs <;> rfl

theorem add_cases (history : CacheHistory) (filepath mimeType : Bytes)
    (io : FileAccess) :
    history.add filepath mimeType io = history ∨
      ∃ (hroom : history.cache.entryCount < maxCacheEntries) (st : Stat),
        io.stat = some st ∧ st.size ≤ maxCacheFileSize ∧
        history.add filepath mimeType io =
          { cache :=
              { entries := Function.update history.cache.entries
                  ⟨history.cache.entryCount, hroom⟩
                  (loadedEntry filepath mimeType io st)
                entryCount := history.cache.entryCount + 1 }
            added := history.added ++ [filepath]
            origin := fun idx =>
              if idx.val = history.cache.entryCount then filepath
              else history.origin idx } := by
  unfold add
  rcases lithCacheAdd_cases history.cache filepath mimeType io with
    ⟨hcode, hsame⟩ | ⟨hroom, st, memory, -, hstat, hsize, -, hadd⟩
  · left
    simp only [if_neg hcode, hsame]
  · right
    refine ⟨hroom, st, hstat, hsize, ?_⟩
    simp only [hadd, if_pos]

theorem reload_cases (history : CacheHistory) (idx : Fin maxCacheEntries)
    (io : FileAccess) :
    history.reload idx io = history ∨
      ∃ st memory, io.opened = true ∧ io.stat = some st ∧
        io.memory = some memory ∧
        history.reload idx io =
          { history with
            cache := history.cache.setEntry idx
              { history.cache.entries idx with
                content := some (io.fread st.size)
                size := (io.fread st.size).length
                lastModified := st.mtime }
            origin := Function.update history.origin idx
              (history.cache.entries idx).filepath.text } := by
  unfold reload
  rcases lithCacheHotReload_cases (history.cache.entries idx) io with
    hsame | ⟨st, memory, hopened, hstat, hmemory, hreload⟩
  · left
    simp [hsame, LithCache.setEntry]
  · right
    refine ⟨st, memory, hopened, hstat, hmemory, ?_⟩
    simp [hreload]

end CacheHistory

/-! ## The size of the entries -/

structure LithCache.WithinBounds (cache : LithCache) : Prop where
  entry : ∀ idx, (cache.entries idx).isActive = true →
    ((cache.entries idx).size : ℤ) ≤ maxCacheFileSize
  total : ∑ idx, (if (cache.entries idx).isActive then
    ((cache.entries idx).size : ℤ) else 0) ≤ maxCacheEntries * maxCacheFileSize

/-- A reload that goes through finds at most `maxCacheFileSize` bytes, by the
size that `stat` gives or by the bytes that can be read. -/
def ReloadFits (history : CacheHistory) : CacheCall → Prop
  | .add _ _ _ => True
  | .reload idx io =>
      (history.cache.entries idx).isActive = true → io.opened = true →
        io.memory.isSome = true → ∀ st, io.stat = some st →
          st.size ≤ maxCacheFileSize ∨ (io.bytes.length : ℤ) ≤ maxCacheFileSize

def LithCache.SmallEntries (cache : LithCache) : Prop :=
  ∀ idx, (cache.entries idx).isActive = true →
    ((cache.entries idx).size : ℤ) ≤ maxCacheFileSize

theorem LithCache.SmallEntries.withinBounds {cache : LithCache}
    (hsmall : cache.SmallEntries) : cache.WithinBounds where
  entry := hsmall
  total := by
    have hterm : ∀ idx ∈ (Finset.univ : Finset (Fin maxCacheEntries)),
        (if (cache.entries idx).isActive then
          ((cache.entries idx).size : ℤ) else 0) ≤ maxCacheFileSize := by
      intro idx _
      split_ifs with hactive
      · exact hsmall idx hactive
      · decide
    have hsum := Finset.sum_le_card_nsmul _ _ _ hterm
    simpa using hsum

theorem DiskAccess.length_fread (io : DiskAccess) {st : Stat}
    (hstat : io.stat = some st) :
    ((io.fread st.size).length : ℤ) = min st.size io.bytes.length := by
  obtain ⟨hnonneg, hmax⟩ := io.statSize st hstat
  have hsizeT : (sizeT st.size : ℤ) = st.size := by
    unfold sizeT
    unfold longMax at hmax
    omega
  rw [FileAccess.fread, List.length_take, Nat.cast_min, hsizeT]

theorem LithCache.SmallEntries.next {history : CacheHistory}
    (hsmall : history.cache.SmallEntries) {call : CacheCall}
    (hfits : ReloadFits history call) :
    (history.next call).cache.SmallEntries := by
  cases call with
  | add filepath mimeType io =>
      rcases history.add_cases filepath.val mimeType io.toFileAccess with
        hsame | ⟨hroom, st, hstat, hsize, hadd⟩
      · rw [CacheHistory.next, hsame]
        exact hsmall
      · rw [CacheHistory.next, hadd]
        intro idx hactive
        by_cases hidx : idx = ⟨history.cache.entryCount, hroom⟩
        · subst hidx
          simp only [Function.update_self, loadedEntry]
          rw [io.length_fread hstat]
          exact (min_le_left _ _).trans hsize
        · simp only [Function.update_of_ne hidx] at hactive ⊢
          exact hsmall idx hactive
  | reload idx io =>
      rcases history.reload_cases idx io.toFileAccess with
        hsame | ⟨st, memory, hopened, hstat, hmemory, hreload⟩
      · rw [CacheHistory.next, hsame]
        exact hsmall
      · rw [CacheHistory.next, hreload]
        intro other hactive
        by_cases hother : other = idx
        · subst hother
          simp only [LithCache.setEntry, Function.update_self] at hactive ⊢
          rw [io.length_fread hstat]
          exact min_le_iff.mpr
            (hfits hactive hopened (by simp [hmemory]) st hstat)
        · simp only [LithCache.setEntry, Function.update_of_ne hother]
            at hactive ⊢
          exact hsmall other hactive

theorem CacheHistory.next_exceeds {history : CacheHistory} {call : CacheCall}
    (hlarge : ¬ReloadFits history call) :
    ¬(history.next call).cache.SmallEntries := by
  cases call with
  | add filepath mimeType io => exact absurd trivial hlarge
  | reload idx io =>
      simp only [ReloadFits] at hlarge
      push Not at hlarge
      obtain ⟨hactive, hopened, hgranted, st, hstat, hsize, hbytes⟩ := hlarge
      obtain ⟨memory, hmemory⟩ := Option.isSome_iff_exists.mp hgranted
      intro hsmall
      have hentry := hsmall idx
      simp only [CacheHistory.next, CacheHistory.reload, lithCacheHotReload,
        hopened, hstat, hmemory, if_true, LithCache.setEntry,
        Function.update_self] at hentry
      have hbound := hentry hactive
      rw [io.length_fread hstat] at hbound
      omega

theorem withinBounds_of_reachable {history : CacheHistory}
    (hreach : (cacheCallSystem.restrict ReloadFits).Reachable history) :
    history.cache.WithinBounds := by
  apply LithCache.SmallEntries.withinBounds
  apply hreach.invariant (P := fun history => history.cache.SmallEntries)
  · rintro first ⟨cache, rfl⟩ idx hactive
    simp [CacheHistory.init, lithCacheInit] at hactive
  · rintro before call after hsmall ⟨hfits, rfl⟩
    exact hsmall.next hfits

/-- The limit holds in every state of a run whose reloads all find small
files, and the next call keeps it if and only if it is no reload of a larger
one. -/
theorem cache_within_bounds_run {history : CacheHistory}
    (hreach : (cacheCallSystem.restrict ReloadFits).Reachable history) :
    history.cache.WithinBounds ∧
      ∀ call after, cacheCallSystem.step history call after →
        (after.cache.WithinBounds ↔ ReloadFits history call) := by
  refine ⟨withinBounds_of_reachable hreach, ?_⟩
  intro call after hstep
  constructor
  · intro hbounds
    by_contra hlarge
    rw [show after = history.next call from hstep] at hbounds
    exact CacheHistory.next_exceeds hlarge hbounds.entry
  · intro hfits
    exact withinBounds_of_reachable (hreach.next call ⟨hfits, hstep⟩)

theorem maxCacheEntries_pos : 0 < maxCacheEntries := by decide

theorem nulFree_letter : 0 ∉ ascii "a" := by decide

theorem letter_le_longMax : ((ascii "x").length : ℤ) ≤ longMax := by decide

theorem grown_le_longMax :
    ((List.replicate 1048577 (65 : UInt8)).length : ℤ) ≤ longMax := by
  rw [List.length_replicate]
  decide

/-- A file of one byte is cached. -/
def smallAdd : CacheCall :=
  .add ⟨ascii "a", nulFree_letter⟩ (ascii "text/plain")
    (DiskAccess.regular (ascii "x") 1 letter_le_longMax)

def smallHistory : CacheHistory :=
  (CacheHistory.init LithCache.zero).next smallAdd

theorem letters_le_longMax : ((ascii "yz").length : ℤ) ≤ longMax := by decide

/-- The file gets a second byte and is loaded again. -/
def refreshedHistory : CacheHistory :=
  smallHistory.next
    (.reload ⟨0, maxCacheEntries_pos⟩
      (DiskAccess.regular (ascii "yz") 2 letters_le_longMax))

theorem refreshed_history_within_bounds :
    (cacheCallSystem.restrict ReloadFits).Reachable refreshedHistory ∧
      (refreshedHistory.cache.entries ⟨0, maxCacheEntries_pos⟩).size = 2 ∧
      refreshedHistory.cache.WithinBounds := by
  have hadded : (cacheCallSystem.restrict ReloadFits).Reachable smallHistory :=
    .next (.start ⟨LithCache.zero, rfl⟩) smallAdd ⟨trivial, rfl⟩
  have hfits : ReloadFits smallHistory (.reload ⟨0, maxCacheEntries_pos⟩
      (DiskAccess.regular (ascii "yz") 2 letters_le_longMax)) := by
    rintro - - - st hstat
    cases hstat
    exact Or.inl (by decide)
  have hreach := hadded.next _ ⟨hfits, rfl⟩
  exact ⟨hreach, by decide, (cache_within_bounds_run hreach).1⟩

/-- The file grows by one mebibyte and is loaded again. -/
def grownHistory : CacheHistory :=
  smallHistory.next
    (.reload ⟨0, maxCacheEntries_pos⟩
      (DiskAccess.regular (List.replicate 1048577 65) 2 grown_le_longMax))

theorem grown_file_exceeds_bounds :
    cacheCallSystem.Reachable grownHistory ∧
      ¬grownHistory.cache.WithinBounds := by
  constructor
  · exact .next (.next (.start ⟨LithCache.zero, rfl⟩) _ rfl) _ rfl
  · intro hbounds
    refine CacheHistory.next_exceeds ?_ hbounds.entry
    intro hfits
    rcases hfits rfl rfl rfl _ rfl with hsize | hbytes
    · change ((List.replicate 1048577 (65 : UInt8)).length : ℤ) ≤ _ at hsize
      rw [List.length_replicate] at hsize
      exact absurd hsize (by decide)
    · change ((List.replicate 1048577 (65 : UInt8)).length : ℤ) ≤ _ at hbytes
      rw [List.length_replicate] at hbytes
      exact absurd hbytes (by decide)

/-! ## The keys -/

namespace CacheHistory

/-- A lookup answers exactly the added paths, from their own file. -/
structure Exact (history : CacheHistory) : Prop where
  hit : ∀ path : CPath,
    (lithCacheLookup history.cache path.val).isSome = true ↔
      path.val ∈ history.added
  unique : ∀ idx other, (history.cache.entries idx).isActive = true →
    (history.cache.entries other).isActive = true →
    (history.cache.entries idx).filepath = (history.cache.entries other).filepath →
      idx = other
  sameFile : ∀ (path : CPath) idx,
    lithCacheLookup history.cache path.val = some idx →
      history.origin idx = path.val

/-- The slots in use, in the order in which their paths were added. -/
structure Recorded (history : CacheHistory) : Prop where
  count : history.cache.entryCount = history.added.length
  active : ∀ idx, (history.cache.entries idx).isActive = true ↔
    idx.val < history.added.length
  room : history.added.length ≤ maxCacheEntries
  key : ∀ (idx : Fin maxCacheEntries) path, history.added[idx.val]? = some path →
    (history.cache.entries idx).filepath.text = path.take 255
  origin : ∀ (idx : Fin maxCacheEntries) path,
    history.added[idx.val]? = some path →
      history.origin idx = path ∨ history.origin idx = path.take 255

theorem recorded_init (cache : LithCache) : (init cache).Recorded where
  count := rfl
  active := by simp [init, lithCacheInit]
  room := by simp [init]
  key := by simp [init]
  origin := by simp [init]

theorem getElem?_concat_cases {paths : List Bytes} {added path : Bytes} {i : ℕ}
    (hpath : (paths ++ [added])[i]? = some path) :
    (i = paths.length ∧ path = added) ∨
      (i < paths.length ∧ paths[i]? = some path) := by
  rcases Nat.lt_trichotomy i paths.length with hlt | heq | hgt
  · right
    rw [List.getElem?_append_left hlt] at hpath
    exact ⟨hlt, hpath⟩
  · left
    subst heq
    rw [List.getElem?_concat_length, Option.some.injEq] at hpath
    exact ⟨rfl, hpath.symm⟩
  · have hbound := (List.getElem?_eq_some_iff.mp hpath).1
    simp only [List.length_append, List.length_singleton] at hbound
    omega

theorem Recorded.add {history : CacheHistory} (hrec : history.Recorded)
    (filepath : CPath) (mimeType : Bytes) (io : FileAccess) :
    (history.add filepath.val mimeType io).Recorded := by
  rcases history.add_cases filepath.val mimeType io with
    hsame | ⟨hroom, st, -, -, hadd⟩
  · rw [hsame]
    exact hrec
  have hcount := hrec.count
  have hnew (idx : Fin maxCacheEntries) (hidx : idx.val = history.added.length) :
      idx = ⟨history.cache.entryCount, hroom⟩ := by
    apply Fin.ext
    exact hidx.trans hcount.symm
  have hold (idx : Fin maxCacheEntries) (hidx : idx.val ≠ history.added.length) :
      idx ≠ ⟨history.cache.entryCount, hroom⟩ := by
    rintro rfl
    exact hidx hcount
  rw [hadd]
  refine ⟨?_, ?_, ?_, ?_, ?_⟩
  · simp [hcount]
  · intro idx
    by_cases hidx : idx.val = history.added.length
    · rw [hnew idx hidx]
      simp [loadedEntry, hcount]
    · simp only [Function.update_of_ne (hold idx hidx), hrec.active,
        List.length_append, List.length_singleton]
      omega
  · simp only [List.length_append, List.length_singleton]
    omega
  · intro idx path hpath
    rcases getElem?_concat_cases hpath with ⟨hidx, rfl⟩ | ⟨hlt, hpath⟩
    · rw [hnew idx hidx]
      simp [loadedEntry, strncpy, cstr_eq_self filepath.property]
    · simp only [Function.update_of_ne (hold idx hlt.ne)]
      exact hrec.key idx path hpath
  · intro idx path hpath
    rcases getElem?_concat_cases hpath with ⟨hidx, rfl⟩ | ⟨hlt, hpath⟩
    · simp [hcount, hidx]
    · simp only [hcount, hlt.ne, if_false]
      exact hrec.origin idx path hpath

theorem Recorded.reload {history : CacheHistory} (hrec : history.Recorded)
    (idx : Fin maxCacheEntries) (io : FileAccess) :
    (history.reload idx io).Recorded := by
  rcases history.reload_cases idx io with
    hsame | ⟨st, memory, -, -, -, hreload⟩
  · rw [hsame]
    exact hrec
  · rw [hreload]
    refine ⟨hrec.count, ?_, hrec.room, ?_, ?_⟩
    · intro other
      by_cases hother : other = idx
      · subst hother
        simpa [LithCache.setEntry] using hrec.active other
      · simpa [LithCache.setEntry, hother] using hrec.active other
    · intro other path hpath
      by_cases hother : other = idx
      · subst hother
        simpa [LithCache.setEntry] using hrec.key other path hpath
      · simpa [LithCache.setEntry, hother] using hrec.key other path hpath
    · intro other path hpath
      by_cases hother : other = idx
      · subst hother
        simp [hrec.key other path hpath]
      · simpa [hother] using hrec.origin other path hpath

theorem recorded_of_reachable {history : CacheHistory}
    (hreach : cacheCallSystem.Reachable history) : history.Recorded := by
  apply hreach.invariant
  · rintro first ⟨cache, rfl⟩
    exact recorded_init cache
  · rintro before call after hrec rfl
    cases call with
    | add filepath mimeType io => exact hrec.add filepath mimeType _
    | reload idx io => exact hrec.reload idx _

theorem isSome_lithCacheLookup (cache : LithCache) (path : Bytes) :
    (lithCacheLookup cache path).isSome = true ↔
      ∃ idx, cache.matchesKey path idx = true := by
  unfold lithCacheLookup
  rw [List.find?_isSome]
  simp

theorem Recorded.slot_of_mem {history : CacheHistory} (hrec : history.Recorded)
    {path : Bytes} (hmem : path ∈ history.added) :
    ∃ idx : Fin maxCacheEntries, history.added[idx.val]? = some path := by
  obtain ⟨i, hi, hpath⟩ := List.getElem_of_mem hmem
  have hroom := hrec.room
  exact ⟨⟨i, by omega⟩, List.getElem?_eq_some_iff.mpr ⟨hi, hpath⟩⟩

theorem Recorded.path_of_lt {history : CacheHistory}
    (hshort : ∀ path ∈ history.added, path.length ≤ 255)
    (hrec : history.Recorded) {idx : Fin maxCacheEntries}
    (hlt : idx.val < history.added.length) :
    history.added[idx.val]? =
        some (history.cache.entries idx).filepath.text ∧
      history.origin idx = (history.cache.entries idx).filepath.text := by
  have hget : history.added[idx.val]? = some history.added[idx.val] :=
    List.getElem?_eq_getElem hlt
  have hkey := hrec.key idx _ hget
  have horigin := hrec.origin idx _ hget
  rw [List.take_of_length_le (hshort _ (List.getElem_mem hlt))] at hkey horigin
  rw [hkey]
  exact ⟨hget, or_self_iff.mp horigin⟩

theorem Recorded.exact {history : CacheHistory} (hrec : history.Recorded)
    (hshort : ∀ path ∈ history.added, path.length ≤ 255)
    (hdistinct : history.added.Nodup) : history.Exact where
  hit := by
    intro path
    rw [isSome_lithCacheLookup]
    constructor
    · rintro ⟨idx, hmatch⟩
      rw [LithCache.matchesKey_iff, hrec.active] at hmatch
      obtain ⟨-, hlt, hkey⟩ := hmatch
      rw [← hkey]
      exact List.mem_of_getElem? (hrec.path_of_lt hshort hlt).1
    · intro hmem
      obtain ⟨idx, hget⟩ := hrec.slot_of_mem hmem
      have hlt := (List.getElem?_eq_some_iff.mp hget).1
      have hkey := hrec.key idx _ hget
      rw [List.take_of_length_le (hshort _ hmem)] at hkey
      refine ⟨idx, (LithCache.matchesKey_iff _ _ _).mpr ⟨?_, ?_, hkey⟩⟩
      · rw [hrec.count]
        exact hlt
      · exact (hrec.active idx).mpr hlt
  unique := by
    intro idx other hidx hother hkeys
    rw [hrec.active] at hidx hother
    have hleft := (hrec.path_of_lt hshort hidx).1
    have hright := (hrec.path_of_lt hshort hother).1
    rw [hkeys, ← hright] at hleft
    exact Fin.ext ((List.getElem?_inj hidx hdistinct).mp hleft)
  sameFile := by
    intro path idx hhit
    obtain ⟨-, hactive, hkey⟩ := lithCacheLookup_eq_some hhit
    rw [← hkey]
    exact (hrec.path_of_lt hshort ((hrec.active idx).mp hactive)).2

theorem length_le_of_hit {cache : LithCache} {path : Bytes}
    (hhit : (lithCacheLookup cache path).isSome = true) : path.length ≤ 255 := by
  obtain ⟨idx, hmatch⟩ := (isSome_lithCacheLookup _ _).mp hhit
  have hkey := ((LithCache.matchesKey_iff _ _ _).mp hmatch).2.2
  have hfits := (cache.entries idx).filepath.fits
  rw [hkey] at hfits
  exact Nat.lt_succ_iff.mp hfits

theorem Exact.short {history : CacheHistory} (hexact : history.Exact)
    (hfree : ∀ path ∈ history.added, 0 ∉ path) :
    ∀ path ∈ history.added, path.length ≤ 255 := by
  intro path hmem
  exact length_le_of_hit ((hexact.hit ⟨path, hfree path hmem⟩).mpr hmem)

theorem Recorded.nodup_of_exact {history : CacheHistory}
    (hrec : history.Recorded) (hexact : history.Exact) :
    history.added.Nodup := by
  rw [List.nodup_iff_getElem?_ne_getElem?]
  intro i j hij hj heq
  have hroom := hrec.room
  have hgeti : history.added[i]? = some history.added[i] :=
    List.getElem?_eq_getElem (by omega)
  have hkeyi := hrec.key ⟨i, by omega⟩ _ hgeti
  have hkeyj := hrec.key ⟨j, by omega⟩ _ (heq.symm.trans hgeti)
  have hsame := hexact.unique ⟨i, by omega⟩ ⟨j, by omega⟩
    ((hrec.active _).mpr (by simp only; omega)) ((hrec.active _).mpr hj)
    (CharArray.ext (hkeyi.trans hkeyj.symm))
  rw [Fin.mk.injEq] at hsame
  omega

theorem nulFree_of_reachable {history : CacheHistory}
    (hreach : cacheCallSystem.Reachable history) :
    ∀ path ∈ history.added, 0 ∉ path := by
  apply hreach.invariant
    (P := fun history => ∀ path ∈ history.added, 0 ∉ path)
  · rintro first ⟨cache, rfl⟩
    simp [init]
  · rintro before call after hfree rfl
    cases call with
    | add filepath mimeType io =>
        rcases before.add_cases filepath.val mimeType io.toFileAccess with
          hsame | ⟨hroom, st, -, -, hadd⟩
        · rw [next, hsame]
          exact hfree
        · rw [next, hadd]
          intro path hmem
          rcases List.mem_append.mp hmem with hold | hnew
          · exact hfree path hold
          · rw [List.mem_singleton.mp hnew]
            exact filepath.property
    | reload idx io => exact hfree

end CacheHistory

/-- After any calls the lookups are exact if and only if every path added
with success is at most 255 bytes long and was added once. -/
theorem cache_lookup_exact_iff {history : CacheHistory}
    (hreach : cacheCallSystem.Reachable history) :
    history.Exact ↔
      (∀ path ∈ history.added, path.length ≤ 255) ∧ history.added.Nodup := by
  have hrec := CacheHistory.recorded_of_reachable hreach
  constructor
  · intro hexact
    have hfree := CacheHistory.nulFree_of_reachable hreach
    exact ⟨hexact.short hfree, hrec.nodup_of_exact hexact⟩
  · rintro ⟨hshort, hdistinct⟩
    exact hrec.exact hshort hdistinct

/-- A second file beside the first. -/
def twoPathHistory : CacheHistory :=
  smallHistory.next (.add ⟨ascii "b", by decide⟩ (ascii "text/css")
    (DiskAccess.regular (ascii "yz") 1 letters_le_longMax))

theorem cache_lookup_exact_two_paths :
    cacheCallSystem.Reachable twoPathHistory ∧
      twoPathHistory.added = [ascii "a", ascii "b"] ∧ twoPathHistory.Exact := by
  have hreach : cacheCallSystem.Reachable twoPathHistory :=
    .next (.next (.start ⟨LithCache.zero, rfl⟩) _ rfl) _ rfl
  have hadded : twoPathHistory.added = [ascii "a", ascii "b"] := by decide
  refine ⟨hreach, hadded, (cache_lookup_exact_iff hreach).mpr ?_⟩
  rw [hadded]
  decide

/-! ## The cache of the program -/

namespace CacheHistory

theorem add_added_sublist (history : CacheHistory) (filepath mimeType : Bytes)
    (io : FileAccess) :
    (history.add filepath mimeType io).added.Sublist
      (history.added ++ [filepath]) := by
  rcases history.add_cases filepath mimeType io with
    hsame | ⟨hroom, st, -, -, hadd⟩
  · rw [hsame]
    exact List.sublist_append_left _ _
  · rw [hadd]

/-- The two calls of `thread_pool_init`. -/
def ofThreadPoolInit (publicDir : Bytes) (files : Files) : CacheHistory :=
  let indexPath := snprintf 512 (publicDir ++ ascii "/index.html")
  let stylePath := snprintf 512 (publicDir ++ ascii "/style.css")
  ((init LithCache.zero).add indexPath (ascii "text/html") (files indexPath)).add
    stylePath (ascii "text/css") (files stylePath)

theorem ofThreadPoolInit_cache (publicDir : Bytes) (files : Files) :
    (ofThreadPoolInit publicDir files).cache = threadPoolInitCache publicDir files := by
  simp only [ofThreadPoolInit, add_cache, threadPoolInitCache]
  rfl

/-- With a document root of at most 244 bytes the program finds what it cached. -/
theorem exact_ofThreadPoolInit {publicDir : Bytes} (hfree : 0 ∉ publicDir)
    (hshort : publicDir.length ≤ 244) (files : Files) :
    (ofThreadPoolInit publicDir files).Exact := by
  have hnames : 0 ∉ ascii "/index.html" ∧ 0 ∉ ascii "/style.css" ∧
      (ascii "/index.html").length = 11 ∧ (ascii "/style.css").length = 10 := by decide
  have hindex : snprintf 512 (publicDir ++ ascii "/index.html") =
      publicDir ++ ascii "/index.html" := by
    apply snprintf_of_length_lt
    simp only [List.length_append, hnames]
    omega
  have hstyle : snprintf 512 (publicDir ++ ascii "/style.css") =
      publicDir ++ ascii "/style.css" := by
    apply snprintf_of_length_lt
    simp only [List.length_append, hnames]
    omega
  have hindexFree : 0 ∉ publicDir ++ ascii "/index.html" := by
    rw [List.mem_append, not_or]
    exact ⟨hfree, hnames.1⟩
  have hstyleFree : 0 ∉ publicDir ++ ascii "/style.css" := by
    rw [List.mem_append, not_or]
    exact ⟨hfree, hnames.2.1⟩
  have hrec : (ofThreadPoolInit publicDir files).Recorded := by
    simp only [ofThreadPoolInit, hindex, hstyle]
    exact ((recorded_init LithCache.zero).add ⟨_, hindexFree⟩ _ _).add
      ⟨_, hstyleFree⟩ _ _
  have hadded : (ofThreadPoolInit publicDir files).added.Sublist
      [publicDir ++ ascii "/index.html", publicDir ++ ascii "/style.css"] := by
    simp only [ofThreadPoolInit, hindex, hstyle]
    exact (add_added_sublist _ _ _ _).trans
      ((add_added_sublist (init LithCache.zero) _ _ _).append_right _)
  apply hrec.exact
  · intro path hpath
    have hmem := hadded.subset hpath
    simp only [List.mem_cons, List.not_mem_nil, or_false] at hmem
    rcases hmem with rfl | rfl <;> simp only [List.length_append, hnames] <;> omega
  · apply hadded.nodup
    have hne : ascii "/index.html" ≠ ascii "/style.css" := by decide
    simpa using hne

end CacheHistory

/-- The document root of 250 bytes that daemon mode may produce, joined with
the name of the start page. -/
def deepIndexPath : Bytes := List.replicate 250 97 ++ ascii "/index.html"

theorem nulFree_deepIndexPath : 0 ∉ deepIndexPath := by
  have hname : 0 ∉ ascii "/index.html" := by decide
  intro hmem
  rcases List.mem_append.mp hmem with hroot | hfile
  · exact absurd (List.eq_of_mem_replicate hroot) (by decide)
  · exact hname hfile

def deepHistory : CacheHistory :=
  (CacheHistory.init LithCache.zero).next
    (.add ⟨deepIndexPath, nulFree_deepIndexPath⟩ (ascii "text/html")
      (DiskAccess.regular (ascii "x") 1 letter_le_longMax))

theorem deep_path_added_not_found :
    cacheCallSystem.Reachable deepHistory ∧
      deepHistory.added = [deepIndexPath] ∧
      (lithCacheLookup deepHistory.cache deepIndexPath).isSome = false ∧
      ¬deepHistory.Exact := by
  have hadded : deepHistory.added = [deepIndexPath] := rfl
  have hlong : deepIndexPath.length = 261 := by
    rw [deepIndexPath, List.length_append, List.length_replicate]
    rfl
  have hmiss : ¬(lithCacheLookup deepHistory.cache deepIndexPath).isSome = true := by
    intro hhit
    have hshort := CacheHistory.length_le_of_hit hhit
    omega
  refine ⟨.next (.start ⟨LithCache.zero, rfl⟩) _ rfl, hadded,
    Bool.not_eq_true _ |>.mp hmiss, ?_⟩
  intro hexact
  apply hmiss
  rw [hexact.hit ⟨deepIndexPath, nulFree_deepIndexPath⟩, hadded]
  exact List.mem_singleton_self _

end Lith
