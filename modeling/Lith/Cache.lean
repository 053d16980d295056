import Lith.ServerUtils

/-!
# The static RAM cache

The functions of `cache.c` on an array of `maxCacheEntries` slots.  Every call
that touches the file system receives the answers of the library as a
`FileAccess`, so each failure exit is a case of the function.  The lock is treated
separately; here a call is one critical section.
-/

namespace Lith

open CString

def maxCacheEntries : ℕ := 32

def maxCacheFileSize : ℤ := 1024 * 1024

structure CacheEntry where
  filepath : CharArray 256
  content : Option Bytes
  size : ℕ
  mimeType : CharArray 64
  lastModified : ℤ
  isActive : Bool
  deriving DecidableEq

structure LithCache where
  entries : Fin maxCacheEntries → CacheEntry
  entryCount : ℕ

def CacheEntry.zero : CacheEntry where
  filepath := CharArray.zero 255
  content := none
  size := 0
  mimeType := CharArray.zero 63
  lastModified := 0
  isActive := false

def LithCache.zero : LithCache where
  entries := fun _ => CacheEntry.zero
  entryCount := 0

def LithCache.setEntry (cache : LithCache) (idx : Fin maxCacheEntries)
    (entry : CacheEntry) : LithCache :=
  { cache with entries := Function.update cache.entries idx entry }

def lithCacheInit (cache : LithCache) : LithCache where
  entries := fun idx => { cache.entries idx with
    isActive := false, content := none, lastModified := 0 }
  entryCount := 0

def loadedEntry (filepath mimeType : Bytes) (io : FileAccess) (st : Stat) :
    CacheEntry where
  filepath := strncpy 255 filepath
  content := some (io.fread st.size)
  size := (io.fread st.size).length
  mimeType := strncpy 63 mimeType
  lastModified := st.mtime
  isActive := true

def lithCacheAdd (cache : LithCache) (filepath mimeType : Bytes)
    (io : FileAccess) : ℤ × LithCache :=
  if hroom : cache.entryCount < maxCacheEntries then
    if io.opened then
      match io.stat with
      | none => (-5, cache)
      | some st =>
          if maxCacheFileSize < st.size then (-3, cache)
          else
            match io.memory with
            | none => (-4, cache)
            | some _ =>
                (0, { entries := Function.update cache.entries
                        ⟨cache.entryCount, hroom⟩
                        (loadedEntry filepath mimeType io st)
                      entryCount := cache.entryCount + 1 })
    else (-2, cache)
  else (-1, cache)

def LithCache.matchesKey (cache : LithCache) (filepath : Bytes)
    (idx : Fin maxCacheEntries) : Bool :=
  idx.val < cache.entryCount && (cache.entries idx).isActive &&
    (cache.entries idx).filepath.text = filepath

/-- The scan of `lith_cache_lookup`; the pointer it returns is a slot. -/
def lithCacheLookup (cache : LithCache) (filepath : Bytes) :
    Option (Fin maxCacheEntries) :=
  (List.finRange maxCacheEntries).find? (cache.matchesKey filepath)

def lithCacheHotReload (entry : CacheEntry) (io : FileAccess) : Bool × CacheEntry :=
  if io.opened then
    match io.stat with
    | none => (false, entry)
    | some st =>
        match io.memory with
        | none => (false, entry)
        | some _ =>
            (true, { entry with
              content := some (io.fread st.size)
              size := (io.fread st.size).length
              lastModified := st.mtime })
  else (false, entry)

@[simp] theorem LithCache.setEntry_entryCount (cache : LithCache)
    (idx : Fin maxCacheEntries) (entry : CacheEntry) :
    (cache.setEntry idx entry).entryCount = cache.entryCount := rfl

theorem LithCache.matchesKey_iff (cache : LithCache) (filepath : Bytes)
    (idx : Fin maxCacheEntries) :
    cache.matchesKey filepath idx = true ↔
      idx.val < cache.entryCount ∧ (cache.entries idx).isActive = true ∧
        (cache.entries idx).filepath.text = filepath := by
  simp [LithCache.matchesKey, and_assoc]

theorem lithCacheLookup_eq_some {cache : LithCache} {filepath : Bytes}
    {idx : Fin maxCacheEntries}
    (hhit : lithCacheLookup cache filepath = some idx) :
    idx.val < cache.entryCount ∧ (cache.entries idx).isActive = true ∧
      (cache.entries idx).filepath.text = filepath := by
  have hmatch := List.find?_some hhit
  exact (cache.matchesKey_iff filepath idx).mp hmatch

theorem lithCacheLookup_congr {cache cache' : LithCache} {filepath : Bytes}
    (hkeys : ∀ idx, cache'.matchesKey filepath idx = cache.matchesKey filepath idx) :
    lithCacheLookup cache' filepath = lithCacheLookup cache filepath := by
  have hfun : cache'.matchesKey filepath = cache.matchesKey filepath :=
    funext hkeys
  unfold lithCacheLookup
  rw [hfun]

/-- A reload either fails and changes nothing or replaces content, size and
time together. -/
theorem lithCacheHotReload_cases (entry : CacheEntry) (io : FileAccess) :
    lithCacheHotReload entry io = (false, entry) ∨
      ∃ st memory, io.opened = true ∧ io.stat = some st ∧
        io.memory = some memory ∧
        lithCacheHotReload entry io = (true, { entry with
          content := some (io.fread st.size)
          size := (io.fread st.size).length
          lastModified := st.mtime }) := by
  unfold lithCacheHotReload
  cases hopened : io.opened with
  | false => simp
  | true =>
      cases hstat : io.stat with
      | none => simp
      | some st =>
          cases hmemory : io.memory with
          | none => simp
          | some memory => simp

@[simp] theorem lithCacheHotReload_filepath (entry : CacheEntry) (io : FileAccess) :
    (lithCacheHotReload entry io).2.filepath = entry.filepath := by
  rcases lithCacheHotReload_cases entry io with h | ⟨st, memory, -, -, -, h⟩ <;>
    simp [h]

@[simp] theorem lithCacheHotReload_isActive (entry : CacheEntry) (io : FileAccess) :
    (lithCacheHotReload entry io).2.isActive = entry.isActive := by
  rcases lithCacheHotReload_cases entry io with h | ⟨st, memory, -, -, -, h⟩ <;>
    simp [h]

@[simp] theorem lithCacheHotReload_mimeType (entry : CacheEntry) (io : FileAccess) :
    (lithCacheHotReload entry io).2.mimeType = entry.mimeType := by
  rcases lithCacheHotReload_cases entry io with h | ⟨st, memory, -, -, -, h⟩ <;>
    simp [h]

/-- An addition either reports an error and changes nothing or fills exactly
the next slot. -/
theorem lithCacheAdd_cases (cache : LithCache) (filepath mimeType : Bytes)
    (io : FileAccess) :
    ((lithCacheAdd cache filepath mimeType io).1 ≠ 0 ∧
        (lithCacheAdd cache filepath mimeType io).2 = cache) ∨
      ∃ (hroom : cache.entryCount < maxCacheEntries) (st : Stat)
        (memory : ℕ → UInt8), io.opened = true ∧ io.stat = some st ∧
        st.size ≤ maxCacheFileSize ∧ io.memory = some memory ∧
        lithCacheAdd cache filepath mimeType io =
          (0, { entries := Function.update cache.entries
                  ⟨cache.entryCount, hroom⟩
                  (loadedEntry filepath mimeType io st)
                entryCount := cache.entryCount + 1 }) := by
  by_cases hroom : cache.entryCount < maxCacheEntries
  · cases hopened : io.opened with
    | false => simp [lithCacheAdd, hroom, hopened]
    | true =>
        cases hstat : io.stat with
        | none => simp [lithCacheAdd, hroom, hopened, hstat]
        | some st =>
            by_cases hsize : maxCacheFileSize < st.size
            · simp [lithCacheAdd, hroom, hopened, hstat, hsize]
            · cases hmemory : io.memory with
              | none => simp [lithCacheAdd, hroom, hopened, hstat, hsize, hmemory]
              | some memory =>
                  right
                  refine ⟨hroom, st, memory, rfl, rfl, by omega, rfl, ?_⟩
                  simp [lithCacheAdd, hroom, hopened, hstat, hsize, hmemory]
  · simp [lithCacheAdd, hroom]

def LithCache.All (P : CacheEntry → Prop) (cache : LithCache) : Prop :=
  ∀ idx : Fin maxCacheEntries, idx.val < cache.entryCount →
    P (cache.entries idx)

theorem LithCache.all_init (P : CacheEntry → Prop) (cache : LithCache) :
    (lithCacheInit cache).All P := by
  intro idx hidx
  exact absurd hidx (Nat.not_lt_zero _)

theorem LithCache.All.setEntry {P : CacheEntry → Prop} {cache : LithCache}
    (hall : cache.All P) {entry : CacheEntry} (hentry : P entry)
    (idx : Fin maxCacheEntries) : (cache.setEntry idx entry).All P := by
  intro other hother
  by_cases hidx : other = idx
  · subst hidx
    simpa [LithCache.setEntry] using hentry
  · simpa [LithCache.setEntry, hidx] using hall other hother

theorem LithCache.All.lithCacheAdd {P : CacheEntry → Prop} {cache : LithCache}
    (hall : cache.All P) {filepath mimeType : Bytes} {io : FileAccess}
    (hloaded : ∀ st memory, io.stat = some st → io.memory = some memory →
      P (loadedEntry filepath mimeType io st)) :
    (lithCacheAdd cache filepath mimeType io).2.All P := by
  rcases lithCacheAdd_cases cache filepath mimeType io with
    ⟨-, hsame⟩ | ⟨hroom, st, memory, -, hstat, -, hmemory, hadd⟩
  · rw [hsame]
    exact hall
  · rw [hadd]
    intro idx hidx
    by_cases hnew : idx = ⟨cache.entryCount, hroom⟩
    · subst hnew
      simpa using hloaded st memory hstat hmemory
    · simp only [Function.update_of_ne hnew]
      apply hall
      have hne : idx.val ≠ cache.entryCount := by
        intro heq
        exact hnew (Fin.ext heq)
      simp only at hidx
      omega

theorem LithCache.All.lithCacheHotReload {P : CacheEntry → Prop}
    {cache : LithCache} (hall : cache.All P) (idx : Fin maxCacheEntries)
    {io : FileAccess}
    (hloaded : ∀ st memory, io.stat = some st → io.memory = some memory →
      P (lithCacheHotReload (cache.entries idx) io).2) :
    (cache.setEntry idx
      (Lith.lithCacheHotReload (cache.entries idx) io).2).All P := by
  rcases lithCacheHotReload_cases (cache.entries idx) io with
    hsame | ⟨st, memory, -, hstat, hmemory, -⟩
  · simpa only [hsame, LithCache.setEntry, Function.update_eq_self] using hall
  · exact hall.setEntry (hloaded st memory hstat hmemory) idx

end Lith
