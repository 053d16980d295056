import Lith.CacheMemory
import Lith.TransitionSystem

/-!
# Cache calls are atomic

Any sequence of calls on the cache in memory, with whatever the library answers
and with the lock in the hands of the callers in between.  The memory represents a
cache of texts, and a call on the memory is the call of the model on that
cache.  So the scan of a lookup reads only terminated keys, and every call
returns once the lock lets it in.
-/

namespace Lith

open CString

namespace CacheMemory

variable {Thread : Type*} {memory after : CacheMemory Thread} {thread : Thread}

/-! ## The cache as texts -/

/-- The slot has in memory what the entry has as texts. -/
structure Shows (heap : BlockHeap) (slot : EntryMemory) (entry : CacheEntry) : Prop where
  filepath : slot.filepath.string = some entry.filepath.text
  content : ∃ address block, slot.content = some address ∧
    heap.block address = some block ∧ entry.content = some (block.read slot.size)
  size : slot.size = entry.size
  mimeType : slot.mimeType.string = some entry.mimeType.text
  lastModified : slot.lastModified = entry.lastModified
  isActive : slot.isActive = entry.isActive

structure Represents (memory : CacheMemory Thread) (cache : LithCache) : Prop where
  entryCount : memory.entryCount = cache.entryCount
  shows : ∀ idx, idx.val < cache.entryCount →
    Shows memory.heap (memory.entries idx) (cache.entries idx)

theorem represents_init (memory : CacheMemory Thread) (cache : LithCache) :
    memory.lithCacheInit.Represents (Lith.lithCacheInit cache) where
  entryCount := rfl
  shows := fun _ hidx => absurd hidx (Nat.not_lt_zero _)

theorem WellFormed.entryCount_le {cache : LithCache} (hwell : memory.WellFormed)
    (hrep : memory.Represents cache) : cache.entryCount ≤ maxCacheEntries := by
  have hbounded := hwell.bounded
  rw [hrep.entryCount] at hbounded
  exact_mod_cast hbounded

theorem Represents.lock {cache : LithCache} (hrep : memory.Represents cache)
    (lock : RwLock Thread) : Represents { memory with rwlock := lock } cache :=
  ⟨hrep.entryCount, hrep.shows⟩

theorem Filled.shows {idx : Fin maxCacheEntries} {io : CacheAnswers} {st : Stat}
    (hfilled : memory.Filled idx io st after) {entry : CacheEntry}
    (hfilepath : (after.entries idx).filepath.string = some entry.filepath.text)
    (hmimeType : (after.entries idx).mimeType.string = some entry.mimeType.text)
    (hactive : (after.entries idx).isActive = entry.isActive) :
    Shows after.heap (after.entries idx) { entry with
      content := some (io.fread st.size)
      size := (io.fread st.size).length
      lastModified := st.mtime } where
  filepath := hfilepath
  content := by
    obtain ⟨bytes, hblock⟩ := hfilled.block
    refine ⟨io.address, readBlock io st bytes, hfilled.content, hblock, ?_⟩
    rw [hfilled.size, readBlock, Block.read_fill]
  size := hfilled.size
  mimeType := hmimeType
  lastModified := hfilled.lastModified
  isActive := hactive

theorem OnlyEntry.shows {idx other : Fin maxCacheEntries}
    (honly : memory.OnlyEntry idx after) (hother : other ≠ idx) {entry : CacheEntry}
    (hshows : Shows memory.heap (memory.entries other) entry) :
    Shows after.heap (after.entries other) entry := by
  obtain ⟨address, block, hcontent, hblock, htext⟩ := hshows.content
  rw [honly.entries other hother]
  refine { hshows with content := ⟨address, block, hcontent, ?_, htext⟩ }
  rw [honly.contents other address hother hcontent, hblock]

theorem Represents.added {cache : LithCache} (hrep : memory.Represents cache)
    (howned : memory.Owned) (hroom : cache.entryCount < maxCacheEntries)
    {io : CacheAnswers} {st : Stat} {filepath mimeType : Bytes}
    (hfilled : memory.Filled ⟨cache.entryCount, hroom⟩ io st after)
    (hstored : Stored filepath mimeType (after.entries ⟨cache.entryCount, hroom⟩))
    (hcount : after.entryCount = memory.entryCount + 1) :
    after.Represents
      { entries := Function.update cache.entries ⟨cache.entryCount, hroom⟩
          (loadedEntry filepath mimeType io.toFileAccess st)
        entryCount := cache.entryCount + 1 } where
  entryCount := by
    rw [hcount, hrep.entryCount]
    rfl
  shows := by
    intro other hother
    by_cases hnew : other = ⟨cache.entryCount, hroom⟩
    · subst hnew
      simp only [Function.update_self]
      have hkey : (after.entries ⟨cache.entryCount, hroom⟩).filepath.string =
          some (loadedEntry filepath mimeType io.toFileAccess st).filepath.text :=
        hstored.filepath
      exact hfilled.shows hkey hstored.mimeType hstored.isActive
    · simp only [Function.update_of_ne hnew]
      apply (hfilled.onlyEntry howned).shows hnew
      apply hrep.shows
      have hne : other.val ≠ cache.entryCount := fun h => hnew (Fin.ext h)
      simp only at hother
      omega

theorem Represents.reloaded {cache : LithCache} (hrep : memory.Represents cache)
    (howned : memory.Owned) {idx : Fin maxCacheEntries} {io : CacheAnswers} {st : Stat}
    (hfilled : memory.Filled idx io st after)
    (hkept : KeyKept (memory.entries idx) (after.entries idx))
    (hcount : after.entryCount = memory.entryCount) :
    after.Represents (cache.setEntry idx { cache.entries idx with
      content := some (io.fread st.size)
      size := (io.fread st.size).length
      lastModified := st.mtime }) where
  entryCount := by
    rw [hcount, hrep.entryCount]
    rfl
  shows := by
    intro other hother
    have hold := hrep.shows other hother
    by_cases hidx : other = idx
    · subst hidx
      simp only [LithCache.setEntry, Function.update_self]
      apply hfilled.shows
      · rw [hkept.filepath, hold.filepath]
      · rw [hkept.mimeType, hold.mimeType]
      · rw [hkept.isActive, hold.isActive]
    · simp only [LithCache.setEntry, Function.update_of_ne hidx]
      exact (hfilled.onlyEntry howned).shows hidx hold

theorem returned_eq {Result : Type*} {call : Option (Result × CacheMemory Thread)}
    {result result' : Result} {after after' : CacheMemory Thread}
    (hcall : call = some (result, after)) (hcall' : call = some (result', after')) :
    result' = result ∧ after' = after := by
  rw [hcall, Option.some.injEq, Prod.mk.injEq] at hcall'
  exact ⟨hcall'.1.symm, hcall'.2.symm⟩

theorem represents_hotReload {cache : LithCache} (hwell : memory.WellFormed)
    (hrep : memory.Represents cache) {idx : Fin maxCacheEntries} {io : CacheAnswers}
    {reloaded : Bool} (hfresh : memory.Fresh io)
    (hreload : memory.lithCacheHotReload idx io = some (reloaded, after)) :
    after.WellFormed ∧ after.Represents (cache.setEntry idx
      (Lith.lithCacheHotReload (cache.entries idx) io.toFileAccess).2) := by
  obtain ⟨key, hkey, -⟩ := Option.bind_eq_some_iff.mp hreload
  rcases lithCacheHotReload_cases hkey (hwell.live idx) hfresh with
    ⟨hfailed, htexts⟩ | ⟨st, filled, hsucceeded, hfilled, hkept, hcount, htexts⟩
  · obtain ⟨-, rfl⟩ := returned_eq hfailed hreload
    rw [htexts, LithCache.setEntry, Function.update_eq_self]
    exact ⟨hwell, hrep⟩
  · obtain ⟨-, rfl⟩ := returned_eq hsucceeded hreload
    rw [htexts]
    exact ⟨hwell.reloaded hfilled hkept hcount,
      hrep.reloaded hwell.owned hfilled hkept hcount⟩

/-- The scan stops at the slot that the lookup on texts finds. -/
theorem findEntry_eq {cache : LithCache} (hrep : memory.Represents cache)
    (hbounded : cache.entryCount ≤ maxCacheEntries) (filepath : Bytes) {count i : ℕ}
    (hrest : i + count = cache.entryCount)
    (hbefore : ∀ idx, idx.val < i → cache.matchesKey filepath idx = false) :
    memory.findEntry filepath count i =
      some (Lith.lithCacheLookup cache filepath) := by
  induction count generalizing i with
  | zero =>
      have hnone : Lith.lithCacheLookup cache filepath = none := by
        apply List.find?_eq_none.mpr
        intro idx _ hmatch
        have hlt := ((cache.matchesKey_iff filepath idx).mp hmatch).1
        rw [hbefore idx (by omega)] at hmatch
        simp at hmatch
      rw [findEntry, hnone]
  | succ count ih =>
      have hidx : i < maxCacheEntries := by omega
      have hshows := hrep.shows ⟨i, hidx⟩ (by simp only; omega)
      have hmiss (hother : cache.matchesKey filepath ⟨i, hidx⟩ = false) :
          memory.findEntry filepath count (i + 1) =
            some (Lith.lithCacheLookup cache filepath) := by
        apply ih (by omega)
        intro idx hlt
        rcases Nat.lt_succ_iff_lt_or_eq.mp hlt with hlt | heq
        · exact hbefore idx hlt
        · rw [show idx = ⟨i, hidx⟩ from Fin.ext heq]
          exact hother
      rw [findEntry, dif_pos hidx, hshows.filepath, Option.bind_some, hshows.isActive]
      split_ifs with hactive hkey
      · have hhit : Lith.lithCacheLookup cache filepath = some ⟨i, hidx⟩ := by
          apply List.find?_eq_some_iff_getElem.mpr
          refine ⟨?_, i, by simpa using hidx, by simp, ?_⟩
          · rw [cache.matchesKey_iff]
            exact ⟨by simp only; omega, hactive, hkey⟩
          · intro j hj
            simp [hbefore ⟨j, by omega⟩ hj]
        rw [hhit]
      · apply hmiss
        simp [LithCache.matchesKey, hkey]
      · apply hmiss
        simp [LithCache.matchesKey, hactive]

theorem rdlock_eq_some {locked : CacheMemory Thread}
    (hlock : memory.rdlock thread = some locked) :
    locked = { memory with rwlock := memory.rwlock.rdlock thread } ∧
      memory.rwlock.writer = none := by
  unfold rdlock at hlock
  split_ifs at hlock with hfree
  exact ⟨(Option.some.inj hlock).symm, Option.isNone_iff_eq_none.mp hfree⟩

variable [DecidableEq Thread]

/-- A lookup that gets the lock keeps it if and only if it finds an entry. -/
theorem lithCacheLookup_eq {cache : LithCache} (hrep : memory.Represents cache)
    (hbounded : cache.entryCount ≤ maxCacheEntries) {locked : CacheMemory Thread}
    (hlock : memory.rdlock thread = some locked) (filepath : Bytes) :
    memory.lithCacheLookup thread filepath =
      some (Lith.lithCacheLookup cache filepath,
        if (Lith.lithCacheLookup cache filepath).isSome then
          { memory with rwlock := memory.rwlock.rdlock thread }
        else memory) := by
  obtain ⟨rfl, hwriter⟩ := rdlock_eq_some hlock
  have hscan := findEntry_eq (hrep.lock (memory.rwlock.rdlock thread)) hbounded filepath
    (Nat.zero_add cache.entryCount) fun idx hlt => absurd hlt (Nat.not_lt_zero _)
  have hcount : memory.entryCount.toNat = cache.entryCount := by
    rw [hrep.entryCount, Int.toNat_natCast]
  simp only [lithCacheLookup, hlock, Option.bind_some, hcount, hscan, Option.map_some]
  cases Lith.lithCacheLookup cache filepath with
  | none => simp [unlock, RwLock.unlock_rdlock_of_writer hwriter]
  | some idx => simp

end CacheMemory

/-! ## Runs -/

/-- The calls of the cache, and those by which its callers use the lock. -/
inductive MemoryCall (Thread : Type*) where
  | add (thread : Thread) (filepath mimeType : Bytes) (io : CacheAnswers)
  | lookup (thread : Thread) (filepath : Bytes)
  | hotReload (idx : Fin maxCacheEntries) (io : CacheAnswers)
  | rdlock (thread : Thread)
  | wrlock (thread : Thread)
  | unlock (thread : Thread)

variable {Thread : Type*} [DecidableEq Thread]

inductive MemoryStep :
    CacheMemory Thread → MemoryCall Thread → CacheMemory Thread → Prop where
  | add {memory after : CacheMemory Thread} {thread : Thread}
      {filepath mimeType : Bytes} {io : CacheAnswers} {code : ℤ}
      (hfresh : memory.Fresh io)
      (hadd : memory.lithCacheAdd thread filepath mimeType io = some (code, after)) :
      MemoryStep memory (.add thread filepath mimeType io) after
  | lookup {memory after : CacheMemory Thread} {thread : Thread} {filepath : Bytes}
      {found : Option (Fin maxCacheEntries)}
      (hlookup : memory.lithCacheLookup thread filepath = some (found, after)) :
      MemoryStep memory (.lookup thread filepath) after
  | hotReload {memory after : CacheMemory Thread} {idx : Fin maxCacheEntries}
      {io : CacheAnswers} {reloaded : Bool} (hfresh : memory.Fresh io)
      (hreload : memory.lithCacheHotReload idx io = some (reloaded, after)) :
      MemoryStep memory (.hotReload idx io) after
  | rdlock {memory after : CacheMemory Thread} {thread : Thread}
      (hlock : memory.rdlock thread = some after) :
      MemoryStep memory (.rdlock thread) after
  | wrlock {memory after : CacheMemory Thread} {thread : Thread}
      (hlock : memory.wrlock thread = some after) :
      MemoryStep memory (.wrlock thread) after
  | unlock {memory : CacheMemory Thread} {thread : Thread}
      (hheld : memory.rwlock.Holds thread) :
      MemoryStep memory (.unlock thread) (memory.unlock thread)

variable (Thread) in
def cacheMemorySystem : TransitionSystem (CacheMemory Thread) (MemoryCall Thread) where
  start := fun memory => ∃ before, memory = CacheMemory.lithCacheInit before
  step := MemoryStep

/-- The call on the cache of texts. -/
def MemoryCall.onTexts (cache : LithCache) : MemoryCall Thread → LithCache
  | .add _ filepath mimeType io =>
      (lithCacheAdd cache filepath mimeType io.toFileAccess).2
  | .hotReload idx io =>
      cache.setEntry idx (lithCacheHotReload (cache.entries idx) io.toFileAccess).2
  | .lookup _ _ | .rdlock _ | .wrlock _ | .unlock _ => cache

variable (Thread) in
def cacheTextSystem : TransitionSystem LithCache (MemoryCall Thread) where
  start := fun cache => ∃ before, cache = lithCacheInit before
  step := fun cache call after => after = call.onTexts cache

namespace CacheMemory

variable {memory after : CacheMemory Thread} {cache : LithCache}

theorem represents_add (hwell : memory.WellFormed) (hrep : memory.Represents cache)
    {thread : Thread} {filepath mimeType : Bytes} {io : CacheAnswers} {code : ℤ}
    (hfresh : memory.Fresh io)
    (hadd : memory.lithCacheAdd thread filepath mimeType io = some (code, after)) :
    after.WellFormed ∧
      after.Represents (Lith.lithCacheAdd cache filepath mimeType io.toFileAccess).2 := by
  obtain ⟨locked, hlock, -⟩ := Option.bind_eq_some_iff.mp hadd
  rcases lithCacheAdd_cases hlock hrep.entryCount filepath mimeType hfresh with
    ⟨code', -, hfailed, htexts⟩ | ⟨hroom, st, stored, hsucceeded, hfilled, hstored,
      hcount, htexts⟩
  · obtain ⟨-, rfl⟩ := returned_eq hfailed hadd
    rw [htexts]
    exact ⟨hwell, hrep⟩
  · obtain ⟨-, rfl⟩ := returned_eq hsucceeded hadd
    rw [htexts]
    exact ⟨hwell.added hrep.entryCount hfilled hstored hcount,
      hrep.added hwell.owned hroom hfilled hstored hcount⟩

/-- A call on the memory is the call on the texts that the memory represents. -/
theorem represents_step (hwell : memory.WellFormed) (hrep : memory.Represents cache)
    {call : MemoryCall Thread} (hstep : MemoryStep memory call after) :
    after.WellFormed ∧ after.Represents (call.onTexts cache) := by
  cases hstep with
  | add hfresh hadd => exact represents_add hwell hrep hfresh hadd
  | lookup hlookup =>
      obtain ⟨locked, hlock, -⟩ := Option.bind_eq_some_iff.mp hlookup
      obtain ⟨-, rfl⟩ := returned_eq
        (lithCacheLookup_eq hrep (hwell.entryCount_le hrep) hlock _) hlookup
      split_ifs
      · exact ⟨hwell.lock _, hrep.lock _⟩
      · exact ⟨hwell, hrep⟩
  | hotReload hfresh hreload => exact represents_hotReload hwell hrep hfresh hreload
  | rdlock hlock =>
      obtain ⟨rfl, -⟩ := rdlock_eq_some hlock
      exact ⟨hwell.lock _, hrep.lock _⟩
  | wrlock hlock =>
      obtain ⟨rfl, -⟩ := wrlock_eq_some hlock
      exact ⟨hwell.lock _, hrep.lock _⟩
  | unlock hheld => exact ⟨hwell.lock _, hrep.lock _⟩

/-- A run on the memory is a run on the texts. -/
theorem represents_of_reachable (hreach : (cacheMemorySystem Thread).Reachable memory) :
    memory.WellFormed ∧
      ∃ cache, (cacheTextSystem Thread).Reachable cache ∧ memory.Represents cache := by
  induction hreach with
  | start hstart =>
      obtain ⟨before, rfl⟩ := hstart
      exact ⟨wellFormed_init before, _, .start ⟨LithCache.zero, rfl⟩,
        represents_init before LithCache.zero⟩
  | next _ call hstep ih =>
      obtain ⟨hwell, cache, hcache, hrep⟩ := ih
      obtain ⟨hafter, hrepAfter⟩ := represents_step hwell hrep hstep
      exact ⟨hafter, call.onTexts cache, .next hcache call rfl, hrepAfter⟩

/-! ## Atomic calls -/

/-- A failure changes nothing, a success nothing but the next slot and the count,
and the call waits for nothing but the lock. -/
structure AddAtomic (memory : CacheMemory Thread) (thread : Thread)
    (filepath mimeType : Bytes) (io : CacheAnswers) : Prop where
  failed : ∀ code after,
    memory.lithCacheAdd thread filepath mimeType io = some (code, after) →
    code ≠ 0 → after = memory
  added : ∀ after,
    memory.lithCacheAdd thread filepath mimeType io = some (0, after) →
    ∃ idx : Fin maxCacheEntries, memory.entryCount = idx.val ∧
      memory.OnlyEntry idx after ∧ after.entryCount = memory.entryCount + 1
  returns : memory.wrlock thread ≠ none →
    memory.lithCacheAdd thread filepath mimeType io ≠ none

/-- A failure changes nothing, a success nothing but content, size and time of
the slot, and the reload of an entry returns. -/
structure ReloadAtomic (memory : CacheMemory Thread) (idx : Fin maxCacheEntries)
    (io : CacheAnswers) : Prop where
  failed : ∀ after, memory.lithCacheHotReload idx io = some (false, after) →
    after = memory
  reloaded : ∀ after, memory.lithCacheHotReload idx io = some (true, after) →
    memory.OnlyEntry idx after ∧ KeyKept (memory.entries idx) (after.entries idx) ∧
      after.entryCount = memory.entryCount
  returns : (memory.entries idx).isActive = true →
    memory.lithCacheHotReload idx io ≠ none

/-- A lookup changes nothing but the lock, which it keeps for what it finds. -/
structure LookupAtomic (memory : CacheMemory Thread) (thread : Thread)
    (filepath : Bytes) : Prop where
  missed : ∀ after, memory.lithCacheLookup thread filepath = some (none, after) →
    after = memory
  found : ∀ idx after,
    memory.lithCacheLookup thread filepath = some (some idx, after) →
    (memory.entries idx).isActive = true ∧
      after = { memory with rwlock := memory.rwlock.rdlock thread }
  returns : memory.rdlock thread ≠ none →
    memory.lithCacheLookup thread filepath ≠ none

theorem addAtomic (hwell : memory.WellFormed) (hrep : memory.Represents cache)
    (thread : Thread) (filepath mimeType : Bytes) {io : CacheAnswers}
    (hfresh : memory.Fresh io) : memory.AddAtomic thread filepath mimeType io := by
  cases hlock : memory.wrlock thread with
  | none =>
      have hwaits : memory.lithCacheAdd thread filepath mimeType io = none := by
        rw [lithCacheAdd, hlock, Option.bind_none]
      constructor <;> simp [hwaits, hlock]
  | some locked =>
      rcases lithCacheAdd_cases hlock hrep.entryCount filepath mimeType hfresh with
        ⟨code, hcode, hfailed, -⟩ | ⟨hroom, st, stored, hadded, hfilled, -, hcount, -⟩
      · constructor
        · intro code' after hadd _
          exact (returned_eq hfailed hadd).2
        · intro after hadd
          exact absurd (returned_eq hfailed hadd).1.symm hcode
        · simp [hfailed]
      · constructor
        · intro code after hadd hcode
          exact absurd (returned_eq hadded hadd).1 hcode
        · intro after hadd
          obtain ⟨-, rfl⟩ := returned_eq hadded hadd
          exact ⟨_, hrep.entryCount, hfilled.onlyEntry hwell.owned, hcount⟩
        · simp [hadded]

omit [DecidableEq Thread] in
theorem reloadAtomic (hwell : memory.WellFormed) (idx : Fin maxCacheEntries)
    {io : CacheAnswers} (hfresh : memory.Fresh io) : memory.ReloadAtomic idx io := by
  cases hread : (memory.entries idx).filepath.string with
  | none =>
      have hnone : memory.lithCacheHotReload idx io = none := by
        rw [lithCacheHotReload, hread, Option.bind_none]
      constructor
      · simp [hnone]
      · simp [hnone]
      · intro hactive
        obtain ⟨text, htext⟩ := (hwell.usable idx hactive).filepath
        rw [hread] at htext
        simp at htext
  | some key =>
      rcases lithCacheHotReload_cases hread (hwell.live idx) hfresh with
        ⟨hfailed, -⟩ | ⟨st, filled, hreloaded, hfilled, hkept, hcount, -⟩
      · constructor <;> simp [hfailed]
      · constructor
        · simp [hreloaded]
        · intro after hreload
          obtain ⟨-, rfl⟩ := returned_eq hreloaded hreload
          exact ⟨hfilled.onlyEntry hwell.owned, hkept, hcount⟩
        · simp [hreloaded]

theorem lookupAtomic (hwell : memory.WellFormed) (hrep : memory.Represents cache)
    (thread : Thread) (filepath : Bytes) : memory.LookupAtomic thread filepath := by
  cases hlock : memory.rdlock thread with
  | none =>
      have hwaits : memory.lithCacheLookup thread filepath = none := by
        rw [lithCacheLookup, hlock, Option.bind_none]
      constructor <;> simp [hwaits, hlock]
  | some locked =>
      have hlookup := lithCacheLookup_eq hrep (hwell.entryCount_le hrep) hlock filepath
      cases hfound : Lith.lithCacheLookup cache filepath with
      | none =>
          rw [hfound] at hlookup
          constructor <;> simp [hlookup]
      | some idx =>
          rw [hfound] at hlookup
          obtain ⟨hlt, hactive, -⟩ := lithCacheLookup_eq_some hfound
          rw [← (hrep.shows idx hlt).isActive] at hactive
          constructor
          · simp [hlookup]
          · intro other after hother
            simp only [hlookup, Option.isSome_some, if_true, Option.some.injEq,
              Prod.mk.injEq] at hother
            obtain ⟨rfl, rfl⟩ := hother
            exact ⟨hactive, rfl⟩
          · simp [hlookup]

end CacheMemory

/-- After any calls, the representation invariant holds, and every call with any
answers of the library is atomic. -/
theorem cache_calls_sound {memory : CacheMemory Thread}
    (hreach : (cacheMemorySystem Thread).Reachable memory) :
    memory.WellFormed ∧
      (∀ thread filepath mimeType io, memory.Fresh io →
        memory.AddAtomic thread filepath mimeType io) ∧
      (∀ idx io, memory.Fresh io → memory.ReloadAtomic idx io) ∧
      ∀ thread filepath, memory.LookupAtomic thread filepath := by
  obtain ⟨hwell, cache, -, hrep⟩ := CacheMemory.represents_of_reachable hreach
  refine ⟨hwell, ?_, ?_, ?_⟩
  · intro thread filepath mimeType io hfresh
    exact CacheMemory.addAtomic hwell hrep thread filepath mimeType hfresh
  · intro idx io hfresh
    exact CacheMemory.reloadAtomic hwell idx hfresh
  · intro thread filepath
    exact CacheMemory.lookupAtomic hwell hrep thread filepath

def EntryMemory.zero : EntryMemory where
  filepath := .initialised 256 []
  content := none
  size := 0
  mimeType := .initialised 64 []
  lastModified := 0
  isActive := false

def emptyMemory : CacheMemory ℕ :=
  CacheMemory.lithCacheInit
    { entries := fun _ => EntryMemory.zero
      entryCount := 0
      rwlock := .unlocked
      openFiles := 0
      heap := ⟨fun _ => none⟩ }

def indexAnswers : CacheAnswers where
  toFileAccess := FileAccess.regular (ascii "x") 1 fun _ => 0
  address := 7

def firstSlot : Fin maxCacheEntries := ⟨0, by decide⟩

theorem exists_add_index (memory : CacheMemory ℕ) (hcount : memory.entryCount = 0)
    (hlock : memory.rwlock = .unlocked) (hfresh : memory.Fresh indexAnswers) :
    ∃ after, memory.lithCacheAdd 0 (ascii "public/index.html") (ascii "text/html")
        indexAnswers = some (0, after) ∧ after.entryCount = 1 ∧
      after.rwlock = .unlocked ∧ (after.entries firstSlot).isActive = true ∧
      (after.entries firstSlot).filepath.string = some (ascii "public/index.html") ∧
      (after.entries firstSlot).content = some 7 ∧
      ∀ address, address ≠ 7 → (memory.entries firstSlot).content ≠ some address →
        after.heap.block address = memory.heap.block address := by
  have hfree : memory.wrlock 0 =
      some { memory with rwlock := memory.rwlock.wrlock 0 } := by
    simp [CacheMemory.wrlock, hlock, RwLock.unlocked]
  have hempty : memory.entryCount = (lithCacheInit LithCache.zero).entryCount := hcount
  obtain ⟨code, hcode, -, htexts⟩ |
      ⟨hroom, st, after, hadd, hfilled, hstored, hafter, -⟩ :=
    CacheMemory.lithCacheAdd_cases hfree hempty
      (ascii "public/index.html") (ascii "text/html") hfresh
  · exact absurd (congrArg Prod.fst htexts).symm hcode
  · have hpath : (after.entries firstSlot).filepath.string =
        some (strncpy 255 (ascii "public/index.html")).text := hstored.filepath
    have htext : (strncpy 255 (ascii "public/index.html")).text =
        ascii "public/index.html" := by decide
    refine ⟨after, hadd, ?_, ?_, hstored.isActive, ?_, hfilled.content, hfilled.heap⟩
    · rw [hafter, hcount]
      rfl
    · rw [hfilled.rwlock, hlock]
    · rw [hpath, htext]

def grownAnswers : CacheAnswers where
  toFileAccess := FileAccess.regular (ascii "xy") 2 fun _ => 0
  address := 8

/-- The cache of texts when the file has been added and loaded again. -/
def indexTexts : LithCache :=
  let added := (lithCacheAdd (lithCacheInit LithCache.zero) (ascii "public/index.html")
    (ascii "text/html") indexAnswers.toFileAccess).2
  added.setEntry firstSlot
    (lithCacheHotReload (added.entries firstSlot) grownAnswers.toFileAccess).2

theorem exists_indexMemory : ∃ memory : CacheMemory ℕ,
    (cacheMemorySystem ℕ).Reachable memory ∧ memory.WellFormed ∧
      memory.Represents indexTexts ∧ memory.rwlock = .unlocked ∧
      memory.heap.block 9 = none := by
  have hfresh : emptyMemory.Fresh indexAnswers := fun _ => rfl
  have hrep : emptyMemory.Represents (lithCacheInit LithCache.zero) :=
    CacheMemory.represents_init _ LithCache.zero
  have hstart : (cacheMemorySystem ℕ).Reachable emptyMemory := .start ⟨_, rfl⟩
  obtain ⟨hwell, -⟩ := CacheMemory.represents_of_reachable hstart
  obtain ⟨added, hadd, -, hlock, -, hkey, hcontent, hheap⟩ :=
    exists_add_index emptyMemory rfl rfl hfresh
  have hreach := hstart.next (.add 0 _ _ indexAnswers) (.add hfresh hadd)
  obtain ⟨hstored, hshown⟩ := CacheMemory.represents_add hwell hrep hfresh hadd
  have hnone : (emptyMemory.entries firstSlot).content = none := rfl
  have hblock (address : ℕ) (hother : address ≠ 7) :
      added.heap.block address = none := by
    rw [hheap address hother (by simp [hnone])]
    rfl
  have hfree : added.Fresh grownAnswers := fun _ => hblock 8 (by decide)
  obtain ⟨-, htexts⟩ | ⟨st, grown, hreload, hgrown, -⟩ :=
    CacheMemory.lithCacheHotReload_cases hkey (hstored.live firstSlot) hfree
  · exact absurd (congrArg Prod.fst (htexts .zero)).symm (by decide)
  obtain ⟨hsound, hrepresents⟩ :=
    CacheMemory.represents_hotReload hstored hshown hfree hreload
  have hlater := hreach.next (.hotReload firstSlot grownAnswers) (.hotReload hfree hreload)
  refine ⟨grown, hlater, hsound, hrepresents, hgrown.rwlock.trans hlock, ?_⟩
  have hother : (added.entries firstSlot).content ≠ some 9 := by
    rw [hcontent]
    decide
  rw [hgrown.heap 9 (by decide) hother, hblock 9 (by decide)]

/-- The file has been added and loaded again, and a worker finds it. -/
theorem cache_calls_sound_index :
    ∃ before after : CacheMemory ℕ, (cacheMemorySystem ℕ).Reachable before ∧
      (before.entries firstSlot).size = 2 ∧
      before.lithCacheLookup 0 (ascii "public/index.html") =
        some (some firstSlot, after) ∧
      (cacheMemorySystem ℕ).Reachable after ∧
      before.AddAtomic 0 (ascii "public/style.css") (ascii "text/css")
        { indexAnswers with address := 9 } ∧
      before.LookupAtomic 0 (ascii "public/index.html") ∧ after.WellFormed := by
  obtain ⟨before, hreach, hwell, hrep, hlock, hblock⟩ := exists_indexMemory
  have hfind : lithCacheLookup indexTexts (ascii "public/index.html") =
      some firstSlot := by decide
  have hfree : before.rdlock 0 =
      some { before with rwlock := before.rwlock.rdlock 0 } := by
    simp [CacheMemory.rdlock, hlock, RwLock.unlocked]
  have hlookup := CacheMemory.lithCacheLookup_eq hrep (by decide) hfree
    (ascii "public/index.html")
  rw [hfind] at hlookup
  have hafter := hreach.next (.lookup 0 _) (.lookup hlookup)
  obtain ⟨-, hadds, -, hfinds⟩ := cache_calls_sound hreach
  exact ⟨before, _, hreach, (hrep.shows firstSlot (by decide)).size, hlookup, hafter,
    hadds _ _ _ _ fun _ => hblock, hfinds _ _, (cache_calls_sound hafter).1⟩

end Lith
