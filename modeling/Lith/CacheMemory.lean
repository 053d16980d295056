import Lith.BlockHeap
import Lith.ByteArea
import Lith.Cache
import Lith.RwLock

/-!
# The cache in memory

The functions of `cache.c` on what they work on: arrays of bytes, pointers to
blocks of the heap, a counter of type `int`, the lock and the open files.  A call
that waits for the lock, leaves an array or frees a block twice has no result.
A call fills one slot, or it reports a failure and leaves everything as it was,
and both keep the invariant of the representation.
-/

namespace Lith

open CString

structure EntryMemory where
  filepath : ByteArea 256
  content : Option ℕ
  size : ℕ
  mimeType : ByteArea 64
  lastModified : ℤ
  isActive : Bool

structure CacheMemory (Thread : Type*) where
  entries : Fin maxCacheEntries → EntryMemory
  entryCount : ℤ
  rwlock : RwLock Thread
  openFiles : ℕ
  heap : BlockHeap

/-- There is a content, and both texts end inside their arrays. -/
structure EntryMemory.Usable (slot : EntryMemory) : Prop where
  content : slot.content ≠ none
  filepath : ∃ text, slot.filepath.string = some text
  mimeType : ∃ text, slot.mimeType.string = some text

/-- What the library answers during one call; a block comes from `address`. -/
structure CacheAnswers extends FileAccess where
  address : ℕ

namespace CacheMemory

variable {Thread : Type*}

/-! ## The library -/

def rdlock (memory : CacheMemory Thread) (thread : Thread) :
    Option (CacheMemory Thread) :=
  if memory.rwlock.writer.isNone then
    some { memory with rwlock := memory.rwlock.rdlock thread }
  else none

def wrlock (memory : CacheMemory Thread) (thread : Thread) :
    Option (CacheMemory Thread) :=
  if memory.rwlock.writer.isNone && memory.rwlock.readers.isEmpty then
    some { memory with rwlock := memory.rwlock.wrlock thread }
  else none

def unlock [DecidableEq Thread] (memory : CacheMemory Thread) (thread : Thread) :
    CacheMemory Thread :=
  { memory with rwlock := memory.rwlock.unlock thread }

def fopen (memory : CacheMemory Thread) : CacheMemory Thread :=
  { memory with openFiles := memory.openFiles + 1 }

def fclose (memory : CacheMemory Thread) : Option (CacheMemory Thread) :=
  if 0 < memory.openFiles then some { memory with openFiles := memory.openFiles - 1 }
  else none

def malloc (memory : CacheMemory Thread) (size : ℕ) (io : CacheAnswers) :
    Option (Option ℕ × CacheMemory Thread) :=
  match io.memory with
  | none => some (none, memory)
  | some bytes =>
      (memory.heap.malloc io.address ⟨size, bytes⟩).map fun heap =>
        (some io.address, { memory with heap := heap })

def fread (memory : CacheMemory Thread) (address : ℕ) (written : Bytes) :
    Option (CacheMemory Thread) :=
  (memory.heap.fill address written).map fun heap => { memory with heap := heap }

def free (memory : CacheMemory Thread) (pointer : Option ℕ) :
    Option (CacheMemory Thread) :=
  (memory.heap.free pointer).map fun heap => { memory with heap := heap }

def setEntry (memory : CacheMemory Thread) (idx : Fin maxCacheEntries)
    (slot : EntryMemory) : CacheMemory Thread :=
  { memory with entries := Function.update memory.entries idx slot }

/-- The answer of `malloc` is a block that is not in use. -/
def Fresh (memory : CacheMemory Thread) (io : CacheAnswers) : Prop :=
  io.memory.isSome = true → memory.heap.block io.address = none

/-- The block into which `fread` has read. -/
def readBlock (io : CacheAnswers) (st : Stat) (bytes : ℕ → UInt8) : Block :=
  (Block.mk (sizeT st.size) bytes).fill (io.fread st.size)

variable {memory after : CacheMemory Thread} {thread : Thread}

theorem fread_length_le (io : CacheAnswers) (st : Stat) :
    (io.fread st.size).length ≤ sizeT st.size := by
  rw [FileAccess.fread, List.length_take]
  exact min_le_left _ _

@[simp] theorem fclose_fopen (memory : CacheMemory Thread) :
    memory.fopen.fclose = some memory := by
  simp [fopen, fclose]

theorem wrlock_eq_some {locked : CacheMemory Thread}
    (hlock : memory.wrlock thread = some locked) :
    locked = { memory with rwlock := memory.rwlock.wrlock thread } ∧
      memory.rwlock.writer = none := by
  unfold wrlock at hlock
  split_ifs at hlock with hfree
  rw [Bool.and_eq_true, Option.isNone_iff_eq_none] at hfree
  exact ⟨(Option.some.inj hlock).symm, hfree.1⟩

theorem malloc_none {io : CacheAnswers} (hmemory : io.memory = none)
    (memory : CacheMemory Thread) (size : ℕ) :
    memory.malloc size io = some (none, memory) := by
  simp [malloc, hmemory]

/-- A file is opened, read into a new block and closed. -/
theorem exists_loading {io : CacheAnswers} {bytes : ℕ → UInt8}
    (hmemory : io.memory = some bytes) (hfresh : memory.Fresh io) (st : Stat) :
    ∃ allocated read closed,
      memory.fopen.malloc (sizeT st.size) io = some (some io.address, allocated) ∧
      allocated.fread io.address (io.fread st.size) = some read ∧
      read.fclose = some closed ∧
      closed = { memory with
        heap := memory.heap.set io.address (some (readBlock io st bytes)) } := by
  have hnone : memory.heap.block io.address = none := hfresh (by simp [hmemory])
  have hfits : (io.fread st.size).length ≤ (Block.mk (sizeT st.size) bytes).size :=
    fread_length_le io st
  have hfill := BlockHeap.fill_set memory.heap io.address hfits
  refine ⟨{ memory.fopen with
      heap := memory.heap.set io.address (some ⟨sizeT st.size, bytes⟩) },
    { memory.fopen with
      heap := memory.heap.set io.address (some (readBlock io st bytes)) },
    _, ?_, ?_, ?_, rfl⟩
  · simp [malloc, hmemory, fopen, BlockHeap.malloc_of_fresh hnone]
  · simp [fread, hfill, readBlock]
  · simp [fclose, fopen]

/-! ## The functions of the cache -/

def lithCacheInit (memory : CacheMemory Thread) : CacheMemory Thread :=
  { memory with
    entries := fun idx => { memory.entries idx with
      isActive := false, content := none, lastModified := 0 }
    entryCount := 0
    rwlock := .unlocked }

/-- The assignments to `cache->entries[idx]`, with `idx` inside the array. -/
def storeEntry (memory : CacheMemory Thread) (filepath mimeType : Bytes) (buffer : ℕ)
    (readBytes : ℕ) (st : Stat) : Option (CacheMemory Thread) :=
  if hidx : 0 ≤ memory.entryCount ∧ memory.entryCount < maxCacheEntries then
    let idx : Fin maxCacheEntries := ⟨memory.entryCount.toNat, by omega⟩
    let entry := memory.entries idx
    (entry.filepath.copyString (filepath ++ [0]) 255).bind fun key =>
      (entry.mimeType.copyString (mimeType ++ [0]) 63).map fun mime =>
        { memory.setEntry idx
            { filepath := key, content := some buffer, size := readBytes,
              mimeType := mime, lastModified := st.mtime, isActive := true } with
          entryCount := memory.entryCount + 1 }
  else none

def lithCacheAdd [DecidableEq Thread] (memory : CacheMemory Thread)
    (thread : Thread) (filepath mimeType : Bytes) (io : CacheAnswers) :
    Option (ℤ × CacheMemory Thread) :=
  (memory.wrlock thread).bind fun locked =>
    if maxCacheEntries ≤ locked.entryCount then some (-1, locked.unlock thread)
    else if io.opened then
      match io.stat with
      | none => locked.fopen.fclose.map fun closed => (-5, closed.unlock thread)
      | some st =>
          if maxCacheFileSize < st.size then
            locked.fopen.fclose.map fun closed => (-3, closed.unlock thread)
          else
            (locked.fopen.malloc (sizeT st.size) io).bind fun answer =>
              match answer.1 with
              | none => answer.2.fclose.map fun closed => (-4, closed.unlock thread)
              | some buffer =>
                  (answer.2.fread buffer (io.fread st.size)).bind fun read =>
                    read.fclose.bind fun closed =>
                      (closed.storeEntry filepath mimeType buffer
                        (io.fread st.size).length st).map fun stored =>
                          (0, stored.unlock thread)
    else some (-2, locked.unlock thread)

/-- The scan of `lith_cache_lookup` from index `i` over `count` entries. -/
def findEntry (memory : CacheMemory Thread) (filepath : Bytes) :
    ℕ → ℕ → Option (Option (Fin maxCacheEntries))
  | 0, _ => some none
  | count + 1, i =>
      if hidx : i < maxCacheEntries then
        if (memory.entries ⟨i, hidx⟩).isActive then
          (memory.entries ⟨i, hidx⟩).filepath.string.bind fun key =>
            if key = filepath then some (some ⟨i, hidx⟩)
            else memory.findEntry filepath count (i + 1)
        else memory.findEntry filepath count (i + 1)
      else none

/-- The lock stays with the caller when an entry is found. -/
def lithCacheLookup [DecidableEq Thread] (memory : CacheMemory Thread)
    (thread : Thread) (filepath : Bytes) :
    Option (Option (Fin maxCacheEntries) × CacheMemory Thread) :=
  (memory.rdlock thread).bind fun locked =>
    (locked.findEntry filepath locked.entryCount.toNat 0).map fun found =>
      match found with
      | some idx => (some idx, locked)
      | none => (none, locked.unlock thread)

/-- `lith_cache_hot_reload` on the slot `idx`, whose key names the file. -/
def lithCacheHotReload (memory : CacheMemory Thread) (idx : Fin maxCacheEntries)
    (io : CacheAnswers) : Option (Bool × CacheMemory Thread) :=
  (memory.entries idx).filepath.string.bind fun _ =>
    if io.opened then
      match io.stat with
      | none => memory.fopen.fclose.map fun closed => (false, closed)
      | some st =>
          (memory.fopen.malloc (sizeT st.size) io).bind fun answer =>
            match answer.1 with
            | none => answer.2.fclose.map fun closed => (false, closed)
            | some newContent =>
                (answer.2.fread newContent (io.fread st.size)).bind fun read =>
                  read.fclose.bind fun closed =>
                    (closed.free (memory.entries idx).content).map fun freed =>
                      (true, freed.setEntry idx { memory.entries idx with
                        content := some newContent
                        size := (io.fread st.size).length
                        lastModified := st.mtime })
    else some (false, memory)

/-! ## What a call can do -/

/-- A file has been loaded into the slot `idx`, whose old block may be gone. -/
structure Filled (memory : CacheMemory Thread) (idx : Fin maxCacheEntries)
    (io : CacheAnswers) (st : Stat) (after : CacheMemory Thread) : Prop where
  fresh : memory.heap.block io.address = none
  content : (after.entries idx).content = some io.address
  size : (after.entries idx).size = (io.fread st.size).length
  lastModified : (after.entries idx).lastModified = st.mtime
  block : ∃ bytes, after.heap.block io.address = some (readBlock io st bytes)
  others : ∀ other, other ≠ idx → after.entries other = memory.entries other
  heap : ∀ address, address ≠ io.address →
    (memory.entries idx).content ≠ some address →
    after.heap.block address = memory.heap.block address
  rwlock : after.rwlock = memory.rwlock
  openFiles : after.openFiles = memory.openFiles

/-- What an addition writes into its slot beside the file. -/
structure Stored (filepath mimeType : Bytes) (slot : EntryMemory) : Prop where
  filepath : slot.filepath.string = some (strncpy 255 filepath).text
  mimeType : slot.mimeType.string = some (strncpy 63 mimeType).text
  isActive : slot.isActive = true

/-- A reload leaves the key, the type and the flag of the slot alone. -/
structure KeyKept (slot after : EntryMemory) : Prop where
  filepath : after.filepath = slot.filepath
  mimeType : after.mimeType = slot.mimeType
  isActive : after.isActive = slot.isActive

theorem filled_update {idx : Fin maxCacheEntries} {io : CacheAnswers} {st : Stat}
    {slot : EntryMemory} {heap : BlockHeap} {bytes : ℕ → UInt8}
    (hfresh : memory.heap.block io.address = none)
    (hcontent : slot.content = some io.address)
    (hsize : slot.size = (io.fread st.size).length)
    (hmtime : slot.lastModified = st.mtime)
    (hblock : heap.block io.address = some (readBlock io st bytes))
    (hheap : ∀ address, address ≠ io.address →
      (memory.entries idx).content ≠ some address →
      heap.block address = memory.heap.block address) (count : ℤ) :
    memory.Filled idx io st { memory with
      entries := Function.update memory.entries idx slot
      entryCount := count
      heap := heap } where
  fresh := hfresh
  content := by simpa using hcontent
  size := by simpa using hsize
  lastModified := by simpa using hmtime
  block := ⟨bytes, hblock⟩
  others := fun other hother => Function.update_of_ne hother ..
  heap := hheap
  rwlock := rfl
  openFiles := rfl

theorem exists_storeEntry (filepath mimeType : Bytes) {idx : Fin maxCacheEntries}
    (hidx : memory.entryCount = idx.val) (buffer readBytes : ℕ) (st : Stat) :
    ∃ slot, memory.storeEntry filepath mimeType buffer readBytes st =
        some { memory.setEntry idx slot with entryCount := memory.entryCount + 1 } ∧
      Stored filepath mimeType slot ∧ slot.content = some buffer ∧
      slot.size = readBytes ∧ slot.lastModified = st.mtime := by
  have hbound : 0 ≤ memory.entryCount ∧ memory.entryCount < maxCacheEntries := by
    have hlt := idx.isLt
    omega
  have hslot : (⟨memory.entryCount.toNat, by omega⟩ : Fin maxCacheEntries) = idx := by
    apply Fin.ext
    simp only
    omega
  obtain ⟨key, hkey, hkeyRead⟩ := (memory.entries idx).filepath.copyString_string
    (readString_cstr filepath []) (by omega : 255 < 256)
  obtain ⟨mime, hmime, hmimeRead⟩ := (memory.entries idx).mimeType.copyString_string
    (readString_cstr mimeType []) (by omega : 63 < 64)
  refine ⟨⟨key, some buffer, readBytes, mime, st.mtime, true⟩, ?_,
    ⟨hkeyRead, hmimeRead, rfl⟩, rfl, rfl, rfl⟩
  rw [storeEntry, dif_pos hbound]
  simp only [hslot, hkey, hmime, Option.bind_some, Option.map_some]

theorem exists_reloaded {idx : Fin maxCacheEntries} {key : Bytes}
    (hkey : (memory.entries idx).filepath.string = some key)
    (hlive : ∀ address, (memory.entries idx).content = some address →
      memory.heap.block address ≠ none)
    {io : CacheAnswers} (hfresh : memory.Fresh io) (hopened : io.opened = true)
    {st : Stat} (hstat : io.stat = some st) {bytes : ℕ → UInt8}
    (hmemory : io.memory = some bytes) :
    ∃ after, memory.lithCacheHotReload idx io = some (true, after) ∧
      memory.Filled idx io st after ∧
      KeyKept (memory.entries idx) (after.entries idx) ∧
      after.entryCount = memory.entryCount := by
  have hnone : memory.heap.block io.address = none := hfresh (by simp [hmemory])
  obtain ⟨allocated, read, closed, hmalloc, hread, hclose, rfl⟩ :=
    exists_loading hmemory hfresh st
  have hlater : ∀ address, (memory.entries idx).content = some address →
      (memory.heap.set io.address (some (readBlock io st bytes))).block address ≠
        none := by
    intro address hcontent
    by_cases haddress : address = io.address
    · simp [haddress]
    · rw [BlockHeap.set_of_ne _ haddress]
      exact hlive address hcontent
  obtain ⟨heap, hfree, hheap⟩ := BlockHeap.exists_free hlater
  have hother : (memory.entries idx).content ≠ some io.address :=
    fun hcontent => hlive io.address hcontent hnone
  refine ⟨{ memory with
    entries := Function.update memory.entries idx { memory.entries idx with
      content := some io.address
      size := (io.fread st.size).length
      lastModified := st.mtime }
    heap := heap }, ?_, ?_, ?_, rfl⟩
  · simp [lithCacheHotReload, hkey, hopened, hstat, hmalloc, hread, hclose, free, hfree,
      setEntry]
  · apply filled_update hnone rfl rfl rfl
    · rw [hheap _ hother, BlockHeap.set_same]
    · intro address haddress hcontent
      rw [hheap address hcontent, BlockHeap.set_of_ne _ haddress]
  · constructor <;> simp

/-- A reload fails and changes nothing, or it fills its slot and keeps the key. -/
theorem lithCacheHotReload_cases {idx : Fin maxCacheEntries} {key : Bytes}
    (hkey : (memory.entries idx).filepath.string = some key)
    (hlive : ∀ address, (memory.entries idx).content = some address →
      memory.heap.block address ≠ none)
    {io : CacheAnswers} (hfresh : memory.Fresh io) :
    (memory.lithCacheHotReload idx io = some (false, memory) ∧
        ∀ entry, Lith.lithCacheHotReload entry io.toFileAccess = (false, entry)) ∨
      ∃ st after, memory.lithCacheHotReload idx io = some (true, after) ∧
        memory.Filled idx io st after ∧
        KeyKept (memory.entries idx) (after.entries idx) ∧
        after.entryCount = memory.entryCount ∧
        ∀ entry, Lith.lithCacheHotReload entry io.toFileAccess = (true, { entry with
          content := some (io.fread st.size)
          size := (io.fread st.size).length
          lastModified := st.mtime }) := by
  cases hopened : io.opened with
  | false =>
      left
      simp [lithCacheHotReload, Lith.lithCacheHotReload, hkey, hopened]
  | true =>
      cases hstat : io.stat with
      | none =>
          left
          simp [lithCacheHotReload, Lith.lithCacheHotReload, hkey, hopened, hstat]
      | some st =>
          cases hmemory : io.memory with
          | none =>
              left
              simp [lithCacheHotReload, Lith.lithCacheHotReload, hkey, hopened, hstat,
                hmemory, malloc_none hmemory]
          | some bytes =>
              right
              obtain ⟨after, hreload, hfilled, hkept, hcount⟩ :=
                exists_reloaded hkey hlive hfresh hopened hstat hmemory
              refine ⟨st, after, hreload, hfilled, hkept, hcount, ?_⟩
              simp [Lith.lithCacheHotReload, hopened, hstat, hmemory]

theorem exists_added [DecidableEq Thread] {locked : CacheMemory Thread} {count : ℕ}
    (hlock : memory.wrlock thread = some locked) (hcount : memory.entryCount = count)
    (filepath mimeType : Bytes) {io : CacheAnswers} (hfresh : memory.Fresh io)
    (hroom : count < maxCacheEntries) (hopened : io.opened = true) {st : Stat}
    (hstat : io.stat = some st) (hsize : ¬maxCacheFileSize < st.size)
    {bytes : ℕ → UInt8} (hmemory : io.memory = some bytes) :
    ∃ after, memory.lithCacheAdd thread filepath mimeType io = some (0, after) ∧
      memory.Filled ⟨count, hroom⟩ io st after ∧
      Stored filepath mimeType (after.entries ⟨count, hroom⟩) ∧
      after.entryCount = memory.entryCount + 1 := by
  obtain ⟨rfl, hwriter⟩ := wrlock_eq_some hlock
  have hnotFull : ¬(maxCacheEntries : ℤ) ≤ memory.entryCount := by omega
  have hnone : memory.heap.block io.address = none := hfresh (by simp [hmemory])
  have hfreshLocked : Fresh { memory with
      rwlock := memory.rwlock.wrlock thread } io := hfresh
  obtain ⟨allocated, read, closed, hmalloc, hread, hclose, rfl⟩ :=
    exists_loading hmemory hfreshLocked st
  have hcountLoaded : entryCount { memory with
      rwlock := memory.rwlock.wrlock thread
      heap := memory.heap.set io.address (some (readBlock io st bytes)) } =
        (⟨count, hroom⟩ : Fin maxCacheEntries).val := hcount
  obtain ⟨slot, hstore, hstored, hcontent, hlength, hmtime⟩ :=
    exists_storeEntry filepath mimeType hcountLoaded io.address
      (io.fread st.size).length st
  refine ⟨{ memory with
    entries := Function.update memory.entries ⟨count, hroom⟩ slot
    entryCount := memory.entryCount + 1
    heap := memory.heap.set io.address (some (readBlock io st bytes)) },
    ?_, ?_, ?_, rfl⟩
  · simp [lithCacheAdd, hlock, hnotFull, hopened, hstat, hsize, hmalloc, hread, hclose,
      hstore, unlock, setEntry, RwLock.unlock_wrlock_of_writer hwriter]
  · apply filled_update hnone hcontent hlength hmtime
    · exact BlockHeap.set_same ..
    · exact fun address haddress _ => BlockHeap.set_of_ne _ haddress _
  · simpa using hstored

/-- An addition that gets the lock fails with the code of the model on texts
and changes nothing, or it fills the next slot. -/
theorem lithCacheAdd_cases [DecidableEq Thread] {locked : CacheMemory Thread}
    {cache : LithCache} (hlock : memory.wrlock thread = some locked)
    (hcount : memory.entryCount = cache.entryCount) (filepath mimeType : Bytes)
    {io : CacheAnswers} (hfresh : memory.Fresh io) :
    (∃ code, code ≠ 0 ∧
        memory.lithCacheAdd thread filepath mimeType io = some (code, memory) ∧
        Lith.lithCacheAdd cache filepath mimeType io.toFileAccess = (code, cache)) ∨
      ∃ (hroom : cache.entryCount < maxCacheEntries) (st : Stat)
        (after : CacheMemory Thread),
        memory.lithCacheAdd thread filepath mimeType io = some (0, after) ∧
        memory.Filled ⟨cache.entryCount, hroom⟩ io st after ∧
        Stored filepath mimeType (after.entries ⟨cache.entryCount, hroom⟩) ∧
        after.entryCount = memory.entryCount + 1 ∧
        Lith.lithCacheAdd cache filepath mimeType io.toFileAccess =
          (0, { entries := Function.update cache.entries ⟨cache.entryCount, hroom⟩
                  (loadedEntry filepath mimeType io.toFileAccess st)
                entryCount := cache.entryCount + 1 }) := by
  obtain ⟨rfl, hwriter⟩ := wrlock_eq_some hlock
  have hback (code : ℤ) : (code, unlock { memory with
      rwlock := memory.rwlock.wrlock thread } thread) = (code, memory) := by
    simp only [unlock, RwLock.unlock_wrlock_of_writer hwriter]
  by_cases hroom : cache.entryCount < maxCacheEntries
  · have hnotFull : ¬(maxCacheEntries : ℤ) ≤ memory.entryCount := by omega
    cases hopened : io.opened with
    | false =>
        refine Or.inl ⟨-2, by decide, ?_, ?_⟩
        · simp [lithCacheAdd, hlock, hnotFull, hopened, hback]
        · simp [Lith.lithCacheAdd, hroom, hopened]
    | true =>
        cases hstat : io.stat with
        | none =>
            refine Or.inl ⟨-5, by decide, ?_, ?_⟩
            · simp [lithCacheAdd, hlock, hnotFull, hopened, hstat, hback]
            · simp [Lith.lithCacheAdd, hroom, hopened, hstat]
        | some st =>
            by_cases hsize : maxCacheFileSize < st.size
            · refine Or.inl ⟨-3, by decide, ?_, ?_⟩
              · simp [lithCacheAdd, hlock, hnotFull, hopened, hstat, hsize, hback]
              · simp [Lith.lithCacheAdd, hroom, hopened, hstat, hsize]
            · cases hmemory : io.memory with
              | none =>
                  refine Or.inl ⟨-4, by decide, ?_, ?_⟩
                  · simp [lithCacheAdd, hlock, hnotFull, hopened, hstat, hsize,
                      malloc_none hmemory, hback]
                  · simp [Lith.lithCacheAdd, hroom, hopened, hstat, hsize, hmemory]
              | some bytes =>
                  right
                  obtain ⟨after, hadd, hfilled, hstored, hcountAfter⟩ :=
                    exists_added hlock hcount filepath mimeType hfresh hroom hopened
                      hstat hsize hmemory
                  refine ⟨hroom, st, after, hadd, hfilled, hstored, hcountAfter, ?_⟩
                  simp [Lith.lithCacheAdd, hroom, hopened, hstat, hsize, hmemory]
  · have hfull : (maxCacheEntries : ℤ) ≤ memory.entryCount := by omega
    refine Or.inl ⟨-1, by decide, ?_, ?_⟩
    · simp [lithCacheAdd, hlock, hfull, hback]
    · simp [Lith.lithCacheAdd, hroom]

/-! ## The representation invariant -/

/-- The contents are blocks of the heap, one for each slot and large enough. -/
structure Owned (memory : CacheMemory Thread) : Prop where
  live : ∀ idx address, (memory.entries idx).content = some address →
    ∃ block, memory.heap.block address = some block ∧
      (memory.entries idx).size ≤ block.size
  distinct : ∀ first second address,
    (memory.entries first).content = some address →
    (memory.entries second).content = some address → first = second

structure WellFormed (memory : CacheMemory Thread) : Prop where
  nonneg : 0 ≤ memory.entryCount
  bounded : memory.entryCount ≤ maxCacheEntries
  active : ∀ idx, (memory.entries idx).isActive = true ↔
    (idx.val : ℤ) < memory.entryCount
  usable : ∀ idx, (memory.entries idx).isActive = true → (memory.entries idx).Usable
  owned : memory.Owned

/-- No slot but `idx` is different, and no content of another slot. -/
structure OnlyEntry (memory : CacheMemory Thread) (idx : Fin maxCacheEntries)
    (after : CacheMemory Thread) : Prop where
  entries : ∀ other, other ≠ idx → after.entries other = memory.entries other
  contents : ∀ other address, other ≠ idx →
    (memory.entries other).content = some address →
    after.heap.block address = memory.heap.block address
  rwlock : after.rwlock = memory.rwlock
  openFiles : after.openFiles = memory.openFiles

theorem Filled.onlyEntry {idx : Fin maxCacheEntries} {io : CacheAnswers} {st : Stat}
    (hfilled : memory.Filled idx io st after) (howned : memory.Owned) :
    memory.OnlyEntry idx after where
  entries := hfilled.others
  contents := by
    intro other address hother hcontent
    obtain ⟨block, hblock, -⟩ := howned.live other address hcontent
    apply hfilled.heap
    · rintro rfl
      rw [hfilled.fresh] at hblock
      simp at hblock
    · exact fun hidx => hother (howned.distinct other idx address hcontent hidx)
  rwlock := hfilled.rwlock
  openFiles := hfilled.openFiles

theorem Filled.owned {idx : Fin maxCacheEntries} {io : CacheAnswers} {st : Stat}
    (hfilled : memory.Filled idx io st after) (howned : memory.Owned) :
    after.Owned := by
  have honly := hfilled.onlyEntry howned
  have hnew : ∀ other, other ≠ idx →
      (after.entries other).content ≠ some io.address := by
    intro other hother hcontent
    rw [honly.entries other hother] at hcontent
    obtain ⟨block, hblock, -⟩ := howned.live other io.address hcontent
    rw [hfilled.fresh] at hblock
    simp at hblock
  constructor
  case live =>
    intro other address hcontent
    by_cases hother : other = idx
    · subst hother
      rw [hfilled.content, Option.some.injEq] at hcontent
      subst hcontent
      obtain ⟨bytes, hblock⟩ := hfilled.block
      refine ⟨readBlock io st bytes, hblock, ?_⟩
      rw [hfilled.size]
      exact fread_length_le io st
    · rw [honly.entries other hother] at hcontent ⊢
      rw [honly.contents other address hother hcontent]
      exact howned.live other address hcontent
  case distinct =>
    intro first second address hfirst hsecond
    by_cases hfirstIdx : first = idx
    · by_contra hne
      subst hfirstIdx
      rw [hfilled.content] at hfirst
      rw [← hfirst] at hsecond
      exact hnew second (fun h => hne h.symm) hsecond
    · by_cases hsecondIdx : second = idx
      · subst hsecondIdx
        rw [hfilled.content] at hsecond
        rw [← hsecond] at hfirst
        exact absurd hfirst (hnew first hfirstIdx)
      · rw [honly.entries first hfirstIdx] at hfirst
        rw [honly.entries second hsecondIdx] at hsecond
        exact howned.distinct first second address hfirst hsecond

theorem wellFormed_init (memory : CacheMemory Thread) :
    memory.lithCacheInit.WellFormed where
  nonneg := le_rfl
  bounded := Int.natCast_nonneg _
  active := by
    intro idx
    simp only [lithCacheInit, Bool.false_eq_true, false_iff]
    omega
  usable := by
    intro idx hactive
    simp [lithCacheInit] at hactive
  owned := by
    constructor
    · intro idx address hcontent
      simp [lithCacheInit] at hcontent
    · intro first second address hfirst
      simp [lithCacheInit] at hfirst

theorem WellFormed.lock (hwell : memory.WellFormed) (lock : RwLock Thread) :
    WellFormed { memory with rwlock := lock } :=
  { hwell with owned := ⟨hwell.owned.live, hwell.owned.distinct⟩ }

theorem WellFormed.live (hwell : memory.WellFormed) (idx : Fin maxCacheEntries)
    (address : ℕ) (hcontent : (memory.entries idx).content = some address) :
    memory.heap.block address ≠ none := by
  obtain ⟨block, hblock, -⟩ := hwell.owned.live idx address hcontent
  simp [hblock]

/-- The slot behind the last active one is filled and becomes active. -/
theorem WellFormed.added (hwell : memory.WellFormed) {idx : Fin maxCacheEntries}
    {io : CacheAnswers} {st : Stat} {filepath mimeType : Bytes}
    (hidx : memory.entryCount = idx.val) (hfilled : memory.Filled idx io st after)
    (hstored : Stored filepath mimeType (after.entries idx))
    (hcount : after.entryCount = memory.entryCount + 1) : after.WellFormed := by
  constructor
  case nonneg =>
    have hnonneg := hwell.nonneg
    omega
  case bounded =>
    have hlt := idx.isLt
    omega
  case active =>
    intro other
    by_cases hother : other = idx
    · subst hother
      simp only [hstored.isActive, true_iff]
      omega
    · have hne : other.val ≠ idx.val := fun h => hother (Fin.ext h)
      rw [hfilled.others other hother, hwell.active]
      omega
  case usable =>
    intro other hactive
    by_cases hother : other = idx
    · subst hother
      exact ⟨by simp [hfilled.content], ⟨_, hstored.filepath⟩, ⟨_, hstored.mimeType⟩⟩
    · rw [hfilled.others other hother] at hactive ⊢
      exact hwell.usable other hactive
  case owned => exact hfilled.owned hwell.owned

theorem WellFormed.reloaded (hwell : memory.WellFormed) {idx : Fin maxCacheEntries}
    {io : CacheAnswers} {st : Stat} (hfilled : memory.Filled idx io st after)
    (hkept : KeyKept (memory.entries idx) (after.entries idx))
    (hcount : after.entryCount = memory.entryCount) : after.WellFormed := by
  have hkeep (other : Fin maxCacheEntries) :
      KeyKept (memory.entries other) (after.entries other) := by
    by_cases hother : other = idx
    · rw [hother]
      exact hkept
    · rw [hfilled.others other hother]
      exact ⟨rfl, rfl, rfl⟩
  constructor
  case nonneg => exact hcount ▸ hwell.nonneg
  case bounded => exact hcount ▸ hwell.bounded
  case active =>
    intro other
    rw [(hkeep other).isActive, hcount]
    exact hwell.active other
  case usable =>
    intro other hactive
    rw [(hkeep other).isActive] at hactive
    obtain ⟨hcontent, hfilepath, hmimeType⟩ := hwell.usable other hactive
    rw [← (hkeep other).filepath] at hfilepath
    rw [← (hkeep other).mimeType] at hmimeType
    refine ⟨?_, hfilepath, hmimeType⟩
    by_cases hother : other = idx
    · simp [hother, hfilled.content]
    · rw [hfilled.others other hother]
      exact hcontent
  case owned => exact hfilled.owned hwell.owned

end CacheMemory

end Lith
