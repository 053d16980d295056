import Lith.CacheAtomicity

/-!
# From the first entry of the cache to its destruction

The rest of the program takes and releases blocks of the same heap while the cache
is in use.  After any such run `lith_cache_destroy` releases each content once
and leaves the heap with what the rest of the program holds.  Until then a slot
that is in use keeps its key, so a path that was found stays at its slot.
-/

namespace Lith

open CString

namespace BlockHeap

variable {heap after : BlockHeap} {address : ℕ}

theorem malloc_eq_some {block : Block}
    (hmalloc : heap.malloc address block = some after) :
    heap.block address = none ∧ after = heap.set address (some block) := by
  unfold malloc at hmalloc
  split_ifs at hmalloc with hfresh
  exact ⟨Option.isNone_iff_eq_none.mp hfresh, (Option.some.inj hmalloc).symm⟩

theorem free_eq_some (hfree : heap.free (some address) = some after) :
    heap.block address ≠ none ∧ after = heap.set address none := by
  simp only [free] at hfree
  split_ifs at hfree with hlive
  exact ⟨Option.isSome_iff_ne_none.mp hlive, (Option.some.inj hfree).symm⟩

theorem fill_eq_some {written : Bytes} (hfill : heap.fill address written = some after) :
    ∃ block, heap.block address = some block ∧
      after = heap.set address (some (block.fill written)) := by
  unfold fill at hfill
  cases hblock : heap.block address with
  | none => simp [hblock] at hfill
  | some block =>
      simp only [hblock] at hfill
      split_ifs at hfill
      exact ⟨block, rfl, (Option.some.inj hfill).symm⟩

end BlockHeap

namespace CacheMemory

variable {Thread : Type*} {memory after : CacheMemory Thread} {thread : Thread}

/-- The loop of `lith_cache_destroy` from index `i` over `count` entries. -/
def freeEntries (memory : CacheMemory Thread) : ℕ → ℕ → Option (CacheMemory Thread)
  | 0, _ => some memory
  | count + 1, i =>
      if hidx : i < maxCacheEntries then
        match (memory.entries ⟨i, hidx⟩).content with
        | some address =>
            (memory.free (some address)).bind fun freed => freed.freeEntries count (i + 1)
        | none => memory.freeEntries count (i + 1)
      else none

/-- The lock is destroyed while the caller has it, so no call may follow. -/
def lithCacheDestroy (memory : CacheMemory Thread) (thread : Thread) :
    Option (CacheMemory Thread) :=
  (memory.wrlock thread).bind fun locked =>
    locked.freeEntries locked.entryCount.toNat 0

/-! ## What is released -/

/-- The slots from `i` on, `count` of them, that hold the block. -/
def HeldFrom (memory : CacheMemory Thread) (i count address : ℕ) : Prop :=
  ∃ idx : Fin maxCacheEntries, i ≤ idx.val ∧ idx.val < i + count ∧
    (memory.entries idx).content = some address

theorem heldFrom_succ (memory : CacheMemory Thread) {i : ℕ} (hidx : i < maxCacheEntries)
    (count address : ℕ) : memory.HeldFrom i (count + 1) address ↔
      (memory.entries ⟨i, hidx⟩).content = some address ∨
        memory.HeldFrom (i + 1) count address := by
  constructor
  · rintro ⟨idx, hfirst, hlast, hcontent⟩
    rcases Nat.eq_or_lt_of_le hfirst with rfl | hlater
    · exact Or.inl hcontent
    · exact Or.inr ⟨idx, hlater, by omega, hcontent⟩
  · rintro (hcontent | ⟨idx, hfirst, hlast, hcontent⟩)
    · exact ⟨⟨i, hidx⟩, le_rfl, by simp only; omega, hcontent⟩
    · exact ⟨idx, by omega, by omega, hcontent⟩

theorem exists_freeEntries (memory : CacheMemory Thread) {count i : ℕ}
    (hbound : i + count ≤ maxCacheEntries)
    (hlive : ∀ address, memory.HeldFrom i count address →
      memory.heap.block address ≠ none)
    (hdistinct : ∀ first second address,
      (memory.entries first).content = some address →
      (memory.entries second).content = some address → first = second) :
    ∃ heap, memory.freeEntries count i = some { memory with heap := heap } ∧
      ∀ address, (memory.HeldFrom i count address → heap.block address = none) ∧
        (¬memory.HeldFrom i count address →
          heap.block address = memory.heap.block address) := by
  induction count generalizing i memory with
  | zero =>
      refine ⟨memory.heap, rfl, fun address => ⟨?_, fun _ => rfl⟩⟩
      rintro ⟨idx, hfirst, hlast, -⟩
      omega
  | succ count ih =>
      have hidx : i < maxCacheEntries := by omega
      cases hcontent : (memory.entries ⟨i, hidx⟩).content with
      | none =>
          have hsame (address : ℕ) : memory.HeldFrom i (count + 1) address ↔
              memory.HeldFrom (i + 1) count address := by
            rw [heldFrom_succ memory hidx, hcontent]
            simp
          obtain ⟨heap, hrest, hheap⟩ := ih memory (i := i + 1) (by omega)
            (fun address hheld => hlive address ((hsame address).mpr hheld)) hdistinct
          refine ⟨heap, ?_, fun address => ?_⟩
          · rw [freeEntries, dif_pos hidx, hcontent]
            exact hrest
          · rw [hsame]
            exact hheap address
      | some mine =>
          have hmine := (heldFrom_succ memory hidx count mine).mpr (Or.inl hcontent)
          have hsome : (memory.heap.block mine).isSome = true :=
            Option.isSome_iff_ne_none.mpr (hlive mine hmine)
          have hother {address : ℕ} (hheld : memory.HeldFrom (i + 1) count address) :
              address ≠ mine := by
            rintro rfl
            obtain ⟨idx, hfirst, -, hlater⟩ := hheld
            have hsame := hdistinct ⟨i, hidx⟩ idx _ hcontent hlater
            rw [← hsame] at hfirst
            simp at hfirst
          obtain ⟨heap, hrest, hheap⟩ := ih
            { memory with heap := memory.heap.set mine none } (i := i + 1) (by omega)
            (by
              intro address hheld
              simp only [BlockHeap.set_of_ne _ (hother hheld)]
              apply hlive
              exact (heldFrom_succ memory hidx count address).mpr (Or.inr hheld))
            hdistinct
          refine ⟨heap, ?_, fun address => ?_⟩
          · rw [freeEntries, dif_pos hidx, hcontent]
            simp only [free, BlockHeap.free, if_pos hsome, Option.map_some,
              Option.bind_some]
            exact hrest
          · rw [heldFrom_succ memory hidx, hcontent, Option.some.injEq]
            by_cases haddress : mine = address
            · subst haddress
              refine ⟨fun _ => ?_, by simp⟩
              by_cases hheld : memory.HeldFrom (i + 1) count mine
              · exact (hheap mine).1 hheld
              · rw [(hheap mine).2 hheld, BlockHeap.set_same]
            · simp only [haddress, false_or]
              refine ⟨(hheap address).1, fun hheld => ?_⟩
              rw [(hheap address).2 hheld]
              exact BlockHeap.set_of_ne _ (Ne.symm haddress) _

/-- A reload that succeeds has released the old content. -/
theorem hotReload_releases {idx : Fin maxCacheEntries} {io : CacheAnswers}
    (hreload : memory.lithCacheHotReload idx io = some (true, after)) {address : ℕ}
    (hcontent : (memory.entries idx).content = some address) :
    after.heap.block address = none := by
  obtain ⟨key, -, hload⟩ := Option.bind_eq_some_iff.mp hreload
  cases hopened : io.opened with
  | false => simp [hopened] at hload
  | true =>
      cases hstat : io.stat with
      | none => simp [hopened, hstat] at hload
      | some st =>
          simp only [hopened, hstat, if_true] at hload
          obtain ⟨⟨pointer, allocated⟩, -, hread⟩ := Option.bind_eq_some_iff.mp hload
          cases pointer with
          | none => simp at hread
          | some buffer =>
              obtain ⟨read, -, hclose⟩ := Option.bind_eq_some_iff.mp hread
              obtain ⟨closed, -, hswap⟩ := Option.bind_eq_some_iff.mp hclose
              obtain ⟨freed, hfree, hafter⟩ := Option.map_eq_some_iff.mp hswap
              obtain ⟨heap, hheap, rfl⟩ := Option.map_eq_some_iff.mp hfree
              rw [hcontent] at hheap
              obtain ⟨-, rfl⟩ := Prod.mk.inj hafter
              simp only [setEntry, (BlockHeap.free_eq_some hheap).2, BlockHeap.set_same]

/-- A lookup touches nothing but the lock. -/
theorem lookup_onlyLock [DecidableEq Thread] {filepath : Bytes}
    {found : Option (Fin maxCacheEntries)}
    (hlookup : memory.lithCacheLookup thread filepath = some (found, after)) :
    ∃ lock, after = { memory with rwlock := lock } := by
  obtain ⟨locked, hlock, hscan⟩ := Option.bind_eq_some_iff.mp hlookup
  obtain ⟨result, -, hresult⟩ := Option.map_eq_some_iff.mp hscan
  obtain ⟨rfl, -⟩ := rdlock_eq_some hlock
  cases result <;> obtain ⟨-, rfl⟩ := Prod.mk.inj hresult <;> exact ⟨_, rfl⟩

end CacheMemory

/-! ## Runs beside the rest of the program -/

/-- The cache in the heap of the program, and what the rest of the program holds. -/
structure CacheLifetime (Thread : Type*) where
  memory : CacheMemory Thread
  others : BlockHeap

section Runs

variable {Thread : Type*} [DecidableEq Thread]

/-- The callers reload only what a lookup has found. -/
def MemoryCall.OnActive (memory : CacheMemory Thread) : MemoryCall Thread → Prop
  | .hotReload idx _ => (memory.entries idx).isActive = true
  | _ => True

/-- A step without a call is one of the rest of the program. -/
inductive LifetimeStep :
    CacheLifetime Thread → Option (MemoryCall Thread) → CacheLifetime Thread → Prop where
  | cache {state : CacheLifetime Thread} {call : MemoryCall Thread}
      {after : CacheMemory Thread} (hactive : call.OnActive state.memory)
      (hstep : MemoryStep state.memory call after) :
      LifetimeStep state (some call) { state with memory := after }
  | allocates {state : CacheLifetime Thread} {address : ℕ} {block : Block}
      {heap : BlockHeap} (hmalloc : state.memory.heap.malloc address block = some heap) :
      LifetimeStep state none
        { memory := { state.memory with heap := heap }
          others := state.others.set address (some block) }
  | writes {state : CacheLifetime Thread} {address : ℕ} {written : Bytes}
      {heap others : BlockHeap}
      (hmine : state.others.fill address written = some others)
      (hfill : state.memory.heap.fill address written = some heap) :
      LifetimeStep state none
        { memory := { state.memory with heap := heap }
          others := others }
  | releases {state : CacheLifetime Thread} {address : ℕ} {heap others : BlockHeap}
      (hmine : state.others.free (some address) = some others)
      (hfree : state.memory.heap.free (some address) = some heap) :
      LifetimeStep state none
        { memory := { state.memory with heap := heap }
          others := others }

variable (Thread) in
def lifetimeSystem :
    TransitionSystem (CacheLifetime Thread) (Option (MemoryCall Thread)) where
  start := fun state => ∃ before, state.memory = CacheMemory.lithCacheInit before ∧
    state.others = before.heap
  step := LifetimeStep

end Runs

/-- The heap is what the rest of the program holds and the contents beside it. -/
structure CacheMemory.Apart {Thread : Type*} (memory : CacheMemory Thread)
    (others : BlockHeap) : Prop where
  contents : ∀ idx address, (memory.entries idx).content = some address →
    others.block address = none
  rest : ∀ address, (∀ idx, (memory.entries idx).content ≠ some address) →
    memory.heap.block address = others.block address
  inactive : ∀ idx, (memory.entries idx).isActive = false →
    (memory.entries idx).content = none

namespace CacheMemory

variable {Thread : Type*} {memory after : CacheMemory Thread} {others : BlockHeap}

theorem Apart.lock (hapart : memory.Apart others) (lock : RwLock Thread) :
    Apart { memory with rwlock := lock } others :=
  ⟨hapart.contents, hapart.rest, hapart.inactive⟩

theorem Apart.not_content (hapart : memory.Apart others) {address : ℕ}
    (hmine : others.block address ≠ none) (idx : Fin maxCacheEntries) :
    (memory.entries idx).content ≠ some address :=
  fun hcontent => hmine (hapart.contents idx address hcontent)

/-- A slot has been filled, and its old content released. -/
theorem Apart.filled (hapart : memory.Apart others) (howned : memory.Owned)
    {idx : Fin maxCacheEntries} {io : CacheAnswers} {st : Stat}
    (hfilled : memory.Filled idx io st after)
    (hactive : (after.entries idx).isActive = true)
    (hreleased : ∀ address, (memory.entries idx).content = some address →
      after.heap.block address = none) : after.Apart others := by
  have hfree : others.block io.address = none := by
    rw [← hapart.rest, hfilled.fresh]
    intro other hcontent
    obtain ⟨block, hblock, -⟩ := howned.live other _ hcontent
    rw [hfilled.fresh] at hblock
    simp at hblock
  constructor
  case contents =>
    intro other address hcontent
    by_cases hother : other = idx
    · rw [hother, hfilled.content, Option.some.injEq] at hcontent
      exact hcontent ▸ hfree
    · rw [hfilled.others other hother] at hcontent
      exact hapart.contents other address hcontent
  case rest =>
    intro address hnowhere
    have haddress : address ≠ io.address := by
      rintro rfl
      exact hnowhere idx hfilled.content
    by_cases hold : (memory.entries idx).content = some address
    · rw [hreleased address hold, hapart.contents idx address hold]
    · rw [hfilled.heap address haddress hold]
      apply hapart.rest
      intro other
      by_cases hother : other = idx
      · exact hother ▸ hold
      · rw [← hfilled.others other hother]
        exact hnowhere other
  case inactive =>
    intro other hinactive
    have hother : other ≠ idx := by
      rintro rfl
      rw [hactive] at hinactive
      simp at hinactive
    rw [hfilled.others other hother] at hinactive ⊢
    exact hapart.inactive other hinactive

/-- The rest of the program changes one block that is not a content. -/
theorem Apart.elsewhere (hapart : memory.Apart others) {heap others' : BlockHeap}
    {address : ℕ} (hnowhere : ∀ idx, (memory.entries idx).content ≠ some address)
    (hsame : heap.block address = others'.block address)
    (hheap : ∀ other, other ≠ address → heap.block other = memory.heap.block other)
    (hothers : ∀ other, other ≠ address → others'.block other = others.block other) :
    Apart { memory with heap := heap } others' where
  contents := by
    intro idx other hcontent
    rw [hothers other fun h => hnowhere idx (h ▸ hcontent)]
    exact hapart.contents idx other hcontent
  rest := by
    intro other hother
    by_cases haddress : other = address
    · rw [haddress]
      exact hsame
    · rw [hheap other haddress, hothers other haddress]
      exact hapart.rest other hother
  inactive := hapart.inactive

theorem WellFormed.elsewhere (hwell : memory.WellFormed) {heap : BlockHeap}
    {address : ℕ} (hnowhere : ∀ idx, (memory.entries idx).content ≠ some address)
    (hheap : ∀ other, other ≠ address → heap.block other = memory.heap.block other) :
    WellFormed { memory with heap := heap } where
  nonneg := hwell.nonneg
  bounded := hwell.bounded
  active := hwell.active
  usable := hwell.usable
  owned :=
    { live := by
        intro idx other hcontent
        rw [hheap other fun h => hnowhere idx (h ▸ hcontent)]
        exact hwell.owned.live idx other hcontent
      distinct := hwell.owned.distinct }

theorem Apart.reload (hapart : memory.Apart others) (hwell : memory.WellFormed)
    {idx : Fin maxCacheEntries} {io : CacheAnswers} {reloaded : Bool}
    (hactive : (memory.entries idx).isActive = true) (hfresh : memory.Fresh io)
    (hreload : memory.lithCacheHotReload idx io = some (reloaded, after)) :
    after.WellFormed ∧ after.Apart others := by
  obtain ⟨key, hkey⟩ := (hwell.usable idx hactive).filepath
  rcases lithCacheHotReload_cases hkey (hwell.live idx) hfresh with
    ⟨hfailed, -⟩ | ⟨st, filled, hsucceeded, hfilled, hkept, hcount, -⟩
  · obtain ⟨-, rfl⟩ := returned_eq hfailed hreload
    exact ⟨hwell, hapart⟩
  · obtain ⟨-, rfl⟩ := returned_eq hsucceeded hreload
    refine ⟨hwell.reloaded hfilled hkept hcount, ?_⟩
    apply hapart.filled hwell.owned hfilled (hkept.isActive.trans hactive)
    exact fun address hcontent => hotReload_releases hsucceeded hcontent

variable [DecidableEq Thread]

theorem Apart.add (hapart : memory.Apart others) (hwell : memory.WellFormed)
    {thread : Thread} {filepath mimeType : Bytes} {io : CacheAnswers} {code : ℤ}
    (hfresh : memory.Fresh io)
    (hadd : memory.lithCacheAdd thread filepath mimeType io = some (code, after)) :
    after.WellFormed ∧ after.Apart others := by
  obtain ⟨locked, hlock, -⟩ := Option.bind_eq_some_iff.mp hadd
  let cache : LithCache := { LithCache.zero with entryCount := memory.entryCount.toNat }
  have hentries : memory.entryCount = cache.entryCount :=
    (Int.toNat_of_nonneg hwell.nonneg).symm
  rcases lithCacheAdd_cases hlock hentries filepath mimeType hfresh with
    ⟨code', -, hfailed, -⟩ | ⟨hroom, st, stored, hsucceeded, hfilled, hstored, hcount, -⟩
  · obtain ⟨-, rfl⟩ := returned_eq hfailed hadd
    exact ⟨hwell, hapart⟩
  · obtain ⟨-, rfl⟩ := returned_eq hsucceeded hadd
    refine ⟨hwell.added hentries hfilled hstored hcount, ?_⟩
    apply hapart.filled hwell.owned hfilled hstored.isActive
    intro address hcontent
    have hempty : (memory.entries ⟨cache.entryCount, hroom⟩).isActive ≠ true := by
      rw [ne_eq, hwell.active, hentries]
      exact lt_irrefl _
    rw [hapart.inactive _ (Bool.not_eq_true _ ▸ hempty)] at hcontent
    simp at hcontent

end CacheMemory

section Runs

variable {Thread : Type*} [DecidableEq Thread] {state after : CacheLifetime Thread}

theorem MemoryStep.apart {memory after : CacheMemory Thread}
    {call : MemoryCall Thread} {others : BlockHeap} (hwell : memory.WellFormed)
    (hapart : memory.Apart others) (hactive : call.OnActive memory)
    (hstep : MemoryStep memory call after) :
    after.WellFormed ∧ after.Apart others := by
  cases hstep with
  | add hfresh hadd => exact hapart.add hwell hfresh hadd
  | lookup hlookup =>
      obtain ⟨lock, rfl⟩ := CacheMemory.lookup_onlyLock hlookup
      exact ⟨hwell.lock lock, hapart.lock lock⟩
  | hotReload hfresh hreload => exact hapart.reload hwell hactive hfresh hreload
  | rdlock hlock =>
      obtain ⟨rfl, -⟩ := CacheMemory.rdlock_eq_some hlock
      exact ⟨hwell.lock _, hapart.lock _⟩
  | wrlock hlock =>
      obtain ⟨rfl, -⟩ := CacheMemory.wrlock_eq_some hlock
      exact ⟨hwell.lock _, hapart.lock _⟩
  | unlock hheld => exact ⟨hwell.lock _, hapart.lock _⟩

theorem LifetimeStep.apart {call : Option (MemoryCall Thread)}
    (hwell : state.memory.WellFormed) (hapart : state.memory.Apart state.others)
    (hstep : LifetimeStep state call after) :
    after.memory.WellFormed ∧ after.memory.Apart after.others := by
  cases hstep with
  | cache hactive hstep => exact hstep.apart hwell hapart hactive
  | @allocates address block heap hmalloc =>
      obtain ⟨hfresh, rfl⟩ := BlockHeap.malloc_eq_some hmalloc
      have hnowhere (idx : Fin maxCacheEntries) :
          (state.memory.entries idx).content ≠ some address :=
        fun hcontent => hwell.live idx address hcontent hfresh
      have hheap (other : ℕ) (hother : other ≠ address) :=
        state.memory.heap.set_of_ne hother (some block)
      refine ⟨hwell.elsewhere hnowhere hheap, hapart.elsewhere hnowhere ?_ hheap ?_⟩
      · simp
      · exact fun other hother => BlockHeap.set_of_ne _ hother _
  | @writes address written heap others hmine hfill =>
      obtain ⟨block, hblock, rfl⟩ := BlockHeap.fill_eq_some hmine
      obtain ⟨block', hblock', rfl⟩ := BlockHeap.fill_eq_some hfill
      have hnowhere := hapart.not_content (by rw [hblock]; simp)
      have hsame : block' = block := by
        rw [hapart.rest address hnowhere, hblock] at hblock'
        exact (Option.some.inj hblock').symm
      have hheap (other : ℕ) (hother : other ≠ address) :=
        state.memory.heap.set_of_ne hother (some (block'.fill written))
      refine ⟨hwell.elsewhere hnowhere hheap, hapart.elsewhere hnowhere ?_ hheap ?_⟩
      · simp [hsame]
      · exact fun other hother => BlockHeap.set_of_ne _ hother _
  | @releases address heap others hmine hfree =>
      obtain ⟨hheld, rfl⟩ := BlockHeap.free_eq_some hmine
      obtain ⟨-, rfl⟩ := BlockHeap.free_eq_some hfree
      have hnowhere := hapart.not_content hheld
      have hheap (other : ℕ) (hother : other ≠ address) :=
        state.memory.heap.set_of_ne hother none
      refine ⟨hwell.elsewhere hnowhere hheap, hapart.elsewhere hnowhere ?_ hheap ?_⟩
      · simp
      · exact fun other hother => BlockHeap.set_of_ne _ hother _

theorem apart_of_reachable (hreach : (lifetimeSystem Thread).Reachable state) :
    state.memory.WellFormed ∧ state.memory.Apart state.others := by
  apply hreach.invariant
  · rintro first ⟨before, hmemory, hothers⟩
    rw [hmemory, hothers]
    refine ⟨CacheMemory.wellFormed_init before, ?_, fun _ _ => rfl, fun _ _ => rfl⟩
    intro idx address hcontent
    simp [CacheMemory.lithCacheInit] at hcontent
  · intro before label next hinv hstep
    exact hstep.apart hinv.1 hinv.2

/-- Whatever was added, reloaded and looked up before, the destruction releases
each content once and leaves what the rest of the program holds. -/
theorem cache_destroy_balanced (hreach : (lifetimeSystem Thread).Reachable state)
    (hwriter : state.memory.rwlock.writer = none)
    (hreaders : state.memory.rwlock.readers = []) (thread : Thread) :
    ∃ after, state.memory.lithCacheDestroy thread = some after ∧
      after.heap = state.others := by
  obtain ⟨hwell, hapart⟩ := apart_of_reachable hreach
  have hlock : state.memory.wrlock thread =
      some { state.memory with rwlock := state.memory.rwlock.wrlock thread } := by
    simp [CacheMemory.wrlock, hwriter, hreaders]
  have hcount := hwell.bounded
  have hlast := Int.toNat_of_nonneg hwell.nonneg
  have hheld (address : ℕ) :
      state.memory.HeldFrom 0 state.memory.entryCount.toNat address ↔
        ∃ idx, (state.memory.entries idx).content = some address := by
    constructor
    · rintro ⟨idx, -, -, hcontent⟩
      exact ⟨idx, hcontent⟩
    · rintro ⟨idx, hcontent⟩
      refine ⟨idx, Nat.zero_le _, ?_, hcontent⟩
      have hactive : (state.memory.entries idx).isActive = true := by
        by_contra hinactive
        rw [hapart.inactive idx (by simpa using hinactive)] at hcontent
        simp at hcontent
      have hlt := (hwell.active idx).mp hactive
      omega
  let locked := { state.memory with rwlock := state.memory.rwlock.wrlock thread }
  have hlive (address : ℕ)
      (hfrom : locked.HeldFrom 0 state.memory.entryCount.toNat address) :
      locked.heap.block address ≠ none := by
    obtain ⟨idx, -, -, hcontent⟩ := hfrom
    exact hwell.live idx address hcontent
  obtain ⟨heap, hfreed, hheap⟩ := locked.exists_freeEntries
    (i := 0) (by omega : 0 + state.memory.entryCount.toNat ≤ maxCacheEntries) hlive
    hwell.owned.distinct
  have hdestroy : state.memory.lithCacheDestroy thread =
      some { locked with heap := heap } := by
    rw [CacheMemory.lithCacheDestroy, hlock]
    exact hfreed
  refine ⟨_, hdestroy, ?_⟩
  apply BlockHeap.ext
  funext address
  by_cases hcontent : ∃ idx, (state.memory.entries idx).content = some address
  · obtain ⟨idx, hidx⟩ := hcontent
    have hnone := (hheap address).1 ((hheld address).mpr ⟨idx, hidx⟩)
    exact hnone.trans (hapart.contents idx address hidx).symm
  · have hrest := (hheap address).2 fun h => hcontent ((hheld address).mp h)
    apply hrest.trans
    exact hapart.rest address fun idx hidx => hcontent ⟨idx, hidx⟩

end Runs

/-! ## A slot keeps its key -/

namespace CacheMemory

variable {Thread : Type*} {memory after : CacheMemory Thread}

theorem findEntry_hit {filepath : Bytes} {idx : Fin maxCacheEntries} {count i : ℕ}
    (hfind : memory.findEntry filepath count i = some (some idx)) :
    i ≤ idx.val ∧ (memory.entries idx).isActive = true ∧
      (memory.entries idx).filepath.string = some filepath := by
  induction count generalizing i with
  | zero => simp [findEntry] at hfind
  | succ count ih =>
      have hlater (hrest : memory.findEntry filepath count (i + 1) = some (some idx)) :=
        (ih hrest).imp_left (Nat.le_of_succ_le (n := i))
      rw [findEntry] at hfind
      split_ifs at hfind with hidx hactive
      · obtain ⟨key, hkey, hrest⟩ := Option.bind_eq_some_iff.mp hfind
        split_ifs at hrest with hmatch
        · rw [Option.some.injEq, Option.some.injEq] at hrest
          subst hrest
          exact ⟨le_rfl, hactive, hkey.trans (congrArg some hmatch)⟩
        · exact hlater hrest
      · exact hlater hfind

/-- The scan stops where it stopped before if no key up to there has changed. -/
theorem findEntry_of_kept (memory after : CacheMemory Thread) {filepath : Bytes}
    {idx : Fin maxCacheEntries}
    (hkept : ∀ other ≤ idx, KeyKept (memory.entries other) (after.entries other))
    {count count' i : ℕ} (hcount : count ≤ count')
    (hfind : memory.findEntry filepath count i = some (some idx)) :
    after.findEntry filepath count' i = some (some idx) := by
  induction count generalizing count' i with
  | zero => simp [findEntry] at hfind
  | succ count ih =>
      obtain ⟨rest, rfl⟩ : ∃ rest, count' = rest + 1 := ⟨count' - 1, by omega⟩
      have hle : i ≤ idx.val := (findEntry_hit hfind).1
      have hidx : i < maxCacheEntries := lt_of_le_of_lt hle idx.isLt
      have hsame := hkept ⟨i, hidx⟩ hle
      rw [findEntry, dif_pos hidx] at hfind ⊢
      rw [hsame.isActive, hsame.filepath]
      split_ifs at hfind ⊢ with hactive
      · obtain ⟨key, hkey, hrest⟩ := Option.bind_eq_some_iff.mp hfind
        rw [hkey, Option.bind_some]
        split_ifs at hrest ⊢ with hmatch
        · exact hrest
        · exact ih (by omega) hrest
      · exact ih (by omega) hfind

/-- What a slot in use keeps, and with it the number of slots in use. -/
structure KeysKept (memory after : CacheMemory Thread) : Prop where
  count : memory.entryCount ≤ after.entryCount
  keys : ∀ idx, (memory.entries idx).isActive = true →
    KeyKept (memory.entries idx) (after.entries idx)

theorem KeysKept.refl (memory : CacheMemory Thread) : memory.KeysKept memory :=
  ⟨le_rfl, fun _ _ => ⟨rfl, rfl, rfl⟩⟩

theorem KeysKept.trans {later : CacheMemory Thread} (hfirst : memory.KeysKept after)
    (hsecond : after.KeysKept later) : memory.KeysKept later where
  count := hfirst.count.trans hsecond.count
  keys := by
    intro idx hactive
    have hkept := hfirst.keys idx hactive
    have hthen := hsecond.keys idx (hkept.isActive.trans hactive)
    exact ⟨hthen.filepath.trans hkept.filepath, hthen.mimeType.trans hkept.mimeType,
      hthen.isActive.trans hkept.isActive⟩

variable [DecidableEq Thread]

theorem keysKept_of_step {cache : LithCache} (hwell : memory.WellFormed)
    (hrep : memory.Represents cache) {call : MemoryCall Thread}
    (hstep : MemoryStep memory call after) : memory.KeysKept after := by
  cases hstep with
  | @add _ thread filepath mimeType io code hfresh hadd =>
      have hatomic := addAtomic hwell hrep thread filepath mimeType hfresh
      by_cases hcode : code = 0
      · subst hcode
        obtain ⟨idx, hidx, honly, hcount⟩ := hatomic.added after hadd
        refine ⟨by omega, fun other hactive => ?_⟩
        have hother : other ≠ idx := by
          rintro rfl
          rw [hwell.active, hidx] at hactive
          exact lt_irrefl _ hactive
        rw [honly.entries other hother]
        exact ⟨rfl, rfl, rfl⟩
      · rw [hatomic.failed code after hadd hcode]
        exact .refl memory
  | lookup hlookup =>
      obtain ⟨lock, rfl⟩ := lookup_onlyLock hlookup
      exact ⟨le_rfl, fun _ _ => ⟨rfl, rfl, rfl⟩⟩
  | @hotReload _ idx io reloaded hfresh hreload =>
      have hatomic := reloadAtomic hwell idx hfresh
      cases reloaded with
      | false =>
          rw [hatomic.failed after hreload]
          exact .refl memory
      | true =>
          obtain ⟨honly, hkept, hcount⟩ := hatomic.reloaded after hreload
          refine ⟨hcount.ge, fun other _ => ?_⟩
          by_cases hother : other = idx
          · exact hother ▸ hkept
          · rw [honly.entries other hother]
            exact ⟨rfl, rfl, rfl⟩
  | rdlock hlock =>
      obtain ⟨rfl, -⟩ := rdlock_eq_some hlock
      exact ⟨le_rfl, fun _ _ => ⟨rfl, rfl, rfl⟩⟩
  | wrlock hlock =>
      obtain ⟨rfl, -⟩ := wrlock_eq_some hlock
      exact ⟨le_rfl, fun _ _ => ⟨rfl, rfl, rfl⟩⟩
  | unlock hheld => exact ⟨le_rfl, fun _ _ => ⟨rfl, rfl, rfl⟩⟩

/-- The states that calls lead to from `memory`. -/
def Later (memory after : CacheMemory Thread) : Prop :=
  Relation.ReflTransGen (fun before next => ∃ call, MemoryStep before call next)
    memory after

theorem keysKept_of_later (hreach : (cacheMemorySystem Thread).Reachable memory)
    (hlater : memory.Later after) :
    (cacheMemorySystem Thread).Reachable after ∧ memory.KeysKept after := by
  induction hlater with
  | refl => exact ⟨hreach, .refl memory⟩
  | tail _ hstep ih =>
      obtain ⟨call, hstep⟩ := hstep
      obtain ⟨hwell, cache, -, hrep⟩ := represents_of_reachable ih.1
      exact ⟨ih.1.next call hstep, ih.2.trans (keysKept_of_step hwell hrep hstep)⟩

theorem exists_findEntry {thread : Thread} {filepath : Bytes}
    {found : Option (Fin maxCacheEntries)}
    (hlookup : memory.lithCacheLookup thread filepath = some (found, after)) :
    ∃ lock : RwLock Thread, findEntry { memory with rwlock := lock } filepath
      memory.entryCount.toNat 0 = some found := by
  obtain ⟨locked, hlock, hscan⟩ := Option.bind_eq_some_iff.mp hlookup
  obtain ⟨result, hfind, hresult⟩ := Option.map_eq_some_iff.mp hscan
  obtain ⟨rfl, -⟩ := rdlock_eq_some hlock
  refine ⟨memory.rwlock.rdlock thread, ?_⟩
  cases result <;> obtain ⟨rfl, -⟩ := Prod.mk.inj hresult <;> exact hfind

end CacheMemory

variable {Thread : Type*} [DecidableEq Thread] {memory after : CacheMemory Thread}

/-- The caller of a lookup may keep the slot across any calls: it still has the
key that was looked up, and whoever looks up the path again finds it there. -/
theorem lookup_keeps_slot (hreach : (cacheMemorySystem Thread).Reachable memory)
    (hlater : memory.Later after) {thread : Thread} {filepath : Bytes}
    {idx : Fin maxCacheEntries} {held : CacheMemory Thread}
    (hfound : memory.lithCacheLookup thread filepath = some (some idx, held)) :
    (after.entries idx).isActive = true ∧
      (after.entries idx).filepath.string = some filepath ∧
      (after.entries idx).mimeType = (memory.entries idx).mimeType ∧
      ∀ other found held', after.lithCacheLookup other filepath = some (found, held') →
        found = some idx := by
  obtain ⟨-, hkept⟩ := CacheMemory.keysKept_of_later hreach hlater
  obtain ⟨hwell, -⟩ := CacheMemory.represents_of_reachable hreach
  obtain ⟨lock, hfind⟩ := CacheMemory.exists_findEntry hfound
  obtain ⟨-, hactive, hkey⟩ := CacheMemory.findEntry_hit hfind
  have hidx := hkept.keys idx hactive
  refine ⟨hidx.isActive.trans hactive, ?_, hidx.mimeType, ?_⟩
  · rw [hidx.filepath]
    exact hkey
  · intro other found held' hagain
    obtain ⟨lock', hfind'⟩ := CacheMemory.exists_findEntry hagain
    have hbefore (other : Fin maxCacheEntries) (hle : other ≤ idx) :
        (memory.entries other).isActive = true := by
      rw [hwell.active] at hactive ⊢
      have hval : other.val ≤ idx.val := hle
      omega
    have hsame : CacheMemory.findEntry { after with rwlock := lock' } filepath
        after.entryCount.toNat 0 = some (some idx) :=
      CacheMemory.findEntry_of_kept { memory with rwlock := lock }
        { after with rwlock := lock' }
        (fun other hle => hkept.keys other (hbefore other hle))
        (Int.toNat_le_toNat hkept.count) hfind
    rw [hsame, Option.some.injEq] at hfind'
    exact hfind'.symm

/-! ## One file beside one foreign block -/

def foreignBlock : BlockHeap := BlockHeap.set ⟨fun _ => none⟩ 9 (some ⟨16, fun _ => 0⟩)

/-- The empty cache after somebody else has taken a block. -/
def sharedMemory : CacheMemory ℕ := { emptyMemory with heap := foreignBlock }

theorem cache_destroy_balanced_index :
    ∃ state : CacheLifetime ℕ, state.memory.entryCount = 1 ∧
      (state.others.block 9).isSome = true ∧
      ∃ after, state.memory.lithCacheDestroy 0 = some after ∧
        after.heap = state.others := by
  have hstart : (lifetimeSystem ℕ).Reachable ⟨emptyMemory, ⟨fun _ => none⟩⟩ :=
    .start ⟨_, rfl, rfl⟩
  have htaken : (lifetimeSystem ℕ).Reachable ⟨sharedMemory, foreignBlock⟩ :=
    hstart.next none (.allocates rfl)
  obtain ⟨after, hadd, hcount, hlock, -⟩ :=
    exists_add_index sharedMemory rfl rfl (fun _ => rfl)
  have hadded : (lifetimeSystem ℕ).Reachable ⟨after, foreignBlock⟩ :=
    htaken.next (some (.add 0 _ _ indexAnswers))
      (.cache trivial (.add (fun _ => rfl) hadd))
  refine ⟨_, hcount, rfl, cache_destroy_balanced hadded ?_ ?_ 0⟩
  · rw [hlock]
    rfl
  · rw [hlock]
    rfl

theorem lookup_keeps_slot_index :
    ∃ memory after : CacheMemory ℕ, memory.Later after ∧ after.rwlock.readers = [1] ∧
      (after.entries firstSlot).filepath.string = some (ascii "public/index.html") ∧
      ∀ other found held,
        after.lithCacheLookup other (ascii "public/index.html") = some (found, held) →
        found = some firstSlot := by
  obtain ⟨memory, hadd, hcount, hlock, hactive, hpath, -⟩ :=
    exists_add_index emptyMemory rfl rfl (fun _ => rfl)
  have hreach : (cacheMemorySystem ℕ).Reachable memory :=
    .next (.start ⟨_, rfl⟩) _ (.add (fun _ => rfl) hadd)
  have hscan (lock : RwLock ℕ) : CacheMemory.findEntry { memory with rwlock := lock }
      (ascii "public/index.html") 1 0 = some (some firstSlot) := by
    have hslot : (⟨0, by decide⟩ : Fin maxCacheEntries) = firstSlot := rfl
    rw [CacheMemory.findEntry, dif_pos (by decide : 0 < maxCacheEntries)]
    simp only [hslot, hactive, hpath, Option.bind_some, if_true]
  have hfound : memory.lithCacheLookup 1 (ascii "public/index.html") =
      some (some firstSlot, { memory with rwlock := memory.rwlock.rdlock 1 }) := by
    have hfree : memory.rdlock 1 =
        some { memory with rwlock := memory.rwlock.rdlock 1 } := by
      simp [CacheMemory.rdlock, hlock, RwLock.unlocked]
    have hone : memory.entryCount.toNat = 1 := by
      rw [hcount]
      rfl
    rw [CacheMemory.lithCacheLookup, hfree, Option.bind_some]
    simp only [hone, hscan, Option.map_some]
  have hlater : memory.Later { memory with rwlock := memory.rwlock.rdlock 1 } :=
    .single ⟨_, .lookup hfound⟩
  obtain ⟨-, hkey, -, hagain⟩ := lookup_keeps_slot hreach hlater hfound
  refine ⟨memory, _, hlater, ?_, hkey, hagain⟩
  rw [hlock]
  rfl

end Lith
