import Lith.MonotoneReads

/-!
# The cache of the versions loaded last

A reload writes an entry field by field, so the cache is torn while one is under way.
Here is the cache as the workers that do not reload can see it, made of the last
version of each entry: a step leaves it as it is or puts in what a reload has loaded,
the lookup finds the same slots in it, and an entry that somebody has the lock for is
the one in the real cache.
-/

namespace Lith

open CString

section Lookup

/-- The lookup cannot tell the caches apart. -/
structure LithCache.SameKeys (left right : LithCache) : Prop where
  entryCount : left.entryCount = right.entryCount
  filepath : ∀ idx, (left.entries idx).filepath = (right.entries idx).filepath
  isActive : ∀ idx, (left.entries idx).isActive = (right.entries idx).isActive

variable {left right : LithCache}

theorem LithCache.SameKeys.lookup (hkeys : left.SameKeys right) (path : Bytes) :
    lithCacheLookup left path = lithCacheLookup right path := by
  apply lithCacheLookup_congr
  intro idx
  simp only [LithCache.matchesKey, hkeys.entryCount, hkeys.filepath, hkeys.isActive]

theorem LithCache.SameKeys.trans {last : LithCache} (hfirst : left.SameKeys right)
    (hsecond : right.SameKeys last) : left.SameKeys last where
  entryCount := hfirst.entryCount.trans hsecond.entryCount
  filepath := fun idx => (hfirst.filepath idx).trans (hsecond.filepath idx)
  isActive := fun idx => (hfirst.isActive idx).trans (hsecond.isActive idx)

theorem LithCache.sameKeys_setEntry (cache : LithCache) {idx : Fin maxCacheEntries}
    {entry : CacheEntry} (hpath : entry.filepath = (cache.entries idx).filepath)
    (hactive : entry.isActive = (cache.entries idx).isActive) :
    (cache.setEntry idx entry).SameKeys cache := by
  refine ⟨rfl, fun slot => ?_, fun slot => ?_⟩ <;>
    by_cases hslot : slot = idx <;> simp_all [LithCache.setEntry]

end Lookup

section Steps

variable {Worker : Type*} [DecidableEq Worker] {state after : LockingState Worker}
  {worker : Worker}

def LockingState.current (state : LockingState Worker) : LithCache where
  entries := fun idx => (state.versions idx).getLast?.getD .zero
  entryCount := state.cache.entryCount

theorem LockingStep.sameKeys (hstep : LockingStep state worker after) :
    after.cache.SameKeys state.cache := by
  cases hstep with
  | freeContent req idx fresh hpc => exact state.cache.sameKeys_setEntry rfl rfl
  | setContent req idx fresh hpc => exact state.cache.sameKeys_setEntry rfl rfl
  | setSize req idx fresh hpc => exact state.cache.sameKeys_setEntry rfl rfl
  | setLastModified req idx fresh hpc => exact state.cache.sameKeys_setEntry rfl rfl
  | _ => exact ⟨rfl, fun _ => rfl, fun _ => rfl⟩

/-- Only the end of a reload changes the last versions. -/
theorem LockingStep.current_cases (hstep : LockingStep state worker after) :
    after.current = state.current ∨ ∃ req idx fresh,
      state.pcs worker = .swap req idx fresh .lastModified ∧
        after.current = state.current.setEntry idx fresh := by
  have hcount := hstep.sameKeys.entryCount
  have hsame (hversions : after.versions = state.versions) :
      after.current = state.current := by
    simp only [LockingState.current, hversions, hcount]
  cases hstep.effect with
  | quiet _ _ hversions _ => exact Or.inl (hsame hversions)
  | fills _ _ _ hversions _ => exact Or.inl (hsame hversions)
  | sends _ _ hversions _ => exact Or.inl (hsame hversions)
  | @commits req idx fresh hpc _ hversions _ =>
      refine Or.inr ⟨req, idx, fresh, hpc, ?_⟩
      simp only [LockingState.current, LithCache.setEntry, hversions, hcount,
        LithCache.mk.injEq, and_true]
      funext slot
      by_cases hslot : slot = idx
      · subst hslot
        simp
      · simp [hslot]

def LockingState.Keyed (state : LockingState Worker) : Prop :=
  state.current.SameKeys state.cache

theorem LockingState.Keyed.step (hkeyed : state.Keyed) (hinv : state.Inv)
    (hstep : LockingStep state worker after) : after.Keyed := by
  have hcache := hstep.sameKeys
  have hback : state.cache.SameKeys after.cache :=
    ⟨hcache.entryCount.symm, fun idx => (hcache.filepath idx).symm,
      fun idx => (hcache.isActive idx).symm⟩
  have hold : state.current.SameKeys after.cache := hkeyed.trans hback
  rcases hstep.current_cases with hsame | ⟨req, idx, fresh, hpc, hnew⟩
  · rw [LockingState.Keyed, hsame]
    exact hold
  · have hknows := hinv.knows worker
    rw [hpc] at hknows
    have hfresh : fresh = { state.cache.entries idx with
      lastModified := fresh.lastModified } := hknows
    rw [LockingState.Keyed, hnew]
    refine (state.current.sameKeys_setEntry ?_ ?_).trans hold
    · rw [hkeyed.filepath, hfresh]
    · rw [hkeyed.isActive, hfresh]

end Steps

end Lith
