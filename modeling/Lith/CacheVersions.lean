import Lith.Cache

/-!
# Cache entries and the versions of a file

A version of a file is its content together with its modification time.  An
entry tracks a version when it is older, or has the same time and holds the
same content; an entry that tracks the current version is stale exactly when
the router's comparison of the two times says so.
-/

namespace Lith

open CString

/-- A version of a regular file, within the range of `off_t`. -/
structure FileVersion where
  content : Bytes
  mtime : ℤ
  fits : content.length < 2 ^ 63

def FileVersion.status (version : FileVersion) : Stat where
  size := version.content.length
  mtime := version.mtime

def FileVersion.io (version : FileVersion) (memory : ℕ → UInt8) : FileAccess :=
  FileAccess.regular version.content version.mtime memory

/-- The same file again, or a change that moves its time forward. -/
def FileVersion.Precedes (old new : FileVersion) : Prop :=
  (new.content = old.content ∧ new.mtime = old.mtime) ∨ old.mtime < new.mtime

structure CacheEntry.Holds (entry : CacheEntry) (version : FileVersion) :
    Prop where
  content : entry.content = some version.content
  size : entry.size = version.content.length
  lastModified : entry.lastModified = version.mtime

def CacheEntry.Tracks (entry : CacheEntry) (version : FileVersion) : Prop :=
  entry.lastModified < version.mtime ∨ entry.Holds version

theorem FileVersion.precedes_rfl (version : FileVersion) :
    version.Precedes version :=
  Or.inl ⟨rfl, rfl⟩

theorem FileVersion.Precedes.trans {first second third : FileVersion}
    (hleft : first.Precedes second) (hright : second.Precedes third) :
    first.Precedes third := by
  rcases hleft with ⟨hcontent, hmtime⟩ | hlater
  · rcases hright with ⟨hcontent', hmtime'⟩ | hlater'
    · exact Or.inl ⟨hcontent'.trans hcontent, hmtime'.trans hmtime⟩
    · exact Or.inr (hmtime ▸ hlater')
  · rcases hright with ⟨-, hmtime'⟩ | hlater'
    · exact Or.inr (hmtime' ▸ hlater)
    · exact Or.inr (hlater.trans hlater')

theorem CacheEntry.Tracks.of_precedes {entry : CacheEntry}
    {old new : FileVersion} (htracks : entry.Tracks old)
    (hnext : old.Precedes new) : entry.Tracks new := by
  rcases hnext with ⟨hcontent, hmtime⟩ | hlater
  · rcases htracks with holder | hholds
    · exact Or.inl (hmtime ▸ holder)
    · refine Or.inr ⟨?_, ?_, ?_⟩
      · rw [hcontent, hholds.content]
      · rw [hcontent, hholds.size]
      · rw [hmtime, hholds.lastModified]
  · rcases htracks with holder | hholds
    · exact Or.inl (holder.trans hlater)
    · exact Or.inl (hholds.lastModified ▸ hlater)

theorem FileVersion.fread_size (version : FileVersion) (memory : ℕ → UInt8) :
    (version.io memory).fread version.status.size = version.content := by
  have hlen := version.fits
  exact take_sizeT_length (by omega)

theorem FileVersion.loadedEntry_holds (version : FileVersion)
    (filepath mimeType : Bytes) (memory : ℕ → UInt8) :
    (loadedEntry filepath mimeType (version.io memory)
      version.status).Holds version := by
  refine ⟨?_, ?_, rfl⟩
  · simp [loadedEntry, version.fread_size]
  · simp [loadedEntry, version.fread_size]

theorem FileVersion.lithCacheHotReload_holds (version : FileVersion)
    (entry : CacheEntry) (memory : ℕ → UInt8) :
    (lithCacheHotReload entry (version.io memory)).2.Holds version := by
  have hreload : lithCacheHotReload entry (version.io memory) =
      (true, { entry with
        content := some ((version.io memory).fread version.status.size)
        size := ((version.io memory).fread version.status.size).length
        lastModified := version.mtime }) := rfl
  rw [hreload, version.fread_size]
  exact ⟨rfl, rfl, rfl⟩

end Lith
