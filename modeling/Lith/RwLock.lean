import Mathlib.Data.List.Nodup
import Mathlib.Tactic

/-!
# Readers-writer locks

A lock with shared readers and one exclusive writer, and the mode in which
each thread is meant to hold it.  `Agrees` ties the two together: threads that
follow a program whose points have a fixed mode keep it, whatever the schedule.
-/

namespace Lith

inductive LockMode where
  | free
  | shared
  | exclusive
  deriving DecidableEq

structure RwLock (Thread : Type*) where
  readers : List Thread
  writer : Option Thread

namespace RwLock

variable {Thread : Type*} {lock : RwLock Thread} {mode : Thread → LockMode}
  {thread : Thread}

def unlocked : RwLock Thread := ⟨[], none⟩

def Holds (lock : RwLock Thread) (thread : Thread) : Prop :=
  thread ∈ lock.readers ∨ lock.writer = some thread

def rdlock (lock : RwLock Thread) (thread : Thread) : RwLock Thread :=
  { lock with readers := thread :: lock.readers }

def wrlock (lock : RwLock Thread) (thread : Thread) : RwLock Thread :=
  { lock with writer := some thread }

/-- Every thread holds the lock in its mode, and a writer is alone. -/
structure Agrees (lock : RwLock Thread) (mode : Thread → LockMode) : Prop where
  shared : ∀ thread, thread ∈ lock.readers ↔ mode thread = .shared
  exclusive : ∀ thread, lock.writer = some thread ↔ mode thread = .exclusive
  once : lock.readers.Nodup
  alone : lock.writer ≠ none → lock.readers = []

theorem agrees_unlocked (hfree : ∀ thread, mode thread = .free) :
    (unlocked : RwLock Thread).Agrees mode where
  shared := by simp [unlocked, hfree]
  exclusive := by simp [unlocked, hfree]
  once := List.nodup_nil
  alone := fun _ => rfl

theorem Agrees.holds_iff (hagrees : lock.Agrees mode) (thread : Thread) :
    lock.Holds thread ↔ mode thread ≠ .free := by
  unfold Holds
  rw [hagrees.shared, hagrees.exclusive]
  cases mode thread <;> simp

theorem Agrees.readers_eq_nil (hagrees : lock.Agrees mode)
    (hmode : mode thread = .exclusive) : lock.readers = [] := by
  apply hagrees.alone
  rw [(hagrees.exclusive thread).mpr hmode]
  simp

theorem Agrees.eq_of_exclusive (hagrees : lock.Agrees mode)
    (hmode : mode thread = .exclusive) {other : Thread}
    (hother : mode other ≠ .free) : other = thread := by
  have hwriter := (hagrees.exclusive thread).mpr hmode
  cases hheld : mode other with
  | free => exact absurd hheld hother
  | shared =>
      have hmem := (hagrees.shared other).mpr hheld
      rw [hagrees.readers_eq_nil hmode] at hmem
      simp at hmem
  | exclusive =>
      have hwriter' := (hagrees.exclusive other).mpr hheld
      rw [hwriter] at hwriter'
      exact (Option.some.inj hwriter').symm

variable [DecidableEq Thread]

def unlock (lock : RwLock Thread) (thread : Thread) : RwLock Thread :=
  if lock.writer = some thread then { lock with writer := none }
  else { lock with readers := lock.readers.erase thread }

theorem unlock_rdlock_of_writer (hwriter : lock.writer = none) (thread : Thread) :
    (lock.rdlock thread).unlock thread = lock := by
  cases lock
  simp_all [unlock, rdlock]

theorem unlock_wrlock_of_writer (hwriter : lock.writer = none) (thread : Thread) :
    (lock.wrlock thread).unlock thread = lock := by
  cases lock
  simp_all [unlock, wrlock]

theorem unlock_rdlock (thread : Thread) :
    (unlocked.rdlock thread).unlock thread = unlocked :=
  unlock_rdlock_of_writer rfl thread

theorem unlock_wrlock (thread : Thread) :
    (unlocked.wrlock thread).unlock thread = unlocked :=
  unlock_wrlock_of_writer rfl thread

theorem Agrees.update_same (hagrees : lock.Agrees mode) {held : LockMode}
    (hmode : mode thread = held) :
    lock.Agrees (Function.update mode thread held) := by
  rw [← hmode, Function.update_eq_self]
  exact hagrees

theorem Agrees.rdlock (hagrees : lock.Agrees mode)
    (hmode : mode thread = .free) (havailable : lock.writer = none) :
    (lock.rdlock thread).Agrees (Function.update mode thread .shared) where
  shared := by
    intro other
    by_cases hother : other = thread
    · simp [RwLock.rdlock, hother]
    · simp [RwLock.rdlock, hother, hagrees.shared]
  exclusive := by
    intro other
    by_cases hother : other = thread
    · simp [RwLock.rdlock, hother, havailable]
    · simp [RwLock.rdlock, hother, hagrees.exclusive]
  once := by
    apply List.nodup_cons.mpr
    refine ⟨?_, hagrees.once⟩
    rw [hagrees.shared, hmode]
    simp
  alone := fun hwriter => absurd havailable hwriter

theorem Agrees.wrlock (hagrees : lock.Agrees mode)
    (havailable : lock.writer = none) (hreaders : lock.readers = []) :
    (lock.wrlock thread).Agrees (Function.update mode thread .exclusive) where
  shared := by
    intro other
    have hold := hagrees.shared other
    rw [hreaders] at hold
    by_cases hother : other = thread
    · simp [RwLock.wrlock, hother, hreaders]
    · simp [RwLock.wrlock, hother, hreaders, ← hold]
  exclusive := by
    intro other
    have hold := hagrees.exclusive other
    rw [havailable] at hold
    by_cases hother : other = thread
    · simp [RwLock.wrlock, hother]
    · simp [RwLock.wrlock, hother, Ne.symm hother, ← hold]
  once := hagrees.once
  alone := fun _ => hreaders

theorem Agrees.unlock (hagrees : lock.Agrees mode) (thread : Thread) :
    (lock.unlock thread).Agrees (Function.update mode thread .free) := by
  by_cases hwriter : lock.writer = some thread
  · have hreaders : lock.readers = [] := by
      apply hagrees.alone
      simp [hwriter]
    rw [RwLock.unlock, if_pos hwriter]
    refine ⟨?_, ?_, hagrees.once, fun _ => hreaders⟩
    · intro other
      by_cases hother : other = thread
      · simp [hother, hreaders]
      · simp [hother, hagrees.shared]
    · intro other
      have hold := hagrees.exclusive other
      rw [hwriter] at hold
      by_cases hother : other = thread
      · simp [hother]
      · simp [hother, ← hold, Ne.symm hother]
  · rw [RwLock.unlock, if_neg hwriter]
    refine ⟨?_, ?_, hagrees.once.erase thread, ?_⟩
    · intro other
      rw [hagrees.once.mem_erase_iff]
      by_cases hother : other = thread
      · simp [hother]
      · simp [hother, hagrees.shared]
    · intro other
      by_cases hother : other = thread
      · simp [hother, hwriter]
      · simp [hother, hagrees.exclusive]
    · intro hsome
      simp only [hagrees.alone hsome, List.erase_nil]

end RwLock

end Lith
