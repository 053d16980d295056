import Mathlib.Tactic

/-!
# Descriptor tables

The open files of a process by number.  `openLowest` takes the lowest number that
is free, as `open` and `socket` do; `dup2` closes what the target number stood for.
Only finitely many numbers are taken, so there is always a lowest free one.
-/

namespace Lith

@[ext]
structure DescriptorTable (File : Type*) where
  entries : ℕ → Option File
  finite : ∃ bound, ∀ fd, bound ≤ fd → entries fd = none

namespace DescriptorTable

variable {File : Type*} (table : DescriptorTable File)

def IsFree (fd : ℕ) : Prop := (table.entries fd).isNone

instance : DecidablePred table.IsFree := fun fd =>
  inferInstanceAs (Decidable ((table.entries fd).isNone = true))

theorem isFree_iff (fd : ℕ) : table.IsFree fd ↔ table.entries fd = none := by
  unfold IsFree
  exact Option.isNone_iff_eq_none

theorem exists_isFree : ∃ fd, table.IsFree fd := by
  obtain ⟨bound, hbound⟩ := table.finite
  exact ⟨bound, (table.isFree_iff bound).mpr (hbound bound le_rfl)⟩

def lowest : ℕ := Nat.find table.exists_isFree

def put (fd : ℕ) (file : Option File) : DescriptorTable File where
  entries := Function.update table.entries fd file
  finite := by
    obtain ⟨bound, hbound⟩ := table.finite
    refine ⟨max bound (fd + 1), ?_⟩
    intro other hother
    have hne : other ≠ fd := by omega
    rw [Function.update_of_ne hne]
    exact hbound other (by omega)

/-- `open` and `socket`: the number is `lowest`. -/
def openLowest (file : File) : DescriptorTable File :=
  table.put table.lowest (some file)

/-- `close`; a number that is not open is an error without effect. -/
def close (fd : ℕ) : DescriptorTable File := table.put fd none

/-- `dup2(old, new)`; without effect when `old` is not open or is `new`. -/
def dup2 (old new : ℕ) : DescriptorTable File :=
  if old = new ∨ table.IsFree old then table else table.put new (table.entries old)

@[simp] theorem put_same (fd : ℕ) (file : Option File) :
    (table.put fd file).entries fd = file :=
  Function.update_self ..

theorem put_of_ne {fd other : ℕ} (hne : other ≠ fd) (file : Option File) :
    (table.put fd file).entries other = table.entries other :=
  Function.update_of_ne hne ..

@[simp] theorem put_put (fd : ℕ) (first second : Option File) :
    (table.put fd first).put fd second = table.put fd second := by
  ext1
  exact Function.update_idem ..

theorem put_self {fd : ℕ} {file : Option File} (hfile : table.entries fd = file) :
    table.put fd file = table := by
  ext1
  subst hfile
  exact Function.update_eq_self ..

theorem entries_lowest : table.entries table.lowest = none :=
  (table.isFree_iff _).mp (Nat.find_spec table.exists_isFree)

theorem lowest_le {fd : ℕ} (hfree : table.entries fd = none) : table.lowest ≤ fd :=
  Nat.find_min' _ ((table.isFree_iff fd).mpr hfree)

theorem le_lowest {fd : ℕ} (htaken : ∀ other < fd, table.entries other ≠ none) :
    fd ≤ table.lowest := by
  by_contra hless
  exact htaken _ (Nat.lt_of_not_le hless) table.entries_lowest

theorem lowest_eq {fd : ℕ} (hfree : table.entries fd = none)
    (htaken : ∀ other < fd, table.entries other ≠ none) : table.lowest = fd :=
  le_antisymm (table.lowest_le hfree) (table.le_lowest htaken)

/-- What is opened and closed again leaves no trace. -/
theorem close_openLowest (file : File) :
    (table.openLowest file).close table.lowest = table := by
  rw [close, openLowest, put_put, put_self _ table.entries_lowest]

theorem dup2_same (fd : ℕ) : table.dup2 fd fd = table := by
  simp [dup2]

theorem dup2_entries {old new : ℕ} {file : File} (hold : table.entries old = some file) :
    (table.dup2 old new).entries new = some file := by
  unfold dup2
  by_cases hsame : old = new
  · subst hsame
    simp [hold]
  · have htaken : ¬table.IsFree old := by simp [IsFree, hold]
    simp [hsame, htaken, hold]

theorem dup2_of_ne {old new other : ℕ} (hne : other ≠ new) :
    (table.dup2 old new).entries other = table.entries other := by
  unfold dup2
  split_ifs
  · rfl
  · exact table.put_of_ne hne _

end DescriptorTable

end Lith
