import Lith.CString

/-!
# Blocks from the allocator

A heap is a partial map from addresses to live blocks.  `malloc` may answer
with any address that is not live, `free` fails on an address that is not
live, so that a run without failure releases each block at most once, and a
block is written only as far as it reaches.
-/

namespace Lith

structure Block where
  size : ℕ
  bytes : ℕ → UInt8

/-- The block after its first bytes have been written. -/
def Block.fill (block : Block) (written : Bytes) : Block where
  size := block.size
  bytes := fun i => (written[i]?).getD (block.bytes i)

def Block.read (block : Block) (count : ℕ) : Bytes := (List.range count).map block.bytes

theorem Block.read_fill (block : Block) (written : Bytes) :
    (block.fill written).read written.length = written := by
  apply List.ext_getElem
  · simp [read]
  · intro i hi hi'
    simp [read, fill, hi']

@[ext]
structure BlockHeap where
  block : ℕ → Option Block

namespace BlockHeap

def set (heap : BlockHeap) (address : ℕ) (block : Option Block) : BlockHeap :=
  ⟨Function.update heap.block address block⟩

/-- `malloc` when it answers with `address`. -/
def malloc (heap : BlockHeap) (address : ℕ) (block : Block) : Option BlockHeap :=
  if (heap.block address).isNone then some (heap.set address (some block)) else none

def free (heap : BlockHeap) : Option ℕ → Option BlockHeap
  | none => some heap
  | some address =>
      if (heap.block address).isSome then some (heap.set address none) else none

/-- Writing from the beginning of a block. -/
def fill (heap : BlockHeap) (address : ℕ) (written : Bytes) : Option BlockHeap :=
  match heap.block address with
  | some block =>
      if written.length ≤ block.size then
        some (heap.set address (some (block.fill written)))
      else none
  | none => none

variable {heap : BlockHeap} {address : ℕ}

@[simp] theorem set_same (heap : BlockHeap) (address : ℕ) (block : Option Block) :
    (heap.set address block).block address = block :=
  Function.update_self ..

theorem set_of_ne (heap : BlockHeap) {address other : ℕ} (hne : other ≠ address)
    (block : Option Block) : (heap.set address block).block other = heap.block other :=
  Function.update_of_ne hne ..

@[simp] theorem set_set (heap : BlockHeap) (address : ℕ) (first second : Option Block) :
    (heap.set address first).set address second = heap.set address second :=
  BlockHeap.ext (Function.update_idem ..)

theorem malloc_of_fresh (hfresh : heap.block address = none) (block : Block) :
    heap.malloc address block = some (heap.set address (some block)) := by
  simp [malloc, hfresh]

/-- A new block is filled as far as it reaches. -/
theorem fill_set (heap : BlockHeap) (address : ℕ) {block : Block} {written : Bytes}
    (hfits : written.length ≤ block.size) :
    (heap.set address (some block)).fill address written =
      some (heap.set address (some (block.fill written))) := by
  simp [fill, hfits]

/-- Releasing a live block touches no other block. -/
theorem exists_free {pointer : Option ℕ}
    (hlive : ∀ address, pointer = some address → heap.block address ≠ none) :
    ∃ after, heap.free pointer = some after ∧
      ∀ other, pointer ≠ some other → after.block other = heap.block other := by
  cases pointer with
  | none => exact ⟨heap, rfl, fun _ _ => rfl⟩
  | some address =>
      have hsome : (heap.block address).isSome = true :=
        Option.isSome_iff_ne_none.mpr (hlive address rfl)
      refine ⟨heap.set address none, by simp only [free, if_pos hsome], ?_⟩
      intro other hother
      apply set_of_ne
      rintro rfl
      exact hother rfl

end BlockHeap

end Lith
