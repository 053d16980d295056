import Lith.CString

/-!
# File access and the path filter

`FileAccess` collects what the C library and the kernel answer while one path is
opened, measured and read.  The calls are separate and nothing forces their
answers to agree, so each answer is a field of its own; `FileAccess.regular` is the
coherent case of an ordinary readable file.  Memory that comes from `malloc`
has arbitrary contents until it is written.
-/

namespace Lith

open CString

structure Stat where
  size : ℤ
  mtime : ℤ
  deriving DecidableEq, Repr

structure FileAccess where
  opened : Bool
  stat : Option Stat
  endPosition : ℤ
  memory : Option (ℕ → UInt8)
  bytes : Bytes

def FileAccess.absent : FileAccess where
  opened := false
  stat := none
  endPosition := -1
  memory := none
  bytes := []

def FileAccess.regular (content : Bytes) (mtime : ℤ) (memory : ℕ → UInt8) :
    FileAccess where
  opened := true
  stat := some ⟨content.length, mtime⟩
  endPosition := content.length
  memory := some memory
  bytes := content

abbrev Files := Bytes → FileAccess

def sizeT (value : ℤ) : ℕ := (value % 2 ^ 64).toNat

def FileAccess.fread (io : FileAccess) (size : ℤ) : Bytes := io.bytes.take (sizeT size)

def overwrite (memory : ℕ → UInt8) (written : Bytes) (i : ℕ) : UInt8 :=
  (written[i]?).getD (memory i)

/-- `SSL_write` of a memory area: the bytes that go to the client. -/
def sslWrite (memory : ℕ → UInt8) (num : ℤ) : Bytes :=
  (List.range num.toNat).map memory

def isSafePath (path : Bytes) : Bool :=
  (strstr (ascii "..") path).isNone

/-- The buffer that is returned together with the size that is announced. -/
def readFile (io : FileAccess) : Option (ℤ × (ℕ → UInt8)) :=
  if io.opened then
    io.memory.map fun memory =>
      (io.endPosition, overwrite memory (io.fread io.endPosition ++ [0]))
  else none

theorem readFile_eq_some {io : FileAccess} {size : ℤ} {content : ℕ → UInt8}
    (hread : readFile io = some (size, content)) :
    size = io.endPosition ∧ ∃ memory, io.memory = some memory ∧
      content = overwrite memory (io.fread io.endPosition ++ [0]) := by
  unfold readFile at hread
  split_ifs at hread
  rw [Option.map_eq_some_iff] at hread
  obtain ⟨memory, hmemory, hpair⟩ := hread
  rw [Prod.mk.injEq] at hpair
  exact ⟨hpair.1.symm, memory, hmemory, hpair.2.symm⟩

theorem sizeT_natCast {n : ℕ} (hn : n < 2 ^ 64) : sizeT n = n := by
  unfold sizeT
  omega

theorem take_sizeT_length {content : Bytes} (hlen : content.length < 2 ^ 64) :
    content.take (sizeT content.length) = content := by
  rw [sizeT_natCast hlen, List.take_length]

theorem sslWrite_toNat (memory : ℕ → UInt8) (num : ℤ) :
    sslWrite memory num = sslWrite memory (num.toNat : ℤ) := by
  unfold sslWrite
  rw [Int.toNat_natCast]

theorem sslWrite_overwrite (memory : ℕ → UInt8) (written rest : Bytes) {n : ℕ}
    (hn : n ≤ written.length) :
    sslWrite (overwrite memory (written ++ rest)) n = written.take n := by
  apply List.ext_getElem
  · simp [sslWrite, hn]
  · intro i hi hi'
    have hi'' : i < written.length := by
      simp only [List.length_take] at hi'
      omega
    simp [sslWrite, overwrite, hi'', List.getElem?_append_left hi'']

end Lith
