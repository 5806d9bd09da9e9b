import Mathlib.Logic.Function.Basic
import GEngine.Bytes

/-!
# GEngine.Heap

A heap of byte blocks with the operations of the C library.  A block is a number.
Freed blocks keep their bytes, and a use of freed memory, or of more bytes than the
block has, does not stop the program: it is recorded in `misused`.

The rules below are for callers that keep to `Usable`: then a write is read back, other
blocks keep what they hold, and nothing is recorded.
-/

namespace GEngine

/-- A block of heap memory. -/
structure Block where
  bytes : List UInt8
  live : Bool
  deriving DecidableEq, Repr

/-- A heap; the blocks from `next` on have never been given out. -/
structure Heap where
  block : Nat → Block
  next : Nat
  misused : Bool

/-- What `realloc` is free to choose: whether the block moves, and what the bytes behind
the old ones are. -/
structure Realloc where
  moved : Bool
  junk : UInt8
  deriving DecidableEq, Repr

namespace Heap

/-- A heap without blocks. -/
def empty : Heap := ⟨fun _ => ⟨[], false⟩, 0, false⟩

/-- `malloc(n)`. -/
def malloc (h : Heap) (n : Nat) (junk : UInt8) : Nat × Heap :=
  (h.next, { h with
    block := Function.update h.block h.next ⟨List.replicate n junk, true⟩
    next := h.next + 1 })

/-- The first `n` bytes of block `b` may be used. -/
def Usable (h : Heap) (b n : Nat) : Prop :=
  (h.block b).live = true ∧ n ≤ (h.block b).bytes.length

instance (h : Heap) (b n : Nat) : Decidable (h.Usable b n) :=
  inferInstanceAs (Decidable (_ ∧ _))

/-- The program uses the first `n` bytes of block `b`. -/
def use (h : Heap) (b n : Nat) : Heap :=
  { h with misused := h.misused || !decide (h.Usable b n) }

/-- The first `n` bytes of block `b`. -/
def read (h : Heap) (b n : Nat) : List UInt8 := (h.block b).bytes.take n

/-- `memcpy(b, data, data.length)`. -/
def memcpy (h : Heap) (b : Nat) (data : List UInt8) : Heap :=
  { h.use b data.length with
    block := Function.update h.block b { h.block b with bytes := copyAt (h.block b).bytes 0 data } }

/-- `memset(b, 0, n)`. -/
def memset (h : Heap) (b n : Nat) : Heap := h.memcpy b (List.replicate n 0)

/-- The contents of a block of `n` bytes that had the contents `bytes` before. -/
def resize (bytes : List UInt8) (n : Nat) (junk : UInt8) : List UInt8 :=
  bytes.take n ++ List.replicate (n - bytes.length) junk

/-- `realloc(b, n)`. -/
def realloc (h : Heap) (b n : Nat) (a : Realloc) : Nat × Heap :=
  let bytes := resize (h.block b).bytes n a.junk
  if a.moved then
    (h.next, { h.use b 0 with
      block := Function.update
        (Function.update h.block b { h.block b with live := false }) h.next ⟨bytes, true⟩
      next := h.next + 1 })
  else
    (b, { h.use b 0 with block := Function.update h.block b { h.block b with bytes := bytes } })

/-! ## Rules -/

section Rules

variable {h : Heap} {b c n m : Nat} {data : List UInt8}

theorem Usable.mono (hu : h.Usable b n) (hm : m ≤ n) : h.Usable b m := ⟨hu.1, Nat.le_trans hm hu.2⟩

theorem use_of_usable (hu : h.Usable b n) : h.use b n = h := by
  simp [use, hu]

theorem misused_use (h : Heap) (b n : Nat) :
    (h.use b n).misused = false ↔ h.misused = false ∧ h.Usable b n := by
  simp [use]

theorem length_resize (bytes : List UInt8) (n : Nat) (junk : UInt8) :
    (resize bytes n junk).length = n := by
  simp only [resize, List.length_append, List.length_take, List.length_replicate]
  omega

theorem usable_memcpy (data : List UInt8) : (h.memcpy b data).Usable c m ↔ h.Usable c m := by
  by_cases hc : c = b
  · subst hc
    simp [Usable, memcpy]
  · simp [Usable, memcpy, hc]

theorem misused_memcpy (hu : h.Usable b data.length) :
    (h.memcpy b data).misused = h.misused := by
  simp [memcpy, use, hu]

/-- What was written is read back. -/
theorem read_memcpy (hu : h.Usable b data.length) :
    (h.memcpy b data).read b data.length = data := by
  have hfit : 0 + data.length ≤ (h.block b).bytes.length := by simpa using hu.2
  simp [read, memcpy, copyAt_of_le hfit]

theorem usable_memset (n : Nat) : (h.memset b n).Usable c m ↔ h.Usable c m :=
  usable_memcpy _

theorem misused_memset (hu : h.Usable b n) : (h.memset b n).misused = h.misused :=
  misused_memcpy (by simpa using hu)

/-- A write after which nothing is recorded kept to what is usable. -/
theorem usable_of_memcpy (hm : (h.memcpy b data).misused = false) :
    h.misused = false ∧ h.Usable b data.length :=
  (misused_use h b data.length).mp hm

theorem usable_of_memset (hm : (h.memset b n).misused = false) :
    h.misused = false ∧ h.Usable b n := by
  simpa using usable_of_memcpy hm

theorem usable_of_realloc {a : Realloc} (hm : (h.realloc b n a).2.misused = false) :
    h.misused = false ∧ h.Usable b 0 := by
  have huse : (h.use b 0).misused = false := by
    unfold realloc at hm
    split at hm <;> exact hm
  exact (misused_use h b 0).mp huse

/-- A block that is given back for a larger one: the new block has the bytes asked for,
and the old one is gone if it moved. -/
theorem realloc_spec (hb : b < h.next) (hu : h.Usable b 0) (n : Nat) (a : Realloc) :
    (h.realloc b n a).2.Usable (h.realloc b n a).1 n ∧
      (h.realloc b n a).2.misused = h.misused ∧
      (h.realloc b n a).1 < (h.realloc b n a).2.next ∧ h.next ≤ (h.realloc b n a).2.next ∧
      (a.moved = false → (h.realloc b n a).1 = b) ∧
      (a.moved = true → ((h.realloc b n a).2.block b).live = false) := by
  have hne : b ≠ h.next := Nat.ne_of_lt hb
  cases hmoved : a.moved with
  | false => simp [realloc, hmoved, use_of_usable hu, Usable, length_resize, hb, hu.1]
  | true => simp [realloc, hmoved, use_of_usable hu, Usable, length_resize, hne]

end Rules

end Heap

end GEngine
