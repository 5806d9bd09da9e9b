import Mathlib.Data.List.Infix
import GEngine.Memorystream.Bounds

/-!
# GEngine.Memorystream.Log

A `memorystream` is an append-only log of bytes.

The log is what the stream is for: `append` adds bytes behind those that are there, `clear`
starts over, and the operations that are about room change nothing.  The code keeps a
vector and a length, and a stream `Represents` a log if the log is what is in front of the
length.  Every operation on the stream is the operation on the log (`represents_apply`),
so a run of them is a run on the log (`represents_run`).
-/

namespace GEngine

namespace Memorystream

/-! ## The log -/

/-- What an operation does to a log of bytes. -/
def Op.log : Op → List UInt8 → List UInt8
  | append a, log => log ++ a.image
  | resize _, log => log
  | reserve _, log => log
  | clear, _ => []

/-- A sequence of operations on a log. -/
def logFrom (log : List UInt8) : List Op → List UInt8
  | [] => log
  | op :: ops => logFrom (op.log log) ops

/-- The log that operations on an empty one leave: the bytes of the appends since the last
`clear`, in order. -/
def logOf (ops : List Op) : List UInt8 := logFrom [] ops

/-! ## The stream is the log -/

/-- The bytes in use are the log. -/
structure Represents (s : Memorystream) (log : List UInt8) : Prop where
  sized : s.Sized
  bytes : s.bytes = log

section Represents

variable {s : Memorystream} {log : List UInt8}

theorem represents_new : Represents new [] := ⟨sized_new, rfl⟩

theorem Represents.mLength (h : Represents s log) : s.mLength = log.length := by
  rw [← h.bytes, length_bytes h.sized, length]

/-- An operation on the stream is the operation on the log. -/
theorem represents_apply (h : Represents s log) {op : Op}
    (hfit : (op.log log).length ≤ ptrdiffMax) : Represents (op.apply s) (op.log log) := by
  cases op with
  | append a =>
      have hroom : s.mLength + a.image.length ≤ ptrdiffMax := by
        simpa [Op.log, h.mLength] using hfit
      obtain ⟨hsized, hbytes⟩ := tryAppend_fits h.sized a hroom
      exact ⟨hsized, by simp [Op.apply, Op.log, hbytes, h.bytes]⟩
  | resize n =>
      obtain ⟨hsized, -, hbytes⟩ := resize_bytes h.sized n
      exact ⟨hsized, by simp [Op.apply, Op.log, hbytes, h.bytes]⟩
  | reserve size => exact h
  | clear => exact represents_new

/-- A run on the stream is the run on the log. -/
theorem represents_run (h : Represents s log) (ops : List Op)
    (hfit : ∀ before, before <+: ops → (logFrom log before).length ≤ ptrdiffMax) :
    Represents (s.run ops) (logFrom log ops) := by
  induction ops generalizing s log with
  | nil => exact h
  | cons op ops ih =>
      have hop : (op.log log).length ≤ ptrdiffMax := hfit [op] (by simp)
      refine ih (represents_apply h hop) fun before hpre => ?_
      exact hfit (op :: before) (by simpa using hpre)

end Represents

/-- What a log in a vector is: the bytes in front of the length are the log, and making
room moves neither the length nor the bytes. -/
structure IsLog (s : Memorystream) (log : List UInt8) : Prop where
  inside : s.mLength ≤ s.size
  content : s.mData.take s.mLength = log
  resize : ∀ n, (s.resize n).mLength = s.mLength ∧ (s.resize n).mData.take s.mLength = log
  reserve : ∀ n, (s.reserve n).mLength = s.mLength ∧ (s.reserve n).mData.take s.mLength = log

theorem Represents.isLog {s : Memorystream} {log : List UInt8} (h : Represents s log) :
    IsLog s log where
  inside := h.sized.inside
  content := h.bytes
  resize n := by
    obtain ⟨-, hlen, hbytes⟩ := resize_bytes h.sized n
    unfold Memorystream.bytes at hbytes
    rw [hlen] at hbytes
    exact ⟨hlen, hbytes.trans h.bytes⟩
  reserve n := ⟨rfl, h.bytes⟩

/-- **Log**: in every state of a run whose log stays below `2 ^ 63` bytes, the stream holds
the bytes of the appends since the last `clear`. -/
theorem isLog_run (ops : List Op)
    (hlen : ∀ before, before <+: ops → (logOf before).length < 2 ^ 63) :
    ∀ before, before <+: ops → IsLog (new.run before) (logOf before) := by
  intro before hpre
  have hfit : ∀ front, front <+: before → (logFrom [] front).length ≤ ptrdiffMax := by
    intro front hfront
    have hlt := hlen front (hfront.trans hpre)
    unfold logOf at hlt
    unfold ptrdiffMax
    omega
  exact (represents_run represents_new before hfit).isLog

/-- A string, room for ten bytes, a null pointer, a `clear` and a scalar. -/
def mixedOps : List Op :=
  [.append (.text ⟨[104, 105], by decide⟩), .resize 10,
    .append (.bytes 5 none (by
      intro b hb
      cases hb)),
    .clear, .append (.value ⟨[1, 0, 0, 0], by decide⟩)]

theorem isLog_mixedOps : IsLog (new.run mixedOps) [1, 0, 0, 0] ∧
    IsLog (new.run (mixedOps.take 3)) [104, 105, 0] := by
  have hlen : ∀ before ∈ mixedOps.inits, (logOf before).length < 2 ^ 63 := by decide
  have hall := isLog_run mixedOps fun before hpre => hlen before ((List.mem_inits _ _).mpr hpre)
  exact ⟨hall mixedOps List.prefix_rfl, hall _ ⟨_, List.take_append_drop 3 mixedOps⟩⟩

end Memorystream

end GEngine
