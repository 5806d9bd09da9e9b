import GEngine.Memorystream

/-!
# GEngine.Memorystream.Bounds

What the three reads of a `memorystream` load.  Their checks are written in three
ways:

```
read<T>(offset)             sizeof(T) <= m_length - offset
read(char*, offset, len)    offset < m_length,  offset + len <= m_length,  len bytes
read(string&, offset, len)  offset <= m_length, offset + len <= m_length,  len + 1 bytes
```

The difference in the first one wraps around behind the end of the stream, and the
last one copies one byte more than it checks.  Only the second one is right, and
`readsInside_iff` says at which offsets and lengths the other two are.
-/

namespace GEngine

namespace Memorystream

variable {s : Memorystream} {beyond : Nat → UInt8} {w offset len : Nat}

/-! ## Runs -/

/-- A sequence of operations. -/
def run (s : Memorystream) : List Op → Memorystream
  | [] => s
  | op :: ops => (op.apply s).run ops

/-- Every stream that a constructor and operations lead to is `Sized`. -/
theorem sized_run (h : s.Sized) (ops : List Op) : (s.run ops).Sized := by
  induction ops generalizing s with
  | nil => exact h
  | cons op ops ih => exact ih (sized_apply h op)

/-- Two sequences of operations. -/
theorem run_append (ops rest : List Op) : s.run (ops ++ rest) = (s.run ops).run rest := by
  induction ops generalizing s with
  | nil => rfl
  | cons op ops ih => exact ih

/-! ## Spans -/

/-- A span that is not empty lies below `n` when it ends there. -/
theorem below_iff (hw : 0 < w) : (⟨offset, w⟩ : Span).Below n ↔ offset + w ≤ n := by
  constructor
  · intro h
    have hlast := h (offset + w - 1) (by simp only; omega) (by simp only; omega)
    omega
  · intro h i _ hi
    simp only at hi
    omega

/-! ## The two reads with a status -/

/-- In a stream no sum of the checks wraps around. -/
theorem check_iff (h : s.Sized) (hoff : offset ≤ s.mLength) :
    s.mLength < len ∨ s.mLength < sizeAdd offset len ↔ s.mLength < offset + len := by
  have hmax := h.mLength_lt
  by_cases hlen : s.mLength < len
  · simp only [hlen, true_or, true_iff]
    omega
  · have hsum : sizeAdd offset len = offset + len := sizeAdd_eq (by omega)
    simp only [hlen, false_or, hsum]

/-- `read(char*, offset, len)` without the arithmetic of `size_t`. -/
theorem readChars_eq (h : s.Sized) (beyond : Nat → UInt8) (dest : List UInt8)
    (offset len : Nat) :
    s.readChars beyond dest offset len =
      if s.mLength ≤ offset then ⟨1, dest, none⟩
      else if s.mLength < offset + len then ⟨2, dest, none⟩
      else ⟨0, overlay dest (s.load beyond ⟨offset, len⟩), some ⟨offset, len⟩⟩ := by
  unfold readChars
  by_cases hoff : s.mLength ≤ offset
  · rw [if_pos hoff, if_pos hoff]
  · rw [if_neg hoff, if_neg hoff]
    simp only [check_iff h (Nat.le_of_not_le hoff)]

/-- `read(std::string&, offset, len)` without the arithmetic of `size_t`. -/
theorem readString_eq (h : s.Sized) (beyond : Nat → UInt8) (dest : List UInt8)
    (offset len : Nat) :
    s.readString beyond dest offset len =
      if s.mLength < offset then ⟨1, dest, none⟩
      else if s.mLength < offset + len then ⟨2, dest, none⟩
      else ⟨0, s.load beyond ⟨offset, len + 1⟩, some ⟨offset, len + 1⟩⟩ := by
  have hmax := h.mLength_lt
  unfold readString
  by_cases hoff : s.mLength < offset
  · rw [if_pos hoff, if_pos hoff]
  · rw [if_neg hoff, if_neg hoff]
    simp only [check_iff h (Nat.le_of_not_lt hoff)]
    by_cases hend : s.mLength < offset + len
    · rw [if_pos hend, if_pos hend]
    · have hone : sizeAdd len 1 = len + 1 := sizeAdd_eq (by omega)
      rw [if_neg hend, if_neg hend, hone]

/-! ## The three checks -/

/-- The property of the bounds checks at one width, offset and length: a read that goes
through loads only bytes in use, and a read that returns an error leaves its destination
as it was. -/
structure ReadsInside (s : Memorystream) (beyond : Nat → UInt8) (w offset len : Nat) :
    Prop where
  value : ∀ a, s.readSpan w offset = some a → a.Below s.mLength
  chars : ∀ dest a, (s.readChars beyond dest offset len).status = 0 →
    (s.readChars beyond dest offset len).loaded = some a → a.Below s.mLength
  string : ∀ dest a, (s.readString beyond dest offset len).status = 0 →
    (s.readString beyond dest offset len).loaded = some a → a.Below s.mLength
  charsKept : ∀ dest, (s.readChars beyond dest offset len).status ≠ 0 →
    (s.readChars beyond dest offset len).dest = dest
  stringKept : ∀ dest, (s.readString beyond dest offset len).status ≠ 0 →
    (s.readString beyond dest offset len).dest = dest

/-- The assertion of `read<T>` is right unless the offset lies behind the stream, and the
wrapped difference leaves room for a `T`. -/
theorem value_iff (h : s.Sized) (hw : 0 < w) :
    (∀ a, s.readSpan w offset = some a → a.Below s.mLength) ↔
      offset ≤ s.mLength ∨ s.mLength + 2 ^ 64 < offset + w := by
  have hmax := h.mLength_lt
  by_cases hoff : offset ≤ s.mLength
  · refine ⟨fun _ => .inl hoff, fun _ a ha => ?_⟩
    rw [readSpan, sizeSub_eq hoff (by omega)] at ha
    split at ha
    · next hle =>
        cases ha
        rw [below_iff hw]
        omega
    · cases ha
  · have hsub : sizeSub s.mLength offset = s.mLength + 2 ^ 64 - offset := by
      unfold sizeSub
      omega
    constructor
    · intro hall
      by_cases hle : w ≤ sizeSub s.mLength offset
      · have hbelow := hall ⟨offset, w⟩ (by rw [readSpan, if_pos hle])
        rw [below_iff hw] at hbelow
        omega
      · omega
    · intro hcond a ha
      rw [readSpan, if_neg (by omega)] at ha
      cases ha

/-- The check of `read(char*, offset, len)` is right. -/
theorem chars_inside (h : s.Sized) (dest : List UInt8) {a : Span}
    (ha : (s.readChars beyond dest offset len).loaded = some a) : a.Below s.mLength := by
  rw [readChars_eq h] at ha
  split at ha
  · cases ha
  · split at ha
    · cases ha
    · next hoff hend =>
        cases ha
        intro i _ hi
        simp only at hi
        omega

/-- What `read(std::string&, offset, len)` loads, if anything. -/
theorem string_loaded (h : s.Sized) (dest : List UInt8) {a : Span} :
    (s.readString beyond dest offset len).loaded = some a ↔
      offset + len ≤ s.mLength ∧ a = ⟨offset, len + 1⟩ := by
  rw [readString_eq h]
  by_cases hoff : s.mLength < offset
  · rw [if_pos hoff]
    simp only [reduceCtorEq, false_iff]
    omega
  · rw [if_neg hoff]
    by_cases hend : s.mLength < offset + len
    · rw [if_pos hend]
      simp only [reduceCtorEq, false_iff]
      omega
    · rw [if_neg hend]
      simp only [Option.some.injEq]
      exact ⟨fun ha => ⟨by omega, ha.symm⟩, fun ha => ha.2.symm⟩

/-- The status says whether bytes were loaded. -/
theorem string_status (dest : List UInt8) :
    (s.readString beyond dest offset len).status = 0 ↔
      ∃ a, (s.readString beyond dest offset len).loaded = some a := by
  unfold readString
  split
  · simp
  · split
    · simp
    · simp

/-- The check of `read(std::string&, offset, len)` is right unless the bytes asked for
reach the end of the stream. -/
theorem string_iff (h : s.Sized) :
    (∀ dest a, (s.readString beyond dest offset len).status = 0 →
      (s.readString beyond dest offset len).loaded = some a → a.Below s.mLength) ↔
        offset + len ≠ s.mLength := by
  constructor
  · intro hall heq
    have hload : (s.readString beyond [] offset len).loaded = some ⟨offset, len + 1⟩ :=
      (string_loaded h []).mpr ⟨Nat.le_of_eq heq, rfl⟩
    have hbelow := hall [] _ ((string_status []).mpr ⟨_, hload⟩) hload
    rw [below_iff (Nat.succ_pos len)] at hbelow
    omega
  · intro hne dest a _ ha
    obtain ⟨hle, rfl⟩ := (string_loaded h dest).mp ha
    rw [below_iff (Nat.succ_pos len)]
    omega

/-- A failed `read(char*, offset, len)` leaves its destination alone. -/
theorem chars_kept (dest : List UInt8) :
    (s.readChars beyond dest offset len).status ≠ 0 →
      (s.readChars beyond dest offset len).dest = dest := by
  unfold readChars
  split
  · simp
  · split
    · simp
    · simp

/-- A failed `read(std::string&, offset, len)` leaves its destination alone. -/
theorem string_kept (dest : List UInt8) :
    (s.readString beyond dest offset len).status ≠ 0 →
      (s.readString beyond dest offset len).dest = dest := by
  unfold readString
  split
  · simp
  · split
    · simp
    · simp

/-- **Bounds**: in every stream, the three reads at `offset` and `len` stay inside the
bytes in use exactly when the offset is not one for which the difference of `read<T>`
wraps around and leaves room, and the bytes asked for do not reach the end. -/
theorem readsInside_iff (ops : List Op) (beyond : Nat → UInt8) (w offset len : Nat)
    (hw : 0 < w) :
    ReadsInside (new.run ops) beyond w offset len ↔
      (offset ≤ (new.run ops).mLength ∨ (new.run ops).mLength + 2 ^ 64 < offset + w) ∧
        offset + len ≠ (new.run ops).mLength := by
  have h : (new.run ops).Sized := sized_run sized_new ops
  constructor
  · intro hin
    exact ⟨(value_iff h hw).mp hin.value, (string_iff h).mp hin.string⟩
  · rintro ⟨hvalue, hstring⟩
    exact {
      value := (value_iff h hw).mpr hvalue
      chars := fun dest _ _ ha => chars_inside h dest ha
      string := (string_iff h).mpr hstring
      charsKept := chars_kept
      stringKept := string_kept }

/-- A stream of four bytes. -/
def fourBytes : List Op := [.append (.value ⟨[1, 2, 3, 4], by decide⟩)]

/-- In a stream of four bytes, an `int` at the front and three bytes are read inside. -/
theorem readsInside_front : ReadsInside (new.run fourBytes) (fun _ => 0) 4 0 3 :=
  (readsInside_iff fourBytes (fun _ => 0) 4 0 3 (by decide)).mpr (by decide)

/-- In a stream of four bytes, the assertion lets an `int` behind the end through, and a
string of all four bytes is copied with a fifth one. -/
theorem not_readsInside_edge :
    ¬ ReadsInside (new.run fourBytes) (fun _ => 0) 4 5 0 ∧
      ¬ ReadsInside (new.run fourBytes) (fun _ => 0) 4 0 4 := by
  constructor
  · intro h
    have hbelow := h.value ⟨5, 4⟩ (by decide) 5 (by decide) (by decide)
    exact absurd hbelow (by decide)
  · intro h
    have hbelow := h.string [] ⟨0, 5⟩ (by decide) (by decide) 4 (by decide) (by decide)
    exact absurd hbelow (by decide)

end Memorystream

end GEngine
