import GEngine.Bytes

/-!
# GEngine.Memorystream

The growable byte buffer `memorystream` (`libs/server/include/memorystream.h`):
a `std::vector<char>` together with a logical length.  `append` grows the
vector when the new bytes do not fit behind the logical length, and the typed
`read<T>` is guarded by an `assert`.

`size_t` is 64 bits wide, so the sums, the products and the difference the code
computes are taken modulo `2 ^ 64`.  The capacity a constructor reserves is not part
of the state: no operation reads it.

The checks of the reads are wrong at their edges, so a read may leave the vector.
The functions that copy bytes out take the memory behind the vector as an argument,
`beyond`, and say which bytes they load.
-/

namespace GEngine

/-- `a + b` in `size_t`. -/
def sizeAdd (a b : Nat) : Nat := (a + b) % 2 ^ 64

/-- `a - b` in `size_t`; it wraps around when `b` is the larger one. -/
def sizeSub (a b : Nat) : Nat := (a + 2 ^ 64 - b) % 2 ^ 64

/-- A sum that fits is the mathematical sum. -/
theorem sizeAdd_eq (h : a + b < 2 ^ 64) : sizeAdd a b = a + b := Nat.mod_eq_of_lt h

/-- A difference that does not wrap is the mathematical difference. -/
theorem sizeSub_eq (hb : b ≤ a) (ha : a < 2 ^ 64) : sizeSub a b = a - b := by
  unfold sizeSub; omega

/-- `PTRDIFF_MAX`: no object has more bytes, and a `std::vector<char>` does not grow
past it. -/
def ptrdiffMax : Nat := 2 ^ 63 - 1

/-- A size that can be had is a `size_t`. -/
theorem lt_of_le_ptrdiffMax (h : n ≤ ptrdiffMax) : n < 2 ^ 64 := by
  unfold ptrdiffMax at h
  omega

/-- The bytes of an object in memory. -/
structure Buffer where
  bytes : List UInt8
  fits : bytes.length ≤ ptrdiffMax

/-- The bytes `m_data[start]` to `m_data[start + count - 1]`. -/
structure Span where
  start : Nat
  count : Nat
  deriving DecidableEq, Repr

/-- Every byte of the span has an index below `n`. -/
def Span.Below (a : Span) (n : Nat) : Prop := ∀ i, a.start ≤ i → i < a.start + a.count → i < n

/-- The stream: the vector `m_data` and the number `m_length` of bytes in use. -/
structure Memorystream where
  mData : List UInt8
  mLength : Nat
  deriving DecidableEq, Repr

namespace Memorystream

/-- The state both constructors leave behind: only capacity is reserved. -/
def new : Memorystream := ⟨[], 0⟩

/-- `clear()`. -/
def clear (_ : Memorystream) : Memorystream := ⟨[], 0⟩

/-- `size()`: the size of the vector. -/
def size (s : Memorystream) : Nat := s.mData.length

/-- `length()`: the number of bytes in use. -/
def length (s : Memorystream) : Nat := s.mLength

/-- `m_data.resize(n)` for an `n` that is not smaller: zero bytes are added. -/
def grow (bs : List UInt8) (n : Nat) : List UInt8 := bs ++ List.replicate (n - bs.length) 0

/-- `append(const void* data, size_t size)`.  A null `data` is ignored.  What `data` points
to is not the stream itself: the vector may move before the bytes are copied. -/
def append (s : Memorystream) (data : Option (List UInt8)) (size : Nat) : Memorystream :=
  match data with
  | none => s
  | some bytes =>
      let end_ := sizeAdd s.mLength size
      let buf := if s.size < end_ then grow s.mData end_ else s.mData
      ⟨copyAt buf s.mLength (bytes.take size), end_⟩

/-- `append<T>(value)` for a scalar whose object representation is `image`. -/
def appendScalar (s : Memorystream) (image : List UInt8) : Memorystream :=
  s.append (some image) image.length

/-- `append<T>(const T* t, size_t size)` for a `T` of `w` bytes. -/
def appendArray (s : Memorystream) (w : Nat) (data : Option (List UInt8)) (size : Nat) :
    Memorystream :=
  s.append data (size * w % 2 ^ 64)

/-- `append(const std::string& str)`: the terminator is appended too. -/
def appendString (s : Memorystream) (str : List UInt8) : Memorystream :=
  s.append (some (str ++ [0])) (sizeAdd str.length 1)

/-- `resize(n)`.  A vector that cannot grow so far throws, and nothing has changed. -/
def resize (s : Memorystream) (n : Nat) : Memorystream :=
  if s.size < n ∧ n ≤ ptrdiffMax then { s with mData := grow s.mData n } else s

/-- `reserve(size)`, which is about capacity only. -/
def reserve (s : Memorystream) (_ : Nat) : Memorystream := s

/-- The contents of a span; behind the vector, they are those of the memory there. -/
def load (s : Memorystream) (beyond : Nat → UInt8) (a : Span) : List UInt8 :=
  (List.range' a.start a.count).map fun i => s.mData[i]?.getD (beyond i)

/-- The bytes that `read<T>(offset)` loads, if its `assert` passes. -/
def readSpan (s : Memorystream) (w offset : Nat) : Option Span :=
  if w ≤ sizeSub s.mLength offset then some ⟨offset, w⟩ else none

/-- `read<T>(offset)` for a `T` of `w` bytes: the object representation that is
read, or `none` when the `assert` trips. -/
def read (s : Memorystream) (beyond : Nat → UInt8) (w offset : Nat) : Option (List UInt8) :=
  (s.readSpan w offset).map (s.load beyond)

/-- What a read into `dest` comes to: the returned status, what `dest` holds then, and
the bytes that were loaded. -/
structure ReadResult where
  status : Int
  dest : List UInt8
  loaded : Option Span
  deriving DecidableEq, Repr

/-- `read(char* dest, size_t offset, size_t len)`. -/
def readChars (s : Memorystream) (beyond : Nat → UInt8) (dest : List UInt8) (offset len : Nat) :
    ReadResult :=
  if s.mLength ≤ offset then ⟨1, dest, none⟩
  else if s.mLength < len ∨ s.mLength < sizeAdd offset len then ⟨2, dest, none⟩
  else ⟨0, overlay dest (s.load beyond ⟨offset, len⟩), some ⟨offset, len⟩⟩

/-- `read(std::string& dest, size_t offset, size_t len)`, which assigns one byte more
than it has checked. -/
def readString (s : Memorystream) (beyond : Nat → UInt8) (dest : List UInt8)
    (offset len : Nat) : ReadResult :=
  if s.mLength < offset then ⟨1, dest, none⟩
  else if s.mLength < len ∨ s.mLength < sizeAdd offset len then ⟨2, dest, none⟩
  else
    let a : Span := ⟨offset, sizeAdd len 1⟩
    ⟨0, s.load beyond a, some a⟩

/-- The bytes in use: what `data()` and `length()` describe together. -/
def bytes (s : Memorystream) : List UInt8 := s.mData.take s.mLength

/-! ## Appending to an exactly full stream -/

/-- A stream that holds `bs` and has no room behind it. -/
def full (bs : List UInt8) : Memorystream := ⟨bs, bs.length⟩

/-- A full stream is its bytes. -/
@[simp] theorem bytes_full (bs : List UInt8) : (full bs).bytes = bs := List.take_length

/-- The length of a full stream. -/
@[simp] theorem length_full (bs : List UInt8) : (full bs).length = bs.length := rfl

/-- Appending to a full stream writes the new bytes behind the old ones and
leaves the stream full. -/
theorem append_full {bs image : List UInt8} (h : bs.length + image.length < 2 ^ 64) :
    (full bs).append (some image) image.length = full (bs ++ image) := by
  have hbuf : (if bs.length < bs.length + image.length then
      grow bs (bs.length + image.length) else bs) = bs ++ List.replicate image.length 0 := by
    unfold grow
    split
    · rw [Nat.add_sub_cancel_left]
    · next hn =>
        have h0 : image.length = 0 := by omega
        rw [h0, List.replicate_zero, List.append_nil]
  have hcopy : copyAt (bs ++ List.replicate image.length 0) bs.length image = bs ++ image := by
    rw [copyAt_of_le (by simp)]
    simp
  simp only [append, full, size, sizeAdd_eq h, hbuf, List.take_length, hcopy,
    List.length_append]

/-- `append_full` for a scalar. -/
theorem appendScalar_full {bs image : List UInt8} (h : bs.length + image.length < 2 ^ 64) :
    (full bs).appendScalar image = full (bs ++ image) :=
  append_full h

/-! ## Streams and their operations -/

section Operations

variable {s : Memorystream} {bs : List UInt8} {n k : Nat}

/-- What holds of every stream: the bytes in use are in the vector, which is no larger
than a vector can be. -/
structure Sized (s : Memorystream) : Prop where
  inside : s.mLength ≤ s.mData.length
  fits : s.mData.length ≤ ptrdiffMax

/-- The numbers of a stream are far from the end of `size_t`. -/
theorem Sized.mLength_lt (h : s.Sized) : s.mLength < 2 ^ 63 := by
  have hin := h.inside
  have hfit := h.fits
  unfold ptrdiffMax at hfit
  omega

/-- A new stream. -/
theorem sized_new : new.Sized := ⟨Nat.le_refl 0, Nat.zero_le _⟩

/-- As many bytes are in use as `length()` says. -/
theorem length_bytes (h : s.Sized) : s.bytes.length = s.length := by
  have hin := h.inside
  simp only [bytes, length, List.length_take]
  omega

/-- A span inside the vector holds a slice of it, whatever lies behind. -/
theorem load_eq_slice {beyond : Nat → UInt8} (h : k + n ≤ s.mData.length) :
    s.load beyond ⟨k, n⟩ = slice s.mData k n := by
  apply List.ext_getElem
  · simp only [load, slice, List.length_map, List.length_range', List.length_take,
      List.length_drop]
    omega
  · intro i hi _
    simp only [load, List.length_map, List.length_range'] at hi
    have hget : s.mData[k + i]? = some (s.mData[k + i]) :=
      List.getElem?_eq_getElem (by omega)
    simp [load, slice, List.getElem_range', hget]

/-- What a span of the bytes in use holds. -/
theorem load_bytes (h : s.Sized) (hend : k + n ≤ s.mLength) (beyond : Nat → UInt8) :
    s.load beyond ⟨k, n⟩ = slice s.bytes k n := by
  rw [load_eq_slice (Nat.le_trans hend h.inside), bytes, slice_take hend]

/-- `read<T>(offset)` at an offset in the stream does not see what lies behind it. -/
theorem read_eq (h : s.Sized) (hoff : k ≤ s.mLength) (beyond : Nat → UInt8) (w : Nat) :
    s.read beyond w k = if k + w ≤ s.mLength then some (slice s.bytes k w) else none := by
  have hmax := h.mLength_lt
  unfold read readSpan
  rw [sizeSub_eq hoff (by omega)]
  by_cases hend : k + w ≤ s.mLength
  · rw [if_pos hend, if_pos (by omega), Option.map_some, load_bytes h hend]
  · rw [if_neg hend, if_neg (by omega), Option.map_none]

/-- `append(data, size)`, where a vector that cannot grow so far throws, and nothing has
changed. -/
def tryAppend (s : Memorystream) (data : Option (List UInt8)) (size : Nat) : Memorystream :=
  if s.size < sizeAdd s.mLength size ∧ ptrdiffMax < sizeAdd s.mLength size then s
  else s.append data size

/-- Growing a vector to a size it does not have yet. -/
theorem length_grow (h : bs.length ≤ n) : (grow bs n).length = n := by
  simp only [grow, List.length_append, List.length_replicate]
  omega

/-- Growing keeps the bytes that are there. -/
theorem take_grow (h : k ≤ bs.length) : (grow bs n).take k = bs.take k := by
  rw [grow, List.take_append_of_le_length h]

/-- **Append**: the bytes are added behind those in use. -/
theorem append_bytes (h : s.Sized) (hfit : s.mLength + bs.length ≤ ptrdiffMax) :
    (s.append (some bs) bs.length).Sized ∧
      (s.append (some bs) bs.length).bytes = s.bytes ++ bs := by
  have hin := h.inside
  have hmax := h.fits
  have hend : sizeAdd s.mLength bs.length = s.mLength + bs.length :=
    sizeAdd_eq (lt_of_le_ptrdiffMax hfit)
  have hroom : ∃ buf : List UInt8, s.mLength + bs.length ≤ buf.length ∧
      buf.length ≤ ptrdiffMax ∧ buf.take s.mLength = s.mData.take s.mLength ∧
      s.append (some bs) bs.length =
        ⟨copyAt buf s.mLength bs, s.mLength + bs.length⟩ := by
    simp only [append, hend, List.take_length, size]
    by_cases hlt : s.mData.length < s.mLength + bs.length
    · have hlen : (grow s.mData (s.mLength + bs.length)).length = s.mLength + bs.length :=
        length_grow (by omega)
      exact ⟨grow s.mData (s.mLength + bs.length), by omega, by omega, take_grow hin,
        by rw [if_pos hlt]⟩
    · exact ⟨s.mData, by omega, hmax, rfl, by rw [if_neg hlt]⟩
  obtain ⟨buf, hlen, hbuf, htake, heq⟩ := hroom
  rw [heq]
  constructor
  · exact ⟨by rw [length_copyAt]; exact hlen, by rw [length_copyAt]; exact hbuf⟩
  · have hfront : (buf.take s.mLength ++ bs).length = s.mLength + bs.length := by
      rw [List.length_append, List.length_take]
      omega
    simp only [bytes, copyAt_of_le hlen]
    rw [← hfront, List.take_left, htake]

/-- The arguments of the overloads of `append`: a scalar, an array, a `std::string` and
plain bytes.  What a pointer points to is there in full. -/
inductive AppendArg
  | value (image : Buffer)
  | array (width size : Nat) (data : Option Buffer)
      (backed : ∀ b, data = some b → b.bytes.length = size * width % 2 ^ 64)
  | text (str : Buffer)
  | bytes (size : Nat) (data : Option Buffer)
      (backed : ∀ b, data = some b → b.bytes.length = size)

/-- The pointer an overload passes on. -/
def AppendArg.data : AppendArg → Option (List UInt8)
  | value image => some image.bytes
  | array _ _ data _ => data.map Buffer.bytes
  | text str => some (str.bytes ++ [0])
  | bytes _ data _ => data.map Buffer.bytes

/-- The size an overload passes on. -/
def AppendArg.size : AppendArg → Nat
  | value image => image.bytes.length
  | array width size _ _ => size * width % 2 ^ 64
  | text str => sizeAdd str.bytes.length 1
  | bytes size _ _ => size

/-- All bytes an overload is to copy are there. -/
theorem AppendArg.length_data (a : AppendArg) (h : a.data = some bs) :
    bs.length = a.size ∧ bs.length ≤ ptrdiffMax + 1 := by
  cases a with
  | value image =>
      cases h
      exact ⟨rfl, Nat.le_succ_of_le image.fits⟩
  | array width size data backed =>
      obtain ⟨b, hb, rfl⟩ := Option.map_eq_some_iff.mp h
      exact ⟨backed b hb, Nat.le_succ_of_le b.fits⟩
  | text str =>
      cases h
      have hfit := str.fits
      have hadd : sizeAdd str.bytes.length 1 = str.bytes.length + 1 := by
        apply sizeAdd_eq
        unfold ptrdiffMax at hfit
        omega
      rw [AppendArg.size, hadd, List.length_append, List.length_singleton]
      omega
  | bytes size data backed =>
      obtain ⟨b, hb, rfl⟩ := Option.map_eq_some_iff.mp h
      exact ⟨backed b hb, Nat.le_succ_of_le b.fits⟩

/-- The bytes an overload adds: none for a null pointer. -/
def AppendArg.image (a : AppendArg) : List UInt8 := a.data.getD []

/-- The end of the bytes in use after an `append` that is given a pointer. -/
theorem sizeAdd_image (h : s.Sized) (a : AppendArg) (hdata : a.data = some bs) :
    sizeAdd s.mLength a.size = s.mLength + a.image.length ∧ a.image = bs ∧
      bs.length = a.size := by
  obtain ⟨hsize, hbs⟩ := a.length_data hdata
  have hmax := h.mLength_lt
  have himage : a.image = bs := by simp [AppendArg.image, hdata]
  refine ⟨?_, himage, hsize⟩
  unfold ptrdiffMax at hbs
  rw [himage, ← hsize, sizeAdd_eq (by omega)]

/-- An `append` for which there is room adds its bytes behind those in use. -/
theorem tryAppend_fits (h : s.Sized) (a : AppendArg)
    (hfit : s.mLength + a.image.length ≤ ptrdiffMax) :
    (s.tryAppend a.data a.size).Sized ∧
      (s.tryAppend a.data a.size).bytes = s.bytes ++ a.image := by
  unfold tryAppend
  cases hdata : a.data with
  | none =>
      have himage : a.image = [] := by simp [AppendArg.image, hdata]
      simp [append, himage, h]
  | some bs =>
      obtain ⟨hend, himage, hsize⟩ := sizeAdd_image h a hdata
      have hgoes : ¬ (s.size < sizeAdd s.mLength a.size ∧
          ptrdiffMax < sizeAdd s.mLength a.size) := by
        omega
      rw [himage] at hfit ⊢
      rw [if_neg hgoes, ← hsize]
      exact append_bytes h hfit

/-- An `append` for which there is no room throws. -/
theorem tryAppend_throws (h : s.Sized) (a : AppendArg)
    (hfit : ¬ s.mLength + a.image.length ≤ ptrdiffMax) : s.tryAppend a.data a.size = s := by
  unfold tryAppend
  cases hdata : a.data with
  | none => simp [append]
  | some bs =>
      obtain ⟨hend, -, -⟩ := sizeAdd_image h a hdata
      have hmax := h.fits
      unfold size
      rw [if_pos (by omega)]

/-- An `append` adds bytes behind those in use, or none. -/
theorem tryAppend_bytes (h : s.Sized) (a : AppendArg) :
    (s.tryAppend a.data a.size).Sized ∧ s.bytes <+: (s.tryAppend a.data a.size).bytes := by
  by_cases hfit : s.mLength + a.image.length ≤ ptrdiffMax
  · obtain ⟨hsized, hbytes⟩ := tryAppend_fits h a hfit
    simp only [hsized, hbytes, List.prefix_append, and_self]
  · simp only [tryAppend_throws h a hfit, h, List.prefix_rfl, and_self]

/-- The operations that change a stream. -/
inductive Op
  | append (a : AppendArg)
  | resize (n : Nat)
  | reserve (size : Nat)
  | clear

/-- One operation. -/
def Op.apply : Op → Memorystream → Memorystream
  | append a, s => s.tryAppend a.data a.size
  | resize n, s => s.resize n
  | reserve size, s => s.reserve size
  | clear, s => s.clear

/-- `resize` leaves the bytes in use alone. -/
theorem resize_bytes (h : s.Sized) (n : Nat) :
    (s.resize n).Sized ∧ (s.resize n).mLength = s.mLength ∧ (s.resize n).bytes = s.bytes := by
  unfold resize
  by_cases hn : s.size < n ∧ n ≤ ptrdiffMax
  · have hin := h.inside
    have hlen : (grow s.mData n).length = n := length_grow (Nat.le_of_lt hn.1)
    rw [if_pos hn]
    unfold size at hn
    refine ⟨⟨?_, ?_⟩, rfl, take_grow hin⟩
    · simp only [hlen]
      omega
    · simp only [hlen]
      exact hn.2
  · rw [if_neg hn]
    exact ⟨h, rfl, rfl⟩

/-- Every operation leaves a stream that is a stream. -/
theorem sized_apply (h : s.Sized) (op : Op) : (op.apply s).Sized := by
  cases op with
  | append a => exact (tryAppend_bytes h a).1
  | resize n => exact (resize_bytes h n).1
  | reserve size => exact h
  | clear => exact sized_new

/-- Only `clear` takes bytes away. -/
theorem apply_bytes (h : s.Sized) {op : Op} (hop : op ≠ .clear) :
    s.bytes <+: (op.apply s).bytes := by
  cases op with
  | append a => exact (tryAppend_bytes h a).2
  | resize n =>
      have hsame : (s.resize n).bytes = s.bytes := (resize_bytes h n).2.2
      simp only [Op.apply, hsame, List.prefix_rfl]
  | reserve size => exact List.prefix_rfl
  | clear => exact absurd rfl hop

end Operations

end Memorystream

end GEngine
