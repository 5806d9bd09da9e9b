import Mathlib.Algebra.Ring.Int.Defs
import Mathlib.Algebra.Ring.Nat
import GEngine.Memorystream

/-!
# GEngine.Packet

The wire packet `packet` (`libs/server/include/packet.h`,
`libs/server/src/packet.cpp`): a `memorystream` with a read cursor whose first
24 bytes are the header

```
id (4)  version (4)  time (8)  bodylength (4)  extra (4)
```

and whose remaining bytes are the body.  The constructor writes the fields in
sequence; the accessors read them at hard-coded offsets.

A function that goes through the `assert` of `read<T>` returns `none` when it trips.
-/

namespace GEngine

/-- A packet: the stream plus the cursor `m_index`. -/
structure Packet extends Memorystream where
  mIndex : Nat
  deriving DecidableEq, Repr

namespace Packet

/-- `PACKET_ID_OFFSET`. -/
def idOffset : Nat := 0
/-- `PACKET_VERSION_OFFSET`. -/
def versionOffset : Nat := 4
/-- `PACKET_TIMESTAMP_OFFSET`. -/
def timestampOffset : Nat := 8
/-- `PACKET_BODY_LENGTH_OFFSET`. -/
def bodyLengthOffset : Nat := 16
/-- `PACKET_EXTRA_OFFSET`. -/
def extraOffset : Nat := 20
/-- `PACKET_BODY_OFFSET`. -/
def bodyOffset : Nat := 24
/-- `PACKET_HEAD_LENGTH`. -/
def headLength : Nat := 24
/-- `PACKET_VERSION`. -/
def version : Int := 1

/-- The object representation of a 32-bit `int`. -/
def intImage (i : Int) : List UInt8 := leBytes 4 (i % 2 ^ 32).toNat

/-- The object representation of a 64-bit `time_t`. -/
def timeImage (t : Int) : List UInt8 := leBytes 8 (t % 2 ^ 64).toNat

/-- `packet(const char* data, size_t length)`. -/
def ofBytes (data : Option (List UInt8)) (length : Nat) : Packet :=
  { Memorystream.new.clear.append data length with mIndex := 0 }

/-- `packet(int id, const char* body, size_t bodylength, int extra)`, where `t`
is what `::time(nullptr)` returned. -/
def new (t id : Int) (body : Option (List UInt8)) (bodylength : Nat) (extra : Int) : Packet :=
  let s := Memorystream.new.clear
  let s := s.appendScalar (intImage id)
  let s := s.appendScalar (intImage version)
  let s := s.appendScalar (timeImage t)
  let s := s.appendScalar (intImage bodylength)
  let s := s.appendScalar (intImage extra)
  { s.append body bodylength with mIndex := 0 }

/-- `packet()` and `packet(size_t size)`. -/
def empty : Packet := { Memorystream.new with mIndex := 0 }

/-- `packet(std::string& data)`.  The constructor does not initialise `m_index`, which
holds what was in the memory before, `index`. -/
def ofString (index : Nat) (data : List UInt8) : Packet :=
  { Memorystream.new.clear.appendString data with mIndex := index }

/-- `is_valid()`. -/
def isValid (p : Packet) : Bool := headLength ≤ p.length

/-! ## Accessors

An accessor reads at a fixed offset once it has seen that the offset is inside the packet.
What lies behind the vector is then not looked at (`Memorystream.read_eq`), and zero
bytes stand for it.
-/

/-- `bodylength()`: zero for a packet too short to hold the field, otherwise the
field as an `unsigned int`; `none` when the `assert` of `read<T>` trips. -/
def bodylength (p : Packet) : Option Nat :=
  if p.length ≤ bodyLengthOffset then some 0
  else (p.read (fun _ => 0) 4 bodyLengthOffset).map leNat

/-- An accessor: zero for a packet that ends before the field, which has `w` bytes. -/
def field {α : Type} [Zero α] (p : Packet) (w offset : Nat) (decode : List UInt8 → α) :
    Option α :=
  if p.length ≤ offset then some 0 else (p.read (fun _ => 0) w offset).map decode

/-- The `int` with a given object representation. -/
def intOf (image : List UInt8) : Int := toInt32 (leNat image)

/-- The `time_t` with a given object representation. -/
def timeOf (image : List UInt8) : Int := toInt64 (leNat image)

/-- `id()`. -/
def id (p : Packet) : Option Int := p.field 4 idOffset intOf

/-- `version()`. -/
def getVersion (p : Packet) : Option Int := p.field 4 versionOffset intOf

/-- `time()`. -/
def time (p : Packet) : Option Int := p.field 8 timestampOffset timeOf

/-- `extra()`. -/
def extra (p : Packet) : Option Int := p.field 4 extraOffset intOf

/-- `body(data)`: the result, and what `data` holds then. -/
def body (p : Packet) (beyond : Nat → UInt8) (data : List UInt8) : Option (Nat × List UInt8) :=
  if p.length ≤ bodyOffset then some (0, data)
  else
    p.bodylength.map fun len =>
      if p.length < len then (0, data)
      else
        let r := p.readString beyond data bodyOffset len
        if r.status ≠ 0 then (0, []) else (len, r.dest)

/-! ## Reads at the cursor -/

/-- `read<T>()` for a `T` of `w` bytes. -/
def readValue (p : Packet) (beyond : Nat → UInt8) (w : Nat) : Option (List UInt8 × Packet) :=
  (p.read beyond w p.mIndex).map fun image => (image, { p with mIndex := sizeAdd p.mIndex w })

/-- `read(char* dest, size_t len)`. -/
def readCharsNext (p : Packet) (beyond : Nat → UInt8) (dest : List UInt8) (len : Nat) :
    Int × List UInt8 × Packet :=
  let r := p.readChars beyond dest p.mIndex len
  (r.status, r.dest,
    if r.status = 0 then { p with mIndex := sizeAdd p.mIndex len } else p)

/-- `read(std::string& dest, size_t len)`. -/
def readStringNext (p : Packet) (beyond : Nat → UInt8) (dest : List UInt8) (len : Nat) :
    Int × List UInt8 × Packet :=
  let r := p.readString beyond dest p.mIndex len
  if r.status = 0 then
    (r.status, r.dest, { p with mIndex := sizeAdd p.mIndex (sizeAdd len 1) })
  else (r.status, [], p)

/-! ## What the constructors write -/

/-- The 24 header bytes the constructor writes. -/
def header (t id : Int) (bodylength : Nat) (extra : Int) : List UInt8 :=
  intImage id ++ intImage version ++ timeImage t ++ intImage bodylength ++ intImage extra

/-- An `int` takes four bytes. -/
@[simp] theorem length_intImage (i : Int) : (intImage i).length = 4 := length_leBytes _ _

/-- A `time_t` takes eight bytes. -/
@[simp] theorem length_timeImage (t : Int) : (timeImage t).length = 8 := length_leBytes _ _

/-- The header takes 24 bytes. -/
@[simp] theorem length_header (t id : Int) (n : Nat) (extra : Int) :
    (header t id n extra).length = headLength := by
  simp [header, headLength]

/-- What the constructor has written before the body. -/
theorem header_eq (t id : Int) (n : Nat) (extra : Int) :
    ((((Memorystream.new.clear.appendScalar (intImage id)).appendScalar
      (intImage version)).appendScalar (timeImage t)).appendScalar (intImage n)).appendScalar
        (intImage extra) = Memorystream.full (header t id n extra) := by
  have hnew : Memorystream.new.clear = Memorystream.full [] := rfl
  rw [hnew]
  rw [Memorystream.appendScalar_full (by simp), Memorystream.appendScalar_full (by simp),
    Memorystream.appendScalar_full (by simp), Memorystream.appendScalar_full (by simp),
    Memorystream.appendScalar_full (by simp)]
  rfl

/-- A packet built without a body is the header, whatever length it was given. -/
theorem new_none (t id extra : Int) (n : Nat) :
    new t id none n extra = { Memorystream.full (header t id n extra) with mIndex := 0 } := by
  unfold new
  simp only [header_eq]
  rfl

/-- A packet built around a body is the header followed by the body. -/
theorem new_some (t id extra : Int) (body : List UInt8)
    (h : headLength + body.length < 2 ^ 64) :
    new t id (some body) body.length extra =
      { Memorystream.full (header t id body.length extra ++ body) with mIndex := 0 } := by
  unfold new
  simp only [header_eq]
  rw [Memorystream.append_full (by rw [length_header]; exact h)]

/-- A packet built around a body is the header followed by the body, with the
cursor at the front. -/
theorem new_eq (t id extra : Int) (body : List UInt8) (h : body.length < 2 ^ 32) :
    new t id (some body) body.length extra =
      { Memorystream.full (header t id body.length extra ++ body) with mIndex := 0 } := by
  apply new_some
  unfold headLength
  omega

/-- The bytes of a packet built around a body. -/
theorem bytes_new (t id extra : Int) (body : List UInt8) (h : body.length < 2 ^ 32) :
    (new t id (some body) body.length extra).bytes = header t id body.length extra ++ body := by
  rw [new_eq t id extra body h]
  exact Memorystream.bytes_full _

/-- A packet imported from a buffer holds exactly that buffer. -/
theorem ofBytes_eq (bs : List UInt8) (h : bs.length < 2 ^ 64) :
    ofBytes (some bs) bs.length = { Memorystream.full bs with mIndex := 0 } := by
  have hnew : Memorystream.new.clear = Memorystream.full [] := rfl
  unfold ofBytes
  rw [hnew, Memorystream.append_full (by simpa using h)]
  rfl

/-- The body length of an imported buffer that holds a whole header is the word
at offset 16. -/
theorem bodylength_ofBytes (bs : List UInt8) (hlo : headLength ≤ bs.length)
    (hhi : bs.length < 2 ^ 64) :
    (ofBytes (some bs) bs.length).bodylength = some (leNat (slice bs bodyLengthOffset 4)) := by
  unfold headLength at hlo
  have hread : (Memorystream.full bs).read (fun _ => 0) 4 bodyLengthOffset =
      some (slice bs bodyLengthOffset 4) := by
    have hspan : (Memorystream.full bs).readSpan 4 bodyLengthOffset =
        some ⟨bodyLengthOffset, 4⟩ := by
      unfold Memorystream.readSpan Memorystream.full bodyLengthOffset
      rw [sizeSub_eq (by omega) hhi, if_pos (by omega)]
    rw [Memorystream.read, hspan, Option.map_some, Memorystream.load_eq_slice]
    · rfl
    · show bodyLengthOffset + 4 ≤ bs.length
      unfold bodyLengthOffset
      omega
  have hlen : ¬ (Memorystream.full bs).length ≤ bodyLengthOffset := by
    rw [Memorystream.length_full]; unfold bodyLengthOffset; omega
  rw [ofBytes_eq bs hhi, bodylength, if_neg hlen, hread, Option.map_some]

end Packet

end GEngine
