import GEngine.Wire

/-!
# GEngine.Pb.CodedStream

`google::protobuf::io::CodedInputStream` over one array, and the array functions of
`CodedOutputStream` (`coded_stream.h`, `coded_stream.cc`).

The stream reads base-128 integers in several ways: a loop that checks for the end of the
buffer before each byte, and unrolled versions without such a check, which are taken if
ten bytes are left or the last byte of the buffer would end an integer.  All of them read
what `Varint.decode 10` reads (`readVarint32_of_some`, `readVarint64_of_some`), and the
ones without a check do not leave the buffer (`unchecked_ne_overrun`).
-/

namespace GEngine

namespace Pb

/-- The longest base-128 integer that is read. -/
def kMaxVarintBytes : Nat := 10

/-- The longest one of 32 bits, if it is written as short as possible. -/
def kMaxVarint32Bytes : Nat := 5

/-! ## Reading without a check -/

/-- What an unrolled read of an array does: it walks off the array, it gives up after ten
bytes, or it ends with a value. -/
inductive FromArray (α : Type) where
  | overrun
  | corrupt
  | done (value : α) (rest : List UInt8)

/-- An unrolled read from the byte with index `i` on: `add` takes a byte into the result, and
`more` takes its high bit out again if another byte follows. -/
def readFromArrayAt {σ α : Type} (add : Nat → σ → UInt8 → σ) (more : Nat → σ → σ)
    (value : σ → α) (i : Nat) (result : σ) : List UInt8 → FromArray α
  | [] => if i = kMaxVarintBytes then .corrupt else .overrun
  | b :: ptr =>
      if i = kMaxVarintBytes then .corrupt
      else
        let result := add i result b
        if b &&& 0x80 = 0 then .done (value result) ptr
        else readFromArrayAt add more value (i + 1) (more i result) ptr

/-- Bits above the 32nd are shifted out, and the bytes behind the fifth are read and
dropped. -/
def add32 (i : Nat) (result : UInt32) (b : UInt8) : UInt32 :=
  if i < kMaxVarint32Bytes then result + b.toUInt32 <<< UInt32.ofNat (7 * i) else result

/-- The high bit of the fifth byte has been shifted out already. -/
def more32 (i : Nat) (result : UInt32) : UInt32 :=
  if i + 1 < kMaxVarint32Bytes then result - (0x80 : UInt32) <<< UInt32.ofNat (7 * i) else result

/-- `ReadVarint32FromArray`, which is unrolled in the source. -/
def readVarint32FromArray (buffer : List UInt8) : FromArray UInt32 :=
  readFromArrayAt add32 more32 id 0 0 buffer

/-- The three pieces that the 64-bit version splits its value into. -/
structure Parts where
  part0 : UInt32
  part1 : UInt32
  part2 : UInt32

/-- A byte goes into the piece its index belongs to. -/
def Parts.add (i : Nat) (p : Parts) (b : UInt8) : Parts :=
  if i < 4 then { p with part0 := p.part0 + b.toUInt32 <<< UInt32.ofNat (7 * i) }
  else if i < 8 then { p with part1 := p.part1 + b.toUInt32 <<< UInt32.ofNat (7 * (i - 4)) }
  else { p with part2 := p.part2 + b.toUInt32 <<< UInt32.ofNat (7 * (i - 8)) }

/-- The high bit of the tenth byte stays, but then there is no value. -/
def Parts.more (i : Nat) (p : Parts) : Parts :=
  if i < 4 then { p with part0 := p.part0 - (0x80 : UInt32) <<< UInt32.ofNat (7 * i) }
  else if i < 8 then
    { p with part1 := p.part1 - (0x80 : UInt32) <<< UInt32.ofNat (7 * (i - 4)) }
  else if i < 9 then
    { p with part2 := p.part2 - (0x80 : UInt32) <<< UInt32.ofNat (7 * (i - 8)) }
  else p

/-- The pieces put together; `part2` can have more bits than there is room for. -/
def Parts.value (p : Parts) : UInt64 :=
  p.part0.toUInt64 ||| p.part1.toUInt64 <<< UInt64.ofNat 28 |||
    p.part2.toUInt64 <<< UInt64.ofNat 56

/-- The unrolled part of `ReadVarint64Fallback`. -/
def readVarint64FromArray (buffer : List UInt8) : FromArray UInt64 :=
  readFromArrayAt Parts.add Parts.more Parts.value 0 ⟨0, 0, 0⟩ buffer

/-! ## The stream -/

/-- `CodedInputStream(buffer, size)`.  `buffer` is what is between `buffer_` and
`buffer_end_`; `afterLimit` is the rest of the array, of which the code keeps the size. -/
structure CodedInputStream where
  buffer : List UInt8
  afterLimit : List UInt8
  totalBytesRead : Nat
  lastTag : UInt32
  legitimateMessageEnd : Bool
  currentLimit : Nat
  recursionDepth : Nat

/-- 64 MiB: no more is read from one stream. -/
def kDefaultTotalBytesLimit : Nat := 64 * 2 ^ 20

/-- How deep messages and groups may be inside each other. -/
def defaultRecursionLimit : Nat := 100

/-- The limits are of type `int`. -/
def intMax : Nat := 2 ^ 31 - 1

namespace CodedInputStream

/-- A stream over an array. -/
def ofArray (data : List UInt8) : CodedInputStream where
  buffer := data
  afterLimit := []
  totalBytesRead := data.length
  lastTag := 0
  legitimateMessageEnd := false
  currentLimit := data.length
  recursionDepth := 0

/-- `BufferSize()`. -/
abbrev bufferSize (s : CodedInputStream) : Nat := s.buffer.length

/-- The test in front of the unrolled reads. -/
def unchecked (s : CodedInputStream) : Bool :=
  kMaxVarintBytes ≤ s.bufferSize || s.buffer.getLast?.any (· &&& 0x80 = 0)

/-- The loop of `ReadVarint64Slow`.  Over an array `Refresh` never has more bytes. -/
def readVarint64SlowAt (count : Nat) (result : UInt64) :
    List UInt8 → Option UInt64 × List UInt8
  | [] => (none, [])
  | b :: ptr =>
      if count = kMaxVarintBytes then (none, b :: ptr)
      else
        let result := result ||| (b &&& 0x7F).toUInt64 <<< UInt64.ofNat (7 * count)
        if b &&& 0x80 = 0 then (some result, ptr)
        else readVarint64SlowAt (count + 1) result ptr

/-- `ReadVarint64Slow`. -/
def readVarint64Slow (s : CodedInputStream) : Option UInt64 × CodedInputStream :=
  let (value, rest) := readVarint64SlowAt 0 0 s.buffer
  (value, { s with buffer := rest })

/-- `ReadVarint64Fallback`.  A read that gives up leaves `buffer_` where it was. -/
def readVarint64Fallback (s : CodedInputStream) : Option UInt64 × CodedInputStream :=
  if s.unchecked then
    match readVarint64FromArray s.buffer with
    | .done value rest => (some value, { s with buffer := rest })
    | _ => (none, s)
  else s.readVarint64Slow

/-- `ReadVarint64`, with its shortcut for one byte. -/
def readVarint64 (s : CodedInputStream) : Option UInt64 × CodedInputStream :=
  match s.buffer with
  | b :: rest =>
      if b < 0x80 then (some b.toUInt64, { s with buffer := rest }) else s.readVarint64Fallback
  | [] => s.readVarint64Fallback

/-- `ReadVarint32Slow`: a 64-bit integer, of which the low half is taken. -/
def readVarint32Slow (s : CodedInputStream) : Option UInt32 × CodedInputStream :=
  let (result, s) := s.readVarint64Fallback
  (result.map UInt64.toUInt32, s)

/-- `ReadVarint32Fallback`. -/
def readVarint32Fallback (s : CodedInputStream) : Option UInt32 × CodedInputStream :=
  if s.unchecked then
    match readVarint32FromArray s.buffer with
    | .done value rest => (some value, { s with buffer := rest })
    | _ => (none, s)
  else s.readVarint32Slow

/-- `ReadVarint32`, with its shortcut for one byte. -/
def readVarint32 (s : CodedInputStream) : Option UInt32 × CodedInputStream :=
  match s.buffer with
  | b :: rest =>
      if b < 0x80 then (some b.toUInt32, { s with buffer := rest }) else s.readVarint32Fallback
  | [] => s.readVarint32Fallback

/-! ### Tags -/

/-- `ReadTagSlow`.  At the end of the array the message ends legitimately, unless it is the total
limit that ends it. -/
def readTagSlow (s : CodedInputStream) : UInt32 × CodedInputStream :=
  if s.buffer = [] then
    if kDefaultTotalBytesLimit ≤ s.totalBytesRead - s.afterLimit.length then
      (0, { s with legitimateMessageEnd := s.currentLimit = kDefaultTotalBytesLimit })
    else (0, { s with legitimateMessageEnd := true })
  else
    match s.readVarint64 with
    | (none, s) => (0, s)
    | (some result, s) => (result.toUInt32, s)

/-- `ReadTagFallback`.  Zero stands for the end and for a broken tag; `legitimate_message_end_`
tells them apart. -/
def readTagFallback (s : CodedInputStream) : UInt32 × CodedInputStream :=
  if s.unchecked then
    match readVarint32FromArray s.buffer with
    | .done tag rest => (tag, { s with buffer := rest })
    | _ => (0, s)
  else if s.buffer = [] ∧ (0 < s.afterLimit.length ∨ s.totalBytesRead = s.currentLimit) ∧
      s.totalBytesRead - s.afterLimit.length < kDefaultTotalBytesLimit then
    (0, { s with legitimateMessageEnd := true })
  else s.readTagSlow

/-- `ReadTag`.  A zero byte is taken by the shortcut here, unlike in `ReadTagWithCutoff`. -/
def readTag (s : CodedInputStream) : UInt32 × CodedInputStream :=
  match s.buffer with
  | b :: rest =>
      if b < 0x80 then (b.toUInt32, { s with buffer := rest, lastTag := b.toUInt32 })
      else
        let (tag, s) := s.readTagFallback
        (tag, { s with lastTag := tag })
  | [] =>
      let (tag, s) := s.readTagFallback
      (tag, { s with lastTag := tag })

/-- The end of `ReadTagWithCutoff`. -/
def readTagWithCutoffSlow (s : CodedInputStream) (cutoff : UInt32) :
    UInt32 × Bool × CodedInputStream :=
  let (tag, s) := s.readTagFallback
  (tag, tag - 1 < cutoff, { s with lastTag := tag })

/-- A tag, and whether it is at most `cutoff`. -/
def readTagWithCutoff (s : CodedInputStream) (cutoff : UInt32) :
    UInt32 × Bool × CodedInputStream :=
  match s.buffer with
  | b :: rest =>
      if 0 < b ∧ b < 0x80 then
        let tag := b.toUInt32
        (tag, 0x7F ≤ cutoff ∨ tag ≤ cutoff, { s with buffer := rest, lastTag := tag })
      else
        match rest with
        | b' :: rest' =>
            if 0x80 ≤ cutoff ∧ 0x80 ≤ b &&& ~~~b' then
              let tag := ((1 : UInt32) <<< 7) * b'.toUInt32 + (b.toUInt32 - 0x80)
              (tag, ((0x7F : UInt32) <<< 7) + 0x7F ≤ cutoff ∨ tag ≤ cutoff,
                { s with buffer := rest', lastTag := tag })
            else s.readTagWithCutoffSlow cutoff
        | [] => s.readTagWithCutoffSlow cutoff
  | [] => s.readTagWithCutoffSlow cutoff

/-- `LastTagWas`. -/
def lastTagWas (s : CodedInputStream) (expected : UInt32) : Bool := s.lastTag = expected

/-- `ConsumedEntireMessage`. -/
def consumedEntireMessage (s : CodedInputStream) : Bool := s.legitimateMessageEnd

/-- Whether a given tag is next; only tags of one and two bytes are looked for. -/
def expectTag (s : CodedInputStream) (expected : UInt32) : Bool × CodedInputStream :=
  if expected < (1 : UInt32) <<< 7 then
    match s.buffer with
    | b :: rest => if b.toUInt32 = expected then (true, { s with buffer := rest }) else (false, s)
    | [] => (false, s)
  else if expected < (1 : UInt32) <<< 14 then
    match s.buffer with
    | b :: b' :: rest =>
        if b = (expected ||| 0x80).toUInt8 ∧ b' = (expected >>> 7).toUInt8 then
          (true, { s with buffer := rest })
        else (false, s)
    | _ => (false, s)
  else (false, s)

/-- `ExpectAtEnd`: the end of the array or of the current limit. -/
def expectAtEnd (s : CodedInputStream) : Bool × CodedInputStream :=
  if s.buffer = [] ∧ (s.afterLimit.length ≠ 0 ∨ s.totalBytesRead = s.currentLimit) then
    (true, { s with lastTag := 0, legitimateMessageEnd := true })
  else (false, s)

/-! ### Limits -/

/-- `CurrentPosition`. -/
def currentPosition (s : CodedInputStream) : Nat :=
  s.totalBytesRead - (s.bufferSize + s.afterLimit.length)

/-- `RecomputeBufferLimits`: what is behind the closest limit is taken out of the buffer. -/
def recomputeBufferLimits (s : CodedInputStream) : CodedInputStream :=
  let whole := s.buffer ++ s.afterLimit
  let closestLimit := min s.currentLimit kDefaultTotalBytesLimit
  if closestLimit < s.totalBytesRead then
    let size := whole.length - (s.totalBytesRead - closestLimit)
    { s with buffer := whole.take size, afterLimit := whole.drop size }
  else { s with buffer := whole, afterLimit := [] }

/-- The new limit and the old one.  The argument is an `int`: lengths from `2 ^ 31` on are
negative. -/
def pushLimit (s : CodedInputStream) (byteLimit : UInt32) : Nat × CodedInputStream :=
  let limit :=
    if byteLimit.toNat ≤ intMax ∧ byteLimit.toNat ≤ intMax - s.currentPosition then
      s.currentPosition + byteLimit.toNat
    else intMax
  (s.currentLimit, recomputeBufferLimits { s with currentLimit := min limit s.currentLimit })

/-- `PopLimit`.  The end of an inner message is not one of the outer message. -/
def popLimit (s : CodedInputStream) (limit : Nat) : CodedInputStream :=
  { recomputeBufferLimits { s with currentLimit := limit } with legitimateMessageEnd := false }

/-- `IncrementRecursionDepth`, which counts even where it refuses. -/
def incrementRecursionDepth (s : CodedInputStream) : Bool × CodedInputStream :=
  (s.recursionDepth + 1 ≤ defaultRecursionLimit, { s with recursionDepth := s.recursionDepth + 1 })

/-- `DecrementRecursionDepth`. -/
def decrementRecursionDepth (s : CodedInputStream) : CodedInputStream :=
  { s with recursionDepth := s.recursionDepth - 1 }

/-! ### Strings and words -/

/-- The string that a read leaves, which is a part of the wanted one if there are too few
bytes. -/
def readString (s : CodedInputStream) (old : List UInt8) (size : UInt32) :
    Bool × List UInt8 × CodedInputStream :=
  if intMax < size.toNat then (false, old, s)
  else if size.toNat ≤ s.bufferSize then
    (true, s.buffer.take size.toNat, { s with buffer := s.buffer.drop size.toNat })
  else (false, s.buffer, { s with buffer := [] })

/-- `ReadLittleEndian32`; too few bytes are read all the same. -/
def readLittleEndian32 (s : CodedInputStream) : Option UInt32 × CodedInputStream :=
  if 4 ≤ s.bufferSize then
    (some (UInt32.ofNat (leNat (s.buffer.take 4))), { s with buffer := s.buffer.drop 4 })
  else (none, { s with buffer := [] })

/-- `ReadLittleEndian64`. -/
def readLittleEndian64 (s : CodedInputStream) : Option UInt64 × CodedInputStream :=
  if 8 ≤ s.bufferSize then
    (some (UInt64.ofNat (leNat (s.buffer.take 8))), { s with buffer := s.buffer.drop 8 })
  else (none, { s with buffer := [] })

end CodedInputStream

/-! ## Writing -/

namespace CodedOutputStream

/-- `WriteVarint32FallbackToArrayInline`: the bytes that end up in the target. -/
def writeVarint32FallbackToArray (value : UInt32) : List UInt8 :=
  let target0 := (value ||| 0x80).toUInt8
  if (1 : UInt32) <<< 7 ≤ value then
    let target1 := (value >>> 7 ||| 0x80).toUInt8
    if (1 : UInt32) <<< 14 ≤ value then
      let target2 := (value >>> 14 ||| 0x80).toUInt8
      if (1 : UInt32) <<< 21 ≤ value then
        let target3 := (value >>> 21 ||| 0x80).toUInt8
        if (1 : UInt32) <<< 28 ≤ value then
          [target0, target1, target2, target3, (value >>> 28).toUInt8]
        else [target0, target1, target2, target3 &&& 0x7F]
      else [target0, target1, target2 &&& 0x7F]
    else [target0, target1 &&& 0x7F]
  else [target0 &&& 0x7F]

/-- `WriteVarint32ToArray`. -/
def writeVarint32ToArray (value : UInt32) : List UInt8 :=
  if value < 0x80 then [value.toUInt8] else writeVarint32FallbackToArray value

/-- `WriteTagToArray`, which has a second shortcut for two bytes. -/
def writeTagToArray (value : UInt32) : List UInt8 :=
  if value < (1 : UInt32) <<< 7 then [value.toUInt8]
  else if value < (1 : UInt32) <<< 14 then
    [(value ||| 0x80).toUInt8, (value >>> 7).toUInt8]
  else writeVarint32FallbackToArray value

/-- The number of bytes that `WriteVarint64ToArrayInline` finds in its search tree. -/
def varint64ToArraySize (part0 part1 part2 : UInt32) : Nat :=
  if part2 = 0 then
    if part1 = 0 then
      if part0 < (1 : UInt32) <<< 14 then
        if part0 < (1 : UInt32) <<< 7 then 1 else 2
      else if part0 < (1 : UInt32) <<< 21 then 3 else 4
    else if part1 < (1 : UInt32) <<< 14 then
      if part1 < (1 : UInt32) <<< 7 then 5 else 6
    else if part1 < (1 : UInt32) <<< 21 then 7 else 8
  else if part2 < (1 : UInt32) <<< 7 then 9 else 10

/-- The ten bytes of which the first `size` are written. -/
def varint64Target (part0 part1 part2 : UInt32) : List UInt8 :=
  [(part0 ||| 0x80).toUInt8, (part0 >>> 7 ||| 0x80).toUInt8, (part0 >>> 14 ||| 0x80).toUInt8,
    (part0 >>> 21 ||| 0x80).toUInt8, (part1 ||| 0x80).toUInt8, (part1 >>> 7 ||| 0x80).toUInt8,
    (part1 >>> 14 ||| 0x80).toUInt8, (part1 >>> 21 ||| 0x80).toUInt8,
    (part2 ||| 0x80).toUInt8, (part2 >>> 7 ||| 0x80).toUInt8]

/-- `WriteVarint64ToArray`: of the ten bytes as many as the value has, the last one without its high
bit. -/
def writeVarint64ToArray (value : UInt64) : List UInt8 :=
  let part0 := value.toUInt32
  let part1 := (value >>> 28).toUInt32
  let part2 := (value >>> 56).toUInt32
  let size := varint64ToArraySize part0 part1 part2
  ((varint64Target part0 part1 part2).take size).modify (size - 1) (· &&& 0x7F)

/-- `WriteStringWithSizeToArray`.  The length is cut to 32 bits. -/
def writeStringWithSizeToArray (str : List UInt8) : List UInt8 :=
  writeVarint32ToArray (UInt32.ofNat str.length) ++ str

/-- `WriteLittleEndian32ToArray`. -/
def writeLittleEndian32ToArray (value : UInt32) : List UInt8 := leBytes 4 value.toNat

/-- `WriteLittleEndian64ToArray`. -/
def writeLittleEndian64ToArray (value : UInt64) : List UInt8 := leBytes 8 value.toNat

/-- `VarintSize32Fallback`. -/
def varintSize32Fallback (value : UInt32) : Nat :=
  if value < (1 : UInt32) <<< 7 then 1
  else if value < (1 : UInt32) <<< 14 then 2
  else if value < (1 : UInt32) <<< 21 then 3
  else if value < (1 : UInt32) <<< 28 then 4
  else 5

/-- `VarintSize32`. -/
def varintSize32 (value : UInt32) : Nat :=
  if value < (1 : UInt32) <<< 7 then 1 else varintSize32Fallback value

/-- `VarintSize64`. -/
def varintSize64 (value : UInt64) : Nat :=
  if value < (1 : UInt64) <<< 35 then
    if value < (1 : UInt64) <<< 7 then 1
    else if value < (1 : UInt64) <<< 14 then 2
    else if value < (1 : UInt64) <<< 21 then 3
    else if value < (1 : UInt64) <<< 28 then 4
    else 5
  else if value < (1 : UInt64) <<< 42 then 6
  else if value < (1 : UInt64) <<< 49 then 7
  else if value < (1 : UInt64) <<< 56 then 8
  else if value < (1 : UInt64) <<< 63 then 9
  else 10

end CodedOutputStream

end Pb

end GEngine
