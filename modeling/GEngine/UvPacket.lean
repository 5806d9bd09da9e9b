import GEngine.Packet

/-!
# GEngine.UvPacket

The receive buffer of a session, `uv_packet` (`libs/network/include/uv_packet.h`,
`libs/network/src/uv_packet.cpp`), as far as it is about memory: the two
`uv_buf_t` descriptors, the length field, and the functions that only touch
them.  What these functions do to a session and to the service is in
`GEngine.UvService`.

The constructor assigns `m_head` twice and `m_body` not at all, and
`bodylength()` reads behind the header instead of inside it.  Both are modelled
as they stand; `headerAgree_iff` says what follows for the two header decoders
of the program.
-/

namespace GEngine

/-! ## `uv_buf_t` -/

/-- Where a `char*` points: nowhere, at a block of its own, or, when it was never
initialised, anywhere. -/
inductive Base
  | null
  | block (bytes : List UInt8)
  | wild
  deriving DecidableEq, Repr

/-- The bytes behind a pointer. -/
def Base.bytes : Base → List UInt8
  | block bs => bs
  | _ => []

/-- `uv_buf_t`. -/
structure UvBuf where
  base : Base
  len : Nat
  deriving DecidableEq, Repr

namespace UvBuf

/-- `uv_buf_init(nullptr, 0)`. -/
def empty : UvBuf := ⟨.null, 0⟩

/-- `uv_buf_init((char*)malloc(n), n)`.  What `malloc` leaves in the block is
never read before it is overwritten; it is taken to be zero. -/
def alloc (n : Nat) : UvBuf := ⟨.block (List.replicate n 0), n⟩

/-- The buffer libuv refuses with `UV_ENOBUFS`. -/
def isEmpty (b : UvBuf) : Bool := b.base = .null ∨ b.len = 0

/-- `if (base != nullptr) memset(base, 0, len)`. -/
def zero (b : UvBuf) : UvBuf :=
  match b.base with
  | .block bs => { b with base := .block (zeroFront b.len bs) }
  | _ => b

/-- libuv stores what it read at the front of the buffer. -/
def fill (b : UvBuf) (chunk : List UInt8) : UvBuf :=
  match b.base with
  | .block bs => { b with base := .block (copyAt bs 0 chunk) }
  | _ => b

/-- The `n` bytes at the front of the buffer. -/
def front (b : UvBuf) (n : Nat) : List UInt8 := b.base.bytes.take n

end UvBuf

/-! ## `uv_packet` -/

/-- `PACKET_BUFFER_SIZE`. -/
def packetBufferSize : Nat := 1024

/-- The descriptors and the length field of a `uv_packet`. -/
structure UvPacket where
  mHead : UvBuf
  mBody : UvBuf
  mLength : Nat
  deriving DecidableEq, Repr

/-- What the members that `uv_packet::uv_packet` does not initialise read as:
whether `m_body.base` happens to be null, and the two integers. -/
structure Fresh where
  bodyNull : Bool
  bodyLen : Nat
  length : Nat
  deriving DecidableEq, Repr

namespace UvPacket

/-- `uv_packet::PACKET_HEAD_LENGTH`. -/
def headLength : Nat := 24

/-- `uv_packet::PACKET_BODY_LENGTH_OFFSET`; no code uses it. -/
def bodyLengthOffset : Nat := 16

/-- `uv_packet::uv_packet()`.  The first assignment to `m_head`, of
`PACKET_HEAD_LENGTH` bytes, is overwritten by the second one. -/
def new (fresh : Fresh) : UvPacket where
  mHead := UvBuf.alloc packetBufferSize
  mBody := ⟨if fresh.bodyNull then .null else .wild, fresh.bodyLen⟩
  mLength := fresh.length

/-- `uv_packet::~uv_packet()`: what the memory of the packet holds then. -/
def free (_ : UvPacket) : UvPacket := ⟨UvBuf.empty, UvBuf.empty, 0⟩

/-- `clear()`. -/
def clear (p : UvPacket) : UvPacket := { p with mHead := p.mHead.zero, mBody := p.mBody.zero }

/-- `clear()` writes through a pointer that was never initialised. -/
def clearsWild (p : UvPacket) : Bool := p.mHead.base = .wild ∨ p.mBody.base = .wild

/-- `bodylength()`: the `unsigned int` at `m_head.base + PACKET_HEAD_LENGTH`. -/
def bodylength (p : UvPacket) : Nat := leNat (slice p.mHead.base.bytes headLength 4)

/-- The test of `on_receive_head`, with the length held in an `int`. -/
def wantsBody (p : UvPacket) : Bool := 0 < toInt32 p.bodylength

/-- `on_alloc_body`: the old body is freed, and a new one is handed out when a
header of exactly `PACKET_HEAD_LENGTH` bytes announced one.  Returns the packet
and the buffer libuv gets. -/
def allocBody (p : UvPacket) : UvPacket × UvBuf :=
  if p.mLength = headLength ∧ 0 < p.bodylength then
    ({ p with mBody := UvBuf.alloc p.bodylength }, UvBuf.alloc p.bodylength)
  else
    ({ p with mBody := UvBuf.empty }, UvBuf.empty)

/-- The test of `on_receive_body`, with `nread` compared with a `size_t`. -/
def completesBody (p : UvPacket) (nread : Int) : Bool := 0 < nread ∧ nread = p.bodylength

/-! ## The header decoders -/

/-- The packet of a session as `on_receive_head` sees it when it decodes a
header: the buffer was cleared, libuv stored the front of `data` in it, and
`m_length` was set to the size of the buffer. -/
def received (data : List UInt8) : UvPacket where
  mHead := (UvBuf.alloc packetBufferSize).fill (data.take packetBufferSize)
  mBody := UvBuf.empty
  mLength := packetBufferSize

/-- The `bodylength` field of a header, at the offset both classes declare. -/
def bodylengthField (head : List UInt8) : Nat := leNat (slice head bodyLengthOffset 4)

/-- The two decoders agree on `head` followed by `rest`: they extract the same
length, and each of the three places that decide whether a body follows decides
that it does exactly when the field is not zero. -/
structure HeaderAgree (head rest : List UInt8) : Prop where
  length : (Packet.ofBytes (some (head ++ rest)) (head ++ rest).length).bodylength =
    some (received (head ++ rest)).bodylength
  onReceiveHead : (received (head ++ rest)).wantsBody = decide (bodylengthField head ≠ 0)
  onAllocBody : (received (head ++ rest)).allocBody.2.isEmpty = decide (bodylengthField head = 0)
  onReceiveBody : (∃ nread, (received (head ++ rest)).completesBody nread = true) ↔
    bodylengthField head ≠ 0

/-- `bodylength()` of a received header is the word made of the first four bytes
behind the header. -/
theorem bodylength_received {head : List UInt8} (h : head.length = headLength)
    (rest : List UInt8) : (received (head ++ rest)).bodylength = leNat (rest.take 4) := by
  have hcut : headLength + 4 ≤ packetBufferSize := by decide
  have hdata : (head ++ rest).take packetBufferSize =
      head ++ rest.take (packetBufferSize - headLength) := by
    rw [List.take_append, h, List.take_of_length_le (by omega)]
  have hbuf : (received (head ++ rest)).mHead.base.bytes =
      copyAt (List.replicate packetBufferSize 0) 0
        (head ++ rest.take (packetBufferSize - headLength)) := by
    rw [← hdata]
    simp only [received, UvBuf.fill, UvBuf.alloc, Base.bytes]
  have hfit : (head ++ rest.take (packetBufferSize - headLength)).length ≤ packetBufferSize := by
    rw [List.length_append, List.length_take]
    omega
  rw [bodylength, hbuf, copyAt_replicate hfit, List.append_assoc, slice_append_of_length h,
    List.take_append, List.take_take, List.take_replicate, Nat.min_eq_left (by omega),
    leNat_append_replicate]

/-- A received header never gets a body buffer: `m_length` is the size of the
receive buffer, not `PACKET_HEAD_LENGTH`. -/
theorem allocBody_received (data : List UInt8) :
    (received data).allocBody.2 = UvBuf.empty := by
  have hlen : ¬ ((received data).mLength = headLength ∧ 0 < (received data).bodylength) := by
    simp [received, packetBufferSize, headLength]
  rw [allocBody, if_neg hlen]

/-- Some read completes the body exactly when the decoded length is positive. -/
theorem exists_completesBody_iff (p : UvPacket) :
    (∃ nread, p.completesBody nread = true) ↔ 0 < p.bodylength := by
  simp only [completesBody, decide_eq_true_eq]
  constructor
  · rintro ⟨nread, hpos, heq⟩
    omega
  · intro h
    exact ⟨p.bodylength, by omega, rfl⟩

/-- **Header agreement**: the two decoders agree on a header exactly when its
`bodylength` field is zero and the four bytes behind the header are zero too.
Any header that announces a body is refused by `on_alloc_body`. -/
theorem headerAgree_iff (head rest : List UInt8) (h : head.length = headLength)
    (hsize : (head ++ rest).length < 2 ^ 64) :
    HeaderAgree head rest ↔ bodylengthField head = 0 ∧ leNat (rest.take 4) = 0 := by
  have hfield : (Packet.ofBytes (some (head ++ rest)) (head ++ rest).length).bodylength =
      some (bodylengthField head) := by
    rw [Packet.bodylength_ofBytes _ (by rw [List.length_append, h]; exact Nat.le_add_right _ _)
      hsize, slice_append_left (by rw [h]; decide)]
    rfl
  have hlen := bodylength_received h rest
  constructor
  · intro hag
    have h0 : bodylengthField head = 0 := by
      have hal := hag.onAllocBody
      rw [allocBody_received] at hal
      exact of_decide_eq_true hal.symm
    refine ⟨h0, ?_⟩
    have heq := hag.length
    rw [hfield, hlen, Option.some.injEq] at heq
    omega
  · rintro ⟨h0, hw⟩
    rw [hw] at hlen
    refine ⟨?_, ?_, ?_, ?_⟩
    · rw [hfield, hlen, h0]
    · rw [wantsBody, hlen, h0]; rfl
    · rw [allocBody_received, h0]; rfl
    · rw [exists_completesBody_iff, hlen, h0]
      exact ⟨fun h => absurd h (Nat.lt_irrefl 0), fun h => absurd rfl h⟩

/-- An empty packet of extra zero bytes is such a header. -/
theorem headerAgree_emptyBody :
    (Packet.header 0 1 0 0).length = headLength ∧
      HeaderAgree (Packet.header 0 1 0 0) [] :=
  ⟨Packet.length_header _ _ _ _,
    (headerAgree_iff _ [] (Packet.length_header _ _ _ _) (by decide)).mpr (by decide)⟩

/-- The header of `packet(1, "hello", 5, 0)`: the field says 5, the receiver reads
the letters of the body as the length. -/
theorem not_headerAgree_hello :
    ¬ HeaderAgree (Packet.header 0 1 5 0) [104, 101, 108, 108, 111] := by
  intro h
  have hal := h.onAllocBody
  rw [allocBody_received] at hal
  exact absurd hal (by decide)

end UvPacket

end GEngine
