import GEngine.Packet.Body
import GEngine.Packet.ReadBack
import GEngine.Pb.Roundtrip

/-!
# GEngine.Packet.Message

Messages in packets.

There are two ways to put one into a packet and to take it out again: as the body of the
packet, which `body(data)` copies out, or as a string, which `read(dest, len)` reads back.
Both hand out one byte more than was put in, and the parser does not accept a byte behind
a message (`message_in_body`, `message_in_string`).  In the first `byteSize` bytes the
message is there both times.
-/

namespace GEngine

open Pb

namespace Packet

/-! ## The body of a packet -/

/-- A packet that was received as it was built. -/
structure Carries (p : Packet) (t id extra : Int) (body : List UInt8) : Prop where
  sized : p.Sized
  bytes : p.bytes = header t id body.length extra ++ body

theorem carries_new (t id extra : Int) (body : Buffer) (h : body.bytes.length < 2 ^ 32) :
    Carries (new t id (some body.bytes) body.bytes.length extra) t id extra body.bytes := by
  obtain ⟨hsized, hbytes⟩ := bytes_new_some t id extra body (by
    unfold headLength ptrdiffMax
    omega)
  exact ⟨hsized, hbytes⟩

/-- The packet that the receiver makes of the bytes. -/
theorem Carries.ofBytes {p : Packet} {t id extra : Int} {body : List UInt8}
    (h : Carries p t id extra body) :
    Carries (Packet.ofBytes (some p.bytes) p.length) t id extra body := by
  obtain ⟨hsized, hbytes, -⟩ := ofBytes_buffer ⟨p.bytes, length_bytes_le h.sized⟩
  have hlen : p.bytes.length = p.length := Memorystream.length_bytes h.sized
  simp only [hlen] at hsized hbytes
  exact ⟨hsized, hbytes.trans h.bytes⟩

section Carries

variable {p : Packet} {t id extra : Int} {body : List UInt8}

theorem Carries.length_eq (h : Carries p t id extra body) :
    p.length = headLength + body.length := by
  rw [← Memorystream.length_bytes h.sized, h.bytes, List.length_append, length_header]

theorem Carries.announced_eq (h : Carries p t id extra body) (hlt : body.length < 2 ^ 32) :
    p.announced = body.length := by
  rw [announced, h.bytes, slice_append_left (by rw [length_header]; decide),
    (slice_header t id body.length extra).2.2.2.1, leNat_intImage]
  exact Nat.mod_eq_of_lt hlt

/-- `body(data)` gives the body, and the byte of memory that is behind it. -/
theorem Carries.body_eq (h : Carries p t id extra body) (hlt : body.length < 2 ^ 32)
    (hpos : body ≠ []) (beyond : Nat → UInt8) (data : List UInt8) :
    ∃ b, p.body beyond data = some (body.length, body ++ [b]) := by
  have hlen := h.length_eq
  have hann := h.announced_eq hlt
  have hbody : 0 < body.length := List.length_pos_of_ne_nil hpos
  have hlong : headLength < p.length := by omega
  have hfront : p.load beyond ⟨headLength, body.length⟩ = body := by
    have hmem : headLength + body.length ≤ p.mLength := hlen.ge
    rw [Memorystream.load_bytes h.sized hmem, h.bytes,
      slice_append_of_length (length_header t id body.length extra), List.take_length]
  -- one more byte is loaded than the body has
  have hload : p.load beyond ⟨headLength, body.length + 1⟩ =
      body ++ p.load beyond ⟨headLength + body.length, 1⟩ := by
    conv_rhs => rw [← hfront]
    simp [Memorystream.load, List.range'_concat]
  refine ⟨p.mData[headLength + body.length]?.getD (beyond (headLength + body.length)), ?_⟩
  rw [body_long h.sized hlong, hann, if_neg (by omega), if_neg (by omega), hload]
  simp [Memorystream.load]

/-- `body` of a packet that carries nothing leaves the string it is given alone. -/
theorem Carries.body_nil (h : Carries p t id extra body) (hnil : body = [])
    (beyond : Nat → UInt8) (data : List UInt8) : p.body beyond data = some (0, data) := by
  have hlen := h.length_eq
  have hshort : p.length ≤ bodyOffset := by
    rw [hlen, hnil]
    exact Nat.le_refl _
  rw [Packet.body, if_pos hshort]

end Carries

section Messages

variable {M : Type} {T : MessageType M} {S : Schema M} {Valid : Nat → M → Prop}

/-- What was serialized, as bytes for a packet. -/
theorem serialized_fits (h : Generated T S Valid) (m : M)
    (hsize : T.byteSize m + 1 < kDefaultTotalBytesLimit) :
    (T.serializeWithCachedSizesToArray m).length < 2 ^ 31 := by
  have hlen := h.lawful.size m
  have hlt := size_lt hsize
  omega

/-- **Messages as bodies**: a message is sent as the body of a packet, and the receiver makes
a packet of the bytes.  Of what `body` hands out for it, as many bytes as `body` returns
are the message.  The whole is not accepted, unless the message takes no bytes at all: then
the string is the one the caller came with. -/
theorem message_in_body (h : Generated T S Valid) (m : M) (hm : Valid defaultRecursionLimit m)
    (hsize : T.byteSize m + 1 < kDefaultTotalBytesLimit)
    (t id extra : Int) (beyond : Nat → UInt8) (data : List UInt8) :
    ∃ proto sent, T.serializeToString m = some proto ∧
      sent = Packet.new t id (some proto) proto.length extra ∧
      ∃ n out, (Packet.ofBytes (some sent.bytes) sent.length).body beyond data = some (n, out) ∧
        T.parseFromString (out.take n) = (true, m) ∧
        (0 < T.byteSize m → (T.parseFromString out).1 = false) ∧
        (T.byteSize m = 0 → out = data) := by
  have hT := h.lawful
  have hlen := hT.size m
  have hfits := serialized_fits h m hsize
  have hback := parseFromString_serialize hT hm (m := m) (by omega)
  refine ⟨_, _, serializeToString_eq hT m, rfl, ?_⟩
  have hcarries := (carries_new t id extra ⟨T.serializeWithCachedSizesToArray m, by
    unfold ptrdiffMax
    omega⟩ (by simp only; omega)).ofBytes
  by_cases hnil : T.serializeWithCachedSizesToArray m = []
  · rw [hnil, List.length_nil] at hlen
    have hbody := hcarries.body_nil hnil beyond data
    refine ⟨_, _, hbody, ?_, fun hpos => absurd hlen (Nat.ne_of_gt hpos), fun _ => rfl⟩
    rw [List.take_zero, ← hnil]
    exact hback
  · obtain ⟨b, hbody⟩ := hcarries.body_eq (by simp only; omega) hnil beyond data
    have hpos : 0 < T.byteSize m := by
      rw [hlen]
      exact List.length_pos_of_ne_nil hnil
    refine ⟨_, _, hbody, ?_, fun _ => ?_, fun hzero => absurd hzero (Nat.ne_of_gt hpos)⟩
    · rw [List.take_left]
      exact hback
    · exact parseFromString_byte hT h.needsBytes hm b (by
        rw [List.length_append, List.length_singleton]
        omega)

/-- A login that succeeded is refused, with any byte behind it. -/
theorem message_in_body_login :
    ∃ proto sent, CsLoginReturn.messageType.serializeToString ⟨some 1, some [116], none, []⟩ =
        some proto ∧
      sent = Packet.new 0 101 (some proto) proto.length 0 ∧
      ∃ n out, (Packet.ofBytes (some sent.bytes) sent.length).body (fun _ => 7) [] = some (n, out) ∧
        CsLoginReturn.messageType.parseFromString (out.take n) =
          (true, ⟨some 1, some [116], none, []⟩) ∧
        (CsLoginReturn.messageType.parseFromString out).1 = false := by
  obtain ⟨proto, sent, hproto, hsent, n, out, hbody, hparse, hrefused, -⟩ :=
    message_in_body .csLoginReturn ⟨some 1, some [116], none, []⟩ (Schema.unknown_nil _ _)
      (by decide) 0 101 0 (fun _ => 7) []
  exact ⟨proto, sent, hproto, hsent, n, out, hbody, hparse, hrefused (by decide)⟩

/-- **Messages as strings**: a message is written into a packet as a string, between any other
items, and read back at its place.  The message is there, but it is not accepted. -/
theorem message_in_string (h : Generated T S Valid) (m : M) (hm : Valid defaultRecursionLimit m)
    (hsize : T.byteSize m + 1 < kDefaultTotalBytesLimit) (before after : List Packet.Entry)
    (dest : List UInt8) (beyond : Nat → UInt8) (str : Buffer)
    (hstr : T.serializeToString m = some str.bytes)
    (hfits : (itemBytes (before ++ ⟨.text str, dest, beyond⟩ :: after)).length ≤ ptrdiffMax) :
    ∃ p q replies out,
      Packet.empty.run ((before ++ ⟨.text str, dest, beyond⟩ :: after).map Entry.write) =
        some ((before ++ ⟨.text str, dest, beyond⟩ :: after).map fun _ => .done, p) ∧
      p.run (before.map Entry.read) = some (replies, q) ∧
      (q.readStringNext beyond dest str.bytes.length).2.1 = out ∧
      T.parseFromString out = (false, m) ∧
        T.parseFromString (out.take str.bytes.length) = (true, m) := by
  have hT := h.lawful
  have hlen := hT.size m
  rw [serializeToString_eq hT m, Option.some.injEq] at hstr
  obtain ⟨p, q, replies, hwrite, hread, hout⟩ := string_read hfits rfl
  refine ⟨p, q, replies, _, hwrite, hread, hout, ?_, ?_⟩
  · rw [← hstr]
    exact parseFromString_zero hT hm (by
      rw [List.length_append, List.length_singleton]
      omega)
  · rw [List.take_left, ← hstr]
    exact parseFromString_serialize hT hm (by omega)

/-- A login request behind an `int`. -/
theorem message_in_string_login :
    ∃ p q replies out,
      Packet.empty.run ([⟨.scalar ⟨[9, 0, 0, 0], by decide⟩, [], fun _ => 0⟩,
          ⟨.text ⟨[18, 1, 71], by decide⟩, [], fun _ => 0⟩].map Entry.write) =
        some ([.done, .done], p) ∧
      p.run [.readValue (fun _ => 0) 4] = some (replies, q) ∧
      (q.readStringNext (fun _ => 0) [] 3).2.1 = out ∧
      CsLoginRequest.messageType.parseFromString out = (false, ⟨some [71], none, []⟩) ∧
      CsLoginRequest.messageType.parseFromString (out.take 3) = (true, ⟨some [71], none, []⟩) :=
  message_in_string .csLoginRequest ⟨some [71], none, []⟩ (Schema.unknown_nil _ _) (by decide)
    [⟨.scalar ⟨[9, 0, 0, 0], by decide⟩, [], fun _ => 0⟩] [] [] (fun _ => 0)
    ⟨[18, 1, 71], by decide⟩ rfl (by decide)

end Messages

end Packet

end GEngine
