import GEngine.Memorystream.Bounds
import GEngine.Packet

/-!
# GEngine.Packet.Cursor

Packets in use: the constructors, the operations on a packet, and the read cursor
`m_index` along a run of them.

The cursor belongs to `packet` and the length to `memorystream`, and three places let
the cursor get ahead of the length:

* `packet(std::string&)` does not initialise `m_index`;
* `clear()` empties the stream and leaves `m_index` where it is;
* a string read at the end of the stream moves `m_index` one byte past it.

`cursorInside_iff` says that there is no other.
-/

namespace GEngine

namespace Packet

/-! ## Constructors -/

/-- The constructors of `packet`, with arguments for which the memory can be had.  The
memory of a packet made of a `std::string` held `index` where `m_index` is. -/
inductive Origin
  | empty
  | bytes (length : Nat) (data : Option Buffer)
      (backed : ∀ b, data = some b → b.bytes.length = length)
  | string (index : Nat) (data : Buffer) (fits : data.bytes.length < ptrdiffMax)
  | body (t id : Int) (bodylength : Nat) (data : Option Buffer) (extra : Int)
      (backed : ∀ b, data = some b →
        b.bytes.length = bodylength ∧ headLength + bodylength ≤ ptrdiffMax)

/-- The packet that a constructor makes. -/
def Origin.packet : Origin → Packet
  | empty => Packet.empty
  | bytes length data _ => ofBytes (data.map Buffer.bytes) length
  | string index data _ => ofString index data.bytes
  | body t id bodylength data extra _ => new t id (data.map Buffer.bytes) bodylength extra

/-- A full stream is `Sized` if its bytes can be had. -/
theorem sized_full {bs : List UInt8} (h : bs.length ≤ ptrdiffMax) :
    (Memorystream.full bs).Sized :=
  ⟨Nat.le_refl _, h⟩

/-- The packet built from a buffer. -/
theorem ofBytes_buffer (b : Buffer) :
    (ofBytes (some b.bytes) b.bytes.length).Sized ∧
      (ofBytes (some b.bytes) b.bytes.length).bytes = b.bytes ∧
      (ofBytes (some b.bytes) b.bytes.length).length = b.bytes.length := by
  have hfit := b.fits
  have heq := ofBytes_eq b.bytes (lt_of_le_ptrdiffMax hfit)
  rw [heq]
  exact ⟨sized_full hfit, Memorystream.bytes_full _, Memorystream.length_full _⟩

/-- A packet made of a `std::string` holds the string and a terminator. -/
theorem ofString_eq (index : Nat) (data : List UInt8) (h : data.length ≤ ptrdiffMax) :
    ofString index data = { Memorystream.full (data ++ [0]) with mIndex := index } := by
  have hnew : Memorystream.new.clear = Memorystream.full [] := rfl
  have hlen : sizeAdd data.length 1 = (data ++ [0]).length := by
    rw [List.length_append]
    apply sizeAdd_eq
    unfold ptrdiffMax at h
    omega
  unfold ofString Memorystream.appendString
  rw [hnew, hlen, Memorystream.append_full]
  · simp
  · rw [← hlen, List.length_nil, Nat.zero_add]
    exact Nat.mod_lt _ (by decide)

/-- Every packet starts out as a stream that is `Sized`. -/
theorem sized_origin (o : Origin) : o.packet.Sized := by
  cases o with
  | empty => exact Memorystream.sized_new
  | bytes length data backed =>
      cases data with
      | none => exact Memorystream.sized_new
      | some b =>
          have hlen := backed b rfl
          subst hlen
          exact (ofBytes_buffer b).1
  | string index data fits =>
      show (ofString index data.bytes).Sized
      rw [ofString_eq index data.bytes data.fits]
      apply sized_full
      rw [List.length_append, List.length_singleton]
      exact fits
  | body t id bodylength data extra backed =>
      cases data with
      | none =>
          show (new t id none bodylength extra).Sized
          rw [new_none]
          apply sized_full
          rw [length_header]
          decide
      | some b =>
          obtain ⟨hlen, hfit⟩ := backed b rfl
          subst hlen
          show (new t id (some b.bytes) b.bytes.length extra).Sized
          rw [new_some _ _ _ _ (lt_of_le_ptrdiffMax hfit)]
          apply sized_full
          rw [List.length_append, length_header]
          exact hfit

/-! ## Operations -/

/-- The operations on a packet.  A read carries what its destination holds and what the
memory behind the vector holds at the time. -/
inductive Op
  | stream (op : Memorystream.Op)
  | readValue (beyond : Nat → UInt8) (w : Nat)
  | readChars (beyond : Nat → UInt8) (dest : List UInt8) (len : Nat)
  | readString (beyond : Nat → UInt8) (dest : List UInt8) (len : Nat)

/-- What an operation returns. -/
inductive Reply
  | done
  | value (image : List UInt8)
  | status (r : Int) (dest : List UInt8)

/-- One operation; `none` when the `assert` of `read<T>` trips. -/
def step (p : Packet) : Op → Option (Reply × Packet)
  | .stream op => some (.done, { op.apply p.toMemorystream with mIndex := p.mIndex })
  | .readValue beyond w => (p.readValue beyond w).map fun r => (.value r.1, r.2)
  | .readChars beyond dest len =>
      let r := p.readCharsNext beyond dest len
      some (.status r.1 r.2.1, r.2.2)
  | .readString beyond dest len =>
      let r := p.readStringNext beyond dest len
      some (.status r.1 r.2.1, r.2.2)

/-- A sequence of operations, with what they return. -/
def run (p : Packet) : List Op → Option (List Reply × Packet)
  | [] => some ([], p)
  | op :: ops =>
      match p.step op with
      | none => none
      | some (reply, q) => (q.run ops).map fun r => (reply :: r.1, r.2)

/-- All states of a packet along a sequence of operations. -/
def states (p : Packet) : List Op → List Packet
  | [] => [p]
  | op :: ops =>
      match p.step op with
      | none => [p]
      | some (_, q) => p :: q.states ops

/-- A packet in use: a constructor and operations lead to it. -/
def Reached (p : Packet) : Prop := ∃ (o : Origin) (ops : List Op), p ∈ o.packet.states ops

section Reads

variable {p : Packet}

/-- `read<T>()` without the arithmetic of `size_t`, from a cursor in the stream. -/
theorem readValue_eq (hp : p.Sized) (hin : p.mIndex ≤ p.mLength) (beyond : Nat → UInt8)
    (w : Nat) :
    p.readValue beyond w =
      if p.mIndex + w ≤ p.mLength then
        some (slice p.bytes p.mIndex w, { p with mIndex := p.mIndex + w })
      else none := by
  have hmax := hp.mLength_lt
  unfold readValue
  rw [Memorystream.read_eq hp hin]
  by_cases hw : p.mIndex + w ≤ p.mLength
  · rw [if_pos hw, if_pos hw, sizeAdd_eq (by omega), Option.map_some]
  · rw [if_neg hw, if_neg hw, Option.map_none]

/-- `read(char*, len)` without the arithmetic of `size_t`. -/
theorem readCharsNext_eq (hp : p.Sized) (beyond : Nat → UInt8) (dest : List UInt8) (len : Nat) :
    p.readCharsNext beyond dest len =
      if p.mLength ≤ p.mIndex then (1, dest, p)
      else if p.mLength < p.mIndex + len then (2, dest, p)
      else (0, overlay dest (slice p.bytes p.mIndex len),
        { p with mIndex := p.mIndex + len }) := by
  have hmax := hp.mLength_lt
  unfold readCharsNext
  rw [Memorystream.readChars_eq hp]
  by_cases hoff : p.mLength ≤ p.mIndex
  · simp [hoff]
  · by_cases hend : p.mLength < p.mIndex + len
    · simp [hoff, hend]
    · simp [hoff, hend, Memorystream.load_bytes hp (Nat.le_of_not_lt hend),
        sizeAdd_eq (show p.mIndex + len < 2 ^ 64 by omega)]

/-- `read(std::string&, len)` without the arithmetic of `size_t`.  A read that is refused
clears the destination. -/
theorem readStringNext_eq (hp : p.Sized) (beyond : Nat → UInt8) (dest : List UInt8)
    (len : Nat) :
    p.readStringNext beyond dest len =
      if p.mLength < p.mIndex then (1, [], p)
      else if p.mLength < p.mIndex + len then (2, [], p)
      else (0, p.load beyond ⟨p.mIndex, len + 1⟩, { p with mIndex := p.mIndex + (len + 1) }) := by
  have hmax := hp.mLength_lt
  unfold readStringNext
  rw [Memorystream.readString_eq hp]
  by_cases hoff : p.mLength < p.mIndex
  · simp [hoff]
  · by_cases hend : p.mLength < p.mIndex + len
    · simp [hoff, hend]
    · have hone : sizeAdd len 1 = len + 1 := sizeAdd_eq (by omega)
      have hsum : sizeAdd p.mIndex (len + 1) = p.mIndex + (len + 1) := sizeAdd_eq (by omega)
      simp [hoff, hend, hone, hsum]

end Reads

section Step

variable {p q : Packet} {op : Op} {reply : Reply}

/-- A read does not change the stream. -/
theorem stream_of_read (h : p.step op = some (reply, q)) :
    (∃ o, op = .stream o) ∨ q.toMemorystream = p.toMemorystream := by
  cases op with
  | stream o => exact .inl ⟨o, rfl⟩
  | readValue beyond w =>
      right
      simp only [step, readValue, Option.map_map, Option.map_eq_some_iff] at h
      obtain ⟨image, -, heq⟩ := h
      cases heq
      rfl
  | readChars beyond dest len =>
      right
      simp only [step, readCharsNext, Option.some.injEq, Prod.mk.injEq] at h
      obtain ⟨-, rfl⟩ := h
      split
      · rfl
      · rfl
  | readString beyond dest len =>
      right
      simp only [step, readStringNext, Option.some.injEq, Prod.mk.injEq] at h
      obtain ⟨-, rfl⟩ := h
      split
      · rfl
      · rfl

/-- Every operation leaves a stream that is `Sized`. -/
theorem sized_step (hp : p.Sized) (h : p.step op = some (reply, q)) : q.Sized := by
  rcases stream_of_read h with ⟨o, rfl⟩ | heq
  · cases h
    exact Memorystream.sized_apply hp o
  · rw [heq]
    exact hp

/-- All states of a run are `Sized`. -/
theorem sized_states (hp : p.Sized) {ops : List Op} (hq : q ∈ p.states ops) : q.Sized := by
  induction ops generalizing p with
  | nil =>
      rw [states, List.mem_singleton] at hq
      rw [hq]
      exact hp
  | cons op ops ih =>
      cases hstep : p.step op with
      | none =>
          simp only [states, hstep, List.mem_singleton] at hq
          rw [hq]
          exact hp
      | some r =>
          simp only [states, hstep, List.mem_cons] at hq
          cases hq with
          | inl heq =>
              rw [heq]
              exact hp
          | inr hmem => exact ih (sized_step hp hstep) hmem

theorem sized_of_reached (h : p.Reached) : p.Sized := by
  obtain ⟨o, ops, hp⟩ := h
  exact sized_states (sized_origin o) hp

/-- Only `clear` takes bytes away. -/
theorem step_bytes (hp : p.Sized) (hop : op ≠ .stream .clear)
    (h : p.step op = some (reply, q)) : p.bytes <+: q.bytes := by
  rcases stream_of_read h with ⟨o, rfl⟩ | heq
  · cases h
    exact Memorystream.apply_bytes hp fun hclear => hop (by rw [hclear])
  · simp only [heq, List.prefix_rfl]

end Step

/-! ## The cursor -/

/-- The cursor stays inside the stream, in every state of a run. -/
def CursorInside (p : Packet) (ops : List Op) : Prop :=
  ∀ q ∈ p.states ops, q.mIndex ≤ q.mLength

/-- The constructor leaves the cursor in the stream: any but `packet(std::string&)` does,
and that one does when its memory happened to hold a small number there. -/
def Origin.Careful : Origin → Prop
  | string index data _ => index ≤ data.bytes.length + 1
  | _ => True

/-- The stream is cleared only while nothing was read, and a string read does not ask for
all that is left. -/
def Op.Careful (p : Packet) : Op → Prop
  | .stream .clear => p.mIndex = 0
  | .readString _ _ len => p.mIndex + len ≠ p.mLength
  | _ => True

/-- Every operation of a run is careful in the state it finds. -/
def CarefulRun (p : Packet) : List Op → Prop
  | [] => True
  | op :: ops => op.Careful p ∧ ∀ reply q, p.step op = some (reply, q) → q.CarefulRun ops

section Cursor

variable {p q : Packet} {op : Op} {reply : Reply}

/-- Where the cursor is at first. -/
theorem origin_iff (o : Origin) : o.packet.mIndex ≤ o.packet.mLength ↔ o.Careful := by
  cases o with
  | empty => simp [Origin.packet, Origin.Careful, Packet.empty]
  | bytes length data backed => simp [Origin.packet, Origin.Careful, ofBytes]
  | string index data fits =>
      simp only [Origin.packet, Origin.Careful, ofString_eq index data.bytes data.fits]
      simp [Memorystream.full]
  | body t id bodylength data extra backed => simp [Origin.packet, Origin.Careful, new]

/-- The bytes of a packet can be had. -/
theorem length_bytes_le (hp : p.Sized) : p.bytes.length ≤ ptrdiffMax := by
  rw [Memorystream.length_bytes hp]
  exact Nat.le_trans hp.inside hp.fits

/-- What an operation on the stream does to its length. -/
theorem mLength_apply (hp : p.Sized) {o : Memorystream.Op} (ho : o ≠ .clear) :
    p.mLength ≤ (o.apply p.toMemorystream).mLength := by
  have hlen := (Memorystream.apply_bytes hp ho).length_le
  rw [Memorystream.length_bytes hp, Memorystream.length_bytes (Memorystream.sized_apply hp o)]
    at hlen
  exact hlen

/-- A cursor in the stream stays there over a typed read. -/
theorem readValue_inside (hp : p.Sized) (hin : p.mIndex ≤ p.mLength) {beyond : Nat → UInt8}
    {w : Nat} {image : List UInt8} (h : p.readValue beyond w = some (image, q)) :
    q.mIndex ≤ q.mLength := by
  rw [readValue_eq hp hin] at h
  split at h
  · next hw =>
      cases h
      exact hw
  · cases h

/-- A cursor in the stream stays there over a read of characters. -/
theorem readChars_inside (hp : p.Sized) (hin : p.mIndex ≤ p.mLength) (beyond : Nat → UInt8)
    (dest : List UInt8) (len : Nat) :
    (p.readCharsNext beyond dest len).2.2.mIndex ≤
      (p.readCharsNext beyond dest len).2.2.mLength := by
  rw [readCharsNext_eq hp]
  split
  · exact hin
  · split
    · exact hin
    · next hoff hend => exact Nat.le_of_not_lt hend

/-- A cursor in the stream leaves it over a string read that takes all that is left, and
over no other. -/
theorem readString_inside (hp : p.Sized) (hin : p.mIndex ≤ p.mLength) (beyond : Nat → UInt8)
    (dest : List UInt8) (len : Nat) :
    (p.readStringNext beyond dest len).2.2.mIndex ≤
      (p.readStringNext beyond dest len).2.2.mLength ↔ p.mIndex + len ≠ p.mLength := by
  have hoff : ¬ p.mLength < p.mIndex := by omega
  rw [readStringNext_eq hp, if_neg hoff]
  by_cases hend : p.mLength < p.mIndex + len
  · simp only [if_pos hend]
    omega
  · simp only [if_neg hend]
    omega

/-- A cursor in the stream stays there over one operation exactly if the operation is
careful. -/
theorem careful_iff (hp : p.Sized) (hin : p.mIndex ≤ p.mLength)
    (h : p.step op = some (reply, q)) : q.mIndex ≤ q.mLength ↔ op.Careful p := by
  cases op with
  | stream o =>
      cases h
      cases o with
      | clear => simp [Op.Careful, Memorystream.Op.apply, Memorystream.clear]
      | append a =>
          have hle := mLength_apply (o := .append a) hp (by simp)
          simpa [Op.Careful] using Nat.le_trans hin hle
      | resize n =>
          have hle := mLength_apply (o := .resize n) hp (by simp)
          simpa [Op.Careful] using Nat.le_trans hin hle
      | reserve size =>
          simpa [Op.Careful, Memorystream.Op.apply, Memorystream.reserve] using hin
  | readValue beyond w =>
      obtain ⟨⟨image, q'⟩, hread, heq⟩ := Option.map_eq_some_iff.mp h
      cases heq
      simpa [Op.Careful] using readValue_inside hp hin hread
  | readChars beyond dest len =>
      cases h
      simpa [Op.Careful] using readChars_inside hp hin beyond dest len
  | readString beyond dest len =>
      cases h
      exact readString_inside hp hin beyond dest len

/-- The cursor along a run, from any packet. -/
theorem cursorInside_run (hp : p.Sized) (ops : List Op) :
    p.CursorInside ops ↔ p.mIndex ≤ p.mLength ∧ p.CarefulRun ops := by
  induction ops generalizing p with
  | nil => simp [CursorInside, states, CarefulRun]
  | cons op ops ih =>
      cases hstep : p.step op with
      | none =>
          have hcare : op.Careful p := by
            cases op with
            | readValue beyond w => trivial
            | stream o => cases hstep
            | readChars beyond dest len => cases hstep
            | readString beyond dest len => cases hstep
          simp [CursorInside, states, CarefulRun, hstep, hcare]
      | some r =>
          obtain ⟨reply, q⟩ := r
          have hq : q.CursorInside ops ↔ q.mIndex ≤ q.mLength ∧ q.CarefulRun ops :=
            ih (sized_step hp hstep)
          have hsplit : p.CursorInside (op :: ops) ↔
              p.mIndex ≤ p.mLength ∧ q.CursorInside ops := by
            simp [CursorInside, states, hstep]
          rw [hsplit, hq]
          constructor
          · rintro ⟨hin, hqin, hrun⟩
            refine ⟨hin, (careful_iff hp hin hstep).mp hqin, fun reply' q' h' => ?_⟩
            rw [hstep] at h'
            cases h'
            exact hrun
          · rintro ⟨hin, hcare, hrun⟩
            exact ⟨hin, (careful_iff hp hin hstep).mpr hcare, hrun reply q hstep⟩

/-- **Cursor**: from every constructor and over every sequence of operations, the cursor is
inside the stream in all states exactly if the constructor and all operations are
careful. -/
theorem cursorInside_iff (o : Origin) (ops : List Op) :
    o.packet.CursorInside ops ↔ o.Careful ∧ o.packet.CarefulRun ops := by
  rw [cursorInside_run (sized_origin o) ops, origin_iff]

/-- A packet of four bytes. -/
def Origin.fourBytes : Origin :=
  .bytes 4 (some ⟨[5, 6, 7, 8], by decide⟩) (by
    intro b hb
    cases hb
    rfl)

/-- A string read of all four bytes moves the cursor to the fifth; `clear` after a typed
read leaves it at the fourth of none; and a packet made of an empty string may have it
anywhere. -/
theorem not_cursorInside_ends :
    ¬ Origin.fourBytes.packet.CursorInside [.readString (fun _ => 0) [] 4] ∧
      ¬ Origin.fourBytes.packet.CursorInside [.readValue (fun _ => 0) 4, .stream .clear] ∧
      ¬ (Origin.string 2 ⟨[], by decide⟩ (by decide)).packet.CursorInside [] := by
  refine ⟨fun h => ?_, fun h => ?_, fun h => ?_⟩
  · exact absurd (h ⟨⟨[5, 6, 7, 8], 4⟩, 5⟩ (by decide)) (by decide)
  · exact absurd (h ⟨⟨[], 0⟩, 4⟩ (by decide)) (by decide)
  · exact absurd (h ⟨⟨[0], 1⟩, 2⟩ (by decide)) (by decide)

end Cursor

end Packet

end GEngine
