import GEngine.Packet.Header

/-!
# GEngine.Packet.Body

`packet::body(data)`.  The two early exits return zero and leave `data` as it was, and
the way through copies one byte more than the length it returns, so that only a packet
whose body is cut off gives what it should.
-/

namespace GEngine

namespace Packet

/-- The body length in the header. -/
def announced (p : Packet) : Nat := leNat (slice p.bytes bodyLengthOffset 4)

/-- The packet holds a body, and all of it. -/
def HasBody (p : Packet) : Prop := headLength + p.announced ≤ p.length ∧ headLength < p.length

/-- What `body(data)` is to do: return the size of what it leaves in `data`, which is the
body of the packet, or nothing if it does not hold one. -/
def BodyExact (p : Packet) (beyond : Nat → UInt8) (data : List UInt8) : Prop :=
  ∃ n out, p.body beyond data = some (n, out) ∧ n = out.length ∧
    (p.HasBody → n = p.announced ∧ out = slice p.bytes bodyOffset p.announced) ∧
    (¬ p.HasBody → n = 0 ∧ out = [])

section Body

variable {p : Packet} {beyond : Nat → UInt8} {data : List UInt8}

/-- `body` of a packet that is no longer than a header. -/
theorem body_short (h : p.length ≤ headLength) : p.body beyond data = some (0, data) := by
  unfold body
  rw [if_pos (by unfold bodyOffset; unfold headLength at h; exact h)]

/-- `body` of a longer packet. -/
theorem body_long (hp : p.Sized) (h : headLength < p.length) :
    p.body beyond data = some
      (if p.length < p.announced then (0, data)
      else if p.length < headLength + p.announced then (0, [])
      else (p.announced, p.load beyond ⟨headLength, p.announced + 1⟩)) := by
  have hfield : p.bodylength = some p.announced := by
    rw [bodylength_eq]
    exact field_of_le hp (by decide) (by unfold bodyLengthOffset; unfold headLength at h; omega)
  unfold body
  unfold headLength at h ⊢
  rw [if_neg (by unfold bodyOffset; omega), hfield, Option.map_some]
  unfold Memorystream.length at h ⊢
  congr 1
  by_cases hlen : p.mLength < p.announced
  · rw [if_pos hlen, if_pos hlen]
  · rw [if_neg hlen, if_neg hlen, Memorystream.readString_eq hp]
    have hoff : ¬ p.mLength < bodyOffset := by
      unfold bodyOffset
      omega
    rw [if_neg hoff]
    unfold bodyOffset
    by_cases hend : p.mLength < 24 + p.announced
    · simp [hend]
    · simp [hend]

/-- A read of one byte too many has one byte too many. -/
theorem length_load (s : Memorystream) (beyond : Nat → UInt8) (a : Span) :
    (s.load beyond a).length = a.count := by
  simp [Memorystream.load]

/-- `body` from any stream. -/
theorem bodyExact_sized (hp : p.Sized) :
    p.BodyExact beyond data ↔
      p.length ≤ headLength ∧ data = [] ∨
        headLength < p.length ∧ p.length < headLength + p.announced ∧
          (p.length < p.announced → data = []) := by
  by_cases hshort : p.length ≤ headLength
  · have hno : ¬ p.HasBody := by
      rintro ⟨-, hlong⟩
      omega
    simp only [BodyExact, body_short hshort, hno]
    constructor
    · rintro ⟨n, out, heq, -, -, hnone⟩
      cases heq
      exact .inl ⟨hshort, (hnone not_false).2⟩
    · rintro (⟨-, rfl⟩ | ⟨hlong, -⟩)
      · exact ⟨0, [], rfl, rfl, False.elim, fun _ => ⟨rfl, rfl⟩⟩
      · omega
  · have hlong : headLength < p.length := by omega
    unfold BodyExact
    rw [body_long hp hlong]
    by_cases hlen : p.length < p.announced
    · have hno : ¬ p.HasBody := by
        rintro ⟨hfits, -⟩
        omega
      rw [if_pos hlen]
      constructor
      · rintro ⟨n, out, heq, -, -, hnone⟩
        cases heq
        exact .inr ⟨hlong, by omega, fun _ => (hnone hno).2⟩
      · rintro (⟨hle, -⟩ | ⟨-, -, hdata⟩)
        · omega
        · rw [hdata hlen]
          exact ⟨0, [], rfl, rfl, fun hbody => absurd hbody hno, fun _ => ⟨rfl, rfl⟩⟩
    · rw [if_neg hlen]
      by_cases hend : p.length < headLength + p.announced
      · have hno : ¬ p.HasBody := by
          rintro ⟨hfits, -⟩
          omega
        rw [if_pos hend]
        constructor
        · intro _
          exact .inr ⟨hlong, hend, fun h => absurd h hlen⟩
        · intro _
          exact ⟨0, [], rfl, rfl, fun hbody => absurd hbody hno, fun _ => ⟨rfl, rfl⟩⟩
      · rw [if_neg hend]
        constructor
        · rintro ⟨n, out, heq, hsize, -, -⟩
          cases heq
          rw [length_load] at hsize
          simp at hsize
        · rintro (⟨hle, -⟩ | ⟨-, hlt, -⟩)
          · omega
          · omega

end Body

/-- **Body**: `body(data)` of a packet in use is exact exactly if the packet is no longer
than its header and `data` was empty, or the announced body is cut off and, should the
announced length alone exceed the packet, `data` was empty. -/
theorem bodyExact_iff (p : Packet) (hp : p.Reached) (beyond : Nat → UInt8)
    (data : List UInt8) :
    p.BodyExact beyond data ↔
      p.length ≤ headLength ∧ data = [] ∨
        headLength < p.length ∧ p.length < headLength + p.announced ∧
          (p.length < p.announced → data = []) :=
  bodyExact_sized (sized_of_reached hp)

/-- `body(data)` of a packet made around a body is exact for an empty body and an empty
`data` only. -/
theorem bodyExact_new (t id extra : Int) (body : Buffer) (hbody : body.bytes.length < 2 ^ 32)
    (beyond : Nat → UInt8) (data : List UInt8) :
    (new t id (some body.bytes) body.bytes.length extra).BodyExact beyond data ↔
      body.bytes = [] ∧ data = [] := by
  obtain ⟨hsized, hbytes⟩ := bytes_new_some t id extra body (by
    unfold headLength ptrdiffMax
    omega)
  have hlen : (new t id (some body.bytes) body.bytes.length extra).length =
      headLength + body.bytes.length := by
    rw [← Memorystream.length_bytes hsized, hbytes, List.length_append, length_header]
  have hannounced : (new t id (some body.bytes) body.bytes.length extra).announced =
      body.bytes.length := by
    unfold announced
    rw [hbytes, slice_append_left (by rw [length_header]; decide),
      (slice_header t id body.bytes.length extra).2.2.2.1, leNat_intImage]
    exact Nat.mod_eq_of_lt hbody
  rw [bodyExact_sized hsized, hlen, hannounced, ← List.length_eq_zero_iff (l := body.bytes)]
  constructor
  · rintro (⟨hle, hdata⟩ | ⟨-, hlt, -⟩)
    · exact ⟨by omega, hdata⟩
    · omega
  · rintro ⟨hzero, hdata⟩
    exact .inl ⟨by omega, hdata⟩

/-- The packet `"abc"` was sent in. -/
def abc : Origin :=
  .body 0 1 3 (some ⟨[97, 98, 99], by decide⟩) 0 (by
    intro b hb
    cases hb
    exact ⟨rfl, by decide⟩)

/-- A packet of which only a header and one byte of three have arrived. -/
def cutOff : Origin :=
  .bytes 25 (some ⟨header 0 1 3 0 ++ [97], by decide⟩) (by
    intro b hb
    cases hb
    rfl)

/-- A body that is cut off is no body. -/
theorem bodyExact_cutOff : cutOff.packet.BodyExact (fun _ => 0) [1] :=
  (bodyExact_iff cutOff.packet ⟨cutOff, [], List.mem_singleton.mpr rfl⟩ (fun _ => 0) [1]).mpr
    (.inr ⟨by decide, by decide, by decide⟩)

/-- The three bytes of a body come out as four, and a packet without a body leaves an old
text in place. -/
theorem not_bodyExact_abc :
    ¬ abc.packet.BodyExact (fun _ => 0) [] ∧
      abc.packet.body (fun _ => 0) [] = some (3, [97, 98, 99, 0]) ∧
      ¬ Origin.empty.packet.BodyExact (fun _ => 0) [1] := by
  have hbody : abc.packet.body (fun _ => 0) [] = some (3, [97, 98, 99, 0]) := by decide
  refine ⟨?_, hbody, ?_⟩
  · rintro ⟨n, out, heq, hsize, -⟩
    rw [hbody] at heq
    cases heq
    exact absurd hsize (by decide)
  · rintro ⟨n, out, heq, hsize, -⟩
    have hempty : Origin.empty.packet.body (fun _ => 0) [1] = some (0, [1]) := by decide
    rw [hempty] at heq
    cases heq
    exact absurd hsize (by decide)

end Packet

end GEngine
