import GEngine.Packet.Cursor

/-!
# GEngine.Packet.Header

The header fields, written in sequence and read at fixed offsets.

* `roundTrip_header`: the fields come back, also from a packet rebuilt from the bytes and
  after appends and reads.
* `consistent_iff`: when the length in the header is the number of bytes behind it.
* `total_iff`: for which lengths the accessors do not trip the assertion of `read<T>`.  An
  accessor is guarded by the start of its field and the assertion by its end, so a packet
  that ends inside a field is let through to the assertion.
-/

namespace GEngine

namespace Packet

/-! ## Fields -/

section Field

variable {α : Type} [Zero α] {p : Packet} {w offset : Nat} {decode : List UInt8 → α}

/-- **Fields**: an accessor in terms of the bytes in use. -/
theorem field_eq (hp : p.Sized) (w offset : Nat) (decode : List UInt8 → α) :
    p.field w offset decode =
      if p.length ≤ offset then some 0
      else if offset + w ≤ p.length then some (decode (slice p.bytes offset w))
      else none := by
  unfold field
  by_cases hoff : p.length ≤ offset
  · rw [if_pos hoff, if_pos hoff]
  · rw [if_neg hoff, if_neg hoff]
    unfold Memorystream.length at hoff ⊢
    rw [Memorystream.read_eq hp (Nat.le_of_not_le hoff)]
    by_cases hend : offset + w ≤ p.mLength
    · rw [if_pos hend, if_pos hend, Option.map_some]
    · rw [if_neg hend, if_neg hend, Option.map_none]

/-- An accessor trips the assertion when the packet ends inside the field. -/
theorem field_ne_none (hp : p.Sized) :
    p.field w offset decode ≠ none ↔ p.length ≤ offset ∨ offset + w ≤ p.length := by
  rw [field_eq hp]
  by_cases hoff : p.length ≤ offset
  · simp [hoff]
  · by_cases hend : offset + w ≤ p.length
    · simp [hoff, hend]
    · simp [hoff, hend]

/-- The field of a packet that is long enough. -/
theorem field_of_le (hp : p.Sized) (hw : 0 < w) (h : offset + w ≤ p.length) :
    p.field w offset decode = some (decode (slice p.bytes offset w)) := by
  rw [field_eq hp, if_neg (by omega), if_pos h]

theorem bodylength_eq (p : Packet) : p.bodylength = p.field 4 bodyLengthOffset leNat := rfl

end Field

/-! ## Writing and reading a header -/

/-- An `int` read back from its object representation. -/
theorem intOf_intImage (i : Int) : intOf (intImage i) = Int.bmod i (2 ^ 32) := by
  have hpos : 0 ≤ i % 2 ^ 32 := by omega
  have hword : leNat (intImage i) = (i % 2 ^ 32).toNat := by
    rw [intImage, leNat_leBytes]
    apply Nat.mod_eq_of_lt
    omega
  unfold intOf toInt32
  rw [hword, Int.toNat_of_nonneg hpos]
  simp only [Int.bmod]
  omega

/-- A length read back from the object representation of the `int` it was cut to. -/
theorem leNat_intImage (n : Nat) : leNat (intImage n) = n % 2 ^ 32 := by
  rw [intImage, leNat_leBytes]
  omega

/-- A `time_t` read back from its object representation. -/
theorem timeOf_timeImage (t : Int) : timeOf (timeImage t) = Int.bmod t (2 ^ 64) := by
  have hpos : 0 ≤ t % 2 ^ 64 := by omega
  have hword : leNat (timeImage t) = (t % 2 ^ 64).toNat := by
    rw [timeImage, leNat_leBytes]
    apply Nat.mod_eq_of_lt
    omega
  unfold timeOf toInt64
  rw [hword, Int.toNat_of_nonneg hpos]
  simp only [Int.bmod]
  omega

/-- The accessors return these fields. -/
structure HasHeader (p : Packet) (t id : Int) (n : Nat) (extra : Int) : Prop where
  id : p.id = some id
  version : p.getVersion = some version
  time : p.time = some t
  bodylength : p.bodylength = some n
  extra : p.extra = some extra

section Header

variable {p : Packet} {t id extra : Int} {n : Nat}

/-- The images stand in the header where the accessors look for them. -/
theorem slice_header (t id : Int) (n : Nat) (extra : Int) :
    slice (header t id n extra) idOffset 4 = intImage id ∧
      slice (header t id n extra) versionOffset 4 = intImage version ∧
      slice (header t id n extra) timestampOffset 8 = timeImage t ∧
      slice (header t id n extra) bodyLengthOffset 4 = intImage n ∧
      slice (header t id n extra) extraOffset 4 = intImage extra := by
  have htake (i : Int) : (intImage i).take 4 = intImage i :=
    List.take_of_length_le (by simp)
  have htakeTime : (timeImage t).take 8 = timeImage t := List.take_of_length_le (by simp)
  unfold header idOffset versionOffset timestampOffset bodyLengthOffset extraOffset
  refine ⟨?_, ?_, ?_, ?_, ?_⟩
  · rw [slice_append_left (by simp), slice_append_left (by simp), slice_append_left (by simp),
      slice_append_left (by simp)]
    exact htake id
  · rw [slice_append_left (by simp), slice_append_left (by simp), slice_append_left (by simp),
      slice_append_of_length (by simp), htake]
  · rw [slice_append_left (by simp), slice_append_left (by simp),
      slice_append_of_length (by simp), htakeTime]
  · rw [slice_append_left (by simp), slice_append_of_length (by simp), htake]
  · rw [slice_append_of_length (by simp), htake]

/-- A field of a packet that starts with a header is a field of the header. -/
theorem field_of_header {α : Type} [Zero α] (hp : p.Sized) (h : header t id n extra <+: p.bytes)
    {w offset : Nat} (decode : List UInt8 → α) (hw : 0 < w) (hend : offset + w ≤ headLength) :
    p.field w offset decode = some (decode (slice (header t id n extra) offset w)) := by
  obtain ⟨rest, hrest⟩ := h
  have hlen : headLength ≤ p.length := by
    have hcount := congrArg List.length hrest
    rw [List.length_append, length_header, Memorystream.length_bytes hp] at hcount
    omega
  rw [field_of_le hp hw (by omega), ← hrest, slice_append_left (by rw [length_header]; exact hend)]

/-- The accessors on a packet that starts with a header. -/
theorem hasHeader_cut (hp : p.Sized) (h : header t id n extra <+: p.bytes) :
    p.HasHeader (Int.bmod t (2 ^ 64)) (Int.bmod id (2 ^ 32)) (n % 2 ^ 32)
      (Int.bmod extra (2 ^ 32)) := by
  obtain ⟨hid, hversion, htime, hlength, hextra⟩ := slice_header t id n extra
  constructor
  · rw [Packet.id, field_of_header hp h intOf (by decide) (by decide), hid, intOf_intImage]
  · rw [getVersion, field_of_header hp h intOf (by decide) (by decide), hversion,
      intOf_intImage]
    rfl
  · rw [Packet.time, field_of_header hp h timeOf (by decide) (by decide), htime,
      timeOf_timeImage]
  · rw [bodylength_eq, field_of_header hp h leNat (by decide) (by decide), hlength,
      leNat_intImage]
  · rw [Packet.extra, field_of_header hp h intOf (by decide) (by decide), hextra,
      intOf_intImage]

/-- The fields of a packet that starts with a header made of machine integers. -/
theorem hasHeader_exact {id extra : Int32} {t : Int64} (hp : p.Sized)
    (h : header t.toInt id.toInt n extra.toInt <+: p.bytes) (hn : n < 2 ^ 32) :
    p.HasHeader t.toInt id.toInt n extra.toInt := by
  have hcut := hasHeader_cut hp h
  have ht : Int.bmod t.toInt (2 ^ 64) = t.toInt := Int64.toInt_bmod t
  have hid : Int.bmod id.toInt (2 ^ 32) = id.toInt := Int32.toInt_bmod id
  have hextra : Int.bmod extra.toInt (2 ^ 32) = extra.toInt := Int32.toInt_bmod extra
  rw [ht, hid, hextra, Nat.mod_eq_of_lt hn] at hcut
  exact hcut

end Header

/-! ## Round trip -/

/-- The packets that come from `p` by appends and reads, and by rebuilding a packet from
its bytes. -/
inductive Derived (p : Packet) : Packet → Prop
  | self : Derived p p
  | step {q r : Packet} {op : Op} {reply : Reply} (hq : Derived p q)
      (hop : op ≠ .stream .clear) (h : q.step op = some (reply, r)) : Derived p r
  | rebuilt {q : Packet} (hq : Derived p q) : Derived p (ofBytes (some q.bytes) q.length)

/-- The bytes of a packet, imported. -/
theorem ofBytes_bytes {q : Packet} (hq : q.Sized) :
    (ofBytes (some q.bytes) q.length).Sized ∧
      (ofBytes (some q.bytes) q.length).bytes = q.bytes := by
  obtain ⟨hsized, hbytes, -⟩ := ofBytes_buffer ⟨q.bytes, length_bytes_le hq⟩
  rw [← Memorystream.length_bytes hq]
  exact ⟨hsized, hbytes⟩

/-- The bytes of a packet are still there in all that comes from it. -/
theorem derived_bytes {p q : Packet} (hp : p.Sized) (h : Derived p q) :
    q.Sized ∧ p.bytes <+: q.bytes := by
  induction h with
  | self => exact ⟨hp, List.prefix_rfl⟩
  | step _ hop hstep ih => exact ⟨sized_step ih.1 hstep, ih.2.trans (step_bytes ih.1 hop hstep)⟩
  | rebuilt _ ih =>
      obtain ⟨hsized, hbytes⟩ := ofBytes_bytes ih.1
      exact ⟨hsized, by rw [hbytes]; exact ih.2⟩

/-- The packet without a body. -/
theorem bytes_new_none (t id extra : Int) (n : Nat) :
    (new t id none n extra).Sized ∧ (new t id none n extra).bytes = header t id n extra := by
  have hsized := sized_origin (.body t id n none extra (by simp))
  refine ⟨hsized, ?_⟩
  rw [new_none]
  exact Memorystream.bytes_full _

/-- The packet around a body that is there. -/
theorem bytes_new_some (t id extra : Int) (body : Buffer)
    (h : headLength + body.bytes.length ≤ ptrdiffMax) :
    (new t id (some body.bytes) body.bytes.length extra).Sized ∧
      (new t id (some body.bytes) body.bytes.length extra).bytes =
        header t id body.bytes.length extra ++ body.bytes := by
  have hsized := sized_origin (.body t id body.bytes.length (some body) extra (by
    intro b hb
    cases hb
    exact ⟨rfl, h⟩))
  refine ⟨hsized, ?_⟩
  rw [new_some t id extra body.bytes (lt_of_le_ptrdiffMax h)]
  exact Memorystream.bytes_full _

/-- A packet, with a body or without, starts with its header. -/
theorem header_new (t id extra : Int) (body : Option Buffer) (n : Nat) (hn : n < 2 ^ 32)
    (hbody : ∀ b, body = some b → b.bytes.length = n) :
    (new t id (body.map Buffer.bytes) n extra).Sized ∧
      header t id n extra <+: (new t id (body.map Buffer.bytes) n extra).bytes := by
  cases body with
  | none =>
      obtain ⟨hsized, hbytes⟩ := bytes_new_none t id extra n
      simp only [Option.map_none]
      rw [hbytes]
      exact ⟨hsized, List.prefix_rfl⟩
  | some b =>
      have hlen := hbody b rfl
      subst hlen
      obtain ⟨hsized, hbytes⟩ := bytes_new_some t id extra b (by
        unfold headLength ptrdiffMax
        omega)
      simp only [Option.map_some]
      rw [hbytes]
      exact ⟨hsized, List.prefix_append _ _⟩

/-- **Header round trip**: the length and the fields of a packet are those it was made
with, and all packets that come from it have the same fields. -/
theorem roundTrip_header (id extra : Int32) (t : Int64) (body : Buffer)
    (hbody : body.bytes.length < 2 ^ 32) :
    (new t.toInt id.toInt (some body.bytes) body.bytes.length extra.toInt).length =
        headLength + body.bytes.length ∧
      ∀ q, Derived (new t.toInt id.toInt (some body.bytes) body.bytes.length extra.toInt) q →
        q.HasHeader t.toInt id.toInt body.bytes.length extra.toInt := by
  have hfit : headLength + body.bytes.length ≤ ptrdiffMax := by
    unfold headLength ptrdiffMax
    omega
  obtain ⟨hsized, hbytes⟩ := bytes_new_some t.toInt id.toInt extra.toInt body hfit
  constructor
  · rw [← Memorystream.length_bytes hsized, hbytes, List.length_append, length_header]
  · intro q hq
    obtain ⟨hqsized, hpre⟩ := derived_bytes hsized hq
    rw [hbytes] at hpre
    exact hasHeader_exact hqsized ((List.prefix_append _ _).trans hpre) hbody

/-- The round trip of a small packet with a negative id. -/
theorem roundTrip_header_small :
    (new (5 : Int64).toInt (-7 : Int32).toInt (some [1, 2, 3]) 3 (9 : Int32).toInt).length =
        headLength + 3 ∧
      ∀ q, Derived
        (new (5 : Int64).toInt (-7 : Int32).toInt (some [1, 2, 3]) 3 (9 : Int32).toInt) q →
        q.HasHeader (5 : Int64).toInt (-7 : Int32).toInt 3 (9 : Int32).toInt :=
  roundTrip_header (-7) 9 5 ⟨[1, 2, 3], by decide⟩ (by decide)

/-! ## The announced length -/

/-- The arguments that `packet(id, body, bodylength, extra)` accepts: the memory it reserves
can be had, and a body that is not null is there in full. -/
structure Accepted (body : Option Buffer) (bodylength : Nat) : Prop where
  wide : bodylength < 2 ^ 64
  reserved : sizeAdd headLength bodylength ≤ ptrdiffMax
  backed : ∀ b, body = some b → b.bytes.length = bodylength

/-- The header announces as many bytes as follow it. -/
def Consistent (p : Packet) : Prop := ∃ n, p.bodylength = some n ∧ p.length = headLength + n

/-- A packet that starts with a header, and the length it announces. -/
theorem consistent_of_header {p : Packet} {t id extra : Int} {n : Nat} (hp : p.Sized)
    (h : header t id n extra <+: p.bytes) :
    p.Consistent ↔ p.length = headLength + n % 2 ^ 32 := by
  have hlength := (hasHeader_cut hp h).bodylength
  unfold Consistent
  rw [hlength]
  constructor
  · rintro ⟨k, hk, hlen⟩
    cases hk
    exact hlen
  · intro hlen
    exact ⟨_, rfl, hlen⟩

/-- A packet without a body. -/
theorem consistent_none (t id extra : Int) (n : Nat) :
    (new t id none n extra).Consistent ↔ n % 2 ^ 32 = 0 := by
  obtain ⟨hsized, hbytes⟩ := bytes_new_none t id extra n
  have hfront : header t id n extra <+: (new t id none n extra).bytes := by
    simp only [hbytes, List.prefix_rfl]
  rw [consistent_of_header hsized hfront,
    ← Memorystream.length_bytes hsized, hbytes, length_header]
  omega

/-- A packet with a body. -/
theorem consistent_some (t id extra : Int) (body : Buffer)
    (h : headLength + body.bytes.length ≤ ptrdiffMax) :
    (new t id (some body.bytes) body.bytes.length extra).Consistent ↔
      body.bytes.length < 2 ^ 32 := by
  obtain ⟨hsized, hbytes⟩ := bytes_new_some t id extra body h
  rw [consistent_of_header hsized (by rw [hbytes]; exact List.prefix_append _ _),
    ← Memorystream.length_bytes hsized, hbytes, List.length_append, length_header]
  omega

/-- **Announced length**: a packet that the constructor makes announces the bytes that
follow its header exactly if a body that is there has fewer than `2 ^ 32` bytes, and a
missing one was given a length whose lower half is zero. -/
theorem consistent_iff (t id extra : Int) (body : Option Buffer) (bodylength : Nat)
    (h : Accepted body bodylength) :
    (new t id (body.map Buffer.bytes) bodylength extra).Consistent ↔
      (body ≠ none → bodylength < 2 ^ 32) ∧ (body = none → bodylength % 2 ^ 32 = 0) := by
  cases body with
  | none =>
      have hnone := consistent_none t id extra bodylength
      simpa using hnone
  | some b =>
      have hlen := h.backed b rfl
      subst hlen
      have hfit : headLength + b.bytes.length ≤ ptrdiffMax := by
        have hreserved := h.reserved
        have hb := b.fits
        rw [sizeAdd_eq (by unfold ptrdiffMax at hb; unfold headLength; omega)] at hreserved
        exact hreserved
      have hsome := consistent_some t id extra b hfit
      simpa using hsome

/-- Three bytes of body are announced as three. -/
theorem consistent_three :
    Accepted (some ⟨[1, 2, 3], by decide⟩) 3 ∧ (new 0 1 (some [1, 2, 3]) 3 0).Consistent := by
  have haccepted : Accepted (some ⟨[1, 2, 3], by decide⟩) 3 := by
    refine ⟨by decide, by decide, ?_⟩
    intro b hb
    cases hb
    rfl
  exact ⟨haccepted, (consistent_iff 0 1 0 _ 3 haccepted).mpr ⟨by decide, by simp⟩⟩

/-- A null body with a length announces bytes that are not there, and a body of `2 ^ 32`
bytes is announced as none. -/
theorem not_consistent_null :
    ¬ (new 0 1 none 5 0).Consistent ∧
      ¬ (new 0 1 (some (List.replicate (2 ^ 32) 0)) (2 ^ 32) 0).Consistent := by
  constructor
  · rw [consistent_none]
    decide
  · have hlen : (List.replicate (2 ^ 32) (0 : UInt8)).length = 2 ^ 32 := List.length_replicate
    have hfit : headLength + 2 ^ 32 ≤ ptrdiffMax := by decide
    have hsome := consistent_some 0 1 0 ⟨List.replicate (2 ^ 32) 0, by rw [hlen]; decide⟩
      (by simp only [hlen]; exact hfit)
    simp only [hlen] at hsome
    rw [hsome]
    exact Nat.lt_irrefl _

/-! ## Short packets -/

/-- The questions a packet can be asked. -/
inductive Query
  | id
  | version
  | time
  | bodylength
  | extra
  | body (beyond : Nat → UInt8) (data : List UInt8)

/-- The answers. -/
inductive QueryAnswer
  | number (i : Int)
  | body (n : Nat) (data : List UInt8)

/-- Ask one question. -/
def ask (p : Packet) : Query → Option QueryAnswer
  | .id => p.id.map .number
  | .version => p.getVersion.map .number
  | .time => p.time.map .number
  | .bodylength => p.bodylength.map fun n : Nat => .number (n : Int)
  | .extra => p.extra.map .number
  | .body beyond data => (p.body beyond data).map fun r => .body r.1 r.2

/-- Ask questions one after the other. -/
def askAll (p : Packet) : List Query → Option (List QueryAnswer)
  | [] => some []
  | q :: qs => (p.ask q).bind fun a => (p.askAll qs).map (a :: ·)

/-- What an accessor should return: the field if all of its bytes are there, else zero. -/
def decoded {α : Type} [Zero α] (bs : List UInt8) (w offset : Nat) (decode : List UInt8 → α) :
    α :=
  if offset + w ≤ bs.length then decode (slice bs offset w) else 0

/-- The packet built from a buffer answers every sequence of questions, and its accessors
return the fields that are there. -/
structure Total (b : Buffer) : Prop where
  asked : ∀ qs, (ofBytes (some b.bytes) b.bytes.length).askAll qs ≠ none
  id : (ofBytes (some b.bytes) b.bytes.length).id = some (decoded b.bytes 4 idOffset intOf)
  version : (ofBytes (some b.bytes) b.bytes.length).getVersion =
    some (decoded b.bytes 4 versionOffset intOf)
  time : (ofBytes (some b.bytes) b.bytes.length).time =
    some (decoded b.bytes 8 timestampOffset timeOf)
  bodylength : (ofBytes (some b.bytes) b.bytes.length).bodylength =
    some (decoded b.bytes 4 bodyLengthOffset leNat)
  extra : (ofBytes (some b.bytes) b.bytes.length).extra =
    some (decoded b.bytes 4 extraOffset intOf)

section Short

variable {p : Packet}

/-- An accessor of a packet that does not end inside the field. -/
theorem field_decoded {α : Type} [Zero α] (hp : p.Sized) (w offset : Nat)
    (decode : List UInt8 → α) (hw : 0 < w)
    (h : p.length ≤ offset ∨ offset + w ≤ p.length) :
    p.field w offset decode = some (decoded p.bytes w offset decode) := by
  rw [field_eq hp, decoded, Memorystream.length_bytes hp]
  by_cases hoff : p.length ≤ offset
  · rw [if_pos hoff, if_neg (by omega)]
  · rw [if_neg hoff, if_pos (by omega), if_pos (by omega)]

/-- `body` is guarded well: it reads the length only in a packet that has all of it. -/
theorem body_ne_none (hp : p.Sized) (beyond : Nat → UInt8) (data : List UInt8) :
    p.body beyond data ≠ none := by
  unfold body
  by_cases hlen : p.length ≤ bodyOffset
  · rw [if_pos hlen]
    simp
  · rw [if_neg hlen, bodylength_eq]
    have hend : bodyLengthOffset + 4 ≤ p.length := by
      unfold bodyOffset at hlen
      unfold bodyLengthOffset
      omega
    have hfield : p.field 4 bodyLengthOffset leNat ≠ none := (field_ne_none hp).mpr (.inr hend)
    simpa using hfield

/-- Questions that are answered one by one are answered in any order. -/
theorem askAll_ne_none (h : ∀ q, p.ask q ≠ none) (qs : List Query) : p.askAll qs ≠ none := by
  induction qs with
  | nil => simp [askAll]
  | cons q qs ih =>
      obtain ⟨a, ha⟩ := Option.ne_none_iff_exists'.mp (h q)
      obtain ⟨as, has⟩ := Option.ne_none_iff_exists'.mp ih
      simp [askAll, ha, has]

/-- A single question. -/
theorem ask_of_askAll {q : Query} (h : p.askAll [q] ≠ none) : p.ask q ≠ none := by
  intro hnone
  simp [askAll, hnone] at h

end Short

/-- **Short packets**: the accessors are total on a packet exactly if it ends at the start
of a field or holds all of the header. -/
theorem total_iff (b : Buffer) :
    Total b ↔ b.bytes.length ∈ [idOffset, versionOffset, timestampOffset, bodyLengthOffset,
      extraOffset] ∨ headLength ≤ b.bytes.length := by
  obtain ⟨hsized, hbytes, hlen⟩ := ofBytes_buffer b
  simp only [List.mem_cons, List.not_mem_nil, or_false]
  unfold idOffset versionOffset timestampOffset bodyLengthOffset extraOffset headLength
  constructor
  · intro h
    have hid := ask_of_askAll (h.asked [.id])
    have hversion := ask_of_askAll (h.asked [.version])
    have htime := ask_of_askAll (h.asked [.time])
    have hlength := ask_of_askAll (h.asked [.bodylength])
    have hextra := ask_of_askAll (h.asked [.extra])
    simp only [ask, ne_eq, Option.map_eq_none_iff] at hid hversion htime hlength hextra
    have h0 := (field_ne_none hsized).mp hid
    have h4 := (field_ne_none hsized).mp hversion
    have h8 := (field_ne_none hsized).mp htime
    have h16 := (field_ne_none hsized).mp (by rw [← bodylength_eq]; exact hlength)
    have h20 := (field_ne_none hsized).mp hextra
    rw [hlen] at h0 h4 h8 h16 h20
    unfold idOffset at h0
    unfold versionOffset at h4
    unfold timestampOffset at h8
    unfold bodyLengthOffset at h16
    unfold extraOffset at h20
    omega
  · intro h
    have hid := field_decoded hsized 4 idOffset intOf (by decide)
      (by unfold idOffset; omega)
    have hversion := field_decoded hsized 4 versionOffset intOf (by decide)
      (by unfold versionOffset; omega)
    have htime := field_decoded hsized 8 timestampOffset timeOf (by decide)
      (by unfold timestampOffset; omega)
    have hlength := field_decoded hsized 4 bodyLengthOffset leNat (by decide)
      (by unfold bodyLengthOffset; omega)
    have hextra := field_decoded hsized 4 extraOffset intOf (by decide)
      (by unfold extraOffset; omega)
    rw [hbytes] at hid hversion htime hlength hextra
    refine ⟨askAll_ne_none fun q => ?_, hid, hversion, htime, hlength, hextra⟩
    cases q with
    | id => simp [ask, Packet.id, hid]
    | version => simp [ask, getVersion, hversion]
    | time => simp [ask, Packet.time, htime]
    | bodylength => simp [ask, bodylength_eq, hlength]
    | extra => simp [ask, Packet.extra, hextra]
    | body beyond data =>
        have hbody := body_ne_none hsized beyond data
        simpa [ask] using hbody

/-- A packet of two bytes trips the assertion when it is asked for its id. -/
theorem not_total_twoBytes :
    ¬ Total ⟨[1, 2], by decide⟩ ∧ (ofBytes (some [1, 2]) 2).id = none := by
  constructor
  · intro h
    exact h.asked [.id] (by decide)
  · decide

end Packet

end GEngine
