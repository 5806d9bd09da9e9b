import GEngine.Bytes
import GEngine.Varint

/-!
# GEngine.Wire

Tagged fields on the wire: a tag is a field number and a wire type in one base-128
integer, and the type says how long the field is.

`WireField` is a field without a schema; groups nest.  `WireField.encode` writes one, and
`readField` reads one behind its tag, at most `levels` groups deep.  A group has no length
in front of it, so that `readGroup` reads fields until the closing tag; `fuel` bounds the
number of fields, and the length of the input is always enough (`readGroup_stable`).
Nothing in this module refers to the server.
-/

namespace GEngine

/-- A field with its number. -/
inductive WireField where
  | varint (number : Nat) (value : UInt64)
  | fixed32 (number : Nat) (value : UInt32)
  | fixed64 (number : Nat) (value : UInt64)
  | lengthDelimited (number : Nat) (value : List UInt8)
  | group (number : Nat) (fields : List WireField)

namespace Wire

/-! ## Tags and lengths -/

/-- The tag of field `number` with wire type `type`. -/
def makeTag (number type : Nat) : Nat := 8 * number + type

@[simp] theorem makeTag_mod (number : Nat) {type : Nat} (h : type < 8) :
    makeTag number type % 8 = type := by
  unfold makeTag
  omega

@[simp] theorem makeTag_div (number : Nat) {type : Nat} (h : type < 8) :
    makeTag number type / 8 = number := by
  unfold makeTag
  omega

/-- A tag in front of `bs`: a base-128 integer of at most ten bytes, cut to 32 bits. -/
def readTag (bs : List UInt8) : Option (Nat × List UInt8) :=
  (Varint.decode 10 bs).map fun (v, rest) => (v % 2 ^ 32, rest)

/-- Bytes behind their length, which has to be a nonnegative `int`. -/
def readBytes (bs : List UInt8) : Option (List UInt8 × List UInt8) :=
  match readTag bs with
  | none => none
  | some (len, rest) =>
      if len < 2 ^ 31 ∧ len ≤ rest.length then some (rest.take len, rest.drop len) else none

/-- A `w`-byte little-endian word. -/
def readWord (w : Nat) (bs : List UInt8) : Option (Nat × List UInt8) :=
  if w ≤ bs.length then some (leNat (bs.take w), bs.drop w) else none

end Wire

open Wire

/-! ## Writing a field -/

/-- The tag in front of a field. -/
def WireField.tag : WireField → Nat
  | .varint number _ => makeTag number 0
  | .fixed32 number _ => makeTag number 5
  | .fixed64 number _ => makeTag number 1
  | .lengthDelimited number _ => makeTag number 2
  | .group number _ => makeTag number 3

mutual

/-- What is behind the tag of a field. -/
def WireField.payload : WireField → List UInt8
  | .varint _ value => Varint.encode value.toNat
  | .fixed32 _ value => leBytes 4 value.toNat
  | .fixed64 _ value => leBytes 8 value.toNat
  | .lengthDelimited _ value => Varint.encode value.length ++ value
  | .group number fields => WireField.encodeAll fields ++ Varint.encode (makeTag number 4)

/-- Fields one after the other. -/
def WireField.encodeAll : List WireField → List UInt8
  | [] => []
  | field :: fields => Varint.encode field.tag ++ field.payload ++ WireField.encodeAll fields

end

mutual

/-- A field that can be on the wire: its number fits into a tag, its bytes have a length,
and its groups are at most `levels` deep.  (Zero is no field number, but a tag that has
it as its number and another type than `varint` can be read.) -/
def WireField.Valid (levels : Nat) : WireField → Prop
  | .varint number _ => 0 < number ∧ number < 2 ^ 29
  | .fixed32 number _ => number < 2 ^ 29
  | .fixed64 number _ => number < 2 ^ 29
  | .lengthDelimited number value => number < 2 ^ 29 ∧ value.length < 2 ^ 31
  | .group number fields => number < 2 ^ 29 ∧ 0 < levels ∧
      WireField.AllValid (levels - 1) fields

/-- All fields of a list can be on the wire. -/
def WireField.AllValid (levels : Nat) : List WireField → Prop
  | [] => True
  | field :: fields => field.Valid levels ∧ WireField.AllValid levels fields

end

theorem WireField.allValid_concat {levels : Nat} {fields : List WireField} {field : WireField} :
    WireField.AllValid levels (fields ++ [field]) ↔
      WireField.AllValid levels fields ∧ field.Valid levels := by
  induction fields with
  | nil => simp [WireField.AllValid]
  | cons first fields ih => simp [WireField.AllValid, ih, and_assoc]

namespace Wire

/-! ## Reading a field -/

/-- The field behind its tag; `group` reads the fields of a group up to a closing tag. -/
def readFieldWith (group : Nat → Nat → List UInt8 → Option (List WireField × List UInt8))
    (levels tag : Nat) (bs : List UInt8) : Option (WireField × List UInt8) :=
  match tag % 8 with
  | 0 => (Varint.decode 10 bs).map fun (v, rest) => (.varint (tag / 8) (UInt64.ofNat v), rest)
  | 1 => (readWord 8 bs).map fun (v, rest) => (.fixed64 (tag / 8) (UInt64.ofNat v), rest)
  | 2 => (readBytes bs).map fun (value, rest) => (.lengthDelimited (tag / 8) value, rest)
  | 3 => if 0 < levels then
      (group (levels - 1) (makeTag (tag / 8) 4) bs).map fun (fields, rest) =>
        (.group (tag / 8) fields, rest)
    else none
  | 5 => (readWord 4 bs).map fun (v, rest) => (.fixed32 (tag / 8) (UInt32.ofNat v), rest)
  | _ => none

/-- The fields of a group up to its closing tag. -/
def readGroup : Nat → Nat → Nat → List UInt8 → Option (List WireField × List UInt8)
  | 0, _, _, _ => none
  | fuel + 1, levels, close, bs =>
      match readTag bs with
      | none => none
      | some (tag, rest) =>
          if tag = 0 then none
          else if tag % 8 = 4 then
            if tag = close then some ([], rest) else none
          else
            match readFieldWith (readGroup fuel) levels tag rest with
            | none => none
            | some (field, rest) =>
                (readGroup fuel levels close rest).map fun (fields, rest) =>
                  (field :: fields, rest)

/-- The field behind its tag. -/
def readField (fuel levels tag : Nat) (bs : List UInt8) : Option (WireField × List UInt8) :=
  readFieldWith (readGroup fuel) levels tag bs

/-! ## Suffixes -/

section

variable {bs rest more value : List UInt8} {fuel levels tag close len v w : Nat}

theorem readTag_suffix (h : readTag bs = some (tag, rest)) :
    rest <:+ bs ∧ rest.length < bs.length := by
  rw [readTag, Option.map_eq_some_iff] at h
  obtain ⟨⟨v, rest'⟩, hdec, heq⟩ := h
  cases heq
  exact Varint.decode_suffix hdec

theorem readTag_lt (h : readTag bs = some (tag, rest)) : tag < 2 ^ 32 := by
  rw [readTag, Option.map_eq_some_iff] at h
  obtain ⟨⟨v, rest'⟩, -, heq⟩ := h
  cases heq
  exact Nat.mod_lt _ (by decide)

theorem readTag_length (h : readTag bs = some (tag, rest)) :
    (Varint.encode tag).length + rest.length ≤ bs.length := by
  rw [readTag, Option.map_eq_some_iff] at h
  obtain ⟨⟨v, rest'⟩, hdec, heq⟩ := h
  cases heq
  have hcut : (Varint.encode (v % 2 ^ 32)).length ≤ (Varint.encode v).length :=
    Varint.length_encode_mono (Nat.mod_le v _)
  have hlen := Varint.decode_length hdec
  omega

/-- A tag of one byte. -/
theorem readTag_byte {b : UInt8} (h : b < 128) (bs : List UInt8) :
    readTag (b :: bs) = some (b.toNat, bs) := by
  have := b.toNat_lt
  simp only [readTag, Varint.decode_last h, Option.map_some, Nat.mod_eq_of_lt
    (show b.toNat < 2 ^ 32 by omega)]

theorem readBytes_eq_some (h : readBytes bs = some (value, rest)) :
    value.length < 2 ^ 31 ∧ readTag bs = some (value.length, value ++ rest) := by
  unfold readBytes at h
  cases htag : readTag bs with
  | none => simp [htag] at h
  | some r =>
      obtain ⟨len, behind⟩ := r
      simp only [htag] at h
      split at h
      · rename_i hlen
        cases h
        rw [List.length_take_of_le hlen.2, List.take_append_drop]
        exact ⟨hlen.1, rfl⟩
      · cases h

theorem readWord_eq_some (h : readWord w bs = some (v, rest)) :
    ∃ front, front.length = w ∧ v = leNat front ∧ bs = front ++ rest := by
  unfold readWord at h
  split at h
  · rename_i hw
    cases h
    exact ⟨bs.take w, List.length_take_of_le hw, rfl, (List.take_append_drop w bs).symm⟩
  · cases h

end

/-! ## What is read -/

section

variable {group : Nat → Nat → List UInt8 → Option (List WireField × List UInt8)}
  {bs rest : List UInt8} {fuel levels tag close : Nat} {field : WireField}
  {fields : List WireField}

/-- The fields of a tag by its wire type, and what is behind them in `bs`. -/
inductive FieldRead (group : Nat → Nat → List UInt8 → Option (List WireField × List UInt8))
    (levels tag : Nat) (bs : List UInt8) : WireField → List UInt8 → Prop where
  | varint {v : Nat} {rest : List UInt8} (htype : tag % 8 = 0)
      (hread : Varint.decode 10 bs = some (v, rest)) :
      FieldRead group levels tag bs (.varint (tag / 8) (UInt64.ofNat v)) rest
  | fixed64 {v : Nat} {rest : List UInt8} (htype : tag % 8 = 1)
      (hread : readWord 8 bs = some (v, rest)) :
      FieldRead group levels tag bs (.fixed64 (tag / 8) (UInt64.ofNat v)) rest
  | lengthDelimited {value rest : List UInt8} (htype : tag % 8 = 2)
      (hread : readBytes bs = some (value, rest)) :
      FieldRead group levels tag bs (.lengthDelimited (tag / 8) value) rest
  | group {fields : List WireField} {rest : List UInt8} (htype : tag % 8 = 3)
      (hlevels : 0 < levels)
      (hread : group (levels - 1) (makeTag (tag / 8) 4) bs = some (fields, rest)) :
      FieldRead group levels tag bs (.group (tag / 8) fields) rest
  | fixed32 {v : Nat} {rest : List UInt8} (htype : tag % 8 = 5)
      (hread : readWord 4 bs = some (v, rest)) :
      FieldRead group levels tag bs (.fixed32 (tag / 8) (UInt32.ofNat v)) rest

/-- Whatever is read is a field of its tag. -/
theorem fieldRead_of_readFieldWith (h : readFieldWith group levels tag bs = some (field, rest)) :
    FieldRead group levels tag bs field rest := by
  unfold readFieldWith at h
  split at h
  · obtain ⟨⟨v, rest'⟩, hread, heq⟩ := Option.map_eq_some_iff.mp h
    cases heq
    exact .varint ‹_› hread
  · obtain ⟨⟨v, rest'⟩, hread, heq⟩ := Option.map_eq_some_iff.mp h
    cases heq
    exact .fixed64 ‹_› hread
  · obtain ⟨⟨value, rest'⟩, hread, heq⟩ := Option.map_eq_some_iff.mp h
    cases heq
    exact .lengthDelimited ‹_› hread
  · split at h
    · obtain ⟨⟨fields, rest'⟩, hread, heq⟩ := Option.map_eq_some_iff.mp h
      cases heq
      exact .group ‹_› ‹_› hread
    · cases h
  · obtain ⟨⟨v, rest'⟩, hread, heq⟩ := Option.map_eq_some_iff.mp h
    cases heq
    exact .fixed32 ‹_› hread
  · cases h

/-- What a reader of groups is held to: it leaves an end of its input, and its fields could
be written again, in no more bytes. -/
def Sound (group : Nat → Nat → List UInt8 → Option (List WireField × List UInt8)) : Prop :=
  ∀ levels close bs fields rest, group levels close bs = some (fields, rest) →
    rest <:+ bs ∧ WireField.AllValid levels fields ∧
      (WireField.encodeAll fields ++ Varint.encode close).length + rest.length ≤ bs.length

/-- A field has the tag it was read behind. -/
theorem FieldRead.tag_eq (h : FieldRead group levels tag bs field rest) : field.tag = tag := by
  cases h with
  | varint htype | fixed64 htype | lengthDelimited htype | group htype | fixed32 htype =>
      simp only [WireField.tag, makeTag]
      omega

/-- A field that is read is one of its tag. -/
theorem readFieldWith_sound (hgroup : Sound group) (hlt : tag < 2 ^ 32) (hne : tag ≠ 0)
    (h : readFieldWith group levels tag bs = some (field, rest)) :
    rest <:+ bs ∧ field.tag = tag ∧ field.Valid levels := by
  have hnumber : tag / 8 < 2 ^ 29 := by omega
  have hfield := fieldRead_of_readFieldWith h
  have htag := hfield.tag_eq
  cases hfield with
  | varint htype hread =>
      exact ⟨(Varint.decode_suffix hread).1, htag, by omega, hnumber⟩
  | fixed64 htype hread | fixed32 htype hread =>
      obtain ⟨front, -, -, rfl⟩ := readWord_eq_some hread
      exact ⟨List.suffix_append front rest, htag, hnumber⟩
  | lengthDelimited htype hread =>
      obtain ⟨hlen, hlength⟩ := readBytes_eq_some hread
      exact ⟨(List.suffix_append _ rest).trans (readTag_suffix hlength).1, htag, hnumber, hlen⟩
  | group htype hlevels hread =>
      obtain ⟨hsuf, hall, -⟩ := hgroup _ _ _ _ _ hread
      exact ⟨hsuf, htag, hnumber, hlevels, hall⟩

/-- A field is read from no fewer bytes than it is written in. -/
theorem readFieldWith_length (hgroup : Sound group)
    (h : readFieldWith group levels tag bs = some (field, rest)) :
    field.payload.length + rest.length ≤ bs.length := by
  cases fieldRead_of_readFieldWith h with
  | @varint v _ htype hread =>
      have hcut : (Varint.encode (UInt64.ofNat v).toNat).length ≤ (Varint.encode v).length := by
        rw [UInt64.toNat_ofNat']
        exact Varint.length_encode_mono (Nat.mod_le v _)
      have hlen := Varint.decode_length hread
      rw [WireField.payload]
      omega
  | fixed64 htype hread | fixed32 htype hread =>
      obtain ⟨front, hfront, -, rfl⟩ := readWord_eq_some hread
      rw [WireField.payload, length_leBytes, List.length_append, hfront]
  | lengthDelimited htype hread =>
      have hlen := readTag_length (readBytes_eq_some hread).2
      rw [List.length_append] at hlen
      rw [WireField.payload, List.length_append]
      omega
  | group htype hlevels hread => exact (hgroup _ _ _ _ _ hread).2.2

/-- A group is its closing tag, or a field and the rest of the group. -/
theorem readGroup_eq_some (h : readGroup (fuel + 1) levels close bs = some (fields, rest)) :
    ∃ tag behind, readTag bs = some (tag, behind) ∧ tag ≠ 0 ∧
      ((tag % 8 = 4 ∧ tag = close ∧ fields = [] ∧ rest = behind) ∨
        tag % 8 ≠ 4 ∧ ∃ field next fields',
          readFieldWith (readGroup fuel) levels tag behind = some (field, next) ∧
          readGroup fuel levels close next = some (fields', rest) ∧
          fields = field :: fields') := by
  rw [readGroup] at h
  cases htag : readTag bs with
  | none => simp [htag] at h
  | some r =>
      obtain ⟨tag, behind⟩ := r
      simp only [htag] at h
      refine ⟨tag, behind, rfl, ?_⟩
      split at h
      · cases h
      · rename_i hzero
        refine ⟨hzero, ?_⟩
        split at h
        · rename_i htype
          split at h
          · rename_i hclose
            cases h
            exact .inl ⟨htype, hclose, rfl, rfl⟩
          · cases h
        · rename_i htype
          split at h
          · cases h
          · rename_i field next hfield
            obtain ⟨⟨fields', rest'⟩, hrec, heq⟩ := Option.map_eq_some_iff.mp h
            cases heq
            exact .inr ⟨htype, field, next, fields', hfield, hrec, rfl⟩

/-- Why there is no group: no tag, a tag that ends something else, a broken field, or no rest
of the group. -/
theorem readGroup_eq_none (h : readGroup (fuel + 1) levels close bs = none) :
    readTag bs = none ∨ ∃ tag behind, readTag bs = some (tag, behind) ∧
      (tag = 0 ∨ (tag ≠ 0 ∧ tag % 8 = 4 ∧ tag ≠ close) ∨ (tag ≠ 0 ∧ tag % 8 ≠ 4 ∧
        (readFieldWith (readGroup fuel) levels tag behind = none ∨
          ∃ field next, readFieldWith (readGroup fuel) levels tag behind = some (field, next) ∧
            readGroup fuel levels close next = none))) := by
  rw [readGroup] at h
  cases htag : readTag bs with
  | none => exact .inl rfl
  | some r =>
      obtain ⟨tag, behind⟩ := r
      simp only [htag] at h
      refine .inr ⟨tag, behind, rfl, ?_⟩
      split at h
      · exact .inl ‹_›
      · rename_i hzero
        split at h
        · rename_i htype
          split at h
          · cases h
          · exact .inr (.inl ⟨hzero, htype, ‹_›⟩)
        · rename_i htype
          refine .inr (.inr ⟨hzero, htype, ?_⟩)
          split at h
          · exact .inl ‹_›
          · rename_i field next hfield
            exact .inr ⟨field, next, hfield, Option.map_eq_none_iff.mp h⟩

theorem sound_readGroup (fuel : Nat) : Sound (readGroup fuel) := by
  induction fuel with
  | zero =>
      intro levels close bs fields rest h
      cases h
  | succ fuel ih =>
      intro levels close bs fields rest h
      obtain ⟨tag, behind, htag, hzero, hend | hmore⟩ := readGroup_eq_some h
      · obtain ⟨-, rfl, rfl, rfl⟩ := hend
        exact ⟨(readTag_suffix htag).1, trivial, readTag_length htag⟩
      · obtain ⟨-, field, next, fields', hfield, hrec, rfl⟩ := hmore
        obtain ⟨hnext, rfl, hvalid⟩ := readFieldWith_sound ih (readTag_lt htag) hzero hfield
        obtain ⟨hrest, hall, hgroup⟩ := ih _ _ _ _ _ hrec
        have htaglen := readTag_length htag
        have hfieldlen := readFieldWith_length ih hfield
        refine ⟨(hrest.trans hnext).trans (readTag_suffix htag).1, ⟨hvalid, hall⟩, ?_⟩
        simp only [WireField.encodeAll, List.length_append] at hgroup ⊢
        omega

theorem readField_sound (hlt : tag < 2 ^ 32) (hne : tag ≠ 0)
    (h : readField fuel levels tag bs = some (field, rest)) :
    rest <:+ bs ∧ field.tag = tag ∧ field.Valid levels :=
  readFieldWith_sound (sound_readGroup fuel) hlt hne h

theorem readField_length (h : readField fuel levels tag bs = some (field, rest)) :
    field.payload.length + rest.length ≤ bs.length :=
  readFieldWith_length (sound_readGroup fuel) h

/-- No field can be read from nothing. -/
theorem readField_nil (fuel levels tag : Nat) : readField fuel levels tag [] = none := by
  have hgroup : ∀ levels close, readGroup fuel levels close [] = none := by
    intro levels close
    cases fuel <;> rfl
  unfold readField readFieldWith
  split <;> simp [readWord, readBytes, readTag, hgroup]

/-! ## Fuel -/

/-- A field needs no more fuel than its group does. -/
theorem readFieldWith_congr
    {group' : Nat → Nat → List UInt8 → Option (List WireField × List UInt8)}
    (h : ∀ levels close, group levels close bs = group' levels close bs) :
    readFieldWith group levels tag bs = readFieldWith group' levels tag bs := by
  unfold readFieldWith
  split <;> simp only [h]

/-- Once there is more fuel than there are bytes, the amount does not matter. -/
theorem readGroup_stable {fuel' : Nat} (h : bs.length < fuel) (h' : bs.length < fuel') :
    readGroup fuel levels close bs = readGroup fuel' levels close bs := by
  induction fuel generalizing fuel' levels close bs with
  | zero => omega
  | succ fuel ih =>
      cases fuel' with
      | zero => omega
      | succ fuel' =>
          rw [readGroup, readGroup]
          cases htag : readTag bs with
          | none => rfl
          | some r =>
              obtain ⟨tag, behind⟩ := r
              have hlt := (readTag_suffix htag).2
              have hfield : readFieldWith (readGroup fuel) levels tag behind =
                  readFieldWith (readGroup fuel') levels tag behind :=
                readFieldWith_congr fun levels close => ih (by omega) (by omega)
              simp only [hfield]
              split
              · rfl
              · rename_i hzero
                split
                · rfl
                · cases hread : readFieldWith (readGroup fuel') levels tag behind with
                  | none => rfl
                  | some r =>
                      obtain ⟨field, next⟩ := r
                      have hnext := (readField_sound (readTag_lt htag) hzero hread).1.length_le
                      simp only [ih (show next.length < fuel by omega)
                        (show next.length < fuel' by omega)]

theorem readField_stable {fuel' : Nat} (h : bs.length < fuel) (h' : bs.length < fuel') :
    readField fuel levels tag bs = readField fuel' levels tag bs :=
  readFieldWith_congr fun _ _ => readGroup_stable h h'

end

/-! ## Reading what was written -/

section

variable {rest value : List UInt8} {fuel levels n close w : Nat}

theorem readTag_encode (h : n < 2 ^ 32) (rest : List UInt8) :
    readTag (Varint.encode n ++ rest) = some (n, rest) := by
  have hlt : n < 128 ^ (9 + 1) := by omega
  simp only [readTag, Varint.decode_encode hlt, Option.map_some, Nat.mod_eq_of_lt h]

theorem readBytes_encode (h : value.length < 2 ^ 31) (rest : List UInt8) :
    readBytes (Varint.encode value.length ++ value ++ rest) = some (value, rest) := by
  have hfit : value.length < 2 ^ 31 ∧ value.length ≤ (value ++ rest).length :=
    ⟨h, by rw [List.length_append]; omega⟩
  rw [readBytes, List.append_assoc, readTag_encode (by omega)]
  simp only [if_pos hfit, List.take_left, List.drop_left]

theorem readWord_encode (w n : Nat) (rest : List UInt8) :
    readWord w (leBytes w n ++ rest) = some (n % 256 ^ w, rest) := by
  have hlen : (leBytes w n).length = w := length_leBytes w n
  rw [readWord, if_pos (by rw [List.length_append]; omega), List.take_left' hlen,
    List.drop_left' hlen, leNat_leBytes]

/-- The tag of a field that can be on the wire is one: it fits, it is not the zero that ends
a message, and it closes no group. -/
theorem tag_of_valid {field : WireField} (h : field.Valid levels) :
    field.tag < 2 ^ 32 ∧ field.tag ≠ 0 ∧ field.tag % 8 ≠ 4 := by
  cases field with
  | varint number value =>
      obtain ⟨hpos, hlt⟩ := h
      simp only [WireField.tag, makeTag]
      omega
  | fixed32 number value =>
      have hlt : number < 2 ^ 29 := h
      simp only [WireField.tag, makeTag]
      omega
  | fixed64 number value =>
      have hlt : number < 2 ^ 29 := h
      simp only [WireField.tag, makeTag]
      omega
  | lengthDelimited number value =>
      have hlt : number < 2 ^ 29 := h.1
      simp only [WireField.tag, makeTag]
      omega
  | group number fields =>
      have hlt : number < 2 ^ 29 := h.1
      simp only [WireField.tag, makeTag]
      omega

mutual

/-- A field that was written is read back from behind its tag. -/
theorem readField_payload (field : WireField) (fuel levels : Nat) (rest : List UInt8)
    (hvalid : field.Valid levels) (hfuel : field.payload.length < fuel) :
    readField fuel levels field.tag (field.payload ++ rest) = some (field, rest) := by
  cases field with
  | varint number value =>
      have hlt : value.toNat < 128 ^ (9 + 1) := by
        have := value.toNat_lt
        omega
      simp [WireField.tag, WireField.payload, readField, readFieldWith,
        Varint.decode_encode hlt]
  | fixed32 number value =>
      simp [WireField.tag, WireField.payload, readField, readFieldWith, readWord_encode]
  | fixed64 number value =>
      simp [WireField.tag, WireField.payload, readField, readFieldWith, readWord_encode]
  | lengthDelimited number value =>
      have hbytes := readBytes_encode hvalid.2 rest
      rw [List.append_assoc] at hbytes
      simp [WireField.tag, WireField.payload, readField, readFieldWith, hbytes]
  | group number fields =>
      obtain ⟨hlt, hlevels, hall⟩ := hvalid
      rw [WireField.payload, List.length_append] at hfuel
      have hgroup := readGroup_encodeAll fields fuel (levels - 1) number rest hlt hall (by omega)
      rw [List.append_assoc] at hgroup
      simp [WireField.tag, WireField.payload, readField, readFieldWith, hlevels, hgroup]

/-- Fields that were written and closed are read back. -/
theorem readGroup_encodeAll (fields : List WireField) (fuel levels number : Nat)
    (rest : List UInt8) (hnumber : number < 2 ^ 29) (hall : WireField.AllValid levels fields)
    (hfuel : (WireField.encodeAll fields).length < fuel) :
    readGroup fuel levels (makeTag number 4)
      (WireField.encodeAll fields ++ Varint.encode (makeTag number 4) ++ rest) =
        some (fields, rest) := by
  cases fuel with
  | zero => omega
  | succ fuel =>
      cases fields with
      | nil =>
          have hlt : makeTag number 4 < 2 ^ 32 := by
            unfold makeTag
            omega
          have hzero : makeTag number 4 ≠ 0 := by simp [makeTag]
          simp [WireField.encodeAll, readGroup, readTag_encode hlt, hzero]
      | cons field fields =>
          obtain ⟨hvalid, hall⟩ := hall
          obtain ⟨hlt, hzero, htype⟩ := tag_of_valid hvalid
          have htag := List.length_pos_iff.mpr (Varint.encode_ne_nil field.tag)
          simp only [WireField.encodeAll, List.length_append] at hfuel
          have hfield := readField_payload field fuel levels (WireField.encodeAll fields ++
            (Varint.encode (makeTag number 4) ++ rest)) hvalid (by omega)
          have hgroup := readGroup_encodeAll fields fuel levels number rest hnumber hall (by omega)
          rw [readField] at hfield
          rw [List.append_assoc] at hgroup
          simp only [WireField.encodeAll, List.append_assoc, readGroup, readTag_encode hlt,
            if_neg hzero, if_neg htype, hfield, hgroup, Option.map_some]

end

end

end Wire

end GEngine
