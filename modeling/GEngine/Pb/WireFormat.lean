import GEngine.Pb.Varint

/-!
# GEngine.Pb.WireFormat

`google::protobuf::internal::WireFormat`: fields that a message does not know.

`SkipField` reads such a field into the message's `UnknownFieldSet`, and
`SerializeUnknownFieldsToArray` writes the set back.  A group is skipped by `SkipMessage`,
which ends at any closing tag, at a zero and at the end of the input; whether that was the
right end is checked by its caller, by a look at the last tag.  Together they read what
`Wire.readField` reads (`skipField_of_some`, `skipField_of_none`).
-/

namespace GEngine

namespace Pb

/-! ## Reading a tag -/

namespace CodedInputStream

variable {s : CodedInputStream} {rest : List UInt8} {tag : Nat}

/-- A tag is an integer that is cut to 32 bits. -/
theorem decode_of_readTag (h : Wire.readTag s.buffer = some (tag, rest)) :
    ∃ v, Varint.decode kMaxVarintBytes s.buffer = some (v, rest) ∧
      UInt32.ofNat v = UInt32.ofNat tag := by
  rw [Wire.readTag, Option.map_eq_some_iff] at h
  obtain ⟨⟨v, rest'⟩, hdec, heq⟩ := h
  cases heq
  refine ⟨v, hdec, ?_⟩
  rw [← UInt32.toNat_inj, UInt32.toNat_ofNat', UInt32.toNat_ofNat']
  omega

theorem decode_of_readTag_none (h : Wire.readTag s.buffer = none) :
    Varint.decode kMaxVarintBytes s.buffer = none :=
  Option.map_eq_none_iff.mp h

/-- A whole tag is read in the loop. -/
theorem readTagSlow_of_some (h : Wire.readTag s.buffer = some (tag, rest)) :
    s.readTagSlow = (UInt32.ofNat tag, { s with buffer := rest }) := by
  obtain ⟨v, hdec, hv⟩ := decode_of_readTag h
  have hne : s.buffer ≠ [] := by
    intro hnil
    rw [hnil] at h
    cases h
  have hcut : (UInt64.ofNat v).toUInt32 = UInt32.ofNat v := by
    rw [← UInt32.toNat_inj, UInt64.toNat_toUInt32, UInt64.toNat_ofNat', UInt32.toNat_ofNat']
    omega
  simp only [readTagSlow, if_neg hne, readVarint64_of_some hdec, hcut, hv]

/-- It is read with or without the check. -/
theorem readTagFallback_of_some (h : Wire.readTag s.buffer = some (tag, rest)) :
    s.readTagFallback = (UInt32.ofNat tag, { s with buffer := rest }) := by
  obtain ⟨v, hdec, hv⟩ := decode_of_readTag h
  have hne : s.buffer ≠ [] := by
    intro hnil
    rw [hnil] at h
    cases h
  unfold readTagFallback
  split
  · rw [readVarint32FromArray_of_some hdec, hv]
  · rw [if_neg (fun hend => hne hend.1), readTagSlow_of_some h]

/-- Lengths are read as tags are. -/
theorem readVarint32_of_readTag (h : Wire.readTag s.buffer = some (tag, rest)) :
    s.readVarint32 = (some (UInt32.ofNat tag), { s with buffer := rest }) := by
  obtain ⟨v, hdec, hv⟩ := decode_of_readTag h
  rw [readVarint32_of_some hdec, hv]

/-- Reading an integer moves only the buffer. -/
theorem readVarint64_frame (s : CodedInputStream) :
    ∃ buffer, s.readVarint64.2 = { s with buffer := buffer } := by
  have hfallback : ∃ buffer, s.readVarint64Fallback.2 = { s with buffer := buffer } := by
    unfold readVarint64Fallback readVarint64Slow
    split
    · split
      · exact ⟨_, rfl⟩
      · exact ⟨s.buffer, rfl⟩
    · exact ⟨_, rfl⟩
  unfold readVarint64
  split
  · split
    · exact ⟨_, rfl⟩
    · exact hfallback
  · exact hfallback

/-- A broken tag is the tag zero. -/
theorem readTagFallback_of_none (hne : s.buffer ≠ []) (h : Wire.readTag s.buffer = none) :
    ∃ buffer, s.readTagFallback = (0, { s with buffer := buffer }) := by
  have hdec := decode_of_readTag_none h
  unfold readTagFallback
  split
  · split
    · rename_i tag rest hdone
      obtain ⟨v, hv⟩ := exists_decode_of_done (Nat.zero_le _) hdone
      rw [Nat.sub_zero, hdec] at hv
      cases hv
    · exact ⟨s.buffer, rfl⟩
  · obtain ⟨buffer, hbuffer⟩ := readVarint64_frame s
    refine ⟨buffer, ?_⟩
    rw [if_neg (fun hend => hne hend.1), readTagSlow, if_neg hne]
    cases hread : s.readVarint64 with
    | mk value s' =>
        rw [hread] at hbuffer
        have hvalue := readVarint64_of_none hdec
        rw [hread] at hvalue
        simp only at hbuffer hvalue
        simp only [hvalue, hbuffer]

/-- There is a check where nothing is left. -/
theorem unchecked_nil (h : s.buffer = []) : s.unchecked = false := by
  simp [unchecked, bufferSize, h, kMaxVarintBytes]

/-- At the end of the buffer the tag is zero. -/
theorem readTagFallback_nil (h : s.buffer = []) : s.readTagFallback.1 = 0 := by
  rw [readTagFallback, unchecked_nil h]
  simp only [Bool.false_eq_true, if_false]
  split
  · rfl
  · rw [readTagSlow, if_pos h]
    split <;> rfl

/-- `ReadTag` reads a whole tag and keeps it as the last one. -/
theorem readTag_of_some (h : Wire.readTag s.buffer = some (tag, rest)) :
    s.readTag =
      (UInt32.ofNat tag, { s with buffer := rest, lastTag := UInt32.ofNat tag }) := by
  unfold readTag
  split
  · rename_i b behind hbuffer
    split
    · rename_i hb
      obtain ⟨v, hdec, hv⟩ := decode_of_readTag h
      rw [hbuffer, kMaxVarintBytes, Varint.decode_last hb] at hdec
      cases hdec
      rw [toUInt32_eq, hv]
    · simp only [readTagFallback_of_some h]
  · simp only [readTagFallback_of_some h]

/-- Otherwise the tag is zero, and so is the last one. -/
theorem readTag_of_none (h : Wire.readTag s.buffer = none) :
    s.readTag.1 = 0 ∧ s.readTag.2.lastTag = 0 := by
  have hfallback : s.readTagFallback.1 = 0 := by
    by_cases hne : s.buffer = []
    · exact readTagFallback_nil hne
    · obtain ⟨buffer, hread⟩ := readTagFallback_of_none hne h
      rw [hread]
  unfold readTag
  split
  · rename_i b behind hbuffer
    split
    · rename_i hb
      have hdec := decode_of_readTag_none h
      rw [hbuffer, kMaxVarintBytes, Varint.decode_last hb] at hdec
      cases hdec
    · exact ⟨hfallback, hfallback⟩
  · exact ⟨hfallback, hfallback⟩

/-! ### Words and strings -/

variable {v : Nat} {value : List UInt8}

/-- `ReadLittleEndian32` reads a word. -/
theorem readLittleEndian32_of_some (h : Wire.readWord 4 s.buffer = some (v, rest)) :
    s.readLittleEndian32 = (some (UInt32.ofNat v), { s with buffer := rest }) := by
  unfold Wire.readWord at h
  split at h
  · rename_i hlen
    cases h
    exact if_pos hlen
  · cases h

theorem readLittleEndian32_of_none (h : Wire.readWord 4 s.buffer = none) :
    s.readLittleEndian32.1 = none := by
  unfold Wire.readWord at h
  split at h
  · cases h
  · rename_i hlen
    rw [readLittleEndian32, if_neg hlen]

/-- `ReadLittleEndian64` reads a word. -/
theorem readLittleEndian64_of_some (h : Wire.readWord 8 s.buffer = some (v, rest)) :
    s.readLittleEndian64 = (some (UInt64.ofNat v), { s with buffer := rest }) := by
  unfold Wire.readWord at h
  split at h
  · rename_i hlen
    cases h
    exact if_pos hlen
  · cases h

theorem readLittleEndian64_of_none (h : Wire.readWord 8 s.buffer = none) :
    s.readLittleEndian64.1 = none := by
  unfold Wire.readWord at h
  split at h
  · cases h
  · rename_i hlen
    rw [readLittleEndian64, if_neg hlen]

/-- A length and that many bytes. -/
theorem readString_of_some (old : List UInt8) (h : Wire.readBytes s.buffer = some (value, rest)) :
    ∃ length s', s.readVarint32 = (some length, s') ∧
      s'.readString old length = (true, value, { s with buffer := rest }) := by
  obtain ⟨hlen, htag⟩ := Wire.readBytes_eq_some h
  have hsize : (UInt32.ofNat value.length).toNat = value.length := by
    rw [UInt32.toNat_ofNat']
    omega
  refine ⟨_, _, readVarint32_of_readTag htag, ?_⟩
  have hfit : ¬ intMax < value.length := by
    unfold intMax
    omega
  have hle : value.length ≤ (value ++ rest).length := by
    rw [List.length_append]
    omega
  rw [readString, hsize, if_neg hfit, if_pos hle, List.take_left, List.drop_left]

/-- If they are not there, one of the two reads fails. -/
theorem readString_of_none (old : List UInt8) (h : Wire.readBytes s.buffer = none) :
    s.readVarint32.1 = none ∨
      ∃ length s', s.readVarint32 = (some length, s') ∧ (s'.readString old length).1 = false := by
  unfold Wire.readBytes at h
  split at h
  · rename_i htag
    exact .inl (readVarint32_of_none (decode_of_readTag_none htag))
  · rename_i len behind htag
    split at h
    · cases h
    · rename_i hlen
      refine .inr ⟨_, _, readVarint32_of_readTag htag, ?_⟩
      have hlt := Wire.readTag_lt htag
      have hsize : (UInt32.ofNat len).toNat = len := by
        rw [UInt32.toNat_ofNat']
        omega
      rw [readString, hsize]
      split
      · rfl
      · rename_i hint
        unfold intMax at hint
        have hmore : ¬ len ≤ behind.length := fun hle => hlen ⟨by omega, hle⟩
        rw [if_neg hmore]

end CodedInputStream

/-! ## Wire types -/

/-- `WireFormatLite::WireType`. -/
inductive WireType where
  | varint
  | fixed64
  | lengthDelimited
  | startGroup
  | endGroup
  | fixed32
  deriving DecidableEq

/-- The values of the enumeration. -/
def WireType.code : WireType → UInt32
  | .varint => 0
  | .fixed64 => 1
  | .lengthDelimited => 2
  | .startGroup => 3
  | .endGroup => 4
  | .fixed32 => 5

/-- The low three bits of a tag; two of their values stand for no wire type. -/
def getTagWireType (tag : UInt32) : Option WireType :=
  match (tag &&& 7).toNat with
  | 0 => some .varint
  | 1 => some .fixed64
  | 2 => some .lengthDelimited
  | 3 => some .startGroup
  | 4 => some .endGroup
  | 5 => some .fixed32
  | _ => none

/-- `WireFormatLite::GetTagFieldNumber`. -/
def getTagFieldNumber (tag : UInt32) : Nat := (tag >>> 3).toNat

/-- `WireFormatLite::MakeTag`. -/
def makeTag (number : Nat) (type : WireType) : UInt32 := UInt32.ofNat number <<< 3 ||| type.code

namespace WireFormat

/-! ## Skipping -/

/-- Reads a field into the set.  What a failed read leaves there stays there. -/
def skipField
    (skipMessage : CodedInputStream → List WireField → Bool × CodedInputStream × List WireField)
    (s : CodedInputStream) (tag : UInt32) (unknownFields : List WireField) :
    Bool × CodedInputStream × List WireField :=
  let number := getTagFieldNumber tag
  match getTagWireType tag with
  | some .varint =>
      match s.readVarint64 with
      | (none, s) => (false, s, unknownFields)
      | (some value, s) => (true, s, unknownFields ++ [.varint number value])
  | some .fixed64 =>
      match s.readLittleEndian64 with
      | (none, s) => (false, s, unknownFields)
      | (some value, s) => (true, s, unknownFields ++ [.fixed64 number value])
  | some .lengthDelimited =>
      match s.readVarint32 with
      | (none, s) => (false, s, unknownFields)
      | (some length, s) =>
          let (ok, value, s) := s.readString [] length
          (ok, s, unknownFields ++ [.lengthDelimited number value])
  | some .startGroup =>
      match s.incrementRecursionDepth with
      | (false, s) => (false, s, unknownFields)
      | (true, s) =>
          match skipMessage s [] with
          | (false, s, group) => (false, s, unknownFields ++ [.group number group])
          | (true, s, group) =>
              let s := s.decrementRecursionDepth
              (s.lastTagWas (makeTag number .endGroup), s, unknownFields ++ [.group number group])
  | some .endGroup => (false, s, unknownFields)
  | some .fixed32 =>
      match s.readLittleEndian32 with
      | (none, s) => (false, s, unknownFields)
      | (some value, s) => (true, s, unknownFields ++ [.fixed32 number value])
  | none => (false, s, unknownFields)

/-- Reads fields up to a zero, a closing tag or the end of the input.  The loop of the source
ends because every round takes a byte; `fuel` bounds the rounds. -/
def skipMessage : Nat → CodedInputStream → List WireField →
    Bool × CodedInputStream × List WireField
  | 0, s, unknownFields => (false, s, unknownFields)
  | fuel + 1, s, unknownFields =>
      let (tag, s) := s.readTag
      if tag = 0 then (true, s, unknownFields)
      else if getTagWireType tag = some .endGroup then (true, s, unknownFields)
      else
        match skipField (skipMessage fuel) s tag unknownFields with
        | (false, s, unknownFields) => (false, s, unknownFields)
        | (true, s, unknownFields) => skipMessage fuel s unknownFields

/-! ## Writing the set -/

mutual

/-- The body of the loop of `SerializeUnknownFieldsToArray`. -/
def serializeUnknownField : WireField → List UInt8
  | .varint number value =>
      CodedOutputStream.writeTagToArray (makeTag number .varint) ++
        CodedOutputStream.writeVarint64ToArray value
  | .fixed32 number value =>
      CodedOutputStream.writeTagToArray (makeTag number .fixed32) ++
        CodedOutputStream.writeLittleEndian32ToArray value
  | .fixed64 number value =>
      CodedOutputStream.writeTagToArray (makeTag number .fixed64) ++
        CodedOutputStream.writeLittleEndian64ToArray value
  | .lengthDelimited number value =>
      CodedOutputStream.writeTagToArray (makeTag number .lengthDelimited) ++
        CodedOutputStream.writeStringWithSizeToArray value
  | .group number fields =>
      CodedOutputStream.writeTagToArray (makeTag number .startGroup) ++
        serializeUnknownFieldsToArray fields ++
        CodedOutputStream.writeTagToArray (makeTag number .endGroup)

/-- `WireFormat::SerializeUnknownFieldsToArray`. -/
def serializeUnknownFieldsToArray : List WireField → List UInt8
  | [] => []
  | field :: fields => serializeUnknownField field ++ serializeUnknownFieldsToArray fields

end

mutual

/-- The body of the loop of `ComputeUnknownFieldsSize`. -/
def computeUnknownFieldSize : WireField → Nat
  | .varint number value =>
      CodedOutputStream.varintSize32 (makeTag number .varint) +
        CodedOutputStream.varintSize64 value
  | .fixed32 number _ => CodedOutputStream.varintSize32 (makeTag number .fixed32) + 4
  | .fixed64 number _ => CodedOutputStream.varintSize32 (makeTag number .fixed64) + 8
  | .lengthDelimited number value =>
      CodedOutputStream.varintSize32 (makeTag number .lengthDelimited) +
        CodedOutputStream.varintSize32 (UInt32.ofNat value.length) + value.length
  | .group number fields =>
      CodedOutputStream.varintSize32 (makeTag number .startGroup) +
        computeUnknownFieldsSize fields +
        CodedOutputStream.varintSize32 (makeTag number .endGroup)

/-- `WireFormat::ComputeUnknownFieldsSize`. -/
def computeUnknownFieldsSize : List WireField → Nat
  | [] => 0
  | field :: fields => computeUnknownFieldSize field + computeUnknownFieldsSize fields

end

/-! ## Tags as numbers -/

/-- Shifting the number up makes room for the type. -/
theorem toNat_makeTag {number : Nat} (h : number < 2 ^ 29) (type : WireType) :
    (makeTag number type).toNat = Wire.makeTag number type.code.toNat := by
  have htype : type.code.toNat < 2 ^ 3 := by cases type <;> decide
  have hor := Nat.two_pow_add_eq_or_of_lt htype number
  have hnumber : number <<< 3 % 2 ^ 32 = 2 ^ 3 * number := by
    rw [Nat.shiftLeft_eq]
    omega
  rw [makeTag, UInt32.toNat_or, UInt32.toNat_shiftLeft, UInt32.toNat_ofNat',
    Nat.mod_eq_of_lt (show number < 2 ^ 32 by omega)]
  simp only [UInt32.reduceToNat, Nat.reduceMod]
  rw [hnumber, ← hor, Wire.makeTag]

theorem getTagFieldNumber_eq (tag : UInt32) : getTagFieldNumber tag = tag.toNat / 8 := by
  simp [getTagFieldNumber, Nat.shiftRight_eq_div_pow]

theorem and_seven (tag : UInt32) : (tag &&& 7).toNat = tag.toNat % 8 := by
  rw [UInt32.toNat_and]
  exact Nat.and_two_pow_sub_one_eq_mod tag.toNat 3

/-- The wire type is the tag modulo eight. -/
theorem getTagWireType_eq (tag : UInt32) : getTagWireType tag =
    match tag.toNat % 8 with
    | 0 => some .varint
    | 1 => some .fixed64
    | 2 => some .lengthDelimited
    | 3 => some .startGroup
    | 4 => some .endGroup
    | 5 => some .fixed32
    | _ => none := by
  rw [getTagWireType, and_seven]

/-! ## Skipping reads the field -/

end WireFormat

/-- How many more records and groups may be opened. -/
def CodedInputStream.levels (s : CodedInputStream) : Nat :=
  defaultRecursionLimit - s.recursionDepth

theorem CodedInputStream.levels_pos {s : CodedInputStream} :
    0 < s.levels ↔ s.recursionDepth + 1 ≤ defaultRecursionLimit := by
  unfold CodedInputStream.levels
  omega

theorem CodedInputStream.levels_deeper (s : CodedInputStream) :
    ({ s with recursionDepth := s.recursionDepth + 1 } : CodedInputStream).levels =
      s.levels - 1 := by
  simp only [CodedInputStream.levels]
  omega

namespace WireFormat

/-- A stream function skips what a reader of groups reads: it ends behind the closing tag,
which it leaves as the last one; if there is no such group, it fails or ends at another
tag. -/
structure Skips
    (skip : CodedInputStream → List WireField → Bool × CodedInputStream × List WireField)
    (group : Nat → Nat → List UInt8 → Option (List WireField × List UInt8)) : Prop where
  of_some : ∀ s set close fields rest,
    group s.levels close s.buffer = some (fields, rest) →
      skip s set =
        (true, { s with buffer := rest, lastTag := UInt32.ofNat close }, set ++ fields)
  of_none : ∀ s set close, close < 2 ^ 32 → close ≠ 0 → close % 8 = 4 →
    group s.levels close s.buffer = none →
      (skip s set).1 = false ∨ (skip s set).2.1.lastTag ≠ UInt32.ofNat close

section

variable {skip : CodedInputStream → List WireField → Bool × CodedInputStream × List WireField}
  {group : Nat → Nat → List UInt8 → Option (List WireField × List UInt8)}
  {s : CodedInputStream} {tag : UInt32} {field : WireField} {rest : List UInt8}

theorem toNat_ofNat_tag {n : Nat} (h : n < 2 ^ 32) : (UInt32.ofNat n).toNat = n := by
  rw [UInt32.toNat_ofNat', Nat.mod_eq_of_lt h]

theorem ofNat_tag_ne {n k : Nat} (hn : n < 2 ^ 32) (hk : k < 2 ^ 32) (hne : n ≠ k) :
    UInt32.ofNat n ≠ UInt32.ofNat k := by
  intro heq
  apply hne
  rw [← toNat_ofNat_tag hn, heq, toNat_ofNat_tag hk]

/-- The tags that close a group. -/
theorem getTagWireType_endGroup {n : Nat} (h : n < 2 ^ 32) :
    getTagWireType (UInt32.ofNat n) = some .endGroup ↔ n % 8 = 4 := by
  rw [getTagWireType_eq, toNat_ofNat_tag h]
  split <;> simp_all

theorem exists_of_fst {α β : Type} {p : α × β} {a : α} (h : p.1 = a) : ∃ b, p = (a, b) :=
  ⟨p.2, by rw [← h]⟩

theorem toNat_div_lt (tag : UInt32) : tag.toNat / 8 < 2 ^ 29 := by
  have := tag.toNat_lt
  omega

theorem ofNat_makeTag {number : Nat} (h : number < 2 ^ 29) (type : WireType) :
    makeTag number type = UInt32.ofNat (Wire.makeTag number type.code.toNat) := by
  rw [← toNat_makeTag h, UInt32.ofNat_toNat]

/-- The tag that closes the group of another one. -/
theorem makeTag_endGroup (tag : UInt32) :
    makeTag (tag.toNat / 8) .endGroup = UInt32.ofNat (Wire.makeTag (tag.toNat / 8) 4) :=
  ofNat_makeTag (toNat_div_lt tag) .endGroup

/-- `SkipField` puts the field that is there into the set. -/
theorem skipField_of_some (hskip : Skips skip group) (set : List WireField)
    (h : Wire.readFieldWith group s.levels tag.toNat s.buffer = some (field, rest)) :
    ∃ last, skipField skip s tag set =
      (true, { s with buffer := rest, lastTag := last }, set ++ [field]) := by
  have hnumber := getTagFieldNumber_eq tag
  have hwire := getTagWireType_eq tag
  cases Wire.fieldRead_of_readFieldWith h with
  | varint htype hread =>
      rw [htype] at hwire
      refine ⟨s.lastTag, ?_⟩
      simp only [skipField, hwire, hnumber, CodedInputStream.readVarint64_of_some hread]
  | fixed64 htype hread =>
      rw [htype] at hwire
      refine ⟨s.lastTag, ?_⟩
      simp only [skipField, hwire, hnumber, CodedInputStream.readLittleEndian64_of_some hread]
  | lengthDelimited htype hread =>
      rw [htype] at hwire
      obtain ⟨length, s', hlength, hstring⟩ := CodedInputStream.readString_of_some [] hread
      refine ⟨s.lastTag, ?_⟩
      simp only [skipField, hwire, hnumber, hlength, hstring]
  | @group fields _ htype hlevels hread =>
      rw [htype] at hwire
      have hdepth := CodedInputStream.levels_pos.mp hlevels
      rw [← s.levels_deeper] at hread
      have hgroup := hskip.of_some { s with recursionDepth := s.recursionDepth + 1 } []
        (Wire.makeTag (tag.toNat / 8) 4) fields rest hread
      refine ⟨UInt32.ofNat (Wire.makeTag (tag.toNat / 8) 4), ?_⟩
      simp only [skipField, hwire, hnumber, CodedInputStream.incrementRecursionDepth, hdepth,
        decide_true, hgroup, makeTag_endGroup, CodedInputStream.decrementRecursionDepth,
        CodedInputStream.lastTagWas, Nat.add_sub_cancel, List.nil_append]
  | fixed32 htype hread =>
      rw [htype] at hwire
      refine ⟨s.lastTag, ?_⟩
      simp only [skipField, hwire, hnumber, CodedInputStream.readLittleEndian32_of_some hread]

/-- It fails where there is no field. -/
theorem skipField_of_none (hskip : Skips skip group) (set : List WireField)
    (h : Wire.readFieldWith group s.levels tag.toNat s.buffer = none) :
    (skipField skip s tag set).1 = false := by
  have hnumber := getTagFieldNumber_eq tag
  have hwire := getTagWireType_eq tag
  unfold Wire.readFieldWith at h
  split at h
  · rename_i htype
    rw [htype] at hwire
    have hread := CodedInputStream.readVarint64_of_none (Option.map_eq_none_iff.mp h)
    obtain ⟨s', hpair⟩ := exists_of_fst hread
    simp only [skipField, hwire, hpair]
  · rename_i htype
    rw [htype] at hwire
    have hread := CodedInputStream.readLittleEndian64_of_none (Option.map_eq_none_iff.mp h)
    obtain ⟨s', hpair⟩ := exists_of_fst hread
    simp only [skipField, hwire, hpair]
  · rename_i htype
    rw [htype] at hwire
    rcases CodedInputStream.readString_of_none [] (Option.map_eq_none_iff.mp h) with
      hread | ⟨length, s', hlength, hstring⟩
    · obtain ⟨s', hpair⟩ := exists_of_fst hread
      simp only [skipField, hwire, hpair]
    · simp only [skipField, hwire, hlength, hstring]
  · rename_i htype
    rw [htype] at hwire
    split at h
    · rename_i hlevels
      have hdepth := CodedInputStream.levels_pos.mp hlevels
      have hread := Option.map_eq_none_iff.mp h
      rw [← s.levels_deeper] at hread
      have hlt := toNat_div_lt tag
      have hgroup := hskip.of_none { s with recursionDepth := s.recursionDepth + 1 } []
        (Wire.makeTag (tag.toNat / 8) 4) (by unfold Wire.makeTag; omega)
        (by unfold Wire.makeTag; omega) (by simp) hread
      simp only [skipField, hwire, hnumber, CodedInputStream.incrementRecursionDepth, hdepth,
        decide_true, makeTag_endGroup]
      split
      · rfl
      · rename_i s' fields hpair
        rw [hpair] at hgroup
        exact decide_eq_false (hgroup.resolve_left (by simp))
    · rename_i hlevels
      have hdepth := mt CodedInputStream.levels_pos.mpr hlevels
      simp only [skipField, hwire, CodedInputStream.incrementRecursionDepth, hdepth,
        decide_false]
  · rename_i htype
    rw [htype] at hwire
    have hread := CodedInputStream.readLittleEndian32_of_none (Option.map_eq_none_iff.mp h)
    obtain ⟨s', hpair⟩ := exists_of_fst hread
    simp only [skipField, hwire, hpair]
  · rename_i h0 h1 h2 h3 h5
    have hne : tag.toNat % 8 ≠ 0 ∧ tag.toNat % 8 ≠ 1 ∧ tag.toNat % 8 ≠ 2 ∧ tag.toNat % 8 ≠ 3 ∧
        tag.toNat % 8 ≠ 5 := ⟨h0, h1, h2, h3, h5⟩
    have htype : tag.toNat % 8 = 4 ∨ tag.toNat % 8 = 6 ∨ tag.toNat % 8 = 7 := by omega
    rcases htype with htype | htype | htype <;> rw [htype] at hwire <;>
      simp only [skipField, hwire]

/-- The two for a tag that is given as a number. -/
theorem skipField_ofNat (hskip : Skips skip group) {n : Nat} (hlt : n < 2 ^ 32)
    (s : CodedInputStream) (set : List WireField) :
    (∀ field rest, Wire.readFieldWith group s.levels n s.buffer = some (field, rest) →
      ∃ last, skipField skip s (UInt32.ofNat n) set =
        (true, { s with buffer := rest, lastTag := last }, set ++ [field])) ∧
    (Wire.readFieldWith group s.levels n s.buffer = none →
      (skipField skip s (UInt32.ofNat n) set).1 = false) := by
  have hnat := toNat_ofNat_tag hlt
  constructor
  · intro field rest h
    rw [← hnat] at h
    exact skipField_of_some hskip set h
  · intro h
    rw [← hnat] at h
    exact skipField_of_none hskip set h

/-- Skipping a message reads a group. -/
theorem skips_skipMessage (fuel : Nat) : Skips (skipMessage fuel) (Wire.readGroup fuel) := by
  induction fuel with
  | zero =>
      refine ⟨?_, fun _ _ _ _ _ _ _ => .inl rfl⟩
      intro s set close fields rest h
      cases h
  | succ fuel ih =>
      constructor
      · intro s set close fields rest h
        obtain ⟨tag, behind, htag, hzero, hcases⟩ := Wire.readGroup_eq_some h
        have hlt := Wire.readTag_lt htag
        have hne : UInt32.ofNat tag ≠ 0 := ofNat_tag_ne hlt (by decide) hzero
        rw [skipMessage, CodedInputStream.readTag_of_some htag]
        simp only [if_neg hne, getTagWireType_endGroup hlt]
        rcases hcases with ⟨htype, rfl, rfl, rfl⟩ | ⟨htype, field, next, fields', hfield, hrec, rfl⟩
        · rw [if_pos htype, List.append_nil]
        · rw [if_neg htype]
          obtain ⟨last, hskip⟩ := (skipField_ofNat ih hlt { s with
            buffer := behind, lastTag := UInt32.ofNat tag } set).1 field next hfield
          have hnext := ih.of_some { s with buffer := next, lastTag := last } (set ++ [field])
            close fields' rest hrec
          simp only [hskip, hnext, List.append_assoc, List.singleton_append]
      · intro s set close hclose hpos htype h
        rcases Wire.readGroup_eq_none h with hnone | ⟨tag, behind, htag, hcases⟩
        · obtain ⟨hzero, hlast⟩ := CodedInputStream.readTag_of_none hnone
          refine .inr ?_
          rw [skipMessage]
          simp only [hzero, if_true, hlast]
          exact (ofNat_tag_ne hclose (by decide) hpos).symm
        · have hlt := Wire.readTag_lt htag
          rw [skipMessage, CodedInputStream.readTag_of_some htag]
          rcases hcases with rfl | ⟨hzero, hend, hother⟩ | ⟨hzero, hend, hcases⟩
          · exact .inr (ofNat_tag_ne hclose (by decide) hpos).symm
          · have hne : UInt32.ofNat tag ≠ 0 := ofNat_tag_ne hlt (by decide) hzero
            simp only [if_neg hne, getTagWireType_endGroup hlt, if_pos hend]
            exact .inr (ofNat_tag_ne hlt hclose hother)
          · have hne : UInt32.ofNat tag ≠ 0 := ofNat_tag_ne hlt (by decide) hzero
            simp only [if_neg hne, getTagWireType_endGroup hlt, if_neg hend]
            obtain ⟨hsome, hnone⟩ := skipField_ofNat ih hlt { s with
              buffer := behind, lastTag := UInt32.ofNat tag } set
            rcases hcases with hfield | ⟨field, next, hfield, hrec⟩
            · obtain ⟨r, hskip⟩ := exists_of_fst (hnone hfield)
              exact .inl (by rw [hskip])
            · obtain ⟨last, hskip⟩ := hsome field next hfield
              rw [hskip]
              exact ih.of_none { s with buffer := next, lastTag := last } _ close hclose hpos htype
                hrec

end

/-! ## Writing and sizes -/

/-- A string is written behind its length. -/
theorem writeStringWithSizeToArray_eq {value : List UInt8} (h : value.length < 2 ^ 32) :
    CodedOutputStream.writeStringWithSizeToArray value =
      Varint.encode value.length ++ value := by
  rw [CodedOutputStream.writeStringWithSizeToArray, CodedOutputStream.writeVarint32ToArray_eq,
    toNat_ofNat_tag h]

mutual

/-- A field is written as its tag and what belongs behind it. -/
theorem serializeUnknownField_eq (field : WireField) (levels : Nat) (h : field.Valid levels) :
    serializeUnknownField field = Varint.encode field.tag ++ field.payload := by
  cases field with
  | varint number value =>
      simp [serializeUnknownField, WireField.tag, WireField.payload,
        toNat_makeTag h.2, WireType.code]
  | fixed32 number value =>
      simp [serializeUnknownField, WireField.tag, WireField.payload,
        toNat_makeTag h, WireType.code, CodedOutputStream.writeLittleEndian32ToArray]
  | fixed64 number value =>
      simp [serializeUnknownField, WireField.tag, WireField.payload,
        toNat_makeTag h, WireType.code, CodedOutputStream.writeLittleEndian64ToArray]
  | lengthDelimited number value =>
      have hlen : value.length < 2 ^ 32 := by
        have := h.2
        omega
      simp [serializeUnknownField, WireField.tag, WireField.payload,
        toNat_makeTag h.1, WireType.code, writeStringWithSizeToArray_eq hlen]
  | group number fields =>
      simp [serializeUnknownField, WireField.tag, WireField.payload,
        toNat_makeTag h.1, WireType.code,
        serializeUnknownFieldsToArray_eq fields (levels - 1) h.2.2]

/-- The set is written field by field. -/
theorem serializeUnknownFieldsToArray_eq (fields : List WireField) (levels : Nat)
    (h : WireField.AllValid levels fields) :
    serializeUnknownFieldsToArray fields = WireField.encodeAll fields := by
  cases fields with
  | nil => rfl
  | cons field fields =>
      rw [serializeUnknownFieldsToArray, WireField.encodeAll,
        serializeUnknownField_eq field levels h.1,
        serializeUnknownFieldsToArray_eq fields levels h.2]

end

mutual

theorem computeUnknownFieldSize_eq (field : WireField) :
    computeUnknownFieldSize field = (serializeUnknownField field).length := by
  cases field with
  | varint number value => simp [computeUnknownFieldSize, serializeUnknownField]
  | fixed32 number value =>
      simp [computeUnknownFieldSize, serializeUnknownField,
        CodedOutputStream.writeLittleEndian32ToArray]
  | fixed64 number value =>
      simp [computeUnknownFieldSize, serializeUnknownField,
        CodedOutputStream.writeLittleEndian64ToArray]
  | lengthDelimited number value =>
      simp [computeUnknownFieldSize, serializeUnknownField,
        CodedOutputStream.writeStringWithSizeToArray, Nat.add_assoc]
  | group number fields =>
      simp [computeUnknownFieldSize, serializeUnknownField, computeUnknownFieldsSize_eq fields,
        Nat.add_assoc]

/-- The size that is computed is the size that is written. -/
theorem computeUnknownFieldsSize_eq (fields : List WireField) :
    computeUnknownFieldsSize fields = (serializeUnknownFieldsToArray fields).length := by
  cases fields with
  | nil => rfl
  | cons field fields =>
      rw [computeUnknownFieldsSize, serializeUnknownFieldsToArray, List.length_append,
        computeUnknownFieldSize_eq field, computeUnknownFieldsSize_eq fields]

end

/-- One more field takes as many bytes as it is written in. -/
theorem computeUnknownFieldsSize_concat (fields : List WireField) {field : WireField}
    {levels : Nat} (h : field.Valid levels) :
    computeUnknownFieldsSize (fields ++ [field]) =
      computeUnknownFieldsSize fields + (Varint.encode field.tag ++ field.payload).length := by
  induction fields with
  | nil =>
      simp only [List.nil_append, computeUnknownFieldsSize, computeUnknownFieldSize_eq,
        serializeUnknownField_eq field levels h, Nat.add_zero, Nat.zero_add]
  | cons first fields ih =>
      rw [List.cons_append, computeUnknownFieldsSize, computeUnknownFieldsSize, ih,
        Nat.add_assoc]

end WireFormat

end Pb

end GEngine
