import GEngine.Pb.Message

/-!
# GEngine.Pb.Codec

Writing a message, and the two functions by which the program uses messages:
`SerializeToString` and `ParseFromString` (`message_lite.cc`).

`Lawful` collects what the generated code of a message type is held to.  The main law is
about merging: reading what was written for `m`, in front of anything else, goes on as if
`m` had been merged into the message by `MergeFrom`.  From it follow the round trip
(`parseFromString_serialize`) and that what was read can be written and read again
(`reparse`).
-/

namespace GEngine

namespace Pb

/-- The code that is generated for a message type. -/
structure MessageType (M : Type) extends ParseTable M where
  new : M
  serializeWithCachedSizesToArray : M → List UInt8
  byteSize : M → Nat
  mergeFrom : M → M → M

namespace MessageType

variable {M : Type}

/-- `MessageLite::SerializeToString`.  The string is made as long as `ByteSize` says; if
something else is written, the program ends with a fatal error (`none`). -/
def serializeToString (T : MessageType M) (m : M) : Option (List UInt8) :=
  let target := T.serializeWithCachedSizesToArray m
  if target.length = T.byteSize m then some target else none

/-- `MessageLite::ParseFromString`: whether all of the data was read, and the message as the
parser has left it. -/
def parseFromString (T : MessageType M) (data : List UInt8) : Bool × M :=
  let (ok, input, m) :=
    T.mergePartialFromCodedStream (data.length + 1) (CodedInputStream.ofArray data) T.new
  (ok && input.consumedEntireMessage, m)

end MessageType

/-! ## Fields -/

section

variable {M N : Type}

/-- `WireFormatLite::WriteUInt32ToArray` for a field that is set. -/
def writeUInt32 (number : Nat) : Option UInt32 → List UInt8
  | none => []
  | some value =>
      CodedOutputStream.writeTagToArray (makeTag number .varint) ++
        CodedOutputStream.writeVarint32ToArray value

/-- `WireFormatLite::WriteStringToArray` for a field that is set. -/
def writeString (number : Nat) : Option (List UInt8) → List UInt8
  | none => []
  | some value =>
      CodedOutputStream.writeTagToArray (makeTag number .lengthDelimited) ++
        CodedOutputStream.writeStringWithSizeToArray value

/-- `WireFormatLite::WriteMessageNoVirtualToArray` for a field that is set.  `GetCachedSize` is
what `ByteSize` has computed for the inner message just before. -/
def writeMessage (T : MessageType N) (number : Nat) : Option N → List UInt8
  | none => []
  | some value =>
      CodedOutputStream.writeTagToArray (makeTag number .lengthDelimited) ++
        CodedOutputStream.writeVarint32ToArray (UInt32.ofNat (T.byteSize value)) ++
        T.serializeWithCachedSizesToArray value

/-- `1 + UInt32Size(…)` in `ByteSize`, for a field that is set; the tag has one byte. -/
def uint32Size : Option UInt32 → Nat
  | none => 0
  | some value => 1 + CodedOutputStream.varintSize32 value

/-- `1 + StringSize(…)` in `ByteSize`, for a field that is set. -/
def stringSize : Option (List UInt8) → Nat
  | none => 0
  | some value =>
      1 + (CodedOutputStream.varintSize32 (UInt32.ofNat value.length) + value.length)

/-- `1 + MessageSizeNoVirtual(…)` in `ByteSize`, for a field that is set. -/
def messageSize (T : MessageType N) : Option N → Nat
  | none => 0
  | some value =>
      1 + (CodedOutputStream.varintSize32 (UInt32.ofNat (T.byteSize value)) + T.byteSize value)

/-- `MergeFrom` for one field: `if (from.has_…()) set_…(from.…())`. -/
def mergeField (set : M → N → M) (m : M) : Option N → M
  | none => m
  | some value => set m value

/-! ### Sizes -/

/-- Field numbers below 16 have tags of one byte. -/
theorem length_writeTagToArray {number : Nat} (h : number < 16) (type : WireType) :
    (CodedOutputStream.writeTagToArray (makeTag number type)).length = 1 := by
  have htype : type.code.toNat < 8 := by cases type <;> decide
  have hsmall : (makeTag number type).toNat < 128 := by
    rw [WireFormat.toNat_makeTag (by omega), Wire.makeTag]
    omega
  rw [CodedOutputStream.writeTagToArray_eq, Varint.encode_small hsmall, List.length_singleton]

@[simp] theorem length_writeUInt32 {number : Nat} (h : number < 16) (value : Option UInt32) :
    (writeUInt32 number value).length = uint32Size value := by
  cases value with
  | none => rfl
  | some value =>
      rw [uint32Size, writeUInt32, List.length_append, length_writeTagToArray h,
        CodedOutputStream.varintSize32_eq, CodedOutputStream.writeVarint32ToArray_eq]

@[simp] theorem length_writeString {number : Nat} (h : number < 16)
    (value : Option (List UInt8)) : (writeString number value).length = stringSize value := by
  cases value with
  | none => rfl
  | some value =>
      rw [stringSize, writeString, List.length_append, length_writeTagToArray h,
        CodedOutputStream.writeStringWithSizeToArray, List.length_append,
        CodedOutputStream.varintSize32_eq, CodedOutputStream.writeVarint32ToArray_eq]

/-- What is written for an inner message is as long as it is counted. -/
theorem length_writeMessage {T : MessageType N}
    (hT : ∀ n, T.byteSize n = (T.serializeWithCachedSizesToArray n).length) {number : Nat}
    (h : number < 16) (value : Option N) :
    (writeMessage T number value).length = messageSize T value := by
  cases value with
  | none => rfl
  | some value =>
      rw [messageSize, writeMessage, List.length_append, List.length_append,
        length_writeTagToArray h, CodedOutputStream.varintSize32_eq,
        CodedOutputStream.writeVarint32ToArray_eq, ← hT]
      omega

/-! ### Sizes of what is read -/

theorem varintSize32_ofNat_le (n : Nat) :
    CodedOutputStream.varintSize32 (UInt32.ofNat n) ≤ (Varint.encode n).length := by
  rw [CodedOutputStream.varintSize32_eq, UInt32.toNat_ofNat']
  exact Varint.length_encode_mono (Nat.mod_le n _)

/-- An inner message that was merged with one read from `k` bytes.  Its length can take more
bytes than before, but not more than the length that was read. -/
theorem messageSize_le {T : MessageType N} (hnew : T.byteSize T.new = 0) {old : Option N} {n : N}
    {k : Nat} (hlt : T.byteSize (old.getD T.new) + k < 2 ^ 32)
    (hle : T.byteSize n ≤ T.byteSize (old.getD T.new) + k) :
    messageSize T (some n) ≤ messageSize T old + 1 + (Varint.encode k).length + k := by
  have hsize := varintSize32_ofNat_le (T.byteSize n)
  cases old with
  | none =>
      rw [Option.getD_none, hnew, Nat.zero_add] at hle
      have hmono := Varint.length_encode_mono hle
      simp only [messageSize]
      omega
  | some value =>
      rw [Option.getD_some] at hle hlt
      have hmono := Varint.length_encode_mono hle
      have hsum := Varint.length_encode_add (T.byteSize value) k
      have hold : CodedOutputStream.varintSize32 (UInt32.ofNat (T.byteSize value)) =
          (Varint.encode (T.byteSize value)).length := by
        rw [CodedOutputStream.varintSize32_eq, WireFormat.toNat_ofNat_tag (by omega)]
      simp only [messageSize, hold]
      omega

section Bounded

variable {number limit : Nat} {size : M → Nat}

/-- A number that is read raises the size by at most its bytes. -/
theorem bounded_uint32 {set : M → UInt32 → M}
    (hset : ∀ m v, size (set m v) ≤ size m + uint32Size (some v)) :
    (Entry.uint32 number set).Bounded limit size := by
  refine Entry.bounded_uint32 fun m v => (hset m v).trans ?_
  rw [uint32Size, CodedOutputStream.varintSize32_eq, Nat.add_assoc]

/-- So does a string. -/
theorem bounded_string {set : M → List UInt8 → M}
    (hset : ∀ m value, size (set m value) ≤ size m + stringSize (some value)) :
    (Entry.bytes number set).Bounded limit size := by
  refine Entry.bounded_bytes fun m value => (hset m value).trans ?_
  have hsize := varintSize32_ofNat_le value.length
  simp only [stringSize]
  omega

/-- So does an inner message, also where it is merged with an earlier one. -/
theorem bounded_message {T : MessageType N} {S' : Schema N} (hS' : S'.Bounded (2 ^ 32) T.byteSize)
    (hnew : T.byteSize T.new = 0) {get : M → Option N} {set : M → N → M}
    (hget : ∀ m, messageSize T (get m) ≤ size m)
    (hset : ∀ m n, size (set m n) + messageSize T (get m) ≤ size m + messageSize T (some n)) :
    (Entry.message number S' (fun m => (get m).getD T.new) set).Bounded (2 ^ 32) size := by
  refine Entry.bounded_message hS' (fun m => ?_) fun m n k hlt hle => ?_
  · refine Nat.le_trans ?_ (hget m)
    cases get m with
    | none => rw [Option.getD_none, hnew]; exact Nat.zero_le _
    | some value => simp only [Option.getD_some, messageSize]; omega
  · have hsize := messageSize_le hnew hlt hle
    have := hset m n
    omega

end Bounded

/-! ### Reading back -/

variable {S : Schema M} {levels number : Nat} {m : M}

theorem not_closes_makeTag {type : Nat} (hpos : 0 < number) (htype : type < 8) (hne : type ≠ 4) :
    ¬ Schema.Closes (Wire.makeTag number type) := by
  unfold Schema.Closes Wire.makeTag
  omega

theorem makeTag_lt {type : Nat} (hlt : number < 16) (htype : type < 8) :
    Wire.makeTag number type < 2 ^ 32 := by
  unfold Wire.makeTag
  omega

/-- A number that was written is read as if it had been merged. -/
theorem run_writeUInt32 {set : M → UInt32 → M} (hpos : 0 < number) (hlt : number < 16)
    (hlook : S.lookup (Wire.makeTag number 0) = some (Entry.uint32 number set))
    (value : Option UInt32) (rest : List UInt8) :
    S.run levels (writeUInt32 number value ++ rest) m =
      S.run levels rest (mergeField set m value) := by
  cases value with
  | none => rfl
  | some value =>
      have htag : (makeTag number .varint).toNat = Wire.makeTag number 0 :=
        WireFormat.toNat_makeTag (by omega) .varint
      rw [writeUInt32, CodedOutputStream.writeTagToArray_eq,
        CodedOutputStream.writeVarint32ToArray_eq, htag]
      exact Schema.run_known (Entry.uint32 number set) (makeTag_lt hlt (by omega))
        (not_closes_makeTag hpos (by omega) (by omega)) hlook (Entry.read_uint32 value rest)

/-- So is a string. -/
theorem run_writeString {set : M → List UInt8 → M} (hpos : 0 < number) (hlt : number < 16)
    (hlook : S.lookup (Wire.makeTag number 2) = some (Entry.bytes number set))
    {value : Option (List UInt8)} (hlen : (writeString number value).length < 2 ^ 31)
    (rest : List UInt8) :
    S.run levels (writeString number value ++ rest) m =
      S.run levels rest (mergeField set m value) := by
  cases value with
  | none => rfl
  | some value =>
      have htag : (makeTag number .lengthDelimited).toNat = Wire.makeTag number 2 :=
        WireFormat.toNat_makeTag (by omega) .lengthDelimited
      have hvalue : value.length < 2 ^ 31 := by
        simp only [writeString, CodedOutputStream.writeStringWithSizeToArray,
          List.length_append] at hlen
        omega
      rw [writeString, CodedOutputStream.writeTagToArray_eq,
        WireFormat.writeStringWithSizeToArray_eq (by omega), htag]
      exact Schema.run_known (Entry.bytes number set) (makeTag_lt hlt (by omega))
        (not_closes_makeTag hpos (by omega) (by omega)) hlook (Entry.read_bytes hvalue rest)

/-! ## The laws of generated code -/

/-- What the code of a message type is held to.  `Valid levels m` says that `m` can be on the
wire. -/
structure Lawful (T : MessageType M) (S : Schema M) (Valid : Nat → M → Prop) : Prop where
  refines : Refines T.toParseTable S
  size : ∀ m, T.byteSize m = (T.serializeWithCachedSizesToArray m).length
  size_new : T.byteSize T.new = 0
  bounded : S.Bounded (2 ^ 32) T.byteSize
  merge_new : ∀ m, T.mergeFrom T.new m = m
  valid_new : ∀ levels, Valid levels T.new
  run_serialize : ∀ levels a m rest, Valid levels m →
    (T.serializeWithCachedSizesToArray m).length < 2 ^ 31 →
      S.run levels (T.serializeWithCachedSizesToArray m ++ rest) a =
        S.run levels rest (T.mergeFrom a m)
  valid_readAny : ∀ levels tag bs m m' rest, tag < 2 ^ 32 → ¬ Schema.Closes tag →
    Valid levels m → S.readAny levels tag bs m = some (m', rest) → Valid levels m'

/-- So is an inner message. -/
theorem run_writeMessage {T : MessageType N} {S' : Schema N} {Valid : Nat → N → Prop}
    (hT : Lawful T S' Valid) {get : M → Option N} {set : M → N → M} (hpos : 0 < number)
    (hlt : number < 16) (hlook : S.lookup (Wire.makeTag number 2) =
      some (Entry.message number S' (fun m => (get m).getD T.new) set))
    {value : Option N} (hvalid : ∀ n ∈ value, 0 < levels ∧ Valid (levels - 1) n)
    (hlen : (writeMessage T number value).length < 2 ^ 31) (rest : List UInt8) :
    S.run levels (writeMessage T number value ++ rest) m =
      S.run levels rest
        (mergeField (fun m n => set m (T.mergeFrom ((get m).getD T.new) n)) m value) := by
  cases value with
  | none => rfl
  | some value =>
      obtain ⟨hlevels, hvalue⟩ := hvalid value rfl
      have htag : (makeTag number .lengthDelimited).toNat = Wire.makeTag number 2 :=
        WireFormat.toNat_makeTag (by omega) .lengthDelimited
      have hbody : (T.serializeWithCachedSizesToArray value).length < 2 ^ 31 := by
        simp only [writeMessage, List.length_append] at hlen
        omega
      have hsize : (UInt32.ofNat (T.byteSize value)).toNat =
          (T.serializeWithCachedSizesToArray value).length := by
        rw [hT.size, WireFormat.toNat_ofNat_tag (by omega)]
      have hinner : S'.run (levels - 1) (T.serializeWithCachedSizesToArray value)
          ((get m).getD T.new) = .accepted (T.mergeFrom ((get m).getD T.new) value) := by
        have hrun := hT.run_serialize (levels - 1) ((get m).getD T.new) value []
          hvalue hbody
        rwa [List.append_nil, Schema.run_nil] at hrun
      rw [writeMessage, CodedOutputStream.writeTagToArray_eq,
        CodedOutputStream.writeVarint32ToArray_eq, htag, hsize, List.append_assoc (Varint.encode _)]
      exact Schema.run_known (Entry.message number S' (fun m => (get m).getD T.new) set)
        (makeTag_lt hlt (by omega)) (not_closes_makeTag hpos (by omega) (by omega)) hlook
        (Entry.read_message (fun m => (get m).getD T.new) (by omega) hlevels hinner rest)

/-- An inner message that was read can be on the wire. -/
theorem valid_of_read_message {T : MessageType N} {S' : Schema N} {Valid : Nat → N → Prop}
    (hT : Lawful T S' Valid) {get : M → Option N} {set : M → N → M} {bs rest : List UInt8}
    {m' : M} (hvalid : ∀ n ∈ get m, 0 < levels ∧ Valid (levels - 1) n)
    (h : (Entry.message number S' (fun m => (get m).getD T.new) set).read levels bs m =
      some (m', rest)) :
    ∃ n, m' = set m n ∧ 0 < levels ∧ Valid (levels - 1) n := by
  simp only [Entry.message] at h
  split at h
  · cases h
  · split at h
    · rename_i hlevels
      split at h
      · rename_i n hrun
        cases h
        have hold : Valid (levels - 1) ((get m).getD T.new) := by
          cases hget : get m with
          | none => exact hT.valid_new _
          | some n => exact (hvalid n hget).2
        exact ⟨n, rfl, hlevels, Schema.run_keeps (hT.valid_readAny (levels - 1)) hold hrun⟩
      · cases h
    · cases h

/-- The unknown fields are read back as unknown fields. -/
theorem run_serializeUnknownFields {fields : List WireField} (h : S.Unknown levels fields)
    (rest : List UInt8) :
    S.run levels (WireFormat.serializeUnknownFieldsToArray fields ++ rest) m =
      S.run levels rest (fields.foldl S.keep m) := by
  rw [WireFormat.serializeUnknownFieldsToArray_eq fields levels h.1]
  exact Schema.run_encodeAll fields h.1 h.2 rest

end

/-! ## Parsing -/

section

variable {M : Type} {T : MessageType M} {S : Schema M} {data : List UInt8} {m : M}

/-- `ParseFromString` is the verdict of the schema. -/
theorem parseFromString_cases (hT : Refines T.toParseTable S)
    (hdata : data.length < kDefaultTotalBytesLimit) :
    match S.run defaultRecursionLimit data T.new with
    | .accepted m => T.parseFromString data = (true, m)
    | .stopped m => T.parseFromString data = (false, m)
    | .failed => (T.parseFromString data).1 = false := by
  have hagrees := agrees_mergePartialFromCodedStream (m := T.new) hT
    (CodedInputStream.flat_ofArray hdata) (Nat.lt_succ_self data.length)
  have hlevels : (CodedInputStream.ofArray data).levels = defaultRecursionLimit := rfl
  have hbuffer : (CodedInputStream.ofArray data).buffer = data := rfl
  rw [hlevels, hbuffer] at hagrees
  unfold MessageType.parseFromString
  cases hrun : S.run defaultRecursionLimit data T.new with
  | accepted m =>
      rw [hrun] at hagrees
      have hmerge : T.mergePartialFromCodedStream (data.length + 1)
        (CodedInputStream.ofArray data) T.new =
          (true, (CodedInputStream.ofArray data).atEnd, m) := hagrees
      simp only [hmerge]
      rfl
  | stopped m =>
      rw [hrun] at hagrees
      obtain ⟨s', hmerge, hend⟩ := hagrees
      simp only [hmerge, CodedInputStream.consumedEntireMessage, hend, Bool.and_false]
  | failed =>
      rw [hrun] at hagrees
      obtain ⟨r, hmerge⟩ := WireFormat.exists_of_fst
        (show (T.mergePartialFromCodedStream (data.length + 1)
          (CodedInputStream.ofArray data) T.new).1 = false from hagrees)
      simp only [hmerge, Bool.false_and]

theorem parseFromString_of_accepted (hT : Refines T.toParseTable S)
    (hdata : data.length < kDefaultTotalBytesLimit)
    (h : S.run defaultRecursionLimit data T.new = .accepted m) :
    T.parseFromString data = (true, m) := by
  have hcases := parseFromString_cases hT hdata
  rwa [h] at hcases

theorem run_of_parseFromString (hT : Refines T.toParseTable S)
    (hdata : data.length < kDefaultTotalBytesLimit) (h : T.parseFromString data = (true, m)) :
    S.run defaultRecursionLimit data T.new = .accepted m := by
  have hcases := parseFromString_cases hT hdata
  cases hrun : S.run defaultRecursionLimit data T.new with
  | accepted m' =>
      rw [hrun] at hcases
      simp only at hcases
      rw [hcases] at h
      cases h
      rfl
  | stopped m' =>
      rw [hrun] at hcases
      simp only at hcases
      rw [hcases] at h
      cases h
  | failed =>
      rw [hrun] at hcases
      simp only at hcases
      rw [h] at hcases
      cases hcases

variable {Valid : Nat → M → Prop}

/-- The check in `SerializeToString` is passed. -/
theorem serializeToString_eq (hT : Lawful T S Valid) (m : M) :
    T.serializeToString m = some (T.serializeWithCachedSizesToArray m) :=
  if_pos (hT.size m).symm

theorem size_lt {n : Nat} (h : n < kDefaultTotalBytesLimit) : n < 2 ^ 31 := by
  unfold kDefaultTotalBytesLimit at h
  omega

/-- What was written for a message, and what follows it. -/
theorem run_serialize_new (hT : Lawful T S Valid) (hm : Valid defaultRecursionLimit m)
    (hlen : (T.serializeWithCachedSizesToArray m).length < kDefaultTotalBytesLimit)
    (rest : List UInt8) :
    S.run defaultRecursionLimit (T.serializeWithCachedSizesToArray m ++ rest) T.new =
      S.run defaultRecursionLimit rest m := by
  rw [hT.run_serialize _ _ _ _ hm (size_lt hlen), hT.merge_new]

/-- Reading back. -/
theorem parseFromString_serialize (hT : Lawful T S Valid) (hm : Valid defaultRecursionLimit m)
    (hlen : (T.serializeWithCachedSizesToArray m).length < kDefaultTotalBytesLimit) :
    T.parseFromString (T.serializeWithCachedSizesToArray m) = (true, m) := by
  refine parseFromString_of_accepted hT.refines hlen ?_
  have hrun := run_serialize_new hT hm hlen []
  rwa [List.append_nil, Schema.run_nil] at hrun

/-- What was read can be written in no more bytes, and read again. -/
theorem reparse (hT : Lawful T S Valid) (hdata : data.length < kDefaultTotalBytesLimit)
    (h : T.parseFromString data = (true, m)) :
    Valid defaultRecursionLimit m ∧
      (T.serializeWithCachedSizesToArray m).length ≤ data.length ∧
      T.parseFromString (T.serializeWithCachedSizesToArray m) = (true, m) := by
  have hrun := run_of_parseFromString hT.refines hdata h
  have hvalid : Valid defaultRecursionLimit m :=
    Schema.run_keeps (hT.valid_readAny defaultRecursionLimit) (hT.valid_new _) hrun
  have hsize : (T.serializeWithCachedSizesToArray m).length ≤ data.length := by
    have hlimit : T.byteSize T.new + data.length < 2 ^ 32 := by
      rw [hT.size_new, Nat.zero_add]
      exact Nat.lt_trans (size_lt hdata) (by decide)
    have hle := hT.bounded.run hlimit hrun
    rwa [hT.size_new, Nat.zero_add, hT.size] at hle
  exact ⟨hvalid, hsize, parseFromString_serialize hT hvalid (Nat.lt_of_le_of_lt hsize hdata)⟩

/-! ## Bytes behind a message -/

/-- A zero behind a message stops the parser: the message is there, but the parse has
failed. -/
theorem parseFromString_zero (hT : Lawful T S Valid) (hm : Valid defaultRecursionLimit m)
    {rest : List UInt8}
    (hlen : (T.serializeWithCachedSizesToArray m ++ 0 :: rest).length < kDefaultTotalBytesLimit) :
    T.parseFromString (T.serializeWithCachedSizesToArray m ++ 0 :: rest) = (false, m) := by
  have hcases := parseFromString_cases hT.refines hlen
  have hstop : S.run defaultRecursionLimit (0 :: rest) m = .stopped m :=
    Schema.run_of_closes (Wire.readTag_byte (by decide) rest) (.inl rfl)
  rw [List.length_append] at hlen
  rw [run_serialize_new hT hm (by omega), hstop] at hcases
  exact hcases

/-- Whatever the byte behind a message is, the parse fails. -/
theorem parseFromString_byte (hT : Lawful T S Valid) (hS : S.NeedsBytes)
    (hm : Valid defaultRecursionLimit m) (b : UInt8)
    (hlen : (T.serializeWithCachedSizesToArray m ++ [b]).length < kDefaultTotalBytesLimit) :
    (T.parseFromString (T.serializeWithCachedSizesToArray m ++ [b])).1 = false := by
  cases hok : T.parseFromString (T.serializeWithCachedSizesToArray m ++ [b]) with
  | mk ok m' =>
      cases ok with
      | false => rfl
      | true =>
          have hrun := run_of_parseFromString hT.refines hlen hok
          rw [List.length_append] at hlen
          rw [run_serialize_new hT hm (by omega)] at hrun
          exact absurd hrun (Schema.run_byte_ne_accepted hS _ b m m')

end

end Pb

end GEngine
