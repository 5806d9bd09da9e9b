import GEngine.Pb.Codec

/-!
# GEngine.Pb.Server

The messages by which servers register with each other (`server.proto`, `server.pb.cc`):
`serverappinfo`, `ss_register_request` and `ss_register_return`.

A field that is not set is `none`; its value in the class is then the default.
-/

namespace GEngine

namespace Pb

/-! ## `serverappinfo` -/

/-- `serverappinfo`.  What a server says of itself. -/
structure Serverappinfo where
  id : Option UInt32
  type : Option UInt32
  name : Option (List UInt8)
  ip : Option (List UInt8)
  port : Option UInt32
  unknownFields : List WireField

namespace Serverappinfo

/-- `serverappinfo()`: no field is set. -/
def new : Serverappinfo := ⟨none, none, none, none, none, []⟩

/-- `serverappinfo::set_id`. -/
def setId (m : Serverappinfo) (value : UInt32) : Serverappinfo := { m with id := some value }

/-- `serverappinfo::set_type`. -/
def setType (m : Serverappinfo) (value : UInt32) : Serverappinfo := { m with type := some value }

/-- `serverappinfo::set_name`. -/
def setName (m : Serverappinfo) (value : List UInt8) : Serverappinfo :=
  { m with name := some value }

/-- `serverappinfo::set_ip`. -/
def setIp (m : Serverappinfo) (value : List UInt8) : Serverappinfo := { m with ip := some value }

/-- `serverappinfo::set_port`. -/
def setPort (m : Serverappinfo) (value : UInt32) : Serverappinfo := { m with port := some value }

/-- `serverappinfo::MergeFrom`. -/
def mergeFrom (m other : Serverappinfo) : Serverappinfo :=
  let m := mergeField setId m other.id
  let m := mergeField setType m other.type
  let m := mergeField setName m other.name
  let m := mergeField setIp m other.ip
  let m := mergeField setPort m other.port
  { m with unknownFields := m.unknownFields ++ other.unknownFields }

/-- `serverappinfo::SerializeWithCachedSizesToArray`. -/
def serializeWithCachedSizesToArray (m : Serverappinfo) : List UInt8 :=
  writeUInt32 1 m.id ++ writeUInt32 2 m.type ++ writeString 3 m.name ++ writeString 4 m.ip ++
    writeUInt32 5 m.port ++ WireFormat.serializeUnknownFieldsToArray m.unknownFields

/-- `serverappinfo::ByteSize`. -/
def byteSize (m : Serverappinfo) : Nat :=
  uint32Size m.id + uint32Size m.type + stringSize m.name + stringSize m.ip + uint32Size m.port +
    WireFormat.computeUnknownFieldsSize m.unknownFields

/-- The generated code of `serverappinfo`.  The numbers are the tags of
`MergePartialFromCodedStream`. -/
def messageType : MessageType Serverappinfo where
  fields := [.uint32 8 setId, .uint32 16 setType, .string 26 (·.name) setName,
    .string 34 (·.ip) setIp, .uint32 40 setPort]
  unknownFields := (·.unknownFields)
  withUnknownFields m fields := { m with unknownFields := fields }
  new := new
  serializeWithCachedSizesToArray := serializeWithCachedSizesToArray
  byteSize := byteSize
  mergeFrom := mergeFrom

/-- The fields of the message as `server.proto` has them. -/
def schema : Schema Serverappinfo where
  entries := [.uint32 1 setId, .uint32 2 setType, .bytes 3 setName, .bytes 4 setIp,
    .uint32 5 setPort]
  keep m field := { m with unknownFields := m.unknownFields ++ [field] }

/-- Only the unknown fields could be something that is not on the wire. -/
def Valid (levels : Nat) (m : Serverappinfo) : Prop := schema.Unknown levels m.unknownFields

/-- The parser has a jump for each field of the schema, in its order. -/
theorem refines : Refines messageType.toParseTable schema where
  fields := .cons (fieldRefines_uint32 rfl _) (.cons (fieldRefines_uint32 rfl _)
    (.cons (fieldRefines_string rfl _ _) (.cons (fieldRefines_string rfl _ _)
      (.cons (fieldRefines_uint32 rfl _) .nil))))
  small := by
    intro entry h
    simp only [schema, List.mem_cons, List.not_mem_nil, or_false] at h
    rcases h with rfl | rfl | rfl | rfl | rfl <;>
      simp [Entry.uint32, Entry.bytes, Schema.Closes, Wire.makeTag]
  numbers := by decide
  keep _ _ := rfl
  unknown_with _ _ := rfl
  with_with _ _ _ := rfl
  with_unknown _ := rfl

/-- `ByteSize` counts what is written. -/
theorem size_eq (m : Serverappinfo) : m.byteSize = m.serializeWithCachedSizesToArray.length := by
  simp [byteSize, serializeWithCachedSizesToArray, WireFormat.computeUnknownFieldsSize_eq,
    Nat.add_assoc]

/-- What was written is read as if it had been merged. -/
theorem run_serialize {levels : Nat} (a : Serverappinfo) {m : Serverappinfo}
    (rest : List UInt8) (hm : m.Valid levels)
    (hlen : m.serializeWithCachedSizesToArray.length < 2 ^ 31) :
    schema.run levels (m.serializeWithCachedSizesToArray ++ rest) a =
      schema.run levels rest (a.mergeFrom m) := by
  simp only [serializeWithCachedSizesToArray, List.length_append] at hlen
  simp only [serializeWithCachedSizesToArray, List.append_assoc]
  rw [run_writeUInt32 (by decide) (by decide) rfl, run_writeUInt32 (by decide) (by decide) rfl,
    run_writeString (by decide) (by decide) rfl (by omega),
    run_writeString (by decide) (by decide) rfl (by omega),
    run_writeUInt32 (by decide) (by decide) rfl, run_serializeUnknownFields hm, foldl_keep refines]
  rfl

/-- A field that is read keeps the message one that can be on the wire. -/
theorem valid_readAny {levels tag : Nat} {bs rest : List UInt8} {m m' : Serverappinfo}
    (hlt : tag < 2 ^ 32) (hclose : ¬ Schema.Closes tag) (hm : m.Valid levels)
    (h : schema.readAny levels tag bs m = some (m', rest)) : m'.Valid levels := by
  rcases Schema.readAny_cases hlt hclose h with ⟨entry, hmem, hread⟩ | ⟨field, hnew, hvalid, rfl⟩
  · simp only [schema, List.mem_cons, List.not_mem_nil, or_false] at hmem
    rcases hmem with rfl | rfl | rfl | rfl | rfl <;>
      obtain ⟨_, -, heq⟩ := Option.map_eq_some_iff.mp hread <;>
      cases heq <;>
      exact hm
  · exact hm.concat hvalid hnew

/-- A field that is read takes no more room than it had. -/
theorem bounded : schema.Bounded (2 ^ 32) byteSize := by
  refine Schema.bounded_of_entries (fun entry hmem => ?_) fun levels m field hvalid => ?_
  · simp only [schema, List.mem_cons, List.not_mem_nil, or_false] at hmem
    rcases hmem with rfl | rfl | rfl | rfl | rfl
    · exact bounded_uint32 fun m value => by simp only [byteSize, setId]; omega
    · exact bounded_uint32 fun m value => by simp only [byteSize, setType]; omega
    · exact bounded_string fun m value => by simp only [byteSize, setName]; omega
    · exact bounded_string fun m value => by simp only [byteSize, setIp]; omega
    · exact bounded_uint32 fun m value => by simp only [byteSize, setPort]; omega
  · simp only [schema, byteSize, WireFormat.computeUnknownFieldsSize_concat _ hvalid]
    omega

theorem lawful : Lawful messageType schema fun levels m => m.Valid levels where
  refines := refines
  size := size_eq
  size_new := rfl
  bounded := bounded
  merge_new m := by
    obtain ⟨id, type, name, ip, port, fields⟩ := m
    cases id <;> cases type <;> cases name <;> cases ip <;> cases port <;> rfl
  valid_new _ := Schema.unknown_nil _ _
  run_serialize _ a _ rest := run_serialize a rest
  valid_readAny _ _ _ _ _ _ := valid_readAny

end Serverappinfo

/-! ## `ss_register_request` -/

/-- `ss_register_request`.  A server registers. -/
structure SsRegisterRequest where
  info : Option Serverappinfo
  unknownFields : List WireField

namespace SsRegisterRequest

/-- `ss_register_request()`: no field is set. -/
def new : SsRegisterRequest := ⟨none, []⟩

/-- What the parse of `mutable_info()` leaves. -/
def setInfo (m : SsRegisterRequest) (value : Serverappinfo) : SsRegisterRequest :=
  { m with info := some value }

/-- `mutable_info()->MergeFrom(…)`. -/
def mergeInfo (m : SsRegisterRequest) (value : Serverappinfo) : SsRegisterRequest :=
  m.setInfo ((m.info.getD Serverappinfo.new).mergeFrom value)

/-- `ss_register_request::MergeFrom`. -/
def mergeFrom (m other : SsRegisterRequest) : SsRegisterRequest :=
  let m := mergeField mergeInfo m other.info
  { m with unknownFields := m.unknownFields ++ other.unknownFields }

/-- `ss_register_request::SerializeWithCachedSizesToArray`. -/
def serializeWithCachedSizesToArray (m : SsRegisterRequest) : List UInt8 :=
  writeMessage Serverappinfo.messageType 1 m.info ++
    WireFormat.serializeUnknownFieldsToArray m.unknownFields

/-- `ss_register_request::ByteSize`. -/
def byteSize (m : SsRegisterRequest) : Nat :=
  messageSize Serverappinfo.messageType m.info +
    WireFormat.computeUnknownFieldsSize m.unknownFields

/-- The generated code of `ss_register_request`.  The numbers are the tags of
`MergePartialFromCodedStream`. -/
def messageType : MessageType SsRegisterRequest where
  fields := [.message 10 Serverappinfo.messageType.mergePartialFromCodedStream (·.info)
    Serverappinfo.new setInfo]
  unknownFields := (·.unknownFields)
  withUnknownFields m fields := { m with unknownFields := fields }
  new := new
  serializeWithCachedSizesToArray := serializeWithCachedSizesToArray
  byteSize := byteSize
  mergeFrom := mergeFrom

/-- The field of the message as `server.proto` has it. -/
def schema : Schema SsRegisterRequest where
  entries := [.message 1 Serverappinfo.schema (fun m => m.info.getD Serverappinfo.new) setInfo]
  keep m field := { m with unknownFields := m.unknownFields ++ [field] }

/-- The message inside is one level deeper. -/
def Valid (levels : Nat) (m : SsRegisterRequest) : Prop :=
  (∀ info ∈ m.info, 0 < levels ∧ info.Valid (levels - 1)) ∧ schema.Unknown levels m.unknownFields

theorem refines : Refines messageType.toParseTable schema where
  fields := .cons (fieldRefines_message rfl Serverappinfo.refines _ _ _) .nil
  small := by
    intro entry h
    simp only [schema, List.mem_singleton] at h
    subst h
    simp [Entry.message, Schema.Closes, Wire.makeTag]
  numbers := by decide
  keep _ _ := rfl
  unknown_with _ _ := rfl
  with_with _ _ _ := rfl
  with_unknown _ := rfl

theorem size_eq (m : SsRegisterRequest) :
    m.byteSize = m.serializeWithCachedSizesToArray.length := by
  simp [byteSize, serializeWithCachedSizesToArray, WireFormat.computeUnknownFieldsSize_eq,
    length_writeMessage Serverappinfo.lawful.size]

theorem run_serialize {levels : Nat} (a : SsRegisterRequest) {m : SsRegisterRequest}
    (rest : List UInt8) (hm : m.Valid levels)
    (hlen : m.serializeWithCachedSizesToArray.length < 2 ^ 31) :
    schema.run levels (m.serializeWithCachedSizesToArray ++ rest) a =
      schema.run levels rest (a.mergeFrom m) := by
  simp only [serializeWithCachedSizesToArray, List.length_append] at hlen
  simp only [serializeWithCachedSizesToArray, List.append_assoc]
  rw [run_writeMessage Serverappinfo.lawful (by decide) (by decide) rfl hm.1 (by omega),
    run_serializeUnknownFields hm.2, foldl_keep refines]
  rfl

theorem valid_readAny {levels tag : Nat} {bs rest : List UInt8} {m m' : SsRegisterRequest}
    (hlt : tag < 2 ^ 32) (hclose : ¬ Schema.Closes tag) (hm : m.Valid levels)
    (h : schema.readAny levels tag bs m = some (m', rest)) : m'.Valid levels := by
  rcases Schema.readAny_cases hlt hclose h with ⟨entry, hmem, hread⟩ | ⟨field, hnew, hvalid, rfl⟩
  · simp only [schema, List.mem_singleton] at hmem
    subst hmem
    obtain ⟨info, rfl, hlevels, hinfo⟩ := valid_of_read_message Serverappinfo.lawful hm.1 hread
    refine ⟨fun info' h => ?_, hm.2⟩
    cases h
    exact ⟨hlevels, hinfo⟩
  · exact ⟨hm.1, hm.2.concat hvalid hnew⟩

theorem bounded : schema.Bounded (2 ^ 32) byteSize := by
  refine Schema.bounded_of_entries (fun entry hmem => ?_) fun levels m field hvalid => ?_
  · simp only [schema, List.mem_singleton] at hmem
    subst hmem
    refine bounded_message Serverappinfo.lawful.bounded rfl (fun m => ?_) fun m info => ?_ <;>
      simp only [byteSize, setInfo] <;> omega
  · simp only [schema, byteSize, WireFormat.computeUnknownFieldsSize_concat _ hvalid]
    omega

theorem lawful : Lawful messageType schema fun levels m => m.Valid levels where
  refines := refines
  size := size_eq
  size_new := rfl
  bounded := bounded
  merge_new m := by
    obtain ⟨info, fields⟩ := m
    cases info with
    | none => rfl
    | some info =>
        have hinfo : Serverappinfo.new.mergeFrom info = info := Serverappinfo.lawful.merge_new info
        simp [messageType, mergeFrom, mergeField, mergeInfo, setInfo, new, hinfo]
  valid_new _ := ⟨by simp [messageType, new], Schema.unknown_nil _ _⟩
  run_serialize _ a _ rest := run_serialize a rest
  valid_readAny _ _ _ _ _ _ := valid_readAny

end SsRegisterRequest

/-! ## `ss_register_return` -/

/-- `ss_register_return`.  The answer to a registration. -/
structure SsRegisterReturn where
  result : Option UInt32
  info : Option Serverappinfo
  unknownFields : List WireField

namespace SsRegisterReturn

/-- `ss_register_return()`: no field is set. -/
def new : SsRegisterReturn := ⟨none, none, []⟩

/-- `ss_register_return::set_result`. -/
def setResult (m : SsRegisterReturn) (value : UInt32) : SsRegisterReturn :=
  { m with result := some value }

/-- What the parse of `mutable_info()` leaves. -/
def setInfo (m : SsRegisterReturn) (value : Serverappinfo) : SsRegisterReturn :=
  { m with info := some value }

/-- `mutable_info()->MergeFrom(…)`. -/
def mergeInfo (m : SsRegisterReturn) (value : Serverappinfo) : SsRegisterReturn :=
  m.setInfo ((m.info.getD Serverappinfo.new).mergeFrom value)

/-- `ss_register_return::MergeFrom`. -/
def mergeFrom (m other : SsRegisterReturn) : SsRegisterReturn :=
  let m := mergeField setResult m other.result
  let m := mergeField mergeInfo m other.info
  { m with unknownFields := m.unknownFields ++ other.unknownFields }

/-- `ss_register_return::SerializeWithCachedSizesToArray`. -/
def serializeWithCachedSizesToArray (m : SsRegisterReturn) : List UInt8 :=
  writeUInt32 1 m.result ++ writeMessage Serverappinfo.messageType 2 m.info ++
    WireFormat.serializeUnknownFieldsToArray m.unknownFields

/-- `ss_register_return::ByteSize`. -/
def byteSize (m : SsRegisterReturn) : Nat :=
  uint32Size m.result + messageSize Serverappinfo.messageType m.info +
    WireFormat.computeUnknownFieldsSize m.unknownFields

/-- The generated code of `ss_register_return`.  The numbers are the tags of
`MergePartialFromCodedStream`. -/
def messageType : MessageType SsRegisterReturn where
  fields := [.uint32 8 setResult, .message 18
    Serverappinfo.messageType.mergePartialFromCodedStream (·.info) Serverappinfo.new setInfo]
  unknownFields := (·.unknownFields)
  withUnknownFields m fields := { m with unknownFields := fields }
  new := new
  serializeWithCachedSizesToArray := serializeWithCachedSizesToArray
  byteSize := byteSize
  mergeFrom := mergeFrom

/-- The fields of the message as `server.proto` has them. -/
def schema : Schema SsRegisterReturn where
  entries := [.uint32 1 setResult,
    .message 2 Serverappinfo.schema (fun m => m.info.getD Serverappinfo.new) setInfo]
  keep m field := { m with unknownFields := m.unknownFields ++ [field] }

/-- The message inside is one level deeper. -/
def Valid (levels : Nat) (m : SsRegisterReturn) : Prop :=
  (∀ info ∈ m.info, 0 < levels ∧ info.Valid (levels - 1)) ∧ schema.Unknown levels m.unknownFields

theorem refines : Refines messageType.toParseTable schema where
  fields := .cons (fieldRefines_uint32 rfl _)
    (.cons (fieldRefines_message rfl Serverappinfo.refines _ _ _) .nil)
  small := by
    intro entry h
    simp only [schema, List.mem_cons, List.not_mem_nil, or_false] at h
    rcases h with rfl | rfl <;>
      simp [Entry.uint32, Entry.message, Schema.Closes, Wire.makeTag]
  numbers := by decide
  keep _ _ := rfl
  unknown_with _ _ := rfl
  with_with _ _ _ := rfl
  with_unknown _ := rfl

theorem size_eq (m : SsRegisterReturn) :
    m.byteSize = m.serializeWithCachedSizesToArray.length := by
  simp [byteSize, serializeWithCachedSizesToArray, WireFormat.computeUnknownFieldsSize_eq,
    length_writeMessage Serverappinfo.lawful.size, Nat.add_assoc]

theorem run_serialize {levels : Nat} (a : SsRegisterReturn) {m : SsRegisterReturn}
    (rest : List UInt8) (hm : m.Valid levels)
    (hlen : m.serializeWithCachedSizesToArray.length < 2 ^ 31) :
    schema.run levels (m.serializeWithCachedSizesToArray ++ rest) a =
      schema.run levels rest (a.mergeFrom m) := by
  simp only [serializeWithCachedSizesToArray, List.length_append] at hlen
  simp only [serializeWithCachedSizesToArray, List.append_assoc]
  rw [run_writeUInt32 (by decide) (by decide) rfl,
    run_writeMessage Serverappinfo.lawful (by decide) (by decide) rfl hm.1 (by omega),
    run_serializeUnknownFields hm.2, foldl_keep refines]
  rfl

theorem valid_readAny {levels tag : Nat} {bs rest : List UInt8} {m m' : SsRegisterReturn}
    (hlt : tag < 2 ^ 32) (hclose : ¬ Schema.Closes tag) (hm : m.Valid levels)
    (h : schema.readAny levels tag bs m = some (m', rest)) : m'.Valid levels := by
  rcases Schema.readAny_cases hlt hclose h with ⟨entry, hmem, hread⟩ | ⟨field, hnew, hvalid, rfl⟩
  · simp only [schema, List.mem_cons, List.not_mem_nil, or_false] at hmem
    rcases hmem with rfl | rfl
    · obtain ⟨_, -, heq⟩ := Option.map_eq_some_iff.mp hread
      cases heq
      exact hm
    · obtain ⟨info, rfl, hlevels, hinfo⟩ := valid_of_read_message Serverappinfo.lawful hm.1 hread
      refine ⟨fun info' h => ?_, hm.2⟩
      cases h
      exact ⟨hlevels, hinfo⟩
  · exact ⟨hm.1, hm.2.concat hvalid hnew⟩

theorem bounded : schema.Bounded (2 ^ 32) byteSize := by
  refine Schema.bounded_of_entries (fun entry hmem => ?_) fun levels m field hvalid => ?_
  · simp only [schema, List.mem_cons, List.not_mem_nil, or_false] at hmem
    rcases hmem with rfl | rfl
    · exact bounded_uint32 fun m value => by simp only [byteSize, setResult]; omega
    · refine bounded_message Serverappinfo.lawful.bounded rfl (fun m => ?_) fun m info => ?_ <;>
        simp only [byteSize, setInfo] <;> omega
  · simp only [schema, byteSize, WireFormat.computeUnknownFieldsSize_concat _ hvalid]
    omega

theorem lawful : Lawful messageType schema fun levels m => m.Valid levels where
  refines := refines
  size := size_eq
  size_new := rfl
  bounded := bounded
  merge_new m := by
    obtain ⟨result, info, fields⟩ := m
    have hinfo : ∀ info, Serverappinfo.new.mergeFrom info = info := Serverappinfo.lawful.merge_new
    cases result <;> cases info <;>
      simp [messageType, mergeFrom, mergeField, mergeInfo, setResult, setInfo, new, hinfo]
  valid_new _ := ⟨by simp [messageType, new], Schema.unknown_nil _ _⟩
  run_serialize _ a _ rest := run_serialize a rest
  valid_readAny _ _ _ _ _ _ := valid_readAny

end SsRegisterReturn

end Pb

end GEngine
