import GEngine.Pb.Codec

/-!
# GEngine.Pb.Login

The messages by which a client logs in (`login.proto`, `login.pb.cc`): `cs_login_request`,
whose field numbers start at two, and `cs_login_return`.
-/

namespace GEngine

namespace Pb

/-! ## `cs_login_request` -/

/-- `cs_login_request`.  An account and its password, as a client sends them. -/
structure CsLoginRequest where
  account : Option (List UInt8)
  password : Option (List UInt8)
  unknownFields : List WireField

namespace CsLoginRequest

/-- `cs_login_request()`: no field is set. -/
def new : CsLoginRequest := ⟨none, none, []⟩

/-- `cs_login_request::set_account`. -/
def setAccount (m : CsLoginRequest) (value : List UInt8) : CsLoginRequest :=
  { m with account := some value }

/-- `cs_login_request::set_password`. -/
def setPassword (m : CsLoginRequest) (value : List UInt8) : CsLoginRequest :=
  { m with password := some value }

/-- `cs_login_request::MergeFrom`. -/
def mergeFrom (m other : CsLoginRequest) : CsLoginRequest :=
  let m := mergeField setAccount m other.account
  let m := mergeField setPassword m other.password
  { m with unknownFields := m.unknownFields ++ other.unknownFields }

/-- `cs_login_request::SerializeWithCachedSizesToArray`. -/
def serializeWithCachedSizesToArray (m : CsLoginRequest) : List UInt8 :=
  writeString 2 m.account ++ writeString 3 m.password ++
    WireFormat.serializeUnknownFieldsToArray m.unknownFields

/-- `cs_login_request::ByteSize`. -/
def byteSize (m : CsLoginRequest) : Nat :=
  stringSize m.account + stringSize m.password +
    WireFormat.computeUnknownFieldsSize m.unknownFields

/-- The generated code of `cs_login_request`.  The numbers are the tags of
`MergePartialFromCodedStream`. -/
def messageType : MessageType CsLoginRequest where
  fields := [.string 18 (·.account) setAccount, .string 26 (·.password) setPassword]
  unknownFields := (·.unknownFields)
  withUnknownFields m fields := { m with unknownFields := fields }
  new := new
  serializeWithCachedSizesToArray := serializeWithCachedSizesToArray
  byteSize := byteSize
  mergeFrom := mergeFrom

/-- The fields of the message as `login.proto` has them. -/
def schema : Schema CsLoginRequest where
  entries := [.bytes 2 setAccount, .bytes 3 setPassword]
  keep m field := { m with unknownFields := m.unknownFields ++ [field] }

/-- Only the unknown fields could be something that is not on the wire. -/
def Valid (levels : Nat) (m : CsLoginRequest) : Prop := schema.Unknown levels m.unknownFields

/-- The parser has a jump for each field of the schema, in its order. -/
theorem refines : Refines messageType.toParseTable schema where
  fields := .cons (fieldRefines_string rfl _ _) (.cons (fieldRefines_string rfl _ _) .nil)
  small := by
    intro entry h
    simp only [schema, List.mem_cons, List.not_mem_nil, or_false] at h
    rcases h with rfl | rfl <;> simp [Entry.bytes, Schema.Closes, Wire.makeTag]
  numbers := by decide
  keep _ _ := rfl
  unknown_with _ _ := rfl
  with_with _ _ _ := rfl
  with_unknown _ := rfl

/-- `ByteSize` counts what is written. -/
theorem size_eq (m : CsLoginRequest) : m.byteSize = m.serializeWithCachedSizesToArray.length := by
  simp [byteSize, serializeWithCachedSizesToArray, WireFormat.computeUnknownFieldsSize_eq,
    Nat.add_assoc]

/-- What was written is read as if it had been merged. -/
theorem run_serialize {levels : Nat} (a : CsLoginRequest) {m : CsLoginRequest}
    (rest : List UInt8) (hm : m.Valid levels)
    (hlen : m.serializeWithCachedSizesToArray.length < 2 ^ 31) :
    schema.run levels (m.serializeWithCachedSizesToArray ++ rest) a =
      schema.run levels rest (a.mergeFrom m) := by
  simp only [serializeWithCachedSizesToArray, List.length_append] at hlen
  simp only [serializeWithCachedSizesToArray, List.append_assoc]
  rw [run_writeString (by decide) (by decide) rfl (by omega),
    run_writeString (by decide) (by decide) rfl (by omega), run_serializeUnknownFields hm,
    foldl_keep refines]
  rfl

/-- A field that is read keeps the message one that can be on the wire. -/
theorem valid_readAny {levels tag : Nat} {bs rest : List UInt8} {m m' : CsLoginRequest}
    (hlt : tag < 2 ^ 32) (hclose : ¬ Schema.Closes tag) (hm : m.Valid levels)
    (h : schema.readAny levels tag bs m = some (m', rest)) : m'.Valid levels := by
  rcases Schema.readAny_cases hlt hclose h with ⟨entry, hmem, hread⟩ | ⟨field, hnew, hvalid, rfl⟩
  · simp only [schema, List.mem_cons, List.not_mem_nil, or_false] at hmem
    rcases hmem with rfl | rfl <;>
      obtain ⟨_, -, heq⟩ := Option.map_eq_some_iff.mp hread <;>
      cases heq <;>
      exact hm
  · exact hm.concat hvalid hnew

/-- A field that is read takes no more room than it had. -/
theorem bounded : schema.Bounded (2 ^ 32) byteSize := by
  refine Schema.bounded_of_entries (fun entry hmem => ?_) fun levels m field hvalid => ?_
  · simp only [schema, List.mem_cons, List.not_mem_nil, or_false] at hmem
    rcases hmem with rfl | rfl
    · exact bounded_string fun m value => by simp only [byteSize, setAccount]; omega
    · exact bounded_string fun m value => by simp only [byteSize, setPassword]; omega
  · simp only [schema, byteSize, WireFormat.computeUnknownFieldsSize_concat _ hvalid]
    omega

theorem lawful : Lawful messageType schema fun levels m => m.Valid levels where
  refines := refines
  size := size_eq
  size_new := rfl
  bounded := bounded
  merge_new m := by
    obtain ⟨account, password, fields⟩ := m
    cases account <;> cases password <;> rfl
  valid_new _ := Schema.unknown_nil _ _
  run_serialize _ a _ rest := run_serialize a rest
  valid_readAny _ _ _ _ _ _ := valid_readAny

end CsLoginRequest

/-! ## `cs_login_return` -/

/-- `cs_login_return`.  The answer, with the server to go on with. -/
structure CsLoginReturn where
  result : Option UInt32
  ip : Option (List UInt8)
  port : Option UInt32
  unknownFields : List WireField

namespace CsLoginReturn

/-- `cs_login_return()`: no field is set. -/
def new : CsLoginReturn := ⟨none, none, none, []⟩

/-- `cs_login_return::set_result`. -/
def setResult (m : CsLoginReturn) (value : UInt32) : CsLoginReturn :=
  { m with result := some value }

/-- `cs_login_return::set_ip`. -/
def setIp (m : CsLoginReturn) (value : List UInt8) : CsLoginReturn := { m with ip := some value }

/-- `cs_login_return::set_port`. -/
def setPort (m : CsLoginReturn) (value : UInt32) : CsLoginReturn := { m with port := some value }

/-- `cs_login_return::MergeFrom`. -/
def mergeFrom (m other : CsLoginReturn) : CsLoginReturn :=
  let m := mergeField setResult m other.result
  let m := mergeField setIp m other.ip
  let m := mergeField setPort m other.port
  { m with unknownFields := m.unknownFields ++ other.unknownFields }

/-- `cs_login_return::SerializeWithCachedSizesToArray`. -/
def serializeWithCachedSizesToArray (m : CsLoginReturn) : List UInt8 :=
  writeUInt32 1 m.result ++ writeString 2 m.ip ++ writeUInt32 3 m.port ++
    WireFormat.serializeUnknownFieldsToArray m.unknownFields

/-- `cs_login_return::ByteSize`. -/
def byteSize (m : CsLoginReturn) : Nat :=
  uint32Size m.result + stringSize m.ip + uint32Size m.port +
    WireFormat.computeUnknownFieldsSize m.unknownFields

/-- The generated code of `cs_login_return`.  The numbers are the tags of
`MergePartialFromCodedStream`. -/
def messageType : MessageType CsLoginReturn where
  fields := [.uint32 8 setResult, .string 18 (·.ip) setIp, .uint32 24 setPort]
  unknownFields := (·.unknownFields)
  withUnknownFields m fields := { m with unknownFields := fields }
  new := new
  serializeWithCachedSizesToArray := serializeWithCachedSizesToArray
  byteSize := byteSize
  mergeFrom := mergeFrom

/-- The fields of the message as `login.proto` has them. -/
def schema : Schema CsLoginReturn where
  entries := [.uint32 1 setResult, .bytes 2 setIp, .uint32 3 setPort]
  keep m field := { m with unknownFields := m.unknownFields ++ [field] }

def Valid (levels : Nat) (m : CsLoginReturn) : Prop := schema.Unknown levels m.unknownFields

theorem refines : Refines messageType.toParseTable schema where
  fields := .cons (fieldRefines_uint32 rfl _) (.cons (fieldRefines_string rfl _ _)
    (.cons (fieldRefines_uint32 rfl _) .nil))
  small := by
    intro entry h
    simp only [schema, List.mem_cons, List.not_mem_nil, or_false] at h
    rcases h with rfl | rfl | rfl <;>
      simp [Entry.uint32, Entry.bytes, Schema.Closes, Wire.makeTag]
  numbers := by decide
  keep _ _ := rfl
  unknown_with _ _ := rfl
  with_with _ _ _ := rfl
  with_unknown _ := rfl

theorem size_eq (m : CsLoginReturn) : m.byteSize = m.serializeWithCachedSizesToArray.length := by
  simp [byteSize, serializeWithCachedSizesToArray, WireFormat.computeUnknownFieldsSize_eq,
    Nat.add_assoc]

theorem run_serialize {levels : Nat} (a : CsLoginReturn) {m : CsLoginReturn}
    (rest : List UInt8) (hm : m.Valid levels)
    (hlen : m.serializeWithCachedSizesToArray.length < 2 ^ 31) :
    schema.run levels (m.serializeWithCachedSizesToArray ++ rest) a =
      schema.run levels rest (a.mergeFrom m) := by
  simp only [serializeWithCachedSizesToArray, List.length_append] at hlen
  simp only [serializeWithCachedSizesToArray, List.append_assoc]
  rw [run_writeUInt32 (by decide) (by decide) rfl,
    run_writeString (by decide) (by decide) rfl (by omega),
    run_writeUInt32 (by decide) (by decide) rfl, run_serializeUnknownFields hm,
    foldl_keep refines]
  rfl

theorem valid_readAny {levels tag : Nat} {bs rest : List UInt8} {m m' : CsLoginReturn}
    (hlt : tag < 2 ^ 32) (hclose : ¬ Schema.Closes tag) (hm : m.Valid levels)
    (h : schema.readAny levels tag bs m = some (m', rest)) : m'.Valid levels := by
  rcases Schema.readAny_cases hlt hclose h with ⟨entry, hmem, hread⟩ | ⟨field, hnew, hvalid, rfl⟩
  · simp only [schema, List.mem_cons, List.not_mem_nil, or_false] at hmem
    rcases hmem with rfl | rfl | rfl <;>
      obtain ⟨_, -, heq⟩ := Option.map_eq_some_iff.mp hread <;>
      cases heq <;>
      exact hm
  · exact hm.concat hvalid hnew

theorem bounded : schema.Bounded (2 ^ 32) byteSize := by
  refine Schema.bounded_of_entries (fun entry hmem => ?_) fun levels m field hvalid => ?_
  · simp only [schema, List.mem_cons, List.not_mem_nil, or_false] at hmem
    rcases hmem with rfl | rfl | rfl
    · exact bounded_uint32 fun m value => by simp only [byteSize, setResult]; omega
    · exact bounded_string fun m value => by simp only [byteSize, setIp]; omega
    · exact bounded_uint32 fun m value => by simp only [byteSize, setPort]; omega
  · simp only [schema, byteSize, WireFormat.computeUnknownFieldsSize_concat _ hvalid]
    omega

theorem lawful : Lawful messageType schema fun levels m => m.Valid levels where
  refines := refines
  size := size_eq
  size_new := rfl
  bounded := bounded
  merge_new m := by
    obtain ⟨result, ip, port, fields⟩ := m
    cases result <;> cases ip <;> cases port <;> rfl
  valid_new _ := Schema.unknown_nil _ _
  run_serialize _ a _ rest := run_serialize a rest
  valid_readAny _ _ _ _ _ _ := valid_readAny

end CsLoginReturn

end Pb

end GEngine
