import GEngine.Pb.Login
import GEngine.Pb.Server

/-!
# GEngine.Pb.Roundtrip

What holds of all five message types of the program: the parsers that were generated for
them read what their schemas say, what is written is read back, and what is read can be
written again.

Two facts are about input that nobody has written.  A byte behind a message makes the parse
fail, although a zero there leaves the whole message read (`parse_trailing`).  And a
message inside another one that has been cut off is not noticed, as long as the cut is
between two of its fields (`parse_truncated`).
-/

namespace GEngine

namespace Pb

/-! ## The message types -/

/-- The message types of the program, each with its schema and what can be on the wire. -/
inductive Generated : {M : Type} → MessageType M → Schema M → (Nat → M → Prop) → Prop where
  | serverappinfo : Generated Serverappinfo.messageType Serverappinfo.schema
      fun levels m => m.Valid levels
  | ssRegisterRequest : Generated SsRegisterRequest.messageType SsRegisterRequest.schema
      fun levels m => m.Valid levels
  | ssRegisterReturn : Generated SsRegisterReturn.messageType SsRegisterReturn.schema
      fun levels m => m.Valid levels
  | csLoginRequest : Generated CsLoginRequest.messageType CsLoginRequest.schema
      fun levels m => m.Valid levels
  | csLoginReturn : Generated CsLoginReturn.messageType CsLoginReturn.schema
      fun levels m => m.Valid levels

section

variable {M : Type} {T : MessageType M} {S : Schema M} {Valid : Nat → M → Prop}

theorem Generated.lawful (h : Generated T S Valid) : Lawful T S Valid := by
  cases h with
  | serverappinfo => exact Serverappinfo.lawful
  | ssRegisterRequest => exact SsRegisterRequest.lawful
  | ssRegisterReturn => exact SsRegisterReturn.lawful
  | csLoginRequest => exact CsLoginRequest.lawful
  | csLoginReturn => exact CsLoginReturn.lawful

theorem Generated.needsBytes (h : Generated T S Valid) : S.NeedsBytes := by
  cases h <;> intro entry hentry levels m <;>
    simp only [Serverappinfo.schema, SsRegisterRequest.schema, SsRegisterReturn.schema,
      CsLoginRequest.schema, CsLoginReturn.schema, List.mem_cons, List.not_mem_nil,
      or_false] at hentry
  · rcases hentry with rfl | rfl | rfl | rfl | rfl <;> rfl
  · subst hentry
    rfl
  · rcases hentry with rfl | rfl <;> rfl
  · rcases hentry with rfl | rfl <;> rfl
  · rcases hentry with rfl | rfl | rfl <;> rfl

/-! ## Parsing -/

/-- What `ParseFromString` is to do with data for a schema: say whether all of it is fields
of the message, and if so give the message; and if it ends with a stray tag, give what is
in front of that. -/
def ParsesAs (T : MessageType M) (S : Schema M) (data : List UInt8) : Prop :=
  match S.run defaultRecursionLimit data T.new with
  | .accepted m => T.parseFromString data = (true, m)
  | .stopped m => T.parseFromString data = (false, m)
  | .failed => (T.parseFromString data).1 = false

/-- **Generated parsers**: the loop with its guessed jumps, its cut-off and its nested limits
reads the fields one after the other. -/
theorem parse_verdict (h : Generated T S Valid) (data : List UInt8)
    (hdata : data.length < kDefaultTotalBytesLimit) : ParsesAs T S data :=
  parseFromString_cases h.lawful.refines hdata

/-- A request with an `id` in its `info`, and a field that is not one of the request. -/
theorem parse_verdict_request :
    ParsesAs SsRegisterRequest.messageType SsRegisterRequest.schema [10, 2, 8, 7, 16, 5] ∧
      SsRegisterRequest.messageType.parseFromString [10, 2, 8, 7, 16, 5] =
        (true, ⟨some (Serverappinfo.new.setId 7), [.varint 2 5]⟩) :=
  ⟨parse_verdict .ssRegisterRequest _ (by decide), rfl⟩

/-! ## Writing -/

/-- **Round trip**: a message is written into as many bytes as `ByteSize` says, so that the
check behind it is passed, and they are read back. -/
theorem parse_serialized (h : Generated T S Valid) (m : M) (hm : Valid defaultRecursionLimit m)
    (hsize : T.byteSize m < kDefaultTotalBytesLimit) :
    ∃ data, T.serializeToString m = some data ∧ data.length = T.byteSize m ∧
      T.parseFromString data = (true, m) := by
  have hT := h.lawful
  refine ⟨_, serializeToString_eq hT m, (hT.size m).symm, parseFromString_serialize hT hm ?_⟩
  rw [← hT.size]
  exact hsize

theorem parse_serialized_info :
    ∃ data, Serverappinfo.messageType.serializeToString
        ⟨some 1, some 3, some [65], none, none, [.varint 9 300]⟩ = some data ∧
      data.length = 10 ∧ Serverappinfo.messageType.parseFromString data =
        (true, ⟨some 1, some 3, some [65], none, none, [.varint 9 300]⟩) :=
  parse_serialized .serverappinfo _
    ⟨⟨⟨by decide, by decide⟩, trivial⟩, by
      intro field hfield
      cases List.mem_singleton.mp hfield
      rfl⟩ (by decide)

/-- What was written for messages, one after the other. -/
def serializeAll (T : MessageType M) (ms : List M) : List UInt8 :=
  ms.flatMap T.serializeWithCachedSizesToArray

theorem run_serializeAll (hT : Lawful T S Valid) {ms : List M}
    (hms : ∀ m ∈ ms, Valid defaultRecursionLimit m)
    (hlen : (serializeAll T ms).length < kDefaultTotalBytesLimit) (a : M) :
    S.run defaultRecursionLimit (serializeAll T ms) a = .accepted (ms.foldl T.mergeFrom a) := by
  induction ms generalizing a with
  | nil => rfl
  | cons m ms ih =>
      obtain ⟨hm, hrest⟩ := List.forall_mem_cons.mp hms
      simp only [serializeAll, List.flatMap_cons, List.length_append] at hlen
      rw [serializeAll, List.flatMap_cons,
        hT.run_serialize _ _ _ _ hm (size_lt (Nat.lt_of_le_of_lt (Nat.le_add_right _ _) hlen)),
        List.foldl_cons]
      exact ih hrest (Nat.lt_of_le_of_lt (Nat.le_add_left _ _) hlen) _

/-- **Concatenation**: the bytes of several messages, one behind the other, are read as the
message that merging them in order gives. -/
theorem parse_concatenated (h : Generated T S Valid) (ms : List M)
    (hms : ∀ m ∈ ms, Valid defaultRecursionLimit m)
    (hlen : (serializeAll T ms).length < kDefaultTotalBytesLimit) :
    T.parseFromString (serializeAll T ms) = (true, ms.foldl T.mergeFrom T.new) :=
  parseFromString_of_accepted h.lawful.refines hlen
    (run_serializeAll h.lawful hms hlen T.new)

theorem parse_concatenated_returns :
    SsRegisterReturn.messageType.parseFromString (serializeAll SsRegisterReturn.messageType
        [⟨some 1, some (Serverappinfo.new.setId 7), []⟩,
          ⟨some 2, some (Serverappinfo.new.setPort 9), []⟩]) =
      (true, ⟨some 2, some ((Serverappinfo.new.setId 7).setPort 9), []⟩) := by
  refine parse_concatenated .ssRegisterReturn _ (fun m hm => ?_) (by decide)
  rcases List.mem_cons.mp hm with rfl | hm
  · exact ⟨by simp [defaultRecursionLimit, Serverappinfo.Valid, Serverappinfo.setId,
      Serverappinfo.new, Schema.unknown_nil], Schema.unknown_nil _ _⟩
  · rw [List.mem_singleton.mp hm]
    exact ⟨by simp [defaultRecursionLimit, Serverappinfo.Valid, Serverappinfo.setPort,
      Serverappinfo.new, Schema.unknown_nil], Schema.unknown_nil _ _⟩

/-- **Reading is stable**: whatever was accepted, its message can be on the wire, and writing
it gives no more data than there was, for the same message. -/
theorem parse_reserialized (h : Generated T S Valid) (data : List UInt8) (m : M)
    (hdata : data.length < kDefaultTotalBytesLimit) (hparse : T.parseFromString data = (true, m)) :
    Valid defaultRecursionLimit m ∧
      ∃ data', T.serializeToString m = some data' ∧ data'.length ≤ data.length ∧
        T.parseFromString data' = (true, m) := by
  have hT := h.lawful
  obtain ⟨hvalid, hsize, hagain⟩ := reparse hT hdata hparse
  exact ⟨hvalid, _, serializeToString_eq hT m, hsize, hagain⟩

/-- The length of the account is written in five bytes where one would do. -/
theorem parse_reserialized_login :
    CsLoginRequest.messageType.parseFromString [18, 129, 128, 128, 128, 0, 65] =
        (true, ⟨some [65], none, []⟩) ∧
      ∃ data', CsLoginRequest.messageType.serializeToString ⟨some [65], none, []⟩ = some data' ∧
        data'.length ≤ 7 ∧
        CsLoginRequest.messageType.parseFromString data' = (true, ⟨some [65], none, []⟩) :=
  ⟨rfl, (parse_reserialized .csLoginRequest [18, 129, 128, 128, 128, 0, 65] _ (by decide) rfl).2⟩

/-! ## Bytes that nobody has written -/

/-- **A byte too many**: whatever is behind a message, one byte makes the parse fail.  A zero
ends the fields, so that the message is the one that was written all the same. -/
theorem parse_trailing (h : Generated T S Valid) (m : M) (hm : Valid defaultRecursionLimit m)
    (rest : List UInt8) (hsize : T.byteSize m + rest.length + 1 < kDefaultTotalBytesLimit) :
    (∀ b, (T.parseFromString (T.serializeWithCachedSizesToArray m ++ [b])).1 = false) ∧
      T.parseFromString (T.serializeWithCachedSizesToArray m ++ 0 :: rest) = (false, m) := by
  have hT := h.lawful
  rw [hT.size] at hsize
  refine ⟨fun b => parseFromString_byte hT h.needsBytes hm b ?_, parseFromString_zero hT hm ?_⟩
  · rw [List.length_append, List.length_singleton]
    omega
  · rw [List.length_append, List.length_cons]
    omega

theorem parse_trailing_login :
    (∀ b, (CsLoginReturn.messageType.parseFromString [8, 1, 24, 144, 78, b]).1 = false) ∧
      CsLoginReturn.messageType.parseFromString [8, 1, 24, 144, 78, 0, 255] =
        (false, ⟨some 1, none, some 10000, []⟩) :=
  parse_trailing .csLoginReturn ⟨some 1, none, some 10000, []⟩ (Schema.unknown_nil _ _) [255]
    (by decide)

end

/-- A request about a server. -/
def SsRegisterRequest.ofInfo (info : Serverappinfo) : SsRegisterRequest := ⟨some info, []⟩

theorem serialize_ofInfo (info : Serverappinfo) (h : info.byteSize < 2 ^ 32) :
    (SsRegisterRequest.ofInfo info).serializeWithCachedSizesToArray =
      Varint.encode 10 ++ (Varint.encode info.byteSize ++
        info.serializeWithCachedSizesToArray) := by
  have hsize : (UInt32.ofNat info.byteSize).toNat = info.byteSize := WireFormat.toNat_ofNat_tag h
  simp [SsRegisterRequest.serializeWithCachedSizesToArray, SsRegisterRequest.ofInfo,
    writeMessage, WireFormat.serializeUnknownFieldsToArray, Serverappinfo.messageType, hsize]
  rfl

/-- A length that promises too much is cut to what is there. -/
theorem run_ofInfo_long {info : Serverappinfo} {len : Nat}
    (hinfo : info.Valid (defaultRecursionLimit - 1)) (hlen : len < 2 ^ 31)
    (hle : info.byteSize ≤ len) :
    SsRegisterRequest.schema.run defaultRecursionLimit
      (Varint.encode 10 ++ (Varint.encode len ++ info.serializeWithCachedSizesToArray))
      SsRegisterRequest.new = .accepted (SsRegisterRequest.ofInfo info) := by
  rw [Serverappinfo.size_eq] at hle
  have hinner : Serverappinfo.schema.run (defaultRecursionLimit - 1)
      info.serializeWithCachedSizesToArray Serverappinfo.new = .accepted info := by
    have hrun := Serverappinfo.run_serialize Serverappinfo.new [] hinfo (by omega)
    have hnew : Serverappinfo.new.mergeFrom info = info := Serverappinfo.lawful.merge_new info
    rwa [List.append_nil, hnew, Schema.run_nil] at hrun
  have htag := Wire.readTag_encode (show 10 < 2 ^ 32 by decide)
    (Varint.encode len ++ info.serializeWithCachedSizesToArray)
  refine (Schema.run_of_some htag (by decide) ?_).trans Schema.run_nil
  have hlook : SsRegisterRequest.schema.lookup 10 = some (Entry.message 1 Serverappinfo.schema
    (fun m => m.info.getD Serverappinfo.new) SsRegisterRequest.setInfo) := rfl
  have hdepth : 0 < defaultRecursionLimit := by decide
  have hnew : SsRegisterRequest.new.info.getD Serverappinfo.new = Serverappinfo.new := rfl
  simp only [Schema.readAny, hlook, Entry.message,
    Wire.readTag_encode (show len < 2 ^ 32 by omega), if_pos hdepth, hnew,
    List.take_of_length_le hle, hinner, List.drop_of_length_le hle]
  rfl

/-- **Truncation**: if the end of a request is missing, up to the end of a field of its `info`,
the request is accepted, with the fields that are there. -/
theorem parse_truncated (whole front : Serverappinfo) (cut more : List UInt8)
    (hfront : front.Valid (defaultRecursionLimit - 1))
    (hsize : (SsRegisterRequest.ofInfo whole).byteSize < kDefaultTotalBytesLimit)
    (hwhole : whole.serializeWithCachedSizesToArray =
      front.serializeWithCachedSizesToArray ++ more)
    (hcut : (SsRegisterRequest.ofInfo whole).serializeWithCachedSizesToArray = cut ++ more) :
    SsRegisterRequest.messageType.parseFromString cut =
      (true, SsRegisterRequest.ofInfo front) := by
  have htotal : cut.length + more.length < kDefaultTotalBytesLimit := by
    rw [SsRegisterRequest.size_eq, hcut, List.length_append] at hsize
    exact hsize
  have hbody : whole.byteSize < kDefaultTotalBytesLimit := by
    simp only [SsRegisterRequest.byteSize, SsRegisterRequest.ofInfo, messageSize] at hsize
    have hwholeSize : Serverappinfo.messageType.byteSize whole = whole.byteSize := rfl
    omega
  have hsmall := size_lt hbody
  have hle : front.byteSize ≤ whole.byteSize := by
    rw [Serverappinfo.size_eq, Serverappinfo.size_eq, hwhole, List.length_append]
    omega
  have hfrontCut : cut = Varint.encode 10 ++ (Varint.encode whole.byteSize ++
      front.serializeWithCachedSizesToArray) := by
    rw [serialize_ofInfo whole (by omega), hwhole, ← List.append_assoc, ← List.append_assoc] at hcut
    rw [← List.append_cancel_right hcut, List.append_assoc]
  refine parseFromString_of_accepted SsRegisterRequest.refines (by omega) ?_
  rw [hfrontCut]
  exact run_ofInfo_long hfront hsmall hle

/-- The `type` of the server is cut off. -/
theorem parse_truncated_type :
    SsRegisterRequest.messageType.parseFromString [10, 4, 8, 1] =
      (true, SsRegisterRequest.ofInfo (Serverappinfo.new.setId 1)) :=
  parse_truncated ((Serverappinfo.new.setId 1).setType 3) (Serverappinfo.new.setId 1)
    [10, 4, 8, 1] [16, 3] (Schema.unknown_nil _ _) (by decide) rfl rfl

end Pb

end GEngine
