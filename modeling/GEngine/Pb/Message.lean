import GEngine.Wire.Schema
import GEngine.Pb.WireFormat

/-!
# GEngine.Pb.Message

The parser that `protoc` generates for a message, and what it computes.

`MergePartialFromCodedStream` is a loop around a `switch` over the field number.  It is made
fast by guesses: behind a field it looks whether the next field of the message follows and
jumps to the code for it, and behind the last field it looks for the end of the input
(`parseFields`).  The generated parsers differ in their table of fields only, so that the
loop is one definition over such a table.

Over an array of less than 64 megabytes the parser does what `Schema.run` does
(`agrees_mergePartialFromCodedStream`): the guesses change nothing, an inner message ends at
its length or at the end of the outer one, and `ConsumedEntireMessage` tells an end between
two fields from one at a stray tag.
-/

namespace GEngine

namespace Pb

/-! ## The generated parser -/

/-- A field of a message: its tag and the code for it. -/
structure Field (M : Type) where
  tag : UInt32
  read : Nat → CodedInputStream → M → Bool × CodedInputStream × M

/-- What a message type has of its own for the parser. -/
structure ParseTable (M : Type) where
  fields : List (Field M)
  unknownFields : M → List WireField
  withUnknownFields : M → List WireField → M

/-- Where the code for a tag ends: at `failure`, at `success` or at the head of the loop. -/
inductive Step (M : Type) where
  | failure (s : CodedInputStream) (m : M)
  | success (s : CodedInputStream) (m : M)
  | again (s : CodedInputStream) (m : M)

/-- The code from the case of a field on: reads the field and goes on with the next one if
its tag follows. -/
def parseFields {M : Type} (fuel : Nat) : List (Field M) → CodedInputStream → M → Step M
  | [], s, m => .again s m
  | field :: fields, s, m =>
      match field.read fuel s m with
      | (false, s, m) => .failure s m
      | (true, s, m) =>
          match fields with
          | [] =>
              match s.expectAtEnd with
              | (true, s) => .success s m
              | (false, s) => .again s m
          | next :: _ =>
              match s.expectTag next.tag with
              | (true, s) => parseFields fuel fields s m
              | (false, s) => .again s m

namespace ParseTable

variable {M : Type}

/-- `handle_unusual`. -/
def handleUnusual (T : ParseTable M) (fuel : Nat) (tag : UInt32) (s : CodedInputStream) (m : M) :
    Step M :=
  if tag = 0 ∨ getTagWireType tag = some .endGroup then .success s m
  else
    match WireFormat.skipField (WireFormat.skipMessage fuel) s tag (T.unknownFields m) with
    | (false, s, unknownFields) => .failure s (T.withUnknownFields m unknownFields)
    | (true, s, unknownFields) => .again s (T.withUnknownFields m unknownFields)

/-- The `switch`: the case with the number of the tag is for one wire type only. -/
def parseTag (T : ParseTable M) (fuel : Nat) (tag : UInt32) (s : CodedInputStream) (m : M) :
    Step M :=
  match T.fields.dropWhile fun field => getTagFieldNumber field.tag ≠ getTagFieldNumber tag with
  | [] => T.handleUnusual fuel tag s m
  | field :: fields =>
      if tag = field.tag then parseFields fuel (field :: fields) s m
      else T.handleUnusual fuel tag s m

/-- The loop.  Every round takes a byte; `fuel` bounds the rounds. -/
def mergePartialFromCodedStream (T : ParseTable M) :
    Nat → CodedInputStream → M → Bool × CodedInputStream × M
  | 0, s, m => (false, s, m)
  | fuel + 1, s, m =>
      let (tag, known, s) := s.readTagWithCutoff 127
      match if known then T.parseTag fuel tag s m else T.handleUnusual fuel tag s m with
      | .failure s m => (false, s, m)
      | .success s m => (true, s, m)
      | .again s m => T.mergePartialFromCodedStream fuel s m

end ParseTable

namespace Field

variable {M N : Type}

/-- `ReadPrimitive<uint32, TYPE_UINT32>`. -/
def uint32 (tag : UInt32) (set : M → UInt32 → M) : Field M where
  tag := tag
  read _ s m :=
    match s.readVarint32 with
    | (none, s) => (false, s, m)
    | (some value, s) => (true, s, set m value)

/-- `WireFormatLite::ReadString` into `mutable_…()`, which sets the field before anything has
been read. -/
def string (tag : UInt32) (get : M → Option (List UInt8)) (set : M → List UInt8 → M) :
    Field M where
  tag := tag
  read _ s m :=
    let old := (get m).getD []
    match s.readVarint32 with
    | (none, s) => (false, s, set m old)
    | (some length, s) =>
        let (ok, value, s) := s.readString old length
        (ok, s, set m value)

/-- `WireFormatLite::ReadMessageNoVirtual` into `mutable_…()`. -/
def message (tag : UInt32)
    (merge : Nat → CodedInputStream → N → Bool × CodedInputStream × N)
    (get : M → Option N) (new : N) (set : M → N → M) : Field M where
  tag := tag
  read fuel s m :=
    let value := (get m).getD new
    match s.readVarint32 with
    | (none, s) => (false, s, set m value)
    | (some length, s) =>
        match s.incrementRecursionDepth with
        | (false, s) => (false, s, set m value)
        | (true, s) =>
            let (limit, s) := s.pushLimit length
            match merge fuel s value with
            | (false, s, value) => (false, s, set m value)
            | (true, s, value) =>
                if s.consumedEntireMessage then
                  (true, (s.popLimit limit).decrementRecursionDepth, set m value)
                else (false, s, set m value)

end Field

/-! ## Streams over an array -/

namespace CodedInputStream

/-- The limit is where the buffer ends, and the array is shorter than the 64 megabytes that
are read at most.  (So there is never a reason to look for more bytes in `input_`, which is
null.) -/
structure Flat (s : CodedInputStream) : Prop where
  small : s.totalBytesRead < kDefaultTotalBytesLimit
  inside : s.buffer.length + s.afterLimit.length ≤ s.totalBytesRead
  limit : s.currentLimit + s.afterLimit.length = s.totalBytesRead
  notEnd : s.legitimateMessageEnd = false

theorem flat_ofArray {data : List UInt8} (h : data.length < kDefaultTotalBytesLimit) :
    (ofArray data).Flat where
  small := h
  inside := by simp [ofArray]
  limit := by simp [ofArray]
  notEnd := rfl

variable {s : CodedInputStream}

/-- Reading on keeps a stream flat. -/
theorem Flat.advance (hs : s.Flat) {rest : List UInt8} (h : rest.length ≤ s.buffer.length)
    (last : UInt32) : ({ s with buffer := rest, lastTag := last } : CodedInputStream).Flat where
  small := hs.small
  inside := by
    have := hs.inside
    simp only
    omega
  limit := hs.limit
  notEnd := hs.notEnd

/-! ### Tags -/

theorem readTagFallback_end (hs : s.Flat) (h : s.buffer = []) :
    s.readTagFallback = (0, { s with legitimateMessageEnd := true }) := by
  have hsmall := hs.small
  have hlimit := hs.limit
  have hend : s.buffer = [] ∧ (0 < s.afterLimit.length ∨ s.totalBytesRead = s.currentLimit) ∧
      s.totalBytesRead - s.afterLimit.length < kDefaultTotalBytesLimit :=
    ⟨h, by omega, by omega⟩
  rw [readTagFallback, unchecked_nil h]
  simp only [Bool.false_eq_true, if_false]
  rw [if_pos hend]

/-- With this cutoff only tags of one byte have a short cut. -/
theorem readTagWithCutoff_slow (h : ∀ b rest, s.buffer = b :: rest → ¬ (0 < b ∧ b < 0x80)) :
    s.readTagWithCutoff 127 = s.readTagWithCutoffSlow 127 := by
  unfold readTagWithCutoff
  split
  · rename_i b rest hbuffer
    rw [if_neg (h b rest hbuffer)]
    split
    · rw [if_neg (fun hcut => absurd hcut.1 (by decide))]
    · rfl
  · rfl

theorem readTagWithCutoff_end (hs : s.Flat) (h : s.buffer = []) :
    s.readTagWithCutoff 127 =
      (0, false, { s with lastTag := 0, legitimateMessageEnd := true }) := by
  rw [readTagWithCutoff_slow (by simp [h]), readTagWithCutoffSlow, readTagFallback_end hs h]
  rfl

variable {rest : List UInt8} {tag : Nat}

theorem readTagWithCutoff_of_some (h : Wire.readTag s.buffer = some (tag, rest)) :
    s.readTagWithCutoff 127 = (UInt32.ofNat tag, decide (0 < tag ∧ tag < 128),
      { s with buffer := rest, lastTag := UInt32.ofNat tag }) := by
  by_cases hshort : ∃ b behind, s.buffer = b :: behind ∧ 0 < b ∧ b < 0x80
  · obtain ⟨b, behind, hbuffer, hb⟩ := hshort
    rw [hbuffer, Wire.readTag_byte hb.2] at h
    cases h
    have hpos : 0 < b.toNat := UInt8.lt_iff_toNat_lt.mp hb.1
    have hlt : b.toNat < 128 := Varint.toNat_lt_of_lt hb.2
    unfold readTagWithCutoff
    split
    · rename_i b' behind' hbuffer'
      cases hbuffer.symm.trans hbuffer'
      simp [hb, hpos, hlt]
    · rename_i hnil
      rw [hnil] at hbuffer
      cases hbuffer
  · rw [readTagWithCutoff_slow fun b behind hbuffer hb => hshort ⟨b, behind, hbuffer, hb⟩,
      readTagWithCutoffSlow, readTagFallback_of_some h]
    have hlt := Wire.readTag_lt h
    have hknown : (UInt32.ofNat tag - 1 < 127) ↔ 0 < tag ∧ tag < 128 := by
      rw [UInt32.lt_iff_toNat_lt, UInt32.toNat_sub, WireFormat.toNat_ofNat_tag hlt]
      simp only [UInt32.reduceToNat]
      omega
    simp only [hknown]

theorem readTagWithCutoff_of_none (hne : s.buffer ≠ []) (h : Wire.readTag s.buffer = none) :
    ∃ buffer, s.readTagWithCutoff 127 = (0, false, { s with buffer := buffer, lastTag := 0 }) := by
  have hshort : ∀ b rest, s.buffer = b :: rest → ¬ (0 < b ∧ b < 0x80) := by
    rintro b rest hbuffer ⟨-, hb⟩
    have hdec := decode_of_readTag_none h
    rw [hbuffer, kMaxVarintBytes, Varint.decode_last hb] at hdec
    cases hdec
  obtain ⟨buffer, hread⟩ := readTagFallback_of_none hne h
  refine ⟨buffer, ?_⟩
  rw [readTagWithCutoff_slow hshort, readTagWithCutoffSlow, hread]
  rfl

/-- The guess that a given tag of one byte is next. -/
theorem expectTag_cases (s : CodedInputStream) {t : UInt32} (ht : t.toNat < 128) :
    (∃ rest, Wire.readTag s.buffer = some (t.toNat, rest) ∧
      s.expectTag t = (true, { s with buffer := rest })) ∨ s.expectTag t = (false, s) := by
  have hone : t < (1 : UInt32) <<< 7 := UInt32.lt_iff_toNat_lt.mpr ht
  unfold expectTag
  rw [if_pos hone]
  split
  · rename_i b rest hbuffer
    split
    · rename_i hb
      have hnat : t.toNat = b.toNat := by rw [← hb, UInt8.toNat_toUInt32]
      have hlt : b < 128 := by
        rw [UInt8.lt_iff_toNat_lt, ← hnat]
        exact ht
      exact .inl ⟨rest, by rw [hbuffer, Wire.readTag_byte hlt, hnat], rfl⟩
    · exact .inr rfl
  · exact .inr rfl

/-- The guess that nothing is next. -/
theorem expectAtEnd_cases (s : CodedInputStream) :
    (s.buffer = [] ∧
      s.expectAtEnd = (true, { s with lastTag := 0, legitimateMessageEnd := true })) ∨
    s.expectAtEnd = (false, s) := by
  unfold expectAtEnd
  split
  · rename_i h
    exact .inl ⟨h.1, rfl⟩
  · exact .inr rfl

/-! ### Limits -/

/-- The buffer is cut at the limit. -/
theorem recomputeBufferLimits_split (s : CodedInputStream) (front back : List UInt8)
    (hsmall : s.totalBytesRead < kDefaultTotalBytesLimit)
    (hwhole : s.buffer ++ s.afterLimit = front ++ back)
    (hlimit : s.currentLimit + back.length = s.totalBytesRead) :
    s.recomputeBufferLimits = { s with buffer := front, afterLimit := back } := by
  have hclosest : min s.currentLimit kDefaultTotalBytesLimit = s.currentLimit := by omega
  simp only [recomputeBufferLimits, hclosest, hwhole]
  split
  · have hsize : (front ++ back).length - (s.totalBytesRead - s.currentLimit) =
        front.length := by
      rw [List.length_append]
      omega
    rw [hsize, List.take_left, List.drop_left]
  · have hnil : back = [] := List.length_eq_zero_iff.mp (by omega)
    rw [hnil, List.append_nil]

/-- A new limit cuts the buffer; one behind the end of the buffer changes nothing. -/
theorem pushLimit_eq (hs : s.Flat) (length : UInt32) :
    s.pushLimit length = (s.currentLimit,
      { s with
        buffer := s.buffer.take length.toNat
        afterLimit := s.buffer.drop length.toNat ++ s.afterLimit
        currentLimit := s.currentLimit - (s.buffer.length - length.toNat) }) := by
  obtain ⟨hsmall, hinside, hlimit, -⟩ := hs
  have hnew : min (if length.toNat ≤ intMax ∧ length.toNat ≤ intMax - s.currentPosition then
      s.currentPosition + length.toNat else intMax) s.currentLimit =
        s.currentLimit - (s.buffer.length - length.toNat) := by
    unfold kDefaultTotalBytesLimit at hsmall
    unfold intMax currentPosition bufferSize
    split <;> omega
  have hcut := recomputeBufferLimits_split
    { s with currentLimit := s.currentLimit - (s.buffer.length - length.toNat) }
    (s.buffer.take length.toNat) (s.buffer.drop length.toNat ++ s.afterLimit) hsmall
    (by rw [← List.append_assoc, List.take_append_drop])
    (by
      simp only [List.length_append, List.length_drop]
      omega)
  simp only [pushLimit, hnew, hcut]

/-- The old limit gives back what was behind the new one. -/
theorem popLimit_eq (hs : s.Flat) (t : CodedInputStream) (rest : List UInt8)
    (htotal : t.totalBytesRead = s.totalBytesRead)
    (hbuffer : t.buffer = []) (hafter : t.afterLimit = rest ++ s.afterLimit) :
    t.popLimit s.currentLimit =
      { t with
        buffer := rest
        afterLimit := s.afterLimit
        currentLimit := s.currentLimit
        legitimateMessageEnd := false } := by
  have hcut := recomputeBufferLimits_split { t with currentLimit := s.currentLimit } rest
    s.afterLimit (by simpa [htotal] using hs.small) (by simp [hbuffer, hafter])
    (by simpa [htotal] using hs.limit)
  simp only [popLimit, hcut]

end CodedInputStream

/-! ### Inner messages -/

namespace CodedInputStream

/-- A stream that has been read to its end between two fields. -/
def atEnd (s : CodedInputStream) : CodedInputStream :=
  { s with buffer := [], lastTag := 0, legitimateMessageEnd := true }

/-- The stream for an inner message of `len` bytes in front of `rest`. -/
def inner (s : CodedInputStream) (rest : List UInt8) (len : Nat) : CodedInputStream :=
  { s with
    buffer := rest.take len
    afterLimit := rest.drop len ++ s.afterLimit
    currentLimit := s.currentLimit - (rest.length - len)
    recursionDepth := s.recursionDepth + 1 }

variable {s : CodedInputStream} {rest : List UInt8} {len : Nat}

theorem Flat.inner (hs : s.Flat) (hrest : rest.length ≤ s.buffer.length) :
    (s.inner rest len).Flat := by
  obtain ⟨hsmall, hinside, hlimit, hend⟩ := hs
  refine ⟨hsmall, ?_, ?_, hend⟩ <;>
    simp only [CodedInputStream.inner, List.length_append, List.length_take, List.length_drop] <;>
    omega

theorem levels_inner : (s.inner rest len).levels = s.levels - 1 := by
  simp only [levels, inner]
  omega

theorem pushLimit_inner (hs : s.Flat) (hrest : rest.length ≤ s.buffer.length)
    (hlen : len < 2 ^ 32) :
    ({ s with buffer := rest, recursionDepth := s.recursionDepth + 1 } :
      CodedInputStream).pushLimit (UInt32.ofNat len) = (s.currentLimit, s.inner rest len) := by
  have hflat : ({ s with buffer := rest, recursionDepth := s.recursionDepth + 1 } :
      CodedInputStream).Flat :=
    ⟨hs.small, Nat.le_trans (Nat.add_le_add_right hrest _) hs.inside, hs.limit, hs.notEnd⟩
  rw [pushLimit_eq hflat, WireFormat.toNat_ofNat_tag hlen]
  rfl

/-- At the end of the inner message the outer one goes on behind it. -/
theorem popLimit_inner (hs : s.Flat) :
    ((s.inner rest len).atEnd.popLimit s.currentLimit).decrementRecursionDepth =
      { s with buffer := rest.drop len, lastTag := 0 } := by
  have hend := hs.notEnd
  rw [popLimit_eq hs (s.inner rest len).atEnd (rest.drop len) rfl rfl rfl]
  simp only [decrementRecursionDepth, atEnd, inner, Nat.add_sub_cancel, hend]

end CodedInputStream

/-! ## What the parser is held to -/

/-- The result of the parser is the verdict. -/
def Agrees {M : Type} (s : CodedInputStream) : Verdict M → Bool × CodedInputStream × M → Prop
  | .accepted m, r => r = (true, s.atEnd, m)
  | .stopped m, r => ∃ s' : CodedInputStream, r = (true, s', m) ∧ s'.legitimateMessageEnd = false
  | .failed, r => r.1 = false

/-- The code for a field does what the entry of the schema says. -/
structure FieldRefines {M : Type} (field : Field M) (entry : Entry M) : Prop where
  tag : field.tag.toNat = entry.tag
  of_some : ∀ fuel (s : CodedInputStream) m m' rest, s.Flat → s.buffer.length < fuel →
    entry.read s.levels s.buffer m = some (m', rest) →
      ∃ last, field.read fuel s m = (true, { s with buffer := rest, lastTag := last }, m')
  of_none : ∀ fuel (s : CodedInputStream) m, s.Flat → s.buffer.length < fuel →
    entry.read s.levels s.buffer m = none → (field.read fuel s m).1 = false

/-- The table of a message type is that of a schema: tags of one byte, one for each field
number, and other fields are added to the unknown ones. -/
structure Refines {M : Type} (T : ParseTable M) (S : Schema M) : Prop where
  fields : List.Forall₂ FieldRefines T.fields S.entries
  small : ∀ entry ∈ S.entries, entry.tag < 128 ∧ ¬ Schema.Closes entry.tag
  numbers : (S.entries.map fun entry => entry.tag / 8).Nodup
  keep : ∀ m field, S.keep m field = T.withUnknownFields m (T.unknownFields m ++ [field])
  unknown_with : ∀ m fields, T.unknownFields (T.withUnknownFields m fields) = fields
  with_with : ∀ m fields fields', T.withUnknownFields (T.withUnknownFields m fields) fields' =
    T.withUnknownFields m fields'
  with_unknown : ∀ m, T.withUnknownFields m (T.unknownFields m) = m

section

variable {M : Type} {T : ParseTable M} {S : Schema M} {fuel : Nat} {s : CodedInputStream} {m : M}

/-- What is left to do once a tag has been read. -/
def verdictOf (S : Schema M) (levels : Nat) : Option (M × List UInt8) → Verdict M
  | none => .failed
  | some (m, rest) => S.run levels rest m

theorem run_eq_verdictOf {bs rest : List UInt8} {levels tag : Nat}
    (htag : Wire.readTag bs = some (tag, rest)) (hclose : ¬ Schema.Closes tag) :
    S.run levels bs m = verdictOf S levels (S.readAny levels tag rest m) := by
  cases hread : S.readAny levels tag rest m with
  | none => exact Schema.run_of_failed htag hclose hread
  | some r => exact Schema.run_of_some htag hclose hread

/-- The code for a tag does what is left to do, or a part of it. -/
def StepAgrees (S : Schema M) (s : CodedInputStream) (verdict : Verdict M) : Step M → Prop
  | .failure _ _ => verdict = .failed
  | .success s' m => verdict = .accepted m ∧ s' = s.atEnd
  | .again s' m => verdict = S.run s.levels s'.buffer m ∧ ∃ rest last,
      rest.length ≤ s.buffer.length ∧ s' = { s with buffer := rest, lastTag := last }

/-- Fields that are kept are added one after the other. -/
theorem foldl_keep (hT : Refines T S) (fields : List WireField) (m : M) :
    fields.foldl S.keep m = T.withUnknownFields m (T.unknownFields m ++ fields) := by
  induction fields generalizing m with
  | nil => rw [List.foldl_nil, List.append_nil, hT.with_unknown]
  | cons field fields ih =>
      rw [List.foldl_cons, ih, hT.keep, hT.unknown_with, hT.with_with, List.append_assoc,
        List.singleton_append]

theorem find_of_mem {entries : List (Entry M)}
    (hnumbers : (entries.map fun entry => entry.tag / 8).Nodup) {entry : Entry M}
    (h : entry ∈ entries) : entries.find? (fun e => e.tag = entry.tag) = some entry := by
  induction entries with
  | nil => cases h
  | cons first entries ih =>
      obtain ⟨hnew, hrest⟩ := List.nodup_cons.mp hnumbers
      rcases List.mem_cons.mp h with rfl | hmem
      · simp
      · have hne : first.tag ≠ entry.tag := by
          intro heq
          exact hnew (List.mem_map.mpr ⟨entry, hmem, by simp only [heq]⟩)
        rw [List.find?_cons_of_neg (by simpa using hne), ih hrest hmem]

/-- The case of the `switch` for a known tag is that of its entry. -/
theorem dropWhile_of_known {fields : List (Field M)} {entries : List (Entry M)} {tag : Nat}
    {entry : Entry M} (hlt : tag < 2 ^ 32) (h : List.Forall₂ FieldRefines fields entries)
    (hnumbers : (entries.map fun entry => entry.tag / 8).Nodup)
    (hfind : entries.find? (fun e => e.tag = tag) = some entry) :
    ∃ field fields' entries',
      fields.dropWhile (fun field =>
        getTagFieldNumber field.tag ≠ getTagFieldNumber (UInt32.ofNat tag)) = field :: fields' ∧
      FieldRefines field entry ∧ List.Forall₂ FieldRefines fields' entries' ∧
      ∀ e ∈ entries', e ∈ entries := by
  induction h with
  | nil => cases hfind
  | @cons first e fields entries hfirst hrest ih =>
      obtain ⟨hnew, hnodup⟩ := List.nodup_cons.mp hnumbers
      have hnumber : (getTagFieldNumber first.tag ≠ getTagFieldNumber (UInt32.ofNat tag)) ↔
          e.tag / 8 ≠ tag / 8 := by
        rw [WireFormat.getTagFieldNumber_eq, WireFormat.getTagFieldNumber_eq, hfirst.tag,
          WireFormat.toNat_ofNat_tag hlt]
      by_cases heq : e.tag = tag
      · rw [List.find?_cons_of_pos (by simpa using heq)] at hfind
        cases hfind
        refine ⟨first, fields, entries, ?_, hfirst, hrest, fun e' h => List.mem_cons_of_mem _ h⟩
        rw [List.dropWhile_cons_of_neg]
        simp [hnumber, heq]
      · rw [List.find?_cons_of_neg (by simpa using heq)] at hfind
        obtain ⟨field, fields', entries', hdrop, hfield, hfields, hmem⟩ := ih hnodup hfind
        have hother : e.tag / 8 ≠ tag / 8 := by
          intro hsame
          have htag : entry.tag = tag := by simpa using List.find?_some hfind
          refine hnew (List.mem_map.mpr ⟨entry, List.mem_of_find?_eq_some hfind, ?_⟩)
          simp only [htag, hsame]
        refine ⟨field, fields', entries', ?_, hfield, hfields,
          fun e' h => List.mem_cons_of_mem _ (hmem e' h)⟩
        rw [List.dropWhile_cons_of_pos (by simp [hnumber, hother]), hdrop]

theorem exists_entry_of_mem {fields : List (Field M)} {entries : List (Entry M)}
    (h : List.Forall₂ FieldRefines fields entries) {field : Field M} (hmem : field ∈ fields) :
    ∃ entry ∈ entries, FieldRefines field entry := by
  induction h with
  | nil => cases hmem
  | @cons first e fields entries hfirst hrest ih =>
      rcases List.mem_cons.mp hmem with rfl | hmem
      · exact ⟨e, List.mem_cons_self, hfirst⟩
      · obtain ⟨entry, hentry, hrefines⟩ := ih hmem
        exact ⟨entry, List.mem_cons_of_mem _ hentry, hrefines⟩

/-- For an unknown tag there is no case, or one for another wire type. -/
theorem parseTag_of_unknown (hT : Refines T S) {tag : Nat} (hlt : tag < 2 ^ 32)
    (hfind : S.lookup tag = none) :
    T.parseTag fuel (UInt32.ofNat tag) s m = T.handleUnusual fuel (UInt32.ofNat tag) s m := by
  unfold ParseTable.parseTag
  split
  · rfl
  · rename_i field fields hdrop
    refine if_neg fun htag => ?_
    have hmem : field ∈ T.fields := by
      refine List.IsSuffix.subset ?_ (show field ∈ field :: fields from List.mem_cons_self)
      rw [← hdrop]
      exact List.dropWhile_suffix _
    obtain ⟨entry, hentry, hrefines⟩ := exists_entry_of_mem hT.fields hmem
    have hsame : entry.tag = tag := by
      rw [← hrefines.tag, ← htag, WireFormat.toNat_ofNat_tag hlt]
    simpa [hsame] using List.find?_eq_none.mp hfind entry hentry

/-! ## One tag -/

theorem StepAgrees.mono {s' : CodedInputStream} {rest : List UInt8} {last : UInt32}
    {verdict : Verdict M} {step : Step M} (hs' : s' = { s with buffer := rest, lastTag := last })
    (hlen : rest.length ≤ s.buffer.length) (h : StepAgrees S s' verdict step) :
    StepAgrees S s verdict step := by
  subst hs'
  cases step with
  | failure s'' m => exact h
  | success s'' m => exact h
  | again s'' m =>
      obtain ⟨hverdict, rest', last', hlen', rfl⟩ := h
      exact ⟨hverdict, rest', last', hlen'.trans hlen, rfl⟩

/-- The code from the case of a field on. -/
theorem stepAgrees_parseFields (hT : Refines T S) {fields : List (Field M)}
    {entries : List (Entry M)} (hfields : List.Forall₂ FieldRefines fields entries)
    (hentries : ∀ e ∈ entries, e ∈ S.entries) {field : Field M} {entry : Entry M}
    (hfield : FieldRefines field entry) (hs : s.Flat) (hfuel : s.buffer.length < fuel) :
    StepAgrees S s (verdictOf S s.levels (entry.read s.levels s.buffer m))
      (parseFields fuel (field :: fields) s m) := by
  induction hfields generalizing field entry s m with
  | nil =>
      cases hread : entry.read s.levels s.buffer m with
      | none =>
          obtain ⟨r, hr⟩ := WireFormat.exists_of_fst (hfield.of_none fuel s m hs hfuel hread)
          simp only [parseFields, hr, StepAgrees, verdictOf]
      | some r =>
          obtain ⟨m', rest⟩ := r
          have hlen := (entry.suffix _ _ _ _ _ hread).length_le
          obtain ⟨last, hr⟩ := hfield.of_some fuel s m m' rest hs hfuel hread
          simp only [parseFields, hr, verdictOf]
          rcases CodedInputStream.expectAtEnd_cases { s with buffer := rest, lastTag := last } with
            ⟨hnil, hend⟩ | hmore
          · have hnil' : rest = [] := hnil
            subst hnil'
            rw [hend]
            exact ⟨Schema.run_nil, rfl⟩
          · rw [hmore]
            exact ⟨rfl, rest, last, hlen, rfl⟩
  | @cons next e fields entries hnext hrest ih =>
      cases hread : entry.read s.levels s.buffer m with
      | none =>
          obtain ⟨r, hr⟩ := WireFormat.exists_of_fst (hfield.of_none fuel s m hs hfuel hread)
          simp only [parseFields, hr, StepAgrees, verdictOf]
      | some r =>
          obtain ⟨m', rest⟩ := r
          have hlen := (entry.suffix _ _ _ _ _ hread).length_le
          obtain ⟨last, hr⟩ := hfield.of_some fuel s m m' rest hs hfuel hread
          have hmem := hentries e List.mem_cons_self
          obtain ⟨hsmall, hclose⟩ := hT.small e hmem
          rw [parseFields, hr]
          simp only [verdictOf]
          rcases CodedInputStream.expectTag_cases { s with buffer := rest, lastTag := last }
            (t := next.tag) (by rw [hnext.tag]; exact hsmall) with ⟨behind, htag, hexpect⟩ | hother
          · rw [hexpect]
            simp only
            have hlook : S.lookup e.tag = some e := find_of_mem hT.numbers hmem
            have hbehind : behind.length < rest.length := (Wire.readTag_suffix htag).2
            rw [hnext.tag] at htag
            rw [run_eq_verdictOf htag hclose]
            simp only [Schema.readAny, hlook]
            refine StepAgrees.mono rfl (by omega : behind.length ≤ s.buffer.length)
              (ih (fun e' h => hentries e' (List.mem_cons_of_mem _ h)) hnext
                (hs.advance (by omega) last) ?_)
            simp only
            omega
          · rw [hother]
            exact ⟨rfl, rest, last, hlen, rfl⟩

/-- A stray tag ends the message. -/
theorem handleUnusual_of_closes {tag : Nat} (hlt : tag < 2 ^ 32) (hclose : Schema.Closes tag) :
    T.handleUnusual fuel (UInt32.ofNat tag) s m = .success s m := by
  refine if_pos ?_
  rcases hclose with rfl | htype
  · exact .inl rfl
  · exact .inr ((WireFormat.getTagWireType_endGroup hlt).mpr htype)

/-- A field that the message does not know is kept. -/
theorem stepAgrees_handleUnusual (hT : Refines T S) {tag : Nat} (hlt : tag < 2 ^ 32)
    (hclose : ¬ Schema.Closes tag) (hfind : S.lookup tag = none)
    (hfuel : s.buffer.length < fuel) :
    StepAgrees S s (verdictOf S s.levels (S.readAny s.levels tag s.buffer m))
      (T.handleUnusual fuel (UInt32.ofNat tag) s m) := by
  have hzero : tag ≠ 0 := fun h => hclose (.inl h)
  have hgo : ¬ (UInt32.ofNat tag = 0 ∨ getTagWireType (UInt32.ofNat tag) = some .endGroup) := by
    rintro (h | h)
    · exact WireFormat.ofNat_tag_ne hlt (by decide) hzero h
    · exact hclose (.inr ((WireFormat.getTagWireType_endGroup hlt).mp h))
  obtain ⟨hsome, hnone⟩ := WireFormat.skipField_ofNat (WireFormat.skips_skipMessage fuel) hlt s
    (T.unknownFields m)
  simp only [Schema.readAny, hfind, ParseTable.handleUnusual, if_neg hgo,
    Wire.readField_stable (Nat.lt_succ_self s.buffer.length) hfuel]
  cases hread : Wire.readField fuel s.levels tag s.buffer with
  | none =>
      obtain ⟨r, hskip⟩ := WireFormat.exists_of_fst (hnone hread)
      rw [hskip]
      rfl
  | some r =>
      obtain ⟨field, rest⟩ := r
      obtain ⟨last, hskip⟩ := hsome field rest hread
      have hlen := (Wire.readField_sound hlt hzero hread).1.length_le
      rw [hskip]
      refine ⟨?_, rest, last, hlen, rfl⟩
      simp only [Option.map_some, verdictOf, hT.keep]

/-- The `switch` and what it leaves to `handle_unusual`. -/
theorem stepAgrees_parseTag (hT : Refines T S) {tag : Nat} (hlt : tag < 2 ^ 32)
    (hclose : ¬ Schema.Closes tag) (hs : s.Flat) (hfuel : s.buffer.length < fuel) :
    StepAgrees S s (verdictOf S s.levels (S.readAny s.levels tag s.buffer m))
      (T.parseTag fuel (UInt32.ofNat tag) s m) := by
  cases hfind : S.lookup tag with
  | none =>
      rw [parseTag_of_unknown hT hlt hfind]
      exact stepAgrees_handleUnusual hT hlt hclose hfind hfuel
  | some entry =>
      obtain ⟨field, fields, entries, hdrop, hfield, hfields, hentries⟩ :=
        dropWhile_of_known hlt hT.fields hT.numbers hfind
      have htag : entry.tag = tag := by simpa using List.find?_some hfind
      have hsame : UInt32.ofNat tag = field.tag := by
        rw [← htag, ← hfield.tag, UInt32.ofNat_toNat]
      rw [ParseTable.parseTag, hdrop]
      simp only [if_pos hsame, Schema.readAny, hfind]
      exact stepAgrees_parseFields hT hfields hentries hfield hs hfuel

/-! ## The loop -/

theorem Agrees.mono {s' : CodedInputStream} {rest : List UInt8} {last : UInt32}
    {verdict : Verdict M} {r : Bool × CodedInputStream × M}
    (hs' : s' = { s with buffer := rest, lastTag := last }) (h : Agrees s' verdict r) :
    Agrees s verdict r := by
  subst hs'
  cases verdict with
  | accepted m => exact h
  | stopped m => exact h
  | failed => exact h

/-- The code for a tag, whichever way it is found. -/
theorem stepAgrees_tag (hT : Refines T S) {tag : Nat} (hlt : tag < 2 ^ 32)
    (hclose : ¬ Schema.Closes tag) (hs : s.Flat) (hfuel : s.buffer.length < fuel) (m : M) :
    StepAgrees S s (verdictOf S s.levels (S.readAny s.levels tag s.buffer m))
      (if decide (0 < tag ∧ tag < 128) = true then T.parseTag fuel (UInt32.ofNat tag) s m
        else T.handleUnusual fuel (UInt32.ofNat tag) s m) := by
  split
  · exact stepAgrees_parseTag hT hlt hclose hs hfuel
  · rename_i hlarge
    refine stepAgrees_handleUnusual hT hlt hclose (List.find?_eq_none.mpr ?_) hfuel
    intro entry hentry htag
    have hsmall := hT.small entry hentry
    have heq : entry.tag = tag := by simpa using htag
    rw [heq] at hsmall
    refine hlarge (decide_eq_true ⟨?_, hsmall.1⟩)
    exact Nat.pos_of_ne_zero fun hzero => hsmall.2 (.inl hzero)

theorem tag_of_closes {tag : Nat} (hT : Refines T S) (hlt : tag < 2 ^ 32)
    (hclose : Schema.Closes tag) :
    (if decide (0 < tag ∧ tag < 128) = true then T.parseTag fuel (UInt32.ofNat tag) s m
      else T.handleUnusual fuel (UInt32.ofNat tag) s m) = .success s m := by
  have hfind : S.lookup tag = none := by
    refine List.find?_eq_none.mpr fun entry hentry htag => ?_
    have heq : entry.tag = tag := by simpa using htag
    exact (hT.small entry hentry).2 (heq ▸ hclose)
  rw [parseTag_of_unknown hT hlt hfind, handleUnusual_of_closes hlt hclose, ite_self]

/-- **The generated parser**: over an array of less than 64 megabytes it reads what the schema
reads. -/
theorem agrees_mergePartialFromCodedStream (hT : Refines T S) (hs : s.Flat)
    (hfuel : s.buffer.length < fuel) :
    Agrees s (S.run s.levels s.buffer m) (T.mergePartialFromCodedStream fuel s m) := by
  induction fuel generalizing s m with
  | zero => omega
  | succ fuel ih =>
      have hstray : ∀ s' : CodedInputStream,
          T.handleUnusual fuel 0 s' m = .success s' m := fun s' => if_pos (.inl rfl)
      by_cases hnil : s.buffer = []
      · -- the end of the input is read as the tag zero
        rw [hnil, Schema.run_nil, ParseTable.mergePartialFromCodedStream,
          CodedInputStream.readTagWithCutoff_end hs hnil]
        simp only [Bool.false_eq_true, if_false, hstray, Agrees, CodedInputStream.atEnd, hnil]
      · cases htag : Wire.readTag s.buffer with
        | none =>
            obtain ⟨buffer, hread⟩ := CodedInputStream.readTagWithCutoff_of_none hnil htag
            rw [Schema.run_of_broken hnil htag, ParseTable.mergePartialFromCodedStream, hread]
            simp only [Bool.false_eq_true, if_false, hstray]
            exact ⟨_, rfl, hs.notEnd⟩
        | some r =>
            obtain ⟨tag, rest⟩ := r
            have hlt := Wire.readTag_lt htag
            have hshort := (Wire.readTag_suffix htag).2
            rw [ParseTable.mergePartialFromCodedStream,
              CodedInputStream.readTagWithCutoff_of_some htag]
            by_cases hclose : Schema.Closes tag
            · simp only [tag_of_closes hT hlt hclose]
              rw [Schema.run_of_closes htag hclose]
              exact ⟨_, rfl, hs.notEnd⟩
            · have hflat := hs.advance (Nat.le_of_lt hshort) (UInt32.ofNat tag)
              have hless : rest.length < fuel := by omega
              have hstep := stepAgrees_tag hT hlt hclose hflat hless m
              rw [run_eq_verdictOf htag hclose]
              simp only at hstep ⊢
              split
              · rename_i s' m' heq
                rw [heq] at hstep
                have hverdict : verdictOf S s.levels (S.readAny s.levels tag rest m) =
                  .failed := hstep
                rw [hverdict]
                rfl
              · rename_i s' m' heq
                rw [heq] at hstep
                obtain ⟨hverdict, rfl⟩ := hstep
                have hverdict' : verdictOf S s.levels (S.readAny s.levels tag rest m) =
                  .accepted m' := hverdict
                rw [hverdict']
                rfl
              · rename_i s' m' heq
                rw [heq] at hstep
                obtain ⟨hverdict, rest', last, hlen, rfl⟩ := hstep
                have hverdict' : verdictOf S s.levels (S.readAny s.levels tag rest m) =
                  S.run s.levels rest' m' := hverdict
                rw [hverdict']
                have hrec := ih (m := m') (hflat.advance hlen last) (Nat.lt_of_le_of_lt hlen hless)
                exact Agrees.mono rfl hrec

end

/-! ## Kinds of fields -/

section

variable {M N : Type} {tag : UInt32} {number : Nat}

theorem fieldRefines_uint32 (htag : tag.toNat = Wire.makeTag number 0) (set : M → UInt32 → M) :
    FieldRefines (Field.uint32 tag set) (Entry.uint32 number set) where
  tag := htag
  of_some fuel s m m' rest _ _ h := by
    obtain ⟨⟨v, rest'⟩, hdec, heq⟩ := Option.map_eq_some_iff.mp h
    cases heq
    exact ⟨s.lastTag, by simp only [Field.uint32, CodedInputStream.readVarint32_of_some hdec]⟩
  of_none fuel s m _ _ h := by
    obtain ⟨s', hread⟩ := WireFormat.exists_of_fst
      (CodedInputStream.readVarint32_of_none (Option.map_eq_none_iff.mp h))
    simp only [Field.uint32, hread]

theorem fieldRefines_string (htag : tag.toNat = Wire.makeTag number 2)
    (get : M → Option (List UInt8)) (set : M → List UInt8 → M) :
    FieldRefines (Field.string tag get set) (Entry.bytes number set) where
  tag := htag
  of_some fuel s m m' rest _ _ h := by
    obtain ⟨⟨value, rest'⟩, hbytes, heq⟩ := Option.map_eq_some_iff.mp h
    cases heq
    obtain ⟨length, s', hlength, hstring⟩ :=
      CodedInputStream.readString_of_some ((get m).getD []) hbytes
    exact ⟨s.lastTag, by simp only [Field.string, hlength, hstring]⟩
  of_none fuel s m _ _ h := by
    rcases CodedInputStream.readString_of_none ((get m).getD [])
      (Option.map_eq_none_iff.mp h) with hread | ⟨length, s', hlength, hstring⟩
    · obtain ⟨s', hpair⟩ := WireFormat.exists_of_fst hread
      simp only [Field.string, hpair]
    · simp only [Field.string, hlength, hstring]

/-- Opening an inner message. -/
theorem read_message_eq {T : ParseTable N} {get : M → Option N} {new : N} {set : M → N → M}
    {s : CodedInputStream} {len : Nat} {rest : List UInt8} (hs : s.Flat)
    (htag : Wire.readTag s.buffer = some (len, rest)) (hlevels : 0 < s.levels) (fuel : Nat)
    (m : M) :
    (Field.message tag T.mergePartialFromCodedStream get new set).read fuel s m =
      match T.mergePartialFromCodedStream fuel (s.inner rest len) ((get m).getD new) with
      | (false, s, value) => (false, s, set m value)
      | (true, t, value) =>
          if t.consumedEntireMessage then
            (true, (t.popLimit s.currentLimit).decrementRecursionDepth, set m value)
          else (false, t, set m value) := by
  have hdepth := CodedInputStream.levels_pos.mp hlevels
  have hpush := CodedInputStream.pushLimit_inner hs (Nat.le_of_lt (Wire.readTag_suffix htag).2)
    (Wire.readTag_lt htag)
  simp only [Field.message, CodedInputStream.readVarint32_of_readTag htag,
    CodedInputStream.incrementRecursionDepth, hdepth, decide_true, hpush]

theorem agrees_inner {T : ParseTable N} {S : Schema N} (hT : Refines T S) {fuel : Nat}
    {s : CodedInputStream} {len : Nat} {rest : List UInt8} (hs : s.Flat)
    (hfuel : s.buffer.length < fuel) (htag : Wire.readTag s.buffer = some (len, rest)) (n : N) :
    Agrees (s.inner rest len) (S.run (s.levels - 1) (rest.take len) n)
      (T.mergePartialFromCodedStream fuel (s.inner rest len) n) := by
  have hshort := (Wire.readTag_suffix htag).2
  have hless : (s.inner rest len).buffer.length < fuel := by
    simp only [CodedInputStream.inner, List.length_take]
    omega
  have hagrees := agrees_mergePartialFromCodedStream (m := n) hT
    (hs.inner (Nat.le_of_lt hshort)) hless
  rw [CodedInputStream.levels_inner] at hagrees
  exact hagrees

/-- An inner message is read as far as its length says, or to the end of the outer one. -/
theorem fieldRefines_message (htag : tag.toNat = Wire.makeTag number 2) {T : ParseTable N}
    {S : Schema N} (hT : Refines T S) (get : M → Option N) (new : N) (set : M → N → M) :
    FieldRefines (Field.message tag T.mergePartialFromCodedStream get new set)
      (Entry.message number S (fun m => (get m).getD new) set) where
  tag := htag
  of_some fuel s m m' rest hs hfuel h := by
    simp only [Entry.message] at h
    split at h
    · cases h
    · rename_i len behind htag
      split at h
      · rename_i hlevels
        have hinner := agrees_inner hT hs hfuel htag ((get m).getD new)
        split at h
        · rename_i n hrun
          cases h
          rw [hrun] at hinner
          have hmerge : T.mergePartialFromCodedStream fuel (s.inner behind len)
            ((get m).getD new) = (true, (s.inner behind len).atEnd, n) := hinner
          refine ⟨0, ?_⟩
          rw [read_message_eq hs htag hlevels, hmerge, ← CodedInputStream.popLimit_inner hs]
          rfl
        · cases h
      · cases h
  of_none fuel s m hs hfuel h := by
    simp only [Entry.message] at h
    split at h
    · rename_i htag
      obtain ⟨s', hread⟩ := WireFormat.exists_of_fst (CodedInputStream.readVarint32_of_none
        (CodedInputStream.decode_of_readTag_none htag))
      simp only [Field.message, hread]
    · rename_i len behind htag
      split at h
      · rename_i hlevels
        have hinner := agrees_inner hT hs hfuel htag ((get m).getD new)
        rw [read_message_eq hs htag hlevels]
        split at h
        · cases h
        · rename_i hrun
          cases hverdict : S.run (s.levels - 1) (behind.take len) ((get m).getD new) with
          | accepted n => exact absurd hverdict (hrun n)
          | stopped n =>
              rw [hverdict] at hinner
              obtain ⟨s', hmerge, hend⟩ := hinner
              rw [hmerge]
              simp only [CodedInputStream.consumedEntireMessage, hend, Bool.false_eq_true,
                if_false]
          | failed =>
              rw [hverdict] at hinner
              obtain ⟨r, hmerge⟩ := WireFormat.exists_of_fst
                (show (T.mergePartialFromCodedStream fuel (s.inner behind len)
                  ((get m).getD new)).1 = false from hinner)
              rw [hmerge]
      · rename_i hlevels
        have hdepth := mt CodedInputStream.levels_pos.mpr hlevels
        simp only [Field.message, CodedInputStream.readVarint32_of_readTag htag,
          CodedInputStream.incrementRecursionDepth, hdepth, decide_false]

end

end Pb

end GEngine
