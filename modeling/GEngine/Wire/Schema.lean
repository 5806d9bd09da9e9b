import GEngine.Wire

/-!
# GEngine.Wire.Schema

Reading a record from tagged fields.

A `Schema` names the tags that a record knows and says how to read each of them; a field
with any other tag is kept.  `Schema.run` reads all of its input, one field after the other.
It ends well only at the end of a field; a zero, a closing tag or a broken tag stops it, and
a broken field makes it fail.

Records of records are read with `Entry.message`, which hands a part of the input to the
schema of the inner record.  If the length in front of it promises more bytes than there
are, the inner record gets those that are there.  Nothing in this module refers to the
server.
-/

namespace GEngine

open Wire

/-- What becomes of reading a record. -/
inductive Verdict (M : Type) where
  | accepted (message : M)
  | stopped (message : M)
  | failed

/-- A field that a record knows: its tag and how it is read from the bytes behind the tag,
at most `levels` records or groups deep. -/
structure Entry (M : Type) where
  tag : Nat
  read : Nat → List UInt8 → M → Option (M × List UInt8)
  suffix : ∀ levels bs m m' rest, read levels bs m = some (m', rest) → rest <:+ bs

/-- The fields a record knows, and what it does with the others. -/
structure Schema (M : Type) where
  entries : List (Entry M)
  keep : M → WireField → M

namespace Schema

variable {M : Type}

def lookup (S : Schema M) (tag : Nat) : Option (Entry M) :=
  S.entries.find? fun entry => entry.tag = tag

/-- The field behind its tag, known or not. -/
def readAny (S : Schema M) (levels tag : Nat) (bs : List UInt8) (m : M) :
    Option (M × List UInt8) :=
  match S.lookup tag with
  | some entry => entry.read levels bs m
  | none => (readField (bs.length + 1) levels tag bs).map fun (field, rest) =>
      (S.keep m field, rest)

/-- A tag that no field has: zero, or the end of a group. -/
def Closes (tag : Nat) : Prop := tag = 0 ∨ tag % 8 = 4

instance (tag : Nat) : Decidable (Closes tag) := inferInstanceAs (Decidable (_ ∨ _))

/-- One field after the other; `fuel` bounds their number. -/
def runWith (S : Schema M) (levels : Nat) : Nat → List UInt8 → M → Verdict M
  | 0, _, _ => .failed
  | fuel + 1, bs, m =>
      if bs = [] then .accepted m
      else
        match readTag bs with
        | none => .stopped m
        | some (tag, rest) =>
            if Closes tag then .stopped m
            else
              match S.readAny levels tag rest m with
              | none => .failed
              | some (m, rest) => S.runWith levels fuel rest m

/-- All fields of the input. -/
def run (S : Schema M) (levels : Nat) (bs : List UInt8) (m : M) : Verdict M :=
  S.runWith levels (bs.length + 1) bs m

/-! ## One field -/

section

variable {S : Schema M} {levels tag fuel : Nat} {bs rest next : List UInt8} {m m' : M}

theorem readAny_suffix (hlt : tag < 2 ^ 32) (hclose : ¬ Closes tag)
    (h : S.readAny levels tag bs m = some (m', rest)) : rest <:+ bs := by
  unfold readAny at h
  split at h
  · rename_i entry _
    exact entry.suffix _ _ _ _ _ h
  · obtain ⟨⟨field, rest'⟩, hfield, heq⟩ := Option.map_eq_some_iff.mp h
    cases heq
    exact (readField_sound hlt (fun hzero => hclose (.inl hzero)) hfield).1

/-- Once there is more fuel than there are bytes, the amount does not matter. -/
theorem runWith_stable {fuel' : Nat} (h : bs.length < fuel) (h' : bs.length < fuel') :
    S.runWith levels fuel bs m = S.runWith levels fuel' bs m := by
  induction fuel generalizing fuel' bs m with
  | zero => omega
  | succ fuel ih =>
      cases fuel' with
      | zero => omega
      | succ fuel' =>
          rw [runWith, runWith]
          cases htag : readTag bs with
          | none => rfl
          | some r =>
              obtain ⟨tag, behind⟩ := r
              have hlt := (readTag_suffix htag).2
              by_cases hclose : Closes tag
              · simp only [if_pos hclose]
              · simp only [if_neg hclose]
                cases hread : S.readAny levels tag behind m with
                | none => rfl
                | some r =>
                    obtain ⟨m', next⟩ := r
                    have hnext := (readAny_suffix (readTag_lt htag) hclose hread).length_le
                    simp only [ih (show next.length < fuel by omega)
                      (show next.length < fuel' by omega)]

@[simp] theorem run_nil : S.run levels [] m = .accepted m := rfl

theorem run_of_broken (hne : bs ≠ []) (h : readTag bs = none) :
    S.run levels bs m = .stopped m := by
  simp only [run, runWith, if_neg hne, h]

theorem ne_nil_of_readTag (h : readTag bs = some (tag, rest)) : bs ≠ [] := by
  rintro rfl
  cases h

theorem run_of_closes (h : readTag bs = some (tag, rest)) (hclose : Closes tag) :
    S.run levels bs m = .stopped m := by
  simp only [run, runWith, if_neg (ne_nil_of_readTag h), h, if_pos hclose]

theorem run_of_failed (h : readTag bs = some (tag, rest)) (hclose : ¬ Closes tag)
    (hread : S.readAny levels tag rest m = none) : S.run levels bs m = .failed := by
  simp only [run, runWith, if_neg (ne_nil_of_readTag h), h, if_neg hclose, hread]

theorem run_of_some (h : readTag bs = some (tag, rest)) (hclose : ¬ Closes tag)
    (hread : S.readAny levels tag rest m = some (m', next)) :
    S.run levels bs m = S.run levels next m' := by
  have hshort := (readTag_suffix h).2
  have hnext := (readAny_suffix (readTag_lt h) hclose hread).length_le
  have hfuel : S.runWith levels bs.length next m' = S.runWith levels (next.length + 1) next m' :=
    runWith_stable (by omega) (by omega)
  simp only [run, runWith, if_neg (ne_nil_of_readTag h), h, if_neg hclose, hread, hfuel]

end

/-- What a run can do with its first field. -/
inductive Front (S : Schema M) (levels : Nat) (bs : List UInt8) (m : M) : Prop where
  | nil (h : bs = []) (hrun : S.run levels bs m = .accepted m)
  | stopped (hne : bs ≠ []) (h : ∀ tag rest, readTag bs = some (tag, rest) → Closes tag)
      (hrun : S.run levels bs m = .stopped m)
  | failed (tag : Nat) (rest : List UInt8) (htag : readTag bs = some (tag, rest))
      (hclose : ¬ Closes tag) (hread : S.readAny levels tag rest m = none)
      (hrun : S.run levels bs m = .failed)
  | more (tag : Nat) (rest next : List UInt8) (m' : M) (htag : readTag bs = some (tag, rest))
      (hclose : ¬ Closes tag) (hread : S.readAny levels tag rest m = some (m', next))
      (hshort : next.length < bs.length)
      (hrun : S.run levels bs m = S.run levels next m')

theorem front (S : Schema M) (levels : Nat) (bs : List UInt8) (m : M) : S.Front levels bs m := by
  by_cases hne : bs = []
  · subst hne
    exact .nil rfl rfl
  · cases htag : readTag bs with
    | none => exact .stopped hne (by simp [htag]) (run_of_broken hne htag)
    | some r =>
        obtain ⟨tag, rest⟩ := r
        by_cases hclose : Closes tag
        · refine .stopped hne (fun tag' rest' h => ?_) (run_of_closes htag hclose)
          cases htag.symm.trans h
          exact hclose
        · cases hread : S.readAny levels tag rest m with
          | none => exact .failed tag rest htag hclose hread (run_of_failed htag hclose hread)
          | some r =>
              obtain ⟨m', next⟩ := r
              have hshort := (readTag_suffix htag).2
              have hnext := (readAny_suffix (readTag_lt htag) hclose hread).length_le
              exact .more tag rest next m' htag hclose hread (by omega)
                (run_of_some htag hclose hread)

section

variable {S : Schema M} {levels tag : Nat} {bs rest : List UInt8} {m m' : M}

/-- A field is read by an entry, or it is a valid field with an unknown tag, which is kept. -/
theorem readAny_cases (hlt : tag < 2 ^ 32) (hclose : ¬ Closes tag)
    (h : S.readAny levels tag bs m = some (m', rest)) :
    (∃ entry ∈ S.entries, entry.read levels bs m = some (m', rest)) ∨
      ∃ field : WireField, S.lookup field.tag = none ∧ field.Valid levels ∧
        m' = S.keep m field := by
  unfold readAny at h
  split at h
  · rename_i entry hentry
    exact .inl ⟨entry, List.mem_of_find?_eq_some hentry, h⟩
  · rename_i hnone
    obtain ⟨⟨field, rest'⟩, hfield, heq⟩ := Option.map_eq_some_iff.mp h
    cases heq
    obtain ⟨-, htag, hvalid⟩ := readField_sound hlt (fun hzero => hclose (.inl hzero)) hfield
    exact .inr ⟨field, by rw [htag]; exact hnone, hvalid, rfl⟩

/-- An invariant of the record and the input that is left, kept by every field, holds at the
end. -/
theorem run_invariant {P : M → List UInt8 → Prop}
    (hstep : ∀ tag bs rest next m m', readTag bs = some (tag, rest) → ¬ Closes tag → P m bs →
      S.readAny levels tag rest m = some (m', next) → P m' next)
    (hm : P m bs) (hrun : S.run levels bs m = .accepted m') : P m' [] := by
  induction hlen : bs.length using Nat.strong_induction_on generalizing bs m with
  | _ n ih =>
      subst hlen
      rcases S.front levels bs m with ⟨hnil, hend⟩ | ⟨-, -, hstop⟩ | ⟨tag, rest, -, -, -, hfail⟩ |
        ⟨tag, rest, next, m₁, htag, hclose, hfield, hshort, hmore⟩
      · rw [hend] at hrun
        cases hrun
        exact hnil ▸ hm
      · rw [hstop] at hrun
        cases hrun
      · rw [hfail] at hrun
        cases hrun
      · rw [hmore] at hrun
        exact ih next.length hshort (hstep tag bs rest next m m₁ htag hclose hm hfield) hrun rfl

/-- What every field keeps holds of the record that is read. -/
theorem run_keeps {P : M → Prop}
    (hread : ∀ tag bs m m' rest, tag < 2 ^ 32 → ¬ Closes tag → P m →
      S.readAny levels tag bs m = some (m', rest) → P m')
    (hm : P m) (hrun : S.run levels bs m = .accepted m') : P m' :=
  run_invariant (P := fun m _ => P m)
    (fun tag _ rest next m m' htag hclose hm hfield =>
      hread tag rest m m' next (readTag_lt htag) hclose hm hfield) hm hrun

end

/-- No entry can be read from nothing. -/
def NeedsBytes (S : Schema M) : Prop :=
  ∀ entry ∈ S.entries, ∀ levels m, entry.read levels [] m = none

/-- A single byte is no input: it is no tag, or nothing is behind it. -/
theorem run_byte_ne_accepted {S : Schema M} (hS : S.NeedsBytes) (levels : Nat) (b : UInt8)
    (m m' : M) : S.run levels [b] m ≠ .accepted m' := by
  intro hrun
  rcases S.front levels [b] m with ⟨hnil, -⟩ | ⟨-, -, hstop⟩ | ⟨tag, rest, -, -, -, hfail⟩ |
    ⟨tag, rest, next, m₁, htag, -, hread, -, -⟩
  · cases hnil
  · rw [hstop] at hrun
    cases hrun
  · rw [hfail] at hrun
    cases hrun
  · have hrest : rest = [] := by
      have hshort := (readTag_suffix htag).2
      exact List.length_eq_zero_iff.mp (by simpa using hshort)
    subst hrest
    unfold readAny at hread
    split at hread
    · rename_i entry hentry
      rw [hS entry (List.mem_of_find?_eq_some hentry)] at hread
      cases hread
    · rw [readField_nil] at hread
      cases hread

/-- Fields that a record can have kept: they can be on the wire, and it does not know
them. -/
def Unknown (S : Schema M) (levels : Nat) (fields : List WireField) : Prop :=
  WireField.AllValid levels fields ∧ ∀ field ∈ fields, S.lookup field.tag = none

theorem unknown_nil (S : Schema M) (levels : Nat) : S.Unknown levels [] :=
  ⟨trivial, by simp⟩

theorem Unknown.concat {S : Schema M} {levels : Nat} {fields : List WireField}
    {field : WireField} (h : S.Unknown levels fields) (hvalid : field.Valid levels)
    (hnew : S.lookup field.tag = none) : S.Unknown levels (fields ++ [field]) := by
  refine ⟨WireField.allValid_concat.mpr ⟨h.1, hvalid⟩, fun f hf => ?_⟩
  rcases List.mem_append.mp hf with hold | hlast
  · exact h.2 f hold
  · rw [List.mem_singleton.mp hlast]
    exact hnew

end Schema

/-! ## Kinds of entries -/

namespace Entry

variable {M N : Type}

/-- An unsigned integer of 32 bits. -/
def uint32 (number : Nat) (set : M → UInt32 → M) : Entry M where
  tag := makeTag number 0
  read _ bs m := (Varint.decode 10 bs).map fun (v, rest) => (set m (UInt32.ofNat v), rest)
  suffix := by
    intro levels bs m m' rest h
    obtain ⟨⟨v, rest'⟩, hdec, heq⟩ := Option.map_eq_some_iff.mp h
    cases heq
    exact (Varint.decode_suffix hdec).1

/-- Bytes. -/
def bytes (number : Nat) (set : M → List UInt8 → M) : Entry M where
  tag := makeTag number 2
  read _ bs m := (readBytes bs).map fun (value, rest) => (set m value, rest)
  suffix := by
    intro levels bs m m' rest h
    obtain ⟨⟨value, rest'⟩, hbytes, heq⟩ := Option.map_eq_some_iff.mp h
    cases heq
    obtain ⟨-, htag⟩ := readBytes_eq_some hbytes
    exact (List.suffix_append value rest).trans (readTag_suffix htag).1

/-- A record, which is merged with the one that is there. -/
def message (number : Nat) (sub : Schema N) (get : M → N) (set : M → N → M) : Entry M where
  tag := makeTag number 2
  read levels bs m :=
    match readTag bs with
    | none => none
    | some (len, rest) =>
        if 0 < levels then
          match sub.run (levels - 1) (rest.take len) (get m) with
          | .accepted n => some (set m n, rest.drop len)
          | _ => none
        else none
  suffix := by
    intro levels bs m m' rest h
    split at h
    · cases h
    · rename_i len behind htag
      split at h
      · split at h
        · cases h
          exact (List.drop_suffix len behind).trans (readTag_suffix htag).1
        · cases h
      · cases h

end Entry

/-! ## Sizes

Writing a record takes no more bytes than it was read from.  A size of records is `Bounded`
if a field raises it by no more than the bytes of the field; the limit is for sizes that are
computed in words. -/

/-- The entry raises a size by no more than a tag and the bytes that it reads. -/
def Entry.Bounded {M : Type} (entry : Entry M) (limit : Nat) (size : M → Nat) : Prop :=
  ∀ levels bs m m' rest, size m + bs.length < limit → entry.read levels bs m = some (m', rest) →
    size m' + rest.length ≤ size m + 1 + bs.length

namespace Schema

variable {M : Type} {S : Schema M} {limit : Nat} {size : M → Nat}

/-- Every field raises a size by no more than its tag and the bytes behind it. -/
def Bounded (S : Schema M) (limit : Nat) (size : M → Nat) : Prop :=
  ∀ levels tag bs m m' rest, tag < 2 ^ 32 → ¬ Closes tag →
    size m + (Varint.encode tag).length + bs.length < limit →
      S.readAny levels tag bs m = some (m', rest) →
        size m' + rest.length ≤ size m + (Varint.encode tag).length + bs.length

theorem bounded_of_entries (hentries : ∀ entry ∈ S.entries, entry.Bounded limit size)
    (hkeep : ∀ levels m (field : WireField), field.Valid levels →
      size (S.keep m field) ≤ size m + (Varint.encode field.tag ++ field.payload).length) :
    S.Bounded limit size := by
  intro levels tag bs m m' rest hlt hclose hlimit h
  have hpos := Varint.length_encode_pos tag
  unfold readAny at h
  split at h
  · rename_i entry hentry
    have hentry := hentries entry (List.mem_of_find?_eq_some hentry) levels bs m m' rest
      (by omega) h
    omega
  · obtain ⟨⟨field, rest'⟩, hfield, heq⟩ := Option.map_eq_some_iff.mp h
    cases heq
    obtain ⟨-, rfl, hvalid⟩ := readField_sound hlt (fun hzero => hclose (.inl hzero)) hfield
    have hkept := hkeep levels m field hvalid
    have hlen := readField_length hfield
    rw [List.length_append] at hkept
    omega

/-- The size of what is read. -/
theorem Bounded.run (hS : S.Bounded limit size) {levels : Nat} {bs : List UInt8} {m m' : M}
    (hlimit : size m + bs.length < limit) (hrun : S.run levels bs m = .accepted m') :
    size m' ≤ size m + bs.length := by
  refine run_invariant (P := fun m₁ bs₁ => size m₁ + bs₁.length ≤ size m + bs.length) ?_
    (Nat.le_refl _) hrun
  intro tag bs₁ rest next m₁ m₂ htag hclose hle hread
  have hlen := readTag_length htag
  have hnext := hS levels tag rest m₁ m₂ next (readTag_lt htag) hclose (by omega) hread
  omega

end Schema

namespace Entry

variable {M N : Type} {number limit : Nat} {size : M → Nat}

theorem bounded_uint32 {set : M → UInt32 → M}
    (hset : ∀ m v, size (set m v) ≤ size m + 1 + (Varint.encode v.toNat).length) :
    (uint32 number set).Bounded limit size := by
  intro levels bs m m' rest _ h
  obtain ⟨⟨v, rest'⟩, hdec, heq⟩ := Option.map_eq_some_iff.mp h
  cases heq
  have hcut : (Varint.encode (UInt32.ofNat v).toNat).length ≤ (Varint.encode v).length := by
    rw [UInt32.toNat_ofNat']
    exact Varint.length_encode_mono (Nat.mod_le v _)
  have hlen := Varint.decode_length hdec
  have hsize := hset m (UInt32.ofNat v)
  omega

theorem bounded_bytes {set : M → List UInt8 → M}
    (hset : ∀ m value,
      size (set m value) ≤ size m + 1 + (Varint.encode value.length).length + value.length) :
    (bytes number set).Bounded limit size := by
  intro levels bs m m' rest _ h
  obtain ⟨⟨value, rest'⟩, hbytes, heq⟩ := Option.map_eq_some_iff.mp h
  cases heq
  have hlen := readTag_length (readBytes_eq_some hbytes).2
  rw [List.length_append] at hlen
  have hsize := hset m value
  omega

/-- The inner record grows by at most the bytes it is given, which can be fewer than its
length promises. -/
theorem bounded_message {sub : Schema N} {get : M → N} {set : M → N → M} {inner : N → Nat}
    (hsub : sub.Bounded limit inner) (hget : ∀ m, inner (get m) ≤ size m)
    (hset : ∀ m n k, inner (get m) + k < limit → inner n ≤ inner (get m) + k →
      size (set m n) ≤ size m + 1 + (Varint.encode k).length + k) :
    (message number sub get set).Bounded limit size := by
  intro levels bs m m' rest hlimit h
  simp only [message] at h
  split at h
  · cases h
  · rename_i len behind htag
    split at h
    · split at h
      · rename_i n hrun
        cases h
        have hlen := readTag_length htag
        have hcut : (Varint.encode (behind.take len).length).length ≤
            (Varint.encode len).length := Varint.length_encode_mono (List.length_take_le _ _)
        have hparts : (behind.take len).length + (behind.drop len).length = behind.length := by
          rw [← List.length_append, List.take_append_drop]
        have hfit : inner (get m) + (behind.take len).length < limit := by
          have := hget m
          omega
        have hsize := hset m n _ hfit (hsub.run hfit hrun)
        omega
      · cases h
    · cases h

end Entry

/-! ## Reading what was written -/

namespace Schema

variable {M : Type} {S : Schema M} {levels : Nat} {m : M}

/-- A field that the record does not know is kept. -/
theorem run_unknown {field : WireField} (hvalid : field.Valid levels)
    (hunknown : S.lookup field.tag = none) (rest : List UInt8) :
    S.run levels (Varint.encode field.tag ++ field.payload ++ rest) m =
      S.run levels rest (S.keep m field) := by
  obtain ⟨hlt, hzero, htype⟩ := tag_of_valid hvalid
  have htag := readTag_encode hlt (field.payload ++ rest)
  rw [← List.append_assoc] at htag
  refine run_of_some htag (fun h => h.elim hzero htype) ?_
  have hfuel : field.payload.length < (field.payload ++ rest).length + 1 := by
    rw [List.length_append]
    omega
  simp only [readAny, hunknown, readField_payload field _ levels rest hvalid hfuel,
    Option.map_some]

/-- Fields that the record does not know are all kept, in order. -/
theorem run_encodeAll (fields : List WireField) (hvalid : WireField.AllValid levels fields)
    (hunknown : ∀ field ∈ fields, S.lookup field.tag = none) (rest : List UInt8) :
    S.run levels (WireField.encodeAll fields ++ rest) m =
      S.run levels rest (fields.foldl S.keep m) := by
  induction fields generalizing m with
  | nil => rfl
  | cons field fields ih =>
      obtain ⟨hfield, hfields⟩ := hvalid
      obtain ⟨hnew, hnews⟩ := List.forall_mem_cons.mp hunknown
      rw [WireField.encodeAll, List.append_assoc, run_unknown hfield hnew, ih hfields hnews,
        List.foldl_cons]

/-- A field that the record knows is read. -/
theorem run_known (entry : Entry M) {payload rest : List UInt8} {m' : M}
    (hlt : entry.tag < 2 ^ 32) (hclose : ¬ Closes entry.tag)
    (hknown : S.lookup entry.tag = some entry)
    (hread : entry.read levels (payload ++ rest) m = some (m', rest)) :
    S.run levels (Varint.encode entry.tag ++ payload ++ rest) m = S.run levels rest m' := by
  have htag := readTag_encode hlt (payload ++ rest)
  rw [← List.append_assoc] at htag
  refine run_of_some htag hclose ?_
  simp only [readAny, hknown, hread]

end Schema

namespace Entry

variable {M N : Type} {levels number : Nat} {m : M}

theorem read_uint32 {set : M → UInt32 → M} (v : UInt32) (rest : List UInt8) :
    (uint32 number set).read levels (Varint.encode v.toNat ++ rest) m = some (set m v, rest) := by
  have hlt : v.toNat < 128 ^ (9 + 1) := by
    have := v.toNat_lt
    omega
  simp [uint32, Varint.decode_encode hlt]

theorem read_bytes {set : M → List UInt8 → M} {value : List UInt8} (h : value.length < 2 ^ 31)
    (rest : List UInt8) :
    (bytes number set).read levels (Varint.encode value.length ++ value ++ rest) m =
      some (set m value, rest) := by
  simp only [bytes, readBytes_encode h, Option.map_some]

theorem read_message {sub : Schema N} (get : M → N) {set : M → N → M} {body : List UInt8}
    {n : N} (h : body.length < 2 ^ 32) (hlevels : 0 < levels)
    (hrun : sub.run (levels - 1) body (get m) = .accepted n) (rest : List UInt8) :
    (message number sub get set).read levels (Varint.encode body.length ++ body ++ rest) m =
      some (set m n, rest) := by
  simp only [message, List.append_assoc, readTag_encode h, if_pos hlevels, List.take_left, hrun,
    List.drop_left]

end Entry

end GEngine
