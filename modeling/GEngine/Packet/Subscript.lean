import GEngine.Packet.Cursor

/-!
# GEngine.Packet.Subscript

The elements of `m_data` that `append` and `data()` take the address of, while a stream or
a packet is built:

```
append(data, size)   &m_data[m_length], after the vector was grown to m_length + size
data()               &m_data[0]
```

Neither looks whether the element is there.  It is not when nothing is appended to a vector
that is exactly full, or when nothing is stored yet; `subscriptsValid_iff` says that these
are the only cases.
-/

namespace GEngine

/-- The subscript `m_data[index]` of a vector that has `size` elements. -/
structure Subscript where
  index : Nat
  size : Nat
  deriving DecidableEq, Repr

/-- The element is there. -/
def Subscript.Valid (x : Subscript) : Prop := x.index < x.size

instance (x : Subscript) : Decidable x.Valid := inferInstanceAs (Decidable (_ < _))

namespace Memorystream

/-! ## The subscripts of a run -/

/-- The element that `append(data, size)` takes the address of; none for a null pointer, or
when growing the vector throws. -/
def appendSubscript (s : Memorystream) (data : Option (List UInt8)) (size : Nat) :
    Option Subscript :=
  match data with
  | none => none
  | some _ =>
      let end_ := sizeAdd s.mLength size
      if s.size < end_ ∧ ptrdiffMax < end_ then none
      else
        let buf := if s.size < end_ then grow s.mData end_ else s.mData
        some ⟨s.mLength, buf.length⟩

/-- The element that `data()` takes the address of. -/
def dataSubscript (s : Memorystream) : Subscript := ⟨0, s.size⟩

/-- A call on a stream that is built: an operation that changes it, or `data()`. -/
inductive Call
  | op (op : Op)
  | data

/-- The subscripts of one call. -/
def Call.subscripts (s : Memorystream) : Call → List Subscript
  | op (.append a) => (s.appendSubscript a.data a.size).toList
  | op _ => []
  | data => [s.dataSubscript]

/-- The stream after one call. -/
def Call.apply (s : Memorystream) : Call → Memorystream
  | op o => o.apply s
  | data => s

/-- The subscripts of a sequence of calls. -/
def subscripts (s : Memorystream) : List Call → List Subscript
  | [] => []
  | c :: cs => c.subscripts s ++ (c.apply s).subscripts cs

/-- A call finds the element it asks for: an `append` has bytes to add, or room behind the
bytes in use, and `data()` is asked of a vector that is not empty. -/
def Call.Safe (s : Memorystream) : Call → Prop
  | op (.append a) => a.data ≠ none → 0 < a.size ∨ s.mLength < s.size
  | op _ => True
  | data => 0 < s.size

/-- All calls of a sequence find their elements. -/
def SafeRun (s : Memorystream) : List Call → Prop
  | [] => True
  | c :: cs => c.Safe s ∧ (c.apply s).SafeRun cs

section Subscripts

variable {s : Memorystream}

/-- What an `append` asks for is there exactly if it has bytes to add or room. -/
theorem appendSubscript_iff (h : s.Sized) (a : AppendArg) :
    (∀ x ∈ (s.appendSubscript a.data a.size).toList, x.Valid) ↔
      (a.data ≠ none → 0 < a.size ∨ s.mLength < s.size) := by
  have hin := h.inside
  have hmax := h.fits
  cases hdata : a.data with
  | none => simp [appendSubscript]
  | some bs =>
      obtain ⟨hend, himage, hsize⟩ := sizeAdd_image h a hdata
      rw [himage, hsize] at hend
      unfold appendSubscript size
      simp only [hend]
      by_cases hthrow : s.mData.length < s.mLength + a.size ∧ ptrdiffMax < s.mLength + a.size
      · simp only [if_pos hthrow, Option.toList_none, List.not_mem_nil, false_implies,
          implies_true, true_iff]
        omega
      · simp only [if_neg hthrow, Option.toList_some, List.mem_singleton, forall_eq,
          Subscript.Valid]
        by_cases hgrow : s.mData.length < s.mLength + a.size
        · simp only [if_pos hgrow, length_grow (Nat.le_of_lt hgrow), ne_eq, reduceCtorEq,
            not_false_eq_true, true_implies]
          omega
        · simp only [if_neg hgrow, ne_eq, reduceCtorEq, not_false_eq_true, true_implies]
          omega

/-- The subscripts of a call are valid exactly if it is safe. -/
theorem call_iff (h : s.Sized) (c : Call) : (∀ x ∈ c.subscripts s, x.Valid) ↔ c.Safe s := by
  cases c with
  | op o =>
      cases o with
      | append a => exact appendSubscript_iff h a
      | resize n => simp [Call.subscripts, Call.Safe]
      | reserve n => simp [Call.subscripts, Call.Safe]
      | clear => simp [Call.subscripts, Call.Safe]
  | data => simp [Call.subscripts, Call.Safe, dataSubscript, Subscript.Valid]

theorem sized_call (h : s.Sized) (c : Call) : (c.apply s).Sized := by
  cases c with
  | op o => exact sized_apply h o
  | data => exact h

/-- The subscripts of a sequence are valid exactly if all its calls are safe. -/
theorem subscripts_iff (h : s.Sized) (cs : List Call) :
    (∀ x ∈ s.subscripts cs, x.Valid) ↔ s.SafeRun cs := by
  induction cs generalizing s with
  | nil => simp [subscripts, SafeRun]
  | cons c cs ih =>
      simp only [subscripts, SafeRun, List.forall_mem_append, call_iff h, ih (sized_call h c)]

/-- A sequence of operations, and what is called then. -/
theorem safeRun_append (ops : List Op) (cs : List Call) :
    s.SafeRun (ops.map .op ++ cs) ↔ s.SafeRun (ops.map .op) ∧ (s.run ops).SafeRun cs := by
  induction ops generalizing s with
  | nil => simp [SafeRun, run]
  | cons op ops ih => simp only [List.map_cons, List.cons_append, SafeRun, run, Call.apply, ih,
      and_assoc]

/-- Appending to a stream that is exactly full. -/
theorem tryAppend_full {bs image : List UInt8} {a : AppendArg} (hdata : a.data = some image)
    (hfit : bs.length + image.length ≤ ptrdiffMax) :
    (full bs).tryAppend a.data a.size = full (bs ++ image) := by
  obtain ⟨hsize, -⟩ := a.length_data hdata
  have hlt := lt_of_le_ptrdiffMax hfit
  have hend : sizeAdd (full bs).mLength a.size = bs.length + image.length := by
    rw [← hsize]
    exact sizeAdd_eq hlt
  unfold tryAppend
  rw [if_neg (by omega), hdata, ← hsize]
  exact append_full hlt

end Subscripts

end Memorystream

namespace Packet

/-! ## Constructors -/

/-- The object representation of an `int`, as an object. -/
def intBuffer (i : Int) : Buffer := ⟨intImage i, by
  rw [length_intImage]
  decide⟩

/-- The object representation of a `time_t`, as an object. -/
def timeBuffer (t : Int) : Buffer := ⟨timeImage t, by
  rw [length_timeImage]
  decide⟩

/-- What the constructor with a body does before it comes to the body. -/
def headerOps (t id : Int) (bodylength : Nat) (extra : Int) : List Memorystream.Op :=
  [.clear, .append (.value (intBuffer id)), .append (.value (intBuffer version)),
    .append (.value (timeBuffer t)), .append (.value (intBuffer bodylength)),
    .append (.value (intBuffer extra))]

/-- What a constructor does to its stream. -/
def Origin.ops : Origin → List Memorystream.Op
  | empty => []
  | bytes length data backed => [.clear, .append (.bytes length data backed)]
  | string _ data _ => [.clear, .append (.text data)]
  | body t id bodylength data extra backed =>
      headerOps t id bodylength extra ++
        [.append (.bytes bodylength data fun b hb => (backed b hb).1)]

/-- The constructor has bytes to append, or a null pointer. -/
def Origin.Filled : Origin → Prop
  | bytes length data _ => data ≠ none → 0 < length
  | body _ _ bodylength data _ _ => data ≠ none → 0 < bodylength
  | _ => True

/-- All elements that a constructor and the calls behind it take the address of are there.
A plain `memorystream` starts out as the stream of `packet()` does. -/
def SubscriptsValid (o : Origin) (cs : List Memorystream.Call) : Prop :=
  ∀ x ∈ Memorystream.new.subscripts (o.ops.map .op ++ cs), x.Valid

section Origin

variable {bs : List UInt8}

/-- What every constructor but `packet()` starts from. -/
theorem apply_clear (s : Memorystream) :
    Memorystream.Op.clear.apply s = Memorystream.full [] := rfl

/-- Bytes are added to a stream that is exactly full, or nothing is. -/
theorem apply_bytes {n : Nat} {data : Option Buffer}
    (backed : ∀ b, data = some b → b.bytes.length = n)
    (hfit : ∀ b, data = some b → bs.length + b.bytes.length ≤ ptrdiffMax) :
    (Memorystream.Op.append (.bytes n data backed)).apply (Memorystream.full bs) =
      (Memorystream.full bs).append (data.map Buffer.bytes) n := by
  cases data with
  | none => simp [Memorystream.Op.apply, Memorystream.tryAppend, Memorystream.append,
      Memorystream.AppendArg.data]
  | some b =>
      have hlen := backed b rfl
      have hroom := hfit b rfl
      subst hlen
      rw [Option.map_some, Memorystream.append_full (lt_of_le_ptrdiffMax hroom)]
      exact Memorystream.tryAppend_full rfl hroom

/-- To a stream that is exactly full, only what is not empty can be added safely. -/
theorem safe_bytes_full {n : Nat} {data : Option Buffer}
    {backed : ∀ b, data = some b → b.bytes.length = n} :
    (Memorystream.Call.op (.append (.bytes n data backed))).Safe (Memorystream.full bs) ↔
      (data ≠ none → 0 < n) := by
  simp [Memorystream.Call.Safe, Memorystream.AppendArg.data, Memorystream.AppendArg.size,
    Memorystream.full, Memorystream.size]

/-- An object is added to a stream that is exactly full. -/
theorem apply_value {b : Buffer} (hfit : bs.length + b.bytes.length ≤ ptrdiffMax) :
    (Memorystream.Op.append (.value b)).apply (Memorystream.full bs) =
      Memorystream.full (bs ++ b.bytes) :=
  Memorystream.tryAppend_full rfl hfit

/-- The stream in front of the body. -/
theorem run_headerOps (t id extra : Int) (n : Nat) :
    Memorystream.new.run (headerOps t id n extra) =
      Memorystream.full (header t id n extra) := by
  simp only [headerOps, Memorystream.run, apply_clear]
  rw [apply_value, apply_value, apply_value, apply_value, apply_value]
  · rfl
  all_goals simp [intBuffer, timeBuffer, ptrdiffMax]

/-- The operations of a constructor make its packet. -/
theorem run_ops (o : Origin) : Memorystream.new.run o.ops = o.packet.toMemorystream := by
  cases o with
  | empty => rfl
  | bytes length data backed =>
      simp only [Origin.ops, Memorystream.run, apply_clear]
      rw [apply_bytes backed (fun b _ => by simpa using b.fits)]
      rfl
  | string index data fits =>
      simp only [Origin.ops, Memorystream.run, apply_clear, Origin.packet]
      rw [ofString_eq index data.bytes data.fits]
      have hroom : ([] : List UInt8).length + (data.bytes ++ [0]).length ≤ ptrdiffMax := by
        rw [List.length_nil, Nat.zero_add, List.length_append]
        exact fits
      exact Memorystream.tryAppend_full rfl hroom
  | body t id bodylength data extra backed =>
      rw [Origin.ops, Memorystream.run_append, run_headerOps, Memorystream.run,
        apply_bytes _ (fun b hb => ?_)]
      · simp only [Origin.packet, new, header_eq]
        rfl
      · obtain ⟨hlen, hfit⟩ := backed b hb
        rw [length_header, hlen]
        exact hfit

/-- A constructor asks for elements that are there exactly if it has bytes to append, or a
null pointer. -/
theorem safeRun_ops (o : Origin) : Memorystream.new.SafeRun (o.ops.map .op) ↔ o.Filled := by
  cases o with
  | empty => simp [Origin.ops, Origin.Filled, Memorystream.SafeRun]
  | bytes length data backed =>
      have hsafe : (Memorystream.Call.op .clear).Safe Memorystream.new := trivial
      simp only [Origin.ops, Origin.Filled, List.map_cons, List.map_nil, Memorystream.SafeRun,
        Memorystream.Call.apply, apply_clear, hsafe, safe_bytes_full, true_and, and_true]
  | string index data fits =>
      have hpos : 0 < (Memorystream.AppendArg.text data).size := by
        rw [← ((Memorystream.AppendArg.text data).length_data rfl).1]
        simp
      simp [Origin.ops, Origin.Filled, Memorystream.SafeRun, Memorystream.Call.Safe, hpos]
  | body t id bodylength data extra backed =>
      have hheader : Memorystream.new.SafeRun ((headerOps t id bodylength extra).map .op) := by
        simp [headerOps, Memorystream.SafeRun, Memorystream.Call.Safe,
          Memorystream.AppendArg.size, intBuffer, timeBuffer]
      rw [Origin.ops, List.map_append, Memorystream.safeRun_append, run_headerOps]
      simp only [Origin.Filled, hheader, List.map_cons, List.map_nil, Memorystream.SafeRun,
        safe_bytes_full, true_and, and_true]

end Origin

/-- **Subscripts**: all elements that are asked for while a packet is built are there
exactly if its constructor does not append an empty object, and every call after it finds
its element. -/
theorem subscriptsValid_iff (o : Origin) (cs : List Memorystream.Call) :
    SubscriptsValid o cs ↔ o.Filled ∧ o.packet.toMemorystream.SafeRun cs := by
  unfold SubscriptsValid
  rw [Memorystream.subscripts_iff Memorystream.sized_new, Memorystream.safeRun_append,
    safeRun_ops, run_ops]

/-- A packet with an empty body that is not null. -/
def emptyBody : Origin :=
  .body 0 1 0 (some ⟨[], by decide⟩) 0 (by
    intro b hb
    cases hb
    exact ⟨rfl, by decide⟩)

/-- `append("", 0)`. -/
def appendNothing : Memorystream.Op :=
  .append (.bytes 0 (some ⟨[], by decide⟩) (by
    intro b hb
    cases hb
    rfl))

/-- The constructor asks for element 24 of the 24 that a packet with an empty body has;
`append("", 0)` and `data()` ask an empty vector for its first element. -/
theorem not_subscriptsValid_empty :
    ¬ SubscriptsValid emptyBody [] ∧
      (⟨24, 24⟩ : Subscript) ∈ Memorystream.new.subscripts (emptyBody.ops.map .op) ∧
      ¬ SubscriptsValid .empty [.op appendNothing] ∧
      ¬ SubscriptsValid .empty [.data] := by
  have hmem : (⟨24, 24⟩ : Subscript) ∈ Memorystream.new.subscripts (emptyBody.ops.map .op) := by
    decide
  refine ⟨fun h => ?_, hmem, fun h => ?_, fun h => ?_⟩
  · exact absurd (h ⟨24, 24⟩ (by rw [List.append_nil]; exact hmem)) (by decide)
  · exact absurd (h ⟨0, 0⟩ (by decide)) (by decide)
  · exact absurd (h ⟨0, 0⟩ (by decide)) (by decide)

end Packet

end GEngine
