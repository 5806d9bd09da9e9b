import GEngine.Memorystream.Log
import GEngine.Packet.Cursor

/-!
# GEngine.Packet.ReadBack

Reading a packet back with the reads at the cursor.

An item is a scalar, a run of characters or a string, and takes the bytes that `append`
writes for it; a string takes its terminator too.  A read that asks for an item at its
place moves the cursor behind it (`step_read`), so items that were written one after the
other are read one after the other (`run_reads`).  What a string read leaves in its
destination includes the terminator.

Reads of characters in pieces of any size are one read (`chunks_read`).
-/

namespace GEngine

namespace Packet

/-! ## Items -/

/-- What is written into a packet: a scalar, a run of characters, or a string. -/
inductive Item
  | scalar (image : Buffer)
  | chars (run : Buffer)
  | text (str : Buffer)

namespace Item

/-- The `append` that writes an item. -/
def arg : Item → Memorystream.AppendArg
  | scalar image => .value image
  | chars run => .bytes run.bytes.length (some run) (by
      intro b hb
      cases hb
      rfl)
  | text str => .text str

/-- The bytes that an item takes. -/
def bytes : Item → List UInt8
  | scalar image => image.bytes
  | chars run => run.bytes
  | text str => str.bytes ++ [0]

@[simp] theorem image_arg (i : Item) : i.arg.image = i.bytes := by
  cases i <;> rfl

/-- A run of characters has some. -/
def NonemptyRun : Item → Prop
  | chars run => run.bytes ≠ []
  | _ => True

/-- The item is a string. -/
def IsText : Item → Prop
  | text _ => True
  | _ => False

end Item

/-- An item, what the destination of its read holds before, and the memory behind the
vector at that time. -/
structure Entry where
  item : Item
  dest : List UInt8
  beyond : Nat → UInt8

namespace Entry

/-- The item is written. -/
def write (e : Entry) : Op := .stream (.append e.item.arg)

/-- The item is read: `read<T>()`, `read(char*, n)` or `read(std::string&, str.size())`. -/
def read (e : Entry) : Op :=
  match e.item with
  | .scalar image => .readValue e.beyond image.bytes.length
  | .chars run => .readChars e.beyond e.dest run.bytes.length
  | .text str => .readString e.beyond e.dest str.bytes.length

/-- What the read of an item returns when the bytes `rest` follow it.  A run of no
characters at the end of the packet is refused. -/
def answer (e : Entry) (rest : List UInt8) : Reply :=
  match e.item with
  | .scalar image => .value image.bytes
  | .chars run => .status (if run.bytes ++ rest = [] then 1 else 0) (overlay e.dest run.bytes)
  | .text str => .status 0 (str.bytes ++ [0])

/-- The read went through, and a scalar or a run of characters is what was written. -/
def GivenBack (e : Entry) (reply : Reply) : Prop :=
  match e.item, reply with
  | .scalar image, .value out => out = image.bytes
  | .chars run, .status r out => r = 0 ∧ out.take run.bytes.length = run.bytes
  | .text _, .status r _ => r = 0
  | _, _ => False

end Entry

/-- The bytes of a list of items. -/
def itemBytes (es : List Entry) : List UInt8 := es.flatMap fun e => e.item.bytes

/-- What the reads of a list of items return when the bytes `rest` follow them. -/
def answers (rest : List UInt8) : List Entry → List Reply
  | [] => []
  | e :: es => e.answer (itemBytes es ++ rest) :: answers rest es

section Items

variable {p : Packet} {front rest : List UInt8}

/-- An item at the cursor is read, and the cursor moves behind it. -/
theorem step_read (e : Entry) (hp : p.Sized) (hbytes : p.bytes = front ++ e.item.bytes ++ rest)
    (hcur : p.mIndex = front.length) :
    p.step e.read =
      some (e.answer rest, { p with mIndex := front.length + e.item.bytes.length }) := by
  have hlen : p.mLength = front.length + e.item.bytes.length + rest.length := by
    have htotal := Memorystream.length_bytes hp
    simp only [hbytes, List.length_append, Memorystream.length] at htotal
    omega
  have hslice : slice p.bytes p.mIndex e.item.bytes.length = e.item.bytes := by
    rw [hbytes, hcur, List.append_assoc, slice_append_of_length rfl, List.take_left]
  unfold Entry.read Entry.answer
  cases hitem : e.item with
  | scalar image =>
      simp only [hitem, Item.bytes] at hlen hslice ⊢
      simp only [step]
      rw [readValue_eq hp (by omega), if_pos (by omega), hslice, hcur]
      rfl
  | chars run =>
      simp only [hitem, Item.bytes] at hlen hslice ⊢
      simp only [step]
      rw [readCharsNext_eq hp, hslice]
      by_cases hempty : run.bytes ++ rest = []
      · obtain ⟨hrun, hrest⟩ := List.append_eq_nil_iff.mp hempty
        simp only [hrun, hrest, List.length_nil, Nat.add_zero] at hlen
        have hself : p = { p with mIndex := front.length } := by rw [← hcur]
        simp [hrun, hrest, hlen, hcur, overlay, ← hself]
      · have hpos : 0 < run.bytes.length + rest.length := by
          rw [← List.length_append]
          exact List.length_pos_of_ne_nil hempty
        have hoff : ¬ p.mLength ≤ p.mIndex := by omega
        have hend : ¬ p.mLength < p.mIndex + run.bytes.length := by omega
        rw [if_neg hoff, if_neg hend, hcur]
        simp [hempty]
  | text str =>
      simp only [hitem, Item.bytes, List.length_append, List.length_singleton] at hlen hslice ⊢
      simp only [step]
      rw [readStringNext_eq hp, if_neg (by omega), if_neg (by omega),
        Memorystream.load_bytes hp (by omega), hslice, hcur]

/-- Items at the cursor are read one after the other. -/
theorem run_reads (es : List Entry) (hp : p.Sized)
    (hbytes : p.bytes = front ++ itemBytes es ++ rest) (hcur : p.mIndex = front.length) :
    p.run (es.map Entry.read) =
      some (answers rest es, { p with mIndex := front.length + (itemBytes es).length }) := by
  induction es generalizing p front with
  | nil => simp [run, answers, itemBytes, ← hcur]
  | cons e es ih =>
      have hcons : itemBytes (e :: es) = e.item.bytes ++ itemBytes es := rfl
      have hhead : p.bytes = front ++ e.item.bytes ++ (itemBytes es ++ rest) := by
        simp [hbytes, hcons]
      have hstep := step_read e hp hhead hcur
      have hrest : p.bytes = (front ++ e.item.bytes) ++ itemBytes es ++ rest := by
        simp [hbytes, hcons]
      have htail := ih (p := { p with mIndex := front.length + e.item.bytes.length }) hp hrest
        (by simp)
      simp only [List.map_cons, run, hstep, htail, answers, Option.map_some, hcons,
        List.length_append, Nat.add_assoc]

/-- Writing is running the appends. -/
theorem run_stream (p : Packet) (ops : List Memorystream.Op) :
    p.run (ops.map .stream) =
      some (ops.map fun _ => .done, { p.toMemorystream.run ops with mIndex := p.mIndex }) := by
  induction ops generalizing p with
  | nil => rfl
  | cons op ops ih => simp only [List.map_cons, run, step, ih, Option.map_some, Memorystream.run]

/-- The log of a list of items is their bytes. -/
theorem logFrom_items (es : List Entry) (log : List UInt8) :
    Memorystream.logFrom log (es.map fun e => .append e.item.arg) = log ++ itemBytes es := by
  induction es generalizing log with
  | nil => simp [Memorystream.logFrom, itemBytes]
  | cons e es ih =>
      simp [Memorystream.logFrom, Memorystream.Op.log, ih, itemBytes]

/-- A packet into which items were written holds their bytes. -/
theorem run_writes (es : List Entry) (hfits : (itemBytes es).length ≤ ptrdiffMax) :
    ∃ p, Packet.empty.run (es.map Entry.write) = some (es.map fun _ => .done, p) ∧
      p.Sized ∧ p.bytes = itemBytes es ∧ p.mIndex = 0 := by
  have hrep : Memorystream.Represents
      (Memorystream.new.run (es.map fun e => .append e.item.arg))
      (Memorystream.logFrom [] (es.map fun e => .append e.item.arg)) := by
    refine Memorystream.represents_run Memorystream.represents_new _ fun before hpre => ?_
    obtain ⟨front, hfront, rfl⟩ := List.prefix_map_iff.mp hpre
    obtain ⟨rest, rfl⟩ := hfront
    simp only [itemBytes, List.flatMap_append, List.length_append] at hfits
    simp only [logFrom_items, List.nil_append, itemBytes]
    omega
  rw [logFrom_items, List.nil_append] at hrep
  refine ⟨{ Memorystream.new.run (es.map fun e => .append e.item.arg) with mIndex := 0 }, ?_,
    hrep.sized, hrep.bytes, rfl⟩
  have hrun := run_stream Packet.empty (es.map fun e => .append e.item.arg)
  rw [List.map_map, List.map_map] at hrun
  exact hrun

end Items

/-- Items that are written into an empty packet are read back in order: no assertion trips,
every read goes through, scalars and runs of characters are given back, and the cursor
ends up at the end. -/
def Aligned (es : List Entry) : Prop :=
  ∃ p q replies, Packet.empty.run (es.map Entry.write) = some (es.map fun _ => .done, p) ∧
    p.run (es.map Entry.read) = some (replies, q) ∧
    List.Forall₂ Entry.GivenBack es replies ∧ q.mIndex = q.length

/-- The answer to the read of an item, if a run of characters has some. -/
theorem givenBack_answer (e : Entry) (rest : List UInt8) (h : e.item.NonemptyRun) :
    e.GivenBack (e.answer rest) := by
  unfold Entry.GivenBack Entry.answer
  cases hitem : e.item with
  | scalar image => rfl
  | chars run =>
      have hrun : run.bytes ≠ [] := by simpa [Item.NonemptyRun, hitem] using h
      simp [hrun, take_overlay]
  | text str => rfl

theorem givenBack_answers (rest : List UInt8) (es : List Entry)
    (h : ∀ e ∈ es, e.item.NonemptyRun) : List.Forall₂ Entry.GivenBack es (answers rest es) := by
  induction es with
  | nil => exact .nil
  | cons e es ih =>
      rw [List.forall_mem_cons] at h
      exact .cons (givenBack_answer e _ h.1) (ih h.2)

/-- **Alignment**: scalars, runs of characters and strings in any order are read back as
they were written. -/
theorem aligned (es : List Entry) (hfits : (itemBytes es).length ≤ ptrdiffMax)
    (hruns : ∀ e ∈ es, e.item.NonemptyRun) : Aligned es := by
  obtain ⟨p, hwrite, hsized, hbytes, hcur⟩ := run_writes es hfits
  have hall : p.bytes = [] ++ itemBytes es ++ [] := by simp [hbytes]
  have hread := run_reads es hsized hall hcur
  refine ⟨p, _, _, hwrite, hread, givenBack_answers [] es hruns, ?_⟩
  have hlen := Memorystream.length_bytes hsized
  rw [hbytes] at hlen
  simpa [Memorystream.length] using hlen

/-- An `int`, seven characters, a string with a zero byte in it, and an `unsigned int`. -/
def mixedEntries : List Entry :=
  [⟨.scalar ⟨[10, 0, 0, 0], by decide⟩, [], fun _ => 0⟩,
    ⟨.chars ⟨[111, 113, 119, 111, 111, 113, 119], by decide⟩, [], fun _ => 0⟩,
    ⟨.text ⟨[101, 0, 119], by decide⟩, [1, 2], fun _ => 0⟩,
    ⟨.scalar ⟨[41, 0, 0, 0], by decide⟩, [], fun _ => 0⟩]

theorem aligned_mixedEntries : Aligned mixedEntries :=
  aligned mixedEntries (by decide) (by simp [mixedEntries, Item.NonemptyRun])

/-! ## Strings -/

/-- Every string among the items, read back at its place, is what was written. -/
def StringsEqual (es : List Entry) : Prop :=
  ∀ (before after : List Entry) (e : Entry) (str : Buffer),
    es = before ++ e :: after → e.item = .text str →
      ∃ p q replies, Packet.empty.run (es.map Entry.write) = some (es.map fun _ => .done, p) ∧
        p.run (before.map Entry.read) = some (replies, q) ∧
        (q.readStringNext e.beyond e.dest str.bytes.length).2.1 = str.bytes

/-- A string that is read back at its place comes with its terminator. -/
theorem string_read {before after : List Entry} {e : Entry} {str : Buffer}
    (hfits : (itemBytes (before ++ e :: after)).length ≤ ptrdiffMax) (hitem : e.item = .text str) :
    ∃ p q replies,
      Packet.empty.run ((before ++ e :: after).map Entry.write) =
        some ((before ++ e :: after).map fun _ => .done, p) ∧
      p.run (before.map Entry.read) = some (replies, q) ∧
      (q.readStringNext e.beyond e.dest str.bytes.length).2.1 = str.bytes ++ [0] := by
  obtain ⟨p, hwrite, hsized, hbytes, hcur⟩ := run_writes _ hfits
  have hsplit : p.bytes = [] ++ itemBytes before ++ (str.bytes ++ [0] ++ itemBytes after) := by
    simp [hbytes, itemBytes, hitem, Item.bytes]
  have hread := run_reads before hsized hsplit hcur
  refine ⟨p, _, _, hwrite, hread, ?_⟩
  have hplace : p.bytes = itemBytes before ++ e.item.bytes ++ itemBytes after := by
    simp [hsplit, hitem, Item.bytes]
  have hstep := step_read (p := { p with mIndex := (itemBytes before).length }) e hsized hplace rfl
  simp only [Entry.read, Entry.answer, hitem, step, Option.some.injEq, Prod.mk.injEq,
    Reply.status.injEq] at hstep
  simpa using hstep.1.2

/-- **Strings**: a string is never read back as it was written, so all strings are equal
exactly if there are none. -/
theorem stringsEqual_iff (es : List Entry) (hfits : (itemBytes es).length ≤ ptrdiffMax) :
    StringsEqual es ↔ ∀ e ∈ es, ¬ e.item.IsText := by
  constructor
  · intro h e he htext
    obtain ⟨before, after, rfl⟩ := List.append_of_mem he
    cases hitem : e.item with
    | scalar image => simp [Item.IsText, hitem] at htext
    | chars run => simp [Item.IsText, hitem] at htext
    | text str =>
        obtain ⟨p, q, replies, hwrite, hread, heq⟩ := h before after e str rfl hitem
        obtain ⟨p', q', replies', hwrite', hread', heq'⟩ := string_read hfits hitem
        rw [hwrite] at hwrite'
        cases hwrite'
        rw [hread] at hread'
        cases hread'
        rw [heq] at heq'
        simp at heq'
  · rintro h before after e str rfl hitem
    exact absurd (by simp [hitem, Item.IsText]) (h e (by simp))

/-- Items without a string. -/
def noText : List Entry := [⟨.scalar ⟨[7], by decide⟩, [], fun _ => 0⟩]

theorem stringsEqual_noText : StringsEqual noText :=
  (stringsEqual_iff noText (by decide)).mpr (by simp [noText, Item.IsText])

/-- The string `"ab"`. -/
def abText : List Entry := [⟨.text ⟨[97, 98], by decide⟩, [], fun _ => 0⟩]

/-- The string `"ab"` is read back with three bytes. -/
theorem not_stringsEqual_ab :
    ¬ StringsEqual abText ∧
      (Packet.empty.run (abText.map Entry.write ++ abText.map Entry.read)).map Prod.fst =
        some [.done, .status 0 [97, 98, 0]] := by
  refine ⟨fun h => ?_, rfl⟩
  obtain ⟨p, q, replies, hwrite, hread, heq⟩ := h [] [] _ _ rfl rfl
  cases hwrite
  cases hread
  exact absurd heq (by decide)

/-! ## Reading in pieces -/

/-- A call `read(char* dest, size_t len)`, with what the destination holds before and the
memory behind the vector at that time. -/
structure Piece where
  len : Nat
  dest : List UInt8
  beyond : Nat → UInt8

/-- The call. -/
def Piece.read (c : Piece) : Op := .readChars c.beyond c.dest c.len

/-- The bytes that the calls that went through have read. -/
def outputs : List Piece → List Reply → List UInt8
  | c :: cs, .status r dest :: replies =>
      (if r = 0 then dest.take c.len else []) ++ outputs cs replies
  | _, _ => []

/-- What is to hold after calls that were answered by `replies` and have led from `p` to
`q`: the stream is untouched, what was read is all in front of the cursor, and the next
call goes through exactly if its bytes are there and changes nothing if it does not. -/
structure InPieces (p q : Packet) (cs : List Piece) (replies : List Reply) : Prop where
  stream : q.toMemorystream = p.toMemorystream
  cursor : q.mIndex ≤ q.mLength
  output : outputs cs replies = q.mData.take q.mIndex
  goes : ∀ c : Piece, (q.readCharsNext c.beyond c.dest c.len).1 = 0 ↔
    q.mIndex < q.mLength ∧ q.mIndex + c.len ≤ q.mLength
  refused : ∀ c : Piece, (q.readCharsNext c.beyond c.dest c.len).1 ≠ 0 →
    (q.readCharsNext c.beyond c.dest c.len).1 ∈ [1, 2] ∧
      (q.readCharsNext c.beyond c.dest c.len).2 = (c.dest, q)

section Pieces

variable {p : Packet}

/-- One call: what it returns, and where the cursor is then. -/
theorem step_piece (hp : p.Sized) (hcur : p.mIndex ≤ p.mLength) (c : Piece) :
    ∃ r dest i, p.step c.read = some (.status r dest, { p with mIndex := i }) ∧
      i ≤ p.mLength ∧
      p.bytes.take p.mIndex ++ (if r = 0 then dest.take c.len else []) = p.bytes.take i := by
  have hstep : p.step c.read =
      some (.status (p.readCharsNext c.beyond c.dest c.len).1
        (p.readCharsNext c.beyond c.dest c.len).2.1,
        (p.readCharsNext c.beyond c.dest c.len).2.2) := rfl
  rw [hstep, readCharsNext_eq hp]
  by_cases hoff : p.mLength ≤ p.mIndex
  · rw [if_pos hoff]
    exact ⟨1, c.dest, p.mIndex, rfl, hcur, by simp⟩
  · rw [if_neg hoff]
    by_cases hend : p.mLength < p.mIndex + c.len
    · rw [if_pos hend]
      exact ⟨2, c.dest, p.mIndex, rfl, hcur, by simp⟩
    · rw [if_neg hend]
      have hlen : (slice p.bytes p.mIndex c.len).length = c.len := by
        have htotal := Memorystream.length_bytes hp
        simp only [Memorystream.length] at htotal
        simp only [slice, List.length_take, List.length_drop]
        omega
      refine ⟨0, _, p.mIndex + c.len, rfl, by omega, ?_⟩
      rw [if_pos rfl, take_overlay hlen, slice, ← List.take_add]

/-- Calls of `read(char*, len)`, from a cursor in the stream. -/
theorem run_pieces (hp : p.Sized) (hcur : p.mIndex ≤ p.mLength) (cs : List Piece) :
    ∃ replies i, p.run (cs.map Piece.read) = some (replies, { p with mIndex := i }) ∧
      i ≤ p.mLength ∧ p.bytes.take p.mIndex ++ outputs cs replies = p.bytes.take i := by
  induction cs generalizing p with
  | nil => exact ⟨[], p.mIndex, rfl, hcur, by simp [outputs]⟩
  | cons c cs ih =>
      obtain ⟨r, dest, i, hstep, hi, htake⟩ := step_piece hp hcur c
      obtain ⟨replies, j, hrun, hj, houtput⟩ := ih (p := { p with mIndex := i }) hp hi
      refine ⟨.status r dest :: replies, j, ?_, hj, ?_⟩
      · simp only [List.map_cons, run, hstep, hrun, Option.map_some]
      · rw [outputs, ← List.append_assoc, htake]
        exact houtput

/-- The next call, from any packet. -/
theorem next_piece (hp : p.Sized) (c : Piece) :
    ((p.readCharsNext c.beyond c.dest c.len).1 = 0 ↔
      p.mIndex < p.mLength ∧ p.mIndex + c.len ≤ p.mLength) ∧
    ((p.readCharsNext c.beyond c.dest c.len).1 ≠ 0 →
      (p.readCharsNext c.beyond c.dest c.len).1 ∈ [1, 2] ∧
        (p.readCharsNext c.beyond c.dest c.len).2 = (c.dest, p)) := by
  rw [readCharsNext_eq hp]
  by_cases hoff : p.mLength ≤ p.mIndex
  · have hno : ¬ p.mIndex < p.mLength := by omega
    simp [hoff, hno]
  · by_cases hend : p.mLength < p.mIndex + c.len
    · have hno : ¬ p.mIndex + c.len ≤ p.mLength := by omega
      simp [hoff, hend, hno]
    · have hyes : p.mIndex < p.mLength ∧ p.mIndex + c.len ≤ p.mLength := by omega
      simp [hoff, hend, hyes]

end Pieces

/-- **Pieces**: a packet that is read from the front by any calls of `read(char*, len)` is
read as by one call, whichever of them go through. -/
theorem chunks_read (p : Packet) (hp : p.Reached) (hcur : p.mIndex = 0) (cs : List Piece) :
    ∃ replies q, p.run (cs.map Piece.read) = some (replies, q) ∧ InPieces p q cs replies := by
  have hsized := sized_of_reached hp
  obtain ⟨replies, i, hrun, hi, houtput⟩ := run_pieces hsized (by omega) cs
  refine ⟨replies, { p with mIndex := i }, hrun, rfl, hi, ?_, fun c => ?_, fun c => ?_⟩
  · rw [hcur, List.take_zero, List.nil_append] at houtput
    rw [houtput, Memorystream.bytes, List.take_take, Nat.min_eq_left hi]
  · exact (next_piece (p := { p with mIndex := i }) hsized c).1
  · exact (next_piece (p := { p with mIndex := i }) hsized c).2

/-- Two bytes, two bytes more than there are, and the last one, of a packet of three. -/
theorem chunks_read_three : ∃ replies q,
    (ofBytes (some [1, 2, 3]) 3).run
      ([⟨2, [], fun _ => 0⟩, ⟨2, [9], fun _ => 0⟩, ⟨1, [], fun _ => 0⟩].map Piece.read) =
        some (replies, q) ∧
      InPieces (ofBytes (some [1, 2, 3]) 3) q
        [⟨2, [], fun _ => 0⟩, ⟨2, [9], fun _ => 0⟩, ⟨1, [], fun _ => 0⟩] replies := by
  have hp : (ofBytes (some [1, 2, 3]) 3).Reached :=
    ⟨.bytes 3 (some ⟨[1, 2, 3], by decide⟩) (by simp), [], List.mem_singleton.mpr rfl⟩
  exact chunks_read _ hp rfl _

end Packet

end GEngine
