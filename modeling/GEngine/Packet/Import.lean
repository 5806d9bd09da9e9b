import GEngine.Packet.Header

/-!
# GEngine.Packet.Import

The two constructors that import bytes, `packet(const char*, size_t)` and
`packet(std::string&)`.  The second one reaches the `append` for strings, which adds the
terminator, and does not initialise the cursor.
-/

namespace GEngine

namespace Packet

/-- The reads at the cursor, as operations. -/
def Op.IsRead : Op → Prop
  | .stream _ => False
  | _ => True

/-- What is to be the same for a string imported as bytes and as a `std::string`, in memory
that held `index` where `m_index` is. -/
structure ImportsAgree (index : Nat) (s : Buffer) : Prop where
  length : (ofString index s.bytes).length = (ofBytes (some s.bytes) s.bytes.length).length
  content : (ofString index s.bytes).bytes = (ofBytes (some s.bytes) s.bytes.length).bytes
  cursor : (ofString index s.bytes).mIndex = 0 ∧
    (ofBytes (some s.bytes) s.bytes.length).mIndex = 0
  valid : (ofString index s.bytes).isValid = (ofBytes (some s.bytes) s.bytes.length).isValid
  fields : ∀ q, (ofString index s.bytes).ask q = (ofBytes (some s.bytes) s.bytes.length).ask q
  reads : ∀ ops : List Op, (∀ op ∈ ops, op.IsRead) →
    ((ofString index s.bytes).run ops).map Prod.fst =
      ((ofBytes (some s.bytes) s.bytes.length).run ops).map Prod.fst

/-- A packet made of a `std::string`: its bytes and its length. -/
theorem ofString_buffer (index : Nat) (s : Buffer) :
    (ofString index s.bytes).bytes = s.bytes ++ [0] ∧
      (ofString index s.bytes).length = s.bytes.length + 1 ∧
      (ofString index s.bytes).mIndex = index := by
  rw [ofString_eq index s.bytes s.fits]
  refine ⟨Memorystream.bytes_full _, ?_, rfl⟩
  show (Memorystream.full (s.bytes ++ [0])).length = s.bytes.length + 1
  rw [Memorystream.length_full, List.length_append, List.length_singleton]

/-- **Imports**: the two constructors never agree.  The `std::string` is one byte longer and
ends in a zero byte; the cursor is at the front only if zero was there before; and one
packet is valid and the other is not for strings of 23 bytes. -/
theorem imports_differ (index : Nat) (s : Buffer) :
    ¬ ImportsAgree index s ∧
      (ofString index s.bytes).bytes = (ofBytes (some s.bytes) s.bytes.length).bytes ++ [0] ∧
      ((ofString index s.bytes).mIndex = (ofBytes (some s.bytes) s.bytes.length).mIndex ↔
        index = 0) ∧
      ((ofString index s.bytes).isValid = (ofBytes (some s.bytes) s.bytes.length).isValid ↔
        s.bytes.length + 1 ≠ headLength) := by
  obtain ⟨hbytes, hlen, hcursor⟩ := ofString_buffer index s
  obtain ⟨-, hbytes', hlen'⟩ := ofBytes_buffer s
  refine ⟨fun h => ?_, ?_, ?_, ?_⟩
  · have hsame := h.length
    rw [hlen, hlen'] at hsame
    omega
  · rw [hbytes, hbytes']
  · rw [hcursor]
    exact Iff.rfl
  · unfold isValid
    rw [hlen, hlen', decide_eq_decide]
    omega

/-- A string of 23 bytes. -/
def short : Buffer := ⟨List.replicate 23 0, by decide⟩

/-- A string of 23 bytes is a valid packet by one constructor only. -/
theorem not_importsAgree_short :
    ¬ ImportsAgree 0 short ∧ (ofString 0 short.bytes).isValid = true ∧
      (ofBytes (some short.bytes) 23).isValid = false := by
  refine ⟨fun h => ?_, by decide, by decide⟩
  exact absurd h.length (by decide)

end Packet

end GEngine
