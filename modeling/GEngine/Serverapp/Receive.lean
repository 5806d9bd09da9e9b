import GEngine.Dispatcher
import GEngine.Packet.Header

/-!
# GEngine.Serverapp.Receive

From received bytes to handlers: `serverapp::on_tcpreceive` makes a packet of the bytes,
drops it if it is too short for a header, and dispatches it under its id.

The receivers are those of `GEngine.Dispatcher`, with packets as data.  Which targets are
registered for an id, and in which order, is what `Registry` says.
-/

namespace GEngine

namespace Serverapp

open Packet

variable {Cls : Type} {Obj Func : Cls → Type} {Sender : Type}

/-- `serverapp::on_tcpreceive(session, data, length)`: the calls that are made; `none` when
the `assert` of `read<T>` trips. -/
def onTcpreceive (d : Dispatcher Obj Func) (session : Sender) (data : Option (List UInt8))
    (length : Nat) : Option (List (Call Obj Func Sender Packet)) :=
  let pack := Packet.ofBytes data length
  if pack.isValid = false then some []
  else pack.id.map fun id => d.dispatch session id pack

/-- The calls go to the targets whose object is not null, to each once and in order, with
the same session, id and packet. -/
structure Delivered (targets : List (Target Obj Func)) (session : Sender) (id : Int)
    (pack : Packet) (calls : List (Call Obj Func Sender Packet)) : Prop where
  once : targets.Nodup
  called : calls.map Call.target = targets.filter fun p => p.object.isSome
  passed : ∀ c ∈ calls, c.sender = session ∧ c.id = id ∧ c.data = pack

/-- What the registry delivers. -/
theorem delivered_dispatch (f : Registry Obj Func) (session : Sender) (id : Int)
    (pack : Packet) : Delivered (f.targets id) session id pack (f.dispatch session id pack) where
  once := f.nodup id
  called := by
    unfold Registry.dispatch
    induction f.targets id with
    | nil => rfl
    | cons p ps ih =>
        obtain ⟨cls, object, func⟩ := p
        cases object with
        | none => simpa [Target.call] using ih
        | some object => simpa [Target.call, Call.target] using ih
  passed := by
    intro c hc
    obtain ⟨p, -, hcall⟩ := List.mem_filterMap.mp hc
    obtain ⟨object, -, rfl⟩ := Option.map_eq_some_iff.mp hcall
    exact ⟨rfl, rfl, rfl⟩

/-- A packet that holds a header is dispatched under the word at its front. -/
theorem onTcpreceive_valid (d : Dispatcher Obj Func) (session : Sender) (b : Buffer)
    (h : headLength ≤ b.bytes.length) :
    onTcpreceive d session (some b.bytes) b.bytes.length =
      some (d.dispatch session (intOf (b.bytes.take 4))
        (Packet.ofBytes (some b.bytes) b.bytes.length)) := by
  obtain ⟨hsized, hbytes, hlen⟩ := ofBytes_buffer b
  have hvalid : (Packet.ofBytes (some b.bytes) b.bytes.length).isValid = true := by
    rw [isValid, hlen, decide_eq_true_eq]
    exact h
  have hid : (Packet.ofBytes (some b.bytes) b.bytes.length).id =
      some (intOf (b.bytes.take 4)) := by
    rw [Packet.id, field_of_le hsized (by decide), hbytes]
    · rfl
    · rw [hlen]
      unfold headLength at h
      unfold idOffset
      omega
  unfold onTcpreceive
  simp only [hvalid, hid, Option.map_some]
  rfl

/-- A packet that is too short is dropped. -/
theorem onTcpreceive_short (d : Dispatcher Obj Func) (session : Sender) (b : Buffer)
    (h : b.bytes.length < headLength) :
    onTcpreceive d session (some b.bytes) b.bytes.length = some [] := by
  have hlen := (ofBytes_buffer b).2.2
  have hvalid : (Packet.ofBytes (some b.bytes) b.bytes.length).isValid = false := by
    rw [isValid, hlen, decide_eq_false_iff_not]
    omega
  unfold onTcpreceive
  simp only [hvalid]
  rfl

variable [DecidableEq Cls] [∀ c, DecidableEq (Obj c)] [∀ c, DecidableEq (Func c)]

/-- A received buffer, in the terms of the registry. -/
theorem onTcpreceive_run (ops : List (DispatcherOp Obj Func Sender Packet)) (session : Sender)
    (b : Buffer) (h : headLength ≤ b.bytes.length) :
    ∃ calls, onTcpreceive (Dispatcher.empty.run ops).2 session (some b.bytes) b.bytes.length =
        some calls ∧
      Delivered ((Registry.empty.run ops).2.targets (intOf (b.bytes.take 4))) session
        (intOf (b.bytes.take 4)) (Packet.ofBytes (some b.bytes) b.bytes.length) calls := by
  have hempty : Refines (Dispatcher.empty : Dispatcher Obj Func) Registry.empty := refines_empty
  have href := (refines_run hempty ops).2
  refine ⟨_, onTcpreceive_valid _ session b h, ?_⟩
  rw [refines_dispatch href]
  exact delivered_dispatch _ session _ _

/-- **From bytes to handlers**: after any sequence of calls of the interface, a buffer that
holds a header reaches the receivers registered for the id in its first four bytes, with
a packet of the same length and bytes; a shorter one reaches none; and the bytes of a
packet that was made for an id reach the receivers of that id, with its fields. -/
theorem tcpreceive_delivers (ops : List (DispatcherOp Obj Func Sender Packet))
    (session : Sender) :
    (∀ b : Buffer, headLength ≤ b.bytes.length → ∃ calls pack,
      onTcpreceive (Dispatcher.empty.run ops).2 session (some b.bytes) b.bytes.length =
          some calls ∧
        Delivered ((Registry.empty.run ops).2.targets (intOf (b.bytes.take 4))) session
          (intOf (b.bytes.take 4)) pack calls ∧
        pack.length = b.bytes.length ∧ pack.bytes = b.bytes) ∧
    (∀ b : Buffer, b.bytes.length < headLength →
      onTcpreceive (Dispatcher.empty.run ops).2 session (some b.bytes) b.bytes.length =
        some []) ∧
    (∀ (id extra : Int32) (t : Int64) (body : Option Buffer) (n : Nat), n < 2 ^ 32 →
      (∀ b, body = some b → b.bytes.length = n) →
      ∀ sent, sent = Packet.new t.toInt id.toInt (body.map Buffer.bytes) n extra.toInt →
      ∃ calls pack,
        onTcpreceive (Dispatcher.empty.run ops).2 session (some sent.bytes) sent.length =
            some calls ∧
          Delivered ((Registry.empty.run ops).2.targets id.toInt) session id.toInt pack calls ∧
          sent.HasHeader t.toInt id.toInt n extra.toInt ∧
          pack.HasHeader t.toInt id.toInt n extra.toInt) := by
  refine ⟨fun b hb => ?_, fun b hb => onTcpreceive_short _ session b hb, ?_⟩
  · obtain ⟨calls, hcalls, hdelivered⟩ := onTcpreceive_run ops session b hb
    obtain ⟨-, hbytes, hlen⟩ := ofBytes_buffer b
    exact ⟨calls, _, hcalls, hdelivered, hlen, hbytes⟩
  · intro id extra t body n hn hbody sent hsent
    obtain ⟨hsized, hpre⟩ := header_new t.toInt id.toInt extra.toInt body n hn hbody
    rw [← hsent] at hsized hpre
    have hlen : sent.bytes.length = sent.length := Memorystream.length_bytes hsized
    have hfit := length_bytes_le hsized
    have hhead : headLength ≤ sent.bytes.length := by
      have hle := hpre.length_le
      rw [length_header] at hle
      exact hle
    obtain ⟨calls, hcalls, hdelivered⟩ := onTcpreceive_run ops session ⟨sent.bytes, hfit⟩ hhead
    obtain ⟨hsized', hbytes', -⟩ := ofBytes_buffer ⟨sent.bytes, hfit⟩
    have hfront : intOf (sent.bytes.take 4) = id.toInt := by
      obtain ⟨rest, hrest⟩ := hpre
      have hslice : sent.bytes.take 4 = slice sent.bytes idOffset 4 := rfl
      rw [hslice, ← hrest, slice_append_left (by rw [length_header]; decide),
        (slice_header _ _ _ _).1, intOf_intImage]
      exact Int32.toInt_bmod id
    simp only [hfront] at hdelivered
    rw [hlen] at hcalls
    refine ⟨calls, _, hcalls, hdelivered, hasHeader_exact hsized hpre hn, ?_⟩
    exact hasHeader_exact hsized' (by rw [hbytes']; exact hpre) hn

/-- Three registrations for one id, one of them without an object. -/
def threeListeners : List (DispatcherOp (fun _ : Unit => Nat) (fun _ => Bool) Nat Packet) :=
  [.listen 7 ⟨(), some 1, true⟩, .listen 7 ⟨(), none, true⟩, .listen 7 ⟨(), some 2, false⟩]

/-- A packet without a body is delivered to the two registrations with an object. -/
theorem tcpreceive_delivers_seven :
    ∃ calls pack,
      onTcpreceive (Dispatcher.empty.run threeListeners).2 5
          (some (Packet.new (0 : Int64).toInt (7 : Int32).toInt none 0 (0 : Int32).toInt).bytes)
          (Packet.new (0 : Int64).toInt (7 : Int32).toInt none 0 (0 : Int32).toInt).length =
        some calls ∧
      Delivered ((Registry.empty.run threeListeners).2.targets (7 : Int32).toInt) 5
        (7 : Int32).toInt pack calls ∧
      (Registry.empty.run threeListeners).2.targets (7 : Int32).toInt =
        [⟨(), some 1, true⟩, ⟨(), none, true⟩, ⟨(), some 2, false⟩] ∧
      pack.id = some (7 : Int32).toInt := by
  obtain ⟨calls, pack, hcalls, hdelivered, -, hpack⟩ :=
    (tcpreceive_delivers threeListeners 5).2.2 7 0 0 none 0 (by decide) (by simp) _ rfl
  exact ⟨calls, pack, hcalls, hdelivered, by decide, hpack.id⟩

end Serverapp

end GEngine
