import GEngine.Channel
import GEngine.Heap
import GEngine.UvPacket

/-!
# GEngine.Send

Sending: `uv_tcp_server::send` and `uv_udp_server::send`
(`libs/network/src/uv_tcp_server.cpp`, `uv_udp_server.cpp`).

Each session has one write buffer and one request for all its sends, and so has the UDP
server.  libuv does not copy: what it queues is the request, and the bytes are read when
it transmits.  So a sender is a `slot` (`run_slot`), where a queue was meant,
and the two agree exactly on the runs that `faithful_tcp_iff` and `faithful_udp_iff`
describe.  The TCP side keeps, in addition, a pointer to the buffer that it has
reallocated.
-/

namespace GEngine

/-! ## The model -/

/-- A `uv_buf_t` into the heap. -/
structure WriteBuf where
  base : Nat
  len : Nat
  deriving DecidableEq, Repr

/-- What a `uv_write_t` or a `uv_udp_send_t` refers to while it is queued. -/
structure Request (Addr : Type) where
  buf : WriteBuf
  addr : Addr
  deriving DecidableEq, Repr

/-- What sends share: the `m_writebuf` and the request (`m_write` or `m_sendreq`) of a
session or of the UDP server, how many times libuv has the request queued, and what it
has transmitted.  A stream has no addresses: there, `Addr` is `Unit`. -/
structure Sender (Addr : Type) where
  heap : Heap
  mWritebuf : WriteBuf
  request : Option (Request Addr)
  queued : Nat
  sent : List (Addr × List UInt8)

namespace Sender

variable {Addr : Type}

/-- A new sender, as the constructors of `uv_session` and `uv_udp_server` leave it. -/
def new (junk : UInt8) : Sender Addr :=
  let (base, heap) := Heap.empty.malloc packetBufferSize junk
  ⟨heap, ⟨base, packetBufferSize⟩, none, 0, []⟩

/-- `uv_write` and `uv_udp_send`: the request is queued.  The counter stands for a queue in
which one request may be several times.  The queues of libuv are not such: the request is
linked into them by its own fields, from the call until its completion callback, and to
queue it again in between, with another payload or the same, breaks the list (it is resent
without end, or the process crashes).  What is said here of such runs grants libuv that. -/
def enqueue (s : Sender Addr) (buf : WriteBuf) (addr : Addr) : Sender Addr :=
  { s with request := some ⟨buf, addr⟩, queued := s.queued + 1 }

/-- libuv transmits what the first request in its queue refers to. -/
def transmit (s : Sender Addr) : Sender Addr :=
  match s.queued, s.request with
  | n + 1, some r =>
      { s with
        heap := s.heap.use r.buf.base r.buf.len
        queued := n
        sent := s.sent ++ [(r.addr, s.heap.read r.buf.base r.buf.len)] }
  | _, _ => s

/-- The local `buffer` of `uv_tcp_server::send`, reallocated if it is too short.  It is a
copy: `m_writebuf` stays as it is. -/
def tcpBuffer (s : Sender Unit) (length : Nat) (a : Realloc) : WriteBuf × Heap :=
  let buffer := s.mWritebuf
  if buffer.len < length then
    let (base, heap) := s.heap.realloc buffer.base length a
    (⟨base, length⟩, heap)
  else (buffer, s.heap)

/-- `uv_tcp_server::send(session, data, length)` for a session that is not null.  `r` is
the result of `uv_write`; the process dies if it is not zero. -/
def tcpSend (s : Sender Unit) (data : List UInt8) (a : Realloc) (r : Int) :
    Option (Sender Unit) :=
  let (buffer, heap) := s.tcpBuffer data.length a
  let heap := heap.memset buffer.base buffer.len
  let heap := heap.memcpy buffer.base data
  let s := { s with heap := heap }.enqueue ⟨buffer.base, data.length⟩ ()
  if r = 0 then some s else none

/-- The heap after `uv_tcp_server::send` has cleared and filled its buffer. -/
def tcpWrite (s : Sender Unit) (data : List UInt8) (a : Realloc) : Heap :=
  let (buffer, heap) := s.tcpBuffer data.length a
  (heap.memset buffer.base buffer.len).memcpy buffer.base data

/-- A send writes, and queues what it has written. -/
theorem tcpSend_eq (s : Sender Unit) (data : List UInt8) (a : Realloc) (r : Int) :
    s.tcpSend data a r = if r = 0 then
      some ({ s with heap := s.tcpWrite data a }.enqueue
        ⟨(s.tcpBuffer data.length a).1.base, data.length⟩ ())
    else none := rfl

/-- `uv_udp_server::send` makes its buffer ready: reallocated, or cleared. -/
def udpBuffer (s : Sender Addr) (length : Nat) (a : Realloc) : Sender Addr :=
  if s.mWritebuf.len < length then
    let (base, heap) := s.heap.realloc s.mWritebuf.base length a
    { s with heap := heap, mWritebuf := ⟨base, length⟩ }
  else { s with heap := s.heap.memset s.mWritebuf.base s.mWritebuf.len }

/-- `uv_udp_server::send(addr, data, length)`; `r` is the result of `uv_udp_send`. -/
def udpSend (s : Sender Addr) (addr : Addr) (data : List UInt8) (a : Realloc) (r : Int) :
    Option (Sender Addr) :=
  let s := s.udpBuffer data.length a
  let s := { s with
    heap := s.heap.memcpy s.mWritebuf.base data
    mWritebuf := { s.mWritebuf with len := data.length } }
  let s := s.enqueue s.mWritebuf addr
  if r = 0 then some s else none

/-- The heap after `uv_udp_server::send` has filled its buffer. -/
def udpWrite (s : Sender Addr) (data : List UInt8) (a : Realloc) : Heap :=
  let s := s.udpBuffer data.length a
  s.heap.memcpy s.mWritebuf.base data

theorem udpSend_eq (s : Sender Addr) (addr : Addr) (data : List UInt8) (a : Realloc) (r : Int) :
    s.udpSend addr data a r = if r = 0 then
      some ({ s.udpBuffer data.length a with
        heap := s.udpWrite data a
        mWritebuf := ⟨(s.udpBuffer data.length a).mWritebuf.base, data.length⟩ }.enqueue
          ⟨(s.udpBuffer data.length a).mWritebuf.base, data.length⟩ addr)
    else none := rfl

end Sender

/-- One step of a sender: a call of `send`, or libuv transmits. -/
inductive SendOp (Addr : Type)
  | send (addr : Addr) (data : List UInt8) (a : Realloc) (r : Int)
  | transmit
  deriving DecidableEq, Repr

namespace SendOp

variable {Addr : Type}

/-- A step of a session. -/
def tcpStep : SendOp Unit → Sender Unit → Option (Sender Unit)
  | .send _ data a r, s => s.tcpSend data a r
  | .transmit, s => some s.transmit

/-- A step of the UDP server. -/
def udpStep : SendOp Addr → Sender Addr → Option (Sender Addr)
  | .send addr data a r, s => s.udpSend addr data a r
  | .transmit, s => some s.transmit

/-- A run of steps; `none` when an assertion failed. -/
def run (step : SendOp Addr → Sender Addr → Option (Sender Addr)) :
    List (SendOp Addr) → Sender Addr → Option (Sender Addr)
  | [], s => some s
  | op :: ops, s => (step op s).bind (run step ops)

/-- libuv accepts the request. -/
def Accepted : SendOp Addr → Prop
  | .send _ _ _ r => r = 0
  | .transmit => True

/-- What the step is to a channel of messages. -/
def toChannel : SendOp Addr → ChannelOp (Addr × List UInt8)
  | .send addr data _ _ => .put (addr, data)
  | .transmit => .take

/-- The messages of the calls, in order. -/
def payloads (ops : List (SendOp Addr)) : List (Addr × List UInt8) :=
  ChannelOp.puts (ops.map toChannel)

end SendOp

open SendOp

/-- The bytes a session has transmitted are, all along the run, those of the payloads in
the order of the calls, but for the calls that are still queued; and no freed memory is
used. -/
def FaithfulTcp (junk : UInt8) (ops : List (SendOp Unit)) : Prop :=
  ∀ before, before <+: ops → ∃ s, run tcpStep before (Sender.new junk) = some s ∧
    s.heap.misused = false ∧
    s.sent.flatMap Prod.snd =
      ((payloads before).take ((payloads before).length - s.queued)).flatMap Prod.snd

/-- The datagrams the server has transmitted are those of the calls, in order, but for
the calls that are still queued; and no freed memory is used. -/
def FaithfulUdp {Addr : Type} (junk : UInt8) (ops : List (SendOp Addr)) : Prop :=
  ∃ s, run udpStep ops (Sender.new junk) = some s ∧ s.heap.misused = false ∧
    s.sent = (payloads ops).take ((payloads ops).length - s.queued)

/-! ## A sender is a slot -/

section Slot

variable {Addr : Type}

/-- The request refers to the message `x`. -/
structure Carries (s : Sender Addr) (x : Addr × List UInt8) : Prop where
  request : ∃ r, s.request = some r ∧ r.addr = x.1 ∧ s.heap.Usable r.buf.base r.buf.len ∧
    s.heap.read r.buf.base r.buf.len = x.2

/-- The messages `q` were sent and are still queued: the request refers to the latest. -/
structure Holds (s : Sender Addr) (q : List (Addr × List UInt8)) : Prop where
  queued : s.queued = q.length
  carries : ∀ x, q.getLast? = some x → Carries s x
  clean : s.heap.misused = false

theorem holds_new (junk : UInt8) : Holds (Sender.new junk : Sender Addr) [] where
  queued := rfl
  carries := by simp
  clean := rfl

theorem transmit_nil {s : Sender Addr} (h : Holds s []) : s.transmit = s := by
  unfold Sender.transmit
  rw [h.queued]
  rfl

/-- A transmission sends the latest message. -/
theorem transmit_cons {s : Sender Addr} {x : Addr × List UInt8} {q : List (Addr × List UInt8)}
    (h : Holds s (x :: q)) :
    s.transmit = { s with queued := q.length, sent := s.sent ++ [q.getLast?.getD x] } := by
  obtain ⟨r, hr, haddr, hu, hread⟩ := (h.carries (q.getLast?.getD x) List.getLast?_cons).request
  unfold Sender.transmit
  rw [h.queued, List.length_cons, hr]
  simp only [Heap.use_of_usable hu, haddr, hread]

theorem holds_transmit {s : Sender Addr} {x : Addr × List UInt8} {q : List (Addr × List UInt8)}
    (h : Holds s (x :: q)) : Holds s.transmit q := by
  rw [transmit_cons h]
  refine ⟨rfl, fun y hy => ?_, h.clean⟩
  obtain ⟨r, hr⟩ := (h.carries y (by simp [List.getLast?_cons, hy])).request
  exact ⟨r, hr⟩

/-- A transmission leaves a sender as it is to be, whatever is queued. -/
theorem exists_holds_transmit {s : Sender Addr} {q : List (Addr × List UInt8)} (h : Holds s q) :
    ∃ q', Holds s.transmit q' := by
  cases q with
  | nil => exact ⟨[], by rw [transmit_nil h]; exact h⟩
  | cons x q => exact ⟨q, holds_transmit h⟩

/-- A message that was put into the buffer is queued behind the others. -/
theorem holds_enqueue {s : Sender Addr} {q : List (Addr × List UInt8)} {buf : WriteBuf}
    {data : List UInt8} (addr : Addr) (hq : s.queued = q.length)
    (hclean : s.heap.misused = false) (hu : s.heap.Usable buf.base data.length)
    (hlen : buf.len = data.length) (hread : s.heap.read buf.base data.length = data) :
    Holds (s.enqueue buf addr) (q ++ [(addr, data)]) where
  queued := by simp [Sender.enqueue, hq]
  carries x hx := by
    have hx' : x = (addr, data) := by simpa [eq_comm] using hx
    subst hx'
    exact ⟨⟨⟨buf, addr⟩, rfl, rfl, by rw [hlen]; exact hu, by rw [hlen]; exact hread⟩⟩
  clean := hclean

/-- What a step function has to keep, in a run whose remaining steps are given, for the
sender to be a slot. -/
structure SlotStep (step : SendOp Addr → Sender Addr → Option (Sender Addr))
    (I : Sender Addr → List (SendOp Addr) → Prop) : Prop where
  send : ∀ {s q addr data a r ops}, Holds s q → I s (.send addr data a r :: ops) →
    ∃ t, step (.send addr data a r) s = some t ∧ t.sent = s.sent ∧
      Holds t (q ++ [(addr, data)]) ∧ I t ops
  transmit : ∀ s, step .transmit s = some s.transmit
  transmitted : ∀ {s ops}, I s (.transmit :: ops) → I s.transmit ops

/-- **Slot**: a sender transmits the latest message each time. -/
theorem run_slot {step : SendOp Addr → Sender Addr → Option (Sender Addr)}
    {I : Sender Addr → List (SendOp Addr) → Prop} (hstep : SlotStep step I)
    {s : Sender Addr} {q : List (Addr × List UInt8)} {ops : List (SendOp Addr)}
    (hs : Holds s q) (hI : I s ops) :
    ∃ t, run step ops s = some t ∧ t.heap.misused = false ∧
      t.sent = s.sent ++ ChannelOp.slot q (ops.map toChannel) ∧
      t.queued = ChannelOp.left q.length (ops.map toChannel) := by
  induction ops generalizing s q with
  | nil => exact ⟨s, rfl, hs.clean, by simp [ChannelOp.slot], hs.queued⟩
  | cons op ops ih =>
      cases op with
      | send addr data a r =>
          obtain ⟨u, hu, hsent, hsu, hIu⟩ := hstep.send hs hI
          obtain ⟨t, ht, hclean, hslot, hleft⟩ := ih hsu hIu
          refine ⟨t, ?_, hclean, ?_, ?_⟩
          · simp only [run, hu, Option.bind_some, ht]
          · simp only [hslot, hsent, List.map_cons, toChannel, ChannelOp.slot]
          · simpa [toChannel, ChannelOp.left] using hleft
      | transmit =>
          have hrun : run step (.transmit :: ops) s = run step ops s.transmit := by
            simp only [run, hstep.transmit, Option.bind_some]
          have hIt : I s.transmit ops := hstep.transmitted hI
          cases q with
          | nil =>
              rw [transmit_nil hs] at hrun hIt
              obtain ⟨t, ht, hclean, hslot, hleft⟩ := ih hs hIt
              refine ⟨t, hrun.trans ht, hclean, ?_, ?_⟩
              · simp only [hslot, List.map_cons, toChannel, ChannelOp.slot]
              · simpa [toChannel, ChannelOp.left] using hleft
          | cons x q =>
              obtain ⟨t, ht, hclean, hslot, hleft⟩ := ih (holds_transmit hs) hIt
              refine ⟨t, hrun.trans ht, hclean, ?_, ?_⟩
              · simp [hslot, transmit_cons hs, toChannel, ChannelOp.slot]
              · simpa [toChannel, ChannelOp.left] using hleft

end Slot

/-! ## The UDP server -/

section Udp

variable {Addr : Type} {s : Sender Addr} {q : List (Addr × List UInt8)}

/-- The write buffer is the server's, and has the length it says. -/
structure Owned (s : Sender Addr) : Prop where
  base : s.mWritebuf.base < s.heap.next
  usable : s.heap.Usable s.mWritebuf.base s.mWritebuf.len

theorem owned_new (junk : UInt8) : Owned (Sender.new junk : Sender Addr) where
  base := by simp [Sender.new, Heap.malloc, Heap.empty]
  usable := by simp [Sender.new, Heap.malloc, Heap.empty, Heap.Usable]

theorem owned_transmit (h : Owned s) : Owned s.transmit := by
  unfold Sender.transmit
  split
  · exact ⟨h.base, h.usable⟩
  · exact h

theorem udpBuffer_spec (hs : s.heap.misused = false) (ho : Owned s) (n : Nat) (a : Realloc) :
    (s.udpBuffer n a).sent = s.sent ∧ (s.udpBuffer n a).queued = s.queued ∧
      (s.udpBuffer n a).heap.misused = false ∧
      (s.udpBuffer n a).mWritebuf.base < (s.udpBuffer n a).heap.next ∧
      (s.udpBuffer n a).heap.Usable (s.udpBuffer n a).mWritebuf.base n := by
  unfold Sender.udpBuffer
  by_cases hlen : s.mWritebuf.len < n
  · obtain ⟨hu, hmis, hbase, -⟩ :=
      Heap.realloc_spec ho.base (ho.usable.mono (Nat.zero_le _)) n a
    rw [if_pos hlen]
    exact ⟨rfl, rfl, hmis.trans hs, hbase, hu⟩
  · have hfit : s.heap.Usable s.mWritebuf.base n := ho.usable.mono (Nat.le_of_not_lt hlen)
    rw [if_neg hlen]
    exact ⟨rfl, rfl, (Heap.misused_memset ho.usable).trans hs, ho.base,
      (Heap.usable_memset _).mpr hfit⟩

/-- A send puts its message behind the others. -/
theorem udpSend_run (hs : Holds s q) (ho : Owned s) (addr : Addr) (data : List UInt8)
    (a : Realloc) : ∃ t, s.udpSend addr data a 0 = some t ∧ t.sent = s.sent ∧
      Holds t (q ++ [(addr, data)]) ∧ Owned t := by
  obtain ⟨hsent, hqueued, hclean, hbase, hu⟩ := udpBuffer_spec hs.clean ho data.length a
  have hu' := (Heap.usable_memcpy (b := (s.udpBuffer data.length a).mWritebuf.base) data).mpr hu
  refine ⟨_, rfl, hsent, ?_, hbase, hu'⟩
  exact holds_enqueue addr (hqueued.trans hs.queued) ((Heap.misused_memcpy hu).trans hclean) hu'
    rfl (Heap.read_memcpy hu)

theorem slotStep_udp : SlotStep (udpStep : SendOp Addr → Sender Addr → Option (Sender Addr))
    fun s ops => Owned s ∧ ∀ op ∈ ops, op.Accepted where
  send := by
    intro s q addr data a r ops hs ⟨ho, hacc⟩
    have hr : r = 0 := hacc _ List.mem_cons_self
    subst hr
    obtain ⟨t, ht, hsent, hst, hot⟩ := udpSend_run hs ho addr data a
    exact ⟨t, ht, hsent, hst, hot, fun op hop => hacc op (List.mem_cons_of_mem _ hop)⟩
  transmit _ := rfl
  transmitted := by
    intro s ops ⟨ho, hacc⟩
    exact ⟨owned_transmit ho, fun op hop => hacc op (List.mem_cons_of_mem _ hop)⟩

/-- The datagrams are right exactly when no send disturbs an earlier one. -/
theorem faithful_udp_iff (junk : UInt8) {ops : List (SendOp Addr)}
    (hacc : ∀ op ∈ ops, op.Accepted) :
    FaithfulUdp junk ops ↔ ChannelOp.Undisturbed [] (ops.map toChannel) := by
  obtain ⟨t, ht, hclean, hsent, hqueued⟩ :=
    run_slot slotStep_udp (holds_new junk) ⟨owned_new junk, hacc⟩
  have hfifo := ChannelOp.fifo_eq_take [] (ops.map toChannel)
  have hnew : (Sender.new junk : Sender Addr).sent = [] := rfl
  rw [List.nil_append, ← hqueued] at hfifo
  rw [hnew, List.nil_append] at hsent
  rw [← ChannelOp.slot_eq_fifo_iff, hfifo, ← hsent]
  constructor
  · rintro ⟨s, hs, -, hfaithful⟩
    rw [ht] at hs
    cases hs
    exact hfaithful
  · intro h
    exact ⟨t, ht, hclean, h⟩

end Udp

/-! ## Sessions -/

section Tcp

variable {s t : Sender Unit} {q : List (Unit × List UInt8)} {ops : List (SendOp Unit)}

/-- No send follows one that moved the buffer; `moved` says that one has. -/
def Anchored : Bool → List (SendOp Unit) → Prop
  | _, [] => True
  | moved, .send _ data a _ :: ops =>
      moved = false ∧ Anchored (decide (packetBufferSize < data.length) && a.moved) ops
  | moved, .transmit :: ops => Anchored moved ops

theorem anchored_before {moved : Bool} {before : List (SendOp Unit)} (h : Anchored moved ops)
    (hpre : before <+: ops) : Anchored moved before := by
  obtain ⟨rest, rfl⟩ := hpre
  induction before generalizing moved with
  | nil => simp [Anchored]
  | cons op before ih =>
      cases op with
      | send addr data a r =>
          simp only [List.cons_append, Anchored] at h ⊢
          exact ⟨h.1, ih h.2⟩
      | transmit =>
          simp only [List.cons_append, Anchored] at h ⊢
          exact ih h

/-- The `m_writebuf` of a session: as it was made, and freed if a send has moved it. -/
structure Tethered (moved : Bool) (s : Sender Unit) : Prop where
  len : s.mWritebuf.len = packetBufferSize
  base : s.mWritebuf.base < s.heap.next
  usable : moved = false → s.heap.Usable s.mWritebuf.base s.mWritebuf.len
  gone : moved = true → ¬ s.heap.Usable s.mWritebuf.base 0

theorem tethered_new (junk : UInt8) : Tethered false (Sender.new junk) where
  len := rfl
  base := by simp [Sender.new, Heap.malloc, Heap.empty]
  usable := by simp [Sender.new, Heap.malloc, Heap.empty, Heap.Usable]
  gone := by simp

theorem tethered_transmit {moved : Bool} (h : Tethered moved s) : Tethered moved s.transmit := by
  unfold Sender.transmit
  split
  · exact ⟨h.len, h.base, h.usable, h.gone⟩
  · exact h

theorem tcpBuffer_spec (hs : s.heap.misused = false) (ht : Tethered false s) (n : Nat)
    (a : Realloc) :
    (s.tcpBuffer n a).2.misused = false ∧
      (s.tcpBuffer n a).2.Usable (s.tcpBuffer n a).1.base (s.tcpBuffer n a).1.len ∧
      n ≤ (s.tcpBuffer n a).1.len ∧
      Tethered (decide (packetBufferSize < n) && a.moved)
        { s with heap := (s.tcpBuffer n a).2 } := by
  unfold Sender.tcpBuffer
  have husable := ht.usable rfl
  by_cases hlen : s.mWritebuf.len < n
  · obtain ⟨hu, hmis, -, hnext, hsame, hgone⟩ :=
      Heap.realloc_spec ht.base (husable.mono (Nat.zero_le _)) n a
    have hn : packetBufferSize < n := by rw [← ht.len]; exact hlen
    simp only [if_pos hlen, hn, decide_true, Bool.true_and]
    refine ⟨hmis.trans hs, hu, Nat.le_refl n, ht.len, ht.base.trans_le hnext, fun hm => ?_,
      fun hm => ?_⟩
    · rw [hsame hm] at hu
      exact hu.mono (Nat.le_of_lt hlen)
    · simp [Heap.Usable, hgone hm]
  · have hn : ¬ packetBufferSize < n := by rw [← ht.len]; exact hlen
    simp only [if_neg hlen, hn, decide_false, Bool.false_and]
    exact ⟨hs, husable, Nat.le_of_not_lt hlen, ht.len, ht.base, ht.usable, ht.gone⟩

/-- What a send writes, as long as no send has moved the buffer, stays inside its block, and
a block that is not moved stays alive. -/
theorem tcpWrite_spec (hs : s.heap.misused = false) (ht : Tethered false s) (data : List UInt8)
    (a : Realloc) :
    (s.tcpWrite data a).misused = false ∧
      (s.tcpWrite data a).Usable (s.tcpBuffer data.length a).1.base data.length ∧
      (s.tcpWrite data a).read (s.tcpBuffer data.length a).1.base data.length = data ∧
      Tethered (decide (packetBufferSize < data.length) && a.moved)
        { s with heap := s.tcpWrite data a } := by
  obtain ⟨hclean, hu, hlen, htied⟩ := tcpBuffer_spec hs ht data.length a
  have hset : ((s.tcpBuffer data.length a).2.memset (s.tcpBuffer data.length a).1.base
      (s.tcpBuffer data.length a).1.len).Usable (s.tcpBuffer data.length a).1.base data.length :=
    (Heap.usable_memset _).mpr (hu.mono hlen)
  refine ⟨?_, (Heap.usable_memcpy _).mpr hset, Heap.read_memcpy hset, htied.len, htied.base,
    fun hm => ?_,
    fun hm hno => ?_⟩
  · exact (Heap.misused_memcpy hset).trans ((Heap.misused_memset hu).trans hclean)
  · exact (Heap.usable_memcpy _).mpr ((Heap.usable_memset _).mpr (htied.usable hm))
  · exact htied.gone hm ((Heap.usable_memset _).mp ((Heap.usable_memcpy _).mp hno))

/-- A send puts its message behind the others, as long as no send has moved the
buffer. -/
theorem tcpSend_run (hs : Holds s q) (ht : Tethered false s) (data : List UInt8) (a : Realloc) :
    ∃ t, s.tcpSend data a 0 = some t ∧ t.sent = s.sent ∧ Holds t (q ++ [((), data)]) ∧
      Tethered (decide (packetBufferSize < data.length) && a.moved) t := by
  obtain ⟨hclean, hu, hread, htied⟩ := tcpWrite_spec hs.clean ht data a
  refine ⟨_, rfl, rfl, ?_, htied.len, htied.base, htied.usable, htied.gone⟩
  exact holds_enqueue () hs.queued hclean hu rfl hread

theorem slotStep_tcp : SlotStep tcpStep fun s ops =>
    ∃ moved, Tethered moved s ∧ Anchored moved ops ∧ ∀ op ∈ ops, op.Accepted where
  send := by
    rintro s q addr data a r ops hs ⟨moved, ht, ⟨hm, ha⟩, hacc⟩
    have hr : r = 0 := hacc _ List.mem_cons_self
    subst hr hm
    obtain ⟨t, hrun, hsent, hst, htt⟩ := tcpSend_run hs ht data a
    exact ⟨t, hrun, hsent, hst, _, htt, ha, fun op hop => hacc op (List.mem_cons_of_mem _ hop)⟩
  transmit _ := rfl
  transmitted := by
    rintro s ops ⟨moved, ht, ha, hacc⟩
    exact ⟨moved, tethered_transmit ht, ha, fun op hop => hacc op (List.mem_cons_of_mem _ hop)⟩

/-- A send after which nothing is recorded found its buffer alive. -/
theorem tcpSend_usable {data : List UInt8} {a : Realloc} {r : Int}
    (h : s.tcpSend data a r = some t) (hclean : t.heap.misused = false) :
    s.heap.misused = false ∧ s.heap.Usable s.mWritebuf.base 0 := by
  have hheap : t.heap = ((s.tcpBuffer data.length a).2.memset (s.tcpBuffer data.length a).1.base
      (s.tcpBuffer data.length a).1.len).memcpy (s.tcpBuffer data.length a).1.base data := by
    simp only [Sender.tcpSend_eq, Option.ite_none_right_eq_some, Option.some.injEq] at h
    rw [← h.2]
    rfl
  rw [hheap] at hclean
  obtain ⟨hbuf, hu⟩ := Heap.usable_of_memset (Heap.usable_of_memcpy hclean).1
  unfold Sender.tcpBuffer at hbuf hu
  by_cases hlen : s.mWritebuf.len < data.length
  · rw [if_pos hlen] at hbuf
    exact Heap.usable_of_realloc hbuf
  · rw [if_neg hlen] at hbuf hu
    exact ⟨hbuf, hu.mono (Nat.zero_le _)⟩

theorem transmit_clean (hclean : s.transmit.heap.misused = false) : s.heap.misused = false := by
  unfold Sender.transmit at hclean
  split at hclean
  · exact ((Heap.misused_use _ _ _).mp hclean).1
  · exact hclean

/-- Misuse is not forgotten. -/
theorem clean_of_run (hrun : run tcpStep ops s = some t) (hclean : t.heap.misused = false) :
    s.heap.misused = false := by
  induction ops generalizing s with
  | nil =>
      cases hrun
      exact hclean
  | cons op ops ih =>
      obtain ⟨u, hu, hrest⟩ := Option.bind_eq_some_iff.mp hrun
      have hclean' := ih hrest
      cases op with
      | send addr data a r => exact (tcpSend_usable hu hclean').1
      | transmit =>
          cases hu
          exact transmit_clean hclean'

/-- A run that uses no freed memory is anchored. -/
theorem anchored_of_run {moved : Bool} (hs : Holds s q) (ht : Tethered moved s)
    (hacc : ∀ op ∈ ops, op.Accepted) (hrun : run tcpStep ops s = some t)
    (hclean : t.heap.misused = false) : Anchored moved ops := by
  induction ops generalizing s q moved with
  | nil => simp [Anchored]
  | cons op ops ih =>
      have hrest : ∀ op ∈ ops, op.Accepted := fun o ho => hacc o (List.mem_cons_of_mem op ho)
      obtain ⟨u, hu, hrun'⟩ := Option.bind_eq_some_iff.mp hrun
      cases op with
      | send addr data a r =>
          have hr : r = 0 := hacc _ List.mem_cons_self
          subst hr
          have hsend : s.tcpSend data a 0 = some u := hu
          have hlive := (tcpSend_usable hsend (clean_of_run hrun' hclean)).2
          have hm : moved = false := by
            cases hmoved : moved with
            | false => rfl
            | true => exact absurd hlive (ht.gone hmoved)
          subst hm
          obtain ⟨v, hv, -, hsv, htv⟩ := tcpSend_run hs ht data a
          have huv : u = v := Option.some.inj (hsend.symm.trans hv)
          subst huv
          exact ⟨rfl, ih hsv htv hrest hrun'⟩
      | transmit =>
          cases hu
          obtain ⟨q', hq'⟩ := exists_holds_transmit hs
          exact ih hq' (tethered_transmit ht) hrest hrun'

/-- A session is a slot as long as it is anchored. -/
theorem tcp_slot (junk : UInt8) (hacc : ∀ op ∈ ops, op.Accepted) (ha : Anchored false ops) :
    ∃ t, run tcpStep ops (Sender.new junk) = some t ∧ t.heap.misused = false ∧
      t.sent = ChannelOp.slot [] (ops.map toChannel) ∧
      (payloads ops).take ((payloads ops).length - t.queued) =
        ChannelOp.fifo [] (ops.map toChannel) := by
  obtain ⟨t, ht, hclean, hsent, hqueued⟩ :=
    run_slot slotStep_tcp (holds_new junk) ⟨false, tethered_new junk, ha, hacc⟩
  have hfifo := ChannelOp.fifo_eq_take [] (ops.map toChannel)
  rw [List.nil_append, ← hqueued] at hfifo
  exact ⟨t, ht, hclean, hsent, hfifo.symm⟩

/-- The bytes are right exactly when no send disturbs an earlier one, and none follows a
send that moved the buffer. -/
theorem faithful_tcp_iff (junk : UInt8) (hacc : ∀ op ∈ ops, op.Accepted) :
    FaithfulTcp junk ops ↔
      ChannelOp.Undisturbed [] (ops.map toChannel) ∧ Anchored false ops := by
  have hinj : Function.Injective (Prod.snd : Unit × List UInt8 → List UInt8) := by
    rintro ⟨⟨⟩, x⟩ ⟨⟨⟩, y⟩ hxy
    exact congrArg (Prod.mk ()) hxy
  have hacc' : ∀ before, before <+: ops → ∀ op ∈ before, op.Accepted :=
    fun before hpre op hop => hacc op (hpre.subset hop)
  rw [← ChannelOp.flatMap_slot_eq_iff hinj]
  constructor
  · intro h
    have ha : ∀ before, before <+: ops → Anchored false before := by
      intro before hpre
      obtain ⟨s, hs, hclean, -⟩ := h before hpre
      exact anchored_of_run (holds_new junk) (tethered_new junk) (hacc' before hpre) hs hclean
    refine ⟨fun cs hcs => ?_, ha ops List.prefix_rfl⟩
    obtain ⟨before, hpre, rfl⟩ := List.prefix_map_iff.mp hcs
    obtain ⟨s, hs, -, hfaithful⟩ := h before hpre
    obtain ⟨t, ht, -, hsent, hfifo⟩ := tcp_slot junk (hacc' before hpre) (ha before hpre)
    rw [ht] at hs
    cases hs
    rw [← hsent, ← hfifo]
    exact hfaithful
  · rintro ⟨h, ha⟩ before hpre
    obtain ⟨t, ht, hclean, hsent, hfifo⟩ :=
      tcp_slot junk (hacc' before hpre) (anchored_before ha hpre)
    refine ⟨t, ht, hclean, ?_⟩
    rw [hsent, hfifo]
    exact h _ (hpre.map toChannel)

end Tcp

/-! ## Both -/

/-- **Sends**: what a session and the UDP server transmit is what was sent, in order,
exactly when every transmission comes when the latest payload is the oldest one that is
queued, and, for a session, no send follows one that moved the buffer. -/
theorem faithful_iff {Addr : Type} (junk : UInt8) {ops : List (SendOp Unit)}
    {datagrams : List (SendOp Addr)} (hacc : ∀ op ∈ ops, op.Accepted)
    (haccd : ∀ op ∈ datagrams, op.Accepted) :
    (FaithfulTcp junk ops ↔
      ChannelOp.Undisturbed [] (ops.map toChannel) ∧ Anchored false ops) ∧
    (FaithfulUdp junk datagrams ↔ ChannelOp.Undisturbed [] (datagrams.map toChannel)) :=
  ⟨faithful_tcp_iff junk hacc, faithful_udp_iff junk haccd⟩

/-- A payload of one byte. -/
def SendOp.byte {Addr : Type} (addr : Addr) (b : UInt8) : SendOp Addr :=
  .send addr [b] ⟨false, 0⟩ 0

/-- A payload of `n` zeros, for which `realloc` moves the buffer. -/
def SendOp.moving (n : Nat) : SendOp Unit := .send () (List.replicate n 0) ⟨true, 0⟩ 0

/-- Sends that wait for the transmission of the one before. -/
theorem faithful_waiting :
    FaithfulTcp 0 [.byte () 1, .transmit, .byte () 2, .transmit] ∧
      FaithfulUdp 0 [.byte 7 1, .transmit, .byte 8 2, .transmit] := by
  have hacc : ∀ op ∈ [.byte () 1, .transmit, .byte () 2, .transmit], Accepted op := by
    simp [SendOp.byte, Accepted]
  have haccd : ∀ op ∈ [.byte 7 1, .transmit, .byte 8 2, .transmit], Accepted op := by
    simp [SendOp.byte, Accepted]
  obtain ⟨htcp, hudp⟩ := faithful_iff 0 hacc haccd
  refine ⟨htcp.mpr ?_, hudp.mpr ?_⟩
  · simp [SendOp.byte, toChannel, ChannelOp.Undisturbed, Anchored]
  · simp [SendOp.byte, toChannel, ChannelOp.Undisturbed]

/-- A send after one that moved the buffer uses freed memory. -/
theorem not_faithful_moving {n : Nat} (hn : packetBufferSize < n) (junk b : UInt8) :
    ¬ FaithfulTcp junk [.moving n, .transmit, .byte () b] := by
  intro h
  have hacc : ∀ op ∈ [.moving n, .transmit, .byte () b], Accepted op := by
    simp [SendOp.byte, SendOp.moving, Accepted]
  have hno := ((faithful_tcp_iff junk hacc).mp h).2
  simp [SendOp.byte, SendOp.moving, Anchored, hn] at hno

/-- Two sends before a transmission: the second payload is transmitted in place of the
first.  And a long payload can make the next send use freed memory. -/
theorem not_faithful_overlapping :
    ¬ FaithfulTcp 0 [.byte () 1, .byte () 2, .transmit] ∧
      ¬ FaithfulUdp 0 [.byte 7 1, .byte 8 2, .transmit] ∧
      ¬ FaithfulTcp 0 [.moving 1025, .transmit, .byte () 2] := by
  refine ⟨fun h => ?_, fun h => ?_, not_faithful_moving (by decide) 0 2⟩
  · have hno := (faithful_tcp_iff 0 (by simp [SendOp.byte, Accepted])).mp h
    simp [SendOp.byte, toChannel, ChannelOp.Undisturbed] at hno
  · have hno := (faithful_udp_iff 0 (by simp [SendOp.byte, Accepted])).mp h
    simp [SendOp.byte, toChannel, ChannelOp.Undisturbed] at hno

end GEngine
