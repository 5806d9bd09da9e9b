import GEngine.UvService

/-!
# GEngine.UvUdpServer

Receiving datagrams: `uv_udp_server::on_alloc_buffer`, `on_receive` and `close`
(`libs/network/src/uv_udp_server.cpp`).

The server has one read buffer of `PACKET_BUFFER_SIZE` bytes.  libuv cuts a longer datagram
to it and says so in `flags`, which `on_receive` does not look at.  A negative `nread`
closes the handle for all peers.  `faithfulReceive_iff` says which sequences of events the
service sees as they were.
-/

namespace GEngine

/-! ## The server -/

/-- What libuv keeps in a `uv_udp_t`. -/
structure UvUdp where
  receiving : Bool
  closing : Bool
  closed : Bool
  deriving DecidableEq, Repr

/-- `uv_is_active`: a receiving handle is active and a closing one is not.  Otherwise it
depends on the sends that are queued, and `polled` is the answer. -/
def UvUdp.isActive (h : UvUdp) (polled : Bool) : Bool := !h.closing && (h.receiving || polled)

/-- `uv_close`. -/
def UvUdp.startClose (h : UvUdp) : UvUdp := { h with receiving := false, closing := true }

/-- The receiving side of a `uv_udp_server`.  `calls` are the calls of
`uv_service::on_udpreceive`, and `freedInside` says that `on_close` has freed the handle,
which lies inside the server. -/
structure UvUdpServer (Addr : Type) where
  mReadbuf : UvBuf
  mInit : Bool
  mHandle : UvUdp
  calls : List (Option Addr × List UInt8)
  freedInside : Bool

/-- A datagram, of a size that UDP can carry. -/
structure Datagram (Addr : Type) where
  source : Addr
  payload : List UInt8
  size : 1 ≤ payload.length ∧ payload.length ≤ 65507

/-- What libuv has to report for the handle. -/
inductive UdpEvent (Addr : Type)
  /-- A datagram arrived. -/
  | datagram (d : Datagram Addr)
  /-- A receive failed; `polled` is the answer of `uv_is_active` then. -/
  | failed (nread : Int) (polled : Bool) (negative : nread < 0)
  /-- There is nothing to receive. -/
  | nothing
  /-- The close callback is due. -/
  | closed

namespace UvUdpServer

variable {Addr : Type}

/-- A server that `initialize` has bound and started. -/
def started : UvUdpServer Addr :=
  ⟨UvBuf.alloc packetBufferSize, true, ⟨true, false, false⟩, [], false⟩

/-- `uv_udp_server::close()`. -/
def close (s : UvUdpServer Addr) (polled : Bool) : UvUdpServer Addr :=
  { s with
    mHandle := if s.mHandle.isActive polled then s.mHandle.startClose else s.mHandle
    mInit := false }

/-- `uv_udp_server::on_receive(handle, nread, buf, addr, flags)`.  Only the text that is
printed depends on which error it is. -/
def onReceive (s : UvUdpServer Addr) (nread : Int) (buf : UvBuf) (addr : Option Addr)
    (_truncated polled : Bool) : UvUdpServer Addr :=
  if 0 < nread then { s with calls := s.calls ++ [(addr, buf.front nread.toNat)] }
  else if nread = 0 then s
  else s.close polled

/-- `uv_udp_server::on_alloc_buffer`. -/
def onAllocBuffer (s : UvUdpServer Addr) : UvBuf := s.mReadbuf

/-- libuv has a datagram: it asks for a buffer, stores what fits there and says whether
that was all. -/
def recv (L : Platform) (s : UvUdpServer Addr) (d : Datagram Addr) : UvUdpServer Addr :=
  let buf := s.onAllocBuffer
  if buf.isEmpty then s.onReceive L.uvEnobufs buf none false false
  else
    let chunk := d.payload.take buf.len
    let buf := buf.fill chunk
    let s := { s with mReadbuf := buf }
    s.onReceive chunk.length buf (some d.source) (chunk.length < d.payload.length) false

/-- libuv has an error.  The windows port stops receiving before it reports one. -/
def recvFailed (L : Platform) (s : UvUdpServer Addr) (nread : Int) (polled : Bool) :
    UvUdpServer Addr :=
  let s := match L with
    | .unix => s
    | .windows => { s with mHandle := { s.mHandle with receiving := false } }
  s.onReceive nread s.onAllocBuffer none false polled

/-- libuv reports one event.  A handle that does not receive has nothing to report.  The
close callback frees the handle, which lies inside the server: what comes after it is not
said here (`Udp.Host.report` takes the server for gone). -/
def step (L : Platform) (s : UvUdpServer Addr) : UdpEvent Addr → UvUdpServer Addr
  | .datagram d => if s.mHandle.receiving then s.recv L d else s
  | .failed nread polled _ => if s.mHandle.receiving then s.recvFailed L nread polled else s
  | .nothing =>
      if s.mHandle.receiving then s.onReceive 0 s.onAllocBuffer none false false else s
  | .closed =>
      if s.mHandle.closing ∧ ¬ s.mHandle.closed then
        { s with mHandle := { s.mHandle with closed := true }, freedInside := true }
      else s

/-- libuv reports events in order. -/
def run (L : Platform) (s : UvUdpServer Addr) : List (UdpEvent Addr) → UvUdpServer Addr
  | [] => s
  | e :: es => (s.step L e).run L es

end UvUdpServer

/-! ## What is to be received -/

section Faithful

variable {Addr : Type}

/-- The call that a datagram is to lead to. -/
def Datagram.call (d : Datagram Addr) : Option Addr × List UInt8 := (some d.source, d.payload)

/-- The datagrams among the events, as calls. -/
def datagrams : List (UdpEvent Addr) → List (Option Addr × List UInt8)
  | [] => []
  | .datagram d :: es => d.call :: datagrams es
  | _ :: es => datagrams es

/-- The service is told of all datagrams, in order, with their senders and all of their
bytes. -/
def FaithfulReceive (L : Platform) (es : List (UdpEvent Addr)) : Prop :=
  (UvUdpServer.started.run L es).calls = datagrams es

/-- An error report. -/
def UdpEvent.IsFailure : UdpEvent Addr → Prop
  | .failed _ _ _ => True
  | _ => False

/-- No datagram. -/
def UdpEvent.NoDatagram : UdpEvent Addr → Prop
  | .datagram _ => False
  | _ => True

/-- A datagram that fits into the read buffer, or none. -/
def UdpEvent.Fits : UdpEvent Addr → Prop
  | .datagram d => d.payload.length ≤ packetBufferSize
  | _ => True

/-- The datagrams that get through: those before the first error, cut to the buffer. -/
def received : List (UdpEvent Addr) → List (Option Addr × List UInt8)
  | [] => []
  | .datagram d :: es => (some d.source, d.payload.take packetBufferSize) :: received es
  | .failed _ _ _ :: _ => []
  | _ :: es => received es

/-- The server receives: its handle does, and its buffer is there. -/
structure Live (s : UvUdpServer Addr) : Prop where
  receiving : s.mHandle.receiving = true
  closing : s.mHandle.closing = false
  len : s.mReadbuf.len = packetBufferSize
  block : ∃ bs, s.mReadbuf.base = .block bs ∧ bs.length = packetBufferSize

theorem live_started : Live (UvUdpServer.started : UvUdpServer Addr) :=
  ⟨rfl, rfl, rfl, _, rfl, List.length_replicate⟩

section Step

variable {L : Platform} {s : UvUdpServer Addr}

/-- A datagram is passed on as far as it fits. -/
theorem recv_live (h : Live s) (d : Datagram Addr) :
    Live (s.recv L d) ∧
      (s.recv L d).calls = s.calls ++ [(some d.source, d.payload.take packetBufferSize)] := by
  obtain ⟨bs, hblock, hsize⟩ := h.block
  have hlen := h.len
  have hbuf : s.mReadbuf.isEmpty = false := by
    simp [UvBuf.isEmpty, hblock, hlen, packetBufferSize]
  have hpos : 0 < (d.payload.take packetBufferSize).length := by
    rw [List.length_take]
    have hsize := d.size.1
    unfold packetBufferSize
    omega
  have hfront : (s.mReadbuf.fill (d.payload.take packetBufferSize)).front
      (d.payload.take packetBufferSize).length = d.payload.take packetBufferSize := by
    have hfit : 0 + (d.payload.take packetBufferSize).length ≤ bs.length := by
      rw [hsize, List.length_take]
      omega
    rw [UvBuf.fill, hblock]
    simp only [UvBuf.front, Base.bytes, copyAt_of_le hfit, List.take_zero, List.nil_append]
    exact List.take_left
  unfold UvUdpServer.recv
  simp only [hbuf, UvUdpServer.onAllocBuffer, hlen, Bool.false_eq_true, if_false]
  rw [UvUdpServer.onReceive, if_pos (by exact_mod_cast hpos)]
  refine ⟨⟨h.receiving, h.closing, ?_, ?_⟩, ?_⟩
  · simp only [UvBuf.fill, hblock, hlen]
  · exact ⟨copyAt bs 0 (d.payload.take packetBufferSize), by simp only [UvBuf.fill, hblock],
      (length_copyAt _ _ _).trans hsize⟩
  · simp only [Int.toNat_natCast, hfront]

/-- An error report ends the receiving, whatever it was. -/
theorem recvFailed_live (h : Live s) {nread : Int} (hneg : nread < 0) (polled : Bool) :
    (s.recvFailed L nread polled).mHandle.receiving = false ∧
      (s.recvFailed L nread polled).calls = s.calls := by
  have hnot : ¬ 0 < nread := by omega
  have hne : ¬ nread = 0 := by omega
  have hreceiving := h.receiving
  have hclosing := h.closing
  unfold UvUdpServer.recvFailed UvUdpServer.onReceive UvUdpServer.close
  cases L with
  | unix =>
      simp [hnot, hne, UvUdp.isActive, UvUdp.startClose, hreceiving, hclosing]
  | windows =>
      cases polled with
      | false => simp [hnot, hne, UvUdp.isActive]
      | true => simp [hnot, hne, UvUdp.isActive, UvUdp.startClose, hclosing]

/-- A handle that does not receive never does again. -/
theorem run_stopped (h : s.mHandle.receiving = false) (es : List (UdpEvent Addr)) :
    (s.run L es).calls = s.calls := by
  induction es generalizing s with
  | nil => rfl
  | cons e es ih =>
      have hstep : (s.step L e).mHandle.receiving = false ∧ (s.step L e).calls = s.calls := by
        cases e with
        | datagram d => simp [UvUdpServer.step, h]
        | failed nread polled negative => simp [UvUdpServer.step, h]
        | nothing => simp [UvUdpServer.step, h]
        | closed =>
            by_cases hdue : s.mHandle.closing ∧ ¬ s.mHandle.closed
            · simp only [UvUdpServer.step, if_pos hdue, h, and_self]
            · simp only [UvUdpServer.step, if_neg hdue, h, and_self]
      rw [UvUdpServer.run, ih hstep.1, hstep.2]

/-- The calls of a run, from a server that receives. -/
theorem run_live (h : Live s) (es : List (UdpEvent Addr)) :
    (s.run L es).calls = s.calls ++ received es := by
  induction es generalizing s with
  | nil => simp [UvUdpServer.run, received]
  | cons e es ih =>
      cases e with
      | datagram d =>
          obtain ⟨hlive, hcalls⟩ := recv_live (L := L) h d
          have hstep : s.step L (.datagram d) = s.recv L d := by
            simp [UvUdpServer.step, h.receiving]
          rw [UvUdpServer.run, hstep, ih hlive, hcalls, List.append_assoc]
          rfl
      | failed nread polled negative =>
          obtain ⟨hstopped, hcalls⟩ := recvFailed_live (L := L) h negative polled
          have hstep : s.step L (.failed nread polled negative) = s.recvFailed L nread polled := by
            simp [UvUdpServer.step, h.receiving]
          rw [UvUdpServer.run, hstep, run_stopped hstopped, hcalls, received, List.append_nil]
      | nothing =>
          have hstep : s.step L .nothing = s := by
            simp [UvUdpServer.step, UvUdpServer.onReceive]
          rw [UvUdpServer.run, hstep, ih h]
          rfl
      | closed =>
          have hstep : s.step L .closed = s := by
            simp [UvUdpServer.step, h.closing]
          rw [UvUdpServer.run, hstep, ih h]
          rfl

end Step

/-- There are no datagrams to receive. -/
theorem datagrams_eq_nil {es : List (UdpEvent Addr)} :
    datagrams es = [] ↔ ∀ e ∈ es, e.NoDatagram := by
  induction es with
  | nil => simp [datagrams]
  | cons e es ih =>
      cases e with
      | datagram d => simp [datagrams, UdpEvent.NoDatagram]
      | failed nread polled negative => simp [datagrams, UdpEvent.NoDatagram, ih]
      | nothing => simp [datagrams, UdpEvent.NoDatagram, ih]
      | closed => simp [datagrams, UdpEvent.NoDatagram, ih]

/-- All datagrams get through whole if they fit and none comes after an error. -/
theorem received_eq_iff (es : List (UdpEvent Addr)) :
    received es = datagrams es ↔
      (∀ e ∈ es, e.Fits) ∧ es.Pairwise fun a b => a.IsFailure → b.NoDatagram := by
  induction es with
  | nil => simp [received, datagrams]
  | cons e es ih =>
      cases e with
      | datagram d =>
          have htake : d.payload.take packetBufferSize = d.payload ↔
              d.payload.length ≤ packetBufferSize := by
            constructor
            · intro heq
              have hlen := congrArg List.length heq
              rw [List.length_take] at hlen
              omega
            · exact List.take_of_length_le
          have hfits : (UdpEvent.datagram d).Fits ↔ d.payload.length ≤ packetBufferSize := Iff.rfl
          have hfail : ¬ (UdpEvent.datagram d).IsFailure := fun h => h
          simp only [received, datagrams, Datagram.call, List.cons.injEq, Prod.mk.injEq, true_and,
            ih, htake, List.forall_mem_cons, List.pairwise_cons, hfits, hfail, false_implies,
            implies_true, and_assoc]
      | failed nread polled negative =>
          simp only [received, datagrams, List.forall_mem_cons, List.pairwise_cons, UdpEvent.Fits,
            UdpEvent.IsFailure, true_implies, true_and]
          rw [eq_comm, datagrams_eq_nil]
          constructor
          · intro hnone
            refine ⟨fun e he => ?_, hnone, ?_⟩
            · have hno := hnone e he
              cases e with
              | datagram d => exact absurd hno id
              | failed nread polled negative => trivial
              | nothing => trivial
              | closed => trivial
            · rw [List.pairwise_iff_forall_sublist]
              intro a b hab _
              exact hnone b (hab.subset (by simp))
          · rintro ⟨-, hnone, -⟩
            exact hnone
      | nothing =>
          simp only [received, datagrams, ih, List.forall_mem_cons, List.pairwise_cons,
            UdpEvent.Fits, UdpEvent.IsFailure, false_implies, implies_true, true_and]
      | closed =>
          simp only [received, datagrams, ih, List.forall_mem_cons, List.pairwise_cons,
            UdpEvent.Fits, UdpEvent.IsFailure, false_implies, implies_true, true_and]

/-- **Datagrams**: the service sees a sequence of events as it was exactly if every
datagram fits into `PACKET_BUFFER_SIZE` bytes and none arrives after an error report. -/
theorem faithfulReceive_iff (L : Platform) (es : List (UdpEvent Addr)) :
    FaithfulReceive L es ↔
      (∀ e ∈ es, e.Fits) ∧ es.Pairwise fun a b => a.IsFailure → b.NoDatagram := by
  unfold FaithfulReceive
  rw [run_live live_started, ← received_eq_iff]
  rfl

/-- A datagram of `n + 1` zero bytes. -/
def Datagram.zeros (source : Addr) (n : Nat) (h : n < 65507) : Datagram Addr :=
  ⟨source, List.replicate (n + 1) 0, by
    rw [List.length_replicate]
    omega⟩

/-- A datagram of 1025 bytes arrives one byte short, and nothing arrives after the reset
that one peer has caused. -/
theorem not_faithfulReceive_long :
    ¬ FaithfulReceive .unix [.datagram (Datagram.zeros 1 1024 (by decide))] ∧
      ¬ FaithfulReceive .unix [.failed (-104) false (by decide),
        .datagram (Datagram.zeros 2 0 (by decide))] := by
  unfold FaithfulReceive
  rw [run_live live_started, run_live live_started]
  constructor
  · intro h
    have hfits := ((received_eq_iff _).mp h).1 _ List.mem_cons_self
    have hlen : (List.replicate (1024 + 1) (0 : UInt8)).length ≤ packetBufferSize := hfits
    rw [List.length_replicate] at hlen
    exact absurd hlen (by decide)
  · simp [UvUdpServer.started, received, datagrams]

end Faithful

end GEngine
