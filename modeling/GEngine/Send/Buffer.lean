import GEngine.Send

/-!
# GEngine.Send.Buffer

The write buffer over a sequence of sends: `m_writebuf` is to name a live block of at least
`len` bytes, so that the next `send` stays inside it.

`uv_udp_server::send` stores the descriptor that `realloc` has given it.
`uv_tcp_server::send` works on a copy and keeps the old one, which is right only as long as
no block moves (`buffersKept_iff`).
-/

namespace GEngine

open SendOp

/-! ## What is to be kept -/

namespace Sender

variable {Addr : Type}

/-- `m_writebuf` names a live block that is at least as long as it says, and the writes of
the next call stay inside their block; `write` is the heap they leave. -/
structure BufferOk (write : Sender Addr → List UInt8 → Realloc → Heap) (s : Sender Addr) :
    Prop where
  live : s.heap.Usable s.mWritebuf.base s.mWritebuf.len
  inside : ∀ data a, (write s data a).misused = false

end Sender

section Along

variable {Addr : Type}

/-- A property of a sender holds before and after every step of a run. -/
def Along (step : SendOp Addr → Sender Addr → Option (Sender Addr)) (P : Sender Addr → Prop)
    (s : Sender Addr) (ops : List (SendOp Addr)) : Prop :=
  ∀ before, before <+: ops → ∀ t, run step before s = some t → P t

variable {step : SendOp Addr → Sender Addr → Option (Sender Addr)} {P : Sender Addr → Prop}
  {s : Sender Addr} {op : SendOp Addr} {ops : List (SendOp Addr)}

theorem along_nil : Along step P s [] ↔ P s := by
  simp [Along, run]

/-- A property along a run is one of its first state, and one along the rest of the run. -/
theorem along_cons :
    Along step P s (op :: ops) ↔ P s ∧ ∀ t, step op s = some t → Along step P t ops := by
  constructor
  · intro h
    refine ⟨h [] (by simp) s rfl, fun t ht before hpre u hu => ?_⟩
    refine h (op :: before) (by simpa using hpre) u ?_
    simp only [run, ht, Option.bind_some, hu]
  · rintro ⟨hs, hrest⟩ before hpre u hu
    cases before with
    | nil =>
        cases hu
        exact hs
    | cons op' before =>
        obtain ⟨rfl, hpre'⟩ := List.cons_prefix_cons.mp hpre
        obtain ⟨t, ht, hu'⟩ := Option.bind_eq_some_iff.mp hu
        exact hrest t ht before hpre' u hu'

end Along

/-- The write buffers of a session and of the UDP server are right before and after every
step. -/
structure BuffersKept {Addr : Type} (junk : UInt8) (ops : List (SendOp Unit))
    (datagrams : List (SendOp Addr)) : Prop where
  tcp : Along tcpStep (Sender.BufferOk Sender.tcpWrite) (Sender.new junk) ops
  udp : Along udpStep (Sender.BufferOk Sender.udpWrite) (Sender.new junk) datagrams

/-- No send that libuv accepts moves the block: it has no more than `PACKET_BUFFER_SIZE`
bytes, or `realloc` leaves the block where it is. -/
def Unmoved : List (SendOp Unit) → Prop
  | [] => True
  | .send _ data a r :: ops =>
      r = 0 → (packetBufferSize < data.length → a.moved = false) ∧ Unmoved ops
  | .transmit :: ops => Unmoved ops

/-! ## The UDP server -/

section Udp

variable {Addr : Type} {s : Sender Addr} {q : List (Addr × List UInt8)}

theorem bufferOk_udp (hs : s.heap.misused = false) (ho : Owned s) :
    s.BufferOk Sender.udpWrite where
  live := ho.usable
  inside data a := by
    obtain ⟨-, -, hclean, -, hu⟩ := udpBuffer_spec hs ho data.length a
    exact (Heap.misused_memcpy hu).trans hclean

/-- The server keeps its buffer. -/
theorem along_udp (hs : Holds s q) (ho : Owned s) (ops : List (SendOp Addr)) :
    Along udpStep (Sender.BufferOk Sender.udpWrite) s ops := by
  induction ops generalizing s q with
  | nil => exact along_nil.mpr (bufferOk_udp hs.clean ho)
  | cons op ops ih =>
      refine along_cons.mpr ⟨bufferOk_udp hs.clean ho, fun t ht => ?_⟩
      cases op with
      | send addr data a r =>
          have hr : r = 0 := by
            by_contra hr
            rw [udpStep, Sender.udpSend_eq, if_neg hr] at ht
            cases ht
          subst hr
          obtain ⟨u, hu, -, hholds, howned⟩ := udpSend_run hs ho addr data a
          have htu : t = u := Option.some.inj (ht.symm.trans hu)
          subst htu
          exact ih hholds howned
      | transmit =>
          cases ht
          obtain ⟨q', hq'⟩ := exists_holds_transmit hs
          exact ih hq' (owned_transmit ho)

end Udp

/-! ## Sessions -/

section Tcp

variable {s : Sender Unit} {q : List (Unit × List UInt8)}

theorem bufferOk_tcp (hs : s.heap.misused = false) (ht : Tethered false s) :
    s.BufferOk Sender.tcpWrite where
  live := ht.usable rfl
  inside data a := (tcpWrite_spec hs ht data a).1

/-- The buffer of a session whose block has moved is gone. -/
theorem not_bufferOk_moved (ht : Tethered true s) : ¬ s.BufferOk Sender.tcpWrite :=
  fun h => ht.gone rfl (h.live.mono (Nat.zero_le _))

/-- A session keeps its buffer exactly if no send moves the block. -/
theorem along_tcp (hs : Holds s q) (ht : Tethered false s) (ops : List (SendOp Unit)) :
    Along tcpStep (Sender.BufferOk Sender.tcpWrite) s ops ↔ Unmoved ops := by
  induction ops generalizing s q with
  | nil => simp only [along_nil, Unmoved, bufferOk_tcp hs.clean ht]
  | cons op ops ih =>
      rw [along_cons]
      simp only [bufferOk_tcp hs.clean ht, true_and]
      cases op with
      | send addr data a r =>
          by_cases hr : r = 0
          · subst hr
            obtain ⟨t, hrun, -, hholds, htied⟩ := tcpSend_run hs ht data a
            simp only [tcpStep, hrun, Option.some.injEq, forall_eq', Unmoved, true_implies]
            cases hmoved : decide (packetBufferSize < data.length) && a.moved with
            | false =>
                have hstays : packetBufferSize < data.length → a.moved = false := by
                  simpa using hmoved
                rw [hmoved] at htied
                rw [ih hholds htied, and_iff_right hstays]
            | true =>
                have hgoes : ¬ (packetBufferSize < data.length → a.moved = false) := by
                  simpa using hmoved
                rw [hmoved] at htied
                simp only [hgoes, false_and, iff_false]
                exact fun h => not_bufferOk_moved htied (h [] (by simp) t rfl)
          · have hnone : s.tcpSend data a r = none := by rw [Sender.tcpSend_eq, if_neg hr]
            simp [tcpStep, hnone, Unmoved, hr]
      | transmit =>
          obtain ⟨q', hq'⟩ := exists_holds_transmit hs
          simp only [tcpStep, Option.some.injEq, forall_eq', Unmoved]
          exact ih hq' (tethered_transmit ht)

end Tcp

/-- **Write buffers**: the descriptor of the UDP server always names its block, and the one
of a session does so exactly as long as no `realloc` moves the block. -/
theorem buffersKept_iff {Addr : Type} (junk : UInt8) (ops : List (SendOp Unit))
    (datagrams : List (SendOp Addr)) : BuffersKept junk ops datagrams ↔ Unmoved ops := by
  rw [← along_tcp (holds_new junk) (tethered_new junk) ops]
  constructor
  · intro h
    exact h.tcp
  · intro h
    exact ⟨h, along_udp (holds_new junk) (owned_new junk) datagrams⟩

/-- After a payload of 1025 bytes, for which `realloc` moves the block, the session names the
old one, which is not live any more. -/
theorem not_buffersKept_moving :
    ¬ BuffersKept 0 [.moving 1025] ([] : List (SendOp Nat)) ∧
      ∃ s, run tcpStep [.moving 1025] (Sender.new 0) = some s ∧
        ¬ s.heap.Usable s.mWritebuf.base 0 := by
  have hlong : packetBufferSize < (List.replicate 1025 (0 : UInt8)).length := by
    rw [List.length_replicate]
    decide
  obtain ⟨s, hrun, -, -, htied⟩ := tcpSend_run (holds_new 0) (tethered_new 0)
    (List.replicate 1025 0) ⟨true, 0⟩
  refine ⟨fun h => ?_, s, by simp only [run, tcpStep, SendOp.moving, hrun, Option.bind_some], ?_⟩
  · have hno := (along_tcp (holds_new 0) (tethered_new 0) _).mp h.tcp
    simp only [SendOp.moving, Unmoved, true_implies, and_true] at hno
    exact absurd (hno hlong) (by decide)
  · exact htied.gone (by simp only [hlong, decide_true, Bool.and_self])

end GEngine
