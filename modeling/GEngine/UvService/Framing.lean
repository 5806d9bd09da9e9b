import GEngine.UvService.Disconnect

/-!
# GEngine.UvService.Framing

How the byte stream of a client becomes packets.  The client sends wire packets
one after the other; libuv cuts the stream into reads.  Each read is judged on its
own: one that fills the receive buffer is delivered or taken for the announcement
of a body, any other is dropped, and no bytes are carried from one read to the next
(`log_of_reads`).

`framed_iff` says which streams and which cuts survive this: packets of exactly
the size of the receive buffer, each in a read of its own, whose bodies do not
start with a positive `int`.
-/

namespace GEngine

open UvService

/-! ## Wire packets -/

/-- A packet as a client sends it: the arguments of `packet(id, body, bodylength,
extra)` and the time at which it was built. -/
structure WirePacket where
  time : Int
  id : Int
  extra : Int
  body : List UInt8
  bodylength_lt : body.length < 2 ^ 31

namespace WirePacket

/-- The bytes of the packet. -/
def bytes (w : WirePacket) : List UInt8 :=
  (Packet.new w.time w.id (some w.body) w.body.length w.extra).bytes

theorem bytes_eq (w : WirePacket) :
    w.bytes = Packet.header w.time w.id w.body.length w.extra ++ w.body :=
  Packet.bytes_new _ _ _ _ (w.bodylength_lt.trans (by decide))

theorem length_bytes (w : WirePacket) : w.bytes.length = Packet.headLength + w.body.length := by
  rw [bytes_eq, List.length_append, Packet.length_header]

/-- What `on_receive_head` looks at is the front of the body. -/
theorem announcesBody_iff (w : WirePacket) :
    AnnouncesBody w.bytes ↔ 0 < toInt32 (leNat (w.body.take 4)) := by
  have hhead : (Packet.header w.time w.id w.body.length w.extra).length = UvPacket.headLength :=
    Packet.length_header _ _ _ _
  rw [AnnouncesBody, bytes_eq, slice_append_of_length hhead]

end WirePacket

/-! ## Single reads -/

/-- The reads that are delivered. -/
def Delivers (chunk : List UInt8) : Prop :=
  chunk.length = packetBufferSize ∧ ¬ AnnouncesBody chunk

instance (chunk : List UInt8) : Decidable (Delivers chunk) :=
  inferInstanceAs (Decidable (_ ∧ _))

/-- The callbacks that a list of reads leads to. -/
def delivered (p : Nat) (reads : List (List UInt8)) : List Callback :=
  (reads.filter fun r => Delivers r).map (.tcpreceive p)

/-- Session `p` waits for a header. -/
structure Waiting (p : Nat) (s : UvService) : Prop where
  reading : (s.heap p).mTcp.reading = some .head
  live : (s.heap p).deleted = false
  headOk : (s.heap p).HeadOk

/-- The body pointer of session `p` is not wild. -/
def Proper (p : Nat) (s : UvService) : Prop := (s.heap p).mPacket.mBody.base ≠ .wild

/-- Session `p` waits for a body for which there will be no buffer. -/
structure Stuck (p : Nat) (s : UvService) : Prop where
  reading : (s.heap p).mTcp.reading = some .body
  mLength : (s.heap p).mPacket.mLength ≠ UvPacket.headLength

section Read

variable {L : Libuv} {s : UvService} {p : Nat} {chunk : List UInt8} (polls : Polls)

theorem Waiting.of_packetOnly (hs : Waiting p s) (h : PacketOnly p s t) : Waiting p t :=
  ⟨by rw [h.mTcp]; exact hs.reading, by rw [h.deleted]; exact hs.live, h.headOk hs.headOk⟩

/-- Starting to read again keeps a session waiting. -/
theorem Waiting.readStart (hs : Waiting p s) :
    Waiting p (s.withSession p fun u => { u with mTcp := u.mTcp.readStart L .head }) := by
  refine ⟨?_, ?_, ?_⟩
  all_goals rw [withSession_self]
  · unfold UvTcp.readStart
    split
    · rfl
    · exact hs.reading
  · exact hs.live
  · exact hs.headOk

/-- A read that is delivered. -/
theorem read_delivers (hw : Waiting p s) (h : Delivers chunk) :
    ∃ t, step L (.read p chunk polls .ret) s = .ok () t ∧ Waiting p t ∧
      t.log = s.log ++ [.tcpreceive p chunk] ∧
      (Proper p s → Proper p t ∧ t.faults = s.faults) := by
  obtain ⟨s₁, hq₁, hrun⟩ :=
    uvRead_delivers L polls (pure ()) hw.reading hw.live hw.headOk h.1 h.2
  obtain ⟨_, s₂, hs₂, hq₂⟩ :=
    packetOnly_clearPacket (p := p) (s₁.withCallback (.tcpreceive p chunk))
  obtain ⟨s₃, hq₃, hs₃⟩ := receiveHead_run L p s₂
  have hq := hq₂.trans hq₃
  have hw₁ := hw.of_packetOnly hq₁
  have hw₃ : Waiting p s₃ :=
    Waiting.of_packetOnly (s := s₁.withCallback (.tcpreceive p chunk))
      ⟨hw₁.reading, hw₁.live, hw₁.headOk⟩ hq
  have hw₄ := hw₃.readStart (L := L)
  refine ⟨_, ?_, hw₄, ?_, fun hp => ?_⟩
  · change uvRead L p chunk polls (pure ()) s = _
    rw [hrun]
    change ((clearPacket p >>= fun _ => discard (receiveHead L p)) >>= fun _ => touch p) _ = _
    rw [bind_of_ok ((bind_of_ok hs₂).trans (discard_of_ok hs₃)), touch_live hw₄.live]
  · exact hq.log.trans (congrArg (· ++ [Callback.tcpreceive p chunk]) hq₁.log)
  · have hp₁ : Proper p s₁ := hq₁.body hp
    refine ⟨?_, ?_⟩
    · unfold Proper
      rw [withSession_self]
      exact hq.body hp₁
    · exact (hq.faults_eq hw₁.live hw₁.headOk hp₁).trans (hq₁.faults_eq hw.live hw.headOk hp)

/-- A read that is dropped. -/
theorem read_dropped (hw : Waiting p s) (h : chunk.length ≠ packetBufferSize) :
    ∃ t, step L (.read p chunk polls .ret) s = .ok () t ∧ Waiting p t ∧ t.log = s.log ∧
      (Proper p s → Proper p t ∧ t.faults = s.faults) := by
  obtain ⟨t, hq, hrun⟩ := uvRead_dropped L polls (pure ()) hw.reading hw.live hw.headOk h
  refine ⟨t, hrun, hw.of_packetOnly hq, hq.log, fun hp => ?_⟩
  exact ⟨hq.body hp, hq.faults_eq hw.live hw.headOk hp⟩

/-- A read that is taken for the announcement of a body. -/
theorem read_announcing (hw : Waiting p s) (hfull : chunk.length = packetBufferSize)
    (hbody : AnnouncesBody chunk) :
    ∃ t, step L (.read p chunk polls .ret) s = .ok () t ∧ t.log = s.log ∧
      (Waiting p t ∨ Stuck p t) := by
  obtain ⟨t, hq, hlen, hrun⟩ :=
    uvRead_announcing L polls (pure ()) hw.reading hw.live hw.headOk hfull hbody
  refine ⟨_, hrun, hq.log, ?_⟩
  have hw' := hw.of_packetOnly hq
  by_cases h0 : readStartResult L (t.heap p).mTcp = 0
  · refine .inr ⟨?_, ?_⟩
    · rw [withSession_self, UvTcp.readStart, if_pos h0]
    · rw [withSession_self]
      exact hlen
  · refine .inl ⟨?_, ?_, ?_⟩
    all_goals rw [withSession_self]
    · rw [UvTcp.readStart, if_neg h0]
      exact hw'.reading
    · exact hw'.live
    · exact hw'.headOk

/-- A stuck session takes the process down with its next read, whatever it is. -/
theorem read_stuck (h : Stuck p s) :
    ∃ t, step L (.read p chunk polls .ret) s = .error .onReceiveBody t := by
  obtain ⟨s₁, -, hrun⟩ := uvRead_body L polls (pure ()) chunk h.reading h.mLength
  obtain ⟨t, ht, -⟩ := closesession_mConnections (s := s₁) (s.heap p).mId polls
  have hother : L.platform.uvEnobufs ≠ uvEof ∧ L.platform.uvEnobufs ≠ L.platform.uvEconnreset := by
    cases L.platform <;> decide
  have hneg : ¬ 0 ≤ L.platform.uvEnobufs := by cases L.platform <;> decide
  have hassert : failedAssert L .onReceiveBody L.platform.uvEnobufs =
      (throw .onReceiveBody : Svc Unit) := by
    rw [failedAssert, onlyIf, if_pos hother, assertAt, if_neg hneg]
  refine ⟨t, ?_⟩
  change uvRead L p chunk polls (pure ()) s = _
  rw [hrun, hassert]
  exact bind_of_error (bind_of_ok ht)

end Read

/-! ## Lists of reads -/

section Reads

variable {L : Libuv} {p : Nat} {polls : Polls}

/-- The events of a list of reads. -/
def readEvents (p : Nat) (polls : Polls) (reads : List (List UInt8)) : List Event :=
  reads.map fun r => .read p r polls .ret

theorem delivered_cons (r : List UInt8) (reads : List (List UInt8)) :
    delivered p (r :: reads) =
      (if Delivers r then [.tcpreceive p r] else []) ++ delivered p reads := by
  unfold delivered
  by_cases h : Delivers r <;> simp [h]

/-- What the handler has seen when a list of reads was handled. -/
theorem log_of_reads {reads : List (List UInt8)} (hw : Waiting p s)
    (hrun : run L (readEvents p polls reads) s = .ok () t) :
    t.log = s.log ++ delivered p reads := by
  induction reads generalizing s with
  | nil =>
      cases hrun
      simp [delivered]
  | cons r reads ih =>
      change (step L (.read p r polls .ret) >>= fun _ => run L (readEvents p polls reads)) s = _
        at hrun
      rw [delivered_cons]
      by_cases hfull : r.length = packetBufferSize
      · by_cases hbody : AnnouncesBody r
        · have hnot : ¬ Delivers r := fun h => h.2 hbody
          obtain ⟨s₁, hs₁, hlog, hw₁ | hstuck⟩ := read_announcing (L := L) polls hw hfull hbody
          · rw [bind_of_ok hs₁] at hrun
            rw [ih hw₁ hrun, hlog, if_neg hnot, List.nil_append]
          · rw [bind_of_ok hs₁] at hrun
            cases reads with
            | nil =>
                cases hrun
                simp [hlog, hnot, delivered]
            | cons r' reads =>
                have hdies : ∃ u, step L (.read p r' polls .ret) s₁ = .error .onReceiveBody u :=
                  read_stuck polls hstuck
                obtain ⟨u, hu⟩ := hdies
                change (step L (.read p r' polls .ret) >>= _) s₁ = _ at hrun
                rw [bind_of_error hu] at hrun
                cases hrun
        · obtain ⟨s₁, hs₁, hw₁, hlog, -⟩ := read_delivers (L := L) polls hw ⟨hfull, hbody⟩
          rw [bind_of_ok hs₁] at hrun
          rw [ih hw₁ hrun, hlog, if_pos ⟨hfull, hbody⟩, List.append_assoc]
      · have hnot : ¬ Delivers r := fun h => hfull h.1
        obtain ⟨s₁, hs₁, hw₁, hlog, -⟩ := read_dropped (L := L) polls hw hfull
        rw [bind_of_ok hs₁] at hrun
        rw [ih hw₁ hrun, hlog, if_neg hnot, List.nil_append]

/-- Reads none of which seems to announce a body are all handled. -/
theorem reads_handled {reads : List (List UInt8)} (hw : Waiting p s) (hp : Proper p s)
    (h : ∀ r ∈ reads, r.length = packetBufferSize → ¬ AnnouncesBody r) :
    ∃ t, run L (readEvents p polls reads) s = .ok () t ∧ t.faults = s.faults := by
  induction reads generalizing s with
  | nil => exact ⟨s, rfl, rfl⟩
  | cons r reads ih =>
      have hrest : ∀ r ∈ reads, r.length = packetBufferSize → ¬ AnnouncesBody r :=
        fun r hr => h r (List.mem_cons_of_mem _ hr)
      have hstep : ∃ t, step L (.read p r polls .ret) s = .ok () t ∧ Waiting p t ∧
          Proper p t ∧ t.faults = s.faults := by
        by_cases hfull : r.length = packetBufferSize
        · obtain ⟨t, ht, hwt, -, hpt⟩ :=
            read_delivers (L := L) polls hw ⟨hfull, h r List.mem_cons_self hfull⟩
          exact ⟨t, ht, hwt, hpt hp⟩
        · obtain ⟨t, ht, hwt, -, hpt⟩ := read_dropped (L := L) polls hw hfull
          exact ⟨t, ht, hwt, hpt hp⟩
      obtain ⟨s₁, hs₁, hw₁, hp₁, hfaults⟩ := hstep
      obtain ⟨t, ht, hfaults'⟩ := ih hw₁ hp₁ hrest
      refine ⟨t, ?_, hfaults'.trans hfaults⟩
      change (step L (.read p r polls .ret) >>= fun _ => run L (readEvents p polls reads)) s = _
      rw [bind_of_ok hs₁]
      exact ht

end Reads

/-! ## From the accept on -/

section Accept

variable {L : Libuv} {s : UvService} {p : Nat}

/-- `receive_head` writes through the body pointer. -/
theorem receiveHead_wild (hwild : (s.heap p).mPacket.mBody.base = .wild)
    (h : receiveHead L p s = .ok r t) : s.faults.length < t.faults.length := by
  obtain ⟨_, s₂, hclear, hstart⟩ := bind_eq_ok h
  obtain ⟨_, s₁, htouch, hrest⟩ := bind_eq_ok hclear
  have h₁ := faults_reaches (reaches_touch (s := s) (p := p))
  rw [htouch] at h₁
  have hwild₁ : (s₁.heap p).mPacket.clearsWild = true := by
    rw [touch_heap htouch]
    simp [UvPacket.clearsWild, hwild]
  have h₂ := faults_reaches (reaches_uvReadStart (s := s₂) (p := p) L .head)
  rw [hstart] at h₂
  rw [bind_of_ok session_run, onlyIf, if_pos hwild₁] at hrest
  cases hrest
  have hfault : s₁.faults.length < (s₁.faults ++ [Fault.wildPointer p]).length := by simp
  exact (Nat.lt_of_le_of_lt h₁ hfault).trans_le h₂

/-- `uv_tcp_init` writes into the deleted handle that is last in the queue. -/
theorem inAccept_dangling (h : ¬ s.QueueLive) (env : AcceptEnv) :
    s.faults.length < (inAccept s env).faults.length := by
  have hfaults : (inAccept s env).faults = s.faults ++
      (s.withNew env.ipv6 env.fresh none).usedDeleted s.handleQueue.getLast?.toList := rfl
  have hne := mt (inAccept_faults s env).mp h
  rw [hfaults, List.append_right_eq_self] at hne
  rw [hfaults, List.length_append]
  exact Nat.lt_add_of_pos_right (List.length_pos_of_ne_nil hne)

/-- An accepted session waits for a header. -/
theorem accept_waiting {env : AcceptEnv} (henv : env.Succeeds) :
    ∃ t, step L (.accept env .ret) s = .ok () t ∧ Waiting s.created t ∧
      t.log = s.log ++ [.newsession s.created] ∧
      (env.fresh.bodyNull = true → s.QueueLive → Proper s.created t ∧ t.faults = s.faults) ∧
      (env.fresh.bodyNull = false ∨ ¬ s.QueueLive → s.faults.length < t.faults.length) := by
  have hsession := inAccept_session s env
  have hr : readStartResult L ((inAccept s env).heap s.created).mTcp = 0 := by
    rw [hsession]
    cases hplat : L.platform <;> simp [readStartResult, hplat, UvTcp.init]
  obtain ⟨t, hq, ht⟩ := receiveHead_run L s.created (inAccept s env)
  have hlive : ((inAccept s env).heap s.created).deleted = false := by rw [hsession]
  have hok : ((inAccept s env).heap s.created).HeadOk := by
    refine .inr ⟨hlive, ?_⟩
    rw [hsession]
    exact isHead_new env.fresh
  have hstart : ∀ u : UvTcp, readStartResult L u = 0 →
      (u.readStart L .head).reading = some .head := by
    intro u hu
    rw [UvTcp.readStart, if_pos hu]
  have hgrow := faults_reaches (reaches_receiveHead (s := inAccept s env) (p := s.created) L)
  rw [ht] at hgrow
  refine ⟨t.withSession s.created fun u => { u with mTcp := u.mTcp.readStart L .head },
    ?_, ⟨?_, ?_, ?_⟩, hq.log, fun hnull hqueue => ?_, ?_⟩
  · change onAccept L env (pure ()) s = _
    rw [onAccept_run L (pure ()) henv]
    change (receiveHead L s.created >>= fun r => assertAt .onAcceptReceive (r = 0))
      (inAccept s env) = _
    rw [bind_of_ok ht, assertAt, if_pos hr]
    rfl
  · rw [withSession_self]
    exact hstart _ (by rw [hq.mTcp]; exact hr)
  · rw [withSession_self]
    exact hq.deleted.trans hlive
  · rw [withSession_self]
    exact hq.headOk hok
  · have hproper : Proper s.created (inAccept s env) := by
      unfold Proper
      rw [hsession]
      simp [UvPacket.new, hnull]
    refine ⟨?_, (hq.faults_eq hlive hok hproper).trans ((inAccept_faults s env).mpr hqueue)⟩
    unfold Proper
    rw [withSession_self]
    exact hq.body hproper
  · rintro (hwild | hdangling)
    · have hle : s.faults.length ≤ (inAccept s env).faults.length := by
        change s.faults.length ≤ (s.faults ++ _).length
        simp
      have hbase : ((inAccept s env).heap s.created).mPacket.mBody.base = .wild := by
        rw [hsession]
        simp [UvPacket.new, hwild]
      exact hle.trans_lt (receiveHead_wild hbase ht)
    · exact (inAccept_dangling hdangling env).trans_le hgrow

end Accept

/-! ## Framing -/

/-- A client is accepted in state `s` and its stream arrives in `reads`: nothing
undefined happens, and the handler sees the new session and then the packets. -/
def Framed (L : Libuv) (s : UvService) (env : AcceptEnv) (polls : Polls)
    (packets : List WirePacket) (reads : List (List UInt8)) : Prop :=
  ∃ t, run L (.accept env .ret :: readEvents s.created polls reads) s = .ok () t ∧
    t.faults = s.faults ∧
    t.log = s.log ++ .newsession s.created :: packets.map fun w => .tcpreceive s.created w.bytes

section Framed

variable {L : Libuv} {s : UvService} {env : AcceptEnv} {polls : Polls}
  {packets : List WirePacket} {reads : List (List UInt8)}

/-- A packet is delivered by a read of its own exactly if it fills the receive buffer
and does not start its body with a positive `int`. -/
theorem delivers_bytes_iff (w : WirePacket) :
    Delivers w.bytes ↔ w.body.length = packetBufferSize - Packet.headLength ∧
      ¬ 0 < toInt32 (leNat (w.body.take 4)) := by
  have hlen : w.bytes.length = packetBufferSize ↔
      w.body.length = packetBufferSize - Packet.headLength := by
    rw [w.length_bytes]
    simp only [Packet.headLength, packetBufferSize]
    omega
  rw [Delivers, w.announcesBody_iff, hlen]

/-- If the handler sees the packets, the delivered reads are the packets. -/
theorem filter_of_framed (henv : env.Succeeds) (h : Framed L s env polls packets reads) :
    (env.fresh.bodyNull = true ∧ s.QueueLive) ∧
      (reads.filter fun r => Delivers r) = packets.map WirePacket.bytes := by
  obtain ⟨t, hrun, hfaults, hlog⟩ := h
  obtain ⟨s₁, hs₁, hw, hlog₁, -, hbad⟩ := accept_waiting (L := L) (s := s) henv
  change (step L (.accept env .ret) >>= fun _ => run L (readEvents s.created polls reads)) s = _
    at hrun
  rw [bind_of_ok hs₁] at hrun
  constructor
  · have hgood : ¬ (env.fresh.bodyNull = false ∨ ¬ s.QueueLive) := by
      intro h
      have hgrow := faults_reaches (reaches_run L (readEvents s.created polls reads) s₁)
      rw [hrun] at hgrow
      have hlt := (hbad h).trans_le hgrow
      rw [endState, hfaults] at hlt
      exact absurd hlt (Nat.lt_irrefl _)
    rw [not_or, not_not, Bool.not_eq_false] at hgood
    exact hgood
  · have hsame := log_of_reads hw hrun
    rw [hlog, hlog₁, List.append_assoc, List.singleton_append] at hsame
    have hcons := List.append_cancel_left hsame
    have hmap : (packets.map WirePacket.bytes).map (Callback.tcpreceive s.created) =
        delivered s.created reads := by
      rw [List.map_map]
      exact (List.cons.inj hcons).2
    have hinj : Function.Injective (Callback.tcpreceive s.created) := by
      intro a b hab
      exact (Callback.tcpreceive.inj hab).2
    exact (List.map_injective_iff.mpr hinj hmap).symm

/-- Packets that fill the receive buffer, each in a read of its own, are the reads
that are not empty. -/
theorem filter_of_cut (hcut : reads.flatten = (packets.map WirePacket.bytes).flatten)
    (hpackets : ∀ w ∈ packets, Delivers w.bytes)
    (hreads : ∀ r ∈ reads, r ≠ [] → r.length = packetBufferSize) :
    (reads.filter fun r => r ≠ []) = packets.map WirePacket.bytes := by
  refine eq_of_flatten_eq (n := packetBufferSize) (by decide) (fun r hr => ?_) (fun b hb => ?_) ?_
  · have hmem := List.mem_filter.mp hr
    exact hreads r hmem.1 (of_decide_eq_true hmem.2)
  · obtain ⟨w, hw, rfl⟩ := List.mem_map.mp hb
    exact (hpackets w hw).1
  · rw [List.flatten_filter_ne_nil, hcut]

/-- **Framing**: the packets of a client are delivered as they were sent, and nothing
undefined happens, exactly when the body pointer of its session happens to start out as
null, the handle linked before it is not one of a deleted session, every packet fills the
receive buffer and does not start its body with a positive `int`, and every read that
returns data fills the buffer. -/
theorem framed_iff (henv : env.Succeeds)
    (hcut : reads.flatten = (packets.map WirePacket.bytes).flatten) :
    Framed L s env polls packets reads ↔ (env.fresh.bodyNull = true ∧ s.QueueLive) ∧
      (∀ w ∈ packets, w.body.length = packetBufferSize - Packet.headLength ∧
        ¬ 0 < toInt32 (leNat (w.body.take 4))) ∧
      ∀ r ∈ reads, r ≠ [] → r.length = packetBufferSize := by
  constructor
  · intro h
    obtain ⟨hmemory, hfilter⟩ := filter_of_framed henv h
    refine ⟨hmemory, fun w hw => ?_, fun r hr hne => ?_⟩
    · have hmem : w.bytes ∈ reads.filter fun r => Delivers r := by
        rw [hfilter]
        exact List.mem_map_of_mem hw
      exact (delivers_bytes_iff w).mp (of_decide_eq_true (List.mem_filter.mp hmem).2)
    · have hlen : reads.flatten.length ≤ (reads.filter fun r => Delivers r).flatten.length := by
        rw [hfilter, hcut]
      have hdel := mem_filter_of_length_flatten (fun r => decide (Delivers r)) hlen hr hne
      exact (of_decide_eq_true hdel).1
  · rintro ⟨⟨hnull, hqueue⟩, hpackets, hreads⟩
    have hdel : ∀ w ∈ packets, Delivers w.bytes :=
      fun w hw => (delivers_bytes_iff w).mpr (hpackets w hw)
    have hnonempty := filter_of_cut hcut hdel hreads
    have hread : ∀ r ∈ reads, r ≠ [] → Delivers r := by
      intro r hr hne
      have hmem : r ∈ reads.filter fun r => r ≠ [] := List.mem_filter.mpr ⟨hr, decide_eq_true hne⟩
      rw [hnonempty] at hmem
      obtain ⟨w, hw, rfl⟩ := List.mem_map.mp hmem
      exact hdel w hw
    have hne_of_full : ∀ r : List UInt8, r.length = packetBufferSize → r ≠ [] := by
      rintro r hr rfl
      exact absurd hr (by decide)
    have hfilter : (reads.filter fun r => Delivers r) = packets.map WirePacket.bytes := by
      rw [← hnonempty]
      refine List.filter_congr fun r hr => decide_eq_decide.mpr ⟨fun h => ?_, hread r hr⟩
      exact hne_of_full r h.1
    obtain ⟨s₁, hs₁, hw, hlog₁, hproper, -⟩ := accept_waiting (L := L) (s := s) henv
    obtain ⟨hp, hfaults₁⟩ := hproper hnull hqueue
    have hhandled : ∃ t, run L (readEvents s.created polls reads) s₁ = .ok () t ∧
        t.faults = s₁.faults :=
      reads_handled hw hp fun r hr hfull => (hread r hr (hne_of_full r hfull)).2
    obtain ⟨t, ht, hfaults⟩ := hhandled
    refine ⟨t, ?_, hfaults.trans hfaults₁, ?_⟩
    · change (step L (.accept env .ret) >>= fun _ =>
        run L (readEvents s.created polls reads)) s = _
      rw [bind_of_ok hs₁]
      exact ht
    · rw [log_of_reads hw ht, hlog₁, delivered, hfilter, List.map_map, List.append_assoc]
      rfl

end Framed

/-- A packet whose body is all zero. -/
def WirePacket.zeros (n : Nat) (h : n < 2 ^ 31) : WirePacket :=
  ⟨0, 1, 0, List.replicate n 0, by rw [List.length_replicate]; exact h⟩

/-- A packet of a thousand zero bytes, read at once after an empty read, is
delivered. -/
theorem framed_zeros :
    Framed (.loopback .unix) UvService.init ⟨0, false, 0, 0, ⟨true, 0, 0⟩⟩ ⟨false, false⟩
      [WirePacket.zeros 1000 (by decide)] [[], (WirePacket.zeros 1000 (by decide)).bytes] := by
  have hcut (w : WirePacket) : [[], w.bytes].flatten = ([w].map WirePacket.bytes).flatten := by
    simp
  refine (framed_iff ⟨rfl, rfl, rfl⟩ (hcut _)).mpr ⟨⟨rfl, fun q hq => by cases hq⟩, ?_, ?_⟩
  · intro w hw
    rw [List.mem_singleton.mp hw]
    refine ⟨List.length_replicate, ?_⟩
    rw [WirePacket.zeros, List.take_replicate]
    decide
  · intro r hr hne
    rcases List.mem_cons.mp hr with rfl | hr
    · contradiction
    · rw [List.mem_singleton.mp hr, WirePacket.length_bytes, WirePacket.zeros,
        List.length_replicate]
      rfl

/-- `packet(1, "hello", 5, 0)`, read at once, is not delivered. -/
theorem not_framed_hello :
    ¬ Framed (.loopback .unix) UvService.init ⟨0, false, 0, 0, ⟨true, 0, 0⟩⟩ ⟨false, false⟩
      [⟨0, 1, 0, [104, 101, 108, 108, 111], by decide⟩]
      [WirePacket.bytes ⟨0, 1, 0, [104, 101, 108, 108, 111], by decide⟩] := by
  intro h
  have hfilter := (filter_of_framed ⟨rfl, rfl, rfl⟩ h).2
  have hnot : ¬ Delivers (WirePacket.bytes ⟨0, 1, 0, [104, 101, 108, 108, 111], by decide⟩) := by
    rw [delivers_bytes_iff]
    decide
  simp [hnot] at hfilter

end GEngine
