import GEngine.UvService.Change

/-!
# GEngine.UvService.Receive

What one read does to a session that waits for a header.  There are three kinds of
reads: a read that does not fill the receive buffer is dropped (`uvRead_dropped`);
a read that fills it and seems to announce a body switches to the body callbacks, if
libuv lets it (`uvRead_announcing`); any other read that fills the buffer is
delivered as it is (`uvRead_delivers`).
-/

namespace GEngine

open UvService

/-! ## The receive buffers -/

/-- The receive buffer of a new session. -/
theorem isHead_new (fresh : Fresh) : (UvPacket.new fresh).mHead.IsHead :=
  ⟨List.replicate packetBufferSize 0, rfl, List.length_replicate⟩

/-- A session that is there has its receive buffer. -/
theorem UvSession.HeadOk.isHead {u : UvSession} (h : u.HeadOk) (hlive : u.deleted = false) :
    u.mPacket.mHead.IsHead := by
  rcases h with ⟨hdeleted, -⟩ | ⟨-, hhead⟩
  · rw [hlive] at hdeleted
    contradiction
  · exact hhead

/-- The receive buffers are in place before the first event. -/
theorem heads_init (p : Nat) : (UvService.init.heap p).HeadOk := .inr ⟨rfl, isHead_new _⟩

/-- No move takes a receive buffer away. -/
theorem heads_change {D : Dials} (hc : Move D s t) (h : ∀ p, (s.heap p).HeadOk) (p : Nat) :
    (t.heap p).HeadOk := by
  have hnew (ipv6 : Bool) (fresh : Fresh) (e : Option Endpoint) :
      ((s.withNew ipv6 fresh e).heap p).HeadOk := by
    by_cases hp : p = s.created
    · subst hp
      rw [withNew_self]
      exact .inr ⟨rfl, isHead_new fresh⟩
    · rw [withNew_of_ne s ipv6 fresh e hp]
      exact h p
  cases hc with
  | session q f hf =>
      by_cases hp : p = q
      · subst hp
        rw [withSession_self]
        exact hf.headOk (h p)
      · rw [withSession_of_ne s f hp]
        exact h p
  | created ipv6 fresh e => exact hnew ipv6 fresh e
  | accepted ipv6 fresh f hf =>
      change (((s.withNew ipv6 fresh none).withSession s.created f).heap p).HeadOk
      by_cases hp : p = s.created
      · subst hp
        rw [withSession_self]
        exact (hf _).headOk (hnew ipv6 fresh none)
      · rw [withSession_of_ne _ f hp]
        exact hnew ipv6 fresh none
  | fault f => exact h p
  | connecting q e hq he _ => exact h p
  | requested q _ => exact h p
  | completed q => exact h p
  | queued ps => exact h p
  | connected q hq => exact h p
  | received q data => exact h p
  | closedSession id q hq => exact h p
  | closedConnection id q hq => exact h p

/-- Code that only makes moves keeps the receive buffers. -/
theorem heads_reaches {x : Svc α} (hx : Reaches Change x s) (h : ∀ p, (s.heap p).HeadOk) :
    ∀ p, ((endState (x s)).heap p).HeadOk :=
  moves_keep (I := fun s => ∀ p, (s.heap p).HeadOk) (fun _ _ => heads_change) hx h

/-! ## Code that only touches a packet -/

/-- Only the packet of session `p` differs, and faults that come from it. -/
structure PacketOnly (p : Nat) (s t : UvService) : Prop extends Quiet p s t where
  mTcp : (t.heap p).mTcp = (s.heap p).mTcp
  deleted : (t.heap p).deleted = (s.heap p).deleted
  headOk : (s.heap p).HeadOk → (t.heap p).HeadOk
  body : (s.heap p).mPacket.mBody.base ≠ .wild → (t.heap p).mPacket.mBody.base ≠ .wild
  mLength : (s.heap p).mPacket.mLength ≠ UvPacket.headLength →
    (t.heap p).mPacket.mLength ≠ UvPacket.headLength
  faults : ∃ fs, t.faults = s.faults ++ fs ∧ ∀ f ∈ fs,
    (f = .useAfterDelete p ∧ (s.heap p).deleted = true) ∨
      (f = .wildPointer p ∧ ((s.heap p).HeadOk → (s.heap p).mPacket.mBody.base = .wild))

theorem PacketOnly.refl (p : Nat) (s : UvService) : PacketOnly p s s where
  toQuiet := Std.Refl.refl s
  mTcp := rfl
  deleted := rfl
  headOk := id
  body := id
  mLength := id
  faults := ⟨[], by simp, by simp⟩

theorem PacketOnly.trans (h : PacketOnly p s t) (k : PacketOnly p t u) : PacketOnly p s u where
  toQuiet := IsTrans.trans _ _ _ h.toQuiet k.toQuiet
  mTcp := k.mTcp.trans h.mTcp
  deleted := k.deleted.trans h.deleted
  headOk hs := k.headOk (h.headOk hs)
  body hs := k.body (h.body hs)
  mLength hs := k.mLength (h.mLength hs)
  faults := by
    obtain ⟨fs, hfs, hf⟩ := h.faults
    obtain ⟨gs, hgs, hg⟩ := k.faults
    refine ⟨fs ++ gs, by rw [hgs, hfs, List.append_assoc], fun f hmem => ?_⟩
    rw [List.mem_append] at hmem
    rcases hmem with hmem | hmem
    · exact hf f hmem
    · rcases hg f hmem with ⟨hu, hd⟩ | ⟨hw, hb⟩
      · exact .inl ⟨hu, by rw [← h.deleted]; exact hd⟩
      · refine .inr ⟨hw, fun hok => ?_⟩
        by_contra hne
        exact h.body hne (hb (h.headOk hok))

instance (p : Nat) : IsTrans UvService (PacketOnly p) := ⟨fun _ _ _ => PacketOnly.trans⟩

/-- The receive buffer of a session that is there stays. -/
theorem PacketOnly.isHead (h : PacketOnly p s t) (hlive : (s.heap p).deleted = false)
    (hok : (s.heap p).HeadOk) : (t.heap p).mPacket.mHead.IsHead :=
  (h.headOk hok).isHead (h.deleted.trans hlive)

/-- A live session with a proper buffer makes no fault. -/
theorem PacketOnly.faults_eq (h : PacketOnly p s t) (hlive : (s.heap p).deleted = false)
    (hok : (s.heap p).HeadOk) (hbody : (s.heap p).mPacket.mBody.base ≠ .wild) :
    t.faults = s.faults := by
  obtain ⟨fs, hfs, hf⟩ := h.faults
  cases fs with
  | nil => simpa using hfs
  | cons f fs =>
      rcases hf f List.mem_cons_self with ⟨-, hd⟩ | ⟨-, hb⟩
      · rw [hlive] at hd; contradiction
      · exact absurd (hb hok) hbody

section Packet

variable {p : Nat}

/-- A change of the packet that keeps the receive buffer. -/
theorem packetOnly_withSession {s : UvService} {f : UvSession → UvSession}
    (hid : (f (s.heap p)).mId = (s.heap p).mId)
    (he : (f (s.heap p)).endpoint = (s.heap p).endpoint)
    (htcp : (f (s.heap p)).mTcp = (s.heap p).mTcp)
    (hdel : (f (s.heap p)).deleted = (s.heap p).deleted)
    (hok : (s.heap p).HeadOk → (f (s.heap p)).HeadOk)
    (hbody : (s.heap p).mPacket.mBody.base ≠ .wild → (f (s.heap p)).mPacket.mBody.base ≠ .wild)
    (hlen : (s.heap p).mPacket.mLength ≠ UvPacket.headLength →
      (f (s.heap p)).mPacket.mLength ≠ UvPacket.headLength) :
    PacketOnly p s (s.withSession p f) where
  nextId := rfl
  created := rfl
  mSessions := rfl
  mConnections := rfl
  mConnect := rfl
  pending := rfl
  log := rfl
  others q hq := withSession_of_ne s f hq
  mId := by rw [withSession_self, hid]
  endpoint := by rw [withSession_self, he]
  mTcp := by rw [withSession_self, htcp]
  deleted := by rw [withSession_self, hdel]
  headOk h := by rw [withSession_self]; exact hok h
  body h := by rw [withSession_self]; exact hbody h
  mLength h := by rw [withSession_self]; exact hlen h
  faults := ⟨[], by simp [withSession], by simp⟩

/-- A fault of the packet itself. -/
theorem packetOnly_withFault {s : UvService} {f : Fault}
    (hf : (f = .useAfterDelete p ∧ (s.heap p).deleted = true) ∨
      (f = .wildPointer p ∧ ((s.heap p).HeadOk → (s.heap p).mPacket.mBody.base = .wild))) :
    PacketOnly p s (s.withFault f) where
  toQuiet := ⟨rfl, rfl, rfl, rfl, rfl, rfl, rfl, fun _ _ => rfl, rfl, rfl⟩
  mTcp := rfl
  deleted := rfl
  headOk := id
  body := id
  mLength := id
  faults := ⟨[f], rfl, by simpa using hf⟩

theorem packetOnly_touch : Returns (PacketOnly p) (touch p) := by
  intro s
  refine ⟨(), _, touch_run, ?_⟩
  by_cases hdel : (s.heap p).deleted = true
  · rw [if_pos hdel]
    exact packetOnly_withFault (.inl ⟨rfl, hdel⟩)
  · rw [if_neg hdel]
    exact PacketOnly.refl p s

/-- Using a session that is there. -/
theorem touch_live (h : (s.heap p).deleted = false) : touch p s = .ok () s := by
  rw [touch_run, h]
  rfl

/-- Using a session does not change it. -/
theorem touch_heap (h : touch p s = .ok () t) : t.heap = s.heap := by
  rw [touch_run] at h
  cases h
  split <;> rfl

/-- With a proper buffer, only the body pointer can be wild. -/
theorem clearsWild_headOk {u : UvSession} (h : u.mPacket.clearsWild = true) (hok : u.HeadOk) :
    u.mPacket.mBody.base = .wild := by
  rcases hok with ⟨-, hhead⟩ | ⟨-, bs, hhead, -⟩
  · simpa [UvPacket.clearsWild, hhead, UvBuf.empty] using h
  · simpa [UvPacket.clearsWild, hhead] using h

/-- Clearing does not change where the body pointer points to. -/
theorem clear_body {q : UvPacket} (h : q.mBody.base ≠ .wild) : q.clear.mBody.base ≠ .wild := by
  unfold UvPacket.clear UvBuf.zero
  cases hb : q.mBody.base with
  | null => simp [hb]
  | block bs => simp
  | wild => exact absurd hb h

theorem packetOnly_clearPacket : Returns (PacketOnly p) (clearPacket p) := by
  refine Returns.bind packetOnly_touch fun _ => ?_
  intro s
  have hclear (s' : UvService) :
      PacketOnly p s' (s'.withSession p fun u => { u with mPacket := u.mPacket.clear }) :=
    packetOnly_withSession rfl rfl rfl rfl (kept_clear _).headOk clear_body id
  by_cases hwild : (s.heap p).mPacket.clearsWild = true
  · have hfault : PacketOnly p s (s.withFault (.wildPointer p)) :=
      packetOnly_withFault (.inr ⟨rfl, clearsWild_headOk hwild⟩)
    refine ⟨(), _, ?_, hfault.trans (hclear _)⟩
    rw [bind_of_ok session_run, onlyIf, if_pos hwild]
    rfl
  · refine ⟨(), _, ?_, hclear s⟩
    rw [bind_of_ok session_run, onlyIf, if_neg hwild]
    rfl

end Packet

/-! ## `uv_read_start` -/

/-- The handle after `uv_read_start`. -/
def UvTcp.readStart (L : Libuv) (t : UvTcp) (phase : Phase) : UvTcp :=
  if readStartResult L t = 0 then { t with reading := some phase } else t

/-- `uv_read_start` changes the handle of `p` and nothing else. -/
theorem uvReadStart_run (L : Libuv) (p : Nat) (phase : Phase) (s : UvService) :
    ∃ t, PacketOnly p s t ∧ t.heap = s.heap ∧
      uvReadStart L p phase s = .ok (readStartResult L (s.heap p).mTcp)
        (t.withSession p fun u => { u with mTcp := u.mTcp.readStart L phase }) := by
  obtain ⟨_, t, ht, hq⟩ := packetOnly_touch (p := p) s
  refine ⟨t, hq, touch_heap ht, ?_⟩
  rw [← hq.mTcp]
  unfold uvReadStart
  rw [bind_of_ok ht, bind_of_ok session_run]
  by_cases h0 : readStartResult L (t.heap p).mTcp = 0
  · have hstart : (t.heap p).mTcp.readStart L phase =
        { (t.heap p).mTcp with reading := some phase } := by
      rw [UvTcp.readStart, if_pos h0]
    simp only [onlyIf, if_pos h0, withSession, hstart]
    rfl
  · have hstart : (t.heap p).mTcp.readStart L phase = (t.heap p).mTcp := by
      rw [UvTcp.readStart, if_neg h0]
    simp only [onlyIf, if_neg h0, withSession, hstart, Function.update_eq_self]
    rfl

/-- `receive_head` clears the packet and starts to read. -/
theorem receiveHead_run (L : Libuv) (p : Nat) (s : UvService) :
    ∃ t, PacketOnly p s t ∧ receiveHead L p s = .ok (readStartResult L (s.heap p).mTcp)
      (t.withSession p fun u => { u with mTcp := u.mTcp.readStart L .head }) := by
  obtain ⟨_, s₁, hs₁, hq₁⟩ := packetOnly_clearPacket (p := p) s
  obtain ⟨t, hq₂, -, ht⟩ := uvReadStart_run L p .head s₁
  refine ⟨t, hq₁.trans hq₂, ?_⟩
  rw [receiveHead, bind_of_ok hs₁, ht, hq₁.mTcp]

/-! ## Accepted sessions -/

/-- A session whose socket is connected. -/
def UvSession.connected (u : UvSession) : UvSession :=
  { u with mTcp := { u.mTcp with readable := true } }

/-- The accepted session, as the handler sees it in `on_newsession`. -/
def inAccept (s : UvService) (env : AcceptEnv) : UvService :=
  (((s.withNew env.ipv6 env.fresh none).withHandle s.created env.rInit).withSession s.created
    UvSession.connected).inNewsession s.created

theorem inAccept_session (s : UvService) (env : AcceptEnv) :
    (inAccept s env).heap s.created = ⟨Int.bmod (s.nextId + 1) (2 ^ 32), env.ipv6,
      UvPacket.new env.fresh, { UvTcp.init with readable := true }, false, none⟩ := by
  change ((s.withNew env.ipv6 env.fresh none).withSession s.created
    UvSession.connected).heap s.created = _
  rw [withSession_self, withNew_self]
  rfl

/-- The handle that is last in `loop->handle_queue` is not one of a deleted session.  (At
`created` there is none yet: the next session is built there.) -/
def UvService.QueueLive (s : UvService) : Prop :=
  ∀ q, s.handleQueue.getLast? = some q → q = s.created ∨ (s.heap q).deleted = false

/-- `uv_tcp_init` of an accepted session writes into the handle that is last in the
queue. -/
theorem inAccept_faults (s : UvService) (env : AcceptEnv) :
    (inAccept s env).faults = s.faults ↔ s.QueueLive := by
  have hfaults : (inAccept s env).faults = s.faults ++
      (s.withNew env.ipv6 env.fresh none).usedDeleted s.handleQueue.getLast?.toList := rfl
  rw [hfaults, List.append_right_eq_self, UvService.QueueLive]
  cases hlast : s.handleQueue.getLast? with
  | none => simp [usedDeleted]
  | some q =>
      by_cases hq : q = s.created
      · simp [usedDeleted, hq]
      · simp [usedDeleted, hq]

/-- The three libuv calls of `on_accept` succeed. -/
structure AcceptEnv.Succeeds (env : AcceptEnv) : Prop where
  status : env.status = 0
  rInit : env.rInit = 0
  rAccept : env.rAccept = 0

/-- `on_accept` when libuv has no objection. -/
theorem onAccept_run (L : Libuv) (handler : Svc Unit) {env : AcceptEnv} (h : env.Succeeds)
    (s : UvService) : onAccept L env handler s =
      (handler >>= fun _ => receiveHead L s.created >>= fun r =>
        assertAt .onAcceptReceive (r = 0)) (inAccept s env) := by
  unfold onAccept
  rw [assertAt, if_pos h.status, pure_bind, bind_of_ok (newSession_run _ _ _),
    bind_of_ok (uvTcpInit_run _), if_neg (not_not.mpr h.rInit), if_neg (not_not.mpr h.rAccept)]
  rfl

/-! ## Completed connects -/

/-- The service when libuv has connected the socket of `p`. -/
def withConnected (s : UvService) (p : Nat) (names : SockNames) : UvService :=
  { s with pending := s.pending.erase p }.withSession p fun u =>
    { u with mTcp := { u.mTcp with readable := true, names := names } }

/-- The service as the handler sees it when the connect request of `p` has completed
and session `q` is announced. -/
def inConnected (s : UvService) (p : Nat) (names : SockNames) (q : Nat) : UvService :=
  (withConnected s p names).inNewconnection q

/-- What `on_connect` does when the connection was announced: it starts to receive, or
closes the connection and dies. -/
def receiveConnected (L : Libuv) (q : Nat) (polls : Polls) (closing : Svc Unit) : Svc Unit := do
  let r ← receiveHead L q
  if r ≠ 0 then
    let id := (← session q).mId
    closeconnection id polls closing
    throw .onConnectReceive

section Completed

variable (L : Libuv) {s : UvService} {q : Nat} (polls : Polls) (handler closing : Svc Unit)

theorem onConnect_none (h : s.mConnect = none) :
    onConnect L status polls handler closing s = .ok () s := by
  unfold onConnect
  rw [bind_of_ok (show (get : Svc UvService) s = .ok s s from rfl), h]
  rfl

/-- A completion that succeeds announces the session that `m_connect` points to. -/
theorem onConnect_announces (h : s.mConnect = some q) (hstatus : status = 0) :
    onConnect L status polls handler closing s =
      (handler >>= fun _ => receiveConnected L q polls closing) (s.inNewconnection q) := by
  unfold onConnect
  rw [bind_of_ok (show (get : Svc UvService) s = .ok s s from rfl), h]
  change (if status = 0 then _ else _ : Svc Unit) s = _
  rw [if_pos hstatus]
  rfl

/-- A completion that fails deletes the session that `m_connect` points to. -/
theorem onConnect_fails (h : s.mConnect = some q) (hstatus : status ≠ 0) :
    onConnect L status polls handler closing s =
      (do
        close q polls.atClose
        deleteSession q polls.atDelete
        throw Site.onConnectStatus : Svc Unit) s := by
  unfold onConnect
  rw [bind_of_ok (show (get : Svc UvService) s = .ok s s from rfl), h]
  change (if status = 0 then _ else _ : Svc Unit) s = _
  rw [if_neg hstatus]

end Completed

/-! ## A read in the header phase -/

/-- What `on_receive_head` takes for the announcement of a body: a positive `int`
behind the header. -/
def AnnouncesBody (chunk : List UInt8) : Prop :=
  0 < toInt32 (leNat (slice chunk UvPacket.headLength 4))

instance (chunk : List UInt8) : Decidable (AnnouncesBody chunk) :=
  inferInstanceAs (Decidable (0 < _))

/-- The test of `on_receive_head`, in terms of what the buffer holds. -/
theorem wantsBody_iff {q : UvPacket} (h : q.mHead = ⟨.block chunk, n⟩) :
    q.wantsBody = true ↔ AnnouncesBody chunk := by
  rw [UvPacket.wantsBody, UvPacket.bodylength, h, decide_eq_true_iff]
  rfl

section Read

variable (L : Libuv) {s : UvService} {p : Nat} {chunk : List UInt8} (polls : Polls)
  (handler : Svc Unit)

/-- libuv reads nothing from a stream that does not read. -/
theorem uvRead_none (hread : (s.heap p).mTcp.reading = none) :
    uvRead L p chunk polls handler s = .ok () s := by
  unfold uvRead
  rw [bind_of_ok session_run, hread]
  rfl

/-- libuv stores what it read, and calls `on_receive_head`. -/
theorem uvRead_head (hread : (s.heap p).mTcp.reading = some .head)
    (hlive : (s.heap p).deleted = false) (hok : (s.heap p).HeadOk)
    (hfit : chunk.length ≤ packetBufferSize) :
    ∃ t, PacketOnly p s t ∧ uvRead L p chunk polls handler s =
        uvCallback p (onReceiveHead L p chunk.length polls handler) t ∧
      (chunk.length = packetBufferSize →
        (t.heap p).mPacket.mHead = ⟨.block chunk, packetBufferSize⟩) := by
  obtain ⟨_, s₁, hs₁, hq₁⟩ := packetOnly_touch (p := p) s
  obtain ⟨bs, hhead, hlen⟩ := hq₁.isHead hlive hok
  have hempty : ¬ (s₁.heap p).mPacket.mHead.isEmpty = true := by
    simp [UvBuf.isEmpty, hhead, packetBufferSize]
  have hfit' : chunk.length ≤ (s₁.heap p).mPacket.mHead.len := by
    rw [hhead]; exact hfit
  have hq₂ : PacketOnly p s₁ (s₁.withSession p fun u =>
      { u with mPacket := { u.mPacket with mHead := u.mPacket.mHead.fill chunk } }) :=
    packetOnly_withSession rfl rfl rfl rfl (kept_fill _ _).headOk id id
  refine ⟨_, hq₁.trans hq₂, ?_, fun hfull => ?_⟩
  · unfold uvRead
    rw [bind_of_ok session_run, hread]
    change (touch p >>= _) s = _
    rw [bind_of_ok hs₁, bind_of_ok session_run, if_neg hempty, if_pos hfit',
      bind_of_ok (updateSession_run _)]
  · rw [withSession_self]
    simp only [hhead, UvBuf.fill, copyAt_zero_of_length (hfull.trans hlen.symm)]

/-- A deleted session has no buffer to give, and libuv had to look at it to find out. -/
theorem uvRead_deleted (hread : (s.heap p).mTcp.reading = some .head)
    (hdeleted : (s.heap p).deleted = true) (hok : (s.heap p).HeadOk) :
    uvRead L p chunk polls handler s =
      uvCallback p (onReceiveHead L p L.platform.uvEnobufs polls handler)
        (s.withFault (.useAfterDelete p)) := by
  have hempty : (s.heap p).mPacket.mHead.isEmpty = true := by
    rcases hok with ⟨-, hnone⟩ | ⟨hlive, -⟩
    · rw [hnone]
      rfl
    · rw [hdeleted] at hlive
      contradiction
  have htouch : touch p s = .ok () (s.withFault (.useAfterDelete p)) := by
    rw [touch_run, if_pos hdeleted]
  have hempty' : ((s.withFault (.useAfterDelete p)).heap p).mPacket.mHead.isEmpty = true := hempty
  unfold uvRead
  rw [bind_of_ok session_run, hread]
  change (touch p >>= _) s = _
  rw [bind_of_ok htouch, bind_of_ok session_run, if_pos hempty']

/-- `on_receive_head` drops what does not fill the buffer. -/
theorem onReceiveHead_short {n : Nat} (hlive : (s.heap p).deleted = false)
    (hok : (s.heap p).HeadOk) (hn : n ≠ packetBufferSize) :
    ∃ t, PacketOnly p s t ∧ onReceiveHead L p n polls handler s = .ok () t := by
  obtain ⟨_, s₁, hs₁, hq₁⟩ := packetOnly_touch (p := p) s
  obtain ⟨_, s₂, hs₂, hq₂⟩ := packetOnly_clearPacket (p := p) s₁
  obtain ⟨bs, hhead, -⟩ := hq₁.isHead hlive hok
  have hne : ¬ ((n : Int) = ((s₁.heap p).mPacket.mHead.len : Int)) := by
    rw [hhead, Int.natCast_inj]
    exact hn
  have hpos : ¬ (n : Int) < 0 := by omega
  refine ⟨s₂, hq₁.trans hq₂, ?_⟩
  unfold onReceiveHead receiveFailed
  rw [bind_of_ok hs₁, bind_of_ok session_run, if_neg hne, bind_of_ok hs₂, if_neg hpos]
  rfl

/-- Up to the decision of `on_receive_head` about a full buffer. -/
theorem onReceiveHead_full
    (hhead : (s.heap p).mPacket.mHead = ⟨.block chunk, packetBufferSize⟩)
    (hfull : chunk.length = packetBufferSize) :
    ∃ t, PacketOnly p s t ∧ (t.heap p).mPacket.mLength ≠ UvPacket.headLength ∧
      onReceiveHead L p chunk.length polls handler s =
        (if AnnouncesBody chunk then
          discard <| receiveBody L p
        else do
          onTcpreceive p chunk handler
          clearPacket p
          discard <| receiveHead L p) t := by
  obtain ⟨_, s₁, hs₁, hq₁⟩ := packetOnly_touch (p := p) s
  have hsame : s₁.heap p = s.heap p := congrFun (touch_heap hs₁) p
  let counted : UvSession → UvSession :=
    fun u => { u with mPacket := { u.mPacket with mLength := (chunk.length : Int).toNat } }
  have hcounted : (counted (s₁.heap p)).mPacket.mLength ≠ UvPacket.headLength := by
    simp [counted, hfull, packetBufferSize, UvPacket.headLength]
  have hq₂ : PacketOnly p s₁ (s₁.withSession p counted) :=
    packetOnly_withSession rfl rfl rfl rfl id id fun _ => hcounted
  have hlen : (chunk.length : Int) = ((s₁.heap p).mPacket.mHead.len : Int) := by
    rw [hsame, hhead, hfull]
  have hbuf : ((s₁.withSession p counted).heap p).mPacket.mHead =
      ⟨.block chunk, packetBufferSize⟩ := by
    rw [withSession_self]
    exact (congrArg (fun u => u.mPacket.mHead) hsame).trans hhead
  refine ⟨_, hq₁.trans hq₂, by rw [withSession_self]; exact hcounted, ?_⟩
  unfold onReceiveHead
  rw [bind_of_ok hs₁, bind_of_ok session_run, if_pos hlen, bind_of_ok (updateSession_run counted),
    bind_of_ok session_run]
  have hfront : UvBuf.front ⟨.block chunk, packetBufferSize⟩ packetBufferSize = chunk := by
    simp [UvBuf.front, Base.bytes, ← hfull]
  by_cases hbody : AnnouncesBody chunk
  · rw [if_pos ((wantsBody_iff hbuf).mpr hbody), if_pos hbody]
  · rw [if_neg (mt (wantsBody_iff hbuf).mp hbody), if_neg hbody, hbuf, hfront]

/-- A read that does not fill the receive buffer is dropped. -/
theorem uvRead_dropped (hread : (s.heap p).mTcp.reading = some .head)
    (hlive : (s.heap p).deleted = false) (hok : (s.heap p).HeadOk)
    (hne : chunk.length ≠ packetBufferSize) :
    ∃ t, PacketOnly p s t ∧ uvRead L p chunk polls handler s = .ok () t := by
  by_cases hfit : chunk.length ≤ packetBufferSize
  · obtain ⟨s₁, hq₁, hrun, -⟩ := uvRead_head L polls handler hread hlive hok hfit
    obtain ⟨t, hq₂, ht⟩ := onReceiveHead_short L polls handler (hq₁.deleted.trans hlive)
      (hq₁.headOk hok) hne
    refine ⟨t, hq₁.trans hq₂, ?_⟩
    rw [hrun, uvCallback, bind_of_ok ht,
      touch_live (hq₂.deleted.trans (hq₁.deleted.trans hlive))]
  · obtain ⟨_, s₁, hs₁, hq₁⟩ := packetOnly_touch (p := p) s
    obtain ⟨bs, hhead, hlen⟩ := hq₁.isHead hlive hok
    have hempty : ¬ (s₁.heap p).mPacket.mHead.isEmpty = true := by
      simp [UvBuf.isEmpty, hhead, packetBufferSize]
    have hlong : ¬ chunk.length ≤ (s₁.heap p).mPacket.mHead.len := by
      rw [hhead]; exact hfit
    refine ⟨s₁, hq₁, ?_⟩
    unfold uvRead
    rw [bind_of_ok session_run, hread]
    change (touch p >>= _) s = _
    rw [bind_of_ok hs₁, bind_of_ok session_run, if_neg hempty, if_neg hlong]
    rfl

/-- A full buffer that seems to announce a body asks libuv for the body callbacks. -/
theorem uvRead_announcing (hread : (s.heap p).mTcp.reading = some .head)
    (hlive : (s.heap p).deleted = false) (hok : (s.heap p).HeadOk)
    (hfull : chunk.length = packetBufferSize) (hbody : AnnouncesBody chunk) :
    ∃ t, PacketOnly p s t ∧ (t.heap p).mPacket.mLength ≠ UvPacket.headLength ∧
      uvRead L p chunk polls handler s =
        .ok () (t.withSession p fun u => { u with mTcp := u.mTcp.readStart L .body }) := by
  obtain ⟨s₁, hq₁, hrun, hhead⟩ :=
    uvRead_head L polls handler hread hlive hok (Nat.le_of_eq hfull)
  obtain ⟨s₂, hq₂, hlen, hfinal⟩ := onReceiveHead_full L polls handler (hhead hfull) hfull
  obtain ⟨t, hq₃, hheap, ht⟩ := uvReadStart_run L p .body s₂
  have hq := (hq₁.trans hq₂).trans hq₃
  rw [if_pos hbody] at hfinal
  refine ⟨t, hq, by rw [hheap]; exact hlen, ?_⟩
  rw [hrun, uvCallback, bind_of_ok (hfinal.trans (discard_of_ok ht)), touch_live]
  rw [withSession_self]
  exact hq.deleted.trans hlive

/-- Any other full buffer is delivered, whatever it holds. -/
theorem uvRead_delivers (hread : (s.heap p).mTcp.reading = some .head)
    (hlive : (s.heap p).deleted = false) (hok : (s.heap p).HeadOk)
    (hfull : chunk.length = packetBufferSize) (hbody : ¬ AnnouncesBody chunk) :
    ∃ t, PacketOnly p s t ∧ uvRead L p chunk polls handler s = uvCallback p (do
      handler
      clearPacket p
      discard <| receiveHead L p) (t.withCallback (.tcpreceive p chunk)) := by
  obtain ⟨s₁, hq₁, hrun, hhead⟩ :=
    uvRead_head L polls handler hread hlive hok (Nat.le_of_eq hfull)
  obtain ⟨t, hq₂, -, hfinal⟩ := onReceiveHead_full L polls handler (hhead hfull) hfull
  refine ⟨t, hq₁.trans hq₂, ?_⟩
  rw [if_neg hbody] at hfinal
  exact hrun.trans (bind_of_eq hfinal)

end Read

end GEngine
