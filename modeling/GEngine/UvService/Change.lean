import GEngine.UvService

/-!
# GEngine.UvService.Change

What service code can do to the service, said once.  `Move` lists the moves: one
constructor for each way in which a function of `GEngine.UvService` changes the state.
Every function, with any handler in its callbacks, only makes such moves (`reaches_step`),
so a property that each move keeps holds in every reachable state (`reachable_keep`).
What the moves of outgoing connects depend on is a parameter, `Dials`, for the sake of
results about what is dialled (`moves_step`).
-/

namespace GEngine

open Relation

/-! ## Moves -/

/-- A receive buffer as `uv_packet::uv_packet` makes it. -/
def UvBuf.IsHead (b : UvBuf) : Prop :=
  ∃ bs, b = ⟨.block bs, packetBufferSize⟩ ∧ bs.length = packetBufferSize

/-- The receive buffer of a session is the block its packet was built with, and there is
none any more once the session is deleted. -/
def UvSession.HeadOk (u : UvSession) : Prop :=
  (u.deleted = true ∧ u.mPacket.mHead = UvBuf.empty) ∨
    (u.deleted = false ∧ u.mPacket.mHead.IsHead)

/-- What no code changes in a session. -/
structure UvSession.Kept (u v : UvSession) : Prop where
  mId : v.mId = u.mId
  endpoint : v.endpoint = u.endpoint
  headOk : u.HeadOk → v.HeadOk

namespace UvService

/-- The service with one session changed. -/
def withSession (s : UvService) (p : Nat) (f : UvSession → UvSession) : UvService :=
  { s with heap := Function.update s.heap p (f (s.heap p)) }

/-- The service after `new uv_session`. -/
def withNew (s : UvService) (ipv6 : Bool) (fresh : Fresh) (endpoint : Option Endpoint) :
    UvService :=
  let id := Int.bmod (s.nextId + 1) (2 ^ 32)
  { s with
    nextId := id
    created := s.created + 1
    heap := Function.update s.heap s.created
      ⟨id, ipv6, UvPacket.new fresh, UvTcp.init, false, endpoint⟩ }

/-- The service with a fault recorded. -/
def withFault (s : UvService) (f : Fault) : UvService := { s with faults := s.faults ++ [f] }

/-- The faults of using the handles of some sessions. -/
def usedDeleted (s : UvService) (ps : List Nat) : List Fault :=
  (ps.filter fun p => (s.heap p).deleted).map .useAfterDelete

/-- The service after `uv_tcp_init` has returned `r` for the handle of `p`. -/
def withHandle (s : UvService) (p : Nat) (r : Int) : UvService :=
  { s with
    faults := s.faults ++ s.usedDeleted s.handleQueue.getLast?.toList
    handleQueue := if r = 0 then s.handleQueue ++ [p] else s.handleQueue }

/-- The service inside a callback. -/
def withCallback (s : UvService) (c : Callback) : UvService := { s with log := s.log ++ [c] }

/-- The service as the handler sees it in `on_newsession`. -/
def inNewsession (s : UvService) (p : Nat) : UvService :=
  { s with mSessions := s.mSessions.insertIfNew (s.heap p).mId p }.withCallback (.newsession p)

/-- The service as the handler sees it in `on_newconnection`. -/
def inNewconnection (s : UvService) (q : Nat) : UvService :=
  { s with mConnections := s.mConnections.insertIfNew (s.heap q).mId q }.withCallback
    (.newconnection q)

/-- The service as the handler sees it in `on_closesession`. -/
def inClosesession (s : UvService) (id : Int) (p : Nat) : UvService :=
  { s with mSessions := s.mSessions.erase id }.withCallback (.closesession p)

/-- The service as the handler sees it in `on_closeconnection`. -/
def inCloseconnection (s : UvService) (id : Int) (p : Nat) : UvService :=
  { s with mConnections := s.mConnections.erase id }.withCallback (.closeconnection p)

@[simp] theorem withSession_self (s : UvService) (p : Nat) (f : UvSession → UvSession) :
    (s.withSession p f).heap p = f (s.heap p) := Function.update_self _ _ _

@[simp] theorem withSession_of_ne (s : UvService) (f : UvSession → UvSession) (h : q ≠ p) :
    (s.withSession p f).heap q = s.heap q := Function.update_of_ne h _ _

@[simp] theorem withNew_self (s : UvService) (ipv6 : Bool) (fresh : Fresh)
    (e : Option Endpoint) : (s.withNew ipv6 fresh e).heap s.created =
      ⟨Int.bmod (s.nextId + 1) (2 ^ 32), ipv6, UvPacket.new fresh, UvTcp.init, false, e⟩ :=
  Function.update_self _ _ _

@[simp] theorem withNew_of_ne (s : UvService) (ipv6 : Bool) (fresh : Fresh)
    (e : Option Endpoint) (h : q ≠ s.created) :
    (s.withNew ipv6 fresh e).heap q = s.heap q := Function.update_of_ne h _ _

end UvService

open UvService

/-- What becomes of outgoing connects: in the text of which ones `connect` may find an
address, and whether `uv_tcp_connect` may accept one. -/
structure Dials where
  finds : Endpoint → Prop
  accepts : Prop

/-- The moves of the service.  `accepted` is the stretch of `on_accept` from the
creation of the session to the callback. -/
inductive Move (D : Dials) : UvService → UvService → Prop
  | fault (s : UvService) (f : Fault) : Move D s (s.withFault f)
  | session (s : UvService) (p : Nat) (f : UvSession → UvSession)
      (h : (s.heap p).Kept (f (s.heap p))) : Move D s (s.withSession p f)
  | created (s : UvService) (ipv6 : Bool) (fresh : Fresh) (e : Option Endpoint) :
      Move D s (s.withNew ipv6 fresh e)
  | accepted (s : UvService) (ipv6 : Bool) (fresh : Fresh) (f : UvSession → UvSession)
      (h : ∀ u : UvSession, u.Kept (f u)) :
      Move D s (((s.withNew ipv6 fresh none).withSession s.created f).inNewsession s.created)
  | connecting (s : UvService) (p : Nat) (e : Endpoint) (h : p < s.created)
      (he : (s.heap p).endpoint = some e) (hd : D.finds e) :
      Move D s { s with mConnect := some p }
  | requested (s : UvService) (p : Nat) (hd : D.accepts) :
      Move D s { s with pending := s.pending ++ [p] }
  | completed (s : UvService) (p : Nat) : Move D s { s with pending := s.pending.erase p }
  | queued (s : UvService) (ps : List Nat) : Move D s { s with handleQueue := ps }
  | connected (s : UvService) (q : Nat) (h : s.mConnect = some q) (hd : D.accepts) :
      Move D s (s.inNewconnection q)
  | received (s : UvService) (p : Nat) (data : List UInt8) :
      Move D s (s.withCallback (.tcpreceive p data))
  | closedSession (s : UvService) (id : Int) (p : Nat) (h : s.getsession id = some p) :
      Move D s (s.inClosesession id p)
  | closedConnection (s : UvService) (id : Int) (p : Nat) (h : s.getconnection id = some p) :
      Move D s (s.inCloseconnection id p)

/-- The moves, whatever is dialled. -/
abbrev Change : UvService → UvService → Prop := Move ⟨fun _ => True, True⟩

/-! ## What the small functions compute -/

section Run

variable {s : UvService} {p : Nat}

theorem session_run : session p s = .ok (s.heap p) s := rfl

theorem updateSession_run (f : UvSession → UvSession) :
    updateSession p f s = .ok () (s.withSession p f) := rfl

theorem newSession_run (ipv6 : Bool) (fresh : Fresh) (e : Option Endpoint) :
    newSession ipv6 fresh e s = .ok s.created (s.withNew ipv6 fresh e) := rfl

/-- A use is recorded if it comes too late. -/
theorem touch_run :
    touch p s = .ok () (if (s.heap p).deleted then s.withFault (.useAfterDelete p) else s) := by
  change onlyIf ((s.heap p).deleted = true) (fault (.useAfterDelete p)) s = _
  unfold onlyIf
  split <;> rfl

/-- So is each of several uses. -/
theorem touchAll_run (ps : List Nat) :
    touchAll ps s = .ok () { s with faults := s.faults ++ s.usedDeleted ps } := by
  induction ps generalizing s with
  | nil => simp [touchAll, usedDeleted, pure, EStateM.pure]
  | cons p ps ih =>
      rw [touchAll, bind_of_ok touch_run, ih]
      cases hp : (s.heap p).deleted with
      | false => simp [usedDeleted, hp]
      | true => simp [usedDeleted, hp, withFault]

/-- `uv_tcp_init` writes into the handle that was last in the list. -/
theorem uvTcpInit_run (r : Int) : uvTcpInit p r s = .ok () (s.withHandle p r) := by
  unfold uvTcpInit onlyIf
  rw [bind_of_ok (show (get : Svc UvService) s = .ok s s from rfl), bind_of_ok (touchAll_run _)]
  by_cases hr : r = 0
  · rw [if_pos hr, withHandle, if_pos hr]
    rfl
  · rw [if_neg hr, withHandle, if_neg hr]
    rfl

/-- The handle's neighbours in the list are written to. -/
theorem queueRemove_run : queueRemove p s = .ok ()
    { s with
      faults := s.faults ++ s.usedDeleted (neighbours p s.handleQueue)
      handleQueue := s.handleQueue.erase p } := by
  unfold queueRemove
  rw [bind_of_ok (show (get : Svc UvService) s = .ok s s from rfl), bind_of_ok (touchAll_run _)]
  rfl

end Run

/-- Only session `p` differs, and of it neither the id nor the endpoint. -/
structure Quiet (p : Nat) (s t : UvService) : Prop where
  nextId : t.nextId = s.nextId
  created : t.created = s.created
  mSessions : t.mSessions = s.mSessions
  mConnections : t.mConnections = s.mConnections
  mConnect : t.mConnect = s.mConnect
  pending : t.pending = s.pending
  log : t.log = s.log
  others : ∀ q, q ≠ p → t.heap q = s.heap q
  mId : (t.heap p).mId = (s.heap p).mId
  endpoint : (t.heap p).endpoint = (s.heap p).endpoint

instance (p : Nat) : Std.Refl (Quiet p) :=
  ⟨fun _ => ⟨rfl, rfl, rfl, rfl, rfl, rfl, rfl, fun _ _ => rfl, rfl, rfl⟩⟩

instance (p : Nat) : IsTrans UvService (Quiet p) where
  trans _ _ _ h k :=
    ⟨k.nextId.trans h.nextId, k.created.trans h.created, k.mSessions.trans h.mSessions,
      k.mConnections.trans h.mConnections, k.mConnect.trans h.mConnect,
      k.pending.trans h.pending, k.log.trans h.log,
      fun q hq => (k.others q hq).trans (h.others q hq), k.mId.trans h.mId,
      k.endpoint.trans h.endpoint⟩

/-- The ids of all sessions are as before. -/
theorem Quiet.ids (h : Quiet p s t) (q : Nat) : (t.heap q).mId = (s.heap q).mId := by
  by_cases hq : q = p
  · subst hq; exact h.mId
  · rw [h.others q hq]

/-- `getsession` only looks at the table and at the ids of the sessions. -/
theorem Quiet.getsession (h : Quiet p s t) (id : Int) : t.getsession id = s.getsession id := by
  simp only [UvService.getsession, h.mSessions, h.ids]

section Quiet

variable {p : Nat}

theorem quiet_onlyIf {c : Prop} [Decidable c] {x : Svc Unit} (h : Returns (Quiet p) x) :
    Returns (Quiet p) (onlyIf c x) :=
  Returns.ite h (Returns.pure ())

theorem quiet_session (q : Nat) : Returns (Quiet p) (session q) :=
  fun s => ⟨s.heap q, s, rfl, Std.Refl.refl s⟩

theorem quiet_fault (f : Fault) : Returns (Quiet p) (fault f) :=
  Returns.modify fun _ => ⟨rfl, rfl, rfl, rfl, rfl, rfl, rfl, fun _ _ => rfl, rfl, rfl⟩

theorem quiet_updateSession {f : UvSession → UvSession} (hid : ∀ u, (f u).mId = u.mId)
    (he : ∀ u, (f u).endpoint = u.endpoint) : Returns (Quiet p) (updateSession p f) :=
  Returns.modify fun _ => ⟨rfl, rfl, rfl, rfl, rfl, rfl, rfl,
    fun _ hq => Function.update_of_ne hq _ _, by simp [hid], by simp [he]⟩

theorem quiet_touch (q : Nat) : Returns (Quiet p) (touch q) :=
  Returns.bind (quiet_session q) fun _ => quiet_onlyIf (quiet_fault _)

theorem quiet_close (polled : Bool) : Returns (Quiet p) (close p polled) :=
  Returns.bind (quiet_touch p) fun _ => Returns.bind (quiet_session p) fun _ =>
    quiet_onlyIf (quiet_updateSession (fun _ => rfl) fun _ => rfl)

theorem quiet_deleteSession (polled : Bool) : Returns (Quiet p) (deleteSession p polled) :=
  Returns.bind (quiet_close polled) fun _ => Returns.bind (quiet_session p) fun _ =>
    Returns.bind (quiet_onlyIf (quiet_fault _)) fun _ => Returns.bind (quiet_session p) fun _ =>
      Returns.bind (quiet_onlyIf (quiet_fault _)) fun _ =>
        quiet_updateSession (fun _ => rfl) fun _ => rfl

end Quiet

/-! ## What the two closes compute -/

section Close

variable {s t : UvService} {id : Int} {p : Nat} {polls : Polls}

/-- `closesession` of a registered client, from where its handle was closed. -/
theorem closesession_run (hp : s.getsession id = some p)
    (hclose : close p polls.atClose s = .ok () t) (handler : Svc Unit) :
    closesession id polls handler s =
      (handler >>= fun _ => deleteSession p polls.atDelete) (t.inClosesession id p) := by
  unfold closesession
  rw [bind_of_ok (show (get : Svc UvService) s = .ok s s from rfl), hp]
  exact bind_of_ok hclose

/-- `closeconnection` of a registered connection, from where its handle was closed. -/
theorem closeconnection_run (hp : s.getconnection id = some p)
    (hclose : close p polls.atClose s = .ok () t) (handler : Svc Unit) :
    closeconnection id polls handler s =
      (handler >>= fun _ => deleteSession p polls.atDelete) (t.inCloseconnection id p) := by
  unfold closeconnection
  rw [bind_of_ok (show (get : Svc UvService) s = .ok s s from rfl), hp]
  exact bind_of_ok hclose

/-- `closesession` of a registered client: the handle is closed, the handler sees
the table without the client, and then the session is deleted. -/
theorem closesession_found (hp : s.getsession id = some p) (polls : Polls) :
    ∃ t, Quiet p s t ∧ ∀ handler : Svc Unit, closesession id polls handler s =
      (handler >>= fun _ => deleteSession p polls.atDelete) (t.inClosesession id p) := by
  obtain ⟨_, t, ht, hq⟩ := quiet_close (p := p) polls.atClose s
  exact ⟨t, hq, fun handler => closesession_run hp ht handler⟩

/-- `closesession` of an id that is not registered does nothing. -/
theorem closesession_none (hp : s.getsession id = none) (polls : Polls)
    (handler : Svc Unit) : closesession id polls handler s = .ok () s := by
  unfold closesession
  rw [bind_of_ok (show (get : Svc UvService) s = .ok s s from rfl), hp]
  rfl

/-- `closeconnection` of a registered connection. -/
theorem closeconnection_found (hp : s.getconnection id = some p) (polls : Polls) :
    ∃ t, Quiet p s t ∧ ∀ handler : Svc Unit, closeconnection id polls handler s =
      (handler >>= fun _ => deleteSession p polls.atDelete) (t.inCloseconnection id p) := by
  obtain ⟨_, t, ht, hq⟩ := quiet_close (p := p) polls.atClose s
  exact ⟨t, hq, fun handler => closeconnection_run hp ht handler⟩

/-- `closeconnection` of an id that is not registered does nothing. -/
theorem closeconnection_none (hp : s.getconnection id = none) (polls : Polls)
    (handler : Svc Unit) : closeconnection id polls handler s = .ok () s := by
  unfold closeconnection
  rw [bind_of_ok (show (get : Svc UvService) s = .ok s s from rfl), hp]
  rfl

end Close

/-! ## Every function makes moves -/

section Moves

variable {D : Dials} {s : UvService} {p : Nat} {handler : Svc Unit}

theorem reaches_fault (f : Fault) : Reaches (Move D) (fault f) s :=
  Reaches.modify (Move.fault s f)

theorem reaches_updateSession {f : UvSession → UvSession}
    (h : (s.heap p).Kept (f (s.heap p))) : Reaches (Move D) (updateSession p f) s :=
  Reaches.modify (Move.session s p f h)

/-- Changing only the TCP handle keeps the session. -/
theorem kept_tcp (u : UvSession) (t : UvTcp) : u.Kept { u with mTcp := t } :=
  ⟨rfl, rfl, id⟩

theorem reaches_onlyIf {c : Prop} [Decidable c] {x : Svc Unit} (h : c → Reaches (Move D) x s) :
    Reaches (Move D) (onlyIf c x) s :=
  Reaches.ite h fun _ => Reaches.pure _ _

theorem reaches_touch : Reaches (Move D) (touch p) s := by
  refine Reaches.bind (Reaches.pure _ _) fun u s' _ => ?_
  exact reaches_onlyIf fun _ => reaches_fault _

theorem reaches_close (polled : Bool) : Reaches (Move D) (close p polled) s := by
  refine Reaches.bind reaches_touch fun _ s' _ => ?_
  refine Reaches.bind (Reaches.pure _ _) fun u s'' _ => ?_
  exact reaches_onlyIf fun _ => reaches_updateSession (kept_tcp _ _)

/-- Freeing takes the receive buffer away. -/
theorem kept_free (u : UvSession) :
    u.Kept { u with mPacket := u.mPacket.free, deleted := true } :=
  ⟨rfl, rfl, fun _ => .inl ⟨rfl, rfl⟩⟩

theorem reaches_deleteSession (polled : Bool) : Reaches (Move D) (deleteSession p polled) s := by
  refine Reaches.bind (reaches_close polled) fun _ s' _ => ?_
  refine Reaches.bind (Reaches.pure _ _) fun u s'' _ => ?_
  refine Reaches.bind (reaches_onlyIf fun _ => reaches_fault _) fun _ t _ => ?_
  refine Reaches.bind (Reaches.pure _ _) fun v t' _ => ?_
  refine Reaches.bind (reaches_onlyIf fun _ => reaches_fault _) fun _ w _ => ?_
  exact reaches_updateSession (kept_free _)

/-- What does not take the receive buffer away keeps the session. -/
theorem kept_head (u : UvSession) (packet : UvPacket)
    (hempty : u.mPacket.mHead = UvBuf.empty → packet.mHead = UvBuf.empty)
    (hhead : u.mPacket.mHead.IsHead → packet.mHead.IsHead) :
    u.Kept { u with mPacket := packet } := by
  refine ⟨rfl, rfl, ?_⟩
  rintro (⟨hdeleted, hnone⟩ | ⟨hlive, hblock⟩)
  · exact .inl ⟨hdeleted, hempty hnone⟩
  · exact .inr ⟨hlive, hhead hblock⟩

/-- Clearing keeps the receive buffer in place. -/
theorem kept_clear (u : UvSession) : u.Kept { u with mPacket := u.mPacket.clear } := by
  apply kept_head
  · intro hnone
    simp only [UvPacket.clear, UvBuf.zero, hnone, UvBuf.empty]
  · rintro ⟨bs, hhead, hlen⟩
    refine ⟨zeroFront packetBufferSize bs, ?_, ?_⟩
    · simp only [UvPacket.clear, UvBuf.zero, hhead]
    · rw [length_zeroFront (Nat.le_of_eq hlen.symm), hlen]

theorem reaches_clearPacket : Reaches (Move D) (clearPacket p) s := by
  refine Reaches.bind reaches_touch fun _ s' _ => ?_
  refine Reaches.bind (Reaches.pure _ _) fun u s'' _ => ?_
  refine Reaches.bind (reaches_onlyIf fun _ => reaches_fault _) fun _ t _ => ?_
  exact reaches_updateSession (kept_clear _)

theorem reaches_uvReadStart (L : Libuv) (phase : Phase) :
    Reaches (Move D) (uvReadStart L p phase) s := by
  refine Reaches.bind reaches_touch fun _ s' _ => ?_
  refine Reaches.bind (Reaches.pure _ _) fun u s'' _ => ?_
  refine Reaches.bind (reaches_onlyIf fun _ => ?_) fun _ t _ => Reaches.pure _ _
  exact reaches_updateSession (kept_tcp _ _)

theorem reaches_receiveHead (L : Libuv) : Reaches (Move D) (receiveHead L p) s :=
  Reaches.bind reaches_clearPacket fun _ _ _ => reaches_uvReadStart L .head

/-- `closesession` moves as its handler does. -/
theorem reaches_closesession (hh : ∀ s, Reaches (Move D) handler s) (id : Int) (polls : Polls) :
    Reaches (Move D) (closesession id polls handler) s := by
  refine Reaches.bind (Reaches.pure _ _) fun s₁ s₂ h => ?_
  cases h
  cases hp : s.getsession id with
  | none => exact Reaches.pure _ _
  | some p =>
      refine Reaches.bind (reaches_close _) fun _ t ht => ?_
      have hq : t.getsession id = some p := by
        rw [((quiet_close _).ok ht).getsession]; exact hp
      have htail : Reaches (Move D) (do handler; deleteSession p polls.atDelete)
          (t.inClosesession id p) :=
        Reaches.bind (hh _) fun _ _ _ => reaches_deleteSession _
      exact htail.head (Move.closedSession t id p hq)

theorem reaches_closeconnection (hh : ∀ s, Reaches (Move D) handler s) (id : Int)
    (polls : Polls) : Reaches (Move D) (closeconnection id polls handler) s := by
  refine Reaches.bind (Reaches.pure _ _) fun s₁ s₂ h => ?_
  cases h
  cases hp : s.getconnection id with
  | none => exact Reaches.pure _ _
  | some p =>
      refine Reaches.bind (reaches_close _) fun _ t ht => ?_
      have hq : t.getconnection id = some p := by
        rw [UvService.getconnection, ((quiet_close _).ok ht).mConnections]; exact hp
      have htail : Reaches (Move D) (do handler; deleteSession p polls.atDelete)
          (t.inCloseconnection id p) :=
        Reaches.bind (hh _) fun _ _ _ => reaches_deleteSession _
      exact htail.head (Move.closedConnection t id p hq)

theorem reaches_onTcpreceive (hh : ∀ s, Reaches (Move D) handler s) (data : List UInt8) :
    Reaches (Move D) (onTcpreceive p data handler) s :=
  Reaches.bind (Reaches.modify (Move.received s p data)) fun _ _ _ => hh _

theorem reaches_assertAt (site : Site) (c : Prop) [Decidable c] :
    Reaches (Move D) (assertAt site c) s :=
  Reaches.ite (fun _ => Reaches.pure _ _) fun _ => Reaches.throw _ _

/-- Storing bytes keeps the receive buffer in place. -/
theorem kept_fill (u : UvSession) (chunk : List UInt8) :
    u.Kept { u with mPacket := { u.mPacket with mHead := u.mPacket.mHead.fill chunk } } := by
  apply kept_head
  · intro hnone
    simp only [UvBuf.fill, hnone, UvBuf.empty]
  · rintro ⟨bs, hhead, hlen⟩
    refine ⟨copyAt bs 0 chunk, ?_, ?_⟩
    · simp only [UvBuf.fill, hhead]
    · rw [length_copyAt, hlen]

/-- Storing the length of a packet keeps the receive buffer in place. -/
theorem kept_length (u : UvSession) (n : Nat) :
    u.Kept { u with mPacket := { u.mPacket with mLength := n } } :=
  kept_head u _ id id

/-- Storing the body of a packet keeps the receive buffer in place. -/
theorem kept_body (u : UvSession) (b : UvBuf) :
    u.Kept { u with mPacket := { u.mPacket with mBody := b } } :=
  kept_head u _ id id

theorem kept_allocBody (u : UvSession) :
    u.Kept { u with mPacket := u.mPacket.allocBody.1 } := by
  unfold UvPacket.allocBody
  split
  · exact kept_body u _
  · exact kept_body u _

theorem reaches_uvCallback {cb : Svc Unit} (hcb : Reaches (Move D) cb s) :
    Reaches (Move D) (uvCallback p cb) s :=
  Reaches.bind hcb fun _ _ _ => reaches_touch

section Receive

variable (L : Libuv) (hh : ∀ s, Reaches (Move D) handler s) (nread : Int) (polls : Polls)

include hh

theorem reaches_receiveFailed (site : Site) :
    Reaches (Move D) (receiveFailed L site p nread polls handler) s := by
  refine Reaches.bind reaches_clearPacket fun _ s' _ => ?_
  refine Reaches.ite (fun _ => ?_) fun _ => Reaches.pure _ _
  refine Reaches.bind (Reaches.pure _ _) fun u s'' _ => ?_
  refine Reaches.bind (reaches_closesession hh _ _) fun _ t _ => ?_
  exact reaches_onlyIf fun _ => reaches_assertAt _ _

/-- `on_receive_head` moves as the handler does. -/
theorem reaches_onReceiveHead :
    Reaches (Move D) (onReceiveHead L p nread polls handler) s := by
  refine Reaches.bind reaches_touch fun _ s' _ => ?_
  refine Reaches.bind (Reaches.pure _ _) fun u s'' _ => ?_
  refine Reaches.ite (fun _ => ?_) fun _ => reaches_receiveFailed L hh nread polls _
  refine Reaches.bind (reaches_updateSession (kept_length _ _)) fun _ t _ => ?_
  refine Reaches.bind (Reaches.pure _ _) fun v t' _ => ?_
  refine Reaches.ite (fun _ => (reaches_uvReadStart L .body).discard) fun _ => ?_
  refine Reaches.bind (reaches_onTcpreceive hh _) fun _ w _ => ?_
  exact Reaches.bind reaches_clearPacket fun _ _ _ => (reaches_receiveHead L).discard

/-- So does `on_receive_body`. -/
theorem reaches_onReceiveBody :
    Reaches (Move D) (onReceiveBody L p nread polls handler) s := by
  refine Reaches.bind reaches_touch fun _ s' _ => ?_
  refine Reaches.bind (Reaches.pure _ _) fun u s'' _ => ?_
  refine Reaches.ite (fun _ => ?_) fun _ => reaches_receiveFailed L hh nread polls _
  refine Reaches.bind (reaches_updateSession (kept_length _ _)) fun _ t _ => ?_
  refine Reaches.bind (Reaches.pure _ _) fun v t' _ => ?_
  refine Reaches.bind (reaches_onTcpreceive hh _) fun _ w _ => ?_
  exact Reaches.bind reaches_clearPacket fun _ _ _ => (reaches_receiveHead L).discard

theorem reaches_uvRead (chunk : List UInt8) :
    Reaches (Move D) (uvRead L p chunk polls handler) s := by
  refine Reaches.bind (Reaches.pure _ _) fun u s' _ => ?_
  cases u.mTcp.reading with
  | none => exact Reaches.pure _ _
  | some phase =>
      cases phase with
      | head =>
          refine Reaches.bind reaches_touch fun _ t _ => ?_
          refine Reaches.bind (Reaches.pure _ _) fun v t' ht => ?_
          cases ht
          refine Reaches.ite
            (fun _ => reaches_uvCallback (reaches_onReceiveHead L hh _ polls)) fun _ => ?_
          refine Reaches.ite (fun _ => ?_) fun _ => Reaches.pure _ _
          exact Reaches.bind (reaches_updateSession (kept_fill _ _))
            fun _ _ _ => reaches_uvCallback (reaches_onReceiveHead L hh _ polls)
      | body =>
          refine Reaches.bind reaches_touch fun _ t _ => ?_
          refine Reaches.bind (Reaches.pure _ _) fun v t' ht => ?_
          cases ht
          refine Reaches.bind (reaches_onlyIf fun _ => reaches_fault _) fun _ w hw => ?_
          have hheap : w.heap p = t.heap p := by
            have hq := (quiet_onlyIf (p := p + 1) (quiet_fault _)).ok hw
            exact hq.others p (Nat.ne_of_lt (Nat.lt_succ_self p))
          refine Reaches.bind (reaches_updateSession ?_) fun _ _ _ => ?_
          · rw [hheap]
            exact kept_allocBody _
          refine Reaches.ite
            (fun _ => reaches_uvCallback (reaches_onReceiveBody L hh _ polls)) fun _ => ?_
          refine Reaches.ite (fun _ => ?_) fun _ => Reaches.pure _ _
          exact Reaches.bind (reaches_updateSession (kept_body _ _))
            fun _ _ _ => reaches_uvCallback (reaches_onReceiveBody L hh _ polls)

theorem reaches_uvReadError : Reaches (Move D) (uvReadError L p nread polls handler) s := by
  refine Reaches.bind (Reaches.pure _ _) fun u s' _ => ?_
  cases u.mTcp.reading with
  | none => exact Reaches.pure _ _
  | some phase =>
      refine Reaches.bind (reaches_updateSession (kept_tcp _ _)) fun _ t _ => ?_
      refine reaches_uvCallback ?_
      cases phase with
      | head => exact reaches_onReceiveHead L hh nread polls
      | body => exact reaches_onReceiveBody L hh nread polls

end Receive

theorem reaches_newSession (ipv6 : Bool) (fresh : Fresh) (e : Option Endpoint) :
    Reaches (Move D) (newSession ipv6 fresh e) s :=
  ReflTransGen.single (Move.created s ipv6 fresh e)

/-- Faults and the queue of handles change by moves. -/
theorem moves_queue (s : UvService) (fs : List Fault) (ps : List Nat) :
    ReflTransGen (Move D) s { s with faults := s.faults ++ fs, handleQueue := ps } := by
  induction fs generalizing s with
  | nil =>
      rw [List.append_nil]
      exact .single (Move.queued s ps)
  | cons f fs ih =>
      have hrest := ih (s.withFault f)
      simp only [withFault, List.append_assoc, List.singleton_append] at hrest
      exact .head (Move.fault s f) hrest

theorem reaches_uvTcpInit (r : Int) : Reaches (Move D) (uvTcpInit p r) s := by
  unfold Reaches
  rw [uvTcpInit_run]
  exact moves_queue s _ _

theorem reaches_queueRemove : Reaches (Move D) (queueRemove p) s := by
  unfold Reaches
  rw [queueRemove_run]
  exact moves_queue s _ _

/-- `on_accept` adds a session. -/
theorem reaches_onAccept (L : Libuv) (hh : ∀ s, Reaches (Move D) handler s) (env : AcceptEnv) :
    Reaches (Move D) (onAccept L env handler) s := by
  refine Reaches.bind (reaches_assertAt _ _) fun _ s' _ => ?_
  by_cases hinit : env.rInit ≠ 0
  · refine Reaches.bind (reaches_newSession _ _ _) fun p t _ => ?_
    refine Reaches.bind (reaches_uvTcpInit _) fun _ t' _ => ?_
    rw [if_pos hinit]
    exact Reaches.bind (reaches_deleteSession _) fun _ _ _ => Reaches.throw _ _
  by_cases haccept : env.rAccept ≠ 0
  · refine Reaches.bind (reaches_newSession _ _ _) fun p t _ => ?_
    refine Reaches.bind (reaches_uvTcpInit _) fun _ t' _ => ?_
    rw [if_neg hinit, if_pos haccept]
    exact Reaches.bind (reaches_updateSession (kept_tcp _ _)) fun _ _ _ =>
      reaches_deleteSession _
  simp only [if_neg hinit, if_neg haccept]
  let readable : UvSession → UvSession :=
    fun u => { u with mTcp := { u.mTcp with readable := true } }
  -- `uv_tcp_init` might as well have come first: it does not look at the new session
  let queue := (s'.withNew env.ipv6 env.fresh none).withHandle s'.created env.rInit
  let s₁ : UvService := { s' with faults := queue.faults, handleQueue := queue.handleQueue }
  have htail : Reaches (Move D) (do
      handler
      let r ← receiveHead L s'.created
      assertAt .onAcceptReceive (r = 0))
      (((s₁.withNew env.ipv6 env.fresh none).withSession s'.created readable).inNewsession
        s'.created) :=
    Reaches.bind (hh _) fun _ _ _ => Reaches.bind (reaches_receiveHead L)
      fun _ _ _ => reaches_assertAt _ _
  have hmoves : ReflTransGen (Move D) s'
      (((s₁.withNew env.ipv6 env.fresh none).withSession s'.created readable).inNewsession
        s'.created) :=
    (moves_queue s' _ _).tail (Move.accepted s₁ _ _ readable fun u => kept_tcp u _)
  unfold Reaches at htail ⊢
  rw [bind_of_ok (newSession_run _ _ _), bind_of_ok (uvTcpInit_run _)]
  exact hmoves.trans htail

/-- `connect` adds one that is dialled, if its text parses and libuv takes it. -/
theorem reaches_connect (L : Libuv) (e : Endpoint) (env : ConnectEnv)
    (hfinds : connectParses L e = true → D.finds e)
    (haccepts : connectResult L env = 0 → D.accepts) :
    Reaches (Move D) (connect L e env) s := by
  refine Reaches.bind (reaches_newSession _ _ _) fun p t₁ ht₁ => ?_
  refine Reaches.bind (reaches_uvTcpInit _) fun _ t ht => ?_
  have hp : p = s.created := by cases ht₁; rfl
  have ht' : t = (s.withNew e.ipv6 env.fresh (some e)).withHandle s.created env.rInit := by
    cases ht₁
    rw [uvTcpInit_run] at ht
    cases ht
    rfl
  refine Reaches.bind (reaches_assertAt _ _) fun _ t₂ ht₂ => ?_
  have hsame : t₂ = t := by
    revert ht₂
    unfold assertAt
    split
    · intro h; cases h; rfl
    · intro h; cases h
  refine Reaches.ite (fun hparse => ?_) fun _ => ?_
  · refine Reaches.bind (Reaches.modify (Move.connecting t₂ p e ?_ ?_ (hfinds hparse)))
      fun _ t₃ _ => ?_
    · rw [hsame, ht', hp]; exact Nat.lt_succ_self _
    · rw [hsame, ht', hp]; simp [withHandle]
    refine Reaches.ite (fun hconn => ?_) fun _ => ?_
    · exact Reaches.bind (Reaches.modify (Move.requested t₃ p (haccepts hconn)))
        fun _ _ _ => Reaches.pure _ _
    · refine Reaches.bind (reaches_close _) fun _ _ _ => ?_
      exact Reaches.bind (reaches_deleteSession _) fun _ _ _ => Reaches.throw _ _
  · refine Reaches.bind (reaches_close _) fun _ _ _ => ?_
    exact Reaches.bind (reaches_deleteSession _) fun _ _ _ => Reaches.throw _ _

/-- `on_connect` announces the session that was dialled last. -/
theorem reaches_onConnect (L : Libuv) (hd : D.accepts) (hh : ∀ s, Reaches (Move D) handler s)
    {closing : Svc Unit} (hc : ∀ s, Reaches (Move D) closing s) (status : Int) (polls : Polls) :
    Reaches (Move D) (onConnect L status polls handler closing) s := by
  refine Reaches.bind (Reaches.pure _ _) fun s₁ s₂ h => ?_
  cases h
  cases hq : s.mConnect with
  | none => exact Reaches.pure _ _
  | some q =>
      refine Reaches.ite (fun _ => ?_) fun _ => ?_
      · have htail : Reaches (Move D) (do
            handler
            let r ← receiveHead L q
            if r ≠ 0 then
              let id := (← session q).mId
              closeconnection id polls closing
              throw .onConnectReceive) (s.inNewconnection q) := by
          refine Reaches.bind (hh _) fun _ _ _ => ?_
          refine Reaches.bind (reaches_receiveHead L) fun _ _ _ => ?_
          refine Reaches.ite (fun _ => ?_) fun _ => Reaches.pure _ _
          refine Reaches.bind (Reaches.pure _ _) fun _ _ _ => ?_
          exact Reaches.bind (reaches_closeconnection hc _ _) fun _ _ _ => Reaches.throw _ _
        exact htail.head (Move.connected s q hq hd)
      · refine Reaches.bind (reaches_close _) fun _ _ _ => ?_
        exact Reaches.bind (reaches_deleteSession _) fun _ _ _ => Reaches.throw _ _

theorem reaches_uvConnected (L : Libuv) (hd : D.accepts) (hh : ∀ s, Reaches (Move D) handler s)
    {closing : Svc Unit} (hc : ∀ s, Reaches (Move D) closing s) (status : Int)
    (names : SockNames) (polls : Polls) :
    Reaches (Move D) (uvConnected L p status names polls handler closing) s := by
  refine Reaches.bind (Reaches.pure _ _) fun s₁ s₂ _ => ?_
  refine Reaches.ite (fun _ => ?_) fun _ => Reaches.pure _ _
  refine Reaches.bind (Reaches.modify (Move.completed s₂ p)) fun _ _ _ => ?_
  refine Reaches.bind reaches_touch fun _ _ _ => ?_
  refine Reaches.bind (reaches_onlyIf fun _ => reaches_updateSession (kept_tcp _ _))
    fun _ _ _ => ?_
  exact reaches_uvCallback (reaches_onConnect L hd hh hc status polls)

/-- Every connect of a handler, in the callbacks it leads to as well, is as `D` says. -/
def Script.Within (L : Libuv) (D : Dials) : Script → Prop
  | .ret => True
  | .closesession _ _ nested next => nested.Within L D ∧ next.Within L D
  | .closeconnection _ _ nested next => nested.Within L D ∧ next.Within L D
  | .connect e env next =>
      (connectParses L e = true → D.finds e) ∧ (connectResult L env = 0 → D.accepts) ∧
        next.Within L D

/-- Every connect of the handlers of an event is as `D` says. -/
def Event.Within (L : Libuv) (D : Dials) : Event → Prop
  | .accept _ script => script.Within L D
  | .connected _ _ _ _ script closing => D.accepts ∧ script.Within L D ∧ closing.Within L D
  | .read _ _ _ script => script.Within L D
  | .readError _ _ _ script => script.Within L D
  | .update script => script.Within L D
  | .sent _ => True
  | .closed _ => True

/-- What is true of all connects is true of those of a handler. -/
theorem Script.within_of (hfinds : ∀ e, connectParses L e = true → D.finds e)
    (haccepts : D.accepts) (script : Script) : script.Within L D := by
  induction script with
  | ret => trivial
  | closesession _ _ _ _ ihn ihx => exact ⟨ihn, ihx⟩
  | closeconnection _ _ _ _ ihn ihx => exact ⟨ihn, ihx⟩
  | connect e env next ihx => exact ⟨hfinds e, fun _ => haccepts, ihx⟩

theorem Event.within_of (hfinds : ∀ e, connectParses L e = true → D.finds e)
    (haccepts : D.accepts) (e : Event) : e.Within L D := by
  have hscript := Script.within_of hfinds haccepts
  cases e with
  | accept env script => exact hscript script
  | connected p status names polls script closing =>
      exact ⟨haccepts, hscript script, hscript closing⟩
  | read p chunk polls script => exact hscript script
  | readError p nread polls script => exact hscript script
  | update script => exact hscript script
  | sent status => trivial
  | closed p => trivial

/-- A handler only makes moves, whatever it does. -/
theorem moves_script {script : Script} (h : script.Within L D) (s : UvService) :
    Reaches (Move D) (script.run L) s := by
  induction script generalizing s with
  | ret => exact Reaches.pure _ _
  | closesession id polls nested next ihn ihx =>
      exact Reaches.bind (reaches_closesession (ihn h.1) id polls) fun _ _ _ => ihx h.2 _
  | closeconnection id polls nested next ihn ihx =>
      exact Reaches.bind (reaches_closeconnection (ihn h.1) id polls) fun _ _ _ => ihx h.2 _
  | connect e env next ihx =>
      exact Reaches.bind (reaches_connect L e env h.1 h.2.1).discard fun _ _ _ => ihx h.2.2 _

/-- **Moves**: handling an event only makes moves. -/
theorem moves_step {e : Event} (h : e.Within L D) (s : UvService) :
    Reaches (Move D) (step L e) s := by
  cases e with
  | accept env script => exact reaches_onAccept L (moves_script h) env
  | connected p status names polls script closing =>
      exact reaches_uvConnected L h.1 (moves_script h.2.1) (moves_script h.2.2) _ _ _
  | read p chunk polls script => exact reaches_uvRead L (moves_script h) polls chunk
  | readError p nread polls script =>
      refine Reaches.ite (fun _ => ?_) fun _ => Reaches.pure _ _
      exact reaches_uvReadError L (moves_script h) nread polls
  | sent status => exact reaches_assertAt _ _
  | closed p =>
      refine Reaches.bind (Reaches.pure _ _) fun _ _ _ => ?_
      refine Reaches.ite (fun _ => ?_) fun _ => Reaches.pure _ _
      refine Reaches.bind reaches_touch fun _ _ _ => ?_
      refine Reaches.bind reaches_queueRemove fun _ _ _ => ?_
      refine Reaches.bind (reaches_updateSession (kept_tcp _ _)) fun _ _ _ => ?_
      exact reaches_onlyIf fun _ => reaches_fault _
  | update script => exact moves_script h s

/-- A handler's script makes changes only. -/
theorem reaches_script (L : Libuv) (script : Script) (s : UvService) :
    Reaches Change (script.run L) s :=
  moves_script (Script.within_of (fun _ _ => trivial) trivial script) s

/-- So does an event. -/
theorem reaches_step (L : Libuv) (e : Event) (s : UvService) : Reaches Change (step L e) s :=
  moves_step (Event.within_of (fun _ _ => trivial) trivial e) s

/-- A run only makes moves. -/
theorem moves_run {es : List Event} (h : ∀ e ∈ es, e.Within L D) (s : UvService) :
    Reaches (Move D) (run L es) s := by
  induction es generalizing s with
  | nil => exact Reaches.pure _ _
  | cons e es ih =>
      exact Reaches.bind (moves_step (h e List.mem_cons_self) s) fun _ _ _ =>
        ih (fun e he => h e (List.mem_cons_of_mem _ he)) _

/-- So does a run. -/
theorem reaches_run (L : Libuv) (es : List Event) (s : UvService) :
    Reaches Change (run L es) s :=
  moves_run (fun e _ => Event.within_of (fun _ _ => trivial) trivial e) s

/-- No move takes a fault back. -/
theorem faults_change (h : Move D s t) : s.faults.length ≤ t.faults.length := by
  cases h <;> simp [withFault, withSession, withNew, inNewsession, inNewconnection,
    inClosesession, inCloseconnection, withCallback]

/-- Code that only makes moves takes no fault back. -/
theorem faults_reaches {x : Svc α} (hx : Reaches Change x s) :
    s.faults.length ≤ (endState (x s)).faults.length :=
  moves_keep (I := fun t => s.faults.length ≤ t.faults.length)
    (fun _ _ hc h => h.trans (faults_change hc)) hx (Nat.le_refl _)

end Moves

/-- **Invariants**: what holds at the start and is kept by every move holds in every
reachable state. -/
theorem reachable_keep {I : UvService → Prop} (hinit : I UvService.init) {L : Libuv}
    (hstep : ∀ s t, Move ⟨fun e => connectParses L e = true, True⟩ s t → I s → I t)
    {s : UvService} (h : Reachable L s) : I s := by
  obtain ⟨es, hrun⟩ := h
  have hmoves : Reaches (Move ⟨fun e => connectParses L e = true, True⟩) (run L es)
      UvService.init :=
    moves_run (fun e _ => Event.within_of (fun _ h => h) trivial e) UvService.init
  unfold Reaches at hmoves
  rw [hrun] at hmoves
  exact moves_keep hstep hmoves hinit

end GEngine
