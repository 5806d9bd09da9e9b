import GEngine.UvService.Tables
import GEngine.UvService.Receive

/-!
# GEngine.UvService.Disconnect

What a disconnect does.  When libuv reports `UV_EOF` or `UV_ECONNRESET` for a
stream, `on_receive_head` and `on_receive_body` both call
`service->closesession(id)`, whether the session is a client or an outgoing
connection.

`disconnect_client` gives the effect for a client; `disconnect_accounted_iff` says
that clients are exactly the sessions for which the tables and the handler end up
as they should.
-/

namespace GEngine

open UvService

/-! ## The error branch of the receive callbacks -/

section Failed

variable (L : Libuv) {p : Nat} {nread : Int} (polls : Polls) (handler : Svc Unit)

/-- For a negative `nread`, `on_receive_head` takes its error branch. -/
theorem onReceiveHead_neg (h : nread < 0) (s : UvService) :
    onReceiveHead L p nread polls handler s =
      (touch p >>= fun _ => receiveFailed L .onReceiveHead p nread polls handler) s := by
  obtain ⟨_, t, ht, -⟩ := quiet_touch (p := p) p s
  unfold onReceiveHead
  rw [bind_of_ok ht, bind_of_ok ht, bind_of_ok session_run, if_neg (by omega)]

/-- For a negative `nread`, `on_receive_body` takes its error branch. -/
theorem onReceiveBody_neg (h : nread < 0) (s : UvService) :
    onReceiveBody L p nread polls handler s =
      (touch p >>= fun _ => receiveFailed L .onReceiveBody p nread polls handler) s := by
  obtain ⟨_, t, ht, -⟩ := quiet_touch (p := p) p s
  have hno : ¬ (t.heap p).mPacket.completesBody nread = true := by
    simp only [UvPacket.completesBody, decide_eq_true_eq]
    omega
  unfold onReceiveBody
  rw [bind_of_ok ht, bind_of_ok ht, bind_of_ok session_run, if_neg hno]

/-- The two codes a disconnect is reported with. -/
def Libuv.IsDisconnect (nread : Int) : Prop := nread = uvEof ∨ nread = L.platform.uvEconnreset

/-- A disconnect is reported as a negative number. -/
theorem Libuv.IsDisconnect.neg (h : L.IsDisconnect nread) : nread < 0 := by
  rcases h with h | h
  · rw [h]; decide
  · rw [h]; cases L.platform <;> decide

/-- The assertion after the close of a session that failed. -/
def failedAssert (L : Libuv) (site : Site) (nread : Int) : Svc Unit :=
  onlyIf (nread ≠ uvEof ∧ nread ≠ L.platform.uvEconnreset) (assertAt site (0 ≤ nread))

/-- The assertion of a callback. -/
def Phase.site : Phase → Site
  | .head => .onReceiveHead
  | .body => .onReceiveBody

/-- A disconnect trips no assertion. -/
theorem failedAssert_disconnect (h : L.IsDisconnect nread) (site : Site) :
    failedAssert L site nread = pure () := by
  have hno : ¬ (nread ≠ uvEof ∧ nread ≠ L.platform.uvEconnreset) := by
    rcases h with h | h <;> simp [h]
  rw [failedAssert, onlyIf, if_neg hno]

/-- On an error the session is closed by its id, and then the assertion is made. -/
theorem receiveFailed_neg (h : nread < 0) (site : Site) (s : UvService) :
    ∃ t, PacketOnly p s t ∧ receiveFailed L site p nread polls handler s =
      (closesession (s.heap p).mId polls handler >>= fun _ => failedAssert L site nread) t := by
  obtain ⟨_, t, ht, hq⟩ := packetOnly_clearPacket (p := p) s
  refine ⟨t, hq, ?_⟩
  unfold receiveFailed
  rw [bind_of_ok ht, if_pos h, bind_of_ok session_run, hq.mId]
  rfl

/-- A read in the body phase: there is no buffer to give, and the session is closed. -/
theorem uvRead_body {s : UvService} (chunk : List UInt8)
    (hread : (s.heap p).mTcp.reading = some .body)
    (hlen : (s.heap p).mPacket.mLength ≠ UvPacket.headLength) :
    ∃ t, PacketOnly p s t ∧ uvRead L p chunk polls handler s =
      uvCallback p (closesession (s.heap p).mId polls handler >>= fun _ =>
        failedAssert L .onReceiveBody L.platform.uvEnobufs) t := by
  obtain ⟨_, s₁, hs₁, hq₁⟩ := packetOnly_touch (p := p) s
  let packet := (s₁.heap p).mPacket
  have hnohead : ¬ (packet.mLength = UvPacket.headLength ∧ 0 < packet.bodylength) :=
    fun hhead => hq₁.mLength hlen hhead.1
  have halloc : packet.allocBody = ({ packet with mBody := UvBuf.empty }, UvBuf.empty) := by
    rw [UvPacket.allocBody, if_neg hnohead]
  have hfault : ∃ t, onlyIf (packet.mBody.base = .wild) (fault (.wildPointer p)) s₁ = .ok () t ∧
      PacketOnly p s₁ t ∧ t.heap = s₁.heap := by
    by_cases hwild : packet.mBody.base = .wild
    · refine ⟨s₁.withFault (.wildPointer p), ?_,
        packetOnly_withFault (.inr ⟨rfl, fun _ => hwild⟩), rfl⟩
      rw [onlyIf, if_pos hwild]
      rfl
    · refine ⟨s₁, ?_, PacketOnly.refl p s₁, rfl⟩
      rw [onlyIf, if_neg hwild]
      rfl
  obtain ⟨s₂, hs₂, hq₂, hheap⟩ := hfault
  have hq₃ : PacketOnly p s₂
      (s₂.withSession p fun u => { u with mPacket := packet.allocBody.1 }) := by
    rw [halloc]
    refine packetOnly_withSession rfl rfl rfl rfl ?_ ?_ ?_
    · rw [hheap]
      exact (kept_body (s₁.heap p) UvBuf.empty).headOk
    · exact fun _ => by simp [UvBuf.empty]
    · rw [hheap]
      exact id
  obtain ⟨_, s₄, hs₄, hq₄⟩ := packetOnly_touch (p := p)
    (s₂.withSession p fun u => { u with mPacket := packet.allocBody.1 })
  have hneg : L.platform.uvEnobufs < 0 := by cases L.platform <;> decide
  obtain ⟨t, hq₅, ht⟩ := receiveFailed_neg L polls handler hneg .onReceiveBody s₄
  have hq := hq₁.trans (hq₂.trans (hq₃.trans hq₄))
  refine ⟨t, hq.trans hq₅, ?_⟩
  unfold uvRead
  rw [bind_of_ok session_run, hread]
  change (touch p >>= _) s = _
  rw [bind_of_ok hs₁, bind_of_ok session_run, bind_of_ok hs₂, bind_of_ok (updateSession_run _)]
  have hnobuf : packet.allocBody.2.isEmpty = true := by
    rw [halloc]
    rfl
  rw [if_pos hnobuf]
  apply bind_of_eq
  rw [onReceiveBody_neg L polls handler hneg, bind_of_ok hs₄, ht, hq.mId]

/-- A session whose stream reads no further. -/
def UvSession.stopped (u : UvSession) : UvSession :=
  { u with mTcp := { u.mTcp with reading := none } }

/-- A stream that does not read reports no error. -/
theorem step_readError_none {s : UvService} (script : Script) (h : nread < 0)
    (hread : (s.heap p).mTcp.reading = none) :
    step L (.readError p nread polls script) s = .ok () s := by
  simp only [step, if_pos h, uvReadError]
  rw [bind_of_ok session_run, hread]
  rfl

/-- A read error of session `p` ends in `closesession` with the id of `p`. -/
theorem step_readError {s : UvService} (script : Script)
    (hread : (s.heap p).mTcp.reading = some phase) (h : nread < 0) :
    ∃ t, PacketOnly p (s.withSession p UvSession.stopped) t ∧
      step L (.readError p nread polls script) s =
        uvCallback p (closesession (s.heap p).mId polls (script.run L) >>= fun _ =>
          failedAssert L phase.site nread) t := by
  obtain ⟨_, s₁, hs₁, hq₁⟩ := packetOnly_touch (p := p) (s.withSession p UvSession.stopped)
  obtain ⟨t, hq₂, ht⟩ := receiveFailed_neg L polls (script.run L) h phase.site s₁
  have hid : (s₁.heap p).mId = (s.heap p).mId := by
    rw [hq₁.mId, withSession_self]
    rfl
  rw [hid] at ht
  refine ⟨t, hq₁.trans hq₂, ?_⟩
  simp only [step, if_pos h, uvReadError]
  rw [bind_of_ok session_run, hread]
  cases phase with
  | head =>
      change (updateSession p UvSession.stopped >>= fun _ =>
        uvCallback p (onReceiveHead L p nread polls (script.run L))) s = _
      rw [bind_of_ok (updateSession_run _)]
      apply bind_of_eq
      rw [onReceiveHead_neg L polls _ h, bind_of_ok hs₁]
      exact ht
  | body =>
      change (updateSession p UvSession.stopped >>= fun _ =>
        uvCallback p (onReceiveBody L p nread polls (script.run L))) s = _
      rw [bind_of_ok (updateSession_run _)]
      apply bind_of_eq
      rw [onReceiveBody_neg L polls _ h, bind_of_ok hs₁]
      exact ht

/-- A disconnect of session `p` is `closesession` with the id of `p`. -/
theorem step_disconnect {s : UvService} (script : Script)
    (hread : (s.heap p).mTcp.reading = some phase) (h : L.IsDisconnect nread) :
    ∃ t, PacketOnly p (s.withSession p UvSession.stopped) t ∧
      step L (.readError p nread polls script) s =
        uvCallback p (closesession (s.heap p).mId polls (script.run L)) t := by
  obtain ⟨t, hq, ht⟩ := step_readError L polls script hread (h.neg L)
  rw [failedAssert_disconnect L h, bind_pure_unit] at ht
  exact ⟨t, hq, ht⟩

/-- Up to its `closesession`, a disconnect only changes session `p`. -/
theorem quiet_of_stopped {s : UvService} (h : PacketOnly p (s.withSession p UvSession.stopped) t) :
    Quiet p s t := by
  have hstop : Returns (Quiet p) (updateSession p UvSession.stopped) :=
    quiet_updateSession (fun _ => rfl) fun _ => rfl
  exact IsTrans.trans _ _ _ (hstop.ok (updateSession_run _)) h.toQuiet

end Failed

/-! ## Closing a client -/

section Close

variable {s : UvService} {id : Int} {p : Nat}

/-- A deleted session is marked. -/
theorem deleteSession_deleted (polled : Bool) (h : deleteSession p polled s = .ok () t) :
    (t.heap p).deleted = true := by
  obtain ⟨_, s₁, -, h₁⟩ := bind_eq_ok h
  obtain ⟨u, s₂, -, h₂⟩ := bind_eq_ok h₁
  obtain ⟨_, s₃, -, h₃⟩ := bind_eq_ok h₂
  obtain ⟨v, s₄, -, h₄⟩ := bind_eq_ok h₃
  obtain ⟨_, s₅, -, h₅⟩ := bind_eq_ok h₄
  cases h₅
  exact congrArg UvSession.deleted (Function.update_self p _ s₅.heap)

/-- What closing client `p`, registered under `id`, does to the service, when the
handler does nothing. -/
structure SessionClosed (id : Int) (p : Nat) (s t : UvService) : Prop where
  mSessions : t.mSessions = s.mSessions.erase id
  mConnections : t.mConnections = s.mConnections
  mConnect : t.mConnect = s.mConnect
  pending : t.pending = s.pending
  log : t.log = s.log ++ [.closesession p]
  others : ∀ q, q ≠ p → t.heap q = s.heap q
  deleted : (t.heap p).deleted = true

/-- What happened to session `p` before its close does not matter. -/
theorem SessionClosed.of_quiet (hq : Quiet p s s₁) (ht : SessionClosed id p s₁ t) :
    SessionClosed id p s t where
  mSessions := by rw [ht.mSessions, hq.mSessions]
  mConnections := ht.mConnections.trans hq.mConnections
  mConnect := ht.mConnect.trans hq.mConnect
  pending := ht.pending.trans hq.pending
  log := by rw [ht.log, hq.log]
  others q hne := (ht.others q hne).trans (hq.others q hne)
  deleted := ht.deleted

/-- Using a session afterwards changes nothing in it. -/
theorem SessionClosed.touched (ht : SessionClosed id p s t) (q : Nat) :
    ∃ u, touch q t = .ok () u ∧ SessionClosed id p s u := by
  refine ⟨_, touch_run, ?_⟩
  split
  · exact ⟨ht.mSessions, ht.mConnections, ht.mConnect, ht.pending, ht.log, ht.others, ht.deleted⟩
  · exact ht

/-- With a handler that does nothing, closing a client changes nothing else. -/
theorem closesession_closed (hp : s.getsession id = some p) (polls : Polls) :
    ∃ t, closesession id polls (pure ()) s = .ok () t ∧ SessionClosed id p s t := by
  obtain ⟨s₁, hq₁, hrun⟩ := closesession_found hp polls
  obtain ⟨_, t, ht, hq₂⟩ := quiet_deleteSession (p := p) polls.atDelete (s₁.inClosesession id p)
  refine ⟨t, (hrun _).trans ht, SessionClosed.of_quiet hq₁ ?_⟩
  exact ⟨hq₂.mSessions, hq₂.mConnections, hq₂.mConnect, hq₂.pending, hq₂.log, hq₂.others,
    deleteSession_deleted _ ht⟩

/-- A disconnect of a client closes that client and changes nothing else. -/
theorem disconnect_client {L : Libuv} {nread : Int} (hs : Tables s)
    (hid : s.mSessions[id]? = some p) (hread : (s.heap p).mTcp.reading = some phase)
    (hnread : L.IsDisconnect nread) (polls : Polls) :
    ∃ t, step L (.readError p nread polls .ret) s = .ok () t ∧ SessionClosed id p s t := by
  obtain ⟨s₁, hstop, hrun⟩ := step_disconnect L polls .ret hread hnread
  have hq := quiet_of_stopped hstop
  have hmid : (s.heap p).mId = id := (hs.session id p hid).1
  have hfound : s₁.getsession id = some p := by
    rw [hq.getsession, getsession_eq hs, hid]
  obtain ⟨s₂, hs₂, hclosed⟩ := closesession_closed hfound polls
  obtain ⟨t, ht, htouched⟩ := hclosed.touched p
  rw [hmid] at hrun
  exact ⟨t, hrun.trans ((bind_of_ok hs₂).trans ht), htouched.of_quiet hq⟩

end Close

/-! ## Which disconnects are accounted for -/

/-- The disconnect of `p` that led from `s` to `t` is accounted for: `p` is gone from
the table that held it and from no other, and the handler was told, once ever. -/
structure Accounted (s t : UvService) (p : Nat) : Prop where
  session : ∀ id : Int, s.mSessions[id]? = some p →
    t.mSessions = s.mSessions.erase id ∧ t.mConnections = s.mConnections ∧
      t.log = s.log ++ [.closesession p] ∧ t.log.count (.closesession p) = 1
  connection : ∀ id : Int, s.mConnections[id]? = some p →
    t.mConnections = s.mConnections.erase id ∧ t.mSessions = s.mSessions ∧
      t.log = s.log ++ [.closeconnection p] ∧ t.log.count (.closeconnection p) = 1

section Accounted

variable {L : Libuv} {s : UvService} {p : Nat} {nread : Int}

/-- A disconnect of a client is accounted for. -/
theorem accounted_of_client {id : Int} (hs : Tables s) (hid : s.mSessions[id]? = some p)
    (ht : SessionClosed id p s t) : Accounted s t p := by
  obtain ⟨hmid, -, hclient⟩ := hs.session id p hid
  have hnew : Callback.closesession p ∉ s.log := fun hmem => (hs.closed p hmem).2 id hid
  refine ⟨fun k hk => ?_, fun k hk => ?_⟩
  · have hkid : k = id := (hs.session k p hk).1.symm.trans hmid
    refine ⟨by rw [hkid]; exact ht.mSessions, ht.mConnections, ht.log, ?_⟩
    rw [ht.log, List.count_append, List.count_eq_zero_of_not_mem hnew, List.count_singleton_self]
  · exact absurd hclient (hs.connection k p hk).2.2

/-- A disconnect that leaves `m_connections` alone is not accounted for when it is the
one of a connection. -/
theorem not_accounted_of_connection {id : Int} (hid : s.mConnections[id]? = some p)
    (hsame : t.mConnections = s.mConnections) : ¬ Accounted s t p := by
  intro hacc
  have herase : (t.mConnections)[id]? = none := by
    rw [(hacc.connection id hid).1]
    simp
  rw [hsame, hid] at herase
  cases herase

/-- `closesession` never touches `m_connections`. -/
theorem closesession_mConnections (id : Int) (polls : Polls) :
    ∃ t, closesession id polls (pure ()) s = .ok () t ∧ t.mConnections = s.mConnections := by
  cases hq : s.getsession id with
  | none => exact ⟨s, closesession_none hq polls _, rfl⟩
  | some q =>
      obtain ⟨t, hrun, ht⟩ := closesession_closed hq polls
      exact ⟨t, hrun, ht.mConnections⟩

/-- **Disconnects**: whatever has happened before, the disconnect of a registered
session is handled, and it is accounted for exactly when the session is a client. -/
theorem disconnect_accounted_iff (hs : Reachable L s)
    (hreg : (∃ id : Int, s.mSessions[id]? = some p) ∨ ∃ id : Int, s.mConnections[id]? = some p)
    (hread : (s.heap p).mTcp.reading = some phase) (hnread : L.IsDisconnect nread)
    (polls : Polls) :
    ∃ t, step L (.readError p nread polls .ret) s = .ok () t ∧
      (Accounted s t p ↔ ∃ id : Int, s.mSessions[id]? = some p) := by
  have htab := tables_reachable hs
  cases hreg with
  | inl hclient =>
      obtain ⟨id, hid⟩ := hclient
      obtain ⟨t, ht, hclosed⟩ := disconnect_client htab hid hread hnread polls
      exact ⟨t, ht, fun _ => ⟨id, hid⟩, fun _ => accounted_of_client htab hid hclosed⟩
  | inr hconnection =>
      obtain ⟨id, hid⟩ := hconnection
      obtain ⟨s₁, hstop, hrun⟩ := step_disconnect L polls .ret hread hnread
      have hq := quiet_of_stopped hstop
      obtain ⟨s₂, hs₂, hsame⟩ := closesession_mConnections (s := s₁) (s.heap p).mId polls
      obtain ⟨_, t, ht, hquiet⟩ := quiet_touch (p := p) p s₂
      refine ⟨t, hrun.trans ((bind_of_ok hs₂).trans ht), fun hacc => ?_, fun hclient => ?_⟩
      · exact absurd hacc (not_accounted_of_connection hid
          (hquiet.mConnections.trans (hsame.trans hq.mConnections)))
      · obtain ⟨k, hk⟩ := hclient
        exact absurd (htab.session k p hk).2.2 (htab.connection id p hid).2.2

/-- A run in which a client has been accepted, and its disconnect. -/
theorem disconnect_accounted_accepted : ∃ s t,
    run (.loopback .unix) [.accept ⟨0, false, 0, 0, ⟨true, 0, 0⟩⟩ .ret] UvService.init = .ok () s ∧
      s.mSessions[(1 : Int)]? = some 0 ∧
      step (.loopback .unix) (.readError 0 uvEof ⟨false, false⟩ .ret) s = .ok () t ∧
      Accounted s t 0 := by
  let es : List Event := [.accept ⟨0, false, 0, 0, ⟨true, 0, 0⟩⟩ .ret]
  let s := endState (run (.loopback .unix) es UvService.init)
  have hrun : run (.loopback .unix) es UvService.init = .ok () s := rfl
  have hid : s.mSessions[(1 : Int)]? = some 0 := by decide
  have hread : (s.heap 0).mTcp.reading = some .head := by decide
  have heof : (Libuv.loopback .unix).IsDisconnect uvEof := .inl rfl
  obtain ⟨t, ht, hacc⟩ :=
    disconnect_accounted_iff ⟨es, hrun⟩ (.inl ⟨1, hid⟩) hread heof ⟨false, false⟩
  exact ⟨s, t, hrun, hid, ht, hacc.mpr ⟨1, hid⟩⟩

/-- The end of an outgoing connection is not accounted for. -/
theorem not_accounted_connection : ∃ s t,
    run (.loopback .unix) [.update (.connect ⟨"::1", 80, false⟩ ⟨0, 2, 0, ⟨true, 0, 0⟩⟩ .ret),
        .connected 0 0 ⟨none, none⟩ ⟨false, false⟩ .ret .ret] UvService.init = .ok () s ∧
      s.mConnections[(1 : Int)]? = some 0 ∧ (s.heap 0).mTcp.reading = some .head ∧
      step (.loopback .unix) (.readError 0 uvEof ⟨false, false⟩ .ret) s = .ok () t ∧
      t.mConnections[(1 : Int)]? = some 0 ∧ Callback.closeconnection 0 ∉ t.log ∧
      ¬ Accounted s t 0 := by
  refine ⟨_, _, rfl, by decide, by decide, rfl, by decide, by decide, ?_⟩
  exact not_accounted_of_connection (show _[(1 : Int)]? = _ by decide) (by rfl)

end Accounted

end GEngine
