import GEngine.UvService.Disconnect

/-!
# GEngine.UvService.Lifetime

The life of a session: live, closing, closed, deleted.  Every way in which the service
ends a session is wrong.

* `closesession` and `closeconnection` close a handle, call the handler and delete the
  session in one go.  An active handle is deleted long before its close callback, which
  libuv runs on it all the same.
* An inactive handle is deleted without `uv_close`.  It stays in `loop->handle_queue`, and
  the `uv_tcp_init` of the next session, or the end of a `uv_close` next to it, writes into
  it.
* The function that called the handler goes on to use the session, whether the handler has
  closed it or not, and libuv goes on to use the stream whose read callback has closed it.

A run is *careful* if nothing is closed in it: the closes that the handler, a failed read
or a failed connect ask for find no session.  `careful_run` says that in such a run no
session is used after its delete or deleted while it is closing.
-/

namespace GEngine

open UvService

/-! ## Careful runs -/

/-- `uv_is_active` says no for the handle of `p`, when it is closed and when it is
deleted. -/
structure Idle (s : UvService) (p : Nat) (polls : Polls) : Prop where
  atClose : (s.heap p).mTcp.isActive polls.atClose = false
  atDelete : (s.heap p).mTcp.isActive polls.atDelete = false

/-- No close that the handler asks for finds a session. -/
def Script.Careful (L : Libuv) : Script → UvService → Prop
  | .ret, _ => True
  | .closesession id _ _ next, s => s.getsession id = none ∧ next.Careful L s
  | .closeconnection id _ _ next, s => s.getconnection id = none ∧ next.Careful L s
  | .connect e env next, s => ∀ b t, GEngine.connect L e env s = .ok b t → next.Careful L t

/-- An event ends no session.  A failed completion may find an idle handle, as the process
dies there.  What the packet of a session holds when its read callback calls the handler
plays no part. -/
def Event.Careful (L : Libuv) : Event → UvService → Prop
  | .accept env script, s =>
      env.status = 0 → env.rInit = 0 → env.rAccept = 0 ∧ script.Careful L (inAccept s env)
  | .connected p status names polls script _, s =>
      p ∈ s.pending → ∀ q, s.mConnect = some q →
        if status = 0 then
          readStartResult L ((withConnected s p names).heap q).mTcp = 0 ∧
            script.Careful L (inConnected s p names q)
        else Idle s q polls
  | .read p chunk _ script, s =>
      ((s.heap p).mTcp.reading = some .head → chunk.length = packetBufferSize →
        ¬ AnnouncesBody chunk →
        ∀ t, PacketOnly p s t → script.Careful L (t.withCallback (.tcpreceive p chunk))) ∧
      ((s.heap p).mTcp.reading = some .body → s.getsession (s.heap p).mId = none)
  | .readError p nread _ _, s =>
      nread < 0 → (s.heap p).mTcp.reading ≠ none → s.getsession (s.heap p).mId = none
  | .update script, s => script.Careful L s
  | .sent _, _ => True
  | .closed _, _ => True

/-- No event of a run ends a session. -/
def CarefulRun (L : Libuv) : List Event → UvService → Prop
  | [], _ => True
  | e :: es, s => e.Careful L s ∧ ∀ t, step L e s = .ok () t → CarefulRun L es t

/-! ## Fresh memory -/

/-- The sessions that a handler makes are built where `m_body.base` happens to be null. -/
def Script.Zeroed : Script → Prop
  | .ret => True
  | .closesession _ _ nested next => nested.Zeroed ∧ next.Zeroed
  | .closeconnection _ _ nested next => nested.Zeroed ∧ next.Zeroed
  | .connect _ env next => env.fresh.bodyNull = true ∧ next.Zeroed

/-- The sessions that an event makes are built where `m_body.base` happens to be null. -/
def Event.Zeroed : Event → Prop
  | .accept env script => env.fresh.bodyNull = true ∧ script.Zeroed
  | .connected _ _ _ _ script closing => script.Zeroed ∧ closing.Zeroed
  | .read _ _ _ script => script.Zeroed
  | .readError _ _ _ script => script.Zeroed
  | .update script => script.Zeroed
  | .sent _ => True
  | .closed _ => True

/-! ## The invariant -/

/-- Nothing but the uninitialised `m_body.base` has done harm, and not even that if memory
is `zeroed`. -/
def OnlyWild (zeroed : Prop) (s : UvService) : Prop :=
  ∀ f ∈ s.faults, ¬ zeroed ∧ ∃ p, f = .wildPointer p

/-- On zeroed memory, nothing has done harm. -/
theorem OnlyWild.faults_eq_nil {s : UvService} (h : OnlyWild True s) : s.faults = [] :=
  List.eq_nil_iff_forall_not_mem.mpr fun f hf => (h f hf).1 trivial

/-- What holds between the steps of a careful run: no session is deleted, no handle is
closing or closed, the receive buffers are in place, and a session in the body phase does not have
the length for which it would be given a buffer. -/
structure Intact (zeroed : Prop) (s : UvService) : Prop where
  live : ∀ p, (s.heap p).deleted = false
  closing : ∀ p, (s.heap p).mTcp.closing = false
  closed : ∀ p, (s.heap p).mTcp.closed = false
  head : ∀ p, (s.heap p).mPacket.mHead.IsHead
  body : ∀ p, (s.heap p).mTcp.reading = some .body →
    (s.heap p).mPacket.mLength ≠ UvPacket.headLength
  tame : zeroed → ∀ p, (s.heap p).mPacket.mBody.base ≠ .wild
  faults : OnlyWild zeroed s

theorem intact_init (zeroed : Prop) : Intact zeroed UvService.init where
  live _ := rfl
  closing _ := rfl
  closed _ := rfl
  head _ := isHead_new _
  body _ h := by cases h
  tame _ _ h := by cases h
  faults := by simp [OnlyWild, UvService.init]

section Intact

variable {zeroed : Prop} {s t : UvService} {p : Nat}

theorem Intact.headOk (h : Intact zeroed s) (p : Nat) : (s.heap p).HeadOk :=
  .inr ⟨h.live p, h.head p⟩

/-- The tables and the callbacks play no part. -/
theorem Intact.of_same (h : Intact zeroed s) (hheap : t.heap = s.heap)
    (hfaults : t.faults = s.faults) : Intact zeroed t := by
  refine ⟨?_, ?_, ?_, ?_, ?_, ?_, ?_⟩
  · rw [hheap]; exact h.live
  · rw [hheap]; exact h.closing
  · rw [hheap]; exact h.closed
  · rw [hheap]; exact h.head
  · rw [hheap]; exact h.body
  · rw [hheap]; exact h.tame
  · unfold OnlyWild
    rw [hfaults]
    exact h.faults

/-- What is asked of each session holds of all if it holds of the one that is new. -/
theorem Intact.of_others (h : Intact zeroed s) (hfaults : OnlyWild zeroed t)
    (hothers : ∀ q, q ≠ p → t.heap q = s.heap q) (hlive : (t.heap p).deleted = false)
    (hclosing : (t.heap p).mTcp.closing = false) (hclosed : (t.heap p).mTcp.closed = false)
    (hhead : (t.heap p).mPacket.mHead.IsHead)
    (hbody : (t.heap p).mTcp.reading = some .body →
      (t.heap p).mPacket.mLength ≠ UvPacket.headLength)
    (htame : zeroed → (t.heap p).mPacket.mBody.base ≠ .wild) : Intact zeroed t := by
  refine ⟨fun q => ?_, fun q => ?_, fun q => ?_, fun q => ?_, fun q => ?_, fun hz q => ?_, hfaults⟩
  all_goals by_cases hq : q = p
  · rw [hq]; exact hlive
  · rw [hothers q hq]; exact h.live q
  · rw [hq]; exact hclosing
  · rw [hothers q hq]; exact h.closing q
  · rw [hq]; exact hclosed
  · rw [hothers q hq]; exact h.closed q
  · rw [hq]; exact hhead
  · rw [hothers q hq]; exact h.head q
  · rw [hq]; exact hbody
  · rw [hothers q hq]; exact h.body q
  · rw [hq]; exact htame hz
  · rw [hothers q hq]; exact h.tame hz q

/-- Code that only touches a packet keeps the invariant. -/
theorem Intact.packetOnly (h : Intact zeroed s) (hq : PacketOnly p s t) : Intact zeroed t := by
  refine h.of_others (p := p) (fun f hf => ?_) hq.others (hq.deleted.trans (h.live p)) ?_ ?_
    (hq.isHead (h.live p) (h.headOk p)) ?_ fun hz => hq.body (h.tame hz p)
  · obtain ⟨fs, hfs, hnew⟩ := hq.faults
    rw [hfs, List.mem_append] at hf
    rcases hf with hf | hf
    · exact h.faults f hf
    · rcases hnew f hf with ⟨-, hd⟩ | ⟨hwild, hbase⟩
      · rw [h.live p] at hd
        contradiction
      · exact ⟨fun hz => h.tame hz p (hbase (h.headOk p)), p, hwild⟩
  · rw [hq.mTcp]; exact h.closing p
  · rw [hq.mTcp]; exact h.closed p
  · rw [hq.mTcp]
    exact fun hread => hq.mLength (h.body p hread)

/-- A change of a handle that neither closes it nor starts the body phase keeps the
invariant. -/
theorem Intact.withTcp (h : Intact zeroed s) (tcp : UvTcp → UvTcp)
    (hclosing : (tcp (s.heap p).mTcp).closing = false)
    (hclosed : (tcp (s.heap p).mTcp).closed = false)
    (hbody : (tcp (s.heap p).mTcp).reading = some .body →
      (s.heap p).mPacket.mLength ≠ UvPacket.headLength) :
    Intact zeroed (s.withSession p fun u => { u with mTcp := tcp u.mTcp }) := by
  refine h.of_others (p := p) h.faults (fun q hq => withSession_of_ne s _ hq) ?_ ?_ ?_ ?_ ?_ ?_
  all_goals rw [withSession_self]
  · exact h.live p
  · exact hclosing
  · exact hclosed
  · exact h.head p
  · exact hbody
  · exact fun hz => h.tame hz p

theorem Intact.withNew (h : Intact zeroed s) (ipv6 : Bool) (fresh : Fresh) (e : Option Endpoint)
    (hz : zeroed → fresh.bodyNull = true) : Intact zeroed (s.withNew ipv6 fresh e) := by
  refine h.of_others (p := s.created) h.faults (fun q hq => withNew_of_ne s ipv6 fresh e hq)
    ?_ ?_ ?_ ?_ ?_ fun hzero => ?_
  all_goals rw [withNew_self]
  · rfl
  · rfl
  · exact isHead_new fresh
  · exact fun hb => by cases hb
  · simp [UvPacket.new, hz hzero]

/-- Where nothing is deleted, `uv_tcp_init` does no harm. -/
theorem Intact.withHandle (h : Intact zeroed s) (p : Nat) (r : Int) :
    Intact zeroed (s.withHandle p r) := by
  refine h.of_same rfl ?_
  have hnone : s.usedDeleted s.handleQueue.getLast?.toList = [] := by
    simp [usedDeleted, h.live]
  simp [UvService.withHandle, hnone]

theorem Intact.readStart (h : Intact zeroed s) (L : Libuv) :
    Intact zeroed (s.withSession p fun u => { u with mTcp := u.mTcp.readStart L .head }) := by
  refine h.withTcp (fun t => t.readStart L .head) ?_ ?_ ?_
  · unfold UvTcp.readStart
    split <;> exact h.closing p
  · unfold UvTcp.readStart
    split <;> exact h.closed p
  · unfold UvTcp.readStart
    split
    · exact fun hb => by cases hb
    · exact h.body p

end Intact

/-! ## Deleting before the process dies -/

section Delete

variable {zeroed : Prop} {s : UvService} {p : Nat}

/-- An idle handle is not closed. -/
theorem close_idle {polled : Bool} (hlive : (s.heap p).deleted = false)
    (hidle : (s.heap p).mTcp.isActive polled = false) : close p polled s = .ok () s := by
  unfold close
  rw [bind_of_ok (touch_live hlive), bind_of_ok session_run, onlyIf, hidle]
  rfl

/-- A session that was deleted. -/
def UvSession.gone (u : UvSession) : UvSession :=
  { u with mPacket := u.mPacket.free, deleted := true }

/-- The service when the wild body pointer of `p`, if it is one, was freed. -/
def withFreed (s : UvService) (p : Nat) : UvService :=
  if (s.heap p).mPacket.mBody.base = .wild then s.withFault (.wildPointer p) else s

theorem withFreed_heap (s : UvService) (p : Nat) : (withFreed s p).heap = s.heap := by
  unfold withFreed
  split <;> rfl

/-- Deleting an idle session that was never closed. -/
theorem deleteSession_idle {polled : Bool} (hlive : (s.heap p).deleted = false)
    (hclosing : (s.heap p).mTcp.closing = false)
    (hidle : (s.heap p).mTcp.isActive polled = false) :
    deleteSession p polled s = .ok () ((withFreed s p).withSession p UvSession.gone) := by
  have hfree : onlyIf ((s.heap p).mPacket.mBody.base = .wild) (fault (.wildPointer p)) s =
      .ok () (withFreed s p) := by
    unfold onlyIf withFreed
    split <;> rfl
  unfold deleteSession
  rw [bind_of_ok (close_idle hlive hidle), bind_of_ok session_run, bind_of_ok hfree,
    bind_of_ok session_run, onlyIf, if_neg (by simp [withFreed_heap, hclosing])]
  rfl

/-- The process dies after an idle session was closed and deleted. -/
theorem dies_deleted (polls : Polls) (h : Intact zeroed s) (hidle : Idle s p polls) (site : Site)
    {Q : α → UvService → Prop} :
    Outcome (do close p polls.atClose; deleteSession p polls.atDelete; throw site : Svc α) s Q
      fun _ => OnlyWild zeroed := by
  have hrun : (do close p polls.atClose; deleteSession p polls.atDelete; throw site : Svc α) s =
      .error site ((withFreed s p).withSession p UvSession.gone) := by
    rw [bind_of_ok (close_idle (h.live p) hidle.atClose),
      bind_of_ok (deleteSession_idle (h.live p) (h.closing p) hidle.atDelete)]
    rfl
  refine Outcome.of_error hrun fun f hf => ?_
  change f ∈ (withFreed s p).faults at hf
  unfold withFreed at hf
  split at hf
  · next hwild =>
      rcases List.mem_append.mp hf with hf | hf
      · exact h.faults f hf
      · exact ⟨fun hz => h.tame hz p hwild, p, List.mem_singleton.mp hf⟩
  · exact h.faults f hf

end Delete

/-! ## Handlers -/

section Script

variable {L : Libuv} {zeroed : Prop} {s t : UvService}

/-- The sessions of `s` are as they were in `t`, and there may be more. -/
structure Grown (s t : UvService) : Prop where
  created : s.created ≤ t.created
  same : ∀ q, q < s.created → t.heap q = s.heap q

theorem Grown.refl (s : UvService) : Grown s s := ⟨Nat.le_refl _, fun _ _ => rfl⟩

theorem Grown.trans (h : Grown s t) (k : Grown t u) : Grown s u :=
  ⟨h.created.trans k.created, fun q hq => (k.same q (hq.trans_le h.created)).trans (h.same q hq)⟩

/-- What careful code of a handler comes to. -/
def Keeps (zeroed : Prop) (s t : UvService) : Prop := Intact zeroed t ∧ Grown s t

/-- libuv knows nothing of a new session. -/
theorem idle_fresh (s : UvService) (ipv6 : Bool) (fresh : Fresh) (e : Option Endpoint) (r : Int) :
    Idle ((s.withNew ipv6 fresh e).withHandle s.created r) s.created ⟨false, false⟩ := by
  have hself : ((s.withNew ipv6 fresh e).withHandle s.created r).heap s.created = _ :=
    withNew_self s ipv6 fresh e
  exact ⟨by rw [hself]; rfl, by rw [hself]; rfl⟩

/-- A connect leaves the sessions alone that are there, or the process dies. -/
theorem keeps_connect (h : Intact zeroed s) (e : Endpoint) (env : ConnectEnv)
    (hz : zeroed → env.fresh.bodyNull = true) :
    Outcome (connect L e env) s (fun _ => Keeps zeroed s) fun _ => OnlyWild zeroed := by
  let s₁ := (s.withNew e.ipv6 env.fresh (some e)).withHandle s.created env.rInit
  have h₁ : Intact zeroed s₁ := (h.withNew _ _ _ hz).withHandle _ _
  have hgrown : Grown s s₁ :=
    ⟨Nat.le_succ _, fun q hq => withNew_of_ne s _ _ _ (Nat.ne_of_lt hq)⟩
  have hidle : Idle s₁ s.created ⟨false, false⟩ := idle_fresh s _ _ _ _
  unfold connect
  refine Outcome.of_eq (bind_of_ok (newSession_run _ _ _)) ?_
  refine Outcome.of_eq (bind_of_ok (uvTcpInit_run _)) ?_
  by_cases hinit : env.rInit = 0
  · rw [assertAt, if_pos hinit]
    by_cases hparse : connectParses L e = true
    · rw [if_pos hparse]
      by_cases hconn : connectResult L env = 0
      · rw [if_pos hconn]
        exact Outcome.of_ok rfl ⟨h₁.of_same rfl rfl, hgrown.created, hgrown.same⟩
      · rw [if_neg hconn]
        have h₂ : Intact zeroed { s₁ with mConnect := some s.created } := h₁.of_same rfl rfl
        exact dies_deleted ⟨false, false⟩ h₂ ⟨hidle.atClose, hidle.atDelete⟩ _
    · rw [if_neg hparse]
      exact dies_deleted ⟨false, false⟩ h₁ hidle _
  · rw [assertAt, if_neg hinit]
    exact Outcome.of_error rfl h₁.faults

/-- **Handlers**: a careful handler leaves the sessions alone that are there, or the
process dies. -/
theorem keeps_script (script : Script) (h : Intact zeroed s) (hcare : script.Careful L s)
    (hz : zeroed → script.Zeroed) :
    Outcome (script.run L) s (fun _ => Keeps zeroed s) fun _ => OnlyWild zeroed := by
  induction script generalizing s with
  | ret => exact Outcome.of_ok rfl ⟨h, Grown.refl s⟩
  | closesession id polls nested next _ ihx =>
      exact Outcome.of_eq (bind_of_ok (closesession_none hcare.1 polls _))
        (ihx h hcare.2 fun hzero => (hz hzero).2)
  | closeconnection id polls nested next _ ihx =>
      exact Outcome.of_eq (bind_of_ok (closeconnection_none hcare.1 polls _))
        (ihx h hcare.2 fun hzero => (hz hzero).2)
  | connect e env next ihx =>
      have hconn : Outcome (GEngine.connect L e env) s
          (fun _ t => Keeps zeroed s t ∧ next.Careful L t) fun _ => OnlyWild zeroed :=
        (keeps_connect h e env fun hzero => (hz hzero).1).imp
          (fun b t hok hk => ⟨hk, hcare b t hok⟩) fun _ _ he => he
      refine hconn.discard.bind fun _ t ⟨hk, hnext⟩ => ?_
      exact (ihx hk.1 hnext fun hzero => (hz hzero).2).imp
        (fun _ _ _ hu => ⟨hu.1, hk.2.trans hu.2⟩) fun _ _ he => he

end Script

/-! ## Events -/

section Event

variable {L : Libuv} {zeroed : Prop} {s : UvService} {p : Nat}

/-- `receive_head`, with what `uv_read_start` returns. -/
theorem intact_receiveHead (h : Intact zeroed s) {E : Site → UvService → Prop} :
    Outcome (receiveHead L p) s
      (fun r t => Intact zeroed t ∧ r = readStartResult L (s.heap p).mTcp) E := by
  obtain ⟨t, hq, ht⟩ := receiveHead_run L p s
  exact Outcome.of_ok ht ⟨(h.packetOnly hq).readStart L, rfl⟩

/-- libuv may look at a stream after its callback. -/
theorem intact_uvCallback {cb : Svc Unit}
    (h : Outcome cb s (fun _ => Intact zeroed) fun _ => OnlyWild zeroed) :
    Outcome (uvCallback p cb) s (fun _ => Intact zeroed) fun _ => OnlyWild zeroed :=
  h.bind fun _ _ ht => Outcome.of_ok (touch_live (ht.live p)) ht

/-- An assertion changes nothing, or the process dies of it. -/
theorem intact_assertAt (h : Intact zeroed s) (site : Site) (c : Prop) [Decidable c] :
    Outcome (assertAt site c) s (fun _ => Intact zeroed) fun _ => OnlyWild zeroed := by
  unfold assertAt
  split
  · exact Outcome.of_ok rfl h
  · exact Outcome.of_error rfl h.faults

/-- A careful accept. -/
theorem intact_accept {env : AcceptEnv} {script : Script} (h : Intact zeroed s)
    (hcare : (Event.accept env script).Careful L s)
    (hz : zeroed → (Event.accept env script).Zeroed) :
    Outcome (step L (.accept env script)) s (fun _ => Intact zeroed)
      fun _ => OnlyWild zeroed := by
  change Outcome (onAccept L env (script.run L)) s _ _
  let s₁ := (s.withNew env.ipv6 env.fresh none).withHandle s.created env.rInit
  have h₁ : Intact zeroed s₁ :=
    (h.withNew _ _ _ fun hzero => (hz hzero).1).withHandle _ _
  by_cases hstatus : env.status = 0
  · by_cases hinit : env.rInit = 0
    · obtain ⟨haccept, hscript⟩ := hcare hstatus hinit
      have hin : Intact zeroed (inAccept s env) := by
        have hconnected := h₁.withTcp (p := s.created) (fun t => { t with readable := true })
          (h₁.closing _) (h₁.closed _) (h₁.body _)
        exact hconnected.of_same rfl rfl
      refine Outcome.of_eq (onAccept_run L _ ⟨hstatus, hinit, haccept⟩ s) ?_
      refine (keeps_script script hin hscript fun hzero => (hz hzero).2).bind fun _ t hk => ?_
      refine (intact_receiveHead hk.1).bind fun r u ⟨hu, _⟩ => ?_
      exact intact_assertAt hu _ _
    · have hidle : Idle s₁ s.created ⟨false, false⟩ := idle_fresh s _ _ _ _
      have hrun : onAccept L env (script.run L) s = (do
          close s.created false
          deleteSession s.created false
          throw .onAcceptInit : Svc Unit) s₁ := by
        unfold onAccept
        rw [assertAt, if_pos hstatus, pure_bind, bind_of_ok (newSession_run _ _ _),
          bind_of_ok (uvTcpInit_run _), if_pos hinit,
          bind_of_ok (close_idle (h₁.live _) hidle.atClose)]
      exact Outcome.of_eq hrun (dies_deleted ⟨false, false⟩ h₁ hidle _)
  · have hrun : onAccept L env (script.run L) s = .error .onAcceptStatus s := by
      unfold onAccept
      rw [assertAt, if_neg hstatus]
      rfl
    exact Outcome.of_error hrun h.faults

theorem Intact.withConnected (h : Intact zeroed s) (names : SockNames) :
    Intact zeroed (withConnected s p names) := by
  have hpend : Intact zeroed { s with pending := s.pending.erase p } := h.of_same rfl rfl
  exact hpend.withTcp (fun t => { t with readable := true, names := names }) (h.closing p)
    (h.closed p) (h.body p)

/-- A careful completion that succeeds. -/
theorem intact_announced {q : Nat} {names : SockNames} {polls : Polls} {script : Script}
    {closing : Svc Unit} (h : Intact zeroed s) (hq : q < s.created)
    (hstart : readStartResult L ((withConnected s p names).heap q).mTcp = 0)
    (hscript : script.Careful L (inConnected s p names q)) (hz : zeroed → script.Zeroed) :
    Outcome (script.run L >>= fun _ => receiveConnected L q polls closing)
      (inConnected s p names q) (fun _ => Intact zeroed) fun _ => OnlyWild zeroed := by
  have hin : Intact zeroed (inConnected s p names q) :=
    (h.withConnected names).of_same rfl rfl
  refine (keeps_script script hin hscript hz).bind fun _ t hk => ?_
  have hsame : t.heap q = (withConnected s p names).heap q := hk.2.same q hq
  rw [← hsame] at hstart
  refine (intact_receiveHead hk.1).bind fun r u ⟨hu, hr⟩ => ?_
  rw [hr, hstart, if_neg (not_not.mpr rfl)]
  exact Outcome.of_ok rfl hu

/-- A careful completion. -/
theorem intact_connected {status : Int} {names : SockNames} {polls : Polls}
    {script closing : Script} (h : Intact zeroed s) (ht : Tables s)
    (hcare : (Event.connected p status names polls script closing).Careful L s)
    (hz : zeroed → (Event.connected p status names polls script closing).Zeroed) :
    Outcome (step L (.connected p status names polls script closing)) s
      (fun _ => Intact zeroed) fun _ => OnlyWild zeroed := by
  change Outcome (uvConnected L p status names polls (script.run L) (closing.run L)) s _ _
  unfold uvConnected
  refine Outcome.of_eq (bind_of_ok rfl) ?_
  by_cases hpend : p ∈ s.pending
  · rw [if_pos hpend]
    refine Outcome.of_eq (bind_of_ok rfl) ?_
    refine Outcome.of_eq (bind_of_ok (touch_live (h.live p))) ?_
    by_cases hstatus : status = 0
    · rw [onlyIf, if_pos hstatus]
      refine Outcome.of_eq (bind_of_ok (updateSession_run _)) (intact_uvCallback ?_)
      change Outcome (onConnect L status polls (script.run L) (closing.run L))
        (withConnected s p names) _ _
      cases hq : s.mConnect with
      | none =>
          have hnone : (withConnected s p names).mConnect = none := hq
          exact Outcome.of_ok (onConnect_none L polls _ _ hnone) (h.withConnected names)
      | some q =>
          have hrest := hcare hpend q hq
          rw [if_pos hstatus] at hrest
          have hsome : (withConnected s p names).mConnect = some q := hq
          exact Outcome.of_eq (onConnect_announces L polls _ _ hsome hstatus)
            (intact_announced h (ht.connect q hq).1 hrest.1 hrest.2 fun hzero => (hz hzero).1)
    · rw [onlyIf, if_neg hstatus, pure_bind]
      have h' : Intact zeroed { s with pending := s.pending.erase p } := h.of_same rfl rfl
      refine intact_uvCallback ?_
      cases hq : s.mConnect with
      | none => exact Outcome.of_ok (onConnect_none L polls _ _ hq) h'
      | some q =>
          have hidle := hcare hpend q hq
          rw [if_neg hstatus] at hidle
          exact Outcome.of_eq (onConnect_fails L polls _ _ hq hstatus)
            (dies_deleted polls h' ⟨hidle.atClose, hidle.atDelete⟩ _)
  · rw [if_neg hpend]
    exact Outcome.of_ok rfl h

/-- The end of a failed read whose session is not a client: nothing is closed, and the
assertion is made. -/
theorem intact_failed {id : Int} {polls : Polls} {handler : Svc Unit} (h : Intact zeroed s)
    (hnone : s.getsession id = none) (site : Site) (nread : Int) :
    Outcome (closesession id polls handler >>= fun _ => failedAssert L site nread) s
      (fun _ => Intact zeroed) fun _ => OnlyWild zeroed := by
  refine Outcome.of_eq (bind_of_ok (closesession_none hnone polls handler)) ?_
  unfold failedAssert onlyIf
  split
  · exact intact_assertAt h _ _
  · exact Outcome.of_ok rfl h

/-- A careful read. -/
theorem intact_read {chunk : List UInt8} {polls : Polls} {script : Script} (h : Intact zeroed s)
    (hcare : (Event.read p chunk polls script).Careful L s)
    (hz : zeroed → (Event.read p chunk polls script).Zeroed) :
    Outcome (step L (.read p chunk polls script)) s (fun _ => Intact zeroed)
      fun _ => OnlyWild zeroed := by
  change Outcome (uvRead L p chunk polls (script.run L)) s _ _
  cases hread : (s.heap p).mTcp.reading with
  | none => exact Outcome.of_ok (uvRead_none L polls _ hread) h
  | some phase =>
      have hlive := h.live p
      have hok := h.headOk p
      cases phase with
      | body =>
          obtain ⟨t, hq, hrun⟩ := uvRead_body L polls (script.run L) chunk hread (h.body p hread)
          refine Outcome.of_eq hrun (intact_uvCallback (intact_failed (h.packetOnly hq) ?_ _ _))
          rw [hq.getsession]
          exact hcare.2 hread
      | head =>
          by_cases hfull : chunk.length = packetBufferSize
          · by_cases hbody : AnnouncesBody chunk
            · obtain ⟨t, hq, hlen, hrun⟩ :=
                uvRead_announcing L polls (script.run L) hread hlive hok hfull hbody
              have ht := h.packetOnly hq
              refine Outcome.of_ok hrun
                (ht.withTcp (fun t => t.readStart L .body) ?_ ?_ fun _ => hlen)
              · unfold UvTcp.readStart
                split <;> exact ht.closing p
              · unfold UvTcp.readStart
                split <;> exact ht.closed p
            · obtain ⟨t, hq, hrun⟩ :=
                uvRead_delivers L polls (script.run L) hread hlive hok hfull hbody
              have ht : Intact zeroed (t.withCallback (.tcpreceive p chunk)) :=
                (h.packetOnly hq).of_same rfl rfl
              refine Outcome.of_eq hrun (intact_uvCallback ?_)
              refine (keeps_script script ht (hcare.1 hread hfull hbody t hq) hz).bind
                fun _ u hk => ?_
              obtain ⟨_, v, hv, hqv⟩ := packetOnly_clearPacket (p := p) u
              refine Outcome.of_eq (bind_of_ok hv) (Outcome.discard ?_)
              exact (intact_receiveHead (hk.1.packetOnly hqv)).imp (fun _ _ _ hw => hw.1)
                fun _ _ he => he
          · obtain ⟨t, hq, hrun⟩ := uvRead_dropped L polls (script.run L) hread hlive hok hfull
            exact Outcome.of_ok hrun (h.packetOnly hq)

/-- A careful read error. -/
theorem intact_readError {nread : Int} {polls : Polls} {script : Script} (h : Intact zeroed s)
    (hcare : (Event.readError p nread polls script).Careful L s) :
    Outcome (step L (.readError p nread polls script)) s (fun _ => Intact zeroed)
      fun _ => OnlyWild zeroed := by
  by_cases hneg : nread < 0
  · cases hread : (s.heap p).mTcp.reading with
    | none => exact Outcome.of_ok (step_readError_none L polls script hneg hread) h
    | some phase =>
        obtain ⟨t, hq, hrun⟩ := step_readError L polls script hread hneg
        have hstop : Intact zeroed (s.withSession p UvSession.stopped) :=
          h.withTcp (fun t => { t with reading := none }) (h.closing p) (h.closed p)
            fun hb => by cases hb
        refine Outcome.of_eq hrun
          (intact_uvCallback (intact_failed (hstop.packetOnly hq) ?_ _ _))
        rw [(quiet_of_stopped hq).getsession]
        exact hcare hneg (by rw [hread]; simp)
  · have hrun : step L (.readError p nread polls script) s = .ok () s := by
      simp only [step, if_neg hneg]
      rfl
    exact Outcome.of_ok hrun h

/-- A careful event. -/
theorem intact_step {e : Event} (h : Intact zeroed s) (ht : Tables s) (hcare : e.Careful L s)
    (hz : zeroed → e.Zeroed) :
    Outcome (step L e) s (fun _ => Intact zeroed) fun _ => OnlyWild zeroed := by
  cases e with
  | accept env script => exact intact_accept h hcare hz
  | connected p status names polls script closing => exact intact_connected h ht hcare hz
  | read p chunk polls script => exact intact_read h hcare hz
  | readError p nread polls script => exact intact_readError h hcare
  | sent status => exact intact_assertAt h _ _
  | closed p =>
      have hno : ¬ ((s.heap p).mTcp.closing = true ∧ ¬ (s.heap p).mTcp.closed = true) := by
        simp [h.closing p]
      refine Outcome.of_eq (bind_of_ok session_run) ?_
      rw [if_neg hno]
      exact Outcome.of_ok rfl h
  | update script =>
      exact (keeps_script script h hcare hz).imp (fun _ _ _ hk => hk.1) fun _ _ he => he

end Event

/-! ## Runs -/

section Run

variable {L : Libuv} {zeroed : Prop} {s : UvService} {es : List Event}

/-- Code that only makes moves keeps the tables in order. -/
theorem tables_reaches {x : Svc α} (hx : Reaches Change x s) (hs : Tables s)
    (h : x s = .ok a t) : Tables t := by
  have ht := moves_keep (fun _ _ hc hs => tables_change hc hs) hx hs
  rw [h] at ht
  exact ht

/-- A careful run keeps the invariant, or the process dies. -/
theorem intact_run (h : Intact zeroed s) (ht : Tables s) (hcare : CarefulRun L es s)
    (hz : zeroed → ∀ e ∈ es, e.Zeroed) :
    Outcome (run L es) s (fun _ => Intact zeroed) fun _ => OnlyWild zeroed := by
  induction es generalizing s with
  | nil => exact Outcome.of_ok rfl h
  | cons e es ih =>
      have hstep := intact_step h ht hcare.1 fun hzero => hz hzero e List.mem_cons_self
      have hnext : Outcome (step L e) s
          (fun _ t => Intact zeroed t ∧ Tables t ∧ CarefulRun L es t) fun _ => OnlyWild zeroed :=
        hstep.imp (fun _ t hok hk =>
          ⟨hk, tables_reaches (reaches_step L e s) ht hok, hcare.2 t hok⟩) fun _ _ he => he
      exact hnext.bind fun _ t ⟨hk, htt, hrest⟩ =>
        ih hk htt hrest fun hzero e he => hz hzero e (List.mem_cons_of_mem _ he)

/-- Wherever a careful run ends, only wild body pointers have done harm. -/
theorem onlyWild_run (hcare : CarefulRun L es UvService.init)
    (hz : zeroed → ∀ e ∈ es, e.Zeroed) :
    OnlyWild zeroed (endState (run L es UvService.init)) := by
  have hrun := intact_run (intact_init zeroed) tables_init hcare hz
  cases hr : run L es UvService.init with
  | ok a t => exact (hrun.ok hr).faults
  | error site t => exact hrun.error hr

end Run

/-- **Lifetime**: in a careful run no session is used after its delete, and none is
deleted between `uv_close` and its close callback. -/
theorem careful_run {L : Libuv} {es : List Event} (h : CarefulRun L es UvService.init) (p : Nat) :
    Fault.useAfterDelete p ∉ (endState (run L es UvService.init)).faults ∧
      Fault.deletedWhileClosing p ∉ (endState (run L es UvService.init)).faults := by
  have hwild : OnlyWild False (endState (run L es UvService.init)) :=
    onlyWild_run h fun hf => hf.elim
  constructor
  · intro hmem
    obtain ⟨-, q, hq⟩ := hwild _ hmem
    cases hq
  · intro hmem
    obtain ⟨-, q, hq⟩ := hwild _ hmem
    cases hq

/-- Two clients come, one of them sends something, and the handler asks for the close of a
session that is not there. -/
theorem careful_run_clients :
    Fault.useAfterDelete 0 ∉ (endState (run (.loopback .unix)
      [.accept ⟨0, false, 0, 0, ⟨true, 0, 0⟩⟩ .ret, .read 0 [1, 2] ⟨false, false⟩ .ret,
        .accept ⟨0, false, 0, 0, ⟨true, 0, 0⟩⟩ (.closesession 7 ⟨false, false⟩ .ret .ret)]
      UvService.init)).faults := by
  have hcare : CarefulRun (.loopback .unix)
      [.accept ⟨0, false, 0, 0, ⟨true, 0, 0⟩⟩ .ret, .read 0 [1, 2] ⟨false, false⟩ .ret,
        .accept ⟨0, false, 0, 0, ⟨true, 0, 0⟩⟩ (.closesession 7 ⟨false, false⟩ .ret .ret)]
      UvService.init := by
    refine ⟨fun _ _ => ⟨rfl, trivial⟩, fun s hs => ?_⟩
    cases hs
    refine ⟨⟨fun _ hlen => absurd hlen (by decide), fun hbody => absurd hbody (by decide)⟩,
      fun s hs => ?_⟩
    cases hs
    exact ⟨fun _ _ => ⟨rfl, by decide, trivial⟩, fun _ _ => trivial⟩
  exact (careful_run hcare 0).1

/-- A handler that closes the new session it is told about has it used after its delete; a
handler that closes a client later has it deleted while it is closing; and a client that
goes is used after its delete, by libuv when the read callback returns and by the next
accept. -/
theorem careless_faults :
    (∃ t, run (.loopback .unix) [.accept ⟨0, false, 0, 0, ⟨true, 0, 0⟩⟩
        (.closesession 1 ⟨false, false⟩ .ret .ret)] UvService.init = .ok () t ∧
      Fault.useAfterDelete 0 ∈ t.faults) ∧
    (∃ t, run (.loopback .unix) [.accept ⟨0, false, 0, 0, ⟨true, 0, 0⟩⟩ .ret,
        .update (.closesession 1 ⟨false, false⟩ .ret .ret)] UvService.init = .ok () t ∧
      Fault.deletedWhileClosing 0 ∈ t.faults) ∧
    ∃ s t, run (.loopback .unix) [.accept ⟨0, false, 0, 0, ⟨true, 0, 0⟩⟩ .ret,
        .readError 0 uvEof ⟨false, false⟩ .ret] UvService.init = .ok () s ∧
      s.faults = [.useAfterDelete 0] ∧
      step (.loopback .unix) (.accept ⟨0, false, 0, 0, ⟨true, 0, 0⟩⟩ .ret) s = .ok () t ∧
      t.faults = [.useAfterDelete 0, .useAfterDelete 0] :=
  ⟨⟨_, rfl, by decide⟩, ⟨_, rfl, by decide⟩, ⟨_, _, rfl, by decide, rfl, by decide⟩⟩

end GEngine
