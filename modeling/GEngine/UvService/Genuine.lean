import GEngine.UvService.Framing

/-!
# GEngine.UvService.Genuine

What `on_tcpreceive` is told, over every run of the service: any events in any order,
any handlers, up to the end of the run, to the assertion it dies in or to its first fault.

Each call gives the bytes of one read of that session, which filled the receive buffer
and did not announce a body.  No call is made up, mixes two sessions or two reads, comes
twice or out of order, or comes before the session was announced
(`receives_genuine`).

The argument has two halves.  Everything but a read in the header phase is `Silent`: it
makes no such call, and leaves every stream that reads announced and every stream that
waits for a body without a buffer for it.  A read in the header phase makes at most the
one call, and is silent from there on; of a deleted session it is a fault, as there is no
buffer any more to read into.
-/

namespace GEngine

open UvService

/-! ## What is told -/

/-- What a callback tells about received data. -/
def Callback.received : Callback → Option (Nat × List UInt8)
  | .tcpreceive p data => some (p, data)
  | .newsession _ => none
  | .closesession _ => none
  | .newconnection _ => none
  | .closeconnection _ => none

/-- The calls of `on_tcpreceive`, with the session and the data. -/
def receivedIn (log : List Callback) : List (Nat × List UInt8) :=
  log.filterMap Callback.received

/-- The handler was told of session `p`. -/
def Announced (log : List Callback) (p : Nat) : Prop :=
  .newsession p ∈ log ∨ .newconnection p ∈ log

/-- No session receives before it is announced. -/
def Introduced (log : List Callback) : Prop :=
  ∀ before p data, before ++ [.tcpreceive p data] <+: log → Announced before p

/-- The bytes that an event brings, if a session that waits for a header would deliver
them. -/
def Event.arrival : Event → Option (Nat × List UInt8)
  | .read p chunk _ _ => if Delivers chunk then some (p, chunk) else none
  | .accept _ _ => none
  | .connected _ _ _ _ _ _ => none
  | .readError _ _ _ _ => none
  | .sent _ => none
  | .closed _ => none
  | .update _ => none

/-- The bytes that an event brings, if the session does wait for a header. -/
def Event.heard (e : Event) (s : UvService) : List (Nat × List UInt8) :=
  e.arrival.toList.filter fun x => (s.heap x.1).mTcp.reading = some .head

theorem heard_read (s : UvService) (p : Nat) (chunk : List UInt8) (polls : Polls)
    (script : Script) : Event.heard (.read p chunk polls script) s =
      if Delivers chunk ∧ (s.heap p).mTcp.reading = some .head then [(p, chunk)] else [] := by
  by_cases hd : Delivers chunk <;> by_cases hr : (s.heap p).mTcp.reading = some .head <;>
    simp [Event.heard, Event.arrival, hd, hr]

/-- The reads that a run is to deliver. -/
def heardIn (L : Libuv) : List Event → UvService → List (Nat × List UInt8)
  | [], _ => []
  | e :: es, s =>
      e.heard s ++ match step L e s with
        | .ok _ t => heardIn L es t
        | .error _ _ => []

/-- What a run is to deliver is part of what arrived. -/
theorem heardIn_sublist (L : Libuv) (es : List Event) (s : UvService) :
    (heardIn L es s).Sublist (es.filterMap Event.arrival) := by
  induction es generalizing s with
  | nil => exact List.Sublist.slnil
  | cons e es ih =>
      have hsplit : (e :: es).filterMap Event.arrival =
          e.arrival.toList ++ es.filterMap Event.arrival := by
        cases h : e.arrival <;> simp [h]
      rw [hsplit, heardIn]
      refine List.Sublist.append List.filter_sublist ?_
      cases step L e s with
      | ok _ t => exact ih t
      | error _ _ => exact List.nil_sublist _

/-! ## Logs -/

section Logs

variable {log : List Callback} {c : Callback} {p : Nat}

theorem Announced.concat (h : Announced log p) (c : Callback) : Announced (log ++ [c]) p :=
  h.imp (List.mem_append_left _) (List.mem_append_left _)

theorem introduced_nil : Introduced [] := by
  intro before p data h
  simp at h

/-- A call may follow if the session is known. -/
theorem Introduced.concat (h : Introduced log)
    (hc : ∀ p data, c = .tcpreceive p data → Announced log p) : Introduced (log ++ [c]) := by
  intro before p data hpre
  rcases List.prefix_concat_iff.mp hpre with hlast | hpre
  · obtain ⟨hbefore, hcall⟩ := List.append_inj' hlast rfl
    rw [hbefore]
    exact hc p data (List.singleton_inj.mp hcall).symm
  · exact h before p data hpre

end Logs

/-! ## The invariant -/

/-- A stream that reads belongs to a session the handler knows, and one that waits for a
body will get no buffer for it. -/
structure Guarded (log : List Callback) (p : Nat) (u : UvSession) : Prop where
  announced : u.mTcp.reading ≠ none → Announced log p
  stuck : u.mTcp.reading = some .body → u.mPacket.mLength ≠ UvPacket.headLength

/-- The handler was told `history`, each of it about a session it knew, and the streams
are guarded. -/
structure Truthful (history : List (Nat × List UInt8)) (s : UvService) : Prop where
  told : receivedIn s.log = history
  introduced : Introduced s.log
  guarded : ∀ q, Guarded s.log q (s.heap q)

theorem truthful_init : Truthful [] UvService.init where
  told := rfl
  introduced := introduced_nil
  guarded _ := ⟨fun h => absurd rfl h, fun h => nomatch h⟩

/-- A stream that does not read is guarded. -/
theorem guarded_of_none {log : List Callback} {u : UvSession} (h : u.mTcp.reading = none) :
    Guarded log p u :=
  ⟨fun hne => absurd h hne, fun hbody => by rw [h] at hbody; contradiction⟩

theorem Guarded.mono {log log' : List Callback} (h : Guarded log p u)
    (hlog : Announced log p → Announced log' p) : Guarded log' p u :=
  ⟨fun hne => hlog (h.announced hne), h.stuck⟩

/-- Nothing is told about received data, and nothing is forgotten. -/
structure Silent (s t : UvService) : Prop where
  truthful : ∀ history, Truthful history s → Truthful history t
  announced : ∀ q, Announced s.log q → Announced t.log q

instance : Std.Refl Silent := ⟨fun _ => ⟨fun _ => id, fun _ => id⟩⟩

instance : IsTrans UvService Silent where
  trans _ _ _ h k :=
    ⟨fun history hs => k.truthful history (h.truthful history hs),
      fun q hq => k.announced q (h.announced q hq)⟩

namespace Silent

/-- Any number of silent moves. -/
theorem of_moves (h : Relation.ReflTransGen Silent s t) : Silent s t := by
  rw [Relation.reflTransGen_eq_self] at h
  exact h

/-- The log is left alone. -/
theorem of_log (hlog : t.log = s.log)
    (hg : ∀ q, Guarded s.log q (s.heap q) → Guarded s.log q (t.heap q)) : Silent s t where
  truthful history h := by
    refine ⟨?_, ?_, fun q => ?_⟩
    · rw [hlog]
      exact h.told
    · rw [hlog]
      exact h.introduced
    · rw [hlog]
      exact hg q (h.guarded q)
  announced q h := by
    rw [hlog]
    exact h

/-- Neither the log nor a session is changed. -/
theorem of_same (hlog : t.log = s.log) (hheap : t.heap = s.heap) : Silent s t :=
  of_log hlog fun q hq => by
    rw [hheap]
    exact hq

/-- Another callback, in which the sessions are as before. -/
theorem of_callback {c : Callback} (hc : c.received = none) (hheap : t.heap = s.heap)
    (hlog : t.log = s.log ++ [c]) : Silent s t where
  truthful history h := by
    refine ⟨?_, ?_, fun q => ?_⟩
    · rw [hlog, receivedIn, List.filterMap_append, List.filterMap_cons_none hc]
      exact (List.append_nil _).trans h.told
    · rw [hlog]
      refine h.introduced.concat fun p data hcall => ?_
      rw [hcall] at hc
      contradiction
    · rw [hlog, hheap]
      exact (h.guarded q).mono fun hq => hq.concat c
  announced q h := by
    rw [hlog]
    exact h.concat c

/-- One session is changed. -/
theorem withSession {f : UvSession → UvSession}
    (hf : Guarded s.log p (s.heap p) → Guarded s.log p (f (s.heap p))) :
    Silent s (s.withSession p f) := by
  refine of_log rfl fun q hq => ?_
  by_cases hqp : q = p
  · subst hqp
    rw [withSession_self]
    exact hf hq
  · rw [withSession_of_ne s f hqp]
    exact hq

/-- A new session does not read. -/
theorem withNew (s : UvService) (ipv6 : Bool) (fresh : Fresh) (e : Option Endpoint) :
    Silent s (s.withNew ipv6 fresh e) := by
  refine of_log rfl fun q hq => ?_
  by_cases hnew : q = s.created
  · subst hnew
    rw [withNew_self]
    exact guarded_of_none rfl
  · rw [withNew_of_ne s ipv6 fresh e hnew]
    exact hq

/-- Code that only touches a packet is silent. -/
theorem of_packetOnly (h : PacketOnly p s t) : Silent s t := by
  refine of_log h.log fun q hq => ?_
  by_cases hqp : q = p
  · subst hqp
    refine ⟨fun hread => ?_, fun hbody => ?_⟩
    · rw [h.mTcp] at hread
      exact hq.announced hread
    · rw [h.mTcp] at hbody
      exact h.mLength (hq.stuck hbody)
  · rw [h.others q hqp]
    exact hq

end Silent

/-! ## Silent code -/

section Code

variable {s : UvService} {p : Nat} {handler : Svc Unit}

theorem silent_fault (f : Fault) : Reaches Silent (fault f) s :=
  Reaches.modify (Silent.of_same rfl rfl)

theorem silent_onlyIf {c : Prop} [Decidable c] {x : Svc Unit} (h : Reaches Silent x s) :
    Reaches Silent (onlyIf c x) s :=
  Reaches.ite (fun _ => h) fun _ => Reaches.pure _ _

theorem silent_assertAt (site : Site) (c : Prop) [Decidable c] :
    Reaches Silent (assertAt site c) s :=
  Reaches.ite (fun _ => Reaches.pure _ _) fun _ => Reaches.throw _ _

theorem silent_updateSession {f : UvSession → UvSession}
    (hf : Guarded s.log p (s.heap p) → Guarded s.log p (f (s.heap p))) :
    Reaches Silent (updateSession p f) s :=
  Reaches.modify (Silent.withSession hf)

/-- A callback about something else than received data, for which the tables were changed
by `f`. -/
theorem silent_callback {c : Callback} {f : UvService → UvService} (hc : c.received = none)
    (hlog : ∀ s, (f s).log = s.log) (hheap : ∀ s, (f s).heap = s.heap)
    (hh : ∀ s, Reaches Silent handler s) :
    Reaches Silent (do
      modify f
      callback c
      handler) s :=
  Reaches.bind (Reaches.modify (Silent.of_same (hlog s) (hheap s))) fun _ _ _ =>
    Reaches.bind (Reaches.modify (Silent.of_callback hc rfl rfl)) fun _ _ _ => hh _

theorem silent_touch : Reaches Silent (touch p) s :=
  Reaches.bind (Reaches.pure _ _) fun _ _ _ => silent_onlyIf (silent_fault _)

theorem silent_touchAll (ps : List Nat) : Reaches Silent (touchAll ps) s := by
  induction ps generalizing s with
  | nil => exact Reaches.pure _ _
  | cons p ps ih => exact Reaches.bind silent_touch fun _ _ _ => ih

theorem silent_uvTcpInit (r : Int) : Reaches Silent (uvTcpInit p r) s := by
  refine Reaches.bind (Reaches.pure _ _) fun _ _ _ => ?_
  refine Reaches.bind (silent_touchAll _) fun _ _ _ => ?_
  exact silent_onlyIf (Reaches.modify (Silent.of_same rfl rfl))

theorem silent_queueRemove : Reaches Silent (queueRemove p) s := by
  refine Reaches.bind (Reaches.pure _ _) fun _ _ _ => ?_
  exact Reaches.bind (silent_touchAll _) fun _ _ _ => Reaches.modify (Silent.of_same rfl rfl)

theorem silent_uvCallback {cb : Svc Unit} (hcb : Reaches Silent cb s) :
    Reaches Silent (uvCallback p cb) s :=
  Reaches.bind hcb fun _ _ _ => silent_touch

/-- A handle that is closed stops to read. -/
theorem silent_close (polled : Bool) : Reaches Silent (close p polled) s := by
  refine Reaches.bind silent_touch fun _ t _ => ?_
  refine Reaches.bind (Reaches.pure _ _) fun _ t' _ => ?_
  exact silent_onlyIf (silent_updateSession fun _ => guarded_of_none rfl)

theorem silent_deleteSession (polled : Bool) : Reaches Silent (deleteSession p polled) s := by
  refine Reaches.bind (silent_close polled) fun _ _ _ => ?_
  refine Reaches.bind (Reaches.pure _ _) fun _ _ _ => ?_
  refine Reaches.bind (silent_onlyIf (silent_fault _)) fun _ _ _ => ?_
  refine Reaches.bind (Reaches.pure _ _) fun _ _ _ => ?_
  refine Reaches.bind (silent_onlyIf (silent_fault _)) fun _ _ _ => ?_
  exact silent_updateSession fun h => ⟨h.announced, fun _ => Nat.zero_ne_add_one 23⟩

theorem silent_clearPacket : Reaches Silent (clearPacket p) s := by
  obtain ⟨_, t, ht, hq⟩ := packetOnly_clearPacket (p := p) s
  unfold Reaches
  rw [ht]
  exact Relation.ReflTransGen.single (Silent.of_packetOnly hq)

/-- A handle may start to read for the phase that its session is ready for. -/
theorem guarded_readStart (L : Libuv) {log : List Callback} {phase : Phase} {u : UvSession}
    (h : Guarded log p u) (hknown : Announced log p)
    (hphase : phase = .body → u.mPacket.mLength ≠ UvPacket.headLength) :
    Guarded log p { u with mTcp := u.mTcp.readStart L phase } := by
  refine ⟨fun _ => hknown, fun hbody => ?_⟩
  unfold UvTcp.readStart at hbody
  split at hbody
  · exact hphase (Option.some.inj hbody)
  · exact h.stuck hbody

/-- Starting to read is silent for a session that was announced. -/
theorem silent_readStart (L : Libuv) {phase : Phase} (h : Announced s.log p)
    (hphase : phase = .body → (s.heap p).mPacket.mLength ≠ UvPacket.headLength) :
    Silent s (s.withSession p fun u => { u with mTcp := u.mTcp.readStart L phase }) :=
  Silent.withSession fun hg => guarded_readStart L hg h hphase

/-- A session that was announced may start to read. -/
theorem silent_receiveHead (L : Libuv) (h : Announced s.log p) :
    Reaches Silent (receiveHead L p) s := by
  obtain ⟨t, hq, ht⟩ := receiveHead_run L p s
  unfold Reaches
  rw [ht]
  have hknown : Announced t.log p := by
    rw [hq.log]
    exact h
  exact Relation.ReflTransGen.tail (.single (Silent.of_packetOnly hq))
    (silent_readStart L hknown fun hbody => nomatch hbody)

theorem silent_closesession (hh : ∀ s, Reaches Silent handler s) (id : Int) (polls : Polls) :
    Reaches Silent (closesession id polls handler) s := by
  refine Reaches.bind (Reaches.pure _ _) fun s₁ s₂ _ => ?_
  cases s₁.getsession id with
  | none => exact Reaches.pure _ _
  | some q =>
      refine Reaches.bind (silent_close _) fun _ _ _ => ?_
      refine silent_callback rfl (fun _ => rfl) (fun _ => rfl) fun _ => ?_
      exact Reaches.bind (hh _) fun _ _ _ => silent_deleteSession _

theorem silent_closeconnection (hh : ∀ s, Reaches Silent handler s) (id : Int)
    (polls : Polls) : Reaches Silent (closeconnection id polls handler) s := by
  refine Reaches.bind (Reaches.pure _ _) fun s₁ s₂ _ => ?_
  cases s₁.getconnection id with
  | none => exact Reaches.pure _ _
  | some q =>
      refine Reaches.bind (silent_close _) fun _ _ _ => ?_
      refine silent_callback rfl (fun _ => rfl) (fun _ => rfl) fun _ => ?_
      exact Reaches.bind (hh _) fun _ _ _ => silent_deleteSession _

theorem silent_newSession (ipv6 : Bool) (fresh : Fresh) (e : Option Endpoint) :
    Reaches Silent (newSession ipv6 fresh e) s :=
  Relation.ReflTransGen.single (Silent.withNew s ipv6 fresh e)

theorem silent_connect (L : Libuv) (e : Endpoint) (env : ConnectEnv) :
    Reaches Silent (connect L e env) s := by
  have hgive (q : Nat) (site : Site) (t : UvService) : Reaches Silent (do
      close q false
      deleteSession q false
      throw site : Svc Bool) t :=
    Reaches.bind (silent_close _) fun _ _ _ =>
      Reaches.bind (silent_deleteSession _) fun _ _ _ => Reaches.throw _ _
  refine Reaches.bind (silent_newSession _ _ _) fun q _ _ => ?_
  refine Reaches.bind (silent_uvTcpInit _) fun _ _ _ => ?_
  refine Reaches.bind (silent_assertAt _ _) fun _ _ _ => ?_
  refine Reaches.ite (fun _ => ?_) fun _ => hgive q _ _
  refine Reaches.bind (Reaches.modify (Silent.of_same rfl rfl)) fun _ _ _ => ?_
  refine Reaches.ite (fun _ => ?_) fun _ => hgive q _ _
  exact Reaches.bind (Reaches.modify (Silent.of_same rfl rfl)) fun _ _ _ =>
    Reaches.pure _ _

/-- A handler is silent, whatever it does. -/
theorem silent_script (L : Libuv) (script : Script) (s : UvService) :
    Reaches Silent (script.run L) s := by
  induction script generalizing s with
  | ret => exact Reaches.pure _ _
  | closesession id polls nested next ihn ihx =>
      exact Reaches.bind (silent_closesession ihn id polls) fun _ _ _ => ihx _
  | closeconnection id polls nested next ihn ihx =>
      exact Reaches.bind (silent_closeconnection ihn id polls) fun _ _ _ => ihx _
  | connect e env next ihx =>
      exact Reaches.bind (silent_connect L e env).discard fun _ _ _ => ihx _

/-- What silent code was told of, is known when it returns. -/
theorem announced_of_ok {x : Svc α} (hx : Reaches Silent x s) (h : x s = .ok a t)
    (hp : Announced s.log p) : Announced t.log p := by
  unfold Reaches at hx
  rw [h] at hx
  exact (Silent.of_moves hx).announced p hp

/-! ## Silent events -/

theorem silent_onAccept (L : Libuv) (hh : ∀ s, Reaches Silent handler s) (env : AcceptEnv) :
    Reaches Silent (onAccept L env handler) s := by
  refine Reaches.bind (silent_assertAt _ _) fun _ _ _ => ?_
  refine Reaches.bind (silent_newSession _ _ _) fun q _ _ => ?_
  refine Reaches.bind (silent_uvTcpInit _) fun _ _ _ => ?_
  refine Reaches.ite (fun _ => ?_) fun _ => Reaches.ite (fun _ => ?_) fun _ => ?_
  · exact Reaches.bind (silent_deleteSession _) fun _ _ _ => Reaches.throw _ _
  · have hclose (t : UvService) : Silent t (t.withSession q fun u =>
        { u with mTcp := u.mTcp.startClose false }) :=
      Silent.withSession fun _ => guarded_of_none rfl
    exact Reaches.bind (Reaches.modify (hclose _)) fun _ _ _ => silent_deleteSession _
  · refine Reaches.bind (silent_updateSession fun h => ⟨h.announced, h.stuck⟩) fun _ t _ => ?_
    -- the session is announced first, so that it may start to read behind the handler
    have hnew : Reaches Silent (onNewsession q handler) t := by
      refine Reaches.bind (Reaches.pure _ _) fun _ _ _ => ?_
      exact silent_callback rfl (fun _ => rfl) (fun _ => rfl) hh
    refine Reaches.bind hnew fun _ u hu => ?_
    have hknown : Announced u.log q := by
      have htail : handler (t.inNewsession q) = .ok () u := hu
      exact announced_of_ok (hh _) htail (.inl (List.mem_append_right _ List.mem_cons_self))
    exact Reaches.bind (silent_receiveHead L hknown) fun _ _ _ => silent_assertAt _ _

theorem silent_onConnect (L : Libuv) (hh : ∀ s, Reaches Silent handler s)
    {closing : Svc Unit} (hc : ∀ s, Reaches Silent closing s) (status : Int) (polls : Polls) :
    Reaches Silent (onConnect L status polls handler closing) s := by
  refine Reaches.bind (Reaches.pure _ _) fun s₁ t _ => ?_
  cases s₁.mConnect with
  | none => exact Reaches.pure _ _
  | some q =>
      refine Reaches.ite (fun _ => ?_) fun _ => ?_
      · have hnew : Reaches Silent (onNewconnection q handler) t := by
          refine Reaches.bind (Reaches.pure _ _) fun _ _ _ => ?_
          exact silent_callback rfl (fun _ => rfl) (fun _ => rfl) hh
        refine Reaches.bind hnew fun _ u hu => ?_
        have hknown : Announced u.log q := by
          have htail : handler (t.inNewconnection q) = .ok () u := hu
          exact announced_of_ok (hh _) htail (.inr (List.mem_append_right _ List.mem_cons_self))
        refine Reaches.bind (silent_receiveHead L hknown) fun _ _ _ => ?_
        refine Reaches.ite (fun _ => ?_) fun _ => Reaches.pure _ _
        refine Reaches.bind (Reaches.pure _ _) fun _ _ _ => ?_
        exact Reaches.bind (silent_closeconnection hc _ _) fun _ _ _ => Reaches.throw _ _
      · refine Reaches.bind (silent_close _) fun _ _ _ => ?_
        exact Reaches.bind (silent_deleteSession _) fun _ _ _ => Reaches.throw _ _

/-- A session that failed is closed silently. -/
theorem silent_failed (L : Libuv) (script : Script) (id : Int) (polls : Polls) (site : Site)
    (nread : Int) : Reaches Silent (uvCallback p (do
      closesession id polls (script.run L)
      failedAssert L site nread)) s :=
  silent_uvCallback (Reaches.bind (silent_closesession (silent_script L script) _ _) fun _ _ _ =>
    silent_onlyIf (silent_assertAt _ _))

/-- A stream that fails is closed silently. -/
theorem silent_readError (L : Libuv) (nread : Int) (polls : Polls) (script : Script) :
    Reaches Silent (step L (.readError p nread polls script)) s := by
  by_cases hneg : nread < 0
  · cases hread : (s.heap p).mTcp.reading with
    | none =>
        unfold Reaches
        rw [step_readError_none L polls script hneg hread]
        exact Relation.ReflTransGen.refl
    | some phase =>
        obtain ⟨t, hq, hrun⟩ := step_readError L polls script hread hneg
        have hstop : Silent s (s.withSession p UvSession.stopped) :=
          Silent.withSession fun _ => guarded_of_none rfl
        unfold Reaches
        rw [hrun]
        exact ((silent_failed L script _ polls _ nread).head (Silent.of_packetOnly hq)).head hstop
  · exact Reaches.ite (fun h => absurd h hneg) fun _ => Reaches.pure _ _

theorem silent_closed (L : Libuv) : Reaches Silent (step L (.closed p)) s := by
  refine Reaches.bind (Reaches.pure _ _) fun _ _ _ => ?_
  refine Reaches.ite (fun _ => ?_) fun _ => Reaches.pure _ _
  refine Reaches.bind silent_touch fun _ _ _ => Reaches.bind silent_queueRemove fun _ _ _ => ?_
  refine Reaches.bind (silent_updateSession fun h => ⟨h.announced, h.stuck⟩) fun _ _ _ => ?_
  exact silent_onlyIf (silent_fault _)

theorem silent_uvConnected (L : Libuv) (status : Int) (names : SockNames) (polls : Polls)
    (script closing : Script) :
    Reaches Silent (step L (.connected p status names polls script closing)) s := by
  refine Reaches.bind (Reaches.pure _ _) fun _ _ _ => ?_
  refine Reaches.ite (fun _ => ?_) fun _ => Reaches.pure _ _
  refine Reaches.bind (Reaches.modify (Silent.of_same rfl rfl)) fun _ _ _ => ?_
  refine Reaches.bind silent_touch fun _ _ _ => ?_
  refine Reaches.bind (silent_onlyIf (silent_updateSession fun h => ⟨h.announced, h.stuck⟩))
    fun _ _ _ => ?_
  exact silent_uvCallback
    (silent_onConnect L (silent_script L script) (silent_script L closing) _ _)

end Code

/-! ## One event -/

section Step

variable {L : Libuv} {s : UvService} {history : List (Nat × List UInt8)}

/-- Silent code adds nothing to the history. -/
theorem Truthful.silent (hs : Truthful history s) {x : Svc α} (hx : Reaches Silent x s) :
    Truthful (history ++ []) (endState (x s)) := by
  rw [List.append_nil]
  exact (Silent.of_moves hx).truthful history hs

/-- A session that reads may be given data. -/
theorem Truthful.receive (hs : Truthful history s) (hread : (s.heap p).mTcp.reading ≠ none)
    (data : List UInt8) :
    Truthful (history ++ [(p, data)]) (s.withCallback (.tcpreceive p data)) where
  told := by
    change receivedIn (s.log ++ [.tcpreceive p data]) = _
    rw [receivedIn, List.filterMap_append, ← hs.told]
    rfl
  introduced := by
    refine hs.introduced.concat fun q data' hcall => ?_
    cases hcall
    exact (hs.guarded p).announced hread
  guarded q := (hs.guarded q).mono fun hq => hq.concat _

/-- To read for a deleted session is a fault. -/
theorem live_of_read (hok : (s.heap p).HeadOk) (hread : (s.heap p).mTcp.reading = some .head)
    {chunk : List UInt8} {polls : Polls} {script : Script}
    (hnone : (endState (uvRead L p chunk polls (script.run L) s)).faults = []) :
    (s.heap p).deleted = false := by
  cases hdeleted : (s.heap p).deleted with
  | false => rfl
  | true =>
      rw [uvRead_deleted L polls (script.run L) hread hdeleted hok] at hnone
      have hreach := reaches_uvCallback (s := s.withFault (.useAfterDelete p)) (p := p)
        (reaches_onReceiveHead L (p := p) (reaches_script L script) L.platform.uvEnobufs polls)
      have hgrow := faults_reaches hreach
      rw [hnone] at hgrow
      simp [withFault] at hgrow

/-- A read in the header phase delivers what fills the buffer and announces no body, and
else nothing. -/
theorem Truthful.read_head (hs : Truthful history s) (hok : (s.heap p).HeadOk)
    (hlive : (s.heap p).deleted = false) (hread : (s.heap p).mTcp.reading = some .head)
    (chunk : List UInt8) (polls : Polls) (script : Script) :
    Truthful (history ++ if Delivers chunk then [(p, chunk)] else [])
      (endState (uvRead L p chunk polls (script.run L) s)) := by
  have hne : (s.heap p).mTcp.reading ≠ none := by simp [hread]
  by_cases hfull : chunk.length = packetBufferSize
  · by_cases hbody : AnnouncesBody chunk
    · obtain ⟨t, hq, hlen, hrun⟩ :=
        uvRead_announcing L polls (script.run L) hread hlive hok hfull hbody
      rw [if_neg fun h => h.2 hbody, List.append_nil, hrun]
      have ht : Truthful history t := (Silent.of_packetOnly hq).truthful history hs
      have hknown : Announced t.log p := (ht.guarded p).announced (by rw [hq.mTcp]; exact hne)
      exact (silent_readStart L hknown fun _ => hlen).truthful history ht
    · obtain ⟨t, hq, hrun⟩ :=
        uvRead_delivers L polls (script.run L) hread hlive hok hfull hbody
      rw [if_pos ⟨hfull, hbody⟩, hrun]
      have ht : Truthful (history ++ [(p, chunk)]) (t.withCallback (.tcpreceive p chunk)) :=
        ((Silent.of_packetOnly hq).truthful history hs).receive (by rw [hq.mTcp]; exact hne) chunk
      have hknown : Announced (t.withCallback (.tcpreceive p chunk)).log p :=
        (ht.guarded p).announced (show (t.heap p).mTcp.reading ≠ none by rw [hq.mTcp]; exact hne)
      have hrest : Reaches Silent (uvCallback p (do
          script.run L
          clearPacket p
          discard (receiveHead L p))) (t.withCallback (.tcpreceive p chunk)) := by
        refine silent_uvCallback ?_
        refine Reaches.bind (silent_script L script _) fun _ u hu => ?_
        have hu' := announced_of_ok (silent_script L script _) hu hknown
        refine Reaches.bind silent_clearPacket fun _ v hv => ?_
        exact (silent_receiveHead L (announced_of_ok silent_clearPacket hv hu')).discard
      exact (Silent.of_moves hrest).truthful _ ht
  · obtain ⟨t, hq, hrun⟩ := uvRead_dropped L polls (script.run L) hread hlive hok hfull
    rw [if_neg fun h => hfull h.1, List.append_nil, hrun]
    exact (Silent.of_packetOnly hq).truthful history hs

/-- An event tells the handler what it brings for a session that waits for a header. -/
theorem Truthful.after_step (hs : Truthful history s) (hok : ∀ q, (s.heap q).HeadOk) (e : Event)
    (hnone : (endState (step L e s)).faults = []) :
    Truthful (history ++ e.heard s) (endState (step L e s)) := by
  cases e with
  | read p chunk polls script =>
      cases hread : (s.heap p).mTcp.reading with
      | none =>
          have hrun : step L (.read p chunk polls script) s = .ok () s :=
            uvRead_none L polls (script.run L) hread
          rw [hrun, heard_read, if_neg (by simp [hread]), List.append_nil]
          exact hs
      | some phase =>
          cases phase with
          | head =>
              rw [heard_read]
              simp only [hread, and_true]
              exact hs.read_head (hok p) (live_of_read (hok p) hread hnone) hread chunk polls
                script
          | body =>
              obtain ⟨t, hq, hrun⟩ := uvRead_body L polls (script.run L) chunk hread
                ((hs.guarded p).stuck hread)
              have hstep : step L (.read p chunk polls script) s = _ := hrun
              rw [heard_read, if_neg (by simp [hread]), hstep]
              exact ((Silent.of_packetOnly hq).truthful history hs).silent
                (silent_failed L script _ polls _ _)
  | accept env script => exact hs.silent (silent_onAccept L (silent_script L script) env)
  | connected p status names polls script closing =>
      exact hs.silent (silent_uvConnected L status names polls script closing)
  | readError p nread polls script => exact hs.silent (silent_readError L nread polls script)
  | sent status => exact hs.silent (silent_assertAt _ _)
  | closed p => exact hs.silent (silent_closed L)
  | update script => exact hs.silent (silent_script L script s)

/-- A run tells the handler what it brings for the sessions that wait for a header. -/
theorem Truthful.after_run (hs : Truthful history s) (hok : ∀ q, (s.heap q).HeadOk)
    (es : List Event) (hnone : (endState (run L es s)).faults = []) :
    Truthful (history ++ heardIn L es s) (endState (run L es s)) := by
  induction es generalizing s history with
  | nil =>
      rw [heardIn, List.append_nil]
      exact hs
  | cons e es ih =>
      have hoks := heads_reaches (reaches_step L e s) hok
      rw [heardIn, ← List.append_assoc]
      cases hrun : step L e s with
      | ok _ t =>
          have hrest : run L (e :: es) s = run L es t := bind_of_ok hrun
          rw [hrest] at hnone ⊢
          -- what is without a fault at its end was so after its first step
          have hgrow := faults_reaches (reaches_run L es t)
          rw [hnone] at hgrow
          have hnext := hs.after_step hok e (L := L)
          rw [hrun] at hnext hoks
          exact ih (hnext (List.eq_nil_of_length_eq_zero (Nat.le_zero.mp hgrow))) hoks hnone
      | error site t =>
          have hrest : run L (e :: es) s = .error site t := bind_of_error hrun
          rw [hrest] at hnone ⊢
          have hnext := hs.after_step hok e (L := L)
          rw [hrun] at hnext
          rw [List.append_nil]
          exact hnext hnone

end Step

/-! ## Whole runs -/

/-- What a run of events told the handler about received data. -/
structure Receives (L : Libuv) (es : List Event) (log : List Callback) : Prop where
  exact : receivedIn log = heardIn L es UvService.init
  arrived : (receivedIn log).Sublist (es.filterMap Event.arrival)
  announced : Introduced log

/-- **Reception**: whatever the events and the handlers are, up to the first fault
`on_tcpreceive` is called once for each read that fills the buffer of a session waiting for
a header and announces no body, in the order of the reads and with their bytes, and for
nothing else; and only for sessions that were announced. -/
theorem receives_genuine (L : Libuv) (es : List Event)
    (hnone : (endState (run L es UvService.init)).faults = []) :
    Receives L es (endState (run L es UvService.init)).log := by
  have hend : Truthful ([] ++ heardIn L es UvService.init) (endState (run L es UvService.init)) :=
    truthful_init.after_run heads_init es hnone
  rw [List.nil_append] at hend
  refine ⟨hend.told, ?_, hend.introduced⟩
  rw [hend.told]
  exact heardIn_sublist L es UvService.init

/-- A client sends part of a header, which is dropped, and then as many zero bytes as the
receive buffer holds. -/
theorem receives_genuine_zeros :
    ∃ s, run (.loopback .unix) (.accept ⟨0, false, 0, 0, ⟨true, 0, 0⟩⟩ .ret ::
        readEvents 0 ⟨false, false⟩ [[1, 0, 0, 0], List.replicate packetBufferSize 0])
        UvService.init = .ok () s ∧
      Receives (.loopback .unix) (.accept ⟨0, false, 0, 0, ⟨true, 0, 0⟩⟩ .ret ::
        readEvents 0 ⟨false, false⟩ [[1, 0, 0, 0], List.replicate packetBufferSize 0]) s.log := by
  have hsucceeds : AcceptEnv.Succeeds ⟨0, false, 0, 0, ⟨true, 0, 0⟩⟩ := ⟨rfl, rfl, rfl⟩
  obtain ⟨s₁, hs₁, hw, -, hproper, -⟩ := accept_waiting (L := .loopback .unix)
    (s := UvService.init) hsucceeds
  obtain ⟨hp, hfaults₁⟩ := hproper rfl fun q hq => by cases hq
  have hquiet : ∀ r ∈ [[1, 0, 0, 0], List.replicate packetBufferSize 0],
      r.length = packetBufferSize → ¬ AnnouncesBody r := by
    intro r hr hfull
    rcases List.mem_cons.mp hr with rfl | hr
    · exact absurd hfull (by decide)
    · rw [List.mem_singleton.mp hr, AnnouncesBody, slice, List.drop_replicate,
        List.take_replicate]
      decide
  obtain ⟨t, ht, hfaults⟩ : ∃ t, run (.loopback .unix) (readEvents 0 ⟨false, false⟩
      [[1, 0, 0, 0], List.replicate packetBufferSize 0]) s₁ = .ok () t ∧ t.faults = s₁.faults :=
    reads_handled hw hp hquiet
  have hrun : run (.loopback .unix) (.accept ⟨0, false, 0, 0, ⟨true, 0, 0⟩⟩ .ret ::
      readEvents 0 ⟨false, false⟩ [[1, 0, 0, 0], List.replicate packetBufferSize 0])
      UvService.init = .ok () t := (bind_of_ok hs₁).trans ht
  have hnone : t.faults = [] := hfaults.trans hfaults₁
  have hreceives := receives_genuine (.loopback .unix)
    (.accept ⟨0, false, 0, 0, ⟨true, 0, 0⟩⟩ .ret ::
      readEvents 0 ⟨false, false⟩ [[1, 0, 0, 0], List.replicate packetBufferSize 0])
    (by rw [hrun]; exact hnone)
  rw [hrun] at hreceives
  exact ⟨t, hrun, hreceives⟩

end GEngine
