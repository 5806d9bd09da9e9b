import Mathlib.Data.List.Count
import Mathlib.Data.List.Nodup
import GEngine.UvService.Receive
import GEngine.UvService.Tables

/-!
# GEngine.UvService.Connect

Outgoing connects.  All of them share the request `m_connect`, whose `data` pointer
tells `on_connect` which session it is about.  Every `connect` overwrites it, so a
completion is about the session of the latest `connect`, whichever request it
completes (`log_of_ops`).

`own_iff` says when that is the session of the completed request all the same.  It grants
that `uv_tcp_connect` accepts the connects, which it does for no address that lies where
the compiler puts it (`connectResult_aligned`).
-/

namespace GEngine

open UvService

/-! ## Connects and completions -/

/-- The handler connects, or libuv completes the request of session `p`. -/
inductive ConnectOp
  | connect (e : Endpoint) (env : ConnectEnv)
  | complete (p : Nat) (names : SockNames) (polls : Polls)
  deriving DecidableEq, Repr

namespace ConnectOp

/-- The event of an operation; the handler does nothing in its callbacks. -/
def event : ConnectOp → Event
  | connect e env => .update (.connect e env .ret)
  | complete p names polls => .connected p 0 names polls .ret .ret

/-- A connect that reaches `uv_tcp_connect` and is accepted there. -/
def Accepted (L : Libuv) : ConnectOp → Prop
  | connect e env => env.rInit = 0 ∧ connectParses L e = true ∧ connectResult L env = 0
  | complete _ _ _ => True

end ConnectOp

/-- The sessions whose requests complete, in order. -/
def completions : List ConnectOp → List Nat
  | [] => []
  | .connect _ _ :: ops => completions ops
  | .complete p _ _ :: ops => p :: completions ops

/-- The latest session at each completion, when `n` sessions exist. -/
def latests : Nat → List ConnectOp → List Nat
  | _, [] => []
  | n, .connect _ _ :: ops => latests (n + 1) ops
  | n, .complete _ _ _ :: ops => (n - 1) :: latests n ops

/-- With `n` sessions and the requests `ps` pending, every completion is one of a
pending request. -/
def WellFormed : Nat → List Nat → List ConnectOp → Prop
  | _, _, [] => True
  | n, ps, .connect _ _ :: ops => WellFormed (n + 1) (ps ++ [n]) ops
  | n, ps, .complete p _ _ :: ops => p ∈ ps ∧ WellFormed n (ps.erase p) ops

/-- No connect comes between a connect and its completion: with `n` sessions, every
completion is the one of the latest. -/
def Sequential : Nat → List ConnectOp → Prop
  | _, [] => True
  | n, .connect _ _ :: ops => Sequential (n + 1) ops
  | n, .complete p _ _ :: ops => p + 1 = n ∧ Sequential n ops

/-- The id of the session that was created after `p` others. -/
def sessionId (p : Nat) : Int := Int.bmod (p + 1) (2 ^ 32)

/-- A new request is numbered behind the pending ones. -/
theorem lt_append {n : Nat} {ps : List Nat} (hps : ∀ p ∈ ps, p < n) :
    ∀ p ∈ ps ++ [n], p < n + 1 := by
  intro p hp
  rcases List.mem_append.mp hp with hp | hp
  · exact (hps p hp).trans (Nat.lt_succ_self n)
  · rw [List.mem_singleton.mp hp]
    exact Nat.lt_succ_self n

theorem nodup_append {n : Nat} {ps : List Nat} (hps : ∀ p ∈ ps, p < n) (h : ps.Nodup) :
    (ps ++ [n]).Nodup := by
  rw [List.nodup_append]
  refine ⟨h, by simp, fun a ha b hb => ?_⟩
  rw [List.mem_singleton.mp hb]
  exact Nat.ne_of_lt (hps a ha)

/-- Exactly if every completion is the one of the latest session, the two lists
agree. -/
theorem latests_eq_iff {n : Nat} {ps : List Nat} {ops : List ConnectOp}
    (hps : ∀ p ∈ ps, p < n) (h : WellFormed n ps ops) :
    latests n ops = completions ops ↔ Sequential n ops := by
  induction ops generalizing n ps with
  | nil => simp [latests, completions, Sequential]
  | cons op ops ih =>
      cases op with
      | connect e env => exact ih (lt_append hps) h
      | complete p names polls =>
          have hlt := hps p h.1
          have hrest := ih (fun q hq => hps q (List.mem_of_mem_erase hq)) h.2
          simp only [latests, completions, Sequential, List.cons.injEq, hrest]
          have hn : n - 1 = p ↔ p + 1 = n := by omega
          rw [hn]

/-! ## What the service knows -/

/-- The service after `n` connects: `ps` are pending, and `cs` were announced. -/
structure Dialing (n : Nat) (ps cs : List Nat) (s : UvService) : Prop where
  created : s.created = n
  nextId : s.nextId = Int.bmod n (2 ^ 32)
  pending : s.pending = ps
  lt : ∀ p ∈ ps, p < n
  mConnect : ∀ m, n = m + 1 → s.mConnect = some m
  mId : ∀ p, p < n → (s.heap p).mId = sessionId p
  live : ∀ p, (s.heap p).deleted = false
  closing : ∀ p, (s.heap p).mTcp.closing = false
  reading : ∀ p, (s.heap p).mTcp.reading = if p ∈ cs then some .head else none
  log : s.log = cs.map .newconnection
  table : ∀ id : Int, s.mConnections[id]? = cs.find? fun p => sessionId p = id
  fresh : ∀ p ∈ cs, p < n

theorem dialing_init : Dialing 0 [] [] UvService.init where
  created := rfl
  nextId := rfl
  pending := rfl
  lt := by simp
  mConnect m h := by cases h
  mId p h := absurd h (Nat.not_lt_zero p)
  live _ := rfl
  closing _ := rfl
  reading _ := rfl
  log := rfl
  table id := by simp [UvService.init]
  fresh := by simp

section Step

variable {L : Libuv} {n : Nat} {ps cs : List Nat} {s : UvService}

/-- A local `sockaddr_in` or `sockaddr_in6` lies at a multiple of four, and no number that
ends in two bytes `AF_INET` or `AF_INET6` is one. -/
theorem connectResult_aligned (L : Libuv) {env : ConnectEnv} (h : 4 ∣ env.addr) :
    connectResult L env = L.platform.uvEinval := by
  have hfamily : ¬ (env.addr % 2 ^ 16 = 2 ∨ env.addr % 2 ^ 16 = L.platform.afInet6) := by
    cases L.platform with
    | unix =>
        simp only [Platform.afInet6]
        omega
    | windows =>
        simp only [Platform.afInet6]
        omega
  rw [connectResult, Platform.uvTcpConnect, if_neg hfamily]

/-- An accepted connect. -/
theorem connect_run {e : Endpoint} {env : ConnectEnv}
    (h : (ConnectOp.connect e env).Accepted L) :
    connect L e env s = .ok true
      { (s.withNew e.ipv6 env.fresh (some e)).withHandle s.created env.rInit with
        mConnect := some s.created, pending := s.pending ++ [s.created] } := by
  unfold connect
  rw [bind_of_ok (newSession_run _ _ _), bind_of_ok (uvTcpInit_run _), assertAt, if_pos h.1,
    pure_bind, if_pos h.2.1, if_pos h.2.2]
  rfl

theorem dialing_connect {e : Endpoint} {env : ConnectEnv} (hd : Dialing n ps cs s)
    (h : (ConnectOp.connect e env).Accepted L) :
    ∃ t, step L (ConnectOp.connect e env).event s = .ok () t ∧
      Dialing (n + 1) (ps ++ [n]) cs t := by
  let t : UvService := { (s.withNew e.ipv6 env.fresh (some e)).withHandle s.created env.rInit with
    mConnect := some s.created, pending := s.pending ++ [s.created] }
  have hself : t.heap n = ⟨Int.bmod (s.nextId + 1) (2 ^ 32), e.ipv6, UvPacket.new env.fresh,
      UvTcp.init, false, some e⟩ := by
    rw [← hd.created]
    exact withNew_self s _ _ _
  have hother (p : Nat) (hp : p ≠ n) : t.heap p = s.heap p := by
    rw [← hd.created] at hp
    exact withNew_of_ne s _ _ _ hp
  have hid : Int.bmod (s.nextId + 1) (2 ^ 32) = sessionId n := by
    rw [hd.nextId]
    exact Int.bmod_add_bmod
  refine ⟨t, ?_, ?_⟩
  · change (discard (connect L e env) >>= fun _ => pure ()) s = _
    rw [bind_of_ok (discard_of_ok (connect_run h))]
    rfl
  · refine ⟨?_, ?_, ?_, lt_append hd.lt, fun m hm => ?_, fun p hp => ?_, fun p => ?_, fun p => ?_,
      fun p => ?_, hd.log, hd.table, fun p hp => (hd.fresh p hp).trans (Nat.lt_succ_self n)⟩
    · exact congrArg (· + 1) hd.created
    · exact hid
    · change s.pending ++ [s.created] = _
      rw [hd.pending, hd.created]
    · have hmn : m = n := by omega
      rw [hmn, ← hd.created]
    all_goals by_cases hpn : p = n
    · rw [hpn, hself]
      exact hid
    · rw [hother p hpn]
      exact hd.mId p (by omega)
    · rw [hpn, hself]
    · rw [hother p hpn]
      exact hd.live p
    · rw [hpn, hself]
      rfl
    · rw [hother p hpn]
      exact hd.closing p
    · have hnot : n ∉ cs := fun hmem => Nat.lt_irrefl n (hd.fresh n hmem)
      rw [hpn, hself, if_neg hnot]
      rfl
    · rw [hother p hpn]
      exact hd.reading p

/-- A completion, whichever it is, is about the latest session `m`. -/
theorem complete_eq {names : SockNames} {polls : Polls} (hd : Dialing (m + 1) ps cs s)
    (hp : p ∈ ps) :
    step L (ConnectOp.complete p names polls).event s =
      uvCallback p (receiveConnected L m polls (pure ())) (inConnected s p names m) := by
  have hmem : p ∈ s.pending := by rw [hd.pending]; exact hp
  have hsome : (withConnected s p names).mConnect = some m := hd.mConnect m rfl
  change uvConnected L p 0 names polls (pure ()) (pure ()) s = _
  unfold uvConnected
  rw [bind_of_ok (show (get : Svc UvService) s = .ok s s from rfl), if_pos hmem]
  have hlive : (({ s with pending := s.pending.erase p } : UvService).heap p).deleted = false :=
    hd.live p
  refine (bind_of_ok rfl).trans ((bind_of_ok (touch_live hlive)).trans ?_)
  exact bind_of_eq (onConnect_announces L polls (pure ()) (pure ()) hsome rfl)

/-- If the new connection can be read from, it is. -/
theorem receiveConnected_of_zero {q : Nat} (polls : Polls) (closing : Svc Unit)
    (h : readStartResult L (s.heap q).mTcp = 0) :
    ∃ t, PacketOnly q s t ∧ receiveConnected L q polls closing s =
      .ok () (t.withSession q fun u => { u with mTcp := u.mTcp.readStart L .head }) := by
  obtain ⟨t, hq, ht⟩ := receiveHead_run L q s
  refine ⟨t, hq, ?_⟩
  unfold receiveConnected
  rw [bind_of_ok ht, if_neg (not_not.mpr h)]
  rfl

/-- Otherwise the process dies. -/
theorem receiveConnected_ne_ok {q : Nat} (polls : Polls) (closing : Svc Unit)
    (h : readStartResult L (s.heap q).mTcp ≠ 0) :
    receiveConnected L q polls closing s ≠ .ok () t := by
  obtain ⟨s₁, -, hs₁⟩ := receiveHead_run L q s
  intro hok
  unfold receiveConnected at hok
  rw [bind_of_ok hs₁, if_pos h, bind_of_ok session_run] at hok
  obtain ⟨_, u, -, hthrow⟩ := bind_eq_ok hok
  cases hthrow

/-- What a socket's connection changes in a session. -/
theorem tcp_withConnected (s : UvService) (p : Nat) (names : SockNames) (q : Nat) :
    ((withConnected s p names).heap q).mId = (s.heap q).mId ∧
      ((withConnected s p names).heap q).deleted = (s.heap q).deleted ∧
      ((withConnected s p names).heap q).mTcp.closing = (s.heap q).mTcp.closing ∧
      ((withConnected s p names).heap q).mTcp.reading = (s.heap q).mTcp.reading := by
  unfold withConnected
  by_cases hq : q = p
  · subst hq
    rw [withSession_self]
    exact ⟨rfl, rfl, rfl, rfl⟩
  · rw [withSession_of_ne _ _ hq]
    exact ⟨rfl, rfl, rfl, rfl⟩

/-- A completion goes through if the latest session can be read from. -/
theorem complete_of_zero {names : SockNames} (polls : Polls) (hd : Dialing (m + 1) ps cs s)
    (hp : p ∈ ps) (h0 : readStartResult L ((inConnected s p names m).heap m).mTcp = 0) :
    ∃ t u, PacketOnly m (inConnected s p names m) t ∧
      u = t.withSession m (fun u => { u with mTcp := u.mTcp.readStart L .head }) ∧
      (∀ q, (u.heap q).deleted = false) ∧
      step L (ConnectOp.complete p names polls).event s = .ok () u := by
  obtain ⟨t, hq, ht⟩ := receiveConnected_of_zero polls (pure ()) h0
  have hlive (q : Nat) : ((t.withSession m fun u =>
      { u with mTcp := u.mTcp.readStart L .head }).heap q).deleted = false := by
    have hconn := (tcp_withConnected s p names q).2.1.trans (hd.live q)
    by_cases hqm : q = m
    · subst hqm
      rw [withSession_self]
      exact hq.deleted.trans hconn
    · rw [withSession_of_ne _ _ hqm, hq.others q hqm]
      exact hconn
  exact ⟨t, _, hq, rfl, hlive,
    (complete_eq hd hp).trans ((bind_of_ok ht).trans (touch_live (hlive p)))⟩

/-- Otherwise it does not. -/
theorem complete_ne_ok {names : SockNames} {polls : Polls} (hd : Dialing (m + 1) ps cs s)
    (hp : p ∈ ps) (h : readStartResult L ((inConnected s p names m).heap m).mTcp ≠ 0) :
    step L (ConnectOp.complete p names polls).event s ≠ .ok () t := by
  rw [complete_eq hd hp]
  intro hok
  obtain ⟨_, u, hu, -⟩ := bind_eq_ok hok
  exact receiveConnected_ne_ok polls (pure ()) h hu

/-- Registering session `m` leaves an entry under its id in place. -/
theorem getElem?_register {u : UvService} (hkey : (u.heap m).mId = sessionId m) (id : Int) :
    (u.inNewconnection m).mConnections[id]? =
      (u.mConnections[id]?).or ([m].find? fun p => sessionId p = id) := by
  change (u.mConnections.insertIfNew (u.heap m).mId m)[id]? = _
  simp only [hkey, Std.ExtTreeMap.getElem?_insertIfNew, Std.LawfulEqCmp.compare_eq_iff_eq,
    Std.ExtTreeMap.mem_iff_isSome_getElem?]
  by_cases hid : sessionId m = id
  · subst hid
    cases hget : u.mConnections[sessionId m]? with
    | none => simp
    | some q => simp
  · simp [hid]

/-- A completion announces the latest session. -/
theorem dialing_complete {names : SockNames} {polls : Polls} (hd : Dialing (m + 1) ps cs s)
    (hp : p ∈ ps) (hok : step L (ConnectOp.complete p names polls).event s = .ok () t) :
    Dialing (m + 1) (ps.erase p) (cs ++ [m]) t := by
  by_cases h0 : readStartResult L ((inConnected s p names m).heap m).mTcp = 0
  · obtain ⟨u, v, hq, hv, hlive, hu⟩ := complete_of_zero polls hd hp h0
    rw [hu] at hok
    cases hok
    subst hv
    have htcp (q : Nat) := tcp_withConnected s p names q
    have hstart : (u.heap m).mTcp.readStart L .head =
        { (u.heap m).mTcp with reading := some .head } := by
      rw [UvTcp.readStart, if_pos (by rw [hq.mTcp]; exact h0)]
    refine ⟨?_, ?_, ?_, fun q hq' => ?_, fun k hk => ?_, fun q hlt => ?_, hlive, fun q => ?_,
      fun q => ?_, ?_, fun id => ?_, fun q hmem => ?_⟩
    · exact hq.created.trans hd.created
    · exact hq.nextId.trans hd.nextId
    · rw [← hd.pending]
      exact hq.pending
    · exact hd.lt q (List.mem_of_mem_erase hq')
    · exact hq.mConnect.trans (hd.mConnect k hk)
    · by_cases hqm : q = m
      · rw [hqm, withSession_self]
        exact (hq.mId.trans (htcp m).1).trans (hd.mId m (Nat.lt_succ_self m))
      · rw [withSession_of_ne _ _ hqm]
        exact (hq.ids q).trans ((htcp q).1.trans (hd.mId q hlt))
    · by_cases hqm : q = m
      · rw [hqm, withSession_self, hstart, hq.mTcp]
        exact (htcp m).2.2.1.trans (hd.closing m)
      · rw [withSession_of_ne _ _ hqm, hq.others q hqm]
        exact (htcp q).2.2.1.trans (hd.closing q)
    · by_cases hqm : q = m
      · rw [hqm, withSession_self, hstart, if_pos (by simp)]
      · rw [withSession_of_ne _ _ hqm, hq.others q hqm]
        refine ((htcp q).2.2.2.trans (hd.reading q)).trans ?_
        simp [hqm]
    · rw [List.map_append]
      exact hq.log.trans (congrArg (· ++ [Callback.newconnection m]) hd.log)
    · have hkey : ((withConnected s p names).heap m).mId = sessionId m :=
        (htcp m).1.trans (hd.mId m (Nat.lt_succ_self m))
      rw [List.find?_append, ← hd.table id]
      refine (congrArg (fun table : Table => table[id]?) hq.mConnections).trans ?_
      exact getElem?_register hkey id
    · rcases List.mem_append.mp hmem with hmem | hmem
      · exact hd.fresh q hmem
      · rw [List.mem_singleton.mp hmem]
        exact Nat.lt_succ_self m
  · exact absurd hok (complete_ne_ok hd hp h0)

/-- The completion of the latest request, whose session was not announced before,
succeeds. -/
theorem complete_latest {names : SockNames} {polls : Polls} (hd : Dialing (m + 1) ps cs s)
    (hp : m ∈ ps) (hnew : m ∉ cs) :
    ∃ t, step L (ConnectOp.complete m names polls).event s = .ok () t := by
  have htcp := tcp_withConnected s m names m
  have hread : ((inConnected s m names m).heap m).mTcp.reading = none := by
    refine htcp.2.2.2.trans ((hd.reading m).trans ?_)
    rw [if_neg hnew]
  have hclosing : ((inConnected s m names m).heap m).mTcp.closing = false :=
    htcp.2.2.1.trans (hd.closing m)
  have hreadable : ((inConnected s m names m).heap m).mTcp.readable = true := by
    change ((withConnected s m names).heap m).mTcp.readable = true
    rw [withConnected, withSession_self]
  have h0 : readStartResult L ((inConnected s m names m).heap m).mTcp = 0 := by
    cases hplat : L.platform <;> simp [readStartResult, hplat, hread, hclosing, hreadable]
  obtain ⟨-, u, -, -, -, hu⟩ := complete_of_zero polls hd hp h0
  exact ⟨u, hu⟩

end Step

/-! ## Runs -/

section Run

variable {L : Libuv} {n : Nat} {ps cs : List Nat} {s : UvService} {ops : List ConnectOp}

/-- The events of a list of operations. -/
def events (ops : List ConnectOp) : List Event := ops.map ConnectOp.event

theorem run_cons_ok {e : Event} {es : List Event} (h : run L (e :: es) s = .ok () t) :
    ∃ s₁, step L e s = .ok () s₁ ∧ run L es s₁ = .ok () t := by
  obtain ⟨_, s₁, h₁, h₂⟩ := bind_eq_ok h
  exact ⟨s₁, h₁, h₂⟩

/-- After a run, the latest session at each completion was announced, and every
session is pending or has had its completion. -/
theorem dialing_run (hd : Dialing n ps cs s) (hacc : ∀ op ∈ ops, op.Accepted L)
    (hwf : WellFormed n ps ops) (hrun : run L (events ops) s = .ok () t) :
    ∃ n' ps', Dialing n' ps' (cs ++ latests n ops) t ∧
      ∀ done : List Nat, (∀ p < n, p ∈ ps ∨ p ∈ done) →
        ∀ p < n', p ∈ ps' ∨ p ∈ done ++ completions ops := by
  induction ops generalizing n ps cs s with
  | nil =>
      cases hrun
      refine ⟨n, ps, by rw [latests, List.append_nil]; exact hd, fun done hall p hp => ?_⟩
      rw [completions, List.append_nil]
      exact hall p hp
  | cons op ops ih =>
      have hrest : ∀ op ∈ ops, op.Accepted L := fun op hop => hacc op (List.mem_cons_of_mem _ hop)
      obtain ⟨s₁, hs₁, hrun₁⟩ := run_cons_ok hrun
      cases op with
      | connect e env =>
          obtain ⟨s₂, hs₂, hd₂⟩ := dialing_connect hd (hacc _ List.mem_cons_self)
          rw [hs₂] at hs₁
          cases hs₁
          obtain ⟨n', ps', hd', hall'⟩ := ih hd₂ hrest hwf hrun₁
          refine ⟨n', ps', hd', fun done hall => hall' done fun p hp => ?_⟩
          by_cases hpn : p = n
          · exact .inl (by simp [hpn])
          · exact (hall p (by omega)).imp_left fun hmem => List.mem_append_left _ hmem
      | complete p names polls =>
          cases n with
          | zero => exact absurd (hd.lt p hwf.1) (Nat.not_lt_zero p)
          | succ m =>
              have hd₁ := dialing_complete hd hwf.1 hs₁
              obtain ⟨n', ps', hd', hall'⟩ := ih hd₁ hrest hwf.2 hrun₁
              refine ⟨n', ps', ?_, fun done hall q hq => ?_⟩
              · rw [List.append_assoc] at hd'
                exact hd'
              · have hq' := hall' (done ++ [p]) (fun q hq => ?_) q hq
                · rw [List.append_assoc] at hq'
                  exact hq'
                · by_cases hqp : q = p
                  · exact .inr (by simp [hqp])
                  · refine (hall q hq).imp (fun hmem => ?_) fun hmem => List.mem_append_left _ hmem
                    exact (List.mem_erase_of_ne hqp).mpr hmem

/-- A sequential run goes through. -/
theorem run_sequential (hd : Dialing n ps cs s) (hacc : ∀ op ∈ ops, op.Accepted L)
    (hwf : WellFormed n ps ops) (hseq : Sequential n ops) (hnodup : ps.Nodup)
    (hdisj : ∀ p ∈ ps, p ∉ cs) : ∃ t, run L (events ops) s = .ok () t := by
  induction ops generalizing n ps cs s with
  | nil => exact ⟨s, rfl⟩
  | cons op ops ih =>
      have hrest : ∀ op ∈ ops, op.Accepted L := fun op hop => hacc op (List.mem_cons_of_mem _ hop)
      cases op with
      | connect e env =>
          obtain ⟨s₁, hs₁, hd₁⟩ := dialing_connect hd (hacc _ List.mem_cons_self)
          have hdisj' : ∀ p ∈ ps ++ [n], p ∉ cs := by
            intro p hp hmem
            rcases List.mem_append.mp hp with hp | hp
            · exact hdisj p hp hmem
            · rw [List.mem_singleton.mp hp] at hmem
              exact Nat.lt_irrefl n (hd.fresh n hmem)
          obtain ⟨t, ht⟩ := ih hd₁ hrest hwf hseq (nodup_append hd.lt hnodup) hdisj'
          exact ⟨t, (bind_of_ok hs₁).trans ht⟩
      | complete p names polls =>
          obtain ⟨rfl, hseq'⟩ := hseq
          obtain ⟨s₁, hs₁⟩ := complete_latest (L := L) hd hwf.1 (hdisj p hwf.1)
          have hd₁ := dialing_complete hd hwf.1 hs₁
          have hdisj' : ∀ q ∈ ps.erase p, q ∉ cs ++ [p] := by
            intro q hq hmem
            obtain ⟨hne, hq'⟩ := (List.Nodup.mem_erase_iff hnodup).mp hq
            rcases List.mem_append.mp hmem with hmem | hmem
            · exact hdisj q hq' hmem
            · exact hne (List.mem_singleton.mp hmem)
          obtain ⟨t, ht⟩ := ih hd₁ hrest hwf.2 hseq' (hnodup.erase p) hdisj'
          exact ⟨t, (bind_of_ok hs₁).trans ht⟩

/-- A request completes at most once. -/
theorem nodup_completions (hps : ∀ p ∈ ps, p < n) (hnodup : ps.Nodup) (h : WellFormed n ps ops) :
    (completions ops).Nodup ∧ ∀ p ∈ completions ops, p ∈ ps ∨ n ≤ p := by
  induction ops generalizing n ps with
  | nil => simp [completions]
  | cons op ops ih =>
      cases op with
      | connect e env =>
          obtain ⟨hnd, hmem⟩ := ih (lt_append hps) (nodup_append hps hnodup) h
          refine ⟨hnd, fun p hp => ?_⟩
          rcases hmem p hp with hold | hlater
          · rcases List.mem_append.mp hold with hold | hnew
            · exact .inl hold
            · exact .inr (Nat.le_of_eq (List.mem_singleton.mp hnew).symm)
          · exact .inr (Nat.le_of_succ_le hlater)
      | complete p names polls =>
          obtain ⟨hnd, hmem⟩ :=
            ih (fun q hq => hps q (List.mem_of_mem_erase hq)) (hnodup.erase p) h.2
          refine ⟨List.nodup_cons.mpr ⟨fun hp => ?_, hnd⟩, fun q hq => ?_⟩
          · rcases hmem p hp with hold | hlater
            · exact ((List.Nodup.mem_erase_iff hnodup).mp hold).1 rfl
            · exact absurd (hps p h.1) (Nat.not_lt.mpr hlater)
          · rcases List.mem_cons.mp hq with rfl | hq
            · exact .inl h.1
            · exact (hmem q hq).imp_left List.mem_of_mem_erase

end Run

/-! ## Every completion finds its own session -/

/-- Among different sessions, the first with a given id is found exactly if no two
share an id. -/
theorem find_iff_pairwise {cs : List Nat} (hnodup : cs.Nodup) :
    (∀ p ∈ cs, (cs.find? fun q => sessionId q = sessionId p) = some p) ↔
      cs.Pairwise fun p q => sessionId p ≠ sessionId q := by
  induction cs with
  | nil => simp
  | cons c cs ih =>
      obtain ⟨hc, hnd⟩ := List.nodup_cons.mp hnodup
      rw [List.pairwise_cons, ← ih hnd]
      constructor
      · intro h
        have hne : ∀ p ∈ cs, sessionId c ≠ sessionId p := by
          intro p hp heq
          have hfind := h p (List.mem_cons_of_mem c hp)
          rw [List.find?_cons_of_pos (by simpa using heq)] at hfind
          cases hfind
          exact hc hp
        refine ⟨hne, fun p hp => ?_⟩
        have hfind := h p (List.mem_cons_of_mem c hp)
        rwa [List.find?_cons_of_neg (by simpa using hne p hp)] at hfind
      · rintro ⟨hne, h⟩ p hp
        rcases List.mem_cons.mp hp with rfl | hp
        · exact List.find?_cons_of_pos (by simp)
        · rw [List.find?_cons_of_neg (by simpa using hne p hp)]
          exact h p hp

/-- Session `p` is registered, was announced once and receives. -/
structure Connected (s : UvService) (p : Nat) : Prop where
  registered : s.mConnections[(s.heap p).mId]? = some p
  announced : s.log.count (.newconnection p) = 1
  receiving : (s.heap p).mTcp.reading = some .head

/-- The connects and completions `ops` lose and duplicate no session: each completion
announces the session of its own request, and it is connected; nothing else is
registered; and when nothing is pending any more, every session is connected. -/
structure Own (L : Libuv) (ops : List ConnectOp) (t : UvService) : Prop where
  run : GEngine.run L (events ops) UvService.init = .ok () t
  log : t.log = (completions ops).map .newconnection
  connected : ∀ p ∈ completions ops, Connected t p
  nothingElse : ∀ (id : Int) (p : Nat), t.mConnections[id]? = some p → p ∈ completions ops
  all : t.pending = [] → ∀ p < t.created, Connected t p

/-- **Connects**: no session is lost or duplicated exactly when every completion is the
one of the latest connect, and no two completed sessions got the same id. -/
theorem own_iff {L : Libuv} {ops : List ConnectOp} (hacc : ∀ op ∈ ops, op.Accepted L)
    (hwf : WellFormed 0 [] ops) :
    (∃ t, Own L ops t) ↔
      Sequential 0 ops ∧ (completions ops).Pairwise fun p q => sessionId p ≠ sessionId q := by
  have hnodup : (completions ops).Nodup := (nodup_completions (by simp) (by simp) hwf).1
  have hseq := latests_eq_iff (by simp) hwf
  constructor
  · rintro ⟨t, h⟩
    obtain ⟨n, ps, hd, -⟩ := dialing_run dialing_init hacc hwf h.run
    rw [List.nil_append] at hd
    have hinj : Function.Injective Callback.newconnection := fun _ _ hab =>
      Callback.newconnection.inj hab
    have hlist : latests 0 ops = completions ops :=
      List.map_injective_iff.mpr hinj (hd.log.symm.trans h.log)
    rw [hlist] at hd
    refine ⟨hseq.mp hlist, (find_iff_pairwise hnodup).mp fun p hp => ?_⟩
    have hreg := (h.connected p hp).registered
    rw [hd.mId p (hd.fresh p hp), hd.table] at hreg
    exact hreg
  · rintro ⟨hs, hids⟩
    obtain ⟨t, ht⟩ := run_sequential (L := L) dialing_init hacc hwf hs (by simp) (by simp)
    obtain ⟨n, ps, hd, hall⟩ := dialing_run dialing_init hacc hwf ht
    rw [List.nil_append, hseq.mpr hs] at hd
    have hconn : ∀ p ∈ completions ops, Connected t p := by
      intro p hp
      refine ⟨?_, ?_, ?_⟩
      · rw [hd.mId p (hd.fresh p hp), hd.table]
        exact (find_iff_pairwise hnodup).mpr hids p hp
      · have hinj : Function.Injective Callback.newconnection := fun _ _ hab =>
          Callback.newconnection.inj hab
        rw [hd.log, List.count_map_of_injective _ _ hinj]
        exact List.count_eq_one_of_mem hnodup hp
      · rw [hd.reading, if_pos hp]
    refine ⟨t, ht, hd.log, hconn, fun id p hp => ?_, fun hdone p hp => hconn p ?_⟩
    · rw [hd.table] at hp
      exact List.mem_of_find?_eq_some hp
    · have hmem := hall [] (fun p hp => absurd hp (Nat.not_lt_zero p)) p
        (by rw [← hd.created]; exact hp)
      rw [← hd.pending, hdone] at hmem
      simpa using hmem

/-- Two connects, one after the other. -/
theorem own_sequential : ∃ t, Own (.loopback .windows)
    [.connect ⟨"::1", 80, false⟩ ⟨0, 2, 0, ⟨true, 0, 0⟩⟩, .complete 0 ⟨none, none⟩ ⟨false, false⟩,
      .connect ⟨"::1", 81, false⟩ ⟨0, 2, 0, ⟨true, 0, 0⟩⟩,
      .complete 1 ⟨none, none⟩ ⟨false, false⟩] t := by
  refine (own_iff ?_ ?_).mpr ⟨?_, ?_⟩
  · simp [ConnectOp.Accepted, connectParses, Libuv.loopback, connectResult,
      Platform.uvTcpConnect]
  · simp [WellFormed]
  · simp [Sequential]
  · decide

/-- Two connects at a time: the second session is announced twice, the first never. -/
theorem not_own_overlapping : ¬ ∃ t, Own (.loopback .unix)
    [.connect ⟨"::1", 80, false⟩ ⟨0, 2, 0, ⟨true, 0, 0⟩⟩,
      .connect ⟨"::1", 81, false⟩ ⟨0, 2, 0, ⟨true, 0, 0⟩⟩,
      .complete 0 ⟨none, none⟩ ⟨false, false⟩, .complete 1 ⟨none, none⟩ ⟨false, false⟩] t := by
  rintro ⟨t, h⟩
  have hrun := h.run
  cases hrun
  exact absurd h.log (by decide)

end GEngine
