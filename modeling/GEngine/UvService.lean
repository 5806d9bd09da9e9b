import Mathlib.Logic.Function.Basic
import Mathlib.Order.Nat
import Std.Data.ExtTreeMap
import GEngine.Effect
import GEngine.UvPacket

/-!
# GEngine.UvService

The TCP side of the network service: `uv_session`, the callbacks of `uv_packet`
and `uv_tcp_server`, and `uv_service` with its two tables and its handler
(`libs/network/src/uv_session.cpp`, `uv_packet.cpp`, `uv_tcp_server.cpp`,
`uv_service.cpp`).

Every function is a program over the service state (`Svc`): it changes the state
and may die in one of the `ASSERT`s of the source, which abort the process.

* A `uv_session*` is a natural number, its place in the order of creation.  The
  `heap` keeps a session after its `delete`, marked `deleted`, so that a later
  use can be noticed.
* What C++ leaves undefined does not stop the run: it is recorded in `faults`.  From the
  first fault on the real process may do anything, and what the model does there says
  nothing about it.  So a result about runs either is about the faults themselves or goes
  up to the first one: it is about the runs that end with `faults = []`.
* The handler is arbitrary code.  What it does in one callback is a `Script`: the
  calls it makes back into the service, each with what the handler does in the
  callbacks that call leads to.
* libuv enters through `Libuv`, through the arguments of an `Event`, and through
  the answers in `Polls` of `uv_is_active`.  What it does with the memory of a session is
  followed as far as it outlives a callback: `uv_tcp_init` links the handle into
  `loop->handle_queue`, only the end of a `uv_close` takes it out again, both write into the
  handles next to it, and a stream is looked at again when its read callback returns.
-/

namespace GEngine

/-! ## libuv -/

/-- The two families of libuv ports. -/
inductive Platform
  | unix
  | windows
  deriving DecidableEq, Repr

/-- `UV_EOF`. -/
def uvEof : Int := -4095

namespace Platform

/-- `UV_ECONNRESET`. -/
def uvEconnreset : Platform → Int
  | unix => -104
  | windows => -4077

/-- `UV_ENOBUFS`. -/
def uvEnobufs : Platform → Int
  | unix => -105
  | windows => -4060

/-- `UV_EINVAL`. -/
def uvEinval : Platform → Int
  | unix => -22
  | windows => -4071

/-- `UV_EALREADY`. -/
def uvEalready : Platform → Int
  | unix => -114
  | windows => -4084

/-- `UV_ENOTCONN`. -/
def uvEnotconn : Platform → Int
  | unix => -107
  | windows => -4053

/-- `AF_INET6`. -/
def afInet6 : Platform → Nat
  | unix => 10
  | windows => 23

/-- `uv_tcp_connect` on an address with the `sa_family` field `family`: one that is neither
`AF_INET` nor `AF_INET6` is refused, and `r` is what becomes of any other. -/
def uvTcpConnect (platform : Platform) (family : Nat) (r : Int) : Int :=
  if family = 2 ∨ family = platform.afInet6 then r else platform.uvEinval

end Platform

/-- The library: its port, and its address parsers.  `uv_ip4_addr` gives the
`S_addr` of a text it accepts, `uv_ip6_addr` the sixteen address bytes. -/
structure Libuv where
  platform : Platform
  ip4Addr : String → Option Nat
  ip6Addr : String → Option (List UInt8)

/-- A library whose parsers know the two loopback addresses. -/
def Libuv.loopback (platform : Platform) : Libuv where
  platform := platform
  ip4Addr ip := if ip = "127.0.0.1" then some 0x0100007f else none
  ip6Addr ip := if ip = "::1" then some (List.replicate 15 0 ++ [1]) else none

/-- The pair of callbacks a stream reads with: `on_alloc_head` and
`on_receive_head`, or `on_alloc_body` and `on_receive_body`. -/
inductive Phase
  | head
  | body
  deriving DecidableEq, Repr

/-- An address as `uv_tcp_getsockname` reports it: the word of the address that
the code compares, and the port in network order. -/
structure SockName where
  addr : Nat
  port : Nat
  deriving DecidableEq, Repr

/-- What `uv_tcp_getsockname` reports for a socket, into a `sockaddr_in` and into
a `sockaddr_in6`; `none` when it fails. -/
structure SockNames where
  in4 : Option SockName
  in6 : Option SockName
  deriving DecidableEq, Repr

/-- What libuv keeps in a `uv_tcp_t`; `closeCb` says that `uv_close` was given the
callback `uv_session::on_close`. -/
structure UvTcp where
  reading : Option Phase
  readable : Bool
  closing : Bool
  closeCb : Bool
  closed : Bool
  names : SockNames
  deriving DecidableEq, Repr

/-- A zero-initialised `uv_tcp_t`. -/
def UvTcp.init : UvTcp := ⟨none, false, false, false, false, ⟨none, none⟩⟩

/-- `uv_close`. -/
def UvTcp.startClose (t : UvTcp) (closeCb : Bool) : UvTcp :=
  { t with reading := none, readable := false, closing := true, closeCb := closeCb }

/-- `uv_is_active`: a reading stream is active and a closing one is not.
Otherwise it depends on requests the model does not follow, and `polled` is the
answer. -/
def UvTcp.isActive (t : UvTcp) (polled : Bool) : Bool :=
  !t.closing && (t.reading.isSome || polled)

/-- The answers of `uv_is_active` to the two questions one close asks: in
`uv_session::close` and in the destructor. -/
structure Polls where
  atClose : Bool
  atDelete : Bool
  deriving DecidableEq, Repr

/-! ## Sessions and the service -/

/-- The arguments of `uv_service::connect`. -/
structure Endpoint where
  ip : String
  port : Int
  ipv6 : Bool
  deriving DecidableEq, Repr

/-- A `uv_session`.  `deleted` and `endpoint` (the `connect` call that created
the session, if one did) are bookkeeping of the model. -/
structure UvSession where
  mId : Int
  mIpv6 : Bool
  mPacket : UvPacket
  mTcp : UvTcp
  deleted : Bool
  endpoint : Option Endpoint
  deriving DecidableEq, Repr

/-- What fills the heap behind the last session. -/
instance : Inhabited UvSession :=
  ⟨⟨0, false, UvPacket.new ⟨true, 0, 0⟩, UvTcp.init, false, none⟩⟩

/-- The calls of the service into its handler. -/
inductive Callback
  | newsession (p : Nat)
  | closesession (p : Nat)
  | tcpreceive (p : Nat) (data : List UInt8)
  | newconnection (p : Nat)
  | closeconnection (p : Nat)
  deriving DecidableEq, Repr

/-- What C++ leaves undefined. -/
inductive Fault
  /-- The packet or the TCP handle of a deleted session was used. -/
  | useAfterDelete (p : Nat)
  /-- A session was deleted between `uv_close` and the close callback. -/
  | deletedWhileClosing (p : Nat)
  /-- The never initialised `m_body.base` was written through or freed. -/
  | wildPointer (p : Nat)
  /-- `uv_session::on_close` freed the handle, which lies inside the session. -/
  | freedInside (p : Nat)
  deriving DecidableEq, Repr

/-- The `ASSERT`s of the source. -/
inductive Site
  | onAcceptStatus
  | onAcceptInit
  | onAcceptReceive
  | onReceiveHead
  | onReceiveBody
  | onSend
  | connectInit
  | connectAddr
  | connectRequest
  | onConnectReceive
  | onConnectStatus
  deriving DecidableEq, Repr

/-- `std::map<int, uv_session*>`. -/
abbrev Table := Std.ExtTreeMap Int Nat

/-- The service.  `nextId` is the static counter of `generateid`, `mConnect` the
`data` pointer of `m_connect`, `pending` holds the connect requests libuv has
accepted and not yet completed, and `handleQueue` the sessions whose handles are in
`loop->handle_queue`, in its order. -/
structure UvService where
  nextId : Int
  created : Nat
  heap : Nat → UvSession
  mSessions : Table
  mConnections : Table
  mConnect : Option Nat
  pending : List Nat
  handleQueue : List Nat
  log : List Callback
  faults : List Fault

/-- The service before its first event. -/
def UvService.init : UvService :=
  ⟨0, 0, fun _ => default, ∅, ∅, none, [], [], [], []⟩

/-- Service code. -/
abbrev Svc := EStateM Site UvService

/-- `ASSERT(c)`. -/
def assertAt (site : Site) (c : Prop) [Decidable c] : Svc Unit :=
  if c then pure () else throw site

/-- A statement under a condition. -/
def onlyIf (c : Prop) [Decidable c] (x : Svc Unit) : Svc Unit :=
  if c then x else pure ()

/-- Change one session. -/
def updateSession (p : Nat) (f : UvSession → UvSession) : Svc Unit :=
  modify fun s => { s with heap := Function.update s.heap p (f (s.heap p)) }

/-- Record what C++ leaves undefined. -/
def fault (f : Fault) : Svc Unit :=
  modify fun s => { s with faults := s.faults ++ [f] }

/-- Enter the handler. -/
def callback (c : Callback) : Svc Unit :=
  modify fun s => { s with log := s.log ++ [c] }

/-- The session behind a pointer. -/
def session (p : Nat) : Svc UvSession := return (← get).heap p

/-- Use the packet or the TCP handle of a session. -/
def touch (p : Nat) : Svc Unit := do
  onlyIf ((← session p).deleted = true) (fault (.useAfterDelete p))

/-- Use the TCP handles of some sessions. -/
def touchAll : List Nat → Svc Unit
  | [] => pure ()
  | p :: ps => do
      touch p
      touchAll ps

/-! ## `loop->handle_queue` -/

/-- `uv_tcp_init`, which returns `r`.  The handle is inserted behind the last one, whose
link is written; when a socket cannot be had it is taken out again. -/
def uvTcpInit (p : Nat) (r : Int) : Svc Unit := do
  touchAll (← get).handleQueue.getLast?.toList
  onlyIf (r = 0) (modify fun s => { s with handleQueue := s.handleQueue ++ [p] })

/-- The handles next to that of `p` in the queue. -/
def neighbours (p : Nat) : List Nat → List Nat
  | q :: r :: rest =>
      if q = p then [r]
      else if r = p then q :: rest.head?.toList
      else neighbours p (r :: rest)
  | _ => []

/-- `QUEUE_REMOVE(&handle->handle_queue)`, which links the two neighbours to each other. -/
def queueRemove (p : Nat) : Svc Unit := do
  touchAll (neighbours p (← get).handleQueue)
  modify fun s => { s with handleQueue := s.handleQueue.erase p }

/-! ## `uv_session` -/

/-- `generateid()`. -/
def generateid : Svc Int := do
  modify fun s => { s with nextId := Int.bmod (s.nextId + 1) (2 ^ 32) }
  return (← get).nextId

/-- `new uv_session(service, ipv6)`. -/
def newSession (ipv6 : Bool) (fresh : Fresh) (endpoint : Option Endpoint) : Svc Nat := do
  let id ← generateid
  let p := (← get).created
  modify fun s => { s with
    created := s.created + 1
    heap := Function.update s.heap p
      ⟨id, ipv6, UvPacket.new fresh, UvTcp.init, false, endpoint⟩ }
  return p

/-- `uv_session::close()`. -/
def close (p : Nat) (polled : Bool) : Svc Unit := do
  touch p
  onlyIf ((← session p).mTcp.isActive polled = true) <|
    updateSession p fun u => { u with mTcp := u.mTcp.startClose true }

/-- `delete session`: the destructor closes an active handle, `~uv_packet` frees both
buffers, then the memory is gone.  A handle that is not closed stays where it is in
`loop->handle_queue`. -/
def deleteSession (p : Nat) (polled : Bool) : Svc Unit := do
  close p polled
  onlyIf ((← session p).mPacket.mBody.base = .wild) (fault (.wildPointer p))
  let t := (← session p).mTcp
  onlyIf (t.closing ∧ ¬ t.closed) (fault (.deletedWhileClosing p))
  updateSession p fun u => { u with mPacket := u.mPacket.free, deleted := true }

/-- `uv_session::on_close`. -/
def onClose (p : Nat) : Svc Unit := fault (.freedInside p)

/-! ## The tables -/

/-- `uv_service::getsession(id)`: a scan of the table, in key order. -/
def UvService.getsession (s : UvService) (id : Int) : Option Nat :=
  (s.mSessions.toList.find? fun e => (s.heap e.2).mId = id).map Prod.snd

/-- `uv_service::getconnection(id)`. -/
def UvService.getconnection (s : UvService) (id : Int) : Option Nat := s.mConnections[id]?

/-- `uv_service::closesession(id)`, where the handler does `handler` in
`on_closesession`. -/
def closesession (id : Int) (polls : Polls) (handler : Svc Unit) : Svc Unit := do
  match (← get).getsession id with
  | none => pure ()
  | some p =>
      close p polls.atClose
      modify fun s => { s with mSessions := s.mSessions.erase id }
      callback (.closesession p)
      handler
      deleteSession p polls.atDelete

/-- `uv_service::closeconnection(id)`. -/
def closeconnection (id : Int) (polls : Polls) (handler : Svc Unit) : Svc Unit := do
  match (← get).getconnection id with
  | none => pure ()
  | some p =>
      close p polls.atClose
      modify fun s => { s with mConnections := s.mConnections.erase id }
      callback (.closeconnection p)
      handler
      deleteSession p polls.atDelete

/-- `uv_service::on_newsession(session)`. -/
def onNewsession (p : Nat) (handler : Svc Unit) : Svc Unit := do
  let id := (← session p).mId
  modify fun s => { s with mSessions := s.mSessions.insertIfNew id p }
  callback (.newsession p)
  handler

/-- `uv_service::on_newconnection(connection)`. -/
def onNewconnection (p : Nat) (handler : Svc Unit) : Svc Unit := do
  let id := (← session p).mId
  modify fun s => { s with mConnections := s.mConnections.insertIfNew id p }
  callback (.newconnection p)
  handler

/-- `uv_service::on_tcpreceive(session, data, length)`. -/
def onTcpreceive (p : Nat) (data : List UInt8) (handler : Svc Unit) : Svc Unit := do
  callback (.tcpreceive p data)
  handler

/-! ## Receiving -/

section Receive

variable (L : Libuv)

/-- `session->packet().clear()`. -/
def clearPacket (p : Nat) : Svc Unit := do
  touch p
  onlyIf ((← session p).mPacket.clearsWild = true) (fault (.wildPointer p))
  updateSession p fun u => { u with mPacket := u.mPacket.clear }

/-- The result of `uv_read_start`.  On a stream that is already reading, the unix
port replaces the callbacks and the windows port refuses. -/
def readStartResult (t : UvTcp) : Int :=
  match L.platform with
  | .unix => if t.closing then L.platform.uvEinval else 0
  | .windows =>
      if t.reading.isSome then L.platform.uvEalready
      else if t.readable then 0
      else L.platform.uvEnotconn

/-- `uv_read_start`. -/
def uvReadStart (p : Nat) (phase : Phase) : Svc Int := do
  touch p
  let r := readStartResult L (← session p).mTcp
  onlyIf (r = 0) <|
    updateSession p fun u => { u with mTcp := { u.mTcp with reading := some phase } }
  return r

/-- `uv_packet::receive_head(session)`. -/
def receiveHead (p : Nat) : Svc Int := do
  clearPacket p
  uvReadStart L p .head

/-- `uv_packet::receive_body(session)`. -/
def receiveBody (p : Nat) : Svc Int := uvReadStart L p .body

/-- The end both receive callbacks share: the session is closed on an error, and
an error other than the two disconnects trips the assertion. -/
def receiveFailed (site : Site) (p : Nat) (nread : Int) (polls : Polls) (handler : Svc Unit) :
    Svc Unit := do
  clearPacket p
  if nread < 0 then
    let id := (← session p).mId
    closesession id polls handler
    onlyIf (nread ≠ uvEof ∧ nread ≠ L.platform.uvEconnreset) (assertAt site (0 ≤ nread))

/-- `uv_packet::on_receive_head(handle, nread, buf)`. -/
def onReceiveHead (p : Nat) (nread : Int) (polls : Polls) (handler : Svc Unit) : Svc Unit := do
  touch p
  if nread = (← session p).mPacket.mHead.len then
    updateSession p fun u => { u with mPacket := { u.mPacket with mLength := nread.toNat } }
    let packet := (← session p).mPacket
    if packet.wantsBody then
      discard <| receiveBody L p
    else
      onTcpreceive p (packet.mHead.front packet.mHead.len) handler
      clearPacket p
      discard <| receiveHead L p
  else
    receiveFailed L .onReceiveHead p nread polls handler

/-- `uv_packet::on_receive_body(handle, nread, buf)`. -/
def onReceiveBody (p : Nat) (nread : Int) (polls : Polls) (handler : Svc Unit) : Svc Unit := do
  touch p
  if (← session p).mPacket.completesBody nread then
    updateSession p fun u =>
      { u with mPacket := { u.mPacket with mLength := u.mPacket.mLength + u.mPacket.bodylength } }
    let packet := (← session p).mPacket
    onTcpreceive p
      (packet.mHead.front packet.mHead.len ++ packet.mBody.front packet.bodylength) handler
    clearPacket p
    discard <| receiveHead L p
  else
    receiveFailed L .onReceiveBody p nread polls handler

/-- libuv runs a callback for the stream of `p`, and looks at the stream again when it
returns. -/
def uvCallback (p : Nat) (cb : Svc Unit) : Svc Unit := do
  cb
  touch p

/-- libuv has `chunk` to read for the stream of `p` (nothing, if `chunk` is
empty): it asks for a buffer and reports what it stored there, never more than
fits, or `UV_ENOBUFS` when it got no buffer. -/
def uvRead (p : Nat) (chunk : List UInt8) (polls : Polls) (handler : Svc Unit) : Svc Unit := do
  match (← session p).mTcp.reading with
  | none => pure ()
  | some .head =>
      touch p
      let buf := (← session p).mPacket.mHead
      if buf.isEmpty then
        uvCallback p (onReceiveHead L p L.platform.uvEnobufs polls handler)
      else if chunk.length ≤ buf.len then
        updateSession p fun u =>
          { u with mPacket := { u.mPacket with mHead := u.mPacket.mHead.fill chunk } }
        uvCallback p (onReceiveHead L p chunk.length polls handler)
  | some .body =>
      touch p
      let packet := (← session p).mPacket
      onlyIf (packet.mBody.base = .wild) (fault (.wildPointer p))
      updateSession p fun u => { u with mPacket := packet.allocBody.1 }
      let buf := packet.allocBody.2
      if buf.isEmpty then
        uvCallback p (onReceiveBody L p L.platform.uvEnobufs polls handler)
      else if chunk.length ≤ buf.len then
        updateSession p fun u =>
          { u with mPacket := { u.mPacket with mBody := u.mPacket.mBody.fill chunk } }
        uvCallback p (onReceiveBody L p chunk.length polls handler)

/-- libuv reports the negative `nread` for the stream of `p`, and reads no
further. -/
def uvReadError (p : Nat) (nread : Int) (polls : Polls) (handler : Svc Unit) : Svc Unit := do
  match (← session p).mTcp.reading with
  | none => pure ()
  | some phase =>
      updateSession p fun u => { u with mTcp := { u.mTcp with reading := none } }
      uvCallback p <|
        match phase with
        | .head => onReceiveHead L p nread polls handler
        | .body => onReceiveBody L p nread polls handler

end Receive

/-! ## Accepting and connecting -/

/-- The results of the libuv calls `on_accept` makes, and the memory the new
session is built in. -/
structure AcceptEnv where
  status : Int
  ipv6 : Bool
  rInit : Int
  rAccept : Int
  fresh : Fresh
  deriving DecidableEq, Repr

/-- The results of the libuv calls `connect` makes, the place `addr` of the local variable
that the address is parsed into, and the memory the new session is built in. -/
structure ConnectEnv where
  rInit : Int
  addr : Nat
  rConnect : Int
  fresh : Fresh
  deriving DecidableEq, Repr

section Connect

variable (L : Libuv)

/-- `uv_tcp_server::on_accept(handle, status)`.  `env.ipv6` is the family the
server was initialised with. -/
def onAccept (env : AcceptEnv) (handler : Svc Unit) : Svc Unit := do
  assertAt .onAcceptStatus (env.status = 0)
  let p ← newSession env.ipv6 env.fresh none
  uvTcpInit p env.rInit
  if env.rInit ≠ 0 then
    deleteSession p false
    throw .onAcceptInit
  else if env.rAccept ≠ 0 then
    updateSession p fun u => { u with mTcp := u.mTcp.startClose false }
    deleteSession p false
  else
    updateSession p fun u => { u with mTcp := { u.mTcp with readable := true } }
    onNewsession p handler
    let r ← receiveHead L p
    assertAt .onAcceptReceive (r = 0)

/-- Whether `connect` finds an address in the text.  The families are the wrong
way round: with `ipv6` set it parses an IPv4 address. -/
def connectParses (e : Endpoint) : Bool :=
  if e.ipv6 then (L.ip4Addr e.ip).isSome else (L.ip6Addr e.ip).isSome

/-- What `uv_tcp_connect` returns to `connect`.  It is not given the pointer `addr` but
`&addr`, the place of the pointer: what it takes for the family of the address are the
two low bytes of the pointer, and its result depends on neither text nor port.  The
parsed address is a local `sockaddr_in` or `sockaddr_in6`, which lies at a multiple of
four, and then the result is always `UV_EINVAL` (`connectResult_aligned`).  `env.addr` is
left free for the sake of results that grant a connect that was accepted. -/
def connectResult (env : ConnectEnv) : Int :=
  L.platform.uvTcpConnect (env.addr % 2 ^ 16) env.rConnect

/-- `uv_service::connect(ip, port, ipv6)`. -/
def connect (e : Endpoint) (env : ConnectEnv) : Svc Bool := do
  let p ← newSession e.ipv6 env.fresh (some e)
  uvTcpInit p env.rInit
  assertAt .connectInit (env.rInit = 0)
  if connectParses L e then
    modify fun s => { s with mConnect := some p }
    if connectResult L env = 0 then
      modify fun s => { s with pending := s.pending ++ [p] }
      return true
    else
      close p false
      deleteSession p false
      throw .connectRequest
  else
    close p false
    deleteSession p false
    throw .connectAddr

/-- `uv_service::on_connect(req, status)`, where `closing` is what the handler does
in `on_closeconnection`. -/
def onConnect (status : Int) (polls : Polls) (handler closing : Svc Unit) : Svc Unit := do
  match (← get).mConnect with
  | none => pure ()
  | some q =>
      if status = 0 then
        onNewconnection q handler
        let r ← receiveHead L q
        if r ≠ 0 then
          let id := (← session q).mId
          closeconnection id polls closing
          throw .onConnectReceive
      else
        close q polls.atClose
        deleteSession q polls.atDelete
        throw .onConnectStatus

/-- libuv completes the connect request of `p`: it calls `on_connect` with the
request it was given, `m_connect`. -/
def uvConnected (p : Nat) (status : Int) (names : SockNames) (polls : Polls)
    (handler closing : Svc Unit) : Svc Unit := do
  if p ∈ (← get).pending then
    modify fun s => { s with pending := s.pending.erase p }
    touch p
    onlyIf (status = 0) <| updateSession p fun u =>
      { u with mTcp := { u.mTcp with readable := true, names := names } }
    uvCallback p (onConnect L status polls handler closing)

end Connect

/-! ## Handlers and runs -/

/-- What a handler does in one callback: a list of calls into the service.  A
close carries what the handler does in the close callback that it leads to. -/
inductive Script
  | ret
  | closesession (id : Int) (polls : Polls) (nested next : Script)
  | closeconnection (id : Int) (polls : Polls) (nested next : Script)
  | connect (e : Endpoint) (env : ConnectEnv) (next : Script)
  deriving DecidableEq, Repr

/-- Run a handler. -/
def Script.run (L : Libuv) : Script → Svc Unit
  | .ret => pure ()
  | .closesession id polls nested next => do
      GEngine.closesession id polls (nested.run L)
      next.run L
  | .closeconnection id polls nested next => do
      GEngine.closeconnection id polls (nested.run L)
      next.run L
  | .connect e env next => do
      discard <| GEngine.connect L e env
      next.run L

/-- One turn of the event loop. -/
inductive Event
  /-- A client was accepted. -/
  | accept (env : AcceptEnv) (script : Script)
  /-- The connect request of session `p` completed. -/
  | connected (p : Nat) (status : Int) (names : SockNames) (polls : Polls)
      (script closing : Script)
  /-- Bytes arrived for session `p`. -/
  | read (p : Nat) (chunk : List UInt8) (polls : Polls) (script : Script)
  /-- The stream of session `p` failed. -/
  | readError (p : Nat) (nread : Int) (polls : Polls) (script : Script)
  /-- A write completed. -/
  | sent (status : Int)
  /-- The close callback of session `p` is due. -/
  | closed (p : Nat)
  /-- The handler's `update()` ran. -/
  | update (script : Script)
  deriving DecidableEq, Repr

/-- `uv_tcp_server::on_send(req, status)`. -/
def onSend (status : Int) : Svc Unit := assertAt .onSend (status ≠ 0)

/-- The service handles one event.  An event libuv cannot raise in the current
state does nothing. -/
def step (L : Libuv) : Event → Svc Unit
  | .accept env script => onAccept L env (script.run L)
  | .connected p status names polls script closing =>
      uvConnected L p status names polls (script.run L) (closing.run L)
  | .read p chunk polls script => uvRead L p chunk polls (script.run L)
  | .readError p nread polls script => do
      if nread < 0 then uvReadError L p nread polls (script.run L)
  | .sent status => onSend status
  | .closed p => do
      let t := (← session p).mTcp
      if t.closing ∧ ¬ t.closed then
        touch p
        queueRemove p
        updateSession p fun u => { u with mTcp := { u.mTcp with closed := true } }
        onlyIf (t.closeCb = true) (onClose p)
  | .update script => script.run L

/-- The service handles a list of events, up to the first failed assertion. -/
def run (L : Libuv) : List Event → Svc Unit
  | [] => pure ()
  | e :: es => do
      step L e
      run L es

/-- The service reaches `s` alive. -/
def Reachable (L : Libuv) (s : UvService) : Prop :=
  ∃ es, run L es UvService.init = .ok () s

end GEngine
