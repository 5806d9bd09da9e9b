import GEngine.Packet.Message
import GEngine.Serverapp.Receive
import GEngine.UvService.Framing
import GEngine.UvService.Lifetime

/-!
# GEngine.Serverapp.Register

How servers register with each other.  A server that has connected to another one sends it
an `ss_register_request` with its id, its type and its name
(`serverapp::on_newconnection`); the other one is to get it in `on_tcpreceive`, from where
it goes to the receivers of `SS_REGISTER_REQUEST`.

If the bytes came through as they were sent, they would get there, and the request could
be read, up to the byte too many of `packet::body` (`register_delivered`).  They do not:
a request is shorter than the receive buffer, and a read that does not fill the buffer is
dropped.  However many servers register, and however the network cuts and mixes what they
send, no handler is called (`registrations_lost`, which grants that the memory of the new
sessions does not make the service crash first).
-/

namespace GEngine

namespace Serverapp

open Pb UvService

/-! ## Servers -/

/-- `APP_NONE`. -/
def appNone : Int := 0

/-- `APP_MAX`. -/
def appMax : Int := 6

/-- `serverappname`: `"none\t"`, `"login\t"`, `"gateway"`, `"logic\t"`, `"game\t"` and
`"db\t\t"`. -/
def serverappname : List (List UInt8) :=
  [[110, 111, 110, 101, 9], [108, 111, 103, 105, 110, 9], [103, 97, 116, 101, 119, 97, 121],
    [108, 111, 103, 105, 99, 9], [103, 97, 109, 101, 9], [100, 98, 9, 9]]

/-- The members of `serverapp`. -/
structure App where
  mId : Int32
  mType : Int

namespace App

/-- `serverapp::serverapp(id, type)`. -/
def new (id : Int32) (type : Int) : App :=
  ⟨id, if type < 0 ∨ type > appMax then appNone else type⟩

/-- `name()`; `none` where it reads behind the table. -/
def name (app : App) : App × Option (List UInt8) :=
  let app := if app.mType < 0 ∨ app.mType > appMax then { app with mType := appNone } else app
  (app, serverappname[app.mType.toNat]?)

end App

/-- `mutable_info()`, and a change to what it returns. -/
def mutableInfo (m : SsRegisterRequest) (f : Serverappinfo → Serverappinfo) : SsRegisterRequest :=
  m.setInfo (f (m.info.getD Serverappinfo.new))

namespace App

/-- The request that `on_newconnection` fills in. -/
def registerRequest (app : App) : Option SsRegisterRequest :=
  let cmd := mutableInfo SsRegisterRequest.new (·.setId app.mId.toUInt32)
  let cmd := mutableInfo cmd (·.setType (Int32.ofInt app.mType).toUInt32)
  app.name.2.map fun name => mutableInfo cmd (·.setName name)

/-- `SS_REGISTER_REQUEST`. -/
def ssRegisterRequest : Int := 1

/-- `on_newconnection(connection)`: the packet whose bytes it sends. -/
def onNewconnection (app : App) (time : Int) : Option Packet := do
  let cmd ← app.registerRequest
  let proto ← SsRegisterRequest.messageType.serializeToString cmd
  return Packet.new time ssRegisterRequest (some proto) proto.length app.mId.toInt

end App

/-! ## Requests -/

/-- What a server says of itself. -/
def infoOf (app : App) (name : List UInt8) : Serverappinfo :=
  ⟨some app.mId.toUInt32, some (Int32.ofInt app.mType).toUInt32, some name, none, none, []⟩

theorem registerRequest_eq_some {app : App} {cmd : SsRegisterRequest}
    (h : app.registerRequest = some cmd) :
    ∃ name ∈ serverappname, cmd = SsRegisterRequest.ofInfo (infoOf app name) := by
  obtain ⟨name, hname, rfl⟩ := Option.map_eq_some_iff.mp h
  exact ⟨name, List.mem_of_getElem? hname, rfl⟩

theorem varintSize32_le (value : UInt32) : CodedOutputStream.varintSize32 value ≤ 5 := by
  unfold CodedOutputStream.varintSize32 CodedOutputStream.varintSize32Fallback
  split
  · omega
  · repeat' split
    all_goals omega

/-- A request is short. -/
theorem byteSize_request (app : App) {name : List UInt8} (h : name ∈ serverappname) :
    0 < (SsRegisterRequest.ofInfo (infoOf app name)).byteSize ∧
      (SsRegisterRequest.ofInfo (infoOf app name)).byteSize ≤ 31 := by
  have hname : name.length ≤ 7 := by
    have hall : ∀ name ∈ serverappname, name.length ≤ 7 := by decide
    exact hall name h
  have hid := varintSize32_le app.mId.toUInt32
  have htype := varintSize32_le (Int32.ofInt app.mType).toUInt32
  have hlen := varintSize32_le (UInt32.ofNat name.length)
  have hinner := varintSize32_le (UInt32.ofNat (infoOf app name).byteSize)
  have hinfo : (infoOf app name).byteSize ≤ 25 := by
    simp only [Serverappinfo.byteSize, infoOf, uint32Size, stringSize,
      WireFormat.computeUnknownFieldsSize]
    omega
  have hsize : Serverappinfo.messageType.byteSize (infoOf app name) =
      (infoOf app name).byteSize := rfl
  simp only [SsRegisterRequest.byteSize, SsRegisterRequest.ofInfo, messageSize, hsize,
    WireFormat.computeUnknownFieldsSize]
  omega

theorem valid_request (app : App) (name : List UInt8) :
    (SsRegisterRequest.ofInfo (infoOf app name)).Valid defaultRecursionLimit := by
  refine ⟨fun info hinfo => ?_, Schema.unknown_nil _ _⟩
  cases hinfo
  exact ⟨by decide, Schema.unknown_nil _ _⟩

/-- What is sent. -/
theorem onNewconnection_eq_some {app : App} {time : Int} {buf : Packet}
    (h : app.onNewconnection time = some buf) :
    ∃ name proto, name ∈ serverappname ∧
      app.registerRequest = some (SsRegisterRequest.ofInfo (infoOf app name)) ∧
      proto = (SsRegisterRequest.ofInfo (infoOf app name)).serializeWithCachedSizesToArray ∧
      buf = Packet.new time App.ssRegisterRequest (some proto) proto.length app.mId.toInt := by
  obtain ⟨cmd, hcmd, hrest⟩ := Option.bind_eq_some_iff.mp h
  obtain ⟨name, hname, rfl⟩ := registerRequest_eq_some hcmd
  obtain ⟨proto, hproto, hbuf⟩ := Option.bind_eq_some_iff.mp hrest
  rw [serializeToString_eq SsRegisterRequest.lawful, Option.some.injEq] at hproto
  exact ⟨name, proto, hname, hcmd, hproto.symm, (Option.some.inj hbuf).symm⟩

/-- The packet carries the request. -/
theorem onNewconnection_carries {app : App} {time : Int} {buf : Packet}
    (h : app.onNewconnection time = some buf) :
    ∃ name ∈ serverappname, app.registerRequest =
        some (SsRegisterRequest.ofInfo (infoOf app name)) ∧
      buf.Carries time App.ssRegisterRequest app.mId.toInt
        (SsRegisterRequest.ofInfo (infoOf app name)).serializeWithCachedSizesToArray := by
  obtain ⟨name, proto, hname, hcmd, rfl, rfl⟩ := onNewconnection_eq_some h
  have hsize := (byteSize_request app hname).2
  rw [SsRegisterRequest.size_eq] at hsize
  exact ⟨name, hname, hcmd, Packet.carries_new time App.ssRegisterRequest app.mId.toInt
    ⟨_, Nat.le_trans hsize (by decide)⟩ (Nat.lt_of_le_of_lt hsize (by decide))⟩

/-- A request does not fill the receive buffer. -/
theorem length_onNewconnection {app : App} {time : Int} {buf : Packet}
    (h : app.onNewconnection time = some buf) : buf.bytes.length < packetBufferSize := by
  obtain ⟨name, hname, -, hcarries⟩ := onNewconnection_carries h
  have hsize := (byteSize_request app hname).2
  rw [SsRegisterRequest.size_eq] at hsize
  rw [hcarries.bytes, List.length_append, Packet.length_header]
  unfold Packet.headLength packetBufferSize
  omega

/-! ## If the bytes came through -/

section Delivered

variable {Cls : Type} {Obj Func : Cls → Type} {Sender : Type}
  [DecidableEq Cls] [∀ c, DecidableEq (Obj c)] [∀ c, DecidableEq (Func c)]

/-- **Registration**: handed over in one piece, a request reaches the receivers of
`SS_REGISTER_REQUEST`, each once and in order, and nobody else.  The packet they get has the
id of the server in its `extra` field.  Its body is the request, and a byte more, with
which it is not accepted. -/
theorem register_delivered (ops : List (DispatcherOp Obj Func Sender Packet)) (session : Sender)
    (app : App) (time : Int64) (buf : Packet) (h : app.onNewconnection time.toInt = some buf)
    (beyond : Nat → UInt8) (data : List UInt8) :
    ∃ cmd calls pack, app.registerRequest = some cmd ∧
      onTcpreceive (Dispatcher.empty.run ops).2 session (some buf.bytes) buf.length = some calls ∧
      Delivered ((Registry.empty.run ops).2.targets App.ssRegisterRequest) session
        App.ssRegisterRequest pack calls ∧
      pack.extra = some app.mId.toInt ∧
      ∃ n out, pack.body beyond data = some (n, out) ∧
        SsRegisterRequest.messageType.parseFromString (out.take n) = (true, cmd) ∧
        (SsRegisterRequest.messageType.parseFromString out).1 = false := by
  obtain ⟨name, hname, hcmd, hcarries⟩ := onNewconnection_carries h
  obtain ⟨hpos, hsize⟩ := byteSize_request app hname
  rw [SsRegisterRequest.size_eq] at hpos hsize
  have hlen : buf.bytes.length = buf.length := Memorystream.length_bytes hcarries.sized
  have hhead : Packet.headLength ≤ buf.bytes.length := by
    rw [hlen, hcarries.length_eq]
    omega
  have hid : Packet.intOf (buf.bytes.take 4) = App.ssRegisterRequest := by
    have hslice : buf.bytes.take 4 = slice buf.bytes Packet.idOffset 4 := rfl
    rw [hslice, hcarries.bytes, slice_append_left (by rw [Packet.length_header]; decide),
      (Packet.slice_header _ _ _ _).1, Packet.intOf_intImage]
    decide
  obtain ⟨calls, hcalls, hdelivered⟩ := onTcpreceive_run ops session
    ⟨buf.bytes, Packet.length_bytes_le hcarries.sized⟩ hhead
  simp only [hlen, hid] at hcalls hdelivered
  have hpack := hcarries.ofBytes
  have hone : App.ssRegisterRequest = (1 : Int32).toInt := by decide
  have hbytes := hpack.bytes
  rw [hone] at hbytes
  have hfields := Packet.hasHeader_exact hpack.sized ⟨_, hbytes.symm⟩ (by omega)
  obtain ⟨b, hbody⟩ := hpack.body_eq (by omega) (List.ne_nil_of_length_pos hpos) beyond data
  refine ⟨_, calls, _, hcmd, hcalls, hdelivered, hfields.extra, _, _, hbody, ?_, ?_⟩
  · rw [List.take_left]
    exact parseFromString_serialize SsRegisterRequest.lawful (valid_request app name)
      (by unfold kDefaultTotalBytesLimit; exact Nat.lt_of_le_of_lt hsize (by decide))
  · refine parseFromString_byte SsRegisterRequest.lawful Generated.ssRegisterRequest.needsBytes
      (valid_request app name) b ?_
    rw [List.length_append, List.length_singleton]
    unfold kDefaultTotalBytesLimit
    exact Nat.lt_of_le_of_lt (Nat.succ_le_succ hsize) (by decide)

/-- A receiver of requests. -/
def oneListener : List (DispatcherOp (fun _ : Unit => Nat) (fun _ => Bool) Nat Packet) :=
  [.listen App.ssRegisterRequest ⟨(), some 3, false⟩]

/-- The request of the game server 7. -/
theorem register_delivered_seven :
    (Registry.empty.run oneListener).2.targets App.ssRegisterRequest = [⟨(), some 3, false⟩] ∧
      ∃ buf, (App.new 7 4).onNewconnection (0 : Int64).toInt = some buf ∧
        ∃ cmd calls pack, (App.new 7 4).registerRequest = some cmd ∧
          onTcpreceive (Dispatcher.empty.run oneListener).2 5 (some buf.bytes) buf.length =
            some calls ∧
          Delivered ((Registry.empty.run oneListener).2.targets App.ssRegisterRequest) 5
            App.ssRegisterRequest pack calls ∧
          pack.extra = some (7 : Int32).toInt ∧
          ∃ n out, pack.body (fun _ => 0) [] = some (n, out) ∧
            SsRegisterRequest.messageType.parseFromString (out.take n) = (true, cmd) ∧
            (SsRegisterRequest.messageType.parseFromString out).1 = false :=
  ⟨by decide, _, rfl, register_delivered oneListener 5 (App.new 7 4) 0 _ rfl (fun _ => 0) []⟩

end Delivered

/-! ## What becomes of the bytes -/

/-- The events of a service at which other servers register: they are accepted, and parts of
their requests arrive, in any order.  `m_body.base` happens to be null in each new
session. -/
inductive Registering : Event → Prop
  | accept {env : AcceptEnv} (h : env.Succeeds) (hnull : env.fresh.bodyNull = true) :
      Registering (.accept env .ret)
  | read (p : Nat) {chunk : List UInt8} (polls : Polls) (app : App) (time : Int) {buf : Packet}
      (hsent : app.onNewconnection time = some buf) (hpart : chunk <:+: buf.bytes) :
      Registering (.read p chunk polls .ret)

/-- Nothing has done harm, no session is in the middle of a packet, and the handler has seen
nothing but new sessions. -/
structure Unheard (s : UvService) : Prop extends Intact True s where
  reading : ∀ p, (s.heap p).mTcp.reading ≠ some .body
  log : ∀ c ∈ s.log, ∃ p, c = .newsession p

theorem unheard_init : Unheard UvService.init where
  toIntact := intact_init True
  reading p h := by cases h
  log c hc := by simp [UvService.init] at hc

/-- To accept a client changes no other session. -/
theorem accept_others {L : Libuv} {s t : UvService} {env : AcceptEnv} (henv : env.Succeeds)
    (h : step L (.accept env .ret) s = .ok () t) (q : Nat) (hq : q ≠ s.created) :
    t.heap q = s.heap q := by
  change onAccept L env (pure ()) s = _ at h
  rw [onAccept_run L (pure ()) henv] at h
  obtain ⟨⟨⟩, _, hpure, h⟩ := bind_eq_ok h
  cases hpure
  obtain ⟨u, hu, hrun⟩ := receiveHead_run L s.created (inAccept s env)
  rw [bind_of_ok hrun, assertAt] at h
  split at h
  · cases h
    rw [withSession_of_ne _ _ hq, hu.others q hq]
    change ((s.withNew env.ipv6 env.fresh none).withSession s.created
      UvSession.connected).heap q = _
    rw [withSession_of_ne _ _ hq, withNew_of_ne _ _ _ _ hq]
  · cases h

/-- A server is accepted. -/
theorem unheard_accept {L : Libuv} {s : UvService} {env : AcceptEnv} (hs : Unheard s)
    (henv : env.Succeeds) (hnull : env.fresh.bodyNull = true) :
    ∃ t, step L (.accept env .ret) s = .ok () t ∧ Unheard t := by
  obtain ⟨t, ht, hwaiting, hlog, -⟩ := accept_waiting (L := L) (s := s) henv
  have hcare : (Event.accept env .ret).Careful L s := fun _ _ => ⟨henv.rAccept, trivial⟩
  have hintact : Intact True t :=
    (intact_accept hs.toIntact hcare fun _ => ⟨hnull, trivial⟩).ok ht
  refine ⟨t, ht, hintact, fun q => ?_, fun c hc => ?_⟩
  · by_cases hq : q = s.created
    · rw [hq, hwaiting.reading]
      decide
    · rw [accept_others henv ht q hq]
      exact hs.reading q
  · rw [hlog] at hc
    rcases List.mem_append.mp hc with hc | hc
    · exact hs.log c hc
    · exact ⟨_, List.mem_singleton.mp hc⟩

/-- A part of a request arrives. -/
theorem unheard_read {L : Libuv} {s : UvService} {p : Nat} {chunk : List UInt8} (hs : Unheard s)
    (hlen : chunk.length ≠ packetBufferSize) (polls : Polls) :
    ∃ t, step L (.read p chunk polls .ret) s = .ok () t ∧ Unheard t := by
  change ∃ t, uvRead L p chunk polls (pure ()) s = .ok () t ∧ Unheard t
  cases hread : (s.heap p).mTcp.reading with
  | none => exact ⟨s, uvRead_none L polls (pure ()) hread, hs⟩
  | some phase =>
      cases phase with
      | body => exact absurd hread (hs.reading p)
      | head =>
          obtain ⟨t, hq, ht⟩ :=
            uvRead_dropped L polls (pure ()) hread (hs.live p) (hs.headOk p) hlen
          refine ⟨t, ht, hs.packetOnly hq, fun q => ?_, hq.log ▸ hs.log⟩
          by_cases hqp : q = p
          · subst hqp
            rw [hq.mTcp]
            exact hs.reading q
          · rw [hq.others q hqp]
            exact hs.reading q

theorem unheard_step {L : Libuv} {s : UvService} {e : Event} (hs : Unheard s) (he : Registering e) :
    ∃ t, step L e s = .ok () t ∧ Unheard t := by
  cases he with
  | accept henv hnull => exact unheard_accept hs henv hnull
  | read p polls app time hsent hpart =>
      have hlt := Nat.lt_of_le_of_lt hpart.length_le (length_onNewconnection hsent)
      exact unheard_read hs (Nat.ne_of_lt hlt) polls

/-- **Registrations are lost**: whichever servers register, however often, and however what
they send is cut up and mixed, the service comes through and does nothing undefined, but its
handler is told of new sessions only. -/
theorem registrations_lost (L : Libuv) (es : List Event) (h : ∀ e ∈ es, Registering e) :
    ∃ t, run L es UvService.init = .ok () t ∧ t.faults = [] ∧
      ∀ c ∈ t.log, ∃ p, c = .newsession p := by
  suffices hrun : ∀ s, Unheard s → ∃ t, run L es s = .ok () t ∧ Unheard t by
    obtain ⟨t, ht, hend⟩ := hrun _ unheard_init
    exact ⟨t, ht, hend.faults.faults_eq_nil, hend.log⟩
  induction es with
  | nil => exact fun s hs => ⟨s, rfl, hs⟩
  | cons e es ih =>
      intro s hs
      obtain ⟨he, hrest⟩ := List.forall_mem_cons.mp h
      obtain ⟨s₁, hs₁, hnext⟩ := unheard_step hs he
      obtain ⟨t, ht, hend⟩ := ih hrest s₁ hnext
      refine ⟨t, ?_, hend⟩
      change (step L e >>= fun _ => run L es) s = _
      rw [bind_of_ok hs₁, ht]

/-- The game server 7 and a gateway, which has no id, register at the same time. -/
theorem registrations_lost_two :
    ∃ game gateway, (App.new 7 4).onNewconnection 0 = some game ∧
      (App.new 0 2).onNewconnection 1 = some gateway ∧
      ∃ t, run (.loopback .unix)
          [.accept ⟨0, false, 0, 0, ⟨true, 0, 0⟩⟩ .ret, .accept ⟨0, false, 0, 0, ⟨true, 0, 0⟩⟩ .ret,
            .read 0 (game.bytes.take 9) ⟨false, false⟩ .ret,
            .read 1 gateway.bytes ⟨false, false⟩ .ret,
            .read 0 (game.bytes.drop 9) ⟨false, false⟩ .ret] UvService.init = .ok () t ∧
        t.faults = [] ∧ ∀ c ∈ t.log, ∃ p, c = .newsession p := by
  refine ⟨_, _, rfl, rfl, registrations_lost _ _ fun e he => ?_⟩
  simp only [List.mem_cons, List.not_mem_nil, or_false] at he
  have henv : AcceptEnv.Succeeds ⟨0, false, 0, 0, ⟨true, 0, 0⟩⟩ := ⟨rfl, rfl, rfl⟩
  rcases he with rfl | rfl | rfl | rfl | rfl
  · exact .accept henv rfl
  · exact .accept henv rfl
  · exact .read 0 _ (App.new 7 4) 0 rfl (List.take_prefix _ _).isInfix
  · exact .read 1 _ (App.new 0 2) 1 rfl List.infix_rfl
  · exact .read 0 _ (App.new 7 4) 0 rfl (List.drop_suffix _ _).isInfix

end Serverapp

end GEngine
