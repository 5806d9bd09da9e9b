import GEngine.Inet
import GEngine.Serverapp.Register

/-!
# GEngine.Gmain

The life of a server: `gmain` (`libs/server/include/gmain.h`), with
`uv_service::initialize`, `run` and `shutdown`, and those of `serverapp`, which register
and take back the receivers of the two registration messages.

`run` goes round after round: `uv_run` makes callbacks, and then the application is
updated.  Somewhere in a round the application calls `shutdown`.  The round goes on, so
there can be messages and one more `update` behind it, and `gmain` calls `shutdown` once
more (`gmain_lifecycle`).

The application is one that keeps the `initialize` and `shutdown` of `serverapp`; the test
server overrides `initialize` without calling that one.  The receivers of a message call
neither the dispatcher nor `shutdown` while it is dispatched: a `shutdown` there takes the
receiver that runs out of the list that is walked, see `GEngine.Dispatcher.Reentrant`.
What the rest of the application registers and takes back is arbitrary in the model; the
results are for calls that leave the two registrations alone (`Apart`).
-/

namespace GEngine

namespace Gmain

open Inet Serverapp

/-! ## The program -/

section Program

variable {Cls : Type} (Obj Func : Cls → Type) (Sender : Type)

/-- The application, and its two member functions that it registers. -/
structure Handler where
  cls : Cls
  this : Obj cls
  onRegisterserverRequest : Func cls
  onRegisterserverReturn : Func cls

/-- What the code of the application does: it calls `networkinterface`, or it shuts the
service down. -/
inductive Deed
  | interface (op : DispatcherOp Obj Func Sender Packet)
  | shutdown

/-- A callback of `uv_run`: bytes that are handed to `on_tcpreceive`, or another one, in which
the application acts. -/
inductive Action
  | tcpreceive (session : Sender) (b : Buffer)
  | deed (d : Deed Obj Func Sender)

/-- A round of the loop: the callbacks of `uv_run`, and what `update` does. -/
structure Round where
  callbacks : List (Action Obj Func Sender)
  update : List (Deed Obj Func Sender)

/-- What the application is told, with the calls that `on_tcpreceive` made. -/
inductive Notice
  | initialized
  | received (b : Buffer) (calls : List (Call Obj Func Sender Packet))
  | updated
  | shutdown

/-- The members of `uv_service` that matter here, the dispatcher of `networkinterface`, and
what the application was told. -/
structure Service where
  mInit : Bool
  mShutdown : Bool
  receivers : Dispatcher Obj Func
  log : List (Notice Obj Func Sender)

variable {Obj Func Sender}

/-- `uv_service::uv_service(handler)`. -/
def Service.new : Service Obj Func Sender := ⟨false, false, .empty, []⟩

/-- `SS_REGISTER_RETURN`. -/
def ssRegisterReturn : Int := 2

/-- `this` and `&serverapp::on_registerserver_request`. -/
def Handler.request (h : Handler Obj Func) : Target Obj Func :=
  ⟨h.cls, some h.this, h.onRegisterserverRequest⟩

/-- `this` and `&serverapp::on_registerserver_return`. -/
def Handler.response (h : Handler Obj Func) : Target Obj Func :=
  ⟨h.cls, some h.this, h.onRegisterserverReturn⟩

variable [DecidableEq Cls] [∀ c, DecidableEq (Obj c)] [∀ c, DecidableEq (Func c)]

/-- `serverapp::initialize()`. -/
def Handler.initializeOps (h : Handler Obj Func) : List (DispatcherOp Obj Func Sender Packet) :=
  [.listen App.ssRegisterRequest h.request, .listen ssRegisterReturn h.response]

/-- `serverapp::shutdown()`. -/
def Handler.shutdownOps (h : Handler Obj Func) : List (DispatcherOp Obj Func Sender Packet) :=
  [.unlisten App.ssRegisterRequest h.request, .unlisten ssRegisterReturn h.response]

/-- What libuv answers while a server socket is set up. -/
structure SocketEnv where
  init : Int
  bind : Int
  listen : Int

/-- `bind_ipv4(ip, port)` and `bind_ipv6(ip, port)`. -/
def SocketEnv.bindIp (env : SocketEnv) (L : Platform) (ip : List UInt8) (ipv6 : Bool) : Int :=
  if ipv6 then
    if (uvIp6Addr ip).isSome then env.bind else L.uvEinval
  else if (uvIp4Addr ip).isSome then env.bind else L.uvEinval

/-- `uv_tcp_server::initialize(ip, port, ipv6)`; `none` if it aborts.  The assertion about
`listen` is the wrong way round. -/
def tcpInitialize (L : Platform) (ip : List UInt8) (ipv6 : Bool) (env : SocketEnv) : Option Bool :=
  if env.init ≠ 0 then none
  else if env.bindIp L ip ipv6 ≠ 0 then none
  else if env.listen ≠ 0 then some false
  else some true

/-- `uv_udp_server::initialize(ip, port, ipv6)`. -/
def udpInitialize (L : Platform) (ip : List UInt8) (ipv6 : Bool) (env : SocketEnv) : Option Bool :=
  if env.init ≠ 0 then none
  else if env.bindIp L ip ipv6 ≠ 0 then none
  else if env.listen ≠ 0 then none
  else some true

namespace Service

/-- Calls of `networkinterface`. -/
def interface (s : Service Obj Func Sender) (ops : List (DispatcherOp Obj Func Sender Packet)) :
    Service Obj Func Sender :=
  { s with receivers := (s.receivers.run ops).2 }

/-- The application is told something. -/
def notify (s : Service Obj Func Sender) (n : Notice Obj Func Sender) : Service Obj Func Sender :=
  { s with log := s.log ++ [n] }

variable (h : Handler Obj Func)

/-- `uv_service::initialize(ip, tcp_port, udp_port, ipv6)`; `none` if it aborts. -/
def initializeService (L : Platform) (ip : List UInt8) (ipv6 : Bool) (tcp udp : SocketEnv)
    (s : Service Obj Func Sender) : Option (Bool × Service Obj Func Sender) :=
  if s.mInit then some (true, s)
  else
    let s := (s.interface h.initializeOps).notify .initialized
    match tcpInitialize L ip ipv6 tcp with
    | some true =>
        match udpInitialize L ip ipv6 udp with
        | some true => some (true, { s with mInit := true })
        | _ => none
    | _ => none

/-- `uv_service::shutdown()`. -/
def shutdown (s : Service Obj Func Sender) : Service Obj Func Sender :=
  { (s.interface h.shutdownOps).notify .shutdown with mShutdown := true }

def perform (s : Service Obj Func Sender) : Deed Obj Func Sender → Service Obj Func Sender
  | .interface op => s.interface [op]
  | .shutdown => s.shutdown h

/-- A callback.  `on_tcpreceive` trips no assertion over a buffer that is there
(`onTcpreceive_valid`, `onTcpreceive_short`). -/
def callback (s : Service Obj Func Sender) : Action Obj Func Sender → Service Obj Func Sender
  | .tcpreceive session b =>
      let calls := Serverapp.onTcpreceive s.receivers session (some b.bytes) b.bytes.length
      s.notify (.received b (calls.getD []))
  | .deed d => s.perform h d

/-- One turn of the loop of `run`. -/
def round (s : Service Obj Func Sender) (r : Round Obj Func Sender) : Service Obj Func Sender :=
  let s := r.callbacks.foldl (callback h) s
  r.update.foldl (perform h) (s.notify .updated)

/-- `uv_service::run()`, as far as the rounds go. -/
def run (s : Service Obj Func Sender) : List (Round Obj Func Sender) → Service Obj Func Sender
  | [] => s
  | r :: rs => if s.mShutdown = false then (s.round h r).run rs else s

end Service

/-- `"0.0.0.0"`. -/
def anyAddress : List UInt8 := [48, 46, 48, 46, 48, 46, 48]

/-- `gmain<SERVERAPP>(argc, argv)`. -/
def gmain (h : Handler Obj Func) (L : Platform) (tcp udp : SocketEnv)
    (rounds : List (Round Obj Func Sender)) : Option (Service Obj Func Sender) := do
  let (ok, service) ← Service.new.initializeService h L anyAddress false tcp udp
  let service := if ok then service.run h rounds else service
  return service.shutdown h

end Program

/-! ## What is registered -/

section Listening

variable {Cls : Type} {Obj Func : Cls → Type} {Sender Data : Type}
  [DecidableEq Cls] [∀ c, DecidableEq (Obj c)] [∀ c, DecidableEq (Func c)]

/-- The call has nothing to do with a target of an id. -/
def Elsewhere (id : Int) (p : Target Obj Func) (op : DispatcherOp Obj Func Sender Data) : Prop :=
  op ≠ .listen id p ∧ op ≠ .unlisten id p ∧ op ≠ .clear

theorem count_listen (f : Registry Obj Func) (id : Int) (p : Target Obj Func) :
    ((f.listen id p).2.targets id).count p = 1 := by
  refine List.count_eq_one_of_mem ((f.listen id p).2.nodup id) ?_
  unfold Registry.listen
  split
  · assumption
  · simp

theorem count_unlisten (f : Registry Obj Func) (id : Int) (p : Target Obj Func) :
    ((f.unlisten id p).targets id).count p = 0 := by
  simp [Registry.unlisten, List.count_eq_zero]

/-- Other calls leave a target as it is, registered or not. -/
theorem count_step {f : Registry Obj Func} {id : Int} {p : Target Obj Func}
    {op : DispatcherOp Obj Func Sender Data} (hop : Elsewhere id p op) :
    ((f.step op).2.targets id).count p = (f.targets id).count p := by
  obtain ⟨hlisten, hunlisten, hclear⟩ := hop
  cases op with
  | listen k q =>
      change ((f.listen k q).2.targets id).count p = _
      unfold Registry.listen
      split
      · rfl
      · by_cases hk : id = k
        · subst hk
          have hqp : q ≠ p := fun heq => hlisten (by rw [heq])
          simp [List.count_append, hqp]
        · simp [hk]
  | unlisten k q =>
      change ((f.unlisten k q).targets id).count p = _
      unfold Registry.unlisten
      by_cases hk : id = k
      · subst hk
        have hpq : p ≠ q := fun heq => hunlisten (by rw [heq])
        simp [List.count_filter, hpq]
      · simp [hk]
  | clear => exact absurd rfl hclear
  | dispatch sender k data => rfl

variable (h : Handler Obj Func)

/-- Each of the two receivers of the application is registered `k` times for its id. -/
def Listening (k : Nat) (d : Dispatcher Obj Func) : Prop :=
  ∃ f : Registry Obj Func, Refines d f ∧
    (f.targets App.ssRegisterRequest).count h.request = k ∧
    (f.targets ssRegisterReturn).count h.response = k

/-- A call that leaves both alone. -/
def Apart (op : DispatcherOp Obj Func Sender Packet) : Prop :=
  Elsewhere App.ssRegisterRequest h.request op ∧ Elsewhere ssRegisterReturn h.response op

variable {h} {d : Dispatcher Obj Func} {k : Nat}

theorem listening_apart (hd : Listening h k d) {op : DispatcherOp Obj Func Sender Packet}
    (hop : Apart h op) : Listening h k (d.step op).2 := by
  obtain ⟨f, href, hrequest, hresponse⟩ := hd
  refine ⟨_, (refines_step href op).2, ?_, ?_⟩
  · rw [count_step hop.1, hrequest]
  · rw [count_step hop.2, hresponse]

theorem listening_initialize (h : Handler Obj Func) {s : Service Obj Func Sender}
    {f : Registry Obj Func} (hs : Refines s.receivers f) :
    Listening h 1 (s.interface h.initializeOps).receivers := by
  have hother : Elsewhere App.ssRegisterRequest h.request
      (.listen ssRegisterReturn h.response : DispatcherOp Obj Func Sender Packet) := by
    simp [Elsewhere, ssRegisterReturn, App.ssRegisterRequest]
  refine ⟨_, (refines_run hs _).2, ?_, count_listen _ _ _⟩
  exact (count_step hother).trans (count_listen f _ _)

theorem listening_shutdown {s : Service Obj Func Sender} (hs : Listening h k s.receivers) :
    Listening h 0 (s.shutdown h).receivers := by
  obtain ⟨f, href, -⟩ := hs
  have hother : Elsewhere App.ssRegisterRequest h.request
      (.unlisten ssRegisterReturn h.response : DispatcherOp Obj Func Sender Packet) := by
    simp [Elsewhere, ssRegisterReturn, App.ssRegisterRequest]
  refine ⟨_, (refines_run href _).2, ?_, count_unlisten _ _ _⟩
  exact (count_step hother).trans (count_unlisten f _ _)

/-! ## What the application is told -/

/-- A registration message was handed `k` times to the receiver that is for it. -/
def Notice.Heard (h : Handler Obj Func) (k : Nat) : Notice Obj Func Sender → Prop
  | .received b calls => Packet.headLength ≤ b.bytes.length →
      (Packet.intOf (b.bytes.take 4) = App.ssRegisterRequest →
        calls.countP (fun c => c.target = h.request) = k) ∧
      (Packet.intOf (b.bytes.take 4) = ssRegisterReturn →
        calls.countP (fun c => c.target = h.response) = k)
  | _ => True

/-- A dispatch calls a target with an object as often as it is registered. -/
theorem countP_target {targets : List (Target Obj Func)} {session : Sender} {id : Int}
    {pack : Packet} {calls : List (Call Obj Func Sender Packet)}
    (hd : Delivered targets session id pack calls) {p : Target Obj Func}
    (hp : p.object.isSome = true) :
    calls.countP (fun c => c.target = p) = targets.count p := by
  rw [← List.count_filter (p := fun q => q.object.isSome) hp, ← hd.called, List.count,
    List.countP_map]
  simp [Function.comp_def, beq_eq_decide]

theorem heard_received (hd : Listening h k d) (session : Sender) (b : Buffer) :
    (Notice.received b ((Serverapp.onTcpreceive d session (some b.bytes) b.bytes.length).getD
      [])).Heard h k := by
  obtain ⟨f, href, hrequest, hresponse⟩ := hd
  intro hhead
  rw [onTcpreceive_valid d session b hhead, Option.getD_some, refines_dispatch href]
  have hdelivered := delivered_dispatch f session (Packet.intOf (b.bytes.take 4))
    (Packet.ofBytes (some b.bytes) b.bytes.length)
  refine ⟨fun hid => ?_, fun hid => ?_⟩
  · rw [countP_target hdelivered rfl, hid, hrequest]
  · rw [countP_target hdelivered rfl, hid, hresponse]

end Listening

/-! ## Counting -/

section Count

variable {Cls : Type} {Obj Func : Cls → Type} {Sender : Type}

def Notice.isShutdown : Notice Obj Func Sender → Bool
  | .shutdown => true
  | _ => false

def Notice.isUpdated : Notice Obj Func Sender → Bool
  | .updated => true
  | _ => false

/-- The bytes that `on_tcpreceive` got. -/
def Notice.buffer : Notice Obj Func Sender → Option Buffer
  | .received b _ => some b
  | _ => none

def Deed.isShutdown : Deed Obj Func Sender → Bool
  | .shutdown => true
  | _ => false

def Action.isShutdown : Action Obj Func Sender → Bool
  | .tcpreceive _ _ => false
  | .deed d => d.isShutdown

/-- The bytes for `on_tcpreceive`. -/
def Action.buffer : Action Obj Func Sender → Option Buffer
  | .tcpreceive _ b => some b
  | .deed _ => none

/-- How often the application calls `shutdown` in a round. -/
def Round.shutdowns (r : Round Obj Func Sender) : Nat :=
  r.callbacks.countP Action.isShutdown + r.update.countP Deed.isShutdown

/-- The bytes that arrive in a round. -/
def Round.buffers (r : Round Obj Func Sender) : List Buffer := r.callbacks.filterMap Action.buffer

theorem any_eq_false_of_shutdowns {r : Round Obj Func Sender} (hr : r.shutdowns = 0) :
    r.callbacks.any Action.isShutdown = false ∧ r.update.any Deed.isShutdown = false := by
  rw [Round.shutdowns, Nat.add_eq_zero_iff, List.countP_eq_zero, List.countP_eq_zero] at hr
  simpa using hr

variable [DecidableEq Cls] [∀ c, DecidableEq (Obj c)] [∀ c, DecidableEq (Func c)]
  (h : Handler Obj Func) {s : Service Obj Func Sender} {m n : Nat} {bs : List Buffer}

/-- What a log has to say of the calls of `shutdown`, of the updates and of the messages. -/
structure Logs (log : List (Notice Obj Func Sender)) (shutdowns updates : Nat)
    (buffers : List Buffer) : Prop where
  shutdowns : log.countP Notice.isShutdown = shutdowns
  updates : log.countP Notice.isUpdated = updates
  buffers : log.filterMap Notice.buffer = buffers

theorem logs_perform (hs : Logs s.log m n bs) (d : Deed Obj Func Sender) :
    Logs (s.perform h d).log (m + if d.isShutdown then 1 else 0) n bs := by
  obtain ⟨rfl, rfl, rfl⟩ := hs
  cases d with
  | interface op => exact ⟨rfl, rfl, rfl⟩
  | shutdown =>
      constructor <;>
        simp [Service.perform, Service.shutdown, Service.notify, Service.interface,
          Deed.isShutdown, Notice.isShutdown, Notice.isUpdated, Notice.buffer]

theorem logs_callback (hs : Logs s.log m n bs) (a : Action Obj Func Sender) :
    Logs (s.callback h a).log (m + if a.isShutdown then 1 else 0) n
      (bs ++ a.buffer.toList) := by
  cases a with
  | tcpreceive session b =>
      obtain ⟨rfl, rfl, rfl⟩ := hs
      constructor <;>
        simp [Service.callback, Service.notify, Action.isShutdown, Action.buffer,
          Notice.isShutdown, Notice.isUpdated, Notice.buffer]
  | deed d =>
      rw [Action.buffer, Option.toList_none, List.append_nil]
      exact logs_perform h hs d

theorem logs_update (hs : Logs s.log m n bs) (ds : List (Deed Obj Func Sender)) :
    Logs (ds.foldl (Service.perform h) s).log (m + ds.countP Deed.isShutdown) n bs := by
  induction ds generalizing s m with
  | nil => exact hs
  | cons d ds ih =>
      rw [List.countP_cons, ← Nat.add_assoc, Nat.add_right_comm]
      exact ih (logs_perform h hs d)

theorem logs_callbacks (hs : Logs s.log m n bs) (as : List (Action Obj Func Sender)) :
    Logs (as.foldl (Service.callback h) s).log (m + as.countP Action.isShutdown) n
      (bs ++ as.filterMap Action.buffer) := by
  induction as generalizing s m bs with
  | nil => simpa using hs
  | cons a as ih =>
      have hsplit : (a :: as).filterMap Action.buffer =
          a.buffer.toList ++ as.filterMap Action.buffer := by
        cases hb : a.buffer <;> simp [hb]
      rw [List.countP_cons, ← Nat.add_assoc, Nat.add_right_comm, hsplit, ← List.append_assoc]
      exact ih (logs_callback h hs a)

theorem logs_round (hs : Logs s.log m n bs) (r : Round Obj Func Sender) :
    Logs (s.round h r).log (m + r.shutdowns) (n + 1)
      (bs ++ r.buffers) := by
  obtain ⟨hshut, hup, hbuf⟩ := logs_callbacks h hs r.callbacks
  have hnotified : Logs ((r.callbacks.foldl (Service.callback h) s).notify .updated).log
      (m + r.callbacks.countP Action.isShutdown) (n + 1)
      (bs ++ r.buffers) := by
    refine ⟨?_, ?_, ?_⟩ <;>
      simp [Service.notify, Notice.isShutdown, Notice.isUpdated, Notice.buffer, Round.buffers,
        hshut, hup, hbuf]
  have hround := logs_update h hnotified r.update
  rwa [Nat.add_assoc] at hround

end Count

/-! ## Before and after the first `shutdown` -/

section Phases

variable {Cls : Type} {Obj Func : Cls → Type} {Sender : Type}
  [DecidableEq Cls] [∀ c, DecidableEq (Obj c)] [∀ c, DecidableEq (Func c)]

/-- The application is not shut down: all registration messages so far were handed to their
receiver, and there were `k` updates. -/
structure Running (h : Handler Obj Func) (k : Nat) (s : Service Obj Func Sender) : Prop where
  up : s.mShutdown = false
  listening : Listening h 1 s.receivers
  told : ∀ n ∈ s.log, n.isShutdown = false ∧ n.Heard h 1
  updates : s.log.countP Notice.isUpdated = k

/-- The log of an application that was shut down after `k` updates. -/
def ShutAfter (h : Handler Obj Func) (k : Nat) (log : List (Notice Obj Func Sender)) : Prop :=
  ∃ front behind, log = front ++ .shutdown :: behind ∧
    (∀ n ∈ front, n.isShutdown = false ∧ n.Heard h 1) ∧ (∀ n ∈ behind, n.Heard h 0) ∧
    front.countP Notice.isUpdated = k

/-- The application is shut down. -/
structure Stopped (h : Handler Obj Func) (k : Nat) (s : Service Obj Func Sender) : Prop where
  shut : s.mShutdown = true
  listening : Listening h 0 s.receivers
  told : ShutAfter h k s.log

variable {h : Handler Obj Func} {k : Nat} {s : Service Obj Func Sender}

theorem shutAfter_append {log : List (Notice Obj Func Sender)} (hlog : ShutAfter h k log)
    {n : Notice Obj Func Sender} (hn : n.Heard h 0) : ShutAfter h k (log ++ [n]) := by
  obtain ⟨front, behind, rfl, hfront, hbehind, hk⟩ := hlog
  refine ⟨front, behind ++ [n], by simp, hfront, fun x hx => ?_, hk⟩
  rcases List.mem_append.mp hx with hx | hx
  · exact hbehind x hx
  · exact List.mem_singleton.mp hx ▸ hn

/-- Other calls of the interface. -/
def Deed.Apart (h : Handler Obj Func) : Deed Obj Func Sender → Prop
  | .interface op => Gmain.Apart h op
  | .shutdown => True

def Action.Apart (h : Handler Obj Func) : Action Obj Func Sender → Prop
  | .tcpreceive _ _ => True
  | .deed d => d.Apart h

/-- The first `shutdown`. -/
theorem stopped_shutdown (hs : Running h k s) : Stopped h k (s.shutdown h) where
  shut := rfl
  listening := listening_shutdown hs.listening
  told := ⟨s.log, [], rfl, hs.told, by simp, hs.updates⟩

/-- Another one. -/
theorem Stopped.shutdown (hs : Stopped h k s) : Stopped h k (s.shutdown h) where
  shut := rfl
  listening := listening_shutdown hs.listening
  told := shutAfter_append hs.told trivial

theorem Running.notify (hs : Running h k s) {n : Notice Obj Func Sender}
    (hno : n.isShutdown = false) (hn : n.Heard h 1) :
    Running h (k + if n.isUpdated then 1 else 0) (s.notify n) where
  up := hs.up
  listening := hs.listening
  told x hx := by
    rcases List.mem_append.mp hx with hx | hx
    · exact hs.told x hx
    · exact List.mem_singleton.mp hx ▸ ⟨hno, hn⟩
  updates := by simp [Service.notify, hs.updates]

theorem Stopped.notify (hs : Stopped h k s) {n : Notice Obj Func Sender} (hn : n.Heard h 0) :
    Stopped h k (s.notify n) where
  shut := hs.shut
  listening := hs.listening
  told := shutAfter_append hs.told hn

/-- What the code of the application does to a service that is not shut down. -/
theorem Running.perform (hs : Running h k s) {d : Deed Obj Func Sender} (hd : d.Apart h) :
    if d.isShutdown then Stopped h k (s.perform h d) else Running h k (s.perform h d) := by
  cases d with
  | interface op =>
      exact ⟨hs.up, listening_apart hs.listening hd, hs.told, hs.updates⟩
  | shutdown => exact stopped_shutdown hs

theorem Stopped.perform (hs : Stopped h k s) {d : Deed Obj Func Sender} (hd : d.Apart h) :
    Stopped h k (s.perform h d) := by
  cases d with
  | interface op => exact ⟨hs.shut, listening_apart hs.listening hd, hs.told⟩
  | shutdown => exact hs.shutdown

theorem Running.callback (hs : Running h k s) {a : Action Obj Func Sender} (ha : a.Apart h) :
    if a.isShutdown then Stopped h k (s.callback h a) else Running h k (s.callback h a) := by
  cases a with
  | tcpreceive session b => exact hs.notify rfl (heard_received hs.listening session b)
  | deed d => exact hs.perform ha

theorem Stopped.callback (hs : Stopped h k s) {a : Action Obj Func Sender} (ha : a.Apart h) :
    Stopped h k (s.callback h a) := by
  cases a with
  | tcpreceive session b => exact hs.notify (heard_received hs.listening session b)
  | deed d => exact hs.perform ha

/-- What a list of deeds or callbacks does, if each of them either is a `shutdown` or leaves the
phase as it is. -/
theorem foldl_phases {α : Type} {f : Service Obj Func Sender → α → Service Obj Func Sender}
    {shuts : α → Bool} {ok : α → Prop}
    (hrun : ∀ s a, Running h k s → ok a →
      if shuts a then Stopped h k (f s a) else Running h k (f s a))
    (hstop : ∀ s a, Stopped h k s → ok a → Stopped h k (f s a)) {l : List α}
    (hl : ∀ a ∈ l, ok a) :
    (Stopped h k s → Stopped h k (l.foldl f s)) ∧
      (Running h k s →
        if l.any shuts then Stopped h k (l.foldl f s) else Running h k (l.foldl f s)) := by
  induction l generalizing s with
  | nil => exact ⟨id, id⟩
  | cons a l ih =>
      obtain ⟨ha, hrest⟩ := List.forall_mem_cons.mp hl
      refine ⟨fun hs => (ih hrest).1 (hstop s a hs ha), fun hs => ?_⟩
      have hstep := hrun s a hs ha
      rw [List.any_cons]
      cases hshuts : shuts a with
      | true =>
          rw [hshuts, if_pos rfl] at hstep
          exact (ih hrest).1 hstep
      | false =>
          rw [hshuts, if_neg (by decide)] at hstep
          exact (ih hrest).2 hstep

def Round.Apart (h : Handler Obj Func) (r : Round Obj Func Sender) : Prop :=
  (∀ a ∈ r.callbacks, a.Apart h) ∧ ∀ d ∈ r.update, d.Apart h

theorem Running.round (hs : Running h k s) {r : Round Obj Func Sender} (hr : r.Apart h) :
    if r.callbacks.any Action.isShutdown then Stopped h k (s.round h r)
    else if r.update.any Deed.isShutdown then Stopped h (k + 1) (s.round h r)
    else Running h (k + 1) (s.round h r) := by
  have hcallbacks := (foldl_phases (fun s a hs => hs.callback) (fun s a hs => hs.callback)
    hr.1).2 hs
  cases hshuts : r.callbacks.any Action.isShutdown with
  | true =>
      rw [hshuts, if_pos rfl] at hcallbacks
      exact (foldl_phases (fun s d hs => hs.perform) (fun s d hs => hs.perform) hr.2).1
        (hcallbacks.notify trivial)
  | false =>
      rw [hshuts, if_neg (by decide)] at hcallbacks
      exact (foldl_phases (fun s d hs => hs.perform) (fun s d hs => hs.perform) hr.2).2
        (hcallbacks.notify (n := .updated) rfl trivial)

/-! ## The whole life -/

/-- Rounds without a `shutdown`. -/
theorem run_quiet {m : Nat} {bs : List Buffer} (hs : Running h k s) (hlog : Logs s.log m k bs)
    {before : List (Round Obj Func Sender)} (hapart : ∀ r ∈ before, r.Apart h)
    (hquiet : ∀ r ∈ before, r.shutdowns = 0) :
    ∃ t, Running h (k + before.length) t ∧
      Logs t.log m (k + before.length) (bs ++ before.flatMap Round.buffers) ∧
      ∀ rest, s.run h (before ++ rest) = t.run h rest := by
  induction before generalizing s k bs with
  | nil => exact ⟨s, hs, by simpa using hlog, fun rest => rfl⟩
  | cons r before ih =>
      obtain ⟨hr, hapart⟩ := List.forall_mem_cons.mp hapart
      obtain ⟨hnone, hquiet⟩ := List.forall_mem_cons.mp hquiet
      obtain ⟨hcallbacks, hupdate⟩ := any_eq_false_of_shutdowns hnone
      have hround := hs.round hr
      rw [hcallbacks, hupdate, if_neg (by decide), if_neg (by decide)] at hround
      have hlog' := logs_round h hlog r
      rw [hnone, Nat.add_zero] at hlog'
      obtain ⟨t, ht, htlog, hrun⟩ := ih hround hlog' hapart hquiet
      rw [List.length_cons, Nat.add_comm before.length, ← Nat.add_assoc]
      refine ⟨t, ht, ?_, fun rest => ?_⟩
      · rw [List.flatMap_cons, ← List.append_assoc]
        exact htlog
      · rw [List.cons_append, Service.run, if_pos hs.up]
        exact hrun rest

/-- The round in which the application is shut down is the last one. -/
theorem run_last {m : Nat} {bs : List Buffer} (hs : Running h k s) (hlog : Logs s.log m k bs)
    {last : Round Obj Func Sender} (hapart : last.Apart h) (hshut : 0 < last.shutdowns)
    (after : List (Round Obj Func Sender)) :
    Stopped h (if last.callbacks.any Action.isShutdown then k else k + 1)
        (s.run h (last :: after)) ∧
      Logs (s.run h (last :: after)).log (m + last.shutdowns) (k + 1) (bs ++ last.buffers) := by
  have hround := hs.round hapart
  have hstopped : Stopped h (if last.callbacks.any Action.isShutdown then k else k + 1)
      (s.round h last) := by
    cases hcallbacks : last.callbacks.any Action.isShutdown with
    | true =>
        rw [hcallbacks, if_pos rfl] at hround
        exact hround
    | false =>
        have hupdate : last.update.any Deed.isShutdown = true := by
          have hnone : last.callbacks.countP Action.isShutdown = 0 := by
            simpa [List.countP_eq_zero] using hcallbacks
          rw [Round.shutdowns, hnone, Nat.zero_add, List.countP_pos_iff] at hshut
          exact List.any_eq_true.mpr hshut
        rw [hcallbacks, hupdate, if_neg (by decide), if_pos rfl] at hround
        exact hround
  have hrun : s.run h (last :: after) = s.round h last := by
    rw [Service.run, if_pos hs.up]
    cases after with
    | nil => rfl
    | cons r after => rw [Service.run, if_neg (by simp [hstopped.shut])]
  rw [hrun]
  exact ⟨hstopped, logs_round h hlog last⟩

/-- Libuv sets up a socket. -/
def SocketEnv.Succeeds (env : SocketEnv) : Prop := env.init = 0 ∧ env.bind = 0 ∧ env.listen = 0

/-- A service in front of its first round. -/
def Service.started (h : Handler Obj Func) : Service Obj Func Sender :=
  { (Service.new.interface h.initializeOps).notify .initialized with mInit := true }

theorem initializeService_eq (h : Handler Obj Func) (L : Platform) {tcp udp : SocketEnv}
    (htcp : tcp.Succeeds) (hudp : udp.Succeeds) :
    (Service.new : Service Obj Func Sender).initializeService h L anyAddress false tcp udp =
      some (true, .started h) := by
  obtain ⟨htcpInit, htcpBind, htcpListen⟩ := htcp
  obtain ⟨hudpInit, hudpBind, hudpListen⟩ := hudp
  have hany : (uvIp4Addr anyAddress).isSome = true := by decide
  have htcp : tcpInitialize L anyAddress false tcp = some true := by
    simp [tcpInitialize, SocketEnv.bindIp, hany, htcpInit, htcpBind, htcpListen]
  have hudp : udpInitialize L anyAddress false udp = some true := by
    simp [udpInitialize, SocketEnv.bindIp, hany, hudpInit, hudpBind, hudpListen]
  simp only [Service.initializeService, htcp, hudp]
  rfl

theorem running_started (h : Handler Obj Func) :
    Running h 0 (.started h : Service Obj Func Sender) where
  up := rfl
  listening := listening_initialize h (s := .new) refines_empty
  told n hn := by
    cases List.mem_singleton.mp hn
    exact ⟨rfl, trivial⟩
  updates := rfl

/-- **The life of a server**: if its sockets can be set up and its other calls leave the two
registrations alone, the program ends with the first round in which the application calls
`shutdown`.  Up to that call each registration message
was handed to its receiver once, and behind it, in the rest of the round, to none.  The
application is updated in each round, so once more if it was a callback that called
`shutdown`, and it is shut down once more at the end. -/
theorem gmain_lifecycle (h : Handler Obj Func) (L : Platform) (tcp udp : SocketEnv)
    (htcp : tcp.Succeeds) (hudp : udp.Succeeds) (before : List (Round Obj Func Sender))
    (last : Round Obj Func Sender) (after : List (Round Obj Func Sender))
    (hapart : ∀ r ∈ before, r.Apart h) (hlast : last.Apart h)
    (hquiet : ∀ r ∈ before, r.shutdowns = 0) (hshut : 0 < last.shutdowns) :
    ∃ s, gmain h L tcp udp (before ++ last :: after) = some s ∧
      ShutAfter h
        (if last.callbacks.any Action.isShutdown then before.length else before.length + 1)
        s.log ∧
      Logs s.log (last.shutdowns + 1) (before.length + 1)
        (before.flatMap Round.buffers ++ last.buffers) := by
  have hlog : Logs (.started h : Service Obj Func Sender).log 0 0 [] := ⟨rfl, rfl, rfl⟩
  obtain ⟨t, ht, htlog, hrun⟩ := run_quiet (running_started h) hlog hapart hquiet
  obtain ⟨hstopped, hend⟩ := run_last ht htlog hlast hshut after
  rw [← hrun, Nat.zero_add] at hstopped hend
  refine ⟨_, ?_, hstopped.shutdown.told, ?_⟩
  · simp only [gmain, initializeService_eq h L htcp hudp]
    rfl
  · have hagain := logs_perform h hend .shutdown
    rw [Nat.zero_add] at hagain
    exact hagain

/-- An application of one class. -/
def oneHandler : Handler (fun _ : Unit => Nat) (fun _ => Bool) := ⟨(), 3, true, false⟩

/-- A registration request without a body. -/
def oneRequest : Buffer := ⟨[1, 0, 0, 0] ++ List.replicate 20 0, by decide⟩

/-- Shut down between two requests, by a callback. -/
theorem gmain_lifecycle_one :
    ∃ s, gmain oneHandler .unix ⟨0, 0, 0⟩ ⟨0, 0, 0⟩
        [⟨[], [.interface (.unlisten 1 ⟨(), some 4, true⟩)]⟩,
          ⟨[.tcpreceive 5 oneRequest, .deed .shutdown, .tcpreceive 5 oneRequest], []⟩, ⟨[], []⟩] =
        some s ∧
      ShutAfter oneHandler 1 s.log ∧ Logs s.log 2 2 [oneRequest, oneRequest] := by
  have hother : Apart oneHandler (.unlisten 1 ⟨(), some 4, true⟩ :
      DispatcherOp (fun _ : Unit => Nat) (fun _ => Bool) Nat Packet) := by
    simp [Apart, Elsewhere, oneHandler, Handler.request, Handler.response, ssRegisterReturn]
  exact gmain_lifecycle oneHandler .unix ⟨0, 0, 0⟩ ⟨0, 0, 0⟩ ⟨rfl, rfl, rfl⟩ ⟨rfl, rfl, rfl⟩
    [⟨[], [.interface (.unlisten 1 ⟨(), some 4, true⟩)]⟩]
    ⟨[.tcpreceive 5 oneRequest, .deed .shutdown, .tcpreceive 5 oneRequest], []⟩ [⟨[], []⟩]
    (by simpa [Round.Apart, Deed.Apart] using hother)
    (by simp [Round.Apart, Action.Apart, Deed.Apart]) (by simp [Round.shutdowns, Deed.isShutdown])
    (by decide)

end Phases

end Gmain

end GEngine
