import GEngine.Inet
import GEngine.Send
import GEngine.Serverapp
import GEngine.UvUdpServer

/-!
# GEngine.UvUdpServer.Network

Servers that send each other datagrams: the sending side (`GEngine.Send`), with
`uv_udp_server::send(ip, port, data, length)`, which takes the text of an address, and the
receiving side (`GEngine.UvUdpServer`), over a network that loses, repeats and reorders.

A server has one request for all its sends, which libuv links into its lists until
`on_send` was called.  To send before that breaks the lists.  And after a receive error the
server closes its handle, and `on_close` frees it, although it lies inside the server.  What
a server does from there on is undefined; here it is gone, as after a failed assertion.

Up to that, nothing is made up: whatever the servers and the network do and in whatever
order, each datagram that a service is told of was sent to it by the server it names as
its source, as it is or cut to the read buffer (`datagrams_genuine`).
-/

namespace GEngine

namespace Udp

open Inet SendOp

/-! ## The servers -/

/-- An address and a port, as they lie in a `sockaddr`. -/
abbrev SockAddr := List UInt8 × Nat

/-- `uv_ip4_addr(ip, port)` or `uv_ip6_addr(ip, port)`. -/
def resolve (ipv6 : Bool) (ip : List UInt8) (port : Int) : Option SockAddr :=
  (if ipv6 then uvIp6Addr ip else uvIp4Addr ip).map fun addr => (addr, htons port)

/-- `uv_udp_server::send(ip, port, data, length)`; `none` if an assertion fails. -/
def send (s : Sender SockAddr) (ipv6 : Bool) (ip : List UInt8) (port : Int) (data : List UInt8)
    (a : Realloc) (r : Int) : Option (Sender SockAddr) :=
  match resolve ipv6 ip port with
  | none => none
  | some addr => s.udpSend addr data a r

/-- A `uv_udp_server` that was started.  `busy` says that libuv has its request in a
list. -/
structure Host where
  sender : Sender SockAddr
  receiver : UvUdpServer SockAddr
  busy : Bool

namespace Host

/-- A send, with a request that libuv does not have and a handle that is not closing. -/
def send (h : Host) (ipv6 : Bool) (ip : List UInt8) (port : Int) (data : List UInt8)
    (a : Realloc) (r : Int) : Option Host :=
  if h.busy = true ∨ h.receiver.mHandle.closing = true then none
  else (Udp.send h.sender ipv6 ip port data a r).map fun s => { h with sender := s, busy := true }

/-- libuv gives the request back: `uv_udp_server::on_send(req, status)`.  It has to have it,
and a send that succeeded was transmitted. -/
def onSend (h : Host) (status : Int) : Option Host :=
  if h.busy = true ∧ (status = 0 → h.sender.queued = 0) then
    if status = 0 then some { h with busy := false } else none
  else some h

/-- libuv reports something for the handle.  The close callback is the end. -/
def report (L : Platform) (h : Host) (e : UdpEvent SockAddr) : Option Host :=
  let receiver := h.receiver.step L e
  if receiver.freedInside = true then none else some { h with receiver := receiver }

end Host

/-- The servers and the network.  A server is `none` when its process has died, or has done
what is undefined.  `wire` holds all that was ever transmitted: source, destination and
payload. -/
structure Net (Node : Type) where
  hosts : Node → Option Host
  wire : List (SockAddr × SockAddr × List UInt8)

/-- What happens next, and where. -/
inductive Action (Node : Type)
  /-- The application sends. -/
  | send (p : Node) (ip : List UInt8) (port : Int) (data : List UInt8) (a : Realloc) (r : Int)
  /-- libuv transmits. -/
  | transmit (p : Node)
  /-- libuv reports how a send has ended. -/
  | sent (p : Node) (status : Int)
  /-- A copy of something that was transmitted arrives. -/
  | arrive (q : Node) (k : Nat)
  /-- libuv has something else to report. -/
  | report (q : Node) (e : UdpEvent SockAddr) (other : e.NoDatagram)

section System

variable {Node : Type} [DecidableEq Node] (addr : Node → SockAddr) (ipv6 : Node → Bool)
  (L : Platform)

/-- Something happens at a server, if its process lives. -/
def Net.update (c : Net Node) (p : Node) (f : Host → Option Host) : Net Node :=
  { c with hosts := Function.update c.hosts p ((c.hosts p).bind f) }

/-- What is reported when a payload arrives.  An empty one is nothing to `on_receive`. -/
def arrival (source : SockAddr) (payload : List UInt8) : UdpEvent SockAddr :=
  if size : 1 ≤ payload.length ∧ payload.length ≤ 65507 then .datagram ⟨source, payload, size⟩
  else .nothing

/-- What libuv transmits at a server, from `addr`. -/
def transmitted (addr : SockAddr) (s : Sender SockAddr) :
    List (SockAddr × SockAddr × List UInt8) :=
  (s.transmit.sent.drop s.sent.length).map fun x => (addr, x)

def Net.step (c : Net Node) : Action Node → Net Node
  | .send p ip port data a r => c.update p fun h => h.send (ipv6 p) ip port data a r
  | .transmit p =>
      match c.hosts p with
      | none => c
      | some h =>
          { c.update p fun h => some { h with sender := h.sender.transmit } with
            wire := c.wire ++ transmitted (addr p) h.sender }
  | .sent p status => c.update p fun h => h.onSend status
  | .arrive q k =>
      match c.wire[k]? with
      | none => c
      | some (source, dest, payload) =>
          if dest = addr q then c.update q fun h => h.report L (arrival source payload) else c
  | .report q e _ => c.update q fun h => h.report L e

/-- A run, in any order. -/
def Net.run (c : Net Node) (acts : List (Action Node)) : Net Node := acts.foldl (step addr ipv6 L) c

/-- All servers were started. -/
def Net.start (junk : UInt8) : Net Node := ⟨fun _ => some ⟨.new junk, .started, false⟩, []⟩

end System

/-! ## One server -/

section Server

variable {asked : SockAddr × List UInt8 → Prop} {s t : Sender SockAddr}

/-- What is queued was asked for. -/
structure SenderOk (asked : SockAddr × List UInt8 → Prop) (s : Sender SockAddr) : Prop where
  owned : Owned s
  queue : ∃ q, Holds s q ∧ ∀ x ∈ q, asked x

theorem senderOk_new (junk : UInt8) : SenderOk asked (Sender.new junk) :=
  ⟨owned_new junk, [], holds_new junk, by simp⟩

theorem SenderOk.mono {asked' : SockAddr × List UInt8 → Prop} (h : SenderOk asked s)
    (hle : ∀ x, asked x → asked' x) : SenderOk asked' s := by
  obtain ⟨howned, q, hq, hasked⟩ := h
  exact ⟨howned, q, hq, fun x hx => hle x (hasked x hx)⟩

/-- A send to an address of the right family, which libuv takes, returns; others do not. -/
theorem send_eq_none_iff (s : Sender SockAddr) (ipv6 : Bool) (ip : List UInt8) (port : Int)
    (data : List UInt8) (a : Realloc) (r : Int) :
    send s ipv6 ip port data a r = none ↔ resolve ipv6 ip port = none ∨ r ≠ 0 := by
  unfold send
  cases resolve ipv6 ip port with
  | none => simp
  | some addr => simp [Sender.udpSend_eq]

theorem SenderOk.send (h : SenderOk asked s) {ipv6 : Bool} {ip : List UInt8} {port : Int}
    {data : List UInt8} {a : Realloc} {r : Int}
    (hnew : ∀ addr, resolve ipv6 ip port = some addr → asked (addr, data))
    (hsend : Udp.send s ipv6 ip port data a r = some t) : SenderOk asked t := by
  obtain ⟨howned, q, hq, hasked⟩ := h
  have hsome : Udp.send s ipv6 ip port data a r ≠ none := by simp [hsend]
  rw [Ne, send_eq_none_iff, not_or, not_not] at hsome
  obtain ⟨haddr, rfl⟩ := hsome
  obtain ⟨addr, haddr⟩ := Option.ne_none_iff_exists'.mp haddr
  obtain ⟨u, hu, -, hholds, howned'⟩ := udpSend_run hq howned addr data a
  have htu : t = u := by
    rw [Udp.send, haddr] at hsend
    exact Option.some.inj (hsend.symm.trans hu)
  subst htu
  refine ⟨howned', _, hholds, fun x hx => ?_⟩
  rcases List.mem_append.mp hx with hx | hx
  · exact hasked x hx
  · rw [List.mem_singleton.mp hx]
    exact hnew addr haddr

/-- Whichever message it is that is transmitted, it was asked for. -/
theorem SenderOk.transmit (h : SenderOk asked s) :
    SenderOk asked s.transmit ∧ ∀ x ∈ s.transmit.sent.drop s.sent.length, asked x := by
  obtain ⟨howned, q, hq, hasked⟩ := h
  cases q with
  | nil =>
      rw [transmit_nil hq]
      exact ⟨⟨howned, [], hq, hasked⟩, by simp⟩
  | cons x q =>
      refine ⟨⟨owned_transmit howned, q, holds_transmit hq, fun y hy => ?_⟩, fun y hy => ?_⟩
      · exact hasked y (List.mem_cons_of_mem x hy)
      · rw [transmit_cons hq] at hy
        have hlast : y = q.getLast?.getD x := by simpa using hy
        cases hcase : q.getLast? with
        | none =>
            rw [hlast, hcase]
            exact hasked x List.mem_cons_self
        | some z =>
            rw [hlast, hcase]
            exact hasked z (List.mem_cons_of_mem x (List.mem_of_getLast? hcase))

/-- A server receives, or it will not any more. -/
def Steady (s : UvUdpServer SockAddr) : Prop := Live s ∨ s.mHandle.receiving = false

/-- What a report adds to the calls. -/
def heard : UdpEvent SockAddr → List (Option SockAddr × List UInt8)
  | .datagram d => [(some d.source, d.payload.take packetBufferSize)]
  | _ => []

theorem steady_step {L : Platform} {s : UvUdpServer SockAddr} (h : Steady s)
    (e : UdpEvent SockAddr) :
    Steady (s.step L e) ∧
      ∀ call ∈ (s.step L e).calls, call ∈ s.calls ∨ call ∈ heard e := by
  rcases h with hlive | hstopped
  · cases e with
    | datagram d =>
        obtain ⟨hnext, hcalls⟩ := recv_live (L := L) hlive d
        have hstep : s.step L (.datagram d) = s.recv L d := by
          simp [UvUdpServer.step, hlive.receiving]
        rw [hstep, hcalls]
        exact ⟨.inl hnext, fun call hcall => by simpa [heard] using hcall⟩
    | failed nread polled negative =>
        obtain ⟨hnext, hcalls⟩ := recvFailed_live (L := L) hlive negative polled
        have hstep : s.step L (.failed nread polled negative) = s.recvFailed L nread polled := by
          simp [UvUdpServer.step, hlive.receiving]
        rw [hstep, hcalls]
        exact ⟨.inr hnext, fun call hcall => .inl hcall⟩
    | nothing =>
        have hstep : s.step L .nothing = s := by
          simp [UvUdpServer.step, UvUdpServer.onReceive]
        rw [hstep]
        exact ⟨.inl hlive, fun call hcall => .inl hcall⟩
    | closed =>
        have hstep : s.step L .closed = s := by simp [UvUdpServer.step, hlive.closing]
        rw [hstep]
        exact ⟨.inl hlive, fun call hcall => .inl hcall⟩
  · have hcalls : (s.step L e).calls = s.calls := run_stopped hstopped [e]
    rw [hcalls]
    refine ⟨.inr ?_, fun call hcall => .inl hcall⟩
    cases e with
    | closed =>
        by_cases hdue : s.mHandle.closing ∧ ¬ s.mHandle.closed
        · simp only [UvUdpServer.step, if_pos hdue, hstopped]
        · simp only [UvUdpServer.step, if_neg hdue, hstopped]
    | _ => simp [UvUdpServer.step, hstopped]

/-- The receive callback frees nothing. -/
theorem freedInside_onReceive {s : UvUdpServer SockAddr} (h : s.freedInside = false) (nread : Int)
    (buf : UvBuf) (source : Option SockAddr) (truncated polled : Bool) :
    (s.onReceive nread buf source truncated polled).freedInside = false := by
  unfold UvUdpServer.onReceive
  split
  · exact h
  · split <;> exact h

/-- Only the close callback of a closing handle frees. -/
theorem freedInside_step {L : Platform} {s : UvUdpServer SockAddr} (h : s.freedInside = false)
    (e : UdpEvent SockAddr) :
    (s.step L e).freedInside = true ↔
      e = .closed ∧ s.mHandle.closing = true ∧ ¬ s.mHandle.closed = true := by
  cases e with
  | datagram d =>
      have hrecv : (s.recv L d).freedInside = false := by
        simp only [UvUdpServer.recv]
        split
        · exact freedInside_onReceive h _ _ _ _ _
        · refine freedInside_onReceive ?_ _ _ _ _ _
          exact h
      simp only [UvUdpServer.step]
      split <;> simp [hrecv, h]
  | failed nread polled negative =>
      have hfailed : (s.recvFailed L nread polled).freedInside = false := by
        unfold UvUdpServer.recvFailed
        refine freedInside_onReceive ?_ _ _ _ _ _
        cases L <;> exact h
      simp only [UvUdpServer.step]
      split <;> simp [hfailed, h]
  | nothing =>
      simp only [UvUdpServer.step]
      split <;> simp [freedInside_onReceive h, h]
  | closed =>
      simp only [UvUdpServer.step, true_and]
      split
      · rename_i hdue
        exact iff_of_true rfl hdue
      · rename_i hdue
        exact iff_of_false (by simp [h]) hdue

end Server

/-! ## All of them -/

section Genuine

variable {Node : Type} (addr : Node → SockAddr) (ipv6 : Node → Bool)

/-- Server `p` was to send a payload to an address. -/
def Asked (acts : List (Action Node)) (p : Node) (x : SockAddr × List UInt8) : Prop :=
  ∃ ip port a r, .send p ip port x.2 a r ∈ acts ∧ resolve (ipv6 p) ip port = some x.1

/-- A call at `q` is about something that its source sent to `q`. -/
def GenuineCall (acts : List (Action Node)) (q : Node) (call : Option SockAddr × List UInt8) :
    Prop :=
  ∃ p payload, call = (some (addr p), payload.take packetBufferSize) ∧
    Asked ipv6 acts p (addr q, payload)

structure HostOk (acts : List (Action Node)) (q : Node) (h : Host) : Prop where
  sender : SenderOk (Asked ipv6 acts q) h.sender
  steady : Steady h.receiver
  unfreed : h.receiver.freedInside = false
  calls : ∀ call ∈ h.receiver.calls, GenuineCall addr ipv6 acts q call

/-- What is on the wire, and what the servers hold, was asked for. -/
structure Genuine (acts : List (Action Node)) (c : Net Node) : Prop where
  wire : ∀ x ∈ c.wire, ∃ p, x.1 = addr p ∧ Asked ipv6 acts p x.2
  hosts : ∀ q h, c.hosts q = some h → HostOk addr ipv6 acts q h

variable {addr ipv6} {acts : List (Action Node)} {c : Net Node} {act : Action Node}

theorem Asked.snoc {p : Node} {x : SockAddr × List UInt8} (h : Asked ipv6 acts p x) :
    Asked ipv6 (acts ++ [act]) p x := by
  obtain ⟨ip, port, a, r, hmem, haddr⟩ := h
  exact ⟨ip, port, a, r, List.mem_append_left _ hmem, haddr⟩

theorem HostOk.snoc {q : Node} {h : Host} (hq : HostOk addr ipv6 acts q h) :
    HostOk addr ipv6 (acts ++ [act]) q h where
  sender := hq.sender.mono fun _ => Asked.snoc
  steady := hq.steady
  unfreed := hq.unfreed
  calls call hcall := by
    obtain ⟨p, payload, heq, hasked⟩ := hq.calls call hcall
    exact ⟨p, payload, heq, hasked.snoc⟩

theorem Genuine.snoc (hc : Genuine addr ipv6 acts c) : Genuine addr ipv6 (acts ++ [act]) c where
  wire x hx := by
    obtain ⟨p, hsource, hasked⟩ := hc.wire x hx
    exact ⟨p, hsource, hasked.snoc⟩
  hosts q h hq := (hc.hosts q h hq).snoc

variable [DecidableEq Node]

/-- What happens at one server is no matter to the others. -/
theorem Genuine.update (hc : Genuine addr ipv6 acts c) {p : Node} {f : Host → Option Host}
    (hf : ∀ h h', HostOk addr ipv6 (acts ++ [act]) p h → f h = some h' →
      HostOk addr ipv6 (acts ++ [act]) p h') :
    Genuine addr ipv6 (acts ++ [act]) (c.update p f) where
  wire := hc.snoc.wire
  hosts q h hq := by
    by_cases hqp : q = p
    · subst hqp
      simp only [Net.update, Function.update_self] at hq
      obtain ⟨h₀, hh₀, hf₀⟩ := Option.bind_eq_some_iff.mp hq
      exact hf h₀ h (hc.hosts q h₀ hh₀).snoc hf₀
    · simp only [Net.update, Function.update_of_ne hqp] at hq
      exact (hc.hosts q h hq).snoc

/-- A server receives something else, or something that was sent to it. -/
theorem Genuine.report (hc : Genuine addr ipv6 acts c) (L : Platform) (q : Node)
    (e : UdpEvent SockAddr)
    (he : ∀ call ∈ heard e, GenuineCall addr ipv6 (acts ++ [act]) q call) :
    Genuine addr ipv6 (acts ++ [act]) (c.update q fun h => h.report L e) := by
  refine hc.update fun h h' hok hh' => ?_
  simp only [Host.report] at hh'
  split at hh'
  · contradiction
  · rename_i hunfreed
    cases hh'
    obtain ⟨hsteady, hcalls⟩ := steady_step (L := L) hok.steady e
    refine ⟨hok.sender, hsteady, Bool.not_eq_true _ ▸ hunfreed, fun call hcall => ?_⟩
    rcases hcalls call hcall with hold | hnew
    · exact hok.calls call hold
    · exact he call hnew

theorem Genuine.transmit (hc : Genuine addr ipv6 acts c) (L : Platform) (p : Node) :
    Genuine addr ipv6 (acts ++ [.transmit p]) (c.step addr ipv6 L (.transmit p)) := by
  cases hp : c.hosts p with
  | none => simpa only [Net.step, hp] using hc.snoc
  | some h =>
      simp only [Net.step, hp]
      have hupdate : Genuine addr ipv6 (acts ++ [.transmit p])
          (c.update p fun h => some { h with sender := h.sender.transmit }) := by
        refine hc.update fun h h' hok hh' => ?_
        cases hh'
        exact ⟨hok.sender.transmit.1, hok.steady, hok.unfreed, hok.calls⟩
      refine ⟨fun x hx => ?_, hupdate.hosts⟩
      rcases List.mem_append.mp hx with hx | hx
      · exact hc.snoc.wire x hx
      · obtain ⟨y, hy, rfl⟩ := List.mem_map.mp hx
        exact ⟨p, rfl, ((hc.hosts p h hp).sender.transmit.2 y hy).snoc⟩

theorem Genuine.arrive (hc : Genuine addr ipv6 acts c) (L : Platform) (q : Node) (k : Nat) :
    Genuine addr ipv6 (acts ++ [.arrive q k]) (c.step addr ipv6 L (.arrive q k)) := by
  cases hk : c.wire[k]? with
  | none => simpa only [Net.step, hk] using hc.snoc
  | some x =>
      obtain ⟨source, dest, payload⟩ := x
      simp only [Net.step, hk]
      split
      · rename_i hdest
        subst hdest
        refine hc.report L q _ fun call hcall => ?_
        obtain ⟨p, hsource, hasked⟩ := hc.wire _ (List.mem_of_getElem? hk)
        simp only at hsource
        subst hsource
        refine ⟨p, payload, ?_, hasked.snoc⟩
        unfold arrival at hcall
        split at hcall
        · exact List.mem_singleton.mp hcall
        · simp [heard] at hcall
      · exact hc.snoc

theorem Genuine.send (hc : Genuine addr ipv6 acts c) (L : Platform) (p : Node)
    (ip : List UInt8) (port : Int) (data : List UInt8) (a : Realloc) (r : Int) :
    Genuine addr ipv6 (acts ++ [.send p ip port data a r])
      (c.step addr ipv6 L (.send p ip port data a r)) := by
  refine hc.update fun h h' hok hh' => ?_
  unfold Host.send at hh'
  split at hh'
  · contradiction
  · obtain ⟨s, hs, rfl⟩ := Option.map_eq_some_iff.mp hh'
    have hnext := hok.sender.send (fun dest hdest => ⟨ip, port, a, r, by simp, hdest⟩) hs
    exact ⟨hnext, hok.steady, hok.unfreed, hok.calls⟩

theorem Genuine.sent (hc : Genuine addr ipv6 acts c) (L : Platform) (p : Node) (status : Int) :
    Genuine addr ipv6 (acts ++ [.sent p status]) (c.step addr ipv6 L (.sent p status)) := by
  refine hc.update fun h h' hok hh' => ?_
  unfold Host.onSend at hh'
  split at hh'
  · split at hh'
    · cases hh'
      exact ⟨hok.sender, hok.steady, hok.unfreed, hok.calls⟩
    · contradiction
  · cases hh'
    exact hok

/-- Whatever happens, nothing is made up. -/
theorem genuine_step (hc : Genuine addr ipv6 acts c) (L : Platform) (act : Action Node) :
    Genuine addr ipv6 (acts ++ [act]) (c.step addr ipv6 L act) := by
  cases act with
  | send p ip port data a r => exact hc.send L p ip port data a r
  | transmit p => exact hc.transmit L p
  | sent p status => exact hc.sent L p status
  | arrive q k => exact hc.arrive L q k
  | report q e other =>
      refine hc.report L q e fun call hcall => ?_
      cases e with
      | datagram d => exact absurd other id
      | _ => simp [heard] at hcall

theorem genuine_run (addr : Node → SockAddr) (ipv6 : Node → Bool) (L : Platform) (junk : UInt8)
    (acts : List (Action Node)) :
    Genuine addr ipv6 acts (Net.run addr ipv6 L (.start junk) acts) := by
  induction acts using List.reverseRecOn with
  | nil =>
      refine ⟨by simp [Net.run, Net.start], fun q h hq => ?_⟩
      cases hq
      exact ⟨senderOk_new junk, .inl live_started, rfl, by simp [UvUdpServer.started]⟩
  | append_singleton acts act ih =>
      rw [Net.run, List.foldl_append]
      exact genuine_step ih L act

/-! ## The end of a server -/

/-- What is the end of a server: to send to a text that is no address of its family, before
the last send has been reported or when the handle is closing; a send that libuv refuses or
reports as failed; the close callback after a receive error. -/
def Host.Ends (ipv6 : Bool) (p : Node) (h : Host) : Action Node → Prop
  | .send q ip port _ _ r => q = p ∧ (h.busy = true ∨ h.receiver.mHandle.closing = true ∨
      resolve ipv6 ip port = none ∨ r ≠ 0)
  | .sent q status => q = p ∧ h.busy = true ∧ status ≠ 0
  | .report q e _ => q = p ∧ e = .closed ∧ h.receiver.mHandle.closing = true ∧
      ¬ h.receiver.mHandle.closed = true
  | .transmit _ => False
  | .arrive _ _ => False

/-- The next action is the end of server `p`. -/
def Fatal (ipv6 : Node → Bool) (c : Net Node) (p : Node) (act : Action Node) : Prop :=
  ∃ h, c.hosts p = some h ∧ h.Ends (ipv6 p) p act

/-- A run comes to the end of server `p`. -/
def Refused (addr : Node → SockAddr) (ipv6 : Node → Bool) (L : Platform) (junk : UInt8)
    (acts : List (Action Node)) (p : Node) : Prop :=
  ∃ before act, before ++ [act] <+: acts ∧
    Fatal ipv6 (Net.run addr ipv6 L (.start junk) before) p act

theorem refused_snoc {L : Platform} {junk : UInt8} {p : Node} :
    Refused addr ipv6 L junk (acts ++ [act]) p ↔ Refused addr ipv6 L junk acts p ∨
      Fatal ipv6 (Net.run addr ipv6 L (.start junk) acts) p act := by
  constructor
  · rintro ⟨before, act', hpre, hfatal⟩
    rcases List.prefix_concat_iff.mp hpre with hlast | hpre
    · obtain ⟨rfl, hact⟩ := List.append_inj' hlast rfl
      cases List.singleton_inj.mp hact
      exact .inr hfatal
    · exact .inl ⟨before, act', hpre, hfatal⟩
  · rintro (⟨before, act', hpre, hfatal⟩ | hfatal)
    · exact ⟨before, act', hpre.trans (List.prefix_append _ _), hfatal⟩
    · exact ⟨acts, act, List.prefix_rfl, hfatal⟩

/-- A server that is updated is gone if it was, or if this is its end. -/
theorem hosts_update_eq_none {p q : Node} {f : Host → Option Host}
    (hf : ∀ h, c.hosts p = some h → (f h = none ↔ h.Ends (ipv6 p) p act))
    (hother : q ≠ p → ∀ h : Host, ¬ h.Ends (ipv6 q) q act) :
    (c.update p f).hosts q = none ↔ c.hosts q = none ∨ Fatal ipv6 c q act := by
  by_cases hqp : q = p
  · subst hqp
    cases hq : c.hosts q with
    | none => simp [Net.update, hq]
    | some h => simp [Net.update, hq, hf h hq, Fatal]
  · have hno : ¬ Fatal ipv6 c q act := fun ⟨h, _, hends⟩ => hother hqp h hends
    simp [Net.update, Function.update_of_ne hqp, hno]

/-- No report but the close callback is the end. -/
theorem report_eq_none_iff {L : Platform} {h : Host} (hunfreed : h.receiver.freedInside = false)
    (e : UdpEvent SockAddr) : h.report L e = none ↔
      e = .closed ∧ h.receiver.mHandle.closing = true ∧ ¬ h.receiver.mHandle.closed = true := by
  rw [← freedInside_step (L := L) hunfreed e]
  unfold Host.report
  simp only [ite_eq_left_iff, Bool.not_eq_true, reduceCtorEq, imp_false, Bool.not_eq_false]

/-- An action is the end of a server exactly if it is fatal to it. -/
theorem hosts_eq_none_step (hc : Genuine addr ipv6 acts c) (L : Platform) (act : Action Node)
    (q : Node) : (c.step addr ipv6 L act).hosts q = none ↔
      c.hosts q = none ∨ Fatal ipv6 c q act := by
  cases act with
  | send p ip port data a r =>
      refine hosts_update_eq_none (fun h _ => ?_) fun hqp h hends => hqp hends.1.symm
      simp only [Host.send, Host.Ends, true_and]
      split
      · rename_i hnot
        simp only [true_iff]
        exact hnot.imp_right .inl
      · rename_i hnot
        rw [not_or] at hnot
        simp [send_eq_none_iff, hnot]
  | sent p status =>
      refine hosts_update_eq_none (fun h _ => ?_) fun hqp h hends => hqp hends.1.symm
      simp only [Host.onSend, Host.Ends, true_and]
      by_cases hstatus : status = 0
      · simp only [hstatus, ne_eq, not_true_eq_false, and_false, iff_false]
        split <;> simp
      · simp [hstatus]
  | transmit p =>
      have hno : ¬ Fatal ipv6 c q (.transmit p) := fun ⟨_, _, hends⟩ => hends
      cases hp : c.hosts p with
      | none => simp [Net.step, hp, hno]
      | some h =>
          simp only [Net.step, hp]
          exact hosts_update_eq_none (fun h _ => by simp [Host.Ends]) fun _ h hends => hends
  | arrive p k =>
      have hno : ¬ Fatal ipv6 c q (.arrive p k) := fun ⟨_, _, hends⟩ => hends
      cases hk : c.wire[k]? with
      | none => simp [Net.step, hk, hno]
      | some x =>
          obtain ⟨source, dest, payload⟩ := x
          simp only [Net.step, hk]
          split
          · refine hosts_update_eq_none (fun h hp => ?_) fun _ h hends => hends
            rw [report_eq_none_iff (hc.hosts p h hp).unfreed]
            have hne : arrival source payload ≠ .closed := by
              unfold arrival
              split <;> simp
            simp [hne, Host.Ends]
          · simp [hno]
  | report p e other =>
      refine hosts_update_eq_none (fun h hp => ?_) fun hqp h hends => hqp hends.1.symm
      rw [report_eq_none_iff (hc.hosts p h hp).unfreed]
      simp [Host.Ends]

/-- A server is gone exactly if the run has come to its end. -/
theorem hosts_eq_none_iff (addr : Node → SockAddr) (ipv6 : Node → Bool) (L : Platform)
    (junk : UInt8) (acts : List (Action Node)) (q : Node) :
    (Net.run addr ipv6 L (.start junk) acts).hosts q = none ↔
      Refused addr ipv6 L junk acts q := by
  induction acts using List.reverseRecOn with
  | nil => simp [Net.run, Net.start, Refused]
  | append_singleton acts act ih =>
      rw [refused_snoc, ← ih, Net.run, List.foldl_append]
      exact hosts_eq_none_step (genuine_run addr ipv6 L junk acts) L act q

/-- **Nothing is made up**: in every run, each call of `on_udpreceive` at a server is about a
payload that its source was asked to send to that server's address, whole or cut to the read
buffer, whatever the network loses, repeats and reorders.  A server that is there has not
used freed memory; and one is gone exactly if the run has come to its end: a text that is not
an address of its family, a send before the last one was reported or on a closing handle, a
send that libuv refused or reported as failed, or the close callback after a receive
error. -/
theorem datagrams_genuine (addr : Node → SockAddr) (ipv6 : Node → Bool) (L : Platform)
    (junk : UInt8) (acts : List (Action Node)) (q : Node) :
    ((Net.run addr ipv6 L (.start junk) acts).hosts q = none ↔
        Refused addr ipv6 L junk acts q) ∧
      ∀ h, (Net.run addr ipv6 L (.start junk) acts).hosts q = some h →
        h.sender.heap.misused = false ∧ h.receiver.freedInside = false ∧
        ∀ call ∈ h.receiver.calls, ∃ p payload,
          call = (some (addr p), payload.take packetBufferSize) ∧
            Asked ipv6 acts p (addr q, payload) := by
  refine ⟨hosts_eq_none_iff addr ipv6 L junk acts q, fun h hq => ?_⟩
  have hok := (genuine_run addr ipv6 L junk acts).hosts q h hq
  obtain ⟨queue, hholds, -⟩ := hok.sender.queue
  exact ⟨hholds.clean, hok.unfreed, hok.calls⟩

/-- Two servers of one machine. -/
def twoAddrs (node : Bool) : SockAddr := ([127, 0, 0, 1], htons (if node then 8001 else 8000))

/-- Two payloads, the second after the first has been reported. -/
def twoSends : List (Action Bool) :=
  [.send false (dotted 127 0 0 1) 8001 [1] ⟨false, 0⟩ 0, .transmit false, .sent false 0,
    .send false (dotted 127 0 0 1) 8001 [2] ⟨false, 0⟩ 0, .transmit false,
    .arrive true 1, .arrive true 0, .arrive true 1]

section Two

-- the read buffer has a thousand and twenty-four bytes
set_option maxRecDepth 20000

/-- Both arrive, in another order, and one of them twice. -/
theorem datagrams_genuine_two :
    ∃ h, (Net.run twoAddrs (fun _ => false) .unix (.start 0) twoSends).hosts true = some h ∧
      h.receiver.calls = [(some (twoAddrs false), [2]), (some (twoAddrs false), [1]),
        (some (twoAddrs false), [2])] ∧
      ∃ p payload, (some (twoAddrs false), [2]) =
          (some (twoAddrs p), payload.take packetBufferSize) ∧
        Asked (fun _ => false) twoSends p (twoAddrs true, payload) :=
  ⟨_, rfl, rfl, ((datagrams_genuine twoAddrs (fun _ => false) .unix 0 twoSends true).2 _ rfl).2.2 _
    List.mem_cons_self⟩

end Two

end Genuine

end Udp

end GEngine
