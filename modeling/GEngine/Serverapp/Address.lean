import Mathlib.Data.List.TakeWhile
import GEngine.Inet.Ip6
import GEngine.Serverapp

/-!
# GEngine.Serverapp.Address

The service with the address parsers of libuv.

What was assumed of them, that no text is an address of both families, is true: an IPv6
address has a colon in it, and an IPv4 address has none (`disjoint_inet`).  So with the
library as it is, `serverapp::connectserver` never finds the connection it looks for.

It does not make one either.  A text that is not an address of the family that was not
asked for is refused by the parser, and any other by `uv_tcp_connect`, which is given the
place of a pointer for an address.  Both are followed by an assertion, so nobody who dials
comes back, and no connection is ever registered (`connectserver_dies`).
-/

namespace GEngine

open Inet

/-- `c_str()`: the bytes of a string, up to the first zero. -/
def cStr (s : String) : List UInt8 := s.toUTF8.data.toList.takeWhile (· != 0)

/-- The library with its parsers. -/
def Libuv.inet (platform : Platform) : Libuv where
  platform := platform
  ip4Addr ip := (uvIp4Addr (cStr ip)).map leNat
  ip6Addr ip := uvIp6Addr (cStr ip)

/-! ## The two families -/

theorem not_mem_addressPart (ip : List UInt8) : 37 ∉ addressPart ip := by
  unfold addressPart
  split
  · intro h
    have hmem := List.mem_takeWhile_imp (List.mem_of_mem_take h)
    simp at hmem
  · assumption

theorem uvIp6Addr_eq_some {ip addr : List UInt8} :
    uvIp6Addr ip = some addr ↔ ∃ t : Ip6Text, addressPart ip = t.text ∧ addr = t.bytes := by
  rw [uvIp6Addr, uvInetPton6, if_neg (not_mem_addressPart ip), inetPton6_eq_some]

/-- There is a colon in an IPv6 address. -/
theorem colon_mem_text (t : Ip6Text) : 58 ∈ t.text := by
  cases t with
  | full row h =>
      obtain ⟨groups, last⟩ := row
      cases groups with
      | nil =>
          cases last with
          | group g => simp [rowBytes, groupBytes, Tail.bytes] at h
          | quad a b c d => simp [rowBytes, groupBytes, Tail.bytes] at h
      | cons g gs => simp [Ip6Text.text, rowText]
  | elided front back h => simp [Ip6Text.text]

/-- An octet is written with digits. -/
theorem not_mem_decimal {ch : UInt8} (h : xdigit ch = none) (b : UInt8) : ch ∉ decimal b := by
  intro hmem
  have hhex := Pton6.decimal_hex b ch hmem
  simp [h] at hhex

theorem not_mem_dotted {ch : UInt8} (h : xdigit ch = none) (hdot : ch ≠ 46) (a b c d : UInt8) :
    ch ∉ dotted a b c d := by
  simp [dotted, not_mem_decimal h, hdot]

/-- A text in decimal is not an IPv6 address. -/
theorem uvIp6Addr_dotted (a b c d : UInt8) : uvIp6Addr (dotted a b c d) = none := by
  have hzone : 37 ∉ dotted a b c d := not_mem_dotted (by decide) (by decide) a b c d
  rw [Option.eq_none_iff_forall_ne_some]
  intro addr haddr
  obtain ⟨t, htext, -⟩ := uvIp6Addr_eq_some.mp haddr
  have hcolon := colon_mem_text t
  rw [← htext, addressPart, if_neg hzone] at hcolon
  exact not_mem_dotted xdigit_colon (by decide) a b c d hcolon

theorem uvIp4Addr_or_uvIp6Addr (ip : List UInt8) : uvIp4Addr ip = none ∨ uvIp6Addr ip = none := by
  cases h4 : uvIp4Addr ip with
  | none => exact .inl rfl
  | some addr =>
      obtain ⟨a, b, c, d, -, rfl⟩ := inetPton4_eq_some.mp h4
      exact .inr (uvIp6Addr_dotted a b c d)

/-- **Addresses**: what the parsers of libuv accept, and the address they find.  No text is an
address of both families. -/
theorem addresses_accepted (ip : List UInt8) :
    (∀ addr, uvIp4Addr ip = some addr ↔
        ∃ a b c d, addr = [a, b, c, d] ∧ ip = dotted a b c d) ∧
      (∀ addr, uvIp6Addr ip = some addr ↔
        ∃ t : Ip6Text, addressPart ip = t.text ∧ addr = t.bytes) ∧
      (uvIp4Addr ip = none ∨ uvIp6Addr ip = none) :=
  ⟨fun _ => inetPton4_eq_some, fun _ => uvIp6Addr_eq_some, uvIp4Addr_or_uvIp6Addr ip⟩

/-- What is assumed of the parsers is true of those of libuv. -/
theorem disjoint_inet (platform : Platform) : (Libuv.inet platform).Disjoint := by
  intro ip
  rcases uvIp4Addr_or_uvIp6Addr (cStr ip) with h | h
  · simp [Libuv.inet, h]
  · simp [Libuv.inet, h]

/-! ## Dialling -/

/-- The text is an address of the family that is not asked for. -/
def Endpoint.Crossed (e : Endpoint) : Prop :=
  if e.ipv6 then ∃ a b c d, cStr e.ip = dotted a b c d
  else ∃ t : Ip6Text, addressPart (cStr e.ip) = t.text

/-- `connect` takes the texts of the other family. -/
theorem connectParses_iff (platform : Platform) (e : Endpoint) :
    connectParses (.inet platform) e = true ↔ e.Crossed := by
  unfold connectParses Endpoint.Crossed
  split
  · simp [Libuv.inet, Option.isSome_iff_exists, uvIp4Addr, inetPton4_eq_some]
  · simp [Libuv.inet, Option.isSome_iff_exists, uvIp6Addr_eq_some]

/-- The address of every connect of a handler, in the callbacks it leads to as well, lies
at a multiple of four. -/
def Script.Aligned : Script → Prop
  | .ret => True
  | .closesession _ _ nested next => nested.Aligned ∧ next.Aligned
  | .closeconnection _ _ nested next => nested.Aligned ∧ next.Aligned
  | .connect _ env next => 4 ∣ env.addr ∧ next.Aligned

/-- The same for the handlers of an event. -/
def Event.Aligned : Event → Prop
  | .accept _ script => script.Aligned
  | .connected _ _ _ _ script closing => script.Aligned ∧ closing.Aligned
  | .read _ _ _ script => script.Aligned
  | .readError _ _ _ script => script.Aligned
  | .update script => script.Aligned
  | .sent _ => True
  | .closed _ => True

/-- The same for a turn of the application. -/
def AppCall.Aligned (c : AppCall) : Prop := c.toEvent.Aligned

/-- No connection is registered, and none is to come. -/
structure Undialled (s : UvService) : Prop where
  pending : s.pending = []
  mConnections : s.mConnections = ∅

section Dial

variable {L : Libuv} {s t : UvService}

/-- `uv_tcp_connect` accepts nothing. -/
theorem connectResult_ne_zero (L : Libuv) {env : ConnectEnv} (h : 4 ∣ env.addr) :
    connectResult L env ≠ 0 := by
  rw [connectResult_aligned L h]
  cases L.platform <;> decide

theorem Script.Aligned.within {script : Script} (h : script.Aligned) :
    script.Within L ⟨fun _ => True, False⟩ := by
  induction script with
  | ret => trivial
  | closesession id polls nested next ihn ihx => exact ⟨ihn h.1, ihx h.2⟩
  | closeconnection id polls nested next ihn ihx => exact ⟨ihn h.1, ihx h.2⟩
  | connect e env next ihx =>
      exact ⟨fun _ => trivial, connectResult_ne_zero L h.1, ihx h.2⟩

/-- Where no request is accepted, none completes and none is registered. -/
theorem undialled_change (hc : Move ⟨fun _ => True, False⟩ s t) (h : Undialled s) :
    Undialled t := by
  cases hc with
  | requested p hd => exact hd.elim
  | connected q hq hd => exact hd.elim
  | completed p => exact ⟨by rw [h.pending]; rfl, h.mConnections⟩
  | closedConnection id p hp =>
      rw [UvService.getconnection, h.mConnections] at hp
      simp at hp
  | fault | session | created | accepted | connecting | queued | received
  | closedSession => exact ⟨h.pending, h.mConnections⟩

/-- An event registers no connection. -/
theorem undialled_step {e : Event} (h : Undialled s) (he : e.Aligned)
    (hstep : step L e s = .ok () t) : Undialled t := by
  have hkeep (hwithin : e.Within L ⟨fun _ => True, False⟩) : Undialled t := by
    have hend := moves_keep (fun _ _ hc => undialled_change hc) (moves_step hwithin s) h
    rw [hstep] at hend
    exact hend
  cases e with
  | connected p status names polls script closing =>
      -- libuv has no request to complete
      have hnone : ¬ p ∈ s.pending := by simp [h.pending]
      have hsame : step L (.connected p status names polls script closing) s = .ok () s := by
        change uvConnected L p status names polls (script.run L) (closing.run L) s = _
        unfold uvConnected
        rw [bind_of_ok (show (get : Svc UvService) s = .ok s s from rfl), if_neg hnone]
        rfl
      cases hsame.symm.trans hstep
      exact h
  | accept env script => exact hkeep he.within
  | read p chunk polls script => exact hkeep he.within
  | readError p nread polls script => exact hkeep he.within
  | update script => exact hkeep he.within
  | sent status => exact hkeep trivial
  | closed p => exact hkeep trivial

theorem undialled_run {es : List Event} (h : Undialled s) (hes : ∀ e ∈ es, e.Aligned)
    (hrun : run L es s = .ok () t) : Undialled t := by
  induction es generalizing s with
  | nil =>
      cases hrun
      exact h
  | cons e es ih =>
      obtain ⟨⟨⟩, u, hstep, hrest⟩ := bind_eq_ok hrun
      exact ih (undialled_step h (hes e List.mem_cons_self) hstep)
        (fun e he => hes e (List.mem_cons_of_mem _ he)) hrest

end Dial

/-- **Dialling**: with libuv as it is, the lookup by address finds nothing, whatever is
registered.  Nobody who dials comes back: if `uv_tcp_init` succeeds, the process dies after
the parser if the text is not an address of the family that was not asked for, and after
`uv_tcp_connect` if it is.
And so in a run of the application, with any events and handlers, no connection is ever
registered. -/
theorem connectserver_dies (platform : Platform) (calls : List AppCall)
    (hcalls : ∀ c ∈ calls, c.Aligned) :
    (∀ ip port s, getconnectionAt (.inet platform) ip port s = .ok none s) ∧
      (∀ (e : Endpoint) (env : ConnectEnv) polled polls closing s, 4 ∣ env.addr →
        ∃ site t, connectserver (.inet platform) e env polled polls closing s = .error site t ∧
          (env.rInit = 0 →
            site = .connectRequest ∧ e.Crossed ∨ site = .connectAddr ∧ ¬ e.Crossed)) ∧
      ∀ s, Visits (.inet platform) calls s → Undialled s := by
  refine ⟨fun ip port s => ?_, fun e env polled polls closing s halign => ?_, ?_⟩
  · rw [getconnectionAt_none (disjoint_inet platform)]
    rfl
  · have hno : ¬ (ConnectOp.connect e env).Accepted (.inet platform) :=
      fun h => connectResult_ne_zero _ halign h.2.2
    obtain ⟨t, ht⟩ := connect_error hno s
    refine ⟨_, t, by rw [connectserver_eq (disjoint_inet platform), ht], fun hinit => ?_⟩
    by_cases hcrossed : e.Crossed
    · have hparse := (connectParses_iff platform e).mpr hcrossed
      exact .inl ⟨by simp [connectSite, hinit, hparse], hcrossed⟩
    · have hparse := mt (connectParses_iff platform e).mp hcrossed
      exact .inr ⟨by simp [connectSite, hinit, hparse], hcrossed⟩
  · rintro s ⟨before, hpre, hrun⟩
    rw [appRun_eq (disjoint_inet platform)] at hrun
    refine undialled_run ⟨rfl, rfl⟩ (fun e he => ?_) hrun
    obtain ⟨c, hc, rfl⟩ := List.mem_map.mp he
    exact hcalls c (hpre.subset hc)

/-- A client comes, and then the application dials the IPv4 loopback address with the flag
of the other family. -/
theorem connectserver_dies_loopback :
    ∃ s, Visits (.inet .unix)
        [.event (.accept ⟨0, false, 0, 0, ⟨true, 0, 0⟩⟩ .ret), .dial "127.0.0.1" true 4] s ∧
      Undialled s ∧
      ∃ site t, appStep (.inet .unix) (.dial "127.0.0.1" true 4) s = .error site t := by
  obtain ⟨-, hdies, hvisits⟩ := connectserver_dies .unix
    [.event (.accept ⟨0, false, 0, 0, ⟨true, 0, 0⟩⟩ .ret), .dial "127.0.0.1" true 4]
    (by simp [AppCall.Aligned, AppCall.toEvent, AppCall.dial, Event.Aligned, Script.Aligned])
  have hvisit : ∃ s, Visits (.inet .unix)
      [.event (.accept ⟨0, false, 0, 0, ⟨true, 0, 0⟩⟩ .ret), .dial "127.0.0.1" true 4] s :=
    ⟨_, [.event (.accept ⟨0, false, 0, 0, ⟨true, 0, 0⟩⟩ .ret)], ⟨_, rfl⟩, rfl⟩
  obtain ⟨s, hs⟩ := hvisit
  obtain ⟨site, t, ht, -⟩ := hdies ⟨"127.0.0.1", 80, true⟩ ⟨0, 4, 0, ⟨true, 0, 0⟩⟩ false
    ⟨false, false⟩ .ret s ⟨1, rfl⟩
  exact ⟨s, hs, hvisits s hs, site, t, discard_of_error ht⟩

end GEngine
