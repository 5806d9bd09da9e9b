import GEngine.UvService.Tables

/-!
# GEngine.UvService.Registration

The two tables over runs of accepts, connects and closes, with calls of the handler back
into the service in every callback.

`Registered` ties the id counter, the ids of the sessions, the keys of both tables and
the callbacks together: a table holds a session exactly if the handler was told of it and
not yet of its close.  Every step of a run keeps it as long as the counter has not wrapped
around, and `tables_consistent` reads off what follows.
-/

namespace GEngine

open UvService Relation

/-! ## Both tables at once -/

/-- The two tables. -/
inductive Side
  | session
  | connection
  deriving DecidableEq, Repr

namespace Side

/-- The callback that tells of a new session. -/
def opened : Side → Nat → Callback
  | session => .newsession
  | connection => .newconnection

/-- The callback that tells of a close. -/
def closed : Side → Nat → Callback
  | session => .closesession
  | connection => .closeconnection

/-- Which sessions belong to a side: clients were accepted, connections were made by
`connect`. -/
def Owns : Side → UvSession → Prop
  | session, u => u.endpoint = none
  | connection, u => u.endpoint ≠ none

/-- A session belongs to one side. -/
theorem owns_inj {a b : Side} {u : UvSession} (ha : a.Owns u) (hb : b.Owns u) : a = b := by
  cases a with
  | session =>
      cases b with
      | session => rfl
      | connection => exact absurd ha hb
  | connection =>
      cases b with
      | session => exact absurd hb ha
      | connection => rfl

/-- Only the endpoint decides. -/
theorem owns_congr {a : Side} {u v : UvSession} (h : v.endpoint = u.endpoint) :
    a.Owns v ↔ a.Owns u := by
  cases a <;> simp [Owns, h]

@[simp] theorem opened_inj {a b : Side} {p q : Nat} : a.opened p = b.opened q ↔ a = b ∧ p = q := by
  cases a <;> cases b <;> simp [opened]

@[simp] theorem closed_inj {a b : Side} {p q : Nat} : a.closed p = b.closed q ↔ a = b ∧ p = q := by
  cases a <;> cases b <;> simp [closed]

@[simp] theorem opened_ne_closed {a b : Side} {p q : Nat} : a.opened p ≠ b.closed q := by
  cases a <;> cases b <;> simp [opened, closed]

@[simp] theorem closed_ne_opened {a b : Side} {p q : Nat} : a.closed p ≠ b.opened q :=
  opened_ne_closed.symm

/-- `closesession(id)` and `closeconnection(id)`. -/
def close : Side → Int → Polls → Svc Unit → Svc Unit
  | session => closesession
  | connection => closeconnection

end Side

namespace UvService

/-- The table of a side. -/
def table (s : UvService) : Side → Table
  | .session => s.mSessions
  | .connection => s.mConnections

/-- `getsession(id)` and `getconnection(id)`. -/
def find (s : UvService) (id : Int) : Side → Option Nat
  | .session => s.getsession id
  | .connection => s.getconnection id

/-- The service as the handler sees it in `on_newsession` or `on_newconnection`. -/
def inNew (s : UvService) (p : Nat) : Side → UvService
  | .session => s.inNewsession p
  | .connection => s.inNewconnection p

/-- The service as the handler sees it in `on_closesession` or `on_closeconnection`. -/
def inClose (s : UvService) (id : Int) (p : Nat) : Side → UvService
  | .session => s.inClosesession id p
  | .connection => s.inCloseconnection id p

section Side

variable (s : UvService) (id : Int) (p : Nat) (a b : Side)

theorem table_inNew : (s.inNew p a).table b =
    if b = a then (s.table a).insertIfNew (s.heap p).mId p else s.table b := by
  cases a <;> cases b <;> rfl

theorem table_inClose : (s.inClose id p a).table b =
    if b = a then (s.table a).erase id else s.table b := by
  cases a <;> cases b <;> rfl

@[simp] theorem log_inNew : (s.inNew p a).log = s.log ++ [a.opened p] := by
  cases a <;> rfl

@[simp] theorem log_inClose : (s.inClose id p a).log = s.log ++ [a.closed p] := by
  cases a <;> rfl

@[simp] theorem heap_inNew : (s.inNew p a).heap = s.heap := by
  cases a <;> rfl

@[simp] theorem heap_inClose : (s.inClose id p a).heap = s.heap := by
  cases a <;> rfl

@[simp] theorem created_inNew : (s.inNew p a).created = s.created := by
  cases a <;> rfl

@[simp] theorem created_inClose : (s.inClose id p a).created = s.created := by
  cases a <;> rfl

@[simp] theorem nextId_inNew : (s.inNew p a).nextId = s.nextId := by
  cases a <;> rfl

@[simp] theorem nextId_inClose : (s.inClose id p a).nextId = s.nextId := by
  cases a <;> rfl

end Side

end UvService

section Side

variable {s t : UvService} {p : Nat} {id : Int} {a : Side}

theorem Quiet.table (h : Quiet p s t) (a : Side) : t.table a = s.table a := by
  cases a with
  | session => exact h.mSessions
  | connection => exact h.mConnections

theorem Quiet.find (h : Quiet p s t) (a : Side) : t.find id a = s.find id a := by
  cases a with
  | session => exact h.getsession id
  | connection => simp only [UvService.find, UvService.getconnection, h.mConnections]

theorem Quiet.owns (h : Quiet p s t) (q : Nat) : a.Owns (t.heap q) ↔ a.Owns (s.heap q) := by
  by_cases hq : q = p
  · subst hq
    exact Side.owns_congr h.endpoint
  · rw [h.others q hq]

/-- Closing an id that is not there does nothing. -/
theorem close_none (h : s.find id a = none) (polls : Polls) (handler : Svc Unit) :
    a.close id polls handler s = .ok () s := by
  cases a with
  | session => exact closesession_none h polls handler
  | connection => exact closeconnection_none h polls handler

/-- Closing an id that is there: the handler sees the table without it, and then the
session is deleted. -/
theorem close_found (h : s.find id a = some p) (polls : Polls) :
    ∃ t, Quiet p s t ∧ ∀ handler : Svc Unit, a.close id polls handler s =
      (handler >>= fun _ => deleteSession p polls.atDelete) (t.inClose id p a) := by
  cases a with
  | session => exact closesession_found h polls
  | connection => exact closeconnection_found h polls

end Side

/-! ## Runs -/

/-- `p` is the session of a connect that has not completed. -/
def UvService.Awaits (s : UvService) (p : Nat) : Prop :=
  p < s.created ∧ (s.heap p).endpoint ≠ none ∧ Callback.newconnection p ∉ s.log

instance (s : UvService) (p : Nat) : Decidable (s.Awaits p) :=
  inferInstanceAs (Decidable (_ ∧ _ ∧ _))

/-- What happens to the service, in order: a client is accepted, a connect is started,
the connect of session `p` completes, or a session is closed by its id.  `inside` is what
the handler does in the callback this leads to. -/
inductive Calls
  | done
  | accept (ipv6 : Bool) (fresh : Fresh) (inside next : Calls)
  | connect (e : Endpoint) (fresh : Fresh) (next : Calls)
  | connected (p : Nat) (inside next : Calls)
  | closesession (id : Int) (polls : Polls) (inside next : Calls)
  | closeconnection (id : Int) (polls : Polls) (inside next : Calls)

/-- The part of `on_accept` from `new uv_session` to the callback. -/
def acceptClient (ipv6 : Bool) (fresh : Fresh) (handler : Svc Unit) : Svc Unit := do
  let p ← newSession ipv6 fresh none
  onNewsession p handler

/-- The completion of the connect of `p`; a connect completes once. -/
def completeConnect (p : Nat) (handler : Svc Unit) : Svc Unit := do
  onlyIf ((← get).Awaits p) (onNewconnection p handler)

/-- The service does what is listed. -/
def Calls.run : Calls → Svc Unit
  | done => pure ()
  | accept ipv6 fresh inside next => do
      acceptClient ipv6 fresh inside.run
      next.run
  | connect e fresh next => do
      discard <| newSession e.ipv6 fresh (some e)
      next.run
  | connected p inside next => do
      completeConnect p inside.run
      next.run
  | closesession id polls inside next => do
      GEngine.closesession id polls inside.run
      next.run
  | closeconnection id polls inside next => do
      GEngine.closeconnection id polls inside.run
      next.run

/-- The steps of a run: work on one session that leaves the tables alone, a new session,
the way from there to a callback, and a close up to its callback. -/
inductive TableStep : UvService → UvService → Prop
  | quiet {s t : UvService} (p : Nat) (h : Quiet p s t) : TableStep s t
  | created (s : UvService) (ipv6 : Bool) (fresh : Fresh) (e : Endpoint) :
      TableStep s (s.withNew ipv6 fresh (some e))
  | accepted (s : UvService) (ipv6 : Bool) (fresh : Fresh) :
      TableStep s ((s.withNew ipv6 fresh none).inNew s.created .session)
  | connected (s : UvService) (p : Nat) (h : s.Awaits p) : TableStep s (s.inNew p .connection)
  | closed (s : UvService) (a : Side) (id : Int) (p : Nat) (h : s.find id a = some p) :
      TableStep s (s.inClose id p a)

section Steps

variable {handler : Svc Unit}

/-- Work on one session is one step. -/
theorem returns_of_quiet {p : Nat} {x : Svc α} (h : Returns (Quiet p) x) :
    Returns (ReflTransGen TableStep) x := by
  intro s
  obtain ⟨a, t, hrun, hq⟩ := h s
  exact ⟨a, t, hrun, .single (.quiet p hq)⟩

theorem returns_acceptClient (hh : Returns (ReflTransGen TableStep) handler) (ipv6 : Bool)
    (fresh : Fresh) : Returns (ReflTransGen TableStep) (acceptClient ipv6 fresh handler) := by
  intro s
  obtain ⟨_, t, hrun, hsteps⟩ := hh ((s.withNew ipv6 fresh none).inNewsession s.created)
  exact ⟨(), t, hrun, hsteps.head (.accepted s ipv6 fresh)⟩

theorem returns_newSession (ipv6 : Bool) (fresh : Fresh) (e : Endpoint) :
    Returns (ReflTransGen TableStep) (discard (newSession ipv6 fresh (some e))) := by
  intro s
  exact ⟨(), s.withNew ipv6 fresh (some e), rfl, .single (.created s ipv6 fresh e)⟩

/-- The completion of a connect enters the handler with the connection registered. -/
theorem completeConnect_run {s : UvService} {p : Nat} (hw : s.Awaits p) (handler : Svc Unit) :
    completeConnect p handler s = handler (s.inNew p .connection) := by
  change onlyIf (s.Awaits p) (onNewconnection p handler) s = _
  rw [onlyIf, if_pos hw]
  rfl

theorem returns_completeConnect (hh : Returns (ReflTransGen TableStep) handler) (p : Nat) :
    Returns (ReflTransGen TableStep) (completeConnect p handler) := by
  intro s
  by_cases hw : s.Awaits p
  · obtain ⟨_, t, hrun, hsteps⟩ := hh (s.inNewconnection p)
    exact ⟨(), t, (completeConnect_run hw handler).trans hrun,
      hsteps.head (.connected s p hw)⟩
  · refine ⟨(), s, ?_, .refl⟩
    change onlyIf (s.Awaits p) (onNewconnection p handler) s = _
    rw [onlyIf, if_neg hw]
    rfl

theorem returns_close (hh : Returns (ReflTransGen TableStep) handler) (a : Side) (id : Int)
    (polls : Polls) : Returns (ReflTransGen TableStep) (a.close id polls handler) := by
  intro s
  cases hp : s.find id a with
  | none => exact ⟨(), s, close_none hp polls handler, .refl⟩
  | some p =>
      obtain ⟨t, hq, hclose⟩ := close_found hp polls
      have htail : Returns (ReflTransGen TableStep)
          (handler >>= fun _ => deleteSession p polls.atDelete) :=
        Returns.bind hh fun _ => returns_of_quiet (quiet_deleteSession _)
      obtain ⟨_, u, hrun, hsteps⟩ := htail (t.inClose id p a)
      have hfound : t.find id a = some p := by rw [hq.find, hp]
      refine ⟨(), u, (hclose handler).trans hrun, ?_⟩
      exact (hsteps.head (.closed t a id p hfound)).head (.quiet p hq)

/-- A run trips no assertion, and it takes such steps only. -/
theorem returns_run (calls : Calls) : Returns (ReflTransGen TableStep) calls.run := by
  induction calls with
  | done => exact Returns.pure ()
  | accept ipv6 fresh inside next ihn ihx =>
      exact Returns.bind (returns_acceptClient ihn ipv6 fresh) fun _ => ihx
  | connect e fresh next ihx =>
      exact Returns.bind (returns_newSession e.ipv6 fresh e) fun _ => ihx
  | connected p inside next ihn ihx =>
      exact Returns.bind (returns_completeConnect ihn p) fun _ => ihx
  | closesession id polls inside next ihn ihx =>
      exact Returns.bind (returns_close ihn .session id polls) fun _ => ihx
  | closeconnection id polls inside next ihn ihx =>
      exact Returns.bind (returns_close ihn .connection id polls) fun _ => ihx

end Steps

/-! ## The invariant -/

/-- A close is announced once, and after the session was. -/
def Orderly (log : List Callback) : Prop :=
  ∀ (a : Side) (p : Nat) (pre post : List Callback), log = pre ++ a.closed p :: post →
    a.opened p ∈ pre ∧ a.closed p ∉ pre

section Orderly

variable {log : List Callback}

/-- What was closed was opened. -/
theorem Orderly.opened {a : Side} {p : Nat} (h : Orderly log) (hc : a.closed p ∈ log) :
    a.opened p ∈ log := by
  obtain ⟨pre, post, rfl⟩ := List.append_of_mem hc
  exact List.mem_append_left _ (h a p pre post rfl).1

/-- One more callback. -/
theorem Orderly.snoc {c : Callback} (h : Orderly log)
    (hc : ∀ (a : Side) (p : Nat), c = a.closed p → a.opened p ∈ log ∧ a.closed p ∉ log) :
    Orderly (log ++ [c]) := by
  intro a p pre post heq
  rcases List.eq_nil_or_concat post with rfl | ⟨front, d, rfl⟩
  · obtain ⟨rfl, hlast⟩ := List.append_inj' heq rfl
    exact hc a p (by simpa using hlast)
  · have hsplit : log ++ [c] = (pre ++ a.closed p :: front) ++ [d] := by simpa using heq
    obtain ⟨hfront, -⟩ := List.append_inj' hsplit rfl
    exact h a p pre front hfront

end Orderly

/-- The invariant of a run: ids are given out in order, and a table holds a session
exactly if the handler was told of it and not yet of its close. -/
structure Registered (s : UvService) : Prop where
  nextId : s.nextId = s.created
  mId : ∀ p, p < s.created → (s.heap p).mId = p + 1
  table : ∀ (a : Side) (id : Int) (p : Nat), (s.table a)[id]? = some p ↔
    (s.heap p).mId = id ∧ a.opened p ∈ s.log ∧ a.closed p ∉ s.log
  opened : ∀ (a : Side) (p : Nat), a.opened p ∈ s.log → p < s.created ∧ a.Owns (s.heap p)
  log : Orderly s.log

theorem registered_init : Registered UvService.init := by
  refine ⟨rfl, ?_, ?_, ?_, ?_⟩
  · intro p hp
    exact absurd hp (Nat.not_lt_zero p)
  · intro a id p
    cases a <;> simp [UvService.init, UvService.table]
  · intro a p hp
    exact absurd hp List.not_mem_nil
  · intro a p pre post heq
    simp [UvService.init] at heq

namespace Registered

variable {s t : UvService} {p q : Nat} {id : Int} {a b : Side}

/-- Sessions have different ids. -/
theorem mId_inj (h : Registered s) (hp : p < s.created) (hq : q < s.created)
    (heq : (s.heap p).mId = (s.heap q).mId) : p = q := by
  rw [h.mId p hp, h.mId q hq] at heq
  omega

/-- What is in a table. -/
theorem entry (h : Registered s) (hp : (s.table a)[id]? = some p) :
    (s.heap p).mId = id ∧ p < s.created ∧ a.Owns (s.heap p) := by
  obtain ⟨hid, hopen, -⟩ := (h.table a id p).mp hp
  exact ⟨hid, h.opened a p hopen⟩

/-- The id of a session is a key of the table that holds the session, and of no other. -/
theorem lookup_mId (h : Registered s) (hp : p < s.created)
    (hq : (s.table a)[(s.heap p).mId]? = some q) : q = p := by
  obtain ⟨hid, hlt, -⟩ := h.entry hq
  exact h.mId_inj hlt hp hid

/-- Both lookups of the service look into the tables. -/
theorem find_eq (h : Registered s) (id : Int) (a : Side) : s.find id a = (s.table a)[id]? := by
  cases a with
  | session => exact getsession_eq_lookup (fun k p hp => (h.entry (a := .session) hp).1) id
  | connection => rfl

/-- A session that was not announced is in no table. -/
theorem absent (h : Registered s) (hp : p < s.created) (hnew : a.opened p ∉ s.log) :
    (s.table a)[(s.heap p).mId]? = none := by
  rw [Option.eq_none_iff_forall_ne_some]
  intro q hq
  have hqp := h.lookup_mId hp hq
  subst hqp
  exact hnew ((h.table a _ q).mp hq).2.1

/-- Work on one session keeps the invariant. -/
theorem quiet (h : Registered s) (hq : Quiet p s t) : Registered t := by
  refine ⟨?_, ?_, ?_, ?_, ?_⟩
  · rw [hq.nextId, hq.created, h.nextId]
  · intro q hlt
    rw [hq.created] at hlt
    rw [hq.ids, h.mId q hlt]
  · intro a id q
    rw [hq.table, hq.ids, hq.log]
    exact h.table a id q
  · intro a q hopen
    rw [hq.log] at hopen
    rw [hq.created, hq.owns]
    exact h.opened a q hopen
  · rw [hq.log]
    exact h.log

/-- A new session keeps the invariant, if the counter does not wrap around. -/
theorem withNew (h : Registered s) (hlt : s.created + 1 < 2 ^ 31) (ipv6 : Bool)
    (fresh : Fresh) (e : Option Endpoint) : Registered (s.withNew ipv6 fresh e) := by
  have hid : Int.bmod (s.nextId + 1) (2 ^ 32) = s.created + 1 := by
    rw [h.nextId, Int.bmod_eq_of_le (by omega) (by omega)]
  have hold : ∀ q, q < s.created → (s.withNew ipv6 fresh e).heap q = s.heap q :=
    fun q hq => withNew_of_ne s ipv6 fresh e (Nat.ne_of_lt hq)
  refine ⟨?_, ?_, ?_, ?_, h.log⟩
  · exact hid
  · intro q hq
    by_cases hself : q = s.created
    · rw [hself, withNew_self]
      exact hid
    · have hq' : q < s.created := Nat.lt_of_le_of_ne (Nat.lt_succ_iff.mp hq) hself
      rw [hold q hq', h.mId q hq']
  · intro a id q
    refine Iff.trans (h.table a id q) ?_
    refine and_congr_left fun hopen => ?_
    rw [hold q (h.opened a q hopen.1).1]
  · intro a q hopen
    obtain ⟨hq, howns⟩ := h.opened a q hopen
    rw [hold q hq]
    exact ⟨Nat.lt_succ_of_lt hq, howns⟩

/-- Announcing a session for the first time keeps the invariant. -/
theorem inNew (h : Registered s) (hp : p < s.created) (howns : a.Owns (s.heap p))
    (hnew : a.opened p ∉ s.log) : Registered (s.inNew p a) := by
  have hclosed : a.closed p ∉ s.log := fun hc => hnew (h.log.opened hc)
  refine ⟨?_, ?_, ?_, ?_, ?_⟩
  · simpa using h.nextId
  · simpa using h.mId
  · intro b id q
    rw [table_inNew, heap_inNew, log_inNew]
    by_cases hb : b = a
    · subst hb
      rw [if_pos rfl, getElem?_insert_absent (h.absent hp hnew)]
      by_cases hself : q = p
      · subst hself
        have hout : (s.table b)[id]? ≠ some q := fun hq => hnew ((h.table b id q).mp hq).2.1
        simp [hclosed, hout]
      · have hout : b.opened q ∈ s.log → (s.heap q).mId ≠ (s.heap p).mId :=
          fun hq heq => hself (h.mId_inj (h.opened b q hq).1 hp heq)
        by_cases hid : (s.heap p).mId = id
        · subst hid
          have hnot : ¬ ((s.heap q).mId = (s.heap p).mId ∧ b.opened q ∈ s.log ∧
              b.closed q ∉ s.log) := fun hq => hout hq.2.1 hq.1
          simpa [hself, Ne.symm hself] using hnot
        · simp [hid, hself, h.table b id q]
    · rw [if_neg hb, h.table b id q]
      simp [hb]
  · intro b q hopen
    rw [created_inNew, heap_inNew]
    rw [log_inNew, List.mem_append, List.mem_singleton, Side.opened_inj] at hopen
    rcases hopen with hold | ⟨rfl, rfl⟩
    · exact h.opened b q hold
    · exact ⟨hp, howns⟩
  · rw [log_inNew]
    exact h.log.snoc fun b q heq => absurd heq Side.opened_ne_closed

/-- Closing a session keeps the invariant. -/
theorem inClose (h : Registered s) (hfind : s.find id a = some p) :
    Registered (s.inClose id p a) := by
  rw [h.find_eq] at hfind
  obtain ⟨hid, hopen, hclosed⟩ := (h.table a id p).mp hfind
  refine ⟨?_, ?_, ?_, ?_, ?_⟩
  · simpa using h.nextId
  · simpa using h.mId
  · intro b k q
    rw [table_inClose, heap_inClose, log_inClose]
    by_cases hb : b = a
    · subst hb
      rw [if_pos rfl, getElem?_erase_eq]
      by_cases hself : q = p
      · subst hself
        have hkey : (s.table b)[k]? = some q → id = k :=
          fun hq => hid.symm.trans (h.entry hq).1
        by_cases hk : id = k
        · simp [hk]
        · simp [hk, mt hkey hk]
      · have hout : b.opened q ∈ s.log → (s.heap q).mId ≠ id := by
          intro hq heq
          exact hself (h.mId_inj (h.opened b q hq).1 (h.opened b p hopen).1 (heq.trans hid.symm))
        by_cases hk : id = k
        · subst hk
          have hnot : ¬ ((s.heap q).mId = id ∧ b.opened q ∈ s.log ∧ b.closed q ∉ s.log) :=
            fun hq => hout hq.2.1 hq.1
          simpa [hself] using hnot
        · simp [hk, hself, h.table b k q]
    · rw [if_neg hb, h.table b k q]
      simp [hb]
  · intro b q hq
    have hold : b.opened q ∈ s.log := by simpa using hq
    simpa using h.opened b q hold
  · rw [log_inClose]
    refine h.log.snoc fun b q heq => ?_
    obtain ⟨rfl, rfl⟩ := Side.closed_inj.mp heq
    exact ⟨hopen, hclosed⟩

/-- Every step keeps the invariant, as long as the counter has not wrapped around. -/
theorem step (hstep : TableStep s t) (h : s.created < 2 ^ 31 → Registered s)
    (hlt : t.created < 2 ^ 31) : Registered t := by
  cases hstep with
  | quiet p hq =>
      rw [hq.created] at hlt
      exact (h hlt).quiet hq
  | created ipv6 fresh e => exact (h (Nat.lt_of_succ_lt hlt)).withNew hlt ipv6 fresh (some e)
  | accepted ipv6 fresh =>
      rw [created_inNew] at hlt
      have hs := h (Nat.lt_of_succ_lt hlt)
      have hnew : Side.session.opened s.created ∉ s.log :=
        fun hopen => Nat.lt_irrefl _ (hs.opened _ _ hopen).1
      refine (hs.withNew hlt ipv6 fresh none).inNew (Nat.lt_succ_self _) ?_ hnew
      simp [Side.Owns]
  | connected p hw =>
      rw [created_inNew] at hlt
      exact (h hlt).inNew hw.1 hw.2.1 hw.2.2
  | closed a id p hp =>
      rw [created_inClose] at hlt
      exact (h hlt).inClose hp

end Registered

/-- The handler was told of every client. -/
def ClientsTold (s : UvService) : Prop :=
  ∀ p, p < s.created → (s.heap p).endpoint = none → Callback.newsession p ∈ s.log

/-- Every step keeps this: a client is told of in the step that creates it. -/
theorem clientsTold_step {s t : UvService} (hstep : TableStep s t) (h : ClientsTold s) :
    ClientsTold t := by
  cases hstep with
  | quiet p hq =>
      intro q hlt hclient
      rw [hq.created] at hlt
      rw [hq.log]
      exact h q hlt ((hq.owns (a := .session) q).mp hclient)
  | created ipv6 fresh e =>
      intro q hlt hclient
      by_cases hself : q = s.created
      · simp [hself] at hclient
      · rw [withNew_of_ne s ipv6 fresh _ hself] at hclient
        exact h q (Nat.lt_of_le_of_ne (Nat.lt_succ_iff.mp hlt) hself) hclient
  | accepted ipv6 fresh =>
      intro q hlt hclient
      rw [log_inNew, List.mem_append, List.mem_singleton]
      by_cases hself : q = s.created
      · exact .inr (by rw [hself]; rfl)
      · rw [heap_inNew, withNew_of_ne s ipv6 fresh _ hself] at hclient
        exact .inl (h q (Nat.lt_of_le_of_ne (Nat.lt_succ_iff.mp hlt) hself) hclient)
  | connected p hw =>
      intro q hlt hclient
      rw [heap_inNew] at hclient
      rw [log_inNew]
      exact List.mem_append_left _ (h q (by simpa using hlt) hclient)
  | closed a id p hp =>
      intro q hlt hclient
      rw [heap_inClose] at hclient
      rw [log_inClose]
      exact List.mem_append_left _ (h q (by simpa using hlt) hclient)

/-- Both invariants hold after every run. -/
theorem registered_run (calls : Calls) : ∃ s, calls.run UvService.init = .ok () s ∧
    ClientsTold s ∧ (s.created < 2 ^ 31 → Registered s) := by
  obtain ⟨_, s, hrun, hsteps⟩ := returns_run calls UvService.init
  refine ⟨s, hrun, ?_, ?_⟩
  · refine moves_keep (fun _ _ hstep h => clientsTold_step hstep h) hsteps fun p hp => ?_
    exact absurd hp (Nat.not_lt_zero p)
  · exact moves_keep (I := fun s => s.created < 2 ^ 31 → Registered s)
      (fun _ _ hstep h => Registered.step hstep h) hsteps fun _ => registered_init

/-! ## The tables stay consistent -/

/-- `t` has the tables of `s` but for the entry of `id` on one side. -/
structure Removed (s t : UvService) (a : Side) (id : Int) : Prop where
  gone : (t.table a)[id]? = none
  kept : ∀ k : Int, k ≠ id → (t.table a)[k]? = (s.table a)[k]?
  other : ∀ b, b ≠ a → t.table b = s.table b

/-- Closing `id` takes out the entry of that id and nothing else: the handler is entered
with that entry gone, and what it leaves in the tables is what they end up with. -/
def ClosesExactly (s : UvService) (a : Side) (id : Int) : Prop :=
  match (s.table a)[id]? with
  | none => ∀ (polls : Polls) (handler : Svc Unit), a.close id polls handler s = .ok () s
  | some p => ∀ polls : Polls, ∃ u, Removed s u a id ∧ u.log = s.log ++ [a.closed p] ∧
      ∀ (handler : Svc Unit) (t : UvService), handler u = .ok () t →
        ∃ v, a.close id polls handler s = .ok () v ∧ ∀ b, v.table b = t.table b

/-- `t` has the tables of `s` and one entry more on one side, that of the session `p`
under its id, and the handler was told of `p`. -/
structure Added (s t : UvService) (a : Side) (p : Nat) : Prop where
  absent : (s.table a)[(t.heap p).mId]? = none
  there : (t.table a)[(t.heap p).mId]? = some p
  kept : ∀ k : Int, k ≠ (t.heap p).mId → (t.table a)[k]? = (s.table a)[k]?
  other : ∀ b, b ≠ a → t.table b = s.table b
  told : t.log = s.log ++ [a.opened p]

/-- What one expects of the two tables, the id counter and the callbacks. -/
structure Consistent (s : UvService) : Prop where
  /-- Every entry is stored under its own id. -/
  ownId : ∀ (a : Side) (id : Int) (p : Nat), (s.table a)[id]? = some p → (s.heap p).mId = id
  /-- No id occurs in both tables or twice. -/
  once : ∀ (a b : Side) (id k : Int) (p q : Nat), (s.table a)[id]? = some p →
    (s.table b)[k]? = some q → (s.heap p).mId = (s.heap q).mId → a = b ∧ id = k ∧ p = q
  /-- The handler was told of every session that was accepted. -/
  told : ∀ p, p < s.created → (s.heap p).endpoint = none → Callback.newsession p ∈ s.log
  /-- Every session the handler was told of is in its table until its close. -/
  registered : ∀ (a : Side) (p : Nat), (s.table a)[(s.heap p).mId]? = some p ↔
    a.opened p ∈ s.log ∧ a.closed p ∉ s.log
  /-- The id of a connection that has not completed is free. -/
  awaited : ∀ p, s.Awaits p → ∀ a, (s.table a)[(s.heap p).mId]? = none
  /-- The id of the next session is free. -/
  free : s.created + 1 < 2 ^ 31 → ∀ (ipv6 : Bool) (fresh : Fresh) (e : Option Endpoint) (a : Side),
    (s.table a)[((s.withNew ipv6 fresh e).heap s.created).mId]? = none
  /-- The next client that is accepted gets into its table, and the handler is told. -/
  accepts : s.created + 1 < 2 ^ 31 → ∀ (ipv6 : Bool) (fresh : Fresh),
    ∃ t, Added s t .session s.created ∧
      ∀ handler : Svc Unit, acceptClient ipv6 fresh handler s = handler t
  /-- A connect that completes gets its session into its table, and the handler is told. -/
  completes : ∀ p, s.Awaits p → ∃ t, Added s t .connection p ∧
    ∀ handler : Svc Unit, completeConnect p handler s = handler t
  /-- The scan of `getsession` is a lookup. -/
  getsession : ∀ id : Int, s.getsession id = s.mSessions[id]?
  closes : ∀ (a : Side) (id : Int), ClosesExactly s a id
  /-- Each session is closed at most once, after the handler was told of it. -/
  callbacks : ∀ (a : Side) (p : Nat) (pre post : List Callback),
    s.log = pre ++ a.closed p :: post → a.opened p ∈ pre ∧ ∀ b : Side, b.closed p ∉ pre

namespace Registered

variable {s t : UvService} {p : Nat} {a b : Side}

/-- What the handler of a close finds in the tables. -/
theorem removed (hq : Quiet p s t) (a : Side) (id : Int) : Removed s (t.inClose id p a) a id := by
  refine ⟨?_, ?_, ?_⟩
  · rw [table_inClose, if_pos rfl, getElem?_erase_eq, if_pos rfl]
  · intro k hk
    rw [table_inClose, if_pos rfl, getElem?_erase_eq, if_neg hk.symm, hq.table]
  · intro b hb
    rw [table_inClose, if_neg hb, hq.table]

theorem closesExactly (h : Registered s) (a : Side) (id : Int) : ClosesExactly s a id := by
  unfold ClosesExactly
  cases hp : (s.table a)[id]? with
  | none =>
      intro polls handler
      exact close_none (by rw [h.find_eq, hp]) polls handler
  | some p =>
      intro polls
      obtain ⟨t, hq, hclose⟩ := close_found (by rw [h.find_eq, hp]) polls
      refine ⟨t.inClose id p a, removed hq a id, ?_, ?_⟩
      · rw [log_inClose, hq.log]
      · intro handler u hu
        obtain ⟨_, v, hrun, hv⟩ := quiet_deleteSession (p := p) polls.atDelete u
        refine ⟨v, ?_, fun b => hv.table b⟩
        rw [hclose handler, bind_of_ok hu, hrun]

/-- The id of the next session is free. -/
theorem free (h : Registered s) (hlt : s.created + 1 < 2 ^ 31) (ipv6 : Bool) (fresh : Fresh)
    (e : Option Endpoint) (a : Side) :
    (s.table a)[((s.withNew ipv6 fresh e).heap s.created).mId]? = none := by
  have hnew : a.opened s.created ∉ s.log := fun hopen => Nat.lt_irrefl _ (h.opened _ _ hopen).1
  exact (h.withNew hlt ipv6 fresh e).absent (Nat.lt_succ_self _) hnew

/-- A session is closed on its own side only. -/
theorem closed_side (h : Registered s) (ha : a.opened p ∈ s.log) (hb : b.closed p ∈ s.log) :
    b = a :=
  Side.owns_inj (h.opened b p (h.log.opened hb)).2 (h.opened a p ha).2

/-- Announcing a session whose id is free adds its entry. -/
theorem added (hfree : (s.table a)[(s.heap p).mId]? = none) : Added s (s.inNew p a) a p := by
  refine ⟨?_, ?_, ?_, ?_, log_inNew s p a⟩
  · rw [heap_inNew]
    exact hfree
  · rw [heap_inNew, table_inNew, if_pos rfl, getElem?_insert_absent hfree, if_pos rfl]
  · intro k hk
    rw [heap_inNew] at hk
    rw [table_inNew, if_pos rfl, getElem?_insert_absent hfree, if_neg hk.symm]
  · intro b hb
    rw [table_inNew, if_neg hb]

/-- The id of a connection that has not completed is free. -/
theorem awaited (h : Registered s) (hw : s.Awaits p) (a : Side) :
    (s.table a)[(s.heap p).mId]? = none := by
  refine h.absent hw.1 fun hopen => ?_
  cases a with
  | session => exact hw.2.1 (h.opened .session p hopen).2
  | connection => exact hw.2.2 hopen

/-- The next client gets into its table. -/
theorem accepts (h : Registered s) (hlt : s.created + 1 < 2 ^ 31) (ipv6 : Bool) (fresh : Fresh) :
    ∃ t, Added s t .session s.created ∧
      ∀ handler : Svc Unit, acceptClient ipv6 fresh handler s = handler t := by
  have hadd : Added (s.withNew ipv6 fresh none) _ .session s.created :=
    added (h.free hlt ipv6 fresh none .session)
  exact ⟨_, ⟨hadd.absent, hadd.there, hadd.kept, hadd.other, hadd.told⟩, fun _ => rfl⟩

/-- The invariants say all that is expected. -/
theorem consistent (h : Registered s) (hclients : ClientsTold s) : Consistent s where
  ownId a id p hp := (h.entry hp).1
  once a b id k p q hp hq heq := by
    obtain ⟨hid, hplt, hpa⟩ := h.entry hp
    obtain ⟨hk, hqlt, hqb⟩ := h.entry hq
    have hpq := h.mId_inj hplt hqlt heq
    subst hpq
    exact ⟨Side.owns_inj hpa hqb, hid.symm.trans hk, rfl⟩
  told := hclients
  registered a p := by simp [h.table]
  awaited p hw := h.awaited hw
  free := h.free
  accepts := h.accepts
  completes p hw := ⟨_, added (h.awaited hw .connection), completeConnect_run hw⟩
  getsession id := h.find_eq id .session
  closes := h.closesExactly
  callbacks a p pre post heq := by
    obtain ⟨hopen, hclosed⟩ := h.log a p pre post heq
    refine ⟨hopen, fun b hb => ?_⟩
    have hba : b = a := by
      refine h.closed_side (p := p) ?_ ?_
      · rw [heq]
        exact List.mem_append_left _ hopen
      · rw [heq]
        exact List.mem_append_left _ hb
    subst hba
    exact hclosed hb

end Registered

/-- **Tables**: after any run of accepts, connects and closes, whatever the handler does
in its callbacks, the tables are consistent, as long as fewer than `2 ^ 31` sessions
were created. -/
theorem tables_consistent (calls : Calls) : ∃ s, calls.run UvService.init = .ok () s ∧
    (s.created < 2 ^ 31 → Consistent s) := by
  obtain ⟨s, hrun, hclients, hreg⟩ := registered_run calls
  exact ⟨s, hrun, fun hlt => (hreg hlt).consistent hclients⟩

/-- A client is accepted, and in its callback the handler starts a connect; the connect
completes, and in that callback the handler closes the client. -/
def acceptAndConnect : Calls :=
  .accept false ⟨true, 0, 0⟩ (.connect ⟨"127.0.0.1", 80, false⟩ ⟨true, 0, 0⟩ .done)
    (.connected 1 (.closesession 1 ⟨false, false⟩ .done .done) .done)

theorem tables_consistent_acceptAndConnect :
    ∃ s, acceptAndConnect.run UvService.init = .ok () s ∧ s.created = 2 ∧
      s.log = [.newsession 0, .newconnection 1, .closesession 0] ∧ Consistent s := by
  obtain ⟨s, hrun, hcons⟩ := tables_consistent acceptAndConnect
  have hcreated : (endState (acceptAndConnect.run UvService.init)).created = 2 := by
    decide +kernel
  have hlog : (endState (acceptAndConnect.run UvService.init)).log =
      [.newsession 0, .newconnection 1, .closesession 0] := by
    decide +kernel
  rw [hrun, endState] at hcreated hlog
  exact ⟨s, hrun, hcreated, hlog, hcons (by omega)⟩

end GEngine
