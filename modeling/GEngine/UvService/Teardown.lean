import GEngine.UvService.Lifetime

/-!
# GEngine.UvService.Teardown

The end of the service: `uv_service::~uv_service`, which closes and deletes every session of
both tables.

A session is in one table at most, and there once, so none is deleted twice
(`destroy_run`).  But the loop does not run any more, and a handle that `uv_close` was
called for is deleted right away: after a careful run the service comes to a clean end
exactly if the handles of all registered sessions are idle, that is, if nobody is connected
any more (`teardown_clean_iff`).  The handles that are deleted without `uv_close` stay in
`loop->handle_queue`, but nothing walks it after that.
-/

namespace GEngine

open UvService

/-- The body of the loops of the destructor: `session->close(); delete session`. -/
def destroySession (p : Nat) (polls : Polls) : Svc Unit := do
  close p polls.atClose
  deleteSession p polls.atDelete

/-- A loop of the destructor over a table. -/
def destroyAll (polls : Nat → Polls) : List (Int × Nat) → Svc Unit
  | [] => pure ()
  | (_, p) :: rest => do
      destroySession p (polls p)
      destroyAll polls rest

/-- `uv_service::~uv_service`, as far as it is about sessions. -/
def destroy (polls : Nat → Polls) : Svc Unit := do
  destroyAll polls (← get).mSessions.toList
  destroyAll polls (← get).mConnections.toList
  modify fun s => { s with mConnections := ∅ }

/-! ## One session -/

/-- A handle after `uv_session::close()`. -/
def UvTcp.afterClose (t : UvTcp) (polled : Bool) : UvTcp :=
  if t.isActive polled = true then t.startClose true else t

/-- A session after its `close()`. -/
def UvSession.afterClose (u : UvSession) (polled : Bool) : UvSession :=
  { u with mTcp := u.mTcp.afterClose polled }

/-- The handle of a session whose delete begins. -/
def UvTcp.atEnd (t : UvTcp) (polls : Polls) : UvTcp :=
  (t.afterClose polls.atClose).afterClose polls.atDelete

/-- What goes wrong when a session is closed and deleted. -/
def endFaults (p : Nat) (u : UvSession) (polls : Polls) : List Fault :=
  (if u.deleted then [.useAfterDelete p, .useAfterDelete p] else []) ++
    ((if u.mPacket.mBody.base = .wild then [.wildPointer p] else []) ++
      if (u.mTcp.atEnd polls).closing = true ∧ ¬ (u.mTcp.atEnd polls).closed = true then
        [.deletedWhileClosing p] else [])

/-- Session `p` was closed, or closed and deleted: no other session and no table differs. -/
structure Ended (p : Nat) (u : UvSession) (fs : List Fault) (s t : UvService) : Prop where
  self : t.heap p = u
  others : ∀ q, q ≠ p → t.heap q = s.heap q
  faults : t.faults = s.faults ++ fs
  mSessions : t.mSessions = s.mSessions
  mConnections : t.mConnections = s.mConnections

theorem Ended.trans {p : Nat} {u v : UvSession} {fs gs : List Fault} {s t w : UvService}
    (h : Ended p u fs s t) (k : Ended p v gs t w) : Ended p v (fs ++ gs) s w where
  self := k.self
  others q hq := (k.others q hq).trans (h.others q hq)
  faults := by rw [k.faults, h.faults, List.append_assoc]
  mSessions := k.mSessions.trans h.mSessions
  mConnections := k.mConnections.trans h.mConnections

section One

variable {s : UvService} {p : Nat}

theorem ended_withFault (s : UvService) (p : Nat) (f : Fault) :
    Ended p (s.heap p) [f] s (s.withFault f) :=
  ⟨rfl, fun _ _ => rfl, rfl, rfl, rfl⟩

theorem ended_refl (s : UvService) (p : Nat) : Ended p (s.heap p) [] s s :=
  ⟨rfl, fun _ _ => rfl, (List.append_nil _).symm, rfl, rfl⟩

theorem ended_withSession (s : UvService) (p : Nat) (f : UvSession → UvSession) :
    Ended p (f (s.heap p)) [] s (s.withSession p f) :=
  ⟨withSession_self s p f, fun _ hq => withSession_of_ne s f hq, (List.append_nil _).symm, rfl, rfl⟩

/-- A fault that is recorded under a condition. -/
theorem ended_onlyIf (s : UvService) (p : Nat) (c : Prop) [Decidable c] (f : Fault) :
    ∃ t, onlyIf c (fault f) s = .ok () t ∧ Ended p (s.heap p) (if c then [f] else []) s t := by
  unfold onlyIf
  split
  · exact ⟨_, rfl, ended_withFault s p f⟩
  · exact ⟨s, rfl, ended_refl s p⟩

/-- `close()`. -/
theorem ended_close (s : UvService) (p : Nat) (polled : Bool) :
    ∃ t, close p polled s = .ok () t ∧
      Ended p ((s.heap p).afterClose polled)
        (if (s.heap p).deleted then [.useAfterDelete p] else []) s t := by
  obtain ⟨t, ht, hend⟩ := ended_onlyIf s p ((s.heap p).deleted = true) (.useAfterDelete p)
  have htouch : touch p s = .ok () t := ht
  unfold close UvSession.afterClose UvTcp.afterClose
  rw [bind_of_ok htouch, bind_of_ok session_run, hend.self, onlyIf]
  split
  · have hclose := ended_withSession t p fun u => { u with mTcp := u.mTcp.startClose true }
    rw [hend.self] at hclose
    exact ⟨_, updateSession_run _, by simpa using hend.trans hclose⟩
  · exact ⟨t, rfl, hend⟩

/-- `delete session`. -/
theorem ended_deleteSession (s : UvService) (p : Nat) (polled : Bool) :
    ∃ t, deleteSession p polled s = .ok () t ∧
      Ended p ((s.heap p).afterClose polled).gone
        ((if (s.heap p).deleted then [.useAfterDelete p] else []) ++
          ((if (s.heap p).mPacket.mBody.base = .wild then [.wildPointer p] else []) ++
            if ((s.heap p).mTcp.afterClose polled).closing = true ∧
              ¬ ((s.heap p).mTcp.afterClose polled).closed = true then
              [.deletedWhileClosing p] else [])) s t := by
  obtain ⟨s₁, hs₁, h₁⟩ := ended_close s p polled
  obtain ⟨s₂, hs₂, h₂⟩ := ended_onlyIf s₁ p ((s₁.heap p).mPacket.mBody.base = .wild)
    (.wildPointer p)
  obtain ⟨s₃, hs₃, h₃⟩ := ended_onlyIf s₂ p ((s₂.heap p).mTcp.closing = true ∧
    ¬ (s₂.heap p).mTcp.closed = true) (.deletedWhileClosing p)
  have h₄ := ended_withSession s₃ p UvSession.gone
  refine ⟨s₃.withSession p UvSession.gone, ?_, ?_⟩
  · unfold deleteSession
    rw [bind_of_ok hs₁, bind_of_ok session_run, bind_of_ok hs₂, bind_of_ok session_run,
      bind_of_ok hs₃]
    exact updateSession_run _
  · have hall := h₁.trans (h₂.trans (h₃.trans h₄))
    rw [h₃.self, h₂.self, h₁.self, List.append_nil] at hall
    exact hall

/-- A session is closed and deleted. -/
theorem ended_destroySession (s : UvService) (p : Nat) (polls : Polls) :
    ∃ t, destroySession p polls s = .ok () t ∧
      Ended p (((s.heap p).afterClose polls.atClose).afterClose polls.atDelete).gone
        (endFaults p (s.heap p) polls) s t := by
  obtain ⟨s₁, hs₁, h₁⟩ := ended_close s p polls.atClose
  obtain ⟨t, ht, h₂⟩ := ended_deleteSession s₁ p polls.atDelete
  refine ⟨t, ?_, ?_⟩
  · unfold destroySession
    rw [bind_of_ok hs₁, ht]
  · have hall := h₁.trans h₂
    have hdel : ((s.heap p).afterClose polls.atClose).deleted = (s.heap p).deleted := rfl
    rw [h₁.self, hdel, ← List.append_assoc] at hall
    have htwice : (if (s.heap p).deleted then [Fault.useAfterDelete p] else []) ++
        (if (s.heap p).deleted then [.useAfterDelete p] else []) =
          if (s.heap p).deleted then [.useAfterDelete p, .useAfterDelete p] else [] := by
      split <;> rfl
    rw [htwice] at hall
    exact hall

end One

/-! ## The tables -/

/-- The sessions `ps` were closed and deleted, each as it was in `s`. -/
structure AllEnded (polls : Nat → Polls) (ps : List Nat) (s t : UvService) : Prop where
  gone : ∀ p ∈ ps, (t.heap p).deleted = true
  others : ∀ p, p ∉ ps → t.heap p = s.heap p
  faults : t.faults = s.faults ++ ps.flatMap fun p => endFaults p (s.heap p) (polls p)
  mSessions : t.mSessions = s.mSessions
  mConnections : t.mConnections = s.mConnections

/-- A loop over sessions of which none is there twice. -/
theorem allEnded_destroyAll (polls : Nat → Polls) {es : List (Int × Nat)}
    (hnodup : (es.map Prod.snd).Nodup) (s : UvService) :
    ∃ t, destroyAll polls es s = .ok () t ∧ AllEnded polls (es.map Prod.snd) s t := by
  induction es generalizing s with
  | nil => exact ⟨s, rfl, by simp, fun _ _ => rfl, by simp, rfl, rfl⟩
  | cons e es ih =>
      obtain ⟨id, p⟩ := e
      obtain ⟨hp, hrest⟩ := List.nodup_cons.mp hnodup
      obtain ⟨s₁, hs₁, h₁⟩ := ended_destroySession s p (polls p)
      obtain ⟨t, ht, h₂⟩ := ih hrest s₁
      refine ⟨t, ?_, ?_, ?_, ?_, h₂.mSessions.trans h₁.mSessions,
        h₂.mConnections.trans h₁.mConnections⟩
      · unfold destroyAll
        rw [bind_of_ok hs₁, ht]
      · intro q hq
        rcases List.mem_cons.mp hq with rfl | hq
        · rw [h₂.others _ hp, h₁.self]
          rfl
        · exact h₂.gone q hq
      · intro q hq
        rw [List.map_cons, List.mem_cons, not_or] at hq
        rw [h₂.others q hq.2, h₁.others q hq.1]
      · -- what is left of the loop finds its sessions as they were
        have hsame : (es.map Prod.snd).flatMap (fun q => endFaults q (s₁.heap q) (polls q)) =
            (es.map Prod.snd).flatMap fun q => endFaults q (s.heap q) (polls q) := by
          refine List.flatMap_congr fun q hq => ?_
          rw [h₁.others q (fun h => hp (h ▸ hq))]
        rw [h₂.faults, h₁.faults, hsame, List.map_cons, List.flatMap_cons, List.append_assoc]

/-- Session `p` is in one of the tables. -/
def Listed (s : UvService) (p : Nat) : Prop :=
  (∃ id : Int, s.mSessions[id]? = some p) ∨ ∃ id : Int, s.mConnections[id]? = some p

/-- A table in which every entry is stored under its own id has no session twice. -/
theorem nodup_table {s : UvService} {table : Table}
    (h : ∀ (id : Int) (p : Nat), table[id]? = some p → (s.heap p).mId = id) :
    (table.toList.map Prod.snd).Nodup := by
  rw [List.Nodup, List.pairwise_map]
  refine List.Pairwise.imp_of_mem ?_ Std.ExtTreeMap.distinct_keys_toList
  intro a b ha hb hne heq
  have hida := h a.1 a.2 (Std.ExtTreeMap.mem_toList_iff_getElem?_eq_some.mp ha)
  have hidb := h b.1 b.2 (Std.ExtTreeMap.mem_toList_iff_getElem?_eq_some.mp hb)
  rw [← hida, ← hidb, heq] at hne
  simp at hne

theorem mem_table {table : Table} {p : Nat} :
    p ∈ table.toList.map Prod.snd ↔ ∃ id : Int, table[id]? = some p := by
  simp [List.mem_map, Std.ExtTreeMap.mem_toList_iff_getElem?_eq_some]

/-- The listed sessions, in the order of the destructor. -/
def listed (s : UvService) : List Nat :=
  s.mSessions.toList.map Prod.snd ++ s.mConnections.toList.map Prod.snd

theorem mem_listed {s : UvService} {p : Nat} : p ∈ listed s ↔ Listed s p := by
  simp only [listed, List.mem_append, mem_table, Listed]

/-- The destructor deletes the listed sessions, each once. -/
theorem destroy_run {s : UvService} (ht : Tables s) (polls : Nat → Polls) :
    ∃ t, destroy polls s = .ok () t ∧
      (∀ p, (t.heap p).deleted = true ↔ (s.heap p).deleted = true ∨ Listed s p) ∧
      t.faults = s.faults ++
        (listed s).flatMap fun p => endFaults p (s.heap p) (polls p) := by
  have hsessions := nodup_table fun id p hp => (ht.session id p hp).1
  have hconnections := nodup_table fun id p hp => (ht.connection id p hp).1
  obtain ⟨s₁, hs₁, h₁⟩ := allEnded_destroyAll polls hsessions s
  rw [← h₁.mConnections] at hconnections
  obtain ⟨t, hrun, h₂⟩ := allEnded_destroyAll polls hconnections s₁
  rw [h₁.mConnections] at h₂
  -- a connection is not a client
  have hapart : ∀ p ∈ s.mConnections.toList.map Prod.snd,
      p ∉ s.mSessions.toList.map Prod.snd := by
    intro p hp hp'
    obtain ⟨id, hid⟩ := mem_table.mp hp
    obtain ⟨id', hid'⟩ := mem_table.mp hp'
    exact (ht.connection id p hid).2.2 (ht.session id' p hid').2.2
  have hsame : (s.mConnections.toList.map Prod.snd).flatMap
      (fun p => endFaults p (s₁.heap p) (polls p)) =
        (s.mConnections.toList.map Prod.snd).flatMap
          fun p => endFaults p (s.heap p) (polls p) :=
    List.flatMap_congr fun p hp => by rw [h₁.others p (hapart p hp)]
  refine ⟨{ t with mConnections := ∅ }, ?_, fun p => ?_, ?_⟩
  · change (destroyAll polls s.mSessions.toList >>= fun _ => _) s = _
    rw [bind_of_ok hs₁]
    change (destroyAll polls s₁.mConnections.toList >>= fun _ => _) s₁ = _
    rw [bind_of_ok hrun]
    rfl
  · rw [← mem_listed, listed, List.mem_append]
    change (t.heap p).deleted = true ↔ _
    by_cases hcon : p ∈ s.mConnections.toList.map Prod.snd
    · simp only [h₂.gone p hcon, hcon, or_true]
    · by_cases hses : p ∈ s.mSessions.toList.map Prod.snd
      · simp only [h₂.others p hcon, h₁.gone p hses, hses, true_or, or_true]
      · simp only [h₂.others p hcon, h₁.others p hses, hses, hcon, or_self, or_false]
  · change t.faults = _
    rw [h₂.faults, h₁.faults, hsame, listed, List.flatMap_append, List.append_assoc]

/-! ## Careful runs -/

/-- A handle is closed if it is active at one of the two times. -/
theorem atEnd_of_open {t : UvTcp} (polls : Polls) (h : t.closing = false) :
    (t.atEnd polls).closing = (t.isActive polls.atClose || t.isActive polls.atDelete) ∧
      (t.atEnd polls).closed = t.closed := by
  unfold UvTcp.atEnd UvTcp.afterClose
  cases hclose : t.isActive polls.atClose with
  | true => simp [UvTcp.startClose, UvTcp.isActive]
  | false => cases hdelete : t.isActive polls.atDelete <;> simp [hdelete, h, UvTcp.startClose]

/-- After a careful run on zeroed memory, a delete is clean if the handle is idle. -/
theorem endFaults_eq_nil_iff {s : UvService} (h : Intact True s) (p : Nat) (polls : Polls) :
    endFaults p (s.heap p) polls = [] ↔ Idle s p polls := by
  obtain ⟨hend, hclosed⟩ := atEnd_of_open polls (h.closing p)
  have hidle : Idle s p polls ↔ (s.heap p).mTcp.isActive polls.atClose = false ∧
      (s.heap p).mTcp.isActive polls.atDelete = false :=
    ⟨fun k => ⟨k.atClose, k.atDelete⟩, fun k => ⟨k.1, k.2⟩⟩
  rw [hidle, endFaults, h.live p, if_neg (h.tame trivial p), hend, hclosed, h.closed p]
  cases (s.heap p).mTcp.isActive polls.atClose <;>
    cases (s.heap p).mTcp.isActive polls.atDelete <;> simp

/-- **Teardown**: the service that a careful run on zeroed memory has led to is destroyed.
Every registered session is deleted and no other one is; and nothing undefined happens
exactly if the handle of each registered session is idle. -/
theorem teardown_clean_iff (L : Libuv) (es : List Event) (s : UvService)
    (hcare : CarefulRun L es UvService.init) (hzeroed : ∀ e ∈ es, e.Zeroed)
    (hrun : run L es UvService.init = .ok () s) (polls : Nat → Polls) :
    ∃ t, destroy polls s = .ok () t ∧
      (∀ p, (t.heap p).deleted = true ↔ Listed s p) ∧
      (t.faults = [] ↔ ∀ p, Listed s p → Idle s p (polls p)) := by
  have h : Intact True s :=
    (intact_run (intact_init True) tables_init hcare fun _ => hzeroed).ok hrun
  obtain ⟨t, hdestroy, hdeleted, hfaults⟩ := destroy_run (tables_reachable ⟨es, hrun⟩) polls
  refine ⟨t, hdestroy, fun p => ?_, ?_⟩
  · rw [hdeleted p, h.live p]
    simp
  · rw [hfaults, h.faults.faults_eq_nil, List.nil_append, List.flatMap_eq_nil_iff]
    constructor
    · intro hclean p hp
      exact (endFaults_eq_nil_iff h p _).mp (hclean p (mem_listed.mpr hp))
    · intro hidle p hp
      exact (endFaults_eq_nil_iff h p _).mpr (hidle p (mem_listed.mp hp))

/-- A client was accepted. -/
def oneClient : List Event := [.accept ⟨0, false, 0, 0, ⟨true, 0, 0⟩⟩ .ret]

/-- A client is connected when the service is destroyed: it is deleted while it is closing. -/
theorem teardown_clean_iff_client :
    ∃ s t, run (.loopback .unix) oneClient UvService.init = .ok () s ∧
      destroy (fun _ => ⟨false, false⟩) s = .ok () t ∧ (t.heap 0).deleted = true ∧
      t.faults ≠ [] := by
  have hcare : CarefulRun (.loopback .unix) oneClient UvService.init :=
    ⟨fun _ _ => ⟨rfl, trivial⟩, fun _ _ => trivial⟩
  have hzeroed : ∀ e ∈ oneClient, e.Zeroed := by
    simp [oneClient, Event.Zeroed, Script.Zeroed]
  have hrun : run (.loopback .unix) oneClient UvService.init =
      .ok () (endState (run (.loopback .unix) oneClient UvService.init)) := rfl
  obtain ⟨t, ht, hdeleted, hclean⟩ :=
    teardown_clean_iff _ _ _ hcare hzeroed hrun fun _ => ⟨false, false⟩
  have hlisted : Listed (endState (run (.loopback .unix) oneClient UvService.init)) 0 := by
    refine .inl ⟨1, ?_⟩
    change (UvService.init.mSessions.insertIfNew 1 0)[(1 : Int)]? = some 0
    rw [Std.ExtTreeMap.getElem?_insertIfNew]
    simp [UvService.init]
  refine ⟨_, t, hrun, ht, (hdeleted 0).mpr hlisted, fun h => ?_⟩
  exact absurd (hclean.mp h 0 hlisted).atClose (by decide)

end GEngine
