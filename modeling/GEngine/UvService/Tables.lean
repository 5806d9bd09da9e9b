import GEngine.UvService.Change

/-!
# GEngine.UvService.Tables

The two session tables of the service.  `Tables` is the invariant that ties them
to the heap and to the callbacks the handler has seen; it holds in every
reachable state.  With it, `getsession`'s scan is a lookup.  `Dialled` says which connects
the connections come from.
-/

namespace GEngine

open UvService

/-- The invariant of the tables: every entry is stored under the id of its
session, clients are in `m_sessions` and outgoing connections in
`m_connections`, and a session whose close was announced is not registered as a
client any more. -/
structure Tables (s : UvService) : Prop where
  session : ∀ (id : Int) (p : Nat), s.mSessions[id]? = some p →
    (s.heap p).mId = id ∧ p < s.created ∧ (s.heap p).endpoint = none
  connection : ∀ (id : Int) (p : Nat), s.mConnections[id]? = some p →
    (s.heap p).mId = id ∧ p < s.created ∧ (s.heap p).endpoint ≠ none
  connect : ∀ q, s.mConnect = some q → q < s.created ∧ (s.heap q).endpoint ≠ none
  closed : ∀ p, Callback.closesession p ∈ s.log → p < s.created ∧
    ∀ id : Int, s.mSessions[id]? ≠ some p

/-- The tables of a service that has not started are empty. -/
theorem tables_init : Tables UvService.init := by
  refine ⟨?_, ?_, ?_, ?_⟩ <;> simp [UvService.init]

/-- Where every entry is stored under its own id, the scan of `getsession` is a lookup. -/
theorem getsession_eq_lookup {s : UvService}
    (h : ∀ (id : Int) (p : Nat), s.mSessions[id]? = some p → (s.heap p).mId = id) (id : Int) :
    s.getsession id = s.mSessions[id]? := by
  unfold UvService.getsession
  cases hfind : s.mSessions.toList.find? fun e => (s.heap e.2).mId = id with
  | none =>
      cases hget : s.mSessions[id]? with
      | none => rfl
      | some p =>
          have hmem : (id, p) ∈ s.mSessions.toList :=
            Std.ExtTreeMap.mem_toList_iff_getElem?_eq_some.mpr hget
          have hno := List.find?_eq_none.mp hfind (id, p) hmem
          simp [h id p hget] at hno
  | some e =>
      obtain ⟨k, p⟩ := e
      have hmem : (k, p) ∈ s.mSessions.toList := List.mem_of_find?_eq_some hfind
      have hget : s.mSessions[k]? = some p :=
        Std.ExtTreeMap.mem_toList_iff_getElem?_eq_some.mp hmem
      have hid : (s.heap p).mId = id := by simpa using List.find?_some hfind
      have hk : k = id := (h k p hget).symm.trans hid
      rw [← hk, hget, Option.map_some]

/-- Under the invariant, the scan of `getsession` is a lookup. -/
theorem getsession_eq (h : Tables s) (id : Int) : s.getsession id = s.mSessions[id]? :=
  getsession_eq_lookup (fun id p hp => (h.session id p hp).1) id

/-! ## What the tables hold after a move -/

section Lookup

variable {s : UvService} {table : Table} {p q : Nat} {id k : Int}

/-- What a table holds after `insert`, which keeps an entry that is there. -/
theorem lookup_insertIfNew (h : (table.insertIfNew id p)[k]? = some q) :
    (q = p ∧ id = k) ∨ table[k]? = some q := by
  simp only [Std.ExtTreeMap.getElem?_insertIfNew, Std.LawfulEqCmp.compare_eq_iff_eq] at h
  split at h
  · next hc =>
      cases h
      exact .inl ⟨rfl, hc.1⟩
  · exact .inr h

/-- `insert` of a new key. -/
theorem getElem?_insert_absent (h : table[id]? = none) (p : Nat) (k : Int) :
    (table.insertIfNew id p)[k]? = if id = k then some p else table[k]? := by
  have habsent : id ∉ table := by
    rw [Std.ExtTreeMap.mem_iff_isSome_getElem?, h]
    simp
  simp [Std.ExtTreeMap.getElem?_insertIfNew, habsent]

/-- `erase` takes out one key. -/
theorem getElem?_erase_eq (table : Table) (id k : Int) :
    (table.erase id)[k]? = if id = k then none else table[k]? := by
  simp [Std.ExtTreeMap.getElem?_erase]

/-- What a table holds after `erase`. -/
theorem lookup_erase (h : (table.erase id)[k]? = some q) : id ≠ k ∧ table[k]? = some q := by
  rw [getElem?_erase_eq] at h
  split at h
  · cases h
  · next hne => exact ⟨hne, h⟩

theorem lookup_inNewsession (h : (s.inNewsession p).mSessions[k]? = some q) :
    (q = p ∧ (s.heap p).mId = k) ∨ s.mSessions[k]? = some q :=
  lookup_insertIfNew h

theorem lookup_inNewconnection (h : (s.inNewconnection p).mConnections[k]? = some q) :
    (q = p ∧ (s.heap p).mId = k) ∨ s.mConnections[k]? = some q :=
  lookup_insertIfNew h

theorem lookup_inClosesession (h : (s.inClosesession id p).mSessions[k]? = some q) :
    id ≠ k ∧ s.mSessions[k]? = some q :=
  lookup_erase h

theorem lookup_inCloseconnection (h : (s.inCloseconnection id p).mConnections[k]? = some q) :
    id ≠ k ∧ s.mConnections[k]? = some q :=
  lookup_erase h

/-- The closes the handler was told of, after a callback. -/
theorem closed_withCallback {c : Callback} (h : Callback.closesession q ∈ (s.withCallback c).log) :
    Callback.closesession q ∈ s.log ∨ c = .closesession q := by
  rw [withCallback, List.mem_append, List.mem_singleton] at h
  exact h.imp_right Eq.symm

end Lookup

/-! ## The invariant is kept by every move -/

/-- A move that leaves the tables, the log and what the invariant reads of the
sessions alone keeps the invariant. -/
theorem tables_of_same {t : UvService} (h : Tables s) (hcreated : s.created ≤ t.created)
    (hs : t.mSessions = s.mSessions) (hc : t.mConnections = s.mConnections)
    (hconn : t.mConnect = s.mConnect)
    (hlog : ∀ p, Callback.closesession p ∈ t.log → Callback.closesession p ∈ s.log)
    (hheap : ∀ p, p < s.created →
      (t.heap p).mId = (s.heap p).mId ∧ (t.heap p).endpoint = (s.heap p).endpoint) : Tables t := by
  refine ⟨?_, ?_, ?_, ?_⟩
  · intro id p hp
    rw [hs] at hp
    obtain ⟨hid, hlt, he⟩ := h.session id p hp
    rw [(hheap p hlt).1, (hheap p hlt).2]
    exact ⟨hid, hlt.trans_le hcreated, he⟩
  · intro id p hp
    rw [hc] at hp
    obtain ⟨hid, hlt, he⟩ := h.connection id p hp
    rw [(hheap p hlt).1, (hheap p hlt).2]
    exact ⟨hid, hlt.trans_le hcreated, he⟩
  · intro q hq
    rw [hconn] at hq
    obtain ⟨hlt, he⟩ := h.connect q hq
    rw [(hheap q hlt).2]
    exact ⟨hlt.trans_le hcreated, he⟩
  · intro p hp
    rw [hs]
    obtain ⟨hlt, hno⟩ := h.closed p (hlog p hp)
    exact ⟨hlt.trans_le hcreated, hno⟩

/-- Creating a session keeps the invariant. -/
theorem tables_withNew (h : Tables s) (ipv6 : Bool) (fresh : Fresh) (e : Option Endpoint) :
    Tables (s.withNew ipv6 fresh e) := by
  refine tables_of_same h (Nat.le_succ _) rfl rfl rfl (fun _ hp => hp) fun p hp => ?_
  rw [withNew_of_ne s ipv6 fresh e (Nat.ne_of_lt hp)]
  exact ⟨rfl, rfl⟩

/-- Changing a session in what may change keeps the invariant. -/
theorem tables_withSession (h : Tables s) {f : UvSession → UvSession}
    (hf : (s.heap p).Kept (f (s.heap p))) : Tables (s.withSession p f) := by
  refine tables_of_same h (Nat.le_refl _) rfl rfl rfl (fun _ hp => hp) fun q _ => ?_
  by_cases hq : q = p
  · subst hq
    rw [withSession_self]
    exact ⟨hf.mId, hf.endpoint⟩
  · rw [withSession_of_ne s f hq]
    exact ⟨rfl, rfl⟩

/-- Registering a new client keeps the invariant. -/
theorem tables_inNewsession (h : Tables s) (hp : p < s.created)
    (he : (s.heap p).endpoint = none) (hnew : Callback.closesession p ∉ s.log) :
    Tables (s.inNewsession p) := by
  refine ⟨fun id q hq => ?_, h.connection, h.connect, fun q hq => ?_⟩
  · rcases lookup_inNewsession hq with ⟨rfl, hid⟩ | hold
    · exact ⟨hid, hp, he⟩
    · exact h.session id q hold
  · have hold : Callback.closesession q ∈ s.log :=
      (closed_withCallback hq).resolve_right (by simp)
    obtain ⟨hlt, hno⟩ := h.closed q hold
    refine ⟨hlt, fun id hid => ?_⟩
    rcases lookup_inNewsession hid with ⟨rfl, -⟩ | hreg
    · exact hnew hold
    · exact hno id hreg

/-- Registering a connection keeps the invariant. -/
theorem tables_inNewconnection (h : Tables s) (hq : s.mConnect = some q) :
    Tables (s.inNewconnection q) := by
  obtain ⟨hlt, he⟩ := h.connect q hq
  refine ⟨h.session, fun id p hp => ?_, h.connect, fun p hp => ?_⟩
  · rcases lookup_inNewconnection hp with ⟨rfl, hid⟩ | hold
    · exact ⟨hid, hlt, he⟩
    · exact h.connection id p hold
  · exact h.closed p ((closed_withCallback hp).resolve_right (by simp))

/-- Removing a client keeps the invariant. -/
theorem tables_inClosesession {id : Int} (h : Tables s) (hp : s.getsession id = some p) :
    Tables (s.inClosesession id p) := by
  rw [getsession_eq h] at hp
  obtain ⟨hid, hlt, -⟩ := h.session id p hp
  refine ⟨fun k q hq => ?_, h.connection, h.connect, fun q hq => ?_⟩
  · exact h.session k q (lookup_inClosesession hq).2
  · rcases closed_withCallback hq with hold | heq
    · obtain ⟨hqlt, hno⟩ := h.closed q hold
      exact ⟨hqlt, fun k hk => hno k (lookup_inClosesession hk).2⟩
    · cases heq
      refine ⟨hlt, fun k hk => ?_⟩
      obtain ⟨hne, hreg⟩ := lookup_inClosesession hk
      exact hne (hid.symm.trans (h.session k p hreg).1)

/-- Removing a connection keeps the invariant. -/
theorem tables_inCloseconnection (h : Tables s) (id : Int) (p : Nat) :
    Tables (s.inCloseconnection id p) := by
  refine ⟨h.session, fun k q hq => ?_, h.connect, fun q hq => ?_⟩
  · exact h.connection k q (lookup_inCloseconnection hq).2
  · exact h.closed q ((closed_withCallback hq).resolve_right (by simp))

/-- Every move keeps the invariant. -/
theorem tables_change {D : Dials} (hc : Move D s t) (h : Tables s) : Tables t := by
  cases hc with
  | fault f =>
      exact tables_of_same h (Nat.le_refl _) rfl rfl rfl (fun _ hp => hp) fun _ _ => ⟨rfl, rfl⟩
  | session p f hf => exact tables_withSession h hf
  | created ipv6 fresh e => exact tables_withNew h ipv6 fresh e
  | accepted ipv6 fresh f hf =>
      have hnew := tables_withSession (p := s.created) (tables_withNew h ipv6 fresh none)
        (hf ((s.withNew ipv6 fresh none).heap s.created))
      refine tables_inNewsession hnew (Nat.lt_succ_self _) ?_ ?_
      · rw [withSession_self, (hf _).endpoint, withNew_self]
      · intro hlog
        exact absurd (h.closed _ hlog).1 (Nat.lt_irrefl _)
  | connecting p e hp he _ =>
      refine ⟨h.session, h.connection, fun q hq => ?_, h.closed⟩
      cases hq
      exact ⟨hp, by simp [he]⟩
  | requested p _ => exact ⟨h.session, h.connection, h.connect, h.closed⟩
  | completed p => exact ⟨h.session, h.connection, h.connect, h.closed⟩
  | queued ps => exact ⟨h.session, h.connection, h.connect, h.closed⟩
  | connected q hq => exact tables_inNewconnection h hq
  | received p data =>
      refine tables_of_same h (Nat.le_refl _) rfl rfl rfl (fun q hq => ?_) fun _ _ => ⟨rfl, rfl⟩
      simpa [withCallback] using hq
  | closedSession id p hp => exact tables_inClosesession h hp
  | closedConnection id p hp => exact tables_inCloseconnection h id p

/-- **Tables**: the invariant holds in every reachable state. -/
theorem tables_reachable (h : Reachable L s) : Tables s :=
  reachable_keep tables_init (fun _ _ hc hs => tables_change hc hs) h

/-! ## What was dialled -/

section Dialled

variable {D : Dials} {s t : UvService}

end Dialled

end GEngine
