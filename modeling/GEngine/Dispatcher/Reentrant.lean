import GEngine.Dispatcher

/-!
# GEngine.Dispatcher.Reentrant

`dispatcher::dispatch` with handlers that call the dispatcher.  The loop of `dispatch`
holds an iterator into a `std::list` while it invokes handlers, so lists are lists of
nodes here, and a node is told from another by its `key`.  Keys are given out in order.

A handler is arbitrary code; what it does in the `n`-th call of one `dispatch` is a list
of calls of `listen`, `unlisten` and `clear`.  A dispatch need not end, since handlers
may add receivers to the list that is being traversed: `walk n` is the traversal after
`n` rounds of the loop.  An iterator whose node was erased cannot be advanced; a
traversal that does it is `broken`, and goes no further.
-/

namespace GEngine

/-! ## The lists and their nodes -/

section Nodes

variable {Cls : Type} (Obj Func : Cls → Type)

/-- A node of a `std::list<ireceiver*>`. -/
structure Node where
  key : Nat
  receiver : Receiver Obj Func

/-- The dispatcher with the nodes of its lists; `next` is the key of the next node. -/
structure NodeTable where
  mReceivers : Std.ExtTreeMap Int (List (Node Obj Func))
  next : Nat

/-- What a handler may call. -/
inductive HandlerOp
  | listen (id : Int) (p : Target Obj Func)
  | unlisten (id : Int) (p : Target Obj Func)
  | clear

variable {Obj Func}

/-- The same call, as one of the interface. -/
def HandlerOp.toOp {Sender Data : Type} : HandlerOp Obj Func → DispatcherOp Obj Func Sender Data
  | .listen id p => .listen id p
  | .unlisten id p => .unlisten id p
  | .clear => .clear

/-- The call takes the receiver off the list of the id. -/
def HandlerOp.Removes (id : Int) (r : Receiver Obj Func) : HandlerOp Obj Func → Prop
  | .listen _ _ => False
  | .unlisten k p => k = id ∧ p.receiver k = r
  | .clear => True

namespace NodeTable

/-- No receivers. -/
def empty : NodeTable Obj Func := ⟨∅, 0⟩

/-- The list of an id. -/
def nodes (t : NodeTable Obj Func) (id : Int) : List (Node Obj Func) := (t.mReceivers[id]?).getD []

/-- The dispatcher that has these nodes. -/
def dispatcher (t : NodeTable Obj Func) : Dispatcher Obj Func :=
  ⟨t.mReceivers.map fun _ l => l.map Node.receiver⟩

/-- The map gets an empty list for the id if it has none. -/
def entry (t : NodeTable Obj Func) (id : Int) : NodeTable Obj Func :=
  { t with mReceivers := t.mReceivers.insertIfNew id [] }

/-- `clear()`. -/
def clear (t : NodeTable Obj Func) : NodeTable Obj Func := { t with mReceivers := ∅ }

variable [DecidableEq Cls] [∀ c, DecidableEq (Obj c)] [∀ c, DecidableEq (Func c)]

/-- `listen(id, receiver)`. -/
def listen (t : NodeTable Obj Func) (id : Int) (r : Receiver Obj Func) : NodeTable Obj Func :=
  let t := t.entry id
  let exist := (t.nodes id).any fun n => n.receiver.equals r
  if exist then t
  else ⟨t.mReceivers.insert id (t.nodes id ++ [⟨t.next, r⟩]), t.next + 1⟩

/-- `unlisten(id, receiver)`. -/
def unlisten (t : NodeTable Obj Func) (id : Int) (r : Receiver Obj Func) : NodeTable Obj Func :=
  match t.mReceivers[id]? with
  | none => t
  | some l =>
      { t with mReceivers := t.mReceivers.insert id (l.eraseP fun n => n.receiver.equals r) }

/-- One call of a handler. -/
def apply (t : NodeTable Obj Func) : HandlerOp Obj Func → NodeTable Obj Func
  | .listen id p => t.listen id (p.receiver id)
  | .unlisten id p => t.unlisten id (p.receiver id)
  | .clear => t.clear

/-- The calls of a handler. -/
def applyAll (t : NodeTable Obj Func) (ops : List (HandlerOp Obj Func)) : NodeTable Obj Func :=
  ops.foldl apply t

end NodeTable

end Nodes

/-! ## The traversal -/

section Walk

variable {Cls : Type} (Obj Func : Cls → Type) (Sender Data : Type)

/-- The traversal of one `dispatch`: the iterator (`none` at the end), the nodes whose
receivers were invoked, the calls of handlers, and whether an iterator of an erased node
was used. -/
structure Walk where
  table : NodeTable Obj Func
  cursor : Option Nat
  visited : List (Node Obj Func)
  calls : List (Call Obj Func Sender Data)
  broken : Bool

/-- One `dispatch`: its arguments, and what the handler does in the `n`-th call. -/
structure Dispatch where
  sender : Sender
  id : Int
  data : Data
  handler : Nat → List (HandlerOp Obj Func)

variable {Obj Func Sender Data}

/-- `++iter`, in a list: `none` if the node was erased. -/
def advance (l : List (Node Obj Func)) (k : Nat) : Option (Option Nat) :=
  match l.dropWhile fun n => n.key ≠ k with
  | [] => none
  | _ :: rest => some (rest.head?.map Node.key)

namespace Dispatch

variable (x : Dispatch Obj Func Sender Data)

/-- The traversal before the first round. -/
def start (t : NodeTable Obj Func) : Walk Obj Func Sender Data :=
  ⟨t, (t.nodes x.id).head?.map Node.key, [], [], false⟩

/-- The node the iterator is at. -/
def current (w : Walk Obj Func Sender Data) : Option (Node Obj Func) :=
  w.cursor.bind fun k => (w.table.nodes x.id).find? fun n => n.key = k

/-- What is called while the receiver of a node is invoked. -/
def script (w : Walk Obj Func Sender Data) (n : Node Obj Func) : List (HandlerOp Obj Func) :=
  match n.receiver.invoke x.sender x.id x.data with
  | none => []
  | some _ => x.handler w.calls.length

variable [DecidableEq Cls] [∀ c, DecidableEq (Obj c)] [∀ c, DecidableEq (Func c)]

/-- One round of the loop: the receiver is invoked, and the iterator advanced. -/
def round (w : Walk Obj Func Sender Data) : Walk Obj Func Sender Data :=
  match w.cursor with
  | none => w
  | some k =>
      match x.current w with
      | none => { w with cursor := none, broken := true }
      | some n =>
          let calls := w.calls ++ (n.receiver.invoke x.sender x.id x.data).toList
          let table := w.table.applyAll (x.script w n)
          match advance (table.nodes x.id) k with
          | none => ⟨table, none, w.visited ++ [n], calls, true⟩
          | some cursor => ⟨table, cursor, w.visited ++ [n], calls, w.broken⟩

/-- The traversal after some rounds. -/
def walk (t : NodeTable Obj Func) : Nat → Walk Obj Func Sender Data
  | 0 => x.start t
  | n + 1 => x.round (walk t n)

/-- No call that a handler makes during the dispatch takes the receiver off the list. -/
def Keeps (t : NodeTable Obj Func) (r : Receiver Obj Func) : Prop :=
  ∀ n v, x.current (x.walk t n) = some v → ∀ op ∈ x.script (x.walk t n) v, ¬ op.Removes x.id r

/-- What the loop is to do, whatever the handlers call: it never uses the iterator of an
erased node, and a receiver that was there at the start and is not taken off is invoked
once. -/
structure Tolerates (t : NodeTable Obj Func) : Prop where
  safe : ∀ n, (x.walk t n).broken = false
  once : ∀ node ∈ t.nodes x.id, x.Keeps t node.receiver →
    ∃ m, ∀ n ≥ m, ((x.walk t n).visited.countP fun v => v.receiver.equals node.receiver) = 1

end Dispatch

end Walk

/-! ## The nodes and the dispatcher -/

section Table

variable {Cls : Type} {Obj Func : Cls → Type} {Sender Data : Type}

theorem nodes_insert (t : NodeTable Obj Func) (id : Int) (l : List (Node Obj Func)) (next : Nat)
    (k : Int) : (⟨t.mReceivers.insert id l, next⟩ : NodeTable Obj Func).nodes k =
      if k = id then l else t.nodes k :=
  getD_insert t.mReceivers id k l

theorem nodes_entry (t : NodeTable Obj Func) (id k : Int) : (t.entry id).nodes k = t.nodes k :=
  getD_insertIfNew t.mReceivers id k

theorem nodes_clear (t : NodeTable Obj Func) (id : Int) : t.clear.nodes id = [] := by
  simp [NodeTable.clear, NodeTable.nodes]

theorem receivers_dispatcher (t : NodeTable Obj Func) (id : Int) :
    t.dispatcher.receivers id = (t.nodes id).map Node.receiver := by
  unfold NodeTable.dispatcher Dispatcher.receivers NodeTable.nodes
  rw [Std.ExtTreeMap.getElem?_map]
  cases t.mReceivers[id]? with
  | none => simp
  | some l => simp

theorem dispatcher_insert (t : NodeTable Obj Func) (id : Int) (l : List (Node Obj Func))
    (next : Nat) : (⟨t.mReceivers.insert id l, next⟩ : NodeTable Obj Func).dispatcher =
      ⟨t.dispatcher.mReceivers.insert id (l.map Node.receiver)⟩ := by
  unfold NodeTable.dispatcher
  congr 1
  refine Std.ExtTreeMap.ext_getElem? fun k => ?_
  simp only [Std.ExtTreeMap.getElem?_map, Std.ExtTreeMap.getElem?_insert]
  split <;> rfl

theorem dispatcher_entry (t : NodeTable Obj Func) (id : Int) :
    (t.entry id).dispatcher = t.dispatcher.entry id := by
  unfold NodeTable.dispatcher NodeTable.entry Dispatcher.entry
  congr 1
  refine Std.ExtTreeMap.ext_getElem? fun k => ?_
  simp only [Std.ExtTreeMap.getElem?_map, Std.ExtTreeMap.getElem?_insertIfNew,
    Std.ExtTreeMap.mem_map]
  split <;> rfl

/-- The invariant of the lists: keys grow along a list and are below `next`, and the
dispatcher refines a registry, so that no two nodes of a list have equal receivers. -/
structure Ordered (t : NodeTable Obj Func) : Prop where
  sorted : ∀ id, (t.nodes id).Pairwise fun a b => a.key < b.key
  fresh : ∀ id, ∀ n ∈ t.nodes id, n.key < t.next
  registry : ∃ f, Refines t.dispatcher f

theorem ordered_empty : Ordered (NodeTable.empty : NodeTable Obj Func) where
  sorted id := by simp [NodeTable.empty, NodeTable.nodes]
  fresh id n hn := by simp [NodeTable.empty, NodeTable.nodes] at hn
  registry := ⟨Registry.empty, fun id => by
    simp [receivers_dispatcher, NodeTable.empty, NodeTable.nodes, Registry.empty]⟩

theorem Ordered.nodup {t : NodeTable Obj Func} (ho : Ordered t) (id : Int) :
    ((t.nodes id).map Node.receiver).Nodup := by
  obtain ⟨f, hf⟩ := ho.registry
  rw [← receivers_dispatcher, hf id]
  exact (f.nodup id).map fun p q hpq => Target.receiver_inj.mp hpq

variable [DecidableEq Cls] [∀ c, DecidableEq (Obj c)] [∀ c, DecidableEq (Func c)]

theorem dispatcher_listen (t : NodeTable Obj Func) (id : Int) (r : Receiver Obj Func) :
    (t.listen id r).dispatcher = (t.dispatcher.listen id (some r)).2 := by
  have hreceivers : (t.dispatcher.entry id).receivers id =
      ((t.entry id).nodes id).map Node.receiver := by
    rw [← dispatcher_entry, receivers_dispatcher]
  unfold NodeTable.listen Dispatcher.listen
  simp only [hreceivers, List.any_map, Function.comp_def]
  split
  · exact dispatcher_entry t id
  · rw [dispatcher_insert, dispatcher_entry]
    simp

theorem dispatcher_unlisten (t : NodeTable Obj Func) (id : Int) (r : Receiver Obj Func) :
    (t.unlisten id r).dispatcher = t.dispatcher.unlisten id (some r) := by
  have hget : t.dispatcher.mReceivers[id]? = (t.mReceivers[id]?).map (List.map Node.receiver) :=
    Std.ExtTreeMap.getElem?_map
  unfold NodeTable.unlisten Dispatcher.unlisten
  simp only [hget]
  cases t.mReceivers[id]? with
  | none => rfl
  | some l =>
      simp only [Option.map_some, dispatcher_insert, List.eraseP_map]
      rfl

/-- A handler's call does to the nodes what it does to the dispatcher. -/
theorem dispatcher_apply (t : NodeTable Obj Func) (op : HandlerOp Obj Func) :
    (t.apply op).dispatcher =
      (t.dispatcher.step (op.toOp : DispatcherOp Obj Func Sender Data)).2 := by
  cases op with
  | listen id p => exact dispatcher_listen t id (p.receiver id)
  | unlisten id p => exact dispatcher_unlisten t id (p.receiver id)
  | clear => rfl

/-- What one call does to the list of an id. -/
theorem nodes_apply (t : NodeTable Obj Func) (op : HandlerOp Obj Func) (id : Int) :
    (∃ r, (t.apply op).nodes id = t.nodes id ++ [⟨t.next, r⟩] ∧ (t.apply op).next = t.next + 1) ∨
      (((t.apply op).nodes id).Sublist (t.nodes id) ∧ t.next ≤ (t.apply op).next) := by
  cases op with
  | listen k p =>
      simp only [NodeTable.apply, NodeTable.listen]
      split
      · right
        rw [nodes_entry]
        exact ⟨List.Sublist.refl _, Nat.le_refl _⟩
      · rw [nodes_insert, nodes_entry, nodes_entry]
        by_cases hk : id = k
        · subst hk
          left
          exact ⟨p.receiver id, by simp [NodeTable.entry], rfl⟩
        · right
          rw [if_neg hk]
          exact ⟨List.Sublist.refl _, Nat.le_succ _⟩
  | unlisten k p =>
      right
      simp only [NodeTable.apply, NodeTable.unlisten]
      cases hget : t.mReceivers[k]? with
      | none => exact ⟨List.Sublist.refl _, Nat.le_refl _⟩
      | some l =>
          refine ⟨?_, Nat.le_refl _⟩
          rw [nodes_insert]
          by_cases hk : id = k
          · subst hk
            rw [if_pos rfl, NodeTable.nodes, hget]
            exact List.eraseP_sublist
          · rw [if_neg hk]
  | clear =>
      right
      refine ⟨?_, Nat.le_refl _⟩
      rw [NodeTable.apply, nodes_clear]
      exact List.nil_sublist _

theorem ordered_apply {t : NodeTable Obj Func} (ho : Ordered t) (op : HandlerOp Obj Func) :
    Ordered (t.apply op) where
  sorted id := by
    rcases nodes_apply t op id with ⟨r, hnodes, -⟩ | ⟨hsub, -⟩
    · rw [hnodes, List.pairwise_append]
      refine ⟨ho.sorted id, List.pairwise_singleton _ _, fun a ha b hb => ?_⟩
      rw [List.mem_singleton.mp hb]
      exact ho.fresh id a ha
    · exact (ho.sorted id).sublist hsub
  fresh id n hn := by
    rcases nodes_apply t op id with ⟨r, hnodes, hnext⟩ | ⟨hsub, hnext⟩
    · rw [hnodes, List.mem_append, List.mem_singleton] at hn
      rcases hn with hn | rfl
      · have := ho.fresh id n hn
        omega
      · rw [hnext]
        exact Nat.lt_succ_self _
    · exact Nat.lt_of_lt_of_le (ho.fresh id n (hsub.subset hn)) hnext
  registry := by
    obtain ⟨f, hf⟩ := ho.registry
    refine ⟨(f.step (op.toOp : DispatcherOp Obj Func Unit Unit)).2, ?_⟩
    rw [dispatcher_apply]
    exact (refines_step hf op.toOp).2

theorem next_apply (t : NodeTable Obj Func) (op : HandlerOp Obj Func) :
    t.next ≤ (t.apply op).next := by
  rcases nodes_apply t op 0 with ⟨r, -, hnext⟩ | ⟨-, hnext⟩ <;> omega

/-- The loop of `unlisten`, where no two receivers are equal. -/
theorem mem_eraseP_equals {l : List (Node Obj Func)} (hl : (l.map Node.receiver).Nodup)
    (r : Receiver Obj Func) (n : Node Obj Func) :
    n ∈ l.eraseP (fun m => m.receiver.equals r) ↔ n ∈ l ∧ r ≠ n.receiver := by
  induction l with
  | nil => simp
  | cons m l ih =>
      rw [List.map_cons, List.nodup_cons] at hl
      by_cases hm : m.receiver = r
      · subst hm
        have hequals : m.receiver.equals m.receiver = true := (Receiver.equals_iff _ _).mpr rfl
        simp only [List.eraseP_cons, hequals, cond_true, List.mem_cons]
        constructor
        · intro hn
          exact ⟨.inr hn, fun h => hl.1 (h ▸ List.mem_map_of_mem hn)⟩
        · rintro ⟨rfl | hn, hne⟩
          · exact absurd rfl hne
          · exact hn
      · have hequals : m.receiver.equals r = false := by
          rwa [Bool.eq_false_iff, Ne, Receiver.equals_iff]
        simp only [List.eraseP_cons, hequals, cond_false, List.mem_cons, ih hl.2, or_and_right]
        refine or_congr_left ⟨fun hn => ⟨hn, ?_⟩, And.left⟩
        subst hn
        exact Ne.symm hm

/-- Which nodes a call takes off a list.  A node that is gone does not come back. -/
theorem mem_apply {t : NodeTable Obj Func} (ho : Ordered t) (op : HandlerOp Obj Func) (id : Int)
    {n : Node Obj Func} (hn : n.key < t.next) :
    n ∈ (t.apply op).nodes id ↔ n ∈ t.nodes id ∧ ¬ op.Removes id n.receiver := by
  cases op with
  | listen k p =>
      have hne : ∀ r, n ≠ ⟨t.next, r⟩ := by
        rintro r rfl
        exact Nat.lt_irrefl _ hn
      simp only [NodeTable.apply, NodeTable.listen, HandlerOp.Removes, not_false_eq_true, and_true]
      split
      · rw [nodes_entry]
      · rw [nodes_insert, nodes_entry, nodes_entry]
        by_cases hk : id = k
        · subst hk
          simp [NodeTable.entry, hne]
        · rw [if_neg hk]
  | unlisten k p =>
      simp only [NodeTable.apply, NodeTable.unlisten, HandlerOp.Removes]
      cases hget : t.mReceivers[k]? with
      | none =>
          refine ⟨fun hmem => ⟨hmem, fun hrem => ?_⟩, And.left⟩
          rw [← hrem.1, NodeTable.nodes, hget] at hmem
          simp at hmem
      | some l =>
          rw [nodes_insert]
          by_cases hk : id = k
          · subst hk
            have hl : t.nodes id = l := by rw [NodeTable.nodes, hget]; rfl
            have hnodup := ho.nodup id
            rw [hl] at hnodup
            rw [if_pos rfl, hl, mem_eraseP_equals hnodup]
            simp
          · rw [if_neg hk]
            simp [Ne.symm hk]
  | clear =>
      rw [NodeTable.apply, nodes_clear]
      simp [HandlerOp.Removes]

theorem ordered_applyAll {t : NodeTable Obj Func} (ho : Ordered t)
    (ops : List (HandlerOp Obj Func)) : Ordered (t.applyAll ops) := by
  induction ops generalizing t with
  | nil => exact ho
  | cons op ops ih => exact ih (ordered_apply ho op)

theorem mem_applyAll {t : NodeTable Obj Func} (ho : Ordered t) (ops : List (HandlerOp Obj Func))
    (id : Int) {n : Node Obj Func} (hn : n.key < t.next) :
    n ∈ (t.applyAll ops).nodes id ↔
      n ∈ t.nodes id ∧ ∀ op ∈ ops, ¬ op.Removes id n.receiver := by
  induction ops generalizing t with
  | nil => simp [NodeTable.applyAll]
  | cons op ops ih =>
      have hn' : n.key < (t.apply op).next := Nat.lt_of_lt_of_le hn (next_apply t op)
      have hrest := ih (ordered_apply ho op) hn'
      rw [mem_apply ho op id hn, and_assoc] at hrest
      simpa [NodeTable.applyAll] using hrest

end Table

/-! ## The iterator -/

section Iterator

variable {Cls : Type} {Obj Func : Cls → Type}

theorem eq_of_key {l : List (Node Obj Func)} (hl : l.Pairwise fun a b => a.key < b.key)
    {n m : Node Obj Func} (hn : n ∈ l) (hm : m ∈ l) (h : n.key = m.key) : n = m := by
  have hnodup : (l.map Node.key).Nodup := List.pairwise_map.mpr (hl.imp Nat.ne_of_lt)
  exact List.inj_on_of_nodup_map hnodup hn hm h

theorem advance_cons (a : Node Obj Func) (l : List (Node Obj Func)) (k : Nat) :
    advance (a :: l) k = if a.key = k then some (l.head?.map Node.key) else advance l k := by
  unfold advance
  by_cases h : a.key = k <;> simp [h]

/-- The iterator of an erased node cannot be advanced. -/
theorem advance_eq_none {l : List (Node Obj Func)} {k : Nat} (h : ∀ m ∈ l, m.key ≠ k) :
    advance l k = none := by
  induction l with
  | nil => rfl
  | cons a l ih =>
      rw [advance_cons, if_neg (h a List.mem_cons_self)]
      exact ih fun m hm => h m (List.mem_cons_of_mem a hm)

theorem advance_append {l₁ l₂ : List (Node Obj Func)} {a : Node Obj Func}
    (h : ∀ m ∈ l₁, m.key ≠ a.key) :
    advance (l₁ ++ a :: l₂) a.key = some (l₂.head?.map Node.key) := by
  induction l₁ with
  | nil => rw [List.nil_append, advance_cons, if_pos rfl]
  | cons b l₁ ih =>
      rw [List.cons_append, advance_cons, if_neg (h b List.mem_cons_self)]
      exact ih fun m hm => h m (List.mem_cons_of_mem b hm)

/-- The iterator of a node that is there is advanced to the next node, or to the end. -/
theorem advance_spec {l : List (Node Obj Func)} (hl : l.Pairwise fun a b => a.key < b.key)
    {n : Node Obj Func} (hn : n ∈ l) :
    ∃ c, advance l n.key = some c ∧ (c = none → ∀ m ∈ l, m.key ≤ n.key) ∧
      ∀ k, c = some k → n.key < k ∧ (∃ m ∈ l, m.key = k) ∧
        ∀ m ∈ l, m.key < k → m.key ≤ n.key := by
  induction l with
  | nil => cases hn
  | cons a l ih =>
      rw [List.pairwise_cons] at hl
      rw [advance_cons]
      rcases List.mem_cons.mp hn with rfl | hmem
      · rw [if_pos rfl]
        cases l with
        | nil => exact ⟨none, rfl, by simp, by simp⟩
        | cons b l =>
            have hb := hl.1 b List.mem_cons_self
            refine ⟨some b.key, rfl, by simp, ?_⟩
            rintro k ⟨rfl⟩
            refine ⟨hb, ⟨b, by simp, rfl⟩, fun m hm hlt => ?_⟩
            rcases List.mem_cons.mp hm with rfl | hm
            · exact Nat.le_refl _
            · rcases List.mem_cons.mp hm with rfl | hm
              · exact absurd hlt (Nat.lt_irrefl _)
              · have := (List.pairwise_cons.mp hl.2).1 m hm
                omega
      · have ha := hl.1 n hmem
        obtain ⟨c, hc, hnone, hsome⟩ := ih hl.2 hmem
        rw [if_neg (Nat.ne_of_lt ha)]
        refine ⟨c, hc, fun h m hm => ?_, fun k h => ?_⟩
        · rcases List.mem_cons.mp hm with rfl | hm
          · exact Nat.le_of_lt ha
          · exact hnone h m hm
        · obtain ⟨hlt, ⟨m, hm, hk⟩, hbelow⟩ := hsome k h
          refine ⟨hlt, ⟨m, List.mem_cons_of_mem a hm, hk⟩, fun m hm hmk => ?_⟩
          rcases List.mem_cons.mp hm with rfl | hm
          · exact Nat.le_of_lt ha
          · exact hbelow m hm hmk

end Iterator

/-! ## The loop -/

section Loop

variable {Cls : Type} {Obj Func : Cls → Type} {Sender Data : Type}
variable (x : Dispatch Obj Func Sender Data)

/-- The invariant of the loop: the nodes were visited in the order of their keys, the
iterator is behind all of them, and what is still in the list and not behind the iterator
was visited. -/
structure Loop (w : Walk Obj Func Sender Data) : Prop where
  ordered : Ordered w.table
  sorted : w.visited.Pairwise fun a b => a.key < b.key
  at_node : ∀ k, w.cursor = some k → ∃ n ∈ w.table.nodes x.id, n.key = k
  ahead : ∀ k, w.cursor = some k → ∀ v ∈ w.visited, v.key < k
  behind : ∀ k, w.cursor = some k → ∀ n ∈ w.table.nodes x.id, n.key < k → n ∈ w.visited
  done : w.cursor = none → w.broken = false → ∀ n ∈ w.table.nodes x.id, n ∈ w.visited

variable {x} {w : Walk Obj Func Sender Data}

theorem loop_start {t : NodeTable Obj Func} (ho : Ordered t) : Loop x (x.start t) := by
  have hsorted := ho.sorted x.id
  cases hl : t.nodes x.id with
  | nil =>
      have hcursor : (x.start t).cursor = none := by simp [Dispatch.start, hl]
      refine ⟨ho, List.Pairwise.nil, by simp [hcursor], by simp [hcursor], by simp [hcursor], ?_⟩
      simp [Dispatch.start, hl]
  | cons a l =>
      have hcursor : (x.start t).cursor = some a.key := by simp [Dispatch.start, hl]
      rw [hl, List.pairwise_cons] at hsorted
      refine ⟨ho, List.Pairwise.nil, ?_, by simp [Dispatch.start], ?_, by simp [hcursor]⟩
      · simp [Dispatch.start, hl]
      · intro k hk n hn hlt
        rw [hcursor, Option.some.injEq] at hk
        subst hk
        have hn' : n ∈ a :: l := by rw [← hl]; exact hn
        rcases List.mem_cons.mp hn' with rfl | hn'
        · exact absurd hlt (Nat.lt_irrefl _)
        · exact absurd hlt (Nat.lt_asymm (hsorted.1 n hn'))

/-- The node the iterator is at. -/
theorem Loop.current (h : Loop x w) {k : Nat} (hk : w.cursor = some k) :
    ∃ n, x.current w = some n ∧ n ∈ w.table.nodes x.id ∧ n.key = k := by
  obtain ⟨m, hm, hmk⟩ := h.at_node k hk
  have hfind : ((w.table.nodes x.id).find? fun n => n.key = k).isSome :=
    List.find?_isSome.mpr ⟨m, hm, by simpa using hmk⟩
  obtain ⟨n, hn⟩ := Option.isSome_iff_exists.mp hfind
  refine ⟨n, by rw [Dispatch.current, hk, Option.bind_some, hn], List.mem_of_find?_eq_some hn, ?_⟩
  simpa using List.find?_some hn

variable [DecidableEq Cls] [∀ c, DecidableEq (Obj c)] [∀ c, DecidableEq (Func c)]

/-- A round whose handler leaves the current node in the list. -/
theorem round_kept (h : Loop x w) {k : Nat} (hk : w.cursor = some k) {n : Node Obj Func}
    (hn : x.current w = some n) (hkey : n.key = k)
    (hkept : n ∈ (w.table.applyAll (x.script w n)).nodes x.id) :
    ∃ c, advance ((w.table.applyAll (x.script w n)).nodes x.id) n.key = some c ∧
      x.round w = ⟨w.table.applyAll (x.script w n), c, w.visited ++ [n],
        w.calls ++ (n.receiver.invoke x.sender x.id x.data).toList, w.broken⟩ := by
  have hsorted := (ordered_applyAll h.ordered (x.script w n)).sorted x.id
  obtain ⟨c, hc, -⟩ := advance_spec hsorted hkept
  refine ⟨c, hc, ?_⟩
  subst hkey
  simp only [Dispatch.round, hk, hn, hc]

/-- A round whose handler erases the current node. -/
theorem round_erased (h : Loop x w) {k : Nat} (hk : w.cursor = some k) {n : Node Obj Func}
    (hn : x.current w = some n) (hmem : n ∈ w.table.nodes x.id) (hkey : n.key = k)
    (herased : n ∉ (w.table.applyAll (x.script w n)).nodes x.id) :
    x.round w = ⟨w.table.applyAll (x.script w n), none, w.visited ++ [n],
      w.calls ++ (n.receiver.invoke x.sender x.id x.data).toList, true⟩ := by
  have hnone : advance ((w.table.applyAll (x.script w n)).nodes x.id) k = none := by
    refine advance_eq_none fun m hm hmk => herased ?_
    have hfresh : m.key < w.table.next := by
      rw [hmk, ← hkey]
      exact h.ordered.fresh x.id n hmem
    have hm' := ((mem_applyAll h.ordered _ x.id hfresh).mp hm).1
    rw [eq_of_key (h.ordered.sorted x.id) hm' hmem (hmk.trans hkey.symm)] at hm
    exact hm
  simp only [Dispatch.round, hk, hn, hnone]

/-- A round keeps the invariant. -/
theorem loop_round (h : Loop x w) : Loop x (x.round w) := by
  cases hk : w.cursor with
  | none =>
      have hround : x.round w = w := by simp only [Dispatch.round, hk]
      rw [hround]
      exact h
  | some k =>
      obtain ⟨n, hn, hmem, hkey⟩ := h.current hk
      have ho := ordered_applyAll h.ordered (x.script w n)
      have hsorted : (w.visited ++ [n]).Pairwise fun a b => a.key < b.key := by
        rw [List.pairwise_append]
        refine ⟨h.sorted, List.pairwise_singleton _ _, fun a ha b hb => ?_⟩
        rw [List.mem_singleton.mp hb, hkey]
        exact h.ahead k hk a ha
      by_cases hkept : n ∈ (w.table.applyAll (x.script w n)).nodes x.id
      · obtain ⟨c, hc, hround⟩ := round_kept h hk hn hkey hkept
        obtain ⟨c', hc', hnone, hsome⟩ := advance_spec (ho.sorted x.id) hkept
        rw [hc, Option.some.injEq] at hc'
        subst hc'
        have hvisited : ∀ m ∈ (w.table.applyAll (x.script w n)).nodes x.id, m.key ≤ n.key →
            m ∈ w.visited ++ [n] := by
          intro m hm hle
          rcases Nat.lt_or_eq_of_le hle with hlt | heq
          · have hfresh := Nat.lt_trans hlt (h.ordered.fresh x.id n hmem)
            have hm' := ((mem_applyAll h.ordered _ x.id hfresh).mp hm).1
            exact List.mem_append_left _ (h.behind k hk m hm' (hkey ▸ hlt))
          · rw [eq_of_key (ho.sorted x.id) hm hkept heq]
            exact List.mem_append_right _ List.mem_cons_self
        rw [hround]
        refine ⟨ho, hsorted, fun k' hk' => (hsome k' hk').2.1, fun k' hk' v hv => ?_,
          fun k' hk' m hm hlt => ?_, fun hend _ m hm => ?_⟩
        · have hlt := (hsome k' hk').1
          rcases List.mem_append.mp hv with hv | hv
          · have := h.ahead k hk v hv
            omega
          · rw [List.mem_singleton.mp hv]
            exact hlt
        · exact hvisited m hm ((hsome k' hk').2.2 m hm hlt)
        · exact hvisited m hm (hnone hend m hm)
      · rw [round_erased h hk hn hmem hkey hkept]
        exact ⟨ho, hsorted, by simp, by simp, by simp, by simp⟩

theorem loop_walk {t : NodeTable Obj Func} (ho : Ordered t) (n : Nat) : Loop x (x.walk t n) := by
  induction n with
  | zero => exact loop_start ho
  | succ n ih => exact loop_round ih

/-- A round breaks the traversal exactly if the handler takes the receiver it is called
for off its list. -/
theorem broken_round (h : Loop x w) (hw : w.broken = false) {n : Node Obj Func}
    (hn : x.current w = some n) :
    (x.round w).broken = false ↔ ∀ op ∈ x.script w n, ¬ op.Removes x.id n.receiver := by
  cases hk : w.cursor with
  | none => simp [Dispatch.current, hk] at hn
  | some k =>
      obtain ⟨m, hm, hmem, hkey⟩ := h.current hk
      have hnm : m = n := Option.some.inj (hm.symm.trans hn)
      subst hnm
      have hiff := mem_applyAll h.ordered (x.script w m) x.id (h.ordered.fresh x.id m hmem)
      by_cases hkept : m ∈ (w.table.applyAll (x.script w m)).nodes x.id
      · obtain ⟨c, -, hround⟩ := round_kept h hk hm hkey hkept
        rw [hround]
        exact iff_of_true hw (hiff.mp hkept).2
      · rw [round_erased h hk hm hmem hkey hkept]
        refine iff_of_false Bool.noConfusion fun hno => hkept (hiff.mpr ⟨hmem, hno⟩)

/-- Where there is no current node, a round does nothing to the lists; otherwise the
node is visited and its handler runs. -/
theorem round_cases (w : Walk Obj Func Sender Data) :
    (x.current w = none ∧ (x.round w).table = w.table ∧ (x.round w).visited = w.visited) ∨
      ∃ n, x.current w = some n ∧ (x.round w).table = w.table.applyAll (x.script w n) ∧
        (x.round w).visited = w.visited ++ [n] := by
  unfold Dispatch.round
  cases hk : w.cursor with
  | none => exact .inl ⟨by simp [Dispatch.current, hk], rfl, rfl⟩
  | some k =>
      cases hn : x.current w with
      | none => exact .inl ⟨rfl, rfl, rfl⟩
      | some n =>
          refine .inr ⟨n, rfl, ?_⟩
          dsimp only
          split <;> exact ⟨rfl, rfl⟩

theorem visited_grows (t : NodeTable Obj Func) {n m : Nat} (h : n ≤ m) :
    (x.walk t n).visited <+: (x.walk t m).visited := by
  induction h with
  | refl => exact List.prefix_rfl
  | @step m _ ih =>
      refine ih.trans ?_
      rcases round_cases (x := x) (x.walk t m) with ⟨-, -, hv⟩ | ⟨v, -, -, hv⟩
      · exact ⟨[], by rw [List.append_nil, Dispatch.walk, hv]⟩
      · exact ⟨[v], hv.symm⟩

section Kept

variable {t : NodeTable Obj Func} {node : Node Obj Func}

theorem mem_walk (ho : Ordered t) (hnode : node ∈ t.nodes x.id) (hkeeps : x.Keeps t node.receiver)
    (n : Nat) : node ∈ (x.walk t n).table.nodes x.id := by
  induction n with
  | zero => exact hnode
  | succ n ih =>
      have hloop := loop_walk (x := x) ho n
      rcases round_cases (x := x) (x.walk t n) with ⟨-, htable, -⟩ | ⟨v, hv, htable, -⟩
      · rw [Dispatch.walk, htable]
        exact ih
      · rw [Dispatch.walk, htable]
        have hfresh := hloop.ordered.fresh x.id node ih
        exact (mem_applyAll hloop.ordered _ x.id hfresh).mpr ⟨ih, hkeeps n v hv⟩

/-- No other node with an equal receiver is visited. -/
theorem eq_of_visited (ho : Ordered t) (hnode : node ∈ t.nodes x.id)
    (hkeeps : x.Keeps t node.receiver)
    (n : Nat) : ∀ v ∈ (x.walk t n).visited, v.receiver = node.receiver → v = node := by
  induction n with
  | zero => simp [Dispatch.walk, Dispatch.start]
  | succ n ih =>
      have hloop := loop_walk (x := x) ho n
      rcases round_cases (x := x) (x.walk t n) with ⟨-, -, hvisited⟩ | ⟨v, hv, -, hvisited⟩
      · rw [Dispatch.walk, hvisited]
        exact ih
      · intro u hu heq
        rw [Dispatch.walk, hvisited, List.mem_append, List.mem_singleton] at hu
        rcases hu with hu | rfl
        · exact ih u hu heq
        · cases hk : (x.walk t n).cursor with
          | none => simp [Dispatch.current, hk] at hv
          | some k =>
              obtain ⟨m, hm, hmem, -⟩ := hloop.current hk
              rw [hv, Option.some.injEq] at hm
              subst hm
              exact List.inj_on_of_nodup_map (hloop.ordered.nodup x.id) hmem
                (mem_walk ho hnode hkeeps n) heq

/-- In a traversal that is not broken, a round moves the iterator on, or to the end. -/
theorem cursor_round (ho : Ordered t) (hsafe : ∀ n, (x.walk t n).broken = false) {n k : Nat}
    (hk : (x.walk t n).cursor = some k) :
    (∀ m ∈ (x.walk t (n + 1)).table.nodes x.id, m ∈ (x.walk t (n + 1)).visited) ∨
      ∃ k', (x.walk t (n + 1)).cursor = some k' ∧ k < k' := by
  have hloop := loop_walk (x := x) ho (n + 1)
  obtain ⟨v, hv, -, hkey⟩ := (loop_walk ho n).current hk
  cases hk' : (x.walk t (n + 1)).cursor with
  | none => exact .inl (hloop.done hk' (hsafe (n + 1)))
  | some k' =>
      refine .inr ⟨k', rfl, ?_⟩
      have hvisited : v ∈ (x.walk t (n + 1)).visited := by
        rcases round_cases (x := x) (x.walk t n) with ⟨hno, -⟩ | ⟨u, hu, -, hround⟩
        · rw [hno] at hv
          cases hv
        · rw [hv, Option.some.injEq] at hu
          subst hu
          rw [Dispatch.walk, hround]
          exact List.mem_append_right _ List.mem_cons_self
      rw [← hkey]
      exact hloop.ahead k' hk' v hvisited

/-- In a traversal that is not broken, the iterator comes to a node that stays.  Its
distance to the node is bounded by the keys. -/
theorem visited_of_cursor (ho : Ordered t) (hnode : node ∈ t.nodes x.id)
    (hkeeps : x.Keeps t node.receiver) (hsafe : ∀ n, (x.walk t n).broken = false) {d n k : Nat}
    (hk : (x.walk t n).cursor = some k) (hd : node.key ≤ k + d) :
    ∃ m, node ∈ (x.walk t m).visited := by
  induction d generalizing n k with
  | zero =>
      rcases cursor_round ho hsafe hk with hend | ⟨k', hk', hlt⟩
      · exact ⟨n + 1, hend node (mem_walk ho hnode hkeeps (n + 1))⟩
      · have hbehind := (loop_walk ho (n + 1)).behind k' hk' node
          (mem_walk ho hnode hkeeps (n + 1))
        exact ⟨n + 1, hbehind (by omega)⟩
  | succ d ih =>
      rcases cursor_round ho hsafe hk with hend | ⟨k', hk', hlt⟩
      · exact ⟨n + 1, hend node (mem_walk ho hnode hkeeps (n + 1))⟩
      · exact ih hk' (by omega)

theorem exists_visited (ho : Ordered t) (hnode : node ∈ t.nodes x.id)
    (hkeeps : x.Keeps t node.receiver) (hsafe : ∀ n, (x.walk t n).broken = false) :
    ∃ m, node ∈ (x.walk t m).visited := by
  cases hk : (x.walk t 0).cursor with
  | none => exact ⟨0, (loop_walk ho 0).done hk (hsafe 0) node hnode⟩
  | some k => exact visited_of_cursor ho hnode hkeeps hsafe hk (Nat.le_add_left node.key k)

/-- Among nodes in order, of which no other has an equal receiver, a node counts once. -/
theorem countP_equals {l : List (Node Obj Func)} (hl : l.Pairwise fun a b => a.key < b.key)
    (hmem : node ∈ l) (honly : ∀ v ∈ l, v.receiver = node.receiver → v = node) :
    (l.countP fun v => v.receiver.equals node.receiver) = 1 := by
  obtain ⟨l₁, l₂, rfl⟩ := List.append_of_mem hmem
  obtain ⟨-, hl₂, hl₁⟩ := List.pairwise_append.mp hl
  have hzero₁ : (l₁.countP fun v => v.receiver.equals node.receiver) = 0 := by
    refine List.countP_eq_zero.mpr fun v hv heq => ?_
    have hlt := hl₁ v hv node List.mem_cons_self
    rw [honly v (List.mem_append_left _ hv) ((Receiver.equals_iff _ _).mp heq)] at hlt
    exact Nat.lt_irrefl _ hlt
  have hzero₂ : (l₂.countP fun v => v.receiver.equals node.receiver) = 0 := by
    refine List.countP_eq_zero.mpr fun v hv heq => ?_
    have hlt := (List.pairwise_cons.mp hl₂).1 v hv
    rw [honly v (by simp [hv]) ((Receiver.equals_iff _ _).mp heq)] at hlt
    exact Nat.lt_irrefl _ hlt
  have hself : node.receiver.equals node.receiver = true := (Receiver.equals_iff _ _).mpr rfl
  simp [List.countP_append, hzero₁, hzero₂, hself]

end Kept

/-- A traversal is never broken exactly if no handler takes the receiver it is called for
off its list. -/
theorem safe_iff {t : NodeTable Obj Func} (ho : Ordered t) :
    (∀ n, (x.walk t n).broken = false) ↔
      ∀ n v, x.current (x.walk t n) = some v → ∀ op ∈ x.script (x.walk t n) v,
        ¬ op.Removes x.id v.receiver := by
  constructor
  · intro h n v hv
    exact (broken_round (loop_walk ho n) (h n) hv).mp (h (n + 1))
  · intro h n
    induction n with
    | zero => rfl
    | succ n ih =>
        have hloop := loop_walk (x := x) ho n
        cases hk : (x.walk t n).cursor with
        | none =>
            have hround : x.round (x.walk t n) = x.walk t n := by simp only [Dispatch.round, hk]
            rw [Dispatch.walk, hround]
            exact ih
        | some k =>
            obtain ⟨v, hv, -⟩ := hloop.current hk
            exact (broken_round hloop ih hv).mpr (h n v hv)

/-- **Re-entrancy**: for every registration state, every `dispatch` and all that handlers
do, the loop is right exactly if no handler clears the dispatcher or takes the receiver it
is called for off its list. -/
theorem tolerates_iff (ops : List (HandlerOp Obj Func)) :
    x.Tolerates (NodeTable.empty.applyAll ops) ↔
      ∀ n v, x.current (x.walk (NodeTable.empty.applyAll ops) n) = some v →
        ∀ op ∈ x.script (x.walk (NodeTable.empty.applyAll ops) n) v,
          ¬ op.Removes x.id v.receiver := by
  have ho : Ordered (NodeTable.empty.applyAll ops) := ordered_applyAll ordered_empty ops
  rw [← safe_iff ho]
  constructor
  · exact Dispatch.Tolerates.safe
  · intro hsafe
    refine ⟨hsafe, fun node hnode hkeeps => ?_⟩
    obtain ⟨m, hm⟩ := exists_visited ho hnode hkeeps hsafe
    refine ⟨m, fun n hn => ?_⟩
    have hvisited := (visited_grows _ hn).subset hm
    exact countP_equals (loop_walk ho n).sorted hvisited (eq_of_visited ho hnode hkeeps n)

/-- With handlers that call nothing, the loop goes through the list. -/
theorem walk_quiet {t : NodeTable Obj Func} (ho : Ordered t) (hquiet : ∀ n, x.handler n = [])
    (n : Nat) : x.walk t n = ⟨t, ((t.nodes x.id).drop n).head?.map Node.key,
      (t.nodes x.id).take n,
      ((t.nodes x.id).take n).filterMap fun v => v.receiver.invoke x.sender x.id x.data,
      false⟩ := by
  induction n with
  | zero => simp [Dispatch.walk, Dispatch.start]
  | succ n ih =>
      rw [Dispatch.walk, ih]
      cases hl : (t.nodes x.id).drop n with
      | nil =>
          have hlen : (t.nodes x.id).length ≤ n := List.drop_eq_nil_iff.mp hl
          simp [Dispatch.round, List.take_of_length_le hlen,
            List.take_of_length_le (Nat.le_succ_of_le hlen),
            List.drop_eq_nil_of_le (Nat.le_succ_of_le hlen)]
      | cons a l =>
          have hsplit : t.nodes x.id = (t.nodes x.id).take n ++ a :: l := by
            rw [← hl, List.take_append_drop]
          have hne : ∀ m ∈ (t.nodes x.id).take n, m.key ≠ a.key := by
            intro m hm
            have hsorted := ho.sorted x.id
            rw [hsplit, List.pairwise_append] at hsorted
            exact Nat.ne_of_lt (hsorted.2.2 m hm a List.mem_cons_self)
          have hadvance : advance (t.nodes x.id) a.key = some (l.head?.map Node.key) := by
            rw [hsplit]
            exact advance_append hne
          have hfind : ((t.nodes x.id).find? fun m => m.key = a.key) = some a := by
            have hnone : ((t.nodes x.id).take n).find? (fun m => m.key = a.key) = none :=
              List.find?_eq_none.mpr fun m hm => by simpa using hne m hm
            rw [hsplit, List.find?_append, hnone]
            simp
          have hscript : ∀ w : Walk Obj Func Sender Data, x.script w a = [] := by
            intro w
            unfold Dispatch.script
            split
            · rfl
            · exact hquiet _
          have htake : (t.nodes x.id).take (n + 1) = (t.nodes x.id).take n ++ [a] := by
            rw [List.take_add, hl]
            simp
          have hdrop : (t.nodes x.id).drop (n + 1) = l := by
            rw [← List.drop_drop, hl, List.drop_one, List.tail_cons]
          simp only [Dispatch.round, Dispatch.current, List.head?_cons, Option.map_some,
            Option.bind_some, hfind, hscript, NodeTable.applyAll, List.foldl_nil, hadvance, htake,
            hdrop, List.filterMap_append]
          cases hcall : a.receiver.invoke x.sender x.id x.data <;> simp [hcall]

/-- The `dispatch` of the dispatcher is the loop with handlers that call nothing. -/
theorem dispatch_quiet {t : NodeTable Obj Func} (ho : Ordered t)
    (hquiet : ∀ n, x.handler n = []) :
    ∃ n, (x.walk t n).cursor = none ∧ (x.walk t n).broken = false ∧
      (x.walk t n).calls = t.dispatcher.dispatch x.sender x.id x.data := by
  refine ⟨(t.nodes x.id).length, ?_⟩
  rw [walk_quiet ho hquiet, dispatch_eq, receivers_dispatcher, List.filterMap_map]
  simp

end Loop

/-! ## A handler that takes itself off -/

/-- A `dispatch(1)` to objects and functions that are numbers, in which every handler
makes the given calls. -/
def Dispatch.always (ops : List (HandlerOp (fun _ : Unit => Nat) fun _ => Nat)) :
    Dispatch (fun _ : Unit => Nat) (fun _ => Nat) Unit Unit :=
  ⟨(), 1, (), fun _ => ops⟩

/-- A handler that unlistens itself, as `serverapp::shutdown` does when a message
triggers it, breaks the loop, and so does one that clears the dispatcher. -/
theorem not_tolerates_self :
    ¬ (Dispatch.always [.unlisten 1 ⟨(), some 0, 0⟩]).Tolerates
        (NodeTable.empty.applyAll [.listen 1 ⟨(), some 0, 0⟩]) ∧
      ¬ (Dispatch.always [.clear]).Tolerates
        (NodeTable.empty.applyAll [.listen 1 ⟨(), some 0, 0⟩]) := by
  refine ⟨fun h => ?_, fun h => ?_⟩
  · exact absurd (h.safe 1) (by decide)
  · exact absurd (h.safe 1) (by decide)

end GEngine
