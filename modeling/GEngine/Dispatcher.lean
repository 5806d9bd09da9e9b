import Mathlib.Data.List.Nodup
import Mathlib.Logic.Function.Basic
import Std.Data.ExtTreeMap

/-!
# GEngine.Dispatcher

The dispatcher of `libs/server/include/dispatcher.h` and the two interfaces to it,
`networkinterface` and `eventinterface`.  The interfaces are the same templates at their
own types of sender and data, which are type variables here.

Receivers of different classes stand in one list: `receiver<T>` is a `Receiver` whose
`cls` is `T`, and the types of its object and its member function depend on `cls`.
Handlers here do not call the dispatcher; `GEngine.Dispatcher.Reentrant` is about those
that do.

`Registry` is what the dispatcher is for: a map from ids to ordered lists without
duplicates.  `refines_run` says that every sequence of calls has the same answers with
both.
-/

namespace GEngine

/-! ## Receivers -/

section Receiver

variable {Cls : Type} (Obj Func : Cls → Type)

/-- An object and a member function of its class, as `listen` and `unlisten` are given
them.  A null object is `none`. -/
structure Target where
  cls : Cls
  object : Option (Obj cls)
  func : Func cls

/-- `receiver<T>`. -/
structure Receiver where
  cls : Cls
  mObject : Option (Obj cls)
  mId : Int
  mReceiver : Func cls

/-- A call of a member function. -/
structure Call (Sender Data : Type) where
  cls : Cls
  object : Obj cls
  func : Func cls
  sender : Sender
  id : Int
  data : Data

variable {Obj Func} {Sender Data : Type}

/-- `receiver<T>(id, object, func)`. -/
def Target.receiver (id : Int) (p : Target Obj Func) : Receiver Obj Func :=
  ⟨p.cls, p.object, id, p.func⟩

/-- The object and the function of a call. -/
def Call.target (c : Call Obj Func Sender Data) : Target Obj Func := ⟨c.cls, some c.object, c.func⟩

/-- `invoke(object, id, data)`. -/
def Receiver.invoke (r : Receiver Obj Func) (sender : Sender) (id : Int) (data : Data) :
    Option (Call Obj Func Sender Data) :=
  if id = r.mId then r.mObject.map fun object => ⟨r.cls, object, r.mReceiver, sender, id, data⟩
  else none

theorem Target.receiver_inj {id : Int} {p q : Target Obj Func} :
    p.receiver id = q.receiver id ↔ p = q := by
  obtain ⟨cls, object, func⟩ := p
  obtain ⟨cls', object', func'⟩ := q
  simp [receiver]

variable [DecidableEq Cls] [∀ c, DecidableEq (Obj c)] [∀ c, DecidableEq (Func c)]

/-- `equals(other)`: the class is compared first, and the rest only within one class. -/
def Receiver.equals (r other : Receiver Obj Func) : Bool :=
  if h : other.cls = r.cls then
    r.mObject = h ▸ other.mObject ∧ r.mId = other.mId ∧ r.mReceiver = h ▸ other.mReceiver
  else false

/-- `equals` is equality. -/
theorem Receiver.equals_iff (r other : Receiver Obj Func) : r.equals other = true ↔ r = other := by
  obtain ⟨cls, object, id, func⟩ := r
  obtain ⟨cls', object', id', func'⟩ := other
  by_cases h : cls' = cls
  · subst h
    simp [equals]
  · simp [equals, h, Ne.symm h]

instance : DecidableEq (Target Obj Func) := fun p q =>
  decidable_of_iff ((p.receiver 0).equals (q.receiver 0) = true)
    ((Receiver.equals_iff _ _).trans Target.receiver_inj)

end Receiver

/-! ## The dispatcher -/

section Dispatcher

variable {Cls : Type} (Obj Func : Cls → Type) (Sender Data : Type)

/-- The `dispatcher`, with its `std::map<int, std::list<ireceiver*>>`. -/
structure Dispatcher where
  mReceivers : Std.ExtTreeMap Int (List (Receiver Obj Func))

/-- The calls of `networkinterface` and of `eventinterface`. -/
inductive DispatcherOp
  | listen (id : Int) (p : Target Obj Func)
  | unlisten (id : Int) (p : Target Obj Func)
  | clear
  | dispatch (sender : Sender) (id : Int) (data : Data)

/-- What a call answers: the result of `listen`, or what `dispatch` has called. -/
inductive Answer
  | listened (new : Bool)
  | returned
  | delivered (calls : List (Call Obj Func Sender Data))

variable {Obj Func Sender Data}

namespace Dispatcher

/-- A dispatcher without receivers. -/
def empty : Dispatcher Obj Func := ⟨∅⟩

/-- The list of an id; empty where the map has none. -/
def receivers (d : Dispatcher Obj Func) (id : Int) : List (Receiver Obj Func) :=
  (d.mReceivers[id]?).getD []

/-- The map gets an empty list for the id if it has none. -/
def entry (d : Dispatcher Obj Func) (id : Int) : Dispatcher Obj Func :=
  ⟨d.mReceivers.insertIfNew id []⟩

/-- `dispatch(object, id, data)`. -/
def dispatch (d : Dispatcher Obj Func) (sender : Sender) (id : Int) (data : Data) :
    List (Call Obj Func Sender Data) :=
  match d.mReceivers[id]? with
  | none => []
  | some receivers => receivers.filterMap fun r => r.invoke sender id data

/-- `clear()`. -/
def clear (_ : Dispatcher Obj Func) : Dispatcher Obj Func := ⟨∅⟩

variable [DecidableEq Cls] [∀ c, DecidableEq (Obj c)] [∀ c, DecidableEq (Func c)]

/-- `listen(id, receiver)`. -/
def listen (d : Dispatcher Obj Func) (id : Int) (receiver : Option (Receiver Obj Func)) :
    Bool × Dispatcher Obj Func :=
  match receiver with
  | none => (false, d)
  | some r =>
      let d := d.entry id
      let exist := (d.receivers id).any fun x => x.equals r
      if exist then (false, d)
      else (true, ⟨d.mReceivers.insert id (d.receivers id ++ [r])⟩)

/-- `unlisten(id, receiver)`: the first receiver that is equal is erased. -/
def unlisten (d : Dispatcher Obj Func) (id : Int) (receiver : Option (Receiver Obj Func)) :
    Dispatcher Obj Func :=
  match receiver with
  | none => d
  | some r =>
      match d.mReceivers[id]? with
      | none => d
      | some receivers => ⟨d.mReceivers.insert id (receivers.eraseP fun x => x.equals r)⟩

/-- One call through an interface, which makes the receiver. -/
def step (d : Dispatcher Obj Func) :
    DispatcherOp Obj Func Sender Data → Answer Obj Func Sender Data × Dispatcher Obj Func
  | .listen id p =>
      let (new, d) := d.listen id (some (p.receiver id))
      (.listened new, d)
  | .unlisten id p => (.returned, d.unlisten id (some (p.receiver id)))
  | .clear => (.returned, d.clear)
  | .dispatch sender id data => (.delivered (d.dispatch sender id data), d)

/-- A sequence of calls, with all answers. -/
def run (d : Dispatcher Obj Func) :
    List (DispatcherOp Obj Func Sender Data) →
      List (Answer Obj Func Sender Data) × Dispatcher Obj Func
  | [] => ([], d)
  | op :: ops =>
      let (answer, d) := d.step op
      let (answers, d) := d.run ops
      (answer :: answers, d)

end Dispatcher

end Dispatcher

/-! ## What it is for -/

section Registry

variable {Cls : Type} (Obj Func : Cls → Type)

/-- For each id, an ordered list of targets without duplicates. -/
structure Registry where
  targets : Int → List (Target Obj Func)
  nodup : ∀ id, (targets id).Nodup

variable {Obj Func} {Sender Data : Type}

/-- The call of a target, if its object is not null. -/
def Target.call (p : Target Obj Func) (sender : Sender) (id : Int) (data : Data) :
    Option (Call Obj Func Sender Data) :=
  p.object.map fun object => ⟨p.cls, object, p.func, sender, id, data⟩

namespace Registry

/-- Nothing is registered. -/
def empty : Registry Obj Func := ⟨fun _ => [], fun _ => List.nodup_nil⟩

/-- Each target of the id whose object is not null is called, in order. -/
def dispatch (f : Registry Obj Func) (sender : Sender) (id : Int) (data : Data) :
    List (Call Obj Func Sender Data) :=
  (f.targets id).filterMap fun p => p.call sender id data

variable [DecidableEq Cls] [∀ c, DecidableEq (Obj c)] [∀ c, DecidableEq (Func c)]

/-- A target that is not yet registered is appended. -/
def listen (f : Registry Obj Func) (id : Int) (p : Target Obj Func) :
    Bool × Registry Obj Func :=
  if hp : p ∈ f.targets id then (false, f)
  else (true, {
    targets := Function.update f.targets id (f.targets id ++ [p])
    nodup := by
      intro k
      by_cases hk : k = id
      · subst hk
        simpa using List.nodup_append.mpr ⟨f.nodup k, List.nodup_singleton p, by
          intro x hx y hy
          rw [List.mem_singleton] at hy
          subst hy
          exact fun hxy => hp (hxy ▸ hx)⟩
      · rw [Function.update_of_ne hk]
        exact f.nodup k })

/-- A target is removed, and all others stay in order. -/
def unlisten (f : Registry Obj Func) (id : Int) (p : Target Obj Func) : Registry Obj Func where
  targets := Function.update f.targets id ((f.targets id).filter fun x => x ≠ p)
  nodup := by
    intro k
    by_cases hk : k = id
    · subst hk
      rw [Function.update_self]
      exact (f.nodup k).filter _
    · rw [Function.update_of_ne hk]
      exact f.nodup k

/-- One call. -/
def step (f : Registry Obj Func) :
    DispatcherOp Obj Func Sender Data → Answer Obj Func Sender Data × Registry Obj Func
  | .listen id p =>
      let (new, f) := f.listen id p
      (.listened new, f)
  | .unlisten id p => (.returned, f.unlisten id p)
  | .clear => (.returned, empty)
  | .dispatch sender id data => (.delivered (f.dispatch sender id data), f)

/-- A sequence of calls, with all answers. -/
def run (f : Registry Obj Func) :
    List (DispatcherOp Obj Func Sender Data) →
      List (Answer Obj Func Sender Data) × Registry Obj Func
  | [] => ([], f)
  | op :: ops =>
      let (answer, f) := f.step op
      let (answers, f) := f.run ops
      (answer :: answers, f)

end Registry

end Registry

/-! ## Maps to lists -/

section Lists

variable {α : Type} (m : Std.ExtTreeMap Int (List α)) (id k : Int)

/-- The lists after one was stored. -/
theorem getD_insert (l : List α) :
    ((m.insert id l)[k]?).getD [] = if k = id then l else (m[k]?).getD [] := by
  rw [Std.ExtTreeMap.getElem?_insert]
  by_cases hk : k = id
  · simp [hk]
  · simp [hk, Ne.symm hk]

/-- An empty list where there was none is as good as none. -/
theorem getD_insertIfNew : ((m.insertIfNew id [])[k]?).getD [] = (m[k]?).getD [] := by
  rw [Std.ExtTreeMap.getElem?_insertIfNew]
  by_cases hk : id = k ∧ id ∉ m
  · obtain ⟨rfl, hid⟩ := hk
    simp [hid]
  · simp [hk]

end Lists

/-! ## Refinement -/

section Refines

variable {Cls : Type} {Obj Func : Cls → Type} {Sender Data : Type}

/-- The dispatcher holds what the registry says: under each id the receivers that
`listen` makes of the targets, in order. -/
def Refines (d : Dispatcher Obj Func) (f : Registry Obj Func) : Prop :=
  ∀ id, d.receivers id = (f.targets id).map (Target.receiver id)

theorem receivers_insert (d : Dispatcher Obj Func) (id : Int) (l : List (Receiver Obj Func))
    (k : Int) : (⟨d.mReceivers.insert id l⟩ : Dispatcher Obj Func).receivers k =
      if k = id then l else d.receivers k :=
  getD_insert d.mReceivers id k l

theorem receivers_entry (d : Dispatcher Obj Func) (id k : Int) :
    (d.entry id).receivers k = d.receivers k :=
  getD_insertIfNew d.mReceivers id k

theorem refines_empty : Refines (Dispatcher.empty : Dispatcher Obj Func) Registry.empty := by
  intro id
  simp [Dispatcher.empty, Dispatcher.receivers, Registry.empty]

/-- A receiver under its own id invokes its target. -/
theorem invoke_receiver (p : Target Obj Func) (sender : Sender) (id : Int) (data : Data) :
    (p.receiver id).invoke sender id data = p.call sender id data := by
  simp [Receiver.invoke, Target.receiver, Target.call]

theorem dispatch_eq (d : Dispatcher Obj Func) (sender : Sender) (id : Int) (data : Data) :
    d.dispatch sender id data = (d.receivers id).filterMap fun r => r.invoke sender id data := by
  unfold Dispatcher.dispatch Dispatcher.receivers
  cases d.mReceivers[id]? with
  | none => simp
  | some l => simp

theorem refines_dispatch {d : Dispatcher Obj Func} {f : Registry Obj Func} (h : Refines d f)
    (sender : Sender) (id : Int) (data : Data) :
    d.dispatch sender id data = f.dispatch sender id data := by
  rw [dispatch_eq, h id, List.filterMap_map]
  simp only [Function.comp_def, invoke_receiver]
  rfl

variable [DecidableEq Cls] [∀ c, DecidableEq (Obj c)] [∀ c, DecidableEq (Func c)]

/-- The search of `listen`. -/
theorem any_equals_iff (id : Int) (l : List (Target Obj Func)) (p : Target Obj Func) :
    ((l.map (Target.receiver id)).any fun x => x.equals (p.receiver id)) = true ↔ p ∈ l := by
  simp only [List.any_map, List.any_eq_true, Function.comp_apply, Receiver.equals_iff,
    Target.receiver_inj]
  simp

/-- The loop of `unlisten`: among different targets, the first that is equal is the only
one. -/
theorem eraseP_equals (id : Int) {l : List (Target Obj Func)} (hl : l.Nodup)
    (p : Target Obj Func) :
    (l.map (Target.receiver id)).eraseP (fun x => x.equals (p.receiver id)) =
      (l.filter fun x => x ≠ p).map (Target.receiver id) := by
  have hbeq : (fun x : Target Obj Func => (x.receiver id).equals (p.receiver id)) =
      fun x => x == p := by
    funext x
    rw [Bool.eq_iff_iff, Receiver.equals_iff, Target.receiver_inj, beq_iff_eq]
  have herase : l.eraseP (fun x => x == p) = l.erase p := (List.erase_eq_eraseP' p l).symm
  rw [List.eraseP_map, Function.comp_def, hbeq, herase, hl.erase_eq_filter]
  simp [bne, beq_eq_decide]

theorem refines_listen {d : Dispatcher Obj Func} {f : Registry Obj Func} (h : Refines d f)
    (id : Int) (p : Target Obj Func) :
    (d.listen id (some (p.receiver id))).1 = (f.listen id p).1 ∧
      Refines (d.listen id (some (p.receiver id))).2 (f.listen id p).2 := by
  have hany := any_equals_iff id (f.targets id) p
  have hid := receivers_entry d id id
  rw [← h id, ← hid] at hany
  unfold Dispatcher.listen Registry.listen
  by_cases hp : p ∈ f.targets id
  · simp only [hany.mpr hp, hp, if_true, dif_pos]
    refine ⟨trivial, fun k => ?_⟩
    rw [receivers_entry, h k]
  · have hno := mt hany.mp hp
    simp only [hno, hp, dif_neg, not_false_eq_true, Bool.false_eq_true, if_false]
    refine ⟨trivial, fun k => ?_⟩
    rw [receivers_insert, hid, receivers_entry, h id, h k]
    by_cases hk : k = id
    · subst hk
      simp
    · simp [hk]

theorem refines_unlisten {d : Dispatcher Obj Func} {f : Registry Obj Func} (h : Refines d f)
    (id : Int) (p : Target Obj Func) :
    Refines (d.unlisten id (some (p.receiver id))) (f.unlisten id p) := by
  have hid := h id
  intro k
  unfold Dispatcher.unlisten Registry.unlisten
  cases hget : d.mReceivers[id]? with
  | none =>
      rw [Dispatcher.receivers, hget] at hid
      have hnil : f.targets id = [] := List.map_eq_nil_iff.mp hid.symm
      change d.receivers k = _
      rw [h k]
      by_cases hk : k = id
      · subst hk
        simp [hnil]
      · simp [hk]
  | some l =>
      have hl : l = (f.targets id).map (Target.receiver id) := by
        simpa [Dispatcher.receivers, hget] using hid
      rw [receivers_insert, hl, eraseP_equals id (f.nodup id)]
      by_cases hk : k = id
      · subst hk
        simp
      · simp [hk, h k]

/-- One call keeps the refinement and has the same answer. -/
theorem refines_step {d : Dispatcher Obj Func} {f : Registry Obj Func} (h : Refines d f)
    (op : DispatcherOp Obj Func Sender Data) :
    (d.step op).1 = (f.step op).1 ∧ Refines (d.step op).2 (f.step op).2 := by
  cases op with
  | listen id p =>
      obtain ⟨hans, hst⟩ := refines_listen h id p
      exact ⟨congrArg Answer.listened hans, hst⟩
  | unlisten id p => exact ⟨rfl, refines_unlisten h id p⟩
  | clear => exact ⟨rfl, refines_empty⟩
  | dispatch sender id data =>
      exact ⟨congrArg Answer.delivered (refines_dispatch h sender id data), h⟩

/-- **Refinement**: every sequence of calls has the same answers. -/
theorem refines_run {d : Dispatcher Obj Func} {f : Registry Obj Func} (h : Refines d f)
    (ops : List (DispatcherOp Obj Func Sender Data)) :
    (d.run ops).1 = (f.run ops).1 ∧ Refines (d.run ops).2 (f.run ops).2 := by
  induction ops generalizing d f with
  | nil => exact ⟨rfl, h⟩
  | cons op ops ih =>
      obtain ⟨hans, hst⟩ := refines_step h op
      obtain ⟨hrest, hend⟩ := ih hst
      simp only [Dispatcher.run, Registry.run, hans, hrest]
      exact ⟨trivial, hend⟩

/-- No id holds two receivers that are equal to each other. -/
theorem pairwise_not_equals {d : Dispatcher Obj Func} {f : Registry Obj Func} (h : Refines d f)
    (id : Int) : (d.receivers id).Pairwise fun a b => a.equals b = false := by
  rw [h id, List.pairwise_map]
  refine (f.nodup id).imp fun {p q} hpq => ?_
  rw [Bool.eq_false_iff, Ne, Receiver.equals_iff, Target.receiver_inj]
  exact hpq

/-! ## Silence after `unlisten` -/

omit [DecidableEq Cls] [∀ c, DecidableEq (Obj c)] [∀ c, DecidableEq (Func c)] in
/-- What is delivered goes to a registered target. -/
theorem target_mem_of_dispatch {f : Registry Obj Func} {sender : Sender} {id : Int} {data : Data}
    {c : Call Obj Func Sender Data} (hc : c ∈ f.dispatch sender id data) :
    c.id = id ∧ c.target ∈ f.targets id := by
  obtain ⟨p, hp, hcall⟩ := List.mem_filterMap.mp hc
  obtain ⟨cls, object, func⟩ := p
  cases object with
  | none => simp [Target.call] at hcall
  | some object =>
      simp only [Target.call, Option.map_some, Option.some.injEq] at hcall
      subst hcall
      exact ⟨rfl, hp⟩

theorem not_mem_step {f : Registry Obj Func} {id : Int} {p : Target Obj Func}
    (hp : p ∉ f.targets id) {op : DispatcherOp Obj Func Sender Data} (hop : op ≠ .listen id p) :
    p ∉ (f.step op).2.targets id := by
  cases op with
  | listen k q =>
      change p ∉ (f.listen k q).2.targets id
      unfold Registry.listen
      by_cases hq : q ∈ f.targets k
      · simpa [hq] using hp
      · by_cases hk : id = k
        · subst hk
          have hpq : p ≠ q := fun hpq => hop (by rw [hpq])
          simp [hq, hp, hpq]
        · simp [hq, hk, hp]
  | unlisten k q =>
      change p ∉ Function.update f.targets k _ id
      by_cases hk : id = k
      · subst hk
        simp [hp]
      · simp [hk, hp]
  | clear => exact List.not_mem_nil
  | dispatch sender k data => exact hp

/-- A target that is not registered is not called before a `listen` for it. -/
theorem silent_run {f : Registry Obj Func} {id : Int} {p : Target Obj Func}
    (hp : p ∉ f.targets id) {ops : List (DispatcherOp Obj Func Sender Data)}
    (hops : ∀ op ∈ ops, op ≠ .listen id p) {calls : List (Call Obj Func Sender Data)}
    (hcalls : .delivered calls ∈ (f.run ops).1) :
    ∀ c ∈ calls, c.id = id → c.target ≠ p := by
  induction ops generalizing f with
  | nil => simp [Registry.run] at hcalls
  | cons op ops ih =>
      have hop : op ≠ .listen id p := hops op List.mem_cons_self
      rcases List.mem_cons.mp hcalls with hnow | hlater
      · intro c hc hid htarget
        cases op with
        | dispatch sender k data =>
            cases hnow
            obtain ⟨hk, hmem⟩ := target_mem_of_dispatch hc
            rw [htarget, ← hk, hid] at hmem
            exact hp hmem
        | listen k q => cases hnow
        | unlisten k q => cases hnow
        | clear => cases hnow
      · exact ih (not_mem_step hp hop) (fun o ho => hops o (List.mem_cons_of_mem op ho)) hlater

/-- **Dispatcher**: every sequence of calls has the answers of the registry; at its end
no id holds two receivers that are equal to each other; and one `unlisten` stops all
deliveries to a target until the next `listen` for it. -/
theorem dispatcher_refines_registry (ops : List (DispatcherOp Obj Func Sender Data)) :
    (Dispatcher.empty.run ops).1 = (Registry.empty.run ops).1 ∧
      (∀ id, ((Dispatcher.empty.run ops).2.receivers id).Pairwise
        fun a b => a.equals b = false) ∧
      ∀ (id : Int) (p : Target Obj Func) (rest : List (DispatcherOp Obj Func Sender Data)),
        (∀ op ∈ rest, op ≠ .listen id p) → ∀ calls,
          .delivered calls ∈ ((Dispatcher.empty.run ops).2.run (.unlisten id p :: rest)).1 →
            ∀ c ∈ calls, c.id = id → c.target ≠ p := by
  have hempty : Refines (Dispatcher.empty : Dispatcher Obj Func) Registry.empty := refines_empty
  obtain ⟨hans, href⟩ := refines_run hempty ops
  refine ⟨hans, pairwise_not_equals href, fun id p rest hrest calls hcalls => ?_⟩
  rw [(refines_run href (.unlisten id p :: rest)).1] at hcalls
  have hlater : .delivered calls ∈
      (((Registry.empty.run ops).2.unlisten id p).run rest).1 := by
    simpa [Registry.run, Registry.step] using hcalls
  have hgone : p ∉ ((Registry.empty.run ops).2.unlisten id p).targets id := by
    simp [Registry.unlisten]
  exact silent_run hgone hrest hlater

end Refines

end GEngine
