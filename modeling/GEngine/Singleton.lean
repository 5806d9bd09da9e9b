import GEngine.Interleave

/-!
# GEngine.Singleton

`singleton<T>::instance()` (`libs/server/include/singleton.h`), which is to make one object
however many threads ask for it.

It looks at `m_instance`, takes a lock, and looks again.  But every thread that finds no
object at first initialises the lock before it takes it, and a lock that is initialised
is free, whoever holds it.  As long as that does not happen to a lock that is held, all
threads get the same object (`instance_agrees`); else any number of threads can get an
object each (`instance_diverges`).

A step is one access to `m_instance` or one call of libuv; accesses are taken to be
atomic.  The lock is that of a release build, which does not look at who lets it go.
-/

namespace GEngine

namespace Singleton

open Interleave

/-- The static members: `m_instance`, where objects are counted from zero, whether `m_lock` is
held, and how many objects were made. -/
structure Statics where
  mInstance : Option Nat
  held : Bool
  made : Nat
  deriving DecidableEq, Repr

/-- The statements of `instance()`, and its result. -/
inductive Pc
  | check
  | mutexInit
  | mutexLock
  | recheck
  | create
  | mutexUnlock
  | load
  | done (result : Option Nat)
  deriving DecidableEq, Repr

/-- `instance()`. -/
def getInstance : Program Pc Statics
  | .check, m => some (if m.mInstance = none then .mutexInit else .load, m)
  | .mutexInit, m => some (.mutexLock, { m with held := false })
  | .mutexLock, m => if m.held then none else some (.recheck, { m with held := true })
  | .recheck, m => some (if m.mInstance = none then .create else .mutexUnlock, m)
  | .create, m => some (.mutexUnlock, { m with mInstance := some m.made, made := m.made + 1 })
  | .mutexUnlock, m => some (.load, { m with held := false })
  | .load, m => some (.done m.mInstance, m)
  | .done _, _ => none

variable {Tid : Type} [DecidableEq Tid]

/-- All threads are about to ask. -/
def start : Config Tid Pc Statics := ⟨fun _ => .check, ⟨none, false, 0⟩⟩

/-! ## One object -/

/-- The lock is not initialised while it is held. -/
def Undisturbed (c : Config Tid Pc Statics) (t : Tid) : Prop :=
  c.locals t = .mutexInit → c.shared.held = false

/-- A thread that has taken the lock. -/
def Pc.Inside : Pc → Prop
  | recheck | create | mutexUnlock => True
  | _ => False

/-- What a thread can rely on, wherever it is. -/
def Pc.At : Pc → Statics → Prop
  | recheck, m => m.held = true
  | create, m => m.held = true ∧ m.mInstance = none
  | mutexUnlock, m => m.held = true ∧ m.mInstance ≠ none
  | load, m => m.mInstance ≠ none
  | done r, m => r = some 0 ∧ m.mInstance ≠ none
  | _, _ => True

/-- No object was made, or one. -/
def Statics.AtMostOne (m : Statics) : Prop :=
  m.mInstance = none ∧ m.made = 0 ∨ m.mInstance = some 0 ∧ m.made = 1

/-- What holds as long as the lock is one: a thread that has taken it is alone. -/
structure Exclusive (c : Config Tid Pc Statics) : Prop where
  at_pc : ∀ t, (c.locals t).At c.shared
  alone : ∀ t u, (c.locals t).Inside → (c.locals u).Inside → t = u
  one : c.shared.AtMostOne

omit [DecidableEq Tid] in
theorem exclusive_start : Exclusive (start : Config Tid Pc Statics) where
  at_pc _ := trivial
  alone _ _ h := h.elim
  one := .inl ⟨rfl, rfl⟩

theorem Pc.At.held {pc : Pc} {m : Statics} (h : pc.At m) (hin : pc.Inside) : m.held = true := by
  cases pc with
  | recheck => exact h
  | create => exact h.1
  | mutexUnlock => exact h.1
  | _ => exact hin.elim

/-- Outside, a thread relies on the object only. -/
theorem Pc.At.mono {pc : Pc} {m m' : Statics} (h : pc.At m) (hout : ¬ pc.Inside)
    (hkeep : m.mInstance ≠ none → m'.mInstance ≠ none) : pc.At m' := by
  cases pc with
  | recheck => exact absurd trivial hout
  | create => exact absurd trivial hout
  | mutexUnlock => exact absurd trivial hout
  | load => exact hkeep h
  | done r => exact ⟨h.1, hkeep h.2⟩
  | _ => trivial

namespace Exclusive

variable {c : Config Tid Pc Statics} {t : Tid} {l : Pc} {m : Statics}

omit [DecidableEq Tid] in
/-- Nobody is inside while the lock is free. -/
theorem outside_of_free (h : Exclusive c) (hfree : c.shared.held = false) (u : Tid) :
    ¬ (c.locals u).Inside := by
  intro hin
  have hheld := (h.at_pc u).held hin
  rw [hfree] at hheld
  contradiction

omit [DecidableEq Tid] in
/-- A thread inside is alone. -/
theorem outside_of_inside (h : Exclusive c) (ht : (c.locals t).Inside) (u : Tid) (hu : u ≠ t) :
    ¬ (c.locals u).Inside :=
  fun hin => hu (h.alone u t hin ht)

/-- A turn, after which the other threads can rely on what they could before. -/
theorem next (h : Exclusive c) (hself : l.At m) (hothers : ∀ u, u ≠ t → (c.locals u).At m)
    (halone : l.Inside → ∀ u, u ≠ t → ¬ (c.locals u).Inside) (hone : m.AtMostOne) :
    Exclusive (⟨Function.update c.locals t l, m⟩ : Config Tid Pc Statics) where
  at_pc u := by
    by_cases hu : u = t
    · subst hu
      simpa using hself
    · simpa [Function.update_of_ne hu] using hothers u hu
  alone u v hin hin' := by
    by_cases hu : u = t <;> by_cases hv : v = t
    · rw [hu, hv]
    · subst hu
      simp only [Function.update_self, Function.update_of_ne hv] at hin hin'
      exact absurd hin' (halone hin v hv)
    · subst hv
      simp only [Function.update_self, Function.update_of_ne hu] at hin hin'
      exact absurd hin (halone hin' u hu)
    · simp only [Function.update_of_ne hu, Function.update_of_ne hv] at hin hin'
      exact h.alone u v hin hin'
  one := hone

/-- A turn that leaves what is shared as it is. -/
theorem next_same (h : Exclusive c) (hself : l.At c.shared)
    (halone : l.Inside → (c.locals t).Inside) :
    Exclusive (⟨Function.update c.locals t l, c.shared⟩ : Config Tid Pc Statics) :=
  h.next hself (fun u _ => h.at_pc u) (fun hin => h.outside_of_inside (halone hin)) h.one

/-- Every turn keeps the lock a lock. -/
theorem step (h : Exclusive c) (hok : Undisturbed c t)
    (hturn : getInstance (c.locals t) c.shared = some (l, m)) :
    Exclusive (⟨Function.update c.locals t l, m⟩ : Config Tid Pc Statics) := by
  have hat := h.at_pc t
  cases hpc : c.locals t with
  | check =>
      simp only [getInstance, hpc, Option.some.injEq, Prod.mk.injEq] at hturn
      obtain ⟨rfl, rfl⟩ := hturn
      refine h.next_same ?_ ?_
      · split
        · trivial
        · assumption
      · split <;> exact False.elim
  | mutexInit =>
      simp only [getInstance, hpc, Option.some.injEq, Prod.mk.injEq] at hturn
      obtain ⟨rfl, rfl⟩ := hturn
      refine h.next trivial (fun u _ => ?_) (fun hin => hin.elim) h.one
      exact (h.at_pc u).mono (h.outside_of_free (hok hpc) u) id
  | mutexLock =>
      simp only [getInstance, hpc, Option.ite_none_left_eq_some, Option.some.injEq,
        Prod.mk.injEq, Bool.not_eq_true] at hturn
      obtain ⟨hfree, rfl, rfl⟩ := hturn
      refine h.next rfl (fun u _ => ?_) (fun _ u _ => h.outside_of_free hfree u) h.one
      exact (h.at_pc u).mono (h.outside_of_free hfree u) id
  | recheck =>
      simp only [getInstance, hpc, Option.some.injEq, Prod.mk.injEq] at hturn
      obtain ⟨rfl, rfl⟩ := hturn
      rw [hpc] at hat
      refine h.next_same ?_ fun _ => by rw [hpc]; trivial
      split
      · next hnone => exact ⟨hat, hnone⟩
      · next hsome => exact ⟨hat, hsome⟩
  | create =>
      simp only [getInstance, hpc, Option.some.injEq, Prod.mk.injEq] at hturn
      obtain ⟨rfl, rfl⟩ := hturn
      rw [hpc] at hat
      have hin : (c.locals t).Inside := by rw [hpc]; trivial
      have hmade : c.shared.made = 0 := by
        rcases h.one with hone | hone
        · exact hone.2
        · rw [hat.2] at hone
          cases hone.1
      refine h.next ⟨hat.1, by simp⟩ (fun u hu => ?_) (fun _ => h.outside_of_inside hin) ?_
      · exact (h.at_pc u).mono (h.outside_of_inside hin u hu) fun _ => by simp
      · exact .inr (by simp [hmade])
  | mutexUnlock =>
      simp only [getInstance, hpc, Option.some.injEq, Prod.mk.injEq] at hturn
      obtain ⟨rfl, rfl⟩ := hturn
      rw [hpc] at hat
      have hin : (c.locals t).Inside := by rw [hpc]; trivial
      refine h.next hat.2 (fun u hu => ?_) (fun hin' => hin'.elim) h.one
      exact (h.at_pc u).mono (h.outside_of_inside hin u hu) id
  | load =>
      simp only [getInstance, hpc, Option.some.injEq, Prod.mk.injEq] at hturn
      obtain ⟨rfl, rfl⟩ := hturn
      rw [hpc] at hat
      refine h.next_same ⟨?_, hat⟩ False.elim
      rcases h.one with hone | hone
      · exact absurd hone.1 hat
      · exact hone.1
  | done r => simp [getInstance, hpc] at hturn

end Exclusive

/-- **One object**: in every interleaving in which no thread initialises the lock while it is
held, at most one object is made, and all calls that return, return that one. -/
theorem instance_agrees (sched : List Tid)
    (h : Along getInstance Undisturbed (start : Config Tid Pc Statics) sched) :
    (start.run getInstance sched).shared.made ≤ 1 ∧
      ∀ t r, (start.run getInstance sched).locals t = .done r →
        r = some 0 ∧ (start.run getInstance sched).shared.made = 1 := by
  have hexcl : Exclusive (start.run getInstance sched) :=
    h.keeps exclusive_start fun c t l m hI hok hturn => hI.step hok hturn
  have hone := hexcl.one
  refine ⟨?_, fun t r hr => ?_⟩
  · rcases hone with hone | hone <;> omega
  · have hat := hexcl.at_pc t
    rw [hr] at hat
    refine ⟨hat.1, ?_⟩
    rcases hone with hone | hone
    · exact absurd hone.1 hat.2
    · exact hone.2

/-- The second thread asks while the first one is about to let the lock go. -/
theorem instance_agrees_two :
    Along getInstance Undisturbed start [0, 0, 0, 0, 0, 1, 1, 0, 0] ∧
      (start.run getInstance [0, 0, 0, 0, 0, 1, 1, 0, 0]).shared.made = 1 := by
  have hok : Along getInstance Undisturbed start [0, 0, 0, 0, 0, 1, 1, 0, 0] := by
    simp [Along, Undisturbed, Config.step, getInstance, start]
  exact ⟨hok, ((instance_agrees _ hok).2 1 (some 0) rfl).2⟩

/-! ## An object each -/

variable {f : Tid → Pc} {t : Tid}

/-- A thread goes from its first look at `m_instance` to the allocation, whoever holds the
lock. -/
theorem run_enter (ht : f t = .check) (held : Bool) :
    (⟨f, ⟨none, held, 0⟩⟩ : Config Tid Pc Statics).run getInstance [t, t, t, t] =
      ⟨Function.update f t .create, ⟨none, true, 0⟩⟩ := by
  simp [Config.run, Config.step, getInstance, ht]

/-- From the allocation to the result, whatever `m_instance` is by now. -/
theorem run_leave (ht : f t = .create) (i : Option Nat) (held : Bool) (made : Nat) :
    (⟨f, ⟨i, held, made⟩⟩ : Config Tid Pc Statics).run getInstance [t, t, t] =
      ⟨Function.update f t (.done (some made)), ⟨some made, false, made + 1⟩⟩ := by
  simp [Config.run, Config.step, getInstance, ht]

/-- Each of the first `n` threads up to the allocation. -/
def enterAll (n : Nat) : List Nat := (List.range n).flatMap fun t => [t, t, t, t]

/-- Each of the first `n` threads from the allocation on. -/
def leaveAll (n : Nat) : List Nat := (List.range n).flatMap fun t => [t, t, t]

theorem run_enterAll (n : Nat) :
    start.run getInstance (enterAll n) =
      ⟨fun t => if t < n then .create else .check, ⟨none, decide (0 < n), 0⟩⟩ := by
  induction n with
  | zero => simp [enterAll, Config.run, start]
  | succ n ih =>
      have hsplit : enterAll (n + 1) = enterAll n ++ [n, n, n, n] := by
        simp [enterAll, List.range_succ]
      rw [hsplit, run_append, ih, run_enter (by simp)]
      congr 1
      · funext t
        by_cases ht : t = n
        · simp [ht]
        · rw [Function.update_of_ne ht]
          grind

theorem run_leaveAll {f : Nat → Pc} (n : Nat) (hf : ∀ t, t < n → f t = .create) (held : Bool) :
    ((⟨f, ⟨none, held, 0⟩⟩ : Config Nat Pc Statics).run getInstance (leaveAll n)).shared.made = n ∧
      ∀ t, ((⟨f, ⟨none, held, 0⟩⟩ : Config Nat Pc Statics).run getInstance (leaveAll n)).locals t =
        if t < n then .done (some t) else f t := by
  induction n with
  | zero => simp [leaveAll, Config.run]
  | succ n ih =>
      have hsplit : leaveAll (n + 1) = leaveAll n ++ [n, n, n] := by
        simp [leaveAll, List.range_succ]
      obtain ⟨hmade, hlocals⟩ := ih fun t ht => hf t (by omega)
      have hn := hlocals n
      rw [if_neg (Nat.lt_irrefl n), hf n (by omega)] at hn
      rw [hsplit, run_append]
      generalize Config.run getInstance ⟨f, ⟨none, held, 0⟩⟩ (leaveAll n) = c at *
      obtain ⟨locals, i, held', made⟩ := c
      rw [run_leave hn]
      simp only at hmade hlocals
      refine ⟨by rw [hmade], fun t => ?_⟩
      by_cases ht : t = n
      · simp [ht, hmade]
      · have hlt : t < n + 1 ↔ t < n := by omega
        simp only [Function.update_of_ne ht, hlt]
        exact hlocals t

/-- **An object each**: for every number of threads there is an interleaving in which each of
them makes an object of its own and returns it. -/
theorem instance_diverges (n : Nat) :
    ∃ sched : List Nat, (start.run getInstance sched).shared.made = n ∧
      ∀ t, t < n → (start.run getInstance sched).locals t = .done (some t) := by
  refine ⟨enterAll n ++ leaveAll n, ?_⟩
  rw [run_append, run_enterAll]
  obtain ⟨hmade, hlocals⟩ := run_leaveAll (f := fun t => if t < n then .create else .check) n
    (fun t ht => by simp [ht]) (decide (0 < n))
  refine ⟨hmade, fun t ht => ?_⟩
  rw [hlocals, if_pos ht]

end Singleton

end GEngine
