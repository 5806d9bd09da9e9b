import Mathlib.Logic.Function.Basic

/-!
# GEngine.Interleave

Threads that run the same program over shared memory, one step at a time and in any order.

A schedule is the list of the threads whose turn it is.  What every step keeps, under a
condition on the turns, holds along every schedule that meets the condition
(`Along.keeps`).
-/

namespace GEngine

namespace Interleave

variable {Tid Local Shared : Type}

/-- Where each thread is, and what they share. -/
structure Config (Tid Local Shared : Type) where
  locals : Tid → Local
  shared : Shared

/-- What a thread does next; `none` if it has to wait, or is through. -/
abbrev Program (Local Shared : Type) := Local → Shared → Option (Local × Shared)

variable [DecidableEq Tid] {P : Program Local Shared} {c : Config Tid Local Shared} {t u : Tid}

/-- It is the turn of thread `t`. -/
def Config.step (P : Program Local Shared) (c : Config Tid Local Shared) (t : Tid) :
    Config Tid Local Shared :=
  match P (c.locals t) c.shared with
  | none => c
  | some (l, m) => ⟨Function.update c.locals t l, m⟩

/-- A schedule. -/
def Config.run (P : Program Local Shared) (c : Config Tid Local Shared) (sched : List Tid) :
    Config Tid Local Shared :=
  sched.foldl (Config.step P) c

theorem run_append (sched sched' : List Tid) :
    c.run P (sched ++ sched') = (c.run P sched).run P sched' :=
  List.foldl_append

/-- A turn of a thread that can go on. -/
theorem step_eq {l : Local} {m : Shared} (h : P (c.locals t) c.shared = some (l, m)) :
    c.step P t = ⟨Function.update c.locals t l, m⟩ := by
  simp [Config.step, h]

/-- Every turn of the schedule meets a condition. -/
def Along (P : Program Local Shared) (ok : Config Tid Local Shared → Tid → Prop) :
    Config Tid Local Shared → List Tid → Prop
  | _, [] => True
  | c, t :: sched => ok c t ∧ Along P ok (c.step P t) sched

/-- The invariant rule. -/
theorem Along.keeps {ok : Config Tid Local Shared → Tid → Prop}
    {I : Config Tid Local Shared → Prop} {sched : List Tid} (h : Along P ok c sched) (hI : I c)
    (hstep : ∀ c t l m, I c → ok c t → P (c.locals t) c.shared = some (l, m) →
      I ⟨Function.update c.locals t l, m⟩) : I (c.run P sched) := by
  induction sched generalizing c with
  | nil => exact hI
  | cons t sched ih =>
      refine ih h.2 ?_
      cases hturn : P (c.locals t) c.shared with
      | none => simpa [Config.step, hturn] using hI
      | some next =>
          rw [step_eq hturn]
          exact hstep c t _ _ hI h.1 hturn

end Interleave

end GEngine
