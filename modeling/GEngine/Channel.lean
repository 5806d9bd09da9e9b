import Mathlib.Data.List.Infix
import Mathlib.Logic.Function.Basic

/-!
# GEngine.Channel

What is taken out of a channel into which messages are put, in any interleaving of the
two.  A `fifo` hands out the messages in order.  A `slot` keeps the count of what was put
and the latest message only: every `take` finds that one.

Both have the same interface, so code that was meant to be the first and is the second is
right on some interleavings.  `Undisturbed` says which: `slot_eq_fifo_iff`, and for byte
streams, where only the concatenation can be seen, `flatMap_slot_eq_iff`.
-/

namespace GEngine

/-- The operations on a channel. -/
inductive ChannelOp (α : Type)
  | put (x : α)
  | take
  deriving DecidableEq, Repr

namespace ChannelOp

variable {α β : Type}

/-- The messages that are put. -/
def puts : List (ChannelOp α) → List α
  | [] => []
  | .put x :: ops => x :: puts ops
  | .take :: ops => puts ops

/-- What a queue that holds `q` hands out. -/
def fifo : List α → List (ChannelOp α) → List α
  | _, [] => []
  | q, .put x :: ops => fifo (q ++ [x]) ops
  | [], .take :: ops => fifo [] ops
  | x :: q, .take :: ops => x :: fifo q ops

/-- What a slot hands out into which the messages `q` were put and not yet taken. -/
def slot : List α → List (ChannelOp α) → List α
  | _, [] => []
  | q, .put x :: ops => slot (q ++ [x]) ops
  | [], .take :: ops => slot [] ops
  | x :: q, .take :: ops => q.getLast?.getD x :: slot q ops

/-- Every `take` comes when the latest message is the oldest one that was not taken, or
equal to it. -/
def Undisturbed : List α → List (ChannelOp α) → Prop
  | _, [] => True
  | q, .put x :: ops => Undisturbed (q ++ [x]) ops
  | [], .take :: ops => Undisturbed [] ops
  | x :: q, .take :: ops => q.getLast?.getD x = x ∧ Undisturbed q ops

/-- How many messages are still to be taken. -/
def left : Nat → List (ChannelOp α) → Nat
  | n, [] => n
  | n, .put _ :: ops => left (n + 1) ops
  | n, .take :: ops => left (n - 1) ops

/-- A slot is as good as a queue exactly when nothing is disturbed. -/
theorem slot_eq_fifo_iff (q : List α) (ops : List (ChannelOp α)) :
    slot q ops = fifo q ops ↔ Undisturbed q ops := by
  induction q, ops using fifo.induct with
  | case1 q => simp [slot, fifo, Undisturbed]
  | case2 q x ops ih => simpa [slot, fifo, Undisturbed] using ih
  | case3 ops ih => simpa [slot, fifo, Undisturbed] using ih
  | case4 x q ops ih => simp [slot, fifo, Undisturbed, ih]

theorem left_le (n : Nat) (ops : List (ChannelOp α)) : left n ops ≤ n + (puts ops).length := by
  induction ops generalizing n with
  | nil => simp [left, puts]
  | cons op ops ih =>
      cases op with
      | put x =>
          have := ih (n + 1)
          simp only [left, puts, List.length_cons]
          omega
      | take =>
          have := ih (n - 1)
          simp only [left, puts]
          omega

/-- A queue hands out what it held and what was put, in order, but for what is left. -/
theorem fifo_eq_take (q : List α) (ops : List (ChannelOp α)) :
    fifo q ops = (q ++ puts ops).take ((q ++ puts ops).length - left q.length ops) := by
  induction q, ops using fifo.induct with
  | case1 q => simp [fifo, puts, left]
  | case2 q x ops ih => simpa [fifo, puts, left] using ih
  | case3 ops ih => simpa [fifo, puts, left] using ih
  | case4 x q ops ih =>
      have hle := left_le q.length ops
      simp only [fifo, puts, left, List.cons_append, List.length_cons, List.length_append,
        Nat.add_sub_cancel] at ih ⊢
      rw [Nat.sub_add_comm hle, List.take_succ_cons, ih]

theorem undisturbed_before {q : List α} {ops before : List (ChannelOp α)}
    (h : Undisturbed q ops) (hpre : before <+: ops) : Undisturbed q before := by
  obtain ⟨rest, rfl⟩ := hpre
  induction q, before using fifo.induct with
  | case1 q => simp [Undisturbed]
  | case2 q x before ih => simpa [Undisturbed] using ih (by simpa [Undisturbed] using h)
  | case3 before ih => simpa [Undisturbed] using ih (by simpa [Undisturbed] using h)
  | case4 x q before ih =>
      simp only [List.cons_append, Undisturbed] at h ⊢
      exact ⟨h.1, ih h.2⟩

/-- Where only the concatenation of the messages can be seen, it is right all along
exactly when nothing is disturbed. -/
theorem flatMap_slot_eq_iff {f : α → List β} (hf : Function.Injective f) (q : List α)
    (ops : List (ChannelOp α)) :
    (∀ before, before <+: ops → (slot q before).flatMap f = (fifo q before).flatMap f) ↔
      Undisturbed q ops := by
  constructor
  · intro h
    induction q, ops using fifo.induct with
    | case1 q => simp [Undisturbed]
    | case2 q x ops ih =>
        refine ih fun before hpre => ?_
        simpa [slot, fifo] using h (.put x :: before) (List.cons_prefix_cons.mpr ⟨rfl, hpre⟩)
    | case3 ops ih =>
        refine ih fun before hpre => ?_
        simpa [slot, fifo] using h (.take :: before) (List.cons_prefix_cons.mpr ⟨rfl, hpre⟩)
    | case4 x q ops ih =>
        have hfirst := h [.take] (List.cons_prefix_cons.mpr ⟨rfl, List.nil_prefix⟩)
        simp only [slot, fifo, List.flatMap_cons, List.flatMap_nil, List.append_nil] at hfirst
        have hx : q.getLast?.getD x = x := hf hfirst
        refine ⟨hx, ih fun before hpre => ?_⟩
        have hrest := h (.take :: before) (List.cons_prefix_cons.mpr ⟨rfl, hpre⟩)
        simpa [slot, fifo, hx] using hrest
  · intro h before hpre
    rw [(slot_eq_fifo_iff q before).mpr (undisturbed_before h hpre)]

end ChannelOp

end GEngine
