import Mathlib.Logic.Relation

/-!
# GEngine.Effect

Pre- and postconditions for code that changes a state and may die in an
assertion.  Such code is an `EStateM` program: it either returns a value or dies
with the assertion that failed, and in both cases the state it has reached is
kept, so that what happened before the assertion can be talked about.

`Outcome x s Q E` says that `x`, started in the state `s`, either returns with `Q`
or dies with `E`, and `Spec P x Q E` says so for every state with `P`.  The rules
below take a `do` block apart statement by statement.

`Reaches R x s` says that `x`, started in `s`, only makes moves of the relation
`R`.  Once every program of a development is known to make only moves of one
relation, a property that each move keeps holds wherever a run gets to
(`moves_keep`).  Nothing in this module refers to the server.
-/

namespace GEngine

/-! ## Running a sequence -/

/-- A sequence whose first statement returns goes on with the second one. -/
theorem bind_of_ok {x : EStateM ε σ α} {f : α → EStateM ε σ β} (h : x s = .ok a t) :
    (x >>= f) s = f a t := by
  change EStateM.bind x f s = _
  rw [EStateM.bind, h]

/-- A sequence whose first statement dies goes no further. -/
theorem bind_of_error {x : EStateM ε σ α} {f : α → EStateM ε σ β} (h : x s = .error e t) :
    (x >>= f) s = .error e t := by
  change EStateM.bind x f s = _
  rw [EStateM.bind, h]

/-- A sequence goes on in the same way where its first statement ends in the same way. -/
theorem bind_of_eq {x y : EStateM ε σ α} {f : α → EStateM ε σ β} (h : x s = y t) :
    (x >>= f) s = (y >>= f) t := by
  change EStateM.bind x f s = EStateM.bind y f t
  rw [EStateM.bind, EStateM.bind, h]

/-- A sequence that returns has returned from both statements. -/
theorem bind_eq_ok {x : EStateM ε σ α} {f : α → EStateM ε σ β} (h : (x >>= f) s = .ok b u) :
    ∃ a t, x s = .ok a t ∧ f a t = .ok b u := by
  change EStateM.bind x f s = _ at h
  unfold EStateM.bind at h
  cases hx : x s with
  | ok a t => rw [hx] at h; exact ⟨a, t, rfl, h⟩
  | error e t => rw [hx] at h; contradiction

/-- A statement whose value is not used. -/
theorem discard_of_ok {x : EStateM ε σ α} (h : x s = .ok a t) : discard x s = .ok ⟨⟩ t := by
  change EStateM.map (Function.const α PUnit.unit) x s = _
  rw [EStateM.map, h]

theorem discard_of_error {x : EStateM ε σ α} (h : x s = .error e t) :
    discard x s = .error e t := by
  change EStateM.map (Function.const α PUnit.unit) x s = _
  rw [EStateM.map, h]

/-! ## Pre- and postconditions -/

/-- Started in `s`, the program `x` returns with `Q` or dies with `E`. -/
def Outcome (x : EStateM ε σ α) (s : σ) (Q : α → σ → Prop) (E : ε → σ → Prop) : Prop :=
  match x s with
  | .ok a s' => Q a s'
  | .error e s' => E e s'

namespace Outcome

variable {Q : α → σ → Prop} {E : ε → σ → Prop}

/-- A program that returns. -/
theorem of_ok {x : EStateM ε σ α} (h : x s = .ok a t) (hq : Q a t) : Outcome x s Q E := by
  rw [Outcome, h]
  exact hq

/-- A program that dies. -/
theorem of_error {x : EStateM ε σ α} (h : x s = .error e t) (he : E e t) :
    Outcome x s Q E := by
  rw [Outcome, h]
  exact he

/-- Running the program in another way. -/
theorem of_eq {x y : EStateM ε σ α} (h : x s = y t) (hy : Outcome y t Q E) :
    Outcome x s Q E := by
  rw [Outcome, h]
  exact hy

/-- What is known when the program has returned. -/
theorem ok {x : EStateM ε σ α} (hx : Outcome x s Q E) (h : x s = .ok a t) : Q a t := by
  rw [Outcome, h] at hx
  exact hx

/-- What is known when the program has died. -/
theorem error {x : EStateM ε σ α} (hx : Outcome x s Q E) (h : x s = .error e t) : E e t := by
  rw [Outcome, h] at hx
  exact hx

/-- Consequence, where the return is known. -/
theorem imp {Q' : α → σ → Prop} {E' : ε → σ → Prop} {x : EStateM ε σ α} (hx : Outcome x s Q E)
    (hQ : ∀ a t, x s = .ok a t → Q a t → Q' a t) (hE : ∀ e t, E e t → E' e t) :
    Outcome x s Q' E' := by
  cases h : x s with
  | ok a t => exact of_ok h (hQ a t h (hx.ok h))
  | error e t => exact of_error h (hE e t (hx.error h))

/-- Statements in sequence. -/
theorem bind {x : EStateM ε σ α} {f : α → EStateM ε σ β} {R : β → σ → Prop}
    (hx : Outcome x s Q E) (hf : ∀ a t, Q a t → Outcome (f a) t R E) :
    Outcome (x >>= f) s R E := by
  cases h : x s with
  | ok a t => exact of_eq (bind_of_ok h) (hf a t (hx.ok h))
  | error e t => exact of_error (bind_of_error h) (hx.error h)

/-- A statement whose value is not used. -/
theorem discard {P : σ → Prop} {x : EStateM ε σ α} (hx : Outcome x s (fun _ => P) E) :
    Outcome (discard x) s (fun _ => P) E := by
  cases h : x s with
  | ok a t => exact of_ok (discard_of_ok h) (hx.ok h)
  | error e t => exact of_error (discard_of_error h) (hx.error h)

end Outcome

/-- From every state with `P`, the program `x` returns with `Q` or dies with
`E`. -/
def Spec (P : σ → Prop) (x : EStateM ε σ α) (Q : α → σ → Prop) (E : ε → σ → Prop) : Prop :=
  ∀ s, P s → Outcome x s Q E

namespace Spec

/-- A program that dies has its exceptional postcondition. -/
theorem error {P : σ → Prop} {x : EStateM ε σ α} {Q : α → σ → Prop} {E : ε → σ → Prop}
    (h : Spec P x Q E) (hp : P s) (hx : x s = .error e s') : E e s' :=
  (h s hp).error hx

/-- Consequence. -/
theorem conseq {P P' : σ → Prop} {x : EStateM ε σ α} {Q Q' : α → σ → Prop}
    {E E' : ε → σ → Prop} (h : Spec P x Q E) (hP : ∀ s, P' s → P s)
    (hQ : ∀ a s, Q a s → Q' a s) (hE : ∀ e s, E e s → E' e s) : Spec P' x Q' E' :=
  fun s hs => (h s (hP s hs)).imp (fun a t _ => hQ a t) hE

/-- `pure` does nothing. -/
theorem pure {P : σ → Prop} {Q : α → σ → Prop} {E : ε → σ → Prop} (a : α)
    (h : ∀ s, P s → Q a s) : Spec P (Pure.pure a : EStateM ε σ α) Q E :=
  fun s hs => h s hs

/-- Statements in sequence. -/
theorem bind {P : σ → Prop} {x : EStateM ε σ α} {Q : α → σ → Prop} {f : α → EStateM ε σ β}
    {R : β → σ → Prop} {E : ε → σ → Prop} (hx : Spec P x Q E)
    (hf : ∀ a, Spec (Q a) (f a) R E) : Spec P (x >>= f) R E :=
  fun s hs => (hx s hs).bind fun a t ht => hf a t ht

/-- Reading the state. -/
theorem get {P : σ → Prop} {Q : σ → σ → Prop} {E : ε → σ → Prop}
    (h : ∀ s, P s → Q s s) : Spec P (MonadState.get : EStateM ε σ σ) Q E :=
  fun s hs => h s hs

/-- Changing the state. -/
theorem modify {P : σ → Prop} {Q : Unit → σ → Prop} {E : ε → σ → Prop} {f : σ → σ}
    (h : ∀ s, P s → Q () (f s)) : Spec P (modify f : EStateM ε σ Unit) Q E :=
  fun s hs => h s hs

/-- Dying. -/
theorem throw {P : σ → Prop} {Q : α → σ → Prop} {E : ε → σ → Prop} {e : ε}
    (h : ∀ s, P s → E e s) : Spec P (MonadExcept.throw e : EStateM ε σ α) Q E :=
  fun s hs => h s hs

/-- A branch on a condition. -/
theorem ite {P : σ → Prop} {Q : α → σ → Prop} {E : ε → σ → Prop} {c : Prop} [Decidable c]
    {x y : EStateM ε σ α} (hx : c → Spec P x Q E) (hy : ¬ c → Spec P y Q E) :
    Spec P (if c then x else y) Q E := by
  by_cases h : c
  · rw [if_pos h]; exact hx h
  · rw [if_neg h]; exact hy h

end Spec

/-! ## Programs that always return -/

/-- The program `x` never dies, and the state it returns in is related by `R` to
the one it was started in. -/
def Returns (R : σ → σ → Prop) (x : EStateM ε σ α) : Prop :=
  ∀ s, ∃ a t, x s = .ok a t ∧ R s t

namespace Returns

variable {R : σ → σ → Prop}

/-- `pure` does nothing. -/
theorem pure [Std.Refl R] (a : α) : Returns R (Pure.pure a : EStateM ε σ α) :=
  fun s => ⟨a, s, rfl, Std.Refl.refl s⟩

/-- A change of the state. -/
theorem modify {f : σ → σ} (h : ∀ s, R s (f s)) : Returns R (modify f : EStateM ε σ Unit) :=
  fun s => ⟨(), f s, rfl, h s⟩

/-- Statements in sequence. -/
theorem bind [IsTrans σ R] {x : EStateM ε σ α} {f : α → EStateM ε σ β} (hx : Returns R x)
    (hf : ∀ a, Returns R (f a)) : Returns R (x >>= f) := by
  intro s
  obtain ⟨a, t, hxs, hst⟩ := hx s
  obtain ⟨b, u, hft, htu⟩ := hf a t
  refine ⟨b, u, ?_, IsTrans.trans _ _ _ hst htu⟩
  change EStateM.bind x f s = _
  rw [EStateM.bind, hxs]
  exact hft

/-- A branch on a condition. -/
theorem ite {c : Prop} [Decidable c] {x y : EStateM ε σ α} (hx : Returns R x)
    (hy : Returns R y) : Returns R (if c then x else y) := by
  by_cases h : c
  · rw [if_pos h]; exact hx
  · rw [if_neg h]; exact hy

/-- What is known of the state when the program has returned. -/
theorem ok {x : EStateM ε σ α} (hx : Returns R x) (h : x s = .ok a t) : R s t := by
  obtain ⟨b, u, hu, hR⟩ := hx s
  rw [h] at hu
  cases hu
  exact hR

end Returns

/-! ## Moves -/

/-- The state a program ends in, whether it returns or dies. -/
def endState : EStateM.Result ε σ α → σ
  | .ok _ s => s
  | .error _ s => s

/-- Started in `s`, the program `x` ends after finitely many moves of `R`. -/
def Reaches (R : σ → σ → Prop) (x : EStateM ε σ α) (s : σ) : Prop :=
  Relation.ReflTransGen R s (endState (x s))

/-- What every move keeps, any number of moves keeps. -/
theorem moves_keep {R : σ → σ → Prop} {I : σ → Prop} (hstep : ∀ s t, R s t → I s → I t)
    (h : Relation.ReflTransGen R s t) (hs : I s) : I t := by
  induction h with
  | refl => exact hs
  | tail _ hmove ih => exact hstep _ _ hmove ih

namespace Reaches

variable {R : σ → σ → Prop}

/-- `pure` makes no move. -/
theorem pure (a : α) (s : σ) : Reaches R (Pure.pure a : EStateM ε σ α) s :=
  Relation.ReflTransGen.refl

/-- Dying makes no move. -/
theorem throw (e : ε) (s : σ) : Reaches R (MonadExcept.throw e : EStateM ε σ α) s :=
  Relation.ReflTransGen.refl

/-- A change of the state that is a move. -/
theorem modify {f : σ → σ} {s : σ} (h : R s (f s)) :
    Reaches R (modify f : EStateM ε σ Unit) s :=
  Relation.ReflTransGen.single h

/-- Statements in sequence; the second one is started where the first one
returned. -/
theorem bind {x : EStateM ε σ α} {f : α → EStateM ε σ β} {s : σ} (hx : Reaches R x s)
    (hf : ∀ a s', x s = .ok a s' → Reaches R (f a) s') : Reaches R (x >>= f) s := by
  unfold Reaches at hx ⊢
  change Relation.ReflTransGen R s (endState (EStateM.bind x f s))
  unfold EStateM.bind
  cases hr : x s with
  | ok a s' =>
      rw [hr] at hx
      exact hx.trans (hf a s' hr)
  | error e s' =>
      rw [hr] at hx
      exact hx

/-- A statement whose value is not used. -/
theorem discard {x : EStateM ε σ α} {s : σ} (hx : Reaches R x s) :
    Reaches R (discard x) s := by
  unfold Reaches at hx ⊢
  change Relation.ReflTransGen R s (endState (EStateM.map (Function.const α PUnit.unit) x s))
  unfold EStateM.map
  cases hr : x s with
  | ok a s' => rw [hr] at hx; exact hx
  | error e s' => rw [hr] at hx; exact hx

/-- A branch on a condition. -/
theorem ite {c : Prop} [Decidable c] {x y : EStateM ε σ α} {s : σ} (hx : c → Reaches R x s)
    (hy : ¬ c → Reaches R y s) : Reaches R (if c then x else y) s := by
  by_cases h : c
  · rw [if_pos h]; exact hx h
  · rw [if_neg h]; exact hy h

end Reaches

end GEngine
