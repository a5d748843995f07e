import Mathlib.Data.List.Basic
import Mathlib.Logic.Relation

/-!
# Programs that can be cut at any step

A sequential program that works on outside state — files, a saved record — meets
three things a pure function does not: an operation fails, the surroundings
change between two operations, and the process dies. `Prog` is a program whose
every outside operation takes one event off a script, and the script says all
three: the event carries what the surroundings did and how the operation ended,
and an empty script means that the process stopped there.

A script is an arbitrary finite list, so the states a program leaves on all
scripts are the states it passes through on all runs, in every order of
failures. A property of every step is then a property of every outcome.

Two judgements are made of programs. `Moves r m` says that `m` changes the state
by steps of `r` only, however it ends; it is what one proves of the many
programs whose results do not matter. `Holds C P m Q R` is the Hoare triple: from
`P`, the program ends in `Q` where it returns, in `R` where it raises and in the
crash condition `C` where it is cut. The rules of both follow the constructors,
with one invariant rule for `loop`, the unbounded `while True`, and
`Moves.holds` turns the first judgement into the second for every predicate that
a step of `r` keeps.
-/

namespace Crash

variable {E S X A B : Type}

/-- How a program ended on a script: it returned, it raised, or the script was
used up and the process is taken to have stopped there. -/
inductive Outcome (X A : Type) where
  | done (a : A)
  | raised (x : X)
  | cut
  deriving Repr, DecidableEq

/-- An outcome, the events not used and the state left behind. -/
structure Res (E S X A : Type) where
  out : Outcome X A
  rest : List E
  st : S

/-- A program over events `E`, states `S` and exceptions `X`. -/
def Prog (E S X A : Type) : Type := List E → S → Res E S X A

namespace Prog

/-- Return without an operation. -/
def ret (a : A) : Prog E S X A := fun es s => ⟨.done a, es, s⟩

/-- Sequencing: an exception or a cut ends the whole. -/
def andThen (m : Prog E S X A) (k : A → Prog E S X B) : Prog E S X B := fun es s =>
  match m es s with
  | ⟨.done a, es', s'⟩ => k a es' s'
  | ⟨.raised x, es', s'⟩ => ⟨.raised x, es', s'⟩
  | ⟨.cut, es', s'⟩ => ⟨.cut, es', s'⟩

instance : Monad (Prog E S X) where
  pure := ret
  bind := andThen

/-- One outside operation: the next event decides its result and its effect. -/
def act (f : E → S → Except X A × S) : Prog E S X A := fun es s =>
  match es with
  | [] => ⟨.cut, [], s⟩
  | e :: es' =>
    match f e s with
    | (.ok a, s') => ⟨.done a, es', s'⟩
    | (.error x, s') => ⟨.raised x, es', s'⟩

/-- Read the state without an operation: a variable of the process. -/
def read (f : S → A) : Prog E S X A := fun es s => ⟨.done (f s), es, s⟩

/-- Assign to a variable of the process. -/
def assign (f : S → S) : Prog E S X Unit := fun es s => ⟨.done (), es, f s⟩

/-- Raise an exception. -/
def raise (x : X) : Prog E S X A := fun es s => ⟨.raised x, es, s⟩

/-- Handle the exceptions of `m`; a cut cannot be handled. -/
def handle (m : Prog E S X A) (h : X → Prog E S X A) : Prog E S X A := fun es s =>
  match m es s with
  | ⟨.done a, es', s'⟩ => ⟨.done a, es', s'⟩
  | ⟨.raised x, es', s'⟩ => h x es' s'
  | ⟨.cut, es', s'⟩ => ⟨.cut, es', s'⟩

/-- At most `n` passes of a loop whose every pass takes one event for itself. -/
def loopN (f : E → S → S) (body : B → Prog E S X (B ⊕ A)) : ℕ → B → Prog E S X A
  | 0, _ => fun es s => ⟨.cut, es, s⟩
  | n + 1, b => fun es s =>
    match es with
    | [] => ⟨.cut, [], s⟩
    | e :: es' =>
      match body b es' (f e s) with
      | ⟨.done (.inl b'), es'', s'⟩ => loopN f body n b' es'' s'
      | ⟨.done (.inr a), es'', s'⟩ => ⟨.done a, es'', s'⟩
      | ⟨.raised x, es'', s'⟩ => ⟨.raised x, es'', s'⟩
      | ⟨.cut, es'', s'⟩ => ⟨.cut, es'', s'⟩

/-- `while True`: a pass that answers `inl` goes round again, one that answers
`inr` leaves the loop. Every pass takes an event of its own, whose effect on the
surroundings is `f`, so the length of the script bounds the passes. -/
def loop (f : E → S → S) (body : B → Prog E S X (B ⊕ A)) (b : B) : Prog E S X A :=
  fun es s => loopN f body es.length b es s

end Prog

/-! ### The crash Hoare triple -/

open Prog

/-- From `P`, on every script, `m` ends in `Q` where it returns, in `R` where it
raises and in `C` where it is cut. -/
def Holds (C P : S → Prop) (m : Prog E S X A) (Q : A → S → Prop) (R : X → S → Prop) : Prop :=
  ∀ es s, P s →
    match m es s with
    | ⟨.done a, _, s'⟩ => Q a s'
    | ⟨.raised x, _, s'⟩ => R x s'
    | ⟨.cut, _, s'⟩ => C s'

section Rules

variable {C C' P P' : S → Prop} {Q Q' : A → S → Prop} {R R' : X → S → Prop}
variable {m : Prog E S X A}

/-- Consequence. -/
theorem Holds.conseq (h : Holds C P m Q R) (hP : ∀ s, P' s → P s)
    (hQ : ∀ a s, Q a s → Q' a s) (hR : ∀ x s, R x s → R' x s) (hC : ∀ s, C s → C' s) :
    Holds C' P' m Q' R' := by
  intro es s hs
  have := h es s (hP s hs)
  revert this
  rcases m es s with ⟨out, es', s'⟩
  cases out with
  | done a => exact hQ a s'
  | raised x => exact hR x s'
  | cut => exact hC s'

theorem Holds.pre (h : Holds C P m Q R) (hP : ∀ s, P' s → P s) : Holds C P' m Q R :=
  h.conseq hP (fun _ _ => id) (fun _ _ => id) (fun _ => id)

theorem Holds.post (h : Holds C P m Q R) (hQ : ∀ a s, Q a s → Q' a s) : Holds C P m Q' R :=
  h.conseq (fun _ => id) hQ (fun _ _ => id) (fun _ => id)

/-- A fact about the state that holds before may be used as a hypothesis. -/
theorem Holds.of_pre (h : ∀ s, P s → Holds C (fun t => t = s) m Q R) : Holds C P m Q R :=
  fun es s hs => h s hs es s rfl

/-- Two judgements of one program hold together. -/
theorem Holds.and (h : Holds C P m Q R) (h' : Holds C' P' m Q' R') :
    Holds (fun s => C s ∧ C' s) (fun s => P s ∧ P' s) m (fun a s => Q a s ∧ Q' a s)
      (fun x s => R x s ∧ R' x s) := by
  intro es s hs
  have h₁ := h es s hs.1
  have h₂ := h' es s hs.2
  revert h₁ h₂
  rcases m es s with ⟨out, es', s'⟩
  cases out <;> exact fun h₁ h₂ => ⟨h₁, h₂⟩

theorem holds_top : Holds (fun _ => True) (fun _ => True) m (fun _ _ => True)
    (fun _ _ => True) := by
  intro es s _
  rcases m es s with ⟨out, es', s'⟩
  cases out <;> trivial

theorem Holds.pure_pre {p : Prop} (h : p → Holds C P m Q R) :
    Holds C (fun s => p ∧ P s) m Q R :=
  fun es s hs => h hs.1 es s hs.2

theorem holds_ret {a : A} (h : ∀ s, P s → Q a s) :
    Holds C P (pure a : Prog E S X A) Q R :=
  fun _ s hs => h s hs

theorem holds_bind {k : A → Prog E S X B} {Q₂ : B → S → Prop}
    (h₁ : Holds C P m Q R) (h₂ : ∀ a, Holds C (Q a) (k a) Q₂ R) :
    Holds C P (m >>= k) Q₂ R := by
  intro es s hs
  have h := h₁ es s hs
  change match (andThen m k) es s with
    | ⟨.done a, _, s'⟩ => Q₂ a s'
    | ⟨.raised x, _, s'⟩ => R x s'
    | ⟨.cut, _, s'⟩ => C s'
  unfold andThen
  revert h
  rcases m es s with ⟨out, es', s'⟩
  cases out with
  | done a => exact fun h => h₂ a es' s' h
  | raised x => exact id
  | cut => exact id

theorem holds_act {f : E → S → Except X A × S} (hC : ∀ s, P s → C s)
    (h : ∀ e s, P s → match f e s with
      | (.ok a, s') => Q a s'
      | (.error x, s') => R x s') : Holds C P (act f) Q R := by
  intro es s hs
  cases es with
  | nil => exact hC s hs
  | cons e es =>
    have := h e s hs
    revert this
    unfold act
    dsimp only
    rcases f e s with ⟨r, s'⟩
    cases r with
    | ok a => exact id
    | error x => exact id

theorem holds_read {f : S → A} (h : ∀ s, P s → Q (f s) s) :
    Holds C P (read f : Prog E S X A) Q R :=
  fun _ s hs => h s hs

theorem holds_assign {f : S → S} {Q : Unit → S → Prop} (h : ∀ s, P s → Q () (f s)) :
    Holds C P (assign f : Prog E S X Unit) Q R :=
  fun _ s hs => h s hs

theorem holds_raise {x : X} (h : ∀ s, P s → R x s) :
    Holds C P (raise x : Prog E S X A) Q R :=
  fun _ s hs => h s hs

theorem holds_handle {g : X → Prog E S X A} {M : X → S → Prop}
    (h₁ : Holds C P m Q M) (h₂ : ∀ x, Holds C (M x) (g x) Q R) :
    Holds C P (handle m g) Q R := by
  intro es s hs
  have h := h₁ es s hs
  revert h
  unfold handle
  rcases m es s with ⟨out, es', s'⟩
  cases out with
  | done a => exact id
  | raised x => exact fun h => h₂ x es' s' h
  | cut => exact id

theorem holds_ite {c : Prop} [Decidable c] {m' : Prog E S X A}
    (ht : c → Holds C P m Q R) (hf : ¬ c → Holds C P m' Q R) :
    Holds C P (if c then m else m') Q R := by
  split
  · next h => exact ht h
  · next h => exact hf h

/-- The invariant rule: `J b` holds whenever a pass begins with `b`, the event of
a pass keeps it, and a pass that goes round again restores it. -/
theorem holds_loop {f : E → S → S} {body : B → Prog E S X (B ⊕ A)} (J : B → S → Prop)
    (hC : ∀ b s, J b s → C s) (hf : ∀ b e s, J b s → J b (f e s))
    (hbody : ∀ b, Holds C (J b) (body b)
      (fun r s => match r with | .inl b' => J b' s | .inr a => Q a s) R) (b : B) :
    Holds C (J b) (loop f body b) Q R := by
  have key : ∀ n b es s, J b s → match loopN f body n b es s with
      | ⟨.done a, _, s'⟩ => Q a s'
      | ⟨.raised x, _, s'⟩ => R x s'
      | ⟨.cut, _, s'⟩ => C s' := by
    intro n
    induction n with
    | zero => exact fun b _ s hs => hC b s hs
    | succ n ih =>
      intro b es s hs
      cases es with
      | nil => exact hC b s hs
      | cons e es =>
        have h := hbody b es (f e s) (hf b e s hs)
        revert h
        simp only [loopN]
        rcases body b es (f e s) with ⟨out, es', s'⟩
        cases out with
        | done r =>
          cases r with
          | inl b' => exact fun h => ih b' es' s' h
          | inr a => exact id
        | raised x => exact id
        | cut => exact id
  exact fun es s hs => key es.length b es s hs

end Rules

/-! ### What a program may change -/

open Relation

/-- On every script, and however it ends, `m` changes the state by steps of `r`. -/
def Moves (r : S → S → Prop) (m : Prog E S X A) : Prop :=
  ∀ es s, ReflTransGen r s (m es s).st

section Moves

variable {r r' : S → S → Prop} {m : Prog E S X A}

/-- What the steps of `r` keep, `m` keeps. -/
theorem Moves.holds (h : Moves r m) {P : S → Prop} (hP : ∀ s s', r s s' → P s → P s') :
    Holds P P m (fun _ => P) (fun _ => P) := by
  intro es s hs
  have hstar : ∀ s', ReflTransGen r s s' → P s' := by
    intro s' hr
    induction hr with
    | refl => exact hs
    | tail _ hstep ih => exact hP _ _ hstep ih
  have := hstar _ (h es s)
  revert this
  rcases m es s with ⟨out, es', s'⟩
  cases out <;> exact id

theorem Moves.mono (h : Moves r m) (hr : ∀ s s', r s s' → r' s s') : Moves r' m :=
  fun es s => ReflTransGen.mono hr _ _ (h es s)

theorem moves_ret {a : A} : Moves r (pure a : Prog E S X A) := fun _ _ => .refl

theorem moves_read {f : S → A} : Moves r (read f : Prog E S X A) := fun _ _ => .refl

theorem moves_raise {x : X} : Moves r (raise x : Prog E S X A) := fun _ _ => .refl

theorem moves_assign {f : S → S} (h : ∀ s, ReflTransGen r s (f s)) :
    Moves r (assign f : Prog E S X Unit) :=
  fun _ s => h s

theorem moves_act {f : E → S → Except X A × S} (h : ∀ e s, ReflTransGen r s (f e s).2) :
    Moves r (act f) := by
  intro es s
  cases es with
  | nil => exact .refl
  | cons e es =>
    have := h e s
    revert this
    unfold act
    dsimp only
    rcases f e s with ⟨v, s'⟩
    cases v <;> exact id

theorem Moves.bind {k : A → Prog E S X B} (h₁ : Moves r m) (h₂ : ∀ a, Moves r (k a)) :
    Moves r (m >>= k) := by
  intro es s
  change ReflTransGen r s (andThen m k es s).st
  have h := h₁ es s
  unfold andThen
  revert h
  rcases m es s with ⟨out, es', s'⟩
  cases out with
  | done a => exact fun h => h.trans (h₂ a es' s')
  | raised x => exact id
  | cut => exact id

theorem Moves.handle {g : X → Prog E S X A} (h₁ : Moves r m) (h₂ : ∀ x, Moves r (g x)) :
    Moves r (handle m g) := by
  intro es s
  have h := h₁ es s
  unfold Prog.handle
  revert h
  rcases m es s with ⟨out, es', s'⟩
  cases out with
  | done a => exact id
  | raised x => exact fun h => h.trans (h₂ x es' s')
  | cut => exact id

theorem Moves.ite {c : Prop} [Decidable c] {m' : Prog E S X A} (ht : c → Moves r m)
    (hf : ¬ c → Moves r m') : Moves r (if c then m else m') := by
  split
  · next h => exact ht h
  · next h => exact hf h

theorem Moves.loop {f : E → S → S} {body : B → Prog E S X (B ⊕ A)}
    (hf : ∀ e s, ReflTransGen r s (f e s)) (hbody : ∀ b, Moves r (body b)) (b : B) :
    Moves r (loop f body b) := by
  have key : ∀ n b es s, ReflTransGen r s (loopN f body n b es s).st := by
    intro n
    induction n with
    | zero => exact fun _ _ _ => .refl
    | succ n ih =>
      intro b es s
      cases es with
      | nil => exact .refl
      | cons e es =>
        have h := (hf e s).trans (hbody b es (f e s))
        revert h
        simp only [loopN]
        rcases body b es (f e s) with ⟨out, es', s'⟩
        cases out with
        | done v =>
          cases v with
          | inl b' => exact fun h => h.trans (ih b' es' s')
          | inr a => exact id
        | raised x => exact id
        | cut => exact id
  exact fun es s => key es.length b es s

end Moves

end Crash
