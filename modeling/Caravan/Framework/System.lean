import Mathlib.Tactic.Common

/-!
# Runs of a system

A `System` is a set of initial states and a labelled step relation; the label of a step
is what a condition on runs may speak of. `Reach M ok s` says that a run whose steps all
meet `ok` ends in `s`; `ok` is read at the state before the step.

An invariant is proved once for the initial states and once for a step
(`Reach.invariant`). A second invariant may lean on a first one that is already known to
hold in every state of the run (`Reach.invariant_of`).
-/

/-- Initial states and labelled steps. -/
structure System (σ ε : Type*) where
  init : σ → Prop
  step : σ → ε → σ → Prop

namespace System

variable {σ ε : Type*} {M : System σ ε} {ok ok' : σ → ε → Prop}

/-- The states of the runs whose steps all meet a condition. -/
inductive Reach (M : System σ ε) (ok : σ → ε → Prop) : σ → Prop
  | init {s : σ} : M.init s → Reach M ok s
  | step {s : σ} {e : ε} {s' : σ} : Reach M ok s → ok s e → M.step s e s' → Reach M ok s'

/-- A run one step longer, the step named first. -/
theorem Reach.next {s s' : σ} {e : ε} (h : Reach M ok s) (hstep : M.step s e s')
    (hok : ok s e) : Reach M ok s' := h.step hok hstep

/-- Every step is free to be taken. -/
abbrev Reachable (M : System σ ε) : σ → Prop := Reach M fun _ _ => True

/-- **The induction on runs.** What holds at the start and is kept by every step that
meets the condition holds in every state of such a run. -/
theorem Reach.invariant {I : σ → Prop} (h₀ : ∀ s, M.init s → I s)
    (hs : ∀ s e s', I s → ok s e → M.step s e s' → I s') {s : σ} (h : Reach M ok s) : I s := by
  induction h with
  | init h => exact h₀ _ h
  | step _ hok hstep ih => exact hs _ _ _ ih hok hstep

/-- The same induction for an invariant that leans on another one. -/
theorem Reach.invariant_of {I J : σ → Prop} (hJ : ∀ s, Reach M ok s → J s)
    (h₀ : ∀ s, M.init s → I s)
    (hs : ∀ s e s', J s → I s → ok s e → M.step s e s' → I s') {s : σ}
    (h : Reach M ok s) : I s := by
  induction h with
  | init h => exact h₀ _ h
  | step hr hok hstep ih => exact hs _ _ _ (hJ _ hr) ih hok hstep

theorem Reach.mono (hok : ∀ s e, ok s e → ok' s e) {s : σ} (h : Reach M ok s) :
    Reach M ok' s := by
  induction h with
  | init h => exact .init h
  | step _ he hstep ih => exact ih.step (hok _ _ he) hstep

/-- A run under a condition is a run. -/
theorem Reach.reachable {s : σ} (h : Reach M ok s) : Reachable M s := h.mono fun _ _ _ => trivial

/-! ### Runs by a script -/

/-- What a script leads to, where the state and the label decide the next state. -/
def follow (next : σ → ε → Option σ) (s : σ) : List ε → Option σ
  | [] => some s
  | e :: script => (next s e).bind fun t => follow next t script

/-- What a script leads to is reached, under a condition that its steps meet. -/
theorem Reach.follow {next : σ → ε → Option σ}
    (hM : ∀ s e s', next s e = some s' → M.step s e s') (script : List ε) {s s' : σ}
    (h : Reach M ok s) (hf : follow next s script = some s') (hok : ∀ s, ∀ e ∈ script, ok s e) :
    Reach M ok s' := by
  induction script generalizing s with
  | nil => exact Option.some.inj hf ▸ h
  | cons e script ih =>
    obtain ⟨t, ht, hf⟩ := Option.bind_eq_some_iff.mp hf
    exact ih (h.next (hM s e t ht) (hok s e List.mem_cons_self)) hf
      fun s e he => hok s e (List.mem_cons_of_mem _ he)

/-- The same for a script whose every step is checked on the way. -/
theorem Reach.follow_met {next : σ → ε → Option σ}
    (hM : ∀ s e s', next s e = some s' → M.step s e s' ∧ ok s e) (script : List ε) {s s' : σ}
    (h : Reach M ok s) (hf : System.follow next s script = some s') : Reach M ok s' := by
  induction script generalizing s with
  | nil => exact Option.some.inj hf ▸ h
  | cons e script ih =>
    obtain ⟨t, ht, hf⟩ := Option.bind_eq_some_iff.mp hf
    obtain ⟨hstep, hok⟩ := hM s e t ht
    exact ih (h.next hstep hok) hf

end System
