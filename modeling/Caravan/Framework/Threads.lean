import Caravan.Framework.System

/-!
# Threads that share a state

A `Program` says what one thread does: from a place of its code, on the shared state, under
a label. Any number of threads run it, one step at a time (`Program.system`).

The proof rule is the classic one for such programs. A shared invariant `I` and an
assertion `Q` at each place of the code hold in every state of a run, if each step keeps
`I`, brings about the assertion at its thread's new place, and leaves the assertions of the
other threads true (`Program.every`).
-/

/-- The shared state, and where each thread is. -/
structure Threads (S P : Type*) where
  shared : S
  pc : ℕ → P

/-- The code that the threads run. -/
structure Program (S P ε : Type*) where
  init : S → Prop
  start : P
  step : S → P → ε → S → P → Prop

namespace Program

variable {S P ε : Type*} (C : Program S P ε)

/-- The threads take turns; the first part of a label is the thread whose turn it is. -/
def system : System (Threads S P) (ℕ × ε) where
  init s := C.init s.shared ∧ ∀ t, s.pc t = C.start
  step s e s' :=
    C.step s.shared (s.pc e.1) e.2 s'.shared (s'.pc e.1) ∧ ∀ u, u ≠ e.1 → s'.pc u = s.pc u

variable {C} {ok : Threads S P → ℕ × ε → Prop}

/-- **The rule for interleavings**, on top of what is known of every state of the run. -/
theorem every_of {J : Threads S P → Prop} (hJ : ∀ s, System.Reach C.system ok s → J s)
    {I : S → Prop} {Q : S → P → Prop} (h₀ : ∀ x, C.init x → I x ∧ Q x C.start)
    (hstep : ∀ s t e x p, J s → I s.shared → (∀ u, Q s.shared (s.pc u)) → ok s (t, e) →
      C.step s.shared (s.pc t) e x p → I x ∧ Q x p ∧ ∀ u, u ≠ t → Q x (s.pc u))
    {s : Threads S P} (h : System.Reach C.system ok s) :
    I s.shared ∧ ∀ u, Q s.shared (s.pc u) := by
  refine h.invariant_of (I := fun s => I s.shared ∧ ∀ u, Q s.shared (s.pc u)) hJ
    (fun s hs => ?_) fun s e s' hj hinv hok hs => ?_
  · obtain ⟨hinit, hstart⟩ := hs
    obtain ⟨hI, hQ⟩ := h₀ s.shared hinit
    refine ⟨hI, fun u => ?_⟩
    rw [hstart u]
    exact hQ
  · obtain ⟨hs, hframe⟩ := hs
    obtain ⟨hI, hself, hothers⟩ := hstep s e.1 e.2 _ _ hj hinv.1 hinv.2 hok hs
    refine ⟨hI, fun u => ?_⟩
    by_cases hu : u = e.1
    · rw [hu]
      exact hself
    · rw [hframe u hu]
      exact hothers u hu

/-- **The rule for interleavings.** -/
theorem every {I : S → Prop} {Q : S → P → Prop} (h₀ : ∀ x, C.init x → I x ∧ Q x C.start)
    (hstep : ∀ s t e x p, I s.shared → (∀ u, Q s.shared (s.pc u)) → ok s (t, e) →
      C.step s.shared (s.pc t) e x p → I x ∧ Q x p ∧ ∀ u, u ≠ t → Q x (s.pc u))
    {s : Threads S P} (h : System.Reach C.system ok s) :
    I s.shared ∧ ∀ u, Q s.shared (s.pc u) :=
  every_of (J := fun _ => True) (fun _ _ => trivial) h₀ (fun s t e x p _ => hstep s t e x p) h

/-- What no two threads are at once. -/
theorem everyPair {R : P → P → Prop} (hR : ∀ p q, R p q → R q p) (h₀ : R C.start C.start)
    (hstep : ∀ s t e x p, (∀ u v, u ≠ v → R (s.pc u) (s.pc v)) → ok s (t, e) →
      C.step s.shared (s.pc t) e x p → ∀ u, u ≠ t → R p (s.pc u))
    {s : Threads S P} (h : System.Reach C.system ok s) {t u : ℕ} (htu : t ≠ u) :
    R (s.pc t) (s.pc u) := by
  suffices hall : ∀ u v, u ≠ v → R (s.pc u) (s.pc v) from hall t u htu
  refine h.invariant (I := fun s => ∀ u v, u ≠ v → R (s.pc u) (s.pc v)) (fun s hs => ?_)
    fun s e s' hinv hok hs => ?_
  · intro u v _
    rw [hs.2 u, hs.2 v]
    exact h₀
  · obtain ⟨hs, hframe⟩ := hs
    have hmoved := hstep s e.1 e.2 _ _ hinv hok hs
    intro u v huv
    by_cases hu : u = e.1
    · have hv : v ≠ e.1 := fun hv => huv (hu.trans hv.symm)
      rw [hu, hframe v hv]
      exact hmoved v hv
    · rw [hframe u hu]
      by_cases hv : v = e.1
      · rw [hv]
        exact hR _ _ (hmoved u hu)
      · rw [hframe v hv]
        exact hinv u v huv

/-- What a step does with a lock that a place of the code may hold. -/
inductive Locks (holds : P → Prop) (held : S → Bool) (x : S) (p : P) (x' : S) (p' : P) : Prop
  | none : (holds p' ↔ holds p) → held x' = held x → Locks holds held x p x' p'
  | takes : held x = false → held x' = true → Locks holds held x p x' p'
  | frees : holds p → ¬ holds p' → held x' = false → Locks holds held x p x' p'

/-- **A lock is held by one thread at most**, and is marked as held while one holds it. -/
theorem exclusive {holds : P → Prop} {held : S → Bool} (h₀ : ¬ holds C.start)
    (hstep : ∀ x p e x' p', C.step x p e x' p' → Locks holds held x p x' p')
    {s : Threads S P} (h : System.Reach C.system ok s) :
    (∀ t, holds (s.pc t) → held s.shared = true) ∧
      ∀ t u, holds (s.pc t) → holds (s.pc u) → t = u := by
  refine h.invariant (I := fun s => (∀ t, holds (s.pc t) → held s.shared = true) ∧
    ∀ t u, holds (s.pc t) → holds (s.pc u) → t = u) (fun s hs => ?_) fun s e s' hinv _ hs => ?_
  · have hno : ∀ t, ¬ holds (s.pc t) := fun t => hs.2 t ▸ h₀
    exact ⟨fun t ht => absurd ht (hno t), fun t _ ht => absurd ht (hno t)⟩
  · obtain ⟨hs, hframe⟩ := hs
    obtain ⟨hheld, hone⟩ := hinv
    have hother : ∀ u, u ≠ e.1 → holds (s'.pc u) → holds (s.pc u) := fun u hu => by
      rw [hframe u hu]
      exact id
    cases hstep _ _ _ _ _ hs with
    | none hsame heq =>
      have hback : ∀ u, holds (s'.pc u) → holds (s.pc u) := fun u hu => by
        by_cases he : u = e.1
        · exact he ▸ hsame.mp (he ▸ hu)
        · exact hother u he hu
      exact ⟨fun t ht => heq ▸ hheld t (hback t ht),
        fun t u ht hu => hone t u (hback t ht) (hback u hu)⟩
    | takes hfree hnow =>
      have hself : ∀ u, holds (s'.pc u) → u = e.1 := fun u hu => by
        by_contra he
        have := hheld u (hother u he hu)
        rw [hfree] at this
        exact nomatch this
      exact ⟨fun _ _ => hnow, fun t u ht hu => (hself t ht).trans (hself u hu).symm⟩
    | frees hhad hno hfree =>
      have hnone : ∀ u, ¬ holds (s'.pc u) := fun u hu => by
        by_cases he : u = e.1
        · exact hno (he ▸ hu)
        · exact he (hone u e.1 (hother u he hu) hhad)
      exact ⟨fun t ht => absurd ht (hnone t), fun t _ ht => absurd ht (hnone t)⟩

/-- One thread went from `p` to `p'`, and the shared state came to `x'`. -/
structure Moves (s s' : Threads S P) (t : ℕ) (p : P) (x' : S) (p' : P) : Prop where
  before : s.pc t = p
  after : s'.pc t = p'
  shared : s'.shared = x'
  others : ∀ u, u ≠ t → s'.pc u = s.pc u

theorem step_moves {s s' : Threads S P} {t : ℕ} {e : ε} (h : C.system.step s (t, e) s') :
    ∃ p x' p', C.step s.shared p e x' p' ∧ Moves s s' t p x' p' :=
  ⟨_, _, _, h.1, rfl, rfl, rfl, h.2⟩

/-- A thread's step, with where the threads are then. -/
theorem step_update {s : Threads S P} {t : ℕ} {e : ε} {x : S} {p q : P} (hq : s.pc t = q)
    (h : C.step s.shared q e x p) : C.system.step s (t, e) ⟨x, Function.update s.pc t p⟩ := by
  refine ⟨?_, fun u hu => Function.update_of_ne hu p s.pc⟩
  simp only [Function.update_self, hq]
  exact h

/-! ### Runs by a script -/

/-- The threads after the steps of a script, as far as it can be followed. -/
def follow (next : S → P → ε → Option (S × P)) (s : Threads S P) :
    List (ℕ × ε) → Option (Threads S P)
  | [] => some s
  | (t, e) :: script => match next s.shared (s.pc t) e with
    | some (x, p) => follow next ⟨x, Function.update s.pc t p⟩ script
    | none => none

/-- What a script leads to is reached, under a condition that its steps meet. -/
theorem reach_follow {next : S → P → ε → Option (S × P)}
    (hC : ∀ x p e x' p', next x p e = some (x', p') → C.step x p e x' p')
    (script : List (ℕ × ε)) {s s' : Threads S P} (h : System.Reach C.system ok s)
    (hf : follow next s script = some s') (hok : ∀ s, ∀ e ∈ script, ok s e) :
    System.Reach C.system ok s' := by
  induction script generalizing s with
  | nil => exact Option.some.inj hf ▸ h
  | cons e script ih =>
    obtain ⟨t, e⟩ := e
    rw [follow] at hf
    split at hf
    · next x p hnext =>
      refine ih (h.next (step_update rfl (hC _ _ _ _ _ hnext)) (hok s (t, e) List.mem_cons_self)) hf
        fun s e he => hok s e (List.mem_cons_of_mem _ he)
    · exact nomatch hf

theorem follow_append {next : S → P → ε → Option (S × P)} (script script' : List (ℕ × ε))
    (s : Threads S P) :
    follow next s (script ++ script') =
      (follow next s script).bind fun s => follow next s script' := by
  induction script generalizing s with
  | nil => rfl
  | cons e script ih =>
    obtain ⟨t, e⟩ := e
    rw [List.cons_append, follow, follow]
    split
    · exact ih _
    · rfl

/-- Where a script leads to, with what is computed of it. -/
theorem follow_to (o : Option (Threads S P)) {R : Threads S P → Prop} [DecidablePred R]
    (h : o.any fun s => decide (R s)) : ∃ s, o = some s ∧ R s := by
  obtain ⟨s, hs, hr⟩ := Option.any_eq_true _ _ |>.mp h
  exact ⟨s, hs, of_decide_eq_true hr⟩

/-! ### One thread at a time -/

variable (C) in
/-- What one thread's steps come to, while the others wait. -/
inductive Run (x : S) (p : P) : S → P → Prop
  | refl : Run x p x p
  | step {x' x'' : S} {p' p'' : P} {e : ε} : Run x p x' p' → C.step x' p' e x'' p'' →
    Run x p x'' p''

theorem Run.trans {x x' x'' : S} {p p' p'' : P} (h : C.Run x p x' p')
    (h' : C.Run x' p' x'' p'') : C.Run x p x'' p'' := by
  induction h' with
  | refl => exact h
  | step _ hs ih => exact ih.step hs

/-- Such a stretch of a run of all the threads. -/
theorem Run.reached (ok : Threads S P → ℕ × ε → Prop) {s : Threads S P} {t : ℕ} {x : S}
    {p q : P} (hrun : C.Run s.shared q x p)
    (h : System.Reach C.system ok s) (hq : s.pc t = q)
    (hok : ∀ x p e, ok ⟨x, Function.update s.pc t p⟩ (t, e)) :
    System.Reach C.system ok ⟨x, Function.update s.pc t p⟩ := by
  induction hrun with
  | refl =>
    rw [← hq, Function.update_eq_self]
    exact h
  | step _ hs ih =>
    have hstep := step_update (s := ⟨_, Function.update s.pc t _⟩) (t := t)
      (Function.update_self ..) hs
    simp only [Function.update_idem] at hstep
    exact ih.next hstep (hok _ _ _)

variable (C) in
/-- Thread 0 at a place, the others not begun. -/
def alone (x : S) (p : P) : Threads S P := ⟨x, fun u => if u = 0 then p else C.start⟩

theorem alone_init {x : S} (h : C.init x) : C.system.init (C.alone x C.start) :=
  ⟨h, fun _ => ite_self _⟩

theorem alone_step {x x' : S} {p p' : P} {e : ε} (h : C.step x p e x' p') :
    C.system.step (C.alone x p) (0, e) (C.alone x' p') :=
  ⟨h, fun _ hu => (if_neg hu).trans (if_neg hu).symm⟩

theorem alone_others {x : S} {p : P} {u : ℕ} (hu : u ≠ 0) : (C.alone x p).pc u = C.start :=
  if_neg hu

/-! ### Runs by a script -/

/-- What one thread's step leads to, where its place and the label decide it. -/
def turn (next : S → P → ε → Option (S × P)) (s : Threads S P) (e : ℕ × ε) :
    Option (Threads S P) :=
  (next s.shared (s.pc e.1) e.2).map fun r => ⟨r.1, Function.update s.pc e.1 r.2⟩

theorem turn_step {next : S → P → ε → Option (S × P)}
    (hC : ∀ x p e x' p', next x p e = some (x', p') → C.step x p e x' p') (s : Threads S P)
    (e : ℕ × ε) (s' : Threads S P) (h : turn next s e = some s') : C.system.step s e s' := by
  obtain ⟨r, hr, rfl⟩ := Option.map_eq_some_iff.mp h
  refine ⟨?_, fun u hu => Function.update_of_ne hu _ _⟩
  show C.step s.shared (s.pc e.1) e.2 r.1 (Function.update s.pc e.1 r.2 e.1)
  rw [Function.update_self]
  exact hC _ _ _ _ _ hr

end Program
