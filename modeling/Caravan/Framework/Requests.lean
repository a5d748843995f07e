import Caravan.Framework.Threads

/-!
# Requests on a state in memory

A request takes steps on the state, each of which reads and may change it, and other requests
take theirs in between. A `Proc` is what it does; the states that it has found so far are kept
beside it, the last one first, and change nothing.

The rule: if each step keeps an invariant, provided that what the request has found before still
says what it relies on (`Proc.Safe`), the invariant holds in every state of a run in which no step
is late (`safe`). Where requests also rely on what the others leave alone, the same holds of runs
in which they do, and each request ends as it should (`sound`).
-/

namespace Requests

/-- What a request does with a state: a change of it, and what follows, which depends on the
state that was found. -/
inductive Proc (S R : Type*)
  | step (f : S → S) (k : S → Proc S R)
  | done (r : R)

variable {S R Q : Type*}

/-- A reading. -/
def Proc.read (k : S → Proc S R) : Proc S R := .step id k

/-- A change that nothing is made of. -/
def Proc.update (f : S → S) (k : Proc S R) : Proc S R := .step f fun _ => k

/-- Where a request is: what it has still to do, and what it has found. -/
inductive Place (S R Q : Type*)
  | idle
  | doing (q : Q) (p : Proc S R) (found : List S)
  | ended (q : Q) (r : R)

inductive Act (Q : Type*)
  | start (q : Q)
  | step
  | finish

/-- A request, on a state it has for itself. -/
def Proc.alone : Proc S R → S → R × S
  | .step f k, x => (k x).alone (f x)
  | .done r, x => (r, x)

/-- Each step keeps the invariant where it comes in time, given what was found before. -/
def Proc.Safe (I : S → Prop) (timely : List S → S → S → Prop) : Proc S R → List S → Prop
  | .step f k, found =>
    ∀ x, I x → (timely found x (f x) → I (f x)) ∧ (k x).Safe I timely (x :: found)
  | .done _, _ => True

theorem Proc.Safe.read {I : S → Prop} {timely : List S → S → S → Prop} {k : S → Proc S R}
    {found : List S} (h : ∀ x, I x → (k x).Safe I timely (x :: found)) :
    (Proc.read k).Safe I timely found := fun x hx => ⟨fun _ => hx, h x hx⟩

variable (proc : Q → Proc S R)

/-- One step of a request. -/
def next (x : S) : Place S R Q → Act Q → Option (S × Place S R Q)
  | .idle, .start q => some (x, .doing q (proc q) [])
  | .doing q (.step f k) found, .step => some (f x, .doing q (k x) (x :: found))
  | .doing q (.done r) _, .finish => some (x, .ended q r)
  | _, _ => none

/-- Requests, each in a thread of its own, on a state that is one of these at first. -/
def program (init : S → Prop) : Program S (Place S R Q) (Act Q) where
  init := init
  start := .idle
  step x p e x' p' := next proc x p e = some (x', p')

/-- No step is late. -/
def Timely (timely : Q → List S → S → S → Prop) (s : Threads S (Place S R Q)) :
    ℕ × Act Q → Prop
  | (t, .step) => ∀ q f k found, s.pc t = .doing q (.step f k) found →
    timely q found s.shared (f s.shared)
  | _ => True

variable {proc} {init I : S → Prop} {timely : Q → List S → S → S → Prop}

/-- What a place has still to do is safe. -/
def Place.Safe (I : S → Prop) (timely : Q → List S → S → S → Prop) : Place S R Q → Prop
  | .doing q p found => p.Safe I (timely q) found
  | _ => True

/-- **The rule for requests**: an invariant that each timely step keeps holds in every state of a
run without late ones. -/
theorem safe (h₀ : ∀ x, init x → I x) (hproc : ∀ q, (proc q).Safe I (timely q) [])
    {s : Threads S (Place S R Q)} (h : (program proc init).system.Reach (Timely timely) s) :
    I s.shared := by
  refine (Program.every (I := I) (Q := fun _ p => p.Safe I timely) ?_ ?_ h).1
  · exact fun x hx => ⟨h₀ x hx, trivial⟩
  · intro s t e x p hI hQ hok hstep
    have hme := hQ t
    generalize hp : s.pc t = p₀ at hme hstep
    change next proc s.shared p₀ e = some (x, p) at hstep
    unfold next at hstep
    split at hstep
    · next q =>
      cases hstep
      exact ⟨hI, hproc q, fun u _ => hQ u⟩
    · next q f k found =>
      cases hstep
      have hstep := hme _ hI
      exact ⟨hstep.1 (hok q f k found hp), hstep.2, fun u _ => hQ u⟩
    · cases hstep
      exact ⟨hI, trivial, fun u _ => hQ u⟩
    · exact nomatch hstep

/-! ### What a request relies on -/

/-- Each step keeps the invariant where it comes in time, on what the others have left of the
state since the last one, and the end is as it should be. -/
def Proc.Sound (I : S → Prop) (rely : S → S → Prop) (timely : List S → S → S → Prop)
    (post : R → List S → S → Prop) : Proc S R → List S → S → Prop
  | .step f k, found, y => ∀ x, I x → rely y x → timely found x (f x) →
    I (f x) ∧ (k x).Sound I rely timely post (x :: found) (f x)
  | .done r, found, y => ∀ x, I x → rely y x → post r found x

/-- No step changes what another request that is under way relies on. -/
def Apart (rely : Q → S → S → Prop) (s : Threads S (Place S R Q)) : ℕ × Act Q → Prop
  | (t, .step) => ∀ q f k found, s.pc t = .doing q (.step f k) found →
    ∀ u, u ≠ t → ∀ q' p' found', s.pc u = .doing q' p' found' → rely q' s.shared (f s.shared)
  | _ => True

variable {rely : Q → S → S → Prop} {post : Q → R → List S → S → Prop}

/-- What a place has still to do is sound, from a state that has become the present one. -/
def Place.Sound (I : S → Prop) (rely : Q → S → S → Prop) (timely : Q → List S → S → S → Prop)
    (post : Q → R → List S → S → Prop) (x : S) : Place S R Q → Prop
  | .doing q p found => ∃ y, rely q y x ∧ p.Sound I (rely q) (timely q) (post q) found y
  | _ => True

/-- **The rule for requests that rely on each other**: where no step is late, and none changes
what another request relies on, the invariant holds throughout, and each request ends as it
should. -/
theorem sound (h₀ : ∀ x, init x → I x) (hrefl : ∀ q x, rely q x x)
    (htrans : ∀ q x y z, rely q x y → rely q y z → rely q x z)
    (hproc : ∀ q x, I x → (proc q).Sound I (rely q) (timely q) (post q) [] x)
    {s : Threads S (Place S R Q)}
    (h : (program proc init).system.Reach (fun s e => Timely timely s e ∧ Apart rely s e) s) :
    I s.shared ∧ ∀ t q r found, s.pc t = .doing q (.done r) found → post q r found s.shared := by
  suffices hall : I s.shared ∧ ∀ t, (s.pc t).Sound I rely timely post s.shared by
    refine ⟨hall.1, fun t q r found ht => ?_⟩
    obtain ⟨y, hy, hdone⟩ : Place.Sound I rely timely post s.shared (.doing q (.done r) found) :=
      ht ▸ hall.2 t
    exact hdone _ hall.1 hy
  refine Program.every (I := I) (Q := fun x p => p.Sound I rely timely post x) ?_ ?_ h
  · exact fun x hx => ⟨h₀ x hx, trivial⟩
  · intro s t e x p hI hQ hok hstep
    have hme := hQ t
    obtain ⟨hontime, hapart⟩ := hok
    generalize hp : s.pc t = p₀ at hme hstep
    change next proc s.shared p₀ e = some (x, p) at hstep
    unfold next at hstep
    split at hstep
    · next q =>
      cases hstep
      exact ⟨hI, ⟨_, hrefl q _, hproc q _ hI⟩, fun u _ => hQ u⟩
    · next q f k found =>
      cases hstep
      obtain ⟨y, hy, hsound⟩ := hme
      obtain ⟨hinv, hrest⟩ := hsound _ hI hy (hontime q f k found hp)
      refine ⟨hinv, ⟨_, hrefl q _, hrest⟩, fun u hu => ?_⟩
      have hother := hQ u
      have hleft := hapart q f k found hp u hu
      -- the others' assertions speak of what they rely on
      cases hpu : s.pc u with
      | idle => trivial
      | ended => trivial
      | doing q' p' found' =>
        rw [hpu] at hother
        obtain ⟨y', hy', hsound'⟩ := hother
        exact ⟨y', htrans _ _ _ _ hy' (hleft q' p' found' hpu), hsound'⟩
    · cases hstep
      exact ⟨hI, trivial, fun u _ => hQ u⟩
    · exact nomatch hstep

/-! ### A request for itself -/

/-- The threads before any request. -/
def before (x : S) : Threads S (Place S R Q) := ⟨x, fun _ => .idle⟩

theorem reach_before {x : S} (hx : init x)
    {ok : Threads S (Place S R Q) → ℕ × Act Q → Prop} :
    (program proc init).system.Reach ok (before x) := .init ⟨hx, fun _ => rfl⟩

/-- No step of a request that has the state for itself is late. -/
def Proc.TimelyAlone (timely : List S → S → S → Prop) : Proc S R → List S → S → Prop
  | .step f k, found, x =>
    timely found x (f x) ∧ (k x).TimelyAlone timely (x :: found) (f x)
  | .done _, _, _ => True

theorem program_step {x x' : S} {p p' : Place S R Q} {e : Act Q}
    (h : next proc x p e = some (x', p')) : (program proc init).step x p e x' p' := h

/-- One step of a request, in a run. -/
theorem reach_step {ok : Threads S (Place S R Q) → ℕ × Act Q → Prop}
    {s : Threads S (Place S R Q)} {t : ℕ} {q : Q} {f : S → S} {k : S → Proc S R}
    {found : List S} (h : (program proc init).system.Reach ok s)
    (ht : s.pc t = .doing q (.step f k) found) (hok : ok s (t, .step)) :
    (program proc init).system.Reach ok
      ⟨f s.shared, Function.update s.pc t (.doing q (k s.shared) (s.shared :: found))⟩ :=
  h.next (Program.step_update ht (program_step (e := .step) rfl)) hok

/-- What a request has found at its end, if it has the state for itself. -/
def Proc.trail : Proc S R → List S → S → List S
  | .step f k, found, x => (k x).trail (x :: found) (f x)
  | .done _, found, _ => found

/-- A request that has the state for itself comes to its end, in runs of a kind in which its steps
stand if they are not late. -/
theorem reach_end {ok : Threads S (Place S R Q) → ℕ × Act Q → Prop}
    {s : Threads S (Place S R Q)} {t : ℕ}
    (h : (program proc init).system.Reach ok s) (ht : s.pc t = .idle) (q : Q)
    (hok : ∀ s' e, (∀ u, u ≠ t → s'.pc u = s.pc u) → Timely timely s' (t, e) → ok s' (t, e))
    (htimely : (proc q).TimelyAlone (timely q) [] s.shared) :
    (program proc init).system.Reach ok
      ⟨((proc q).alone s.shared).2, Function.update s.pc t
        (.doing q (.done ((proc q).alone s.shared).1) ((proc q).trail [] s.shared))⟩ := by
  have hrun : ∀ (p : Proc S R) (found : List S) (s' : Threads S (Place S R Q)),
      (program proc init).system.Reach ok s' → s'.pc t = .doing q p found →
      (∀ u, u ≠ t → s'.pc u = s.pc u) → p.TimelyAlone (timely q) found s'.shared →
      (program proc init).system.Reach ok
        ⟨(p.alone s'.shared).2, Function.update s'.pc t
          (.doing q (.done (p.alone s'.shared).1) (p.trail found s'.shared))⟩ := by
    intro p
    induction p with
    | done r =>
      intro found s' h ht _ _
      show (program proc init).system.Reach ok
        ⟨s'.shared, Function.update s'.pc t (.doing q (.done r) found)⟩
      rw [← ht, Function.update_eq_self]
      exact h
    | step f k ih =>
      intro found s' h ht hothers htimely
      have hstep := reach_step h ht (hok s' .step hothers fun q' f' k' found' hp => by
        cases ht.symm.trans hp
        exact htimely.1)
      have hnext := ih s'.shared (s'.shared :: found) _ hstep (Function.update_self ..)
        (fun u hu => (Function.update_of_ne hu ..).trans (hothers u hu)) htimely.2
      simp only [Function.update_idem] at hnext
      exact hnext
  have hstart := h.next (Program.step_update ht (program_step (e := .start q) rfl))
    (hok s (.start q) (fun _ _ => rfl) trivial)
  have hnext := hrun (proc q) [] _ hstart (Function.update_self ..)
    (fun u hu => Function.update_of_ne hu ..) htimely
  simp only [Function.update_idem] at hnext
  exact hnext

/-- **A request that has the state for itself** is answered, and leaves what it makes of it. -/
theorem reach_alone {s : Threads S (Place S R Q)} {t : ℕ}
    (h : (program proc init).system.Reach (Timely timely) s) (ht : s.pc t = .idle) (q : Q)
    (hok : (proc q).TimelyAlone (timely q) [] s.shared) :
    (program proc init).system.Reach (Timely timely)
      ⟨((proc q).alone s.shared).2,
        Function.update s.pc t (.ended q ((proc q).alone s.shared).1)⟩ := by
  have hend := reach_end h ht q (fun _ _ _ => id) hok
  have hnext := hend.next (Program.step_update (Function.update_self ..)
    (program_step (e := .finish) rfl)) trivial
  simp only [Function.update_idem] at hnext
  exact hnext

end Requests
