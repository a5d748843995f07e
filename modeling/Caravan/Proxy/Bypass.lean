import Caravan.Proxy.Fifo

/-!
# Nobody is overtaken

An entry that stays in the queue is passed by none that came later: whatever the threads do,
each admission of its group is of one that stood ahead of it when it was looked at (`bypassed`).
-/

set_option linter.unusedSectionVars false

namespace Proxy.Queue

variable {P G : Type} [DecidableEq P] [DecidableEq G] {s s' : State P G} {e : Event P G}
  {x : Entry P G} {n : ℕ}

/-- Those of its group that came before an entry. -/
def ahead (s : State P G) (x : Entry P G) : List (Entry P G) :=
  s.pending.filter fun y => y.group = x.group ∧ y.seq < x.seq

/-- A step that admits a request of a group. -/
def Serves (s : State P G) (e : Event P G) (group : G) : Prop :=
  ∃ id t, e.Admits id ∧ s.thread id = some t ∧ t.group = group

/-- **One step.** Nobody comes to stand ahead of an entry, and an admission takes one away. -/
theorem Step.ahead (ho : Ordered s) (h : Step s e s') (hx : x ∈ s.pending)
    (hx' : x ∈ s'.pending) : (ahead s' x).Sublist (ahead s x) ∧
      (Serves s e x.group → (Queue.ahead s' x).length < (Queue.ahead s x).length) := by
  have hserve : Serves s e x.group → ∃ y ∈ s.pending, e.Admits y.id ∧ y.group = x.group ∧
      (y ≠ x → y.seq < x.seq) := by
    rintro ⟨id, t, ha, ht, hgroup⟩
    obtain ⟨u, hu, hfirst⟩ := admits_first h ha
    obtain rfl := Option.some.inj (hu.symm.trans ht)
    obtain ⟨y, hy, rfl, hyg, hmin⟩ := ho.first hfirst
    exact ⟨y, hy, ha, hyg.trans hgroup, fun hne => hmin x hx hgroup.symm hne.symm⟩
  cases h with
  | admitted | admitAfterPreempt =>
    refine ⟨List.filter_sublist.filter _, fun hs => ?_⟩
    obtain ⟨y, hy, rfl, hyg, hlt⟩ := hserve hs
    -- the entry itself stays, so it is another that goes
    have hid : x.id ≠ y.id := of_decide_eq_true (List.mem_filter.mp hx').2
    have hmem : y ∈ Queue.ahead s x := List.mem_filter.mpr ⟨hy, decide_eq_true
      ⟨hyg, hlt fun heq => hid (heq ▸ rfl)⟩⟩
    show List.length (List.filter _ (List.filter _ s.pending)) < _
    rw [List.filter_comm]
    exact List.length_filter_lt_length_iff_exists.mpr ⟨y, hmem, by simp⟩
  | unqueue => exact ⟨List.filter_sublist.filter _, fun hs => (hserve hs).choose_spec.2.1.elim⟩
  | enter =>
    -- a new entry has a number above all others
    refine ⟨?_, fun hs => (hserve hs).choose_spec.2.1.elim⟩
    have := ho.given x hx
    simp [Queue.ahead, show ¬ s.seq + 1 < x.seq by omega]
  | release =>
    refine ⟨?_, fun hs => (hserve hs).choose_spec.2.1.elim⟩
    simp [Queue.ahead]
  | _ => exact ⟨List.Sublist.refl _, fun hs => (hserve hs).choose_spec.2.1.elim⟩

/-- A run in which an entry stays in the queue while so many of its group are admitted. -/
inductive Waits (x : Entry P G) (s : State P G) : ℕ → State P G → Prop
  | here : x ∈ s.pending → Waits x s 0 s
  | serve {n : ℕ} {s' s'' : State P G} {e : Event P G} : Waits x s n s' → Step s' e s'' →
    x ∈ s''.pending → Serves s' e x.group → Waits x s (n + 1) s''
  | other {n : ℕ} {s' s'' : State P G} {e : Event P G} : Waits x s n s' → Step s' e s'' →
    x ∈ s''.pending → ¬ Serves s' e x.group → Waits x s n s''

/-- **Nobody is overtaken.** However the threads go on, those ahead of an entry that stays in the
queue are some that were ahead of it before, one less for every admission of its group. -/
theorem bypassed (hr : (system P G).Reachable s) (h : Waits x s n s') :
    (ahead s' x).Sublist (ahead s x) ∧ (ahead s' x).length + n ≤ (ahead s x).length := by
  suffices ((system P G).Reachable s' ∧ x ∈ s'.pending) ∧ (ahead s' x).Sublist (ahead s x) ∧
    (ahead s' x).length + n ≤ (ahead s x).length from this.2
  induction h with
  | here hx => exact ⟨⟨hr, hx⟩, List.Sublist.refl _, le_rfl⟩
  | serve _ hstep hx' hserves ih =>
    obtain ⟨⟨hr', hx⟩, hsub, hle⟩ := ih
    have hahead := hstep.ahead (ordered hr') hx hx'
    have := hahead.2 hserves
    exact ⟨⟨hr'.next hstep trivial, hx'⟩, hahead.1.trans hsub, by omega⟩
  | other _ hstep hx' _ ih =>
    obtain ⟨⟨hr', hx⟩, hsub, hle⟩ := ih
    have hahead := hstep.ahead (ordered hr') hx hx'
    have := hahead.1.length_le
    exact ⟨⟨hr'.next hstep trivial, hx'⟩, hahead.1.trans hsub, by omega⟩

/-- Two requests wait, and the first is admitted. -/
theorem bypassed_two : ∃ s s' : State ℕ ℕ, (ahead s ⟨1, 9, 5, 2⟩).length = 1 ∧
    (ahead s' ⟨1, 9, 5, 2⟩).length + 1 ≤ (ahead s ⟨1, 9, 5, 2⟩).length := by
  have h₀ : (system ℕ ℕ).Reachable State.init := .init rfl
  have h₁ := h₀.next (@Step.start ℕ ℕ _ _ State.init 0 9 5 false true rfl) trivial
  have h₂ := (h₁.next (@Step.enter _ _ _ _ _ 0 1 (Thread.new 9 5 false) .main rfl rfl
    fun _ => rfl) trivial).next (@Step.start _ _ _ _ _ 1 9 5 false true rfl) trivial
  have h₃ := h₂.next (@Step.enter _ _ _ _ _ 1 1 (Thread.new 9 5 false) .main rfl rfl
    fun _ => rfl) trivial
  exact ⟨_, _, rfl, (bypassed h₃ ((Waits.here (.tail _ (.head _))).serve
    (.admitted rfl rfl (by decide) rfl rfl (by decide)) (.head _) ⟨0, _, rfl, rfl, rfl⟩)).2⟩

end Proxy.Queue
