import Caravan.Proxy.Fifo

/-!
# Reservations

A finished request reserves its group for its port, so that the port's next request need
not queue behind the others. A poll by another port finds the reservation and is blocked;
a poll by the reserved port takes the reservation away, and it does so before it looks
whether it can be admitted. A request of that port that stands behind another one, or
finds no room, so loses what was kept for it.

`State.held` is the reservation as it was made: it ends with its time, with the next one,
or with the admission of a request of its port. In a run in which nothing takes a
reservation away before its end (`Respects`) it is what `sticky_slots` holds
(`Held.step`), and no other port gets in before (`reserved_first`).
-/

set_option linter.unusedSectionVars false

namespace Proxy.Queue

variable {P G : Type} [DecidableEq P] [DecidableEq G] {s s' : State P G} {e : Event P G}

/-- A reservation of the group for the port that has not expired. -/
def State.Reserved (s : State P G) (g : G) (p : P) : Prop :=
  ∃ r, s.held g = some r ∧ r.port = p ∧ s.now < r.expiresAt

/-- Nothing takes a reservation away before its end, and no preemption passes it by: a
request of the reserved port polls when its poll admits it, a preemption admits when no
request of the reserved port waits, and a sweep pops what has expired. -/
def Respects (g : G) (s : State P G) : Event P G → Prop
  | .poll id => ∀ t, s.thread id = some t → t.group = g → s.Reserved g t.port → s.Clear id t
  | .admitAfterPreempt id _ => ∀ t p, s.thread id = some t → t.group = g → s.Reserved g p →
      p ≠ t.port → ∀ x ∈ s.pending, x.group = g → x.port ≠ p
  | .sweepPop group => group = g → ∀ r, s.sticky g = some r → r.expiresAt ≤ s.now
  | _ => True

/-- A reservation that has not ended is what the map holds. -/
def Held (g : G) (s : State P G) : Prop :=
  ∀ r, s.held g = some r → s.now < r.expiresAt → s.sticky g = some r

/-- A poll that is not blocked is by the reserved port. -/
theorem Held.port_eq {g : G} {p : P} {r : Reservation P} (hh : Held g s)
    (hr : s.held g = some r) (hnow : s.now < r.expiresAt)
    (hb : s.stickySlotBlocks g p = false) : r.port = p := by
  by_contra hne
  simp [State.stickySlotBlocks, hh r hr hnow, hnow, hne] at hb

@[simp] theorem State.spend_of_ne (s : State P G) {g g' : G} (p : P) (h : g ≠ g') :
    s.spend g' p g = s.held g := by
  unfold State.spend
  cases s.held g' with
  | none => rfl
  | some r =>
    by_cases hp : r.port = p
    · simp [hp, Function.update_of_ne h]
    · simp [hp]

/-- What is left of the reservations of a group after an admission to it. -/
theorem State.spend_self {g : G} {p : P} {r : Reservation P} (h : s.spend g p g = some r) :
    s.held g = some r ∧ r.port ≠ p := by
  unfold State.spend at h
  cases hg : s.held g with
  | none => rw [hg] at h; simp [hg] at h
  | some q =>
    rw [hg] at h
    by_cases hp : q.port = p
    · simp [hp] at h
    · simp only [hp, if_false, hg, Option.some.injEq] at h
      exact ⟨congrArg some h, h ▸ hp⟩

theorem Held.step {g : G} (hh : Held g s) (hok : Respects g s e) (h : Step s e s') :
    Held g s' := by
  cases h with
  | @passed _ t _ ht _ _ _ hb hclear =>
    intro r hr hnow
    by_cases hg : t.group = g
    · -- the reserved port has polled without being admitted
      subst hg
      have hport := hh.port_eq hr hnow hb
      exact absurd (hok t ht rfl ⟨r, hr, hport, hnow⟩) hclear
    · exact (Function.update_of_ne (Ne.symm hg) _ _).trans (hh r hr hnow)
  | @admitted _ t _ ht _ _ _ hb =>
    intro r hr hnow
    by_cases hg : t.group = g
    · -- the admission has used the reservation up
      subst hg
      obtain ⟨hheld, hne⟩ := State.spend_self hr
      exact absurd (hh.port_eq hheld hnow hb) hne
    · rw [State.admission_held, State.spend_of_ne _ _ (Ne.symm hg)] at hr
      exact (Function.update_of_ne (Ne.symm hg) _ _).trans (hh r hr hnow)
  | @admitAfterPreempt _ _ t _ ht =>
    intro r hr hnow
    by_cases hg : t.group = g
    · subst hg
      exact hh r (State.spend_self hr).1 hnow
    · rw [State.admission_held, State.spend_of_ne _ _ (Ne.symm hg)] at hr
      exact hh r hr hnow
  | @release _ sec t ht =>
    intro r hr hnow
    by_cases hsec : sec = 0
    · simp only [State.reserve, if_pos hsec] at hr hnow ⊢
      exact hh r hr hnow
    · simp only [State.reserve, if_neg hsec] at hr hnow ⊢
      by_cases hg : g = t.group
      · subst hg
        simpa using hr
      · simp only [State.set_held, Function.update_of_ne hg] at hr
        simpa [Function.update_of_ne hg] using hh r hr hnow
  | tick => exact fun r hr hnow => hh r hr (lt_of_le_of_lt (Nat.le_add_right _ _) hnow)
  | @sweepPop group =>
    intro r hr hnow
    by_cases hg : group = g
    · -- what is popped has expired, and so it is not the reservation
      exact absurd hnow (not_lt.mpr (hok hg r (hh r hr hnow)))
    · exact (Function.update_of_ne (Ne.symm hg) _ _).trans (hh r hr hnow)
  | _ => exact hh

theorem held {g : G} (h : (system P G).Reach (Respects g) s) : Held g s :=
  h.invariant (fun _ h => h ▸ fun _ hr => nomatch hr) fun _ _ _ hh hok hstep => hh.step hok hstep

/-- **A reservation is honoured.** While one of a group has not ended and a request of its
port waits there, whoever is admitted to the group is of that port. -/
theorem reserved_first {g : G} {id : ℕ} {t : Thread P G} {p : P}
    (hr : (system P G).Reach (Respects g) s) (hok : Respects g s e) (h : Step s e s')
    (ha : e.Admits id) (ht : s.thread id = some t) (hg : t.group = g)
    (hres : s.Reserved g p) (hwait : ∃ x ∈ s.pending, x.group = g ∧ x.port = p) : t.port = p := by
  obtain ⟨r, hheld, hport, hnow⟩ := hres
  cases h with
  | @admitted _ u _ hu _ _ _ hb =>
    obtain rfl : _ = id := ha
    obtain rfl := Option.some.inj (hu.symm.trans ht)
    subst hg
    exact ((held hr).port_eq hheld hnow hb).symm.trans hport
  | @admitAfterPreempt _ _ u _ hu =>
    obtain rfl : _ = id := ha
    obtain ⟨x, hx, hxg, hxp⟩ := hwait
    by_contra hne
    exact hok t p ht hg ⟨r, hheld, hport, hnow⟩ (Ne.symm hne) x hx hxg hxp
  | _ => exact ha.elim

/-- A refused request of port 9 has reserved the group for a minute, and the port's next
one is admitted. -/
theorem reserved_first_next : ∃ (s s' : State ℕ ℕ) (t : Thread ℕ ℕ),
    (system ℕ ℕ).Reach (Respects 5) s ∧ Step s (.admitted 1) s' ∧ s.thread 1 = some t ∧
      s.Reserved 5 9 ∧ t.port = 9 := by
  have h₀ : (system ℕ ℕ).Reach (Respects 5) State.init := .init rfl
  have h₁ := h₀.next (@Step.start _ _ _ _ _ 0 9 5 false true rfl) trivial
  have h₂ := h₁.next (@Step.block _ _ _ _ _ 0 (Thread.new 9 5 false) .main rfl rfl) trivial
  have h₃ := h₂.next (@Step.finish _ _ _ _ _ 0 true true
    ⟨.refused, 9, 5, false, none, 0, .untried, none, false⟩ rfl (by decide) (.inl rfl)) trivial
  have h₄ := h₃.next (@Step.release _ _ _ _ _ 0 60
    ⟨.leaving, 9, 5, false, none, 0, .untried, none, false⟩ rfl rfl) trivial
  have h₅ := h₄.next (@Step.start _ _ _ _ _ 1 9 5 false true rfl) trivial
  have h₆ := h₅.next (@Step.enter _ _ _ _ _ 1 1 (Thread.new 9 5 false) .main rfl rfl
    fun _ => rfl) trivial
  exact ⟨_, _, _, h₆, .admitted rfl rfl (by decide) rfl rfl (by decide), rfl,
    ⟨⟨9, 60⟩, rfl, rfl, by decide⟩,
    reserved_first (e := .admitted 1) h₆ trivial (.admitted rfl rfl (by decide) rfl rfl (by decide))
      rfl rfl rfl ⟨⟨9, 60⟩, rfl, rfl, by decide⟩ ⟨_, List.mem_singleton_self _, rfl, rfl⟩⟩

/-- Port 9 has been served and has the group for a minute. A request of port 8 waits first,
one of port 9 behind it: its poll admits nobody and takes the reservation away, and the
request of port 8 is admitted. -/
theorem waiter_loses_reservation : ∃ (s s₁ s' : State ℕ ℕ) (t : Thread ℕ ℕ),
    (system ℕ ℕ).Reachable s ∧ Step s (.poll 2) s₁ ∧ s₁.Reserved 5 9 ∧
      (∃ x ∈ s₁.pending, x.group = 5 ∧ x.port = 9) ∧
      Step s₁ (.admitted 1) s' ∧ s₁.thread 1 = some t ∧ t.group = 5 ∧ t.port = 8 := by
  have h₀ : (system ℕ ℕ).Reachable State.init := .init rfl
  have h₁ := h₀.next (@Step.start _ _ _ _ _ 0 9 5 false true rfl) trivial
  have h₂ := h₁.next (@Step.enter _ _ _ _ _ 0 1 (Thread.new 9 5 false) .main rfl rfl
    fun _ => rfl) trivial
  have h₃ := h₂.next (@Step.admitted _ _ _ _ _ 0
    ⟨.waiting .main, 9, 5, false, none, 1, .untried, none, false⟩ .main rfl rfl (by decide)
    rfl rfl (by decide)) trivial
  have h₄ := h₃.next (@Step.receive _ _ _ _ _ 0
    ⟨.taken .main, 9, 5, false, none, 1, .untried, some 5, false⟩ rfl rfl) trivial
  have h₅ := h₄.next (@Step.discard _ _ _ _ _ 0 true
    ⟨.received, 9, 5, false, none, 1, .untried, some 5, false⟩ rfl rfl) trivial
  have h₆ := h₅.next (@Step.send _ _ _ _ _ 0
    ⟨.forward, 9, 5, false, none, 1, .untried, some 5, false⟩ rfl (.inr ⟨rfl, rfl⟩)) trivial
  have h₇ := h₆.next (@Step.answer _ _ _ _ _ 0 false true
    ⟨.sent, 9, 5, false, none, 1, .untried, some 5, false⟩ rfl rfl) trivial
  have h₈ := h₇.next (@Step.finish _ _ _ _ _ 0 true true
    ⟨.answered, 9, 5, false, none, 1, .untried, some 5, false⟩ rfl (by decide) (.inl rfl)) trivial
  have h₉ := h₈.next (@Step.release _ _ _ _ _ 0 60
    ⟨.leaving, 9, 5, false, none, 1, .untried, none, false⟩ rfl rfl) trivial
  have h₁₀ := h₉.next (@Step.start _ _ _ _ _ 1 8 5 false true rfl) trivial
  have h₁₁ := h₁₀.next (@Step.enter _ _ _ _ _ 1 1 (Thread.new 8 5 false) .main rfl rfl
    fun _ => rfl) trivial
  have h₁₂ := h₁₁.next (@Step.start _ _ _ _ _ 2 9 5 false true rfl) trivial
  have h₁₃ := h₁₂.next (@Step.enter _ _ _ _ _ 2 1 (Thread.new 9 5 false) .main rfl rfl
    fun _ => rfl) trivial
  exact ⟨_, _, _, ⟨.waiting .main, 8, 5, false, none, 1, .untried, none, false⟩, h₁₃,
    @Step.passed _ _ _ _ _ 2 ⟨.waiting .main, 9, 5, false, none, 1, .untried, none, false⟩ .main
      rfl rfl (by decide) rfl rfl (by decide),
    ⟨⟨9, 60⟩, rfl, rfl, by decide⟩, ⟨⟨2, 9, 5, 3⟩, .tail _ (.head _), rfl, rfl⟩,
    @Step.admitted _ _ _ _ _ 1 _ .main rfl rfl (by decide) rfl rfl (by decide), rfl, rfl, rfl⟩

end Proxy.Queue
