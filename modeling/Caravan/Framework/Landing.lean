import Mathlib.Tactic.Common

/-!
# Readers that look ahead

A reader goes over something by offsets and keeps, beside what it gives, a state of its own: what it
has looked at so far. It may come to an offset that is lost, past the end of all there is, without
having looked there; a later look fails then.

* `Lands` — whatever the reader has looked at, it comes to the same place, or it fails or is lost,
  and what it may raise is bounded;
* `Lands.bind` — one reader after the other, where nothing is found again from a lost offset.
-/

namespace Landing

variable {σ ε α β : Type} (held : σ → Prop) (raises : ε → Prop) (lost : ℕ → Prop)
  [DecidablePred lost]

/-- Where a reader lands from every state that holds: at `stop`, or nowhere. -/
def Lands (offset : α → ℕ) (m : StateT σ (Except ε) α) (stop : Option α) : Prop :=
  ∀ s, held s → match m s with
    | .error e => raises e ∧ stop = none
    | .ok (a, s') => held s' ∧ stop = if lost (offset a) then none else some a

variable {held raises lost} {offset : α → ℕ} {offset' : β → ℕ}

/-- A reader that looks at nothing. -/
theorem Lands.pure (a : α) :
    Lands held raises lost offset (Pure.pure a : StateT σ (Except ε) α)
      (if lost (offset a) then none else some a) :=
  fun _ hs => ⟨hs, rfl⟩

/-- **One reader after the other.** The second one goes on where the first one landed, and finds
nothing from an offset that is lost. -/
theorem Lands.bind {m : StateT σ (Except ε) α} {stop : Option α} {k : α → StateT σ (Except ε) β}
    {next : α → Option β} (hm : Lands held raises lost offset m stop)
    (hk : ∀ a, stop = some a → Lands held raises lost offset' (k a) (next a))
    (hlost : ∀ a, lost (offset a) → Lands held raises lost offset' (k a) none) :
    Lands held raises lost offset' (m >>= k) (stop.bind next) := by
  intro s hs
  have hland := hm s hs
  show match (m s >>= fun r => k r.1 r.2 : Except ε (β × σ)) with
    | .error e => raises e ∧ stop.bind next = none
    | .ok (b, s') => held s' ∧ stop.bind next = if lost (offset' b) then none else some b
  cases hr : m s with
  | error e =>
    rw [hr] at hland
    exact ⟨hland.1, congrArg (·.bind next) hland.2⟩
  | ok r =>
    rw [hr] at hland
    obtain ⟨hs', hstop⟩ := hland
    by_cases h : lost (offset r.1)
    · rw [if_pos h] at hstop
      rw [hstop]
      exact hlost r.1 h r.2 hs'
    · rw [if_neg h] at hstop
      rw [hstop]
      exact hk r.1 hstop r.2 hs'

/-- What is made of a reader's result stands where the result stands. -/
theorem Lands.map {m : StateT σ (Except ε) α} {stop : Option α} (f : α → β)
    (hm : Lands held raises lost offset m stop) (hf : ∀ a, offset' (f a) = offset a) :
    Lands held raises lost offset' (f <$> m) (stop.map f) := by
  intro s hs
  have hland := hm s hs
  show match (m s >>= fun r => .ok (f r.1, r.2) : Except ε (β × σ)) with
    | .error e => raises e ∧ stop.map f = none
    | .ok (b, s') => held s' ∧ stop.map f = if lost (offset' b) then none else some b
  cases hr : m s with
  | error e =>
    rw [hr] at hland
    exact ⟨hland.1, congrArg (·.map f) hland.2⟩
  | ok r =>
    rw [hr] at hland
    refine ⟨hland.1, ?_⟩
    show stop.map f = if lost (offset' (f r.1)) then none else some (f r.1)
    rw [hland.2, hf]
    split
    · rfl
    · rfl

/-- A reader gives what it lands at, unless it fails or is lost. -/
theorem Lands.stops {m : StateT σ (Except ε) α} {stop : Option α}
    (hm : Lands held raises lost offset m stop) {s : σ} (hs : held s) {a : α} :
    (∃ s', m s = .ok (a, s') ∧ ¬lost (offset a)) ↔ stop = some a := by
  have hland := hm s hs
  cases hr : m s with
  | error e =>
    rw [hr] at hland
    rw [hland.2]
    constructor
    · rintro ⟨s', h, -⟩
      exact nomatch h
    · intro h
      exact nomatch h
  | ok r =>
    rw [hr] at hland
    obtain ⟨-, hstop⟩ := hland
    constructor
    · rintro ⟨s', h, hin⟩
      cases h
      rw [hstop, if_neg hin]
    · intro h
      rw [h] at hstop
      split at hstop
      · exact nomatch hstop
      · next hin =>
        cases Option.some.inj hstop
        exact ⟨r.2, rfl, hin⟩

/-- A reader raises nothing else. -/
theorem Lands.raised {m : StateT σ (Except ε) α} {stop : Option α}
    (hm : Lands held raises lost offset m stop) {s : σ} (hs : held s) {e : ε}
    (he : m s = .error e) : raises e := by
  have hland := hm s hs
  rw [he] at hland
  exact hland.1

end Landing
