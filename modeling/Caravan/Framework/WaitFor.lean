import Mathlib.Logic.Relation
import Mathlib.Order.Basic
import Mathlib.Tactic.Common

/-!
# Waiting for locks

Threads hold locks and wait for one at a time. `WaitsFor t u` says that `t` waits for a lock
that `u` holds, and a deadlock is a cycle of it; a thread that waits for a lock it holds
itself is the shortest one. Where the locks can be ranked so that every thread waits above
what it holds, there is none (`not_transGen_self`).
-/

namespace WaitFor

variable {T L : Type*}

/-- `t` waits for a lock that `u` holds. -/
def WaitsFor (holder : L → Option T) (waits : T → Option L) (t u : T) : Prop :=
  ∃ l, waits t = some l ∧ holder l = some u

/-- Every thread waits for a lock above those it holds. -/
def Ascends (holder : L → Option T) (waits : T → Option L) (rank : L → ℕ) : Prop :=
  ∀ t l l', waits t = some l → holder l' = some t → rank l' < rank l

variable {holder : L → Option T} {waits : T → Option L} {rank : L → ℕ}

/-- Along a chain of waiting the ranks do not fall. -/
theorem exists_held_of_transGen (h : Ascends holder waits rank) {t u : T}
    (htu : Relation.TransGen (WaitsFor holder waits) t u) {l : L} (hl : waits t = some l) :
    ∃ l', holder l' = some u ∧ rank l ≤ rank l' := by
  induction htu with
  | single hstep =>
    obtain ⟨l', hw, hu⟩ := hstep
    obtain rfl := Option.some.inj (hl.symm.trans hw)
    exact ⟨l, hu, Nat.le_refl _⟩
  | tail _ hstep ih =>
    obtain ⟨l₁, hheld, hle⟩ := ih
    obtain ⟨l₂, hw, hu⟩ := hstep
    exact ⟨l₂, hu, Nat.le_trans hle (Nat.le_of_lt (h _ l₂ l₁ hw hheld))⟩

/-- **Ranked locks never deadlock.** -/
theorem not_transGen_self (h : Ascends holder waits rank) (t : T) :
    ¬ Relation.TransGen (WaitsFor holder waits) t t := by
  intro hcycle
  obtain ⟨u, ⟨l, hl, -⟩, -⟩ := Relation.TransGen.head'_iff.mp hcycle
  obtain ⟨l', hheld, hle⟩ := exists_held_of_transGen h hcycle hl
  exact absurd (h t l l' hl hheld) (Nat.not_lt.mpr hle)

end WaitFor
