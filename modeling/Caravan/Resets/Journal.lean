import Caravan.Framework.Assoc
import Caravan.Python.Text
import Mathlib.Data.List.Pairwise
import Mathlib.Data.List.Sort
import Mathlib.Algebra.Order.Ring.Unbundled.Rat

/-!
# The journal of banked resets

`subscription-resets.json` holds the attempts to spend a reset, by their request id, and when
each account's quota was last reset. A write of it forgets the oldest attempts that have an
outcome, all but a hundred of them; an attempt without one is kept (`get_trim`). What a write
forgets has a hundred others behind it that were begun no earlier (`doomed_crowded`).
-/

namespace Resets

open Python

/-- `SubscriptionResetDesk.OUTCOMES` -/
inductive Outcome
  | reset
  | already_redeemed
  | nothing_to_reset
  | no_credit
  deriving DecidableEq, Repr

/-- A row of `attempts`. `begun` is its `at`. -/
structure Attempt where
  accountId : Text
  creditId : Text
  begun : ℚ
  outcome : Option Outcome := none
  deriving DecidableEq, Repr

abbrev Attempts := List (Text × Attempt)

/-- The file's content. -/
structure Journal where
  attempts : Attempts := []
  resets : List (Text × ℚ) := []
  deriving DecidableEq, Repr

/-- The keys of the attempts that have an outcome, by when they were begun. -/
def completed (rows : Attempts) : Attempts :=
  (rows.filter fun p => p.2.outcome.isSome).insertionSort fun p q => p.2.begun ≤ q.2.begun

/-- `completed[:-100]` -/
def doomed (rows : Attempts) : List Text :=
  ((completed rows).take ((completed rows).length - 100)).map Prod.fst

/-- What `SubscriptionResetJournal.write` leaves of the attempts. -/
def trim (rows : Attempts) : Attempts := rows.filter fun p => p.1 ∉ doomed rows

/-- What `SubscriptionResetJournal.write` writes. -/
def Journal.trimmed (data : Journal) : Journal := { data with attempts := trim data.attempts }

variable {rows : Attempts} {k : Text}

theorem get_trim (rows : Attempts) (k : Text) :
    Assoc.get (trim rows) k = if k ∈ doomed rows then none else Assoc.get rows k := by
  unfold trim
  rw [Assoc.get_filter_key rows (fun k => decide (k ∉ doomed rows))]
  by_cases h : k ∈ doomed rows
  · simp [h]
  · simp [h]

theorem trim_distinct (h : Assoc.Distinct rows) : Assoc.Distinct (trim rows) := h.filter _

/-- A row with as much behind it as the journal keeps. -/
def Crowded (rows : Attempts) (k : Text) : Prop :=
  ∃ row, Assoc.get rows k = some row ∧ row.outcome.isSome ∧
    ∃ later : List Text, later.length = 100 ∧ later.Nodup ∧ k ∉ later ∧ ∀ k' ∈ later,
      ∃ row', Assoc.get rows k' = some row' ∧ row'.outcome.isSome ∧ row.begun ≤ row'.begun

theorem mem_completed (h : Assoc.Distinct rows) {p : Text × Attempt} :
    p ∈ completed rows ↔ Assoc.get rows p.1 = some p.2 ∧ p.2.outcome.isSome := by
  rw [completed, List.mem_insertionSort, List.mem_filter, h.mem_iff_get]

theorem completed_keys (h : Assoc.Distinct rows) : ((completed rows).map Prod.fst).Nodup :=
  ((List.perm_insertionSort _ _).map Prod.fst).nodup_iff.mpr (h.filter _)

/-- **What a write forgets**: an attempt with an outcome, behind which there are a hundred such
attempts that were begun no earlier. -/
theorem doomed_crowded (h : Assoc.Distinct rows) (hk : k ∈ doomed rows) : Crowded rows k := by
  obtain ⟨p, hp, rfl⟩ := List.mem_map.mp hk
  have hmem := (mem_completed h).mp (List.mem_of_mem_take hp)
  refine ⟨p.2, hmem.1, hmem.2,
    ((completed rows).drop ((completed rows).length - 100)).map Prod.fst, ?_, ?_, ?_, ?_⟩
  · -- something is forgotten, so there are more than a hundred
    have hlen : 100 ≤ (completed rows).length := by
      by_contra hshort
      rw [Nat.sub_eq_zero_of_le (by omega), List.take_zero] at hp
      exact List.not_mem_nil hp
    rw [List.length_map, List.length_drop]
    omega
  · exact (completed_keys h).sublist ((List.drop_sublist _ _).map Prod.fst)
  · intro hlater
    have hnodup := completed_keys h
    rw [← List.take_append_drop ((completed rows).length - 100) (completed rows), List.map_append,
      List.nodup_append] at hnodup
    exact hnodup.2.2 _ hk _ hlater rfl
  · intro k' hk'
    obtain ⟨p', hp', rfl⟩ := List.mem_map.mp hk'
    have hmem' := (mem_completed h).mp (List.mem_of_mem_drop hp')
    refine ⟨p'.2, hmem'.1, hmem'.2, ?_⟩
    have hsorted : (completed rows).Pairwise fun p q => p.2.begun ≤ q.2.begun := by
      have : Std.Total fun p q : Text × Attempt => p.2.begun ≤ q.2.begun :=
        ⟨fun p q => le_total _ _⟩
      have : IsTrans (Text × Attempt) fun p q => p.2.begun ≤ q.2.begun :=
        ⟨fun _ _ _ => le_trans⟩
      exact List.pairwise_insertionSort _ _
    rw [← List.take_append_drop ((completed rows).length - 100) (completed rows),
      List.pairwise_append] at hsorted
    exact hsorted.2.2 p hp p' hp'

/-- An attempt without an outcome is not forgotten. -/
theorem not_doomed_of_pending (h : Assoc.Distinct rows) {row : Attempt}
    (hrow : Assoc.get rows k = some row) (hno : row.outcome = none) : k ∉ doomed rows := by
  intro hk
  obtain ⟨row', hrow', hsome, -⟩ := doomed_crowded h hk
  rw [hrow] at hrow'
  rw [← Option.some.inj hrow', hno] at hsome
  exact nomatch hsome

end Resets
