import Mathlib.Data.List.Sort

/-!
# The newest of a list

Of names that are kept up to a number, those go that have as many names behind them as are kept
(`mem_oldest`).
-/

namespace Newest

variable {K : Type*} [LinearOrder K]

/-- `sorted(names)[:-keep]`, of a number of names to keep that is not zero. -/
def oldest (keep : ℕ) (names : List K) : List K :=
  (names.insertionSort (· ≤ ·)).take (names.length - keep)

/-- The names after a name. -/
def later (names : List K) (x : K) : List K := names.filter (x < ·)

/-- **The oldest** are the names with as many later ones as are kept. -/
theorem mem_oldest {keep : ℕ} {names : List K} (h : names.Nodup) {x : K} :
    x ∈ oldest keep names ↔ x ∈ names ∧ keep ≤ (later names x).length := by
  have hperm := List.perm_insertionSort (α := K) (· ≤ ·) names
  have hlater : (later names x).length = (later (names.insertionSort (· ≤ ·)) x).length :=
    ((hperm.symm).filter _).length_eq
  have hlength := hperm.length_eq
  have hstrict : (names.insertionSort (· ≤ ·)).Pairwise (· < ·) :=
    (List.pairwise_insertionSort (· ≤ ·) names).imp₂ (fun _ _ hle hne => lt_of_le_of_ne hle hne)
      (hperm.nodup_iff.mpr h)
  rw [hlater, ← hperm.mem_iff, oldest, ← hlength]
  generalize names.insertionSort (· ≤ ·) = l at hstrict
  set n := l.length - keep with hn
  have hsplit := List.take_append_drop n l
  rw [← hsplit, List.pairwise_append] at hstrict
  obtain ⟨-, hdrop, hcross⟩ := hstrict
  constructor
  · intro hx
    refine ⟨List.mem_of_mem_take hx, ?_⟩
    -- all that are kept are later
    have hall : later (l.drop n) x = l.drop n :=
      List.filter_eq_self.mpr fun y hy => decide_eq_true (hcross x hx y hy)
    have hpos : 0 < n := by
      by_contra hzero
      rw [Nat.eq_zero_of_not_pos hzero, List.take_zero] at hx
      exact List.not_mem_nil hx
    have hkept : (l.drop n).length = keep := by
      rw [List.length_drop]
      omega
    calc keep = (later (l.drop n) x).length := by rw [hall, hkept]
      _ ≤ (later l x).length := ((List.drop_sublist n l).filter _).length_le
  · rintro ⟨hx, hmany⟩
    by_contra hno
    have hx : x ∈ l.drop n := by
      rw [← hsplit] at hx
      exact (List.mem_append.mp hx).resolve_left hno
    -- none of the older ones is later, and it is not later than itself
    have hnone : later (l.take n) x = [] :=
      List.filter_eq_nil_iff.mpr fun y hy => by simpa using (hcross y hy x hx).le
    have hself : (later (l.drop n) x).length < (l.drop n).length := by
      refine lt_of_le_of_ne (List.length_filter_le _ _) fun he => ?_
      have := List.length_filter_eq_length_iff.mp he x hx
      exact lt_irrefl x (of_decide_eq_true this)
    have hsum : (later l x).length = (later (l.drop n) x).length := by
      conv_lhs => rw [← hsplit, later, List.filter_append, ← later, ← later, hnone, List.nil_append]
    rw [List.length_drop] at hself
    omega

end Newest
