import Mathlib.Data.List.Nodup
import Mathlib.Data.List.Range

/-!
# What is read at the places that steps lead to

Steps lead to places, and at each place everything that is held there is read. Two steps may lead
to one place, and a place may be missed: what is due is read exactly once if and only if neither
happens where it matters (`once_iff`).
-/

namespace Visits

variable {D α : Type}

/-- The list holds what is due, each once, and nothing else. -/
structure Once {β : Type} (l : List β) (due : β → Prop) : Prop where
  nodup : l.Nodup
  mem : ∀ b, b ∈ l ↔ due b

variable (place : ℕ → D) (held : D → List α)

/-- What the first `n` steps read, with the step it was read at. -/
def steps (n : ℕ) : List (ℕ × α) :=
  (List.range n).flatMap fun i => (held (place i)).map fun a => (i, a)

/-- What the first `n` steps read, with the place it was read at. -/
def visits (n : ℕ) : List (D × α) := (steps place held n).map fun p => (place p.1, p.2)

/-- Where `n` steps read what is due, and nothing twice. -/
structure Exact (n : ℕ) (due : D × α → Prop) : Prop where
  reached : ∀ d a, due (d, a) → a ∈ held d ∧ ∃ i < n, place i = d
  only : ∀ i < n, ∀ a ∈ held (place i), due (place i, a)
  apart : ∀ i j, i < j → j < n → place i = place j → held (place i) = []

variable {place held} {n k : ℕ}

theorem mem_steps {p : ℕ × α} : p ∈ steps place held n ↔ p.1 < n ∧ p.2 ∈ held (place p.1) := by
  simp only [steps, List.mem_flatMap, List.mem_range, List.mem_map]
  constructor
  · rintro ⟨i, hi, a, ha, rfl⟩
    exact ⟨hi, ha⟩
  · exact fun ⟨hi, ha⟩ => ⟨p.1, hi, p.2, ha, rfl⟩

theorem mem_visits {p : D × α} :
    p ∈ visits place held n ↔ p.2 ∈ held p.1 ∧ ∃ i < n, place i = p.1 := by
  simp only [visits, List.mem_map, mem_steps]
  constructor
  · rintro ⟨⟨i, a⟩, ⟨hi, ha⟩, rfl⟩
    exact ⟨ha, i, hi, rfl⟩
  · rintro ⟨ha, i, hi, hp⟩
    exact ⟨(i, p.2), ⟨hi, by rwa [hp]⟩, by rw [hp]⟩

theorem steps_succ (n : ℕ) : steps place held (n + 1) =
    steps place held n ++ (held (place n)).map fun a => (n, a) := by
  rw [steps, List.range_succ, List.flatMap_append, List.flatMap_singleton]
  rfl

theorem nodup_steps (hheld : ∀ d, (held d).Nodup) (n : ℕ) : (steps place held n).Nodup := by
  induction n with
  | zero => exact List.nodup_nil
  | succ n ih =>
    rw [steps_succ]
    refine List.nodup_append.mpr ⟨ih, (hheld _).map fun _ _ h => (Prod.mk.inj h).2, ?_⟩
    rintro p hp q hq rfl
    obtain ⟨a, -, rfl⟩ := List.mem_map.mp hq
    exact absurd (mem_steps.mp hp).1 (lt_irrefl n)

/-- **Nothing is read twice** exactly if steps that lead to one place find nothing there. -/
theorem nodup_visits (hheld : ∀ d, (held d).Nodup) : (visits place held n).Nodup ↔
    ∀ i j, i < j → j < n → place i = place j → held (place i) = [] := by
  constructor
  · intro h i j hij hj hplace
    by_contra hne
    obtain ⟨a, ha⟩ := List.exists_mem_of_ne_nil _ hne
    have hi : (i, a) ∈ steps place held n := mem_steps.mpr ⟨hij.trans hj, ha⟩
    have hj : (j, a) ∈ steps place held n := mem_steps.mpr ⟨hj, by rwa [← hplace]⟩
    have heq := List.inj_on_of_nodup_map h hi hj (by rw [hplace])
    exact hij.ne (Prod.mk.inj heq).1
  · intro h
    refine (List.nodup_map_iff_inj_on (nodup_steps hheld n)).mpr ?_
    rintro ⟨i, a⟩ hi ⟨j, b⟩ hj heq
    obtain ⟨hplace, rfl⟩ := Prod.mk.inj heq
    obtain ⟨hin, hai⟩ := mem_steps.mp hi
    obtain ⟨hjn, haj⟩ := mem_steps.mp hj
    rcases lt_trichotomy i j with hij | rfl | hij
    · exact absurd hai (by rw [h i j hij hjn hplace]; exact List.not_mem_nil)
    · rfl
    · exact absurd haj (by rw [h j i hij hin hplace.symm]; exact List.not_mem_nil)

/-- **What is due is read exactly once** if and only if the steps reach it, read nothing else, and
do not come to it twice. -/
theorem once_iff (hheld : ∀ d, (held d).Nodup) {due : D × α → Prop} :
    Once (visits place held n) due ↔ Exact place held n due := by
  constructor
  · intro h
    refine ⟨fun d a hdue => mem_visits.mp ((h.mem (d, a)).mpr hdue), fun i hi a ha => ?_,
      (nodup_visits hheld).mp h.nodup⟩
    exact (h.mem _).mp (mem_visits.mpr ⟨ha, i, hi, rfl⟩)
  · intro h
    refine ⟨(nodup_visits hheld).mpr h.apart, fun p => ⟨fun hp => ?_, fun hdue => ?_⟩⟩
    · obtain ⟨ha, i, hi, hplace⟩ := mem_visits.mp hp
      have hdue := h.only i hi p.2 (by rwa [hplace])
      rwa [hplace] at hdue
    · exact mem_visits.mpr (h.reached p.1 p.2 hdue)

/-- The steps before one. -/
theorem filter_steps (k n : ℕ) : (steps place held n).filter (fun p => p.1 < k) =
    steps place held (min n k) := by
  induction n with
  | zero => rw [Nat.zero_min]; rfl
  | succ n ih =>
    rw [steps_succ, List.filter_append, ih]
    by_cases hk : n < k
    · have hall : ((held (place n)).map fun a => (n, a)).filter (fun p => p.1 < k) =
          (held (place n)).map fun a => (n, a) := by
        refine List.filter_eq_self.mpr fun p hp => ?_
        obtain ⟨a, -, rfl⟩ := List.mem_map.mp hp
        exact decide_eq_true hk
      rw [hall, min_eq_left hk.le, min_eq_left hk, steps_succ]
    · have hnone : ((held (place n)).map fun a => (n, a)).filter (fun p => p.1 < k) = [] := by
        refine List.filter_eq_nil_iff.mpr fun p hp => ?_
        obtain ⟨a, -, rfl⟩ := List.mem_map.mp hp
        exact fun h => hk (of_decide_eq_true h)
      rw [hnone, List.append_nil, min_eq_right (not_lt.mp hk),
        min_eq_right ((not_lt.mp hk).trans n.le_succ)]

/-- What is not looked at is not read. -/
theorem filter_held (p : α → Bool) (n : ℕ) :
    (steps place held n).filter (fun q => p q.2) =
      steps place (fun d => (held d).filter p) n := by
  rw [steps, steps, List.filter_flatMap]
  refine List.flatMap_congr fun i _ => ?_
  rw [List.filter_map]
  rfl

end Visits
