import Mathlib.Data.List.Sort
import Mathlib.Algebra.Order.Group.Unbundled.Basic

/-!
# Half-open runs of a line

A run is a pair `(begin, end)` and covers what lies from its beginning up to, and not at, its end.

* `covered_merged` — merging the runs of a list covers what the list covers;
* `merged_apart` — the merged runs stand in order, with something uncovered between any two;
* `eq_singleton` — so runs that cover one stretch and nothing else are that stretch;
* `next_meets` — the first run that is not over tells whether a point is covered and up to where
  the next points are as it is.
-/

namespace Intervals

variable {A : Type*} [LinearOrder A]

/-- `begin <= x < end` -/
def Holds (r : A × A) (x : A) : Prop := r.1 ≤ x ∧ x < r.2

instance (r : A × A) (x : A) : Decidable (Holds r x) := inferInstanceAs (Decidable (_ ∧ _))

/-- Some run holds the point. -/
def Covered (runs : List (A × A)) (x : A) : Prop := ∃ r ∈ runs, Holds r x

/-- Each run is over before the later ones begin. -/
structure Apart (runs : List (A × A)) : Prop where
  proper : ∀ r ∈ runs, r.1 < r.2
  gaps : runs.Pairwise fun r s => r.2 < s.1

@[simp] theorem not_covered_nil (x : A) : ¬ Covered [] x := fun ⟨_, h, _⟩ => nomatch h

theorem covered_cons {r : A × A} {runs : List (A × A)} {x : A} :
    Covered (r :: runs) x ↔ Holds r x ∨ Covered runs x := by
  simp [Covered]

theorem covered_append {runs others : List (A × A)} {x : A} :
    Covered (runs ++ others) x ↔ Covered runs x ∨ Covered others x := by
  simp only [Covered, List.mem_append, or_and_right, exists_or]

theorem covered_perm {runs others : List (A × A)} (h : runs.Perm others) {x : A} :
    Covered runs x ↔ Covered others x := by
  simp only [Covered, h.mem_iff]

theorem covered_flatMap {B : Type*} {l : List B} {f : B → List (A × A)} {x : A} :
    Covered (l.flatMap f) x ↔ ∃ b ∈ l, Covered (f b) x := by
  simp only [Covered, List.mem_flatMap]
  constructor
  · rintro ⟨r, ⟨b, hb, hr⟩, hheld⟩
    exact ⟨b, hb, r, hr, hheld⟩
  · rintro ⟨b, hb, r, hr, hheld⟩
    exact ⟨r, ⟨b, hb, hr⟩, hheld⟩

theorem covered_map_add [AddGroup A] [AddRightMono A] {runs : List (A × A)} {k x : A} :
    Covered (runs.map fun r => (r.1 + k, r.2 + k)) x ↔ Covered runs (x - k) := by
  simp only [Covered, Holds, List.mem_map, le_sub_iff_add_le, sub_lt_iff_lt_add]
  constructor
  · rintro ⟨_, ⟨r, hr, rfl⟩, hheld⟩
    exact ⟨r, hr, hheld⟩
  · rintro ⟨r, hr, hheld⟩
    exact ⟨_, ⟨r, hr, rfl⟩, hheld⟩

/-! ### Merging -/

/-- One more run: it goes on with the last one where it begins no later than that one ends. -/
def join (out : List (A × A)) (r : A × A) : List (A × A) :=
  match out.getLast? with
  | some last => if r.1 ≤ last.2 then out.dropLast ++ [(last.1, max last.2 r.2)] else out ++ [r]
  | none => out ++ [r]

/-- The order of tuples. -/
def Before (r s : A × A) : Prop := r.1 < s.1 ∨ r.1 = s.1 ∧ r.2 ≤ s.2

instance (r s : A × A) : Decidable (Before r s) := inferInstanceAs (Decidable (_ ∨ _))

instance : Std.Total (Before (A := A)) := ⟨fun r s => by
  rcases lt_trichotomy r.1 s.1 with h | h | h
  · exact .inl (.inl h)
  · exact (le_total r.2 s.2).imp (.inr ⟨h, ·⟩) (.inr ⟨h.symm, ·⟩)
  · exact .inr (.inl h)⟩

instance : IsTrans (A × A) Before := ⟨fun r s t => by
  rintro (h | ⟨h, h'⟩) (k | ⟨k, k'⟩)
  · exact .inl (h.trans k)
  · exact .inl (k ▸ h)
  · exact .inl (h ▸ k)
  · exact .inr ⟨h.trans k, h'.trans k'⟩⟩

/-- The runs in order, each joined to the last one it touches. -/
def merged (runs : List (A × A)) : List (A × A) := (runs.insertionSort Before).foldl join []

/-- `join` after a run that begins no later. -/
theorem join_append (out : List (A × A)) (last r : A × A) :
    join (out ++ [last]) r =
      if r.1 ≤ last.2 then out ++ [(last.1, max last.2 r.2)] else out ++ [last] ++ [r] := by
  simp [join]

theorem covered_join {out : List (A × A)} {r : A × A} (hfirst : ∀ s ∈ out, s.1 ≤ r.1) {x : A} :
    Covered (join out r) x ↔ Covered out x ∨ Holds r x := by
  rcases List.eq_nil_or_concat out with rfl | ⟨out, last, rfl⟩
  · simp [join, covered_cons]
  · rw [List.concat_eq_append] at hfirst ⊢
    rw [join_append]
    have hlast : last.1 ≤ r.1 := hfirst last (by simp)
    split
    · next htouch =>
      -- the longer run holds what the two hold, since nothing lies between them
      have hone : Holds (last.1, max last.2 r.2) x ↔ Holds last x ∨ Holds r x := by
        simp only [Holds, lt_max_iff]
        constructor
        · rintro ⟨hl, hx | hx⟩
          · exact .inl ⟨hl, hx⟩
          · rcases lt_or_ge x r.1 with hr | hr
            · exact .inl ⟨hl, hr.trans_le htouch⟩
            · exact .inr ⟨hr, hx⟩
        · rintro (⟨hl, hx⟩ | ⟨hl, hx⟩)
          · exact ⟨hl, .inl hx⟩
          · exact ⟨hlast.trans hl, .inr hx⟩
      simp only [covered_append, covered_cons, not_covered_nil, or_false, hone, or_assoc]
    · simp only [covered_append, covered_cons, not_covered_nil, or_false]

theorem join_apart {out : List (A × A)} {r : A × A} (hout : Apart out) (hr : r.1 < r.2)
    (hfirst : ∀ s ∈ out, s.1 ≤ r.1) : Apart (join out r) := by
  rcases List.eq_nil_or_concat out with rfl | ⟨out, last, rfl⟩
  · exact ⟨by simpa [join] using hr, by simp [join]⟩
  · rw [List.concat_eq_append] at hfirst hout ⊢
    rw [join_append]
    have hlast : last.1 < last.2 := hout.proper last (by simp)
    have hgaps := List.pairwise_append.mp hout.gaps
    split
    · refine ⟨fun s hs => ?_, List.pairwise_append.mpr ⟨hgaps.1, List.pairwise_singleton .., ?_⟩⟩
      · rcases List.mem_append.mp hs with hs | hs
        · exact hout.proper s (List.mem_append_left _ hs)
        · rw [List.mem_singleton.mp hs]
          exact hlast.trans_le (le_max_left ..)
      · intro s hs t ht
        rw [List.mem_singleton.mp ht]
        exact hgaps.2.2 s hs last (by simp)
    · next hafter =>
      refine ⟨fun s hs => ?_, List.pairwise_append.mpr
        ⟨hout.gaps, List.pairwise_singleton .., fun s hs t ht => ?_⟩⟩
      · rcases List.mem_append.mp hs with hs | hs
        · exact hout.proper s hs
        · exact (List.mem_singleton.mp hs) ▸ hr
      · rw [List.mem_singleton.mp ht]
        rcases List.mem_append.mp hs with hs | hs
        · -- it is over before the last one begins
          calc s.2 < last.1 := hgaps.2.2 s hs last (by simp)
            _ ≤ r.1 := hfirst last (by simp)
        · exact (List.mem_singleton.mp hs) ▸ not_le.mp hafter

/-- What `join` leaves begins no later than what is still to come. -/
theorem join_first {out : List (A × A)} {r : A × A} {b : A} (hfirst : ∀ s ∈ out, s.1 ≤ b)
    (hr : r.1 ≤ b) : ∀ s ∈ join out r, s.1 ≤ b := by
  rcases List.eq_nil_or_concat out with rfl | ⟨out, last, rfl⟩
  · simpa [join] using hr
  · rw [List.concat_eq_append] at hfirst ⊢
    rw [join_append]
    have hlast := hfirst last (by simp)
    split <;> intro s hs
    · rcases List.mem_append.mp hs with hs | hs
      · exact hfirst s (List.mem_append_left _ hs)
      · exact (List.mem_singleton.mp hs) ▸ hlast
    · rcases List.mem_append.mp hs with hs | hs
      · exact hfirst s hs
      · exact (List.mem_singleton.mp hs) ▸ hr

/-- Joining runs in the order they begin, to runs that begin before them. -/
theorem foldl_join {runs out : List (A × A)} (hsorted : runs.Pairwise fun r s => r.1 ≤ s.1)
    (hproper : ∀ r ∈ runs, r.1 < r.2) (hout : Apart out)
    (hfirst : ∀ s ∈ out, ∀ r ∈ runs, s.1 ≤ r.1) :
    Apart (runs.foldl join out) ∧
      ∀ x, Covered (runs.foldl join out) x ↔ Covered out x ∨ Covered runs x := by
  induction runs generalizing out with
  | nil => exact ⟨hout, fun x => by simp⟩
  | cons r runs ih =>
    obtain ⟨hr, hsorted⟩ := List.pairwise_cons.mp hsorted
    have hbefore : ∀ s ∈ out, s.1 ≤ r.1 := fun s hs => hfirst s hs r List.mem_cons_self
    have hjoined := join_apart hout (hproper r List.mem_cons_self) hbefore
    have hlater : ∀ s ∈ join out r, ∀ t ∈ runs, s.1 ≤ t.1 := fun s hs t ht =>
      join_first (fun s hs => hfirst s hs t (List.mem_cons_of_mem _ ht)) (hr t ht) s hs
    obtain ⟨hapart, hcovered⟩ :=
      ih hsorted (fun s hs => hproper s (List.mem_cons_of_mem _ hs)) hjoined hlater
    refine ⟨hapart, fun x => ?_⟩
    rw [List.foldl_cons, hcovered, covered_join hbefore, covered_cons, or_assoc]

section Merged

variable {runs : List (A × A)} (hproper : ∀ r ∈ runs, r.1 < r.2)

include hproper

theorem merged_spec : Apart (merged runs) ∧ ∀ x, Covered (merged runs) x ↔ Covered runs x := by
  have hperm := List.perm_insertionSort Before runs
  have hsorted : (runs.insertionSort Before).Pairwise fun r s => r.1 ≤ s.1 :=
    (List.pairwise_insertionSort Before runs).imp fun h => h.elim le_of_lt (·.1.le)
  have hnil : Apart ([] : List (A × A)) := ⟨by simp, .nil⟩
  obtain ⟨hapart, hcovered⟩ := foldl_join hsorted (fun r hr => hproper r (hperm.mem_iff.mp hr))
    hnil (by simp)
  refine ⟨hapart, fun x => ?_⟩
  rw [merged, hcovered x, covered_perm hperm]
  simp

/-- **The merged runs** are apart. -/
theorem merged_apart : Apart (merged runs) := (merged_spec hproper).1

/-- **The merged runs** cover what the runs cover. -/
theorem covered_merged {x : A} : Covered (merged runs) x ↔ Covered runs x :=
  (merged_spec hproper).2 x

end Merged

/-! ### Runs that are apart -/

theorem Apart.tail {r : A × A} {runs : List (A × A)} (h : Apart (r :: runs)) : Apart runs :=
  ⟨fun s hs => h.proper s (List.mem_cons_of_mem _ hs), (List.pairwise_cons.mp h.gaps).2⟩

/-- Nothing before the end of a run, nor at it, is held by a later one. -/
theorem Apart.not_covered {r : A × A} {runs : List (A × A)} (h : Apart (r :: runs)) {x : A}
    (hx : x ≤ r.2) : ¬ Covered runs x := fun ⟨s, hs, hheld⟩ =>
  lt_irrefl x <| calc x ≤ r.2 := hx
    _ < s.1 := (List.pairwise_cons.mp h.gaps).1 s hs
    _ ≤ x := hheld.1

/-- The runs over one stretch. -/
theorem eq_singleton {runs : List (A × A)} (h : Apart runs) {lo hi : A} (hne : lo < hi)
    (hall : ∀ x, Covered runs x ↔ lo ≤ x ∧ x < hi) : runs = [(lo, hi)] := by
  cases runs with
  | nil => exact absurd ((hall lo).mpr ⟨le_rfl, hne⟩) (not_covered_nil lo)
  | cons r runs =>
    have hr := h.proper r List.mem_cons_self
    have hbegin := (hall r.1).mp (covered_cons.mpr (.inl ⟨le_rfl, hr⟩))
    -- the stretch begins with the first run, for nothing before that one is covered
    have hlo : r.1 = lo := by
      rcases covered_cons.mp ((hall lo).mpr ⟨le_rfl, hne⟩) with hheld | hlater
      · exact le_antisymm hheld.1 hbegin.1
      · exact absurd hlater (h.not_covered (hbegin.1.trans hr.le))
    -- and goes on to its end, which is not covered
    have hend : ¬ (lo ≤ r.2 ∧ r.2 < hi) := by
      rw [← hall, covered_cons, not_or]
      exact ⟨fun hheld => lt_irrefl _ hheld.2, h.not_covered le_rfl⟩
    have hhi : r.2 = hi := by
      refine le_antisymm (not_lt.mp fun hlt => ?_) (not_lt.mp fun hlt => hend ⟨hlo ▸ hr.le, hlt⟩)
      exact lt_irrefl hi ((hall hi).mp (covered_cons.mpr (.inl ⟨hbegin.2.le, hlt⟩))).2
    have hnone : runs = [] := by
      rcases runs with - | ⟨s, runs⟩
      · rfl
      · have hs := h.tail.proper s List.mem_cons_self
        have hcovered := (hall s.1).mp (covered_cons.mpr (.inr ⟨s, List.mem_cons_self, le_rfl, hs⟩))
        have hgap := (List.pairwise_cons.mp h.gaps).1 s List.mem_cons_self
        exact absurd (hhi ▸ hgap) hcovered.2.not_gt
    rw [hnone, ← hlo, ← hhi]

/-! ### What comes next -/

/-- `y` is the first point after `x` at which the answer is another one, and there is none where
no `y` is given. -/
def FirstChange (answer : A → Prop) (x : A) : Option A → Prop
  | some y => x < y ∧ (∀ z, x ≤ z → z < y → (answer z ↔ answer x)) ∧ ¬ (answer y ↔ answer x)
  | none => ∀ z, x ≤ z → (answer z ↔ answer x)

/-- What a point meets: it lies in a run that ends, or before one that begins. -/
inductive Next (A : Type*) where
  | ends (e : A)
  | begins (b : A)
  | nothing
deriving DecidableEq

/-- The first run that holds the point or comes after it. -/
def next (x : A) : List (A × A) → Next A
  | [] => .nothing
  | r :: runs =>
    if r.1 ≤ x ∧ x < r.2 then .ends r.2 else if x < r.1 then .begins r.1 else next x runs

/-- What is said of the points from `x` on by what comes next. -/
def Next.Meets (runs : List (A × A)) (x : A) : Next A → Prop
  | .ends e => x < e ∧ (∀ y, x ≤ y → y < e → Covered runs y) ∧ ¬ Covered runs e
  | .begins b => x < b ∧ (∀ y, x ≤ y → y < b → ¬ Covered runs y) ∧ Covered runs b
  | .nothing => ∀ y, x ≤ y → ¬ Covered runs y

/-- **What comes next** is what the runs say of the points from there on. -/
theorem next_meets {runs : List (A × A)} (h : Apart runs) (x : A) :
    (next x runs).Meets runs x := by
  induction runs with
  | nil => exact fun y _ => not_covered_nil y
  | cons r runs ih =>
    have hr := h.proper r List.mem_cons_self
    rw [next]
    by_cases hheld : r.1 ≤ x ∧ x < r.2
    · rw [if_pos hheld]
      refine ⟨hheld.2, fun y hxy hye => covered_cons.mpr (.inl ⟨hheld.1.trans hxy, hye⟩), ?_⟩
      rw [covered_cons, not_or]
      exact ⟨fun hend => lt_irrefl _ hend.2, h.not_covered le_rfl⟩
    rw [if_neg hheld]
    by_cases hbefore : x < r.1
    · rw [if_pos hbefore]
      refine ⟨hbefore, fun y _ hyb => ?_, covered_cons.mpr (.inl ⟨le_rfl, hr⟩)⟩
      rw [covered_cons, not_or]
      exact ⟨fun hheld => hheld.1.not_gt hyb, h.not_covered (hyb.le.trans hr.le)⟩
    rw [if_neg hbefore]
    -- the run is over at `x`, so the later ones decide
    have hover : r.2 ≤ x := not_lt.mp fun hlt => hheld ⟨not_lt.mp hbefore, hlt⟩
    have hskip : ∀ y, x ≤ y → (Covered (r :: runs) y ↔ Covered runs y) := fun y hxy =>
      covered_cons.trans (or_iff_right fun hin => (hover.trans hxy).not_gt hin.2)
    have hlater := ih h.tail
    generalize next x runs = found at hlater
    cases found with
    | ends e =>
      exact ⟨hlater.1, fun y hxy hye => (hskip y hxy).mpr (hlater.2.1 y hxy hye),
        fun hcov => hlater.2.2 ((hskip e hlater.1.le).mp hcov)⟩
    | begins b =>
      exact ⟨hlater.1, fun y hxy hyb hcov => hlater.2.1 y hxy hyb ((hskip y hxy).mp hcov),
        (hskip b hlater.1.le).mpr hlater.2.2⟩
    | nothing => exact fun y hxy hcov => hlater y hxy ((hskip y hxy).mp hcov)

end Intervals
