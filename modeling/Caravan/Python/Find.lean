import Mathlib.Data.List.Infix

/-!
# Finding one list in another

`bytes.find` and `str.find`, as the first place where a list begins in another one. What begins
nowhere in a first part is found in what follows it (`find_append`), and a list whose first element
it has but once does not begin in one part and end in the next, when that begins with the element
itself (`not_prefix_append`).
-/

namespace Python

variable {α : Type*}

/-! ### Where a list stands -/

/-- A list does not begin in another one and end behind it, if its first element, which it has
but once, stands there. -/
theorem not_prefix_append {c : α} {w s t : List α} (hc : c ∉ w) (hs : s ≠ [])
    (ht : t.head? = some c) (h : ¬ (c :: w) <:+: s) : ¬ (c :: w) <+: s ++ t := by
  intro hp
  rcases List.prefix_or_prefix_of_prefix hp (List.prefix_append s t) with hin | ⟨u, hu⟩
  · exact h hin.isInfix
  rw [← hu] at hp
  cases u with
  | nil => exact h ⟨[], [], by rw [← hu, List.append_nil, List.append_nil]; rfl⟩
  | cons e u =>
    obtain ⟨v, rfl⟩ := (List.prefix_append_right_inj s).mp hp
    obtain rfl : e = c := Option.some.inj ht
    cases s with
    | nil => exact hs rfl
    | cons d s =>
      obtain ⟨-, rfl⟩ := List.cons.inj hu
      exact hc (List.mem_append_right _ List.mem_cons_self)

/-- A list does not stand over an element that it has not. -/
theorem prefix_append_cons {c : α} {needle s t : List α} (hc : c ∉ needle) :
    needle <+: s ++ c :: t ↔ needle <+: s := by
  refine ⟨fun hp => ?_, fun hp => hp.trans (List.prefix_append _ _)⟩
  rcases List.prefix_or_prefix_of_prefix hp (List.prefix_append s _) with hin | ⟨u, rfl⟩
  · exact hin
  cases u with
  | nil => exact ⟨[], by rw [List.append_nil, List.append_nil]⟩
  | cons d u =>
    obtain ⟨rfl, -⟩ := List.cons_prefix_cons.mp ((List.prefix_append_right_inj s).mp hp)
    exact absurd (List.mem_append_right _ List.mem_cons_self) hc

theorem infix_append_cons {c : α} {needle s t : List α} (hc : c ∉ needle) :
    needle <:+: s ++ c :: t ↔ needle <:+: s ∨ needle <:+: t := by
  induction s with
  | nil =>
    rw [List.nil_append, List.infix_cons_iff, ← List.nil_append (c :: t),
      prefix_append_cons hc, List.infix_nil, List.prefix_nil]
  | cons d s ih =>
    rw [List.cons_append, List.infix_cons_iff, ih, List.infix_cons_iff, ← List.cons_append,
      prefix_append_cons hc, or_assoc]

/-! ### Finding -/

variable [DecidableEq α]

/-- `l.find(needle)` -/
def find : List α → List α → Option ℕ
  | [], needle => if needle = [] then some 0 else none
  | c :: l, needle => if needle.isPrefixOf (c :: l) then some 0 else (find l needle).map (· + 1)

theorem find_of_prefix {needle t : List α} (h : needle <+: t) : find t needle = some 0 := by
  cases t with
  | nil =>
    rw [List.prefix_nil.mp h]
    rfl
  | cons c t => exact if_pos (List.isPrefixOf_iff_prefix.mpr h)

theorem prefix_of_find {needle t : List α} (h : find t needle = some 0) : needle <+: t := by
  cases t with
  | nil =>
    unfold find at h
    split at h
    · next hnil => rw [hnil]
    · cases h
  | cons c t =>
    unfold find at h
    split at h
    · next hprefix => exact List.isPrefixOf_iff_prefix.mp hprefix
    · -- what is found further on is not found at the beginning
      obtain ⟨k, -, hk⟩ := Option.map_eq_some_iff.mp h
      exact absurd hk (Nat.succ_ne_zero k)

/-- What begins nowhere in the first part is found in the second. -/
theorem find_append {needle s t : List α} (h : ∀ r, r ≠ [] → r <:+ s → ¬ needle <+: r ++ t) :
    find (s ++ t) needle = (find t needle).map (· + s.length) := by
  induction s with
  | nil => exact Option.map_id'.symm
  | cons c s ih =>
    have hc : ¬ needle.isPrefixOf (c :: (s ++ t)) = true := fun hp =>
      h (c :: s) (List.cons_ne_nil c s) (List.suffix_refl _) (List.isPrefixOf_iff_prefix.mp hp)
    rw [List.cons_append, find, if_neg hc,
      ih fun r hr hs => h r hr (hs.trans (List.suffix_cons c s)), Option.map_map]
    rfl

/-- **The first place** of a list is where it is put behind a part that it does not stand in, as
long as its first element is none of its others. -/
theorem find_behind {c : α} {w s t : List α} (hc : c ∉ w) (hs : ¬ (c :: w) <:+: s)
    (ht : (c :: w) <+: t) : find (s ++ t) (c :: w) = some s.length := by
  have hhead : t.head? = some c := by
    obtain ⟨u, rfl⟩ := ht
    rfl
  have hlater : ∀ r, r ≠ [] → r <:+ s → ¬ (c :: w) <+: r ++ t := fun r hr hrs =>
    not_prefix_append hc hr hhead fun h => hs (h.trans hrs.isInfix)
  rw [find_append hlater, find_of_prefix ht, Option.map_some, Nat.zero_add]

end Python
