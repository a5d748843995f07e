import Caravan.Python.Find
import Mathlib.Data.List.DropRight

/-!
# Cutting one list at another

`split`, `partition` and `rsplit`, and `re.search` of a mark with a group behind it. They all look
for the first place where a list begins, so what they give is told by the parts in which it begins
nowhere: a part that ends in an element the list has not (`not_prefix_closed`), and a part without
the element that the list is known by (`not_prefix_marked`).
-/

namespace Python

variable {α : Type*}

/-! ### Where a list does not begin -/

theorem infix_append_of_disjoint {needle s : List α} (hne : needle ≠ []) (h : ∀ c ∈ s, c ∉ needle)
    (t : List α) : needle <:+: s ++ t ↔ needle <:+: t := by
  induction s with
  | nil => rw [List.nil_append]
  | cons c s ih =>
    have hc : needle <:+: [] ++ c :: (s ++ t) ↔ needle <:+: [] ∨ needle <:+: s ++ t :=
      infix_append_cons (h c List.mem_cons_self)
    rw [List.nil_append, List.infix_nil] at hc
    rw [List.cons_append, hc, ih fun d hd => h d (List.mem_cons_of_mem c hd)]
    exact or_iff_right hne

/-- A list begins nowhere in a part that it does not stand in, if the part ends in an element that
the list has not. -/
theorem not_prefix_closed {c : α} {needle s : List α} (hc : c ∉ needle) (hs : ¬ needle <:+: s)
    (t : List α) : ∀ r, r ≠ [] → r <:+ s ++ [c] → ¬ needle <+: r ++ t := by
  intro r hr hsuffix hp
  -- what is left of the part ends in the element too
  obtain ⟨r', rfl⟩ : ∃ r', r = r' ++ [c] := by
    obtain ⟨u, hu⟩ := hsuffix
    refine ⟨r.dropLast, ?_⟩
    have hlast : r.getLast? = some c := by
      rw [← List.getLast?_append_of_ne_nil u hr, hu, List.getLast?_concat]
    exact (List.dropLast_append_getLast? c hlast).symm
  have hr' : r' <:+ s := by
    obtain ⟨u, hu⟩ := hsuffix
    rw [← List.append_assoc] at hu
    exact ⟨u, List.append_cancel_right hu⟩
  rw [List.append_assoc, List.singleton_append, prefix_append_cons hc] at hp
  exact hs (hp.isInfix.trans hr'.isInfix)

/-- A list does not begin in a part without the element that it is known by, when that comes next
behind the same beginning. -/
theorem not_prefix_marked {c : α} {w r : List α} (hw : c ∉ w) (hr : c ∉ r) (hne : r ≠ [])
    (v u : List α) : ¬ w ++ c :: v <+: r ++ (w ++ c :: u) := by
  classical
  rintro ⟨x, hx⟩
  have hfree : ∀ {l : List α}, c ∉ l → ∀ d ∈ l, decide (d ≠ c) = true := fun h d hd =>
    decide_eq_true fun he => h (he ▸ hd)
  have htake := congrArg (List.takeWhile fun d => decide (d ≠ c)) hx
  rw [List.append_assoc, List.takeWhile_append_of_pos (hfree hw), List.cons_append,
    List.takeWhile_cons_of_neg (by rw [decide_eq_true_iff]; exact fun h => h rfl),
    List.takeWhile_append_of_pos (hfree hr), List.takeWhile_append_of_pos (hfree hw),
    List.takeWhile_cons_of_neg (by rw [decide_eq_true_iff]; exact fun h => h rfl)] at htake
  simp only [List.append_nil] at htake
  have hlen := congrArg List.length htake
  rw [List.length_append] at hlen
  exact hne (List.length_eq_zero_iff.mp (by omega))

/-- A list does not begin in a part without its first element. -/
theorem not_prefix_head {c : α} {w s : List α} (h : c ∉ s) (t : List α) :
    ∀ r, r ≠ [] → r <:+ s → ¬ c :: w <+: r ++ t := by
  intro r hr hs hp
  obtain ⟨d, r, rfl⟩ := List.exists_cons_of_ne_nil hr
  obtain ⟨rfl, -⟩ := List.cons_prefix_cons.mp hp
  exact h (hs.subset List.mem_cons_self)

variable [DecidableEq α]

/-! ### Splitting -/

/-- The parts between the places of a separator, as many elements being stepped over as are left of
the last place. -/
def splitFrom (sep : List α) : ℕ → List α → List (List α)
  | _, [] => [[]]
  | k + 1, _ :: l => splitFrom sep k l
  | 0, c :: l =>
    if sep.isPrefixOf (c :: l) then [] :: splitFrom sep (sep.length - 1) l
    else (splitFrom sep 0 l).modifyHead (c :: ·)

/-- `l.split(sep)`, of a separator that is not empty. -/
def split (l sep : List α) : List (List α) := splitFrom sep 0 l

theorem splitFrom_skip (sep s t : List α) : splitFrom sep s.length (s ++ t) = split t sep := by
  induction s with
  | nil => rfl
  | cons c s ih => exact ih

/-- The separator is cut off with what is before it. -/
theorem split_append {sep p t : List α} (hne : sep ≠ [])
    (h : ∀ r, r ≠ [] → r <:+ p → ¬ sep <+: r ++ (sep ++ t)) :
    split (p ++ (sep ++ t)) sep = p :: split t sep := by
  induction p with
  | nil =>
    obtain ⟨c, sep, rfl⟩ := List.exists_cons_of_ne_nil hne
    have hp : (c :: sep).isPrefixOf (c :: (sep ++ t)) = true :=
      List.isPrefixOf_iff_prefix.mpr (List.prefix_append (c :: sep) t)
    rw [List.nil_append, split, List.cons_append, splitFrom, if_pos hp, List.length_cons,
      Nat.add_sub_cancel, splitFrom_skip]
  | cons c p ih =>
    have hc : ¬ sep.isPrefixOf (c :: (p ++ (sep ++ t))) = true := fun hp =>
      h (c :: p) (List.cons_ne_nil c p) (List.suffix_refl _) (List.isPrefixOf_iff_prefix.mp hp)
    rw [split, List.cons_append, splitFrom, if_neg hc, ← split,
      ih fun r hr hs => h r hr (hs.trans (List.suffix_cons c p))]
    rfl

theorem split_of_not_infix {sep l : List α} (h : ¬ sep <:+: l) : split l sep = [l] := by
  induction l with
  | nil => rfl
  | cons c l ih =>
    have hc : ¬ sep.isPrefixOf (c :: l) = true := fun hp =>
      h (List.isPrefixOf_iff_prefix.mp hp).isInfix
    rw [split, splitFrom, if_neg hc, ← split,
      ih fun hl => h (hl.trans (List.suffix_cons c l).isInfix)]
    rfl

/-- `l.partition(sep)`: what is before and behind the first place, where there is one. -/
def partition (l sep : List α) : Option (List α × List α) :=
  (find l sep).map fun i => (l.take i, l.drop (i + sep.length))

theorem partition_append {sep p : List α} (t : List α)
    (h : ∀ r, r ≠ [] → r <:+ p → ¬ sep <+: r ++ (sep ++ t)) :
    partition (p ++ (sep ++ t)) sep = some (p, t) := by
  rw [partition, find_append h, find_of_prefix (List.prefix_append sep t), Option.map_some,
    Option.map_some, Nat.zero_add, List.take_left, ← List.drop_drop, List.drop_left,
    List.drop_left]

/-- `l.rsplit(sep, 1)[0]` -/
def beforeLast (l sep : List α) : List α :=
  match find l.reverse sep.reverse with
  | some i => (l.reverse.drop (i + sep.length)).reverse
  | none => l

theorem beforeLast_append (l sep : List α) : beforeLast (l ++ sep) sep = l := by
  have hfind : find (l ++ sep).reverse sep.reverse = some 0 :=
    find_of_prefix (by rw [List.reverse_append]; exact List.prefix_append _ _)
  rw [beforeLast, hfind]
  dsimp only
  have hlen : sep.length = sep.reverse.length := List.length_reverse.symm
  rw [List.reverse_append, Nat.zero_add, hlen, List.drop_left, List.reverse_reverse]

/-! ### Searching -/

/-- `re.search` of a mark that is not empty and a group: the first place of the mark behind which
the group matches. -/
def search {β : Type*} (mark : List α) (group : List α → Option β) : List α → Option β
  | [] => none
  | c :: l =>
    (if mark.isPrefixOf (c :: l) then group ((c :: l).drop mark.length) else none).or
      (search mark group l)

theorem search_append {β : Type*} {mark s t : List α} {group : List α → Option β}
    (h : ∀ r, r ≠ [] → r <:+ s → ¬ mark <+: r ++ t) :
    search mark group (s ++ t) = search mark group t := by
  induction s with
  | nil => rfl
  | cons c s ih =>
    have hc : ¬ mark.isPrefixOf (c :: (s ++ t)) = true := fun hp =>
      h (c :: s) (List.cons_ne_nil c s) (List.suffix_refl _) (List.isPrefixOf_iff_prefix.mp hp)
    rw [List.cons_append, search, if_neg hc, Option.none_or]
    exact ih fun r hr hs => h r hr (hs.trans (List.suffix_cons c s))

theorem search_of_mark {β : Type*} {mark t : List α} {group : List α → Option β} {b : β}
    (hne : mark ≠ []) (h : group t = some b) : search mark group (mark ++ t) = some b := by
  obtain ⟨c, mark, rfl⟩ := List.exists_cons_of_ne_nil hne
  have hp : (c :: mark).isPrefixOf (c :: (mark ++ t)) = true :=
    List.isPrefixOf_iff_prefix.mpr (List.prefix_append (c :: mark) t)
  rw [List.cons_append, search, if_pos hp, ← List.cons_append, List.drop_left, h]
  rfl

end Python
