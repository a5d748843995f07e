import Mathlib.Data.Multiset.Lattice

/-!
# What grows, read piece by piece

A text that grows is read from time to time, each reading from where the one before began to be
sure of it. Ends of lines cut a text into its `pieces`: the lines that are ended (`complete`),
and what stands after the last end (`rest`).

What is read is gathered in a semilattice, so a line that is read twice counts once. A reading
that begins or ends inside a line sees a part of it. `Cut` says when this is harmless: the parts
count for nothing, and the line itself counts for nothing or was read before as a whole. Then the
readings together are one reading of the lines that are ended (`read_on`).
-/

namespace Pieces

variable {α : Type*} (isEnd : α → Bool)

/-- What a text goes on with belongs to its last line. -/
def addFirst (x : List α) : List (List α) → List (List α)
  | [] => [x]
  | p :: ps => (x ++ p) :: ps

/-- The lines of a text; the last is what stands after the last end, and may be empty. -/
def pieces : List α → List (List α)
  | [] => [[]]
  | c :: b => if isEnd c then [] :: pieces b else addFirst [c] (pieces b)

/-- The lines that are ended. -/
def complete (b : List α) : List (List α) := (pieces isEnd b).dropLast

/-- What stands after the last end. -/
def rest (b : List α) : List α := (pieces isEnd b).getLastD []

/-- What stands before the first end. -/
def first (b : List α) : List α := (pieces isEnd b).headD []

/-- The text has an end of a line. -/
def Ended (b : List α) : Prop := complete isEnd b ≠ []

variable {isEnd} {a b x m : List α}

theorem addFirst_ne_nil (x : List α) (ps : List (List α)) : addFirst x ps ≠ [] := by
  cases ps with
  | nil => exact List.cons_ne_nil _ _
  | cons p ps => exact List.cons_ne_nil _ _

theorem addFirst_addFirst (x y : List α) (ps : List (List α)) :
    addFirst x (addFirst y ps) = addFirst (x ++ y) ps := by
  cases ps with
  | nil => rfl
  | cons p ps =>
    show (x ++ (y ++ p)) :: ps = (x ++ y ++ p) :: ps
    rw [List.append_assoc]

variable (isEnd) in
theorem pieces_ne_nil (b : List α) : pieces isEnd b ≠ [] := by
  cases b with
  | nil => exact List.cons_ne_nil _ _
  | cons c b =>
    rw [pieces]
    split
    · exact List.cons_ne_nil _ _
    · exact addFirst_ne_nil _ _

variable (isEnd) in
theorem pieces_eq (b : List α) : pieces isEnd b = complete isEnd b ++ [rest isEnd b] := by
  have hlast := List.dropLast_append_getLast (pieces_ne_nil isEnd b)
  rw [complete, rest, List.getLastD_eq_getLast?,
    List.getLast?_eq_some_getLast (pieces_ne_nil isEnd b), Option.getD_some]
  exact hlast.symm

theorem complete_of_pieces {l : List (List α)} {r : List α} (h : pieces isEnd b = l ++ [r]) :
    complete isEnd b = l ∧ rest isEnd b = r := by
  rw [complete, rest, h]
  exact ⟨List.dropLast_concat, List.getLastD_concat⟩

variable (isEnd) in
theorem pieces_first (b : List α) : ∃ q, pieces isEnd b = first isEnd b :: q := by
  cases h : pieces isEnd b with
  | nil => exact absurd h (pieces_ne_nil isEnd b)
  | cons p q => exact ⟨q, by rw [first, h]; rfl⟩

/-- **A text that goes on** continues its last line. -/
theorem pieces_append (a b : List α) : pieces isEnd (a ++ b) =
    complete isEnd a ++ addFirst (rest isEnd a) (pieces isEnd b) := by
  induction a with
  | nil =>
    obtain ⟨q, hq⟩ := pieces_first isEnd b
    show pieces isEnd b = [] ++ addFirst [] (pieces isEnd b)
    rw [hq]
    rfl
  | cons c a ih =>
    rw [List.cons_append, pieces]
    have ha := pieces_eq isEnd a
    by_cases hc : isEnd c = true
    · have hpieces : pieces isEnd (c :: a) = ([] :: complete isEnd a) ++ [rest isEnd a] := by
        rw [pieces, if_pos hc, ha]
        rfl
      obtain ⟨hcomplete, hrest⟩ := complete_of_pieces hpieces
      rw [if_pos hc, ih, hcomplete, hrest]
      rfl
    · rw [if_neg hc, ih]
      cases hlines : complete isEnd a with
      | nil =>
        have hpieces : pieces isEnd (c :: a) = [] ++ [c :: rest isEnd a] := by
          rw [pieces, if_neg hc, ha, hlines]
          rfl
        obtain ⟨hcomplete, hrest⟩ := complete_of_pieces hpieces
        rw [hcomplete, hrest]
        exact addFirst_addFirst _ _ _
      | cons p ps =>
        have hpieces : pieces isEnd (c :: a) = ((c :: p) :: ps) ++ [rest isEnd a] := by
          rw [pieces, if_neg hc, ha, hlines]
          rfl
        obtain ⟨hcomplete, hrest⟩ := complete_of_pieces hpieces
        rw [hcomplete, hrest]
        rfl

/-- The lines that are ended when the text goes on: those that were, the one that was not if it
is now, and those that come after. -/
theorem complete_append (a b : List α) : complete isEnd (a ++ b) =
    complete isEnd a ++ (addFirst (rest isEnd a) (pieces isEnd b)).dropLast := by
  rw [complete, pieces_append, List.dropLast_append_of_ne_nil (addFirst_ne_nil _ _)]

theorem complete_subset (h : a <+: b) : complete isEnd a ⊆ complete isEnd b := by
  obtain ⟨r, rfl⟩ := h
  rw [complete_append]
  exact List.subset_append_left _ _

/-- The line that a text ends in, if what comes after has an end. -/
theorem line_mem (h : Ended isEnd b) :
    rest isEnd x ++ first isEnd b ∈ complete isEnd (x ++ b) := by
  rw [complete_append]
  refine List.mem_append_right _ ?_
  obtain ⟨q, hq⟩ := pieces_first isEnd b
  cases q with
  | nil =>
    rw [Ended, complete, hq] at h
    exact absurd rfl h
  | cons p q =>
    rw [hq]
    exact List.mem_cons_self

/-- What is ended after a text, line by line. -/
theorem mem_complete_append {l : List α} (h : l ∈ complete isEnd (x ++ b)) :
    l ∈ complete isEnd x ∨ (l = rest isEnd x ++ first isEnd b ∧ Ended isEnd b) ∨
      l ∈ (complete isEnd b).tail := by
  rw [complete_append] at h
  rcases List.mem_append.mp h with h | h
  · exact .inl h
  · right
    obtain ⟨q, hq⟩ := pieces_first isEnd b
    rw [Ended, complete, hq]
    rw [hq] at h
    cases q with
    | nil => exact absurd h List.not_mem_nil
    | cons p q =>
      rcases List.mem_cons.mp h with rfl | h
      · exact .inl ⟨rfl, List.cons_ne_nil _ _⟩
      · exact .inr h

section Tally

variable {S : Type*} [SemilatticeSup S] [OrderBot S] (c : List α → S)

/-- What some lines count for, together. -/
def tally (lines : List (List α)) : S := Multiset.sup (lines.map c : Multiset S)

variable {c} {lines lines' : List (List α)}

theorem le_tally {l : List α} (h : l ∈ lines) : c l ≤ tally c lines :=
  Multiset.le_sup (Multiset.mem_coe.mpr (List.mem_map_of_mem h))

theorem tally_le {s : S} (h : ∀ l ∈ lines, c l ≤ s) : tally c lines ≤ s := by
  refine Multiset.sup_le.mpr fun t ht => ?_
  obtain ⟨l, hl, rfl⟩ := List.mem_map.mp (Multiset.mem_coe.mp ht)
  exact h l hl

theorem tally_mono (h : lines ⊆ lines') : tally c lines ≤ tally c lines' :=
  tally_le fun _ hl => le_tally (h hl)

theorem tally_cons (l : List α) (lines : List (List α)) :
    tally c (l :: lines) = c l ⊔ tally c lines := by
  rw [tally, List.map_cons, ← Multiset.cons_coe, Multiset.sup_cons]
  rfl

variable (isEnd c) in
/-- **A reading that cuts no line that counts**: `x` stands before its begin, `b` is what it
reads, and `m` is the part of it that was read before. -/
structure Cut (x m b : List α) : Prop where
  /-- What it ends in counts for nothing. -/
  last : c (rest isEnd b) = ⊥
  /-- So does what it begins in. -/
  begins : rest isEnd x ≠ [] → c (first isEnd b) = ⊥
  /-- And the line that it begins in, if that was not read as a whole. -/
  line : rest isEnd x ≠ [] → Ended isEnd b →
    c (rest isEnd x ++ first isEnd b) = ⊥ ∨ Ended isEnd m

/-- **A further reading** adds what it reads to what was read, and the lines that are ended are
counted. -/
theorem read_on (hm : m <+: b) (h : Cut isEnd c x m b) :
    tally c (complete isEnd (x ++ m)) ⊔ tally c (pieces isEnd b) =
      tally c (complete isEnd (x ++ b)) := by
  have hold : complete isEnd (x ++ m) ⊆ complete isEnd (x ++ b) :=
    complete_subset ((List.prefix_append_right_inj x).mpr hm)
  refine le_antisymm (sup_le (tally_mono hold) (tally_le fun l hl => ?_)) (tally_le fun l hl => ?_)
  · -- a piece that is read is a line that is ended, or it counts for nothing
    rw [pieces_eq] at hl
    rcases List.mem_append.mp hl with hl | hl
    · obtain ⟨q, hq⟩ := pieces_first isEnd b
      have hended : Ended isEnd b := List.ne_nil_of_mem hl
      rw [complete, hq] at hl
      cases q with
      | nil => exact absurd hl List.not_mem_nil
      | cons p q =>
        rcases List.mem_cons.mp hl with rfl | hl
        · by_cases hx : rest isEnd x = []
          · have hline := line_mem (x := x) hended
            rw [hx, List.nil_append] at hline
            exact le_tally hline
          · rw [h.begins hx]
            exact bot_le
        · refine le_tally ?_
          rw [complete_append, hq]
          exact List.mem_append_right _ (List.mem_cons_of_mem _ hl)
    · rw [List.mem_singleton.mp hl, h.last]
      exact bot_le
  · rcases mem_complete_append hl with hl | ⟨rfl, hended⟩ | hl
    · refine le_sup_of_le_left (le_tally ?_)
      exact complete_subset (List.prefix_append x m) hl
    · by_cases hx : rest isEnd x = []
      · refine le_sup_of_le_right (le_tally ?_)
        obtain ⟨q, hq⟩ := pieces_first isEnd b
        rw [hx, List.nil_append, hq]
        exact List.mem_cons_self
      · rcases h.line hx hended with hnone | hread
        · rw [hnone]
          exact bot_le
        · -- the line was read before, up to its end
          have hsame : first isEnd m = first isEnd b := by
            obtain ⟨r, rfl⟩ := hm
            obtain ⟨q, hq⟩ := pieces_first isEnd m
            cases q with
            | nil =>
              rw [Ended, complete, hq] at hread
              exact absurd rfl hread
            | cons p q =>
              rw [first, first, pieces_append, complete, hq]
              rfl
          rw [← hsame]
          exact le_sup_of_le_left (le_tally (line_mem hread))
    · refine le_sup_of_le_right (le_tally ?_)
      rw [pieces_eq]
      exact List.mem_append_left _ (List.mem_of_mem_tail hl)

end Tally

end Pieces
