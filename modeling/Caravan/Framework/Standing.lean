import Mathlib.Data.List.Basic

/-!
# Words that stand in texts

Words stand in texts (`Stand`) when each is found whole in one of them, in their order and none
upon another. It says less than that the texts are the words: something else may stand between.
Counting tells when they do not: the words that stand in texts have no more of anything than the
texts (`Stand.countP_le`).
-/

variable {α : Type}

/-- **Words stand in texts**: in their order, each whole in one of them, and none upon another. -/
inductive Stand : List (List α) → List (List α) → Prop
  | nil (texts) : Stand [] texts
  | word (before) {w behind ws texts} (rest : Stand ws (behind :: texts)) :
      Stand (w :: ws) ((before ++ w ++ behind) :: texts)
  | next (text) {ws texts} (rest : Stand ws texts) : Stand ws (text :: texts)

namespace Stand

variable {ws ws' texts texts' : List (List α)}

/-- Words stand in themselves. -/
theorem refl (ws : List (List α)) : Stand ws ws := by
  induction ws with
  | nil => exact nil []
  | cons w ws ih =>
    have h := @word α [] w [] ws ws (next [] ih)
    rwa [List.nil_append, List.append_nil] at h

theorem nil_right_iff : Stand ws [] ↔ ws = [] := by
  constructor
  · intro h
    cases h
    rfl
  · rintro rfl
    exact nil []

/-- More may stand before the words of a text. -/
theorem prepend (before : List α) {text : List α} (h : Stand ws (text :: texts)) :
    Stand ws ((before ++ text) :: texts) := by
  cases h with
  | nil => exact nil _
  | word before' rest =>
    rw [← List.append_assoc, ← List.append_assoc]
    exact word (before ++ before') rest
  | next _ rest => exact next _ rest

theorem filter (p : List α → Bool) (h : Stand ws texts) : Stand (ws.filter p) texts := by
  induction h with
  | nil texts => exact nil texts
  | @word before w behind ws texts _ ih =>
    by_cases hw : p w = true
    · rw [List.filter_cons_of_pos hw]
      exact word before ih
    · rw [List.filter_cons_of_neg hw]
      exact ih.prepend (before ++ w)
  | next text _ ih => exact next text ih

/-- **The words have no more of anything** than the texts that they stand in. -/
theorem countP_le (p : α → Bool) (h : Stand ws texts) :
    ws.flatten.countP p ≤ texts.flatten.countP p := by
  induction h with
  | nil => exact Nat.zero_le _
  | word before _ ih =>
    rw [List.flatten_cons, List.countP_append] at ih
    rw [List.flatten_cons, List.flatten_cons, List.countP_append, List.countP_append,
      List.countP_append, List.countP_append]
    omega
  | next text _ ih =>
    rw [List.flatten_cons, List.countP_append]
    exact Nat.le_add_left_of_le ih

/-- Words stand in what they are joined to. -/
theorem intercalate (sep : List α) (ws : List (List α)) : Stand ws [sep.intercalate ws] := by
  match ws with
  | [] => exact nil _
  | [w] =>
    rw [List.intercalate_singleton]
    exact refl [w]
  | w :: w' :: ws =>
    rw [List.intercalate_cons_cons]
    have h := @word α [] w _ _ _ ((intercalate sep (w' :: ws)).prepend sep)
    rwa [List.nil_append, ← List.append_assoc] at h

end Stand

/-- What the words have is what their join has, where what stands between them has nothing. -/
theorem countP_intercalate (p : α → Bool) {sep : List α} (hsep : sep.countP p = 0)
    (ws : List (List α)) : (sep.intercalate ws).countP p = ws.flatten.countP p := by
  match ws with
  | [] => rfl
  | [w] => rw [List.intercalate_singleton, List.flatten_singleton]
  | w :: w' :: ws =>
    rw [List.intercalate_cons_cons, List.countP_append, List.countP_append, hsep, Nat.add_zero,
      countP_intercalate p hsep (w' :: ws), ← List.countP_append]
    rfl
