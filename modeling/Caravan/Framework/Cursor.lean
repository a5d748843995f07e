import Mathlib.Data.List.Pairwise
import Mathlib.Data.List.Sort

/-!
# A log that is read on from a cursor

A log grows at its end and is cut at its front, and every entry has a stamp. A reader holds a copy;
it asks for what is stamped after a cursor and puts it behind what it holds.

`Copies b c held log` says that from the bound `b` on the copy holds what the log has up to the
cursor `c`. It lasts while the bound rises (`Copies.later`), while the log grows by stamps after the
cursor (`Copies.append`) and while the log is cut below the bound (`Copies.cut`). From a log in the
order of its stamps, what is stamped after the cursor makes the copy whole (`Copies.top`).
-/

namespace Cursor

variable {α K : Type*} [LinearOrder K] (stamp : α → K)

/-- In the order of the stamps. -/
def Ordered (l : List α) : Prop := l.Pairwise fun a b => stamp a ≤ stamp b

/-- What is stamped after the cursor. -/
def after (c : K) (l : List α) : List α := l.filter fun a => c < stamp a

/-- What is stamped up to the cursor. -/
def upto (c : K) (l : List α) : List α := l.filter fun a => stamp a ≤ c

/-- What is stamped from the bound on. -/
def kept (b : K) (l : List α) : List α := l.filter fun a => b ≤ stamp a

/-- From the bound on, a copy of the log up to the cursor. -/
def Copies (b c : K) (held log : List α) : Prop :=
  kept stamp b held = kept stamp b (upto stamp c log)

/-- Cut before the first entry that passes, and left as it is where none does. -/
def fromFirst (p : α → Bool) (l : List α) : List α :=
  match l.findIdx? p with
  | some start => if 0 < start then l.drop start else l
  | none => l

variable {stamp} {b b' c : K} {l l' held log more : List α}

/-! ### Parts of a log -/

theorem mem_after {a : α} : a ∈ after stamp c l ↔ a ∈ l ∧ c < stamp a := by
  rw [after, List.mem_filter, decide_eq_true_iff]

theorem mem_kept {a : α} : a ∈ kept stamp b l ↔ a ∈ l ∧ b ≤ stamp a := by
  rw [kept, List.mem_filter, decide_eq_true_iff]

theorem kept_append : kept stamp b (l ++ l') = kept stamp b l ++ kept stamp b l' :=
  List.filter_append ..

/-- A higher bound has the last word. -/
theorem kept_kept (h : b ≤ b') : kept stamp b' (kept stamp b l) = kept stamp b' l := by
  rw [kept, kept, List.filter_filter]
  refine List.filter_congr fun a _ => ?_
  rw [Bool.and_eq_left_iff_imp, decide_eq_true_iff, decide_eq_true_iff]
  exact h.trans

theorem kept_eq_self (h : ∀ a ∈ l, b ≤ stamp a) : kept stamp b l = l :=
  List.filter_eq_self.mpr fun a ha => decide_eq_true (h a ha)

theorem upto_eq_self (h : ∀ a ∈ l, stamp a ≤ c) : upto stamp c l = l :=
  List.filter_eq_self.mpr fun a ha => decide_eq_true (h a ha)

theorem upto_eq_nil (h : ∀ a ∈ l, c < stamp a) : upto stamp c l = [] :=
  List.filter_eq_nil_iff.mpr fun a ha hle => absurd (of_decide_eq_true hle) (h a ha).not_ge

theorem after_eq_self (h : ∀ a ∈ l, c < stamp a) : after stamp c l = l :=
  List.filter_eq_self.mpr fun a ha => decide_eq_true (h a ha)

theorem after_eq_nil (h : ∀ a ∈ l, stamp a ≤ c) : after stamp c l = [] :=
  List.filter_eq_nil_iff.mpr fun a ha hlt => absurd (of_decide_eq_true hlt) (h a ha).not_gt

/-- A cursor further on has the last word. -/
theorem after_after {c' : K} (h : c' ≤ c) : after stamp c (after stamp c' l) = after stamp c l := by
  rw [after, after, List.filter_filter]
  refine List.filter_congr fun a _ => ?_
  rw [Bool.and_eq_left_iff_imp, decide_eq_true_iff, decide_eq_true_iff]
  exact h.trans_lt

theorem filter_swap (p q : α → Bool) (l : List α) :
    (l.filter p).filter q = (l.filter q).filter p := by
  rw [List.filter_filter, List.filter_filter]
  exact List.filter_congr fun a _ => Bool.and_comm _ _

theorem kept_upto : kept stamp b (upto stamp c l) = upto stamp c (kept stamp b l) :=
  filter_swap ..

theorem kept_after : kept stamp b (after stamp c l) = after stamp c (kept stamp b l) :=
  filter_swap ..

theorem Ordered.sublist (h : Ordered stamp l) (hsub : l'.Sublist l) : Ordered stamp l' :=
  List.Pairwise.sublist hsub h

theorem Ordered.append (h : Ordered stamp l) (h' : Ordered stamp l')
    (hbetween : ∀ a ∈ l, ∀ a' ∈ l', stamp a ≤ stamp a') : Ordered stamp (l ++ l') :=
  List.pairwise_append.mpr ⟨h, h', hbetween⟩

/-- **A log in order** is what is stamped up to a cursor, and then what is stamped after it. -/
theorem Ordered.split (h : Ordered stamp l) (c : K) :
    upto stamp c l ++ after stamp c l = l := by
  induction l with
  | nil => rfl
  | cons a l ih =>
    obtain ⟨hfirst, hrest⟩ := List.pairwise_cons.mp h
    rcases le_or_gt (stamp a) c with hle | hlt
    · have hupto : upto stamp c (a :: l) = a :: upto stamp c l :=
        List.filter_cons_of_pos (decide_eq_true hle)
      have hafter : after stamp c (a :: l) = after stamp c l :=
        List.filter_cons_of_neg fun hlt => absurd (of_decide_eq_true hlt) hle.not_gt
      rw [hupto, hafter, List.cons_append, ih hrest]
    · -- all of it is stamped after the cursor
      have hall : ∀ x ∈ a :: l, c < stamp x := by
        intro x hx
        rcases List.mem_cons.mp hx with rfl | hx
        · exact hlt
        · exact hlt.trans_le (hfirst x hx)
      rw [upto_eq_nil hall, after_eq_self hall, List.nil_append]

/-- In a log in order, taking away what is under the bound at the front takes away all of it. -/
theorem Ordered.dropWhile (h : Ordered stamp l) (b : K) :
    l.dropWhile (fun a => stamp a < b) = kept stamp b l := by
  induction l with
  | nil => rfl
  | cons a l ih =>
    obtain ⟨hfirst, hrest⟩ := List.pairwise_cons.mp h
    rcases le_or_gt b (stamp a) with hle | hlt
    · have hall : ∀ x ∈ a :: l, b ≤ stamp x := by
        intro x hx
        rcases List.mem_cons.mp hx with rfl | hx
        · exact hle
        · exact hle.trans (hfirst x hx)
      rw [kept_eq_self hall, List.dropWhile_cons_of_neg]
      exact fun hlt => absurd (of_decide_eq_true hlt) hle.not_gt
    · have hkept : kept stamp b (a :: l) = kept stamp b l :=
        List.filter_cons_of_neg fun hle => absurd (of_decide_eq_true hle) hlt.not_ge
      rw [hkept, List.dropWhile_cons]
      exact (if_pos (decide_eq_true hlt)).trans (ih hrest)

/-! ### Copies -/

theorem Copies.later (h : Copies stamp b c held log) (hb : b ≤ b') :
    Copies stamp b' c held log := by
  unfold Copies at h ⊢
  rw [← kept_kept hb, h, kept_kept hb]

theorem Copies.append (h : Copies stamp b c held log) (hmore : ∀ a ∈ more, c < stamp a) :
    Copies stamp b c held (log ++ more) := by
  unfold Copies at h ⊢
  have hupto : upto stamp c (log ++ more) = upto stamp c log := by
    rw [upto, List.filter_append]
    exact (congrArg _ (upto_eq_nil hmore)).trans (List.append_nil _)
  rw [hupto, h]

theorem Copies.cut (h : Copies stamp b c held log) : Copies stamp b c held (kept stamp b log) := by
  unfold Copies at h ⊢
  rw [← kept_upto, kept_kept le_rfl, h]

/-- A copy of all of it, all of which is up to the cursor. -/
theorem copies_whole (h : kept stamp b held = kept stamp b log) (hlog : ∀ a ∈ log, stamp a ≤ c) :
    Copies stamp b c held log := by
  unfold Copies
  rw [upto_eq_self hlog, h]

/-- **Topping up**: what is stamped after the cursor makes the copy whole, from the bound on. -/
theorem Copies.top (h : Copies stamp b c held log) (hlog : Ordered stamp log) :
    kept stamp b (held ++ after stamp c log) = kept stamp b log :=
  calc kept stamp b (held ++ after stamp c log)
      = kept stamp b (upto stamp c log) ++ kept stamp b (after stamp c log) := by
        rw [kept_append]
        exact congrArg (· ++ _) h
    _ = kept stamp b (upto stamp c log ++ after stamp c log) := kept_append.symm
    _ = kept stamp b log := by rw [hlog.split c]

/-! ### Cutting before the first that passes -/

/-- What is cut away does not pass. -/
theorem filter_fromFirst {p q : α → Bool} (hpq : ∀ a ∈ l, q a = true → p a = true) :
    (fromFirst p l).filter q = l.filter q := by
  unfold fromFirst
  split
  · next start hstart =>
    split
    · obtain ⟨hlt, -, hbefore⟩ := List.findIdx?_eq_some_iff_getElem.mp hstart
      have hnone : (l.take start).filter q = [] := by
        refine List.filter_eq_nil_iff.mpr fun a ha hq => ?_
        obtain ⟨i, hi, rfl⟩ := List.mem_take_iff_getElem.mp ha
        exact hbefore i (Nat.lt_of_lt_of_le hi (Nat.min_le_left ..)) (hpq _ (List.getElem_mem _) hq)
      calc (l.drop start).filter q
          = (l.take start).filter q ++ (l.drop start).filter q := by rw [hnone, List.nil_append]
        _ = l.filter q := by rw [← List.filter_append, List.take_append_drop]
    · rfl
  · rfl

theorem fromFirst_of_exists {p : α → Bool} (h : ∃ a ∈ l, p a = true) :
    fromFirst p l = l.dropWhile fun a => !p a := by
  induction l with
  | nil => exact absurd h (by simp)
  | cons a l ih =>
    cases ha : p a with
    | true =>
      rw [fromFirst, List.findIdx?_cons, if_pos ha, List.dropWhile_cons_of_neg (by simp [ha])]
      rfl
    | false =>
      have hrest : ∃ a ∈ l, p a = true := by
        obtain ⟨x, hx, hpass⟩ := h
        rcases List.mem_cons.mp hx with rfl | hx
        · exact absurd hpass (by simp [ha])
        · exact ⟨x, hx, hpass⟩
      have ih := ih hrest
      obtain ⟨start, hstart⟩ : ∃ start, l.findIdx? p = some start :=
        Option.isSome_iff_exists.mp (List.findIdx?_isSome.trans (List.any_eq_true.mpr hrest))
      rw [List.dropWhile_cons_of_pos (by simp [ha]), ← ih, fromFirst, fromFirst,
        List.findIdx?_cons, if_neg (by simp [ha]), hstart]
      show (if 0 < start + 1 then (a :: l).drop (start + 1) else a :: l) =
        if 0 < start then l.drop start else l
      rw [if_pos (Nat.succ_pos start), List.drop_succ_cons]
      split
      · rfl
      · next hzero => rw [Nat.eq_zero_of_not_pos hzero, List.drop_zero]

/-- A log in order, some of which is from the bound on. -/
theorem Ordered.fromFirst (h : Ordered stamp l) (hex : ∃ a ∈ l, b ≤ stamp a) :
    fromFirst (fun a => b ≤ stamp a) l = kept stamp b l := by
  have hex' : ∃ a ∈ l, decide (b ≤ stamp a) = true := by
    obtain ⟨a, ha, hle⟩ := hex
    exact ⟨a, ha, decide_eq_true hle⟩
  rw [fromFirst_of_exists hex', ← h.dropWhile b]
  congr 1
  funext a
  rw [← decide_not]
  exact decide_eq_decide.mpr not_le

/-! ### The newest first -/

/-- Of a list in falling order, what is kept of its first entries. -/
theorem kept_take (h : l.Pairwise fun a a' => stamp a' ≤ stamp a) (n : ℕ) :
    kept stamp b (l.take n) = (kept stamp b l).take n := by
  induction l generalizing n with
  | nil => rw [List.take_nil]; exact List.take_nil.symm
  | cons a l ih =>
    obtain ⟨hfirst, hrest⟩ := List.pairwise_cons.mp h
    cases n with
    | zero => rfl
    | succ n =>
      rcases le_or_gt b (stamp a) with hle | hlt
      · have hcons : ∀ l : List α, kept stamp b (a :: l) = a :: kept stamp b l :=
          fun _ => List.filter_cons_of_pos (decide_eq_true hle)
        rw [List.take_succ_cons, hcons, hcons, List.take_succ_cons, ih hrest]
      · -- nothing behind it is kept either
        have hnone : ∀ m : List α, m.Sublist (a :: l) → kept stamp b m = [] := by
          intro m hm
          refine List.filter_eq_nil_iff.mpr fun x hx hle => ?_
          have hsmall : stamp x ≤ stamp a := by
            rcases List.mem_cons.mp (hm.subset hx) with rfl | hx
            · exact le_rfl
            · exact hfirst x hx
          exact absurd (of_decide_eq_true hle) (hsmall.trans_lt hlt).not_ge
        rw [hnone _ (List.take_sublist _ _), hnone _ (List.Sublist.refl _), List.take_nil]

/-- Sorting and leaving out, in either order. -/
theorem insertionSort_filter (r : α → α → Prop) [DecidableRel r] [Std.Total r] [IsTrans α r]
    (p : α → Bool) (l : List α) :
    (l.filter p).insertionSort r = (l.insertionSort r).filter p := by
  have hinsert : ∀ (a : α) (l : List α), l.Pairwise r → (l.orderedInsert r a).filter p =
      if p a then (l.filter p).orderedInsert r a else l.filter p := by
    intro a l hl
    induction l with
    | nil => cases ha : p a <;> simp [ha]
    | cons x l ih =>
      obtain ⟨hfirst, hrest⟩ := List.pairwise_cons.mp hl
      have ih := ih hrest
      rw [List.orderedInsert_cons]
      split
      · next hax =>
        -- it comes before all that are left
        have hbefore : (List.filter p (x :: l)).orderedInsert r a =
            a :: List.filter p (x :: l) := by
          cases hleft : List.filter p (x :: l) with
          | nil => rfl
          | cons y m =>
            have hy : y ∈ x :: l := List.mem_of_mem_filter (hleft ▸ List.mem_cons_self)
            have hay : r a y := by
              rcases List.mem_cons.mp hy with rfl | hy
              · exact hax
              · exact IsTrans.trans _ _ _ hax (hfirst y hy)
            exact List.orderedInsert_cons_of_le _ _ hay
        rw [hbefore, List.filter_cons]
      · next hax =>
        rw [List.filter_cons, ih, List.filter_cons]
        cases ha : p a with
        | false => rfl
        | true =>
          cases p x with
          | false => rfl
          | true => exact (List.orderedInsert_of_not_le _ _ hax).symm
  induction l with
  | nil => rfl
  | cons a l ih =>
    rw [List.insertionSort_cons, hinsert a _ (List.pairwise_insertionSort r l), ← ih,
      List.filter_cons]
    split
    · rfl
    · rfl

end Cursor
