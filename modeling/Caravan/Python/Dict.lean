import Caravan.Framework.Assoc
import Caravan.Python.Value

/-!
# Reading a dictionary after it is written

A key that is set holds its value, and every other key what it held. A key that is popped
and put back is in another place, so two dictionaries are compared by their entries
(`List.Perm`).
-/

namespace Python

variable {d : Dict} {k k' : Text} {v w : Value}

theorem Dict.has_iff : d.has k = true ↔ ∃ v, d.lookup k = some v := Option.isSome_iff_exists

theorem Dict.get_of_lookup (h : d.lookup k = some v) : d.get k = v := by
  unfold Dict.get
  rw [h]
  rfl

/-- What a map that keeps the keys makes of one of them. -/
theorem lookup_map_set (d : Dict) (k k' : Text) (v : Value) :
    (d.map fun p => if p.1 = k then (k, v) else p).lookup k' =
      if k' = k then (d.lookup k).map fun _ => v else d.lookup k' := by
  induction d with
  | nil => split <;> rfl
  | cons p d ih =>
    obtain ⟨a, x⟩ := p
    rw [List.map_cons, List.lookup_cons]
    by_cases ha : a = k
    · subst ha
      rw [if_pos rfl]
      by_cases hk : k' = a
      · subst hk
        simp
      · have hne : (k' == a) = false := beq_eq_false_iff_ne.mpr hk
        rw [ih, if_neg hk, if_neg hk, hne, List.lookup_cons, hne]
    · rw [if_neg ha]
      by_cases hk : k' = k
      · subst hk
        rw [ih, List.lookup_cons, if_pos rfl, if_pos rfl, beq_eq_false_iff_ne.mpr (Ne.symm ha)]
      · rw [ih, if_neg hk, if_neg hk, List.lookup_cons]

theorem Dict.lookup_set (d : Dict) (k k' : Text) (v : Value) :
    (d.set k v).lookup k' = if k' = k then some v else d.lookup k' := by
  unfold Dict.set
  split
  next h =>
    rw [lookup_map_set]
    obtain ⟨x, hx⟩ := Dict.has_iff.mp h
    rw [hx]
    rfl
  next h =>
    have hnone : d.lookup k = none := by
      rw [Dict.has_iff] at h
      exact Option.eq_none_iff_forall_ne_some.mpr fun x hx => h ⟨x, hx⟩
    rw [List.lookup_append]
    split
    next hk =>
      subst hk
      rw [hnone]
      simp
    next hk =>
      have hne : (k' == k) = false := beq_eq_false_iff_ne.mpr hk
      rw [List.lookup_cons, hne, List.lookup_nil, Option.or_none]

theorem Dict.get_set (d : Dict) (k k' : Text) (v : Value) :
    (d.set k v).get k' = if k' = k then v else d.get k' := by
  unfold Dict.get
  rw [Dict.lookup_set]
  split <;> rfl

theorem Dict.has_set (d : Dict) (k k' : Text) (v : Value) :
    (d.set k v).has k' = (decide (k' = k) || d.has k') := by
  unfold Dict.has
  rw [Dict.lookup_set]
  split
  next h => rw [decide_eq_true h]; rfl
  next h => rw [decide_eq_false h]; rfl

theorem map_set_of_not_has (h : d.has k = false) :
    (d.map fun p => if p.1 = k then (k, v) else p) = d := by
  induction d with
  | nil => rfl
  | cons p d ih =>
    obtain ⟨a, x⟩ := p
    unfold Dict.has at h ih
    rw [List.lookup_cons] at h
    by_cases ha : a = k
    · subst ha
      simp at h
    · have hne : (k == a) = false := beq_eq_false_iff_ne.mpr (Ne.symm ha)
      rw [hne] at h
      rw [List.map_cons, if_neg ha, ih h]

/-- Of two values set one after the other, the second stays. -/
theorem Dict.set_set (d : Dict) (k : Text) (v w : Value) : (d.set k v).set k w = d.set k w := by
  have hhas : (d.set k v).has k = true := by rw [Dict.has_set, decide_eq_true rfl, Bool.true_or]
  unfold Dict.set at hhas ⊢
  rw [if_pos hhas]
  by_cases h : d.has k = true
  · rw [if_pos h, if_pos h, List.map_map]
    refine List.map_congr_left fun p _ => ?_
    by_cases hp : p.1 = k
    · simp only [Function.comp_apply, if_pos hp, if_true]
    · simp only [Function.comp_apply, if_neg hp]
  · rw [if_neg h, if_neg h, List.map_append,
      map_set_of_not_has (Bool.eq_false_of_not_eq_true h)]
    simp

/-- A key that is filtered by. -/
theorem lookup_filter_key (d : Dict) (P : Text → Bool) (k : Text) :
    (d.filter fun p => P p.1).lookup k = if P k then d.lookup k else none := by
  induction d with
  | nil => simp
  | cons p d ih =>
    obtain ⟨a, x⟩ := p
    rw [List.filter_cons, List.lookup_cons]
    by_cases ha : k = a
    · subst ha
      rw [beq_self_eq_true]
      split
      · next h => rw [List.lookup_cons, beq_self_eq_true]
      · next h => rw [ih, if_neg h]
    · rw [beq_eq_false_iff_ne.mpr ha]
      split
      · rw [List.lookup_cons, beq_eq_false_iff_ne.mpr ha, ih]
      · exact ih

/-- A key that is left out can be set. -/
theorem Dict.filter_set (d : Dict) {P : Text → Bool} (hk : P k = false) (v : Value) :
    ((d.set k v).filter fun p => P p.1) = d.filter fun p => P p.1 := by
  unfold Dict.set
  split
  · clear * - hk
    induction d with
    | nil => rfl
    | cons p d ih =>
      rw [List.map_cons, List.filter_cons, List.filter_cons, ih]
      by_cases h : p.1 = k
      · rw [if_pos h, h, hk]
        rfl
      · rw [if_neg h]
  · rw [List.filter_append, List.filter_cons, hk]
    exact List.append_nil _

/-! ### Distinct keys -/

theorem mem_keys_iff : k ∈ d.map Prod.fst ↔ d.has k = true := by
  rw [Dict.has_iff]
  induction d with
  | nil => simp
  | cons p d ih =>
    obtain ⟨a, x⟩ := p
    rw [List.map_cons, List.mem_cons, ih, List.lookup_cons]
    by_cases ha : k = a
    · subst ha
      exact iff_of_true (.inl rfl) ⟨x, by rw [beq_self_eq_true]⟩
    · rw [beq_eq_false_iff_ne.mpr ha]
      exact or_iff_right ha

theorem keys_map_set (d : Dict) (k : Text) (v : Value) :
    (d.map fun p => if p.1 = k then (k, v) else p).map Prod.fst = d.map Prod.fst := by
  rw [List.map_map]
  refine List.map_congr_left fun p _ => ?_
  by_cases hp : p.1 = k
  · rw [Function.comp_apply, if_pos hp, hp]
  · rw [Function.comp_apply, if_neg hp]

theorem Dict.distinct_set (h : Assoc.Distinct d) (k : Text) (v : Value) :
    Assoc.Distinct (d.set k v) := by
  unfold Assoc.Distinct Dict.set
  split
  · rw [keys_map_set]
    exact h
  next hk =>
    rw [List.map_append, List.nodup_append]
    refine ⟨h, List.nodup_cons.mpr ⟨List.not_mem_nil, List.nodup_nil⟩, fun a ha b hb => ?_⟩
    rw [List.mem_singleton.mp hb]
    rintro rfl
    exact hk (mem_keys_iff.mp ha)

/-- A key that is set to what it holds. -/
theorem Dict.set_lookup_self (h : Assoc.Distinct d) (hv : d.lookup k = some v) :
    d.set k v = d := by
  unfold Dict.set
  rw [if_pos (Dict.has_iff.mpr ⟨v, hv⟩)]
  induction d with
  | nil => rfl
  | cons p d ih =>
    obtain ⟨a, x⟩ := p
    obtain ⟨ha, hd⟩ := List.nodup_cons.mp h
    rw [List.lookup_cons] at hv
    rw [List.map_cons]
    by_cases hak : a = k
    · subst hak
      rw [beq_self_eq_true] at hv
      have hno : Dict.has d a = false :=
        Bool.eq_false_of_not_eq_true fun hhas => ha (mem_keys_iff.mpr hhas)
      rw [if_pos rfl, map_set_of_not_has hno, Option.some.inj hv]
    · rw [beq_eq_false_iff_ne.mpr (Ne.symm hak)] at hv
      rw [if_neg hak, ih hd hv]

end Python
