import Mathlib.Data.List.Basic
import Mathlib.Data.List.Lookmap

/-!
# Finite maps as association lists

A map held as a list of key–value pairs, read at the first pair with the key. It
is the model of a directory tree, and of every dictionary whose order of keys
plays no part. `put` and `del` leave the other keys as they were
(`get_put_of_ne`, `get_del_of_ne`); the keys stay distinct under both
(`Distinct.put`, `Distinct.del`), which is what reading the pairs themselves
needs (`mem_iff_get`).
-/

namespace Assoc

variable {K V : Type} [DecidableEq K]

/-- The value under a key. -/
def get (m : List (K × V)) (k : K) : Option V :=
  match m with
  | [] => none
  | (k', v) :: m => if k' = k then some v else get m k

/-- The map without a key. -/
def del (m : List (K × V)) (k : K) : List (K × V) := m.filter (fun p => p.1 ≠ k)

/-- The map with a key set. -/
def put (m : List (K × V)) (k : K) (v : V) : List (K × V) := (k, v) :: del m k

/-- No key stands twice. -/
def Distinct (m : List (K × V)) : Prop := (m.map Prod.fst).Nodup

@[simp] theorem get_nil (k : K) : get ([] : List (K × V)) k = none := rfl

theorem get_cons (p : K × V) (m : List (K × V)) (k : K) :
    get (p :: m) k = if p.1 = k then some p.2 else get m k := rfl

@[simp] theorem get_del_self (m : List (K × V)) (k : K) : get (del m k) k = none := by
  induction m with
  | nil => rfl
  | cons p m ih =>
    by_cases h : p.1 = k
    · simpa [del, h] using ih
    · simpa [del, h, get_cons] using ih

theorem get_del_of_ne (m : List (K × V)) {k k' : K} (h : k' ≠ k) :
    get (del m k) k' = get m k' := by
  induction m with
  | nil => rfl
  | cons p m ih =>
    by_cases hp : p.1 = k
    · have hne : p.1 ≠ k' := fun e => h (e.symm.trans hp)
      rw [get_cons, if_neg hne, ← ih]
      simp [del, hp]
    · have hd : del (p :: m) k = p :: del m k := by simp [del, hp]
      rw [hd, get_cons, get_cons, ih]

@[simp] theorem get_put_self (m : List (K × V)) (k : K) (v : V) :
    get (put m k v) k = some v := by
  simp [put, get_cons]

theorem get_put_of_ne (m : List (K × V)) {k k' : K} (v : V) (h : k' ≠ k) :
    get (put m k v) k' = get m k' := by
  rw [put, get_cons, if_neg (Ne.symm h), get_del_of_ne m h]

theorem get_put (m : List (K × V)) (k k' : K) (v : V) :
    get (put m k v) k' = if k' = k then some v else get m k' := by
  by_cases h : k' = k
  · subst h; simp
  · rw [if_neg h, get_put_of_ne m v h]

theorem get_del (m : List (K × V)) (k k' : K) :
    get (del m k) k' = if k' = k then none else get m k' := by
  by_cases h : k' = k
  · subst h; simp
  · rw [if_neg h, get_del_of_ne m h]

theorem mem_of_get {m : List (K × V)} {k : K} {v : V} (h : get m k = some v) :
    (k, v) ∈ m := by
  induction m with
  | nil => simp at h
  | cons p m ih =>
    rw [get_cons] at h
    split at h
    · next hp =>
      obtain rfl := Option.some.inj h
      subst hp
      exact List.mem_cons_self
    · exact List.mem_cons_of_mem _ (ih h)

/-- With distinct keys, the pairs and the readings are the same thing. -/
theorem Distinct.mem_iff_get {m : List (K × V)} (hm : Distinct m) {k : K} {v : V} :
    (k, v) ∈ m ↔ get m k = some v := by
  refine ⟨fun h => ?_, mem_of_get⟩
  induction m with
  | nil => simp at h
  | cons p m ih =>
    have hm' : p.1 ∉ m.map Prod.fst ∧ (m.map Prod.fst).Nodup := List.nodup_cons.mp hm
    rcases List.mem_cons.mp h with rfl | h
    · simp [get_cons]
    · have hne : p.1 ≠ k := by
        rintro rfl
        exact hm'.1 (List.mem_map.mpr ⟨_, h, rfl⟩)
      rw [get_cons, if_neg hne]
      exact ih hm'.2 h

theorem Distinct.del {m : List (K × V)} (hm : Distinct m) (k : K) : Distinct (del m k) :=
  hm.sublist (List.filter_sublist.map Prod.fst)

theorem Distinct.put {m : List (K × V)} (hm : Distinct m) (k : K) (v : V) :
    Distinct (put m k v) := by
  refine List.nodup_cons.mpr ⟨?_, hm.del k⟩
  simp [Assoc.del]

omit [DecidableEq K] in
theorem Distinct.filter {m : List (K × V)} (hm : Distinct m) (p : K × V → Bool) :
    Distinct (m.filter p) :=
  hm.sublist (List.filter_sublist.map Prod.fst)

/-! ### A dictionary that keeps its order -/

/-- `d[k] = v`: a key that is there keeps its place. -/
def set (m : List (K × V)) (k : K) (v : V) : List (K × V) :=
  if (get m k).isSome then m.map fun p => if p.1 = k then (k, v) else p else m ++ [(k, v)]

theorem get_ne_none_of_mem {m : List (K × V)} {p : K × V} (h : p ∈ m) : get m p.1 ≠ none := by
  induction m with
  | nil => cases h
  | cons q m ih =>
    rw [get_cons]
    split
    · exact Option.some_ne_none _
    · next hne =>
      rcases List.mem_cons.mp h with rfl | h
      · exact absurd rfl hne
      · exact ih h

theorem mem_set {m : List (K × V)} {k : K} {v : V} {p : K × V} (h : p ∈ set m k v) :
    p = (k, v) ∨ p ∈ m := by
  unfold set at h
  split at h
  · obtain ⟨q, hq, rfl⟩ := List.mem_map.mp h
    split
    · exact .inl rfl
    · exact .inr hq
  · rcases List.mem_append.mp h with h | h
    · exact .inr h
    · exact .inl (List.mem_singleton.mp h)

theorem set_of_get_none {m : List (K × V)} {k : K} (h : get m k = none) (v : V) :
    set m k v = m ++ [(k, v)] := by
  unfold set
  rw [if_neg (by rw [h]; exact Bool.false_ne_true)]

theorem lookup_eq_get [BEq K] [LawfulBEq K] (m : List (K × V)) (k : K) :
    m.lookup k = get m k := by
  induction m with
  | nil => rfl
  | cons p m ih =>
    rw [List.lookup_cons, get_cons, ih]
    by_cases hk : p.1 = k
    · rw [if_pos hk, beq_iff_eq.mpr hk.symm]
    · rw [if_neg hk, beq_eq_false_iff_ne.mpr (Ne.symm hk)]

/-- A map that gives each key of a list its value. -/
theorem get_map_pair (l : List K) (f : K → V) (k : K) :
    get (l.map fun k => (k, f k)) k = if k ∈ l then some (f k) else none := by
  induction l with
  | nil => rfl
  | cons a l ih =>
    rw [List.map_cons, get_cons, ih]
    by_cases ha : a = k
    · subst ha
      rw [if_pos rfl, if_pos List.mem_cons_self]
    · rw [if_neg ha]
      exact if_congr (by simp [Ne.symm ha]) rfl rfl

theorem get_map_set (m : List (K × V)) (k k' : K) (v : V) :
    get (m.map fun p => if p.1 = k then (k, v) else p) k' =
      if k' = k then (get m k).map fun _ => v else get m k' := by
  induction m with
  | nil => split <;> rfl
  | cons p m ih =>
    rw [List.map_cons, get_cons, ih, get_cons, get_cons]
    by_cases hp : p.1 = k
    · by_cases hk : k' = k
      · simp [hp, hk]
      · simp [hp, hk, Ne.symm hk]
    · by_cases hk : k' = k
      · simp [hp, hk]
      · simp [hp, hk]

theorem get_append (m m' : List (K × V)) (k : K) : get (m ++ m') k = (get m k).or (get m' k) := by
  induction m with
  | nil => rfl
  | cons p m ih =>
    rw [List.cons_append, get_cons, get_cons, ih]
    split <;> rfl

theorem get_set (m : List (K × V)) (k k' : K) (v : V) :
    get (set m k v) k' = if k' = k then some v else get m k' := by
  unfold set
  split
  · next h =>
    obtain ⟨w, hw⟩ := Option.isSome_iff_exists.mp h
    rw [get_map_set, hw]
    rfl
  · next h =>
    have hnone : get m k = none := Option.not_isSome_iff_eq_none.mp h
    rw [get_append, get_cons]
    by_cases hk : k' = k
    · simp [hk, hnone]
    · simp [hk, Ne.symm hk]

theorem Distinct.set {m : List (K × V)} (hm : Distinct m) (k : K) (v : V) :
    Distinct (set m k v) := by
  unfold Assoc.set
  split
  · have hkeys : (m.map fun p => if p.1 = k then (k, v) else p).map Prod.fst = m.map Prod.fst := by
      rw [List.map_map]
      refine List.map_congr_left fun p _ => ?_
      by_cases hp : p.1 = k
      · simp [hp]
      · simp [hp]
    rw [Distinct, hkeys]
    exact hm
  · next h =>
    rw [Distinct, List.map_append, List.nodup_append]
    refine ⟨hm, List.nodup_cons.mpr ⟨List.not_mem_nil, .nil⟩, fun a ha b hb => ?_⟩
    rw [List.mem_singleton.mp hb]
    rintro rfl
    obtain ⟨⟨a', w⟩, hmem, rfl⟩ := List.mem_map.mp ha
    exact h (by rw [hm.mem_iff_get.mp hmem]; rfl)

/-- The keys that pass a test by themselves. -/
theorem get_filter_key (m : List (K × V)) (p : K → Bool) (k : K) :
    get (m.filter fun y => p y.1) k = if p k then get m k else none := by
  induction m with
  | nil => simp
  | cons y m ih =>
    rw [List.filter_cons]
    split
    · next h =>
      rw [get_cons, get_cons, ih]
      by_cases hk : y.1 = k
      · simp [hk, hk ▸ h]
      · simp [hk]
    · next h =>
      rw [ih, get_cons]
      by_cases hk : y.1 = k
      · simp [← hk, h]
      · simp [hk]

/-! ### Up to order -/

theorem del_of_get_none {m : List (K × V)} {k : K} (h : get m k = none) : del m k = m := by
  induction m with
  | nil => rfl
  | cons p m ih =>
    rw [get_cons] at h
    split at h
    · exact nomatch h
    · next hne => rw [del, List.filter_cons_of_pos (by simpa using hne), ← del, ih h]

/-- An entry stands apart from the others. -/
theorem perm_of_get {m : List (K × V)} (hm : Distinct m) {k : K} {v : V}
    (h : get m k = some v) : m.Perm ((k, v) :: del m k) := by
  induction m with
  | nil => exact nomatch h
  | cons p m ih =>
    obtain ⟨a, w⟩ := p
    obtain ⟨hp, hrest⟩ := List.nodup_cons.mp hm
    rw [get_cons] at h
    by_cases hk : a = k
    · rw [if_pos hk] at h
      subst hk
      obtain rfl := Option.some.inj h
      have hnone : get m a = none := by
        refine Option.eq_none_iff_forall_ne_some.mpr fun u hu => hp ?_
        exact List.mem_map.mpr ⟨(a, u), mem_of_get hu, rfl⟩
      rw [del, List.filter_cons_of_neg (by simp), ← del, del_of_get_none hnone]
    · rw [if_neg hk] at h
      rw [del, List.filter_cons_of_pos (by simpa using hk), ← del]
      exact ((ih hrest h).cons _).trans (.swap _ _ _)

theorem del_set (m : List (K × V)) (k : K) (v : V) : del (set m k v) k = del m k := by
  unfold set
  split
  · clear * -
    induction m with
    | nil => rfl
    | cons p m ih =>
      unfold del at ih ⊢
      rw [List.map_cons, List.filter_cons, List.filter_cons, ih]
      by_cases hk : p.1 = k
      · simp [hk]
      · simp [hk]
  · simp [del]

/-- What is set stands apart from what else was there. -/
theorem perm_set {m : List (K × V)} (hm : Distinct m) (k : K) (v : V) :
    (set m k v).Perm ((k, v) :: del m k) := by
  rw [← del_set m k v]
  refine perm_of_get (hm.set k v) ?_
  rw [get_set, if_pos rfl]

/-- Setting the entries of a map one after the other. -/
theorem get_foldl_set {l : List (K × V)} (hl : Distinct l) (m : List (K × V)) (k : K) :
    get (l.foldl (fun m x => set m x.1 x.2) m) k = (get l k).or (get m k) := by
  induction l generalizing m with
  | nil => rfl
  | cons x l ih =>
    have hx : x.1 ∉ l.map Prod.fst ∧ (l.map Prod.fst).Nodup := List.nodup_cons.mp hl
    rw [List.foldl_cons, ih hx.2, get_set, get_cons]
    by_cases hk : k = x.1
    · -- no later entry has the key
      have hnone : get l k = none := by
        rw [Option.eq_none_iff_forall_ne_some]
        intro v hv
        exact hx.1 (List.mem_map.mpr ⟨_, mem_of_get hv, hk⟩)
      rw [if_pos hk, if_pos hk.symm, hnone]
      rfl
    · rw [if_neg hk, if_neg (Ne.symm hk)]

theorem get_perm {m m' : List (K × V)} (h : m.Perm m') (hm : Distinct m) (k : K) :
    get m k = get m' k := by
  have hm' : Distinct m' := (h.map Prod.fst).nodup_iff.mp hm
  ext v
  exact hm.mem_iff_get.symm.trans (h.mem_iff.trans hm'.mem_iff_get)

/-- Entries that are kept or left out, each by itself. -/
theorem get_filterMap {W : Type} {m : List (K × V)} (hm : Distinct m) (h : K → V → Option W)
    (k : K) :
    get (m.filterMap fun p => (h p.1 p.2).map fun w => (p.1, w)) k = (get m k).bind (h k) := by
  induction m with
  | nil => rfl
  | cons p m ih =>
    have hp : p.1 ∉ m.map Prod.fst ∧ (m.map Prod.fst).Nodup := List.nodup_cons.mp hm
    have ih := ih hp.2
    rw [List.filterMap_cons, get_cons]
    by_cases hk : p.1 = k
    · rw [if_pos hk, Option.bind_some]
      cases hw : h p.1 p.2 with
      | some w =>
        rw [← hk, hw, Option.map_some]
        dsimp only
        rw [get_cons, if_pos rfl]
      | none =>
        -- no later entry has the key
        have hnone : get m k = none := by
          rw [Option.eq_none_iff_forall_ne_some]
          intro v hv
          exact hp.1 (List.mem_map.mpr ⟨_, mem_of_get hv, hk.symm⟩)
        rw [Option.map_none]
        dsimp only
        rw [ih, hnone, ← hk, hw]
        rfl
    · rw [if_neg hk]
      cases hw : h p.1 p.2 with
      | some w =>
        rw [Option.map_some]
        dsimp only
        rw [get_cons, if_neg hk, ih]
      | none =>
        rw [Option.map_none]
        exact ih

omit [DecidableEq K] in
theorem Distinct.filterMap {W : Type} {m : List (K × V)} (hm : Distinct m)
    (h : K → V → Option W) :
    Distinct (m.filterMap fun p => (h p.1 p.2).map fun w => (p.1, w)) := by
  refine List.Nodup.sublist ?_ hm
  clear hm
  induction m with
  | nil => exact List.Sublist.slnil
  | cons p m ih =>
    rw [List.filterMap_cons]
    cases h p.1 p.2 with
    | none => exact ih.cons p.1
    | some w => exact ih.cons_cons p.1

end Assoc
