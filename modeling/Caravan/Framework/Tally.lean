import Caravan.Framework.Assoc
import Mathlib.Algebra.BigOperators.Group.List.Basic
import Mathlib.Data.List.Nodup

/-!
# Sums by a key

A dictionary in which each entry is added to what stands under its key. The value under a key is
the sum of the key's own entries (`get_tally`), and all the values add up to the sum of all the
entries (`sum_tally`). A dictionary that is filled entry by entry holds the last entry of each key
(`perm_lastOnes`).
-/

namespace Assoc

variable {K M : Type} [DecidableEq K] [AddCommMonoid M]

/-- `m[k] = m.get(k, 0) + x` -/
def add (m : List (K × M)) (k : K) (x : M) : List (K × M) := set m k ((get m k).getD 0 + x)

/-- The entries, added up by their keys. -/
def tally (l : List (K × M)) : List (K × M) := l.foldl (fun m p => add m p.1 p.2) []

/-- What stands under a key stands apart from the sum of the rest. -/
theorem sum_split {m : List (K × M)} (hm : Distinct m) (k : K) :
    (m.map Prod.snd).sum = (get m k).getD 0 + ((del m k).map Prod.snd).sum := by
  cases hget : get m k with
  | none => rw [del_of_get_none hget, Option.getD_none, zero_add]
  | some v => rw [((perm_of_get hm hget).map Prod.snd).sum_eq, List.map_cons, List.sum_cons]; rfl

theorem sum_add {m : List (K × M)} (hm : Distinct m) (k : K) (x : M) :
    ((add m k x).map Prod.snd).sum = (m.map Prod.snd).sum + x := by
  rw [sum_split hm k, add, ((perm_set hm k _).map Prod.snd).sum_eq, List.map_cons, List.sum_cons]
  exact add_right_comm _ _ _

theorem Distinct.add {m : List (K × M)} (hm : Distinct m) (k : K) (x : M) :
    Distinct (Assoc.add m k x) := hm.set k _

/-- **All the values** add up to the sum of all the entries. -/
theorem sum_tally (l : List (K × M)) : ((tally l).map Prod.snd).sum = (l.map Prod.snd).sum := by
  have hgo : ∀ (l : List (K × M)) {m : List (K × M)}, Distinct m →
      ((l.foldl (fun m p => add m p.1 p.2) m).map Prod.snd).sum =
        (m.map Prod.snd).sum + (l.map Prod.snd).sum := by
    intro l
    induction l with
    | nil => exact fun _ => (add_zero _).symm
    | cons p l ih =>
      intro m hm
      rw [List.foldl_cons, ih (hm.add p.1 p.2), sum_add hm, List.map_cons, List.sum_cons, add_assoc]
  have h := hgo l (m := []) List.nodup_nil
  rw [List.map_nil, List.sum_nil, zero_add] at h
  exact h

/-! ### The last entry of each key -/

section Last

variable {V : Type}

/-- The entries that no later one has the key of. -/
def lastOnes : List (K × V) → List (K × V)
  | [] => []
  | p :: l => if p.1 ∈ l.map Prod.fst then lastOnes l else p :: lastOnes l

theorem lastOnes_subset (l : List (K × V)) {p : K × V} (h : p ∈ lastOnes l) : p ∈ l := by
  induction l with
  | nil => exact h
  | cons q l ih =>
    rw [lastOnes] at h
    split at h
    · exact List.mem_cons_of_mem _ (ih h)
    · rcases List.mem_cons.mp h with rfl | h
      · exact List.mem_cons_self
      · exact List.mem_cons_of_mem _ (ih h)

theorem distinct_lastOnes (l : List (K × V)) : Distinct (lastOnes l) := by
  induction l with
  | nil => exact List.nodup_nil
  | cons p l ih =>
    rw [lastOnes]
    split
    · exact ih
    · next hp =>
      refine List.nodup_cons.mpr ⟨fun hmem => hp ?_, ih⟩
      obtain ⟨q, hq, he⟩ := List.mem_map.mp hmem
      exact List.mem_map.mpr ⟨q, lastOnes_subset l hq, he⟩

/-- Every key has a last entry. -/
theorem get_lastOnes_ne_none {l : List (K × V)} {k : K} (h : k ∈ l.map Prod.fst) :
    get (lastOnes l) k ≠ none := by
  induction l with
  | nil => exact absurd h List.not_mem_nil
  | cons q l ih =>
    rw [lastOnes]
    split
    · next hq =>
      rcases List.mem_cons.mp h with rfl | h
      · exact ih hq
      · exact ih h
    · rw [get_cons]
      split
      · exact Option.some_ne_none _
      · next hne =>
        rcases List.mem_cons.mp h with rfl | h
        · exact absurd rfl hne
        · exact ih h

/-- Entries set one after the other leave the last ones. -/
theorem get_foldl_set_last (l m : List (K × V)) (k : K) :
    get (l.foldl (fun m p => set m p.1 p.2) m) k = (get (lastOnes l) k).or (get m k) := by
  induction l generalizing m with
  | nil => rfl
  | cons p l ih =>
    rw [List.foldl_cons, ih, get_set, lastOnes]
    by_cases hp : p.1 ∈ l.map Prod.fst
    · rw [if_pos hp]
      by_cases hk : k = p.1
      · -- a later entry has the key
        obtain ⟨v, hv⟩ := Option.ne_none_iff_exists'.mp (get_lastOnes_ne_none (hk ▸ hp))
        rw [hv]
        rfl
      · rw [if_neg hk]
    · rw [if_neg hp, get_cons]
      by_cases hk : p.1 = k
      · have hnone : get (lastOnes l) k = none := by
          refine Option.eq_none_iff_forall_ne_some.mpr fun v hv => hp ?_
          exact List.mem_map.mpr ⟨_, lastOnes_subset l (mem_of_get hv), hk.symm⟩
        rw [if_pos hk, if_pos hk.symm, hnone]
        rfl
      · rw [if_neg hk, if_neg (Ne.symm hk)]

/-- **A map filled entry by entry** holds the last entry of each key. -/
theorem perm_lastOnes (l : List (K × V)) :
    (l.foldl (fun m p => set m p.1 p.2) []).Perm (lastOnes l) := by
  have hdistinct : ∀ (l : List (K × V)) {m : List (K × V)}, Distinct m →
      Distinct (l.foldl (fun m p => set m p.1 p.2) m) := by
    intro l
    induction l with
    | nil => exact fun hm => hm
    | cons p l ih => exact fun hm => ih (hm.set p.1 p.2)
  have hm := hdistinct l (m := []) List.nodup_nil
  have hlast := distinct_lastOnes l
  refine (List.perm_ext_iff_of_nodup (List.Nodup.of_map _ hm) (List.Nodup.of_map _ hlast)).mpr fun p => ?_
  rw [hm.mem_iff_get, hlast.mem_iff_get, get_foldl_set_last, get_nil, Option.or_none]

/-- A map that is filled from a list, each element under a key of its own. -/
theorem get_foldl_set_map {α : Type} [DecidableEq α] {f : α → K} (hf : Function.Injective f)
    (v : α → V) (l : List α) (m : List (K × V)) (a : α) :
    get (l.foldl (fun m a => set m (f a) (v a)) m) (f a) =
      if a ∈ l then some (v a) else get m (f a) := by
  induction l generalizing m with
  | nil => rfl
  | cons b l ih =>
    rw [List.foldl_cons, ih, get_set]
    by_cases hl : a ∈ l
    · rw [if_pos hl, if_pos (List.mem_cons_of_mem _ hl)]
    · rw [if_neg hl]
      by_cases hb : a = b
      · subst hb
        rw [if_pos rfl, if_pos List.mem_cons_self]
      · rw [if_neg fun h => hb (hf h), if_neg (by simp [hb, hl])]

end Last

/-- A sum over what passes a test, by a second test. -/
theorem sum_filter_split {α : Type} (l : List α) (p q : α → Bool) (f : α → M) :
    ((l.filter p).map f).sum =
      ((l.filter fun x => p x && q x).map f).sum + ((l.filter fun x => p x && !q x).map f).sum := by
  induction l with
  | nil => exact (add_zero 0).symm
  | cons x l ih =>
    rw [List.filter_cons, List.filter_cons, List.filter_cons]
    cases p x with
    | false => exact ih
    | true =>
      cases q x with
      | false =>
        simp only [Bool.and_false, Bool.not_false, Bool.and_true, if_true, Bool.false_eq_true,
          if_false, List.map_cons, List.sum_cons, ih]
        exact add_left_comm _ _ _
      | true =>
        simp only [Bool.not_true, Bool.and_false, Bool.and_true, if_true, Bool.false_eq_true,
          if_false, List.map_cons, List.sum_cons, ih]
        exact (add_assoc _ _ _).symm

/-- The entries of one key add up to what stands under it. -/
theorem sum_filter_key {m : List (K × M)} (hm : Distinct m) (k : K) :
    ((m.filter fun p => p.1 = k).map Prod.snd).sum = (get m k).getD 0 := by
  cases hget : get m k with
  | none =>
    have hnil : (m.filter fun p => p.1 = k) = [] := by
      refine List.filter_eq_nil_iff.mpr fun p hp he => ?_
      exact get_ne_none_of_mem hp ((of_decide_eq_true he).symm ▸ hget)
    rw [hnil]
    rfl
  | some v =>
    have hperm := (perm_of_get hm hget).filter fun p => decide (p.1 = k)
    have hrest : (del m k).filter (fun p => decide (p.1 = k)) = [] := by
      refine List.filter_eq_nil_iff.mpr fun p hp he => ?_
      exact of_decide_eq_true (List.mem_filter.mp hp).2 (of_decide_eq_true he)
    have hfirst : ((k, v) :: del m k).filter (fun p => decide (p.1 = k)) = [(k, v)] := by
      rw [List.filter_cons, if_pos (decide_eq_true rfl), hrest]
    rw [(hperm.map Prod.snd).sum_eq, hfirst]
    exact add_zero v

end Assoc
