import Caravan.Framework.Assoc
import Mathlib.Data.List.Induction
import Mathlib.Data.List.Sort

/-!
# Maps whose keys are places

A dictionary that is filled under 0, 1, 2, … is a list with its places (`numbered`): a value set
under the next number is put behind it (`set_numbered_length`), one that is set under a number it
has is exchanged (`set_numbered`), and its keys come in their order (`sorted_numbered`).
-/

namespace Assoc

variable {V : Type}

/-- A list with its places. -/
def numbered (l : List V) : List (ℕ × V) := l.mapIdx Prod.mk

/-- The pairs of a map by their keys: `[(k, d[k]) for k in sorted(d)]` -/
def sorted (m : List (ℕ × V)) : List (ℕ × V) := m.insertionSort fun p q => p.1 ≤ q.1

theorem numbered_concat (l : List V) (v : V) :
    numbered (l ++ [v]) = numbered l ++ [(l.length, v)] := by
  unfold numbered
  rw [List.mapIdx_append, List.mapIdx_singleton, Nat.zero_add]

theorem map_snd_numbered (l : List V) : (numbered l).map Prod.snd = l := by
  refine List.ext_getElem? fun k => ?_
  rw [List.getElem?_map, numbered, List.getElem?_mapIdx, Option.map_map]
  exact Option.map_id'

theorem get_numbered (l : List V) (k : ℕ) : get (numbered l) k = l[k]? := by
  induction l using List.reverseRecOn with
  | nil => rfl
  | append_singleton l v ih =>
    rw [numbered_concat, get_append, ih, get_cons, get_nil]
    by_cases hk : l.length = k
    · rw [if_pos hk, ← hk, List.getElem?_concat_length, List.getElem?_eq_none (Nat.le_refl _)]
      rfl
    · rw [if_neg hk, Option.or_none]
      by_cases hlt : k < l.length
      · rw [List.getElem?_append_left hlt]
      · have hge : (l ++ [v]).length ≤ k := by
          rw [List.length_append, List.length_singleton]
          omega
        rw [List.getElem?_eq_none (Nat.not_lt.mp hlt), List.getElem?_eq_none hge]

/-- The next number is put behind the others. -/
theorem set_numbered_length (l : List V) (v : V) :
    set (numbered l) l.length v = numbered (l ++ [v]) := by
  have hnone : get (numbered l) l.length = none := by
    rw [get_numbered, List.getElem?_eq_none (Nat.le_refl _)]
  rw [set_of_get_none hnone, numbered_concat]

/-- A number that is there keeps its place. -/
theorem set_numbered {l : List V} {k : ℕ} (hk : k < l.length) (v : V) :
    set (numbered l) k v = numbered (l.set k v) := by
  have hsome : (get (numbered l) k).isSome = true := by
    rw [get_numbered, List.getElem?_eq_getElem hk]
    rfl
  rw [set, if_pos hsome]
  refine List.ext_getElem? fun i => ?_
  rw [List.getElem?_map, numbered, numbered, List.getElem?_mapIdx, List.getElem?_mapIdx,
    List.getElem?_set]
  by_cases hi : k = i
  · subst hi
    rw [if_pos rfl, if_pos hk, List.getElem?_eq_getElem hk]
    exact congrArg some (if_pos rfl)
  · rw [if_neg hi]
    cases l[i]? with
    | none => rfl
    | some w => exact congrArg some (if_neg (Ne.symm hi))

/-- **The numbers come in their order.** -/
theorem sorted_numbered (l : List V) : sorted (numbered l) = numbered l := by
  refine List.Pairwise.insertionSort_eq ?_
  unfold numbered
  rw [List.pairwise_iff_getElem]
  intro i j hi hj hij
  rw [List.getElem_mapIdx, List.getElem_mapIdx]
  exact Nat.le_of_lt hij

end Assoc
