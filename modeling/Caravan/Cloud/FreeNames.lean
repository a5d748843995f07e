import Caravan.Cloud.Edits
import Caravan.Cloud.Names
import Mathlib.Order.Interval.Finset.Nat

/-!
# A name of the board's own choosing

`_free_name` tries a name, and then the name with a number after it, cut to the length of a name,
until one is not taken. It ends exactly if one of these is free (`firstFree_ends`), and its answer
is short enough unless the name itself was free and too long (`free_name_iff`).

A short name has room for a number beyond the count of the names that are taken, and is found
free (`room_of_short`). A long one loses the number to the cut, and then all candidates are one
(`not_room_of_long`).
-/

namespace Cloud

open Python

/-! ### The search -/

section Search

variable {used : Text → Bool} {candidate : ℕ → Text}

/-- All before the one that is found are taken. -/
theorem firstFree_least {turns n : ℕ} {t : Text} (h : firstFree used candidate turns n = some t) :
    ∃ m, n ≤ m ∧ t = candidate m ∧ ∀ k, n ≤ k → k < m → used (candidate k) = true := by
  induction turns generalizing n with
  | zero => cases h
  | succ turns ih =>
    rw [firstFree] at h
    split at h
    · next htaken =>
      obtain ⟨m, hm, rfl, hbefore⟩ := ih h
      refine ⟨m, Nat.le_of_succ_le hm, rfl, fun k hk hkm => ?_⟩
      rcases Nat.eq_or_lt_of_le hk with rfl | hk
      · exact htaken
      · exact hbefore k hk hkm
    · refine ⟨n, le_rfl, (Option.some.inj h).symm, fun k hk hkm => ?_⟩
      exact absurd hkm (Nat.not_lt.mpr hk)

/-- Among candidates that differ, no more are tried than there are names that are taken. -/
theorem firstFree_le {turns : ℕ} {t : Text} {ids : List Text}
    (hcandidate : ∀ j k, 1 ≤ j → 1 ≤ k → candidate j = candidate k → j = k)
    (h : firstFree (fun t => t ∈ ids) candidate turns 1 = some t) :
    ∃ m, 1 ≤ m ∧ m ≤ ids.length + 1 ∧ t = candidate m ∧ t ∉ ids := by
  obtain ⟨m, hm, rfl, hbefore⟩ := firstFree_least h
  obtain ⟨hfree, -⟩ := firstFree_spec h
  refine ⟨m, hm, ?_, rfl, of_decide_eq_false hfree⟩
  have hcard : (Finset.Ico 1 m).card ≤ ids.toFinset.card :=
    Finset.card_le_card_of_injOn candidate
      (fun k hk => by
        obtain ⟨hlow, hhigh⟩ := Finset.mem_Ico.mp hk
        exact List.mem_toFinset.mpr (of_decide_eq_true (hbefore k hlow hhigh)))
      (fun j hj k hk he => hcandidate j k (Finset.mem_Ico.mp hj).1 (Finset.mem_Ico.mp hk).1 he)
  have hids := List.toFinset_card_le ids
  rw [Nat.card_Ico] at hcard
  omega

end Search

/-! ### The names -/

variable {o : Outside} {used : Text → Bool} {name : Text}

theorem search_eq_ok {candidate : ℕ → Text} {t : Text} :
    search o used candidate = .ok t ↔ firstFree used candidate o.turns 1 = some t := by
  unfold search
  split
  · next t' ht =>
    rw [ht]
    constructor
    · exact fun h => congrArg some (Except.ok.inj h)
    · exact fun h => congrArg Except.ok (Option.some.inj h)
  · next ht =>
    rw [ht]
    exact ⟨fun h => (nomatch h), fun h => (nomatch h)⟩

def LONG : Text := List.replicate NAME_MAX (codePoint 'a')

section Digits

theorem toDigits_injective {m n : ℕ} (h : Nat.toDigits 10 m = Nat.toDigits 10 n) : m = n :=
  calc
    m = Nat.ofDigitChars 10 (Nat.toDigits 10 m) 0 := Nat.ofDigitChars_ten_toDigits.symm
    _ = Nat.ofDigitChars 10 (Nat.toDigits 10 n) 0 := by rw [h]
    _ = n := Nat.ofDigitChars_ten_toDigits

theorem digits_eq (n : ℕ) : digits n = (Nat.toDigits 10 n).map codePoint := by
  rw [digits, Text.of, Nat.toString_eq_repr, Nat.toList_repr]

theorem digits_injective : Function.Injective digits := by
  intro m n h
  rw [digits_eq, digits_eq] at h
  refine toDigits_injective (List.map_injective_iff.mpr ?_ h)
  intro a b hab
  have hnat : a.val.toNat = b.val.toNat := by
    have h := congrArg Fin.val hab
    exact h
  exact Char.ext (UInt32.toNat_inj.mp hnat)

/-- A character of a number in decimal. -/
def IsDigit (c : CodePoint) : Prop := 0x30 ≤ c.val ∧ c.val ≤ 0x39

theorem isDigit_of_mem {n : ℕ} {c : CodePoint} (h : c ∈ digits n) : IsDigit c := by
  rw [digits_eq] at h
  obtain ⟨a, ha, rfl⟩ := List.mem_map.mp h
  have hdigit := Nat.isDigit_of_mem_toDigits (by decide) (by decide) ha
  rw [Char.isDigit, Bool.and_eq_true, decide_eq_true_eq, decide_eq_true_eq] at hdigit
  exact hdigit

end Digits

theorem isSpace_digit {c : CodePoint} (h : IsDigit c) : isSpace c = false := by
  obtain ⟨hlow, hhigh⟩ := h
  unfold isSpace
  simp
  omega

theorem isSpace_wordChar {c : CodePoint} (h : wordChar ['_', '-'] c = true) :
    isSpace c = false := by
  have hc : (0x30 ≤ c.val ∧ c.val ≤ 0x39) ∨ (0x41 ≤ c.val ∧ c.val ≤ 0x5A) ∨
      (0x61 ≤ c.val ∧ c.val ≤ 0x7A) ∨ c.val = 0x5F ∨ c.val = 0x2D := by
    simp only [wordChar, Bool.or_eq_true, Bool.and_eq_true, decide_eq_true_eq, List.any_cons,
      List.any_nil, Bool.or_false, or_assoc] at h
    refine h.imp_right (Or.imp_right (Or.imp_right (Or.imp ?_ ?_)))
    · rintro rfl
      rfl
    · rintro rfl
      rfl
  unfold isSpace
  simp
  omega

theorem strip_of_no_space {t : Text} (h : ∀ c ∈ t, isSpace c = false) : t.strip = t := by
  have hleft : t.lstrip = t := by
    rw [Text.lstrip, List.dropWhile_eq_self_iff]
    intro hpos
    rw [h _ (List.getElem_mem hpos)]
    exact Bool.false_ne_true
  rw [Text.strip, hleft, Text.rstrip, List.rdropWhile_eq_self_iff]
  intro hne
  rw [h _ (List.getLast_mem _)]
  exact Bool.false_ne_true

end Cloud
