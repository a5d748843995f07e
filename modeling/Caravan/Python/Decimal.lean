import Caravan.Python.Float

/-!
# Numbers and their texts

A number is written in one way only, and no two numbers are written alike
(`intRepr_injective`).
-/

namespace Python

theorem digit_injOn {a b : ℕ} (ha : a < 10) (hb : b < 10) (h : digit a = digit b) : a = b := by
  have := congrArg Fin.val h
  simp only [digit, Nat.mod_eq_of_lt ha, Nat.mod_eq_of_lt hb] at this
  omega

theorem map_digit_injective {l l' : List ℕ} (hl : ∀ d ∈ l, d < 10) (hl' : ∀ d ∈ l', d < 10)
    (h : l.map digit = l'.map digit) : l = l' := by
  induction l generalizing l' with
  | nil => exact (List.map_eq_nil_iff.mp h.symm).symm
  | cons d l ih =>
    cases l' with
    | nil => cases h
    | cons d' l' =>
      obtain ⟨hd, hr⟩ := List.cons.inj h
      rw [digit_injOn (hl d List.mem_cons_self) (hl' d' List.mem_cons_self) hd,
        ih (fun x hx => hl x (List.mem_cons_of_mem d hx))
          (fun x hx => hl' x (List.mem_cons_of_mem d' hx)) hr]

theorem decimal_injective : Function.Injective decimal := by
  have hdigits (n : ℕ) : ∀ d ∈ Nat.digits 10 n, d < 10 := fun d => Nat.digits_lt_base (by decide)
  -- zero alone is written with the digit 0 at the end of a number of no other digit
  have hzero {n : ℕ} (hn : n ≠ 0) : decimal n ≠ [digit 0] := by
    intro h
    unfold decimal at h
    rw [if_neg hn, List.reverse_eq_iff] at h
    have h0 : Nat.digits 10 n = [0] := map_digit_injective (hdigits n) (by simp) h
    have hn0 := Nat.ofDigits_digits 10 n
    rw [h0] at hn0
    exact hn hn0.symm
  intro a b h
  by_cases ha : a = 0
  · by_cases hb : b = 0
    · rw [ha, hb]
    · rw [ha] at h
      exact absurd h.symm (hzero hb)
  · by_cases hb : b = 0
    · rw [hb] at h
      exact absurd h (hzero ha)
    · unfold decimal at h
      rw [if_neg ha, if_neg hb] at h
      have hd := map_digit_injective (hdigits a) (hdigits b) (List.reverse_injective h)
      rw [← Nat.ofDigits_digits 10 a, hd, Nat.ofDigits_digits]

/-- A decimal has no sign. -/
theorem minus_notMem_decimal (n : ℕ) : codePoint '-' ∉ decimal n := by
  have hdigit (d : ℕ) : digit d ≠ codePoint '-' := fun h => by
    have := congrArg Fin.val h
    simp only [digit, codePoint] at this
    have h2 : ('-' : Char).toNat = 45 := rfl
    omega
  intro hmem
  unfold decimal at hmem
  split at hmem
  · exact hdigit 0 (List.mem_singleton.mp hmem).symm
  · obtain ⟨d, -, hd⟩ := List.mem_map.mp (List.mem_reverse.mp hmem)
    exact hdigit d hd

/-- No decimal begins with a sign. -/
theorem decimal_ne_minus (n : ℕ) (t : Text) : decimal n ≠ codePoint '-' :: t :=
  fun h => minus_notMem_decimal n (h ▸ List.mem_cons_self)

/-- **Two numbers are written alike only if they are one.** -/
theorem intRepr_injective : Function.Injective intRepr := by
  intro i j h
  unfold intRepr at h
  have hminus : Text.of "-" = [codePoint '-'] := rfl
  rw [hminus] at h
  by_cases hi : i < 0
  · by_cases hj : j < 0
    · rw [if_pos hi, if_pos hj] at h
      have := decimal_injective (List.cons.inj h).2
      omega
    · rw [if_pos hi, if_neg hj] at h
      exact absurd h.symm (decimal_ne_minus _ _)
  · by_cases hj : j < 0
    · rw [if_neg hi, if_pos hj] at h
      exact absurd h (decimal_ne_minus _ _)
    · rw [if_neg hi, if_neg hj] at h
      have := decimal_injective h
      omega

end Python
