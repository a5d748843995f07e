import Caravan.Python.Decimal
import Caravan.Python.Value
import Mathlib.Data.Nat.Digits.Lemmas
import Mathlib.Tactic.Positivity

/-!
# Reading back a number that was written

`int(str(n))` is `n` (`intOfText_decimal`), as long as the interpreter knows the ten digits and
the number is not too long to be read.
-/

namespace Python

/-- An interpreter that knows the ten digits. -/
def Interp.Ascii (I : Interp) : Prop := ∀ d : Fin 10, I.digit (Python.digit d) = some d

/-- An interpreter that tells letters and digits apart in ASCII only. -/
def Interp.ascii : Interp where
  printable c := 0x20 ≤ c.val && c.val < 0x7F
  surrogate c h := by
    unfold isSurrogate at h
    simp only [Bool.and_eq_true, decide_eq_true_eq] at h
    simp only [Bool.and_eq_false_iff, decide_eq_false_iff_not]
    omega
  digit c := if h : 0x30 ≤ c.val ∧ c.val < 0x3A then some ⟨c.val - 0x30, by omega⟩ else none
  reprNesting := 1000
  dumpsNesting := 900
  room := by decide

theorem Interp.ascii_ascii : Interp.ascii.Ascii := by
  unfold Interp.Ascii
  decide

variable {I : Interp}

/-- The digits as characters. -/
def written (l : List (Fin 10)) : Text := l.map fun d : Fin 10 => digit d.val

theorem digit_not_space (d : ℕ) : isSpace (digit d) = false := by
  have h : d % 10 < 10 := Nat.mod_lt _ (by decide)
  unfold isSpace digit
  simp only [Bool.or_eq_false_iff, Bool.and_eq_false_iff, decide_eq_false_iff_not,
    beq_eq_false_iff_ne]
  omega

theorem digit_ne (d : ℕ) {c : Char} (h : c.toNat < 0x30 ∨ 0x39 < c.toNat) :
    digit d ≠ codePoint c := by
  intro he
  have := congrArg Fin.val he
  simp only [digit, codePoint] at this
  omega

/-- The digits of a text that has nothing else. -/
theorem digitsOf_written (hI : I.Ascii) {l : List (Fin 10)} (h : l ≠ []) :
    digitsOf I (written l) = some l := by
  induction l with
  | nil => exact absurd rfl h
  | cons d l ih =>
    cases l with
    | nil =>
      show (I.digit (digit d)).map ([·]) = some [d]
      rw [hI d]
      rfl
    | cons d' l =>
      have hplain : digit d'.val ≠ codePoint '_' := digit_ne _ (.inr (by decide))
      have hrest := ih (List.cons_ne_nil _ _)
      unfold written at hrest ⊢
      rw [List.map_cons] at hrest
      rw [List.map_cons, List.map_cons, digitsOf, hI d]
      simp only [Option.bind_eq_bind, Option.bind_some, if_neg hplain, hrest]
      rfl

theorem decimal_lt {n : ℕ} (h : n < 10) : decimal n = [digit n] := by
  unfold decimal
  split
  · next h0 => rw [h0]
  · next h0 => rw [Nat.digits_of_lt 10 n h0 h, List.map_singleton, List.reverse_singleton]

theorem decimal_step {n : ℕ} (h : 10 ≤ n) : decimal n = decimal (n / 10) ++ [digit n] := by
  have hmod : digit (n % 10) = digit n := by
    apply Fin.ext
    simp [digit]
  unfold decimal
  rw [if_neg (by omega), if_neg (by omega), Nat.digits_def' (by decide) (by omega), List.map_cons,
    List.reverse_cons, hmod]

/-- A decimal is its digits, the first one first. -/
theorem decimal_written (n : ℕ) : ∃ l : List (Fin 10), l ≠ [] ∧ decimal n = written l ∧
    l.foldl (fun (n : ℤ) d => 10 * n + d.val) 0 = n ∧
      ∀ k, n < 10 ^ k → l.length ≤ max k 1 := by
  induction n using Nat.strong_induction_on with
  | _ n ih =>
    by_cases h : n < 10
    · refine ⟨[⟨n, h⟩], List.cons_ne_nil _ _, decimal_lt h, by simp, fun k _ => ?_⟩
      simp
    · obtain ⟨l, hne, hdec, hfold, hlen⟩ := ih (n / 10) (by omega)
      have hlast : digit n = digit (n % 10) := by
        apply Fin.ext
        simp [digit]
      refine ⟨l ++ [⟨n % 10, by omega⟩], by simp, ?_, ?_, fun k hk => ?_⟩
      · rw [decimal_step (by omega), hdec, hlast]
        simp [written]
      · rw [List.foldl_append, hfold]
        simp only [List.foldl_cons, List.foldl_nil]
        omega
      · cases k with
        | zero => omega
        | succ k =>
          have hk' : n / 10 < 10 ^ k := by
            rw [Nat.div_lt_iff_lt_mul (by decide)]
            rwa [pow_succ] at hk
          have := hlen k hk'
          have hk0 : k ≠ 0 := by
            rintro rfl
            omega
          rw [List.length_append, List.length_singleton]
          omega

theorem lstrip_written (l : List (Fin 10)) : Text.lstrip (written l) = written l := by
  refine Text.Flush.lstrip fun c hc => ?_
  cases l with
  | nil => exact nomatch hc
  | cons d l =>
    obtain rfl := Option.some.inj hc
    exact digit_not_space _

theorem rstrip_written (l : List (Fin 10)) : Text.rstrip (written l) = written l := by
  unfold Text.rstrip
  rw [List.rdropWhile_eq_self_iff]
  intro hne
  obtain ⟨d, -, hd⟩ := List.mem_map.mp (List.getLast_mem hne)
  rw [← hd, digit_not_space]
  exact Bool.false_ne_true

/-- **A number is read as it was written.** -/
theorem intOfText_decimal (hI : I.Ascii) {n : ℕ} (hn : n < 10 ^ MAX_STR_DIGITS) :
    intOfText I (decimal n) = .ok n := by
  obtain ⟨l, hne, hdec, hfold, hlen⟩ := decimal_written n
  have hshort : l.length ≤ MAX_STR_DIGITS := (hlen _ hn).trans (by decide)
  rw [hdec, intOfText, Text.strip, lstrip_written, rstrip_written]
  cases l with
  | nil => exact absurd rfl hne
  | cons d l =>
    have hminus : digit d.val ≠ codePoint '-' := digit_ne _ (.inl (by decide))
    have hplus : digit d.val ≠ codePoint '+' := digit_ne _ (.inl (by decide))
    have hdigits := digitsOf_written hI hne
    unfold written at hdigits ⊢
    rw [List.map_cons] at hdigits ⊢
    simp only [if_neg hminus, if_neg hplus, hdigits, if_pos hshort, Bool.false_eq_true, if_false]
    rw [hfold]

theorem foldl_digits_lt (l : List (Fin 10)) (n : ℤ) (hn : 0 ≤ n) :
    0 ≤ l.foldl (fun (n : ℤ) d => 10 * n + d.val) n ∧
      l.foldl (fun (n : ℤ) d => 10 * n + d.val) n < (n + 1) * 10 ^ l.length := by
  induction l generalizing n with
  | nil => simpa using hn
  | cons d l ih =>
    have hd : (d.val : ℤ) < 10 := by exact_mod_cast d.isLt
    obtain ⟨hpos, hlt⟩ := ih (10 * n + d.val) (by positivity)
    refine ⟨hpos, hlt.trans_le ?_⟩
    calc (10 * n + d.val + 1) * 10 ^ l.length ≤ (10 * (n + 1)) * 10 ^ l.length := by
          gcongr
          omega
      _ = (n + 1) * 10 ^ (l.length + 1) := by ring

/-- A number that is read is short. -/
theorem intOfText_lt {t : Text} {n : ℤ} (h : intOfText I t = .ok n) : n < 10 ^ MAX_STR_DIGITS := by
  unfold intOfText at h
  dsimp only at h
  generalize hread : digitsOf I _ = read at h
  cases read with
  | none => cases h
  | some ds =>
    dsimp only at h
    by_cases hshort : ds.length ≤ MAX_STR_DIGITS
    · rw [if_pos hshort] at h
      obtain ⟨hpos, hlt⟩ := foldl_digits_lt ds 0 le_rfl
      have hbound : (0 + 1) * (10 : ℤ) ^ ds.length ≤ 10 ^ MAX_STR_DIGITS := by
        rw [zero_add, one_mul]
        exact pow_le_pow_right₀ (by norm_num) hshort
      have hn := Except.ok.inj h
      split at hn <;> omega
    · rw [if_neg hshort] at h
      cases h

end Python
