import Caravan.Python.Loads
import Caravan.Python.Style

/-!
# What `json.dumps` writes is read back
-/

namespace Python.Loads

/-! ### Strings -/

/-- No half of a pair stands before the other one. Where it did, it would be read as the pair. -/
def Normal (t : Text) : Prop := t.IsChain fun c d => ¬ (isHigh c = true ∧ isLow d = true)

/-- The characters of a text as they are written. -/
def unitsOf (c : CodePoint) : List Unit :=
  if c = quote ∨ c = backslash ∨ c.val = 0x08 ∨ c.val = 0x0C ∨ c = codePoint '\n' ∨
      c = codePoint '\r' ∨ c = codePoint '\t' ∨ (0x20 ≤ c.val ∧ c.val ≤ 0x7E) then [(false, c)]
  else if c.val < 0x10000 then [(true, c)]
  else
    let v := c.val - 0x10000
    [(true, Fin.ofNat 0x110000 (0xD800 + v / 0x400)),
      (true, Fin.ofNat 0x110000 (0xDC00 + v % 0x400))]

theorem hexVal_hexDigit (d : ℕ) : hexVal (hexDigit d) = some (d % 16) := by
  unfold hexDigit
  split
  · next h =>
    have hin : 0x30 ≤ 0x30 + d % 16 ∧ 0x30 + d % 16 ≤ 0x39 := by omega
    rw [hexVal, if_pos hin, Nat.add_sub_cancel_left]
  · next h =>
    have hnot : ¬ (0x30 ≤ 0x57 + d % 16 ∧ 0x57 + d % 16 ≤ 0x39) := by omega
    have hnot' : ¬ (0x41 ≤ 0x57 + d % 16 ∧ 0x57 + d % 16 ≤ 0x46) := by omega
    have hin : 0x61 ≤ 0x57 + d % 16 ∧ 0x57 + d % 16 ≤ 0x66 := by omega
    rw [hexVal, if_neg hnot, if_neg hnot', if_pos hin, Nat.add_sub_cancel_left]

theorem units_quote (t : Text) : units (quote :: t) = some ([], t) := by
  rw [units.eq_def]
  exact if_pos rfl

theorem units_plain {c : CodePoint} (hq : c ≠ quote) (hb : c ≠ backslash) (hc : 0x20 ≤ c.val)
    (t : Text) : units (c :: t) = (units t).map fun p => ((false, c) :: p.1, p.2) := by
  rw [units.eq_def]
  dsimp only
  rw [if_neg hq, if_neg hb, if_neg (not_lt.mpr hc)]

/-- A number in four digits of base sixteen. -/
theorem units_hex {n : ℕ} (hn : n < 0x10000) (t : Text) :
    units (Text.of "\\u" ++ hex 4 n ++ t) =
      (units t).map fun p => ((true, Fin.ofNat 0x110000 n) :: p.1, p.2) := by
  have hshape : Text.of "\\u" ++ hex 4 n ++ t = backslash :: codePoint 'u' ::
      hexDigit (n / 16 / 16 / 16) :: hexDigit (n / 16 / 16) :: hexDigit (n / 16) :: hexDigit n ::
        t := rfl
  have hval : hex4 (hexDigit (n / 16 / 16 / 16)) (hexDigit (n / 16 / 16)) (hexDigit (n / 16))
      (hexDigit n) = some (Fin.ofNat 0x110000 n) := by
    simp only [hex4, hexVal_hexDigit, Option.bind_eq_bind, Option.bind_some, Option.pure_def]
    have hsum : ((n / 16 / 16 / 16 % 16 * 16 + n / 16 / 16 % 16) * 16 + n / 16 % 16) * 16 + n % 16 =
        n := by omega
    rw [hsum]
  rw [hshape, units.eq_def]
  dsimp only
  rw [if_neg (by decide), if_pos rfl, if_pos rfl, hval]

theorem units_escape {e d : CodePoint} (he : e ≠ codePoint 'u') (hd : unescape e = some d)
    (t : Text) : units (backslash :: e :: t) =
      (units t).map fun p => ((false, d) :: p.1, p.2) := by
  rw [units.eq_def]
  dsimp only
  rw [if_neg (by decide), if_pos rfl, if_neg he, hd]

/-- A character that is written is read. -/
theorem units_asciiChar (c : CodePoint) (t : Text) :
    units (asciiChar c ++ t) = (units t).map fun p => (unitsOf c ++ p.1, p.2) := by
  unfold asciiChar
  by_cases hq : c = codePoint '"'
  · subst hq
    exact units_escape (by decide) (by decide) t
  rw [if_neg hq]
  by_cases hb : c = codePoint '\\'
  · subst hb
    exact units_escape (by decide) (by decide) t
  rw [if_neg hb]
  by_cases h8 : c.val = 0x08
  · obtain rfl : c = 0x08 := Fin.ext h8
    exact units_escape (by decide) (by decide) t
  rw [if_neg h8]
  by_cases hC : c.val = 0x0C
  · obtain rfl : c = 0x0C := Fin.ext hC
    exact units_escape (by decide) (by decide) t
  rw [if_neg hC]
  by_cases hn : c = codePoint '\n'
  · subst hn
    exact units_escape (by decide) (by decide) t
  rw [if_neg hn]
  by_cases hr : c = codePoint '\r'
  · subst hr
    exact units_escape (by decide) (by decide) t
  rw [if_neg hr]
  by_cases ht : c = codePoint '\t'
  · subst ht
    exact units_escape (by decide) (by decide) t
  rw [if_neg ht]
  by_cases hplain : 0x20 ≤ c.val ∧ c.val ≤ 0x7E
  · have hunits : unitsOf c = [(false, c)] :=
      if_pos (.inr (.inr (.inr (.inr (.inr (.inr (.inr hplain)))))))
    rw [if_pos hplain, hunits, List.singleton_append, units_plain hq hb hplain.1]
    rfl
  have hother : ¬ (c = quote ∨ c = backslash ∨ c.val = 0x08 ∨ c.val = 0x0C ∨ c = codePoint '\n' ∨
      c = codePoint '\r' ∨ c = codePoint '\t' ∨ (0x20 ≤ c.val ∧ c.val ≤ 0x7E)) := by
    rintro (h | h | h | h | h | h | h | h)
    exacts [hq h, hb h, h8 h, hC h, hn h, hr h, ht h, hplain h]
  rw [if_neg hplain]
  by_cases hplane : c.val < 0x10000
  · have hself : Fin.ofNat 0x110000 c.val = c := Fin.ext (Nat.mod_eq_of_lt c.isLt)
    rw [if_pos hplane, units_hex hplane, hself]
    rw [unitsOf, if_neg hother, if_pos hplane]
    rfl
  · have hlt := c.isLt
    rw [if_neg hplane, List.append_assoc, units_hex (by omega), units_hex (by omega), unitsOf,
      if_neg hother, if_neg hplane, Option.map_map]
    rfl

theorem units_text (t rest : Text) :
    units (t.flatMap asciiChar ++ quote :: rest) = some (t.flatMap unitsOf, rest) := by
  induction t with
  | nil => exact units_quote rest
  | cons c t ih =>
    rw [List.flatMap_cons, List.append_assoc, units_asciiChar, ih]
    rfl

theorem join_plain (c : CodePoint) (us : List Unit) : join ((false, c) :: us) = c :: join us := by
  cases us with
  | nil => rfl
  | cons u us => rcases u with ⟨_ | _, d⟩ <;> rw [join.eq_def]

theorem join_alone {c : CodePoint} {us : List Unit}
    (h : ∀ d, us.head? = some (true, d) → ¬ (isHigh c = true ∧ isLow d = true)) :
    join ((true, c) :: us) = c :: join us := by
  match us with
  | [] => rfl
  | (false, d) :: us => rw [join.eq_def]
  | (true, d) :: us =>
    have hno : ¬ (isHigh c && isLow d) = true := by
      rw [Bool.and_eq_true]
      exact h d rfl
    rw [join, if_neg hno]

theorem isHigh_iff {c : CodePoint} : isHigh c = true ↔ 0xD800 ≤ c.val ∧ c.val ≤ 0xDBFF := by
  rw [isHigh, Bool.and_eq_true, decide_eq_true_iff, decide_eq_true_iff]

theorem isLow_iff {c : CodePoint} : isLow c = true ↔ 0xDC00 ≤ c.val ∧ c.val ≤ 0xDFFF := by
  rw [isLow, Bool.and_eq_true, decide_eq_true_iff, decide_eq_true_iff]

/-- A character is written as itself, by its number, or as a pair. -/
theorem unitsOf_cases (c : CodePoint) : unitsOf c = [(false, c)] ∨ unitsOf c = [(true, c)] ∨
    ∃ h l, unitsOf c = [(true, h), (true, l)] ∧ isHigh h = true ∧ isLow l = true ∧
      joined h l = c := by
  unfold unitsOf
  split
  · exact .inl rfl
  split
  · exact .inr (.inl rfl)
  next hbig =>
  have hlt := c.isLt
  have hhigh : (Fin.ofNat 0x110000 (0xD800 + (c.val - 0x10000) / 0x400) : CodePoint).val =
      0xD800 + (c.val - 0x10000) / 0x400 := by
    rw [Fin.val_ofNat, Nat.mod_eq_of_lt (by omega)]
  have hlow : (Fin.ofNat 0x110000 (0xDC00 + (c.val - 0x10000) % 0x400) : CodePoint).val =
      0xDC00 + (c.val - 0x10000) % 0x400 := by
    rw [Fin.val_ofNat, Nat.mod_eq_of_lt (by omega)]
  refine .inr (.inr ⟨_, _, rfl, ?_, ?_, Fin.ext ?_⟩)
  · rw [isHigh_iff, hhigh]
    omega
  · rw [isLow_iff, hlow]
    omega
  · rw [joined, hhigh, hlow, Fin.val_ofNat]
    omega

/-- Of the characters only a lower half begins with one that comes from a number and is one. -/
theorem unitsOf_head {c d : CodePoint} {us : List Unit}
    (h : (unitsOf c ++ us).head? = some (true, d)) (hd : isLow d = true) : d = c := by
  rcases unitsOf_cases c with hc | hc | ⟨a, b, hc, hhigh, -, -⟩
  · rw [hc] at h
    cases h
  · rw [hc] at h
    exact (Prod.mk.inj (Option.some.inj h)).2.symm
  · -- the first half of a pair is no lower one
    rw [hc] at h
    obtain rfl := (Prod.mk.inj (Option.some.inj h)).2
    rw [isHigh_iff] at hhigh
    rw [isLow_iff] at hd
    omega

/-- **A text is put together again** of its characters. -/
theorem join_unitsOf {t : Text} (h : Normal t) : join (t.flatMap unitsOf) = t := by
  induction t with
  | nil => rfl
  | cons c t ih =>
    obtain ⟨hfirst, hrest⟩ := List.isChain_cons.mp h
    have hnext : ∀ d, (t.flatMap unitsOf).head? = some (true, d) →
        ¬ (isHigh c = true ∧ isLow d = true) := by
      rintro d hd ⟨hc, hlow⟩
      cases t with
      | nil => cases hd
      | cons e t =>
        rw [List.flatMap_cons] at hd
        obtain rfl := unitsOf_head hd hlow
        exact hfirst d rfl ⟨hc, hlow⟩
    rw [List.flatMap_cons]
    rcases unitsOf_cases c with hc | hc | ⟨a, b, hc, hhigh, hlow, hjoined⟩
    · rw [hc, List.singleton_append, join_plain, ih hrest]
    · rw [hc, List.singleton_append, join_alone hnext, ih hrest]
    · have hpair : (isHigh a && isLow b) = true := by rw [hhigh, hlow]; rfl
      rw [hc, List.cons_append, List.singleton_append, join, if_pos hpair, hjoined, ih hrest]

/-- **A string is read back.** -/
theorem string_ascii {t : Text} (h : Normal t) (rest : Text) :
    string (t.flatMap asciiChar ++ quote :: rest) = .ok (t, rest) := by
  rw [string, units_text]
  dsimp only
  rw [join_unitsOf h]

/-! ### Numbers -/

/-- What does not go on with a number. -/
def Follows (rest : Text) : Prop :=
  ∀ c ∈ rest.head?, isDigit c = false ∧ c ≠ codePoint '.' ∧ c ≠ codePoint 'e' ∧ c ≠ codePoint 'E'

theorem isDigit_iff {c : CodePoint} : isDigit c = true ↔ 0x30 ≤ c.val ∧ c.val ≤ 0x39 := by
  rw [isDigit, Bool.and_eq_true, decide_eq_true_iff, decide_eq_true_iff]

/-- The digits at the head of a text. -/
theorem takeWhile_digits {ds rest : Text} (hds : Digits ds)
    (hrest : ∀ c ∈ rest.head?, isDigit c = false) : (ds ++ rest).takeWhile isDigit = ds := by
  rw [List.takeWhile_append_of_pos fun c hc => isDigit_iff.mpr (hds c hc)]
  cases rest with
  | nil => rw [List.takeWhile_nil, List.append_nil]
  | cons c rest =>
    rw [List.takeWhile_cons_of_neg (by rw [hrest c rfl]; exact Bool.false_ne_true), List.append_nil]

theorem intPart_append {int rest : Text} (hint : IsInt int)
    (hrest : ∀ c ∈ rest.head?, isDigit c = false) : intPart (int ++ rest) = int := by
  rcases hint with rfl | ⟨c, ds, rfl, hne, hds⟩
  · rw [List.singleton_append, intPart, if_pos rfl]
  · have hc : isDigit c = true := isDigit_iff.mpr (hds c List.mem_cons_self)
    have htail : Digits ds := fun d hd => hds d (List.mem_cons_of_mem c hd)
    rw [List.cons_append, intPart, if_neg hne, if_pos hc, takeWhile_digits htail hrest]

theorem fracPart_append {frac rest : Text} (hfrac : frac = [] ∨ IsFrac frac)
    (hrest : ∀ c ∈ rest.head?, isDigit c = false ∧ c ≠ codePoint '.') :
    fracPart (frac ++ rest) = frac := by
  rcases hfrac with rfl | ⟨ds, hne, hds, rfl⟩
  · cases rest with
    | nil => rfl
    | cons c rest => exact if_neg fun h => (hrest c rfl).2 h.1
  · rw [List.cons_append, fracPart, takeWhile_digits hds fun c hc => (hrest c hc).1]
    exact if_pos ⟨rfl, hne⟩

theorem expPart_append {exp rest : Text} (hexp : exp = [] ∨ IsExp exp)
    (hrest : ∀ c ∈ rest.head?, isDigit c = false ∧ c ≠ codePoint 'e' ∧ c ≠ codePoint 'E') :
    expPart (exp ++ rest) = exp := by
  rcases hexp with rfl | ⟨e, sign, ds, he, hsign, hne, hds, rfl⟩
  · cases rest with
    | nil => rfl
    | cons c rest => exact if_neg fun h => h.1.elim (hrest c rfl).2.1 (hrest c rfl).2.2
  · have hdigits := takeWhile_digits hds fun c hc => (hrest c hc).1
    have hread : signPart (sign ++ (ds ++ rest)) = sign := by
      rcases hsign with rfl | rfl | rfl
      · obtain ⟨d, ds, rfl⟩ := List.exists_cons_of_ne_nil hne
        refine if_neg ?_
        have hd := hds d List.mem_cons_self
        rintro (rfl | rfl)
        · revert hd
          decide
        · revert hd
          decide
      · rfl
      · rfl
    rw [List.cons_append, List.append_assoc, expPart, hread, List.drop_left, hdigits]
    exact if_pos ⟨he, hne⟩

section

variable {toFloat : Text → Float}

/-- The value of a number's parts. -/
def valueOfParts (toFloat : Text → Float) (minus int frac exp : Text) : Value :=
  if frac = [] ∧ exp = [] then
    .int (if minus = [] then (digitsVal int : ℤ) else -(digitsVal int : ℤ))
  else .float (toFloat (minus ++ int ++ frac ++ exp))

/-- **A number is read whole**, where nothing that could go on with it follows. -/
theorem number_parts {minus int frac exp rest : Text}
    (hminus : minus = [] ∨ minus = [codePoint '-']) (hint : IsInt int)
    (hfrac : frac = [] ∨ IsFrac frac) (hexp : exp = [] ∨ IsExp exp) (hrest : Follows rest) :
    number toFloat (minus ++ int ++ frac ++ exp ++ rest) =
      some (valueOfParts toFloat minus int frac exp, rest) := by
  -- what comes behind each part does not go on with it
  have hbehindExp : ∀ c ∈ (exp ++ rest).head?, isDigit c = false ∧ c ≠ codePoint '.' := by
    intro c hc
    rcases hexp with rfl | ⟨e, sign, ds, he, -, -, -, rfl⟩
    · exact ⟨(hrest c hc).1, (hrest c hc).2.1⟩
    · obtain rfl := Option.some.inj hc
      rcases he with rfl | rfl
      · decide
      · decide
  have hbehindFrac : ∀ c ∈ (frac ++ (exp ++ rest)).head?, isDigit c = false := by
    intro c hc
    rcases hfrac with rfl | ⟨ds, -, -, rfl⟩
    · exact (hbehindExp c hc).1
    · obtain rfl := Option.some.inj hc
      decide
  obtain ⟨d, int', hint', hd⟩ : ∃ d int', int = d :: int' ∧ isDigit d = true := by
    rcases hint with rfl | ⟨c, ds, rfl, -, hds⟩
    · exact ⟨_, _, rfl, by decide⟩
    · exact ⟨c, ds, rfl, isDigit_iff.mpr (hds c List.mem_cons_self)⟩
  have hshape : minus ++ int ++ frac ++ exp ++ rest =
      minus ++ (int ++ (frac ++ (exp ++ rest))) := by
    simp only [List.append_assoc]
  have hsign : (if (minus ++ (int ++ (frac ++ (exp ++ rest)))).head? = some (codePoint '-') then
      [codePoint '-'] else []) = minus := by
    rcases hminus with rfl | rfl
    · refine if_neg ?_
      rw [hint']
      intro h
      obtain rfl := Option.some.inj h
      revert hd
      decide
    · exact if_pos rfl
  have hne : int ≠ [] := by rw [hint']; exact List.cons_ne_nil _ _
  rw [hshape, number]
  dsimp only
  rw [hsign, List.drop_left, intPart_append hint hbehindFrac, if_neg hne, List.drop_left,
    fracPart_append hfrac hbehindExp, List.drop_left,
    expPart_append hexp fun c hc => ⟨(hrest c hc).1, (hrest c hc).2.2⟩, List.drop_left,
    valueOfParts]
  split <;> rfl

theorem digitsVal_append (ds : Text) (d : CodePoint) :
    digitsVal (ds ++ [d]) = 10 * digitsVal ds + (d.val - 0x30) := by
  rw [digitsVal, List.foldl_append]
  rfl

theorem digitsVal_digits {l : List ℕ} (hl : ∀ d ∈ l, d < 10) :
    digitsVal (l.map digit).reverse = Nat.ofDigits 10 l := by
  induction l with
  | nil => rfl
  | cons d l ih =>
    have hd : (digit d).val - 0x30 = d := by
      have := hl d List.mem_cons_self
      simp only [digit]
      omega
    rw [List.map_cons, List.reverse_cons, digitsVal_append,
      ih fun e he => hl e (List.mem_cons_of_mem d he), hd, Nat.ofDigits_cons]
    exact Nat.add_comm _ _

theorem digitsVal_decimal (n : ℕ) : digitsVal (decimal n) = n := by
  rw [decimal]
  split
  · next h => rw [h]; rfl
  · rw [digitsVal_digits fun d hd => Nat.digits_lt_base (by omega) hd, Nat.ofDigits_digits]

/-- **An integer is read back.** -/
theorem number_int (i : ℤ) {rest : Text} (hrest : Follows rest) :
    number toFloat (intRepr i ++ rest) = some (.int i, rest) := by
  have hminus : (if i < 0 then Text.of "-" else []) = [] ∨
      (if i < 0 then Text.of "-" else []) = [codePoint '-'] := by
    split
    · exact .inr rfl
    · exact .inl rfl
  have hshape : intRepr i ++ rest =
      (if i < 0 then Text.of "-" else []) ++ decimal i.natAbs ++ [] ++ [] ++ rest := by
    rw [List.append_nil, List.append_nil, intRepr]
  rw [hshape, number_parts hminus (decimal_isInt i.natAbs) (.inl rfl) (.inl rfl) hrest,
    valueOfParts, if_pos ⟨rfl, rfl⟩, digitsVal_decimal]
  have hvalue : (if (if i < 0 then Text.of "-" else []) = [] then (i.natAbs : ℤ)
      else -(i.natAbs : ℤ)) = i := by
    by_cases hi : i < 0
    · rw [if_pos hi, if_neg (by decide)]
      omega
    · rw [if_neg hi, if_pos rfl]
      omega
  rw [hvalue]

/-- A double is written with a point or an exponent. -/
theorem placed_marked (d : ℕ) (point : ℤ) :
    codePoint '.' ∈ placed d point ∨ codePoint 'e' ∈ placed d point := by
  unfold placed
  dsimp only
  split_ifs with hclose hle hlong h1
  · exact .inl (List.mem_append_left _ (List.mem_append_left _ (by decide)))
  · exact .inl (List.mem_append_right _ (by decide))
  · exact .inl (List.mem_append_left _ (List.mem_append_right _ (by decide)))
  · refine .inr (List.mem_append_right _ ?_)
    unfold exponent
    refine List.mem_append_left _ (List.mem_append_left _ ?_)
    split <;> decide
  · refine .inl (List.mem_append_left _ (List.mem_append_right _ ?_))
    exact List.mem_append_left _ (by decide)

theorem finiteRepr_marked (neg : Bool) (m : ℕ) (e : ℤ) :
    codePoint '.' ∈ finiteRepr neg m e ∨ codePoint 'e' ∈ finiteRepr neg m e := by
  unfold finiteRepr
  dsimp only
  by_cases hm : m = 0
  · rw [if_pos hm]
    exact .inl (List.mem_append_right _ (by decide))
  · rw [if_neg hm]
    exact (placed_marked _ _).imp (List.mem_append_right _) (List.mem_append_right _)

/-- **A double is read back**, if `float` reads it back. -/
theorem number_float {x : Float} (hfinite : x.isFinite = true) {rest : Text}
    (hrest : Follows rest) : number toFloat (dumpsFloat x ++ rest) =
      some (.float (toFloat (dumpsFloat x)), rest) := by
  cases x with
  | finite neg m e =>
    obtain ⟨minus, int, frac, exp, hminus, hint, hfrac, hexp, htext⟩ := finiteRepr_isNumber neg m e
    have hmarked := finiteRepr_marked neg m e
    rw [dumpsFloat]
    rw [htext] at hmarked ⊢
    rw [number_parts hminus hint hfrac hexp hrest, valueOfParts, if_neg]
    -- a sign and digits have no point and no exponent
    rintro ⟨rfl, rfl⟩
    have hplain : ∀ c, c ∈ minus ++ int ++ [] ++ [] → c = codePoint '-' ∨ isDigit c = true := by
      intro c hc
      rw [List.append_nil, List.append_nil, List.mem_append] at hc
      rcases hc with hc | hc
      · rcases hminus with rfl | rfl
        · exact absurd hc List.not_mem_nil
        · exact .inl (List.mem_singleton.mp hc)
      · exact .inr (isDigit_iff.mpr (hint.digits c hc))
    rcases hmarked with h | h
    · exact absurd (hplain _ h) (by decide)
    · exact absurd (hplain _ h) (by decide)
  | inf => cases hfinite
  | nan => cases hfinite

/-! ### Values -/

/-- The `}` of an object. -/
def brace : CodePoint := codePoint '\x7d'

section

variable (toFloat)

mutual

/-- What `json.loads` gives: keys and strings without a split pair, distinct keys, and doubles that
their own texts read as. -/
def Sound : Value → Prop
  | .str t => Normal t
  | .float x => x.isFinite = true → toFloat (dumpsFloat x) = x
  | .list vs => SoundList vs
  | .dict kvs => Assoc.Distinct kvs ∧ SoundDict kvs
  | _ => True

def SoundList : List Value → Prop
  | [] => True
  | v :: vs => Sound v ∧ SoundList vs

def SoundDict : List (Text × Value) → Prop
  | [] => True
  | (k, v) :: kvs => Normal k ∧ Sound v ∧ SoundDict kvs

end

variable (ok : Text → Prop) (limit : Option ℕ)

mutual

/-- What is read back: texts that are all right, integers of no more digits than are read, distinct
keys, and doubles that their own texts read as. -/
def Back : Value → Prop
  | .str t => ok t
  | .int i => ∀ n ∈ limit, (decimal i.natAbs).length ≤ n
  | .float x => x.isFinite = true → toFloat (dumpsFloat x) = x
  | .list vs => BackList vs
  | .dict kvs => Assoc.Distinct kvs ∧ BackDict kvs
  | _ => True

def BackList : List Value → Prop
  | [] => True
  | v :: vs => Back v ∧ BackList vs

def BackDict : List (Text × Value) → Prop
  | [] => True
  | (k, v) :: kvs => ok k ∧ Back v ∧ BackDict kvs

end

end

/-- No `NaN` and no infinity in it. -/
def finite (v : Value) : Bool := v.all (fun _ => true) Float.isFinite

/-- How the strings that are all right are read, and that nothing but blanks is left between. -/
structure Reads (s : Style) (ok : Text → Prop) : Prop where
  gap : ∀ c ∈ s.gap, isBlank c = true
  string : ∀ {t : Text}, ok t → ∀ rest, ∃ u, s.text t ++ rest = quote :: u ∧
    Loads.string u = .ok (t, rest)
  quoted : ∀ t, ∃ u, s.text t = quote :: u

theorem reads_ascii : Reads .ascii Normal where
  gap _ hc := by
    obtain rfl := List.mem_singleton.mp hc
    rfl
  string ht rest := by
    refine ⟨_, ?_, string_ascii ht rest⟩
    dsimp only [Style.ascii]
    rw [asciiText, List.append_assoc, List.append_assoc]
    rfl
  quoted _ := ⟨_, rfl⟩

/-- A number begins with its sign or a digit. -/
theorem isNumber_head {t : Text} (h : IsNumber t) :
    ∃ c u, t = c :: u ∧ (c = codePoint '-' ∨ isDigit c = true) := by
  obtain ⟨minus, int, frac, exp, hminus, hint, -, -, rfl⟩ := h
  rcases hminus with rfl | rfl
  · rcases hint with rfl | ⟨c, ds, rfl, -, hds⟩
    · exact ⟨_, _, rfl, .inr (by decide)⟩
    · exact ⟨c, _, rfl, .inr (isDigit_iff.mpr (hds c List.mem_cons_self))⟩
  · exact ⟨_, _, rfl, .inl rfl⟩

theorem skip_of_head {c : CodePoint} (h : isBlank c = false) (t : Text) : skip (c :: t) = c :: t :=
  List.dropWhile_cons_of_neg (by rw [h]; exact Bool.false_ne_true)

theorem skip_append {gap : Text} (h : ∀ c ∈ gap, isBlank c = true) (t : Text) :
    skip (gap ++ t) = skip t := by
  rw [skip, skip, List.dropWhile_append_of_pos h]

/-! ### Atoms -/

section

variable {limit : Option ℕ}

/-- A number begins with no letter, so it is none of the words. -/
theorem atom_number {t rest : Text} {v : Value} (ht : IsNumber t)
    (h : number toFloat (t ++ rest) = some (v, rest))
    (hshort : tooLong limit (t ++ rest) (v, rest) = false) :
    atom toFloat limit (t ++ rest) = .ok (v, rest) := by
  obtain ⟨c, u, rfl, hc⟩ := isNumber_head ht
  have hword : ∀ d w, d ≠ codePoint '-' → isDigit d = false →
      ¬ List.isPrefixOf (d :: w) (c :: u ++ rest) = true := by
    intro d w hminus hdigit hp
    obtain ⟨rfl, -⟩ := List.cons_prefix_cons.mp (List.isPrefixOf_iff_prefix.mp hp)
    rcases hc with hc | hc
    · exact hminus hc
    · rw [hdigit] at hc
      cases hc
  have hnone : word [(Text.of "null", .null), (Text.of "true", .bool true),
      (Text.of "false", .bool false)] (c :: u ++ rest) = none := by
    rw [word, Option.map_eq_none_iff, List.find?_eq_none]
    simp only [List.forall_mem_cons]
    exact ⟨hword _ _ (by decide) (by decide), hword _ _ (by decide) (by decide),
      hword _ _ (by decide) (by decide), fun _ h => nomatch h⟩
  rw [atom, hnone, h]
  dsimp only
  rw [hshort, if_neg Bool.false_ne_true]

/-- A text that begins as no string and no container does is read as an atom, at every level. -/
theorem value_atom {n : ℕ} {c : CodePoint} {t : Text} (hq : c ≠ quote)
    (hbrace : c ≠ codePoint '\x7b') (hbracket : c ≠ codePoint '[') :
    value toFloat limit n (c :: t) = atom toFloat limit (c :: t) := by
  cases n with
  | zero => rw [value, scan, if_neg hq, if_neg hbrace, if_neg hbracket]
  | succ n => rw [value, scan, if_neg hq, if_neg hbrace, if_neg hbracket]

theorem value_number {n : ℕ} {t rest : Text} {v : Value} (ht : IsNumber t)
    (h : number toFloat (t ++ rest) = some (v, rest))
    (hshort : tooLong limit (t ++ rest) (v, rest) = false) :
    value toFloat limit n (t ++ rest) = .ok (v, rest) := by
  have hatom := atom_number ht h hshort
  obtain ⟨c, u, hcu, hc⟩ := isNumber_head ht
  rw [hcu, List.cons_append] at hatom ⊢
  rw [value_atom, hatom]
  · rintro rfl
    exact absurd hc (by decide)
  · rintro rfl
    exact absurd hc (by decide)
  · rintro rfl
    exact absurd hc (by decide)

/-- An integer is not too long if its digits are no more than are read. -/
theorem tooLong_int {i : ℤ} (h : ∀ n ∈ limit, (decimal i.natAbs).length ≤ n) (rest : Text) :
    tooLong limit (intRepr i ++ rest) (.int i, rest) = false := by
  have hdigits : ((intRepr i ++ rest).dropWhile (· = codePoint '-')).length - rest.length =
      (decimal i.natAbs).length := by
    have hhead : ∀ t, (decimal i.natAbs ++ t).dropWhile (· = codePoint '-') =
        decimal i.natAbs ++ t := by
      intro t
      obtain ⟨c, u, hc⟩ := List.exists_cons_of_ne_nil (decimal_ne_nil i.natAbs)
      have hdigit : 0x30 ≤ c.val ∧ c.val ≤ 0x39 :=
        decimal_digits i.natAbs c (hc ▸ List.mem_cons_self)
      rw [hc, List.cons_append, List.dropWhile_cons_of_neg]
      refine fun hminus => ?_
      obtain rfl := of_decide_eq_true hminus
      exact absurd hdigit (by decide)
    rw [intRepr, List.append_assoc]
    split
    · have hdrop : (Text.of "-" ++ (decimal i.natAbs ++ rest)).dropWhile (· = codePoint '-') =
          (decimal i.natAbs ++ rest).dropWhile (· = codePoint '-') :=
        List.dropWhile_cons_of_pos (by decide)
      rw [hdrop, hhead, List.length_append, Nat.add_sub_cancel_right]
    · rw [List.nil_append, hhead, List.length_append, Nat.add_sub_cancel_right]
  rw [tooLong, hdigits]
  cases limit with
  | none => rfl
  | some n => exact decide_eq_false (not_lt.mpr (h n rfl))

theorem word_here (w rest : Text) (v : Value) (words : List (Text × Value)) :
    word ((w, v) :: words) (w ++ rest) = some (v, rest) := by
  have hfind : ((w, v) :: words).find? (fun p => p.1.isPrefixOf (w ++ rest)) = some (w, v) :=
    List.find?_cons_of_pos (List.isPrefixOf_iff_prefix.mpr (List.prefix_append _ _))
  rw [word, hfind, Option.map_some, List.drop_left]

theorem word_skip {c d : CodePoint} (h : d ≠ c) (w t : Text) (v : Value)
    (words : List (Text × Value)) : word ((d :: w, v) :: words) (c :: t) = word words (c :: t) := by
  have hfind : ((d :: w, v) :: words).find? (fun p => p.1.isPrefixOf (c :: t)) =
      words.find? fun p => p.1.isPrefixOf (c :: t) :=
    List.find?_cons_of_neg fun hp =>
      h (List.cons_prefix_cons.mp (List.isPrefixOf_iff_prefix.mp hp)).1
  rw [word, hfind, word]

theorem atom_null (rest : Text) :
    atom toFloat limit (Text.of "null" ++ rest) = .ok (.null, rest) := by
  rw [atom, word_here]

theorem atom_bool (b : Bool) (rest : Text) :
    atom toFloat limit (Text.of (if b then "true" else "false") ++ rest) = .ok (.bool b, rest) := by
  cases b with
  | true =>
    have hword : word [(Text.of "null", .null), (Text.of "true", .bool true),
        (Text.of "false", .bool false)] (Text.of "true" ++ rest) = some (.bool true, rest) :=
      (word_skip (by decide) _ _ _ _).trans (word_here _ _ _ _)
    rw [if_pos rfl, atom, hword]
  | false =>
    have hword : word [(Text.of "null", .null), (Text.of "true", .bool true),
        (Text.of "false", .bool false)] (Text.of "false" ++ rest) = some (.bool false, rest) :=
      ((word_skip (by decide) _ _ _ _).trans (word_skip (by decide) _ _ _ _)).trans
        (word_here _ _ _ _)
    rw [if_neg Bool.false_ne_true, atom, hword]

/-- What is no double: it begins with a letter that begins no other value, or is the negative
infinity. -/
theorem atom_odd {c : CodePoint} {t rest : Text} {v : Value}
    (hc : c ≠ codePoint 'n' ∧ c ≠ codePoint 't' ∧ c ≠ codePoint 'f')
    (hnumber : number toFloat (c :: t) = none)
    (hword : word [(Text.of "NaN", .float .nan), (Text.of "Infinity", .float (.inf false)),
      (Text.of "-Infinity", .float (.inf true))] (c :: t) = some (v, rest)) :
    atom toFloat limit (c :: t) = .ok (v, rest) := by
  have hnone : word [(Text.of "null", .null), (Text.of "true", .bool true),
      (Text.of "false", .bool false)] (c :: t) = none :=
    (word_skip hc.1.symm _ _ _ _).trans
      ((word_skip hc.2.1.symm _ _ _ _).trans (word_skip hc.2.2.symm _ _ _ _))
  rw [atom, hnone, hnumber, hword]

/-- **A double is read back**, if `float` reads it back. -/
theorem value_float {x : Float} (h : x.isFinite = true → toFloat (dumpsFloat x) = x) {n : ℕ}
    {rest : Text} (hrest : Follows rest) :
    value toFloat limit n (dumpsFloat x ++ rest) = .ok (.float x, rest) := by
  cases x with
  | finite neg m e =>
    have hnumber : number toFloat (dumpsFloat (.finite neg m e) ++ rest) =
        some (.float (toFloat (dumpsFloat (.finite neg m e))), rest) := number_float rfl hrest
    rw [h rfl] at hnumber
    exact value_number (finiteRepr_isNumber neg m e) hnumber rfl
  | inf neg =>
    cases neg with
    | false =>
      have hatom : value toFloat limit n (dumpsFloat (.inf false) ++ rest) =
          atom toFloat limit (Text.of "Infinity" ++ rest) :=
        value_atom (by decide) (by decide) (by decide)
      rw [hatom]
      exact atom_odd (by decide) rfl ((word_skip (by decide) _ _ _ _).trans (word_here _ _ _ _))
    | true =>
      have hatom : value toFloat limit n (dumpsFloat (.inf true) ++ rest) =
          atom toFloat limit (Text.of "-Infinity" ++ rest) :=
        value_atom (by decide) (by decide) (by decide)
      rw [hatom]
      exact atom_odd (by decide) rfl ((word_skip (by decide) _ _ _ _).trans
        ((word_skip (by decide) _ _ _ _).trans (word_here _ _ _ _)))
  | nan =>
    have hatom : value toFloat limit n (dumpsFloat .nan ++ rest) =
        atom toFloat limit (Text.of "NaN" ++ rest) :=
      value_atom (by decide) (by decide) (by decide)
    rw [hatom]
    exact atom_odd (by decide) rfl (word_here _ _ _ _)

/-! ### Containers -/

theorem follows_cons {c : CodePoint} (h : isDigit c = false ∧ c ≠ codePoint '.' ∧
    c ≠ codePoint 'e' ∧ c ≠ codePoint 'E') (t : Text) : Follows (c :: t) := by
  intro d hd
  obtain rfl := Option.some.inj hd
  exact h

/-- Pairs of distinct keys are put into a dictionary as they stand. -/
theorem update_nil {kvs : List (Text × Value)} (h : Assoc.Distinct kvs) :
    Dict.update [] kvs = kvs := by
  have hgo : ∀ (done kvs : List (Text × Value)), Assoc.Distinct (done ++ kvs) →
      Dict.update done kvs = done ++ kvs := by
    intro done kvs
    induction kvs generalizing done with
    | nil => exact fun _ => (List.append_nil _).symm
    | cons p kvs ih =>
      intro hdistinct
      have hno : Dict.has done p.1 = false := by
        refine Bool.eq_false_of_not_eq_true fun hhas => ?_
        rw [Assoc.Distinct, List.map_append, List.nodup_append] at hdistinct
        exact hdistinct.2.2 p.1 (mem_keys_iff.mpr hhas) p.1 List.mem_cons_self rfl
      have hset : Dict.set done p.1 p.2 = done ++ [p] := by
        rw [Dict.set, if_neg (by rw [hno]; exact Bool.false_ne_true)]
      have hstep := ih (done ++ [p]) (by rwa [List.append_assoc, List.singleton_append])
      rw [List.append_assoc, List.singleton_append] at hstep
      rw [Dict.update, List.foldl_cons, hset]
      exact hstep
  exact hgo [] kvs h

variable {s : Style} {ok : Text → Prop}

/-- What a value's text begins with: no blank, and nothing that ends a container. -/
theorem write_head (hs : Reads s ok) (v : Value) : ∃ c t, s.write v = c :: t ∧
    isBlank c = false ∧ c ≠ codePoint ']' ∧ c ≠ brace := by
  have hnumber : ∀ t, IsNumber t → ∃ c u, t = c :: u ∧ isBlank c = false ∧ c ≠ codePoint ']' ∧
      c ≠ brace := by
    intro t ht
    obtain ⟨c, u, rfl, hc⟩ := isNumber_head ht
    refine ⟨c, u, rfl, ?_, ?_, ?_⟩
    · refine Bool.eq_false_iff.mpr fun hblank => ?_
      unfold isBlank at hblank
      simp only [Bool.or_eq_true, decide_eq_true_eq] at hblank
      rcases hblank with ((rfl | rfl) | rfl) | rfl
      · exact absurd hc (by decide)
      · exact absurd hc (by decide)
      · exact absurd hc (by decide)
      · exact absurd hc (by decide)
    · rintro rfl
      exact absurd hc (by decide)
    · rintro rfl
      exact absurd hc (by decide)
  cases v with
  | null => exact ⟨_, _, rfl, by decide, by decide, by decide⟩
  | bool b =>
    cases b
    · exact ⟨_, _, rfl, by decide, by decide, by decide⟩
    · exact ⟨_, _, rfl, by decide, by decide, by decide⟩
  | int i => exact hnumber _ (intRepr_isNumber i)
  | float x =>
    cases x with
    | finite neg m e => exact hnumber _ (finiteRepr_isNumber neg m e)
    | inf neg =>
      cases neg
      · exact ⟨_, _, rfl, by decide, by decide, by decide⟩
      · exact ⟨_, _, rfl, by decide, by decide, by decide⟩
    | nan => exact ⟨_, _, rfl, by decide, by decide, by decide⟩
  | str t =>
    obtain ⟨u, hu⟩ := hs.quoted t
    exact ⟨_, u, hu, by decide, by decide, by decide⟩
  | list vs => exact ⟨_, _, rfl, by decide, by decide, by decide⟩
  | dict kvs => exact ⟨_, _, rfl, by decide, by decide, by decide⟩

theorem skip_write (hs : Reads s ok) (v : Value) (rest : Text) :
    skip (s.write v ++ rest) = s.write v ++ rest := by
  obtain ⟨c, t, hv, hblank, -, -⟩ := write_head hs v
  rw [hv, List.cons_append, skip_of_head hblank]

/-- A list's text begins as its first item's does. -/
theorem writeList_head (hs : Reads s ok) {vs : List Value} (h : vs ≠ []) :
    ∃ c t, s.writeList vs = c :: t ∧ isBlank c = false ∧ c ≠ codePoint ']' := by
  obtain ⟨v, vs, rfl⟩ := List.exists_cons_of_ne_nil h
  obtain ⟨c, t, hv, hblank, hbracket, -⟩ := write_head hs v
  exact ⟨c, _, by rw [Style.writeList, hv, List.cons_append, List.cons_append], hblank, hbracket⟩

theorem writeDict_head (hs : Reads s ok) {kvs : List (Text × Value)} (h : kvs ≠ []) :
    ∃ t, s.writeDict kvs = quote :: t := by
  obtain ⟨⟨k, v⟩, kvs, rfl⟩ := List.exists_cons_of_ne_nil h
  obtain ⟨u, hu⟩ := hs.quoted k
  refine ⟨u ++ (codePoint ':' :: s.gap ++ (s.write v ++
    (s.comma kvs.isEmpty ++ s.writeDict kvs))), ?_⟩
  simp only [Style.writeDict, hu, List.append_assoc, List.cons_append]

theorem length_le_writeList (hs : Reads s ok) (vs : List Value) :
    vs.length ≤ (s.writeList vs).length := by
  induction vs with
  | nil => exact Nat.zero_le _
  | cons v vs ih =>
    obtain ⟨c, t, hv, -⟩ := write_head hs v
    rw [Style.writeList, hv]
    simp only [List.length_cons, List.length_append]
    omega

theorem length_le_writeDict (hs : Reads s ok) (kvs : List (Text × Value)) :
    kvs.length ≤ (s.writeDict kvs).length := by
  induction kvs with
  | nil => exact Nat.zero_le _
  | cons p kvs ih =>
    obtain ⟨k, v⟩ := p
    obtain ⟨c, t, hv, -⟩ := write_head hs v
    rw [Style.writeDict, hv]
    simp only [List.length_cons, List.length_append]
    omega

mutual

/-- **A value that is written is read back**, before anything that does not go on with a number. -/
theorem value_write (hs : Reads s ok) : ∀ (v : Value) {n : ℕ} {rest : Text},
    Back toFloat ok limit v → v.depth ≤ n → Follows rest →
    value toFloat limit n (s.write v ++ rest) = .ok (v, rest)
  | .null, n, rest, _, _, _ => by
    have hatom : value toFloat limit n (s.write .null ++ rest) =
        atom toFloat limit (Text.of "null" ++ rest) :=
      value_atom (by decide) (by decide) (by decide)
    rw [hatom, atom_null]
  | .bool b, n, rest, _, _, _ => by
    have hatom : value toFloat limit n (s.write (.bool b) ++ rest) =
        atom toFloat limit (Text.of (if b then "true" else "false") ++ rest) := by
      cases b
      · exact value_atom (by decide) (by decide) (by decide)
      · exact value_atom (by decide) (by decide) (by decide)
    rw [hatom, atom_bool]
  | .int i, n, rest, hback, _, hrest =>
    value_number (intRepr_isNumber i) (number_int i hrest) (tooLong_int hback rest)
  | .float x, n, rest, hback, _, hrest => value_float hback hrest
  | .str t, n, rest, hback, _, _ => by
    obtain ⟨u, hu, hread⟩ := hs.string hback rest
    rw [Style.write, hu]
    cases n with
    | zero => rw [value, scan, if_pos rfl, hread]; rfl
    | succ n => rw [value, scan, if_pos rfl, hread]; rfl
  | .list vs, n, rest, hback, hdepth, _ => by
    rw [Value.depth] at hdepth
    obtain ⟨m, rfl⟩ : ∃ m, n = m + 1 := ⟨n - 1, by omega⟩
    have hshape : s.write (.list vs) ++ rest =
        codePoint '[' :: (s.writeList vs ++ codePoint ']' :: rest) := by
      rw [Style.write, List.cons_append, List.append_assoc, List.singleton_append]
    rw [hshape, value, scan, if_neg (by decide), if_neg (by decide), if_pos rfl]
    dsimp only
    by_cases hvs : vs = []
    · rw [hvs, Style.writeList, List.nil_append, skip_of_head (by decide)]
      rfl
    · obtain ⟨c, t, hc, hblank, hbracket⟩ := writeList_head hs hvs
      have hfuel : vs.length ≤ (s.writeList vs ++ codePoint ']' :: rest).length := by
        rw [List.length_append]
        exact (length_le_writeList hs vs).trans (Nat.le_add_right _ _)
      have hitems : elements (value toFloat limit m) _
          (s.writeList vs ++ codePoint ']' :: rest) = .ok (vs, rest) :=
        elements_write hs vs hvs hback (Nat.le_of_succ_le_succ hdepth) hfuel
      rw [hc, List.cons_append] at hitems ⊢
      rw [skip_of_head hblank]
      dsimp only
      rw [if_neg hbracket, hitems]
      rfl
  | .dict kvs, n, rest, hback, hdepth, _ => by
    rw [Value.depth] at hdepth
    obtain ⟨m, rfl⟩ : ∃ m, n = m + 1 := ⟨n - 1, by omega⟩
    obtain ⟨hdistinct, hback⟩ := hback
    have hshape : s.write (.dict kvs) ++ rest =
        codePoint '\x7b' :: (s.writeDict kvs ++ brace :: rest) := by
      rw [Style.write, List.cons_append, List.append_assoc, List.singleton_append]
      rfl
    rw [hshape, value, scan, if_neg (by decide), if_pos rfl]
    dsimp only
    by_cases hkvs : kvs = []
    · rw [hkvs, Style.writeDict, List.nil_append, skip_of_head (by decide)]
      rfl
    · obtain ⟨t, hc⟩ := writeDict_head hs hkvs
      have hfuel : kvs.length ≤ (s.writeDict kvs ++ brace :: rest).length := by
        rw [List.length_append]
        exact (length_le_writeDict hs kvs).trans (Nat.le_add_right _ _)
      have hpairs : members (value toFloat limit m) _ (s.writeDict kvs ++ brace :: rest) =
          .ok (kvs, rest) :=
        members_write hs kvs hkvs hback (Nat.le_of_succ_le_succ hdepth) hfuel
      rw [hc, List.cons_append] at hpairs ⊢
      rw [skip_of_head (by decide)]
      dsimp only
      rw [if_neg (by decide), hpairs]
      exact congrArg (fun d => Except.ok (Value.dict d, rest)) (update_nil hdistinct)

theorem elements_write (hs : Reads s ok) : ∀ (vs : List Value) {n fuel : ℕ} {rest : Text},
    vs ≠ [] → BackList toFloat ok limit vs → Value.depthList vs ≤ n → vs.length ≤ fuel →
    elements (value toFloat limit n) fuel (s.writeList vs ++ codePoint ']' :: rest) =
      .ok (vs, rest)
  | [], _, _, _, h, _, _, _ => absurd rfl h
  | v :: vs, n, fuel, rest, _, hback, hdepth, hfuel => by
    obtain ⟨fuel, rfl⟩ : ∃ f, fuel = f + 1 := ⟨fuel - 1, by rw [List.length_cons] at hfuel; omega⟩
    rw [Value.depthList, max_le_iff] at hdepth
    have hfirst : ∀ {rest}, Follows rest →
        value toFloat limit n (s.write v ++ rest) = .ok (v, rest) :=
      fun hrest => value_write hs v hback.1 hdepth.1 hrest
    by_cases hvs : vs = []
    · subst hvs
      have hshape : s.writeList [v] ++ codePoint ']' :: rest =
          s.write v ++ codePoint ']' :: rest := by
        rw [Style.writeList, Style.writeList, List.append_nil]
        exact congrArg (· ++ codePoint ']' :: rest) (List.append_nil _)
      rw [hshape, elements, hfirst (follows_cons (by decide) rest)]
      dsimp only [bind, Except.bind]
      rw [skip_of_head (by decide)]
      rfl
    · have hempty : vs.isEmpty = false := List.isEmpty_eq_false_iff.mpr hvs
      have hshape : s.writeList (v :: vs) ++ codePoint ']' :: rest = s.write v ++
          codePoint ',' :: (s.gap ++ (s.writeList vs ++ codePoint ']' :: rest)) := by
        rw [Style.writeList, hempty, Style.comma, if_neg Bool.false_ne_true]
        simp only [List.append_assoc, List.cons_append]
      have hrest : elements (value toFloat limit n) fuel
          (s.writeList vs ++ codePoint ']' :: rest) = .ok (vs, rest) :=
        elements_write hs vs hvs hback.2 hdepth.2 (Nat.le_of_succ_le_succ hfuel)
      obtain ⟨c, t, hc, hblank, -⟩ := writeList_head hs hvs
      have hskip : skip (s.gap ++ (s.writeList vs ++ codePoint ']' :: rest)) =
          s.writeList vs ++ codePoint ']' :: rest := by
        rw [skip_append hs.gap, hc, List.cons_append, skip_of_head hblank]
      rw [hshape, elements, hfirst (follows_cons (by decide) _)]
      dsimp only [bind, Except.bind]
      rw [skip_of_head (by decide)]
      dsimp only
      rw [if_neg (by decide), if_pos rfl, hskip, hrest]
      rfl

theorem members_write (hs : Reads s ok) : ∀ (kvs : List (Text × Value)) {n fuel : ℕ}
    {rest : Text}, kvs ≠ [] → BackDict toFloat ok limit kvs → Value.depthDict kvs ≤ n →
    kvs.length ≤ fuel →
    members (value toFloat limit n) fuel (s.writeDict kvs ++ brace :: rest) = .ok (kvs, rest)
  | [], _, _, _, h, _, _, _ => absurd rfl h
  | (k, v) :: kvs, n, fuel, rest, _, hback, hdepth, hfuel => by
    obtain ⟨fuel, rfl⟩ : ∃ f, fuel = f + 1 := ⟨fuel - 1, by rw [List.length_cons] at hfuel; omega⟩
    obtain ⟨hk, hv, hkvs⟩ := hback
    rw [Value.depthDict, max_le_iff] at hdepth
    have hfirst : ∀ {rest}, Follows rest →
        value toFloat limit n (s.write v ++ rest) = .ok (v, rest) :=
      fun hrest => value_write hs v hv hdepth.1 hrest
    have hskipValue : ∀ t, skip (s.gap ++ (s.write v ++ t)) = s.write v ++ t := fun t => by
      rw [skip_append hs.gap, skip_write hs]
    by_cases hne : kvs = []
    · subst hne
      have hshape : s.writeDict [(k, v)] ++ brace :: rest =
          s.text k ++ codePoint ':' :: (s.gap ++ (s.write v ++ brace :: rest)) := by
        simp only [Style.writeDict, List.isEmpty_nil, Style.comma, if_true, List.append_nil,
          List.append_assoc, List.cons_append]
      obtain ⟨u, hu, hread⟩ :=
        hs.string hk (codePoint ':' :: (s.gap ++ (s.write v ++ brace :: rest)))
      rw [hshape, hu, members, if_neg (by decide), hread]
      dsimp only [bind, Except.bind]
      rw [skip_of_head (by decide)]
      dsimp only
      rw [if_neg (by decide), hskipValue, hfirst (follows_cons (by decide) rest)]
      dsimp only [bind, Except.bind]
      rw [skip_of_head (by decide)]
      rfl
    · have hempty : kvs.isEmpty = false := List.isEmpty_eq_false_iff.mpr hne
      have hshape : s.writeDict ((k, v) :: kvs) ++ brace :: rest =
          s.text k ++ codePoint ':' :: (s.gap ++ (s.write v ++ codePoint ',' ::
            (s.gap ++ (s.writeDict kvs ++ brace :: rest)))) := by
        simp only [Style.writeDict, hempty, Style.comma, List.append_assoc, List.cons_append]
        rfl
      have hrest : members (value toFloat limit n) fuel (s.writeDict kvs ++ brace :: rest) =
          .ok (kvs, rest) :=
        members_write hs kvs hne hkvs hdepth.2 (Nat.le_of_succ_le_succ hfuel)
      obtain ⟨t, hc⟩ := writeDict_head hs hne
      have hskip : skip (s.gap ++ (s.writeDict kvs ++ brace :: rest)) =
          s.writeDict kvs ++ brace :: rest := by
        rw [skip_append hs.gap, hc, List.cons_append, skip_of_head (by decide)]
      obtain ⟨u, hu, hread⟩ := hs.string hk (codePoint ':' :: (s.gap ++ (s.write v ++
        codePoint ',' :: (s.gap ++ (s.writeDict kvs ++ brace :: rest)))))
      rw [hshape, hu, members, if_neg (by decide), hread]
      dsimp only [bind, Except.bind]
      rw [skip_of_head (by decide)]
      dsimp only
      rw [if_neg (by decide), hskipValue, hfirst (follows_cons (by decide) _)]
      dsimp only [bind, Except.bind]
      rw [skip_of_head (by decide)]
      dsimp only
      rw [if_neg (by decide), if_pos rfl, hskip, hrest]
      rfl

end

/-- **`json.loads` gives back** what `json.dumps` has written on one line. -/
theorem loads_write (hs : Reads s ok) {v : Value} {n : ℕ} (hback : Back toFloat ok limit v)
    (hdepth : v.depth ≤ n) : loads toFloat limit n (s.write v) = .ok v := by
  have hread : value toFloat limit n (s.write v ++ []) = .ok (v, []) :=
    value_write hs v hback hdepth fun _ h => nomatch h
  rw [List.append_nil] at hread
  have hskip := skip_write hs v []
  rw [List.append_nil] at hskip
  rw [loads, hskip, hread]
  rfl

end

/-! ### `json.dumps(v)` -/

mutual

theorem Sound.back : ∀ {v : Value}, Sound toFloat v → Back toFloat Normal none v
  | .null, _ | .bool _, _ => trivial
  | .int _, _ => fun _ h => absurd h (Option.not_mem_none _)
  | .float _, h => h
  | .str _, h => h
  | .list _, h => SoundList.back h
  | .dict _, h => ⟨h.1, SoundDict.back h.2⟩

theorem SoundList.back : ∀ {vs : List Value}, SoundList toFloat vs →
    BackList toFloat Normal none vs
  | [], _ => trivial
  | _ :: _, h => ⟨Sound.back h.1, SoundList.back h.2⟩

theorem SoundDict.back : ∀ {kvs : List (Text × Value)}, SoundDict toFloat kvs →
    BackDict toFloat Normal none kvs
  | [], _ => trivial
  | (_, _) :: _, h => ⟨h.1, Sound.back h.2.1, SoundDict.back h.2.2⟩

end

/-- **`json.loads` gives back** what `json.dumps` has written. -/
theorem loads_compact {v : Value} {n : ℕ} (hsound : Sound toFloat v) (hdepth : v.depth ≤ n) :
    loads toFloat none n (compact v) = .ok v := by
  rw [compact_eq]
  exact loads_write reads_ascii hsound.back hdepth

end

end Python.Loads
