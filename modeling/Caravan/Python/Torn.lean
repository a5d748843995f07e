import Caravan.Python.Lines
import Caravan.Python.LoadsSound

/-!
# A line of JSON that is torn apart

A reader of JSON is outside of the strings or inside of one (`Place`). Where it may stand depends
on the text alone, and what `json.loads` takes leaves it outside (`loads_run`).

`splitlines` ends a line at characters that `json.dumps` leaves as they are inside a string. A line
that holds one comes apart, and each part then begins or ends inside a string. Such a part may
still be JSON, but no JSON that holds the letter `h` (`torn`): what is inside of the strings for
the line is outside for the part, and the other way round.
-/

namespace Python.Loads

/-! ### Raw strings -/

/-- A character that is written raw is read, by its number or as itself. -/
theorem units_dumpsChar (c : CodePoint) : ∃ b, (b = true → c.val < 0x20) ∧
    ∀ t, units (dumpsChar c ++ t) = (units t).map fun p => ((b, c) :: p.1, p.2) := by
  have hnamed : ∀ e : CodePoint, e ≠ codePoint 'u' → unescape e = some c →
      ∃ b, (b = true → c.val < 0x20) ∧ ∀ t, units (backslash :: e :: t) =
        (units t).map fun p => ((b, c) :: p.1, p.2) := fun e he hc =>
    ⟨false, (fun h => nomatch h), fun t => units_escape he hc t⟩
  unfold dumpsChar
  by_cases hq : c = codePoint '"'
  · subst hq
    exact hnamed _ (by decide) (by decide)
  rw [if_neg hq]
  by_cases hb : c = codePoint '\\'
  · subst hb
    exact hnamed _ (by decide) (by decide)
  rw [if_neg hb]
  by_cases h8 : c.val = 0x08
  · obtain rfl : c = 0x08 := Fin.ext h8
    exact hnamed (codePoint 'b') (by decide) (by decide)
  rw [if_neg h8]
  by_cases hC : c.val = 0x0C
  · obtain rfl : c = 0x0C := Fin.ext hC
    exact hnamed (codePoint 'f') (by decide) (by decide)
  rw [if_neg hC]
  by_cases hn : c = codePoint '\n'
  · subst hn
    exact hnamed (codePoint 'n') (by decide) (by decide)
  rw [if_neg hn]
  by_cases hr : c = codePoint '\r'
  · subst hr
    exact hnamed (codePoint 'r') (by decide) (by decide)
  rw [if_neg hr]
  by_cases ht : c = codePoint '\t'
  · subst ht
    exact hnamed (codePoint 't') (by decide) (by decide)
  rw [if_neg ht]
  by_cases hlow : c.val < 0x20
  · have hself : Fin.ofNat 0x110000 c.val = c := Fin.ext (Nat.mod_eq_of_lt c.isLt)
    refine ⟨true, fun _ => hlow, fun t => ?_⟩
    rw [if_pos hlow, units_hex (by omega), hself]
  · refine ⟨false, (fun h => nomatch h), fun t => ?_⟩
    rw [if_neg hlow, List.singleton_append, units_plain hq hb (not_lt.mp hlow)]

/-- **A raw string is read back**, whatever is in it. -/
theorem string_raw (t rest : Text) : string (t.flatMap dumpsChar ++ quote :: rest) =
    .ok (t, rest) := by
  have hunits : ∃ us, units (t.flatMap dumpsChar ++ quote :: rest) = some (us, rest) ∧
      join us = t := by
    induction t with
    | nil => exact ⟨[], units_quote rest, rfl⟩
    | cons c t ih =>
      obtain ⟨us, hus, hjoin⟩ := ih
      obtain ⟨b, hlow, hc⟩ := units_dumpsChar c
      refine ⟨(b, c) :: us, ?_, ?_⟩
      · rw [List.flatMap_cons, List.append_assoc, hc, hus]
        rfl
      · cases b with
        | false => rw [join_plain, hjoin]
        | true =>
          -- what is written by its number is no half of a pair
          have halone : ∀ d, us.head? = some (true, d) → ¬ (isHigh c = true ∧ isLow d = true) := by
            rintro d - ⟨hhigh, -⟩
            have := (isHigh_iff.mp hhigh).1
            have := hlow rfl
            omega
          rw [join_alone halone, hjoin]
  obtain ⟨us, hus, hjoin⟩ := hunits
  rw [string, hus]
  dsimp only
  rw [hjoin]

theorem reads_raw : Reads .raw fun _ => True where
  gap _ hc := absurd hc List.not_mem_nil
  string _ rest := by
    refine ⟨_, ?_, string_raw _ rest⟩
    dsimp only [Style.raw]
    rw [dumpsText, List.append_assoc, List.append_assoc]
    rfl
  quoted _ := ⟨_, rfl⟩

/-! ### Outside and inside -/

/-- Where a reader of JSON stands: outside of the strings, inside of one, or behind a backslash. -/
inductive Place where
  | outside
  | inside
  | escaped
  deriving DecidableEq, Repr

/-- A character that may stand outside of the strings. -/
def Plain (c : CodePoint) : Prop := c ≠ quote ∧ c ≠ backslash ∧ c ≠ codePoint 'h'

instance (c : CodePoint) : Decidable (Plain c) := inferInstanceAs (Decidable (_ ∧ _ ∧ _))

/-- The place behind a character. No value has a backslash outside of its strings, or the letter
`h`. -/
def Place.step : Place → CodePoint → Option Place
  | .outside, c => if c = quote then some .inside else if Plain c then some .outside else none
  | .inside, c =>
    if c = quote then some .outside else if c = backslash then some .escaped else some .inside
  | .escaped, _ => some .inside

/-- The place behind a text. -/
def Place.run (p : Place) (t : Text) : Option Place := t.foldlM Place.step p

namespace Place

theorem run_cons (p : Place) (c : CodePoint) (t : Text) :
    p.run (c :: t) = (p.step c).bind (·.run t) := List.foldlM_cons

theorem run_append (p : Place) (s t : Text) : p.run (s ++ t) = (p.run s).bind (·.run t) :=
  List.foldlM_append

theorem run_plain {c : CodePoint} (h : Plain c) (t : Text) :
    outside.run (c :: t) = outside.run t := by
  rw [run_cons, step, if_neg h.1, if_pos h]
  rfl

theorem run_plains {s : Text} (h : ∀ c ∈ s, Plain c) (t : Text) :
    outside.run (s ++ t) = outside.run t := by
  induction s with
  | nil => rfl
  | cons c s ih =>
    rw [List.cons_append, run_plain (h c List.mem_cons_self),
      ih fun d hd => h d (List.mem_cons_of_mem c hd)]

theorem run_open (t : Text) : outside.run (quote :: t) = inside.run t := rfl

theorem run_close (t : Text) : inside.run (quote :: t) = outside.run t := rfl

theorem run_inside {c : CodePoint} (hq : c ≠ quote) (hb : c ≠ backslash) (t : Text) :
    inside.run (c :: t) = inside.run t := by
  rw [run_cons, step, if_neg hq, if_neg hb]
  rfl

theorem run_escape (c : CodePoint) (t : Text) : inside.run (backslash :: c :: t) = inside.run t :=
  rfl

/-- A prefix of characters that may stand outside is passed over. -/
theorem run_drop {s t : Text} (hs : s <+: t) (h : ∀ c ∈ s, Plain c) :
    outside.run (t.drop s.length) = outside.run t := by
  obtain ⟨t, rfl⟩ := hs
  rw [List.drop_left, run_plains h]

end Place

/-! ### What `json.loads` takes -/

theorem run_skip (t : Text) : Place.outside.run (skip t) = Place.outside.run t := by
  induction t with
  | nil => rfl
  | cons c t ih =>
    by_cases hc : isBlank c = true
    · have hplain : Plain c := by
        unfold isBlank at hc
        simp only [Bool.or_eq_true, decide_eq_true_eq] at hc
        rcases hc with ((rfl | rfl) | rfl) | rfl
        · decide
        · decide
        · decide
        · decide
      rw [skip, List.dropWhile_cons_of_pos hc, Place.run_plain hplain]
      exact ih
    · rw [skip, List.dropWhile_cons_of_neg hc]

theorem hexVal_plain {c : CodePoint} {n : ℕ} (h : hexVal c = some n) :
    c ≠ quote ∧ c ≠ backslash := by
  have hquote : hexVal quote = none := by decide
  have hbackslash : hexVal backslash = none := by decide
  constructor
  · rintro rfl
    cases hquote.symm.trans h
  · rintro rfl
    cases hbackslash.symm.trans h

theorem hex4_plain {a b c d n : CodePoint} (h : hex4 a b c d = some n) :
    ∀ e ∈ [a, b, c, d], e ≠ quote ∧ e ≠ backslash := by
  unfold hex4 at h
  simp only [Option.bind_eq_bind, Option.bind_eq_some_iff] at h
  obtain ⟨_, ha, _, hb, _, hc, _, hd, -⟩ := h
  simp only [List.forall_mem_cons]
  exact ⟨hexVal_plain ha, hexVal_plain hb, hexVal_plain hc, hexVal_plain hd, fun _ h => nomatch h⟩

/-- A string is left behind its closing quote. -/
theorem units_run {t : Text} : ∀ {us : List Unit} {r : Text}, units t = some (us, r) →
    Place.inside.run t = Place.outside.run r := by
  fun_induction units t with
  | case1 | case3 | case5 | case6 | case8 | case9 => exact fun h => by cases h
  | case2 t =>
    intro us r h
    cases h
    exact Place.run_close _
  | case4 h₀ h₁ h₂ h₃ t n hn hne ih =>
    intro us r h
    obtain ⟨⟨us, r⟩, hus, he⟩ := Option.map_eq_some_iff.mp h
    cases he
    have hplain := hex4_plain hn
    simp only [List.forall_mem_cons] at hplain
    obtain ⟨h0, h1, h2, h3, -⟩ := hplain
    rw [Place.run_escape, Place.run_inside h0.1 h0.2, Place.run_inside h1.1 h1.2,
      Place.run_inside h2.1 h2.2, Place.run_inside h3.1 h3.2, ih hus]
  | case7 e t hu d hd hne ih =>
    intro us r h
    obtain ⟨⟨us, r⟩, hus, he⟩ := Option.map_eq_some_iff.mp h
    cases he
    rw [Place.run_escape, ih hus]
  | case10 c t hq hb hc ih =>
    intro us r h
    obtain ⟨⟨us, r⟩, hus, he⟩ := Option.map_eq_some_iff.mp h
    cases he
    rw [Place.run_inside hq hb, ih hus]

theorem string_run {t s r : Text} (h : string t = .ok (s, r)) :
    Place.inside.run t = Place.outside.run r := by
  unfold string at h
  split at h
  · next us r' hus =>
    cases h
    exact units_run hus
  · cases h

theorem plain_of_isDigit {c : CodePoint} (h : isDigit c = true) : Plain c := by
  refine ⟨?_, ?_, ?_⟩ <;>
    (rintro rfl
     exact absurd h (by decide))

theorem plain_of_mem_digits {c : CodePoint} {t : Text} (h : c ∈ t.takeWhile isDigit) : Plain c :=
  plain_of_isDigit (List.mem_takeWhile_imp h)

theorem intPart_begins (t : Text) : intPart t <+: t ∧ ∀ c ∈ intPart t, Plain c := by
  unfold intPart
  split
  · exact ⟨List.nil_prefix, fun _ h => by cases h⟩
  next c t =>
  split_ifs with hzero hdigit
  · subst hzero
    exact ⟨⟨t, rfl⟩, fun d hd => by obtain rfl := List.mem_singleton.mp hd; decide⟩
  · refine ⟨List.cons_prefix_cons.mpr ⟨rfl, List.takeWhile_prefix _⟩, ?_⟩
    exact List.forall_mem_cons.mpr ⟨plain_of_isDigit hdigit, fun d hd => plain_of_mem_digits hd⟩
  · exact ⟨List.nil_prefix, fun _ h => by cases h⟩

theorem fracPart_begins (t : Text) : fracPart t <+: t ∧ ∀ c ∈ fracPart t, Plain c := by
  unfold fracPart
  split
  · exact ⟨List.nil_prefix, fun _ h => by cases h⟩
  next c t =>
  dsimp only
  split_ifs with h
  · obtain ⟨rfl, -⟩ := h
    refine ⟨List.cons_prefix_cons.mpr ⟨rfl, List.takeWhile_prefix _⟩, ?_⟩
    exact List.forall_mem_cons.mpr ⟨by decide, fun d hd => plain_of_mem_digits hd⟩
  · exact ⟨List.nil_prefix, fun _ h => by cases h⟩

theorem signPart_prefix (t : Text) : signPart t <+: t ∧ ∀ c ∈ signPart t, Plain c := by
  unfold signPart
  split
  · exact ⟨List.nil_prefix, fun _ h => by cases h⟩
  next c t =>
  split_ifs with h
  · refine ⟨⟨t, rfl⟩, fun d hd => ?_⟩
    obtain rfl := List.mem_singleton.mp hd
    rcases h with rfl | rfl
    · decide
    · decide
  · exact ⟨List.nil_prefix, fun _ h => by cases h⟩

theorem expPart_begins (t : Text) : expPart t <+: t ∧ ∀ c ∈ expPart t, Plain c := by
  unfold expPart
  split
  · exact ⟨List.nil_prefix, fun _ h => by cases h⟩
  next c t =>
  dsimp only
  split_ifs with h
  · obtain ⟨hsign, hplain⟩ := signPart_prefix t
    obtain ⟨u, hu⟩ := hsign
    constructor
    · refine List.cons_prefix_cons.mpr ⟨rfl, ?_⟩
      generalize signPart t = sign at hu
      subst hu
      rw [List.drop_left]
      exact (List.prefix_append_right_inj _).mpr (List.takeWhile_prefix _)
    · refine List.forall_mem_cons.mpr ⟨?_, fun d hd => ?_⟩
      · rcases h.1 with rfl | rfl
        · decide
        · decide
      · rcases List.mem_append.mp hd with hd | hd
        · exact hplain d hd
        · exact plain_of_mem_digits hd
  · exact ⟨List.nil_prefix, fun _ h => by cases h⟩

section

variable {toFloat : Text → Float} {limit : Option ℕ}

theorem number_run {t r : Text} {v : Value} (h : number toFloat t = some (v, r)) :
    Place.outside.run t = Place.outside.run r := by
  have hminus : ∀ minus : Text, minus = (if t.head? = some (codePoint '-') then [codePoint '-']
      else []) → Place.outside.run (t.drop minus.length) = Place.outside.run t := by
    rintro minus rfl
    split
    · next hhead =>
      obtain ⟨u, rfl⟩ := List.head?_eq_some_iff.mp hhead
      exact (Place.run_plain (by decide) u).symm
    · rfl
  unfold number at h
  dsimp only at h
  have hminus := hminus _ rfl
  generalize (if t.head? = some (codePoint '-') then [codePoint '-'] else []) = minus at h hminus
  have hint := Place.run_drop (intPart_begins (t.drop minus.length)).1 (intPart_begins _).2
  generalize hi : intPart (t.drop minus.length) = int at h hint
  have hfrac := Place.run_drop (fracPart_begins ((t.drop minus.length).drop int.length)).1
    (fracPart_begins _).2
  generalize hf : fracPart ((t.drop minus.length).drop int.length) = frac at h hfrac
  have hexp := Place.run_drop
    (expPart_begins (((t.drop minus.length).drop int.length).drop frac.length)).1
    (expPart_begins _).2
  generalize he : expPart (((t.drop minus.length).drop int.length).drop frac.length) = exp at h hexp
  have hall := hexp.trans (hfrac.trans (hint.trans hminus))
  split at h
  · cases h
  split at h
  · obtain ⟨-, rfl⟩ := Prod.mk.inj (Option.some.inj h)
    exact hall.symm
  · obtain ⟨-, rfl⟩ := Prod.mk.inj (Option.some.inj h)
    exact hall.symm

theorem word_run {words : List (Text × Value)} {t r : Text} {v : Value}
    (hwords : ∀ p ∈ words, ∀ c ∈ p.1, Plain c) (h : word words t = some (v, r)) :
    Place.outside.run t = Place.outside.run r := by
  obtain ⟨p, hp, he⟩ := Option.map_eq_some_iff.mp h
  obtain ⟨-, rfl⟩ := Prod.mk.inj he
  have hhere : p.1.isPrefixOf t = true :=
    List.find?_some (p := fun q : Text × Value => q.1.isPrefixOf t) hp
  have hprefix : p.1 <+: t := List.isPrefixOf_iff_prefix.mp hhere
  exact (Place.run_drop hprefix (hwords p (List.mem_of_find?_eq_some hp))).symm

theorem plains_of {t : Text} (h : t.all (fun c => decide (Plain c)) = true) : ∀ c ∈ t, Plain c :=
  fun c hc => of_decide_eq_true (List.all_eq_true.mp h c hc)

theorem atom_run {t r : Text} {v : Value} (h : atom toFloat limit t = .ok (v, r)) :
    Place.outside.run t = Place.outside.run r := by
  unfold atom at h
  split at h
  · next w hw =>
    cases h
    refine word_run ?_ hw
    simp only [List.forall_mem_cons]
    exact ⟨plains_of (by decide), plains_of (by decide), plains_of (by decide),
      fun _ h => nomatch h⟩
  split at h
  · next w hw =>
    split at h
    · cases h
    cases h
    exact number_run hw
  split at h
  · next w hw =>
    cases h
    refine word_run ?_ hw
    simp only [List.forall_mem_cons]
    exact ⟨plains_of (by decide), plains_of (by decide), plains_of (by decide),
      fun _ h => nomatch h⟩
  · cases h

/-- What a reader takes leaves it outside. -/
def Closes (value : Text → Except Error (Value × Text)) : Prop :=
  ∀ {t v r}, value t = .ok (v, r) → Place.outside.run t = Place.outside.run r

theorem elements_run {value : Text → Except Error (Value × Text)} (hvalue : Closes value) :
    ∀ {fuel : ℕ} {t r : Text} {vs : List Value}, elements value fuel t = .ok (vs, r) →
    Place.outside.run t = Place.outside.run r := by
  intro fuel
  induction fuel with
  | zero => exact fun h => nomatch h
  | succ fuel ih =>
    intro t r vs h
    rw [elements] at h
    obtain ⟨⟨v, t₁⟩, hv, h⟩ := Except.bind_eq_ok h
    rw [hvalue hv, ← run_skip]
    dsimp only at h
    split at h
    · cases h
    next c t₂ hc =>
    rw [hc]
    split at h
    · next hend =>
      cases h
      rw [hend]
      exact Place.run_plain (by decide) _
    split at h
    · next hcomma =>
      obtain ⟨⟨vs, t₃⟩, hvs, h⟩ := Except.bind_eq_ok h
      cases h
      rw [hcomma, Place.run_plain (by decide), ← run_skip, ih hvs]
    · cases h

theorem members_run {value : Text → Except Error (Value × Text)} (hvalue : Closes value) :
    ∀ {fuel : ℕ} {t r : Text} {kvs : List (Text × Value)}, members value fuel t = .ok (kvs, r) →
    Place.outside.run t = Place.outside.run r := by
  intro fuel
  induction fuel with
  | zero => exact fun h => nomatch h
  | succ fuel ih =>
    intro t r kvs h
    cases t with
    | nil => cases h
    | cons q t =>
      rw [members] at h
      split at h
      · cases h
      next hq =>
      obtain ⟨⟨k, t₁⟩, hk, h⟩ := Except.bind_eq_ok h
      rw [not_not.mp hq, Place.run_open, string_run hk, ← run_skip]
      dsimp only at h
      split at h
      · cases h
      next colon t₂ hcolon =>
      rw [hcolon]
      split at h
      · cases h
      next hc =>
      obtain ⟨⟨v, t₃⟩, hv, h⟩ := Except.bind_eq_ok h
      rw [not_not.mp hc, Place.run_plain (by decide), ← run_skip, hvalue hv, ← run_skip]
      dsimp only at h
      split at h
      · cases h
      next c t₄ hc =>
      rw [hc]
      split at h
      · next hend =>
        cases h
        rw [hend]
        exact Place.run_plain (by decide) _
      split at h
      · next hcomma =>
        obtain ⟨⟨kvs, t₅⟩, hkvs, h⟩ := Except.bind_eq_ok h
        cases h
        rw [hcomma, Place.run_plain (by decide), ← run_skip, ih hkvs]
      · cases h

theorem scan_run {below : Option (Text → Except Error (Value × Text))}
    (hbelow : ∀ value ∈ below, Closes value) : Closes (scan toFloat limit below) := by
  intro t v r h
  cases t with
  | nil => cases h
  | cons c t =>
    unfold scan at h
    dsimp only at h
    split at h
    · next hq =>
      obtain ⟨⟨s, t'⟩, hs, h⟩ := Except.bind_eq_ok h
      cases h
      rw [hq, Place.run_open, string_run hs]
    split at h
    · next hbrace =>
      rw [hbrace, Place.run_plain (by decide), ← run_skip]
      split at h
      · cases h
      next value =>
      split at h
      · cases h
      next d u hd =>
      rw [hd]
      split at h
      · next hend =>
        cases h
        rw [hend]
        exact Place.run_plain (by decide) _
      · obtain ⟨⟨kvs, t'⟩, hkvs, h⟩ := Except.bind_eq_ok h
        cases h
        exact members_run (hbelow value rfl) hkvs
    split at h
    · next hbracket =>
      rw [hbracket, Place.run_plain (by decide), ← run_skip]
      split at h
      · cases h
      next value =>
      split at h
      · cases h
      next d u hd =>
      rw [hd]
      split at h
      · next hend =>
        cases h
        rw [hend]
        exact Place.run_plain (by decide) _
      · obtain ⟨⟨vs, t'⟩, hvs, h⟩ := Except.bind_eq_ok h
        cases h
        exact elements_run (hbelow value rfl) hvs
    · exact atom_run h

theorem value_run : ∀ n, Closes (value toFloat limit n) := by
  intro n
  induction n with
  | zero => exact scan_run fun _ h => absurd h (Option.not_mem_none _)
  | succ n ih =>
    refine scan_run fun value h => ?_
    obtain rfl := Option.some.inj h
    exact ih

/-- **What `json.loads` takes ends outside of the strings.** -/
theorem loads_run {n : ℕ} {t : Text} {v : Value} (h : loads toFloat limit n t = .ok v) :
    Place.outside.run t = some .outside := by
  obtain ⟨⟨v', r⟩, hv, h⟩ := Except.bind_eq_ok h
  dsimp only at h
  split at h
  · next hr =>
    rw [← run_skip, value_run n hv, ← run_skip, hr]
    rfl
  · cases h

/-- **What is outside for one is inside for the other**: two readers that start apart and both go on
meet no `h`. -/
theorem no_h_of_apart : ∀ {t : Text}, (Place.outside.run t).isSome → (Place.inside.run t).isSome →
    codePoint 'h' ∉ t := by
  intro t
  induction t with
  | nil => exact fun _ _ => List.not_mem_nil
  | cons c t ih =>
    intro hout hin
    by_cases hq : c = quote
    · subst hq
      -- the two change places
      exact fun h => (List.mem_cons.mp h).elim (by decide) (ih hin hout)
    · by_cases hc : Plain c
      · rw [Place.run_plain hc] at hout
        rw [Place.run_inside hq hc.2.1] at hin
        exact fun h => (List.mem_cons.mp h).elim hc.2.2.symm (ih hout hin)
      · rw [Place.run_cons, Place.step, if_neg hq, if_neg hc] at hout
        cases hout

end

/-! ### A line that is written -/

/-- A text that leads from a place to a place, with every line end in it inside of a string. -/
structure Leads (p : Place) (t : Text) (q : Place) : Prop where
  run : p.run t = some q
  ends : ∀ s b u, t = s ++ b :: u → isBreak b = true → p.run s = some .inside

namespace Leads

theorem nil (p : Place) : Leads p [] p where
  run := rfl
  ends s b u h _ := absurd h.symm (List.append_ne_nil_of_right_ne_nil s (List.cons_ne_nil b u))

theorem append {p q r : Place} {s t : Text} (hs : Leads p s q) (ht : Leads q t r) :
    Leads p (s ++ t) r where
  run := by rw [Place.run_append, hs.run]; exact ht.run
  ends a b u h hb := by
    rcases List.append_eq_append_iff.mp h with ⟨c, ha, ht'⟩ | ⟨c, hs', hbu⟩
    · rw [ha, Place.run_append, hs.run]
      exact ht.ends c b u ht' hb
    · cases c with
      | nil =>
        rw [List.append_nil] at hs'
        rw [← hs', hs.run]
        exact ht.ends [] b u hbu.symm hb
      | cons d c =>
        obtain ⟨rfl, -⟩ := List.cons.inj hbu
        exact hs.ends a b c hs' hb

/-- Without a line end. -/
theorem of_oneLine {p q : Place} {t : Text} (hrun : p.run t = some q) (h : t.OneLine) :
    Leads p t q where
  run := hrun
  ends s b u ht hb := by
    rw [ht] at h
    have hno := h b (List.mem_append_right s List.mem_cons_self)
    rw [hno] at hb
    cases hb

theorem plains {t : Text} (h : ∀ c ∈ t, Plain c ∧ isBreak c = false) :
    Leads .outside t .outside := by
  refine of_oneLine ?_ fun c hc => (h c hc).2
  have hrun := Place.run_plains (fun c hc => (h c hc).1) []
  rw [List.append_nil] at hrun
  exact hrun

end Leads

/-- A digit of base sixteen ends nothing. -/
theorem hex_inside (n x : ℕ) : ∀ d ∈ hex n x, d ≠ quote ∧ d ≠ backslash ∧ isBreak d = false := by
  intro d hd
  have hd := (hex_isHex n x).2 d hd
  refine ⟨?_, ?_, ?_⟩
  · rintro rfl
    exact absurd hd (by unfold IsHex; decide)
  · rintro rfl
    exact absurd hd (by unfold IsHex; decide)
  · unfold isBreak
    simp only [Bool.or_eq_false_iff, Bool.and_eq_false_iff, decide_eq_false_iff_not,
      beq_eq_false_iff_ne]
    rcases hd with hd | hd | hd <;> omega

theorem leads_dumpsChar (c : CodePoint) : Leads .inside (dumpsChar c) .inside := by
  have hnamed : ∀ e : CodePoint, isBreak e = false → Leads .inside [backslash, e] .inside :=
    fun e he => .of_oneLine rfl (List.forall_mem_cons.mpr ⟨by decide, List.forall_mem_cons.mpr
      ⟨he, fun _ h => nomatch h⟩⟩)
  unfold dumpsChar
  split_ifs with hq hb h8 hC hn hr ht hlow
  · exact hnamed _ (by decide)
  · exact hnamed _ (by decide)
  · exact hnamed (codePoint 'b') (by decide)
  · exact hnamed (codePoint 'f') (by decide)
  · exact hnamed (codePoint 'n') (by decide)
  · exact hnamed (codePoint 'r') (by decide)
  · exact hnamed (codePoint 't') (by decide)
  · have hrun : ∀ t : Text, (∀ d ∈ t, d ≠ quote ∧ d ≠ backslash ∧ isBreak d = false) →
        Leads .inside t .inside := by
      intro t ht
      refine .of_oneLine ?_ fun d hd => (ht d hd).2.2
      induction t with
      | nil => rfl
      | cons d t ih =>
        have hd := ht d List.mem_cons_self
        rw [Place.run_inside hd.1 hd.2.1]
        exact ih fun e he => ht e (List.mem_cons_of_mem d he)
    exact (hnamed (codePoint 'u') (by decide)).append (hrun _ (hex_inside 4 c.val))
  · refine ⟨Place.run_inside hq hb [], fun s b u h _ => ?_⟩
    cases s with
    | nil => rfl
    | cons d s =>
      have htail : [] = s ++ b :: u := (List.cons.inj h).2
      exact absurd htail.symm (List.append_ne_nil_of_right_ne_nil s (List.cons_ne_nil b u))

theorem leads_dumpsText (t : Text) : Leads .outside (dumpsText t) .outside := by
  have hquote : ∀ p q : Place, p.run [quote] = some q → Leads p [quote] q := fun p q h =>
    .of_oneLine h (List.forall_mem_cons.mpr ⟨by decide, fun _ h => nomatch h⟩)
  have hchars : Leads .inside (t.flatMap dumpsChar) .inside := by
    induction t with
    | nil => exact .nil _
    | cons c t ih => exact (leads_dumpsChar c).append ih
  exact ((hquote .outside .inside rfl).append hchars).append (hquote .inside .outside rfl)

theorem isNumber_chars {t : Text} (h : IsNumber t) : ∀ c ∈ t, Plain c ∧ isBreak c = false := by
  have hdigits : ∀ {ds : Text}, Digits ds → ∀ c ∈ ds, Plain c ∧ isBreak c = false := by
    intro ds hds c hc
    have hdigit := hds c hc
    refine ⟨plain_of_isDigit (isDigit_iff.mpr hdigit), ?_⟩
    unfold isBreak
    simp only [Bool.or_eq_false_iff, Bool.and_eq_false_iff, decide_eq_false_iff_not,
      beq_eq_false_iff_ne]
    omega
  have hnil : ∀ c ∈ ([] : Text), Plain c ∧ isBreak c = false := fun _ h => by cases h
  have hone : ∀ {d : CodePoint}, Plain d ∧ isBreak d = false →
      ∀ c ∈ [d], Plain c ∧ isBreak c = false := fun h =>
    List.forall_mem_cons.mpr ⟨h, fun _ h => by cases h⟩
  obtain ⟨minus, int, frac, exp, hm, hi, hf, he, rfl⟩ := h
  simp only [List.forall_mem_append]
  refine ⟨⟨⟨?_, hdigits hi.digits⟩, ?_⟩, ?_⟩
  · rcases hm with rfl | rfl
    · exact hnil
    · exact hone (by decide)
  · rcases hf with rfl | ⟨ds, -, hds, rfl⟩
    · exact hnil
    · exact List.forall_mem_cons.mpr ⟨by decide, hdigits hds⟩
  · rcases he with rfl | ⟨e, sign, ds, he, hsign, -, hds, rfl⟩
    · exact hnil
    · refine List.forall_mem_cons.mpr ⟨?_, List.forall_mem_append.mpr ⟨?_, hdigits hds⟩⟩
      · rcases he with rfl | rfl
        · decide
        · decide
      · rcases hsign with rfl | rfl | rfl
        · exact hnil
        · exact hone (by decide)
        · exact hone (by decide)

/-- Texts of letters that may stand outside. -/
theorem leads_word {t : Text} (h : t.all (fun c => decide (Plain c) && !isBreak c) = true) :
    Leads .outside t .outside := by
  refine .plains fun c hc => ?_
  have hboth := List.all_eq_true.mp h c hc
  rw [Bool.and_eq_true, Bool.not_eq_true'] at hboth
  exact ⟨of_decide_eq_true hboth.1, hboth.2⟩

theorem leads_comma (last : Bool) : Leads .outside (Style.raw.comma last) .outside := by
  cases last with
  | false => exact leads_word (by decide)
  | true => exact .nil _

mutual

/-- **A line that is written** begins and ends outside, and its line ends are inside of strings. -/
theorem leads_write : ∀ v : Value, Leads .outside (Style.raw.write v) .outside
  | .null => leads_word (by decide)
  | .bool b => by
    cases b with
    | false => exact leads_word (by decide)
    | true => exact leads_word (by decide)
  | .int i => .plains (isNumber_chars (intRepr_isNumber i))
  | .float x => by
    cases x with
    | finite neg m e => exact .plains (isNumber_chars (finiteRepr_isNumber neg m e))
    | inf neg =>
      cases neg with
      | false => exact leads_word (by decide)
      | true => exact leads_word (by decide)
    | nan => exact leads_word (by decide)
  | .str t => leads_dumpsText t
  | .list vs =>
    (leads_word (t := [codePoint '[']) (by decide)).append
      ((leads_writeList vs).append (leads_word (by decide)))
  | .dict kvs =>
    (leads_word (t := [codePoint '\x7b']) (by decide)).append
      ((leads_writeDict kvs).append (leads_word (by decide)))

theorem leads_writeList : ∀ vs : List Value, Leads .outside (Style.raw.writeList vs) .outside
  | [] => .nil _
  | v :: vs => ((leads_write v).append (leads_comma _)).append (leads_writeList vs)

theorem leads_writeDict : ∀ kvs : List (Text × Value),
    Leads .outside (Style.raw.writeDict kvs) .outside
  | [] => .nil _
  | (k, v) :: kvs =>
    have hcolon : Leads .outside (codePoint ':' :: Style.raw.gap) .outside :=
      leads_word (by decide)
    ((((leads_dumpsText k).append hcolon).append (leads_write v)).append
      (leads_comma _)).append (leads_writeDict kvs)

end

/-! ### A line that stays one -/

/-- A line end that `json.dumps` leaves as it is. -/
def isRawBreak (c : CodePoint) : Bool := c.val == 0x85 || c.val == 0x2028 || c.val == 0x2029

theorem oneLine_dumpsChar (c : CodePoint) : (dumpsChar c).OneLine ↔ isRawBreak c = false := by
  have hnamed : ∀ e : CodePoint, isBreak e = false → isRawBreak c = false →
      (Text.OneLine [backslash, e] ↔ isRawBreak c = false) := fun e he hc =>
    iff_of_true (List.forall_mem_cons.mpr ⟨by decide, List.forall_mem_cons.mpr
      ⟨he, fun _ h => nomatch h⟩⟩) hc
  have hval : ∀ n, c.val = n → n < 0x85 → isRawBreak c = false := by
    rintro n hc hn
    unfold isRawBreak
    simp only [Bool.or_eq_false_iff, beq_eq_false_iff_ne]
    omega
  unfold dumpsChar
  split_ifs with hq hb h8 hC hn hr ht hlow
  · exact hnamed _ (by decide) (by rw [hq]; decide)
  · exact hnamed _ (by decide) (by rw [hb]; decide)
  · exact hnamed (codePoint 'b') (by decide) (hval _ h8 (by decide))
  · exact hnamed (codePoint 'f') (by decide) (hval _ hC (by decide))
  · exact hnamed (codePoint 'n') (by decide) (by rw [hn]; decide)
  · exact hnamed (codePoint 'r') (by decide) (by rw [hr]; decide)
  · exact hnamed (codePoint 't') (by decide) (by rw [ht]; decide)
  · refine iff_of_true ?_ (hval _ rfl (by omega))
    exact Text.oneLine_append.mpr
      ⟨List.forall_mem_cons.mpr ⟨by decide, List.forall_mem_cons.mpr
        ⟨by decide, fun _ h => nomatch h⟩⟩, fun d hd => (hex_inside 4 c.val d hd).2.2⟩
  · rw [Text.oneLine_cons, and_iff_left Text.oneLine_nil]
    unfold isBreak isRawBreak
    simp only [Bool.or_eq_false_iff, Bool.and_eq_false_iff, decide_eq_false_iff_not,
      beq_eq_false_iff_ne]
    omega

/-- A text without such a line end. -/
def unbroken (t : Text) : Bool := t.all fun c => !isRawBreak c

theorem oneLine_dumpsText (t : Text) : (dumpsText t).OneLine ↔ unbroken t = true := by
  have hquote : Text.OneLine (Text.of "\"") := List.forall_mem_cons.mpr
    ⟨by decide, fun _ h => nomatch h⟩
  rw [dumpsText, Text.oneLine_append, Text.oneLine_append, and_iff_left hquote,
    and_iff_right hquote]
  induction t with
  | nil => exact iff_of_true Text.oneLine_nil rfl
  | cons c t ih =>
    rw [List.flatMap_cons, Text.oneLine_append, oneLine_dumpsChar, unbroken, List.all_cons,
      Bool.and_eq_true, Bool.not_eq_true']
    exact and_congr_right' ih

theorem oneLine_comma (last : Bool) : (Style.raw.comma last).OneLine := by
  cases last with
  | false => exact List.forall_mem_cons.mpr ⟨by decide, fun _ h => nomatch h⟩
  | true => exact Text.oneLine_nil

/-- Letters that end no line. -/
theorem oneLine_word {t : Text} (h : t.all (fun c => !isBreak c) = true) : t.OneLine := by
  intro c hc
  have hc := List.all_eq_true.mp h c hc
  rwa [Bool.not_eq_true'] at hc

mutual

/-- **A line stays one** exactly if no text in it holds such a line end. -/
theorem oneLine_write : ∀ v : Value,
    (Style.raw.write v).OneLine ↔ v.all unbroken (fun _ => true) = true
  | .null => iff_of_true (oneLine_word (by decide)) rfl
  | .bool b => by
    refine iff_of_true ?_ rfl
    cases b with
    | false => exact oneLine_word (by decide)
    | true => exact oneLine_word (by decide)
  | .int i => iff_of_true (fun c hc => (isNumber_chars (intRepr_isNumber i) c hc).2) rfl
  | .float x => by
    refine iff_of_true ?_ rfl
    cases x with
    | finite neg m e => exact fun c hc => (isNumber_chars (finiteRepr_isNumber neg m e) c hc).2
    | inf neg =>
      cases neg with
      | false => exact oneLine_word (by decide)
      | true => exact oneLine_word (by decide)
    | nan => exact oneLine_word (by decide)
  | .str t => oneLine_dumpsText t
  | .list vs => by
    rw [Style.write, Text.oneLine_cons, Text.oneLine_append, oneLine_writeList vs, Value.all,
      and_iff_left (oneLine_word (by decide)), and_iff_right (by decide)]
  | .dict kvs => by
    rw [Style.write, Text.oneLine_cons, Text.oneLine_append, oneLine_writeDict kvs, Value.all,
      and_iff_left (oneLine_word (by decide)), and_iff_right (by decide)]

theorem oneLine_writeList : ∀ vs : List Value,
    (Style.raw.writeList vs).OneLine ↔ Value.allList unbroken (fun _ => true) vs = true
  | [] => iff_of_true Text.oneLine_nil rfl
  | v :: vs => by
    rw [Style.writeList, Text.oneLine_append, Text.oneLine_append, oneLine_write v,
      oneLine_writeList vs, Value.allList, and_iff_left (oneLine_comma _), Bool.and_eq_true]

theorem oneLine_writeDict : ∀ kvs : List (Text × Value),
    (Style.raw.writeDict kvs).OneLine ↔ Value.allDict unbroken (fun _ => true) kvs = true
  | [] => iff_of_true Text.oneLine_nil rfl
  | (k, v) :: kvs => by
    have hcolon : Text.OneLine (codePoint ':' :: Style.raw.gap) := oneLine_word (by decide)
    rw [Style.writeDict, Text.oneLine_append, Text.oneLine_append, Text.oneLine_append,
      Text.oneLine_append, and_iff_left hcolon, and_iff_left (oneLine_comma _), oneLine_write v,
      oneLine_writeDict kvs, Value.allDict, Bool.and_eq_true, Bool.and_eq_true]
    exact and_congr_left' (and_congr_left' (oneLine_dumpsText k))

end

/-! ### The parts of a line -/

variable {toFloat : Text → Float} {limit : Option ℕ}

/-- **No part of a line that comes apart is JSON**, if the letter `h` is in it. -/
theorem torn {v w : Value} {n : ℕ} {l : Text} (h : ¬ (Style.raw.write v).OneLine)
    (hl : l ∈ (Style.raw.write v ++ [Text.LF]).splitlines) (hh : codePoint 'h' ∈ l) :
    loads toFloat limit n l ≠ .ok w := by
  intro hloads
  have hout := loads_run hloads
  have hone := Text.splitlines_oneLine hl
  have hwrite := leads_write v
  -- what is behind the part ends with the line feed
  have hlast : ∀ s u : Text, Style.raw.write v ++ [Text.LF] = s ++ (l ++ u) →
      ∃ u', u = u' ++ [Text.LF] ∧ Style.raw.write v = s ++ (l ++ u') := by
    intro s u heq
    rcases List.eq_nil_or_concat u with rfl | ⟨u', b, rfl⟩
    · obtain ⟨l', c, rfl⟩ := (List.eq_nil_or_concat l).resolve_left (List.ne_nil_of_mem hh)
      rw [List.append_nil, List.concat_eq_append, ← List.append_assoc] at heq
      obtain ⟨-, hc⟩ := List.append_inj' heq rfl
      rw [List.concat_eq_append, ← hc] at hone
      have hlf := hone Text.LF (List.mem_append_right l' List.mem_cons_self)
      exact absurd hlf (by decide)
    · rw [List.concat_eq_append, ← List.append_assoc, ← List.append_assoc] at heq
      obtain ⟨hline, hb⟩ := List.append_inj' heq rfl
      exact ⟨u', by rw [List.concat_eq_append, hb], by rw [hline, List.append_assoc]⟩
  obtain ⟨l₀, ls, hcons⟩ := List.exists_cons_of_ne_nil (List.ne_nil_of_mem hl)
  obtain ⟨⟨u₀, hfirst, hends⟩, hrest⟩ := Text.splitlines_cons hcons
  rw [hcons] at hl
  rcases List.mem_cons.mp hl with rfl | hl
  · -- the first part ends inside a string, unless it is the whole line
    obtain ⟨u, rfl, hline⟩ := hlast [] u₀ hfirst
    rw [List.nil_append] at hline
    cases u with
    | nil =>
      rw [List.append_nil] at hline
      exact h (hline ▸ hone)
    | cons b u =>
      have hin := hwrite.ends l b u hline (hends b rfl)
      rw [hout] at hin
      cases hin
  · -- a later one begins inside a string
    obtain ⟨s, b, u, heq, hb, -⟩ := hrest l hl
    obtain ⟨u', rfl, hline⟩ := hlast (s ++ [b]) u (by rw [heq, List.append_assoc]; rfl)
    rw [List.append_assoc, List.singleton_append] at hline
    have hbq : b ≠ quote ∧ b ≠ backslash := by
      constructor
      · rintro rfl
        exact absurd hb (by decide)
      · rintro rfl
        exact absurd hb (by decide)
    have hrun := hwrite.run
    rw [hline, Place.run_append, hwrite.ends s b _ hline hb, Option.bind_some,
      Place.run_inside hbq.1 hbq.2, Place.run_append] at hrun
    obtain ⟨p, hp, -⟩ := Option.bind_eq_some_iff.mp hrun
    exact no_h_of_apart (by rw [hout]; rfl) (by rw [hp]; rfl) hh

end Python.Loads
