import Caravan.Python.Find
import Caravan.Python.Text

/-!
# The lines of a text

`str.splitlines`, on a text that was put together of lines: a text without a line
break is found in the first line that has it (`find_unlines`), and lines without breaks come apart
as they were put together (`splitlines_unlines`).
-/

namespace Python

/-! ### Finding -/

theorem Text.contains_iff {t needle : Text} : t.contains needle = true ↔ needle <:+: t := by
  rw [Text.contains, List.any_eq_true, List.infix_iff_prefix_suffix]
  simp only [List.mem_tails, List.isPrefixOf_iff_prefix]
  exact ⟨fun ⟨s, hs, hp⟩ => ⟨s, hp, hs⟩, fun ⟨s, hp, hs⟩ => ⟨s, hs, hp⟩⟩

theorem Text.not_contains_iff {t needle : Text} : t.contains needle = false ↔ ¬ needle <:+: t := by
  rw [← Text.contains_iff, Bool.not_eq_true]

/-! ### Lines -/

def Text.LF : CodePoint := codePoint '\n'

def Text.CR : CodePoint := codePoint '\r'

/-- Where `str.splitlines` breaks a text. -/
def isBreak (c : CodePoint) : Bool :=
  let n := c.val
  (0x0A ≤ n && n ≤ 0x0D) || (0x1C ≤ n && n ≤ 0x1E) || n == 0x85 || n == 0x2028 || n == 0x2029

/-- `t.splitlines()` -/
def Text.splitlines : Text → List Text
  | [] => []
  | [c] => if isBreak c then [[]] else [[c]]
  | c :: d :: t =>
    if c = Text.CR ∧ d = Text.LF then [] :: Text.splitlines t
    else if isBreak c then [] :: Text.splitlines (d :: t)
    else
      match Text.splitlines (d :: t) with
      | [] => [[c]]
      | l :: ls => (c :: l) :: ls

/-- A text of one line. -/
def Text.OneLine (t : Text) : Prop := ∀ c ∈ t, isBreak c = false

instance (t : Text) : Decidable t.OneLine := List.decidableBAll _ t

/-- Each line with a line feed behind it. -/
def unlines (lines : List Text) : Text := lines.flatMap (· ++ [Text.LF])

theorem unlines_cons (l : Text) (lines : List Text) (t : Text) :
    unlines (l :: lines) ++ t = l ++ Text.LF :: (unlines lines ++ t) := by
  rw [unlines, List.flatMap_cons, List.append_assoc, List.append_assoc]
  rfl

theorem Text.OneLine.not_mem {t : Text} (h : t.OneLine) : Text.LF ∉ t :=
  fun hm => absurd (h Text.LF hm) (by decide)

theorem Text.oneLine_nil : Text.OneLine [] := fun _ h => absurd h List.not_mem_nil

theorem Text.oneLine_append {s t : Text} : (s ++ t).OneLine ↔ s.OneLine ∧ t.OneLine :=
  List.forall_mem_append

theorem Text.oneLine_cons {c : CodePoint} {t : Text} :
    Text.OneLine (c :: t) ↔ isBreak c = false ∧ t.OneLine := List.forall_mem_cons

theorem Text.OneLine.of_subset {s t : Text} (h : t.OneLine) (hs : s ⊆ t) : s.OneLine :=
  fun c hc => h c (hs hc)

/-- The lines of a text have no breaks. -/
theorem Text.splitlines_oneLine {t l : Text} (h : l ∈ t.splitlines) : l.OneLine := by
  fun_induction Text.splitlines t generalizing l with
  | case1 => cases h
  | case2 c hc => exact List.mem_singleton.mp h ▸ Text.oneLine_nil
  | case3 c hc =>
    rw [List.mem_singleton.mp h]
    exact Text.oneLine_cons.mpr ⟨Bool.eq_false_iff.mpr hc, Text.oneLine_nil⟩
  | case4 c d t _ ih =>
    rcases List.mem_cons.mp h with rfl | h
    · exact Text.oneLine_nil
    · exact ih h
  | case5 c d t _ _ ih =>
    rcases List.mem_cons.mp h with rfl | h
    · exact Text.oneLine_nil
    · exact ih h
  | case6 c d t _ hc hnil ih =>
    rw [List.mem_singleton.mp h]
    exact Text.oneLine_cons.mpr ⟨Bool.eq_false_iff.mpr hc, Text.oneLine_nil⟩
  | case7 c d t _ hc l' ls hcons ih =>
    rw [hcons] at ih
    rcases List.mem_cons.mp h with rfl | h
    · exact Text.oneLine_cons.mpr ⟨Bool.eq_false_iff.mpr hc, ih List.mem_cons_self⟩
    · exact ih (List.mem_cons_of_mem _ h)

/-- A line that ends with a line feed comes off in front. -/
theorem Text.splitlines_line {l : Text} (h : l.OneLine) (t : Text) :
    (l ++ Text.LF :: t).splitlines = l :: t.splitlines := by
  induction l with
  | nil =>
    cases t with
    | nil => rfl
    | cons d t =>
      rw [List.nil_append, Text.splitlines, if_neg (fun he => absurd he.1 (by decide)),
        if_pos (by decide)]
  | cons c l ih =>
    obtain ⟨hc, hl⟩ := Text.oneLine_cons.mp h
    have hcr : c ≠ Text.CR := by
      rintro rfl
      exact absurd hc (by decide)
    obtain ⟨d, s, hs⟩ : ∃ d s, l ++ Text.LF :: t = d :: s := by
      cases l with
      | nil => exact ⟨_, _, rfl⟩
      | cons d l => exact ⟨_, _, rfl⟩
    have hrest := ih hl
    rw [hs] at hrest
    rw [List.cons_append, hs, Text.splitlines, if_neg (fun he => hcr he.1),
      if_neg (Bool.eq_false_iff.mp hc), hrest]

theorem Text.splitlines_ne_nil {t : Text} (h : t ≠ []) : t.splitlines ≠ [] := by
  unfold Text.splitlines
  split
  · exact absurd rfl h
  · split <;> exact List.cons_ne_nil _ _
  · split
    · exact List.cons_ne_nil _ _
    split
    · exact List.cons_ne_nil _ _
    split <;> exact List.cons_ne_nil _ _

/-- A line feed ends a line, whatever stands before it. -/
theorem Text.splitlines_ended : ∀ l t : Text,
    (l ++ Text.LF :: t).splitlines = (l ++ [Text.LF]).splitlines ++ t.splitlines
  | [], t => by
    have hhead := Text.splitlines_line Text.oneLine_nil t
    rw [List.nil_append] at hhead
    rw [List.nil_append, hhead]
    rfl
  | [c], t => by
    have hhead := Text.splitlines_line Text.oneLine_nil t
    rw [List.nil_append] at hhead
    rw [List.singleton_append, List.singleton_append, Text.splitlines, Text.splitlines]
    split_ifs with hcr hc
    · rfl
    · rw [hhead]
      rfl
    · rw [hhead]
      rfl
  | c :: d :: l, t => by
    have hrest := Text.splitlines_ended (d :: l) t
    rw [List.cons_append, List.cons_append] at hrest
    rw [List.cons_append, List.cons_append, List.cons_append, List.cons_append, Text.splitlines,
      Text.splitlines]
    split_ifs with hcr hc
    · rw [Text.splitlines_ended l t, List.cons_append]
    · rw [hrest, List.cons_append]
    · rw [hrest]
      have hne := Text.splitlines_ne_nil (List.cons_ne_nil d (l ++ [Text.LF]))
      obtain ⟨l', ls, hl'⟩ := List.exists_cons_of_ne_nil hne
      rw [hl']
      rfl

/-- A text that begins with a line end, if it has not ended. -/
def Text.Ends (t : Text) : Prop := ∀ b ∈ t.head?, isBreak b = true

theorem Text.ends_cons {b : CodePoint} (h : isBreak b = true) (t : Text) : Text.Ends (b :: t) :=
  fun _ hc => Option.some.inj hc ▸ h

/-- Where the lines stand: the first at the head of the text, the others behind a line end. -/
theorem Text.splitlines_cons {t l₀ : Text} {ls : List Text} (h : t.splitlines = l₀ :: ls) :
    (∃ u, t = l₀ ++ u ∧ u.Ends) ∧
      ∀ l ∈ ls, ∃ s b u, t = s ++ b :: (l ++ u) ∧ isBreak b = true ∧ Text.Ends u := by
  have hnil : Text.Ends [] := fun b hb => absurd hb (Option.not_mem_none b)
  -- the lines behind a line end
  have hbehind : ∀ {s t : Text} {b : CodePoint}, isBreak b = true →
      (∀ l₁ ls₁, t.splitlines = l₁ :: ls₁ → (∃ u, t = l₁ ++ u ∧ u.Ends) ∧
        ∀ l ∈ ls₁, ∃ s b u, t = s ++ b :: (l ++ u) ∧ isBreak b = true ∧ Text.Ends u) →
      ∀ l ∈ t.splitlines, ∃ s' b' u, s ++ b :: t = s' ++ b' :: (l ++ u) ∧ isBreak b' = true ∧
        Text.Ends u := by
    intro s t b hb ih l hl
    obtain ⟨l₁, ls₁, hcons⟩ := List.exists_cons_of_ne_nil (List.ne_nil_of_mem hl)
    obtain ⟨⟨u, ht, hu⟩, hrest⟩ := ih l₁ ls₁ hcons
    rw [hcons] at hl
    rcases List.mem_cons.mp hl with rfl | hl
    · exact ⟨s, b, u, by rw [ht], hb, hu⟩
    · obtain ⟨s', b', u', ht', hb', hu'⟩ := hrest l hl
      exact ⟨s ++ b :: s', b', u', by rw [ht', List.append_assoc, List.cons_append], hb', hu'⟩
  fun_induction Text.splitlines t generalizing l₀ ls with
  | case1 => cases h
  | case2 c hc =>
    obtain ⟨rfl, rfl⟩ := List.cons.inj h
    exact ⟨⟨[c], rfl, Text.ends_cons hc []⟩, fun _ h => nomatch h⟩
  | case3 c hc =>
    obtain ⟨rfl, rfl⟩ := List.cons.inj h
    exact ⟨⟨[], rfl, hnil⟩, fun _ h => nomatch h⟩
  | case4 c d t hcr ih =>
    obtain ⟨rfl, rfl⟩ := List.cons.inj h
    obtain ⟨rfl, rfl⟩ := hcr
    refine ⟨⟨_, rfl, Text.ends_cons (by decide) _⟩, fun l hl => ?_⟩
    exact hbehind (s := [Text.CR]) (by decide) (fun _ _ => ih) l hl
  | case5 c d t hcr hc ih =>
    obtain ⟨rfl, rfl⟩ := List.cons.inj h
    refine ⟨⟨_, rfl, Text.ends_cons hc _⟩, fun l hl => ?_⟩
    exact hbehind (s := []) hc (fun _ _ => ih) l hl
  | case6 c d t _ _ hempty _ =>
    exact absurd hempty (Text.splitlines_ne_nil (List.cons_ne_nil d t))
  | case7 c d t _ hc l' ls' hcons ih =>
    obtain ⟨rfl, rfl⟩ := List.cons.inj h
    obtain ⟨⟨u, ht, hu⟩, hrest⟩ := ih hcons
    refine ⟨⟨u, by rw [ht, List.cons_append], hu⟩, fun l hl => ?_⟩
    obtain ⟨s, b, u, ht, hb, hu⟩ := hrest l hl
    exact ⟨c :: s, b, u, by rw [ht, List.cons_append], hb, hu⟩

theorem Text.splitlines_unlines {lines : List Text} (h : ∀ l ∈ lines, l.OneLine) :
    (unlines lines).splitlines = lines := by
  induction lines with
  | nil => rfl
  | cons l lines ih =>
    obtain ⟨hl, hlines⟩ := List.forall_mem_cons.mp h
    have hcons := unlines_cons l lines []
    rw [List.append_nil, List.append_nil] at hcons
    rw [hcons, Text.splitlines_line hl, ih hlines]

/-! ### Up to a line -/

/-- A list up to the first element with the property, with it. -/
def through {α : Type} (p : α → Bool) : List α → List α
  | [] => []
  | a :: l => if p a then [a] else a :: through p l

section Through

variable {α β : Type} {p : α → Bool}

theorem through_subset {l : List α} : through p l ⊆ l := by
  induction l with
  | nil => exact List.Subset.refl _
  | cons a l ih =>
    unfold through
    split
    · exact List.cons_subset_cons a (List.nil_subset l)
    · exact List.cons_subset_cons a ih

theorem through_append {s : List α} (h : ∀ a ∈ s, p a = false) (t : List α) :
    through p (s ++ t) = s ++ through p t := by
  induction s with
  | nil => rfl
  | cons a s ih =>
    obtain ⟨ha, hs⟩ := List.forall_mem_cons.mp h
    rw [List.cons_append, through, ha, if_neg Bool.false_ne_true, ih hs]
    rfl

/-- What does nothing, and does not stop a loop, may be left out of it. -/
theorem foldl_through_filter {f : β → α → β} {q : α → Bool}
    (h : ∀ a, q a = false → p a = false ∧ ∀ b, f b a = b) (b : β) (l : List α) :
    (through p (l.filter q)).foldl f b = (through p l).foldl f b := by
  induction l generalizing b with
  | nil => rfl
  | cons a l ih =>
    cases hq : q a with
    | false =>
      obtain ⟨hp, hf⟩ := h a hq
      rw [List.filter_cons_of_neg (by rw [hq]; decide), ih, through, hp,
        if_neg Bool.false_ne_true, List.foldl_cons, hf]
    | true =>
      rw [List.filter_cons_of_pos hq, through, through]
      split
      · rfl
      · rw [List.foldl_cons, List.foldl_cons, ih]

theorem head_mem_through {a : α} {l : List α} : a ∈ through p (a :: l) := by
  unfold through
  split
  · exact List.mem_singleton_self a
  · exact List.mem_cons_self

/-- What comes to all that is cut off comes to everything behind an element that cuts. -/
theorem through_lost {Q : α → Prop} {l : List α} (hl : l.Nodup) :
    (∀ a ∈ l, a ∉ through p l → Q a) ↔ l.Pairwise fun a b => p a = true → Q b := by
  induction l with
  | nil => exact ⟨fun _ => .nil, fun _ => nofun⟩
  | cons a l ih =>
    obtain ⟨ha, hl⟩ := List.nodup_cons.mp hl
    rw [List.pairwise_cons, ← ih hl, through]
    constructor
    · intro h
      refine ⟨fun b hb hp => h b (List.mem_cons_of_mem a hb) ?_, fun b hb hlost => h b
        (List.mem_cons_of_mem a hb) ?_⟩
      · rw [if_pos hp, List.mem_singleton]
        rintro rfl
        exact ha hb
      · split
        · rw [List.mem_singleton]
          rintro rfl
          exact ha hb
        · rw [List.mem_cons, not_or]
          exact ⟨fun he => ha (he ▸ hb), hlost⟩
    · rintro ⟨hcut, hrest⟩ b hb hlost
      rcases List.mem_cons.mp hb with rfl | hb
      · exact absurd head_mem_through (by rwa [through])
      by_cases hp : p a = true
      · exact hcut b hb hp
      · rw [if_neg hp, List.mem_cons, not_or] at hlost
        exact hrest b hb hlost.2

end Through

/-- Where the line ends in which a place of a text is. -/
def lineEnd (t : Text) (i : ℕ) : ℕ :=
  match find (t.drop i) [Text.LF] with
  | none => t.length
  | some k => i + k + 1

theorem lineEnd_append (s t : Text) (i : ℕ) :
    lineEnd (s ++ t) (s.length + i) = s.length + lineEnd t i := by
  unfold lineEnd
  rw [List.drop_length_add_append, List.length_append]
  cases find (t.drop i) [Text.LF] with
  | none => rfl
  | some k =>
    dsimp only
    omega

/-- The first line feed stands behind the first line. -/
theorem Text.find_lf {l : Text} (h : Text.LF ∉ l) (t : Text) :
    find (l ++ Text.LF :: t) [Text.LF] = some l.length := by
  have hlater : ∀ r, r ≠ [] → r <:+ l → ¬ [Text.LF] <+: r ++ Text.LF :: t := by
    intro r hr hs hp
    cases r with
    | nil => exact hr rfl
    | cons c r =>
      obtain ⟨rfl, -⟩ := List.cons_prefix_cons.mp hp
      exact h (hs.subset List.mem_cons_self)
  have hhere : find (Text.LF :: t) [Text.LF] = some 0 := find_of_prefix ⟨t, rfl⟩
  rw [find_append hlater, hhere, Option.map_some, Nat.zero_add]

/-- A text of one line that stands in the first line ends there. -/
theorem Text.find_line {needle l : Text} (hne : needle ≠ [])
    (hin : needle <:+: l) (t : Text) : ∃ i ≤ l.length, find (l ++ t) needle = some i := by
  induction l with
  | nil => exact absurd (List.infix_nil.mp hin) hne
  | cons c l ih =>
    by_cases hp : needle <+: c :: (l ++ t)
    · exact ⟨0, Nat.zero_le _, find_of_prefix hp⟩
    have hrest : needle <:+: l := by
      rcases List.infix_cons_iff.mp hin with h | h
      · exact absurd (h.trans (List.prefix_append (c :: l) t)) hp
      · exact h
    obtain ⟨i, hi, hfind⟩ := ih hrest
    refine ⟨i + 1, Nat.succ_le_succ hi, ?_⟩
    rw [List.cons_append, find, if_neg fun h => hp (List.isPrefixOf_iff_prefix.mp h), hfind]
    rfl

/-- A text without line feeds does not stand over the end of a line. -/
theorem Text.not_prefix_line {needle l : Text} (hneedle : Text.LF ∉ needle) (h : ¬ needle <:+: l)
    {r : Text} (hr : r ≠ []) (hs : r <:+ l ++ [Text.LF]) (t : Text) : ¬ needle <+: r ++ t := by
  intro hp
  rcases List.suffix_concat_iff.mp hs with rfl | ⟨r', rfl, hsuffix⟩
  · exact hr rfl
  · rw [List.append_assoc] at hp
    exact h (((prefix_append_cons hneedle).mp hp).isInfix.trans hsuffix.isInfix)

/-- **The first line that has a text** is where the text is found, and what goes up to its end are
the lines up to that one. -/
theorem Text.find_unlines {needle : Text} (hneedle : Text.LF ∉ needle) (hne : needle ≠ [])
    {lines : List Text} (hlines : ∀ l ∈ lines, Text.LF ∉ l) (hin : ∃ l ∈ lines, needle <:+: l)
    (t : Text) : ∃ i, find (unlines lines ++ t) needle = some i ∧
      lineEnd (unlines lines ++ t) i = (unlines (through (Text.contains · needle) lines)).length ∧
      unlines (through (Text.contains · needle) lines) <+: unlines lines ++ t := by
  induction lines with
  | nil =>
    obtain ⟨l, hl, -⟩ := hin
    cases hl
  | cons l lines ih =>
    obtain ⟨hl, hlines⟩ := List.forall_mem_cons.mp hlines
    rw [unlines_cons]
    by_cases hfound : needle <:+: l
    · -- the first line has it, and the first line feed ends it
      obtain ⟨i, hi, hfind⟩ := Text.find_line hne hfound (Text.LF :: (unlines lines ++ t))
      have hthrough : through (Text.contains · needle) (l :: lines) = [l] :=
        if_pos (Text.contains_iff.mpr hfound)
      have hone : unlines [l] = l ++ [Text.LF] := by
        rw [unlines, List.flatMap_cons, List.flatMap_nil, List.append_nil]
      rw [hthrough, hone]
      refine ⟨i, hfind, ?_, ⟨unlines lines ++ t, by rw [List.append_assoc]; rfl⟩⟩
      unfold lineEnd
      rw [List.drop_append_of_le_length hi, Text.find_lf fun hm => hl (List.mem_of_mem_drop hm),
        List.length_drop]
      show i + (l.length - i) + 1 = _
      rw [Nat.add_sub_cancel' hi, List.length_append]
      rfl
    · -- the first line is passed over
      have hin : ∃ l ∈ lines, needle <:+: l := by
        obtain ⟨l', hl', hin⟩ := hin
        rcases List.mem_cons.mp hl' with rfl | hl'
        · exact absurd hin hfound
        · exact ⟨l', hl', hin⟩
      obtain ⟨i, hfind, hend, hprefix⟩ := ih hlines hin
      have hthrough : unlines (through (Text.contains · needle) (l :: lines)) =
          (l ++ [Text.LF]) ++ unlines (through (Text.contains · needle) lines) := by
        rw [through, if_neg fun h => hfound (Text.contains_iff.mp h), unlines, List.flatMap_cons]
        rfl
      have hsplit :
          l ++ Text.LF :: (unlines lines ++ t) = (l ++ [Text.LF]) ++ (unlines lines ++ t) := by
        rw [List.append_assoc]
        rfl
      rw [hthrough, hsplit]
      refine ⟨(l ++ [Text.LF]).length + i, ?_, ?_, (List.prefix_append_right_inj _).mpr hprefix⟩
      · rw [find_append fun r hr hs => Text.not_prefix_line hneedle hfound hr hs _, hfind,
          Option.map_some, Nat.add_comm]
      · rw [lineEnd_append, hend, @List.length_append _ (l ++ [Text.LF])]

end Python
