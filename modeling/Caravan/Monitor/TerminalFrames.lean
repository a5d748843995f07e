import Caravan.Monitor.Terminal

/-!
# The two terminal frames

The screens as they are sent: the text's lines without their trailing blanks, and the lines of the
HTML with a span around each run of a colour. What the HTML shows, its tags taken out and its
entities decoded, is the text, up to trailing blanks, and its tags are the colours' own.

* `htmlFrame_markup` — the HTML is the markup of tokens, one for each character of the screen
  and two around each coloured run;
* `frames_iff` — both frames are made, and agree, exactly when each parameter of a control sequence
  that is all digits is a number to `int`;
* `superscript_raises` — "²" is a digit and no number.
-/

namespace Terminal

open Python Markup

/-! ### `terminal_frame_to_text` -/

/-- `"\n".join(lines).rstrip()` -/
def joined (lines : List Text) : Text := Text.rstrip ([LF].intercalate lines)

def textFrame (s : TextState) : Text := joined (s.screen.map Text.rstrip)

def terminal_frame_to_text (I : Interp) (isdigit : CodePoint → Bool) (text : Text)
    (rows cols : ℕ) : Except Failure Text :=
  (textScreen I isdigit rows cols text).map textFrame

/-! ### `terminal_frame_to_html` -/

/-- `value.replace(c, new)` of one character. -/
def replaceBy (c : CodePoint) (new value : Text) : Text :=
  value.flatMap fun x => if x = c then new else [x]

def esc (value : Text) : Text :=
  replaceBy (codePoint '\'') "&#39;" (replaceBy (codePoint '"') "&quot;"
    (replaceBy (codePoint '>') "&gt;" (replaceBy (codePoint '<') "&lt;"
      (replaceBy (codePoint '&') "&amp;" value))))

/-- A cell that does not show: the loop takes it off the end of a line. -/
def Cell.unseen (c : Cell) : Bool := c.ch = blank && c.fg.isEmpty && !c.bold

/-- What `flush` appends. -/
def flush (cur : Option (Text × Bool)) (buf : Text) : Text :=
  if buf = [] then []
  else
    match cur with
    | some (c :: fg, _) =>
      Text.of "<span style=\"color:" ++ (c :: fg) ++ Text.of "\">" ++ esc buf ++ Text.of "</span>"
    | _ => esc buf

/-- The loop over the cells of a line: the chunks that it and the last `flush` append. -/
def chunks : Option (Text × Bool) → Text → List Cell → Text
  | cur, buf, [] => flush cur buf
  | cur, buf, cell :: cells =>
    if cur ≠ some (cell.fg, cell.bold) then
      flush cur buf ++ chunks (some (cell.fg, cell.bold)) [cell.ch] cells
    else chunks cur (buf ++ [cell.ch]) cells

def htmlLine (line : List Cell) : Text := chunks none [] (line.rdropWhile Cell.unseen)

def htmlFrame (s : HtmlState) : Text := joined (s.screen.map htmlLine)

def terminal_frame_to_html (I : Interp) (isdigit : CodePoint → Bool) (text : Text)
    (rows cols : ℕ) : Except Failure Text :=
  (htmlScreen I isdigit rows cols text).map htmlFrame

/-! ### The frames compared -/

/-- The `n`th line of a text; a line past the end is empty. -/
def lineAt : ℕ → Text → Text
  | _, [] => []
  | 0, c :: t => if c = LF then [] else c :: lineAt 0 t
  | n + 1, c :: t => if c = LF then lineAt n t else lineAt (n + 1) t

/-- Line by line, up to trailing blanks, the HTML shows the text. -/
def Agree (html out : Text) : Prop :=
  ∀ n, (lineAt n (shown html)).rstrip = (lineAt n out).rstrip

/-- The tag that opens a colour's span. -/
def IsColourTag (t : Text) : Prop :=
  ∃ r g b, t = Text.of "span style=\"color:" ++ rgb r g b ++ Text.of "\""

/-- Every tag is one of the colour spans, and they are nested. -/
def OwnSpans (html : Text) : Prop := Nested IsColourTag "/span" 0 (tags html)

/-! ### Lines -/

theorem rstrip_eq_nil {t : Text} : t.rstrip = [] ↔ ∀ c ∈ t, isSpace c = true :=
  List.rdropWhile_eq_nil_iff

theorem rstrip_append_blanks {t ws : Text} (h : ∀ c ∈ ws, isSpace c = true) :
    Text.rstrip (t ++ ws) = Text.rstrip t := by
  induction ws using List.reverseRecOn with
  | nil => rw [List.append_nil]
  | append_singleton ws c ih =>
    rw [← List.append_assoc]
    have hc : isSpace c = true := h c (List.mem_append_right _ List.mem_cons_self)
    exact (List.rdropWhile_concat_pos _ _ _ hc).trans
      (ih fun x hx => h x (List.mem_append_left _ hx))

theorem rstrip_cut (t : Text) : ∃ ws : Text, t.rstrip ++ ws = t ∧ ∀ c ∈ ws, isSpace c = true :=
  ⟨t.rtakeWhile isSpace, List.rdropWhile_append_rtakeWhile, fun _ h => List.mem_rtakeWhile_imp h⟩

/-- Two texts that are one up to trailing blanks are so behind any character. -/
theorem rstrip_cons_congr {t u : Text} (h : t.rstrip = u.rstrip) (c : CodePoint) :
    Text.rstrip (c :: t) = Text.rstrip (c :: u) := by
  have hcons : ∀ t : Text, Text.rstrip (c :: t) = Text.rstrip (c :: t.rstrip) := by
    intro t
    obtain ⟨ws, ht, hws⟩ := rstrip_cut t
    conv_lhs => rw [← ht, ← List.cons_append, rstrip_append_blanks hws]
  rw [hcons t, h, ← hcons u]

theorem mem_lineAt {n : ℕ} {t : Text} {c : CodePoint} (h : c ∈ lineAt n t) : c ∈ t := by
  induction t generalizing n with
  | nil => cases n <;> exact h
  | cons a t ih =>
    cases n with
    | zero =>
      rw [lineAt] at h
      split at h
      · exact absurd h List.not_mem_nil
      · rcases List.mem_cons.mp h with rfl | h
        · exact List.mem_cons_self
        · exact List.mem_cons_of_mem _ (ih h)
    | succ n =>
      rw [lineAt] at h
      split at h <;> exact List.mem_cons_of_mem _ (ih h)

/-- Blanks behind a text change no line but for trailing blanks. -/
theorem lineAt_append_blanks {ws : Text} (h : ∀ c ∈ ws, isSpace c = true) (n : ℕ) (t : Text) :
    (lineAt n (t ++ ws)).rstrip = (lineAt n t).rstrip := by
  induction t generalizing n with
  | nil =>
    have hnil : (lineAt n ws).rstrip = [] := rstrip_eq_nil.mpr fun c hc => h c (mem_lineAt hc)
    rw [List.nil_append, hnil]
    cases n <;> rfl
  | cons a t ih =>
    rw [List.cons_append]
    cases n with
    | zero =>
      rw [lineAt, lineAt]
      split
      · rfl
      · exact rstrip_cons_congr (ih 0) a
    | succ n =>
      rw [lineAt, lineAt]
      split
      · exact ih n
      · exact ih (n + 1)

/-- The lines of a text that was put together of lines. -/
theorem lineAt_line {l : Text} (h : LF ∉ l) (n : ℕ) (t : Text) :
    lineAt 0 l = l ∧ lineAt (n + 1) l = [] ∧ lineAt 0 (l ++ LF :: t) = l ∧
      lineAt (n + 1) (l ++ LF :: t) = lineAt n t := by
  induction l with
  | nil => exact ⟨rfl, rfl, by rw [List.nil_append, lineAt, if_pos rfl],
      by rw [List.nil_append, lineAt, if_pos rfl]⟩
  | cons c l ih =>
    have hc : c ≠ LF := fun he => h (he ▸ List.mem_cons_self)
    obtain ⟨h1, h2, h3, h4⟩ := ih fun hmem => h (List.mem_cons_of_mem _ hmem)
    refine ⟨?_, ?_, ?_, ?_⟩
    · rw [lineAt, if_neg hc, h1]
    · rw [lineAt, if_neg hc, h2]
    · rw [List.cons_append, lineAt, if_neg hc, h3]
    · rw [List.cons_append, lineAt, if_neg hc, h4]

theorem lineAt_intercalate {lines : List Text} (h : ∀ l ∈ lines, LF ∉ l) (n : ℕ) :
    lineAt n ([LF].intercalate lines) = lines.getD n [] := by
  induction lines generalizing n with
  | nil => cases n <;> rfl
  | cons l lines ih =>
    obtain ⟨hl, hrest⟩ := List.forall_mem_cons.mp h
    cases lines with
    | nil =>
      rw [List.intercalate_singleton]
      cases n with
      | zero => exact (lineAt_line hl 0 []).1
      | succ n => exact (lineAt_line hl n []).2.1
    | cons l' lines =>
      rw [List.intercalate_cons_cons, List.append_assoc, List.singleton_append]
      cases n with
      | zero => exact (lineAt_line hl 0 _).2.2.1
      | succ n => exact (lineAt_line hl n _).2.2.2.trans (ih hrest n)

/-- The lines of what was joined, up to trailing blanks. -/
theorem lineAt_joined {lines : List Text} (h : ∀ l ∈ lines, LF ∉ l) (n : ℕ) :
    (lineAt n (joined lines)).rstrip = (lines.getD n []).rstrip := by
  obtain ⟨ws, hcut, hws⟩ := rstrip_cut ([LF].intercalate lines)
  rw [← lineAt_intercalate h n, ← hcut, lineAt_append_blanks hws]
  rfl

theorem flatMap_intercalate {α β : Type} (f : α → List β) (x : α) (ls : List (List α)) :
    ([x].intercalate ls).flatMap f = (f x).intercalate (ls.map fun l => l.flatMap f) := by
  induction ls with
  | nil => rfl
  | cons l ls ih =>
    cases ls with
    | nil => simp
    | cons l' ls =>
      rw [List.intercalate_cons_cons, List.flatMap_append, List.flatMap_append, ih, List.map_cons,
        List.map_cons, List.map_cons, List.intercalate_cons_cons, List.flatMap_singleton]

/-! ### The tokens of the HTML -/

theorem replaceBy_append (c : CodePoint) (new s t : Text) :
    replaceBy c new (s ++ t) = replaceBy c new s ++ replaceBy c new t := List.flatMap_append

theorem esc_append (s t : Text) : esc (s ++ t) = esc s ++ esc t := by
  unfold esc
  simp only [replaceBy_append]

/-- What is escaped is the markup of tokens, one for each character. -/
theorem esc_markup (value : Text) : esc value = markup (value.map Token.ofChar) := by
  have hone : ∀ c : CodePoint, esc [c] = (Token.ofChar c).write := by
    intro c
    rcases ofChar_cases c with ⟨e, he, hc, -⟩ | ⟨hnone, h⟩
    · have hall : ∀ e ∈ entities, esc [e.2] = (Token.ofChar e.2).write := by decide
      exact hc ▸ hall e he
    · have hskip : ∀ {x : CodePoint} (new : Text), c ≠ x → replaceBy x new [c] = [c] := by
        intro x new hx
        unfold replaceBy
        rw [List.flatMap_singleton, if_neg hx]
      have hne : ∀ x ∈ entities.map Prod.snd, c ≠ x := by
        intro x hx
        obtain ⟨e, he, rfl⟩ := List.mem_map.mp hx
        exact (hnone e he).symm
      unfold esc
      rw [h, hskip _ (hne (codePoint '&') (by decide)), hskip _ (hne (codePoint '<') (by decide)),
        hskip _ (hne (codePoint '>') (by decide)), hskip _ (hne (codePoint '"') (by decide)),
        hskip _ (hne (codePoint '\'') (by decide))]
      rfl
  induction value with
  | nil => rfl
  | cons c value ih =>
    rw [← List.singleton_append, esc_append, hone, ih]
    rfl

/-- The tag that opens the span of a colour. -/
def openTag (fg : Text) : Text := Text.of "span style=\"color:" ++ fg ++ Text.of "\""

def closeTag : Text := "/span"

def flushTokens (cur : Option (Text × Bool)) (buf : Text) : List Token :=
  if buf = [] then []
  else
    match cur with
    | some (c :: fg, _) =>
      .tag (openTag (c :: fg)) :: (buf.map Token.ofChar ++ [.tag closeTag])
    | _ => buf.map Token.ofChar

def chunkTokens : Option (Text × Bool) → Text → List Cell → List Token
  | cur, buf, [] => flushTokens cur buf
  | cur, buf, cell :: cells =>
    if cur ≠ some (cell.fg, cell.bold) then
      flushTokens cur buf ++ chunkTokens (some (cell.fg, cell.bold)) [cell.ch] cells
    else chunkTokens cur (buf ++ [cell.ch]) cells

theorem markup_append (l l' : List Token) : markup (l ++ l') = markup l ++ markup l' :=
  List.flatMap_append

theorem flush_markup (cur : Option (Text × Bool)) (buf : Text) :
    flush cur buf = markup (flushTokens cur buf) := by
  unfold flush flushTokens
  split
  · rfl
  · split
    · rw [esc_markup, show ∀ (x : Token) l, markup (x :: l) = x.write ++ markup l from
        fun _ _ => rfl, markup_append]
      simp only [Token.write, openTag, closeTag, List.append_assoc, List.cons_append]
      rfl
    · exact esc_markup buf

theorem chunks_markup (cur : Option (Text × Bool)) (buf : Text) (cells : List Cell) :
    chunks cur buf cells = markup (chunkTokens cur buf cells) := by
  induction cells generalizing cur buf with
  | nil => exact flush_markup cur buf
  | cons cell cells ih =>
    rw [chunks, chunkTokens]
    split
    · rw [markup_append, flush_markup, ih]
    · exact ih _ _

/-! ### What the tokens are -/

theorem shown_map_ofChar (t : Text) : (t.map Token.ofChar).flatMap Token.shown = t := by
  induction t with
  | nil => rfl
  | cons c t ih => rw [List.map_cons, List.flatMap_cons, shown_ofChar, ih, List.singleton_append]

theorem inside_map_ofChar (t : Text) : (t.map Token.ofChar).filterMap Token.inside? = [] := by
  refine List.filterMap_eq_nil_iff.mpr fun x hx => ?_
  obtain ⟨c, -, rfl⟩ := List.mem_map.mp hx
  rcases ofChar_cases c with ⟨e, -, -, h⟩ | ⟨-, h⟩ <;> rw [h] <;> rfl

/-- What a run of tokens is to be: they can be read back, they show these characters, and their
tags are colour spans, one after the other. -/
structure Run (tokens : List Token) (chars : Text) : Prop where
  plain : ∀ x ∈ tokens, x.Plain
  shown : tokens.flatMap Token.shown = chars
  spans : ∃ l : List Text, (∀ t ∈ l, IsColourTag t) ∧
    tokens.filterMap Token.inside? = l.flatMap fun t => [t, closeTag]

theorem Run.append {l l' : List Token} {t t' : Text} (h : Run l t) (h' : Run l' t') :
    Run (l ++ l') (t ++ t') := by
  obtain ⟨s, hs, htags⟩ := h.spans
  obtain ⟨s', hs', htags'⟩ := h'.spans
  refine ⟨List.forall_mem_append.mpr ⟨h.plain, h'.plain⟩, ?_, s ++ s',
    List.forall_mem_append.mpr ⟨hs, hs'⟩, ?_⟩
  · rw [List.flatMap_append, h.shown, h'.shown]
  · rw [List.filterMap_append, htags, htags', List.flatMap_append]

theorem run_nil : Run [] [] := ⟨fun _ h => absurd h List.not_mem_nil, rfl, [], by simp, rfl⟩

theorem run_chars (t : Text) : Run (t.map Token.ofChar) t := by
  refine ⟨fun x hx => ?_, shown_map_ofChar t, [], by simp, inside_map_ofChar t⟩
  obtain ⟨c, -, rfl⟩ := List.mem_map.mp hx
  exact plain_ofChar c

theorem close_notMem_intRepr (i : ℤ) : codePoint '>' ∉ intRepr i := by
  intro hmem
  obtain ⟨l, -, hl, -⟩ := decimal_written i.natAbs
  unfold intRepr at hmem
  rw [hl] at hmem
  rcases List.mem_append.mp hmem with hsign | hdigits
  · split at hsign
    · exact absurd hsign (by decide)
    · exact absurd hsign List.not_mem_nil
  · obtain ⟨d, -, hd⟩ := List.mem_map.mp hdigits
    exact digit_ne d.val (.inr (by decide)) hd

theorem openTag_plain {fg : Text} (h : IsInk fg) : (Token.tag (openTag fg)).Plain := by
  have hfg : codePoint '>' ∉ fg := by
    rcases h with rfl | ⟨r, g, b, rfl⟩
    · exact List.not_mem_nil
    · unfold rgb
      simp only [List.mem_append, not_or]
      exact ⟨⟨⟨⟨⟨⟨by decide, close_notMem_intRepr r⟩, by decide⟩, close_notMem_intRepr g⟩,
        by decide⟩, close_notMem_intRepr b⟩, by decide⟩
  show codePoint '>' ∉ openTag fg
  unfold openTag
  simp only [List.mem_append, not_or]
  exact ⟨⟨by decide, hfg⟩, by decide⟩

theorem flushTokens_run {cur : Option (Text × Bool)} (h : ∀ c ∈ cur, IsInk c.1) (buf : Text) :
    Run (flushTokens cur buf) buf := by
  unfold flushTokens
  split
  · next hbuf => exact hbuf ▸ run_nil
  · split
    · next c fg bold =>
      have hink : IsInk (c :: fg) := h _ rfl
      have hcolour : IsColourTag (openTag (c :: fg)) := by
        rcases hink with hnil | ⟨r, g, b, hrgb⟩
        · exact nomatch hnil
        · exact ⟨r, g, b, by rw [openTag, hrgb]⟩
      have hchars := run_chars buf
      refine ⟨?_, ?_, [openTag (c :: fg)], by simpa using hcolour, ?_⟩
      · rw [List.forall_mem_cons, List.forall_mem_append]
        exact ⟨openTag_plain hink, hchars.plain, by
          intro x hx
          obtain rfl := List.mem_singleton.mp hx
          show codePoint '>' ∉ closeTag
          decide⟩
      · rw [List.flatMap_cons, List.flatMap_append, hchars.shown]
        exact List.append_nil buf
      · rw [List.filterMap_cons, List.filterMap_append, inside_map_ofChar]
        rfl
    · exact run_chars buf

theorem chunkTokens_run {cells : List Cell} (hcells : ∀ c ∈ cells, IsInk c.fg)
    {cur : Option (Text × Bool)} (hcur : ∀ c ∈ cur, IsInk c.1) (buf : Text) :
    Run (chunkTokens cur buf cells) (buf ++ cells.map Cell.ch) := by
  induction cells generalizing cur buf with
  | nil =>
    rw [List.map_nil, List.append_nil]
    exact flushTokens_run hcur buf
  | cons cell cells ih =>
    obtain ⟨hcell, hrest⟩ := List.forall_mem_cons.mp hcells
    rw [chunkTokens]
    split
    · have hnext : ∀ c ∈ some (cell.fg, cell.bold), IsInk c.1 := by
        intro c hc
        obtain rfl := Option.some.inj hc
        exact hcell
      exact (flushTokens_run hcur buf).append (ih hrest hnext [cell.ch])
    · have h := ih hrest hcur (buf ++ [cell.ch])
      rw [List.append_assoc] at h
      exact h

/-- The cells of a line that are sent. -/
def kept (line : List Cell) : List Cell := line.rdropWhile Cell.unseen

/-- The tokens of a screen. -/
def frameTokens (screen : List (List Cell)) : List Token :=
  [Token.char LF].intercalate (screen.map fun line => chunkTokens none [] (kept line))

theorem frameTokens_run {screen : List (List Cell)}
    (h : ∀ line ∈ screen, ∀ c ∈ line, IsInk c.fg) :
    Run (frameTokens screen)
      ([LF].intercalate (screen.map fun line => (kept line).map Cell.ch)) := by
  have hline : ∀ line ∈ screen,
      Run (chunkTokens none [] (kept line)) ((kept line).map Cell.ch) := by
    intro line hmem
    exact chunkTokens_run (fun c hc => h line hmem c ((List.rdropWhile_prefix _ _).subset hc))
      (fun _ hc => absurd hc (Option.not_mem_none _)) []
  have hbreak : Run [Token.char LF] [LF] := by
    refine ⟨?_, rfl, [], by simp, rfl⟩
    intro x hx
    obtain rfl := List.mem_singleton.mp hx
    exact ⟨by decide, by decide⟩
  unfold frameTokens
  clear h
  induction screen with
  | nil => exact run_nil
  | cons line screen ih =>
    obtain ⟨hfirst, hrest⟩ := List.forall_mem_cons.mp hline
    cases screen with
    | nil =>
      rw [List.map_singleton, List.map_singleton, List.intercalate_singleton,
        List.intercalate_singleton]
      exact hfirst
    | cons line' screen =>
      rw [List.map_cons, List.map_cons, List.map_cons, List.map_cons, List.intercalate_cons_cons,
        List.intercalate_cons_cons]
      exact (hfirst.append hbreak).append (ih hrest)

/-- **The HTML** is the markup of the tokens, up to their trailing blanks. -/
theorem htmlFrame_markup (s : HtmlState) :
    htmlFrame s = markup ((frameTokens s.screen).rdropWhile Token.blank) := by
  rw [← rstrip_markup]
  unfold htmlFrame joined frameTokens
  rw [markup, flatMap_intercalate, List.map_map]
  congr 2
  refine List.map_congr_left fun line _ => ?_
  exact chunks_markup none [] (kept line)

/-! ### The frames agree -/

variable {I : Interp} {isdigit : CodePoint → Bool} {rows cols : ℕ}

/-- What the HTML shows, line by line, and that its tags are its own. -/
theorem htmlFrame_shows {s : HtmlState} (h : OnScreen rows cols s) :
    (∀ n, (lineAt n (shown (htmlFrame s))).rstrip =
        Text.rstrip ((s.screen.map fun line => line.map Cell.ch).getD n [])) ∧
      OwnSpans (htmlFrame s) := by
  have hrun := frameTokens_run fun line hline c hc => ((h.fits.2 line hline).2 c hc).2
  -- the tokens that are sent, and the blanks that are not
  set sent := (frameTokens s.screen).rdropWhile Token.blank with hsent
  have hcut : sent ++ (frameTokens s.screen).rtakeWhile Token.blank = frameTokens s.screen :=
    List.rdropWhile_append_rtakeWhile
  have hblank : ∀ x ∈ (frameTokens s.screen).rtakeWhile Token.blank,
      ∃ c, isSpace c = true ∧ x = .char c := by
    intro x hx
    have hx := List.mem_rtakeWhile_imp hx
    cases x with
    | char c => exact ⟨c, hx, rfl⟩
    | tag t => exact nomatch hx
    | entity t => exact nomatch hx
  have hread : read .text (htmlFrame s) = sent := by
    rw [htmlFrame_markup, ← hsent]
    refine read_markup fun x hx => hrun.plain x ?_
    rw [← hcut]
    exact List.mem_append_left _ hx
  constructor
  · intro n
    have hshown : shown (htmlFrame s) ++
        ((frameTokens s.screen).rtakeWhile Token.blank).flatMap Token.shown =
        [LF].intercalate (s.screen.map fun line => (kept line).map Cell.ch) := by
      rw [shown, hread, ← List.flatMap_append, hcut, hrun.shown]
    have hws : ∀ c ∈ ((frameTokens s.screen).rtakeWhile Token.blank).flatMap Token.shown,
        isSpace c = true := by
      intro c hc
      obtain ⟨x, hx, hcx⟩ := List.mem_flatMap.mp hc
      obtain ⟨a, ha, rfl⟩ := hblank x hx
      exact List.mem_singleton.mp hcx ▸ ha
    have hlines : ∀ l ∈ s.screen.map fun line => (kept line).map Cell.ch, LF ∉ l := by
      intro l hl hmem
      obtain ⟨line, hline, rfl⟩ := List.mem_map.mp hl
      obtain ⟨c, hc, he⟩ := List.mem_map.mp hmem
      exact ((h.fits.2 line hline).2 c ((List.rdropWhile_prefix _ _).subset hc)).1 he
    rw [← lineAt_append_blanks hws, hshown, lineAt_intercalate hlines, List.getD_eq_getElem?_getD,
      List.getD_eq_getElem?_getD, List.getElem?_map, List.getElem?_map]
    cases s.screen[n]? with
    | none => rfl
    | some line =>
      -- what is taken off the line is blank
      have hline : (kept line).map Cell.ch ++ (line.rtakeWhile Cell.unseen).map Cell.ch =
          line.map Cell.ch := by
        rw [← List.map_append, kept, List.rdropWhile_append_rtakeWhile]
      have hspaces : ∀ c ∈ (line.rtakeWhile Cell.unseen).map Cell.ch, isSpace c = true := by
        intro c hc
        obtain ⟨cell, hcell, rfl⟩ := List.mem_map.mp hc
        have hunseen := List.mem_rtakeWhile_imp hcell
        have hch : cell.ch = blank := by
          simp only [Cell.unseen, Bool.and_eq_true, decide_eq_true_eq] at hunseen
          exact hunseen.1.1
        rw [hch]
        decide
      show Text.rstrip ((kept line).map Cell.ch) = Text.rstrip (line.map Cell.ch)
      rw [← hline, rstrip_append_blanks hspaces]
  · obtain ⟨l, hl, htags⟩ := hrun.spans
    have hnone : ((frameTokens s.screen).rtakeWhile Token.blank).filterMap Token.inside? = [] := by
      refine List.filterMap_eq_nil_iff.mpr fun x hx => ?_
      obtain ⟨c, -, rfl⟩ := hblank x hx
      rfl
    have hsame : tags (htmlFrame s) = l.flatMap fun t => [t, closeTag] := by
      rw [← htags, ← hcut, List.filterMap_append, hnone, List.append_nil, tags, hread]
    rw [OwnSpans, hsame]
    exact nested_pairs hl

/-- **The two frames** of any text are made, show the same lines up to trailing blanks, and hold no
tag but the colours' own, nested, exactly when each parameter of a control sequence that is all
digits is a number to `int`. -/
theorem frames_iff (I : Interp) (isdigit : CodePoint → Bool) (text : Text) {rows cols : ℕ}
    (hrows : 0 < rows) (hcols : 0 < cols) :
    (∃ html out, terminal_frame_to_html I isdigit text rows cols = .ok html ∧
        terminal_frame_to_text I isdigit text rows cols = .ok out ∧ Agree html out ∧
        OwnSpans html) ↔
      ∀ p ∈ parameters text, p.all isdigit = true → ∃ n, intOfText I p = .ok n := by
  rw [← htmlScreen_iff hrows hcols]
  constructor
  · rintro ⟨html, out, hhtml, -⟩
    obtain ⟨s, hs, -⟩ := Except.map_eq_ok hhtml
    exact ⟨s, hs⟩
  · rintro ⟨s, hs⟩
    have hon := htmlScreen_on hrows hcols hs
    obtain ⟨hlines, hspans⟩ := htmlFrame_shows hon
    refine ⟨htmlFrame s, textFrame s.erase, ?_, ?_, fun n => ?_, hspans⟩
    · rw [terminal_frame_to_html, hs]
      rfl
    · rw [terminal_frame_to_text, simulates, hs]
      rfl
    · have hbreaks : ∀ l ∈ s.erase.screen.map Text.rstrip, LF ∉ l := by
        intro l hl hmem
        obtain ⟨chars, hchars, rfl⟩ := List.mem_map.mp hl
        obtain ⟨line, hline, rfl⟩ := List.mem_map.mp hchars
        obtain ⟨c, hc, he⟩ := List.mem_map.mp ((List.rdropWhile_prefix _ _).subset hmem)
        exact ((hon.fits.2 line hline).2 c hc).1 he
      rw [hlines, textFrame, lineAt_joined hbreaks]
      show Text.rstrip ((s.screen.map (List.map Cell.ch)).getD n []) =
        Text.rstrip (((s.screen.map (List.map Cell.ch)).map Text.rstrip).getD n [])
      generalize s.screen.map (List.map Cell.ch) = lines
      rw [List.getD_eq_getElem?_getD, List.getD_eq_getElem?_getD, List.getElem?_map]
      cases lines[n]? with
      | none => rfl
      | some chars => exact (List.rdropWhile_idempotent isSpace chars).symm

/-! ### A digit that is no number -/

/-- "²" is a digit too. -/
def superscript (c : CodePoint) : Bool := (0x30 ≤ c.val && c.val ≤ 0x39) || c.val == 0xB2

/-- A coloured "<": its frames are made and agree. -/
theorem coloured_frames :
    ∃ html out, terminal_frame_to_html Interp.ascii superscript
        (ESC :: Text.of "[38;2;1;22;3m<") 2 4 = .ok html ∧
      terminal_frame_to_text Interp.ascii superscript
        (ESC :: Text.of "[38;2;1;22;3m<") 2 4 = .ok out ∧ Agree html out ∧ OwnSpans html := by
  refine (frames_iff Interp.ascii superscript _ (by decide) (by decide)).mpr ?_
  have hparams : parameters (ESC :: Text.of "[38;2;1;22;3m<") =
      [Text.of "38", Text.of "2", Text.of "1", Text.of "22", Text.of "3"] := by decide
  rw [hparams]
  simp only [List.forall_mem_cons]
  exact ⟨fun _ => ⟨38, by rfl⟩, fun _ => ⟨2, by rfl⟩, fun _ => ⟨1, by rfl⟩, fun _ => ⟨22, by rfl⟩,
    fun _ => ⟨3, by rfl⟩, fun _ h => absurd h List.not_mem_nil⟩

/-- **A colour "²"** is all digits and no number: neither frame is made. -/
theorem superscript_raises :
    terminal_frame_to_html Interp.ascii superscript
        [ESC, codePoint '[', ⟨0xB2, by decide⟩, codePoint 'm'] 2 4 =
      .error (.python .value) ∧
    terminal_frame_to_text Interp.ascii superscript
        [ESC, codePoint '[', ⟨0xB2, by decide⟩, codePoint 'm'] 2 4 =
      .error (.python .value) := by
  constructor <;> rfl

end Terminal
