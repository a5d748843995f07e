import Caravan.Framework.Markup
import Caravan.Python.Except
import Caravan.Python.Int

/-!
# The two terminal screens

A frame of a terminal program is read twice: `terminal_frame_to_html` keeps the colours and
`terminal_frame_to_text` the characters only. Each is a machine of its own over the same bytes: a
screen, a cursor, and what each control sequence does to them.

* `simulates` — the text's machine does what the other one does, the colours left out, and raises
  where it raises;
* `htmlStep_ok` — the screen keeps its size, the cursor stays on it, no line break gets on it and
  every colour is one that the machine wrote;
* `htmlScreen_iff` — the machine raises nothing exactly when every parameter of a control sequence
  that is all digits is a number to `int`.
-/

namespace Terminal

open Python

/-! ### The pieces of a frame -/

def ESC : CodePoint := ⟨0x1B, by decide⟩

def BEL : CodePoint := ⟨0x07, by decide⟩

def CR : CodePoint := codePoint '\r'

def LF : CodePoint := codePoint '\n'

def blank : CodePoint := codePoint ' '

/-- `"@" <= c <= "~"`: the end of a control sequence. -/
def isFinal (c : CodePoint) : Bool := 0x40 ≤ c.val && c.val ≤ 0x7E

/-- What one turn of the loop takes off the frame. -/
inductive Piece where
  | csi (params : Text) (code : CodePoint)
  /-- A sequence that sets a title. -/
  | osc
  | char (c : CodePoint)
  deriving DecidableEq

/-- One turn of the loop: its piece and the rest, none at the end of the frame and at a control
sequence that does not end. -/
def piece : Text → Option (Piece × Text)
  | [] => none
  | [c] => some (.char c, [])
  | c :: d :: t =>
    if c = ESC ∧ d = codePoint '[' then
      match t.dropWhile fun x => !isFinal x with
      | [] => none
      | code :: rest => some (.csi (t.takeWhile fun x => !isFinal x) code, rest)
    else if c = ESC ∧ d = codePoint ']' then
      some (.osc, (t.dropWhile fun x => x ≠ BEL && x ≠ ESC).drop 1)
    else some (.char c, d :: t)

theorem piece_shorter {t rest : Text} {p : Piece} (h : piece t = some (p, rest)) :
    rest.length < t.length := by
  unfold piece at h
  split at h
  · exact nomatch h
  · obtain ⟨-, rfl⟩ := Prod.mk.inj (Option.some.inj h)
    exact Nat.zero_lt_one
  · next c d t =>
    split at h
    · have hdrop := (List.dropWhile_suffix (fun x => !isFinal x) (l := t)).length_le
      cases hrest : t.dropWhile fun x => !isFinal x with
      | nil =>
        rw [hrest] at h
        exact nomatch h
      | cons code after =>
        rw [hrest] at h hdrop
        obtain ⟨-, rfl⟩ := Prod.mk.inj (Option.some.inj h)
        simp only [List.length_cons] at hdrop ⊢
        omega
    · split at h
      · obtain ⟨-, rfl⟩ := Prod.mk.inj (Option.some.inj h)
        have hdrop := (List.dropWhile_suffix (fun x => x ≠ BEL && x ≠ ESC) (l := t)).length_le
        simp only [List.length_drop, List.length_cons]
        omega
      · obtain ⟨-, rfl⟩ := Prod.mk.inj (Option.some.inj h)
        exact Nat.lt_succ_self _

/-- The first pieces of a frame. -/
def firstPieces : ℕ → Text → List Piece
  | 0, _ => []
  | n + 1, t =>
    match piece t with
    | none => []
    | some (p, rest) => p :: firstPieces n rest

/-- The turns of the loop; there are no more than characters. -/
def pieces (t : Text) : List Piece := firstPieces t.length t

theorem firstPieces_enough {n m : ℕ} {t : Text} (hn : t.length ≤ n) (hm : t.length ≤ m) :
    firstPieces n t = firstPieces m t := by
  induction n generalizing m t with
  | zero =>
    obtain rfl := List.eq_nil_of_length_eq_zero (Nat.le_zero.mp hn)
    cases m <;> rfl
  | succ n ih =>
    cases m with
    | zero =>
      obtain rfl := List.eq_nil_of_length_eq_zero (Nat.le_zero.mp hm)
      rfl
    | succ m =>
      rw [firstPieces, firstPieces]
      cases hpiece : piece t with
      | none => rfl
      | some p =>
        have hshort := piece_shorter hpiece
        exact congrArg (p.1 :: ·) (ih (by omega) (by omega))

/-- **The loop**: a turn, and the loop on the rest. -/
theorem pieces_eq (t : Text) : pieces t =
    match piece t with
    | none => []
    | some (p, rest) => p :: pieces rest := by
  unfold pieces
  cases t with
  | nil => rfl
  | cons c t =>
    rw [List.length_cons, firstPieces]
    cases hpiece : piece (c :: t) with
    | none => rfl
    | some p =>
      have hshort := piece_shorter hpiece
      rw [List.length_cons] at hshort
      exact congrArg (p.1 :: ·) (firstPieces_enough (by omega) le_rfl)

/-! ### Parameters -/

/-- What a renderer raises. -/
inductive Failure where
  | python (e : Error)
  /-- `IndexError` -/
  | index
  deriving DecidableEq

variable (I : Interp) (isdigit : CodePoint → Bool)

/-- The parameters of a sequence that are not empty. -/
def fields (params : Text) : List Text :=
  ((params.filter (· ≠ codePoint '?')).splitOn (codePoint ';')).filter (· ≠ [])

/-- `int(p) if p.isdigit() else 0` -/
def parameter (p : Text) : Except Error ℤ := if p.all isdigit then intOfText I p else .ok 0

/-- `parts` -/
def parts (params : Text) : Except Error (List ℤ) := (fields params).mapM (parameter I isdigit)

/-! ### Colours -/

/-- `fg` and `bold` -/
structure Ink where
  fg : Text
  bold : Bool
  deriving DecidableEq

def plain : Ink := ⟨[], false⟩

/-- `f"rgb({r},{g},{b})"` -/
def rgb (r g b : ℤ) : Text :=
  Text.of "rgb(" ++ intRepr r ++ Text.of "," ++ intRepr g ++ Text.of "," ++ intRepr b ++ Text.of ")"

/-- A parameter that stands for itself. -/
def Ink.set (ink : Ink) (p : ℤ) : Ink :=
  if p = 0 then plain
  else if p = 1 then { ink with bold := true }
  else if p = 22 then { ink with bold := false }
  else if p = 39 then { ink with fg := [] }
  else ink

/-- The loop of `apply_sgr`. -/
def Ink.apply : Ink → List ℤ → Ink
  | ink, [] => ink
  | ink, p :: m :: r :: g :: b :: rest =>
    if p = 38 ∧ m = 2 then Ink.apply { ink with fg := rgb r g b } rest
    else Ink.apply (ink.set p) (m :: r :: g :: b :: rest)
  | ink, p :: rest => Ink.apply (ink.set p) rest

/-- `apply_sgr` -/
def apply_sgr (ink : Ink) (params : List ℤ) : Ink := if params = [] then plain else ink.apply params

/-! ### Screens -/

/-- `screen[row][col] = a` -/
def putAt {α : Type} (screen : List (List α)) (row col : ℕ) (a : α) :
    Except Failure (List (List α)) :=
  match screen[row]? with
  | none => .error .index
  | some line => if col < line.length then .ok (screen.set row (line.set col a)) else .error .index

/-- A character that is put where the cursor is, if the cursor is on the screen. -/
def putOn {α : Type} (rows cols : ℕ) (screen : List (List α)) (row col : ℕ) (a : α) :
    Except Failure (List (List α)) :=
  if row < rows ∧ col < cols then putAt screen row col a else .ok screen

/-- `max(0, min(size - 1, (p if p else 1) - 1))` of a parameter that may be missing. -/
def cursor (size : ℕ) (p : Option ℤ) : ℕ :=
  let p := p.getD 0
  (min ((size : ℤ) - 1) ((if p = 0 then 1 else p) - 1)).toNat

variable (rows cols : ℕ)

/-! ### `terminal_frame_to_html` -/

structure Cell where
  ch : CodePoint
  fg : Text
  bold : Bool
  deriving DecidableEq

def Cell.empty : Cell := ⟨blank, [], false⟩

structure HtmlState where
  screen : List (List Cell)
  row : ℕ
  col : ℕ
  ink : Ink

/-- A screen with nothing on it. -/
def emptyScreen {α : Type} (a : α) : List (List α) := List.replicate rows (List.replicate cols a)

def HtmlState.start : HtmlState := ⟨emptyScreen rows cols Cell.empty, 0, 0, plain⟩

/-- One turn of the loop of `terminal_frame_to_html`. -/
def htmlStep (s : HtmlState) : Piece → Except Failure HtmlState
  | .csi params code => do
    let parts ← (parts I isdigit params).mapError Failure.python
    if code = codePoint 'H' ∨ code = codePoint 'f' then
      return { s with row := cursor rows parts[0]?, col := cursor cols parts[1]? }
    else if code = codePoint 'J' then
      return { s with screen := emptyScreen rows cols Cell.empty, row := 0, col := 0 }
    else if code = codePoint 'K' then do
      let screen ← (List.range' s.col (cols - s.col)).foldlM
        (fun screen x => putAt screen s.row x Cell.empty) s.screen
      return { s with screen }
    else if code = codePoint 'm' then return { s with ink := apply_sgr s.ink parts }
    else return s
  | .osc => return s
  | .char c =>
    if c = CR then return { s with col := 0 }
    else if c = LF then return { s with row := min (rows - 1) (s.row + 1), col := 0 }
    else if blank ≤ c then do
      let screen ← putOn rows cols s.screen s.row s.col ⟨c, s.ink.fg, s.ink.bold⟩
      if cols ≤ s.col + 1 then return { s with screen, col := 0, row := min (rows - 1) (s.row + 1) }
      else return { s with screen, col := s.col + 1 }
    else return s

def htmlScreen (text : Text) : Except Failure HtmlState :=
  (pieces text).foldlM (htmlStep I isdigit rows cols) (HtmlState.start rows cols)

/-! ### `terminal_frame_to_text` -/

structure TextState where
  screen : List (List CodePoint)
  row : ℕ
  col : ℕ

def TextState.start : TextState := ⟨emptyScreen rows cols blank, 0, 0⟩

/-- One turn of the loop of `terminal_frame_to_text`. -/
def textStep (s : TextState) : Piece → Except Failure TextState
  | .csi params code => do
    let parts ← (parts I isdigit params).mapError Failure.python
    if code = codePoint 'H' ∨ code = codePoint 'f' then
      return { s with row := cursor rows parts[0]?, col := cursor cols parts[1]? }
    else if code = codePoint 'J' then
      return { screen := emptyScreen rows cols blank, row := 0, col := 0 }
    else if code = codePoint 'K' then do
      let screen ← (List.range' s.col (cols - s.col)).foldlM
        (fun screen x => putAt screen s.row x blank) s.screen
      return { s with screen }
    else return s
  | .osc => return s
  | .char c =>
    if c = CR then return { s with col := 0 }
    else if c = LF then return { s with row := min (rows - 1) (s.row + 1), col := 0 }
    else if blank ≤ c then do
      let screen ← putOn rows cols s.screen s.row s.col c
      if cols ≤ s.col + 1 then return { screen, col := 0, row := min (rows - 1) (s.row + 1) }
      else return { s with screen, col := s.col + 1 }
    else return s

def textScreen (text : Text) : Except Failure TextState :=
  (pieces text).foldlM (textStep I isdigit rows cols) (TextState.start rows cols)

/-! ### The colours left out -/

variable {I isdigit rows cols}

theorem putAt_map {α β : Type} (f : α → β) (screen : List (List α)) (row col : ℕ) (a : α) :
    putAt (screen.map (List.map f)) row col (f a) =
      (putAt screen row col a).map (List.map (List.map f)) := by
  unfold putAt
  rw [List.getElem?_map]
  cases screen[row]? with
  | none => rfl
  | some line =>
    show (if col < (line.map f).length then _ else _) = _
    dsimp only
    rw [List.length_map]
    split
    · show _ = Except.ok _
      rw [List.map_set, List.map_set]
    · rfl

theorem emptyScreen_map {α β : Type} (f : α → β) (rows cols : ℕ) (a : α) :
    emptyScreen rows cols (f a) = (emptyScreen rows cols a).map (List.map f) := by
  unfold emptyScreen
  rw [List.map_replicate, List.map_replicate]

/-- What the other machine has of a state. -/
def HtmlState.erase (s : HtmlState) : TextState := ⟨s.screen.map (List.map Cell.ch), s.row, s.col⟩

/-- **One turn**: the text's machine does what the other one does. -/
theorem step_erase (s : HtmlState) (p : Piece) :
    textStep I isdigit rows cols s.erase p =
      (htmlStep I isdigit rows cols s p).map HtmlState.erase := by
  cases p with
  | osc => rfl
  | csi params code =>
    rw [htmlStep, textStep, Except.map_bind]
    cases (parts I isdigit params).mapError Failure.python with
    | error e => rfl
    | ok parts =>
      show (if _ then _ else _) = Except.map _ (if _ then _ else _)
      split
      · rfl
      · split
        · show Except.ok _ = Except.ok _
          rw [HtmlState.erase, ← emptyScreen_map Cell.ch]
          rfl
        · split
          · -- the loop over the rest of the line
            rw [Except.map_bind]
            have hloop : (List.range' s.col (cols - s.col)).foldlM
                (fun screen x => putAt screen s.row x blank) (s.screen.map (List.map Cell.ch)) =
                  ((List.range' s.col (cols - s.col)).foldlM
                    (fun screen x => putAt screen s.row x Cell.empty) s.screen).map
                    (List.map (List.map Cell.ch)) :=
              Except.foldlM_map _ (fun screen x => putAt_map Cell.ch screen s.row x Cell.empty) _ _
            show ((List.range' s.col (cols - s.col)).foldlM
              (fun screen x => putAt screen s.row x blank) (s.screen.map (List.map Cell.ch)) >>=
                _) = _
            rw [hloop]
            cases (List.range' s.col (cols - s.col)).foldlM
              (fun screen x => putAt screen s.row x Cell.empty) s.screen <;> rfl
          · -- colours are nothing to the text
            split <;> rfl
  | char c =>
    rw [htmlStep, textStep]
    split
    · rfl
    · split
      · rfl
      · split
        · rw [Except.map_bind]
          show (putOn rows cols (s.screen.map (List.map Cell.ch)) s.row s.col c >>= _) = _
          have hput : putOn rows cols (s.screen.map (List.map Cell.ch)) s.row s.col c =
              (putOn rows cols s.screen s.row s.col ⟨c, s.ink.fg, s.ink.bold⟩).map
                (List.map (List.map Cell.ch)) := by
            unfold putOn
            split
            · exact putAt_map Cell.ch s.screen s.row s.col ⟨c, s.ink.fg, s.ink.bold⟩
            · rfl
          rw [hput]
          cases putOn rows cols s.screen s.row s.col (⟨c, s.ink.fg, s.ink.bold⟩ : Cell) with
          | error e => rfl
          | ok screen =>
            show (if cols ≤ s.col + 1 then _ else _) =
              Except.map _ (if cols ≤ s.col + 1 then _ else _)
            by_cases hwrap : cols ≤ s.col + 1
            · rw [if_pos hwrap, if_pos hwrap]
              rfl
            · rw [if_neg hwrap, if_neg hwrap]
              rfl
        · rfl

/-- **The two screens** hold the same characters, and neither is made where the other one is not. -/
theorem simulates (I : Interp) (isdigit : CodePoint → Bool) (rows cols : ℕ) (text : Text) :
    textScreen I isdigit rows cols text =
      (htmlScreen I isdigit rows cols text).map HtmlState.erase := by
  have hstart : TextState.start rows cols = (HtmlState.start rows cols).erase := by
    rw [TextState.start, HtmlState.erase, HtmlState.start, ← emptyScreen_map Cell.ch]
    rfl
  rw [textScreen, hstart]
  exact Except.foldlM_map _ step_erase _ _

/-! ### What is on the screen -/

/-- No colour, or one that the machine writes. -/
def IsInk (fg : Text) : Prop := fg = [] ∨ ∃ r g b, fg = rgb r g b

/-- A screen of this size, of cells that are all right. -/
def Fits {α : Type} (rows cols : ℕ) (P : α → Prop) (screen : List (List α)) : Prop :=
  screen.length = rows ∧ ∀ line ∈ screen, line.length = cols ∧ ∀ a ∈ line, P a

def Cell.Good (c : Cell) : Prop := c.ch ≠ LF ∧ IsInk c.fg

theorem good_empty : Cell.empty.Good := ⟨by decide, .inl rfl⟩

structure OnScreen (rows cols : ℕ) (s : HtmlState) : Prop where
  fits : Fits rows cols Cell.Good s.screen
  row : s.row < rows
  col : s.col < cols
  ink : IsInk s.ink.fg

theorem fits_emptyScreen {α : Type} {P : α → Prop} {a : α} (h : P a) :
    Fits rows cols P (emptyScreen rows cols a) := by
  refine ⟨List.length_replicate, fun line hline => ?_⟩
  obtain rfl := (List.mem_replicate.mp hline).2
  exact ⟨List.length_replicate, fun b hb => (List.mem_replicate.mp hb).2 ▸ h⟩

/-- What is put on the screen fits on it. -/
theorem putAt_fits {α : Type} {P : α → Prop} {screen : List (List α)} {row col : ℕ} {a : α}
    (h : Fits rows cols P screen) (hrow : row < rows) (hcol : col < cols) (ha : P a) :
    ∃ screen', putAt screen row col a = .ok screen' ∧ Fits rows cols P screen' := by
  obtain ⟨hlength, hlines⟩ := h
  have hrow' : row < screen.length := hlength ▸ hrow
  obtain ⟨hcols, hall⟩ := hlines _ (List.getElem_mem hrow')
  refine ⟨screen.set row (screen[row].set col a), ?_, ?_, ?_⟩
  · unfold putAt
    rw [List.getElem?_eq_getElem hrow']
    exact if_pos (hcols ▸ hcol)
  · rw [List.length_set, hlength]
  · intro line hline
    rcases List.mem_or_eq_of_mem_set hline with hline | rfl
    · exact hlines line hline
    · refine ⟨by rw [List.length_set, hcols], fun b hb => ?_⟩
      rcases List.mem_or_eq_of_mem_set hb with hb | rfl
      · exact hall b hb
      · exact ha

theorem cursor_lt {size : ℕ} (h : 0 < size) (p : Option ℤ) : cursor size p < size := by
  unfold cursor
  dsimp only
  omega

theorem Ink.set_isInk {ink : Ink} (h : IsInk ink.fg) (p : ℤ) : IsInk (ink.set p).fg := by
  unfold Ink.set
  split
  · exact .inl rfl
  · split
    · exact h
    · split
      · exact h
      · split
        · exact .inl rfl
        · exact h

theorem Ink.apply_isInk {ink : Ink} (h : IsInk ink.fg) (params : List ℤ) :
    IsInk (ink.apply params).fg := by
  induction ink, params using Ink.apply.induct with
  | case1 ink =>
    rw [Ink.apply]
    exact h
  | case2 ink p m r g b rest hcolour ih =>
    rw [Ink.apply, if_pos hcolour]
    exact ih (.inr ⟨r, g, b, rfl⟩)
  | case3 ink p m r g b rest hcolour ih =>
    rw [Ink.apply, if_neg hcolour]
    exact ih (Ink.set_isInk h p)
  | case4 ink p rest hshort ih =>
    rw [Ink.apply]
    · exact ih (Ink.set_isInk h p)
    · exact hshort

theorem apply_sgr_isInk {ink : Ink} (h : IsInk ink.fg) (params : List ℤ) :
    IsInk (apply_sgr ink params).fg := by
  unfold apply_sgr
  split
  · exact .inl rfl
  · exact Ink.apply_isInk h params

/-- The parameters of a piece can be read. -/
def Readable (I : Interp) (isdigit : CodePoint → Bool) : Piece → Prop
  | .csi params _ => ∃ l, parts I isdigit params = .ok l
  | _ => True

/-- **One turn** goes through if the parameters of its piece can be read, and keeps the screen as
it is to be. -/
theorem htmlStep_ok {s : HtmlState} (h : OnScreen rows cols s) {p : Piece}
    (hp : Readable I isdigit p) :
    ∃ s', htmlStep I isdigit rows cols s p = .ok s' ∧ OnScreen rows cols s' := by
  have hrows : 0 < rows := lt_of_le_of_lt (Nat.zero_le _) h.row
  have hcols : 0 < cols := lt_of_le_of_lt (Nat.zero_le _) h.col
  cases p with
  | osc => exact ⟨s, rfl, h⟩
  | csi params code =>
    obtain ⟨l, hl⟩ := hp
    have hparts : (parts I isdigit params).mapError Failure.python = .ok l := by
      rw [hl]
      rfl
    rw [htmlStep, hparts, Except.ok_bind]
    split
    · exact ⟨_, rfl, h.fits, cursor_lt hrows _, cursor_lt hcols _, h.ink⟩
    · split
      · exact ⟨_, rfl, fits_emptyScreen good_empty, hrows, hcols, h.ink⟩
      · split
        · obtain ⟨screen, hscreen, hfits⟩ := Except.foldlM_exists
            (f := fun screen x => putAt screen s.row x Cell.empty)
            (P := Fits rows cols Cell.Good) (l := List.range' s.col (cols - s.col))
            (fun screen x hx hscreen => putAt_fits hscreen h.row (by
              have := List.mem_range'_1.mp hx
              omega) good_empty) h.fits
          rw [hscreen]
          exact ⟨_, rfl, hfits, h.row, h.col, h.ink⟩
        · split
          · exact ⟨_, rfl, h.fits, h.row, h.col, apply_sgr_isInk h.ink l⟩
          · exact ⟨s, rfl, h⟩
  | char c =>
    rw [htmlStep]
    split
    · exact ⟨_, rfl, h.fits, h.row, hcols, h.ink⟩
    · split
      · refine ⟨_, rfl, h.fits, ?_, hcols, h.ink⟩
        show min _ _ < _
        omega
      · next hLF =>
        split
        · obtain ⟨screen, hscreen, hfits⟩ := putAt_fits h.fits h.row h.col
            (show Cell.Good ⟨c, s.ink.fg, s.ink.bold⟩ from ⟨hLF, h.ink⟩)
          have hput : putOn rows cols s.screen s.row s.col ⟨c, s.ink.fg, s.ink.bold⟩ =
              .ok screen := by
            unfold putOn
            rw [if_pos ⟨h.row, h.col⟩, hscreen]
          rw [hput, Except.ok_bind]
          split
          · refine ⟨_, rfl, hfits, ?_, hcols, h.ink⟩
            show min _ _ < _
            omega
          · next hwrap => exact ⟨_, rfl, hfits, h.row, Nat.lt_of_not_le hwrap, h.ink⟩
        · exact ⟨s, rfl, h⟩

/-! ### When a screen is made -/

/-- The parameters of the control sequences of a frame. -/
def parameters (text : Text) : List Text :=
  (pieces text).flatMap fun
    | .csi params _ => fields params
    | _ => []

theorem readable_iff {p : Piece} : Readable I isdigit p ↔
    ∀ x ∈ (match p with
      | .csi params _ => fields params
      | _ => []), x.all isdigit = true → ∃ n, intOfText I x = .ok n := by
  cases p with
  | csi params code =>
    constructor
    · rintro ⟨l, hl⟩ x hx hdigits
      obtain ⟨n, -, hn⟩ := Except.mapM_mem hl hx
      rw [parameter, if_pos hdigits] at hn
      exact ⟨n, hn⟩
    · intro hall
      obtain ⟨l, hl, -⟩ := Except.mapM_exists (f := parameter I isdigit) (P := fun _ _ => True)
        (l := fields params) fun x hx => by
          unfold parameter
          split
          · next hdigits =>
            obtain ⟨n, hn⟩ := hall x hx hdigits
            exact ⟨n, hn, trivial⟩
          · exact ⟨0, rfl, trivial⟩
      exact ⟨l, hl⟩
  | _ => exact iff_of_true trivial fun x hx => absurd hx List.not_mem_nil

theorem htmlStep_readable {s s' : HtmlState} {p : Piece}
    (h : htmlStep I isdigit rows cols s p = .ok s') : Readable I isdigit p := by
  cases p with
  | csi params code =>
    rw [htmlStep] at h
    obtain ⟨l, hl, -⟩ := Except.bind_eq_ok h
    cases hparts : parts I isdigit params with
    | error e =>
      rw [hparts] at hl
      exact nomatch hl
    | ok l => exact ⟨l, hparts⟩
  | _ => trivial

/-- A screen that is made is as it is to be. -/
theorem htmlScreen_on (hrows : 0 < rows) (hcols : 0 < cols) {text : Text} {s : HtmlState}
    (h : htmlScreen I isdigit rows cols text = .ok s) : OnScreen rows cols s := by
  have hstart : OnScreen rows cols (HtmlState.start rows cols) :=
    ⟨fits_emptyScreen good_empty, hrows, hcols, .inl rfl⟩
  refine Except.foldlM_inv (fun t p t' _ ht hstep => ?_) hstart h
  obtain ⟨t'', hstep', hon⟩ := htmlStep_ok ht (htmlStep_readable hstep)
  rw [hstep] at hstep'
  exact Except.ok.inj hstep' ▸ hon

/-- **A screen is made** exactly when each parameter that is all digits is a number. -/
theorem htmlScreen_iff (hrows : 0 < rows) (hcols : 0 < cols) (text : Text) :
    (∃ s, htmlScreen I isdigit rows cols text = .ok s) ↔
      ∀ x ∈ parameters text, x.all isdigit = true → ∃ n, intOfText I x = .ok n := by
  have hall : (∀ x ∈ parameters text, x.all isdigit = true → ∃ n, intOfText I x = .ok n) ↔
      ∀ p ∈ pieces text, Readable I isdigit p := by
    unfold parameters
    simp only [List.mem_flatMap, readable_iff]
    exact ⟨fun h p hp x hx => h x ⟨p, hp, hx⟩, fun h x ⟨p, hp, hx⟩ => h p hp x hx⟩
  rw [hall]
  constructor
  · rintro ⟨s, hs⟩
    have hgo : ∀ (l : List Piece) (s s' : HtmlState),
        l.foldlM (htmlStep I isdigit rows cols) s = .ok s' → ∀ p ∈ l, Readable I isdigit p := by
      intro l
      induction l with
      | nil => exact fun _ _ _ _ hp => absurd hp List.not_mem_nil
      | cons p l ih =>
        intro s s' h
        rw [List.foldlM_cons] at h
        obtain ⟨mid, hmid, h⟩ := Except.bind_eq_ok h
        exact List.forall_mem_cons.mpr ⟨htmlStep_readable hmid, ih mid s' h⟩
    exact hgo _ _ _ hs
  · intro hread
    have hstart : OnScreen rows cols (HtmlState.start rows cols) :=
      ⟨fits_emptyScreen good_empty, hrows, hcols, .inl rfl⟩
    obtain ⟨s, hs, -⟩ :=
      Except.foldlM_exists (fun s p hp hs => htmlStep_ok hs (hread p hp)) hstart
    exact ⟨s, hs⟩

end Terminal
