import Caravan.Python.Text

/-!
# Tags and entities in a text

A text of markup is read as tags, entities and characters, and what it shows is its characters with
the entities decoded. The markup of tokens is read back (`read_markup`); a text whose
characters are escaped shows itself (`shown_ofChar`); and tags that open and close one after the
other are nested (`nested_pairs`).
-/

namespace Markup

open Python

inductive Token where
  | tag (inside : Text)
  | entity (name : Text)
  | char (c : CodePoint)
  deriving DecidableEq

/-! ### Writing -/

def Token.write : Token → Text
  | .tag inside => codePoint '<' :: (inside ++ [codePoint '>'])
  | .entity name => codePoint '&' :: (name ++ [codePoint ';'])
  | .char c => [c]

def markup (tokens : List Token) : Text := tokens.flatMap Token.write

/-- The markup of a token does not end it early. -/
def Token.Plain : Token → Prop
  | .tag inside => codePoint '>' ∉ inside
  | .entity name => codePoint ';' ∉ name
  | .char c => c ≠ codePoint '<' ∧ c ≠ codePoint '&'

/-! ### Reading -/

/-- Where a reader is: in the text, or in what it has of a tag or of an entity. -/
inductive Mode where
  | text
  | tag (inside : Text)
  | entity (name : Text)

/-- A tag or an entity that does not end is its characters. -/
def read : Mode → Text → List Token
  | .text, [] => []
  | .text, c :: t =>
    if c = codePoint '<' then read (.tag []) t
    else if c = codePoint '&' then read (.entity []) t
    else .char c :: read .text t
  | .tag inside, [] => (codePoint '<' :: inside).map .char
  | .tag inside, c :: t =>
    if c = codePoint '>' then .tag inside :: read .text t else read (.tag (inside ++ [c])) t
  | .entity name, [] => (codePoint '&' :: name).map .char
  | .entity name, c :: t =>
    if c = codePoint ';' then .entity name :: read .text t else read (.entity (name ++ [c])) t

theorem read_tag {inside : Text} (h : codePoint '>' ∉ inside) (before t : Text) :
    read (.tag before) (inside ++ codePoint '>' :: t) =
      .tag (before ++ inside) :: read .text t := by
  induction inside generalizing before with
  | nil => rw [List.nil_append, read, if_pos rfl, List.append_nil]
  | cons c inside ih =>
    have hc : c ≠ codePoint '>' := fun he => h (he ▸ List.mem_cons_self)
    rw [List.cons_append, read, if_neg hc, ih fun hmem => h (List.mem_cons_of_mem _ hmem),
      List.append_assoc]
    rfl

theorem read_entity {name : Text} (h : codePoint ';' ∉ name) (before t : Text) :
    read (.entity before) (name ++ codePoint ';' :: t) =
      .entity (before ++ name) :: read .text t := by
  induction name generalizing before with
  | nil => rw [List.nil_append, read, if_pos rfl, List.append_nil]
  | cons c name ih =>
    have hc : c ≠ codePoint ';' := fun he => h (he ▸ List.mem_cons_self)
    rw [List.cons_append, read, if_neg hc, ih fun hmem => h (List.mem_cons_of_mem _ hmem),
      List.append_assoc]
    rfl

/-- **Markup is read back.** -/
theorem read_markup {tokens : List Token} (h : ∀ x ∈ tokens, x.Plain) :
    read .text (markup tokens) = tokens := by
  induction tokens with
  | nil => rfl
  | cons x tokens ih =>
    obtain ⟨hx, hrest⟩ := List.forall_mem_cons.mp h
    have hcons : markup (x :: tokens) = x.write ++ markup tokens := List.flatMap_cons
    rw [hcons]
    cases x with
    | tag inside =>
      rw [Token.write, List.cons_append, List.append_assoc, read, if_pos rfl]
      show read _ (inside ++ codePoint '>' :: markup tokens) = _
      rw [read_tag hx, ih hrest, List.nil_append]
    | entity name =>
      rw [Token.write, List.cons_append, List.append_assoc, read, if_neg (by decide), if_pos rfl]
      show read _ (name ++ codePoint ';' :: markup tokens) = _
      rw [read_entity hx, ih hrest, List.nil_append]
    | char c =>
      show read _ (c :: markup tokens) = _
      rw [read, if_neg hx.1, if_neg hx.2, ih hrest]

/-! ### What is shown -/

/-- The entities of the characters that markup takes for its own. -/
def entities : List (Text × CodePoint) :=
  [("amp", codePoint '&'), ("lt", codePoint '<'), ("gt", codePoint '>'), ("quot", codePoint '"'),
    ("#39", codePoint '\'')]

def Token.shown : Token → Text
  | .tag _ => []
  | .entity name =>
    match entities.lookup name with
    | some c => [c]
    | none => (Token.entity name).write
  | .char c => [c]

/-- A text with its tags taken out and its entities decoded. -/
def shown (t : Text) : Text := (read .text t).flatMap Token.shown

/-- A character, escaped where it has to be. -/
def Token.ofChar (c : CodePoint) : Token :=
  match entities.find? fun e => e.2 = c with
  | some e => .entity e.1
  | none => .char c

theorem ofChar_cases (c : CodePoint) :
    (∃ e ∈ entities, e.2 = c ∧ Token.ofChar c = .entity e.1) ∨
      (∀ e ∈ entities, e.2 ≠ c) ∧ Token.ofChar c = .char c := by
  unfold Token.ofChar
  cases hfind : entities.find? fun e => e.2 = c with
  | some e =>
    have hc : e.2 = c := by simpa using List.find?_some hfind
    exact .inl ⟨e, List.mem_of_find?_eq_some hfind, hc, rfl⟩
  | none =>
    refine .inr ⟨fun e he hc => ?_, rfl⟩
    exact List.find?_eq_none.mp hfind e he (decide_eq_true hc)

theorem plain_ofChar (c : CodePoint) : (Token.ofChar c).Plain := by
  have hnames : ∀ e ∈ entities, codePoint ';' ∉ e.1 := by decide
  rcases ofChar_cases c with ⟨e, he, -, h⟩ | ⟨hnone, h⟩
  · rw [h]
    exact hnames e he
  · rw [h]
    exact ⟨fun hc => hnone ("lt", codePoint '<') (by decide) hc.symm,
      fun hc => hnone ("amp", codePoint '&') (by decide) hc.symm⟩

theorem shown_ofChar (c : CodePoint) : (Token.ofChar c).shown = [c] := by
  have hnames : ∀ e ∈ entities, entities.lookup e.1 = some e.2 := by decide
  rcases ofChar_cases c with ⟨e, he, hc, h⟩ | ⟨-, h⟩
  · rw [h, Token.shown, hnames e he, hc]
  · rw [h]
    rfl

/-! ### Tags -/

def Token.inside? : Token → Option Text
  | .tag inside => some inside
  | _ => none

def tags (t : Text) : List Text := (read .text t).filterMap Token.inside?

/-- Every tag opens, by what it says, or closes the last one that is open; at the end none is. -/
def Nested (opens : Text → Prop) (close : Text) : ℕ → List Text → Prop
  | depth, [] => depth = 0
  | depth, tag :: tags =>
    opens tag ∧ Nested opens close (depth + 1) tags ∨
      tag = close ∧ ∃ d, depth = d + 1 ∧ Nested opens close d tags

/-- Tags that are closed before the next one opens. -/
theorem nested_pairs {opens : Text → Prop} {close : Text} {l : List Text} (h : ∀ t ∈ l, opens t) :
    Nested opens close 0 (l.flatMap fun t => [t, close]) := by
  induction l with
  | nil => rfl
  | cons t l ih =>
    obtain ⟨ht, hrest⟩ := List.forall_mem_cons.mp h
    exact .inl ⟨ht, .inr ⟨rfl, 0, rfl, ih hrest⟩⟩

/-! ### Trailing blanks -/

/-- A character that `str.rstrip` takes. -/
def Token.blank : Token → Bool
  | .char c => isSpace c
  | _ => false

/-- Trailing blanks are trailing tokens: no tag and no entity ends in one. -/
theorem rstrip_markup (tokens : List Token) :
    Text.rstrip (markup tokens) = markup (tokens.rdropWhile Token.blank) := by
  induction tokens using List.reverseRecOn with
  | nil => rfl
  | append_singleton tokens x ih =>
    have hlast : markup (tokens ++ [x]) = markup tokens ++ x.write := by
      unfold markup
      rw [List.flatMap_append, List.flatMap_singleton]
    have hstop : ∀ (t : Text) {c : CodePoint}, isSpace c = false →
        Text.rstrip (t ++ [c]) = t ++ [c] := by
      intro t c hc
      exact List.rdropWhile_concat_neg _ _ _ (by rw [hc]; exact Bool.false_ne_true)
    cases x with
    | char c =>
      by_cases hc : isSpace c = true
      · rw [List.rdropWhile_concat_pos _ _ _ (show Token.blank (.char c) = true from hc), ← ih,
          hlast]
        exact List.rdropWhile_concat_pos _ _ _ hc
      · rw [List.rdropWhile_concat_neg _ _ _ (show ¬Token.blank (.char c) = true from hc), hlast]
        exact hstop _ (by simpa using hc)
    | tag inside =>
      rw [List.rdropWhile_concat_neg _ _ _ Bool.false_ne_true, hlast, Token.write,
        ← List.cons_append, ← List.append_assoc]
      exact hstop _ (by decide)
    | entity name =>
      rw [List.rdropWhile_concat_neg _ _ _ Bool.false_ne_true, hlast, Token.write,
        ← List.cons_append, ← List.append_assoc]
      exact hstop _ (by decide)

end Markup
