import Caravan.Python.Compact

/-!
# `json.dumps` on one line, by its options

Two options say how a value is written on one line: how a string is, and what stands behind a
comma and a colon. `json.dumps(v)` is one choice of them (`compact_eq`), the lines of a journal are
another.
-/

namespace Python

/-- How a string is written, and what stands behind a comma and a colon. -/
structure Style where
  text : Text → Text
  gap : Text

namespace Style

/-- `json.dumps(v)` -/
def ascii : Style := ⟨asciiText, Text.of " "⟩

/-- `json.dumps(v, ensure_ascii=False, separators=(",", ":"))` -/
def raw : Style := ⟨dumpsText, []⟩

variable (s : Style)

/-- A comma, if something comes behind it. -/
def comma (last : Bool) : Text := if last then [] else codePoint ',' :: s.gap

mutual

/-- A value on one line. -/
def write : Value → Text
  | .null => Text.of "null"
  | .bool b => Text.of (if b then "true" else "false")
  | .int i => intRepr i
  | .float x => dumpsFloat x
  | .str t => s.text t
  | .list vs => codePoint '[' :: (writeList vs ++ [codePoint ']'])
  | .dict kvs => codePoint '\x7b' :: (writeDict kvs ++ [codePoint '\x7d'])

def writeList : List Value → Text
  | [] => []
  | v :: vs => write v ++ s.comma vs.isEmpty ++ writeList vs

def writeDict : List (Text × Value) → Text
  | [] => []
  | (k, v) :: kvs =>
    s.text k ++ codePoint ':' :: s.gap ++ write v ++ s.comma kvs.isEmpty ++ writeDict kvs

end

/-- A value stands in the line of the dictionary that has it. -/
theorem write_infix {kvs : List (Text × Value)} {k : Text} {v : Value} (h : (k, v) ∈ kvs) :
    s.write v <:+: s.write (.dict kvs) := by
  have hpairs : s.write v <:+: s.writeDict kvs := by
    induction kvs with
    | nil => cases h
    | cons p kvs ih =>
      obtain ⟨k', v'⟩ := p
      rw [writeDict]
      rcases List.mem_cons.mp h with heq | h
      · obtain ⟨rfl, rfl⟩ := Prod.mk.inj heq
        rw [List.append_assoc, List.append_assoc]
        exact (List.infix_append _ _ _).trans (by rw [List.append_assoc, List.append_assoc])
      · exact (ih h).trans (List.suffix_append _ _).isInfix
  rw [write]
  exact (hpairs.trans (List.prefix_append _ _).isInfix).trans (List.suffix_cons _ _).isInfix

end Style

example : Style.raw.write (.dict [(Text.of "a", .list [.int 1, .null]), (Text.of "b", "ü\n")]) =
    Text.of "\x7b\"a\":[1,null],\"b\":\"ü\\n\"\x7d" := by decide

theorem comma_ascii (last : Bool) :
    Style.ascii.comma last = if last then [] else Text.of ", " := rfl

mutual

/-- `json.dumps(v)` is the style that keeps to ASCII and leaves blanks. -/
theorem compact_eq : ∀ v : Value, compact v = Style.ascii.write v
  | .null => by rw [compact, Style.write]
  | .bool b => by rw [compact, Style.write]
  | .int i => by rw [compact, Style.write]
  | .float x => by rw [compact, Style.write]
  | .str t => by rw [compact, Style.write]; rfl
  | .list vs => by
    rw [compact, Style.write, compactList_eq vs, List.append_assoc]
    rfl
  | .dict kvs => by
    rw [compact, Style.write, compactDict_eq kvs, List.append_assoc]
    rfl

theorem compactList_eq : ∀ vs : List Value, compactList vs = Style.ascii.writeList vs
  | [] => by rw [compactList, Style.writeList]
  | v :: vs => by rw [compactList, Style.writeList, compact_eq v, compactList_eq vs, comma_ascii]

theorem compactDict_eq : ∀ kvs : List (Text × Value), compactDict kvs = Style.ascii.writeDict kvs
  | [] => by rw [compactDict, Style.writeDict]
  | (k, v) :: kvs => by
    rw [compactDict, Style.writeDict, compact_eq v, compactDict_eq kvs, comma_ascii]
    rfl

end

end Python
