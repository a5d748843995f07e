import Caravan.Python.Json

/-!
# `json.dumps` on one line

`json.dumps(v)` without any argument: one line, and nothing but ASCII in it.
-/

namespace Python

/-- One character as `ensure_ascii` writes it: beyond the printed ones of ASCII by its number, and
beyond the first plane by two. -/
def asciiChar (c : CodePoint) : Text :=
  if c = codePoint '"' then Text.of "\\\""
  else if c = codePoint '\\' then Text.of "\\\\"
  else if c.val = 0x08 then Text.of "\\b"
  else if c.val = 0x0C then Text.of "\\f"
  else if c = codePoint '\n' then Text.of "\\n"
  else if c = codePoint '\r' then Text.of "\\r"
  else if c = codePoint '\t' then Text.of "\\t"
  else if 0x20 ≤ c.val ∧ c.val ≤ 0x7E then [c]
  else if c.val < 0x10000 then Text.of "\\u" ++ hex 4 c.val
  else
    let v := c.val - 0x10000
    Text.of "\\u" ++ hex 4 (0xD800 + v / 0x400) ++ (Text.of "\\u" ++ hex 4 (0xDC00 + v % 0x400))

def asciiText (t : Text) : Text := Text.of "\"" ++ t.flatMap asciiChar ++ Text.of "\""

mutual

/-- `json.dumps(v)` -/
def compact : Value → Text
  | .null => Text.of "null"
  | .bool b => Text.of (if b then "true" else "false")
  | .int i => intRepr i
  | .float x => dumpsFloat x
  | .str t => asciiText t
  | .list vs => Text.of "[" ++ compactList vs ++ Text.of "]"
  | .dict kvs => Text.of "\x7b" ++ compactDict kvs ++ Text.of "\x7d"

def compactList : List Value → Text
  | [] => []
  | v :: vs => compact v ++ (if vs.isEmpty then [] else Text.of ", ") ++ compactList vs

def compactDict : List (Text × Value) → Text
  | [] => []
  | (k, v) :: kvs => asciiText k ++ Text.of ": " ++ compact v ++
      (if kvs.isEmpty then [] else Text.of ", ") ++ compactDict kvs

end

example : compact (.dict [(Text.of "a", .list [.int 1, .null]), (Text.of "b", "ü\n")]) =
    Text.of "\x7b\"a\": [1, null], \"b\": \"\\u00fc\\n\"\x7d" := by decide

end Python
