import Caravan.Python.Dict
import Caravan.Python.Json

/-!
# `json.loads`

The reader of `json`: `value` reads one value at the head of a text and gives what is behind it,
`loads` a whole text. A container is read with what reads the level below it, so that `nesting`
counts the levels and the recursion is over it. Of repeated keys the last one stands, in the place
of the first. `NaN` and the infinities are read too, as Python does.

`float(s)` is a parameter, and so is the limit that `int(s)` sets to the digits.
-/

namespace Python.Loads

/-- `Whitespace` -/
def isBlank (c : CodePoint) : Bool :=
  c = codePoint ' ' || c = codePoint '\t' || c = codePoint '\n' || c = codePoint '\r'

def skip (t : Text) : Text := t.dropWhile isBlank

def quote : CodePoint := codePoint '"'

def backslash : CodePoint := codePoint '\\'

/-! ### Strings -/

/-- A character of a string's text, and whether it comes from a number behind a `\u`. -/
abbrev Unit := Bool × CodePoint

/-- The value of a digit of base sixteen, in either case. -/
def hexVal (c : CodePoint) : Option ℕ :=
  if 0x30 ≤ c.val ∧ c.val ≤ 0x39 then some (c.val - 0x30)
  else if 0x41 ≤ c.val ∧ c.val ≤ 0x46 then some (c.val - 0x37)
  else if 0x61 ≤ c.val ∧ c.val ≤ 0x66 then some (c.val - 0x57)
  else none

/-- `_decode_uXXXX` -/
def hex4 (a b c d : CodePoint) : Option CodePoint := do
  let a ← hexVal a
  let b ← hexVal b
  let c ← hexVal c
  let d ← hexVal d
  return Fin.ofNat 0x110000 (((a * 16 + b) * 16 + c) * 16 + d)

/-- `BACKSLASH` -/
def unescape (c : CodePoint) : Option CodePoint :=
  if c = quote ∨ c = backslash ∨ c = codePoint '/' then some c
  else if c = codePoint 'b' then some 0x08
  else if c = codePoint 'f' then some 0x0C
  else if c = codePoint 'n' then some (codePoint '\n')
  else if c = codePoint 'r' then some (codePoint '\r')
  else if c = codePoint 't' then some (codePoint '\t')
  else none

/-- The characters up to the closing quote. -/
def units : Text → Option (List Unit × Text)
  | [] => none
  | c :: t =>
    if c = quote then some ([], t)
    else if c = backslash then
      match t with
      | [] => none
      | e :: t =>
        if e = codePoint 'u' then
          match t with
          | h₀ :: h₁ :: h₂ :: h₃ :: t =>
            match hex4 h₀ h₁ h₂ h₃ with
            | some n => (units t).map fun p => ((true, n) :: p.1, p.2)
            | none => none
          | _ => none
        else
          match unescape e with
          | some d => (units t).map fun p => ((false, d) :: p.1, p.2)
          | none => none
    else if c.val < 0x20 then none
    else (units t).map fun p => ((false, c) :: p.1, p.2)

def isHigh (c : CodePoint) : Bool := 0xD800 ≤ c.val && c.val ≤ 0xDBFF

def isLow (c : CodePoint) : Bool := 0xDC00 ≤ c.val && c.val ≤ 0xDFFF

/-- The character of a pair of UTF-16. -/
def joined (h l : CodePoint) : CodePoint :=
  Fin.ofNat 0x110000 (0x10000 + (h.val - 0xD800) * 0x400 + (l.val - 0xDC00))

/-- The text: two numbers that are a pair make one character. -/
def join : List Unit → Text
  | [] => []
  | [(_, c)] => [c]
  | (true, h) :: (true, l) :: us =>
    if isHigh h && isLow l then joined h l :: join us else h :: join ((true, l) :: us)
  | (_, c) :: u :: us => c :: join (u :: us)

/-- `scanstring`, behind the opening quote. -/
def string (t : Text) : Except Error (Text × Text) :=
  match units t with
  | some (us, t) => .ok (join us, t)
  | none => .error .value

/-! ### Numbers -/

def isDigit (c : CodePoint) : Bool := 0x30 ≤ c.val && c.val ≤ 0x39

def digitsVal (ds : Text) : ℕ := ds.foldl (fun n c => 10 * n + (c.val - 0x30)) 0

/-- `(?:0|[1-9][0-9]*)` -/
def intPart : Text → Text
  | [] => []
  | c :: t =>
    if c = digit 0 then [c] else if isDigit c then c :: t.takeWhile isDigit else []

/-- `(\.[0-9]+)?` -/
def fracPart : Text → Text
  | [] => []
  | c :: t =>
    let ds := t.takeWhile isDigit
    if c = codePoint '.' ∧ ds ≠ [] then c :: ds else []

/-- `[-+]?` -/
def signPart : Text → Text
  | [] => []
  | c :: _ => if c = codePoint '-' ∨ c = codePoint '+' then [c] else []

/-- `([eE][-+]?[0-9]+)?` -/
def expPart : Text → Text
  | [] => []
  | c :: t =>
    let sign := signPart t
    let ds := (t.drop sign.length).takeWhile isDigit
    if (c = codePoint 'e' ∨ c = codePoint 'E') ∧ ds ≠ [] then c :: (sign ++ ds) else []

section

variable (toFloat : Text → Float)

/-- `_match_number` -/
def number (t : Text) : Option (Value × Text) :=
  let minus := if t.head? = some (codePoint '-') then [codePoint '-'] else []
  let t := t.drop minus.length
  let int := intPart t
  if int = [] then none
  else
    let t := t.drop int.length
    let frac := fracPart t
    let t := t.drop frac.length
    let exp := expPart t
    let t := t.drop exp.length
    if frac = [] ∧ exp = [] then
      let n : ℤ := digitsVal int
      some (.int (if minus = [] then n else -n), t)
    else some (.float (toFloat (minus ++ int ++ frac ++ exp)), t)

/-- The words that are values, before and behind the numbers in `scan_once`. -/
def word (words : List (Text × Value)) (t : Text) : Option (Value × Text) :=
  (words.find? fun p => p.1.isPrefixOf t).map fun p => (p.2, t.drop p.1.length)

/-! ### Containers -/

/-- The items of a list, behind its bracket; no more turns than there are characters. -/
def elements (value : Text → Except Error (Value × Text)) :
    ℕ → Text → Except Error (List Value × Text)
  | 0, _ => .error .value
  | fuel + 1, t => do
    let (v, t) ← value t
    match skip t with
    | [] => .error .value
    | c :: t =>
      if c = codePoint ']' then return ([v], t)
      else if c = codePoint ',' then do
        let (vs, t) ← elements value fuel (skip t)
        return (v :: vs, t)
      else .error .value

/-- The pairs of an object, behind its brace. -/
def members (value : Text → Except Error (Value × Text)) :
    ℕ → Text → Except Error (List (Text × Value) × Text)
  | 0, _ => .error .value
  | _, [] => .error .value
  | fuel + 1, q :: t =>
    if q ≠ quote then .error .value
    else do
      let (k, t) ← string t
      match skip t with
      | [] => .error .value
      | colon :: t =>
        if colon ≠ codePoint ':' then .error .value
        else do
          let (v, t) ← value (skip t)
          match skip t with
          | [] => .error .value
          | c :: t =>
            if c = codePoint '\x7d' then return ([(k, v)], t)
            else if c = codePoint ',' then do
              let (kvs, t) ← members value fuel (skip t)
              return ((k, v) :: kvs, t)
            else .error .value

/-- An integer of more digits than `int(s)` takes. -/
def tooLong (limit : Option ℕ) (t : Text) : Value × Text → Bool
  | (.int _, rest) =>
    limit.any fun n => n < (t.dropWhile (· = codePoint '-')).length - rest.length
  | _ => false

variable (limit : Option ℕ)

/-- A value that is no container. -/
def atom (t : Text) : Except Error (Value × Text) :=
  match word [(Text.of "null", .null), (Text.of "true", .bool true), (Text.of "false", .bool false)]
      t with
  | some r => .ok r
  | none => match number toFloat t with
    | some r => if tooLong limit t r then .error .value else .ok r
    | none => match word [(Text.of "NaN", .float .nan), (Text.of "Infinity", .float (.inf false)),
        (Text.of "-Infinity", .float (.inf true))] t with
      | some r => .ok r
      | none => .error .value

/-- `scan_once`, with what reads the level below, if there may be one. -/
def scan (below : Option (Text → Except Error (Value × Text))) :
    Text → Except Error (Value × Text)
  | [] => .error .value
  | c :: t =>
    if c = quote then do
      let (s, t) ← string t
      return (.str s, t)
    else if c = codePoint '\x7b' then
      match below with
      | none => .error .recursion
      | some value =>
        match skip t with
        | [] => .error .value
        | d :: u =>
          if d = codePoint '\x7d' then return (.dict [], u)
          else do
            let (kvs, t) ← members value t.length (d :: u)
            return (.dict (Dict.update [] kvs), t)
    else if c = codePoint '[' then
      match below with
      | none => .error .recursion
      | some value =>
        match skip t with
        | [] => .error .value
        | d :: u =>
          if d = codePoint ']' then return (.list [], u)
          else do
            let (vs, t) ← elements value t.length (d :: u)
            return (.list vs, t)
    else atom toFloat limit (c :: t)

/-- One value, of no more levels than `nesting`. -/
def value : ℕ → Text → Except Error (Value × Text)
  | 0 => scan toFloat limit none
  | nesting + 1 => scan toFloat limit (some (value nesting))

/-- `json.loads(t)` -/
def loads (nesting : ℕ) (t : Text) : Except Error Value := do
  let (v, rest) ← value toFloat limit nesting (skip t)
  if skip rest = [] then return v else .error .value

end

end Python.Loads
