import Caravan.Python.Float

/-!
# The values of a JSON document in Python

What `json.loads` makes, with the operations the programs use on such values: a
dictionary's `get` and `update`, truth, `str()` and `int()`. What the interpreter
decides for itself (its limits of nesting, its table of characters) is an `Interp`.
-/

namespace Python

inductive Value where
  | null
  | bool (b : Bool)
  | int (i : ℤ)
  | float (x : Float)
  | str (t : Text)
  | list (vs : List Value)
  | dict (kvs : List (Text × Value))
  deriving Inhabited

instance : Coe String Value := ⟨fun s => .str (Text.of s)⟩

abbrev Dict := List (Text × Value)

/-- What a program meets instead of a value. -/
inductive Error where
  | recursion
  | type
  | value
  | overflow
  | unicodeEncode
  | unhashable
  deriving DecidableEq, Repr

/-- An interpreter, as far as its programs can tell one from another. -/
structure Interp where
  /-- `str.isprintable` of one character. -/
  printable : CodePoint → Bool
  surrogate : ∀ c, isSurrogate c = true → printable c = false
  /-- The value of a character that is a decimal digit. -/
  digit : CodePoint → Option (Fin 10)
  /-- The nesting `repr` takes. -/
  reprNesting : ℕ
  /-- The nesting `json.dumps` with an indent takes: hundreds of levels. -/
  dumpsNesting : ℕ
  room : 100 ≤ dumpsNesting

/-! ### Dictionaries -/

namespace Dict

/-- `d.get(k)`, where a missing key and `None` are the same. -/
def get (d : Dict) (k : Text) : Value := (d.lookup k).getD .null

def has (d : Dict) (k : Text) : Bool := (d.lookup k).isSome

/-- `d[k] = v`: a key that is there keeps its place. -/
def set (d : Dict) (k : Text) (v : Value) : Dict :=
  if d.has k then d.map fun p => if p.1 = k then (k, v) else p else d ++ [(k, v)]

/-- `if c: d[k] = v` -/
def setIf (d : Dict) (c : Bool) (k : Text) (v : Value) : Dict := if c then d.set k v else d

/-- `d.update(patch)` -/
def update (d patch : Dict) : Dict := patch.foldl (fun d p => d.set p.1 p.2) d

end Dict

namespace Value

/-- `bool(v)` -/
def truthy : Value → Bool
  | .null => false
  | .bool b => b
  | .int i => i ≠ 0
  | .float (.finite _ m _) => m ≠ 0
  | .float _ => true
  | .str t => t ≠ []
  | .list vs => !vs.isEmpty
  | .dict kvs => !kvs.isEmpty

/-- `a or b` -/
def or (a b : Value) : Value := if a.truthy then a else b

/-- The dictionary, or an empty one: `v if isinstance(v, dict) else {}`. -/
def asDict : Value → Dict
  | .dict d => d
  | _ => []

def asList : Value → List Value
  | .list vs => vs
  | _ => []

def isDict : Value → Bool
  | .dict _ => true
  | _ => false

/-- The keys of a dictionary, the items of a list and the characters of a text:
`for x in v`. -/
def iter : Value → Except Error (List Value)
  | .list vs => .ok vs
  | .dict kvs => .ok (kvs.map fun p => .str p.1)
  | .str t => .ok (t.map fun c => .str [c])
  | _ => .error .type

mutual

/-- How many containers stand around the deepest value. -/
def depth : Value → ℕ
  | .list vs => depthList vs + 1
  | .dict kvs => depthDict kvs + 1
  | _ => 0

def depthList : List Value → ℕ
  | [] => 0
  | v :: vs => max v.depth (depthList vs)

def depthDict : List (Text × Value) → ℕ
  | [] => 0
  | (_, v) :: kvs => max v.depth (depthDict kvs)

end

section

variable (p : Text → Bool) (q : Float → Bool)

mutual

/-- `p` of every string and key, and `q` of every float. -/
def all : Value → Bool
  | .str t => p t
  | .float x => q x
  | .list vs => allList vs
  | .dict kvs => allDict kvs
  | _ => true

def allList : List Value → Bool
  | [] => true
  | v :: vs => v.all && allList vs

def allDict : List (Text × Value) → Bool
  | [] => true
  | (k, v) :: kvs => p k && v.all && allDict kvs

end

end

mutual

theorem all_imp {p p' : Text → Bool} {q q' : Float → Bool} (hp : ∀ t, p t → p' t)
    (hq : ∀ x, q x → q' x) : ∀ v : Value, v.all p q → v.all p' q'
  | .null, _ | .bool _, _ | .int _, _ => rfl
  | .float x, h => hq x h
  | .str t, h => hp t h
  | .list vs, h => allList_imp hp hq vs h
  | .dict kvs, h => allDict_imp hp hq kvs h

theorem allList_imp {p p' : Text → Bool} {q q' : Float → Bool} (hp : ∀ t, p t → p' t)
    (hq : ∀ x, q x → q' x) : ∀ vs, allList p q vs → allList p' q' vs
  | [], _ => rfl
  | v :: vs, h => by
    rw [allList, Bool.and_eq_true] at h ⊢
    exact ⟨all_imp hp hq v h.1, allList_imp hp hq vs h.2⟩

theorem allDict_imp {p p' : Text → Bool} {q q' : Float → Bool} (hp : ∀ t, p t → p' t)
    (hq : ∀ x, q x → q' x) : ∀ kvs, allDict p q kvs → allDict p' q' kvs
  | [], _ => rfl
  | (k, v) :: kvs, h => by
    rw [allDict, Bool.and_eq_true, Bool.and_eq_true] at h ⊢
    exact ⟨⟨hp k h.1.1, all_imp hp hq v h.1.2⟩, allDict_imp hp hq kvs h.2⟩

end

/-- No lone surrogate. -/
def encodable (v : Value) : Bool := v.all (fun t => decide t.Encodable) fun _ => true

/-- A value that can be written: no lone surrogate, no `NaN` and no infinity. -/
def clean (v : Value) : Bool := v.all (fun t => decide t.Encodable) Float.isFinite

end Value

/-! ### `repr` and `str` -/

def hexDigit (d : ℕ) : CodePoint :=
  if d % 16 < 10 then ⟨0x30 + d % 16, by omega⟩ else ⟨0x57 + d % 16, by omega⟩

/-- The last `n` hexadecimal digits. -/
def hex : ℕ → ℕ → Text
  | 0, _ => []
  | n + 1, x => hex n (x / 16) ++ [hexDigit x]

variable (I : Interp)

/-- One character of a text in `repr`, between quotes `q`. -/
def reprChar (q c : CodePoint) : Text :=
  if c = q ∨ c = codePoint '\\' then [codePoint '\\', c]
  else if c = codePoint '\t' then Text.of "\\t"
  else if c = codePoint '\n' then Text.of "\\n"
  else if c = codePoint '\r' then Text.of "\\r"
  else if 0x20 ≤ c.val ∧ c.val < 0x7F then [c]
  else if I.printable c then [c]
  else if c.val < 0x100 then Text.of "\\x" ++ hex 2 c.val
  else if c.val < 0x10000 then Text.of "\\u" ++ hex 4 c.val
  else Text.of "\\U" ++ hex 8 c.val

/-- `str.__repr__`: double quotes only for a text with single ones and no double. -/
def reprText (t : Text) : Text :=
  let q := if codePoint '\'' ∈ t ∧ codePoint '"' ∉ t then codePoint '"' else codePoint '\''
  [q] ++ t.flatMap (reprChar I q) ++ [q]

mutual

def reprValue : Value → Text
  | .null => Text.of "None"
  | .bool b => Text.of (if b then "True" else "False")
  | .int i => intRepr i
  | .float x => floatRepr x
  | .str t => reprText I t
  | .list vs => Text.of "[" ++ reprList vs ++ Text.of "]"
  | .dict kvs => Text.of "\x7b" ++ reprDict kvs ++ Text.of "\x7d"

def reprList : List Value → Text
  | [] => []
  | v :: vs => reprValue v ++ (if vs.isEmpty then [] else Text.of ", ") ++ reprList vs

def reprDict : List (Text × Value) → Text
  | [] => []
  | (k, v) :: kvs => reprText I k ++ Text.of ": " ++ reprValue v ++
      (if kvs.isEmpty then [] else Text.of ", ") ++ reprDict kvs

end

/-- `str(v)` -/
def strOf : Value → Except Error Text
  | .str t => .ok t
  | v => if v.depth ≤ I.reprNesting then .ok (reprValue I v) else .error .recursion

/-! ### `int` -/

/-- The digits of a number, with one underscore between two of them at most. -/
def digitsOf : Text → Option (List (Fin 10))
  | [] => none
  | [c] => (I.digit c).map ([·])
  | c :: c' :: cs => do
    let d ← I.digit c
    let ds ← if c' = codePoint '_' then digitsOf cs else digitsOf (c' :: cs)
    return d :: ds

/-- The digits `int()` and `json.loads` take in one number. -/
def MAX_STR_DIGITS : ℕ := 4300

/-- `int(s)` -/
def intOfText (t : Text) : Except Error ℤ :=
  let t := t.strip
  let (neg, ds) := match t with
    | c :: cs =>
      if c = codePoint '-' then (true, cs)
      else if c = codePoint '+' then (false, cs) else (false, c :: cs)
    | [] => (false, [])
  match digitsOf I ds with
  | some ds =>
    if ds.length ≤ MAX_STR_DIGITS then
      let n : ℤ := ds.foldl (fun n d => 10 * n + d.val) 0
      .ok (if neg then -n else n)
    else .error .value
  | none => .error .value

/-- `int(v)` -/
def intOf : Value → Except Error ℤ
  | .int i => .ok i
  | .bool b => .ok (if b then 1 else 0)
  | .float (.finite neg m e) => .ok (Float.trunc neg m e)
  | .float (.inf _) => .error .overflow
  | .float .nan => .error .value
  | .str t => intOfText I t
  | _ => .error .type

end Python
