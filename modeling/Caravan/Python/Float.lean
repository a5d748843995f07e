import Caravan.Python.Text
import Mathlib.Data.Nat.Digits.Defs
import Mathlib.Data.Nat.Log
import Mathlib.Data.Rat.Floor

/-!
# Doubles, and how Python writes them

A finite double is `± m · 2 ^ e`. `repr` writes the shortest decimal that reads back
as the same double, the nearest of these; a plain decimal where its point stands close
to its digits, else one with an exponent.
-/

namespace Python

inductive Float where
  | finite (neg : Bool) (m : ℕ) (e : ℤ)
  | inf (neg : Bool)
  | nan

namespace Float

def isFinite : Float → Bool
  | .finite .. => true
  | _ => false

/-- The size of a finite double. -/
def size (m : ℕ) (e : ℤ) : ℚ := m * 2 ^ e

/-- To the nearest whole number, halves to the even one. -/
def roundEven (q : ℚ) : ℤ :=
  if q - ⌊q⌋ < 1 / 2 then ⌊q⌋
  else if 1 / 2 < q - ⌊q⌋ then ⌊q⌋ + 1
  else if ⌊q⌋ % 2 = 0 then ⌊q⌋ else ⌊q⌋ + 1

/-- The exponent of the last binary digit a double of this size has. -/
def lastBit (q : ℚ) : ℤ :=
  let e := (Nat.log2 q.num.toNat : ℤ) - Nat.log2 q.den
  let e := if q < 2 ^ e then e - 1 else e
  max (e - 52) (-1074)

/-- The double a decimal reads as. -/
def nearest (q : ℚ) : ℚ := roundEven (q / 2 ^ lastBit q) * 2 ^ lastBit q

/-- How many digits stand before the point. -/
def pointOf (q : ℚ) : ℤ :=
  let k := (Nat.log 10 q.num.toNat : ℤ) - Nat.log 10 q.den
  if q < 10 ^ k then k else k + 1

/-- The decimal of `n` digits that reads back as `q`. -/
def ofDigits? (q : ℚ) (n : ℕ) : Option (ℕ × ℤ) :=
  let k := pointOf q
  let scaled := q * 10 ^ ((n : ℤ) - k)
  let near := roundEven scaled
  let far := if near = ⌊scaled⌋ then near + 1 else ⌊scaled⌋
  let back (d : ℤ) : Bool := 0 < d && nearest (d * 10 ^ (k - n)) = q
  ([near, far].find? back).map fun d =>
    if d = 10 ^ n then (1, k + 1) else (d.toNat, k)

/-- The shortest digits of a double, and where its point stands. -/
def shortest (q : ℚ) : ℕ × ℤ := ((List.range' 1 17).findSome? (ofDigits? q)).getD (0, 0)

end Float

/-! ### Decimals -/

def digit (d : ℕ) : CodePoint := ⟨0x30 + d % 10, by omega⟩

/-- The decimal of a natural number. -/
def decimal (n : ℕ) : Text := if n = 0 then [digit 0] else ((Nat.digits 10 n).map digit).reverse

/-- `int.__repr__` -/
def intRepr (i : ℤ) : Text := (if i < 0 then Text.of "-" else []) ++ decimal i.natAbs

def zeros (n : ℕ) : Text := List.replicate n (digit 0)

/-- The exponent of a float: a sign and two digits at least. -/
def exponent (x : ℤ) : Text :=
  Text.of (if x < 0 then "e-" else "e+") ++ (if x.natAbs < 10 then [digit 0] else []) ++
    decimal x.natAbs

/-- The digits of `d` with the point after `point` of them. -/
def placed (d : ℕ) (point : ℤ) : Text :=
  let ds := decimal d
  if -4 < point ∧ point ≤ 16 then
    if point ≤ 0 then Text.of "0." ++ zeros (-point).toNat ++ ds
    else if ds.length ≤ point then ds ++ zeros (point.toNat - ds.length) ++ Text.of ".0"
    else ds.take point.toNat ++ Text.of "." ++ ds.drop point.toNat
  else
    ds.take 1 ++ (if ds.length = 1 then [] else Text.of "." ++ ds.drop 1) ++ exponent (point - 1)

/-- `float.__repr__` of a finite double. -/
def finiteRepr (neg : Bool) (m : ℕ) (e : ℤ) : Text :=
  let (d, point) := Float.shortest (Float.size m e)
  (if neg then Text.of "-" else []) ++ if m = 0 then Text.of "0.0" else placed d point

/-- `float.__repr__` -/
def floatRepr : Float → Text
  | .finite neg m e => finiteRepr neg m e
  | .inf neg => Text.of (if neg then "-inf" else "inf")
  | .nan => Text.of "nan"

/-- `int(x)` of a finite double. -/
def Float.trunc (neg : Bool) (m : ℕ) (e : ℤ) : ℤ :=
  let n : ℤ := if 0 ≤ e then m * 2 ^ e.toNat else m / 2 ^ (-e).toNat
  if neg then -n else n

end Python
