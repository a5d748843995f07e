import Caravan.Python.Text

/-!
# Numbers as bytes, the highest first

`int.from_bytes(b, "big")` and `int.to_bytes(size, "big")`.
-/

namespace Python

/-- `int.from_bytes(bytes, "big")` -/
def fromBytes (bytes : Bytes) : ℕ := bytes.foldl (fun n b => 256 * n + b.toNat) 0

/-- `n.to_bytes(size, "big")`, of a number that fits. -/
def toBytes : ℕ → ℕ → Bytes
  | 0, _ => []
  | size + 1, n => toBytes size (n / 256) ++ [(n % 256).toUInt8]

theorem length_toBytes (size n : ℕ) : (toBytes size n).length = size := by
  induction size generalizing n with
  | zero => rfl
  | succ size ih =>
    unfold toBytes
    rw [List.length_append, ih]
    rfl

theorem fromBytes_snoc (bytes : Bytes) (b : UInt8) :
    fromBytes (bytes ++ [b]) = 256 * fromBytes bytes + b.toNat := by
  unfold fromBytes
  rw [List.foldl_append]
  rfl

/-- **A number is read back** from as many bytes as it fits in. -/
theorem fromBytes_toBytes {size n : ℕ} (h : n < 256 ^ size) : fromBytes (toBytes size n) = n := by
  induction size generalizing n with
  | zero =>
    rw [Nat.lt_one_iff.mp h]
    rfl
  | succ size ih =>
    have hlow : (n % 256).toUInt8.toNat = n % 256 :=
      Nat.mod_eq_of_lt (Nat.mod_lt n (by decide))
    have hhigh : n / 256 < 256 ^ size := by
      rw [Nat.div_lt_iff_lt_mul (by decide), ← Nat.pow_succ]
      exact h
    unfold toBytes
    rw [fromBytes_snoc, ih hhigh, hlow]
    exact Nat.div_add_mod n 256

end Python
