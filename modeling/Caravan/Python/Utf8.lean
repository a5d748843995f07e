import Caravan.Python.Text

/-!
# Reading UTF-8

`bytes.decode("utf-8", errors="replace")`: what is no character is replaced, up to where it could
still have become one. A text that was encoded is read back (`decodeUtf8_encode`).
-/

namespace Python

/-! ### One character -/

/-- A byte that goes on with a character. -/
def isTail (c : UInt8) : Bool := 0x80 ≤ c && c ≤ 0xBF

/-- The character that stands for what is none. -/
def REPLACEMENT : CodePoint := ⟨0xFFFD, by decide⟩

/-- A number as a code point. -/
def toCodePoint (n : ℕ) : CodePoint := Fin.ofNat 0x110000 n

/-- The bits that a byte adds. -/
def tailBits (c : UInt8) : ℕ := c.toNat - 0x80

/-- The second byte of a character of three or four, after the first. -/
def isSecond (c d : UInt8) : Bool :=
  isTail d && (c ≠ 0xE0 || 0xA0 ≤ d) && (c ≠ 0xED || d ≤ 0x9F) && (c ≠ 0xF0 || 0x90 ≤ d) &&
    (c ≠ 0xF4 || d ≤ 0x8F)

/-- The character that begins with a byte, and the number of bytes it has besides; a part of a
character is replaced with as many bytes as it could have. -/
def decodeChar (c : UInt8) (t : Bytes) : CodePoint × ℕ :=
  if c < 0x80 then (toCodePoint c.toNat, 0)
  else if 0xC2 ≤ c ∧ c ≤ 0xDF then
    match t with
    | d :: _ =>
      if isTail d then (toCodePoint ((c.toNat - 0xC0) * 0x40 + tailBits d), 1)
      else (REPLACEMENT, 0)
    | [] => (REPLACEMENT, 0)
  else if 0xE0 ≤ c ∧ c ≤ 0xEF then
    match t with
    | d :: t =>
      if isSecond c d then
        match t with
        | e :: _ =>
          if isTail e then
            (toCodePoint ((c.toNat - 0xE0) * 0x1000 + tailBits d * 0x40 + tailBits e), 2)
          else (REPLACEMENT, 1)
        | [] => (REPLACEMENT, 1)
      else (REPLACEMENT, 0)
    | [] => (REPLACEMENT, 0)
  else if 0xF0 ≤ c ∧ c ≤ 0xF4 then
    match t with
    | d :: t =>
      if isSecond c d then
        match t with
        | e :: t =>
          if isTail e then
            match t with
            | f :: _ =>
              if isTail f then
                (toCodePoint ((c.toNat - 0xF0) * 0x40000 + tailBits d * 0x1000 +
                  tailBits e * 0x40 + tailBits f), 3)
              else (REPLACEMENT, 2)
            | [] => (REPLACEMENT, 2)
          else (REPLACEMENT, 1)
        | [] => (REPLACEMENT, 1)
      else (REPLACEMENT, 0)
    | [] => (REPLACEMENT, 0)
  else (REPLACEMENT, 0)

/-- The text of the bytes behind so many. -/
def decodeFrom : ℕ → Bytes → Text
  | _, [] => []
  | n + 1, _ :: t => decodeFrom n t
  | 0, c :: t => (decodeChar c t).1 :: decodeFrom (decodeChar c t).2 t

/-- `bytes.decode("utf-8", errors="replace")` -/
def decodeUtf8 (b : Bytes) : Text := decodeFrom 0 b

/-! ### What was encoded -/

theorem decodeFrom_skip (b t : Bytes) : decodeFrom b.length (b ++ t) = decodeUtf8 t := by
  induction b with
  | nil => rfl
  | cons c b ih => exact ih

theorem isTail_iff {c : UInt8} : isTail c = true ↔ 0x80 ≤ c.toNat ∧ c.toNat ≤ 0xBF := by
  rw [isTail, Bool.and_eq_true, decide_eq_true_iff, decide_eq_true_iff, UInt8.le_iff_toNat_le,
    UInt8.le_iff_toNat_le]
  rfl

theorem isSecond_iff {c d : UInt8} :
    isSecond c d = true ↔ isTail d = true ∧ (c.toNat = 0xE0 → 0xA0 ≤ d.toNat) ∧
      (c.toNat = 0xED → d.toNat ≤ 0x9F) ∧ (c.toNat = 0xF0 → 0x90 ≤ d.toNat) ∧
      (c.toNat = 0xF4 → d.toNat ≤ 0x8F) := by
  unfold isSecond
  simp only [Bool.and_eq_true, Bool.or_eq_true, decide_eq_true_iff, UInt8.le_iff_toNat_le,
    ne_eq, ← UInt8.toNat_inj, and_assoc, ← imp_iff_not_or]
  rfl

theorem toNat_toUInt8 {n : ℕ} (h : n < 0x100) : n.toUInt8.toNat = n := Nat.mod_eq_of_lt h

theorem toCodePoint_val (c : CodePoint) : toCodePoint c.val = c :=
  Fin.ext (Nat.mod_eq_of_lt c.isLt)

theorem decodeChar_one {c : UInt8} (hc : c.toNat < 0x80) (t : Bytes) :
    decodeChar c t = (toCodePoint c.toNat, 0) := by
  unfold decodeChar
  rw [if_pos (UInt8.lt_iff_toNat_lt.mpr hc)]

theorem decodeChar_two {c d : UInt8} (hc : 0xC2 ≤ c.toNat ∧ c.toNat ≤ 0xDF)
    (hd : isTail d = true) (t : Bytes) :
    decodeChar c (d :: t) = (toCodePoint ((c.toNat - 0xC0) * 0x40 + tailBits d), 1) := by
  have hone : ¬ c < 0x80 := fun h => by
    have := UInt8.lt_iff_toNat_lt.mp h
    change c.toNat < 0x80 at this
    omega
  have htwo : 0xC2 ≤ c ∧ c ≤ 0xDF := hc.imp UInt8.le_iff_toNat_le.mpr UInt8.le_iff_toNat_le.mpr
  unfold decodeChar
  rw [if_neg hone, if_pos htwo]
  exact if_pos hd

theorem decodeChar_three {c d e : UInt8} (hc : 0xE0 ≤ c.toNat ∧ c.toNat ≤ 0xEF)
    (hd : isSecond c d = true) (he : isTail e = true) (t : Bytes) :
    decodeChar c (d :: e :: t) =
      (toCodePoint ((c.toNat - 0xE0) * 0x1000 + tailBits d * 0x40 + tailBits e), 2) := by
  have hone : ¬ c < 0x80 := fun h => by
    have := UInt8.lt_iff_toNat_lt.mp h
    change c.toNat < 0x80 at this
    omega
  have htwo : ¬ (0xC2 ≤ c ∧ c ≤ 0xDF) := fun h => by
    have := UInt8.le_iff_toNat_le.mp h.2
    change c.toNat ≤ 0xDF at this
    omega
  have hthree : 0xE0 ≤ c ∧ c ≤ 0xEF := hc.imp UInt8.le_iff_toNat_le.mpr UInt8.le_iff_toNat_le.mpr
  unfold decodeChar
  rw [if_neg hone, if_neg htwo, if_pos hthree]
  dsimp only
  rw [if_pos hd, if_pos he]

theorem decodeChar_four {c d e f : UInt8} (hc : 0xF0 ≤ c.toNat ∧ c.toNat ≤ 0xF4)
    (hd : isSecond c d = true) (he : isTail e = true) (hf : isTail f = true) (t : Bytes) :
    decodeChar c (d :: e :: f :: t) =
      (toCodePoint ((c.toNat - 0xF0) * 0x40000 + tailBits d * 0x1000 + tailBits e * 0x40 +
        tailBits f), 3) := by
  have hone : ¬ c < 0x80 := fun h => by
    have := UInt8.lt_iff_toNat_lt.mp h
    change c.toNat < 0x80 at this
    omega
  have htwo : ¬ (0xC2 ≤ c ∧ c ≤ 0xDF) := fun h => by
    have := UInt8.le_iff_toNat_le.mp h.2
    change c.toNat ≤ 0xDF at this
    omega
  have hthree : ¬ (0xE0 ≤ c ∧ c ≤ 0xEF) := fun h => by
    have := UInt8.le_iff_toNat_le.mp h.2
    change c.toNat ≤ 0xEF at this
    omega
  have hfour : 0xF0 ≤ c ∧ c ≤ 0xF4 := hc.imp UInt8.le_iff_toNat_le.mpr UInt8.le_iff_toNat_le.mpr
  unfold decodeChar
  rw [if_neg hone, if_neg htwo, if_neg hthree, if_pos hfour]
  dsimp only
  rw [if_pos hd, if_pos he, if_pos hf]

/-- **A character that was encoded** is read, with the bytes it has. -/
theorem decodeChar_encode {c : CodePoint} {b : Bytes} (h : encodeChar c = some b) :
    ∃ d r, b = d :: r ∧ ∀ t, decodeChar d (r ++ t) = (c, r.length) := by
  have hc := c.isLt
  unfold encodeChar at h
  dsimp only at h
  have htail (k : ℕ) : (0x80 + k % 0x40).toUInt8.toNat = 0x80 + k % 0x40 :=
    toNat_toUInt8 (by omega)
  have hisTail (k : ℕ) : isTail (0x80 + k % 0x40).toUInt8 = true := by
    rw [isTail_iff, htail]
    omega
  have hbits (k : ℕ) : tailBits (0x80 + k % 0x40).toUInt8 = k % 0x40 := by
    unfold tailBits
    rw [htail]
    exact Nat.add_sub_cancel_left _ _
  split at h
  · -- one byte
    obtain rfl := Option.some.inj h
    have hlead : c.val.toUInt8.toNat = c.val := toNat_toUInt8 (by omega)
    refine ⟨_, _, rfl, fun t => ?_⟩
    rw [decodeChar_one (by omega), hlead, toCodePoint_val]
    rfl
  split at h
  · -- two bytes
    obtain rfl := Option.some.inj h
    have hlead : (0xC0 + c.val / 0x40).toUInt8.toNat = 0xC0 + c.val / 0x40 :=
      toNat_toUInt8 (by omega)
    refine ⟨_, _, rfl, fun t => ?_⟩
    rw [List.cons_append, decodeChar_two (by omega) (hisTail _), hlead, hbits,
      show (0xC0 + c.val / 0x40 - 0xC0) * 0x40 + c.val % 0x40 = c.val by omega, toCodePoint_val]
    rfl
  split at h
  · cases h
  next hsurrogate =>
  have hrange : ¬ (0xD800 ≤ c.val ∧ c.val ≤ 0xDFFF) := by
    simpa [isSurrogate] using hsurrogate
  split at h
  · -- three bytes
    obtain rfl := Option.some.inj h
    have hlead : (0xE0 + c.val / 0x1000).toUInt8.toNat = 0xE0 + c.val / 0x1000 :=
      toNat_toUInt8 (by omega)
    have hsecond : isSecond (0xE0 + c.val / 0x1000).toUInt8
        (0x80 + c.val / 0x40 % 0x40).toUInt8 = true := by
      rw [isSecond_iff, hlead, htail]
      exact ⟨hisTail _, by omega, by omega, by omega, by omega⟩
    refine ⟨_, _, rfl, fun t => ?_⟩
    rw [List.cons_append, List.cons_append, decodeChar_three (by omega) hsecond (hisTail _), hlead,
      hbits, hbits, show (0xE0 + c.val / 0x1000 - 0xE0) * 0x1000 + c.val / 0x40 % 0x40 * 0x40 +
        c.val % 0x40 = c.val by omega, toCodePoint_val]
    rfl
  · -- four bytes
    obtain rfl := Option.some.inj h
    have hlead : (0xF0 + c.val / 0x40000).toUInt8.toNat = 0xF0 + c.val / 0x40000 :=
      toNat_toUInt8 (by omega)
    have hsecond : isSecond (0xF0 + c.val / 0x40000).toUInt8
        (0x80 + c.val / 0x1000 % 0x40).toUInt8 = true := by
      rw [isSecond_iff, hlead, htail]
      exact ⟨hisTail _, by omega, by omega, by omega, by omega⟩
    refine ⟨_, _, rfl, fun t => ?_⟩
    rw [List.cons_append, List.cons_append, List.cons_append,
      decodeChar_four (by omega) hsecond (hisTail _) (hisTail _), hlead, hbits, hbits, hbits,
      show (0xF0 + c.val / 0x40000 - 0xF0) * 0x40000 + c.val / 0x1000 % 0x40 * 0x1000 +
        c.val / 0x40 % 0x40 * 0x40 + c.val % 0x40 = c.val by omega, toCodePoint_val]
    rfl

/-- **What was encoded is read back.** -/
theorem decodeUtf8_encode {t : Text} {b : Bytes} (h : encodeUtf8 t = some b) :
    decodeUtf8 b = t := by
  induction t generalizing b with
  | nil =>
    obtain rfl := Option.some.inj h
    rfl
  | cons c t ih =>
    obtain ⟨bc, hbc, h⟩ := Option.bind_eq_some_iff.mp h
    obtain ⟨bt, hbt, h⟩ := Option.bind_eq_some_iff.mp h
    obtain rfl := Option.some.inj h
    obtain ⟨d, r, rfl, hchar⟩ := decodeChar_encode hbc
    rw [decodeUtf8, List.cons_append, decodeFrom, hchar, decodeFrom_skip, ih hbt]

end Python
