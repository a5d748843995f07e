import Mathlib.Data.List.DropRight
import Mathlib.Data.List.Lex
import Mathlib.Order.Fin.Basic
import Mathlib.Algebra.GroupWithZero.Nat

/-!
# Texts as Python keeps them

A `str` is a sequence of code points, and a lone surrogate is one of them: `json.loads`
makes one of an escape such as a reversed pair. `Char` leaves the surrogates out, so a
text is a list of numbers below `0x110000` here, and `encodeUtf8` fails where
`str.encode("utf-8")` raises.
-/

namespace Python

abbrev CodePoint := Fin 0x110000

abbrev Text := List CodePoint

instance CodePoint.neZero : NeZero 0x110000 := ⟨by decide⟩

instance CodePoint.lawfulBEq : LawfulBEq CodePoint := inferInstance

instance Text.lawfulBEq : LawfulBEq Text := inferInstance

def codePoint (c : Char) : CodePoint :=
  ⟨c.toNat, by
    have := c.valid
    unfold UInt32.isValidChar Nat.isValidChar at this
    unfold Char.toNat
    omega⟩

/-- The text of a literal. -/
def Text.of (s : String) : Text := s.toList.map codePoint

instance : Coe String Text := ⟨Text.of⟩

/-- Half of a pair of UTF-16, no character by itself. -/
def isSurrogate (c : CodePoint) : Bool := 0xD800 ≤ c.val && c.val ≤ 0xDFFF

/-- A text that can be written. -/
def Text.Encodable (t : Text) : Prop := ∀ c ∈ t, isSurrogate c = false

instance (t : Text) : Decidable t.Encodable :=
  decidable_of_iff (t.all fun c => !isSurrogate c) (by simp [Text.Encodable])

theorem Text.encodable_nil : Text.Encodable [] := fun _ h => absurd h List.not_mem_nil

theorem codePoint_encodable (c : Char) : isSurrogate (codePoint c) = false := by
  have := c.valid
  unfold UInt32.isValidChar Nat.isValidChar at this
  unfold isSurrogate codePoint Char.toNat
  simp only [Bool.and_eq_false_iff, decide_eq_false_iff_not, not_le]
  omega

theorem Text.of_encodable (s : String) : (Text.of s).Encodable := by
  intro c hc
  obtain ⟨a, -, rfl⟩ := List.mem_map.mp hc
  exact codePoint_encodable a

theorem Text.encodable_append {s t : Text} :
    Text.Encodable (s ++ t) ↔ s.Encodable ∧ t.Encodable := by
  unfold Text.Encodable
  rw [← List.forall_mem_append]

/-! ### UTF-8 -/

abbrev Bytes := List UInt8

theorem byte_lt (c : UInt8) : c.toNat < 0x110000 := by
  have := c.toNat_lt
  omega

/-- `str.encode("utf-8")` of one character. -/
def encodeChar (c : CodePoint) : Option Bytes :=
  let n := c.val
  if n < 0x80 then some [n.toUInt8]
  else if n < 0x800 then some [(0xC0 + n / 0x40).toUInt8, (0x80 + n % 0x40).toUInt8]
  else if isSurrogate c then none
  else if n < 0x10000 then
    some [(0xE0 + n / 0x1000).toUInt8, (0x80 + n / 0x40 % 0x40).toUInt8,
      (0x80 + n % 0x40).toUInt8]
  else
    some [(0xF0 + n / 0x40000).toUInt8, (0x80 + n / 0x1000 % 0x40).toUInt8,
      (0x80 + n / 0x40 % 0x40).toUInt8, (0x80 + n % 0x40).toUInt8]

/-- `str.encode("utf-8")`: `none` where it raises `UnicodeEncodeError`. -/
def encodeUtf8 : Text → Option Bytes
  | [] => some []
  | c :: cs => do return (← encodeChar c) ++ (← encodeUtf8 cs)

theorem encodeChar_isSome {c : CodePoint} (h : isSurrogate c = false) :
    (encodeChar c).isSome := by
  unfold encodeChar
  simp only [h, Bool.false_eq_true, if_false]
  split_ifs <;> rfl

theorem encodeUtf8_isSome {t : Text} (h : t.Encodable) : (encodeUtf8 t).isSome := by
  induction t with
  | nil => rfl
  | cons c cs ih =>
    obtain ⟨b, hb⟩ := Option.isSome_iff_exists.mp (encodeChar_isSome (h c List.mem_cons_self))
    obtain ⟨bs, hbs⟩ := Option.isSome_iff_exists.mp
      (ih fun c' hc' => h c' (List.mem_cons_of_mem c hc'))
    rw [encodeUtf8, hb, hbs]
    rfl

/-! ### Methods of `str` -/

/-- The characters `str.strip()` takes off. -/
def isSpace (c : CodePoint) : Bool :=
  let n := c.val
  (0x09 ≤ n && n ≤ 0x0D) || (0x1C ≤ n && n ≤ 0x20) || n == 0x85 || n == 0xA0 || n == 0x1680 ||
    (0x2000 ≤ n && n ≤ 0x200A) || n == 0x2028 || n == 0x2029 || n == 0x202F || n == 0x205F ||
    n == 0x3000

/-- `str.lstrip()` -/
def Text.lstrip (t : Text) : Text := t.dropWhile isSpace

/-- `str.rstrip()` -/
def Text.rstrip (t : Text) : Text := t.rdropWhile isSpace

/-- `str.strip()` -/
def Text.strip (t : Text) : Text := t.lstrip.rstrip

/-- `str.replace` of one character. -/
def Text.replace (a b : CodePoint) (t : Text) : Text := t.map fun c => if c = a then b else c

/-- `str.lower()` on the letters of ASCII. -/
def lowerAscii (c : CodePoint) : CodePoint :=
  if h : 0x41 ≤ c.val ∧ c.val ≤ 0x5A then ⟨c.val + 0x20, by omega⟩ else c

/-- `a in b` -/
def Text.contains (b a : Text) : Bool := b.tails.any a.isPrefixOf

/-- A text that begins with no blank. -/
def Text.Flush (t : Text) : Prop := ∀ c ∈ t.head?, isSpace c = false

theorem Text.lstrip_flush (t : Text) : t.lstrip.Flush := by
  intro c hc
  induction t with
  | nil => exact nomatch hc
  | cons a t ih =>
    rw [Text.lstrip, List.dropWhile_cons] at hc
    split at hc
    · exact ih hc
    · next h =>
      obtain rfl : a = c := by simpa using hc
      exact Bool.eq_false_iff.mpr h

theorem Text.Flush.lstrip {t : Text} (h : t.Flush) : t.lstrip = t := by
  cases t with
  | nil => rfl
  | cons a t => rw [Text.lstrip, List.dropWhile_cons_of_neg (by simp [h a rfl])]

/-- What begins like a text without blanks in front does so too. -/
theorem Text.Flush.of_begin {s t : Text} (h : t.Flush) (hp : s <+: t) : s.Flush := by
  obtain ⟨r, rfl⟩ := hp
  cases s with
  | nil => exact fun c hc => nomatch hc
  | cons a s => exact fun c hc => h c hc

theorem Text.strip_flush (t : Text) : t.strip.Flush :=
  (Text.lstrip_flush t).of_begin (List.rdropWhile_prefix _ _)

@[simp] theorem Text.strip_strip (t : Text) : t.strip.strip = t.strip := by
  rw [Text.strip, (Text.strip_flush t).lstrip]
  exact List.rdropWhile_idempotent _ _

@[simp] theorem Text.strip_nil : Text.strip [] = [] := rfl

/-- A text that begins with a character that is no blank keeps it. -/
theorem Text.Flush.strip_ne_nil {t : Text} (h : t.Flush) (hne : t ≠ []) : t.strip ≠ [] := by
  rw [Text.strip, h.lstrip, Text.rstrip, ne_eq, List.rdropWhile_eq_nil_iff]
  cases t with
  | nil => exact absurd rfl hne
  | cons a t =>
    intro hall
    exact absurd (hall a List.mem_cons_self) (by simp [h a rfl])

end Python
