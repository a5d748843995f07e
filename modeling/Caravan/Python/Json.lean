import Caravan.Python.Value
import Mathlib.Data.Nat.Digits.Lemmas

/-!
# `json.dumps`, and the texts of RFC 8259

`dumps` writes a value as `json.dumps(v, ensure_ascii=False, indent=2)` does. The
grammar is RFC 8259's, one constructor or one clause a production. `dumps` keeps to it
on every value without `NaN` and the infinities (`dumps_isJson`), and what it writes
can be encoded exactly where no string holds a lone surrogate.
-/

namespace Python

/-! ### The grammar -/

/-- `ws` -/
def Ws (t : Text) : Prop :=
  ∀ c ∈ t, c = codePoint ' ' ∨ c = codePoint '\t' ∨ c = codePoint '\n' ∨ c = codePoint '\r'

/-- `1*DIGIT`, or nothing. -/
def Digits (t : Text) : Prop := ∀ c ∈ t, 0x30 ≤ c.val ∧ c.val ≤ 0x39

/-- `int`: no zero stands before another digit. -/
def IsInt (t : Text) : Prop :=
  t = [digit 0] ∨ ∃ c ds, t = c :: ds ∧ c ≠ digit 0 ∧ Digits t

/-- `frac` -/
def IsFrac (t : Text) : Prop := ∃ ds, ds ≠ [] ∧ Digits ds ∧ t = codePoint '.' :: ds

/-- `exp`; the sign may be left out. -/
def IsExp (t : Text) : Prop :=
  ∃ e sign ds, (e = codePoint 'e' ∨ e = codePoint 'E') ∧
    (sign = [] ∨ sign = [codePoint '-'] ∨ sign = [codePoint '+']) ∧
    ds ≠ [] ∧ Digits ds ∧ t = e :: (sign ++ ds)

/-- `number = [ minus ] int [ frac ] [ exp ]` -/
def IsNumber (t : Text) : Prop :=
  ∃ minus int frac exp, (minus = [] ∨ minus = [codePoint '-']) ∧ IsInt int ∧
    (frac = [] ∨ IsFrac frac) ∧ (exp = [] ∨ IsExp exp) ∧ t = minus ++ int ++ frac ++ exp

/-- `unescaped = %x20-21 / %x23-5B / %x5D-10FFFF` -/
def Unescaped (c : CodePoint) : Prop :=
  0x20 ≤ c.val ∧ c ≠ codePoint '"' ∧ c ≠ codePoint '\\'

/-- `HEXDIG`, in either case. -/
def IsHex (c : CodePoint) : Prop :=
  (0x30 ≤ c.val ∧ c.val ≤ 0x39) ∨ (0x41 ≤ c.val ∧ c.val ≤ 0x46) ∨
    (0x61 ≤ c.val ∧ c.val ≤ 0x66)

/-- `*char` -/
inductive Chars : Text → Prop where
  | nil : Chars []
  | plain {c : CodePoint} {t : Text} : Unescaped c → Chars t → Chars (c :: t)
  | escape {c : CodePoint} {t : Text} : c ∈ Text.of "\"\\/bfnrt" → Chars t →
      Chars (codePoint '\\' :: c :: t)
  | unicode {h t : Text} : h.length = 4 → (∀ c ∈ h, IsHex c) → Chars t →
      Chars (Text.of "\\u" ++ h ++ t)

/-- `string = quotation-mark *char quotation-mark` -/
def IsString (t : Text) : Prop := ∃ s, Chars s ∧ t = Text.of "\"" ++ s ++ Text.of "\""

mutual

/-- `value` -/
inductive IsValue : Text → Prop where
  | false : IsValue (Text.of "false")
  | null : IsValue (Text.of "null")
  | true : IsValue (Text.of "true")
  | number {t : Text} : IsNumber t → IsValue t
  | string {t : Text} : IsString t → IsValue t
  | emptyObject {w : Text} : Ws w → IsValue (Text.of "\x7b" ++ w ++ Text.of "\x7d")
  | object {t : Text} : Members t → IsValue (Text.of "\x7b" ++ t ++ Text.of "\x7d")
  | emptyArray {w : Text} : Ws w → IsValue (Text.of "[" ++ w ++ Text.of "]")
  | array {t : Text} : Elements t → IsValue (Text.of "[" ++ t ++ Text.of "]")

/-- `value *( value-separator value )`, with the whitespace around them. -/
inductive Elements : Text → Prop where
  | one {a t b : Text} : Ws a → IsValue t → Ws b → Elements (a ++ t ++ b)
  | more {a t b ts : Text} : Ws a → IsValue t → Ws b → Elements ts →
      Elements (a ++ t ++ b ++ Text.of "," ++ ts)

/-- `member *( value-separator member )`, with the whitespace around them. -/
inductive Members : Text → Prop where
  | one {a k b c t d : Text} : Ws a → IsString k → Ws b → Ws c → IsValue t → Ws d →
      Members (a ++ k ++ b ++ Text.of ":" ++ c ++ t ++ d)
  | more {a k b c t d ts : Text} : Ws a → IsString k → Ws b → Ws c → IsValue t → Ws d →
      Members ts → Members (a ++ k ++ b ++ Text.of ":" ++ c ++ t ++ d ++ Text.of "," ++ ts)

end

/-- `JSON-text = ws value ws` -/
def IsJson (t : Text) : Prop := ∃ a v b, Ws a ∧ IsValue v ∧ Ws b ∧ t = a ++ v ++ b

/-! ### `json.dumps` -/

/-- One character of a text, as `ensure_ascii=False` writes it. -/
def dumpsChar (c : CodePoint) : Text :=
  if c = codePoint '"' then Text.of "\\\""
  else if c = codePoint '\\' then Text.of "\\\\"
  else if c.val = 0x08 then Text.of "\\b"
  else if c.val = 0x0C then Text.of "\\f"
  else if c = codePoint '\n' then Text.of "\\n"
  else if c = codePoint '\r' then Text.of "\\r"
  else if c = codePoint '\t' then Text.of "\\t"
  else if c.val < 0x20 then Text.of "\\u" ++ hex 4 c.val
  else [c]

def dumpsText (t : Text) : Text := Text.of "\"" ++ t.flatMap dumpsChar ++ Text.of "\""

def dumpsFloat : Float → Text
  | .finite neg m e => finiteRepr neg m e
  | .inf neg => Text.of (if neg then "-Infinity" else "Infinity")
  | .nan => Text.of "NaN"

/-- A new line at a level. -/
def newline (level : ℕ) : Text := codePoint '\n' :: List.replicate (2 * level) (codePoint ' ')

mutual

def render (level : ℕ) : Value → Text
  | .null => Text.of "null"
  | .bool b => Text.of (if b then "true" else "false")
  | .int i => intRepr i
  | .float x => dumpsFloat x
  | .str t => dumpsText t
  | .list vs =>
    if vs.isEmpty then Text.of "[]"
    else Text.of "[" ++ (renderList (level + 1) vs ++ newline level) ++ Text.of "]"
  | .dict kvs =>
    if kvs.isEmpty then Text.of "\x7b\x7d"
    else Text.of "\x7b" ++ (renderDict (level + 1) kvs ++ newline level) ++ Text.of "\x7d"

def renderList (level : ℕ) : List Value → Text
  | [] => []
  | v :: vs => newline level ++ render level v ++ (if vs.isEmpty then [] else Text.of ",") ++
      renderList level vs

def renderDict (level : ℕ) : List (Text × Value) → Text
  | [] => []
  | (k, v) :: kvs => newline level ++ dumpsText k ++ Text.of ": " ++ render level v ++
      (if kvs.isEmpty then [] else Text.of ",") ++ renderDict level kvs

end

/-- `json.dumps(v, ensure_ascii=False, indent=2)` -/
def dumps (I : Interp) (v : Value) : Except Error Text :=
  if v.depth ≤ I.dumpsNesting then .ok (render 0 v) else .error .recursion

/-! ### Numbers -/

theorem digit_isDigit (d : ℕ) : 0x30 ≤ (digit d).val ∧ (digit d).val ≤ 0x39 := by
  unfold digit
  constructor <;> dsimp only <;> omega

theorem Digits.append {s t : Text} (hs : Digits s) (ht : Digits t) : Digits (s ++ t) :=
  List.forall_mem_append.mpr ⟨hs, ht⟩

theorem decimal_digits (n : ℕ) : Digits (decimal n) := by
  intro c hc
  unfold decimal at hc
  split at hc
  · rw [List.mem_singleton] at hc
    exact hc ▸ digit_isDigit 0
  · obtain ⟨d, -, rfl⟩ := List.mem_map.mp (List.mem_reverse.mp hc)
    exact digit_isDigit d

/-- The decimal of a number other than zero starts with another digit. -/
theorem decimal_cons {n : ℕ} (hn : n ≠ 0) :
    ∃ c cs, decimal n = c :: cs ∧ c ≠ digit 0 := by
  have hds : Nat.digits 10 n ≠ [] := Nat.digits_ne_nil_iff_ne_zero.mpr hn
  -- the last of the digits, least first, is the leading one
  have hlast := Nat.getLast_digit_ne_zero 10 hn
  have hlt : (Nat.digits 10 n).getLast hds < 10 :=
    Nat.digits_lt_base (by omega) (List.getLast_mem hds)
  have hsplit := List.dropLast_append_getLast hds
  refine ⟨digit ((Nat.digits 10 n).getLast hds),
    ((Nat.digits 10 n).dropLast.map digit).reverse, ?_, ?_⟩
  · rw [decimal, if_neg hn]
    conv_lhs => rw [← hsplit]
    rw [List.map_append, List.reverse_append]
    rfl
  · intro h
    have := congrArg Fin.val h
    simp only [digit] at this
    omega

theorem decimal_isInt (n : ℕ) : IsInt (decimal n) := by
  by_cases hn : n = 0
  · exact .inl (by rw [decimal, if_pos hn])
  · obtain ⟨c, cs, h, hne⟩ := decimal_cons hn
    exact .inr ⟨c, cs, h, hne, decimal_digits n⟩

theorem decimal_ne_nil (n : ℕ) : decimal n ≠ [] := by
  rcases decimal_isInt n with h | ⟨c, ds, h, -⟩ <;> rw [h] <;> simp

theorem zeros_digits (n : ℕ) : Digits (zeros n) := by
  intro c hc
  rw [List.eq_of_mem_replicate hc]
  exact digit_isDigit 0

theorem intRepr_isNumber (i : ℤ) : IsNumber (intRepr i) := by
  refine ⟨if i < 0 then Text.of "-" else [], decimal i.natAbs, [], [], ?_, decimal_isInt _,
    .inl rfl, .inl rfl, by simp [intRepr]⟩
  split
  · exact .inr rfl
  · exact .inl rfl

theorem exponent_isExp (x : ℤ) : IsExp (exponent x) := by
  refine ⟨codePoint 'e', if x < 0 then [codePoint '-'] else [codePoint '+'],
    (if x.natAbs < 10 then [digit 0] else []) ++ decimal x.natAbs, .inl rfl, ?_, ?_, ?_, ?_⟩
  · split
    · exact .inr (.inl rfl)
    · exact .inr (.inr rfl)
  · exact List.append_ne_nil_of_right_ne_nil _ (decimal_ne_nil _)
  · refine Digits.append ?_ (decimal_digits _)
    split
    · exact zeros_digits 1
    · exact fun c hc => absurd hc List.not_mem_nil
  · unfold exponent
    split <;> simp [Text.of]

/-- A decimal number other than zero with more digits after it. -/
theorem isInt_decimal_append {n : ℕ} (hn : n ≠ 0) {ds : Text} (hds : Digits ds) :
    IsInt (decimal n ++ ds) := by
  obtain ⟨c, cs, h, hne⟩ := decimal_cons hn
  exact .inr ⟨c, cs ++ ds, by rw [h]; rfl, hne, (decimal_digits n).append hds⟩

theorem isInt_decimal_take {n : ℕ} (hn : n ≠ 0) {k : ℕ} (hk : k ≠ 0) :
    IsInt ((decimal n).take k) := by
  obtain ⟨c, cs, h, hne⟩ := decimal_cons hn
  obtain ⟨k, rfl⟩ := Nat.exists_eq_succ_of_ne_zero hk
  refine .inr ⟨c, cs.take k, by rw [h]; rfl, hne, fun x hx => ?_⟩
  exact decimal_digits n x (List.mem_of_mem_take hx)

theorem isFrac_cons {ds : Text} (hne : ds ≠ []) (hds : Digits ds) :
    IsFrac (Text.of "." ++ ds) := ⟨ds, hne, hds, rfl⟩

/-- A number from its sign, its whole part, its fraction and its exponent. -/
theorem isNumber_of {s n f x : Text} (hs : s = [] ∨ s = [codePoint '-']) (hn : IsInt n)
    (hf : f = [] ∨ IsFrac f) (hx : x = [] ∨ IsExp x) : IsNumber (s ++ (n ++ f ++ x)) :=
  ⟨s, n, f, x, hs, hn, hf, hx, by simp only [List.append_assoc]⟩

/-- Digits with their point placed, after a sign. -/
theorem placed_isNumber {s : Text} (hs : s = [] ∨ s = [codePoint '-']) {d : ℕ} (hd : d ≠ 0)
    (point : ℤ) : IsNumber (s ++ placed d point) := by
  have hds := decimal_digits d
  have hne := decimal_ne_nil d
  have hlen := List.length_pos_iff.mpr hne
  have hdrop : ∀ k, k < (decimal d).length → IsFrac (Text.of "." ++ (decimal d).drop k) :=
    fun k hk => isFrac_cons (mt List.drop_eq_nil_iff.mp (by omega))
      fun c hc => hds c (List.mem_of_mem_drop hc)
  unfold placed
  dsimp only
  split_ifs with hclose hle hlong h1
  · -- nothing but zeros before the digits
    have hfrac : IsFrac (Text.of "." ++ (zeros (-point).toNat ++ decimal d)) :=
      isFrac_cons (List.append_ne_nil_of_right_ne_nil _ hne) ((zeros_digits _).append hds)
    have := isNumber_of (x := []) hs (.inl rfl) (.inr hfrac) (.inl rfl)
    rw [List.append_nil] at this
    rwa [List.append_assoc, show Text.of "0." = [digit 0] ++ Text.of "." from rfl,
      List.append_assoc]
  · -- a whole number
    have hfrac : IsFrac (Text.of "." ++ zeros 1) := isFrac_cons (by decide) (zeros_digits 1)
    have hint := isInt_decimal_append hd (zeros_digits (point.toNat - (decimal d).length))
    have := isNumber_of (x := []) hs hint (.inr hfrac) (.inl rfl)
    rwa [List.append_nil] at this
  · -- the point stands between two digits
    have := isNumber_of (x := []) hs (isInt_decimal_take hd (k := point.toNat) (by omega))
      (.inr (hdrop point.toNat (by omega))) (.inl rfl)
    rwa [List.append_nil, ← List.append_assoc ((decimal d).take point.toNat)] at this
  · have := isNumber_of (f := []) hs (isInt_decimal_take hd one_ne_zero) (.inl rfl)
      (.inr (exponent_isExp (point - 1)))
    exact this
  · exact isNumber_of hs (isInt_decimal_take hd one_ne_zero) (.inr (hdrop 1 (by omega)))
      (.inr (exponent_isExp (point - 1)))

theorem shortest_pos (q : ℚ) : (Float.shortest q).1 ≠ 0 ∨ Float.shortest q = (0, 0) := by
  unfold Float.shortest
  cases h : (List.range' 1 17).findSome? (Float.ofDigits? q) with
  | none => exact .inr rfl
  | some r =>
    left
    obtain ⟨n, -, hn⟩ := List.exists_of_findSome?_eq_some h
    unfold Float.ofDigits? at hn
    simp only [Option.map_eq_some_iff] at hn
    obtain ⟨d, hd, rfl⟩ := hn
    have hback := List.find?_some hd
    rw [Bool.and_eq_true, decide_eq_true_iff] at hback
    have hpos : 0 < d := hback.1
    simp only [Option.getD_some]
    split_ifs
    · exact one_ne_zero
    · omega

theorem finiteRepr_isNumber (neg : Bool) (m : ℕ) (e : ℤ) : IsNumber (finiteRepr neg m e) := by
  have hsign : ∀ b : Bool, (if b then Text.of "-" else []) = [] ∨
      (if b then Text.of "-" else []) = [codePoint '-'] := by
    intro b
    cases b
    · exact .inl rfl
    · exact .inr rfl
  have hpoint : IsFrac (Text.of "." ++ zeros 1) := isFrac_cons (by decide) (zeros_digits 1)
  have hzero : IsNumber ((if neg then Text.of "-" else []) ++ Text.of "0.0") :=
    isNumber_of (x := []) (hsign neg) (.inl rfl) (.inr hpoint) (.inl rfl)
  unfold finiteRepr
  dsimp only
  by_cases hm : m = 0
  · rw [if_pos hm]
    exact hzero
  · rw [if_neg hm]
    rcases shortest_pos (Float.size m e) with h | h
    · exact placed_isNumber (hsign neg) h _
    · rw [h]
      exact hzero

/-! ### Strings -/

theorem Chars.append {s t : Text} (hs : Chars s) (ht : Chars t) : Chars (s ++ t) := by
  induction hs with
  | nil => exact ht
  | plain hc _ ih => exact .plain hc ih
  | escape hc _ ih => exact .escape hc ih
  | unicode hl hh _ ih =>
    rw [List.append_assoc]
    exact .unicode hl hh ih

theorem hexDigit_isHex (d : ℕ) : IsHex (hexDigit d) := by
  unfold hexDigit
  split
  · next h => exact .inl ⟨Nat.le_add_right _ _, by dsimp only; omega⟩
  · next h => exact .inr (.inr ⟨by dsimp only; omega, by dsimp only; omega⟩)

theorem hex_isHex (n x : ℕ) : (hex n x).length = n ∧ ∀ c ∈ hex n x, IsHex c := by
  induction n generalizing x with
  | zero => exact ⟨rfl, fun c h => absurd h List.not_mem_nil⟩
  | succ n ih =>
    rw [hex]
    refine ⟨by rw [List.length_append, (ih _).1]; rfl, List.forall_mem_append.mpr
      ⟨(ih _).2, fun c hc => ?_⟩⟩
    rw [List.mem_singleton] at hc
    exact hc ▸ hexDigit_isHex x

theorem dumpsChar_chars (c : CodePoint) : Chars (dumpsChar c) := by
  have hesc : ∀ a : CodePoint, a ∈ Text.of "\"\\/bfnrt" → Chars [codePoint '\\', a] :=
    fun a ha => .escape ha .nil
  unfold dumpsChar
  split_ifs with h1 h2 h3 h4 h5 h6 h7 h8
  · exact hesc _ (by decide)
  · exact hesc _ (by decide)
  · exact hesc _ (by decide)
  · exact hesc _ (by decide)
  · exact hesc _ (by decide)
  · exact hesc _ (by decide)
  · exact hesc _ (by decide)
  · have := Chars.unicode (hex_isHex 4 c.val).1 (hex_isHex 4 c.val).2 .nil
    rwa [List.append_nil] at this
  · exact .plain ⟨by omega, h1, h2⟩ .nil

theorem dumpsText_isString (t : Text) : IsString (dumpsText t) := by
  refine ⟨t.flatMap dumpsChar, ?_, rfl⟩
  induction t with
  | nil => exact .nil
  | cons c cs ih =>
    rw [List.flatMap_cons]
    exact (dumpsChar_chars c).append ih

/-! ### Values -/

theorem newline_ws (level : ℕ) : Ws (newline level) := by
  intro c hc
  rcases List.mem_cons.mp hc with rfl | hc
  · exact .inr (.inr (.inl rfl))
  · exact .inl (List.eq_of_mem_replicate hc)

theorem ws_nil : Ws [] := fun _ h => absurd h List.not_mem_nil

mutual

/-- What `dumps` writes of a value is a `value`. -/
theorem render_isValue (p : Text → Bool) (level : ℕ) :
    ∀ v : Value, v.all p Float.isFinite → IsValue (render level v)
  | .null, _ => .null
  | .bool true, _ => .true
  | .bool false, _ => .false
  | .int i, _ => .number (intRepr_isNumber i)
  | .float (.finite neg m e), _ => .number (finiteRepr_isNumber neg m e)
  | .str t, _ => .string (dumpsText_isString t)
  | .list [], _ => .emptyArray ws_nil
  | .list (v :: vs), h => .array (renderList_elements p level (v :: vs) (by simp) h)
  | .dict [], _ => .emptyObject ws_nil
  | .dict (kv :: kvs), h => .object (renderDict_members p level (kv :: kvs) (by simp) h)

theorem renderList_elements (p : Text → Bool) (level : ℕ) :
    ∀ vs : List Value, vs ≠ [] → Value.allList p Float.isFinite vs →
      Elements (renderList (level + 1) vs ++ newline level)
  | [], hne, _ => absurd rfl hne
  | v :: vs, _, h => by
    rw [Value.allList, Bool.and_eq_true] at h
    have hv := render_isValue p (level + 1) v h.1
    have ih := renderList_elements p level vs
    rw [renderList]
    cases vs with
    | nil =>
      have := Elements.one (newline_ws (level + 1)) hv (newline_ws level)
      simpa only [renderList, List.isEmpty_nil, if_true, List.append_nil] using this
    | cons w vs =>
      have := Elements.more (newline_ws (level + 1)) hv ws_nil (ih (by simp) h.2)
      simpa only [List.isEmpty_cons, Bool.false_eq_true, if_false, List.append_nil,
        List.append_assoc] using this

theorem renderDict_members (p : Text → Bool) (level : ℕ) :
    ∀ kvs : List (Text × Value), kvs ≠ [] → Value.allDict p Float.isFinite kvs →
      Members (renderDict (level + 1) kvs ++ newline level)
  | [], hne, _ => absurd rfl hne
  | (k, v) :: kvs, _, h => by
    rw [Value.allDict, Bool.and_eq_true, Bool.and_eq_true] at h
    have hv := render_isValue p (level + 1) v h.1.2
    have hk := dumpsText_isString k
    have hspace : Ws (Text.of " ") := fun c hc => .inl (List.mem_singleton.mp hc)
    have ih := renderDict_members p level kvs
    rw [renderDict, show Text.of ": " = Text.of ":" ++ Text.of " " from rfl]
    cases kvs with
    | nil =>
      have := Members.one (newline_ws (level + 1)) hk ws_nil hspace hv (newline_ws level)
      simpa only [renderDict, List.isEmpty_nil, if_true, List.append_nil,
        List.append_assoc] using this
    | cons kv kvs =>
      have := Members.more (newline_ws (level + 1)) hk ws_nil hspace hv ws_nil
        (ih (by simp) h.2)
      simpa only [List.isEmpty_cons, Bool.false_eq_true, if_false, List.append_nil,
        List.append_assoc] using this

end

/-! ### What can be encoded -/

theorem encodable_of_ascii {t : Text} (h : ∀ c ∈ t, c.val < 0x80) : t.Encodable := by
  intro c hc
  have := h c hc
  unfold isSurrogate
  rw [Bool.and_eq_false_iff]
  left
  rw [decide_eq_false_iff_not]
  omega

theorem Digits.encodable {t : Text} (h : Digits t) : t.Encodable :=
  encodable_of_ascii fun c hc => by have := h c hc; omega

theorem IsInt.digits {t : Text} (h : IsInt t) : Digits t := by
  rcases h with rfl | ⟨c, ds, rfl, -, h⟩
  · exact zeros_digits 1
  · exact h

theorem IsNumber.encodable {t : Text} (h : IsNumber t) : t.Encodable := by
  obtain ⟨minus, int, frac, exp, hm, hi, hf, he, rfl⟩ := h
  have hone : ∀ c : Char, Text.Encodable [codePoint c] := fun c => by
    rintro x hx
    rw [List.mem_singleton] at hx
    exact hx ▸ codePoint_encodable c
  rw [Text.encodable_append, Text.encodable_append, Text.encodable_append]
  refine ⟨⟨⟨?_, hi.digits.encodable⟩, ?_⟩, ?_⟩
  · rcases hm with rfl | rfl
    · exact Text.encodable_nil
    · exact hone '-'
  · rcases hf with rfl | ⟨ds, -, hds, rfl⟩
    · exact Text.encodable_nil
    · exact (Text.encodable_append (s := [codePoint '.'])).mpr ⟨hone '.', hds.encodable⟩
  · rcases he with rfl | ⟨e, sign, ds, he, hs, -, hds, rfl⟩
    · exact Text.encodable_nil
    · have hsign : Text.Encodable sign := by
        rcases hs with rfl | rfl | rfl
        · exact Text.encodable_nil
        · exact hone '-'
        · exact hone '+'
      have he : Text.Encodable [e] := by
        rcases he with rfl | rfl
        · exact hone 'e'
        · exact hone 'E'
      exact (Text.encodable_append (s := [e])).mpr
        ⟨he, Text.encodable_append.mpr ⟨hsign, hds.encodable⟩⟩

theorem hex_encodable (n x : ℕ) : (hex n x).Encodable :=
  encodable_of_ascii fun c hc => by rcases (hex_isHex n x).2 c hc with h | h | h <;> omega

theorem dumpsChar_encodable {c : CodePoint} :
    (dumpsChar c).Encodable ↔ isSurrogate c = false := by
  -- what is escaped is no surrogate, and neither is its escape
  have hesc : ∀ {t : Text}, t.Encodable → c.val < 0x80 →
      (t.Encodable ↔ isSurrogate c = false) := fun ht hc =>
    ⟨fun _ => encodable_of_ascii (t := [c]) (by simpa using hc) c List.mem_cons_self,
      fun _ => ht⟩
  unfold dumpsChar
  split_ifs with h1 h2 h3 h4 h5 h6 h7 h8
  · exact hesc (Text.of_encodable _) (by rw [h1]; decide)
  · exact hesc (Text.of_encodable _) (by rw [h2]; decide)
  · exact hesc (Text.of_encodable _) (by omega)
  · exact hesc (Text.of_encodable _) (by omega)
  · exact hesc (Text.of_encodable _) (by rw [h5]; decide)
  · exact hesc (Text.of_encodable _) (by rw [h6]; decide)
  · exact hesc (Text.of_encodable _) (by rw [h7]; decide)
  · exact hesc (Text.encodable_append.mpr ⟨Text.of_encodable _, hex_encodable 4 c.val⟩)
      (by omega)
  · exact List.forall_mem_singleton

theorem dumpsText_encodable {t : Text} : (dumpsText t).Encodable ↔ t.Encodable := by
  have hflat : Text.Encodable (t.flatMap dumpsChar) ↔ t.Encodable := by
    induction t with
    | nil => exact Iff.rfl
    | cons c cs ih =>
      rw [List.flatMap_cons, Text.encodable_append, ih, dumpsChar_encodable]
      exact (List.forall_mem_cons (p := fun c => isSurrogate c = false)).symm
  have hq := Text.of_encodable "\""
  rw [dumpsText, Text.encodable_append, Text.encodable_append, hflat]
  exact ⟨fun h => h.1.2, fun h => ⟨⟨hq, h⟩, hq⟩⟩

theorem newline_encodable (level : ℕ) : (newline level).Encodable := by
  intro c hc
  rcases newline_ws level c hc with rfl | rfl | rfl | rfl <;> exact codePoint_encodable _

theorem dumpsFloat_encodable (x : Float) : (dumpsFloat x).Encodable := by
  cases x with
  | finite neg m e => exact (finiteRepr_isNumber neg m e).encodable
  | inf neg => exact Text.of_encodable _
  | nan => exact Text.of_encodable _

theorem ite_encodable (s : String) (b : Bool) :
    Text.Encodable (if b then [] else Text.of s) := by
  split
  · exact Text.encodable_nil
  · exact Text.of_encodable _

mutual

/-- The text of a value can be encoded just where each of its strings can. -/
theorem render_encodable (level : ℕ) :
    ∀ v : Value, (render level v).Encodable ↔ v.encodable
  | .null => iff_of_true (Text.of_encodable _) rfl
  | .bool b => iff_of_true (Text.of_encodable _) rfl
  | .int i => iff_of_true (intRepr_isNumber i).encodable rfl
  | .float x => iff_of_true (dumpsFloat_encodable x) rfl
  | .str t => by
    rw [render, dumpsText_encodable, Value.encodable, Value.all, decide_eq_true_iff]
  | .list [] => iff_of_true (Text.of_encodable _) rfl
  | .list (v :: vs) => by
    rw [render, List.isEmpty_cons, if_neg Bool.false_ne_true, Text.encodable_append,
      Text.encodable_append, Text.encodable_append, renderList_encodable (level + 1) (v :: vs)]
    exact ⟨fun h => h.1.2.1, fun h =>
      ⟨⟨Text.of_encodable _, h, newline_encodable level⟩, Text.of_encodable _⟩⟩
  | .dict [] => iff_of_true (Text.of_encodable _) rfl
  | .dict (kv :: kvs) => by
    rw [render, List.isEmpty_cons, if_neg Bool.false_ne_true, Text.encodable_append,
      Text.encodable_append, Text.encodable_append, renderDict_encodable (level + 1) (kv :: kvs)]
    exact ⟨fun h => h.1.2.1, fun h =>
      ⟨⟨Text.of_encodable _, h, newline_encodable level⟩, Text.of_encodable _⟩⟩

theorem renderList_encodable (level : ℕ) :
    ∀ vs : List Value, (renderList level vs).Encodable ↔
      Value.allList (fun t => decide t.Encodable) (fun _ => true) vs
  | [] => iff_of_true Text.encodable_nil rfl
  | v :: vs => by
    have hv : _ ↔ Value.all _ _ v = true := render_encodable level v
    rw [renderList, Value.allList, Text.encodable_append, Text.encodable_append,
      Text.encodable_append, hv, renderList_encodable level vs, Bool.and_eq_true]
    exact ⟨fun h => ⟨h.1.1.2, h.2⟩, fun h =>
      ⟨⟨⟨newline_encodable level, h.1⟩, ite_encodable _ _⟩, h.2⟩⟩

theorem renderDict_encodable (level : ℕ) :
    ∀ kvs : List (Text × Value), (renderDict level kvs).Encodable ↔
      Value.allDict (fun t => decide t.Encodable) (fun _ => true) kvs
  | [] => iff_of_true Text.encodable_nil rfl
  | (k, v) :: kvs => by
    have hv : _ ↔ Value.all _ _ v = true := render_encodable level v
    rw [renderDict, Value.allDict, Text.encodable_append, Text.encodable_append,
      Text.encodable_append, Text.encodable_append, Text.encodable_append, hv,
      renderDict_encodable level kvs, dumpsText_encodable, Bool.and_eq_true, Bool.and_eq_true,
      decide_eq_true_iff]
    exact ⟨fun h => ⟨⟨h.1.1.1.1.2, h.1.1.2⟩, h.2⟩, fun h =>
      ⟨⟨⟨⟨⟨newline_encodable level, h.1.1⟩, Text.of_encodable _⟩, h.1.2⟩, ite_encodable _ _⟩,
        h.2⟩⟩

end

/-! `repr` leaves no surrogate: a character that is not printable is escaped. -/

theorem reprChar_encodable (I : Interp) {q : CodePoint} (hq : isSurrogate q = false)
    (c : CodePoint) : (reprChar I q c).Encodable := by
  have hhex : ∀ (s : String) (n : ℕ), Text.Encodable (Text.of s ++ hex n c.val) := fun s n =>
    Text.encodable_append.mpr ⟨Text.of_encodable s, hex_encodable n c.val⟩
  unfold reprChar
  split_ifs with h1 h2 h3 h4 h5 h6
  · intro x hx
    rcases List.mem_cons.mp hx with rfl | hx
    · exact codePoint_encodable _
    · rw [List.mem_singleton] at hx
      subst hx
      rcases h1 with rfl | rfl
      · exact hq
      · exact codePoint_encodable _
  · exact Text.of_encodable _
  · exact Text.of_encodable _
  · exact Text.of_encodable _
  · exact encodable_of_ascii fun x hx => by rw [List.mem_singleton.mp hx]; omega
  · intro x hx
    rw [List.mem_singleton] at hx
    subst hx
    by_contra hs
    rw [Bool.not_eq_false] at hs
    exact absurd h6 (by rw [I.surrogate x hs]; exact Bool.false_ne_true)
  · exact hhex _ 2
  · exact hhex _ 4
  · exact hhex _ 8

theorem reprText_encodable (I : Interp) (t : Text) : (reprText I t).Encodable := by
  have hquote : ∀ q : CodePoint, isSurrogate q = false →
      Text.Encodable ([q] ++ t.flatMap (reprChar I q) ++ [q]) := by
    intro q hq c hc
    rw [List.mem_append, List.mem_append, List.mem_singleton, List.mem_flatMap] at hc
    rcases hc with (rfl | ⟨a, -, h⟩) | rfl
    · exact hq
    · exact reprChar_encodable I hq a c h
    · exact hq
  unfold reprText
  dsimp only
  split
  · exact hquote _ (codePoint_encodable _)
  · exact hquote _ (codePoint_encodable _)

theorem floatRepr_encodable (x : Float) : (floatRepr x).Encodable := by
  cases x with
  | finite neg m e => exact (finiteRepr_isNumber neg m e).encodable
  | inf neg => exact Text.of_encodable _
  | nan => exact Text.of_encodable _

mutual

theorem reprValue_encodable (I : Interp) : ∀ v : Value, (reprValue I v).Encodable
  | .null => Text.of_encodable _
  | .bool _ => Text.of_encodable _
  | .int i => (intRepr_isNumber i).encodable
  | .float x => floatRepr_encodable x
  | .str t => reprText_encodable I t
  | .list vs => Text.encodable_append.mpr ⟨Text.encodable_append.mpr
      ⟨Text.of_encodable _, reprList_encodable I vs⟩, Text.of_encodable _⟩
  | .dict kvs => Text.encodable_append.mpr ⟨Text.encodable_append.mpr
      ⟨Text.of_encodable _, reprDict_encodable I kvs⟩, Text.of_encodable _⟩

theorem reprList_encodable (I : Interp) : ∀ vs : List Value, (reprList I vs).Encodable
  | [] => Text.encodable_nil
  | v :: vs => by
    have hv := reprValue_encodable I v
    have hvs := reprList_encodable I vs
    rw [reprList, Text.encodable_append, Text.encodable_append]
    exact ⟨⟨hv, ite_encodable _ _⟩, hvs⟩

theorem reprDict_encodable (I : Interp) :
    ∀ kvs : List (Text × Value), (reprDict I kvs).Encodable
  | [] => Text.encodable_nil
  | (k, v) :: kvs => by
    have hv := reprValue_encodable I v
    have hkvs := reprDict_encodable I kvs
    rw [reprDict, Text.encodable_append, Text.encodable_append, Text.encodable_append,
      Text.encodable_append]
    exact ⟨⟨⟨⟨reprText_encodable I k, Text.of_encodable _⟩, hv⟩, ite_encodable _ _⟩, hkvs⟩

end

/-- `str` of a value can be encoded, unless the value is a string that cannot. -/
theorem strOf_encodable {I : Interp} {v : Value} {t : Text} (h : strOf I v = .ok t)
    (hv : ∀ s, v = .str s → Text.Encodable s) : t.Encodable := by
  have hrepr : ∀ w : Value, (if w.depth ≤ I.reprNesting then Except.ok (reprValue I w)
      else .error Error.recursion) = .ok t → t.Encodable := by
    intro w hw
    split at hw
    · cases hw
      exact reprValue_encodable I w
    · exact absurd hw (by simp)
  cases v with
  | str s =>
    cases h
    exact hv t rfl
  | null => exact hrepr .null h
  | bool b => exact hrepr (.bool b) h
  | int i => exact hrepr (.int i) h
  | float x => exact hrepr (.float x) h
  | list vs => exact hrepr (.list vs) h
  | dict kvs => exact hrepr (.dict kvs) h

/-- **A clean value is written**: the text is JSON, and it can be encoded. -/
theorem dumps_clean {I : Interp} {v : Value} (hd : v.depth ≤ I.dumpsNesting) (h : v.clean) :
    ∃ t, dumps I v = .ok t ∧ IsJson t ∧ (encodeUtf8 t).isSome := by
  refine ⟨render 0 v, if_pos hd, ⟨[], render 0 v, [], ws_nil, render_isValue _ 0 v h, ws_nil,
    by simp⟩, encodeUtf8_isSome ((render_encodable 0 v).mpr ?_)⟩
  exact Value.all_imp (fun _ => id) (fun _ _ => rfl) v h

end Python
