import Caravan.Speech.Form

/-!
# What the speech cells read of a form

A form's body is the parts behind their marks, so a boundary that is in no part splits it into the
parts again (`split_stream`), and a part's head is before its first blank line
(`Part.partition_bytes`). What a cell takes for the file is then the first part that it takes for
one, and trimmed where the cell trims (`extract_file_bytes`).

The search for a field goes over the whole body instead. It steps over what has no key in it, and
gives the value of a part of the name and goes on at its end (`found_searched`), as long as no
other part has the key.
-/

namespace Speech

open Python

open Python.Bytes (CR LF)

/-! ### Encoded texts -/

theorem encodeUtf8_append {s t : Text} {a b : Bytes} (ha : encodeUtf8 s = some a)
    (hb : encodeUtf8 t = some b) : encodeUtf8 (s ++ t) = some (a ++ b) := by
  induction s generalizing a with
  | nil =>
    cases ha
    exact hb
  | cons c s ih =>
    obtain ⟨x, hx, hs⟩ := Option.bind_eq_some_iff.mp ha
    obtain ⟨y, hy, hxy⟩ := Option.bind_eq_some_iff.mp hs
    cases hxy
    rw [List.cons_append, encodeUtf8, hx, ih hy]
    exact congrArg some (List.append_assoc x y b).symm

theorem encodeUtf8_ascii {t : Text} (h : ∀ c ∈ t, c.val < 0x80) :
    encodeUtf8 t = some (t.map fun c => c.val.toUInt8) := by
  induction t with
  | nil => rfl
  | cons c t ih =>
    have hc : encodeChar c = some [c.val.toUInt8] := if_pos (h c List.mem_cons_self)
    rw [encodeUtf8, hc, ih fun d hd => h d (List.mem_cons_of_mem c hd)]
    rfl

theorem encode_of {t : Text} {b : Bytes} (h : encodeUtf8 t = some b) : encode t = .ok b := by
  rw [encode, h]

/-- Texts that are encoded alike are one text. -/
theorem Quoted.bytes_inj {a b : Quoted} : a.bytes = b.bytes ↔ a.text = b.text := by
  refine ⟨fun h => ?_, fun h => ?_⟩
  · rw [← decodeUtf8_encode a.encoded, h, decodeUtf8_encode b.encoded]
  · exact Option.some.inj (by rw [← a.encoded, h, b.encoded])

/-! ### Boundaries -/

namespace Boundary

variable (b : Boundary)

/-- A boundary's characters are ASCII, and none of those that end one. -/
theorem isBoundaryChar_val {c : CodePoint} (h : isBoundaryChar c = true) :
    c.val < 0x80 ∧ 0x20 ≤ c.val ∧ c.val ≠ 0x22 ∧ c.val ≠ 0x3B := by
  unfold isBoundaryChar at h
  simp only [Bool.or_eq_true, Bool.and_eq_true, decide_eq_true_eq] at h
  rcases h with ((h | h) | h) | h
  · omega
  · omega
  · omega
  · have hall : ∀ d ∈ Text.of "'()+_,-./:=? ",
        decide (d.val < 0x80 ∧ 0x20 ≤ d.val ∧ d.val ≠ 0x22 ∧ d.val ≠ 0x3B) = true :=
      List.all_eq_true.mp (by decide)
    exact of_decide_eq_true (hall c h)

theorem not_mem_text {c : CodePoint} (h : c.val < 0x20 ∨ c.val = 0x22 ∨ c.val = 0x3B) :
    c ∉ b.text := by
  intro hc
  have := isBoundaryChar_val (b.chars c hc)
  omega

theorem not_mem_bytes {x : UInt8} (h : x.toNat < 0x20 ∨ x.toNat = 0x22) : x ∉ b.bytes := by
  intro hx
  obtain ⟨c, hc, rfl⟩ := List.mem_map.mp hx
  have hval := isBoundaryChar_val (b.chars c hc)
  rw [toNat_toUInt8 (by omega)] at h
  omega

theorem bytes_ne_nil : b.bytes ≠ [] := by
  rw [bytes, ne_eq, List.map_eq_nil_iff]
  exact b.some_char

theorem not_mem_mark {x : UInt8} (h : x.toNat < 0x20 ∨ x.toNat = 0x22) : x ∉ b.mark := by
  rw [mark, List.mem_append, not_or]
  refine ⟨fun hx => ?_, b.not_mem_bytes h⟩
  have hdash : x = 0x2D := by simpa [lit] using hx
  subst hdash
  revert h
  decide

theorem encode_bytes : encode b.text = .ok b.bytes :=
  encode_of (encodeUtf8_ascii fun c hc => (isBoundaryChar_val (b.chars c hc)).1)

theorem encode_mark : encode (Text.of "--" ++ b.text) = .ok b.mark :=
  encode_of (encodeUtf8_append (a := lit "--") (b := b.bytes) (by decide)
    (encodeUtf8_ascii fun c hc => (isBoundaryChar_val (b.chars c hc)).1))

/-- No boundary ends in a blank. -/
theorem getLast_isSpace : ∀ c ∈ b.text.getLast?, isSpace c = false := by
  intro c hc
  have hval := isBoundaryChar_val (b.chars c (List.mem_of_getLast? hc))
  have hblank : c.val ≠ 0x20 := by
    intro h
    obtain rfl : c = codePoint ' ' := Fin.ext h
    exact b.closed hc
  unfold isSpace
  simp only [Bool.or_eq_false_iff, Bool.and_eq_false_iff, decide_eq_false_iff_not,
    beq_eq_false_iff_ne]
  omega

end Boundary

/-- A boundary without a comma is read whole by the transcribe cell. -/
theorem Transcribe.boundary_ctype (b : Boundary) (hcomma : codePoint ',' ∉ b.text) :
    Transcribe.boundary b.ctype = some b.text := by
  have hquote : codePoint '"' ∉ b.text := b.not_mem_text (.inr (.inl rfl))
  have hsemi : codePoint ';' ∉ b.text := b.not_mem_text (.inr (.inr rfl))
  have hall : ∀ c ∈ b.text,
      (c ≠ codePoint '"' && c ≠ codePoint ';' && c ≠ codePoint ',') = true := by
    intro c hc
    simp only [Bool.and_eq_true, decide_eq_true_eq]
    exact ⟨⟨fun h => hquote (h ▸ hc), fun h => hsemi (h ▸ hc)⟩, fun h => hcomma (h ▸ hc)⟩
  have hcut : Text.of "multipart/form-data; boundary=" =
      Text.of "multipart/form-data; " ++ Text.of "boundary=" := by decide
  have hbefore : codePoint 'b' ∉ Text.of "multipart/form-data; " := by decide
  have hskip : ∀ t r, r ≠ [] → r <:+ Text.of "multipart/form-data; " →
      ¬ Text.of "boundary=" <+: r ++ t := fun t => not_prefix_head hbefore t
  rw [Transcribe.boundary, Boundary.ctype, hcut, List.append_assoc, search_append (hskip _)]
  refine search_of_mark (by decide) ?_
  split
  · have hhead : (Text.of "\"" ++ (b.text ++ Text.of "\"")).head? = some (codePoint '"') := rfl
    unfold token
    rw [if_pos hhead,
      show (Text.of "\"" ++ (b.text ++ Text.of "\"")).tail = b.text ++ Text.of "\"" from rfl]
    dsimp only
    rw [List.takeWhile_append_of_pos hall, show Text.of "\"" = [codePoint '"'] from rfl,
      List.takeWhile_cons_of_neg (by decide), List.append_nil, if_neg b.some_char]
  · have hhead : ¬ b.text.head? = some (codePoint '"') := fun h =>
      hquote (List.mem_of_head? h)
    unfold token
    rw [if_neg hhead]
    dsimp only
    rw [List.takeWhile_eq_self_iff.mpr hall, if_neg b.some_char]

/-- Every boundary is read whole by the other cells. -/
theorem Whisper.boundary_ctype (b : Boundary) : Whisper.boundary b.ctype = some b.text := by
  have hquote : codePoint '"' ∉ b.text := b.not_mem_text (.inr (.inl rfl))
  have hsemi : codePoint ';' ∉ b.text := b.not_mem_text (.inr (.inr rfl))
  generalize hv : (if b.quoted then Text.of "\"" ++ (b.text ++ Text.of "\"") else b.text) = v
  have hlast : ∀ c ∈ v.getLast?, isSpace c = false := by
    subst hv
    split
    · intro c hc
      rw [← List.append_assoc, show Text.of "\"" = [codePoint '"'] from rfl,
        List.getLast?_concat] at hc
      obtain rfl := Option.some.inj hc
      decide
    · exact b.getLast_isSpace
  have hv_ne : v ≠ [] := by
    subst hv
    split
    · exact List.cons_ne_nil _ _
    · exact b.some_char
  have hv_semi : codePoint ';' ∉ v := by
    subst hv
    split
    · rw [List.mem_append, List.mem_append]
      rintro (h | h | h)
      · revert h
        decide
      · exact hsemi h
      · revert h
        decide
    · exact hsemi
  have hunquoted : unquoted v = b.text := by
    have hends : ∀ c ∈ b.text, decide (c = codePoint '"') = false := fun c hc =>
      decide_eq_false fun h => hquote (h ▸ hc)
    subst hv
    split
    · exact stripWhile_between (p := fun c => decide (c = codePoint '"')) (l := Text.of "\"")
        (r := Text.of "\"") (List.all_eq_true.mp (by decide)) (List.all_eq_true.mp (by decide))
        b.some_char (fun c hc => hends c (List.mem_of_head? hc))
        fun c hc => hends c (List.mem_of_getLast? hc)
    · have h := stripWhile_between (p := fun c => decide (c = codePoint '"')) (l := []) (r := [])
        (fun _ h => nomatch h) (fun _ h => nomatch h) b.some_char
        (fun c hc => hends c (List.mem_of_head? hc)) fun c hc => hends c (List.mem_of_getLast? hc)
      rwa [List.append_nil] at h
  have hstrip : Text.strip (Text.of " boundary=" ++ v) = Text.of "boundary=" ++ v := by
    have h := stripWhile_between (p := isSpace) (l := Text.of " ")
      (x := Text.of "boundary=" ++ v) (r := []) (List.all_eq_true.mp (by decide))
      (fun _ h => nomatch h)
      (List.cons_ne_nil _ _) (fun c hc => by rw [← Option.some.inj hc]; decide) fun c hc =>
        hlast c (by rwa [List.getLast?_append_of_ne_nil _ hv_ne] at hc)
    rwa [List.append_nil] at h
  have hsplit : b.ctype.splitOn (codePoint ';') =
      [Text.of "multipart/form-data", Text.of " boundary=" ++ v] := by
    have hcut : Text.of "multipart/form-data; boundary=" =
        Text.of "multipart/form-data" ++ (codePoint ';' :: Text.of " boundary=") := by decide
    rw [Boundary.ctype, hv, hcut, List.append_assoc, List.cons_append,
      List.splitOn_append_cons_self_of_not_mem (by decide), List.splitOn_eq_singleton]
    rw [List.mem_append, not_or]
    exact ⟨by decide, hv_semi⟩
  have hprefix : (Text.of "boundary=").isPrefixOf (Text.of "boundary=" ++ v) = true :=
    List.isPrefixOf_iff_prefix.mpr (List.prefix_append _ _)
  have hfirst : ¬ (Text.of "boundary=").isPrefixOf (Text.strip (Text.of "multipart/form-data")) =
      true := by decide
  rw [Whisper.boundary, hsplit, List.findSome?_cons]
  dsimp only
  rw [if_neg hfirst, List.findSome?_cons]
  dsimp only
  rw [hstrip, if_pos hprefix,
    show (9 : ℕ) = (Text.of "boundary=").length from rfl, List.drop_left, hunquoted]

/-! ### Parts -/

namespace Part

variable (p : Part)

theorem suffix_plain : CR ∉ p.suffix ∧ LF ∉ p.suffix := by
  cases p with
  | text => exact ⟨List.not_mem_nil, List.not_mem_nil⟩
  | file name filename =>
    obtain ⟨-, hcr, hlf⟩ := filename.plain
    simp only [suffix, List.mem_append, List.mem_singleton, not_or]
    exact ⟨⟨by decide, hcr, by decide⟩, by decide, hlf, by decide⟩

theorem lines_whole : ∀ l ∈ p.disposition :: p.extra.lines, l ≠ [] ∧ CR ∉ l ∧ LF ∉ l := by
  intro l hl
  rcases List.mem_cons.mp hl with rfl | hl
  · obtain ⟨-, hcr, hlf⟩ := p.name.plain
    refine ⟨List.cons_ne_nil _ _, ?_⟩
    simp only [disposition, List.mem_append, List.mem_cons, not_or]
    exact ⟨⟨by decide, by decide, hcr, by decide, p.suffix_plain.1⟩, by decide, by decide, hlf,
      by decide, p.suffix_plain.2⟩
  · exact p.extra.whole l hl

/-- No blank line is among lines, and they do not end in a line end. -/
theorem not_blank_lines {lines : List Bytes} (h : ∀ l ∈ lines, l ≠ [] ∧ CR ∉ l ∧ LF ∉ l) :
    ¬ BLANK <:+: lines.flatMap (CRLF ++ ·) := by
  induction lines with
  | nil => decide
  | cons l lines ih =>
    obtain ⟨hne, hcr, hlf⟩ := h l List.mem_cons_self
    have hfree : ∀ c ∈ l, c ∉ BLANK := by
      intro c hc hb
      have hb : c = CR ∨ c = LF ∨ c = CR ∨ c = LF := by
        simpa [BLANK, CRLF] using hb
      rcases hb with rfl | rfl | rfl | rfl
      · exact hcr hc
      · exact hlf hc
      · exact hcr hc
      · exact hlf hc
    obtain ⟨c, l', rfl⟩ := List.exists_cons_of_ne_nil hne
    rw [List.flatMap_cons, List.append_assoc, List.cons_append,
      infix_append_cons (hfree c List.mem_cons_self),
      infix_append_of_disjoint (by decide) fun d hd => hfree d (List.mem_cons_of_mem c hd)]
    rintro (hin | hin)
    · revert hin
      decide
    · exact ih (fun l hl => h l (List.mem_cons_of_mem _ hl)) hin

theorem not_blank_head : ¬ BLANK <:+: p.head := not_blank_lines p.lines_whole

/-- A head ends in no line end. -/
theorem head_closed : ∃ h c, p.head = h ++ [c] ∧ c ∉ BLANK := by
  obtain ⟨lines, l, hl⟩ : ∃ lines l, p.disposition :: p.extra.lines = lines ++ [l] :=
    ⟨_, _, (List.dropLast_append_getLast (List.cons_ne_nil _ _)).symm⟩
  obtain ⟨hne, hcr, hlf⟩ := p.lines_whole l (hl ▸ List.mem_append_right _ List.mem_cons_self)
  obtain ⟨l', c, rfl⟩ : ∃ l' c, l = l' ++ [c] :=
    ⟨_, _, (List.dropLast_append_getLast hne).symm⟩
  refine ⟨lines.flatMap (CRLF ++ ·) ++ (CRLF ++ l'), c, ?_, ?_⟩
  · rw [head, hl, List.flatMap_append, List.flatMap_singleton, List.append_assoc,
      List.append_assoc]
  · have hc : c ≠ CR ∧ c ≠ LF :=
      ⟨fun h => hcr (h ▸ List.mem_append_right _ List.mem_cons_self),
        fun h => hlf (h ▸ List.mem_append_right _ List.mem_cons_self)⟩
    simp [BLANK, CRLF, hc]

theorem not_prefix_head (t : Bytes) : ∀ r, r ≠ [] → r <:+ p.head → ¬ BLANK <+: r ++ t := by
  obtain ⟨h, c, hhead, hc⟩ := p.head_closed
  rw [hhead]
  refine not_prefix_closed hc ?_ t
  exact fun hin => p.not_blank_head (hhead ▸ hin.trans (List.prefix_append h [c]).isInfix)

/-- **A part's head** is before its first blank line. -/
theorem partition_bytes : partition p.bytes BLANK = some (p.head, p.content ++ CRLF) :=
  partition_append _ (p.not_prefix_head _)

theorem find_bytes : find p.bytes BLANK = some p.head.length := by
  rw [bytes, find_append (p.not_prefix_head _), find_of_prefix (List.prefix_append _ _),
    Option.map_some, Nat.zero_add]

theorem drop_bytes : p.bytes.drop (p.head.length + 4) = p.content ++ CRLF := by
  rw [bytes, ← List.drop_drop, List.drop_left]
  rfl

/-- What has no line end stands in a part's head or in its content. -/
theorem infix_bytes {needle : Bytes} (hne : needle ≠ []) (hcr : CR ∉ needle) (hlf : LF ∉ needle) :
    needle <:+: p.bytes ↔ needle <:+: p.head ∨ needle <:+: p.content := by
  have hnil : ¬ needle <:+: [] := fun h => hne (List.infix_nil.mp h)
  have hshape : p.bytes = p.head ++ CR :: ([] ++ LF :: ([] ++ CR :: ([] ++ LF ::
      (p.content ++ CR :: ([] ++ [LF]))))) := rfl
  have hend : ¬ needle <:+: [] ++ [LF] := by
    rw [infix_append_cons hlf]
    exact fun h => h.elim hnil hnil
  rw [hshape, infix_append_cons hcr, infix_append_cons hlf, infix_append_cons hcr,
    infix_append_cons hlf, infix_append_cons hcr]
  tauto

/-- No mark begins in a part that has it neither in the head nor in the content. -/
theorem not_prefix_bytes {needle : Bytes} (hne : needle ≠ []) (hcr : CR ∉ needle)
    (hlf : LF ∉ needle) (hhead : ¬ needle <:+: p.head) (hcontent : ¬ needle <:+: p.content)
    (t : Bytes) : ∀ r, r ≠ [] → r <:+ p.bytes → ¬ needle <+: r ++ t := by
  have hshape : p.bytes = (p.head ++ (BLANK ++ (p.content ++ [CR]))) ++ [LF] := by
    simp only [bytes, CRLF, List.append_assoc, List.cons_append, List.nil_append]
  have hin : ¬ needle <:+: p.bytes := by
    rw [p.infix_bytes hne hcr hlf]
    exact fun h => h.elim hhead hcontent
  rw [hshape] at hin ⊢
  exact not_prefix_closed hlf (fun h => hin (h.trans (List.prefix_append _ _).isInfix)) t

end Part

/-! ### The body, split -/

/-- **A body is split** into its parts. -/
theorem split_stream {mark : Bytes} (hne : mark ≠ []) (hcr : CR ∉ mark) (hlf : LF ∉ mark)
    (hend : ¬ mark <:+: lit "--\r\n") {ps : List Part}
    (hclear : ∀ p ∈ ps, ¬ mark <:+: p.head ∧ ¬ mark <:+: p.content) {q : Bytes}
    (hq : ∀ t r, r ≠ [] → r <:+ q → ¬ mark <+: r ++ t) :
    split (q ++ stream mark ps) mark = q :: (ps.map Part.bytes ++ [lit "--\r\n"]) := by
  induction ps generalizing q with
  | nil => rw [stream, split_append hne (hq _), split_of_not_infix hend]; rfl
  | cons p ps ih =>
    obtain ⟨hhead, hcontent⟩ := hclear p List.mem_cons_self
    rw [stream, split_append hne (hq _),
      ih (fun p hp => hclear p (List.mem_cons_of_mem _ hp))
        (p.not_prefix_bytes hne hcr hlf hhead hcontent)]
    rfl

theorem Form.split_bytes (f : Form) (hclear : f.Clear) :
    split f.bytes f.boundary.mark = [] :: (f.parts.map Part.bytes ++ [lit "--\r\n"]) := by
  have hcr : CR ∉ f.boundary.mark := f.boundary.not_mem_mark (by decide)
  have hlf : LF ∉ f.boundary.mark := f.boundary.not_mem_mark (by decide)
  -- what is behind the last mark is too short, but for its line end
  have hend : ¬ f.boundary.mark <:+: lit "--\r\n" := by
    intro h
    have hshape : lit "--\r\n" = lit "--" ++ CR :: ([] ++ LF :: []) := by decide
    rw [hshape, infix_append_cons hcr, infix_append_cons hlf] at h
    have hlen : (lit "--").length < f.boundary.mark.length := by
      rw [Boundary.mark, List.length_append]
      exact Nat.lt_add_of_pos_right (List.length_pos_iff.mpr f.boundary.bytes_ne_nil)
    rcases h with h | h | h
    · exact absurd h.length_le (by omega)
    · exact absurd h.length_le (by rw [List.length_nil]; omega)
    · exact absurd h.length_le (by rw [List.length_nil]; omega)
  have hne : f.boundary.mark ≠ [] := List.cons_ne_nil _ _
  exact split_stream hne hcr hlf hend (fun p hp => ⟨hclear p hp, f.absent p hp⟩) (q := [])
    fun _ r hr hs => absurd (List.suffix_nil.mp hs) hr

/-! ### The file -/

theorem findSome?_ite {α β : Type*} (q : α → Bool) (g : α → β) (l : List α) :
    l.findSome? (fun a => if q a = true then some (g a) else none) = (l.find? q).map g := by
  induction l with
  | nil => rfl
  | cons a l ih =>
    rw [List.findSome?_cons, List.find?_cons]
    cases hq : q a with
    | true => rfl
    | false => exact ih

theorem trim_crlf (b : Bytes) : trim (b ++ CRLF) = trim b := by
  rw [trim, show b ++ CRLF = (b ++ [CR]) ++ [LF] by rw [List.append_assoc]; rfl,
    List.rdropWhile_concat_pos _ _ _ (by decide), List.rdropWhile_concat_pos _ _ _ (by decide)]
  rfl

namespace Transcribe

theorem fileIn_bytes (p : Part) :
    fileIn p.bytes = if p.mentions = true then some (trim p.content) else none := by
  have hin : FILENAME <:+: p.bytes ↔ p.mentions = true := by
    rw [p.infix_bytes (by decide) (by decide) (by decide), Part.mentions, Part.named,
      Bool.or_eq_true, decide_eq_true_iff, decide_eq_true_iff]
  rw [fileIn]
  refine if_congr hin ?_ rfl
  rw [p.find_bytes, Option.map_some, p.drop_bytes, trim_crlf]

/-- **The file that the transcribe cell takes** is the first part that mentions a filename, and it
is trimmed. -/
theorem extract_file_bytes (f : Form) (hclear : f.Clear)
    (hcomma : codePoint ',' ∉ f.boundary.text) :
    extract_file f.bytes f.boundary.ctype =
      .ok ((f.parts.find? Part.mentions).map fun p => trim p.content) := by
  rw [extract_file, boundary_ctype _ hcomma]
  dsimp only
  rw [f.boundary.encode_mark]
  refine congrArg Except.ok ?_
  have hends : fileIn [] = none ∧ fileIn (lit "--\r\n") = none := by decide
  have hparts : fileIn ∘ Part.bytes =
      fun p => if p.mentions = true then some (trim p.content) else none := funext fileIn_bytes
  rw [f.split_bytes hclear, List.findSome?_cons, hends.1]
  dsimp only
  rw [List.findSome?_append, List.findSome?_map, hparts, findSome?_ite,
    List.findSome?_singleton, hends.2, Option.or_none]

end Transcribe

namespace Whisper

theorem fileIn_bytes (p : Part) :
    fileIn p.bytes = if p.named = true then some p.content else none := by
  have hne : p.content ++ CRLF ≠ [] := List.append_ne_nil_of_right_ne_nil _ (by decide)
  rw [fileIn, p.partition_bytes]
  dsimp only
  rw [beforeLast_append]
  refine if_congr ?_ rfl rfl
  rw [Part.named, decide_eq_true_iff]
  exact and_iff_left hne

/-- **The file that the other cells take** is the first part with a filename in its head, as it
is. -/
theorem extract_file_bytes (f : Form) (hclear : f.Clear) :
    extract_file f.bytes f.boundary.ctype = .ok ((f.parts.find? Part.named).map Part.content) := by
  rw [extract_file, boundary_ctype]
  dsimp only
  rw [if_neg f.boundary.some_char, f.boundary.encode_bytes]
  refine congrArg Except.ok ?_
  have hends : fileIn [] = none ∧ fileIn (lit "--\r\n") = none := by decide
  have hparts : fileIn ∘ Part.bytes =
      fun p => if p.named = true then some p.content else none := funext fileIn_bytes
  rw [← Boundary.mark, f.split_bytes hclear, List.findSome?_cons, hends.1]
  dsimp only
  rw [List.findSome?_append, List.findSome?_map, hparts, findSome?_ite,
    List.findSome?_singleton, hends.2, Option.or_none]

end Whisper

/-! ### The fields of the transcribe cell -/

namespace Part

/-- A head, with the name after what is always before it. -/
theorem head_shape (p : Part) : p.head = (CRLF ++ FORM_DATA) ++
    (NAME ++ (p.name.bytes ++ quote :: (p.suffix ++ p.extra.lines.flatMap (CRLF ++ ·)))) := by
  simp only [head, disposition, List.flatMap_cons, List.append_assoc, List.cons_append]

theorem file_head {p : Part} (h : p.isFile = true) : lit "filename=\"" <:+: p.head := by
  cases p with
  | text => cases h
  | file name filename extra content =>
    refine ⟨(CRLF ++ FORM_DATA) ++ (NAME ++ (name.bytes ++ (quote :: lit "; "))),
      filename.bytes ++ (quote :: extra.lines.flatMap (CRLF ++ ·)), ?_⟩
    have hcut : lit "; filename=\"" = lit "; " ++ lit "filename=\"" := by decide
    simp only [head_shape, suffix, hcut, List.append_assoc, List.cons_append, List.nil_append,
      Part.name, Part.extra]

theorem valueOf_file {p : Part} (h : p.isFile = true) (name : Text) : p.valueOf name = none := by
  cases p with
  | text => cases h
  | file => rfl

theorem valueOf_text {p : Part} (h : p.isFile = false) (name : Text) :
    p.valueOf name = if p.name.text = name then some (decodeUtf8 p.content) else none := by
  cases p with
  | text n extra value content encoded =>
    rw [valueOf, Part.content, decodeUtf8_encode encoded]
    rfl
  | file => cases h

end Part

theorem Quoted.bytes_ne_nil {q : Quoted} (h : q.text ≠ []) : q.bytes ≠ [] := by
  intro hnil
  have hempty : encodeUtf8 [] = some q.bytes := by rw [hnil]; rfl
  refine h ?_
  rw [← decodeUtf8_encode q.encoded, decodeUtf8_encode hempty]

namespace Transcribe

/-- The name that the cell finds in a head is the part's, unless that is empty. -/
theorem search_head (p : Part) (h : p.name.text ≠ []) :
    search NAME quoted p.head = some p.name.bytes := by
  have hfree : quote ∉ CRLF ++ Part.FORM_DATA := by decide
  have hskip : ∀ t r, r ≠ [] → r <:+ CRLF ++ Part.FORM_DATA → ¬ NAME <+: r ++ (NAME ++ t) :=
    fun t r hr hs => not_prefix_marked (c := quote) (w := lit "name=") (by decide)
      (fun hq => hfree (hs.subset hq)) hr [] t
  have hname : ∀ c ∈ p.name.bytes, decide (c ≠ quote) = true := fun c hc =>
    decide_eq_true fun he => p.name.plain.1 (he ▸ hc)
  rw [p.head_shape, search_append (hskip _)]
  refine search_of_mark (by decide) ?_
  rw [quoted, List.takeWhile_append_of_pos hname, List.dropWhile_append_of_pos hname,
    List.takeWhile_cons_of_neg (by decide), List.dropWhile_cons_of_neg (by decide), List.append_nil]
  exact if_pos ⟨Quoted.bytes_ne_nil h, List.cons_ne_nil _ _⟩

/-- A part gives the cell what it gives to the name. -/
theorem valueIn_bytes {p : Part} {name : Text} (h : p.Spoken name) :
    valueIn name p.bytes = p.valueOf name := by
  rw [valueIn, p.partition_bytes]
  dsimp only
  cases hfile : p.isFile with
  | true => rw [if_pos (Part.file_head hfile), Part.valueOf_file hfile]
  | false =>
    rw [Part.valueOf_text hfile]
    rcases h with h | h
    · rw [hfile] at h
      cases h
    by_cases hname : p.name.text = name
    · rw [if_pos hname] at h ⊢
      obtain ⟨hne, hbare, hplain, hvalue⟩ := h
      rw [if_neg hplain, search_head p (hname ▸ hne)]
      dsimp only
      rw [decodeUtf8_encode p.name.encoded, hname, if_pos hbare, trim_crlf, hvalue]
    · rw [if_neg hname] at h ⊢
      rcases h with h | ⟨hne, hbare⟩
      · rw [if_pos h]
      -- another name is read, if the head is not taken for a file's
      split
      · rfl
      rw [search_head p hne]
      dsimp only
      rw [decodeUtf8_encode p.name.encoded, if_neg hbare]

/-- **The transcribe cell's fields** are the form's, when each part is read under its own name
alone. -/
theorem fields_bytes (f : Form) (hclear : f.Clear) (hcomma : codePoint ',' ∉ f.boundary.text)
    {name : Text} (hspoken : ∀ p ∈ f.parts, p.Spoken name) :
    fields f.bytes f.boundary.ctype name = .ok (f.values name) := by
  rw [fields, boundary_ctype _ hcomma]
  dsimp only
  rw [f.boundary.encode_mark]
  refine congrArg Except.ok ?_
  have hends : valueIn name [] = none ∧ valueIn name (lit "--\r\n") = none := ⟨rfl, rfl⟩
  rw [f.split_bytes hclear, List.filterMap_cons_none hends.1, List.filterMap_append,
    List.filterMap_map, List.filterMap_cons_none hends.2, List.filterMap_nil, List.append_nil]
  exact List.filterMap_congr fun p hp => valueIn_bytes (hspoken p hp)

end Transcribe

/-! ### The fields of the other cells -/

namespace Quoted

variable (q : Quoted)

theorem key_shape : q.key = lit "name=" ++ quote :: (q.bytes ++ [quote]) := rfl

theorem key_ne_nil : q.key ≠ [] := List.cons_ne_nil _ _

theorem not_mem_key : CR ∉ q.key ∧ LF ∉ q.key := by
  obtain ⟨-, hcr, hlf⟩ := q.plain
  simp only [key, List.mem_append, List.mem_singleton, not_or]
  exact ⟨⟨by decide, hcr, by decide⟩, by decide, hlf, by decide⟩

theorem quote_mem_key : quote ∈ q.key := List.mem_append_left _ (by decide)

/-- The key is in the head of a part of the name. -/
theorem key_infix {p : Part} (h : p.name.text = q.text) : q.key <:+: p.head := by
  refine ⟨CRLF ++ Part.FORM_DATA, p.suffix ++ p.extra.lines.flatMap (CRLF ++ ·), ?_⟩
  rw [p.head_shape, key, bytes_inj.mpr h]
  simp only [List.append_assoc, List.cons_append, List.nil_append]

end Quoted

namespace Whisper

theorem keyOf_name (q : Quoted) : keyOf q.text = .ok q.key :=
  encode_of (encodeUtf8_append (a := NAME) (b := q.bytes ++ [quote]) (by decide)
    (encodeUtf8_append q.encoded (by decide)))

/-- What the key begins nowhere in is stepped over. -/
theorem found_skip {key s t : Bytes} (h : ∀ r, r ≠ [] → r <:+ s → ¬ key <+: r ++ t) :
    found key (s ++ t) = found key t := by
  have hdrop : ∀ i, (s ++ t).drop (i + s.length) = t.drop i := fun i => by
    rw [Nat.add_comm, ← List.drop_drop, List.drop_left]
  rw [found, find_append h, found]
  cases find t key with
  | none => rfl
  | some i =>
    rw [Option.map_some]
    dsimp only
    have hshift : ∀ k, i + s.length + k = i + k + s.length := fun k => by omega
    simp only [hshift, hdrop]

/-- A mark before a line end has no key. -/
theorem found_mark {q : Quoted} {b : Boundary} (t : Bytes) :
    found q.key (b.mark ++ CR :: t) = found q.key (CR :: t) := by
  refine found_skip fun r hr hs hp => ?_
  rw [prefix_append_cons q.not_mem_key.1] at hp
  exact b.not_mem_mark (.inr rfl) (hs.subset (hp.subset q.quote_mem_key))

/-- Nor has a part that has it neither in the head nor in the content. -/
theorem found_part {q : Quoted} {p : Part} (hhead : ¬ q.key <:+: p.head)
    (hcontent : ¬ q.key <:+: p.content) (t : Bytes) :
    found q.key (p.bytes ++ t) = found q.key t :=
  found_skip (p.not_prefix_bytes q.key_ne_nil q.not_mem_key.1 q.not_mem_key.2 hhead hcontent t)

theorem found_crlf {q : Quoted} (t : Bytes) : found q.key (CRLF ++ t) = found q.key t :=
  found_skip (not_prefix_head (c := 0x6E) (by decide) t)

/-- **The value of the name** is found in its part, when it is of one line and not empty. -/
theorem found_value {q : Quoted} {p : Part} (hname : p.name.text = q.text) (hne : p.content ≠ [])
    (hline : ¬ CRLF <:+: p.content) (t : Bytes) :
    found q.key (p.bytes ++ t) = some (some (decodeUtf8 p.content), CRLF ++ t) := by
  generalize hu : p.suffix ++ p.extra.lines.flatMap (CRLF ++ ·) = u
  have hhead : p.head = (CRLF ++ Part.FORM_DATA) ++ (q.key ++ u) := by
    rw [p.head_shape, Quoted.key, Quoted.bytes_inj.mpr hname, hu]
    simp only [List.append_assoc, List.cons_append, List.nil_append]
  have hfree : quote ∉ CRLF ++ Part.FORM_DATA := by decide
  have hskip : ∀ t r, r ≠ [] → r <:+ CRLF ++ Part.FORM_DATA → ¬ q.key <+: r ++ (q.key ++ t) := by
    intro t r hr hs
    rw [q.key_shape, List.append_assoc, List.cons_append]
    exact not_prefix_marked (by decide) (fun hq => hfree (hs.subset hq)) hr _ _
  -- from the key on, the head's end is the next blank line
  have hblank : ∀ t, find ((q.key ++ u) ++ (BLANK ++ t)) BLANK = some (q.key ++ u).length := by
    intro t
    have hsuffix : q.key ++ u <:+ p.head := hhead ▸ List.suffix_append _ _
    rw [find_append fun r hr hs => p.not_prefix_head _ r hr (hs.trans hsuffix), find_of_prefix
      (List.prefix_append _ _), Option.map_some, Nat.zero_add]
  have hcrlf : find (p.content ++ (CRLF ++ t)) CRLF = some p.content.length :=
    find_behind (c := CR) (w := [LF]) (by decide) hline (List.prefix_append _ _)
  have hshape : p.bytes ++ t = (CRLF ++ Part.FORM_DATA) ++
      (q.key ++ (u ++ (BLANK ++ (p.content ++ (CRLF ++ t))))) := by
    simp only [Part.bytes, hhead, List.append_assoc]
  rw [hshape, found_skip (hskip _), found, find_of_prefix (List.prefix_append _ _)]
  dsimp only
  rw [List.drop_zero, ← List.append_assoc, hblank]
  dsimp only
  have hdrop : ((q.key ++ u) ++ (BLANK ++ (p.content ++ (CRLF ++ t)))).drop
      (0 + ((q.key ++ u).length + 4)) = p.content ++ (CRLF ++ t) := by
    rw [Nat.zero_add, ← List.drop_drop, List.drop_left]
    rfl
  rw [hdrop, hcrlf]
  dsimp only
  rw [if_pos (List.length_pos_iff.mpr hne), List.take_left, List.drop_left]

theorem found_end (q : Quoted) (b : Boundary) : found q.key (b.mark ++ lit "--\r\n") = none := by
  have hfree : quote ∉ b.mark ++ lit "--\r\n" := by
    rw [List.mem_append, not_or]
    exact ⟨b.not_mem_mark (.inr rfl), by decide⟩
  have hskip : found q.key ((b.mark ++ lit "--\r\n") ++ []) = found q.key [] := by
    refine found_skip fun r _ hs hp => ?_
    rw [List.append_nil] at hp
    exact hfree (hs.subset (hp.subset q.quote_mem_key))
  rw [List.append_nil] at hskip
  rw [hskip]
  rfl

/-- A part and the search: it gives its value, or nothing is found in it. -/
theorem found_searched {q : Quoted} {p : Part} (b : Boundary) (h : p.Searched q) (t : Bytes) :
    (p.valueOf q.text = none ∧ found q.key (b.mark ++ (p.bytes ++ t)) = found q.key t) ∨
      ∃ v, p.valueOf q.text = some v ∧
        found q.key (b.mark ++ (p.bytes ++ t)) = some (some v, CRLF ++ t) := by
  have hmark : found q.key (b.mark ++ (p.bytes ++ t)) = found q.key (p.bytes ++ t) := found_mark _
  rw [hmark]
  rcases h with ⟨hfile, hname, hne, hline⟩ | ⟨hhead, hcontent⟩
  · refine .inr ⟨decodeUtf8 p.content, ?_, found_value hname hne hline t⟩
    rw [Part.valueOf_text hfile, if_pos hname]
  · refine .inl ⟨?_, found_part hhead hcontent t⟩
    cases hfile : p.isFile with
    | true => exact Part.valueOf_file hfile _
    | false => rw [Part.valueOf_text hfile, if_neg fun h => hhead (q.key_infix h)]

theorem fieldsAt_stream {q : Quoted} (b : Boundary) {ps : List Part}
    (hsearched : ∀ p ∈ ps, p.Searched q) : ∀ {fuel}, ps.length < fuel → ∀ {rest},
    found q.key rest = found q.key (stream b.mark ps) →
    fieldsAt q.key fuel rest = ps.filterMap (Part.valueOf q.text) := by
  induction ps with
  | nil =>
    intro fuel hfuel rest hrest
    obtain ⟨fuel, rfl⟩ := Nat.exists_eq_add_of_lt hfuel
    rw [fieldsAt, hrest, stream, found_end]
    rfl
  | cons p ps ih =>
    intro fuel hfuel rest hrest
    have hps := fun p hp => hsearched p (List.mem_cons_of_mem _ hp)
    rcases found_searched b (hsearched p List.mem_cons_self) (stream b.mark ps) with
      ⟨hvalue, hfound⟩ | ⟨v, hvalue, hfound⟩
    · rw [List.filterMap_cons_none hvalue]
      exact ih hps (Nat.lt_of_succ_lt hfuel) (hrest.trans hfound)
    · obtain ⟨fuel, rfl⟩ : ∃ n, fuel = n + 1 := ⟨fuel - 1, by omega⟩
      rw [List.filterMap_cons_some hvalue, fieldsAt, hrest, stream, hfound]
      dsimp only
      rw [ih hps (Nat.lt_of_succ_lt_succ hfuel) (found_crlf _)]
      rfl

theorem length_le_stream (mark : Bytes) (ps : List Part) : ps.length ≤ (stream mark ps).length := by
  induction ps with
  | nil => exact Nat.zero_le _
  | cons p ps ih =>
    have hpos : 0 < p.bytes.length := List.length_pos_iff.mpr (List.cons_ne_nil _ _)
    rw [stream, List.length_cons, List.length_append, List.length_append]
    omega

/-- **The whisper cell's fields** are the form's, when the name is in no other part. -/
theorem fields_bytes (f : Form) {q : Quoted} (hsearched : ∀ p ∈ f.parts, p.Searched q) :
    fields f.bytes q.text = .ok (f.values q.text) := by
  have hfuel : f.parts.length < f.bytes.length + 1 :=
    Nat.lt_succ_of_le (length_le_stream f.boundary.mark f.parts)
  rw [fields, keyOf_name]
  exact congrArg Except.ok (fieldsAt_stream f.boundary hsearched hfuel rfl)

end Whisper

/-- What the first round finds is the first value. -/
theorem Seamless.found_stream {q : Quoted} (b : Boundary) {ps : List Part}
    (hsearched : ∀ p ∈ ps, p.Searched q) :
    (Whisper.found q.key (stream b.mark ps)).bind Prod.fst =
      (ps.filterMap (Part.valueOf q.text)).head? := by
  induction ps with
  | nil =>
    rw [stream, Whisper.found_end]
    rfl
  | cons p ps ih =>
    rw [stream]
    rcases Whisper.found_searched b (hsearched p List.mem_cons_self) (stream b.mark ps) with
      ⟨hvalue, hfound⟩ | ⟨v, hvalue, hfound⟩
    · rw [List.filterMap_cons_none hvalue, hfound]
      exact ih fun p hp => hsearched p (List.mem_cons_of_mem _ hp)
    · rw [List.filterMap_cons_some hvalue, hfound]
      rfl

theorem Seamless.field_bytes (f : Form) {q : Quoted} (hsearched : ∀ p ∈ f.parts, p.Searched q) :
    Seamless.field f.bytes q.text = .ok (f.values q.text).head? := by
  rw [Seamless.field, Whisper.keyOf_name]
  exact congrArg Except.ok (Seamless.found_stream f.boundary hsearched)

/-! ### A form read exactly -/

/-- **A form is read exactly** by the three cells, of a boundary without a comma that is in no head
either, just when this holds: the first part that mentions a filename gives the file when it is
trimmed, for the transcribe cell; the first part with a filename in its head is the file, for the
other cells. A field is read exactly when each part is read under its own name, for the transcribe
cell; and when the name is in the heads of its own parts alone, for the others. -/
theorem form_read (f : Form) (hclear : f.Clear) (hcomma : codePoint ',' ∉ f.boundary.text) :
    (Transcribe.extract_file f.bytes f.boundary.ctype = .ok (some f.file.content) ↔
      ∃ p, f.parts.find? Part.mentions = some p ∧ trim p.content = f.file.content) ∧
    (Whisper.extract_file f.bytes f.boundary.ctype = .ok (some f.file.content) ↔
      ∃ p, f.parts.find? Part.named = some p ∧ p.content = f.file.content) ∧
    (Seamless.extract_file f.bytes f.boundary.ctype = .ok (some f.file.content) ↔
      ∃ p, f.parts.find? Part.named = some p ∧ p.content = f.file.content) ∧
    (∀ q : Quoted, (∀ p ∈ f.parts, p.Spoken q.text) →
      Transcribe.fields f.bytes f.boundary.ctype q.text = .ok (f.values q.text)) ∧
    (∀ q : Quoted, (∀ p ∈ f.parts, p.Searched q) →
      Whisper.fields f.bytes q.text = .ok (f.values q.text) ∧
        Whisper.field f.bytes q.text = .ok (f.values q.text).head? ∧
        Seamless.field f.bytes q.text = .ok (f.values q.text).head?) := by
  have hwhisper : Whisper.extract_file f.bytes f.boundary.ctype = .ok (some f.file.content) ↔
      ∃ p, f.parts.find? Part.named = some p ∧ p.content = f.file.content := by
    rw [Whisper.extract_file_bytes f hclear, Except.ok.injEq, Option.map_eq_some_iff]
  refine ⟨?_, hwhisper, hwhisper, fun q hspoken => ?_, fun q hsearched => ⟨?_, ?_, ?_⟩⟩
  · rw [Transcribe.extract_file_bytes f hclear hcomma, Except.ok.injEq, Option.map_eq_some_iff]
  · exact Transcribe.fields_bytes f hclear hcomma hspoken
  · exact Whisper.fields_bytes f hsearched
  · rw [Whisper.field, Whisper.fields_bytes f hsearched]
    rfl
  · exact Seamless.field_bytes f hsearched

/-- A name of one letter. -/
def nameA : Quoted := ⟨Text.of "a", lit "a", by decide, by decide⟩

def boundaryB : Boundary :=
  ⟨Text.of "b", false, by decide, List.all_eq_true.mp (by decide), by decide⟩

/-- A word and a file of two bytes. -/
def word : Part := .text nameA ⟨[], fun _ h => nomatch h⟩ (Text.of "x") (lit "x") (by decide)

def twoBytes : Part := .file nameA nameA ⟨[], fun _ h => nomatch h⟩ [1, 2]

def wordAndFile : Form where
  boundary := boundaryB
  before := [word]
  file := twoBytes
  after := []
  isFile := rfl
  texts := by rintro p (_ | ⟨_, h⟩); exacts [rfl, nomatch h]
  absent := by
    rintro p (_ | ⟨_, _ | ⟨_, h⟩⟩)
    · decide
    · decide
    · exact nomatch h

theorem form_read_word :
    Transcribe.extract_file wordAndFile.bytes wordAndFile.boundary.ctype = .ok (some [1, 2]) ∧
      Whisper.extract_file wordAndFile.bytes wordAndFile.boundary.ctype = .ok (some [1, 2]) ∧
      Transcribe.fields wordAndFile.bytes wordAndFile.boundary.ctype nameA.text =
        .ok [Text.of "x"] := by
  have hclear : wordAndFile.Clear := by
    rintro p (_ | ⟨_, _ | ⟨_, h⟩⟩)
    · decide
    · decide
    · exact nomatch h
  have hspoken : ∀ p ∈ wordAndFile.parts, p.Spoken nameA.text := by
    rintro p (_ | ⟨_, _ | ⟨_, h⟩⟩)
    · exact .inr (by decide)
    · exact .inl rfl
    · exact nomatch h
  have hmentions : wordAndFile.parts.find? Part.mentions = some twoBytes :=
    (List.find?_cons_of_neg (by decide)).trans (List.find?_cons_of_pos (by decide))
  have hnamed : wordAndFile.parts.find? Part.named = some twoBytes :=
    (List.find?_cons_of_neg (by decide)).trans (List.find?_cons_of_pos (by decide))
  obtain ⟨htranscribe, hwhisper, -, hfields, -⟩ := form_read wordAndFile hclear (by decide)
  exact ⟨htranscribe.mpr ⟨twoBytes, hmentions, by decide⟩,
    hwhisper.mpr ⟨twoBytes, hnamed, rfl⟩, hfields nameA hspoken⟩

/-- A file with a field's name in it, that ends in a dash. -/
def dashed : Part :=
  .file nameA nameA ⟨[], fun _ h => nomatch h⟩ (lit "name=\"b\"\r\n\r\nx\r\n-")

def nameB : Quoted := ⟨Text.of "b", lit "b", by decide, by decide⟩

def dashedFile : Form where
  boundary := boundaryB
  before := []
  file := dashed
  after := []
  isFile := rfl
  texts := fun _ h => nomatch h
  absent := by
    rintro p (_ | ⟨_, h⟩)
    · decide
    · exact nomatch h

/-- The file is cut at its end, and a field is read that was not sent. -/
theorem file_misread :
    Transcribe.extract_file dashedFile.bytes dashedFile.boundary.ctype ≠
        .ok (some dashedFile.file.content) ∧
      Whisper.fields dashedFile.bytes nameB.text ≠ .ok (dashedFile.values nameB.text) ∧
      Seamless.field dashedFile.bytes nameB.text ≠
        .ok (dashedFile.values nameB.text).head? := by
  refine ⟨?_, ?_, ?_⟩
  · decide
  · decide
  · decide

end Speech
