import Caravan.Python.Bytes
import Caravan.Python.Find
import Caravan.Python.Utf8

/-!
# A form's fields

`RequestFields.form` reads the text fields of a form, and steps over its files: the boundary is
found, a part's head is read up to its blank line, and what is behind it up to the next boundary is
the value of the part's name, if the name has none yet. A form that was put together of parts is
read back: each name has the value of its first text part that is no longer than a field may be,
and files have none (`form_encode`).
-/

namespace Proxy.RequestFields

open Python Python.Bytes

/-! ### The reader -/

def CRLF : Bytes := [CR, LF]

/-- The most of a text field that is kept. -/
def FIELD_MAX : ℕ := 64 * 1024

def quote : CodePoint := codePoint '"'

def semicolon : CodePoint := codePoint ';'

def equals : CodePoint := codePoint '='

/-- A value without the quotes around it. -/
def unquoted (raw : Text) : Text :=
  if 2 ≤ raw.length ∧ raw.head? = some quote ∧ raw.getLast? = some quote then raw.tail.dropLast
  else raw

/-- A parameter, parted at its first `=`: the name in small letters, and the value. -/
def param (p : Text) : Text × Text :=
  let p := p.strip
  ((Text.strip (p.takeWhile (· ≠ equals))).map lowerAscii,
    unquoted (Text.strip ((p.dropWhile (· ≠ equals)).drop 1)))

/-- The parameters behind a value. -/
def paramsOf (value : Text) : List (Text × Text) := ((value.splitOn semicolon).drop 1).map param

/-- `RequestFields.boundary` -/
def boundary (content_type : Text) : Text :=
  match (paramsOf content_type).find? (·.1 = Text.of "boundary") with
  | some (_, value) => value
  | none => []

/-- The lines between the line ends. -/
def splitCrlf : Bytes → List Bytes
  | [] => [[]]
  | [c] => [[c]]
  | c :: d :: b =>
    if c = CR ∧ d = LF then [] :: splitCrlf b else (splitCrlf (d :: b)).modifyHead (c :: ·)

/-- `bytes.lower()` of one byte. -/
def lowerByte (c : UInt8) : UInt8 := if 0x41 ≤ c ∧ c ≤ 0x5A then c + 0x20 else c

def colon : UInt8 := 0x3A

/-- `content-disposition` -/
def DISPOSITION : Bytes :=
  [0x63, 0x6F, 0x6E, 0x74, 0x65, 0x6E, 0x74, 0x2D, 0x64, 0x69, 0x73, 0x70, 0x6F, 0x73, 0x69, 0x74,
    0x69, 0x6F, 0x6E]

/-- The line of a head that tells what its part is. -/
def isDisposition (line : Bytes) : Bool :=
  (Bytes.strip (line.takeWhile (· ≠ colon))).map lowerByte = DISPOSITION

def isName (p : Text × Text) : Bool := p.1 = Text.of "name"

def isFilename (p : Text × Text) : Bool :=
  p.1 = Text.of "filename" || p.1 = Text.of "filename*"

/-- A parameter of the disposition, read. -/
def told (found : Option Text × Bool) (p : Text × Text) : Option Text × Bool :=
  if isName p then (some p.2, found.2)
  else if isFilename p then (found.1, true)
  else found

/-- `_disposition`: the name of a part, and whether it has a filename. -/
def disposition (head : Bytes) : Option Text × Bool :=
  match (splitCrlf head).find? isDisposition with
  | none => (none, false)
  | some line =>
    (paramsOf (decodeUtf8 ((line.dropWhile (· ≠ colon)).drop 1))).foldl told (none, false)

/-- The fields by their names, in their order. -/
abbrev Fields := List (Text × Text)

/-- A part's field, where it is one. -/
def keep (fields : Fields) (found : Option Text × Bool) (content : Bytes) : Fields :=
  match found with
  | (some name, false) =>
    if name ≠ [] ∧ fields.lookup name = none ∧ content.length ≤ FIELD_MAX then
      fields ++ [(name, decodeUtf8 content)]
    else fields
  | _ => fields

/-- The loop over the parts, with the mark next in the body; no more turns than there are bytes. -/
def parts (mark : Bytes) : ℕ → Fields → ℕ → Bytes → Option Fields
  | 0, _, _, _ => none
  | fuel + 1, fields, count, body =>
    let body := body.drop mark.length
    if body.take 2 = [0x2D, 0x2D] then (if count ≠ 0 then some fields else none)
    else if body.take 2 ≠ CRLF then none
    else
      let body := body.drop 2
      match find body (CRLF ++ CRLF) with
      | none => none
      | some head_end =>
        let rest := body.drop (head_end + 4)
        match find rest (CRLF ++ mark) with
        | none => none
        | some nxt =>
          parts mark fuel (keep fields (disposition (body.take head_end)) (rest.take nxt))
            (count + 1) (rest.drop (nxt + 2))

/-- `boundary.encode("latin-1", errors="replace")` -/
def latin1 (t : Text) : Bytes := t.map fun c => if c.val < 0x100 then c.val.toUInt8 else 0x3F

/-- `RequestFields.form` -/
def form (content_type : Text) (body : Bytes) : Option Fields :=
  let boundary := boundary content_type
  if boundary = [] then none
  else
    let mark := [0x2D, 0x2D] ++ latin1 boundary
    match find body mark with
    | none => none
    | some start => parts mark (body.length + 1) [] 0 (body.drop start)

/-! ### A form that is put together -/

/-- A parameter as a client writes it: the value quoted or bare, perhaps with blanks around. -/
structure Param where
  before : Text
  key : Text
  gap : Text
  gap' : Text
  value : Text
  quoted : Bool
  after : Text
  blank : ∀ c ∈ before ++ gap ++ gap' ++ after, Python.isSpace c = true
  named : key ≠ []
  word : ∀ c ∈ key, Python.isSpace c = false ∧ c ≠ equals ∧ c ≠ semicolon
  whole : semicolon ∉ value
  bare : quoted = false → value ≠ [] ∧ (∀ c ∈ value.head?, Python.isSpace c = false) ∧
    (∀ c ∈ value.getLast?, Python.isSpace c = false) ∧ value.head? ≠ some quote

namespace Param

/-- The value between its quotes, if it has them. -/
def raw (p : Param) : Text := if p.quoted then quote :: (p.value ++ [quote]) else p.value

def text (p : Param) : Text :=
  p.before ++ ((p.key ++ (p.gap ++ equals :: (p.gap' ++ p.raw))) ++ p.after)

/-- The name that a reader compares. -/
def name (p : Param) : Text := p.key.map lowerAscii

end Param

/-- A value with its parameters behind it. -/
structure Value where
  kind : Text
  params : List Param
  whole : semicolon ∉ kind

def Value.text (v : Value) : Text := [semicolon].intercalate (v.kind :: v.params.map Param.text)

/-- The head of a part: its disposition among other lines, with one name. -/
structure Head where
  before : List Bytes
  title : Bytes
  value : Value
  bytes : Bytes
  after : List Bytes
  name : Text
  encoded : encodeUtf8 value.text = some bytes
  titled : isDisposition (title ++ [colon]) = true
  word : colon ∉ title
  others : ∀ line ∈ before, isDisposition line = false
  lines : ∀ line ∈ before ++ (title ++ colon :: bytes) :: after, line ≠ [] ∧ CR ∉ line
  named : (value.params.filter fun p => p.name = Text.of "name").map Param.value = [name]

namespace Head

/-- Whether the part has a filename. -/
def file (h : Head) : Bool :=
  h.value.params.any fun p => p.name = Text.of "filename" || p.name = Text.of "filename*"

def text (h : Head) : Bytes :=
  CRLF.intercalate (h.before ++ (h.title ++ colon :: h.bytes) :: h.after)

end Head

/-- A part of a form: a text, or a file. -/
inductive Part where
  | text (head : Head) (value : Text) (bytes : Bytes) (plain : head.file = false)
      (encoded : encodeUtf8 value = some bytes)
  | file (head : Head) (content : Bytes) (named : head.file = true)

namespace Part

def head : Part → Head
  | text head .. | file head .. => head

def content : Part → Bytes
  | text _ _ bytes _ _ => bytes
  | file _ content _ => content

/-- The value that a part gives to a name: text parts have one, up to the size of a field. -/
def valueOf (name : Text) : Part → Option Text
  | text head value bytes _ _ =>
    if name ≠ [] ∧ head.name = name ∧ bytes.length ≤ FIELD_MAX then some value else none
  | file .. => none

end Part

/-- A form as a client sends it: its type with the boundary, and the parts between the marks, none
of which has the mark in its content. -/
structure Encoded where
  type : Value
  boundary : Text
  preamble : Bytes
  parts : List Part
  epilogue : Bytes
  some_part : parts ≠ []
  bounded : boundary ≠ []
  named : (type.params.find? fun p => p.name = Text.of "boundary").map Param.value = some boundary
  oneLine : CR ∉ latin1 boundary ∧ LF ∉ latin1 boundary
  apart : preamble = [] ∨ ∃ text, preamble = text ++ CRLF
  clear : ¬ ([0x2D, 0x2D] ++ latin1 boundary) <:+: preamble
  absent : ∀ p ∈ parts, ¬ ([0x2D, 0x2D] ++ latin1 boundary) <:+: p.content

namespace Encoded

def mark (e : Encoded) : Bytes := [0x2D, 0x2D] ++ latin1 e.boundary

end Encoded

/-- The parts with their marks, and what is behind the last. -/
def stream (mark epilogue : Bytes) : List Part → Bytes
  | [] => mark ++ ([0x2D, 0x2D] ++ epilogue)
  | p :: ps =>
    mark ++ (CRLF ++ (p.head.text ++ (CRLF ++ CRLF ++ (p.content ++ (CRLF ++
      stream mark epilogue ps)))))

def Encoded.bytes (e : Encoded) : Bytes := e.preamble ++ stream e.mark e.epilogue e.parts

/-! ### Parameters -/

theorem Param.blanks (p : Param) :
    (∀ c ∈ p.before, Python.isSpace c = true) ∧ (∀ c ∈ p.gap, Python.isSpace c = true) ∧
      (∀ c ∈ p.gap', Python.isSpace c = true) ∧ ∀ c ∈ p.after, Python.isSpace c = true := by
  have h := p.blank
  simp only [List.mem_append] at h
  exact ⟨fun c hc => h c (.inl (.inl (.inl hc))), fun c hc => h c (.inl (.inl (.inr hc))),
    fun c hc => h c (.inl (.inr hc)), fun c hc => h c (.inr hc)⟩

theorem Param.raw_ends (p : Param) :
    p.raw ≠ [] ∧ (∀ c ∈ p.raw.head?, Python.isSpace c = false) ∧
      ∀ c ∈ p.raw.getLast?, Python.isSpace c = false := by
  unfold raw
  split
  · refine ⟨List.cons_ne_nil _ _, fun c hc => ?_, fun c hc => ?_⟩
    · rw [← Option.some.inj hc]
      decide
    · rw [← List.cons_append, List.getLast?_concat] at hc
      rw [← Option.some.inj hc]
      decide
  · next h =>
    obtain ⟨hne, hhead, hlast, -⟩ := p.bare (Bool.eq_false_iff.mpr h)
    exact ⟨hne, hhead, hlast⟩

theorem Param.unquoted_raw (p : Param) : unquoted p.raw = p.value := by
  unfold raw unquoted
  split
  · have hlong : 2 ≤ (quote :: (p.value ++ [quote])).length := by
      rw [List.length_cons, List.length_append]
      exact Nat.succ_le_succ (Nat.le_add_left _ _)
    have hlast : (quote :: (p.value ++ [quote])).getLast? = some quote := by
      rw [← List.cons_append, List.getLast?_concat]
    rw [if_pos ⟨hlong, rfl, hlast⟩, List.tail_cons, List.dropLast_concat]
  · next h => exact if_neg fun hq => (p.bare (Bool.eq_false_iff.mpr h)).2.2.2 hq.2.1

/-- **A parameter that is written is read**, without its blanks and quotes. -/
theorem param_text (p : Param) : param p.text = (p.name, p.value) := by
  obtain ⟨hbefore, hgap, hgap', hafter⟩ := p.blanks
  obtain ⟨hraw, hrawHead, hrawLast⟩ := p.raw_ends
  obtain ⟨d, key, hkey⟩ := List.exists_cons_of_ne_nil p.named
  have hnotEquals : ∀ c ∈ p.key ++ p.gap, decide (c ≠ equals) = true := by
    intro c hc
    rcases List.mem_append.mp hc with hc | hc
    · exact decide_eq_true (p.word c hc).2.1
    · refine decide_eq_true ?_
      rintro rfl
      exact absurd (hgap equals hc) (by decide)
  -- the blanks at the ends are taken off
  have hstrip : Text.strip p.text = (p.key ++ p.gap) ++ equals :: (p.gap' ++ p.raw) := by
    rw [List.append_assoc]
    refine stripWhile_between hbefore hafter ?_ ?_ ?_
    · rw [hkey]
      exact List.cons_ne_nil _ _
    · intro c hc
      rw [hkey] at hc
      rw [← Option.some.inj hc]
      exact (p.word d (hkey ▸ List.mem_cons_self)).1
    · intro c hc
      rw [← List.cons_append, ← List.append_assoc, ← List.append_assoc,
        List.getLast?_append_of_ne_nil _ hraw] at hc
      exact hrawLast c hc
  have hkeyStrip : Text.strip (p.key ++ p.gap) = p.key := by
    refine stripWhile_between (l := []) (fun _ h => nomatch h) hgap p.named ?_ ?_
    · exact fun c hc => (p.word c (List.mem_of_head? hc)).1
    · exact fun c hc => (p.word c (List.mem_of_getLast? hc)).1
  have hrawStrip : Text.strip (p.gap' ++ p.raw) = p.raw := by
    have := stripWhile_between (r := []) hgap' (fun _ h => nomatch h) hraw hrawHead hrawLast
    rwa [List.append_nil] at this
  unfold param
  dsimp only
  rw [hstrip, List.takeWhile_append_of_pos hnotEquals, List.dropWhile_append_of_pos hnotEquals,
    List.takeWhile_cons_of_neg (by decide), List.dropWhile_cons_of_neg (by decide),
    List.append_nil, List.drop_one, List.tail_cons, hkeyStrip, hrawStrip, p.unquoted_raw]
  rfl

theorem Param.text_whole (p : Param) : semicolon ∉ p.text := by
  obtain ⟨hbefore, hgap, hgap', hafter⟩ := p.blanks
  have hspace {t : Text} (ht : ∀ c ∈ t, Python.isSpace c = true) : semicolon ∉ t := fun h =>
    absurd (ht semicolon h) (by decide)
  have hraw : semicolon ∉ p.raw := by
    unfold raw
    split
    · intro h
      rcases List.mem_cons.mp h with h | h
      · exact absurd h (by decide)
      rcases List.mem_append.mp h with h | h
      · exact p.whole h
      · exact absurd (List.mem_singleton.mp h) (by decide)
    · exact p.whole
  unfold text
  simp only [List.mem_append, List.mem_cons, not_or]
  exact ⟨hspace hbefore, ⟨fun h => (p.word _ h).2.2 rfl, hspace hgap, by decide, hspace hgap',
    hraw⟩, hspace hafter⟩

/-- The parameters of a value come apart at the semicolons. -/
theorem paramsOf_text (v : Value) :
    paramsOf v.text = v.params.map fun p => (p.name, p.value) := by
  have hwhole : ∀ t ∈ v.kind :: v.params.map Param.text, semicolon ∉ t := by
    intro t ht
    rcases List.mem_cons.mp ht with rfl | ht
    · exact v.whole
    · obtain ⟨p, -, rfl⟩ := List.mem_map.mp ht
      exact p.text_whole
  unfold paramsOf Value.text
  rw [List.splitOn_intercalate _ hwhole (List.cons_ne_nil _ _), List.drop_one, List.tail_cons,
    List.map_map]
  exact List.map_congr_left fun p _ => param_text p

/-- The boundary that a form's type names is read. -/
theorem boundary_text (e : Encoded) : boundary e.type.text = e.boundary := by
  obtain ⟨p, hp, hvalue⟩ := Option.map_eq_some_iff.mp e.named
  unfold boundary
  rw [paramsOf_text, List.find?_map]
  have hfind : e.type.params.find? ((fun q : Text × Text => decide (q.1 = Text.of "boundary")) ∘
      fun p => (p.name, p.value)) = some p := hp
  rw [hfind]
  exact hvalue

/-! ### The head of a part -/

/-- Lines without line ends come apart at the line ends between them. -/
theorem splitCrlf_line {line : Bytes} (hline : CR ∉ line) (b : Bytes) :
    splitCrlf line = [line] ∧ splitCrlf (line ++ CRLF ++ b) = line :: splitCrlf b := by
  induction line with
  | nil => exact ⟨rfl, if_pos ⟨rfl, rfl⟩⟩
  | cons c line ih =>
    rw [List.mem_cons, not_or] at hline
    obtain ⟨ihEnd, ihMore⟩ := ih hline.2
    have hc : ∀ d, ¬ (c = CR ∧ d = LF) := fun d h => hline.1 h.1.symm
    constructor
    · cases line with
      | nil => rfl
      | cons d line => rw [splitCrlf, if_neg (hc d), ihEnd]; rfl
    · obtain ⟨d, rest, hrest⟩ : ∃ d rest, line ++ CRLF ++ b = d :: rest := by
        cases line with
        | nil => exact ⟨CR, _, rfl⟩
        | cons d line => exact ⟨d, _, rfl⟩
      rw [List.cons_append, List.cons_append, hrest, splitCrlf, if_neg (hc d), ← hrest, ihMore]
      rfl

theorem splitCrlf_lines {lines : List Bytes} (hne : lines ≠ []) (hlines : ∀ l ∈ lines, CR ∉ l) :
    splitCrlf (CRLF.intercalate lines) = lines := by
  induction lines with
  | nil => exact absurd rfl hne
  | cons line lines ih =>
    obtain ⟨hline, hlines⟩ := List.forall_mem_cons.mp hlines
    cases lines with
    | nil =>
      rw [List.intercalate_singleton]
      exact (splitCrlf_line hline []).1
    | cons line' lines =>
      rw [List.intercalate_cons_cons, (splitCrlf_line hline _).2,
        ih (List.cons_ne_nil _ _) hlines]

/-- **The blank line** behind the lines of a head is the first one. -/
theorem find_blank {lines : List Bytes} (hne : lines ≠ []) (hlines : ∀ l ∈ lines, l ≠ [] ∧ CR ∉ l)
    (b : Bytes) : find (CRLF.intercalate lines ++ (CRLF ++ CRLF ++ b)) (CRLF ++ CRLF) =
      some (CRLF.intercalate lines).length := by
  -- what begins within a line begins with none of the line end's bytes
  have hwithin {line r : Bytes} (hline : CR ∉ line) (hr : r ≠ []) (hs : r <:+ line) (t : Bytes) :
      ¬ CRLF ++ CRLF <+: r ++ t := by
    intro hp
    obtain ⟨c, r, rfl⟩ := List.exists_cons_of_ne_nil hr
    obtain ⟨rfl, -⟩ := List.cons_prefix_cons.mp hp
    exact hline (hs.subset List.mem_cons_self)
  induction lines with
  | nil => exact absurd rfl hne
  | cons line lines ih =>
    obtain ⟨⟨-, hline⟩, hrest⟩ := List.forall_mem_cons.mp hlines
    cases lines with
    | nil =>
      rw [List.intercalate_singleton, find_append fun r hr hs => hwithin hline hr hs _,
        find_of_prefix (List.prefix_append _ _), Option.map_some, Nat.zero_add]
    | cons line' lines =>
      obtain ⟨hne', hline'⟩ := hrest line' List.mem_cons_self
      obtain ⟨d, tail, hd⟩ : ∃ d tail, CRLF.intercalate (line' :: lines) = d :: tail ∧ d ≠ CR := by
        obtain ⟨d, line', rfl⟩ := List.exists_cons_of_ne_nil hne'
        have hdCR : d ≠ CR := fun h => hline' (h ▸ List.mem_cons_self)
        cases lines with
        | nil => exact ⟨d, line', List.intercalate_singleton, hdCR⟩
        | cons line'' lines => exact ⟨d, _, List.intercalate_cons_cons, hdCR⟩
      have hlater : ∀ r, r ≠ [] → r <:+ line ++ CRLF →
          ¬ CRLF ++ CRLF <+: r ++ (CRLF.intercalate (line' :: lines) ++ (CRLF ++ CRLF ++ b)) := by
        intro r hr hs hp
        rw [hd.1] at hp
        rcases List.suffix_or_suffix_of_suffix hs (List.suffix_append line CRLF) with
          hs | ⟨r', rfl⟩
        · -- the line end itself is followed by no other
          rcases List.suffix_cons_iff.mp hs with rfl | hs
          · obtain ⟨-, hp⟩ := List.cons_prefix_cons.mp hp
            obtain ⟨-, hp⟩ := List.cons_prefix_cons.mp hp
            obtain ⟨h, -⟩ := List.cons_prefix_cons.mp hp
            exact hd.2 h.symm
          · rcases List.suffix_cons_iff.mp hs with rfl | hs
            · obtain ⟨h, -⟩ := List.cons_prefix_cons.mp hp
              exact absurd h (by decide)
            · exact hr (List.suffix_nil.mp hs)
        · cases r' with
          | nil =>
            obtain ⟨-, hp⟩ := List.cons_prefix_cons.mp hp
            obtain ⟨-, hp⟩ := List.cons_prefix_cons.mp hp
            obtain ⟨h, -⟩ := List.cons_prefix_cons.mp hp
            exact hd.2 h.symm
          | cons c r' =>
            obtain ⟨u, hu⟩ := hs
            rw [← List.append_assoc] at hu
            rw [List.append_assoc] at hp
            exact hwithin hline (List.cons_ne_nil c r') ⟨u, List.append_cancel_right hu⟩ _ hp
      rw [List.intercalate_cons_cons, List.append_assoc, find_append hlater,
        ih (List.cons_ne_nil _ _) hrest, Option.map_some, Nat.add_comm, ← List.length_append]

/-- What is told of a part, from what was found before. -/
theorem foldl_told (ps : List (Text × Text)) (found : Option Text × Bool) :
    ps.foldl told found =
      ((((ps.filter isName).map Prod.snd).getLast?).or found.1, found.2 || ps.any isFilename) := by
  induction ps generalizing found with
  | nil => rw [List.foldl_nil, List.any_nil, Bool.or_false]; rfl
  | cons p ps ih =>
    rw [List.foldl_cons, ih, told]
    by_cases hname : isName p = true
    · have hfile : isFilename p = false := by
        have hkey : p.1 = Text.of "name" := of_decide_eq_true hname
        rw [isFilename, hkey]
        decide
      rw [if_pos hname, List.filter_cons_of_pos hname, List.map_cons, List.any_cons, hfile,
        Bool.false_or, List.getLast?_cons]
      cases ((ps.filter isName).map Prod.snd).getLast? <;> rfl
    · rw [if_neg hname, List.filter_cons_of_neg hname, List.any_cons]
      by_cases hfile : isFilename p = true
      · rw [if_pos hfile, hfile, Bool.true_or, Bool.or_true]
      · rw [if_neg hfile, Bool.eq_false_iff.mpr hfile, Bool.false_or]

/-- **A head** tells its name, and whether the part is a file. -/
theorem disposition_text (h : Head) : disposition h.text = (some h.name, h.file) := by
  have hdisposition : isDisposition (h.title ++ colon :: h.bytes) = true := by
    have htitled := h.titled
    unfold isDisposition at htitled ⊢
    have hword : ∀ c ∈ h.title, decide (c ≠ colon) = true := fun c hc =>
      decide_eq_true fun he => h.word (he ▸ hc)
    rw [List.takeWhile_append_of_pos hword, List.takeWhile_cons_of_neg (by decide)] at htitled ⊢
    exact htitled
  have hbytes : ((h.title ++ colon :: h.bytes).dropWhile (· ≠ colon)).drop 1 = h.bytes := by
    have hword : ∀ c ∈ h.title, decide (c ≠ colon) = true := fun c hc =>
      decide_eq_true fun he => h.word (he ▸ hc)
    rw [List.dropWhile_append_of_pos hword, List.dropWhile_cons_of_neg (by decide)]
    rfl
  have hfind : (h.before ++ (h.title ++ colon :: h.bytes) :: h.after).find? isDisposition =
      some (h.title ++ colon :: h.bytes) := by
    rw [List.find?_append, List.find?_eq_none.mpr fun line hline => by
      rw [h.others line hline]; decide, List.find?_cons_of_pos hdisposition]
    rfl
  unfold disposition Head.text
  rw [splitCrlf_lines (List.append_ne_nil_of_right_ne_nil _ (List.cons_ne_nil _ _))
    fun line hline => (h.lines line hline).2, hfind]
  dsimp only
  rw [hbytes, decodeUtf8_encode h.encoded, paramsOf_text, foldl_told]
  have hname : (((h.value.params.map fun p => (p.name, p.value)).filter isName).map Prod.snd) =
      [h.name] := by
    rw [List.filter_map, List.map_map]
    exact h.named
  rw [hname, List.any_map]
  rfl

/-! ### The parts -/

/-- A part that is passed. -/
def pass (fields : Fields) (p : Part) : Fields :=
  keep fields (some p.head.name, p.head.file) p.content

theorem stream_mark (mark epilogue : Bytes) (ps : List Part) :
    mark <+: stream mark epilogue ps := by
  cases ps <;> exact List.prefix_append _ _

theorem length_le_stream (mark epilogue : Bytes) (ps : List Part) :
    ps.length ≤ (stream mark epilogue ps).length := by
  induction ps with
  | nil => exact Nat.zero_le _
  | cons p ps ih =>
    have hline : CRLF.length = 2 := rfl
    simp only [stream, List.length_append, List.length_cons]
    omega

/-- **The loop** passes the parts of a stream in their order. -/
theorem parts_stream {mark : Bytes} (hmark : CR ∉ mark) {ps : List Part}
    (habsent : ∀ p ∈ ps, ¬ mark <:+: p.content) (epilogue : Bytes) {fuel : ℕ}
    (hfuel : ps.length < fuel) (fields : Fields) {count : ℕ} (hcount : count ≠ 0 ∨ ps ≠ []) :
    parts mark fuel fields count (stream mark epilogue ps) = some (ps.foldl pass fields) := by
  induction ps generalizing fuel fields count with
  | nil =>
    obtain ⟨fuel, rfl⟩ := Nat.exists_eq_succ_of_ne_zero (Nat.ne_of_gt hfuel)
    rw [parts, stream, List.drop_left]
    exact (if_pos rfl).trans (if_pos (hcount.resolve_right fun h => h rfl))
  | cons p ps ih =>
    obtain ⟨fuel, rfl⟩ := Nat.exists_eq_succ_of_ne_zero (Nat.ne_of_gt (Nat.zero_lt_of_lt hfuel))
    obtain ⟨hp, habsent⟩ := List.forall_mem_cons.mp habsent
    -- the blank line behind the head
    have hhead := find_blank (List.append_ne_nil_of_right_ne_nil p.head.before
      (List.cons_ne_nil (p.head.title ++ colon :: p.head.bytes) p.head.after)) p.head.lines
      (p.content ++ (CRLF ++ stream mark epilogue ps))
    change find (p.head.text ++ _) _ = some p.head.text.length at hhead
    -- and the mark behind the content
    have hnext : find (p.content ++ (CRLF ++ stream mark epilogue ps)) (CRLF ++ mark) =
        some p.content.length := by
      have hCR : CR ∉ LF :: mark := by
        rw [List.mem_cons, not_or]
        exact ⟨by decide, hmark⟩
      refine find_behind hCR (fun h => hp ?_)
        ((List.prefix_append_right_inj CRLF).mpr (stream_mark mark epilogue ps))
      exact (List.suffix_append CRLF mark).isInfix.trans h
    have hrest : (p.head.text ++ (CRLF ++ CRLF ++ (p.content ++ (CRLF ++
        stream mark epilogue ps)))).drop (p.head.text.length + 4) =
          p.content ++ (CRLF ++ stream mark epilogue ps) := List.drop_length_add_append _
    have hbehind : (p.content ++ (CRLF ++ stream mark epilogue ps)).drop (p.content.length + 2) =
        stream mark epilogue ps := List.drop_length_add_append _
    have htake (b : Bytes) : (CRLF ++ b).take 2 = CRLF := rfl
    have htwo (b : Bytes) : (CRLF ++ b).drop 2 = b := rfl
    rw [parts, stream, List.drop_left]
    dsimp only
    rw [htake, if_neg (by decide), if_neg (not_not_intro rfl), htwo, hhead]
    dsimp only
    rw [hrest, hnext]
    dsimp only
    rw [hbehind, List.take_left, List.take_left, disposition_text,
      ih habsent (Nat.lt_of_succ_lt_succ hfuel) _ (.inl (Nat.succ_ne_zero count))]
    rfl

/-- What the fields hold once the parts are passed: what they held, or what the first part with a
value for the name gives. -/
theorem lookup_pass (ps : List Part) (fields : Fields) (name : Text) :
    (ps.foldl pass fields).lookup name =
      (fields.lookup name).or (ps.findSome? (Part.valueOf name)) := by
  induction ps generalizing fields with
  | nil => exact Option.or_none.symm
  | cons p ps ih =>
    have hpass : (pass fields p).lookup name = (fields.lookup name).or (p.valueOf name) := by
      cases p with
      | file head content hfile =>
        have hkeep : pass fields (.file head content hfile) = fields := by
          unfold pass keep
          rw [show (Part.file head content hfile).head.file = true from hfile]
        rw [hkeep]
        exact Option.or_none.symm
      | text head value bytes hplain hencoded =>
        have hkeep : pass fields (.text head value bytes hplain hencoded) =
            if head.name ≠ [] ∧ fields.lookup head.name = none ∧ bytes.length ≤ FIELD_MAX then
              fields ++ [(head.name, value)] else fields := by
          unfold pass keep
          rw [show (Part.text head value bytes hplain hencoded).head.file = false from hplain]
          dsimp only [Part.head, Part.content]
          rw [decodeUtf8_encode hencoded]
          rfl
        rw [hkeep, Part.valueOf]
        by_cases hname : head.name = name
        · subst hname
          cases hlookup : fields.lookup head.name with
          | some value' =>
            rw [if_neg fun h => absurd h.2.1 (Option.some_ne_none value'), hlookup]
            rfl
          | none =>
            split
            next h =>
              rw [if_pos ⟨h.1, rfl, h.2.2⟩, List.lookup_append, hlookup, List.lookup_cons_self]
            next h =>
              rw [if_neg fun h' => h ⟨h'.1, rfl, h'.2.2⟩, hlookup]
              rfl
        · have hnone : [(head.name, value)].lookup name = none := by
            rw [List.lookup_cons, beq_false_of_ne (Ne.symm hname)]
            rfl
          have hother : (if name ≠ [] ∧ head.name = name ∧ bytes.length ≤ FIELD_MAX then some value
              else none) = none := if_neg fun h => hname h.2.1
          rw [hother, Option.or_none]
          split
          · rw [List.lookup_append, hnone, Option.or_none]
          · rfl
    rw [List.foldl_cons, ih, hpass, Option.or_assoc, List.findSome?_cons]
    cases p.valueOf name <;> rfl

/-- The parts of a form are passed from the first to the last. -/
theorem form_pass (e : Encoded) : form e.type.text e.bytes = some (e.parts.foldl pass []) := by
  obtain ⟨hCR, hLF⟩ := e.oneLine
  have hmarkCR : CR ∉ e.mark := by
    unfold Encoded.mark
    rw [List.mem_append, not_or]
    exact ⟨by decide, hCR⟩
  have hmarkLF : LF ∉ e.mark := by
    unfold Encoded.mark
    rw [List.mem_append, not_or]
    exact ⟨by decide, hLF⟩
  -- the first mark is the one behind the preamble
  have hstart : find e.bytes e.mark = some e.preamble.length := by
    have hlater : ∀ r, r ≠ [] → r <:+ e.preamble →
        ¬ e.mark <+: r ++ stream e.mark e.epilogue e.parts := by
      intro r hr hs hp
      rcases e.apart with hnil | ⟨text, htext⟩
      · exact hr (List.suffix_nil.mp (hnil ▸ hs))
      · have hlines : e.preamble = (text ++ [CR]) ++ [LF] := by
          rw [htext, List.append_assoc]
          rfl
        rcases List.suffix_concat_iff.mp (hlines ▸ hs) with rfl | ⟨r', rfl, hr'⟩
        · exact hr rfl
        · rw [List.append_assoc] at hp
          have hin := ((prefix_append_cons hmarkLF).mp hp).isInfix.trans hr'.isInfix
          refine e.clear (hin.trans ?_)
          rw [hlines]
          exact (List.prefix_append _ _).isInfix
    unfold Encoded.bytes
    rw [find_append hlater, find_of_prefix (stream_mark _ _ _), Option.map_some, Nat.zero_add]
  have hfuel : e.parts.length < e.bytes.length + 1 :=
    Nat.lt_succ_of_le ((length_le_stream e.mark e.epilogue e.parts).trans (by
      unfold Encoded.bytes
      rw [List.length_append]
      exact Nat.le_add_left _ _))
  unfold form
  rw [boundary_text, if_neg e.bounded]
  change (match find e.bytes e.mark with
    | none => none
    | some start => parts e.mark (e.bytes.length + 1) [] 0 (e.bytes.drop start)) = _
  rw [hstart]
  dsimp only
  rw [show e.bytes.drop e.preamble.length = stream e.mark e.epilogue e.parts from List.drop_left]
  exact parts_stream hmarkCR e.absent e.epilogue hfuel [] (.inr e.some_part)

/-- **A form is read back**: each name has the value of its first text part that a field can hold,
and a file has none. -/
theorem form_encode (e : Encoded) :
    ∃ fields, form e.type.text e.bytes = some fields ∧
      ∀ name, fields.lookup name = e.parts.findSome? (Part.valueOf name) :=
  ⟨e.parts.foldl pass [], form_pass e, fun name => lookup_pass e.parts [] name⟩

/-! ### A text that is no field -/

/-- A parameter without blanks around it. -/
def tight (key value : Text) (named : key ≠ [])
    (word : key.all (fun c => !Python.isSpace c && decide (c ≠ equals ∧ c ≠ semicolon)) = true)
    (whole : semicolon ∉ value) : Param where
  before := []
  key := key
  gap := []
  gap' := []
  value := value
  quoted := true
  after := []
  blank := fun _ h => nomatch h
  named := named
  word := fun c hc => by
    have h := List.all_eq_true.mp word c hc
    rwa [Bool.and_eq_true, Bool.not_eq_true', decide_eq_true_iff] at h
  whole := whole
  bare := fun h => nomatch h

/-- The type of a form whose boundary is `x`. -/
def FORM : Value where
  kind := Text.of "multipart/form-data"
  params := [tight (Text.of "boundary") (Text.of "x") (by decide) (by decide) (by decide)]
  whole := by decide

/-- A field that is named `model`. -/
def FIELD : Value where
  kind := Text.of "form-data"
  params := [tight (Text.of "name") (Text.of "model") (by decide) (by decide) (by decide)]
  whole := by decide

def MODEL : Head where
  before := []
  title := DISPOSITION
  value := FIELD
  bytes := (encodeUtf8 FIELD.text).getD []
  after := []
  name := Text.of "model"
  encoded := by decide
  titled := by decide
  word := by decide
  others := fun _ h => nomatch h
  lines := fun line hline => by
    rw [List.mem_singleton.mp hline]
    decide
  named := by decide

/-- As many letters as a field cannot hold. -/
def LONG : ℕ := FIELD_MAX + 1

theorem encodeUtf8_letters (n : ℕ) :
    encodeUtf8 (List.replicate n (codePoint 'x')) = some (List.replicate n 0x78) := by
  induction n with
  | zero => rfl
  | succ n ih =>
    rw [List.replicate_succ, List.replicate_succ, encodeUtf8, ih]
    rfl

/-- A form with one text, which is too long. -/
def LONG_FORM : Encoded where
  type := FORM
  boundary := Text.of "x"
  preamble := []
  parts := [.text MODEL (List.replicate LONG (codePoint 'x')) (List.replicate LONG 0x78)
    (by decide) (encodeUtf8_letters LONG)]
  epilogue := CRLF
  some_part := List.cons_ne_nil _ _
  bounded := by decide
  named := by decide
  oneLine := by decide
  apart := .inl rfl
  clear := by decide
  absent := fun p hp h => by
    rw [List.mem_singleton.mp hp] at h
    have hdash := h.subset (List.mem_cons_self : (0x2D : UInt8) ∈ _)
    exact absurd (List.eq_of_mem_replicate hdash) (by decide)

theorem valueOf_long {head : Head} {value : Text} {bytes : Bytes} {plain : head.file = false}
    {encoded : encodeUtf8 value = some bytes} (hlong : FIELD_MAX < bytes.length) (name : Text) :
    Part.valueOf name (.text head value bytes plain encoded) = none :=
  if_neg fun h => absurd h.2.2 (Nat.not_le.mpr hlong)

/-- A text that is longer than a field may be has no value. -/
theorem long_form : ∃ fields, form FORM.text LONG_FORM.bytes = some fields ∧
    fields.lookup (Text.of "model") = none := by
  refine ⟨_, form_pass LONG_FORM, ?_⟩
  rw [lookup_pass]
  show (none : Option Text).or (([_] : List Part).findSome? (Part.valueOf _)) = none
  rw [Option.none_or, List.findSome?_singleton]
  refine valueOf_long ?_ _
  rw [List.length_replicate]
  exact Nat.lt_succ_self FIELD_MAX

end Proxy.RequestFields
