import Caravan.Python.Bytes
import Caravan.Python.Cut
import Caravan.Python.Utf8

/-!
# The forms that the speech cells read

A recording comes with its fields in a form of several parts. The transcribe cell splits the body
at the boundary and takes the file's part by `filename=` anywhere in it, the fields' parts by their
heads, and trims what it takes. The whisper and the seamless cells split the body for the file
alone, by `filename=` in a head, and look for a field's name in all of the body.

Below the readers are the forms themselves, as a client puts them together: texts and one file,
each part with a disposition and other lines in its head.
-/

namespace Speech

open Python Python.Bytes

/-- Bytes of a literal. -/
def lit (s : String) : Bytes := s.toList.map fun c => c.toNat.toUInt8

def CRLF : Bytes := [CR, LF]

/-- The blank line behind a head. -/
def BLANK : Bytes := CRLF ++ CRLF

def dash : UInt8 := 0x2D

def quote : UInt8 := 0x22

def FILENAME : Bytes := lit "filename="

def NAME : Bytes := lit "name=\""

/-- Where a reader raises: a text of half a pair that is encoded. -/
inductive Stop
  | encode
  deriving DecidableEq

/-- `text.encode()` -/
def encode (t : Text) : Except Stop Bytes :=
  match encodeUtf8 t with
  | some b => .ok b
  | none => .error .encode

/-- `rstrip(b"\r\n-")` -/
def trim (b : Bytes) : Bytes := b.rdropWhile fun c => c = CR || c = LF || c = dash

/-! ### The transcribe cell -/

namespace Transcribe

/-- `"?([^";,]+)` -/
def token (l : Text) : Option Text :=
  let l := if l.head? = some (codePoint '"') then l.tail else l
  let t := l.takeWhile fun c => c ≠ codePoint '"' && c ≠ codePoint ';' && c ≠ codePoint ','
  if t = [] then none else some t

/-- `re.search(r'boundary="?([^";,]+)"?', ctype)` -/
def boundary (ctype : Text) : Option Text := search (Text.of "boundary=") token ctype

/-- `([^"]+)"` -/
def quoted (b : Bytes) : Option Bytes :=
  let t := b.takeWhile (· ≠ quote)
  if t ≠ [] ∧ b.dropWhile (· ≠ quote) ≠ [] then some t else none

/-- `.rstrip("[]")` -/
def bare (name : Text) : Text :=
  name.rdropWhile fun c => c = codePoint '[' || c = codePoint ']'

/-- The value of a part, if it is sent under the name. -/
def valueIn (name : Text) (part : Bytes) : Option Text :=
  match partition part BLANK with
  | none => none
  | some (head, val) =>
    if lit "filename=\"" <:+: head then none
    else match search NAME quoted head with
      | some n =>
        if bare (decodeUtf8 n) = name then some (decodeUtf8 (trim val)).strip else none
      | none => none

/-- `_fields` -/
def fields (body : Bytes) (ctype name : Text) : Except Stop (List Text) :=
  match boundary ctype with
  | none => .ok []
  | some b => do
    let sep ← encode (Text.of "--" ++ b)
    return (split body sep).filterMap (valueIn name)

/-- The content of a part with a filename. -/
def fileIn (part : Bytes) : Option Bytes :=
  if FILENAME <:+: part then (find part BLANK).map fun idx => trim (part.drop (idx + 4)) else none

/-- `_extract_file` -/
def extract_file (body : Bytes) (ctype : Text) : Except Stop (Option Bytes) :=
  match boundary ctype with
  | none => .ok none
  | some b => do
    let sep ← encode (Text.of "--" ++ b)
    return (split body sep).findSome? fileIn

end Transcribe

/-! ### The whisper and the seamless cell -/

namespace Whisper

/-- `part.strip('"')` -/
def unquoted (t : Text) : Text :=
  (t.dropWhile (· = codePoint '"')).rdropWhile (· = codePoint '"')

/-- `_boundary` -/
def boundary (ctype : Text) : Option Text :=
  (ctype.splitOn (codePoint ';')).findSome? fun part =>
    let part := Text.strip part
    if (Text.of "boundary=").isPrefixOf part then some (unquoted (part.drop 9)) else none

/-- The content of a part with a filename in its head. Where a part has no blank line, `partition`
gives nothing as the rest of it. -/
def fileIn (part : Bytes) : Option Bytes :=
  match partition part BLANK with
  | none => none
  | some (head, rest) =>
    if FILENAME <:+: head ∧ rest ≠ [] then some (beforeLast rest CRLF) else none

/-- `_extract_file` -/
def extract_file (body : Bytes) (ctype : Text) : Except Stop (Option Bytes) :=
  match boundary ctype with
  | none => .ok none
  | some b =>
    if b = [] then .ok none
    else do
      let b ← encode b
      return (split body (lit "--" ++ b)).findSome? fileIn

/-- `('name="%s"' % name).encode()` -/
def keyOf (name : Text) : Except Stop Bytes := encode (Text.of "name=\"" ++ (name ++ Text.of "\""))

/-- A round of the search: the value behind the key's next place, if it is not empty, and where the
next round begins, which is behind the key at least. Places are counted from where this one does. -/
def found (key rest : Bytes) : Option (Option Text × Bytes) :=
  match find rest key with
  | none => none
  | some i =>
    match find (rest.drop i) BLANK with
    | none => none
    | some k =>
      let s := rest.drop (i + (k + 4))
      match find s CRLF with
      | some n => some (if 0 < n then some (decodeUtf8 (s.take n)) else none, s.drop n)
      | none => some (none, rest.drop (i + key.length))

/-- The loop of `_fields` from `at`. -/
def fieldsAt (key : Bytes) : ℕ → Bytes → List Text
  | 0, _ => []
  | fuel + 1, rest =>
    match found key rest with
    | none => []
    | some (value, next) => value.toList ++ fieldsAt key fuel next

/-- `_fields` -/
def fields (body : Bytes) (name : Text) : Except Stop (List Text) := do
  let key ← keyOf name
  return fieldsAt key (body.length + 1) body

/-- `_field` -/
def field (body : Bytes) (name : Text) : Except Stop (Option Text) := do
  let vals ← fields body name
  return vals.head?

end Whisper

/-- The seamless cell's `_boundary` and `_extract_file` are the whisper cell's. -/
def Seamless.extract_file (body : Bytes) (ctype : Text) : Except Stop (Option Bytes) :=
  Whisper.extract_file body ctype

/-- `_field`, which is the first round of the whisper cell's search. -/
def Seamless.field (body : Bytes) (name : Text) : Except Stop (Option Text) := do
  let key ← Whisper.keyOf name
  return (Whisper.found key body).bind Prod.fst

/-! ### Forms -/

/-- A text that is sent between quotes. -/
structure Quoted where
  text : Text
  bytes : Bytes
  encoded : encodeUtf8 text = some bytes
  plain : quote ∉ bytes ∧ CR ∉ bytes ∧ LF ∉ bytes

/-- The other lines of a part's head. -/
structure Extra where
  lines : List Bytes
  whole : ∀ l ∈ lines, l ≠ [] ∧ CR ∉ l ∧ LF ∉ l

/-- A part of a form: a text or a file. -/
inductive Part
  | text (name : Quoted) (extra : Extra) (value : Text) (content : Bytes)
      (encoded : encodeUtf8 value = some content)
  | file (name filename : Quoted) (extra : Extra) (content : Bytes)

namespace Part

def name : Part → Quoted
  | text name .. | file name .. => name

def extra : Part → Extra
  | text _ extra .. | file _ _ extra _ => extra

def content : Part → Bytes
  | text _ _ _ content _ | file _ _ _ content => content

/-- What is behind the name. -/
def suffix : Part → Bytes
  | text .. => []
  | file _ filename .. => lit "; filename=\"" ++ (filename.bytes ++ [quote])

def isFile : Part → Bool
  | text .. => false
  | file .. => true

/-- The value that a part gives to a name. -/
def valueOf (name : Text) : Part → Option Text
  | text n _ value _ _ => if n.text = name then some value else none
  | file .. => none

def FORM_DATA : Bytes := lit "Content-Disposition: form-data; "

/-- The line that tells what the part is. -/
def disposition (p : Part) : Bytes :=
  FORM_DATA ++ (NAME ++ (p.name.bytes ++ quote :: p.suffix))

/-- The lines of the head, each behind a line end. -/
def head (p : Part) : Bytes := (p.disposition :: p.extra.lines).flatMap (CRLF ++ ·)

/-- What is between two marks. -/
def bytes (p : Part) : Bytes := p.head ++ (BLANK ++ (p.content ++ CRLF))

/-- Whether the head has a filename in it. -/
def named (p : Part) : Bool := decide (FILENAME <:+: p.head)

/-- Whether there is a filename anywhere in the part. -/
def mentions (p : Part) : Bool := p.named || decide (FILENAME <:+: p.content)

end Part

/-- The characters of a boundary. -/
def isBoundaryChar (c : CodePoint) : Bool :=
  let n := c.val
  (0x30 ≤ n && n ≤ 0x39) || (0x41 ≤ n && n ≤ 0x5A) || (0x61 ≤ n && n ≤ 0x7A) ||
    decide (c ∈ Text.of "'()+_,-./:=? ")

/-- A boundary, and whether it is sent in quotes. -/
structure Boundary where
  text : Text
  quoted : Bool
  some_char : text ≠ []
  chars : ∀ c ∈ text, isBoundaryChar c = true
  closed : text.getLast? ≠ some (codePoint ' ')

/-- The characters are all of them ASCII. -/
def Boundary.bytes (b : Boundary) : Bytes := b.text.map fun c => c.val.toUInt8

/-- What is before and behind a part. -/
def Boundary.mark (b : Boundary) : Bytes := lit "--" ++ b.bytes

/-- The `Content-Type` of a form. -/
def Boundary.ctype (b : Boundary) : Text :=
  Text.of "multipart/form-data; boundary=" ++
    (if b.quoted then Text.of "\"" ++ (b.text ++ Text.of "\"") else b.text)

/-- The parts behind their marks, and the end. -/
def stream (mark : Bytes) : List Part → Bytes
  | [] => mark ++ lit "--\r\n"
  | p :: ps => mark ++ (p.bytes ++ stream mark ps)

/-- A form with one file among its parts, and a boundary that is in no content. -/
structure Form where
  boundary : Boundary
  before : List Part
  file : Part
  after : List Part
  isFile : file.isFile = true
  texts : ∀ p ∈ before ++ after, p.isFile = false
  absent : ∀ p ∈ before ++ file :: after, ¬ boundary.mark <:+: p.content

namespace Form

variable (f : Form)

def parts : List Part := f.before ++ f.file :: f.after

def bytes : Bytes := stream f.boundary.mark f.parts

/-- The values of the text fields of a name, in their order. -/
def values (name : Text) : List Text := f.parts.filterMap (Part.valueOf name)

/-- The boundary is in no head either. -/
def Clear : Prop := ∀ p ∈ f.parts, ¬ f.boundary.mark <:+: p.head

end Form

/-! ### What keeps a field -/

/-- What a search for a name looks for. -/
def Quoted.key (name : Quoted) : Bytes := NAME ++ (name.bytes ++ [quote])

namespace Part

/-- A text that the transcribe cell reads under its own name alone, and whole. -/
def Spoken (name : Text) (p : Part) : Prop :=
  p.isFile = true ∨
    if p.name.text = name then
      name ≠ [] ∧ Transcribe.bare name = name ∧ ¬ lit "filename=\"" <:+: p.head ∧
        (decodeUtf8 (trim p.content)).strip = decodeUtf8 p.content
    else lit "filename=\"" <:+: p.head ∨
      (p.name.text ≠ [] ∧ Transcribe.bare p.name.text ≠ name)

/-- A part that the other cells' search reads as it is: a text of the name, of one line that is not
empty, or a part without the name. -/
def Searched (name : Quoted) (p : Part) : Prop :=
  (p.isFile = false ∧ p.name.text = name.text ∧ p.content ≠ [] ∧ ¬ CRLF <:+: p.content) ∨
    (¬ name.key <:+: p.head ∧ ¬ name.key <:+: p.content)

end Part

end Speech
