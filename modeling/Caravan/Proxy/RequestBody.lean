import Caravan.Python.Bytes
import Caravan.Python.Value
import Mathlib.Data.List.Dedup

/-!
# A request's body

`RequestBody` takes a body off the connection by its length or chunk by chunk. What is written in
chunks reads back, and leaves the stream at the next request (`read_encode`). Of the rest, what
the reader returns has the framing that its headers say, and what it raises is its own
`Malformed` (`read_framed`), as long as no size is more than one object can hold and no trailer
line is longer than a piece: the reader takes such a line in pieces, and each of them for a line.
-/

namespace Proxy.RequestBody

open Python Python.Bytes

/-! ### The reader -/

/-- The longest line a chunk's size may take. -/
def LINE : ℕ := 4096

/-- The most trailer lines after the last chunk. -/
def TRAILERS : ℕ := 64

/-- `sys.maxsize` -/
def MAXSIZE : ℕ := 2 ^ 63 - 1

/-- What `RequestBody` raises: `Malformed`, and what is raised under its hands. -/
inductive Raised where
  | malformed (why : Text)
  | value
  | overflow
  | memory
  deriving DecidableEq

/-- The headers of a request, as they came. -/
abbrev Headers := List (Text × Text)

/-- `str.lower` of the characters that a header is decoded to. -/
def lower (c : CodePoint) : CodePoint :=
  if h : (0x41 ≤ c.val ∧ c.val ≤ 0x5A) ∨ (0xC0 ≤ c.val ∧ c.val ≤ 0xDE ∧ c.val ≠ 0xD7) then
    ⟨c.val + 0x20, by omega⟩
  else c

/-- `headers.get_all(name)` -/
def getAll (h : Headers) (name : Text) : List Text :=
  (h.filter fun p => p.1.map lower = name).map Prod.snd

/-- The codings of a body. -/
def codings (h : Headers) : List Text :=
  (getAll h (Text.of "transfer-encoding")).flatMap fun value =>
    (value.splitOn (codePoint ',')).filterMap fun c =>
      if Text.strip c = [] then none else some ((Text.strip c).map lower)

/-- The lengths that are said of a body. -/
def lengths (h : Headers) : List Text :=
  ((getAll h (Text.of "content-length")).map Text.strip).dedup

/-- What a text of digits says. -/
def number (raw : Text) : ℕ := raw.foldl (fun n c => 10 * n + (c.val - 0x30)) 0

/-- `raw.isascii() and raw.isdigit()` -/
def isDigits (raw : Text) : Bool := raw ≠ [] && raw.all fun c => 0x30 ≤ c.val && c.val ≤ 0x39

/-- A digit of a size. -/
def hexValue (c : UInt8) : Option ℕ :=
  if 0x30 ≤ c ∧ c ≤ 0x39 then some (c.toNat - 0x30)
  else if 0x41 ≤ c ∧ c ≤ 0x46 then some (c.toNat - 0x37)
  else if 0x61 ≤ c ∧ c ≤ 0x66 then some (c.toNat - 0x57)
  else none

/-- `int(size, 16)` of what `SIZE` matches. -/
def hexSize (size : Bytes) : Option ℕ :=
  if size ≠ [] ∧ (size.all fun c => (hexValue c).isSome) then
    some (size.foldl (fun n c => 16 * n + (hexValue c).getD 0) 0)
  else none

/-- The size that a line says, its extensions left out. -/
def sizeOf (line : Bytes) : Option ℕ := hexSize (strip (line.takeWhile (· ≠ 0x3B)))

/-- A line with nothing on it. -/
def isBlank (line : Bytes) : Bool := line = [CR, LF] || line = [LF]

/-- `line.endswith(b"\n")` -/
def endsLine (line : Bytes) : Bool := line.getLast? = some LF

/-- The trailers, with so many lines left. -/
def trailers : ℕ → Bytes → Except Raised Bytes
  | 0, _ => .error (.malformed (Text.of "more than 64 trailer lines"))
  | n + 1, b =>
    let (line, rest) := readline (LINE + 1) b
    if isBlank line || line = [] then .ok rest else trailers n rest

-- the bytes that the process can hold in one object
variable (room : ℕ)

/-- `rfile.read(n)`, and what it leaves. -/
def take (n : ℕ) (b : Bytes) : Except Raised (Bytes × Bytes) :=
  if MAXSIZE < n then .error .overflow
  else if room < n then .error .memory
  else .ok (b.take n, b.drop n)

/-- One turn of `chunks`: the data of a chunk, or none at the last one. -/
def turn (b : Bytes) : Except Raised (Option Bytes × Bytes) :=
  let (line, b) := readline (LINE + 1) b
  if !endsLine line then
    .error (.malformed (if LINE < line.length then Text.of "a chunk's size line is too long"
      else Text.of "the body ended inside its chunks"))
  else
    match sizeOf line with
    | none => .error (.malformed (Text.of "a chunk's size is not a hex number"))
    | some 0 => (trailers TRAILERS b).map fun rest => (none, rest)
    | some count =>
      match take room count b with
      | .error e => .error e
      | .ok (data, b) =>
        if data.length < count then
          .error (.malformed (Text.of "the body ended inside a chunk"))
        else
          let (eol, b) := readline (LINE + 1) b
          if !isBlank eol then
            .error (.malformed (Text.of "a chunk does not end where its size says"))
          else .ok (some data, b)

/-- The turns of `chunks`, no more than there are bytes: what is left without a turn is the end of
the stream. -/
def chunksFrom : ℕ → Bytes → Bytes → Except Raised (Bytes × Bytes)
  | 0, _, _ => .error (.malformed (Text.of "the body ended inside its chunks"))
  | fuel + 1, parts, b =>
    match turn room b with
    | .error e => .error e
    | .ok (none, rest) => .ok (parts, rest)
    | .ok (some data, rest) => chunksFrom fuel (parts ++ data) rest

/-- `RequestBody.chunks` -/
def chunks (b : Bytes) : Except Raised (Bytes × Bytes) := chunksFrom room b.length [] b

/-- `RequestBody.read`, and what it leaves. -/
def read (h : Headers) (b : Bytes) : Except Raised (Option Bytes × Bytes) :=
  if codings h ≠ [] then
    if codings h ≠ [Text.of "chunked"] then
      .error (.malformed (Text.of "Transfer-Encoding " ++
        (Text.of ", ").intercalate (codings h) ++
        Text.of " is not read: send the body by its length or in chunks"))
    else (chunks room b).map fun p => (some p.1, p.2)
  else
    match lengths h with
    | [] => .ok (none, b)
    | [raw] =>
      if raw = [] then .ok (none, b)
      else if !isDigits raw then .error (.malformed (Text.of "Content-Length is not a number"))
      else if MAX_STR_DIGITS < raw.length then .error .value
      else if number raw = 0 then .ok (none, b)
      else
        match take room (number raw) b with
        | .error e => .error e
        | .ok (body, rest) =>
          if body.length < number raw then
            .error (.malformed (Text.of "the body ended after " ++ decimal body.length ++
              Text.of " of its " ++ decimal (number raw) ++ Text.of " bytes"))
          else .ok (some body, rest)
    | _ => .error (.malformed (Text.of "Content-Length is given twice, differently"))

/-! ### What is written in chunks -/

/-- The end of a line. -/
def Eol (eol : Bytes) : Prop := eol = [CR, LF] ∨ eol = [LF]

/-- A size line as a client writes it: the digits, perhaps blanks, perhaps extensions. -/
structure SizeText (n : ℕ) where
  digits : Bytes
  blanks : Bytes
  extensions : Bytes
  eol : Bytes
  means : hexSize digits = some n
  blank : ∀ c ∈ blanks, c = 0x20 ∨ c = 0x09
  extended : extensions = [] ∨ extensions.head? = some 0x3B
  oneLine : LF ∉ extensions
  ends : Eol eol
  short : (digits ++ blanks ++ extensions ++ eol).length ≤ LINE + 1

def SizeText.bytes {n : ℕ} (s : SizeText n) : Bytes := s.digits ++ s.blanks ++ s.extensions ++ s.eol

/-- A chunk as a client writes it, of data that one object can hold. -/
structure Chunk (room : ℕ) where
  data : Bytes
  size : SizeText data.length
  eol : Bytes
  nonempty : data ≠ []
  fits : data.length ≤ room ∧ data.length ≤ MAXSIZE
  ends : Eol eol

/-- A trailer as a client writes it. -/
structure Trailer where
  field : Bytes
  eol : Bytes
  oneLine : LF ∉ field
  ends : Eol eol
  filled : isBlank (field ++ eol) = false
  short : (field ++ eol).length ≤ LINE + 1

/-- A body in chunks. -/
structure Encoded (room : ℕ) where
  chunks : List (Chunk room)
  last : SizeText 0
  trailers : List Trailer
  few : trailers.length < TRAILERS
  blank : Bytes
  ends : Eol blank

def Chunk.bytes {room : ℕ} (c : Chunk room) : Bytes := c.size.bytes ++ c.data ++ c.eol

def Trailer.bytes (t : Trailer) : Bytes := t.field ++ t.eol

def Encoded.bytes {room : ℕ} (e : Encoded room) : Bytes :=
  e.chunks.flatMap Chunk.bytes ++ e.last.bytes ++ e.trailers.flatMap Trailer.bytes ++ e.blank

/-- The body that is cut into the chunks. -/
def Encoded.body {room : ℕ} (e : Encoded room) : Bytes := e.chunks.flatMap Chunk.data

/-! ### One line -/

variable {room}

theorem Eol.split {eol : Bytes} (h : Eol eol) : ∃ cr, eol = cr ++ [LF] ∧ LF ∉ cr := by
  rcases h with rfl | rfl
  · exact ⟨[CR], rfl, by decide⟩
  · exact ⟨[], rfl, by decide⟩

/-- A line that is written is read. -/
theorem readline_eol {l eol : Bytes} (hl : LF ∉ l) (heol : Eol eol)
    (hshort : (l ++ eol).length ≤ LINE + 1) (rest : Bytes) :
    readline (LINE + 1) (l ++ eol ++ rest) = (l ++ eol, rest) := by
  obtain ⟨cr, rfl, hcr⟩ := heol.split
  have hline : LF ∉ l ++ cr := fun h => (List.mem_append.mp h).elim hl hcr
  rw [← List.append_assoc] at hshort ⊢
  rw [List.append_assoc (l ++ cr)]
  refine readline_line hline ?_ rest
  rw [List.length_append] at hshort
  exact Nat.lt_of_succ_le hshort

theorem isBlank_iff {line : Bytes} : isBlank line = true ↔ Eol line := by
  rw [isBlank, Bool.or_eq_true, decide_eq_true_iff, decide_eq_true_iff]
  rfl

/-- The digits of a size are none of the characters that stand around them. -/
theorem hexValue_other {c : UInt8} (h : isSpace c = true ∨ c = 0x3B) :
    (hexValue c).isSome = false := by
  have hall : ∀ x : Fin 256, isSpace (UInt8.ofFin x) = true ∨ UInt8.ofFin x = 0x3B →
      (hexValue (UInt8.ofFin x)).isSome = false := by decide +kernel
  exact hall c.toFin h

theorem hexSize_digits {t : Bytes} {n : ℕ} (h : hexSize t = some n) :
    t ≠ [] ∧ ∀ c ∈ t, isSpace c = false ∧ c ≠ 0x3B := by
  unfold hexSize at h
  split at h
  · next hdigits =>
    obtain ⟨hne, hall⟩ := hdigits
    refine ⟨hne, fun c hc => ?_⟩
    have hsome : (hexValue c).isSome = true := List.all_eq_true.mp hall c hc
    refine ⟨Bool.eq_false_iff.mpr fun hs => ?_, fun he => ?_⟩
    · rw [hexValue_other (.inl hs)] at hsome
      cases hsome
    · rw [hexValue_other (.inr he)] at hsome
      cases hsome
  · cases h

/-- **A size line** says its size. -/
theorem SizeText.sizeOf {n : ℕ} (s : SizeText n) : sizeOf s.bytes = some n := by
  obtain ⟨hne, hdigits⟩ := hexSize_digits s.means
  have hblanks : ∀ c ∈ s.blanks, isSpace c = true ∧ c ≠ 0x3B := by
    intro c hc
    rcases s.blank c hc with rfl | rfl <;> decide
  have hends : ∀ c ∈ s.eol, isSpace c = true ∧ c ≠ 0x3B := by
    rcases s.ends with h | h <;> rw [h] <;> simp only [List.forall_mem_cons, List.not_mem_nil,
      false_implies, implies_true, and_true] <;> decide
  -- the digits are what stands before the first blank or the extensions
  have hfront : ∀ c ∈ s.digits ++ s.blanks, decide (c ≠ 0x3B) = true := by
    intro c hc
    rcases List.mem_append.mp hc with hc | hc
    · exact decide_eq_true (hdigits c hc).2
    · exact decide_eq_true (hblanks c hc).2
  obtain ⟨pad, hpad, htake⟩ : ∃ pad : Bytes, (∀ c ∈ pad, Bytes.isSpace c = true) ∧
      s.bytes.takeWhile (· ≠ 0x3B) = s.digits ++ pad := by
    unfold SizeText.bytes
    rcases s.extended with hnone | hsome
    · refine ⟨s.blanks ++ s.eol, fun c hc => (List.mem_append.mp hc).elim
        (fun h => (hblanks c h).1) fun h => (hends c h).1, ?_⟩
      rw [hnone, List.append_nil, List.append_assoc, ← List.append_assoc s.digits,
        List.takeWhile_append_of_pos hfront,
        List.takeWhile_eq_self_iff.mpr fun c hc => decide_eq_true (hends c hc).2,
        List.append_assoc]
    · obtain ⟨x, hx⟩ := List.head?_eq_some_iff.mp hsome
      refine ⟨s.blanks, fun c hc => (hblanks c hc).1, ?_⟩
      rw [hx, List.append_assoc (s.digits ++ s.blanks), List.takeWhile_append_of_pos hfront,
        List.cons_append, List.takeWhile_cons_of_neg (by decide), List.append_nil]
  unfold RequestBody.sizeOf
  rw [htake, strip_padded hne (fun c hc => (hdigits c hc).1) hpad]
  exact s.means

/-- A size line comes off the stream whole. -/
theorem SizeText.readline {n : ℕ} (s : SizeText n) (rest : Bytes) :
    readline (LINE + 1) (s.bytes ++ rest) = (s.bytes, rest) := by
  obtain ⟨-, hdigits⟩ := hexSize_digits s.means
  refine readline_eol (fun h => ?_) s.ends s.short rest
  rcases List.mem_append.mp h with h | h
  · rcases List.mem_append.mp h with h | h
    · exact absurd (hdigits LF h).1 (by decide)
    · rcases s.blank LF h with h | h <;> cases h
  · exact s.oneLine h

/-! ### The turns -/

theorem SizeText.bytes_ne_nil {n : ℕ} (s : SizeText n) : s.bytes ≠ [] :=
  List.append_ne_nil_of_right_ne_nil _ (by rcases s.ends with h | h <;> rw [h] <;> decide)

/-- A request in chunks. -/
def CHUNKED : Headers := [(Text.of "Transfer-Encoding", Text.of "Chunked")]

/-- A line of the stream that says a size. -/
def SizeLine (line : Bytes) (n : ℕ) : Prop :=
  (∃ l, LF ∉ l ∧ l.length ≤ LINE ∧ line = l ++ [LF]) ∧ sizeOf line = some n

/-- A size that one object can hold. -/
def Fits (room n : ℕ) : Prop := n ≤ room ∧ n ≤ MAXSIZE

/-- **A turn**: a chunk with its size line and its line end, the last size line, a refusal, or a
size that no object can hold. -/
theorem turn_cases (room : ℕ) (b : Bytes) :
    (∃ line data eol rest, SizeLine line data.length ∧ data ≠ [] ∧ Eol eol ∧
      b = line ++ (data ++ (eol ++ rest)) ∧ turn room b = .ok (some data, rest)) ∨
    (∃ line tail, SizeLine line 0 ∧ b = line ++ tail ∧
      turn room b = (trailers TRAILERS tail).map fun rest => (none, rest)) ∨
    (∃ why, turn room b = .error (.malformed why)) ∨
    ∃ line tail n e, SizeLine line n ∧ b = line ++ tail ∧ ¬ Fits room n ∧
      turn room b = .error e := by
  unfold turn
  dsimp only
  have happend := readline_append (LINE + 1) b
  generalize hline : (readline (LINE + 1) b).1 = line at *
  generalize (readline (LINE + 1) b).2 = tail at *
  cases hends : endsLine line with
  | false => exact .inr (.inr (.inl ⟨_, if_pos rfl⟩))
  | true =>
    rw [Bool.not_true, if_neg Bool.false_ne_true]
    have hcomplete : ∃ l, LF ∉ l ∧ l.length ≤ LINE ∧ line = l ++ [LF] := by
      rcases readline_cases (LINE + 1) b with ⟨l, hl, hn, hpiece, -⟩ | ⟨hno, -⟩
      · exact ⟨l, hl, Nat.le_of_lt_succ hn, hline.symm.trans hpiece⟩
      · rw [hline] at hno
        exact absurd (List.mem_of_getLast? (of_decide_eq_true hends)) hno
    split
    · exact .inr (.inr (.inl ⟨_, rfl⟩))
    · next hsize => exact .inr (.inl ⟨line, tail, ⟨hcomplete, hsize⟩, happend.symm, rfl⟩)
    next count hne hsize =>
    have hsizeLine : SizeLine line count := ⟨hcomplete, hsize⟩
    by_cases hfits : Fits room count
    · rw [take, if_neg (Nat.not_lt.mpr hfits.2), if_neg (Nat.not_lt.mpr hfits.1)]
      dsimp only
      split
      · exact .inr (.inr (.inl ⟨_, rfl⟩))
      next hlong =>
      have hdata : (tail.take count).length = count :=
        Nat.le_antisymm (List.length_take_le _ _) (Nat.not_lt.mp hlong)
      have hrest := readline_append (LINE + 1) (tail.drop count)
      split
      · exact .inr (.inr (.inl ⟨_, rfl⟩))
      next heol =>
      refine .inl ⟨line, tail.take count, (readline (LINE + 1) (tail.drop count)).1, _, ?_, ?_, ?_,
        ?_, rfl⟩
      · rw [hdata]
        exact hsizeLine
      · intro hnil
        rw [hnil] at hdata
        exact hne hdata.symm
      · rw [Bool.not_eq_true', Bool.not_eq_false] at heol
        exact isBlank_iff.mp heol
      · rw [hrest, List.take_append_drop, happend]
    · refine .inr (.inr (.inr ⟨line, tail, count, ?_⟩))
      unfold take
      by_cases hmax : MAXSIZE < count
      · rw [if_pos hmax]
        exact ⟨.overflow, hsizeLine, happend.symm, hfits, rfl⟩
      · have hroom : room < count := by
          by_contra h
          exact hfits ⟨Nat.not_lt.mp h, Nat.not_lt.mp hmax⟩
        rw [if_neg hmax, if_pos hroom]
        exact ⟨.memory, hsizeLine, happend.symm, hfits, rfl⟩

/-! ### What a message is framed by -/

/-- **Chunks passed**: of the stream, their data, and what is left. -/
inductive Passed : Bytes → Bytes → Bytes → Prop
  | here {b : Bytes} : Passed b [] b
  | chunk {line data eol b more rest : Bytes} (size : SizeLine line data.length)
      (nonempty : data ≠ []) (ends : Eol eol) (passed : Passed b more rest) :
      Passed (line ++ (data ++ (eol ++ b))) (data ++ more) rest

/-- The trailer lines passed, none of them blank. -/
inductive Trails : Bytes → Bytes → Prop
  | here {b : Bytes} : Trails b b
  | line {l b rest : Bytes} (whole : LF ∉ l) (filled : ¬ Eol (l ++ [LF])) (passed : Trails b rest) :
      Trails (l ++ LF :: b) rest

/-- **A message's framing**: none, its length, or the chunks through the blank line that ends the
trailers. -/
inductive Framed (h : Headers) (b : Bytes) : Option Bytes → Bytes → Prop
  | none (uncoded : codings h = [])
      (empty : lengths h = [] ∨
        ∃ raw, lengths h = [raw] ∧ (raw = [] ∨ isDigits raw = true ∧ number raw = 0)) :
      Framed h b none b
  | length {raw : Text} {body rest : Bytes} (uncoded : codings h = []) (said : lengths h = [raw])
      (digits : isDigits raw = true) (size : body.length = number raw) (nonempty : body ≠ [])
      (stream : b = body ++ rest) : Framed h b (some body) rest
  | chunks {line data tail eol rest : Bytes} (coded : codings h = [Text.of "chunked"])
      (passed : Passed b data (line ++ tail)) (last : SizeLine line 0)
      (trailers : Trails tail (eol ++ rest)) (blank : Eol eol) : Framed h b (some data) rest

/-- The client has closed after the last chunk, maybe among the trailers. -/
inductive Closed (h : Headers) (b : Bytes) : Option Bytes → Bytes → Prop
  | chunks {line data tail l : Bytes} (coded : codings h = [Text.of "chunked"])
      (passed : Passed b data (line ++ tail)) (last : SizeLine line 0)
      (trailers : Trails tail l) (ended : LF ∉ l) : Closed h b (some data) []

/-- What the sizes and the lines of a message are kept to: numbers that `int` reads and an object
can be as large as, and trailer lines of no more than one piece. -/
structure Moderate (room : ℕ) (h : Headers) (b : Bytes) : Prop where
  length : codings h = [] → ∀ raw ∈ lengths h, isDigits raw = true →
    raw.length ≤ MAX_STR_DIGITS ∧ Fits room (number raw)
  sizes : codings h ≠ [] → ∀ data line tail n, Passed b data (line ++ tail) → SizeLine line n →
    Fits room n
  trailers : codings h ≠ [] → ∀ data line tail l rest, Passed b data (line ++ tail) →
    SizeLine line 0 → Trails tail (l ++ LF :: rest) → LF ∉ l → l.length ≤ LINE

/-- What is left after the last chunk: behind the blank line, or nothing. -/
def Through (tail rest : Bytes) : Prop :=
  (∃ eol, Eol eol ∧ Trails tail (eol ++ rest)) ∨ rest = [] ∧ ∃ l, LF ∉ l ∧ Trails tail l

/-- A stream without a line end is let go to its end. -/
theorem trailers_ended {tail : Bytes} (hno : LF ∉ tail) (n : ℕ) :
    (∃ why, trailers n tail = .error (.malformed why)) ∨ trailers n tail = .ok [] := by
  induction n generalizing tail with
  | zero => exact .inl ⟨_, rfl⟩
  | succ n ih =>
    have happend := readline_append (LINE + 1) tail
    have hpiece : LF ∉ (readline (LINE + 1) tail).1 := fun h =>
      hno (happend ▸ List.mem_append_left _ h)
    have hrest : LF ∉ (readline (LINE + 1) tail).2 := fun h =>
      hno (happend ▸ List.mem_append_right _ h)
    rw [trailers]
    dsimp only
    split
    next hend =>
      -- an empty piece is the end of the stream
      have hnil : (readline (LINE + 1) tail).1 = [] := by
        rcases Bool.or_eq_true _ _ ▸ hend with hblank | hnil
        · rcases isBlank_iff.mp hblank with h | h <;> rw [h] at hpiece <;>
            exact absurd (by decide) hpiece
        · exact of_decide_eq_true hnil
      rcases readline_cases (LINE + 1) tail with ⟨l, -, -, hl, -⟩ | ⟨-, hfull | hended⟩
      · exact absurd (hl ▸ hnil) (List.append_ne_nil_of_right_ne_nil _ (List.cons_ne_nil _ _))
      · rw [hnil] at hfull
        cases hfull
      · rw [hended]
        exact .inr rfl
    · exact ih hrest

/-- **The trailers** are let go through their blank line, or to the end of the stream. -/
theorem trailers_through {tail : Bytes} (n : ℕ)
    (hshort : ∀ l rest, Trails tail (l ++ LF :: rest) → LF ∉ l → l.length ≤ LINE) :
    (∃ why, trailers n tail = .error (.malformed why)) ∨
      ∃ rest, trailers n tail = .ok rest ∧ Through tail rest := by
  induction n generalizing tail with
  | zero => exact .inl ⟨_, rfl⟩
  | succ n ih =>
    by_cases hmem : LF ∈ tail
    · obtain ⟨l, rest, rfl, hl⟩ := List.eq_append_cons_of_mem hmem
      have hline := readline_line (n := LINE + 1) hl
        (Nat.lt_succ_of_le (hshort l rest .here hl)) rest
      rw [trailers, hline]
      dsimp only
      split
      next hend =>
        refine .inr ⟨rest, rfl, .inl ⟨l ++ [LF], ?_, ?_⟩⟩
        · rcases Bool.or_eq_true _ _ ▸ hend with hblank | hnil
          · exact isBlank_iff.mp hblank
          · exact absurd (of_decide_eq_true hnil)
              (List.append_ne_nil_of_right_ne_nil _ (List.cons_ne_nil _ _))
        · rw [List.append_assoc]
          exact .here
      next hend =>
        have hfilled : ¬ Eol (l ++ [LF]) := fun h =>
          hend (by rw [isBlank_iff.mpr h, Bool.true_or])
        rcases ih fun l' rest' ht => hshort l' rest' (.line hl hfilled ht) with
          hbad | ⟨rest', hok, hblank | ⟨hnil, l', hl', ht⟩⟩
        · exact .inl hbad
        · obtain ⟨eol, heol, ht⟩ := hblank
          exact .inr ⟨rest', hok, .inl ⟨eol, heol, .line hl hfilled ht⟩⟩
        · exact .inr ⟨rest', hok, .inr ⟨hnil, l', hl', .line hl hfilled ht⟩⟩
    · rcases trailers_ended hmem (n + 1) with hbad | hok
      · exact .inl hbad
      · exact .inr ⟨[], hok, .inr ⟨rfl, tail, hmem, .here⟩⟩

/-- **The turns** pass the chunks of the message, and then its trailers. -/
theorem chunksFrom_through {b : Bytes} (fuel : ℕ) (parts : Bytes)
    (hsizes : ∀ data line tail n, Passed b data (line ++ tail) → SizeLine line n → Fits room n)
    (hshort : ∀ data line tail l rest, Passed b data (line ++ tail) → SizeLine line 0 →
      Trails tail (l ++ LF :: rest) → LF ∉ l → l.length ≤ LINE) :
    (∃ why, chunksFrom room fuel parts b = .error (.malformed why)) ∨
      ∃ data line tail rest, chunksFrom room fuel parts b = .ok (parts ++ data, rest) ∧
        Passed b data (line ++ tail) ∧ SizeLine line 0 ∧ Through tail rest := by
  induction fuel generalizing parts b with
  | zero => exact .inl ⟨_, rfl⟩
  | succ fuel ih =>
    rw [chunksFrom]
    rcases turn_cases room b with ⟨line, data, eol, rest, hsize, hne, heol, rfl, hturn⟩ |
      ⟨line, tail, hlast, rfl, hturn⟩ | ⟨why, hturn⟩ | ⟨line, tail, n, e, hsize, rfl, hfits, -⟩
    · rw [hturn]
      -- what holds of the chunks behind this one holds of them behind it
      have hsizes' : ∀ data' line' tail' n, Passed rest data' (line' ++ tail') →
          SizeLine line' n → Fits room n := fun data' line' tail' n hp =>
        hsizes (data ++ data') line' tail' n (.chunk hsize hne heol hp)
      have hshort' : ∀ data' line' tail' l rest', Passed rest data' (line' ++ tail') →
          SizeLine line' 0 → Trails tail' (l ++ LF :: rest') → LF ∉ l → l.length ≤ LINE :=
        fun data' line' tail' l rest' hp =>
          hshort (data ++ data') line' tail' l rest' (.chunk hsize hne heol hp)
      rcases ih (parts ++ data) hsizes' hshort' with hbad | ⟨data', line', tail', rest', hok, hp, h⟩
      · exact .inl hbad
      · rw [List.append_assoc] at hok
        exact .inr ⟨data ++ data', line', tail', rest', hok, .chunk hsize hne heol hp, h⟩
    · rw [hturn]
      rcases trailers_through TRAILERS fun l rest => hshort [] line tail l rest .here hlast with
        ⟨why, hbad⟩ | ⟨rest, hok, hthrough⟩
      · rw [hbad]
        exact .inl ⟨why, rfl⟩
      · rw [hok]
        refine .inr ⟨[], line, tail, rest, ?_, .here, hlast, hthrough⟩
        rw [List.append_nil]
        rfl
    · rw [hturn]
      exact .inl ⟨why, rfl⟩
    · exact absurd (hsizes [] line tail n .here hsize) hfits

/-- **A body that is read has its framing**, down to the last byte of it, or the client has closed
after the last chunk; any other message is `Malformed`. -/
theorem read_framed {h : Headers} {b : Bytes} (hmod : Moderate room h b) :
    (∃ why, read room h b = .error (.malformed why)) ∨
      ∃ body rest, read room h b = .ok (body, rest) ∧
        (Framed h b body rest ∨ Closed h b body rest) := by
  unfold read
  split
  next hcoded =>
    split
    · exact .inl ⟨_, rfl⟩
    next hchunked =>
    have hchunked := Decidable.not_not.mp hchunked
    unfold chunks
    rcases chunksFrom_through b.length [] (hmod.sizes hcoded) (hmod.trailers hcoded) with
      ⟨why, hbad⟩ | ⟨data, line, tail, rest, hok, hp, hlast, ⟨eol, heol, ht⟩ | ⟨rfl, l, hl, ht⟩⟩
    · rw [hbad]
      exact .inl ⟨why, rfl⟩
    · rw [hok]
      exact .inr ⟨some data, rest, rfl, .inl (.chunks hchunked hp hlast ht heol)⟩
    · rw [hok]
      exact .inr ⟨some data, [], rfl, .inr (.chunks hchunked hp hlast ht hl)⟩
  next huncoded =>
    have huncoded := Decidable.not_not.mp huncoded
    split
    next hlengths => exact .inr ⟨none, b, rfl, .inl (.none huncoded (.inl hlengths))⟩
    next raw hlengths =>
      split
      next hempty =>
        exact .inr ⟨none, b, rfl, .inl (.none huncoded (.inr ⟨raw, hlengths, .inl hempty⟩))⟩
      split
      · exact .inl ⟨_, rfl⟩
      next hdigits =>
      rw [Bool.not_eq_true', Bool.not_eq_false] at hdigits
      have hraw : raw ∈ lengths h := hlengths ▸ List.mem_singleton_self raw
      obtain ⟨hlong, hroom, hmax⟩ := hmod.length huncoded raw hraw hdigits
      rw [if_neg (Nat.not_lt.mpr hlong)]
      split
      next hzero =>
        exact .inr ⟨none, b, rfl,
          .inl (.none huncoded (.inr ⟨raw, hlengths, .inr ⟨hdigits, hzero⟩⟩))⟩
      next hzero =>
      rw [take, if_neg (Nat.not_lt.mpr hmax), if_neg (Nat.not_lt.mpr hroom)]
      dsimp only
      split
      · exact .inl ⟨_, rfl⟩
      next hshort =>
      have hlen : (b.take (number raw)).length = number raw :=
        Nat.le_antisymm (List.length_take_le _ _) (Nat.not_lt.mp hshort)
      refine .inr ⟨_, _, rfl, .inl (.length huncoded hlengths hdigits hlen (fun hnil => ?_)
        (List.take_append_drop _ _).symm)⟩
      rw [hnil] at hlen
      exact hzero hlen.symm
    · exact .inl ⟨_, rfl⟩

/-- A request of two bytes. -/
def MEASURED : Headers := [(Text.of "Content-Length", Text.of "2")]

theorem read_framed_measured :
    Moderate 9 MEASURED [0x68, 0x69, 0x47] ∧
      ((∃ why, read 9 MEASURED [0x68, 0x69, 0x47] = .error (.malformed why)) ∨
        ∃ body rest, read 9 MEASURED [0x68, 0x69, 0x47] = .ok (body, rest) ∧
          (Framed MEASURED [0x68, 0x69, 0x47] body rest ∨
            Closed MEASURED [0x68, 0x69, 0x47] body rest)) :=
  have huncoded : codings MEASURED = [] := by decide +kernel
  have hmod : Moderate 9 MEASURED [0x68, 0x69, 0x47] := {
    length := fun _ raw hraw _ => by
      have hlengths : lengths MEASURED = [Text.of "2"] := by decide +kernel
      rw [hlengths, List.mem_singleton] at hraw
      rw [hraw]
      unfold Fits
      decide +kernel
    sizes := fun hcoded => absurd huncoded hcoded
    trailers := fun hcoded => absurd huncoded hcoded }
  ⟨hmod, read_framed hmod⟩

theorem Passed.count {b data rest : Bytes} (h : Passed b data rest) :
    rest.count LF ≤ b.count LF := by
  induction h with
  | here => exact Nat.le_refl _
  | chunk _ _ _ _ ih =>
    rw [List.count_append, List.count_append, List.count_append]
    omega

theorem Trails.count {b rest : Bytes} (h : Trails b rest) : rest.count LF ≤ b.count LF := by
  induction h with
  | here => exact Nat.le_refl _
  | line _ _ _ ih =>
    rw [List.count_append, List.count_cons]
    omega

/-- A stream that has no second line has no chunks through a blank line. -/
theorem Framed.two_lines {h : Headers} {b rest : Bytes} {body : Option Bytes}
    (hframed : Framed h b body rest) (hcoded : codings h ≠ []) : 2 ≤ b.count LF := by
  cases hframed with
  | none uncoded => exact absurd uncoded hcoded
  | length uncoded => exact absurd uncoded hcoded
  | chunks _ passed last trailers blank =>
    have hline := passed.count
    have htail := trailers.count
    rw [List.count_append] at hline htail
    obtain ⟨⟨l, -, -, rfl⟩, -⟩ := last
    obtain ⟨cr, rfl, -⟩ := blank.split
    rw [List.count_append, List.count_singleton_self] at hline htail
    omega

/-- A client that closes after the last chunk has sent no blank line, and its body is taken. -/
theorem read_closed :
    read 9 CHUNKED [0x30, CR, LF] = .ok (some [], []) ∧
      ¬ Framed CHUNKED [0x30, CR, LF] (some []) [] := by
  refine ⟨by decide +kernel, fun hframed => ?_⟩
  have hcoded : codings CHUNKED ≠ [] := by decide +kernel
  have hlines := hframed.two_lines hcoded
  revert hlines
  decide

end Proxy.RequestBody
