import Caravan.Framework.Numbered
import Caravan.Python.Lines
import Caravan.Python.Utf8

/-!
# The chunks of a chat completion

A streamed answer goes to the client as chunks, each a line of JSON; `ChunkFold` makes one answer
of them. What a fold takes in of the lines is the chunks they were written from
(`addAll_frames`), so that a translated stream may be followed chunk by chunk.
-/

namespace Translate

open Python

/-! ### A chunk -/

/-- A part of a tool call in a delta; what is missing of it is `none`. -/
structure CallPart where
  index : ℕ
  id : Option Text
  type : Option Text
  name : Option Text
  arguments : Option Text
  deriving DecidableEq

structure Delta where
  role : Option Text
  content : Option Text
  tool_calls : List CallPart
  deriving DecidableEq

structure Choice where
  index : ℕ
  delta : Delta
  finish_reason : Option Text
  deriving DecidableEq

/-- The usage of an answer, with the cached part of the prompt where it is told. -/
structure Usage where
  prompt_tokens : ℤ
  completion_tokens : ℤ
  total_tokens : ℤ
  cached_tokens : Option ℤ
  cache_creation_input_tokens : Option ℤ
  deriving DecidableEq

/-- `chat.completion.chunk` -/
structure Chunk where
  id : Option Text
  created : Option ℤ
  model : Option Text
  choices : List Choice
  usage : Option Usage
  deriving DecidableEq

/-! ### The fold -/

/-- A tool call of an answer. -/
structure Call where
  id : Text
  type : Text
  name : Text
  arguments : Text
  deriving DecidableEq

/-- What is held of a choice. -/
structure Slot where
  role : Text
  text : List Text
  calls : List (ℕ × Call)
  finish : Text
  deriving DecidableEq

/-- The id, time and model of an answer. -/
structure Head where
  id : Option Text
  created : Option ℤ
  model : Option Text
  deriving DecidableEq

structure ChunkFold where
  head : Head
  choices : List (ℕ × Slot)
  usage : Option Usage
  deriving DecidableEq

/-- `value or held` -/
def orElse (value : Option Text) (held : Text) : Text :=
  match value with
  | some t => if t ≠ [] then t else held
  | none => held

namespace ChunkFold

def new : ChunkFold := ⟨⟨none, none, none⟩, [], none⟩

/-- `_call` -/
def call (calls : List (ℕ × Call)) (part : CallPart) : List (ℕ × Call) :=
  let held := (Assoc.get calls part.index).getD ⟨[], Text.of "function", [], []⟩
  Assoc.set calls part.index {
    id := orElse part.id held.id
    type := orElse part.type held.type
    name := held.name ++ part.name.getD []
    arguments := held.arguments ++ part.arguments.getD [] }

/-- A choice of a chunk, taken in. -/
def choice (choices : List (ℕ × Slot)) (c : Choice) : List (ℕ × Slot) :=
  let slot := (Assoc.get choices c.index).getD ⟨[], [], [], []⟩
  Assoc.set choices c.index {
    role := orElse c.delta.role slot.role
    text := slot.text ++ c.delta.content.toList
    calls := c.delta.tool_calls.foldl call slot.calls
    finish := orElse c.finish_reason slot.finish }

/-- `_event` -/
def event (f : ChunkFold) (c : Chunk) : ChunkFold where
  head := ⟨f.head.id.or c.id, f.head.created.or c.created, f.head.model.or c.model⟩
  choices := c.choices.foldl choice f.choices
  usage := c.usage.or f.usage

/-- `finished` -/
def finished (f : ChunkFold) : Bool := f.choices.any fun p => p.2.finish ≠ []

/-! ### The answer -/

structure Message where
  role : Text
  content : Option Text
  tool_calls : List Call
  deriving DecidableEq

structure Answer where
  index : ℕ
  message : Message
  finish_reason : Text
  deriving DecidableEq

/-- `chat.completion` -/
structure Completion where
  id : Text
  created : ℤ
  model : Text
  choices : List Answer
  usage : Option Usage
  deriving DecidableEq

/-- What a slot comes to; without text, calls have a content of null. -/
def answer (p : ℕ × Slot) : Answer :=
  let calls := (Assoc.sorted p.2.calls).map Prod.snd
  let text := p.2.text.flatten
  { index := p.1
    message := {
      role := if p.2.role ≠ [] then p.2.role else Text.of "assistant"
      content := if text ≠ [] ∨ calls = [] then some text else none
      tool_calls := calls }
    finish_reason := if p.2.finish ≠ [] then p.2.finish else Text.of "stop" }

def completion (f : ChunkFold) : Completion where
  id := f.head.id.getD []
  created := f.head.created.getD 0
  model := f.head.model.getD []
  choices := (Assoc.sorted f.choices).map answer
  usage := f.usage

end ChunkFold

/-! ### The lines of a stream -/

def DATA : Text := Text.of "data: "

def DONE : Text := Text.of "[DONE]"

/-- The bytes of an event: `data: …`, and the blank line behind it. -/
def frame (data : Text) : Bytes := (encodeUtf8 (DATA ++ data ++ Text.of "\n\n")).getD []

-- `json.loads` of a chunk, as far as a fold reads it
variable (loads : Text → Option Chunk)

/-- A line of a piece, taken in. -/
def ChunkFold.line (f : ChunkFold) (line : Text) : ChunkFold :=
  if (Text.of "data:").isPrefixOf line then
    let data := Text.strip (line.drop 5)
    if data = [] ∨ data = DONE then f
    else
      match loads data with
      | none => f
      | some c => f.event c
  else f

/-- `add` -/
def ChunkFold.add (f : ChunkFold) (piece : Bytes) : ChunkFold :=
  (Text.splitlines (decodeUtf8 piece)).foldl (ChunkFold.line loads) f

/-- What is written of a stream: its chunks, and `[DONE]`. -/
def frames (dumps : Chunk → Text) (chunks : List Chunk) : List Bytes :=
  chunks.map (fun c => frame (dumps c)) ++ [frame DONE]

/-- A text of one line without blanks around it, which can be encoded. -/
structure Plain (t : Text) : Prop where
  encodable : t.Encodable
  oneLine : t.OneLine
  flush : Text.strip t = t
  filled : t ≠ []

/-- `json.loads` reads of a chunk what `json.dumps` has written of it. -/
structure Wire (dumps : Chunk → Text) (c : Chunk) : Prop where
  plain : Plain (dumps c)
  data : dumps c ≠ DONE
  read : loads (dumps c) = some c

/-- A character of ASCII that is printed. -/
def isPrinted (c : CodePoint) : Bool := 0x20 ≤ c.val && c.val < 0x7F

/-- A printed text without blanks around it. -/
theorem plain_of_printed {t : Text} (h : t.all isPrinted = true) (hflush : Text.strip t = t)
    (hne : t ≠ []) : Plain t := by
  have hrange : ∀ c ∈ t, 0x20 ≤ c.val ∧ c.val < 0x7F := by
    intro c hc
    have hc' := List.all_eq_true.mp h c hc
    rwa [isPrinted, Bool.and_eq_true, decide_eq_true_iff, decide_eq_true_iff] at hc'
  refine ⟨fun c hc => ?_, fun c hc => ?_, hflush, hne⟩
  · have := hrange c hc
    simp only [isSurrogate, Bool.and_eq_false_iff, decide_eq_false_iff_not]
    omega
  · have := hrange c hc
    unfold isBreak
    simp
    omega

variable {loads}

/-- A frame is one line, and a blank one. -/
theorem lines_frame {data : Text} (h : Plain data) :
    Text.splitlines (decodeUtf8 (frame data)) = [DATA ++ data, []] := by
  have hdata : ∀ l ∈ [DATA ++ data, []], l.OneLine := by
    intro l hl
    rcases List.mem_cons.mp hl with rfl | hl
    · exact Text.oneLine_append.mpr ⟨by unfold DATA; decide, h.oneLine⟩
    · rw [List.mem_singleton.mp hl]
      exact Text.oneLine_nil
  have hencodable : (DATA ++ data ++ Text.of "\n\n").Encodable :=
    Text.encodable_append.mpr ⟨Text.encodable_append.mpr ⟨Text.of_encodable _, h.encodable⟩,
      Text.of_encodable _⟩
  have hlines : DATA ++ data ++ Text.of "\n\n" = unlines [DATA ++ data, []] := by
    simp only [unlines, List.flatMap_cons, List.flatMap_nil, List.append_assoc, List.nil_append,
      List.append_nil]
    rfl
  obtain ⟨b, hb⟩ := Option.isSome_iff_exists.mp (encodeUtf8_isSome hencodable)
  rw [frame, hb, Option.getD_some, decodeUtf8_encode hb, hlines, Text.splitlines_unlines hdata]

/-- What stands in a frame is what the fold reads. -/
theorem add_frame {data : Text} (h : Plain data) (f : ChunkFold) :
    f.add loads (frame data) =
      if data = DONE then f
      else match loads data with
        | none => f
        | some c => f.event c := by
  have hprefix : (Text.of "data:").isPrefixOf (DATA ++ data) = true :=
    List.isPrefixOf_iff_prefix.mpr ⟨codePoint ' ' :: data, rfl⟩
  have hstrip : Text.strip ((DATA ++ data).drop 5) = data := h.flush
  rw [ChunkFold.add, lines_frame h, List.foldl_cons, List.foldl_cons, List.foldl_nil]
  have hempty (g : ChunkFold) : g.line loads [] = g := rfl
  rw [hempty, ChunkFold.line, if_pos hprefix]
  dsimp only
  rw [hstrip]
  by_cases hdone : data = DONE
  · rw [if_pos (.inr hdone), if_pos hdone]
  · rw [if_neg fun h' => h'.elim h.filled hdone, if_neg hdone]

theorem done_plain : Plain DONE :=
  plain_of_printed (by decide) (by decide) (by decide)

/-- **What a fold takes in of a stream** are the chunks that it was written from. -/
theorem addAll_frames {dumps : Chunk → Text} {chunks : List Chunk}
    (h : ∀ c ∈ chunks, Wire loads dumps c) (f : ChunkFold) :
    (frames dumps chunks).foldl (ChunkFold.add loads) f = chunks.foldl ChunkFold.event f := by
  have hdone (g : ChunkFold) : g.add loads (frame DONE) = g :=
    (add_frame done_plain g).trans (if_pos rfl)
  unfold frames
  rw [List.foldl_append, List.foldl_cons, List.foldl_nil, hdone]
  induction chunks generalizing f with
  | nil => rfl
  | cons c chunks ih =>
    obtain ⟨hc, hchunks⟩ := List.forall_mem_cons.mp h
    rw [List.map_cons, List.foldl_cons, List.foldl_cons, add_frame hc.plain, if_neg hc.data,
      hc.read]
    exact ih hchunks (f.event c)

end Translate
