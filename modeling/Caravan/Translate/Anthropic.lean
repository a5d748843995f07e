import Caravan.Python.Int
import Caravan.Translate.Responses

/-!
# An Anthropic answer as a chat completion

An answer of Anthropic comes whole or as a stream of events, and each is translated by itself.
What the fold makes of the stream's chunks is what the whole answer is translated to exactly when
there is nothing in the answer that the two translations treat in different ways (`alike_iff`):
several texts, which the one joins with line feeds and the other without; calls without a text;
a stop reason that does not go with the blocks; no tokens at all; and arguments, which the one
prints and the other passes on.
-/

namespace Translate.Anthropic

open Python

-- the interpreter that counts the tokens
variable (I : Interp)

/-! ### The usage -/

/-- What a response says it used, as far as it has said it. -/
structure Used where
  input_tokens : ℤ
  cache_creation_input_tokens : ℤ
  cache_read_input_tokens : ℤ
  output_tokens : ℤ
  deriving DecidableEq

namespace Used

def new : Used := ⟨0, 0, 0, 0⟩

/-- `AnthropicUsage.count` -/
def count : Value → ℤ
  | .bool _ => 0
  | v =>
    match intOf I v with
    | .ok n => max 0 n
    | .error _ => 0

/-- `AnthropicUsage.take`; what is no dictionary says nothing. -/
def take (used : Used) (usage : Value) : Used :=
  let usage := usage.asDict
  { input_tokens := max used.input_tokens (count I (usage.get (Text.of "input_tokens")))
    cache_creation_input_tokens := max used.cache_creation_input_tokens
      (count I (usage.get (Text.of "cache_creation_input_tokens")))
    cache_read_input_tokens := max used.cache_read_input_tokens
      (count I (usage.get (Text.of "cache_read_input_tokens")))
    output_tokens := max used.output_tokens (count I (usage.get (Text.of "output_tokens"))) }

variable (used : Used)

def prompt : ℤ :=
  used.input_tokens + used.cache_creation_input_tokens + used.cache_read_input_tokens

def completion : ℤ := used.output_tokens

def known : Bool := 0 < used.prompt || 0 < used.completion

def openai : Usage where
  prompt_tokens := used.prompt
  completion_tokens := used.completion
  total_tokens := used.prompt + used.completion
  cached_tokens :=
    if used.cache_read_input_tokens ≠ 0 then some used.cache_read_input_tokens else none
  cache_creation_input_tokens :=
    if used.cache_creation_input_tokens ≠ 0 then some used.cache_creation_input_tokens else none

end Used

/-! ### The stream -/

/-- A content block, as it begins. -/
inductive Start where
  | text
  | toolUse (id name : Text)
  | other
  deriving DecidableEq

/-- An event of the stream, by its type. -/
inductive Event where
  | messageStart (usage : Value)
  | blockStart (index : ℕ) (block : Start)
  | textDelta (index : ℕ) (text : Text)
  | inputJsonDelta (index : ℕ) (partial_json : Text)
  | messageDelta (stop_reason : Option Text) (usage : Value)
  | messageStop
  | other

def TOOL_USE : Text := Text.of "tool_use"

/-- What the translation keeps between the events. -/
structure State where
  tc_index_map : List (ℕ × ℕ)
  tc_chat_index : ℕ
  finish_reason : Text
  used : Used

def State.new : State := ⟨[], 0, STOP, .new⟩

/-- An event, and the chunks that go out at it. -/
def step (who : Ident) (st : State) : Event → State × List Chunk
  | .messageStart usage => ({ st with used := st.used.take I usage }, [])
  | .blockStart index (.toolUse id name) =>
    ({ st with
        tc_index_map := Assoc.set st.tc_index_map index st.tc_chat_index
        tc_chat_index := st.tc_chat_index + 1 },
      [who.chunk ⟨none, none, [⟨st.tc_chat_index, some id, some (Text.of "function"), some name,
        some []⟩]⟩ none none])
  | .blockStart _ _ => (st, [])
  | .textDelta _ text => (st, [who.chunk ⟨none, some text, []⟩ none none])
  | .inputJsonDelta index partial_json =>
    (st, [who.chunk ⟨none, none, [⟨(Assoc.get st.tc_index_map index).getD 0, none, none, none,
      some partial_json⟩]⟩ none none])
  | .messageDelta stop_reason usage =>
    let finish_reason := if stop_reason = some TOOL_USE then TOOL_CALLS else st.finish_reason
    let used := st.used.take I usage
    ({ st with finish_reason := finish_reason, used := used },
      [who.chunk ⟨none, none, []⟩ (some finish_reason)
        (if used.known then some used.openai else none)])
  | .messageStop | .other => (st, [])

/-- The chunks of the events, up to the message's stop. -/
def translate (who : Ident) : State → List Event → List Chunk
  | _, [] => []
  | _, .messageStop :: _ => []
  | st, ev :: evs => (step I who st ev).2 ++ translate who (step I who st ev).1 evs

/-- `_iter_anthropic_as_completions_sse`, by its chunks. -/
def stream (who : Ident) (evs : List Event) : List Chunk :=
  who.initial :: translate I who .new evs

/-! ### The whole answer -/

/-- A content block of a whole answer. -/
inductive Block where
  | text (text : Text)
  | toolUse (id name : Text) (input : Value)

structure Message where
  content : List Block
  stop_reason : Option Text
  usage : Value

def Block.text? : Block → Option Text
  | .text said => some said
  | .toolUse .. => none

-- `json.dumps` of a call's input
variable (dumps : Value → Text)

/-- The call of a block; an empty input is an empty object. -/
def Block.call? : Block → Option Call
  | .text _ => none
  | .toolUse id name input =>
    some ⟨id, Text.of "function", name, dumps (input.or (.dict []))⟩

/-- `_anthropic_to_completions_json` -/
def whole (who : Ident) (m : Message) : ChunkFold.Completion :=
  let tool_calls := m.content.filterMap (Block.call? dumps)
  { id := who.id
    created := who.created
    model := who.model
    choices := [{
      index := 0
      message := {
        role := Text.of "assistant"
        content := some ((Text.of "\n").intercalate (m.content.filterMap Block.text?))
        tool_calls := tool_calls }
      finish_reason := if tool_calls ≠ [] then TOOL_CALLS else STOP }]
    usage := some (Used.new.take I m.usage).openai }

/-! ### One answer, both ways -/

/-- A block as it is streamed: in pieces. -/
inductive Told where
  | text (pieces : List Text)
  | toolUse (id name : Text) (input : Value) (pieces : List Text)

namespace Told

def block : Told → Block
  | text pieces => .text pieces.flatten
  | toolUse id name input _ => .toolUse id name input

/-- The events of a block. -/
def events (index : ℕ) : Told → List Event
  | text pieces => .blockStart index .text :: pieces.map (Event.textDelta index)
  | toolUse id name _ pieces =>
    .blockStart index (.toolUse id name) :: pieces.map (Event.inputJsonDelta index)

/-- The pieces of a call's input are the input, for `json.loads`; an empty object may come without
any. -/
def Reads (loads : Text → Option Value) : Told → Prop
  | text _ => True
  | toolUse _ _ input pieces =>
    loads pieces.flatten = some input ∨ input = .dict [] ∧ pieces.flatten = []

/-- The pieces of a call's input are what `json.dumps` makes of it. -/
def Printed : Told → Prop
  | text _ => True
  | toolUse _ _ input pieces => pieces.flatten = dumps (input.or (.dict []))

/-- What a block says. -/
def said : Told → List Text
  | text pieces => pieces
  | toolUse .. => []

/-- The call that the stream of a block makes. -/
def call? : Told → Option Call
  | text _ => none
  | toolUse id name _ pieces => some ⟨id, Text.of "function", name, pieces.flatten⟩

end Told

/-- The events of blocks, from an index on. -/
def toldFrom : ℕ → List Told → List Event
  | _, [] => []
  | index, b :: bs => b.events index ++ toldFrom (index + 1) bs

def Event.isOther : Event → Bool
  | .other => true
  | _ => false

/-- **An answer both ways**: the message, and the events that tell it, with pings and the ends of
blocks anywhere between them. The tokens of the message are the most that the events tell. -/
structure Streamed (loads : Text → Option Value) where
  blocks : List Told
  stop_reason : Option Text
  usage : Value
  started : Value
  ended : Value
  events : List Event
  reads : ∀ b ∈ blocks, b.Reads loads
  shape : events.filter (fun ev => !ev.isOther) =
    .messageStart started :: (toldFrom 0 blocks ++ [.messageDelta stop_reason ended, .messageStop])
  counted : Used.new.take I usage = (Used.new.take I started).take I ended

namespace Streamed

variable {I} {loads : Text → Option Value} (s : Streamed I loads)

def message : Message := ⟨s.blocks.map Told.block, s.stop_reason, s.usage⟩

/-- The texts of the message. -/
def texts : List Text := s.message.content.filterMap Block.text?

/-- Whether the message calls a tool. -/
def calling : Bool := s.blocks.any fun b => b.call?.isSome

/-- **Nothing that the translations treat in different ways**: several texts, calls without a
text, a stop reason that does not go with the blocks, no tokens, and an input that was not written
as `json.dumps` writes it. -/
structure Alike : Prop where
  oneText : s.texts.length ≤ 1
  speaking : s.calling = true → s.texts.flatten ≠ []
  reason : s.stop_reason = some TOOL_USE ↔ s.calling = true
  known : (Used.new.take I s.usage).known = true
  printed : ∀ b ∈ s.blocks, b.Printed dumps

end Streamed

/-! ### Following the stream -/

variable {I} {who : Ident}

/-- What is neither a block nor the message goes by. -/
theorem translate_filter (st : State) (evs : List Event) :
    translate I who st (evs.filter fun ev => !ev.isOther) = translate I who st evs := by
  induction evs generalizing st with
  | nil => rfl
  | cons ev evs ih =>
    cases ev with
    | other => exact ih st
    | messageStop => rfl
    | messageStart | blockStart | textDelta | inputJsonDelta | messageDelta =>
      exact congrArg ((step I who st _).2 ++ ·) (ih _)

/-- The pieces of a text are put behind the text. -/
theorem fold_texts (st : State) (index : ℕ) (pieces : List Text) (evs : List Event)
    (text : List Text) (calls : List (ℕ × Call)) :
    (translate I who st (pieces.map (Event.textDelta index) ++ evs)).foldl ChunkFold.event
        (who.held none ⟨Text.of "assistant", text, calls, []⟩) =
      (translate I who st evs).foldl ChunkFold.event
        (who.held none ⟨Text.of "assistant", text ++ pieces, calls, []⟩) := by
  induction pieces generalizing text with
  | nil => rw [List.append_nil]; rfl
  | cons piece pieces ih =>
    have hstep : translate I who st ((piece :: pieces).map (Event.textDelta index) ++ evs) =
        who.chunk ⟨none, some piece, []⟩ none none ::
          translate I who st (pieces.map (Event.textDelta index) ++ evs) := rfl
    rw [hstep, List.foldl_cons, event_text, ih, List.append_assoc]
    rfl

/-- The pieces of an input come to the call that was announced last. -/
theorem fold_inputs {st : State} {index : ℕ} {calls : List Call}
    (hindex : Assoc.get st.tc_index_map index = some calls.length) (pieces : List Text)
    (evs : List Event) (text : List Text) (call : Call) :
    (translate I who st (pieces.map (Event.inputJsonDelta index) ++ evs)).foldl ChunkFold.event
        (who.held none ⟨Text.of "assistant", text, Assoc.numbered (calls ++ [call]), []⟩) =
      (translate I who st evs).foldl ChunkFold.event
        (who.held none ⟨Text.of "assistant", text,
          Assoc.numbered (calls ++ [call.extend pieces.flatten]), []⟩) := by
  induction pieces generalizing call with
  | nil =>
    rw [List.flatten_nil, Call.extend_nil]
    rfl
  | cons piece pieces ih =>
    have hstep : translate I who st ((piece :: pieces).map (Event.inputJsonDelta index) ++ evs) =
        who.chunk ⟨none, none, [⟨calls.length, none, none, none, some piece⟩]⟩ none none ::
          translate I who st (pieces.map (Event.inputJsonDelta index) ++ evs) := by
      show who.chunk ⟨none, none, [⟨(Assoc.get st.tc_index_map index).getD 0, none, none, none,
        some piece⟩]⟩ none none :: _ = _
      rw [hindex]
      rfl
    rw [hstep, List.foldl_cons, event_part, call_last, ih, Call.extend_extend]
    rfl

/-- **The blocks** are followed one by one: a text is put behind the text, and a call behind the
calls. -/
theorem fold_told (bs : List Told) (index : ℕ) {st : State} {calls : List Call}
    (hnext : st.tc_chat_index = calls.length) (evs : List Event) (text : List Text) :
    ∃ st', st'.finish_reason = st.finish_reason ∧ st'.used = st.used ∧
      (translate I who st (toldFrom index bs ++ evs)).foldl ChunkFold.event
          (who.held none ⟨Text.of "assistant", text, Assoc.numbered calls, []⟩) =
        (translate I who st' evs).foldl ChunkFold.event
          (who.held none ⟨Text.of "assistant", text ++ bs.flatMap Told.said,
            Assoc.numbered (calls ++ bs.filterMap Told.call?), []⟩) := by
  induction bs generalizing index st calls text with
  | nil =>
    refine ⟨st, rfl, rfl, ?_⟩
    rw [List.flatMap_nil, List.filterMap_nil, List.append_nil, List.append_nil]
    rfl
  | cons b bs ih =>
    rw [toldFrom, List.append_assoc]
    cases b with
    | text pieces =>
      obtain ⟨st', hfinish, hused, hfold⟩ := ih (index + 1) hnext (text ++ pieces)
      refine ⟨st', hfinish, hused, ?_⟩
      -- the beginning of a text says nothing
      show (translate I who st (pieces.map (Event.textDelta index) ++
        (toldFrom (index + 1) bs ++ evs))).foldl ChunkFold.event _ = _
      rw [fold_texts, hfold, List.append_assoc]
      rfl
    | toolUse id name input pieces =>
      let st₁ : State := { st with
        tc_index_map := Assoc.set st.tc_index_map index st.tc_chat_index
        tc_chat_index := st.tc_chat_index + 1 }
      let call : Call := ⟨id, Text.of "function", name, pieces.flatten⟩
      have hnext₁ : st₁.tc_chat_index = (calls ++ [call]).length := by
        rw [List.length_append, List.length_singleton, ← hnext]
      have hindex : Assoc.get st₁.tc_index_map index = some calls.length := by
        show Assoc.get (Assoc.set st.tc_index_map index st.tc_chat_index) index = _
        rw [Assoc.get_set, if_pos rfl, hnext]
      obtain ⟨st', hfinish, hused, hfold⟩ := ih (index + 1) hnext₁ text
      refine ⟨st', hfinish, hused, ?_⟩
      have hstep : translate I who st ((Told.toolUse id name input pieces).events index ++
          (toldFrom (index + 1) bs ++ evs)) =
            who.chunk ⟨none, none, [⟨calls.length, some id, some (Text.of "function"), some name,
              some []⟩]⟩ none none ::
              translate I who st₁ (pieces.map (Event.inputJsonDelta index) ++
                (toldFrom (index + 1) bs ++ evs)) := by
        rw [← hnext]
        rfl
      rw [hstep, List.foldl_cons, event_part, call_new, fold_inputs hindex]
      show (translate I who st₁ _).foldl ChunkFold.event
        (who.held none ⟨_, text, Assoc.numbered (calls ++ [call]), []⟩) = _
      rw [hfold, List.append_assoc]
      rfl

/-! ### Both answers -/

/-- Texts that are joined with something between them are the same as joined with nothing only if
there is nothing to join. -/
theorem intercalate_eq_flatten {α : Type} {sep : List α} (hsep : sep ≠ []) (l : List (List α)) :
    sep.intercalate l = l.flatten ↔ l.length ≤ 1 := by
  have hpos : 0 < sep.length := List.length_pos_iff.mpr hsep
  -- every further one makes it longer
  have hlength : ∀ a (l : List (List α)),
      (sep.intercalate (a :: l)).length = (a :: l).flatten.length + l.length * sep.length := by
    intro a l
    induction l generalizing a with
    | nil => rw [List.intercalate_singleton]; simp
    | cons b l ih =>
      rw [List.intercalate_cons_cons, List.length_append, ih]
      simp only [List.length_append, List.flatten_cons, List.length_cons, Nat.succ_mul]
      omega
  match l with
  | [] => exact ⟨fun _ => Nat.zero_le 1, fun _ => rfl⟩
  | [a] =>
    rw [List.intercalate_singleton, List.flatten_singleton]
    exact ⟨fun _ => Nat.le_refl 1, fun _ => rfl⟩
  | a :: b :: l =>
    refine ⟨fun h => ?_, fun h => absurd h (by simp)⟩
    have hlen := hlength a (b :: l)
    rw [h, List.length_cons, Nat.succ_mul] at hlen
    omega

variable {loads : Text → Option Value} {dumps}

/-- The streamed answer. -/
theorem fold_stream_events (s : Streamed I loads) :
    ((stream I who s.events).foldl ChunkFold.event .new).completion =
      ⟨who.id, who.created, who.model, [⟨0, ⟨Text.of "assistant",
        if s.texts.flatten ≠ [] ∨ s.blocks.filterMap Told.call? = [] then some s.texts.flatten
        else none, s.blocks.filterMap Told.call?⟩,
        if s.stop_reason = some TOOL_USE then TOOL_CALLS else STOP⟩],
        if (Used.new.take I s.usage).known then some (Used.new.take I s.usage).openai
        else none⟩ := by
  have htexts : ([[]] ++ s.blocks.flatMap Told.said).flatten = s.texts.flatten := by
    unfold Streamed.texts Streamed.message
    rw [List.singleton_append, List.flatten_cons, List.nil_append, List.filterMap_map]
    induction s.blocks with
    | nil => rfl
    | cons b bs ih =>
      rw [List.flatMap_cons, List.flatten_append, ih]
      cases b <;> rfl
  have hne : (if s.stop_reason = some TOOL_USE then TOOL_CALLS else STOP) ≠ [] := by
    split <;> decide
  obtain ⟨st, hfinish, hused, hfold⟩ := @fold_told I who s.blocks 0
    { State.new with used := Used.new.take I s.started } [] rfl
    [.messageDelta s.stop_reason s.ended, .messageStop] [[]]
  rw [stream, List.foldl_cons, event_initial, ← translate_filter, s.shape]
  show ((translate I who { State.new with used := Used.new.take I s.started } _).foldl
    ChunkFold.event (who.held none ⟨_, _, Assoc.numbered [], []⟩)).completion = _
  rw [hfold]
  show ((who.held none _).event (who.chunk ⟨none, none, []⟩
    (some (if s.stop_reason = some TOOL_USE then TOOL_CALLS else st.finish_reason))
    (if (st.used.take I s.ended).known then some (st.used.take I s.ended).openai
      else none))).completion = _
  rw [hfinish, hused]
  show ((who.held none _).event (who.chunk _
    (some (if s.stop_reason = some TOOL_USE then TOOL_CALLS else STOP)) _)).completion = _
  rw [← s.counted, event_final _ _ _ _ _ hne, Option.or_none,
    completion_held _ _ _ (by decide) hne, htexts]
  rfl

/-- The calls are the same exactly when their inputs were written as `json.dumps` writes them. -/
theorem calls_eq_iff (bs : List Told) :
    bs.filterMap Told.call? = (bs.map Told.block).filterMap (Block.call? dumps) ↔
      ∀ b ∈ bs, b.Printed dumps := by
  induction bs with
  | nil => exact ⟨fun _ _ h => (nomatch h), fun _ => rfl⟩
  | cons b bs ih =>
    rw [List.forall_mem_cons, ← ih]
    cases b with
    | text pieces => exact Iff.symm (iff_of_eq (true_and _))
    | toolUse id name input pieces =>
      show Call.mk _ _ _ _ :: _ = Call.mk _ _ _ _ :: _ ↔ _
      rw [List.cons.injEq, Call.mk.injEq]
      exact and_congr_left fun _ => ⟨fun h => h.2.2.2, fun h => ⟨rfl, rfl, rfl, h⟩⟩

theorem calling_iff (s : Streamed I loads) :
    s.calling = true ↔ s.blocks.filterMap Told.call? ≠ [] := by
  unfold Streamed.calling
  rw [List.any_eq_true, ne_eq, List.filterMap_eq_nil_iff]
  push Not
  exact exists_congr fun b => and_congr_right fun _ => Option.isSome_iff_ne_none

theorem content_iff (s : Streamed I loads) :
    (if s.texts.flatten ≠ [] ∨ s.blocks.filterMap Told.call? = [] then some s.texts.flatten
        else none) = some ((Text.of "\n").intercalate s.texts) ↔
      s.texts.length ≤ 1 ∧ (s.calling = true → s.texts.flatten ≠ []) := by
  rw [← intercalate_eq_flatten (by decide : Text.of "\n" ≠ []), calling_iff]
  by_cases hcontent : s.texts.flatten ≠ [] ∨ s.blocks.filterMap Told.call? = []
  · rw [if_pos hcontent, Option.some.injEq]
    exact ⟨fun h => ⟨h.symm, fun hcalls => hcontent.resolve_right hcalls⟩, fun h => h.1.symm⟩
  · -- calls without a text: the fold has no content
    rw [if_neg hcontent]
    rw [not_or, not_not] at hcontent
    exact ⟨fun h => (nomatch h), fun h => absurd hcontent.1 (h.2 hcontent.2)⟩

theorem reason_iff (s : Streamed I loads) :
    (if s.stop_reason = some TOOL_USE then TOOL_CALLS else STOP) =
        (if s.blocks.filterMap Told.call? ≠ [] then TOOL_CALLS else STOP) ↔
      (s.stop_reason = some TOOL_USE ↔ s.calling = true) := by
  have hne : TOOL_CALLS ≠ STOP := by decide
  rw [calling_iff]
  by_cases hstop : s.stop_reason = some TOOL_USE <;>
    by_cases hcalls : s.blocks.filterMap Told.call? ≠ []
  · rw [if_pos hstop, if_pos hcalls]
    exact ⟨fun _ => ⟨fun _ => hcalls, fun _ => hstop⟩, fun _ => rfl⟩
  · rw [if_pos hstop, if_neg hcalls]
    exact ⟨fun h => absurd h hne, fun h => absurd (h.mp hstop) hcalls⟩
  · rw [if_neg hstop, if_pos hcalls]
    exact ⟨fun h => absurd h.symm hne, fun h => absurd (h.mpr hcalls) hstop⟩
  · rw [if_neg hstop, if_neg hcalls]
    exact ⟨fun _ => ⟨fun h => absurd h hstop, fun h => absurd h hcalls⟩, fun _ => rfl⟩

theorem usage_iff (used : Used) :
    (if used.known then some used.openai else none) = some used.openai ↔ used.known = true := by
  cases hknown : used.known with
  | true => exact ⟨fun _ => rfl, fun _ => rfl⟩
  | false => exact ⟨fun h => (nomatch h), fun h => (nomatch h)⟩

/-- **The two translations are alike exactly when** the answer has nothing that they treat in
different ways. -/
theorem alike_iff (s : Streamed I loads) :
    ((stream I who s.events).foldl ChunkFold.event .new).completion =
        whole I dumps who s.message ↔ s.Alike dumps := by
  have hwhole : whole I dumps who s.message =
      ⟨who.id, who.created, who.model, [⟨0, ⟨Text.of "assistant",
        some ((Text.of "\n").intercalate s.texts),
        (s.blocks.map Told.block).filterMap (Block.call? dumps)⟩,
        if (s.blocks.map Told.block).filterMap (Block.call? dumps) ≠ [] then TOOL_CALLS
        else STOP⟩], some (Used.new.take I s.usage).openai⟩ := rfl
  rw [fold_stream_events, hwhole]
  simp only [ChunkFold.Completion.mk.injEq, List.cons.injEq, ChunkFold.Answer.mk.injEq,
    ChunkFold.Message.mk.injEq, true_and, and_true]
  rw [content_iff, calls_eq_iff, usage_iff]
  constructor
  · rintro ⟨⟨⟨⟨honeText, hspeaking⟩, hprinted⟩, hreason⟩, hknown⟩
    rw [← (calls_eq_iff _).mpr hprinted, reason_iff] at hreason
    exact ⟨honeText, hspeaking, hreason, hknown, hprinted⟩
  · intro h
    refine ⟨⟨⟨⟨h.oneText, h.speaking⟩, h.printed⟩, ?_⟩, h.known⟩
    rw [← (calls_eq_iff _).mpr h.printed, reason_iff]
    exact h.reason

/-! Two texts, which the one translation joins with a line feed. -/

/-- Three tokens in and two out, told at the end. -/
def USAGE : Value := .dict [(Text.of "input_tokens", .int 3), (Text.of "output_tokens", .int 2)]

def TWO_TEXTS : Streamed Interp.ascii fun _ => none where
  blocks := [.text [Text.of "a"], .text [Text.of "b"]]
  stop_reason := some (Text.of "end_turn")
  usage := USAGE
  started := .null
  ended := USAGE
  events := [.messageStart .null, .blockStart 0 .text, .textDelta 0 (Text.of "a"), .other,
    .blockStart 1 .text, .textDelta 1 (Text.of "b"), .other,
    .messageDelta (some (Text.of "end_turn")) USAGE, .messageStop]
  reads := by
    intro b hb
    rcases List.mem_pair.mp hb with rfl | rfl <;> exact trivial
  shape := rfl
  counted := rfl

theorem two_texts_differ :
    ((stream Interp.ascii WHO TWO_TEXTS.events).foldl ChunkFold.event .new).completion ≠
        whole Interp.ascii (fun _ => Text.of "\x7b\x7d") WHO TWO_TEXTS.message ∧
      ((stream Interp.ascii WHO TWO_TEXTS.events).foldl ChunkFold.event .new).completion.choices.map
        (·.message.content) = [some (Text.of "ab")] ∧
      (whole Interp.ascii (fun _ => Text.of "\x7b\x7d") WHO TWO_TEXTS.message).choices.map
        (·.message.content) = [some (Text.of "a\nb")] := by
  decide

end Translate.Anthropic
