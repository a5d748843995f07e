import Caravan.Framework.Standing
import Caravan.Python.Compact

/-!
# A chat request for another API

A chat request goes to the Responses API and to Anthropic's messages in other shapes: what the
system says becomes the instructions, and every other message a turn of the conversation.

The one translation goes message by message; the other takes the tool results that come together
into one turn. Either way the conversation is read in the order of the messages
(`Responses.body_flatMap`, `Anthropic.loop_flatMap`).
-/

namespace Translate.Requests

open Python

/-! ### A chat request -/

/-- A part of a content, as the client wrote it. -/
abbrev Part := Dict

/-- A text, or nothing of it: `d.get(k, "")` -/
def strOr : Value → Text
  | .str t => t
  | _ => []

namespace Part

def isOf (type : Text) (p : Part) : Bool :=
  match p.get (Text.of "type") with
  | .str t => t = type
  | _ => false

def isText (p : Part) : Bool := p.isOf (Text.of "text")

def isImage (p : Part) : Bool := p.isOf (Text.of "image_url")

def text (p : Part) : Text := strOr (p.get (Text.of "text"))

def image (p : Part) : Dict := (p.get (Text.of "image_url")).asDict

def url (p : Part) : Text := strOr (p.image.get (Text.of "url"))

end Part

inductive Content where
  | text (t : Text)
  | parts (ps : List Part)

/-- `content or ""` -/
def Content.orEmpty : Content → Content
  | .parts [] => .text []
  | content => content

inductive Role where
  | system
  | developer
  | user
  | assistant
  | tool
  | other
  deriving DecidableEq

structure ToolCall where
  id : Text
  name : Text
  arguments : Value

structure Message where
  role : Role
  content : Content
  tool_calls : List ToolCall
  tool_call_id : Text

/-- The texts of the text parts. -/
def textsOf (ps : List Part) : List Text := (ps.filter Part.isText).map Part.text

/-- What a content comes to as instructions: the texts of its parts, line by line. -/
def Content.joined : Content → Text
  | .text t => t
  | .parts ps => (Text.of "\n").intercalate (textsOf ps)

-- the interpreter, for `str` of a list
variable (I : Interp)

/-- `content if isinstance(content, str) else str(content)` -/
def Content.asStr : Content → Text
  | .text t => t
  | .parts ps => reprValue I (.list (ps.map Value.dict))

/-- `content if isinstance(content, str) else json.dumps(content)` -/
def Content.asJson : Content → Text
  | .text t => t
  | .parts ps => compact (.list (ps.map Value.dict))

/-! ### The Responses request -/

namespace Responses

inductive InputPart where
  | inputText (text : Text)
  | inputImage (detail image_url : Text)

/-- An item of the input. -/
inductive Item where
  | user (content : List InputPart)
  | assistant (text : Text)
  | functionCall (id call_id name : Text) (arguments : Value)
  | functionCallOutput (call_id output : Text)

def DETAILS : List Text := [Text.of "low", Text.of "high", Text.of "auto"]

/-- `ChatLevers.detail` -/
def detail (image : Dict) : Text :=
  match image.get (Text.of "detail") with
  | .str t => if t ∈ DETAILS then t else Text.of "auto"
  | _ => Text.of "auto"

def inputPart (p : Part) : Option InputPart :=
  if p.isText then some (.inputText p.text)
  else if p.isImage then some (.inputImage (detail p.image) p.url)
  else none

def functionCall (tc : ToolCall) : Item :=
  let fc_id := if (Text.of "fc").isPrefixOf tc.id then tc.id else Text.of "fc_" ++ tc.id
  .functionCall fc_id tc.id tc.name tc.arguments

/-- What an assistant says, if it says anything. -/
def spoken : Content → List Item
  | .text [] => []
  | content => [.assistant (content.asStr I)]

/-- The items of a message. -/
def items (m : Message) : List Item :=
  let content := m.content.orEmpty
  match m.role with
  | .user =>
    match content with
    | .text t => [.user [.inputText t]]
    | .parts ps =>
      let parts := ps.filterMap inputPart
      if parts.isEmpty then [] else [.user parts]
  | .assistant => spoken I content ++ m.tool_calls.map functionCall
  | .tool => [.functionCallOutput m.tool_call_id content.asJson]
  | .system | .developer | .other => []

structure State where
  instructions : Text
  input_msgs : List Item

def DEFAULT : Text := Text.of "You are a helpful assistant."

def step (st : State) (m : Message) : State :=
  match m.role with
  | .system => { st with instructions := m.content.orEmpty.joined }
  | _ => { st with input_msgs := st.input_msgs ++ items I m }

/-- `_chat_to_responses_body`, by its instructions and its input. -/
def body (messages : List Message) : State := messages.foldl (step I) ⟨DEFAULT, []⟩

def InputPart.text? : InputPart → Option Text
  | inputText text => some text
  | inputImage .. => none

/-- The texts of an item. -/
def Item.texts : Item → List Text
  | user content => content.filterMap InputPart.text?
  | assistant text => [text]
  | functionCall .. => []
  | functionCallOutput _ output => [output]

theorem items_system {m : Message} (h : m.role = .system) : items I m = [] := by
  unfold items
  rw [h]

theorem foldl_step (st : State) (ms : List Message) :
    (ms.foldl (step I) st).input_msgs = st.input_msgs ++ ms.flatMap (items I) := by
  induction ms generalizing st with
  | nil => exact (List.append_nil _).symm
  | cons m ms ih =>
    rw [List.foldl_cons, ih, List.flatMap_cons, ← List.append_assoc]
    congr 1
    unfold step
    split
    · next h => rw [items_system I h, List.append_nil]
    · rfl

/-- The input is read in the order of the messages. -/
theorem body_flatMap {β : Type} (f : Item → List β) (ms : List Message) :
    (body I ms).input_msgs.flatMap f = ms.flatMap fun m => (items I m).flatMap f := by
  rw [body, foldl_step, List.nil_append, List.flatMap_assoc]

end Responses

/-! ### The Anthropic request -/

namespace Anthropic

inductive Source where
  | base64 (media_type data : Text)
  | url (url : Text)

inductive Block where
  | text (text : Text)
  | image (source : Source)
  | toolUse (id name : Text) (input : Value)
  | toolResult (tool_use_id content : Text)

inductive Speaker where
  | user
  | assistant

/-- The content of a turn: a text, or blocks. -/
inductive Said where
  | text (text : Text)
  | blocks (bs : List Block)

structure Turn where
  role : Speaker
  content : Said

/-- The source of an image: a `data:` URL by its media type and its data. -/
def source (url : Text) : Source :=
  if (Text.of "data:").isPrefixOf url then
    let header := url.takeWhile (· ≠ codePoint ',')
    if header.length < url.length then
      .base64 (((header.drop 5).takeWhile (· ≠ codePoint ':')).takeWhile (· ≠ codePoint ';'))
        (url.drop (header.length + 1))
    else .base64 (Text.of "image/jpeg") []
  else .url url

def block (p : Part) : Option Block :=
  if p.isText then some (.text p.text)
  else if p.isImage then some (.image (source p.url))
  else none

-- `json.loads` of a call's arguments
variable (loads : Text → Option Value)

/-- The input of a call: arguments that are no JSON become an empty object. -/
def input : Value → Value
  | .str t => (loads t).getD (.dict [])
  | v => v.or (.dict [])

def toolUse (tc : ToolCall) : Block := .toolUse tc.id tc.name (input loads tc.arguments)

def toolResult (m : Message) : Block := .toolResult m.tool_call_id m.content.orEmpty.asJson

def userTurn : Content → Turn
  | .text t => ⟨.user, .text t⟩
  | .parts ps => ⟨.user, .blocks (ps.filterMap block)⟩

/-- What is said beside a call, if anything is. -/
def beside (content : Content) : List Block :=
  match content.asStr I with
  | [] => []
  | text => [.text text]

def assistantTurn (m : Message) : Turn :=
  let content := m.content.orEmpty
  if m.tool_calls.isEmpty then
    match content with
    | .text t => ⟨.assistant, .text t⟩
    | .parts ps =>
      let blocks := (textsOf ps).map Block.text
      ⟨.assistant, if blocks.isEmpty then .text (content.asStr I) else .blocks blocks⟩
  else ⟨.assistant, .blocks (beside I content ++ m.tool_calls.map (toolUse loads))⟩

structure State where
  system_content : Option Text
  anthropic_msgs : List Turn

def State.add (st : State) (turn : Turn) : State :=
  { st with anthropic_msgs := st.anthropic_msgs ++ [turn] }

def isTool (m : Message) : Bool := m.role = .tool

/-- The turn of tool results that come together. -/
def results (run : List Message) : Turn := ⟨.user, .blocks (run.map toolResult)⟩

/-- The messages, from one on; the tool results behind it are taken with a tool result. -/
def loop (st : State) : List Message → State
  | [] => st
  | m :: ms =>
    match m.role with
    | .system => loop { st with system_content := some m.content.orEmpty.joined } ms
    | .tool => loop (st.add (results (m :: ms.takeWhile isTool))) (ms.dropWhile isTool)
    | .assistant => loop (st.add (assistantTurn I loads m)) ms
    | .user => loop (st.add (userTurn m.content.orEmpty)) ms
    | .developer | .other => loop st ms
  termination_by ms => ms.length
  decreasing_by
    all_goals simp only [List.length_cons]
    all_goals have := (List.dropWhile_suffix isTool (l := ms)).length_le
    all_goals omega

/-- `_chat_to_anthropic_body`, by its system content and its messages. -/
def body (messages : List Message) : State := loop I loads ⟨none, []⟩ messages

def Block.text? : Block → Option Text
  | text t => some t
  | toolResult _ content => some content
  | image _ | toolUse .. => none

/-- The texts of a turn. -/
def Turn.texts (turn : Turn) : List Text :=
  match turn.content with
  | .text t => [t]
  | .blocks bs => bs.filterMap Block.text?

/-! ### Following the messages -/

variable {I} {loads}

theorem State.add_flatMap {β : Type} (f : Turn → List β) (st : State) (turn : Turn) :
    (st.add turn).anthropic_msgs.flatMap f = st.anthropic_msgs.flatMap f ++ f turn := by
  show (st.anthropic_msgs ++ [turn]).flatMap f = _
  rw [List.flatMap_append, List.flatMap_singleton]

/-- What is read of the turns is what is read of the messages that make them. -/
structure Follows {β : Type} (I : Interp) (loads : Text → Option Value) (f : Turn → List β)
    (g : Message → List β) : Prop where
  results : ∀ run : List Message, (∀ m ∈ run, m.role = .tool) → f (results run) = run.flatMap g
  assistant : ∀ m, m.role = .assistant → f (assistantTurn I loads m) = g m
  user : ∀ m, m.role = .user → f (userTurn m.content.orEmpty) = g m
  rest : ∀ m, m.role = .system ∨ m.role = .developer ∨ m.role = .other → g m = []

theorem isTool_iff {m : Message} : isTool m = true ↔ m.role = .tool := decide_eq_true_iff

/-- The turns are read in the order of the messages. -/
theorem loop_flatMap {β : Type} {f : Turn → List β} {g : Message → List β}
    (h : Follows I loads f g) (st : State) (ms : List Message) :
    (loop I loads st ms).anthropic_msgs.flatMap f =
      st.anthropic_msgs.flatMap f ++ ms.flatMap g := by
  fun_induction loop I loads st ms with
  | case1 st => exact (List.append_nil _).symm
  | case2 st m ms hrole ih =>
    rw [ih, List.flatMap_cons, h.rest m (.inl hrole)]
    rfl
  | case3 st m ms hrole ih =>
    have hrun : ∀ m' ∈ m :: ms.takeWhile isTool, m'.role = .tool := by
      intro m' hm'
      rcases List.mem_cons.mp hm' with rfl | hm'
      · exact hrole
      · exact isTool_iff.mp (List.mem_takeWhile_imp hm')
    rw [ih, State.add_flatMap, h.results _ hrun, List.append_assoc, ← List.flatMap_append,
      List.cons_append, List.takeWhile_append_dropWhile]
  | case4 st m ms hrole ih =>
    rw [ih, State.add_flatMap, h.assistant m hrole, List.append_assoc, List.flatMap_cons]
  | case5 st m ms hrole ih =>
    rw [ih, State.add_flatMap, h.user m hrole, List.append_assoc, List.flatMap_cons]
  | case6 st m ms hrole ih =>
    rw [ih, List.flatMap_cons, h.rest m (.inr (.inl hrole))]
    rfl
  | case7 st m ms hrole ih =>
    rw [ih, List.flatMap_cons, h.rest m (.inr (.inr hrole))]
    rfl
end Anthropic

end Translate.Requests
