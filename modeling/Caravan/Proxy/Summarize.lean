import Caravan.Python.Json

/-!
# Summaries of requests and answers

What `summarize.py` keeps of a body, of an answer and of the lines of a stream. Each
of them takes what `json.loads` made of the bytes, or the words of its error; the
texts among it are the client's or the upstream's own.
-/

namespace Proxy

open Python

variable (I : Interp)

/-- A body: its length, and what `json.loads(body.decode("utf-8"))` makes of it. -/
structure Body where
  length : ℕ
  json : Except String Value

def TEXT_PREVIEW_LIMIT : ℕ := 180

/-- `v == s` for a literal `s`. -/
def isText (s : String) : Value → Bool
  | .str t => t = Text.of s
  | _ => false

def compactText (value : Text) : Text :=
  let text := Text.strip ((value.replace (codePoint '\n') (codePoint ' ')).replace
    (codePoint '\r') (codePoint ' '))
  if TEXT_PREVIEW_LIMIT < text.length then
    Text.rstrip (text.take TEXT_PREVIEW_LIMIT) ++ Text.of "..."
  else text

/-! ### `request_summary` -/

/-- What the loop over the messages has gathered. -/
structure Seen where
  promptTextChars : ℕ
  imageParts : ℕ
  roles : List Text
  lastText : Text

/-- The messages of a body, in either of the two shapes. -/
def messagesOf (payload : Dict) : List Value :=
  let messages := (payload.get "messages").asList
  if messages.isEmpty && payload.has "input" then
    match payload.get "input" with
    | .list items => items.filter fun it => it.isDict && it.asDict.has "role"
    | .str t => [.dict [("role", "user"), ("content", .str t)]]
    | _ => messages
  else messages

/-- One part of a message's content. -/
def seePart (s : Seen) : Value → Except Error Seen
  | .dict part => do
    if isText "text" (Dict.get part "type") || isText "input_text" (Dict.get part "type") then
      let text ← strOf I ((Dict.get part "text").or "")
      return { s with promptTextChars := s.promptTextChars + text.length, lastText := text }
    else
      let type ← strOf I ((Dict.get part "type").or "")
      if type.contains (Text.of "image") || (Dict.get part "image_url").truthy then
        return { s with imageParts := s.imageParts + 1 }
      else return s
  | _ => return s

def seeContent (s : Seen) : Value → Except Error Seen
  | .str t => return { s with promptTextChars := s.promptTextChars + t.length, lastText := t }
  | .list parts => parts.foldlM (seePart I) s
  | _ => return s

def seeMessage (s : Seen) : Value → Except Error Seen
  | .dict message => do
    let role ← strOf I ((Dict.get message "role").or "")
    let s := if role ≠ [] ∧ role ∉ s.roles then { s with roles := s.roles ++ [role] } else s
    seeContent I s (Dict.get message "content")
  | _ => return s

def see (messages : List Value) : Except Error Seen :=
  messages.foldlM (seeMessage I) ⟨0, 0, [], []⟩

/-- `value not in (None, "", [])` -/
def told : Value → Bool
  | .null => false
  | .str t => t ≠ []
  | .list vs => !vs.isEmpty
  | _ => true

/-- The limit a body names, under any of its three names. -/
def maxTokensOf (payload : Dict) : Value :=
  ((payload.get "max_tokens").or (payload.get "max_completion_tokens")).or
    (payload.get "n_predict")

/-- The fields of a body that is a JSON object. -/
def summaryOf (payload : Dict) (messages : List Value) (seen : Seen) : Dict :=
  [("model", payload.get "model"), ("stream", payload.get "stream"),
    ("maxTokens", maxTokensOf payload), ("temperature", payload.get "temperature"),
    ("topP", payload.get "top_p"), ("messages", .int messages.length),
    ("roles", .list (seen.roles.map .str)), ("promptTextChars", .int seen.promptTextChars),
    ("imageParts", .int seen.imageParts),
    ("tools", .int (payload.get "tools").asList.length),
    ("lastTextPreview", .str (compactText seen.lastText))]

/-- `body and "json" in content_type.lower()` -/
def readsJson (body : Body) (contentType : Text) : Bool :=
  body.length ≠ 0 && Text.contains (contentType.map lowerAscii) (Text.of "json")

def requestSummary (body : Body) (contentType : Text) : Except Error Dict := do
  let summary : Dict :=
    [("contentType", .str contentType), ("contentLength", .int body.length)]
  if !readsJson body contentType then
    return summary
  match body.json with
  | .error text => return summary.set "parseError" (.str text)
  | .ok (.dict payload) =>
    let messages := messagesOf payload
    let seen ← see I messages
    return (summary.update (summaryOf payload messages seen)).filter fun p => told p.2
  | .ok _ => return summary

/-! ### Answers -/

/-- The reasons a list of choices gives for its end. -/
def finishReasonsOf (choices : List Value) : List Value :=
  (choices.filter fun c => c.isDict && (c.asDict.get "finish_reason").truthy).map fun c =>
    c.asDict.get "finish_reason"

def responseSummary : Value → Dict
  | .dict payload =>
    let choices := (Dict.get payload "choices").asList
    [("id", Dict.get payload "id"), ("model", Dict.get payload "model"),
      ("object", Dict.get payload "object"), ("usage", .dict (Dict.get payload "usage").asDict),
      ("timings", .dict (Dict.get payload "timings").asDict), ("choices", .int choices.length),
      ("finishReasons", .list (finishReasonsOf choices))]
  | _ => []

/-- A line of an event stream, and what its JSON is: `parse_json_bytes` makes an empty
object of data that is none. -/
inductive Line where
  | other
  | empty
  | done
  | data (payload : Value)

/-- The tallies of a stream, kept by `proxy` for its request. -/
structure Stream where
  events : ℕ
  deltaTextChars : ℕ
  finishReasons : List Value
  usage : Dict
  done : Bool
  timings : Option Dict
  model : Option Value

def Stream.empty : Stream := ⟨0, 0, [], [], false, none, none⟩

def Stream.toDict (s : Stream) : Dict :=
  let tallies : Dict := [("events", .int s.events), ("deltaTextChars", .int s.deltaTextChars),
    ("finishReasons", .list s.finishReasons), ("usage", .dict s.usage), ("done", .bool s.done)]
  let timings : Dict := (s.timings.map fun d => (Text.of "timings", Value.dict d)).toList
  let model : Dict := (s.model.map fun v => (Text.of "model", v)).toList
  tallies ++ timings ++ model

/-- The characters of one choice's delta. -/
def deltaChars (choice : Value) : Except Error ℕ := do
  if choice.isDict then
    let delta := (choice.asDict.get "delta").asDict
    let text ← strOf I (((delta.get "content").or (choice.asDict.get "text")).or "")
    return text.length
  else return 0

/-- `stream_summary_from_line`, and what the relay of a stream takes from it. -/
def Stream.hear (s : Stream) : Line → Except Error Stream
  | .other => return s
  | .empty => return { s with events := s.events + 1 }
  | .done => return { s with events := s.events + 1, done := true }
  | .data (.dict payload) => do
    let choices := (Dict.get payload "choices").asList
    let chars ← choices.mapM (deltaChars I)
    let usage := (Dict.get payload "usage").asDict
    let timings := (Dict.get payload "timings").asDict
    let model := Dict.get payload "model"
    let reasons := finishReasonsOf choices
    return { s with
      events := s.events + 1
      deltaTextChars := s.deltaTextChars + chars.sum
      usage := if usage.isEmpty then s.usage else usage
      timings := if timings.isEmpty then s.timings else some timings
      model := if model.truthy then some model else s.model
      finishReasons := if reasons.isEmpty then s.finishReasons else reasons }
  | .data _ => return { s with events := s.events + 1 }

end Proxy
