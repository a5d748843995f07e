import Caravan.Proxy.PoolSteps

/-!
# What a consumer of the entry is told

The errors of `openai_errors.py` and the words `dialect.py` puts an answer of the upstream
into. An error is its status, its payload and its headers; the bytes are made of these alone.
-/

namespace Proxy.Consumer

open Python Proxy.Pool

/-! ### The errors -/

structure OpenAIError where
  status : ℤ
  message : Text
  code : Option Text
  param : Option Text
  retryAfter : Option ℤ
  deriving DecidableEq

/-- A value that may be `None`. -/
def optional : Option Text → Value
  | none => .null
  | some t => .str t

namespace OpenAIError

/-- `OpenAIError.RETRY_WINDOW` -/
def RETRY_WINDOW : ℤ := 60

def make (status : ℤ) (message : Text) (code param : Option Text) (retryAfter : ℤ) :
    OpenAIError :=
  ⟨status, message, code, param, if retryAfter = 0 then none else some retryAfter⟩

/-- `OpenAIError.type`, by the table `TYPES`. -/
def type (e : OpenAIError) : Text :=
  if e.status ∈ [400, 401, 403, 404, 409, 413, 422] then Text.of "invalid_request_error"
  else if e.status = 429 then Text.of "rate_limit_error"
  else if 500 ≤ e.status then Text.of "server_error"
  else Text.of "invalid_request_error"

def payload (e : OpenAIError) : Value :=
  .dict [("error", .dict [("message", .str e.message), ("type", .str e.type),
    ("param", optional e.param), ("code", optional e.code)])]

def headers (e : OpenAIError) : List (Text × Text) :=
  match e.retryAfter with
  | none => []
  | some n =>
    (Text.of "Retry-After", intRepr n) ::
      if RETRY_WINDOW < n then [(Text.of "x-should-retry", Text.of "false")] else []

/-- `seconds` in words: 45 s, 12 min, 3 h 20 min. -/
def duration (seconds : ℤ) : Text :=
  let seconds := max 1 seconds
  if seconds < 60 then intRepr seconds ++ Text.of " s"
  else
    let minutes := (seconds + 59) / 60
    if minutes < 60 then intRepr minutes ++ Text.of " min"
    else
      let hours := minutes / 60
      let rest := minutes % 60
      if rest = 0 then intRepr hours ++ Text.of " h"
      else intRepr hours ++ Text.of " h " ++ intRepr rest ++ Text.of " min"

/-- A model's name between backquotes. -/
def quoted (model : Text) : Text := ⟨0x60, by decide⟩ :: model ++ [⟨0x60, by decide⟩]

def paused : OpenAIError :=
  make 503 "This consumer is paused on the caravan's board." none none 30

def limit (model : Text) (retryAfter : ℤ) : OpenAIError :=
  make 429 (Text.of "The model " ++ quoted model ++
    Text.of " has reached its usage limit. Try again in " ++ duration retryAfter ++ Text.of ".")
    (some "rate_limit_exceeded") none retryAfter

def unavailable (model : Text) (retryAfter : ℤ) : OpenAIError :=
  make 503 (Text.of "The model " ++ quoted model ++ Text.of " cannot serve now. Try again later.")
    (some "model_unavailable") none retryAfter

def unsupported (model path : Text) : OpenAIError :=
  make 400 (Text.of "The model " ++ quoted model ++ Text.of " does not serve POST " ++
    (if path = [] then Text.of "this path" else path) ++
    Text.of ". Pick a model of your list that does.") none (some "model") 0

def closed (model opens : Text) (retryAfter : ℤ) : OpenAIError :=
  if opens = [] then
    make 503 (Text.of "The model " ++ quoted model ++
      Text.of " is closed by its schedule, and no window of it opens.")
      (some "model_unavailable") none 0
  else
    make 503 (Text.of "The model " ++ quoted model ++ Text.of " is closed by its schedule until " ++
      opens ++ Text.of ". Try again in " ++ duration retryAfter ++ Text.of ".")
      (some "model_unavailable") none retryAfter

/-- A letter of `CODE`. -/
def isLetter (c : CodePoint) : Bool :=
  (0x41 ≤ c.val && c.val ≤ 0x5A) || (0x61 ≤ c.val && c.val ≤ 0x7A)

/-- `CODE.fullmatch` -/
def isCode : Text → Bool
  | [] => false
  | c :: cs => isLetter c && cs.length ≤ 63 && cs.all fun d =>
      isLetter d || (0x30 ≤ d.val && d.val ≤ 0x39) || d ∈ Text.of "_.-"

/-- `OpenAIError.clean_code` -/
def cleanCode : Value → Option Text
  | .str t => if isCode t then some t else none
  | _ => none

/-- `OpenAIError.upstream` -/
def upstream (status : ℤ) (model reason : Text) (code : Value) : OpenAIError :=
  if status = 401 ∨ status = 403 then
    make 502 (Text.of "The provider behind " ++ quoted model ++
      Text.of " refused the caravan. The operator must sign in again.") (some "upstream_auth")
      none 0
  else if status = 429 then
    make 429 (Text.of "The model " ++ quoted model ++ Text.of " is busy. Try again later.")
      (some "rate_limit_exceeded") none 30
  else if 400 ≤ status ∧ status < 500 then
    make status (if reason = [] then Text.of "The model " ++ quoted model ++
      Text.of " refused the request (HTTP " ++ intRepr status ++ Text.of ")." else reason)
      (cleanCode code) none 0
  else
    make 502 (Text.of "The model " ++ quoted model ++ Text.of " failed (HTTP " ++ intRepr status ++
      Text.of ").") (some "upstream_error") none 0

end OpenAIError

/-- The statuses whose answers are told in the caravan's own words: its sign-in refused, its
limit, and the provider's own failures. -/
def Hidden (status : ℤ) : Prop := status = 401 ∨ status = 403 ∨ status = 429 ∨ 500 ≤ status

instance (status : ℤ) : Decidable (Hidden status) := by
  unfold Hidden
  infer_instance

/-- **A hidden answer is told without its words.** -/
theorem OpenAIError.upstream_hidden {status : ℤ} (h : Hidden status) (model reason reason' : Text)
    (code code' : Value) : upstream status model reason code = upstream status model reason' code' := by
  unfold upstream
  split
  · rfl
  split
  · rfl
  split
  · next h₁ h₂ h₃ =>
    rcases h with h | h | h | h
    · exact absurd (.inl h) h₁
    · exact absurd (.inr h) h₁
    · exact absurd h h₂
    · omega
  · rfl

/-! ### The dialect -/

/-- `OpenAIDialect.error` -/
def Dialect.error (model : Text) (status : ℤ) (kind : Text) : OpenAIError :=
  if kind = Text.of "blocked" then .paused
  else if status = 429 then .limit model 30
  else .make (if status < 500 then 502 else status)
    (Text.of "The model " ++ OpenAIError.quoted model ++ Text.of " failed. Try again later.")
    (some (if kind = [] then Text.of "proxy_error" else kind)) none 0

/-- `OpenAIDialect.answer_error`, of a refusal of the pool. -/
def Dialect.refusal (model : Text) (answer : Refusal) : OpenAIError :=
  if answer.status = 429 then .limit model answer.retryAfter
  else if answer.status = 503 ∧ answer.closed then .closed model answer.opensText answer.retryAfter
  else if answer.status = 400 ∧ answer.unsupported then .unsupported model answer.path
  else if answer.status = 503 then .unavailable model answer.retryAfter
  else .make answer.status answer.message (some answer.kind) none 0

end Proxy.Consumer
