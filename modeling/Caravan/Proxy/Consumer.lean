import Caravan.Proxy.OpenAIErrors

/-!
# A consumer's request and its legs

The relay of one request of the entry, answer by answer: a leg goes to the row its pool
chooses (`resolve`), an answer is heard and either asked for again (a cell that is still
loading), left for the next row, or told. A run is driven by its turns, each with the
proxy's clock and what the upstream replied.

An answer of a hidden status, told, is a function of that status (`tell_hidden`). On the way
there it steers the legs by the limit headers of a subscription and by a cell's word that it
is loading, and by nothing else: the rest that its Retry-After puts on an account is on an
account this request no longer asks (`Agree`, `consumer_noninterference`).
-/

namespace Proxy.Consumer

open Python Proxy.Pool

/-! ### Answers -/

abbrev Headers := List (Text × Text)

structure Answer where
  status : ℤ
  headers : Headers
  body : Bytes
  deriving DecidableEq

/-- What `json.loads` comes to. -/
inductive Loaded where
  | value (v : Value)
  /-- A `ValueError`. -/
  | broken
  /-- A `RecursionError`. -/
  | deep

/-- The library functions that an answer is read with. -/
structure Reader where
  interp : Interp
  /-- `bytes.decode("utf-8", errors="replace")` -/
  decode : Bytes → Text
  loads : Text → Loaded
  /-- `int(float(s))` -/
  intOfFloat : Text → Except Error ℤ

/-- A header's value, whatever the case of its name. -/
def header (headers : Headers) (name : String) : Option Text :=
  (headers.reverse.map fun p => (p.1.map lowerAscii, p.2)).lookup (Text.of name)

section Reading

variable (R : Reader)

/-- `int(s)`, where it is one. -/
def int? (t : Text) : Option ℤ := (intOfText R.interp t).toOption

/-- One slot of `windows_from_headers`: a share that is no number leaves it out, one that is
no finite number raises. -/
def windowOf (headers : Headers) (slot : String) : Except Error (Option Window) :=
  let of name := header headers ("x-codex-" ++ slot ++ name)
  match (of "-window-minutes").bind (int? R), of "-used-percent" with
  | some minutes, some share =>
    match R.intOfFloat share with
    | .ok used =>
      let resetAt := ((of "-reset-at").bind (int? R)).filter (· ≠ 0)
      .ok (if minutes ≤ 0 then none else some ⟨minutes * 60, used, resetAt⟩)
    | .error .overflow => .error .overflow
    | .error _ => .ok none
  | _, _ => .ok none

/-- `SubscriptionUsage.windows_from_headers` -/
def windowsFromHeaders (headers : Headers) : Except Error (List Window) := do
  let primary ← windowOf R headers "primary"
  let secondary ← windowOf R headers "secondary"
  return primary.toList ++ secondary.toList

/-- The part of an error's body that is read, as text. -/
def errorBody (a : Answer) : Text := if 400 ≤ a.status then R.decode (a.body.take 4096) else []

/-- A text's words. -/
def words : Text → List Text
  | [] => []
  | c :: cs =>
    if isSpace c then words cs
    else
      match cs with
      | [] => [[c]]
      | d :: _ =>
        if isSpace d then [c] :: words cs
        else
          match words cs with
          | [] => [[c]]
          | w :: ws => (c :: w) :: ws

/-- `str(v or "").strip()` -/
def stripped (v : Value) : Except Error Text := Text.strip <$> strOf R.interp (v.or "")

/-- What a JSON error says: its reason and its kind. -/
def failureOf (data : Dict) : Except Error (Text × Text) := do
  let (reason, kind) ← match Dict.get data "error" with
    | .dict err => do
      let reason ← stripped R (Dict.get err "message")
      let kind ← stripped R ((Dict.get err "code").or (Dict.get err "type"))
      pure (reason, kind)
    | .str t => pure (t.strip, [])
    | _ => pure ([], [])
  let reason ← if reason ≠ [] then pure reason
    else stripped R ((Dict.get data "detail").or (Dict.get data "message"))
  let kind ← if kind ≠ [] then pure kind else stripped R (Dict.get data "code")
  return (reason, kind)

/-- `_upstream_failure_summary`: what the provider says, or its raw text. -/
def failureSummary (status : ℤ) (body : Text) : Except Error (Text × Text) := do
  let text := body.strip
  let json := (Text.of "\x7b").isPrefixOf text || (Text.of "[").isPrefixOf text
  let (reason, kind) ← match json, R.loads text with
    | true, .value (.dict data) => failureOf R data
    | _, _ => pure ([], [])
  return (if reason ≠ [] then reason else ((Text.of " ").intercalate (words text)).take 300,
    (if kind ≠ [] then kind else Text.of "http_" ++ intRepr status).take 60)

/-- `_upstream_error_code`: nesting that is too deep is no `ValueError`. -/
def errorCode (body : Text) : Except Error Value :=
  match R.loads body.strip with
  | .value (.dict data) =>
    match Dict.get data "error" with
    | .dict err => .ok (Dict.get err "code")
    | _ => .ok .null
  | .value _ => .ok .null
  | .broken => .ok .null
  | .deep => .error .recursion

end Reading

/-! ### What is sent -/

/-- What the consumer receives. -/
inductive Sent (target : Type) where
  /-- A whole reply: its length and the rest of its headers follow from these. -/
  | reply (status : ℤ) (headers : Headers) (payload : Value)
  /-- An error event and the end of the stream that is open. -/
  | event (payload : Value)
  /-- The answer itself, relayed or translated as its leg's kind has it. -/
  | relayed (leg : Leg target) (opened : Bool) (answer : Answer)

/-- What was sent is an answer of the upstream, relayed or translated. -/
def Sent.isRelayed {target : Type} : Sent target → Bool
  | .relayed _ _ _ => true
  | _ => false

/-- A request of a consumer. -/
structure Request where
  requestId : Text
  /-- The pool its model names. -/
  pool : CloudPool
  levels : ModelLevels
  body : Option Value
  path : Text
  streaming : Bool

namespace Request

def source (q : Request) : Source := ⟨q.pool.id, some q.pool, q.levels⟩

/-- An error, told in the stream that is open or as a reply. -/
def tellError {target : Type} (q : Request) (opened : Bool) (e : OpenAIError) : Sent target :=
  if opened then .event e.payload
  else .reply e.status (e.headers ++ [(Text.of "X-Request-Id", q.requestId)]) e.payload

/-- A failure of the caravan's own: in an open stream, whatever its status is, as a 502. -/
def tellFailure {target : Type} (q : Request) (opened : Bool) (status : ℤ) (kind : Text) :
    Sent target :=
  q.tellError opened (Dialect.error q.pool.name (if opened then 502 else status) kind)

end Request

/-! ### The legs -/

/-- What a leg comes to. -/
inductive Reply where
  | answer (a : Answer)
  /-- No connection, or one that broke; with its kind. -/
  | broken (kind : Text)
  /-- The cell's queue gave up on the request. -/
  | gaveUp (kind : Text)

/-- One turn of the loop. -/
structure Event where
  /-- The clock when the row is chosen. -/
  began : ℚ
  /-- The clock when the reply is there. -/
  ended : ℚ
  /-- The wait for a model to load is not over. -/
  waits : Bool
  reply : Reply

/-- What the loop carries. -/
structure Going where
  pool : State
  attempted : List Text
  legs : ℕ
  opened : Bool

/-- What a turn does. -/
inductive Turn (target : Type) where
  | done (sent : Sent target)
  | again (g : Going)
  | next (g : Going)
  /-- A cell's queue gives up on no other leg. -/
  | stuck

section Legs

variable {target : Type} (R : Reader) (E : Env target) (q : Request)

/-- An answer that ends the request. -/
def tell (leg : Leg target) (opened : Bool) (a : Answer) : Sent target :=
  if a.status < 400 then .relayed leg opened a
  else
    let code := match leg with
      | .cell _ => errorCode R (errorBody R a)
      | .account _ _ => .ok .null
    match failureSummary R a.status (errorBody R a), code with
    | .ok (reason, _), .ok code =>
      q.tellError opened (.upstream a.status q.pool.name reason code)
    | _, _ => q.tellFailure opened a.status "proxy_error"

/-- The id of a row that this request tried. -/
def rowMark (stepId : Text) : Text := Text.of "row:" ++ stepId

/-- A row that failed before its first byte: the next one, while there is one. -/
def leave (now : ℚ) (stepId : Text) (g : Going) (last : Going → Sent target) : Turn target :=
  if g.legs < 16 then
    let (s, more) := canGoOn E now q.source (rowMark stepId :: g.attempted) q.body q.path g.pool
    if more then .next ⟨s, rowMark stepId :: g.attempted, g.legs + 1, g.opened⟩
    else .done (last { g with pool := s })
  else .done (last g)

/-- A cell's answer that asks for the request again. -/
def isLoading (a : Answer) : Bool :=
  a.status = 503 && (a.body.take 4096).tails.any
    ((encodeUtf8 (Text.of "Loading model")).getD []).isPrefixOf

/-- What the proxy does with an answer. -/
def hear (e : Event) (stepId : Text) (leg : Leg target) (g : Going) (a : Answer) : Turn target :=
  match leg with
  | .cell _ =>
    if isLoading a && e.waits then .again g
    else if 500 ≤ a.status then leave E q e.ended stepId g fun g => tell R q leg g.opened a
    else .done (tell R q leg g.opened a)
  | .account provider _ =>
    -- every answer states the account's windows, a refusal too
    let noted := if provider.isSubscription then
      (windowsFromHeaders R a.headers).map fun windows =>
        g.pool.keep provider.owner windows e.ended
      else .ok g.pool
    match noted with
    | .error _ => .done (q.tellFailure g.opened a.status "proxy_error")
    | .ok s =>
      let (s, refused) := failed R.interp e.ended provider a.status.toNat
        (header a.headers "retry-after") s
      let g := { g with pool := s }
      if refused then .next { g with attempted := provider.owner :: g.attempted }
      else if 500 ≤ a.status then leave E q e.ended stepId g fun g => tell R q leg g.opened a
      else .done (tell R q leg g.opened a)

/-- One turn on a leg. -/
def turn (e : Event) (stepId : Text) (leg : Leg target) (g : Going) : Turn target :=
  match e.reply with
  | .answer a => hear R E q e stepId leg g a
  | .broken kind => leave E q e.ended stepId g fun g => q.tellFailure g.opened 502 kind
  | .gaveUp kind =>
    match leg with
    | .account _ _ => .stuck
    | .cell _ =>
      let attempted := rowMark stepId :: g.attempted
      let (s, more) := canGoOn E e.ended q.source attempted q.body q.path g.pool
      if more then .next { g with pool := s, attempted := attempted }
      else .done (q.tellFailure g.opened 503 kind)

/-- A leg is chosen; a cell's opens the stream of a request that asks for one. -/
def start (e : Event) (g : Going) : Sent target ⊕ (Text × Leg target × Going) :=
  match resolve E e.began q.source q.body g.attempted q.path g.pool with
  | (_, .refused refusal) => .inl (q.tellError g.opened (Dialect.refusal q.pool.name refusal))
  | (s, .served _ stepId leg) =>
    let opens := match leg with
      | .cell _ => q.streaming
      | .account _ _ => false
    .inr (stepId, leg, { g with pool := s, opened := g.opened || opens })
  | (_, .passes) => .inl (q.tellFailure g.opened 502 "proxy_error")
  | (_, .raised) => .inl (q.tellFailure g.opened 502 "proxy_error")

/-- The loop: what the consumer receives, if the turns come to an end. -/
def serve : List Event → Option (Text × Leg target) → Going → Option (Sent target)
  | [], _, _ => none
  | e :: rest, some (stepId, leg), g =>
    match turn R E q e stepId leg g with
    | .done sent => some sent
    | .again g => serve rest (some (stepId, leg)) g
    | .next g => serve rest none g
    | .stuck => none
  | e :: rest, none, g =>
    match start E q e g with
    | .inl sent => some sent
    | .inr (stepId, leg, g) =>
      match turn R E q e stepId leg g with
      | .done sent => some sent
      | .again g => serve rest (some (stepId, leg)) g
      | .next g => serve rest none g
      | .stuck => none

/-- The bytes a request gets, from the pool's state. -/
def received (es : List Event) (s : State) : Option (Sent target) :=
  serve R E q es none ⟨s, [], 0, false⟩

end Legs

end Proxy.Consumer
