import Caravan.Framework.Assoc
import Caravan.Proxy.Summarize

/-!
# The state file of the proxy

`state.py` keeps the active items of every port and its last results, and writes all
of it to one file at every change. The file is one JSON document: what a client or an
upstream put into one item is in the text of every later write, whoever makes it.

An `Event` is one call that changes the bookkeeping, with the contents it comes with;
`step` is what the call does, and how it ends.
-/

namespace Proxy

open Python

/-- The fields of a resolved route that the records keep. -/
structure Route where
  label : Text
  port : ℤ
  upstreamHost : Text
  upstreamPort : ℤ
  upstreamType : Text
  upstreamModel : Text
  providerId : Text
  routedOutputId : Text
  routedOutputName : Text
  priority : ℤ
  cloudAccountId : Text
  /-- `cloudPoolId`, `poolStepId`, `cloudModel` and `credentialAccountId`, once a pool
  has served. -/
  pool : Option (Text × Value × Text × Value)
  deadSkipped : List Text
  /-- The queue node's own period, where the route crosses one. -/
  stickySlotSec : Option ℤ

def portText (port : ℤ) : Text := intRepr port

/-- `route_group_key` -/
def routeGroupKey (route : Route) : Text :=
  route.upstreamHost ++ Text.of ":" ++ portText route.upstreamPort ++
    if route.upstreamType = Text.of "machine" then Text.of "/" ++ route.upstreamModel else []

/-- What `proxy` knows of its request. -/
structure Request where
  id : Text
  method : Text
  path : Text
  client : Text
  startedAt : ℤ
  contentType : Text
  body : Body

/-- The item of a request that begins. -/
def activeItem (r : Request) (route : Route) (summary : Dict) : Dict :=
  [("id", .str r.id), ("method", .str r.method), ("path", .str r.path),
    ("client", .str r.client), ("startedAt", .int r.startedAt), ("route", .str route.label),
    ("port", .int route.port), ("upstream", .str (routeGroupKey route)),
    ("upstreamType", .str route.upstreamType), ("providerId", .str route.providerId),
    ("routedOutputId", .str route.routedOutputId),
    ("routedOutputName", .str route.routedOutputName), ("request", .dict summary),
    ("bytes", .int 0), ("chunks", .int 0), ("phase", "queued"),
    ("queue", .dict [("queuedMs", .int 0), ("position", .null)]),
    ("priority", .int route.priority)]

/-- What `update_active` is called with. -/
inductive Patch where
  /-- Out of the queue, with what the wait gave. -/
  | received (queue : Dict)
  | spilled (route : Route)
  | rescued (route : Route)
  /-- A leg of a pool to a cell. -/
  | toCell (route : Route) (poolId stepId : Text)
  /-- A leg of a pool to an account. -/
  | toAccount (poolId accountId stepId : Text)
  | upstream
  /-- The headers of an answer. -/
  | headers (streaming : Bool) (status : ℤ) (contentType server requestId : Text)
  /-- A second of the relay has passed. -/
  | relayed (bytes chunks : ℕ) (firstByteMs : Option ℤ) (stream : Option Stream)
      (elapsedMs : ℤ)

def optInt (n : Option ℤ) : Value := (n.map Value.int).getD .null

def Patch.toDict : Patch → Dict
  | .received queue => [("phase", "received"), ("queue", .dict queue)]
  | .spilled route =>
    [("upstream", .str (routeGroupKey route)), ("upstreamType", .str route.upstreamType),
      ("providerId", .str route.providerId), ("spilledTo", .str route.label)]
  | .rescued route =>
    [("upstream", .str (routeGroupKey route)), ("upstreamType", .str route.upstreamType),
      ("providerId", .str route.providerId), ("rescuedTo", .str route.routedOutputId)]
  | .toCell route poolId stepId =>
    [("upstream", .str (routeGroupKey route)), ("upstreamType", .str route.upstreamType),
      ("providerId", ""), ("routedOutputId", .str route.routedOutputId),
      ("cloudPoolId", .str poolId), ("poolStepId", .str stepId)]
  | .toAccount poolId accountId stepId =>
    [("cloudPoolId", .str poolId), ("cloudAccountId", .str accountId),
      ("poolStepId", .str stepId)]
  | .upstream => [("phase", "upstream")]
  | .headers streaming status contentType server requestId =>
    [("phase", if streaming then "streaming" else "reading"), ("status", .int status),
      ("response", .dict [("contentType", .str contentType),
        ("headers", .dict [("server", .str server), ("xRequestId", .str requestId)])])]
  | .relayed bytes chunks firstByteMs stream elapsedMs =>
    let counts : Dict := [("bytes", .int bytes), ("chunks", .int chunks),
      ("firstByteMs", optInt firstByteMs)]
    let tallies : Dict := (stream.map fun s => (Text.of "stream", Value.dict s.toDict)).toList
    counts ++ tallies ++ [(Text.of "elapsedMs", Value.int elapsedMs)]

/-! ### The end of a request -/

/-- A stream up to its end, or to the first line whose summary fails. -/
def Stream.relay (I : Interp) (s : Stream) : List Line → Stream
  | [] => s
  | line :: lines =>
    match s.hear I line with
    | .ok s' => s'.relay I lines
    | .error _ => { s with events := s.events + 1 }

/-- What an Anthropic stream has said it used, as counts. -/
structure AnthropicUsage where
  inputTokens : ℕ
  cacheCreation : ℕ
  cacheRead : ℕ
  outputTokens : ℕ

def AnthropicUsage.prompt (u : AnthropicUsage) : ℕ := u.inputTokens + u.cacheCreation + u.cacheRead

def AnthropicUsage.known (u : AnthropicUsage) : Bool := 0 < u.prompt || 0 < u.outputTokens

def AnthropicUsage.openai (u : AnthropicUsage) : Dict :=
  let counts : Dict := [("prompt_tokens", .int u.prompt),
    ("completion_tokens", .int u.outputTokens),
    ("total_tokens", .int (u.prompt + u.outputTokens : ℕ))]
  let read : Dict := if u.cacheRead = 0 then []
    else [("prompt_tokens_details", .dict [("cached_tokens", .int u.cacheRead)])]
  let written : Dict := if u.cacheCreation = 0 then []
    else [("cache_creation_input_tokens", .int u.cacheCreation)]
  counts ++ read ++ written

/-- What `proxy` has when it comes to its end. -/
structure Answer where
  status : ℤ
  finishedAt : ℤ
  durationMs : ℤ
  bytes : ℕ
  chunks : ℕ
  firstByteMs : Option ℤ
  queue : Dict
  latency : Dict
  /-- The body of an answer that was read whole. -/
  response : Option Value
  /-- The lines of an answer that was a stream. -/
  lines : List Line
  anthropic : Option AnthropicUsage
  /-- Why the request failed: its own words or the upstream's. -/
  error : Text
  errorKind : Text
  rescued : List Dict
  chain : Text

variable (I : Interp)

def Answer.summary (a : Answer) : Dict := (a.response.map responseSummary).getD []

def Answer.stream (a : Answer) : Stream := Stream.empty.relay I a.lines

/-- The usage an answer tells, `_u` in the source. -/
def Answer.usage (a : Answer) : Dict :=
  let u := match a.summary.get "usage" with
    | .dict u => u
    | _ => (a.stream I).usage
  match a.anthropic with
  | some used => if u.isEmpty && used.known then used.openai else u
  | none => u

/-- The first of the fields that says a number: `int(u.get(a) or u.get(b) or 0)`. -/
def countOf (first second : Value) : Except Error ℤ :=
  intOf I ((first.or second).or (.int 0))

/-- The counts of a usage, as the terminal record has them. -/
def usageOf (u : Dict) : Except Error Dict := do
  let prompt ← countOf I (u.get "prompt_tokens") (u.get "input_tokens")
  let completion ← countOf I (u.get "completion_tokens") (u.get "output_tokens")
  let details := (u.get "prompt_tokens_details").asDict
  let cached ← countOf I (details.get "cached_tokens") (u.get "cache_read_input_tokens")
  let written ← countOf I (u.get "cache_creation_input_tokens") (.int 0)
  let counts : Dict := [("prompt", .int prompt), ("completion", .int completion)]
  let read : Dict := if 0 < cached then [("cacheRead", .int cached)] else []
  let wrote : Dict := if 0 < written then [("cacheWrite", .int written)] else []
  return counts ++ read ++ wrote

/-- The exact timings of an answer, where it tells any. -/
def Answer.timings (a : Answer) : Dict :=
  match a.summary.get "timings" with
  | .dict t => t
  | _ => ((a.stream I).timings).getD []

/-- The fields every terminal record has. -/
def terminal (r : Request) (route : Route) (summary : Dict) (status finishedAt durationMs : ℤ)
    (queue response stream : Dict) (error errorKind : Text) : Dict :=
  [("id", .str r.id), ("method", .str r.method), ("path", .str r.path),
    ("client", .str r.client), ("route", .str route.label), ("port", .int route.port),
    ("upstream", .str (routeGroupKey route)), ("upstreamHost", .str route.upstreamHost),
    ("upstreamPort", .int route.upstreamPort), ("upstreamType", .str route.upstreamType),
    ("status", .int status), ("startedAt", .int r.startedAt), ("finishedAt", .int finishedAt),
    ("durationMs", .int durationMs), ("bytes", .int 0), ("chunks", .int 0),
    ("firstByteMs", .null), ("request", .dict summary), ("queue", .dict queue),
    ("response", .dict response), ("stream", .dict stream), ("error", .str error),
    ("errorKind", .str errorKind)]

/-- What a pool that has served leaves on the route. -/
def Route.poolFields (route : Route) : Dict :=
  match route.pool with
  | some (poolId, stepId, model, credential) =>
    [("cloudPoolId", .str poolId), ("poolStepId", stepId), ("cloudModel", .str model),
      ("credentialAccountId", credential)]
  | none => []

def Route.stickyFields (route : Route) : Dict :=
  match route.stickySlotSec with
  | some sec => [("stickySlotSec", .int sec)]
  | none => []

/-- The finishing step of `proxy`: the record `finish_active` is called with. -/
def finishing (r : Request) (route : Route) (summary : Dict) (a : Answer) :
    Except Error Dict := do
  let stream := a.stream I
  let result := terminal r route summary a.status a.finishedAt a.durationMs a.queue a.summary
    (if stream.events = 0 then [] else stream.toDict) a.error a.errorKind
  let result := result.update [("bytes", .int a.bytes), ("chunks", .int a.chunks),
    ("firstByteMs", optInt a.firstByteMs), ("latency", .dict a.latency),
    ("priority", .int route.priority)]
  let usage ← usageOf I (a.usage I)
  let result := result.set "usage" (.dict usage)
  let timings := a.timings I
  let result := result.setIf (!timings.isEmpty) "timings" (.dict timings)
  let result := result.setIf (!a.rescued.isEmpty) "rescued"
    (.dict [("hops", .int a.rescued.length), ("trail", .list (a.rescued.map .dict))])
  let result := result.setIf (!route.deadSkipped.isEmpty) "skippedDead"
    (.list (route.deadSkipped.map .str))
  let result := result.set "providerId" (.str route.providerId)
  let result := result.set "cloudAccountId" (.str route.cloudAccountId)
  let result := result.update route.poolFields
  let model ← strOf I ((summary.get "model").or "")
  let result := result.set "model" (.str model)
  let result := result.update route.stickyFields
  return result.setIf (!a.chain.isEmpty) "chain" (.str a.chain)

/-! ### The bookkeeping -/

/-- The entry of a port. -/
structure Row where
  /-- `label`, `port`, `upstream` and `upstreamType`, once the port is a live one. -/
  info : Dict
  active : List Dict
  recent : List Dict

def Row.empty : Row := ⟨[], [], []⟩

def Row.toValue (row : Row) : Value :=
  .dict (row.info ++ [(Text.of "active", Value.list (row.active.map .dict)),
    (Text.of "recent", Value.list (row.recent.map .dict))])

/-- `state["agents"]`, and the bytes of the file. -/
structure Book where
  agents : List (Text × Row)
  file : Option Bytes

def Book.empty : Book := ⟨[], none⟩

/-- `state["agents"].setdefault(agent, {"active": [], "recent": []})` -/
def Book.row (b : Book) (agent : Text) : Row := (Assoc.get b.agents agent).getD .empty

def Book.put (b : Book) (agent : Text) (row : Row) : Book :=
  { b with agents := Assoc.put b.agents agent row }

/-- The whole document; `rest` is what the other parts of the proxy put into it. -/
def Book.payload (b : Book) (rest : Dict) : Value :=
  .dict ((Text.of "agents", .dict (b.agents.map fun p => (p.1, p.2.toValue))) :: rest)

/-- `write_state` -/
def writeState (b : Book) (rest : Dict) : Book × Except Error Unit :=
  match dumps I (b.payload rest) with
  | .error e => (b, .error e)
  | .ok text =>
    match encodeUtf8 text with
    | none => (b, .error .unicodeEncode)
    | some bytes => ({ b with file := some bytes }, .ok ())

/-- `item.get("id") == request_id` -/
def hasId (id : Text) (item : Dict) : Bool :=
  match item.get "id" with
  | .str t => t = id
  | _ => false

def addActive (b : Book) (agent : Text) (item : Dict) (rest : Dict) :
    Book × Except Error Unit :=
  let row := b.row agent
  writeState I (b.put agent { row with active := row.active ++ [item] }) rest

/-- The first item of the request, with the patch. -/
def patchFirst (id : Text) (patch : Dict) : List Dict → List Dict
  | [] => []
  | item :: items =>
    if hasId id item then Dict.update item patch :: items else item :: patchFirst id patch items

def updateActive (b : Book) (agent id : Text) (patch : Dict) (rest : Dict) :
    Book × Except Error Unit :=
  let row := b.row agent
  writeState I (b.put agent { row with active := patchFirst id patch row.active }) rest

/-- The results a row keeps. -/
def RECENT : ℕ := 20

def finishActive (b : Book) (agent id : Text) (result : Dict) (rest : Dict) :
    Book × Except Error Unit :=
  let row := b.row agent
  let recent := row.recent ++ [result]
  writeState I (b.put agent { row with
    active := row.active.filter fun item => !hasId id item
    recent := recent.drop (recent.length - RECENT) }) rest

/-- `sync_agents_state`: the ports of the live routes and no others. -/
def syncAgents (b : Book) (routes : List (Text × Dict)) : Book :=
  { b with agents := routes.map fun p => (p.1, { b.row p.1 with info := p.2 }) }

/-! ### Events -/

/-- A call that changes the bookkeeping, with the contents it comes with. -/
inductive Call where
  /-- A request begins. -/
  | receive (r : Request) (route : Route)
  | update (agent id : Text) (patch : Patch)
  /-- A relay goes on: the stream on the item is the one it counts in. -/
  | hear (agent id : Text) (stream : Stream)
  /-- A request is refused, or its client leaves, before any upstream. -/
  | refuse (r : Request) (route : Route) (status finishedAt durationMs queuedMs : ℤ)
      (error errorKind : Text)
  /-- A request comes to its end. -/
  | finish (r : Request) (route : Route) (a : Answer)
  | sync (routes : List (Text × Dict))
  | write

/-- A call, and the rest of the document while it is made. -/
structure Event where
  call : Call
  rest : Dict

/-- A request that is in the books is taken off them with its record. -/
def close (b : Book) (r : Request) (route : Route) (record : Dict → Except Error Dict)
    (rest : Dict) : Book × Except Error Unit :=
  match requestSummary I r.body r.contentType with
  | .error _ => (b, .ok ()) -- it never was in the books
  | .ok summary =>
    match record summary with
    | .error x => (b, .error x)
    | .ok result => finishActive I b (portText route.port) r.id result rest

/-- One call: what it changes, and how it ends. -/
def step (b : Book) (e : Event) : Book × Except Error Unit :=
  match e.call with
  | .receive r route =>
    match requestSummary I r.body r.contentType with
    | .error _ => (b, .ok ()) -- the request ends before it is in the books
    | .ok summary => addActive I b (portText route.port) (activeItem r route summary) e.rest
  | .update agent id patch => updateActive I b agent id patch.toDict e.rest
  | .hear agent id stream =>
    let row := b.row agent
    (b.put agent { row with
      active := patchFirst id [(Text.of "stream", .dict stream.toDict)] row.active }, .ok ())
  | .refuse r route status finishedAt durationMs queuedMs error errorKind =>
    close I b r route (fun summary => .ok (terminal r route summary status finishedAt durationMs
      [("queuedMs", .int queuedMs)] [] [] error errorKind)) e.rest
  | .finish r route a => close I b r route (fun summary => finishing I r route summary a) e.rest
  | .sync routes => writeState I (syncAgents b routes) e.rest
  | .write => writeState I b e.rest

/-- The books after a run, whether its calls returned or not. -/
def run (es : List Event) : Book := es.foldl (fun b e => (step I b e).1) .empty

end Proxy
