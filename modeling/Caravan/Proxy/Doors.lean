import Caravan.Python.Value

/-!
# The doors the routes open

How the proxy reads its routes from the document, which ports it listens on for them, and
whom it lets in at a port: `normalize_route`, `load_enabled_routes`,
`reconcile_listeners`, `live_route_for_port` and `_api_key_ok`. A route without a key is
an open one.

Of a route, the fields are kept that decide who is let in; the others are read for what
may go wrong with them, since a route that cannot be read is no route.
-/

namespace Proxy.Door

open Python

/-- A route as the proxy reads it. -/
structure Route where
  port : ℤ
  kind : Text
  enabled : Bool
  apiKey : Text
  portClosed : Bool
  deriving DecidableEq, Repr

/-- The fields read as texts, besides the kind and the key. -/
def TEXT_FIELDS : List Text :=
  ["upstreamHost", "label", "upstreamType", "providerId", "mode", "modelName",
    "cloudFallbackProviderId", "routerId"]

/-- The fields read as numbers, where nothing is no number. -/
def NUMBER_FIELDS : List Text := ["upstreamPort", "priority", "clientTimeoutSeconds"]

/-- The thresholds, read when they are there. -/
def PCT_FIELDS : List Text := ["cloudFallbackPct", "priorityPreemptPct", "queueAbortPct"]

-- `isdigit` is `str.isdigit` of one character
variable (I : Interp) (isdigit : CodePoint → Bool)

/-- A field that is read as a text. -/
def readText (v : Value) : Except Error Unit := discard (strOf I (v.or ""))

/-- A field that is read as a number. -/
def readNumber (v : Value) : Except Error Unit := discard (intOf I (v.or (.int 0)))

/-- A field that is read when it is there. -/
def readPct : Value → Except Error Unit
  | .null => .ok ()
  | v => discard (intOf I v)

/-- The window of a route, read when it looks like a number. -/
def readContext (v : Value) : Except Error Unit := do
  let t ← strOf I (v.or "")
  let t : Text := t.strip.dropWhile fun c => decide (c = codePoint '-')
  if t ≠ [] ∧ t.all isdigit then discard (intOf I v) else .ok ()

/-- The fields `keys` of a route, each read by `f`. -/
def readEach (f : Value → Except Error Unit) (r : Dict) : List Text → Except Error Unit
  | [] => .ok ()
  | k :: keys => do
    f (Dict.get r k)
    readEach f r keys

/-- The fields that decide nothing about the door. -/
def readOthers (r : Dict) : Except Error Unit := do
  readEach (readText I) r TEXT_FIELDS
  readEach (readNumber I) r NUMBER_FIELDS
  readEach (readPct I) r PCT_FIELDS
  readEach (readContext I isdigit) r ["contextLength"]

/-- `bool(route.get("enabled", True))` -/
def enabledOf (r : Dict) : Bool := ((r.lookup (Text.of "enabled")).getD (.bool true)).truthy

/-- `normalize_route` -/
def normalizeRoute (r : Dict) : Except Error Route := do
  let port ← intOf I (Dict.get r "port")
  let kind ← strOf I ((Dict.get r "kind").or "")
  let kind : Text := kind.strip.map lowerAscii
  -- a pool's own port is no longer served
  if kind = "service" then .error .value
  else do
    readOthers I isdigit r
    let apiKey ← strOf I ((Dict.get r "apiKey").or "")
    return {
      port := port
      kind := kind
      enabled := enabledOf r
      apiKey := apiKey.strip
      portClosed := (Dict.get r "portClosed").truthy }

/-- A raw route that can be read. -/
def readRoute : Value → Option Route
  | .dict r => (normalizeRoute I isdigit r).toOption
  | _ => none

/-- The numbers that `DEFAULT_ROUTES` is made of. -/
structure Seeds where
  base : ℤ
  upstreamHost : Text
  upstreamPort : ℤ

/-- One of `DEFAULT_ROUTES`. -/
def Seeds.route (s : Seeds) (label : Text) (n : ℤ) : Value :=
  .dict [("label", .str label), ("port", .int (s.base + n)),
    ("upstreamHost", .str s.upstreamHost), ("upstreamPort", .int s.upstreamPort),
    ("enabled", .bool true)]

/-- `DEFAULT_ROUTES` -/
def Seeds.routes (s : Seeds) : List Value :=
  [s.route "agent-a" 0, s.route "agent-b" 1, s.route "agent-c" 2, s.route "agent-d" 3]

/-- The routes of the document: the list that it holds or is, or `DEFAULT_ROUTES`. -/
def loadRoutes (defaults : List Value) (doc : Value) : List Value :=
  match doc with
  | .dict d => match Dict.get d "routes" with
    | .list rs => rs
    | _ => defaults
  | .list rs => rs
  | _ => defaults

/-- The loop of `load_enabled_routes`: a port once. -/
def firstOfPort : List Route → List ℤ → List Route
  | [], _ => []
  | r :: rs, seen =>
    if !r.enabled || seen.contains r.port then firstOfPort rs seen
    else r :: firstOfPort rs (r.port :: seen)

/-- `load_enabled_routes` -/
def loadEnabledRoutes (routes : List Value) : List Route :=
  firstOfPort (routes.filterMap (readRoute I isdigit)) []

/-- `live_route_for_port` -/
def liveRouteForPort (routes : List Value) (port : ℤ) : Option Route :=
  (routes.filterMap (readRoute I isdigit)).find? fun r => r.port = port

/-- The ports that `reconcile_listeners` opens a listener on. -/
def listens (routes : List Value) (port : ℤ) : Bool :=
  (loadEnabledRoutes I isdigit routes).any fun r => !r.portClosed && r.port = port

/-- `_api_key_ok`, where a request presents `got`, the empty text for no key. -/
def apiKeyOk (r : Route) (got : Text) : Bool := r.apiKey = [] || (got ≠ [] && got = r.apiKey)

/-- A request on a port of the proxy that gets past the door. -/
def admits (routes : List Value) (port : ℤ) (got : Text) : Bool :=
  listens I isdigit routes port &&
    (liveRouteForPort I isdigit routes port).any fun r => apiKeyOk r got

/-! ### What the door is opened for -/

variable {I isdigit}

/-- A route apart from its key. -/
def Route.bare (r : Route) : Route := { r with apiKey := [] }

theorem firstOfPort_bare (rs : List Route) (seen : List ℤ) :
    (firstOfPort rs seen).map Route.bare = firstOfPort (rs.map Route.bare) seen := by
  induction rs generalizing seen with
  | nil => rfl
  | cons r rs ih =>
    rw [List.map_cons]
    unfold firstOfPort
    show _ = if (!r.enabled || seen.contains r.port) = true then _ else _
    split
    · exact ih seen
    · rw [List.map_cons, ih]
      rfl

/-- **The listeners do not ask for keys.** -/
theorem listens_congr {rs ws : List Value} (port : ℤ)
    (h : (ws.filterMap (readRoute I isdigit)).map Route.bare =
      (rs.filterMap (readRoute I isdigit)).map Route.bare) :
    listens I isdigit ws port = listens I isdigit rs port := by
  have hany (l : List Route) : (l.any fun r => !r.portClosed && decide (r.port = port)) =
      (l.map Route.bare).any fun r => !r.portClosed && decide (r.port = port) := by
    rw [List.any_map]
    rfl
  unfold listens loadEnabledRoutes
  rw [hany (firstOfPort _ _), hany (firstOfPort _ _), firstOfPort_bare, firstOfPort_bare, h]

theorem live_cons (v : Value) (rs : List Value) (port : ℤ) :
    liveRouteForPort I isdigit (v :: rs) port =
      match readRoute I isdigit v with
      | some q => if q.port = port then some q else liveRouteForPort I isdigit rs port
      | none => liveRouteForPort I isdigit rs port := by
  unfold liveRouteForPort
  cases hv : readRoute I isdigit v with
  | none => rw [List.filterMap_cons_none hv]
  | some q =>
    rw [List.filterMap_cons_some hv, List.find?_cons]
    by_cases hp : q.port = port
    · simp only [hp, decide_true, if_true]
    · simp only [hp, decide_false, if_false]

end Proxy.Door
