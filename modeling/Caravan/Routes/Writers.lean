import Caravan.Framework.Rewrites
import Caravan.Routes.Document

/-!
# The writers of the proxy's document

What each request does with `agent-proxies.json`, from its first read to its answer
(`Request.proc`). The controller's writes go through `write_agent_proxy_payload`, which reads
the file once more, for the graph that it may have to put back. `_write_routes` and
`set_routers` hold the lock of the revisions, the proxy's stop request holds a lock of its own
process, the others hold none.
-/

namespace Routes

open Python Ports Rewrite

variable {Rt : Type} (x : Outside Rt)

/-! ### The write -/

/-- `str(route.get("upstreamType") or "llama").strip().lower() == "cloud"` -/
def Route.isCloud (r : Route) : Bool :=
  x.lower (Cloud.orElse r.upstreamType "llama").strip = "cloud"

/-- The provider of each group's first cloud route. -/
def groupCloud (routes : List Route) (label : Text) : Text :=
  ((routes.find? fun r => r.kind ≠ CONSUMER ∧ r.isCloud x ∧ r.providerId.strip ≠ [] ∧
    x.groupKey r.label = x.groupKey label).map fun r => r.providerId.strip).getD []

/-- `recompute_cloud_fallback_eligibility` -/
def recomputeEligibility (routes : List Route) : List Route :=
  routes.map fun r =>
    if r.kind = CONSUMER then r
    else
      let pid := groupCloud x routes r.label
      let eligible : Bool := pid ≠ [] ∧ ¬ r.isCloud x
      { r with
        cloudFallbackEligible := eligible
        cloudFallbackProviderId := if ¬ eligible then []
          else if r.cloudFallbackProviderId.strip ≠ [] then pid else r.cloudFallbackProviderId }

/-- What `write_agent_proxy_payload` makes of a payload before it is written. -/
def prepared (p : Payload Rt) : Payload Rt :=
  let routes := p.routes.map (recomputeEligibility x)
  if p.routers.isSome ∨ routes.getD [] ≠ [] then
    let n := normalizeRouters x p.routers routes
    { p with routes := n.2, routers := some n.1 }
  else { p with routes }

/-- `protect_graph`, by what it reads of the file. -/
def protectGraph (p : Payload Rt) (old : Option (Payload Rt)) : Payload Rt :=
  let was := (old.bind Payload.routers).getD []
  if ¬ was.any x.hasNodes ∨ (p.routers.getD []).any x.hasNodes then p
  else { p with routers := p.routers.map fun routers => routers.map fun r =>
    match was.reverse.find? fun o => x.routerId o = x.routerId r with
    | some o => x.withGraphOf r o
    | none => r }

/-- What ends a request: a refusal, or a write that failed. -/
inductive Raised
  | refused (e : AppError)
  | unsaved
  deriving DecidableEq

inductive Lock
  /-- `config_lock`, of the proxy's process. -/
  | config
  /-- `ProxyRevisions.LOCK`, of the controller's. -/
  | revisions
  deriving DecidableEq

abbrev Answer := Except Raised Unit

abbrev Writes (Rt : Type) := Proc Lock (Payload Rt) Answer

/-- The end of a request, whether its write landed or not. -/
def answered (landed : Bool) : Tail Lock Answer :=
  .done (if landed then .ok () else .error .unsaved)

/-- `write_agent_proxy_payload` -/
def writePayload (p : Payload Rt) (k : Bool → Tail Lock Answer) : Writes Rt :=
  .read fun old => .write (protectGraph x (prepared x p) old) k

/-- An operation on what `load_agent_proxy_config` reads, up to its write. -/
def rewrites (op : Config Rt → Except AppError (Payload Rt))
    (k : Tail Lock Answer → Tail Lock Answer) : Writes Rt :=
  .read fun reading => match op (load x reading) with
    | .ok p => writePayload x p fun landed => k (answered landed)
    | .error e => .stop (k (.done (.error (.refused e))))

/-- What is written of a configuration. -/
def Config.payload (c : Config Rt) : Payload Rt :=
  ⟨some c.routes, some c.policy, some c.routers, some c.stopRequests, c.entry⟩

/-! ### Keys -/

def Route.key (r : Route) : Text := (r.apiKey.getD []).strip

/-- `KeyEntry.shared_keys` -/
def sharedKeys (routes : List Route) : List (Text × List ℤ) :=
  let keys := routes.foldl (fun keys r =>
    if r.key = [] ∨ r.key ∈ keys then keys else keys ++ [r.key]) []
  (keys.map fun k => (k, ((routes.filter fun r => r.key = k).map Route.port).insertionSort
    (· ≤ ·))).filter fun y => 1 < y.2.length

/-- `KeyAudit.problems` -/
def keyProblems (routes : List Route) : List Text :=
  (sharedKeys routes).map (fun y => "ports " ++ x.shown y.2 ++ " share one key (…" ++
    y.1.drop (y.1.length - 4) ++
    ") — the entry could not tell their agents apart; give each its own") ++
  (routes.filter fun r => r.portClosed = some true ∧ r.key = []).map fun r =>
    "port " ++ x.shown [r.port] ++
      " is closed and has no key — its agent would have no way in; give it a key first"

/-- `KeyAudit.enforce` -/
def enforceKeys (routes : List Route) : Except AppError Unit :=
  let found := keyProblems x routes
  refuseIf (found ≠ []) ⟨(List.intersperse ("; " : Text) found).flatten, 400⟩

/-! ### The policies -/

/-- `set_agent_proxy_policy` -/
def setPolicy (patch : Policy) (c : Config Rt) : Except AppError (Payload Rt) :=
  .ok { c.payload with policy := some (normalizePolicy (c.policy.update patch)) }

/-- What a page sends of one route's policy. -/
structure RoutePatch where
  label : Option Text := none
  mode : Option Text := none
  priority : Option ℤ := none
  preemptible : Option Bool := none
  portClosed : Option Bool := none
  upstreamType : Option Text := none
  providerId : Option Text := none
  cloudFallbackProviderId : Option Text := none
  routerId : Option Text := none
  cloudFallbackPct : Option (Option ℤ) := none
  priorityPreemptPct : Option (Option ℤ) := none
  queueAbortPct : Option (Option ℤ) := none
  deriving DecidableEq, Repr

/-- `ConsumerDesk.clean_name` -/
def cleanName (raw : Text) (routes : List Route) (ownPort : ℤ) : Except AppError Text := do
  let name := raw.strip.take 80
  refuseIf (name = [])
    ⟨"name is required: the consumer's name, as the board and the journal show it", 400⟩
  refuseIf (∃ r ∈ routes, r.kind = CONSUMER ∧ r.port ≠ ownPort ∧
      x.casefold r.label.strip = x.casefold (Text.strip name))
    ⟨"a consumer named " ++ name ++ " exists — give this one another name", 409⟩
  return name

/-- The label that a patch gives a route. -/
def patchLabel (patch : RoutePatch) (c : Config Rt) (r : Route) : Except AppError Text :=
  match patch.label with
  | none => .ok r.label
  | some label =>
    let label := label.strip.take 80
    if label = [] then .ok r.label
    else if r.kind = CONSUMER then cleanName x label c.routes r.port
    else .ok label

/-- The upstream that a patch gives a route: its type and its provider. -/
def patchUpstream (patch : RoutePatch) (r : Route) : Except AppError (Text × Text) :=
  match patch.upstreamType with
  | some type => do
    let type := x.lower (Cloud.orElse type "llama").strip
    refuseIf (type ≠ "llama" ∧ type ≠ "cloud") ⟨"upstreamType must be llama or cloud", 400⟩
    let pid := (patch.providerId.getD []).strip
    refuseIf (type = "cloud" ∧ pid = []) ⟨"providerId required for cloud upstream", 400⟩
    return (type, if type = "cloud" then pid else [])
  | none => .ok (r.upstreamType, (patch.providerId.map Text.strip).getD r.providerId)

/-- The router that a patch binds a route to. -/
def patchRouter (patch : RoutePatch) (c : Config Rt) (r : Route) : Except AppError (Option Text) :=
  match patch.routerId with
  | none => .ok r.routerId
  | some id => do
    refuseIf (r.kind = CONSUMER) ⟨"a client of the entry goes to its set of models, not to a " ++
      "router: cable it to a set in Routing", 400⟩
    refuseIf (id.strip ≠ [] ∧ id.strip ∉ c.routers.map x.routerId) ⟨"unknown router", 400⟩
    return some id.strip

/-- A threshold that a patch sets, or takes away. -/
def patchPct (patch stored : Option (Option ℤ)) : Option (Option ℤ) :=
  match patch with
  | none => stored
  | some none => none
  | some (some n) => some (some (clamp 0 100 n))

/-- The body of the loop of `set_agent_proxy_route_policy`. -/
def patchRoute (patch : RoutePatch) (c : Config Rt) (r : Route) : Except AppError Route := do
  let label ← patchLabel x patch c r
  let mode := (patch.mode.map fun m => x.lower (Cloud.orElse m "open").strip).getD r.mode
  refuseIf (patch.mode.isSome ∧ mode ≠ "open" ∧ mode ≠ "paused" ∧ mode ≠ "drain")
    ⟨"mode must be open, paused, or drain", 400⟩
  refuseIf (patch.portClosed = some true ∧ c.entry = none)
    ⟨"the entry is off — open it before closing a port, or the agent has no way in", 409⟩
  let upstream ← patchUpstream x patch r
  let routerId ← patchRouter x patch c r
  return { r with
    label, mode, routerId
    priority := (patch.priority.map (clamp 0 100)).getD r.priority
    preemptible := patch.preemptible.getD r.preemptible
    portClosed := match patch.portClosed with
      | none => r.portClosed
      | some closed => if closed then some true else none
    upstreamType := upstream.1
    providerId := upstream.2
    cloudFallbackProviderId :=
      (patch.cloudFallbackProviderId.map Text.strip).getD r.cloudFallbackProviderId
    cloudFallbackPct := patchPct patch.cloudFallbackPct r.cloudFallbackPct
    priorityPreemptPct := patchPct patch.priorityPreemptPct r.priorityPreemptPct
    queueAbortPct := patchPct patch.queueAbortPct r.queueAbortPct }

/-- `set_agent_proxy_route_policy` -/
def setRoutePolicy (port : ℤ) (patch : RoutePatch) (c : Config Rt) :
    Except AppError (Payload Rt) := do
  let routes ← c.routes.mapM fun r => if r.port = port then patchRoute x patch c r else .ok r
  refuseIf (port ∉ c.routes.map Route.port) ⟨"proxy route not found", 404⟩
  enforceKeys x routes
  return { c.payload with routes := some routes }

/-- `RouteKeys.issue`, with the key that it makes. -/
def issueKey (port : ℤ) (key : Text) (c : Config Rt) : Except AppError (Payload Rt) :=
  match c.routes.find? fun r => r.port = port with
  | none => .error ⟨"proxy route not found", 404⟩
  | some route => do
    refuseIf (route.kind = CONSUMER)
      ⟨"a consumer of the entry has its key — replace it on its card", 409⟩
    refuseIf (route.key ≠ []) ⟨"port " ++ x.shown [port] ++ " already has a key", 409⟩
    refuseIf (c.entry = none) ⟨"the entry is off — open it before giving a key: the consumer's " ++
      "only way in is the entry", 409⟩
    let routes := c.routes.map fun r =>
      if r.port = port then { r with apiKey := some key, portClosed := some true } else r
    enforceKeys x routes
    return { c.payload with routes := some routes }

/-! ### The lists -/

/-- `PolicyOwnedFields.kept` -/
def keptFields (stored : List Route) (r : Route) : Route :=
  match stored.find? fun s => s.port = r.port with
  | none => r
  | some s => { r with
    portClosed := r.portClosed.or s.portClosed
    cloudFallbackPct := r.cloudFallbackPct.or s.cloudFallbackPct
    priorityPreemptPct := r.priorityPreemptPct.or s.priorityPreemptPct
    queueAbortPct := r.queueAbortPct.or s.queueAbortPct
    apiKey := r.apiKey.or s.apiKey
    set := r.set.or s.set
    pool := r.pool.or s.pool }

/-- The loop of `_write_routes`. -/
def cleanRoutes (stored : List Route) : List Route → List Route → Except AppError (List Route)
  | cleaned, [] => .ok cleaned
  | cleaned, r :: rest => do
    let row ← normalizeRoute x (keptFields stored r)
    refuseIf (row.port ∈ cleaned.map Route.port)
      ⟨"duplicate proxy port " ++ x.shown [row.port], 400⟩
    cleanRoutes stored (cleaned ++ [row]) rest

/-- `_write_routes` -/
def writeRoutes (routes : List Route) (routers : Option (List Rt)) (c : Config Rt) :
    Except AppError (Payload Rt) := do
  let cleaned ← cleanRoutes x c.routes [] routes
  let outside := ((cleaned.map Route.port).filter fun p =>
    p ∉ c.routes.map Route.port ∧ ¬ x.proxyHolds p).insertionSort (· ≤ ·)
  refuseIf (outside ≠ []) ⟨"port " ++ x.shown outside ++ " is outside the proxy range " ++
    x.proxyRange ++ ", the one the firewall lets in — pick a port inside it", 400⟩
  enforceKeys x cleaned
  let n := normalizeRouters x (some (routers.getD c.routers)) (some cleaned)
  return { c.payload with routes := n.2, routers := some n.1 }

/-- `set_routers` -/
def setRouters (routers : List Rt) (c : Config Rt) : Except AppError (Payload Rt) :=
  let n := normalizeRouters x (some routers) (some c.routes)
  .ok { c.payload with routes := n.2, routers := some n.1 }

/-- `ProxyRevisions.check`, and what follows it under its lock. -/
def checked (digest : Option (Payload Rt) → Text) (name revision : Text) (k : Writes Rt) :
    Writes Rt :=
  if revision = [] then k
  else .read fun reading =>
    if revision ≠ digest reading then
      .stop (.unlock .revisions (.done (.error (.refused ⟨"the " ++ name ++
        " changed since this page read them: nothing was saved — the page makes its change " ++
        "again on the current version", 409⟩))))
    else k

/-- `read_agent_proxy_payload`, where it reads nothing. -/
def blankPayload : Payload Rt :=
  { routes := some [], policy := some (normalizePolicy {}), routers := some [],
    stopRequests := some [] }

/-! ### The requests -/

/-- A request to one of the two processes. -/
inductive Request (Rt : Type)
  /-- `append_stop_request`, of the proxy. -/
  | stopRequest (id route reason : Text) (requestedAt : ℕ)
  | setPolicy (patch : Policy)
  | setRoutePolicy (port : ℤ) (patch : RoutePatch)
  | issueKey (port : ℤ) (key : Text)
  /-- `save_agent_proxy_config` -/
  | saveRoutes (routes : List Route) (routers : Option (List Rt)) (revision : Text)
  | setRouters (routers : List Rt) (revision : Text)
  /-- A read of the board, with what `sync_router_outputs` makes of the routers, if anything. -/
  | readBoard (synced : List Rt → Option (List Rt))

/-- `append_stop_request`: the document that it writes. -/
def withStop (id route reason : Text) (requestedAt : ℕ) (reading : Option (Payload Rt)) :
    Payload Rt :=
  let payload := loadConfig x reading
  let stops := (payload.stopRequests.getD []).filter fun r => r.id ≠ id
  { payload with stopRequests := some (lastStops (stops ++ [{ id, route, reason, requestedAt }])) }

/-- What a request does. -/
def Request.proc : Request Rt → Writes Rt
  | .stopRequest id route reason requestedAt =>
    if id = [] then .stop (.done (.ok ()))
    else .lock .config (.read fun reading =>
      .write (withStop x id route reason requestedAt reading) fun landed =>
        .unlock .config (answered landed))
  | .setPolicy patch => rewrites x (Routes.setPolicy patch) id
  | .setRoutePolicy port patch => rewrites x (Routes.setRoutePolicy x port patch) id
  | .issueKey port key => rewrites x (Routes.issueKey x port key) id
  | .saveRoutes routes routers revision => .lock .revisions
    (checked (fun p => x.digestRoutes ((p.getD blankPayload).routes)) "routes" revision
      (rewrites x (writeRoutes x routes routers) (.unlock .revisions)))
  | .setRouters routers revision => .lock .revisions
    (checked (fun p => x.digestRouters ((p.getD blankPayload).routers)) "routers" revision
      (rewrites x (Routes.setRouters x routers) (.unlock .revisions)))
  | .readBoard synced => .read fun reading => match synced (load x reading).routers with
    | none => .stop (.done (.ok ()))
    | some routers => .read fun fresh =>
      writePayload x { fresh.getD blankPayload with routers := some routers }
        fun _ => .done (.ok ())

end Routes
