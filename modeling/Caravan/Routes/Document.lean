import Caravan.Cloud.Desks

/-!
# The proxy's document

`agent-proxies.json` as both processes read it: the routes, the policy, the routers, the stop
requests and the entry. `load_agent_proxy_config` is the controller's reading, with its
normalizers; `load_config` is the proxy's, which keeps the routes as they are and falls back to
routes of its own where it can read none.

The routers play a part here only as far as they refer to routes; what else is normalized in
one of them is a parameter (`Outside.normalizeRouter`). So are the comparison of letters and
the patterns of labels and addresses.
-/

namespace Routes

open Python Ports

/-! ### What the file keeps -/

/-- The kind of a consumer's route. -/
def CONSUMER : Text := "consumer"

/-- `models` of a consumer of the old form. -/
inductive Models where
  | all
  | listed (ids : List Text)
  | other
  deriving DecidableEq, Repr

/-- A route, as the file has it or a page sends it: `none` where a field is left out and that
is told from a blank one. A threshold that is there may be null. -/
structure Route where
  label : Text := []
  port : ℤ
  kind : Text := []
  set : Option Text := none
  pool : Option Text := none
  models : Option Models := none
  upstreamHost : Text := []
  upstreamPort : ℤ := 0
  upstreamType : Text := []
  providerId : Text := []
  enabled : Bool := true
  mode : Text := []
  apiKey : Option Text := none
  portClosed : Option Bool := none
  priority : ℤ := 0
  preemptible : Bool := true
  clientTimeoutSeconds : ℤ := 0
  contextLength : ℤ := 0
  contextAuto : Bool := false
  modelName : Text := []
  modelNameAuto : Bool := false
  cloudFallbackProviderId : Text := []
  cloudFallbackEligible : Bool := false
  cloudFallbackPct : Option (Option ℤ) := none
  priorityPreemptPct : Option (Option ℤ) := none
  queueAbortPct : Option (Option ℤ) := none
  routerId : Option Text := none
  role : Text := []
  clientId : Text := []
  deriving DecidableEq, Repr

structure Policy where
  maxSlots : Option ℤ := none
  priorityPreemptPct : Option ℤ := none
  queueAbortPct : Option ℤ := none
  preemptGraceSec : Option ℤ := none
  preemptEnabled : Option Bool := none
  cloudFallbackPct : Option ℤ := none
  stickySlotSec : Option ℤ := none
  loadingModelWaitSec : Option ℤ := none
  deriving DecidableEq, Repr

/-- A row of `stopRequests`. -/
structure StopRow where
  id : Text
  route : Text
  reason : Text
  requestedAt : ℕ
  scope : Text := []
  deriving DecidableEq, Repr

structure Entry where
  port : ℤ
  publicUrl : Text
  deriving DecidableEq, Repr

/-- The document: `none` where a field is missing or of another shape. -/
structure Payload (Rt : Type) where
  routes : Option (List Route) := none
  policy : Option Policy := none
  routers : Option (List Rt) := none
  stopRequests : Option (List StopRow) := none
  entry : Option Entry := none
  deriving DecidableEq

/-- What the processes have besides the document. -/
structure Outside (Rt : Type) where
  /-- `str.lower` -/
  lower : Text → Text
  lower_nil : lower [] = []
  lower_consumer : lower CONSUMER = CONSUMER
  /-- `str.casefold` -/
  casefold : Text → Text
  /-- `_role_from_label` -/
  roleFromLabel : Text → Text
  /-- `_proxy_group_key` -/
  groupKey : Text → Text
  /-- `KeyEntry.URL_RE` -/
  urlOk : Text → Bool
  /-- `PROXY_PORTS.holds` -/
  proxyHolds : ℤ → Bool
  /-- `PROXY_PORTS` in a message. -/
  proxyRange : Text
  /-- A list of numbers in a message. -/
  shown : List ℤ → Text
  /-- `ProxyRevisions.digest` -/
  digestRoutes : Option (List Route) → Text
  digestRouters : Option (List Rt) → Text
  /-- `DEFAULT_ROUTES` of the proxy. -/
  defaultRoutes : List Route
  /-- `DEFAULT_POLICY` of the proxy. -/
  defaultPolicy : Policy
  /-- `normalize_router` -/
  normalizeRouter : Rt → Rt
  /-- `PortInputs.forget_absent`, by the ports there are. -/
  forgetAbsent : List ℤ → Rt → Rt
  /-- `router["id"]`, once normalized. -/
  routerId : Rt → Text
  /-- `{"id": DEFAULT_ROUTER_ID, "name": "Default"}` -/
  blankRouter : Rt
  /-- `router["inputs"]`, from the ports of its routes. -/
  withInputs : List ℤ → Rt → Rt
  /-- Whether a router's graph has nodes. -/
  hasNodes : Rt → Bool
  /-- A router with the graph of another one. -/
  withGraphOf : Rt → Rt → Rt

variable {Rt : Type} (x : Outside Rt)

/-! ### A route -/

def DEFAULT_ROUTER_ID : Text := "router:default"

def clamp (lo hi n : ℤ) : ℤ := max lo (min hi n)

/-- `normalize_agent_proxy_route`: a threshold, if there is one. -/
def normalizePct (pct : Option (Option ℤ)) : Option (Option ℤ) :=
  pct.bind fun v => v.map fun n => some (clamp 0 100 n)

/-- `ModelAccess.clean` -/
def cleanModels : Option Models → Models
  | some .all => .all
  | some (.listed ids) =>
    .listed ((ids.foldl (fun kept i =>
      let i := Cloud.cleanId i
      if i = [] ∨ i ∈ kept then kept else kept ++ [i]) []).take 64)
  | _ => .listed []

/-- What `ConsumerSet.fields` keeps of a consumer: its set, its pool, or its models. -/
def Route.consumerFields (r : Route) : Option Text × Option Text × Option Models :=
  match r.set, r.pool with
  | some set, _ => (some (Cloud.cleanId set), none, none)
  | none, some pool => (none, some (Cloud.cleanId pool), none)
  | none, none => (none, none, some (cleanModels r.models))

/-- `^[A-Za-z0-9_.:-]+$` -/
def hostOk (host : Text) : Bool := host ≠ [] && host.all (Cloud.wordChar ['_', '.', ':', '-'])

/-- `normalize_agent_proxy_route` -/
def normalizeRoute (r : Route) : Except AppError Route := do
  let label := r.label.strip.take 80
  let host := (Cloud.orElse r.upstreamHost "127.0.0.1").strip
  let upstreamPort := if r.upstreamPort = 0 then 8080 else r.upstreamPort
  refuseIf (label = []) ⟨"label is required", 400⟩
  refuseIf (r.port < 1024 ∨ 65535 < r.port) ⟨"proxy port must be 1024..65535", 400⟩
  refuseIf (upstreamPort < 1 ∨ 65535 < upstreamPort) ⟨"upstream port must be 1..65535", 400⟩
  refuseIf (¬ hostOk host) ⟨"upstream host contains unsupported characters", 400⟩
  let type := x.lower (Cloud.orElse r.upstreamType "llama").strip
  let kind := x.lower r.kind.strip
  refuseIf (kind = "service")
    ⟨"a pool's own port is gone: a client comes in through the entry with its own key", 400⟩
  let consumer : Bool := kind = CONSUMER
  let fields := if consumer then r.consumerFields else (none, none, none)
  return { r with
    label, upstreamHost := host, upstreamPort
    kind := if consumer then kind else []
    set := fields.1, pool := fields.2.1, models := fields.2.2
    upstreamType := if type = "llama" ∨ type = "cloud" then type else "llama"
    providerId := r.providerId.strip
    mode := x.lower (Cloud.orElse r.mode "open").strip
    apiKey := some ((r.apiKey.getD []).strip.take 128)
    portClosed := if r.portClosed = some true then some true else none
    clientTimeoutSeconds := max 0 r.clientTimeoutSeconds
    contextLength := max 0 r.contextLength
    modelName := r.modelName.strip.take 120
    cloudFallbackProviderId := r.cloudFallbackProviderId.strip
    cloudFallbackPct := normalizePct r.cloudFallbackPct
    priorityPreemptPct := normalizePct r.priorityPreemptPct
    queueAbortPct := normalizePct r.queueAbortPct
    routerId := some (if consumer then [] else match r.routerId with
      | none => DEFAULT_ROUTER_ID
      | some id => id.strip)
    role := Cloud.orElse (x.lower r.role.strip) (x.roleFromLabel r.label)
    clientId := r.clientId.strip }

/-- The routes that `load_agent_proxy_config` keeps: those it can normalize, one for a port. -/
def loadRoutes (routes : List Route) : List Route :=
  routes.foldl (fun cleaned r => match normalizeRoute x r with
    | .ok row => if row.port ∈ cleaned.map Route.port then cleaned else cleaned ++ [row]
    | .error _ => cleaned) []

/-! ### The routers -/

/-- The routers of `normalize_routers`, one for an id, the default one among them. Without
routes nothing is forgotten. -/
def keptRouters (raw : Option (List Rt)) (routes : Option (List Route)) : List Rt :=
  let routers := (raw.getD []).map fun r => x.normalizeRouter (match routes with
    | some routes => x.forgetAbsent (routes.map Route.port) r
    | none => r)
  let kept := routers.foldl (fun kept r =>
    if x.routerId r ∈ kept.map x.routerId then kept else kept ++ [r]) []
  if DEFAULT_ROUTER_ID ∈ kept.map x.routerId then kept
  else kept ++ [x.normalizeRouter x.blankRouter]

/-- A route on one of these routers, or on none. -/
def repoint (ids : List Text) (r : Route) : Route := { r with
  routerId := match if r.kind = CONSUMER then some [] else r.routerId with
    | none => some DEFAULT_ROUTER_ID
    | some id => if id = [] ∨ id ∈ ids then some id else some DEFAULT_ROUTER_ID }

/-- `normalize_routers`: the routers, and the routes it has re-pointed. -/
def normalizeRouters (raw : Option (List Rt)) (routes : Option (List Route)) :
    List Rt × Option (List Route) :=
  let all := keptRouters x raw routes
  let pointed := routes.map fun routes => routes.map (repoint (all.map x.routerId))
  let ordered := all.filter (fun r => x.routerId r = DEFAULT_ROUTER_ID) ++
    all.filter fun r => x.routerId r ≠ DEFAULT_ROUTER_ID
  (ordered.map fun r => x.withInputs (((pointed.getD []).filter fun route =>
    route.routerId = some (x.routerId r)).map Route.port) r, pointed)

/-! ### The policy and the entry -/

/-- `normalize_agent_proxy_policy` -/
def normalizePolicy (p : Policy) : Policy where
  maxSlots := some (clamp 1 64 (p.maxSlots.getD 1))
  priorityPreemptPct := some (clamp 0 100 (p.priorityPreemptPct.getD 50))
  queueAbortPct := some (clamp 1 100 (p.queueAbortPct.getD 85))
  preemptGraceSec := some (clamp 1 300 (p.preemptGraceSec.getD 20))
  preemptEnabled := some (p.preemptEnabled.getD true)
  cloudFallbackPct := some (clamp 0 100 (p.cloudFallbackPct.getD 20))
  stickySlotSec := some (clamp 0 120 (p.stickySlotSec.getD 0))
  loadingModelWaitSec := some (clamp 0 900 (p.loadingModelWaitSec.getD 60))

/-- `{**p, **q}` -/
def Policy.update (p q : Policy) : Policy where
  maxSlots := q.maxSlots.or p.maxSlots
  priorityPreemptPct := q.priorityPreemptPct.or p.priorityPreemptPct
  queueAbortPct := q.queueAbortPct.or p.queueAbortPct
  preemptGraceSec := q.preemptGraceSec.or p.preemptGraceSec
  preemptEnabled := q.preemptEnabled.or p.preemptEnabled
  cloudFallbackPct := q.cloudFallbackPct.or p.cloudFallbackPct
  stickySlotSec := q.stickySlotSec.or p.stickySlotSec
  loadingModelWaitSec := q.loadingModelWaitSec.or p.loadingModelWaitSec

/-- `KeyEntry.clean` -/
def cleanEntry (e : Option Entry) : Option Entry :=
  e.bind fun e =>
    if 1024 ≤ e.port ∧ e.port ≤ 65535 then
      let url := e.publicUrl.strip.take 200
      some ⟨e.port, if x.urlOk url then url else []⟩
    else none

/-- The last hundred. -/
def lastStops (stops : List StopRow) : List StopRow := stops.drop (stops.length - 100)

/-! ### The two readings -/

/-- What the controller works on. -/
structure Config (Rt : Type) where
  routes : List Route
  policy : Policy
  routers : List Rt
  stopRequests : List StopRow
  entry : Option Entry

/-- `load_agent_proxy_config`, of what was read: of nothing, where the file is missing or was
not read. -/
def load (reading : Option (Payload Rt)) : Config Rt :=
  let payload := reading.getD { routes := some [] }
  let cleaned := loadRoutes x (payload.routes.getD [])
  let routers := normalizeRouters x payload.routers (some cleaned)
  { routes := routers.2.getD []
    policy := normalizePolicy (payload.policy.getD {})
    routers := routers.1
    stopRequests := lastStops (payload.stopRequests.getD [])
    entry := cleanEntry x payload.entry }

/-- `load_config` of the proxy. -/
def loadConfig (reading : Option (Payload Rt)) : Payload Rt :=
  let payload := reading.getD {}
  let p := (x.defaultPolicy.update (payload.policy.getD {}))
  { routes := some (payload.routes.getD x.defaultRoutes)
    policy := some (normalizePolicy p)
    routers := some (payload.routers.getD [])
    stopRequests := some (lastStops (payload.stopRequests.getD []))
    entry := cleanEntry x payload.entry }

end Routes
