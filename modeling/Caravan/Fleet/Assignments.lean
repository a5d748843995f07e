import Caravan.Framework.Assoc
import Caravan.Framework.Requests
import Caravan.Python.Int

/-!
# Agents and their ports

Which proxy port each agent of each client uses, for which role: the stored assignments, the
requests that write them (`bind_agent_to_proxy`, `set_agent_route_context`,
`set_agent_route_model`, `remove_agent_route`) and the creation and deletion of clients and
agents. A request is a program (`Requests.Proc`) whose readings and writings are apart: the
server has a thread for each request, and nothing holds the document between the two.

A stored row is a structure with the fields that are read. Rows that are no dictionaries are left
out.
-/

namespace Fleet

open Python

/-- A refusal: its status and its text. -/
abbrev Refusal := ℕ × Text

/-- What the requests use of elsewhere. -/
structure Outside where
  interp : Interp
  /-- `str.casefold` -/
  casefold : Text → Text
  /-- `TOPOLOGY_SERVER_IP` -/
  serverIp : Text

/-! ### Routes -/

/-- `PROXY_ID_PREFIX` -/
def PROXY_ID_PREFIX : Text := "skynet:proxy:"

/-- `ProxyRoute`, and the row it is stored as. -/
structure ProxyRoute where
  role : Text
  proxyId : Text
  endpoint : Text
  contextLength : Option ℤ := none
  contextAuto : Option Bool := none
  modelName : Option Text := none
  modelNameAuto : Option Bool := none
  deriving DecidableEq, Repr

/-- `str(v).strip()[:120] or None` -/
def cleanName (t : Text) : Option Text :=
  let name := t.strip.take 120
  if name = [] then none else some name

/-- `ProxyRoute.__init__` -/
def ProxyRoute.init (r : ProxyRoute) : ProxyRoute where
  role := (if r.role = [] then Text.of "primary" else r.role).strip
  proxyId := r.proxyId.strip
  endpoint := r.endpoint.strip
  contextLength := r.contextLength.filter (0 < ·)
  contextAuto := r.contextAuto
  modelName := r.modelName.bind cleanName
  modelNameAuto := r.modelNameAuto

/-- `ProxyRoute.from_raw` -/
def ProxyRoute.fromRaw (r : ProxyRoute) : Except Refusal ProxyRoute :=
  if r.init.endpoint = [] then .error (400, "route.endpoint is required") else .ok r.init

/-- `PROXY_ID_PREFIX` and the number of a port. -/
def pidOf (port : ℕ) : Text := PROXY_ID_PREFIX ++ decimal port

/-- `ProxyRoute.port_url` -/
def portUrl (serverIp : Text) (port : ℕ) : Text :=
  Text.of "http://" ++ serverIp ++ Text.of ":" ++ decimal port ++ Text.of "/v1"

/-- `ProxyRoute.for_port` -/
def ProxyRoute.forPort (role : Text) (port : ℕ) (serverIp : Text) : ProxyRoute :=
  { role, proxyId := pidOf port, endpoint := portUrl serverIp port : ProxyRoute }.init

/-! ### Assignments -/

/-- `AgentAssignment`, and the row it is stored as. -/
structure AgentAssignment where
  agentId : Text
  routes : List ProxyRoute
  deriving DecidableEq, Repr

/-- The routes of `AgentAssignment.from_raw`, one for each role. -/
def routesFromRaw (seen : List Text) : List ProxyRoute → Except Refusal (List ProxyRoute)
  | [] => .ok []
  | r :: rs => do
    let route ← r.fromRaw
    if route.role ∈ seen then .error (400, Text.of "duplicate route role: " ++ route.role)
    else return route :: (← routesFromRaw (route.role :: seen) rs)

/-- `AgentAssignment.from_raw` -/
def AgentAssignment.fromRaw (a : AgentAssignment) : Except Refusal AgentAssignment := do
  let routes ← routesFromRaw [] a.routes
  if a.agentId.strip = [] then .error (400, "assignment.agentId is required")
  else return ⟨a.agentId.strip, routes⟩

/-- `AgentAssignment.route` -/
def AgentAssignment.route (a : AgentAssignment) (role : Text) : Option ProxyRoute :=
  a.routes.find? fun r => r.role = role

/-- The first route of a role is changed. -/
def changeRole (role : Text) (f : ProxyRoute → ProxyRoute) : List ProxyRoute → List ProxyRoute
  | [] => []
  | r :: rs => if r.role = role then f r :: rs else r :: changeRole role f rs

/-- What `set_route` does to a route of the role: the port moves, and a setting that is not given
stays. -/
def ProxyRoute.moved (route r : ProxyRoute) : ProxyRoute where
  role := route.role
  proxyId := route.proxyId
  endpoint := route.endpoint
  contextLength := route.contextLength.or r.contextLength
  contextAuto := route.contextAuto.or r.contextAuto
  modelName := route.modelName.or r.modelName
  modelNameAuto := route.modelNameAuto.or r.modelNameAuto

/-- `AgentAssignment.set_route` -/
def AgentAssignment.setRoute (a : AgentAssignment) (route : ProxyRoute) : AgentAssignment :=
  ⟨a.agentId, match a.route route.role with
    | none => a.routes ++ [route]
    | some _ => changeRole route.role route.moved a.routes⟩

/-! ### The document -/

/-- What a client has under `assignments`: an object of its own, which a write replaces. -/
structure Entry where
  /-- Which object it is. -/
  mark : ℕ
  rows : List AgentAssignment
  deriving DecidableEq, Repr

/-- A client of the operator's record. -/
structure Client where
  name : Text
  ip : Text := []
  /-- The agents by their ids. -/
  agents : List (Text × Text)
  deriving DecidableEq, Repr

/-- The part of the admin document that the requests read and write. -/
structure Store where
  clients : List (Text × Client)
  assignments : List (Text × Entry)
  /-- The objects made so far. -/
  made : ℕ

/-- The rows of a client. -/
def Store.rows (x : Store) (host : Text) : List AgentAssignment :=
  ((Assoc.get x.assignments host).map Entry.rows).getD []

/-- The holder of a port: client, agent and role. -/
abbrev Holder := Text × Text × Text

/-- The role of a stored route, as it is read. -/
def ProxyRoute.roleOf (r : ProxyRoute) : Text := if r.role = [] then Text.of "primary" else r.role

/-- What the stored assignments say of an id of a port: one list of `_port_holders`. -/
def portHolders (x : Store) (pid : Text) : List Holder :=
  x.assignments.flatMap fun e => e.2.rows.flatMap fun a =>
    (a.routes.filter fun r => r.proxyId = pid ∧ pid ≠ []).map fun r => (e.1, a.agentId, r.roleOf)

/-- `_port_holder` -/
def portHolder (x : Store) (port : ℕ) (host agent : Text) : Option Holder :=
  (portHolders x (pidOf port)).find? fun h => ¬ (h.1 = host ∧ h.2.1 = agent)

/-! ### Requests -/

/-- What a request is answered. -/
inductive Answer where
  | refused (e : Refusal)
  /-- An exception that is no refusal. -/
  | raised
  | row (host : Text) (rows : List AgentAssignment)
  | client (id : Text)
  | ok
  | freed (ports : List ℤ) (clientRemoved : Bool)

abbrev Proc := Requests.Proc Store Answer

def refuse (status : ℕ) (text : Text) : Proc := .done (.refused (status, text))

/-- A refusal ends a request, and so does an exception. -/
def orEnd {α : Type} (x : Except Answer α) (k : α → Proc) : Proc :=
  match x with
  | .ok a => k a
  | .error e => .done e

/-- What refuses, as part of a request. -/
def orRefuse {α : Type} (x : Except Refusal α) (k : α → Proc) : Proc :=
  orEnd (x.mapError .refused) k

/-- The last part of `apply_topology_assignments`: a new object for the client's rows. -/
def putRows (host : Text) (rows : List AgentAssignment) (x : Store) : Store :=
  { x with assignments := Assoc.set x.assignments host ⟨x.made, rows⟩, made := x.made + 1 }

/-- `apply_topology_assignments` -/
def applyAssignments (host : Text) (rows : List AgentAssignment) : Proc :=
  orRefuse (rows.mapM AgentAssignment.fromRaw) fun rows =>
    .update (putRows host rows) (.done (.row host rows))

/-- The first row of an agent is replaced. -/
def replaceRow (agent : Text) (row : AgentAssignment) :
    List AgentAssignment → List AgentAssignment
  | [] => []
  | a :: rows => if a.agentId = agent then row :: rows else a :: replaceRow agent row rows

/-- The roles of an agent. -/
def roles : List Text := ["primary", "fallback"]

def wrongRole (role : Text) : Proc :=
  refuse 400 (Text.of "role must be \"primary\" or \"fallback\", got \"" ++ role ++ Text.of "\"")

/-- `str(payload.get("role") or "primary").strip()` -/
def roleOf (role : Text) : Text := (if role = [] then Text.of "primary" else role).strip

/-- `v in (None, "", 0)` -/
def blank : Value → Bool
  | .null | .str [] | .int 0 | .bool false | .float (.finite _ 0 _) => true
  | _ => false

variable (O : Outside)

/-- The port of a bind. -/
def portArg (v : Value) : Except Answer ℤ :=
  if blank v then
    .error (.refused (400, "port is required — a role is removed with its own action"))
  else match intOf O.interp v with
    | .ok n => .ok n
    | .error .overflow => .error .raised
    | .error _ => .error (.refused (400, "port must be a number"))

/-- `bind_agent_to_proxy` from the reading of the rows on, where the proxy's config has these
ports. -/
def bindRows (host agent role : Text) (port : Value) (known : List (Fin 65536))
    (rows : List AgentAssignment) : Proc :=
  let found := rows.find? fun a => a.agentId = agent
  let rows := if found.isSome then rows else rows ++ [⟨agent, []⟩]
  let entry := found.getD ⟨agent, []⟩
  if roleOf role ∉ roles then wrongRole (roleOf role)
  else orEnd (portArg O port) fun number => match known.find? fun n => (n.val : ℤ) = number with
    | none => refuse 400 (Text.of "no proxy route on port " ++ intRepr number)
    | some port => .read fun x => match portHolder x port host agent with
      | some h => refuse 409 (Text.of "port " ++ decimal port ++
          Text.of " is already bound to agent " ++ h.2.1 ++ Text.of " (" ++ h.2.2 ++ Text.of ")")
      | none => orRefuse entry.fromRaw fun a => applyAssignments host (replaceRow agent
          (a.setRoute (ProxyRoute.forPort (roleOf role) port O.serverIp)) rows)

/-- `bind_agent_to_proxy` -/
def bindAgentToProxy (host agent role : Text) (port : Value) (known : List (Fin 65536)) : Proc :=
  if host.strip = [] ∨ agent.strip = [] then refuse 400 "hostId and agentId are required"
  else .read fun x => match Assoc.get x.clients host.strip with
    | none => refuse 404 (Text.of "client not found: " ++ host.strip)
    | some client =>
      if agent.strip ∉ client.agents.map Prod.fst then
        refuse 404 (Text.of "agent not found: " ++ agent.strip)
      else .read fun x => bindRows O host.strip agent.strip role port known (x.rows host.strip)

/-- The row of an agent, read once, and what is made of its role. -/
def changeRoute (host agent role : Text) (f : AgentAssignment → Except Answer AgentAssignment) :
    Proc :=
  .read fun x => match (x.rows host).find? fun a => a.agentId = agent with
    | none => refuse 404 (Text.of "no assignment for agent " ++ agent ++ Text.of " on " ++ host)
    | some raw => orRefuse raw.fromRaw fun a => match a.route role with
      | none => refuse 404 (Text.of "agent " ++ agent ++ Text.of " has no " ++ role ++
          Text.of " route")
      | some _ => orEnd (f a) fun a => applyAssignments host (replaceRow agent a (x.rows host))

/-- `ProxyRoute._positive_int` -/
def positiveInt (v : Value) : Except Answer (Option ℤ) :=
  if blank v then .ok none
  else match intOf O.interp v with
    | .ok n => .ok (if 0 < n then some n else none)
    | .error .overflow => .error .raised
    | .error _ => .ok none

/-- `set_agent_route_context` -/
def setAgentRouteContext (host agent role : Text) (contextLength : Value) (contextAuto : Bool) :
    Proc :=
  if host.strip = [] ∨ agent.strip = [] then refuse 400 "hostId and agentId are required"
  else if roleOf role ∉ roles then wrongRole (roleOf role)
  else changeRoute host.strip agent.strip (roleOf role) fun a => do
    let length ← positiveInt O contextLength
    return ⟨a.agentId, changeRole (roleOf role) (fun r =>
      { r with contextLength := length
               contextAuto := if contextAuto then some true else none }) a.routes⟩

/-- `set_agent_route_model` -/
def setAgentRouteModel (host agent role name : Text) (auto : Bool) : Proc :=
  if host.strip = [] ∨ agent.strip = [] then refuse 400 "hostId and agentId are required"
  else changeRoute host.strip agent.strip (roleOf role) fun a =>
    .ok ⟨a.agentId, changeRole (roleOf role) (fun r =>
      { r with modelName := cleanName name
               modelNameAuto := if auto then some true else none }) a.routes⟩

/-- `remove_agent_route` -/
def removeAgentRoute (host agent role : Text) : Proc :=
  if host.strip = [] ∨ agent.strip = [] ∨ role.strip = [] then
    refuse 400 "hostId, agentId and role are required"
  else changeRoute host.strip agent.strip role.strip fun a =>
    .ok ⟨a.agentId, a.routes.filter fun r => r.role ≠ role.strip⟩

/-! ### Clients and agents -/

/-- `FleetClient.RESERVED_IDS` -/
def RESERVED_IDS : List Text := ["controller", "skynet"]

/-- `FleetClient.validate_id` -/
def validateId (host : Text) : Except Refusal Text :=
  let id := host.strip.take 120
  if id = [] then .error (400, "host.id is required")
  else if RESERVED_IDS.any fun r => O.casefold id = O.casefold r then
    .error (400, Text.of "host.id \"" ++ id ++ Text.of ("\" is reserved for the controller — " ++
      "give this client a different hostId"))
  else .ok id

/-- A text, or the other one where it is empty. -/
def orText (a b : Text) : Text := if a = [] then b else a

/-- `topology_client_create` -/
def topologyClientCreate (host name ip : Text) : Proc :=
  orRefuse (validateId O host) fun id =>
    let clientName := (orText name host).strip.take 120
    let agent := id.strip.take 80
    let agentName := (orText (orText clientName id) agent).strip.take 120
    .read fun x =>
      if (Assoc.get x.clients id).isSome then refuse 409 (Text.of "client already exists: " ++ id)
      else if agent = [] then refuse 400 "agentId is required"
      else
        let client : Client := ⟨clientName, ip.strip.take 240, [(agent, agentName)]⟩
        .update (fun x => { x with clients := Assoc.set x.clients id client }) (.done (.client id))

/-- `del store["clients"][id]`, and what follows if there is one. -/
def delClient (id : Text) (k : Proc) : Proc :=
  .step (fun x => { x with clients := Assoc.del x.clients id }) fun x =>
    if (Assoc.get x.clients id).isSome then k else .done .raised

/-- `store["assignments"].pop(id, None)` -/
def popRows (id : Text) (x : Store) : Store :=
  { x with assignments := Assoc.del x.assignments id }

/-- `topology_client_delete` -/
def topologyClientDelete (id : Text) : Proc :=
  if id.strip = [] then refuse 400 "clientId is required"
  else .read fun x =>
    if (Assoc.get x.clients id.strip).isSome then
      delClient id.strip (.update (popRows id.strip) (.done .ok))
    else refuse 404 (Text.of "client not found: " ++ id.strip)

/-- The number after a prefix. -/
def numberAfter (pid : Text) (pre : Text) : Option ℤ :=
  if pre <+: pid then (intOfText O.interp (pid.drop pre.length)).toOption else none

/-- The ports of a row, as `reconcile_proxy_metadata` reads them. -/
def rowPorts (a : AgentAssignment) : List ℤ :=
  a.routes.filterMap fun r => numberAfter O r.proxyId PROXY_ID_PREFIX

/-- The number after the last colon, of an id with the prefix. -/
def lastNumber (pid : Text) : Option ℤ :=
  if PROXY_ID_PREFIX <+: pid then
    (intOfText O.interp (pid.rtakeWhile fun c => c ≠ codePoint ':')).toOption
  else none

/-- `assignment_port_claims`, of one port. -/
def portClaims (x : Store) (port : ℤ) : ℕ :=
  (x.assignments.flatMap fun e => e.2.rows.filter fun a =>
    port ∈ a.routes.filterMap fun r => lastNumber O r.proxyId).length

/-- `host_entry["assignments"] = rows`, on an object that was found. -/
def setRows (host : Text) (found : Option Entry) (rows : List AgentAssignment) (x : Store) :
    Store :=
  match found, Assoc.get x.assignments host with
  | some e, some e' => if e.mark = e'.mark ∧ e.rows ≠ [] then
      { x with assignments := Assoc.set x.assignments host ⟨e.mark, rows⟩ } else x
  | _, _ => x

/-- `client["agents"] = agents` -/
def setAgents (id : Text) (agents : List (Text × Text)) (x : Store) : Store :=
  match Assoc.get x.clients id with
  | some client => { x with clients := Assoc.set x.clients id { client with agents } }
  | none => x

/-- The last part of `topology_client_agent_delete`: the last agent takes its client with it. -/
def endAgent (id : Text) (freed : List ℤ) (left : List (Text × Text)) : Proc :=
  .read fun x =>
    if ((Assoc.get x.clients id).map Client.agents).getD left = [] then
      delClient id (.update (popRows id) (.done (.freed freed true)))
    else .done (.freed freed false)

/-- `topology_client_agent_delete` -/
def topologyClientAgentDelete (id agent : Text) : Proc :=
  let id := id.strip
  let agent := agent.strip
  if id = [] then refuse 400 "clientId is required"
  else if agent = [] then refuse 400 "agentId is required"
  else .read fun x => match Assoc.get x.clients id with
    | none => refuse 404 (Text.of "client not found: " ++ id)
    | some client =>
      let left := client.agents.filter fun a => a.1 ≠ agent
      .update (setAgents id left) <|
        if left.length = client.agents.length then
          refuse 404 (Text.of "agent not found: " ++ agent)
        else .read fun claims => .read fun x =>
          let rows := x.rows id
          let held := ((rows.filter fun a => a.agentId = agent).flatMap (rowPorts O)).dedup
          let freed := (held.filter fun p => portClaims O claims p ≤ 1).mergeSort
          .update (setRows id (Assoc.get x.assignments id) (rows.filter fun a => a.agentId ≠ agent))
            (endAgent id freed left)

/-! ### All requests -/

inductive Request where
  | bind (host agent role : Text) (port : Value) (known : List (Fin 65536))
  | context (host agent role : Text) (contextLength : Value) (contextAuto : Bool)
  | model (host agent role name : Text) (auto : Bool)
  | remove (host agent role : Text)
  | create (host name ip : Text)
  | delete (id : Text)
  | deleteAgent (id agent : Text)

def Request.proc : Request → Proc
  | .bind host agent role port known => bindAgentToProxy O host agent role port known
  | .context host agent role length auto => setAgentRouteContext O host agent role length auto
  | .model host agent role name auto => setAgentRouteModel host agent role name auto
  | .remove host agent role => removeAgentRoute host agent role
  | .create host name ip => topologyClientCreate O host name ip
  | .delete id => topologyClientDelete id
  | .deleteAgent id agent => topologyClientAgentDelete O id agent

end Fleet
