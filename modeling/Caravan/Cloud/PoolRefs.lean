import Caravan.Cloud.Desks
import Caravan.Python.Dict

/-!
# What points at a pool

A router names its outputs in its rules, in its rule lists, in its failover, at the ends of its
graph's edges and at its models' queues; the output of a pool is `cb:<its id>`. One table reads
them, names them anew or drops them (`RouterOutputRefs`), over all routers for a pool
(`CloudModelRefs`, `CloudModelRewire`). A client of an older form names its pool, and a set of
models the pools it holds. This module is the model of `PoolDesk.delete` on all of these: what it
hands over to be saved, of the proxy's document and of the accounts' and pools'.

The proxy's document is as it is loaded: normalised, so that what names an output is a text.
-/

namespace PoolRefs

open Python Cloud

/-! ### A router's outputs, and what names them -/

/-- `RULE_KEYS` -/
inductive RuleKey
  | default
  | dormantDefault
  | audioOutput
  | embeddingsOutput
  deriving DecidableEq, Repr

/-- `RULE_LISTS` -/
inductive ListKey
  | schedule
  | bySource
  deriving DecidableEq, Repr

def RULE_KEYS : List RuleKey := [.default, .dormantDefault, .audioOutput, .embeddingsOutput]

def RULE_LISTS : List ListKey := [.schedule, .bySource]

def RuleKey.text : RuleKey → Text
  | .default => "default"
  | .dormantDefault => "dormantDefault"
  | .audioOutput => "audioOutput"
  | .embeddingsOutput => "embeddingsOutput"

def ListKey.text : ListKey → Text
  | .schedule => "schedule"
  | .bySource => "bySource"

def FAILOVER : Text := "failover"

/-- A row of a rule list: its output, and its other fields. -/
structure Row where
  output : Text
  others : Dict

structure Rules where
  named : RuleKey → Option Text
  rows : ListKey → List Row
  failover : List Text

/-- An edge of the graph: each end is `in:<port>`, `rule:<node>` or `out:<output>`. -/
structure Edge where
  id : Text
  source : Text
  target : Text
  schedPortId : Option Text := none

structure Node where
  id : Text
  type : Text
  config : Dict
  /-- of a model's queue: its model's output -/
  modelOutputId : Text := []
  others : Dict := []

structure Output where
  id : Text
  others : Dict

structure Router where
  id : Text
  outputs : List Output
  rules : Rules
  nodes : List Node
  edges : List Edge
  others : Dict := []

/-- A route, as far as it names pools. -/
structure Route where
  kind : Text
  pool : Option Text
  providerId : Text
  cloudFallbackProviderId : Text
  others : Dict := []

structure Payload where
  routes : List Route
  routers : List Router

/-- `cb:<pool id>` -/
def outputOf (poolId : Text) : Text := Text.of "cb:" ++ poolId

/-- `EDGE_PREFIX` -/
def EDGE_PREFIX : Text := "out:"

/-- A node, as an end of an edge. -/
def nodeEnd (id : Text) : Text := Text.of "rule:" ++ id

/-- The output that an end of an edge names. -/
def outputAt (ref : Text) : Option Text :=
  if EDGE_PREFIX.isPrefixOf ref then some (ref.drop EDGE_PREFIX.length) else none

/-- One of `_model_queues`. -/
def Node.isModelQueue (n : Node) : Bool := n.type = Text.of "queue" ∧ n.modelOutputId ≠ []

/-- What `rewrite` makes of a node. -/
def Node.rewrite (f : Text → Text) (n : Node) : Node :=
  if n.isModelQueue then { n with modelOutputId := f n.modelOutputId } else n

/-! ### The table -/

namespace Router

variable (r : Router)

/-- `_model_queues` -/
def modelQueues : List Node := r.nodes.filter Node.isModelQueue

/-- `rules_naming` -/
def rulesNaming (output : Text) : List Text :=
  ((RULE_KEYS.filter fun k => (r.rules.named k).getD [] = output).map RuleKey.text) ++
    ((RULE_LISTS.filter fun k => (r.rules.rows k).any (·.output = output)).map ListKey.text) ++
    if output ∈ r.rules.failover then [FAILOVER] else []

/-- The main edge of a model's queue: no cable that leads to the model. -/
def isInternal (e : Edge) : Bool :=
  r.modelQueues.any fun n => match n.config.get (Text.of "admitEdge") with
    | .str id => id = e.id
    | _ => false

/-- `edges_touching` -/
def edgesTouching (output : Text) : List Edge :=
  r.edges.filter fun e =>
    ¬ r.isInternal e ∧ (e.source = EDGE_PREFIX ++ output ∨ e.target = EDGE_PREFIX ++ output)

/-- What names an output names another: no name stays none. -/
def renamed (f : Text → Text) (name : Text) : Text := if name = [] then [] else f name

/-- An end of an edge, named anew. -/
def renamedEnd (f : Text → Text) (ref : Text) : Text :=
  match outputAt ref with
  | none => ref
  | some output => EDGE_PREFIX ++ f output

/-- `rewrite` -/
def rewrite (f : Text → Text) : Router :=
  { r with
    rules := {
      named k := (r.rules.named k).map (renamed f)
      rows k := (r.rules.rows k).map fun row => { row with output := renamed f row.output }
      failover := r.rules.failover.map f }
    edges := r.edges.map fun e =>
      { e with source := renamedEnd f e.source, target := renamedEnd f e.target }
    nodes := r.nodes.map (Node.rewrite f) }

/-- The places that `rewrite` changes, as it counts them: a failover once. -/
def rewritten (f : Text → Text) : ℕ :=
  (RULE_KEYS.filter fun k => (r.rules.named k).any fun v => renamed f v ≠ v).length +
    (RULE_LISTS.flatMap fun k => (r.rules.rows k).filter fun row =>
      renamed f row.output ≠ row.output).length +
    (if r.rules.failover.map f ≠ r.rules.failover then 1 else 0) +
    ((r.edges.flatMap fun e => [e.source, e.target]).filter fun ref =>
      renamedEnd f ref ≠ ref).length +
    (r.modelQueues.filter fun n => f n.modelOutputId ≠ n.modelOutputId).length

/-- The queues of an output's own. -/
def owned (output : Text) : List Text :=
  (r.modelQueues.filter (·.modelOutputId = output)).map Node.id

/-- An edge that goes with an output: it ends there, or it leaves a queue of its own. -/
def goesWith (output : Text) (e : Edge) : Bool :=
  e.source = EDGE_PREFIX ++ output ∨ e.target = EDGE_PREFIX ++ output ∨
    e.source ∈ (r.owned output).map nodeEnd

/-- `drop` -/
def drop (output : Text) : Router :=
  { r with
    rules := {
      named k := if r.rules.named k = some output then none else r.rules.named k
      rows k := (r.rules.rows k).filter fun row => row.output ≠ output
      failover := r.rules.failover.filter fun o => o ≠ output }
    nodes := r.nodes.filter fun n => n.id ∉ r.owned output
    edges := r.edges.filter fun e => ¬ r.goesWith output e }

/-- The places that `drop` drops, as it counts them. -/
def dropped (output : Text) : ℕ :=
  (RULE_KEYS.filter fun k => r.rules.named k = some output).length +
    (RULE_LISTS.flatMap fun k => (r.rules.rows k).filter (·.output = output)).length +
    (if output ∈ r.rules.failover then 1 else 0) +
    (r.owned output).dedup.length +
    (r.edges.filter (r.goesWith output)).length

end Router

/-! ### Over all routers -/

/-- `HOLDING_RULES` -/
def HOLDING_RULES : List Text :=
  ["default", "audioOutput", "embeddingsOutput", "schedule", "bySource", "failover"]

namespace Payload

variable (p : Payload)

/-- The rules of `held`, each kind once. -/
def heldRules (output : Text) : List Text :=
  p.routers.foldl (fun rules r =>
    rules ++ (r.rulesNaming output).filter fun k => k ∈ HOLDING_RULES ∧ k ∉ rules) []

/-- `CloudModelRefs.held` -/
def held (poolId : Text) : ℕ × List Text :=
  ((p.routers.map fun r => (r.edgesTouching (outputOf poolId)).length).sum,
    p.heldRules (outputOf poolId))

/-- `CloudModelRefs.cut` -/
def cut (poolId : Text) : Payload :=
  { p with routers := p.routers.map (·.drop (outputOf poolId)) }

def cutCount (poolId : Text) : ℕ := (p.routers.map (·.dropped (outputOf poolId))).sum

/-- `lambda v: new if v == old else v` -/
def rename (old new : Text) (v : Text) : Text := if v = old then new else v

/-- The other pool's output goes into a router that has none of its id. -/
def withOutput (new : Text) (output : Output) (r : Router) : Router :=
  if r.outputs.any (·.id = new) then r else { r with outputs := r.outputs ++ [output] }

/-- `CloudModelRewire.move` -/
def move (fromId toId : Text) (output : Output) : Payload where
  routers := p.routers.map fun r =>
    (withOutput (outputOf toId) output r).rewrite (rename (outputOf fromId) (outputOf toId))
  routes := p.routes.map fun route =>
    if route.cloudFallbackProviderId = fromId then { route with cloudFallbackProviderId := toId }
    else route

def moveCount (fromId toId : Text) : ℕ :=
  (p.routers.map (·.rewritten (rename (outputOf fromId) (outputOf toId)))).sum +
    (p.routes.filter (·.cloudFallbackProviderId = fromId)).length

end Payload

/-- `pool_output` -/
def poolOutput (pool : Pool) : Output where
  id := outputOf pool.id
  others := [("label", .str (Text.of "☁ " ++ orElse pool.name pool.id)),
    ("target", .str (Text.of "pool:" ++ pool.id)), ("upstreamHost", ""),
    ("upstreamPort", .int 0), ("upstreamType", "cloud"), ("providerId", .str pool.id)]

/-! ### The deletion -/

/-- A client of an older form whose pool is the deleted one. -/
def Route.calls (route : Route) (poolId : Text) : Bool :=
  route.kind = Text.of "consumer" ∧ route.pool.getD [] = poolId

/-- `_uncable` -/
def uncable (routes : List Route) (poolId : Text) : List Route :=
  routes.map fun route => if route.calls poolId then { route with pool := some [] } else route

/-- What becomes of what the routers point at the pool, and the answer about it. -/
structure Resolved where
  payload : Payload
  moved : ℕ := 0
  cut : ℕ := 0
  onto : Text := []

/-- What a deletion hands over to be saved, and its answer. -/
structure Deleted where
  doc : Doc
  payload : Payload
  deleted : Text
  moved : ℕ
  cut : ℕ
  onto : Option Text
  uncabled : ℕ
  unset : List Text

variable (o : Outside)

/-- The first part of `delete`: the routers' cables and rules. -/
def resolve (d : Doc) (p : Payload) (pool : Pool) (resolution : Resolution) :
    Except Stop Resolved := do
  let (cables, rules) := p.held pool.id
  let onto := resolution.moveTo.strip
  if cables ≠ 0 ∨ rules ≠ [] then
    if onto ≠ [] then
      refuseWhen (onto = pool.id) 400 "move the cables onto another pool"
      let target ← poolOf d onto
      return {
        payload := p.move pool.id onto (poolOutput target)
        moved := p.moveCount pool.id onto
        onto }
    else
      refuseWhen (¬ resolution.cut) 409
        ("pool " ++ pool.id ++ ": " ++ digits cables ++ " cable(s) and rules " ++ o.shown rules ++
          " lead to it in Routing — move them onto another pool, or disconnect them")
      return { payload := p.cut pool.id, cut := p.cutCount pool.id }
  else return { payload := p }

/-- `PoolDesk.delete` -/
def delete (d : Doc) (p : Payload) (poolId : Text) (resolution : Resolution) :
    Except Stop Deleted := do
  let pool ← poolOf d poolId
  let done ← resolve o d p pool resolution
  o.saveProxies
  let sets := cleanSets d.sets
  let unset := sets.filter fun s => pool.id ∈ s.pools
  let without := sets.map fun s => { s with pools := s.pools.filter fun i => i ≠ pool.id }
  return {
    doc := { d with
      pools := d.pools.filter fun p => p.id ≠ pool.id
      sets := if unset ≠ [] then without else d.sets }
    payload := { done.payload with routes := uncable done.payload.routes pool.id }
    deleted := pool.id
    moved := done.moved
    cut := done.cut
    onto := if done.onto = [] then none else some done.onto
    uncabled := (done.payload.routes.filter (·.calls pool.id)).length
    unset := unset.map PoolSet.name }

end PoolRefs
