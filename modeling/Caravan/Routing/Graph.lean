import Caravan.Schedules.Cell
import Caravan.Python.Text
import Mathlib.Algebra.Order.Ring.Rat

/-!
# A router's graph

The graph of a router leads a request from its input over rule nodes to an output. Two walkers
read it: `resolve_graph`, which a request is routed by, and `chain_exit`, which names in advance
the output that an edge leads to. Between them stands `_eval_rule_node`, the branch of one node.

The graph is as `normalize_router` leaves it, in its own terms: refs, edges told apart by their
ids, and nodes with the configuration of their type. What a walk reads besides (the moment, the
verdicts on outputs, their free places, the draws of a weighted node) is a `Scene`.
-/

namespace Routing

open Python Schedules

/-! ### The graph -/

/-- What an edge connects: `in:<proxyId>`, `rule:<id>`, `out:<id>`. -/
inductive Ref where
  | input (pid : Text)
  | rule (id : Text)
  | out (id : Text)
  deriving DecidableEq

def Ref.text : Ref → Text
  | .input pid => Text.of "in:" ++ pid
  | .rule id => Text.of "rule:" ++ id
  | .out id => Text.of "out:" ++ id

/-- `output_id_of_ref` -/
def outputIdOfRef : Ref → Option Text
  | .out id => if id = [] then none else some id
  | _ => none

structure Edge where
  id : Text
  source : Ref
  target : Ref
  schedPortId : Option Text
  deriving DecidableEq

/-- A window of a schedule node in its old form, in minutes of the day. -/
structure Window where
  days : List ℤ
  start : ℤ
  stop : ℤ
  deriving DecidableEq

/-- The type of a node, with its configuration. -/
inductive Config where
  | byModel (cases : List (Text × Text)) (elseEdge : Text)
  | grid (grid : List (List (Option Text)))
  | schedule (windows : List Window) (thenEdge elseEdge : Text)
  | weighted (weights : List (Text × ℕ))
  | roundRobin
  | failover (order : List Text)
  | queue (admitEdge spillEdge : Text)
  | requestType
  | requestSize (maxTokensAt : ℕ)
  | onError (mainEdge rescueEdge : Text)
  deriving DecidableEq

structure Node where
  id : Text
  config : Config
  /-- The local model that a queue is of. -/
  modelOutputId : Option Text
  modelQueueActive : Bool
  deriving DecidableEq

/-- A graph that was normalized. -/
structure Graph where
  nodes : List Node
  edges : List Edge
  nodeIds : (nodes.map Node.id).Nodup
  edgeIds : (edges.map Edge.id).Nodup
  named : ∀ e ∈ edges, e.id ≠ []

structure Output where
  id : Text
  cloud : Bool
  deriving DecidableEq

/-- A router, as a walk reads it. -/
structure Router where
  graph : Graph
  outputs : List Output

/-- `outputs.get(…)`, where the last of an id counts. -/
def Router.output (r : Router) (id : Text) : Option Output := r.outputs.reverse.find? (·.id = id)

def Graph.node (g : Graph) (id : Text) : Option Node := g.nodes.find? (·.id = id)

/-- `_graph_outgoing` -/
def Graph.outgoing (g : Graph) (ref : Ref) : List Edge := g.edges.filter (·.source = ref)

/-- `by_id.get(…)` -/
def byId (outs : List Edge) (id : Text) : Option Edge := outs.find? (·.id = id)

/-! ### The verdicts on outputs -/

/-- What the proxy knows of an output. -/
structure Verdict where
  ok : Bool
  checkedAt : ℚ
  lastOkAt : Option ℚ

def VERDICT_TTL_SECONDS : ℚ := 300

/-- The last word of an exit: `ANSWERED`, `SILENT`, `FAILED`. -/
inductive Word where
  | failed
  | silent
  | answered
  deriving DecidableEq

def Word.rank : Word → ℕ
  | .failed => 0
  | .silent => 1
  | .answered => 2

/-- `OutputHealth`, by its rows. -/
abbrev Health := Text → Option Verdict

namespace Health

variable (h : Health) (now : ℚ)

/-- `is_dead`: an error that is fresh. -/
def dead (id : Text) : Bool :=
  (h id).any fun v => !v.ok && now - v.checkedAt < VERDICT_TTL_SECONDS

/-- `_last_word` -/
def lastWord (id : Text) : Word × Option ℚ :=
  match h id with
  | none => (.silent, none)
  | some v => (if v.ok then .answered else .failed, v.lastOkAt)

/-- `next_exit`: whether the backup is taken. -/
def nextExit (main backup : Option Text) : Bool :=
  match main, backup with
  | some main, some backup => h.dead now main && !h.dead now backup
  | _, _ => false

/-- `discovery_exit`: whether the backup is taken. -/
def discoveryExit (main backup : Option Text) : Bool :=
  match main, backup with
  | some main, some backup =>
    let (mainWord, mainOkAt) := h.lastWord main
    let (backupWord, backupOkAt) := h.lastWord backup
    mainWord.rank < backupWord.rank ||
      (mainWord = .failed && backupWord = .failed &&
        backupOkAt.any fun b => mainOkAt.all fun m => m < b)
  | _, _ => false

end Health

/-! ### A node's branch -/

/-- What a request asks, as the graph reads it. -/
structure Ctx where
  model : Text
  maxTokens : Option ℤ
  embeddings : Bool
  discovery : Bool

/-- What a walk reads besides the graph. -/
structure Scene where
  ctx : Ctx
  health : Health
  now : ℚ
  localtime : LocalTime
  /-- `output_has_capacity`, under the policy -/
  hasCapacity : Output → Bool
  lower : Text → Text
  fnmatch : Text → Text → Bool
  /-- `random.uniform(0, total)`, at a node -/
  uniform : Text → ℕ → ℚ
  /-- `_rr_state`, of the router -/
  cursor : Text → ℕ

/-- `_schedule_rule_active` -/
def Window.active (w : Window) (lt : LocalTime) : Bool :=
  let cur := lt.tm_hour * 60 + lt.tm_min
  if w.days ≠ [] ∧ lt.tm_wday ∉ w.days then false
  else if w.start ≤ w.stop then w.start ≤ cur && cur ≤ w.stop
  else w.start ≤ cur || cur ≤ w.stop

section Eval

variable (r : Router) (c : Scene)

/-- A port of a node: the edge that leaves it. -/
def atPort (outs : List Edge) (port : Text) : Option Edge :=
  outs.find? (·.schedPortId = some port)

/-- The edge that the running sum of the weights reaches. -/
def drawn (x : ℚ) : ℕ → List (Edge × ℕ) → Option Edge
  | _, [] => none
  | acc, (e, pct) :: rest => if x ≤ (acc + pct : ℕ) then some e else drawn x (acc + pct) rest

/-- The first exit of a chain that can take the request now. -/
def firstFree : List Edge → Option Ref
  | [] => none
  | e :: rest =>
    match e.target with
    | .out id =>
      if (r.output id).any c.hasCapacity then some e.target else firstFree rest
    | _ => some e.target

/-- Whether an onError node sends the request down its backup at once. -/
def takesRescue (exitId : Ref → Option Text) (main rescue : Ref) : Bool :=
  if c.ctx.discovery then c.health.discoveryExit (exitId main) (exitId rescue)
  else c.health.nextExit c.now (exitId main) (exitId rescue)

/-- `_eval_rule_node`, of a node with these edges. -/
def evalRuleNode (exitId : Ref → Option Text) (node : Node) (first : Edge) (outs : List Edge) :
    Ref :=
  let edgeTo (id : Text) : Option Ref := (byId outs id).map Edge.target
  match node.config with
  | .byModel cases elseEdge =>
    let model := c.lower c.ctx.model.strip
    let hit := cases.findSome? fun (pattern, edge) =>
      let pat := c.lower pattern.strip
      if model ≠ [] ∧ pat ≠ [] ∧ c.fnmatch model pat then edgeTo edge else none
    (hit.or (edgeTo elseEdge)).getD first.target
  | .requestType =>
    match if c.ctx.embeddings then atPort outs "embed" else none with
    | some e => e.target
    | none => ((atPort outs "__default__").getD first).target
  | .requestSize maxTokensAt =>
    match if c.ctx.maxTokens.any fun n : ℤ => 0 < n && n ≤ maxTokensAt then atPort outs "small"
      else none with
    | some e => e.target
    | none => ((atPort outs "__default__").getD first).target
  | .grid grid =>
    let cell := ((grid[c.localtime.tm_wday.toNat]?).bind
      (·[c.localtime.tm_hour.toNat]?)).join.filter (· ≠ [])
    match cell.bind (atPort outs) with
    | some e => e.target
    | none => ((atPort outs "__default__").getD first).target
  | .schedule windows thenEdge elseEdge =>
    let active := windows.any (·.active c.localtime)
    (edgeTo (if active then thenEdge else elseEdge)).getD first.target
  | .weighted weights =>
    let weights := weights.filterMap fun (edge, pct) => (byId outs edge).map (·, pct)
    let weights := weights.filter fun (_, pct) => 0 < pct
    let total := (weights.map Prod.snd).sum
    if 0 < total then ((drawn (c.uniform node.id total) 0 weights).getD first).target
    else first.target
  | .failover order =>
    let order := if order = [] then outs.map Edge.id else order
    let chain := order.filterMap (byId outs)
    let chain := if chain = [] then outs else chain
    (firstFree r c chain).getD ((chain.head?.getD first).target)
  | .roundRobin => ((outs[c.cursor node.id % outs.length]?).getD first).target
  | .queue admitEdge _ => (edgeTo admitEdge).getD first.target
  | .onError mainEdge rescueEdge =>
    let main := (edgeTo mainEdge).getD first.target
    match edgeTo rescueEdge with
    | some rescue => if takesRescue c exitId main rescue then rescue else main
    | none => main

/-! ### The exit behind an edge -/

/-- `CHAIN_DECIDABLE` -/
def Config.decidable : Config → Bool
  | .queue .. | .onError .. | .failover .. | .grid .. | .schedule .. | .requestType
  | .requestSize .. => true
  | _ => false

/-- Where `chain_exit` goes on from a node: a backup node is followed down its main edge. -/
def chainNext (node : Node) (first : Edge) (outs : List Edge) : Ref :=
  match node.config with
  | .queue admitEdge _ => ((byId outs admitEdge).getD first).target
  | .onError mainEdge _ => ((byId outs mainEdge).getD first).target
  | _ => evalRuleNode r c outputIdOfRef node first outs

/-- `chain_exit`, with the steps left and the refs seen. -/
def chain : ℕ → List Ref → Ref → Option Ref × List Text
  | 0, _, _ => (none, [])
  | fuel + 1, seen, cur =>
    match cur with
    | .out _ => (some cur, [])
    | .input _ => (none, [])
    | .rule nodeId =>
      if cur ∈ seen then (none, [])
      else
        match r.graph.node nodeId with
        | none => (none, [])
        | some node =>
          match r.graph.outgoing cur with
          | [] => (none, [node.id])
          | first :: outs =>
            if !node.config.decidable then (none, [node.id])
            else
              (chain fuel (cur :: seen) (chainNext r c node first (first :: outs))).map id
                (node.id :: ·)

/-- `chain_exit` -/
def chainExit (ref : Ref) : Option Ref × List Text := chain r c 8 [] ref

/-- `chain_exit_id` -/
def chainExitId (ref : Ref) : Option Text := (chainExit r c ref).1.bind outputIdOfRef

/-! ### The way of a request -/

/-- The queue that a request waits in, as far as the graph gives it. -/
structure Spec where
  nodeId : Text
  spillRef : Option Ref
  deriving DecidableEq

/-- `plan_out` -/
structure Plan where
  spec : Option Spec
  rescueRefs : List Ref
  deadSkipped : List Text
  deriving DecidableEq

def Plan.start : Plan := ⟨none, [], []⟩

/-- `ModelQueuePlan.attach` -/
def Plan.attach (p : Plan) (g : Graph) (output : Option Output) : Plan :=
  match output with
  | none => p
  | some o =>
    if p.spec.isSome || o.cloud then p
    else
      match g.nodes.find? fun n => n.modelOutputId = some o.id && n.modelQueueActive &&
          (match n.config with | .queue .. => true | _ => false) with
      | none => p
      | some node =>
        let spillEdge := match node.config with
          | .queue _ spillEdge => spillEdge
          | _ => []
        let spill := g.edges.find? fun e => e.source = .rule node.id && e.id = spillEdge
        { p with spec := some ⟨node.id, spill.map Edge.target⟩ }

/-- The first queue on the way is the one that the request waits in. -/
def Plan.crossQueue (p : Plan) (node : Node) (outs : List Edge) : Plan :=
  match node.config with
  | .queue _ spillEdge =>
    if p.spec.isSome then p
    else { p with spec := some ⟨node.id, (byId outs spillEdge).map Edge.target⟩ }
  | _ => p

/-- `output_id_of_ref(_main_to) or _main_to` -/
def skippedName (main : Ref) : Text := (outputIdOfRef main).getD main.text

/-- What a backup node on the way leaves: the exit for a replay, and whether main was skipped. -/
def Plan.crossOnError (p : Plan) (node : Node) (outs : List Edge) (next : Ref) : Plan :=
  match node.config with
  | .onError mainEdge rescueEdge =>
    let main := (byId outs mainEdge).or (outs.find? (·.id ≠ rescueEdge))
    match byId outs rescueEdge, main with
    | some rescue, some main =>
      if next = rescue.target then
        { p with
          rescueRefs := p.rescueRefs ++ [main.target]
          deadSkipped := p.deadSkipped ++ [skippedName main.target] }
      else { p with rescueRefs := p.rescueRefs ++ [rescue.target] }
    | some rescue, none => { p with rescueRefs := p.rescueRefs ++ [rescue.target] }
    | none, _ => p
  | _ => p

/-- A node that the walk crosses, with its edges and the exit taken. -/
structure Crossing where
  node : Node
  outs : List Edge
  next : Ref

def Plan.cross (p : Plan) (x : Crossing) : Plan :=
  (p.crossQueue x.node x.outs).crossOnError x.node x.outs x.next

/-- One step of `resolve_graph` from a ref that is no output: the node crossed, if it is one, and
where the walk goes on. -/
def follow (cur : Ref) : Option (Option Crossing × Ref) :=
  match r.graph.outgoing cur with
  | [] => none
  | first :: outs =>
    match cur with
    | .rule id =>
      (r.graph.node id).map fun node =>
        let next := evalRuleNode r c (chainExitId r c) node first (first :: outs)
        (some ⟨node, first :: outs, next⟩, next)
    | _ => some (none, first.target)

/-- The loop of `resolve_graph`, with the steps left, the refs visited and the plan so far. -/
def walk : ℕ → List Ref → Plan → Ref → Option Output × Plan
  | 0, _, p, _ => (none, p)
  | fuel + 1, visited, p, cur =>
    match cur with
    | .out id => (r.output id, p.attach r.graph (r.output id))
    | _ =>
      if cur ∈ visited then (none, p)
      else
        match follow r c cur with
        | none => (none, p)
        | some (crossed, next) =>
          walk fuel (cur :: visited) (crossed.elim p p.cross) next

/-- `resolve_graph` from a ref; none where the legacy rules decide. -/
def resolveGraph (start : Ref) : Option Output × Plan :=
  if r.graph.edges = [] then (none, Plan.start) else walk r c 64 [] Plan.start start

end Eval

end Routing
