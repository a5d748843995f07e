import Caravan.Routing.Graph

/-!
# The exits of a walk

What `chain_exit` names in advance against what `resolve_graph` reaches, and what a walk leaves
for a replay against the way it took.

* `chain_exit_agrees` — where no verdict is dead, the output named behind an edge is the one that
  a request following the edge comes to, unless it is a question to the port;
* `rescue_disjoint_iff` — the exits left for a replay leave the output of the request out, and the
  outputs told as skipped are those passed over as dead, exactly when each backup node on the way
  is wired for it.
-/

namespace Routing

open Python

variable {r : Router} {c : Scene}

/-! ### The branches that are known in advance -/

/-- No verdict is dead now. -/
def Scene.Quiet (c : Scene) : Prop := ∀ id, c.health.dead c.now id = false

theorem takesRescue_of_quiet (hquiet : c.Quiet) (hplain : c.ctx.discovery = false)
    (exitId : Ref → Option Text) (main rescue : Ref) :
    takesRescue c exitId main rescue = false := by
  unfold takesRescue Health.nextExit
  rw [hplain, if_neg Bool.false_ne_true]
  split
  · next id _ _ _ => rw [hquiet id, Bool.false_and]
  · rfl

/-- A node that a chain is named through sends a plain request where the chain goes on. -/
theorem evalRuleNode_decidable (hquiet : c.Quiet) (hplain : c.ctx.discovery = false)
    (exitId : Ref → Option Text) {node : Node} (hnode : node.config.decidable = true)
    (first : Edge) (outs : List Edge) :
    evalRuleNode r c exitId node first outs = chainNext r c node first outs := by
  unfold chainNext
  cases hconfig : node.config with
  | queue admitEdge spillEdge =>
    unfold evalRuleNode
    rw [hconfig]
    exact Option.getD_map Edge.target first _
  | onError mainEdge rescueEdge =>
    unfold evalRuleNode
    rw [hconfig]
    dsimp only
    have hmain : ((byId outs mainEdge).map Edge.target).getD first.target =
        ((byId outs mainEdge).getD first).target := Option.getD_map Edge.target first _
    split
    · rw [takesRescue_of_quiet hquiet hplain, if_neg Bool.false_ne_true, hmain]
    · exact hmain
  | byModel | weighted | roundRobin =>
    rw [hconfig] at hnode
    cases hnode
  | grid | schedule | failover | requestType | requestSize =>
    unfold evalRuleNode
    rw [hconfig]

/-! ### A chain and a walk -/

/-- What a chain that names an output has crossed. -/
theorem chain_rule {fuel : ℕ} {seen : List Ref} {nodeId : Text} {ref : Ref}
    (h : (chain r c (fuel + 1) seen (.rule nodeId)).1 = some ref) :
    .rule nodeId ∉ seen ∧ ∃ node first outs, r.graph.node nodeId = some node ∧
      r.graph.outgoing (.rule nodeId) = first :: outs ∧ node.config.decidable = true ∧
      (chain r c fuel (.rule nodeId :: seen)
        (chainNext r c node first (first :: outs))).1 = some ref := by
  unfold chain at h
  dsimp only at h
  split at h
  · cases h
  next hseen =>
  split at h
  · cases h
  next node hnode =>
  split at h
  · cases h
  next first outs houts =>
  split at h
  · cases h
  next hdecidable =>
  exact ⟨hseen, node, first, outs, hnode, houts, by simpa using hdecidable, h⟩

theorem outputIdOfRef_eq_some {ref : Ref} {id : Text} (h : outputIdOfRef ref = some id) :
    ref = .out id ∧ id ≠ [] := by
  cases ref with
  | out id' =>
    change (if id' = [] then none else some id') = some id at h
    by_cases hid : id' = []
    · rw [if_pos hid] at h
      cases h
    · rw [if_neg hid] at h
      cases h
      exact ⟨rfl, hid⟩
  | input pid => cases h
  | rule nodeId => cases h

/-- A walk goes over a node as the chain that is named through it. -/
theorem walk_rule (hquiet : c.Quiet) (hplain : c.ctx.discovery = false) {fuel n : ℕ}
    {seen visited : List Ref} {nodeId : Text} {ref : Ref} {p : Plan}
    (h : (chain r c (fuel + 1) seen (.rule nodeId)).1 = some ref)
    (hvisited : .rule nodeId ∉ visited) :
    ∃ p' next, walk r c (n + 1) visited p (.rule nodeId) =
        walk r c n (.rule nodeId :: visited) p' next ∧
      (chain r c fuel (.rule nodeId :: seen) next).1 = some ref ∧
      (follow r c (.rule nodeId)).map Prod.snd = some next := by
  obtain ⟨-, node, first, outs, hnode, houts, hdecidable, hnext⟩ := chain_rule h
  have hfollow : follow r c (.rule nodeId) = some (some ⟨node, first :: outs,
      chainNext r c node first (first :: outs)⟩, chainNext r c node first (first :: outs)) := by
    unfold follow
    rw [houts]
    dsimp only
    rw [hnode, Option.map_some, evalRuleNode_decidable hquiet hplain _ hdecidable]
  refine ⟨p.cross ⟨node, first :: outs, chainNext r c node first (first :: outs)⟩, _, ?_, hnext,
    by rw [hfollow]; rfl⟩
  conv_lhs => unfold walk
  dsimp only
  rw [if_neg hvisited, hfollow]
  rfl

/-- **A walk along a chain** that names an output comes to it, if the walk was at no ref of the
chain before. -/
theorem walk_of_chain (hquiet : c.Quiet) (hplain : c.ctx.discovery = false) {avoid : List Ref}
    {fuel n : ℕ} {seen visited : List Ref} {cur : Ref} {id : Text} {p : Plan}
    (h : (chain r c fuel seen cur).1 = some (.out id)) (hn : fuel ≤ n)
    (hvisited : visited ⊆ avoid ++ seen)
    (havoid : ∀ v ∈ avoid, ∀ fuel seen', seen ⊆ seen' → (chain r c fuel seen' v).1 = none) :
    (walk r c n visited p cur).1 = r.output id := by
  induction fuel generalizing n seen visited cur p with
  | zero => cases h
  | succ fuel ih =>
    obtain ⟨n, rfl⟩ : ∃ m, n = m + 1 := ⟨n - 1, by omega⟩
    cases cur with
    | out id' =>
      obtain rfl : id' = id := Ref.out.inj (Option.some.inj h)
      rfl
    | input pid => cases h
    | rule nodeId =>
      have hnew : .rule nodeId ∉ visited := by
        intro hmem
        rcases List.mem_append.mp (hvisited hmem) with hmem | hmem
        · rw [havoid _ hmem _ seen (List.Subset.refl _)] at h
          cases h
        · exact (chain_rule h).1 hmem
      obtain ⟨p', next, hwalk, hnext, -⟩ := walk_rule hquiet hplain h hnew
      rw [hwalk]
      refine ih hnext (by omega) ?_ fun v hv fuel seen' hsub =>
        havoid v hv fuel seen' fun _ hx => hsub (List.mem_cons_of_mem _ hx)
      intro v hv
      rcases List.mem_cons.mp hv with rfl | hv
      · exact List.mem_append_right _ List.mem_cons_self
      · rcases List.mem_append.mp (hvisited hv) with hv | hv
        · exact List.mem_append_left _ hv
        · exact List.mem_append_right _ (List.mem_cons_of_mem _ hv)

/-- A chain that comes back to where the walk came from comes back to itself. -/
theorem chain_of_follow (hquiet : c.Quiet) (hplain : c.ctx.discovery = false)
    {source target : Text} (hfollow : (follow r c (.rule source)).map Prod.snd =
      some (.rule target)) {fuel : ℕ} {seen : List Ref} (htarget : .rule target ∈ seen) :
    (chain r c fuel seen (.rule source)).1 = none := by
  cases fuel with
  | zero => rfl
  | succ fuel =>
    by_contra hsome
    obtain ⟨ref, href⟩ := Option.ne_none_iff_exists'.mp hsome
    obtain ⟨-, next, -, hnext, hnextIs⟩ := @walk_rule r c hquiet hplain fuel 0 seen [] source ref
      Plan.start href List.not_mem_nil
    rw [hfollow] at hnextIs
    obtain rfl := Option.some.inj hnextIs
    cases fuel with
    | zero => cases hnext
    | succ fuel => exact (chain_rule hnext).1 (List.mem_cons_of_mem _ htarget)

/-- The admit edge of a queue: the one that its configuration names, or else the first. -/
def Graph.AdmitEdge (g : Graph) (node : Node) (e : Edge) : Prop :=
  ∃ admitEdge spillEdge first outs, node.config = .queue admitEdge spillEdge ∧
    g.outgoing (.rule node.id) = first :: outs ∧ (byId (first :: outs) admitEdge).getD first = e

/-- **The output named behind an edge is the one a request comes to.** Where no verdict is dead,
and unless it is a question to the port, a request that follows an edge behind which `chain_exit`
names an output is given the router's output of that id: from the edge's target, as a spill goes,
and from the queue whose admit edge it is. -/
theorem chain_exit_agrees (hquiet : c.Quiet) (hplain : c.ctx.discovery = false) {e : Edge}
    (he : e ∈ r.graph.edges) {id : Text} (hname : chainExitId r c e.target = some id) :
    (resolveGraph r c e.target).1 = r.output id ∧
      ∀ node, r.graph.node node.id = some node → r.graph.AdmitEdge node e →
        (resolveGraph r c (.rule node.id)).1 = r.output id := by
  have hedges : r.graph.edges ≠ [] := List.ne_nil_of_mem he
  obtain ⟨ref, hchain, href⟩ := Option.bind_eq_some_iff.mp hname
  obtain ⟨rfl, -⟩ := outputIdOfRef_eq_some href
  unfold resolveGraph
  rw [if_neg hedges]
  refine ⟨@walk_of_chain r c hquiet hplain [] _ _ _ _ _ _ _ hchain (by decide) (List.nil_subset _)
    fun _ h => (nomatch h), ?_⟩
  rintro node hnode ⟨admitEdge, spillEdge, first, outs, hconfig, houts, rfl⟩
  rw [if_neg hedges]
  -- the queue sends the request down its admit edge
  have hfollow : follow r c (.rule node.id) = some (some ⟨node, first :: outs,
      ((byId (first :: outs) admitEdge).getD first).target⟩,
      ((byId (first :: outs) admitEdge).getD first).target) := by
    unfold follow
    rw [houts]
    dsimp only
    rw [hnode, Option.map_some,
      evalRuleNode_decidable hquiet hplain _ (by rw [hconfig]; rfl)]
    unfold chainNext
    rw [hconfig]
  have hwalk (p : Plan) : ∃ p', walk r c 64 [] p (.rule node.id) = walk r c 63 [.rule node.id] p'
      ((byId (first :: outs) admitEdge).getD first).target := by
    conv => enter [1, p']; lhs; unfold walk
    dsimp only
    rw [if_neg List.not_mem_nil, hfollow]
    exact ⟨_, rfl⟩
  obtain ⟨p, hwalk⟩ := hwalk Plan.start
  rw [hwalk]
  generalize ((byId (first :: outs) admitEdge).getD first).target = target at *
  cases target with
  | out id' =>
    obtain rfl : id' = id := Ref.out.inj (Option.some.inj hchain)
    rfl
  | input pid => cases hchain
  | rule nodeId =>
    have hnew : (.rule nodeId : Ref) ∉ [Ref.rule node.id] := by
      intro hmem
      -- a queue that admits into itself has no chain
      obtain rfl : nodeId = node.id := Ref.rule.inj (List.mem_singleton.mp hmem)
      obtain ⟨-, next, -, hnext, hnextIs⟩ := @walk_rule r c hquiet hplain 7 0 [] [] node.id _
        Plan.start hchain List.not_mem_nil
      rw [hfollow] at hnextIs
      obtain rfl := Option.some.inj hnextIs
      exact (chain_rule hnext).1 List.mem_cons_self
    obtain ⟨p', next, hwalk', hnext, -⟩ := walk_rule (n := 62) hquiet hplain hchain hnew
    rw [hwalk']
    refine @walk_of_chain r c hquiet hplain [.rule node.id] _ _ _ _ _ _ _ hnext (by decide) ?_ ?_
    · intro v hv
      rcases List.mem_cons.mp hv with rfl | hv
      · exact List.mem_append_right _ List.mem_cons_self
      · exact List.mem_append_left _ hv
    · intro v hv fuel seen hsub
      rw [List.mem_singleton.mp hv]
      exact chain_of_follow hquiet hplain (by rw [hfollow]; rfl) (hsub List.mem_cons_self)

/-- A queue in front of a backup node, whose main edge goes to one model and whose rescue edge to
another. -/
def queued : Graph where
  nodes := [⟨"q", .queue "e2" [], none, false⟩, ⟨"n", .onError "e3" "e4", none, false⟩]
  edges := [⟨"e1", .input "p", .rule "q", none⟩, ⟨"e2", .rule "q", .rule "n", none⟩,
    ⟨"e3", .rule "n", .out "a", none⟩, ⟨"e4", .rule "n", .out "b", none⟩]
  nodeIds := by decide
  edgeIds := by decide
  named := by decide

/-- Two cloud models behind a graph. -/
def twoModels (g : Graph) : Router := ⟨g, [⟨"a", true⟩, ⟨"b", true⟩]⟩

/-- A request that asks for nothing in particular, when nothing was heard of any output. -/
def plainScene : Scene where
  ctx := ⟨[], none, false, false⟩
  health _ := none
  now := 1000
  localtime := ⟨0, 0, 0⟩
  hasCapacity _ := true
  lower := id
  fnmatch _ _ := false
  uniform _ _ := 0
  cursor _ := 0

theorem chain_exit_agrees_queued :
    (resolveGraph (twoModels queued) plainScene (.rule "n")).1 =
        (twoModels queued).output (Text.of "a") ∧
      ∀ node, queued.node node.id = some node →
        queued.AdmitEdge node ⟨"e2", .rule "q", .rule "n", none⟩ →
        (resolveGraph (twoModels queued) plainScene (.rule node.id)).1 =
          (twoModels queued).output (Text.of "a") :=
  @chain_exit_agrees (twoModels queued) plainScene (fun _ => rfl) rfl
    ⟨"e2", .rule "q", .rule "n", none⟩ (by decide) (Text.of "a") (by decide)

/-- A question to the port, when the second model has answered and the first said nothing yet. -/
def question : Scene :=
  { plainScene with
    ctx := ⟨[], none, false, true⟩
    health := fun id => if id = Text.of "b" then some ⟨true, 990, some 990⟩ else none }

/-- A question is led to the exit that answers, which is not the one that the chain is named by. -/
theorem chain_exit_question :
    question.Quiet ∧ (⟨"e2", .rule "q", .rule "n", none⟩ : Edge) ∈ queued.edges ∧
      chainExitId (twoModels queued) question (.rule "n") = some (Text.of "a") ∧
      (resolveGraph (twoModels queued) question (.rule "n")).1 = some ⟨"b", true⟩ := by
  refine ⟨fun id => ?_, by decide, by decide, by decide⟩
  unfold Health.dead question
  dsimp only
  split
  · rfl
  · rfl

/-! ### What is left for a replay -/

/-- The main exit that a backup node is read with: its main edge, or else its first. -/
def mainExit (outs : List Edge) (mainEdge : Text) : Option Ref :=
  ((byId outs mainEdge).or outs.head?).map Edge.target

namespace Crossing

/-- What the crossing of a backup node adds to `rescueRefs`. -/
def rescueRef (x : Crossing) : Option Ref :=
  match x.node.config with
  | .onError mainEdge rescueEdge =>
    (byId x.outs rescueEdge).map fun rescue =>
      match (byId x.outs mainEdge).or (x.outs.find? (·.id ≠ rescueEdge)) with
      | some main => if x.next = rescue.target then main.target else rescue.target
      | none => rescue.target
  | _ => none

/-- What it adds to `deadSkipped`. -/
def skipped (x : Crossing) : Option Text :=
  match x.node.config with
  | .onError mainEdge rescueEdge =>
    (byId x.outs rescueEdge).bind fun rescue =>
      ((byId x.outs mainEdge).or (x.outs.find? (·.id ≠ rescueEdge))).bind fun main =>
        if x.next = rescue.target then some (skippedName main.target) else none
  | _ => none

/-- The output that a backup node passes over for its verdict: its main exit leads to it, the
backup is taken in its place, and the verdict on it is dead. -/
def passedOver (r : Router) (c : Scene) (x : Crossing) : Option Text :=
  match x.node.config with
  | .onError mainEdge rescueEdge =>
    (byId x.outs rescueEdge).bind fun rescue =>
      (mainExit x.outs mainEdge).bind fun main =>
        if takesRescue c (chainExitId r c) main rescue.target then
          (chainExitId r c main).filter (c.health.dead c.now)
        else none
  | _ => none

end Crossing

section Way

variable (r : Router) (c : Scene)

/-- The nodes that a walk crosses, with the steps left and the refs visited. -/
def wayFrom : ℕ → List Ref → Ref → List Crossing
  | 0, _, _ => []
  | fuel + 1, visited, cur =>
    match cur with
    | .out _ => []
    | _ =>
      if cur ∈ visited then []
      else
        match follow r c cur with
        | none => []
        | some (crossed, next) => crossed.toList ++ wayFrom fuel (cur :: visited) next

/-- The nodes on the way of a request. -/
def way (start : Ref) : List Crossing :=
  if r.graph.edges = [] then [] else wayFrom r c 64 [] start

end Way

theorem crossQueue_refs (p : Plan) (node : Node) (outs : List Edge) :
    (p.crossQueue node outs).rescueRefs = p.rescueRefs ∧
      (p.crossQueue node outs).deadSkipped = p.deadSkipped := by
  unfold Plan.crossQueue
  split
  · split <;> exact ⟨rfl, rfl⟩
  · exact ⟨rfl, rfl⟩

theorem attach_refs (p : Plan) (g : Graph) (o : Option Output) :
    (p.attach g o).rescueRefs = p.rescueRefs ∧ (p.attach g o).deadSkipped = p.deadSkipped := by
  unfold Plan.attach
  split
  · exact ⟨rfl, rfl⟩
  · split
    · exact ⟨rfl, rfl⟩
    · split <;> exact ⟨rfl, rfl⟩

/-- A crossing adds its exit for a replay, and the name of what it skipped. -/
theorem cross_refs (p : Plan) (x : Crossing) :
    (p.cross x).rescueRefs = p.rescueRefs ++ x.rescueRef.toList ∧
      (p.cross x).deadSkipped = p.deadSkipped ++ x.skipped.toList := by
  obtain ⟨hrefs, hskipped⟩ := crossQueue_refs p x.node x.outs
  unfold Plan.cross Plan.crossOnError Crossing.rescueRef Crossing.skipped
  cases x.node.config with
  | onError mainEdge rescueEdge =>
    dsimp only
    cases byId x.outs rescueEdge with
    | none => simp [hrefs, hskipped]
    | some rescue =>
      cases (byId x.outs mainEdge).or (x.outs.find? (·.id ≠ rescueEdge)) with
      | none => simp [hrefs, hskipped]
      | some main =>
        by_cases hnext : x.next = rescue.target <;> simp [hnext, hrefs, hskipped]
  | _ => simp [hrefs, hskipped]

/-- A step of a walk from a ref that is no output. -/
theorem walk_succ (n : ℕ) (visited : List Ref) (p : Plan) {cur : Ref}
    (hcur : ∀ id, cur ≠ .out id) :
    walk r c (n + 1) visited p cur =
      if cur ∈ visited then (none, p)
      else
        match follow r c cur with
        | none => (none, p)
        | some (crossed, next) => walk r c n (cur :: visited) (crossed.elim p p.cross) next := by
  cases cur with
  | out id => exact absurd rfl (hcur id)
  | input pid => rfl
  | rule nodeId => rfl

theorem wayFrom_succ (n : ℕ) (visited : List Ref) {cur : Ref} (hcur : ∀ id, cur ≠ .out id) :
    wayFrom r c (n + 1) visited cur =
      if cur ∈ visited then []
      else
        match follow r c cur with
        | none => []
        | some (crossed, next) => crossed.toList ++ wayFrom r c n (cur :: visited) next := by
  cases cur with
  | out id => exact absurd rfl (hcur id)
  | input pid => rfl
  | rule nodeId => rfl

/-- **The plan of a walk** is what the nodes on its way add to it. -/
theorem walk_refs {n : ℕ} {visited : List Ref} {p : Plan} {cur : Ref} :
    (walk r c n visited p cur).2.rescueRefs =
        p.rescueRefs ++ (wayFrom r c n visited cur).filterMap Crossing.rescueRef ∧
      (walk r c n visited p cur).2.deadSkipped =
        p.deadSkipped ++ (wayFrom r c n visited cur).filterMap Crossing.skipped := by
  have hnil {α : Type} (l : List α) : l = l ++ [] := (List.append_nil l).symm
  induction n generalizing visited p cur with
  | zero => exact ⟨hnil _, hnil _⟩
  | succ n ih =>
    by_cases hout : ∃ id, cur = .out id
    · obtain ⟨id, rfl⟩ := hout
      obtain ⟨hrefs, hskipped⟩ := attach_refs p r.graph (r.output id)
      exact ⟨hrefs.trans (hnil _), hskipped.trans (hnil _)⟩
    rw [walk_succ n visited p (not_exists.mp hout), wayFrom_succ n visited (not_exists.mp hout)]
    by_cases hvisited : cur ∈ visited
    · rw [if_pos hvisited, if_pos hvisited]
      exact ⟨hnil _, hnil _⟩
    rw [if_neg hvisited, if_neg hvisited]
    cases hfollow : follow r c cur with
    | none => exact ⟨hnil _, hnil _⟩
    | some step =>
      obtain ⟨crossed, next⟩ := step
      cases crossed with
      | none => exact ih
      | some x =>
        obtain ⟨hrefs, hskipped⟩ := cross_refs p x
        obtain ⟨ihrefs, ihskipped⟩ := @ih (cur :: visited) (p.cross x) next
        dsimp only [Option.elim_some]
        rw [ihrefs, ihskipped, hrefs, hskipped]
        refine ⟨?_, ?_⟩
        · cases hx : x.rescueRef <;> simp [hx]
        · cases hx : x.skipped <;> simp [hx]

/-- A node on the way goes on as its branch says. -/
theorem wayFrom_next {n : ℕ} {visited : List Ref} {cur : Ref} {x : Crossing}
    (h : x ∈ wayFrom r c n visited cur) : ∃ first outs, x.outs = first :: outs ∧
      x.next = evalRuleNode r c (chainExitId r c) x.node first (first :: outs) := by
  induction n generalizing visited cur with
  | zero => cases h
  | succ n ih =>
    by_cases hout : ∃ id, cur = .out id
    · obtain ⟨id, rfl⟩ := hout
      cases h
    rw [wayFrom_succ n visited (not_exists.mp hout)] at h
    split at h
    · cases h
    cases hfollow : follow r c cur with
    | none =>
      rw [hfollow] at h
      cases h
    | some step =>
      obtain ⟨crossed, next⟩ := step
      rw [hfollow] at h
      rcases List.mem_append.mp h with hx | hx
      · obtain rfl : crossed = some x := Option.mem_toList.mp hx
        unfold follow at hfollow
        split at hfollow
        · cases hfollow
        next first outs _ =>
        split at hfollow
        · obtain ⟨node, -, hstep⟩ := Option.map_eq_some_iff.mp hfollow
          obtain ⟨hx, -⟩ := Prod.mk.inj hstep
          cases hx
          exact ⟨first, outs, rfl, rfl⟩
        · cases hfollow
      · exact ih hx

/-- Two exits alike leave no choice. -/
theorem takesRescue_self (exitId : Ref → Option Text) (ref : Ref) :
    takesRescue c exitId ref ref = false := by
  unfold takesRescue Health.discoveryExit Health.nextExit
  split
  · cases exitId ref with
    | none => rfl
    | some id => cases h : (c.health.lastWord id).2 <;> simp [h]
  · cases exitId ref with
    | none => rfl
    | some id => exact Bool.and_not_self _

/-- A backup node that leaves for a replay, and tells as skipped, what is said of it when a request
is sent to this output: its two exits differ, and the one that is not taken is not the output; a
main exit that is passed over is an output by its own name, whose verdict is dead. A node whose
rescue edge is its only one, to another node, does too. -/
def Crossing.Wired (r : Router) (c : Scene) (o : Output) (x : Crossing) : Prop :=
  match x.node.config with
  | .onError mainEdge rescueEdge =>
    ∀ rescue, byId x.outs rescueEdge = some rescue →
      ∀ main, mainExit x.outs mainEdge = some main →
        if main = rescue.target then
          byId x.outs mainEdge = none ∧ (∀ e ∈ x.outs, e.id = rescueEdge) ∧ main ≠ .out o.id
        else if takesRescue c (chainExitId r c) main rescue.target then
          main ≠ .out o.id ∧ ∃ id, chainExitId r c main = some id ∧
            c.health.dead c.now id = true ∧ skippedName main = id
        else rescue.target ≠ .out o.id
  | _ => True

theorem mainExit_cons (first : Edge) (outs : List Edge) (mainEdge : Text) :
    mainExit (first :: outs) mainEdge =
      some ((byId (first :: outs) mainEdge).getD first).target := by
  unfold mainExit
  cases byId (first :: outs) mainEdge <;> rfl

/-- Where the two exits differ, the main exit that is left for a replay is the one that the node is
read with. -/
theorem main_of_differs {first rescue : Edge} {outs : List Edge} {mainEdge rescueEdge : Text}
    (hrescue : byId (first :: outs) rescueEdge = some rescue)
    (hdiffers : ((byId (first :: outs) mainEdge).getD first).target ≠ rescue.target) :
    ((byId (first :: outs) mainEdge).or ((first :: outs).find? (·.id ≠ rescueEdge))) =
      some ((byId (first :: outs) mainEdge).getD first) := by
  cases hmain : byId (first :: outs) mainEdge with
  | some e => rfl
  | none =>
    rw [hmain] at hdiffers
    have hfirst : first.id ≠ rescueEdge := by
      intro hid
      unfold byId at hrescue
      rw [List.find?_cons, hid, decide_eq_true rfl] at hrescue
      cases hrescue
      exact hdiffers rfl
    rw [List.find?_cons, decide_eq_true hfirst]
    rfl

/-- **At one backup node**: what it leaves and tells is sound exactly when it is wired for it. -/
theorem wired_iff (o : Output) {x : Crossing} {first : Edge} {outs : List Edge}
    (houts : x.outs = first :: outs)
    (hnext : x.next = evalRuleNode r c (chainExitId r c) x.node first (first :: outs)) :
    ((x.passedOver r c).isSome → x.skipped.isSome) ∧
      ((x.rescueRef ≠ some (.out o.id) ∧ x.skipped = x.passedOver r c) ↔ x.Wired r c o) := by
  cases hconfig : x.node.config with
  | onError mainEdge rescueEdge =>
    unfold Crossing.passedOver Crossing.skipped Crossing.rescueRef Crossing.Wired
    unfold evalRuleNode at hnext
    rw [hconfig] at hnext ⊢
    dsimp only at hnext ⊢
    rw [houts, mainExit_cons]
    cases hrescue : byId (first :: outs) rescueEdge with
    | none => exact ⟨nofun, iff_of_true ⟨nofun, rfl⟩ nofun⟩
    | some rescue =>
      have hgetD : ((byId (first :: outs) mainEdge).map Edge.target).getD first.target =
          ((byId (first :: outs) mainEdge).getD first).target := Option.getD_map Edge.target first _
      rw [hrescue, hgetD] at hnext
      simp only [Option.map_some, Option.bind_some, Option.some.injEq, forall_eq'] at hnext ⊢
      by_cases hsame : ((byId (first :: outs) mainEdge).getD first).target = rescue.target
      · -- the backup is taken for the main exit
        rw [hsame, takesRescue_self, if_neg Bool.false_ne_true] at hnext
        rw [hsame, takesRescue_self, if_neg Bool.false_ne_true, if_pos rfl, hnext]
        refine ⟨nofun, ?_⟩
        cases hmain : byId (first :: outs) mainEdge with
        | some main =>
          simp
        | none =>
          cases hother : (first :: outs).find? (·.id ≠ rescueEdge) with
          | some main =>
            -- another edge is told as main, though it was not gone by
            have hne : main.id ≠ rescueEdge := by simpa using List.find?_some hother
            refine iff_of_false (fun h => ?_) fun h => ?_
            · simp at h
            · exact hne (h.2.1 main (List.mem_of_find?_eq_some hother))
          | none =>
            have honly : ∀ e ∈ first :: outs, e.id = rescueEdge := fun e he =>
              not_not.mp fun hne => List.find?_eq_none.mp hother e he (decide_eq_true hne)
            simpa using fun _ => honly
      · rw [main_of_differs hrescue hsame, if_neg hsame]
        generalize ((byId (first :: outs) mainEdge).getD first) = main at *
        simp only [Option.bind_some]
        cases htakes : takesRescue c (chainExitId r c) main.target rescue.target with
        | true =>
          rw [htakes, if_pos rfl] at hnext
          rw [if_pos hnext, if_pos hnext, if_pos rfl, if_pos rfl]
          refine ⟨fun _ => rfl, ?_⟩
          rw [@eq_comm _ (some (skippedName main.target)), Option.filter_eq_some_iff]
          refine and_congr (not_congr Option.some_inj) ⟨fun ⟨hid, hdead⟩ => ?_, ?_⟩
          · exact ⟨_, hid, hdead, rfl⟩
          · rintro ⟨id, hid, hdead, rfl⟩
            exact ⟨hid, hdead⟩
        | false =>
          rw [htakes, if_neg Bool.false_ne_true] at hnext
          have hmain : ¬ x.next = rescue.target := hnext ▸ hsame
          rw [if_neg hmain, if_neg hmain, if_neg Bool.false_ne_true, if_neg Bool.false_ne_true]
          refine ⟨nofun, ?_⟩
          rw [and_iff_left rfl]
          exact not_congr Option.some_inj
  | _ =>
    unfold Crossing.passedOver Crossing.skipped Crossing.rescueRef Crossing.Wired
    rw [hconfig]
    exact ⟨nofun, iff_of_true ⟨nofun, rfl⟩ trivial⟩

/-- Two readings of a list, where one reads something of all that the other does, agree when they
agree on each of its members. -/
theorem filterMap_eq_iff {α β : Type} {f g : α → Option β} {l : List α}
    (h : ∀ x ∈ l, (g x).isSome → (f x).isSome) :
    l.filterMap f = l.filterMap g ↔ ∀ x ∈ l, f x = g x := by
  have hlength (l : List α) (h : ∀ x ∈ l, (g x).isSome → (f x).isSome) :
      (l.filterMap g).length ≤ (l.filterMap f).length := by
    induction l with
    | nil => exact le_refl _
    | cons x rest ih =>
      have hrest := ih fun y hy => h y (List.mem_cons_of_mem _ hy)
      have hx := h x List.mem_cons_self
      cases hf : f x <;> cases hg : g x <;> simp [hf, hg] at hx ⊢ <;> omega
  refine ⟨fun heq => ?_, fun heq => List.filterMap_congr heq⟩
  induction l with
  | nil => exact fun _ hx => (nomatch hx)
  | cons x rest ih =>
    have hrest : ∀ y ∈ rest, (g y).isSome → (f y).isSome := fun y hy =>
      h y (List.mem_cons_of_mem _ hy)
    have hx := h x List.mem_cons_self
    cases hf : f x with
    | none =>
      have hg : g x = none := by
        cases hg : g x with
        | none => rfl
        | some b =>
          rw [hf, hg] at hx
          cases hx rfl
      rw [List.filterMap_cons_none hf, List.filterMap_cons_none hg] at heq
      exact List.forall_mem_cons.mpr ⟨hf.trans hg.symm, ih hrest heq⟩
    | some a =>
      cases hg : g x with
      | none =>
        -- the list would be longer by what only `f` reads
        rw [List.filterMap_cons_some hf, List.filterMap_cons_none hg] at heq
        have hlong := congrArg List.length heq
        have hshort := hlength rest hrest
        rw [List.length_cons] at hlong
        omega
      | some b =>
        rw [List.filterMap_cons_some hf, List.filterMap_cons_some hg] at heq
        obtain ⟨rfl, htail⟩ := List.cons.inj heq
        exact List.forall_mem_cons.mpr ⟨hf.trans hg.symm, ih hrest htail⟩

/-- **The exits left for a replay** never include the output that the request is sent to, and the
outputs told as skipped are those that were passed over because their verdict was dead, exactly
when each node on the way is wired for it. -/
theorem rescue_disjoint_iff (r : Router) (c : Scene) (start : Ref) (o : Output)
    (_ho : (resolveGraph r c start).1 = some o) :
    ((.out o.id ∉ (resolveGraph r c start).2.rescueRefs) ∧
        (resolveGraph r c start).2.deadSkipped =
          (way r c start).filterMap (Crossing.passedOver r c)) ↔
      ∀ x ∈ way r c start, x.Wired r c o := by
  obtain ⟨hrefs, hskipped⟩ : (resolveGraph r c start).2.rescueRefs =
        (way r c start).filterMap Crossing.rescueRef ∧
      (resolveGraph r c start).2.deadSkipped =
        (way r c start).filterMap Crossing.skipped := by
    unfold resolveGraph way
    split
    · exact ⟨rfl, rfl⟩
    · exact walk_refs
  have hwired : ∀ x ∈ way r c start, ((x.passedOver r c).isSome → x.skipped.isSome) ∧
      ((x.rescueRef ≠ some (.out o.id) ∧ x.skipped = x.passedOver r c) ↔ x.Wired r c o) := by
    intro x hx
    unfold way at hx
    split at hx
    · cases hx
    · obtain ⟨first, outs, houts, hnext⟩ := wayFrom_next hx
      exact wired_iff o houts hnext
  rw [hrefs, hskipped, filterMap_eq_iff fun x hx => (hwired x hx).1]
  constructor
  · rintro ⟨hdisjoint, htold⟩ x hx
    exact (hwired x hx).2.mp
      ⟨fun href => hdisjoint (List.mem_filterMap.mpr ⟨x, hx, href⟩), htold x hx⟩
  · intro h
    refine ⟨fun hmem => ?_, fun x hx => ((hwired x hx).2.mpr (h x hx)).2⟩
    obtain ⟨x, hx, href⟩ := List.mem_filterMap.mp hmem
    exact ((hwired x hx).2.mpr (h x hx)).1 href

theorem rescue_disjoint_iff_queued :
    ((.out (Text.of "a") ∉ (resolveGraph (twoModels queued) plainScene (.input "p")).2.rescueRefs) ∧
        (resolveGraph (twoModels queued) plainScene (.input "p")).2.deadSkipped =
          (way (twoModels queued) plainScene (.input "p")).filterMap
            (Crossing.passedOver (twoModels queued) plainScene)) ↔
      ∀ x ∈ way (twoModels queued) plainScene (.input "p"),
        x.Wired (twoModels queued) plainScene ⟨"a", true⟩ :=
  rescue_disjoint_iff (twoModels queued) plainScene (.input "p") ⟨"a", true⟩ (by decide)

/-- A backup node whose main edge was taken away. -/
def unplugged : Graph where
  nodes := [⟨"n", .onError [] "e2", none, false⟩]
  edges := [⟨"e1", .input "p", .rule "n", none⟩, ⟨"e2", .rule "n", .out "b", none⟩]
  nodeIds := by decide
  edgeIds := by decide
  named := by decide

/-- A backup node whose main edge is no edge of its own: its rescue edge is the first. -/
def crossed : Graph where
  nodes := [⟨"n", .onError [] "e2", none, false⟩]
  edges := [⟨"e1", .input "p", .rule "n", none⟩, ⟨"e2", .rule "n", .out "b", none⟩,
    ⟨"e3", .rule "n", .out "a", none⟩]
  nodeIds := by decide
  edgeIds := by decide
  named := by decide

/-- With the main edge taken away, a request is sent down the rescue edge, which is left for its
replay; and where another edge is there, its output is told as dead, of which nothing is known. -/
theorem rescue_overlaps :
    (resolveGraph (twoModels unplugged) plainScene (.input "p")).1 = some ⟨"b", true⟩ ∧
      .out (Text.of "b") ∈
        (resolveGraph (twoModels unplugged) plainScene (.input "p")).2.rescueRefs ∧
      (resolveGraph (twoModels crossed) plainScene (.input "p")).1 = some ⟨"b", true⟩ ∧
      (resolveGraph (twoModels crossed) plainScene (.input "p")).2.deadSkipped = [Text.of "a"] ∧
      plainScene.Quiet :=
  ⟨by decide, by decide, by decide, by decide, fun _ => rfl⟩

end Routing
