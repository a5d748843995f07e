import Caravan.Cloud.PoolRefs
import Caravan.Cloud.Unique
import Mathlib.Data.List.Flatten

/-!
# What a deleted pool leaves behind

Each router's references to its outputs, in one list (`Router.refs`), are what `rewrite` and `drop`
are compared with. A pool that the routers hold is deleted with a target or with a cut: with a
target each reference that names the pool names the target, and no other changes; with a cut they
go, with the cables at their other ends. Where the routers do not hold it, what may name it still
is the default in reserve, which waits for an output that is away. No client is cabled to it then,
and no set holds it (`delete_leaves`).

An agent's own cloud route is a pin, and stays (`pin_stays`).
-/

namespace PoolRefs

open Python Cloud

/-! ### The references of a router -/

/-- Where a router names an output. -/
inductive Place
  | rule (k : RuleKey)
  | row (k : ListKey) (others : Dict)
  | failover
  | cable (edge : Text) (isTarget : Bool)
  | queue (node : Text)

structure Reference where
  place : Place
  output : Text

def Reference.map (f : Text → Text) (ref : Reference) : Reference :=
  { ref with output := f ref.output }

/-- The outputs at the two ends of an edge. -/
def Edge.refs (e : Edge) : List Reference :=
  (outputAt e.source).toList.map (Reference.mk (.cable e.id false)) ++
    (outputAt e.target).toList.map (Reference.mk (.cable e.id true))

namespace Router

def ruleRefs (r : Router) : List Reference :=
  RULE_KEYS.flatMap fun k => (r.rules.named k).toList.map (Reference.mk (.rule k))

def rowRefs (r : Router) : List Reference :=
  RULE_LISTS.flatMap fun k =>
    (r.rules.rows k).map fun row => ⟨.row k row.others, row.output⟩

def failoverRefs (r : Router) : List Reference := r.rules.failover.map (Reference.mk .failover)

def edgeRefs (r : Router) : List Reference := r.edges.flatMap Edge.refs

def queueRefs (r : Router) : List Reference :=
  r.modelQueues.map fun n => ⟨.queue n.id, n.modelOutputId⟩

/-- **Everything that names an output** in a router. -/
def refs (r : Router) : List Reference :=
  r.ruleRefs ++ r.rowRefs ++ r.failoverRefs ++ r.edgeRefs ++ r.queueRefs

/-- What goes with an output that is cut: what names it, the cables that end at it or leave a
queue of its own, and these queues. -/
inductive GoesWith (r : Router) (output : Text) (ref : Reference) : Prop
  | names (h : ref.output = output)
  | cable (e : Edge) (he : e ∈ r.edges) (h : r.goesWith output e = true) (href : ref ∈ e.refs)
  | queue (id : Text) (h : id ∈ r.owned output) (href : ref.place = .queue id)

/-- What may name an output that is not held: the default in reserve, and a model's own queue, with
its main edge. -/
inductive Waits (r : Router) (ref : Reference) : Prop
  | reserve (h : ref.place = .rule .dormantDefault)
  | main (e : Edge) (he : e ∈ r.edges) (h : r.isInternal e = true) (href : ref ∈ e.refs)
  | queue (n : Node) (h : n ∈ r.modelQueues) (href : ref.place = .queue n.id)

end Router

/-! ### The ends of an edge -/

theorem outputAt_edge (t : Text) : outputAt (EDGE_PREFIX ++ t) = some t := by
  unfold outputAt
  rw [if_pos (List.isPrefixOf_iff_prefix.mpr (List.prefix_append _ _)), List.drop_left]

theorem outputAt_eq_some {ref t : Text} (h : outputAt ref = some t) : ref = EDGE_PREFIX ++ t := by
  unfold outputAt at h
  split at h
  · next hp =>
    obtain rfl := Option.some.inj h
    exact (List.prefix_iff_eq_append.mp (List.isPrefixOf_iff_prefix.mp hp)).symm
  · cases h

theorem outputAt_renamedEnd (f : Text → Text) (ref : Text) :
    outputAt (Router.renamedEnd f ref) = (outputAt ref).map f := by
  unfold Router.renamedEnd
  split
  · next h => rw [h]; rfl
  · next t h => rw [outputAt_edge, h]; rfl

theorem mem_edge_refs {e : Edge} {ref : Reference} (h : ref ∈ e.refs) :
    e.source = EDGE_PREFIX ++ ref.output ∨ e.target = EDGE_PREFIX ++ ref.output := by
  unfold Edge.refs at h
  rw [List.mem_append, List.mem_map, List.mem_map] at h
  rcases h with ⟨t, ht, rfl⟩ | ⟨t, ht, rfl⟩
  · exact .inl (outputAt_eq_some (Option.mem_toList.mp ht))
  · exact .inr (outputAt_eq_some (Option.mem_toList.mp ht))

/-! ### Named anew -/

section Rewrite

variable {f : Text → Text} (hf : ∀ v, f v = [] ↔ v = [])

theorem map_refs (l : List Text) (place : Place) :
    (l.map f).map (Reference.mk place) = (l.map (Reference.mk place)).map (Reference.map f) := by
  rw [List.map_map, List.map_map]
  rfl

include hf

theorem renamed_eq : Router.renamed f = f := by
  funext v
  unfold Router.renamed
  split
  · next h => exact ((hf v).mpr h).symm
  · rfl

/-- A model's queue is one still. -/
theorem isModelQueue_rewrite : Node.isModelQueue ∘ Node.rewrite f = Node.isModelQueue := by
  funext n
  rw [Function.comp_apply]
  unfold Node.rewrite
  split
  · next h =>
    rw [h]
    unfold Node.isModelQueue at h ⊢
    rw [decide_eq_true_iff] at h ⊢
    exact ⟨h.1, fun hv => h.2 ((hf _).mp hv)⟩
  · rfl

/-- A router's references after `rewrite` are those before, named anew. -/
theorem refs_rewrite (r : Router) : (r.rewrite f).refs = r.refs.map (Reference.map f) := by
  have hrules : (r.rewrite f).ruleRefs = r.ruleRefs.map (Reference.map f) := by
    unfold Router.ruleRefs
    rw [List.map_flatMap]
    refine List.flatMap_congr fun k _ => ?_
    show ((r.rules.named k).map (Router.renamed f)).toList.map _ = _
    rw [renamed_eq hf, ← map_refs, Option.toList_map]
  have hrows : (r.rewrite f).rowRefs = r.rowRefs.map (Reference.map f) := by
    unfold Router.rowRefs
    rw [List.map_flatMap]
    refine List.flatMap_congr fun k _ => ?_
    show List.map _ ((r.rules.rows k).map fun row =>
      { row with output := Router.renamed f row.output }) = _
    rw [List.map_map, List.map_map, renamed_eq hf]
    rfl
  have hfailover : (r.rewrite f).failoverRefs = r.failoverRefs.map (Reference.map f) :=
    map_refs r.rules.failover .failover
  have hedges : (r.rewrite f).edgeRefs = r.edgeRefs.map (Reference.map f) := by
    unfold Router.edgeRefs
    rw [List.map_flatMap]
    show (r.edges.map _).flatMap Edge.refs = _
    rw [List.flatMap_map]
    refine List.flatMap_congr fun e _ => ?_
    unfold Edge.refs
    dsimp only
    rw [outputAt_renamedEnd, outputAt_renamedEnd, Option.toList_map, Option.toList_map, map_refs,
      map_refs, List.map_append]
  have hqueues : (r.rewrite f).queueRefs = r.queueRefs.map (Reference.map f) := by
    unfold Router.queueRefs Router.modelQueues
    show ((r.nodes.map (Node.rewrite f)).filter Node.isModelQueue).map _ = _
    rw [List.filter_map, isModelQueue_rewrite hf, List.map_map, List.map_map]
    refine List.map_congr_left fun n hn => ?_
    unfold Node.rewrite
    simp only [Function.comp_apply]
    rw [if_pos (List.mem_filter.mp hn).2]
    rfl
  unfold Router.refs
  rw [hrules, hrows, hfailover, hedges, hqueues]
  simp only [List.map_append]

end Rewrite

/-! ### Dropped -/

section Drop

variable {r : Router} {output : Text} {ref : Reference}

theorem mem_refs : ref ∈ r.refs ↔ ref ∈ r.ruleRefs ∨ ref ∈ r.rowRefs ∨ ref ∈ r.failoverRefs ∨
    ref ∈ r.edgeRefs ∨ ref ∈ r.queueRefs := by
  unfold Router.refs
  rw [List.mem_append, List.mem_append, List.mem_append, List.mem_append, or_assoc, or_assoc,
    or_assoc]

/-- What `drop` leaves was there. -/
theorem refs_drop_sublist (r : Router) (output : Text) :
    (r.drop output).refs.Sublist r.refs := by
  have hrules : (r.drop output).ruleRefs.Sublist r.ruleRefs := by
    refine List.Sublist.flatMap_right _ fun k _ => ?_
    show List.Sublist ((if r.rules.named k = some output then none
      else r.rules.named k).toList.map _) _
    split
    · exact List.nil_sublist _
    · exact List.Sublist.refl _
  have hrows : (r.drop output).rowRefs.Sublist r.rowRefs :=
    List.Sublist.flatMap_right _ fun k _ => List.filter_sublist.map _
  have hfailover : (r.drop output).failoverRefs.Sublist r.failoverRefs :=
    List.filter_sublist.map _
  have hedges : (r.drop output).edgeRefs.Sublist r.edgeRefs :=
    List.filter_sublist.flatMap _
  have hqueues : (r.drop output).queueRefs.Sublist r.queueRefs :=
    (List.filter_sublist.filter _).map _
  exact (((hrules.append hrows).append hfailover).append hedges).append hqueues

/-- None of it names the output. -/
theorem refs_drop_ne (h : ref ∈ (r.drop output).refs) : ref.output ≠ output := by
  rcases mem_refs.mp h with h | h | h | h | h
  · obtain ⟨k, -, hk⟩ := List.mem_flatMap.mp h
    obtain ⟨v, hv, rfl⟩ := List.mem_map.mp hk
    have hv' := Option.mem_toList.mp hv
    intro heq
    change (if r.rules.named k = some output then none else r.rules.named k) = some v at hv'
    split at hv'
    · cases hv'
    · next hne => exact hne (hv'.trans (congrArg some heq))
  · obtain ⟨k, -, hk⟩ := List.mem_flatMap.mp h
    obtain ⟨row, hrow, rfl⟩ := List.mem_map.mp hk
    exact of_decide_eq_true (List.mem_filter.mp hrow).2
  · obtain ⟨v, hv, rfl⟩ := List.mem_map.mp h
    exact of_decide_eq_true (List.mem_filter.mp hv).2
  · obtain ⟨e, he, hrefs⟩ := List.mem_flatMap.mp h
    have hkept := of_decide_eq_true (List.mem_filter.mp he).2
    rintro rfl
    refine hkept (decide_eq_true ?_)
    rcases mem_edge_refs hrefs with hend | hend
    · exact .inl hend
    · exact .inr (.inl hend)
  · obtain ⟨n, hn, rfl⟩ := List.mem_map.mp h
    obtain ⟨hn, hqueue⟩ := List.mem_filter.mp hn
    obtain ⟨hn, hkept⟩ := List.mem_filter.mp hn
    -- a queue of the output's own is one that goes
    intro heq
    refine of_decide_eq_true hkept (List.mem_map.mpr ⟨n, ?_, rfl⟩)
    exact List.mem_filter.mpr ⟨List.mem_filter.mpr ⟨hn, hqueue⟩, decide_eq_true heq⟩

/-- What `drop` takes away goes with the output. -/
theorem refs_drop_gone (h : ref ∈ r.refs) (hgone : ref ∉ (r.drop output).refs) :
    r.GoesWith output ref := by
  by_cases hname : ref.output = output
  · exact .names hname
  rcases mem_refs.mp h with h | h | h | h | h
  · refine absurd (mem_refs.mpr (.inl ?_)) hgone
    obtain ⟨k, hk, hrule⟩ := List.mem_flatMap.mp h
    refine List.mem_flatMap.mpr ⟨k, hk, ?_⟩
    obtain ⟨v, hv, rfl⟩ := List.mem_map.mp hrule
    have hne : r.rules.named k ≠ some output := fun heq =>
      hname (Option.some.inj ((Option.mem_toList.mp hv).symm.trans heq))
    show _ ∈ (if r.rules.named k = some output then none else r.rules.named k).toList.map _
    rw [if_neg hne]
    exact List.mem_map.mpr ⟨v, hv, rfl⟩
  · refine absurd (mem_refs.mpr (.inr (.inl ?_))) hgone
    obtain ⟨k, hk, hrows⟩ := List.mem_flatMap.mp h
    refine List.mem_flatMap.mpr ⟨k, hk, ?_⟩
    obtain ⟨row, hrow, rfl⟩ := List.mem_map.mp hrows
    exact List.mem_map.mpr ⟨row, List.mem_filter.mpr ⟨hrow, decide_eq_true hname⟩, rfl⟩
  · refine absurd (mem_refs.mpr (.inr (.inr (.inl ?_)))) hgone
    obtain ⟨v, hv, rfl⟩ := List.mem_map.mp h
    exact List.mem_map.mpr ⟨v, List.mem_filter.mpr ⟨hv, decide_eq_true hname⟩, rfl⟩
  · obtain ⟨e, he, hrefs⟩ := List.mem_flatMap.mp h
    by_cases hgoes : r.goesWith output e = true
    · exact .cable e he hgoes hrefs
    · refine absurd (mem_refs.mpr (.inr (.inr (.inr (.inl ?_))))) hgone
      exact List.mem_flatMap.mpr ⟨e, List.mem_filter.mpr ⟨he, decide_eq_true hgoes⟩, hrefs⟩
  · obtain ⟨n, hn, rfl⟩ := List.mem_map.mp h
    by_cases howned : n.id ∈ r.owned output
    · exact .queue n.id howned rfl
    · refine absurd (mem_refs.mpr (.inr (.inr (.inr (.inr ?_))))) hgone
      obtain ⟨hn, hqueue⟩ := List.mem_filter.mp hn
      refine List.mem_map.mpr ⟨n, List.mem_filter.mpr ⟨?_, hqueue⟩, rfl⟩
      exact List.mem_filter.mpr ⟨hn, decide_eq_true howned⟩

end Drop

/-! ### Not held -/

section Held

variable {p : Payload} {r : Router} {poolId : Text}

/-- A fold that appends leaves nothing where it appends nothing at any turn. -/
theorem eq_nil_of_foldl_append {α β : Type} (g : List β → α → List β) (l : List α) (acc : List β)
    (h : l.foldl (fun acc a => acc ++ g acc a) acc = []) : acc = [] ∧ ∀ a ∈ l, g [] a = [] := by
  induction l generalizing acc with
  | nil => exact ⟨h, fun _ ha => nomatch ha⟩
  | cons a l ih =>
    obtain ⟨hnil, hl⟩ := ih _ h
    obtain ⟨rfl, hg⟩ := List.append_eq_nil_iff.mp hnil
    exact ⟨rfl, List.forall_mem_cons.mpr ⟨hg, hl⟩⟩

theorem not_holding (h : p.heldRules (outputOf poolId) = []) (hr : r ∈ p.routers) {k : Text}
    (hk : k ∈ r.rulesNaming (outputOf poolId)) : k ∉ HOLDING_RULES := by
  have hnil := (eq_nil_of_foldl_append (fun rules (r : Router) =>
    (r.rulesNaming (outputOf poolId)).filter fun k => k ∈ HOLDING_RULES ∧ k ∉ rules) _ _ h).2 r hr
  intro hholding
  have hmem : k ∈ (r.rulesNaming (outputOf poolId)).filter
      fun k => k ∈ HOLDING_RULES ∧ k ∉ ([] : List Text) :=
    List.mem_filter.mpr ⟨hk, decide_eq_true ⟨hholding, List.not_mem_nil⟩⟩
  rw [hnil] at hmem
  exact nomatch hmem

/-- **What no router holds** is named by the default in reserve alone, and by a queue of its own. -/
theorem waits_of_not_held (hcables : (p.held poolId).1 = 0) (hrules : (p.held poolId).2 = [])
    (hr : r ∈ p.routers) {ref : Reference} (href : ref ∈ r.refs)
    (hname : ref.output = outputOf poolId) : r.Waits ref := by
  rcases mem_refs.mp href with h | h | h | h | h
  · obtain ⟨k, hk, hrule⟩ := List.mem_flatMap.mp h
    obtain ⟨v, hv, rfl⟩ := List.mem_map.mp hrule
    have hnamed : (r.rules.named k).getD [] = outputOf poolId := by
      rw [Option.mem_toList.mp hv]
      exact hname
    have hmem : k.text ∈ r.rulesNaming (outputOf poolId) := by
      refine List.mem_append_left _ (List.mem_append_left _ (List.mem_map.mpr ⟨k, ?_, rfl⟩))
      exact List.mem_filter.mpr ⟨hk, decide_eq_true hnamed⟩
    have hnot := not_holding hrules hr hmem
    cases k with
    | dormantDefault => exact .reserve rfl
    | default => exact absurd (by decide) hnot
    | audioOutput => exact absurd (by decide) hnot
    | embeddingsOutput => exact absurd (by decide) hnot
  · obtain ⟨k, hk, hrows⟩ := List.mem_flatMap.mp h
    obtain ⟨row, hrow, rfl⟩ := List.mem_map.mp hrows
    have hmem : k.text ∈ r.rulesNaming (outputOf poolId) := by
      refine List.mem_append_left _ (List.mem_append_right _ (List.mem_map.mpr ⟨k, ?_, rfl⟩))
      exact List.mem_filter.mpr ⟨hk, List.any_eq_true.mpr ⟨row, hrow, decide_eq_true hname⟩⟩
    have hnot := not_holding hrules hr hmem
    cases k with
    | schedule => exact absurd (by decide) hnot
    | bySource => exact absurd (by decide) hnot
  · obtain ⟨v, hv, rfl⟩ := List.mem_map.mp h
    have hmem : FAILOVER ∈ r.rulesNaming (outputOf poolId) := by
      refine List.mem_append_right _ ?_
      rw [if_pos (show outputOf poolId ∈ r.rules.failover from hname ▸ hv)]
      exact List.mem_singleton_self _
    exact absurd (by decide) (not_holding hrules hr hmem)
  · obtain ⟨e, he, hrefs⟩ := List.mem_flatMap.mp h
    by_cases hinternal : r.isInternal e = true
    · exact .main e he hinternal hrefs
    · -- a cable into the pool would hold it
      have hzero : (r.edgesTouching (outputOf poolId)).length = 0 :=
        List.sum_eq_zero_iff_forall_eq_nat.mp hcables _ (List.mem_map.mpr ⟨r, hr, rfl⟩)
      have hmem : e ∈ r.edgesTouching (outputOf poolId) :=
        List.mem_filter.mpr ⟨he, decide_eq_true ⟨hinternal, hname ▸ mem_edge_refs hrefs⟩⟩
      rw [List.length_eq_zero_iff.mp hzero] at hmem
      exact nomatch hmem
  · obtain ⟨n, hn, rfl⟩ := List.mem_map.mp h
    exact .queue n hn rfl

end Held

/-! ### A deletion -/

/-- **The cables are moved**: each reference that named the pool names the target, and the others
are as they were. -/
structure MovedTo (poolId onto : Text) (r r' : Router) : Prop where
  refs : r'.refs =
    r.refs.map (Reference.map (Payload.rename (outputOf poolId) (outputOf onto)))
  none : ∀ ref ∈ r'.refs, ref.output ≠ outputOf poolId

/-- **The cables are cut**: what is left was there and does not name the pool, and what is gone went
with it. -/
structure CutOff (poolId : Text) (r r' : Router) : Prop where
  left : r'.refs.Sublist r.refs
  none : ∀ ref ∈ r'.refs, ref.output ≠ outputOf poolId
  gone : ∀ ref ∈ r.refs, ref ∉ r'.refs → r.GoesWith (outputOf poolId) ref

/-- A route, once the pool is gone: its fallback as `f` says, and the rest as it was, but for the
pool of a client that called this one. -/
structure Route.Left (poolId : Text) (f : Text → Text) (route route' : Route) : Prop where
  kind : route'.kind = route.kind
  providerId : route'.providerId = route.providerId
  fallback : route'.cloudFallbackProviderId = f route.cloudFallbackProviderId
  others : route'.others = route.others
  none : route'.calls poolId = false
  pool : route.calls poolId = false → route'.pool = route.pool

/-- The sets, as they are read, without the pool. -/
def setsWithout (d : Doc) (poolId : Text) : List PoolSet :=
  (cleanSets d.sets).map fun s => { s with pools := s.pools.filter fun i => i ≠ poolId }

section Delete

variable {o : Outside} {d : Doc} {p : Payload} {poolId : Text} {resolution : Resolution}

theorem outputOf_ne_nil (id : Text) : outputOf id ≠ [] := by
  unfold outputOf
  exact List.append_ne_nil_of_left_ne_nil (by decide) id

theorem outputOf_injective {a b : Text} (h : outputOf a = outputOf b) : a = b :=
  List.append_cancel_left h

theorem rename_eq_nil_iff (a b v : Text) :
    Payload.rename (outputOf a) (outputOf b) v = [] ↔ v = [] := by
  unfold Payload.rename
  split
  · next h =>
    rw [h]
    exact ⟨fun hb => absurd hb (outputOf_ne_nil b), fun ha => absurd ha (outputOf_ne_nil a)⟩
  · rfl

theorem refs_withOutput (new : Text) (output : Output) (r : Router) :
    (Payload.withOutput new output r).refs = r.refs := by
  unfold Payload.withOutput
  split <;> rfl

theorem movedTo (onto : Text) (h : onto ≠ poolId) (output : Output) (r : Router) :
    MovedTo poolId onto r ((Payload.withOutput (outputOf onto) output r).rewrite
      (Payload.rename (outputOf poolId) (outputOf onto))) := by
  have hrefs := refs_rewrite (rename_eq_nil_iff poolId onto)
    (Payload.withOutput (outputOf onto) output r)
  rw [refs_withOutput] at hrefs
  refine ⟨hrefs, fun ref href heq => ?_⟩
  rw [hrefs] at href
  obtain ⟨ref, -, rfl⟩ := List.mem_map.mp href
  change Payload.rename (outputOf poolId) (outputOf onto) ref.output = outputOf poolId at heq
  unfold Payload.rename at heq
  split at heq
  · exact h (outputOf_injective heq)
  · next hne => exact hne heq

theorem cutOff (r : Router) : CutOff poolId r (r.drop (outputOf poolId)) :=
  ⟨refs_drop_sublist r _, fun _ h => refs_drop_ne h, fun _ h hgone => refs_drop_gone h hgone⟩

theorem forall₂_map {α β : Type} {R : α → β → Prop} {g : α → β} (h : ∀ a, R a (g a))
    (l : List α) : List.Forall₂ R l (l.map g) := by
  induction l with
  | nil => exact .nil
  | cons a l ih => exact .cons (h a) ih

theorem uncable_left (hid : poolId ≠ []) (f : Text → Text) (g : Route → Route)
    (hg : ∀ route, g route = { route with
      cloudFallbackProviderId := f route.cloudFallbackProviderId }) (routes : List Route) :
    List.Forall₂ (Route.Left poolId f) routes (uncable (routes.map g) poolId) := by
  unfold uncable
  rw [List.map_map]
  refine forall₂_map (fun route => ?_) routes
  rw [Function.comp_apply, hg]
  have hcalls : ({ route with
      cloudFallbackProviderId := f route.cloudFallbackProviderId } : Route).calls poolId =
    route.calls poolId := rfl
  rw [hcalls]
  split
  · next h =>
    refine ⟨rfl, rfl, rfl, rfl, ?_, fun hn => absurd h (hn ▸ Bool.false_ne_true)⟩
    exact decide_eq_false fun hc => hid hc.2.symm
  · next h => exact ⟨rfl, rfl, rfl, rfl, Bool.eq_false_of_not_eq_true h, fun _ => rfl⟩

theorem poolOf_ok {pool : Pool} (h : poolOf d poolId = .ok pool) :
    pool ∈ d.readPools ∧ pool.id = poolId := by
  unfold poolOf at h
  split at h
  · next hfind =>
    obtain rfl := Except.ok.inj h
    exact ⟨List.mem_of_find?_eq_some hfind, of_decide_eq_true (List.find?_some hfind :)⟩
  · cases h

theorem refuseWhen_ok {refused : Prop} [Decidable refused] {status : ℕ} {message : Text}
    (h : refuseWhen refused status message = .ok ()) : ¬ refused := by
  unfold refuseWhen at h
  split at h
  · cases h
  · assumption

/-- The three ways a deletion goes: the target there is one for, the cut, and what is not held. -/
theorem resolve_cases {pool : Pool} {done : Resolved}
    (h : resolve o d p pool resolution = .ok done) :
    (resolution.moveTo.strip ≠ pool.id ∧ ∃ target ∈ d.readPools,
        target.id = resolution.moveTo.strip ∧
        done.payload = p.move pool.id resolution.moveTo.strip (poolOutput target)) ∨
      (resolution.cut = true ∧ done.payload = p.cut pool.id) ∨
      ((p.held pool.id).1 = 0 ∧ (p.held pool.id).2 = [] ∧ done.payload = p) := by
  unfold resolve at h
  dsimp only at h
  split at h
  · split at h
    · obtain ⟨_, hself, h⟩ := Except.bind_eq_ok h
      obtain ⟨target, htarget, h⟩ := Except.bind_eq_ok h
      obtain rfl := Except.ok.inj h
      obtain ⟨hmem, hid⟩ := poolOf_ok htarget
      exact .inl ⟨refuseWhen_ok hself, target, hmem, hid, rfl⟩
    · obtain ⟨_, hcut, h⟩ := Except.bind_eq_ok h
      obtain rfl := Except.ok.inj h
      exact .inr (.inl ⟨not_not.mp (refuseWhen_ok hcut), rfl⟩)
  · next hheld =>
    obtain rfl := Except.ok.inj h
    rw [not_or, not_not, not_not] at hheld
    exact .inr (.inr ⟨hheld.1, hheld.2, rfl⟩)

/-- **A deleted pool leaves nothing that dangles**, in what its deletion hands over to be saved.
With a target, each of the routers' references that named it names the target; with a cut, they are
gone, with their cables; and no other reference is changed. Where the routers do not hold it, they
are as they were, and what names it waits. No client of an older form calls it, no route names
another pool than before but by its fallback, and no set that is read holds it, or holds another
than before. -/
theorem delete_leaves {done : Deleted} (h : delete o d p poolId resolution = .ok done) :
    ((resolution.moveTo.strip ≠ poolId ∧
        (∃ target ∈ d.readPools, target.id = resolution.moveTo.strip) ∧
        List.Forall₂ (MovedTo poolId resolution.moveTo.strip) p.routers done.payload.routers ∧
        List.Forall₂ (Route.Left poolId (Payload.rename poolId resolution.moveTo.strip)) p.routes
          done.payload.routes) ∨
      (resolution.cut = true ∧
        List.Forall₂ (CutOff poolId) p.routers done.payload.routers ∧
        List.Forall₂ (Route.Left poolId id) p.routes done.payload.routes) ∨
      (done.payload.routers = p.routers ∧
        (∀ r ∈ p.routers, ∀ ref ∈ r.refs, ref.output = outputOf poolId → r.Waits ref) ∧
        List.Forall₂ (Route.Left poolId id) p.routes done.payload.routes)) ∧
    (done.doc.sets = setsWithout d poolId ∨ cleanSets done.doc.sets = setsWithout d poolId) ∧
    (∀ s ∈ setsWithout d poolId, poolId ∉ s.pools) ∧
    done.doc = { d with
      pools := d.pools.filter fun pool => pool.id ≠ poolId, sets := done.doc.sets } := by
  unfold delete at h
  obtain ⟨pool, hpool, h⟩ := Except.bind_eq_ok h
  obtain ⟨resolved, hresolved, h⟩ := Except.bind_eq_ok h
  obtain ⟨_, -, h⟩ := Except.bind_eq_ok h
  obtain rfl := Except.ok.inj h
  obtain ⟨hmem, rfl⟩ := poolOf_ok hpool
  have hid : pool.id ≠ [] := (kept_self (readPools_kept hmem)).1
  have hsame (routes : List Route) :
      List.Forall₂ (Route.Left pool.id id) routes (uncable routes pool.id) := by
    have hleft := uncable_left hid id id (fun _ => rfl) routes
    rwa [List.map_id] at hleft
  refine ⟨?_, ?_, ?_, rfl⟩
  · rcases resolve_cases hresolved with ⟨hne, target, htarget, hto, hmove⟩ | ⟨hcut, hdone⟩ |
      ⟨hcables, hrules, hdone⟩
    · refine .inl ⟨hne, ⟨target, htarget, hto⟩, ?_, ?_⟩
      · dsimp only
        rw [hmove]
        exact forall₂_map (movedTo _ hne _) p.routers
      · dsimp only
        rw [hmove]
        refine uncable_left hid _ _ (fun route => ?_) p.routes
        unfold Payload.rename
        split
        · rfl
        · rfl
    · refine .inr (.inl ⟨hcut, ?_, ?_⟩)
      · dsimp only
        rw [hdone]
        exact forall₂_map cutOff p.routers
      · dsimp only
        rw [hdone]
        exact hsame p.routes
    · refine .inr (.inr ⟨?_, fun r hr ref href hname => ?_, ?_⟩)
      · dsimp only
        rw [hdone]
      · exact waits_of_not_held hcables hrules hr href hname
      · dsimp only
        rw [hdone]
        exact hsame p.routes
  · dsimp only
    split
    · exact .inl rfl
    · next hnone =>
      -- no set holds it, and taking it out of each changes none
      refine .inr ?_
      have hall : ∀ s ∈ cleanSets d.sets, pool.id ∉ s.pools := fun s hs hin =>
        absurd (List.mem_filter.mpr ⟨hs, decide_eq_true hin⟩)
          (by rw [not_not.mp hnone]; exact List.not_mem_nil)
      unfold setsWithout
      refine (List.map_id _).symm.trans (List.map_congr_left fun s hs => ?_)
      have hpools : s.pools.filter (fun i => i ≠ pool.id) = s.pools :=
        List.filter_eq_self.mpr fun i hi => decide_eq_true fun heq => hall s hs (heq ▸ hi)
      rw [hpools]
      rfl
  · intro s hs hin
    obtain ⟨s, -, rfl⟩ := List.mem_map.mp hs
    exact of_decide_eq_true (List.mem_filter.mp hin).2 rfl

end Delete

/-! ### Two pools -/

/-- A router whose default is an output, with another in reserve. -/
def reserving (default reserve : Text) : Router where
  id := "router:default"
  outputs := [⟨"srv:22011", []⟩]
  rules := {
    named := fun
      | .default => some default
      | .dormantDefault => some reserve
      | _ => none
    rows := fun _ => []
    failover := [] }
  nodes := []
  edges := []

def twoPools : Doc := { pools := [⟨"luna", "Luna", [], none, false, none⟩,
  ⟨"sol", "Sol", [], none, false, none⟩] }

/-- An agent whose own route is a pool. -/
def pinned (poolId : Text) : Route where
  kind := []
  pool := none
  providerId := poolId
  cloudFallbackProviderId := []

def payloadOf (default reserve : Text) : Payload :=
  ⟨[pinned "luna"], [reserving default reserve]⟩

/-- A pool that is moved onto another: the router's default follows it, and the one in reserve. -/
theorem delete_leaves_moved :
    ∃ done, delete plain twoPools (payloadOf "cb:luna" "cb:luna") "luna" ⟨"sol", false⟩ =
        .ok done ∧
      done.payload.routers ≠ (payloadOf "cb:luna" "cb:luna").routers ∧
      List.Forall₂ (MovedTo "luna" "sol") (payloadOf "cb:luna" "cb:luna").routers
        done.payload.routers := by
  have hdone : ∃ done, delete plain twoPools (payloadOf "cb:luna" "cb:luna") "luna"
      ⟨"sol", false⟩ = .ok done ∧
      done.payload.routers ≠ (payloadOf "cb:luna" "cb:luna").routers := by
    refine ⟨_, rfl, fun h => ?_⟩
    have hdefault := congrArg (fun routers => (routers.head?.map fun r : Router =>
      r.rules.named .default)) h
    exact absurd hdefault (by decide)
  obtain ⟨done, hok, hne⟩ := hdone
  refine ⟨done, hok, hne, ?_⟩
  rcases (delete_leaves hok).1 with hmoved | ⟨hcut, -⟩ | ⟨hsame, -⟩
  · exact hmoved.2.2.1
  · cases hcut
  · exact absurd hsame hne

/-- The default in reserve names a pool that nothing else names after it is gone, and so does an
agent's own route, wherever its cables went. -/
theorem pin_stays :
    (∃ done, delete plain twoPools (payloadOf "srv:22011" "cb:luna") "luna" ⟨[], true⟩ =
        .ok done ∧
      ∃ r ∈ done.payload.routers, r.rules.named .dormantDefault = some (outputOf "luna")) ∧
    ∃ done, delete plain twoPools (payloadOf "cb:luna" []) "luna" ⟨"sol", false⟩ = .ok done ∧
      ∃ route ∈ done.payload.routes, route.providerId = Text.of "luna" := by
  exact ⟨⟨_, rfl, _, List.mem_cons_self, rfl⟩, _, rfl, _, List.mem_cons_self, rfl⟩

end PoolRefs
