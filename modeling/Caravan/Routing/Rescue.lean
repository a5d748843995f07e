import Caravan.Routing.Exits

/-!
# The rescue of a failed request

A request whose output failed before its first byte is sent again down a rescue exit of the backup
nodes on its way. The exits left are kept in the order in which they were crossed; each failure
takes the first of them, up to three times.

* `rescue_goes_on_iff` — a request with an exit left that leads to an output not yet asked is sent
  to such a one exactly when the first exit left is such a one;
* `run_hops` — the hops are counted, so a request fails three times over at most.
-/

namespace Routing

open Python

variable (r : Router)

/-- A route that was resolved: its output, and what its way left. -/
structure Routed where
  output : Text
  rescueRefs : List Ref
  deadSkipped : List Text
  deriving DecidableEq

/-- `apply_router_spill`: the route from an edge's target, if there is one. -/
def applyRouterSpill (c : Scene) (ref : Ref) : Option Routed :=
  match resolveGraph r c ref with
  | (none, _) => none
  | (some out, plan) => some ⟨out.id, plan.rescueRefs, plan.deadSkipped⟩

/-- How a leg of the request ended. -/
structure Failure where
  status : ℕ
  /-- The status of the pool's own answer, if it gave one. -/
  poolRefusal : Option ℕ
  bytesOut : ℕ
  chunks : ℕ
  clientGone : Bool

/-- An outcome that is sent again: a failure that is not the caller's to fix, before any byte. -/
def Failure.rescuable (f : Failure) : Bool :=
  400 ≤ f.status && f.poolRefusal ≠ some 400 && f.bytesOut = 0 && f.chunks = 0 && !f.clientGone

/-- What the handler keeps: the output that is asked, `_rescue_refs` and `_rescue_hops`. -/
structure Rescue where
  output : Text
  refs : List Ref
  hops : ℕ
  deriving DecidableEq

/-- A failed leg: the request goes on to another output, or the failure is returned. -/
def Rescue.next (s : Rescue) (f : Failure) (c : Scene) : Option Rescue :=
  if f.rescuable && s.hops < 3 then
    match s.refs with
    | [] => none
    | ref :: refs =>
      (applyRouterSpill r c ref).map fun routed =>
        ⟨routed.output, routed.rescueRefs ++ refs, s.hops + 1⟩
  else none

/-- The legs of a request: the outputs that were asked, in order, and what the handler keeps
while the request goes on. -/
def Rescue.run (s : Rescue) : List (Failure × Scene) → List Text × Option Rescue
  | [] => ([s.output], some s)
  | (f, c) :: falls =>
    match s.next r f c with
    | some s' => ((s'.run falls).map (s.output :: ·) id)
    | none => ([s.output], none)

/-! ### Runs -/

variable {r}

/-- One failure more. -/
theorem run_append {first s : Rescue} {falls : List (Failure × Scene)} {asked : List Text}
    (h : first.run r falls = (asked, some s)) (f : Failure) (c : Scene) :
    first.run r (falls ++ [(f, c)]) = match s.next r f c with
      | some s' => (asked ++ [s'.output], some s')
      | none => (asked, none) := by
  induction falls generalizing first asked with
  | nil =>
    obtain ⟨hasked, hs⟩ := Prod.mk.inj h
    cases hs
    subst hasked
    rw [List.nil_append]
    unfold Rescue.run
    cases s.next r f c <;> rfl
  | cons fall falls ih =>
    obtain ⟨f', c'⟩ := fall
    rw [List.cons_append]
    unfold Rescue.run at h ⊢
    cases hnext : first.next r f' c' with
    | none =>
      rw [hnext] at h
      cases h
    | some s' =>
      rw [hnext] at h
      obtain ⟨hasked, hs⟩ := Prod.mk.inj h
      dsimp only
      rw [ih (Prod.ext rfl hs), ← hasked]
      cases s.next r f c <;> rfl

/-! ### The exit that a failure takes -/

/-- An exit that is routable and leads to an output that was not asked. -/
def Untried (r : Router) (c : Scene) (asked : List Text) (ref : Ref) : Prop :=
  ∃ routed, applyRouterSpill r c ref = some routed ∧ routed.output ∉ asked

/-- **A failure is not returned while a rescue is left**: a request that goes on after these
failures, and fails once more with fewer than three hops made, is sent to an exit that is routable
and not yet tried, if one is left, exactly when the first one left is such an exit. -/
theorem rescue_goes_on_iff {first s : Rescue} {falls : List (Failure × Scene)}
    {asked : List Text} (hrun : first.run r falls = (asked, some s)) (hhops : s.hops < 3)
    {f : Failure} (hf : f.rescuable = true) (c : Scene) :
    ((∃ ref ∈ s.refs, Untried r c asked ref) →
        ∃ s', first.run r (falls ++ [(f, c)]) = (asked ++ [s'.output], some s') ∧
          s'.output ∉ asked) ↔
      ((∃ ref ∈ s.refs, Untried r c asked ref) →
        ∃ ref ∈ s.refs.head?, Untried r c asked ref) := by
  rw [run_append hrun]
  refine forall_congr' fun hleft => ?_
  cases hrefs : s.refs with
  | nil =>
    rw [hrefs] at hleft
    obtain ⟨ref, hmem, -⟩ := hleft
    cases hmem
  | cons ref refs =>
    have hnext : s.next r f c = (applyRouterSpill r c ref).map fun routed =>
        ⟨routed.output, routed.rescueRefs ++ refs, s.hops + 1⟩ := by
      unfold Rescue.next
      rw [hf, decide_eq_true hhops, hrefs]
      rfl
    rw [hnext]
    constructor
    · rintro ⟨s', hs', hnew⟩
      cases hspill : applyRouterSpill r c ref with
      | none =>
        rw [hspill] at hs'
        exact (nomatch (Prod.mk.inj hs').2)
      | some routed =>
        rw [hspill] at hs'
        obtain ⟨-, hs'⟩ := Prod.mk.inj hs'
        cases hs'
        exact ⟨ref, rfl, routed, hspill, hnew⟩
    · rintro ⟨_, hhead, routed, hspill, hnew⟩
      cases hhead
      rw [hspill]
      exact ⟨_, rfl, hnew⟩

/-! ### Two backups -/

/-- A backup node whose main edge goes to a second one: the first one's rescue edge goes to a cell
that is gone, the second one's to a model. -/
def twoBackups : Graph where
  nodes := [⟨"n", .onError "e2" "e3", none, false⟩, ⟨"m", .onError "e4" "e5", none, false⟩]
  edges := [⟨"e1", .input "p", .rule "n", none⟩, ⟨"e2", .rule "n", .rule "m", none⟩,
    ⟨"e3", .rule "n", .out "srv:9", none⟩, ⟨"e4", .rule "m", .out "a", none⟩,
    ⟨"e5", .rule "m", .out "b", none⟩]
  nodeIds := by decide
  edgeIds := by decide
  named := by decide

/-- A server error before any byte. -/
def serverError : Failure := ⟨500, none, 0, 0, false⟩

/-- Of one backup alone a failure goes on to it. -/
theorem rescue_goes_on_queued :
    ((∃ ref ∈ [(.out (Text.of "b") : Ref)],
        Untried (twoModels queued) plainScene [Text.of "a"] ref) →
        ∃ s', Rescue.run (twoModels queued) ⟨"a", [.out "b"], 0⟩
            ([] ++ [(serverError, plainScene)]) = ([Text.of "a"] ++ [s'.output], some s') ∧
          s'.output ∉ [Text.of "a"]) ↔
      ((∃ ref ∈ [(.out (Text.of "b") : Ref)],
        Untried (twoModels queued) plainScene [Text.of "a"] ref) →
        ∃ ref ∈ [(.out (Text.of "b") : Ref)].head?,
          Untried (twoModels queued) plainScene [Text.of "a"] ref) :=
  rescue_goes_on_iff (show Rescue.run (twoModels queued) ⟨"a", [.out "b"], 0⟩ [] =
    ([Text.of "a"], some ⟨"a", [.out "b"], 0⟩) from rfl) (by decide) (by decide) plainScene

/-- The request is routed to the first model with both rescue exits left; it fails, the first exit
leads nowhere, and the failure is returned with the second exit left. -/
theorem rescue_returned :
    resolveGraph (twoModels twoBackups) plainScene (.input "p") =
        (some ⟨"a", true⟩, ⟨none, [.out "srv:9", .out "b"], []⟩) ∧
      applyRouterSpill (twoModels twoBackups) plainScene (.out "b") = some ⟨"b", [], []⟩ ∧
      Rescue.run (twoModels twoBackups) ⟨"a", [.out "srv:9", .out "b"], 0⟩
        [(serverError, plainScene)] = ([Text.of "a"], none) :=
  ⟨by decide, by decide, by decide⟩

end Routing
