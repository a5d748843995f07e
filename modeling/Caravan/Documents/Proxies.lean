import Caravan.Framework.Newest
import Caravan.Python.Dict
import Caravan.Python.Except

/-!
# The graph in the proxy's document

`ProxyStore.protect_graph`, which stands before every write of `agent-proxies.json`: it copies
the file where that has graph nodes, removes the oldest copies, and puts the graphs of the file
into a payload that has none. All of it is one `try`, so a step that fails takes the later ones
with it: the graph is put back only if the file could be copied (`graph_kept_iff`). A copy stands
beside the file unless twenty copies have a later stamp (`mem_prune`).

`json.loads` is a parameter. Of a `try` nothing is left but that something was raised.
-/

namespace Documents

open Python

/-! ### What the code reads of a document -/

/-- `v.get(k)`: something that is no dictionary has no `get`. -/
def field (v : Value) (k : Text) : Except Error Value :=
  match v with
  | .dict d => .ok (Dict.get d k)
  | _ => .error .type

/-- `(v.get(k) or [])`, and what a loop over it runs through. -/
def items (v : Value) (k : Text) : Except Error (List Value) := do
  let found ← field v k
  (found.or (.list [])).iter

/-- What a router adds to the nodes. -/
def nodesOf (router : Value) : Except Error (List Value) := do
  if router.isDict then
    let graph ← field router "graph"
    items (graph.or (.dict [])) "nodes"
  else return []

/-- `ProxyStore.graph_nodes` -/
def graphNodes (payload : Value) : Except Error (List Value) := do
  let routers ← items (payload.or (.dict [])) "routers"
  let nodes ← routers.mapM nodesOf
  return nodes.flatten

/-- A number, as far as `==` tells numbers apart. -/
def numberOf : Value → Option ℚ
  | .bool b => some (if b then 1 else 0)
  | .int i => some i
  | .float (.finite neg m e) => some (if neg then -Float.size m e else Float.size m e)
  | _ => none

/-- `a == b`, of values that can be keys. -/
def same : Value → Value → Bool
  | .str s, .str t => s = t
  | .null, .null => true
  | .float (.inf neg), .float (.inf neg') => neg = neg'
  | a, b => match numberOf a, numberOf b with
    | some x, some y => x = y
    | _, _ => false

/-- A value that can be a key. -/
def hashable : Value → Bool
  | .list _ | .dict _ => false
  | _ => true

/-- A value that has to be a key. -/
def hash (v : Value) : Except Error Value := if hashable v then .ok v else .error .unhashable

/-- The routers of a document by their ids: `{r["id"]: r for r in … if r.get("id")}`. -/
def byId : List Value → Except Error (List (Value × Value))
  | [] => .ok []
  | router :: routers => do
    let id ← field router "id"
    if id.truthy then
      let id ← hash id
      return (id, router) :: (← byId routers)
    else byId routers

/-- `old_by_id[id]`, the last router with an id. -/
def lookupId (rows : List (Value × Value)) (id : Value) : Option Value :=
  (rows.reverse.find? fun row => same row.1 id).map Prod.snd

/-- The body of the loop of `protect_graph`. -/
def restore (rows : List (Value × Value)) (router : Value) : Except Error Value := do
  let graph ← field router "graph"
  let nodes ← field (graph.or (.dict [])) "nodes"
  if nodes.truthy then return router
  let id ← hash (← field router "id")
  match lookupId rows id with
  | none => return router
  | some old => do
    let was ← field old "graph"
    return .dict (router.asDict.set "graph" (was.or (graph.or (.dict []))))

/-- The loop of `protect_graph`, which changes its routers until something is raised. -/
def restoreAll (rows : List (Value × Value)) : List Value → List Value
  | [] => []
  | router :: routers => match restore rows router with
    | .ok router => router :: restoreAll rows routers
    | .error _ => router :: routers

/-! ### The directory -/

/-- The file, and the copies beside it by their stamps. -/
structure Dir where
  file : Option Text
  copies : List (Text × Text)
  names : Assoc.Distinct copies

/-- A copy is written, over the one of its name. -/
def Dir.put (dir : Dir) (stamp text : Text) : Dir where
  file := dir.file
  copies := Assoc.set dir.copies stamp text
  names := dir.names.set stamp text

/-- What goes wrong. -/
structure Luck where
  /-- The file cannot be read. -/
  read : Bool := false
  /-- The copy cannot be made, with what is left of it. -/
  copy : Option (Option Text) := none
  /-- The copies cannot be listed. -/
  list : Bool := false
  /-- Copies that cannot be removed. -/
  stuck : List Text := []

/-- `ProxyStore.backups_kept` -/
def BACKUPS_KEPT : ℕ := 20

/-- `ProxyStore.prune_backups` -/
def Dir.prune (dir : Dir) (luck : Luck) : Dir where
  file := dir.file
  copies := dir.copies.filter fun c =>
    c.1 ∉ Newest.oldest BACKUPS_KEPT (dir.copies.map Prod.fst) ∨ c.1 ∈ luck.stuck
  names := dir.names.filter _

variable (loads : Text → Option Value)

/-- The part of `protect_graph` after the copies. -/
def putBack (old payload : Value) : Except Error Value := do
  let nodes ← graphNodes payload
  if nodes ≠ [] then return payload
  let rows ← byId (← items old "routers")
  let routers ← items payload "routers"
  match payload with
  | .dict d => match Dict.get d "routers" with
    | .list _ => return .dict (Dict.set d "routers" (.list (restoreAll rows routers)))
    | _ => return payload
  | _ => return payload

/-- `ProxyStore.protect_graph` -/
def protectGraph (payload : Value) (stamp : Text) (luck : Luck) (dir : Dir) : Value × Dir :=
  match dir.file with
  | none => (payload, dir)
  | some text => if luck.read then (payload, dir) else match loads text with
    | none => (payload, dir)
    | some old => match graphNodes old with
      | .error _ | .ok [] => (payload, dir)
      | .ok (_ :: _) => match luck.copy with
        | some none => (payload, dir)
        | some (some part) => (payload, dir.put stamp part)
        | none =>
          if luck.list then (payload, dir.put stamp text)
          else ((putBack old payload).toOption.getD payload, (dir.put stamp text).prune luck)

/-! ### What a document says -/

/-- The routers of a document that has a list of them. -/
def routersOf : Value → List Value
  | .dict d => (Dict.get d "routers").asList
  | _ => []

def graphOf (router : Value) : Value := router.asDict.get "graph"

def idOf (router : Value) : Value := router.asDict.get "id"

/-- A router with graph nodes. -/
def hasNodes (router : Value) : Bool := ((graphOf router).asDict.get "nodes").truthy

/-- A document with graph nodes. -/
def HasNodes (doc : Value) : Prop := ∃ router ∈ routersOf doc, hasNodes router = true

/-- A router that has an id, a value that can be a key. -/
def named (router : Value) : Option (Value × Value) :=
  if router.isDict ∧ (idOf router).truthy ∧ hashable (idOf router) then some (idOf router, router)
  else none

/-- The router of a document that this router names. -/
def oldRouter (old router : Value) : Option Value :=
  if router.isDict then lookupId ((routersOf old).filterMap named) (idOf router) else none

/-- Each router has the graph that the old document has for it. -/
def Restored (old payload : Value) : Prop :=
  ∀ router ∈ routersOf payload, ∀ was, oldRouter old router = some was →
    (graphOf was).truthy → graphOf router = graphOf was

/-- A router whose graph is another one in the old document. -/
def Lacks (old router : Value) : Prop :=
  ∃ was, oldRouter old router = some was ∧ (graphOf was).truthy ∧ graphOf router ≠ graphOf was

/-- A router that the loop gets past. -/
def Takes (router : Value) : Prop := router.isDict = true ∧ hashable (idOf router) = true

/-! ### Small facts -/

variable {v router : Value} {k : Text} {rows : List (Value × Value)}

theorem field_ok (h : field v k = .ok w) : ∃ d : Dict, v = .dict d ∧ w = d.get k := by
  cases v with
  | dict d => exact ⟨d, rfl, (Except.ok.inj h).symm⟩
  | null | bool | int | float | str | list => exact nomatch h

theorem dict_of_isDict (h : v.isDict = true) : v = .dict v.asDict := by
  cases v with
  | dict d => rfl
  | null | bool | int | float | str | list => exact nomatch h

theorem or_of_truthy {a b : Value} (h : a.truthy = true) : a.or b = a := if_pos h

theorem or_of_not {a b : Value} (h : ¬ a.truthy = true) : a.or b = b := if_neg h

/-- What is truthy and can be run through is run through. -/
theorem iter_ne_nil {items : List Value} (h : v.truthy = true) (hi : v.iter = .ok items) :
    items ≠ [] := by
  cases v with
  | list vs =>
    obtain rfl := Except.ok.inj hi
    rintro rfl
    exact nomatch h
  | dict kvs =>
    obtain rfl := Except.ok.inj hi
    cases kvs with
    | nil => exact nomatch h
    | cons p kvs => exact List.cons_ne_nil _ _
  | str t =>
    obtain rfl := Except.ok.inj hi
    cases t with
    | nil => exact absurd h (by decide)
    | cons c t => exact List.cons_ne_nil _ _
  | null | bool | int | float => exact nomatch hi

theorem asDict_of_not (h : ¬ v.truthy = true) : v.asDict = [] := by
  cases v with
  | dict d =>
    cases d with
    | nil => rfl
    | cons p d => exact absurd rfl h
  | null | bool | int | float | str | list => rfl

theorem asList_of_not (h : ¬ v.truthy = true) : v.asList = [] := by
  cases v with
  | list vs =>
    cases vs with
    | nil => rfl
    | cons p d => exact absurd rfl h
  | null | bool | int | float | str | dict => rfl

/-- What a router is asked for its nodes says whether it has some. -/
theorem nodes_field {d : Dict} {found : Value}
    (h : field ((d.get "graph").or (.dict [])) "nodes" = .ok found) :
    found.truthy = hasNodes (.dict d) := by
  obtain ⟨g, hg, rfl⟩ := field_ok h
  unfold hasNodes graphOf
  by_cases ht : (d.get "graph").truthy = true
  · rw [or_of_truthy ht] at hg
    rw [Value.asDict, hg]
    rfl
  · rw [or_of_not ht] at hg
    cases hg
    rw [Value.asDict, asDict_of_not ht]

/-- The nodes of a router are those of its graph. -/
theorem nodesOf_nil_iff {nodes : List Value} (h : nodesOf router = .ok nodes) :
    nodes = [] ↔ hasNodes router = false := by
  unfold nodesOf at h
  split at h
  · next hdict =>
    obtain ⟨graph, hgraph, h⟩ := Except.bind_eq_ok h
    obtain ⟨d, rfl, rfl⟩ := field_ok hgraph
    obtain ⟨found, hfound, h⟩ := Except.bind_eq_ok h
    rw [← nodes_field hfound]
    by_cases ht : found.truthy = true
    · rw [or_of_truthy ht] at h
      simp [ht, iter_ne_nil ht h]
    · rw [or_of_not ht] at h
      obtain rfl := Except.ok.inj h
      simp [ht]
  · next hdict =>
    obtain rfl := Except.ok.inj h
    refine iff_of_true rfl ?_
    cases router with
    | dict d => exact absurd rfl hdict
    | null | bool | int | float | str | list => rfl

/-- The routers that are run through are the document's, where they are dictionaries. -/
theorem items_routers {routers : List Value} (h : items v "routers" = .ok routers) :
    routersOf v = routers ∨ routersOf v = [] ∧ ∀ router ∈ routers, router.isDict = false := by
  unfold items at h
  obtain ⟨found, hfound, h⟩ := Except.bind_eq_ok h
  obtain ⟨d, rfl, rfl⟩ := field_ok hfound
  unfold routersOf
  simp only
  by_cases ht : (d.get "routers").truthy = true
  · rw [or_of_truthy ht] at h
    generalize d.get "routers" = found at h
    cases found with
    | list vs => exact .inl (Except.ok.inj h)
    | dict kvs =>
      obtain rfl := Except.ok.inj h
      refine .inr ⟨rfl, fun router hr => ?_⟩
      obtain ⟨p, -, rfl⟩ := List.mem_map.mp hr
      rfl
    | str t =>
      obtain rfl := Except.ok.inj h
      refine .inr ⟨rfl, fun router hr => ?_⟩
      obtain ⟨c, -, rfl⟩ := List.mem_map.mp hr
      rfl
    | null | bool | int | float => exact nomatch h
  · rw [or_of_not ht] at h
    exact .inl ((asList_of_not ht).trans (Except.ok.inj h))

theorem routersOf_or (v : Value) : routersOf (v.or (.dict [])) = routersOf v := by
  by_cases ht : v.truthy = true
  · rw [or_of_truthy ht]
  · rw [or_of_not ht]
    cases v with
    | dict d =>
      cases d with
      | nil => rfl
      | cons p d => exact absurd rfl ht
    | null | bool | int | float | str | list => rfl

/-- **The nodes of a document**, where they can be read at all. -/
theorem graphNodes_nil_iff {doc : Value} {nodes : List Value} (h : graphNodes doc = .ok nodes) :
    nodes = [] ↔ ¬ HasNodes doc := by
  unfold graphNodes at h
  obtain ⟨routers, hrouters, h⟩ := Except.bind_eq_ok h
  obtain ⟨parts, hparts, h⟩ := Except.bind_eq_ok h
  cases h
  have hnone : parts.flatten = [] ↔ ∀ router ∈ routers, hasNodes router = false := by
    rw [List.flatten_eq_nil_iff]
    constructor
    · intro hnil router hr
      obtain ⟨part, hmem, hpart⟩ := Except.mapM_mem hparts hr
      exact (nodesOf_nil_iff hpart).mp (hnil part hmem)
    · intro hno part hmem
      obtain ⟨router, hr, hpart⟩ := Except.mem_mapM hparts hmem
      exact (nodesOf_nil_iff hpart).mpr (hno router hr)
  have hlist := items_routers hrouters
  rw [routersOf_or] at hlist
  rw [hnone]
  unfold HasNodes
  cases hlist with
  | inl he =>
    rw [he]
    simp
  | inr he =>
    rw [he.1]
    refine iff_of_true (fun router hr => ?_) (by simp)
    cases router with
    | dict d => exact nomatch he.2 _ hr
    | null | bool | int | float | str | list => rfl

/-- The rows that a document's routers are looked up in. -/
theorem byId_ok {routers : List Value} (h : byId routers = .ok rows) :
    rows = routers.filterMap named ∧ ∀ row ∈ rows, row.2.isDict = true := by
  induction routers generalizing rows with
  | nil =>
    obtain rfl := Except.ok.inj h
    exact ⟨rfl, fun _ hr => absurd hr List.not_mem_nil⟩
  | cons router routers ih =>
    rw [byId] at h
    obtain ⟨id, hid, h⟩ := Except.bind_eq_ok h
    obtain ⟨d, rfl, rfl⟩ := field_ok hid
    rw [List.filterMap_cons]
    split at h
    · next ht =>
      obtain ⟨id, hhash, h⟩ := Except.bind_eq_ok h
      obtain ⟨rest, hrest, h⟩ := Except.bind_eq_ok h
      cases h
      obtain ⟨rfl, hdicts⟩ := ih hrest
      unfold hash at hhash
      split at hhash
      · next hkey =>
        obtain rfl := Except.ok.inj hhash
        have hnamed : named (.dict d) = some (Dict.get d "id", .dict d) := if_pos ⟨rfl, ht, hkey⟩
        rw [hnamed]
        refine ⟨rfl, fun row hrow => ?_⟩
        cases List.mem_cons.mp hrow with
        | inl he => exact he ▸ rfl
        | inr hrow => exact hdicts row hrow
      · exact nomatch hhash
    · next ht =>
      have hnamed : named (.dict d) = none := if_neg fun hall => ht hall.2.1
      rw [hnamed]
      exact ih h

/-! ### The loop -/

/-- What becomes of a router without nodes. -/
def restored (rows : List (Value × Value)) (router : Value) : Value :=
  match lookupId rows (idOf router) with
  | none => router
  | some old =>
    .dict (router.asDict.set "graph" ((graphOf old).or ((graphOf router).or (.dict []))))

theorem lookupId_mem {id old : Value} (h : lookupId rows id = some old) :
    ∃ row ∈ rows, row.2 = old ∧ same row.1 id = true := by
  obtain ⟨row, hrow, rfl⟩ := Option.map_eq_some_iff.mp h
  have hsame := List.find?_some (p := fun row : Value × Value => same row.1 id) hrow
  exact ⟨row, List.mem_reverse.mp (List.mem_of_find?_eq_some hrow), rfl, hsame⟩

theorem restore_takes (hrows : ∀ row ∈ rows, row.2.isDict = true) {part : List Value}
    (hpart : nodesOf router = .ok part) (hno : hasNodes router = false) (ht : Takes router) :
    restore rows router = .ok (restored rows router) := by
  obtain ⟨hdict, hkey⟩ := ht
  obtain ⟨d, rfl⟩ : ∃ d, router = .dict d := ⟨_, dict_of_isDict hdict⟩
  obtain ⟨graph, hfield, hpart⟩ := Except.bind_eq_ok hpart
  obtain rfl := Except.ok.inj hfield
  obtain ⟨found, hfound, -⟩ := Except.bind_eq_ok hpart
  have hnodes : found.truthy = false := (nodes_field hfound).trans hno
  have hhash : hash (Dict.get d "id") = .ok (Dict.get d "id") := if_pos hkey
  unfold restore restored
  simp only [field, bind, Except.bind] at hfound ⊢
  rw [hfound]
  simp only [hnodes, Bool.false_eq_true, if_false, hhash]
  change (match lookupId rows (idOf (.dict d)) with | none => _ | some old => _) = _
  cases hold : lookupId rows (idOf (.dict d)) with
  | none => rfl
  | some old =>
    obtain ⟨row, hrow, rfl, -⟩ := lookupId_mem hold
    rw [dict_of_isDict (hrows row hrow)]
    rfl

theorem restore_stops (hno : hasNodes router = false) (ht : ¬ Takes router) :
    ∃ e, restore rows router = .error e := by
  cases router with
  | dict d =>
    have hkey : hashable (Dict.get d "id") = false :=
      Bool.eq_false_of_not_eq_true fun hkey => ht ⟨rfl, hkey⟩
    have hhash : hash (Dict.get d "id") = .error .unhashable := if_neg (by simp [hkey])
    unfold restore
    cases hfound : field ((Dict.get d "graph").or (.dict [])) "nodes" with
    | error e => exact ⟨e, by simp only [field, bind, Except.bind] at hfound ⊢; rw [hfound]⟩
    | ok found =>
      have hnodes : found.truthy = false := (nodes_field hfound).trans hno
      refine ⟨.unhashable, ?_⟩
      simp only [field, bind, Except.bind] at hfound ⊢
      rw [hfound]
      simp only [hnodes, Bool.false_eq_true, if_false, hhash]
  | null | bool | int | float | str | list => exact ⟨.type, rfl⟩

/-- **How far the loop gets**: up to the first router it cannot take. -/
theorem restoreAll_split (hrows : ∀ row ∈ rows, row.2.isDict = true) {routers : List Value}
    (hparts : ∀ router ∈ routers, ∃ part, nodesOf router = .ok part)
    (hno : ∀ router ∈ routers, hasNodes router = false) :
    ∃ taken rest, routers = taken ++ rest ∧
      restoreAll rows routers = taken.map (restored rows) ++ rest ∧
      (∀ router ∈ taken, Takes router) ∧ ∀ router ∈ rest.head?, ¬ Takes router := by
  induction routers with
  | nil => exact ⟨[], [], rfl, rfl, fun _ h => absurd h List.not_mem_nil, fun _ h => nomatch h⟩
  | cons router routers ih =>
    by_cases ht : Takes router
    · obtain ⟨part, hpart⟩ := hparts router List.mem_cons_self
      obtain ⟨taken, rest, rfl, hall, htaken, hrest⟩ :=
        ih (fun r hr => hparts r (List.mem_cons_of_mem _ hr))
          fun r hr => hno r (List.mem_cons_of_mem _ hr)
      refine ⟨router :: taken, rest, rfl, ?_, ?_, hrest⟩
      · rw [restoreAll, restore_takes hrows hpart (hno router List.mem_cons_self) ht]
        simp only [hall, List.map_cons, List.cons_append]
      · exact List.forall_mem_cons.mpr ⟨ht, htaken⟩
    · obtain ⟨e, he⟩ : ∃ e, restore rows router = .error e :=
        restore_stops (hno router List.mem_cons_self) ht
      refine ⟨[], router :: routers, rfl, ?_, fun _ h => absurd h List.not_mem_nil, ?_⟩
      · rw [restoreAll, he]
        rfl
      · rintro r hr
        obtain rfl := Option.some.inj hr
        exact ht

/-! ### The whole of it -/

variable {loads : Text → Option Value} {old payload : Value} {text stamp : Text} {luck : Luck}
  {dir : Dir}

/-- No step before the loop fails. -/
structure GetsThere (old payload : Value) (luck : Luck) : Prop where
  read : luck.read = false
  copy : luck.copy = none
  list : luck.list = false
  stored : ∃ nodes, graphNodes old = .ok nodes
  given : ∃ nodes, graphNodes payload = .ok nodes
  rows : ∃ rows, (items old "routers" >>= byId) = .ok rows

/-- The loop gets to each router that lacks its graph. -/
def GetsThrough (old payload : Value) : Prop :=
  ∀ before router after, routersOf payload = before ++ router :: after → Lacks old router →
    ∀ r ∈ before, Takes r

/-- The routers that are written when no step before the loop fails. -/
theorem putBack_routers {nodes : List Value} (hnodes : graphNodes payload = .ok nodes)
    (hno : ¬ HasNodes payload) (hrows : (items old "routers" >>= byId) = .ok rows) :
    routersOf ((putBack old payload).toOption.getD payload) =
      restoreAll rows (routersOf payload) := by
  obtain rfl := (graphNodes_nil_iff hnodes).mpr hno
  have hput : putBack old payload = (do
      let routers ← items payload "routers"
      match payload with
      | .dict d => match Dict.get d "routers" with
        | .list _ => return .dict (Dict.set d "routers" (.list (restoreAll rows routers)))
        | _ => return payload
      | _ => return payload) := by
    unfold putBack
    obtain ⟨olds, holds, hrows⟩ := Except.bind_eq_ok hrows
    rw [hnodes, holds]
    simp only [bind, Except.bind, hrows]
    rfl
  rw [hput]
  cases payload with
  | dict d =>
    cases hr : Dict.get d "routers" with
    | list rs =>
      have hrouters : items (.dict d) "routers" = .ok rs := by
        unfold items field
        simp only [bind, Except.bind, hr]
        cases rs <;> rfl
      rw [hrouters]
      simp only [bind, Except.bind, pure, Except.pure, Except.toOption, Option.getD_some,
        routersOf, Dict.get_set, if_true, hr, Value.asList]
    | null | bool | int | float | str | dict =>
      have hnone : routersOf (.dict d) = [] := by rw [routersOf, hr]; rfl
      rw [hnone]
      cases items (.dict d) "routers" with
      | error e => exact hnone
      | ok routers =>
        simp only [bind, Except.bind, hr]
        exact hnone
  | null | bool | int | float | str | list => rfl

/-- Where a step before the loop fails, the payload is written as it is. -/
theorem putBack_payload (h : ¬ ((∃ nodes, graphNodes payload = .ok nodes) ∧
    ∃ rows, (items old "routers" >>= byId) = .ok rows)) :
    (putBack old payload).toOption.getD payload = payload := by
  unfold putBack
  cases hnodes : graphNodes payload with
  | error e => rfl
  | ok nodes =>
    have hrows : ∀ rows, (items old "routers" >>= byId) ≠ .ok rows := fun rows hrows =>
      h ⟨⟨nodes, hnodes⟩, rows, hrows⟩
    cases nodes with
    | cons node nodes => rfl
    | nil =>
      cases holds : items old "routers" with
      | error e => rfl
      | ok olds =>
        cases hby : byId olds with
        | error e =>
          simp only [bind, Except.bind, hby]
          rfl
        | ok rows =>
          refine absurd ?_ (hrows rows)
          rw [holds]
          exact hby

/-- The routers that `protect_graph` answers. -/
theorem protectGraph_routers (stamp : Text) (hfile : dir.file = some text)
    (hloads : loads text = some old) (hold : HasNodes old) :
    GetsThere old payload luck ∧ (protectGraph loads payload stamp luck dir).1 =
        (putBack old payload).toOption.getD payload ∨
      ¬ GetsThere old payload luck ∧ (protectGraph loads payload stamp luck dir).1 = payload := by
  by_cases hall : GetsThere old payload luck
  · refine .inl ⟨hall, ?_⟩
    obtain ⟨nodes, hnodes⟩ := hall.stored
    have hne : nodes ≠ [] := fun he => (graphNodes_nil_iff hnodes).mp he hold
    unfold protectGraph
    cases nodes with
    | nil => exact absurd rfl hne
    | cons node nodes =>
      simp only [hfile, hall.read, hloads, hnodes, hall.copy, hall.list, Bool.false_eq_true,
        if_false]
  · refine .inr ⟨hall, ?_⟩
    unfold protectGraph
    simp only [hfile]
    split
    · rfl
    · next hread =>
      simp only [hloads]
      split
      · rfl
      · rfl
      · next node nodes hnodes =>
        split
        · rfl
        · rfl
        · next hcopy =>
          split
          · rfl
          · next hlist =>
            refine putBack_payload fun hgets => hall ?_
            exact ⟨Bool.eq_false_of_not_eq_true hread, hcopy, Bool.eq_false_of_not_eq_true hlist,
              ⟨_, hnodes⟩, hgets.1, hgets.2⟩

/-- The rows that a router is looked up in are those of the old document. -/
theorem oldRouter_eq (hold : HasNodes old) (hrows : (items old "routers" >>= byId) = .ok rows)
    (router : Value) :
    oldRouter old router = if router.isDict then lookupId rows (idOf router) else none := by
  obtain ⟨olds, holds, hby⟩ := Except.bind_eq_ok hrows
  have he : routersOf old = olds := by
    refine (items_routers holds).resolve_right fun hnone => ?_
    obtain ⟨router, hr, -⟩ := hold
    exact absurd hr (by rw [hnone.1]; exact List.not_mem_nil)
  rw [oldRouter, he, (byId_ok hby).1]

theorem same_unhashable {a b : Value} (h : hashable b = false) : same a b = false := by
  cases b with
  | list vs => cases a <;> simp [same, numberOf]
  | dict d => cases a <;> simp [same, numberOf]
  | null | bool | int | float | str => exact nomatch h

theorem graphNodes_parts {nodes : List Value} (h : graphNodes payload = .ok nodes) :
    ∀ router ∈ routersOf payload, ∃ part, nodesOf router = .ok part := by
  unfold graphNodes at h
  obtain ⟨routers, hrouters, h⟩ := Except.bind_eq_ok h
  obtain ⟨parts, hparts, -⟩ := Except.bind_eq_ok h
  have hlist := items_routers hrouters
  rw [routersOf_or] at hlist
  intro router hr
  cases hlist with
  | inl he =>
    obtain ⟨part, -, hpart⟩ := Except.mapM_mem hparts (he ▸ hr)
    exact ⟨part, hpart⟩
  | inr he => exact absurd hr (by rw [he.1]; exact List.not_mem_nil)

/-- A router that lacks its graph is one that the loop takes. -/
theorem Lacks.takes (h : Lacks old router) : Takes router := by
  obtain ⟨was, hwas, -⟩ := h
  unfold oldRouter at hwas
  split at hwas
  · next hdict =>
    obtain ⟨row, -, -, hsame⟩ := lookupId_mem hwas
    refine ⟨hdict, ?_⟩
    by_contra hkey
    rw [same_unhashable (Bool.eq_false_of_not_eq_true hkey)] at hsame
    exact nomatch hsame
  · exact nomatch hwas

theorem named_restored (hold : HasNodes old)
    (hrows : (items old "routers" >>= byId) = .ok rows) {was : Value} (hdict : router.isDict = true)
    (h : oldRouter old (restored rows router) = some was) (ht : (graphOf was).truthy) :
    graphOf (restored rows router) = graphOf was := by
  obtain ⟨d, rfl⟩ : ∃ d, router = .dict d := ⟨_, dict_of_isDict hdict⟩
  rw [oldRouter_eq hold hrows] at h
  cases hlook : lookupId rows (idOf (.dict d)) with
  | none =>
    have hsame : restored rows (.dict d) = .dict d := by rw [restored, hlook]
    rw [hsame, if_pos hdict, hlook] at h
    exact nomatch h
  | some old' =>
    have hset : restored rows (.dict d) = .dict (Dict.set d "graph"
        ((graphOf old').or ((graphOf (.dict d)).or (.dict [])))) := by rw [restored, hlook]; rfl
    have hid : idOf (restored rows (.dict d)) = idOf (.dict d) := by
      rw [hset, idOf, Value.asDict, Dict.get_set, if_neg (by decide)]
      rfl
    have hstill : (restored rows (.dict d)).isDict = true := by rw [hset]; rfl
    rw [hid, if_pos hstill, hlook] at h
    obtain rfl := Option.some.inj h
    rw [hset, graphOf, Value.asDict, Dict.get_set, if_pos rfl, or_of_truthy ht]

/-- **When the graph is kept**: each router that the payload names has the graph that the stored
document has for it exactly if none lacks it, or no step before the loop fails and the loop gets
to each that lacks it. -/
theorem restored_iff (hfile : dir.file = some text) (hloads : loads text = some old)
    (hold : HasNodes old) (hpayload : ¬ HasNodes payload) :
    Restored old (protectGraph loads payload stamp luck dir).1 ↔
      (∀ router ∈ routersOf payload, ¬ Lacks old router) ∨
        GetsThere old payload luck ∧ GetsThrough old payload := by
  -- a router that lacks its graph and stays as it is
  have hspoils : ∀ {result : Value}, Restored old result → ∀ router ∈ routersOf result,
      ¬ Lacks old router := fun hres router hr ⟨was, hwas, ht, hne⟩ =>
    hne (hres router hr was hwas ht)
  have hspares : ∀ {router was : Value}, ¬ Lacks old router → oldRouter old router = some was →
      (graphOf was).truthy → graphOf router = graphOf was := fun hno hwas ht => by
    by_contra hne
    exact hno ⟨_, hwas, ht, hne⟩
  cases protectGraph_routers stamp hfile hloads hold with
  | inr h =>
    obtain ⟨hno, he⟩ := h
    rw [he]
    constructor
    · exact fun hres => .inl (hspoils hres)
    · rintro (hnone | hgets)
      · exact fun router hr was hwas ht => hspares (hnone router hr) hwas ht
      · exact absurd hgets.1 hno
  | inl h =>
    obtain ⟨hgets, he⟩ := h
    obtain ⟨rows, hrows⟩ := hgets.rows
    obtain ⟨nodes, hnodes⟩ := hgets.given
    have hrouters := putBack_routers hnodes hpayload hrows
    rw [← he] at hrouters
    have hplain : ∀ router ∈ routersOf payload, hasNodes router = false := fun router hr =>
      Bool.eq_false_of_not_eq_true fun hn => hpayload ⟨router, hr, hn⟩
    obtain ⟨taken, rest, hsplit, hall, htaken, hrest⟩ := restoreAll_split
      (byId_ok (Except.bind_eq_ok hrows).choose_spec.2).2 (graphNodes_parts hnodes) hplain
    rw [hall] at hrouters
    constructor
    · -- a router that is not taken leaves those behind it as they are
      intro hres
      refine .inr ⟨hgets, fun before router after hat hlacks r hr => ?_⟩
      by_contra hno
      have hleft : router ∈ rest := by
        rw [hsplit] at hat
        obtain ⟨mid, htaken', -⟩ | ⟨mid, -, hrest'⟩ := List.append_eq_append_iff.mp hat.symm
        · exact absurd (htaken r (htaken' ▸ List.mem_append_left _ hr)) hno
        · exact hrest' ▸ List.mem_append_right _ List.mem_cons_self
      exact hspoils hres router (hrouters ▸ List.mem_append_right _ hleft) hlacks
    · intro hcond router hr was hwas ht
      rw [hrouters] at hr
      cases List.mem_append.mp hr with
      | inl hr =>
        obtain ⟨r, hmem, rfl⟩ := List.mem_map.mp hr
        exact named_restored hold hrows (htaken r hmem).1 hwas ht
      | inr hr =>
        refine hspares (fun hlacks => ?_) hwas ht
        cases hcond with
        | inl hnone => exact hnone router (hsplit ▸ List.mem_append_right _ hr) hlacks
        | inr hthrough =>
          -- the router that the loop stopped at is before it, or it
          cases rest with
          | nil => exact List.not_mem_nil hr
          | cons head rest =>
            have hstop := hrest head rfl
            cases List.mem_cons.mp hr with
            | inl hself => exact hstop (hself ▸ hlacks.takes)
            | inr hr =>
              obtain ⟨mid, after, rfl⟩ := List.append_of_mem hr
              refine hstop (hthrough.2 (taken ++ head :: mid) router after ?_ hlacks head ?_)
              · rw [hsplit, List.append_assoc, List.cons_append]
              · simp

/-! ### The copies -/

/-- **What is pruned**: the copies with twenty later ones, as far as they can be removed. -/
theorem mem_prune {c : Text × Text} :
    c ∈ (dir.prune luck).copies ↔ c ∈ dir.copies ∧
      ((Newest.later (dir.copies.map Prod.fst) c.1).length < BACKUPS_KEPT ∨ c.1 ∈ luck.stuck) := by
  unfold Dir.prune
  rw [List.mem_filter, decide_eq_true_iff, Newest.mem_oldest dir.names]
  refine and_congr_right fun hc => or_congr_left ?_
  have hname : c.1 ∈ dir.copies.map Prod.fst := List.mem_map_of_mem hc
  simp [hname]

/-- Nothing fails up to the removal of the oldest copies, and all of those go. -/
structure Unfailing (old : Value) (luck : Luck) : Prop where
  read : luck.read = false
  copy : luck.copy = none
  list : luck.list = false
  stuck : luck.stuck = []
  stored : ∃ nodes, graphNodes old = .ok nodes

/-- With this copy of the file, one of its copies has fewer than twenty later ones. -/
def Stands (dir : Dir) (stamp text : Text) : Prop :=
  ∃ name, (name, text) ∈ (dir.put stamp text).copies ∧
    (Newest.later ((dir.put stamp text).copies.map Prod.fst) name).length < BACKUPS_KEPT

theorem copy_stands_iff (hfile : dir.file = some text) (hloads : loads text = some old)
    (hold : HasNodes old) (hall : Unfailing old luck) :
    text ∈ (protectGraph loads payload stamp luck dir).2.copies.map Prod.snd ↔
      Stands dir stamp text := by
  obtain ⟨nodes, hnodes⟩ := hall.stored
  have hcopies : (protectGraph loads payload stamp luck dir).2 =
      (dir.put stamp text).prune luck := by
    unfold protectGraph
    cases nodes with
    | nil => exact absurd hold ((graphNodes_nil_iff hnodes).mp rfl)
    | cons node nodes =>
      simp only [hfile, hall.read, hloads, hnodes, hall.copy, hall.list, Bool.false_eq_true,
        if_false]
  rw [hcopies, List.mem_map]
  constructor
  · rintro ⟨⟨name, text'⟩, hc, rfl⟩
    obtain ⟨hc, hfew⟩ := mem_prune.mp hc
    exact ⟨name, hc, hfew.resolve_right (by rw [hall.stuck]; exact List.not_mem_nil)⟩
  · rintro ⟨name, hc, hfew⟩
    exact ⟨(name, text), mem_prune.mpr ⟨hc, .inl hfew⟩, rfl⟩

/-- **A write keeps the graph**, exactly if nothing lacks it or no step before the loop fails and
the loop gets through; and a copy of the file stands, where no step failed, exactly if one of its
copies has fewer than twenty later ones. -/
theorem graph_guarded_iff (hfile : dir.file = some text) (hloads : loads text = some old)
    (hold : HasNodes old) (hpayload : ¬ HasNodes payload) :
    (Restored old (protectGraph loads payload stamp luck dir).1 ∧ (Unfailing old luck →
        text ∈ (protectGraph loads payload stamp luck dir).2.copies.map Prod.snd)) ↔
      ((∀ router ∈ routersOf payload, ¬ Lacks old router) ∨
          GetsThere old payload luck ∧ GetsThrough old payload) ∧
        (Unfailing old luck → Stands dir stamp text) :=
  and_congr (restored_iff hfile hloads hold hpayload)
    (forall_congr' fun hall => copy_stands_iff hfile hloads hold hall)

/-! ### A directory that takes no copy -/

/-- The router of a document, and what its graph has of nodes. -/
def routerWith (nodes : List Value) : Value :=
  .dict [("id", "router:default"), ("graph", .dict [("nodes", .list nodes)])]

def oneRouter (nodes : List Value) : Value := .dict [("routers", .list [routerWith nodes])]

/-- A node of a graph. -/
def oneNode : Value := .dict [("id", "n1"), ("type", "queue")]

/-- The document with the node is the file; no copy of it is there. -/
def dragged : Dir := ⟨some "a graph", [], List.nodup_nil⟩

/-- What a save without the node makes of it. -/
def saved (luck : Luck) : Value × Dir :=
  protectGraph (fun _ => some (oneRouter [oneNode])) (oneRouter []) "20260920-120000" luck dragged

theorem routersOf_oneRouter (nodes : List Value) :
    routersOf (oneRouter nodes) = [routerWith nodes] := rfl

theorem hasNodes_oneRouter (nodes : List Value) : HasNodes (oneRouter nodes) ↔ nodes ≠ [] := by
  rw [HasNodes, routersOf_oneRouter]
  cases nodes with
  | nil => exact iff_of_false (by simp [show hasNodes (routerWith []) = false from rfl]) (by simp)
  | cons node nodes => exact iff_of_true ⟨_, List.mem_cons_self, rfl⟩ (by simp)

theorem lacks_oneRouter : Lacks (oneRouter [oneNode]) (routerWith []) := by
  refine ⟨routerWith [oneNode], rfl, rfl, fun he => ?_⟩
  have hnodes := congrArg (fun v => (v.asDict.get "nodes").truthy) he
  exact nomatch hnodes

/-- The graph is put back, and a copy stands. -/
theorem graph_guarded_saved : Restored (oneRouter [oneNode]) (saved {}).1 ∧
    Text.of "a graph" ∈ (saved {}).2.copies.map Prod.snd := by
  have hold : HasNodes (oneRouter [oneNode]) :=
    (hasNodes_oneRouter _).mpr (List.cons_ne_nil _ _)
  have hpayload : ¬ HasNodes (oneRouter []) := fun h => (hasNodes_oneRouter _).mp h rfl
  have hstored : graphNodes (oneRouter [oneNode]) = .ok [oneNode] := rfl
  unfold saved
  refine ((graph_guarded_iff rfl rfl hold hpayload).mpr ⟨.inr ⟨?_, ?_⟩, fun _ => ?_⟩).imp_right
    fun h => h ⟨rfl, rfl, rfl, rfl, _, hstored⟩
  · exact ⟨rfl, rfl, rfl, ⟨_, hstored⟩, ⟨[], rfl⟩,
      ⟨[("router:default", routerWith [oneNode])], rfl⟩⟩
  · -- the one router has none before it
    intro before router after hat _ r hr
    rw [routersOf_oneRouter] at hat
    cases before with
    | nil => exact absurd hr List.not_mem_nil
    | cons head before => exact absurd (List.cons.inj hat).2 (by simp)
  · exact ⟨"20260920-120000", List.mem_cons_self, by decide⟩

/-- **The graph is gone** where the copy cannot be made. -/
theorem graph_wiped : HasNodes (oneRouter [oneNode]) ∧ ¬ HasNodes (oneRouter []) ∧
    ¬ Restored (oneRouter [oneNode]) (saved { copy := some none }).1 := by
  refine ⟨(hasNodes_oneRouter _).mpr (List.cons_ne_nil _ _),
    fun h => (hasNodes_oneRouter _).mp h rfl, fun h => ?_⟩
  obtain ⟨was, hwas, ht, hne⟩ := lacks_oneRouter
  exact hne (h (routerWith []) List.mem_cons_self was hwas ht)

end Documents
