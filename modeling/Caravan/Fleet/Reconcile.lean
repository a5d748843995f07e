import Caravan.Documents.Proxies
import Caravan.Fleet.Claims

/-!
# The copies of an agent's settings

`reconcile_proxy_metadata` copies what is set on an agent's routes to the proxy's routes, by the
number of the port, and clears the copy of a port that two routes claim. With each port claimed
once none is contested, and the route of a port that is bound says what its claim says
(`one_claim`).
-/

namespace Fleet

open Python Requests

/-! ### What is copied -/

/-- What the proxy is told of a port. -/
structure PortMeta where
  clientId : Text
  role : Text
  name : Text
  contextLength : Option ℤ
  modelName : Option Text
  modelNameAuto : Option Bool
  contextAuto : Option Bool

/-- `bool(v) or None` -/
def orNone (b : Option Bool) : Option Bool := b.filter id

/-- What a route of an agent says of its port. -/
def metaOf (host name : Text) (r : ProxyRoute) : PortMeta where
  clientId := host
  role := r.roleOf
  name := name
  contextLength := r.contextLength
  modelName := r.modelName.bind cleanName
  modelNameAuto := orNone r.modelNameAuto
  contextAuto := orNone r.contextAuto

/-- The name that a row's ports go by: the client's, or the agent's. -/
def rowName (client : Option Client) (a : AgentAssignment) : Text :=
  let agents := (client.map Client.agents).getD []
  let agentName := orText ((agents.reverse.lookup a.agentId).getD []) a.agentId
  orText ((client.map Client.name).getD []).strip agentName.strip

variable (O : Outside)

/-- The claims, with what each says, in the order they are read. -/
def claims (x : Store) : List (ℤ × PortMeta) :=
  x.assignments.flatMap fun e => e.2.rows.flatMap fun a => a.routes.filterMap fun r =>
    (numberAfter O r.proxyId PROXY_ID_PREFIX).map fun port =>
      (port, metaOf e.1 (rowName (Assoc.get x.clients e.1) a) r)

/-- One claim: `port_meta` and `contested`. -/
def noteClaim (s : List (ℤ × PortMeta) × List ℤ) (c : ℤ × PortMeta) :
    List (ℤ × PortMeta) × List ℤ :=
  if (s.1.lookup c.1).isSome then (s.1, if c.1 ∈ s.2 then s.2 else s.2 ++ [c.1])
  else (s.1 ++ [c], s.2)

/-- `port_meta` and `contested`. -/
def portMeta (x : Store) : List (ℤ × PortMeta) × List ℤ := (claims O x).foldl noteClaim ([], [])

/-- The keys that are copied, with what a claim says of each. -/
def settings (m : PortMeta) : List (Text × Option Value) :=
  [("contextLength", m.contextLength.map .int), ("contextAuto", m.contextAuto.map .bool),
    ("modelName", m.modelName.map .str), ("modelNameAuto", m.modelNameAuto.map .bool)]

/-- The same keys, with nothing said of them. -/
def noSettings : List (Text × Option Value) :=
  [("contextLength", none), ("contextAuto", none), ("modelName", none), ("modelNameAuto", none)]

/-- A key of the copy. -/
def copyKey (d : Dict) (want : Text × Option Value) : Dict :=
  match want.2 with
  | none => d.filter fun p => p.1 ≠ want.1
  | some v => if Documents.same (d.get want.1) v then d else d.set want.1 v

/-- The copy of the settings. -/
def copySettings (wants : List (Text × Option Value)) (d : Dict) : Dict := wants.foldl copyKey d

/-- The client and the role of a port. -/
def copyOwner (m : PortMeta) (d : Dict) : Except Error Dict := do
  let owned := (d.set "clientId" (.str m.clientId)).set "role" (.str m.role)
  if (← strOf O.interp ((d.get "clientId").or (.str []))) ≠ m.clientId then return owned
  -- the role is not read where the client is another one
  if (← strOf O.interp ((d.get "role").or (.str []))) ≠ m.role then return owned
  return d

/-- One route of the proxy. -/
def reconcileRoute (metas : List (ℤ × PortMeta) × List ℤ) (d : Dict) : Except Error Dict :=
  match intOf O.interp (d.get "port") with
  | .error .overflow => .error .overflow
  | .error _ => .ok d
  | .ok port =>
    if port ∈ metas.2 then .ok (copySettings noSettings d)
    else match metas.1.lookup port with
      | none => .ok (copySettings noSettings d)
      | some m =>
        if m.name = [] then .ok d
        else (copyOwner O m d).map (copySettings (settings m))

/-! ### Where each port is claimed once -/

variable {O} {x : Store}

theorem claims_ports (x : Store) : (claims O x).map Prod.fst = claimed O x.assignments := by
  have hroute : ∀ (e : Text × Entry) (a : AgentAssignment),
      (a.routes.filterMap fun r => (numberAfter O r.proxyId PROXY_ID_PREFIX).map fun port =>
        (port, metaOf e.1 (rowName (Assoc.get x.clients e.1) a) r)).map Prod.fst =
          rowPorts O a := by
    intro e a
    rw [List.map_filterMap]
    refine List.filterMap_congr fun r _ => ?_
    rw [Option.map_map]
    exact Option.map_id'
  unfold claims claimed
  rw [List.map_flatMap]
  simp only [List.map_flatMap, hroute]

theorem lookup_none_iff {m : List (ℤ × PortMeta)} {port : ℤ} :
    (m.lookup port).isSome = false ↔ port ∉ m.map Prod.fst := by
  induction m with
  | nil => simp
  | cons c m ih =>
    obtain ⟨p, w⟩ := c
    rw [List.lookup_cons]
    by_cases h : port = p
    · simp [h]
    · rw [beq_eq_false_iff_ne.mpr h]
      simp [ih, h]

/-- **Nothing is contested** where each port is claimed once. -/
theorem portMeta_clean (h : (claimed O x.assignments).Nodup) :
    portMeta O x = (claims O x, []) := by
  have hfold : ∀ cs ms : List (ℤ × PortMeta), ((ms ++ cs).map Prod.fst).Nodup →
      cs.foldl noteClaim (ms, []) = (ms ++ cs, []) := by
    intro cs
    induction cs with
    | nil => exact fun ms _ => by simp
    | cons c cs ih =>
      intro ms hms
      have hnew : (ms.lookup c.1).isSome = false := lookup_none_iff.mpr fun hmem => by
        rw [List.map_append, List.map_cons, List.nodup_append] at hms
        exact hms.2.2 _ hmem _ List.mem_cons_self rfl
      have hstep : noteClaim (ms, []) c = (ms ++ [c], []) := by
        unfold noteClaim
        rw [hnew]
        rfl
      rw [List.foldl_cons, hstep, ih _ (by simpa using hms)]
      simp
  rw [portMeta, hfold _ _ (by simpa [claims_ports] using h)]
  rfl

/-- A key of the copy says what it should. -/
def Tells (d : Dict) (want : Text × Option Value) : Prop :=
  match want.2 with
  | none => d.lookup want.1 = none
  | some v => ∃ w, d.lookup want.1 = some w ∧ Documents.same w v = true

theorem same_null (v : Value) (h : v ≠ .null) : Documents.same .null v = false := by
  cases v with
  | null => exact absurd rfl h
  | bool | int | str | list | dict => rfl
  | float x => cases x <;> rfl

/-- One key of the copy, where what it should say is equal to itself. -/
theorem copyKey_told (d : Dict) {want : Text × Option Value}
    (h : ∀ v, want.2 = some v → v ≠ .null ∧ Documents.same v v = true) :
    Tells (copyKey d want) want := by
  obtain ⟨k, v⟩ := want
  unfold Tells copyKey
  cases v with
  | none =>
    simp only
    rw [lookup_filter_key _ fun k' => decide (k' ≠ k)]
    simp
  | some v =>
    obtain ⟨hnull, hself⟩ := h v rfl
    simp only
    split
    · next hsame =>
      unfold Dict.get at hsame
      cases hl : d.lookup k with
      | none =>
        rw [hl, Option.getD_none, same_null v hnull] at hsame
        exact nomatch hsame
      | some w =>
        rw [hl] at hsame
        exact ⟨w, rfl, hsame⟩
    · exact ⟨v, by rw [Dict.lookup_set, if_pos rfl], hself⟩

/-- The other keys stay. -/
theorem lookup_copyKey (d : Dict) {want : Text × Option Value} {k : Text} (hk : k ≠ want.1) :
    (copyKey d want).lookup k = d.lookup k := by
  unfold copyKey
  split
  · rw [lookup_filter_key _ fun k' => decide (k' ≠ want.1), if_pos (by simpa using hk)]
  · split
    · rfl
    · rw [Dict.lookup_set, if_neg hk]

/-- The keys that are not copied stay. -/
theorem lookup_copySettings (wants : List (Text × Option Value)) (d : Dict) {k : Text}
    (hk : k ∉ wants.map Prod.fst) : (copySettings wants d).lookup k = d.lookup k := by
  induction wants generalizing d with
  | nil => rfl
  | cons w wants ih =>
    rw [List.map_cons, List.mem_cons, not_or] at hk
    obtain ⟨hne, hrest⟩ := hk
    show (copySettings wants (copyKey d w)).lookup k = _
    rw [ih _ hrest, lookup_copyKey d hne]

/-- **The copy says what it should**, key by key. -/
theorem copySettings_told {wants : List (Text × Option Value)} (hkeys : Assoc.Distinct wants)
    (h : ∀ want ∈ wants, ∀ v, want.2 = some v → v ≠ .null ∧ Documents.same v v = true) (d : Dict) :
    ∀ want ∈ wants, Tells (copySettings wants d) want := by
  induction wants generalizing d with
  | nil => exact fun _ hw => absurd hw List.not_mem_nil
  | cons w wants ih =>
    obtain ⟨hw, hrest⟩ := List.nodup_cons.mp hkeys
    intro want hwant
    show Tells (copySettings wants (copyKey d w)) want
    cases List.mem_cons.mp hwant with
    | inl he =>
      subst he
      have htold := copyKey_told d (h want List.mem_cons_self)
      unfold Tells at htold ⊢
      rw [lookup_copySettings wants _ hw]
      exact htold
    | inr hwant =>
      exact ih hrest (fun w' hw' => h w' (List.mem_cons_of_mem _ hw')) _ want hwant

theorem settings_told (m : PortMeta) (d : Dict) :
    ∀ want ∈ settings m, Tells (copySettings (settings m) d) want := by
  have hkeys : Assoc.Distinct (settings m) := by
    show ([Text.of "contextLength", Text.of "contextAuto", Text.of "modelName",
      Text.of "modelNameAuto"] : List Text).Nodup
    decide
  refine copySettings_told hkeys (fun want hw v hv => ?_) d
  simp only [settings, List.mem_cons, List.not_mem_nil, or_false] at hw
  obtain rfl | rfl | rfl | rfl := hw
  all_goals
    obtain ⟨a, -, rfl⟩ := Option.map_eq_some_iff.mp hv
    exact ⟨fun h => (by cases h), by simp [Documents.same, Documents.numberOf]⟩

theorem lookup_of_mem {m : List (ℤ × PortMeta)} (hm : (m.map Prod.fst).Nodup) {port : ℤ}
    {w : PortMeta} (h : (port, w) ∈ m) : m.lookup port = some w := by
  induction m with
  | nil => exact absurd h List.not_mem_nil
  | cons c m ih =>
    obtain ⟨p, v⟩ := c
    obtain ⟨hp, hrest⟩ := List.nodup_cons.mp hm
    rw [List.lookup_cons]
    cases List.mem_cons.mp h with
    | inl he =>
      cases he
      rw [beq_self_eq_true]
    | inr h =>
      have hne : port ≠ p := fun he => hp (List.mem_map.mpr ⟨_, h, he⟩)
      rw [beq_eq_false_iff_ne.mpr hne]
      exact ih hrest h

/-- What becomes of the route of a port that one route claims. -/
theorem reconcileRoute_told (h : (claimed O x.assignments).Nodup) {d d' : Dict} {port : ℤ}
    {m : PortMeta} (hport : intOf O.interp (d.get "port") = .ok port) (hm : (port, m) ∈ claims O x)
    (hd : reconcileRoute O (portMeta O x) d = .ok d') :
    m.name = [] ∧ d' = d ∨ ∀ want ∈ settings m, Tells d' want := by
  have hlook := lookup_of_mem (claims_ports x ▸ h) hm
  unfold reconcileRoute at hd
  rw [portMeta_clean h, hport] at hd
  simp only [List.not_mem_nil, if_false, hlook] at hd
  split at hd
  · next hname => exact .inl ⟨hname, (Except.ok.inj hd).symm⟩
  · obtain ⟨owned, -, rfl⟩ := Except.map_eq_ok hd
    exact .inr (settings_told m owned)

/-! ### The runs -/

/-- The server: requests on the admin document. -/
abbrev server (O : Outside) := program (Request.proc O) (Clean O)

/-- **One port, one claim.** In a run whose writes find what they rely on, no port is claimed by
two routes, none is contested, and the proxy's route of a port that is bound says what its claim
says. -/
theorem one_claim (hO : O.interp.Ascii) {s : Threads Store (Place Store Answer Request)}
    (h : (server O).system.Reach (Timely (OnTime O)) s) :
    (claimed O s.shared.assignments).Nodup ∧ (portMeta O s.shared).2 = [] ∧
      ∀ d d' port m, intOf O.interp (Dict.get d "port") = .ok port →
        (port, m) ∈ claims O s.shared → reconcileRoute O (portMeta O s.shared) d = .ok d' →
        m.name = [] ∧ d' = d ∨ ∀ want ∈ settings m, Tells d' want := by
  have hclean : Clean O s.shared := safe (fun _ hx => hx) (proc_safe hO) h
  refine ⟨hclean.once, ?_, fun d d' port m => reconcileRoute_told hclean.once⟩
  rw [portMeta_clean hclean.once]

/-! ### Two clients -/

/-- The controller at an address. -/
def here : Outside where
  interp := Interp.ascii
  casefold t := t
  serverIp := "10.0.0.1"

/-- A client whose agent has its primary route, and one whose agent has none. -/
def oneBound : Store where
  clients := [("c", ⟨"C", [], [("a", "A")]⟩), ("d", ⟨"D", [], [("b", "B")]⟩)]
  assignments := [("c", ⟨0, [⟨"a", [{ ProxyRoute.forPort "primary" 23117 "10.0.0.1" with
    contextLength := some 8192 }]⟩]⟩)]
  made := 1

def bindOf (host agent role : Text) (port : ℤ) : Request :=
  .bind host agent role (.int port) [23117, 23118]

/-- The proxy's route of the port, with the copy of the setting. -/
def portRoute : Dict := [("port", .int 23117), ("clientId", "c"), ("role", "primary"),
  ("contextLength", .int 8192)]

theorem oneBound_clean : Clean here oneBound where
  distinct := List.nodup_singleton _
  written e he := by
    obtain rfl := List.mem_singleton.mp he
    refine ⟨fun a ha => ?_, List.nodup_singleton _⟩
    obtain rfl := List.mem_singleton.mp ha
    refine ⟨by decide, fun r hr => ?_⟩
    obtain rfl := List.mem_singleton.mp hr
    exact (forPort_written Interp.ascii_ascii "primary" 23117 "10.0.0.1").of_same rfl
  once := by decide

/-- What a script of steps leads to, from there. -/
def led (script : List (ℕ × Act Request)) : Option (Threads Store (Place Store Answer Request)) :=
  Program.follow (Requests.next (Request.proc here)) (before oneBound) script

theorem led_reached {script : List (ℕ × Act Request)}
    {s : Threads Store (Place Store Answer Request)} (h : led script = some s) :
    System.Reachable (server here).system s :=
  Program.reach_follow (fun _ _ _ _ _ h => h) script (reach_before oneBound_clean) h
    fun _ _ _ => trivial

/-- What the proxy's route becomes, where it can be told. -/
def copied (x : Store) : Option (Option ℤ) :=
  (reconcileRoute here (portMeta here x) portRoute).toOption.map fun d =>
    (d.lookup (Text.of "contextLength")).bind fun v => match v with
      | .int n => some n
      | _ => none

/-- The agent's fallback gets the port of its primary. -/
def bothRoles : List (ℕ × Act Request) :=
  [(0, .start (bindOf "c" "a" "fallback" 23117)), (0, .step), (0, .step), (0, .step), (0, .step)]

/-- Two agents get one port at once: each checks it before the other one has written. -/
def bothAgents : List (ℕ × Act Request) :=
  [(0, .start (bindOf "c" "a" "fallback" 23118)), (1, .start (bindOf "d" "b" "primary" 23118)),
    (0, .step), (1, .step), (0, .step), (1, .step), (0, .step), (1, .step), (0, .step),
    (1, .step)]

/-- **One port, two claims**: of the two roles of an agent, for which the setting of the port is
cleared; and of two agents that are bound at once. -/
theorem claimed_twice :
    (∃ s, System.Reachable (server here).system s ∧
      claimed here s.shared.assignments = [23117, 23117] ∧
      (portMeta here s.shared).2 = [23117] ∧ copied oneBound = some (some 8192) ∧
      copied s.shared = some none) ∧
    ∃ s, System.Reachable (server here).system s ∧
      claimed here s.shared.assignments = [23117, 23118, 23118] := by
  constructor
  · obtain ⟨s, hs, hr⟩ := Program.follow_to (led bothRoles)
      (R := fun s => claimed here s.shared.assignments = [23117, 23117] ∧
        (portMeta here s.shared).2 = [23117] ∧ copied oneBound = some (some 8192) ∧
        copied s.shared = some none) (by decide)
    exact ⟨s, led_reached hs, hr⟩
  · obtain ⟨s, hs, hr⟩ := Program.follow_to (led bothAgents)
      (R := fun s => claimed here s.shared.assignments = [23117, 23118, 23118])
      (by decide)
    exact ⟨s, led_reached hs, hr⟩

/-- A port of its own for the fallback: the run keeps it. -/
theorem one_claim_bound : ∃ s : Threads Store (Place Store Answer Request),
    claimed here s.shared.assignments = [23117, 23118] ∧
      (claimed here s.shared.assignments).Nodup ∧ (portMeta here s.shared).2 = [] := by
  have hbefore : (server here).system.Reach (Timely (OnTime here)) (before oneBound) :=
    reach_before oneBound_clean
  have hreach := reach_alone (t := 0) hbefore rfl (bindOf "c" "a" "fallback" 23118)
    ⟨.inl (.refl _), .inl (.refl _), .inl (.refl _), .inr ⟨rfl, fun p hp => ?_⟩, trivial⟩
  · have hsafe := one_claim Interp.ascii_ascii hreach
    exact ⟨_, by decide, hsafe.1, hsafe.2.1⟩
  · have hport : (23118 : ℤ) = p := Except.ok.inj hp
    obtain rfl : p = 23118 := by omega
    refine ⟨rfl, fun a ha _ r hr hid => ?_⟩
    obtain rfl := List.mem_singleton.mp ha
    obtain rfl := List.mem_singleton.mp hr
    exact absurd hid (by decide)

end Fleet
