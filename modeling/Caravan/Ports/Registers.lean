import Caravan.Framework.Assoc
import Caravan.Python.Except
import Caravan.Python.Text
import Mathlib.Data.List.Nodup
import Mathlib.Data.List.Perm.Subperm

/-!
# The registers of port numbers

Where the controller keeps the numbers of its fleet: the cells' slots and the excluded
ports in its own store, the routes and the entry in the proxy's document, and its own port
in the configuration. `Store` is what the three documents hold of them.

This module reads the registers: `used_server_cell_ports` and `_all_taken_ports`, the two
ideas of a number that is taken, the allocators over them, and the checks made before a
number is given to a cell or a route.
-/

namespace Ports

open Python

/-- `AppError` -/
structure AppError where
  message : Text
  status : ℕ := 400
  deriving DecidableEq, Repr

/-- `if refused: raise AppError(…)` -/
def refuseIf (refused : Prop) [Decidable refused] (e : AppError) : Except AppError Unit :=
  if refused then .error e else .ok ()

/-! ### The configuration -/

/-- The numbers of `paths.py`. -/
structure PortRanges where
  PORT : ℤ
  SERVER_CELL_BASE_PORT : ℤ
  SERVER_CELL_PORT_SPAN : ℤ
  AGENT_PROXY_BASE_PORT : ℤ
  AGENT_PROXY_PORT_SPAN : ℤ
  deriving DecidableEq, Repr

namespace PortRanges

def SERVER_CELL_UPPER_PORT (r : PortRanges) : ℤ :=
  r.SERVER_CELL_BASE_PORT + r.SERVER_CELL_PORT_SPAN

def AGENT_PROXY_UPPER_PORT (r : PortRanges) : ℤ :=
  r.AGENT_PROXY_BASE_PORT + r.AGENT_PROXY_PORT_SPAN

/-- `ProxyPortRange.holds`, of `PROXY_PORTS` -/
def proxyHolds (r : PortRanges) (port : ℤ) : Bool :=
  r.AGENT_PROXY_BASE_PORT ≤ port ∧ port ≤ r.AGENT_PROXY_UPPER_PORT

/-- `validate_port_ranges`: the numbers it starts with. -/
structure Valid (r : PortRanges) : Prop where
  cell_base : ¬ r.SERVER_CELL_BASE_PORT < 1024
  cell_span : ¬ r.SERVER_CELL_PORT_SPAN < 10
  cell_upper : ¬ 30000 ≤ r.SERVER_CELL_UPPER_PORT
  cell_port : ¬ (r.SERVER_CELL_BASE_PORT ≤ r.PORT ∧ r.PORT ≤ r.SERVER_CELL_UPPER_PORT)
  cell_proxy : ¬ (r.SERVER_CELL_BASE_PORT ≤ r.AGENT_PROXY_BASE_PORT ∧
    r.AGENT_PROXY_BASE_PORT ≤ r.SERVER_CELL_UPPER_PORT)
  proxy_span : ¬ r.AGENT_PROXY_PORT_SPAN < 10
  proxy_upper : ¬ 30000 ≤ r.AGENT_PROXY_UPPER_PORT
  proxy_cell : ¬ (r.AGENT_PROXY_BASE_PORT ≤ r.SERVER_CELL_BASE_PORT ∧
    r.SERVER_CELL_BASE_PORT ≤ r.AGENT_PROXY_UPPER_PORT)
  proxy_port : ¬ (r.AGENT_PROXY_BASE_PORT ≤ r.PORT ∧ r.PORT ≤ r.AGENT_PROXY_UPPER_PORT)

end PortRanges

/-- A configuration the controller starts with. -/
structure Config extends PortRanges where
  valid : toPortRanges.Valid

/-! ### The machines -/

def CONTROLLER_HOST_ID : Text := "controller"

def LEGACY_CONTROLLER_HOST_IDS : List Text := ["skynet"]

/-- `canonical_host_id` -/
def canonicalHostId (hostId : Text) : Text :=
  if hostId.strip ∈ LEGACY_CONTROLLER_HOST_IDS then CONTROLLER_HOST_ID else hostId.strip

/-- `is_controller_host` -/
def isControllerHost (hostId : Text) : Bool := canonicalHostId hostId = CONTROLLER_HOST_ID

def CONTROLLER_RUNS_NO_CELLS : Text :=
  "the controller runs no cells — its machine's cells run through its scout, on that machine's node"

/-- `refuse_controller_host` -/
def refuseControllerHost (hostId : Text) : Except AppError Unit :=
  refuseIf (isControllerHost hostId) ⟨CONTROLLER_RUNS_NO_CELLS, 400⟩

/-! ### The documents -/

/-- The key of a slot, `"<hostId>:<port>"`. -/
structure SlotKey where
  hostId : Text
  port : ℤ
  deriving DecidableEq, Repr

/-- `server_slot_key` -/
def serverSlotKey (hostId : Text) (port : ℤ) : SlotKey := ⟨canonicalHostId hostId, port⟩

def SlotKey.text (k : SlotKey) : Text := k.hostId ++ Text.of s!":{k.port}"

/-- What a slot says of its place. -/
structure Slot where
  hostId : Text
  port : ℤ
  deriving DecidableEq, Repr

/-- A row of the routes: its number and what decides whether it may be saved. -/
structure Route where
  label : Text
  port : ℤ
  kind : Text
  upstreamHost : Text
  upstreamPort : ℤ
  apiKey : Text
  portClosed : Bool
  deriving DecidableEq, Repr

/-- The port of the entry while it is on, as `KeyEntry.clean` keeps it. -/
abbrev EntryPort := {p : ℤ // 1024 ≤ p ∧ p ≤ 65535}

/-- The registers: the slots and the exclusions of the controller's store, the routes and
the entry of the proxy's document. -/
structure Store where
  serverSlots : List (SlotKey × Slot)
  portExclusions : List ℤ
  routes : List Route
  entry : Option EntryPort
  deriving DecidableEq, Repr

namespace Store

/-- The numbers of the cells. -/
def cellPorts (s : Store) : List ℤ := s.serverSlots.map (·.2.port)

/-- The numbers of the routes. -/
def routePorts (s : Store) : List ℤ := s.routes.map (·.port)

/-- `int((config.get("entry") or {}).get("port") or 0)`: no number while it is off. -/
def entryPorts (s : Store) : List ℤ := s.entry.toList.map (·.val)

/-- `topo.has_slot` -/
def hasSlot (s : Store) (hostId : Text) (port : ℤ) : Bool :=
  (Assoc.get s.serverSlots (serverSlotKey hostId port)).isSome

/-- The slots without the excluded key. -/
def slotsBut (s : Store) : Option SlotKey → List (SlotKey × Slot)
  | none => s.serverSlots
  | some k => Assoc.del s.serverSlots k

end Store

/-! ### What is taken -/

variable (c : Config)

/-- `used_server_cell_ports`: the controller's own port, the excluded ones, the cells' and
the routes'. -/
def usedServerCellPorts (s : Store) (excludeKey : Option SlotKey) : List ℤ :=
  (c.PORT :: (s.portExclusions ++ (s.slotsBut excludeKey).map (·.2.port) ++ s.routePorts)).filter
    (0 < ·)

/-- `_all_taken_ports`: the same with the entry's. -/
def allTakenPorts (s : Store) (routes : List Route) : List ℤ :=
  (usedServerCellPorts c s none ++ routes.map (·.port) ++ s.entryPorts).filter (· ≠ 0)

/-- `next_server_cell_port`. One of the first numbers past the base is free
(`nextServerCellPort_not_mem`), so the loop's bound is never met. -/
def nextServerCellPort (s : Store) : ℤ :=
  let used := usedServerCellPorts c s none
  let tried := (List.range (used.length + 1)).map fun i : ℕ => c.SERVER_CELL_BASE_PORT + (i : ℤ)
  (tried.find? (· ∉ used)).getD c.SERVER_CELL_BASE_PORT

/-- `assert_server_cell_port_available` -/
def assertServerCellPortAvailable (s : Store) (port : ℤ) (excludeKey : Option SlotKey) :
    Except AppError Unit := do
  refuseIf (port < 1 ∨ 65535 < port) ⟨"port must be between 1 and 65535", 400⟩
  refuseIf (port ∈ usedServerCellPorts c s excludeKey)
    ⟨Text.of s!"server cell port {port} is already reserved", 409⟩

/-- `load_agent_proxy_config`, of the routes: a number that stands twice is read once. -/
def loadRoutes : List Route → List ℤ → List Route
  | [], _ => []
  | r :: rs, seen =>
    if r.port ∈ seen then loadRoutes rs seen else r :: loadRoutes rs (r.port :: seen)

/-- The loop of `_next_agent_port`, from a candidate on: the next odd number whose
neighbour is free too. -/
def nextAgentPort (claimed : List ℤ) (listening : ℤ → Bool) (candidate : ℤ) :
    Except AppError ℤ :=
  if candidate ∈ claimed ∨ candidate + 1 ∈ claimed ∨ listening candidate then
    if c.AGENT_PROXY_UPPER_PORT < candidate + 2 + 1 then
      .error ⟨Text.of ("no free agent proxy port left in the proxy range " ++
        s!"{c.AGENT_PROXY_BASE_PORT}–{c.AGENT_PROXY_UPPER_PORT}"), 500⟩
    else nextAgentPort claimed listening (candidate + 2)
  else .ok candidate
termination_by (c.AGENT_PROXY_UPPER_PORT - candidate).toNat
decreasing_by omega

/-! ### What the reads say -/

theorem refuseIf_ok {refused : Prop} [Decidable refused] {e : AppError}
    (h : refuseIf refused e = .ok ()) : ¬ refused := by
  unfold refuseIf at h
  split at h
  · cases h
  · assumption

variable {c}

theorem mem_usedServerCellPorts {s : Store} {k : Option SlotKey} {p : ℤ} :
    p ∈ usedServerCellPorts c s k ↔
      (p = c.PORT ∨ p ∈ s.portExclusions ∨ p ∈ (s.slotsBut k).map (·.2.port) ∨
        p ∈ s.routePorts) ∧ 0 < p := by
  simp [usedServerCellPorts]

theorem mem_allTakenPorts {s : Store} {routes : List Route} {p : ℤ} :
    p ∈ allTakenPorts c s routes ↔
      (p ∈ usedServerCellPorts c s none ∨ p ∈ routes.map (·.port) ∨ p ∈ s.entryPorts) ∧
        p ≠ 0 := by
  unfold allTakenPorts
  rw [List.mem_filter, List.mem_append, List.mem_append, or_assoc, decide_eq_true_iff]

/-- What the check of a cell's number lets through. -/
theorem assertServerCellPortAvailable_ok {s : Store} {p : ℤ} {k : Option SlotKey}
    (h : assertServerCellPortAvailable c s p k = .ok ()) :
    1 ≤ p ∧ p ≤ 65535 ∧ p ≠ c.PORT ∧ p ∉ s.portExclusions ∧
      p ∉ (s.slotsBut k).map (·.2.port) ∧ p ∉ s.routePorts := by
  obtain ⟨_, hrange, hused⟩ := Except.bind_eq_ok h
  have hr := refuseIf_ok hrange
  have hu := refuseIf_ok hused
  rw [mem_usedServerCellPorts] at hu
  push Not at hr hu
  have hfree (h : p = c.PORT ∨ p ∈ s.portExclusions ∨ p ∈ (s.slotsBut k).map (·.2.port) ∨
      p ∈ s.routePorts) : False := absurd (hu h) (by omega)
  exact ⟨hr.1, hr.2, fun h => hfree (.inl h), fun h => hfree (.inr (.inl h)),
    fun h => hfree (.inr (.inr (.inl h))), fun h => hfree (.inr (.inr (.inr h)))⟩

theorem nextAgentPort_ok {claimed : List ℤ} {listening : ℤ → Bool} {candidate p : ℤ}
    (h : nextAgentPort c claimed listening candidate = .ok p) : p ∉ claimed := by
  induction candidate using nextAgentPort.induct c claimed listening with
  | case1 candidate ht hu =>
    rw [nextAgentPort, if_pos ht, if_pos hu] at h
    cases h
  | case2 candidate ht hu ih =>
    rw [nextAgentPort, if_pos ht, if_neg hu] at h
    exact ih h
  | case3 candidate ht =>
    rw [nextAgentPort, if_neg ht] at h
    obtain rfl := Except.ok.inj h
    exact fun hp => ht (.inl hp)

/-- Where no number stands twice, the loader reads every row. -/
theorem loadRoutes_eq {rs : List Route} {seen : List ℤ}
    (hn : (rs.map (·.port)).Nodup) (hd : ∀ r ∈ rs, r.port ∉ seen) : loadRoutes rs seen = rs := by
  induction rs generalizing seen with
  | nil => rfl
  | cons r rs ih =>
    have hn' := List.nodup_cons.mp hn
    rw [loadRoutes, if_neg (hd r List.mem_cons_self)]
    refine congrArg (r :: ·) (ih hn'.2 fun r' hr' hmem => ?_)
    rcases List.mem_cons.mp hmem with he | hs
    · exact hn'.1 (List.mem_map.mpr ⟨r', hr', he⟩)
    · exact hd r' (List.mem_cons_of_mem r hr') hs

end Ports
