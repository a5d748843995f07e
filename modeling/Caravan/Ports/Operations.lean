import Caravan.Ports.Registers

/-!
# The operations on the registers

The writers of the port numbers: the cells' (`server_cells.py`, `cell_ops.py`,
`client_llama_start`), the exclusions' (`set_exclusions`), the routes' (`_write_routes`, and
`mint_agent_port` over it) and the entry's (`EntrySettings.write`). Each is a function of
the registers that answers, or raises, and leaves the registers as they then stand: a
writer that raises half way has written its first half.

A request is kept with the fields a check reads. What a request may be refused for beyond
these is a field of it (`plan`, `others`, `scout`).
-/

namespace Ports

open Python

/-- What an operation raises. -/
inductive Raised
  | refused (e : AppError)
  | keyError (k : SlotKey)
  deriving DecidableEq, Repr

/-- What an operation answers, and the registers it leaves. -/
abbrev Outcome := Except Raised Unit × Store

/-- The checks made before the first write: where one refuses, nothing is written. -/
def attempt {α : Type} (s : Store) (checks : Except AppError α) (write : α → Outcome) : Outcome :=
  match checks with
  | .error e => (.error (.refused e), s)
  | .ok a => write a

variable (c : Config)

/-! ### The cells -/

/-- A slot under its own key. -/
def Store.putSlot (s : Store) (hostId : Text) (port : ℤ) : Store :=
  { s with
    serverSlots := Assoc.put s.serverSlots (serverSlotKey hostId port)
      ⟨canonicalHostId hostId, port⟩ }

/-- `upsert_server_slot` -/
def upsertServerSlot (s : Store) (hostId : Text) (port : ℤ) : Outcome :=
  attempt s (refuseControllerHost hostId) fun _ => (.ok (), s.putSlot hostId port)

/-- The key a cell's own number is excused by. -/
def Store.ownKey (s : Store) (hostId : Text) (port : ℤ) : Option SlotKey :=
  if s.hasSlot hostId port then some (serverSlotKey hostId port) else none

structure ReserveBody where
  hostId : Text
  /-- what `EngineCellPlan.from_body` says -/
  plan : Except AppError Unit
  port : Option ℤ

/-- The number a reservation takes: the one it names, or the allocator's. -/
def ReserveBody.number (b : ReserveBody) (s : Store) : ℤ := b.port.getD (nextServerCellPort c s)

/-- `reserve_server_cell` -/
def reserveServerCell (s : Store) (b : ReserveBody) : Outcome :=
  let hostId := b.hostId.strip
  let port := b.number c s
  attempt s (do
    refuseIf (hostId = []) ⟨"hostId is required", 400⟩
    refuseControllerHost hostId
    b.plan
    assertServerCellPortAvailable c s port (s.ownKey hostId port)) fun _ =>
  upsertServerSlot s hostId port

structure CellBody where
  hostId : Text
  port : ℤ

/-- `server_cell_save_config` -/
def serverCellSaveConfig (s : Store) (b : CellBody) : Outcome :=
  let hostId := b.hostId.strip
  attempt s (do
    refuseIf (hostId = [] ∨ b.port = 0) ⟨"hostId and port are required", 400⟩
    -- a cell that exists keeps the number it has
    if s.hasSlot hostId b.port then .ok ()
    else assertServerCellPortAvailable c s b.port none) fun _ =>
  upsertServerSlot s hostId b.port

structure ReassignBody where
  hostId : Text
  port : ℤ
  newPort : ℤ

/-- The slot under a key, or why there is none. -/
def Store.slotAt (s : Store) (k : SlotKey) : Except AppError Slot :=
  match Assoc.get s.serverSlots k with
  | none => .error ⟨Text.of "no server slot " ++ k.text, 404⟩
  | some slot => .ok slot

/-- `reassign_server_slot_port` -/
def reassignServerSlotPort (s : Store) (b : ReassignBody) : Outcome :=
  let hostId := b.hostId.strip
  let oldKey := serverSlotKey hostId b.port
  attempt s (do
    refuseIf (hostId = [] ∨ b.port = 0 ∨ b.newPort = 0)
      ⟨"hostId, port and newPort are required", 400⟩
    refuseIf (b.newPort = b.port) ⟨"newPort equals the current port", 400⟩
    let slot ← s.slotAt oldKey
    assertServerCellPortAvailable c s b.newPort (some oldKey)
    return slot) fun slot =>
  (.ok (), { s with
    serverSlots := Assoc.put (Assoc.del s.serverSlots oldKey) (serverSlotKey hostId b.newPort)
      { slot with port := b.newPort } })

/-- The cell a swap finds by its number, with its key. -/
def Store.cellOn (s : Store) (port : ℤ) : Except AppError (SlotKey × Slot) :=
  match s.serverSlots.find? (·.2.port = port) with
  | none => .error ⟨Text.of s!"port :{port} is not a cell — only two cells can swap", 400⟩
  | some other => .ok other

structure SwapBody where
  hostId : Text
  port : ℤ
  targetPort : ℤ

/-- `swap_server_slot_ports` -/
def swapServerSlotPorts (s : Store) (b : SwapBody) : Outcome :=
  let hostA := b.hostId.strip
  let keyA := serverSlotKey hostA b.port
  attempt s (do
    refuseIf (hostA = [] ∨ b.port = 0 ∨ b.targetPort = 0)
      ⟨"hostId, port and targetPort are required", 400⟩
    refuseIf (b.port = b.targetPort) ⟨"a cell cannot swap with itself", 400⟩
    let slotA ← s.slotAt keyA
    let other ← s.cellOn b.targetPort
    return (slotA, other)) fun (slotA, keyB, slotB) =>
  let detached := Assoc.del s.serverSlots keyA
  if keyB = keyA then (.error (.keyError keyB), { s with serverSlots := detached })
  else
    (.ok (), { s with
      serverSlots := Assoc.put
        (Assoc.put (Assoc.del detached keyB) (serverSlotKey hostA b.targetPort)
          { slotA with port := b.targetPort })
        (serverSlotKey slotB.hostId b.port) { slotB with port := b.port } })

/-- `move_server_cell` -/
def moveServerCell (s : Store) (hostId : Text) (oldPort newPort : ℤ) : Outcome :=
  let oldKey := serverSlotKey hostId oldPort
  attempt s (assertServerCellPortAvailable c s newPort (some oldKey)) fun _ =>
  -- the old slot is gone before the new one may be refused
  upsertServerSlot { s with serverSlots := Assoc.del s.serverSlots oldKey } hostId newPort

structure StartBody where
  hostId : Text
  /-- what `_scout` and `scout_start_payload` say -/
  scout : Except AppError Unit
  port : ℤ
  cellPort : Option ℤ
  /-- whether the scout answered that it started the cell -/
  started : Bool

/-- The number a start asks for, checked: the cell may sit on another one. -/
def StartBody.reserve (s : Store) (b : StartBody) : Outcome :=
  let hostId := b.hostId.strip
  match b.cellPort with
  | some old =>
    if old ≠ b.port then moveServerCell c s hostId old b.port
    else
      attempt s (assertServerCellPortAvailable c s b.port (some (serverSlotKey hostId b.port)))
        fun _ => (.ok (), s)
  | none =>
    attempt s (assertServerCellPortAvailable c s b.port (s.ownKey hostId b.port)) fun _ =>
    (.ok (), s)

/-- `client_llama_start` -/
def clientLlamaStart (s : Store) (b : StartBody) : Outcome :=
  attempt s (do
    refuseIf (b.hostId.strip = []) ⟨"hostId is required", 400⟩
    b.scout) fun _ =>
  match b.reserve c s with
  | (.error e, s) => (.error e, s)
  -- what the slot's record raises is caught
  | (.ok _, s) => (.ok (), if b.started then (upsertServerSlot s b.hostId.strip b.port).2 else s)

/-- The loop of `move_host_cells`. -/
def rehost (src dst : Text) : List Slot → Store → Outcome
  | [], s => (.ok (), s)
  | slot :: slots, s =>
    match Assoc.get s.serverSlots (serverSlotKey src slot.port) with
    | none => (.error (.keyError (serverSlotKey src slot.port)), s)
    | some _ => rehost src dst slots { s with
        serverSlots := Assoc.put (Assoc.del s.serverSlots (serverSlotKey src slot.port))
          (serverSlotKey dst slot.port) { slot with hostId := dst } }

/-- Numbers as a message lists them. -/
def listed (sign : String) (ports : List ℤ) : Text :=
  Text.of (", ".intercalate (ports.map fun p => s!"{sign}{p}"))

structure RehostBody where
  src : Text
  dst : Text

/-- `move_host_cells` -/
def moveHostCells (s : Store) (b : RehostBody) : Outcome :=
  let src := canonicalHostId b.src
  let dst := canonicalHostId b.dst
  let moving := ((s.serverSlots.map (·.2)).filter (·.hostId = src)).mergeSort (·.port ≤ ·.port)
  let taken := (moving.map (·.port)).filter (s.hasSlot dst ·)
  attempt s (do
    refuseIf (src = [] ∨ dst = []) ⟨"both machines are required: from and to", 400⟩
    refuseIf (src = dst) ⟨"from and to are the same machine", 400⟩
    refuseControllerHost src
    refuseControllerHost dst
    refuseIf (moving = []) ⟨Text.of "no cells are configured on " ++ src, 404⟩
    refuseIf (taken ≠ []) ⟨dst ++ Text.of " already has cells on " ++ listed ":" taken, 409⟩)
    fun _ =>
  rehost src dst moving s

/-- `delete_server_slot` -/
def deleteServerSlot (s : Store) (b : CellBody) : Outcome :=
  (.ok (), { s with serverSlots := Assoc.del s.serverSlots (serverSlotKey b.hostId b.port) })

/-- The loop of `KeptCells.adopt`. -/
def adoptEach (hostId : Text) : List ℤ → Store → Store
  | [], s => s
  | port :: ports, s =>
    if port < 1 ∨ 65535 < port ∨ s.hasSlot hostId port ∨ port ∈ usedServerCellPorts c s none then
      adoptEach hostId ports s
    else adoptEach hostId ports (s.putSlot hostId port)

structure KeptBody where
  hostId : Text
  /-- the numbers of the kept requests that can be read -/
  requests : List ℤ

/-- `KeptCells.adopt` -/
def adopt (s : Store) (b : KeptBody) : Outcome :=
  let hostId := b.hostId.strip
  if hostId = [] ∨ isControllerHost hostId then (.ok (), s)
  else (.ok (), adoptEach c hostId (b.requests.mergeSort (· ≤ ·)) s)

/-! ### The exclusions -/

/-- The numbers `set_exclusions` holds taken: the fleet's own. -/
def notExcludable (s : Store) : List ℤ :=
  (usedServerCellPorts c s none).filter (· ∉ s.portExclusions)

/-- The first loop of `set_exclusions`. -/
def addExclusions : List ℤ → Store → Outcome
  | [], s => (.ok (), s)
  | port :: ports, s =>
    attempt s (do
      refuseIf (port < 1 ∨ 65535 < port) ⟨Text.of s!"port {port} is out of range", 400⟩
      refuseIf (port ∈ notExcludable c s)
        ⟨Text.of s!"port {port} already belongs to a cell or proxy — move that first", 409⟩)
      fun _ =>
    addExclusions ports { s with
      portExclusions :=
        if port ∈ s.portExclusions then s.portExclusions else s.portExclusions ++ [port] }

structure ExclusionsBody where
  add : List ℤ
  remove : List ℤ

/-- `set_exclusions` -/
def setExclusions (s : Store) (b : ExclusionsBody) : Outcome :=
  match addExclusions c b.add s with
  | (.error e, s) => (.error e, s)
  | (.ok _, s) =>
    (.ok (), { s with portExclusions := s.portExclusions.filter (· ∉ b.remove) })

/-! ### The routes -/

/-- A row of a route as it is posted: a field that is left out is not there. -/
structure Posted where
  label : Text
  port : ℤ
  kind : Text
  upstreamHost : Text
  upstreamPort : ℤ
  apiKey : Option Text
  portClosed : Option Bool
  /-- what the other fields may be refused for -/
  others : Except AppError Unit

/-- A stored row, posted as it stands. -/
def Route.posted (r : Route) : Posted where
  label := r.label
  port := r.port
  kind := r.kind
  upstreamHost := r.upstreamHost
  upstreamPort := r.upstreamPort
  apiKey := some r.apiKey
  portClosed := if r.portClosed then some true else none
  others := .ok ()

/-- `PolicyOwnedFields.kept` -/
def Posted.kept (stored : List Route) (r : Posted) : Posted :=
  match stored.find? (·.port = r.port) with
  | none => r
  | some old =>
    { r with
      apiKey := r.apiKey.or (some old.apiKey)
      portClosed := r.portClosed.or (if old.portClosed then some true else none) }

/-- A character of `^[A-Za-z0-9_.:-]+$` -/
def isHostChar (ch : CodePoint) : Bool :=
  (0x41 ≤ ch.val && ch.val ≤ 0x5A) || (0x61 ≤ ch.val && ch.val ≤ 0x7A) ||
    (0x30 ≤ ch.val && ch.val ≤ 0x39) || ch ∈ Text.of "_.:-"

/-- `value or default` of a text -/
def orText (t : Text) (default : Text) : Text := if t = [] then default else t

/-- `normalize_agent_proxy_route` -/
def normalizeAgentProxyRoute (r : Posted) : Except AppError Route := do
  let label := r.label.strip.take 80
  let upstreamHost := (orText r.upstreamHost "127.0.0.1").strip
  let upstreamPort := if r.upstreamPort = 0 then 8080 else r.upstreamPort
  let kind : Text := r.kind.strip.map lowerAscii
  refuseIf (label = []) ⟨"label is required", 400⟩
  refuseIf (r.port < 1024 ∨ 65535 < r.port) ⟨"proxy port must be 1024..65535", 400⟩
  refuseIf (upstreamPort < 1 ∨ 65535 < upstreamPort) ⟨"upstream port must be 1..65535", 400⟩
  refuseIf (¬ (upstreamHost ≠ [] ∧ upstreamHost.all isHostChar))
    ⟨"upstream host contains unsupported characters", 400⟩
  refuseIf (kind = Text.of "service")
    ⟨"a pool's own port is gone: a client comes in through the entry with its own key", 400⟩
  r.others
  return {
    label := label
    port := r.port
    kind := if kind = Text.of "consumer" then kind else []
    upstreamHost := upstreamHost
    upstreamPort := upstreamPort
    apiKey := (r.apiKey.getD []).strip.take 128
    portClosed := r.portClosed.getD false }

/-- The loop of `_write_routes`. -/
def cleanRoutes (stored : List Route) : List Posted → List ℤ → Except AppError (List Route)
  | [], _ => .ok []
  | r :: rs, seen => do
    let row ← normalizeAgentProxyRoute (r.kept stored)
    refuseIf (row.port ∈ seen) ⟨Text.of s!"duplicate proxy port {row.port}", 400⟩
    let rows ← cleanRoutes stored rs (row.port :: seen)
    return row :: rows

/-- `KeyEntry.shared_keys` -/
def sharedKeys (routes : List Route) : List (Text × List ℤ) :=
  let keys := ((routes.map (·.apiKey.strip)).filter (· ≠ [])).eraseDups
  let found := keys.map fun key =>
    (key, ((routes.filter (·.apiKey.strip = key)).map (·.port)).mergeSort (· ≤ ·))
  found.filter (1 < ·.2.length)

/-- `KeyAudit.problems` -/
def keyProblems (routes : List Route) : List Text :=
  (sharedKeys routes).map (fun (key, ports) =>
    Text.of "ports " ++ listed "" ports ++ Text.of " share one key (…" ++
      key.drop (key.length - 4) ++
      Text.of ") — the entry could not tell their agents apart; give each its own") ++
  (routes.filter fun r => r.portClosed ∧ r.apiKey.strip = []).map fun r =>
    Text.of (s!"port {r.port} is closed and has no key — its agent would have no way in; " ++
      "give it a key first")

/-- `KeyAudit.enforce` -/
def enforceKeys (routes : List Route) : Except AppError Unit :=
  refuseIf (keyProblems routes ≠ [])
    ⟨(Text.of "; ").intercalate (keyProblems routes), 400⟩

/-- The new numbers the firewall would not let in. -/
def outsideRange (before cleaned : List Route) : List ℤ :=
  ((cleaned.map (·.port)).filter fun p =>
    p ∉ before.map (·.port) ∧ ¬ c.proxyHolds p).mergeSort (· ≤ ·)

/-- `_write_routes` -/
def writeRoutes (s : Store) (posted : List Posted) : Outcome :=
  let current := loadRoutes s.routes []
  attempt s (do
    let cleaned ← cleanRoutes current posted []
    let outside := outsideRange c current cleaned
    refuseIf (outside ≠ [])
      ⟨Text.of "port " ++ listed "" outside ++ Text.of (" is outside the proxy range " ++
        s!"{c.AGENT_PROXY_BASE_PORT}–{c.AGENT_PROXY_UPPER_PORT}, the one the firewall lets in " ++
        "— pick a port inside it"), 400⟩
    enforceKeys cleaned
    return cleaned) fun cleaned =>
  (.ok (), { s with routes := cleaned })

structure MintBody where
  clientId : Text
  agentId : Text
  label : Text
  port : Option ℤ
  /-- `port_is_listening` -/
  listening : ℤ → Bool

/-- The number a new agent's port takes. -/
def MintBody.number (s : Store) (b : MintBody) : Except AppError ℤ :=
  let routes := loadRoutes s.routes []
  match b.port with
  | none =>
    nextAgentPort c (routes.map (·.port) ++ allTakenPorts c s []) b.listening
      c.AGENT_PROXY_BASE_PORT
  | some port => do
    refuseIf (port < 1024 ∨ 65535 < port) ⟨Text.of s!"port {port} is out of range", 400⟩
    refuseIf (port ∈ allTakenPorts c s routes)
      ⟨Text.of s!"port {port} is already taken — pick another", 409⟩
    return port

/-- The row of a new agent's port. -/
def MintBody.route (b : MintBody) (port : ℤ) : Posted where
  label := (orText b.label.strip (b.agentId.strip ++ Text.of " port")).take 80
  port := port
  kind := []
  upstreamHost := "127.0.0.1"
  upstreamPort := 8080
  apiKey := none
  portClosed := none
  others := .ok ()

/-- `mint_agent_port` -/
def mintAgentPort (s : Store) (b : MintBody) : Outcome :=
  attempt s (do
    refuseIf (b.clientId.strip = [] ∨ b.agentId.strip = [])
      ⟨"clientId and agentId are required", 400⟩
    b.number c s) fun port =>
  writeRoutes c s ((loadRoutes s.routes []).map Route.posted ++ [b.route port])

/-! ### The entry -/

structure EntryBody where
  /-- no number turns the entry off -/
  port : ℤ
  /-- what `publicUrl` may be refused for -/
  publicUrl : Except AppError Unit
  /-- `port_is_listening` -/
  listening : ℤ → Bool

/-- Who comes in through the entry alone. -/
def entryRefusal (routes : List Route) : Except AppError Unit := do
  let clients := (routes.filter (·.kind = Text.of "consumer")).map (·.label)
  let closed := ((routes.filter (·.portClosed)).map (·.port)).mergeSort (· ≤ ·)
  refuseIf (clients ≠ [])
    ⟨(if 1 < clients.length then
        Text.of "clients " ++ (Text.of ", ").intercalate clients ++ Text.of " call"
      else Text.of "client " ++ clients.flatten ++ Text.of " calls") ++
      Text.of " the caravan only through the entry: delete " ++
      Text.of (if 1 < clients.length then "them" else "it") ++
      Text.of " before turning the entry off", 409⟩
  refuseIf (closed ≠ [])
    ⟨(if 1 < closed.length then
        Text.of "ports " ++ listed "" closed ++
          Text.of " are closed — their agents come in only through the entry; open them"
      else
        Text.of "port " ++ listed "" closed ++
          Text.of " is closed — its agent comes in only through the entry; open it") ++
      Text.of " before closing the entry", 409⟩

/-- `EntrySettings.write` -/
def writeEntry (s : Store) (b : EntryBody) : Outcome :=
  let routes := loadRoutes s.routes []
  if h : 1024 ≤ b.port ∧ b.port ≤ 65535 then
    attempt s (do
      b.publicUrl
      refuseIf (b.port ∈ (allTakenPorts c s routes).filter (· ∉ s.entryPorts))
        ⟨Text.of s!"port {b.port} is already the fleet's (a route, a cell or an excluded port)",
          409⟩
      refuseIf (b.port ∉ s.entryPorts ∧ b.listening b.port)
        ⟨Text.of s!"something already listens on port {b.port}", 409⟩) fun _ =>
    (.ok (), { s with entry := some ⟨b.port, h⟩ })
  else
    attempt s (do
      b.publicUrl
      if b.port = 0 then entryRefusal routes
      else .error ⟨"the entry's port must be 1024..65535", 400⟩) fun _ =>
    (.ok (), { s with entry := none })

end Ports
