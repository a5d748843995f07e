import Caravan.Framework.Requests
import Caravan.Ports.Operations
import Caravan.Python.Dict
import Mathlib.Data.List.Sort

/-!
# A cell's autostart

A scout keeps the start request of a cell that starts with its machine, by the cell's port, and its
reports carry the kept requests. The controller makes a record of each cell that it lacks
(`KeptCells`). So a deletion takes the request away before the record goes, and a port move takes it
to the new port: off at the old one before the records move, on at the new one after
(`CellAutostart`).

This module is the model of the deletion, the two moves and the report, each as the steps it takes
on the controller's records, on what the host records say, and on what the scouts keep. A scout
answers, and does what it is asked; what its report says was taken at one moment, and is read at
others.
-/

namespace Cells

open Python Requests Ports

/-- A start request, as a scout keeps it: what a record is made of. -/
structure StartRequest where
  modelPath : Text
  cacheModels : Bool
  /-- `none` where it is no dictionary -/
  config : Option Dict

/-- A cell's record, without the place that its key says. -/
structure Slot where
  config : Option Dict := none
  model : Option Text := none
  cacheModels : Bool := false
  adoptedFrom : Option Text := none

/-- The controller's records, what its host records say of the requests that are kept, and what the
scouts keep. -/
structure Store where
  serverSlots : List (SlotKey × Slot)
  /-- the `autostart` of each host record -/
  hosts : List (Text × List ℤ)
  /-- of each scout, by its id, and port -/
  kept : List (SlotKey × StartRequest)
  /-- the places that a deletion or a move has left, and no move has filled since -/
  left : List SlotKey

/-- What the steps read beside the records. -/
structure Outside where
  /-- the controller's own port, an excluded one, or a proxy's -/
  reserved : ℤ → Bool
  /-- `scout_start_payload` of `scout_start_body`, or none where it is refused -/
  startRequest : Text → ℤ → Slot → Option StartRequest

/-- What was done to a request. -/
structure Said where
  port : ℤ
  enabled : Bool
  ok : Bool
  deriving DecidableEq, Repr

inductive Answer
  | deleted (removed : Bool) (autostart : Option Said)
  | moved (said : List Said)
  | refused (e : Raised)
  /-- a report that was stored: the ports a record was made on -/
  | recorded (made : List ℤ)
  /-- a machine that the board does not hold -/
  | unknown
  deriving DecidableEq, Repr

abbrev Steps := Proc Store Answer

/-! ### The scouts -/

/-- Where a scout keeps the request of a port. -/
def scoutKey (host : Text) (port : ℤ) : SlotKey := ⟨host.strip, port⟩

namespace Store

/-- `CellAutostart.kept`: what the host record says. -/
def told (x : Store) (host : Text) (port : ℤ) : Bool :=
  ((Assoc.get x.hosts (canonicalHostId host)).getD []).contains port

/-- What the scout keeps. -/
def keeps (x : Store) (host : Text) (port : ℤ) : Bool :=
  (Assoc.get x.kept (scoutKey host port)).isSome

/-- The requests that a scout keeps, by port. -/
def requestsOf (x : Store) (host : Text) : List (ℤ × StartRequest) :=
  (x.kept.filter fun e => e.1.hostId = host.strip).map fun e => (e.1.port, e.2)

/-- The ports that a scout answers with. -/
def portsOf (x : Store) (host : Text) : List ℤ := (x.requestsOf host).map Prod.fst

def takenOff (x : Store) (host : Text) (port : ℤ) : Store :=
  { x with kept := Assoc.del x.kept (scoutKey host port) }

def putOn (x : Store) (host : Text) (port : ℤ) (request : StartRequest) : Store :=
  { x with kept := Assoc.set x.kept (scoutKey host port) request }

/-- The host record takes the scout's answer. -/
def answered (x : Store) (host : Text) (ports : List ℤ) : Store :=
  if (Assoc.get x.hosts host.strip).isSome then
    { x with hosts := Assoc.set x.hosts host.strip ports }
  else x

end Store

variable (O : Outside)

/-- `CellAutostart._set`, off -/
def takeOff (host : Text) (port : ℤ) (k : Said → Steps) : Steps :=
  .step (·.takenOff host port) fun x =>
  .update (·.answered host ((x.takenOff host port).portsOf host)) (k ⟨port, false, true⟩)

/-- `CellAutostart._set`, on: of the record as it then stands. What refuses the request is said. -/
def putOn (host : Text) (port : ℤ) (k : Said → Steps) : Steps :=
  .read fun x =>
  match (Assoc.get x.serverSlots (serverSlotKey host port)).bind (O.startRequest host port) with
  | none => k ⟨port, true, false⟩
  | some request =>
    .step (·.putOn host port request) fun y =>
    .update (·.answered host ((y.putOn host port request).portsOf host)) (k ⟨port, true, true⟩)

/-- One after the other, with what was said of each. -/
def eachSet (set : Text × ℤ → (Said → Steps) → Steps) :
    List (Text × ℤ) → (List Said → Steps) → Steps
  | [], k => k []
  | a :: l, k => set a fun said => eachSet set l fun saids => k (said :: saids)

/-! ### The deletion -/

/-- A place is left. -/
def Store.vacate (x : Store) (key : SlotKey) : Store :=
  { x with serverSlots := Assoc.del x.serverSlots key, left := key :: x.left }

/-- A cell is put in a place. -/
def Store.fill (x : Store) (key : SlotKey) (slot : Slot) : Store :=
  { x with
    serverSlots := Assoc.set x.serverSlots key slot, left := x.left.filter fun k => k ≠ key }

/-- `client_server_slot_delete`; the scout's stop, which comes last, keeps what it keeps. -/
def clientServerSlotDelete (hostId : Text) (port : ℤ) : Steps :=
  let host := hostId.strip
  if host = [] ∨ port = 0 then
    .done (.refused (.refused ⟨"hostId and port are required", 400⟩))
  else
    let remove (said : Option Said) : Steps :=
      .step (·.vacate (serverSlotKey host port)) fun x =>
      .done (.deleted (Assoc.get x.serverSlots (serverSlotKey host port)).isSome said)
    .read fun x =>
    if x.told host port then takeOff host port fun said => remove (some said)
    else remove none

/-! ### The moves -/

/-- `assert_server_cell_port_available` -/
def Store.portAvailable (x : Store) (port : ℤ) (excludeKey : SlotKey) : Except AppError Unit := do
  refuseIf (port < 1 ∨ 65535 < port) ⟨"port must be between 1 and 65535", 400⟩
  refuseIf (O.reserved port ∨ ∃ e ∈ Assoc.del x.serverSlots excludeKey, e.1.port = port)
    ⟨Text.of s!"server cell port {port} is already reserved", 409⟩

/-- The record on its new port: its saved config says it too. -/
def Slot.onPort (slot : Slot) (port : ℤ) : Slot :=
  { slot with config := slot.config.map fun cfg =>
      if cfg.isEmpty then cfg else cfg.set (Text.of "PORT") (.str (Text.of s!"{port}")) }

/-- `del slots[key]` -/
def vacate (key : SlotKey) (k : Except Raised Unit → Steps) : Steps :=
  .step (·.vacate key) fun x =>
  if (Assoc.get x.serverSlots key).isSome then k (.ok ()) else k (.error (.keyError key))

/-- `reassign_server_slot_port`: each name of the cell follows after that, and what does not is
said. -/
def reassignServerSlotPort (hostId : Text) (oldPort newPort : ℤ)
    (k : Except Raised Unit → Steps) : Steps :=
  let refuse (e : AppError) := k (.error (.refused e))
  let host := hostId.strip
  let oldKey := serverSlotKey host oldPort
  if host = [] ∨ oldPort = 0 ∨ newPort = 0 then
    refuse ⟨"hostId, port and newPort are required", 400⟩
  else if newPort = oldPort then refuse ⟨"newPort equals the current port", 400⟩
  else .read fun x =>
    match Assoc.get x.serverSlots oldKey with
    | none => refuse ⟨Text.of "no server slot " ++ oldKey.text, 404⟩
    | some slot => .read fun y =>
      match y.portAvailable O newPort oldKey with
      | .error e => refuse e
      | .ok _ => vacate oldKey fun
        | .error e => k (.error e)
        | .ok _ => .update (·.fill (serverSlotKey host newPort) (slot.onPort newPort)) (k (.ok ()))

/-- The cell that a swap finds by its port. -/
def Store.cellOn (x : Store) (port : ℤ) : Option (SlotKey × Slot) :=
  x.serverSlots.find? fun e => e.1.port = port

/-- `swap_server_slot_ports` -/
def swapServerSlotPorts (hostId : Text) (portA portB : ℤ) (k : Except Raised Unit → Steps) :
    Steps :=
  let refuse (e : AppError) := k (.error (.refused e))
  let host := hostId.strip
  let keyA := serverSlotKey host portA
  if host = [] ∨ portA = 0 ∨ portB = 0 then
    refuse ⟨"hostId, port and targetPort are required", 400⟩
  else if portA = portB then refuse ⟨"a cell cannot swap with itself", 400⟩
  else .read fun x =>
    match Assoc.get x.serverSlots keyA with
    | none => refuse ⟨Text.of "no server slot " ++ keyA.text, 404⟩
    | some slotA => .read fun y =>
      match y.cellOn portB with
      | none => refuse ⟨Text.of s!"port :{portB} is not a cell — only two cells can swap", 400⟩
      | some (keyB, slotB) => vacate keyA fun
        | .error e => k (.error e)
        | .ok _ => vacate keyB fun
          | .error e => k (.error e)
          | .ok _ =>
            .update (·.fill (serverSlotKey host portB) (slotA.onPort portB)) <|
            .update (·.fill (serverSlotKey keyB.hostId portA) (slotB.onPort portA)) (k (.ok ()))

/-- A cell's move, as the requests follow it. -/
structure Move where
  host : Text
  oldPort : ℤ
  newPort : ℤ

def Move.old (m : Move) : Text × ℤ := (m.host, m.oldPort)

def Move.new (m : Move) : Text × ℤ := (m.host, m.newPort)

/-- The moves whose request is kept, one asked after the other. -/
def keptMoves : List Move → (List Move → Steps) → Steps
  | [], k => k []
  | m :: ms, k => .read fun x =>
    keptMoves ms fun kept => k (if x.told m.host m.oldPort then m :: kept else kept)

/-- What `CellAutostart.moved` does with the requests that are kept. -/
def movedKept (kept : List Move) (change : (Except Raised Unit → Steps) → Steps) : Steps :=
  eachSet (fun a => takeOff a.1 a.2) (kept.map Move.old) fun off =>
  change fun
    | .error e => eachSet (fun a => putOn O a.1 a.2) (kept.map Move.old) fun _ =>
      .done (.refused e)
    | .ok _ => eachSet (fun a => putOn O a.1 a.2) (kept.map Move.new) fun on =>
      .done (.moved (off ++ on))

/-- `CellAutostart.moved` -/
def moved (moves : List Move) (change : (Except Raised Unit → Steps) → Steps) : Steps :=
  keptMoves moves fun kept => movedKept O kept change

/-- The moves of a swap: the other cell is found by its port, on any machine. -/
def swapMoves (x : Store) (hostId : Text) (portA portB : ℤ) : List Move :=
  ⟨hostId.strip, portA, portB⟩ ::
    ((x.cellOn portB).map fun e => ⟨e.1.hostId, portB, portA⟩).toList

/-! ### The reports -/

/-- `v is None` -/
def isNull : Value → Bool
  | .null => true
  | _ => false

/-- `slots[key] = slot` -/
def Store.withSlot (x : Store) (key : SlotKey) (slot : Slot) : Store :=
  { x with serverSlots := Assoc.set x.serverSlots key slot }

/-- `upsert_server_slot`, as `KeptCells` calls it -/
def Store.upsertServerSlot (x : Store) (key : SlotKey) (config : Dict) (model : Text) : Store :=
  let slot := (Assoc.get x.serverSlots key).getD {}
  x.withSlot key { slot with
    model := if model = [] then slot.model else some (model.take 300)
    config := some (config.filter fun e => !isNull e.2) }

/-- `topo.put_slot`, with what `KeptCells` writes in the record it has made -/
def Store.putSlot (x : Store) (key : SlotKey) (slot : Slot) (cacheModels : Bool) : Store :=
  x.withSlot key { slot with cacheModels, adoptedFrom := some (Text.of "scout") }

/-- `KeptCells.port` -/
def keptPort (port : ℤ) : ℤ := if 1 ≤ port ∧ port ≤ 65535 then port else 0

/-- One turn of `KeptCells.adopt`. -/
def adoptOne (host : Text) (entry : ℤ × StartRequest) (k : List ℤ → Steps) : Steps :=
  let port := keptPort entry.1
  let key := serverSlotKey host port
  match entry.2.config with
  | none => k []
  | some config =>
    if port = 0 then k []
    else .read fun x =>
      if (Assoc.get x.serverSlots key).isSome then k []
      else .read fun y =>
        -- the number is taken here: no record made
        if O.reserved port ∨ ∃ e ∈ y.serverSlots, e.1.port = port then k []
        else .step (·.upsertServerSlot key config entry.2.modelPath) fun z =>
          let slot := (Assoc.get (z.upsertServerSlot key config entry.2.modelPath).serverSlots
            key).getD {}
          .update (·.putSlot key slot entry.2.cacheModels) (k [port])

def adoptEach (host : Text) : List (ℤ × StartRequest) → (List ℤ → Steps) → Steps
  | [], k => k []
  | e :: es, k => adoptOne O host e fun made => adoptEach host es fun more => k (made ++ more)

/-- `KeptCells.adopt` -/
def adopt (host : Text) (requests : List (ℤ × StartRequest)) : Steps :=
  if isControllerHost host then .done (.recorded [])
  else adoptEach O host (requests.insertionSort fun a b => keptPort a.1 ≤ keptPort b.1) fun made =>
    .done (.recorded made)

/-- A report: its content is taken, it arrives, and `record_host_report` stores it and makes the
records. -/
def recordHostReport (host : Text) (onlyKnown : Bool) : Steps :=
  .read fun taken =>
  .read fun x =>
  if onlyKnown ∧ Assoc.get x.hosts host.strip = none then .done .unknown
  else .update (fun y => { y with hosts := Assoc.set y.hosts host.strip (taken.portsOf host) })
    (adopt O host.strip (taken.requestsOf host))

/-! ### The requests -/

inductive Request
  | delete (host : Text) (port : ℤ)
  | move (host : Text) (oldPort newPort : ℤ)
  | swap (host : Text) (portA portB : ℤ)
  /-- a beat, or a pull, which knows a machine that the board does not hold no more -/
  | report (host : Text) (onlyKnown : Bool)
  deriving DecidableEq, Repr

def Request.proc : Request → Steps
  | .delete host port => clientServerSlotDelete host port
  | .move host oldPort newPort =>
    moved O [⟨host.strip, oldPort, newPort⟩] (reassignServerSlotPort O host oldPort newPort)
  | .swap host portA portB => .read fun x =>
    moved O (swapMoves x host portA portB) (swapServerSlotPorts host portA portB)
  | .report host onlyKnown => recordHostReport O host onlyKnown

end Cells
