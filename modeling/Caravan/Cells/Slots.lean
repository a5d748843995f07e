import Caravan.Launch.ConfigBlock
import Caravan.Ports.Operations
import Caravan.Python.Dict

/-!
# The records of the cells, moved

A cell's record stands in `serverSlots` under its place, `<host>:<port>`, and says the place again
in three of its fields. Four operations of `server_cells.py` move records: one to another port, two
that trade ports, a machine's to another machine, and a cell's that is started on another port than
its record's. This module is the model of them, with a record's other fields whole: the first three
change the record, the last makes one anew.

What the other registers hold (`taken`) and the time are what each operation is given: they are
any, at any of them.
-/

namespace ServerCells

open Python Ports

/-- A record of `serverSlots`: what it says of its place, and its other fields. -/
structure Slot where
  id : SlotKey
  hostId : Text
  port : ℤ
  fields : Dict

abbrev Slots := List (SlotKey × Slot)

/-- What an operation answers, and the records it leaves. -/
abbrev Outcome := Except Raised Unit × Slots

/-- Where a check refuses, nothing is written. -/
def attempt {β : Type} (slots : Slots) (checks : Except AppError β) (write : β → Outcome) :
    Outcome :=
  match checks with
  | .error e => (.error (.refused e), slots)
  | .ok b => write b

/-! ### A record in another place -/

/-- `cfg["PORT"] = str(port)`, of settings that hold something. -/
def withPort (port : ℤ) : Value → Value
  | .dict (e :: config) => .dict (Dict.set (e :: config) (Text.of "PORT") (.str (intRepr port)))
  | v => v

/-- A field of a record, changed where it stands. -/
def changed (key : Text) (f : Value → Value) (fields : Dict) : Dict :=
  fields.map fun e => if e.1 = key then (e.1, f e.2) else e

/-- `slot["updatedAt"] = int(time.time())` -/
def stamped (now : ℤ) (fields : Dict) : Dict := fields.set (Text.of "updatedAt") (.int now)

/-- `_move` of a swap, and the same lines of a reassignment. -/
def Slot.onPort (slot : Slot) (now : ℤ) (key : SlotKey) : Slot where
  id := key
  hostId := slot.hostId
  port := key.port
  fields := changed (Text.of "config") (withPort key.port) (stamped now slot.fields)

/-- `slot.update(…)` of `move_host_cells` -/
def Slot.onHost (slot : Slot) (now : ℤ) (host : Text) : Slot where
  id := serverSlotKey host slot.port
  hostId := host
  port := slot.port
  fields := stamped now slot.fields

/-! ### The three operations that change a record -/

/-- `used_server_cell_ports` -/
def usedServerCellPorts (taken : List ℤ) (slots : Slots) (excludeKey : SlotKey) : List ℤ :=
  (taken ++ (Assoc.del slots excludeKey).map (·.2.port)).filter (0 < ·)

/-- `assert_server_cell_port_available` -/
def assertServerCellPortAvailable (taken : List ℤ) (slots : Slots) (port : ℤ)
    (excludeKey : SlotKey) : Except AppError Unit := do
  refuseIf (port < 1 ∨ 65535 < port) ⟨"port must be between 1 and 65535", 400⟩
  refuseIf (port ∈ usedServerCellPorts taken slots excludeKey)
    ⟨Text.of s!"server cell port {port} is already reserved", 409⟩

/-- The record under a key, or why there is none. -/
def slotAt (slots : Slots) (key : SlotKey) : Except AppError Slot :=
  match Assoc.get slots key with
  | none => .error ⟨Text.of "no server slot " ++ key.text, 404⟩
  | some slot => .ok slot

/-- `reassign_server_slot_port` -/
def reassignServerSlotPort (now : ℤ) (taken : List ℤ) (b : ReassignBody) (slots : Slots) :
    Outcome :=
  let hostId := b.hostId.strip
  let oldKey := serverSlotKey hostId b.port
  let newKey := serverSlotKey hostId b.newPort
  attempt slots (do
    refuseIf (hostId = [] ∨ b.port = 0 ∨ b.newPort = 0)
      ⟨"hostId, port and newPort are required", 400⟩
    refuseIf (b.newPort = b.port) ⟨"newPort equals the current port", 400⟩
    let slot ← slotAt slots oldKey
    assertServerCellPortAvailable taken slots b.newPort oldKey
    return slot) fun slot =>
  (.ok (), Assoc.set (Assoc.del slots oldKey) newKey (slot.onPort now newKey))

/-- The cell that a swap finds by its number alone, with its key. -/
def cellOn (slots : Slots) (port : ℤ) : Except AppError (SlotKey × Slot) :=
  match slots.find? (·.2.port = port) with
  | none => .error ⟨Text.of s!"port :{port} is not a cell — only two cells can swap", 400⟩
  | some other => .ok other

/-- `swap_server_slot_ports` -/
def swapServerSlotPorts (now : ℤ) (b : SwapBody) (slots : Slots) : Outcome :=
  let hostA := b.hostId.strip
  let keyA := serverSlotKey hostA b.port
  attempt slots (do
    refuseIf (hostA = [] ∨ b.port = 0 ∨ b.targetPort = 0)
      ⟨"hostId, port and targetPort are required", 400⟩
    refuseIf (b.port = b.targetPort) ⟨"a cell cannot swap with itself", 400⟩
    let slotA ← slotAt slots keyA
    let other ← cellOn slots b.targetPort
    return (slotA, other)) fun (slotA, keyB, slotB) =>
  let hostB := if slotB.hostId = [] then keyB.hostId else slotB.hostId
  let detached := Assoc.del slots keyA
  if keyB = keyA then (.error (.keyError keyB), detached)
  else
    let newA := serverSlotKey hostA b.targetPort
    let newB := serverSlotKey hostB b.port
    (.ok (), Assoc.set (Assoc.set (Assoc.del detached keyB) newA (slotA.onPort now newA)) newB
      (slotB.onPort now newB))

/-- The loop of `move_host_cells`. -/
def rehost (now : ℤ) (src dst : Text) : List Slot → Slots → Outcome
  | [], slots => (.ok (), slots)
  | slot :: moving, slots =>
    let oldKey := serverSlotKey src slot.port
    match Assoc.get slots oldKey with
    | none => (.error (.keyError oldKey), slots)
    | some _ => rehost now src dst moving
        (Assoc.set (Assoc.del slots oldKey) (serverSlotKey dst slot.port) (slot.onHost now dst))

/-- The records of a machine, by their ports. -/
def movingFrom (slots : Slots) (src : Text) : List Slot :=
  ((slots.map (·.2)).filter (·.hostId = src)).mergeSort (·.port ≤ ·.port)

/-- The numbers that another machine already has. -/
def takenOn (slots : Slots) (dst : Text) (moving : List Slot) : List ℤ :=
  (moving.map (·.port)).filter fun port => (Assoc.get slots (serverSlotKey dst port)).isSome

/-- `move_host_cells` -/
def moveHostCells (now : ℤ) (b : RehostBody) (slots : Slots) : Outcome :=
  let src := canonicalHostId b.src
  let dst := canonicalHostId b.dst
  let moving := movingFrom slots src
  let taken := takenOn slots dst moving
  attempt slots (do
    refuseIf (src = [] ∨ dst = []) ⟨"both machines are required: from and to", 400⟩
    refuseIf (src = dst) ⟨"from and to are the same machine", 400⟩
    refuseControllerHost src
    refuseControllerHost dst
    refuseIf (moving = []) ⟨Text.of "no cells are configured on " ++ src, 404⟩
    refuseIf (taken ≠ []) ⟨dst ++ Text.of " already has cells on " ++ listed ":" taken, 409⟩)
    fun _ =>
  rehost now src dst moving slots

/-! ### A record made anew -/

/-- `str(v)` -/
def str (I : Interp) : Value → Text
  | .str t => t
  | v => reprValue I v

/-- `v is None` -/
def isNone : Value → Bool
  | .null => true
  | _ => false

/-- `str(v or "")` -/
def strOr (I : Interp) (v : Value) : Text := if v.truthy then str I v else []

section

variable (I : Interp) (M : Launch.Machine)

/-- `is_command_cell`: of the runners, `CustomRunner` alone has a `free_form_command`. -/
def isCommandCell (config : Dict) : Bool :=
  (Launch.forConfig M fun key => strOr I (config.get key)).id = Text.of "custom"

/-- `h.get("command") != command`, of a dictionary -/
def isOther (command : Text) : Value → Bool
  | .dict h => match Dict.get h (Text.of "command") with
    | .str t => t ≠ command
    | _ => true
  | _ => false

/-- The command that a command cell had is kept, when it gets another. -/
def withCommand (now : ℤ) (config fields : Dict) : Dict :=
  let old := (fields.get (Text.of "config")).asDict
  let oldCommand := (strOr I (old.get (Text.of "COMMAND"))).strip
  let newCommand := (strOr I (config.get (Text.of "COMMAND"))).strip
  if isCommandCell I M config ∧ oldCommand ≠ [] ∧ oldCommand ≠ newCommand then
    let entry : Dict := [(Text.of "command", .str oldCommand),
      (Text.of "env", .str (strOr I (old.get (Text.of "ENV")))),
      (Text.of "workdir", .str (strOr I (old.get (Text.of "WORKDIR")))),
      (Text.of "healthPath", .str (strOr I (old.get (Text.of "HEALTH_PATH")))),
      (Text.of "ts", .int now)]
    let kept := (fields.get (Text.of "commandHistory")).asList.filter (isOther oldCommand)
    fields.set (Text.of "commandHistory") (.list ((.dict entry :: kept).take 10))
  else fields

/-- What `upsert_server_slot` writes beside the place. -/
def upsertFields (now : ℤ) (config : Option Dict) (model : Option Text) (label : Value)
    (fields : Dict) : Dict :=
  let fields := stamped now fields
  let fields := match model with
    | none => fields
    | some model => fields.set (Text.of "model") (.str (model.take 300))
  let fields :=
    if isNone label then fields
    else fields.set (Text.of "label") (.str ((str I label).take 120))
  match config with
  | none => fields
  | some config =>
    (withCommand I M now config fields).set (Text.of "config")
      (.dict (config.filter fun e => !isNone e.2))

/-- The record that `upsert_server_slot` makes, or renews. -/
def upserted (now : ℤ) (config : Option Dict) (model : Option Text) (label : Value)
    (slots : Slots) (hostId : Text) (port : ℤ) : Slot :=
  let key := serverSlotKey hostId port
  let fields := ((Assoc.get slots key).map (·.fields)).getD [(Text.of "createdAt", .int now)]
  ⟨key, canonicalHostId hostId, port, upsertFields I M now config model label fields⟩

/-- What a start asks of a cell that has its record on another port. -/
structure StartedBody where
  hostId : Text
  oldPort : ℤ
  newPort : ℤ
  config : Option Dict
  model : Option Text

/-- The field of the record that was there, or none. -/
def fieldOf (old : Option Slot) (key : Text) : Option Value :=
  old.bind fun slot => slot.fields.lookup key

/-- The record that `move_server_cell` makes: with the label of the old one, and its
`createdAt`. -/
def restarted (now : ℤ) (b : StartedBody) (old : Option Slot) (slots : Slots) : Slot :=
  let label := (fieldOf old (Text.of "label")).getD .null
  let slot := upserted I M now b.config b.model label slots b.hostId b.newPort
  let createdAt :=
    (fieldOf old (Text.of "createdAt")).getD (slot.fields.get (Text.of "createdAt"))
  { slot with
    fields := (slot.fields.set (Text.of "createdAt") createdAt).set (Text.of "kind")
      (.str (Text.of "serverCell")) }

/-- `move_server_cell` -/
def moveServerCell (now : ℤ) (taken : List ℤ) (b : StartedBody) (slots : Slots) : Outcome :=
  let oldKey := serverSlotKey b.hostId b.oldPort
  let newKey := serverSlotKey b.hostId b.newPort
  attempt slots (assertServerCellPortAvailable taken slots b.newPort oldKey) fun _ =>
  let old := Assoc.get slots oldKey
  let popped := Assoc.del slots oldKey
  -- `upsert_server_slot` may refuse, and the old record is gone by then
  attempt popped (refuseControllerHost b.hostId) fun _ =>
  (.ok (), Assoc.set popped newKey (restarted I M now b old popped))

/-! ### Any sequence of them -/

/-- An operation, with what it reads beside the records. -/
inductive Op
  | reassign (now : ℤ) (taken : List ℤ) (b : ReassignBody)
  | swap (now : ℤ) (b : SwapBody)
  | moveHostCells (now : ℤ) (b : RehostBody)
  | moveServerCell (now : ℤ) (taken : List ℤ) (b : StartedBody)

def Op.run : Op → Slots → Outcome
  | .reassign now taken b => reassignServerSlotPort now taken b
  | .swap now b => swapServerSlotPorts now b
  | .moveHostCells now b => ServerCells.moveHostCells now b
  | .moveServerCell now taken b => ServerCells.moveServerCell I M now taken b

/-- One operation after the other, whatever each answers. -/
def run : List Op → Slots → Slots
  | [], slots => slots
  | op :: ops, slots => run ops (op.run I M slots).2

end

end ServerCells
