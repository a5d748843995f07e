import Caravan.Python.Dict
import Caravan.Python.Except
import Caravan.Python.Int

/-!
# What a machine's scout reports

`host_from_report` of `caravan/admin/fleet_clients.py`: the host record that is made of a report,
field by field, with what the record keeps of the cards, the cells, the engines, the driver, the
models and the cache. A report is a dictionary of any values: each field has its own rule for
what is missing, `None` or of another type, and a few let an exception out (`Fault`).
-/

namespace HostReport

open Python

/-- What ends the reading of a report: an exception, or the refusal of its id. -/
inductive Fault where
  | raised (e : Error)
  | refused (status : ℕ) (text : Text)

/-- What may raise. -/
abbrev Read := Except Fault

/-- The interpreter's tables of characters. -/
structure Tables where
  interp : Interp
  casefold : Text → Text
  /-- `str.isdigit` of a character: more than the decimal digits. -/
  isdigit : CodePoint → Bool
  /-- `\w` -/
  word : CodePoint → Bool

variable (T : Tables)

/-! ### Values of a field -/

def str (v : Value) : Read Text := (strOf T.interp v).mapError .raised

def int (v : Value) : Read ℤ := (intOf T.interp v).mapError .raised

/-- `str(v or "")[:limit]` -/
def cut (v : Value) (limit : ℕ) : Read Value := do
  return .str ((← str T (v.or (.str []))).take limit)

/-- `str(v or "").strip()[:limit]` -/
def text (v : Value) (limit : ℕ) : Read Text := do
  return (← str T (v.or (.str []))).strip.take limit

/-- The same, as a value. -/
def textOf (v : Value) (limit : ℕ) : Read Value := do return .str (← text T v limit)

/-- `try: … except (TypeError, ValueError)` -/
def attempt {α : Type} (x : Read α) : Read (Option α) :=
  match x with
  | .ok a => .ok (some a)
  | .error (.raised .type) | .error (.raised .value) => .ok none
  | .error e => .error e

/-- `EngineReport.number` -/
def number (v : Value) : Read (Option ℤ) :=
  match v with
  | .null | .bool _ => .ok none
  | v => attempt (int T v)

/-- A number that may be missing. -/
def intOrNone (n : Option ℤ) : Value := (n.map Value.int).getD .null

/-- `EngineReport.number`, as a value. -/
def numberOf (v : Value) : Read Value := do return intOrNone (← number T v)

/-- `EngineReport.size` -/
def size (v : Value) : Read Value := do
  return intOrNone ((← number T v).filter (0 ≤ ·))

/-- `v if isinstance(v, bool) else None` -/
def flag : Value → Value
  | .bool b => .bool b
  | _ => .null

/-- `v is True` -/
def isTrue : Value → Bool
  | .bool b => b
  | _ => false

/-- `v if isinstance(v, dict) else None` -/
def dictOrNone (v : Value) : Value := if v.isDict then v else .null

/-- `v if isinstance(v, list) else None` -/
def listOrNone : Value → Value
  | .list vs => .list vs
  | _ => .null

/-- `v is False` -/
def isFalse : Value → Bool
  | .bool b => !b
  | _ => false

/-- `v == t`, for a text `t`. -/
def isText (t : Text) : Value → Bool
  | .str s => s = t
  | _ => false

/-- `v in texts` -/
def among (v : Value) (texts : List Text) : Bool := texts.any fun t => isText t v

/-- `v[:n]`, where `v` is to be run through. -/
def slice (n : ℕ) : Value → Read (List Value)
  | .list vs => .ok (vs.take n)
  | .str t => .ok ((t.take n).map fun c => .str [c])
  | _ => .error (.raised .type)

/-- `{k: d[k] for k in keys if k in d}` -/
def pick (d : Dict) (keys : List Text) : Dict := keys.filterMap fun k => (d.lookup k).map (k, ·)

/-- `sorted(set(l))` -/
def sortedSet (l : List ℤ) : List ℤ := l.dedup.mergeSort (· ≤ ·)

/-! ### Cards and what runs on them -/

/-- The fields of a card. -/
def GPU_FIELDS : List Text :=
  ["index", "uuid", "name", "vendor", "driverStatus", "memoryTotalMiB", "memoryUsedMiB",
    "memoryFreeMiB", "utilizationGpuPct", "temperatureC", "powerDrawW"]

/-- One field of a card. -/
def gpuField (item : Dict) (key : Text) : Read (Option (Text × Value)) :=
  match item.get key with
  | .null => .ok none
  | v => do
    let t := (← str T v).strip
    return if t = [] then none else some (key, .str (t.take 80))

/-- One card. -/
def gpu : Value → Read (Option Value)
  | .dict item => do
    let row ← GPU_FIELDS.filterMapM (gpuField T item)
    return if (Dict.get row "name").truthy then some (.dict row) else none
  | _ => .ok none

/-- `normalize_client_gpus` -/
def normalizeClientGpus : Value → Read Value
  | .list items => do return .list (← (items.take 8).filterMapM (gpu T))
  | _ => .ok (.list [])

/-- One row of `computeApps`. -/
def computeApp : Value → Read (Option Value)
  | .dict app => attempt do
    let gpuUuid ← cut T (Dict.get app "gpuUuid") 80
    let pid ← int T ((Dict.get app "pid").or (.int 0))
    let name ← textOf T (Dict.get app "name") 60
    let usedMiB ← int T ((Dict.get app "usedMiB").or (.int 0))
    return .dict [("gpuUuid", gpuUuid), ("pid", .int pid), ("name", name),
      ("usedMiB", .int usedMiB)]
  | _ => .ok none

/-- `computeApps` -/
def computeApps (v : Value) : Read Value := do
  let apps ← slice 64 (v.or (.list []))
  return .list (← apps.filterMapM (computeApp T))

/-- `cpu` -/
def cpuOf (raw : Dict) : Value :=
  let counts : List Text := ["loadPct", "ncpu", "logicalCores", "physicalCores", "availableCores"]
  let said := counts.filterMap fun k => match raw.get k with
    | .null => none
    | v => some (k, v)
  .dict (said ++ match raw.get "ram" with
    | .dict ram => [(Text.of "ram",
        .dict [("usedGb", Dict.get ram "usedGb"), ("totalGb", Dict.get ram "totalGb")])]
    | _ => [])

/-! ### Cells -/

/-- `_normalize_modalities` -/
def normalizeModalities : Value → Value
  | .dict raw =>
    let mods : Dict := (raw.filter fun p => p.1 ∈ [Text.of "vision", "video", "audio"]).map
      fun p => (p.1, .bool p.2.truthy)
    if mods = [] then .null else .dict mods
  | _ => .null

/-- `[p for p in pids if type(p) is int and p > 1][:64]` -/
def pidsOf (v : Value) : Value :=
  .list ((v.asList.filter fun p => match p with
    | .int n => decide (1 < n)
    | _ => false).take 64)

/-- `LaunchFiles.ROLES` -/
def ROLES : List Text := ["model", "mmproj", "draft"]

/-- `LaunchFiles.disk_newer` of what a scout says, `None` where it does not. -/
def diskNewer : Value → Value
  | .list roles => .list (roles.filter fun r => among r ROLES)
  | _ => .null

/-- `str(v or "")[-limit:]` -/
def tail (v : Value) (limit : ℕ) : Read Value := do
  let t ← str T (v.or (.str []))
  return .str (t.drop (t.length - limit))

/-- `_san_node` of a dictionary. -/
def sanNode (raw : Dict) : Read Dict := do
  let modelPath ← cut T (raw.get "modelPath") 300
  let mmprojPath ← cut T (raw.get "mmprojPath") 300
  let specPath ← cut T (raw.get "specPath") 300
  let specType ← cut T (raw.get "specType") 40
  let ramBytes ← size T (raw.get "ramBytes")
  let lastError ← cut T (raw.get "lastError") 200
  let phase ← cut T (raw.get "phase") 20
  let downloadedBytes ← int T ((raw.get "downloadedBytes").or (.int 0))
  let totalBytes ← int T ((raw.get "totalBytes").or (.int 0))
  let downloadingFile ← cut T (raw.get "downloadingFile") 200
  let startingTail ← tail T (raw.get "startingTail") 1500
  return [("running", .bool (raw.get "running").truthy), ("port", raw.get "port"),
    ("modelPath", modelPath), ("mmprojPath", mmprojPath), ("specPath", specPath),
    ("specType", specType), ("uptimeSec", raw.get "uptimeSec"), ("pid", raw.get "pid"),
    ("pids", pidsOf (raw.get "pids")), ("ramBytes", ramBytes), ("lastError", lastError),
    ("phase", phase), ("downloadedBytes", .int downloadedBytes), ("totalBytes", .int totalBytes),
    ("downloadingFile", downloadingFile), ("promptTps", raw.get "promptTps"),
    ("genTps", raw.get "genTps"), ("requestsProcessing", raw.get "requestsProcessing"),
    ("requestsWaiting", raw.get "requestsWaiting"),
    ("ctxMax", (raw.get "ctxMax").or (raw.get "nCtx")), ("ctxUsed", raw.get "ctxUsed"),
    ("modalities", normalizeModalities (raw.get "modalities")),
    ("firewall", dictOrNone (raw.get "firewall")), ("crash", dictOrNone (raw.get "crash")),
    ("listening", flag (raw.get "listening")), ("startingTail", startingTail),
    ("launchDiskNewer", diskNewer (raw.get "launchDiskNewer"))]

/-- `_san_node` -/
def sanNodeOf : Value → Read Dict
  | .dict raw => sanNode T raw
  | _ => .ok []

/-- The dictionaries of a list, of anything else none. -/
def dictsOf (v : Value) : List Dict := v.asList.filterMap fun n => match n with
  | .dict d => some d
  | _ => none

/-- `llamaNode` and `llamaNodes` -/
def nodesOf (one many : Value) : Read (Dict × List Dict) := do
  let nodes ← (dictsOf many).mapM (sanNode T)
  let said ← sanNodeOf T one
  let node := if said = [] then nodes.headD [] else said
  return (node, if nodes = [] ∧ node ≠ [] then [node] else nodes)

/-! ### Engines -/

/-- `EngineReport.STATES` -/
def STATES : List Text := ["ok", "auth", "unreachable", "stopped"]

/-- `EngineReport.LISTEN` -/
def LISTEN : List Text := ["loopback", "network"]

/-- `EngineReport.FIREWALL` -/
def FIREWALL : List Text := ["open", "all", "restricted", "blocked", "unknown"]

/-- `EngineReport.ACTIONS` -/
def ACTIONS : List Text := ["unload", "delete"]

/-- `EngineReport.DOWNLOADS` -/
def DOWNLOADS : List Text := ["pull"]

/-- `EngineReport.SERVER_ACTIONS` -/
def SERVER_ACTIONS : List Text := ["start", "stop"]

/-- `EngineReport.RUN_BY` -/
def RUN_BY : List Text := ["user", "other"]

/-- `EngineReport.act_mark` -/
def actMark (v : Value) (mark : Text) (withError : Bool) (ops : List Text) : Read Value :=
  match v with
  | .dict raw =>
    if among (Dict.get raw "op") ops then do
      let moment ← numberOf T (Dict.get raw mark)
      let error ← if withError then do
        pure [(Text.of "error", ← textOf T (Dict.get raw "error") 300)] else pure []
      return .dict ([(Text.of "op", Dict.get raw "op"), (mark, moment)] ++ error)
    else return .null
  | _ => .ok .null

/-- `EngineReport.download` -/
def download (v : Value) (failed : Bool) : Read Value :=
  match v with
  | .dict raw => do
    let model ← text T (Dict.get raw "model") 300
    if model = [] then return .null
    if failed then
      let error ← textOf T (Dict.get raw "error") 300
      let moment ← numberOf T (Dict.get raw "at")
      return .dict [("model", .str model), ("error", error), ("at", moment)]
    let since ← numberOf T (Dict.get raw "since")
    let doneBytes ← numberOf T (Dict.get raw "doneBytes")
    let totalBytes ← numberOf T (Dict.get raw "totalBytes")
    return .dict [("model", .str model), ("since", since), ("doneBytes", doneBytes),
      ("totalBytes", totalBytes)]
  | _ => .ok .null

/-- `EngineReport.model` -/
def engineModel : Value → Read (Option Value)
  | .dict raw => do
    let name ← text T (Dict.get raw "name") 200
    if name = [] then return none
    let type ← textOf T (Dict.get raw "type") 20
    let format ← textOf T (Dict.get raw "format") 20
    let family ← textOf T (Dict.get raw "family") 40
    let params ← textOf T (Dict.get raw "params") 20
    let quant ← textOf T (Dict.get raw "quant") 20
    let fileBytes ← numberOf T (Dict.get raw "fileBytes")
    let memBytes ← numberOf T (Dict.get raw "memBytes")
    let vramBytes ← numberOf T (Dict.get raw "vramBytes")
    let contextLength ← numberOf T (Dict.get raw "contextLength")
    let maxContextLength ← numberOf T (Dict.get raw "maxContextLength")
    let expiresAt ← textOf T (Dict.get raw "expiresAt") 40
    let instances ← numberOf T (Dict.get raw "instances")
    let action ← actMark T (Dict.get raw "action") "since" false ACTIONS
    let actionError ← actMark T (Dict.get raw "actionError") "at" true ACTIONS
    return some (.dict [("name", .str name), ("type", type), ("format", format),
      ("family", family), ("params", params), ("quant", quant), ("fileBytes", fileBytes),
      ("remote", .bool (isTrue (Dict.get raw "remote"))), ("loaded", flag (Dict.get raw "loaded")),
      ("memBytes", memBytes), ("vramBytes", vramBytes), ("contextLength", contextLength),
      ("maxContextLength", maxContextLength), ("expiresAt", expiresAt),
      ("staysLoaded", flag (Dict.get raw "staysLoaded")), ("instances", instances),
      ("action", action), ("actionError", actionError)])
  | _ => .ok none

/-- `EngineReport.firewall` -/
def firewall : Value → Read Value
  | .dict raw =>
    if among (Dict.get raw "state") FIREWALL then do
      let allowed ← (((Dict.get raw "allowedFrom").asList.take 8).mapM fun a => text T a 60)
      return .dict [("state", Dict.get raw "state"),
        ("allowedFrom", .list ((allowed.filter (· ≠ [])).map .str))]
    else return .null
  | _ => .ok .null

/-- The models of an engine, `None` where it listed none. -/
def engineModels : Value → Read Value
  | .list models => do return .list (← (models.take 200).filterMapM (engineModel T))
  | _ => .ok .null

/-- `EngineReport.engine` -/
def engine : Value → Read (Option Value)
  | .dict raw => do
    let kind ← text T (Dict.get raw "kind") 40
    let state ← text T (Dict.get raw "state") 20
    let port ← number T (Dict.get raw "port")
    match port with
    | none => return none
    | some port =>
      if kind = [] ∨ state ∉ STATES ∨ ¬ (0 < port ∧ port < 65536) then return none
      let listen ← text T (Dict.get raw "listen") 20
      let label ← text T (Dict.get raw "label") 60
      let version ← textOf T (Dict.get raw "version") 40
      let api ← textOf T (Dict.get raw "api") 10
      let models ← engineModels T (Dict.get raw "models")
      let pids ← ((Dict.get raw "pids").asList.take 256).mapM (number T)
      let ramBytes ← numberOf T (Dict.get raw "ramBytes")
      let wall ← firewall T (Dict.get raw "firewall")
      let controls := (ACTIONS ++ DOWNLOADS ++ SERVER_ACTIONS).filter fun a =>
        (Dict.get raw "controls").asList.any (isText a)
      let runBy ← if among (Dict.get raw "runBy") RUN_BY then textOf T (Dict.get raw "runBy") 10
        else pure (.str [])
      let serverAction ← actMark T (Dict.get raw "serverAction") "since" false SERVER_ACTIONS
      let serverError ← actMark T (Dict.get raw "serverError") "at" true SERVER_ACTIONS
      let downloading ← download T (Dict.get raw "downloading") false
      let downloadError ← download T (Dict.get raw "downloadError") true
      let row : Dict := [("kind", .str kind),
        ("label", .str (if label = [] then kind else label)), ("port", .int port),
        ("listen", .str (if listen ∈ LISTEN then listen else [])), ("state", .str state),
        ("version", version), ("api", api), ("models", models),
        ("pids", .list ((sortedSet ((pids.filterMap id).filter (0 < ·))).map .int)),
        ("ramBytes", ramBytes), ("firewall", wall), ("controls", .list (controls.map .str)),
        ("runBy", runBy), ("autostart", .bool (isTrue (Dict.get raw "autostart"))),
        ("serverAction", serverAction), ("serverError", serverError),
        ("downloading", downloading), ("downloadError", downloadError)]
      -- only where the list of installed models did not answer
      return some (.dict (row.setIf (isFalse (Dict.get raw "installedKnown")) "installedKnown"
        (.bool false)))
  | _ => .ok none

/-- `EngineReport.engines` -/
def engines : Value → Read Value
  | .list raw => do return .list (← (raw.take 8).filterMapM (engine T))
  | _ => .ok .null

/-! ### The driver -/

/-- `$`: the end, or before a line feed that ends the text. -/
def atEnd (p : Text → Bool) (t : Text) : Bool :=
  p t || (t.getLast? = some (codePoint '\n') && p t.dropLast)

/-- `\d` -/
def decimal (c : CodePoint) : Bool := (T.interp.digit c).isSome

/-- `DriverOutlook.KERNEL` -/
def kernel : Text → Bool := atEnd fun t => match t with
  | [] => false
  | c :: cs => decimal T c && cs.all fun c => T.word c || c ∈ Text.of ".+-"

/-- `DriverOutlook.VERSION` -/
def versioned : Text → Bool := atEnd fun t =>
  let parts := t.splitOn (codePoint '.')
  2 ≤ parts.length && parts.all fun part => part ≠ [] && part.all (decimal T)

/-- `DriverOutlook.DRIVER_PACKAGE` -/
def driverPackage : Text → Bool := atEnd fun t =>
  let named := Text.of "nvidia-driver-"
  let rest := t.drop named.length
  let digits := rest.takeWhile (decimal T)
  named.isPrefixOf t && digits ≠ [] && (rest.drop digits.length = [] ||
    rest.drop digits.length = Text.of "-open")

/-- `text` of `DriverOutlook.clean` -/
def fact (v : Value) (pattern : Text → Bool) : Value :=
  match v with
  | .str t =>
    let t := t.strip.take 200
    if t ≠ [] ∧ pattern t = true then .str t else .null
  | _ => .null

/-- Any text. -/
def any : Text → Bool := fun _ => true

/-- `DriverOutlook.clean` -/
def driver : Value → Value
  | .dict raw => .dict [("secureBoot", flag (Dict.get raw "secureBoot")),
      ("kernelRunning", fact (Dict.get raw "kernelRunning") (kernel T)),
      ("kernelNext", fact (Dict.get raw "kernelNext") (kernel T)),
      ("loaded", fact (Dict.get raw "loaded") (versioned T)),
      ("installed", fact (Dict.get raw "installed") (versioned T)),
      ("nextModule", match Dict.get raw "nextModule" with
        | .dict module =>
          if (fact (Dict.get module "path") any).truthy then
            .dict [("path", fact (Dict.get module "path") any),
              ("version", fact (Dict.get module "version") (versioned T)),
              ("signer", (fact (Dict.get module "signer") any).or (.str []))]
          else .null
        | _ => .null),
      ("dkmsKey", match Dict.get raw "dkmsKey" with
        | .dict key => .dict [("signer", fact (Dict.get key "signer") any),
            ("enrolled", flag (Dict.get key "enrolled"))]
        | _ => .null),
      ("package", fact (Dict.get raw "package") (driverPackage T))]
  | _ => .null

/-! ### The models of a machine, and its cache -/

/-- `MachineModels.count` -/
def count : Value → Option ℤ
  | .int n => if 0 ≤ n then some n else none
  | _ => none

/-- `MachineModels.STATES` -/
def MODEL_STATES : List Text := ["running", "starting", "failed", "stopped"]

/-- `MachineModels.state` -/
def modelState (v : Value) : Value := if among v MODEL_STATES then v else .str "unknown"

/-- One copy of a model. -/
def copyOf : Value → Option Value
  | .dict copy => match count (Dict.get copy "port") with
    | none => none
    | some port => if port = 0 then none else some (.dict [("port", .int port),
        ("state", modelState (Dict.get copy "state")),
        ("slots", intOrNone (count (Dict.get copy "slots"))),
        ("busy", intOrNone (count (Dict.get copy "busy")))])
  | _ => none

/-- One model of a machine. -/
def machineModel : Value → Read (Option Value)
  | .dict item => do
    let name ← text T (Dict.get item "id") 200
    if name = [] then return none
    let said := (Dict.get item "caravan").asDict
    let copies ← slice 32 ((said.get "copies").or (.list []))
    return some (.dict [("id", .str name), ("state", modelState (said.get "state")),
      ("slots", intOrNone (count (said.get "slots"))),
      ("busy", intOrNone (count (said.get "busy"))),
      ("copies", .list (copies.filterMap copyOf))])
  | _ => .ok none

/-- `MachineModels.clean` -/
def machineModels : Value → Read Value
  | .list raw => do return .list (← (raw.take 200).filterMapM (machineModel T))
  | _ => .ok .null

/-- The folders of a cache: as many as are kept, of those that can be read. -/
def folders : ℕ → List Value → Read (List Value)
  | 0, _ | _, [] => .ok []
  | room + 1, item :: items => do
    let row := item.asDict
    let name ← text T (row.get "folder") 200
    match count (row.get "files"), count (row.get "bytes") with
    | some files, some bytes =>
      if name = [] then folders (room + 1) items
      else return .dict [("folder", .str name), ("files", .int files), ("bytes", .int bytes)] ::
        (← folders room items)
    | _, _ => folders (room + 1) items

/-- `ModelCacheFacts.foreign` -/
def foreign : Value → Read Value
  | .dict raw => match count (Dict.get raw "files"), count (Dict.get raw "bytes") with
    | some files, some bytes => do
      let rows ← folders T 8 (Dict.get raw "folders").asList
      return .dict [("files", .int files), ("bytes", .int bytes), ("folders", .list rows)]
    | _, _ => return .null
  | _ => .ok .null

/-- `ModelCacheFacts.disk` -/
def disk : Value → Value
  | .dict raw => match count (Dict.get raw "totalBytes"), count (Dict.get raw "freeBytes") with
    | some total, some free =>
      if total = 0 then .null else .dict [("totalBytes", .int total), ("freeBytes", .int free)]
    | _, _ => .null
  | _ => .null

/-- `ModelCacheFacts.clean` -/
def modelCache : Value → Read Value
  | .dict raw => match count (Dict.get raw "keep") with
    | some keep =>
      if keep = 0 then return .null
      else do
        let others ← foreign T (Dict.get raw "foreign")
        return .dict [("keep", .int keep),
          ("managedBytes", intOrNone (count (Dict.get raw "managedBytes"))),
          ("foreign", others), ("disk", disk (Dict.get raw "disk"))]
    | none => return .null
  | _ => .ok .null

/-! ### The host record -/

/-- `number` of `scout_suspect` -/
def suspectNumber (raw : Dict) (key : Text) : Read Value := do
  return .int ((← attempt (int T ((raw.get key).or (.int 0)))).getD 0)

/-- `scout_suspect` -/
def suspect : Value → Read Value
  | .dict raw =>
    if isTrue (Dict.get raw "suspect") then do
      let crashes15m ← suspectNumber T raw "crashes15m"
      let builtAt ← suspectNumber T raw "builtAt"
      let currentCommit ← cut T (Dict.get raw "currentCommit") 40
      let firstSeenAt ← suspectNumber T raw "firstSeenAt"
      let lastSeenAt ← suspectNumber T raw "lastSeenAt"
      let cand := (Dict.get raw "restoreCandidate").asDict
      return .dict [("suspect", .bool true), ("crashes15m", crashes15m), ("builtAt", builtAt),
        ("currentCommit", currentCommit), ("firstSeenAt", firstSeenAt),
        ("lastSeenAt", lastSeenAt), ("restoreCandidate",
          if (cand.get "id").truthy then
            .dict (pick cand ["id", "commit", "version", "builtAt", "sizeMb"]) else .null)]
    else return .dict [("suspect", .bool false)]
  | _ => .ok .null

/-- One of the ports that start with the machine: `int(p)` where `str(p).isdigit()`. -/
def autostartPort (p : Value) : Read (Option ℤ) := do
  let t ← str T p
  if t ≠ [] ∧ t.all T.isdigit = true then return some (← int T p) else return none

/-- `autostart` -/
def autostart : Value → Read Value
  | .list ports => do
    return .list ((sortedSet (← ports.filterMapM (autostartPort T))).map .int)
  | _ => .ok .null

/-- `telemetry` -/
def telemetry : Value → Value
  | .dict raw => .dict (pick raw ["watchedSeconds", "idleSeconds", "retentionSeconds"])
  | _ => .null

/-- `FleetClient.RESERVED_IDS` -/
def RESERVED_IDS : List Text := ["controller", "skynet"]

/-- `FleetClient.validate_id` -/
def validateId (v : Value) : Read Text := do
  let id ← text T v 120
  if id = [] then throw (.refused 400 "host.id is required")
  if RESERVED_IDS.any fun r => T.casefold id = T.casefold r then
    throw (.refused 400 (Text.of "host.id \"" ++ id ++
      Text.of "\" is reserved for the controller — give this client a different hostId"))
  return id

/-- `host_from_report`, at a time. -/
def hostFromReport (now : ℤ) (payload : Dict) : Read Dict := do
  let host := (payload.get "host").asDict
  let id ← validateId T ((host.get "id").or (host.get "name"))
  let gpus ← normalizeClientGpus T (payload.get "gpus")
  let apps ← computeApps T (payload.get "computeApps")
  let platform ← textOf T (payload.get "platform") 40
  let (node, nodes) ← nodesOf T (payload.get "llamaNode") (payload.get "llamaNodes")
  let name ← textOf T ((host.get "name").or (.str id)) 120
  let hostname ← textOf T (host.get "hostname") 160
  let ip ← textOf T (host.get "ip") 80
  let agentUrl ← textOf T (payload.get "agentUrl") 240
  let gpuError ← textOf T (payload.get "gpuError") 200
  let found ← engines T (payload.get "engines")
  let llamaBinaryVersion ← textOf T (payload.get "llamaBinaryVersion") 120
  let llamaBinaryMtime ← textOf T (payload.get "llamaBinaryMtime") 30
  let scoutVersion ← textOf T (payload.get "scoutVersion") 40
  let ports ← autostart T (payload.get "autostart")
  let llamaSuspect ← suspect T (payload.get "llamaSuspect")
  let entryModels ← machineModels T (payload.get "entryModels")
  let cache ← modelCache T (payload.get "modelCache")
  return [("id", .str id), ("name", name), ("hostname", hostname), ("ip", ip),
    ("agentUrl", agentUrl), ("gpus", gpus), ("gpuError", gpuError), ("computeApps", apps),
    ("engines", found), ("cpu", cpuOf (payload.get "cpu").asDict), ("platform", platform),
    ("driver", driver T (payload.get "driver")), ("llamaNode", .dict node),
    ("llamaNodes", .list (nodes.map .dict)), ("llamaBinaryVersion", llamaBinaryVersion),
    ("prismRuntime", .dict (payload.get "prismRuntime").asDict),
    ("llamaBinaryMtime", llamaBinaryMtime),
    ("llamaUpdate", .dict (payload.get "llamaUpdate").asDict), ("scoutVersion", scoutVersion),
    ("autostart", ports), ("llamaSuspect", llamaSuspect),
    ("telemetry", telemetry (payload.get "telemetry")), ("entryModels", entryModels),
    ("modelCache", cache), ("firstSeen", .int now), ("lastSeen", .int now)]

/-- `scout_payload_from_state`, at a time. -/
def scoutPayloadFromState (now : ℤ) (state : Dict) (agentUrl : Text) : Dict :=
  [("host", (state.get "host").or (.dict [])), ("gpus", (state.get "gpus").or (.list [])),
    ("computeApps", (state.get "computeApps").or (.list [])), ("engines", state.get "engines"),
    ("cpu", (state.get "cpu").or (.dict [])), ("platform", (state.get "platform").or (.str [])),
    ("driver", state.get "driver"), ("llamaNode", (state.get "llamaNode").or (.dict [])),
    ("llamaNodes", (state.get "llamaNodes").or (.list [])),
    ("llamaBinaryVersion", (state.get "llamaBinaryVersion").or (.str [])),
    ("prismRuntime", .dict (state.get "prismRuntime").asDict),
    ("llamaBinaryMtime", (state.get "llamaBinaryMtime").or (.str [])),
    ("llamaUpdate", .dict (state.get "llamaUpdate").asDict),
    ("scoutVersion", (state.get "scoutVersion").or (.str [])),
    ("autostart", listOrNone (state.get "autostart")),
    ("autostartRequests", dictOrNone (state.get "autostartRequests")),
    ("llamaSuspect", dictOrNone (state.get "llamaSuspect")),
    ("telemetry", dictOrNone (state.get "telemetry")),
    ("entryModels", listOrNone (state.get "entryModels")),
    ("modelCache", dictOrNone (state.get "modelCache")), ("agentUrl", .str agentUrl),
    ("time", (state.get "time").or (.int now))]

/-- The id of a host record. -/
def idOf (record : Dict) : Text :=
  match record.get "id" with
  | .str id => id
  | _ => []

/-- `record_host_report`, on the host records. -/
def recordHostReport (now : ℤ) (payload : Dict) (onlyKnown : Bool) (hosts : List (Text × Dict)) :
    Read (List (Text × Dict)) := do
  let report ← hostFromReport T now payload
  let previous := Assoc.get hosts (idOf report)
  if onlyKnown && previous.isNone then return hosts
  let firstSeen := (Dict.get (previous.getD []) "firstSeen").or (report.get "firstSeen")
  return Assoc.set hosts (idOf report) (report.set "firstSeen" firstSeen)

end HostReport
