import Caravan.Python.Value

/-!
# The settings file

`export_bundle` gathers the documents of a machine in one object and takes the secrets
out of it unless it is asked for them; `apply_bundle` writes such an object over the
documents of a machine, and grafts what the first one took out back from the documents
that it replaces.

A section of the object holds what the exporter puts there: a text, a JSON value or the
bytes of the accounts' database. The text of the launch script passes the line ends of
Python's text mode on its way in (`universalNewlines`); a JSON document is its value. The
cipher of a file with a passphrase is a parameter.
-/

namespace Settings

open Python

def REDACTED : Text := "__redacted__"

def ENC_MARK : Text := "aes-256-gcm/scrypt"

/-- What an export or an import ends with instead of an answer. -/
inductive Failure where
  /-- A document that is there and is no JSON, by the name of its file. -/
  | unreadable (name : Text)
  /-- An `AppError`, with its text. -/
  | app (message : Text)
  | raised (e : Error)
  deriving DecidableEq, Repr

def lift {α : Type} : Except Error α → Except Failure α
  | .ok a => .ok a
  | .error e => .error (.raised e)

/-! ### The machine -/

/-- The documents that are JSON: those of `_files()`, and the cloud keys. -/
inductive Doc where
  | adminState
  | agentProxies
  | cloudProviders
  | modelCatalog
  | providerSecrets
  deriving DecidableEq, Repr

def Doc.file : Doc → Text
  | .adminState => "admin.json"
  | .agentProxies => "agent-proxies.json"
  | .cloudProviders => "cloud-providers.json"
  | .modelCatalog => "model-catalog.json"
  | .providerSecrets => "provider-secrets.json"

/-- A file that should hold JSON. -/
inductive Document where
  | missing
  | unreadable
  | holds (v : Value)

/-- What the settings of a machine are kept in. -/
structure Machine where
  /-- The launch script, `None` where there is none. -/
  startScript : Option Text
  docs : Doc → Document
  /-- The accounts' database. -/
  authDb : Option Bytes

/-- A machine with one of its documents written. -/
def Machine.write (m : Machine) (d : Doc) (v : Value) : Machine :=
  { m with docs := Function.update m.docs d (.holds v) }

/-- `_read_json`: `None` for a file that is not there. -/
def readJson (m : Machine) (d : Doc) : Except Failure Value :=
  match m.docs d with
  | .missing => .ok .null
  | .unreadable => .error (.unreadable d.file)
  | .holds v => .ok v

/-- The line ends of a text that is read: `\r\n` and `\r` are `\n`. -/
def universalNewlines : Text → Text
  | [] => []
  | [c] => [if c = codePoint '\r' then codePoint '\n' else c]
  | c :: c' :: cs =>
    if c = codePoint '\r' then
      if c' = codePoint '\n' then codePoint '\n' :: universalNewlines cs
      else codePoint '\n' :: universalNewlines (c' :: cs)
    else c :: universalNewlines (c' :: cs)

/-! ### The object -/

/-- A section: `content` is `None` for what the machine has not or was not asked for. -/
structure Entry (α : Type) where
  kind : Text
  content : Option α
  omitted : Option Text

/-- The bytes of the database, or what a passphrase made of them. -/
inductive Sealable where
  | plain (b : Bytes)
  | locked (d : Dict)

structure Bundle where
  format : ℤ
  kind : Text
  exportedAt : ℤ
  includesSecrets : Bool
  containsCredentials : List Text
  redacted : List Text
  controllerConfig : Option (Entry Text)
  docs : Doc → Option (Entry Value)
  authDb : Option (Entry Sealable)
  /-- The sections of an older file that hold something and are not restored any more:
  `server-cells`, `client-labels`. -/
  retired : List Text

/-- The sections of `_files()` that are JSON, in their order. -/
def SETTINGS : List Doc := [.adminState, .agentProxies, .cloudProviders, .modelCatalog]

def Doc.name : Doc → Text
  | .adminState => "admin-state"
  | .agentProxies => "agent-proxies"
  | .cloudProviders => "cloud-providers"
  | .modelCatalog => "model-catalog"
  | .providerSecrets => "provider-secrets"

def CONTROLLER_CONFIG : Text := "controller-config"

def AUTH_DB : Text := "auth-db"

/-! ### What an export takes out -/

/-- `d.pop(k, None)` -/
def pop (d : Dict) (k : Text) : Dict := List.eraseP (fun p => decide (p.1 = k)) d

/-- `_redact_admin_state` -/
def redactAdminState (includeSecrets : Bool) : Value → Value × List Text
  | .dict d =>
    if includeSecrets then (.dict d, [])
    else
      let out : Dict := pop d "monitor"
      if (out.get "hfToken").truthy then
        (.dict (out.set "hfToken" (.str REDACTED)), ["admin-state.hfToken"])
      else (.dict out, [])
  | v => (v, [])

/-- A route of the exported list. -/
def redactRoute : Value → Value
  | .dict r => if (Dict.get r "apiKey").truthy then .dict (Dict.set r "apiKey" (.str REDACTED)) else .dict r
  | v => v

/-- What the export says of a route that it took a key from. -/
def redactHit (I : Interp) : Value → Except Error (List Text)
  | .dict r =>
    if (Dict.get r "apiKey").truthy then do
      let port ← strOf I ((List.lookup (Text.of "port") r).getD "?")
      return [Text.of "agent-proxies.routes[:" ++ port ++ Text.of "].apiKey"]
    else .ok []
  | _ => .ok []

/-- `_redact_proxies` -/
def redactProxies (I : Interp) (includeSecrets : Bool) : Value → Except Error (Value × List Text)
  | .dict d =>
    if includeSecrets then .ok (.dict d, [])
    else match Dict.get d "routes" with
      | .list rs => do
        let hits ← rs.mapM (redactHit I)
        return (.dict (Dict.set d "routes" (.list (rs.map redactRoute))), hits.flatten)
      -- the keys of a dictionary and the characters of a text are no routes
      | v => if v.truthy then do discard v.iter; return (.dict d, []) else .ok (.dict d, [])
  | v => .ok (v, [])

/-- `_REDACTORS` -/
def redact (I : Interp) (includeSecrets : Bool) (d : Doc) (v : Value) :
    Except Error (Value × List Text) :=
  match d with
  | .adminState => .ok (redactAdminState includeSecrets v)
  | .agentProxies => redactProxies I includeSecrets v
  | _ => .ok (v, [])

/-- A JSON value as the content of a section: `null` is none. -/
def contentOf : Value → Option Value
  | .null => none
  | v => some v

/-- A document of `_files()` on its way out. -/
def exportDoc (I : Interp) (includeSecrets : Bool) (m : Machine) (d : Doc) :
    Except Failure (Value × List Text) := do
  let v ← readJson m d
  lift (redact I includeSecrets d v)

/-- The cloud keys on their way out. -/
def exportSecrets (includeSecrets : Bool) (m : Machine) : Except Failure (Entry Value) :=
  if includeSecrets = false then
    .ok { kind := "json", content := none, omitted := some "secrets not requested" }
  else match m.docs .providerSecrets with
    | .missing => .ok { kind := "json", content := none, omitted := some "not present on this host" }
    | _ => do
      let v ← readJson m .providerSecrets
      return { kind := "json", content := contentOf v, omitted := none }

/-- The accounts on their way out. -/
def exportAuthDb (includeSecrets : Bool) (m : Machine) : Entry Sealable :=
  if includeSecrets = false then
    { kind := "base64", content := none, omitted := some "secrets not requested" }
  else match m.authDb with
    | none => { kind := "base64", content := none, omitted := some "not present on this host" }
    | some b => { kind := "base64", content := some (.plain b), omitted := none }

/-- The credentials that are on the machine, in the order of their names. -/
def credentials (includeSecrets : Bool) (m : Machine) : List Text :=
  if includeSecrets = false then []
  else (if m.authDb.isSome then [AUTH_DB] else []) ++
    (match m.docs .providerSecrets with
      | .missing => []
      | _ => [Doc.providerSecrets.name])

/-- `export_bundle` -/
def exportBundle (I : Interp) (now : ℤ) (includeSecrets : Bool) (m : Machine) :
    Except Failure Bundle := do
  let (admin, hits) ← exportDoc I includeSecrets m .adminState
  let (proxies, hits') ← exportDoc I includeSecrets m .agentProxies
  let (providers, _) ← exportDoc I includeSecrets m .cloudProviders
  let (catalog, _) ← exportDoc I includeSecrets m .modelCatalog
  let secrets ← exportSecrets includeSecrets m
  let json (v : Value) : Entry Value := { kind := "json", content := contentOf v, omitted := none }
  return {
    format := 1
    kind := "lama-caravan-settings"
    exportedAt := now
    includesSecrets := includeSecrets
    containsCredentials := credentials includeSecrets m
    redacted := hits ++ hits'
    controllerConfig := some {
      kind := "text"
      content := m.startScript.map universalNewlines
      omitted := none }
    docs := fun
      | .adminState => some (json admin)
      | .agentProxies => some (json proxies)
      | .cloudProviders => some (json providers)
      | .modelCatalog => some (json catalog)
      | .providerSecrets => some secrets
    authDb := some (exportAuthDb includeSecrets m)
    retired := [] }

/-! ### What an import grafts back -/

/-- `v == REDACTED` -/
def isRedacted : Value → Bool
  | .str t => t = REDACTED
  | _ => false

/-- The part of `_merge_secrets` for the board's state. -/
def mergeAdmin (incoming current : Dict) : Dict :=
  let d := if isRedacted (incoming.get "hfToken") then
      incoming.set "hfToken" ((current.lookup (Text.of "hfToken")).getD "")
    else incoming
  if !d.has "monitor" && current.has "monitor" then d.set "monitor" (current.get "monitor") else d

/-- `by_port`: the routes of the machine by the text of their port. -/
def byPort (I : Interp) : List Value → Except Error (List (Text × Dict))
  | [] => .ok []
  | .dict r :: rs => do
    let port ← strOf I (Dict.get r "port")
    return (port, r) :: (← byPort I rs)
  | _ :: rs => byPort I rs

/-- `by_port.get(port)`: of two routes with one port, the later. -/
def donor (donors : List (Text × Dict)) (port : Text) : Dict := (donors.reverse.lookup port).getD []

/-- A route of the list that comes in. -/
def graftRoute (I : Interp) (donors : List (Text × Dict)) : Value → Except Error Value
  | .dict r =>
    if isRedacted (Dict.get r "apiKey") then do
      let port ← strOf I (Dict.get r "port")
      return .dict (Dict.set r "apiKey" (((donor donors port).lookup (Text.of "apiKey")).getD ""))
    else .ok (.dict r)
  | v => .ok v

/-- The part of `_merge_secrets` for the routes. -/
def mergeProxies (I : Interp) (incoming current : Dict) : Except Error Dict := do
  let donors ← byPort I (← ((current.get "routes").or (.list [])).iter)
  match incoming.get "routes" with
  | .list rs => return incoming.set "routes" (.list (← rs.mapM (graftRoute I donors)))
  | v => if v.truthy then do discard v.iter; return incoming else return incoming

/-- `_merge_secrets` -/
def mergeSecrets (I : Interp) (d : Doc) : Value → Value → Except Error Value
  | .dict incoming, .dict current =>
    match d with
    | .adminState => .ok (.dict (mergeAdmin incoming current))
    | .agentProxies => (mergeProxies I incoming current).map .dict
    | _ => .ok (.dict incoming)
  | incoming, _ => .ok incoming

/-! ### The import -/

/-- The cipher of a file with a passphrase. -/
structure Cipher where
  value : Text → Dict → Except Failure Value
  bytes : Text → Dict → Except Failure Bytes

/-- What an import answers. -/
structure Report where
  written : List Text
  skipped : List Text
  /-- The copy that it took of the settings that it replaces. -/
  backup : Bundle

/-- `validate_bundle` -/
def validateBundle (b : Bundle) : Except Failure Unit :=
  if b.kind ≠ "lama-caravan-settings" then
    .error (.app "this file is not a Lama Caravan settings export")
  else if b.format ≠ 1 then
    .error (.app (Text.of "settings format " ++ intRepr b.format ++
      Text.of " — this controller reads format 1"))
  else .ok ()

/-- A section on its way in: its content, `none` for a section that holds none. -/
def given {α : Type} (e : Option (Entry α)) : Option α := e.bind Entry.content

/-- A document of `_files()` on its way in. -/
def restoreDoc (I : Interp) (b : Bundle) (m : Machine) (d : Doc) : Except Failure Machine :=
  match given (b.docs d) with
  | none => .ok m
  | some v => do
    let current ← readJson m d
    let merged ← lift (mergeSecrets I d v (current.or (.dict [])))
    return m.write d merged

/-- The documents of `_files()` on their way in: what was written stays when one fails. -/
def restoreDocs (I : Interp) (b : Bundle) : List Doc → Machine → Machine × Except Failure (List Text)
  | [], m => (m, .ok [])
  | d :: ds, m =>
    match restoreDoc I b m d with
    | .error e => (m, .error e)
    | .ok m' =>
      let (m'', written) := restoreDocs I b ds m'
      (m'', written.map fun names => if (given (b.docs d)).isSome then d.name :: names else names)

/-- The launch script on its way in. -/
def restoreScript (b : Bundle) (m : Machine) : Machine :=
  match given b.controllerConfig with
  | none => m
  | some t => { m with startScript := some t }

/-- `_decrypt_entry` of the cloud keys: `none` when they stay locked. -/
def openSecrets (C : Cipher) (passphrase : Text) : Value → Except Failure (Option Value)
  | .dict d =>
    match Dict.get d "enc" with
    | .str t =>
      if t = ENC_MARK then
        if passphrase = [] then .ok none else (C.value passphrase d).map some
      else .ok (some (.dict d))
    | _ => .ok (some (.dict d))
  | v => .ok (some v)

/-- The cloud keys on their way in, the section's name under `written` or `skipped`. -/
def restoreSecrets (C : Cipher) (passphrase : Text) (b : Bundle) (m : Machine) :
    Except Failure (Machine × List Text × List Text) :=
  match given (b.docs .providerSecrets) with
  | none => .ok (m, [], [])
  | some v => do
    match ← openSecrets C passphrase v with
    | none => return (m, [], [Doc.providerSecrets.name])
    | some (.dict d) => return (m.write .providerSecrets (.dict d), [Doc.providerSecrets.name], [])
    -- written, it would read back as no keys at all
    | some _ => return (m, [], [Doc.providerSecrets.name])

/-- The accounts on their way in. -/
def restoreAuthDb (C : Cipher) (passphrase : Text) (b : Bundle) (m : Machine) :
    Except Failure (Machine × List Text × List Text) :=
  match given b.authDb with
  | none => .ok (m, [], [])
  | some (.plain bytes) => .ok ({ m with authDb := some bytes }, [AUTH_DB], [])
  | some (.locked d) =>
    if passphrase = [] then .ok (m, [], [AUTH_DB])
    else do
      let bytes ← C.bytes passphrase d
      return ({ m with authDb := some bytes }, [AUTH_DB], [])

/-- The credentials on their way in, the cloud keys first. -/
def restoreCredentials (C : Cipher) (passphrase : Text) (b : Bundle) (m : Machine) :
    Machine × Except Failure (List Text × List Text) :=
  match restoreSecrets C passphrase b m with
  | .error e => (m, .error e)
  | .ok (m', written, skipped) =>
    match restoreAuthDb C passphrase b m' with
    | .error e => (m', .error e)
    | .ok (m'', written', skipped') => (m'', .ok (written ++ written', skipped ++ skipped'))

/-- `apply_bundle`: the machine after it, and its answer. -/
def applyBundle (I : Interp) (C : Cipher) (now : ℤ) (b : Bundle) (passphrase : Text) (m : Machine) :
    Machine × Except Failure Report :=
  match validateBundle b with
  | .error e => (m, .error e)
  | .ok () =>
    -- the copy is taken first
    match exportBundle I now true m with
    | .error e => (m, .error e)
    | .ok backup =>
      let m₁ := restoreScript b m
      match restoreDocs I b SETTINGS m₁ with
      | (m₂, .error e) => (m₂, .error e)
      | (m₂, .ok written) =>
        match restoreCredentials C passphrase b m₂ with
        | (m₃, .error e) => (m₃, .error e)
        | (m₃, .ok (written', skipped)) =>
          (m₃, .ok {
            written :=
              (if (given b.controllerConfig).isSome then [CONTROLLER_CONFIG] else []) ++
                written ++ written'
            skipped := b.retired ++ skipped
            backup })

end Settings
