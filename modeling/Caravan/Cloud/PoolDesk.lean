import Caravan.Cloud.Document
import Caravan.Ports.Registers

/-!
# The pool desk

`PoolDesk`, each of its operations as what it makes of the document it has loaded: it raises,
or answers without a write, or assigns and writes (`Change`). What an operation asks outside
of the document is an `Outside`.

All but `save_pool` make their checks before the first assignment. `save_pool` puts the model
of each account row on Routing's column as it goes through the rows, and may raise at a later
one (`editSteps`).
-/

namespace Cloud

open Python Ports

/-- What ends an operation: its refusal, an error of the language, or a search that does not
end in the turns it is given. -/
inductive Stop where
  | refused (e : AppError)
  | broken
  | endless
  deriving DecidableEq, Repr

/-- `raise AppError(message, status)` -/
def refuse {α : Type} (status : ℕ) (message : Text) : Except Stop α :=
  .error (.refused ⟨message, status⟩)

/-- `if refused: raise AppError(message, status)` -/
def refuseWhen (refused : Prop) [Decidable refused] (status : ℕ) (message : Text) :
    Except Stop Unit :=
  if refused then refuse status message else .ok ()

/-- What an operation that answers leaves to do: the assignments and the write, if any, and
whether more may fail after the write. -/
structure Change where
  assign : Option (Doc → Doc)
  late : Bool := false

/-- Assignments and a write. -/
def saves (f : Doc → Doc) : Except Stop Change := .ok ⟨some f, false⟩

def answers : Except Stop Change := .ok ⟨none, false⟩

/-- A consumer's route in the proxy's document. -/
structure Route where
  kind : Text
  label : Text
  /-- `set`, on a route of the present form. -/
  set : Option Text
  pool : Option Text
  /-- `models` of the old form: `none` for `"all"`. -/
  models : Option (List Text)
  deriving DecidableEq, Repr

/-- The preset of a provider. -/
structure Preset where
  name : Text
  baseUrl : Text
  accountType : Text
  authModes : List Text
  oauth : Option (Text × Text)
  deriving DecidableEq, Repr

/-- What the operations ask outside of the document. -/
structure Outside where
  /-- `str.casefold` -/
  casefold : Text → Text
  /-- The turns a search for a free name is given. -/
  turns : ℕ
  /-- `CloudModelRefs.in_use` -/
  inUse : Text → Bool
  /-- `CloudModelRefs.held`: the cables, and the rules. -/
  held : Text → ℕ × List Text
  /-- A list in a message. -/
  shown : List Text → Text
  /-- `CloudModelRewire.move` -/
  move : Text → Text → Except Stop Unit
  /-- `save_agent_proxy_config` in `delete` -/
  saveProxies : Except Stop Unit
  /-- The routes of the proxy's document. -/
  routes : List Route
  /-- `sources.source(account_id)["usageReserve"]` -/
  reserve : Text → Levels
  /-- `CLOUD_PROVIDER_PRESETS` -/
  preset : Text → Option Preset
  /-- `device_login_preset` -/
  deviceLogin : Text → Option Preset
  /-- `AccountCredit.amount` of what was sent. -/
  amount : Text → Option Text
  /-- `AccountCredit.resolve` of what was sent and of what is stored. -/
  credit : Option Text → Option Text → Option Text
  /-- `WeekWindows.clean` -/
  windows : Text → Text

variable (o : Outside)

/-! ### Names -/

/-- A number in a text. -/
def digits (n : ℕ) : Text := Text.of (toString n)

/-- The first of the candidates from `n` on that is free. -/
def firstFree (taken : Text → Bool) (candidate : ℕ → Text) : ℕ → ℕ → Option Text
  | 0, _ => none
  | turns + 1, n =>
    if taken (candidate n) then firstFree taken candidate turns (n + 1) else some (candidate n)

def search (taken : Text → Bool) (candidate : ℕ → Text) : Except Stop Text :=
  match firstFree taken candidate o.turns 1 with
  | some t => .ok t
  | none => .error .endless

/-- `EntryModels.name` -/
def Pool.called (p : Pool) : Text := orElse p.name.strip p.id

/-- `EntryModels.key` -/
def nameKey (name : Text) : Text := o.casefold name.strip

/-- `EntryModels.taken` -/
def taken (ps : List Pool) (name : Text) (but : Option Text) : Bool :=
  ps.any fun p => nameKey o p.called = nameKey o name ∧ some p.id ≠ but

def NAME_MAX : ℕ := 80

def NEW_NAME : Text := "Pool"

/-- `PoolDesk._name` -/
def givenName (name fallback : Text) : Text := orElse (name.strip.take NAME_MAX) fallback

/-- `PoolDesk._unique` -/
def unique (ps : List Pool) (name : Text) (but : Option Text) : Except Stop Text := do
  refuseWhen (taken o ps name but) 409 ("a pool named " ++ name ++
    " exists — consumers call a pool by its name, so give this one another")
  return name

/-- A name, or the name with a number after it. -/
def numbered (name : Text) (sep : Text) (n : ℕ) : Text :=
  if n = 1 then name else name ++ sep ++ digits n

/-- The candidates of `_free_name`. -/
def nameTry (name : Text) (n : ℕ) : Text :=
  if n = 1 then name else (name ++ " " ++ digits n).take NAME_MAX

/-- `PoolDesk._free_name` -/
def freeName (ps : List Pool) (name : Text) : Except Stop Text :=
  search o (fun t => taken o ps t none) (nameTry name)

/-- `_slug`: a letter, a digit, `_` or `-`. -/
def slugBase (text default : Text) : Text :=
  let marked := (text.map fun c => if wordChar ['_', '-'] c then c else codePoint '-').take 40
  let dash := codePoint '-'
  orElse ((marked.dropWhile (· = dash)).rdropWhile (· = dash)) default

def slug (text default : Text) (ids : List Text) : Except Stop Text :=
  search o (fun t => t ∈ ids) (numbered (slugBase text default) "-")

/-- `PoolDesk.default_named` -/
def defaultNamed (name : Text) : Bool :=
  name = NEW_NAME ||
    ((NEW_NAME ++ " ").isPrefixOf name &&
      (let rest := name.drop (NEW_NAME.length + 1)
       rest ≠ [] && rest.all fun c => 0x30 ≤ c.val && c.val ≤ 0x39))

/-! ### The added models -/

/-- The models of Routing's column, by account. The order of the accounts plays no part: it
is stored sorted. -/
abbrev Added := List (Text × List Text)

def Added.of (kept : Added) (account : Text) : List Text := (Assoc.get kept account).getD []

/-- `AddedModels.add` -/
def Added.add (kept : Added) (account model : Text) : Option Added :=
  let account := account.strip
  let model := model.strip
  if account = [] ∨ model = [] ∨ model ∈ kept.of account then none
  else some (Assoc.put kept account (kept.of account ++ [model]))

/-- `AddedModels(data)` -/
def Doc.added (d : Doc) : Added :=
  d.addedModels.foldl (fun kept x => x.2.foldl (fun kept m => (kept.add x.1 m).getD kept) kept) []

/-- `AddedModels.stored` -/
def Added.stored (kept : Added) : Added := kept.insertionSort fun a b => a.1 ≤ b.1

/-- `PoolDesk._keep`: the column once it has the model of a row. -/
def keep (addedModels : Added) (account model : Text) : Added :=
  if account = [] ∨ model = [] then addedModels
  else match (Doc.added { addedModels }).add account model with
    | some kept => kept.stored
    | none => addedModels

/-- `AddedModels.remove` -/
def Added.remove (kept : Added) (account model : Text) : Option Added :=
  let account := account.strip
  let model := model.strip
  if model ∉ kept.of account then none
  else
    let rest := (kept.of account).erase model
    some (if rest = [] then Assoc.del kept account else Assoc.put kept account rest)

/-- `AddedModels.put_first` -/
def Added.putFirst (kept : Added) (account : Text) (models : List Text) : Added :=
  let account := account.strip
  let old := kept.of account
  let first := models.foldl (fun first m =>
    if m.strip ∈ old ∧ m.strip ∉ first then first ++ [m.strip] else first) []
  if old = [] then kept else Assoc.put kept account (first ++ old.filter fun m => m ∉ first)

/-! ### Finding what a request names -/

/-- `_pool` -/
def poolOf (d : Doc) (id : Text) : Except Stop Pool :=
  match d.readPools.find? fun p => p.id = id with
  | some p => .ok p
  | none => refuse 404 ("unknown pool: " ++ id)

/-- The accounts by their ids: of two with one id, the last. -/
def Doc.account (d : Doc) (id : Text) : Option Account :=
  d.accounts.reverse.find? fun a => a.id = id ∧ a.id ≠ []

/-- `_account` -/
def accountOf (d : Doc) (id : Text) : Except Stop Account :=
  match d.account id with
  | some a => .ok a
  | none => refuse 404 ("unknown account: " ++ id)

/-- `_model` -/
def modelOf (model : Text) : Except Stop Text :=
  if model.strip = [] then refuse 400 "a step needs a model" else .ok model.strip

/-- What a request gives as the target of a row. -/
inductive Target where
  | absent
  | bad
  | row (accountId model output : Text)
  deriving DecidableEq, Repr

/-- What a row is cabled to. -/
inductive Cable where
  | none
  | account (id model : Text)
  | output (output : Text)
  deriving DecidableEq, Repr

/-- `_target` -/
def cableOf (d : Doc) : Target → Except Stop Cable
  | .absent => .ok .none
  | .bad => refuse 400 "target must be an object: {accountId, model} or {output}"
  | .row accountId model output =>
    if output ≠ [] then
      if isOutput output.strip then .ok (.output output.strip)
      else refuse 400 ("not a local model: " ++ output.strip)
    else do
      let account ← accountOf d accountId
      let model ← modelOf model
      return .account account.id model

/-- `{**row, **cable}` of a row that names nothing. -/
def Cable.row (id : Text) (enabled : Bool) : Cable → Row
  | .none => { id, enabled }
  | .account accountId model => { id, accountId, model, enabled }
  | .output out => { id, output := out, enabled }

/-- `_keep(data, cable)` -/
def Cable.keep (addedModels : Added) : Cable → Added
  | .account id model => Cloud.keep addedModels id model
  | _ => addedModels

/-- `_cabled` -/
def Pool.cabled (p : Pool) : Bool := p.steps.any fun r => r.kind ≠ .empty

/-- `_put`: the pools once this one is in place of its stored self, or last. -/
def put (pools : List Pool) (p : Pool) : Except Stop (List Pool) :=
  match p.kept with
  | none => .error .broken
  | some kept =>
    match pools.findIdx? fun q => q.id = kept.id with
    | some i => .ok (pools.set i kept)
    | none => .ok (pools ++ [kept])

/-- `_named_after` -/
def namedAfter (d : Doc) (p : Pool) (nameAfter : Text) (cabledBefore : Bool) :
    Except Stop Pool := do
  let name := givenName nameAfter []
  if name ≠ [] ∧ ¬ cabledBefore ∧ defaultNamed p.name then
    return { p with name := ← freeName o d.readPools name }
  else return p

/-- `CloudPools.step_id` -/
def stepId (account : Text) (ids : List Text) : Except Stop Text :=
  search o (fun t => t ∈ ids) (numbered (account.take 44) "-")

/-- `CloudPools.row_id` -/
def rowId (ids : List Text) : Except Stop Text :=
  search o (fun t => t ∈ ids) fun n => "r" ++ digits n

/-! ### The pools -/

/-- `create` -/
def create (d : Doc) (name accountId model : Text) (target : Target) (nameAfter : Text) :
    Except Stop Change := do
  let first ← cableOf d (if target ≠ .absent then target
    else if accountId ≠ [] ∨ model ≠ [] then .row accountId model [] else .absent)
  let typed := givenName name []
  let firstModel := match first with | .account _ m => m | _ => []
  let name ← if typed ≠ [] then unique o d.readPools typed none
    else freeName o d.readPools (orElse (givenName nameAfter []) (orElse firstModel NEW_NAME))
  let id ← slug o name "pool" (d.readPools.map Pool.id)
  let rowName ← match first with
    | .account a _ => stepId o a []
    | _ => rowId o []
  let steps := if first = .none then [] else [first.row rowName true]
  let pools ← put d.pools { id, name, steps, contextAuto := true }
  saves fun x => { x with addedModels := first.keep x.addedModels, pools }

/-- `add_row` -/
def addRow (d : Doc) (poolId : Text) (target : Target) (nameAfter : Text) :
    Except Stop Change := do
  let pool ← poolOf d poolId
  let id ← rowId o (pool.steps.map Row.id)
  let cable ← cableOf d target
  let grown := { pool with steps := pool.steps ++ [cable.row id true] }
  let grown ← if cable ≠ .none then namedAfter o d grown nameAfter pool.cabled else pure grown
  let pools ← put d.pools grown
  saves fun x => { x with addedModels := cable.keep x.addedModels, pools }

/-- `connect_row` -/
def connectRow (d : Doc) (poolId rowId : Text) (target : Target) (nameAfter : Text) :
    Except Stop Change := do
  let pool ← poolOf d poolId
  refuseWhen (rowId ∉ pool.steps.map Row.id) 404
    ("pool " ++ poolId ++ " has no row " ++ rowId)
  let cable ← cableOf d target
  let steps := pool.steps.map fun r => if r.id = rowId then cable.row r.id r.enabled else r
  let rewired := { pool with steps }
  let rewired ← if cable ≠ .none then namedAfter o d rewired nameAfter pool.cabled
    else pure rewired
  let pools ← put d.pools rewired
  saves fun x => { x with addedModels := cable.keep x.addedModels, pools }

/-- `add_step` -/
def addStep (d : Doc) (poolId accountId model : Text) : Except Stop Change := do
  let pool ← poolOf d poolId
  let account ← accountOf d accountId
  let id ← stepId o account.id (pool.steps.map Row.id)
  let model ← modelOf model
  let pools ← put d.pools
    { pool with steps := pool.steps ++ [{ id, accountId := account.id, model }] }
  saves fun x => { x with addedModels := keep x.addedModels account.id model, pools }

/-- `remove_step` -/
def removeStep (d : Doc) (poolId stepId : Text) : Except Stop Change := do
  let pool ← poolOf d poolId
  refuseWhen (stepId ∉ pool.steps.map Row.id) 404
    ("pool " ++ poolId ++ " has no step " ++ stepId)
  let pools ← put d.pools { pool with steps := pool.steps.filter fun r => r.id ≠ stepId }
  saves fun x => { x with pools }

/-- `order`: the ids as they are sent, `none` for what is no list. -/
def order (d : Doc) (ids : Option (List Text)) : Except Stop Change :=
  let known := byId d.pools
  let stale : Except Stop Change := refuse 409
    "the pools changed since the board was drawn — draw it again and move the card again"
  match ids with
  | none => stale
  | some wanted =>
    if ¬ wanted.Nodup ∨ (∃ i ∈ wanted, i ∉ known.map Pool.id) ∨
        (∃ i ∈ known.map Pool.id, i ∉ wanted) then stale
    else saves fun x =>
      { x with pools := wanted.filterMap fun i => known.find? fun p => p.id = i }

/-- The order of `arrange`: the pools as the sets name them, and the rest. -/
def arranged (d : Doc) : List Text :=
  let ids := (byId d.pools).map Pool.id
  let named := (d.sets.flatMap PoolSet.pools).foldl
    (fun order i => if i ∈ ids ∧ i ∉ order then order ++ [i] else order) []
  named ++ ids.filter fun i => i ∉ named

/-- The models the rows name, by account, in the order of the pools. -/
def namedModels (d : Doc) (order : List Text) : Added :=
  let rows := (order.filterMap fun i => d.readPools.find? fun p => p.id = i).flatMap Pool.steps
  (rows.filter fun r => r.kind = .account).foldl
    (fun named r => Assoc.put named r.accountId (named.of r.accountId ++ [r.model])) []

/-- `arrange` -/
def arrange (d : Doc) : Except Stop Change :=
  let known := byId d.pools
  let order := arranged d
  let added := (namedModels d order).foldl (fun kept x => kept.putFirst x.1 x.2) d.added
  saves fun x => { x with
    pools := order.filterMap fun i => known.find? fun p => p.id = i
    addedModels := added.stored }

/-- What a page sends of one row. -/
structure RowEdit where
  id : Text
  enabled : Option Bool
  automatic : Option Bool
  accountId : Option Text
  model : Option Text
  deriving DecidableEq, Repr

/-- What a page sends of a pool. A list of rows that is none is `some none`, a window that is
no number `some none`. -/
structure PoolEdit where
  id : Text
  name : Option Text
  steps : Option (Option (List RowEdit))
  contextLength : Option (Option ℤ)
  /-- The window is empty: taken away. -/
  noWindow : Bool
  contextAuto : Option Bool
  deriving DecidableEq, Repr

/-- The row that a row's edit makes, with the account's own checks. -/
def editRow (d : Doc) (row : Row) (edit : RowEdit) : Except Stop Row := do
  let enabled := edit.enabled.getD row.enabled && edit.automatic.getD true
  match row.kind with
  | .account =>
    let account ← accountOf d (edit.accountId.getD row.accountId)
    let model ← modelOf (edit.model.getD row.model)
    return { row with enabled, accountId := account.id, model }
  | _ => return { row with enabled }

/-- Where the loop of `save_pool` is: the rows made, and the column. -/
structure Edited where
  steps : List Row := []
  added : Added
  deriving DecidableEq, Repr

/-- One turn of the loop of `save_pool`. -/
def editStep (d : Doc) (stored : Pool) (done : Edited) (edit : RowEdit) :
    Except Stop Edited := do
  refuseWhen (edit.id ∉ stored.steps.map Row.id ∨ edit.id ∈ done.steps.map Row.id) 400
    "pool.steps: each step once, and only the pool's own"
  match stored.steps.find? fun r => r.id = edit.id with
  | none => .error .broken
  | some row =>
    let row ← editRow d row edit
    return { steps := done.steps ++ [row],
             added := if row.kind = .account then keep done.added row.accountId row.model
               else done.added }

/-- The loop of `save_pool`: how far it comes, and what ends it. -/
def editSteps (d : Doc) (stored : Pool) : Edited → List RowEdit → Edited × Except Stop Unit
  | done, [] => (done, .ok ())
  | done, edit :: edits => match editStep d stored done edit with
    | .ok done => editSteps d stored done edits
    | .error e => (done, .error e)

/-- What `save_pool` asks after the loop. -/
def finishPool (d : Doc) (stored : Pool) (edit : PoolEdit) (steps : List Row) :
    Except Stop (List Pool) := do
  let window := if edit.noWindow then none else edit.contextLength.getD stored.contextLength
  refuseWhen (¬ edit.noWindow ∧ (edit.contextLength.isSome ∨ stored.contextLength.isSome) ∧
    positive window = none) 400 "contextLength must be a positive number or empty"
  let name ← unique o d.readPools (givenName (edit.name.getD stored.name) stored.name)
    (some stored.id)
  put d.pools { stored with
    name, steps, contextLength := window, contextAuto := edit.contextAuto.getD stored.contextAuto }

/-- The rows of an edit: those of the pool, where it names none. -/
def PoolEdit.rows (edit : PoolEdit) (stored : Pool) : Except Stop (List RowEdit) :=
  match edit.steps with
  | none => .ok (stored.steps.map fun r => ⟨r.id, none, none, none, none⟩)
  | some (some edits) => .ok edits
  | some none => refuse 400 "pool.steps must be a list"

/-- What `save_pool` asks before the loop. -/
def PoolEdit.begin (d : Doc) (edit : PoolEdit) : Except Stop (Pool × List RowEdit) := do
  let stored ← poolOf d edit.id
  return (stored, ← edit.rows stored)

/-- `save_pool`, with the column as a refusal leaves it. -/
def savePool (d : Doc) : Option PoolEdit → Document.Decision Doc Stop
  | none => .refused (.refused ⟨"pool must be an object", 400⟩) id
  | some edit => match edit.begin d with
    | .error e => .refused e id
    | .ok (stored, rows) =>
      let done := editSteps d stored { added := d.addedModels } rows
      let keeps := fun x : Doc => { x with addedModels := done.1.added }
      match done.2 with
      | .error e => .refused e keeps
      | .ok () => match finishPool o d stored edit done.1.steps with
        | .error e => .refused e keeps
        | .ok pools => .save (fun x => { x with addedModels := done.1.added, pools }) false false

end Cloud
