import Caravan.Framework.Documents
import Caravan.Python.Text
import Mathlib.Data.List.Dedup
import Mathlib.Data.List.Sort

/-!
# The cloud document

What `cloud-providers.json` keeps, as `_parse_cloud_data` reads it and `save_cloud_data`
writes it: the accounts, the pools with their rows, the sets of pools, and what is kept of the
models. A record of the file is a structure with a field for each key that is read, blank where
the record has not the key. `CloudPools.step` and `CloudPools.pool` make of such a record what
is kept; `pools` is a reading of the file.
-/

namespace Cloud

open Python

/-! ### Levels -/

/-- Percents by the seconds of a window. -/
abbrev Levels := List (ℕ × ℕ)

def MAX_PCT : ℕ := 90

/-- `UsageReserve.NEW_STEP` -/
def NEW_STEP : Levels := [(18000, 10), (604800, 10)]

/-- `UsageReserve.normalize` -/
def normalizeLevels (l : Levels) : Levels :=
  (l.filter fun x => 0 < x.1 ∧ 0 < x.2).map fun x => (x.1, min x.2 MAX_PCT)

def Levels.at (l : Levels) (seconds : ℕ) : ℕ := (l.lookup seconds).getD 0

structure Pair where
  stopAt : Levels
  switchAt : Levels
  deriving DecidableEq, Repr

/-- `sorted({*a, *b}, key=int)` -/
def secondsOf (a b : Levels) : List ℕ :=
  ((a ++ b).map Prod.fst).dedup.insertionSort (· ≤ ·)

/-- `ModelLevels.clean`, of the two maps an entry may have. -/
def Pair.clean (stopAt switchAt : Option Levels) : Pair :=
  let stop := normalizeLevels ((stopAt.or switchAt).getD [])
  let switch := normalizeLevels (switchAt.getD [])
  ⟨stop, (secondsOf switch stop).map fun k => (k, max (switch.at k) (stop.at k))⟩

/-- `ModelLevels.stricter` -/
def Pair.stricter (a b : Pair) : Pair :=
  let higher := fun x y : Levels => (secondsOf x y).map fun k => (k, max (x.at k) (y.at k))
  Pair.clean (some (higher a.stopAt b.stopAt)) (some (higher a.switchAt b.switchAt))

/-! ### Pools -/

/-- A row of a pool, as the file has it. -/
structure Row where
  id : Text
  accountId : Text := []
  model : Text := []
  output : Text := []
  enabled : Bool := true
  automatic : Bool := true
  stopAt : Option Levels := none
  switchAt : Option Levels := none
  deriving DecidableEq, Repr

/-- A member of a pool of the old form. -/
structure Member where
  accountId : Text
  enabled : Bool
  automatic : Bool
  deriving DecidableEq, Repr

structure Pool where
  id : Text
  name : Text
  steps : List Row
  contextLength : Option ℤ := none
  contextAuto : Bool := false
  /-- The members of a pool of the old form. -/
  members : Option (List Member) := none
  deriving DecidableEq, Repr

/-- What a row names. -/
inductive Kind where
  | account
  | output
  | empty
  deriving DecidableEq, Repr

/-- A letter, a digit or one of these. -/
def wordChar (others : List Char) (c : CodePoint) : Bool :=
  let n := c.val
  (0x30 ≤ n && n ≤ 0x39) || (0x41 ≤ n && n ≤ 0x5A) || (0x61 ≤ n && n ≤ 0x7A) ||
    others.any fun a => c = codePoint a

/-- `CloudPools.OUTPUT`, of a text without blanks around it. -/
def isOutput (t : Text) : Bool :=
  [("srv:" : Text), "eng:", "mm:"].any fun start => start.isPrefixOf t &&
    (let rest := t.drop start.length
     rest ≠ [] && rest.length ≤ 80 && rest.all (wordChar ['.', '_', ':', '-']))

/-- The `kind` of a row that is kept. -/
def Row.kind (r : Row) : Kind :=
  if r.accountId ≠ [] ∧ r.model ≠ [] then .account
  else if isOutput r.output then .output
  else .empty

/-- `CloudPools.step` -/
def Row.step (r : Row) : Option Row :=
  let id := r.id.strip
  let account := r.accountId.strip
  let model := r.model.strip
  let output := r.output.strip
  let enabled := r.enabled && r.automatic
  if id = [] then none
  else if account ≠ [] ∧ model ≠ [] then some { id, accountId := account, model, enabled }
  else if isOutput output then some { id, output, enabled }
  else some { id, enabled }

/-- The rows that are kept: a second one under an id drops out. -/
def keptSteps (rows : List Row) : List Row :=
  rows.foldl (fun steps r => match r.step with
    | some step => if step.id ∈ steps.map Row.id then steps else steps ++ [step]
    | none => steps) []

/-- `CloudPools._positive` -/
def positive (n : Option ℤ) : Option ℤ := n.filter (0 < ·)

/-- A text, or another where it is blank. -/
def orElse (t other : Text) : Text := if t = [] then other else t

/-- `CloudPools.pool` -/
def Pool.kept (p : Pool) : Option Pool :=
  let id := p.id.strip
  if id = [] then none
  else some {
    id
    name := orElse (orElse p.name id).strip id
    steps := keptSteps p.steps
    contextAuto := p.contextAuto
    contextLength := positive p.contextLength }

/-- `d[p["id"]] = p` -/
def putById (ps : List Pool) (p : Pool) : List Pool :=
  if p.id ∈ ps.map Pool.id then ps.map fun q => if q.id = p.id then p else q else ps ++ [p]

/-- `{p["id"]: p for p in ps}` -/
def byId (ps : List Pool) : List Pool := ps.foldl putById []

/-! ### Accounts and sets -/

structure Account where
  id : Text
  type : Text := []
  name : Text := []
  baseUrl : Text := []
  authMode : Text := []
  accountType : Text := []
  /-- `tokenUrl` and `clientId`. -/
  oauthConfig : Option (Text × Text) := none
  testAliasOf : Text := []
  credit : Option Text := none
  /-- The levels an account of the old form kept. -/
  usageReserve : Option Levels := none
  deriving DecidableEq, Repr

/-- A model block of the old form. -/
structure Block where
  id : Text
  accountId : Text
  name : Text
  model : Text
  exposed : Bool
  contextLength : Option ℤ
  contextAuto : Bool
  deriving DecidableEq, Repr

structure PoolSet where
  id : Text
  name : Text
  pools : List Text
  deriving DecidableEq, Repr

/-- When a model is open. The windows are taken as a text. -/
structure Schedule where
  enabled : Bool
  windows : Text
  deriving DecidableEq, Repr

/-! ### The document -/

structure Doc where
  accounts : List Account := []
  pools : List Pool := []
  blocks : List Block := []
  levels : List ((Text × Text) × Pair) := []
  addedModels : List (Text × List Text) := []
  boardProviders : List Text := []
  sets : List PoolSet := []
  schedules : List (Text × Schedule) := []
  migrations : List Text := []
  deriving DecidableEq, Repr

/-- A provider of the flat form, an account and a model in one. -/
structure Provider where
  id : Text
  type : Text
  name : Text
  baseUrl : Text
  model : Text
  deriving DecidableEq, Repr

/-- The JSON of the file. -/
inductive File where
  | current (doc : Doc)
  | flat (providers : List Provider)
  | other
  deriving DecidableEq, Repr

/-- `_parse_cloud_data` -/
def parse : File → Doc
  | .current doc => { doc with
      pools := doc.pools.filter fun p => p.id ≠ []
      accounts := doc.accounts.filter fun a => a.id ≠ []
      blocks := doc.blocks.filter fun b => b.id ≠ [] }
  | .flat providers =>
    let kept := providers.filter fun p => p.id ≠ []
    { accounts := kept.map fun p =>
        { id := p.id ++ "-acct", type := orElse p.type "openai", name := orElse p.name p.id,
          baseUrl := p.baseUrl, authMode := "apiKey" },
      blocks := kept.map fun p =>
        { id := p.id, accountId := p.id ++ "-acct", name := orElse p.name p.id, model := p.model,
          exposed := false, contextLength := none, contextAuto := false } }
  | .other => {}

/-- `sorted(set(l))` -/
def sortedSet (l : List Text) : List Text := l.dedup.insertionSort (· ≤ ·)

/-- `save_cloud_data` -/
def written (doc : Doc) : File := .current { doc with migrations := sortedSet doc.migrations }

/-- `_providers`: a missing or unreadable file is read as a document of its own. -/
def providers : Document.Medium File Doc where
  parse := parse
  write := written
  blank := {}
  shared := true

/-! ### A reading of the pools -/

/-- `CloudPools.legacy` -/
def Doc.legacy (d : Doc) : Bool := d.blocks ≠ [] || d.pools.any fun p => p.members.isSome

/-- `_legacy_step`, without the levels, which no row keeps. -/
def legacyStep (account model : Text) (enabled automatic : Bool) : Row :=
  { id := account, accountId := account, model, enabled, automatic }

/-- `_from_block`, before it is kept. -/
def Doc.fromBlock (d : Doc) (b : Block) : Pool where
  id := b.id.strip
  name := orElse b.name (orElse b.model.strip b.id)
  contextLength := b.contextLength
  contextAuto := b.contextAuto
  steps := match (byId (d.pools.filter fun p => p.members.isSome)).find? fun p =>
      p.id = b.accountId with
    | some old => ((old.members.getD []).filter fun m => m.accountId ≠ []).map fun m =>
        legacyStep m.accountId b.model.strip m.enabled m.automatic
    | none => [legacyStep b.accountId b.model.strip true true]

/-- `CloudPools(data).pools` -/
def Doc.readPools (d : Doc) : List Pool :=
  byId (if d.legacy then (d.blocks.filter fun b => b.id.strip ≠ []).filterMap fun b =>
      (d.fromBlock b).kept
    else d.pools.filterMap Pool.kept)

end Cloud
