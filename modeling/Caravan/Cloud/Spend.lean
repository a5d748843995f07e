import Caravan.Cloud.Document
import Caravan.Framework.Tally
import Caravan.Framework.Visits
import Caravan.Python.Torn

/-!
# What the cloud has cost

The proxy writes a line for every event into the file of the day (`Event.line`). Two functions add
up from these files what each account has spent: `cloud_spend_summary` for the board, with what went
through since a credit was typed, and `usage_stats` for the panel. Both look for the files by going
back from now in steps of 86400 seconds, and both choose the lines by the words in them before
they read them.

Costs are exact numbers here, and are rounded where they are shown.
-/

namespace Spend

open Python

/-! ### Prices -/

/-- A row of a table of prices, per million tokens. -/
structure PriceRow where
  inputPer1M : ℚ
  outputPer1M : ℚ
  cacheReadPer1M : Option ℚ := none
  cacheWritePer1M : Option ℚ := none
  deriving DecidableEq, Repr

structure ModelPrices where
  table : List (Text × PriceRow) := []
  overrides : List (Text × PriceRow) := []
  deriving DecidableEq, Repr

namespace ModelPrices

variable (p : ModelPrices)

/-- `row`: the operator's, if it names a price. -/
def row (model : Text) : Option PriceRow :=
  [p.overrides, p.table].findSome? fun source =>
    (Assoc.get source model).filter fun r => r.inputPer1M ≠ 0 || r.outputPer1M ≠ 0

/-- `of` -/
def ofModel (model : Text) : ℚ × ℚ × Bool :=
  match p.row model with
  | none => (0, 0, false)
  | some r => (r.inputPer1M, r.outputPer1M, true)

/-- `cache_of` -/
def cacheOf (model : Text) : ℚ × ℚ :=
  match p.row model with
  | none => (0, 0)
  | some r =>
    let rate (value : Option ℚ) : ℚ := (value.filter (0 ≤ ·)).getD r.inputPer1M
    (rate r.cacheReadPer1M, rate r.cacheWritePer1M)

/-- `cost` -/
def cost (model : Text) (promptTokens completionTokens cacheRead cacheWrite : ℤ) : ℚ × Bool :=
  let (priceIn, priceOut, known) := p.ofModel model
  let (readPrice, writePrice) := p.cacheOf model
  let prompt := max 0 promptTokens
  let read := min (max 0 cacheRead) prompt
  let write := min (max 0 cacheWrite) (prompt - read)
  let dollars := (prompt - read - write : ℤ) * priceIn + read * readPrice + write * writePrice +
    (max 0 completionTokens : ℤ) * priceOut
  (dollars / 10 ^ 6, known)

end ModelPrices

/-! ### The journal -/

/-- What a machine decides: how its Python reads JSON, its local time, and how a figure is rounded
to four places. -/
structure Host where
  I : Interp
  toFloat : Text → Python.Float
  limit : Option ℕ
  nesting : ℕ
  /-- How far local time is ahead at a second. -/
  zone : ℤ → ℤ
  round4 : ℚ → ℚ
  /-- `LOG_RETENTION_DAYS` -/
  retentionDays : ℤ

/-- The local day of a second. -/
def Host.localDay (H : Host) (t : ℤ) : ℤ := (t + H.zone t) / 86400

/-- What `write_proxy_event` is given, and the time it reads. -/
structure Event where
  time : ℤ
  timeIso : Text
  event : Text
  route : Text
  requestId : Text
  item : Dict
  active : Value
  queue : Value
  fields : Dict

/-- The row. -/
def Event.row (e : Event) : Dict :=
  Dict.update [("time", .int e.time), ("timeIso", .str e.timeIso), ("event", .str e.event),
    ("route", .str e.route), ("requestId", .str e.requestId), ("item", .dict e.item),
    ("active", e.active), ("queue", e.queue)] e.fields

/-- The line, without the line feed behind it. -/
def Event.line (e : Event) : Text := Style.raw.write (.dict e.row)

/-- Texts and counts stand where they belong, if anything does. -/
structure Readable (it : Dict) : Prop where
  texts : ∀ k ∈ [("upstreamType" : Text), "cloudAccountId", "cloudModel", "errorKind", "providerId",
    "model"], it.get k = .null ∨ ∃ t, it.get k = .str t
  usage : it.get "usage" = .null ∨ ∃ u : Dict, it.get "usage" = .dict u ∧
    ∀ k ∈ [("prompt" : Text), "completion", "cacheRead", "cacheWrite"],
      u.get k = .null ∨ ∃ n, u.get k = .int n

/-- A row as the proxy writes it. -/
structure Event.Written (H : Host) (e : Event) : Prop where
  own : ∀ k ∈ [("time" : Text), "event", "item"], e.fields.has k = false
  readable : Readable e.item
  back : Loads.Back H.toFloat (fun _ => True) H.limit (.dict e.row)
  depth : (Value.dict e.row).depth ≤ H.nesting

abbrev Row (H : Host) := {e : Event // e.Written H}

/-- The rows of each day that has a file. -/
abbrev Journal (H : Host) := ℤ → Option (List (Row H))

/-- The text of a day's file. -/
def Journal.file {H : Host} (J : Journal H) (day : ℤ) : Option Text :=
  (J day).map fun rows => unlines (rows.map fun r => r.1.line)

/-! ### A row's account, model and cost -/

/-- What the accounts file and the prices say: the pools as `CloudPools` reads them, and for each
account the moment of its credit, if `AccountCredit.kept` keeps one. -/
structure Data where
  pools : List Cloud.Pool := []
  accounts : List (Text × Option ℤ) := []
  prices : ModelPrices := {}

variable (H : Host) (D : Data)

/-- `str(v or "")` -/
def textOr (v : Value) : Except Error Text := strOf H.I (v.or "")

/-- `v or {}`, where something is got from it. -/
def dictOr (v : Value) : Except Error Dict :=
  match v.or (.dict []) with
  | .dict d => .ok d
  | _ => .error .type

/-- `int(v or 0)` -/
def countOr (v : Value) : Except Error ℤ := intOf H.I (v.or (.int 0))

/-- `POOL_KINDS` -/
def POOL_KINDS : List Text := ["pool_unavailable", "pool_context_required"]

/-- The step of a pool that an older record means. -/
def stepOf (providerId account : Text) : Option Cloud.Row :=
  let rows := ((D.pools.find? fun p => p.id = providerId).map Cloud.Pool.steps).getD []
    |>.filter fun r => r.kind = .account
  (rows.find? fun r => r.accountId = account).or (if account = [] then rows.head? else none)

/-- `CloudLeg.of` -/
def legOf (it : Dict) : Except Error (Text × Text) := do
  let account ← textOr H (it.get "cloudAccountId")
  let model ← textOr H (it.get "cloudModel")
  let kind ← if account = [] then textOr H (it.get "errorKind") else .ok []
  if account = [] ∧ kind ∈ POOL_KINDS then return ([], [])
  let providerId ← if model = [] then textOr H (it.get "providerId") else .ok []
  let (account, model) := match if model = [] then stepOf D providerId account else none with
    | some s => (if account = [] then s.accountId else account, s.model)
    | none => (account, model)
  let own ← if model = [] then textOr H (it.get "model") else .ok model
  return (account, own)

/-- What a request has cost, and whom. -/
structure Spent where
  account : Text
  model : Text
  prompt : ℤ
  completion : ℤ
  cost : ℚ
  known : Bool
  deriving DecidableEq, Repr

/-- What the item of a row was spent on, if it went to the cloud and names an account. -/
def cloudSpent (it : Dict) : Except Error (Option Spent) := do
  let upstream ← strOf H.I (it.get "upstreamType")
  if upstream ≠ "cloud" then return none
  let (account, model) ← legOf H D it
  if account = [] then return none
  let model : Text := if model = [] then "?" else model
  let u ← dictOr (it.get "usage")
  let prompt ← countOr H (u.get "prompt")
  let completion ← countOr H (u.get "completion")
  let cacheRead ← countOr H (u.get "cacheRead")
  let cacheWrite ← countOr H (u.get "cacheWrite")
  let (cost, known) := D.prices.cost model prompt completion cacheRead cacheWrite
  return some { account, model, prompt, completion, cost, known }

/-! ### The board's meter -/

structure Since where
  total : ℚ := 0
  requests : ℕ := 0
  unpriced : ℕ := 0
  deriving DecidableEq, Repr

/-- `SpendRecord`; of a model the cost and the requests. -/
structure SpendRecord where
  total : ℚ := 0
  requests : ℕ := 0
  promptTokens : ℤ := 0
  completionTokens : ℤ := 0
  unpriced : ℕ := 0
  byModel : List (Text × ℚ × ℕ) := []
  since : Since := {}
  deriving DecidableEq, Repr

namespace SpendRecord

/-- `add` -/
def add (r : SpendRecord) (s : Spent) : SpendRecord := { r with
  total := r.total + s.cost
  requests := r.requests + 1
  promptTokens := r.promptTokens + s.prompt
  completionTokens := r.completionTokens + s.completion
  unpriced := r.unpriced + if s.known then 0 else 1
  byModel := Assoc.add r.byModel s.model (s.cost, 1) }

/-- `add_since_credit` -/
def addSinceCredit (r : SpendRecord) (s : Spent) : SpendRecord := { r with
  since := {
    total := r.since.total + s.cost
    requests := r.since.requests + 1
    unpriced := r.since.unpriced + if s.known then 0 else 1 } }

end SpendRecord

structure SinceCredit where
  asOf : ℤ
  total : ℚ
  requests : ℕ
  unpriced : ℕ
  isFloor : Bool
  deriving DecidableEq, Repr

/-- What is shown of a record. -/
structure Shown where
  total : ℚ
  requests : ℕ
  promptTokens : ℤ
  completionTokens : ℤ
  unpriced : ℕ
  windowDays : ℤ
  byModel : List (Text × ℚ × ℕ)
  sinceCredit : Option SinceCredit
  deriving DecidableEq, Repr

/-- `public`; `now` is in microseconds. -/
def SpendRecord.shown (r : SpendRecord) (days : ℤ) (credit : Option ℤ) (now : ℤ) : Shown where
  total := H.round4 r.total
  requests := r.requests
  promptTokens := r.promptTokens
  completionTokens := r.completionTokens
  unpriced := r.unpriced
  windowDays := days
  byModel := (r.byModel.mergeSort fun a b => b.2.1 ≤ a.2.1).map fun m =>
    (m.1, H.round4 m.2.1, m.2.2)
  sinceCredit := credit.map fun asOf => {
    asOf
    total := H.round4 r.since.total
    requests := r.since.requests
    unpriced := r.since.unpriced
    isFloor := 0 < H.retentionDays &&
      H.retentionDays * 86400 * 10 ^ 6 < now - asOf * 10 ^ 6 }

/-- The moments of the credits. -/
def Data.credits : List (Text × ℤ) :=
  D.accounts.foldl (fun m a => match a.2 with
    | some asOf => if a.1 = [] then m else Assoc.set m a.1 asOf
    | none => m) []

/-- The day that a step back leads to. -/
def dayAt (now : ℤ) (i : ℕ) : ℤ := H.localDay (now / 10 ^ 6 - i * 86400)

/-- How many steps are made. -/
def reach (days now : ℤ) : ℕ :=
  (min 3650 (D.credits.foldl (fun m c =>
    max m ((now - c.2 * 10 ^ 6) / (86400 * 10 ^ 6) + 1)) days)).toNat

/-- A line of the file that a step found. -/
def spendLine (days : ℤ) (i : ℕ) (records : List (Text × SpendRecord)) (ln : Text) :
    Except Error (List (Text × SpendRecord)) :=
  if !ln.contains "\"finished\"" || !ln.contains "\"cloud\"" then .ok records
  else match Loads.loads H.toFloat H.limit H.nesting ln with
    | .error _ => .ok records
    | .ok (.dict row) => do
      let it ← dictOr (Dict.get row "item")
      match ← cloudSpent H D it with
      | none => return records
      | some s =>
        let record := (Assoc.get records s.account).getD {}
        let record ← match Assoc.get D.credits s.account with
          | none => pure record
          | some asOf => do
            let time ← countOr H (Dict.get row "time")
            pure (if asOf ≤ time then record.addSinceCredit s else record)
        let record := if (i : ℤ) < days then record.add s else record
        return Assoc.set records s.account record
    | .ok _ => .error .type

/-- The loops of `cloud_spend_summary`. -/
def spendRecords (files : ℤ → Option Text) (days now : ℤ) :
    Except Error (List (Text × SpendRecord)) :=
  (List.range (reach D days now)).foldlM (fun records i =>
    match files (dayAt H now i) with
    | none => .ok records
    | some text => text.splitlines.foldlM (spendLine H D days i) records)
    (D.credits.map fun c => (c.1, {}))

/-- `cloud_spend_summary` -/
def cloudSpendSummary (files : ℤ → Option Text) (days now : ℤ) :
    Except Error (List (Text × Shown)) := do
  let records ← spendRecords H D files days now
  return records.map fun r => (r.1, r.2.shown H days (Assoc.get D.credits r.1) now)

/-! ### The panel -/

/-- What the panel adds up of an account; of a model the cost, the requests and the tokens. -/
structure AccountStats where
  total : ℚ := 0
  requests : ℕ := 0
  promptTokens : ℤ := 0
  completionTokens : ℤ := 0
  byModel : List (Text × ℚ × ℕ × ℤ × ℤ) := []
  deriving DecidableEq, Repr

def AccountStats.add (a : AccountStats) (s : Spent) : AccountStats where
  total := a.total + s.cost
  requests := a.requests + 1
  promptTokens := a.promptTokens + s.prompt
  completionTokens := a.completionTokens + s.completion
  byModel := Assoc.add a.byModel s.model (s.cost, 1, s.prompt, s.completion)

/-- A line of a file. What a local server has answered counts for the other half of the panel,
which is left out. -/
def usageLine (accounts : List (Text × AccountStats)) (ln : Text) :
    Except Error (List (Text × AccountStats)) :=
  if !ln.contains "\"finished\"" then .ok accounts
  else match Loads.loads H.toFloat H.limit H.nesting ln with
    | .ok (.dict row) => do
      let it ← dictOr (Dict.get row "item")
      let utype ← strOf H.I ((it.get "upstreamType").or "llama")
      let u ← dictOr (it.get "usage")
      let prompt ← countOr H (u.get "prompt")
      let completion ← countOr H (u.get "completion")
      if utype = "cloud" then do
        let (account, model) ← legOf H D it
        if account = [] then return accounts
        let model : Text := if model = [] then "?" else model
        let cacheRead ← countOr H (u.get "cacheRead")
        let cacheWrite ← countOr H (u.get "cacheWrite")
        let (cost, known) := D.prices.cost model prompt completion cacheRead cacheWrite
        let a := (Assoc.get accounts account).getD {}
        return Assoc.set accounts account
          (a.add { account, model, prompt, completion, cost, known })
      else return accounts
    | _ => .ok accounts

/-- The window of the panel. -/
def windowOf (days : ℤ) : ℤ := max 1 (min days 365)

/-- The cloud's half of `usage_stats`. -/
def usageStats (files : ℤ → Option Text) (days now : ℤ) :
    Except Error (List (Text × AccountStats)) :=
  (List.range (windowOf days).toNat).foldlM (fun accounts i =>
    match files (dayAt H now i) with
    | none => .ok accounts
    | some text => text.splitlines.foldlM (usageLine H D) accounts) []

end Spend
