import Caravan.Proxy.Pools

/-!
# The choice of a pool's row

`PoolSteps`, over the state the proxy keeps between requests: the last readings, the rests
after a refusal, the tries of the usage page. One row is judged by `candidate`, each row of a
pool in order by `verdicts`, and `resolve` takes the first that is ready, or else the first
that gives way. `failed` is the rest a refusal puts on an account.

What the proxy asks of others (accounts, sign-ins, catalogues, cells, the usage page) is an
`Env`; it answers the same throughout one choice.
-/

namespace Proxy.Pool

open Python

/-! ### The surroundings -/

/-- A usage page, as far as it is read: its windows, and whether it states that there are
none to keep to. -/
structure UsagePage where
  windows : List Window
  unlimited : Bool

/-- What `PoolSteps` is made with. `target` is what the controller names a cell. -/
structure Env (target : Type) where
  account : Text → Option Provider
  credential : Provider → Bool
  /-- Whether an account's catalogue lists a model, where there is one. -/
  listed : Text → Text → Option Bool
  /-- `SubscriptionResetJournal.reset_at` -/
  resetAt : Text → ℚ
  fetch : Provider → Option UsagePage
  localOutput : Text → Option target
  dead : Text → Bool
  free : target → Bool
  /-- `ModelSchedules.closed`: when a closed model opens next, if ever. -/
  closed : Text → ℚ → Option (Option ℚ)
  /-- `CaravanZone.text` -/
  zoneText : ℚ → Text

/-- Why a row is fit or not now. -/
inductive Reason where
  | notConnected | disabled | closed | tried | credentialMissing | formatUnsupported
  | upstreamRefused | quota | payment | authRejected | modelUnavailable | usageUnknown
  | reserve | switch | ready | outputMissing | unavailable | busy
  deriving DecidableEq

/-- The word of a reason in the state, the journal and a refusal. -/
def Reason.text : Reason → Text
  | .notConnected => Text.of "not_connected"
  | .disabled => Text.of "disabled"
  | .closed => Text.of "closed"
  | .tried => Text.of "tried"
  | .credentialMissing => Text.of "credential_missing"
  | .formatUnsupported => Text.of "format_unsupported"
  | .upstreamRefused => Text.of "upstream_refused"
  | .quota => Text.of "quota"
  | .payment => Text.of "payment"
  | .authRejected => Text.of "auth_rejected"
  | .modelUnavailable => Text.of "model_unavailable"
  | .usageUnknown => Text.of "usage_unknown"
  | .reserve => Text.of "reserve"
  | .switch => Text.of "switch"
  | .ready => Text.of "ready"
  | .outputMissing => Text.of "output_missing"
  | .unavailable => Text.of "unavailable"
  | .busy => Text.of "busy"

/-- One row of a pool's state. -/
structure Row (target : Type) where
  stepId : Text
  kind : Kind
  eligible : Bool
  reason : Reason
  usageAccountId : Option Text
  windows : List Window
  readAt : Option ℚ
  reserve : Option UsageReserve.Hit
  resetAt : Option ℚ
  opensAt : Option ℚ
  target : Option target

/-- A row that is not fit, for a reason alone. -/
def Row.of {target : Type} (step : Step) (reason : Reason) : Row target :=
  ⟨step.id, step.kind, false, reason, none, [], none, none, none, none, none⟩

/-- The last reading of an account's windows. -/
structure Reading where
  windows : List Window
  readAt : ℚ

/-- A rest after a refusal. -/
structure Rest where
  reason : Reason
  since : ℚ
  ends : ℚ

/-- A switch of a pool to another row. -/
structure Switch where
  poolId : Text
  was : Option Text
  now : Option Text
  since : ℚ
  reasons : List (Text × Reason)

/-- What the proxy keeps between requests. -/
structure State where
  /-- `SubscriptionUsage._rows` -/
  usage : Text → Option Reading
  /-- When a page last said that an account has no limits. -/
  observed : Text → Option ℚ
  tried : Text → Option ℚ
  blocked : Text → Option Rest
  resetsSeen : Text → ℚ
  selected : Text → Option Text
  events : List Switch

def State.fresh : State where
  usage _ := none
  observed _ := none
  tried _ := none
  blocked _ := none
  resetsSeen _ := 0
  selected _ := none
  events := []

def FRESH_SEC : ℚ := 300
def FAILED_REFRESH_SEC : ℚ := 30

/-- `SubscriptionUsage.keep`: an empty reading leaves the last as it was. -/
def State.keep (s : State) (owner : Text) (windows : List Window) (now : ℚ) : State :=
  if owner.strip = [] ∨ windows = [] then s
  else { s with usage := Function.update s.usage owner.strip (some ⟨windows, now⟩) }

/-! ### A reading -/

section Verdicts

variable {target : Type} (E : Env target) (now : ℚ)

/-- A reading heard since the last reset, not longer ago than `FRESH_SEC`. -/
def isFresh (since readAt : ℚ) : Bool := since ≤ readAt && now - readAt < FRESH_SEC

/-- The reading held of an account's windows. -/
def State.held (s : State) (owner : Text) : List Window := ((s.usage owner.strip).map Reading.windows).getD []

def State.readAt (s : State) (owner : Text) : Option ℚ := (s.usage owner.strip).map Reading.readAt

/-- A window of the reading has reset since it was heard. -/
def expired (windows : List Window) : Bool :=
  windows.any fun w => w.resetAt.any fun r => r ≠ 0 && (r : ℚ) ≤ now

/-- Whether the usage page is asked now: not again within `FAILED_REFRESH_SEC`. -/
def State.asks (s : State) (owner : Text) : Bool :=
  (s.tried owner).all fun t => FAILED_REFRESH_SEC ≤ now - t

/-- What an answer of the usage page leaves, and the reading it gives, if it gives one. -/
def State.fetched (s : State) (provider : Provider) : State × Option (List Window) :=
  let owner := provider.owner
  let s := { s with tried := Function.update s.tried owner (some now) }
  match E.fetch provider with
  | none => (s, none)
  | some page =>
    if page.windows ≠ [] then (s.keep owner page.windows now, some page.windows)
    else if page.unlimited then
      ({ s with observed := Function.update s.observed owner (some now) }, some [])
    else (s, none)

/-- `PoolSteps._reading`: the windows, when they were heard, and whether they can be gone by. -/
def reading (provider : Provider) (s : State) : State × List Window × Option ℚ × Bool :=
  let owner := provider.owner
  let windows := s.held owner
  let resetAt := E.resetAt owner
  if (s.readAt owner).any (isFresh now resetAt) && !expired now windows then
    (s, windows, s.readAt owner, true)
  else if (s.observed owner).any (isFresh now resetAt) then
    (s, [], s.observed owner, true)
  else if s.asks now owner then
    match s.fetched E now provider with
    | (s', some fresh) => (s', fresh, some now, true)
    | (s', none) => (s', windows, s.readAt owner, false)
  else (s, windows, s.readAt owner, false)

/-! ### One row -/

/-- A confirmed reset takes an account's quota rest and its last try away. -/
def State.forgive (s : State) (owner : Text) (resetAt : ℚ) : State :=
  if s.resetsSeen owner < resetAt then
    let s := { s with resetsSeen := Function.update s.resetsSeen owner resetAt }
    let s := if (s.blocked owner).any fun b => b.reason = .quota && b.since ≤ resetAt then
      { s with blocked := Function.update s.blocked owner none } else s
    if (s.tried owner).getD 0 < resetAt then
      { s with tried := Function.update s.tried owner none }
    else s
  else s

/-- When the spent windows of a reading are all back. -/
def backAt (exhausted : List Window) : Option ℚ :=
  (exhausted.map fun w => ((w.resetAt.map fun r => (r : ℚ)).getD (now + 30))).max?

/-- A subscription's row, once its account may be asked: what its limits say. -/
def judge (levels : UsageReserve × UsageReserve) (row : Row target) (windows : List Window) :
    Row target :=
  if windows.any fun w => ((levels.1.get w.seconds).isSome || (levels.2.get w.seconds).isSome) &&
      !(w.resetAt.any (· ≠ 0)) then
    { row with reason := .usageUnknown }
  else
    match levels.1.verdict windows now with
    | some hit =>
      { row with reason := .reserve, reserve := some hit, resetAt := some hit.resetAt }
    | none =>
      let exhausted := windows.filter fun w => 100 ≤ w.usedPct
      if exhausted ≠ [] then { row with reason := .quota, resetAt := backAt now exhausted }
      else
        match levels.2.verdict windows now with
        | some given =>
          { row with eligible := true, reason := .switch, reserve := some given,
                     resetAt := some given.resetAt }
        | none => { row with eligible := true, reason := .ready }

/-- The rest of `_candidate`, for a provider with a sign-in that takes the request's form. -/
def accountCandidate (step : Step) (model : Text) (provider : Provider) (excluded : List Text)
    (levels : UsageReserve × UsageReserve) (s : State) : State × Row target :=
  let owner := provider.owner
  let row : Row target := { Row.of step .ready with usageAccountId := some owner }
  let s := s.forgive owner (E.resetAt owner)
  if owner ∈ excluded then (s, { row with reason := .upstreamRefused })
  else
    match (s.blocked owner).filter fun b => now < b.ends with
    | some b => (s, { row with reason := b.reason, resetAt := some b.ends })
    | none =>
      if E.listed provider.credentials model = some false then
        (s, { row with reason := .modelUnavailable })
      else if !provider.isSubscription then (s, { row with eligible := true })
      else
        match reading E now provider s with
        | (s, windows, readAt, known) =>
          let row := { row with windows := windows, readAt := readAt }
          (s, if known then judge now levels row windows else { row with reason := .usageUnknown })

/-- `_local_candidate`, past its schedule. -/
def localCandidate (step : Step) (output : Text) : Row target :=
  match E.localOutput output with
  | none => Row.of step .outputMissing
  | some out =>
    if E.dead output then Row.of step .unavailable
    else
      let row : Row target := Row.of step (if E.free out then .ready else .busy)
      { row with eligible := true, target := some out }

/-- `RESPONSES_TYPES` -/
def takesResponses (provider : Provider) : Bool :=
  provider.isSubscription || provider.type = Text.of "openai"

/-- A request, as a pool tells one from another. -/
structure Asked where
  responses : Bool
  chat : Bool
  excluded : List Text

/-- `PoolSteps._candidate` and `_local_candidate`. -/
def candidate (levels : ModelLevels) (asked : Asked) (step : Step) (s : State) :
    State × Row target :=
  match step.kind with
  | .opened => (s, Row.of step .notConnected)
  | kind =>
    if !step.enabled then (s, Row.of step .disabled)
    else
      match E.closed (keyOfRow step) now with
      | some opensAt => (s, { Row.of step .closed with opensAt := opensAt })
      | none =>
        if Text.of "row:" ++ step.id ∈ asked.excluded then (s, Row.of step .tried)
        else
          match kind with
          | .account accountId model =>
            match (E.account accountId).filter E.credential with
            | none => (s, Row.of step .credentialMissing)
            | some provider =>
              if asked.responses && !takesResponses provider ||
                  provider.isSubscription && !asked.chat then
                (s, Row.of step .formatUnsupported)
              else
                accountCandidate E now step model provider asked.excluded
                  (levels.of accountId model) s
          | .output output => (s, localCandidate E step output)
          | .opened => (s, Row.of step .notConnected)

/-- Each row's verdict, in the pool's order. -/
def verdicts (levels : ModelLevels) (asked : Asked) : List Step → State → State × List (Row target)
  | [], s => (s, [])
  | step :: rest, s =>
    let (s₁, row) := candidate E now levels asked step s
    let (s₂, rows) := verdicts levels asked rest s₁
    (s₂, row :: rows)

end Verdicts

/-! ### The pool's own answer -/

/-- `PoolRefusal`, without the bytes it is written as. -/
structure Refusal where
  poolId : Text
  kind : Text
  status : ℕ
  path : Text
  unsupported : Bool
  retryAfter : ℤ
  closed : Bool
  opensAt : Option ℚ
  opensText : Text
  message : Text
  deriving DecidableEq

/-- `PoolRefusal.LIMITS` -/
def LIMITS : List Reason := [.reserve, .quota, .payment, .disabled]

/-- A time of a row that is still ahead. -/
def ahead (now : ℚ) (t : Option ℚ) : Option ℚ := t.filter fun t => t ≠ 0 && now < t

/-- The reasons of a row, as a refusal tells them. -/
def Row.words {target : Type} (row : Row target) : Text :=
  row.stepId ++ Text.of " (" ++ row.reason.text ++ Text.of ")"

section Refusal

variable {target : Type} (E : Env target) (now : ℚ)

/-- `PoolRefusal.__init__` -/
def Refusal.of (pool : CloudPool) (rows : List (Row target)) (path : Text) : Refusal :=
  let resets := rows.filterMap fun r => ahead now r.resetAt
  let opens := rows.filterMap fun r => ahead now r.opensAt
  let unsupported := rows ≠ [] && rows.all fun r => r.reason = .formatUnsupported
  { poolId := pool.id
    kind := Text.of "pool_unavailable"
    status :=
      if rows ≠ [] ∧ ∀ r ∈ rows, r.reason ∈ LIMITS then 429 else if unsupported then 400 else 503
    path := path.takeWhile (· ≠ codePoint '?')
    unsupported := unsupported
    retryAfter :=
      match (resets ++ opens).min? with
      | some t => max 1 ⌊t - now⌋
      | none => 30
    closed := rows ≠ [] && rows.all fun r => r.reason = .closed
    opensAt := opens.min?
    opensText := (opens.min?.map E.zoneText).getD []
    message :=
      if rows = [] then Text.of "Pool " ++ pool.name ++ Text.of " has no step: add one on the board"
      else Text.of "Pool " ++ pool.name ++ Text.of " has no step that fits now: " ++
        (Text.of "; ").intercalate (rows.map Row.words) }

/-- `PoolContextRefusal` -/
def Refusal.context (pool : CloudPool) : Refusal where
  poolId := pool.id
  kind := Text.of "pool_context_required"
  status := 400
  path := []
  unsupported := false
  retryAfter := 30
  closed := false
  opensAt := none
  opensText := []
  message := Text.of ("A pool with more than one step needs the full conversation history in " ++
    "input; previous_response_id belongs to one account and cannot be switched safely.")

end Refusal

/-! ### The choice -/

/-- What serves a request. -/
inductive Leg (target : Type) where
  | cell (out : target)
  | account (provider : Provider) (model : Text)
  deriving DecidableEq

/-- A cable's cloud end. -/
structure Source where
  id : Text
  pool : Option CloudPool
  levels : ModelLevels

/-- What `resolve` comes to; `raised` is an exception. -/
inductive Outcome (target : Type) where
  | passes
  | served (poolId stepId : Text) (leg : Leg target)
  | refused (refusal : Refusal)
  | raised
  deriving DecidableEq

section Resolve

variable {target : Type} (E : Env target) (now : ℚ)

/-- The rows fit and above their own switch level. -/
def Row.isReady (row : Row target) : Bool := row.eligible && row.reason = .ready

/-- The rows fit and giving way. -/
def Row.givesWay (row : Row target) : Bool := row.eligible && row.reason ≠ .ready

/-- `fit` -/
def fit (rows : List (Row target)) : List Text :=
  (rows.filter Row.isReady).map Row.stepId ++ (rows.filter Row.givesWay).map Row.stepId

/-- The choice is kept, and a switch of it is told. -/
def State.choose (s : State) (pool : CloudPool) (rows : List (Row target)) (chosen : Option Text) :
    State :=
  let was := s.selected pool.id
  if chosen = was then s
  else
    let reasons := (rows.filter fun r => r.reason ≠ .ready).map fun r => (r.stepId, r.reason)
    let events := s.events ++ [⟨pool.id, was, chosen, now, reasons⟩]
    { s with
      selected := Function.update s.selected pool.id chosen
      events := events.drop (events.length - 50) }

/-- The leg of the row that was chosen. -/
def legOf (pool : CloudPool) (rows : List (Row target)) (chosen : Text) : Option (Leg target) := do
  let step ← pool.steps.find? fun s => s.id = chosen
  match step.kind with
  | .output _ =>
    let row ← rows.find? fun r => r.stepId = chosen
    return .cell (← row.target)
  | .account accountId model => return .account (← E.account accountId) model
  | .opened => none

/-- A request that goes on from an answer of one account. -/
def continues (pool : CloudPool) (body : Option Value) : Bool :=
  (match body with
    | some (.dict payload) => (Dict.get payload "previous_response_id").truthy
    | _ => false) &&
    1 < (pool.steps.filter fun s => s.enabled && s.kind ≠ .opened).length

/-- What a request is to a pool. -/
def Asked.of (body : Option Value) (excluded : List Text) (path : Text) : Asked :=
  ⟨isResponsesRequest path body, isChatRequest path, excluded⟩

/-- `PoolSteps.resolve` -/
def resolve (source : Source) (body : Option Value) (excluded : List Text) (path : Text)
    (s : State) : State × Outcome target :=
  match source.pool with
  | none => (s, .passes)
  | some pool =>
    if continues pool body then (s, .refused (Refusal.context pool))
    else
      let (s, rows) := verdicts E now source.levels (Asked.of body excluded path) pool.steps s
      let chosen := (fit rows).head?
      let s := s.choose now pool rows chosen
      match chosen with
      | none => (s, .refused (Refusal.of E now pool rows path))
      | some stepId =>
        match legOf E pool rows stepId with
        | some leg => (s, .served pool.id stepId leg)
        | none => (s, .raised)

/-- The `any` of `can_go_on`. -/
def anyFit (levels : ModelLevels) (asked : Asked) : List Step → State → State × Bool
  | [], s => (s, false)
  | step :: rest, s =>
    let (s, row) := candidate E now levels asked step s
    if row.eligible then (s, true) else anyFit levels asked rest s

/-- `PoolSteps.can_go_on` -/
def canGoOn (source : Source) (excluded : List Text) (body : Option Value) (path : Text)
    (s : State) : State × Bool :=
  match source.pool with
  | none => (s, false)
  | some pool => anyFit E now source.levels (Asked.of body excluded path) pool.steps s

end Resolve

/-! ### A refusal of a provider -/

/-- `PoolSteps.REASON` -/
def refusalReason (status : ℕ) : Option Reason :=
  if status = 401 then some .authRejected
  else if status = 402 then some .payment
  else if status = 429 then some .quota
  else none

/-- `PoolSteps.REST_SEC` -/
def REST_SEC (status : ℕ) : ℤ := if status = 401 ∨ status = 402 then 300 else 30

/-- How long an account rests: what the answer says, within an hour. -/
def restOf (I : Interp) (status : ℕ) (retryAfter : Option Text) : ℤ :=
  let stated : Except Error ℤ :=
    match retryAfter with
    | none => .ok (REST_SEC status)
    | some t => if t = [] then .ok (REST_SEC status) else intOfText I t
  match stated with
  | .ok n => max 1 (min 3600 n)
  | .error _ => REST_SEC status

/-- `PoolSteps.failed`, of a row of a pool. -/
def failed (I : Interp) (now : ℚ) (provider : Provider) (status : ℕ) (retryAfter : Option Text)
    (s : State) : State × Bool :=
  match refusalReason status with
  | none => (s, false)
  | some reason =>
    let rest : Rest := ⟨reason, now, now + restOf I status retryAfter⟩
    ({ s with blocked := Function.update s.blocked provider.owner (some rest) }, true)

end Proxy.Pool
