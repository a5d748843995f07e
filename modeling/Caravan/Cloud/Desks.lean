import Caravan.Cloud.PoolDesk

/-!
# The models, the accounts, the sets and the old form

The rest of `PoolDesk`, `upsert_cloud_account` and `SetDesk`, as `PoolDesk.lean` has the pools,
and the requests of all of them (`Request.run`).
-/

namespace Cloud

open Python Ports

variable (o : Outside)

/-! ### Levels of the models -/

/-- `CloudSources.is_subscription` -/
def Account.isSubscription (a : Account) : Bool :=
  a.accountType = "openai-subscription" || a.baseUrl.contains "chatgpt.com"

/-- The levels of the models, by account and model. -/
abbrev ModelLevels := List ((Text × Text) × Pair)

def ModelLevels.set (l : ModelLevels) (k : Text × Text) (pair : Pair) : ModelLevels :=
  if k ∈ l.map Prod.fst then l.map fun x => if x.1 = k then (k, pair) else x else l ++ [(k, pair)]

/-- The levels that steps of an old file carry: of two steps of a model, the stricter. -/
def stepLevels (kept : ModelLevels) (rows : List Row) : ModelLevels :=
  rows.foldl (fun legacy r =>
    let key := (r.accountId.strip, r.model.strip)
    let pair := Pair.clean r.stopAt r.switchAt
    if (r.stopAt.isNone ∧ r.switchAt.isNone) ∨ key.1 = [] ∨ key.2 = [] ∨
        key ∈ kept.map Prod.fst then legacy
    else match legacy.lookup key with
      | some old => ModelLevels.set legacy key (old.stricter pair)
      | none => ModelLevels.set legacy key pair) []

/-- `ModelLevels(data)` -/
def readLevels (stored : ModelLevels) (rows : List Row) : ModelLevels :=
  let kept := stored.foldl (fun kept x =>
    let key := (x.1.1.strip, x.1.2.strip)
    if key.1 = [] ∨ key.2 = [] then kept
    else ModelLevels.set kept key (Pair.clean (some x.2.stopAt) (some x.2.switchAt))) []
  (stepLevels kept rows).foldl (fun kept x => ModelLevels.set kept x.1 x.2) kept

def Doc.modelLevels (d : Doc) : ModelLevels := readLevels d.levels (d.pools.flatMap Pool.steps)

/-- `ModelLevels.stored` -/
def ModelLevels.stored (l : ModelLevels) : ModelLevels :=
  l.insertionSort fun a b => a.1.1 < b.1.1 ∨ a.1.1 = b.1.1 ∧ a.1.2 ≤ b.1.2

inductive Level where
  | switch
  | stop
  deriving DecidableEq, Repr

def Levels.put (l : Levels) (seconds pct : ℕ) : Levels :=
  let rest := l.filter fun x => x.1 ≠ seconds
  if pct = 0 then rest else rest ++ [(seconds, pct)]

/-- `set_level`. A level that is neither is `none`; so is a number that is no number. -/
def setLevel (d : Doc) (accountId model : Text) (seconds pct : Option ℤ) (level : Option Level) :
    Except Stop Change := do
  let some level := level | refuse 400 "level must be switch or stop"
  let some (seconds, pct) := (do return (← seconds, ← pct) : Option (ℤ × ℤ))
    | refuse 400 "windowSeconds and pct must be numbers"
  refuseWhen (seconds ≤ 0) 400 "windowSeconds must be positive"
  refuseWhen (¬ (0 ≤ pct ∧ pct ≤ MAX_PCT)) 400 ("pct must be 0.." ++ digits MAX_PCT)
  let account ← accountOf d accountId
  let model ← modelOf model
  refuseWhen (¬ account.isSubscription) 400
    "a level is kept only on a ChatGPT subscription's model"
  let key := (account.id.strip, model.strip)
  let pair := (d.modelLevels.lookup key).getD ⟨NEW_STEP, NEW_STEP⟩
  let pair : Pair := match level with
    | .stop => { pair with stopAt := pair.stopAt.put seconds.toNat pct.toNat }
    | .switch => { pair with switchAt := pair.switchAt.put seconds.toNat pct.toNat }
  let levels := ModelLevels.set d.modelLevels key
    (Pair.clean (some pair.stopAt) (some pair.switchAt))
  saves fun x => { x with levels := levels.stored }

/-! ### The models on the right -/

/-- `add_model` -/
def addModel (d : Doc) (accountId model : Text) : Except Stop Change := do
  let account ← accountOf d accountId
  let model ← modelOf model
  match d.added.add account.id model with
  | some added => saves fun x => { x with addedModels := added.stored }
  | none => answers

/-- `remove_model` -/
def removeModel (d : Doc) (accountId model : Text) : Except Stop Change := do
  let account ← accountOf d accountId
  let model ← modelOf model
  let holders := (d.readPools.filter fun p => p.steps.any fun r =>
    r.kind = .account ∧ r.accountId = account.id ∧ r.model = model).map Pool.name
  refuseWhen (holders ≠ []) 409
    (model ++ ": a row of " ++ (List.intersperse (", " : Text) holders).flatten ++
      " is cabled to it — take that cable away first")
  match d.added.remove account.id model with
  | some added => saves fun x => { x with addedModels := added.stored }
  | none => answers

/-! ### Deleting a pool -/

/-- What a page says happens to the cables of a pool that is deleted. -/
structure Resolution where
  moveTo : Text
  cut : Bool
  deriving DecidableEq, Repr

/-- A set's id, or a pool's in it, as it is kept. -/
def cleanId (t : Text) : Text := t.strip.take 80

/-- `ModelSets.clean` -/
def cleanSets (sets : List PoolSet) : List PoolSet :=
  sets.foldl (fun out s =>
    let id := cleanId s.id
    if id = [] ∨ id ∈ out.map PoolSet.id then out
    else
      let pools := s.pools.foldl (fun pools p =>
        let p := cleanId p
        if p = [] ∨ p ∈ pools then pools else pools ++ [p]) []
      out ++ [{ id, name := orElse (s.name.strip.take 80) id, pools }]) []

/-- `delete` -/
def deletePool (d : Doc) (poolId : Text) (resolution : Resolution) : Except Stop Change := do
  let pool ← poolOf d poolId
  let (cables, rules) := o.held pool.id
  let onto := resolution.moveTo.strip
  if cables ≠ 0 ∨ rules ≠ [] then
    if onto ≠ [] then
      refuseWhen (onto = pool.id) 400 "move the cables onto another pool"
      let _ ← poolOf d onto
      o.move pool.id onto
    else
      refuseWhen (¬ resolution.cut) 409
        ("pool " ++ pool.id ++ ": " ++ digits cables ++ " cable(s) and rules " ++ o.shown rules ++
          " lead to it in Routing — move them onto another pool, or disconnect them")
  o.saveProxies
  let sets := cleanSets d.sets
  let left := sets.map fun s => { s with pools := s.pools.filter fun i => i ≠ pool.id }
  saves fun x => { x with
    pools := x.pools.filter fun p => p.id ≠ pool.id
    sets := if sets.any fun s => pool.id ∈ s.pools then left else x.sets }

/-! ### Accounts -/

/-- `remove_account`, for each of the pools that name the account. -/
def forgetInPools (account : Text) : List Pool → List Pool → Except Stop (List Pool)
  | pools, [] => .ok pools
  | pools, p :: rest =>
    if p.steps.any fun r => r.accountId = account then do
      let gone := (p.steps.filter fun r => r.accountId = account).map Row.id
      let pools ← put pools { p with steps := p.steps.filter fun r => r.id ∉ gone }
      forgetInPools account pools rest
    else forgetInPools account pools rest

/-- `ModelSchedules(data)` after `forget_account`, as it is stored. Keys of neither form are
dropped by the reading, and are none that the writers make. -/
def forgetSchedules (schedules : List (Text × Schedule)) (account : Text) :
    List (Text × Schedule) :=
  let start := ("acc:" : Text) ++ account.strip ++ "/"
  ((schedules.filter fun x => ¬ start.isPrefixOf x.1).map fun x =>
    (x.1, { x.2 with windows := o.windows x.2.windows })).insertionSort fun a b => a.1 ≤ b.1

/-- `remove_account`. The vault forgets its credential after the write. -/
def removeAccount (d : Doc) (accountId : Text) : Except Stop Change := do
  let account := accountId.strip
  refuseWhen (d.accounts.any fun a => a.testAliasOf = account) 409
    "delete this account's legacy test aliases first"
  let pools ← forgetInPools account d.pools d.readPools
  let levels := (Doc.modelLevels { d with pools }).filter fun x => x.1.1 ≠ account
  let added := Assoc.del d.added account
  .ok ⟨some fun x => { x with
    pools
    levels := ModelLevels.stored levels
    addedModels := Added.stored added
    schedules := forgetSchedules o x.schedules account
    accounts := x.accounts.filter fun a => a.id ≠ account }, true⟩

/-- `CloudSources.canonical` -/
def Doc.canonical (d : Doc) (id : Text) : Option Account :=
  match d.account id with
  | none => none
  | some a =>
    if a.testAliasOf = [] then some a
    else (d.account a.testAliasOf).filter fun owner => owner.testAliasOf = []

/-- `clone_test` -/
def cloneTest (d : Doc) (sourceId : Text) : Except Stop Change :=
  match (d.canonical sourceId).filter Account.isSubscription with
  | none => refuse 400 "test aliases require an existing ChatGPT subscription"
  | some owner =>
    if d.accounts.any fun a => a.testAliasOf = owner.id then answers
    else do
      let stem := owner.id.take 40 ++ "-test"
      let ids := (d.accounts.filter fun a => a.id ≠ []).map Account.id
      let id ← search o (fun t => t ∈ ids) (numbered stem "-")
      let made := { owner with
        id, name := orElse owner.name owner.id ++ " · TEST", testAliasOf := owner.id }
      saves fun x => { x with accounts := x.accounts ++ [made] }

/-- What a page sends of an account: a field that is left out stays as it is stored. -/
structure AccountEdit where
  id : Text
  type : Option Text
  name : Option Text
  baseUrl : Option Text
  authMode : Option Text
  accountType : Option Text
  oauthConfig : Option (Text × Text)
  testAliasOf : Option Text
  creditUsd : Option Text
  deriving DecidableEq, Repr

/-- `normalize_cloud_account` of `{**prev, **account}`. -/
def normalizeAccount (prev : Account) (edit : AccountEdit) : Except Stop Account := do
  let id := edit.id.strip
  refuseWhen (id = [] ∨ 48 < id.length ∨ ¬ id.all (wordChar ['_', '-'])) 400
    "account.id must be 1-48 chars [A-Za-z0-9_-]"
  let type := (orElse (edit.type.getD prev.type) "openai").strip
  let preset := (o.preset type).getD ⟨[], [], [], ["apiKey"], none⟩
  let name := (orElse (edit.name.getD prev.name) (orElse preset.name id)).strip
  let slashless := (orElse (edit.baseUrl.getD prev.baseUrl) preset.baseUrl).strip.rdropWhile
    (· = codePoint '/')
  refuseWhen (¬ ("http" : Text).isPrefixOf slashless) 400 "account.baseUrl must be http(s)"
  let accountType := (orElse (edit.accountType.getD prev.accountType) preset.accountType).strip
  let byCode := o.deviceLogin accountType
  let modes := if byCode.isSome ∧ ("oauth" : Text) ∉ preset.authModes then
    preset.authModes ++ [("oauth" : Text)] else preset.authModes
  let asked := (orElse (edit.authMode.getD prev.authMode) (modes.headD [])).strip
  let authMode := if asked ∈ modes then asked else modes.headD []
  let defaults := (preset.oauth.or (byCode.bind Preset.oauth)).getD ([], [])
  let supplied := (edit.oauthConfig.or prev.oauthConfig).getD ([], [])
  let oauthConfig := if ("oauth" : Text) ∈ modes then
    some ((orElse supplied.1 defaults.1).strip, (orElse supplied.2 defaults.2).strip) else none
  refuseWhen (authMode = "oauth" ∧ (edit.creditUsd.bind o.amount).isSome) 400
    "a subscription has limits, not a dollar credit"
  return { id, type, name, baseUrl := slashless, authMode, accountType, oauthConfig,
           testAliasOf := edit.testAliasOf.getD prev.testAliasOf,
           credit := if authMode = "oauth" then none else o.credit edit.creditUsd prev.credit }

/-- `BoardProviders.kind` -/
def Account.boardKind (a : Account) : Text :=
  if a.isSubscription then "openai-subscription" else orElse a.type.strip "custom"

/-- `BoardProviders(data)` -/
def boardKinds (stored : List Text) : List Text :=
  stored.foldl (fun kinds k =>
    if k.strip = [] ∨ k.strip ∈ kinds then kinds else kinds ++ [k.strip]) []

/-- `upsert_cloud_account` -/
def upsertAccount (d : Doc) (edit : Option AccountEdit) : Except Stop Change := do
  let some edit := edit | refuse 400 "account must be an object"
  let id := edit.id.strip
  let prev := if id = [] then none else d.accounts.find? fun a => a.id = id
  let norm ← normalizeAccount o (prev.getD { id }) edit
  if norm.testAliasOf ≠ [] then
    match (d.canonical norm.testAliasOf).filter Account.isSubscription with
    | none => refuse 400 "invalid test alias owner"
    | some owner => refuseWhen (owner.id = norm.id) 400 "invalid test alias owner"
  let kinds := boardKinds d.boardProviders
  let kind := norm.boardKind.strip
  saves fun x => { x with
    accounts := (x.accounts.filter fun a => a.id ≠ norm.id) ++ [norm]
    boardProviders := if kind = [] ∨ kind ∈ kinds then x.boardProviders else kinds ++ [kind] }

/-! ### The old form -/

/-- The pools that the blocks of an old file become: those of Routing, or that something
points at. -/
def keptBlocks (d : Doc) : List Pool :=
  let kept := d.blocks.filter fun b =>
    o.inUse b.id ∨ ∃ c ∈ d.blocks, c.id = b.id ∧ c.exposed
  kept.filterMap fun b => d.readPools.find? fun p => p.id = b.id

/-- The levels of the steps that the blocks become: the reserves of their accounts. -/
def blockLevels (d : Doc) : List Row :=
  (d.blocks.filter fun b => b.id.strip ≠ []).flatMap fun b =>
    (d.fromBlock b).steps.map fun r => { r with switchAt := some (o.reserve r.accountId) }

def POOLS_MIGRATION : Text := "pools-of-steps-2026-10"

def ROWS_MIGRATION : Text := "pools-of-rows-2026-10"

def ADDED_MIGRATION : Text := "added-models-2026-10"

def SETS_MIGRATION : Text := "model-sets-2026-10"

/-- `PoolDesk.migrate` -/
def migrate (d : Doc) : Except Stop Change :=
  if ¬ d.legacy then answers
  else
    let pools := keptBlocks o d
    let steps := (blockLevels o d).filter fun s => pools.any fun p => p.steps.any fun r =>
      r.accountId = s.accountId ∧ r.model = s.model
    let levels := readLevels d.levels steps
    saves fun x => { x with
      pools
      levels := levels.stored
      accounts := x.accounts.map fun a => { a with usageReserve := none }
      blocks := []
      migrations := sortedSet (x.migrations ++ [POOLS_MIGRATION, ROWS_MIGRATION]) }

/-- `PoolDesk.migrate_rows` -/
def migrateRows (d : Doc) : Except Stop Change :=
  if ROWS_MIGRATION ∈ d.migrations ∨ d.legacy then answers
  else saves fun x => { x with
    pools := x.pools.map fun p => { p with
      steps := p.steps.map fun r => { r with stopAt := none, switchAt := none } }
    levels := d.modelLevels.stored
    migrations := sortedSet (x.migrations ++ [ROWS_MIGRATION]) }

/-- `PoolDesk.migrate_added` -/
def migrateAdded (d : Doc) : Except Stop Change :=
  if ADDED_MIGRATION ∈ d.migrations ∨ d.legacy then answers
  else
    let rows := (d.readPools.flatMap Pool.steps).filter fun r => r.kind = .account
    let added := rows.foldl (fun kept r => (kept.add r.accountId r.model).getD kept) d.added
    saves fun x => { x with
      addedModels := added.stored
      migrations := sortedSet (x.migrations ++ [ADDED_MIGRATION]) }

/-! ### The sets -/

/-- `SetDesk._set` -/
def setOf (sets : List PoolSet) (setId : Text) : Except Stop PoolSet :=
  match sets.find? fun s => s.id = cleanId setId with
  | some s => .ok s
  | none => refuse 404
      ("no set has the id " ++ orElse (cleanId setId) "(none)" ++ " — reload the board")

/-- `SetDesk._name` -/
def setName (sets : List PoolSet) (name : Text) (but : Option Text) : Except Stop Text := do
  let name := name.strip.take NAME_MAX
  refuseWhen (name = []) 400 "a set needs a name"
  refuseWhen (∃ s ∈ sets, nameKey o s.name = nameKey o name ∧ some s.id ≠ but) 409
    ("a set named " ++ name ++ " exists — give this one another name")
  return name

/-- `SetDesk._free_name` -/
def freeSetName (sets : List PoolSet) (name : Text) : Except Stop Text :=
  search o (fun t => nameKey o t ∈ sets.map fun s => nameKey o s.name) (nameTry name)

/-- `SetDesk._new` -/
def newSet (sets : List PoolSet) (name : Text) : Except Stop PoolSet := do
  let id ← slug o name "set" (sets.map PoolSet.id)
  return { id, name, pools := [] }

/-- `SetDesk.create` -/
def createSet (d : Doc) (name : Text) : Except Stop Change := do
  let sets := cleanSets d.sets
  let name ← if name.strip ≠ [] then setName o sets name.strip none
    else freeSetName o sets "Set"
  let made ← newSet o sets name
  saves fun x => { x with sets := sets ++ [made] }

def replaceSet (sets : List PoolSet) (s : PoolSet) : List PoolSet :=
  sets.map fun t => if t.id = s.id then s else t

/-- `SetDesk.rename` -/
def renameSet (d : Doc) (setId name : Text) : Except Stop Change := do
  let sets := cleanSets d.sets
  let found ← setOf sets setId
  let name ← setName o sets name (some found.id)
  saves fun x => { x with sets := replaceSet sets { found with name } }

/-- `SetDesk.order`: the ids as they are sent, `none` for what is no list. -/
def orderSets (d : Doc) (ids : Option (List Text)) : Except Stop Change :=
  let sets := cleanSets d.sets
  let stale : Except Stop Change := refuse 409
    "the sets changed since the board was drawn — draw it again and move the card again"
  match ids with
  | none => stale
  | some ids =>
    let wanted := ids.map cleanId
    if ¬ wanted.Nodup ∨ (∃ i ∈ wanted, i ∉ sets.map PoolSet.id) ∨
        (∃ i ∈ sets.map PoolSet.id, i ∉ wanted) then stale
    else saves fun x =>
      { x with sets := wanted.filterMap fun i => sets.find? fun s => s.id = i }

/-- `SetDesk.add_pool` -/
def addPool (d : Doc) (setId poolId : Text) : Except Stop Change := do
  let sets := cleanSets d.sets
  let found ← setOf sets setId
  let pool := cleanId poolId
  refuseWhen (pool ∉ d.readPools.map Pool.id) 400
    ("no pool has the id " ++ orElse pool "(none)" ++
      " — reload the board and draw the cable again")
  if pool ∈ found.pools then answers
  else saves fun x =>
    { x with sets := replaceSet sets { found with pools := found.pools ++ [pool] } }

/-- `SetDesk.remove_pool` -/
def removePool (d : Doc) (setId poolId : Text) : Except Stop Change := do
  let sets := cleanSets d.sets
  let found ← setOf sets setId
  let pool := cleanId poolId
  if pool ∉ found.pools then answers
  else saves fun x =>
    { x with sets := replaceSet sets { found with pools := found.pools.erase pool } }

/-- `SetDesk.delete`. The routes that lose their set are written after the document. -/
def deleteSet (d : Doc) (setId : Text) : Except Stop Change := do
  let sets := cleanSets d.sets
  let found ← setOf sets setId
  let uncabled := o.routes.any fun r => r.kind = "consumer" ∧ r.set.map cleanId = some found.id
  .ok ⟨some fun x => { x with sets := sets.filter fun s => s.id ≠ found.id }, uncabled⟩

/-- `ModelAccess.clean`, of a list. -/
def cleanModels (ids : List Text) : List Text :=
  (ids.foldl (fun out i =>
    let i := cleanId i
    if i = [] ∨ i ∈ out then out else out ++ [i]) []).take 64

/-- `ConsumerPool.of` -/
def consumerPool (r : Route) (ps : List Pool) : Text :=
  let ids := ps.map Pool.id
  match r.pool, r.models with
  | some pool, _ => if cleanId pool ∈ ids then cleanId pool else []
  | none, none => ids.headD []
  | none, some models => ((cleanModels models).find? fun i => i ∈ ids).getD []

/-- One client of `SetDesk.migrate`: the sets so far, and the pools that have theirs. -/
def cableRoute (ps : List Pool) : List PoolSet × List Text → Route →
    Except Stop (List PoolSet × List Text)
  | (sets, made), r =>
    let pool := consumerPool r ps
    if pool = [] ∨ pool ∈ made then .ok (sets, made)
    else do
      let called := ((ps.find? fun p => p.id = pool).map Pool.called).getD pool
      let fresh ← newSet o sets (← freeSetName o sets called)
      return (sets ++ [{ fresh with pools := [pool] }], made ++ [pool])

/-- `SetDesk.migrate` -/
def migrateSets (d : Doc) : Except Stop Change := do
  if SETS_MIGRATION ∈ d.migrations then answers
  else
    let routes := o.routes.filter fun r => r.kind = ("consumer" : Text) ∧ r.set = none
    let (sets, _) ← routes.foldlM (cableRoute o d.readPools) (cleanSets d.sets, [])
    .ok ⟨some fun x => { x with
      sets
      migrations := sortedSet (x.migrations ++ [SETS_MIGRATION]) }, routes ≠ []⟩

/-! ### Requests -/

/-- What a request to the controller, or its start, asks of a desk. -/
inductive Request where
  | create (name accountId model : Text) (target : Target) (nameAfter : Text)
  | addRow (pool : Text) (target : Target) (nameAfter : Text)
  | connectRow (pool row : Text) (target : Target) (nameAfter : Text)
  | order (ids : Option (List Text))
  | arrange
  | savePool (edit : Option PoolEdit)
  | addStep (pool account model : Text)
  | removeStep (pool step : Text)
  | setLevel (account model : Text) (seconds pct : Option ℤ) (level : Option Level)
  | deletePool (pool : Text) (resolution : Resolution)
  | removeAccount (account : Text)
  | cloneTest (source : Text)
  | addModel (account model : Text)
  | removeModel (account model : Text)
  | migrate
  | migrateRows
  | migrateAdded
  | upsertAccount (edit : Option AccountEdit)
  | createSet (name : Text)
  | renameSet (set name : Text)
  | orderSets (ids : Option (List Text))
  | addPool (set pool : Text)
  | removePool (set pool : Text)
  | deleteSet (set : Text)
  | migrateSets

/-- An operation that makes its checks before it assigns. -/
def decided : Except Stop Change → Document.Decision Doc Stop
  | .error e => .refused e id
  | .ok ⟨none, _⟩ => .nothing
  | .ok ⟨some assign, late⟩ => .save assign false late

/-- What a request makes of the document. -/
def Request.run (d : Doc) : Request → Document.Decision Doc Stop
  | .create name account model target after =>
    decided (Cloud.create o d name account model target after)
  | .addRow pool target after => decided (Cloud.addRow o d pool target after)
  | .connectRow pool row target after => decided (Cloud.connectRow o d pool row target after)
  | .order ids => decided (Cloud.order d ids)
  | .arrange => decided (Cloud.arrange d)
  | .savePool edit => Cloud.savePool o d edit
  | .addStep pool account model => decided (Cloud.addStep o d pool account model)
  | .removeStep pool step => decided (Cloud.removeStep d pool step)
  | .setLevel account model seconds pct level =>
    decided (Cloud.setLevel d account model seconds pct level)
  | .deletePool pool resolution => decided (Cloud.deletePool o d pool resolution)
  | .removeAccount account => decided (Cloud.removeAccount o d account)
  | .cloneTest source => decided (Cloud.cloneTest o d source)
  | .addModel account model => decided (Cloud.addModel d account model)
  | .removeModel account model => decided (Cloud.removeModel d account model)
  | .migrate => decided (Cloud.migrate o d)
  | .migrateRows => decided (Cloud.migrateRows d)
  | .migrateAdded => decided (Cloud.migrateAdded d)
  | .upsertAccount edit => decided (Cloud.upsertAccount o d edit)
  | .createSet name => decided (Cloud.createSet o d name)
  | .renameSet set name => decided (Cloud.renameSet o d set name)
  | .orderSets ids => decided (Cloud.orderSets d ids)
  | .addPool set pool => decided (Cloud.addPool d set pool)
  | .removePool set pool => decided (Cloud.removePool d set pool)
  | .deleteSet set => decided (Cloud.deleteSet o d set)
  | .migrateSets => decided (Cloud.migrateSets o d)

end Cloud
