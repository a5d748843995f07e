import Caravan.Documents.Admin
import Caravan.Python.Int

/-!
# Damage to the stored documents

Four documents, three kinds of store. What a store does with bytes it cannot parse, and with
JSON of another shape, differs from kind to kind: `admin.json` is never copied, the two documents
of the cloud accounts only where they do not parse, and no copy is made while one stands. A
shape that is wrong further down is not asked about at all: the load ends with an exception.
`unharmed_iff` says which histories of damages, loads and saves meet none of this.

`json.loads` and `json.dumps` are parameters. The caches of the two cloud documents are left out:
their key is the generation of the file.
-/

namespace Documents

open Python

/-- The stored documents. -/
inductive Kind where
  /-- `admin.json` -/
  | admin
  /-- `agent-proxies.json` -/
  | proxies
  /-- `cloud-providers.json` -/
  | providers
  /-- `provider-secrets.json` -/
  | secrets
  deriving DecidableEq, Repr

/-! ### The proxy document -/

/-- `ProxyStore.legacy_router_id` -/
def legacyRouterId : Text := "sb:default"

/-- `ProxyStore.default_router_id` -/
def defaultRouterId : Text := "router:default"

/-- A router of the old schema. -/
def renamedRouter (d : Dict) : Dict :=
  d.setIf (same (d.get "id") (.str legacyRouterId)) "id" (.str defaultRouterId)

/-- A route of the old schema. -/
def renamedRoute (d : Dict) : Dict :=
  let moved : Dict := if ¬ d.has "routerId" ∧ d.has "switchboardId" then
      Dict.set (d.filter fun p => p.1 ≠ Text.of "switchboardId") "routerId" (d.get "switchboardId")
    else d
  moved.setIf (same (moved.get "routerId") (.str legacyRouterId)) "routerId"
    (.str defaultRouterId)

/-- A row that is a dictionary is changed, and another one is passed over. -/
def onDict (f : Dict → Dict) : Value → Value
  | .dict d => .dict (f d)
  | v => v

/-- A loop over the rows under a key, which changes them in place. -/
def renameRows (f : Dict → Dict) (key : Text) (d : Dict) : Except Error Dict := do
  let _ ← ((d.get key).or (.list [])).iter
  match d.get key with
  | .list vs => return d.set key (.list (vs.map (onDict f)))
  | _ => return d

/-- `ProxyStore.upgrade` -/
def upgrade (payload : Dict) : Except Error Dict := do
  let payload := match payload.has "routers", payload.get "switchboards" with
    | false, .list vs =>
      Dict.set (payload.filter fun p => p.1 ≠ Text.of "switchboards") "routers" (.list vs)
    | _, _ => payload
  let payload ← renameRows renamedRouter "routers" payload
  renameRows renamedRoute "routes" payload

/-! ### The document of the cloud accounts -/

/-- The entries with an id: `[p for p in rows if isinstance(p, dict) and p.get("id")]`. -/
def identified (rows : List Value) : List Value :=
  rows.filter fun p => p.isDict ∧ (idOf p).truthy

def isStr : Value → Bool
  | .str _ => true
  | _ => false

def isList : Value → Bool
  | .list _ => true
  | _ => false

/-- `CloudFileKeys.KEPT`, with the test of each key's shape. -/
def keptKeys : List (Text × (Value → Bool)) :=
  [("levels", Value.isDict), ("addedModels", Value.isDict), ("boardProviders", isList),
    ("sets", isList), ("schedules", Value.isDict)]

/-- `CloudFileKeys.read` -/
def keptKeysOf (parsed : Dict) : Dict :=
  keptKeys.filterMap fun k =>
    if k.2 (parsed.get k.1) ∧ (parsed.get k.1).truthy then some (k.1, parsed.get k.1) else none

variable (I : Interp)

/-- An entry of the flat form: an account and its block. -/
def legacyEntry (p : Value) : Except Error (Value × Value) := do
  let id := idOf p
  let name ← strOf I id
  let account := Text.of "-acct"
  let key := fun (k : Text) (v : Value) => ((p.asDict.get k).or v)
  return (.dict [("id", .str (name ++ account)), ("type", key "type" "openai"),
      ("name", key "name" id), ("baseUrl", key "baseUrl" (.str [])), ("authMode", "apiKey")],
    .dict [("id", id), ("accountId", .str (name ++ account)), ("name", key "name" id),
      ("model", key "model" (.str [])), ("modelMode", key "modelMode" "rewrite")])

/-- The flat form: `\x7b"providers": […]\x7d`, or a bare list. -/
def parseLegacy (legacy : Value) : Except Error Dict := do
  match legacy with
  | .list vs => do
    let entries ← (identified vs).mapM (legacyEntry I)
    return [("accounts", .list (entries.map Prod.fst)), ("pools", .list []),
      ("migrations", .list []), ("blocks", .list (entries.map Prod.snd))]
  | _ => return [("accounts", .list []), ("pools", .list []), ("migrations", .list [])]

/-- The document of accounts and pools. -/
def parseAccounts (d : Dict) : Except Error Dict := do
  let pools ← ((d.get "pools").or (.list [])).iter
  let data : Dict := [("accounts", .list (identified (d.get "accounts").asList)),
    ("pools", .list (identified pools)),
    ("migrations", .list ((d.get "migrations").asList.filter isStr))]
  let data := data.update (keptKeysOf d)
  let data := data.setIf (!(d.get "blocks").asList.isEmpty) "blocks"
    (.list (identified (d.get "blocks").asList))
  return data.setIf ((d.get "deletedModels").isDict ∧ (d.get "deletedModels").truthy)
    "deletedModels" (d.get "deletedModels")

/-- A dictionary of the form of accounts and pools. -/
def hasAccounts (d : Dict) : Bool := d.has "accounts" || d.has "blocks" || d.has "pools"

/-- `_parse_cloud_data` -/
def parseCloudData (parsed : Value) : Except Error Dict :=
  match parsed with
  | .dict d => if hasAccounts d then parseAccounts d else parseLegacy I (Dict.get d "providers")
  | v => parseLegacy I v

/-! ### The stores -/

variable {β : Type} (loads : Kind → β → Option Value)

/-- A load: whether it raises, whether it calls `keep_unreadable`, and what it saves. -/
structure Loaded (β : Type) where
  raises : Bool
  keeps : Bool := false
  saves : Option β := none

def raisesOf {α : Type} : Except Error α → Bool
  | .ok _ => false
  | .error _ => true

/-- `Store.read` of `admin.json`: an unreadable file is an empty one. -/
def readAdmin (content : Option β) : Value :=
  match content with
  | none => .dict []
  | some b => (loads .admin b).getD (.dict [])

/-- `Store.__init__` of `admin.json` -/
def initAdmin (dumps : Dict → β) (content : Option β) : Loaded β :=
  match loadAdmin (readAdmin loads content) with
  | .ok (data, changed) => { raises := false, saves := if changed then some (dumps data) else none }
  | .error _ => { raises := true }

/-- `ProxyStore.payload`, and whether it keeps a copy. -/
def payload (default : Dict) (content : Option β) : Except Error Dict × Bool :=
  match content with
  | none => (.ok default, false)
  | some b => match loads .proxies b with
    | none => (.ok default, true)
    | some (.dict raw) => (upgrade raw, false)
    | some _ => (.ok default, true)

/-- `CachedJsonStore.read`, and whether it keeps a copy. -/
def readCached (kind : Kind) (parse : Value → Except Error Dict) (content : Option β) :
    Except Error (Option Dict) × Bool :=
  match content with
  | none => (.ok none, false)
  | some b => match loads kind b with
    | none => (.ok none, true)
    | some raw => ((parse raw).map some, false)

/-- The parse of `load_provider_secrets`. -/
def parseSecrets (raw : Value) : Except Error Dict := .ok raw.asDict

/-- A load of a document by its store. -/
def load (dumps : Dict → β) (default : Dict) (kind : Kind) (content : Option β) : Loaded β :=
  match kind with
  | .admin => initAdmin loads dumps content
  | .proxies =>
    let got := payload loads default content
    { raises := raisesOf got.1, keeps := got.2 }
  | .providers =>
    let got := readCached loads .providers (parseCloudData I) content
    { raises := raisesOf got.1, keeps := got.2 }
  | .secrets =>
    let got := readCached loads .secrets parseSecrets content
    { raises := raisesOf got.1, keeps := got.2 }

/-- JSON of the shape of a document. -/
def whole (kind : Kind) (v : Value) : Bool :=
  match kind with
  | .providers => v.isDict || isList v
  | _ => v.isDict

/-- A content that its store can use. -/
def usable (dumps : Dict → β) (default : Dict) (kind : Kind) (b : β) : Bool :=
  (loads kind b).any (whole kind) && !(load I loads dumps default kind (some b)).raises

/-! ### Histories -/

/-- A document's file, and the copies beside it that `keep_unreadable` looks for. -/
structure Place (β : Type) where
  file : Option β
  copies : List β
  /-- The copies had the content when it came. -/
  before : Bool
  /-- A load of the content found no copy. -/
  alone : Bool

/-- A content comes. -/
def Place.put [DecidableEq β] (place : Place β) (content : Option β) : Place β where
  file := content
  copies := place.copies
  before := content.any (· ∈ place.copies)
  alone := false

/-- `keep_unreadable` -/
def keepUnreadable (place : Place β) : List β :=
  if place.copies = [] then place.file.toList else place.copies

inductive Step (β : Type) where
  /-- A document is damaged, or removed. -/
  | damage (kind : Kind) (content : Option β)
  | load (kind : Kind)
  | save (kind : Kind) (content : β)

/-- What may not happen. -/
inductive Harm (β : Type) where
  | raised (kind : Kind)
  | lost (kind : Kind) (content : β)

section

variable [DecidableEq β] (dumps : Dict → β) (default : Dict)

/-- A place whose content was loaded. -/
def Place.met (place : Place β) (keeps : Bool) : Place β where
  file := place.file
  copies := if keeps then keepUnreadable place else place.copies
  before := place.before
  alone := place.alone || place.copies.isEmpty

/-- A place after a load. -/
def Place.loaded (place : Place β) (l : Loaded β) : Place β :=
  match l.saves with
  | none => place.met l.keeps
  | some b => (place.met l.keeps).put (some b)

def next (places : Kind → Place β) : Step β → (Kind → Place β)
  | .damage kind content => Function.update places kind ((places kind).put content)
  | .load kind => Function.update places kind
      ((places kind).loaded (load I loads dumps default kind (places kind).file))
  | .save kind content => Function.update places kind ((places kind).put (some content))

/-- The content that a save replaces, if nothing else has it. -/
def lostOf (places : Kind → Place β) (kind : Kind) : List (Harm β) :=
  match (places kind).file with
  | none => []
  | some b =>
    if usable I loads dumps default kind b ∨ b ∈ (places kind).copies then [] else [.lost kind b]

def harm (places : Kind → Place β) : Step β → List (Harm β)
  | .damage _ _ => []
  | .load kind =>
    let l := load I loads dumps default kind (places kind).file
    (if l.raises then [.raised kind] else []) ++
      if l.saves.isSome then lostOf I loads dumps default places kind else []
  | .save kind _ => lostOf I loads dumps default places kind

/-- The harm of a history. -/
def harms (places : Kind → Place β) : List (Step β) → List (Harm β)
  | [] => []
  | step :: steps => harm I loads dumps default places step ++
      harms (next I loads dumps default places step) steps

end

/-! ### What the stores rely on -/

/-- JSON that the load of a document gets through. -/
def Loadable (kind : Kind) (v : Value) : Prop :=
  match kind with
  | .admin => Seedable v
  | .proxies => ∀ d : Dict, v = .dict d → Runs (d.get "routers") ∧ Runs (d.get "routes")
  | .providers =>
    (∀ d : Dict, v = .dict d → hasAccounts d → Runs (d.get "pools")) ∧
      ∀ rows : List Value, (v = .list rows ∨
        ∃ d : Dict, v = .dict d ∧ hasAccounts d = false ∧ d.get "providers" = .list rows) →
        ∀ p ∈ identified rows, ∃ t, strOf I (idOf p) = .ok t
  | .secrets => True

/-- A content that the load of a document copies: what does not parse, and of the proxy document
also what is no dictionary. -/
def Copied (kind : Kind) (b : β) : Prop :=
  match kind with
  | .admin => False
  | .proxies => ∀ v, loads kind b = some v → v.isDict = false
  | .providers | .secrets => loads kind b = none

/-- A content of the shape of its document. -/
def Sound (kind : Kind) (b : β) : Prop :=
  ∃ v, loads kind b = some v ∧ whole kind v = true ∧ Loadable I kind v

/-- What each step relies on: a load, on JSON that it gets through; and a save over a content of
another shape, on the copies that had it before, or on a load that copies it and found none. -/
def Meets (places : Kind → Place β) : Step β → Prop
  | .damage _ _ => True
  | .load kind => ∀ b v, (places kind).file = some b → loads kind b = some v → Loadable I kind v
  | .save kind _ => ∀ b, (places kind).file = some b →
      Sound I loads kind b ∨ (places kind).before = true ∨
        Copied loads kind b ∧ (places kind).alone = true

def MeetsAll [DecidableEq β] (dumps : Dict → β) (default : Dict) (places : Kind → Place β) :
    List (Step β) → Prop
  | [] => True
  | step :: steps => Meets I loads places step ∧
      MeetsAll dumps default (next I loads dumps default places step) steps

/-! ### The loads -/

theorem raisesOf_iff {α : Type} {x : Except Error α} : raisesOf x = false ↔ ∃ a, x = .ok a := by
  cases x with
  | ok a => exact iff_of_true rfl ⟨a, rfl⟩
  | error e => exact iff_of_false (by simp [raisesOf]) fun h => (nomatch h.choose_spec)

/-- What is falsy is replaced by a list, and anything else has to be run through. -/
theorem runs_iff {v : Value} : (∃ items, (v.or (.list [])).iter = .ok items) ↔ Runs v := by
  unfold Runs
  by_cases ht : v.truthy = true
  · rw [or_of_truthy ht]
    exact ⟨fun h _ => h, fun h => h ht⟩
  · rw [or_of_not ht]
    exact iff_of_true ⟨[], rfl⟩ fun h => absurd h ht

theorem renameRows_ok {f : Dict → Dict} {key : Text} {d : Dict} :
    (∃ r, renameRows f key d = .ok r) ↔ Runs (d.get key) := by
  rw [← runs_iff]
  unfold renameRows
  constructor
  · rintro ⟨r, hr⟩
    obtain ⟨items, hitems, -⟩ := Except.bind_eq_ok hr
    exact ⟨items, hitems⟩
  · rintro ⟨items, hitems⟩
    rw [hitems]
    cases d.get key <;> exact ⟨_, rfl⟩

theorem get_renameRows {f : Dict → Dict} {key k : Text} {d r : Dict}
    (h : renameRows f key d = .ok r) (hk : k ≠ key) : r.get k = d.get k := by
  obtain ⟨items, -, h⟩ := Except.bind_eq_ok h
  split at h
  · rw [← Except.ok.inj h, Dict.get_set, if_neg hk]
  · rw [Except.ok.inj h]

/-- The proxy document is upgraded if its two lists can be run through. -/
theorem upgrade_ok {d : Dict} :
    (∃ r, upgrade d = .ok r) ↔ Runs (d.get "routers") ∧ Runs (d.get "routes") := by
  have hupgrade : ∀ moved : Dict, (∃ r, (renameRows renamedRouter "routers" moved >>=
      renameRows renamedRoute "routes") = .ok r) ↔
        Runs (moved.get "routers") ∧ Runs (moved.get "routes") := fun moved => by
    rw [← renameRows_ok (f := renamedRouter)]
    constructor
    · rintro ⟨r, hr⟩
      obtain ⟨mid, hmid, hr⟩ := Except.bind_eq_ok hr
      have hroutes := renameRows_ok.mp ⟨r, hr⟩
      rw [get_renameRows hmid (by decide)] at hroutes
      exact ⟨⟨mid, hmid⟩, hroutes⟩
    · rintro ⟨⟨mid, hmid⟩, hroutes⟩
      rw [← get_renameRows (k := "routes") hmid (by decide)] at hroutes
      obtain ⟨r, hr⟩ := (renameRows_ok (f := renamedRoute)).mpr hroutes
      exact ⟨r, Except.bind_ok_iff.mpr ⟨mid, hmid, hr⟩⟩
  unfold upgrade
  refine (hupgrade _).trans ?_
  split
  · next vs hhas hlist =>
    -- the old key is renamed only where the new one is missing
    have hnone : d.get "routers" = .null := by
      unfold Dict.get
      cases hl : d.lookup (Text.of "routers") with
      | none => rfl
      | some v => exact absurd hhas (by rw [Dict.has, hl]; exact Bool.noConfusion)
    rw [Dict.get_set, if_pos rfl, Dict.get_set, if_neg (by decide), hnone, Dict.get,
      lookup_filter_key _ fun k => decide (k ≠ Text.of "switchboards"), if_pos (by decide),
      ← Dict.get]
    exact and_congr_left fun _ => iff_of_true (fun _ => ⟨vs, rfl⟩) fun h => (by cases h)
  · rfl

theorem legacyEntry_ok {p : Value} :
    (∃ r, legacyEntry I p = .ok r) ↔ ∃ t, strOf I (idOf p) = .ok t := by
  unfold legacyEntry
  constructor
  · rintro ⟨r, hr⟩
    obtain ⟨name, hname, -⟩ := Except.bind_eq_ok hr
    exact ⟨name, hname⟩
  · rintro ⟨name, hname⟩
    exact ⟨_, Except.bind_ok_iff.mpr ⟨name, hname, rfl⟩⟩

/-- The flat form is read if the ids of its entries can be printed. -/
theorem parseLegacy_ok {v : Value} : (∃ r, parseLegacy I v = .ok r) ↔
    ∀ rows, v = .list rows → ∀ p ∈ identified rows, ∃ t, strOf I (idOf p) = .ok t := by
  unfold parseLegacy
  cases v with
  | list vs =>
    simp only [Value.list.injEq, forall_eq']
    constructor
    · rintro ⟨r, hr⟩ p hp
      obtain ⟨entries, hentries, -⟩ := Except.bind_eq_ok hr
      obtain ⟨entry, -, hentry⟩ := Except.mapM_mem hentries hp
      exact (legacyEntry_ok I).mp ⟨entry, hentry⟩
    · intro h
      obtain ⟨entries, hentries, -⟩ := Except.mapM_exists (P := fun _ _ => True) fun p hp => by
        obtain ⟨entry, hentry⟩ := (legacyEntry_ok I).mpr (h p hp)
        exact ⟨entry, hentry, trivial⟩
      exact ⟨_, Except.bind_ok_iff.mpr ⟨entries, hentries, rfl⟩⟩
  | null | bool | int | float | str | dict =>
    exact iff_of_true ⟨_, rfl⟩ fun rows h => (nomatch h)

theorem parseAccounts_ok {d : Dict} : (∃ r, parseAccounts d = .ok r) ↔ Runs (d.get "pools") := by
  rw [← runs_iff]
  unfold parseAccounts
  constructor
  · rintro ⟨r, hr⟩
    obtain ⟨pools, hpools, -⟩ := Except.bind_eq_ok hr
    exact ⟨pools, hpools⟩
  · rintro ⟨pools, hpools⟩
    rw [hpools]
    exact ⟨_, rfl⟩

theorem parseCloudData_ok {v : Value} :
    (∃ r, parseCloudData I v = .ok r) ↔ Loadable I .providers v := by
  unfold parseCloudData Loadable
  cases v with
  | dict d =>
    simp only [Value.dict.injEq, forall_eq', reduceCtorEq, false_or, exists_eq_left']
    split
    · next h =>
      rw [parseAccounts_ok]
      simp [h]
    · next h =>
      rw [parseLegacy_ok]
      simp [h]
  | null | bool | int | float | str =>
    exact iff_of_true ⟨_, rfl⟩ ⟨fun d h => (nomatch h), fun rows h => by simp at h⟩
  | list vs =>
    simp only [parseLegacy_ok, Value.list.injEq, reduceCtorEq, false_and, exists_false, or_false,
      IsEmpty.forall_iff, implies_true, true_and]

section

variable (dumps : Dict → β) (default : Dict)

/-- The document that is started with, where there is none to read. -/
def fresh : Dict :=
  [("monitor", .dict [("retentionSeconds", .int 600)]),
    ("topology", .dict [("clients", .dict []), ("hosts", .dict []), ("assignments", .dict []),
      ("layout", .dict [])]),
    ("localPricing", .dict [("inputPer1M", .float (.finite false 0 0)),
      ("outputPer1M", .float (.finite false 0 0))]),
    ("apiPricing", .dict []), ("hfToken", .str []), ("hfFavorites", .list []),
    ("favFields", .list [])]

/-- An empty document is loaded, and not saved. -/
theorem loadAdmin_empty : loadAdmin (.dict []) = .ok (fresh, false) := by
  rfl

theorem initAdmin_raises {content : Option β} :
    (initAdmin loads dumps content).raises = false ↔ Seedable (readAdmin loads content) := by
  rw [← loadAdmin_ok_iff, initAdmin]
  cases loadAdmin (readAdmin loads content) with
  | ok r => exact iff_of_true rfl ⟨r, rfl⟩
  | error e => exact iff_of_false (by simp) fun h => (nomatch h.choose_spec)

/-- **What a load gets through**, exactly. -/
theorem load_raises_iff {kind : Kind} {b : β} :
    (load I loads dumps default kind (some b)).raises = false ↔
      ∀ v, loads kind b = some v → Loadable I kind v := by
  cases kind with
  | admin =>
    refine (initAdmin_raises loads dumps).trans ?_
    cases h : loads .admin b with
    | none =>
      simp only [readAdmin, h, Option.getD_none]
      exact iff_of_true (loadAdmin_ok_iff.mp ⟨_, loadAdmin_empty⟩) fun v hv => (nomatch hv)
    | some v => simp [readAdmin, h, Loadable]
  | proxies =>
    unfold load payload
    simp only
    cases h : loads .proxies b with
    | none => exact iff_of_true rfl fun v hv => (nomatch hv)
    | some v =>
      cases v with
      | dict d =>
        rw [raisesOf_iff, upgrade_ok]
        simp [Loadable]
      | null | bool | int | float | str | list =>
        exact iff_of_true rfl fun v hv d hd => by simp [← Option.some.inj hv] at hd
  | providers =>
    unfold load readCached
    simp only
    cases h : loads .providers b with
    | none => exact iff_of_true rfl fun v hv => (nomatch hv)
    | some v =>
      rw [raisesOf_iff, Except.map_answers, parseCloudData_ok]
      simp
  | secrets =>
    unfold load readCached
    simp only
    cases h : loads .secrets b with
    | none => exact iff_of_true rfl fun v hv => (nomatch hv)
    | some v => exact iff_of_true rfl fun v hv => trivial

/-- A file that is missing is no reason to raise, to copy or to save. -/
theorem load_none (kind : Kind) :
    load I loads dumps default kind none = { raises := false } := by
  cases kind with
  | admin => rfl
  | proxies | providers | secrets => rfl

theorem usable_iff {kind : Kind} {b : β} :
    usable I loads dumps default kind b = true ↔ Sound I loads kind b := by
  unfold usable Sound
  rw [Bool.and_eq_true, Bool.not_eq_true', load_raises_iff]
  cases loads kind b with
  | none => exact iff_of_false (fun h => nomatch h.1) fun h => (nomatch h.choose_spec.1)
  | some v => simp

/-- What a load copies, exactly. -/
theorem load_keeps_iff (kind : Kind) (b : β) :
    (load I loads dumps default kind (some b)).keeps = true ↔ Copied loads kind b := by
  cases kind with
  | admin =>
    refine iff_of_false ?_ id
    unfold load initAdmin
    simp only
    cases loadAdmin (readAdmin loads (some b)) with
    | ok r => exact Bool.false_ne_true
    | error e => exact Bool.false_ne_true
  | proxies =>
    unfold load payload Copied
    simp only
    cases loads .proxies b with
    | none => exact iff_of_true rfl fun v hv => (nomatch hv)
    | some v =>
      cases v with
      | dict d => exact iff_of_false Bool.false_ne_true fun h => nomatch h _ rfl
      | null | bool | int | float | str | list =>
        exact iff_of_true rfl fun v hv => by rw [← Option.some.inj hv]; rfl
  | providers =>
    unfold load readCached Copied
    simp only
    cases loads .providers b <;> simp
  | secrets =>
    unfold load readCached Copied
    simp only
    cases loads .secrets b <;> simp

/-- What a load saves over is sound. -/
theorem load_saves {kind : Kind} {b : β}
    (h : (load I loads dumps default kind (some b)).saves.isSome = true) :
    Sound I loads kind b := by
  cases kind with
  | admin =>
    unfold load initAdmin at h
    simp only at h
    cases hl : loads .admin b with
    | none =>
      rw [readAdmin, hl, Option.getD_none, loadAdmin_empty] at h
      exact nomatch h
    | some v =>
      rw [readAdmin, hl, Option.getD_some] at h
      cases hload : loadAdmin v with
      | ok r =>
        have hseed := loadAdmin_ok_iff.mp ⟨r, hload⟩
        obtain ⟨data, rfl, -⟩ := id hseed
        exact ⟨_, hl, rfl, hseed⟩
      | error e =>
        rw [hload] at h
        exact nomatch h
  | proxies | providers | secrets => exact nomatch h

/-! ### The copies -/

variable [DecidableEq β]

/-- The copies have a content if they had it when it came, or a load copied it. -/
def Kept (kind : Kind) (place : Place β) : Prop := ∀ b, place.file = some b →
  (b ∈ place.copies ↔ place.before = true ∨ Copied loads kind b ∧ place.alone = true)

theorem Kept.put (kind : Kind) (place : Place β) (content : Option β) :
    Kept loads kind (place.put content) := by
  intro b hb
  obtain rfl : content = some b := hb
  simp [Place.put]

/-- **A load keeps the copies right**. -/
theorem Kept.loaded {kind : Kind} {place : Place β} (h : Kept loads kind place) :
    Kept loads kind (place.loaded (load I loads dumps default kind place.file)) := by
  unfold Place.loaded
  split
  · intro b hb
    have hfile : place.file = some b := hb
    have hkeeps := load_keeps_iff I loads dumps default kind b
    have hhad := h b hfile
    rw [hfile]
    unfold Place.met
    simp only
    by_cases hk : (load I loads dumps default kind (some b)).keeps = true
    · have hcopied := hkeeps.mp hk
      rw [if_pos hk, keepUnreadable, hfile]
      split
      · next hnone => simp [hnone, hcopied]
      · next hsome =>
        have halone : place.copies.isEmpty = false := by simpa using hsome
        rw [halone, Bool.or_false]
        exact hhad
    · have hcopied : ¬ Copied loads kind b := fun hc => hk (hkeeps.mpr hc)
      rw [if_neg hk, hhad]
      simp [hcopied]
  · exact Kept.put loads kind _ _

omit [DecidableEq β] in
theorem Kept.update {places : Kind → Place β} (h : ∀ kind, Kept loads kind (places kind))
    {k : Kind} {place : Place β} (hp : Kept loads k place) (kind : Kind) :
    Kept loads kind (Function.update places k place kind) := by
  by_cases hk : kind = k
  · subst hk
    rw [Function.update_self]
    exact hp
  · rw [Function.update_of_ne hk]
    exact h kind

theorem Kept.next {places : Kind → Place β} (h : ∀ kind, Kept loads kind (places kind))
    (step : Step β) (kind : Kind) :
    Kept loads kind (next I loads dumps default places step kind) := by
  cases step with
  | damage k content => exact Kept.update loads h (Kept.put loads k _ _) kind
  | load k => exact Kept.update loads h (Kept.loaded I loads dumps default (h k)) kind
  | save k content => exact Kept.update loads h (Kept.put loads k _ _) kind

theorem lostOf_nil_iff {places : Kind → Place β} {kind : Kind}
    (h : Kept loads kind (places kind)) : lostOf I loads dumps default places kind = [] ↔
      ∀ b, (places kind).file = some b → Sound I loads kind b ∨ (places kind).before = true ∨
        Copied loads kind b ∧ (places kind).alone = true := by
  unfold lostOf
  cases hfile : (places kind).file with
  | none => simp
  | some b =>
    simp only [Option.some.injEq, forall_eq']
    rw [← usable_iff I loads dumps default, ← h b hfile]
    split
    · next hok => exact iff_of_true rfl hok
    · next hno => exact iff_of_false (List.cons_ne_nil _ _) hno

/-- **One step**: it does no harm exactly if what it relies on holds. -/
theorem harm_nil_iff {places : Kind → Place β} (h : ∀ kind, Kept loads kind (places kind))
    (step : Step β) : harm I loads dumps default places step = [] ↔ Meets I loads places step := by
  cases step with
  | damage kind content => exact iff_of_true rfl trivial
  | save kind content => exact lostOf_nil_iff I loads dumps default (h kind)
  | load kind =>
    unfold harm Meets
    simp only [List.append_eq_nil_iff]
    cases hfile : (places kind).file with
    | none => simp [load_none]
    | some b =>
      have hraises : (if (load I loads dumps default kind (some b)).raises = true
          then [Harm.raised kind (β := β)] else []) = [] ↔
            ∀ v, loads kind b = some v → Loadable I kind v := by
        rw [← load_raises_iff I loads dumps default, ite_eq_right_iff]
        simp
      have hsaves : (if (load I loads dumps default kind (some b)).saves.isSome = true then
          lostOf I loads dumps default places kind else []) = [] := by
        split
        · next hs =>
          refine (lostOf_nil_iff I loads dumps default (h kind)).mpr fun b' hb' => .inl ?_
          obtain rfl := Option.some.inj (hfile.symm.trans hb')
          exact load_saves I loads dumps default hs
        · rfl
      rw [hraises]
      constructor
      · rintro ⟨hall, -⟩ b' v hb' hv
        obtain rfl := Option.some.inj hb'
        exact hall v hv
      · exact fun hall => ⟨fun v hv => hall b v rfl hv, hsaves⟩

/-- **Which histories do no harm**: exactly those each step of which finds what it relies on. -/
theorem unharmed_iff {places : Kind → Place β} (h : ∀ kind, Kept loads kind (places kind))
    (steps : List (Step β)) :
    harms I loads dumps default places steps = [] ↔
      MeetsAll I loads dumps default places steps := by
  induction steps generalizing places with
  | nil => exact iff_of_true rfl trivial
  | cons step steps ih =>
    rw [harms, List.append_eq_nil_iff, harm_nil_iff I loads dumps default h,
      ih (Kept.next I loads dumps default h step), MeetsAll]

end

/-! ### Four histories -/

/-- An interpreter, where nothing is printed. -/
def mute : Interp where
  printable _ := false
  surrogate _ _ := rfl
  digit _ := none
  reprNesting := 1000
  dumpsNesting := 900
  room := Interp.ascii.room

/-- The two documents of the histories. -/
def twoDocuments : Kind → Text → Option Value := fun _ t =>
  if t = Text.of "\x7b\x7d" then some (.dict [])
  else if t = Text.of "[]" then some (.list []) else none

/-- No file, and no copy. -/
def untouched : Kind → Place Text := fun _ => ⟨none, [], false, false⟩

/-- What a history from there does. -/
def harmsOf (steps : List (Step Text)) : List (Harm Text) :=
  harms mute twoDocuments (fun _ => "\x7b\x7d") [] untouched steps

/-- A first damage is copied, and the file is saved over twice. -/
def firstDamage : List (Step Text) :=
  [.load .admin, .save .admin "\x7b\x7d", .damage .secrets (some "\x7b"), .load .secrets,
    .save .secrets "\x7b\x7d", .load .secrets, .save .secrets "\x7b\x7d"]

theorem untouched_kept (kind : Kind) : Kept twoDocuments kind (untouched kind) :=
  fun _ hb => nomatch hb

theorem firstDamage_unharmed : harmsOf firstDamage = [] ∧
    MeetsAll mute twoDocuments (fun _ => "\x7b\x7d") [] untouched firstDamage :=
  ⟨rfl, (unharmed_iff mute twoDocuments _ [] untouched_kept firstDamage).mp rfl⟩

/-- **What is lost, and what is not loaded**: a list for `admin.json`; a damaged `admin.json`
that is saved over; a second damage while the copy of the first stands; keys of another shape. -/
theorem damage_harms :
    harmsOf [.damage .admin (some "[]"), .load .admin] = [.raised .admin] ∧
      harmsOf [.load .admin, .damage .admin (some "\x7b"), .save .admin "\x7b\x7d"] =
        [.lost .admin "\x7b"] ∧
      harmsOf [.damage .proxies (some "\x7b"), .load .proxies, .save .proxies "\x7b\x7d",
        .damage .proxies (some "["), .load .proxies, .save .proxies "\x7b\x7d"] =
        [.lost .proxies "["] ∧
      harmsOf [.damage .secrets (some "[]"), .load .secrets, .save .secrets "\x7b\x7d"] =
        [.lost .secrets "[]"] :=
  ⟨rfl, rfl, rfl, rfl⟩

end Documents
