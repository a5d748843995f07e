import Caravan.Documents.Proxies

/-!
# The admin document, as it is loaded

`AdminStore` reads `admin.json`, fills in what it lacks and repairs what older versions left.
None of this asks what it has before it: a section that is no dictionary, or rows that cannot be
run through, end the load with an exception. `Seedable` says of a document what the load relies
on (`load_ok`).
-/

namespace Documents

open Python

/-! ### What is filled in -/

/-- `d.setdefault(k, v)` -/
def setdefault (d : Dict) (k : Text) (v : Value) : Dict := if d.has k then d else d.set k v

/-- A value that has to be a dictionary. -/
def dictOf : Value → Except Error Dict
  | .dict d => .ok d
  | _ => .error .type

/-- `Store.section` -/
def storeSection (data : Dict) (name : Text) (keys : List Text) : Except Error Dict := do
  let data := setdefault data name (.dict [])
  if keys = [] then return data
  let found ← dictOf (data.get name)
  return data.set name (.dict (keys.foldl (fun d k => setdefault d k (.dict [])) found))

/-- A default in a section. -/
def sectionDefault (data : Dict) (name key : Text) (v : Value) : Except Error Dict := do
  let found ← dictOf (data.get name)
  return data.set name (.dict (setdefault found key v))

/-- `MONITOR_RETENTION_DEFAULT` -/
def MONITOR_RETENTION_DEFAULT : Value := .int 600

/-- `AdminStore.seed` -/
def seed (data : Value) : Except Error Dict := do
  let data ← dictOf data
  let data ← storeSection data "monitor" []
  let data ← sectionDefault data "monitor" "retentionSeconds" MONITOR_RETENTION_DEFAULT
  let data ← storeSection data "topology" ["clients", "hosts", "assignments", "layout"]
  let data ← storeSection data "localPricing" []
  let data ← sectionDefault data "localPricing" "inputPer1M" (.float (.finite false 0 0))
  let data ← sectionDefault data "localPricing" "outputPer1M" (.float (.finite false 0 0))
  let data ← storeSection data "apiPricing" []
  let data := setdefault data "hfToken" (.str [])
  let data := setdefault data "hfFavorites" (.list [])
  return setdefault data "favFields" (.list [])

/-! ### What is repaired -/

def CONTROLLER_HOST_ID : Text := "controller"

def LEGACY_CONTROLLER_HOST_IDS : List Text := ["skynet"]

/-- One slot of `_rekey_legacy_controller_slots`. -/
def rekeySlot (slots : Dict) (key : Text) : Dict :=
  let head := key.takeWhile fun c => c ≠ codePoint ':'
  if codePoint ':' ∉ key ∨ head ∉ LEGACY_CONTROLLER_HOST_IDS then slots
  else
    let newKey := CONTROLLER_HOST_ID ++ key.drop head.length
    let slot := match slots.get key with
      | .dict d => .dict ((Dict.set d "hostId" (.str CONTROLLER_HOST_ID)).set "id" (.str newKey))
      | v => v
    setdefault (slots.filter fun p => p.1 ≠ key) newKey slot

/-- `_rekey_legacy_controller_slots` -/
def rekeyLegacySlots (data : Dict) : Except Error Dict := do
  let topo ← dictOf ((data.get "topology").or (.dict []))
  match topo.get "serverSlots" with
  | .dict slots => return data.set "topology" (.dict (topo.set "serverSlots"
      (.dict ((slots.map Prod.fst).foldl rekeySlot slots))))
  | _ => return data

/-- `SCOUT_WORDS` -/
def clientWords : List Text :=
  ["manual", "candidates", "assignments", "applyStatus", "state", "ageSeconds"]

def agentWords : List Text := ["manual", "runtimeDetected"]

def assignmentEntryWords : List Text := ["agentUrl", "applyStatus", "desiredAt"]

def assignmentRowWords : List Text := ["manual"]

/-- `drop` -/
def dropWords (words : List Text) : Value → Value
  | .dict d => .dict (d.filter fun p => p.1 ∉ words)
  | v => v

/-- The rows under a key of a record, each with its words dropped. -/
def forgetRows (words : List Text) (key : Text) (d : Dict) : Except Error Dict :=
  if (d.get key).truthy then match d.get key with
    | .list vs => .ok (d.set key (.list (vs.map (dropWords words))))
    | .dict _ | .str _ => .ok d
    | _ => .error .type
  else .ok d

/-- A record and its rows. -/
def forgetRecord (words rowWords : List Text) (key : Text) (record : Value) : Except Error Value :=
  match dropWords words record with
  | .dict d => (forgetRows rowWords key d).map .dict
  | v => .ok v

/-- The records of a section: `(topo.get(…) or {}).values()`. -/
def forgetSection (name : Text) (words rowWords : List Text) (key : Text) (topo : Dict) :
    Except Error Dict := do
  let records ← dictOf ((topo.get name).or (.dict []))
  let records ← records.mapM fun p =>
    (forgetRecord words rowWords key p.2).map fun v => (p.1, v)
  if (topo.get name).truthy then return topo.set name (.dict records) else return topo

/-- `_forget_what_reports_said` -/
def forgetReports (data : Dict) : Except Error Dict :=
  match data.get "topology" with
  | .dict topo => do
    let topo ← forgetSection "clients" clientWords agentWords "agents" topo
    let topo ← forgetSection "assignments" assignmentEntryWords assignmentRowWords "assignments"
      topo
    return data.set "topology" (.dict (topo.filter fun p => p.1 ≠ Text.of "deletedAgents"))
  | _ => .ok data

/-- `HostRecord.FIELDS` -/
def hostFields : List Text :=
  ["hostname", "ip", "agentUrl", "gpus", "computeApps", "engines", "cpu", "platform", "llamaNode",
    "llamaNodes", "llamaBinaryVersion", "llamaBinaryMtime", "llamaUpdate", "scoutVersion",
    "firstSeen", "lastSeen"]

/-- `HostRecord.split` -/
def splitRecord : Value → Option Dict × Option Dict
  | .dict row =>
    if ∃ k ∈ hostFields, k ≠ Text.of "ip" ∧ Dict.has row k = true then
      let reported := hostFields.filter fun k => Dict.has row k
      let host := reported.foldl (fun host k => Dict.set host k (Dict.get row k))
        [("id", Dict.get row "id"), ("name", (Dict.get row "name").or (Dict.get row "id"))]
      let client := row.filter fun p => (p.1 ∉ hostFields ∨ p.1 = Text.of "ip") ∧
        p.1 ∉ [Text.of "state", Text.of "ageSeconds"]
      (some host, if (Dict.get client "agents").truthy then some client else none)
    else (none, some row)
  | _ => (none, none)

/-- One client of `_split_hosts_from_clients`: the hosts and the clients. -/
def splitClient (x : Value × Dict) (p : Text × Value) : Except Error (Value × Dict) :=
  match splitRecord p.2 with
  | (none, _) => .ok x
  | (some host, client) => do
    let hosts ← dictOf x.1
    return (.dict (setdefault hosts p.1 (.dict host)), match client with
      | none => x.2.filter fun q => q.1 ≠ p.1
      | some client => x.2.set p.1 (.dict client))

/-- `_split_hosts_from_clients` -/
def splitHosts (data : Dict) : Except Error Dict :=
  match data.get "topology" with
  | .dict topo => match Dict.get topo "clients" with
    | .dict clients => do
      let topo := setdefault topo "hosts" (.dict [])
      let split ← clients.foldlM splitClient (topo.get "hosts", clients)
      return data.set "topology" (.dict ((topo.set "hosts" split.1).set "clients" (.dict split.2)))
    | _ => .ok data
  | _ => .ok data

/-- Whether there is a slot to rekey. -/
def rekeys (data : Dict) : Bool :=
  ((data.get "topology").asDict.get "serverSlots").asDict.any fun p => codePoint ':' ∈ p.1 ∧
    (p.1.takeWhile fun c => c ≠ codePoint ':') ∈ LEGACY_CONTROLLER_HOST_IDS

def hasWords (words : List Text) (v : Value) : Bool := v.asDict.any fun p => p.1 ∈ words

/-- Whether there is a word to drop, or a tombstone. -/
def forgets (data : Dict) : Bool :=
  let topo := (data.get "topology").asDict
  let found (name : Text) (words rowWords : List Text) (key : Text) : Bool :=
    (topo.get name).asDict.any fun p => hasWords words p.2 ||
      (p.2.asDict.get key).asList.any (hasWords rowWords)
  found "clients" clientWords agentWords "agents" ||
    found "assignments" assignmentEntryWords assignmentRowWords "assignments" ||
    topo.has "deletedAgents"

/-- Whether there is a record to split. -/
def splits (data : Dict) : Bool :=
  ((data.get "topology").asDict.get "clients").asDict.any fun p => (splitRecord p.2).1.isSome

/-- `AdminStore.migrate`: the document, and whether it is saved. -/
def migrate (data : Dict) : Except Error (Dict × Bool) := do
  let rekeyed ← rekeyLegacySlots data
  let forgotten ← forgetReports rekeyed
  let split ← splitHosts forgotten
  return (split, rekeys data || forgets rekeyed || splits forgotten)

/-- `Store.__init__`, of what `read` makes of the file. -/
def loadAdmin (data : Value) : Except Error (Dict × Bool) := do
  let data ← seed data
  migrate data

/-! ### What a load relies on -/

/-- A section of the document, which is empty where it is missing. -/
def found (data : Dict) (k : Text) : Value := (data.lookup k).getD (.dict [])

/-- What a loop runs through, if it is not taken for nothing. -/
def Runs (v : Value) : Prop := v.truthy → ∃ items, v.iter = .ok items

/-- A record whose rows can be run through, if there are any. -/
def RowsOk (key : Text) (record : Value) : Prop := ∀ d : Dict, record = .dict d → Runs (d.get key)

/-- A section of such records, or something that stands for none. -/
def RecordsOk (key : Text) (v : Value) : Prop :=
  v.truthy → ∃ d, v = .dict d ∧ ∀ p ∈ d, RowsOk key p.2

/-- A record that has to be split. -/
def Splits (record : Value) : Prop :=
  ∃ d, record = .dict d ∧ ∃ k ∈ hostFields, k ≠ Text.of "ip" ∧ Dict.has d k = true

structure TopologyOk (topo : Dict) : Prop where
  clients : RecordsOk "agents" (found topo "clients")
  assignments : RecordsOk "assignments" (found topo "assignments")
  hosts : (∃ p ∈ (found topo "clients").asDict, Splits p.2) → (found topo "hosts").isDict = true

/-- A document whose sections are of the shape that the code reads. -/
structure SectionsOk (data : Dict) : Prop where
  monitor : (found data "monitor").isDict = true
  localPricing : (found data "localPricing").isDict = true
  topology : ∃ topo, found data "topology" = .dict topo ∧ TopologyOk topo

/-- A document that can be loaded. -/
def Seedable (v : Value) : Prop := ∃ data, v = .dict data ∧ SectionsOk data

/-! ### The load of such a document -/

theorem dictOf_ok {v : Value} {d : Dict} : dictOf v = .ok d ↔ v = .dict d := by
  cases v with
  | dict d' => exact ⟨fun h => congrArg _ (Except.ok.inj h), fun h => by cases h; rfl⟩
  | null | bool | int | float | str | list =>
    exact ⟨fun h => (nomatch h), fun h => (nomatch h)⟩

theorem lookup_setdefault (d : Dict) (k k' : Text) (v : Value) :
    (setdefault d k v).lookup k' = if k' = k then some ((d.lookup k).getD v) else d.lookup k' := by
  unfold setdefault
  by_cases h : d.has k = true
  · rw [if_pos h]
    obtain ⟨w, hw⟩ := Dict.has_iff.mp h
    by_cases hk : k' = k
    · rw [if_pos hk, hk, hw]
      rfl
    · rw [if_neg hk]
  · rw [if_neg h, Dict.lookup_set]
    have hnone : d.lookup k = none := by
      rw [Dict.has_iff] at h
      exact Option.eq_none_iff_forall_ne_some.mpr fun w hw => h ⟨w, hw⟩
    rw [hnone]
    rfl

theorem get_setdefault (d : Dict) (k k' : Text) (v : Value) :
    (setdefault d k v).get k' = if k' = k then (d.lookup k).getD v else d.get k' := by
  rw [Dict.get, lookup_setdefault]
  split <;> rfl

theorem found_setdefault (d : Dict) (k k' : Text) (v : Value) :
    found (setdefault d k v) k' = if k' = k then (d.lookup k).getD v else found d k' := by
  rw [found, lookup_setdefault]
  split <;> rfl

theorem found_set (d : Dict) (k k' : Text) (v : Value) :
    found (d.set k v) k' = if k' = k then v else found d k' := by
  rw [found, Dict.lookup_set]
  split <;> rfl

theorem storeSection_nil (data : Dict) (name : Text) :
    storeSection data name [] = .ok (setdefault data name (.dict [])) := rfl

/-- The subsections that a section has to have. -/
def subsections (keys : List Text) (d : Dict) : Dict :=
  keys.foldl (fun d k => setdefault d k (.dict [])) d

theorem storeSection_ok {data r : Dict} {name key : Text} {keys : List Text} :
    storeSection data name (key :: keys) = .ok r ↔ ∃ d, found data name = .dict d ∧
      (setdefault data name (.dict [])).set name (.dict (subsections (key :: keys) d)) = r := by
  unfold storeSection
  simp only [reduceCtorEq, if_false]
  rw [get_setdefault, if_pos rfl, ← found]
  constructor
  · intro h
    obtain ⟨d, hd, h⟩ := Except.bind_eq_ok h
    exact ⟨d, dictOf_ok.mp hd, Except.ok.inj h⟩
  · rintro ⟨d, hd, rfl⟩
    rw [hd]
    rfl

theorem sectionDefault_ok {data r : Dict} {name key : Text} {v : Value} :
    sectionDefault data name key v = .ok r ↔
      ∃ d, data.get name = .dict d ∧ data.set name (.dict (setdefault d key v)) = r := by
  unfold sectionDefault
  constructor
  · intro h
    obtain ⟨d, hd, h⟩ := Except.bind_eq_ok h
    exact ⟨d, dictOf_ok.mp hd, Except.ok.inj h⟩
  · rintro ⟨d, hd, rfl⟩
    rw [hd]
    rfl

/-- The subsections of the topology. -/
def topologyKeys : List Text := ["clients", "hosts", "assignments", "layout"]

/-- What the seeding makes of a document with these sections. -/
def seeded (data monitor topo pricing : Dict) : Dict :=
  let data := (setdefault data "monitor" (.dict [])).set "monitor"
    (.dict (setdefault monitor "retentionSeconds" MONITOR_RETENTION_DEFAULT))
  let data := (setdefault data "topology" (.dict [])).set "topology"
    (.dict (subsections topologyKeys topo))
  let data := (setdefault data "localPricing" (.dict [])).set "localPricing"
    (.dict (setdefault pricing "inputPer1M" (.float (.finite false 0 0))))
  let data := data.set "localPricing" (.dict (setdefault
    (setdefault pricing "inputPer1M" (.float (.finite false 0 0)))
    "outputPer1M" (.float (.finite false 0 0))))
  let data := setdefault data "apiPricing" (.dict [])
  setdefault (setdefault (setdefault data "hfToken" (.str [])) "hfFavorites" (.list []))
    "favFields" (.list [])

/-- **What is seeded**: a document whose three sections are dictionaries. -/
theorem seed_ok {data r : Dict} : seed (.dict data) = .ok r ↔
    ∃ monitor topo pricing, found data "monitor" = .dict monitor ∧
      found data "topology" = .dict topo ∧ found data "localPricing" = .dict pricing ∧
      seeded data monitor topo pricing = r := by
  unfold seed
  simp only [storeSection_nil, dictOf, Except.bind_ok_iff, Except.ok.injEq, exists_eq_left',
    storeSection_ok, sectionDefault_ok]
  constructor
  · rintro ⟨_, ⟨m, hm, rfl⟩, _, ⟨t, ht, rfl⟩, _, ⟨p, hp, rfl⟩, _, ⟨p', hp', rfl⟩, hr⟩
    rw [get_setdefault, if_pos rfl] at hm
    rw [found_set, if_neg (by decide), found_setdefault, if_neg (by decide)] at ht
    rw [get_setdefault, if_pos rfl, ← found, found_set, if_neg (by decide), found_setdefault,
      if_neg (by decide), found_set, if_neg (by decide), found_setdefault, if_neg (by decide)] at hp
    rw [Dict.get_set, if_pos rfl] at hp'
    cases hp'
    exact ⟨m, t, p, hm, ht, hp, Except.ok.inj hr⟩
  · rintro ⟨m, t, p, hm, ht, hp, rfl⟩
    refine ⟨_, ⟨m, ?_, rfl⟩, _, ⟨t, ?_, rfl⟩, _, ⟨p, ?_, rfl⟩, _, ⟨_, ?_, rfl⟩, rfl⟩
    · rw [get_setdefault, if_pos rfl]
      exact hm
    · rw [found_set, if_neg (by decide), found_setdefault, if_neg (by decide)]
      exact ht
    · rw [get_setdefault, if_pos rfl, ← found, found_set, if_neg (by decide), found_setdefault,
        if_neg (by decide), found_set, if_neg (by decide), found_setdefault, if_neg (by decide)]
      exact hp
    · rw [Dict.get_set, if_pos rfl]

theorem seeded_topology (data monitor topo pricing : Dict) :
    (seeded data monitor topo pricing).get "topology" = .dict (subsections topologyKeys topo) := by
  unfold seeded
  simp only
  iterate 4 rw [get_setdefault, if_neg (by decide)]
  iterate 2 rw [Dict.get_set, if_neg (by decide)]
  rw [get_setdefault, if_neg (by decide), Dict.get_set, if_pos rfl]

theorem found_subsections (keys : List Text) (d : Dict) (k : Text) :
    found (subsections keys d) k = found d k := by
  induction keys generalizing d with
  | nil => rfl
  | cons a keys ih =>
    rw [subsections, List.foldl_cons, ← subsections, ih, found_setdefault]
    split
    · next h => rw [h, found]
    · rfl

theorem has_subsections {keys : List Text} {d : Dict} {k : Text} (h : k ∈ keys ∨ d.has k = true) :
    (subsections keys d).has k = true := by
  induction keys generalizing d with
  | nil => exact h.resolve_left List.not_mem_nil
  | cons a keys ih =>
    rw [subsections, List.foldl_cons, ← subsections]
    refine ih (or_iff_not_imp_left.mpr fun hno => ?_)
    rw [Dict.has, lookup_setdefault]
    split
    · rfl
    · next hne =>
      exact h.resolve_left fun hk => (List.mem_cons.mp hk).elim hne hno

/-- A subsection that the section was made to have. -/
theorem get_subsections {keys : List Text} {k : Text} (d : Dict) (h : k ∈ keys) :
    (subsections keys d).get k = found d k := by
  obtain ⟨v, hv⟩ := Dict.has_iff.mp (has_subsections (d := d) (.inl h))
  rw [← found_subsections keys d k, Dict.get, found, hv]
  rfl

/-! ### The repairs of such a document -/

theorem dict_or (d : Dict) : (Value.dict d).or (.dict []) = .dict d := by
  cases d with
  | nil => rfl
  | cons p d => rfl

/-- The slots are all that the rekeying changes. -/
theorem rekey_ok {data topo : Dict} (h : data.get "topology" = .dict topo) :
    ∃ (r topo' : Dict), rekeyLegacySlots data = .ok r ∧ r.get "topology" = .dict topo' ∧
      ∀ k, k ≠ Text.of "serverSlots" → topo'.lookup k = topo.lookup k := by
  unfold rekeyLegacySlots
  rw [h, dict_or]
  show ∃ r topo', (match Dict.get topo "serverSlots" with
    | .dict slots => .ok (data.set "topology" (.dict (topo.set "serverSlots"
        (.dict ((slots.map Prod.fst).foldl rekeySlot slots)))))
    | _ => .ok data : Except Error Dict) = .ok r ∧ _
  split
  · refine ⟨_, _, rfl, (Dict.get_set _ _ _ _).trans (if_pos rfl), fun k hk => ?_⟩
    rw [Dict.lookup_set, if_neg hk]
  · exact ⟨_, topo, rfl, h, fun _ _ => rfl⟩

theorem lookup_dropped {words : List Text} {k : Text} (d : Dict) (h : k ∉ words) :
    (d.filter fun p => p.1 ∉ words).lookup k = d.lookup k := by
  rw [lookup_filter_key _ (fun k => decide (k ∉ words)), if_pos (by simpa using h)]

/-- The rows of a record are dropped, if there are any and they can be run through. -/
theorem forgetRows_ok (words : List Text) {key : Text} {d : Dict} :
    (∃ r, forgetRows words key d = .ok r) ↔ RowsOk key (.dict d) := by
  unfold forgetRows RowsOk Runs
  simp only [Value.dict.injEq, forall_eq']
  by_cases ht : (d.get key).truthy = true
  · rw [if_pos ht]
    generalize d.get key = rows at ht
    cases rows with
    | list vs => exact iff_of_true ⟨_, rfl⟩ fun _ => ⟨_, rfl⟩
    | dict kvs => exact iff_of_true ⟨_, rfl⟩ fun _ => ⟨_, rfl⟩
    | str t => exact iff_of_true ⟨_, rfl⟩ fun _ => ⟨_, rfl⟩
    | null | bool | int | float =>
      exact iff_of_false (fun h => nomatch h.choose_spec) fun h => (nomatch (h ht).choose_spec)
  · rw [if_neg ht]
    exact iff_of_true ⟨_, rfl⟩ fun h => absurd h ht

/-- The rows are all that is written. -/
theorem lookup_forgetRows {words : List Text} {key k : Text} {d r : Dict}
    (h : forgetRows words key d = .ok r) (hk : k ≠ key) : r.lookup k = d.lookup k := by
  unfold forgetRows at h
  split at h
  · split at h
    · rw [← Except.ok.inj h, Dict.lookup_set, if_neg hk]
    · rw [Except.ok.inj h]
    · rw [Except.ok.inj h]
    · exact nomatch h
  · rw [Except.ok.inj h]

/-- A record without its words has the same rows. -/
theorem forgetRecord_ok {words : List Text} (rowWords : List Text) {key : Text} {record : Value}
    (hkey : key ∉ words) :
    (∃ r, forgetRecord words rowWords key record = .ok r) ↔ RowsOk key record := by
  cases record with
  | dict d =>
    have hrows : RowsOk key (.dict (d.filter fun p => p.1 ∉ words)) ↔ RowsOk key (.dict d) := by
      unfold RowsOk
      simp only [Value.dict.injEq, forall_eq']
      rw [Dict.get, lookup_dropped d hkey, ← Dict.get]
    rw [← hrows, ← forgetRows_ok rowWords]
    constructor
    · rintro ⟨r, hr⟩
      obtain ⟨d', hd', -⟩ := Except.map_eq_ok hr
      exact ⟨d', hd'⟩
    · rintro ⟨r, hr⟩
      refine ⟨.dict r, ?_⟩
      show (forgetRows rowWords key _).map Value.dict = _
      rw [hr]
      rfl
  | null | bool | int | float | str | list =>
    exact iff_of_true ⟨_, rfl⟩ fun d h => (nomatch h)

/-- No word that is dropped is one that a scout reports. -/
theorem forgetRecord_splits {rowWords : List Text} {record r : Value}
    (h : forgetRecord clientWords rowWords "agents" record = .ok r) : Splits r ↔ Splits record := by
  cases record with
  | dict d =>
    obtain ⟨d', hd', rfl⟩ := Except.map_eq_ok (f := Value.dict) h
    have hother : ∀ k ∈ hostFields, k ∉ clientWords ∧ k ≠ Text.of "agents" := by decide
    have hhas : ∀ k ∈ hostFields, Dict.has d' k = Dict.has d k := fun k hk => by
      rw [Dict.has, lookup_forgetRows hd' (hother k hk).2, lookup_dropped d (hother k hk).1]
      rfl
    unfold Splits
    simp only [Value.dict.injEq, exists_eq_left']
    exact ⟨fun ⟨k, hk, hne, h⟩ => ⟨k, hk, hne, hhas k hk ▸ h⟩,
      fun ⟨k, hk, hne, h⟩ => ⟨k, hk, hne, (hhas k hk).symm ▸ h⟩⟩
  | null | bool | int | float | str | list =>
    obtain rfl := Except.ok.inj h
    rfl

/-- What becomes of the records of a section. -/
theorem forgetSection_ok (name : Text) {key : Text} {words : List Text} (rowWords : List Text)
    {topo : Dict} (hkey : key ∉ words) : (∃ r, forgetSection name words rowWords key topo = .ok r) ↔
      RecordsOk key (topo.get name) := by
  unfold forgetSection RecordsOk
  by_cases ht : (topo.get name).truthy = true
  · rw [or_of_truthy ht]
    constructor
    · rintro ⟨r, hr⟩ -
      obtain ⟨d, hd, hr⟩ := Except.bind_eq_ok hr
      obtain ⟨records, hrecords, -⟩ := Except.bind_eq_ok hr
      refine ⟨d, dictOf_ok.mp hd, fun p hp => ?_⟩
      obtain ⟨b, -, hb⟩ := Except.mapM_mem hrecords hp
      obtain ⟨v, hv, -⟩ := Except.map_eq_ok hb
      exact (forgetRecord_ok rowWords hkey).mp ⟨v, hv⟩
    · intro h
      obtain ⟨d, hd, hrows⟩ := h ht
      obtain ⟨records, hrecords, -⟩ := Except.mapM_exists (P := fun _ _ => True)
        (f := fun p : Text × Value =>
          (forgetRecord words rowWords key p.2).map fun v => (p.1, v)) (l := d) fun p hp => by
        obtain ⟨v, hv⟩ := (forgetRecord_ok rowWords hkey).mpr (hrows p hp)
        exact ⟨(p.1, v), by rw [hv]; rfl, trivial⟩
      rw [dictOf_ok.mpr hd]
      exact ⟨_, Except.bind_ok_iff.mpr
        ⟨d, rfl, Except.bind_ok_iff.mpr ⟨records, hrecords, if_pos ht⟩⟩⟩
  · rw [or_of_not ht]
    exact iff_of_true ⟨topo, if_neg ht⟩ fun h => absurd h ht

theorem lookup_forgetSection {name key k : Text} {words rowWords : List Text} {topo r : Dict}
    (h : forgetSection name words rowWords key topo = .ok r) (hk : k ≠ name) :
    r.lookup k = topo.lookup k := by
  obtain ⟨d, -, h⟩ := Except.bind_eq_ok h
  obtain ⟨records, -, h⟩ := Except.bind_eq_ok h
  split at h
  · rw [← Except.ok.inj h, Dict.lookup_set, if_neg hk]
  · rw [Except.ok.inj h]

/-- The clients that have to be split are so before and after. -/
theorem forgetSection_splits {rowWords : List Text} {topo r : Dict}
    (h : forgetSection "clients" clientWords rowWords "agents" topo = .ok r) :
    (∃ p ∈ (r.get "clients").asDict, Splits p.2) ↔
      ∃ p ∈ (topo.get "clients").asDict, Splits p.2 := by
  obtain ⟨d, hd, h⟩ := Except.bind_eq_ok h
  obtain ⟨records, hrecords, h⟩ := Except.bind_eq_ok h
  have hd := dictOf_ok.mp hd
  split at h
  · next ht =>
    rw [or_of_truthy ht] at hd
    rw [← Except.ok.inj h, Dict.get_set, if_pos rfl, hd]
    constructor
    · rintro ⟨p, hp, hs⟩
      obtain ⟨q, hq, hqp⟩ := Except.mem_mapM hrecords hp
      obtain ⟨v, hv, rfl⟩ := Except.map_eq_ok hqp
      exact ⟨q, hq, (forgetRecord_splits hv).mp hs⟩
    · rintro ⟨q, hq, hs⟩
      obtain ⟨p, hp, hqp⟩ := Except.mapM_mem hrecords hq
      obtain ⟨v, hv, rfl⟩ := Except.map_eq_ok hqp
      exact ⟨_, hp, (forgetRecord_splits hv).mpr hs⟩
  · rw [Except.ok.inj h]

theorem splitRecord_iff {record : Value} : (∃ host, (splitRecord record).1 = some host) ↔
    Splits record := by
  cases record with
  | dict d =>
    unfold splitRecord Splits
    simp only [Value.dict.injEq, exists_eq_left']
    split
    · next h => exact iff_of_true ⟨_, rfl⟩ h
    · next h => exact iff_of_false (fun hs => nomatch hs.choose_spec) h
  | null | bool | int | float | str | list =>
    exact iff_of_false (fun h => nomatch h.choose_spec) fun h => (nomatch h.choose_spec.1)

/-- Hosts are written only to a dictionary. -/
theorem splitClients_ok {hosts : Value} (clients : Dict) {rows : Dict} :
    (∃ r, rows.foldlM splitClient (hosts, clients) = .ok r) ↔
      ((∃ p ∈ rows, Splits p.2) → hosts.isDict = true) := by
  induction rows generalizing hosts clients with
  | nil => exact iff_of_true ⟨_, rfl⟩ fun h => absurd h.choose_spec.1 List.not_mem_nil
  | cons p rows ih =>
    rw [List.foldlM_cons]
    cases hsplit : splitRecord p.2 with
    | mk host client =>
      cases host with
      | none =>
        have hno : ¬ Splits p.2 := fun h => by
          obtain ⟨host, hh⟩ := splitRecord_iff.mpr h
          rw [hsplit] at hh
          exact nomatch hh
        have hstep : splitClient (hosts, clients) p = .ok (hosts, clients) := by
          rw [splitClient, hsplit]
        rw [hstep]
        refine (ih clients).trans (imp_congr_left ?_)
        simp [hno]
      | some host =>
        have hyes : Splits p.2 := splitRecord_iff.mp ⟨host, by rw [hsplit]⟩
        simp only [splitClient, hsplit]
        cases hosts with
        | dict d => exact iff_of_true ((ih _).mpr fun _ => rfl) fun _ => rfl
        | null | bool | int | float | str | list =>
          refine iff_of_false (fun h => nomatch h.choose_spec) fun h => ?_
          exact nomatch h ⟨p, List.mem_cons_self, hyes⟩

theorem splitHosts_ok {data topo : Dict} (h : data.get "topology" = .dict topo) :
    (∃ r, splitHosts data = .ok r) ↔
      ((∃ p ∈ (topo.get "clients").asDict, Splits p.2) → (found topo "hosts").isDict = true) := by
  unfold splitHosts
  rw [h]
  simp only
  split
  · next clients hclients =>
    rw [hclients, Value.asDict]
    have hhosts : (setdefault topo "hosts" (.dict [])).get "hosts" = found topo "hosts" := by
      rw [get_setdefault, if_pos rfl, found]
    rw [hhosts, ← splitClients_ok clients]
    constructor
    · rintro ⟨r, hr⟩
      obtain ⟨split, hsplit, -⟩ := Except.bind_eq_ok hr
      exact ⟨split, hsplit⟩
    · rintro ⟨split, hsplit⟩
      exact ⟨_, Except.bind_ok_iff.mpr ⟨split, hsplit, rfl⟩⟩
  · next hno =>
    refine iff_of_true ⟨_, rfl⟩ fun hs => ?_
    obtain ⟨p, hp, -⟩ := hs
    generalize Dict.get topo "clients" = clients at hno hp
    cases clients with
    | dict d => exact absurd rfl (hno d)
    | null | bool | int | float | str | list => exact absurd hp List.not_mem_nil

/-- What is repaired without an exception. -/
theorem forgetReports_ok {data topo : Dict} (h : data.get "topology" = .dict topo) :
    (∃ r, forgetReports data = .ok r) ↔
      RecordsOk "agents" (topo.get "clients") ∧
        RecordsOk "assignments" (topo.get "assignments") := by
  unfold forgetReports
  rw [h, ← forgetSection_ok "clients" agentWords (show Text.of "agents" ∉ clientWords by
    decide)]
  simp only
  constructor
  · rintro ⟨r, hr⟩
    obtain ⟨topo', htopo', hr⟩ := Except.bind_eq_ok hr
    obtain ⟨topo'', htopo'', -⟩ := Except.bind_eq_ok hr
    refine ⟨⟨topo', htopo'⟩, ?_⟩
    have hsame : topo'.get "assignments" = topo.get "assignments" := by
      rw [Dict.get, lookup_forgetSection htopo' (by decide), ← Dict.get]
    exact hsame ▸ (forgetSection_ok _ _ (by decide)).mp ⟨topo'', htopo''⟩
  · rintro ⟨⟨topo', htopo'⟩, hassignments⟩
    have hsame : topo'.get "assignments" = topo.get "assignments" := by
      rw [Dict.get, lookup_forgetSection htopo' (by decide), ← Dict.get]
    obtain ⟨topo'', htopo''⟩ := (forgetSection_ok "assignments" assignmentRowWords
      (show Text.of "assignments" ∉ assignmentEntryWords by decide)).mpr
      (hsame ▸ hassignments)
    exact ⟨_, Except.bind_ok_iff.mpr
      ⟨topo', htopo', Except.bind_ok_iff.mpr ⟨topo'', htopo'', rfl⟩⟩⟩

/-- What the dropping leaves of the topology. -/
theorem forgetReports_topology {data topo r : Dict} (h : data.get "topology" = .dict topo)
    (hr : forgetReports data = .ok r) : ∃ topo' : Dict, r.get "topology" = .dict topo' ∧
      found topo' "hosts" = found topo "hosts" ∧
      ((∃ p ∈ (topo'.get "clients").asDict, Splits p.2) ↔
        ∃ p ∈ (topo.get "clients").asDict, Splits p.2) := by
  unfold forgetReports at hr
  rw [h] at hr
  obtain ⟨topo', htopo', hr⟩ := Except.bind_eq_ok hr
  obtain ⟨topo'', htopo'', hr⟩ := Except.bind_eq_ok hr
  have hkept : ∀ k, k ≠ Text.of "deletedAgents" →
      List.lookup k (topo''.filter fun p => p.1 ≠ Text.of "deletedAgents") = topo''.lookup k :=
    fun k hk => by
      rw [lookup_filter_key _ fun k => decide (k ≠ Text.of "deletedAgents"),
        if_pos (by simpa using hk)]
  refine ⟨topo''.filter fun p => p.1 ≠ Text.of "deletedAgents", ?_, ?_, ?_⟩
  · rw [← Except.ok.inj hr, Dict.get_set, if_pos rfl]
  · rw [found, hkept _ (by decide), lookup_forgetSection htopo'' (by decide),
      lookup_forgetSection htopo' (by decide), ← found]
  · rw [← forgetSection_splits htopo', Dict.get, hkept _ (by decide),
      lookup_forgetSection htopo'' (by decide), ← Dict.get]

/-- What the repairs rely on. -/
theorem migrate_ok {data topo : Dict} (h : data.get "topology" = .dict topo) :
    (∃ r, migrate data = .ok r) ↔ RecordsOk "agents" (topo.get "clients") ∧
      RecordsOk "assignments" (topo.get "assignments") ∧
      ((∃ p ∈ (topo.get "clients").asDict, Splits p.2) → (found topo "hosts").isDict = true) := by
  obtain ⟨rekeyed, topo', hrekey, htopo', hsame⟩ := rekey_ok h
  have hget : ∀ k, k ≠ Text.of "serverSlots" → topo'.get k = topo.get k := fun k hk => by
    rw [Dict.get, hsame k hk, ← Dict.get]
  have hfound : found topo' "hosts" = found topo "hosts" := by
    rw [found, hsame _ (by decide), ← found]
  have hforget := forgetReports_ok htopo'
  rw [hget _ (by decide), hget _ (by decide)] at hforget
  rw [← and_assoc, ← hforget]
  have hsplits : ∀ {forgotten : Dict}, forgetReports rekeyed = .ok forgotten →
      ((∃ r, splitHosts forgotten = .ok r) ↔
        ((∃ p ∈ (topo.get "clients").asDict, Splits p.2) →
          (found topo "hosts").isDict = true)) := fun {forgotten} hf => by
    obtain ⟨topo'', htopo'', hhosts, hclients⟩ := forgetReports_topology htopo' hf
    rw [splitHosts_ok htopo'', hhosts, hfound, hclients, hget _ (by decide)]
  unfold migrate
  rw [hrekey]
  constructor
  · rintro ⟨r, hr⟩
    obtain ⟨forgotten, hforgotten, hr⟩ := Except.bind_eq_ok (x := forgetReports rekeyed) hr
    obtain ⟨split, hsplit, -⟩ := Except.bind_eq_ok hr
    exact ⟨⟨forgotten, hforgotten⟩, (hsplits hforgotten).mp ⟨split, hsplit⟩⟩
  · rintro ⟨⟨forgotten, hforgotten⟩, hhosts⟩
    obtain ⟨split, hsplit⟩ := (hsplits hforgotten).mpr hhosts
    exact ⟨_, Except.bind_ok_iff.mpr ⟨rekeyed, rfl, Except.bind_ok_iff.mpr
      ⟨forgotten, hforgotten, Except.bind_ok_iff.mpr ⟨split, hsplit, rfl⟩⟩⟩⟩

/-- **When the document is loaded**: exactly if its sections are of the shape that the code
reads. -/
theorem loadAdmin_ok_iff {v : Value} : (∃ r, loadAdmin v = .ok r) ↔ Seedable v := by
  unfold loadAdmin
  simp only [Except.bind_ok_iff]
  have hrepaired : ∀ {seeded topo : Dict},
      seeded.get "topology" = .dict (subsections topologyKeys topo) →
      ((∃ r, migrate seeded = .ok r) ↔ TopologyOk topo) := fun {seeded topo} h => by
    rw [migrate_ok h, found_subsections, get_subsections _ (by decide),
      get_subsections _ (by decide)]
    exact ⟨fun ⟨hc, ha, hh⟩ => ⟨hc, ha, hh⟩, fun ⟨hc, ha, hh⟩ => ⟨hc, ha, hh⟩⟩
  constructor
  · rintro ⟨r, seeded, hseed, hr⟩
    cases v with
    | dict data =>
      obtain ⟨monitor, topo, pricing, hm, ht, hp, rfl⟩ := seed_ok.mp hseed
      refine ⟨data, rfl, by rw [hm]; rfl, by rw [hp]; rfl, topo, ht, ?_⟩
      exact (hrepaired (seeded_topology _ _ _ _)).mp ⟨r, hr⟩
    | null | bool | int | float | str | list => exact nomatch hseed
  · rintro ⟨data, rfl, h⟩
    obtain ⟨topo, ht, htopo⟩ := h.topology
    obtain ⟨r, hr⟩ := (hrepaired (seeded_topology data
      (found data "monitor").asDict topo (found data "localPricing").asDict)).mpr htopo
    exact ⟨r, _, seed_ok.mpr ⟨_, topo, _, dict_of_isDict h.monitor, ht,
      dict_of_isDict h.localPricing, rfl⟩, hr⟩

end Documents
