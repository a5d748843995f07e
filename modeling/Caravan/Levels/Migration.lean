import Caravan.Levels.Models

/-!
# The levels of the models, and their move off the rows

`ModelLevels` reads the levels of each model of each account from the cloud document: those kept
under `levels`, and for a model that has none there those its rows carry, the stricter of each.
`PoolDesk.migrate_rows` moves what the rows carry under `levels`, once.

* `readStored_stored` — what is stored is read as it was;
* `migrate_rows_levels` — the move leaves each model the levels it had;
* `migrate_rows_again` — and is not made a second time.

A document is a dictionary as `json.loads` makes it, of any shape.
-/

namespace Levels

open Python Proxy.Pool

variable (I : Interp)

/-! ### Reading the levels -/

/-- `ModelLevels.kept` -/
abbrev Kept := List ((Text × Text) × Pair)

/-- An entry of `levels`, of an account and a model. -/
def readEntry (account : Text) (kept : Kept) (entry : Text × Value) : Except Error Kept :=
  match entry.2 with
  | .dict pair =>
    if account.strip ≠ [] ∧ entry.1.strip ≠ [] then do
      let pair ← clean I pair
      return Assoc.set kept (account.strip, entry.1.strip) pair
    else .ok kept
  | _ => .ok kept

/-- The models of an account. -/
def readAccount (kept : Kept) (account : Text × Value) : Except Error Kept :=
  match account.2 with
  | .dict models => models.foldlM (readEntry I account.1) kept
  | _ => .ok kept

/-- What `levels` keeps. -/
def readStored (stored : Dict) : Except Error Kept := stored.foldlM (readAccount I) []

/-- `data.get("pools") or []` -/
def poolsOf (data : Dict) : Except Error (List Value) :=
  ((Dict.get data "pools").or (.list [])).iter

/-- `(pool.get("steps") or []) if isinstance(pool, dict) else []` -/
def stepsOf : Value → Except Error (List Value)
  | .dict pool => ((Dict.get pool "steps").or (.list [])).iter
  | _ => .ok []

/-- `any(key in step for key in self.KEYS)` -/
def carries (step : Dict) : Bool := Dict.has step "stopAt" || Dict.has step "switchAt"

/-- A row of an old file, beside what `levels` keeps. -/
def readStep (kept legacy : Kept) : Value → Except Error Kept
  | .dict step =>
    if carries step = false then .ok legacy
    else do
      let account ← strOf I ((Dict.get step "accountId").or (.str []))
      let model ← strOf I ((Dict.get step "model").or (.str []))
      let key := (account.strip, model.strip)
      if key.1 ≠ [] ∧ key.2 ≠ [] ∧ Assoc.get kept key = none then
        let pair ← clean I step
        match Assoc.get legacy key with
        | some old => do
          let pair ← stricter I old pair
          return Assoc.set legacy key pair
        | none => return Assoc.set legacy key pair
      else return legacy
  | _ => .ok legacy

/-- The rows of a pool. -/
def readPool (kept legacy : Kept) (pool : Value) : Except Error Kept := do
  let steps ← stepsOf pool
  steps.foldlM (readStep I kept) legacy

/-- `ModelLevels(data)` -/
def modelLevels (data : Dict) : Except Error Kept := do
  let kept ← readStored I (Dict.get data "levels").asDict
  let pools ← poolsOf data
  let legacy ← pools.foldlM (readPool I kept) []
  return legacy.foldl (fun kept x => Assoc.set kept x.1 x.2) kept

/-- `dict(UsageReserve.NEW_STEP)` -/
def newStep : UsageReserve := ⟨[(18000, 10), (604800, 10)], by decide⟩

/-- `ModelLevels.of` -/
def levelsOf (kept : Kept) (account model : Text) : Pair :=
  (Assoc.get kept (account.strip, model.strip)).getD ⟨newStep, newStep⟩

/-! ### Writing them -/

/-- `out.setdefault(account, {})[model] = …` -/
def storeEntry (out : Dict) (x : (Text × Text) × Pair) : Dict :=
  Dict.set out x.1.1 (.dict (Dict.set (Dict.get out x.1.1).asDict x.1.2 (.dict x.2.entry)))

/-- `sorted(self.kept.items())` -/
def sorted (kept : Kept) : Kept :=
  kept.insertionSort fun a b => a.1.1 < b.1.1 ∨ a.1.1 = b.1.1 ∧ a.1.2 ≤ b.1.2

/-- `ModelLevels.stored` -/
def stored (kept : Kept) : Dict := (sorted kept).foldl storeEntry []

/-! ### The move -/

/-- `ROWS_MIGRATION` -/
def ROWS_MIGRATION : Text := "pools-of-rows-2026-10"

/-- `item in v`, of a text. -/
def within (item : Text) : Value → Except Error Bool
  | .list vs => .ok (vs.any fun | .str t => t = item | _ => false)
  | .dict d => .ok (Dict.has d item)
  | .str t => .ok (t.contains item)
  | _ => .error .type

/-- `sorted(set(v) | {item})`, of texts: of anything else one of the two raises. -/
def stamped (item : Text) (v : Value) : Except Error Value := do
  let stamps ← (← v.iter).mapM fun | .str t => .ok t | _ => .error Error.type
  return .list (((stamps ++ [item]).dedup.insertionSort (· ≤ ·)).map Value.str)

/-- `CloudPools.legacy` -/
def oldForm (data : Dict) : Except Error Bool :=
  if (Dict.get data "blocks").truthy then .ok true
  else do
    let pools ← poolsOf data
    return pools.any fun | .dict pool => Dict.has pool "members" | _ => false

/-- `step.pop(key, None)`, of the levels of a row. -/
def bareStep : Value → Value
  | .dict step => .dict (step.filter fun p => p.1 ≠ "stopAt" ∧ p.1 ≠ "switchAt")
  | v => v

/-- The entry of a key, changed where it stands. -/
def changeAt (k : Text) (f : Value → Value) (d : Dict) : Dict :=
  d.map fun p => if p.1 = k then (p.1, f p.2) else p

/-- Each item of a list changed. -/
def changeEach (f : Value → Value) : Value → Value
  | .list vs => .list (vs.map f)
  | v => v

/-- A pool without the levels of its rows. -/
def barePool : Value → Value
  | .dict pool => .dict (changeAt "steps" (changeEach bareStep) pool)
  | v => v

/-- A document without the levels of its rows. -/
def bare (data : Dict) : Dict := changeAt "pools" (changeEach barePool) data

/-- The rows of a pool that carry levels. -/
def moving (pool : Value) : Except Error ℕ := do
  let steps ← stepsOf pool
  return steps.countP fun | .dict step => carries step | _ => false

/-- `PoolDesk.migrate_rows`: the document it saves, with the models and the rows it counts. -/
def migrateRows (data : Dict) : Except Error (Option (Dict × ℕ × ℕ)) := do
  let migrations := (Dict.get data "migrations").or (.list [])
  if ← within ROWS_MIGRATION migrations then return none
  if ← oldForm data then return none
  let levels ← modelLevels I data
  let counts ← (← poolsOf data).mapM moving
  let kept := stored levels
  let stamps ← stamped ROWS_MIGRATION migrations
  let saved := Dict.set (Dict.set (bare data) "levels" (.dict kept)) "migrations" stamps
  return some (saved, (kept.map fun p => p.2.asDict.length).sum, counts.sum)

/-! ### Kept as the file keeps them -/

/-- An entry of the levels: its names have no blanks around them, and its pair was cleaned. -/
structure Named (x : (Text × Text) × Pair) : Prop where
  account : x.1.1.strip = x.1.1 ∧ x.1.1 ≠ []
  model : x.1.2.strip = x.1.2 ∧ x.1.2 ≠ []
  clean : x.2.Clean

/-- Levels that were read. -/
structure Good (kept : Kept) : Prop where
  distinct : Assoc.Distinct kept
  named : ∀ x ∈ kept, Named x

theorem good_nil : Good [] := ⟨List.nodup_nil, fun _ h => (nomatch h)⟩

theorem Good.set {kept : Kept} (h : Good kept) {x : (Text × Text) × Pair} (hx : Named x) :
    Good (Assoc.set kept x.1 x.2) := by
  refine ⟨h.distinct.set _ _, fun y hy => ?_⟩
  rcases Assoc.mem_set hy with rfl | hy
  · exact hx
  · exact h.named y hy

/-- What was stripped stays as it is. -/
theorem named_strip {account model : Text} {p : Pair} (ha : account.strip ≠ [])
    (hm : model.strip ≠ []) (hp : p.Clean) : Named ((account.strip, model.strip), p) :=
  ⟨⟨Text.strip_strip _, ha⟩, ⟨Text.strip_strip _, hm⟩, hp⟩

variable {I}

theorem readEntry_good {account : Text} {kept kept' : Kept} {entry : Text × Value} (h : Good kept)
    (hread : readEntry I account kept entry = .ok kept') : Good kept' := by
  unfold readEntry at hread
  split at hread
  · split at hread
    · next hnames =>
      obtain ⟨p, hp, hread⟩ := Except.bind_eq_ok hread
      exact Except.ok.inj hread ▸ h.set (named_strip hnames.1 hnames.2 (clean_clean hp))
    · exact Except.ok.inj hread ▸ h
  · exact Except.ok.inj hread ▸ h

theorem readStored_good {out : Dict} {kept : Kept} (h : readStored I out = .ok kept) :
    Good kept := by
  refine Except.foldlM_inv (fun kept account kept' _ hkept hread => ?_) good_nil h
  unfold readAccount at hread
  split at hread
  · exact Except.foldlM_inv (fun _ _ _ _ hk hr => readEntry_good hk hr) hkept hread
  · exact Except.ok.inj hread ▸ hkept

theorem readStep_good {kept legacy legacy' : Kept} {step : Value} (h : Good legacy)
    (hread : readStep I kept legacy step = .ok legacy') : Good legacy' := by
  unfold readStep at hread
  split at hread
  · split at hread
    · exact Except.ok.inj hread ▸ h
    · obtain ⟨account, -, hread⟩ := Except.bind_eq_ok hread
      obtain ⟨model, -, hread⟩ := Except.bind_eq_ok hread
      dsimp only at hread
      split at hread
      · next hkey =>
        obtain ⟨p, hp, hread⟩ := Except.bind_eq_ok hread
        have hnamed := fun {q : Pair} (hq : q.Clean) => named_strip hkey.1 hkey.2.1 hq
        split at hread
        · obtain ⟨q, hq, hread⟩ := Except.bind_eq_ok hread
          exact Except.ok.inj hread ▸ h.set (hnamed (clean_clean hq))
        · exact Except.ok.inj hread ▸ h.set (hnamed (clean_clean hp))
      · exact Except.ok.inj hread ▸ h
  · exact Except.ok.inj hread ▸ h

theorem modelLevels_good {data : Dict} {kept : Kept} (h : modelLevels I data = .ok kept) :
    Good kept := by
  obtain ⟨kept, hkept, h⟩ := Except.bind_eq_ok h
  obtain ⟨pools, -, h⟩ := Except.bind_eq_ok h
  obtain ⟨legacy, hlegacy, h⟩ := Except.bind_eq_ok h
  obtain rfl := Except.ok.inj h
  have hgood : Good legacy := by
    refine Except.foldlM_inv (fun legacy pool legacy' _ hl hread => ?_) good_nil hlegacy
    obtain ⟨steps, -, hread⟩ := Except.bind_eq_ok hread
    exact Except.foldlM_inv (fun _ _ _ _ hl hr => readStep_good hl hr) hl hread
  have hall : ∀ (l kept : Kept), (∀ x ∈ l, Named x) → Good kept →
      Good (l.foldl (fun kept x => Assoc.set kept x.1 x.2) kept) := by
    intro l
    induction l with
    | nil => exact fun _ _ h => h
    | cons x l ih =>
      exact fun kept hl h => ih _ (fun y hy => hl y (List.mem_cons_of_mem _ hy))
        (h.set (hl x List.mem_cons_self))
  exact hall legacy kept hgood.named (readStored_good hkept)

/-! ### Reading back -/

/-- The levels by account, and of an account by model. -/
abbrev Nested := List (Text × List (Text × Pair))

/-- The models of an account as the file keeps them. -/
def modelsValue (models : List (Text × Pair)) : Value :=
  .dict (models.map fun p => (p.1, .dict p.2.entry))

/-- All of them as the file keeps them. -/
def Nested.value (n : Nested) : Dict := n.map fun p => (p.1, modelsValue p.2)

def Nested.put (n : Nested) (x : (Text × Text) × Pair) : Nested :=
  Assoc.set n x.1.1 (Assoc.set ((Assoc.get n x.1.1).getD []) x.1.2 x.2)

def Nested.get (n : Nested) (k : Text × Text) : Option Pair :=
  (Assoc.get n k.1).bind fun models => Assoc.get models k.2

theorem lookup_map_value {V : Type} (m : List (Text × V)) (f : V → Value) (k : Text) :
    (m.map fun p => (p.1, f p.2)).lookup k = (Assoc.get m k).map f := by
  rw [Assoc.lookup_eq_get]
  induction m with
  | nil => rfl
  | cons p m ih =>
    rw [List.map_cons, Assoc.get_cons, Assoc.get_cons, ih]
    split <;> rfl

theorem set_map_value {V : Type} (m : List (Text × V)) (f : V → Value) (k : Text) (v : V) :
    Dict.set (m.map fun p => (p.1, f p.2)) k (f v) =
      (Assoc.set m k v).map fun p => (p.1, f p.2) := by
  unfold Dict.set Assoc.set Dict.has
  rw [lookup_map_value, Option.isSome_map]
  split
  · rw [List.map_map, List.map_map]
    refine List.map_congr_left fun p _ => ?_
    dsimp only [Function.comp]
    split <;> rfl
  · rw [List.map_append]
    rfl

theorem storeEntry_value (n : Nested) (x : (Text × Text) × Pair) :
    storeEntry n.value x = (n.put x).value := by
  have hmodels : (Dict.get n.value x.1.1).asDict =
      ((Assoc.get n x.1.1).getD []).map fun p => (p.1, Value.dict p.2.entry) := by
    unfold Dict.get Nested.value
    rw [lookup_map_value]
    cases Assoc.get n x.1.1 <;> rfl
  unfold storeEntry
  rw [hmodels, set_map_value _ (fun p : Pair => .dict p.entry)]
  exact set_map_value n modelsValue x.1.1 _

/-- No account stands twice, and no model of one. -/
structure Nested.Distinct (n : Nested) : Prop where
  accounts : Assoc.Distinct n
  models : ∀ p ∈ n, Assoc.Distinct p.2

theorem Nested.get_put (n : Nested) (x : (Text × Text) × Pair) (k : Text × Text) :
    (n.put x).get k = if k = x.1 then some x.2 else n.get k := by
  unfold Nested.get Nested.put
  rw [Assoc.get_set]
  by_cases haccount : k.1 = x.1.1
  · rw [if_pos haccount, Option.bind_some, Assoc.get_set, haccount]
    by_cases hmodel : k.2 = x.1.2
    · rw [if_pos hmodel, if_pos (Prod.ext haccount hmodel)]
    · rw [if_neg hmodel, if_neg fun h => hmodel (congrArg Prod.snd h)]
      cases Assoc.get n x.1.1 <;> rfl
  · rw [if_neg haccount, if_neg fun h => haccount (congrArg Prod.fst h)]

theorem Nested.Distinct.put {n : Nested} (h : n.Distinct) (x : (Text × Text) × Pair) :
    (n.put x).Distinct := by
  refine ⟨h.accounts.set _ _, fun p hp => ?_⟩
  rcases Assoc.mem_set hp with rfl | hp
  · refine Assoc.Distinct.set ?_ _ _
    cases hget : Assoc.get n x.1.1 with
    | none => exact List.nodup_nil
    | some models => exact h.models _ (Assoc.mem_of_get hget)
  · exact h.models p hp

/-- All the levels, under their accounts and models. -/
def Nested.flat (n : Nested) : Kept := n.flatMap fun p => p.2.map fun q => ((p.1, q.1), q.2)

theorem mem_flat {n : Nested} {x : (Text × Text) × Pair} :
    x ∈ n.flat ↔ ∃ p ∈ n, p.1 = x.1.1 ∧ (x.1.2, x.2) ∈ p.2 := by
  unfold Nested.flat
  simp only [List.mem_flatMap, List.mem_map]
  constructor
  · rintro ⟨p, hp, q, hq, rfl⟩
    exact ⟨p, hp, rfl, hq⟩
  · rintro ⟨p, hp, heq, hx⟩
    exact ⟨p, hp, _, hx, Prod.ext (Prod.ext heq rfl) rfl⟩

theorem Nested.Distinct.flat {n : Nested} (h : n.Distinct) : Assoc.Distinct n.flat := by
  obtain ⟨haccounts, hmodels⟩ := h
  induction n with
  | nil => exact List.nodup_nil
  | cons p n ih =>
    obtain ⟨hp, haccounts⟩ := List.nodup_cons.mp haccounts
    have hrest := ih haccounts fun q hq => hmodels q (List.mem_cons_of_mem _ hq)
    have hown : Assoc.Distinct (p.2.map fun q => ((p.1, q.1), q.2)) := by
      have hinj : Function.Injective fun m : Text => (p.1, m) := fun _ _ h => congrArg Prod.snd h
      have hkeys : (p.2.map fun q => ((p.1, q.1), q.2)).map Prod.fst =
          (p.2.map Prod.fst).map fun m => (p.1, m) := by
        rw [List.map_map, List.map_map]
        rfl
      rw [Assoc.Distinct, hkeys]
      exact (hmodels p List.mem_cons_self).map hinj
    rw [Assoc.Distinct, Nested.flat, List.flatMap_cons, List.map_append, List.nodup_append]
    refine ⟨hown, hrest, fun a ha b hb heq => hp ?_⟩
    -- another account's entries are under that account
    obtain ⟨x, hx, rfl⟩ := List.mem_map.mp ha
    obtain ⟨q, -, rfl⟩ := List.mem_map.mp hx
    obtain ⟨y, hy, rfl⟩ := List.mem_map.mp hb
    obtain ⟨r, hr, hry, -⟩ := mem_flat.mp hy
    exact List.mem_map.mpr ⟨r, hr, hry.trans (congrArg Prod.fst heq.symm)⟩

theorem Nested.Distinct.get_flat {n : Nested} (h : n.Distinct) (k : Text × Text) :
    Assoc.get n.flat k = n.get k := by
  ext p
  rw [← Option.mem_def, ← Option.mem_def, Option.mem_def, Option.mem_def,
    ← h.flat.mem_iff_get, mem_flat, Nested.get, Option.bind_eq_some_iff]
  constructor
  · rintro ⟨q, hq, heq, hp⟩
    have hget : Assoc.get n k.1 = some q.2 := h.accounts.mem_iff_get.mp (heq ▸ hq)
    exact ⟨q.2, hget, (h.models q hq).mem_iff_get.mp hp⟩
  · rintro ⟨models, hget, hp⟩
    exact ⟨_, Assoc.mem_of_get hget, rfl, Assoc.mem_of_get hp⟩

/-- Nested levels are read back under their accounts and models. -/
theorem readStored_value (hI : I.Ascii) {n : Nested} (hnamed : ∀ x ∈ n.flat, Named x) :
    readStored I n.value =
      .ok (n.flat.foldl (fun kept x => Assoc.set kept x.1 x.2) []) := by
  have hentry : ∀ p ∈ n, ∀ kept : Kept, ∀ q ∈ p.2, readEntry I p.1 kept (q.1, .dict q.2.entry) =
      .ok (Assoc.set kept (p.1, q.1) q.2) := by
    intro p hp kept q hq
    have hx := hnamed ((p.1, q.1), q.2) (mem_flat.mpr ⟨p, hp, rfl, hq⟩)
    have hnames : p.1.strip ≠ [] ∧ q.1.strip ≠ [] :=
      ⟨hx.account.1.symm ▸ hx.account.2, hx.model.1.symm ▸ hx.model.2⟩
    unfold readEntry
    dsimp only
    rw [if_pos hnames, clean_entry hI hx.clean]
    show Except.ok (Assoc.set kept (p.1.strip, q.1.strip) q.2) = _
    rw [hx.account.1, hx.model.1]
  have haccount : ∀ (kept : Kept), ∀ p ∈ n, readAccount I kept (p.1, modelsValue p.2) =
      .ok (p.2.foldl (fun kept q => Assoc.set kept (p.1, q.1) q.2) kept) := by
    intro kept p hp
    show (p.2.map fun q => (q.1, Value.dict q.2.entry)).foldlM (readEntry I p.1) kept = _
    rw [List.foldlM_map]
    exact Except.foldlM_ok (fun kept q hq => hentry p hp kept q hq) kept
  unfold readStored Nested.value
  rw [List.foldlM_map, Except.foldlM_ok haccount]
  unfold Nested.flat
  rw [List.foldl_flatMap]
  simp only [List.foldl_map]

/-- **What is stored is read as it was.** -/
theorem readStored_stored (hI : I.Ascii) {kept : Kept} (h : Good kept) :
    ∃ kept', readStored I (stored kept) = .ok kept' ∧
      ∀ k, Assoc.get kept' k = Assoc.get kept k := by
  -- storing the entries one after the other builds nested levels, each of which holds them
  have hbuild : ∀ (l : Kept), Assoc.Distinct l → ∀ n : Nested, n.Distinct →
      ∃ n' : Nested, l.foldl storeEntry n.value = n'.value ∧ n'.Distinct ∧
        ∀ k, n'.get k = (Assoc.get l k).or (n.get k) := by
    intro l
    induction l with
    | nil => exact fun _ n hn => ⟨n, rfl, hn, fun _ => rfl⟩
    | cons x l ih =>
      intro hl n hn
      obtain ⟨hx, hl⟩ := List.nodup_cons.mp hl
      obtain ⟨n', hn', hdistinct, hget⟩ := ih hl (n.put x) (hn.put x)
      refine ⟨n', by rw [List.foldl_cons, storeEntry_value, hn'], hdistinct, fun k => ?_⟩
      rw [hget, Nested.get_put, Assoc.get_cons]
      by_cases hk : k = x.1
      · have hnone : Assoc.get l k = none := by
          rw [Option.eq_none_iff_forall_ne_some]
          intro v hv
          exact hx (List.mem_map.mpr ⟨_, Assoc.mem_of_get hv, hk⟩)
        rw [hnone, if_pos hk, if_pos hk.symm]
        rfl
      · rw [if_neg hk, if_neg (Ne.symm hk)]
  have hperm : (sorted kept).Perm kept := List.perm_insertionSort _ _
  have hsorted : Assoc.Distinct (sorted kept) := (hperm.map Prod.fst).nodup_iff.mpr h.distinct
  obtain ⟨n, hn, hdistinct, hget⟩ := hbuild (sorted kept) hsorted [] ⟨List.nodup_nil, by simp⟩
  have hsame : ∀ k, n.get k = Assoc.get kept k := fun k => by
    rw [hget, Assoc.get_perm hperm hsorted]
    exact Option.or_none
  have hnamed : ∀ x ∈ n.flat, Named x := by
    intro x hx
    have hx' := hdistinct.flat.mem_iff_get.mp hx
    rw [hdistinct.get_flat, hsame] at hx'
    exact h.named x (Assoc.mem_of_get hx')
  refine ⟨_, (congrArg (readStored I) hn).trans (readStored_value hI hnamed), fun k => ?_⟩
  rw [Assoc.get_foldl_set hdistinct.flat, hdistinct.get_flat, hsame]
  exact Option.or_none

/-! ### After the move -/

theorem get_changeAt (k : Text) (f : Value → Value) (hf : f .null = .null) (d : Dict) (k' : Text) :
    Dict.get (changeAt k f d) k' = if k' = k then f (Dict.get d k') else Dict.get d k' := by
  unfold Dict.get changeAt
  induction d with
  | nil =>
    split
    · exact hf.symm
    · rfl
  | cons p d ih =>
    obtain ⟨a, v⟩ := p
    rw [List.map_cons]
    by_cases ha : k' = a
    · subst ha
      by_cases hk : k' = k
      · simp [hk]
      · simp [hk]
    · have hne : (k' == a) = false := beq_eq_false_iff_ne.mpr ha
      by_cases hak : a = k
      · rw [if_pos hak, List.lookup_cons, hne, List.lookup_cons, hne, ih]
      · rw [if_neg hak, List.lookup_cons, hne, List.lookup_cons, hne, ih]

/-- Changing the items of what is gone through changes nothing else. -/
theorem iter_changeEach {f : Value → Value} (hf : ∀ t, f (.str t) = .str t) {v : Value}
    {items : List Value} (h : (v.or (.list [])).iter = .ok items) :
    ((changeEach f v).or (.list [])).iter = .ok (items.map f) := by
  have hstrs {A : Type} (l : List A) (g : A → Text) :
      (l.map fun a => Value.str (g a)).map f = l.map fun a => Value.str (g a) := by
    rw [List.map_map]
    exact List.map_congr_left fun a _ => hf (g a)
  by_cases hv : v.truthy
  · rw [Value.or, if_pos hv] at h
    cases v with
    | list vs =>
      obtain rfl := Except.ok.inj h
      have hne : (changeEach f (.list vs)).truthy = true := by
        cases vs with
        | nil => cases hv
        | cons _ _ => rfl
      rw [Value.or, if_pos hne]
      rfl
    | dict d =>
      obtain rfl := Except.ok.inj h
      show ((Value.dict d).or (.list [])).iter = _
      rw [Value.or, if_pos hv]
      exact congrArg Except.ok (hstrs d Prod.fst).symm
    | str t =>
      obtain rfl := Except.ok.inj h
      show ((Value.str t).or (.list [])).iter = _
      rw [Value.or, if_pos hv]
      exact congrArg Except.ok (hstrs t ([·])).symm
    | _ => cases h
  · rw [Value.or, if_neg hv] at h
    obtain rfl := Except.ok.inj h
    have hfalse : (changeEach f v).truthy = false := by
      cases v with
      | list vs =>
        cases vs with
        | nil => rfl
        | cons _ _ => exact absurd rfl hv
      | _ => exact Bool.eq_false_of_not_eq_true hv
    rw [Value.or, hfalse]
    rfl

theorem stepsOf_barePool {pool : Value} {steps : List Value} (h : stepsOf pool = .ok steps) :
    stepsOf (barePool pool) = .ok (steps.map bareStep) := by
  cases pool with
  | dict pool =>
    show ((Dict.get (changeAt "steps" (changeEach bareStep) pool) "steps").or (.list [])).iter = _
    rw [get_changeAt _ _ rfl, if_pos rfl]
    exact iter_changeEach (fun _ => rfl) h
  | _ =>
    obtain rfl := Except.ok.inj h
    rfl

/-- A row without levels is passed over. -/
theorem readStep_bareStep (kept legacy : Kept) (step : Value) :
    readStep I kept legacy (bareStep step) = .ok legacy := by
  cases step with
  | dict step =>
    have hnone : ∀ k : Text, k = "stopAt" ∨ k = "switchAt" →
        Dict.has (step.filter fun p => p.1 ≠ "stopAt" ∧ p.1 ≠ "switchAt") k = false := by
      intro k hk
      unfold Dict.has
      rw [lookup_filter_key step (fun k => k ≠ "stopAt" ∧ k ≠ "switchAt"), if_neg]
      · rfl
      · rcases hk with rfl | rfl <;> simp
    have hcarries : carries (step.filter fun p => p.1 ≠ "stopAt" ∧ p.1 ≠ "switchAt") = false := by
      rw [carries, hnone _ (.inl rfl), hnone _ (.inr rfl)]
      rfl
    exact if_pos hcarries
  | _ => rfl

theorem readPool_barePool {kept legacy legacy' : Kept} {pool : Value}
    (h : readPool I kept legacy pool = .ok legacy') (k l : Kept) :
    readPool I k l (barePool pool) = .ok l := by
  obtain ⟨steps, hsteps, -⟩ := Except.bind_eq_ok h
  unfold readPool
  rw [stepsOf_barePool hsteps]
  show (steps.map bareStep).foldlM (readStep I k) l = _
  rw [List.foldlM_map, Except.foldlM_ok (g := fun l _ => l)
    fun l step _ => readStep_bareStep k l step]
  exact congrArg Except.ok (List.foldl_fixed steps)

section Moved

variable {data saved : Dict} {counts : ℕ × ℕ}
  (h : migrateRows I data = .ok (some (saved, counts)))

include h

/-- What was read and written when the move was made. -/
theorem migrateRows_spec : ∃ kept stamps, modelLevels I data = .ok kept ∧
    stamped ROWS_MIGRATION ((Dict.get data "migrations").or (.list [])) = .ok stamps ∧
    saved = Dict.set (Dict.set (bare data) "levels" (.dict (stored kept))) "migrations" stamps := by
  obtain ⟨done, -, h⟩ := Except.bind_eq_ok h
  split at h
  · cases h
  obtain ⟨old, -, h⟩ := Except.bind_eq_ok h
  split at h
  · cases h
  obtain ⟨kept, hkept, h⟩ := Except.bind_eq_ok h
  obtain ⟨pools, -, h⟩ := Except.bind_eq_ok h
  obtain ⟨moved, -, h⟩ := Except.bind_eq_ok h
  obtain ⟨stamps, hstamps, h⟩ := Except.bind_eq_ok h
  refine ⟨kept, stamps, hkept, hstamps, ?_⟩
  exact congrArg Prod.fst (Option.some.inj (Except.ok.inj h)).symm

/-- **The move** leaves each model the levels it had. -/
theorem migrate_rows_levels (hI : I.Ascii) : ∃ kept kept', modelLevels I data = .ok kept ∧
    modelLevels I saved = .ok kept' ∧
      ∀ account model, levelsOf kept' account model = levelsOf kept account model := by
  obtain ⟨kept, stamps, hkept, -, rfl⟩ := migrateRows_spec h
  obtain ⟨kept', hkept', hsame⟩ := readStored_stored hI (modelLevels_good hkept)
  refine ⟨kept, kept', hkept, ?_, fun account model => ?_⟩
  · obtain ⟨before, -, hread⟩ := Except.bind_eq_ok hkept
    obtain ⟨pools, hpools, hread⟩ := Except.bind_eq_ok hread
    obtain ⟨legacy, hlegacy, -⟩ := Except.bind_eq_ok hread
    -- the rows that are left carry nothing
    have hbare : poolsOf (Dict.set (Dict.set (bare data) "levels" (.dict (stored kept)))
        "migrations" stamps) = .ok (pools.map barePool) := by
      unfold poolsOf bare
      rw [Dict.get_set, if_neg (by decide), Dict.get_set, if_neg (by decide),
        get_changeAt _ _ rfl, if_pos rfl]
      exact iter_changeEach (fun _ => rfl) hpools
    have hnone : (pools.map barePool).foldlM (readPool I kept') [] = .ok [] := by
      rw [List.foldlM_map, Except.foldlM_ok (g := fun l _ => l) fun l pool hpool => by
        obtain ⟨c, c', hc⟩ := Except.foldlM_mem hlegacy hpool
        exact readPool_barePool hc kept' l]
      exact congrArg Except.ok (List.foldl_fixed pools)
    unfold modelLevels
    rw [Dict.get_set, if_neg (by decide), Dict.get_set, if_pos rfl, hbare]
    show (readStored I (stored kept) >>= _) = _
    rw [hkept']
    show ((pools.map barePool).foldlM (readPool I kept') [] >>= _) = _
    rw [hnone]
    rfl
  · unfold levelsOf
    rw [hsame]

/-- **The move is not made again.** -/
theorem migrate_rows_again : migrateRows I saved = .ok none := by
  obtain ⟨kept, stamps, -, hstamps, rfl⟩ := migrateRows_spec h
  obtain ⟨items, -, hstamps⟩ := Except.bind_eq_ok hstamps
  obtain ⟨texts, -, hstamps⟩ := Except.bind_eq_ok hstamps
  obtain rfl := Except.ok.inj hstamps
  set names := (texts ++ [ROWS_MIGRATION]).dedup.insertionSort (· ≤ ·) with hnames
  have hmem : ROWS_MIGRATION ∈ names := by
    rw [hnames, List.mem_insertionSort, List.mem_dedup]
    exact List.mem_append_right _ (List.mem_singleton_self _)
  have hwithin : within ROWS_MIGRATION (.list (names.map Value.str)) = .ok true := by
    refine congrArg Except.ok (List.any_eq_true.mpr ⟨_, List.mem_map.mpr ⟨_, hmem, rfl⟩, ?_⟩)
    exact decide_eq_true rfl
  have htruthy : (Value.list (names.map Value.str)).truthy = true := by
    obtain ⟨t, ts, hcons⟩ := List.exists_cons_of_ne_nil (List.ne_nil_of_mem hmem)
    rw [hcons]
    rfl
  unfold migrateRows
  rw [Dict.get_set, if_pos rfl, Value.or, if_pos htruthy]
  dsimp only
  rw [hwithin]
  rfl

end Moved

/-- **Levels are consistent.** A row its stop closes is closed for its switch, cleaning is
idempotent, and the move off the rows leaves each model its levels and is made once. -/
theorem levels_consistent (hI : I.Ascii) :
    (∀ entry p, clean I entry = .ok p →
      (∀ page now hit, verdictOf I p.stopAt page now = .ok (some hit) →
        ∃ hit', verdictOf I p.switchAt page now = .ok (some hit')) ∧
      clean I p.entry = .ok p) ∧
    ∀ data saved counts, migrateRows I data = .ok (some (saved, counts)) →
      (∃ kept kept', modelLevels I data = .ok kept ∧ modelLevels I saved = .ok kept' ∧
        ∀ account model, levelsOf kept' account model = levelsOf kept account model) ∧
      migrateRows I saved = .ok none :=
  ⟨fun _ _ h => ⟨fun _ _ _ hv => closed_for_switch (clean_clean h) hv,
    clean_entry hI (clean_clean h)⟩,
    fun _ _ _ h => ⟨migrate_rows_levels h hI, migrate_rows_again h⟩⟩

/-- A pool of the old form, two rows of which name one model. -/
def oldRows : Dict := [("pools", .list [.dict [("id", .str "p"), ("steps", .list [
  .dict [("id", .str "r1"), ("accountId", .str "sub"), ("model", .str "gpt"),
    ("stopAt", .dict [("18000", .int 20)])],
  .dict [("id", .str "r2"), ("accountId", .str "sub"), ("model", .str "gpt"),
    ("switchAt", .dict [("18000", .int 40)])]])]])]

/-- The model keeps the stricter stop of the two, and the move is not made again. -/
theorem levels_consistent_rows : ∃ saved counts kept,
    migrateRows Interp.ascii oldRows = .ok (some (saved, counts)) ∧
    modelLevels Interp.ascii saved = .ok kept ∧
    level (levelsOf kept "sub" "gpt").stopAt 18000 = 40 ∧
    migrateRows Interp.ascii saved = .ok none := by
  have hmoved : (migrateRows Interp.ascii oldRows).toOption.join.isSome = true := by
    decide
  have hbefore : (modelLevels Interp.ascii oldRows).map
      (fun kept => level (levelsOf kept "sub" "gpt").stopAt 18000) = .ok 40 := by
    decide
  cases hm : migrateRows Interp.ascii oldRows with
  | error e =>
    rw [hm] at hmoved
    cases hmoved
  | ok saved =>
    cases saved with
    | none =>
      rw [hm] at hmoved
      cases hmoved
    | some saved =>
      obtain ⟨⟨kept, kept', hkept, hkept', hsame⟩, hagain⟩ :=
        (levels_consistent Interp.ascii_ascii).2 oldRows saved.1 saved.2 hm
      refine ⟨saved.1, saved.2, kept', rfl, hkept', ?_, hagain⟩
      rw [hkept] at hbefore
      rw [hsame]
      exact Except.ok.inj hbefore

end Levels
