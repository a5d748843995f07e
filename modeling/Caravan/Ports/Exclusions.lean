import Caravan.Python.Dict
import Caravan.Stores.ModelGc

/-!
# Batches that are applied one by one

`set_exclusions` adds and removes the ports that no cell is to be put on, in one call. Each item is
checked and applied before the next one is looked at, in the document that everything reads, and
the document is saved at the end: a refusal on the way leaves what came before it.

* `lookup_writes` — the exclusions after a call, over the writes it made;
* `batches_iff` — a call that raises leaves the exclusions as they were exactly when, for every
  port, the last valid item before the raise said of it what was there; and a call of
  `delete_models` that raises has removed nothing exactly when nothing was there to be removed;
  what is reported by a call that returns is done;
* `halfBatch_kept` — a good port and a bad one, and the good one is excluded.
-/

namespace Exclusions

open Python
open Ports (AppError)

/-- What a call of `set_exclusions` raises. -/
inductive Failure where
  | app (e : AppError)
  | python (e : Error)
  /-- The save of the document fails. -/
  | save
  deriving DecidableEq

variable (I : Interp)

/-- `int(v)` in a `try` that passes over what is no number. -/
def intOrSkip (v : Value) : Except Failure (Option ℤ) :=
  match intOf I v with
  | .ok port => .ok (some port)
  | .error .type => .ok none
  | .error .value => .ok none
  | .error e => .error (.python e)

/-- `excluded_ports` -/
def excluded_ports (store : Dict) : List ℤ :=
  store.filterMap fun p => (intOfText I p.1).toOption

/-- An item of `add`, as a dictionary where it can be one. -/
def asItem : Value → Option Dict
  | .int i => some [("port", .int i)]
  | .bool b => some [("port", .bool b)]
  | .str t => some [("port", .str t)]
  | .dict d => some d
  | _ => none

/-- `str(v or "")[:n]` -/
def cut (v : Value) (n : ℕ) : Except Failure Value := do
  let text ← (strOf I (v.or "")).mapError Failure.python
  return .str (text.take n)

/-- What an item does to the exclusions: the row that is written, or none for a removal. -/
structure Write where
  port : ℤ
  row : Option Value
  /-- The answer names the port. -/
  told : Bool

def Write.key (w : Write) : Text := intRepr w.port

def Write.apply (store : Dict) (w : Write) : Dict :=
  match w.row with
  | some row => Dict.set store w.key row
  | none => store.filter fun p => p.1 ≠ w.key

/-- One item of `add`. `owned` are the ports of the cells, of the routes and of the controller. -/
def addItem (owned : List ℤ) (now : ℤ) (store : Dict) (item : Value) :
    Except Failure (Option Write) :=
  match asItem item with
  | none => .ok none
  | some item => do
    match ← intOrSkip I ((item.get "port").or (.int 0)) with
    | none => .ok none
    | some port =>
      if port < 1 ∨ 65535 < port then
        .error (.app ⟨Text.of "port " ++ intRepr port ++ Text.of " is out of range", 400⟩)
      else if port ∈ owned ∧ port ∉ excluded_ports I store then
        .error (.app ⟨Text.of "port " ++ intRepr port ++
          Text.of " already belongs to a cell or proxy — move that first", 409⟩)
      else do
        let note ← cut I (item.get "note") 200
        let host ← cut I (item.get "host") 60
        return some ⟨port, some (.dict [("note", note), ("host", host), ("addedAt", .int now),
          ("auto", .bool (item.get "auto").truthy)]), true⟩

/-- One item of `remove`. -/
def removeItem (store : Dict) (raw : Value) : Except Failure (Option Write) := do
  match ← intOrSkip I raw with
  | none => .ok none
  | some port =>
    return some ⟨port, none, match store.get (intRepr port) with
      | .null => false
      | _ => true⟩

/-- A loop over items: what it leaves, the writes it made, and what it raised. -/
def forEach (step : Dict → Value → Except Failure (Option Write)) :
    Dict → List Value → Dict × List Write × Option Failure
  | store, [] => (store, [], none)
  | store, item :: items =>
    match step store item with
    | .error e => (store, [], some e)
    | .ok none => forEach step store items
    | .ok (some w) =>
      let rest := forEach step (w.apply store) items
      (rest.1, w :: rest.2.1, rest.2.2)

/-- A row of `list_exclusions`. -/
structure Row where
  port : ℤ
  note : Text
  host : Text
  addedAt : ℤ
  auto : Bool
  deriving DecidableEq

/-- `list_exclusions` -/
def list_exclusions (store : Dict) : Except Failure (List Row) := do
  let rows ← store.mapM fun p => do
    match intOfText I p.1 with
    | .error _ => return none
    | .ok port =>
      let v := p.2.asDict
      let note ← (strOf I ((v.get "note").or "")).mapError Failure.python
      let host ← (strOf I ((v.get "host").or "")).mapError Failure.python
      let addedAt ← (intOf I ((v.get "addedAt").or (.int 0))).mapError Failure.python
      return some (⟨port, note, host, addedAt, (v.get "auto").truthy⟩ : Row)
  return (rows.filterMap id).insertionSort fun a b => a.port ≤ b.port

/-- What `set_exclusions` returns. -/
structure Answer where
  added : List ℤ
  removed : List ℤ
  exclusions : List Row

/-- The ports of writes that the answer names. -/
def told (writes : List Write) : List ℤ := (writes.filter Write.told).map Write.port

/-- The loop over `body.get(key) or []`. -/
def overField (step : Dict → Value → Except Failure (Option Write)) (store : Dict) (field : Value) :
    Dict × List Write × Option Failure :=
  match (field.or (.list [])).iter with
  | .error e => (store, [], some (.python e))
  | .ok items => forEach step store items

/-- `set_exclusions`: the exclusions that it leaves in the document, and what it returns or raises.
`saves` says whether the document can be saved. -/
def set_exclusions (owned : List ℤ) (now : ℤ) (saves : Bool) (store : Dict) (body : Dict) :
    Dict × Except Failure Answer :=
  match overField (addItem I owned now) store (body.get "add") with
  | (store, _, some e) => (store, .error e)
  | (store, added, none) =>
    match overField (removeItem I) store (body.get "remove") with
    | (store, _, some e) => (store, .error e)
    | (store, removed, none) =>
      (store,
        if saves then do
          let exclusions ← list_exclusions I store
          return ⟨told added, told removed, exclusions⟩
        else .error .save)

/-! ### What the items of a body say -/

/-- The valid items of a body before the first that is refused, as what each says of its port. -/
def valid (owned : List ℤ) (now : ℤ) (store : Dict) (body : Dict) : List Write :=
  match overField (addItem I owned now) store (body.get "add") with
  | (_, added, some _) => added
  | (store, added, none) => added ++ (overField (removeItem I) store (body.get "remove")).2.1

/-- What the last of the items that name a port says of it. -/
def lastSaid : List Write → Text → Option (Option Value)
  | [], _ => none
  | w :: ws, k => (lastSaid ws k).or (if w.key = k then some w.row else none)

variable {I} {store body : Dict} {owned : List ℤ} {now : ℤ} {saves : Bool}

theorem lookup_apply (store : Dict) (w : Write) (k : Text) :
    (w.apply store).lookup k = if w.key = k then w.row else store.lookup k := by
  unfold Write.apply
  cases w.row with
  | some row =>
    rw [Dict.lookup_set]
    exact if_congr eq_comm rfl rfl
  | none =>
    dsimp only
    rw [lookup_filter_key store (fun k' => decide (k' ≠ w.key)) k]
    by_cases hk : w.key = k
    · rw [if_pos hk, if_neg (by simpa using hk.symm)]
    · rw [if_neg hk, if_pos (by simpa using Ne.symm hk)]

/-- **The exclusions after writes**: of each port, what the last of them said. -/
theorem lookup_writes (store : Dict) (ws : List Write) (k : Text) :
    (ws.foldl Write.apply store).lookup k = (lastSaid ws k).getD (store.lookup k) := by
  induction ws generalizing store with
  | nil => rfl
  | cons w ws ih =>
    rw [List.foldl_cons, ih, lookup_apply, lastSaid]
    cases lastSaid ws k with
    | some row => rfl
    | none =>
      rw [Option.none_or]
      split <;> rfl

/-- A loop leaves what its writes leave. -/
theorem forEach_writes (step : Dict → Value → Except Failure (Option Write)) (store : Dict)
    (items : List Value) :
    (forEach step store items).1 = (forEach step store items).2.1.foldl Write.apply store := by
  induction items generalizing store with
  | nil => rfl
  | cons item items ih =>
    rw [forEach]
    cases step store item with
    | error e => rfl
    | ok w =>
      cases w with
      | none => exact ih store
      | some w => exact ih (w.apply store)

theorem overField_writes (step : Dict → Value → Except Failure (Option Write)) (store : Dict)
    (field : Value) :
    (overField step store field).1 = (overField step store field).2.1.foldl Write.apply store := by
  unfold overField
  cases (field.or (.list [])).iter with
  | error e => rfl
  | ok items => exact forEach_writes step store items

/-- A call leaves what its valid items say. -/
theorem set_exclusions_valid (I : Interp) (owned : List ℤ) (now : ℤ) (saves : Bool)
    (store body : Dict) :
    (set_exclusions I owned now saves store body).1 =
      (valid I owned now store body).foldl Write.apply store := by
  have hadd := overField_writes (addItem I owned now) store (body.get "add")
  unfold set_exclusions valid
  cases hfirst : overField (addItem I owned now) store (body.get "add") with
  | mk mid rest =>
    obtain ⟨added, out⟩ := rest
    rw [hfirst] at hadd
    cases out with
    | some e => exact hadd
    | none =>
      have hremove := overField_writes (removeItem I) mid (body.get "remove")
      dsimp only at hadd ⊢
      cases hsecond : overField (removeItem I) mid (body.get "remove") with
      | mk last rest =>
        obtain ⟨removed, out⟩ := rest
        rw [hsecond] at hremove
        rw [List.foldl_append, ← hadd]
        cases out <;> exact hremove

/-! ### What is reported -/

/-- Every write of a loop is of an item. -/
theorem mem_forEach {step : Dict → Value → Except Failure (Option Write)} {items : List Value}
    {w : Write} (h : w ∈ (forEach step store items).2.1) :
    ∃ store' item, step store' item = .ok (some w) := by
  induction items generalizing store with
  | nil => exact absurd h List.not_mem_nil
  | cons item items ih =>
    rw [forEach] at h
    cases hstep : step store item with
    | error e =>
      rw [hstep] at h
      exact absurd h List.not_mem_nil
    | ok out =>
      rw [hstep] at h
      cases out with
      | none => exact ih h
      | some w' =>
        rcases List.mem_cons.mp h with rfl | h
        · exact ⟨store, item, hstep⟩
        · exact ih h

theorem mem_overField {step : Dict → Value → Except Failure (Option Write)} {field : Value}
    {w : Write} (h : w ∈ (overField step store field).2.1) :
    ∃ store' item, step store' item = .ok (some w) := by
  unfold overField at h
  cases hiter : (field.or (.list [])).iter with
  | error e =>
    rw [hiter] at h
    exact absurd h List.not_mem_nil
  | ok items =>
    rw [hiter] at h
    exact mem_forEach h

/-- An item that is added gives its port a row. -/
theorem addItem_row {item : Value} {w : Write}
    (h : addItem I owned now store item = .ok (some w)) : ∃ row, w.row = some (.dict row) := by
  unfold addItem at h
  cases hitem : asItem item with
  | none =>
    rw [hitem] at h
    exact nomatch h
  | some d =>
    rw [hitem] at h
    obtain ⟨port, -, h⟩ := Except.bind_eq_ok h
    cases port with
    | none => exact nomatch h
    | some port =>
      dsimp only at h
      split at h
      · exact nomatch h
      · split at h
        · exact nomatch h
        · obtain ⟨note, -, h⟩ := Except.bind_eq_ok h
          obtain ⟨host, -, h⟩ := Except.bind_eq_ok h
          obtain rfl := Option.some.inj (Except.ok.inj h)
          exact ⟨_, rfl⟩

/-- A port that is removed has no row, and is named if it had one. -/
theorem removeItem_row {raw : Value} {w : Write} (h : removeItem I store raw = .ok (some w)) :
    w.row = none ∧ (store.get w.key ≠ .null → w.told = true) := by
  obtain ⟨port, -, h⟩ := Except.bind_eq_ok h
  cases port with
  | none => exact nomatch h
  | some port =>
    obtain rfl := Option.some.inj (Except.ok.inj h)
    refine ⟨rfl, fun hrow => ?_⟩
    change store.get (intRepr port) ≠ .null at hrow
    dsimp only
    split
    · next hnull => exact absurd hnull hrow
    · rfl

/-- What is said last is said by one of the items. -/
theorem lastSaid_mem {ws : List Write} {k : Text} {row : Option Value}
    (h : lastSaid ws k = some row) : ∃ w ∈ ws, w.key = k ∧ w.row = row := by
  induction ws with
  | nil => exact nomatch h
  | cons a ws ih =>
    rw [lastSaid] at h
    cases hrest : lastSaid ws k with
    | some row' =>
      rw [hrest] at h
      obtain ⟨w, hw, hk, hrow⟩ := ih (hrest.trans h)
      exact ⟨w, List.mem_cons_of_mem _ hw, hk, hrow⟩
    | none =>
      rw [hrest, Option.none_or] at h
      split at h
      · next hk => exact ⟨a, List.mem_cons_self, hk, Option.some.inj h⟩
      · exact nomatch h

theorem lastSaid_isSome {ws : List Write} {w : Write} (h : w ∈ ws) :
    ∃ row, lastSaid ws w.key = some row := by
  induction ws with
  | nil => exact absurd h List.not_mem_nil
  | cons a ws ih =>
    rw [lastSaid]
    rcases List.mem_cons.mp h with rfl | h
    · rw [if_pos rfl]
      exact Option.isSome_iff_exists.mp (Option.isSome_or.trans (Bool.or_true _))
    · obtain ⟨row, hrow⟩ := ih h
      exact ⟨row, by rw [hrow, Option.some_or]⟩

/-- A row that was there stays, or an item that goes through removes it and is named. -/
theorem forEach_removes (items : List Value) (k : Text) :
    (forEach (removeItem I) store items).1.lookup k = store.lookup k ∨
      ∃ w ∈ (forEach (removeItem I) store items).2.1, w.key = k ∧
        (store.get k ≠ .null → w.told = true) := by
  induction items generalizing store with
  | nil => exact .inl rfl
  | cons item items ih =>
    rw [forEach]
    cases hstep : removeItem I store item with
    | error e => exact .inl rfl
    | ok w =>
      cases w with
      | none => exact ih
      | some w =>
        obtain ⟨hrow, htold⟩ := removeItem_row hstep
        by_cases hk : w.key = k
        · subst hk
          exact .inr ⟨w, List.mem_cons_self, rfl, htold⟩
        · have hlookup : (w.apply store).lookup k = store.lookup k := by
            rw [lookup_apply, if_neg hk]
          have hget : (w.apply store).get k = store.get k := by
            unfold Dict.get
            rw [hlookup]
          dsimp only
          rw [← hlookup, ← hget]
          rcases ih with hsame | ⟨w', hw', hk', ht⟩
          · exact .inl hsame
          · exact .inr ⟨w', List.mem_cons_of_mem _ hw', hk', ht⟩

/-- **A call that returns** has applied what it reports: a port that it says it added has its row,
unless it says too that it removed it, and a port that it says it removed has none. -/
theorem set_exclusions_returns {answer : Answer}
    (h : (set_exclusions I owned now saves store body).2 = .ok answer) :
    (∀ port ∈ answer.added, port ∈ answer.removed ∨ ∃ row,
        (set_exclusions I owned now saves store body).1.lookup (intRepr port) =
          some (.dict row)) ∧
      ∀ port ∈ answer.removed,
        (set_exclusions I owned now saves store body).1.lookup (intRepr port) = none := by
  have hadd := overField_writes (addItem I owned now) store (body.get "add")
  have hrows : ∀ w ∈ (overField (addItem I owned now) store (body.get "add")).2.1,
      ∃ row, w.row = some (.dict row) := by
    intro w hw
    obtain ⟨_, _, hitem⟩ := mem_overField hw
    exact addItem_row hitem
  unfold set_exclusions at h ⊢
  cases hfirst : overField (addItem I owned now) store (body.get "add") with
  | mk mid rest =>
    obtain ⟨added, out⟩ := rest
    rw [hfirst] at h hadd hrows
    cases out with
    | some e => exact nomatch h
    | none =>
      have hremove := overField_writes (removeItem I) mid (body.get "remove")
      have hgone : ∀ w ∈ (overField (removeItem I) mid (body.get "remove")).2.1, w.row = none := by
        intro w hw
        obtain ⟨_, _, hitem⟩ := mem_overField hw
        exact (removeItem_row hitem).1
      have hnamed : ∀ k, (overField (removeItem I) mid (body.get "remove")).1.lookup k =
            mid.lookup k ∨
          ∃ w ∈ (overField (removeItem I) mid (body.get "remove")).2.1, w.key = k ∧
            (mid.get k ≠ .null → w.told = true) := by
        intro k
        unfold overField
        cases ((body.get "remove").or (.list [])).iter with
        | error e => exact .inl rfl
        | ok items => exact forEach_removes items k
      dsimp only at h hadd hrows ⊢
      cases hsecond : overField (removeItem I) mid (body.get "remove") with
      | mk memory rest =>
        obtain ⟨removed, out⟩ := rest
        rw [hsecond] at h hremove hgone hnamed
        cases out with
        | some e => exact nomatch h
        | none =>
          dsimp only at h hremove hgone hnamed ⊢
          split at h
          · obtain ⟨exclusions, -, h⟩ := Except.bind_eq_ok h
            obtain rfl := Except.ok.inj h
            constructor
            · intro port hport
              obtain ⟨w, hw, rfl⟩ := List.mem_map.mp hport
              have hw := (List.mem_filter.mp hw).1
              -- the loop over `add` leaves a row of the port
              obtain ⟨said, hsaid⟩ := lastSaid_isSome hw
              obtain ⟨w', hw', -, rfl⟩ := lastSaid_mem hsaid
              obtain ⟨row, hrow⟩ := hrows w' hw'
              have hmid : mid.lookup w.key = some (.dict row) := by
                rw [hadd, lookup_writes, hsaid, hrow]
                rfl
              rcases hnamed w.key with hsame | ⟨v, hv, hkey, htold⟩
              · exact .inr ⟨row, hsame.trans hmid⟩
              · have hv' : v.told = true := htold (by
                  rw [Dict.get_of_lookup hmid]
                  exact Value.noConfusion)
                have hports : v.port = w.port := intRepr_injective hkey
                exact .inl (List.mem_map.mpr ⟨v, List.mem_filter.mpr ⟨hv, hv'⟩, hports⟩)
            · intro port hport
              obtain ⟨w, hw, rfl⟩ := List.mem_map.mp hport
              have hw := (List.mem_filter.mp hw).1
              obtain ⟨said, hsaid⟩ := lastSaid_isSome hw
              obtain ⟨w', hw', -, rfl⟩ := lastSaid_mem hsaid
              have hlookup : memory.lookup w.key = none := by
                rw [hremove, lookup_writes, hsaid, hgone w' hw']
                rfl
              exact hlookup
          · exact nomatch h

/-! ### Batches -/

/-- **Two batches.** A call of `set_exclusions` that raises leaves the exclusions as they were
exactly when the last of the valid items before the refusal that names a port said of it what was
there; a call of `delete_models` that raises has removed nothing exactly when no path before the
refusal goes; and either, when it returns, has done what it reports. -/
theorem batches_iff (I : Interp) (owned : List ℤ) (now : ℤ) (saves : Bool) (store body : Dict)
    (os : ModelGc.Os) (cells : ModelGc.Cells) (fs : ModelGc.Files) (files : Value) :
    ((∃ e, (set_exclusions I owned now saves store body).2 = .error e) →
      ((∀ k, (set_exclusions I owned now saves store body).1.lookup k = store.lookup k) ↔
        ∀ k row, lastSaid (valid I owned now store body) k = some row → row = store.lookup k)) ∧
    (∀ answer, (set_exclusions I owned now saves store body).2 = .ok answer →
      (∀ port ∈ answer.added, port ∈ answer.removed ∨ ∃ row,
        (set_exclusions I owned now saves store body).1.lookup (intRepr port) =
          some (.dict row)) ∧
      ∀ port ∈ answer.removed,
        (set_exclusions I owned now saves store body).1.lookup (intRepr port) = none) ∧
    ((∃ e, (ModelGc.delete_models I os cells fs files).2 = .error e) →
      ((∀ q, FileTree.Stands fs q →
          FileTree.Stands (ModelGc.delete_models I os cells fs files).1 q) ↔
        ∀ k, ModelGc.known I os cells fs = some k →
          ∀ x ∈ ModelGc.reached I os k fs files.asList, ∀ a, ¬ModelGc.Goes I os k x.1 x.2 a)) ∧
    ∀ d, (ModelGc.delete_models I os cells fs files).2 = .ok d → ∀ rel ∈ d.deleted,
      ∃ k, ModelGc.known I os cells fs = some k ∧
        ∃ x ∈ ModelGc.reached I os k fs files.asList, ∃ a, ModelGc.Goes I os k x.1 x.2 a ∧
          a.rel = rel ∧
          ¬FileTree.Stands (ModelGc.delete_models I os cells fs files).1 a.target := by
  refine ⟨fun _ => ?_, fun answer h => set_exclusions_returns h,
    fun _ => ModelGc.delete_models_keepsAll I os cells fs files,
    fun d h => ModelGc.delete_models_returns h⟩
  rw [set_exclusions_valid]
  refine forall_congr' fun k => ?_
  rw [lookup_writes]
  constructor
  · intro hsame row hrow
    rw [hrow] at hsame
    exact hsame
  · intro hsame
    cases hlast : lastSaid (valid I owned now store body) k with
    | none => rfl
    | some row => exact hsame row hlast

/-- A body with a port that can be excluded, and one that is none. -/
def halfBatch : Dict := [("add", .list [.int 8100, .int 70000])]

/-- **The good half is kept**: a port out of range is refused and the one before it is excluded; a
path that is no model is refused and the model before it is gone. -/
theorem halfBatch_kept :
    (set_exclusions Interp.ascii [] 9 true [] halfBatch).2.toOption.isNone = true ∧
      (set_exclusions Interp.ascii [] 9 true [] halfBatch).1.has "8100" = true ∧
      (ModelGc.delete_models Interp.ascii ModelGc.openOs ⟨"/models", [], []⟩ ModelGc.oneModel
        (.list [.str "a.gguf", .str "b.txt"])).2.toOption.isNone = true ∧
      ¬FileTree.Stands (ModelGc.delete_models Interp.ascii ModelGc.openOs ⟨"/models", [], []⟩
        ModelGc.oneModel (.list [.str "a.gguf", .str "b.txt"])).1 ["models", "a.gguf"] := by
  refine ⟨?_, ?_, ?_, ?_⟩ <;> decide +kernel

end Exclusions
