import Caravan.Cloud.Desks

/-!
# What a pool is called by

`EntryModels` lists the pools of a consumer's set by their names and finds the one that a
request names. The file as the desks write it is `Apart`: each of its pools is kept as it is,
no two have one id, and no two one name, by the comparison of `EntryModels.key`. Then the
pools that are read are those of the file, and a listed name finds the pool that was listed
under it (`pick_called`).

Each operation but `migrate` keeps the pools apart (`Request.keeps`). `migrate` takes the names
of the blocks as they are.
-/

namespace Cloud

open Python

/-! ### The models of the entry -/

/-- `EntryModels.models`: the pools that a route's key calls. -/
def models (d : Doc) (r : Route) : List Pool :=
  match r.set with
  | some set =>
    match (cleanSets d.sets).find? fun s => s.id = cleanId set ∧ cleanId set ≠ [] with
    | some s => s.pools.filterMap fun i => d.readPools.find? fun p => p.id = i
    | none => []
  | none => (d.readPools.find? fun p => p.id = consumerPool r d.readPools).toList

/-- `EntryModels.pick` -/
def pick (d : Doc) (r : Route) (model : Text) : Option Pool :=
  if model = [] then none else (models d r).find? fun p => p.called = model

theorem mem_models {d : Doc} {r : Route} {p : Pool} (h : p ∈ models d r) : p ∈ d.readPools := by
  unfold models at h
  split at h
  · split at h
    · obtain ⟨i, -, hi⟩ := List.mem_filterMap.mp h
      exact List.mem_of_find?_eq_some hi
    · exact absurd h List.not_mem_nil
  · exact List.mem_of_find?_eq_some (Option.mem_toList.mp h)

/-! ### What is kept is kept again -/

theorem orElse_ne_nil {t other : Text} (h : other ≠ []) : orElse t other ≠ [] := by
  unfold orElse
  split
  · exact h
  · assumption

theorem orElse_of_ne {t : Text} (h : t ≠ []) (other : Text) : orElse t other = t := if_neg h

theorem orElse_strip {t other : Text} (ht : t.strip = t) (ho : other.strip = other) :
    (orElse t other).strip = orElse t other := by
  unfold orElse
  split
  · exact ho
  · exact ht

theorem step_step {r s : Row} (h : r.step = some s) : s.step = some s := by
  unfold Row.step at h
  simp only at h
  split at h
  · exact nomatch h
  · next hid =>
    split at h
    · next hcloud =>
      cases h
      simp [Row.step, hid, hcloud]
    · split at h
      · next hlocal =>
        cases h
        simp [Row.step, hid, hlocal]
      · have hnone : isOutput [] = false := by decide
        cases h
        simp [Row.step, hid, hnone]

/-- The rows of a pool that is kept. -/
structure KeptRows (rows : List Row) : Prop where
  kept : ∀ r ∈ rows, r.step = some r
  ids : (rows.map Row.id).Nodup

theorem KeptRows.concat {rows : List Row} (h : KeptRows rows) {r : Row} (hr : r.step = some r)
    (hnew : r.id ∉ rows.map Row.id) : KeptRows (rows ++ [r]) where
  kept s hs := by
    cases List.mem_append.mp hs with
    | inl hs => exact h.kept s hs
    | inr hs => exact List.mem_singleton.mp hs ▸ hr
  ids := by
    rw [List.map_append]
    exact List.Nodup.append h.ids (List.nodup_singleton _) (by simpa using hnew)

theorem keptRows_keptSteps (rows : List Row) : KeptRows (keptSteps rows) := by
  unfold keptSteps
  refine List.foldlRecOn rows _ ⟨by simp, List.nodup_nil⟩ fun steps hsteps r _ => ?_
  split
  · next step hstep =>
    split
    · exact hsteps
    · next hnew => exact hsteps.concat (step_step hstep) hnew
  · exact hsteps

theorem keptSteps_keptSteps (rows : List Row) : keptSteps (keptSteps rows) = keptSteps rows := by
  -- a fold that puts every kept row at the end gives the rows back
  have hall : ∀ {f : List Row → Row → List Row}, (∀ steps r rest, KeptRows (steps ++ r :: rest) →
      f steps r = steps ++ [r]) → ∀ rest steps : List Row, KeptRows (steps ++ rest) →
      rest.foldl f steps = steps ++ rest := by
    intro f hf rest
    induction rest with
    | nil => simp
    | cons r rest ih =>
      intro steps h
      rw [List.foldl_cons, hf steps r rest h, ih _ (by simpa using h), List.append_assoc]
      rfl
  refine hall (fun steps r rest h => ?_) _ [] (keptRows_keptSteps rows)
  have hr : r.step = some r := h.kept r (by simp)
  have hnew : r.id ∉ steps.map Row.id := by
    have := h.ids
    rw [List.map_append, List.nodup_append] at this
    exact fun hmem => this.2.2 _ hmem _ (by simp) rfl
  simp only [hr, hnew, if_false]

theorem positive_positive (n : Option ℤ) : positive (positive n) = positive n := by
  cases n with
  | none => rfl
  | some n => by_cases h : 0 < n <;> simp [positive, Option.filter, h]

/-- A pool that was kept is kept as it is. -/
theorem kept_kept {p k : Pool} (h : p.kept = some k) : k.kept = some k := by
  unfold Pool.kept at h
  simp only at h
  split at h
  · exact nomatch h
  · next hid =>
    cases h
    have hname : (orElse (orElse p.name p.id.strip).strip p.id.strip).strip =
        orElse (orElse p.name p.id.strip).strip p.id.strip := orElse_strip (by simp) (by simp)
    have hne := orElse_ne_nil (t := (orElse p.name p.id.strip).strip) hid
    simp only [Pool.kept, Text.strip_strip, if_neg hid, keptSteps_keptSteps, positive_positive]
    rw [orElse_of_ne hne, hname, orElse_of_ne hne]

/-- What is kept of a pool under a name of its own. -/
theorem kept_spec {p k : Pool} (h : p.kept = some k) (hname : p.name.strip ≠ []) :
    k.id = p.id.strip ∧ k.name = p.name.strip := by
  unfold Pool.kept at h
  simp only at h
  split at h
  · exact nomatch h
  · cases h
    have hne : p.name ≠ [] := by
      intro he
      rw [he] at hname
      exact hname rfl
    exact ⟨rfl, by rw [orElse_of_ne hne, orElse_of_ne hname]⟩

/-- What a pool that is kept as it is looks like. -/
theorem kept_self {p : Pool} (h : p.kept = some p) : p.id ≠ [] ∧ p.id.strip = p.id ∧
    p.name ≠ [] ∧ p.name.strip = p.name ∧ p.members = none ∧ KeptRows p.steps := by
  unfold Pool.kept at h
  simp only at h
  split at h
  · exact nomatch h
  · next hid =>
    have hp := Option.some.inj h
    have hidp : p.id.strip = p.id := congrArg Pool.id hp
    have hname := congrArg Pool.name hp
    simp only at hname
    refine ⟨hidp ▸ hid, hidp, hname ▸ orElse_ne_nil hid, ?_, (congrArg Pool.members hp).symm, ?_⟩
    · rw [← hname]
      exact orElse_strip (by simp) (by simp)
    · have hsteps : keptSteps p.steps = p.steps := congrArg Pool.steps hp
      exact hsteps ▸ keptRows_keptSteps p.steps

/-! ### Pools by their ids -/

theorem byId_of_nodup {ps : List Pool} (h : (ps.map Pool.id).Nodup) : byId ps = ps := by
  have hall : ∀ (rest done : List Pool), ((done ++ rest).map Pool.id).Nodup →
      rest.foldl putById done = done ++ rest := by
    intro rest
    induction rest with
    | nil => simp
    | cons p rest ih =>
      intro done h
      have hnew : p.id ∉ done.map Pool.id := by
        rw [List.map_append, List.nodup_append] at h
        exact fun hmem => h.2.2 _ hmem _ (by simp) rfl
      rw [List.foldl_cons, putById, if_neg hnew, ih _ (by simpa using h)]
      simp
  exact hall ps [] h

/-! ### Pools apart -/

/-- The name of a pool, as two names are compared. -/
def Pool.key (fold : Text → Text) (p : Pool) : Text := fold p.called.strip

/-- The pools of a file: each kept as it is, no two of one id, no two of one name. -/
structure Apart (fold : Text → Text) (ps : List Pool) : Prop where
  kept : ∀ p ∈ ps, p.kept = some p
  ids : (ps.map Pool.id).Nodup
  names : (ps.map (Pool.key fold)).Nodup

section Apart

variable {fold : Text → Text} {ps ps' : List Pool}

theorem Apart.nil : Apart fold [] := ⟨by simp, List.nodup_nil, List.nodup_nil⟩

theorem Apart.eq_of_id (h : Apart fold ps) {p q : Pool} (hp : p ∈ ps) (hq : q ∈ ps)
    (he : p.id = q.id) : p = q := List.inj_on_of_nodup_map h.ids hp hq he

theorem Apart.eq_of_key (h : Apart fold ps) {p q : Pool} (hp : p ∈ ps) (hq : q ∈ ps)
    (he : p.key fold = q.key fold) : p = q := List.inj_on_of_nodup_map h.names hp hq he

theorem Apart.sublist (h : Apart fold ps) (hs : ps'.Sublist ps) : Apart fold ps' where
  kept p hp := h.kept p (hs.subset hp)
  ids := (hs.map _).nodup h.ids
  names := (hs.map _).nodup h.names

/-- Some of the pools, each once, in any order. -/
theorem Apart.of_subset (h : Apart fold ps) (hsub : ps' ⊆ ps) (hids : (ps'.map Pool.id).Nodup) :
    Apart fold ps' where
  kept p hp := h.kept p (hsub hp)
  ids := hids
  names := hids.of_map.map_on fun _ hp _ hq he => h.eq_of_key (hsub hp) (hsub hq) he

/-- A name depends on nothing else of a pool. -/
theorem key_congr {p q : Pool} (hid : p.id = q.id) (hname : p.name = q.name) :
    p.key fold = q.key fold := by
  rw [Pool.key, Pool.key, Pool.called, Pool.called, hid, hname]

/-- What `_put` leaves. -/
theorem put_spec {p : Pool} (h : put ps p = .ok ps') : ∃ k, p.kept = some k ∧
    ((∃ i, ∃ hi : i < ps.length, ps[i].id = k.id ∧ ps' = ps.set i k) ∨
      k.id ∉ ps.map Pool.id ∧ ps' = ps ++ [k]) := by
  unfold put at h
  split at h
  · exact nomatch h
  · next k hk =>
    refine ⟨k, hk, ?_⟩
    split at h
    · next i hi =>
      obtain ⟨hlt, hid, -⟩ := List.findIdx?_eq_some_iff_getElem.mp hi
      exact .inl ⟨i, hlt, of_decide_eq_true hid, (Except.ok.inj h).symm⟩
    · next hnone =>
      refine .inr ⟨fun hmem => ?_, (Except.ok.inj h).symm⟩
      obtain ⟨q, hq, he⟩ := List.mem_map.mp hmem
      exact of_decide_eq_false (List.findIdx?_eq_none_iff.mp hnone q hq) he

theorem map_set_self {α β : Type*} {f : α → β} {l : List α} {i : ℕ} (hi : i < l.length) {a : α}
    (h : f l[i] = f a) : (l.set i a).map f = l.map f := by
  have hi' : i < (l.map f).length := by simpa using hi
  have hat : f a = (l.map f)[i] := by rw [List.getElem_map, h]
  rw [List.map_set, hat, List.set_getElem_self]

/-- **A pool that is put under a name no other one has** leaves the pools apart. -/
theorem Apart.put (h : Apart fold ps) {p k : Pool} (hk : p.kept = some k)
    (hfree : ∀ q ∈ ps, q.id ≠ k.id → q.key fold ≠ k.key fold) (hput : Cloud.put ps p = .ok ps') :
    Apart fold ps' := by
  obtain ⟨k', hk', hput⟩ := put_spec hput
  obtain rfl : k = k' := Option.some.inj (hk.symm.trans hk')
  have hself := kept_kept hk
  cases hput with
  | inl hput =>
    obtain ⟨i, hi, hid, rfl⟩ := hput
    refine ⟨fun q hq => ?_, ?_, ?_⟩
    · cases List.mem_or_eq_of_mem_set hq with
      | inl hq => exact h.kept q hq
      | inr hq => exact hq ▸ hself
    · rw [map_set_self hi hid]
      exact h.ids
    · by_cases hsame : ps[i].key fold = k.key fold
      · rw [map_set_self hi hsame]
        exact h.names
      · rw [List.map_set]
        refine h.names.set fun hmem => hsame ?_
        obtain ⟨q, hq, he⟩ := List.mem_map.mp hmem
        -- one of the same name has the same id, so it is the one that is replaced
        have hqid : q.id = k.id := by_contra fun hne => hfree q hq hne he
        rw [h.eq_of_id (List.getElem_mem hi) hq (hid.trans hqid.symm)]
        exact he
  | inr hput =>
    obtain ⟨hnew, rfl⟩ := hput
    have hne : ∀ q ∈ ps, q.id ≠ k.id := fun q hq he => hnew (he ▸ List.mem_map_of_mem hq)
    refine ⟨fun q hq => ?_, ?_, ?_⟩
    · cases List.mem_append.mp hq with
      | inl hq => exact h.kept q hq
      | inr hq => exact List.mem_singleton.mp hq ▸ hself
    · rw [List.map_append]
      exact List.Nodup.append h.ids (List.nodup_singleton _) (by simpa using hne)
    · rw [List.map_append]
      refine List.Nodup.append h.names (List.nodup_singleton _) ?_
      simpa using fun q hq => hfree q hq (hne q hq)

/-- What a pool is found by, and what it is called. -/
def Pool.tag (p : Pool) : Text × Text := (p.id, p.name)

/-- A stored pool that is put back under its own name. -/
theorem Apart.put_tag (h : Apart fold ps) {p q : Pool} (hq : q ∈ ps) (htag : p.tag = q.tag)
    (hput : Cloud.put ps p = .ok ps') :
    Apart fold ps' ∧ ps'.map Pool.tag = ps.map Pool.tag := by
  obtain ⟨hid, hname⟩ := Prod.mk.inj htag
  obtain ⟨-, hqid, hqne, hqname, -⟩ := kept_self (h.kept q hq)
  obtain ⟨k, hk, hput'⟩ := put_spec hput
  obtain ⟨hkid, hkname⟩ := kept_spec hk (by rw [hname, hqname]; exact hqne)
  rw [hid, hqid] at hkid
  rw [hname, hqname] at hkname
  have hkey : q.key fold = k.key fold := key_congr hkid.symm hkname.symm
  refine ⟨h.put hk (fun r hr hne he => hne ?_) hput, ?_⟩
  · rw [h.eq_of_key hr hq (he.trans hkey.symm), hkid]
  · cases hput' with
    | inl hput' =>
      obtain ⟨i, hi, hii, rfl⟩ := hput'
      obtain rfl : ps[i] = q := h.eq_of_id (List.getElem_mem hi) hq (hii.trans hkid)
      exact map_set_self hi (Prod.ext hkid.symm hkname.symm)
    | inr hput' => exact absurd (List.mem_map.mpr ⟨q, hq, hkid.symm⟩) hput'.1

/-- `remove_account`, which puts each pool that it has found back under its own name. -/
theorem Apart.forget {account : Text} (h : Apart fold ps) {rest : List Pool}
    (hrest : ∀ p ∈ rest, p.tag ∈ ps.map Pool.tag)
    (hf : forgetInPools account ps rest = .ok ps') : Apart fold ps' := by
  induction rest generalizing ps with
  | nil => exact Except.ok.inj hf ▸ h
  | cons p rest ih =>
    have htail : ∀ q ∈ rest, q.tag ∈ ps.map Pool.tag := fun q hq =>
      hrest q (List.mem_cons_of_mem p hq)
    rw [forgetInPools] at hf
    split at hf
    · obtain ⟨ps₁, hput, hf⟩ := Except.bind_eq_ok hf
      obtain ⟨q, hq, htag⟩ := List.mem_map.mp (hrest p List.mem_cons_self)
      obtain ⟨h₁, htags⟩ := h.put_tag hq (by exact htag.symm) hput
      exact ih h₁ (htags ▸ htail) hf
    · exact ih h htail hf

end Apart

/-! ### What the operations keep -/

section Operations

variable (o : Outside)

/-- A document that the desks have written: pools apart, and no block of the old form. -/
structure Doc.Named (fold : Text → Text) (d : Doc) : Prop where
  blocks : d.blocks = []
  apart : Apart fold d.pools

/-- A document after assignments that leave the blocks, and pools that are apart so. -/
def Doc.Kept (d x : Doc) : Prop :=
  x.blocks = d.blocks ∧ (d.Named o.casefold → Apart o.casefold x.pools)

/-- Assignments of that kind. -/
def Change.Keeps (d : Doc) (c : Change) : Prop := ∀ f ∈ c.assign, d.Kept o (f d)

variable {o} {d : Doc}

theorem Doc.Named.legacy {fold : Text → Text} (h : d.Named fold) : d.legacy = false := by
  have hmembers : ∀ p ∈ d.pools, p.members = none := fun p hp =>
    (kept_self (h.apart.kept p hp)).2.2.2.2.1
  simpa [Doc.legacy, h.blocks] using hmembers

/-- What is read of it is what is in it. -/
theorem Doc.Named.readPools {fold : Text → Text} (h : d.Named fold) : d.readPools = d.pools := by
  have hkept : d.pools.filterMap Pool.kept = d.pools := by
    rw [List.filterMap_congr h.apart.kept, List.filterMap_some]
  rw [Doc.readPools, h.legacy, if_neg (by simp), hkept, byId_of_nodup h.apart.ids]

theorem Doc.Named.poolOf {fold : Text → Text} (h : d.Named fold) {id : Text} {p : Pool}
    (hp : poolOf d id = .ok p) : p ∈ d.pools := by
  unfold Cloud.poolOf at hp
  split at hp
  · next q hq =>
    cases hp
    exact h.readPools ▸ List.mem_of_find?_eq_some hq
  · exact nomatch hp

/-- Nothing of the pools is assigned. -/
theorem keeps_of_pools {f : Doc → Doc} {late : Bool} (hp : (f d).pools = d.pools)
    (hb : (f d).blocks = d.blocks) : Change.Keeps o d ⟨some f, late⟩ := by
  rintro g hg
  obtain rfl := Option.some.inj hg
  exact ⟨hb, fun hd => hp ▸ hd.apart⟩

theorem keeps_answers : Change.Keeps o d ⟨none, false⟩ := fun _ h => nomatch h

/-- The pools are others that are apart. -/
theorem keeps_of_apart {f : Doc → Doc} {late : Bool} (hb : (f d).blocks = d.blocks)
    (hp : d.Named o.casefold → Apart o.casefold (f d).pools) :
    Change.Keeps o d ⟨some f, late⟩ := by
  rintro g hg
  obtain rfl := Option.some.inj hg
  exact ⟨hb, hp⟩

theorem setLevel_keeps {account model : Text} {seconds pct : Option ℤ} {level : Option Level} :
    (setLevel d account model seconds pct level).Yields (Change.Keeps o d) := by
  unfold setLevel
  split
  · split
    · exact .bind fun _ _ => .bind fun _ _ => .bind fun _ _ => .bind fun _ _ => .bind fun _ _ =>
        .ok (keeps_of_pools rfl rfl)
    · exact .error
  · exact .error

theorem addModel_keeps {account model : Text} :
    (addModel d account model).Yields (Change.Keeps o d) := by
  refine .bind fun _ _ => .bind fun _ _ => ?_
  split
  · exact .ok (keeps_of_pools rfl rfl)
  · exact .ok keeps_answers

theorem removeModel_keeps {account model : Text} :
    (removeModel d account model).Yields (Change.Keeps o d) := by
  refine .bind fun _ _ => .bind fun _ _ => .bind fun _ _ => ?_
  split
  · exact .ok (keeps_of_pools rfl rfl)
  · exact .ok keeps_answers

theorem cloneTest_keeps {source : Text} :
    (cloneTest o d source).Yields (Change.Keeps o d) := by
  unfold cloneTest
  split
  · exact .error
  · split
    · exact .ok keeps_answers
    · exact .bind fun _ _ => .ok (keeps_of_pools rfl rfl)

theorem upsertAccount_keeps {edit : Option AccountEdit} :
    (upsertAccount o d edit).Yields (Change.Keeps o d) := by
  unfold upsertAccount
  split
  · refine .bind fun _ _ => ?_
    simp only
    split
    · split
      · exact .error
      · exact .bind fun _ _ => .ok (keeps_of_pools rfl rfl)
    · exact .ok (keeps_of_pools rfl rfl)
  · exact .error

theorem migrateAdded_keeps : (migrateAdded d).Yields (Change.Keeps o d) := by
  unfold migrateAdded
  split
  · exact .ok keeps_answers
  · exact .ok (keeps_of_pools rfl rfl)

/-! The sets. -/

theorem createSet_keeps {name : Text} : (createSet o d name).Yields (Change.Keeps o d) := by
  unfold createSet
  split
  · exact .bind fun _ _ => .bind fun _ _ => .ok (keeps_of_pools rfl rfl)
  · exact .bind fun _ _ => .bind fun _ _ => .ok (keeps_of_pools rfl rfl)

theorem renameSet_keeps {set name : Text} :
    (renameSet o d set name).Yields (Change.Keeps o d) :=
  .bind fun _ _ => .bind fun _ _ => .ok (keeps_of_pools rfl rfl)

theorem orderSets_keeps {ids : Option (List Text)} :
    (orderSets d ids).Yields (Change.Keeps o d) := by
  unfold orderSets
  split
  · exact .error
  · simp only
    split
    · exact .error
    · exact .ok (keeps_of_pools rfl rfl)

theorem addPool_keeps {set pool : Text} : (addPool d set pool).Yields (Change.Keeps o d) := by
  refine .bind fun _ _ => .bind fun _ _ => ?_
  split
  · exact .ok keeps_answers
  · exact .ok (keeps_of_pools rfl rfl)

theorem removePool_keeps {set pool : Text} :
    (removePool d set pool).Yields (Change.Keeps o d) := by
  refine .bind fun _ _ => ?_
  simp only
  split
  · exact .ok keeps_answers
  · exact .ok (keeps_of_pools rfl rfl)

theorem deleteSet_keeps {set : Text} : (deleteSet o d set).Yields (Change.Keeps o d) :=
  .bind fun _ _ => .ok (keeps_of_pools rfl rfl)

theorem migrateSets_keeps : (migrateSets o d).Yields (Change.Keeps o d) := by
  unfold migrateSets
  split
  · exact .ok keeps_answers
  · exact .bind fun _ _ => .ok (keeps_of_pools rfl rfl)

/-! The pools. -/

/-- A name that `taken` finds on no pool is no pool's. -/
theorem key_ne_of_not_taken {ps : List Pool} {name : Text} {but : Option Text}
    (h : taken o ps name but = false) {p : Pool} (hp : p ∈ ps) (hbut : some p.id ≠ but) :
    p.key o.casefold ≠ o.casefold name.strip := by
  intro he
  have hall := List.any_eq_false.mp h p hp
  exact hall (decide_eq_true ⟨he, hbut⟩)

theorem unique_spec {ps : List Pool} {name t : Text} {but : Option Text}
    (h : unique o ps name but = .ok t) : t = name ∧ taken o ps name but = false := by
  obtain ⟨_, hrefuse, h⟩ := Except.bind_eq_ok h
  cases h
  refine ⟨rfl, ?_⟩
  unfold refuseWhen at hrefuse
  split at hrefuse
  · exact nomatch hrefuse
  · next hfree => exact Bool.eq_false_iff.mpr hfree

theorem firstFree_spec {used : Text → Bool} {candidate : ℕ → Text} {turns n : ℕ} {t : Text}
    (h : firstFree used candidate turns n = some t) :
    used t = false ∧ ∃ m, n ≤ m ∧ t = candidate m := by
  induction turns generalizing n with
  | zero => exact nomatch h
  | succ turns ih =>
    rw [firstFree] at h
    split at h
    · obtain ⟨hfree, m, hm, ht⟩ := ih h
      exact ⟨hfree, m, Nat.le_of_succ_le hm, ht⟩
    · next hfree =>
      cases h
      exact ⟨Bool.eq_false_iff.mpr hfree, n, Nat.le_refl n, rfl⟩

/-- What the board chooses begins as what it was asked for. -/
theorem freeName_spec {ps : List Pool} {name t : Text} (hf : name.Flush) (hne : name ≠ [])
    (h : freeName o ps name = .ok t) : t.strip ≠ [] ∧ taken o ps t none = false := by
  unfold freeName search at h
  split at h
  · next t' ht =>
    cases h
    obtain ⟨hfree, m, -, rfl⟩ := firstFree_spec ht
    refine ⟨?_, hfree⟩
    unfold nameTry
    split
    · exact hf.strip_ne_nil hne
    · refine Text.Flush.strip_ne_nil ?_ ?_
      · cases name with
        | nil => exact absurd rfl hne
        | cons c name => exact fun a ha => hf a ha
      · cases name with
        | nil => exact absurd rfl hne
        | cons c name => exact List.cons_ne_nil _ _
  · exact nomatch h

/-- A name that was given is blank nowhere at its begin. -/
theorem givenName_flush (name : Text) {fallback : Text} (h : fallback.Flush) :
    (givenName name fallback).Flush := by
  unfold givenName orElse
  split
  · exact h
  · exact (Text.strip_flush name).of_begin (List.take_prefix _ _)

theorem newName_flush : NEW_NAME.Flush := by
  have h : NEW_NAME.strip = NEW_NAME := by decide
  exact h ▸ Text.strip_flush NEW_NAME

/-- A name that no other pool has. -/
theorem Doc.Named.put_free {ps' : List Pool} (h : d.Named o.casefold) {p : Pool}
    {but : Option Text} (hput : put d.pools p = .ok ps') (hname : p.name.strip ≠ [])
    (hbut : ∀ i ∈ but, i = p.id.strip) (hfree : taken o d.readPools p.name but = false) :
    Apart o.casefold ps' := by
  obtain ⟨k, hk, -⟩ := put_spec hput
  obtain ⟨hid, hkname⟩ := kept_spec hk hname
  have hkey : k.key o.casefold = o.casefold p.name.strip := by
    rw [Pool.key, Pool.called, hkname, Text.strip_strip, orElse_of_ne hname, Text.strip_strip]
  refine h.apart.put hk (fun q hq hne => ?_) hput
  rw [hkey]
  refine key_ne_of_not_taken hfree (h.readPools ▸ hq) fun he => hne ?_
  rw [hid]
  exact hbut _ he.symm

/-- A stored pool under its own name, or under one that no pool has. -/
theorem Doc.Named.put_stored {ps' : List Pool} (h : d.Named o.casefold) {p q : Pool}
    (hq : q ∈ d.pools) (hid : p.id = q.id)
    (hname : p.name = q.name ∨ p.name.strip ≠ [] ∧ taken o d.readPools p.name none = false)
    (hput : put d.pools p = .ok ps') : Apart o.casefold ps' := by
  cases hname with
  | inl hname => exact (h.apart.put_tag hq (Prod.ext hid hname) hput).1
  | inr hname => exact h.put_free hput hname.1 (by simp) hname.2

theorem namedAfter_spec {p p' : Pool} {after : Text} {before : Bool}
    (h : namedAfter o d p after before = .ok p') : p'.id = p.id ∧
      (p'.name = p.name ∨ p'.name.strip ≠ [] ∧ taken o d.readPools p'.name none = false) := by
  unfold namedAfter at h
  simp only at h
  split at h
  · next hasked =>
    obtain ⟨name, hname, h⟩ := Except.bind_eq_ok h
    cases h
    have hflush : (givenName after []).Flush := givenName_flush _ fun c hc => nomatch hc
    exact ⟨rfl, .inr (freeName_spec hflush hasked.1 hname)⟩
  · cases h
    exact ⟨rfl, .inl rfl⟩

theorem cableOf_account {target : Target} {id model : Text}
    (h : cableOf d target = .ok (.account id model)) : model.Flush := by
  unfold cableOf at h
  split at h
  · exact nomatch h
  · exact nomatch h
  · split at h
    · split at h
      · exact nomatch h
      · exact nomatch h
    · obtain ⟨_, -, h⟩ := Except.bind_eq_ok h
      obtain ⟨m, hm, h⟩ := Except.bind_eq_ok h
      cases h
      unfold modelOf at hm
      split at hm
      · exact nomatch hm
      · cases hm
        exact Text.strip_flush _

theorem orElse_flush {s t : Text} (hs : s.Flush) (ht : t.Flush) : (orElse s t).Flush := by
  unfold orElse
  split
  · exact ht
  · exact hs

theorem flush_nil : Text.Flush [] := fun _ h => nomatch h

/-- An operation that puts a pool and writes. -/
theorem put_keeps {p : Pool} {f : List Pool → Doc → Doc}
    (hblocks : ∀ ps, (f ps d).blocks = d.blocks) (hpools : ∀ ps, (f ps d).pools = ps)
    (hput : ∀ ps, d.Named o.casefold → put d.pools p = .ok ps → Apart o.casefold ps) :
    (put d.pools p >>= fun ps => saves (f ps)).Yields (Change.Keeps o d) :=
  .bind fun ps hps => .ok (keeps_of_apart (hblocks ps) fun hd =>
    (hpools ps).symm ▸ hput ps hd hps)

theorem create_keeps {name account model after : Text} {target : Target} :
    (create o d name account model target after).Yields (Change.Keeps o d) := by
  unfold create
  refine .bind fun first hfirst => ?_
  -- what is left to do once the pool has its name and its row
  have hput : ∀ (id name : Text) (steps : List Row), name.strip ≠ [] →
      taken o d.readPools name none = false →
      (put d.pools { id, name, steps, contextAuto := true } >>= fun pools => saves fun x => { x with
        addedModels := first.keep x.addedModels, pools }).Yields (Change.Keeps o d) :=
    fun id name steps hname hfree => put_keeps (fun _ => rfl) (fun _ => rfl) fun ps hd hput =>
      hd.put_free hput hname (by simp) hfree
  simp only
  split
  · next htyped =>
    refine .bind fun name hname => ?_
    obtain ⟨rfl, hfree⟩ := unique_spec hname
    refine .bind fun id _ => ?_
    split <;> exact .bind fun _ _ => hput _ _ _ ((givenName_flush _ flush_nil).strip_ne_nil htyped)
      hfree
  · refine .bind fun name hname => ?_
    -- the account's model is asked for, or nothing
    have hspec := fun hmodel => freeName_spec (orElse_flush (givenName_flush after flush_nil)
      (orElse_flush hmodel newName_flush)) (orElse_ne_nil (orElse_ne_nil (by decide))) hname
    obtain ⟨hne, hfree⟩ := hspec (by
      split
      · exact cableOf_account hfirst
      · exact flush_nil)
    refine .bind fun id _ => ?_
    split <;> exact .bind fun _ _ => hput _ _ _ hne hfree

/-- An operation on the rows of a pool, which may name the pool after its first model. -/
theorem cabled_keeps {pool after : Text} {p grown : Pool} {cable : Cable}
    (hp : poolOf d pool = .ok p) (hid : grown.id = p.id) (hname : grown.name = p.name) :
    (do
      let named ← if cable ≠ Cable.none then namedAfter o d grown after p.cabled else pure grown
      let pools ← put d.pools named
      saves fun x => { x with
        addedModels := cable.keep x.addedModels, pools }).Yields (Change.Keeps o d) := by
  have hput : ∀ named : Pool, named.id = p.id →
      (named.name = p.name ∨ named.name.strip ≠ [] ∧ taken o d.readPools named.name none = false) →
      (put d.pools named >>= fun pools => saves fun x => { x with
        addedModels := cable.keep x.addedModels, pools }).Yields (Change.Keeps o d) :=
    fun named hid hname => put_keeps (fun _ => rfl) (fun _ => rfl) fun _ hd =>
      hd.put_stored (hd.poolOf hp) hid hname
  simp only
  split
  · refine .bind fun named hnamed => ?_
    obtain ⟨hid', hname'⟩ := namedAfter_spec hnamed
    exact hput named (hid'.trans hid) (hname ▸ hname')
  · refine .bind fun named hnamed => ?_
    cases hnamed
    exact hput _ hid (.inl hname)

theorem addRow_keeps {pool after : Text} {target : Target} :
    (addRow o d pool target after).Yields (Change.Keeps o d) := by
  refine .bind fun p hp => .bind fun id _ => .bind fun cable _ => ?_
  exact cabled_keeps hp rfl rfl

theorem connectRow_keeps {pool row after : Text} {target : Target} :
    (connectRow o d pool row target after).Yields (Change.Keeps o d) := by
  refine .bind fun p hp => .bind fun _ _ => .bind fun cable _ => ?_
  exact cabled_keeps hp rfl rfl

theorem addStep_keeps {pool account model : Text} :
    (addStep o d pool account model).Yields (Change.Keeps o d) := by
  refine .bind fun p hp => .bind fun a _ => .bind fun id _ => .bind fun m _ => ?_
  exact put_keeps (fun _ => rfl) (fun _ => rfl) fun _ hd =>
    hd.put_stored (hd.poolOf hp) rfl (.inl rfl)

theorem removeStep_keeps {pool step : Text} :
    (removeStep d pool step).Yields (Change.Keeps o d) := by
  refine .bind fun p hp => .bind fun _ _ => ?_
  exact put_keeps (fun _ => rfl) (fun _ => rfl) fun _ hd =>
    hd.put_stored (hd.poolOf hp) rfl (.inl rfl)

/-! The pools in another order, and fewer of them. -/

theorem found_sublist (ps : List Pool) (wanted : List Text) :
    ((wanted.filterMap fun i => ps.find? fun p => p.id = i).map Pool.id).Sublist wanted := by
  induction wanted with
  | nil => exact .slnil
  | cons i wanted ih =>
    rw [List.filterMap_cons]
    split
    · exact ih.cons i
    · next p hp =>
      have hid : p.id = i := by simpa using List.find?_some hp
      rw [List.map_cons, hid]
      exact ih.cons_cons i

theorem Apart.found {fold : Text → Text} {ps : List Pool} (h : Apart fold ps) {wanted : List Text}
    (hwanted : wanted.Nodup) :
    Apart fold (wanted.filterMap fun i => ps.find? fun p => p.id = i) := by
  refine h.of_subset (fun p hp => ?_) ((found_sublist ps wanted).nodup hwanted)
  obtain ⟨i, -, hi⟩ := List.mem_filterMap.mp hp
  exact List.mem_of_find?_eq_some hi

theorem order_keeps {ids : Option (List Text)} : (order d ids).Yields (Change.Keeps o d) := by
  unfold order
  simp only
  split
  · exact .error
  · split
    · exact .error
    · next wanted hstale =>
      obtain ⟨hwanted, -⟩ := not_or.mp hstale
      refine .ok (keeps_of_apart rfl fun hd => ?_)
      simp only [byId_of_nodup hd.apart.ids]
      exact hd.apart.found (not_not.mp hwanted)

theorem arranged_nodup (hd : d.Named o.casefold) : (arranged d).Nodup := by
  unfold arranged
  simp only [byId_of_nodup hd.apart.ids]
  have hnamed : ((d.sets.flatMap PoolSet.pools).foldl (fun order i =>
      if i ∈ d.pools.map Pool.id ∧ i ∉ order then order ++ [i] else order) []).Nodup := by
    refine List.foldlRecOn _ _ List.nodup_nil fun order horder i _ => ?_
    split
    · next h => exact List.Nodup.append horder (List.nodup_singleton i) (by simpa using h.2)
    · exact horder
  refine List.Nodup.append hnamed (hd.apart.ids.filter _) fun i hi hrest => ?_
  exact of_decide_eq_true (List.mem_filter.mp hrest).2 hi

theorem arrange_keeps : (arrange d).Yields (Change.Keeps o d) := by
  refine .ok (keeps_of_apart rfl fun hd => ?_)
  simp only [byId_of_nodup hd.apart.ids]
  exact hd.apart.found (arranged_nodup hd)

theorem deletePool_keeps {pool : Text} {resolution : Resolution} :
    (deletePool o d pool resolution).Yields (Change.Keeps o d) := by
  have hsaves : ∀ (i : Text) (sets : Doc → List PoolSet), (o.saveProxies >>= fun _ =>
      saves fun x => { x with
        pools := x.pools.filter fun p => p.id ≠ i, sets := sets x }).Yields (Change.Keeps o d) :=
    fun _ _ => .bind fun _ _ => .ok (keeps_of_apart rfl fun hd =>
      hd.apart.sublist List.filter_sublist)
  refine .bind fun p hp => ?_
  simp only
  split
  · split
    · exact .bind fun _ _ => .bind fun _ _ => .bind fun _ _ => hsaves _ _
    · exact .bind fun _ _ => hsaves _ _
  · exact hsaves _ _

theorem removeAccount_keeps {account : Text} :
    (removeAccount o d account).Yields (Change.Keeps o d) := by
  refine .bind fun _ _ => .bind fun pools hpools => .ok (keeps_of_apart rfl fun hd => ?_)
  refine hd.apart.forget (fun p hp => ?_) hpools
  exact List.mem_map_of_mem (hd.readPools ▸ hp)

theorem step_levels {r s : Row} (h : r.step = some s) : s.stopAt = none ∧ s.switchAt = none := by
  unfold Row.step at h
  simp only at h
  split at h
  · exact nomatch h
  · split at h
    · cases h; exact ⟨rfl, rfl⟩
    · split at h
      · cases h; exact ⟨rfl, rfl⟩
      · cases h; exact ⟨rfl, rfl⟩

/-- The rows of a kept pool have no levels to be taken off. -/
theorem migrateRows_keeps : (migrateRows d).Yields (Change.Keeps o d) := by
  unfold migrateRows
  split
  · exact .ok keeps_answers
  · refine .ok (keeps_of_apart rfl fun hd => ?_)
    have hsame : d.pools.map (fun p => { p with
        steps := p.steps.map fun r => { r with stopAt := none, switchAt := none } }) = d.pools := by
      refine (List.map_congr_left fun p hp => ?_).trans (List.map_id _)
      obtain ⟨-, -, -, -, -, hrows⟩ := kept_self (hd.apart.kept p hp)
      have hsteps : p.steps.map (fun r => { r with stopAt := none, switchAt := none }) =
          p.steps := by
        refine (List.map_congr_left fun r hr => ?_).trans (List.map_id _)
        obtain ⟨hstop, hswitch⟩ := step_levels (hrows.kept r hr)
        cases r
        cases hstop
        cases hswitch
        rfl
      rw [hsteps]
      rfl
    simp only [hsame]
    exact hd.apart

/-! The loop of `save_pool` comes to a name, or it raises. -/

theorem finishPool_spec {stored : Pool} {edit : PoolEdit} {steps : List Row} {pools : List Pool}
    (h : finishPool o d stored edit steps = .ok pools) (hd : d.Named o.casefold)
    (hstored : stored ∈ d.pools) : Apart o.casefold pools := by
  obtain ⟨_, -, h⟩ := Except.bind_eq_ok h
  obtain ⟨name, hname, hput⟩ := Except.bind_eq_ok h
  obtain ⟨rfl, hfree⟩ := unique_spec hname
  obtain ⟨-, hid, hne, hstrip, -⟩ := kept_self (hd.apart.kept stored hstored)
  have hflush : stored.name.Flush := hstrip ▸ Text.strip_flush stored.name
  refine hd.put_free hput ?_ (fun i hi => ?_) hfree
  · exact (givenName_flush _ hflush).strip_ne_nil (orElse_ne_nil hne)
  · rw [Option.mem_def, Option.some.injEq] at hi
    exact hi ▸ hid.symm

theorem kept_refl : d.Kept o d := ⟨rfl, Doc.Named.apart⟩

theorem decided_keeps {x : Except Stop Change} (h : x.Yields (Change.Keeps o d)) :
    (decided x).Leaves d (d.Kept o) := by
  cases x with
  | error e => exact kept_refl
  | ok c =>
    obtain ⟨assign, late⟩ := c
    cases assign with
    | none => trivial
    | some f => exact h _ rfl f rfl

theorem savePool_keeps {edit : Option PoolEdit} :
    (savePool o d edit).Leaves d (d.Kept o) := by
  cases edit with
  | none => exact kept_refl
  | some edit =>
    rw [savePool]
    split
    · exact kept_refl
    · next stored rows hbegin =>
      obtain ⟨p, hp, hbegin⟩ := Except.bind_eq_ok hbegin
      obtain ⟨_, -, hbegin⟩ := Except.bind_eq_ok hbegin
      cases hbegin
      simp only
      -- a refusal leaves a model on the column
      split
      · exact ⟨rfl, Doc.Named.apart⟩
      · split
        · exact ⟨rfl, Doc.Named.apart⟩
        · next pools hpools =>
          exact ⟨rfl, fun hd => finishPool_spec hpools hd (hd.poolOf hp)⟩

/-- **No operation but `migrate` makes two pools of one name.** -/
theorem Request.keeps {q : Request} (hq : q ≠ .migrate) :
    (q.run o d).Leaves d (d.Kept o) := by
  cases q with
  | migrate => exact absurd rfl hq
  | create => exact decided_keeps create_keeps
  | addRow => exact decided_keeps addRow_keeps
  | connectRow => exact decided_keeps connectRow_keeps
  | order => exact decided_keeps order_keeps
  | arrange => exact decided_keeps arrange_keeps
  | savePool => exact savePool_keeps
  | addStep => exact decided_keeps addStep_keeps
  | removeStep => exact decided_keeps removeStep_keeps
  | setLevel => exact decided_keeps setLevel_keeps
  | deletePool => exact decided_keeps deletePool_keeps
  | removeAccount => exact decided_keeps removeAccount_keeps
  | cloneTest => exact decided_keeps cloneTest_keeps
  | addModel => exact decided_keeps addModel_keeps
  | removeModel => exact decided_keeps removeModel_keeps
  | migrateRows => exact decided_keeps migrateRows_keeps
  | migrateAdded => exact decided_keeps migrateAdded_keeps
  | upsertAccount => exact decided_keeps upsertAccount_keeps
  | createSet => exact decided_keeps createSet_keeps
  | renameSet => exact decided_keeps renameSet_keeps
  | orderSets => exact decided_keeps orderSets_keeps
  | addPool => exact decided_keeps addPool_keeps
  | removePool => exact decided_keeps removePool_keeps
  | deleteSet => exact decided_keeps deleteSet_keeps
  | migrateSets => exact decided_keeps migrateSets_keeps

end Operations

end Cloud
