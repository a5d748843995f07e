import Caravan.Cloud.FreeNames
import Caravan.Cloud.Unique

/-!
# The clients' one pool becomes a set

`SetDesk.migrate` gives each pool that a client of an older form calls a set of its own, and
cables the client to it. It writes the sets first and the routes after. A client whose route is
not yet rewritten is read by its old fields, so a controller that dies in between leaves it
what it calls.

What a set is kept as is read by `ModelSets.clean`, which cuts the ids, so not all that is
written is read back. A client keeps the models that it calls exactly if the migration is
`Fitting`: the cut changes none of the ids that matter, and none of the ids that the new sets
are given is named by a client already.
-/

namespace Cloud

open Python

/-! ### The migration -/

/-- `"set" not in r`, of a consumer. -/
def Route.older (r : Route) : Bool := r.kind = ("consumer" : Text) ∧ r.set = none

/-- A route of the present form: `pool` and `models` are popped. -/
def Route.cabled (r : Route) (id : Text) : Route :=
  { r with set := some id, pool := none, models := some [] }

/-- What `migrate` has done: the sets, those of them that it made by their pools, and the
routes. -/
structure Moved where
  sets : List PoolSet
  made : List (Text × PoolSet) := []
  routes : List Route := []
  deriving DecidableEq, Repr

variable (o : Outside)

/-- One route of `SetDesk.migrate`. -/
def cable (ps : List Pool) (m : Moved) (r : Route) : Except Stop Moved :=
  if ¬ r.older then .ok { m with routes := m.routes ++ [r] }
  else
    let pool := consumerPool r ps
    if pool = [] then .ok { m with routes := m.routes ++ [r.cabled []] }
    else match m.made.lookup pool with
      | some s => .ok { m with routes := m.routes ++ [r.cabled s.id] }
      | none => do
        let called := ((ps.find? fun p => p.id = pool).map Pool.called).getD pool
        let fresh ← newSet o m.sets (← freeSetName o m.sets called)
        let s := { fresh with pools := [pool] }
        return ⟨m.sets ++ [s], m.made ++ [(pool, s)], m.routes ++ [r.cabled s.id]⟩

/-- The two files that `migrate` reads and writes. -/
structure Disk where
  file : File
  routes : List Route
  deriving DecidableEq, Repr

/-- What `migrate` makes of the routes and the sets. -/
def moved (s : Disk) : Except Stop Moved :=
  let d := parse s.file
  s.routes.foldlM (cable o d.readPools) { sets := cleanSets d.sets }

/-- The document that `migrate` saves. -/
def Doc.withSets (d : Doc) (sets : List PoolSet) : Doc :=
  { d with sets, migrations := sortedSet (d.migrations ++ [SETS_MIGRATION]) }

/-- `SetDesk.migrate`: what is on the disk after each of its writes. -/
def writes (s : Disk) : Except Stop (List Disk) :=
  let d := parse s.file
  if SETS_MIGRATION ∈ d.migrations then .ok []
  else do
    let m ← moved o s
    let file := written (d.withSets m.sets)
    .ok (if s.routes.any Route.older then [⟨file, s.routes⟩, ⟨file, m.routes⟩]
      else [⟨file, s.routes⟩])

/-! ### What a client calls -/

/-- The pools of the set that is read under an id. -/
def Doc.calls (d : Doc) (set : Text) : List Pool :=
  match (cleanSets d.sets).find? fun s => s.id = cleanId set ∧ cleanId set ≠ [] with
  | some s => s.pools.filterMap fun i => d.readPools.find? fun p => p.id = i
  | none => []

/-- A client calls the same models as before, and each of their names picks the pool that it
picked. -/
def SameAccess (d : Doc) (r : Route) (d' : Doc) (r' : Route) : Prop :=
  (models d r).map Pool.called = (models d' r').map Pool.called ∧
    ∀ model, pick d r model = pick d' r' model

/-- Each consumer calls the same models by one state of the disk as by another. -/
def Disk.Same (s t : Disk) : Prop :=
  List.Forall₂ (fun r r' => r.kind = ("consumer" : Text) →
    SameAccess (parse s.file) r (parse t.file) r') s.routes t.routes

/-- After each write of the migration the clients call what they called before it, and nothing
is left to do at the next start. -/
def Preserves (s : Disk) : Prop :=
  ∃ states, writes o s = .ok states ∧ ∀ t ∈ states, s.Same t ∧ writes o t = .ok []

/-- The document with its sets written as they are read. -/
def Doc.rewritten (d : Doc) : Doc := { d with sets := cleanSets d.sets }

/-- The pool of a new set has an id that is no longer than a set keeps; or the id of the set is
read of another one, and that one holds the pool. -/
def Doc.Holds (d : Doc) (x : Text × PoolSet) : Prop :=
  if x.2.id ∈ (cleanSets d.rewritten.sets).map PoolSet.id then
    (d.rewritten.calls x.2.id).map Pool.id = [x.1]
  else x.1.length ≤ 80

/-- **What the migration asks of the document**, with the new sets by their pools. -/
structure Fitting (d : Doc) (routes : List Route) (made : List (Text × PoolSet)) : Prop where
  /-- A client with a set calls the same when its set is written as it is read. -/
  again : ∀ r ∈ routes, r.kind = ("consumer" : Text) → r.set ≠ none →
    SameAccess d r d.rewritten r
  /-- None waits for a set by an id that a new one is given. -/
  apart : ∀ r ∈ routes, r.kind = ("consumer" : Text) → ∀ set, r.set = some set →
    cleanId set ∈ made.map (fun x => x.2.id) →
    cleanId set ∈ (cleanSets d.rewritten.sets).map PoolSet.id
  /-- Each new set is read with its pool. -/
  held : ∀ x ∈ made, d.Holds x

/-! ### The document on the disk -/

section Parse

theorem readPools_congr {d d' : Doc} (hpools : d.pools = d'.pools)
    (hblocks : d.blocks = d'.blocks) : d.readPools = d'.readPools := by
  cases d
  cases d'
  cases hpools
  cases hblocks
  rfl

/-- What is parsed keeps its pools and its blocks when it is written and parsed again. -/
theorem parse_written_parse (f : File) (sets : List PoolSet) (migrations : List Text) :
    let d := parse (written { parse f with sets, migrations })
    d.pools = (parse f).pools ∧ d.blocks = (parse f).blocks := by
  refine ⟨List.filter_eq_self.mpr ?_, List.filter_eq_self.mpr ?_⟩
  · intro p hp
    cases f with
    | current doc => exact (List.mem_filter.mp hp).2
    | flat providers => exact absurd hp List.not_mem_nil
    | other => exact absurd hp List.not_mem_nil
  · intro b hb
    cases f with
    | current doc => exact (List.mem_filter.mp hb).2
    | flat providers =>
      obtain ⟨p, hp, rfl⟩ := List.mem_map.mp hb
      exact (List.mem_filter.mp hp).2
    | other => exact absurd hb List.not_mem_nil

variable {s : Disk} {sets : List PoolSet}

theorem readPools_withSets (f : File) :
    (parse (written ((parse f).withSets sets))).readPools = (parse f).readPools := by
  obtain ⟨hpools, hblocks⟩ := parse_written_parse f sets
    (sortedSet ((parse f).migrations ++ [SETS_MIGRATION]))
  exact readPools_congr hpools hblocks

theorem mem_sortedSet {l : List Text} {t : Text} : t ∈ sortedSet l ↔ t ∈ l := by
  rw [sortedSet, List.mem_insertionSort, List.mem_dedup]

/-- What the migration has written is not migrated again. -/
theorem writes_withSets (f : File) (routes : List Route) :
    writes o ⟨written ((parse f).withSets sets), routes⟩ = .ok [] := by
  unfold writes
  have hstamped : SETS_MIGRATION ∈ (parse (written ((parse f).withSets sets))).migrations := by
    show SETS_MIGRATION ∈ sortedSet (sortedSet ((parse f).migrations ++ [SETS_MIGRATION]))
    rw [mem_sortedSet, mem_sortedSet]
    exact List.mem_append_right _ (List.mem_singleton_self _)
  rw [if_pos hstamped]

end Parse

/-! ### What is read of a list of sets -/

section Sets

/-- The pools of a set, as they are read. -/
def cleanPools (pools : List Text) : List Text :=
  pools.foldl (fun pools p =>
    let p := cleanId p
    if p = [] ∨ p ∈ pools then pools else pools ++ [p]) []

/-- A set is read, after others. -/
def readSet (out : List PoolSet) (s : PoolSet) : List PoolSet :=
  if cleanId s.id = [] ∨ cleanId s.id ∈ out.map PoolSet.id then out
  else out ++ [⟨cleanId s.id, orElse (s.name.strip.take 80) (cleanId s.id), cleanPools s.pools⟩]

theorem cleanSets_eq (sets : List PoolSet) : cleanSets sets = sets.foldl readSet [] := rfl

/-- The pools under an id. -/
def setAt (sets : List PoolSet) (c : Text) : Option (List Text) :=
  (sets.find? fun s => s.id = c ∧ c ≠ []).map PoolSet.pools

theorem setAt_isSome {sets : List PoolSet} {c : Text} (hc : c ≠ []) :
    (setAt sets c).isSome ↔ c ∈ sets.map PoolSet.id := by
  rw [setAt, Option.isSome_map, List.find?_isSome, List.mem_map]
  simp [hc]

theorem setAt_readSet (out : List PoolSet) (s : PoolSet) (c : Text) :
    setAt (readSet out s) c = (setAt out c).or
      (if cleanId s.id = c ∧ c ≠ [] then some (cleanPools s.pools) else none) := by
  unfold readSet
  split
  · next hskip =>
    split
    · next hc =>
      obtain ⟨rfl, hne⟩ := hc
      have hin : cleanId s.id ∈ out.map PoolSet.id := hskip.resolve_left hne
      obtain ⟨pools, hpools⟩ := Option.isSome_iff_exists.mp ((setAt_isSome hne).mpr hin)
      rw [hpools, Option.some_or]
    · rw [Option.or_none]
  · rw [setAt, setAt, List.find?_append, Option.map_or]
    congr 1
    rw [List.find?_singleton]
    split
    · next h => rw [if_pos (of_decide_eq_true h), Option.map_some]
    · next h => rw [if_neg (fun hc => h (decide_eq_true hc)), Option.map_none]

/-- The sets that are read later come after those that are read before. -/
theorem setAt_foldl (made out : List PoolSet) (c : Text) :
    setAt (made.foldl readSet out) c = (setAt out c).or
      ((made.find? fun s => cleanId s.id = c ∧ c ≠ []).map fun s => cleanPools s.pools) := by
  induction made generalizing out with
  | nil => rw [List.foldl_nil, List.find?_nil, Option.map_none, Option.or_none]
  | cons s made ih =>
    rw [List.foldl_cons, ih, setAt_readSet, Option.or_assoc, List.find?_cons]
    congr 1
    by_cases hc : cleanId s.id = c ∧ c ≠ []
    · rw [if_pos hc, decide_eq_true hc, Option.some_or, Option.map_some]
    · rw [if_neg hc, decide_eq_false hc, Option.none_or]

theorem cleanPools_singleton {p : Text} (h : cleanId p ≠ []) : cleanPools [p] = [cleanId p] := by
  simp [cleanPools, h]

theorem length_cleanSets_le (sets : List PoolSet) : (cleanSets sets).length ≤ sets.length := by
  have hall : ∀ (rest out : List PoolSet), (rest.foldl readSet out).length ≤
      out.length + rest.length := by
    intro rest
    induction rest with
    | nil => intro out; exact le_rfl
    | cons s rest ih =>
      intro out
      have hread : (readSet out s).length ≤ out.length + 1 := by
        unfold readSet
        split
        · omega
        · rw [List.length_append, List.length_singleton]
      have := ih (readSet out s)
      rw [List.foldl_cons, List.length_cons]
      omega
  have h := hall sets []
  rwa [List.length_nil, Nat.zero_add] at h

/-- The pools that are found under these ids. -/
def Doc.found (d : Doc) (pools : Option (List Text)) : List Pool :=
  (pools.getD []).filterMap fun i => d.readPools.find? fun p => p.id = i

theorem calls_eq (d : Doc) (set : Text) :
    d.calls set = d.found (setAt (cleanSets d.sets) (cleanId set)) := by
  unfold Doc.calls Doc.found setAt
  split
  · next s hs => rw [hs, Option.map_some, Option.getD_some]
  · next hs => rw [hs, Option.map_none, Option.getD_none, List.filterMap_nil]

theorem calls_nil (d : Doc) : d.calls [] = [] := by
  have hnone : setAt (cleanSets d.sets) (cleanId []) = none := by
    rw [setAt, Option.map_eq_none_iff]
    exact List.find?_eq_none.mpr fun s _ => by simp [cleanId]
  rw [calls_eq, hnone]
  rfl

theorem models_of_set {d : Doc} {r : Route} {set : Text} (h : r.set = some set) :
    models d r = d.calls set := by
  obtain ⟨⟩ := r
  cases h
  rfl

theorem models_cabled (d : Doc) (r : Route) (id : Text) : models d (r.cabled id) = d.calls id :=
  models_of_set rfl

end Sets

/-! ### The id of a new set -/

section NewSet

theorem numbered_injective {name sep : Text} (hsep : sep ≠ []) {j k : ℕ}
    (h : numbered name sep j = numbered name sep k) : j = k := by
  -- a name with a number after it is longer than the name
  have hlonger : ∀ n, name.length < (name ++ sep ++ digits n).length := by
    intro n
    have := List.length_pos_iff.mpr hsep
    rw [List.length_append, List.length_append]
    omega
  unfold numbered at h
  split at h
  · next hj =>
    split at h
    · next hk => rw [hj, hk]
    · exact absurd (congrArg List.length h) (Nat.ne_of_lt (hlonger k))
  · split at h
    · exact absurd (congrArg List.length h) (Nat.ne_of_gt (hlonger j))
    · exact digits_injective (List.append_cancel_left h)

theorem slugBase_spec (text : Text) :
    slugBase text "set" ≠ [] ∧ (slugBase text "set").length ≤ 40 ∧
      ∀ c ∈ slugBase text "set", wordChar ['_', '-'] c = true := by
  unfold slugBase
  generalize hm : ((text.map fun c =>
    if wordChar ['_', '-'] c then c else codePoint '-').take 40) = marked
  have hword : ∀ c ∈ marked, wordChar ['_', '-'] c = true := by
    intro c hc
    rw [← hm] at hc
    obtain ⟨a, -, rfl⟩ := List.mem_map.mp (List.mem_of_mem_take hc)
    split
    · assumption
    · rfl
  have hlength : marked.length ≤ 40 := by
    rw [← hm]
    exact List.length_take_le _ _
  refine ⟨orElse_ne_nil (by decide), ?_, ?_⟩
  · dsimp only
    unfold orElse
    split
    · decide
    · exact ((List.rdropWhile_prefix _ _).length_le.trans
        (List.dropWhile_suffix _).length_le).trans hlength
  · dsimp only
    unfold orElse
    split
    · exact List.all_eq_true.mp (by decide)
    · intro c hc
      exact hword c ((List.dropWhile_suffix _).subset ((List.rdropWhile_prefix _ _).subset hc))

/-- **The id of a new set** is none of the sets', and it is read as it is. -/
theorem newSet_spec {sets : List PoolSet} {name : Text} {s : PoolSet}
    (hsets : sets.length < 10 ^ 20) (h : newSet o sets name = .ok s) :
    s.id ∉ sets.map PoolSet.id ∧ s.id ≠ [] ∧ cleanId s.id = s.id := by
  obtain ⟨id, hid, h⟩ := Except.bind_eq_ok h
  cases h
  have hfound : firstFree (fun t => t ∈ sets.map PoolSet.id)
      (numbered (slugBase name "set") "-") o.turns 1 = some id := search_eq_ok.mp hid
  obtain ⟨m, -, hm, rfl, hnew⟩ := firstFree_le
    (fun j k _ _ => numbered_injective (by decide)) hfound
  rw [List.length_map] at hm
  obtain ⟨hne, hlength, hword⟩ := slugBase_spec name
  have hdigits : (digits m).length ≤ 21 := by
    rw [digits_eq, List.length_map, Nat.length_toDigits_le_iff (by decide) (by decide)]
    omega
  refine ⟨hnew, ?_, ?_⟩
  · unfold numbered
    split
    · exact hne
    · simp [hne]
  · have hspace : ∀ c ∈ numbered (slugBase name "set") "-" m, isSpace c = false := by
      intro c hc
      unfold numbered at hc
      split at hc
      · exact isSpace_wordChar (hword c hc)
      · rcases List.mem_append.mp hc with hc | hc
        · rcases List.mem_append.mp hc with hc | hc
          · exact isSpace_wordChar (hword c hc)
          · obtain rfl := List.mem_singleton.mp hc
            rfl
        · exact isSpace_digit (isDigit_of_mem hc)
    have hshort : (numbered (slugBase name "set") "-" m).length ≤ 80 := by
      unfold numbered
      split
      · omega
      · have hsep : ("-" : Text).length = 1 := rfl
        rw [List.length_append, List.length_append, hsep]
        omega
    show cleanId (numbered (slugBase name "set") "-" m) = numbered (slugBase name "set") "-" m
    rw [cleanId, strip_of_no_space hspace, List.take_of_length_le hshort]

end NewSet

/-! ### A run over the routes -/

section Run

/-- What becomes of a route: it stays, or it is cabled to the set of its pool. -/
def Rewritten (ps : List Pool) (made : List (Text × PoolSet)) (r r' : Route) : Prop :=
  if r.older then consumerPool r ps = [] ∧ r' = r.cabled [] ∨
    ∃ s, (consumerPool r ps, s) ∈ made ∧ r' = r.cabled s.id
  else r' = r

/-- What holds of the sets and of the routes that are done. -/
structure Cabled (ps : List Pool) (base : List PoolSet) (done : List Route) (m : Moved) :
    Prop where
  sets : m.sets = base ++ m.made.map Prod.snd
  keys : (m.made.map Prod.fst).Nodup
  pools : ∀ x ∈ m.made, x.2.pools = [x.1]
  ids : ∀ x ∈ m.made, x.2.id ≠ [] ∧ cleanId x.2.id = x.2.id
  distinct : (m.made.map fun x => x.2.id).Nodup
  fresh : ∀ x ∈ m.made, x.2.id ∉ base.map PoolSet.id
  users : ∀ x ∈ m.made, ∃ r ∈ done, r.older = true ∧ consumerPool r ps = x.1 ∧ x.1 ≠ []
  count : m.made.length ≤ done.length
  routes : List.Forall₂ (Rewritten ps m.made) done m.routes

variable {o : Outside} {ps : List Pool} {base : List PoolSet} {done : List Route} {m m' : Moved}
  {r : Route}

theorem Rewritten.mono {made made' : List (Text × PoolSet)} (hsub : made ⊆ made') {r r' : Route}
    (h : Rewritten ps made r r') : Rewritten ps made' r r' := by
  unfold Rewritten at *
  by_cases hold : r.older = true
  · rw [if_pos hold] at h ⊢
    exact h.imp_right fun ⟨s, hs, hr⟩ => ⟨s, hsub hs, hr⟩
  · rwa [if_neg hold] at h ⊢

/-- A route is done, and no set is made for it. -/
theorem Cabled.concat (h : Cabled ps base done m) {r' : Route} (hr : Rewritten ps m.made r r') :
    Cabled ps base (done ++ [r]) { m with routes := m.routes ++ [r'] } where
  sets := h.sets
  keys := h.keys
  pools := h.pools
  ids := h.ids
  distinct := h.distinct
  fresh := h.fresh
  users x hx :=
    let ⟨q, hq, huses⟩ := h.users x hx
    ⟨q, List.mem_append_left _ hq, huses⟩
  count := h.count.trans (List.sublist_append_left _ _).length_le
  routes := List.rel_append h.routes (.cons hr .nil)

/-- A route is done with a set that is made for its pool. -/
theorem Cabled.make (h : Cabled ps base done m) {s : PoolSet} (hold : r.older = true)
    (hpool : consumerPool r ps ≠ []) (hnew : consumerPool r ps ∉ m.made.map Prod.fst)
    (hpools : s.pools = [consumerPool r ps]) (hid : s.id ≠ [] ∧ cleanId s.id = s.id)
    (hfresh : s.id ∉ m.sets.map PoolSet.id) :
    Cabled ps base (done ++ [r]) ⟨m.sets ++ [s], m.made ++ [(consumerPool r ps, s)],
      m.routes ++ [r.cabled s.id]⟩ := by
  have hapart : s.id ∉ base.map PoolSet.id ∧ s.id ∉ m.made.map fun x => x.2.id := by
    rw [h.sets, List.map_append, List.mem_append, not_or, List.map_map] at hfresh
    exact hfresh
  refine ⟨?_, ?_, ?_, ?_, ?_, ?_, ?_, ?_, ?_⟩
  · rw [h.sets, List.map_append, List.append_assoc]
    rfl
  · rw [List.map_append]
    exact h.keys.append (List.nodup_singleton _) (by simpa using hnew)
  · intro x hx
    rcases List.mem_append.mp hx with hx | hx
    · exact h.pools x hx
    · obtain rfl := List.mem_singleton.mp hx
      exact hpools
  · intro x hx
    rcases List.mem_append.mp hx with hx | hx
    · exact h.ids x hx
    · obtain rfl := List.mem_singleton.mp hx
      exact hid
  · rw [List.map_append]
    exact h.distinct.append (List.nodup_singleton _) (by simpa using hapart.2)
  · intro x hx
    rcases List.mem_append.mp hx with hx | hx
    · exact h.fresh x hx
    · obtain rfl := List.mem_singleton.mp hx
      exact hapart.1
  · intro x hx
    rcases List.mem_append.mp hx with hx | hx
    · obtain ⟨q, hq, huses⟩ := h.users x hx
      exact ⟨q, List.mem_append_left _ hq, huses⟩
    · obtain rfl := List.mem_singleton.mp hx
      exact ⟨r, List.mem_append_right _ (List.mem_singleton_self r), hold, rfl, hpool⟩
  · rw [List.length_append, List.length_append]
    exact Nat.add_le_add_right h.count 1
  · have hstill : List.Forall₂ (Rewritten ps (m.made ++ [(consumerPool r ps, s)])) done
        m.routes := h.routes.imp fun _ _ => Rewritten.mono (List.subset_append_left _ _)
    refine List.rel_append hstill (.cons ?_ .nil)
    unfold Rewritten
    rw [if_pos hold]
    exact .inr ⟨s, List.mem_append_right _ (List.mem_singleton_self _), rfl⟩

/-- **One route keeps what holds** of the sets, while they are no more than ever were. -/
theorem cable_keeps (hm : Cabled ps base done m) (hsize : base.length + done.length < 10 ^ 20)
    (h : cable o ps m r = .ok m') : Cabled ps base (done ++ [r]) m' := by
  unfold cable at h
  split at h
  · next hnew =>
    cases h
    exact hm.concat (by rw [Rewritten, if_neg hnew])
  · next hold =>
    rw [not_not] at hold
    dsimp only at h
    split at h
    · next hpool =>
      cases h
      refine hm.concat ?_
      rw [Rewritten, if_pos hold]
      exact .inl ⟨hpool, rfl⟩
    · next hpool =>
      split at h
      · next s hs =>
        cases h
        obtain ⟨before, after, hmade, -⟩ := List.lookup_eq_some_iff.mp hs
        refine hm.concat ?_
        rw [Rewritten, if_pos hold]
        exact .inr ⟨s, by rw [hmade]; simp, rfl⟩
      · next hs =>
        obtain ⟨name, -, h⟩ := Except.bind_eq_ok h
        obtain ⟨fresh, hfresh, h⟩ := Except.bind_eq_ok h
        cases h
        have hlength : m.sets.length < 10 ^ 20 := by
          have := hm.count
          rw [hm.sets, List.length_append, List.length_map]
          omega
        obtain ⟨hunused, hne, hclean⟩ := newSet_spec o hlength hfresh
        refine hm.make (s := { fresh with pools := [consumerPool r ps] }) hold hpool ?_ rfl
          ⟨hne, hclean⟩ hunused
        intro hin
        obtain ⟨x, hx, hkey⟩ := List.mem_map.mp hin
        have := List.lookup_eq_none_iff.mp hs x hx
        rw [hkey, bne_self_eq_false] at this
        cases this

theorem cables_keep {routes : List Route} (hm : Cabled ps base done m)
    (hsize : base.length + (done ++ routes).length < 10 ^ 20)
    (h : routes.foldlM (cable o ps) m = .ok m') : Cabled ps base (done ++ routes) m' := by
  induction routes generalizing done m with
  | nil =>
    cases h
    rwa [List.append_nil]
  | cons r routes ih =>
    rw [List.foldlM_cons] at h
    obtain ⟨next, hnext, h⟩ := Except.bind_eq_ok h
    rw [List.append_cons] at hsize ⊢
    have hlength : base.length + done.length < 10 ^ 20 := by
      rw [List.append_assoc, List.length_append] at hsize
      omega
    exact ih (cable_keeps hm hlength hnext) hsize h

end Run

/-! ### What a client calls afterwards -/

section Access

variable {d d' : Doc} {r r' : Route}

theorem sameAccess_of_eq (h : models d r = models d' r') : SameAccess d r d' r' := by
  refine ⟨congrArg _ h, fun model => ?_⟩
  rw [pick, pick, h]

theorem SameAccess.eq_nil (h : SameAccess d r d' r') (hr : models d r = []) :
    models d' r' = [] := by
  obtain ⟨hnames, -⟩ := h
  rw [hr] at hnames
  exact List.map_eq_nil_iff.mp hnames.symm

theorem called_ne_nil {p : Pool} (h : p ∈ d.readPools) : p.called ≠ [] :=
  orElse_ne_nil (kept_self (readPools_kept h)).1

theorem cleanId_pool {p : Pool} (h : p ∈ d.readPools) : cleanId p.id = p.id.take 80 := by
  rw [cleanId, (kept_self (readPools_kept h)).2.1]

theorem cleanId_ne_nil {p : Pool} (h : p ∈ d.readPools) : cleanId p.id ≠ [] := by
  rw [cleanId_pool h, ne_eq, List.take_eq_nil_iff, not_or]
  exact ⟨by decide, (kept_self (readPools_kept h)).1⟩

/-- A client of one model that calls the same calls this one. -/
theorem SameAccess.eq_singleton {p : Pool} (h : SameAccess d r d' r') (hp : p ∈ d.readPools)
    (hr : models d r = [p]) : models d' r' = [p] := by
  obtain ⟨hnames, hpick⟩ := h
  rw [hr, List.map_singleton] at hnames
  obtain ⟨q, hq, hname⟩ := List.map_eq_singleton_iff.mp hnames.symm
  have hfound := hpick p.called
  rw [pick, pick, if_neg (called_ne_nil hp), if_neg (called_ne_nil hp), hr, hq] at hfound
  simp [hname] at hfound
  rw [hq, hfound]

theorem models_of_older (hset : r.set = none) (h : d.readPools = d'.readPools) :
    models d r = models d' r := by
  unfold models
  rw [hset, h]

/-- The pool of a client of an older form. -/
theorem models_older {pool : Text} (hset : r.set = none)
    (hpool : consumerPool r d.readPools = pool) (hne : pool ≠ []) :
    ∃ p ∈ d.readPools, p.id = pool ∧ models d r = [p] := by
  have hmem : pool ∈ d.readPools.map Pool.id := by
    unfold consumerPool at hpool
    dsimp only at hpool
    split at hpool
    · split at hpool
      · next hin => exact hpool ▸ hin
      · exact absurd hpool.symm hne
    · cases hps : d.readPools with
      | nil =>
        rw [hps] at hpool
        exact absurd hpool.symm hne
      | cons p ps =>
        rw [hps] at hpool
        exact List.mem_map.mpr ⟨p, List.mem_cons_self, hpool⟩
    · rw [Option.getD_eq_iff] at hpool
      rcases hpool with hpool | ⟨-, hpool⟩
      · simpa using List.find?_some hpool
      · exact absurd hpool.symm hne
  have hsome : (d.readPools.find? fun p => p.id = pool).isSome := by
    rw [List.find?_isSome]
    obtain ⟨p, hp, hid⟩ := List.mem_map.mp hmem
    exact ⟨p, hp, decide_eq_true hid⟩
  obtain ⟨p, hp⟩ := Option.isSome_iff_exists.mp hsome
  refine ⟨p, List.mem_of_find?_eq_some hp, by simpa using List.find?_some hp, ?_⟩
  unfold models
  rw [hset]
  dsimp only
  rw [hpool, hp, Option.toList_some]

theorem models_none (hset : r.set = none) (hpool : consumerPool r d.readPools = []) :
    models d r = [] := by
  unfold models
  rw [hset]
  dsimp only
  rw [hpool, Option.toList_eq_nil_iff, List.find?_eq_none]
  intro p hp
  simpa using (kept_self (readPools_kept hp)).1

theorem found_singleton {pool : Text} {p : Pool} (hp : p ∈ d.found (some [pool])) :
    p.id = pool := by
  obtain ⟨i, hi, hfound⟩ := List.mem_filterMap.mp hp
  obtain rfl : i = pool := List.mem_singleton.mp hi
  simpa using List.find?_some hfound

theorem found_of_models {p : Pool} (hset : r.set = none) (hr : models d r = [p]) :
    d.found (some [p.id]) = [p] := by
  unfold models at hr
  rw [hset] at hr
  dsimp only at hr
  have hfind : (d.readPools.find? fun q => q.id = consumerPool r d.readPools) = some p :=
    Option.toList_eq_singleton_iff.mp hr
  have hid : p.id = consumerPool r d.readPools := by simpa using List.find?_some hfind
  rw [Doc.found, Option.getD_some, List.filterMap_cons, hid, hfind, List.filterMap_nil]

end Access

/-! ### The migration as a whole -/

section Whole

/-- The lists of the files are lists of the language, of less than 2^63 elements. -/
structure Sized (s : Disk) : Prop where
  sets : (parse s.file).sets.length < 2 ^ 63
  routes : s.routes.length < 2 ^ 63

variable {o : Outside} {s : Disk} {m : Moved}

theorem moved_cabled (hs : Sized s) (h : moved o s = .ok m) :
    Cabled (parse s.file).readPools (cleanSets (parse s.file).sets) s.routes m := by
  have hstart : Cabled (parse s.file).readPools (cleanSets (parse s.file).sets) []
      { sets := cleanSets (parse s.file).sets } := by
    refine ⟨?_, List.nodup_nil, ?_, ?_, List.nodup_nil, ?_, ?_, le_rfl, .nil⟩
    · rw [List.map_nil, List.append_nil]
    all_goals exact fun x hx => absurd hx List.not_mem_nil
  have hsize : (cleanSets (parse s.file).sets).length + ([] ++ s.routes).length < 10 ^ 20 := by
    have hread := length_cleanSets_le (parse s.file).sets
    have hsets := hs.sets
    have hroutes := hs.routes
    rw [List.nil_append]
    omega
  exact cables_keep hstart hsize h

/-- What is read of the document that `migrate` saves: the sets as they are read twice, and then
the new ones. -/
theorem calls_withSets (hm : Cabled (parse s.file).readPools (cleanSets (parse s.file).sets)
    s.routes m) (set : Text) :
    let d := parse s.file
    let saved := parse (written (d.withSets m.sets))
    (cleanId set ∈ (cleanSets d.rewritten.sets).map PoolSet.id ∨
        cleanId set ∉ m.made.map (fun x => x.2.id) → saved.calls set = d.rewritten.calls set) ∧
      ∀ x ∈ m.made, x.2.id = cleanId set →
        cleanId set ∉ (cleanSets d.rewritten.sets).map PoolSet.id →
        saved.calls set = d.found (some [cleanId x.1]) := by
  intro d saved
  have hread : saved.readPools = d.readPools := readPools_withSets s.file
  have hfound : ∀ pools, saved.found pools = d.found pools := fun pools => by
    rw [Doc.found, hread, Doc.found]
  have hrewritten : ∀ pools, d.rewritten.found pools = d.found pools := fun pools => by
    have hsame : d.rewritten.readPools = d.readPools := readPools_congr rfl rfl
    rw [Doc.found, hsame, Doc.found]
  have hsets : cleanSets saved.sets =
      (m.made.map Prod.snd).foldl readSet (cleanSets d.rewritten.sets) := by
    show cleanSets m.sets = _
    rw [hm.sets, cleanSets_eq, List.foldl_append]
    rfl
  have hat : setAt (cleanSets saved.sets) (cleanId set) =
      (setAt (cleanSets d.rewritten.sets) (cleanId set)).or
        (((m.made.map Prod.snd).find? fun x => cleanId x.id = cleanId set ∧ cleanId set ≠ []).map
          fun x => cleanPools x.pools) := by
    rw [hsets, setAt_foldl]
  rw [calls_eq, calls_eq, hfound, hrewritten, hat]
  constructor
  · intro h
    congr 1
    by_cases hne : cleanId set = []
    · have hnone : ((m.made.map Prod.snd).find? fun x =>
          cleanId x.id = cleanId set ∧ cleanId set ≠ []) = none :=
        List.find?_eq_none.mpr fun x _ => by simp [hne]
      rw [hnone, Option.map_none, Option.or_none]
    · rcases h with hin | hout
      · obtain ⟨pools, hpools⟩ := Option.isSome_iff_exists.mp ((setAt_isSome hne).mpr hin)
        rw [hpools, Option.some_or]
      · -- an id that no new set has finds none of them
        have hnone : ((m.made.map Prod.snd).find? fun x =>
            cleanId x.id = cleanId set ∧ cleanId set ≠ []) = none := by
          refine List.find?_eq_none.mpr fun y hy => ?_
          obtain ⟨x, hx, rfl⟩ := List.mem_map.mp hy
          rw [(hm.ids x hx).2, decide_eq_true_eq]
          exact fun hid => hout (List.mem_map.mpr ⟨x, hx, hid.1⟩)
        rw [hnone, Option.map_none, Option.or_none]
  · intro x hx hid hout
    have hne : cleanId set ≠ [] := hid ▸ (hm.ids x hx).1
    have hnone : setAt (cleanSets d.rewritten.sets) (cleanId set) = none := by
      rw [← Option.not_isSome_iff_eq_none, setAt_isSome hne]
      exact hout
    have hfirst : ((m.made.map Prod.snd).find? fun y =>
        cleanId y.id = cleanId set ∧ cleanId set ≠ []) = some x.2 := by
      obtain ⟨y, hy⟩ := Option.isSome_iff_exists.mp <|
        (List.find?_isSome (p := fun y : PoolSet =>
          decide (cleanId y.id = cleanId set ∧ cleanId set ≠ []))).mpr
        ⟨x.2, List.mem_map_of_mem hx, decide_eq_true ⟨(hm.ids x hx).2.trans hid, hne⟩⟩
      rw [hy]
      obtain ⟨x', hx', rfl⟩ := List.mem_map.mp (List.mem_of_find?_eq_some hy)
      have hsame := List.find?_some hy
      rw [(hm.ids x' hx').2, decide_eq_true_eq, ← hid] at hsame
      rw [List.inj_on_of_nodup_map hm.distinct hx' hx hsame.1]
    obtain ⟨r, -, hold, hpool, hpne⟩ := hm.users x hx
    obtain ⟨p, hp, hpid, -⟩ := models_older (of_decide_eq_true hold).2 hpool hpne
    rw [hnone, Option.none_or, hfirst, Option.map_some, hm.pools x hx,
      cleanPools_singleton (hpid ▸ cleanId_ne_nil hp)]

theorem sameAccess_congr {d d₁ d₂ : Doc} {r r₁ r₂ : Route} (h : models d₁ r₁ = models d₂ r₂) :
    SameAccess d r d₁ r₁ ↔ SameAccess d r d₂ r₂ := by
  unfold SameAccess pick
  rw [h]

/-- The pool of a new set. -/
theorem made_pool (hm : Cabled (parse s.file).readPools (cleanSets (parse s.file).sets)
    s.routes m) {x : Text × PoolSet} (hx : x ∈ m.made) :
    ∃ r ∈ s.routes, r.older = true ∧ consumerPool r (parse s.file).readPools = x.1 ∧
      ∃ p ∈ (parse s.file).readPools, models (parse s.file) r = [p] ∧ p.id = x.1 ∧
        (parse s.file).found (some [x.1]) = [p] := by
  obtain ⟨r, hr, hold, hpool, hne⟩ := hm.users x hx
  have hset := (of_decide_eq_true hold).2
  obtain ⟨p, hp, hid, hmodels⟩ := models_older hset hpool hne
  exact ⟨r, hr, hold, hpool, p, hp, hmodels, hid, hid ▸ found_of_models hset hmodels⟩

/-- A new set is read with its pool exactly if it is `Fitting` that it holds it. -/
theorem held_iff (hm : Cabled (parse s.file).readPools (cleanSets (parse s.file).sets)
    s.routes m) {x : Text × PoolSet} (hx : x ∈ m.made) {p : Pool} (hid : p.id = x.1)
    (hfound : (parse s.file).found (some [x.1]) = [p]) :
    (parse (written ((parse s.file).withSets m.sets))).calls x.2.id = [p] ↔
      (parse s.file).Holds x := by
  obtain ⟨hread, hmade⟩ := calls_withSets hm x.2.id
  have hclean := (hm.ids x hx).2
  have hmem : p ∈ (parse s.file).readPools := by
    have hp : p ∈ (parse s.file).found (some [x.1]) := hfound ▸ List.mem_singleton_self p
    obtain ⟨i, -, hi⟩ := List.mem_filterMap.mp hp
    exact List.mem_of_find?_eq_some hi
  unfold Doc.Holds
  split
  · next hin =>
    have hin' : cleanId x.2.id ∈ (cleanSets (parse s.file).rewritten.sets).map PoolSet.id := by
      rwa [hclean]
    rw [hread (.inl hin'), calls_eq]
    constructor
    · intro h
      rw [h, List.map_singleton, hid]
    · intro h
      obtain ⟨q, hq, hqid⟩ := List.map_eq_singleton_iff.mp h
      rw [hq]
      -- a pool that is read is found by its id, so two of one id are one
      have hmq : q ∈ (parse s.file).rewritten.found
          (setAt (cleanSets (parse s.file).rewritten.sets) (cleanId x.2.id)) := by simp [hq]
      obtain ⟨i, -, hi⟩ := List.mem_filterMap.mp hmq
      have hqi : q.id = i := by simpa using List.find?_some hi
      rw [Doc.found, Option.getD_some, List.filterMap_cons, ← hqid, hqi] at hfound
      have hi' : ((parse s.file).readPools.find? fun p => p.id = i) = some q := hi
      rw [hi', List.filterMap_nil] at hfound
      exact hfound
  · next hout =>
    have hout' : cleanId x.2.id ∉ (cleanSets (parse s.file).rewritten.sets).map PoolSet.id := by
      rwa [hclean]
    rw [hmade x hx hclean.symm hout']
    have hcut : cleanId x.1 = x.1.take 80 := hid ▸ cleanId_pool hmem
    constructor
    · intro h
      have hpid := found_singleton (h ▸ List.mem_singleton_self p)
      rw [hid, hcut] at hpid
      rw [hpid]
      exact List.length_take_le _ _
    · intro h
      rw [hcut, List.take_of_length_le h]
      exact hfound

/-- A client with a set calls the same of the saved document exactly if it does so of the
rewritten one and waits for none of the new sets. -/
theorem same_set_iff (hm : Cabled (parse s.file).readPools (cleanSets (parse s.file).sets)
    s.routes m)
    (hheld : ∀ x ∈ m.made, (parse s.file).Holds x) {r : Route} {set : Text}
    (hset : r.set = some set) :
    SameAccess (parse s.file) r (parse (written ((parse s.file).withSets m.sets))) r ↔
      SameAccess (parse s.file) r (parse s.file).rewritten r ∧
        (cleanId set ∈ m.made.map (fun x => x.2.id) →
          cleanId set ∈ (cleanSets (parse s.file).rewritten.sets).map PoolSet.id) := by
  obtain ⟨hread, hmade⟩ := calls_withSets hm set
  by_cases h : cleanId set ∈ (cleanSets (parse s.file).rewritten.sets).map PoolSet.id ∨
      cleanId set ∉ m.made.map (fun x => x.2.id)
  · have hmodels := (models_of_set hset).trans ((hread h).trans (models_of_set hset).symm)
    rw [sameAccess_congr hmodels]
    exact (and_iff_left fun hnew => h.resolve_right (not_not.mpr hnew)).symm
  · rw [not_or, not_not] at h
    obtain ⟨hout, hnew⟩ := h
    obtain ⟨x, hx, hid⟩ := List.mem_map.mp hnew
    refine iff_of_false (fun hsame => ?_) fun hboth => hout (hboth.2 hnew)
    -- the client called nothing, and calls the pool of the new set now
    have hnone : models (parse s.file) r = [] := by
      have hfree : setAt (cleanSets (parse s.file).sets) (cleanId set) = none := by
        rw [← Option.not_isSome_iff_eq_none, setAt_isSome (hid ▸ (hm.ids x hx).1)]
        exact hid ▸ hm.fresh x hx
      rw [models_of_set hset, calls_eq, hfree]
      rfl
    obtain ⟨-, -, -, -, p, -, -, hpid, hfound⟩ := made_pool hm hx
    have hcalls := (held_iff hm hx hpid hfound).mpr (hheld x hx)
    have hsaved := hsame.eq_nil hnone
    rw [models_of_set hset, calls_eq, ← hid, ← (hm.ids x hx).2, ← calls_eq] at hsaved
    rw [hsaved] at hcalls
    cases hcalls

theorem forall₂_exists {α β : Type} {R : α → β → Prop} {l : List α} {l' : List β}
    (h : List.Forall₂ R l l') {a : α} (ha : a ∈ l) : ∃ b, R a b := by
  induction h with
  | nil => cases ha
  | cons hr _ ih =>
    cases ha with
    | head => exact ⟨_, hr⟩
    | tail _ ha => exact ih ha

theorem forall₂_both {α β : Type} {R S : α → β → Prop} {l : List α} {l' : List β}
    (hR : List.Forall₂ R l l') (hS : List.Forall₂ S l l') :
    List.Forall₂ (fun a b => R a b ∧ S a b) l l' := by
  rw [List.forall₂_iff_zip] at *
  exact ⟨hR.1, fun h => ⟨hR.2 h, hS.2 h⟩⟩

/-- What the document is after the migration, for the clients with a set. -/
def KeepsSets (s : Disk) (m : Moved) : Prop :=
  ∀ r ∈ s.routes, r.kind = ("consumer" : Text) → r.set ≠ none →
    SameAccess (parse s.file) r (parse (written ((parse s.file).withSets m.sets))) r

theorem keepsSets_iff (hm : Cabled (parse s.file).readPools (cleanSets (parse s.file).sets)
    s.routes m) (hheld : ∀ x ∈ m.made, (parse s.file).Holds x) :
    KeepsSets s m ↔ Fitting (parse s.file) s.routes m.made := by
  constructor
  · intro h
    refine ⟨fun r hr hkind hne => ?_, fun r hr hkind set hset => ?_, hheld⟩
    · obtain ⟨set, hset⟩ := Option.ne_none_iff_exists'.mp hne
      exact ((same_set_iff hm hheld hset).mp (h r hr hkind hne)).1
    · have hne : r.set ≠ none := by
        rw [hset]
        exact Option.some_ne_none set
      exact ((same_set_iff hm hheld hset).mp (h r hr hkind hne)).2
  · intro h r hr hkind hne
    obtain ⟨set, hset⟩ := Option.ne_none_iff_exists'.mp hne
    exact (same_set_iff hm hheld hset).mpr ⟨h.again r hr hkind hne, h.apart r hr hkind set hset⟩

/-- After the first write. -/
theorem same_first :
    s.Same ⟨written ((parse s.file).withSets m.sets), s.routes⟩ ↔ KeepsSets s m := by
  unfold Disk.Same KeepsSets
  rw [List.forall₂_same]
  refine forall₂_congr fun r _ => forall_congr' fun _ => ?_
  constructor
  · exact fun h _ => h
  · intro h
    by_cases hset : r.set = none
    · -- a route that is not rewritten is read by its old fields
      exact sameAccess_of_eq (models_of_older hset (readPools_withSets s.file).symm)
    · exact h hset

/-- After both. -/
theorem same_second (hm : Cabled (parse s.file).readPools (cleanSets (parse s.file).sets)
    s.routes m) :
    s.Same ⟨written ((parse s.file).withSets m.sets), m.routes⟩ ↔
      KeepsSets s m ∧ ∀ x ∈ m.made, (parse s.file).Holds x := by
  constructor
  · intro h
    have hboth := forall₂_both hm.routes h
    refine ⟨fun r hr hkind hset => ?_, fun x hx => ?_⟩
    · obtain ⟨r', hrewritten, hsame⟩ := forall₂_exists hboth hr
      rw [Rewritten, if_neg fun hold => hset (of_decide_eq_true hold).2] at hrewritten
      exact hrewritten ▸ hsame hkind
    · obtain ⟨r, hr, hold, hpool, p, hp, hmodels, hid, hfound⟩ := made_pool hm hx
      obtain ⟨r', hrewritten, hsame⟩ := forall₂_exists hboth hr
      have hp' := (hsame (of_decide_eq_true hold).1).eq_singleton hp hmodels
      rw [Rewritten, if_pos hold, hpool] at hrewritten
      rcases hrewritten with ⟨hnil, -⟩ | ⟨set, hset, rfl⟩
      · exact absurd (hid.trans hnil) (kept_self (readPools_kept hp)).1
      · obtain rfl : set = x.2 :=
          congrArg Prod.snd (List.inj_on_of_nodup_map hm.keys hset hx rfl)
        rw [models_cabled] at hp'
        exact (held_iff hm hx hid hfound).mp hp'
  · rintro ⟨hkeeps, hheld⟩
    have hroutes := (List.forall₂_and_left s.routes m.routes).mpr ⟨fun r hr => hr, hm.routes⟩
    refine hroutes.imp fun r r' ⟨hr, hrewritten⟩ hkind => ?_
    unfold Rewritten at hrewritten
    split at hrewritten
    · next hold =>
      have hset := (of_decide_eq_true hold).2
      rcases hrewritten with ⟨hnil, rfl⟩ | ⟨set, hset', rfl⟩
      · refine sameAccess_of_eq ((models_none hset hnil).trans ?_)
        rw [models_cabled, calls_nil]
      · obtain ⟨-, -, -, -, p, -, -, hid, hfound⟩ := made_pool hm hset'
        have hp := (held_iff hm hset' hid hfound).mpr (hheld _ hset')
        refine sameAccess_of_eq ?_
        rw [models_cabled, hp]
        have hne : consumerPool r (parse s.file).readPools ≠ [] := by
          obtain ⟨-, -, -, -, hne⟩ := hm.users _ hset'
          exact hne
        obtain ⟨q, -, hq, hmodels⟩ := models_older hset rfl hne
        rw [← hq, found_of_models hset hmodels] at hfound
        rw [hmodels]
        exact hfound
    · next hnew =>
      subst hrewritten
      by_cases hset : r'.set = none
      · exact sameAccess_of_eq (models_of_older hset (readPools_withSets s.file).symm)
      · exact hkeeps r' hr hkind hset

theorem writes_eq (hnew : SETS_MIGRATION ∉ (parse s.file).migrations) (h : moved o s = .ok m) :
    writes o s = .ok
      (if s.routes.any Route.older then
        [⟨written ((parse s.file).withSets m.sets), s.routes⟩,
          ⟨written ((parse s.file).withSets m.sets), m.routes⟩]
      else [⟨written ((parse s.file).withSets m.sets), s.routes⟩]) := by
  unfold writes
  rw [if_neg hnew, h]
  rfl

/-- **The migration keeps what the clients call exactly if it ends and the document is
`Fitting`**, after both of its writes and after the first of them. -/
theorem migrate_preserves_iff (o : Outside) (s : Disk) (hs : Sized s) :
    Preserves o s ↔ SETS_MIGRATION ∈ (parse s.file).migrations ∨
      ∃ m, moved o s = .ok m ∧ Fitting (parse s.file) s.routes m.made := by
  by_cases hdone : SETS_MIGRATION ∈ (parse s.file).migrations
  · refine iff_of_true ⟨[], ?_, fun t ht => absurd ht List.not_mem_nil⟩ (.inl hdone)
    unfold writes
    rw [if_pos hdone]
  · rw [or_iff_right hdone]
    constructor
    · rintro ⟨states, hstates, hkeeps⟩
      have hwrites := hstates
      unfold writes at hwrites
      rw [if_neg hdone] at hwrites
      obtain ⟨m, hmoved, -⟩ := Except.bind_eq_ok hwrites
      have hm := moved_cabled hs hmoved
      rw [writes_eq hdone hmoved] at hstates
      cases hstates
      refine ⟨m, hmoved, ?_⟩
      split at hkeeps
      · obtain ⟨hkept, hheld⟩ := (same_second hm).mp
          (hkeeps _ (List.mem_cons_of_mem _ (List.mem_singleton_self _))).1
        exact (keepsSets_iff hm hheld).mp hkept
      · next hnone =>
        have hkept := same_first.mp (hkeeps _ (List.mem_singleton_self _)).1
        -- no client is of an older form, so no set is made
        refine (keepsSets_iff hm fun x hx => ?_).mp hkept
        obtain ⟨r, hr, hold, -⟩ := hm.users x hx
        exact absurd (List.any_eq_true.mpr ⟨r, hr, hold⟩) hnone
    · rintro ⟨m, hmoved, hfits⟩
      have hm := moved_cabled hs hmoved
      have hkept := (keepsSets_iff hm hfits.held).mpr hfits
      refine ⟨_, writes_eq hdone hmoved, fun t ht => ?_⟩
      have hfirst : s.Same ⟨written ((parse s.file).withSets m.sets), s.routes⟩ ∧
          writes o ⟨written ((parse s.file).withSets m.sets), s.routes⟩ = .ok [] :=
        ⟨same_first.mpr hkept, writes_withSets o s.file s.routes⟩
      split at ht
      · rcases List.mem_cons.mp ht with rfl | ht
        · exact hfirst
        · obtain rfl := List.mem_singleton.mp ht
          exact ⟨(same_second hm).mpr ⟨hkept, hfits.held⟩, writes_withSets o s.file m.routes⟩
      · obtain rfl := List.mem_singleton.mp ht
        exact hfirst

end Whole

/-! A client that may call all pools, of which the first is the one. -/

def anyPool : Route :=
  { kind := "consumer", label := "c", set := none, pool := none, models := none }

/-- The disk of a controller with one pool and one client. -/
def oneClient (poolId : Text) : Disk where
  file := .current { pools := [{ id := poolId, name := "chat", steps := [] }] }
  routes := [anyPool]

/-- The set of its pool. -/
def chatSet (poolId : Text) : PoolSet := { id := "chat", name := "chat", pools := [poolId] }

theorem one_client_kept : Preserves plain (oneClient "p") := by
  refine (migrate_preserves_iff plain (oneClient "p") ⟨by decide, by decide⟩).mpr (.inr ?_)
  refine ⟨⟨[chatSet "p"], [("p", chatSet "p")], [anyPool.cabled "chat"]⟩,
    rfl, ?_, ?_, ?_⟩
  · intro r hr hkind hne
    obtain rfl := List.mem_singleton.mp hr
    exact absurd rfl hne
  · intro r hr hkind set hset
    obtain rfl := List.mem_singleton.mp hr
    cases hset
  · intro x hx
    obtain rfl := List.mem_singleton.mp hx
    unfold Doc.Holds
    decide

/-- The id of a pool that is longer than a set keeps. -/
def LONG_ID : Text := List.replicate 81 (codePoint 'p')

theorem long_pool_lost : ∃ states, writes plain (oneClient LONG_ID) = .ok states ∧
    ∃ t ∈ states, ¬ (oneClient LONG_ID).Same t := by
  have hnew : SETS_MIGRATION ∉ (parse (oneClient LONG_ID).file).migrations := List.not_mem_nil
  have hmoved : moved plain (oneClient LONG_ID) = .ok ⟨[chatSet LONG_ID],
    [(LONG_ID, chatSet LONG_ID)], [anyPool.cabled "chat"]⟩ := rfl
  have hm := moved_cabled ⟨by decide, by decide⟩ hmoved
  refine ⟨_, writes_eq hnew hmoved, _, List.mem_cons_of_mem _ (List.mem_singleton_self _), ?_⟩
  rw [same_second hm]
  intro h
  have hheld := h.2 _ (List.mem_singleton_self _)
  unfold Doc.Holds at hheld
  revert hheld
  decide

end Cloud
