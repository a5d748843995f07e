import Caravan.Fleet.Reconcile

/-!
# The bridge of an agent's settings

`reconcile_proxy_metadata` with its answer: whether it changed a route. A port has a holder when
exactly one route of the stored assignments claims it, and the bridge is exact when the proxy's
route of a port says what the port's holder has set, with its client and role, and nothing where
the port has no holder.

What the pass makes of a route depends on the holder of its port alone (`syncRoute_eq`), so the
order of the clients and of the assignments is nothing to it (`run_reordered`), and it finds its
own work done (`run_again`). It is exact but for the routes that it leaves alone, and for the
settings that it does not copy as they are (`Met`).
-/

namespace Bridge

open Python Fleet

variable (O : Outside)

/-! ### The pass, and what it answers -/

/-- A route as far as the pass has come with it, and whether it was changed. -/
abbrev Noted := Dict × Bool

/-- A key of the copy. -/
def syncKey (s : Noted) (want : Text × Option Value) : Noted :=
  match want.2 with
  | none => if s.1.has want.1 then (s.1.filter fun p => p.1 ≠ want.1, true) else s
  | some v => if Documents.same (s.1.get want.1) v then s else (s.1.set want.1 v, true)

/-- The copy of the settings. -/
def syncSettings (wants : List (Text × Option Value)) (s : Noted) : Noted := wants.foldl syncKey s

/-- The client and the role of a port. -/
def syncOwner (m : PortMeta) (d : Dict) : Except Error Noted := do
  let owned := (d.set "clientId" (.str m.clientId)).set "role" (.str m.role)
  if (← strOf O.interp ((d.get "clientId").or (.str []))) ≠ m.clientId then return (owned, true)
  if (← strOf O.interp ((d.get "role").or (.str []))) ≠ m.role then return (owned, true)
  return (d, false)

/-- One route of the proxy. -/
def syncRoute (metas : List (ℤ × PortMeta) × List ℤ) (d : Dict) : Except Error Noted :=
  match intOf O.interp (d.get "port") with
  | .error .overflow => .error .overflow
  | .error _ => .ok (d, false)
  | .ok port =>
    if port ∈ metas.2 then .ok (syncSettings noSettings (d, false))
    else match metas.1.lookup port with
      | none => .ok (syncSettings noSettings (d, false))
      | some m =>
        if m.name = [] then .ok (d, false)
        else (syncOwner O m d).map (syncSettings (settings m))

/-- `reconcile_proxy_metadata`: the routes, and whether any was changed. -/
def run (x : Store) (routes : List Dict) : Except Error (List Dict × Bool) :=
  if (portMeta O x).1 = [] then .ok (routes, false)
  else (routes.mapM (syncRoute O (portMeta O x))).map fun done =>
    (done.map Prod.fst, done.any Prod.snd)

/-! ### The holder of a port -/

/-- A route of an agent, with the client that it is of and the name that it goes by. -/
structure Claim where
  client : Text
  name : Text
  route : ProxyRoute

/-- What a claim says of its port. -/
def Claim.meta (c : Claim) : PortMeta := metaOf c.client c.name c.route

/-- The stored routes that claim a port, each with its port. -/
def bound (x : Store) : List (ℤ × Claim) :=
  x.assignments.flatMap fun e => e.2.rows.flatMap fun a => a.routes.filterMap fun r =>
    (numberAfter O r.proxyId PROXY_ID_PREFIX).map fun port =>
      (port, ⟨e.1, rowName (Assoc.get x.clients e.1) a, r⟩)

/-- The claims to a port. -/
def claimants (x : Store) (port : ℤ) : List Claim :=
  ((bound O x).filter fun c => c.1 = port).map Prod.snd

/-- The one of a list. -/
def sole {α : Type} : List α → Option α
  | [a] => some a
  | _ => none

/-- The holder of a port: the only claim to it. -/
def holder (x : Store) (port : ℤ) : Option Claim := sole (claimants O x port)

/-- The holder of the port of a proxy's route. -/
def holderOf (x : Store) (d : Dict) : Option Claim :=
  match intOf O.interp (d.get "port") with
  | .ok port => holder O x port
  | .error _ => none

/-! ### What the bridge is for -/

/-- The settings of an agent's route, as they are set. -/
def own (r : ProxyRoute) : List (Text × Option Value) :=
  [("contextLength", r.contextLength.map .int), ("contextAuto", r.contextAuto.map .bool),
    ("modelName", r.modelName.map .str), ("modelNameAuto", r.modelNameAuto.map .bool)]

/-- The client and the role of a route, as they are read: `str(v or "")`. -/
def Owned (d : Dict) (c : Claim) : Prop :=
  strOf O.interp ((d.get "clientId").or (.str [])) = .ok c.client ∧
    strOf O.interp ((d.get "role").or (.str [])) = .ok c.route.roleOf

/-- A proxy's route says what a claim has set. -/
def Carries (d : Dict) (c : Claim) : Prop := (∀ want ∈ own c.route, Tells d want) ∧ Owned O d c

/-- A proxy's route has none of the settings. -/
def Bare (d : Dict) : Prop := ∀ want ∈ noSettings, Tells d want

/-- What should become of a proxy's route. -/
def Exact (x : Store) (d d' : Dict) : Prop :=
  match holderOf O x d with
  | some c => Carries O d' c
  | none => Bare d'

/-- The same clients and assignments in another order: of the clients, of what they have, and of
the rows of each. -/
structure Reordered (x y : Store) : Prop where
  keys : Assoc.Distinct x.clients
  clients : x.clients.Perm y.clients
  entries : ∃ z, x.assignments.Perm z ∧
    List.Forall₂ (fun e e' => e.1 = e'.1 ∧ e.2.rows.Perm e'.2.rows) z y.assignments

/-- **The bridge is exact** on a list of routes: each route becomes what it should, in any order
of the clients and assignments, and a second run changes nothing. -/
def Bridged (x : Store) (routes : List Dict) : Prop :=
  ∃ routes' changed, run O x routes = .ok (routes', changed) ∧
    List.Forall₂ (Exact O x) routes routes' ∧
    (∀ y, Reordered x y → run O y routes = .ok (routes', changed)) ∧
    run O x routes' = .ok (routes', false)

/-! ### Where it is -/

/-- A route whose settings are copied as they are: its model's name is one that is cut and
trimmed already, and no checkbox is stored as off. -/
structure Straight (r : ProxyRoute) : Prop where
  name : r.modelName.bind cleanName = r.modelName
  contextAuto : r.contextAuto ≠ some false
  modelNameAuto : r.modelNameAuto ≠ some false

/-- The client of a route can be read; and, where it is the claim's, the role. -/
def Readable (d : Dict) (c : Claim) : Prop :=
  ∃ t, strOf O.interp ((d.get "clientId").or (.str [])) = .ok t ∧
    (t = c.client → ∃ u, strOf O.interp ((d.get "role").or (.str [])) = .ok u)

/-- What a route has to meet: where it is left alone, it is as it should be already. -/
def Met (x : Store) (d : Dict) : Prop :=
  match intOf O.interp (d.get "port") with
  | .error .overflow => bound O x = [] ∧ Bare d
  | .error _ => Bare d
  | .ok port => match holder O x port with
    | none => bound O x = [] → Bare d
    | some c => if c.name = [] then Carries O d c else Straight c.route ∧ Readable O d c

variable {O} {x y : Store} {d d' : Dict} {c : Claim}

/-! ### The pass makes of the routes what `reconcileProxyMetadata` does -/

theorem syncKey_fst (s : Noted) (want : Text × Option Value) :
    (syncKey s want).1 = copyKey s.1 want := by
  unfold syncKey copyKey
  cases want.2 with
  | none =>
    dsimp only
    split
    · rfl
    · next h =>
      -- a key that is not there is filtered from nothing
      have hkey : ∀ p ∈ s.1, p.1 ≠ want.1 := fun p hp hk =>
        h (mem_keys_iff.mp (List.mem_map.mpr ⟨p, hp, hk⟩))
      exact (List.filter_eq_self.mpr fun p hp => by simpa using hkey p hp).symm
  | some v =>
    dsimp only
    split <;> rfl

theorem syncSettings_fst (wants : List (Text × Option Value)) (s : Noted) :
    (syncSettings wants s).1 = copySettings wants s.1 := by
  induction wants generalizing s with
  | nil => rfl
  | cons want wants ih =>
    show (syncSettings wants (syncKey s want)).1 = copySettings wants (copyKey s.1 want)
    rw [ih, syncKey_fst]

/-! ### A claim is the only one, or there are several -/

theorem claims_eq (x : Store) :
    claims O x = (bound O x).map fun c => (c.1, c.2.meta) := by
  unfold claims bound
  rw [List.map_flatMap]
  refine List.flatMap_congr fun e _ => ?_
  rw [List.map_flatMap]
  refine List.flatMap_congr fun a _ => ?_
  rw [List.map_filterMap]
  refine List.filterMap_congr fun r _ => ?_
  rw [Option.map_map]
  rfl

theorem lookup_append_one (ms : List (ℤ × PortMeta)) (c : ℤ × PortMeta) (port : ℤ) :
    (ms ++ [c]).lookup port =
      (ms.lookup port).or (if port = c.1 then some c.2 else none) := by
  rw [List.lookup_append, List.lookup_cons, List.lookup_nil]
  by_cases h : port = c.1
  · rw [if_pos h, beq_iff_eq.mpr h]
  · rw [if_neg h, beq_eq_false_iff_ne.mpr h]

theorem lookup_noteClaim (s : List (ℤ × PortMeta) × List ℤ) (c : ℤ × PortMeta) (port : ℤ) :
    (noteClaim s c).1.lookup port =
      (s.1.lookup port).or (if port = c.1 then some c.2 else none) := by
  unfold noteClaim
  by_cases hs : (s.1.lookup c.1).isSome = true
  · rw [if_pos hs]
    by_cases h : port = c.1
    · obtain ⟨m, hm⟩ := Option.isSome_iff_exists.mp hs
      rw [h, hm, Option.some_or]
    · rw [if_neg h, Option.or_none]
  · rw [if_neg hs]
    exact lookup_append_one _ _ _

theorem mem_noteClaim (s : List (ℤ × PortMeta) × List ℤ) (c : ℤ × PortMeta) (port : ℤ) :
    port ∈ (noteClaim s c).2 ↔
      port ∈ s.2 ∨ port = c.1 ∧ (s.1.lookup c.1).isSome = true := by
  unfold noteClaim
  by_cases hs : (s.1.lookup c.1).isSome = true
  · rw [if_pos hs, and_iff_left hs]
    dsimp only
    split
    · next h => exact ⟨.inl, fun h' => h'.elim id fun he => he ▸ h⟩
    · rw [List.mem_append, List.mem_singleton]
  · rw [if_neg hs]
    exact (or_iff_left fun h => hs h.2).symm

/-- What the claims add up to: of each port the first claim to it, and the ports that come more
than once. -/
theorem noteClaim_foldl (cs : List (ℤ × PortMeta)) (port : ℤ) :
    (cs.foldl noteClaim ([], [])).1.lookup port = cs.lookup port ∧
      (port ∈ (cs.foldl noteClaim ([], [])).2 ↔ 2 ≤ (cs.map Prod.fst).count port) := by
  induction cs using List.reverseRecOn generalizing port with
  | nil => simp
  | append_singleton cs c ih =>
    have hseen : (cs.lookup c.1).isSome = true ↔ 0 < (cs.map Prod.fst).count c.1 := by
      rw [List.count_pos_iff, ← Bool.not_eq_false, lookup_none_iff, not_not]
    obtain ⟨hlook, hmem⟩ := ih port
    rw [List.foldl_append, List.foldl_cons, List.foldl_nil, lookup_noteClaim, mem_noteClaim,
      lookup_append_one, hlook, hmem, (ih c.1).1, hseen, List.map_append, List.count_append,
      List.map_singleton, List.count_singleton]
    refine ⟨rfl, ?_⟩
    by_cases h : port = c.1
    · subst h
      rw [beq_self_eq_true, if_pos rfl]
      omega
    · rw [beq_eq_false_iff_ne.mpr (Ne.symm h)]
      simp [h]

/-! ### What becomes of a route -/

theorem count_bound (x : Store) (port : ℤ) :
    ((claims O x).map Prod.fst).count port = (claimants O x port).length := by
  rw [claims_eq, List.map_map, claimants, List.length_map, ← List.countP_eq_length_filter,
    List.count, List.countP_map]
  refine List.countP_congr fun c _ => ?_
  simp

theorem lookup_bound (x : Store) (port : ℤ) :
    (claims O x).lookup port = ((claimants O x port).head?).map Claim.meta := by
  rw [claims_eq]
  unfold claimants
  induction bound O x with
  | nil => rfl
  | cons c cs ih =>
    rw [List.map_cons, List.lookup_cons, List.filter_cons]
    by_cases h : c.1 = port
    · rw [beq_iff_eq.mpr h.symm, if_pos (decide_eq_true h)]
      rfl
    · rw [beq_eq_false_iff_ne.mpr (Ne.symm h), if_neg (by simpa using h)]
      exact ih

theorem sole_eq_none {α : Type} {l : List α} (h : sole l = none) :
    l = [] ∨ 2 ≤ l.length := by
  match l, h with
  | [], _ => exact .inl rfl
  | _ :: _ :: _, _ => exact .inr (by simp)

theorem sole_eq_some {α : Type} {l : List α} {a : α} (h : sole l = some a) : l = [a] := by
  match l, h with
  | [b], h => rw [Option.some.inj h]

theorem bound_nil_iff : bound O x = [] ↔ (portMeta O x).1 = [] := by
  have hlook := fun port => (noteClaim_foldl (claims O x) port).1
  constructor
  · intro h
    rw [portMeta, claims_eq, h]
    rfl
  · intro h
    -- the first claim has a port, which is looked up
    cases hb : bound O x with
    | nil => rfl
    | cons c cs =>
      have hc := hlook c.1
      rw [← portMeta, h, claims_eq, hb, List.map_cons, List.lookup_cons, beq_self_eq_true] at hc
      cases hc

/-- **What the pass makes of a route** depends on the holder of its port alone. -/
theorem syncRoute_eq {port : ℤ} (hport : intOf O.interp (d.get "port") = .ok port) :
    syncRoute O (portMeta O x) d = match holder O x port with
      | none => .ok (syncSettings noSettings (d, false))
      | some c =>
        if c.name = [] then .ok (d, false)
        else (syncOwner O c.meta d).map (syncSettings (settings c.meta)) := by
  obtain ⟨hlook, hmem⟩ := noteClaim_foldl (claims O x) port
  rw [← portMeta] at hlook hmem
  rw [count_bound] at hmem
  rw [lookup_bound] at hlook
  unfold syncRoute
  rw [hport]
  dsimp only
  cases hh : holder O x port with
  | none =>
    dsimp only
    cases sole_eq_none hh with
    | inl hnil =>
      rw [if_neg (by rw [hmem, hnil]; simp), hlook, hnil]
      rfl
    | inr htwo => rw [if_pos (hmem.mpr htwo)]
  | some c =>
    have hone := sole_eq_some hh
    rw [if_neg (by rw [hmem, hone]; simp), hlook, hone]
    rfl

/-! ### Any order -/

theorem sole_perm {α : Type} {l l' : List α} (h : l.Perm l') : sole l = sole l' := by
  match l, l', h.length_eq with
  | [], [], _ => rfl
  | [a], [b], _ => rw [List.singleton_perm_singleton.mp h]
  | _ :: _ :: _, _ :: _ :: _, _ => rfl

/-- **The claims are the same**, in another order. -/
theorem Reordered.bound (h : Reordered x y) : (bound O x).Perm (bound O y) := by
  obtain ⟨z, hperm, hrows⟩ := h.entries
  have hget := fun k => Assoc.get_perm h.clients h.keys k
  unfold Bridge.bound
  simp only [hget]
  refine (hperm.flatMap_right _).trans ?_
  clear hperm
  generalize y.assignments = ys at hrows
  induction hrows with
  | nil => exact .refl _
  | cons he _ ih =>
    rw [List.flatMap_cons, List.flatMap_cons, he.1]
    exact (he.2.flatMap_right _).append ih

theorem Reordered.holder (h : Reordered x y) (port : ℤ) : holder O x port = holder O y port :=
  sole_perm ((h.bound.filter _).map _)

/-- **The order is nothing to the pass.** -/
theorem run_reordered (h : Reordered x y) (routes : List Dict) : run O x routes = run O y routes := by
  have hempty : (portMeta O x).1 = [] ↔ (portMeta O y).1 = [] := by
    rw [← bound_nil_iff, ← bound_nil_iff]
    exact ⟨fun hx => List.perm_nil.mp (hx ▸ h.bound.symm),
      fun hy => List.perm_nil.mp (hy ▸ h.bound)⟩
  have hroute : syncRoute O (portMeta O x) = syncRoute O (portMeta O y) := by
    funext d
    cases hport : intOf O.interp (d.get "port") with
    | error e =>
      unfold syncRoute
      rw [hport]
      cases e <;> rfl
    | ok port => rw [syncRoute_eq hport, syncRoute_eq hport, h.holder]
  unfold run
  simp only [hempty, hroute]

/-! ### A second run -/

theorem syncKey_told {s : Noted} {want : Text × Option Value} (h : Tells s.1 want) :
    syncKey s want = s := by
  unfold Tells at h
  unfold syncKey
  cases hw : want.2 with
  | none =>
    rw [hw] at h
    dsimp only
    rw [if_neg]
    unfold Dict.has
    rw [h]
    exact Bool.false_ne_true
  | some v =>
    rw [hw] at h
    obtain ⟨w, hlook, hsame⟩ := h
    dsimp only
    rw [if_pos (by rw [Dict.get_of_lookup hlook]; exact hsame)]

/-- A route that says what it should is left as it is. -/
theorem syncSettings_told {wants : List (Text × Option Value)} {s : Noted}
    (h : ∀ want ∈ wants, Tells s.1 want) : syncSettings wants s = s := by
  induction wants with
  | nil => rfl
  | cons want wants ih =>
    show syncSettings wants (syncKey s want) = s
    rw [syncKey_told (h want List.mem_cons_self)]
    exact ih fun w hw => h w (List.mem_cons_of_mem _ hw)

/-- The keys of the settings. -/
def KEYS : List Text := ["contextLength", "contextAuto", "modelName", "modelNameAuto"]

theorem bare_synced (d : Dict) (b : Bool) : Bare (syncSettings noSettings (d, b)).1 := by
  have hkeys : Assoc.Distinct noSettings := by
    show KEYS.Nodup
    decide
  rw [syncSettings_fst]
  refine copySettings_told hkeys (fun want hw v hv => ?_) d
  simp only [noSettings, List.mem_cons, List.not_mem_nil, or_false] at hw
  obtain rfl | rfl | rfl | rfl := hw <;> exact nomatch hv

theorem get_synced {wants : List (Text × Option Value)} (hw : wants.map Prod.fst = KEYS)
    (s : Noted) {k : Text} (hk : k ∉ KEYS) : (syncSettings wants s).1.get k = s.1.get k := by
  unfold Dict.get
  rw [syncSettings_fst, lookup_copySettings wants _ (hw ▸ hk)]

theorem strOf_or_text (t : Text) : strOf O.interp ((Value.str t).or (.str [])) = .ok t := by
  cases t <;> rfl

/-- A route of the claim's client and role is left as it is. -/
theorem syncOwner_owned (h : Owned O d c) : syncOwner O c.meta d = .ok (d, false) := by
  have hclient : ¬ c.client ≠ c.meta.clientId := fun hne => hne rfl
  have hrole : ¬ c.route.roleOf ≠ c.meta.role := fun hne => hne rfl
  unfold syncOwner
  rw [h.1, h.2]
  dsimp only [bind, Except.bind]
  rw [if_neg hclient, if_neg hrole]
  rfl

/-- The client and the role of a claim, as they are written. -/
theorem owned_set (d : Dict) (c : Claim) :
    Owned O ((d.set "clientId" (.str c.client)).set "role" (.str c.route.roleOf)) c := by
  constructor
  · rw [Dict.get_set, if_neg (by decide), Dict.get_set, if_pos rfl]
    exact strOf_or_text _
  · rw [Dict.get_set, if_pos rfl]
    exact strOf_or_text _

/-- A route whose client and role are copied has them, and its other keys stay. -/
theorem syncOwner_spec {s : Noted} (h : syncOwner O c.meta d = .ok s) :
    Owned O s.1 c ∧ ∀ k, k ≠ Text.of "clientId" → k ≠ Text.of "role" → s.1.get k = d.get k := by
  have hset : ∀ k, k ≠ Text.of "clientId" → k ≠ Text.of "role" →
      ((d.set "clientId" (.str c.client)).set "role" (.str c.route.roleOf)).get k = d.get k := by
    intro k hclient hrole
    rw [Dict.get_set, if_neg hrole, Dict.get_set, if_neg hclient]
  unfold syncOwner at h
  obtain ⟨client, hclient, h⟩ := Except.bind_eq_ok h
  split at h
  · cases h
    exact ⟨owned_set d c, hset⟩
  next hsame =>
    obtain ⟨role, hrole, h⟩ := Except.bind_eq_ok h
    split at h
    · cases h
      exact ⟨owned_set d c, hset⟩
    next hsame' =>
      cases h
      have hclient' : client = c.client := not_not.mp hsame
      have hrole' : role = c.route.roleOf := not_not.mp hsame'
      exact ⟨⟨hclient' ▸ hclient, hrole' ▸ hrole⟩, fun _ _ _ => rfl⟩

/-- The client and the role are of two keys. -/
theorem Owned.congr (h : Owned O d c) (hclient : d'.get "clientId" = d.get "clientId")
    (hrole : d'.get "role" = d.get "role") : Owned O d' c := by
  unfold Owned
  rw [hclient, hrole]
  exact h

/-- What the pass leaves of a route that has a holder with a name. -/
theorem synced_spec {s : Noted} (h : syncOwner O c.meta d = .ok s) :
    (∀ want ∈ settings c.meta, Tells (syncSettings (settings c.meta) s).1 want) ∧
      Owned O (syncSettings (settings c.meta) s).1 c ∧
      (syncSettings (settings c.meta) s).1.get "port" = d.get "port" := by
  obtain ⟨howned, hkeep⟩ := syncOwner_spec h
  refine ⟨?_, howned.congr (get_synced rfl s (by decide)) (get_synced rfl s (by decide)), ?_⟩
  · rw [syncSettings_fst]
    exact settings_told c.meta s.1
  · rw [get_synced rfl s (by decide)]
    exact hkeep _ (by decide) (by decide)

/-- A route whose port is no number is left alone, but for the one that ends the pass. -/
theorem syncRoute_unnumbered (metas : List (ℤ × PortMeta) × List ℤ) {e : Error}
    (hport : intOf O.interp (d.get "port") = .error e) :
    e = .overflow ∧ syncRoute O metas d = .error .overflow ∨
      e ≠ .overflow ∧ syncRoute O metas d = .ok (d, false) := by
  unfold syncRoute
  rw [hport]
  cases e with
  | overflow => exact .inl ⟨rfl, rfl⟩
  | _ => exact .inr ⟨nofun, rfl⟩

theorem syncRoute_bare {port : ℤ} (hport : intOf O.interp (d.get "port") = .ok port)
    (hh : holder O x port = none) :
    syncRoute O (portMeta O x) (syncSettings noSettings (d, false)).1 =
      .ok ((syncSettings noSettings (d, false)).1, false) := by
  have hport' : intOf O.interp ((syncSettings noSettings (d, false)).1.get "port") = .ok port := by
    rw [get_synced rfl _ (by decide), hport]
  have htold := syncSettings_told (s := ((syncSettings noSettings (d, false)).1, false))
    (bare_synced d false)
  rw [syncRoute_eq hport', hh]
  exact congrArg Except.ok htold

/-- **A route that the pass went through** is left as it is. -/
theorem syncRoute_again {s : Noted} (h : syncRoute O (portMeta O x) d = .ok s) :
    syncRoute O (portMeta O x) s.1 = .ok (s.1, false) := by
  cases hport : intOf O.interp (d.get "port") with
  | error e =>
    cases syncRoute_unnumbered (portMeta O x) hport with
    | inl he => exact nomatch he.2.symm.trans h
    | inr he =>
      obtain rfl := Except.ok.inj (he.2.symm.trans h)
      exact h
  | ok port =>
    have heq := (syncRoute_eq (x := x) hport).symm.trans h
    cases hh : holder O x port with
    | none =>
      rw [hh] at heq
      obtain rfl := Except.ok.inj heq
      exact syncRoute_bare hport hh
    | some c =>
      rw [hh] at heq
      dsimp only at heq
      split at heq
      next =>
        -- nothing was done
        obtain rfl := Except.ok.inj heq
        exact h
      next hname =>
        obtain ⟨t, ht, rfl⟩ := Except.map_eq_ok heq
        obtain ⟨htold, howned, hkeep⟩ := synced_spec ht
        rw [syncRoute_eq (hkeep ▸ hport), hh]
        dsimp only
        rw [if_neg hname, syncOwner_owned howned]
        exact congrArg Except.ok (syncSettings_told htold)

/-- **A second run changes nothing.** -/
theorem run_again {routes routes' : List Dict} {changed : Bool}
    (h : run O x routes = .ok (routes', changed)) : run O x routes' = .ok (routes', false) := by
  unfold run at h ⊢
  split at h
  · next hnone =>
    obtain ⟨rfl, -⟩ := Prod.mk.inj (Except.ok.inj h)
    rw [if_pos hnone]
  · next hsome =>
    obtain ⟨done, hdone, heq⟩ := Except.map_eq_ok h
    obtain ⟨rfl, -⟩ := Prod.mk.inj heq
    have hagain : (done.map Prod.fst).mapM (syncRoute O (portMeta O x)) =
        .ok ((done.map Prod.fst).map fun d => (d, false)) := by
      refine Except.mapM_ok fun d hd => ?_
      obtain ⟨s, hs, rfl⟩ := List.mem_map.mp hd
      obtain ⟨d₀, -, h₀⟩ := Except.mem_mapM hdone hs
      exact syncRoute_again h₀
    rw [if_neg hsome, hagain]
    simp [Except.map, Function.comp_def]

/-! ### Where the bridge is exact -/

theorem same_str {w : Value} {t : Text} (h : Documents.same w (.str t) = true) : w = .str t := by
  cases w with
  | str s => rw [of_decide_eq_true h]
  | _ => simp [Documents.same, Documents.numberOf] at h

theorem same_bool {w : Value} {b : Bool} (h : Documents.same w (.bool b) = true) :
    Documents.numberOf w = some (if b then 1 else 0) := by
  cases w with
  | bool | int => exact congrArg some (of_decide_eq_true h)
  | float f =>
    cases f with
    | finite => exact congrArg some (of_decide_eq_true h)
    | _ => cases h
  | _ => cases h

/-- Of a key that says two things, the two are one. -/
theorem tells_unique {α : Type} {f : α → Value} {k : Text} {u v : Option α}
    (hf : ∀ a b w, Documents.same w (f a) = true → Documents.same w (f b) = true → a = b)
    (hu : Tells d (k, u.map f)) (hv : Tells d (k, v.map f)) : u = v := by
  unfold Tells at hu hv
  cases u with
  | none =>
    cases v with
    | none => rfl
    | some b =>
      obtain ⟨w, hw, -⟩ := hv
      exact nomatch hu.symm.trans hw
  | some a =>
    obtain ⟨w, hw, ha⟩ := hu
    cases v with
    | none => exact nomatch hw.symm.trans hv
    | some b =>
      obtain ⟨w', hw', hb⟩ := hv
      obtain rfl := Option.some.inj (hw.symm.trans hw')
      rw [hf a b w ha hb]

theorem bool_unique (a b : Bool) (w : Value) (ha : Documents.same w (.bool a) = true)
    (hb : Documents.same w (.bool b) = true) : a = b := by
  have h := (same_bool ha).symm.trans (same_bool hb)
  revert h
  cases a <;> cases b <;> simp

theorem str_unique (s t : Text) (w : Value) (hs : Documents.same w (.str s) = true)
    (ht : Documents.same w (.str t) = true) : s = t :=
  Value.str.inj ((same_str hs).symm.trans (same_str ht))

theorem orNone_eq_self {flag : Option Bool} : orNone flag = flag ↔ flag ≠ some false := by
  cases flag with
  | none => simp [orNone]
  | some b => cases b <;> simp [orNone]

/-- Settings that are copied as they are. -/
theorem Straight.settings (h : Straight c.route) : Fleet.settings c.meta = own c.route := by
  unfold Fleet.settings own Claim.meta metaOf
  rw [h.name, orNone_eq_self.mpr h.contextAuto, orNone_eq_self.mpr h.modelNameAuto]

/-- **What is copied is what is set** exactly where the settings are copied as they are. -/
theorem straight_iff (h : ∀ want ∈ settings c.meta, Tells d want) :
    (∀ want ∈ own c.route, Tells d want) ↔ Straight c.route := by
  constructor
  · intro hown
    have hauto := tells_unique bool_unique (h _ (.tail _ (.head _))) (hown _ (.tail _ (.head _)))
    have hname := tells_unique str_unique (h _ (.tail _ (.tail _ (.head _))))
      (hown _ (.tail _ (.tail _ (.head _))))
    have hnameAuto := tells_unique bool_unique (h _ (.tail _ (.tail _ (.tail _ (.head _)))))
      (hown _ (.tail _ (.tail _ (.tail _ (.head _)))))
    exact ⟨hname, orNone_eq_self.mp hauto, orNone_eq_self.mp hnameAuto⟩
  · intro hstraight
    rw [← hstraight.settings]
    exact h

theorem syncOwner_ok_iff : (∃ s, syncOwner O c.meta d = .ok s) ↔ Readable O d c := by
  have hclient : c.meta.clientId = c.client := rfl
  unfold syncOwner Readable
  rw [hclient]
  cases strOf O.interp ((d.get "clientId").or (.str [])) with
  | error =>
    constructor
    · rintro ⟨_, h⟩
      exact nomatch h
    · rintro ⟨_, h, _⟩
      exact nomatch h
  | ok t =>
    dsimp only [bind, Except.bind]
    by_cases ht : t = c.client
    · rw [if_neg (not_not.mpr ht)]
      cases strOf O.interp ((d.get "role").or (.str [])) with
      | error =>
        constructor
        · rintro ⟨_, h⟩
          exact nomatch h
        · rintro ⟨t', h, hrole⟩
          obtain ⟨_, hu⟩ := hrole (Except.ok.inj h ▸ ht)
          exact nomatch hu
      | ok u =>
        refine iff_of_true ?_ ⟨t, rfl, fun _ => ⟨u, rfl⟩⟩
        dsimp only
        split
        · exact ⟨_, rfl⟩
        · exact ⟨_, rfl⟩
    · rw [if_pos ht]
      exact iff_of_true ⟨_, rfl⟩ ⟨t, rfl, fun he => absurd he ht⟩

theorem holderOf_numbered {port : ℤ} (hport : intOf O.interp (d.get "port") = .ok port) :
    holderOf O x d = holder O x port := by
  unfold holderOf
  rw [hport]

theorem holderOf_unnumbered {e : Error} (hport : intOf O.interp (d.get "port") = .error e) :
    holderOf O x d = none := by
  unfold holderOf
  rw [hport]

/-- **A route becomes what it should** exactly where it meets what it has to, of a pass that goes
through the routes. -/
theorem exact_iff (hbound : bound O x ≠ []) :
    (∃ s, syncRoute O (portMeta O x) d = .ok s ∧ Exact O x d s.1) ↔ Met O x d := by
  unfold Exact Met
  cases hport : intOf O.interp (d.get "port") with
  | error e =>
    rw [holderOf_unnumbered hport]
    cases syncRoute_unnumbered (portMeta O x) hport with
    | inl he =>
      obtain ⟨rfl, he⟩ := he
      rw [he]
      exact iff_of_false (fun ⟨_, h, _⟩ => nomatch h) fun h => hbound h.1
    | inr he =>
      obtain ⟨hne, he⟩ := he
      rw [he]
      cases e with
      | overflow => exact absurd rfl hne
      | _ =>
        constructor
        · rintro ⟨_, h, hbare⟩
          obtain rfl := Except.ok.inj h
          exact hbare
        · exact fun h => ⟨_, rfl, h⟩
  | ok port =>
    rw [holderOf_numbered hport, syncRoute_eq hport]
    cases hh : holder O x port with
    | none =>
      dsimp only
      rw [hh]
      exact iff_of_true ⟨_, rfl, bare_synced d false⟩ fun h => absurd h hbound
    | some c =>
      dsimp only
      rw [hh]
      dsimp only
      split
      · constructor
        · rintro ⟨_, h, hc⟩
          obtain rfl := Except.ok.inj h
          exact hc
        · exact fun h => ⟨_, rfl, h⟩
      · constructor
        · rintro ⟨s, hs, hown, -⟩
          obtain ⟨t, ht, rfl⟩ := Except.map_eq_ok hs
          exact ⟨(straight_iff (synced_spec ht).1).mp hown, syncOwner_ok_iff.mp ⟨t, ht⟩⟩
        · rintro ⟨hstraight, hread⟩
          obtain ⟨t, ht⟩ := syncOwner_ok_iff.mpr hread
          obtain ⟨htold, howned, -⟩ := synced_spec ht
          rw [ht]
          exact ⟨_, rfl, (straight_iff htold).mpr hstraight, howned⟩

/-- The same, of a pass that ends before the routes. -/
theorem exact_self_iff (hbound : bound O x = []) : Exact O x d d ↔ Met O x d := by
  have hnone : ∀ port, holder O x port = none := by
    intro port
    unfold holder claimants
    rw [hbound]
    rfl
  unfold Exact Met
  cases hport : intOf O.interp (d.get "port") with
  | error e =>
    rw [holderOf_unnumbered hport]
    cases e with
    | overflow => exact (and_iff_right hbound).symm
    | _ => rfl
  | ok port =>
    rw [holderOf_numbered hport]
    dsimp only
    rw [hnone]
    exact ⟨fun h _ => h, fun h => h hbound⟩

theorem run_ended (hbound : bound O x = []) (routes : List Dict) :
    run O x routes = .ok (routes, false) := if_pos (bound_nil_iff.mp hbound)

/-- What a pass that goes through the routes makes of them is what it makes of each. -/
theorem run_exact_iff (hbound : bound O x ≠ []) (routes : List Dict) :
    (∃ routes' changed, run O x routes = .ok (routes', changed) ∧
      List.Forall₂ (Exact O x) routes routes') ↔
    ∀ d ∈ routes, ∃ s, syncRoute O (portMeta O x) d = .ok s ∧ Exact O x d s.1 := by
  have hmeta : ¬ (portMeta O x).1 = [] := fun h => hbound (bound_nil_iff.mpr h)
  unfold run
  rw [if_neg hmeta]
  constructor
  · rintro ⟨routes', changed, hrun, hexact⟩
    obtain ⟨done, hdone, heq⟩ := Except.map_eq_ok hrun
    obtain ⟨rfl, -⟩ := Prod.mk.inj heq
    rw [List.forall₂_map_right_iff] at hexact
    have hall := Except.mapM_eq_ok hdone
    clear hdone heq hrun
    induction hall with
    | nil => exact fun _ hd => absurd hd List.not_mem_nil
    | cons hs _ ih =>
      cases hexact with
      | cons hd hrest =>
        intro d hmem
        cases List.mem_cons.mp hmem with
        | inl he => exact he ▸ ⟨_, hs, hd⟩
        | inr hmem => exact ih hrest d hmem
  · intro h
    obtain ⟨done, hdone, hexact⟩ := Except.mapM_exists h
    rw [hdone]
    exact ⟨_, _, rfl, List.forall₂_map_right_iff.mpr hexact⟩

/-- **The bridge is exact** on a list of routes exactly where each of them meets what it has to. -/
theorem bridged_iff_met (O : Outside) (x : Store) (routes : List Dict) :
    Bridged O x routes ↔ ∀ d ∈ routes, Met O x d := by
  -- the order and the second run come with any answer
  have hfree : Bridged O x routes ↔ ∃ routes' changed, run O x routes = .ok (routes', changed) ∧
      List.Forall₂ (Exact O x) routes routes' := by
    constructor
    · rintro ⟨routes', changed, hrun, hexact, -, -⟩
      exact ⟨routes', changed, hrun, hexact⟩
    · rintro ⟨routes', changed, hrun, hexact⟩
      exact ⟨routes', changed, hrun, hexact, fun y hy => run_reordered hy routes ▸ hrun,
        run_again hrun⟩
  rw [hfree]
  by_cases hbound : bound O x = []
  · rw [run_ended hbound]
    constructor
    · rintro ⟨routes', changed, hrun, hexact⟩
      obtain ⟨rfl, -⟩ := Prod.mk.inj (Except.ok.inj hrun)
      exact fun d hd => (exact_self_iff hbound).mp (List.forall₂_same.mp hexact d hd)
    · intro h
      exact ⟨routes, false, rfl, List.forall₂_same.mpr fun d hd =>
        (exact_self_iff hbound).mpr (h d hd)⟩
  · rw [run_exact_iff hbound]
    exact forall₂_congr fun d _ => exact_iff hbound

/-! ### The last claim is gone -/

/-- A client whose agent has no port any more. -/
def unbound : Store where
  clients := [("c", ⟨"C", [], [("a", "A")]⟩)]
  assignments := [("c", ⟨0, [⟨"a", []⟩]⟩)]
  made := 1

/-- **A copy is left** on the route of the port that it had, where no port is claimed at all. -/
theorem copy_left : run here unbound [portRoute] = .ok ([portRoute], false) ∧
    ¬ Bridged here unbound [portRoute] := by
  refine ⟨rfl, ?_⟩
  rintro ⟨routes', changed, hrun, hexact, -, -⟩
  obtain ⟨rfl, -⟩ := Prod.mk.inj (Except.ok.inj hrun)
  have hbare : Bare portRoute := List.forall₂_same.mp hexact portRoute List.mem_cons_self
  have hnone : List.lookup (Text.of "contextLength") portRoute = none :=
    hbare ("contextLength", none) List.mem_cons_self
  exact absurd (congrArg Option.isSome hnone) (by decide)

end Bridge
