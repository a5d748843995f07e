import Caravan.Proxy.Books
import Caravan.Proxy.Doors
import Caravan.Python.Dict
import Caravan.Settings.Import

/-!
# Which routes an import leaves locked

An export writes a placeholder over the key of a route, and an import puts in its place
the key that the machine's own route of that port has, or none. A route that is read back
with no key is an open one, so the route of the file stays locked exactly when the machine
has such a route with a key (`import_locks_iff`).
-/

namespace Settings

open Python Proxy.Door

/-! ### Keys -/

/-- The key of a raw route, as the proxy reads it. -/
def keyText (r : Dict) : Text :=
  match Dict.get r "apiKey" with
  | .str t => t.strip
  | _ => []

/-- A key as the controller writes it: a text, or none at all. -/
def TextKey (v : Value) : Prop := v = .null ∨ ∃ t, v = .str t

/-- What the proxy makes of such a value. -/
def textOf : Value → Text
  | .str t => t.strip
  | _ => []

theorem strOf_key {I : Interp} {v : Value} (h : TextKey v) :
    ∃ t, strOf I (v.or "") = .ok t ∧ t.strip = textOf v := by
  rcases h with rfl | ⟨t, rfl⟩
  · exact ⟨[], rfl, rfl⟩
  · by_cases ht : t = []
    · subst ht
      exact ⟨[], rfl, rfl⟩
    · have hor : (Value.str t).or "" = .str t := by
        unfold Value.or Value.truthy
        rw [if_pos (decide_eq_true ht)]
      exact ⟨t, by rw [hor]; rfl, rfl⟩

/-! ### A route with another key -/

variable {I : Interp} {isdigit : CodePoint → Bool}

theorem readEach_set {f : Value → Except Error Unit} {r : Dict} {v : Value} {keys : List Text}
    (h : ∀ k ∈ keys, k ≠ Text.of "apiKey") :
    readEach f (r.set "apiKey" v) keys = readEach f r keys := by
  induction keys with
  | nil => rfl
  | cons k keys ih =>
    unfold readEach
    rw [Dict.get_set, if_neg (h k List.mem_cons_self),
      ih fun x hx => h x (List.mem_cons_of_mem k hx)]

theorem readOthers_set (r : Dict) (v : Value) :
    readOthers I isdigit (r.set "apiKey" v) = readOthers I isdigit r := by
  unfold readOthers
  rw [readEach_set (by decide), readEach_set (by decide), readEach_set (by decide),
    readEach_set (by decide)]

/-- **A key decides about itself alone.** -/
theorem normalizeRoute_set {r : Dict} {v : Value} (hr : TextKey (r.get "apiKey"))
    (hv : TextKey v) :
    normalizeRoute I isdigit (r.set "apiKey" v) =
      (normalizeRoute I isdigit r).map fun q => { q with apiKey := textOf v } := by
  obtain ⟨t, ht, -⟩ := strOf_key (I := I) hr
  obtain ⟨u, hu, hu'⟩ := strOf_key (I := I) hv
  have hget (k : Text) (hk : k ≠ Text.of "apiKey") : (r.set "apiKey" v).get k = r.get k := by
    rw [Dict.get_set, if_neg hk]
  have henabled : enabledOf (r.set "apiKey" v) = enabledOf r := by
    unfold enabledOf
    rw [Dict.lookup_set, if_neg (by decide)]
  unfold normalizeRoute
  rw [hget "port" (by decide), hget "kind" (by decide), hget "portClosed" (by decide),
    readOthers_set, henabled, Dict.get_set, if_pos rfl, ht, hu]
  simp only [Except.map_bind]
  congr 1
  funext port
  congr 1
  funext kind
  split
  · rfl
  · rw [Except.map_bind]
    congr 1
    funext _
    show Except.ok _ = Except.ok _
    rw [hu']

/-! ### A route that went out and came back -/

/-- What becomes of a route of the exported list. -/
inductive Regrafted (I : Interp) (donors : List (Text × Dict)) : Value → Value → Prop
  | other {v : Value} (h : ∀ r, v ≠ .dict r) : Regrafted I donors v v
  | bare {r : Dict} (h : (Dict.get r "apiKey").truthy = false) :
      Regrafted I donors (.dict r) (.dict r)
  | keyed {r : Dict} {port : Text} (h : (Dict.get r "apiKey").truthy = true)
      (hport : strOf I (Dict.get r "port") = .ok port) :
      Regrafted I donors (.dict r)
        (.dict (Dict.set r "apiKey" (((donor donors port).lookup (Text.of "apiKey")).getD "")))

theorem regrafted {donors : List (Text × Dict)} {v w : Value}
    (h : graftRoute I donors (redactRoute v) = .ok w) : Regrafted I donors v w := by
  cases v with
  | dict r =>
    simp only [redactRoute] at h
    by_cases hk : (Dict.get r "apiKey").truthy = true
    · rw [if_pos hk] at h
      simp only [graftRoute] at h
      rw [Dict.get_set, if_pos rfl, if_pos (by decide)] at h
      obtain ⟨port, hport, h⟩ := Except.bind_eq_ok h
      cases h
      rw [Dict.set_set]
      rw [Dict.get_set, if_neg (by decide)] at hport
      exact .keyed hk hport
    · rw [if_neg hk] at h
      have hk : (Dict.get r "apiKey").truthy = false := Bool.eq_false_of_not_eq_true hk
      have hno : isRedacted (Dict.get r "apiKey") = false := not_redacted hk
      simp only [graftRoute, hno] at h
      cases h
      exact .bare hk
  | _ =>
    cases h
    exact .other fun r => Value.noConfusion

/-! ### Where a key comes from -/

/-- Two raw routes under one port, as the import compares them. -/
def SamePort (I : Interp) (r s : Dict) : Prop :=
  strOf I (Dict.get r "port") = strOf I (Dict.get s "port")

/-- The last route of a list under the port of `r` has a key. -/
def HasDonor (I : Interp) (rs : List Value) (r : Dict) : Prop :=
  ∃ pre d post, rs = pre ++ .dict d :: post ∧ SamePort I d r ∧
    (∀ x, .dict x ∈ post → ¬ SamePort I x r) ∧ keyText d ≠ []

/-- The value that takes the placeholder's place. -/
def graftedKey (donors : List (Text × Dict)) (port : Text) : Value :=
  ((donor donors port).lookup (Text.of "apiKey")).getD ""

/-- The routes of a list carry keys as the controller writes them. -/
def TextKeys (rs : List Value) : Prop := ∀ r, .dict r ∈ rs → TextKey (Dict.get r "apiKey")

theorem textOf_lookup (d : Dict) :
    textOf ((d.lookup (Text.of "apiKey")).getD "") = keyText d := by
  unfold keyText Dict.get
  cases d.lookup (Text.of "apiKey") with
  | none => rfl
  | some v => cases v <;> rfl

theorem graftedKey_text {rs : List Value} {donors : List (Text × Dict)}
    (h : byPort I rs = .ok donors) (hrs : TextKeys rs) (port : Text) :
    TextKey (graftedKey donors port) := by
  unfold graftedKey donor
  rcases donor_spec h port with ⟨hnone, -⟩ | ⟨pre, d, post, hd, rfl, -, -⟩
  · rw [hnone]
    exact .inr ⟨[], rfl⟩
  · rw [hd, Option.getD_some]
    have hd' := hrs d (List.mem_append_right pre List.mem_cons_self)
    unfold Dict.get at hd'
    cases hl : d.lookup (Text.of "apiKey") with
    | none => exact .inr ⟨[], rfl⟩
    | some v =>
      rw [hl] at hd'
      exact hd'

/-- The last element of a list with a property is one. -/
theorem last_unique {α : Type} {P : α → Prop} {pre pre' post post' : List α} {a a' : α}
    (h : pre ++ a :: post = pre' ++ a' :: post') (ha : P a) (ha' : P a')
    (hpost : ∀ x ∈ post, ¬ P x) (hpost' : ∀ x ∈ post', ¬ P x) : a = a' := by
  rcases List.append_eq_append_iff.mp h with ⟨l, rfl, hl⟩ | ⟨l, rfl, hl⟩
  · cases l with
    | nil => exact (List.cons.inj hl).1
    | cons x l =>
      refine absurd ha' (hpost a' ?_)
      rw [(List.cons.inj hl).2]
      exact List.mem_append_right l List.mem_cons_self
  · cases l with
    | nil => exact (List.cons.inj hl).1.symm
    | cons x l =>
      refine absurd ha (hpost' a ?_)
      rw [(List.cons.inj hl).2]
      exact List.mem_append_right l List.mem_cons_self

/-- **A key comes back exactly where the machine has one.** -/
theorem graftedKey_iff {rs : List Value} {donors : List (Text × Dict)}
    (h : byPort I rs = .ok donors) {r : Dict} {port : Text}
    (hport : strOf I (Dict.get r "port") = .ok port) :
    textOf (graftedKey donors port) ≠ [] ↔ HasDonor I rs r := by
  unfold graftedKey
  rw [textOf_lookup]
  unfold donor HasDonor SamePort
  rw [hport]
  rcases donor_spec h port with ⟨hnone, hno⟩ | ⟨pre, d, post, hd, rfl, hd', hpost⟩
  · rw [hnone]
    refine iff_of_false (fun hne => hne rfl) ?_
    rintro ⟨pre, d, post, rfl, hd, -, -⟩
    exact hno d (List.mem_append_right pre List.mem_cons_self) hd
  · rw [hd, Option.getD_some]
    constructor
    · exact fun hkey => ⟨pre, d, post, rfl, hd', hpost, hkey⟩
    · rintro ⟨pre', d', post', heq, hd'', hpost', hkey⟩
      have hone := last_unique (P := fun v => ∃ x, v = .dict x ∧ strOf I (Dict.get x "port") = .ok port)
        heq ⟨d, rfl, hd'⟩ ⟨d', rfl, hd''⟩ (fun v hv ⟨x, hx, hp⟩ => hpost x (hx ▸ hv) hp)
        (fun v hv ⟨x, hx, hp⟩ => hpost' x (hx ▸ hv) hp)
      rw [Value.dict.inj hone]
      exact hkey

/-- A key that came back is one that the machine has. -/
theorem graftedKey_held {rs : List Value} {donors : List (Text × Dict)}
    (h : byPort I rs = .ok donors) {port : Text} (hne : textOf (graftedKey donors port) ≠ []) :
    ∃ r, .dict r ∈ rs ∧ keyText r = textOf (graftedKey donors port) := by
  unfold graftedKey at hne ⊢
  rw [textOf_lookup] at hne ⊢
  unfold donor at hne ⊢
  rcases donor_spec h port with ⟨hnone, -⟩ | ⟨pre, d, post, hd, rfl, -, -⟩
  · rw [hnone] at hne
    exact absurd rfl hne
  · rw [hd]
    exact ⟨d, List.mem_append_right pre List.mem_cons_self, rfl⟩

/-! ### The routes before and after -/

theorem normalizeRoute_key {r : Dict} {q : Route} (hr : TextKey (Dict.get r "apiKey"))
    (h : normalizeRoute I isdigit r = .ok q) : q.apiKey = keyText r := by
  obtain ⟨t, ht, ht'⟩ := strOf_key (I := I) hr
  unfold normalizeRoute at h
  obtain ⟨port, -, h⟩ := Except.bind_eq_ok h
  obtain ⟨kind, -, h⟩ := Except.bind_eq_ok h
  simp only at h
  split at h
  · cases h
  · obtain ⟨_, -, h⟩ := Except.bind_eq_ok h
    rw [ht] at h
    cases h
    show t.strip = keyText r
    rw [ht']
    rfl

/-- A route that comes back is the same one but for its key. -/
theorem Regrafted.route {donors : List (Text × Dict)} {v w : Value}
    (h : Regrafted I donors v w) (hd : ∀ port, TextKey (graftedKey donors port))
    (hv : ∀ r, v = .dict r → TextKey (Dict.get r "apiKey")) :
    (readRoute I isdigit w).map Route.bare = (readRoute I isdigit v).map Route.bare := by
  cases h with
  | other | bare => rfl
  | @keyed r port _ _ =>
    have hset := @normalizeRoute_set I isdigit _ _ (hv r rfl) (hd port)
    unfold graftedKey at hset
    unfold readRoute
    simp only
    rw [hset]
    cases normalizeRoute I isdigit r <;> rfl

/-- The key a route comes back with. -/
theorem Regrafted.key {donors : List (Text × Dict)} {r : Dict} {w : Value} {q : Route}
    (h : Regrafted I donors (.dict r) w) (hr : TextKey (Dict.get r "apiKey"))
    (hd : ∀ port, TextKey (graftedKey donors port)) (hkey : keyText r ≠ [])
    (hq : readRoute I isdigit w = some q) :
    ∃ port, strOf I (Dict.get r "port") = .ok port ∧ q.apiKey = textOf (graftedKey donors port) := by
  cases h with
  | other h => exact absurd rfl (h r)
  | bare h =>
    -- a key that is no blank text is something
    refine absurd ?_ hkey
    unfold keyText
    rcases hr with hr | ⟨t, hr⟩
    · rw [hr]
    · rw [hr] at h ⊢
      have ht : t = [] := Classical.byContradiction fun hne => by
        simp only [Value.truthy, decide_eq_false_iff_not, not_not] at h
        exact hne h
      rw [ht]
      rfl
  | @keyed _ port _ hport =>
    refine ⟨port, hport, ?_⟩
    have hset := @normalizeRoute_set I isdigit _ _ hr (hd port)
    unfold graftedKey at hset ⊢
    unfold readRoute at hq
    simp only at hq
    rw [hset] at hq
    cases hn : normalizeRoute I isdigit r with
    | error e =>
      rw [hn] at hq
      cases hq
    | ok q' =>
      rw [hn] at hq
      cases hq
      rfl

/-- The raw route that a port leads to. -/
def rawAt (I : Interp) (isdigit : CodePoint → Bool) : List Value → ℤ → Option Dict
  | [], _ => none
  | .dict r :: rs, port =>
    match normalizeRoute I isdigit r with
    | .ok q => if q.port = port then some r else rawAt I isdigit rs port
    | .error _ => rawAt I isdigit rs port
  | _ :: rs, port => rawAt I isdigit rs port

/-- A list of routes that went out and came back. -/
abbrev Returned (I : Interp) (donors : List (Text × Dict)) : List Value → List Value → Prop :=
  List.Forall₂ (Regrafted I donors)

theorem Returned.bare {donors : List (Text × Dict)} {rs ws : List Value}
    (h : Returned I donors rs ws) (hd : ∀ port, TextKey (graftedKey donors port))
    (hrs : TextKeys rs) :
    (ws.filterMap (readRoute I isdigit)).map Route.bare =
      (rs.filterMap (readRoute I isdigit)).map Route.bare := by
  rw [List.map_filterMap, List.map_filterMap]
  induction h with
  | nil => rfl
  | cons hv _ ih =>
    have hbare := @Regrafted.route I isdigit _ _ _ hv hd fun r hr => hrs r (hr ▸ List.mem_cons_self)
    rw [List.filterMap_cons, List.filterMap_cons, hbare,
      ih fun r hr => hrs r (List.mem_cons_of_mem _ hr)]

/-- **What a port leads to, before and after.** The same route, with the key it came back
with. -/
theorem Returned.live {donors : List (Text × Dict)} {rs ws : List Value}
    (h : Returned I donors rs ws) (hd : ∀ port, TextKey (graftedKey donors port))
    (hrs : TextKeys rs) (port : ℤ) :
    (rawAt I isdigit rs port = none ∧ liveRouteForPort I isdigit rs port = none) ∨
      ∃ r q w q', rawAt I isdigit rs port = some r ∧ .dict r ∈ rs ∧
        normalizeRoute I isdigit r = .ok q ∧ liveRouteForPort I isdigit rs port = some q ∧
        Regrafted I donors (.dict r) w ∧ readRoute I isdigit w = some q' ∧
        liveRouteForPort I isdigit ws port = some q' := by
  induction h with
  | nil => exact .inl ⟨rfl, rfl⟩
  | @cons v w rs ws hv _ ih =>
    have hbare := @Regrafted.route I isdigit _ _ _ hv hd fun r hr => hrs r (hr ▸ List.mem_cons_self)
    have hrest := ih fun r hr => hrs r (List.mem_cons_of_mem _ hr)
    by_cases hskip : readRoute I isdigit v = none ∨ ∃ q, readRoute I isdigit v = some q ∧ q.port ≠ port
    · -- the port does not lead to `v`, so it does not lead to `w`
      have hskip' : readRoute I isdigit w = none ∨
          ∃ q, readRoute I isdigit w = some q ∧ q.port ≠ port := by
        rcases hskip with hnone | ⟨q, hq, hne⟩
        · rw [hnone] at hbare
          exact .inl (Option.map_eq_none_iff.mp hbare)
        · rw [hq] at hbare
          obtain ⟨q', hq', hqq⟩ := Option.map_eq_some_iff.mp hbare
          exact .inr ⟨q', hq', fun h => hne ((congrArg Route.port hqq).symm.trans h)⟩
      have hlive {u : Value} {us : List Value} (h : readRoute I isdigit u = none ∨
          ∃ q, readRoute I isdigit u = some q ∧ q.port ≠ port) :
          liveRouteForPort I isdigit (u :: us) port = liveRouteForPort I isdigit us port := by
        rw [live_cons]
        rcases h with h | ⟨q, h, hne⟩
        · rw [h]
        · simp only [h, if_neg hne]
      have hraw : rawAt I isdigit (v :: rs) port = rawAt I isdigit rs port := by
        cases v with
        | dict r =>
          unfold readRoute at hskip
          simp only [rawAt]
          cases hn : normalizeRoute I isdigit r with
          | error e => rfl
          | ok q =>
            simp only [hn, Except.toOption] at hskip ⊢
            rcases hskip with h | ⟨q', h, hne⟩
            · cases h
            · cases h
              rw [if_neg hne]
        | _ => rfl
      rw [hlive hskip, hlive hskip', hraw]
      rcases hrest with h | ⟨r, q, x, q', h₁, hmem, h₂⟩
      · exact .inl h
      · exact .inr ⟨r, q, x, q', h₁, List.mem_cons_of_mem v hmem, h₂⟩
    · -- the port leads to `v`
      obtain ⟨r, q, rfl, hn, hport⟩ : ∃ r q, v = .dict r ∧ normalizeRoute I isdigit r = .ok q ∧
          q.port = port := by
        rw [not_or] at hskip
        cases v with
        | dict r =>
          cases hn : normalizeRoute I isdigit r with
          | error e => exact absurd (by simp only [readRoute, hn, Except.toOption]) hskip.1
          | ok q =>
            refine ⟨r, q, rfl, hn, Classical.byContradiction fun hne => hskip.2 ⟨q, ?_, hne⟩⟩
            simp only [readRoute, hn, Except.toOption]
        | _ => exact absurd rfl hskip.1
      have hread : readRoute I isdigit (.dict r) = some q := by
        simp only [readRoute, hn, Except.toOption]
      rw [hread] at hbare
      obtain ⟨q', hq', hqq⟩ := Option.map_eq_some_iff.mp hbare
      have hport' : q'.port = port := (congrArg Route.port hqq).trans hport
      refine .inr ⟨r, q, w, q', ?_, List.mem_cons_self, hn, ?_, hv, hq', ?_⟩
      · simp only [rawAt, hn, if_pos hport]
      · rw [live_cons]
        simp only [hread, if_pos hport]
      · rw [live_cons]
        simp only [hq', if_pos hport']

/-! ### The document on both machines -/

/-- The routes that the proxy of a machine works with. -/
def proxyRoutes (S : Seeds) (m : Machine) : List Value :=
  match m.docs .agentProxies with
  | .holds v => loadRoutes S.routes v
  | _ => S.routes

/-- The routes that the document of a machine lists. -/
def listed (m : Machine) : List Value :=
  match m.docs .agentProxies with
  | .holds (.dict d) => (Dict.get d "routes").asList
  | _ => []

/-- The document as the writers of the controller leave it: none at all, or an object with
a list of routes whose keys are texts. -/
def Written (m : Machine) : Prop :=
  m.docs .agentProxies = .missing ∨ ∃ d rs, m.docs .agentProxies = .holds (.dict d) ∧
    Dict.get d "routes" = .list rs ∧ TextKeys rs

theorem Written.listed {m : Machine} (h : Written m) : TextKeys (listed m) := by
  unfold Settings.listed
  rcases h with h | ⟨d, rs, h, hrs, hkeys⟩
  · rw [h]
    exact fun r hr => absurd hr List.not_mem_nil
  · rw [h]
    simp only [hrs]
    exact hkeys

theorem seeds_keyless (S : Seeds) {r : Dict} (h : .dict r ∈ S.routes) : keyText r = [] := by
  have hroute (label : Text) (n : ℤ) (heq : Value.dict r = S.route label n) : keyText r = [] := by
    cases heq
    rfl
  unfold Seeds.routes at h
  simp only [List.mem_cons, List.not_mem_nil, or_false] at h
  rcases h with h | h | h | h <;> exact hroute _ _ h

theorem seeds_textKeys (S : Seeds) : TextKeys S.routes := by
  have hroute (r : Dict) (label : Text) (n : ℤ) (heq : Value.dict r = S.route label n) :
      TextKey (Dict.get r "apiKey") := by
    cases heq
    exact .inl rfl
  intro r h
  unfold Seeds.routes at h
  simp only [List.mem_cons, List.not_mem_nil, or_false] at h
  rcases h with h | h | h | h <;> exact hroute r _ _ h

theorem rawAt_mem {rs : List Value} {port : ℤ} {r : Dict} (h : rawAt I isdigit rs port = some r) :
    .dict r ∈ rs := by
  induction rs with
  | nil => cases h
  | cons v rs ih =>
    cases v with
    | dict d =>
      simp only [rawAt] at h
      split at h
      · split at h
        · cases h
          exact List.mem_cons_self
        · exact List.mem_cons_of_mem _ (ih h)
      · exact List.mem_cons_of_mem _ (ih h)
    | _ => exact List.mem_cons_of_mem _ (ih h)

theorem live_raw {rs : List Value} {port : ℤ} {q : Route}
    (h : liveRouteForPort I isdigit rs port = some q) :
    ∃ r, rawAt I isdigit rs port = some r ∧ normalizeRoute I isdigit r = .ok q := by
  induction rs with
  | nil => cases h
  | cons v rs ih =>
    rw [live_cons] at h
    cases v with
    | dict d =>
      simp only [rawAt, readRoute] at h ⊢
      cases hn : normalizeRoute I isdigit d with
      | error e =>
        rw [hn] at h
        exact ih h
      | ok q' =>
        rw [hn] at h
        simp only [Except.toOption] at h ⊢
        split at h
        next hp =>
          rw [if_pos hp]
          exact ⟨d, rfl, by rw [hn, Option.some.inj h]⟩
        next hp =>
          rw [if_neg hp]
          exact ih h
    | _ => exact ih h

/-- What the machine's own document is for the import. -/
theorem Written.current {m : Machine} (h : Written m) :
    ∃ v c, readJson m .agentProxies = .ok v ∧ v.or (.dict []) = .dict c ∧
      ((Dict.get c "routes").or (.list [])).iter = .ok (Settings.listed m) := by
  unfold readJson Settings.listed
  rcases h with h | ⟨d, rs, h, hrs, -⟩
  · rw [h]
    exact ⟨.null, [], rfl, rfl, rfl⟩
  · rw [h]
    refine ⟨.dict d, d, rfl, ?_, ?_⟩
    · cases d <;> rfl
    · simp only [hrs]
      cases rs <;> rfl

/-- The routes of the file after a redacted export and an import on another machine. -/
theorem imported_routes {C : Cipher} {S : Seeds} {now now' : ℤ} {b : Bundle} {passphrase : Text}
    {m₀ m₁ m₂ : Machine} {report : Report} {d : Dict} {rs : List Value}
    (h₀ : m₀.docs .agentProxies = .holds (.dict d)) (hrs : Dict.get d "routes" = .list rs)
    (h₁ : Written m₁) (hexp : exportBundle I now false m₀ = .ok b)
    (himp : applyBundle I C now' b passphrase m₁ = (m₂, .ok report)) :
    ∃ donors, byPort I (listed m₁) = .ok donors ∧ Returned I donors rs (proxyRoutes S m₂) := by
  obtain ⟨v, hits, hv, hgiven⟩ := (exportBundle_exported hexp).doc .agentProxies (by decide)
  have hdoc := (applyBundle_applied himp).doc .agentProxies (by decide)
  -- what went out
  have hout : v = .dict (Dict.set d "routes" (.list (rs.map redactRoute))) := by
    unfold exportDoc readJson redact redactProxies at hv
    rw [h₀] at hv
    obtain ⟨x, hx, hv⟩ := Except.bind_eq_ok hv
    cases hx
    simp only [Bool.false_eq_true, if_false, hrs] at hv
    cases hh : rs.mapM (redactHit I) with
    | error e =>
      rw [hh] at hv
      cases hv
    | ok hs =>
      rw [hh] at hv
      cases hv
      rfl
  subst hout
  -- what came in
  obtain ⟨x, c, hx, hc, hiter⟩ := h₁.current
  unfold docAfter at hdoc
  rw [hgiven] at hdoc
  simp only [contentOf] at hdoc
  obtain ⟨cur, hcur, hdoc⟩ := Except.bind_eq_ok hdoc
  obtain rfl : x = cur := Except.ok.inj (hx.symm.trans hcur)
  rw [hc] at hdoc
  obtain ⟨merged, hmerged, hdoc⟩ := Except.bind_eq_ok hdoc
  have hm : mergeSecrets I .agentProxies
      (.dict (Dict.set d "routes" (.list (rs.map redactRoute)))) (.dict c) = .ok merged := by
    cases hx : mergeSecrets I .agentProxies
        (.dict (Dict.set d "routes" (.list (rs.map redactRoute)))) (.dict c) with
    | error e =>
      rw [hx] at hmerged
      cases hmerged
    | ok w =>
      rw [hx] at hmerged
      cases hmerged
      rfl
  simp only [mergeSecrets] at hm
  obtain ⟨out, hout, rfl⟩ := Except.map_eq_ok hm
  unfold mergeProxies at hout
  obtain ⟨current, hcurrent, hout⟩ := Except.bind_eq_ok hout
  obtain rfl : listed m₁ = current := Except.ok.inj (hiter.symm.trans hcurrent)
  obtain ⟨donors, hdonors, hout⟩ := Except.bind_eq_ok hout
  rw [Dict.get_set, if_pos rfl] at hout
  obtain ⟨ws, hws, hout⟩ := Except.bind_eq_ok hout
  cases hout
  refine ⟨donors, hdonors, ?_⟩
  have hroutes : proxyRoutes S m₂ = ws := by
    unfold proxyRoutes
    rw [← Except.ok.inj hdoc]
    simp only [loadRoutes, Dict.get_set, if_true]
  rw [hroutes]
  exact (List.forall₂_map_left_iff.mp (Except.mapM_eq_ok hws)).imp fun v w => regrafted

/-! ### Who gets in -/

/-- Whoever gets in at a port shows a key: the one the route had, or one that the machine
has. -/
def StaysLocked (I : Interp) (isdigit : CodePoint → Bool) (live after : List Value) (port : ℤ)
    (own : Text) : Prop :=
  ∀ got, admits I isdigit after port got = true →
    got ≠ [] ∧ (got = own ∨ ∃ r, .dict r ∈ live ∧ keyText r = got)

/-- **Which locked routes stay locked.** The file of one machine, exported without its
secrets, goes over the settings of another one. Every route that asked for a key when it was
exported asks for one after the import, or has no listener, exactly when the machine's own
document has a key under the port of each of them that has a listener. -/
theorem import_locks_iff {C : Cipher} {S : Seeds} {now now' : ℤ} {b : Bundle} {passphrase : Text}
    {m₀ m₁ m₂ : Machine} {report : Report} (h₀ : Written m₀) (h₁ : Written m₁)
    (hexp : exportBundle I now false m₀ = .ok b)
    (himp : applyBundle I C now' b passphrase m₁ = (m₂, .ok report)) :
    (∀ port q, liveRouteForPort I isdigit (proxyRoutes S m₀) port = some q → q.apiKey ≠ [] →
        StaysLocked I isdigit (listed m₁) (proxyRoutes S m₂) port q.apiKey) ↔
      ∀ port r, rawAt I isdigit (proxyRoutes S m₀) port = some r → keyText r ≠ [] →
        listens I isdigit (proxyRoutes S m₀) port = true → HasDonor I (listed m₁) r := by
  rcases h₀ with hm | ⟨d, rs, hdoc, hrs, hkeys⟩
  · -- no document, so the routes of the code, and none of them has a key
    have hseeds : proxyRoutes S m₀ = S.routes := by
      unfold proxyRoutes
      rw [hm]
    have hkeyless {r : Dict} {port : ℤ} (hraw : rawAt I isdigit S.routes port = some r) :
        keyText r = [] := seeds_keyless S (rawAt_mem hraw)
    rw [hseeds]
    refine iff_of_true (fun port q hlive hkey => ?_) fun port r hraw hkey =>
      absurd (hkeyless hraw) hkey
    obtain ⟨r, hraw, hn⟩ := live_raw hlive
    have hnull : TextKey (Dict.get r "apiKey") := seeds_textKeys S r (rawAt_mem hraw)
    exact absurd ((normalizeRoute_key hnull hn).trans (hkeyless hraw)) hkey
  · have hrs₀ : proxyRoutes S m₀ = rs := by
      unfold proxyRoutes
      rw [hdoc]
      simp only [loadRoutes, hrs]
    obtain ⟨donors, hdonors, hret⟩ := imported_routes (S := S) hdoc hrs h₁ hexp himp
    have hd := graftedKey_text hdonors h₁.listed
    rw [hrs₀]
    constructor
    · intro h port r hraw hkey hlisten
      rcases hret.live hd hkeys port with
        ⟨hnone, -⟩ | ⟨r', q, w, q', hr, hmem, hn, hlive, hw, hq', hlive'⟩
      · rw [hraw] at hnone
        cases hnone
      obtain rfl : r = r' := Option.some.inj (hraw.symm.trans hr)
      have hq : q.apiKey ≠ [] := by
        rw [normalizeRoute_key (hkeys r hmem) hn]
        exact hkey
      obtain ⟨p, hport, hkey'⟩ := hw.key (hkeys r hmem) hd hkey hq'
      rw [← graftedKey_iff hdonors hport, ← hkey']
      -- an open route lets everybody in
      intro hopen
      have hadmit : admits I isdigit (proxyRoutes S m₂) port [] = true := by
        unfold admits apiKeyOk
        rw [listens_congr port (hret.bare hd hkeys), hlisten, hlive']
        simp only [Option.any_some, hopen]
        rfl
      exact (h port q hlive hq [] hadmit).1 rfl
    · intro h port q hlive hkey got hadmit
      rcases hret.live hd hkeys port with
        ⟨-, hnone⟩ | ⟨r, q', w, q'', hr, hmem, hn, hlive', hw, hq', hlive''⟩
      · rw [hlive] at hnone
        cases hnone
      obtain rfl : q = q' := Option.some.inj (hlive.symm.trans hlive')
      have hown : keyText r ≠ [] := by
        rw [← normalizeRoute_key (hkeys r hmem) hn]
        exact hkey
      unfold admits at hadmit
      rw [Bool.and_eq_true, listens_congr port (hret.bare hd hkeys), hlive''] at hadmit
      obtain ⟨hlisten, hok⟩ := hadmit
      have hdonor := h port r hr hown hlisten
      obtain ⟨p, hport, hkey'⟩ := hw.key (hkeys r hmem) hd hown hq'
      have hne := (graftedKey_iff hdonors hport).mpr hdonor
      rw [← hkey'] at hne
      -- the key of the donor is the key of the route
      have hgot : got = q''.apiKey := by
        simp only [Option.any_some, apiKeyOk, decide_eq_false hne, Bool.false_or,
          Bool.and_eq_true, decide_eq_true_eq] at hok
        exact hok.2
      refine ⟨hgot ▸ hne, .inr ?_⟩
      rw [hgot, hkey']
      exact graftedKey_held hdonors ((graftedKey_iff hdonors hport).mpr hdonor)

/-! ### A route that somebody deleted -/

/-- A machine with nothing but the routes of `rs`. -/
def machineOf (rs : List Value) : Machine where
  startScript := none
  docs d := if d = .agentProxies then .holds (.dict [("routes", .list rs)]) else .missing
  authDb := none

/-- A route with its own port. -/
def agentRoute (port : ℤ) (key : Text) : Value :=
  .dict [("label", "agent"), ("port", .int port), ("enabled", .bool true), ("apiKey", .str key)]

theorem machineOf_written {rs : List Value} (h : TextKeys rs) : Written (machineOf rs) :=
  .inr ⟨_, rs, rfl, rfl, h⟩

theorem agentRoute_textKeys (port : ℤ) (key : Text) : TextKeys [agentRoute port key] := by
  intro r hr
  cases List.mem_singleton.mp hr
  exact .inr ⟨key, rfl⟩

/-- Nothing is sealed. -/
def noCipher : Cipher := ⟨fun _ _ => .error (.raised .value), fun _ _ => .error (.raised .value)⟩

/-- The seeds of a controller. -/
def seeds : Seeds := ⟨8001, "127.0.0.1", 8080⟩

/-- The exported route of port 8101 asks for a key. The machine it comes back to has no
such route any more, and the import opens the port to everybody. -/
theorem import_opens : ∃ b m₂ report,
    exportBundle Proxy.asciiInterp 0 false (machineOf [agentRoute 8101 "secret"]) = .ok b ∧
    applyBundle Proxy.asciiInterp noCipher 0 b [] (machineOf []) = (m₂, .ok report) ∧
    (∃ q, liveRouteForPort Proxy.asciiInterp (fun _ => false)
      (proxyRoutes seeds (machineOf [agentRoute 8101 "secret"])) 8101 = some q ∧ q.apiKey ≠ []) ∧
    admits Proxy.asciiInterp (fun _ => false) (proxyRoutes seeds m₂) 8101 [] = true :=
  ⟨_, _, _, rfl, rfl, ⟨_, rfl, by decide⟩, by decide⟩

/-- The same file over a machine that has the route with another key. -/
theorem import_locks_kept : ∃ b m₂ report,
    exportBundle Proxy.asciiInterp 0 false (machineOf [agentRoute 8101 "secret"]) = .ok b ∧
    applyBundle Proxy.asciiInterp noCipher 0 b [] (machineOf [agentRoute 8101 "other"]) =
      (m₂, .ok report) ∧
    ((∀ port q, liveRouteForPort Proxy.asciiInterp (fun _ => false)
          (proxyRoutes seeds (machineOf [agentRoute 8101 "secret"])) port = some q → q.apiKey ≠ [] →
        StaysLocked Proxy.asciiInterp (fun _ => false)
          (listed (machineOf [agentRoute 8101 "other"])) (proxyRoutes seeds m₂) port q.apiKey) ↔
      ∀ port r, rawAt Proxy.asciiInterp (fun _ => false)
          (proxyRoutes seeds (machineOf [agentRoute 8101 "secret"])) port = some r →
        keyText r ≠ [] →
        listens Proxy.asciiInterp (fun _ => false)
          (proxyRoutes seeds (machineOf [agentRoute 8101 "secret"])) port = true →
        HasDonor Proxy.asciiInterp (listed (machineOf [agentRoute 8101 "other"])) r) := by
  obtain ⟨b, hb⟩ : ∃ b, exportBundle Proxy.asciiInterp 0 false
      (machineOf [agentRoute 8101 "secret"]) = .ok b := ⟨_, rfl⟩
  obtain ⟨m₂, report, himp⟩ : ∃ m₂ report, applyBundle Proxy.asciiInterp noCipher 0 b []
      (machineOf [agentRoute 8101 "other"]) = (m₂, .ok report) := by
    cases hb
    exact ⟨_, _, rfl⟩
  exact ⟨b, m₂, report, hb, himp, import_locks_iff (machineOf_written (agentRoute_textKeys 8101 _))
    (machineOf_written (agentRoute_textKeys 8101 _)) hb himp⟩

end Settings
