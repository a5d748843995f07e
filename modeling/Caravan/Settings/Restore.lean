import Caravan.Settings.Locks

/-!
# Out and back in

A file without secrets put back on the machine that it came from changes nothing
(`redacted_identity`), and a file with them makes another machine's documents those of the
first (`full_restores`). Both are about the states that the controller reaches: its writers
and its imports leave the routes with one port each, and no key of an object twice.

Three things are not exact, and are in the statements. The launch script comes back with the
line ends of text mode. A board's state without the sampled load keeps the load of the machine
that it lands on. What looks like a placeholder is taken for one.
-/

namespace Settings

open Python

variable {I : Interp} {C : Cipher}

/-! ### The states that the writers leave -/

/-- A list of routes as every writer leaves it: objects, each with a number of its own for
its port. -/
structure RouteList (d : Dict) (rs : List Dict) : Prop where
  distinct : Assoc.Distinct d
  routes : Dict.get d "routes" = .list (rs.map .dict)
  keys : ∀ r ∈ rs, Assoc.Distinct r
  ports : ∃ ports : List ℤ, ports.Nodup ∧ rs.map (fun r => Dict.get r "port") = ports.map .int

/-- What a writer may leave in a document. -/
def Writes : Doc → Value → Prop
  | .agentProxies, v => ∃ d rs, v = .dict d ∧ RouteList d rs
  | .adminState, v => ∃ d, v = .dict d ∧ Assoc.Distinct d
  | .providerSecrets, v => ∃ d, v = .dict d
  | _, _ => True

/-- A machine whose documents are all as a writer left them. -/
structure Legal (m : Machine) : Prop where
  doc : ∀ d, m.docs d = .missing ∨ ∃ v, m.docs d = .holds v ∧ Writes d v

/-- The settings that a controller reaches: it starts with no document, its writers write
one, and it takes the file of another controller. -/
inductive Reachable (I : Interp) (C : Cipher) : Machine → Prop
  | fresh (script : Option Text) : Reachable I C ⟨script, fun _ => .missing, none⟩
  | script {m : Machine} (t : Text) : Reachable I C m →
      Reachable I C { m with startScript := some t }
  | accounts {m : Machine} (b : Bytes) : Reachable I C m → Reachable I C { m with authDb := some b }
  | document {m : Machine} (d : Doc) (v : Value) : Reachable I C m → Writes d v →
      Reachable I C (m.write d v)
  | imported {m m₀ : Machine} {s : Bool} {now now' : ℤ} {b : Bundle} {passphrase : Text} :
      Reachable I C m → Reachable I C m₀ → exportBundle I now s m₀ = .ok b →
      Reachable I C (applyBundle I C now' b passphrase m).1

/-! ### Taking a key out of an object -/

theorem pop_of_not_has {d : Dict} {k : Text} (h : d.has k = false) : pop d k = d := by
  unfold pop
  refine List.eraseP_of_forall_not fun p hp hk => ?_
  have hmem : k ∈ d.map Prod.fst := List.mem_map.mpr ⟨p, hp, of_decide_eq_true hk⟩
  rw [mem_keys_iff, h] at hmem
  cases hmem

/-- A key that is taken out and put back leaves the same entries. -/
theorem pop_perm {d : Dict} {k : Text} {v : Value} (h : d.lookup k = some v) :
    (pop d k ++ [(k, v)]).Perm d := by
  unfold pop
  induction d with
  | nil => cases h
  | cons p d ih =>
    obtain ⟨a, x⟩ := p
    rw [List.lookup_cons] at h
    by_cases ha : k = a
    · subst ha
      rw [beq_self_eq_true] at h
      rw [List.eraseP_cons_of_pos (by simp), Option.some.inj h]
      exact List.perm_append_singleton _ d
    · rw [beq_eq_false_iff_ne.mpr ha] at h
      rw [List.eraseP_cons_of_neg (by simpa using Ne.symm ha)]
      exact (ih h).cons _

theorem lookup_pop_of_ne {d : Dict} {k k' : Text} (h : k' ≠ k) :
    (pop d k).lookup k' = d.lookup k' := by
  unfold pop
  induction d with
  | nil => rfl
  | cons p d ih =>
    obtain ⟨a, x⟩ := p
    by_cases ha : a = k
    · subst ha
      rw [List.eraseP_cons_of_pos (by simp), List.lookup_cons, beq_eq_false_iff_ne.mpr h]
    · rw [List.eraseP_cons_of_neg (by simpa using ha), List.lookup_cons, List.lookup_cons, ih]

theorem distinct_pop {d : Dict} (h : Assoc.Distinct d) (k : Text) : Assoc.Distinct (pop d k) :=
  h.sublist ((List.eraseP_sublist).map Prod.fst)

theorem has_pop_self {d : Dict} (h : Assoc.Distinct d) (k : Text) : (pop d k).has k = false := by
  refine Bool.eq_false_of_not_eq_true fun hhas => ?_
  by_cases hd : d.has k = true
  · obtain ⟨v, hv⟩ := Dict.has_iff.mp hd
    have hnodup : ((pop d k ++ [(k, v)]).map Prod.fst).Nodup :=
      ((pop_perm hv).map Prod.fst).nodup_iff.mpr h
    rw [List.map_append, List.nodup_append] at hnodup
    exact hnodup.2.2 k (mem_keys_iff.mpr hhas) k List.mem_cons_self rfl
  · rw [pop_of_not_has (Bool.eq_false_of_not_eq_true hd)] at hhas
    exact hd hhas

/-! ### The board's state -/

theorem set_of_not_has {d : Dict} {k : Text} (h : d.has k = false) (v : Value) :
    d.set k v = d ++ [(k, v)] := by
  unfold Dict.set
  rw [if_neg (by rw [h]; exact Bool.false_ne_true)]

/-- A key that holds something is there. -/
theorem lookup_of_get {d : Dict} {k : Text} {v : Value} (h : d.get k = v) (hv : v ≠ .null) :
    d.lookup k = some v := by
  unfold Dict.get at h
  cases hl : d.lookup k with
  | none =>
    rw [hl] at h
    exact absurd h.symm hv
  | some w =>
    rw [hl] at h
    rw [show w = v from h]

theorem lookup_of_truthy {d : Dict} {k : Text} (h : (d.get k).truthy = true) :
    d.lookup k = some (d.get k) :=
  lookup_of_get rfl fun hnull => by
    rw [hnull] at h
    cases h

/-- A value that went out as a placeholder comes back from where it was. -/
theorem graft_back {d e : Dict} {k : Text} (hd : Assoc.Distinct d) (he : e.lookup k = d.lookup k)
    (h : (d.get k).truthy = true) :
    (d.set k (.str REDACTED)).set k ((e.lookup k).getD "") = d := by
  rw [Dict.set_set, he, lookup_of_truthy h, Option.getD_some,
    Dict.set_lookup_self hd (lookup_of_truthy h)]

theorem mergeAdmin_self {d : Dict} (h : Assoc.Distinct d) :
    ∃ out hits, redactAdminState false (.dict d) = (.dict out, hits) ∧ (mergeAdmin out d).Perm d := by
  have hp : Assoc.Distinct (pop d "monitor") := distinct_pop h _
  have htoken : d.lookup (Text.of "hfToken") = (pop d "monitor").lookup (Text.of "hfToken") :=
    (lookup_pop_of_ne (by decide)).symm
  -- the token is back, and the load is put at the end
  have hmerge {out : Dict} (hout : (if isRedacted (out.get "hfToken") then
      out.set "hfToken" ((d.lookup (Text.of "hfToken")).getD "") else out) = pop d "monitor") :
      (mergeAdmin out d).Perm d := by
    unfold mergeAdmin
    rw [hout]
    simp only [has_pop_self h, Bool.not_false, Bool.true_and]
    by_cases hmon : d.has "monitor" = true
    · obtain ⟨v, hv⟩ := Dict.has_iff.mp hmon
      rw [if_pos hmon, set_of_not_has (has_pop_self h _), Dict.get_of_lookup hv]
      exact pop_perm hv
    · rw [if_neg hmon, pop_of_not_has (Bool.eq_false_of_not_eq_true hmon)]
  unfold redactAdminState
  by_cases ht : ((pop d "monitor").get "hfToken").truthy = true
  · refine ⟨_, _, if_pos ht, hmerge ?_⟩
    rw [Dict.get_set, if_pos rfl, if_pos (by decide)]
    exact graft_back hp htoken ht
  · refine ⟨_, _, if_neg ht, hmerge ?_⟩
    rw [not_redacted (Bool.eq_false_of_not_eq_true ht)]
    rfl

/-! ### The routes -/

theorem strOf_int (i : ℤ) : strOf I (.int i) = .ok (intRepr i) := by
  unfold strOf
  simp only [Value.depth, Nat.zero_le, if_true, reprValue]

theorem RouteList.port {d : Dict} {rs : List Dict} (h : RouteList d rs) {r : Dict} (hr : r ∈ rs) :
    ∃ p, Dict.get r "port" = .int p := by
  obtain ⟨ports, -, hports⟩ := h.ports
  have hmem : Dict.get r "port" ∈ rs.map fun r => Dict.get r "port" := List.mem_map.mpr ⟨r, hr, rfl⟩
  rw [hports] at hmem
  obtain ⟨p, -, hp⟩ := List.mem_map.mp hmem
  exact ⟨p, hp.symm⟩

/-- **A port is a route.** -/
theorem RouteList.same {d : Dict} {rs : List Dict} (h : RouteList d rs) {r r' : Dict}
    (hr : r ∈ rs) (hr' : r' ∈ rs)
    (hport : strOf I (Dict.get r "port") = strOf I (Dict.get r' "port")) : r = r' := by
  obtain ⟨p, hp⟩ := h.port hr
  obtain ⟨p', hp'⟩ := h.port hr'
  rw [hp, hp', strOf_int, strOf_int] at hport
  have hpp : p = p' := intRepr_injective (Except.ok.inj hport)
  obtain ⟨ports, hnodup, hports⟩ := h.ports
  have hnd : (rs.map fun r => Dict.get r "port").Nodup := by
    rw [hports]
    exact hnodup.map fun i j hij => Value.int.inj hij
  exact List.inj_on_of_nodup_map hnd hr hr' (by rw [hp, hp', hpp])

theorem byPort_ok {rs : List Dict} (h : ∀ r ∈ rs, ∃ p, Dict.get r "port" = .int p) :
    ∃ donors, byPort I (rs.map .dict) = .ok donors := by
  induction rs with
  | nil => exact ⟨[], rfl⟩
  | cons r rs ih =>
    obtain ⟨donors, hd⟩ := ih fun x hx => h x (List.mem_cons_of_mem r hx)
    obtain ⟨p, hp⟩ := h r List.mem_cons_self
    rw [List.map_cons]
    unfold byPort
    rw [hp, strOf_int, hd]
    exact ⟨_, rfl⟩

/-- Each route is its own donor. -/
theorem RouteList.donor {d : Dict} {rs : List Dict} (h : RouteList d rs)
    {donors : List (Text × Dict)} (hd : byPort I (rs.map .dict) = .ok donors) {r : Dict} (hr : r ∈ rs)
    {port : Text} (hport : strOf I (Dict.get r "port") = .ok port) :
    Settings.donor donors port = r := by
  unfold Settings.donor
  rcases donor_spec hd port with ⟨-, hno⟩ | ⟨pre, x, post, hx, hrs, hxport, -⟩
  · exact absurd hport (hno r (List.mem_map.mpr ⟨r, hr, rfl⟩))
  · rw [hx, Option.getD_some]
    have hmem : Value.dict x ∈ rs.map Value.dict := by
      rw [hrs]
      exact List.mem_append_right pre List.mem_cons_self
    obtain ⟨x', hx', heq⟩ := List.mem_map.mp hmem
    cases heq
    exact h.same hx' hr (hxport.trans hport.symm)

/-- **A route that goes out and comes back is the route.** -/
theorem RouteList.graft_redact {d : Dict} {rs : List Dict} (h : RouteList d rs)
    {donors : List (Text × Dict)} (hd : byPort I (rs.map .dict) = .ok donors) {r : Dict}
    (hr : r ∈ rs) : graftRoute I donors (redactRoute (.dict r)) = .ok (.dict r) := by
  unfold redactRoute
  by_cases hk : (Dict.get r "apiKey").truthy = true
  · simp only [if_pos hk]
    obtain ⟨p, hp⟩ := h.port hr
    unfold graftRoute
    simp only
    rw [Dict.get_set, if_pos rfl, if_pos (by decide), Dict.get_set, if_neg (by decide), hp, strOf_int]
    have hdonor := h.donor hd hr (hp ▸ strOf_int p)
    show Except.ok _ = _
    rw [hdonor, graft_back (h.keys r hr) rfl hk]
  · simp only [if_neg hk]
    unfold graftRoute
    simp only
    rw [not_redacted (Bool.eq_false_of_not_eq_true hk)]
    rfl

/-! ### A document on its way out -/

variable {m m₀ m' : Machine} {b : Bundle} {now : ℤ}

theorem or_dict (d : Dict) : (Value.dict d).or (.dict []) = .dict d := by
  cases d <;> rfl

theorem lift_ok {α : Type} {x : Except Error α} {a : α} (h : x = .ok a) : lift x = .ok a := by
  rw [h]
  rfl

theorem exportDoc_missing {s : Bool} {d : Doc} (h : m.docs d = .missing) :
    exportDoc I s m d = .ok (.null, []) := by
  unfold exportDoc readJson
  rw [h]
  cases d <;> rfl

theorem exportDoc_holds {s : Bool} {d : Doc} {v : Value} (h : m.docs d = .holds v) :
    exportDoc I s m d = lift (redact I s d v) := by
  unfold exportDoc readJson
  rw [h]
  rfl

/-- With the secrets, what the document holds. -/
theorem redact_full (d : Doc) (v : Value) : redact I true d v = .ok (v, []) := by
  cases d <;> first | rfl | (cases v <;> rfl)

theorem redactHit_ok {r : Dict} {p : ℤ} (h : Dict.get r "port" = .int p) :
    ∃ hits, redactHit I (.dict r) = .ok hits := by
  have hl : r.lookup (Text.of "port") = some (.int p) := lookup_of_get h Value.noConfusion
  unfold redactHit
  simp only
  split
  · rw [hl, Option.getD_some, strOf_int]
    exact ⟨_, rfl⟩
  · exact ⟨[], rfl⟩

/-- Without the secrets, the list with a placeholder for each key. -/
theorem RouteList.redact {d : Dict} {rs : List Dict} (h : RouteList d rs) :
    ∃ hits, redactProxies I false (.dict d) =
      .ok (.dict (Dict.set d "routes" (.list ((rs.map .dict).map redactRoute))), hits) := by
  obtain ⟨hits, hh, -⟩ := Except.mapM_exists (f := redactHit I) (P := fun _ _ => True)
    (l := rs.map .dict) fun v hv => by
      obtain ⟨r, hr, rfl⟩ := List.mem_map.mp hv
      obtain ⟨p, hp⟩ := h.port hr
      obtain ⟨hits, hh⟩ := redactHit_ok (I := I) hp
      exact ⟨hits, hh, trivial⟩
  unfold redactProxies
  simp only [Bool.false_eq_true, if_false, h.routes, hh]
  exact ⟨_, rfl⟩

theorem exportDoc_ok (hm : Legal m) (s : Bool) (d : Doc) :
    ∃ v hits, exportDoc I s m d = .ok (v, hits) := by
  rcases hm.doc d with hmiss | ⟨v, hv, hw⟩
  · exact ⟨_, _, exportDoc_missing hmiss⟩
  · rw [exportDoc_holds hv]
    cases s with
    | true => exact ⟨_, _, lift_ok (redact_full d v)⟩
    | false =>
      cases d with
      | agentProxies =>
        obtain ⟨d, rs, rfl, hrs⟩ := hw
        obtain ⟨hits, hh⟩ := hrs.redact (I := I)
        exact ⟨_, _, lift_ok hh⟩
      | _ => exact ⟨_, _, rfl⟩

theorem exportSecrets_ok (hm : Legal m) (s : Bool) : ∃ e, exportSecrets s m = .ok e := by
  unfold exportSecrets readJson
  cases s with
  | false => exact ⟨_, rfl⟩
  | true =>
    rw [if_neg Bool.noConfusion]
    rcases hm.doc .providerSecrets with h | ⟨v, h, -⟩
    · rw [h]
      exact ⟨_, rfl⟩
    · rw [h]
      exact ⟨_, rfl⟩

/-- **An export of a state that the writers left goes through.** -/
theorem exportBundle_ok (hm : Legal m) (now : ℤ) (s : Bool) :
    ∃ b, exportBundle I now s m = .ok b := by
  obtain ⟨admin, ha, hadmin⟩ := exportDoc_ok (I := I) hm s .adminState
  obtain ⟨proxies, hp, hproxies⟩ := exportDoc_ok (I := I) hm s .agentProxies
  obtain ⟨providers, hc, hproviders⟩ := exportDoc_ok (I := I) hm s .cloudProviders
  obtain ⟨catalog, hg, hcatalog⟩ := exportDoc_ok (I := I) hm s .modelCatalog
  obtain ⟨secrets, hsecrets⟩ := exportSecrets_ok hm s
  unfold exportBundle
  rw [hadmin, hproxies, hproviders, hcatalog, hsecrets]
  exact ⟨_, rfl⟩

/-! ### A document on its way in -/

/-- A document that no section names stays. -/
theorem docAfter_none {d : Doc} (h : given (b.docs d) = none) : docAfter I b m d = .ok (m.docs d) := by
  unfold docAfter
  rw [h]

theorem docAfter_some {d : Doc} {v w cur : Value} (h : given (b.docs d) = some v)
    (hcur : readJson m d = .ok cur) (hw : mergeSecrets I d v (cur.or (.dict [])) = .ok w) :
    docAfter I b m d = .ok (.holds w) := by
  unfold docAfter
  rw [h]
  simp only [hcur]
  show (lift _ >>= _) = _
  rw [lift_ok hw]
  rfl

theorem readJson_ok (hm : Legal m) (d : Doc) : ∃ v, readJson m d = .ok v := by
  unfold readJson
  rcases hm.doc d with h | ⟨v, h, -⟩
  · rw [h]
    exact ⟨_, rfl⟩
  · rw [h]
    exact ⟨_, rfl⟩

/-- The routes of the machine that the file lands on, by their ports. -/
theorem Legal.donors (hm : Legal m) : ∃ cur c rs donors, readJson m .agentProxies = .ok cur ∧
    cur.or (.dict []) = .dict c ∧ ((Dict.get c "routes").or (.list [])).iter = .ok rs ∧
    byPort I rs = .ok donors := by
  unfold readJson
  rcases hm.doc .agentProxies with h | ⟨v, h, d, rs, rfl, hrs⟩
  · rw [h]
    exact ⟨.null, [], [], [], rfl, rfl, rfl, rfl⟩
  · rw [h]
    obtain ⟨donors, hd⟩ := byPort_ok (I := I) fun r hr => hrs.port hr
    refine ⟨.dict d, d, rs.map .dict, donors, rfl, or_dict d, ?_, hd⟩
    rw [hrs.routes]
    cases rs <;> rfl

theorem mergeProxies_ok {d c : Dict} {rs ws current : List Value} {donors : List (Text × Dict)}
    (hiter : ((Dict.get c "routes").or (.list [])).iter = .ok current)
    (hd : byPort I current = .ok donors) (hrs : Dict.get d "routes" = .list rs)
    (hws : rs.mapM (graftRoute I donors) = .ok ws) :
    mergeProxies I d c = .ok (Dict.set d "routes" (.list ws)) := by
  unfold mergeProxies
  rw [hiter]
  show (byPort I current >>= _) = _
  rw [hd, hrs]
  show (rs.mapM (graftRoute I donors) >>= _) = _
  rw [hws]
  rfl

/-- The documents that nothing is grafted in. -/
theorem mergeSecrets_other {d : Doc} (h₁ : d ≠ .adminState) (h₂ : d ≠ .agentProxies) (v w : Value) :
    mergeSecrets I d v w = .ok v := by
  unfold mergeSecrets
  split
  · cases d with
    | adminState => exact absurd rfl h₁
    | agentProxies => exact absurd rfl h₂
    | _ => rfl
  · rfl

theorem contentOf_cases (v : Value) :
    (contentOf v = none ∧ v = .null) ∨ contentOf v = some v := by
  cases v with
  | null => exact .inl ⟨rfl, rfl⟩
  | _ => exact .inr rfl

/-- The same entries, in whatever order. -/
def SameDoc (x y : Document) : Prop :=
  x = y ∨ ∃ d e : Dict, x = .holds (.dict d) ∧ y = .holds (.dict e) ∧ d.Perm e

/-- **A document that goes out without its secrets comes back whole.** -/
theorem docAfter_redacted (hm : Legal m) (hexp : exportBundle I now false m = .ok b) {d : Doc}
    (hd : d ∈ SETTINGS) : ∃ x, docAfter I b m d = .ok x ∧
      (d ≠ .adminState → x = m.docs d) ∧ SameDoc x (m.docs d) := by
  obtain ⟨v, hits, hv, hgiven⟩ := (exportBundle_exported hexp).doc d hd
  rcases hm.doc d with hmiss | ⟨w, hw, hwrites⟩
  · rw [exportDoc_missing hmiss] at hv
    cases hv
    exact ⟨_, docAfter_none hgiven, fun _ => rfl, .inl rfl⟩
  have hread : readJson m d = .ok w := by
    unfold readJson
    rw [hw]
  rw [exportDoc_holds hw] at hv
  rw [hw]
  cases d with
  | adminState =>
    obtain ⟨a, rfl, ha⟩ := hwrites
    obtain ⟨out, hs, hout, hperm⟩ := mergeAdmin_self ha
    unfold redact at hv
    rw [hout] at hv
    cases hv
    exact ⟨_, docAfter_some hgiven hread (by rw [or_dict]; rfl), fun h => absurd rfl h,
      .inr ⟨_, _, rfl, rfl, hperm⟩⟩
  | agentProxies =>
    obtain ⟨a, rs, rfl, hrs⟩ := hwrites
    obtain ⟨hs, hh⟩ := hrs.redact (I := I)
    unfold redact at hv
    rw [lift_ok hh] at hv
    cases hv
    obtain ⟨donors, hdonors⟩ := byPort_ok (I := I) fun r hr => hrs.port hr
    have hback : ((rs.map Value.dict).map redactRoute).mapM (graftRoute I donors) =
        .ok (rs.map .dict) := by
      rw [List.mapM_map, List.mapM_map]
      exact Except.mapM_ok fun r hr => hrs.graft_redact hdonors hr
    have hiter : ((Dict.get a "routes").or (.list [])).iter = .ok (rs.map Value.dict) := by
      rw [hrs.routes]
      cases rs <;> rfl
    have hmerge := mergeProxies_ok (d := Dict.set a "routes" (.list ((rs.map .dict).map redactRoute)))
      hiter hdonors (by rw [Dict.get_set, if_pos rfl]) hback
    rw [Dict.set_set, Dict.set_lookup_self hrs.distinct (lookup_of_get hrs.routes Value.noConfusion)]
      at hmerge
    exact ⟨_, docAfter_some hgiven hread (by
      rw [or_dict]
      simp only [mergeSecrets, hmerge]
      rfl), fun _ => rfl, .inl rfl⟩
  | providerSecrets => exact absurd hd (by decide)
  | cloudProviders | modelCatalog =>
    cases hv
    rcases contentOf_cases v with ⟨hnone, hnull⟩ | hsome
    · exact ⟨_, docAfter_none (hgiven.trans hnone), fun _ => hw, .inl hw⟩
    · exact ⟨_, docAfter_some (hgiven.trans hsome) hread
        (mergeSecrets_other (by decide) (by decide) _ _), fun _ => rfl, .inl rfl⟩

/-! ### The imports keep the form of the documents -/

/-- Routes that took the place of others, one by one and under their ports. -/
abbrev Replaced : List Dict → List Dict → Prop :=
  List.Forall₂ fun r w => Dict.get w "port" = Dict.get r "port" ∧ Assoc.Distinct w

theorem Replaced.ports {rs ws : List Dict} (h : Replaced rs ws) :
    ws.map (fun r => Dict.get r "port") = rs.map fun r => Dict.get r "port" := by
  induction h with
  | nil => rfl
  | cons hr _ ih => rw [List.map_cons, List.map_cons, hr.1, ih]

theorem Replaced.distinct {rs ws : List Dict} (h : Replaced rs ws) : ∀ w ∈ ws, Assoc.Distinct w := by
  induction h with
  | nil => exact fun w hw => absurd hw List.not_mem_nil
  | cons hr _ ih =>
    intro w hw
    rcases List.mem_cons.mp hw with rfl | hw
    · exact hr.2
    · exact ih w hw

theorem RouteList.replaced {d : Dict} {rs ws : List Dict} (h : RouteList d rs)
    (hws : Replaced rs ws) : RouteList (Dict.set d "routes" (.list (ws.map .dict))) ws where
  distinct := Dict.distinct_set h.distinct _ _
  routes := by rw [Dict.get_set, if_pos rfl]
  keys := hws.distinct
  ports := by
    obtain ⟨ports, hnodup, hports⟩ := h.ports
    exact ⟨ports, hnodup, hws.ports.trans hports⟩

theorem redactRoute_replaced {r : Dict} (h : Assoc.Distinct r) :
    ∃ w, redactRoute (.dict r) = .dict w ∧ Dict.get w "port" = Dict.get r "port" ∧
      Assoc.Distinct w := by
  unfold redactRoute
  by_cases hk : (Dict.get r "apiKey").truthy = true
  · exact ⟨_, if_pos hk, by rw [Dict.get_set, if_neg (by decide)], Dict.distinct_set h _ _⟩
  · exact ⟨r, if_neg hk, rfl, h⟩

theorem graftRoute_replaced {donors : List (Text × Dict)} {r : Dict} {p : ℤ}
    (hp : Dict.get r "port" = .int p) (h : Assoc.Distinct r) :
    ∃ v, graftRoute I donors (.dict r) = .ok v ∧ ∃ w, v = .dict w ∧
      Dict.get w "port" = Dict.get r "port" ∧ Assoc.Distinct w := by
  unfold graftRoute
  simp only
  split
  · rw [hp, strOf_int]
    exact ⟨_, rfl, _, rfl, by rw [Dict.get_set, if_neg (by decide), hp], Dict.distinct_set h _ _⟩
  · exact ⟨_, rfl, r, rfl, rfl, h⟩

/-- The objects of a list of routes. -/
theorem replaced_of {rs : List Dict} {vs : List Value} (h : List.Forall₂ (fun r v => ∃ w, v = .dict w ∧
    Dict.get w "port" = Dict.get r "port" ∧ Assoc.Distinct w) rs vs) :
    ∃ ws, vs = ws.map .dict ∧ Replaced rs ws := by
  induction h with
  | nil => exact ⟨[], rfl, .nil⟩
  | cons hr _ ih =>
    obtain ⟨w, rfl, hw⟩ := hr
    obtain ⟨ws, rfl, hws⟩ := ih
    exact ⟨w :: ws, rfl, .cons hw hws⟩

theorem RouteList.redacted {d : Dict} {rs : List Dict} (h : RouteList d rs) :
    ∃ ws, (rs.map Value.dict).map redactRoute = ws.map .dict ∧ Replaced rs ws := by
  refine replaced_of ?_
  rw [List.map_map, List.forall₂_map_right_iff]
  refine List.forall₂_same.mpr fun r hr => ?_
  exact redactRoute_replaced (h.keys r hr)

theorem redactAdmin_distinct {s : Bool} {d : Dict} (h : Assoc.Distinct d) :
    ∃ out hits, redactAdminState s (.dict d) = (.dict out, hits) ∧ Assoc.Distinct out := by
  unfold redactAdminState
  simp only
  split
  · exact ⟨d, _, rfl, h⟩
  · split
    · exact ⟨_, _, rfl, Dict.distinct_set (distinct_pop h _) _ _⟩
    · exact ⟨_, _, rfl, distinct_pop h _⟩

/-- What goes out has the form of what a writer leaves. -/
theorem exportDoc_writes (hm : Legal m) {s : Bool} {d : Doc} {v : Value} {hits : List Text}
    (h : exportDoc I s m d = .ok (v, hits)) : v = .null ∨ Writes d v := by
  rcases hm.doc d with hmiss | ⟨w, hw, hwrites⟩
  · rw [exportDoc_missing hmiss] at h
    cases h
    exact .inl rfl
  rw [exportDoc_holds hw] at h
  refine .inr ?_
  cases s with
  | true =>
    rw [lift_ok (redact_full d w)] at h
    cases h
    exact hwrites
  | false =>
    cases d with
    | adminState =>
      obtain ⟨a, rfl, ha⟩ := hwrites
      obtain ⟨out, hs, hout, hdist⟩ := redactAdmin_distinct (s := false) ha
      unfold redact at h
      rw [hout] at h
      cases h
      exact ⟨out, rfl, hdist⟩
    | agentProxies =>
      obtain ⟨a, rs, rfl, hrs⟩ := hwrites
      obtain ⟨hs, hh⟩ := hrs.redact (I := I)
      obtain ⟨ws, hws, hrep⟩ := hrs.redacted
      unfold redact at h
      rw [lift_ok hh, hws] at h
      cases h
      exact ⟨_, ws, rfl, hrs.replaced hrep⟩
    | providerSecrets =>
      cases h
      exact hwrites
    | cloudProviders | modelCatalog => exact trivial

theorem mergeAdmin_distinct {d c : Dict} (h : Assoc.Distinct d) : Assoc.Distinct (mergeAdmin d c) := by
  have htoken : Assoc.Distinct (if isRedacted (d.get "hfToken") then
      d.set "hfToken" ((c.lookup (Text.of "hfToken")).getD "") else d) := by
    split
    · exact Dict.distinct_set h _ _
    · exact h
  unfold mergeAdmin
  extract_lets e
  split
  · exact Dict.distinct_set htoken _ _
  · exact htoken

/-- A document that comes in has the form of what a writer leaves. -/
theorem mergeSecrets_writes (hm : Legal m) {d : Doc} {v : Value} (hv : Writes d v) :
    ∃ cur w, readJson m d = .ok cur ∧ mergeSecrets I d v (cur.or (.dict [])) = .ok w ∧
      Writes d w := by
  cases d with
  | adminState =>
    obtain ⟨a, rfl, ha⟩ := hv
    obtain ⟨cur, hcur⟩ := readJson_ok hm .adminState
    refine ⟨cur, ?_⟩
    cases hc : cur.or (.dict []) with
    | dict c => exact ⟨_, hcur, rfl, _, rfl, mergeAdmin_distinct ha⟩
    | _ => exact ⟨_, hcur, rfl, _, rfl, ha⟩
  | agentProxies =>
    obtain ⟨a, rs, rfl, hrs⟩ := hv
    obtain ⟨cur, c, current, donors, hcur, hc, hiter, hd⟩ := hm.donors (I := I)
    obtain ⟨vs, hvs, hall⟩ := Except.mapM_exists (f := fun r => graftRoute I donors (.dict r))
      (l := rs) fun r hr => by
        obtain ⟨p, hp⟩ := hrs.port hr
        exact graftRoute_replaced hp (hrs.keys r hr)
    obtain ⟨ws, rfl, hrep⟩ := replaced_of hall
    have hgraft : (rs.map Value.dict).mapM (graftRoute I donors) = .ok (ws.map .dict) := by
      rw [List.mapM_map]
      exact hvs
    have hmerge := mergeProxies_ok hiter hd hrs.routes hgraft
    refine ⟨cur, .dict (Dict.set a "routes" (.list (ws.map .dict))), hcur, ?_, _, ws, rfl,
      hrs.replaced hrep⟩
    rw [hc]
    simp only [mergeSecrets, hmerge]
    rfl
  | providerSecrets | cloudProviders | modelCatalog =>
    obtain ⟨cur, hcur⟩ := readJson_ok hm _
    exact ⟨cur, v, hcur, mergeSecrets_other (by decide) (by decide) _ _, hv⟩

theorem docAfter_writes (hm : Legal m) (h₀ : Legal m₀) {s : Bool}
    (hexp : exportBundle I now s m₀ = .ok b) {d : Doc} (hd : d ∈ SETTINGS) :
    ∃ x, docAfter I b m d = .ok x ∧ (x = .missing ∨ ∃ v, x = .holds v ∧ Writes d v) := by
  obtain ⟨v, hits, hv, hgiven⟩ := (exportBundle_exported hexp).doc d hd
  rcases contentOf_cases v with ⟨hnone, -⟩ | hsome
  · exact ⟨_, docAfter_none (hgiven.trans hnone), hm.doc d⟩
  · rcases exportDoc_writes h₀ hv with rfl | hw
    · cases hsome
    · obtain ⟨cur, w, hcur, hmerge, hww⟩ := mergeSecrets_writes (I := I) hm hw
      exact ⟨_, docAfter_some (hgiven.trans hsome) hcur hmerge, .inr ⟨w, rfl, hww⟩⟩

/-! ### A whole import -/

theorem Legal.congr (hm : Legal m) (h : m'.docs = m.docs) : Legal m' := ⟨by
  rw [h]
  exact hm.doc⟩

theorem Legal.write (hm : Legal m) {d : Doc} {v : Value} (h : Writes d v) : Legal (m.write d v) where
  doc a := by
    by_cases ha : a = d
    · subst ha
      exact .inr ⟨v, Function.update_self a _ m.docs, h⟩
    · rw [show (m.write d v).docs a = m.docs a from Function.update_of_ne ha _ m.docs]
      exact hm.doc a

theorem restoreScript_docs : (restoreScript b m).docs = m.docs := by
  unfold restoreScript
  cases given b.controllerConfig <;> rfl

/-- The documents of a file that a controller exported are all written. -/
theorem restoreDocs_legal (hm : Legal m) (h₀ : Legal m₀) {s : Bool}
    (hexp : exportBundle I now s m₀ = .ok b) :
    ∃ m₂ names, restoreDocs I b SETTINGS (restoreScript b m) = (m₂, .ok names) ∧ Legal m₂ := by
  have hscript : Legal (restoreScript b m) := hm.congr restoreScript_docs
  have hdocs : ∀ d ∈ SETTINGS, ∃ x, docAfter I b (restoreScript b m) d = .ok x ∧
      (x = .missing ∨ ∃ v, x = .holds v ∧ Writes d v) := fun d hd =>
    docAfter_writes hscript h₀ hexp hd
  obtain ⟨m₂, names, h⟩ := restoreDocs_ok settings_nodup fun d hd => by
    obtain ⟨x, hx, -⟩ := hdocs d hd
    exact ⟨x, hx⟩
  have hw := restoreDocs_wrote settings_nodup h
  refine ⟨m₂, names, h, ⟨fun d => ?_⟩⟩
  by_cases hd : d ∈ SETTINGS
  · obtain ⟨x, hx, hxw⟩ := hdocs d hd
    rw [hw.doc d hd] at hx
    cases hx
    exact hxw
  · rw [hw.other d hd]
    exact hscript.doc d

theorem restoreSecrets_legal (hm : Legal m) {p : Text} {w k : List Text}
    (h : restoreSecrets C p b m = .ok (m', w, k)) : Legal m' := by
  unfold restoreSecrets at h
  split at h
  · cases h
    exact hm
  · obtain ⟨o, -, h⟩ := Except.bind_eq_ok h
    split at h
    · cases h
      exact hm
    · cases h
      exact hm.write (d := .providerSecrets) ⟨_, rfl⟩
    · cases h
      exact hm

theorem restoreCredentials_legal (hm : Legal m) (p : Text) :
    Legal (restoreCredentials C p b m).1 := by
  unfold restoreCredentials
  split
  · exact hm
  next hs =>
    have h₁ := restoreSecrets_legal hm hs
    split
    · exact h₁
    next ha => exact h₁.congr (restoreAuthDb_frame ha).2

/-- What is left of an import are the credentials. -/
theorem applyBundle_eq (hm : Legal m) (h₀ : Legal m₀) {s : Bool}
    (hexp : exportBundle I now s m₀ = .ok b) (C : Cipher) (now' : ℤ) (p : Text) :
    ∃ m₂ f, Legal m₂ ∧ applyBundle I C now' b p m =
      ((restoreCredentials C p b m₂).1, (restoreCredentials C p b m₂).2.map f) := by
  obtain ⟨backup, hbackup⟩ := exportBundle_ok (I := I) hm now' true
  obtain ⟨m₂, names, hdocs, hlegal⟩ := restoreDocs_legal hm h₀ hexp
  refine ⟨m₂, fun r => {
    written := (if (given b.controllerConfig).isSome then [CONTROLLER_CONFIG] else []) ++
      names ++ r.1
    skipped := b.retired ++ r.2
    backup := backup }, hlegal, ?_⟩
  unfold applyBundle
  rw [(exportBundle_exported hexp).valid]
  simp only [hbackup, hdocs]
  rcases restoreCredentials C p b m₂ with ⟨m₃, _ | ⟨w, k⟩⟩ <;> rfl

/-- **Every state a controller reaches is as its writers leave it.** -/
theorem Reachable.legal (h : Reachable I C m) : Legal m := by
  induction h with
  | fresh script => exact ⟨fun _ => .inl rfl⟩
  | script t _ ih => exact ih.congr rfl
  | accounts b _ ih => exact ih.congr rfl
  | document d v _ hw ih => exact ih.write hw
  | imported _ _ hexp ih ih₀ =>
    obtain ⟨m₂, f, hm₂, heq⟩ := applyBundle_eq ih ih₀ hexp C _ _
    rw [heq]
    exact restoreCredentials_legal hm₂ _

/-! ### Back on the machine it came from -/

/-- A file without secrets says nothing of the credentials. -/
theorem redacted_credentials (hexp : exportBundle I now false m = .ok b) (C : Cipher) (p : Text)
    (m₂ : Machine) : restoreCredentials C p b m₂ = (m₂, .ok ([], [])) := by
  have he := exportBundle_exported hexp
  obtain ⟨e, hsec, hgiven⟩ := he.secrets
  cases hsec
  unfold restoreCredentials restoreSecrets restoreAuthDb
  rw [hgiven, he.authDb]
  rfl

/-- A machine that holds what it held: the launch script as text mode reads it, and the
entries of the board's state in whatever order. -/
structure Unchanged (m m' : Machine) : Prop where
  script : m'.startScript = m.startScript.map universalNewlines
  doc : ∀ d, d ≠ .adminState → m'.docs d = m.docs d
  state : SameDoc (m'.docs .adminState) (m.docs .adminState)
  authDb : m'.authDb = m.authDb

/-- **Redacted export, then import, is the identity.** -/
theorem redacted_identity (h : Reachable I C m) (now now' : ℤ) (p : Text) :
    ∃ b m' report, exportBundle I now false m = .ok b ∧
      applyBundle I C now' b p m = (m', .ok report) ∧ Unchanged m m' := by
  have hm := h.legal
  obtain ⟨b, hexp⟩ := exportBundle_ok (I := I) hm now false
  obtain ⟨m₂, f, -, heq⟩ := applyBundle_eq hm hm hexp C now' p
  rw [redacted_credentials hexp] at heq
  have happ := applyBundle_applied heq
  obtain ⟨m₃, names, hsec, hauth, hcred⟩ := happ.credentials
  rw [redacted_credentials hexp] at hcred
  obtain ⟨rfl, -⟩ := Prod.mk.inj hcred
  have hdoc (d : Doc) (hd : d ∈ SETTINGS) : (d ≠ .adminState → m₃.docs d = m.docs d) ∧
      SameDoc (m₃.docs d) (m.docs d) := by
    obtain ⟨x, hx, hsame⟩ := docAfter_redacted hm hexp hd
    rw [happ.doc d hd] at hx
    cases hx
    exact hsame
  refine ⟨b, m₃, _, hexp, heq, ?_, fun d hd => ?_, (hdoc .adminState (by decide)).2, hauth⟩
  · rw [happ.script, (exportBundle_exported hexp).script]
    cases m.startScript <;> rfl
  · by_cases hmem : d ∈ SETTINGS
    · exact (hdoc d hmem).1 hd
    · obtain rfl : d = .providerSecrets := by
        cases d <;> first | rfl | exact absurd (by decide) hmem
      exact hsec

/-! ### On another machine -/

/-- Nothing in the documents looks like what the export and the import put there themselves:
no token and no key is the placeholder, and the cloud keys are not in the form of a sealed
section. -/
structure Unmarked (m : Machine) : Prop where
  token : ∀ d, m.docs .adminState = .holds (.dict d) → isRedacted (Dict.get d "hfToken") = false
  keys : ∀ d rs, m.docs .agentProxies = .holds (.dict d) → Dict.get d "routes" = .list rs →
    ∀ r, .dict r ∈ rs → isRedacted (Dict.get r "apiKey") = false
  sealing : ∀ d, m.docs .providerSecrets = .holds (.dict d) → Dict.get d "enc" ≠ .str ENC_MARK

/-- The sampled load that a machine keeps. -/
def loadOf (m : Machine) : Dict :=
  match m.docs .adminState with
  | .holds (.dict d) => if Dict.has d "monitor" then [("monitor", Dict.get d "monitor")] else []
  | _ => []

/-- The board's state of a full file, on a machine with its own. -/
theorem mergeAdmin_full {d c : Dict} (h : isRedacted (d.get "hfToken") = false) :
    mergeAdmin d c = if d.has "monitor" then d else
      d ++ if c.has "monitor" then [(Text.of "monitor", c.get "monitor")] else [] := by
  unfold mergeAdmin
  rw [h]
  simp only [Bool.false_eq_true, if_false]
  by_cases hd : d.has "monitor" = true
  · rw [hd]
    rfl
  · have hd : d.has "monitor" = false := Bool.eq_false_of_not_eq_true hd
    rw [hd]
    by_cases hc : c.has "monitor" = true
    · rw [hc, if_neg Bool.false_ne_true, if_pos rfl, ← set_of_not_has hd]
      rfl
    · rw [Bool.eq_false_of_not_eq_true hc]
      simp

variable {a : Machine}

theorem given_full (hexp : exportBundle I now true a = .ok b) {d : Doc} (hd : d ∈ SETTINGS)
    {v : Value} (hv : a.docs d = .holds v) : given (b.docs d) = contentOf v := by
  obtain ⟨w, hits, hw, hgiven⟩ := (exportBundle_exported hexp).doc d hd
  rw [exportDoc_holds hv, lift_ok (redact_full d v)] at hw
  cases hw
  exact hgiven

/-- The documents of a full file, each on its own. -/
theorem docAfter_full (hm : Legal m) (ha : Legal a) (hu : Unmarked a)
    (hexp : exportBundle I now true a = .ok b) {d : Doc} (hd : d ∈ SETTINGS) {v : Value}
    (hv : a.docs d = .holds v) (hne : v ≠ .null) :
    (d ≠ .adminState → docAfter I b m d = .ok (.holds v)) ∧
      ∀ e, d = .adminState → v = .dict e → docAfter I b m d =
        .ok (.holds (.dict (if Dict.has e "monitor" then e else e ++ loadOf m))) := by
  have hgiven : given (b.docs d) = some v := by
    rw [given_full hexp hd hv]
    rcases contentOf_cases v with ⟨-, hnull⟩ | hsome
    · exact absurd hnull hne
    · exact hsome
  obtain ⟨cur, hcur⟩ := readJson_ok hm d
  rcases ha.doc d with hmiss | ⟨w, hw, hwrites⟩
  · rw [hv] at hmiss
    cases hmiss
  obtain rfl : v = w := Document.holds.inj (hv.symm.trans hw)
  cases d with
  | adminState =>
    refine ⟨fun h => absurd rfl h, fun e _ he => ?_⟩
    subst he
    refine docAfter_some hgiven hcur ?_
    have htoken := hu.token e hv
    unfold readJson at hcur
    unfold loadOf
    rcases hm.doc .adminState with hmiss | ⟨x, hx, c, rfl, -⟩
    · rw [hmiss] at hcur ⊢
      cases hcur
      show Except.ok (Value.dict (mergeAdmin e [])) = _
      rw [mergeAdmin_full htoken]
      rfl
    · rw [hx] at hcur ⊢
      cases hcur
      rw [or_dict]
      show Except.ok (Value.dict (mergeAdmin e c)) = _
      rw [mergeAdmin_full htoken]
  | agentProxies =>
    refine ⟨fun _ => ?_, fun e h => by cases h⟩
    obtain ⟨p, rs, rfl, hrs⟩ := hwrites
    obtain ⟨cur', c, current, donors, hcur', hc, hiter, hdonors⟩ := hm.donors (I := I)
    have hgraft : (rs.map Value.dict).mapM (graftRoute I donors) = .ok (rs.map .dict) := by
      rw [List.mapM_map]
      refine Except.mapM_ok fun r hr => ?_
      have hno := hu.keys p _ hv hrs.routes r (List.mem_map.mpr ⟨r, hr, rfl⟩)
      simp only [Function.comp_apply, graftRoute, hno, Bool.false_eq_true, if_false]
    have hmerge := mergeProxies_ok hiter hdonors hrs.routes hgraft
    rw [Dict.set_lookup_self hrs.distinct (lookup_of_get hrs.routes Value.noConfusion)] at hmerge
    refine docAfter_some hgiven hcur' ?_
    rw [hc]
    simp only [mergeSecrets, hmerge]
    rfl
  | providerSecrets => exact absurd hd (by decide)
  | cloudProviders | modelCatalog =>
    exact ⟨fun _ => docAfter_some hgiven hcur (mergeSecrets_other (by decide) (by decide) _ _),
      fun e h => by cases h⟩

/-- The credentials of a full file. -/
theorem full_credentials (ha : Legal a) (hu : Unmarked a) (hexp : exportBundle I now true a = .ok b)
    (C : Cipher) (p : Text) (m₂ : Machine) :
    ∃ m' names, restoreCredentials C p b m₂ = (m', .ok names) ∧
      (∀ v, a.docs .providerSecrets = .holds v → m'.docs .providerSecrets = .holds v) ∧
      ∀ bytes, a.authDb = some bytes → m'.authDb = some bytes := by
  have he := exportBundle_exported hexp
  obtain ⟨e, hsec, hgiven⟩ := he.secrets
  -- the cloud keys first
  obtain ⟨m₃, w, k, hs, hkeys, hauth⟩ : ∃ m₃ w k, restoreSecrets C p b m₂ = .ok (m₃, w, k) ∧
      (∀ v, a.docs .providerSecrets = .holds v → m₃.docs .providerSecrets = .holds v) ∧
      m₃.authDb = m₂.authDb := by
    unfold exportSecrets at hsec
    rw [if_neg Bool.noConfusion] at hsec
    unfold restoreSecrets
    rcases ha.doc .providerSecrets with hmiss | ⟨v, hv, d, rfl⟩
    · rw [hmiss] at hsec ⊢
      cases hsec
      rw [hgiven]
      refine ⟨m₂, [], [], rfl, fun v h => ?_, rfl⟩
      cases h
    · have hread : readJson a .providerSecrets = .ok (.dict d) := by
        unfold readJson
        rw [hv]
      rw [hv] at hsec ⊢
      simp only [hread] at hsec
      cases hsec
      rw [hgiven]
      have hopen : openSecrets C p (.dict d) = .ok (some (.dict d)) := by
        have hseal := hu.sealing d hv
        unfold openSecrets
        simp only
        cases hx : Dict.get d "enc" with
        | str t =>
          simp only
          rw [if_neg fun ht => hseal (by rw [hx, ht])]
        | _ => rfl
      show ∃ m₃ w k, (openSecrets C p (.dict d) >>= _) = _ ∧ _
      rw [hopen]
      refine ⟨_, _, _, rfl, fun v h => ?_, rfl⟩
      rw [← h]
      exact Function.update_self Doc.providerSecrets _ m₂.docs
  -- then the accounts
  have hgiven' : b.authDb = some (exportAuthDb true a) := he.authDb
  unfold exportAuthDb at hgiven'
  rw [if_neg Bool.noConfusion] at hgiven'
  unfold restoreCredentials
  rw [hs]
  unfold restoreAuthDb
  rw [hgiven']
  cases a.authDb with
  | none => exact ⟨m₃, _, rfl, hkeys, fun bytes h => by cases h⟩
  | some bytes => exact ⟨_, _, rfl, hkeys, fun _ h => h⟩

/-- What the machine `a` has in the machine `m'`, which was `c`: the launch script as text
mode reads it, and the load of `c` where the board's state of `a` has none. -/
structure Restored (a c m' : Machine) : Prop where
  script : ∀ t, a.startScript = some t → m'.startScript = some (universalNewlines t)
  doc : ∀ d v, d ≠ .adminState → a.docs d = .holds v → v ≠ .null → m'.docs d = .holds v
  state : ∀ d, a.docs .adminState = .holds (.dict d) →
    m'.docs .adminState = .holds (.dict (if Dict.has d "monitor" then d else d ++ loadOf c))
  authDb : ∀ bytes, a.authDb = some bytes → m'.authDb = some bytes

/-- **A full file makes another machine's documents its own.** -/
theorem full_restores {c : Machine} (ha : Reachable I C a) (hc : Reachable I C c) (hu : Unmarked a)
    (now now' : ℤ) (p : Text) :
    ∃ b m' report, exportBundle I now true a = .ok b ∧
      applyBundle I C now' b p c = (m', .ok report) ∧ Restored a c m' := by
  obtain ⟨b, hexp⟩ := exportBundle_ok (I := I) ha.legal now true
  obtain ⟨m₂, f, -, heq⟩ := applyBundle_eq hc.legal ha.legal hexp C now' p
  obtain ⟨m', names, hcred, -⟩ := full_credentials ha.legal hu hexp C p m₂
  rw [hcred] at heq
  have happ := applyBundle_applied heq
  obtain ⟨m₃, names', -, -, hcred'⟩ := happ.credentials
  obtain ⟨m'', names'', hcred'', hsecrets, hauth⟩ := full_credentials ha.legal hu hexp C p m₃
  obtain ⟨rfl, -⟩ := Prod.mk.inj (hcred'.symm.trans hcred'')
  refine ⟨b, m', _, hexp, heq, fun t ht => ?_, fun d v hd hv hne => ?_, fun d hd => ?_, hauth⟩
  · rw [happ.script, (exportBundle_exported hexp).script, ht]
    rfl
  · by_cases hmem : d ∈ SETTINGS
    · have hdoc := (docAfter_full hc.legal ha.legal hu hexp hmem hv hne).1 hd
      rw [happ.doc d hmem] at hdoc
      exact Except.ok.inj hdoc
    · obtain rfl : d = .providerSecrets := by
        cases d <;> first | rfl | exact absurd (by decide) hmem
      exact hsecrets v hv
  · have hdoc := (docAfter_full hc.legal ha.legal hu hexp (by decide) hd Value.noConfusion).2 d rfl rfl
    rw [happ.doc .adminState (by decide)] at hdoc
    exact Except.ok.inj hdoc

/-- **Out and back in.** In every state that a controller reaches, a file without secrets
changes nothing on the machine that it came from, and a file with them restores what it
holds on every other one. -/
theorem settings_round_trip (I : Interp) (C : Cipher) (now now' : ℤ) (p : Text) :
    (∀ m, Reachable I C m → ∃ b m' report, exportBundle I now false m = .ok b ∧
      applyBundle I C now' b p m = (m', .ok report) ∧ Unchanged m m') ∧
    ∀ a c, Reachable I C a → Reachable I C c → Unmarked a →
      ∃ b m' report, exportBundle I now true a = .ok b ∧
        applyBundle I C now' b p c = (m', .ok report) ∧ Restored a c m' :=
  ⟨fun _ h => redacted_identity h now now' p, fun _ _ ha hc hu => full_restores ha hc hu now now' p⟩

/-! ### A board's state without the load -/

/-- A machine that nobody has set up. -/
def freshMachine : Machine := ⟨none, fun _ => .missing, none⟩

/-- A machine with a board. -/
def board : Machine :=
  freshMachine.write .adminState (.dict [("monitor", .dict [("retentionSeconds", .int 600)]),
    ("topology", .dict [("clients", .dict [])])])

theorem board_reachable : Reachable Proxy.asciiInterp noCipher board :=
  (Reachable.fresh none).document .adminState _ ⟨_, rfl, by unfold Assoc.Distinct; decide⟩

/-- The board of a machine goes out and comes back. -/
theorem settings_round_trip_board :
    (∃ b m' report, exportBundle Proxy.asciiInterp 0 false board = .ok b ∧
      applyBundle Proxy.asciiInterp noCipher 0 b [] board = (m', .ok report) ∧
      Unchanged board m') ∧
    ∃ b m' report, exportBundle Proxy.asciiInterp 0 true board = .ok b ∧
      applyBundle Proxy.asciiInterp noCipher 0 b [] freshMachine = (m', .ok report) ∧
      Restored board freshMachine m' :=
  have h := settings_round_trip Proxy.asciiInterp noCipher 0 0 []
  ⟨h.1 board board_reachable, h.2 board freshMachine board_reachable (.fresh none)
    ⟨fun d hd => (by cases hd; rfl), fun d rs hd => (by cases hd), fun d hd => (by cases hd)⟩⟩

/-- The redacted file of `board` set up a fresh machine, whose own full file goes over
`board`: the board's state is not what that file holds, for `board` keeps its load. -/
theorem full_keeps_load : ∃ b₀ b m' report v,
    exportBundle Proxy.asciiInterp 0 false board = .ok b₀ ∧
    Reachable Proxy.asciiInterp noCipher
      (applyBundle Proxy.asciiInterp noCipher 0 b₀ [] freshMachine).1 ∧
    Reachable Proxy.asciiInterp noCipher board ∧
    exportBundle Proxy.asciiInterp 0 true
      (applyBundle Proxy.asciiInterp noCipher 0 b₀ [] freshMachine).1 = .ok b ∧
    applyBundle Proxy.asciiInterp noCipher 0 b [] board = (m', .ok report) ∧
    (applyBundle Proxy.asciiInterp noCipher 0 b₀ [] freshMachine).1.docs .adminState = .holds v ∧
    ¬ SameDoc (m'.docs .adminState) (.holds v) := by
  obtain ⟨b₀, h₀⟩ : ∃ b₀, exportBundle Proxy.asciiInterp 0 false board = .ok b₀ := ⟨_, rfl⟩
  have ha : Reachable Proxy.asciiInterp noCipher
      (applyBundle Proxy.asciiInterp noCipher 0 b₀ [] freshMachine).1 :=
    .imported (.fresh none) board_reachable h₀
  cases h₀
  refine ⟨_, _, _, _, _, rfl, ha, board_reachable, rfl, rfl, rfl, ?_⟩
  rintro (h | ⟨d, e, hd, he, hperm⟩)
  · have hv := Document.holds.inj h
    exact absurd (congrArg List.length (Value.dict.inj hv)) (by decide)
  · cases hd
    cases he
    exact absurd hperm.length_eq (by decide)

end Settings
