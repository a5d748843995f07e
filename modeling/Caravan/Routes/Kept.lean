import Caravan.Routes.Writers

/-!
# What the writers of the proxy's document keep

Requests that do not write on top of each other leave the document as they would one after the
other, and a route that was there stays unless a save of the list of routes leaves it out
(`edits_kept`). Nothing sees to that: the proxy's stop request and the controller's writers
share no lock, and what a reader falls back to where it cannot read is written as it is
(`edit_lost`).
-/

namespace Routes

open Python Ports Rewrite

variable {Rt : Type} {x : Outside Rt}

/-! ### Routes that can be read -/

/-- A route that `normalize_agent_proxy_route` takes. -/
structure Route.Fits (x : Outside Rt) (r : Route) : Prop where
  label : r.label.strip.take 80 ≠ []
  port : 1024 ≤ r.port ∧ r.port ≤ 65535
  upstreamPort : r.upstreamPort = 0 ∨ 1 ≤ r.upstreamPort ∧ r.upstreamPort ≤ 65535
  host : hostOk (Cloud.orElse r.upstreamHost "127.0.0.1").strip = true
  kind : x.lower r.kind.strip ≠ "service"

theorem refuseIf_of_not {refused : Prop} [Decidable refused] {e : AppError} (h : ¬ refused) :
    refuseIf refused e = .ok () := if_neg h

theorem upstreamPort_iff {n : ℤ} :
    (¬ ((if n = 0 then 8080 else n) < 1 ∨ 65535 < if n = 0 then 8080 else n)) ↔
      n = 0 ∨ 1 ≤ n ∧ n ≤ 65535 := by
  split
  · next h => simp [h]
  · next h => simp [h]

/-- A label that was trimmed and cut is not blank once it is trimmed and cut again. -/
theorem label_fits {t : Text} (h : t.strip.take 80 ≠ []) :
    (Text.strip (t.strip.take 80)).take 80 ≠ [] := by
  have hne := ((Text.strip_flush t).of_begin (List.take_prefix 80 _)).strip_ne_nil h
  obtain ⟨c, rest, hc⟩ := List.exists_cons_of_ne_nil hne
  rw [hc]
  exact List.cons_ne_nil _ _

/-- It takes the routes that fit, and what it makes of one fits and has its port. -/
theorem normalizeRoute_ok {r row : Route} (h : normalizeRoute x r = .ok row) :
    r.Fits x ∧ row.Fits x ∧ row.port = r.port := by
  unfold normalizeRoute at h
  simp only at h
  obtain ⟨_, hlabel, h⟩ := Except.bind_eq_ok h
  obtain ⟨_, hport, h⟩ := Except.bind_eq_ok h
  obtain ⟨_, hupstream, h⟩ := Except.bind_eq_ok h
  obtain ⟨_, hhost, h⟩ := Except.bind_eq_ok h
  obtain ⟨_, hkind, h⟩ := Except.bind_eq_ok h
  have hlabel := refuseIf_ok hlabel
  have hport : 1024 ≤ r.port ∧ r.port ≤ 65535 := by
    have := refuseIf_ok hport
    omega
  have hupstream := upstreamPort_iff.mp (refuseIf_ok hupstream)
  have hhost := not_not.mp (refuseIf_ok hhost)
  have hkind := refuseIf_ok hkind
  refine ⟨⟨hlabel, hport, hupstream, hhost, hkind⟩, ?_, by cases h; rfl⟩
  have hne : (Cloud.orElse r.upstreamHost "127.0.0.1").strip ≠ [] := by
    intro he
    rw [he] at hhost
    exact nomatch hhost
  cases h
  refine ⟨?_, hport, ?_, ?_, ?_⟩
  · exact label_fits hlabel
  · simp only
    split
    · exact .inr (by decide)
    · exact .inr (hupstream.resolve_left ‹_›)
  · simp only
    rw [Cloud.orElse, if_neg hne, Text.strip_strip]
    exact hhost
  · simp only
    split
    · next hc =>
      rw [of_decide_eq_true hc, show CONSUMER.strip = CONSUMER by decide, x.lower_consumer]
      decide
    · rw [Text.strip_nil, x.lower_nil]
      decide

theorem normalizeRoute_of_fits {r : Route} (h : r.Fits x) :
    ∃ row, normalizeRoute x r = .ok row := by
  unfold normalizeRoute
  simp only
  rw [refuseIf_of_not h.label, refuseIf_of_not (by have := h.port; omega),
    refuseIf_of_not (upstreamPort_iff.mpr h.upstreamPort), refuseIf_of_not (not_not.mpr h.host),
    refuseIf_of_not h.kind]
  exact ⟨_, rfl⟩

/-! ### The ports of a document -/

/-- The ports of the routes that the controller reads. -/
def portsOf (x : Outside Rt) (f : Option (Payload Rt)) : List ℤ :=
  (load x f).routes.map Route.port

/-- The routes of a document, as it has them. -/
def rawRoutes (f : Option (Payload Rt)) : List Route := (f.bind Payload.routes).getD []

theorem mem_loadRoutes {routes : List Route} {p : ℤ} :
    p ∈ (loadRoutes x routes).map Route.port ↔ ∃ r ∈ routes, r.port = p ∧ r.Fits x := by
  -- a fold that puts the port of every route that fits to those there are
  have hall : ∀ {f : List Route → Route → List Route}, (∀ cleaned r,
      p ∈ (f cleaned r).map Route.port ↔
        p ∈ cleaned.map Route.port ∨ r.port = p ∧ r.Fits x) → ∀ cleaned,
      p ∈ (routes.foldl f cleaned).map Route.port ↔
        p ∈ cleaned.map Route.port ∨ ∃ r ∈ routes, r.port = p ∧ r.Fits x := by
    intro f hf
    induction routes with
    | nil => simp
    | cons r rest ih =>
      intro cleaned
      rw [List.foldl_cons, ih, hf]
      simp only [List.mem_cons, exists_eq_or_imp, or_assoc]
  refine (hall (fun cleaned r => ?_) []).trans (by simp)
  cases hr : normalizeRoute x r with
  | error e =>
    have hno : ¬ r.Fits x := fun hf => by
      obtain ⟨row, hrow⟩ := normalizeRoute_of_fits hf
      cases hr.symm.trans hrow
    simp [hno]
  | ok row =>
    obtain ⟨hfits, -, hport⟩ := normalizeRoute_ok hr
    simp only [hfits, and_true]
    split
    · next hmem =>
      constructor
      · exact .inl
      · rintro (h | rfl)
        · exact h
        · exact hport ▸ hmem
    · simp [hport, eq_comm]

/-- Each route of a configuration fits. -/
theorem loadRoutes_fits {routes : List Route} {r : Route} (h : r ∈ loadRoutes x routes) :
    r.Fits x := by
  have hall : ∀ r ∈ loadRoutes x routes, r.Fits x := by
    unfold loadRoutes
    refine List.foldlRecOn (motive := fun cleaned => ∀ r ∈ cleaned, Route.Fits x r) routes _
      (fun _ hr => absurd hr List.not_mem_nil) fun cleaned hcleaned r _ => ?_
    split
    · next row hrow =>
      split
      · exact hcleaned
      · intro s hs
        cases List.mem_append.mp hs with
        | inl hs => exact hcleaned s hs
        | inr hs => exact List.mem_singleton.mp hs ▸ (normalizeRoute_ok hrow).2.1
    · exact hcleaned
  exact hall r h

/-- A route that was changed in what it is not read by. -/
structure Route.Alike (r s : Route) : Prop where
  label : s.label = r.label
  port : s.port = r.port
  upstreamHost : s.upstreamHost = r.upstreamHost
  upstreamPort : s.upstreamPort = r.upstreamPort
  kind : s.kind = r.kind

theorem Route.Alike.fits {r s : Route} (h : r.Alike s) (hr : r.Fits x) : s.Fits x where
  label := h.label ▸ hr.label
  port := h.port ▸ hr.port
  upstreamPort := h.upstreamPort ▸ hr.upstreamPort
  host := h.upstreamHost ▸ hr.host
  kind := h.kind ▸ hr.kind

theorem repoint_alike (ids : List Text) (r : Route) : r.Alike (repoint ids r) :=
  ⟨rfl, rfl, rfl, rfl, rfl⟩

theorem load_routes (f : Option (Payload Rt)) : ∃ ids,
    (load x f).routes = (loadRoutes x (rawRoutes f)).map (repoint ids) := by
  refine ⟨(keptRouters x (f.bind Payload.routers) (some (loadRoutes x (rawRoutes f)))).map
    x.routerId, ?_⟩
  cases f with
  | none => rfl
  | some payload => rfl

theorem mem_portsOf {f : Option (Payload Rt)} {p : ℤ} :
    p ∈ portsOf x f ↔ ∃ r ∈ rawRoutes f, r.port = p ∧ r.Fits x := by
  obtain ⟨ids, he⟩ := load_routes (x := x) f
  have hports : portsOf x f = (loadRoutes x (rawRoutes f)).map Route.port := by
    rw [portsOf, he, List.map_map]
    rfl
  rw [hports, mem_loadRoutes]

/-- The routes a request works on: for each port one that fits. -/
theorem mem_config {f : Option (Payload Rt)} {p : ℤ} :
    p ∈ portsOf x f ↔ ∃ r ∈ (load x f).routes, r.port = p ∧ r.Fits x := by
  constructor
  · intro h
    obtain ⟨r, hr, hp⟩ := List.mem_map.mp h
    obtain ⟨ids, he⟩ := load_routes (x := x) f
    have hmem := hr
    rw [he] at hmem
    obtain ⟨r', hr', rfl⟩ := List.mem_map.mp hmem
    exact ⟨_, hr, hp, (repoint_alike ids r').fits (loadRoutes_fits hr')⟩
  · rintro ⟨r, hr, rfl, -⟩
    exact List.mem_map_of_mem hr

/-! ### What a write leaves of the ports -/

theorem recomputeEligibility_alike (routes : List Route) :
    ∀ r ∈ routes, ∃ s ∈ recomputeEligibility x routes, r.Alike s := by
  intro r hr
  refine ⟨_, List.mem_map_of_mem hr, ?_⟩
  split
  · exact ⟨rfl, rfl, rfl, rfl, rfl⟩
  · exact ⟨rfl, rfl, rfl, rfl, rfl⟩

theorem protectGraph_routes (p : Payload Rt) (old : Option (Payload Rt)) :
    (protectGraph x p old).routes = p.routes := by
  unfold protectGraph
  simp only
  split <;> rfl

/-- Each route of a payload is written, in all that it is read by. -/
theorem prepared_alike {p : Payload Rt} {routes : List Route} (hp : p.routes = some routes)
    (old : Option (Payload Rt)) :
    ∀ r ∈ routes, ∃ s ∈ rawRoutes (some (protectGraph x (prepared x p) old)), r.Alike s := by
  intro r hr
  obtain ⟨s, hs, halike⟩ := recomputeEligibility_alike (x := x) routes r hr
  have hraw : rawRoutes (some (protectGraph x (prepared x p) old)) =
      (prepared x p).routes.getD [] := congrArg (Option.getD · []) (protectGraph_routes ..)
  rw [hraw]
  unfold prepared
  simp only [hp, Option.map_some]
  split
  · refine ⟨_, List.mem_map_of_mem hs, ?_⟩
    exact ⟨halike.label, halike.port, halike.upstreamHost, halike.upstreamPort, halike.kind⟩
  · exact ⟨s, hs, halike⟩

/-- **What an operation of the controller leaves of the ports**: those of the routes it
writes that fit. -/
theorem portsOf_written {p : Payload Rt} {routes : List Route} (hp : p.routes = some routes)
    (old : Option (Payload Rt)) {r : Route} (hr : r ∈ routes) (hfits : r.Fits x) :
    r.port ∈ portsOf x (some (protectGraph x (prepared x p) old)) := by
  obtain ⟨s, hs, halike⟩ := prepared_alike (x := x) hp old r hr
  exact mem_portsOf.mpr ⟨s, hs, halike.port, halike.fits hfits⟩

/-- A payload that keeps the routes of a configuration: for each one of its port that fits. -/
def KeepsRoutes (x : Outside Rt) (c : Config Rt) (p : Payload Rt) : Prop :=
  ∃ routes, p.routes = some routes ∧
    ∀ r ∈ c.routes, r.Fits x → ∃ s ∈ routes, s.port = r.port ∧ s.Fits x

theorem keepsRoutes_refl {c : Config Rt} {p : Payload Rt} (h : p.routes = some c.routes) :
    KeepsRoutes x c p := ⟨c.routes, h, fun r hr hf => ⟨r, hr, rfl, hf⟩⟩

/-- An operation that keeps the routes keeps the ports. -/
theorem rewrites_ports {op : Config Rt → Except AppError (Payload Rt)}
    {k : Tail Lock Answer → Tail Lock Answer}
    (hop : ∀ c, (op c).Yields (KeepsRoutes x c)) {f : Option (Payload Rt)} {p : ℤ}
    (h : p ∈ portsOf x f) : p ∈ portsOf x ((rewrites x op k).alone f) := by
  unfold rewrites
  rw [Proc.alone]
  cases hw : op (load x f) with
  | error e => exact h
  | ok payload =>
    obtain ⟨routes, hroutes, hkeeps⟩ := hop _ _ hw
    obtain ⟨r, hr, rfl, hfits⟩ := mem_config.mp h
    obtain ⟨s, hs, hport, hs'⟩ := hkeeps r hr hfits
    exact hport ▸ portsOf_written hroutes f hs hs'

/-! ### What each request leaves of the ports -/

theorem setPolicy_keeps (patch : Policy) (c : Config Rt) :
    (setPolicy patch c).Yields (KeepsRoutes x c) := .ok (keepsRoutes_refl rfl)

theorem setRouters_keeps (routers : List Rt) (c : Config Rt) :
    (setRouters x routers c).Yields (KeepsRoutes x c) := by
  refine .ok ⟨_, rfl, fun r hr hfits => ⟨_, List.mem_map_of_mem hr, rfl, ?_⟩⟩
  exact (repoint_alike _ r).fits hfits

theorem issueKey_keeps (port : ℤ) (key : Text) (c : Config Rt) :
    (issueKey x port key c).Yields (KeepsRoutes x c) := by
  unfold issueKey
  split
  · exact .error
  · refine .bind fun _ _ => .bind fun _ _ => .bind fun _ _ => .bind fun _ _ => .ok ?_
    refine ⟨_, rfl, fun r hr hfits => ⟨_, List.mem_map_of_mem hr, ?_⟩⟩
    split
    · exact ⟨rfl, hfits.label, hfits.port, hfits.upstreamPort, hfits.host, hfits.kind⟩
    · exact ⟨rfl, hfits⟩

/-- A label that a patch gives is one that a route may have. -/
theorem patchLabel_fits {patch : RoutePatch} {c : Config Rt} {r : Route} (hfits : r.Fits x) :
    (patchLabel x patch c r).Yields fun label => label.strip.take 80 ≠ [] := by
  unfold patchLabel
  split
  · exact .ok hfits.label
  · next label _ =>
    simp only
    split
    · exact .ok hfits.label
    · next hne =>
      split
      · unfold cleanName
        refine .bind fun _ hname => .bind fun _ _ => .ok ?_
        exact label_fits (refuseIf_ok hname)
      · exact .ok (label_fits hne)

theorem patchRoute_fits {patch : RoutePatch} {c : Config Rt} {r : Route} (hfits : r.Fits x) :
    (patchRoute x patch c r).Yields fun s => s.port = r.port ∧ s.Fits x := by
  unfold patchRoute
  refine .bind fun label hlabel => .bind fun _ _ => .bind fun _ _ => .bind fun _ _ =>
    .bind fun _ _ => .ok ⟨rfl, ?_⟩
  exact ⟨patchLabel_fits hfits label hlabel, hfits.port, hfits.upstreamPort, hfits.host,
    hfits.kind⟩

theorem setRoutePolicy_keeps (port : ℤ) (patch : RoutePatch) (c : Config Rt) :
    (setRoutePolicy x port patch c).Yields (KeepsRoutes x c) := by
  unfold setRoutePolicy
  refine .bind fun routes hroutes => .bind fun _ _ => .bind fun _ _ => .ok ?_
  refine ⟨routes, rfl, fun r hr hfits => ?_⟩
  obtain ⟨s, hs, hrow⟩ := Except.mapM_mem hroutes hr
  split at hrow
  · exact ⟨s, hs, patchRoute_fits hfits s hrow⟩
  · cases hrow
    exact ⟨r, hs, rfl, hfits⟩

/-- The loop of a save writes a route that fits for each port that was posted. -/
theorem cleanRoutes_fits {stored : List Route} {cleaned routes : List Route} :
    (cleanRoutes x stored cleaned routes).Yields fun rows =>
      (∀ r ∈ cleaned, r ∈ rows) ∧ ∀ r ∈ routes, ∃ s ∈ rows, s.port = r.port ∧ s.Fits x := by
  induction routes generalizing cleaned with
  | nil => exact .ok ⟨fun _ => id, fun _ hr => absurd hr List.not_mem_nil⟩
  | cons r rest ih =>
    unfold cleanRoutes
    refine .bind fun row hrow => .bind fun _ _ rows hrows => ?_
    obtain ⟨hkept, hrest⟩ := ih rows hrows
    refine ⟨fun s hs => hkept s (List.mem_append_left _ hs), fun s hs => ?_⟩
    cases List.mem_cons.mp hs with
    | inl he =>
      obtain ⟨-, hfits, hport⟩ := normalizeRoute_ok hrow
      refine ⟨row, hkept row (by simp), ?_, hfits⟩
      rw [hport, he, keptFields]
      split <;> rfl
    | inr hs => exact hrest s hs

/-- A route stays where its port was posted. -/
theorem writeRoutes_ports {routes : List Route} {routers : Option (List Rt)}
    {k : Tail Lock Answer → Tail Lock Answer} {f : Option (Payload Rt)} {p : ℤ}
    (h : p ∈ portsOf x f) (hp : p ∈ routes.map Route.port) :
    p ∈ portsOf x ((rewrites x (writeRoutes x routes routers) k).alone f) := by
  unfold rewrites
  rw [Proc.alone]
  cases hw : writeRoutes x routes routers (load x f) with
  | error e => exact h
  | ok payload =>
    unfold writeRoutes at hw
    obtain ⟨rows, hrows, hw⟩ := Except.bind_eq_ok hw
    obtain ⟨_, -, hw⟩ := Except.bind_eq_ok hw
    obtain ⟨_, -, hw⟩ := Except.bind_eq_ok hw
    cases hw
    obtain ⟨r, hr, rfl⟩ := List.mem_map.mp hp
    obtain ⟨s, hs, hport, hfits⟩ := (cleanRoutes_fits rows hrows).2 r hr
    rw [← hport]
    exact portsOf_written rfl f (r := repoint _ s) (List.mem_map_of_mem hs)
      ((repoint_alike _ s).fits hfits)

/-- Under a revision too old, or none, the file stays; else the request goes on. -/
theorem checked_ports {digest : Option (Payload Rt) → Text} {name revision : Text}
    {k : Writes Rt} {f : Option (Payload Rt)} {p : ℤ} (h : p ∈ portsOf x f)
    (hk : p ∈ portsOf x (k.alone f)) :
    p ∈ portsOf x ((checked digest name revision k).alone f) := by
  unfold checked
  split
  · exact hk
  · rw [Proc.alone]
    split
    · exact h
    · exact hk

/-- A save of the list of routes that leaves a port out. -/
def Request.Drops (p : ℤ) : Request Rt → Prop
  | .saveRoutes routes _ _ => p ∉ routes.map Route.port
  | _ => False

/-- The proxy writes the routes as the file has them. -/
theorem rawRoutes_withStop {id route reason : Text} {requestedAt : ℕ} {f : Option (Payload Rt)}
    {r : Route} (h : r ∈ rawRoutes f) :
    r ∈ rawRoutes (some (withStop x id route reason requestedAt f)) := by
  unfold rawRoutes at h
  cases f with
  | none => exact absurd h List.not_mem_nil
  | some payload =>
    rw [Option.bind_some] at h
    cases hroutes : payload.routes with
    | none => exact absurd h (by simp [hroutes])
    | some routes =>
      have hwritten : (withStop x id route reason requestedAt (some payload)).routes =
          some routes := by simp [withStop, loadConfig, hroutes]
      rw [rawRoutes, Option.bind_some, hwritten]
      rwa [hroutes] at h

/-- A board writes the routes that it has read anew. -/
theorem fresh_ports {f : Option (Payload Rt)} {routers : List Rt} {p : ℤ}
    (h : p ∈ portsOf x f) : p ∈ portsOf x (some (protectGraph x
      (prepared x { f.getD blankPayload with routers := some routers }) f)) := by
  obtain ⟨r, hr, rfl, hfits⟩ := mem_portsOf.mp h
  unfold rawRoutes at hr
  cases f with
  | none => exact absurd hr List.not_mem_nil
  | some payload =>
    rw [Option.bind_some] at hr
    cases hroutes : payload.routes with
    | none => exact absurd hr (by simp [hroutes])
    | some routes =>
      rw [hroutes] at hr
      have hfresh : ({ payload with routers := some routers } : Payload Rt).routes = some routes :=
        hroutes
      rw [Option.getD_some]
      exact portsOf_written hfresh _ hr hfits

/-- **A route stays, whatever is asked for, unless a save of the list leaves it out.** -/
theorem Request.keeps (q : Request Rt) {f : Option (Payload Rt)} {p : ℤ} (h : p ∈ portsOf x f) :
    p ∈ portsOf x ((q.proc x).alone f) ∨ q.Drops p := by
  cases q with
  | stopRequest id route reason requestedAt =>
    refine .inl ?_
    rw [Request.proc]
    split
    · exact h
    · obtain ⟨r, hr, hrow⟩ := mem_portsOf.mp h
      exact mem_portsOf.mpr ⟨r, rawRoutes_withStop hr, hrow⟩
  | setPolicy patch => exact .inl (rewrites_ports (fun c => setPolicy_keeps patch c) h)
  | setRoutePolicy port patch =>
    exact .inl (rewrites_ports (fun c => setRoutePolicy_keeps port patch c) h)
  | issueKey port key => exact .inl (rewrites_ports (fun c => issueKey_keeps port key c) h)
  | saveRoutes routes routers revision =>
    by_cases hp : p ∈ routes.map Route.port
    · refine .inl ?_
      rw [Request.proc, Proc.alone]
      exact checked_ports h (writeRoutes_ports h hp)
    · exact .inr hp
  | setRouters routers revision =>
    refine .inl ?_
    rw [Request.proc, Proc.alone]
    exact checked_ports h (rewrites_ports (fun c => setRouters_keeps routers c) h)
  | readBoard synced =>
    refine .inl ?_
    rw [Request.proc, Proc.alone]
    split
    · exact h
    · exact fresh_ports h

/-! ### Any number of them -/

/-- A port stays through a log of requests none of which leaves it out. -/
theorem fold_ports {f : Option (Payload Rt)} {p : ℤ} (h : p ∈ portsOf x f)
    (log : List (Request Rt)) :
    p ∈ portsOf x (fold (Request.proc x) f log) ∨ ∃ q ∈ log, q.Drops p := by
  induction log generalizing f with
  | nil => exact .inl h
  | cons q log ih =>
    cases q.keeps h with
    | inr hq => exact .inr ⟨q, List.mem_cons_self, hq⟩
    | inl hq =>
      cases ih hq with
      | inl hlog => exact .inl hlog
      | inr hlog =>
        obtain ⟨q', hmem, hdrops⟩ := hlog
        exact .inr ⟨q', List.mem_cons_of_mem q hmem, hdrops⟩

/-- A read of the board, which says nothing of a write that failed. -/
def Request.IsBoard : Request Rt → Prop
  | .readBoard _ => True
  | _ => False

theorem rewrites_owns {op : Config Rt → Except AppError (Payload Rt)}
    {k : Tail Lock Answer → Tail Lock Answer} (hk : ∀ r, (k (.done r)).answer = r) :
    (rewrites x op k).Owns (· = .ok ()) := by
  intro f
  beta_reduce
  split
  · intro _
    change ¬ (k (answered false)).answer = .ok ()
    rw [answered, hk]
    exact fun he => nomatch he
  · trivial

theorem checked_owns {digest : Option (Payload Rt) → Text} {name revision : Text} {k : Writes Rt}
    (hk : k.Owns (· = .ok ())) : (checked digest name revision k).Owns (· = .ok ()) := by
  unfold checked
  split
  · exact hk
  · intro f
    beta_reduce
    split
    · trivial
    · exact hk

/-- The other requests say so where their write fails. -/
theorem Request.owns (q : Request Rt) (hq : ¬ q.IsBoard) :
    (q.proc x).Owns (· = .ok ()) := by
  cases q with
  | stopRequest id route reason requestedAt =>
    rw [Request.proc]
    split
    · trivial
    · exact fun _ he => nomatch he
  | setPolicy patch =>
    rw [Request.proc]
    exact rewrites_owns fun _ => rfl
  | setRoutePolicy port patch => exact rewrites_owns (k := id) fun _ => rfl
  | issueKey port key => exact rewrites_owns (k := id) fun _ => rfl
  | saveRoutes routes routers revision =>
    exact checked_owns (rewrites_owns (k := .unlock .revisions) fun _ => rfl)
  | setRouters routers revision =>
    exact checked_owns (rewrites_owns (k := .unlock .revisions) fun _ => rfl)
  | readBoard synced => exact absurd trivial hq

/-- Requests to both processes, on the proxy's document. -/
abbrev Requests (Rt : Type) :=
  Threads (Shared Lock (Payload Rt) (Request Rt)) (Place Lock (Payload Rt) Answer (Request Rt))

/-- **No edit is lost**, in every run in which no read fails and no request writes while another
has read and is still to write: the document is what the requests make of it one after the
other, each that was answered with success among them (a board that could not write its
routers says nothing of it), and a route is there until a save of the list leaves it out. -/
theorem edits_kept {file : Option (Payload Rt)} {s : Requests Rt}
    (h : (program (Request.proc x) file).system.Reach Unhurried s) :
    s.shared.file = fold (Request.proc x) file s.shared.log ∧
      (∀ t q landed, s.pc t = .ended q (.ok ()) landed →
        q ∈ s.shared.log ∨ q.IsBoard ∧ landed = false) ∧
      ∀ earlier later p, s.shared.log = earlier ++ later →
        p ∈ portsOf x (fold (Request.proc x) file earlier) →
        p ∈ portsOf x s.shared.file ∨ ∃ q ∈ later, q.Drops p := by
  obtain ⟨hfile, hsound⟩ := serial h
  refine ⟨hfile, fun t q landed ht => ?_, fun earlier later p hlog hp => ?_⟩
  · have hin : landed = true → q ∈ s.shared.log := by
      have := hsound t
      rw [ht] at this
      exact this
    cases landed with
    | true => exact .inl (hin rfl)
    | false =>
      refine .inr ⟨?_, rfl⟩
      by_contra hq
      have howns : (s.pc t).Owns (· = .ok ()) fun q => ¬ q.IsBoard :=
        owned (fun q hq => q.owns hq) h t
      rw [ht] at howns
      exact nomatch howns hq rfl
  · have hlater := fold_ports hp later
    rw [fold, fold, ← List.foldl_append, ← hlog] at hlater
    rwa [hfile]

/-! ### Runs that lose an edit -/

/-- How a request ended: its answer, and whether it wrote. -/
def result (s : Requests Rt) (t : ℕ) : Option (Answer × Bool) :=
  match s.pc t with
  | .ended _ r landed => some (r, landed)
  | _ => none

/-- Routers that are their names, and nothing outside that matters. -/
def plain : Outside Text where
  lower t := t
  lower_nil := rfl
  lower_consumer := rfl
  casefold t := t
  roleFromLabel _ := []
  groupKey t := t
  urlOk _ := true
  proxyHolds _ := true
  proxyRange := "23001–23064"
  shown _ := []
  digestRoutes _ := []
  digestRouters _ := []
  defaultRoutes := []
  defaultPolicy := {}
  normalizeRouter r := r
  forgetAbsent _ r := r
  routerId r := r
  blankRouter := DEFAULT_ROUTER_ID
  withInputs _ r := r
  hasNodes _ := false
  withGraphOf r _ := r

/-- One client, on port 23001. -/
def oneRoute : Payload Text :=
  { routes := some [{ label := "chat", port := 23001 }], policy := some { maxSlots := some 1 } }

def stop : Request Text := .stopRequest "r1" "agent" "stopped" 7

def twoSlots : Request Text := .setPolicy { maxSlots := some 2 }

/-- A stop request and, between its read and its write, an edit of the policy. -/
def across : List (ℕ × Act (Request Text)) :=
  [(0, .start stop), (0, .lock), (0, .read false),
    (1, .start twoSlots), (1, .read false), (1, .read false), (1, .write false), (1, .finish),
    (0, .write false), (0, .unlock), (0, .finish)]

/-- A stop request whose read fails. -/
def unread : List (ℕ × Act (Request Text)) :=
  [(0, .start stop), (0, .lock), (0, .read true), (0, .write false), (0, .unlock), (0, .finish)]

def maxSlotsOf (f : Option (Payload Text)) : Option ℤ :=
  (f.bind Payload.policy).bind Policy.maxSlots

/-- The two requests by themselves. -/
def stopAlone : List (Act (Request Text)) :=
  [.start stop, .lock, .read false, .write false, .unlock, .finish]

def slotsAlone : List (Act (Request Text)) :=
  [.start twoSlots, .read false, .read false, .write false, .finish]

/-- The requests' steps, and where a script leads from the file with one route. -/
abbrev steps := Rewrite.next (L := Lock) (Request.proc plain)

def led (script : List (ℕ × Act (Request Text))) : Option (Requests Text) :=
  Program.follow steps (before (some oneRoute)) script

theorem not_pending_of_result {s : Requests Text} {t : ℕ} (h : (result s t).isSome) :
    ¬ (s.pc t).Pending := by
  unfold result at h
  split at h
  · next he => simp [he, Place.Pending]
  · exact nomatch h

/-- The two requests one after the other: the file has both edits, and the route. -/
theorem edits_kept_inTurn : ∃ s : Requests Text,
    result s 0 = some (.ok (), true) ∧ result s 1 = some (.ok (), true) ∧
    s.shared.file = fold (Request.proc plain) (some oneRoute) s.shared.log ∧
    maxSlotsOf s.shared.file = some 2 ∧ (23001 : ℤ) ∈ portsOf plain s.shared.file := by
  obtain ⟨s₁, h₁, hdone₁⟩ := Program.follow_to
    (led (stopAlone.map fun e => (0, e))) (R := fun s => (result s 0).isSome) (by decide)
  obtain ⟨s₂, h₂, hr₀, hr₁, hslots, hport⟩ := Program.follow_to
    (led ((stopAlone.map fun e => (0, e)) ++ slotsAlone.map fun e => (1, e)))
    (R := fun s => result s 0 = some (.ok (), true) ∧ result s 1 = some (.ok (), true) ∧
      maxSlotsOf s.shared.file = some 2 ∧ (23001 : ℤ) ∈ portsOf plain s.shared.file)
    (by decide)
  obtain ⟨hreach₁, hothers⟩ := reach_alone (t := 0) stopAlone (by simp [stopAlone]) reach_before
    (fun _ _ => id) h₁
  have hidle : ∀ u, u ≠ 1 → ¬ (s₁.pc u).Pending := fun u _ => by
    by_cases hu : u = 0
    · exact hu ▸ not_pending_of_result hdone₁
    · exact hothers u hu
  obtain ⟨hreach₂, -⟩ := reach_alone (t := 1) slotsAlone (by simp [slotsAlone]) hreach₁ hidle
    (by rw [← h₂, led, Program.follow_append, ← led, h₁]; rfl)
  exact ⟨s₂, hr₀, hr₁, (edits_kept hreach₂).1, hslots, hport⟩

/-- **A stop request and an edit of the policy lose one of the two**, whichever order they are
taken in, though both were answered; and a stop request whose read fails takes the routes. -/
theorem edit_lost :
    (∃ s : Requests Text, (program (Request.proc plain) (some oneRoute)).system.Reachable s ∧
      result s 0 = some (.ok (), true) ∧ result s 1 = some (.ok (), true) ∧
      maxSlotsOf s.shared.file = some 1 ∧
      ∀ log ∈ [[stop, twoSlots], [twoSlots, stop]],
        maxSlotsOf (fold (Request.proc plain) (some oneRoute) log) = some 2) ∧
    ∃ s : Requests Text, (program (Request.proc plain) (some oneRoute)).system.Reachable s ∧
      result s 0 = some (.ok (), true) ∧ (23001 : ℤ) ∈ portsOf plain (some oneRoute) ∧
      (23001 : ℤ) ∉ portsOf plain s.shared.file := by
  constructor
  · obtain ⟨s, hs, hr₀, hr₁, hslots⟩ := Program.follow_to (led across)
      (R := fun s => result s 0 = some (.ok (), true) ∧ result s 1 = some (.ok (), true) ∧
        maxSlotsOf s.shared.file = some 1) (by decide)
    have hreach := Program.reach_follow (C := program (Request.proc plain) (some oneRoute))
      (fun _ _ _ _ _ h => h) across reach_before hs fun _ _ _ => trivial
    exact ⟨s, hreach, hr₀, hr₁, hslots, by decide⟩
  · obtain ⟨s, hs, hr, hgone⟩ := Program.follow_to (led unread)
      (R := fun s => result s 0 = some (.ok (), true) ∧
        (23001 : ℤ) ∉ portsOf plain s.shared.file) (by decide)
    have hreach := Program.reach_follow (C := program (Request.proc plain) (some oneRoute))
      (fun _ _ _ _ _ h => h) unread reach_before hs fun _ _ _ => trivial
    exact ⟨s, hreach, hr, by decide, hgone⟩

end Routes
