import Caravan.Fleet.Assignments
import Caravan.Python.Except

/-!
# One port, one claim

The board's settings of a port are copied to the proxy by the port's number, so two routes on
one port are two owners of one copy. A bind refuses a port that another agent holds; but it asks
about other agents only, and it asks before it writes. `Timely` says what the writes rely on, and
`claimed_once` that no port is claimed twice in a run where they find it.
-/

namespace Fleet

open Python Requests

variable (O : Outside)

/-- The ports that the stored assignments claim, one for each route. -/
def claimed (m : List (Text × Entry)) : List ℤ :=
  m.flatMap fun e => e.2.rows.flatMap (rowPorts O)

/-! ### What the writes rely on -/

/-- The rows that a request copied are still those of its client. -/
def SameRows (x x₀ : Store) (host : Text) : Prop := x.rows host = x₀.rows host

/-- No other role of an agent has a port. -/
def OtherRolesFree (x : Store) (host agent role : Text) (port : ℕ) : Prop :=
  ∀ a ∈ x.rows host, a.agentId = agent →
    ∀ r ∈ a.routes, r.proxyId = pidOf port → r.init.role = role

/-- What a step that makes a claim relies on: the client's rows are those that the request
copied; and, of a bind, the port's holders are those that it checked, with no other role of the
agent among them. -/
def OnTime (q : Request) (seen : List Store) (x x' : Store) : Prop :=
  (claimed O x'.assignments).Subperm (claimed O x.assignments) ∨
    match q, seen with
    | .bind host agent role port _, checked :: copied :: _ =>
      SameRows x copied host.strip ∧ ∀ p : ℕ, portArg O port = .ok p →
        portHolders x (pidOf p) = portHolders checked (pidOf p) ∧
          OtherRolesFree x host.strip agent.strip (roleOf role) p
    | .context host .., copied :: _ => SameRows x copied host.strip
    | .model host .., copied :: _ => SameRows x copied host.strip
    | .remove host .., copied :: _ => SameRows x copied host.strip
    | .deleteAgent id _, copied :: _ => SameRows x copied id.strip
    | _, _ => True

/-! ### The documents -/

/-- A route as the code writes it: its id is trimmed, and one that reads as a port is spelt as
`for_port` spells it. -/
structure ProxyRoute.Written (r : ProxyRoute) : Prop where
  trimmed : r.proxyId.strip = r.proxyId
  spelt : ∀ n, numberAfter O r.proxyId PROXY_ID_PREFIX = some n →
    ∃ p : ℕ, n = p ∧ r.proxyId = pidOf p

/-- A row as the code writes it. -/
structure AgentAssignment.Written (a : AgentAssignment) : Prop where
  trimmed : a.agentId.strip = a.agentId
  routes : ∀ r ∈ a.routes, r.Written O

/-- The rows of a client as the code writes them, one for an agent. -/
structure RowsWritten (rows : List AgentAssignment) : Prop where
  written : ∀ a ∈ rows, a.Written O
  agents : (rows.map AgentAssignment.agentId).Nodup

/-- The document, where no port is claimed twice. -/
structure Clean (x : Store) : Prop where
  distinct : Assoc.Distinct x.assignments
  written : ∀ e ∈ x.assignments, RowsWritten O e.2.rows
  once : (claimed O x.assignments).Nodup

variable {O} {x : Store}

theorem RowsWritten.nil : RowsWritten O [] :=
  ⟨fun _ h => absurd h List.not_mem_nil, List.nodup_nil⟩

theorem Clean.rows (h : Clean O x) (host : Text) : RowsWritten O (x.rows host) := by
  unfold Store.rows
  cases he : Assoc.get x.assignments host with
  | none => exact RowsWritten.nil
  | some e => exact h.written _ (Assoc.mem_of_get he)

/-- The claims of a client apart from those of the others. -/
theorem claimed_perm (h : Assoc.Distinct x.assignments) (host : Text) :
    (claimed O x.assignments).Perm
      ((x.rows host).flatMap (rowPorts O) ++ claimed O (Assoc.del x.assignments host)) := by
  unfold Store.rows
  cases he : Assoc.get x.assignments host with
  | none => rw [Assoc.del_of_get_none he]; exact .refl _
  | some e =>
    exact (Assoc.perm_of_get h he).flatMap_right fun e : Text × Entry =>
      e.2.rows.flatMap (rowPorts O)

theorem claimed_putRows_perm (h : Assoc.Distinct x.assignments) (host : Text) (e : Entry) :
    (claimed O (Assoc.set x.assignments host e)).Perm
      (e.rows.flatMap (rowPorts O) ++ claimed O (Assoc.del x.assignments host)) :=
  (Assoc.perm_set h host e).flatMap_right _

/-- What is written for a client. -/
theorem Clean.set (h : Clean O x) {host : Text} {e : Entry} {made : ℕ}
    (hrows : RowsWritten O e.rows)
    (honce : (e.rows.flatMap (rowPorts O) ++ claimed O (Assoc.del x.assignments host)).Nodup) :
    Clean O { x with assignments := Assoc.set x.assignments host e, made := made } where
  distinct := h.distinct.set host e
  written e' he' := by
    cases List.mem_cons.mp ((Assoc.perm_set h.distinct host e).mem_iff.mp he') with
    | inl he => exact he ▸ hrows
    | inr he => exact h.written e' (List.mem_of_mem_filter he)
  once := (claimed_putRows_perm h.distinct host e).nodup_iff.mpr honce

/-- What is removed of a client. -/
theorem Clean.del (h : Clean O x) (host : Text) :
    Clean O { x with assignments := Assoc.del x.assignments host } where
  distinct := h.distinct.del host
  written e he := h.written e (List.mem_of_mem_filter he)
  once := ((claimed_perm h.distinct host).nodup_iff.mp h.once).of_append_right

theorem Clean.clients (h : Clean O x) (clients : List (Text × Client)) :
    Clean O { x with clients } := ⟨h.distinct, h.written, h.once⟩

/-- Fewer claims than there were are claimed once. -/
theorem Clean.nodup_of_subperm (h : Clean O x) {host : Text} {e : Entry}
    (hsub : (claimed O (Assoc.set x.assignments host e)).Subperm (claimed O x.assignments)) :
    (e.rows.flatMap (rowPorts O) ++ claimed O (Assoc.del x.assignments host)).Nodup := by
  obtain ⟨l, hperm, hsub⟩ := hsub
  refine (claimed_putRows_perm h.distinct host e).nodup_iff.mp ?_
  exact hperm.nodup_iff.mp (h.once.sublist hsub)

/-- So are a client's claims that are among its own. -/
theorem Clean.nodup_of_sublist (h : Clean O x) {host : Text} {rows : List AgentAssignment}
    (hsub : (rows.flatMap (rowPorts O)).Sublist ((x.rows host).flatMap (rowPorts O))) :
    (rows.flatMap (rowPorts O) ++ claimed O (Assoc.del x.assignments host)).Nodup :=
  ((claimed_perm h.distinct host).nodup_iff.mp h.once).sublist (hsub.append_right _)

/-! ### Rows that are written again -/

theorem fromRaw_ok {r r' : ProxyRoute} (h : r.fromRaw = .ok r') : r' = r.init := by
  unfold ProxyRoute.fromRaw at h
  split at h
  · exact nomatch h
  · exact (Except.ok.inj h).symm

theorem routesFromRaw_ok {seen : List Text} {rs rs' : List ProxyRoute}
    (h : routesFromRaw seen rs = .ok rs') : rs' = rs.map ProxyRoute.init ∧
      (rs'.map ProxyRoute.role).Nodup ∧ ∀ r ∈ rs', r.role ∉ seen := by
  induction rs generalizing seen rs' with
  | nil =>
    obtain rfl := Except.ok.inj h
    exact ⟨rfl, List.nodup_nil, fun _ hr => absurd hr List.not_mem_nil⟩
  | cons r rs ih =>
    rw [routesFromRaw] at h
    obtain ⟨route, hroute, h⟩ := Except.bind_eq_ok h
    obtain rfl := fromRaw_ok hroute
    split at h
    · exact nomatch h
    · next hnew =>
      obtain ⟨rest, hrest, h⟩ := Except.bind_eq_ok h
      cases h
      obtain ⟨rfl, hnodup, hseen⟩ := ih hrest
      refine ⟨rfl, List.nodup_cons.mpr ⟨fun hmem => ?_, hnodup⟩, fun x hx => ?_⟩
      · obtain ⟨x, hx, hrole⟩ := List.mem_map.mp hmem
        exact hseen x hx (hrole ▸ List.mem_cons_self)
      · cases List.mem_cons.mp hx with
        | inl he => exact he ▸ hnew
        | inr hx => exact fun hmem => hseen x hx (List.mem_cons_of_mem _ hmem)

/-- What a row is read as. -/
theorem rowFromRaw_ok {a b : AgentAssignment} (h : a.fromRaw = .ok b) :
    b = ⟨a.agentId.strip, a.routes.map ProxyRoute.init⟩ ∧
      (b.routes.map ProxyRoute.role).Nodup := by
  unfold AgentAssignment.fromRaw at h
  obtain ⟨routes, hroutes, h⟩ := Except.bind_eq_ok h
  obtain ⟨rfl, hnodup, -⟩ := routesFromRaw_ok hroutes
  split at h
  · exact nomatch h
  · obtain rfl := Except.ok.inj h
    exact ⟨rfl, hnodup⟩

theorem ProxyRoute.Written.init {r : ProxyRoute} (h : r.Written O) :
    r.init.proxyId = r.proxyId ∧ r.init.Written O :=
  ⟨h.trimmed, ⟨Text.strip_strip _, by
    have hid : r.init.proxyId = r.proxyId := h.trimmed
    rw [hid]
    exact h.spelt⟩⟩

theorem rowPorts_map_init {rs : List ProxyRoute} (h : ∀ r ∈ rs, r.Written O) :
    (rs.map ProxyRoute.init).filterMap (fun r => numberAfter O r.proxyId PROXY_ID_PREFIX) =
      rs.filterMap fun r => numberAfter O r.proxyId PROXY_ID_PREFIX := by
  rw [List.filterMap_map]
  refine List.filterMap_congr fun r hr => ?_
  rw [Function.comp_apply, (h r hr).init.1]

/-- A row that is read is one of the same agent with the same ports. -/
theorem AgentAssignment.Written.fromRaw {a b : AgentAssignment} (ha : a.Written O)
    (h : a.fromRaw = .ok b) :
    b.Written O ∧ b.agentId = a.agentId ∧ rowPorts O b = rowPorts O a := by
  obtain ⟨rfl, -⟩ := rowFromRaw_ok h
  refine ⟨⟨Text.strip_strip _, fun r hr => ?_⟩, ha.trimmed, rowPorts_map_init ha.routes⟩
  obtain ⟨r, hmem, rfl⟩ := List.mem_map.mp hr
  exact (ha.routes r hmem).init.2

/-- So are all the rows of a client. -/
theorem RowsWritten.normalized {rows rows' : List AgentAssignment} (hrows : RowsWritten O rows)
    (h : rows.mapM AgentAssignment.fromRaw = .ok rows') :
    RowsWritten O rows' ∧ rows'.flatMap (rowPorts O) = rows.flatMap (rowPorts O) := by
  have hall := Except.mapM_eq_ok h
  have hkept : ∀ {l l' : List AgentAssignment}, (∀ a ∈ l, a.Written O) →
      List.Forall₂ (fun a b => a.fromRaw = .ok b) l l' → (∀ b ∈ l', b.Written O) ∧
        l'.map AgentAssignment.agentId = l.map AgentAssignment.agentId ∧
        l'.flatMap (rowPorts O) = l.flatMap (rowPorts O) := by
    intro l l' hl hf
    induction hf with
    | nil => exact ⟨fun _ hb => absurd hb List.not_mem_nil, rfl, rfl⟩
    | cons hab _ ih =>
      obtain ⟨hw, hids, hports⟩ := ih fun a ha => hl a (List.mem_cons_of_mem _ ha)
      obtain ⟨hb, hid, hp⟩ := (hl _ List.mem_cons_self).fromRaw hab
      refine ⟨List.forall_mem_cons.mpr ⟨hb, hw⟩, ?_, ?_⟩
      · rw [List.map_cons, List.map_cons, hid, hids]
      · rw [List.flatMap_cons, List.flatMap_cons, hp, hports]
  obtain ⟨hw, hids, hports⟩ := hkept hrows.written hall
  exact ⟨⟨hw, hids ▸ hrows.agents⟩, hports⟩

/-- **A client's rows are written again**: the document stays clean where they claim nothing new,
or where what they claim is claimed once. -/
theorem applyAssignments_safe {timely : List Store → Store → Store → Prop} {seen : List Store}
    {host : Text} {rows : List AgentAssignment} (hrows : RowsWritten O rows)
    (h : ∀ x rows', Clean O x → rows'.flatMap (rowPorts O) = rows.flatMap (rowPorts O) →
      timely seen x (putRows host rows' x) →
      (rows.flatMap (rowPorts O) ++ claimed O (Assoc.del x.assignments host)).Nodup) :
    (applyAssignments host rows).Safe (Clean O) timely seen := by
  unfold applyAssignments orRefuse
  cases hnorm : rows.mapM AgentAssignment.fromRaw with
  | error e => exact trivial
  | ok rows' =>
    obtain ⟨hwritten, hports⟩ := hrows.normalized hnorm
    refine fun x hx => ⟨fun htimely => hx.set hwritten ?_, trivial⟩
    rw [hports]
    exact h x rows' hx hports htimely

/-! ### Rows that are replaced -/

/-- The row of an agent among those of its client, and what replaces it. -/
theorem replaceRow_split {rows : List AgentAssignment} {agent : Text} {raw : AgentAssignment}
    (hagents : (rows.map AgentAssignment.agentId).Nodup)
    (hfound : rows.find? (fun a => a.agentId = agent) = some raw) :
    ∃ pre post, rows = pre ++ raw :: post ∧ raw.agentId = agent ∧
      (∀ a ∈ pre ++ post, a.agentId ≠ agent) ∧
      ∀ row, replaceRow agent row rows = pre ++ row :: post := by
  induction rows with
  | nil => exact nomatch hfound
  | cons a rows ih =>
    obtain ⟨ha, hrest⟩ := List.nodup_cons.mp hagents
    rw [List.find?_cons] at hfound
    by_cases he : a.agentId = agent
    · rw [decide_eq_true he] at hfound
      obtain rfl := Option.some.inj hfound
      refine ⟨[], rows, rfl, he, fun b hb hid => ha ?_, fun row => by simp [replaceRow, he]⟩
      exact List.mem_map.mpr ⟨b, hb, hid.trans he.symm⟩
    · rw [decide_eq_false he] at hfound
      obtain ⟨pre, post, rfl, hraw, hothers, hreplace⟩ := ih hrest hfound
      refine ⟨a :: pre, post, rfl, hraw, List.forall_mem_cons.mpr ⟨he, hothers⟩, fun row => ?_⟩
      rw [replaceRow, if_neg he, hreplace row]
      rfl

/-- The route of a role among those of its agent, and what is set for it. -/
theorem setRoute_split {a : AgentAssignment} (hroles : (a.routes.map ProxyRoute.role).Nodup)
    (route : ProxyRoute) : ∃ pre r post, (a.setRoute route).routes = pre ++ r :: post ∧
      r.proxyId = route.proxyId ∧ (pre ++ post).Sublist a.routes ∧
      ∀ r ∈ pre ++ post, r.role ≠ route.role := by
  have hchange : ∀ {rs : List ProxyRoute}, (rs.map ProxyRoute.role).Nodup →
      (∃ r ∈ rs, r.role = route.role) →
      ∃ pre r post, changeRole route.role route.moved rs = pre ++ r :: post ∧
        r.proxyId = route.proxyId ∧ (pre ++ post).Sublist rs ∧
        ∀ r ∈ pre ++ post, r.role ≠ route.role := by
    intro rs hrs hex
    induction rs with
    | nil => exact absurd hex.choose_spec.1 List.not_mem_nil
    | cons r rs ih =>
      obtain ⟨hr, hrest⟩ := List.nodup_cons.mp hrs
      by_cases he : r.role = route.role
      · refine ⟨[], route.moved r, rs, by simp [changeRole, he], rfl,
          List.sublist_cons_self r rs, fun x hx hrole => hr ?_⟩
        exact List.mem_map.mpr ⟨x, hx, hrole.trans he.symm⟩
      · obtain ⟨x, hx, hrole⟩ := hex
        have hx' : x ∈ rs := (List.mem_cons.mp hx).resolve_left fun h => he (h ▸ hrole)
        obtain ⟨pre, r', post, hsplit, hid, hsub, hothers⟩ := ih hrest ⟨x, hx', hrole⟩
        refine ⟨r :: pre, r', post, by simp [changeRole, he, hsplit], hid, hsub.cons_cons r, ?_⟩
        exact List.forall_mem_cons.mpr ⟨he, hothers⟩
  unfold AgentAssignment.setRoute
  cases hroute : a.route route.role with
  | none =>
    refine ⟨a.routes, route, [], rfl, rfl, by simp, fun r hr hrole => ?_⟩
    rw [List.append_nil] at hr
    have := List.find?_eq_none.mp hroute r hr
    simp [hrole] at this
  | some r =>
    refine hchange hroles ⟨r, List.mem_of_find?_eq_some hroute, ?_⟩
    simpa using List.find?_some hroute

theorem rowPorts_eq (a : AgentAssignment) : rowPorts O a =
    (a.routes.map ProxyRoute.proxyId).filterMap fun pid => numberAfter O pid PROXY_ID_PREFIX := by
  rw [List.filterMap_map]
  rfl

/-- A change of an agent's routes that makes none. -/
def Keeps (f : AgentAssignment → Except Answer AgentAssignment) : Prop :=
  ∀ a b, f a = .ok b → b.agentId = a.agentId ∧
    (b.routes.map ProxyRoute.proxyId).Sublist (a.routes.map ProxyRoute.proxyId)

theorem changeRole_keeps (role : Text) {f : ProxyRoute → ProxyRoute}
    (hf : ∀ r, (f r).proxyId = r.proxyId) (rs : List ProxyRoute) :
    ((changeRole role f rs).map ProxyRoute.proxyId).Sublist (rs.map ProxyRoute.proxyId) := by
  induction rs with
  | nil => exact .slnil
  | cons r rs ih =>
    rw [changeRole]
    split
    · rw [List.map_cons, List.map_cons, hf]
    · rw [List.map_cons, List.map_cons]
      exact ih.cons_cons _

theorem ProxyRoute.Written.of_same {r r' : ProxyRoute} (h : r.Written O)
    (hid : r'.proxyId = r.proxyId) : r'.Written O :=
  ⟨by rw [hid]; exact h.trimmed, by rw [hid]; exact h.spelt⟩

theorem AgentAssignment.Written.kept {a b : AgentAssignment} (h : a.Written O)
    (hid : b.agentId = a.agentId)
    (hsub : (b.routes.map ProxyRoute.proxyId).Sublist (a.routes.map ProxyRoute.proxyId)) :
    b.Written O := by
  refine ⟨by rw [hid]; exact h.trimmed, fun r hr => ?_⟩
  obtain ⟨r', hr', hsame⟩ := List.mem_map.mp (hsub.subset (List.mem_map_of_mem hr))
  exact (h.routes r' hr').of_same hsame.symm

/-- A row that is replaced by one of the same agent. -/
theorem RowsWritten.replaced {pre post : List AgentAssignment} {raw row : AgentAssignment}
    (h : RowsWritten O (pre ++ raw :: post)) (hrow : row.Written O)
    (hid : row.agentId = raw.agentId) : RowsWritten O (pre ++ row :: post) where
  written a ha := by
    cases List.mem_append.mp ha with
    | inl ha => exact h.written a (List.mem_append_left _ ha)
    | inr ha =>
      cases List.mem_cons.mp ha with
      | inl he => exact he ▸ hrow
      | inr ha => exact h.written a (List.mem_append_right _ (List.mem_cons_of_mem _ ha))
  agents := by
    have := h.agents
    rw [List.map_append, List.map_cons] at this ⊢
    rwa [hid]

/-- **A setting is written, or a role removed**: nothing new is claimed, provided the rows are
still those that were read. -/
theorem changeRoute_safe {timely : List Store → Store → Store → Prop} {host agent role : Text}
    {f : AgentAssignment → Except Answer AgentAssignment} (hf : Keeps f)
    (h : ∀ x x' copied, timely [copied] x x' →
      (claimed O x'.assignments).Subperm (claimed O x.assignments) ∨ SameRows x copied host) :
    (changeRoute host agent role f).Safe (Clean O) timely [] := by
  refine .read fun copied hcopied => ?_
  split
  · exact trivial
  · next raw hfound =>
    have hrows := hcopied.rows host
    obtain ⟨pre, post, hsplit, -, -, hreplace⟩ := replaceRow_split hrows.agents hfound
    unfold orRefuse
    cases hraw : raw.fromRaw with
    | error e => exact trivial
    | ok a =>
      simp only [Except.mapError, orEnd]
      split
      · exact trivial
      · cases hfa : f a with
        | error e => exact trivial
        | ok b =>
          simp only
          obtain ⟨hid, hsub⟩ := hf a b hfa
          have hwritten := hrows.written raw (hsplit ▸ by simp)
          obtain ⟨hwa, hida, hports⟩ := hwritten.fromRaw hraw
          rw [hreplace]
          rw [hsplit] at hrows
          refine applyAssignments_safe (hrows.replaced (hwa.kept hid hsub) (hid.trans hida)) ?_
          intro x rows' hx hsame htimely
          cases h _ _ _ htimely with
          | inl hfewer => exact hsame ▸ hx.nodup_of_subperm hfewer
          | inr hsamerows =>
            refine hx.nodup_of_sublist ?_
            rw [hsamerows, hsplit, List.flatMap_append, List.flatMap_append, List.flatMap_cons,
              List.flatMap_cons, ← hports, rowPorts_eq b, rowPorts_eq a]
            exact ((hsub.filterMap _).append_right _).append_left _

/-! ### A bind -/

theorem mem_portHolders {pid : Text} (hpid : pid ≠ []) {e : Text × Entry} {a : AgentAssignment}
    {r : ProxyRoute} (he : e ∈ x.assignments) (ha : a ∈ e.2.rows) (hr : r ∈ a.routes)
    (hid : r.proxyId = pid) : (e.1, a.agentId, r.roleOf) ∈ portHolders x pid := by
  unfold portHolders
  refine List.mem_flatMap.mpr ⟨e, he, List.mem_flatMap.mpr ⟨a, ha, List.mem_map.mpr ⟨r, ?_, rfl⟩⟩⟩
  exact List.mem_filter.mpr ⟨hr, by simp [hid, hpid]⟩

theorem pidOf_ne_nil (port : ℕ) : pidOf port ≠ [] := by
  simp [pidOf, PROXY_ID_PREFIX, Text.of]

/-- The rows of a client are those of its object. -/
theorem entry_of_mem_rows {host : Text} {a : AgentAssignment} (h : a ∈ x.rows host) :
    ∃ e, (host, e) ∈ x.assignments ∧ a ∈ e.rows := by
  unfold Store.rows at h
  cases he : Assoc.get x.assignments host with
  | none =>
    rw [he] at h
    exact absurd h List.not_mem_nil
  | some e =>
    rw [he] at h
    exact ⟨e, Assoc.mem_of_get he, h⟩

/-- A port that no other agent holds. -/
theorem portHolder_none {checked : Store} {port : ℕ} {host agent : Text}
    (h : portHolder checked port host agent = none)
    (hsame : portHolders x (pidOf port) = portHolders checked (pidOf port)) {e : Text × Entry}
    {a : AgentAssignment} {r : ProxyRoute} (he : e ∈ x.assignments) (ha : a ∈ e.2.rows)
    (hr : r ∈ a.routes) (hid : r.proxyId = pidOf port) : e.1 = host ∧ a.agentId = agent := by
  have hmem := mem_portHolders (pidOf_ne_nil port) he ha hr hid
  rw [hsame] at hmem
  simpa using List.find?_eq_none.mp h _ hmem

/-- A claim is a route that is spelt as the port is. -/
theorem route_of_claim {a : AgentAssignment} (ha : a.Written O) {p : ℕ}
    (h : (p : ℤ) ∈ rowPorts O a) : ∃ r ∈ a.routes, r.proxyId = pidOf p := by
  obtain ⟨r, hr, hn⟩ := List.mem_filterMap.mp h
  obtain ⟨p', hp, hid⟩ := (ha.routes r hr).spelt _ hn
  obtain rfl : p = p' := by exact_mod_cast hp
  exact ⟨r, hr, hid⟩

/-- The rows that a bind writes over: those that were read, and a new one for an agent that has
none. -/
structure Copied (O : Outside) (read rows : List AgentAssignment) : Prop where
  written : RowsWritten O rows
  ports : rows.flatMap (rowPorts O) = read.flatMap (rowPorts O)
  old : ∀ a ∈ rows, a ∈ read ∨ a.routes = []

/-- **A port that is bound is claimed once**, if its holders are those that were checked and no
other role of the agent is among them. -/
theorem bound_once (hx : Clean O x) {checked : Store} {host agent role : Text} {p : ℕ}
    (hp : numberAfter O (pidOf p) PROXY_ID_PREFIX = some (p : ℤ))
    {rows pre post : List AgentAssignment} {raw a b : AgentAssignment}
    (hcopied : Copied O (x.rows host) rows) (hsplit : rows = pre ++ raw :: post)
    (hothers : ∀ c ∈ pre ++ post, c.agentId ≠ agent) (hagent : raw.agentId = agent)
    (ha : raw.fromRaw = .ok a) {preR postR : List ProxyRoute} {r : ProxyRoute}
    (hb : b.routes = preR ++ r :: postR) (hr : r.proxyId = pidOf p)
    (hsub : (preR ++ postR).Sublist a.routes) (hroles : ∀ r ∈ preR ++ postR, r.role ≠ role)
    (hnone : portHolder checked p host agent = none)
    (hsame : portHolders x (pidOf p) = portHolders checked (pidOf p))
    (hfree : OtherRolesFree x host agent role p) :
    ((pre ++ b :: post).flatMap (rowPorts O) ++
      claimed O (Assoc.del x.assignments host)).Nodup := by
  have hrawMem : raw ∈ rows := hsplit ▸ by simp
  have hrawWritten := hcopied.written.written raw hrawMem
  obtain ⟨hwa, -, hportsA⟩ := hrawWritten.fromRaw ha
  let ports := fun rs : List ProxyRoute =>
    rs.filterMap fun r => numberAfter O r.proxyId PROXY_ID_PREFIX
  -- the port stands between the claims of the others
  have hfull : (pre ++ b :: post).flatMap (rowPorts O) ++
      claimed O (Assoc.del x.assignments host) =
        (pre.flatMap (rowPorts O) ++ ports preR) ++ (p : ℤ) ::
          (ports postR ++ (post.flatMap (rowPorts O) ++
            claimed O (Assoc.del x.assignments host))) := by
    have hrow : rowPorts O b = ports preR ++ (p : ℤ) :: ports postR := by
      show ports b.routes = _
      rw [hb]
      simp only [ports, List.filterMap_append, List.filterMap_cons, hr, hp]
    rw [List.flatMap_append, List.flatMap_cons, hrow]
    simp
  rw [hfull, List.nodup_middle, List.nodup_cons]
  constructor
  · intro hmem
    simp only [List.mem_append] at hmem
    -- another agent's row, or a row of another client
    have hrow : ∀ c ∈ pre ++ post, (p : ℤ) ∉ rowPorts O c := fun c hc hclaim => by
      have hcrows : c ∈ rows := by
        rw [hsplit]
        simp only [List.mem_append, List.mem_cons] at hc ⊢
        exact hc.imp_right .inr
      obtain ⟨r', hr', hid⟩ := route_of_claim (hcopied.written.written c hcrows) hclaim
      cases hcopied.old c hcrows with
      | inl hread =>
        obtain ⟨e, he, hce⟩ := entry_of_mem_rows hread
        exact hothers c hc (portHolder_none hnone hsame he hce hr' hid).2
      | inr hempty => exact absurd (hempty ▸ hr') List.not_mem_nil
    -- another role of the agent
    have hown : ∀ r' ∈ preR ++ postR, numberAfter O r'.proxyId PROXY_ID_PREFIX ≠ some (p : ℤ) := by
      intro r' hr' hn
      have hmemA := hsub.subset hr'
      obtain ⟨p', hp', hid⟩ := (hwa.routes r' hmemA).spelt _ hn
      obtain rfl : p = p' := by exact_mod_cast hp'
      obtain ⟨rfl, -⟩ := rowFromRaw_ok ha
      obtain ⟨r₀, hr₀, rfl⟩ := List.mem_map.mp hmemA
      cases hcopied.old raw hrawMem with
      | inl hread =>
        have hid₀ : r₀.proxyId = pidOf p := (hrawWritten.routes r₀ hr₀).init.1 ▸ hid
        exact hroles _ hr' (hfree raw hread hagent r₀ hr₀ hid₀)
      | inr hempty => exact absurd (hempty ▸ hr₀) List.not_mem_nil
    obtain (hmem | hmem) | hmem | hmem | hmem := hmem
    · obtain ⟨c, hc, hclaim⟩ := List.mem_flatMap.mp hmem
      exact hrow c (List.mem_append_left _ hc) hclaim
    · obtain ⟨r', hr', hn⟩ := List.mem_filterMap.mp hmem
      exact hown r' (List.mem_append_left _ hr') hn
    · obtain ⟨r', hr', hn⟩ := List.mem_filterMap.mp hmem
      exact hown r' (List.mem_append_right _ hr') hn
    · obtain ⟨c, hc, hclaim⟩ := List.mem_flatMap.mp hmem
      exact hrow c (List.mem_append_right _ hc) hclaim
    · obtain ⟨e, he, hclaims⟩ := List.mem_flatMap.mp hmem
      obtain ⟨c, hc, hclaim⟩ := List.mem_flatMap.mp hclaims
      have hold := List.mem_of_mem_filter he
      obtain ⟨r', hr', hid⟩ := route_of_claim ((hx.written e hold).written c hc) hclaim
      have hhost := (portHolder_none hnone hsame hold hc hr' hid).1
      simpa [hhost] using (List.mem_filter.mp he).2
  · -- what is left was claimed before
    refine ((claimed_perm hx.distinct host).nodup_iff.mp hx.once).sublist ?_
    rw [← hcopied.ports, hsplit, List.flatMap_append, List.flatMap_cons, ← hportsA]
    have hports : (ports preR ++ ports postR).Sublist (rowPorts O a) := by
      rw [← List.filterMap_append]
      exact hsub.filterMap _
    have hassoc : pre.flatMap (rowPorts O) ++ ports preR ++ (ports postR ++
        (post.flatMap (rowPorts O) ++ claimed O (Assoc.del x.assignments host))) =
        (pre.flatMap (rowPorts O) ++ ((ports preR ++ ports postR) ++ post.flatMap (rowPorts O))) ++
          claimed O (Assoc.del x.assignments host) := by simp
    rw [hassoc]
    exact (((hports.append_right _).append_left _).append_right _)

theorem numberAfter_pidOf (hO : O.interp.Ascii) (p : Fin 65536) :
    numberAfter O (pidOf p) PROXY_ID_PREFIX = some (p.val : ℤ) := by
  have hshort : p.val < 10 ^ MAX_STR_DIGITS :=
    p.isLt.trans (lt_of_lt_of_le (by decide) (Nat.pow_le_pow_right (by decide)
      (show 5 ≤ MAX_STR_DIGITS by decide)))
  unfold numberAfter pidOf
  rw [if_pos (List.prefix_append _ _), List.drop_left, intOfText_decimal hO hshort]
  rfl

theorem strip_pidOf (p : ℕ) : (pidOf p).strip = pidOf p := by
  obtain ⟨l, hne, hdec, -⟩ := decimal_written p
  unfold pidOf Text.strip
  have hflush : Text.Flush (PROXY_ID_PREFIX ++ decimal p) := by
    intro c hc
    have hhead : (PROXY_ID_PREFIX ++ decimal p).head? = some (codePoint 's') := rfl
    obtain rfl := Option.some.inj (hhead.symm.trans hc)
    decide
  rw [hflush.lstrip, Text.rstrip, List.rdropWhile_eq_self_iff]
  intro hnil
  have hlast : (PROXY_ID_PREFIX ++ decimal p).getLast hnil = (written l).getLast (by
      simpa [written] using hne) := by
    simp only [hdec]
    exact List.getLast_append_of_ne_nil _ _
  rw [hlast]
  obtain ⟨d, -, hd⟩ := List.mem_map.mp (List.getLast_mem (l := written l) (by
    simpa [written] using hne))
  rw [← hd, digit_not_space]
  exact Bool.false_ne_true

theorem forPort_proxyId (role : Text) (p : ℕ) (serverIp : Text) :
    (ProxyRoute.forPort role p serverIp).proxyId = pidOf p := strip_pidOf p

theorem forPort_written (hO : O.interp.Ascii) (role : Text) (p : Fin 65536) (serverIp : Text) :
    (ProxyRoute.forPort role p serverIp).Written O where
  trimmed := by rw [forPort_proxyId, strip_pidOf]
  spelt n hn := by
    rw [forPort_proxyId, numberAfter_pidOf hO] at hn
    exact ⟨p, (Option.some.inj hn).symm, forPort_proxyId _ _ _⟩

theorem forPort_role {role : Text} (h : role ∈ roles) (p : ℕ) (serverIp : Text) :
    (ProxyRoute.forPort role p serverIp).role = role := by
  unfold ProxyRoute.forPort ProxyRoute.init
  simp only
  simp only [roles, List.mem_cons, List.not_mem_nil, or_false] at h
  obtain rfl | rfl := h <;> decide

/-- The rows that are copied, and the row of the agent among them. -/
theorem copied_rows {read : List AgentAssignment} (hread : RowsWritten O read) {agent : Text}
    (hagent : agent.strip = agent) :
    let found := read.find? fun a => a.agentId = agent
    let rows := if found.isSome then read else read ++ [⟨agent, []⟩]
    Copied O read rows ∧
      rows.find? (fun a => a.agentId = agent) = some (found.getD ⟨agent, []⟩) := by
  intro found rows
  cases hfound : read.find? fun a => a.agentId = agent with
  | some raw =>
    have hrows : rows = read := by
      unfold rows found
      rw [hfound]
      rfl
    rw [hrows]
    refine ⟨⟨hread, rfl, fun a ha => .inl ha⟩, ?_⟩
    unfold found
    rw [hfound]
    rfl
  | none =>
    have hrows : rows = read ++ [⟨agent, []⟩] := by
      unfold rows found
      rw [hfound]
      rfl
    have hno : ∀ a ∈ read, a.agentId ≠ agent := fun a ha => by
      simpa using List.find?_eq_none.mp hfound a ha
    rw [hrows]
    refine ⟨⟨⟨?_, ?_⟩, ?_, ?_⟩, ?_⟩
    · intro a ha
      cases List.mem_append.mp ha with
      | inl ha => exact hread.written a ha
      | inr ha =>
        obtain rfl := List.mem_singleton.mp ha
        exact ⟨hagent, fun _ hr => absurd hr List.not_mem_nil⟩
    · rw [List.map_append, List.map_singleton, List.nodup_append]
      refine ⟨hread.agents, List.nodup_singleton _, fun b hb c hc => ?_⟩
      obtain rfl := List.mem_singleton.mp hc
      obtain ⟨a, ha, rfl⟩ := List.mem_map.mp hb
      exact hno a ha
    · simp [rowPorts]
    · intro a ha
      cases List.mem_append.mp ha with
      | inl ha => exact .inl ha
      | inr ha =>
        obtain rfl := List.mem_singleton.mp ha
        exact .inr rfl
    · unfold found
      rw [List.find?_append, hfound]
      simp

/-- **A port is bound**: what the bind checked is what it writes upon. -/
theorem bindRows_safe (hO : O.interp.Ascii) {timely : List Store → Store → Store → Prop}
    {host agent role : Text} {port : Value} {known : List (Fin 65536)} {copied first : Store}
    (hcopied : Clean O copied) (hagent : agent.strip = agent)
    (h : ∀ x x' checked, timely [checked, copied, first] x x' →
      (claimed O x'.assignments).Subperm (claimed O x.assignments) ∨
        SameRows x copied host ∧ ∀ p : ℕ, portArg O port = .ok p →
          portHolders x (pidOf p) = portHolders checked (pidOf p) ∧
            OtherRolesFree x host agent (roleOf role) p) :
    (bindRows O host agent role port known (copied.rows host)).Safe (Clean O) timely
      [copied, first] := by
  obtain ⟨hrows, hfound⟩ := copied_rows (hcopied.rows host) hagent
  unfold bindRows
  simp only
  split
  · exact trivial
  · next hrole =>
    rw [not_not] at hrole
    cases harg : portArg O port with
    | error e => exact trivial
    | ok number =>
      simp only [orEnd]
      split
      · exact trivial
      · next p hknown =>
        have hnumber : (p.val : ℤ) = number := by simpa using List.find?_some hknown
        refine .read fun checked hchecked => ?_
        split
        · exact trivial
        · next hnone =>
          generalize hentry : ((copied.rows host).find? fun a => decide (a.agentId = agent)).getD
            ⟨agent, []⟩ = entry at hfound
          generalize (if ((copied.rows host).find? fun a => decide (a.agentId = agent)).isSome then
            copied.rows host else copied.rows host ++ [⟨agent, []⟩]) = rows at hrows hfound
          obtain ⟨pre, post, hsplit, hid, hothers, hreplace⟩ :=
            replaceRow_split hrows.written.agents hfound
          unfold orRefuse
          cases hraw : entry.fromRaw with
          | error e => exact trivial
          | ok a =>
            simp only [Except.mapError, orEnd]
            have hentryWritten := hrows.written.written entry (hsplit ▸ by simp)
            obtain ⟨hwa, hida, -⟩ := hentryWritten.fromRaw hraw
            obtain ⟨preR, r, postR, hroutes, hr, hsub, hroles⟩ := setRoute_split
              (rowFromRaw_ok hraw).2 (ProxyRoute.forPort (roleOf role) p O.serverIp)
            rw [forPort_proxyId] at hr
            rw [forPort_role hrole] at hroles
            have hnew : (a.setRoute (ProxyRoute.forPort (roleOf role) p O.serverIp)).Written O := by
              refine ⟨hwa.trimmed, fun r' hr' => ?_⟩
              rw [hroutes] at hr'
              have hold : ∀ r' ∈ preR ++ postR, r'.Written O := fun r' hr' =>
                hwa.routes r' (hsub.subset hr')
              cases List.mem_append.mp hr' with
              | inl hr' => exact hold r' (List.mem_append_left _ hr')
              | inr hr' =>
                cases List.mem_cons.mp hr' with
                | inl he =>
                  exact (forPort_written hO (roleOf role) p O.serverIp).of_same
                    (by rw [he, hr, forPort_proxyId])
                | inr hr' => exact hold r' (List.mem_append_right _ hr')
            rw [hreplace]
            have hrowsW := hrows.written
            rw [hsplit] at hrowsW
            refine applyAssignments_safe (hrowsW.replaced hnew hida) ?_
            intro x rows' hx hsame htimely
            cases h _ _ _ htimely with
            | inl hfewer => exact hsame ▸ hx.nodup_of_subperm hfewer
            | inr hfresh =>
              obtain ⟨hsamerows, hport⟩ := hfresh
              obtain ⟨hholders, hfree⟩ := hport p.val (hnumber ▸ harg)
              exact bound_once hx (numberAfter_pidOf hO p) (hsamerows ▸ hrows) hsplit hothers hid
                hraw hroutes hr hsub hroles hnone hholders hfree

/-! ### Clients and agents -/

section

variable {timely : List Store → Store → Store → Prop} {seen : List Store}

theorem popRows_safe (id : Text) (answer : Answer) :
    (Requests.Proc.update (popRows id) (.done answer)).Safe (Clean O) timely seen :=
  fun _ hx => ⟨fun _ => hx.del id, trivial⟩

theorem delClient_safe {id : Text} {k : Proc} (h : ∀ seen, k.Safe (Clean O) timely seen) :
    (delClient id k).Safe (Clean O) timely seen := by
  refine fun x hx => ⟨fun _ => hx.clients _, ?_⟩
  simp only
  split
  · exact h _
  · exact trivial

theorem topologyClientCreate_safe (host name ip : Text) :
    (topologyClientCreate O host name ip).Safe (Clean O) timely seen := by
  unfold topologyClientCreate orRefuse
  cases validateId O host with
  | error e => exact trivial
  | ok id =>
    refine .read fun x _ => ?_
    split
    · exact trivial
    · split
      · exact trivial
      · exact fun x hx => ⟨fun _ => hx.clients _, trivial⟩

theorem topologyClientDelete_safe (id : Text) :
    (topologyClientDelete id).Safe (Clean O) timely seen := by
  unfold topologyClientDelete
  split
  · exact trivial
  · refine .read fun x _ => ?_
    split
    · exact delClient_safe fun seen => popRows_safe _ _
    · exact trivial

theorem endAgent_safe (id : Text) (freed : List ℤ) (left : List (Text × Text)) :
    (endAgent id freed left).Safe (Clean O) timely seen := by
  refine .read fun x _ => ?_
  split
  · exact delClient_safe fun seen => popRows_safe _ _
  · exact trivial

end

theorem Clean.setAgents (h : Clean O x) (id : Text) (agents : List (Text × Text)) :
    Clean O (setAgents id agents x) := by
  unfold Fleet.setAgents
  split
  · exact h.clients _
  · exact h

theorem RowsWritten.filter {rows : List AgentAssignment} (h : RowsWritten O rows)
    (p : AgentAssignment → Bool) : RowsWritten O (rows.filter p) :=
  ⟨fun a ha => h.written a (List.mem_of_mem_filter ha),
    h.agents.sublist (List.filter_sublist.map AgentAssignment.agentId)⟩

/-- **An agent's rows are removed**: nothing new is claimed, provided the rows are still those
that were read. -/
theorem topologyClientAgentDelete_safe {timely : List Store → Store → Store → Prop}
    (id agent : Text) (h : ∀ x x' copied others, timely (copied :: others) x x' →
      (claimed O x'.assignments).Subperm (claimed O x.assignments) ∨ SameRows x copied id.strip) :
    (topologyClientAgentDelete O id agent).Safe (Clean O) timely [] := by
  unfold topologyClientAgentDelete
  simp only
  split
  · exact trivial
  · split
    · exact trivial
    · refine .read fun first _ => ?_
      split
      · exact trivial
      · refine fun x hx => ⟨fun _ => hx.setAgents _ _, ?_⟩
        split
        · exact trivial
        · refine .read fun claims _ => .read fun copied hcopied => ?_
          refine fun x hx => ⟨fun htimely => ?_, endAgent_safe _ _ _⟩
          unfold setRows at htimely ⊢
          split
          · next e e' he he' =>
            split
            · next hsame =>
              simp only [he, he', if_pos hsame] at htimely
              have hrows := (hcopied.rows id.strip).filter fun a => a.agentId ≠ agent.strip
              refine hx.set hrows ?_
              cases h _ _ _ _ htimely with
              | inl hfewer => exact hx.nodup_of_subperm hfewer
              | inr hrowsSame =>
                refine hx.nodup_of_sublist ?_
                rw [hrowsSame]
                exact List.filter_sublist.flatMap _
            · exact hx
          · exact hx

/-! ### The runs -/

/-- Each request keeps the document clean where it finds what it relies on. -/
theorem proc_safe (hO : O.interp.Ascii) (q : Request) :
    (q.proc O).Safe (Clean O) (OnTime O q) [] := by
  cases q with
  | bind host agent role port known =>
    show (bindAgentToProxy O host agent role port known).Safe _ _ _
    unfold bindAgentToProxy
    split
    · exact trivial
    · refine .read fun first _ => ?_
      split
      · exact trivial
      · split
        · exact trivial
        · refine .read fun copied hcopied => ?_
          exact bindRows_safe hO hcopied (Text.strip_strip _) fun x x' checked h => h
  | context host agent role length auto =>
    show (setAgentRouteContext O host agent role length auto).Safe _ _ _
    unfold setAgentRouteContext
    split
    · exact trivial
    · split
      · exact trivial
      · refine changeRoute_safe (fun a b hb => ?_) fun x x' copied h => h
        obtain ⟨n, -, hb⟩ := Except.bind_eq_ok hb
        cases hb
        refine ⟨rfl, changeRole_keeps _ ?_ a.routes⟩
        exact fun _ => rfl
  | model host agent role name auto =>
    show (setAgentRouteModel host agent role name auto).Safe _ _ _
    unfold setAgentRouteModel
    split
    · exact trivial
    · refine changeRoute_safe (fun a b hb => ?_) fun x x' copied h => h
      cases hb
      refine ⟨rfl, changeRole_keeps _ ?_ a.routes⟩
      exact fun _ => rfl
  | remove host agent role =>
    show (removeAgentRoute host agent role).Safe _ _ _
    unfold removeAgentRoute
    split
    · exact trivial
    · refine changeRoute_safe (fun a b hb => ?_) fun x x' copied h => h
      cases hb
      exact ⟨rfl, List.filter_sublist.map _⟩
  | create host name ip => exact topologyClientCreate_safe host name ip
  | delete id => exact topologyClientDelete_safe id
  | deleteAgent id agent => exact topologyClientAgentDelete_safe id agent fun x x' copied _ h => h

end Fleet
