import Caravan.Fleet.HostReport

/-!
# The pull and the beat

A scout's state reaches the controller in two ways: as its heartbeat, which is the state itself,
and as the answer of `/api/state`, which `scout_payload_from_state` copies field by field. The
record is made of either by the same function, so the two records differ where the copy does: it
leaves `gpuError` out, and it says an empty `llamaNode` of a state that says none
(`pull_is_beat`). All the other fields are copied in a way that the reading undoes, each by its
own lemma.
-/

namespace HostReport

open Python

variable (T : Tables)

/-- The record of a pull. -/
def pull (now : ℤ) (state : Dict) (agentUrl : Text) : Read Dict :=
  hostFromReport T now (scoutPayloadFromState now state agentUrl)

/-- The record of a heartbeat. -/
def beat (now : ℤ) (state : Dict) (agentUrl : Text) : Read Dict :=
  hostFromReport T now (state.set "agentUrl" (.str agentUrl))

/-- A record without its two times. -/
def untimed (record : Dict) : Dict :=
  record.filter fun p => p.1 ≠ "firstSeen" ∧ p.1 ≠ "lastSeen"

/-- Two reports make one record, or none is made of either. -/
def Alike : Read Dict → Read Dict → Prop
  | .ok record, .ok record' => untimed record = untimed record'
  | .error _, .error _ => True
  | _, _ => False

/-- **The pull and the beat make one host record**, whenever either comes. -/
def OneRecord (state : Dict) (agentUrl : Text) : Prop :=
  ∀ now now', Alike (pull T now state agentUrl) (beat T now' state agentUrl)

/-- The state says of no card why it was not named. -/
def Quiet (state : Dict) : Prop := text T (state.get "gpuError") 200 = .ok []

/-- The state has a `llamaNode`, or the first of its nodes says what an empty one does. -/
def NodeSaid (state : Dict) : Prop :=
  (state.get "llamaNode").truthy = true ∨ (state.get "llamaNode").isDict = true ∨
    ∃ first, (dictsOf (state.get "llamaNodes")).head? = some first ∧ sanNode T first = sanNode T []

variable {T} {state : Dict} {agentUrl : Text} {v : Value}

/-! ### What the copy does to a field, the reading undoes -/

theorem or_or (v w : Value) : (v.or w).or w = v.or w := by
  unfold Value.or
  split
  · rfl
  · exact ite_self w

theorem text_or (v : Value) (limit : ℕ) : text T (v.or (.str [])) limit = text T v limit := by
  unfold text
  rw [or_or]

theorem textOf_or (v : Value) (limit : ℕ) : textOf T (v.or (.str [])) limit = textOf T v limit := by
  unfold textOf
  rw [text_or]

theorem asDict_or (v : Value) : (v.or (.dict [])).asDict = v.asDict := by
  cases v with
  | dict d => cases d <;> rfl
  | _ =>
    unfold Value.or
    split <;> rfl

theorem asList_or (v : Value) : (v.or (.list [])).asList = v.asList := by
  cases v with
  | list l => cases l <;> rfl
  | _ =>
    unfold Value.or
    split <;> rfl

theorem dictsOf_or (v : Value) : dictsOf (v.or (.list [])) = dictsOf v := by
  unfold dictsOf
  rw [asList_or]

theorem gpus_or (v : Value) :
    normalizeClientGpus T (v.or (.list [])) = normalizeClientGpus T v := by
  cases v with
  | list l => cases l <;> rfl
  | _ =>
    unfold Value.or
    split <;> rfl

theorem computeApps_or (v : Value) : computeApps T (v.or (.list [])) = computeApps T v := by
  unfold computeApps
  rw [or_or]

theorem autostart_listOrNone (v : Value) : autostart T (listOrNone v) = autostart T v := by
  cases v <;> rfl

theorem machineModels_listOrNone (v : Value) :
    machineModels T (listOrNone v) = machineModels T v := by
  cases v <;> rfl

theorem suspect_dictOrNone (v : Value) : suspect T (dictOrNone v) = suspect T v := by
  cases v <;> rfl

theorem modelCache_dictOrNone (v : Value) : modelCache T (dictOrNone v) = modelCache T v := by
  cases v <;> rfl

theorem telemetry_dictOrNone (v : Value) : telemetry (dictOrNone v) = telemetry v := by
  cases v <;> rfl

/-! ### The nodes -/

/-- A cell of which nothing is said. -/
def stub : Dict :=
  [("running", .bool false), ("port", .null), ("modelPath", .str []), ("mmprojPath", .str []),
    ("specPath", .str []), ("specType", .str []), ("uptimeSec", .null), ("pid", .null),
    ("pids", .list []), ("ramBytes", .null), ("lastError", .str []), ("phase", .str []),
    ("downloadedBytes", .int 0), ("totalBytes", .int 0), ("downloadingFile", .str []),
    ("promptTps", .null), ("genTps", .null), ("requestsProcessing", .null),
    ("requestsWaiting", .null), ("ctxMax", .null), ("ctxUsed", .null), ("modalities", .null),
    ("firewall", .null), ("crash", .null), ("listening", .null), ("startingTail", .str []),
    ("launchDiskNewer", .null)]

theorem sanNode_nil : sanNode T [] = .ok stub := rfl

/-- A `llamaNode` that is said: the pull passes it on. -/
theorem nodesOf_said (h : v.truthy = true ∨ v.isDict = true) (many : Value) :
    nodesOf T (v.or (.dict [])) many = nodesOf T v many := by
  have hor : v.or (.dict []) = v := by
    unfold Value.or
    cases ht : v.truthy with
    | true => rfl
    | false =>
      -- the empty dictionary is the one that is no more than nothing
      cases v with
      | dict d =>
        cases d with
        | nil => rfl
        | cons p d => exact nomatch ht
      | _ => exact nomatch h.resolve_left (by rw [ht]; exact Bool.false_ne_true)
  rw [hor]

/-- A `llamaNode` that is not said: the pull says an empty one, the beat takes the first node. -/
theorem nodesOf_unsaid (h : v.truthy = false) (hdict : v.isDict = false) {many : Value}
    {nodes : List Dict} (hnodes : (dictsOf many).mapM (sanNode T) = .ok nodes) :
    nodesOf T (v.or (.dict [])) many = .ok (stub, if nodes = [] then [stub] else nodes) ∧
      nodesOf T v many = .ok (nodes.headD [], nodes) := by
  have hor : v.or (.dict []) = .dict [] := by
    unfold Value.or
    rw [h]
    rfl
  have hsaid : sanNodeOf T v = .ok [] := by
    cases v with
    | dict d => exact nomatch hdict
    | _ => rfl
  unfold nodesOf
  rw [hor, hsaid, hnodes]
  constructor
  · cases nodes <;> rfl
  · cases nodes with
    | nil => rfl
    | cons n nodes =>
      show Except.ok (n, if n :: nodes = [] ∧ n ≠ [] then [n] else n :: nodes) = _
      rw [if_neg fun hn => List.cons_ne_nil _ _ hn.1]
      rfl

theorem nodesOf_error {many : Value} {e : Fault} (one : Value)
    (h : (dictsOf many).mapM (sanNode T) = .error e) : nodesOf T one many = .error e := by
  unfold nodesOf
  rw [h]
  rfl

/-! ### Two readings, step by step -/

/-- Two readings make one record exactly if the first makes none, or where `Q` holds. -/
def AlikeIf (x y : Read Dict) (Q : Prop) : Prop := Alike x y ↔ (∀ r, x ≠ .ok r) ∨ Q

theorem AlikeIf.bind {α : Type} (x : Read α) {f g : α → Read Dict} {Q : Prop}
    (h : ∀ a, x = .ok a → AlikeIf (f a) (g a) Q) : AlikeIf (x >>= f) (x >>= g) Q := by
  cases x with
  | error e => exact iff_of_true trivial (.inl fun _ hr => nomatch hr)
  | ok a => exact h a rfl

theorem AlikeIf.step {α : Type} {a b : α} {f g : α → Read Dict} {Q : Prop}
    (h : AlikeIf (f a) (g b) Q) : AlikeIf (.ok a >>= f) (.ok b >>= g) Q := h

/-- Where the second reading ends and the first need not. -/
theorem AlikeIf.raised {x : Read Dict} {Q : Prop} (hQ : ¬ Q) (e : Fault) :
    AlikeIf x (.error e) Q := by
  cases x with
  | error e' => exact iff_of_true trivial (.inl fun _ hr => nomatch hr)
  | ok r => exact iff_of_false id fun h => h.elim (fun hr => hr r rfl) hQ

theorem AlikeIf.made {r r' : Dict} {Q : Prop} (h : untimed r = untimed r' ↔ Q) :
    AlikeIf (.ok r) (.ok r') Q :=
  h.trans (or_iff_right fun hr => hr r rfl).symm

/-! ### The two payloads -/

variable (T) in
/-- Two payloads of which every field is read alike, but for `gpuError` and `llamaNode`. -/
structure ReadAlike (p b : Dict) : Prop where
  host : (p.get "host").asDict = (b.get "host").asDict
  gpus : normalizeClientGpus T (p.get "gpus") = normalizeClientGpus T (b.get "gpus")
  computeApps : computeApps T (p.get "computeApps") = computeApps T (b.get "computeApps")
  platform : textOf T (p.get "platform") 40 = textOf T (b.get "platform") 40
  llamaNodes : dictsOf (p.get "llamaNodes") = dictsOf (b.get "llamaNodes")
  agentUrl : p.get "agentUrl" = b.get "agentUrl"
  engines : p.get "engines" = b.get "engines"
  cpu : (p.get "cpu").asDict = (b.get "cpu").asDict
  driver : p.get "driver" = b.get "driver"
  llamaBinaryVersion : textOf T (p.get "llamaBinaryVersion") 120 =
    textOf T (b.get "llamaBinaryVersion") 120
  prismRuntime : (p.get "prismRuntime").asDict = (b.get "prismRuntime").asDict
  llamaBinaryMtime : textOf T (p.get "llamaBinaryMtime") 30 =
    textOf T (b.get "llamaBinaryMtime") 30
  llamaUpdate : (p.get "llamaUpdate").asDict = (b.get "llamaUpdate").asDict
  scoutVersion : textOf T (p.get "scoutVersion") 40 = textOf T (b.get "scoutVersion") 40
  autostart : autostart T (p.get "autostart") = autostart T (b.get "autostart")
  llamaSuspect : suspect T (p.get "llamaSuspect") = suspect T (b.get "llamaSuspect")
  telemetry : telemetry (p.get "telemetry") = telemetry (b.get "telemetry")
  entryModels : machineModels T (p.get "entryModels") = machineModels T (b.get "entryModels")
  modelCache : modelCache T (p.get "modelCache") = modelCache T (b.get "modelCache")

/-- A field of the beat is the state's. -/
theorem beat_get (state : Dict) (agentUrl : Text) {k : Text} (hk : k ≠ Text.of "agentUrl") :
    Dict.get (state.set "agentUrl" (.str agentUrl)) k = state.get k := by
  rw [Dict.get_set, if_neg hk]

theorem readAlike (now : ℤ) (state : Dict) (agentUrl : Text) :
    ReadAlike T (scoutPayloadFromState now state agentUrl)
      (state.set "agentUrl" (.str agentUrl)) := by
  have hread : ∀ {α : Type} (f : Value → α) {w : Value} (k : Text), k ≠ Text.of "agentUrl" →
      f w = f (state.get k) → f w = f (Dict.get (state.set "agentUrl" (.str agentUrl)) k) := by
    intro α f w k hk h
    rw [beat_get state agentUrl hk]
    exact h
  have hurl : Dict.get (state.set "agentUrl" (.str agentUrl)) "agentUrl" = .str agentUrl := by
    rw [Dict.get_set, if_pos rfl]
  exact
    { host := hread Value.asDict "host" (by decide) (asDict_or _)
      gpus := hread (normalizeClientGpus T) "gpus" (by decide) (gpus_or _)
      computeApps := hread (HostReport.computeApps T) "computeApps" (by decide) (computeApps_or _)
      platform := hread (textOf T · 40) "platform" (by decide) (textOf_or _ _)
      llamaNodes := hread dictsOf "llamaNodes" (by decide) (dictsOf_or _)
      agentUrl := hurl.symm
      engines := hread id "engines" (by decide) rfl
      cpu := hread Value.asDict "cpu" (by decide) (asDict_or _)
      driver := hread id "driver" (by decide) rfl
      llamaBinaryVersion := hread (textOf T · 120) "llamaBinaryVersion" (by decide) (textOf_or _ _)
      prismRuntime := hread Value.asDict "prismRuntime" (by decide) rfl
      llamaBinaryMtime := hread (textOf T · 30) "llamaBinaryMtime" (by decide) (textOf_or _ _)
      llamaUpdate := hread Value.asDict "llamaUpdate" (by decide) rfl
      scoutVersion := hread (textOf T · 40) "scoutVersion" (by decide) (textOf_or _ _)
      autostart := hread (HostReport.autostart T) "autostart" (by decide) (autostart_listOrNone _)
      llamaSuspect := hread (suspect T) "llamaSuspect" (by decide) (suspect_dictOrNone _)
      telemetry := hread HostReport.telemetry "telemetry" (by decide) (telemetry_dictOrNone _)
      entryModels := hread (machineModels T) "entryModels" (by decide) (machineModels_listOrNone _)
      modelCache := hread (HostReport.modelCache T) "modelCache" (by decide)
        (modelCache_dictOrNone _) }

/-- Where the nodes of the first payload are read as `(node, nodes)`, and those of the second as
`(node', nodes')`, the records are one exactly if these are, and the second names no `gpuError`. -/
theorem alikeIf_of_nodes {p b : Dict} (h : ReadAlike T p b) (now now' : ℤ)
    (hgpu : p.get "gpuError" = .null) {node node' : Dict} {nodes nodes' : List Dict}
    (hp : nodesOf T (p.get "llamaNode") (p.get "llamaNodes") = .ok (node, nodes))
    (hb : nodesOf T (b.get "llamaNode") (b.get "llamaNodes") = .ok (node', nodes')) :
    AlikeIf (hostFromReport T now p) (hostFromReport T now' b)
      (text T (b.get "gpuError") 200 = .ok [] ∧ node = node' ∧ nodes = nodes') := by
  unfold hostFromReport
  rw [hp, hb, hgpu, h.host, h.gpus, h.computeApps, h.platform, h.agentUrl, h.engines, h.cpu,
    h.driver, h.llamaBinaryVersion, h.prismRuntime, h.llamaBinaryMtime, h.llamaUpdate,
    h.scoutVersion, h.autostart, h.llamaSuspect, h.telemetry, h.entryModels, h.modelCache]
  refine .bind _ fun id _ => ?_
  refine .bind _ fun gpus _ => ?_
  refine .bind _ fun apps _ => ?_
  refine .bind _ fun platform _ => ?_
  refine .step ?_
  dsimp only
  refine .bind _ fun name _ => ?_
  refine .bind _ fun hostname _ => ?_
  refine .bind _ fun ip _ => ?_
  refine .bind _ fun agentUrl _ => ?_
  -- what the first says of `gpuError`, and the second
  have hnone : textOf T .null 200 = .ok (.str []) := rfl
  rw [hnone]
  cases hsaid : text T (b.get "gpuError") 200 with
  | error e =>
    have herror : textOf T (b.get "gpuError") 200 = .error e := by rw [textOf, hsaid]; rfl
    rw [herror]
    exact .raised (fun hq => nomatch hq.1) e
  | ok t =>
    have hok : textOf T (b.get "gpuError") 200 = .ok (.str t) := by rw [textOf, hsaid]; rfl
    rw [hok]
    refine .step ?_
    refine .bind _ fun found _ => ?_
    refine .bind _ fun version _ => ?_
    refine .bind _ fun mtime _ => ?_
    refine .bind _ fun scoutVersion _ => ?_
    refine .bind _ fun ports _ => ?_
    refine .bind _ fun llamaSuspect _ => ?_
    refine .bind _ fun entryModels _ => ?_
    refine .bind _ fun cache _ => ?_
    refine .made ⟨fun heq => ?_, ?_⟩
    · have hgpuError : some (Value.str []) = some (.str t) :=
        congrArg (List.lookup (Text.of "gpuError")) heq
      have hnode : some (Value.dict node) = some (.dict node') :=
        congrArg (List.lookup (Text.of "llamaNode")) heq
      have hnodes : some (Value.list (nodes.map .dict)) = some (.list (nodes'.map .dict)) :=
        congrArg (List.lookup (Text.of "llamaNodes")) heq
      have hinj : Function.Injective Value.dict := fun _ _ => Value.dict.inj
      exact ⟨congrArg Except.ok (Value.str.inj (Option.some.inj hgpuError)).symm,
        hinj (Option.some.inj hnode),
        hinj.list_map (Value.list.inj (Option.some.inj hnodes))⟩
    · rintro ⟨ht, rfl, rfl⟩
      obtain rfl := Except.ok.inj ht
      rfl

/-- Where the nodes cannot be read, no record is made of either. -/
theorem alikeIf_of_error {p b : Dict} (h : ReadAlike T p b) (now now' : ℤ) {e : Fault} {Q : Prop}
    (hp : nodesOf T (p.get "llamaNode") (p.get "llamaNodes") = .error e)
    (hb : nodesOf T (b.get "llamaNode") (b.get "llamaNodes") = .error e) :
    AlikeIf (hostFromReport T now p) (hostFromReport T now' b) Q := by
  unfold hostFromReport
  rw [hp, hb, h.host, h.gpus, h.computeApps, h.platform]
  refine .bind _ fun id _ => ?_
  refine .bind _ fun gpus _ => ?_
  refine .bind _ fun apps _ => ?_
  refine .bind _ fun platform _ => ?_
  exact .bind _ fun _ he => nomatch he

/-- The first node says what an empty one does. -/
theorem first_stub {many : Value} {nodes : List Dict}
    (h : (dictsOf many).mapM (sanNode T) = .ok nodes) :
    (stub = nodes.headD [] ∧ (if nodes = [] then [stub] else nodes) = nodes) ↔
      ∃ first, (dictsOf many).head? = some first ∧ sanNode T first = sanNode T [] := by
  cases hd : dictsOf many with
  | nil =>
    rw [hd, List.mapM_nil] at h
    obtain rfl := Except.ok.inj h
    exact iff_of_false (fun hs => nomatch hs.2) fun ⟨_, hf, _⟩ => nomatch hf
  | cons d ds =>
    rw [hd, List.mapM_cons] at h
    obtain ⟨n, hn, h⟩ := Except.bind_eq_ok h
    obtain ⟨ns, -, h⟩ := Except.bind_eq_ok h
    obtain rfl := Except.ok.inj h
    constructor
    · rintro ⟨hs, -⟩
      exact ⟨d, rfl, by rw [hn, sanNode_nil, hs]; rfl⟩
    · rintro ⟨first, hf, hs⟩
      obtain rfl := Option.some.inj hf
      have hstub : n = stub := Except.ok.inj (hn.symm.trans (hs.trans sanNode_nil))
      exact ⟨hstub.symm, if_neg (List.cons_ne_nil _ _)⟩

/-- **The two records** are one exactly where the state says nothing that the copy leaves out, or
no record is made of it. -/
theorem alikeIf (now now' : ℤ) (state : Dict) (agentUrl : Text) :
    AlikeIf (pull T now state agentUrl) (beat T now' state agentUrl)
      (Quiet T state ∧ NodeSaid T state) := by
  have h : ReadAlike T _ _ := readAlike now state agentUrl
  have hquiet : text T (Dict.get (state.set "agentUrl" (.str agentUrl)) "gpuError") 200 =
      text T (state.get "gpuError") 200 := by rw [beat_get _ _ (by decide)]
  have hnode : Dict.get (state.set "agentUrl" (.str agentUrl)) "llamaNode" =
      state.get "llamaNode" := beat_get _ _ (by decide)
  have hnodes : Dict.get (state.set "agentUrl" (.str agentUrl)) "llamaNodes" =
      state.get "llamaNodes" := beat_get _ _ (by decide)
  have hpullNode : nodesOf T (Dict.get (scoutPayloadFromState now state agentUrl) "llamaNode")
      (Dict.get (scoutPayloadFromState now state agentUrl) "llamaNodes") =
        nodesOf T ((state.get "llamaNode").or (.dict [])) (state.get "llamaNodes") := by
    have hmany : dictsOf (Dict.get (scoutPayloadFromState now state agentUrl) "llamaNodes") =
        dictsOf (state.get "llamaNodes") := dictsOf_or _
    unfold nodesOf
    rw [hmany]
    rfl
  cases hmany : (dictsOf (state.get "llamaNodes")).mapM (sanNode T) with
  | error e =>
    exact alikeIf_of_error h now now' (hpullNode.trans (nodesOf_error _ hmany))
      (by rw [hnodes]; exact nodesOf_error _ hmany)
  | ok nodes =>
    by_cases hsaid : (state.get "llamaNode").truthy = true ∨ (state.get "llamaNode").isDict = true
    · -- the pull passes the node on
      have hor := nodesOf_said (T := T) hsaid (state.get "llamaNodes")
      cases hn : nodesOf T (state.get "llamaNode") (state.get "llamaNodes") with
      | error e =>
        exact alikeIf_of_error h now now' (by rw [hpullNode, hor, hn])
          (by rw [hnode, hnodes, hn])
      | ok r =>
        have halike := alikeIf_of_nodes h now now' rfl (by rw [hpullNode, hor, hn])
          (by rw [hnode, hnodes, hn])
        have hnodeSaid : NodeSaid T state := or_assoc.mp (.inl hsaid)
        rw [hquiet, and_iff_left rfl, and_iff_left rfl] at halike
        rwa [AlikeIf, Quiet, and_iff_left hnodeSaid]
    · rw [not_or, Bool.not_eq_true, Bool.not_eq_true] at hsaid
      obtain ⟨hp, hb⟩ := nodesOf_unsaid hsaid.1 hsaid.2 hmany
      have halike := alikeIf_of_nodes h now now' rfl (hpullNode.trans hp)
        (by rw [hnode, hnodes, hb])
      have hnodeSaid : NodeSaid T state ↔ ∃ first,
          (dictsOf (state.get "llamaNodes")).head? = some first ∧
            sanNode T first = sanNode T [] := by
        unfold NodeSaid
        rw [hsaid.1, hsaid.2]
        simp
      rw [hquiet, first_stub hmany, ← hnodeSaid] at halike
      exact halike

/-! ### The stored record -/

theorem untimed_set (record : Dict) (v : Value) :
    untimed (record.set "firstSeen" v) = untimed record :=
  record.filter_set (P := fun k => decide (k ≠ Text.of "firstSeen" ∧ k ≠ Text.of "lastSeen"))
    (by decide) v

theorem idOf_untimed {record record' : Dict} (h : untimed record = untimed record') :
    idOf record = idOf record' := by
  have hget : ∀ r : Dict, Dict.get (untimed r) "id" = r.get "id" := by
    intro r
    unfold Dict.get untimed
    rw [lookup_filter_key r fun k => decide (k ≠ Text.of "firstSeen" ∧ k ≠ Text.of "lastSeen"),
      if_pos (by decide)]
  unfold idOf
  rw [← hget record, h, hget]

variable (T) in
/-- A report of the state: a pull, or a beat. -/
def report (state : Dict) (agentUrl : Text) (isPull : Bool) (now : ℤ) : Read Dict :=
  if isPull then pull T now state agentUrl else beat T now state agentUrl

variable (T) in
/-- What a report makes of the host records. A pull refreshes those that are there. -/
def recordReport (state : Dict) (agentUrl : Text) (isPull : Bool) (now : ℤ) :
    List (Text × Dict) → Read (List (Text × Dict)) :=
  if isPull then recordHostReport T now (scoutPayloadFromState now state agentUrl) true
  else recordHostReport T now (state.set "agentUrl" (.str agentUrl)) false

/-- The host records without their times. -/
def Same (hosts hosts' : List (Text × Dict)) : Prop :=
  ∀ id, (Assoc.get hosts id).map untimed = (Assoc.get hosts' id).map untimed

variable (T) in
/-- **The host record does not change** when the two kinds of report follow each other, in any
order and number, after one that stored it. -/
def Steady (state : Dict) (agentUrl : Text) : Prop :=
  ∀ (first : Bool × ℤ) (later : List (Bool × ℤ)) (hosts hosts₁ hosts₂ : List (Text × Dict)),
    recordReport T state agentUrl first.1 first.2 hosts = .ok hosts₁ →
    (∃ r, report T state agentUrl first.1 first.2 = .ok r ∧ (Assoc.get hosts₁ (idOf r)).isSome) →
    later.foldlM (fun hs e => recordReport T state agentUrl e.1 e.2 hs) hosts₁ = .ok hosts₂ →
    Same hosts₂ hosts₁

theorem Alike.made {x y : Read Dict} (h : Alike x y) {r : Dict} (hx : x = .ok r) :
    ∃ r', y = .ok r' ∧ untimed r = untimed r' := by
  subst hx
  cases y with
  | error => exact h.elim
  | ok r' => exact ⟨r', rfl, h⟩

theorem Alike.symm {x y : Read Dict} (h : Alike x y) : Alike y x := by
  cases x <;> cases y
  · trivial
  · exact h
  · exact h
  · exact Eq.symm h

/-- Any two reports make one record. -/
theorem OneRecord.reports (h : OneRecord T state agentUrl) {k k' : Bool} {now now' : ℤ}
    {r r' : Dict} (hr : report T state agentUrl k now = .ok r)
    (hr' : report T state agentUrl k' now' = .ok r') : untimed r = untimed r' := by
  -- each is that of the beat at one moment
  have hbeat : ∀ {k : Bool} {now : ℤ} {r : Dict}, report T state agentUrl k now = .ok r →
      ∃ r₀, beat T 0 state agentUrl = .ok r₀ ∧ untimed r = untimed r₀ := by
    intro k now r hr
    cases k with
    | true => exact (h now 0).made hr
    | false =>
      obtain ⟨p, hp, heq⟩ := (h 0 now).symm.made hr
      obtain ⟨r₀, hr₀, heq₀⟩ := (h 0 0).made hp
      exact ⟨r₀, hr₀, heq.trans heq₀⟩
  obtain ⟨r₀, h₀, heq⟩ := hbeat hr
  obtain ⟨r₁, h₁, heq'⟩ := hbeat hr'
  rw [heq, heq', Except.ok.inj (h₀.symm.trans h₁)]

/-- What a report leaves of the host records. -/
theorem recordReport_spec {k : Bool} {now : ℤ} {hosts hosts' : List (Text × Dict)}
    (h : recordReport T state agentUrl k now hosts = .ok hosts') :
    ∃ r, report T state agentUrl k now = .ok r ∧
      (Assoc.get hosts (idOf r) = none ∧ hosts' = hosts ∨
        ∃ v, hosts' = Assoc.set hosts (idOf r) (r.set "firstSeen" v)) := by
  have hcases : ∀ {payload : Dict} {onlyKnown : Bool},
      recordHostReport T now payload onlyKnown hosts = .ok hosts' →
      ∃ r, hostFromReport T now payload = .ok r ∧
        (Assoc.get hosts (idOf r) = none ∧ hosts' = hosts ∨
          ∃ v, hosts' = Assoc.set hosts (idOf r) (r.set "firstSeen" v)) := by
    intro payload onlyKnown h
    obtain ⟨r, hr, h⟩ := Except.bind_eq_ok h
    refine ⟨r, hr, ?_⟩
    dsimp only at h
    split at h
    · next hno =>
      rw [Bool.and_eq_true, Option.isNone_iff_eq_none] at hno
      exact .inl ⟨hno.2, (Except.ok.inj h).symm⟩
    · exact .inr ⟨_, (Except.ok.inj h).symm⟩
  cases k with
  | true => exact hcases h
  | false => exact hcases h

theorem OneRecord.steady (h : OneRecord T state agentUrl) : Steady T state agentUrl := by
  rintro ⟨k, now⟩ later hosts hosts₁ hosts₂ hfirst ⟨r, hr, hthere⟩ hrun
  obtain ⟨r₁, hr₁, hstored⟩ := recordReport_spec hfirst
  obtain rfl := Except.ok.inj (hr.symm.trans hr₁)
  -- what is stored of the machine is the record of any report of it
  have hkept : (Assoc.get hosts₁ (idOf r)).map untimed = some (untimed r) := by
    cases hstored with
    | inl hno =>
      rw [hno.2, hno.1] at hthere
      exact nomatch hthere
    | inr hset =>
      obtain ⟨v, rfl⟩ := hset
      rw [Assoc.get_set, if_pos rfl, Option.map_some, untimed_set]
  refine Except.foldlM_inv (P := fun hs => Same hs hosts₁) (fun hs e hs' _ hsame he => ?_)
    (fun _ => rfl) hrun
  obtain ⟨r', hr', hstep⟩ := recordReport_spec he
  have huntimed : untimed r' = untimed r := h.reports hr' hr
  have hid : idOf r' = idOf r := idOf_untimed huntimed
  cases hstep with
  | inl hno => exact hno.2 ▸ hsame
  | inr hset =>
    obtain ⟨v, rfl⟩ := hset
    intro id
    rw [Assoc.get_set]
    split
    · next hhere => rw [Option.map_some, untimed_set, huntimed, hhere, hid, hkept]
    · exact hsame id

/-! ### Where the two make one record -/

/-- **The pull and the beat make one host record** exactly where the state says nothing of the
cards in `gpuError` and has a `llamaNode` (or a first node that says as much as none), or where no
record can be made of it at all. Then the stored record stays, but for its times, whichever of the
two comes. -/
theorem pull_is_beat (T : Tables) (state : Dict) (agentUrl : Text) :
    (OneRecord T state agentUrl ↔ (∀ now r, pull T now state agentUrl ≠ .ok r) ∨
      Quiet T state ∧ NodeSaid T state) ∧
    (OneRecord T state agentUrl → Steady T state agentUrl) := by
  refine ⟨⟨fun h => ?_, fun h now now' => ?_⟩, OneRecord.steady⟩
  · by_cases hq : Quiet T state ∧ NodeSaid T state
    · exact .inr hq
    · exact .inl fun now => ((alikeIf now 0 state agentUrl).mp (h now 0)).resolve_right hq
  · exact (alikeIf now now' state agentUrl).mpr (h.imp (fun hno => hno now) id)

/-! ### A card that is not named -/

/-- Tables that know the digits of ASCII. -/
def tables : Tables where
  interp := Interp.ascii
  casefold t := t
  isdigit c := (Interp.ascii.digit c).isSome
  word _ := false

/-- The state of a machine whose driver does not answer. -/
def unnamed : Dict :=
  [("host", .dict [("id", .str "gpu-box")]), ("llamaNode", .dict []),
    ("gpuError", .str "Driver/library version mismatch")]

/-- **The pull leaves out** why no card was named, which the beat says. -/
theorem gpuError_lost :
    (∃ r r', pull tables 0 unnamed "http://10.0.0.7:8092" = .ok r ∧
      beat tables 0 unnamed "http://10.0.0.7:8092" = .ok r' ∧ r.get "gpuError" = .str [] ∧
      r'.get "gpuError" = .str "Driver/library version mismatch") ∧
    ¬ OneRecord tables unnamed "http://10.0.0.7:8092" := by
  refine ⟨⟨_, _, rfl, rfl, rfl, rfl⟩, fun h => ?_⟩
  have hheard : untimed _ = untimed _ := h 0 0
  have hget := congrArg (fun r => Dict.get r "gpuError") hheard
  exact absurd (Value.str.inj hget) (by decide)

end HostReport
