import Caravan.Python.Fits
import Caravan.Proxy.State
import Caravan.Python.Int

/-!
# What the books can take

A content breaks the bookkeeping in one of three ways: a lone surrogate, a `NaN` or an
infinity in what is kept of it, which the write of the file cannot encode or RFC 8259
does not know; a nesting that the encoder does not follow; and a count of tokens that
`int()` does not take. `Event.Clean` says that a call comes with none of them. In a run of
such calls every call returns and the file is JSON at every step (`run_keeps_books`).
-/

namespace Proxy

open Python

variable (I : Interp) (n : ℕ)

/-- The levels that are left to what the records keep. -/
def spare : ℕ := I.dumpsNesting - 8

theorem dumpsNesting_eq : I.dumpsNesting = spare I + 8 := by
  have := I.room
  unfold spare
  omega

/-! ### Clean contents -/

structure Route.Clean (route : Route) : Prop where
  label : route.label.Encodable
  upstreamHost : route.upstreamHost.Encodable
  upstreamType : route.upstreamType.Encodable
  upstreamModel : route.upstreamModel.Encodable
  providerId : route.providerId.Encodable
  routedOutputId : route.routedOutputId.Encodable
  routedOutputName : route.routedOutputName.Encodable
  cloudAccountId : route.cloudAccountId.Encodable
  pool : ∀ p, route.pool = some p →
    p.1.Encodable ∧ Fits (n + 3) p.2.1 ∧ p.2.2.1.Encodable ∧ Fits (n + 3) p.2.2.2
  deadSkipped : ∀ t ∈ route.deadSkipped, Text.Encodable t

/-- A body of which only what can be written is kept. -/
structure BodyFits (payload : Dict) (seen : Seen) : Prop where
  model : Fits (n + 2) (payload.get "model")
  stream : Fits (n + 2) (payload.get "stream")
  maxTokens : Fits (n + 2) (maxTokensOf payload)
  temperature : Fits (n + 2) (payload.get "temperature")
  topP : Fits (n + 2) (payload.get "top_p")
  roles : ∀ role ∈ seen.roles, Text.Encodable role
  preview : (compactText seen.lastText).Encodable

structure Request.Clean (r : Request) : Prop where
  id : r.id.Encodable
  method : r.method.Encodable
  path : r.path.Encodable
  client : r.client.Encodable
  contentType : r.contentType.Encodable
  body : ∀ payload seen, readsJson r.body r.contentType → r.body.json = .ok (.dict payload) →
    see I (messagesOf payload) = .ok seen → BodyFits n payload seen

/-- What an answer, or a line of one, tells of itself. -/
structure Told (payload : Dict) : Prop where
  model : Fits (n + 2) (payload.get "model")
  usage : DictFits (n + 1) (payload.get "usage").asDict
  timings : DictFits (n + 1) (payload.get "timings").asDict
  reasons : ∀ v ∈ finishReasonsOf (payload.get "choices").asList, Fits (n + 1) v

structure Stream.Clean (s : Stream) : Prop where
  finishReasons : ∀ v ∈ s.finishReasons, Fits (n + 1) v
  usage : DictFits (n + 1) s.usage
  timings : ∀ d, s.timings = some d → DictFits (n + 1) d
  model : ∀ v, s.model = some v → Fits (n + 2) v

/-- Counts that `int()` takes. -/
structure Counted (u : Dict) : Prop where
  prompt : ∃ i, countOf I (u.get "prompt_tokens") (u.get "input_tokens") = .ok i
  completion : ∃ i, countOf I (u.get "completion_tokens") (u.get "output_tokens") = .ok i
  cached : ∃ i, countOf I ((u.get "prompt_tokens_details").asDict.get "cached_tokens")
    (u.get "cache_read_input_tokens") = .ok i
  written : ∃ i, countOf I (u.get "cache_creation_input_tokens") (.int 0) = .ok i

structure Answer.Clean (a : Answer) : Prop where
  queue : DictFits (n + 2) a.queue
  latency : DictFits (n + 2) a.latency
  response : ∀ payload, a.response = some (.dict payload) →
    Told n payload ∧ Fits (n + 2) (Dict.get payload "id") ∧ Fits (n + 2) (Dict.get payload "object")
  lines : ∀ payload, Line.data (.dict payload) ∈ a.lines → Told n payload
  error : a.error.Encodable
  errorKind : a.errorKind.Encodable
  rescued : ∀ d ∈ a.rescued, DictFits n d
  chain : a.chain.Encodable
  counted : Counted I (a.usage I)

def Patch.Clean : Patch → Prop
  | .received queue => DictFits (n + 2) queue
  | .spilled route | .rescued route => route.Clean n
  | .toCell route poolId stepId => route.Clean n ∧ poolId.Encodable ∧ stepId.Encodable
  | .toAccount poolId accountId stepId =>
    poolId.Encodable ∧ accountId.Encodable ∧ stepId.Encodable
  | .upstream => True
  | .headers _ _ contentType server requestId =>
    contentType.Encodable ∧ server.Encodable ∧ requestId.Encodable
  | .relayed _ _ _ stream _ => ∀ s, stream = some s → s.Clean n

def Call.Clean : Call → Prop
  | .receive r route => r.Clean I n ∧ route.Clean n
  | .update agent _ patch => agent.Encodable ∧ patch.Clean n
  | .hear agent _ stream => agent.Encodable ∧ stream.Clean n
  | .refuse r route _ _ _ _ error errorKind =>
    r.Clean I n ∧ route.Clean n ∧ error.Encodable ∧ errorKind.Encodable
  | .finish r route a => r.Clean I n ∧ route.Clean n ∧ a.Clean I n ∧
    ∀ summary, requestSummary I r.body r.contentType = .ok summary →
      ((summary.get "model").or "").depth ≤ I.reprNesting
  | .sync routes => ∀ p ∈ routes, Text.Encodable p.1 ∧ DictFits (n + 5) p.2
  | .write => True

/-- A call whose contents the books can take. -/
structure Event.Clean (e : Event) : Prop where
  call : e.call.Clean I (spare I)
  rest : DictFits (I.dumpsNesting - 1) e.rest

/-! ### Summaries -/

variable {I n}

theorem summaryOf_fits {payload : Dict} {messages : List Value} {seen : Seen}
    (h : BodyFits n payload seen) : DictFits (n + 2) (summaryOf payload messages seen) := by
  have hroles : Fits (n + 2) (.list (seen.roles.map .str)) :=
    fits_list.mpr fun v hv => by
      obtain ⟨role, hr, rfl⟩ := List.mem_map.mp hv
      exact fits_str.mpr (h.roles role hr)
  simp only [summaryOf, dictFits_cons, Text.of_encodable, h.model, h.stream, h.maxTokens,
    h.temperature, h.topP, hroles, fits_int, fits_str, h.preview, dictFits_nil, and_self]

theorem requestSummary_fits {body : Body} {contentType : Text} {summary : Dict}
    (hct : contentType.Encodable)
    (hbody : ∀ payload seen, readsJson body contentType → body.json = .ok (.dict payload) →
      see I (messagesOf payload) = .ok seen → BodyFits n payload seen)
    (h : requestSummary I body contentType = .ok summary) : DictFits (n + 2) summary := by
  have hplain : DictFits (n + 2) [(Text.of "contentType", .str contentType),
      (Text.of "contentLength", .int body.length)] := by simp [hct]
  unfold requestSummary at h
  simp only [Bool.not_eq_true', bind, Except.bind, pure, Except.pure] at h
  split at h
  · obtain rfl := Except.ok.inj h
    exact hplain
  · next hread =>
    rw [Bool.not_eq_false] at hread
    split at h
    · next text _ =>
      obtain rfl := Except.ok.inj h
      have htext : Fits (n + 2) (.str (Text.of text)) := fits_str.mpr (Text.of_encodable text)
      exact hplain.set (Text.of_encodable "parseError") htext
    · next payload hjson =>
      split at h
      · exact absurd h (by simp)
      · next seen hseen =>
        obtain rfl := Except.ok.inj h
        exact (hplain.update (summaryOf_fits (hbody payload seen hread hjson hseen))).filter _
    · obtain rfl := Except.ok.inj h
      exact hplain

/-- The fields of a `response_summary`. -/
theorem responseSummary_fits {a : Answer} (h : a.Clean I n) : DictFits (n + 2) a.summary := by
  unfold Answer.summary
  cases hv : a.response with
  | none => exact dictFits_nil
  | some v =>
    cases v with
    | dict payload =>
      obtain ⟨ht, hid, hobject⟩ := h.response payload hv
      have husage := fits_dict.mpr ht.usage
      have htimings := fits_dict.mpr ht.timings
      have hreasons := fits_list.mpr ht.reasons
      simp only [Option.map_some, Option.getD_some, responseSummary, dictFits_cons,
        Text.of_encodable, hid, ht.model, hobject, husage, htimings, fits_int, hreasons,
        dictFits_nil, and_self]
    | _ => exact dictFits_nil

/-! ### Streams -/

theorem Stream.Clean.hear {s s' : Stream} {line : Line} (hs : s.Clean n)
    (hl : ∀ payload, line = .data (.dict payload) → Told n payload)
    (h : s.hear I line = .ok s') : s'.Clean n := by
  unfold Stream.hear at h
  simp only [bind, Except.bind, pure, Except.pure] at h
  split at h
  · obtain rfl := Except.ok.inj h
    exact hs
  · obtain rfl := Except.ok.inj h
    exact ⟨hs.finishReasons, hs.usage, hs.timings, hs.model⟩
  · obtain rfl := Except.ok.inj h
    exact ⟨hs.finishReasons, hs.usage, hs.timings, hs.model⟩
  · next payload =>
    have ht := hl payload rfl
    split at h
    · exact absurd h (by simp)
    · obtain rfl := Except.ok.inj h
      refine ⟨?_, ?_, ?_, ?_⟩ <;> dsimp only
      · split
        · exact hs.finishReasons
        · exact ht.reasons
      · split
        · exact hs.usage
        · exact ht.usage
      · split
        · exact hs.timings
        · rintro d ⟨⟩
          exact ht.timings
      · split
        · rintro v ⟨⟩
          exact ht.model
        · exact hs.model
  · obtain rfl := Except.ok.inj h
    exact ⟨hs.finishReasons, hs.usage, hs.timings, hs.model⟩

theorem Stream.Clean.relay {s : Stream} {lines : List Line} (hs : s.Clean n)
    (hl : ∀ payload, Line.data (.dict payload) ∈ lines → Told n payload) :
    (s.relay I lines).Clean n := by
  induction lines generalizing s with
  | nil => exact hs
  | cons line lines ih =>
    unfold Stream.relay
    split
    · next s' h =>
      exact ih (hs.hear (fun p hp => hl p (hp ▸ List.mem_cons_self)) h)
        fun p hp => hl p (List.mem_cons_of_mem line hp)
    · exact ⟨hs.finishReasons, hs.usage, hs.timings, hs.model⟩

theorem Stream.Clean.toDict {s : Stream} (h : s.Clean n) : DictFits (n + 2) s.toDict := by
  have husage := fits_dict.mpr h.usage
  have hreasons := fits_list.mpr h.finishReasons
  unfold Stream.toDict
  rw [dictFits_append, dictFits_append]
  refine ⟨⟨?_, ?_⟩, ?_⟩
  · simp only [dictFits_cons, Text.of_encodable, fits_int, fits_bool, husage, hreasons,
      dictFits_nil, and_self]
  · cases ht : s.timings with
    | none => exact dictFits_nil
    | some d => 
      exact dictFits_cons.mpr ⟨⟨Text.of_encodable _, fits_dict.mpr (h.timings d ht)⟩, dictFits_nil⟩
  · cases hm : s.model with
    | none => exact dictFits_nil
    | some v => exact dictFits_cons.mpr ⟨⟨Text.of_encodable _, h.model v hm⟩, dictFits_nil⟩

theorem Answer.Clean.stream {a : Answer} (h : a.Clean I n) : (a.stream I).Clean n :=
  Stream.Clean.relay ⟨fun _ h => absurd h List.not_mem_nil, dictFits_nil,
    fun _ h => absurd h (by simp [Stream.empty]),
    fun _ h => absurd h (by simp [Stream.empty])⟩ h.lines

/-! ### Records -/

theorem intRepr_encodable (i : ℤ) : (intRepr i).Encodable := (intRepr_isNumber i).encodable

theorem Route.Clean.group {route : Route} (h : route.Clean n) :
    (routeGroupKey route).Encodable := by
  unfold routeGroupKey
  rw [Text.encodable_append, Text.encodable_append, Text.encodable_append]
  refine ⟨⟨⟨h.upstreamHost, Text.of_encodable _⟩, intRepr_encodable _⟩, ?_⟩
  split
  · exact Text.encodable_append.mpr ⟨Text.of_encodable _, h.upstreamModel⟩
  · exact Text.encodable_nil

@[simp] theorem fits_optInt (i : Option ℤ) : Fits n (optInt i) := by
  cases i with
  | none => exact fits_null
  | some i => exact fits_int i

theorem activeItem_fits {r : Request} {route : Route} {summary : Dict} (hr : r.Clean I n)
    (hroute : route.Clean n) (hs : DictFits (n + 2) summary) :
    DictFits (n + 3) (activeItem r route summary) := by
  have hqueue : DictFits (n + 2) [(Text.of "queuedMs", .int 0), (Text.of "position", .null)] := by
    simp
  simp only [activeItem, dictFits_cons, Text.of_encodable, fits_int, fits_str, hr.id, hr.method,
    hr.path, hr.client, hroute.label, hroute.group, hroute.upstreamType, hroute.providerId,
    hroute.routedOutputId, hroute.routedOutputName, fits_dict, hs, hqueue, dictFits_nil, and_self]

theorem Patch.Clean.toDict {patch : Patch} (h : patch.Clean n) :
    DictFits (n + 3) patch.toDict := by
  cases patch with
  | received queue =>
    have h : DictFits (n + 2) queue := h
    simp only [Patch.toDict, dictFits_cons, Text.of_encodable, fits_str, fits_dict, h,
      dictFits_nil, and_self]
  | spilled route =>
    have h : route.Clean n := h
    simp only [Patch.toDict, dictFits_cons, Text.of_encodable, fits_str, h.group,
      h.upstreamType, h.providerId, h.label, dictFits_nil, and_self]
  | rescued route =>
    have h : route.Clean n := h
    simp only [Patch.toDict, dictFits_cons, Text.of_encodable, fits_str, h.group,
      h.upstreamType, h.providerId, h.routedOutputId, dictFits_nil, and_self]
  | toCell route poolId stepId =>
    obtain ⟨h, hp, hs⟩ := h
    simp only [Patch.toDict, dictFits_cons, Text.of_encodable, fits_str, h.group,
      h.upstreamType, h.routedOutputId, hp, hs, dictFits_nil, and_self]
  | toAccount poolId accountId stepId =>
    obtain ⟨hp, ha, hs⟩ := h
    simp only [Patch.toDict, dictFits_cons, Text.of_encodable, fits_str, hp, ha, hs,
      dictFits_nil, and_self]
  | upstream =>
    simp only [Patch.toDict, dictFits_cons, Text.of_encodable, fits_str, dictFits_nil, and_self]
  | headers streaming status contentType server requestId =>
    obtain ⟨hc, hs, hr⟩ := h
    have hphase : Fits (n + 3) (if streaming then "streaming" else "reading") := by
      split <;> simp
    simp only [Patch.toDict, dictFits_cons, Text.of_encodable, fits_str, fits_int, fits_dict,
      hphase, hc, hs, hr, dictFits_nil, and_self]
  | relayed bytes chunks firstByteMs stream elapsedMs =>
    have h : ∀ s, stream = some s → s.Clean n := h
    unfold Patch.toDict
    dsimp only
    rw [dictFits_append, dictFits_append]
    refine ⟨⟨by simp, ?_⟩, by simp⟩
    cases stream with
    | none => exact dictFits_nil
    | some s =>
      exact dictFits_cons.mpr ⟨⟨Text.of_encodable _, fits_dict.mpr (h s rfl).toDict⟩, dictFits_nil⟩

theorem terminal_fits {r : Request} {route : Route} {summary queue response stream : Dict}
    {error errorKind : Text} (status finishedAt durationMs : ℤ) (hr : r.Clean I n)
    (hroute : route.Clean n) (hs : DictFits (n + 2) summary) (hq : DictFits (n + 2) queue)
    (hresponse : DictFits (n + 2) response) (hstream : DictFits (n + 2) stream)
    (he : error.Encodable) (hk : errorKind.Encodable) :
    DictFits (n + 3) (terminal r route summary status finishedAt durationMs queue response stream
      error errorKind) := by
  simp only [terminal, dictFits_cons, Text.of_encodable, fits_int, fits_null, fits_str, hr.id,
    hr.method, hr.path, hr.client, hroute.label, hroute.group, hroute.upstreamHost,
    hroute.upstreamType, fits_dict, hs, hq, hresponse, hstream, he, hk, dictFits_nil, and_self]

theorem usageOf_ok {u : Dict} (h : Counted I u) (m : ℕ) :
    ∃ d, usageOf I u = .ok d ∧ DictFits m d := by
  obtain ⟨prompt, hp⟩ := h.prompt
  obtain ⟨completion, hc⟩ := h.completion
  obtain ⟨cached, hr⟩ := h.cached
  obtain ⟨written, hw⟩ := h.written
  unfold usageOf
  simp only [bind, Except.bind, pure, Except.pure, hp, hc, hr, hw]
  refine ⟨_, rfl, ?_⟩
  rw [dictFits_append, dictFits_append]
  refine ⟨⟨by simp, ?_⟩, ?_⟩
  · split <;> simp
  · split <;> simp

theorem Answer.Clean.timings {a : Answer} (h : a.Clean I n) :
    DictFits (n + 1) (a.timings I) := by
  have hsummary := (responseSummary_fits h).get (Text.of "timings")
  unfold Answer.timings
  split
  · next t ht =>
    rw [ht] at hsummary
    exact fits_dict.mp hsummary
  · cases ht : (a.stream I).timings with
    | none => exact dictFits_nil
    | some d => exact h.stream.timings d ht

theorem Route.Clean.poolFields {route : Route} (h : route.Clean n) :
    DictFits (n + 3) route.poolFields := by
  unfold Route.poolFields
  cases hp : route.pool with
  | none => exact dictFits_nil
  | some p =>
    obtain ⟨hid, hstep, hmodel, hcredential⟩ := h.pool p hp
    simp only [dictFits_cons, Text.of_encodable, fits_str, hid, hstep, hmodel, hcredential,
      dictFits_nil, and_self]

theorem stickyFields_fits (route : Route) : DictFits n route.stickyFields := by
  unfold Route.stickyFields
  split <;> simp

/-- `str()` of a model that is kept gives a text that can be written. -/
theorem strOf_ok {v : Value} (hv : Fits n v) (hd : v.depth ≤ I.reprNesting) :
    ∃ t, strOf I v = .ok t ∧ t.Encodable := by
  have hstr : ∃ t, strOf I v = .ok t := by
    unfold strOf
    split
    · exact ⟨_, rfl⟩
    · exact ⟨_, if_pos hd⟩
  obtain ⟨t, ht⟩ := hstr
  exact ⟨t, ht, strOf_encodable ht fun s he => fits_str.mp (he ▸ hv)⟩

/-- **The finishing step comes to its end**, with a record that fits. -/
theorem finishing_ok {r : Request} {route : Route} {summary : Dict} {a : Answer}
    (hr : r.Clean I n) (hroute : route.Clean n) (hs : DictFits (n + 2) summary)
    (ha : a.Clean I n) (hmodel : ((summary.get "model").or "").depth ≤ I.reprNesting) :
    ∃ result, finishing I r route summary a = .ok result ∧ DictFits (n + 3) result := by
  have hkey : ∀ s : String, (Text.of s).Encodable := Text.of_encodable
  obtain ⟨usage, hu, husage⟩ := usageOf_ok ha.counted (n + 2)
  obtain ⟨model, hm, hmodel⟩ := strOf_ok ((hs.get "model").or (fits_str.mpr (hkey ""))) hmodel
  have hstream : DictFits (n + 2)
      (if (a.stream I).events = 0 then [] else (a.stream I).toDict) := by
    split
    · exact dictFits_nil
    · exact ha.stream.toDict
  have hcounts : DictFits (n + 3) [(Text.of "bytes", .int a.bytes),
      (Text.of "chunks", .int a.chunks), (Text.of "firstByteMs", optInt a.firstByteMs),
      (Text.of "latency", .dict a.latency), (Text.of "priority", .int route.priority)] := by
    simp [ha.latency]
  have htrail : Fits (n + 3) (.dict [(Text.of "hops", .int a.rescued.length),
      (Text.of "trail", .list (a.rescued.map .dict))]) := by
    simp only [fits_dict, dictFits_cons, hkey, fits_int, fits_list, List.mem_map, dictFits_nil,
      and_true, true_and]
    rintro _ ⟨d, hd, rfl⟩
    exact fits_dict.mpr (ha.rescued d hd)
  have hskipped : Fits (n + 3) (.list (route.deadSkipped.map .str)) := by
    rw [fits_list]
    intro v hv
    obtain ⟨t, ht, rfl⟩ := List.mem_map.mp hv
    exact fits_str.mpr (hroute.deadSkipped t ht)
  have htimings : Fits (n + 3) (.dict (a.timings I)) :=
    fits_dict.mpr (ha.timings.mono (Nat.le_succ _))
  -- the record, in the order in which it is put together
  have hrecord := (terminal_fits a.status a.finishedAt a.durationMs hr hroute hs ha.queue
    (responseSummary_fits ha) hstream ha.error ha.errorKind).update hcounts
  have htold := ((hrecord.set (hkey "usage") (fits_dict.mpr husage)).setIf
    (!(a.timings I).isEmpty) (hkey "timings") htimings).setIf (!a.rescued.isEmpty)
    (hkey "rescued") htrail
  have hrouted := (((htold.setIf (!route.deadSkipped.isEmpty) (hkey "skippedDead") hskipped).set
    (hkey "providerId") (fits_str.mpr hroute.providerId)).set (hkey "cloudAccountId")
    (fits_str.mpr hroute.cloudAccountId)).update hroute.poolFields
  have hlast := (hrouted.set (hkey "model") (fits_str.mpr hmodel)).update
    (stickyFields_fits route)
  unfold finishing
  simp only [bind, Except.bind, pure, Except.pure, hu, hm]
  exact ⟨_, rfl, hlast.setIf _ (hkey "chain") (fits_str.mpr ha.chain)⟩

/-! ### The books -/

structure Row.Kept (n : ℕ) (row : Row) : Prop where
  info : DictFits (n + 5) row.info
  active : ∀ item ∈ row.active, DictFits (n + 3) item
  recent : ∀ result ∈ row.recent, DictFits (n + 3) result

/-- The invariant of the books: all that is in them fits the document. -/
def Book.Kept (n : ℕ) (b : Book) : Prop :=
  ∀ p ∈ b.agents, Text.Encodable p.1 ∧ p.2.Kept n

theorem Row.Kept.empty : Row.empty.Kept n :=
  ⟨dictFits_nil, fun _ h => absurd h List.not_mem_nil, fun _ h => absurd h List.not_mem_nil⟩

theorem Row.Kept.toValue {row : Row} (h : row.Kept n) : Fits (n + 6) row.toValue := by
  have hitems : ∀ items : List Dict, (∀ d ∈ items, DictFits (n + 3) d) →
      Fits (n + 5) (.list (items.map .dict)) := by
    intro items hd
    rw [fits_list]
    intro v hv
    obtain ⟨d, hmem, rfl⟩ := List.mem_map.mp hv
    exact fits_dict.mpr (hd d hmem)
  refine fits_dict.mpr (dictFits_append.mpr ⟨h.info, ?_⟩)
  exact dictFits_cons.mpr ⟨⟨Text.of_encodable _, hitems _ h.active⟩,
    dictFits_cons.mpr ⟨⟨Text.of_encodable _, hitems _ h.recent⟩, dictFits_nil⟩⟩

theorem Book.Kept.payload {b : Book} (h : b.Kept n) {rest : Dict} (hrest : DictFits (n + 7) rest) :
    Fits (n + 8) (b.payload rest) := by
  have hagents : DictFits (n + 6) (b.agents.map fun p => (p.1, p.2.toValue)) := by
    intro q hq
    obtain ⟨p, hp, rfl⟩ := List.mem_map.mp hq
    exact ⟨(h p hp).1, (h p hp).2.toValue⟩
  exact fits_dict.mpr (dictFits_cons.mpr ⟨⟨Text.of_encodable _, fits_dict.mpr hagents⟩, hrest⟩)

theorem Book.Kept.row {b : Book} (h : b.Kept n) (agent : Text) : (b.row agent).Kept n := by
  unfold Book.row
  cases hr : Assoc.get b.agents agent with
  | none => exact Row.Kept.empty
  | some row => exact (h _ (Assoc.mem_of_get hr)).2

theorem Book.Kept.put {b : Book} (h : b.Kept n) {agent : Text} (ha : agent.Encodable) {row : Row}
    (hrow : row.Kept n) : (b.put agent row).Kept n := by
  intro p hp
  rcases List.mem_cons.mp hp with rfl | hp
  · exact ⟨ha, hrow⟩
  · exact h p (List.mem_of_mem_filter hp)

@[simp] theorem Book.row_put_self (b : Book) (agent : Text) (row : Row) :
    (b.put agent row).row agent = row := by
  unfold Book.row Book.put
  rw [Assoc.get_put_self]
  rfl

/-- What the file holds is JSON, in UTF-8. -/
def ValidFile (file : Option Bytes) : Prop :=
  ∀ bytes, file = some bytes → ∃ text, encodeUtf8 text = some bytes ∧ IsJson text

/-- A call has returned, and left the books as they should be. -/
structure Returns (n : ℕ) (r : Book × Except Error Unit) : Prop where
  ok : r.2 = .ok ()
  kept : r.1.Kept n
  file : ValidFile r.1.file

theorem writeState_returns {b : Book} (h : b.Kept (spare I)) {rest : Dict}
    (hrest : DictFits (I.dumpsNesting - 1) rest) :
    Returns (spare I) (writeState I b rest) ∧ (writeState I b rest).1.agents = b.agents := by
  have hrest : DictFits (spare I + 7) rest := by
    rwa [dumpsNesting_eq] at hrest
  have hpayload : Fits I.dumpsNesting (b.payload rest) := by
    rw [dumpsNesting_eq]
    exact h.payload hrest
  obtain ⟨text, hdumps, hjson, hsome⟩ := dumps_fits hpayload
  obtain ⟨bytes, hbytes⟩ := Option.isSome_iff_exists.mp hsome
  have hwrite : writeState I b rest = ({ b with file := some bytes }, .ok ()) := by
    unfold writeState
    rw [hdumps]
    dsimp only
    rw [hbytes]
  rw [hwrite]
  refine ⟨⟨rfl, h, ?_⟩, rfl⟩
  rintro _ ⟨⟩
  exact ⟨text, hbytes, hjson⟩

theorem patchFirst_fits {id : Text} {patch : Dict} {items : List Dict}
    (h : ∀ d ∈ items, DictFits n d) (hp : DictFits n patch) :
    ∀ d ∈ patchFirst id patch items, DictFits n d := by
  induction items with
  | nil => exact fun d hd => absurd hd List.not_mem_nil
  | cons item items ih =>
    rw [List.forall_mem_cons] at h
    unfold patchFirst
    split
    · exact List.forall_mem_cons.mpr ⟨DictFits.update h.1 hp, h.2⟩
    · exact List.forall_mem_cons.mpr ⟨h.1, ih h.2⟩

theorem Row.Kept.patch {row : Row} (h : row.Kept n) {id : Text} {patch : Dict}
    (hp : DictFits (n + 3) patch) :
    Row.Kept n { row with active := patchFirst id patch row.active } :=
  ⟨h.info, patchFirst_fits h.active hp, h.recent⟩

section

variable {b : Book} {agent : Text} {rest : Dict}

theorem addActive_returns (h : b.Kept (spare I)) (ha : agent.Encodable) {item : Dict}
    (hi : DictFits (spare I + 3) item) (hrest : DictFits (I.dumpsNesting - 1) rest) :
    Returns (spare I) (addActive I b agent item rest) := by
  have hrow := h.row agent
  have hkept : Row.Kept (spare I) { b.row agent with active := (b.row agent).active ++ [item] } :=
    ⟨hrow.info, List.forall_mem_append.mpr ⟨hrow.active, fun d hd =>
      List.mem_singleton.mp hd ▸ hi⟩, hrow.recent⟩
  exact (writeState_returns (h.put ha hkept) hrest).1

theorem updateActive_returns (h : b.Kept (spare I)) (ha : agent.Encodable) {id : Text} {patch : Dict}
    (hp : DictFits (spare I + 3) patch) (hrest : DictFits (I.dumpsNesting - 1) rest) :
    Returns (spare I) (updateActive I b agent id patch rest) :=
  (writeState_returns (h.put ha ((h.row agent).patch hp)) hrest).1

/-- `finish_active` returns, and its item is no longer among the active ones. -/
theorem finishActive_returns (h : b.Kept (spare I)) (ha : agent.Encodable) (id : Text)
    {result : Dict}
    (hr : DictFits (spare I + 3) result) (hrest : DictFits (I.dumpsNesting - 1) rest) :
    Returns (spare I) (finishActive I b agent id result rest) ∧
      ∀ item ∈ ((finishActive I b agent id result rest).1.row agent).active,
        hasId id item = false := by
  have hrow := h.row agent
  let row : Row := { b.row agent with
    active := (b.row agent).active.filter fun item => !hasId id item
    recent := ((b.row agent).recent ++ [result]).drop
      (((b.row agent).recent ++ [result]).length - RECENT) }
  have hkept : row.Kept (spare I) := by
    refine ⟨hrow.info, fun d hd => hrow.active d (List.mem_of_mem_filter hd), fun d hd => ?_⟩
    rcases List.mem_append.mp (List.mem_of_mem_drop hd) with hd | hd
    · exact hrow.recent d hd
    · exact List.mem_singleton.mp hd ▸ hr
  obtain ⟨hreturns, hagents⟩ := writeState_returns (h.put ha hkept) hrest
  refine ⟨hreturns, ?_⟩
  have hself : ((finishActive I b agent id result rest).1.row agent) = row := by
    change (Assoc.get (writeState I (b.put agent row) rest).1.agents agent).getD .empty = row
    rw [hagents]
    exact Book.row_put_self b agent row
  rw [hself]
  intro item hitem
  simpa using (List.mem_filter.mp hitem).2

end

theorem syncAgents_kept {b : Book} (h : b.Kept n) {routes : List (Text × Dict)}
    (hr : ∀ p ∈ routes, Text.Encodable p.1 ∧ DictFits (n + 5) p.2) :
    (syncAgents b routes).Kept n := by
  intro q hq
  obtain ⟨p, hp, rfl⟩ := List.mem_map.mp hq
  have hrow := h.row p.1
  exact ⟨(hr p hp).1, (hr p hp).2, hrow.active, hrow.recent⟩

/-! ### Runs -/

/-- The port and the request whose item a call takes off. -/
def Call.closes (I : Interp) : Call → Option (Text × Text)
  | .refuse r route .. | .finish r route _ =>
    if (requestSummary I r.body r.contentType).isOk then some (portText route.port, r.id)
    else none
  | _ => none

/-- What a call has done for which the books are kept. -/
structure Done (I : Interp) (b : Book) (e : Event) : Prop where
  returns : Returns (spare I) (step I b e)
  closed : ∀ agent id, e.call.closes I = some (agent, id) →
    ∀ item ∈ ((step I b e).1.row agent).active, hasId id item = false

/-- A request is closed with a record that fits. -/
theorem close_done {b : Book} (hb : b.Kept (spare I)) (hfile : ValidFile b.file) {r : Request}
    (route : Route) {record : Dict → Except Error Dict} {rest : Dict}
    (hrest : DictFits (I.dumpsNesting - 1) rest)
    (hrecord : ∀ summary, requestSummary I r.body r.contentType = .ok summary →
      ∃ result, record summary = .ok result ∧ DictFits (spare I + 3) result) :
    Returns (spare I) (close I b r route record rest) ∧
      ∀ agent id, (if (requestSummary I r.body r.contentType).isOk then
          some (portText route.port, r.id) else none) = some (agent, id) →
        ∀ item ∈ ((close I b r route record rest).1.row agent).active, hasId id item = false := by
  unfold close
  cases hs : requestSummary I r.body r.contentType with
  | error x => exact ⟨⟨rfl, hb, hfile⟩, fun _ _ h => absurd h (by simp [Except.isOk, Except.toBool])⟩
  | ok summary =>
    obtain ⟨result, hr, hfits⟩ := hrecord summary hs
    obtain ⟨hreturns, hclosed⟩ := finishActive_returns hb (intRepr_encodable route.port)
      r.id hfits hrest
    dsimp only
    rw [hr]
    refine ⟨hreturns, ?_⟩
    rintro _ _ ⟨⟩
    exact hclosed

/-- **One clean call** on books that are in order. -/
theorem step_done {b : Book} (hb : b.Kept (spare I)) (hfile : ValidFile b.file) {e : Event}
    (he : e.Clean I) : Done I b e := by
  obtain ⟨call, rest⟩ := e
  obtain ⟨hcall, hrest⟩ := he
  have hstay : Returns (spare I) (b, .ok ()) := ⟨rfl, hb, hfile⟩
  have hopen : ∀ {c : Call}, c.closes I = none → ∀ agent id, c.closes I = some (agent, id) →
      ∀ item ∈ ((step I b ⟨c, rest⟩).1.row agent).active, hasId id item = false :=
    fun hc _ _ h => absurd (hc.symm.trans h) (by simp)
  cases call with
  | receive r route =>
    obtain ⟨hr, hroute⟩ := hcall
    refine ⟨?_, hopen rfl⟩
    unfold step
    dsimp only
    split
    · exact hstay
    · next summary hs =>
      exact addActive_returns hb (intRepr_encodable _) (activeItem_fits hr hroute
        (requestSummary_fits hr.contentType hr.body hs)) hrest
  | update agent id patch =>
    exact ⟨updateActive_returns hb hcall.1 hcall.2.toDict hrest, hopen rfl⟩
  | hear agent id stream =>
    refine ⟨⟨rfl, hb.put hcall.1 ((hb.row agent).patch ?_), hfile⟩, hopen rfl⟩
    exact dictFits_cons.mpr ⟨⟨Text.of_encodable _, fits_dict.mpr hcall.2.toDict⟩, dictFits_nil⟩
  | refuse r route status finishedAt durationMs queuedMs error errorKind =>
    obtain ⟨hr, hroute, he, hk⟩ := hcall
    have hqueue : DictFits (spare I + 2) [(Text.of "queuedMs", .int queuedMs)] := by simp
    obtain ⟨hreturns, hclosed⟩ := close_done hb hfile route hrest fun summary hs =>
      ⟨_, rfl, terminal_fits status finishedAt durationMs hr hroute
        (requestSummary_fits hr.contentType hr.body hs) hqueue dictFits_nil dictFits_nil he hk⟩
    exact ⟨hreturns, hclosed⟩
  | finish r route a =>
    obtain ⟨hr, hroute, ha, hmodel⟩ := hcall
    obtain ⟨hreturns, hclosed⟩ := close_done hb hfile route hrest fun summary hs =>
      finishing_ok hr hroute (requestSummary_fits hr.contentType hr.body hs) ha (hmodel summary hs)
    exact ⟨hreturns, hclosed⟩
  | sync routes => exact ⟨(writeState_returns (syncAgents_kept hb hcall) hrest).1, hopen rfl⟩
  | write => exact ⟨(writeState_returns hb hrest).1, hopen rfl⟩

theorem run_append (es : List Event) (e : Event) : run I (es ++ [e]) = (step I (run I es) e).1 := by
  unfold run
  rw [List.foldl_append]
  rfl

/-- A run of clean calls leaves the books in order. -/
theorem run_kept {es : List Event} (h : ∀ e ∈ es, e.Clean I) :
    (run I es).Kept (spare I) ∧ ValidFile (run I es).file := by
  induction es using List.reverseRecOn with
  | nil =>
    exact ⟨fun _ h => absurd h List.not_mem_nil, fun _ h => absurd h (by simp [run, Book.empty])⟩
  | append_singleton es e ih =>
    rw [List.forall_mem_append] at h
    obtain ⟨hkept, hfile⟩ := ih h.1
    have hdone := step_done hkept hfile (h.2 e List.mem_cons_self)
    rw [run_append]
    exact ⟨hdone.returns.kept, hdone.returns.file⟩

/-- **No clean content breaks the books.** In a run of clean calls each of them returns,
the file is JSON after it, and a request that ends is active no longer. -/
theorem run_keeps_books {es : List Event} {e : Event} (h : ∀ x ∈ es ++ [e], x.Clean I) :
    Done I (run I es) e := by
  rw [List.forall_mem_append] at h
  obtain ⟨hkept, hfile⟩ := run_kept h.1
  exact step_done hkept hfile (h.2 e List.mem_cons_self)

/-! ### One request -/

/-- An interpreter that tells letters and digits apart in ASCII only. -/
def asciiInterp : Interp := .ascii

/-- A cell on this machine, at port 9001. -/
def cell : Route where
  label := "agent"
  port := 9001
  upstreamHost := "127.0.0.1"
  upstreamPort := 8080
  upstreamType := "llama"
  upstreamModel := []
  providerId := []
  routedOutputId := "o1"
  routedOutputName := "llama"
  priority := 0
  cloudAccountId := []
  pool := none
  deadSkipped := []
  stickySlotSec := none

/-- A chat request for a model. -/
def chat (id : String) (model : Text) : Request where
  id := id
  method := "POST"
  path := "/v1/chat/completions"
  client := "10.0.0.1"
  startedAt := 1000
  contentType := "application/json"
  body := ⟨60, .ok (.dict [("model", .str model), ("messages", .list
    [.dict [("role", "user"), ("content", "hi")]])])⟩

/-- An answer that tells this many tokens. -/
def answered (tokens : Value) : Answer where
  status := 200
  finishedAt := 1001
  durationMs := 900
  bytes := 10
  chunks := 1
  firstByteMs := some 5
  queue := []
  latency := []
  response := some (.dict [("id", "a1"), ("usage", .dict [("prompt_tokens", tokens)])])
  lines := []
  anthropic := none
  error := []
  errorKind := []
  rescued := []
  chain := []


theorem cell_clean : cell.Clean (spare asciiInterp) where
  label := by decide +kernel
  upstreamHost := by decide +kernel
  upstreamType := by decide +kernel
  upstreamModel := by decide +kernel
  providerId := by decide +kernel
  routedOutputId := by decide +kernel
  routedOutputName := by decide +kernel
  cloudAccountId := by decide +kernel
  pool := fun p h => absurd h (by simp [cell])
  deadSkipped := fun t h => absurd h List.not_mem_nil

theorem chat_clean {id : String} {model : Text} (hm : model.Encodable) :
    (chat id model).Clean asciiInterp (spare asciiInterp) where
  id := Text.of_encodable id
  method := Text.of_encodable _
  path := Text.of_encodable _
  client := Text.of_encodable _
  contentType := Text.of_encodable _
  body := by
    rintro payload seen - hjson hseen
    obtain rfl : _ = payload := Value.dict.inj (Except.ok.inj hjson)
    obtain rfl : (⟨2, 0, [Text.of "user"], Text.of "hi"⟩ : Seen) = seen := Except.ok.inj hseen
    exact {
      model := fits_str.mpr hm
      stream := fits_null
      maxTokens := fits_null
      temperature := fits_null
      topP := fits_null
      roles := by decide +kernel
      preview := by decide +kernel }

theorem answered_clean :
    (answered (.int 5)).Clean asciiInterp (spare asciiInterp) where
  queue := dictFits_nil
  latency := dictFits_nil
  response := by
    rintro payload h
    obtain rfl : _ = payload := Value.dict.inj (Option.some.inj h)
    refine ⟨⟨fits_null, ?_, dictFits_nil, fun _ h => absurd h List.not_mem_nil⟩, ?_, fits_null⟩
    · exact dictFits_cons.mpr ⟨⟨Text.of_encodable _, fits_int 5⟩, dictFits_nil⟩
    · exact fits_str.mpr (Text.of_encodable _)
  lines := fun _ h => absurd h List.not_mem_nil
  error := Text.encodable_nil
  errorKind := Text.encodable_nil
  rescued := fun _ h => absurd h List.not_mem_nil
  chain := Text.encodable_nil
  counted := ⟨⟨5, by decide +kernel⟩, ⟨0, by decide +kernel⟩, ⟨0, by decide +kernel⟩,
    ⟨0, by decide +kernel⟩⟩

theorem run_keeps_books_chat :
    Done asciiInterp (run asciiInterp [⟨.receive (chat "1" "m") cell, []⟩])
      ⟨.finish (chat "1" "m") cell (answered (.int 5)), []⟩ := by
  refine run_keeps_books fun x hx => ?_
  rcases List.mem_append.mp hx with hx | hx <;> rw [List.mem_singleton] at hx <;> subst hx
  · exact ⟨⟨chat_clean (Text.of_encodable _), cell_clean⟩, dictFits_nil⟩
  · refine ⟨⟨chat_clean (Text.of_encodable _), cell_clean, answered_clean,
      fun summary h => ?_⟩, dictFits_nil⟩
    cases h
    decide +kernel

/-- A lone surrogate in the name of a model: the write fails, and so does that of the next
request, with the first one's item still among the active ones. And an answer whose count
of tokens is a word: the finishing step raises before its record is made. -/
theorem contents_break_books :
    (let bad : Event := ⟨.receive (chat "1" [⟨0xD800, by omega⟩]) cell, []⟩
    let good : Event := ⟨.receive (chat "2" "m") cell, []⟩
    (step asciiInterp .empty bad).2 = .error .unicodeEncode ∧
      (step asciiInterp (run asciiInterp [bad]) good).2 = .error .unicodeEncode ∧
      ((run asciiInterp [bad, good]).row "9001").active.any (hasId "1")) ∧
    (let good : Event := ⟨.receive (chat "2" "m") cell, []⟩
    let done : Event := ⟨.finish (chat "2" "m") cell (answered "many"), []⟩
    (step asciiInterp (run asciiInterp [good]) done).2 = .error .value ∧
      ((run asciiInterp [good, done]).row "9001").active.any (hasId "2")) :=
  ⟨⟨by decide +kernel, by decide +kernel, by decide +kernel⟩, by decide +kernel,
    by decide +kernel⟩

end Proxy
