import Caravan.Python.LoadsSound
import Caravan.Python.Utf8

/-!
# What an engine cell passes on

An engine cell forwards what is posted to it to the engine beside it, and writes its own model into
the body: `named` does so where the content type has `json` in it and the body is an object. What it
does not write into goes on as it came, with the client's model in it (`other_model`).
`forward_own` says when the engine reads the client's body with the cell's model.

The engine reads a body as JSON in UTF-8 whatever its content type, the last of repeated keys
standing; `NaN`, the infinities and numbers beyond a double are no JSON. The body of a request in
chunks is not read by the handler, which asks for a `Content-Length`.
-/

namespace EngineCell

open Python

/-- What the cell's process has from the interpreter, and how deep the engine reads. -/
structure Host where
  /-- `str.lower` -/
  lower : Text → Text
  /-- `float` of a text. -/
  toFloat : Text → Python.Float
  readsBack : Loads.ReadsBack toFloat
  loadsNesting : ℕ
  dumpsNesting : ℕ
  engineNesting : ℕ

/-- The cell's model, as the command line names it: a byte that is no text is half a pair there, and
always the lower one. -/
structure Model where
  name : Text
  plain : ∀ c ∈ name, Loads.isHigh c = false

/-- A request that is posted. -/
structure Post where
  ctype : Option Text
  chunked : Bool
  body : Bytes

variable (H : Host) (m : Model)

/-! ### The cell -/

/-- `body.decode("utf-8")` -/
def decode? (b : Bytes) : Option Text :=
  if encodeUtf8 (decodeUtf8 b) = some b then some (decodeUtf8 b) else none

/-- `"json" in str(ctype or "").lower()` -/
def isJson (ctype : Option Text) : Bool := decide (Text.of "json" <:+: H.lower (ctype.getD []))

/-- `json.loads` -/
def loads (t : Text) : Except Error Value :=
  Loads.loads H.toFloat (some MAX_STR_DIGITS) H.loadsNesting t

/-- `json.dumps(v).encode("utf-8")` -/
def dumps (v : Value) : Except Error Bytes :=
  if v.depth ≤ H.dumpsNesting then
    match encodeUtf8 (compact v) with
    | some b => .ok b
    | none => .error .unicodeEncode
  else .error .recursion

/-- The object with the cell's model in it. -/
def withModel (data : Dict) : Dict := Dict.set data (Text.of "model") (.str m.name)

/-- `named` -/
def named (body : Bytes) (ctype : Option Text) : Except Error Bytes :=
  if isJson H ctype = false then .ok body
  else match decode? body with
    | none => .ok body
    | some t =>
      match loads H (if t = [] then Text.of "null" else t) with
      | .error .recursion => .error .recursion
      | .error _ => .ok body
      | .ok (.dict data) => dumps H (.dict (withModel m data))
      | .ok _ => .ok body

/-- What the handler reads: as many bytes as the `Content-Length` says, and none where there is
no such header. -/
def Post.read (p : Post) : Bytes := if p.chunked then [] else p.body

/-- The body that `do_POST` forwards. -/
def forwarded (p : Post) : Except Error Bytes := named H m p.read p.ctype

/-! ### The engine -/

/-- The JSON value that the engine reads in a body. -/
def engineRead (b : Bytes) : Option Value :=
  match decode? b with
  | none => none
  | some t =>
    match Loads.loads H.toFloat none H.engineNesting t with
    | .ok v => if Loads.finite v then some v else none
    | .error _ => none

/-- The engine reads the client's object, with the cell's model in it. -/
def Own (p : Post) (sent : Bytes) : Prop :=
  ∃ data, engineRead H p.body = some (.dict data) ∧
    engineRead H sent = some (.dict (withModel m data))

/-- The cell reads a body: it is a text, and `json.loads` takes it. -/
def CellReads (b : Bytes) : Prop := ∃ t v, decode? b = some t ∧ loads H t = .ok v

/-! ### Texts and bytes -/

theorem encodable_of_encode {t : Text} {b : Bytes} (h : encodeUtf8 t = some b) : t.Encodable := by
  induction t generalizing b with
  | nil => exact Text.encodable_nil
  | cons c t ih =>
    obtain ⟨x, hx, h⟩ := Option.bind_eq_some_iff.mp h
    obtain ⟨y, hy, -⟩ := Option.bind_eq_some_iff.mp h
    refine List.forall_mem_cons.mpr ⟨?_, ih hy⟩
    by_contra hc
    rw [Bool.not_eq_false] at hc
    have hval := hc
    unfold isSurrogate at hval
    simp only [Bool.and_eq_true, decide_eq_true_eq] at hval
    unfold encodeChar at hx
    rw [if_neg (by omega), if_neg (by omega), if_pos hc] at hx
    cases hx

theorem decode?_some {t : Text} {b : Bytes} : decode? b = some t ↔ encodeUtf8 t = some b := by
  unfold decode?
  constructor
  · intro h
    split at h
    · next he => exact Option.some.inj h ▸ he
    · cases h
  · intro h
    rw [decodeUtf8_encode h, if_pos h]

variable {H m}

/-- An empty body is no JSON. -/
theorem engineRead_nil : engineRead H [] = none := by
  have hdecode : decode? [] = some [] := decode?_some.mpr rfl
  rw [engineRead, hdecode]
  cases hnest : H.engineNesting <;> rfl

/-- What the engine reads is sound, finite and no deeper than it reads. -/
theorem engineRead_reads {b : Bytes} {v : Value} (h : engineRead H b = some v) :
    ∃ t, decode? b = some t ∧ Loads.loads H.toFloat none H.engineNesting t = .ok v ∧
      Loads.Sound H.toFloat v ∧ Loads.finite v = true ∧ v.depth ≤ H.engineNesting := by
  unfold engineRead at h
  split at h
  · cases h
  next t ht =>
  split at h
  · next w hw =>
    split at h
    · next hfinite =>
      cases h
      obtain ⟨hsound, hdepth⟩ :=
        Loads.loads_reads H.readsBack hw (encodable_of_encode (decode?_some.mp ht))
      exact ⟨t, ht, hw, hsound, hfinite, hdepth⟩
    · cases h
  · cases h

/-- A sound value that is written is read by the engine. -/
theorem engineRead_dumps {v : Value} {b : Bytes} (hb : dumps H v = .ok b)
    (hsound : Loads.Sound H.toFloat v) (hfinite : Loads.finite v = true)
    (hdepth : v.depth ≤ H.engineNesting) : engineRead H b = some v := by
  unfold dumps at hb
  split at hb
  · split at hb
    · next b' hencode =>
      cases hb
      rw [engineRead, decode?_some.mpr hencode]
      dsimp only
      rw [Loads.loads_compact hsound hdepth]
      dsimp only
      rw [if_pos hfinite]
    · cases hb
  · cases hb

/-! ### The model in the body -/

theorem finite_dict_iff {kvs : Dict} :
    Loads.finite (.dict kvs) = true ↔ ∀ p ∈ kvs, Loads.finite p.2 = true := by
  rw [Loads.finite, Value.all]
  induction kvs with
  | nil => exact iff_of_true rfl fun _ h => nomatch h
  | cons p kvs ih =>
    obtain ⟨k, v⟩ := p
    rw [Value.allDict, Bool.true_and, Bool.and_eq_true, ih, List.forall_mem_cons]
    rfl

theorem normal_model : Loads.Normal m.name := by
  have hall : ∀ t : Text, (∀ c ∈ t, Loads.isHigh c = false) → Loads.Normal t := by
    intro t ht
    induction t with
    | nil => exact List.isChain_nil
    | cons c t ih =>
      refine List.isChain_cons.mpr ⟨?_, ih fun d hd => ht d (List.mem_cons_of_mem c hd)⟩
      rintro d - ⟨hhigh, -⟩
      rw [ht c List.mem_cons_self] at hhigh
      cases hhigh
  exact hall m.name m.plain

/-- The model is written into a dictionary that stays as sound, finite and deep. -/
theorem withModel_sound {data : Dict} {n : ℕ} (hsound : Loads.Sound H.toFloat (.dict data))
    (hfinite : Loads.finite (.dict data) = true) (hdepth : (Value.dict data).depth ≤ n) :
    Loads.Sound H.toFloat (.dict (withModel m data)) ∧
      Loads.finite (.dict (withModel m data)) = true ∧
        (Value.dict (withModel m data)).depth ≤ n := by
  obtain ⟨hdistinct, hpairs⟩ := hsound
  rw [Loads.soundDict_iff] at hpairs
  rw [finite_dict_iff] at hfinite
  rw [Value.depth] at hdepth
  obtain ⟨n, rfl⟩ : ∃ k, n = k + 1 := ⟨n - 1, by omega⟩
  have hlevels := Loads.depthDict_le_iff.mp (Nat.le_of_succ_le_succ hdepth)
  have hkey : Loads.Normal (Text.of "model") := by
    unfold Loads.Normal
    decide
  refine ⟨⟨Dict.distinct_set hdistinct _ _, Loads.soundDict_iff.mpr fun p hp => ?_⟩,
    finite_dict_iff.mpr fun p hp => ?_,
    Nat.succ_le_succ (Loads.depthDict_le_iff.mpr fun p hp => ?_)⟩
  · rcases Loads.mem_set hp with rfl | hp
    · exact ⟨hkey, normal_model⟩
    · exact hpairs p hp
  · rcases Loads.mem_set hp with rfl | hp
    · rfl
    · exact hfinite p hp
  · rcases Loads.mem_set hp with rfl | hp
    · exact Nat.zero_le n
    · exact hlevels p hp

/-- A dictionary that has the model stays as it is. -/
theorem withModel_of_lookup {data : Dict} (hdistinct : Assoc.Distinct data)
    (h : data.lookup (Text.of "model") = some (.str m.name)) : withModel m data = data :=
  Dict.set_lookup_self hdistinct h

theorem lookup_of_withModel {data : Dict} (h : withModel m data = data) :
    data.lookup (Text.of "model") = some (.str m.name) := by
  rw [← h, withModel, Dict.lookup_set, if_pos rfl]

/-! ### What is forwarded -/

/-- A body is written into, or it goes on as it is and the cell has not taken it for an object. -/
theorem named_cases {body sent : Bytes} {ctype : Option Text}
    (h : named H m body ctype = .ok sent) :
    (isJson H ctype = true ∧ ∃ t data, decode? body = some t ∧
      loads H (if t = [] then Text.of "null" else t) = .ok (.dict data) ∧
        dumps H (.dict (withModel m data)) = .ok sent) ∨
    (sent = body ∧ (isJson H ctype = true → ∀ t data, decode? body = some t →
      loads H (if t = [] then Text.of "null" else t) ≠ .ok (.dict data))) := by
  unfold named at h
  split at h
  · next hctype =>
    cases h
    exact .inr ⟨rfl, fun hjson => by rw [hctype] at hjson; cases hjson⟩
  next hctype =>
  have hjson : isJson H ctype = true := Bool.eq_true_of_not_eq_false hctype
  split at h
  · next hnone =>
    cases h
    exact .inr ⟨rfl, fun _ t data ht => by rw [hnone] at ht; cases ht⟩
  next t ht =>
  -- what the cell takes for an object it takes so once
  have hother : (∀ data, loads H (if t = [] then Text.of "null" else t) ≠ .ok (.dict data)) →
      ∀ t' data, decode? body = some t' →
        loads H (if t' = [] then Text.of "null" else t') ≠ .ok (.dict data) := by
    intro hno t' data ht'
    obtain rfl := Option.some.inj (ht.symm.trans ht')
    exact hno data
  split at h
  · cases h
  · next e hne he =>
    cases h
    refine .inr ⟨rfl, fun _ => hother fun data hdata => ?_⟩
    rw [he] at hdata
    cases hdata
  · next data hdata => exact .inl ⟨hjson, t, data, ht, hdata, h⟩
  · next v hv hnot =>
    cases h
    refine .inr ⟨rfl, fun _ => hother fun data hdata => ?_⟩
    rw [hnot] at hdata
    cases hdata
    exact hv data rfl

/-- An empty body is never an object. -/
theorem named_nil {sent : Bytes} {ctype : Option Text} (h : named H m [] ctype = .ok sent) :
    sent = [] := by
  rcases named_cases h with ⟨-, t, data, ht, hloads, -⟩ | ⟨hsent, -⟩
  · have hempty : t = [] := Option.some.inj (ht.symm.trans (decode?_some.mpr rfl))
    rw [if_pos hempty] at hloads
    have hnull : Loads.loads H.toFloat none 0 (compact .null) = .ok .null :=
      Loads.loads_compact trivial le_rfl
    have hsame := Loads.loads_unique hloads hnull
    cases hsame
  · exact hsent

/-- A text that the engine reads is not empty. -/
theorem ne_nil_of_loads {t : Text} {v : Value} {n : ℕ} {limit : Option ℕ}
    (h : Loads.loads H.toFloat limit n t = .ok v) : t ≠ [] := by
  rintro rfl
  cases n <;> cases h

/-- **The engine reads the client's object with the cell's model**, just when the body came with a
`Content-Length`, the engine reads an object in it, and the cell has written its model into it (the
content type has `json` in it, and the cell reads the body) or the client has named the cell's model
itself. -/
theorem forward_own {p : Post} {sent : Bytes} (h : forwarded H m p = .ok sent) :
    Own H m p sent ↔ p.chunked = false ∧ ∃ data, engineRead H p.body = some (.dict data) ∧
      ((isJson H p.ctype = true ∧ CellReads H p.body) ∨
        data.lookup (Text.of "model") = some (.str m.name)) := by
  unfold forwarded Post.read at h
  cases hchunked : p.chunked with
  | true =>
    -- nothing is read of a body in chunks, and nothing is forwarded
    rw [hchunked, if_pos rfl] at h
    rw [named_nil h]
    refine iff_of_false ?_ fun h => by cases h.1
    rintro ⟨data, -, hsent⟩
    rw [engineRead_nil] at hsent
    cases hsent
  | false =>
  rw [hchunked, if_neg Bool.false_ne_true] at h
  rw [Own, eq_self_iff_true, true_and]
  refine exists_congr fun data => and_congr_right fun hread => ?_
  obtain ⟨t, ht, hengine, hsound, hfinite, hdepth⟩ := engineRead_reads hread
  have hne : t ≠ [] := ne_nil_of_loads hengine
  rcases named_cases h with ⟨hjson, t', data', ht', hcell, hdumps⟩ | ⟨rfl, hnot⟩
  · -- the cell reads the object that the engine reads
    obtain rfl : t = t' := Option.some.inj (ht.symm.trans ht')
    rw [if_neg hne] at hcell
    have hsame : Value.dict data' = .dict data := Loads.loads_unique hcell hengine
    cases hsame
    obtain ⟨hsound', hfinite', hdepth'⟩ := withModel_sound (m := m) hsound hfinite hdepth
    exact iff_of_true (engineRead_dumps hdumps hsound' hfinite' hdepth')
      (.inl ⟨hjson, t, _, ht, hcell⟩)
  · rw [hread, Option.some.injEq, Value.dict.injEq, eq_comm]
    constructor
    · exact fun hdata => .inr (lookup_of_withModel hdata)
    · rintro (⟨hjson, t', v, ht', hcell⟩ | hlookup)
      · -- the cell would have written into the object
        obtain rfl : t = t' := Option.some.inj (ht.symm.trans ht')
        have hsame : v = .dict data := Loads.loads_unique hcell hengine
        have hno := hnot hjson t data ht
        rw [if_neg hne] at hno
        exact absurd (hsame ▸ hcell) hno
      · exact withModel_of_lookup hsound.1 hlookup

/-! ### A model of the client's -/

/-- A host that reads every number with a point as zero. -/
def plainHost : Host where
  lower := List.map lowerAscii
  toFloat _ := .finite false 0 0
  readsBack _ _ := rfl
  loadsNesting := 3
  dumpsNesting := 3
  engineNesting := 3

def modelOwn : Model where
  name := Text.of "a"
  plain c hc := by
    obtain rfl := List.mem_singleton.mp hc
    decide

/-- An object without anything in it. -/
def braces : Text := Text.of "\x7b\x7d"

theorem loads_braces (limit : Option ℕ) :
    Loads.loads plainHost.toFloat limit 3 braces = .ok (.dict []) := rfl

theorem decode_braces : decode? [0x7B, 0x7D] = some braces := decode?_some.mpr (by decide)

theorem engineRead_braces : engineRead plainHost [0x7B, 0x7D] = some (.dict []) := by
  rw [engineRead, decode_braces]
  dsimp only
  rw [show plainHost.engineNesting = 3 from rfl, loads_braces]
  rfl

theorem forward_own_json : ∃ sent,
    forwarded plainHost modelOwn ⟨some (Text.of "application/json"), false, [0x7B, 0x7D]⟩ =
        .ok sent ∧
      Own plainHost modelOwn ⟨some (Text.of "application/json"), false, [0x7B, 0x7D]⟩ sent := by
  have hjson : isJson plainHost (some (Text.of "application/json")) = true := by decide
  have hloads : loads plainHost braces = .ok (.dict []) := loads_braces _
  have hforward : forwarded plainHost modelOwn
      ⟨some (Text.of "application/json"), false, [0x7B, 0x7D]⟩ =
        dumps plainHost (.dict (withModel modelOwn [])) := by
    show named _ _ _ _ = _
    unfold named Post.read
    rw [if_neg (by rw [hjson]; decide)]
    dsimp only
    rw [if_neg Bool.false_ne_true, decode_braces]
    dsimp only
    rw [if_neg (by decide), hloads]
  obtain ⟨sent, hsent⟩ : ∃ sent, dumps plainHost (.dict (withModel modelOwn [])) = .ok sent :=
    ⟨_, rfl⟩
  rw [hsent] at hforward
  refine ⟨sent, hforward, (forward_own hforward).mpr ⟨rfl, _, engineRead_braces, .inl ⟨hjson, ?_⟩⟩⟩
  exact ⟨braces, _, decode_braces, hloads⟩

/-- An object that names another model. -/
def other : Value := .dict [(Text.of "model", .str (Text.of "b"))]

/-- **Another model** is named by a client that gives its body no content type, and the engine reads
that name. -/
theorem other_model : ∃ body, forwarded plainHost modelOwn ⟨none, false, body⟩ = .ok body ∧
    engineRead plainHost body = some other ∧
      ¬ Own plainHost modelOwn ⟨none, false, body⟩ body := by
  obtain ⟨body, hbody⟩ : ∃ body, dumps plainHost other = .ok body := ⟨_, rfl⟩
  have hsound : Loads.Sound plainHost.toFloat other := by
    refine ⟨List.nodup_singleton _, ?_, ?_, trivial⟩
    · unfold Loads.Normal
      decide
    · show Loads.Normal _
      unfold Loads.Normal
      decide
  have hread : engineRead plainHost body = some other :=
    engineRead_dumps hbody hsound rfl (by decide)
  have hjson : isJson plainHost none = false := by decide
  have hforward : forwarded plainHost modelOwn ⟨none, false, body⟩ = .ok body := by
    show named _ _ _ _ = _
    unfold named
    rw [if_pos hjson]
    rfl
  refine ⟨body, hforward, hread, ?_⟩
  rintro ⟨data, hclient, hsent⟩
  rw [hread] at hclient hsent
  cases hclient
  rw [Option.some.injEq, other, Value.dict.injEq] at hsent
  have hlookup := lookup_of_withModel hsent.symm
  have hother : List.lookup (Text.of "model") [(Text.of "model", Value.str (Text.of "b"))] =
      some (.str (Text.of "b")) := rfl
  rw [hother] at hlookup
  have hname : Text.of "b" = Text.of "a" := Value.str.inj (Option.some.inj hlookup)
  revert hname
  decide

end EngineCell
