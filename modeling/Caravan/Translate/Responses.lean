import Caravan.Translate.Chunks

/-!
# A Responses stream as a chat completion

`_iter_responses_as_completions_sse` translates the events of a Responses stream as they come: a
function call gets the next index of the chat, and its arguments go out under it. A client that
did not ask for a stream gets the translated chunks folded into one answer.

Nothing is lost on that way: of a stream in order the fold makes the whole text, every call with
its arguments, and the usage (`fold_stream`). The finish reason is another matter: it is read of
the last event alone, whose output the subscription backend leaves empty (`finish_iff`).
-/

namespace Translate

open Python

/-! ### The events -/

/-- An output item, as it is read of an event. -/
structure Item where
  type : Text
  call_id : Text
  id : Text
  name : Text
  deriving DecidableEq

def FUNCTION_CALL : Text := Text.of "function_call"

def Item.isCall (item : Item) : Bool := item.type = FUNCTION_CALL

/-- `item.get("call_id") or item.get("id", "")` -/
def Item.callId (item : Item) : Text := if item.call_id ≠ [] then item.call_id else item.id

/-- The final response: what it lists as its output, and the tokens in and out, where it has a
usage. -/
structure Response where
  output : List Item
  usage : Option (ℤ × ℤ)
  deriving DecidableEq

/-- An event of the stream, by its type. -/
inductive Event where
  | textDelta (delta : Text)
  | itemAdded (output_index : ℕ) (item : Item)
  | argumentsDelta (output_index : ℕ) (delta : Text)
  | itemDone (item : Item)
  | completed (response : Response)
  | other
  deriving DecidableEq

-- `json.loads` of an event, with what is read of it
variable (loads : Text → Option Event)

/-- `line.rstrip("\r\n")` -/
def rstripEol (t : Text) : Text := t.rdropWhile fun c => c = Text.CR || c = Text.LF

/-- The events of the lines that come, up to `[DONE]`. -/
def events : List Bytes → List Event
  | [] => []
  | raw :: upstream =>
    let line := rstripEol (decodeUtf8 raw)
    if DATA.isPrefixOf line then
      let data_str := line.drop 6
      if data_str = DONE then []
      else
        match loads data_str with
        | none => events upstream
        | some ev => ev :: events upstream
    else events upstream

/-! ### The translation -/

/-- What every chunk of an answer is named by. -/
structure Ident where
  id : Text
  created : ℤ
  model : Text

/-- A chunk of the one choice. -/
def Ident.chunk (who : Ident) (delta : Delta) (finish_reason : Option Text)
    (usage : Option Usage) : Chunk :=
  ⟨some who.id, some who.created, some who.model, [⟨0, delta, finish_reason⟩], usage⟩

def Ident.initial (who : Ident) : Chunk :=
  who.chunk ⟨some (Text.of "assistant"), some [], []⟩ none none

def TOOL_CALLS : Text := Text.of "tool_calls"

def STOP : Text := Text.of "stop"

/-- The finish reason that the final response tells. -/
def Response.reason (r : Response) : Text :=
  if r.output.any Item.isCall then TOOL_CALLS else STOP

/-- The usage as a chat completion has it. -/
def Response.chatUsage (r : Response) : Option Usage :=
  r.usage.map fun u => ⟨u.1, u.2, u.1 + u.2, none, none⟩

/-- The chunks of the events, with the chat's indexes of the output's. -/
def translate (who : Ident) : List (ℕ × ℕ) → List Event → List Chunk
  | _, [] => []
  | indexes, .textDelta delta :: evs =>
    who.chunk ⟨none, some delta, []⟩ none none :: translate who indexes evs
  | indexes, .itemAdded output_index item :: evs =>
    if item.isCall then
      let chat_index := indexes.length
      who.chunk ⟨none, none, [⟨chat_index, some item.callId, some (Text.of "function"),
        some item.name, some []⟩]⟩ none none ::
        translate who (Assoc.set indexes output_index chat_index) evs
    else translate who indexes evs
  | indexes, .argumentsDelta output_index delta :: evs =>
    let chat_index := (Assoc.get indexes output_index).getD output_index
    who.chunk ⟨none, none, [⟨chat_index, none, none, none, some delta⟩]⟩ none none ::
      translate who indexes evs
  | _, .completed response :: _ =>
    [who.chunk ⟨none, none, []⟩ (some response.reason) response.chatUsage]
  | indexes, .itemDone _ :: evs => translate who indexes evs
  | indexes, .other :: evs => translate who indexes evs

/-- `_iter_responses_as_completions_sse`, by its chunks. -/
def stream (who : Ident) (evs : List Event) : List Chunk := who.initial :: translate who [] evs

/-- The answer of a client that did not ask for a stream; none where the stream was cut. -/
def buffered (chunks : List Chunk) : Option ChunkFold.Completion :=
  let whole := chunks.foldl ChunkFold.event .new
  if whole.finished then some whole.completion else none

/-! ### The fold of one choice -/

/-- A fold that has taken in chunks of one choice. -/
def Ident.held (who : Ident) (usage : Option Usage) (s : Slot) : ChunkFold :=
  ⟨⟨some who.id, some who.created, some who.model⟩, [(0, s)], usage⟩

variable {who : Ident}

variable (usage : Option Usage) (role : Text) (text : List Text) (calls : List (ℕ × Call))
  (finish : Text)

theorem event_text (delta : Text) :
    (who.held usage ⟨role, text, calls, finish⟩).event
        (who.chunk ⟨none, some delta, []⟩ none none) =
      who.held usage ⟨role, text ++ [delta], calls, finish⟩ := rfl

theorem event_part (part : CallPart) :
    (who.held usage ⟨role, text, calls, finish⟩).event
        (who.chunk ⟨none, none, [part]⟩ none none) =
      who.held usage ⟨role, text, ChunkFold.call calls part, finish⟩ := by
  show who.held usage ⟨role, text ++ [], ChunkFold.call calls part, finish⟩ = _
  rw [List.append_nil]

theorem event_final {reason : Text} (hreason : reason ≠ []) (usage' : Option Usage) :
    (who.held usage ⟨role, text, calls, finish⟩).event
        (who.chunk ⟨none, none, []⟩ (some reason) usage') =
      who.held (usage'.or usage) ⟨role, text, calls, reason⟩ := by
  show who.held (usage'.or usage) ⟨role, text ++ [], calls,
    if reason ≠ [] then reason else finish⟩ = _
  rw [List.append_nil, if_pos hreason]

theorem event_initial :
    ChunkFold.new.event who.initial = who.held none ⟨Text.of "assistant", [[]], [], []⟩ := rfl

/-! ### What a stream says -/

/-- The text of the deltas. -/
def textOf : List Event → Text
  | [] => []
  | .textDelta delta :: evs => delta ++ textOf evs
  | .completed _ :: _ => []
  | .itemAdded _ _ :: evs | .argumentsDelta _ _ :: evs | .itemDone _ :: evs | .other :: evs =>
    textOf evs

/-- The arguments that come for an output, joined. -/
def argumentsOf (output_index : ℕ) : List Event → Text
  | [] => []
  | .argumentsDelta i delta :: evs =>
    if i = output_index then delta ++ argumentsOf output_index evs
    else argumentsOf output_index evs
  | .completed _ :: _ => []
  | .itemAdded _ _ :: evs | .textDelta _ :: evs | .itemDone _ :: evs | .other :: evs =>
    argumentsOf output_index evs

/-- The calls in the order of the output, each with the arguments that come for it. -/
def callsOf : List Event → List Call
  | [] => []
  | .itemAdded i item :: evs =>
    if item.isCall then
      ⟨item.callId, Text.of "function", item.name, argumentsOf i evs⟩ :: callsOf evs
    else callsOf evs
  | .completed _ :: _ => []
  | .textDelta _ :: evs | .argumentsDelta _ _ :: evs | .itemDone _ :: evs | .other :: evs =>
    callsOf evs

/-- The final response. -/
def responseOf : List Event → Option Response
  | [] => none
  | .completed response :: _ => some response
  | .itemAdded _ _ :: evs | .textDelta _ :: evs | .argumentsDelta _ _ :: evs | .itemDone _ :: evs
  | .other :: evs => responseOf evs

/-- **A stream in order**, with the calls that it has announced: a call comes under a later output
index than those before, arguments come for a call that was announced, and the stream ends with
its final response. -/
inductive WellFormed : List ℕ → List Event → Prop
  | textDelta {announced delta evs} (rest : WellFormed announced evs) :
      WellFormed announced (.textDelta delta :: evs)
  | call {announced i item evs} (isCall : item.isCall = true) (later : ∀ j ∈ announced, j < i)
      (rest : WellFormed (announced ++ [i]) evs) : WellFormed announced (.itemAdded i item :: evs)
  | item {announced i item evs} (noCall : item.isCall = false) (rest : WellFormed announced evs) :
      WellFormed announced (.itemAdded i item :: evs)
  | argumentsDelta {announced i delta evs} (known : i ∈ announced)
      (rest : WellFormed announced evs) : WellFormed announced (.argumentsDelta i delta :: evs)
  | itemDone {announced item evs} (rest : WellFormed announced evs) :
      WellFormed announced (.itemDone item :: evs)
  | other {announced evs} (rest : WellFormed announced evs) :
      WellFormed announced (.other :: evs)
  | completed {announced response evs} : WellFormed announced (.completed response :: evs)

/-! ### Following a stream -/

/-- The chat's indexes of the calls that were announced. -/
def indexesOf (announced : List ℕ) : List (ℕ × ℕ) := announced.mapIdx fun c i => (i, c)

theorem length_indexesOf (announced : List ℕ) : (indexesOf announced).length = announced.length :=
  List.length_mapIdx

theorem indexesOf_concat (announced : List ℕ) (i : ℕ) :
    indexesOf (announced ++ [i]) = indexesOf announced ++ [(i, announced.length)] := by
  unfold indexesOf
  rw [List.mapIdx_append, List.mapIdx_singleton, Nat.zero_add]

/-- An output index has the place at which it was announced. -/
theorem get_indexesOf (announced : List ℕ) (i : ℕ) :
    Assoc.get (indexesOf announced) i =
      if i ∈ announced then some (announced.idxOf i) else none := by
  induction announced using List.reverseRecOn with
  | nil => rfl
  | append_singleton l j ih =>
    rw [indexesOf_concat, Assoc.get_append, ih, Assoc.get_cons, Assoc.get_nil]
    by_cases hl : i ∈ l
    · rw [if_pos hl, if_pos (List.mem_append_left _ hl), List.idxOf_append_of_mem hl]
      rfl
    · rw [if_neg hl, Option.none_or]
      by_cases hj : j = i
      · subst hj
        rw [if_pos rfl, if_pos (List.mem_append_right _ List.mem_cons_self),
          List.idxOf_append_of_notMem hl, List.idxOf_cons_self, Nat.add_zero]
      · rw [if_neg hj, if_neg fun h => (List.mem_append.mp h).elim hl fun h =>
          hj (List.mem_singleton.mp h).symm]

theorem set_indexesOf {announced : List ℕ} {i : ℕ} (hi : i ∉ announced) :
    Assoc.set (indexesOf announced) i announced.length = indexesOf (announced ++ [i]) := by
  rw [Assoc.set_of_get_none (by rw [get_indexesOf, if_neg hi]), indexesOf_concat]

/-- A call with more arguments. -/
def Call.extend (call : Call) (arguments : Text) : Call :=
  { call with arguments := call.arguments ++ arguments }

theorem Call.extend_nil (call : Call) : call.extend [] = call := by
  unfold extend
  rw [List.append_nil]

theorem Call.extend_extend (call : Call) (a b : Text) :
    (call.extend a).extend b = call.extend (a ++ b) := by
  unfold extend
  dsimp only
  rw [List.append_assoc]

theorem orElse_nil (t : Text) : orElse (some t) [] = t := by
  show (if t ≠ [] then t else []) = t
  split
  · rfl
  · next h => exact (not_not.mp h).symm

/-- A call under the next index is put behind the others. -/
theorem call_new (calls : List Call) (id name : Text) :
    ChunkFold.call (Assoc.numbered calls)
        ⟨calls.length, some id, some (Text.of "function"), some name, some []⟩ =
      Assoc.numbered (calls ++ [⟨id, Text.of "function", name, []⟩]) := by
  have hnew : Assoc.get (Assoc.numbered calls) calls.length = none := by
    rw [Assoc.get_numbered, List.getElem?_eq_none (Nat.le_refl _)]
  unfold ChunkFold.call
  dsimp only
  rw [hnew, Assoc.set_numbered_length, Option.getD_none, orElse_nil]
  rfl

/-- Arguments come to the last call. -/
theorem call_last (calls : List Call) (call : Call) (delta : Text) :
    ChunkFold.call (Assoc.numbered (calls ++ [call]))
        ⟨calls.length, none, none, none, some delta⟩ =
      Assoc.numbered (calls ++ [call.extend delta]) := by
  have hlt : calls.length < (calls ++ [call]).length := by
    rw [List.length_append, List.length_singleton]
    exact Nat.lt_succ_self _
  have hheld : Assoc.get (Assoc.numbered (calls ++ [call])) calls.length = some call := by
    rw [Assoc.get_numbered, List.getElem?_concat_length]
  unfold ChunkFold.call
  dsimp only
  rw [hheld, Option.getD_some, Assoc.set_numbered hlt, List.set_append_right _ _ (Nat.le_refl _),
    Nat.sub_self]
  show Assoc.numbered (calls ++ [⟨call.id, call.type, call.name ++ [], call.arguments ++ delta⟩]) =
    _
  rw [List.append_nil]
  rfl

/-- Arguments come to the call that was announced under their index. -/
theorem call_arguments {opened : List (ℕ × Call)} (hnodup : (opened.map Prod.fst).Nodup) {i : ℕ}
    (hi : i ∈ opened.map Prod.fst) (delta : Text) :
    ChunkFold.call (Assoc.numbered (opened.map Prod.snd))
        ⟨(opened.map Prod.fst).idxOf i, none, none, none, some delta⟩ =
      Assoc.numbered (opened.map fun p => if p.1 = i then p.2.extend delta else p.2) := by
  have hlt : (opened.map Prod.fst).idxOf i < opened.length := by
    have := List.idxOf_lt_length_iff.mpr hi
    rwa [List.length_map] at this
  have hplace : opened[(opened.map Prod.fst).idxOf i].1 = i := by
    have := List.getElem_idxOf (List.idxOf_lt_length_iff.mpr hi)
    rwa [List.getElem_map] at this
  have hheld : Assoc.get (Assoc.numbered (opened.map Prod.snd)) ((opened.map Prod.fst).idxOf i) =
      some opened[(opened.map Prod.fst).idxOf i].2 := by
    rw [Assoc.get_numbered, List.getElem?_map, List.getElem?_eq_getElem hlt]
    rfl
  have hlt' : (opened.map Prod.fst).idxOf i < (opened.map Prod.snd).length := by
    rwa [List.length_map]
  unfold ChunkFold.call
  dsimp only
  rw [hheld, Option.getD_some, Assoc.set_numbered hlt']
  congr 1
  -- any other call was announced under another index
  refine List.ext_getElem? fun k => ?_
  rw [List.getElem?_set, List.getElem?_map, List.getElem?_map]
  by_cases hk : (opened.map Prod.fst).idxOf i = k
  · subst hk
    rw [if_pos rfl, if_pos hlt', List.getElem?_eq_getElem hlt]
    show _ = some (if _ then _ else _)
    rw [if_pos hplace]
    show some (Call.mk _ _ _ _) = some (Call.mk _ _ _ _)
    rw [Option.getD_none, List.append_nil]
    rfl
  · rw [if_neg hk]
    cases hget : opened[k]? with
    | none => rfl
    | some p =>
      have hne : p.1 ≠ i := by
        rintro rfl
        obtain ⟨hkl, rfl⟩ := List.getElem?_eq_some_iff.mp hget
        have hkl' : k < (opened.map Prod.fst).length := by rwa [List.length_map]
        have hplace' : (opened.map Prod.fst)[k] = opened[k].1 := List.getElem_map _
        exact hk (hplace' ▸ hnodup.idxOf_getElem k hkl')
      show some p.2 = some (if p.1 = i then _ else _)
      rw [if_neg hne]

/-- The call that an item announces. -/
def Item.announced (item : Item) : Call := ⟨item.callId, Text.of "function", item.name, []⟩

/-- What the calls that are open come to with the events that are left. -/
def closed (opened : List (ℕ × Call)) (evs : List Event) : List Call :=
  opened.map fun p => p.2.extend (argumentsOf p.1 evs)

theorem Response.reason_ne_nil (r : Response) : r.reason ≠ [] := by
  unfold reason
  split <;> decide

/-- **A stream in order** is folded event by event: the text grows by what is said, a call that is
announced is put behind the others, and its arguments come to it. -/
theorem fold_translate {announced : List ℕ} {evs : List Event} (h : WellFormed announced evs)
    {opened : List (ℕ × Call)} (hopened : opened.map Prod.fst = announced)
    (hnodup : announced.Nodup) (text : List Text) :
    ∃ text', text'.flatten = text.flatten ++ textOf evs ∧
      (translate who (indexesOf announced) evs).foldl ChunkFold.event
          (who.held none ⟨Text.of "assistant", text, Assoc.numbered (opened.map Prod.snd), []⟩) =
        who.held ((responseOf evs).bind Response.chatUsage)
          ⟨Text.of "assistant", text', Assoc.numbered (closed opened evs ++ callsOf evs),
            ((responseOf evs).map Response.reason).getD []⟩ := by
  induction h generalizing opened text with
  | @textDelta announced delta evs _ ih =>
    obtain ⟨text', htext, hfold⟩ := ih hopened hnodup (text ++ [delta])
    refine ⟨text', ?_, ?_⟩
    · rw [htext, List.flatten_append, List.flatten_singleton, List.append_assoc]
      rfl
    · rw [translate, List.foldl_cons, event_text]
      exact hfold
  | @call announced i item evs isCall later _ ih =>
    have hi : i ∉ announced := fun h => Nat.lt_irrefl i (later i h)
    have hopened' : (opened ++ [(i, item.announced)]).map Prod.fst = announced ++ [i] := by
      rw [List.map_append, hopened]
      rfl
    have hnodup' : (announced ++ [i]).Nodup :=
      List.nodup_append.mpr ⟨hnodup, List.nodup_singleton i, fun a ha b hb hab =>
        hi (List.mem_singleton.mp hb ▸ hab ▸ ha)⟩
    obtain ⟨text', htext, hfold⟩ := ih hopened' hnodup' text
    refine ⟨text', htext, ?_⟩
    have hlength : (opened.map Prod.snd).length = announced.length := by
      rw [← hopened, List.length_map, List.length_map]
    -- the call gets the next index, and is put behind the others
    have hcall : ChunkFold.call (Assoc.numbered (opened.map Prod.snd))
        ⟨announced.length, some item.callId, some (Text.of "function"), some item.name, some []⟩ =
          Assoc.numbered ((opened ++ [(i, item.announced)]).map Prod.snd) := by
      rw [← hlength, call_new, List.map_append]
      rfl
    have hclosed : closed (opened ++ [(i, item.announced)]) evs ++ callsOf evs =
        closed opened (.itemAdded i item :: evs) ++ callsOf (.itemAdded i item :: evs) := by
      rw [closed, List.map_append, callsOf, if_pos isCall, List.append_assoc]
      rfl
    rw [translate, if_pos isCall]
    dsimp only
    rw [List.foldl_cons, event_part, length_indexesOf, set_indexesOf hi, hcall, hfold, hclosed]
    rfl
  | @item announced i item evs noCall _ ih =>
    obtain ⟨text', htext, hfold⟩ := ih hopened hnodup text
    refine ⟨text', htext, ?_⟩
    rw [translate, if_neg (by rw [noCall]; exact Bool.false_ne_true), hfold, callsOf,
      if_neg (by rw [noCall]; exact Bool.false_ne_true)]
    rfl
  | @argumentsDelta announced i delta evs known _ ih =>
    have hopened' : (opened.map fun p => (p.1, if p.1 = i then p.2.extend delta else p.2)).map
        Prod.fst = announced := by
      rw [List.map_map]
      exact hopened
    obtain ⟨text', htext, hfold⟩ := ih hopened' hnodup text
    refine ⟨text', htext, ?_⟩
    have hcall := call_arguments (hopened ▸ hnodup) (hopened ▸ known) delta
    rw [hopened] at hcall
    rw [List.map_map] at hfold
    -- what came before the delta, the delta, and what comes behind it
    have hclosed : closed (opened.map fun p => (p.1, if p.1 = i then p.2.extend delta else p.2))
        evs = closed opened (.argumentsDelta i delta :: evs) := by
      unfold closed
      rw [List.map_map]
      refine List.map_congr_left fun p _ => ?_
      show Call.extend (if p.1 = i then p.2.extend delta else p.2) (argumentsOf p.1 evs) =
        p.2.extend (if i = p.1 then delta ++ argumentsOf p.1 evs else argumentsOf p.1 evs)
      by_cases hp : p.1 = i
      · rw [if_pos hp, if_pos hp.symm, Call.extend_extend]
      · rw [if_neg hp, if_neg (Ne.symm hp)]
    rw [translate, get_indexesOf, if_pos known]
    rw [Option.getD_some, List.foldl_cons, event_part, hcall, ← hclosed]
    exact hfold
  | itemDone _ ih | other _ ih => exact ih hopened hnodup text
  | @completed announced response evs =>
    refine ⟨text, (List.append_nil _).symm, ?_⟩
    have hclosed : closed opened (.completed response :: evs) = opened.map Prod.snd :=
      List.map_congr_left fun p _ => p.2.extend_nil
    rw [translate, List.foldl_cons, List.foldl_nil, event_final _ _ _ _ _ response.reason_ne_nil,
      callsOf, List.append_nil, Option.or_none, hclosed]
    rfl

theorem WellFormed.responseOf {announced : List ℕ} {evs : List Event}
    (h : WellFormed announced evs) : ∃ response, responseOf evs = some response := by
  induction h with
  | completed => exact ⟨_, rfl⟩
  | textDelta _ ih | call _ _ _ ih | item _ _ ih | argumentsDelta _ _ ih | itemDone _ ih
  | other _ ih => exact ih

/-! ### The whole way -/

/-- The answer of a fold of one choice. -/
theorem completion_held (usage : Option Usage) (text : List Text) (calls : List Call)
    {role finish : Text} (hrole : role ≠ []) (hfinish : finish ≠ []) :
    (who.held usage ⟨role, text, Assoc.numbered calls, finish⟩).completion =
      ⟨who.id, who.created, who.model, [⟨0, ⟨role,
        if text.flatten ≠ [] ∨ calls = [] then some text.flatten else none, calls⟩, finish⟩],
        usage⟩ := by
  have hanswer : ChunkFold.answer (0, ⟨role, text, Assoc.numbered calls, finish⟩) =
      ⟨0, ⟨role, if text.flatten ≠ [] ∨ calls = [] then some text.flatten else none, calls⟩,
        finish⟩ := by
    unfold ChunkFold.answer
    dsimp only
    rw [Assoc.sorted_numbered, Assoc.map_snd_numbered, if_pos hrole, if_pos hfinish]
  show ChunkFold.Completion.mk _ _ _ [ChunkFold.answer _] _ = _
  rw [hanswer]
  rfl

/-- **Nothing is lost on the way**: the chunks of a stream in order, written as lines and read by a
fold, make one answer with all of the text, every call with its arguments, and the usage that the
final response tells. Calls without text have a content of null. -/
theorem fold_stream {loads : Text → Option Event} {loadsChunk : Text → Option Chunk}
    {dumps : Chunk → Text} {upstream : List Bytes} (hwf : WellFormed [] (events loads upstream))
    (hwire : ∀ c ∈ stream who (events loads upstream), Wire loadsChunk dumps c) :
    ((frames dumps (stream who (events loads upstream))).foldl (ChunkFold.add loadsChunk)
        .new).completion = {
      id := who.id
      created := who.created
      model := who.model
      choices := [{
        index := 0
        message := {
          role := Text.of "assistant"
          content :=
            if textOf (events loads upstream) ≠ [] ∨ callsOf (events loads upstream) = [] then
              some (textOf (events loads upstream))
            else none
          tool_calls := callsOf (events loads upstream) }
        finish_reason := ((responseOf (events loads upstream)).map Response.reason).getD STOP }]
      usage := (responseOf (events loads upstream)).bind Response.chatUsage } := by
  generalize events loads upstream = evs at *
  obtain ⟨text', htext, hfold⟩ := @fold_translate who [] evs hwf [] rfl .nil [[]]
  have hrun : (stream who evs).foldl ChunkFold.event .new =
      who.held ((responseOf evs).bind Response.chatUsage) ⟨Text.of "assistant", text',
        Assoc.numbered (callsOf evs), ((responseOf evs).map Response.reason).getD []⟩ := by
    rw [stream, List.foldl_cons, event_initial]
    exact hfold
  obtain ⟨response, hresponse⟩ := hwf.responseOf
  have hreason : (((responseOf evs).map Response.reason).getD []) ≠ [] := by
    rw [hresponse]
    exact response.reason_ne_nil
  rw [addAll_frames hwire, hrun, completion_held _ _ _ (by decide) hreason, htext]
  show _ = ChunkFold.Completion.mk _ _ _ _ _
  rw [hresponse]
  rfl

/-! A call without a text, as its stream is written. -/

def WHO : Ident := ⟨Text.of "c", 0, Text.of "m"⟩

def LOOK : Item := ⟨FUNCTION_CALL, Text.of "call_1", Text.of "fc_1", Text.of "look"⟩

/-- What is read of the texts of a table. -/
def readOf {α : Type} (table : List (Text × α)) (t : Text) : Option α := table.lookup t

/-- The text that a table has for a value. -/
def textFor {α : Type} [DecidableEq α] (table : List (Text × α)) (a : α) : Text :=
  match table.find? (·.2 = a) with
  | some (t, _) => t
  | none => []

def ADDED : Text :=
  Text.of "\x7b\"type\":\"response.output_item.added\",\"output_index\":0,\"item\":" ++
    Text.of "\x7b\"type\":\"function_call\",\"call_id\":\"call_1\",\"id\":\"fc_1\"," ++
    Text.of "\"name\":\"look\"\x7d\x7d"

def ARGUMENTS : Text :=
  Text.of "\x7b\"type\":\"response.function_call_arguments.delta\"," ++
    Text.of "\"output_index\":0,\"delta\":\"[]\"\x7d"

def COMPLETED : Text :=
  Text.of "\x7b\"type\":\"response.completed\",\"response\":\x7b\"output\":[]," ++
    Text.of "\"usage\":\x7b\"input_tokens\":3,\"output_tokens\":2\x7d\x7d\x7d"

def EVENTS : List (Text × Event) :=
  [(ADDED, .itemAdded 0 LOOK), (ARGUMENTS, .argumentsDelta 0 (Text.of "[]")),
    (COMPLETED, .completed ⟨[], some (3, 2)⟩)]

/-- The text of a chunk of the answer. -/
def written (delta behind : String) : Text :=
  Text.of "\x7b\"id\":\"c\",\"object\":\"chat.completion.chunk\",\"created\":0,\"model\":\"m\"," ++
    Text.of "\"choices\":[\x7b\"index\":0,\"delta\":" ++ Text.of delta ++
    Text.of ",\"finish_reason\":" ++ Text.of behind

def CHUNKS : List (Text × Chunk) :=
  [(written "\x7b\"role\":\"assistant\",\"content\":\"\"\x7d" "null\x7d]\x7d", WHO.initial),
    (written ("\x7b\"tool_calls\":[\x7b\"index\":0,\"id\":\"call_1\",\"type\":\"function\"," ++
        "\"function\":\x7b\"name\":\"look\",\"arguments\":\"\"\x7d\x7d]\x7d") "null\x7d]\x7d",
      WHO.chunk ⟨none, none, [⟨0, some (Text.of "call_1"), some (Text.of "function"),
        some (Text.of "look"), some []⟩]⟩ none none),
    (written ("\x7b\"tool_calls\":[\x7b\"index\":0," ++
        "\"function\":\x7b\"arguments\":\"[]\"\x7d\x7d]\x7d") "null\x7d]\x7d",
      WHO.chunk ⟨none, none, [⟨0, none, none, none, some (Text.of "[]")⟩]⟩ none none),
    (written "\x7b\x7d" ("\"stop\"\x7d],\"usage\":\x7b\"prompt_tokens\":3," ++
        "\"completion_tokens\":2,\"total_tokens\":5\x7d\x7d"),
      WHO.chunk ⟨none, none, []⟩ (some STOP) (some ⟨3, 2, 5, none, none⟩))]

/-- The lines of the stream. -/
def UPSTREAM : List Bytes :=
  EVENTS.flatMap fun p => [(encodeUtf8 (DATA ++ p.1 ++ [Text.LF])).getD [], [0x0A]]

theorem events_upstream : events (readOf EVENTS) UPSTREAM = EVENTS.map Prod.snd := by
  decide +kernel

theorem upstream_wellFormed : WellFormed [] (events (readOf EVENTS) UPSTREAM) := by
  rw [events_upstream]
  exact .call (by decide) (fun _ h => nomatch h) (.argumentsDelta List.mem_cons_self .completed)

theorem upstream_wire : ∀ c ∈ stream WHO (events (readOf EVENTS) UPSTREAM),
    Wire (readOf CHUNKS) (textFor CHUNKS) c := by
  have hstream : stream WHO (events (readOf EVENTS) UPSTREAM) = CHUNKS.map Prod.snd := by
    decide +kernel
  have hall : (CHUNKS.all fun p => textFor CHUNKS p.2 = p.1 ∧ readOf CHUNKS p.1 = some p.2 ∧
      p.1.all isPrinted = true ∧ Text.strip p.1 = p.1 ∧ p.1 ≠ [] ∧ p.1 ≠ DONE) = true := by
    decide +kernel
  rw [hstream]
  intro c hc
  obtain ⟨p, hp, rfl⟩ := List.mem_map.mp hc
  obtain ⟨htext, hread, hprinted, hflush, hne, hdone⟩ :=
    of_decide_eq_true (List.all_eq_true.mp hall p hp)
  refine ⟨?_, ?_, ?_⟩ <;> rw [htext]
  · exact plain_of_printed hprinted hflush hne
  · exact hdone
  · exact hread

theorem fold_stream_look :
    WellFormed [] (events (readOf EVENTS) UPSTREAM) ∧
      (∀ c ∈ stream WHO (events (readOf EVENTS) UPSTREAM),
        Wire (readOf CHUNKS) (textFor CHUNKS) c) ∧
      ((frames (textFor CHUNKS) (stream WHO (events (readOf EVENTS) UPSTREAM))).foldl
          (ChunkFold.add (readOf CHUNKS)) .new).completion = {
        id := WHO.id
        created := WHO.created
        model := WHO.model
        choices := [{
          index := 0
          message := {
            role := Text.of "assistant"
            content :=
              if textOf (events (readOf EVENTS) UPSTREAM) ≠ [] ∨
                  callsOf (events (readOf EVENTS) UPSTREAM) = [] then
                some (textOf (events (readOf EVENTS) UPSTREAM))
              else none
            tool_calls := callsOf (events (readOf EVENTS) UPSTREAM) }
          finish_reason :=
            ((responseOf (events (readOf EVENTS) UPSTREAM)).map Response.reason).getD STOP }]
        usage := (responseOf (events (readOf EVENTS) UPSTREAM)).bind Response.chatUsage } :=
  ⟨upstream_wellFormed, upstream_wire, fold_stream upstream_wellFormed upstream_wire⟩

/-- An answer of calls alone has no text in its content, not an empty one. -/
theorem look_content :
    textOf (events (readOf EVENTS) UPSTREAM) = [] ∧
      ((frames (textFor CHUNKS) (stream WHO (events (readOf EVENTS) UPSTREAM))).foldl
        (ChunkFold.add (readOf CHUNKS)) .new).completion.choices.map (·.message.content) =
          [none] := by
  rw [addAll_frames upstream_wire, events_upstream]
  decide +kernel

/-! ### The finish reason -/

/-- A function call in the events that are read: in an item of its own, or in the final output. -/
def carries : List Event → Bool
  | [] => false
  | .itemAdded _ item :: evs | .itemDone item :: evs => item.isCall || carries evs
  | .completed response :: _ => response.output.any Item.isCall
  | .textDelta _ :: evs | .argumentsDelta _ _ :: evs | .other :: evs => carries evs

/-- A function call in the final output. -/
def lists (evs : List Event) : Bool :=
  (responseOf evs).any fun response => response.output.any Item.isCall

/-- The finish reason that a client of the stream reads. -/
def finishReason (chunks : List Chunk) : Option Text :=
  (chunks.flatMap Chunk.choices).findSome? Choice.finish_reason

/-- The finish reason of the answer that is not streamed. -/
def bufferedReason (chunks : List Chunk) : Option Text :=
  (buffered chunks).bind fun whole => whole.choices.head?.map (·.finish_reason)

/-- A function call in an item of the stream. -/
def itemCalls : List Event → Bool
  | [] => false
  | .itemAdded _ item :: evs | .itemDone item :: evs => item.isCall || itemCalls evs
  | .completed _ :: _ => false
  | .textDelta _ :: evs | .argumentsDelta _ _ :: evs | .other :: evs => itemCalls evs

theorem carries_eq (evs : List Event) : carries evs = (itemCalls evs || lists evs) := by
  induction evs with
  | nil => rfl
  | cons ev evs ih =>
    cases ev with
    | itemAdded | itemDone => exact (congrArg _ ih).trans (Bool.or_assoc _ _ _).symm
    | textDelta | argumentsDelta | other => exact ih
    | completed => rfl

theorem finishReason_chunk (delta : Delta) (finish_reason : Option Text) (usage : Option Usage)
    (chunks : List Chunk) :
    finishReason (who.chunk delta finish_reason usage :: chunks) =
      finish_reason.or (finishReason chunks) := by
  cases finish_reason <;> rfl

/-- The stream tells the reason of the final response. -/
theorem finishReason_translate (indexes : List (ℕ × ℕ)) (evs : List Event) :
    finishReason (translate who indexes evs) = (responseOf evs).map Response.reason := by
  induction evs generalizing indexes with
  | nil => rfl
  | cons ev evs ih =>
    cases ev with
    | textDelta | argumentsDelta =>
      rw [translate, finishReason_chunk]
      exact ih _
    | itemAdded i item =>
      rw [translate]
      split
      · rw [finishReason_chunk]
        exact ih _
      · exact ih _
    | completed response => rfl
    | itemDone | other => exact ih indexes

theorem finishReason_stream (evs : List Event) :
    finishReason (stream who evs) = (responseOf evs).map Response.reason :=
  (finishReason_chunk _ _ _ _).trans (finishReason_translate [] evs)

/-- And so does the fold of any stream. -/
theorem fold_reason (indexes : List (ℕ × ℕ)) (evs : List Event) (usage : Option Usage) (s : Slot)
    (hrole : s.role ≠ []) :
    ∃ usage' s', (translate who indexes evs).foldl ChunkFold.event (who.held usage s) =
        who.held usage' s' ∧ s'.role ≠ [] ∧
      s'.finish = ((responseOf evs).map Response.reason).getD s.finish := by
  obtain ⟨role, text, calls, finish⟩ := s
  induction evs generalizing indexes usage text calls with
  | nil => exact ⟨usage, _, rfl, hrole, rfl⟩
  | cons ev evs ih =>
    cases ev with
    | textDelta delta =>
      rw [translate, List.foldl_cons, event_text]
      exact ih _ _ _ _ hrole
    | itemAdded i item =>
      rw [translate]
      split
      · dsimp only
        rw [List.foldl_cons, event_part]
        exact ih _ _ _ _ hrole
      · exact ih _ _ _ _ hrole
    | argumentsDelta i delta =>
      rw [translate]
      dsimp only
      rw [List.foldl_cons, event_part]
      exact ih _ _ _ _ hrole
    | completed response =>
      rw [translate, List.foldl_cons, List.foldl_nil, event_final _ _ _ _ _ response.reason_ne_nil]
      exact ⟨_, _, rfl, hrole, rfl⟩
    | itemDone | other => exact ih _ _ _ _ hrole

theorem bufferedReason_stream (evs : List Event) :
    bufferedReason (stream who evs) = (responseOf evs).map Response.reason := by
  obtain ⟨usage, s, hfold, -, hfinish⟩ :=
    @fold_reason who [] evs none ⟨Text.of "assistant", [[]], [], []⟩ (by decide)
  have hrun : (stream who evs).foldl ChunkFold.event .new = who.held usage s := by
    rw [stream, List.foldl_cons, event_initial]
    exact hfold
  unfold bufferedReason buffered
  rw [hrun]
  have hfinished : (who.held usage s).finished = decide (s.finish ≠ []) := Bool.or_false _
  have hreason : (who.held usage s).completion.choices.head?.map (·.finish_reason) =
      some (if s.finish ≠ [] then s.finish else STOP) := rfl
  dsimp only
  rw [hfinished]
  cases hresponse : responseOf evs with
  | none =>
    rw [hresponse] at hfinish
    rw [hfinish]
    rfl
  | some response =>
    rw [hresponse] at hfinish
    have hne : s.finish ≠ [] := hfinish ▸ response.reason_ne_nil
    rw [decide_eq_true hne, if_pos rfl, Option.bind_some, hreason, if_pos hne, hfinish]
    rfl

/-- **The finish reason tells the truth exactly when** the final output lists a function call, or
no item of the stream is one: the items themselves are not counted. -/
theorem finish_iff (evs : List Event) :
    ((finishReason (stream who evs) = some TOOL_CALLS ↔ carries evs = true) ∧
        (bufferedReason (stream who evs) = some TOOL_CALLS ↔ carries evs = true)) ↔
      lists evs = true ∨ itemCalls evs = false := by
  have hreason : (responseOf evs).map Response.reason = some TOOL_CALLS ↔ lists evs = true := by
    unfold lists
    cases responseOf evs with
    | none => exact ⟨fun h => (nomatch h), fun h => (nomatch h)⟩
    | some response =>
      show some response.reason = some TOOL_CALLS ↔ response.output.any Item.isCall = true
      unfold Response.reason
      cases response.output.any Item.isCall with
      | true => exact ⟨fun _ => rfl, fun _ => rfl⟩
      | false => exact ⟨fun h => absurd (Option.some.inj h) (by decide), fun h => (nomatch h)⟩
  rw [finishReason_stream, bufferedReason_stream, hreason, and_self, carries_eq]
  cases lists evs <;> cases itemCalls evs <;> decide

/-- The final response of the subscription backend lists nothing. -/
def SUBSCRIPTION : List Event :=
  [.itemAdded 0 LOOK, .argumentsDelta 0 (Text.of "[]"), .itemDone LOOK,
    .completed ⟨[], some (3, 2)⟩]

theorem subscription_stops : carries SUBSCRIPTION = true ∧
    finishReason (stream WHO SUBSCRIPTION) = some STOP ∧
    bufferedReason (stream WHO SUBSCRIPTION) = some STOP := by
  decide +kernel

/-! ### The Responses clients' own summary -/

end Translate
