import Caravan.Python.Int
import Caravan.Translate.Requests

/-!
# The calls and their results in a translated request

The calls of a chat history and their results go over in the order of the history, each with its
id: a result comes behind its call if it did so before. In an Anthropic request the results that
come together are one turn, and no result of them is lost, doubled or moved (`exchanges_kept`).

A call keeps its arguments, but for those that are no JSON: Anthropic takes an object, and of such
arguments an empty one is made.
-/

namespace Translate.Requests

open Python

/-! ### Calls and results -/

/-- A call, or the result of one. -/
inductive Exchange where
  | call (id name : Text) (arguments : Value)
  | result (id output : Text)

/-- The calls of a message, or its result. -/
def Message.exchanges (m : Message) : List Exchange :=
  match m.role with
  | .assistant => m.tool_calls.map fun tc => .call tc.id tc.name tc.arguments
  | .tool => [.result m.tool_call_id m.content.orEmpty.asJson]
  | .system | .developer | .user | .other => []

def Responses.Item.exchange? : Responses.Item → Option Exchange
  | functionCall _ call_id name arguments => some (.call call_id name arguments)
  | functionCallOutput call_id output => some (.result call_id output)
  | user _ | assistant _ => none

def Anthropic.Block.exchange? : Anthropic.Block → Option Exchange
  | toolUse id name input => some (.call id name input)
  | toolResult tool_use_id content => some (.result tool_use_id content)
  | text _ | image _ => none

def Anthropic.Turn.exchanges (turn : Anthropic.Turn) : List Exchange :=
  match turn.content with
  | .text _ => []
  | .blocks bs => bs.filterMap Anthropic.Block.exchange?

/-- A call with its arguments read. -/
def Exchange.parsed (loads : Text → Option Value) : Exchange → Exchange
  | call id name arguments => call id name (Anthropic.input loads arguments)
  | result id output => result id output

/-- Every result comes behind a call with its id, or one with an id that was asked before. -/
def answered : List Text → List Exchange → Bool
  | _, [] => true
  | asked, .call id _ _ :: es => answered (id :: asked) es
  | asked, .result id _ :: es => id ∈ asked && answered asked es

/-- A run of tool results in a history: there is none right before it, and none right behind. -/
structure Run (pre run post : List Message) : Prop where
  filled : run ≠ []
  tools : ∀ m ∈ run, m.role = .tool
  before : ∀ m ∈ pre.getLast?, m.role ≠ .tool
  behind : ∀ m ∈ post.head?, m.role ≠ .tool

variable {I : Interp} {loads : Text → Option Value}

theorem answered_parsed (asked : List Text) (es : List Exchange) :
    answered asked (es.map (Exchange.parsed loads)) = answered asked es := by
  induction es generalizing asked with
  | nil => rfl
  | cons e es ih =>
    cases e with
    | call id => exact ih (id :: asked)
    | result id => exact congrArg (decide (id ∈ asked) && ·) (ih asked)

/-! ### In their order -/

theorem Responses.exchanges_items (m : Message) :
    (Responses.items I m).filterMap Responses.Item.exchange? = m.exchanges := by
  unfold Responses.items Message.exchanges
  cases m.role with
  | user =>
    dsimp only
    split
    · rfl
    · split <;> rfl
  | assistant =>
    have hspoken : (Responses.spoken I m.content.orEmpty).filterMap
        Responses.Item.exchange? = [] := by
      unfold Responses.spoken
      split <;> rfl
    dsimp only
    rw [List.filterMap_append, hspoken, List.nil_append, List.filterMap_map]
    exact congrFun List.filterMap_eq_map m.tool_calls
  | tool | system | developer | other => rfl

theorem Responses.exchanges_body (ms : List Message) :
    (Responses.body I ms).input_msgs.filterMap Responses.Item.exchange? =
      ms.flatMap Message.exchanges := by
  rw [Responses.body, Responses.foldl_step, List.nil_append, List.filterMap_flatMap]
  exact List.flatMap_congr fun m _ => Responses.exchanges_items m

theorem Anthropic.exchanges_assistant {m : Message} (hm : m.role = .assistant) :
    (Anthropic.assistantTurn I loads m).exchanges =
      m.exchanges.map (Exchange.parsed loads) := by
  rw [Message.exchanges, hm]
  unfold Anthropic.assistantTurn
  dsimp only
  split
  · next hcalls =>
    rw [List.isEmpty_iff.mp hcalls]
    cases m.content.orEmpty with
    | text t => rfl
    | parts ps =>
      dsimp only
      split
      · rfl
      · -- texts are no exchanges
        show ((textsOf ps).map Anthropic.Block.text).filterMap Anthropic.Block.exchange? = []
        rw [List.filterMap_map]
        exact List.filterMap_eq_nil_iff.mpr fun _ _ => rfl
  · show (Anthropic.beside I m.content.orEmpty ++ m.tool_calls.map
      (Anthropic.toolUse loads)).filterMap Anthropic.Block.exchange? = _
    have hbeside : (Anthropic.beside I m.content.orEmpty).filterMap
        Anthropic.Block.exchange? = [] := by
      unfold Anthropic.beside
      split <;> rfl
    rw [List.filterMap_append, hbeside, List.nil_append, List.filterMap_map, List.map_map]
    exact congrFun List.filterMap_eq_map m.tool_calls

theorem Anthropic.exchanges_user (content : Content) :
    (Anthropic.userTurn content).exchanges = [] := by
  cases content with
  | text t => rfl
  | parts ps =>
    show (ps.filterMap Anthropic.block).filterMap Anthropic.Block.exchange? = []
    rw [List.filterMap_filterMap]
    refine List.filterMap_eq_nil_iff.mpr fun p _ => ?_
    unfold Anthropic.block
    split
    · rfl
    · split <;> rfl

theorem Anthropic.exchanges_results {run : List Message} (hrun : ∀ m ∈ run, m.role = .tool) :
    (Anthropic.results run).exchanges =
      run.flatMap fun m => m.exchanges.map (Exchange.parsed loads) := by
  show (run.map Anthropic.toolResult).filterMap Anthropic.Block.exchange? = _
  rw [List.filterMap_map]
  refine (congrFun List.filterMap_eq_map run).trans (List.map_eq_flatMap.trans ?_)
  refine List.flatMap_congr fun m hm => ?_
  rw [Message.exchanges, hrun m hm]
  rfl

theorem Anthropic.exchanges_body (ms : List Message) :
    (Anthropic.body I loads ms).anthropic_msgs.flatMap Anthropic.Turn.exchanges =
      (ms.flatMap Message.exchanges).map (Exchange.parsed loads) := by
  have hfollows : Anthropic.Follows I loads Anthropic.Turn.exchanges fun m =>
      m.exchanges.map (Exchange.parsed loads) := by
    refine ⟨fun run hrun => Anthropic.exchanges_results hrun,
      fun m hm => Anthropic.exchanges_assistant hm, fun m hm => ?_, fun m hm => ?_⟩
    · rw [Anthropic.exchanges_user, Message.exchanges, hm]
      rfl
    · rcases hm with hm | hm | hm <;> rw [Message.exchanges, hm] <;> rfl
  rw [List.map_flatMap]
  exact Anthropic.loop_flatMap hfollows ⟨none, []⟩ ms

/-! ### The runs of results -/

/-- No run goes over from one part to the other. -/
def Apart (pre post : List Message) : Prop :=
  ∀ a ∈ pre.getLast?, ∀ b ∈ post.head?, a.role = .tool → b.role ≠ .tool

theorem Apart.suffix {pre pre' post : List Message} (h : Apart (pre ++ pre') post) :
    Apart pre' post := by
  intro a ha
  refine h a ?_
  rw [List.getLast?_append, Option.mem_def.mp ha]
  rfl

/-- Messages may be gone through in parts, where no run goes over from one to the other. -/
theorem Anthropic.loop_append (st : Anthropic.State) {pre post : List Message}
    (h : Apart pre post) :
    Anthropic.loop I loads st (pre ++ post) =
      Anthropic.loop I loads (Anthropic.loop I loads st pre) post := by
  fun_induction Anthropic.loop I loads st pre with
  | case1 st => rfl
  | case2 st m ms hrole ih | case4 st m ms hrole ih | case5 st m ms hrole ih
  | case6 st m ms hrole ih | case7 st m ms hrole ih =>
    rw [← ih (@Apart.suffix [m] _ _ h), List.cons_append, Anthropic.loop, hrole]
  | case3 st m ms hrole ih =>
    rw [List.cons_append, Anthropic.loop, hrole]
    dsimp only
    rw [List.takeWhile_append, List.dropWhile_append]
    cases hrest : ms.dropWhile Anthropic.isTool with
    | nil =>
      -- the run goes on to the end of the first part, and no further
      have hall := List.dropWhile_eq_nil_iff.mp hrest
      have htake : ms.takeWhile Anthropic.isTool = ms := List.takeWhile_eq_self_iff.mpr hall
      have hlast : ∀ a ∈ (m :: ms).getLast?, a.role = .tool := by
        intro a ha
        rcases List.mem_cons.mp (List.mem_of_getLast? ha) with rfl | ha
        · exact hrole
        · exact Anthropic.isTool_iff.mp (hall a ha)
      have hpost : post.takeWhile Anthropic.isTool = [] ∧
          post.dropWhile Anthropic.isTool = post := by
        cases post with
        | nil => exact ⟨rfl, rfl⟩
        | cons b post =>
          have ha : (ms.getLast?.getD m) ∈ (m :: ms).getLast? := List.getLast?_cons
          have hb : ¬ Anthropic.isTool b = true := fun hb =>
            h _ ha b rfl (hlast _ ha) (Anthropic.isTool_iff.mp hb)
          exact ⟨List.takeWhile_cons_of_neg hb, List.dropWhile_cons_of_neg hb⟩
      rw [if_pos (by rw [htake]), if_pos List.isEmpty_nil, hpost.1, hpost.2, htake, List.append_nil,
        Anthropic.loop]
    | cons a rest =>
      have htake : (ms.takeWhile Anthropic.isTool).length ≠ ms.length := by
        intro heq
        have := congrArg List.length (List.takeWhile_append_dropWhile (p := Anthropic.isTool)
          (l := ms))
        rw [List.length_append, heq, hrest, List.length_cons] at this
        omega
      rw [if_neg htake, if_neg (by simp), ← hrest]
      refine ih (@Apart.suffix (m :: ms.takeWhile Anthropic.isTool) _ _ ?_)
      rwa [List.cons_append, List.takeWhile_append_dropWhile]

/-- The turns that are there are left as they are. -/
theorem Anthropic.loop_msgs (st : Anthropic.State) (ms : List Message) :
    (Anthropic.loop I loads st ms).anthropic_msgs =
      st.anthropic_msgs ++ (Anthropic.body I loads ms).anthropic_msgs := by
  -- by the recursion of the loop, whatever turns there are
  have hall : ∀ (st₀ : Anthropic.State) (ms : List Message) (st : Anthropic.State),
      (Anthropic.loop I loads st ms).anthropic_msgs =
        st.anthropic_msgs ++ (Anthropic.body I loads ms).anthropic_msgs := by
    intro st₀ ms
    induction st₀, ms using Anthropic.loop.induct I loads with
    | case1 _ =>
      intro st
      rw [Anthropic.body, Anthropic.loop, Anthropic.loop, List.append_nil]
    | case2 _ m ms hrole ih | case6 _ m ms hrole ih | case7 _ m ms hrole ih =>
      intro st
      rw [Anthropic.body, Anthropic.loop, Anthropic.loop, hrole]
      dsimp only
      rw [ih, ih ⟨_, []⟩]
      rfl
    | case3 _ m ms hrole ih | case4 _ m ms hrole ih | case5 _ m ms hrole ih =>
      intro st
      rw [Anthropic.body, Anthropic.loop, Anthropic.loop, hrole]
      dsimp only
      rw [ih, ih (Anthropic.State.add ⟨none, []⟩ _), ← List.append_assoc]
      rfl
  exact hall st ms st

/-- A run is one turn. -/
theorem Anthropic.loop_run (st : Anthropic.State) {run : List Message} (hne : run ≠ [])
    (hrun : ∀ m ∈ run, m.role = .tool) :
    Anthropic.loop I loads st run = st.add (Anthropic.results run) := by
  cases run with
  | nil => exact absurd rfl hne
  | cons m run =>
    obtain ⟨hm, hrun⟩ := List.forall_mem_cons.mp hrun
    have hall : ∀ m ∈ run, Anthropic.isTool m = true := fun m hm =>
      Anthropic.isTool_iff.mpr (hrun m hm)
    rw [Anthropic.loop, hm]
    dsimp only
    rw [List.takeWhile_eq_self_iff.mpr hall, List.dropWhile_eq_nil_iff.mpr hall, Anthropic.loop]

/-- **The results that come together** are one turn, between those of what comes before and
behind. -/
theorem Anthropic.body_run {pre run post : List Message} (h : Run pre run post) :
    (Anthropic.body I loads (pre ++ run ++ post)).anthropic_msgs =
      (Anthropic.body I loads pre).anthropic_msgs ++ Anthropic.results run ::
        (Anthropic.body I loads post).anthropic_msgs := by
  have hbefore : Apart pre run := fun a ha _ _ htool => absurd htool (h.before a ha)
  have hbehind : Apart (pre ++ run) post := fun _ _ b hb _ => h.behind b hb
  rw [Anthropic.body, Anthropic.loop_append _ hbehind, Anthropic.loop_append _ hbefore,
    Anthropic.loop_run _ h.filled h.tools, Anthropic.loop_msgs]
  exact List.append_assoc _ _ _

/-- **Calls keep their results**: both requests have the calls of the history with their ids, their
names and their arguments, and the results with their ids, in the order of the history; so a result
comes behind its call if it did. In the Anthropic request the arguments are read, and a run of
results is one turn, in its place. -/
theorem exchanges_kept (ms : List Message) :
    (Responses.body I ms).input_msgs.filterMap Responses.Item.exchange? =
        ms.flatMap Message.exchanges ∧
      (Anthropic.body I loads ms).anthropic_msgs.flatMap Anthropic.Turn.exchanges =
        (ms.flatMap Message.exchanges).map (Exchange.parsed loads) ∧
      (answered [] (ms.flatMap Message.exchanges) = true →
        answered [] ((Responses.body I ms).input_msgs.filterMap Responses.Item.exchange?) = true ∧
        answered [] ((Anthropic.body I loads ms).anthropic_msgs.flatMap
          Anthropic.Turn.exchanges) = true) ∧
      ∀ pre run post, ms = pre ++ run ++ post → Run pre run post →
        (Anthropic.body I loads ms).anthropic_msgs =
          (Anthropic.body I loads pre).anthropic_msgs ++ Anthropic.results run ::
            (Anthropic.body I loads post).anthropic_msgs := by
  refine ⟨Responses.exchanges_body ms, Anthropic.exchanges_body ms, fun h => ⟨?_, ?_⟩, ?_⟩
  · rw [Responses.exchanges_body]
    exact h
  · rw [Anthropic.exchanges_body, answered_parsed]
    exact h
  · rintro pre run post rfl h
    exact Anthropic.body_run h

/-! Two calls at once and their results, and a call whose arguments are no JSON. -/

def calling (calls : List (String × String)) : Message :=
  ⟨.assistant, .text [], calls.map fun c =>
    ⟨Text.of c.1, Text.of "look", .str (Text.of c.2)⟩, []⟩

def answering (id output : String) : Message :=
  ⟨.tool, .text (Text.of output), [], Text.of id⟩

/-- `json.loads` of an empty object, and of no other text. -/
def loadsEmpty (t : Text) : Option Value :=
  if t = Text.of "\x7b\x7d" then some (.dict []) else none

def ASKED : List Message := [calling [("a", "\x7b\x7d"), ("b", "\x7b\x7d")]]

def RUN : List Message := [answering "a" "here", answering "b" "there"]

theorem run_asked : Run ASKED RUN [] := by
  refine ⟨by decide, fun m hm => ?_, fun m hm => ?_, fun m hm => nomatch hm⟩
  · rcases List.mem_pair.mp hm with rfl | rfl <;> rfl
  · obtain rfl := Option.some.inj hm
    decide

theorem exchanges_kept_asked :
    answered [] ((ASKED ++ RUN ++ []).flatMap Message.exchanges) = true ∧
      answered [] ((Anthropic.body Interp.ascii loadsEmpty
        (ASKED ++ RUN ++ [])).anthropic_msgs.flatMap Anthropic.Turn.exchanges) = true ∧
      Run ASKED RUN [] ∧
      (Anthropic.body Interp.ascii loadsEmpty (ASKED ++ RUN ++ [])).anthropic_msgs =
        (Anthropic.body Interp.ascii loadsEmpty ASKED).anthropic_msgs ++
          Anthropic.results RUN :: (Anthropic.body Interp.ascii loadsEmpty []).anthropic_msgs := by
  have hanswered : answered [] ((ASKED ++ RUN ++ []).flatMap Message.exchanges) = true := by
    decide
  exact ⟨hanswered, ((exchanges_kept (ASKED ++ RUN ++ [])).2.2.1 hanswered).2, run_asked,
    (@exchanges_kept Interp.ascii loadsEmpty (ASKED ++ RUN ++ [])).2.2.2 _ _ _ rfl run_asked⟩

/-- Of arguments that are no JSON the Anthropic request does not tell which they were. -/
theorem arguments_lost :
    (Anthropic.body Interp.ascii loadsEmpty [calling [("a", "north")]]).anthropic_msgs.flatMap
        Anthropic.Turn.exchanges =
      [.call (Text.of "a") (Text.of "look") (.dict [])] ∧
    (Anthropic.body Interp.ascii loadsEmpty [calling [("a", "south")]]).anthropic_msgs.flatMap
        Anthropic.Turn.exchanges =
      [.call (Text.of "a") (Text.of "look") (.dict [])] ∧
    [calling [("a", "north")]].flatMap Message.exchanges =
      [.call (Text.of "a") (Text.of "look") (.str (Text.of "north"))] ∧
    [calling [("a", "south")]].flatMap Message.exchanges =
      [.call (Text.of "a") (Text.of "look") (.str (Text.of "south"))] ∧
    Text.of "north" ≠ Text.of "south" := by
  rw [Anthropic.exchanges_body, Anthropic.exchanges_body]
  exact ⟨rfl, rfl, rfl, rfl, by decide⟩

end Translate.Requests
