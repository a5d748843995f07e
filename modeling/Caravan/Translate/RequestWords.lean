import Caravan.Python.Int
import Caravan.Translate.Requests

/-!
# The words of a translated request

Every word of a chat request should stand in the request that it is translated to: what a system or
a developer says in the instructions, and the rest in the conversation, message by message.

The conversation keeps to that wherever a content is not printed as a list. The instructions do
not: each system message takes the place of the one before it, and a developer is not heard at all.
`keeps_iff` says exactly when nothing is lost.
-/

namespace Translate.Requests

open Python

/-! ### Words -/

def visible (c : CodePoint) : Bool := !isSpace c

/-- A text with more than blanks in it. -/
def hasWord (t : Text) : Bool := t.any visible

def Content.texts : Content → List Text
  | .text t => [t]
  | .parts ps => textsOf ps

namespace Message

variable (m : Message)

/-- The texts of a message that say something. -/
def words : List Text := m.content.texts.filter hasWord

def isSystem : Bool := m.role = .system

/-- What a message says for the instructions. -/
def instructs : List Text := if m.role = .system ∨ m.role = .developer then m.words else []

/-- What a message says in the conversation. -/
def speaks : List Text := if m.role = .system ∨ m.role = .developer then [] else m.words

end Message

/-- **Every word is in its place**: those of the instructions stand in the instructions, in order,
and each message adds its own to the conversation. -/
structure Keeps (instructions : List Text) (place : List Message → List Text)
    (ms : List Message) : Prop where
  instructed : Stand (ms.flatMap Message.instructs) instructions
  spoken : ∀ pre m, pre ++ [m] <+: ms →
    ∃ added, place (pre ++ [m]) = place pre ++ added ∧ Stand m.speaks added

/-- A place that is read message by message keeps the words exactly when every message has its own
in what is read of it. -/
theorem spoken_iff {place : List Message → List Text} {f : Message → List Text}
    (hplace : ∀ ms, place ms = ms.flatMap f) (ms : List Message) :
    (∀ pre m, pre ++ [m] <+: ms →
        ∃ added, place (pre ++ [m]) = place pre ++ added ∧ Stand m.speaks added) ↔
      ∀ m ∈ ms, Stand m.speaks (f m) := by
  have hconcat (pre : List Message) (m : Message) : place (pre ++ [m]) = place pre ++ f m := by
    rw [hplace, hplace, List.flatMap_append, List.flatMap_singleton]
  constructor
  · intro h m hm
    obtain ⟨pre, post, rfl⟩ := List.append_of_mem hm
    obtain ⟨added, hadded, hstand⟩ := h pre m ⟨post, by rw [List.append_assoc]; rfl⟩
    rw [hconcat] at hadded
    rwa [List.append_cancel_left hadded]
  · rintro h pre m ⟨post, rfl⟩
    refine ⟨f m, hconcat pre m, h m ?_⟩
    exact List.mem_append_left _ (List.mem_append_right _ List.mem_cons_self)

/-! ### The two requests -/

section

variable (I : Interp) (loads : Text → Option Value)

/-- The texts of the input. -/
def Responses.place (ms : List Message) : List Text :=
  (Responses.body I ms).input_msgs.flatMap Responses.Item.texts

/-- The texts of the turns. -/
def Anthropic.place (ms : List Message) : List Text :=
  (Anthropic.body I loads ms).anthropic_msgs.flatMap Anthropic.Turn.texts

/-- Both requests have every word in its place. -/
def KeepsBoth (ms : List Message) : Prop :=
  Keeps [(Responses.body I ms).instructions] (Responses.place I) ms ∧
    Keeps (Anthropic.body I loads ms).system_content.toList (Anthropic.place I loads) ms

/-- The words that nothing is made of: a developer's, and those of a system message that has
another behind it. -/
def overwritten : List Message → List Text
  | [] => []
  | m :: ms =>
    (if m.role = .developer ∨ m.role = .system ∧ ms.any Message.isSystem then m.words else []) ++
      overwritten ms

/-- The words of a list that is printed stand in what is printed, and a role of no API says
nothing. -/
def Message.Rendered (m : Message) : Prop :=
  match m.role with
  | .assistant => Stand m.words [m.content.asStr I]
  | .tool => Stand m.words [m.content.asJson]
  | .other => m.words = []
  | .system | .developer | .user => True

/-- Nothing of the request is lost. -/
structure Sayable (ms : List Message) : Prop where
  heard : overwritten ms = []
  rendered : ∀ m ∈ ms, m.Rendered I

end

variable {I : Interp} {loads : Text → Option Value}

/-! ### The instructions -/

/-- The instructions after messages, with those held before. -/
def systemOf (held : Option Text) (ms : List Message) : Option Text :=
  ms.foldl (fun held m => if m.role = .system then some m.content.joined else held) held

theorem orEmpty_joined (content : Content) : content.orEmpty.joined = content.joined := by
  unfold Content.orEmpty
  split <;> rfl

theorem systemOf_eq (held : Option Text) (ms : List Message) :
    systemOf held ms = (systemOf none ms).or held := by
  induction ms generalizing held with
  | nil => rfl
  | cons m ms ih =>
    have hcons (held : Option Text) : systemOf held (m :: ms) =
        systemOf (if m.role = .system then some m.content.joined else held) ms := rfl
    rw [hcons, hcons, ih, ih (if m.role = .system then some m.content.joined else none),
      Option.or_assoc]
    congr 1
    split <;> rfl

theorem instructs_eq (m : Message) :
    m.instructs = if m.role = .system ∨ m.role = .developer then m.words else [] := rfl

/-- A message is heard where none behind it is. -/
theorem systemOf_cons (m : Message) (ms : List Message) :
    systemOf none (m :: ms) =
      (systemOf none ms).or (if m.role = .system then some m.content.joined else none) :=
  systemOf_eq _ ms

theorem isSome_systemOf (ms : List Message) :
    (systemOf none ms).isSome = ms.any Message.isSystem := by
  induction ms with
  | nil => rfl
  | cons m ms ih =>
    rw [systemOf_cons, Option.isSome_or, ih, List.any_cons, Bool.or_comm]
    congr 1
    by_cases hm : m.role = .system
    · rw [if_pos hm]
      exact (decide_eq_true hm).symm
    · rw [if_neg hm]
      exact (decide_eq_false hm).symm

theorem Responses.body_instructions (ms : List Message) :
    (Responses.body I ms).instructions = (systemOf none ms).getD Responses.DEFAULT := by
  have hfold : ∀ (st : Responses.State) (ms : List Message),
      (ms.foldl (Responses.step I) st).instructions =
        (systemOf (some st.instructions) ms).getD Responses.DEFAULT := by
    intro st ms
    induction ms generalizing st with
    | nil => rfl
    | cons m ms ih =>
      rw [List.foldl_cons, ih]
      unfold Responses.step
      show _ = (systemOf (if m.role = .system then _ else _) ms).getD _
      split
      · next h => rw [if_pos h, orEmpty_joined]
      · next h => rw [if_neg h]
  rw [Responses.body, hfold, systemOf_eq]
  cases systemOf none ms <;> rfl

theorem Anthropic.body_system (ms : List Message) :
    (Anthropic.body I loads ms).system_content = systemOf none ms := by
  have hloop : ∀ (st : Anthropic.State) (ms : List Message),
      (Anthropic.loop I loads st ms).system_content = systemOf st.system_content ms := by
    intro st ms
    fun_induction Anthropic.loop I loads st ms with
    | case1 st => rfl
    | case2 st m ms hrole ih =>
      rw [ih, orEmpty_joined]
      show _ = systemOf (if m.role = .system then _ else _) ms
      rw [if_pos hrole]
    | case3 st m ms hrole ih =>
      -- no tool result is a system message
      have hskip : ∀ held (run : List Message), (∀ m ∈ run, m.role = .tool) →
          systemOf held run = held := by
        intro held run hrun
        induction run with
        | nil => rfl
        | cons m run ihr =>
          obtain ⟨hm, hrun⟩ := List.forall_mem_cons.mp hrun
          show systemOf (if m.role = .system then _ else _) run = _
          rw [if_neg (by rw [hm]; decide)]
          exact ihr hrun
      have hrun : ∀ m' ∈ m :: ms.takeWhile Anthropic.isTool, m'.role = .tool := by
        intro m' hm'
        rcases List.mem_cons.mp hm' with rfl | hm'
        · exact hrole
        · exact Anthropic.isTool_iff.mp (List.mem_takeWhile_imp hm')
      have hsplit : m :: ms = (m :: ms.takeWhile Anthropic.isTool) ++
          ms.dropWhile Anthropic.isTool := by
        rw [List.cons_append, List.takeWhile_append_dropWhile]
      rw [ih, hsplit]
      show systemOf st.system_content _ = List.foldl _ _ _
      rw [List.foldl_append]
      exact congrArg (systemOf · _) (hskip _ _ hrun).symm
    | case4 st m ms hrole ih | case5 st m ms hrole ih =>
      rw [ih]
      show _ = systemOf (if m.role = .system then _ else _) ms
      rw [if_neg (by rw [hrole]; decide)]
      rfl
    | case6 st m ms hrole ih | case7 st m ms hrole ih =>
      rw [ih]
      show _ = systemOf (if m.role = .system then _ else _) ms
      rw [if_neg (by rw [hrole]; decide)]
  exact hloop ⟨none, []⟩ ms

/-- How much of words can be seen. -/
def count (ws : List Text) : ℕ := ws.flatten.countP visible

theorem count_append (ws ws' : List Text) : count (ws ++ ws') = count ws + count ws' := by
  unfold count
  rw [List.flatten_append, List.countP_append]

theorem count_filter (ws : List Text) : count (ws.filter hasWord) = count ws := by
  induction ws with
  | nil => rfl
  | cons w ws ih =>
    have hcons (ws : List Text) : count (w :: ws) = w.countP visible + count ws :=
      List.countP_append
    by_cases hw : hasWord w = true
    · rw [List.filter_cons_of_pos hw, hcons, hcons, ih]
    · have hnone : w.countP visible = 0 :=
        List.countP_eq_zero.mpr fun c hc hv => hw (List.any_eq_true.mpr ⟨c, hc, hv⟩)
      rw [List.filter_cons_of_neg hw, hcons, ih, hnone, Nat.zero_add]

/-- Words that cannot be seen are none. -/
theorem words_eq_nil {m : Message} (h : count m.words = 0) : m.words = [] := by
  by_contra hne
  obtain ⟨w, hw⟩ := List.exists_mem_of_ne_nil _ hne
  obtain ⟨c, hc, hv⟩ := List.any_eq_true.mp (List.mem_filter.mp hw).2
  exact List.countP_eq_zero.mp h c (List.mem_flatten.mpr ⟨w, hw, hc⟩) hv

theorem count_joined (m : Message) : count [m.content.joined] = count m.words := by
  rw [Message.words, count_filter]
  unfold count
  cases m.content with
  | text t => rfl
  | parts ps =>
    rw [List.flatten_singleton]
    exact countP_intercalate visible (by decide) _

theorem stand_joined (m : Message) : Stand m.words [m.content.joined] := by
  refine Stand.filter _ ?_
  cases m.content with
  | text t => exact Stand.refl [t]
  | parts ps => exact Stand.intercalate _ _

theorem overwritten_cons (m : Message) (ms : List Message) :
    overwritten (m :: ms) =
      (if m.role = .developer ∨ m.role = .system ∧ ms.any Message.isSystem then m.words else []) ++
        overwritten ms := rfl

/-- **What is said for the instructions** is heard or overwritten. -/
theorem count_instructs (ms : List Message) :
    count (ms.flatMap Message.instructs) =
      count (overwritten ms) + count (systemOf none ms).toList := by
  induction ms with
  | nil => rfl
  | cons m ms ih =>
    rw [List.flatMap_cons, count_append, ih, overwritten_cons, count_append, systemOf_cons,
      instructs_eq]
    cases hrole : m.role with
    | system =>
      rw [if_pos (.inl rfl), if_pos rfl]
      cases hany : ms.any Message.isSystem with
      | true =>
        -- another is heard
        obtain ⟨t, ht⟩ := Option.isSome_iff_exists.mp ((isSome_systemOf ms).trans hany)
        rw [if_pos (.inr ⟨rfl, rfl⟩), ht, Option.some_or, Nat.add_assoc]
      | false =>
        have hnone : systemOf none ms = none := by
          rw [← Option.not_isSome_iff_eq_none, isSome_systemOf, hany]
          exact Bool.false_ne_true
        rw [if_neg (by simp), hnone, Option.none_or, Option.toList_some, count_joined]
        show count m.words + (count (overwritten ms) + 0) = 0 + count (overwritten ms) + _
        omega
    | developer =>
      rw [if_pos (.inr rfl), if_pos (.inl rfl), if_neg (by decide), Option.or_none,
        Nat.add_assoc]
    | user | assistant | tool | other =>
      rw [if_neg (by simp), if_neg (by simp), if_neg (by simp), Option.or_none]
      show 0 + _ = 0 + _ + _
      rw [Nat.zero_add, Nat.zero_add]

/-- Where nothing is overwritten, the words stand in what is heard. -/
theorem stand_instructs {ms : List Message} (h : overwritten ms = []) :
    Stand (ms.flatMap Message.instructs) (systemOf none ms).toList := by
  induction ms with
  | nil => exact Stand.nil _
  | cons m ms ih =>
    rw [overwritten_cons, List.append_eq_nil_iff] at h
    obtain ⟨hm, hms⟩ := h
    rw [List.flatMap_cons, systemOf_cons, instructs_eq]
    cases hrole : m.role with
    | system =>
      rw [hrole] at hm
      rw [if_pos (.inl rfl), if_pos rfl]
      cases hany : ms.any Message.isSystem with
      | true =>
        obtain ⟨t, ht⟩ := Option.isSome_iff_exists.mp ((isSome_systemOf ms).trans hany)
        rw [if_pos (.inr ⟨rfl, hany⟩)] at hm
        rw [hm, List.nil_append, ht, Option.some_or, ← ht]
        exact ih hms
      | false =>
        have hnone : systemOf none ms = none := by
          rw [← Option.not_isSome_iff_eq_none, isSome_systemOf, hany]
          exact Bool.false_ne_true
        have hrest := ih hms
        rw [hnone] at hrest
        rw [hnone, Option.none_or, Stand.nil_right_iff.mp hrest, List.append_nil]
        exact stand_joined m
    | developer =>
      rw [hrole, if_pos (.inl rfl)] at hm
      rw [if_pos (.inr rfl), hm, if_neg (by decide), Option.or_none]
      exact ih hms
    | user | assistant | tool | other =>
      rw [if_neg (by simp), if_neg (by simp), Option.or_none]
      exact ih hms

/-- Nothing is made of the words that are overwritten. -/
theorem overwritten_eq_nil {ms : List Message} (h : count (overwritten ms) = 0) :
    overwritten ms = [] := by
  induction ms with
  | nil => rfl
  | cons m ms ih =>
    rw [overwritten_cons, count_append] at h
    rw [overwritten_cons, ih (by omega), List.append_nil]
    split
    · next hc =>
      rw [if_pos hc] at h
      exact words_eq_nil (by omega)
    · rfl

/-- The instructions of an Anthropic request keep the words exactly when none are overwritten. -/
theorem instructed_iff (ms : List Message) :
    Stand (ms.flatMap Message.instructs) (systemOf none ms).toList ↔ overwritten ms = [] := by
  refine ⟨fun h => overwritten_eq_nil ?_, stand_instructs⟩
  have hcount := h.countP_le visible
  have heq : (ms.flatMap Message.instructs).flatten.countP visible =
    count (overwritten ms) + (systemOf none ms).toList.flatten.countP visible := count_instructs ms
  omega

/-! ### The conversation -/

/-- What is read of a message's items. -/
def Responses.said (I : Interp) (m : Message) : List Text :=
  (Responses.items I m).flatMap Responses.Item.texts

/-- What is read of a message's turn, or of its part in one. -/
def Anthropic.said (I : Interp) (loads : Text → Option Value) (m : Message) : List Text :=
  match m.role with
  | .user => (Anthropic.userTurn m.content.orEmpty).texts
  | .assistant => (Anthropic.assistantTurn I loads m).texts
  | .tool => [m.content.orEmpty.asJson]
  | .system | .developer | .other => []

theorem Responses.place_eq (ms : List Message) :
    Responses.place I ms = ms.flatMap (Responses.said I) :=
  Responses.body_flatMap I _ ms

theorem Anthropic.texts_results (run : List Message) :
    (Anthropic.results run).texts = run.map fun m => m.content.orEmpty.asJson := by
  show (run.map Anthropic.toolResult).filterMap Anthropic.Block.text? = _
  rw [List.filterMap_map]
  exact congrFun List.filterMap_eq_map run

theorem Anthropic.place_eq (ms : List Message) :
    Anthropic.place I loads ms = ms.flatMap (Anthropic.said I loads) := by
  have hfollows : Anthropic.Follows I loads Anthropic.Turn.texts (Anthropic.said I loads) := by
    refine ⟨fun run hrun => ?_, fun m hm => ?_, fun m hm => ?_, fun m hm => ?_⟩
    · rw [Anthropic.texts_results, List.map_eq_flatMap]
      refine List.flatMap_congr fun m hm => ?_
      rw [Anthropic.said, hrun m hm]
    · rw [Anthropic.said, hm]
    · rw [Anthropic.said, hm]
    · unfold Anthropic.said
      rcases hm with hm | hm | hm <;> rw [hm]
  exact Anthropic.loop_flatMap hfollows ⟨none, []⟩ ms

/-- The text parts are read of a content, however its images are told. -/
theorem texts_of_parts {P : Type} {part : Part → Option P} {text : P → Option Text}
    (htext : ∀ p : Part, p.isText = true → (part p).bind text = some p.text)
    (hrest : ∀ p : Part, p.isText = false → (part p).bind text = none) (ps : List Part) :
    (ps.filterMap part).filterMap text = textsOf ps := by
  rw [List.filterMap_filterMap]
  unfold textsOf
  induction ps with
  | nil => rfl
  | cons p ps ih =>
    cases hp : p.isText with
    | true =>
      rw [List.filterMap_cons, htext p hp, List.filter_cons_of_pos hp, List.map_cons, ← ih]
    | false =>
      rw [List.filterMap_cons, hrest p hp,
        List.filter_cons_of_neg (by rw [hp]; exact Bool.false_ne_true), ← ih]

theorem Responses.texts_of_parts (ps : List Part) :
    (ps.filterMap Responses.inputPart).filterMap Responses.InputPart.text? = textsOf ps := by
  refine Requests.texts_of_parts (fun p hp => ?_) (fun p hp => ?_) ps
  · rw [Responses.inputPart, if_pos hp]
    rfl
  · rw [Responses.inputPart, if_neg (by rw [hp]; exact Bool.false_ne_true)]
    split <;> rfl

theorem Anthropic.texts_of_parts (ps : List Part) :
    (ps.filterMap Anthropic.block).filterMap Anthropic.Block.text? = textsOf ps := by
  refine Requests.texts_of_parts (fun p hp => ?_) (fun p hp => ?_) ps
  · rw [Anthropic.block, if_pos hp]
    rfl
  · rw [Anthropic.block, if_neg (by rw [hp]; exact Bool.false_ne_true)]
    split <;> rfl

/-- A content is itself, but for an empty list. -/
theorem orEmpty_cases (m : Message) :
    m.content.orEmpty = m.content ∨ m.words = [] ∧ m.content = .parts [] := by
  unfold Message.words
  cases m.content with
  | text t => exact .inl rfl
  | parts ps =>
    cases ps with
    | nil => exact .inr ⟨rfl, rfl⟩
    | cons p ps => exact .inl rfl

theorem speaks_eq (m : Message) :
    m.speaks = if m.role = .system ∨ m.role = .developer then [] else m.words := rfl

theorem stand_texts (m : Message) : Stand m.words m.content.texts := (Stand.refl _).filter _

/-- A user's words are in the items. -/
theorem Responses.said_user {m : Message} (hm : m.role = .user) :
    Stand m.words (Responses.said I m) := by
  unfold Responses.said Responses.items
  rw [hm]
  rcases orEmpty_cases m with horEmpty | ⟨hwords, -⟩
  · dsimp only
    rw [horEmpty]
    cases hcontent : m.content with
    | text t =>
      have h := stand_texts m
      rwa [hcontent] at h
    | parts ps =>
      have h := stand_texts m
      rw [hcontent] at h
      dsimp only
      split
      · next hempty =>
        -- no part is kept, and none of them is a text
        rw [Content.texts, ← Responses.texts_of_parts, List.isEmpty_iff.mp hempty] at h
        exact h
      · show Stand m.words
          ([Responses.Item.user (ps.filterMap Responses.inputPart)].flatMap Responses.Item.texts)
        rw [List.flatMap_singleton, Responses.Item.texts, Responses.texts_of_parts]
        exact h
  · rw [hwords]
    exact Stand.nil _

/-- **A message is in the items** exactly when it is printed with its words. -/
theorem Responses.said_iff (m : Message) :
    Stand m.speaks (Responses.said I m) ↔ m.Rendered I := by
  rw [speaks_eq]
  unfold Message.Rendered
  cases hrole : m.role with
  | system | developer =>
    rw [if_pos (by simp)]
    exact iff_of_true (Stand.nil _) trivial
  | user =>
    rw [if_neg (by simp)]
    exact iff_of_true (Responses.said_user hrole) trivial
  | assistant =>
    rw [if_neg (by simp)]
    have hsaid : Responses.said I m =
        (Responses.spoken I m.content.orEmpty).flatMap Responses.Item.texts := by
      unfold Responses.said Responses.items
      rw [hrole]
      dsimp only
      -- a call says nothing
      rw [List.flatMap_append, List.flatMap_map]
      exact (congrArg _ (List.flatMap_eq_nil_iff.mpr fun _ _ => rfl)).trans (List.append_nil _)
    rw [hsaid]
    rcases orEmpty_cases m with horEmpty | ⟨hwords, hcontent⟩
    · rw [horEmpty]
      cases hcontent : m.content with
      | text t =>
        cases t with
        | nil =>
          have hwords : m.words = [] := by
            rw [Message.words, hcontent]
            rfl
          rw [hwords]
          exact iff_of_true (Stand.nil _) (Stand.nil _)
        | cons c t => exact Iff.rfl
      | parts ps => exact Iff.rfl
    · rw [hwords]
      exact iff_of_true (Stand.nil _) (Stand.nil _)
  | tool =>
    rw [if_neg (by simp)]
    have hsaid : Responses.said I m = [m.content.orEmpty.asJson] := by
      unfold Responses.said Responses.items
      rw [hrole]
      rfl
    rw [hsaid]
    rcases orEmpty_cases m with horEmpty | ⟨hwords, hcontent⟩
    · rw [horEmpty]
    · rw [hwords]
      exact iff_of_true (Stand.nil _) (Stand.nil _)
  | other =>
    rw [if_neg (by simp)]
    have hsaid : Responses.said I m = [] := by
      unfold Responses.said Responses.items
      rw [hrole]
      rfl
    rw [hsaid]
    exact Stand.nil_right_iff

/-- What is said beside a call has the words, if there are any. -/
theorem Anthropic.stand_beside {m : Message} (h : Stand m.words [m.content.asStr I]) :
    Stand m.words ((Anthropic.beside I m.content).filterMap Anthropic.Block.text?) := by
  unfold Anthropic.beside
  split
  · next hempty =>
    rw [hempty] at h
    rw [words_eq_nil (Nat.le_zero.mp (h.countP_le visible))]
    exact Stand.nil _
  · exact h

/-- What is printed with its words is in the turns too. -/
theorem Anthropic.stand_said {m : Message} (h : m.Rendered I) :
    Stand m.speaks (Anthropic.said I loads m) := by
  rw [speaks_eq]
  unfold Message.Rendered at h
  unfold Anthropic.said
  cases hrole : m.role with
  | system | developer =>
    rw [if_pos (by simp)]
    exact Stand.nil _
  | user =>
    rw [if_neg (by simp)]
    have htexts := stand_texts m
    rcases orEmpty_cases m with horEmpty | ⟨hwords, -⟩
    · dsimp only
      rw [horEmpty]
      cases hcontent : m.content with
      | text t => rwa [hcontent] at htexts
      | parts ps =>
        rw [hcontent] at htexts
        show Stand m.words ((ps.filterMap Anthropic.block).filterMap Anthropic.Block.text?)
        rwa [Anthropic.texts_of_parts]
    · rw [hwords]
      exact Stand.nil _
  | assistant =>
    rw [if_neg (by simp)]
    rw [hrole] at h
    have htexts := stand_texts m
    rcases orEmpty_cases m with horEmpty | ⟨hwords, -⟩
    · unfold Anthropic.assistantTurn
      dsimp only
      rw [horEmpty]
      split
      · cases hcontent : m.content with
        | text t => rwa [hcontent] at htexts
        | parts ps =>
          rw [hcontent] at htexts h
          dsimp only
          split
          · exact h
          · show Stand m.words (((textsOf ps).map Anthropic.Block.text).filterMap _)
            rw [List.filterMap_map]
            exact (congrFun List.filterMap_eq_map _).trans (List.map_id _) ▸ htexts
      · show Stand m.words ((Anthropic.beside I m.content ++ _).filterMap Anthropic.Block.text?)
        rw [List.filterMap_append, List.filterMap_map]
        have hcalls : m.tool_calls.filterMap (Anthropic.Block.text? ∘ Anthropic.toolUse loads) =
            [] := List.filterMap_eq_nil_iff.mpr fun _ _ => rfl
        rw [hcalls, List.append_nil]
        exact Anthropic.stand_beside h
    · rw [hwords]
      exact Stand.nil _
  | tool =>
    rw [if_neg (by simp)]
    rw [hrole] at h
    rcases orEmpty_cases m with horEmpty | ⟨hwords, -⟩
    · dsimp only
      rwa [horEmpty]
    · rw [hwords]
      exact Stand.nil _
  | other =>
    rw [if_neg (by simp)]
    rw [hrole] at h
    have hwords : m.words = [] := h
    rw [hwords]
    exact Stand.nil _

/-! ### Both requests -/

/-- **Nothing is lost exactly when** nothing is overwritten, and what is printed of a list has its
words. -/
theorem keeps_iff (ms : List Message) : KeepsBoth I loads ms ↔ Sayable I ms := by
  constructor
  · rintro ⟨hresponses, hanthropic⟩
    refine ⟨?_, fun m hm => ?_⟩
    · rw [← instructed_iff, ← @Anthropic.body_system I loads]
      exact hanthropic.instructed
    · rw [← Responses.said_iff]
      exact (spoken_iff Responses.place_eq ms).mp hresponses.spoken m hm
  · intro h
    have hheard := stand_instructs h.heard
    refine ⟨⟨?_, ?_⟩, ⟨?_, ?_⟩⟩
    · rw [Responses.body_instructions]
      cases hsystem : systemOf none ms with
      | none =>
        -- nothing was said for the instructions
        rw [hsystem] at hheard
        rw [Stand.nil_right_iff.mp hheard]
        exact Stand.nil _
      | some t =>
        rw [hsystem] at hheard
        exact hheard
    · exact (spoken_iff Responses.place_eq ms).mpr fun m hm =>
        (Responses.said_iff m).mpr (h.rendered m hm)
    · rw [Anthropic.body_system]
      exact hheard
    · exact (spoken_iff Anthropic.place_eq ms).mpr fun m hm =>
        Anthropic.stand_said (h.rendered m hm)

/-! Two system messages, and a developer between them: only the last of them is heard. -/

def say (role : Role) (text : String) : Message := ⟨role, .text (Text.of text), [], []⟩

def THREE_VOICES : List Message :=
  [say .system "Answer in French.", say .developer "Be brief.", say .system "Use metric units.",
    say .user "How far is it?"]

theorem three_voices_lost :
    ¬ KeepsBoth Interp.ascii (fun _ => none) THREE_VOICES ∧
      (Responses.body Interp.ascii THREE_VOICES).instructions = Text.of "Use metric units." ∧
      (Anthropic.body Interp.ascii (fun _ => none) THREE_VOICES).system_content =
        some (Text.of "Use metric units.") := by
  have hsystem : systemOf none THREE_VOICES = some (Text.of "Use metric units.") := by
    decide
  refine ⟨fun h => ?_, ?_, ?_⟩
  · have hheard := h.2.instructed
    rw [Anthropic.body_system, instructed_iff] at hheard
    exact absurd hheard (by decide)
  · rw [Responses.body_instructions, hsystem]
    rfl
  · rw [Anthropic.body_system, hsystem]

end Translate.Requests
