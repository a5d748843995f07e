import Caravan.Launch.ConfigBlock

/-!
# The lines of a config block

Each line of the block is read as an assignment of its field. The reader takes the quotes off a
value and leaves the backslashes in that the writer put before backslashes, quotes and dollar
signs, so a value reads back as it was written only if it has none of the three (`readLine_assign`).
The lines are read up to the first that has the end marker in it (`foldl_blockLines`).
-/

namespace Launch

open Python

/-! ### Escaped texts -/

section Escape

variable {a c : CodePoint} {b t : Text}

theorem replaceBy_of_not_mem (h : a ∉ t) : replaceBy a b t = t := by
  induction t with
  | nil => rfl
  | cons c t ih =>
    rw [List.mem_cons, not_or] at h
    obtain ⟨hc, ht⟩ := h
    rw [replaceBy, List.flatMap_cons, if_neg (Ne.symm hc)]
    exact congrArg (c :: ·) (ih ht)

theorem mem_replaceBy (hc : c ∈ t) (hne : c ≠ a) : c ∈ replaceBy a b t := by
  refine List.mem_flatMap.mpr ⟨c, hc, ?_⟩
  rw [if_neg hne]
  exact List.mem_singleton_self c

theorem of_mem_replaceBy (h : c ∈ replaceBy a b t) : c ∈ t ∨ c ∈ b := by
  obtain ⟨d, hd, hc⟩ := List.mem_flatMap.mp h
  split at hc
  · exact .inr hc
  · exact .inl (List.mem_singleton.mp hc ▸ hd)

theorem length_replaceBy (hb : b.length = 2) :
    (replaceBy a b t).length = t.length + t.count a := by
  induction t with
  | nil => rfl
  | cons c t ih =>
    rw [replaceBy, List.flatMap_cons, List.length_append, ← replaceBy, ih]
    by_cases hc : c = a
    · rw [if_pos hc, hb, hc, List.count_cons_self, List.length_cons]
      omega
    · rw [if_neg hc, List.count_cons_of_ne hc, List.length_singleton, List.length_cons]
      omega

/-- A character that is not escaped. -/
def Plain (c : CodePoint) : Prop :=
  c ≠ codePoint '\\' ∧ c ≠ codePoint '"' ∧ c ≠ codePoint '$'

instance : Decidable (Plain c) := inferInstanceAs (Decidable (_ ∧ _))

theorem escape_of_plain (h : ∀ c ∈ t, Plain c) : escape t = t := by
  unfold escape
  rw [replaceBy_of_not_mem (a := codePoint '\\') fun hm => (h _ hm).1 rfl,
    replaceBy_of_not_mem (a := codePoint '"') fun hm => (h _ hm).2.1 rfl,
    replaceBy_of_not_mem (a := codePoint '$') fun hm => (h _ hm).2.2 rfl]

/-- A text with a character to escape is longer when it is escaped. -/
theorem length_escape (hc : c ∈ t) (h : ¬ Plain c) : t.length < (escape t).length := by
  unfold escape
  rw [length_replaceBy rfl, length_replaceBy rfl, length_replaceBy rfl]
  by_cases h₁ : c = codePoint '\\'
  · have := List.count_pos_iff.mpr (h₁ ▸ hc)
    omega
  by_cases h₂ : c = codePoint '"'
  · have := List.count_pos_iff.mpr (mem_replaceBy (b := Text.of "\\\\") (h₂ ▸ hc)
      (show codePoint '"' ≠ codePoint '\\' by decide))
    omega
  have h₃ : c = codePoint '$' := by
    by_contra h₃
    exact h ⟨h₁, h₂, h₃⟩
  have := List.count_pos_iff.mpr (mem_replaceBy (b := Text.of "\\\"")
    (mem_replaceBy (b := Text.of "\\\\") (h₃ ▸ hc)
      (show codePoint '$' ≠ codePoint '\\' by decide))
    (show codePoint '$' ≠ codePoint '"' by decide))
  omega

theorem plain_of_escape (h : escape t = t) : ∀ c ∈ t, Plain c := by
  intro c hc
  by_contra hplain
  exact absurd (congrArg List.length h) (length_escape hc hplain).ne'

theorem of_mem_escape (h : c ∈ escape t) (hc : Plain c) : c ∈ t := by
  rcases of_mem_replaceBy h with h | h
  · rcases of_mem_replaceBy h with h | h
    · rcases of_mem_replaceBy h with h | h
      · exact h
      · rcases List.mem_pair.mp h with rfl | rfl
        · exact absurd rfl hc.1
        · exact absurd rfl hc.1
    · rcases List.mem_pair.mp h with rfl | rfl
      · exact absurd rfl hc.1
      · exact absurd rfl hc.2.1
  · rcases List.mem_pair.mp h with rfl | rfl
    · exact absurd rfl hc.1
    · exact absurd rfl hc.2.2

theorem escape_oneLine (h : t.OneLine) : (escape t).OneLine := by
  intro c hc
  rcases of_mem_replaceBy hc with hc | hc
  · rcases of_mem_replaceBy hc with hc | hc
    · rcases of_mem_replaceBy hc with hc | hc
      · exact h c hc
      · exact (by decide : Text.OneLine (Text.of "\\\\")) c hc
    · exact (by decide : Text.OneLine (Text.of "\\\"")) c hc
  · exact (by decide : Text.OneLine (Text.of "\\$")) c hc

end Escape

/-! ### One line -/

/-- The fields in the order in which they are written. -/
def WRITTEN : List Text := groups.flatten

/-- A character of a field's name. -/
def isKeyChar (c : CodePoint) : Bool :=
  (0x41 ≤ c.val && c.val ≤ 0x5A) || (0x30 ≤ c.val && c.val ≤ 0x39) || c.val == 0x5F

/-! ### The tables

Taking a literal apart is slow work for the kernel. The names of the tables are spelled out once,
and what is asked of the tables is asked of the spelled names. -/

/-- The characters of some names. -/
inductive Spelled : List Text → List (List Char) → Prop
  | nil : Spelled [] []
  | cons {names : List Text} {words : List (List Char)} {word : List Char} :
      Spelled names words → Spelled (Text.of (String.ofList word) :: names) (word :: words)

theorem Spelled.eq {names : List Text} {words : List (List Char)} (h : Spelled names words) :
    names = words.map fun word => word.map codePoint := by
  induction h with
  | nil => rfl
  | cons _ ih => rw [List.map_cons, ← ih, Text.of, String.toList_ofList]

/-- A number to tell names apart by. -/
def number (t : Text) : ℕ := t.foldl (fun n c => 256 * n + c.val) 0

/-- All names have numbers of their own. -/
def distinct : List Text → Bool
  | [] => true
  | t :: ts => (ts.all fun s => !Nat.beq (number t) (number s)) && distinct ts

theorem nodup_of_distinct {ts : List Text} (h : distinct ts = true) : ts.Nodup := by
  induction ts with
  | nil => exact List.nodup_nil
  | cons t ts ih =>
    rw [distinct, Bool.and_eq_true, List.all_eq_true] at h
    obtain ⟨hhead, htail⟩ := h
    refine List.nodup_cons.mpr ⟨fun hin => ?_, ih htail⟩
    have hself := hhead t hin
    rw [Nat.beq_refl] at hself
    cases hself

/-- All names are found in a table, by their numbers. -/
def found (table names : List Text) : Bool :=
  names.all fun t => (table.find? fun s => Nat.beq (number t) (number s)) = some t

theorem mem_of_found {table names : List Text} (h : found table names = true) :
    ∀ t ∈ names, t ∈ table :=
  fun t ht => List.mem_of_find?_eq_some (of_decide_eq_true (List.all_eq_true.mp h t ht))

/-- The names that are asked for one by one. -/
def ASKED : List Text :=
  [Text.of "MODEL_FILE", Text.of "PORT", Text.of "FIT_TARGET", Text.of "LLAMA_MODELS_DIR",
    Text.of "CHAT_TEMPLATE_KWARGS"]

/-- The fields of the server of llama.cpp, of all fields. -/
def llama (fields : List Text) : List Text := fields.takeWhile (· ≠ Text.of "RUNNER")

/-- What is asked of the tables. -/
structure Tables (fields grouped asked : List Text) : Prop where
  keys : (fields.all fun key => key ≠ [] && key.all isKeyChar) = true
  different : distinct (llama fields) = true
  once : distinct grouped = true
  grouped : found (llama fields) grouped = true
  asked : found (llama fields) asked = true
  runner : found fields [Text.of "RUNNER"] = true
  kind : ((llama fields).all fun key => key ≠ Text.of "CELL_KIND") = true

theorem Tables.of_spelled {fields grouped asked : List Text} {f g a : List (List Char)}
    (hf : Spelled fields f) (hg : Spelled grouped g) (ha : Spelled asked a)
    (h : Tables (f.map fun word => word.map codePoint) (g.map fun word => word.map codePoint)
      (a.map fun word => word.map codePoint)) : Tables fields grouped asked := by
  rwa [hf.eq, hg.eq, ha.eq]

set_option maxRecDepth 2000 in
theorem tables : Tables CONFIG_FIELDS GROUPS.flatten (NUMBER_FIELDS ++ ASKED) := by
  apply Tables.of_spelled
  · simp only [CONFIG_FIELDS, List.map_cons, List.map_nil]
    repeat' first | exact .nil | apply Spelled.cons
  · simp only [GROUPS, List.map_cons, List.map_nil, List.flatten_cons, List.flatten_nil,
      List.cons_append, List.nil_append]
    repeat' first | exact .nil | apply Spelled.cons
  · simp only [NUMBER_FIELDS, ASKED, List.map_cons, List.map_nil, List.cons_append,
      List.nil_append]
    repeat' first | exact .nil | apply Spelled.cons
  · constructor <;> decide +kernel

theorem written_split : WRITTEN = GROUPS.flatten ++ REST := by
  unfold WRITTEN groups
  rw [List.flatten_append]
  split
  · next h => rw [h, List.flatten_nil]
  · rw [List.flatten_singleton]

theorem mem_written {key : Text} : key ∈ WRITTEN ↔ key ∈ LLAMA_CONFIG_FIELDS := by
  rw [written_split, List.mem_append, REST, List.mem_filter, decide_eq_true_iff]
  constructor
  · rintro (h | h)
    · exact mem_of_found tables.grouped key h
    · exact h.1
  · intro h
    by_cases hin : key ∈ GROUPS.flatten
    · exact .inl hin
    · exact .inr ⟨h, hin⟩

theorem written_nodup : WRITTEN.Nodup := by
  rw [written_split]
  refine List.nodup_append.mpr ⟨nodup_of_distinct tables.once,
    (nodup_of_distinct tables.different).filter _, fun key hgroup other hrest he => ?_⟩
  rw [REST, List.mem_filter, decide_eq_true_iff] at hrest
  exact hrest.2 (he ▸ hgroup)

theorem written_eq : ∃ rest, WRITTEN = Text.of "HOST" :: Text.of "PORT" :: MODELS_DIR :: rest :=
  ⟨_, rfl⟩

theorem number_field {key : Text} (h : key ∈ NUMBER_FIELDS) : key ∈ LLAMA_CONFIG_FIELDS :=
  mem_of_found tables.asked key (List.mem_append_left _ h)

theorem asked_field {key : Text} (h : key ∈ ASKED) : key ∈ LLAMA_CONFIG_FIELDS :=
  mem_of_found tables.asked key (List.mem_append_right _ h)

theorem port_field : Text.of "PORT" ∈ LLAMA_CONFIG_FIELDS :=
  asked_field (List.mem_cons_of_mem _ List.mem_cons_self)

theorem modelsDir_field : MODELS_DIR ∈ LLAMA_CONFIG_FIELDS :=
  asked_field (List.mem_append_right [_, _, _] List.mem_cons_self)

theorem runner_field : Text.of "RUNNER" ∈ CONFIG_FIELDS :=
  mem_of_found tables.runner _ List.mem_cons_self

theorem runner_not_field : Text.of "RUNNER" ∉ LLAMA_CONFIG_FIELDS :=
  fun h => of_decide_eq_true (List.mem_takeWhile_imp (p := (· ≠ Text.of "RUNNER")) h) rfl

theorem kind_not_field : Text.of "CELL_KIND" ∉ LLAMA_CONFIG_FIELDS :=
  fun h => of_decide_eq_true (List.all_eq_true.mp tables.kind _ h) rfl

theorem llama_fields {key : Text} (h : key ∈ LLAMA_CONFIG_FIELDS) : key ∈ CONFIG_FIELDS :=
  List.takeWhile_subset _ h

/-- A name that a field may have: it is read off its line as it stands. -/
structure IsKey (key : Text) : Prop where
  filled : key ≠ []
  chars : ∀ c ∈ key, isKeyChar c = true

theorem isKey_of_mem {key : Text} (h : key ∈ CONFIG_FIELDS) : IsKey key := by
  have hkey := List.all_eq_true.mp tables.keys key h
  rw [Bool.and_eq_true, decide_eq_true_iff, List.all_eq_true] at hkey
  exact ⟨hkey.1, hkey.2⟩

theorem keyChar_facts {c : CodePoint} (h : isKeyChar c = true) :
    isSpace c = false ∧ isBreak c = false ∧ c ≠ codePoint '=' ∧ c ≠ codePoint '#' := by
  have hrange : (0x41 ≤ c.val ∧ c.val ≤ 0x5A) ∨ (0x30 ≤ c.val ∧ c.val ≤ 0x39) ∨ c.val = 0x5F := by
    simpa [isKeyChar, or_assoc] using h
  refine ⟨?_, ?_, ?_, ?_⟩
  · unfold isSpace
    simp
    omega
  · unfold isBreak
    simp
    omega
  · rintro rfl
    exact absurd h (by decide)
  · rintro rfl
    exact absurd h (by decide)

theorem IsKey.not_mem {key : Text} (h : IsKey key) {c : CodePoint} (hc : isKeyChar c = false) :
    c ∉ key := fun hin => Bool.false_ne_true (hc ▸ h.chars c hin)

theorem IsKey.oneLine {key : Text} (h : IsKey key) : key.OneLine :=
  fun c hc => (keyChar_facts (h.chars c hc)).2.1

theorem strip_of_ends {t : Text} (h : t ≠ []) (hhead : t.Flush)
    (hlast : isSpace (t.getLast h) = false) : t.strip = t := by
  rw [Text.strip, hhead.lstrip, Text.rstrip, List.rdropWhile_eq_self_iff]
  intro _
  rw [hlast]
  decide

theorem IsKey.strip {key : Text} (h : IsKey key) : key.strip = key := by
  refine strip_of_ends h.filled (fun c hc => ?_) ?_
  · exact (keyChar_facts (h.chars c (List.mem_of_mem_head? hc))).1
  · exact (keyChar_facts (h.chars _ (List.getLast_mem _))).1

theorem parseValue_quote (t : Text) : parseValue (quoteShellValue t) = escape t := by
  have hlast : (quoteShellValue t).getLast (List.cons_ne_nil _ _) = codePoint '"' := by
    simp only [quoteShellValue, ← List.cons_append, List.getLast_append_singleton]
  have hstrip : (quoteShellValue t).strip = quoteShellValue t := by
    refine strip_of_ends (List.cons_ne_nil _ _) ?_ ?_
    · intro c hc
      obtain rfl : codePoint '"' = c := Option.some.inj hc
      decide
    · rw [hlast]
      decide
  have hbetween : between (codePoint '"') (quoteShellValue t) = true := by
    have hlast : (quoteShellValue t).getLast? = some (codePoint '"') :=
      (List.getLast?_eq_some_getLast _).trans (congrArg some hlast)
    rw [between, hlast]
    rfl
  rw [parseValue, hstrip, hbetween, Bool.true_or, if_pos rfl, quoteShellValue, List.tail_cons,
    List.dropLast_concat]

/-- A text is cut at the first character of a kind. -/
theorem cut_at {c : CodePoint} {s t : Text} (h : c ∉ s) :
    (s ++ c :: t).takeWhile (· ≠ c) = s ∧ (s ++ c :: t).dropWhile (· ≠ c) = c :: t := by
  have hbefore : ∀ d ∈ s, decide (d ≠ c) = true := fun d hd => decide_eq_true fun he => h (he ▸ hd)
  have hhere : ¬ decide (c ≠ c) = true := fun hne => of_decide_eq_true hne rfl
  rw [List.takeWhile_append_of_pos hbefore, List.dropWhile_append_of_pos hbefore,
    List.takeWhile_cons_of_neg (p := fun d => decide (d ≠ c)) hhere,
    List.dropWhile_cons_of_neg (p := fun d => decide (d ≠ c)) hhere, List.append_nil]
  exact ⟨rfl, rfl⟩

variable {merged : Config} {key : Text}

theorem assign_ne_nil : assign merged key ≠ [] :=
  List.append_ne_nil_of_right_ne_nil _ (List.cons_ne_nil _ _)

/-- **A line of the block** gives its field the escaped value. -/
theorem readLine_assign (config : Config) (h : key ∈ CONFIG_FIELDS) :
    readLine config (assign merged key) = Function.update config key (escape (merged key)) := by
  have hkey := isKey_of_mem h
  have hstrip := hkey.strip
  have heq : codePoint '=' ∉ key := hkey.not_mem (by decide)
  have hhash : codePoint '#' ∉ key := hkey.not_mem (by decide)
  have hne := hkey.filled
  obtain ⟨c, rest, rfl⟩ := List.exists_cons_of_ne_nil hne
  have hflush : Text.Flush (c :: rest) := hstrip ▸ Text.strip_flush _
  have hlast : (assign merged (c :: rest)).getLast assign_ne_nil = codePoint '"' := by
    simp only [assign, quoteShellValue, ← List.cons_append, ← List.append_assoc,
      List.getLast_append_singleton]
  have hline : (assign merged (c :: rest)).strip = assign merged (c :: rest) := by
    refine strip_of_ends assign_ne_nil (fun d hd => hflush d hd) ?_
    rw [hlast]
    decide
  have hread : ¬ (assign merged (c :: rest) = [] ∨
      (assign merged (c :: rest)).head? = some (codePoint '#') ∨
      codePoint '=' ∉ assign merged (c :: rest)) := by
    rintro (h | h | h)
    · exact assign_ne_nil h
    · exact hhash (Option.some.inj h ▸ List.mem_cons_self)
    · exact h (List.mem_append_right _ List.mem_cons_self)
  obtain ⟨htake, hdrop⟩ := cut_at (t := quoteShellValue (merged (c :: rest))) heq
  unfold readLine
  dsimp only
  rw [hline, if_neg hread, assign, htake, hdrop, hstrip, if_pos h, List.tail_cons,
    parseValue_quote]

theorem readLine_nil (config : Config) : readLine config [] = config := rfl

theorem readLine_begin (config : Config) : readLine config CONFIG_BEGIN = config := by
  unfold readLine
  exact if_pos (.inr (.inl (by decide)))

theorem assign_oneLine (h : key ∈ CONFIG_FIELDS) (hvalue : (merged key).OneLine) :
    (assign merged key).OneLine := by
  refine Text.oneLine_append.mpr ⟨(isKey_of_mem h).oneLine, Text.oneLine_cons.mpr ⟨by decide, ?_⟩⟩
  exact Text.oneLine_cons.mpr ⟨by decide, Text.oneLine_append.mpr
    ⟨escape_oneLine hvalue, Text.oneLine_cons.mpr ⟨by decide, Text.oneLine_nil⟩⟩⟩

/-- A line has the end marker if its value has. -/
theorem assign_contains (h : key ∈ CONFIG_FIELDS) :
    (assign merged key).contains CONFIG_END = (escape (merged key)).contains CONFIG_END := by
  have hhash : codePoint '#' ∉ key := (isKey_of_mem h).not_mem (by decide)
  have hnot : ¬ CONFIG_END <:+: key := fun hin => hhash (hin.subset (by decide))
  rw [Bool.eq_iff_iff, Text.contains_iff, Text.contains_iff, assign, quoteShellValue,
    infix_append_cons (by decide), or_iff_right hnot, ← List.nil_append (codePoint '"' :: _),
    infix_append_cons (by decide), or_iff_right (by decide),
    infix_append_cons (by decide), or_iff_left (by decide)]

/-! ### All lines -/

/-- A line with the end marker. -/
def hasEnd (line : Text) : Bool := line.contains CONFIG_END

/-- The fields whose lines the reader comes to. -/
def reached (merged : Config) (keys : List Text) : List Text :=
  through (fun key => hasEnd (escape (merged key))) keys

/-- The assignments up to the end marker. -/
theorem foldl_assign {keys : List Text} (hkeys : ∀ key ∈ keys, key ∈ CONFIG_FIELDS)
    (config : Config) (key : Text) :
    (through hasEnd (keys.map (assign merged) ++ [CONFIG_END])).foldl readLine config key =
      if key ∈ reached merged keys then escape (merged key) else config key := by
  induction keys generalizing config with
  | nil => rfl
  | cons k keys ih =>
    obtain ⟨hk, hkeys⟩ := List.forall_mem_cons.mp hkeys
    have hline : hasEnd (assign merged k) = hasEnd (escape (merged k)) := assign_contains hk
    rw [List.map_cons, List.cons_append, through, reached, through, hline]
    split
    · rw [List.foldl_cons, List.foldl_nil, readLine_assign config hk, Function.update_apply]
      simp only [List.mem_singleton]
      split
      · next he => rw [he]
      · rfl
    · have hmem : key ∈ k :: through (fun key => hasEnd (escape (merged key))) keys ↔
          key = k ∨ key ∈ reached merged keys := List.mem_cons
      rw [List.foldl_cons, ih hkeys, readLine_assign config hk, Function.update_apply]
      by_cases hin : key ∈ reached merged keys
      · rw [if_pos hin, if_pos (hmem.mpr (.inr hin))]
      rw [if_neg hin]
      by_cases he : key = k
      · rw [if_pos he, if_pos (hmem.mpr (.inl he)), he]
      · rw [if_neg he, if_neg (fun h => not_or.mpr ⟨he, hin⟩ (hmem.mp h))]

/-- Without the empty lines the groups are one list. -/
theorem filter_intercalate (lists : List (List Text)) :
    ([([] : Text)].intercalate lists).filter (· ≠ []) = lists.flatten.filter (· ≠ []) := by
  rw [List.intercalate]
  induction lists with
  | nil => rfl
  | cons l lists ih =>
    cases lists with
    | nil => rfl
    | cons l' lists =>
      have hright : (l :: l' :: lists).flatten = l ++ (l' :: lists).flatten := List.flatten_cons
      rw [List.intersperse_cons_cons, List.flatten_cons, List.flatten_cons, hright,
        List.filter_append, List.filter_append, ih, List.filter_append]
      rfl

theorem filter_groupLines :
    (groupLines merged).filter (· ≠ []) = WRITTEN.map (assign merged) := by
  rw [groupLines, filter_intercalate, ← List.map_flatten, ← WRITTEN, List.filter_eq_self]
  intro l hl
  obtain ⟨key, -, rfl⟩ := List.mem_map.mp hl
  exact decide_eq_true assign_ne_nil

variable {M : Machine}

/-- **What the lines of a block say**, as far as the reader comes. -/
theorem foldl_blockLines (hrunner : ∀ l ∈ runnerLine M merged, hasEnd l = false) (key : Text) :
    (through hasEnd (blockLines M merged)).foldl readLine (fun _ => []) key =
      if key ∈ reached merged WRITTEN then escape (merged key)
      else (runnerLine M merged).foldl readLine (fun _ => []) key := by
  rw [blockLines, through, show hasEnd CONFIG_BEGIN = false by decide,
    if_neg Bool.false_ne_true, List.append_assoc, through_append hrunner, List.foldl_cons,
    readLine_begin, List.foldl_append]
  generalize (runnerLine M merged).foldl readLine (fun _ => []) = config
  -- an empty line says nothing
  rw [← foldl_through_filter (q := (· ≠ [])) fun l hl => by
      rw [show l = [] by simpa using hl]
      exact ⟨by decide, readLine_nil⟩]
  have hlines : (groupLines merged ++ [CONFIG_END]).filter (· ≠ []) =
      WRITTEN.map (assign merged) ++ [CONFIG_END] := by
    rw [List.filter_append, filter_groupLines]
    rfl
  rw [hlines]
  exact foldl_assign (fun k hk => llama_fields (mem_written.mp hk)) config key

end Launch
