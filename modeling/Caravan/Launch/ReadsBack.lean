import Caravan.Launch.BlockLines

/-!
# What the config block reads back as

A block reads back as a whole (`reads_back_iff`) if no value has a character that the writer
escapes, no value has a line break, and nothing is lost behind a value with the end marker in it:
the reader stops at the first one. What is read back has the runner that was written, and is saved
as the same block.
-/

namespace Launch

open Python

variable {merged : Config} {key : Text} {M : Machine}

/-! ### The runner's line -/

section Runner

variable {config : Config}

@[simp] theorem merge_merge : merge (merge config) = merge config :=
  funext fun key => Text.strip_strip (config key)

theorem lower_self {t : Text}
    (h : (t.all fun c => decide (c.val < 128 ∧ lowerAscii c = c)) = true) : M.lower t = t := by
  rw [List.all_eq_true] at h
  have hc : ∀ c ∈ t, c.val < 128 ∧ lowerAscii c = c := fun c hm => of_decide_eq_true (h c hm)
  rw [M.lower_ascii t fun c hm => (hc c hm).1]
  exact (List.map_congr_left fun c hm => (hc c hm).2).trans (List.map_id t)

/-- Looking an id up a second time changes nothing. -/
theorem runnerId_lower : M.lower (runnerId M config).strip = runnerId M config := by
  unfold runnerId
  dsimp only
  split
  · rw [M.lower_strip, M.lower_lower, merge, Text.strip_strip]
  split
  · exact lower_self (by decide)
  · exact lower_self (by decide)

theorem runnerId_prism (h : runnerId M config = Text.of "prism") :
    M.lower (merge config (Text.of "RUNNER")) = Text.of "prism" := by
  unfold runnerId at h
  dsimp only at h
  split at h
  · exact h
  split at h
  · exact absurd h (by decide)
  · exact absurd h (by decide)

/-- The two runners of llama.cpp. -/
theorem forConfig_llama (h : (forConfig M config).llamaConfig = true) :
    forConfig M config = ⟨Text.of "llama-server", true, false⟩ ∨
      forConfig M config = ⟨Text.of "prism", true, false⟩ ∧
        M.lower (merge config (Text.of "RUNNER")) = Text.of "prism" := by
  have hrows : ∀ r ∈ REGISTRY, r.llamaConfig = true →
      r = ⟨Text.of "llama-server", true, false⟩ ∨ r = ⟨Text.of "prism", true, false⟩ := by
    decide
  unfold forConfig at h ⊢
  dsimp only at h ⊢
  rw [runnerId_lower] at h ⊢
  cases hfind : REGISTRY.find? fun r => r.id = runnerId M config with
  | none =>
    rw [hfind] at h
    cases h
  | some r =>
    rw [hfind] at h
    rw [Option.getD_some]
    rcases hrows r (List.mem_of_find?_eq_some hfind) h with hr | hr
    · exact .inl hr
    · have hid : r.id = runnerId M config := of_decide_eq_true
        (List.find?_some (p := fun r : Runner => decide (r.id = runnerId M config)) hfind)
      exact .inr ⟨hr, runnerId_prism (by rw [← hid, hr])⟩

/-- What a config says of its runner. -/
theorem forConfig_of_prism (h : M.lower (merge config (Text.of "RUNNER")) = Text.of "prism") :
    forConfig M config = ⟨Text.of "prism", true, false⟩ := by
  have hid : runnerId M config = Text.of "prism" := by
    unfold runnerId
    dsimp only
    rw [h]
    exact if_pos (by decide)
  unfold forConfig
  dsimp only
  rw [runnerId_lower, hid]
  decide

theorem forConfig_of_empty (hrunner : merge config (Text.of "RUNNER") = [])
    (hkind : merge config (Text.of "CELL_KIND") = []) :
    forConfig M config = ⟨Text.of "llama-server", true, false⟩ := by
  have hnil : M.lower [] = [] := lower_self rfl
  have hid : runnerId M config = Text.of "llama-server" := by
    unfold runnerId
    dsimp only
    rw [hrunner, hkind, hnil, if_neg (not_not.mpr rfl)]
    exact if_neg (by decide)
  unfold forConfig
  dsimp only
  rw [runnerId_lower, hid]
  decide

theorem runnerLine_of_prism (h : M.lower (merge config (Text.of "RUNNER")) = Text.of "prism") :
    runnerLine M (merge config) = [assign (merge config) (Text.of "RUNNER")] := by
  unfold runnerLine
  dsimp only
  rw [forConfig_of_prism (by rwa [merge_merge])]
  refine if_pos ⟨fun hnil => ?_, rfl, by decide⟩
  rw [hnil, show M.lower [] = [] from lower_self rfl] at h
  exact absurd h (by decide)

theorem runnerLine_of_empty (h : merge config (Text.of "RUNNER") = []) :
    runnerLine M (merge config) = [] := by
  unfold runnerLine
  exact if_neg fun hr => hr.1 h

/-- Only the runner that shares the block has a line of its own. -/
theorem runnerLine_cases : runnerLine M (merge config) = [] ∨
    M.lower (merge config (Text.of "RUNNER")) = Text.of "prism" := by
  by_cases hr : merge config (Text.of "RUNNER") ≠ [] ∧
      (forConfig M (merge config)).llamaConfig = true ∧
      (forConfig M (merge config)).id ≠ Text.of "llama-server"
  · rcases forConfig_llama hr.2.1 with h | ⟨-, h⟩
    · exact absurd (by rw [h]) hr.2.2
    · exact .inr (by rwa [merge_merge] at h)
  · exact .inl (if_neg hr)

theorem letter_plain {c : CodePoint} (h : isLetter c = true) :
    Plain c ∧ isBreak c = false ∧ c ≠ codePoint '#' := by
  refine ⟨⟨?_, ?_, ?_⟩, ?_, ?_⟩
  · rintro rfl
    exact absurd h (by decide)
  · rintro rfl
    exact absurd h (by decide)
  · rintro rfl
    exact absurd h (by decide)
  · unfold isLetter at h
    unfold isBreak
    simp only [Bool.or_eq_true, Bool.and_eq_true, decide_eq_true_eq] at h
    simp only [Bool.or_eq_false_iff, Bool.and_eq_false_iff, decide_eq_false_iff_not,
      beq_eq_false_iff_ne]
    omega
  · rintro rfl
    exact absurd h (by decide)

end Runner

/-! ### The block in its script -/

section Script

variable {config : Config} {before : Text}

/-- **A block is cut out of its script** up to the first line with the end marker. -/
theorem splitConfig_around (hbegin : before.contains CONFIG_BEGIN = false)
    (hend : before.contains CONFIG_END = false) {lines : List Text}
    (hlines : ∀ l ∈ lines, Text.LF ∉ l) (hin : ∃ l ∈ lines, hasEnd l = true) (behind : Text) :
    ∃ rest, splitConfig M (before ++ (unlines (CONFIG_BEGIN :: lines) ++ behind)) =
      .ok (before, unlines (through hasEnd (CONFIG_BEGIN :: lines)), rest) := by
  have hhead : (unlines (CONFIG_BEGIN :: lines) ++ behind).head? = some (codePoint '#') := by
    rw [unlines_cons]
    rfl
  have hfirst : CONFIG_BEGIN <+: unlines (CONFIG_BEGIN :: lines) ++ behind := by
    rw [unlines_cons]
    exact List.prefix_append _ _
  -- neither marker stands over the place where the block begins
  have hskip {marker w : Text} (heq : marker = codePoint '#' :: w) (hw : codePoint '#' ∉ w)
      (hnot : before.contains marker = false) : ∀ r, r ≠ [] → r <:+ before →
        ¬ marker <+: r ++ (unlines (CONFIG_BEGIN :: lines) ++ behind) := by
    subst heq
    exact fun r hr hs => not_prefix_append hw hr hhead fun hi =>
      Text.not_contains_iff.mp hnot (hi.trans hs.isInfix)
  obtain ⟨i, hfind, hline, hpre⟩ := @Text.find_unlines CONFIG_END (by decide)
    (by decide) (CONFIG_BEGIN :: lines)
    (List.forall_mem_cons.mpr ⟨by decide, hlines⟩) (by
      obtain ⟨l, hl, hl'⟩ := hin
      exact ⟨l, List.mem_cons_of_mem _ hl, Text.contains_iff.mp hl'⟩) behind
  have hi : i ≠ 0 := by
    rintro rfl
    -- the block does not begin with the end marker
    have hp := List.prefix_of_prefix_length_le (prefix_of_find hfind) hfirst (by decide)
    exact absurd hp (by decide)
  have hbegins : find (before ++ (unlines (CONFIG_BEGIN :: lines) ++ behind)) CONFIG_BEGIN =
      some before.length := by
    have heq : CONFIG_BEGIN = codePoint '#' :: Text.of " BEGIN LLAMA CONFIG" := by decide
    rw [find_append (hskip heq (by decide) hbegin), find_of_prefix hfirst,
      Option.map_some, Nat.zero_add]
  have hends : find (before ++ (unlines (CONFIG_BEGIN :: lines) ++ behind)) CONFIG_END =
      some (before.length + i) := by
    have heq : CONFIG_END = codePoint '#' :: Text.of " END LLAMA CONFIG" := by decide
    rw [find_append (hskip heq (by decide) hend), hfind, Option.map_some,
      Nat.add_comm]
  refine ⟨List.drop (before.length + (unlines (through hasEnd (CONFIG_BEGIN :: lines))).length)
    (before ++ (unlines (CONFIG_BEGIN :: lines) ++ behind)), ?_⟩
  unfold splitConfig
  rw [hbegins, hends]
  dsimp only
  rw [if_neg (by omega), lineEnd_append, hline, List.take_left, List.take_length_add_append,
    List.drop_left, ← List.prefix_iff_eq_take.mp hpre]
  rfl

variable (hbegin : before.contains CONFIG_BEGIN = false)
  (hend : before.contains CONFIG_END = false)
  (hvalues : ∀ key ∈ LLAMA_CONFIG_FIELDS, (merge config key).OneLine)
include hbegin hend hvalues

/-- **A block of one-line values reads back** as its escaped values, as far as the reader comes. -/
theorem parse_block (behind source : Text) :
    parseConfigFromText M (before ++ (unlines (blockLines M (merge config)) ++ behind)) source =
      .ok (orDefault M fun key =>
        if key ∈ reached (merge config) WRITTEN then escape (merge config key)
        else (runnerLine M (merge config)).foldl readLine (fun _ => []) key) := by
  -- the runner's name is a word of letters
  have hrunner : ∀ l ∈ runnerLine M (merge config), l.OneLine ∧ hasEnd l = false := by
    rcases @runnerLine_cases M config with hnone | hprism
    · rw [hnone]
      exact nofun
    · have hletters := M.prism _ hprism
      rw [runnerLine_of_prism hprism]
      have hfield := runner_field
      refine List.forall_mem_singleton.mpr ⟨assign_oneLine hfield fun c hc =>
        (letter_plain (hletters c hc)).2.1, ?_⟩
      rw [hasEnd, assign_contains hfield,
        escape_of_plain fun c hc => (letter_plain (hletters c hc)).1]
      refine Text.not_contains_iff.mpr fun hin => ?_
      exact (letter_plain (hletters _ (hin.subset (by decide)))).2.2 rfl
  have hassign : ∀ l ∈ groupLines (merge config), Text.OneLine l := by
    intro l hl
    by_cases hnil : l = []
    · exact hnil ▸ Text.oneLine_nil
    -- but for the empty ones, the lines are those of the fields
    have hmem := List.mem_filter (p := (· ≠ [])).mpr ⟨hl, decide_eq_true hnil⟩
    rw [filter_groupLines] at hmem
    obtain ⟨key, hkey, rfl⟩ := List.mem_map.mp hmem
    rw [mem_written] at hkey
    exact assign_oneLine (llama_fields hkey) (hvalues key hkey)
  have hlines : ∀ l ∈ blockLines M (merge config), Text.OneLine l := by
    unfold blockLines
    refine List.forall_mem_cons.mpr ⟨by decide, List.forall_mem_append.mpr
      ⟨List.forall_mem_append.mpr ⟨fun l hl => (hrunner l hl).1, hassign⟩, ?_⟩⟩
    exact List.forall_mem_singleton.mpr (by decide)
  have hin : ∃ l ∈ runnerLine M (merge config) ++ groupLines (merge config) ++ [CONFIG_END],
      hasEnd l = true :=
    ⟨CONFIG_END, List.mem_append_right _ List.mem_cons_self, by decide⟩
  obtain ⟨rest, hsplit⟩ := splitConfig_around (M := M) hbegin hend
    (fun l hl => (hlines l (List.mem_cons_of_mem _ hl)).not_mem) hin behind
  unfold parseConfigFromText
  rw [blockLines, hsplit]
  dsimp only
  rw [← blockLines, Text.splitlines_unlines fun l hl => hlines l (through_subset hl)]
  exact congrArg (fun c => Except.ok (orDefault M c))
    (funext fun key => foldl_blockLines (fun l hl => (hrunner l hl).2) key)

end Script

/-! ### What is read has one line -/

theorem strip_subset (t : Text) : t.strip ⊆ t := fun _ h =>
  (List.dropWhile_suffix isSpace).subset ((List.rdropWhile_prefix isSpace _).subset h)

theorem parseValue_subset (raw : Text) : parseValue raw ⊆ raw := by
  unfold parseValue
  dsimp only
  split
  · exact fun _ h => strip_subset raw (List.mem_of_mem_tail (List.mem_of_mem_dropLast h))
  · exact strip_subset raw

theorem readLine_oneLine {config : Config} (hconfig : ∀ key, (config key).OneLine) {line : Text}
    (hline : line.OneLine) (key : Text) : (readLine config line key).OneLine := by
  unfold readLine
  dsimp only
  split
  · exact hconfig key
  split
  · rw [Function.update_apply]
    split
    · refine hline.of_subset fun c hc => strip_subset line ?_
      exact (List.dropWhile_suffix _).subset (List.mem_of_mem_tail (parseValue_subset _ hc))
    · exact hconfig key
  · exact hconfig key

theorem foldl_oneLine {lines : List Text} (hlines : ∀ l ∈ lines, l.OneLine) {config : Config}
    (hconfig : ∀ key, (config key).OneLine) (key : Text) :
    (lines.foldl readLine config key).OneLine := by
  induction lines generalizing config with
  | nil => exact hconfig key
  | cons l lines ih =>
    obtain ⟨hl, hlines⟩ := List.forall_mem_cons.mp hlines
    exact ih hlines fun key => readLine_oneLine hconfig hl key

theorem parse_oneLine {script source : Text} {parsed : Config}
    (h : parseConfigFromText M script source = .ok parsed) (key : Text) :
    (parsed key).OneLine := by
  unfold parseConfigFromText at h
  split at h
  · cases h
  · next block _ _ =>
    obtain rfl := Except.ok.inj h
    have hread := @foldl_oneLine block.splitlines (fun l hl => Text.splitlines_oneLine hl)
      (fun _ => []) fun _ => Text.oneLine_nil
    rw [orDefault, Function.update_apply]
    split
    · split
      · exact M.oneLine
      · exact hread _
    · exact hread _

/-! ### What a block is made of -/

section Congr

variable {config config' : Config}

theorem find?_congr {α : Type} {p q : α → Bool} {l : List α} (h : ∀ a ∈ l, p a = q a) :
    l.find? p = l.find? q := by
  induction l with
  | nil => rfl
  | cons a l ih =>
    obtain ⟨ha, hl⟩ := List.forall_mem_cons.mp h
    rw [List.find?_cons, List.find?_cons, ha, ih hl]

theorem refusal_congr {merged merged' : Config}
    (h : ∀ key ∈ LLAMA_CONFIG_FIELDS, merged key = merged' key) :
    refusal M merged = refusal M merged' := by
  have hfind : (NUMBER_FIELDS.find? fun key => merged key ≠ [] && !isNumber M (merged key)) =
      NUMBER_FIELDS.find? fun key => merged' key ≠ [] && !isNumber M (merged' key) :=
    find?_congr fun key hkey => by rw [h key (number_field hkey)]
  unfold refusal
  rw [h (Text.of "MODEL_FILE") (asked_field List.mem_cons_self), h (Text.of "PORT") port_field,
    h (Text.of "FIT_TARGET") (asked_field (List.mem_append_right [_, _] List.mem_cons_self)),
    hfind]

theorem groupLines_congr {merged merged' : Config}
    (h : ∀ key ∈ LLAMA_CONFIG_FIELDS, merged key = merged' key) :
    groupLines merged = groupLines merged' := by
  unfold groupLines
  refine congrArg _ (List.map_congr_left fun group hgroup => List.map_congr_left fun key hkey => ?_)
  have hkey := mem_written.mp (List.mem_flatten.mpr ⟨group, hgroup, hkey⟩)
  unfold assign
  rw [h key hkey]

/-- A block says its fields and its runner. -/
theorem buildConfigBlock_congr
    (h : ∀ key ∈ LLAMA_CONFIG_FIELDS, merge config key = merge config' key)
    (hrunner : runnerLine M (merge config) = runnerLine M (merge config')) :
    buildConfigBlock M config = buildConfigBlock M config' := by
  unfold buildConfigBlock
  dsimp only
  rw [refusal_congr h, blockLines, hrunner, groupLines_congr h]
  rfl

theorem forConfig_congr
    (hrunner : merge config (Text.of "RUNNER") = merge config' (Text.of "RUNNER"))
    (hkind : merge config (Text.of "CELL_KIND") = merge config' (Text.of "CELL_KIND")) :
    forConfig M config = forConfig M config' := by
  unfold forConfig runnerId
  rw [hrunner, hkind]

theorem runnerLine_congr
    (hrunner : merge config (Text.of "RUNNER") = merge config' (Text.of "RUNNER"))
    (hkind : merge config (Text.of "CELL_KIND") = merge config' (Text.of "CELL_KIND")) :
    runnerLine M (merge config) = runnerLine M (merge config') := by
  unfold runnerLine assign
  rw [@forConfig_congr M (merge config) (merge config')
    (by rwa [merge_merge, merge_merge]) (by rwa [merge_merge, merge_merge]), hrunner]

/-- The models directory is not asked for the runner. -/
theorem merge_orDefault {key : Text} (h : key ≠ MODELS_DIR) :
    merge (orDefault M config) key = merge config key := by
  unfold merge orDefault
  rw [Function.update_of_ne h]

/-- A block that is written has a port of digits. -/
theorem port_of_refusal {merged : Config} (h : refusal M merged = none) :
    merged (Text.of "PORT") ≠ [] ∧ (merged (Text.of "PORT")).all M.isDigit = true := by
  unfold refusal at h
  split at h
  · cases h
  split at h
  · cases h
  · next hport =>
    obtain ⟨hne, hdigits⟩ := not_or.mp hport
    exact ⟨hne, by simpa using hdigits⟩

end Congr

/-! ### Whether a block reads back -/

/-- A script gives back the fields that were written, the models directory of the machine for an
empty one, and what it gives is saved as the same block. -/
def ReadsBack (M : Machine) (config : Config) (script source : Text) : Prop :=
  ∃ parsed, parseConfigFromText M script source = .ok parsed ∧
    (∀ key ∈ LLAMA_CONFIG_FIELDS, parsed key = orDefault M (merge config) key) ∧
    savedBlock M parsed = savedBlock M config

/-- No value has a character to escape or a line break, and behind a value with the end marker
there are only empty ones. -/
structure Readable (config : Config) : Prop where
  plain : ∀ key ∈ LLAMA_CONFIG_FIELDS, ∀ c ∈ merge config key, Plain c ∧ isBreak c = false
  ends : WRITTEN.Pairwise fun key later =>
    (merge config key).contains CONFIG_END = true → merge config later = []

section Main

variable {config : Config} {block before : Text}

theorem buildConfigBlock_ok (h : buildConfigBlock M config = .ok block) :
    refusal M (merge config) = none ∧ block = unlines (blockLines M (merge config)) := by
  unfold buildConfigBlock at h
  dsimp only at h
  split at h
  · cases h
  · next hrefusal => exact ⟨hrefusal, (Except.ok.inj h).symm⟩

/-- What the runner's line says is not about a field of llama.cpp. -/
theorem runnerLine_other {key : Text} (h : key ≠ Text.of "RUNNER") :
    (runnerLine M (merge config)).foldl readLine (fun _ => []) key = [] := by
  rcases @runnerLine_cases M config with hnone | hprism
  · rw [hnone]
    rfl
  · rw [runnerLine_of_prism hprism, List.foldl_cons, List.foldl_nil,
      readLine_assign _ runner_field, Function.update_of_ne h]

/-- The port has no end marker. -/
theorem port_hasEnd (h : refusal M (merge config) = none) :
    hasEnd (escape (merge config (Text.of "PORT"))) = false := by
  refine Text.not_contains_iff.mpr fun hin => ?_
  have hhash : codePoint '#' ∈ merge config (Text.of "PORT") :=
    of_mem_escape (hin.subset (by decide)) (by decide)
  have hdigit := List.all_eq_true.mp (port_of_refusal h).2 _ hhash
  exact absurd (M.digits _ hdigit (by decide)).1 (by decide)

/-- A reader that comes to the port comes to the models directory. -/
theorem modelsDir_reached (h : refusal M (merge config) = none)
    (hport : Text.of "PORT" ∈ reached (merge config) WRITTEN) :
    MODELS_DIR ∈ reached (merge config) WRITTEN := by
  obtain ⟨rest, hw⟩ := written_eq
  rw [reached, hw, through] at hport ⊢
  split at hport
  · exact absurd hport (by decide)
  · next hhost =>
    rw [if_neg hhost, through, port_hasEnd h, if_neg Bool.false_ne_true]
    exact List.mem_cons_of_mem _ (List.mem_cons_of_mem _ head_mem_through)

theorem forConfig_merge : forConfig M (merge config) = forConfig M config :=
  forConfig_congr (by rw [merge_merge]) (by rw [merge_merge])

theorem not_commandPath (h : (forConfig M config).llamaConfig = true) :
    ¬ (forConfig M config).commandPath = true := by
  rcases forConfig_llama h with hr | ⟨hr, -⟩
  · rw [hr]
    decide
  · rw [hr]
    decide

theorem runnerLine_orDefault :
    runnerLine M (merge (orDefault M (merge config))) = runnerLine M (merge config) :=
  runnerLine_congr (by rw [merge_orDefault (by decide), merge_merge])
    (by rw [merge_orDefault (by decide), merge_merge])

/-- **What is read is saved as it was**, where the fields and the runner are. -/
theorem savedBlock_congr {parsed : Config}
    (hfields : ∀ key ∈ LLAMA_CONFIG_FIELDS, parsed key = orDefault M (merge config) key)
    (hparsed : (forConfig M parsed).llamaConfig = true)
    (hconfig : (forConfig M config).llamaConfig = true)
    (hline : runnerLine M (merge parsed) = runnerLine M (merge config)) :
    savedBlock M parsed = savedBlock M config := by
  unfold savedBlock
  dsimp only
  rw [forConfig_merge, forConfig_merge, if_neg (not_commandPath hparsed),
    if_neg (not_commandPath hconfig)]
  refine congrArg some (buildConfigBlock_congr (fun key hkey => ?_) ?_)
  · by_cases hdir : key = MODELS_DIR
    · subst hdir
      have hdir := hfields MODELS_DIR hkey
      unfold orDefault at hdir ⊢
      rw [Function.update_self] at hdir
      unfold merge at hdir ⊢
      rw [Function.update_self, Function.update_self, hdir]
      split
      · -- the directory of the machine, with or without the blanks at its ends
        split
        · rfl
        · exact Text.strip_strip _
      · next hne => rw [Text.strip_strip, if_neg hne, Text.strip_strip]
    · have hkey := hfields key hkey
      rw [orDefault, Function.update_of_ne hdir] at hkey
      rw [merge_orDefault hdir, merge_orDefault hdir, merge_merge, merge_merge, merge, hkey]
      exact Text.strip_strip _
  · rw [runnerLine_orDefault, runnerLine_orDefault, hline]

/-- What is read of a block. -/
def readOf (M : Machine) (config : Config) : Config := fun key =>
  if key ∈ reached (merge config) WRITTEN then escape (merge config key)
  else (runnerLine M (merge config)).foldl readLine (fun _ => []) key

theorem not_reached {key : Text} (h : key ∉ LLAMA_CONFIG_FIELDS) :
    key ∉ reached (merge config) WRITTEN :=
  fun hin => h (mem_written.mp (through_subset hin))

/-- The runner is not one of the fields. -/
theorem ne_runner {key : Text} (h : key ∈ LLAMA_CONFIG_FIELDS) : key ≠ Text.of "RUNNER" := by
  rintro rfl
  exact runner_not_field h

/-- Of the runner what was written is read. -/
theorem readOf_runner :
    readOf M config (Text.of "RUNNER") =
      if M.lower (merge config (Text.of "RUNNER")) = Text.of "prism" then
        merge config (Text.of "RUNNER") else [] := by
  rw [readOf, if_neg (not_reached runner_not_field)]
  by_cases hprism : M.lower (merge config (Text.of "RUNNER")) = Text.of "prism"
  · have hletters := M.prism _ hprism
    rw [if_pos hprism, runnerLine_of_prism hprism, List.foldl_cons, List.foldl_nil,
      readLine_assign _ runner_field, Function.update_self,
      escape_of_plain fun c hc => (letter_plain (hletters c hc)).1]
  · rw [if_neg hprism, runnerLine_cases.resolve_right hprism]
    rfl

theorem readOf_kind : readOf M config (Text.of "CELL_KIND") = [] := by
  rw [readOf, if_neg (not_reached kind_not_field)]
  exact runnerLine_other (by decide)

/-- What is read has the runner of llama.cpp that was written, and its line. -/
theorem runner_readOf :
    (forConfig M (orDefault M (readOf M config))).llamaConfig = true ∧
      runnerLine M (merge (orDefault M (readOf M config))) = runnerLine M (merge config) := by
  have hrunner : merge (orDefault M (readOf M config)) (Text.of "RUNNER") =
      if M.lower (merge config (Text.of "RUNNER")) = Text.of "prism" then
        merge config (Text.of "RUNNER") else [] := by
    rw [merge_orDefault (by decide), merge, readOf_runner]
    split
    · exact Text.strip_strip _
    · rfl
  have hkind : merge (orDefault M (readOf M config)) (Text.of "CELL_KIND") = [] := by
    rw [merge_orDefault (by decide), merge, readOf_kind]
    rfl
  by_cases hprism : M.lower (merge config (Text.of "RUNNER")) = Text.of "prism"
  · rw [if_pos hprism] at hrunner
    have hprism' := hprism
    rw [← hrunner] at hprism'
    refine ⟨by rw [forConfig_of_prism hprism'], ?_⟩
    rw [runnerLine_of_prism hprism', runnerLine_of_prism hprism, assign, assign, hrunner]
  · rw [if_neg hprism] at hrunner
    refine ⟨by rw [forConfig_of_empty hrunner hkind], ?_⟩
    rw [runnerLine_of_empty hrunner, runnerLine_cases.resolve_right hprism]

/-- Every field of a readable config is read as it was written. -/
theorem readOf_of_readable (h : Readable config) {key : Text} (hkey : key ∈ LLAMA_CONFIG_FIELDS) :
    readOf M config key = merge config key := by
  unfold readOf
  split
  · exact escape_of_plain fun c hc => (h.plain key hkey c hc).1
  · next hlost =>
    have hends : WRITTEN.Pairwise fun key later =>
        hasEnd (escape (merge config key)) = true → merge config later = [] := by
      refine h.ends.imp_of_mem fun {k later} hk _ hkl hend => hkl ?_
      rwa [hasEnd, escape_of_plain fun c hc => (h.plain k (mem_written.mp hk) c hc).1] at hend
    rw [runnerLine_other (ne_runner hkey),
      (through_lost written_nodup).mpr hends key (mem_written.mpr hkey) hlost]

variable (hllama : (forConfig M config).llamaConfig = true)
  (hblock : buildConfigBlock M config = .ok block)
  (hbegin : before.contains CONFIG_BEGIN = false) (hend : before.contains CONFIG_END = false)
include hblock hbegin hend

/-- A field that reads back has nothing to escape, or is not come to and empty. -/
theorem readable_of_reads_back {behind source : Text}
    (h : ReadsBack M config (before ++ (block ++ behind)) source) : Readable config := by
  obtain ⟨hrefusal, rfl⟩ := buildConfigBlock_ok hblock
  obtain ⟨parsed, hparsed, hfields, -⟩ := h
  have hvalues : ∀ key ∈ LLAMA_CONFIG_FIELDS, (merge config key).OneLine := by
    intro key hkey
    have hline := parse_oneLine hparsed key
    rw [hfields key hkey, orDefault, Function.update_apply] at hline
    split at hline
    · next hdir =>
      subst hdir
      split at hline
      · next hnil => exact hnil ▸ Text.oneLine_nil
      · exact hline
    · exact hline
  have hread := @parse_block M config before hbegin hend hvalues behind source
  rw [hparsed] at hread
  obtain rfl := Except.ok.inj hread
  have hread {key : Text} (hkey : key ∈ LLAMA_CONFIG_FIELDS) (hdir : key ≠ MODELS_DIR) :
      readOf M config key = merge config key := by
    have hfield := hfields key hkey
    rw [orDefault, orDefault, Function.update_of_ne hdir, Function.update_of_ne hdir] at hfield
    exact hfield
  have hport : Text.of "PORT" ∈ reached (merge config) WRITTEN := by
    by_contra hlost
    have hfield := hread port_field (by decide)
    rw [readOf, if_neg hlost, runnerLine_other (ne_runner port_field)] at hfield
    exact (port_of_refusal hrefusal).1 hfield.symm
  have hall {key : Text} (hkey : key ∈ LLAMA_CONFIG_FIELDS) :
      readOf M config key = merge config key := by
    by_cases hdir : key = MODELS_DIR
    · subst hdir
      have hfield := hfields MODELS_DIR hkey
      have hreached : readOf M config MODELS_DIR = escape (merge config MODELS_DIR) :=
        if_pos (modelsDir_reached hrefusal hport)
      unfold orDefault at hfield
      rw [Function.update_self, Function.update_self] at hfield
      change (if readOf M config MODELS_DIR = [] then _ else readOf M config MODELS_DIR) = _
        at hfield
      rw [hreached] at hfield ⊢
      by_cases hnil : merge config MODELS_DIR = []
      · rw [hnil]
        rfl
      · have hne : escape (merge config MODELS_DIR) ≠ [] := by
          obtain ⟨c, hc⟩ := List.exists_mem_of_ne_nil _ hnil
          by_cases hplain : ∀ d ∈ merge config MODELS_DIR, Plain d
          · rwa [escape_of_plain hplain]
          · push Not at hplain
            obtain ⟨d, hd, hnot⟩ := hplain
            exact List.ne_nil_of_length_pos (Nat.zero_lt_of_lt (length_escape hd hnot))
        rwa [if_neg hne, if_neg hnil] at hfield
    · exact hread hkey hdir
  -- a field that is not come to is empty
  have hlost {key : Text} (hkey : key ∈ LLAMA_CONFIG_FIELDS)
      (hout : key ∉ reached (merge config) WRITTEN) : merge config key = [] := by
    have hfield := hall hkey
    rw [readOf, if_neg hout, runnerLine_other (ne_runner hkey)] at hfield
    exact hfield.symm
  have hplain {key : Text} (hkey : key ∈ LLAMA_CONFIG_FIELDS) :
      ∀ c ∈ merge config key, Plain c := by
    by_cases hin : key ∈ reached (merge config) WRITTEN
    · have hfield := hall hkey
      rw [readOf, if_pos hin] at hfield
      exact plain_of_escape hfield
    · rw [hlost hkey hin]
      exact fun c hc => absurd hc List.not_mem_nil
  refine ⟨fun key hkey c hc => ⟨hplain hkey c hc, hvalues key hkey c hc⟩, ?_⟩
  have hcut := (through_lost written_nodup).mp fun key hkey => hlost (mem_written.mp hkey)
  refine hcut.imp_of_mem fun {k later} hk _ hkl hend => hkl ?_
  rwa [hasEnd, escape_of_plain (hplain (mem_written.mp hk))]

include hllama

/-- **The block reads back exactly when** no value has anything to escape or a line break, and
behind a value with the end marker there are only empty ones. -/
theorem reads_back_iff (behind source : Text) :
    ReadsBack M config (before ++ (block ++ behind)) source ↔ Readable config := by
  refine ⟨readable_of_reads_back hblock hbegin hend, fun h => ?_⟩
  obtain ⟨-, rfl⟩ := buildConfigBlock_ok hblock
  have hvalues : ∀ key ∈ LLAMA_CONFIG_FIELDS, (merge config key).OneLine :=
    fun key hkey c hc => (h.plain key hkey c hc).2
  obtain ⟨hrunner, hline⟩ := @runner_readOf M config
  have hfields : ∀ key ∈ LLAMA_CONFIG_FIELDS,
      orDefault M (readOf M config) key = orDefault M (merge config) key := by
    intro key hkey
    unfold orDefault
    rw [Function.update_apply, Function.update_apply, readOf_of_readable h modelsDir_field,
      readOf_of_readable h hkey]
  exact ⟨_, parse_block hbegin hend hvalues behind source, hfields,
    savedBlock_congr hfields hrunner hllama hline⟩

end Main

/-! ### One machine -/

/-- A character that is made a small one is still no blank, or still one. -/
theorem isSpace_lowerAscii (c : CodePoint) : isSpace (lowerAscii c) = isSpace c := by
  unfold lowerAscii
  split
  · next h =>
    have hc : isSpace c = false := by
      unfold isSpace
      simp
      omega
    rw [hc]
    unfold isSpace
    simp
    omega
  · rfl

theorem lowerAscii_lowerAscii (c : CodePoint) : lowerAscii (lowerAscii c) = lowerAscii c := by
  unfold lowerAscii
  by_cases h : 0x41 ≤ c.val ∧ c.val ≤ 0x5A
  · rw [dif_pos h, dif_neg]
    dsimp only
    omega
  · rw [dif_neg h, dif_neg h]

theorem strip_map_lowerAscii (t : Text) :
    Text.strip (t.map lowerAscii) = (Text.strip t).map lowerAscii := by
  have hspace : isSpace ∘ lowerAscii = isSpace := funext isSpace_lowerAscii
  unfold Text.strip Text.lstrip Text.rstrip List.rdropWhile
  rw [List.dropWhile_map, hspace, ← List.map_reverse, List.dropWhile_map, hspace,
    ← List.map_reverse]

/-- A machine that tells letters and digits apart in ASCII only. -/
def Machine.ascii : Machine where
  lower t := t.map lowerAscii
  isDigit c := 0x30 ≤ c.val && c.val ≤ 0x39
  isDecimal c := 0x30 ≤ c.val && c.val ≤ 0x39
  startScript := Text.of "start.sh"
  modelsDir := Text.of "models"
  lower_ascii _ _ := rfl
  lower_lower t := by
    rw [List.map_map]
    exact List.map_congr_left fun c _ => lowerAscii_lowerAscii c
  lower_strip := strip_map_lowerAscii
  prism t h c hc := by
    have hmem : lowerAscii c ∈ Text.of "prism" := h ▸ List.mem_map_of_mem hc
    have hsmall : ∀ d ∈ Text.of "prism", 0x61 ≤ d.val ∧ d.val ≤ 0x7A := by
      intro d hd
      have hall := List.all_eq_true.mp (show (Text.of "prism").all
        (fun d => 0x61 ≤ d.val && d.val ≤ 0x7A) = true by decide) d hd
      rwa [Bool.and_eq_true, decide_eq_true_iff, decide_eq_true_iff] at hall
    have hd := hsmall _ hmem
    unfold lowerAscii at hd
    unfold isLetter
    simp only [Bool.or_eq_true, Bool.and_eq_true, decide_eq_true_eq]
    split at hd
    · next hlarge => exact .inl hlarge
    · exact .inr hd
  digits c h _ := by
    rwa [Bool.and_eq_true, decide_eq_true_iff, decide_eq_true_iff] at h
  oneLine := by decide

/-! A config of two fields reads back, and one with a quote in a third does not. -/

def fieldsOf (pairs : List (Text × Text)) : Config := fun key => (pairs.lookup key).getD []

def SMALL : List (Text × Text) :=
  [(Text.of "MODEL_FILE", Text.of "m.gguf"), (Text.of "PORT", Text.of "8080")]

def THINKING : List (Text × Text) :=
  SMALL ++ [(Text.of "CHAT_TEMPLATE_KWARGS", Text.of "\x7b\"enable_thinking\": false\x7d")]

/-- What stands before the block. -/
def SHEBANG : Text := Text.of "#!/bin/sh\n"

/-- The text of a config's block. -/
def blockOf (config : Config) : Text := unlines (blockLines Machine.ascii (merge config))

theorem buildConfigBlock_of_refusal {config : Config}
    (h : refusal Machine.ascii (merge config) = none) :
    buildConfigBlock Machine.ascii config = .ok (blockOf config) := by
  unfold buildConfigBlock
  dsimp only
  rw [h]
  rfl

theorem small_built : buildConfigBlock Machine.ascii (fieldsOf SMALL) =
    .ok (blockOf (fieldsOf SMALL)) :=
  buildConfigBlock_of_refusal (by decide)

theorem thinking_built : buildConfigBlock Machine.ascii (fieldsOf THINKING) =
    .ok (blockOf (fieldsOf THINKING)) :=
  buildConfigBlock_of_refusal (by decide)

theorem small_readable : Readable (fieldsOf SMALL) := by
  -- a field has one of the two values, or none
  have hvalue (key : Text) : merge (fieldsOf SMALL) key ∈
      [Text.of "m.gguf", Text.of "8080", []] := by
    unfold merge fieldsOf SMALL
    rw [List.lookup_cons, List.lookup_cons]
    split
    · decide
    · split
      · decide
      · exact List.mem_append_right [_, _] (List.mem_singleton.mpr rfl)
  have hplain : ([Text.of "m.gguf", Text.of "8080", []].all fun value =>
      value.all fun c => Plain c ∧ isBreak c = false) = true := by decide
  have hend : ([Text.of "m.gguf", Text.of "8080", []].all fun value =>
      !Text.contains value CONFIG_END) = true := by decide
  refine ⟨fun key _ c hc => ?_, List.pairwise_of_forall fun key later h => ?_⟩
  · have hall := List.all_eq_true.mp hplain _ (hvalue key)
    exact of_decide_eq_true (List.all_eq_true.mp hall c hc)
  · have hnot := List.all_eq_true.mp hend _ (hvalue key)
    rw [h] at hnot
    exact absurd hnot Bool.false_ne_true

theorem reads_back_iff_small :
    (forConfig Machine.ascii (fieldsOf SMALL)).llamaConfig = true ∧
      buildConfigBlock Machine.ascii (fieldsOf SMALL) = .ok (blockOf (fieldsOf SMALL)) ∧
      SHEBANG.contains CONFIG_BEGIN = false ∧ SHEBANG.contains CONFIG_END = false ∧
      ReadsBack Machine.ascii (fieldsOf SMALL) (SHEBANG ++ (blockOf (fieldsOf SMALL) ++ [])) [] := by
  have hllama : (forConfig Machine.ascii (fieldsOf SMALL)).llamaConfig = true := by
    decide
  have hbegin : SHEBANG.contains CONFIG_BEGIN = false := by decide
  have hend : SHEBANG.contains CONFIG_END = false := by decide
  exact ⟨hllama, small_built, hbegin, hend,
    (reads_back_iff hllama small_built hbegin hend [] []).mpr small_readable⟩

theorem thinking_lost :
    (forConfig Machine.ascii (fieldsOf THINKING)).llamaConfig = true ∧
      buildConfigBlock Machine.ascii (fieldsOf THINKING) = .ok (blockOf (fieldsOf THINKING)) ∧
      SHEBANG.contains CONFIG_BEGIN = false ∧ SHEBANG.contains CONFIG_END = false ∧
      ¬ ReadsBack Machine.ascii (fieldsOf THINKING)
        (SHEBANG ++ (blockOf (fieldsOf THINKING) ++ [])) [] := by
  have hbegin : SHEBANG.contains CONFIG_BEGIN = false := by decide
  have hend : SHEBANG.contains CONFIG_END = false := by decide
  refine ⟨by decide, thinking_built, hbegin, hend, fun h => ?_⟩
  have hreadable := readable_of_reads_back thinking_built hbegin hend h
  have hquote : codePoint '"' ∈ merge (fieldsOf THINKING) (Text.of "CHAT_TEMPLATE_KWARGS") := by
    decide
  have hfield : Text.of "CHAT_TEMPLATE_KWARGS" ∈ LLAMA_CONFIG_FIELDS :=
    asked_field (List.mem_append_right [_, _, _, _] List.mem_cons_self)
  exact (hreadable.plain _ hfield _ hquote).1.2.1 rfl

end Launch
