import Caravan.Cloud.Desks
import Mathlib.Data.List.Infix

/-!
# What a model of the entry does

A client of the entry is told what each of its models does: its jobs, what it takes and gives,
the languages, the longest recording. A pool answers from whichever of its rows serves, so its
kind is folded from the kinds of the rows that may serve (`ofPool`), and what the fold keeps is
what all of them do (`of_pool_keeps`).

A kind is kept by another (`ModelKind.Keeps`) where the other does all that the kind says. Rows
without a common job make a kind that is `mixed`: it says nothing, and is asked for every path.
-/

namespace Entry

open Python

/-! ### The words -/

/-- `JOBS` -/
inductive Job where
  | llm
  | embed
  | asr
  | tts
  | translate
  | speechTranslate
  | voiceChat
  | robotPolicy
  deriving DecidableEq, Repr

def JOBS : List Job :=
  [.llm, .embed, .asr, .tts, .translate, .speechTranslate, .voiceChat, .robotPolicy]

def Job.word : Job → Text
  | .llm => "llm"
  | .embed => "embed"
  | .asr => "asr"
  | .tts => "tts"
  | .translate => "translate"
  | .speechTranslate => "speech-translate"
  | .voiceChat => "voice-chat"
  | .robotPolicy => "robot-policy"

/-- What a model takes or gives. -/
inductive Modality where
  | text
  | image
  | audio
  | embeddings
  | actions
  deriving DecidableEq, Repr

def Modality.word : Modality → Text
  | .text => "text"
  | .image => "image"
  | .audio => "audio"
  | .embeddings => "embeddings"
  | .actions => "actions"

/-- `WORK`: what a job takes, and what it gives. -/
def WORK : Job → List Modality × List Modality
  | .llm => ([.text], [.text])
  | .embed => ([.text], [.embeddings])
  | .asr => ([.audio], [.text])
  | .speechTranslate => ([.audio], [.text])
  | .tts => ([.text], [.audio])
  | .translate => ([.text], [.text])
  | .robotPolicy => ([.image, .text], [.actions])
  | .voiceChat => ([.audio, .text], [.audio, .text])

/-- `PATHS` -/
def PATHS : Job → List Text
  | .llm => ["/chat/completions", "/responses", "/completions", "/messages"]
  | .embed => ["/embeddings"]
  | .asr => ["/audio/transcriptions", "/audio/translations"]
  | .speechTranslate => ["/audio/transcriptions", "/audio/translations"]
  | .tts => ["/audio/speech"]
  | .translate => []
  | .robotPolicy => ["/robot/predict"]
  | .voiceChat => []

def INPUTS : List Modality := [.text, .image, .audio]

def SUBSCRIPTION_INPUTS : List Modality := [.text, .image]

/-! ### A kind -/

/-- `ModelKind`. No language is none that is known, and so is no length. -/
structure ModelKind where
  jobs : List Job
  inputs : List Modality
  languages : List Text
  maxAudioMs : Option ℤ
  mixed : Bool
  deriving DecidableEq, Repr

namespace ModelKind

/-- `ModelKind(jobs, inputs, languages, max_audio_ms)` -/
def make (jobs : List Job) (inputs : List Modality) (languages : List Text)
    (maxAudioMs : Option ℤ) : ModelKind where
  jobs := JOBS.filter (· ∈ jobs)
  inputs := INPUTS.filter (· ∈ inputs)
  languages := languages
  maxAudioMs := maxAudioMs
  mixed := false

/-- `ModelKind(mixed=True)` -/
def ofMixed : ModelKind := ⟨[], [], [], none, true⟩

/-- `serves` -/
def serves (k : ModelKind) (path : Text) : Bool :=
  if k.mixed then true
  else
    let clean := (path.takeWhile (· ≠ codePoint '?')).rdropWhile (· = codePoint '/')
    k.jobs.any fun job => (PATHS job).any fun stop => stop.isSuffixOf clean

/-- What is taken and given, as `architecture` says it. -/
structure Architecture where
  inputModalities : List Modality
  outputModalities : List Modality
  deriving DecidableEq, Repr

/-- What a model takes for one of its jobs. -/
def inputsOf (k : ModelKind) (job : Job) : List Modality :=
  if job = .llm then k.inputs else (WORK job).1

/-- `architecture` -/
def architecture (k : ModelKind) : Option Architecture :=
  match k.mixed, k.jobs with
  | false, [job] => some ⟨k.inputsOf job, (WORK job).2⟩
  | _, _ => none

end ModelKind

/-! ### One row -/

/-- What a router output says of the model behind it. -/
structure Facts where
  jobs : List Text := []
  inputs : List Text := []
  languages : List Text := []
  maxAudioMs : Option ℤ := none
  deriving DecidableEq, Repr

/-- A row of a pool. -/
structure Row where
  kind : Text := "account"
  enabled : Bool := true
  accountId : Text := []
  output : Text := []
  deriving DecidableEq, Repr

/-- `of_row` -/
def ofRow (row : Row) (account : Option Cloud.Account) (output : Option Facts) :
    Option ModelKind :=
  if row.kind = "account" then
    account.map fun a =>
      .make [.llm] (if a.isSubscription then SUBSCRIPTION_INPUTS else [.text]) [] none
  else
    let facts := output.getD {}
    if facts.jobs = [] then none
    else
      let inputs := if facts.inputs = [] then [Modality.text.word] else facts.inputs
      some (.make (JOBS.filter (·.word ∈ facts.jobs)) (INPUTS.filter (·.word ∈ inputs))
        facts.languages (facts.maxAudioMs.filter (0 < ·)))

/-! ### A pool -/

section Pool

variable (accountOf : Text → Option Cloud.Account) (outputOf : Text → Option Facts)

/-- `may_serve` -/
def mayServe (row : Row) : Bool :=
  if !row.enabled || row.kind = "open" then false
  else if row.kind = "account" then (accountOf row.accountId).isSome
  else (outputOf row.output).isSome

/-- The kind of a row that may serve. -/
def rowKind (row : Row) : Option ModelKind :=
  ofRow row (if row.kind = "account" then accountOf row.accountId else none)
    (if row.kind = "output" then outputOf row.output else none)

/-- What all of some kinds do, the first of them apart. -/
def shared (k : ModelKind) (ks : List ModelKind) : ModelKind :=
  let all := k :: ks
  let jobs := k.jobs.filter fun job => ks.all fun o => job ∈ o.jobs
  let inputs := INPUTS.filter fun i => all.all fun o => Job.llm ∉ o.jobs || i ∈ o.inputs
  let languages :=
    if all.all fun o => o.languages ≠ [] then
      k.languages.filter fun l => ks.all fun o => l ∈ o.languages
    else []
  let audio := all.map ModelKind.maxAudioMs
  if jobs = [] then .ofMixed
  else .make jobs (if .llm ∈ jobs then inputs else []) languages
    (if audio.all Option.isSome then (audio.filterMap id).min? else none)

/-- `of_pool` -/
def ofPool (steps : List Row) : Option ModelKind :=
  match (steps.filter (mayServe accountOf outputOf)).mapM (rowKind accountOf outputOf) with
  | none => none
  | some [] => none
  | some (k :: ks) => some (shared k ks)

end Pool

/-! ### What one kind keeps of another -/

namespace ModelKind

/-- What a model takes for any of its jobs. -/
def Takes (k : ModelKind) (i : Modality) : Prop := ∃ job ∈ k.jobs, i ∈ k.inputsOf job

def Gives (k : ModelKind) (o : Modality) : Prop := ∃ job ∈ k.jobs, o ∈ (WORK job).2

/-- All that `k` says is done by `r`. A mixed kind says nothing of a path. -/
structure Keeps (k r : ModelKind) : Prop where
  jobs : k.jobs ⊆ r.jobs
  inputs : k.inputs ⊆ r.inputs
  languages : k.languages ⊆ r.languages
  audio : ∀ m ∈ k.maxAudioMs, ∃ n ∈ r.maxAudioMs, m ≤ n
  takes : ∀ a ∈ k.architecture, ∀ i ∈ a.inputModalities, r.Takes i
  gives : ∀ a ∈ k.architecture, ∀ o ∈ a.outputModalities, r.Gives o
  paths : k.mixed = false → ∀ path, k.serves path = true → r.serves path = true

variable {k r : ModelKind}

theorem architecture_eq_some {a : Architecture} (h : a ∈ k.architecture) :
    ∃ job, job ∈ k.jobs ∧ a = ⟨k.inputsOf job, (WORK job).2⟩ := by
  unfold architecture at h
  split at h
  · next job _ hjobs =>
    refine ⟨job, ?_, (Option.some.inj h).symm⟩
    rw [hjobs]
    exact List.mem_singleton_self job
  · cases h

theorem inputsOf_subset (hinputs : k.inputs ⊆ r.inputs) (job : Job) :
    k.inputsOf job ⊆ r.inputsOf job := by
  intro i hi
  unfold inputsOf at hi ⊢
  split
  · next hjob =>
    rw [if_pos hjob] at hi
    exact hinputs hi
  · next hjob =>
    rw [if_neg hjob] at hi
    exact hi

theorem serves_of_jobs (hjobs : k.jobs ⊆ r.jobs) (hmixed : k.mixed = false) {path : Text}
    (h : k.serves path = true) : r.serves path = true := by
  unfold serves at h ⊢
  rw [hmixed, if_neg Bool.false_ne_true] at h
  split
  · rfl
  · -- the job that answers the path is one of `r` too
    obtain ⟨job, hjob, hends⟩ := List.any_eq_true.mp h
    exact List.any_eq_true.mpr ⟨job, hjobs hjob, hends⟩

/-- The jobs and the inputs decide what is taken and given and which paths are served. -/
theorem Keeps.of_parts (hjobs : k.jobs ⊆ r.jobs) (hinputs : k.inputs ⊆ r.inputs)
    (hlanguages : k.languages ⊆ r.languages)
    (haudio : ∀ m ∈ k.maxAudioMs, ∃ n ∈ r.maxAudioMs, m ≤ n) : k.Keeps r where
  jobs := hjobs
  inputs := hinputs
  languages := hlanguages
  audio := haudio
  takes := by
    intro a ha i hi
    obtain ⟨job, hjob, rfl⟩ := architecture_eq_some ha
    exact ⟨job, hjobs hjob, inputsOf_subset hinputs job hi⟩
  gives := by
    intro a ha o ho
    obtain ⟨job, hjob, rfl⟩ := architecture_eq_some ha
    exact ⟨job, hjobs hjob, ho⟩
  paths := by
    intro hmixed path hpath
    exact serves_of_jobs hjobs hmixed hpath

/-- A kind that says nothing is kept by every kind. -/
theorem keeps_ofMixed (r : ModelKind) : ofMixed.Keeps r :=
  .of_parts (List.nil_subset _) (List.nil_subset _) (List.nil_subset _)
    fun _ hm => absurd hm (Option.not_mem_none _)

end ModelKind

/-! ### What a pool keeps of its rows -/

section Shared

variable {k r : ModelKind} {ks : List ModelKind}

theorem mem_shared_jobs {job : Job} :
    job ∈ (k.jobs.filter fun job => ks.all fun o => job ∈ o.jobs) ↔
      ∀ o ∈ k :: ks, job ∈ o.jobs := by
  rw [List.mem_filter, List.all_eq_true, List.forall_mem_cons]
  simp only [decide_eq_true_eq]

theorem mem_shared_languages {l : Text} :
    l ∈ (k.languages.filter fun l => ks.all fun o => l ∈ o.languages) ↔
      ∀ o ∈ k :: ks, l ∈ o.languages := by
  rw [List.mem_filter, List.all_eq_true, List.forall_mem_cons]
  simp only [decide_eq_true_eq]

/-- The shortest of some lengths is no longer than any of them. -/
theorem min_le {lengths : List (Option ℤ)} {m : ℤ}
    (h : m ∈ if lengths.all Option.isSome then (lengths.filterMap id).min? else none)
    {n : Option ℤ} (hn : n ∈ lengths) : ∃ x ∈ n, m ≤ x := by
  split at h
  · next hall =>
    obtain ⟨x, rfl⟩ := Option.isSome_iff_exists.mp (List.all_eq_true.mp hall n hn)
    have hx : x ∈ lengths.filterMap id := List.mem_filterMap.mpr ⟨some x, hn, rfl⟩
    exact ⟨x, rfl, (List.min?_eq_some_iff.mp h).2 x hx⟩
  · exact absurd h (Option.not_mem_none _)

/-- **The fold says only what each of the kinds does.** -/
theorem shared_keeps (hr : r ∈ k :: ks) : (shared k ks).Keeps r := by
  unfold shared
  dsimp only
  split
  · exact ModelKind.keeps_ofMixed r
  refine .of_parts ?_ ?_ ?_ ?_
  · intro job hjob
    obtain ⟨-, hjob⟩ := List.mem_filter.mp hjob
    exact mem_shared_jobs.mp (of_decide_eq_true hjob) r hr
  · intro i hi
    obtain ⟨-, hi⟩ := List.mem_filter.mp hi
    have hi := of_decide_eq_true hi
    split at hi
    · -- all kinds chat, so the inputs of all of them were met
      next hllm =>
      have hjob := mem_shared_jobs.mp hllm r hr
      obtain ⟨-, hall⟩ := List.mem_filter.mp hi
      have h := List.all_eq_true.mp hall r hr
      rw [Bool.or_eq_true, decide_eq_true_eq, decide_eq_true_eq] at h
      exact h.resolve_left (not_not_intro hjob)
    · exact absurd hi List.not_mem_nil
  · intro l hl
    simp only [ModelKind.make] at hl
    split at hl
    · exact mem_shared_languages.mp hl r hr
    · exact absurd hl List.not_mem_nil
  · intro m hm
    exact min_le hm (List.mem_map_of_mem hr)

end Shared

section Promise

variable {accountOf : Text → Option Cloud.Account} {outputOf : Text → Option Facts}

/-- The kinds of the rows that may serve, when all of them say one. -/
theorem ofPool_eq_some {steps : List Row} {kind : ModelKind}
    (h : ofPool accountOf outputOf steps = some kind) :
    ∃ k ks, (steps.filter (mayServe accountOf outputOf)).mapM (rowKind accountOf outputOf) =
      some (k :: ks) ∧ kind = shared k ks := by
  unfold ofPool at h
  split at h
  · cases h
  · cases h
  · next k ks hkinds => exact ⟨k, ks, hkinds, (Option.some.inj h).symm⟩

theorem mem_of_mapM {α β : Type} {f : α → Option β} {l : List α} {m : List β}
    (h : l.mapM f = some m) {a : α} (ha : a ∈ l) : ∃ b ∈ m, f a = some b := by
  induction l generalizing m with
  | nil => exact absurd ha List.not_mem_nil
  | cons c l ih =>
    rw [List.mapM_cons] at h
    obtain ⟨b, hb, h⟩ := Option.bind_eq_some_iff.mp h
    obtain ⟨bs, hbs, h⟩ := Option.bind_eq_some_iff.mp h
    obtain rfl := Option.some.inj h
    rcases List.mem_cons.mp ha with rfl | ha
    · exact ⟨b, List.mem_cons_self, hb⟩
    · obtain ⟨d, hd, hfd⟩ := ih hbs ha
      exact ⟨d, List.mem_cons_of_mem _ hd, hfd⟩

/-- **A pool promises only what its rows do**: each row that may serve says of itself what it
does, and does all that the pool says. -/
theorem of_pool_keeps {steps : List Row} {kind : ModelKind}
    (h : ofPool accountOf outputOf steps = some kind) {row : Row} (hrow : row ∈ steps)
    (hserve : mayServe accountOf outputOf row = true) :
    ∃ r, rowKind accountOf outputOf row = some r ∧ kind.Keeps r := by
  obtain ⟨k, ks, hkinds, rfl⟩ := ofPool_eq_some h
  obtain ⟨r, hr, hkind⟩ := mem_of_mapM hkinds (List.mem_filter.mpr ⟨hrow, hserve⟩)
  exact ⟨r, hkind, shared_keeps hr⟩

end Promise

/-! A pool of an ear and a chat model is mixed: it is asked for a chat, and the ear serves none. -/

def EAR : Row := { kind := "output", output := "srv:1" }

def CHAT : Row := { kind := "output", output := "srv:2" }

def cells (output : Text) : Option Facts :=
  if output = "srv:1" then
    some { jobs := ["asr"], languages := ["en", "de"], maxAudioMs := some 60000 }
  else some { jobs := ["llm"] }

theorem of_pool_keeps_ear :
    ∃ kind r, ofPool (fun _ => none) cells [EAR, EAR] = some kind ∧ kind.languages = ["en", "de"] ∧
      rowKind (fun _ => none) cells EAR = some r ∧ kind.Keeps r := by
  have h : ofPool (fun _ => none) cells [EAR, EAR] =
      some ⟨[.asr], [], ["en", "de"], some 60000, false⟩ := by decide
  obtain ⟨r, hr, hkeeps⟩ := of_pool_keeps h List.mem_cons_self (by decide)
  exact ⟨_, r, h, rfl, hr, hkeeps⟩

theorem mixed_serves_all :
    ∃ kind r, ofPool (fun _ => none) cells [EAR, CHAT] = some kind ∧
      mayServe (fun _ => none) cells EAR = true ∧ rowKind (fun _ => none) cells EAR = some r ∧
      kind.serves "/v1/chat/completions" = true ∧ r.serves "/v1/chat/completions" = false :=
  ⟨.ofMixed, ⟨[.asr], [.text], ["en", "de"], some 60000, false⟩, by decide, by decide, by decide,
    by decide, by decide⟩

end Entry
