import Caravan.Python.Lines

/-!
# The config block of a launch script

A cell of llama.cpp keeps its config in its own start script, between two marker lines, as one
assignment of the shell for each field. `buildConfigBlock` writes the block and
`parseConfigFromText` reads the config back out of the script. What the interpreter knows of
letters and digits, and where the machine keeps its models, is a `Machine`.
-/

namespace Launch

open Python

/-! ### Names -/

/-- `CONFIG_BEGIN` -/
def CONFIG_BEGIN : Text := Text.of "# BEGIN LLAMA CONFIG"

/-- `CONFIG_END` -/
def CONFIG_END : Text := Text.of "# END LLAMA CONFIG"

/-- `CONFIG_FIELDS` -/
def CONFIG_FIELDS : List Text :=
  [
    "HOST", "PORT", "LLAMA_MODELS_DIR", "MODEL_FILE", "MMPROJ_FILE", "SPEC_TYPE",
    "SPEC_DRAFT_MODEL_FILE", "SPEC_DRAFT_N_GPU_LAYERS", "SPEC_DRAFT_N_MAX", "SPEC_DRAFT_N_MIN",
    "SPEC_DRAFT_CACHE_TYPE_K", "SPEC_DRAFT_CACHE_TYPE_V", "SPEC_DRAFT_P_MIN", "LOAD_MODE",
    "N_CPU_MOE", "MTMD_BATCH_MAX_TOKENS", "CTX_CHECKPOINTS", "LOG_VERBOSITY", "CORS_ORIGINS",
    "CORS_CREDENTIALS", "TOOLS_RUNTIME", "API_KEY_FILE", "SWA_FULL", "ENABLE_RERANK", "CTX_SIZE",
    "THREADS", "THREADS_BATCH", "BATCH_SIZE", "UBATCH_SIZE", "PARALLEL", "N_GPU_LAYERS",
    "CACHE_TYPE_K", "CACHE_TYPE_V", "N_PREDICT", "KEEP", "CPU_RANGE", "CPU_STRICT", "POLL",
    "ROPE_SCALING", "ROPE_SCALE", "ROPE_FREQ_BASE", "ROPE_FREQ_SCALE", "KV_OFFLOAD", "MMAP",
    "CONTEXT_SHIFT", "KV_UNIFIED", "NUMA", "DEVICE", "SPLIT_MODE", "TENSOR_SPLIT", "MAIN_GPU",
    "FIT", "FIT_TARGET", "FIT_CTX", "ALIAS", "API_PREFIX", "TIMEOUT", "THREADS_HTTP",
    "CACHE_PROMPT", "CACHE_REUSE", "CACHE_RAM", "CACHE_IDLE_SLOTS", "SLEEP_IDLE_SECONDS",
    "API_KEY", "SSL_CERT_FILE", "SSL_KEY_FILE", "ENABLE_PROPS", "ENABLE_SLOTS",
    "IMAGE_MIN_TOKENS", "IMAGE_MAX_TOKENS", "REASONING", "TEMPERATURE", "TOP_K", "TOP_P",
    "MIN_P", "REASONING_FORMAT", "REASONING_BUDGET", "REASONING_PRESERVE", "CHAT_TEMPLATE",
    "CHAT_TEMPLATE_FILE", "CHAT_TEMPLATE_KWARGS", "SKIP_CHAT_PARSING", "ENABLE_JINJA",
    "ENABLE_THINKING", "ENABLE_FLASH_ATTN", "ENABLE_MLOCK", "ENABLE_METRICS",
    "ENABLE_CONT_BATCHING", "ENABLE_WEBUI", "MMPROJ_AUTO", "OFFLOAD_MMPROJ", "ENABLE_TOOLS",
    "ENABLE_AGENT", "ENABLE_MCP_PROXY", "ENABLE_EMBEDDINGS", "POOLING", "EMBD_NORMALIZE",
    "CHECKPOINT_MIN_STEP", "SLOT_PROMPT_SIMILARITY", "SLOT_SAVE_PATH", "SSE_PING_INTERVAL",
    "PRIO", "CPU_MOE", "OP_OFFLOAD", "REPACK", "WARMUP", "CHECK_TENSORS", "YARN_ORIG_CTX",
    "YARN_EXT_FACTOR", "YARN_ATTN_FACTOR", "YARN_BETA_FAST", "YARN_BETA_SLOW",
    "SPEC_DRAFT_P_SPLIT", "CPU_MOE_DRAFT", "CORS_METHODS", "CORS_HEADERS", "EXTRA_ARGS",
    "RUNNER", "CELL_KIND", "COMMAND", "HEALTH_PATH", "ENV", "WORKDIR", "VLLM_MODEL",
    "MAX_MODEL_LEN", "GPU_MEMORY_UTILIZATION", "QUANTIZATION", "DTYPE", "TENSOR_PARALLEL",
    "TRUST_REMOTE_CODE", "MAX_NUM_SEQS", "KV_CACHE_DTYPE", "REASONING_PARSER", "WHISPER_MODEL",
    "MOONSHINE_MODEL", "SEAMLESS_TGT_LANG", "TRANSLATE_MODEL", "TRANSLATE_SRC_LANG",
    "TRANSLATE_TGT_LANG", "STRATA_CONTEXT", "STRATA_KV", "STRATA_DRAFT_VOCAB",
    "STRATA_VRAM_RESERVE_MIB", "GR00T_BACKBONE", "GR00T_EMBODIMENT", "GR00T_DENOISING_STEPS",
    "ENGINE_MODEL", "ENGINE_PORT", "MODEL_NAME"].map Text.of

/-- `LLAMA_CONFIG_FIELDS` -/
def LLAMA_CONFIG_FIELDS : List Text := CONFIG_FIELDS.takeWhile (· ≠ Text.of "RUNNER")

/-- The fields that `build_config_block` takes numbers in. -/
def NUMBER_FIELDS : List Text :=
  [
    "CTX_SIZE", "THREADS", "THREADS_BATCH", "BATCH_SIZE", "UBATCH_SIZE", "PARALLEL", "N_PREDICT",
    "KEEP", "POLL", "MAIN_GPU", "FIT_CTX", "TIMEOUT", "THREADS_HTTP", "CACHE_REUSE", "CACHE_RAM",
    "SLEEP_IDLE_SECONDS", "IMAGE_MIN_TOKENS", "IMAGE_MAX_TOKENS", "REASONING_BUDGET",
    "SPEC_DRAFT_N_GPU_LAYERS", "SPEC_DRAFT_N_MAX", "SPEC_DRAFT_N_MIN"].map Text.of

/-- The groups of `build_config_block`. -/
def GROUPS : List (List Text) :=
  [
    ["HOST", "PORT"],
    ["LLAMA_MODELS_DIR", "MODEL_FILE", "MMPROJ_FILE"],
    ["SPEC_TYPE", "SPEC_DRAFT_MODEL_FILE", "SPEC_DRAFT_N_GPU_LAYERS", "SPEC_DRAFT_N_MAX",
     "SPEC_DRAFT_N_MIN", "SPEC_DRAFT_CACHE_TYPE_K", "SPEC_DRAFT_CACHE_TYPE_V"],
    ["CTX_SIZE", "THREADS", "THREADS_BATCH", "BATCH_SIZE", "UBATCH_SIZE", "PARALLEL",
     "N_GPU_LAYERS", "CACHE_TYPE_K", "CACHE_TYPE_V"],
    ["N_PREDICT", "KEEP", "CPU_RANGE", "CPU_STRICT", "POLL", "ROPE_SCALING", "ROPE_SCALE",
     "ROPE_FREQ_BASE", "ROPE_FREQ_SCALE"],
    ["KV_OFFLOAD", "MMAP", "CONTEXT_SHIFT", "KV_UNIFIED", "NUMA", "DEVICE", "SPLIT_MODE",
     "TENSOR_SPLIT", "MAIN_GPU", "FIT", "FIT_TARGET", "FIT_CTX"],
    ["ALIAS", "API_PREFIX", "TIMEOUT", "THREADS_HTTP", "CACHE_PROMPT", "CACHE_REUSE",
     "CACHE_RAM", "CACHE_IDLE_SLOTS", "SLEEP_IDLE_SECONDS", "API_KEY", "SSL_CERT_FILE",
     "SSL_KEY_FILE", "ENABLE_PROPS", "ENABLE_SLOTS"],
    ["IMAGE_MIN_TOKENS", "IMAGE_MAX_TOKENS", "REASONING", "REASONING_FORMAT", "REASONING_BUDGET",
     "REASONING_PRESERVE", "CHAT_TEMPLATE", "CHAT_TEMPLATE_FILE", "CHAT_TEMPLATE_KWARGS",
     "SKIP_CHAT_PARSING"],
    ["ENABLE_JINJA", "ENABLE_THINKING", "ENABLE_FLASH_ATTN", "ENABLE_MLOCK", "ENABLE_METRICS",
     "ENABLE_CONT_BATCHING", "ENABLE_WEBUI", "OFFLOAD_MMPROJ"],
    ["ENABLE_EMBEDDINGS", "POOLING", "EMBD_NORMALIZE"],
    ["ENABLE_TOOLS", "ENABLE_AGENT", "ENABLE_MCP_PROXY", "EXTRA_ARGS"]].map
    fun group => group.map Text.of

/-- What the groups leave out. -/
def REST : List Text := LLAMA_CONFIG_FIELDS.filter (· ∉ GROUPS.flatten)

/-- The groups in the order in which they are written. -/
def groups : List (List Text) := GROUPS ++ if REST = [] then [] else [REST]

/-! ### The machine and its runners -/

/-- An ASCII letter. -/
def isLetter (c : CodePoint) : Bool :=
  (0x41 ≤ c.val && c.val ≤ 0x5A) || (0x61 ≤ c.val && c.val ≤ 0x7A)

/-- The tables of the interpreter, as far as the launch code asks them, and two paths of the
machine. -/
structure Machine where
  /-- `str.lower` -/
  lower : Text → Text
  /-- `str.isdigit` of one character. -/
  isDigit : CodePoint → Bool
  /-- What `\d` matches. -/
  isDecimal : CodePoint → Bool
  /-- `str(START_SCRIPT)` -/
  startScript : Text
  /-- `str(DEFAULT_MODELS_DIR)` -/
  modelsDir : Text
  lower_ascii : ∀ t : Text, (∀ c ∈ t, c.val < 128) → lower t = t.map lowerAscii
  lower_lower : ∀ t, lower (lower t) = lower t
  lower_strip : ∀ t, (lower t).strip = lower t.strip
  /-- Only ASCII letters make these five. -/
  prism : ∀ t, lower t = Text.of "prism" → ∀ c ∈ t, isLetter c = true
  /-- Of ASCII the ten digits are digits. -/
  digits : ∀ c, isDigit c = true → c.val < 128 → 0x30 ≤ c.val ∧ c.val ≤ 0x39
  oneLine : modelsDir.OneLine

/-- A config, as the text of what it holds for each field, and the empty text where it holds
nothing. -/
abbrev Config := Text → Text

/-- `merged` of every function that takes a config. -/
def merge (config : Config) : Config := fun key => (config key).strip

/-- A runner, as far as the block asks it. -/
structure Runner where
  id : Text
  llamaConfig : Bool
  commandPath : Bool
  deriving DecidableEq

/-- `REGISTRY` -/
def REGISTRY : List Runner :=
  ["llama-server", "prism"].map (fun id => ⟨Text.of id, true, false⟩) ++
    ["vllm", "strata", "gr00t", "whisper", "moonshine", "transcribe", "seamless", "translate",
      "personaplex", "lfm-audio", "step-audio2", "qwen3-omni", "minicpm-omni", "custom", "ollama",
      "lmstudio"].map fun id => ⟨Text.of id, false, true⟩

/-- `UnknownRunner` -/
def UNKNOWN : Runner := ⟨[], false, false⟩

variable (M : Machine)

/-- `runner_id` -/
def runnerId (config : Config) : Text :=
  let rid := M.lower (merge config (Text.of "RUNNER"))
  if rid ≠ [] then rid
  else if M.lower (merge config (Text.of "CELL_KIND")) = Text.of "command" then Text.of "custom"
  else Text.of "llama-server"

/-- `for_config` -/
def forConfig (config : Config) : Runner :=
  let rid := M.lower (runnerId M config).strip
  (REGISTRY.find? fun r => r.id = rid).getD UNKNOWN

/-! ### Writing the block -/

/-- `str.replace` of one character by a text. -/
def replaceBy (a : CodePoint) (b t : Text) : Text := t.flatMap fun c => if c = a then b else [c]

/-- What `quote_shell_value` escapes. -/
def escape (t : Text) : Text :=
  replaceBy (codePoint '$') (Text.of "\\$") <| replaceBy (codePoint '"') (Text.of "\\\"") <|
    replaceBy (codePoint '\\') (Text.of "\\\\") t

/-- `quote_shell_value` -/
def quoteShellValue (t : Text) : Text := codePoint '"' :: (escape t ++ [codePoint '"'])

/-- A line of the block. -/
def assign (merged : Config) (key : Text) : Text :=
  key ++ codePoint '=' :: quoteShellValue (merged key)

/-- `-?\d+` -/
def isNumber (t : Text) : Bool :=
  let digits := if t.head? = some (codePoint '-') then t.tail else t
  digits ≠ [] && digits.all M.isDecimal

/-- `\d+(,\d+)*` -/
def isNumbers (t : Text) : Bool :=
  (t.splitOn (codePoint ',')).all fun part => part ≠ [] && part.all M.isDecimal

/-- The checks of `build_config_block`. -/
def refusal (merged : Config) : Option Text :=
  if merged (Text.of "MODEL_FILE") = [] then some (Text.of "MODEL_FILE is required")
  else if merged (Text.of "PORT") = [] ∨ !(merged (Text.of "PORT")).all M.isDigit then
    some (Text.of "PORT must be a number")
  else
    match NUMBER_FIELDS.find? fun key => merged key ≠ [] && !isNumber M (merged key) with
    | some key => some (key ++ Text.of " must be a number")
    | none =>
      let target := merged (Text.of "FIT_TARGET")
      if target ≠ [] ∧ !isNumbers M target then
        some (Text.of "FIT_TARGET must be a number or comma-separated numbers")
      else none

/-- The line of a runner that shares the block with the server of llama.cpp. -/
def runnerLine (merged : Config) : List Text :=
  let runner := forConfig M merged
  if merged (Text.of "RUNNER") ≠ [] ∧ runner.llamaConfig ∧ runner.id ≠ Text.of "llama-server" then
    [assign merged (Text.of "RUNNER")]
  else []

/-- The assignments, with an empty line between two groups. -/
def groupLines (merged : Config) : List Text :=
  [([] : Text)].intercalate (groups.map fun group => group.map (assign merged))

/-- The lines of `build_config_block`. -/
def blockLines (merged : Config) : List Text :=
  CONFIG_BEGIN :: (runnerLine M merged ++ groupLines merged ++ [CONFIG_END])

/-- `build_config_block` -/
def buildConfigBlock (config : Config) : Except Text Text :=
  let merged := merge config
  match refusal M merged with
  | some why => .error why
  | none => .ok (unlines (blockLines M merged))

/-! ### Reading it -/

/-- `split_config` -/
def splitConfig (t : Text) : Except Text (Text × Text × Text) :=
  match find t CONFIG_BEGIN, find t CONFIG_END with
  | some first, some last =>
    if last ≤ first then .error (Text.of "Config markers not found in " ++ M.startScript)
    else
      let stop := lineEnd t last
      .ok (t.take first, (t.take stop).drop first, t.drop stop)
  | _, _ => .error (Text.of "Config markers not found in " ++ M.startScript)

/-- A text stands between two of one character. -/
def between (c : CodePoint) (t : Text) : Bool := t.head? = some c && t.getLast? = some c

/-- `parse_value` -/
def parseValue (raw : Text) : Text :=
  let raw := raw.strip
  if between (codePoint '"') raw || between (codePoint '\'') raw then raw.tail.dropLast else raw

/-- What a line of the block says. -/
def readLine (config : Config) (line : Text) : Config :=
  let stripped := line.strip
  if stripped = [] ∨ stripped.head? = some (codePoint '#') ∨ codePoint '=' ∉ stripped then config
  else
    let key := Text.strip (stripped.takeWhile (· ≠ codePoint '='))
    let value := (stripped.dropWhile (· ≠ codePoint '=')).tail
    if key ∈ CONFIG_FIELDS then Function.update config key (parseValue value) else config

/-- `LLAMA_MODELS_DIR` -/
def MODELS_DIR : Text := Text.of "LLAMA_MODELS_DIR"

/-- A config with the models directory of the machine where it has none. -/
def orDefault (config : Config) : Config :=
  Function.update config MODELS_DIR
    (if config MODELS_DIR = [] then M.modelsDir else config MODELS_DIR)

/-- `parse_config_from_text` -/
def parseConfigFromText (t source : Text) : Except Text Config :=
  match splitConfig M t with
  | .error _ => .error (Text.of "Config markers not found in " ++ source)
  | .ok (_, block, _) => .ok (orDefault M (block.splitlines.foldl readLine fun _ => []))

/-! ### Saving -/

/-- The block of `render_launch_script`, if the config's runner is not started by a command of its
own. -/
def savedBlock (config : Config) : Option (Except Text Text) :=
  let merged := merge config
  if (forConfig M merged).commandPath then none
  else some (buildConfigBlock M (orDefault M merged))

end Launch
