import Caravan.Python.Value

/-!
# Pools, levels and readings

What a pool's choice reads: the rows as `CloudPools` keeps them, the stop and switch levels
of a model, and the windows of an account. A reading is what the provider last said of a
window; a level is what the operator keeps back of it.
-/

namespace Proxy.Pool

open Python

/-! ### Levels -/

/-- A window of an account's limit, as last heard. -/
structure Window where
  seconds : ℤ
  usedPct : ℤ
  resetAt : Option ℤ
  deriving DecidableEq

def MAX_PCT : ℕ := 90

/-- The levels per window of one step, in the stored shape. -/
structure UsageReserve where
  bySeconds : List (ℤ × ℕ)
  kept : ∀ p ∈ bySeconds, 0 < p.1 ∧ 0 < p.2 ∧ p.2 ≤ MAX_PCT

namespace UsageReserve

def get (r : UsageReserve) (seconds : ℤ) : Option ℕ := r.bySeconds.lookup seconds

/-- A pair of the stored shape: zero is no level, and rubbish drops out. -/
def normalizePair (p : ℤ × ℤ) : Option (ℤ × ℕ) :=
  if 0 < p.1 ∧ 0 < p.2 then some (p.1, min p.2.toNat MAX_PCT) else none

/-- `UsageReserve.normalize`, of the pairs that are whole numbers: the last one of a length
counts. -/
def normalize (raw : List (ℤ × ℤ)) : UsageReserve where
  bySeconds := (raw.filterMap normalizePair).reverse
  kept p hp := by
    obtain ⟨q, -, hq⟩ := List.mem_filterMap.mp (List.mem_reverse.mp hp)
    unfold normalizePair at hq
    split at hq
    · next h =>
      obtain rfl := Option.some.inj hq
      refine ⟨h.1, ?_, min_le_right _ _⟩
      have hpos : 0 < q.2.toNat := by omega
      exact lt_min hpos (by decide)
    · cases hq

/-- `NEW_STEP`: what a new subscription stops at, on its five hours and its week. -/
def NEW_STEP : UsageReserve := normalize [(18000, 10), (604800, 10)]

/-- A window that closes a step. -/
structure Hit where
  windowSeconds : ℤ
  remainingPct : ℤ
  reservePct : ℕ
  resetAt : ℤ
  deriving DecidableEq

/-- Whether a window is down to its level while its reset is ahead. -/
def hit (r : UsageReserve) (now : ℚ) (w : Window) : Option Hit :=
  match r.get w.seconds with
  | none => none
  | some reserve =>
    let resetAt := w.resetAt.getD 0
    if (resetAt : ℚ) ≤ now then none
    else
      let remaining := max 0 (100 - w.usedPct)
      if remaining ≤ reserve then some ⟨w.seconds, remaining, reserve, resetAt⟩ else none

/-- `max(hits, key=…)`: the first of those that reset last. -/
def last : List Hit → Option Hit
  | [] => none
  | h :: hs =>
    match last hs with
    | some l => if h.resetAt < l.resetAt then some l else some h
    | none => some h

/-- `UsageReserve.verdict` -/
def verdict (r : UsageReserve) (windows : List Window) (now : ℚ) : Option Hit :=
  last (windows.filterMap (r.hit now))

theorem last_eq_none {hits : List Hit} : last hits = none ↔ hits = [] := by
  cases hits with
  | nil => exact iff_of_true rfl rfl
  | cons h hs =>
    refine iff_of_false ?_ (List.cons_ne_nil h hs)
    unfold last
    split
    · split <;> exact Option.some_ne_none _
    · exact Option.some_ne_none _

/-- A level that gives no verdict is not reached by any window whose reset is ahead. -/
theorem above_of_verdict_none {r : UsageReserve} {windows : List Window} {now : ℚ}
    (h : r.verdict windows now = none) {w : Window} (hw : w ∈ windows) {level : ℕ}
    (hl : r.get w.seconds = some level) {resetAt : ℤ} (hr : w.resetAt = some resetAt)
    (hahead : now < resetAt) : (level : ℤ) < 100 - w.usedPct := by
  have hnone : r.hit now w = none := by
    have hempty := last_eq_none.mp h
    exact List.filterMap_eq_nil_iff.mp hempty w hw
  by_contra hle
  have hrem : max 0 (100 - w.usedPct) ≤ (level : ℤ) := max_le (by omega) (not_lt.mp hle)
  unfold hit at hnone
  rw [hl, hr] at hnone
  simp only [Option.getD_some, not_le.mpr hahead, if_false, hrem, if_true] at hnone
  cases hnone

end UsageReserve

/-- `ModelLevels.kept`: the stop and the switch of each account's models. -/
abbrev ModelLevels := List ((Text × Text) × (UsageReserve × UsageReserve))

/-- `ModelLevels.of`: the model's own, or those of a new step. -/
def ModelLevels.of (levels : ModelLevels) (account model : Text) : UsageReserve × UsageReserve :=
  (levels.lookup (account.strip, model.strip)).getD
    (UsageReserve.NEW_STEP, UsageReserve.NEW_STEP)

/-! ### Rows -/

/-- What a row names. -/
inductive Kind where
  | account (accountId model : Text)
  | output (output : Text)
  | opened
  deriving DecidableEq

/-- A row of a pool. -/
structure Step where
  id : Text
  kind : Kind
  enabled : Bool
  deriving DecidableEq

/-- A pool, its rows told apart by their ids. -/
structure CloudPool where
  id : Text
  name : Text
  steps : List Step
  distinct : (steps.map Step.id).Nodup
  named : ∀ step ∈ steps, step.id ≠ []

/-- A pool of two models of one account. -/
def twoModels : CloudPool where
  id := "p"
  name := "p"
  steps := [⟨"r1", .account "a" "m", true⟩, ⟨"r2", .account "a" "n", true⟩]
  distinct := by decide
  named := by decide

/-- A character of a local output's id. -/
def isOutputChar (c : CodePoint) : Bool :=
  (0x30 ≤ c.val && c.val ≤ 0x39) || (0x41 ≤ c.val && c.val ≤ 0x5A) ||
    (0x61 ≤ c.val && c.val ≤ 0x7A) || c ∈ Text.of "._:-"

/-- `CloudPools.OUTPUT` -/
def isOutput (t : Text) : Bool :=
  t.take 4 ∈ [Text.of "srv:", Text.of "eng:"] && named (t.drop 4) ||
    t.take 3 = Text.of "mm:" && named (t.drop 3)
where
  named (rest : Text) : Bool := rest ≠ [] && rest.length ≤ 80 && rest.all isOutputChar

namespace CloudPools

end CloudPools

/-! ### Providers -/

/-- An account as a provider: what a row goes to. -/
structure Provider where
  accountId : Text
  credentialAccountId : Text
  usageAccountId : Text
  type : Text
  accountType : Text
  baseUrl : Text
  deriving DecidableEq

namespace Provider

/-- `provider.get("usageAccountId") or provider["accountId"]` -/
def owner (p : Provider) : Text := if p.usageAccountId = [] then p.accountId else p.usageAccountId

/-- The account whose sign-in it uses. -/
def credentials (p : Provider) : Text :=
  if p.credentialAccountId = [] then p.accountId else p.credentialAccountId

/-- `CloudSources.is_subscription` -/
def isSubscription (p : Provider) : Bool :=
  p.accountType = Text.of "openai-subscription" || p.baseUrl.contains (Text.of "chatgpt.com")

end Provider

/-- `ModelKey.of_row`: the name a model has, or nothing for a row with no cable. -/
def keyOfRow (step : Step) : Text :=
  match step.kind with
  | .account account model =>
    if account ≠ [] ∧ model ≠ [] ∧ codePoint '/' ∉ account then
      Text.of "acc:" ++ account ++ Text.of "/" ++ model
    else []
  | .output output => if isOutput output then Text.of "out:" ++ output else []
  | .opened => []

/-! ### Requests -/

/-- A path without its question and its closing slashes. -/
def cleanPath (path : Text) : Text :=
  (path.takeWhile (· ≠ codePoint '?')).rdropWhile (· = codePoint '/')

/-- `is_responses_request`, of a body's JSON. -/
def isResponsesRequest (path : Text) (body : Option Value) : Bool :=
  (Text.of "/responses").isSuffixOf (path.rdropWhile (· = codePoint '/')) ||
    match body with
    | some (.dict payload) => Dict.has payload "input" && !Dict.has payload "messages"
    | _ => false

/-- `is_chat_request`; a path not said is a chat's. -/
def isChatRequest (path : Text) : Bool :=
  path = [] || (Text.of "/chat/completions").isSuffixOf (cleanPath path) ||
    (Text.of "/responses").isSuffixOf (cleanPath path)

end Proxy.Pool
