import Caravan.Proxy.PoolSteps

/-!
# Who serves

What a pool's choice comes to (`resolve_serves`). The row that serves is the first ready one
or else the first that gives way; a subscription's row serves only while it is `Fit`; and
the pool refuses when no row may serve, or when a request goes on from an answer that only
one account has.

The proofs go by the verdict on one row (`candidate_eligible`): its account has no rest in
the state the verdict leaves, and the rows after it only take rests away
(`verdicts_blocked`).
-/

namespace Proxy.Pool

open Python

variable {target : Type} {E : Env target} {now : ℚ}

/-! ### Readings -/

/-- A reading that can be gone by is younger than `FRESH_SEC`. -/
theorem reading_fresh {provider : Provider} {s s' : State} {windows : List Window}
    {readAt : Option ℚ} (h : reading E now provider s = (s', windows, readAt, true)) :
    ∃ t, readAt = some t ∧ now - t < FRESH_SEC := by
  have heard {r : Option ℚ} {since : ℚ} (h : r.any (isFresh now since) = true) :
      ∃ t, r = some t ∧ now - t < FRESH_SEC := by
    obtain ⟨t, rfl, ht⟩ := (Option.any_eq_true _ _).mp h
    unfold isFresh at ht
    rw [Bool.and_eq_true, decide_eq_true_eq, decide_eq_true_eq] at ht
    exact ⟨t, rfl, ht.2⟩
  unfold reading at h
  simp only at h
  split at h
  · next hu =>
    obtain ⟨-, -, rfl, -⟩ : _ ∧ _ ∧ _ ∧ _ := by simpa only [Prod.mk.injEq] using h
    rw [Bool.and_eq_true] at hu
    exact heard hu.1
  · split at h
    · next ho =>
      obtain ⟨-, -, rfl, -⟩ : _ ∧ _ ∧ _ ∧ _ := by simpa only [Prod.mk.injEq] using h
      exact heard ho
    · split at h
      · split at h
        · -- asked now
          obtain ⟨-, -, rfl, -⟩ : _ ∧ _ ∧ _ ∧ _ := by simpa only [Prod.mk.injEq] using h
          exact ⟨now, rfl, by rw [sub_self]; decide⟩
        · simp only [Prod.mk.injEq, Bool.false_eq_true, and_false] at h
      · simp only [Prod.mk.injEq, Bool.false_eq_true, and_false] at h

@[simp] theorem keep_blocked (s : State) (owner : Text) (windows : List Window) :
    (s.keep owner windows now).blocked = s.blocked := by
  unfold State.keep
  split <;> rfl

@[simp] theorem fetched_blocked (s : State) (provider : Provider) :
    (s.fetched E now provider).1.blocked = s.blocked := by
  unfold State.fetched
  simp only
  split
  · rfl
  · split
    · exact keep_blocked _ _ _
    · split <;> rfl

/-- A reading rests nobody. -/
@[simp] theorem reading_blocked (provider : Provider) (s : State) :
    (reading E now provider s).1.blocked = s.blocked := by
  unfold reading
  simp only
  split
  · rfl
  · split
    · rfl
    · split
      · have hb := @fetched_blocked _ E now s provider
        split <;> (next hf => rw [hf] at hb; exact hb)
      · rfl

/-- A confirmed reset only takes rests away. -/
theorem forgive_blocked {s : State} {owner x : Text} {resetAt : ℚ} {b : Rest}
    (h : (s.forgive owner resetAt).blocked x = some b) : s.blocked x = some b := by
  have cleared {s : State} (h : Function.update s.blocked owner none x = some b) :
      s.blocked x = some b := by
    rw [Function.update_apply] at h
    split at h
    · cases h
    · exact h
  unfold State.forgive at h
  split at h
  · simp only at h
    split at h <;> split at h <;> first | exact h | exact cleared h
  · exact h

/-! ### One row -/

/-- What a levelled window of an eligible row must be. -/
structure Within (now : ℚ) (stop : UsageReserve) (windows : List Window) : Prop where
  /-- A window with a level states its reset. -/
  stated : ∀ w ∈ windows, (stop.get w.seconds).isSome → ∃ r, w.resetAt = some r
  /-- It is above its stop while its reset is ahead. -/
  above : ∀ w ∈ windows, ∀ level, stop.get w.seconds = some level →
    ∀ r, w.resetAt = some r → now < r → (level : ℤ) < 100 - w.usedPct
  /-- No window is spent. -/
  left : ∀ w ∈ windows, w.usedPct < 100

theorem judge_eligible {levels : UsageReserve × UsageReserve} {row : Row target}
    {windows : List Window} (hrow : row.eligible = false)
    (h : (judge now levels row windows).eligible = true) : Within now levels.1 windows := by
  unfold judge at h
  split at h
  · simp [hrow] at h
  next hstated =>
  split at h
  · simp [hrow] at h
  next hstop =>
  simp only at h
  split at h
  · simp [hrow] at h
  next hspent =>
  refine ⟨fun w hw hl => ?_, fun w hw level hl r hr hahead => ?_, fun w hw => ?_⟩
  · -- a levelled window without a reset is no reading to go by
    by_contra hnone
    refine hstated (List.any_eq_true.mpr ⟨w, hw, ?_⟩)
    cases hr : w.resetAt with
    | none => simp [hl]
    | some r => exact absurd ⟨r, hr⟩ hnone
  · exact UsageReserve.above_of_verdict_none hstop hw hl hr hahead
  · by_contra hfull
    refine hspent (List.ne_nil_of_mem (List.mem_filter.mpr ⟨hw, ?_⟩))
    exact decide_eq_true (not_lt.mp hfull)

theorem judge_windows (levels : UsageReserve × UsageReserve) (row : Row target)
    (windows : List Window) : (judge now levels row windows).windows = row.windows ∧
      (judge now levels row windows).readAt = row.readAt ∧
      (judge now levels row windows).stepId = row.stepId := by
  unfold judge
  simp only
  split
  · exact ⟨rfl, rfl, rfl⟩
  · split
    · exact ⟨rfl, rfl, rfl⟩
    · split
      · exact ⟨rfl, rfl, rfl⟩
      · split <;> exact ⟨rfl, rfl, rfl⟩

/-- A subscription's row that may serve, with its verdict; `rests` are the account rests of
the state the verdict leaves. -/
structure Fit (E : Env target) (now : ℚ) (levels : ModelLevels) (rests : Text → Option Rest)
    (step : Step) (provider : Provider) (model : Text) (row : Row target) : Prop where
  enabled : step.enabled = true
  opened : E.closed (keyOfRow step) now = none
  credentialed : E.credential provider = true
  rested : ∀ b, rests provider.owner = some b → b.ends ≤ now
  offered : E.listed provider.credentials model ≠ some false
  heard : ∃ t, row.readAt = some t ∧ now - t < FRESH_SEC
  /-- The windows are those of the account's reading. -/
  read : ∃ s s', reading E now provider s = (s', row.windows, row.readAt, true)
  within : ∃ accountId, step.kind = .account accountId model ∧
    Within now (levels.of accountId model).1 row.windows

/-- What makes a provider's row eligible, past its sign-in. -/
theorem accountCandidate_eligible {step : Step} {model : Text} {provider : Provider}
    {excluded : List Text} {levels : UsageReserve × UsageReserve} {s s' : State}
    {row : Row target}
    (h : accountCandidate E now step model provider excluded levels s = (s', row))
    (he : row.eligible = true) :
    (∀ b, s'.blocked provider.owner = some b → b.ends ≤ now) ∧
      E.listed provider.credentials model ≠ some false ∧
      (provider.isSubscription = true →
        (∃ s₀ s₁, reading E now provider s₀ = (s₁, row.windows, row.readAt, true)) ∧
          Within now levels.1 row.windows) := by
  unfold accountCandidate at h
  simp only at h
  split at h
  · obtain ⟨-, rfl⟩ := Prod.mk.inj h
    cases he
  split at h
  · obtain ⟨-, rfl⟩ := Prod.mk.inj h
    cases he
  next hrest =>
  split at h
  · obtain ⟨-, rfl⟩ := Prod.mk.inj h
    cases he
  next hlisted =>
  have hrested {b : Rest} (hb : (s.forgive provider.owner (E.resetAt provider.owner)).blocked
      provider.owner = some b) : b.ends ≤ now := by
    by_contra hlt
    rw [hb, Option.filter_some, if_pos (decide_eq_true (not_le.mp hlt))] at hrest
    cases hrest
  split at h
  · next hsub =>
    obtain ⟨rfl, rfl⟩ := Prod.mk.inj h
    refine ⟨fun b hb => hrested hb, hlisted, fun hs => ?_⟩
    rw [hs] at hsub
    cases hsub
  · -- a subscription's own row: its windows decide
    generalize hr : reading E now provider
      (s.forgive provider.owner (E.resetAt provider.owner)) = r at h
    obtain ⟨s₁, windows, readAt, known⟩ := r
    obtain ⟨rfl, rfl⟩ := Prod.mk.inj h
    have hblocked : s₁.blocked =
        (s.forgive provider.owner (E.resetAt provider.owner)).blocked := by
      have hb := @reading_blocked _ E now provider
        (s.forgive provider.owner (E.resetAt provider.owner))
      rw [hr] at hb
      exact hb
    refine ⟨fun b hb => hrested (hblocked ▸ hb), hlisted, fun _ => ?_⟩
    cases known with
    | false => cases he
    | true =>
      simp only [if_true] at he ⊢
      obtain ⟨hw, ha, -⟩ := judge_windows levels
        { Row.of step .ready with
          usageAccountId := some provider.owner, windows := windows, readAt := readAt } windows
      rw [hw, ha]
      exact ⟨⟨_, _, hr⟩, judge_eligible rfl he⟩

theorem accountCandidate_stepId (step : Step) (model : Text) (provider : Provider)
    (excluded : List Text) (levels : UsageReserve × UsageReserve) (s : State) :
    (accountCandidate E now step model provider excluded levels s).2.stepId = step.id := by
  unfold accountCandidate
  simp only
  split
  · rfl
  split
  · rfl
  split
  · rfl
  split
  · rfl
  split
  · exact (judge_windows _ _ _).2.2
  · rfl

theorem accountCandidate_blocked {step : Step} {model : Text} {provider : Provider}
    {excluded : List Text} {levels : UsageReserve × UsageReserve} {s : State} {x : Text}
    {b : Rest}
    (h : (accountCandidate E now step model provider excluded levels s).1.blocked x = some b) :
    s.blocked x = some b := by
  unfold accountCandidate at h
  simp only at h
  split at h
  · exact forgive_blocked h
  split at h
  · exact forgive_blocked h
  split at h
  · exact forgive_blocked h
  split at h
  · exact forgive_blocked h
  · rw [reading_blocked] at h
    exact forgive_blocked h

/-! ### The verdict on a row -/

/-- What an eligible row goes to. -/
inductive Goes (E : Env target) (now : ℚ) (levels : ModelLevels) (asked : Asked) (step : Step)
    (s s' : State) (row : Row target) : Prop where
  | cell (output : Text) (out : target) (hk : step.kind = .output output)
      (ho : E.localOutput output = some out) (ht : row.target = some out)
  | account (accountId model : Text) (provider : Provider)
      (hk : step.kind = .account accountId model) (ha : E.account accountId = some provider)
      (hc : E.credential provider = true)
      (hv : accountCandidate E now step model provider asked.excluded
        (levels.of accountId model) s = (s', row))

/-- What makes a row eligible. -/
theorem candidate_eligible {levels : ModelLevels} {asked : Asked} {step : Step} {s s' : State}
    {row : Row target} (h : candidate E now levels asked step s = (s', row))
    (he : row.eligible = true) :
    step.enabled = true ∧ E.closed (keyOfRow step) now = none ∧
      Goes E now levels asked step s s' row := by
  unfold candidate at h
  split at h
  · obtain ⟨-, rfl⟩ := Prod.mk.inj h
    cases he
  split at h
  · obtain ⟨-, rfl⟩ := Prod.mk.inj h
    cases he
  next hon =>
  have henabled : step.enabled = true := by simpa using hon
  split at h
  · obtain ⟨-, rfl⟩ := Prod.mk.inj h
    cases he
  next hopen =>
  split at h
  · obtain ⟨-, rfl⟩ := Prod.mk.inj h
    cases he
  refine ⟨henabled, hopen, ?_⟩
  split at h
  · next accountId model hk =>
    split at h
    · obtain ⟨-, rfl⟩ := Prod.mk.inj h
      cases he
    · next provider hp =>
      obtain ⟨ha, hc⟩ := Option.filter_eq_some_iff.mp hp
      split at h
      · obtain ⟨-, rfl⟩ := Prod.mk.inj h
        cases he
      · exact .account accountId model provider hk ha hc h
  · next output hk =>
    obtain ⟨-, rfl⟩ := Prod.mk.inj h
    unfold localCandidate at he ⊢
    split at he
    · cases he
    · next out ho =>
      split at he
      · cases he
      · next hd =>
        refine .cell output out hk ho ?_
        rw [if_neg hd]
  · obtain ⟨-, rfl⟩ := Prod.mk.inj h
    cases he

theorem localCandidate_stepId (step : Step) (output : Text) :
    (localCandidate E step output).stepId = step.id := by
  unfold localCandidate
  split
  · rfl
  · split <;> rfl

theorem candidate_stepId (levels : ModelLevels) (asked : Asked) (step : Step) (s : State) :
    (candidate E now levels asked step s).2.stepId = step.id := by
  unfold candidate
  split
  · rfl
  split
  · rfl
  split
  · rfl
  split
  · rfl
  split
  · split
    · rfl
    · split
      · rfl
      · exact accountCandidate_stepId _ _ _ _ _ _
  · exact localCandidate_stepId _ _
  · rfl

theorem candidate_blocked {levels : ModelLevels} {asked : Asked} {step : Step} {s : State}
    {x : Text} {b : Rest} (h : (candidate E now levels asked step s).1.blocked x = some b) :
    s.blocked x = some b := by
  unfold candidate at h
  split at h
  · exact h
  split at h
  · exact h
  split at h
  · exact h
  split at h
  · exact h
  split at h
  · split at h
    · exact h
    · split at h
      · exact h
      · exact accountCandidate_blocked h
  · exact h
  · exact h

/-! ### All rows -/

/-- A verdict is about the row it stands for. -/
theorem verdicts_ids (levels : ModelLevels) (asked : Asked) (steps : List Step) (s : State) :
    (verdicts E now levels asked steps s).2.map Row.stepId = steps.map Step.id := by
  induction steps generalizing s with
  | nil => rfl
  | cons step rest ih =>
    unfold verdicts
    simp only [List.map_cons]
    rw [ih, candidate_stepId]

theorem verdicts_blocked {levels : ModelLevels} {asked : Asked} {steps : List Step} {s : State}
    {x : Text} {b : Rest} (h : (verdicts E now levels asked steps s).1.blocked x = some b) :
    s.blocked x = some b := by
  induction steps generalizing s with
  | nil => exact h
  | cons step rest ih => exact candidate_blocked (ih h)

/-- Each verdict is one of `candidate`, and no rest is there at the end that was not there
after it. -/
theorem mem_verdicts {levels : ModelLevels} {asked : Asked} {steps : List Step} {s : State}
    {row : Row target} (h : row ∈ (verdicts E now levels asked steps s).2) :
    ∃ step ∈ steps, ∃ s₀ s₁, candidate E now levels asked step s₀ = (s₁, row) ∧
      ∀ x b, (verdicts E now levels asked steps s).1.blocked x = some b →
        s₁.blocked x = some b := by
  induction steps generalizing s with
  | nil => cases h
  | cons step rest ih =>
    unfold verdicts at h ⊢
    simp only [List.mem_cons] at h ⊢
    rcases h with rfl | h
    · exact ⟨step, .inl rfl, s, _, rfl, fun x b hb => verdicts_blocked hb⟩
    · obtain ⟨step', hmem, s₀, s₁, hc, hb⟩ := ih h
      exact ⟨step', .inr hmem, s₀, s₁, hc, hb⟩

/-! ### The choice -/

/-- The row that serves: the first ready one, or else the first that gives way. -/
def firstFit (rows : List (Row target)) : Option (Row target) :=
  (rows.find? Row.isReady).or (rows.find? Row.eligible)

/-- `fit[0]`, where there is one. -/
theorem head?_fit (rows : List (Row target)) :
    (fit rows).head? = (firstFit rows).map Row.stepId := by
  unfold fit firstFit
  rw [List.head?_append, List.head?_map, List.head?_map, List.head?_filter, List.head?_filter]
  cases h : rows.find? Row.isReady with
  | some row => rfl
  | none =>
    -- with no ready row, the eligible ones are those that give way
    have hway : ∀ row ∈ rows, Row.givesWay row = row.eligible := by
      intro row hrow
      have hr : ¬ row.isReady = true := List.find?_eq_none.mp h row hrow
      cases he : row.eligible <;> simp_all [Row.isReady, Row.givesWay]
    have hfind : rows.find? Row.givesWay = rows.find? Row.eligible := by
      clear h
      induction rows with
      | nil => rfl
      | cons row rest ih =>
        rw [List.find?_cons, List.find?_cons, hway row List.mem_cons_self,
          ih fun r hr => hway r (List.mem_cons_of_mem _ hr)]
    rw [hfind]
    rfl

theorem firstFit_mem {rows : List (Row target)} {row : Row target}
    (h : firstFit rows = some row) : row ∈ rows ∧ row.eligible = true := by
  unfold firstFit at h
  rcases Option.or_eq_some_iff.mp h with h | ⟨-, h⟩
  · have hready : row.isReady = true := List.find?_some h
    exact ⟨List.mem_of_find?_eq_some h, (Bool.and_eq_true _ _ ▸ hready).1⟩
  · exact ⟨List.mem_of_find?_eq_some h, List.find?_some h⟩

theorem firstFit_eq_none {rows : List (Row target)} :
    firstFit rows = none ↔ ∀ row ∈ rows, row.eligible = false := by
  unfold firstFit
  rw [Option.or_eq_none_iff, List.find?_eq_none, List.find?_eq_none]
  constructor
  · intro h row hrow
    simpa using h.2 row hrow
  · intro h
    refine ⟨fun row hrow hready => ?_, fun row hrow => by simp [h row hrow]⟩
    rw [Row.isReady, h row hrow] at hready
    cases hready

/-- What stands under an id of its own is found by it. -/
theorem find?_of_nodup {α : Type} {f : α → Text} {l : List α} (h : (l.map f).Nodup) {a : α}
    (ha : a ∈ l) : (l.find? fun x => f x = f a) = some a := by
  induction l with
  | nil => cases ha
  | cons b l ih =>
    rw [List.map_cons, List.nodup_cons] at h
    cases ha with
    | head => rw [List.find?_cons_of_pos (by simp)]
    | tail _ ha =>
      rw [List.find?_cons_of_neg, ih h.2 ha]
      have hne : f b ≠ f a := fun heq => h.1 (heq ▸ List.mem_map_of_mem ha)
      simpa using hne

/-- The leg of an eligible row. -/
theorem legOf_eligible {levels : ModelLevels} {asked : Asked} {pool : CloudPool} {s : State}
    {row : Row target} (hrow : row ∈ (verdicts E now levels asked pool.steps s).2)
    (he : row.eligible = true) :
    ∃ step ∈ pool.steps, step.id = row.stepId ∧ ∃ leg,
      legOf E pool (verdicts E now levels asked pool.steps s).2 row.stepId = some leg ∧
        ∀ provider model, leg = .account provider model → provider.isSubscription = true →
          Fit E now levels (verdicts E now levels asked pool.steps s).1.blocked step provider
            model row := by
  obtain ⟨step, hstep, s₀, s₁, hc, hrests⟩ := mem_verdicts hrow
  have hid : row.stepId = step.id := by
    have := @candidate_stepId _ E now levels asked step s₀
    rw [hc] at this
    exact this
  have hfound : (pool.steps.find? fun x => x.id = row.stepId) = some step := by
    rw [hid]
    exact find?_of_nodup pool.distinct hstep
  obtain ⟨henabled, hopen, hgoes⟩ := candidate_eligible hc he
  refine ⟨step, hstep, hid.symm, ?_⟩
  unfold legOf
  rw [hfound]
  cases hgoes with
  | cell output out hk _ ht =>
    have hids : ((verdicts E now levels asked pool.steps s).2.map Row.stepId).Nodup := by
      rw [verdicts_ids]
      exact pool.distinct
    refine ⟨.cell out, ?_, fun _ _ h => by cases h⟩
    simp only [Option.bind_eq_bind, Option.bind_some, hk, find?_of_nodup hids hrow, ht]
    rfl
  | account accountId model provider hk ha hcred hv =>
    refine ⟨.account provider model, ?_, fun p m h hsub => ?_⟩
    · simp only [Option.bind_eq_bind, Option.bind_some, hk, ha]
      rfl
    · obtain ⟨rfl, rfl⟩ : provider = p ∧ model = m := by
        cases h
        exact ⟨rfl, rfl⟩
      obtain ⟨hrested, hoffered, hread⟩ := accountCandidate_eligible hv he
      obtain ⟨⟨r₀, r₁, hr⟩, hwithin⟩ := hread hsub
      exact ⟨henabled, hopen, hcred, fun b hb => hrested b (hrests _ _ hb), hoffered,
        reading_fresh hr, ⟨r₀, r₁, hr⟩, accountId, hk, hwithin⟩

@[simp] theorem choose_blocked (s : State) (pool : CloudPool) (rows : List (Row target))
    (chosen : Option Text) : (s.choose now pool rows chosen).blocked = s.blocked := by
  unfold State.choose
  simp only
  split <;> rfl

/-- **Who serves.** The row that serves is the first ready one in the pool's order, or else
the first that gives way, and a subscription's row is fit; the pool refuses exactly when no
row is eligible or when the request goes on from an answer that one account has. -/
theorem resolve_serves (E : Env target) (now : ℚ) (id : Text) (pool : CloudPool)
    (levels : ModelLevels) (body : Option Value) (excluded : List Text) (path : Text)
    (s : State) :
    let rows := (verdicts E now levels (Asked.of body excluded path) pool.steps s).2
    let after := resolve E now ⟨id, some pool, levels⟩ body excluded path s
    (∀ poolId stepId leg, after.2 = .served poolId stepId leg →
      ∃ step ∈ pool.steps, ∃ row, step.id = stepId ∧ row.stepId = stepId ∧
        firstFit rows = some row ∧
        ∀ provider model, leg = .account provider model → provider.isSubscription = true →
          Fit E now levels after.1.blocked step provider model row) ∧
      ((∃ refusal, after.2 = .refused refusal) ↔
        continues pool body = true ∨ ∀ row ∈ rows, row.eligible = false) ∧
      after.2 ≠ .passes ∧ after.2 ≠ .raised := by
  intro rows after
  have hafter : after = resolve E now ⟨id, some pool, levels⟩ body excluded path s := rfl
  unfold resolve at hafter
  simp only at hafter
  split at hafter
  · -- a request that goes on from one account's answer
    next hcont =>
    rw [hafter]
    exact ⟨(fun _ _ _ h => by cases h), iff_of_true ⟨_, rfl⟩ (.inl hcont),
      (fun h => by cases h), (fun h => by cases h)⟩
  next hcont =>
  rw [head?_fit] at hafter
  cases hfirst : firstFit rows with
  | none =>
    rw [show firstFit (verdicts E now levels (Asked.of body excluded path) pool.steps s).2 = none
      from hfirst] at hafter
    rw [hafter]
    exact ⟨(fun _ _ _ h => by cases h),
      iff_of_true ⟨_, rfl⟩ (.inr (firstFit_eq_none.mp hfirst)),
      (fun h => by cases h), (fun h => by cases h)⟩
  | some row =>
    obtain ⟨hrow, he⟩ := firstFit_mem hfirst
    obtain ⟨step, hstep, hid, leg, hleg, hfit⟩ := legOf_eligible hrow he
    rw [show firstFit (verdicts E now levels (Asked.of body excluded path) pool.steps s).2 =
      some row from hfirst] at hafter
    simp only [Option.map_some, hleg] at hafter
    rw [hafter]
    refine ⟨fun poolId stepId leg' h => ?_, iff_of_false (fun ⟨_, h⟩ => by cases h) ?_, ?_, ?_⟩
    · cases h
      refine ⟨step, hstep, row, hid, rfl, rfl, fun provider model hl hs => ?_⟩
      rw [choose_blocked]
      exact hfit provider model hl hs
    · rintro (h | h)
      · exact hcont h
      · rw [h row hrow] at he
        cases he
    · exact fun h => by cases h
    · exact fun h => by cases h

/-! ### Three choices -/

/-- A pool of a subscription's model on two accounts. -/
def twoAccounts : CloudPool where
  id := "p"
  name := "p"
  steps := [⟨"r1", .account "a" "m", true⟩, ⟨"r2", .account "b" "m", true⟩]
  distinct := by decide
  named := by decide

/-- An account of a subscription. -/
def subscriber (id : Text) : Provider :=
  ⟨id, id, id, "openai", "openai-subscription", "https://chatgpt.com/backend-api"⟩

/-- Accounts that are signed in, without a catalogue, whose page gives these windows. -/
def signedIn (windows : List Window) : Env Unit where
  account id := some (subscriber id)
  credential _ := true
  listed _ _ := none
  resetAt _ := 0
  fetch _ := some ⟨windows, windows.isEmpty⟩
  localOutput _ := none
  dead _ := false
  free _ := false
  closed _ _ := none
  zoneText _ := []

/-- A window of five hours, spent to 95 percent, that has reset by the clock of the proxy. -/
def past : Window := ⟨18000, 95, some 995⟩

/-- A request that names the answer it goes on from. -/
def goesOn : Value := .dict [("previous_response_id", "resp_1")]

/-- A pool refuses a request that goes on from an answer, with both its rows eligible; it
serves a row whose account has no catalogue to list the model; and it serves a row whose
window is past its stop, when that window has reset. -/
theorem serves_outside :
    ((resolve (signedIn []) 1000 ⟨"p", some twoAccounts, []⟩ (some goesOn) []
        "/v1/chat/completions" State.fresh).2 = .refused (Refusal.context twoAccounts) ∧
      ∀ row ∈ (verdicts (signedIn []) 1000 [] (Asked.of (some goesOn) [] "/v1/chat/completions")
        twoAccounts.steps State.fresh).2, row.eligible = true) ∧
    ((resolve (signedIn [past]) 1000 ⟨"p", some twoAccounts, []⟩ none []
        "/v1/chat/completions" State.fresh).2 =
          .served "p" "r1" (.account (subscriber "a") "m") ∧
      (signedIn [past]).listed "a" "m" ≠ some true ∧
      ∃ row ∈ (verdicts (signedIn [past]) 1000 [] (Asked.of none [] "/v1/chat/completions")
        twoAccounts.steps State.fresh).2, row.stepId = Text.of "r1" ∧ row.windows = [past] ∧
          ∃ level, (ModelLevels.of [] "a" "m").1.get past.seconds = some level ∧
            100 - past.usedPct ≤ level) := by
  refine ⟨by decide +kernel, by decide +kernel, by decide +kernel, ?_⟩
  refine ⟨_, List.mem_cons_self, by decide +kernel, by decide +kernel, 10, by decide +kernel, ?_⟩
  decide +kernel

end Proxy.Pool
