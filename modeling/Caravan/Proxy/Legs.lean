import Caravan.Proxy.Fit

/-!
# The legs of one request

A request that a pool serves goes to one row after the other: a row whose provider refuses it for
a limit, whose cell's queue gives up, or that fails before the first byte is added to what the
request has tried, and the pool is asked again. A rescue takes the request to another route, which
may be another pool, with all that it has tried.

* `visit_ends` — at one pool the request asks no row twice, so it asks as many as there are at
  most and then leaves the pool;
* `run_skipped` — what a row is passed over for, as tried or as refused, has happened in this
  request.

A leg is one row's turn: a request sent again on a fresh connection, or again while a model loads,
is the same leg. Between two looks at the pool everything may change but what is said.
-/

namespace Proxy.Pool

open Python

variable {target : Type}

/-! ### A leg -/

/-- A rest has a reason that `failed` gives. -/
def Rested (s : State) : Prop :=
  ∀ x b, s.blocked x = some b → b.reason ∈ [Reason.authRejected, .payment, .quota]

/-- A look at a pool: the surroundings, the clock and what the proxy keeps. -/
structure Look (target : Type) where
  env : Env target
  now : ℚ
  state : State
  /-- An account's id has no colon (`normalize_cloud_account`). -/
  plain : ∀ id provider, env.account id = some provider → codePoint ':' ∉ provider.owner
  rested : Rested state

/-- What came of a leg. -/
structure Answer where
  /-- The account's sign-in or its address is missing: nothing is sent. -/
  unsent : Bool
  /-- The cell's queue gave up on the request. -/
  gaveUp : Bool
  /-- No connection, or no answer on it. -/
  connFailed : Bool
  status : ℕ
  /-- `bytes_out == 0 and chunks == 0 and not _client_gone[0]` -/
  quiet : Bool

/-- `status`, which stands at 502 for a connection that failed. -/
def Answer.code (a : Answer) : ℕ := if a.connFailed then 502 else a.status

/-- One turn of the loop. -/
structure Turn (target : Type) where
  /-- What the route's `providerId` loads; none for a route to no cloud. -/
  source : Option Source
  choice : Look target
  answer : Answer
  /-- The look of `can_go_on`. -/
  ahead : Look target
  /-- The first rescue ref leads to an exit. -/
  rescue : Bool

/-- What an asked row did. -/
inductive Met where
  /-- its provider refused it for a limit -/
  | refused
  /-- it failed, and the pool's next row is asked -/
  | failed
  /-- it was the last one of its pool -/
  | last
  deriving DecidableEq

/-- A row that was asked. -/
structure Ask where
  poolId : Text
  stepId : Text
  /-- The quota owner of a provider's row. -/
  owner : Option Text
  met : Met
  deriving DecidableEq

/-- What the loop keeps: `_pool_attempted`, `_pool_legs` and `_rescue_hops`. -/
structure Loop where
  attempted : List Text
  legs : ℕ
  hops : ℕ
  deriving DecidableEq

def Loop.start : Loop := ⟨[], 0, 0⟩

/-- The name of a row among what was tried. -/
def rowName (stepId : Text) : Text := Text.of "row:" ++ stepId

/-- Where a leg ends: at the pool again, or out of it with a status. -/
inductive After where
  | again (l : Loop)
  | leaves (status : ℕ) (rescuable : Bool)
  | raised

section Leg

variable (body : Option Value) (path : Text)

/-- `can_go_on`, with one more row tried. -/
def Turn.goesOn (t : Turn target) (source : Source) (attempted : List Text) : Bool :=
  (canGoOn t.ahead.env t.ahead.now source attempted body path t.ahead.state).2

/-- A row that fails before its first byte sends the request to the next one, if there is one. -/
def Loop.fails (l : Loop) (t : Turn target) (source : Source) (ask : Met → Ask) : Ask × After :=
  let attempted := rowName (ask .failed).stepId :: l.attempted
  if t.answer.quiet ∧ (t.answer.connFailed ∨ 500 ≤ t.answer.status) ∧ l.legs < 16 ∧
      t.goesOn body path source attempted then
    (ask .failed, .again { l with attempted, legs := l.legs + 1 })
  else (ask .last, .leaves t.answer.code true)

/-- A leg of the loop: the row that is asked, if the pool gives one, and where it ends. -/
def Loop.leg (l : Loop) (t : Turn target) : Option Ask × After :=
  match t.source with
  | none => (none, .leaves t.answer.code true)
  | some source =>
    match (resolve t.choice.env t.choice.now source body l.attempted path t.choice.state).2 with
    | .passes => (none, .leaves t.answer.code true)
    | .refused r => (none, .leaves r.status (r.status ≠ 400))
    | .raised => (none, .raised)
    | .served poolId stepId (.cell _) =>
      if t.answer.gaveUp then
        -- the cell's queue gave up: the next row, or the request is refused
        let attempted := rowName stepId :: l.attempted
        if t.goesOn body path source attempted then
          (some ⟨poolId, stepId, none, .failed⟩, .again { l with attempted })
        else (some ⟨poolId, stepId, none, .last⟩, .raised)
      else (l.fails body path t source fun met => ⟨poolId, stepId, none, met⟩).map some id
    | .served poolId stepId (.account provider _) =>
      if t.answer.unsent then (none, .raised)
      else if t.answer.quiet ∧ (refusalReason t.answer.code).isSome then
        (some ⟨poolId, stepId, some provider.owner, .refused⟩,
          .again { l with attempted := provider.owner :: l.attempted })
      else (l.fails body path t source
        fun met => ⟨poolId, stepId, some provider.owner, met⟩).map some id

/-- The legs of one pool: the rows that are asked, and whether the request has left the pool. -/
def Loop.visit (l : Loop) : List (Turn target) → List Ask × Bool
  | [] => ([], false)
  | t :: turns =>
    match l.leg body path t with
    | (ask, .again l') => ((l'.visit turns).map (ask.toList ++ ·) id)
    | (ask, _) => (ask.toList, true)

/-- One turn of the whole request: a leg, and the rescue to another route where it ends. -/
def Loop.turn (l : Loop) (t : Turn target) : Option Ask × Option Loop :=
  match l.leg body path t with
  | (ask, .again l') => (ask, some l')
  | (ask, .leaves status rescuable) =>
    (ask, if 400 ≤ status ∧ rescuable ∧ l.hops < 3 ∧ t.answer.quiet ∧ t.rescue then
      some { l with hops := l.hops + 1 } else none)
  | (ask, .raised) => (ask, none)

/-- The whole request: the rows it asked, and what the loop keeps while it goes on. -/
def Loop.run (l : Loop) : List (Turn target) → List Ask × Option Loop
  | [] => ([], some l)
  | t :: turns =>
    match l.turn body path t with
    | (ask, some l') => ((l'.run turns).map (ask.toList ++ ·) id)
    | (ask, none) => (ask.toList, none)

end Leg

/-! ### Three turns -/

/-- Two accounts of a subscription, signed in and without limits. -/
def desk : Env Unit :=
  { signedIn [] with
    account := fun id => if id ∈ [Text.of "a", Text.of "b"] then some (subscriber id) else none }

def atDesk : Look Unit where
  env := desk
  now := 1000
  state := State.fresh
  plain id provider h := by
    change (if id ∈ [Text.of "a", Text.of "b"] then some (subscriber id) else none) =
      some provider at h
    split at h
    · next hid =>
      cases h
      rcases List.mem_cons.mp hid with rfl | hid
      · decide
      · obtain rfl := List.mem_singleton.mp hid
        decide
    · cases h
  rested := nofun

/-- A turn at the desk that is answered with a status, before anything was sent to the client. -/
def answered (pool : CloudPool) (status : ℕ) : Turn Unit where
  source := some ⟨"p", some pool, []⟩
  choice := atDesk
  answer := ⟨false, false, false, status, true⟩
  ahead := atDesk
  rescue := false

/-! ### What is not tried again -/

variable {E : Env target} {now : ℚ}

theorem accountCandidate_unrefused {step : Step} {model : Text} {provider : Provider}
    {excluded : List Text} {levels : UsageReserve × UsageReserve} {s s' : State} {row : Row target}
    (h : accountCandidate E now step model provider excluded levels s = (s', row))
    (he : row.eligible = true) : provider.owner ∉ excluded := by
  intro hmem
  unfold accountCandidate at h
  dsimp only at h
  rw [if_pos hmem] at h
  obtain ⟨-, rfl⟩ := Prod.mk.inj h
  cases he

/-- What a row says whatever is known of the accounts. -/
structure Plain (asked : Asked) (step : Step) (row : Row target) : Prop where
  untried : row.eligible = true → rowName step.id ∉ asked.excluded
  tried : row.reason = .tried → rowName step.id ∈ asked.excluded
  unrefused : row.reason ≠ .upstreamRefused

theorem localCandidate_plain {asked : Asked} {step : Step} (output : Text)
    (h : rowName step.id ∉ asked.excluded) : Plain asked step (localCandidate E step output) := by
  unfold localCandidate
  split
  · exact ⟨nofun, nofun, nofun⟩
  split
  · exact ⟨nofun, nofun, nofun⟩
  next out _ _ =>
  cases hfree : E.free out with
  | true => exact ⟨fun _ => h, nofun, nofun⟩
  | false => exact ⟨fun _ => h, nofun, nofun⟩

/-- What stands before an account's limits is the same in every state. -/
theorem candidate_cases (E : Env target) (now : ℚ) (levels : ModelLevels) (asked : Asked)
    (step : Step) :
    (∃ row, Plain asked step row ∧ ∀ s, candidate E now levels asked step s = (s, row)) ∨
      ∃ accountId model provider, step.kind = .account accountId model ∧ step.enabled = true ∧
        E.closed (keyOfRow step) now = none ∧ rowName step.id ∉ asked.excluded ∧
        E.account accountId = some provider ∧ E.credential provider = true ∧
        (provider.isSubscription = true → asked.chat = true) ∧
        ∀ s, candidate E now levels asked step s = accountCandidate E now step model provider
          asked.excluded (levels.of accountId model) s := by
  unfold candidate
  cases hk : step.kind with
  | opened =>
    refine .inl ⟨_, ?_, fun _ => rfl⟩
    exact ⟨nofun, nofun, nofun⟩
  | output output =>
    left
    dsimp only
    split
    · refine ⟨_, ?_, fun _ => rfl⟩
      exact ⟨nofun, nofun, nofun⟩
    split
    · refine ⟨_, ?_, fun _ => rfl⟩
      exact ⟨nofun, nofun, nofun⟩
    split
    · next htried =>
      refine ⟨_, ?_, fun _ => rfl⟩
      exact ⟨nofun, fun _ => htried, nofun⟩
    · next htried =>
      refine ⟨_, ?_, fun _ => rfl⟩
      exact localCandidate_plain output htried
  | account accountId model =>
    dsimp only
    split
    · refine .inl ⟨_, ?_, fun _ => rfl⟩
      exact ⟨nofun, nofun, nofun⟩
    next henabled =>
    split
    · refine .inl ⟨_, ?_, fun _ => rfl⟩
      exact ⟨nofun, nofun, nofun⟩
    next hopened =>
    split
    · next htried =>
      refine .inl ⟨_, ?_, fun _ => rfl⟩
      exact ⟨nofun, fun _ => htried, nofun⟩
    next htried =>
    split
    · refine .inl ⟨_, ?_, fun _ => rfl⟩
      exact ⟨nofun, nofun, nofun⟩
    next provider hprovider =>
    obtain ⟨haccount, hcredential⟩ := Option.filter_eq_some_iff.mp hprovider
    split
    · refine .inl ⟨_, ?_, fun _ => rfl⟩
      exact ⟨nofun, nofun, nofun⟩
    next hform =>
    -- from here on the account's limits are read
    refine .inr ⟨accountId, model, provider, rfl, by simpa using henabled, hopened, htried,
      haccount, hcredential, fun hsubscription => ?_, fun _ => rfl⟩
    by_contra hchat
    exact hform (by simp [hsubscription, hchat])

/-- A row that is fit has not been tried. -/
theorem candidate_untried {levels : ModelLevels} {asked : Asked} {step : Step} {s s' : State}
    {row : Row target} (h : candidate E now levels asked step s = (s', row))
    (he : row.eligible = true) : rowName step.id ∉ asked.excluded := by
  rcases candidate_cases E now levels asked step with
    ⟨plain, hplain, hsame⟩ | ⟨_, _, _, -, -, -, huntried, -⟩
  · obtain ⟨-, rfl⟩ := Prod.mk.inj ((hsame s).symm.trans h)
    exact hplain.untried he
  · exact huntried

/-- The row that serves is one of the pool, and neither it nor its quota owner was tried. -/
theorem resolve_untried {id : Text} {pool : CloudPool} {levels : ModelLevels}
    {body : Option Value} {excluded : List Text} {path : Text} {s : State} {poolId stepId : Text}
    {leg : Leg target}
    (h : (resolve E now ⟨id, some pool, levels⟩ body excluded path s).2 =
      .served poolId stepId leg) :
    poolId = pool.id ∧ ∃ step ∈ pool.steps, step.id = stepId ∧ rowName stepId ∉ excluded ∧
      match leg with
      | .cell _ => ∃ output, step.kind = .output output
      | .account provider model => ∃ accountId, step.kind = .account accountId model ∧
        E.account accountId = some provider ∧ provider.owner ∉ excluded := by
  unfold resolve at h
  dsimp only at h
  split at h
  · cases h
  rw [head?_fit] at h
  cases hfirst : firstFit (verdicts E now levels (Asked.of body excluded path) pool.steps s).2 with
  | none =>
    rw [hfirst] at h
    cases h
  | some row =>
    obtain ⟨hrow, he⟩ := firstFit_mem hfirst
    obtain ⟨step, hstep, s₀, s₁, hc, -⟩ := mem_verdicts hrow
    have hid : row.stepId = step.id := by
      have hstepId := @candidate_stepId _ E now levels (Asked.of body excluded path) step s₀
      rwa [hc] at hstepId
    rw [hfirst] at h
    dsimp only [Option.map_some] at h
    cases hleg : legOf E pool (verdicts E now levels (Asked.of body excluded path) pool.steps s).2
        row.stepId with
    | none =>
      rw [hleg] at h
      cases h
    | some leg' =>
      rw [hleg] at h
      cases h
      refine ⟨rfl, step, hstep, hid.symm, hid ▸ candidate_untried hc he, ?_⟩
      -- the leg is to what the row was judged with
      have hfound : (pool.steps.find? fun x => x.id = row.stepId) = some step := by
        rw [hid]
        exact find?_of_nodup pool.distinct hstep
      obtain ⟨-, -, hgoes⟩ := candidate_eligible hc he
      unfold legOf at hleg
      rw [hfound] at hleg
      cases hgoes with
      | cell output out hk _ _ =>
        simp only [Option.bind_eq_bind, Option.bind_some, hk, Option.bind_eq_some_iff] at hleg
        obtain ⟨_, -, _, -, hleg⟩ := hleg
        cases hleg
        exact ⟨output, hk⟩
      | account accountId model provider hk ha hcred hv =>
        simp only [Option.bind_eq_bind, Option.bind_some, hk, ha] at hleg
        cases hleg
        exact ⟨accountId, hk, ha, accountCandidate_unrefused hv he⟩

/-! ### At one pool -/

section Visit

variable {body : Option Value} {path : Text} {pool : CloudPool} {accounts : Text → Option Provider}

/-- The row is passed over: it was tried, or its quota owner was refused. -/
def Shut (pool : CloudPool) (accounts : Text → Option Provider) (attempted : List Text)
    (stepId : Text) : Prop :=
  rowName stepId ∈ attempted ∨ ∃ step ∈ pool.steps, step.id = stepId ∧
    ∃ accountId model provider, step.kind = .account accountId model ∧
      accounts accountId = some provider ∧ provider.owner ∈ attempted

theorem Shut.mono {attempted attempted' : List Text} {stepId : Text}
    (h : Shut pool accounts attempted stepId) (hsub : attempted ⊆ attempted') :
    Shut pool accounts attempted' stepId := by
  rcases h with h | ⟨step, hstep, hid, accountId, model, provider, hk, ha, h⟩
  · exact .inl (hsub h)
  · exact .inr ⟨step, hstep, hid, accountId, model, provider, hk, ha, hsub h⟩

theorem eq_of_id {step step' : Step} (h : step ∈ pool.steps) (h' : step' ∈ pool.steps)
    (hid : step.id = step'.id) : step = step' := by
  have hfind := find?_of_nodup pool.distinct h
  rw [hid, find?_of_nodup pool.distinct h'] at hfind
  exact (Option.some.inj hfind).symm

/-- A turn at the pool, whose rows and accounts stay as they are. -/
structure Turn.At (t : Turn target) (pool : CloudPool) (accounts : Text → Option Provider) :
    Prop where
  pool : ∃ id levels, t.source = some ⟨id, some pool, levels⟩
  accounts : t.choice.env.account = accounts

theorem fails_ask {l : Loop} {t : Turn target} {source : Source} {ask : Met → Ask} {a : Ask}
    {after : After} (h : l.fails body path t source ask = (a, after)) : ∃ met, a = ask met := by
  unfold Loop.fails at h
  dsimp only at h
  split at h <;> exact ⟨_, (congrArg Prod.fst h).symm⟩

theorem fails_again {l l' : Loop} {t : Turn target} {source : Source} {ask : Met → Ask} {a : Ask}
    (h : l.fails body path t source ask = (a, .again l')) :
    a = ask .failed ∧ l'.attempted = rowName (ask .failed).stepId :: l.attempted := by
  unfold Loop.fails at h
  dsimp only at h
  split at h
  · obtain ⟨ha, hl⟩ := Prod.mk.inj h
    cases hl
    exact ⟨ha.symm, rfl⟩
  · cases (congrArg Prod.snd h)

theorem fails_spec {l : Loop} {t : Turn target} {source : Source} {stepId poolId : Text}
    {owner : Option Text} (hin : stepId ∈ pool.steps.map Step.id)
    (hopen : ¬ Shut pool accounts l.attempted stepId) {x : Option Ask × After}
    (hx : (l.fails body path t source fun met => ⟨poolId, stepId, owner, met⟩).map some id = x) :
    (∀ a, x.1 = some a →
      a.stepId ∈ pool.steps.map Step.id ∧ ¬ Shut pool accounts l.attempted a.stepId) ∧
    ∀ l', x.2 = .again l' → l.attempted ⊆ l'.attempted ∧
      ∃ a, x.1 = some a ∧ Shut pool accounts l'.attempted a.stepId := by
  subst hx
  cases hfails : l.fails body path t source fun met => ⟨poolId, stepId, owner, met⟩ with
  | mk a after =>
    obtain ⟨met, rfl⟩ := fails_ask hfails
    refine ⟨fun a ha => ?_, fun l' hl => ?_⟩
    · cases ha
      exact ⟨hin, hopen⟩
    · obtain rfl : after = .again l' := hl
      obtain ⟨-, hattempted⟩ := fails_again hfails
      rw [hattempted]
      exact ⟨List.subset_cons_self _ _, _, rfl, .inl List.mem_cons_self⟩

/-- **A leg** asks a row of the pool that nothing shuts, and one that comes back to the pool shuts
the row it asked. -/
theorem leg_spec {l : Loop} {t : Turn target} (ht : t.At pool accounts) :
    (∀ a, (l.leg body path t).1 = some a →
      a.stepId ∈ pool.steps.map Step.id ∧ ¬ Shut pool accounts l.attempted a.stepId) ∧
    ∀ l', (l.leg body path t).2 = .again l' → l.attempted ⊆ l'.attempted ∧
      ∃ a, (l.leg body path t).1 = some a ∧ Shut pool accounts l'.attempted a.stepId := by
  obtain ⟨⟨id, levels, hsource⟩, haccounts⟩ := ht
  unfold Loop.leg
  rw [hsource]
  dsimp only
  cases hres : (resolve t.choice.env t.choice.now ⟨id, some pool, levels⟩ body l.attempted path
      t.choice.state).2 with
  | passes => exact ⟨nofun, nofun⟩
  | refused r => exact ⟨nofun, nofun⟩
  | raised => exact ⟨nofun, nofun⟩
  | served poolId stepId leg =>
    obtain ⟨-, step, hstep, hid, hrow, hleg⟩ := resolve_untried hres
    have hin : stepId ∈ pool.steps.map Step.id := List.mem_map.mpr ⟨step, hstep, hid⟩
    cases leg with
    | cell out =>
      obtain ⟨output, hk⟩ := hleg
      have hopen : ¬ Shut pool accounts l.attempted stepId := by
        rintro (hshut | ⟨step', hstep', hid', accountId, model, provider, hk', -⟩)
        · exact hrow hshut
        · obtain rfl := eq_of_id hstep hstep' (hid.trans hid'.symm)
          rw [hk] at hk'
          cases hk'
      dsimp only
      by_cases hgave : t.answer.gaveUp
      · rw [if_pos hgave]
        by_cases hon : t.goesOn body path ⟨id, some pool, levels⟩ (rowName stepId :: l.attempted)
        · rw [if_pos hon]
          refine ⟨fun a ha => ?_, fun l' hl => ?_⟩
          · cases ha
            exact ⟨hin, hopen⟩
          · cases hl
            exact ⟨List.subset_cons_self _ _, _, rfl, .inl List.mem_cons_self⟩
        · rw [if_neg hon]
          refine ⟨fun a ha => ?_, fun l' hl => (nomatch hl)⟩
          cases ha
          exact ⟨hin, hopen⟩
      · rw [if_neg hgave]
        exact fails_spec hin hopen rfl
    | account provider model =>
      obtain ⟨accountId, hk, ha, howner⟩ := hleg
      have hopen : ¬ Shut pool accounts l.attempted stepId := by
        rintro (hshut | ⟨step', hstep', hid', accountId', model', provider', hk', ha', hmem⟩)
        · exact hrow hshut
        · -- the row is served by its own account's provider, which nothing has refused
          obtain rfl := eq_of_id hstep hstep' (hid.trans hid'.symm)
          rw [hk] at hk'
          cases hk'
          rw [← haccounts, ha] at ha'
          cases ha'
          exact howner hmem
      dsimp only
      by_cases hunsent : t.answer.unsent
      · rw [if_pos hunsent]
        exact ⟨nofun, nofun⟩
      rw [if_neg hunsent]
      by_cases hlimit : t.answer.quiet ∧ (refusalReason t.answer.code).isSome
      · rw [if_pos hlimit]
        refine ⟨fun a ha => ?_, fun l' hl => ?_⟩
        · cases ha
          exact ⟨hin, hopen⟩
        · cases hl
          exact ⟨List.subset_cons_self _ _, _, rfl, .inr ⟨step, hstep, hid, accountId, model,
            provider, hk, haccounts ▸ ha, List.mem_cons_self⟩⟩
      · rw [if_neg hlimit]
        exact fails_spec hin hopen rfl

/-- **At one pool** no row is asked twice, and the request leaves it. -/
theorem visit_spec {l : Loop} {turns : List (Turn target)}
    (hturns : ∀ t ∈ turns, t.At pool accounts) :
    (∀ a ∈ (l.visit body path turns).1,
      a.stepId ∈ pool.steps.map Step.id ∧ ¬ Shut pool accounts l.attempted a.stepId) ∧
    ((l.visit body path turns).1.map Ask.stepId).Nodup ∧
    ((l.visit body path turns).2 = false →
      (l.visit body path turns).1.length = turns.length) := by
  induction turns generalizing l with
  | nil => exact ⟨fun _ h => (nomatch h), List.nodup_nil, fun _ => rfl⟩
  | cons t turns ih =>
    obtain ⟨hask, hagain⟩ := @leg_spec _ body path _ _ l t
      (hturns t List.mem_cons_self)
    unfold Loop.visit
    cases hleg : l.leg body path t with
    | mk ask after =>
      rw [hleg] at hask hagain
      cases after with
      | again l' =>
        obtain ⟨hsub, a, ha, hshut⟩ := hagain l' rfl
        obtain rfl : ask = some a := ha
        obtain ⟨hrest, hnodup, hlength⟩ := ih (l := l')
          fun t ht => hturns t (List.mem_cons_of_mem _ ht)
        refine ⟨fun b hb => ?_, ?_, fun h => ?_⟩
        · rcases List.mem_cons.mp hb with rfl | hb
          · exact hask _ rfl
          · exact ⟨(hrest b hb).1, fun h => (hrest b hb).2 (h.mono hsub)⟩
        · -- the rows asked later are not shut, and this one is
          refine List.nodup_cons.mpr ⟨fun hmem => ?_, hnodup⟩
          obtain ⟨b, hb, heq⟩ := List.mem_map.mp hmem
          exact (hrest b hb).2 (heq ▸ hshut)
        · exact congrArg (· + 1) (hlength h)
      | leaves status rescuable =>
        refine ⟨fun b hb => hask b (Option.mem_toList.mp hb), ?_, fun h => (nomatch h)⟩
        cases ask <;> simp
      | raised =>
        refine ⟨fun b hb => hask b (Option.mem_toList.mp hb), ?_, fun h => (nomatch h)⟩
        cases ask <;> simp

/-- **The legs of one pool end.** Of a pool of so many rows the request asks no row twice, it asks
no more than there are, and after as many legs it has left the pool. -/
theorem visit_ends (l : Loop) (turns : List (Turn target))
    (hturns : ∀ t ∈ turns, t.At pool accounts) :
    ((l.visit body path turns).1.map Ask.stepId).Nodup ∧
      (∀ a ∈ (l.visit body path turns).1, a.stepId ∈ pool.steps.map Step.id) ∧
      (l.visit body path turns).1.length ≤ pool.steps.length ∧
      (pool.steps.length < turns.length → (l.visit body path turns).2 = true) := by
  obtain ⟨hask, hnodup, hlength⟩ := @visit_spec _ body path _ _ l turns hturns
  have hle : (l.visit body path turns).1.length ≤ pool.steps.length := by
    have hsub : (l.visit body path turns).1.map Ask.stepId ⊆ pool.steps.map Step.id := by
      intro id hid
      obtain ⟨a, ha, rfl⟩ := List.mem_map.mp hid
      exact (hask a ha).1
    simpa using (List.subperm_of_subset hnodup hsub).length_le
  refine ⟨hnodup, fun a ha => (hask a ha).1, hle, fun hmany => ?_⟩
  by_contra hstill
  have hall := hlength (Bool.eq_false_of_not_eq_true hstill)
  omega

/-- A limit at the first account and an error at the second end a pool of two. -/
theorem visit_ends_two :
    let visit := Loop.start.visit none "/v1/chat/completions"
      [answered twoAccounts 429, answered twoAccounts 503, answered twoAccounts 503]
    (visit.1.map Ask.stepId).Nodup ∧
      (∀ a ∈ visit.1, a.stepId ∈ twoAccounts.steps.map Step.id) ∧
      visit.1.length ≤ twoAccounts.steps.length ∧ (twoAccounts.steps.length < 3 → visit.2 = true) :=
  visit_ends Loop.start _ fun t ht => show t.At twoAccounts desk.account by
    simp only [List.mem_cons, List.not_mem_nil, or_false] at ht
    rcases ht with rfl | rfl | rfl <;> exact ⟨⟨_, _, rfl⟩, rfl⟩

end Visit

/-! ### What a row is passed over for -/

section Reasons

/-- A rest leaves `candidate` as it was put, or is gone. -/
theorem rested_of_blocked {s s' : State} (hs : Rested s)
    (h : ∀ x b, s'.blocked x = some b → s.blocked x = some b) : Rested s' :=
  fun x b hb => hs x b (h x b hb)

/-- What the limits say of a row is not about this request. -/
theorem judge_reason (levels : UsageReserve × UsageReserve) (row : Row target)
    (windows : List Window) :
    (judge now levels row windows).reason ≠ .tried ∧
      (judge now levels row windows).reason ≠ .upstreamRefused := by
  unfold judge
  split
  · exact ⟨nofun, nofun⟩
  split
  · exact ⟨nofun, nofun⟩
  dsimp only
  split
  · exact ⟨nofun, nofun⟩
  split
  · exact ⟨nofun, nofun⟩
  · exact ⟨nofun, nofun⟩

/-- A row past its schedule and its sign-in is not passed over as tried, and as refused only with
its quota owner. -/
theorem accountCandidate_reason {step : Step} {model : Text} {provider : Provider}
    {excluded : List Text} {levels : UsageReserve × UsageReserve} {s s' : State} {row : Row target}
    (hs : Rested s)
    (h : accountCandidate E now step model provider excluded levels s = (s', row)) :
    row.reason ≠ .tried ∧ (row.reason = .upstreamRefused →
      row.usageAccountId = some provider.owner ∧ provider.owner ∈ excluded) := by
  unfold accountCandidate at h
  dsimp only at h
  by_cases hmem : provider.owner ∈ excluded
  · rw [if_pos hmem] at h
    obtain ⟨-, rfl⟩ := Prod.mk.inj h
    exact ⟨nofun, fun _ => ⟨rfl, hmem⟩⟩
  rw [if_neg hmem] at h
  split at h
  · next b hb =>
    -- the rest was put by `failed`, whose reasons are neither of the two
    obtain ⟨-, rfl⟩ := Prod.mk.inj h
    have hreason := hs _ _ (forgive_blocked (Option.filter_eq_some_iff.mp hb).1)
    refine ⟨fun hr => ?_, fun hr => ?_⟩ <;>
    · rw [show b.reason = _ from hr] at hreason
      exact absurd hreason (by decide)
  split at h
  · obtain ⟨-, rfl⟩ := Prod.mk.inj h
    exact ⟨nofun, nofun⟩
  split at h
  · obtain ⟨-, rfl⟩ := Prod.mk.inj h
    exact ⟨nofun, nofun⟩
  obtain ⟨-, rfl⟩ := Prod.mk.inj h
  split
  · exact ⟨(judge_reason _ _ _).1, fun hr => absurd hr (judge_reason _ _ _).2⟩
  · exact ⟨nofun, nofun⟩

/-- **A row** is passed over as tried when it is among what was tried, and as refused when its
quota owner is. -/
theorem candidate_reason {levels : ModelLevels} {asked : Asked} {step : Step} {s s' : State}
    {row : Row target} (hs : Rested s) (h : candidate E now levels asked step s = (s', row)) :
    (row.reason = .tried → rowName step.id ∈ asked.excluded) ∧
    (row.reason = .upstreamRefused → ∃ accountId provider, E.account accountId = some provider ∧
      row.usageAccountId = some provider.owner ∧ provider.owner ∈ asked.excluded) := by
  rcases candidate_cases E now levels asked step with
    ⟨plain, hplain, hsame⟩ | ⟨accountId, model, provider, -, -, -, -, haccount, -, -, hsame⟩
  · obtain ⟨-, rfl⟩ := Prod.mk.inj ((hsame s).symm.trans h)
    exact ⟨hplain.tried, fun hr => absurd hr hplain.unrefused⟩
  · obtain ⟨htried, hrefused⟩ := accountCandidate_reason hs ((hsame s).symm.trans h)
    exact ⟨fun hr => absurd hr htried, fun hr => ⟨accountId, provider, haccount, hrefused hr⟩⟩

/-- The same of each row of a pool. -/
theorem verdicts_reason {levels : ModelLevels} {asked : Asked} {steps : List Step} {s : State}
    (hs : Rested s) {row : Row target} (h : row ∈ (verdicts E now levels asked steps s).2) :
    (row.reason = .tried → rowName row.stepId ∈ asked.excluded) ∧
    (row.reason = .upstreamRefused → ∃ accountId provider, E.account accountId = some provider ∧
      row.usageAccountId = some provider.owner ∧ provider.owner ∈ asked.excluded) := by
  induction steps generalizing s with
  | nil => cases h
  | cons step rest ih =>
    unfold verdicts at h
    rcases List.mem_cons.mp h with rfl | h
    · obtain ⟨htried, hrefused⟩ := candidate_reason hs
        (show candidate E now levels asked step s = (_, _) from rfl)
      rw [candidate_stepId]
      exact ⟨htried, hrefused⟩
    · exact ih (rested_of_blocked hs fun _ _ hb => candidate_blocked hb) h

end Reasons

/-! ### Over a whole request -/

section Run

variable {body : Option Value} {path : Text}

/-- What an asked row is kept under: its own name when it failed, its quota owner's when its
provider refused it. -/
def Ask.Left (a : Ask) (x : Text) : Prop :=
  (a.met = .failed ∧ x = rowName a.stepId) ∨
    (a.met = .refused ∧ a.owner = some x ∧ codePoint ':' ∉ x)

theorem Ask.Left.failed {a : Ask} {stepId : Text} (h : a.Left (rowName stepId)) :
    a.met = .failed ∧ a.stepId = stepId := by
  rcases h with ⟨hmet, heq⟩ | ⟨-, -, hplain⟩
  · exact ⟨hmet, (List.append_cancel_left heq).symm⟩
  · -- a row's name has a colon, a quota owner's has none
    exact absurd (List.mem_append_left _ (by decide)) hplain

theorem Ask.Left.refused {a : Ask} {owner : Text} (h : a.Left owner) (ho : codePoint ':' ∉ owner) :
    a.met = .refused ∧ a.owner = some owner := by
  rcases h with ⟨-, rfl⟩ | ⟨hmet, howner, -⟩
  · exact absurd (List.mem_append_left _ (by decide)) ho
  · exact ⟨hmet, howner⟩

/-- A leg that comes back to the pool keeps what the row it asked leaves, and nothing else. -/
theorem leg_left {l l' : Loop} {t : Turn target} {ask : Option Ask}
    (h : l.leg body path t = (ask, .again l')) :
    ∃ a x, ask = some a ∧ a.Left x ∧ l'.attempted = x :: l.attempted := by
  unfold Loop.leg at h
  cases hsource : t.source with
  | none =>
    rw [hsource] at h
    cases h
  | some source =>
    rw [hsource] at h
    dsimp only at h
    cases hres : (resolve t.choice.env t.choice.now source body l.attempted path
        t.choice.state).2 with
    | passes =>
      rw [hres] at h
      cases h
    | refused r =>
      rw [hres] at h
      cases h
    | raised =>
      rw [hres] at h
      cases h
    | served poolId stepId leg =>
      have hfails {owner : Option Text}
          (h : (l.fails body path t source fun met => ⟨poolId, stepId, owner, met⟩).map some id =
            (ask, .again l')) :
          ∃ a x, ask = some a ∧ a.Left x ∧ l'.attempted = x :: l.attempted := by
        cases hf : l.fails body path t source fun met => ⟨poolId, stepId, owner, met⟩ with
        | mk a after =>
          rw [hf] at h
          obtain ⟨ha, hafter⟩ := Prod.mk.inj h
          obtain rfl : after = .again l' := hafter
          obtain ⟨rfl, hattempted⟩ := fails_again hf
          exact ⟨_, _, ha.symm, .inl ⟨rfl, rfl⟩, hattempted⟩
      rw [hres] at h
      cases leg with
      | cell out =>
        dsimp only at h
        split at h
        · split at h
          · obtain ⟨ha, hl⟩ := Prod.mk.inj h
            cases hl
            exact ⟨_, _, ha.symm, .inl ⟨rfl, rfl⟩, rfl⟩
          · cases (congrArg Prod.snd h)
        · exact hfails h
      | account provider model =>
        dsimp only at h
        split at h
        · cases (congrArg Prod.snd h)
        split at h
        · obtain ⟨ha, hl⟩ := Prod.mk.inj h
          cases hl
          -- the provider is an account's, whose quota owner has no colon
          cases hpool : source.pool with
          | none =>
            unfold resolve at hres
            rw [hpool] at hres
            cases hres
          | some pool =>
            obtain ⟨-, step, -, -, -, accountId, -, haccount, -⟩ := resolve_untried
              (show (resolve t.choice.env t.choice.now ⟨source.id, some pool, source.levels⟩ body
                l.attempted path t.choice.state).2 = .served poolId stepId (.account provider model)
                from hpool ▸ hres)
            exact ⟨_, _, ha.symm, .inr ⟨rfl, rfl, t.choice.plain _ _ haccount⟩, rfl⟩
        · exact hfails h

/-- A turn that goes on keeps what was tried, and adds what its row leaves. -/
theorem turn_left {l l' : Loop} {t : Turn target} {ask : Option Ask}
    (h : l.turn body path t = (ask, some l')) {x : Text} (hx : x ∈ l'.attempted) :
    x ∈ l.attempted ∨ ∃ a, ask = some a ∧ a.Left x := by
  unfold Loop.turn at h
  cases hleg : l.leg body path t with
  | mk ask' after =>
    rw [hleg] at h
    cases after with
    | again l₁ =>
      cases h
      obtain ⟨a, y, ha, hleft, hattempted⟩ := leg_left hleg
      rw [hattempted] at hx
      rcases List.mem_cons.mp hx with rfl | hx
      · exact .inr ⟨a, ha, hleft⟩
      · exact .inl hx
    | leaves status rescuable =>
      -- a rescue takes what was tried along, as it is
      obtain ⟨-, hl⟩ := Prod.mk.inj h
      split at hl
      · cases hl
        exact .inl hx
      · cases hl
    | raised => cases h

/-- **Over a request** all that was tried is what the rows it asked have left. -/
theorem run_left {l l' : Loop} {turns : List (Turn target)} {asks : List Ask}
    (h : l.run body path turns = (asks, some l')) {x : Text} (hx : x ∈ l'.attempted) :
    x ∈ l.attempted ∨ ∃ a ∈ asks, a.Left x := by
  induction turns generalizing l asks with
  | nil =>
    cases h
    exact .inl hx
  | cons t turns ih =>
    unfold Loop.run at h
    cases hturn : l.turn body path t with
    | mk ask after =>
      rw [hturn] at h
      cases after with
      | none => cases h
      | some l₁ =>
        obtain ⟨rfl, hl⟩ := Prod.mk.inj h
        rcases ih (Prod.ext rfl hl) with hx | ⟨a, ha, hleft⟩
        · rcases turn_left hturn hx with hx | ⟨a, rfl, hleft⟩
          · exact .inl hx
          · exact .inr ⟨a, List.mem_append_left _ List.mem_cons_self, hleft⟩
        · exact .inr ⟨a, List.mem_append_right _ ha, hleft⟩

/-- **What a row is passed over for has happened.** However the legs went and whatever routes the
rescues took, a row is passed over as tried only if this request asked it in its pool and it
failed, unless a row of another pool that was asked has its id; and as refused only if this
request asked a row of the same quota owner that its provider refused. -/
theorem run_skipped {turns : List (Turn target)} {asks : List Ask} {l : Loop}
    (hrun : Loop.start.run body path turns = (asks, some l)) (look : Look target)
    (pool : CloudPool) (levels : ModelLevels) :
    ∀ row ∈ (verdicts look.env look.now levels (Asked.of body l.attempted path) pool.steps
        look.state).2,
      (row.reason = .tried → (∀ a ∈ asks, a.stepId = row.stepId → a.poolId = pool.id) →
        ∃ a ∈ asks, a.poolId = pool.id ∧ a.stepId = row.stepId ∧ a.met = .failed) ∧
      (row.reason = .upstreamRefused →
        ∃ a ∈ asks, a.owner.isSome ∧ a.owner = row.usageAccountId ∧ a.met = .refused) := by
  intro row hrow
  obtain ⟨htried, hrefused⟩ := verdicts_reason look.rested hrow
  refine ⟨fun hr hids => ?_, fun hr => ?_⟩
  · rcases run_left hrun (htried hr) with hx | ⟨a, ha, hleft⟩
    · cases hx
    · obtain ⟨hmet, hid⟩ := hleft.failed
      exact ⟨a, ha, hids a ha hid, hid, hmet⟩
  · obtain ⟨accountId, provider, haccount, howner, hmem⟩ := hrefused hr
    rcases run_left hrun hmem with hx | ⟨a, ha, hleft⟩
    · cases hx
    · obtain ⟨hmet, heq⟩ := hleft.refused (look.plain _ _ haccount)
      exact ⟨a, ha, by rw [heq]; rfl, heq.trans howner.symm, hmet⟩

/-- An error at the first account and a limit at the second: what the next look passes over. -/
theorem run_skipped_both :
    (verdicts desk 1000 [] (Asked.of none [Text.of "b", rowName "r1"]
        "/v1/chat/completions") twoAccounts.steps State.fresh).2.map Row.reason =
      [.tried, .upstreamRefused] ∧
    ∀ row ∈ (verdicts desk 1000 [] (Asked.of none [Text.of "b", rowName "r1"]
        "/v1/chat/completions") twoAccounts.steps State.fresh).2,
      (row.reason = .tried →
        (∀ a ∈ [⟨"p", "r1", some "a", .failed⟩, ⟨"p", "r2", some "b", .refused⟩],
          Ask.stepId a = row.stepId → a.poolId = twoAccounts.id) →
        ∃ a ∈ [⟨"p", "r1", some "a", .failed⟩, ⟨"p", "r2", some "b", .refused⟩],
          Ask.poolId a = twoAccounts.id ∧ a.stepId = row.stepId ∧ a.met = .failed) ∧
      (row.reason = .upstreamRefused →
        ∃ a ∈ [⟨"p", "r1", some "a", .failed⟩, ⟨"p", "r2", some "b", .refused⟩],
          (Ask.owner a).isSome ∧ a.owner = row.usageAccountId ∧ a.met = .refused) :=
  ⟨by decide, run_skipped
    (show Loop.start.run none _ [answered twoAccounts 503, answered twoAccounts 429] =
      (_, some ⟨[Text.of "b", rowName "r1"], 1, 0⟩) by decide)
    atDesk twoAccounts []⟩

/-- A limit at the first row has the second passed over, which was not asked: both spend what one
quota owner has. -/
theorem skipped_unasked :
    Loop.start.run none "/v1/chat/completions" [answered twoModels 429] =
        ([⟨"p", "r1", some "a", .refused⟩], some ⟨[Text.of "a"], 0, 0⟩) ∧
      ∃ row ∈ (verdicts desk 1000 [] (Asked.of none [Text.of "a"] "/v1/chat/completions")
          twoModels.steps State.fresh).2,
        row.stepId = Text.of "r2" ∧ row.eligible = false ∧ row.reason = .upstreamRefused := by
  refine ⟨by decide, ?_⟩
  exact ⟨_, List.mem_cons_of_mem _ List.mem_cons_self, by decide, by decide,
    by decide⟩

end Run

end Proxy.Pool
