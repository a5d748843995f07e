import Caravan.Proxy.Legs

/-!
# The look ahead and the choice

`can_go_on` looks at a pool's rows before `resolve` does, and each look may ask a usage page and
keep what it says. A second look at the same clock goes by what the first one left.

* `look_ahead_iff` — of a pool, the look ahead agrees with the choice and two choices in a row
  agree, whatever the proxy keeps and the request has tried, exactly when each page that would
  make a row of it fit stands: none of its windows is past its reset at the proxy's clock, and the
  last confirmed reset is not ahead of it.

What carries it: a state is `Later` than another when it keeps of every account that was heard
what the other keeps of it; every look leads to a later state, and a row gets in every later state
the verdict it had, but for one with a page that does not stand.
-/

namespace Proxy.Pool

open Python

variable {target : Type} {E : Env target} {now : ℚ}

/-- The ids of accounts (`normalize_cloud_account`). -/
structure Env.Named (E : Env target) : Prop where
  strip : ∀ id provider, E.account id = some provider → provider.owner.strip = provider.owner
  ne_nil : ∀ id provider, E.account id = some provider → provider.owner ≠ []
  plain : ∀ id provider, E.account id = some provider → codePoint ':' ∉ provider.owner

/-! ### A later state -/

/-- An account that `reading` does not ask. -/
def Heard (E : Env target) (now : ℚ) (s : State) (owner : Text) : Prop :=
  ((s.readAt owner).any (isFresh now (E.resetAt owner)) && !expired now (s.held owner)) = true ∨
    (s.observed owner).any (isFresh now (E.resetAt owner)) = true ∨ s.asks now owner = false

/-- The last confirmed reset of an account is seen. -/
def Seen (E : Env target) (s : State) (owner : Text) : Prop := E.resetAt owner ≤ s.resetsSeen owner

/-- The two states have the same reading of an account. -/
structure SameReading (s t : State) (owner : Text) : Prop where
  usage : t.usage owner = s.usage owner
  observed : t.observed owner = s.observed owner
  tried : t.tried owner = s.tried owner

/-- A state after another at the same clock. -/
structure Later (E : Env target) (now : ℚ) (s t : State) : Prop where
  seen : ∀ owner, Seen E s owner → Seen E t owner
  rests : ∀ owner, Seen E s owner → t.blocked owner = s.blocked owner
  heard : ∀ owner, owner.strip = owner → Seen E s owner → Heard E now s owner →
    SameReading s t owner

theorem SameReading.refl (s : State) (owner : Text) : SameReading s s owner := ⟨rfl, rfl, rfl⟩

theorem SameReading.trans {s t u : State} {owner : Text} (h : SameReading s t owner)
    (h' : SameReading t u owner) : SameReading s u owner :=
  ⟨h'.usage.trans h.usage, h'.observed.trans h.observed, h'.tried.trans h.tried⟩

section SameReading

variable {s t : State} {owner : Text} (h : SameReading s t owner) (hstrip : owner.strip = owner)
include h hstrip

theorem SameReading.held : t.held owner = s.held owner := by
  unfold State.held
  rw [hstrip, h.usage]

theorem SameReading.readAt : t.readAt owner = s.readAt owner := by
  unfold State.readAt
  rw [hstrip, h.usage]

omit hstrip in
theorem SameReading.asks : t.asks now owner = s.asks now owner := by
  unfold State.asks
  rw [h.tried]

theorem SameReading.heard (hs : Heard E now s owner) : Heard E now t owner := by
  unfold Heard at hs ⊢
  rwa [h.held hstrip, h.readAt hstrip, h.observed, h.asks]

end SameReading

theorem Later.refl (s : State) : Later E now s s :=
  ⟨fun _ h => h, fun _ _ => rfl, fun _ _ _ _ => SameReading.refl _ _⟩

theorem Later.trans {s t u : State} (h : Later E now s t) (h' : Later E now t u) :
    Later E now s u where
  seen owner hseen := h'.seen owner (h.seen owner hseen)
  rests owner hseen := (h'.rests owner (h.seen owner hseen)).trans (h.rests owner hseen)
  heard owner hstrip hseen hheard :=
    have hsame := h.heard owner hstrip hseen hheard
    hsame.trans (h'.heard owner hstrip (h.seen owner hseen) (hsame.heard hstrip hheard))

/-! ### A reset that is seen -/

theorem forgive_of_seen {s : State} {owner : Text} (h : Seen E s owner) :
    s.forgive owner (E.resetAt owner) = s := by
  unfold State.forgive
  rw [if_neg (not_lt.mpr h)]

/-- A reset of an account leaves every reading, and all that is kept of another one. -/
theorem forgive_spec (s : State) (owner : Text) (resetAt : ℚ) :
    (s.forgive owner resetAt).usage = s.usage ∧
      (s.forgive owner resetAt).observed = s.observed ∧
      resetAt ≤ (s.forgive owner resetAt).resetsSeen owner ∧
      ∀ x, x ≠ owner → (s.forgive owner resetAt).resetsSeen x = s.resetsSeen x ∧
        (s.forgive owner resetAt).blocked x = s.blocked x ∧
        (s.forgive owner resetAt).tried x = s.tried x := by
  unfold State.forgive
  split
  · dsimp only
    split <;> split <;>
      exact ⟨rfl, rfl, by simp, fun x hx => ⟨by simp [hx], by simp [hx], by simp [hx]⟩⟩
  · next h => exact ⟨rfl, rfl, not_lt.mp h, fun _ _ => ⟨rfl, rfl, rfl⟩⟩

theorem forgive_fresh_tried (owner : Text) (resetAt : ℚ) :
    (State.fresh.forgive owner resetAt).tried owner = none := by
  unfold State.forgive
  split
  · dsimp only
    split
    · split
      · exact Function.update_self ..
      · rfl
    · split
      · exact Function.update_self ..
      · rfl
  · rfl

theorem seen_forgive (s : State) (owner : Text) :
    Seen E (s.forgive owner (E.resetAt owner)) owner :=
  (forgive_spec s owner _).2.2.1

/-- A reset changes what is kept of its own account only. -/
theorem forgive_other {s : State} {owner x : Text} {resetAt : ℚ} (hx : x ≠ owner) :
    (s.forgive owner resetAt).resetsSeen x = s.resetsSeen x ∧
      (s.forgive owner resetAt).blocked x = s.blocked x ∧
      SameReading s (s.forgive owner resetAt) x := by
  obtain ⟨husage, hobserved, -, hother⟩ := forgive_spec s owner resetAt
  obtain ⟨hseen, hblocked, htried⟩ := hother x hx
  exact ⟨hseen, hblocked, congrFun husage x, congrFun hobserved x, htried⟩

theorem later_forgive (s : State) (owner : Text) :
    Later E now s (s.forgive owner (E.resetAt owner)) := by
  -- a reset that is seen changes nothing
  have hsame (h : Seen E s owner) : s.forgive owner (E.resetAt owner) = s := forgive_of_seen h
  refine ⟨fun x h => ?_, fun x h => ?_, fun x _ h _ => ?_⟩ <;> by_cases hx : x = owner
  · rw [hx]
    exact seen_forgive s owner
  · unfold Seen
    rw [(forgive_other hx).1]
    exact h
  · subst hx
    rw [hsame h]
  · exact (forgive_other hx).2.1
  · subst hx
    rw [hsame h]
    exact SameReading.refl _ _
  · exact (forgive_other hx).2.2

/-! ### A reading, again -/

section Reading

variable {provider : Provider} (hstrip : provider.owner.strip = provider.owner)

theorem reading_of_heard {s : State} (h : Heard E now s provider.owner) :
    (reading E now provider s).1 = s := by
  unfold reading
  dsimp only
  split
  · rfl
  split
  · rfl
  split
  · next hu ho ha =>
    rcases h with h | h | h
    · exact absurd h hu
    · exact absurd h ho
    · rw [h] at ha
      cases ha
  · rfl

/-- A reading leaves the state, or asks the usage page. -/
theorem reading_state (s : State) : (reading E now provider s).1 = s ∨
    (reading E now provider s).1 = (s.fetched E now provider).1 := by
  unfold reading
  dsimp only
  split
  · exact .inl rfl
  split
  · exact .inl rfl
  split
  · split
    · next h => exact .inr (congrArg Prod.fst h).symm
    · next h => exact .inr (congrArg Prod.fst h).symm
  · exact .inl rfl

@[simp] theorem keep_resetsSeen (s : State) (owner : Text) (windows : List Window) :
    (s.keep owner windows now).resetsSeen = s.resetsSeen := by
  unfold State.keep
  split <;> rfl

@[simp] theorem keep_observed (s : State) (owner : Text) (windows : List Window) :
    (s.keep owner windows now).observed = s.observed := by
  unfold State.keep
  split <;> rfl

@[simp] theorem keep_tried (s : State) (owner : Text) (windows : List Window) :
    (s.keep owner windows now).tried = s.tried := by
  unfold State.keep
  split <;> rfl

theorem keep_usage {s : State} {owner : Text} {windows : List Window}
    (hstrip : owner.strip = owner) (hname : owner ≠ []) (hwindows : windows ≠ []) :
    (s.keep owner windows now).usage owner = some ⟨windows, now⟩ := by
  unfold State.keep
  rw [hstrip, if_neg (not_or.mpr ⟨hname, hwindows⟩)]
  exact Function.update_self ..

theorem fetched_resetsSeen (s : State) :
    (s.fetched E now provider).1.resetsSeen = s.resetsSeen := by
  unfold State.fetched
  dsimp only
  split
  · rfl
  split
  · exact keep_resetsSeen _ _ _
  split <;> rfl

include hstrip

theorem keep_other {s : State} {x : Text} (windows : List Window) (hx : x ≠ provider.owner) :
    SameReading s (s.keep provider.owner windows now) x := by
  unfold State.keep
  split
  · exact SameReading.refl _ _
  · rw [hstrip]
    exact ⟨Function.update_of_ne hx _ _, rfl, rfl⟩

/-- The page of an account says nothing of another one. -/
theorem fetched_other {s : State} {x : Text} (hx : x ≠ provider.owner) :
    SameReading s (s.fetched E now provider).1 x := by
  have htried : SameReading s { s with
      tried := Function.update s.tried provider.owner (some now) } x :=
    ⟨rfl, rfl, Function.update_of_ne hx _ _⟩
  unfold State.fetched
  dsimp only
  split
  · exact htried
  split
  · exact htried.trans (keep_other hstrip _ hx)
  split
  · exact htried.trans ⟨rfl, Function.update_of_ne hx _ _, rfl⟩
  · exact htried

theorem later_reading (s : State) : Later E now s (reading E now provider s).1 where
  seen owner hseen := by
    unfold Seen
    rcases reading_state s with h | h
    · rwa [h]
    · rwa [h, fetched_resetsSeen]
  rests owner _ := by rw [reading_blocked]
  heard owner _ _ hheard := by
    by_cases hx : owner = provider.owner
    · rw [hx] at hheard ⊢
      rw [reading_of_heard hheard]
      exact SameReading.refl _ _
    · rcases reading_state s with h | h
      · rw [h]
        exact SameReading.refl _ _
      · rw [h]
        exact fetched_other hstrip hx

omit hstrip

/-- An account that was asked at the clock is not asked again. -/
theorem asks_of_tried {s : State} {owner : Text} (h : s.tried owner = some now) :
    s.asks now owner = false := by
  unfold State.asks
  rw [h, Option.all_some, sub_self]
  decide

theorem reading_of_unheard {s : State} (h : ¬ Heard E now s provider.owner) :
    reading E now provider s =
      match s.fetched E now provider with
      | (s', some fresh) => (s', fresh, some now, true)
      | (s', none) => (s', s.held provider.owner, s.readAt provider.owner, false) := by
  unfold Heard at h
  rw [not_or, not_or, Bool.not_eq_false] at h
  unfold reading
  dsimp only
  rw [if_neg h.1, if_neg h.2.1]
  exact if_pos h.2.2

/-- What an account's page says stands at the clock: none of its windows has reset, and it was
asked after the last confirmed reset. -/
def UsagePage.Stands (E : Env target) (now : ℚ) (owner : Text) (page : UsagePage) : Prop :=
  expired now page.windows = false ∧ E.resetAt owner ≤ now

theorem isFresh_now {since : ℚ} : isFresh now since now = decide (since ≤ now) := by
  unfold isFresh
  rw [sub_self, decide_eq_true (show (0 : ℚ) < FRESH_SEC by decide), Bool.and_true]

/-- What is read of an account whose page said that it has no windows. -/
theorem reading_unlimited {s : State}
    (hheld : ¬ ((s.readAt provider.owner).any (isFresh now (E.resetAt provider.owner)) &&
      !expired now (s.held provider.owner)) = true)
    (hobserved : s.observed provider.owner = some now)
    (htried : s.tried provider.owner = some now) :
    Heard E now s provider.owner ∧
      if expired now [] = false ∧ E.resetAt provider.owner ≤ now then
        (reading E now provider s).2 = ([], some now, true)
      else (reading E now provider s).2.2.2 = false := by
  have hasks := asks_of_tried htried
  refine ⟨.inr (.inr hasks), ?_⟩
  have hfresh : (s.observed provider.owner).any (isFresh now (E.resetAt provider.owner)) =
      decide (E.resetAt provider.owner ≤ now) := by
    rw [hobserved, Option.any_some, isFresh_now]
  unfold reading
  dsimp only
  rw [if_neg hheld, hfresh]
  split
  · next hr => rw [if_pos (decide_eq_true hr.2), hobserved]
  · next hr =>
    rw [if_neg (fun h => hr ⟨rfl, of_decide_eq_true h⟩), if_neg (by rw [hasks]; decide)]

include hstrip

/-- What is read of an account whose page gave these windows. -/
theorem reading_kept {s : State} {windows : List Window}
    (husage : s.usage provider.owner = some ⟨windows, now⟩)
    (hobserved : ¬ (s.observed provider.owner).any (isFresh now (E.resetAt provider.owner)) = true)
    (htried : s.tried provider.owner = some now) :
    Heard E now s provider.owner ∧
      if expired now windows = false ∧ E.resetAt provider.owner ≤ now then
        (reading E now provider s).2 = (windows, some now, true)
      else (reading E now provider s).2.2.2 = false := by
  have hasks := asks_of_tried htried
  refine ⟨.inr (.inr hasks), ?_⟩
  have hheld : s.held provider.owner = windows := by
    unfold State.held
    rw [hstrip, husage]
    rfl
  have hat : s.readAt provider.owner = some now := by
    unfold State.readAt
    rw [hstrip, husage]
    rfl
  unfold reading
  dsimp only
  rw [hheld, hat, Option.any_some, isFresh_now]
  have hkept : (decide (E.resetAt provider.owner ≤ now) && !expired now windows) = true ↔
      expired now windows = false ∧ E.resetAt provider.owner ≤ now := by
    rw [Bool.and_eq_true, decide_eq_true_eq, Bool.not_eq_true', and_comm]
  split
  · next hr => rw [if_pos (hkept.mpr hr)]
  · next hr =>
    rw [if_neg (mt hkept.mp hr), if_neg (by rw [hasks]; decide)]

/-- What an account's page says is read at once, and then again as long as it stands. -/
theorem reading_page (hname : provider.owner ≠ []) {s : State} {page : UsagePage}
    (hheard : ¬ Heard E now s provider.owner) (hfetch : E.fetch provider = some page)
    (hsaid : page.windows ≠ [] ∨ page.unlimited = true) :
    (reading E now provider s).2 = (page.windows, some now, true) ∧
      Heard E now (reading E now provider s).1 provider.owner ∧
      if expired now page.windows = false ∧ E.resetAt provider.owner ≤ now then
        (reading E now provider (reading E now provider s).1).2 = (page.windows, some now, true)
      else (reading E now provider (reading E now provider s).1).2.2.2 = false := by
  have hread := reading_of_unheard hheard
  unfold Heard at hheard
  obtain ⟨hheld, hheard⟩ := not_or.mp hheard
  obtain ⟨hobserved, -⟩ := not_or.mp hheard
  unfold State.fetched at hread
  dsimp only at hread
  rw [hfetch] at hread
  dsimp only at hread
  by_cases hwindows : page.windows = []
  · -- the page says that there are no windows
    have hunlimited : page.unlimited = true := hsaid.resolve_left fun h => h hwindows
    rw [if_neg (not_not.mpr hwindows), if_pos hunlimited] at hread
    rw [hread, hwindows]
    exact ⟨rfl, @reading_unlimited _ E now provider { s with
      tried := Function.update s.tried provider.owner (some now)
      observed := Function.update s.observed provider.owner (some now) } hheld
      (Function.update_self ..) (Function.update_self ..)⟩
  · -- the page's windows are the reading that is held
    rw [if_pos hwindows] at hread
    rw [hread]
    exact ⟨rfl, reading_kept hstrip (keep_usage (s := { s with
        tried := Function.update s.tried provider.owner (some now) }) hstrip hname hwindows)
      (by rwa [keep_observed]) (by rw [keep_tried]; exact Function.update_self ..)⟩

omit hstrip in
/-- A page that says nothing leaves the reading as it was. -/
theorem reading_nothing {s : State} (hheard : ¬ Heard E now s provider.owner)
    (hnothing : ∀ page, E.fetch provider = some page →
      page.windows = [] ∧ ¬ page.unlimited = true) :
    Heard E now (reading E now provider s).1 provider.owner ∧
      (reading E now provider (reading E now provider s).1).2 = (reading E now provider s).2 := by
  have hread : reading E now provider s =
      ({ s with tried := Function.update s.tried provider.owner (some now) },
        s.held provider.owner, s.readAt provider.owner, false) := by
    rw [reading_of_unheard hheard]
    unfold State.fetched
    dsimp only
    cases hfetch : E.fetch provider with
    | none => rfl
    | some page =>
      obtain ⟨hwindows, hunlimited⟩ := hnothing page hfetch
      dsimp only
      rw [if_neg (not_not.mpr hwindows), if_neg hunlimited]
  unfold Heard at hheard
  obtain ⟨hheld, hheard⟩ := not_or.mp hheard
  obtain ⟨hobserved, -⟩ := not_or.mp hheard
  rw [hread]
  generalize hs₁ : { s with tried := Function.update s.tried provider.owner (some now) } = s₁
  have hasks : s₁.asks now provider.owner = false := by
    subst hs₁
    exact asks_of_tried (Function.update_self ..)
  refine ⟨.inr (.inr hasks), ?_⟩
  unfold reading
  dsimp only
  rw [if_neg (by subst hs₁; exact hheld), if_neg (by subst hs₁; exact hobserved),
    if_neg (by rw [hasks]; decide)]
  subst hs₁
  rfl

/-- **A second reading** of an account at the same clock asks nobody, and gives what the first
one gave, unless that was a page that does not stand. -/
theorem reading_twice (hname : provider.owner ≠ []) (s : State) :
    Heard E now (reading E now provider s).1 provider.owner ∧
      ((reading E now provider (reading E now provider s).1).2 = (reading E now provider s).2 ∨
        (reading E now provider (reading E now provider s).1).2.2.2 = false ∧
          ∃ page, E.fetch provider = some page ∧
            (page.windows ≠ [] ∨ page.unlimited = true) ∧
            (reading E now provider s).2 = (page.windows, some now, true) ∧
            ¬ page.Stands E now provider.owner) := by
  by_cases hheard : Heard E now s provider.owner
  · rw [reading_of_heard hheard]
    exact ⟨hheard, .inl rfl⟩
  by_cases hsaid : ∃ page, E.fetch provider = some page ∧
      (page.windows ≠ [] ∨ page.unlimited = true)
  · obtain ⟨page, hfetch, hsaid⟩ := hsaid
    obtain ⟨hpage, hh, hr⟩ := reading_page hstrip hname hheard hfetch hsaid
    refine ⟨hh, ?_⟩
    split at hr
    · exact .inl (hr.trans hpage.symm)
    · next hstands => exact .inr ⟨hr, page, hfetch, hsaid, hpage, hstands⟩
  · obtain ⟨hh, hr⟩ := reading_nothing hheard fun page hfetch => by
      by_contra hnot
      exact hsaid ⟨page, hfetch, by
        by_contra hneither
        obtain ⟨hwindows, hunlimited⟩ := not_or.mp hneither
        exact hnot ⟨not_not.mp hwindows, hunlimited⟩⟩
    exact ⟨hh, .inl hr⟩

/-- The same of any reading alike. -/
theorem reading_congr {s t : State} (h : SameReading s t provider.owner) :
    (reading E now provider t).2 = (reading E now provider s).2 := by
  have hfetched : (t.fetched E now provider).2 = (s.fetched E now provider).2 := by
    unfold State.fetched
    dsimp only
    split
    · rfl
    split
    · rfl
    split <;> rfl
  unfold reading
  dsimp only
  rw [h.held hstrip, h.readAt hstrip, h.observed, h.asks]
  split
  · rfl
  split
  · rfl
  split
  · cases hs : s.fetched E now provider with
    | mk s' a =>
      cases ht : t.fetched E now provider with
      | mk t' b =>
        rw [hs, ht] at hfetched
        obtain rfl : b = a := hfetched
        cases b <;> rfl
  · rfl

end Reading

/-! ### A row, again -/

section Row

theorem judge_congr (levels : UsageReserve × UsageReserve) {row row' : Row target}
    (windows : List Window) (h : row.eligible = false) (h' : row'.eligible = false) :
    (judge now levels row windows).eligible = (judge now levels row' windows).eligible := by
  unfold judge
  split
  · exact h.trans h'.symm
  split
  · exact h.trans h'.symm
  dsimp only
  split
  · exact h.trans h'.symm
  split <;> rfl

variable {step : Step} {model : Text} {provider : Provider} {excluded : List Text}
  {levels : UsageReserve × UsageReserve}

/-- What stands in the way of an account's row before its limits are read. -/
def barred (E : Env target) (now : ℚ) (step : Step) (model : Text) (provider : Provider)
    (excluded : List Text) (rest : Option Rest) : Option (Row target) :=
  let row : Row target := { Row.of step .ready with usageAccountId := some provider.owner }
  if provider.owner ∈ excluded then some { row with reason := .upstreamRefused }
  else
    match rest.filter fun b => now < b.ends with
    | some b => some { row with reason := b.reason, resetAt := some b.ends }
    | none =>
      if E.listed provider.credentials model = some false then
        some { row with reason := .modelUnavailable }
      else if !provider.isSubscription then some { row with eligible := true }
      else none

/-- What a reading says of a row. -/
def readRow (now : ℚ) (step : Step) (provider : Provider) (levels : UsageReserve × UsageReserve)
    (r : List Window × Option ℚ × Bool) : Row target :=
  let row : Row target := { Row.of step .ready with
    usageAccountId := some provider.owner, windows := r.1, readAt := r.2.1 }
  if r.2.2 then judge now levels row r.1 else { row with reason := .usageUnknown }

theorem accountCandidate_eq (s : State) :
    accountCandidate E now step model provider excluded levels s =
      let s := s.forgive provider.owner (E.resetAt provider.owner)
      match barred E now step model provider excluded (s.blocked provider.owner) with
      | some row => (s, row)
      | none => ((reading E now provider s).1,
          readRow now step provider levels (reading E now provider s).2) := by
  unfold accountCandidate barred
  dsimp only
  generalize s.forgive provider.owner (E.resetAt provider.owner) = s₁
  by_cases howner : provider.owner ∈ excluded
  · rw [if_pos howner, if_pos howner]
  rw [if_neg howner, if_neg howner]
  cases hrest : (s₁.blocked provider.owner).filter fun b => now < b.ends with
  | some b => rfl
  | none =>
    dsimp only
    by_cases hlisted : E.listed provider.credentials model = some false
    · rw [if_pos hlisted, if_pos hlisted]
    rw [if_neg hlisted, if_neg hlisted]
    by_cases hsubscription : (!provider.isSubscription) = true
    · rw [if_pos hsubscription, if_pos hsubscription]
    · rw [if_neg hsubscription, if_neg hsubscription]
      rfl

/-- What lets a row's limits be read. -/
theorem barred_eq_none {rest : Option Rest}
    (h : barred E now step model provider excluded rest = none) :
    provider.isSubscription = true ∧ E.listed provider.credentials model ≠ some false := by
  unfold barred at h
  dsimp only at h
  split at h
  · cases h
  split at h
  · cases h
  split at h
  · cases h
  next hlisted =>
  split at h
  · cases h
  next hsubscription =>
  exact ⟨by simpa using hsubscription, hlisted⟩

theorem later_accountCandidate (hstrip : provider.owner.strip = provider.owner) (s : State) :
    Later E now s (accountCandidate E now step model provider excluded levels s).1 := by
  have hforgive : Later E now s (s.forgive provider.owner (E.resetAt provider.owner)) :=
    later_forgive s provider.owner
  rw [accountCandidate_eq]
  dsimp only
  split
  · exact hforgive
  · exact hforgive.trans (later_reading hstrip _)

/-- An account's model that is fit by a page that does not stand. -/
structure PageSlips (E : Env target) (now : ℚ) (step : Step) (model : Text) (provider : Provider)
    (levels : UsageReserve × UsageReserve) : Prop where
  subscription : provider.isSubscription = true
  listed : E.listed provider.credentials model ≠ some false
  page : ∃ page, E.fetch provider = some page ∧ (page.windows ≠ [] ∨ page.unlimited = true) ∧
    (judge now levels (Row.of step .ready : Row target) page.windows).eligible = true ∧
    ¬ page.Stands E now provider.owner

theorem accountCandidate_again (hstrip : provider.owner.strip = provider.owner)
    (hname : provider.owner ≠ []) {s t : State}
    (ht : Later E now (accountCandidate E now step model provider excluded levels s).1 t) :
    (accountCandidate E now step model provider excluded levels t).2 =
        (accountCandidate E now step model provider excluded levels s).2 ∨
      (accountCandidate E now step model provider excluded levels t).2.eligible = false ∧
        ((accountCandidate E now step model provider excluded levels s).2.eligible = true →
          PageSlips E now step model provider levels) := by
  have hseen := seen_forgive (E := E) s provider.owner
  rw [accountCandidate_eq] at ht ⊢
  rw [accountCandidate_eq]
  generalize s.forgive provider.owner (E.resetAt provider.owner) = s₁ at ht hseen ⊢
  dsimp only at ht ⊢
  cases hbarred : barred E now step model provider excluded (s₁.blocked provider.owner) with
  | some row =>
    -- the reset is seen already, and the rests are as they were
    rw [hbarred] at ht
    rw [forgive_of_seen (ht.seen _ hseen), ht.rests _ hseen, hbarred]
    exact .inl rfl
  | none =>
    rw [hbarred] at ht
    dsimp only at ht ⊢
    obtain ⟨hheard, hagain⟩ := @reading_twice _ E now provider hstrip hname s₁
    have hseen₁ : Seen E (reading E now provider s₁).1 provider.owner :=
      (later_reading hstrip s₁).seen _ hseen
    have hrests : t.blocked provider.owner = s₁.blocked provider.owner := by
      rw [ht.rests _ hseen₁, reading_blocked]
    rw [forgive_of_seen (ht.seen _ hseen₁), hrests, hbarred]
    dsimp only
    rw [reading_congr hstrip (ht.heard _ hstrip hseen₁ hheard)]
    rcases hagain with hsame | ⟨hunknown, page, hfetch, hsome, hpage, hstands⟩
    · rw [hsame]
      exact .inl rfl
    · right
      unfold readRow
      dsimp only
      rw [hunknown, hpage]
      refine ⟨rfl, fun he => ?_⟩
      obtain ⟨hsubscription, hlisted⟩ := barred_eq_none hbarred
      exact ⟨hsubscription, hlisted, page, hfetch, hsome,
        (judge_congr levels page.windows rfl rfl).trans he, hstands⟩

end Row

/-! ### Any row, again -/

/-- A row of a chat's pool that is fit by a page that does not stand. -/
structure Slips (E : Env target) (now : ℚ) (levels : ModelLevels) (chat : Bool) (step : Step) :
    Prop where
  enabled : step.enabled = true
  opened : E.closed (keyOfRow step) now = none
  chat : chat = true
  account : ∃ accountId model provider, step.kind = .account accountId model ∧
    E.account accountId = some provider ∧ E.credential provider = true ∧
    PageSlips E now step model provider (levels.of accountId model)

section Candidate

variable {levels : ModelLevels} {asked : Asked} {step : Step}

theorem later_candidate (hnamed : E.Named) (now : ℚ) (levels : ModelLevels) (asked : Asked)
    (step : Step) (s : State) :
    Later E now s (candidate E now levels asked step s).1 := by
  rcases candidate_cases E now levels asked step with ⟨row, -, h⟩ | ⟨accountId, model, provider, -,
    -, -, -, haccount, -, -, h⟩
  · rw [h]
    exact Later.refl s
  · rw [h]
    exact later_accountCandidate (hnamed.strip _ _ haccount) s

/-- **A row in a later state** gets the verdict it had, or it was fit by a page that does not
stand. -/
theorem candidate_again (hnamed : E.Named) {s t : State}
    (ht : Later E now (candidate E now levels asked step s).1 t) :
    (candidate E now levels asked step t).2 = (candidate E now levels asked step s).2 ∨
      (candidate E now levels asked step t).2.eligible = false ∧
        ((candidate E now levels asked step s).2.eligible = true →
          Slips E now levels asked.chat step) := by
  rcases candidate_cases E now levels asked step with ⟨row, -, h⟩ | ⟨accountId, model, provider,
    hk, henabled, hopened, -, haccount, hcredential, hchat, h⟩
  · rw [h, h]
    exact .inl rfl
  · rw [h] at ht ⊢
    rw [h]
    rcases accountCandidate_again (hnamed.strip _ _ haccount) (hnamed.ne_nil _ _ haccount) ht with
      hsame | ⟨hshut, hslips⟩
    · exact .inl hsame
    · exact .inr ⟨hshut, fun he => ⟨henabled, hopened, hchat (hslips he).subscription, accountId,
        model, provider, hk, haccount, hcredential, hslips he⟩⟩

/-- Of a row that does not slip nothing that is fit changes. -/
theorem candidate_stable (hnamed : E.Named) (hstands : ¬ Slips E now levels asked.chat step)
    {s t : State} (ht : Later E now (candidate E now levels asked step s).1 t) :
    (candidate E now levels asked step t).2 = (candidate E now levels asked step s).2 ∨
      (candidate E now levels asked step t).2.eligible = false ∧
        (candidate E now levels asked step s).2.eligible = false :=
  (candidate_again hnamed ht).imp id fun ⟨hshut, hslips⟩ =>
    ⟨hshut, Bool.eq_false_of_not_eq_true fun he => hstands (hslips he)⟩

end Candidate

/-! ### Both looks -/

section Looks

variable {levels : ModelLevels} {asked : Asked} (hnamed : E.Named)
include hnamed

theorem later_verdicts (now : ℚ) (levels : ModelLevels) (asked : Asked) (steps : List Step)
    (s : State) :
    Later E now s (verdicts E now levels asked steps s).1 := by
  induction steps generalizing s with
  | nil => exact Later.refl s
  | cons step rest ih => exact (later_candidate hnamed now levels asked step s).trans (ih _)

theorem later_anyFit (now : ℚ) (levels : ModelLevels) (asked : Asked) (steps : List Step)
    (s : State) :
    Later E now s (anyFit E now levels asked steps s).1 := by
  induction steps generalizing s with
  | nil => exact Later.refl s
  | cons step rest ih =>
    have hstep := later_candidate hnamed now levels asked step s
    unfold anyFit
    dsimp only
    split
    · exact hstep
    · exact hstep.trans (ih _)

/-- The verdicts of a later look: what is fit is the same. -/
theorem verdicts_again {steps : List Step}
    (hstands : ∀ step ∈ steps, ¬ Slips E now levels asked.chat step) {s t : State}
    (ht : Later E now (verdicts E now levels asked steps s).1 t) :
    List.Forall₂ (fun row row' => row' = row ∨ row'.eligible = false ∧ row.eligible = false)
      (verdicts E now levels asked steps s).2 (verdicts E now levels asked steps t).2 := by
  induction steps generalizing s t with
  | nil => exact .nil
  | cons step rest ih =>
    have hrest := later_verdicts hnamed now levels asked rest
      (candidate E now levels asked step s).1
    refine .cons (candidate_stable hnamed (hstands step List.mem_cons_self) (hrest.trans ht))
      (ih (fun x hx => hstands x (List.mem_cons_of_mem _ hx)) ?_)
    exact ht.trans (later_candidate hnamed now levels asked step t)

/-- The look ahead, and the rows of a later look. -/
theorem anyFit_again {steps : List Step}
    (hstands : ∀ step ∈ steps, ¬ Slips E now levels asked.chat step) {s t : State}
    (ht : Later E now (anyFit E now levels asked steps s).1 t) :
    (anyFit E now levels asked steps s).2 = true ↔
      ∃ row ∈ (verdicts E now levels asked steps t).2, row.eligible = true := by
  induction steps generalizing s t with
  | nil => exact ⟨nofun, fun ⟨_, h, _⟩ => (nomatch h)⟩
  | cons step rest ih =>
    have hstep := hstands step List.mem_cons_self
    unfold anyFit at ht ⊢
    dsimp only at ht ⊢
    by_cases hfit : (candidate E now levels asked step s).2.eligible = true
    · -- the look ends at this row, which is fit in the later look too
      rw [if_pos hfit] at ht ⊢
      refine iff_of_true rfl ⟨_, List.mem_cons_self, ?_⟩
      rcases candidate_stable hnamed hstep ht with hsame | ⟨-, hshut⟩
      · exact (congrArg Row.eligible hsame).trans hfit
      · exact absurd (hfit.symm.trans hshut) (by decide)
    · rw [if_neg hfit] at ht ⊢
      have hrest := later_anyFit hnamed now levels asked rest
        (candidate E now levels asked step s).1
      have hshut : ¬ (candidate E now levels asked step t).2.eligible = true := by
        rcases candidate_stable hnamed hstep (hrest.trans ht) with hsame | ⟨hshut, -⟩
        · exact fun he => hfit ((congrArg Row.eligible hsame).symm.trans he)
        · exact fun he => absurd (he.symm.trans hshut) (by decide)
      rw [ih (fun x hx => hstands x (List.mem_cons_of_mem _ hx))
        (ht.trans (later_candidate hnamed now levels asked step t))]
      constructor
      · rintro ⟨row, hrow, he⟩
        exact ⟨row, List.mem_cons_of_mem _ hrow, he⟩
      · rintro ⟨row, hrow, he⟩
        rcases List.mem_cons.mp hrow with rfl | hrow
        · exact absurd he hshut
        · exact ⟨row, hrow, he⟩

end Looks

/-- A search finds the same in lists that differ only in what it passes over. -/
theorem find?_forall₂ {α : Type} {p : α → Bool} {l l' : List α}
    (h : List.Forall₂ (fun a b => b = a ∨ p b = false ∧ p a = false) l l') :
    l'.find? p = l.find? p := by
  induction h with
  | nil => rfl
  | @cons a b l l' hab _ ih =>
    rcases hab with rfl | ⟨hb, ha⟩
    · rw [List.find?_cons, List.find?_cons, ih]
    · rw [List.find?_cons_of_neg (by simp [hb]), List.find?_cons_of_neg (by simp [ha]), ih]

theorem firstFit_forall₂ {rows rows' : List (Row target)}
    (h : List.Forall₂ (fun row row' => row' = row ∨ row'.eligible = false ∧ row.eligible = false)
      rows rows') : firstFit rows' = firstFit rows := by
  have hready : rows'.find? Row.isReady = rows.find? Row.isReady :=
    find?_forall₂ (h.imp fun row row' hrow => hrow.imp id fun ⟨h', h⟩ => by
      unfold Row.isReady
      rw [h', h]
      exact ⟨rfl, rfl⟩)
  unfold firstFit
  rw [hready, find?_forall₂ h]

/-! ### The look ahead agrees with the choice -/

section Resolve

variable {id : Text} {pool : CloudPool} {levels : ModelLevels} {body : Option Value}
  {excluded : List Text} {path : Text} {s : State}

/-- The row that is chosen, with its verdict. -/
def chosen (E : Env target) (now : ℚ) (levels : ModelLevels) (asked : Asked) (pool : CloudPool)
    (s : State) : Option (Row target) :=
  firstFit (verdicts E now levels asked pool.steps s).2

theorem later_choose (s : State) (pool : CloudPool) (rows : List (Row target))
    (chosen : Option Text) : Later E now s (s.choose now pool rows chosen) := by
  unfold State.choose
  dsimp only
  split
  · exact Later.refl s
  · exact ⟨fun _ h => h, fun _ _ => rfl, fun _ _ _ _ => ⟨rfl, rfl, rfl⟩⟩

/-- A choice of a request that does not go on from an answer. -/
theorem resolve_chosen (hasked : continues pool body = false) :
    (∃ (rows : List (Row target)) (chosen : Option Text),
      (resolve E now ⟨id, some pool, levels⟩ body excluded path s).1 =
        (verdicts E now levels (Asked.of body excluded path) pool.steps s).1.choose now pool rows
          chosen) ∧
      ∀ stepId, (∃ leg, (resolve E now ⟨id, some pool, levels⟩ body excluded path s).2 =
          .served pool.id stepId leg) ↔
        ∃ row, chosen E now levels (Asked.of body excluded path) pool s = some row ∧
          row.stepId = stepId := by
  unfold resolve chosen
  dsimp only
  rw [if_neg (by rw [hasked]; decide), head?_fit]
  cases hfirst : firstFit (verdicts E now levels (Asked.of body excluded path) pool.steps s).2 with
  | none => exact ⟨⟨_, _, rfl⟩, fun _ => ⟨fun ⟨_, h⟩ => (nomatch h), fun ⟨_, h, _⟩ => (nomatch h)⟩⟩
  | some row =>
    obtain ⟨hrow, he⟩ := firstFit_mem hfirst
    obtain ⟨step, hstep, hid, leg, hleg, -⟩ := legOf_eligible hrow he
    dsimp only [Option.map_some]
    rw [hleg]
    refine ⟨⟨_, _, rfl⟩, fun stepId => ⟨fun ⟨_, h⟩ => ?_, fun ⟨row', h, hid⟩ => ?_⟩⟩
    · cases h
      exact ⟨row, rfl, rfl⟩
    · cases h
      exact ⟨leg, by rw [← hid]⟩

/-- What is said of two looks at the same clock: the look ahead says whether the choice after it
takes a row, and a choice after a choice takes the same row with the same verdict. -/
structure Agrees (E : Env target) (now : ℚ) (id : Text) (pool : CloudPool) (levels : ModelLevels)
    (body : Option Value) (excluded : List Text) (path : Text) (s : State) : Prop where
  ahead : (canGoOn E now ⟨id, some pool, levels⟩ excluded body path s).2 = true ↔
    ∃ stepId leg, (resolve E now ⟨id, some pool, levels⟩ body excluded path
      (canGoOn E now ⟨id, some pool, levels⟩ excluded body path s).1).2 =
        .served pool.id stepId leg
  row : ∀ stepId, (∃ leg, (resolve E now ⟨id, some pool, levels⟩ body excluded path
      (resolve E now ⟨id, some pool, levels⟩ body excluded path s).1).2 =
        .served pool.id stepId leg) ↔
    ∃ leg, (resolve E now ⟨id, some pool, levels⟩ body excluded path s).2 =
      .served pool.id stepId leg
  verdict : chosen E now levels (Asked.of body excluded path) pool
      (resolve E now ⟨id, some pool, levels⟩ body excluded path s).1 =
    chosen E now levels (Asked.of body excluded path) pool s

theorem agrees_of_stands (hnamed : E.Named) (hasked : continues pool body = false)
    (hstands : ∀ step ∈ pool.steps, ¬ Slips E now levels (isChatRequest path) step) :
    Agrees E now id pool levels body excluded path s := by
  have hverdict : chosen E now levels (Asked.of body excluded path) pool
      (resolve E now ⟨id, some pool, levels⟩ body excluded path s).1 =
      chosen E now levels (Asked.of body excluded path) pool s := by
    obtain ⟨⟨rows, chosen, hstate⟩, -⟩ := @resolve_chosen _ E now id pool levels body excluded path
      s hasked
    rw [hstate]
    exact firstFit_forall₂ (verdicts_again hnamed hstands (later_choose _ pool rows chosen))
  refine ⟨?_, fun stepId => ?_, hverdict⟩
  · have hahead := @anyFit_again _ E now levels (Asked.of body excluded path) hnamed pool.steps
      hstands s _ (Later.refl _)
    rw [show (canGoOn E now ⟨id, some pool, levels⟩ excluded body path s) =
      anyFit E now levels (Asked.of body excluded path) pool.steps s from rfl, hahead]
    have hserves (stepId : Text) := (@resolve_chosen _ E now id pool levels body excluded path
      (anyFit E now levels (Asked.of body excluded path) pool.steps s).1 hasked).2 stepId
    constructor
    · rintro ⟨row, hrow, he⟩
      cases hfirst : firstFit (verdicts E now levels (Asked.of body excluded path) pool.steps
          (anyFit E now levels (Asked.of body excluded path) pool.steps s).1).2 with
      | none =>
        rw [firstFit_eq_none.mp hfirst row hrow] at he
        cases he
      | some first => exact ⟨_, (hserves first.stepId).mpr ⟨first, hfirst, rfl⟩⟩
    · rintro ⟨stepId, hserved⟩
      obtain ⟨row, hrow, -⟩ := (hserves stepId).mp hserved
      exact ⟨row, firstFit_mem hrow⟩
  · rw [(resolve_chosen hasked).2 stepId, (resolve_chosen hasked).2 stepId, hverdict]

end Resolve

/-! ### A page that does not stand -/

section Slip

variable {levels : ModelLevels} {asked : Asked} {step : Step}

theorem candidate_of_tried (h : rowName step.id ∈ asked.excluded) (s : State) :
    ∃ row, candidate E now levels asked step s = (s, row) ∧ row.eligible = false := by
  rcases candidate_cases E now levels asked step with ⟨row, -, hrow⟩ | ⟨_, _, _, -, -, -, huntried, -⟩
  · refine ⟨row, hrow s, Bool.eq_false_of_not_eq_true fun he => ?_⟩
    exact candidate_untried (hrow s) he h
  · exact absurd h huntried

/-- Of a pool whose other rows were tried, the look ahead is a look at the one that is left. -/
theorem anyFit_only {steps : List Step} (hstep : step ∈ steps)
    (hothers : ∀ x ∈ steps, x ≠ step → rowName x.id ∈ asked.excluded) {s : State}
    (he : (candidate E now levels asked step s).2.eligible = true) :
    anyFit E now levels asked steps s = ((candidate E now levels asked step s).1, true) := by
  induction steps with
  | nil => cases hstep
  | cons x rest ih =>
    unfold anyFit
    dsimp only
    by_cases hx : x = step
    · subst hx
      rw [if_pos he]
    · obtain ⟨row, hrow, hshut⟩ := candidate_of_tried
        (hothers x List.mem_cons_self hx) s
      rw [hrow, if_neg (by rw [hshut]; decide)]
      exact ih ((List.mem_cons.mp hstep).resolve_left (Ne.symm hx))
        fun y hy => hothers y (List.mem_cons_of_mem _ hy)

/-- And no row is fit when that one is not. -/
theorem verdicts_only {steps : List Step} (hnodup : (steps.map Step.id).Nodup)
    (hothers : ∀ x ∈ steps, x ≠ step → rowName x.id ∈ asked.excluded) {s : State}
    (he : step ∈ steps → (candidate E now levels asked step s).2.eligible = false) :
    ∀ row ∈ (verdicts E now levels asked steps s).2, row.eligible = false := by
  induction steps generalizing s with
  | nil => exact fun _ h => (nomatch h)
  | cons x rest ih =>
    rw [List.map_cons, List.nodup_cons] at hnodup
    intro row hrow
    unfold verdicts at hrow
    have hrest := fun y hy => hothers y (List.mem_cons_of_mem x hy)
    by_cases hx : x = step
    · subst hx
      rcases List.mem_cons.mp hrow with rfl | hrow
      · exact he List.mem_cons_self
      · -- the row stands once in its pool
        exact ih hnodup.2 hrest (fun hmem => absurd (List.mem_map_of_mem hmem) hnodup.1) row hrow
    · obtain ⟨row', hrow', hshut⟩ := candidate_of_tried
        (hothers x List.mem_cons_self hx) s
      dsimp only at hrow
      rw [hrow'] at hrow
      rcases List.mem_cons.mp hrow with rfl | hrow
      · exact hshut
      · exact ih hnodup.2 hrest (fun hmem => he (List.mem_cons_of_mem _ hmem)) row hrow

/-- **A page that does not stand** makes its row fit once: in the next look the account has been
asked, and its reading is not one to go by. -/
theorem candidate_slips (hnamed : E.Named) (hslips : Slips E now levels asked.chat step)
    (huntried : rowName step.id ∉ asked.excluded)
    (hplain : ∀ x ∈ asked.excluded, codePoint ':' ∈ x) :
    (candidate E now levels asked step State.fresh).2.eligible = true ∧
      (candidate E now levels asked step
        (candidate E now levels asked step State.fresh).1).2.eligible = false := by
  obtain ⟨accountId, model, provider, hk, haccount, hcredential, hsubscription, hlisted, page,
    hfetch, hsaid, hfit, hstands⟩ := hslips.account
  have hcandidate (s : State) : candidate E now levels asked step s = accountCandidate E now step
      model provider asked.excluded (levels.of accountId model) s := by
    unfold candidate
    rw [hk]
    dsimp only
    rw [if_neg (by rw [hslips.enabled]; decide), hslips.opened]
    dsimp only
    rw [if_neg (by exact huntried), Option.filter_eq_some_iff.mpr ⟨haccount, hcredential⟩]
    dsimp only
    rw [if_neg]
    simp [takesResponses, hsubscription, hslips.chat]
  have hbarred : barred E now step model provider asked.excluded none = none := by
    unfold barred
    dsimp only [Option.filter_none]
    rw [if_neg fun h => hnamed.plain _ _ haccount (hplain _ h), if_neg hlisted,
      if_neg (by rw [hsubscription]; decide)]
  have hstrip := hnamed.strip _ _ haccount
  have hseen := seen_forgive (E := E) State.fresh provider.owner
  have hblocked : (State.fresh.forgive provider.owner (E.resetAt provider.owner)).blocked
      provider.owner = none := by
    rw [Option.eq_none_iff_forall_ne_some]
    exact fun b hb => (nomatch forgive_blocked hb)
  have hheard : ¬ Heard E now (State.fresh.forgive provider.owner (E.resetAt provider.owner))
      provider.owner := by
    obtain ⟨husage, hobserved, -⟩ := forgive_spec State.fresh provider.owner
      (E.resetAt provider.owner)
    have htried := forgive_fresh_tried provider.owner (E.resetAt provider.owner)
    unfold Heard State.readAt State.asks
    rw [husage, hobserved, htried]
    exact fun h => by simp [State.fresh] at h
  rw [hcandidate, hcandidate]
  simp only [accountCandidate_eq]
  generalize State.fresh.forgive provider.owner (E.resetAt provider.owner) = s₁ at *
  obtain ⟨hpage, -, hagain⟩ := reading_page hstrip (hnamed.ne_nil _ _ haccount) hheard hfetch hsaid
  have hseen₁ : Seen E (reading E now provider s₁).1 provider.owner :=
    (later_reading hstrip s₁).seen _ hseen
  rw [if_neg (show ¬ (_ ∧ _) from hstands)] at hagain
  rw [hblocked, hbarred]
  dsimp only
  rw [forgive_of_seen hseen₁, reading_blocked, hblocked, hbarred]
  unfold readRow
  dsimp only
  rw [hpage, hagain]
  exact ⟨(judge_congr _ page.windows rfl rfl).trans hfit, rfl⟩

end Slip

/-- A row's name has a colon. -/
theorem colon_mem_rowName (stepId : Text) : codePoint ':' ∈ rowName stepId :=
  List.mem_append_left _ (by decide)

/-- **The look ahead agrees with the choice**, whatever the proxy keeps and the request has tried,
exactly when no row of the pool is fit by a page that does not stand: one with a window that is
past its reset at the proxy's clock, or asked before the last confirmed reset. The handler asks
for requests that the pool has given a row, which do not go on from an answer. -/
theorem look_ahead_iff (hnamed : E.Named) (now : ℚ) (id : Text) (pool : CloudPool)
    (levels : ModelLevels) (body : Option Value) (path : Text)
    (hasked : continues pool body = false) :
    (∀ excluded s, Agrees E now id pool levels body excluded path s) ↔
      ∀ step ∈ pool.steps, ¬ Slips E now levels (isChatRequest path) step := by
  refine ⟨fun hagrees step hstep hslips => ?_, fun hstands excluded s =>
    agrees_of_stands hnamed hasked hstands⟩
  -- the other rows were tried, and nothing was heard yet
  let excluded := (pool.steps.filter fun x => x.id ≠ step.id).map fun x => rowName x.id
  have hothers : ∀ x ∈ pool.steps, x ≠ step → rowName x.id ∈ excluded := fun x hx hne =>
    List.mem_map_of_mem (List.mem_filter.mpr ⟨hx, decide_eq_true fun hid =>
      hne (eq_of_id hx hstep hid)⟩)
  have huntried : rowName step.id ∉ excluded := by
    intro hmem
    obtain ⟨x, hx, hname⟩ := List.mem_map.mp hmem
    exact of_decide_eq_true (List.mem_filter.mp hx).2 (List.append_cancel_left hname)
  have hplain : ∀ x ∈ excluded, codePoint ':' ∈ x := by
    intro x hx
    obtain ⟨y, -, rfl⟩ := List.mem_map.mp hx
    exact colon_mem_rowName y.id
  obtain ⟨hfit, hshut⟩ := @candidate_slips _ E now levels (Asked.of body excluded path) step hnamed
    hslips huntried hplain
  have hahead : canGoOn E now ⟨id, some pool, levels⟩ excluded body path State.fresh = (_, true) :=
    anyFit_only hstep hothers hfit
  have hagree := (hagrees excluded State.fresh).ahead
  rw [hahead] at hagree
  obtain ⟨stepId, hserved⟩ := hagree.mp rfl
  obtain ⟨row, hrow, -⟩ := ((resolve_chosen hasked).2 stepId).mp hserved
  obtain ⟨hmem, he⟩ := firstFit_mem hrow
  rw [verdicts_only pool.distinct hothers (fun _ => hshut) row hmem] at he
  cases he

theorem desk_named : desk.Named := by
  have hdesk : ∀ id provider, desk.account id = some provider →
      provider = subscriber "a" ∨ provider = subscriber "b" := by
    intro id provider h
    change (if id ∈ [Text.of "a", Text.of "b"] then some (subscriber id) else none) =
      some provider at h
    split at h
    · next hid =>
      cases h
      rcases List.mem_cons.mp hid with rfl | hid
      · exact .inl rfl
      · exact .inr (congrArg subscriber (List.mem_singleton.mp hid))
    · cases h
  refine ⟨fun id provider h => ?_, fun id provider h => ?_, fun id provider h => ?_⟩ <;>
    rcases hdesk id provider h with rfl | rfl <;> decide +kernel

/-- At a desk without limits nothing slips. -/
theorem look_ahead_iff_desk :
    (∀ excluded s, Agrees desk 1000 "p" twoAccounts [] none excluded "/v1/chat/completions" s) ↔
      ∀ step ∈ twoAccounts.steps, ¬ Slips desk 1000 [] true step :=
  look_ahead_iff desk_named 1000 "p" twoAccounts [] none "/v1/chat/completions" rfl

/-- The desk, with a page whose window has reset five seconds ago. -/
def deskPast : Env Unit := { desk with fetch := fun _ => some ⟨[past], false⟩ }

/-- With the first row tried, the look ahead finds the second one fit, and the choice after it
finds no row. -/
theorem look_ahead_slips :
    let before := canGoOn deskPast 1000 ⟨"p", some twoAccounts, []⟩ [rowName "r1"] none
      "/v1/chat/completions" State.fresh
    before.2 = true ∧
      (¬ ∃ stepId leg, (resolve deskPast 1000 ⟨"p", some twoAccounts, []⟩ none [rowName "r1"]
        "/v1/chat/completions" before.1).2 = .served twoAccounts.id stepId leg) ∧
      ¬ Agrees deskPast 1000 "p" twoAccounts [] none [rowName "r1"] "/v1/chat/completions"
        State.fresh := by
  intro before
  have hbefore : before.2 = true := by decide +kernel
  have hshut : ∀ row ∈ (verdicts deskPast 1000 [] (Asked.of none [rowName "r1"]
      "/v1/chat/completions") twoAccounts.steps before.1).2, row.eligible = false := by
    decide +kernel
  have hserved : ¬ ∃ stepId leg, (resolve deskPast 1000 ⟨"p", some twoAccounts, []⟩ none
      [rowName "r1"] "/v1/chat/completions" before.1).2 = .served twoAccounts.id stepId leg := by
    rintro ⟨stepId, hserved⟩
    obtain ⟨row, hrow, -⟩ := ((resolve_chosen rfl).2 stepId).mp hserved
    obtain ⟨hmem, he⟩ := firstFit_mem hrow
    rw [hshut row hmem] at he
    cases he
  exact ⟨hbefore, hserved, fun hagrees => hserved (hagrees.ahead.mp hbefore)⟩

end Proxy.Pool
