import Caravan.Proxy.Consumer
import Caravan.Proxy.Fit
import Caravan.Proxy.Books

/-!
# Nothing of the provider reaches a consumer

Two runs of a consumer's request that meet the same replies, but for the bodies and headers
of answers with a hidden status, send the consumer the same (`consumer_noninterference`).
The pool's states on the way agree but for the rests of accounts that the request no longer
asks (`Agree`): a row of such an account is passed over before its rest is looked at.
-/

namespace Proxy.Consumer

open Python Proxy.Pool

variable {target : Type} {R : Reader} {E : Env target} {now : ℚ} {q : Request}

/-! ### Other rests -/

/-- The state with other rests. -/
def withRests (s : State) (rests : Text → Option Rest) : State := { s with blocked := rests }

@[simp] theorem withRests_observed (s : State) (rests : Text → Option Rest) :
    (withRests s rests).observed = s.observed := rfl

@[simp] theorem withRests_resetsSeen (s : State) (rests : Text → Option Rest) :
    (withRests s rests).resetsSeen = s.resetsSeen := rfl

@[simp] theorem withRests_blocked (s : State) (rests : Text → Option Rest) :
    (withRests s rests).blocked = rests := rfl

variable (now) in
theorem keep_with (s : State) (rests : Text → Option Rest) (owner : Text) (windows : List Window) :
    (withRests s rests).keep owner windows now = withRests (s.keep owner windows now) rests := by
  unfold State.keep
  split <;> rfl

theorem fetched_with (s : State) (rests : Text → Option Rest) (provider : Provider) :
    (withRests s rests).fetched E now provider =
      (withRests (s.fetched E now provider).1 rests, (s.fetched E now provider).2) := by
  unfold State.fetched
  simp only
  cases E.fetch provider with
  | none => rfl
  | some page =>
    have hkeep := keep_with now
      { s with tried := Function.update s.tried provider.owner (some now) } rests
      provider.owner page.windows
    by_cases hw : page.windows = []
    · cases hu : page.unlimited <;> simp only [hw, hu] <;> rfl
    · simp only [hw, ne_eq, not_false_eq_true, if_true]
      exact Prod.ext hkeep rfl

/-- A reading does not look at rests. -/
theorem reading_with (s : State) (rests : Text → Option Rest) (provider : Provider) :
    reading E now provider (withRests s rests) =
      (withRests (reading E now provider s).1 rests, (reading E now provider s).2) := by
  have hheld : (withRests s rests).held provider.owner = s.held provider.owner := rfl
  have hat : (withRests s rests).readAt provider.owner = s.readAt provider.owner := rfl
  have hasks : (withRests s rests).asks now provider.owner = s.asks now provider.owner := rfl
  unfold reading
  simp only [hheld, hat, hasks, withRests_observed, fetched_with]
  split
  · rfl
  split
  · rfl
  split
  · cases hf : s.fetched E now provider with
    | mk s₁ fresh => cases fresh <;> rfl
  · rfl

/-! ### States that agree -/

/-- The states are the same but for the rests of the accounts in `att`. -/
def Agree (att : List Text) (s s' : State) : Prop :=
  ∃ rests, s' = withRests s rests ∧ ∀ x, x ∉ att → s.blocked x = rests x

theorem Agree.refl (att : List Text) (s : State) : Agree att s s := ⟨s.blocked, rfl, fun _ _ => rfl⟩

theorem Agree.mono {att att' : List Text} {s s' : State} (h : Agree att s s')
    (hsub : ∀ x ∈ att, x ∈ att') : Agree att' s s' := by
  obtain ⟨rests, rfl, hr⟩ := h
  exact ⟨rests, rfl, fun x hx => hr x fun hmem => hx (hsub x hmem)⟩

/-- The rests after a confirmed reset. -/
def forgiven (owner : Text) (resetAt : ℚ) (rests : Text → Option Rest) : Text → Option Rest :=
  if (rests owner).any fun b => b.reason = .quota && b.since ≤ resetAt then
    Function.update rests owner none
  else rests

theorem forgiven_of_eq {owner x : Text} {resetAt : ℚ} {rests rests' : Text → Option Rest}
    (h : rests x = rests' x) : x ≠ owner ∨ rests owner = rests' owner →
      forgiven owner resetAt rests x = forgiven owner resetAt rests' x := by
  have hother {f : Text → Option Rest} (hne : x ≠ owner) : forgiven owner resetAt f x = f x := by
    unfold forgiven
    split
    · exact Function.update_of_ne hne _ _
    · rfl
  rintro (hne | ho)
  · rw [hother hne, hother hne]
    exact h
  · by_cases hx : x = owner
    · subst hx
      unfold forgiven
      rw [ho]
      split
      · rw [Function.update_self, Function.update_self]
      · exact h
    · rw [hother hx, hother hx]
      exact h

theorem forgive_blocked_eq (s : State) (owner : Text) (resetAt : ℚ) :
    (s.forgive owner resetAt).blocked =
      if s.resetsSeen owner < resetAt then forgiven owner resetAt s.blocked else s.blocked := by
  unfold State.forgive forgiven
  simp only
  split
  · split <;> split <;> simp_all
  · rfl

theorem forgive_with (s : State) (rests : Text → Option Rest) (owner : Text) (resetAt : ℚ) :
    (withRests s rests).forgive owner resetAt = withRests (s.forgive owner resetAt)
      (if s.resetsSeen owner < resetAt then forgiven owner resetAt rests else rests) := by
  unfold State.forgive forgiven
  simp only [withRests_resetsSeen, withRests_blocked]
  by_cases hseen : s.resetsSeen owner < resetAt
  · simp only [hseen, if_true]
    have htried : (withRests s rests).tried = s.tried := rfl
    simp only [htried]
    split <;> split <;> split <;> rfl
  · simp only [hseen, if_false]

/-- A confirmed reset keeps states that agree in agreement. -/
theorem Agree.forgive {att : List Text} {s s' : State} (h : Agree att s s') (owner : Text)
    (resetAt : ℚ) : Agree att (s.forgive owner resetAt) (s'.forgive owner resetAt) := by
  obtain ⟨rests, rfl, hr⟩ := h
  refine ⟨_, forgive_with s rests owner resetAt, fun x hx => ?_⟩
  rw [forgive_blocked_eq]
  split
  · refine forgiven_of_eq (hr x hx) ?_
    by_cases ho : owner ∈ att
    · exact .inl fun heq => hx (heq ▸ ho)
    · exact .inr (hr owner ho)
  · exact hr x hx

theorem Agree.reading {att : List Text} {s s' : State} (h : Agree att s s')
    (provider : Provider) : (reading E now provider s').2 = (reading E now provider s).2 ∧
      Agree att (reading E now provider s).1 (reading E now provider s').1 := by
  obtain ⟨rests, rfl, hr⟩ := h
  rw [reading_with]
  refine ⟨rfl, rests, rfl, fun x hx => ?_⟩
  rw [reading_blocked]
  exact hr x hx

/-! ### The verdicts agree -/

/-- A verdict and its state, in agreement with another. -/
def Same {α : Type} (att : List Text) (r r' : State × α) : Prop := r'.2 = r.2 ∧ Agree att r.1 r'.1

theorem Agree.same {α : Type} {att : List Text} {s s' : State} (h : Agree att s s') (a : α) :
    Same att (s, a) (s', a) := ⟨rfl, h⟩

/-- A row whose account is excluded is passed over before its rest is looked at. -/
theorem Agree.accountCandidate {att : List Text} {s s' : State} (h : Agree att s s')
    (step : Step) (model : Text) (provider : Provider) (levels : UsageReserve × UsageReserve) :
    Same att (accountCandidate E now step model provider att levels s)
      (accountCandidate E now step model provider att levels s') := by
  have hf := h.forgive provider.owner (E.resetAt provider.owner)
  unfold Pool.accountCandidate
  simp only
  by_cases ho : provider.owner ∈ att
  · simp only [ho, if_true]
    exact hf.same _
  simp only [ho, if_false]
  have hrest : (s'.forgive provider.owner (E.resetAt provider.owner)).blocked provider.owner =
      (s.forgive provider.owner (E.resetAt provider.owner)).blocked provider.owner := by
    obtain ⟨rests, heq, hr⟩ := hf
    rw [heq]
    exact (hr _ ho).symm
  rw [hrest]
  split
  · exact hf.same _
  split
  · exact hf.same _
  split
  · exact hf.same _
  · obtain ⟨h₁, h₂⟩ := hf.reading (E := E) provider
    exact ⟨by simp only [h₁], h₂⟩

variable (now) in
theorem Agree.candidate {att : List Text} {s s' : State} (h : Agree att s s')
    (levels : ModelLevels) {asked : Asked} (ha : asked.excluded = att) (step : Step) :
    Same att (candidate E now levels asked step s) (candidate E now levels asked step s') := by
  unfold Pool.candidate
  split
  · exact h.same _
  split
  · exact h.same _
  split
  · exact h.same _
  split
  · exact h.same _
  split
  · split
    · exact h.same _
    · split
      · exact h.same _
      · rw [ha]
        exact h.accountCandidate step _ _ _
  · exact h.same _
  · exact h.same _

variable (now) in
theorem Agree.verdicts {att : List Text} {s s' : State} (h : Agree att s s')
    (levels : ModelLevels) {asked : Asked} (ha : asked.excluded = att) (steps : List Step) :
    Same att (verdicts E now levels asked steps s) (verdicts E now levels asked steps s') := by
  induction steps generalizing s s' with
  | nil => exact h.same _
  | cons step rest ih =>
    obtain ⟨h₁, h₂⟩ := h.candidate (E := E) now levels ha step
    obtain ⟨h₃, h₄⟩ := ih h₂
    unfold Pool.verdicts
    exact ⟨by simp only [h₁, h₃], h₄⟩

theorem Agree.anyFit {att : List Text} {s s' : State} (h : Agree att s s')
    (levels : ModelLevels) {asked : Asked} (ha : asked.excluded = att) (steps : List Step) :
    Same att (anyFit E now levels asked steps s) (anyFit E now levels asked steps s') := by
  induction steps generalizing s s' with
  | nil => exact h.same _
  | cons step rest ih =>
    obtain ⟨h₁, h₂⟩ := h.candidate (E := E) now levels ha step
    unfold Pool.anyFit
    simp only [h₁]
    split
    · exact h₂.same _
    · exact ih h₂

theorem Agree.choose {att : List Text} {s s' : State} (h : Agree att s s') (pool : CloudPool)
    (rows : List (Pool.Row target)) (chosen : Option Text) :
    Agree att (s.choose now pool rows chosen) (s'.choose now pool rows chosen) := by
  obtain ⟨rests, rfl, hr⟩ := h
  refine ⟨rests, ?_, fun x hx => by rw [choose_blocked]; exact hr x hx⟩
  have hsel : (withRests s rests).selected = s.selected := rfl
  unfold State.choose
  simp only [hsel]
  split <;> rfl

variable (now) in
theorem Agree.resolve {att : List Text} {s s' : State} (h : Agree att s s') (source : Source)
    (body : Option Value) (path : Text) :
    Same att (resolve E now source body att path s) (resolve E now source body att path s') := by
  unfold Pool.resolve
  split
  · exact h.same _
  next pool _ =>
  split
  · exact h.same _
  obtain ⟨h₁, h₂⟩ := h.verdicts (E := E) now source.levels
    (show (Asked.of body att path).excluded = att from rfl) pool.steps
  simp only [h₁]
  split
  · exact (h₂.choose _ _ _).same _
  · split
    · exact (h₂.choose _ _ _).same _
    · exact (h₂.choose _ _ _).same _

variable (now) in
theorem Agree.canGoOn {att : List Text} {s s' : State} (h : Agree att s s') (source : Source)
    (body : Option Value) (path : Text) :
    Same att (canGoOn E now source att body path s) (canGoOn E now source att body path s') := by
  unfold Pool.canGoOn
  split
  · exact h.same _
  · exact h.anyFit source.levels (show (Asked.of body att path).excluded = att from rfl) _

/-! ### Replies that are alike -/

/-- Nothing that an error is read with raises. -/
def Readable (R : Reader) (a : Answer) : Prop :=
  (∃ r, failureSummary R a.status (errorBody R a) = .ok r) ∧
    ∃ c, errorCode R (errorBody R a) = .ok c

/-- Two turns that differ in the body and the headers of an answer with a hidden status. What
steers the legs is the same in both: the limit windows that the headers state, and that
neither is a cell's word that it is loading. -/
inductive Alike (R : Reader) : Event → Event → Prop where
  | same (e : Event) : Alike R e e
  | hidden (e : Event) (a a' : Answer) (hstatus : a'.status = a.status)
      (hhidden : Hidden a.status)
      (hwindows : windowsFromHeaders R a'.headers = windowsFromHeaders R a.headers)
      (hl : isLoading a = false) (hl' : isLoading a' = false)
      (hr : Readable R a) (hr' : Readable R a') :
      Alike R { e with reply := .answer a } { e with reply := .answer a' }

/-- **A hidden answer is told as its status.** -/
theorem tell_hidden {a : Answer} (hh : Hidden a.status) (hr : Readable R a) (leg : Leg target)
    (opened : Bool) : tell R q leg opened a =
      q.tellError opened (.upstream a.status q.pool.name [] .null) := by
  obtain ⟨⟨⟨reason, kind⟩, hreason⟩, code, hcode⟩ := hr
  have hge : ¬ a.status < 400 := by
    rcases hh with h | h | h | h <;> omega
  unfold tell
  rw [if_neg hge, hreason]
  cases leg with
  | cell out =>
    simp only [hcode]
    rw [OpenAIError.upstream_hidden hh]
  | account provider model =>
    simp only
    rw [OpenAIError.upstream_hidden hh]

theorem tell_alike {a a' : Answer} (hs : a'.status = a.status) (hh : Hidden a.status)
    (hr : Readable R a) (hr' : Readable R a') (leg : Leg target) (opened : Bool) :
    tell R q leg opened a' = tell R q leg opened a := by
  rw [tell_hidden hh hr, tell_hidden (hs ▸ hh) hr', hs]

/-! ### The loop -/

/-- What the loop carries in two runs. -/
structure GoingAgree (g g' : Going) : Prop where
  attempted : g'.attempted = g.attempted
  legs : g'.legs = g.legs
  opened : g'.opened = g.opened
  pool : Agree g.attempted g.pool g'.pool

theorem GoingAgree.eq {g g' : Going} (h : GoingAgree g g') :
    ∃ pool, g' = { g with pool := pool } ∧ Agree g.attempted g.pool pool := by
  obtain ⟨pool, attempted, legs, opened⟩ := g'
  obtain ⟨rfl, rfl, rfl, hpool⟩ := h
  exact ⟨pool, rfl, hpool⟩

theorem Agree.going {attempted : List Text} {s s' : State} (h : Agree attempted s s')
    (legs : ℕ) (opened : Bool) :
    GoingAgree ⟨s, attempted, legs, opened⟩ ⟨s', attempted, legs, opened⟩ :=
  ⟨rfl, rfl, rfl, h⟩

/-- Two turns with the same end, or that go on in agreement. -/
inductive TurnAgree : Turn target → Turn target → Prop where
  | done (sent : Sent target) : TurnAgree (.done sent) (.done sent)
  | again {g g' : Going} (h : GoingAgree g g') : TurnAgree (.again g) (.again g')
  | next {g g' : Going} (h : GoingAgree g g') : TurnAgree (.next g) (.next g')
  | stuck : TurnAgree .stuck .stuck

theorem leave_agree {g g' : Going} (h : GoingAgree g g') (stepId : Text)
    {last last' : Going → Sent target} (hlast : ∀ x y : Going, y.opened = x.opened →
      last' y = last x) :
    TurnAgree (leave E q now stepId g last) (leave E q now stepId g' last') := by
  obtain ⟨pool, rfl, hpool⟩ := h.eq
  obtain ⟨h₁, h₂⟩ := (hpool.mono fun x hx => List.mem_cons_of_mem (rowMark stepId) hx).canGoOn
    (E := E) now q.source q.body q.path
  unfold leave
  simp only [h₁]
  split
  · split
    · exact .next (h₂.going _ _)
    · have heq (s s' : State) : last' { g with pool := s' } = last { g with pool := s } :=
        hlast _ _ rfl
      rw [heq (canGoOn E now q.source (rowMark stepId :: g.attempted) q.body q.path g.pool).1]
      exact .done _
  · rw [hlast g { g with pool := pool } rfl]
    exact .done _

variable (now) in
/-- The rest of a refused account is on one that the request has left. -/
theorem failed_agree {att : List Text} {s s' : State} (h : Agree att s s') (I : Interp)
    (provider : Provider) (status : ℕ) (retryAfter retryAfter' : Option Text) :
    (failed I now provider status retryAfter' s').2 = (failed I now provider status retryAfter s).2 ∧
      Agree (provider.owner :: att) (failed I now provider status retryAfter s).1
        (failed I now provider status retryAfter' s').1 ∧
      ((failed I now provider status retryAfter s).2 = false →
        Agree att (failed I now provider status retryAfter s).1
          (failed I now provider status retryAfter' s').1) := by
  obtain ⟨rests, rfl, hr⟩ := h
  unfold failed
  cases refusalReason status with
  | none => exact ⟨rfl, Agree.mono ⟨rests, rfl, hr⟩ fun x hx => List.mem_cons_of_mem _ hx,
      fun _ => ⟨rests, rfl, hr⟩⟩
  | some reason =>
    refine ⟨rfl, ⟨_, rfl, fun x hx => ?_⟩, fun h => Bool.noConfusion h⟩
    rw [List.mem_cons, not_or] at hx
    exact (Function.update_of_ne hx.1 _ _).trans
      ((hr x hx.2).trans (Function.update_of_ne hx.1 _ _).symm)

theorem keep_agree {att : List Text} {s s' : State} (h : Agree att s s') (owner : Text)
    (windows : List Window) : Agree att (s.keep owner windows now) (s'.keep owner windows now) := by
  obtain ⟨rests, rfl, hr⟩ := h
  refine ⟨rests, keep_with _ s rests owner windows, fun x hx => ?_⟩
  rw [keep_blocked]
  exact hr x hx

/-- Two answers that are heard alike. -/
theorem hear_agree {e : Event} {a a' : Answer} {g g' : Going} (h : GoingAgree g g')
    (stepId : Text) (leg : Leg target) (hs : a'.status = a.status)
    (hw : windowsFromHeaders R a'.headers = windowsFromHeaders R a.headers)
    (hl : isLoading a' = isLoading a)
    (ht : ∀ opened, tell R q leg opened a' = tell R q leg opened a) :
    TurnAgree (hear R E q e stepId leg g a) (hear R E q e stepId leg g' a') := by
  have htold : ∀ x y : Going, y.opened = x.opened →
      tell R q leg y.opened a' = tell R q leg x.opened a := fun x y hxy => by rw [hxy, ht]
  unfold hear
  cases leg with
  | cell out =>
    simp only [hl, hs]
    split
    · exact .again h
    split
    · exact leave_agree h stepId htold
    · rw [h.opened, ht]
      exact .done _
  | account provider model =>
    simp only [hw, hs, h.opened]
    -- the account's windows are noted alike
    have hnoted : (∃ x, (if provider.isSubscription = true then
          (windowsFromHeaders R a.headers).map fun windows =>
            g.pool.keep provider.owner windows e.ended else .ok g.pool) = .error x ∧
        (if provider.isSubscription = true then
          (windowsFromHeaders R a.headers).map fun windows =>
            g'.pool.keep provider.owner windows e.ended else .ok g'.pool) = .error x) ∨
        ∃ s s', Agree g.attempted s s' ∧ (if provider.isSubscription = true then
          (windowsFromHeaders R a.headers).map fun windows =>
            g.pool.keep provider.owner windows e.ended else .ok g.pool) = .ok s ∧
        (if provider.isSubscription = true then
          (windowsFromHeaders R a.headers).map fun windows =>
            g'.pool.keep provider.owner windows e.ended else .ok g'.pool) = .ok s' := by
      cases provider.isSubscription with
      | false => exact .inr ⟨_, _, h.pool, rfl, rfl⟩
      | true =>
        cases windowsFromHeaders R a.headers with
        | error x => exact .inl ⟨x, rfl, rfl⟩
        | ok windows => exact .inr ⟨_, _, keep_agree h.pool _ _, rfl, rfl⟩
    rcases hnoted with ⟨x, h₁, h₂⟩ | ⟨s, s', hagree, h₁, h₂⟩
    · rw [h₁, h₂]
      exact .done _
    · rw [h₁, h₂]
      obtain ⟨hf₁, hf₂, hf₃⟩ := failed_agree e.ended hagree R.interp provider
        a.status.toNat (header a.headers "retry-after") (header a'.headers "retry-after")
      simp only [hf₁, h.attempted, h.legs]
      split
      · exact .next (hf₂.going _ _)
      next hrefused =>
      have hgo : Agree g.attempted _ _ := hf₃ (Bool.eq_false_iff.mpr hrefused)
      split
      · exact leave_agree (hgo.going _ _) stepId htold
      · rw [ht]
        exact .done _

theorem turn_agree {e e' : Event} (he : Alike R e e') {g g' : Going} (h : GoingAgree g g')
    (stepId : Text) (leg : Leg target) :
    TurnAgree (turn R E q e stepId leg g) (turn R E q e' stepId leg g') := by
  cases he with
  | hidden e a a' hstatus hhidden hwindows hl hl' hr hr' =>
    exact hear_agree (e := { e with reply := .answer a }) h stepId leg hstatus hwindows
      (hl'.trans hl.symm) fun opened => tell_alike hstatus hhidden hr hr' leg opened
  | same =>
    unfold turn
    cases e.reply with
    | answer a => exact hear_agree h stepId leg rfl rfl rfl fun _ => rfl
    | broken kind => exact leave_agree h stepId fun x y hxy => by rw [hxy]
    | gaveUp kind =>
      cases leg with
      | account provider model => exact .stuck
      | cell out =>
        obtain ⟨pool, rfl, hpool⟩ := h.eq
        obtain ⟨h₁, h₂⟩ := (hpool.mono fun x hx => List.mem_cons_of_mem (rowMark stepId) hx).canGoOn
          (E := E) e.ended q.source q.body q.path
        simp only [h₁]
        split
        · exact .next (h₂.going _ _)
        · exact .done _

/-- The choice of a leg and its first turn. -/
theorem serve_none (e : Event) (rest : List Event) (g : Going) :
    serve R E q (e :: rest) none g = match start E q e g with
      | .inl sent => some sent
      | .inr (stepId, leg, g) => serve R E q (e :: rest) (some (stepId, leg)) g := by
  rw [serve]
  cases start E q e g with
  | inl sent => rfl
  | inr p =>
    simp only
    rw [serve]

theorem Alike.began {e e' : Event} (h : Alike R e e') : e'.began = e.began := by
  cases h <;> rfl

/-- A run goes on alike from states that agree. -/
theorem serve_agree {es es' : List Event} (h : List.Forall₂ (Alike R) es es')
    (leg? : Option (Text × Leg target)) {g g' : Going} (hg : GoingAgree g g') :
    serve R E q es' leg? g' = serve R E q es leg? g := by
  induction h generalizing leg? g g' with
  | nil => cases leg? <;> rfl
  | @cons e e' rest rest' he _ ih =>
    have after {stepId : Text} {leg : Leg target} {g g' : Going} (hg : GoingAgree g g') :
        serve R E q (e' :: rest') (some (stepId, leg)) g' =
          serve R E q (e :: rest) (some (stepId, leg)) g := by
      have ht := turn_agree (E := E) (q := q) he hg stepId leg
      rw [serve, serve]
      generalize turn R E q e stepId leg g = t at ht
      generalize turn R E q e' stepId leg g' = t' at ht
      cases ht with
      | done sent => rfl
      | again hg => exact ih _ hg
      | next hg => exact ih _ hg
      | stuck => rfl
    cases leg? with
    | some leg => exact after hg
    | none =>
      obtain ⟨pool, rfl, hpool⟩ := hg.eq
      obtain ⟨h₁, h₂⟩ := hpool.resolve (E := E) e.began q.source q.body q.path
      rw [serve_none, serve_none]
      unfold start
      rw [he.began]
      simp only
      generalize resolve E e.began q.source q.body g.attempted q.path g.pool = r at h₁ h₂
      generalize resolve E e.began q.source q.body g.attempted q.path pool = r' at h₁ h₂
      obtain ⟨s, out⟩ := r
      obtain ⟨s', out'⟩ := r'
      obtain rfl : out' = out := h₁
      cases out' with
      | refused refusal => rfl
      | served poolId stepId leg => exact after (h₂.going _ _)
      | passes => rfl
      | raised => rfl

/-- **Consumer noninterference.** Two runs whose turns are alike send the consumer the same. -/
theorem consumer_noninterference (R : Reader) (E : Env target) (q : Request) (s : State)
    (es es' : List Event) (h : List.Forall₂ (Alike R) es es') :
    received R E q es' s = received R E q es s :=
  serve_agree h none ⟨rfl, rfl, rfl, Agree.refl _ s⟩

/-! ### Runs of two pools -/

/-- A reader of ASCII whose bodies here are no JSON, and whose shares are whole numbers. -/
def asciiReader : Reader where
  interp := asciiInterp
  decode b := b.map fun c => ⟨c.toNat, byte_lt c⟩
  loads _ := .broken
  intOfFloat t := intOfText asciiInterp t

/-- The bytes of a text. -/
def utf8 (t : Text) : Bytes := (encodeUtf8 t).getD []

/-- A pool of one cell. -/
def oneCell : CloudPool where
  id := "p"
  name := "p"
  steps := [⟨"r1", .output "srv:8080", true⟩]
  distinct := by decide
  named := by decide

/-- Signed in, with a cell that is free. -/
def withCell : Env Unit := { signedIn [] with localOutput := fun _ => some (), free := fun _ => true }

/-- A chat request to a pool. -/
def asks (pool : CloudPool) : Request :=
  ⟨"1", pool, [], none, "/v1/chat/completions", false⟩

/-- A turn with an answer of this status. -/
def answers (began : ℚ) (status : ℤ) (headers : Headers) (body : Text) : Event :=
  ⟨began, began + 1, true, .answer ⟨status, headers, utf8 body⟩⟩

/-- A provider's failure in other words, with a header of its own. -/
theorem consumer_noninterference_cell :
    received asciiReader withCell (asks oneCell)
        [answers 1000 500 [("x-organisation", "org-1")] "org-1 has no memory left"] .fresh =
      received asciiReader withCell (asks oneCell) [answers 1000 500 [] "failed"] .fresh :=
  consumer_noninterference _ _ _ _ _ _ (.cons
    (.hidden (answers 1000 500 [] []) ⟨500, [], utf8 "failed"⟩
      ⟨500, [("x-organisation", "org-1")], utf8 "org-1 has no memory left"⟩ rfl (by decide) rfl
      (by decide) (by decide) ⟨⟨_, rfl⟩, _, rfl⟩ ⟨⟨_, rfl⟩, _, rfl⟩) .nil)

/-- The limit windows that an answer states. -/
def states (used : Text) : Headers :=
  [("x-codex-primary-window-minutes", "300"), ("x-codex-primary-used-percent", used),
    ("x-codex-primary-reset-at", "2000")]

/-- A cell that says it is loading is asked again, one that says nothing is not; and the limit
windows of a failure decide whether the account's other model is asked. -/
theorem words_steer :
    ((received asciiReader withCell (asks oneCell)
        [answers 1000 503 [] "Loading model", answers 1002 200 [] "hello"] .fresh).any
          Sent.isRelayed = true ∧
      (received asciiReader withCell (asks oneCell)
        [answers 1000 503 [] "", answers 1002 200 [] "hello"] .fresh).any
          Sent.isRelayed = false) ∧
    ((received asciiReader (signedIn []) (asks twoModels)
        [answers 1000 500 (states "10") "", answers 1002 200 [] "hello"] .fresh).any
          Sent.isRelayed = true ∧
      (received asciiReader (signedIn []) (asks twoModels)
        [answers 1000 500 (states "95") "", answers 1002 200 [] "hello"] .fresh).any
          Sent.isRelayed = false) := by
  decide +kernel

end Proxy.Consumer
