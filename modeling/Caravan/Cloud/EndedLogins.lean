import Caravan.Cloud.DeviceLogin

/-!
# A sign-in that was ended

A login that was ended stops where it waits, not where it asks: it takes a code that is entered
by then. The account is looked for before the code is traded, and not when the tokens are
stored. And between the end of the old logins and the registration of the new one another may
register. Each of the three breaks a part of what is promised (`ended_login_stores`).

The runs that are free of them (`State.Unbroken`) keep nothing of an ended login, hold nothing
for a deleted account, and have one login of each account that waits for its code
(`ended_keeps_nothing`). A login that has been registered and is no longer, and does not trade
its code, is `Detached`: it stays so, and never stores.
-/

namespace SignIn

open Python

variable {α κ δ : Type} [DecidableEq α] [DecidableEq κ] [DecidableEq δ]

/-! ### What is asked of a run -/

/-- One login at most, of each account. -/
def AtMostOne (r : α → κ → Prop) : Prop := ∀ a k k', r a k → r a k' → k = k'

omit [DecidableEq α] [DecidableEq κ] in
theorem AtMostOne.mono {r r' : α → κ → Prop} (h : AtMostOne r) (hr : ∀ a k, r' a k → r a k) :
    AtMostOne r' :=
  fun a k k' hk hk' => h a k k' (hr a k hk) (hr a k' hk')

omit [DecidableEq α] [DecidableEq κ] in
/-- One more, of an account that had none. -/
theorem AtMostOne.insert {r r' : α → κ → Prop} (h : AtMostOne r) {b : α} {id : κ}
    (hno : ∀ k, ¬ r b k) (hr : ∀ a k, r' a k → r a k ∨ a = b ∧ k = id) : AtMostOne r' := by
  intro a k k' hk hk'
  rcases hr a k hk with hold | ⟨rfl, rfl⟩
  · rcases hr a k' hk' with hold' | ⟨rfl, rfl⟩
    · exact h a k k' hold hold'
    · exact absurd hold (hno k)
  · rcases hr a k' hk' with hold' | ⟨-, rfl⟩
    · exact absurd hold' (hno k')
    · rfl

section Kept

variable {plan : Text → Bool}

namespace State

variable (s : State α κ δ)

/-- The login is registered for the account, and `p` holds of it. -/
def Listed (p : Login α κ → Bool) (a : α) (id : κ) : Prop :=
  id ∈ s.registered ∧ ∃ l, s.logins id = some l ∧ l.account.id = a ∧ p l = true

/-- The login is registered for the account, and waits for its code. -/
def Awaits : α → κ → Prop := s.Listed Login.awaits

/-- The login is registered for the account and pending: it waits for its code, or trades it. -/
def Pending : α → κ → Prop := s.Listed fun l => l.result.isPending

/-- A deletion has taken the account's entry out of the vault. -/
def Gone (a : α) : Prop :=
  ∃ d x, s.deletions d = some x ∧ x.account = a ∧ x.phase.forgets = true

/-- A board that asks is told that the login was replaced or removed. -/
def Reported (id : κ) : Prop := ∃ now r, s.status now id = some r ∧ r.isEnd = true

/-- The step takes none of the three ways: a login that starts to complete is still registered,
tokens are stored for an account that is not gone, and where a login is registered none waits
for a code of its account. -/
def Unbroken : Action α κ δ → Prop
  | .login id .complete => id ∈ s.registered
  | .login id (.store _ outcome) =>
    outcome.isStored = true → ∀ l, s.logins id = some l → ¬ s.Gone l.account.id
  | .login id .register => ∀ l, s.logins id = some l → ∀ k, ¬ s.Awaits l.account.id k
  | _ => True

/-- Nor is a login registered while another of its account trades its code. -/
def Undivided (e : Action α κ δ) : Prop :=
  s.Unbroken e ∧ ∀ id, e = .login id .register →
    ∀ l, s.logins id = some l → ∀ k, ¬ s.Pending l.account.id k

/-- In no run that goes on from here does the login store tokens. -/
def StoresNothing (plan : Text → Bool) (id : κ) : Prop :=
  ∀ t, System.Reach { controller plan with init := fun t => t = s } Unbroken t →
    ∀ now outcome, t.next plan (.login id (.store now outcome)) = none

end State

/-! ### One login -/

/-- What holds of a login at each of its steps. -/
structure Login.Sound (l : Login α κ) : Prop where
  completing : l.phase.trading = true → l.completing = true
  ending : ∀ r, l.phase = .ends r → r.isEnd = false ∧ r.isPending = false
  result : l.result.isEnd = false

/-- What a login may become by a step that does not start to trade. -/
structure Login.Follows (l l' : Login α κ) : Prop where
  account : l'.account = l.account
  launched : l.phase.launched = true → l'.phase.launched = true
  trading : l'.phase.trading = true → l.phase.trading = true
  awaits : l'.awaits = true → l.awaits = true
  pending : l'.result.isPending = true → l.result.isPending = true

omit [DecidableEq α] [DecidableEq κ] in
theorem Login.Follows.rfl {l : Login α κ} : l.Follows l :=
  ⟨Eq.refl _, id, id, id, id⟩

omit [DecidableEq α] [DecidableEq κ] in
/-- A step after which the session is as it was. -/
theorem Login.Sound.step {l l' : Login α κ} (h : l.Sound) (ha : l'.account = l.account)
    (hr : l'.result = l.result) (hc : l'.completing = l.completing)
    (hl : l.phase.launched = true → l'.phase.launched = true)
    (ht : l'.phase.trading = true → l.phase.trading = true)
    (he : ∀ r, l'.phase = .ends r → r.isEnd = false ∧ r.isPending = false) :
    l'.Sound ∧ l.Follows l' := by
  refine ⟨⟨fun h' => ?_, he, ?_⟩, ⟨ha, hl, ht, ?_, ?_⟩⟩
  · rw [hc]
    exact h.completing (ht h')
  · rw [hr]
    exact h.result
  · unfold Login.awaits
    rw [hr, hc]
    exact id
  · rw [hr]
    exact id

omit [DecidableEq α] [DecidableEq κ] in
/-- On the way, and not to trade. -/
theorem Login.Sound.on {l l' : Login α κ} (h : l.Sound) (p : Phase κ) (hp : l'.phase = p)
    (hl : p.launched = true) (ht : p.trading = false) (hr : ∀ r, p ≠ .ends r)
    (ha : l'.account = l.account) (hs : l'.result = l.result)
    (hc : l'.completing = l.completing) : l'.Sound ∧ l.Follows l' := by
  subst hp
  exact h.step ha hs hc (fun _ => hl) (fun h' => absurd h' (ht ▸ Bool.false_ne_true))
    fun r h' => absurd h' (hr r)

omit [DecidableEq α] [DecidableEq κ] in
/-- To an end of its own. -/
theorem Login.Sound.out {l l' : Login α κ} (h : l.Sound) (r : Result) (hp : l'.phase = .ends r)
    (he : r.isEnd = false) (hn : r.isPending = false) (ha : l'.account = l.account)
    (hs : l'.result = l.result) (hc : l'.completing = l.completing) :
    l'.Sound ∧ l.Follows l' := by
  refine h.step ha hs hc (fun _ => ?_) (fun h' => ?_) fun r' h' => ?_
  · rw [hp]
    rfl
  · rw [hp] at h'
    exact absurd h' Bool.false_ne_true
  · rw [hp] at h'
    exact Phase.ends.inj h' ▸ ⟨he, hn⟩

omit [DecidableEq α] [DecidableEq κ] in
/-- In the request that starts it, and there it stays. -/
theorem Login.Sound.before {l : Login α κ} {left : List κ} (h : l.Sound)
    (hl : l.phase.launched = false) :
    (Login.Sound { l with phase := .stops left }) ∧ l.Follows { l with phase := .stops left } :=
  h.step rfl rfl rfl (fun h' => absurd (hl.symm.trans h') Bool.false_ne_true)
    (fun h' => absurd h' Bool.false_ne_true) fun _ hr => nomatch hr

namespace Login

variable {l : Login α κ}

omit [DecidableEq α] [DecidableEq κ]

theorem Sound.begun (h : l.Sound) (hp : l.phase = .begins) (now : ℤ) (answer : Option CodeAnswer) :
    (l.begun now answer).Sound ∧ l.Follows (l.begun now answer) := by
  unfold Login.begun
  cases answer with
  | none => exact h.on .over rfl rfl rfl (fun _ hr => nomatch hr) rfl rfl rfl
  | some answer =>
    dsimp only
    split
    · exact h.on .over rfl rfl rfl (fun _ hr => nomatch hr) rfl rfl rfl
    · -- the one step of these after which the login is not launched
      refine h.step rfl rfl rfl (fun h' => ?_) (fun h' => absurd h' Bool.false_ne_true)
        fun _ hr => nomatch hr
      rw [hp] at h'
      exact absurd h' Bool.false_ne_true

theorem Sound.woken (h : l.Sound) (now : ℤ) :
    (l.woken now).Sound ∧ l.Follows (l.woken now) := by
  unfold Login.woken
  split
  · exact h.on .over rfl rfl rfl (fun _ hr => nomatch hr) rfl rfl rfl
  · split
    · exact h.on .over rfl rfl rfl (fun _ hr => nomatch hr) rfl rfl rfl
    · split
      · exact h.out _ rfl rfl rfl rfl rfl rfl
      · exact h.on .asks rfl rfl rfl (fun _ hr => nomatch hr) rfl rfl rfl

theorem Sound.polled (h : l.Sound) (answer : Poll) :
    (l.polled answer).Sound ∧ l.Follows (l.polled answer) := by
  unfold Login.polled
  cases answer with
  | refused code why =>
    dsimp only
    split
    · exact h.on .waits rfl rfl rfl (fun _ hr => nomatch hr) rfl rfl rfl
    · exact h.out _ rfl rfl rfl rfl rfl rfl
  | silent why =>
    dsimp only
    split
    · exact h.on .waits rfl rfl rfl (fun _ hr => nomatch hr) rfl rfl rfl
    · exact h.out _ rfl rfl rfl rfl rfl rfl
  | answered code verifier =>
    dsimp only
    split
    · exact h.out _ rfl rfl rfl rfl rfl rfl
    · exact h.on .entered rfl rfl rfl (fun _ hr => nomatch hr) rfl rfl rfl
  | shapeless => exact h.on .over rfl rfl rfl (fun _ hr => nomatch hr) rfl rfl rfl

theorem Sound.checked (h : l.Sound) (kept : Bool) :
    (l.checked kept).Sound ∧ l.Follows (l.checked kept) := by
  unfold Login.checked
  split
  · exact h.on .kept rfl rfl rfl (fun _ hr => nomatch hr) rfl rfl rfl
  · exact h.out _ rfl rfl rfl rfl rfl rfl

theorem Sound.untaken (h : l.Sound) (why : String) :
    (l.untaken why).Sound ∧ l.Follows (l.untaken why) :=
  h.out _ rfl rfl rfl rfl rfl rfl

theorem Sound.exchanged (h : l.Sound) (hp : l.phase = .trades) (answer : Except String Tokens) :
    (l.exchanged answer).Sound ∧ l.Follows (l.exchanged answer) := by
  unfold Login.exchanged
  cases answer with
  | error why => exact h.untaken why
  | ok tokens =>
    dsimp only
    split
    · exact h.untaken _
    · -- it traded before, so that it completes
      refine h.step rfl rfl rfl (fun _ => rfl) (fun _ => ?_) fun _ hr => nomatch hr
      rw [hp]
      rfl

theorem Sound.finished (h : l.Sound) (tokens : Tokens) (outcome : Storing) :
    (l.finished tokens outcome).Sound ∧ l.Follows (l.finished tokens outcome) := by
  unfold Login.finished
  cases outcome with
  | stored => exact h.out _ rfl rfl rfl rfl rfl rfl
  | late why => exact h.untaken why
  | unstored why => exact h.untaken why

theorem Sound.ended (h : l.Sound) {r : Result} (hp : l.phase = .ends r) :
    (l.ended r).Sound ∧ l.Follows (l.ended r) := by
  obtain ⟨hend, hpending⟩ := h.ending r hp
  have hno : r.isPending ≠ true := by
    rw [hpending]
    exact Bool.false_ne_true
  refine ⟨⟨fun h' => absurd h' Bool.false_ne_true, (fun _ hr => nomatch hr), hend⟩,
    ⟨rfl, fun _ => rfl, fun h' => absurd h' Bool.false_ne_true, fun h' => ?_,
      fun h' => absurd h' hno⟩⟩
  exact absurd (Bool.and_eq_true_iff.mp h').1 hno

end Login

/-! ### The steps -/

namespace State

variable {s : State α κ δ}

/-- The login is out of the controller's hands, and will not trade its code. -/
def Detached (s : State α κ δ) (id : κ) : Prop :=
  id ∉ s.registered ∧ ∃ l, s.logins id = some l ∧ l.phase.launched = true ∧ l.phase.trading = false

/-- What holds in every state of an unbroken run. -/
structure Inv (s : State α κ δ) : Prop where
  sound : ∀ id l, s.logins id = some l → l.Sound
  listed : ∀ id ∈ s.registered, ∃ l, s.logins id = some l ∧ l.phase.launched = true
  detached : ∀ p ∈ s.ended, s.Detached p.1
  gone : ∀ a, s.Gone a → s.vault a = none
  alone : AtMostOne s.Awaits

/-- What a step keeps. -/
structure Keeps (s s' : State α κ δ) : Prop where
  inv : s'.Inv
  detached : ∀ id, s.Detached id → s'.Detached id
  pending : AtMostOne s.Pending → AtMostOne s'.Pending

omit [DecidableEq α] [DecidableEq κ] [DecidableEq δ] in
theorem Keeps.trans {s₁ s₂ s₃ : State α κ δ} (h : s₁.Keeps s₂) (h' : s₂.Keeps s₃) :
    s₁.Keeps s₃ :=
  ⟨h'.inv, fun id hd => h'.detached id (h.detached id hd), fun hp => h'.pending (h.pending hp)⟩

omit [DecidableEq α] [DecidableEq δ] in
theorem modify_self {id : κ} {l : Login α κ} (h : s.logins id = some l)
    (f : Login α κ → Login α κ) : (s.modify id f).logins id = some (f l) := by
  show Function.update _ _ _ id = _
  rw [Function.update_self, h]
  rfl

omit [DecidableEq α] [DecidableEq δ] in
theorem modify_of_ne {id k : κ} (h : k ≠ id) (f : Login α κ → Login α κ) :
    (s.modify id f).logins k = s.logins k :=
  Function.update_of_ne h _ _

omit [DecidableEq α] [DecidableEq δ] in
/-- The login that is there after a change was there before it. -/
theorem of_modify {id k : κ} {f : Login α κ → Login α κ} {l' : Login α κ}
    (h : (s.modify id f).logins k = some l') :
    ∃ l, s.logins k = some l ∧ (k ≠ id ∧ l' = l ∨ k = id ∧ l' = f l) := by
  by_cases hk : k = id
  · subst hk
    cases hl : s.logins k with
    | none =>
      have hnone : (s.modify k f).logins k = none := by
        show Function.update _ _ _ k = _
        rw [Function.update_self, hl]
        rfl
      rw [hnone] at h
      cases h
    | some l =>
      rw [modify_self hl] at h
      exact ⟨l, rfl, .inr ⟨rfl, (Option.some.inj h).symm⟩⟩
  · rw [modify_of_ne hk] at h
    exact ⟨l', h, .inl ⟨hk, rfl⟩⟩

omit [DecidableEq α] [DecidableEq δ] in
/-- A login takes a step that does not start to trade. -/
theorem modify_keeps (h : s.Inv) {id : κ} {f : Login α κ → Login α κ}
    (hf : ∀ l, s.logins id = some l → (f l).Sound ∧ l.Follows (f l)) :
    s.Keeps (s.modify id f) := by
  have hback : ∀ k l', (s.modify id f).logins k = some l' →
      ∃ l, s.logins k = some l ∧ l'.Sound ∧ l.Follows l' := by
    intro k l' hl'
    obtain ⟨l, hl, ⟨-, rfl⟩ | ⟨rfl, rfl⟩⟩ := of_modify hl'
    · exact ⟨l', hl, h.sound k l' hl, .rfl⟩
    · exact ⟨l, hl, hf l hl⟩
  have hforth : ∀ k l, s.logins k = some l →
      ∃ l', (s.modify id f).logins k = some l' ∧ l.Follows l' := by
    intro k l hl
    by_cases hk : k = id
    · subst hk
      exact ⟨f l, modify_self hl f, (hf l hl).2⟩
    · exact ⟨l, (modify_of_ne hk f).trans hl, .rfl⟩
  have hdetached : ∀ k, s.Detached k → (s.modify id f).Detached k := by
    rintro k ⟨hk, l, hl, hlaunched, htrading⟩
    obtain ⟨l', hl', hfollows⟩ := hforth k l hl
    refine ⟨hk, l', hl', hfollows.launched hlaunched, ?_⟩
    exact Bool.eq_false_iff.mpr fun ht => Bool.eq_false_iff.mp htrading (hfollows.trading ht)
  -- what is listed was listed, where `p` held before
  have hlisted : ∀ p : Login α κ → Bool, (∀ l l', l.Follows l' → p l' = true → p l = true) →
      ∀ a k, (s.modify id f).Listed p a k → s.Listed p a k := by
    rintro p hp a k ⟨hk, l', hl', ha, hw⟩
    obtain ⟨l, hl, -, hfollows⟩ := hback k l' hl'
    exact ⟨hk, l, hl, hfollows.account ▸ ha, hp l l' hfollows hw⟩
  refine ⟨⟨fun k l' hl' => ?_, fun k hk => ?_, fun p hp => hdetached _ (h.detached p hp), h.gone,
    h.alone.mono (hlisted _ fun _ _ hl => hl.awaits)⟩, hdetached,
    fun hone => hone.mono (hlisted _ fun _ _ hl => hl.pending)⟩
  · obtain ⟨l, -, hsound, -⟩ := hback k l' hl'
    exact hsound
  · obtain ⟨l, hl, hlaunched⟩ := h.listed k hk
    obtain ⟨l', hl', hfollows⟩ := hforth k l hl
    exact ⟨l', hl', hfollows.launched hlaunched⟩

omit [DecidableEq α] [DecidableEq δ] in
/-- A login is told to stop. -/
theorem stop_keeps (h : s.Inv) (id : κ) :
    s.Keeps (s.modify id fun l => { l with stopped := true }) :=
  modify_keeps h fun l hl =>
    (h.sound id l hl).step rfl rfl rfl (fun hp => hp) (fun hp => hp) (h.sound id l hl).ending

omit [DecidableEq α] [DecidableEq δ] in
theorem mem_notes {old : List κ} {now : κ → ℤ} {r : κ → Result} {e : EndedLogins κ}
    {p : κ × ℤ × Result} (h : p ∈ old.foldl (fun e id => e.note (now id) id (r id)) e) :
    p ∈ e ∨ p.1 ∈ old := by
  induction old generalizing e with
  | nil => exact .inl h
  | cons id old ih =>
    rw [List.foldl_cons] at h
    rcases ih h with h | h
    · rcases Assoc.mem_set h with rfl | h
      · exact .inr List.mem_cons_self
      · exact .inl (List.mem_filter.mp h).1
    · exact .inr (List.mem_cons_of_mem _ h)

omit [DecidableEq δ] in
/-- **The logins that are ended are none that complete**, so they have not started to trade. -/
theorem endPending_keeps (h : s.Inv) (a : α) (why : Result) (now : κ → ℤ) :
    s.Keeps (s.endPending a why now).1 := by
  have hsub : ∀ k, k ∈ (s.endPending a why now).1.registered →
      k ∈ s.registered ∧ s.endable a k = false := by
    intro k hk
    obtain ⟨hk, hno⟩ := List.mem_filter.mp hk
    exact ⟨hk, Bool.not_eq_true' _ ▸ hno⟩
  have hdetached : ∀ k, s.Detached k → (s.endPending a why now).1.Detached k :=
    fun k hk => ⟨fun hmem => hk.1 (hsub k hmem).1, hk.2⟩
  have hlisted : ∀ (p : Login α κ → Bool) (b : α) (k : κ),
      (s.endPending a why now).1.Listed p b k → s.Listed p b k :=
    fun p b k hk => ⟨(hsub k hk.1).1, hk.2⟩
  refine ⟨⟨h.sound, fun k hk => h.listed k (hsub k hk).1, fun p hp => ?_, h.gone,
    h.alone.mono (hlisted _)⟩, hdetached, fun hone => hone.mono (hlisted _)⟩
  rcases mem_notes hp with hp | hp
  · exact hdetached _ (h.detached p hp)
  · obtain ⟨hmem, hend⟩ := List.mem_filter.mp hp
    obtain ⟨l, hl, hlaunched⟩ := h.listed _ hmem
    have hcompleting : l.completing ≠ true := by
      unfold endable at hend
      rw [hl] at hend
      simpa using (Bool.and_eq_true_iff.mp hend).2
    refine ⟨fun hk => ?_, l, hl, hlaunched, Bool.eq_false_iff.mpr fun ht =>
      hcompleting ((h.sound _ l hl).completing ht)⟩
    exact Bool.eq_false_iff.mp (hsub _ hk).2 hend

omit [DecidableEq α] [DecidableEq κ] [DecidableEq δ] in
/-- The document of the accounts may be anything. -/
theorem accounts_keeps (h : s.Inv)
    (accounts : Document.Store (List (Account α)) (List (Account α))) :
    s.Keeps { s with accounts := accounts } :=
  ⟨⟨h.sound, h.listed, h.detached, h.gone, h.alone⟩, fun _ hd => hd, fun hp => hp⟩

omit [DecidableEq α] [DecidableEq κ] [DecidableEq δ] in
theorem load_keeps (h : s.Inv) (fails : Bool) : s.Keeps (s.load fails).1 :=
  accounts_keeps h _

omit [DecidableEq α] [DecidableEq κ] in
/-- A deletion that has told the vault told it before. -/
theorem of_moved {d e : δ} {p : Leaving κ} {x' : Deletion α κ}
    (h : (s.moved d p).deletions e = some x') :
    ∃ x, s.deletions e = some x ∧ x'.account = x.account ∧
      (e ≠ d ∧ x' = x ∨ e = d ∧ x'.phase = p) := by
  by_cases he : e = d
  · subst he
    change Function.update s.deletions e _ e = _ at h
    rw [Function.update_self] at h
    obtain ⟨x, hx, rfl⟩ := Option.map_eq_some_iff.mp h
    exact ⟨x, hx, rfl, .inr ⟨rfl, rfl⟩⟩
  · change Function.update s.deletions d _ e = _ at h
    rw [Function.update_of_ne he] at h
    exact ⟨x', h, rfl, .inl ⟨he, rfl⟩⟩

omit [DecidableEq α] [DecidableEq κ] in
/-- A deletion begins. -/
theorem delete_keeps (h : s.Inv) {d : δ} (hfree : s.deletions d = none) (a : α) :
    s.Keeps { s with deletions := Function.update s.deletions d (some { account := a }) } := by
  refine ⟨⟨h.sound, h.listed, h.detached, fun b ⟨e, y, hy, hb, hforgets⟩ => ?_, h.alone⟩,
    fun _ hd => hd, fun hone => hone⟩
  change Function.update s.deletions d _ e = _ at hy
  by_cases he : e = d
  · subst he
    rw [Function.update_self] at hy
    obtain rfl := Option.some.inj hy
    exact absurd hforgets Bool.false_ne_true
  · rw [Function.update_of_ne he] at hy
    exact h.gone b ⟨e, y, hy, hb, hforgets⟩

omit [DecidableEq α] [DecidableEq κ] in
/-- A deletion goes on, and the vault is as it was. -/
theorem moved_keeps (h : s.Inv) {d : δ} {x : Deletion α κ} (hx : s.deletions d = some x)
    {p : Leaving κ} (hp : p.forgets = true → s.Gone x.account) : s.Keeps (s.moved d p) := by
  refine ⟨⟨h.sound, h.listed, h.detached, fun a ⟨e, y', hy', ha, hforgets⟩ => ?_, h.alone⟩,
    fun _ hd => hd, fun hone => hone⟩
  obtain ⟨y, hy, haccount, ⟨-, rfl⟩ | ⟨rfl, hphase⟩⟩ := of_moved hy'
  · exact h.gone a ⟨e, y', hy, ha, hforgets⟩
  · obtain rfl := Option.some.inj (hx.symm.trans hy)
    rw [haccount] at ha
    exact ha ▸ h.gone _ (hp (hphase ▸ hforgets))

omit [DecidableEq α] [DecidableEq δ] in
/-- A login is started under a token that none had. -/
theorem start_keeps (h : s.Inv) {id : κ} (hfree : s.logins id = none) (account : Account α) :
    s.Keeps { s with logins := Function.update s.logins id (some { account := account }) } := by
  have hne : ∀ k l, s.logins k = some l → k ≠ id := by
    rintro k l hl rfl
    rw [hfree] at hl
    cases hl
  have hsame : ∀ k l, s.logins k = some l →
      Function.update s.logins id (some { account := account }) k = some l :=
    fun k l hl => (Function.update_of_ne (hne k l hl) ..).trans hl
  have hlisted : ∀ (p : Login α κ → Bool) (a : α) (k : κ),
      State.Listed { s with logins := Function.update s.logins id (some { account := account }) }
        p a k → s.Listed p a k := by
    rintro p a k ⟨hk, l', hl', ha, hw⟩
    obtain ⟨l, hl, -⟩ := h.listed k hk
    obtain rfl : l = l' := Option.some.inj ((hsame k l hl).symm.trans hl')
    exact ⟨hk, l, hl, ha, hw⟩
  have hdetached : ∀ k, s.Detached k → State.Detached
      { s with logins := Function.update s.logins id (some { account := account }) } k := by
    rintro k ⟨hk, l, hl, hlaunched⟩
    exact ⟨hk, l, hsame k l hl, hlaunched⟩
  refine ⟨⟨fun k l hl => ?_, fun k hk => ?_, fun p hp => hdetached _ (h.detached p hp), h.gone,
    h.alone.mono (hlisted _)⟩, hdetached, fun hone => hone.mono (hlisted _)⟩
  · by_cases hk : k = id
    · subst hk
      change Function.update s.logins k _ k = _ at hl
      rw [Function.update_self] at hl
      obtain rfl := Option.some.inj hl
      exact ⟨fun h' => absurd h' Bool.false_ne_true, (fun _ hr => nomatch hr), rfl⟩
    · change Function.update s.logins id _ k = _ at hl
      rw [Function.update_of_ne hk] at hl
      exact h.sound k l hl
  · obtain ⟨l, hl, hlaunched⟩ := h.listed k hk
    exact ⟨l, hsame k l hl, hlaunched⟩

omit [DecidableEq α] [DecidableEq δ] in
/-- A login is registered, where none waits for a code of its account. -/
theorem register_keeps (h : s.Inv) {id : κ} {l : Login α κ} (hl : s.logins id = some l)
    (hp : l.phase = .stops []) (hno : ∀ k, ¬ s.Awaits l.account.id k) :
    let s' := State.modify { s with registered := s.registered ++ [id] } id fun l =>
      { l with phase := .starts }
    s'.Inv ∧ (∀ k, s.Detached k → s'.Detached k) ∧
      ((∀ k, ¬ s.Pending l.account.id k) → AtMostOne s.Pending → AtMostOne s'.Pending) := by
  intro s'
  have hsound := h.sound id l hl
  have ht : s.Keeps (s.modify id fun l => { l with phase := .starts }) := by
    refine modify_keeps h fun l' hl' => ?_
    obtain rfl := Option.some.inj (hl.symm.trans hl')
    exact hsound.on .starts rfl rfl rfl (fun _ hr => nomatch hr) rfl rfl rfl
  have hself : s'.logins id = some { l with phase := .starts } := modify_self (s := s) hl _
  -- a login that is not registered yet is detached from nothing
  have hdetached : ∀ k, s.Detached k → s'.Detached k := by
    intro k hk
    obtain ⟨hmem, hlogin⟩ := ht.detached k hk
    refine ⟨fun hk' => ?_, hlogin⟩
    rcases List.mem_append.mp hk' with hk' | hk'
    · exact hmem hk'
    · obtain rfl := List.mem_singleton.mp hk'
      obtain ⟨-, l', hl', hlaunched, -⟩ := hk
      obtain rfl := Option.some.inj (hl.symm.trans hl')
      rw [hp] at hlaunched
      exact Bool.false_ne_true hlaunched
  have hlisted : ∀ p : Login α κ → Bool, (∀ m : Login α κ, p { m with phase := .starts } = p m) →
      ∀ a k, s'.Listed p a k → s.Listed p a k ∨ a = l.account.id ∧ k = id := by
    rintro p hpre a k ⟨hk, l', hl', ha, hw⟩
    obtain ⟨m, hm, ⟨hne, rfl⟩ | ⟨rfl, rfl⟩⟩ := of_modify hl'
    · rcases List.mem_append.mp hk with hk | hk
      · exact .inl ⟨hk, l', hm, ha, hw⟩
      · exact absurd (List.mem_singleton.mp hk) hne
    · obtain rfl := Option.some.inj (hl.symm.trans hm)
      exact .inr ⟨ha.symm, rfl⟩
  refine ⟨⟨ht.inv.sound, fun k hk => ?_, fun p hp => hdetached _ (h.detached p hp), h.gone,
    h.alone.insert hno (hlisted _ fun _ => rfl)⟩, hdetached,
    fun hnone hone => hone.insert hnone (hlisted _ fun _ => rfl)⟩
  rcases List.mem_append.mp hk with hk | hk
  · exact ht.inv.listed k hk
  · obtain rfl := List.mem_singleton.mp hk
    exact ⟨_, hself, rfl⟩

omit [DecidableEq α] [DecidableEq δ] in
/-- A registered login starts to complete: no one can end it from now on. -/
theorem complete_keeps (h : s.Inv) {id : κ} (hmem : id ∈ s.registered) :
    s.Keeps (s.modify id fun l => { l with completing := true, phase := .trades }) := by
  have hdetached : ∀ k, s.Detached k →
      (s.modify id fun l => { l with completing := true, phase := .trades }).Detached k := by
    rintro k ⟨hk, l, hl, hlaunched⟩
    have hne : k ≠ id := fun he => hk (he ▸ hmem)
    exact ⟨hk, l, (modify_of_ne hne _).trans hl, hlaunched⟩
  have hlisted : ∀ p : Login α κ → Bool,
      (∀ m : Login α κ, p { m with completing := true, phase := .trades } = true → p m = true) →
      ∀ a k, (s.modify id fun l => { l with completing := true, phase := .trades }).Listed p a k →
        s.Listed p a k := by
    rintro p hp a k ⟨hk, l', hl', ha, hw⟩
    obtain ⟨m, hm, ⟨-, rfl⟩ | ⟨rfl, rfl⟩⟩ := of_modify hl'
    · exact ⟨hk, l', hm, ha, hw⟩
    · exact ⟨hk, m, hm, ha, hp m hw⟩
  refine ⟨⟨fun k l' hl' => ?_, fun k hk => ?_, fun p hp => hdetached _ (h.detached p hp), h.gone,
    h.alone.mono (hlisted _ fun m hm => ?_)⟩, hdetached,
    fun hone => hone.mono (hlisted _ fun _ hm => hm)⟩
  · obtain ⟨m, hm, ⟨-, rfl⟩ | ⟨rfl, rfl⟩⟩ := of_modify hl'
    · exact h.sound k l' hm
    · exact ⟨fun _ => rfl, (fun _ hr => nomatch hr), (h.sound k m hm).result⟩
  · obtain ⟨m, hm, hlaunched⟩ := h.listed k hk
    by_cases hk' : k = id
    · subst hk'
      exact ⟨_, modify_self hm _, rfl⟩
    · exact ⟨m, (modify_of_ne hk' _).trans hm, hlaunched⟩
  · -- a login that completes does not wait
    exact absurd (Bool.and_eq_true_iff.mp hm).2 Bool.false_ne_true

omit [DecidableEq κ] [DecidableEq δ] in
/-- Tokens are stored for an account that is not gone. -/
theorem entry_keeps (h : s.Inv) {a : α} (hgone : ¬ s.Gone a) (e : Option Entry) :
    s.Keeps { s with vault := Function.update s.vault a e } := by
  refine ⟨⟨h.sound, h.listed, h.detached, fun b hb => ?_, h.alone⟩, fun _ hd => hd,
    fun hone => hone⟩
  have hne : b ≠ a := fun he => hgone (he ▸ hb)
  exact (Function.update_of_ne hne ..).trans (h.gone b hb)

omit [DecidableEq κ] in
/-- `CredentialVault.delete` -/
theorem forget_keeps (h : s.Inv) {d : δ} {x : Deletion α κ} (hx : s.deletions d = some x) :
    s.Keeps
      (State.moved { s with vault := Function.update s.vault x.account none } d .forgotten) := by
  refine ⟨⟨h.sound, h.listed, h.detached, fun b ⟨e, y', hy', hb, hforgets⟩ => ?_, h.alone⟩,
    fun _ hd => hd, fun hone => hone⟩
  show Function.update s.vault x.account none b = none
  by_cases hne : b = x.account
  · rw [hne, Function.update_self]
  · rw [Function.update_of_ne hne]
    obtain ⟨y, hy, haccount, ⟨-, rfl⟩ | ⟨rfl, -⟩⟩ := of_moved hy'
    · exact h.gone b ⟨e, y', hy, hb, hforgets⟩
    · obtain rfl := Option.some.inj (hx.symm.trans hy)
      exact absurd (hb.symm.trans haccount) hne

/-- What a step brings about. -/
def Brings (s : State α κ δ) (e : Action α κ δ) (s' : State α κ δ) : Prop :=
  s'.Inv ∧ (∀ k, s.Detached k → s'.Detached k) ∧
    (s.Undivided e → AtMostOne s.Pending → AtMostOne s'.Pending)

omit [DecidableEq α] [DecidableEq κ] [DecidableEq δ] in
theorem Keeps.brings {s s' : State α κ δ} (h : s.Keeps s') (e : Action α κ δ) : s.Brings e s' :=
  ⟨h.inv, h.detached, fun _ => h.pending⟩

omit [DecidableEq δ] in
theorem loginNext_brings (h : s.Inv) {id : κ} {l : Login α κ} (hl : s.logins id = some l)
    {e : LoginStep κ} (hok : s.Unbroken (.login id e)) {s' : State α κ δ}
    (hs : s.loginNext id l e = some s') : s.Brings (.login id e) s' := by
  have hself : ∀ l', s.logins id = some l' → l' = l :=
    fun l' hl' => Option.some.inj (hl'.symm.trans hl)
  have hsound := h.sound id l hl
  unfold loginNext at hs
  split at hs
  · next now answer hp =>
    obtain rfl := Option.some.inj hs
    exact (modify_keeps h fun l' hl' => hself l' hl' ▸ hsound.begun hp now answer).brings _
  · next now hp =>
    obtain rfl := Option.some.inj hs
    have hended := endPending_keeps h l.account.id REPLACED now
    refine (hended.trans (modify_keeps hended.inv fun l' hl' => ?_)).brings _
    have hl' := hself l' hl'
    subst hl'
    exact hsound.before (by rw [hp]; rfl)
  · next k left hp =>
    obtain rfl := Option.some.inj hs
    have hstop := stop_keeps h k
    refine (hstop.trans (modify_keeps hstop.inv fun l' hl' => ?_)).brings _
    -- the login that is told to stop may be any, but its phase is what it was
    obtain ⟨m, hm, hor⟩ := of_modify hl'
    have hphase : l'.phase = l.phase := by
      obtain rfl := hself m hm
      rcases hor with ⟨-, rfl⟩ | ⟨-, rfl⟩ <;> rfl
    exact (hstop.inv.sound id l' hl').before (by rw [hphase, hp]; rfl)
  · next hp =>
    obtain rfl := Option.some.inj hs
    obtain ⟨hinv, hdetached, hpending⟩ := register_keeps h hl hp (hok l hl)
    exact ⟨hinv, hdetached, fun hu => hpending (hu.2 id rfl l hl)⟩
  · next hp =>
    obtain rfl := Option.some.inj hs
    refine (modify_keeps h fun l' hl' => ?_).brings _
    obtain rfl := hself l' hl'
    exact hsound.on .waits rfl rfl rfl (fun _ hr => nomatch hr) rfl rfl rfl
  · next now hp =>
    obtain rfl := Option.some.inj hs
    exact (modify_keeps h fun l' hl' => hself l' hl' ▸ hsound.woken now).brings _
  · next answer hp =>
    obtain rfl := Option.some.inj hs
    exact (modify_keeps h fun l' hl' => hself l' hl' ▸ hsound.polled answer).brings _
  · next fails hp =>
    obtain rfl := Option.some.inj hs
    have hload := load_keeps h fails
    refine (hload.trans (modify_keeps hload.inv fun l' hl' => ?_)).brings _
    obtain rfl := hself l' hl'
    exact hsound.checked _
  · next hp =>
    obtain rfl := Option.some.inj hs
    exact (complete_keeps h hok).brings _
  · next answer hp =>
    obtain rfl := Option.some.inj hs
    exact (modify_keeps h fun l' hl' => hself l' hl' ▸ hsound.exchanged hp answer).brings _
  · next tokens now outcome hp =>
    have hfinish : s.Keeps (s.modify id fun l => l.finished tokens outcome) :=
      modify_keeps h fun l' hl' => hself l' hl' ▸ hsound.finished tokens outcome
    dsimp only at hs
    split at hs
    · next hstored =>
      obtain rfl := Option.some.inj hs
      exact (hfinish.trans (entry_keeps hfinish.inv (hok hstored l hl) _)).brings _
    · obtain rfl := Option.some.inj hs
      exact hfinish.brings _
  · next result hp =>
    obtain rfl := Option.some.inj hs
    exact (modify_keeps h fun l' hl' => hself l' hl' ▸ hsound.ended hp).brings _
  · cases hs

theorem deletionNext_keeps (h : s.Inv) {d : δ} {x : Deletion α κ}
    (hx : s.deletions d = some x) {e : DeletionStep κ} {s' : State α κ δ}
    (hs : s.deletionNext d x e = some s') : s.Keeps s' := by
  -- before the vault is told, the deletion may be anywhere that is before it, too
  have hearly : ∀ p : Leaving κ, p.forgets = false → p.forgets = true → s.Gone x.account :=
    fun p hp hp' => absurd (hp.symm.trans hp') Bool.false_ne_true
  have hlate : x.phase.forgets = true → s.Gone x.account := fun hf => ⟨d, x, hx, rfl, hf⟩
  unfold deletionNext at hs
  split at hs
  · next fails hp =>
    dsimp only at hs
    split at hs
    all_goals
      obtain rfl := Option.some.inj hs
      have hload := accounts_keeps h (s.accounts.load providers fails).1
      exact hload.trans (moved_keeps hload.inv hx (hearly _ rfl))
  · next r hp =>
    obtain rfl := Option.some.inj hs
    have hassign := accounts_keeps h
      (s.accounts.assign r fun as => as.filter fun a => a.id ≠ x.account)
    exact hassign.trans (moved_keeps hassign.inv hx (hearly _ rfl))
  · next r fails hp =>
    split at hs
    · obtain rfl := Option.some.inj hs
      exact moved_keeps h hx (hearly _ rfl)
    · obtain rfl := Option.some.inj hs
      have hsave := accounts_keeps h (s.accounts.save providers r)
      exact hsave.trans (moved_keeps hsave.inv hx (hearly _ rfl))
  · next fails hp =>
    split at hs
    · obtain rfl := Option.some.inj hs
      exact moved_keeps h hx (hearly _ rfl)
    · obtain rfl := Option.some.inj hs
      exact forget_keeps h hx
  · next now hp =>
    obtain rfl := Option.some.inj hs
    have hended := endPending_keeps h x.account REMOVED now
    exact hended.trans (moved_keeps hended.inv hx fun _ => hlate (by rw [hp]; rfl))
  · next k left hp =>
    obtain rfl := Option.some.inj hs
    have hstop := stop_keeps h k
    exact hstop.trans (moved_keeps hstop.inv hx fun _ => hlate (by rw [hp]; rfl))
  · next hp =>
    obtain rfl := Option.some.inj hs
    exact moved_keeps h hx fun _ => hlate (by rw [hp]; rfl)
  · next hp =>
    obtain rfl := Option.some.inj hs
    exact moved_keeps h hx fun _ => hlate (by rw [hp]; rfl)
  · cases hs

theorem next_brings (h : s.Inv) {e : Action α κ δ} (hok : s.Unbroken e) {s' : State α κ δ}
    (hs : s.next plan e = some s') : s.Brings e s' := by
  cases e with
  | start id a fails =>
    simp only [next] at hs
    split at hs
    · cases hs
    · next hfree =>
      have hload := load_keeps h fails
      split at hs
      · obtain rfl := Option.some.inj hs
        exact hload.brings _
      · next account _ =>
        obtain rfl := Option.some.inj hs
        exact (hload.trans (start_keeps hload.inv hfree account)).brings _
  | login id e =>
    simp only [next] at hs
    split at hs
    · next l hl => exact loginNext_brings h hl hok hs
    · cases hs
  | delete d a fails =>
    simp only [next] at hs
    split at hs
    · cases hs
    · next hfree =>
      obtain rfl := Option.some.inj hs
      have hload := load_keeps h fails
      exact (hload.trans (delete_keeps hload.inv hfree a)).brings _
  | deletion d e =>
    simp only [next] at hs
    split at hs
    · next x hx => exact (deletionNext_keeps h hx hs).brings _
    · cases hs

/-! ### Runs -/

omit [DecidableEq α] [DecidableEq δ] in
/-- A login that the board is told was ended is detached. -/
theorem Reported.detached (h : s.Inv) {id : κ} (hr : s.Reported id) : s.Detached id := by
  obtain ⟨now, r, hr, hend⟩ := hr
  unfold status at hr
  split at hr
  · -- its session says only how it ended on its own
    obtain ⟨l, hl, rfl⟩ := Option.map_eq_some_iff.mp hr
    rw [(h.sound id l hl).result] at hend
    exact absurd hend Bool.false_ne_true
  · unfold EndedLogins.result at hr
    split at hr
    · next noted result hget => exact h.detached _ (Assoc.mem_of_get hget)
    · cases hr

theorem Detached.next_store {id : κ} (h : s.Detached id) (now : ℤ) (outcome : Storing) :
    s.next plan (.login id (.store now outcome)) = none := by
  obtain ⟨-, l, hl, -, htrading⟩ := h
  simp only [next, hl]
  unfold loginNext
  cases hp : l.phase with
  | stores tokens =>
    rw [hp] at htrading
    exact absurd htrading.symm Bool.false_ne_true
  | stops left => cases left <;> rfl
  | _ => rfl

omit [DecidableEq α] [DecidableEq κ] [DecidableEq δ] in
theorem Fresh.inv (h : s.Fresh) : s.Inv := by
  obtain ⟨hlogins, hregistered, hended, hdeletions⟩ := h
  refine ⟨fun id l hl => ?_, fun id hid => ?_, fun p hp => ?_, fun a ha => ?_,
    fun a k k' hk _ => ?_⟩
  · rw [hlogins] at hl
    cases hl
  · rw [hregistered] at hid
    cases hid
  · rw [hended] at hp
    cases hp
  · obtain ⟨d, x, hx, -⟩ := ha
    rw [hdeletions] at hx
    cases hx
  · have hid := hk.1
    rw [hregistered] at hid
    cases hid

theorem reach_inv (h : System.Reach (controller plan) Unbroken s) : s.Inv :=
  h.invariant (fun _ hs => Fresh.inv hs) fun _ _ _ hinv hok hs => (next_brings hinv hok hs).1

/-- A login that is detached stays so, and stores nothing. -/
theorem Detached.storesNothing (h : s.Inv) {id : κ} (hd : s.Detached id) :
    s.StoresNothing plan id := by
  intro t ht now outcome
  suffices hstay : t.Inv ∧ t.Detached id from hstay.2.next_store now outcome
  refine ht.invariant (I := fun t => t.Inv ∧ t.Detached id) (fun u hu => ?_)
    fun u e u' ⟨hinv, hdetached⟩ hok hs => ?_
  · obtain rfl : u = s := hu
    exact ⟨h, hd⟩
  · obtain ⟨hinv', hstays, -⟩ := next_brings hinv hok hs
    exact ⟨hinv', hstays id hdetached⟩

theorem reach_pending (h : System.Reach (controller plan) Undivided s) : AtMostOne s.Pending := by
  refine h.invariant_of (I := fun s => AtMostOne s.Pending) (J := Inv)
    (fun t ht => reach_inv (ht.mono fun _ _ hu => hu.1)) (fun t ht a k k' hk _ => ?_)
    fun t e t' hinv hone hu hs => (next_brings hinv hu.1 hs).2.2 hu hone
  have hid := hk.1
  rw [ht.2.1] at hid
  cases hid

end State

/-- **A sign-in that was ended keeps nothing**, in the unbroken runs: a login that is reported
as replaced or removed never stores tokens, the vault holds nothing for an account whose
deletion has returned, and one login of an account at most waits for its code. Where no login
is registered beside one that trades its code, either, one at most is pending. -/
theorem ended_keeps_nothing {s : State α κ δ}
    (h : System.Reach (controller plan) State.Unbroken s) :
    (∀ id, s.Reported id → s.StoresNothing plan id) ∧
      (∀ d x, s.deletions d = some x → x.phase = .returned → s.vault x.account = none) ∧
      AtMostOne s.Awaits ∧
      (System.Reach (controller plan) State.Undivided s → AtMostOne s.Pending) := by
  have hinv := State.reach_inv h
  refine ⟨fun id hr => (hr.detached hinv).storesNothing hinv, fun d x hx hp => ?_, hinv.alone,
    State.reach_pending⟩
  refine hinv.gone _ ⟨d, x, hx, rfl, ?_⟩
  rw [hp]
  rfl

end Kept

/-! ### The three ways

The account 1 signs in. First its login is replaced while the provider is asked, and the code
was entered by then; then the account is deleted while the code is traded; last, two logins are
started at once. -/

section ThreeWays

namespace State

/-- What a script leads to, as far as it can be followed. -/
def follow (plan : Text → Bool) (s : State α κ δ) : List (Action α κ δ) → Option (State α κ δ)
  | [] => some s
  | e :: script => match s.next plan e with
    | some t => t.follow plan script
    | none => none

theorem reach_follow {plan : Text → Bool} {ok : State α κ δ → Action α κ δ → Prop}
    (script : List (Action α κ δ)) {s t : State α κ δ}
    (h : System.Reach (controller plan) ok s) (hf : s.follow plan script = some t)
    (hok : ∀ s, ∀ e ∈ script, ok s e) : System.Reach (controller plan) ok t := by
  induction script generalizing s with
  | nil => exact Option.some.inj hf ▸ h
  | cons e script ih =>
    rw [follow] at hf
    split at hf
    · next u hu =>
      exact ih (h.next hu (hok s e List.mem_cons_self)) hf
        fun s e he => hok s e (List.mem_cons_of_mem _ he)
    · cases hf

end State

theorem State.follow_append (plan : Text → Bool) (s : State α κ δ)
    (script script' : List (Action α κ δ)) :
    s.follow plan (script ++ script') = (s.follow plan script).bind fun t =>
      t.follow plan script' := by
  induction script generalizing s with
  | nil => rfl
  | cons e script ih =>
    rw [List.cons_append, State.follow, State.follow]
    split
    · exact ih _
    · rfl

def ONE : Account ℕ where
  id := 1
  authMode := Text.of "oauth"
  accountType := []
  tokenUrl := Text.of "t"
  clientId := Text.of "c"

def START : State ℕ ℕ ℕ where
  accounts := ⟨some [ONE], 0, none, fun _ => [], 0⟩
  vault := fun _ => none
  logins := fun _ => none
  registered := []
  ended := []
  deletions := fun _ => none

/-- A login for the account, up to the end of the older ones. -/
def begin (id : ℕ) : List (Action ℕ ℕ ℕ) :=
  [.start id 1 false, .login id (.begun 0 (some ⟨Text.of "d", Text.of "u", 0⟩)),
    .login id (.replace fun _ => 0)]

/-- It is registered, and asks. -/
def ask (id : ℕ) : List (Action ℕ ℕ ℕ) :=
  [.login id .register, .login id .launch, .login id (.wake 0)]

/-- The code was entered, and is traded. -/
def trade (id : ℕ) : List (Action ℕ ℕ ℕ) :=
  [.login id (.poll (.answered (Text.of "a") (Text.of "v"))), .login id (.check false),
    .login id .complete, .login id (.exchange (.ok ⟨Text.of "t", [], [], [], none, []⟩))]

/-- The account is deleted. -/
def remove : List (Action ℕ ℕ ℕ) :=
  [.delete 0 1 false, .deletion 0 (.load false), .deletion 0 .assign, .deletion 0 (.save false),
    .deletion 0 (.forget false), .deletion 0 (.endPending fun _ => 0), .deletion 0 .stop,
    .deletion 0 .leave]

def anyPlan (_ : Text) : Bool := true

theorem start_reach (ok : State ℕ ℕ ℕ → Action ℕ ℕ ℕ → Prop) :
    System.Reach (controller anyPlan) ok START :=
  .init ⟨fun _ => rfl, rfl, rfl, fun _ => rfl⟩

theorem script_reach (script : List (Action ℕ ℕ ℕ)) {r : State ℕ ℕ ℕ → Bool}
    (h : (START.follow anyPlan script).any r = true) :
    ∃ s, System.Reachable (controller anyPlan) s ∧ r s = true := by
  obtain ⟨s, hs, hr⟩ := (Option.any_eq_true _ _).mp h
  exact ⟨s, State.reach_follow script (start_reach _) hs fun _ _ _ => trivial, hr⟩

/-- **Each of the three ways breaks its part**: a login that is reported as replaced stores its
tokens, the vault holds them for an account whose deletion has returned, and two logins of one
account wait for their codes. -/
theorem ended_login_stores :
    (∃ s : State ℕ ℕ ℕ, System.Reachable (controller anyPlan) s ∧ ∃ id, s.Reported id ∧
      ∃ t, s.next anyPlan (.login id (.store 0 .stored)) = some t ∧ t.vault 1 ≠ none) ∧
    (∃ s : State ℕ ℕ ℕ, System.Reachable (controller anyPlan) s ∧ ∃ d x,
      s.deletions d = some x ∧ x.phase = .returned ∧ s.vault x.account ≠ none) ∧
    ∃ s : State ℕ ℕ ℕ, System.Reachable (controller anyPlan) s ∧ ¬ AtMostOne s.Awaits := by
  refine ⟨?_, ?_, ?_⟩
  · obtain ⟨s, hs, h⟩ := script_reach (begin 0 ++ ask 0 ++ begin 1 ++ trade 0)
      (r := fun s => (s.status 0 0).any Result.isEnd &&
        (s.next anyPlan (.login 0 (.store 0 .stored))).any fun t => (t.vault 1).isSome) (by decide)
    obtain ⟨hreported, hstores⟩ := Bool.and_eq_true_iff.mp h
    obtain ⟨r, hr, hend⟩ := (Option.any_eq_true _ _).mp hreported
    obtain ⟨t, ht, hvault⟩ := (Option.any_eq_true _ _).mp hstores
    exact ⟨s, hs, 0, ⟨0, r, hr, hend⟩, t, ht, Option.isSome_iff_ne_none.mp hvault⟩
  · obtain ⟨s, hs, h⟩ := script_reach
      (begin 0 ++ ask 0 ++ trade 0 ++ remove ++ [.login 0 (.store 0 .stored)])
      (r := fun s => (s.deletions 0).any fun x : Deletion ℕ ℕ =>
        decide (x.phase = .returned) && (s.vault x.account).isSome) (by decide)
    obtain ⟨x, hx, h⟩ := (Option.any_eq_true _ _).mp h
    obtain ⟨hreturned, hvault⟩ := Bool.and_eq_true_iff.mp h
    exact ⟨s, hs, 0, x, hx, of_decide_eq_true hreturned, Option.isSome_iff_ne_none.mp hvault⟩
  · obtain ⟨s, hs, h⟩ := script_reach (begin 0 ++ begin 1 ++ ask 0 ++ ask 1)
      (r := fun s => [0, 1].all fun id => decide (id ∈ s.registered) &&
        (s.logins id).any fun l : Login ℕ ℕ => decide (l.account.id = 1) && l.awaits) (by decide)
    have hawaits : ∀ id ∈ [0, 1], s.Awaits 1 id := by
      intro id hid
      obtain ⟨hmem, hlogin⟩ := Bool.and_eq_true_iff.mp (List.all_eq_true.mp h id hid)
      obtain ⟨l, hl, hlogin⟩ := (Option.any_eq_true _ _).mp hlogin
      obtain ⟨haccount, hw⟩ := Bool.and_eq_true_iff.mp hlogin
      exact ⟨of_decide_eq_true hmem, l, hl, of_decide_eq_true haccount, hw⟩
    refine ⟨s, hs, fun hone => ?_⟩
    exact Nat.zero_ne_one (hone 1 0 1 (hawaits 0 (by decide)) (hawaits 1 (by decide)))

/-- A login that is replaced while the provider is asked stores nothing, whatever is answered,
in the runs that are unbroken. -/
theorem replaced_stores_nothing : ∃ s : State ℕ ℕ ℕ,
    START.follow anyPlan (begin 0 ++ (ask 0 ++ begin 1)) = some s ∧ s.Reported 0 ∧
      s.StoresNothing anyPlan 0 := by
  obtain ⟨s, hs, hreported⟩ := (Option.any_eq_true _ _).mp
    (show (START.follow anyPlan (begin 0 ++ (ask 0 ++ begin 1))).any
      (fun s => (s.status 0 0).any Result.isEnd) = true by decide)
  obtain ⟨r, hr, hend⟩ := (Option.any_eq_true _ _).mp hreported
  obtain ⟨t, ht, hempty⟩ : ∃ t, START.follow anyPlan (begin 0) = some t ∧ t.registered = [] :=
    ⟨_, rfl, rfl⟩
  have hbegun : System.Reach (controller anyPlan) State.Unbroken t :=
    State.reach_follow (begin 0) (start_reach _) ht (by simp [begin, State.Unbroken])
  have hreach : System.Reach (controller anyPlan) State.Unbroken s := by
    have hrest := hs
    rw [State.follow_append, ht] at hrest
    change t.follow anyPlan (_ :: _) = _ at hrest
    rw [State.follow] at hrest
    split at hrest
    · next u hu =>
      -- none is registered when the first login is
      have hfirst : t.Unbroken (.login 0 .register) := fun l _ k hk => by
        have := hk.1
        rw [hempty] at this
        exact absurd this List.not_mem_nil
      exact State.reach_follow _ (hbegun.next hu hfirst) hrest (by simp [begin, State.Unbroken])
    · cases hrest
  exact ⟨s, hs, ⟨0, r, hr, hend⟩, (ended_keeps_nothing hreach).1 0 ⟨0, r, hr, hend⟩⟩

end ThreeWays

end SignIn
