import Caravan.Framework.Threads
import Caravan.Ports.Registers
import Caravan.Resets.Journal
import Caravan.Python.Float

/-!
# Spending a banked reset

`SubscriptionResetDesk.consume` in any number of threads, over restarts of the controller: a
thread may die at any point of it, which frees the journal's lock. The provider may answer an
outcome, something else, or nothing.

The lock is held from the journal's reading to the answer, so that at most one thread works on
the journal, and what it has read is what the file says. From that follow that an account has
one open attempt at most, that a request is on disk when it is sent, and that a request id with
an outcome is not sent again, and is answered that outcome, until the journal forgets it
(`spent_once`). A journal that has a hundred younger outcomes forgets it at once
(`forgotten_at_once`).
-/

namespace Resets

open Python Ports

/-! ### The request -/

/-- What a call asks for, and the account that `_account` makes of it: `quota_owner`, or a
refusal. -/
structure Ask where
  owner : Except AppError Text
  creditId : Text
  key : Text
  confirmed : Bool
  deriving DecidableEq

def hexDigits : Text := "0123456789abcdef"

/-- `str(uuid.UUID(key)) == key` -/
def isUuid (key : Text) : Bool :=
  key.length = 36 && (List.range 36).all fun i =>
    if i ∈ [8, 13, 18, 23] then key[i]? = some (codePoint '-')
    else (key[i]?).any fun c => c ∈ hexDigits

/-- The checks of `consume` before the lock, and the account. -/
def Ask.account (a : Ask) : Except AppError Text := do
  refuseIf (a.confirmed = false) ⟨"explicit reset confirmation is required", 400⟩
  refuseIf (isUuid a.key = false) ⟨"idempotencyKey must be a UUID", 400⟩
  refuseIf (a.creditId = [] ∨ 256 < a.creditId.length) ⟨"creditId is required", 400⟩
  a.owner

/-- A row of the provider's list. `expiresAt` is the time that its text says, or that it says
none. -/
structure Row where
  id : Text
  status : Text
  resetType : Text
  expiresAt : Option (Option ℚ)
  deriving DecidableEq

/-- What the provider lists: nothing that `list` can use, or rows, each of which may have no
id. -/
abbrev Listing := Option (List (Option Row))

/-- A row of `list`'s answer. -/
structure Credit where
  id : Text
  usable : Bool
  deriving DecidableEq

def credit (now : ℚ) : Option Row → Except AppError Credit
  | none => .error ⟨"ChatGPT returned an invalid reset credit", 502⟩
  | some row => do
    let expired ← match row.expiresAt with
      | none => .ok false
      | some none => .error ⟨"ChatGPT returned an invalid reset expiry", 502⟩
      | some (some t) => .ok (decide (t ≤ now))
    return ⟨row.id, row.status = "available" ∧ row.resetType = "codex_rate_limits" ∧
      expired = false⟩

/-- `SubscriptionResetDesk.list`, as far as `consume` reads it. -/
def listed (now : ℚ) : Listing → Except AppError (List Credit)
  | none => .error ⟨"ChatGPT reset details are unavailable", 502⟩
  | some rows => rows.mapM (credit now)

/-! ### The steps of a call -/

/-- What ends a call: a refusal, or a file or a request that failed. -/
inductive Raised
  | refused (e : AppError)
  | failed
  deriving DecidableEq

/-- What became of a request id. -/
inductive Event
  /-- A POST with this id, for this account and credit, these attempts being in the file. -/
  | sent (owner creditId key : Text) (rows : Attempts)
  /-- Its outcome is in the file. -/
  | received (key : Text) (outcome : Outcome)
  /-- A write has left it out of these attempts. -/
  | forgot (key : Text) (rows : Attempts)
  /-- A call with this id answered. -/
  | answered (key : Text) (outcome : Outcome)
  deriving DecidableEq

/-- The file, its lock, and what happened, the newest first. -/
structure Shared where
  disk : Option Journal
  held : Bool
  log : List Event

/-- `SubscriptionResetJournal.read` -/
def Shared.journal (x : Shared) : Journal := x.disk.getD {}

/-- What is forgotten by a write of these attempts. -/
def forgotten (rows : Attempts) : List Event := (doomed rows).map fun k => .forgot k rows

/-- `SubscriptionResetJournal.write` -/
def Shared.write (x : Shared) (data : Journal) : Shared :=
  { x with disk := some data.trimmed, log := forgotten data.attempts ++ x.log }

/-- Where a call is. -/
inductive Place
  | idle
  /-- It waits for the lock. -/
  | waiting (a : Ask) (owner : Text)
  /-- It has the lock. -/
  | holding (a : Ask) (owner : Text)
  /-- It has read that there is no attempt under its key, and none open for the account. -/
  | fresh (a : Ask) (owner : Text) (data : Journal)
  /-- Its attempt is in the file. -/
  | ready (a : Ask) (owner : Text) (data : Journal)
  /-- The provider is asked. -/
  | asked (a : Ask) (owner : Text) (data : Journal)
  /-- It has its answer, and the lock. -/
  | leaving (a : Ask) (r : Except Raised Outcome)
  | ended (a : Ask) (r : Except Raised Outcome)
  | dead

/-- A step, with what the world has to say in it. -/
inductive Act
  | ask (a : Ask)
  | lock
  | read (fails : Bool)
  /-- `list`, with the provider's answer or what went wrong, and the write of the attempt. -/
  | list (now : ℚ) (reply : Except Raised Listing) (fails : Bool)
  | send
  /-- The request could not be sent. -/
  | unsent
  /-- The provider's answer, an outcome or anything else, or what went wrong; and the write of
  the outcome. -/
  | reply (now : ℚ) (result : Except Raised (Option Outcome)) (fails : Bool)
  | leave
  | die

def Place.Holds : Place → Prop
  | .idle | .waiting .. | .ended .. | .dead => False
  | _ => True

instance (p : Place) : Decidable p.Holds := by cases p <;> unfold Place.Holds <;> infer_instance

def refusal (message : Text) (status : ℕ) : Except Raised Outcome :=
  .error (.refused ⟨message, status⟩)

/-- What a call does about the attempt it finds under its key. -/
def look (a : Ask) (owner : Text) (data : Journal) : Place :=
  match Assoc.get data.attempts a.key with
  | some old =>
    if old.accountId ≠ owner ∨ old.creditId ≠ a.creditId then
      .leaving a (refusal "this request id belongs to another reset" 409)
    else match old.outcome with
      | some o => .leaving a (.ok o)
      | none => .ready a owner data
  | none =>
    if ∃ p ∈ data.attempts, p.2.accountId = owner ∧ p.2.outcome = none then
      .leaving a (refusal "resolve the pending reset using its original request id first" 409)
    else .fresh a owner data

/-- `attempts[key] = {…}` -/
def Journal.begin (data : Journal) (a : Ask) (owner : Text) (now : ℚ) : Journal :=
  { data with attempts := Assoc.set data.attempts a.key ⟨owner, a.creditId, now, none⟩ }

/-- `attempts[key]["outcome"] = outcome`, and the account's last reset. -/
def Journal.settle (data : Journal) (a : Ask) (owner : Text) (now : ℚ) (o : Outcome) : Journal where
  attempts := match Assoc.get data.attempts a.key with
    | some row => Assoc.set data.attempts a.key { row with outcome := some o }
    | none => data.attempts
  resets := if o = .reset ∨ o = .already_redeemed then Assoc.set data.resets owner now
    else data.resets

/-- The attempt is written before the request goes out. `fails` is the write's. -/
def record (x : Shared) (a : Ask) (owner : Text) (data : Journal) (now : ℚ) (fails : Bool) :
    Except Raised (List Credit) → Shared × Place
  | .error e => (x, .leaving a (.error e))
  | .ok credits =>
    if ¬ ∃ c ∈ credits, c.id = a.creditId ∧ c.usable then
      (x, .leaving a (refusal "the selected reset is no longer available" 409))
    else if fails then (x, .leaving a (.error .failed))
    else (x.write (data.begin a owner now), .ready a owner (data.begin a owner now).trimmed)

/-- What is answered is said when the lock is let go. -/
def said (a : Ask) : Except Raised Outcome → List Event
  | .ok o => [.answered a.key o]
  | .error _ => []

/-- One step of a call. -/
def next (x : Shared) : Place → Act → Option (Shared × Place)
  | .idle, .ask a => match a.account with
    | .ok owner => some (x, .waiting a owner)
    | .error e => some (x, .ended a (.error (.refused e)))
  | .waiting a owner, .lock =>
    if x.held then none else some ({ x with held := true }, .holding a owner)
  | .holding a owner, .read fails =>
    if fails then some (x, .leaving a (.error .failed)) else some (x, look a owner x.journal)
  | .fresh a owner data, .list now reply fails => some (record x a owner data now fails
      (reply.bind fun l => (listed now l).mapError .refused))
  | .ready a owner data, .send =>
    some ({ x with log := .sent owner a.creditId a.key x.journal.attempts :: x.log },
      .asked a owner data)
  | .ready a _ _, .unsent => some (x, .leaving a (.error .failed))
  | .asked a _ _, .reply _ (.error e) _ => some (x, .leaving a (.error e))
  | .asked a _ _, .reply _ (.ok none) _ =>
    some (x, .leaving a (refusal "unknown reset outcome; retry with the same request id" 502))
  | .asked a owner data, .reply now (.ok (some o)) fails =>
    if fails then some (x, .leaving a (.error .failed))
    else some ({ x with log := .received a.key o :: x.log }.write (data.settle a owner now o),
      .leaving a (.ok o))
  | .leaving a r, .leave =>
    some ({ x with held := false, log := said a r ++ x.log }, .ended a r)
  | p, .die => some ({ x with held := if p.Holds then false else x.held }, .dead)
  | _, _ => none

/-- Calls, each in a thread of its own, on a journal. -/
def desk (file : Option Journal) : Program Shared Place Act where
  init x := x = ⟨file, false, []⟩
  start := .idle
  step x p e x' p' := next x p e = some (x', p')

/-! ### What the file says of a key -/

def outcomeOf (rows : Attempts) (k : Text) : Option Outcome :=
  (Assoc.get rows k).bind Attempt.outcome

/-- The outcome a key has received and the journal has not forgotten, on top of the attempts
that were there at the start. -/
def remembered (rows : Attempts) (k : Text) : List Event → Option Outcome
  | [] => outcomeOf rows k
  | .received k' o :: older => if k' = k then some o else remembered rows k older
  | .forgot k' _ :: older => if k' = k then none else remembered rows k older
  | .sent .. :: older | .answered .. :: older => remembered rows k older

/-- An attempt that is open in these rows. -/
def OpenIn (rows : Attempts) (owner creditId key : Text) : Prop :=
  ∃ row, Assoc.get rows key = some row ∧ row.accountId = owner ∧ row.creditId = creditId ∧
    row.outcome = none

/-- What an event may follow: a key is sent with its attempt in the file and without an outcome;
one that has an outcome is answered that outcome; and it is forgotten only with a hundred others
behind it. -/
def Event.Follows (rows : Attempts) (older : List Event) : Event → Prop
  | .sent owner creditId k rows' => remembered rows k older = none ∧ OpenIn rows' owner creditId k
  | .answered k o => ∀ o', remembered rows k older = some o' → o' = o
  | .forgot k rows' => Crowded rows' k
  | .received .. => True

/-- Each event follows what was before it. -/
def Told (rows : Attempts) : List Event → Prop
  | [] => True
  | e :: older => e.Follows rows older ∧ Told rows older

theorem told_split {rows : Attempts} {log newer older : List Event} {e : Event}
    (h : Told rows log) (hlog : log = newer ++ e :: older) : e.Follows rows older := by
  subst hlog
  induction newer with
  | nil => exact h.1
  | cons e' newer ih => exact ih h.2

/-- Rows with distinct keys, of which an account has one open at most. -/
structure Sound (rows : Attempts) : Prop where
  distinct : Assoc.Distinct rows
  oneOpen : ∀ k k' r r', Assoc.get rows k = some r → Assoc.get rows k' = some r' →
    r.outcome = none → r'.outcome = none → r.accountId = r'.accountId → k = k'

/-! ### A write -/

theorem outcomeOf_trim (rows : Attempts) (k : Text) :
    outcomeOf (trim rows) k = if k ∈ doomed rows then none else outcomeOf rows k := by
  unfold outcomeOf
  rw [get_trim]
  split <;> rfl

theorem remembered_forgotten (rows rows' : Attempts) (k : Text) (log : List Event) :
    remembered rows k (forgotten rows' ++ log) =
      if k ∈ doomed rows' then none else remembered rows k log := by
  unfold forgotten
  generalize doomed rows' = keys
  induction keys with
  | nil => simp
  | cons k' keys ih =>
    rw [List.map_cons, List.cons_append, remembered, ih]
    by_cases hk : k' = k
    · simp [hk]
    · simp [hk, Ne.symm hk]

theorem Sound.trim {rows : Attempts} (h : Sound rows) : Sound (trim rows) where
  distinct := trim_distinct h.distinct
  oneOpen k k' r r' hr hr' := by
    rw [get_trim] at hr hr'
    split at hr
    · cases hr
    · split at hr'
      · cases hr'
      · exact h.oneOpen k k' r r' hr hr'

theorem told_forgotten {rows rows' : Attempts} (hrows' : Assoc.Distinct rows') {log : List Event}
    (h : Told rows log) : Told rows (forgotten rows' ++ log) := by
  have hall : ∀ keys : List Text, (∀ k ∈ keys, Crowded rows' k) →
      Told rows (keys.map (fun k => Event.forgot k rows') ++ log) := by
    intro keys
    induction keys with
    | nil => exact fun _ => h
    | cons k keys ih =>
      exact fun hk => ⟨hk k List.mem_cons_self, ih fun k' hk' => hk k' (List.mem_cons_of_mem k hk')⟩
  exact hall _ fun k hk => doomed_crowded hrows' hk

/-- The log and the file tell the same, and the file is sound. -/
structure Keeps (file : Option Journal) (x : Shared) : Prop where
  sound : Sound x.journal.attempts
  told : Told (file.getD {}).attempts x.log
  tied : ∀ k, remembered (file.getD {}).attempts k x.log = outcomeOf x.journal.attempts k

/-- A write of rows of which the log tells. -/
theorem Keeps.write {file : Option Journal} {x : Shared} {data : Journal}
    (hsound : Sound data.attempts) (htold : Told (file.getD {}).attempts x.log)
    (htied : ∀ k, remembered (file.getD {}).attempts k x.log = outcomeOf data.attempts k) :
    Keeps file (x.write data) where
  sound := hsound.trim
  told := told_forgotten hsound.distinct htold
  tied k := by
    change remembered _ k (forgotten data.attempts ++ x.log) =
      outcomeOf (Resets.trim data.attempts) k
    rw [remembered_forgotten, outcomeOf_trim, htied]

/-! ### What a call has read -/

/-- What a place says of the file, which nobody else writes while its call has the lock. -/
def Place.Right (x : Shared) : Place → Prop
  | .fresh a owner data => data = x.journal ∧ Assoc.get data.attempts a.key = none ∧
    ∀ k r, Assoc.get data.attempts k = some r → r.outcome = none → r.accountId ≠ owner
  | .ready a owner data | .asked a owner data =>
    data = x.journal ∧ OpenIn data.attempts owner a.creditId a.key
  | .leaving a (.ok o) => ∀ o', outcomeOf x.journal.attempts a.key = some o' → o' = o
  | _ => True

/-- A call without the lock says nothing of it. -/
theorem Place.right_of_free {x : Shared} {p : Place} (h : ¬ p.Holds) : p.Right x := by
  cases p with
  | idle | waiting | ended | dead => trivial
  | holding | fresh | ready | asked | leaving => exact absurd trivial h

theorem Place.Right.same {x x' : Shared} {p : Place} (h : p.Right x) (hdisk : x'.disk = x.disk) :
    p.Right x' := by
  have hjournal : x'.journal = x.journal := by rw [Shared.journal, hdisk, Shared.journal]
  unfold Place.Right at h ⊢
  rw [hjournal]
  exact h

theorem right_refusal {x : Shared} {a : Ask} {e : Raised} : (Place.leaving a (.error e)).Right x :=
  trivial

theorem look_right (x : Shared) (a : Ask) (owner : Text) : (look a owner x.journal).Right x := by
  unfold look
  split
  · next old hold =>
    split
    · exact right_refusal
    · next hsame =>
      split
      · next o ho =>
        intro o' ho'
        rw [outcomeOf, hold, Option.bind_some, ho] at ho'
        exact (Option.some.inj ho').symm
      · next ho =>
        simp only [ne_eq, not_or, not_not] at hsame
        exact ⟨rfl, old, hold, hsame.1, hsame.2, ho⟩
  · next hnone =>
    split
    · exact right_refusal
    · next hopen =>
      exact ⟨rfl, hnone, fun k r hr hno hacc =>
        hopen ⟨(k, r), Assoc.mem_of_get hr, hacc, hno⟩⟩

/-- A new attempt of an account that has none open. -/
theorem begin_sound {data : Journal} {a : Ask} {owner : Text} (h : Sound data.attempts)
    (hopen : ∀ k r, Assoc.get data.attempts k = some r → r.outcome = none → r.accountId ≠ owner)
    (now : ℚ) : Sound (data.begin a owner now).attempts where
  distinct := h.distinct.set _ _
  oneOpen k k' r r' hr hr' hno hno' hacc := by
    unfold Journal.begin at hr hr'
    rw [Assoc.get_set] at hr hr'
    split at hr
    · next hk =>
      split at hr'
      · next hk' => exact hk.trans hk'.symm
      · obtain rfl := Option.some.inj hr
        exact absurd hacc.symm (hopen k' r' hr' hno')
    · split at hr'
      · obtain rfl := Option.some.inj hr'
        exact absurd hacc (hopen k r hr hno)
      · exact h.oneOpen k k' r r' hr hr' hno hno' hacc

theorem outcomeOf_begin (data : Journal) (a : Ask) (owner : Text) (now : ℚ)
    (hnone : Assoc.get data.attempts a.key = none) (k : Text) :
    outcomeOf (data.begin a owner now).attempts k = outcomeOf data.attempts k := by
  unfold outcomeOf Journal.begin
  rw [Assoc.get_set]
  split
  · next hk => rw [hk, hnone]; rfl
  · rfl

theorem settle_attempts {data : Journal} {a : Ask} {owner : Text} {row : Attempt}
    (hrow : Assoc.get data.attempts a.key = some row) (now : ℚ) (o : Outcome) :
    (data.settle a owner now o).attempts =
      Assoc.set data.attempts a.key { row with outcome := some o } := by
  unfold Journal.settle
  simp only [hrow]

theorem settle_sound {data : Journal} {a : Ask} {owner : Text} {row : Attempt}
    (h : Sound data.attempts) (hrow : Assoc.get data.attempts a.key = some row) (now : ℚ)
    (o : Outcome) : Sound (data.settle a owner now o).attempts := by
  rw [settle_attempts hrow]
  refine ⟨h.distinct.set _ _, fun k k' r r' hr hr' hno hno' hacc => ?_⟩
  rw [Assoc.get_set] at hr hr'
  split at hr
  · obtain rfl := Option.some.inj hr
    cases hno
  · split at hr'
    · obtain rfl := Option.some.inj hr'
      cases hno'
    · exact h.oneOpen k k' r r' hr hr' hno hno' hacc

theorem outcomeOf_settle {data : Journal} {a : Ask} {owner : Text} {row : Attempt}
    (hrow : Assoc.get data.attempts a.key = some row) (now : ℚ) (o : Outcome) (k : Text) :
    outcomeOf (data.settle a owner now o).attempts k =
      if a.key = k then some o else outcomeOf data.attempts k := by
  rw [settle_attempts hrow, outcomeOf, Assoc.get_set]
  by_cases hk : a.key = k
  · rw [if_pos hk.symm, if_pos hk]
    rfl
  · rw [if_neg (Ne.symm hk), if_neg hk]
    rfl

/-! ### A step -/

theorem Keeps.same {file : Option Journal} {x x' : Shared} (h : Keeps file x)
    (hdisk : x'.disk = x.disk) (hlog : x'.log = x.log) : Keeps file x' := by
  have hjournal : x'.journal = x.journal := by rw [Shared.journal, hdisk, Shared.journal]
  exact ⟨hjournal ▸ h.sound, hlog ▸ h.told, hlog ▸ hjournal ▸ h.tied⟩

/-- A call that has not the lock changes neither the file nor the log. -/
theorem next_free {x x' : Shared} {p p' : Place} {e : Act} (h : next x p e = some (x', p'))
    (hfree : ¬ p.Holds) : x'.disk = x.disk ∧ x'.log = x.log := by
  unfold next at h
  split at h <;> first
    | exact absurd trivial hfree
    | (split at h <;> cases h <;> exact ⟨rfl, rfl⟩)
    | exact nomatch h

/-- The write of an attempt, before its request goes out. -/
theorem record_keeps {file : Option Journal} {x : Shared} (h : Keeps file x) {a : Ask}
    {owner : Text} {data : Journal} (hright : (Place.fresh a owner data).Right x) (now : ℚ)
    (fails : Bool) (credits : Except Raised (List Credit)) :
    Keeps file (record x a owner data now fails credits).1 ∧
      (record x a owner data now fails credits).2.Right
        (record x a owner data now fails credits).1 := by
  unfold record
  split
  · exact ⟨h, right_refusal⟩
  · split
    · exact ⟨h, right_refusal⟩
    · split
      · exact ⟨h, right_refusal⟩
      · obtain ⟨rfl, hnone, hopen⟩ := hright
        have hsound : Sound (x.journal.begin a owner now).attempts :=
          begin_sound h.sound hopen now
        have hself : Assoc.get (x.journal.begin a owner now).attempts a.key =
            some ⟨owner, a.creditId, now, none⟩ := by
          rw [Journal.begin, Assoc.get_set, if_pos rfl]
        refine ⟨.write hsound h.told fun k => ?_, rfl, ⟨owner, a.creditId, now, none⟩, ?_, rfl,
          rfl, rfl⟩
        · rw [h.tied, outcomeOf_begin _ _ _ _ hnone]
        · -- the attempt itself is open, and stays
          rw [Journal.trimmed, get_trim,
            if_neg (not_doomed_of_pending hsound.distinct hself rfl), hself]

/-- **A step keeps the log and the file in step**, if its call is right about the file. -/
theorem next_keeps {file : Option Journal} {x x' : Shared} {p p' : Place} {e : Act}
    (h : next x p e = some (x', p')) (hkeeps : Keeps file x) (hright : p.Right x) :
    Keeps file x' ∧ p'.Right x' := by
  unfold next at h
  split at h
  · split at h <;> cases h <;> exact ⟨hkeeps, trivial⟩
  · -- lock
    split at h
    · exact nomatch h
    · cases h
      exact ⟨hkeeps.same rfl rfl, trivial⟩
  · -- read
    split at h
    · cases h
      exact ⟨hkeeps, right_refusal⟩
    · cases h
      exact ⟨hkeeps, look_right ..⟩
  · -- list, and the write of the attempt
    have hrecord := record_keeps hkeeps hright
    rw [← Prod.mk.eta (p := record ..)] at h
    cases h
    exact hrecord _ _ _
  · -- send: the attempt is open
    next a owner data =>
    cases h
    obtain ⟨rfl, hopen⟩ := hright
    have hnone : remembered (file.getD {}).attempts a.key x.log = none := by
      obtain ⟨row, hrow, -, -, hno⟩ := hopen
      rw [hkeeps.tied, outcomeOf, hrow]
      exact hno
    exact ⟨⟨hkeeps.sound, ⟨⟨hnone, hopen⟩, hkeeps.told⟩, hkeeps.tied⟩, rfl, hopen⟩
  · cases h
    exact ⟨hkeeps, right_refusal⟩
  · cases h
    exact ⟨hkeeps, right_refusal⟩
  · cases h
    exact ⟨hkeeps, right_refusal⟩
  · -- an outcome, and its write
    next a owner data now o fails =>
    split at h
    · cases h
      exact ⟨hkeeps, right_refusal⟩
    · cases h
      obtain ⟨rfl, row, hrow, -⟩ := hright
      refine ⟨.write (settle_sound hkeeps.sound hrow now o) ⟨trivial, hkeeps.told⟩ fun k => ?_, ?_⟩
      · rw [outcomeOf_settle hrow, ← hkeeps.tied]
        rfl
      · intro o' ho'
        change outcomeOf (trim (x.journal.settle a owner now o).attempts) a.key = some o' at ho'
        rw [outcomeOf_trim, outcomeOf_settle hrow, if_pos rfl] at ho'
        split at ho'
        · exact nomatch ho'
        · exact (Option.some.inj ho').symm
  · -- the answer
    next a r =>
    cases h
    cases r with
    | error e => exact ⟨hkeeps.same rfl rfl, trivial⟩
    | ok o =>
      refine ⟨⟨hkeeps.sound, ⟨fun o' ho' => ?_, hkeeps.told⟩, hkeeps.tied⟩, trivial⟩
      exact hright o' (hkeeps.tied a.key ▸ ho')
  · cases h
    exact ⟨hkeeps.same rfl rfl, trivial⟩
  · exact nomatch h

theorem look_holds (a : Ask) (owner : Text) (data : Journal) : (look a owner data).Holds := by
  unfold look
  split
  · split
    · trivial
    · split <;> trivial
  · split <;> trivial

theorem record_holds (x : Shared) (a : Ask) (owner : Text) (data : Journal) (now : ℚ)
    (fails : Bool) (credits : Except Raised (List Credit)) :
    (record x a owner data now fails credits).2.Holds ∧
      (record x a owner data now fails credits).1.held = x.held := by
  unfold record
  split
  · exact ⟨trivial, rfl⟩
  · split
    · exact ⟨trivial, rfl⟩
    · split <;> exact ⟨trivial, rfl⟩

/-- The lock is taken when it is free, and let go with the answer or with the thread. -/
theorem next_locks {x x' : Shared} {p p' : Place} {e : Act} (h : next x p e = some (x', p')) :
    Program.Locks Place.Holds Shared.held x p x' p' := by
  unfold next at h
  split at h
  · split at h <;> cases h <;> exact .none Iff.rfl rfl
  · split at h
    · exact nomatch h
    · next hfree =>
      cases h
      exact .takes (Bool.eq_false_of_not_eq_true hfree) rfl
  · split at h
    · cases h
      exact .none Iff.rfl rfl
    · cases h
      exact .none (iff_of_true (look_holds ..) trivial) rfl
  · have hrecord := record_holds x
    rw [← Prod.mk.eta (p := record ..)] at h
    cases h
    exact .none (iff_of_true (hrecord ..).1 trivial) (hrecord ..).2
  · cases h
    exact .none Iff.rfl rfl
  · cases h
    exact .none Iff.rfl rfl
  · cases h
    exact .none Iff.rfl rfl
  · cases h
    exact .none Iff.rfl rfl
  · split at h <;> cases h <;> exact .none Iff.rfl rfl
  · cases h
    exact .frees trivial id rfl
  · cases h
    by_cases hp : p.Holds
    · exact .frees hp id (if_pos hp)
    · exact .none (iff_of_false id hp) (if_neg hp)
  · exact nomatch h

/-! ### Any number of calls -/

/-- **A banked reset is spent once.** An account has one attempt without an outcome at most; each
request was sent with its attempt in the file; and until the journal forgets it, which takes a
hundred younger outcomes, a key with an outcome is not sent again, and a call with it answers
that outcome, or is refused as one for another reset. -/
theorem spent_once {file : Option Journal} (hfile : Sound (file.getD {}).attempts)
    {s : Threads Shared Place} (h : (desk file).system.Reachable s) :
    Sound s.shared.journal.attempts ∧
      (∀ newer e older, s.shared.log = newer ++ e :: older →
        e.Follows (file.getD {}).attempts older) ∧
      ∀ a owner o, remembered (file.getD {}).attempts a.key s.shared.log = some o →
        look a owner s.shared.journal = .leaving a (.ok o) ∨
          ¬ (∃ row, Assoc.get s.shared.journal.attempts a.key = some row ∧
              row.accountId = owner ∧ row.creditId = a.creditId) ∧
            look a owner s.shared.journal =
              .leaving a (refusal "this request id belongs to another reset" 409) := by
  have hlock : ∀ s, (desk file).system.Reachable s →
      (∀ t, (s.pc t).Holds → Shared.held s.shared = true) ∧
        ∀ t u, (s.pc t).Holds → (s.pc u).Holds → t = u := fun s h =>
    Program.exclusive id (fun _ _ _ _ _ => next_locks) h
  have hall := Program.every_of (fun s h => (hlock s h).2) (I := Keeps file) (Q := fun x p => p.Right x)
    (fun x hx => ?_) (fun s t e x p hone hI hQ _ hstep => ?_) h
  · obtain ⟨hkeeps, -⟩ := hall
    refine ⟨hkeeps.sound, fun newer e older hlog => told_split hkeeps.told hlog,
      fun a owner o ho => ?_⟩
    rw [hkeeps.tied] at ho
    obtain ⟨row, hrow, hout⟩ := Option.bind_eq_some_iff.mp ho
    unfold look
    simp only [hrow]
    by_cases hsame : row.accountId ≠ owner ∨ row.creditId ≠ a.creditId
    · refine .inr ⟨?_, if_pos hsame⟩
      rintro ⟨row', hrow', hacc, hcredit⟩
      obtain rfl := Option.some.inj hrow'
      exact hsame.elim (fun h => h hacc) fun h => h hcredit
    · refine .inl ?_
      rw [if_neg hsame]
      simp only [hout]
  · subst hx
    exact ⟨⟨hfile, trivial, fun _ => rfl⟩, trivial⟩
  · obtain ⟨hkeeps, hright⟩ := next_keeps hstep hI (hQ t)
    refine ⟨hkeeps, hright, fun u hu => ?_⟩
    by_cases hholds : (s.pc u).Holds
    · -- the lock is with `u`, so this thread's step leaves the file
      have hfree : ¬ (s.pc t).Holds := fun ht => hu (hone u t hholds ht)
      obtain ⟨hdisk, -⟩ := next_free hstep hfree
      exact (hQ u).same hdisk
    · exact Place.right_of_free hholds

/-! ### Runs -/

/-- Two rows of two keys, not both open for one account. -/
def Apart (p q : Text × Attempt) : Prop :=
  p.1 ≠ q.1 ∧ ¬ (p.2.outcome = none ∧ q.2.outcome = none ∧ p.2.accountId = q.2.accountId)

instance : DecidableRel Apart := fun _ _ => inferInstanceAs (Decidable (_ ∧ _))

instance : Std.Symm Apart :=
  ⟨fun _ _ h => ⟨h.1.symm, fun hqp => h.2 ⟨hqp.2.1, hqp.1, hqp.2.2.symm⟩⟩⟩

theorem sound_of_apart {rows : Attempts} (h : rows.Pairwise Apart) : Sound rows where
  distinct := List.pairwise_map.mpr (h.imp And.left)
  oneOpen k k' r r' hr hr' hno hno' hacc := by
    by_contra hk
    have happart := h.forall (Assoc.mem_of_get hr) (Assoc.mem_of_get hr') fun he =>
      hk (congrArg Prod.fst he)
    exact happart.2 ⟨hno, hno', hacc⟩

/-- A key by a number of three digits. -/
def keyOf (n : ℕ) : Text :=
  digit (n / 100) :: digit (n / 10) :: digit n :: Text.of "00000-0000-4000-8000-000000000000"

/-- A call for the credit `c` of an account. -/
def call (owner : Text) (n : ℕ) : Ask := ⟨.ok owner, "c", keyOf n, true⟩

def oneCredit : Listing := some [some ⟨"c", "available", "codex_rate_limits", none⟩]

/-- Where a script leads, from a journal. -/
def led (file : Option Journal) (script : List (ℕ × Act)) : Option (Threads Shared Place) :=
  Program.follow next ⟨⟨file, false, []⟩, fun _ => .idle⟩ script

theorem reach_led {file : Option Journal} {script : List (ℕ × Act)} {s : Threads Shared Place}
    (h : led file script = some s) : (desk file).system.Reachable s := by
  have h₀ : (desk file).system.Reachable ⟨⟨file, false, []⟩, fun _ => .idle⟩ :=
    .init ⟨rfl, fun _ => rfl⟩
  exact Program.reach_follow (fun _ _ _ _ _ h => h) script h₀ h fun _ _ _ => trivial

/-- A new attempt, and a second call with its key. -/
def spentTwice : List (ℕ × Act) :=
  [(0, .ask (call "acct" 0)), (0, .lock), (0, .read false), (0, .list 7 (.ok oneCredit) false),
    (0, .send), (0, .reply 8 (.ok (some .reset)) false), (0, .leave),
    (1, .ask (call "acct" 0)), (1, .lock), (1, .read false), (1, .leave)]

/-- The second call is answered what the first was. -/
theorem spent_once_again : ∃ s, led none spentTwice = some s ∧
    s.shared.log = [.answered (keyOf 0) .reset, .answered (keyOf 0) .reset,
      .received (keyOf 0) .reset, .sent "acct" "c" (keyOf 0) [(keyOf 0, ⟨"acct", "c", 7, none⟩)]] ∧
    Event.Follows [] (s.shared.log.drop 1) (.answered (keyOf 0) .reset) := by
  obtain ⟨s, hs, hlog⟩ := Program.follow_to (led none spentTwice)
    (R := fun s => s.shared.log = [.answered (keyOf 0) .reset, .answered (keyOf 0) .reset,
      .received (keyOf 0) .reset, .sent "acct" "c" (keyOf 0) [(keyOf 0, ⟨"acct", "c", 7, none⟩)]])
    (by decide +kernel)
  have hfollows := (spent_once (sound_of_apart .nil) (reach_led hs)).2.1 [] _ _ hlog
  exact ⟨s, hs, hlog, by rw [hlog]; exact hfollows⟩

/-- An attempt that was left open before a hundred others of another account had an outcome. -/
def crowded : Journal where
  attempts := (keyOf 0, ⟨"acct", "c", 0, none⟩) ::
    (List.range 100).map fun n => (keyOf (n + 1), ⟨"other", "c", n + 1, some .reset⟩)

/-- The attempt has its outcome, and its key is used again. -/
def usedAgain : List (ℕ × Act) :=
  [(0, .ask (call "acct" 0)), (0, .lock), (0, .read false), (0, .send),
    (0, .reply 200 (.ok (some .nothing_to_reset)) false), (0, .leave),
    (1, .ask (call "acct" 0)), (1, .lock), (1, .read false), (1, .list 201 (.ok oneCredit) false),
    (1, .send)]

/-- **A key that was answered is sent again** where the journal has forgotten it, which it does
at once with a hundred younger outcomes in it. -/
theorem forgotten_at_once : Sound crowded.attempts ∧
    ∃ s, (desk (some crowded)).system.Reachable s ∧
      ∃ rows older, s.shared.log = .sent "acct" "c" (keyOf 0) rows :: older ∧
        .answered (keyOf 0) .nothing_to_reset ∈ older := by
  refine ⟨sound_of_apart (by decide +kernel), ?_⟩
  obtain ⟨s, hs, hsent, hanswered⟩ := Program.follow_to (led (some crowded) usedAgain)
    (R := fun s => s.shared.log.head? =
        some (.sent "acct" "c" (keyOf 0) s.shared.journal.attempts) ∧
      .answered (keyOf 0) .nothing_to_reset ∈ s.shared.log.tail) (by decide +kernel)
  obtain ⟨older, hlog⟩ := List.head?_eq_some_iff.mp hsent
  rw [hlog] at hanswered
  exact ⟨s, reach_led hs, _, older, hlog, hanswered⟩

end Resets
