import Caravan.Framework.WaitFor
import Caravan.Vault.Vault

/-!
# The locks of the vault

The vault's calls, as far as they take locks: which one each holds and waits for. A lock is
a file, known by its name: `docLock` for the document, `accountLock` for an account. A
thread that waits for a lock waits for whoever holds it, itself too: each `locked` opens
the file anew, and two open descriptions of one file exclude each other.

An account's lock is taken before the document's, so the waiting never comes round
(`never_deadlocks`), unless the two are one file. They are for the account `write`, an id
the account editor accepts (`write_accepted`): its sign-in waits for the lock it holds.
-/

namespace Vault.Locks

open Python

/-- A call on the vault. -/
inductive Request where
  | putOauth (id : Text)
  | putApiKey (id : Text)
  | delete (id : Text)
  | replace
  | oauth (id : Text)
  deriving DecidableEq

/-- The account a call is about. -/
def Request.id? : Request → Option Text
  | .putOauth id | .putApiKey id | .delete id | .oauth id => some id
  | .replace => none

/-- The account whose lock the call takes first. -/
def Request.account : Request → Option Text
  | .putOauth id | .delete id | .oauth id => some id
  | .putApiKey _ | .replace => none

/-- Where a thread is among the locks of its call. -/
inductive Pc where
  | idle
  /-- It waits for its account's lock. -/
  | wantsAccount (id : Text)
  /-- It holds it; a renewal asks the provider here. -/
  | inAccount (id : Text)
  /-- It waits for the document's lock. -/
  | wantsDoc (account : Option Text)
  /-- It holds that too. -/
  | inDoc (account : Option Text)
  deriving DecidableEq

structure State where
  holder : Text → Option ℕ
  pc : ℕ → Pc

namespace State

def goto (s : State) (t : ℕ) (pc : Pc) : State := { s with pc := Function.update s.pc t pc }

def lock (s : State) (t : ℕ) (name : Text) : State :=
  { s with holder := Function.update s.holder name (some t) }

def unlock (s : State) (name : Text) : State :=
  { s with holder := Function.update s.holder name none }

/-- Every lock of a thread let go. -/
def release (s : State) (t : ℕ) : State :=
  { s with holder := fun name => if s.holder name = some t then none else s.holder name }

end State

/-- Where a call begins. -/
def Request.start (r : Request) : Pc :=
  match r.account with
  | some id => .wantsAccount id
  | none => .wantsDoc none

/-- One step: `some r` where a thread is called with `r`. -/
inductive Step : State → ℕ × Option Request → State → Prop where
  | call {s : State} {t : ℕ} (r : Request) : s.pc t = .idle → Step s (t, some r) (s.goto t r.start)
  | lockAccount {s : State} {t : ℕ} {id : Text} : s.pc t = .wantsAccount id →
    s.holder (accountLock id) = none →
    Step s (t, none) ((s.lock t (accountLock id)).goto t (.inAccount id))
  /-- The call goes on to write. -/
  | goOn {s : State} {t : ℕ} {id : Text} : s.pc t = .inAccount id →
    Step s (t, none) (s.goto t (.wantsDoc (some id)))
  | lockDoc {s : State} {t : ℕ} {account : Option Text} : s.pc t = .wantsDoc account →
    s.holder docLock = none →
    Step s (t, none) ((s.lock t docLock).goto t (.inDoc account))
  /-- The document is written and its lock let go; the account's is held still. -/
  | unlockDoc {s : State} {t : ℕ} {id : Text} : s.pc t = .inDoc (some id) →
    Step s (t, none) ((s.unlock docLock).goto t (.inAccount id))
  /-- The call answers or raises, or its process dies: it lets its locks go. -/
  | leave {s : State} {t : ℕ} : Step s (t, none) ((s.release t).goto t .idle)

/-- The locks, with no call under way. -/
def locking : System State (ℕ × Option Request) where
  init s := (∀ name, s.holder name = none) ∧ ∀ t, s.pc t = .idle
  step := Step

/-- The calls are about accounts of a set. -/
def About (I : Set Text) (_ : State) (e : ℕ × Option Request) : Prop :=
  ∀ r id, e.2 = some r → r.id? = some id → id ∈ I

/-- The lock a thread waits for. -/
def waits (s : State) (t : ℕ) : Option Text :=
  match s.pc t with
  | .wantsAccount id => some (accountLock id)
  | .wantsDoc _ => some docLock
  | _ => none

/-- The waiting comes round. -/
def Deadlock (s : State) : Prop :=
  ∃ t, Relation.TransGen (WaitFor.WaitsFor s.holder (waits s)) t t

/-! ### What the threads hold -/

/-- The locks a thread may hold where it is. -/
def Pc.Holds : Pc → Text → Prop
  | .idle, _ | .wantsAccount _, _ => False
  | .inAccount id, name => name = accountLock id
  | .wantsDoc account, name => ∃ id, account = some id ∧ name = accountLock id
  | .inDoc account, name => name = docLock ∨ ∃ id, account = some id ∧ name = accountLock id

/-- The account whose lock a thread's call takes. -/
def Pc.account : Pc → Option Text
  | .idle => none
  | .wantsAccount id | .inAccount id => some id
  | .wantsDoc account | .inDoc account => account

/-- A thread holds what its place says, for an account of the set. -/
structure Inv (I : Set Text) (s : State) : Prop where
  holds : ∀ name t, s.holder name = some t → (s.pc t).Holds name
  mem : ∀ t id, (s.pc t).account = some id → id ∈ I

variable {I : Set Text}

@[simp] theorem goto_holder (s : State) (t : ℕ) (pc : Pc) : (s.goto t pc).holder = s.holder := rfl

@[simp] theorem goto_pc_self (s : State) (t : ℕ) (pc : Pc) : (s.goto t pc).pc t = pc := by
  unfold State.goto
  exact Function.update_self ..

theorem goto_pc_ne (s : State) {t u : ℕ} (pc : Pc) (h : u ≠ t) : (s.goto t pc).pc u = s.pc u := by
  unfold State.goto
  exact Function.update_of_ne h ..

/-- **One thread moves.** The locks it gains or keeps are those of its new place; the other
threads' locks stay. -/
theorem Inv.goto {s s' : State} {t : ℕ} {pc : Pc} (h : Inv I s) (hpc : s'.pc = s.pc)
    (hself : ∀ name, s'.holder name = some t → pc.Holds name)
    (hothers : ∀ name u, u ≠ t → s'.holder name = some u → s.holder name = some u)
    (hmem : ∀ id, pc.account = some id → id ∈ I) : Inv I (s'.goto t pc) := by
  refine ⟨fun name u hu => ?_, fun u id hid => ?_⟩
  · rw [goto_holder] at hu
    by_cases hut : u = t
    · rw [hut] at hu ⊢
      rw [goto_pc_self]
      exact hself name hu
    · rw [goto_pc_ne s' pc hut, hpc]
      exact h.holds name u (hothers name u hut hu)
  · by_cases hut : u = t
    · rw [hut, goto_pc_self] at hid
      exact hmem id hid
    · rw [goto_pc_ne s' pc hut, hpc] at hid
      exact h.mem u id hid

theorem holder_lock {s : State} {t u : ℕ} {name name' : Text}
    (h : (s.lock t name).holder name' = some u) :
    (name' = name ∧ u = t) ∨ s.holder name' = some u := by
  unfold State.lock at h
  by_cases hn : name' = name
  · rw [hn] at h
    simp only [Function.update_self, Option.some.injEq] at h
    exact .inl ⟨hn, h.symm⟩
  · simp only [Function.update_of_ne hn] at h
    exact .inr h

theorem holder_unlock {s : State} {u : ℕ} {name name' : Text}
    (h : (s.unlock name).holder name' = some u) : name' ≠ name ∧ s.holder name' = some u := by
  unfold State.unlock at h
  by_cases hn : name' = name
  · rw [hn] at h
    simp only [Function.update_self, reduceCtorEq] at h
  · simp only [Function.update_of_ne hn] at h
    exact ⟨hn, h⟩

theorem holder_release {s : State} {t u : ℕ} {name : Text}
    (h : (s.release t).holder name = some u) : u ≠ t ∧ s.holder name = some u := by
  have hdef : (s.release t).holder name = if s.holder name = some t then none else s.holder name :=
    rfl
  rw [hdef] at h
  split at h
  · cases h
  · next hne => exact ⟨fun hut => hne (hut ▸ h), h⟩

theorem Inv.initial {s : State} (h : locking.init s) : Inv I s := by
  obtain ⟨hfree, hidle⟩ := h
  refine ⟨fun name t ht => ?_, fun t id hid => ?_⟩
  · rw [hfree] at ht
    cases ht
  · rw [hidle] at hid
    cases hid

theorem Inv.step {s s' : State} {e : ℕ × Option Request} (h : Inv I s) (hok : About I s e)
    (hs : Step s e s') : Inv I s' := by
  cases hs with
  | @call t r hidle =>
    refine h.goto rfl (fun name hn => ?_) (fun _ _ _ hu => hu) fun id hid => ?_
    -- an idle thread holds nothing
    · have := h.holds name t hn
      rw [hidle] at this
      exact this.elim
    · cases r with
      | putApiKey id' => cases hid
      | replace => cases hid
      | putOauth id' => exact hok _ id rfl hid
      | delete id' => exact hok _ id rfl hid
      | oauth id' => exact hok _ id rfl hid
  | @lockAccount t id hpc hfree =>
    refine h.goto rfl (fun name hn => ?_) (fun name u hut hu => ?_) fun id' hid => ?_
    · cases holder_lock hn with
      | inl hnew => exact hnew.1
      | inr hold =>
        have := h.holds name t hold
        rw [hpc] at this
        exact this.elim
    · exact (holder_lock hu).resolve_left fun hnew => hut hnew.2
    · exact h.mem t id' (hpc ▸ hid)
  | @goOn t id hpc =>
    refine h.goto rfl (fun name hn => ?_) (fun _ _ _ hu => hu) fun id' hid => ?_
    · have := h.holds name t hn
      rw [hpc] at this
      exact ⟨id, rfl, this⟩
    · exact h.mem t id' (hpc ▸ hid)
  | @lockDoc t account hpc hfree =>
    refine h.goto rfl (fun name hn => ?_) (fun name u hut hu => ?_) fun id' hid => ?_
    · cases holder_lock hn with
      | inl hnew => exact .inl hnew.1
      | inr hold =>
        have := h.holds name t hold
        rw [hpc] at this
        exact .inr this
    · exact (holder_lock hu).resolve_left fun hnew => hut hnew.2
    · exact h.mem t id' (hpc ▸ hid)
  | @unlockDoc t id hpc =>
    refine h.goto rfl (fun name hn => ?_) (fun name u _ hu => (holder_unlock hu).2) fun id' hid => ?_
    · obtain ⟨hne, hold⟩ := holder_unlock hn
      have := h.holds name t hold
      rw [hpc] at this
      obtain hdoc | ⟨id', hid', hname⟩ := this
      · exact absurd hdoc hne
      · cases hid'
        exact hname
    · exact h.mem t id' (hpc ▸ hid)
  | @leave t =>
    refine h.goto rfl (fun name hn => ?_) (fun name u _ hu => (holder_release hu).2)
      fun id hid => ?_
    · exact absurd rfl (holder_release hn).1
    · cases hid

/-! ### The order of the locks -/

/-- The document's lock above the accounts'. -/
def rank (name : Text) : ℕ := if name = docLock then 1 else 0

theorem accountLock_eq_docLock {id : Text} : accountLock id = docLock ↔ id = Text.of "write" := by
  have hdoc : docLock = Text.of "." ++ Text.of "write" := by decide
  rw [hdoc]
  exact List.append_right_inj _

/-- Away from the account `write`, every thread waits above what it holds. -/
theorem Inv.ascends {s : State} (h : Inv I s) (hI : Text.of "write" ∉ I) :
    WaitFor.Ascends s.holder (waits s) rank := by
  intro t l l' hl hl'
  have hheld := h.holds l' t hl'
  have hmem := h.mem t
  unfold waits at hl
  cases hpc : s.pc t with
  | idle | inAccount id | inDoc account =>
    rw [hpc] at hl
    cases hl
  -- a thread that waits for its account's lock holds none
  | wantsAccount id =>
    rw [hpc] at hheld
    exact hheld.elim
  | wantsDoc account =>
    rw [hpc] at hl hheld hmem
    cases hl
    obtain ⟨id, hid, hname⟩ := hheld
    have hne : l' ≠ docLock := by
      rw [hname]
      exact fun heq => hI (accountLock_eq_docLock.mp heq ▸ hmem id hid)
    unfold rank
    rw [if_pos rfl, if_neg hne]
    exact Nat.zero_lt_one

/-! ### The account `write` -/

/-- The locks with no call. -/
def atRest : State := ⟨fun _ => none, fun _ => .idle⟩

/-- A sign-in of the account `write`, its account's lock taken. -/
def signingIn : State :=
  ((atRest.goto 0 (.wantsAccount "write")).lock 0 (accountLock "write")).goto 0
    (.inAccount "write")

/-- It goes on to the document's. -/
def stuck : State := signingIn.goto 0 (.wantsDoc (some "write"))

theorem stuck_reached (h : Text.of "write" ∈ I) : System.Reach locking (About I) stuck := by
  have hrest : System.Reach locking (About I) atRest := .init ⟨fun _ => rfl, fun _ => rfl⟩
  have hquiet (s : State) (t : ℕ) : About I s (t, none) := fun r id hr => nomatch hr
  have hcall : Step atRest (0, some (.putOauth "write")) (atRest.goto 0 (.wantsAccount "write")) :=
    .call (.putOauth "write") rfl
  have hlock : Step (atRest.goto 0 (.wantsAccount "write")) (0, none) signingIn :=
    .lockAccount rfl rfl
  have habout : About I atRest (0, some (.putOauth "write")) := by
    intro r id hr hid
    cases hr
    cases hid
    exact h
  exact ((hrest.next hcall habout).next hlock (hquiet _ 0)).next (.goOn rfl) (hquiet _ 0)

/-- It waits for itself. -/
theorem stuck_deadlock : Deadlock stuck :=
  ⟨0, .single ⟨docLock, rfl, by decide⟩⟩

/-- **The vault never deadlocks, but for the account `write`.** -/
theorem never_deadlocks (I : Set Text) :
    (∀ s, System.Reach locking (About I) s → ¬ Deadlock s) ↔ Text.of "write" ∉ I := by
  refine ⟨fun h hI => h stuck (stuck_reached hI) stuck_deadlock, fun hI s hs => ?_⟩
  have hinv : Inv I s := hs.invariant (fun s => Inv.initial) fun s e s' h hok => Inv.step h hok
  rintro ⟨t, hcycle⟩
  exact WaitFor.not_transGen_self (hinv.ascends hI) t hcycle

/-! ### The account editor -/

/-- A character of an account's id. -/
def isIdChar (c : CodePoint) : Bool :=
  (0x41 ≤ c.val && c.val ≤ 0x5A) || (0x61 ≤ c.val && c.val ≤ 0x7A) ||
    (0x30 ≤ c.val && c.val ≤ 0x39) || c ∈ Text.of "_-"

/-- The check of `normalize_cloud_account`: `^[A-Za-z0-9_-]{1,48}$`. -/
def accountIdAccepted (aid : Text) : Bool := aid ≠ [] && aid.length ≤ 48 && aid.all isIdChar

theorem write_accepted : accountIdAccepted "write" = true := by decide

/-- The ids the account editor accepts are not enough to keep the calls from waiting for
themselves. -/
theorem accepted_ids_deadlock :
    ¬ ∀ s, System.Reach locking (About {id | accountIdAccepted id = true}) s → ¬ Deadlock s :=
  fun h => h stuck (stuck_reached write_accepted) stuck_deadlock

end Vault.Locks
