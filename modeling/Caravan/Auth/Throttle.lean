import Caravan.Auth.Accounts
import Caravan.Framework.Threads
import Mathlib.Tactic.Linarith

/-!
# The login throttle

`verify_login` counts the wrong passwords of an address in a list `[fails, locked_until]`.
The lists are shared by the threads with no lock: an attempt reads the second number when
it begins, and brings the first up to date after the password's hash, which is slow, in
the list it finds then or in a new one.

While no attempt reads an address's lock between another one's reading and its count, the
fifth wrong password in a row keeps every further one from being checked for a minute
(`throttle_holds`). Nothing keeps attempts apart: what has read the lock in time goes on to
check its password, however many wrong ones were counted since (`all_read_first`).
-/

namespace Auth.Throttle

open Python

/-- `AuthStore.max_fails` -/
def max_fails : ℕ := 5

/-- `AuthStore.lockout_seconds` -/
def lockout_seconds : ℚ := 60

structure Attempt where
  username : Text
  password : Text
  ip : Text

/-- `ip or "?"` -/
def Attempt.key (a : Attempt) : Text := if a.ip = [] then "?" else a.ip

/-- A password that was checked: when its attempt read the clock, and whether it was right. -/
structure Check where
  now : ℚ
  right : Bool

structure State where
  clock : ℚ
  table : Table
  /-- Address to list. -/
  login_fails : Text → Option ℕ
  /-- The lists `[fails, locked_until]`. -/
  lists : ℕ → ℕ × ℚ
  /-- The next list to be made. -/
  next : ℕ
  /-- The address each list was made for. -/
  owner : ℕ → Text
  /-- The passwords checked for an address, the last one first. -/
  log : Text → List Check

namespace State

def setList (x : State) (r : ℕ) (v : ℕ × ℚ) : State :=
  { x with lists := Function.update x.lists r v }

def setEntry (x : State) (key : Text) (r : Option ℕ) : State :=
  { x with login_fails := Function.update x.login_fails key r }

def addCheck (x : State) (key : Text) (c : Check) : State :=
  { x with log := Function.update x.log key (c :: x.log key) }

/-- `[0, 0]` -/
def newList (x : State) (key : Text) : State :=
  { x with
    lists := Function.update x.lists x.next (0, 0)
    owner := Function.update x.owner x.next key
    next := x.next + 1 }

/-- A list that `get` found, or its default `[0, 0]`. -/
def deref (x : State) (r : Option ℕ) : ℕ × ℚ := (r.map x.lists).getD (0, 0)

end State

/-- Where a thread is in `verify_login`. -/
inductive Pc where
  | idle
  /-- It reads the clock next. -/
  | called (a : Attempt)
  /-- `locked_until`: it looks up the address's list next. -/
  | looking (a : Attempt) (now : ℚ)
  /-- It compares the list's second number next. -/
  | found (a : Attempt) (now : ℚ) (r : Option ℕ)
  /-- It selects the account next. -/
  | unlocked (a : Attempt) (now : ℚ)
  /-- It checks the password next. -/
  | selected (a : Attempt) (now : ℚ) (row : Option Account)
  /-- `note_failure`: it looks up the list next. -/
  | wrong (a : Attempt) (now : ℚ)
  /-- It reads the first number next. -/
  | holding (a : Attempt) (now : ℚ) (r : ℕ)
  /-- It writes one more than `n` next. -/
  | adding (a : Attempt) (now : ℚ) (r n : ℕ)
  /-- It compares the first number next. -/
  | added (a : Attempt) (now : ℚ) (r : ℕ)
  /-- It writes the lock next. -/
  | locking (a : Attempt) (now : ℚ) (r : ℕ)
  /-- It puts the list back next. -/
  | putting (a : Attempt) (now : ℚ) (r : ℕ)
  /-- `note_success`: it takes the list out next. -/
  | right (a : Attempt) (row : Account)

inductive Label where
  | tick
  | go
  /-- A password is checked. -/
  | check (key : Text)
  | answer (v : Except Ports.AppError (ℤ × Text))

/-- `password_matches`, where there is such an account. -/
def passwordOk (passwordMatches : Text → Secret → Bool) (a : Attempt) : Option Account → Bool
  | none => false
  | some row => passwordMatches a.password row.secret

section

-- whether a password has the hash
variable (passwordMatches : Text → Secret → Bool)

/-- One step of a thread. -/
inductive Step (x : State) : Pc → Label → State → Pc → Prop where
  | tick {p : Pc} {d : ℚ} : 0 ≤ d → Step x p .tick { x with clock := x.clock + d } p
  /-- Another call writes the accounts. -/
  | accounts {p : Pc} (t : Table) : Step x p .tick { x with table := t } p
  | call (a : Attempt) : Step x .idle .go x (.called a)
  | now {a : Attempt} : Step x (.called a) .go x (.looking a x.clock)
  | look {a : Attempt} {now : ℚ} :
    Step x (.looking a now) .go x (.found a now (x.login_fails a.key))
  | tooMany {a : Attempt} {now : ℚ} {r : Option ℕ} : now < (x.deref r).2 →
    Step x (.found a now r)
      (.answer (.error ⟨"too many attempts — try again in a minute", 429⟩)) x .idle
  | notLocked {a : Attempt} {now : ℚ} {r : Option ℕ} : (x.deref r).2 ≤ now →
    Step x (.found a now r) .go x (.unlocked a now)
  | select {a : Attempt} {now : ℚ} :
    Step x (.unlocked a now) .go x (.selected a now (x.table.find? a.username.strip))
  /-- The database does not answer. -/
  | unanswered {a : Attempt} {now : ℚ} : Step x (.unlocked a now) .go x .idle
  | checkRight {a : Attempt} {now : ℚ} {row : Account} :
    passwordOk passwordMatches a (some row) = true →
    Step x (.selected a now (some row)) (.check a.key) (x.addCheck a.key ⟨now, true⟩)
      (.right a row)
  | checkWrong {a : Attempt} {now : ℚ} {row : Option Account} :
    passwordOk passwordMatches a row = false →
    Step x (.selected a now row) (.check a.key) (x.addCheck a.key ⟨now, false⟩) (.wrong a now)
  | getOld {a : Attempt} {now : ℚ} {r : ℕ} : x.login_fails a.key = some r →
    Step x (.wrong a now) .go x (.holding a now r)
  | getNew {a : Attempt} {now : ℚ} : x.login_fails a.key = none →
    Step x (.wrong a now) .go (x.newList a.key) (.holding a now x.next)
  | read {a : Attempt} {now : ℚ} {r : ℕ} :
    Step x (.holding a now r) .go x (.adding a now r (x.lists r).1)
  | add {a : Attempt} {now : ℚ} {r n : ℕ} :
    Step x (.adding a now r n) .go (x.setList r (n + 1, (x.lists r).2)) (.added a now r)
  | reaches {a : Attempt} {now : ℚ} {r : ℕ} : max_fails ≤ (x.lists r).1 →
    Step x (.added a now r) .go x (.locking a now r)
  | stays {a : Attempt} {now : ℚ} {r : ℕ} : (x.lists r).1 < max_fails →
    Step x (.added a now r) .go x (.putting a now r)
  | lock {a : Attempt} {now : ℚ} {r : ℕ} :
    Step x (.locking a now r) .go (x.setList r (0, now + lockout_seconds)) (.putting a now r)
  | put {a : Attempt} {now : ℚ} {r : ℕ} :
    Step x (.putting a now r) (.answer (.error ⟨"invalid username or password", 401⟩))
      (x.setEntry a.key (some r)) .idle
  | pop {a : Attempt} {row : Account} :
    Step x (.right a row) (.answer (.ok (row.id, row.username))) (x.setEntry a.key none) .idle

/-- Any number of attempts, from any addresses, with nothing counted yet. -/
def login : Program State Pc Label where
  init x := (∀ key, x.login_fails key = none) ∧ ∀ key, x.log key = []
  start := .idle
  step := Step passwordMatches

end

/-! ### What the throttle owes -/

/-- The wrong passwords since the last right one or the last lockout; and when the attempt
came that brought that lockout on, unless a right one came since. -/
def tally : List Check → ℕ × Option ℚ
  | [] => (0, none)
  | c :: older =>
    if c.right then (0, none)
    else if max_fails ≤ (tally older).1 + 1 then (0, some c.now)
    else ((tally older).1 + 1, (tally older).2)

/-- The address of an attempt that has looked up its lock and not counted yet. -/
def Pc.inside : Pc → Option Text
  | .idle | .called _ | .looking .. => none
  | .found a .. | .unlocked a .. | .selected a .. | .wrong a .. | .holding a .. | .adding a ..
  | .added a .. | .locking a .. | .putting a .. | .right a .. => some a.key

/-- No attempt looks up its address's lock while another one of that address is between
its look and its count. -/
def Apart (s : Threads State Pc) (e : ℕ × Label) : Prop :=
  e.2 = .go → ∀ a now, s.pc e.1 = .looking a now → ∀ u, u ≠ e.1 → (s.pc u).inside ≠ some a.key

/-! ### The invariant -/

/-- The two numbers that stand for what was counted. -/
def shown (c : ℕ × Option ℚ) : ℕ × ℚ := (c.1, (c.2.map (· + lockout_seconds)).getD 0)

/-- The list of an address shows what was counted. -/
def Shows (x : State) (key : Text) (older : List Check) : Prop :=
  x.deref (x.login_fails key) = shown (tally older)

/-- The list was made for the address. -/
def Held (x : State) (key : Text) (r : ℕ) : Prop := r < x.next ∧ x.owner r = key

/-- The address was not locked when an attempt of it read the clock. -/
structure Unlocked (x : State) (key : Text) (now : ℚ) : Prop where
  clock : now ≤ x.clock
  shows : Shows x key (x.log key)
  past : (shown (tally (x.log key))).2 ≤ now

/-- What an attempt knows at each of its places; `older` are the checks before its own. -/
def Knows (x : State) : Pc → Prop
  | .idle | .called _ => True
  | .looking _ now => now ≤ x.clock
  | .found a now r => now ≤ x.clock ∧ r = x.login_fails a.key ∧ Shows x a.key (x.log a.key)
  | .unlocked a now | .selected a now _ => Unlocked x a.key now
  | .wrong a now => ∃ older, x.log a.key = ⟨now, false⟩ :: older ∧ Shows x a.key older
  | .holding a now r => ∃ older, x.log a.key = ⟨now, false⟩ :: older ∧ Held x a.key r ∧
      x.lists r = shown (tally older)
  | .adding a now r n => ∃ older, x.log a.key = ⟨now, false⟩ :: older ∧ Held x a.key r ∧
      x.lists r = shown (tally older) ∧ n = (tally older).1
  | .added a now r => ∃ older, x.log a.key = ⟨now, false⟩ :: older ∧ Held x a.key r ∧
      x.lists r = ((tally older).1 + 1, (shown (tally older)).2)
  | .locking a now r => ∃ older, x.log a.key = ⟨now, false⟩ :: older ∧ Held x a.key r ∧
      max_fails ≤ (tally older).1 + 1
  | .putting a _ r => Held x a.key r ∧ x.lists r = shown (tally (x.log a.key))
  | .right a _ => ∃ now older, x.log a.key = ⟨now, true⟩ :: older

/-- The lists, the counts and the attempts are in step. -/
structure Inv (s : Threads State Pc) : Prop where
  owned : ∀ key r, s.shared.login_fails key = some r → Held s.shared key r
  rest : ∀ key, (∀ u, (s.pc u).inside ≠ some key) → Shows s.shared key (s.shared.log key)
  knows : ∀ u, Knows s.shared (s.pc u)
  alone : ∀ u v key, u ≠ v → (s.pc u).inside = some key → (s.pc v).inside ≠ some key

/-- What the state says of an address stays; lists may be made. -/
structure Same (x x' : State) (key : Text) : Prop where
  clock : x.clock ≤ x'.clock
  entry : x'.login_fails key = x.login_fails key
  log : x'.log key = x.log key
  held : ∀ r, Held x key r → Held x' key r ∧ x'.lists r = x.lists r

theorem Shows.same {x x' : State} {key : Text} {older : List Check} (h : Shows x key older)
    (hs : Same x x' key) (ho : ∀ r, x.login_fails key = some r → Held x key r) :
    Shows x' key older := by
  have hderef : x'.deref (x'.login_fails key) = x.deref (x.login_fails key) := by
    rw [hs.entry]
    cases hr : x.login_fails key with
    | none => rfl
    | some r => exact (hs.held r (ho r hr)).2
  exact hderef.trans h

theorem Unlocked.same {x x' : State} {key : Text} {now : ℚ} (h : Unlocked x key now)
    (hc : x.clock ≤ x'.clock) (hs : Same x x' key)
    (ho : ∀ r, x.login_fails key = some r → Held x key r) : Unlocked x' key now := by
  refine ⟨h.clock.trans hc, ?_, ?_⟩
  · rw [hs.log]
    exact h.shows.same hs ho
  · rw [hs.log]
    exact h.past

/-- Another attempt's step. -/
theorem Knows.same {x x' : State} {p : Pc} (h : Knows x p) (hc : x.clock ≤ x'.clock)
    (hs : ∀ key, p.inside = some key → Same x x' key)
    (ho : ∀ key r, x.login_fails key = some r → Held x key r) : Knows x' p := by
  cases p with
  | idle | called a => trivial
  | looking a now => exact h.trans hc
  | found a now r =>
    have hsame := hs _ rfl
    obtain ⟨hnow, hr, hshows⟩ := h
    refine ⟨hnow.trans hc, hr.trans hsame.entry.symm, ?_⟩
    rw [hsame.log]
    exact hshows.same hsame (ho _)
  | unlocked a now => exact Unlocked.same h hc (hs _ rfl) (ho _)
  | selected a now row => exact Unlocked.same h hc (hs _ rfl) (ho _)
  | wrong a now =>
    have hsame := hs _ rfl
    obtain ⟨older, hlog, hshows⟩ := h
    exact ⟨older, hsame.log.trans hlog, hshows.same hsame (ho _)⟩
  | holding a now r =>
    have hsame := hs _ rfl
    obtain ⟨older, hlog, hheld, hlist⟩ := h
    exact ⟨older, hsame.log.trans hlog, (hsame.held r hheld).1, (hsame.held r hheld).2.trans hlist⟩
  | adding a now r n =>
    have hsame := hs _ rfl
    obtain ⟨older, hlog, hheld, hlist, hn⟩ := h
    exact ⟨older, hsame.log.trans hlog, (hsame.held r hheld).1,
      (hsame.held r hheld).2.trans hlist, hn⟩
  | added a now r =>
    have hsame := hs _ rfl
    obtain ⟨older, hlog, hheld, hlist⟩ := h
    exact ⟨older, hsame.log.trans hlog, (hsame.held r hheld).1, (hsame.held r hheld).2.trans hlist⟩
  | locking a now r =>
    have hsame := hs _ rfl
    obtain ⟨older, hlog, hheld, hmax⟩ := h
    exact ⟨older, hsame.log.trans hlog, (hsame.held r hheld).1, hmax⟩
  | putting a now r =>
    have hsame := hs _ rfl
    obtain ⟨hheld, hlist⟩ := h
    refine ⟨(hsame.held r hheld).1, ?_⟩
    rw [hsame.log]
    exact (hsame.held r hheld).2.trans hlist
  | right a row =>
    have hsame := hs _ rfl
    obtain ⟨now, older, hlog⟩ := h
    exact ⟨now, older, hsame.log.trans hlog⟩

/-- **One attempt moves.** It leaves what the state says of the other addresses; where it
comes to an address, nobody is there; and where it leaves one, the list shows the count. -/
theorem Inv.move {s s' : Threads State Pc} {t : ℕ} {p p' : Pc} {x' : State} (h : Inv s)
    (m : Program.Moves s s' t p x' p') (hc : s.shared.clock ≤ x'.clock)
    (howned : ∀ key r, x'.login_fails key = some r → Held x' key r)
    (hsame : ∀ key, p.inside ≠ some key → Same s.shared x' key) (hself : Knows x' p')
    (hin : ∀ key, p'.inside = some key → p.inside ≠ some key →
      ∀ u, u ≠ t → (s.pc u).inside ≠ some key)
    (hout : ∀ key, p.inside = some key → p'.inside ≠ some key → Shows x' key (x'.log key)) :
    Inv s' := by
  obtain ⟨rfl, rfl, rfl, hframe⟩ := m
  -- two attempts of one address were two before, or one of them has just come
  have hmeet (u : ℕ) (key : Text) (hu : u ≠ t) (ht : (s'.pc t).inside = some key) :
      (s'.pc u).inside ≠ some key := by
    rw [hframe u hu]
    by_cases hwas : (s.pc t).inside = some key
    · exact h.alone t u key hu.symm hwas
    · exact hin key ht hwas u hu
  refine ⟨howned, fun key hnobody => ?_, fun u => ?_, fun u v key huv hu hv => ?_⟩
  · by_cases hwas : (s.pc t).inside = some key
    · exact hout key hwas (hnobody t)
    · have hrest : ∀ u, (s.pc u).inside ≠ some key := by
        intro u
        by_cases hu : u = t
        · rw [hu]
          exact hwas
        · exact hframe u hu ▸ hnobody u
      rw [(hsame key hwas).log]
      exact (h.rest key hrest).same (hsame key hwas) (h.owned key)
  · by_cases hu : u = t
    · rw [hu]
      exact hself
    · rw [hframe u hu]
      exact (h.knows u).same hc
        (fun key hkey => hsame key (h.alone u t key hu hkey)) h.owned
  · by_cases hut : u = t
    · rw [hut] at hu huv
      exact hmeet v key huv.symm hu hv
    · by_cases hvt : v = t
      · rw [hvt] at hv
        exact hmeet u key hut hv hu
      · rw [hframe u hut] at hu
        rw [hframe v hvt] at hv
        exact h.alone u v key huv hu hv

theorem Same.refl (x : State) (key : Text) : Same x x key :=
  ⟨le_refl _, rfl, rfl, fun _ hr => ⟨hr, rfl⟩⟩

theorem same_setList {x : State} {key key' : Text} {r : ℕ} (hr : Held x key r)
    (hne : key' ≠ key) (v : ℕ × ℚ) : Same x (x.setList r v) key' := by
  refine ⟨le_refl _, rfl, rfl, fun r' hr' => ⟨hr', ?_⟩⟩
  have hne' : r' ≠ r := fun heq => hne (hr'.2.symm.trans (heq ▸ hr.2))
  exact Function.update_of_ne hne' _ _

theorem same_setEntry {x : State} {key key' : Text} (hne : key' ≠ key) (r : Option ℕ) :
    Same x (x.setEntry key r) key' :=
  ⟨le_refl _, Function.update_of_ne hne _ _, rfl, fun _ hr => ⟨hr, rfl⟩⟩

theorem same_addCheck {x : State} {key key' : Text} (hne : key' ≠ key) (c : Check) :
    Same x (x.addCheck key c) key' :=
  ⟨le_refl _, rfl, Function.update_of_ne hne _ _, fun _ hr => ⟨hr, rfl⟩⟩

theorem held_newList {x : State} {key key' : Text} {r : ℕ} (hr : Held x key' r) :
    Held (x.newList key) key' r ∧ (x.newList key).lists r = x.lists r := by
  have hne : r ≠ x.next := Nat.ne_of_lt hr.1
  refine ⟨⟨Nat.lt_succ_of_lt hr.1, ?_⟩, Function.update_of_ne hne _ _⟩
  exact (Function.update_of_ne hne _ _).trans hr.2

theorem same_newList {x : State} (key key' : Text) : Same x (x.newList key) key' :=
  ⟨le_refl _, rfl, rfl, fun _ hr => held_newList hr⟩

@[simp] theorem setList_lists (x : State) (r : ℕ) (v : ℕ × ℚ) : (x.setList r v).lists r = v :=
  Function.update_self ..

@[simp] theorem setEntry_login_fails (x : State) (key : Text) (r : Option ℕ) :
    (x.setEntry key r).login_fails key = r :=
  Function.update_self ..

@[simp] theorem addCheck_log (x : State) (key : Text) (c : Check) :
    (x.addCheck key c).log key = c :: x.log key :=
  Function.update_self ..

/-! ### The steps -/

variable {passwordMatches : Text → Secret → Bool}

theorem Inv.initial {s : Threads State Pc} (h : (login passwordMatches).system.init s) :
    Inv s := by
  obtain ⟨⟨hempty, hlog⟩, hidle⟩ := h
  refine ⟨fun key r hr => ?_, fun key _ => ?_, fun u => ?_, fun u v key _ hu => ?_⟩
  · rw [hempty] at hr
    cases hr
  · unfold Shows
    rw [hempty, hlog]
    rfl
  · rw [hidle u]
    trivial
  · rw [hidle u] at hu
    cases hu

/-- A step within an address, or outside all of them. -/
theorem Inv.within {s s' : Threads State Pc} {t : ℕ} {p p' : Pc} {x' : State} (h : Inv s)
    (m : Program.Moves s s' t p x' p') (hin : p'.inside = p.inside)
    (hc : s.shared.clock ≤ x'.clock)
    (howned : ∀ key r, x'.login_fails key = some r → Held x' key r)
    (hsame : ∀ key, p.inside ≠ some key → Same s.shared x' key) (hself : Knows x' p') :
    Inv s' := by
  refine h.move m hc howned hsame hself (fun key hnow hwas => ?_) fun key hwas hnow => ?_
  · exact absurd (hin.symm.trans hnow) hwas
  · exact absurd (hin.trans hwas) hnow

/-- One that leaves the shared state. -/
theorem Inv.reads {s s' : Threads State Pc} {t : ℕ} {p p' : Pc} (h : Inv s)
    (m : Program.Moves s s' t p s.shared p') (hin : p'.inside = p.inside)
    (hself : Knows s.shared p') : Inv s' :=
  h.within m hin (le_refl _) h.owned (fun _ _ => Same.refl _ _) hself

/-- The last step within an address. -/
theorem Inv.leaves {s s' : Threads State Pc} {t : ℕ} {key : Text} {p : Pc} {x' : State}
    (h : Inv s) (m : Program.Moves s s' t p x' .idle) (hwas : p.inside = some key)
    (howned : ∀ key r, x'.login_fails key = some r → Held x' key r)
    (hsame : ∀ key', p.inside ≠ some key' → Same s.shared x' key')
    (hc : s.shared.clock ≤ x'.clock) (hshows : Shows x' key (x'.log key)) : Inv s' := by
  refine h.move m hc howned hsame trivial (fun key' hnow _ => nomatch hnow) fun key' hwas' _ => ?_
  have heq : key = key' := Option.some.inj (hwas.symm.trans hwas')
  exact heq ▸ hshows

theorem owned_setEntry {x : State} {key : Text} {r : Option ℕ}
    (h : ∀ key r, x.login_fails key = some r → Held x key r) (hr : ∀ r', r = some r' → Held x key r')
    (key' : Text) (r' : ℕ) (hentry : (x.setEntry key r).login_fails key' = some r') :
    Held (x.setEntry key r) key' r' := by
  unfold State.setEntry at hentry
  by_cases hkey : key' = key
  · rw [hkey] at hentry ⊢
    simp only [Function.update_self] at hentry
    exact hr r' hentry
  · simp only [Function.update_of_ne hkey] at hentry
    exact h key' r' hentry

/-- What a wrong password comes to. -/
theorem tally_wrong (now : ℚ) (older : List Check) :
    tally (⟨now, false⟩ :: older) = if max_fails ≤ (tally older).1 + 1 then (0, some now)
      else ((tally older).1 + 1, (tally older).2) := by
  rw [tally, if_neg Bool.false_ne_true]

theorem Inv.step {s s' : Threads State Pc} {e : ℕ × Label} (h : Inv s) (hok : Apart s e)
    (hs : (login passwordMatches).system.step s e s') : Inv s' := by
  obtain ⟨t, l⟩ := e
  obtain ⟨p, x', p', hs, m⟩ := Program.step_moves hs
  have hq : Knows s.shared p := m.before ▸ h.knows t
  -- the addresses that a write leaves are those the attempt is not from
  have hother {a : Attempt} {key : Text} (hne : some a.key ≠ some key) : key ≠ a.key :=
    fun heq => hne (congrArg some heq.symm)
  cases hs with
  | @tick _ d hd =>
    have hc : s.shared.clock ≤ s.shared.clock + d := by linarith
    have hsame (key : Text) : Same s.shared { s.shared with clock := s.shared.clock + d } key :=
      ⟨hc, rfl, rfl, fun _ hr => ⟨hr, rfl⟩⟩
    exact h.within m rfl hc h.owned (fun key _ => hsame key)
      (hq.same hc (fun key _ => hsame key) h.owned)
  | accounts tbl =>
    have hsame (key : Text) : Same s.shared { s.shared with table := tbl } key :=
      ⟨le_refl _, rfl, rfl, fun _ hr => ⟨hr, rfl⟩⟩
    exact h.within m rfl (le_refl _) h.owned (fun key _ => hsame key)
      (hq.same (le_refl _) (fun key _ => hsame key) h.owned)
  | call a => exact h.reads m rfl trivial
  | now => exact h.reads m rfl (le_refl _)
  | @look a now =>
    have hnobody : ∀ u, (s.pc u).inside ≠ some a.key := by
      intro u
      by_cases hu : u = t
      · rw [hu, m.before]
        exact Option.some_ne_none _ ∘ Eq.symm
      · exact hok rfl a now m.before u hu
    refine h.move m (le_refl _) h.owned (fun key _ => Same.refl _ key)
      ⟨hq, rfl, h.rest a.key hnobody⟩ (fun key hnow _ u _ => ?_) fun key hwas => by cases hwas
    exact Option.some.inj hnow ▸ hnobody u
  | @tooMany a now r hlocked =>
    exact h.leaves m rfl h.owned (fun key _ => Same.refl _ key) (le_refl _) hq.2.2
  | @notLocked a now r hopen =>
    obtain ⟨hnow, hr, hshows⟩ := hq
    rw [hr, hshows] at hopen
    exact h.reads m rfl ⟨hnow, hshows, hopen⟩
  | select => exact h.reads m rfl hq
  | @unanswered a now =>
    exact h.leaves m rfl h.owned (fun key _ => Same.refl _ key) (le_refl _) hq.shows
  | @checkRight a now row hright =>
    exact h.within m rfl (le_refl _) h.owned (fun key hne => same_addCheck (hother hne) _)
      ⟨now, _, addCheck_log ..⟩
  | @checkWrong a now row hwrong =>
    exact h.within m rfl (le_refl _) h.owned (fun key hne => same_addCheck (hother hne) _)
      ⟨_, addCheck_log .., hq.shows⟩
  | @getOld a now r hr =>
    obtain ⟨older, hlog, hshows⟩ := hq
    unfold Shows at hshows
    rw [hr] at hshows
    exact h.reads m rfl ⟨older, hlog, h.owned _ _ hr, hshows⟩
  | @getNew a now hnone =>
    obtain ⟨older, hlog, hshows⟩ := hq
    unfold Shows at hshows
    rw [hnone] at hshows
    exact h.within m rfl (le_refl _) (fun key r hr => (held_newList (h.owned key r hr)).1)
      (fun key _ => same_newList _ key)
      ⟨older, hlog, ⟨Nat.lt_succ_self _, Function.update_self ..⟩,
        (Function.update_self ..).trans hshows⟩
  | @read a now r =>
    obtain ⟨older, hlog, hheld, hlist⟩ := hq
    exact h.reads m rfl ⟨older, hlog, hheld, hlist, congrArg Prod.fst hlist⟩
  | @add a now r n =>
    obtain ⟨older, hlog, hheld, hlist, hn⟩ := hq
    refine h.within m rfl (le_refl _) h.owned
      (fun key hne => same_setList hheld (hother hne) _) ⟨older, hlog, hheld, ?_⟩
    rw [setList_lists, hlist, hn]
  | @reaches a now r hmax =>
    obtain ⟨older, hlog, hheld, hlist⟩ := hq
    rw [hlist] at hmax
    exact h.reads m rfl ⟨older, hlog, hheld, hmax⟩
  | @stays a now r hmax =>
    obtain ⟨older, hlog, hheld, hlist⟩ := hq
    rw [hlist] at hmax
    refine h.reads m rfl ⟨hheld, ?_⟩
    rw [hlist, hlog, tally_wrong, if_neg (Nat.not_le_of_lt hmax)]
    rfl
  | @lock a now r =>
    obtain ⟨older, hlog, hheld, hmax⟩ := hq
    have htally : tally (s.shared.log a.key) = (0, some now) := by
      rw [hlog, tally_wrong, if_pos hmax]
    refine h.within m rfl (le_refl _) h.owned
      (fun key hne => same_setList hheld (hother hne) _) ⟨hheld, ?_⟩
    have hlog' : (s.shared.setList r (0, now + lockout_seconds)).log = s.shared.log := rfl
    rw [setList_lists, hlog', htally]
    rfl
  | @put a now r =>
    obtain ⟨hheld, hlist⟩ := hq
    refine h.leaves m rfl (owned_setEntry h.owned fun r' hr' => Option.some.inj hr' ▸ hheld)
      (fun key hne => same_setEntry (hother hne) _) (le_refl _) ?_
    unfold Shows
    rw [setEntry_login_fails]
    exact hlist
  | @pop a row =>
    obtain ⟨now, older, hlog⟩ := hq
    have hlog' : (s.shared.setEntry a.key none).log = s.shared.log := rfl
    refine h.leaves m rfl (owned_setEntry h.owned fun r' hr' => by cases hr')
      (fun key hne => same_setEntry (hother hne) _) (le_refl _) ?_
    unfold Shows
    rw [setEntry_login_fails, hlog', hlog]
    rfl

/-- **The throttle holds.** Where no attempt looks up its lock while another one of its
address is on its way, a password is checked a minute or more after the attempt that
brought the last lockout on, if no right password came since. -/
theorem throttle_holds {s s' : Threads State Pc} {t : ℕ} {key : Text} {lockedAt : ℚ}
    (h : System.Reach (login passwordMatches).system Apart s)
    (hs : (login passwordMatches).system.step s (t, .check key) s')
    (hlocked : (tally (s.shared.log key)).2 = some lockedAt) :
    lockedAt + lockout_seconds ≤ s.shared.clock := by
  have hinv : Inv s := h.invariant (fun s => Inv.initial) fun s e s' h hok hs => h.step hok hs
  have hq := hinv.knows t
  obtain ⟨hs, -⟩ := hs
  dsimp only at hs
  have hunlocked (now : ℚ) (hu : Unlocked s.shared key now) :
      lockedAt + lockout_seconds ≤ s.shared.clock := by
    have hpast := hu.past
    unfold shown at hpast
    rw [hlocked] at hpast
    exact (show lockedAt + lockout_seconds ≤ now from hpast).trans hu.clock
  generalize s.pc t = q at hs hq
  generalize s'.shared = x' at hs
  generalize s'.pc t = q' at hs
  cases hs with
  | checkRight hright => exact hunlocked _ hq
  | checkWrong hwrong => exact hunlocked _ hq

/-! ### Attempts that read the lock first -/

/-- A password that no account has. -/
def guess : Attempt := ⟨"root", "password", ""⟩

/-- No password is any account's. -/
def never (_ : Text) (_ : Secret) : Bool := false

theorem passwordOk_never (a : Attempt) (row : Option Account) : passwordOk never a row = false := by
  cases row <;> rfl

/-- An attempt up to its check. -/
theorem selected_run {x : State} (h : (x.deref (x.login_fails guess.key)).2 ≤ x.clock) :
    (login never).Run x .idle x
      (.selected guess x.clock (x.table.find? guess.username.strip)) :=
  have hidle : (login never).Run x .idle x .idle := .refl
  ((((hidle.step (.call guess)).step .now).step .look).step (.notLocked h)).step .select

/-- What the list of an address is after a wrong password. -/
def raised (now : ℚ) (v : ℕ × ℚ) : ℕ × ℚ :=
  if max_fails ≤ v.1 + 1 then (0, now + lockout_seconds) else (v.1 + 1, v.2)

/-- The count of a wrong password, in a list that is there. -/
theorem count_run (x : State) (now : ℚ) (r : ℕ) :
    ∃ x', (login never).Run x (.holding guess now r) x' .idle ∧ x'.clock = x.clock ∧
      x'.log = x.log ∧ x'.deref (x'.login_fails guess.key) = raised now (x.lists r) := by
  have hadd := (Program.Run.refl (C := login never) (x := x) (p := .holding guess now r)).step
    .read |>.step .add
  by_cases hmax : max_fails ≤ (x.lists r).1 + 1
  · refine ⟨_, ((hadd.step (.reaches ?_)).step .lock).step .put, rfl, rfl, ?_⟩
    · rw [setList_lists]
      exact hmax
    · rw [setEntry_login_fails, raised, if_pos hmax]
      exact setList_lists ..
  · refine ⟨_, (hadd.step (.stays ?_)).step .put, rfl, rfl, ?_⟩
    · rw [setList_lists]
      exact Nat.lt_of_not_le hmax
    · rw [setEntry_login_fails, raised, if_neg hmax]
      exact setList_lists ..

/-- A whole attempt with a wrong password, where the address is not locked. -/
theorem wrong_run {x : State} (h : (x.deref (x.login_fails guess.key)).2 ≤ x.clock) :
    ∃ x', (login never).Run x .idle x' .idle ∧ x'.clock = x.clock ∧
      x'.log guess.key = ⟨x.clock, false⟩ :: x.log guess.key ∧
      x'.deref (x'.login_fails guess.key) =
        raised x.clock (x.deref (x.login_fails guess.key)) := by
  have hchecked := (selected_run h).step (.checkWrong (passwordOk_never ..))
  cases hr : x.login_fails guess.key with
  | some r =>
    obtain ⟨x', hcount, hclock, hlog, hlist⟩ := count_run
      (x.addCheck guess.key ⟨x.clock, false⟩) x.clock r
    refine ⟨x', (hchecked.step (.getOld hr)).trans hcount, hclock, ?_, hlist⟩
    rw [hlog, addCheck_log]
  | none =>
    obtain ⟨x', hcount, hclock, hlog, hlist⟩ := count_run
      ((x.addCheck guess.key ⟨x.clock, false⟩).newList guess.key) x.clock x.next
    refine ⟨x', (hchecked.step (.getNew hr)).trans hcount, hclock, ?_, ?_⟩
    · have hlog' : ((x.addCheck guess.key ⟨x.clock, false⟩).newList guess.key).log =
        (x.addCheck guess.key ⟨x.clock, false⟩).log := rfl
      rw [hlog, hlog', addCheck_log]
    · have hnew : ((x.addCheck guess.key ⟨x.clock, false⟩).newList guess.key).lists x.next =
        (0, 0) := Function.update_self ..
      rw [hlist, hnew]
      rfl

/-- Nothing is counted. -/
def fresh : State where
  clock := 0
  table := ⟨[], List.nodup_nil, List.nodup_nil⟩
  login_fails _ := none
  lists _ := (0, 0)
  next := 0
  owner _ := []
  log _ := []

/-- Five wrong passwords in a row lock the address. -/
theorem five_run : ∃ x, (login never).Run fresh .idle x .idle ∧ x.clock = 0 ∧
    (tally (x.log guess.key)).2 = some 0 ∧
    x.deref (x.login_fails guess.key) = (0, lockout_seconds) := by
  have hopen : (fresh.deref (fresh.login_fails guess.key)).2 ≤ fresh.clock := le_refl _
  obtain ⟨x₁, h₁, hc₁, hl₁, hd₁⟩ := wrong_run hopen
  have hd₁' : x₁.deref (x₁.login_fails guess.key) = (1, 0) := by
    rw [hd₁]
    rfl
  obtain ⟨x₂, h₂, hc₂, hl₂, hd₂⟩ := wrong_run (x := x₁) (by rw [hd₁', hc₁]; exact le_refl _)
  have hd₂' : x₂.deref (x₂.login_fails guess.key) = (2, 0) := by
    rw [hd₂, hd₁']
    rfl
  obtain ⟨x₃, h₃, hc₃, hl₃, hd₃⟩ := wrong_run (x := x₂) (by rw [hd₂', hc₂, hc₁]; exact le_refl _)
  have hd₃' : x₃.deref (x₃.login_fails guess.key) = (3, 0) := by
    rw [hd₃, hd₂']
    rfl
  obtain ⟨x₄, h₄, hc₄, hl₄, hd₄⟩ :=
    wrong_run (x := x₃) (by rw [hd₃', hc₃, hc₂, hc₁]; exact le_refl _)
  have hd₄' : x₄.deref (x₄.login_fails guess.key) = (4, 0) := by
    rw [hd₄, hd₃']
    rfl
  obtain ⟨x₅, h₅, hc₅, hl₅, hd₅⟩ :=
    wrong_run (x := x₄) (by rw [hd₄', hc₄, hc₃, hc₂, hc₁]; exact le_refl _)
  have hclock : x₄.clock = 0 := by rw [hc₄, hc₃, hc₂, hc₁]; rfl
  refine ⟨x₅, (((h₁.trans h₂).trans h₃).trans h₄).trans h₅, hc₅.trans hclock, ?_, ?_⟩
  · rw [hl₅, hl₄, hl₃, hl₂, hl₁, hclock]
    rfl
  · rw [hd₅, hd₄', hclock]
    exact congrArg (Prod.mk 0) (zero_add _)

/-- `fresh`, with nobody at the login. -/
def atRest : Threads State Pc := ⟨fresh, fun _ => .idle⟩

theorem atRest_init : (login never).system.init atRest := ⟨⟨fun _ => rfl, fun _ => rfl⟩, fun _ => rfl⟩

theorem apart_only {s : Threads State Pc} {t : ℕ} (h : ∀ u, u ≠ t → s.pc u = .idle) (x : State)
    (p : Pc) (l : Label) : Apart ⟨x, Function.update s.pc t p⟩ (t, l) := by
  intro _ a now _ u hu
  have hidle : Function.update s.pc t p u = .idle := (Function.update_of_ne hu ..).trans (h u hu)
  have hnone : (Function.update s.pc t p u).inside = none := congrArg Pc.inside hidle
  exact hnone.trans_ne nofun

/-- `throttle_holds` where the address was locked at 0 and a password is checked at 60. -/
theorem throttle_holds_sixth : ∃ s s' : Threads State Pc,
    (login never).system.step s (0, .check guess.key) s' ∧
    (tally (s.shared.log guess.key)).2 = some 0 ∧ 0 + lockout_seconds ≤ s.shared.clock := by
  obtain ⟨x, hrun, hclock, htally, hlist⟩ := five_run
  have htick : (login never).step x .idle .tick { x with clock := x.clock + lockout_seconds } .idle :=
    .tick (by norm_num [lockout_seconds])
  have hopen : (State.deref { x with clock := x.clock + lockout_seconds }
      (x.login_fails guess.key)).2 ≤ x.clock + lockout_seconds := by
    have hderef : State.deref { x with clock := x.clock + lockout_seconds }
      (x.login_fails guess.key) = (0, lockout_seconds) := hlist
    rw [hderef, hclock, zero_add]
  have hselected := (hrun.step htick).trans (selected_run hopen)
  have hreach := hselected.reached Apart (t := 0) (.init atRest_init) rfl
    (apart_only fun _ _ => rfl)
  let s : Threads State Pc := ⟨{ x with clock := x.clock + lockout_seconds }, Function.update
    atRest.pc 0 (.selected guess (x.clock + lockout_seconds) (x.table.find? guess.username.strip))⟩
  have hcheck := Program.step_update (C := login never) (s := s) (t := 0) rfl
    (.checkWrong (passwordOk_never ..))
  exact ⟨s, _, hcheck, htally, throttle_holds hreach hcheck htally⟩

/-- **Attempts that read the lock first.** An attempt reads the lock; five others fail, and
the address is locked; the first one's password is checked all the same. -/
theorem all_read_first : ¬ ∀ (s s' : Threads State Pc) (t : ℕ) (key : Text) (lockedAt : ℚ),
    System.Reachable (login never).system s → (login never).system.step s (t, .check key) s' →
    (tally (s.shared.log key)).2 = some lockedAt → lockedAt + lockout_seconds ≤ s.shared.clock := by
  intro h
  obtain ⟨x, hrun, hclock, htally, -⟩ := five_run
  have hopen : (fresh.deref (fresh.login_fails guess.key)).2 ≤ fresh.clock := le_refl _
  have hread := (selected_run hopen).reached (fun _ _ => True) (t := 1)
    (.init atRest_init) rfl fun _ _ _ => trivial
  have hfive := hrun.reached (fun _ _ => True) (t := 0) hread rfl fun _ _ _ => trivial
  have hcheck := Program.step_update (C := login never) (t := 1)
    (s := ⟨x, Function.update (Function.update atRest.pc 1 (.selected guess 0 none)) 0 .idle⟩) rfl
    (.checkWrong (passwordOk_never ..))
  have hlate := h _ _ 1 guess.key 0 hfive hcheck htally
  have hpos : ¬ (0 + lockout_seconds ≤ x.clock) := by
    rw [hclock]
    norm_num [lockout_seconds]
  exact hpos hlate

end Auth.Throttle
