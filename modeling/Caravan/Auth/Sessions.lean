import Caravan.Auth.Accounts
import Caravan.Framework.Threads
import Mathlib.Tactic.Linarith

/-!
# Sessions and their cache

`validate_session` keeps what it found for a session five seconds in `session_cache`, under
the clock it read before it asked the database. The calls that end sessions or change what
an account may do clear the cache too, at different points around their commit; a call
under way may put an old answer back after that.

What an answer is worth is therefore read off its stamp: a kept answer is what some version
of the database said, and every commit after that version came at the stamp or later
(`Seen`). So a call that starts five seconds or more after a commit answers what a version
since that commit says, whatever the cache went through (`revocation_takes_effect`).
-/

namespace Auth.Sessions

open Python Ports

/-- `AuthStore.session_ttl_cache` -/
def session_ttl_cache : ℚ := 5

/-- `AuthStore.session_ttl` -/
def session_ttl : ℤ := 30 * 24 * 3600

/-- A row of `sessions`. -/
structure Session where
  token_hash : Text
  user_id : ℤ
  created_at : ℤ
  expires_at : ℤ
  last_seen : ℤ
  ip : Text
  ua : Text

/-- The accounts database; a token's hash is the key of its session. -/
structure Db where
  users : Table
  sessions : List Session
  keys : (sessions.map Session.token_hash).Nodup

/-- What a session lets its bearer do. -/
structure Info where
  user : Text
  role : Role
  deriving DecidableEq

namespace Db

/-- The SELECT of `validate_session`: the session, and its account. -/
def row (db : Db) (hash : Text) : Option (Session × Account) := do
  let s ← db.sessions.find? fun s => decide (s.token_hash = hash)
  let a ← db.users.rows.find? fun a => decide (a.id = s.user_id)
  some (s, a)

/-- What the database says of a session. -/
def info (db : Db) (hash : Text) : Option Info :=
  (db.row hash).map fun r => ⟨r.2.username, r.2.role⟩

/-- `DELETE FROM sessions WHERE …` -/
def deleteSessions (db : Db) (p : Session → Bool) : Db where
  users := db.users
  sessions := db.sessions.filter fun s => !p s
  keys := db.keys.sublist (List.filter_sublist.map _)

/-- `UPDATE sessions SET last_seen=? WHERE token_hash=?` -/
def touch (db : Db) (hash : Text) (now : ℤ) : Db where
  users := db.users
  sessions := db.sessions.map fun s =>
    if s.token_hash = hash then { s with last_seen := now } else s
  keys := by
    have hmap : (db.sessions.map fun s =>
        if s.token_hash = hash then { s with last_seen := now } else s).map Session.token_hash =
        db.sessions.map Session.token_hash := by
      rw [List.map_map]
      refine List.map_congr_left fun s _ => ?_
      rw [Function.comp_apply]
      split <;> rfl
    rw [hmap]
    exact db.keys

/-- `INSERT INTO sessions` -/
def insert (db : Db) (row : Session) (h : row.token_hash ∉ db.sessions.map Session.token_hash) :
    Db where
  users := db.users
  sessions := db.sessions ++ [row]
  keys := by
    rw [List.map_append]
    exact db.keys.append (List.pairwise_singleton _ _) fun _ h₁ h₂ =>
      h (List.mem_singleton.mp h₂ ▸ h₁)

end Db

theorem mem_deleteSessions {db : Db} {p : Session → Bool} {r : Session} :
    r ∈ (db.deleteSessions p).sessions ↔ r ∈ db.sessions ∧ p r = false := by
  unfold Db.deleteSessions
  simp only [List.mem_filter, Bool.not_eq_true']

/-- What a transaction writes. -/
inductive Write where
  /-- The write of a call on the accounts; a deletion takes the account's sessions along. -/
  | users (todo : Todo)
  /-- `delete_session`, and the two that revoke. -/
  | delete (hashes : List Text)
  /-- `create_session`, which takes what has expired away first. -/
  | create (row : Session)
  | touch (hash : Text) (now : ℤ)

/-- A transaction on the database. -/
inductive Writes (db : Db) : Write → Db → Prop where
  | deleteUser {id : ℤ} {t : Table} : Exec db.users (.delete id) (.commits t) →
    Writes db (.users (.delete id))
      { db.deleteSessions (fun s => decide (s.user_id = id)) with users := t }
  | users {todo : Todo} {t : Table} : Exec db.users todo (.commits t) →
    (∀ id, todo ≠ .delete id) → Writes db (.users todo) { db with users := t }
  | delete (hashes : List Text) :
    Writes db (.delete hashes) (db.deleteSessions fun s => decide (s.token_hash ∈ hashes))
  | create (row : Session) (now : ℤ) (h : row.token_hash ∉
      (db.deleteSessions fun s => decide (s.expires_at < now)).sessions.map Session.token_hash) :
    Writes db (.create row) ((db.deleteSessions fun s => decide (s.expires_at < now)).insert row h)
  | touch (hash : Text) (now : ℤ) : Writes db (.touch hash now) (db.touch hash now)

/-- A transaction that was committed: when, what it wrote, and the database after it. -/
structure Commit where
  time : ℚ
  write : Write
  after : Db

structure State where
  clock : ℚ
  db : Db
  /-- `session_cache` -/
  cache : Text → Option (Info × ℚ)
  /-- The database at the beginning. -/
  first : Db
  /-- The transactions since, the last one first. -/
  commits : List Commit

namespace State

def commit (x : State) (w : Write) (db : Db) : State :=
  { x with db := db, commits := ⟨x.clock, w, db⟩ :: x.commits }

def setCache (x : State) (hash : Text) (v : Option (Info × ℚ)) : State :=
  { x with cache := Function.update x.cache hash v }

end State

/-- Where a thread is. -/
inductive Pc where
  | idle
  /-- `validate_session` began; it reads the clock next. -/
  | called (started : ℚ) (hash : Text)
  /-- It looks into the cache next. -/
  | looking (started : ℚ) (hash : Text) (now : ℚ)
  /-- It asks the database next. -/
  | missed (started : ℚ) (hash : Text) (now : ℚ)
  /-- There is no such session: it forgets it next. -/
  | forgetting (started : ℚ) (hash : Text)
  /-- `last_seen` is old: it brings it up to date next. -/
  | touching (started : ℚ) (hash : Text) (now : ℚ) (info : Info)
  /-- It keeps the answer next. -/
  | caching (started : ℚ) (hash : Text) (now : ℚ) (info : Info)
  | returning (started : ℚ) (hash : Text) (v : Option Info)
  /-- A statement of a call on the accounts is next. -/
  | next (todo : Todo)
  /-- It clears the cache next. -/
  | clearing
  /-- `delete_session` commits next. -/
  | deleting (hash : Text)
  /-- It forgets the session next. -/
  | deleted (hash : Text)
  /-- `revoke_other_sessions` has `rest` to go through; its transaction deletes `killed`. -/
  | revoking (keep : Text) (rest killed : List Text)
  /-- `revoke_session` deletes the session next, and forgets it. -/
  | revokingOne (hash : Text)
  /-- `create_session` commits next. -/
  | creating (row : Session) (now : ℤ)

inductive Label where
  | tick
  | go
  /-- `validate_session` returns `{}`, or what a session lets its bearer do. -/
  | answer (started : ℚ) (hash : Text) (v : Option Info)

/-- Where a call goes when its write is committed; `set_password` clears nothing. -/
def afterCommit : Todo → Pc
  | .updateSecret .. => .idle
  | _ => .clearing

/-- `session_id`: the head of the token's hash. -/
def session_id (token_hash : Text) : Text := token_hash.take 12

section

-- the hash of a token
variable (tokenHash : Text → Text)

/-- One step of a thread. -/
inductive Step (x : State) : Pc → Label → State → Pc → Prop where
  | tick {p : Pc} {d : ℚ} : 0 ≤ d → Step x p .tick { x with clock := x.clock + d } p
  | call (token : Text) : token ≠ [] → Step x .idle .go x (.called x.clock (tokenHash token))
  | now {b : ℚ} {h : Text} : Step x (.called b h) .go x (.looking b h x.clock)
  | cached {b now u : ℚ} {h : Text} {info : Info} : x.cache h = some (info, u) → now < u →
    Step x (.looking b h now) .go x (.returning b h (some info))
  | notCached {b now : ℚ} {h : Text} : (∀ info u, x.cache h = some (info, u) → u ≤ now) →
    Step x (.looking b h now) .go x (.missed b h now)
  | noRow {b now : ℚ} {h : Text} : x.db.row h = none →
    Step x (.missed b h now) .go x (.forgetting b h)
  | expired {b now : ℚ} {h : Text} {r : Session × Account} : x.db.row h = some r →
    r.1.expires_at < now → Step x (.missed b h now) .go x (.forgetting b h)
  | stale {b now : ℚ} {h : Text} {r : Session × Account} : x.db.row h = some r →
    now ≤ r.1.expires_at → 60 < now - r.1.last_seen →
    Step x (.missed b h now) .go x (.touching b h now ⟨r.2.username, r.2.role⟩)
  | live {b now : ℚ} {h : Text} {r : Session × Account} : x.db.row h = some r →
    now ≤ r.1.expires_at → now - r.1.last_seen ≤ 60 →
    Step x (.missed b h now) .go x (.caching b h now ⟨r.2.username, r.2.role⟩)
  | unanswered {b now : ℚ} {h : Text} : Step x (.missed b h now) .go x .idle
  | forget {b : ℚ} {h : Text} :
    Step x (.forgetting b h) .go (x.setCache h none) (.returning b h none)
  | touch {b now : ℚ} {h : Text} {info : Info} {db : Db} : Writes x.db (.touch h now.floor) db →
    Step x (.touching b h now info) .go (x.commit (.touch h now.floor) db)
      (.caching b h now info)
  | notTouched {b now : ℚ} {h : Text} {info : Info} :
    Step x (.touching b h now info) .go x .idle
  | keep {b now : ℚ} {h : Text} {info : Info} : Step x (.caching b h now info) .go
      (x.setCache h (some (info, now + session_ttl_cache))) (.returning b h (some info))
  | answer {b : ℚ} {h : Text} {v : Option Info} :
    Step x (.returning b h v) (.answer b h v) x .idle
  | accounts {c : Call} {secret : Secret} {todo : Todo} : c.begin secret = .ok todo →
    Step x .idle .go x (.next todo)
  | goesOn {todo todo' : Todo} : Exec x.db.users todo (.goesOn todo') →
    Step x (.next todo) .go x (.next todo')
  | commits {todo : Todo} {db : Db} : Writes x.db (.users todo) db →
    Step x (.next todo) .go (x.commit (.users todo) db) (afterCommit todo)
  | clear : Step x .clearing .go { x with cache := fun _ => none } .idle
  | delete (token : Text) : token ≠ [] → Step x .idle .go x (.deleting (tokenHash token))
  | deletes {h : Text} {db : Db} : Writes x.db (.delete [h]) db →
    Step x (.deleting h) .go (x.commit (.delete [h]) db) (.deleted h)
  | forgets {h : Text} : Step x (.deleted h) .go (x.setCache h none) .idle
  | revokeOthers (token : Text) : Step x .idle .go x
      (.revoking (if token = [] then [] else tokenHash token)
        (x.db.sessions.map Session.token_hash) [])
  | keeps {keep : Text} {rest killed : List Text} :
    Step x (.revoking keep (keep :: rest) killed) .go x (.revoking keep rest killed)
  | kills {keep th : Text} {rest killed : List Text} : th ≠ keep →
    Step x (.revoking keep (th :: rest) killed) .go (x.setCache th none)
      (.revoking keep rest (killed ++ [th]))
  | revoked {keep : Text} {killed : List Text} {db : Db} : Writes x.db (.delete killed) db →
    Step x (.revoking keep [] killed) .go (x.commit (.delete killed) db) .idle
  | revokeOne {short_id th : Text} : short_id.strip ≠ [] →
    (x.db.sessions.map Session.token_hash).find?
      (fun th => decide (session_id th = short_id.strip)) = some th →
    Step x .idle .go (x.setCache th none) (.revokingOne th)
  | revokedOne {th : Text} {db : Db} : Writes x.db (.delete [th]) db →
    Step x (.revokingOne th) .go (x.commit (.delete [th]) db) .idle
  | create (token : Text) (user_id : ℤ) (ip ua : Text) : Step x .idle .go x
      (.creating ⟨tokenHash token, user_id, x.clock.floor, x.clock.floor + session_ttl, x.clock.floor,
        ip.take 64, ua.take 160⟩ x.clock.floor)
  | creates {row : Session} {now : ℤ} {db : Db} : Writes x.db (.create row) db →
    Step x (.creating row now) .go (x.commit (.create row) db) .idle
  /-- The call raises: a check of its own, or a database that does not answer. -/
  | leave {p : Pc} : Step x p .go x .idle

/-- Any number of threads, on a database of any contents, with nothing cached. -/
def sessions : Program State Pc Label where
  init x := x.db = x.first ∧ x.commits = [] ∧ ∀ h, x.cache h = none
  start := .idle
  step := Step tokenHash

end

/-! ### The versions of the database -/

/-- The database after some of the transactions. -/
def dbOf (first : Db) : List Commit → Db
  | [] => first
  | c :: _ => c.after

/-- Each transaction was made on the database that the one before it left. -/
def Chained (first : Db) : List Commit → Prop
  | [] => True
  | c :: earlier => Writes (dbOf first earlier) c.write c.after ∧ Chained first earlier

/-- **What lasts.** What a version says, and no later transaction takes back, the later
versions say. -/
theorem Chained.lasts {P : Db → Prop} {first : Db} {c : Commit} {earlier later : List Commit}
    (h : Chained first (later ++ c :: earlier)) (hc : P c.after)
    (hkeep : ∀ d ∈ later, ∀ db, Writes db d.write d.after → P db → P d.after) :
    P (dbOf first (later ++ c :: earlier)) := by
  induction later with
  | nil => exact hc
  | cons d later ih =>
    have hrest := ih h.2 fun d' hd' => hkeep d' (List.mem_cons_of_mem d hd')
    exact hkeep d List.mem_cons_self _ h.1 hrest

theorem Chained.append {first : Db} {later earlier : List Commit}
    (h : Chained first (later ++ earlier)) : Chained first earlier := by
  induction later with
  | nil => exact h
  | cons d later ih => exact ih h.2

/-- Some version said so of a session, and whatever was committed after it came at the
stamp or later. -/
def Seen (x : State) (hash : Text) (info : Info) (stamp : ℚ) : Prop :=
  ∃ later earlier, x.commits = later ++ earlier ∧ (∀ c ∈ later, stamp ≤ c.time) ∧
    (dbOf x.first earlier).info hash = some info

/-- A transaction that came before the stamp is one of those the version has. -/
theorem Seen.since {x : State} {hash : Text} {info : Info} {stamp : ℚ} {c : Commit}
    {later earlier : List Commit} (h : Seen x hash info stamp)
    (hc : x.commits = later ++ c :: earlier) (hlt : c.time < stamp) :
    ∃ later₁ later₂, later = later₁ ++ later₂ ∧
      (dbOf x.first (later₂ ++ c :: earlier)).info hash = some info := by
  obtain ⟨l, e, heq, hstamp, hinfo⟩ := h
  rw [hc] at heq
  obtain ⟨m, hl, hm⟩ | ⟨m, hl, hm⟩ := List.append_eq_append_iff.mp heq
  · cases m with
    | nil =>
      rw [List.nil_append] at hm
      exact ⟨later, [], (List.append_nil _).symm, hm ▸ hinfo⟩
    -- the version is older, so the transaction came at the stamp or later
    | cons d m =>
      obtain ⟨rfl, -⟩ := List.cons.inj hm
      have hmem : c ∈ l := hl ▸ List.mem_append_right _ List.mem_cons_self
      exact absurd hlt (not_lt_of_ge (hstamp c hmem))
  · exact ⟨l, m, hl, hm ▸ hinfo⟩

/-! ### The invariant -/

/-- What is known of the shared state. -/
structure Sound (x : State) : Prop where
  db : x.db = dbOf x.first x.commits
  chained : Chained x.first x.commits
  cache : ∀ hash info cachedUntil, x.cache hash = some (info, cachedUntil) →
    ∃ stamp, cachedUntil = stamp + session_ttl_cache ∧ stamp ≤ x.clock ∧ Seen x hash info stamp

/-- What a call knows at each of its places. -/
def Knows (x : State) : Pc → Prop
  | .called b _ => b ≤ x.clock
  | .looking b _ now | .missed b _ now => b ≤ now ∧ now ≤ x.clock
  | .touching b h now info | .caching b h now info => b ≤ now ∧ now ≤ x.clock ∧ Seen x h info now
  | .returning b h v => ∀ info, v = some info →
      ∃ stamp, b < stamp + session_ttl_cache ∧ stamp ≤ x.clock ∧ Seen x h info stamp
  | _ => True

theorem Seen.now {x : State} (h : Sound x) {hash : Text} {info : Info} (stamp : ℚ)
    (hinfo : x.db.info hash = some info) : Seen x hash info stamp :=
  ⟨[], x.commits, rfl, fun _ hc => absurd hc List.not_mem_nil, h.db ▸ hinfo⟩

/-- A later state: time has passed, and at most one transaction was committed. -/
structure Later (x x' : State) : Prop where
  clock : x.clock ≤ x'.clock
  first : x'.first = x.first
  commits : x'.commits = x.commits ∨
    ∃ w db, x'.commits = ⟨x.clock, w, db⟩ :: x.commits

theorem Seen.later {x x' : State} {hash : Text} {info : Info} {stamp : ℚ}
    (h : Seen x hash info stamp) (hl : Later x x') (hs : stamp ≤ x.clock) :
    Seen x' hash info stamp := by
  obtain ⟨later, earlier, heq, hstamp, hinfo⟩ := h
  obtain hsame | ⟨w, db, hmore⟩ := hl.commits
  · exact ⟨later, earlier, hsame.trans heq, hstamp, hl.first ▸ hinfo⟩
  · refine ⟨⟨x.clock, w, db⟩ :: later, earlier, ?_, fun c hc => ?_, hl.first ▸ hinfo⟩
    · rw [hmore, heq]
      rfl
    · cases List.mem_cons.mp hc with
      | inl hnew => exact hnew ▸ hs
      | inr hold => exact hstamp c hold

theorem Knows.later {x x' : State} {p : Pc} (h : Knows x p) (hl : Later x x') : Knows x' p := by
  cases p with
  | called b hash => exact h.trans hl.clock
  | looking b hash now => exact ⟨h.1, h.2.trans hl.clock⟩
  | missed b hash now => exact ⟨h.1, h.2.trans hl.clock⟩
  | touching b hash now info =>
    exact ⟨h.1, h.2.1.trans hl.clock, h.2.2.later hl h.2.1⟩
  | caching b hash now info =>
    exact ⟨h.1, h.2.1.trans hl.clock, h.2.2.later hl h.2.1⟩
  | returning b hash v =>
    intro info hv
    obtain ⟨stamp, hb, hs, hseen⟩ := h info hv
    exact ⟨stamp, hb, hs.trans hl.clock, hseen.later hl hs⟩
  | _ => trivial

theorem Sound.later {x x' : State} (h : Sound x) (hl : Later x x')
    (hdb : x'.db = dbOf x'.first x'.commits) (hchain : Chained x'.first x'.commits)
    (hcache : ∀ hash v, x'.cache hash = some v → x.cache hash = some v) : Sound x' := by
  refine ⟨hdb, hchain, fun hash info u hu => ?_⟩
  obtain ⟨stamp, heq, hs, hseen⟩ := h.cache hash info u (hcache hash _ hu)
  exact ⟨stamp, heq, hs.trans hl.clock, hseen.later hl hs⟩

theorem later_setCache (x : State) (hash : Text) (v : Option (Info × ℚ)) :
    Later x (x.setCache hash v) :=
  ⟨le_refl _, rfl, .inl rfl⟩

@[simp] theorem setCache_cache (x : State) (hash : Text) (v : Option (Info × ℚ)) :
    (x.setCache hash v).cache hash = v :=
  Function.update_self ..

theorem later_commit (x : State) (w : Write) (db : Db) : Later x (x.commit w db) :=
  ⟨le_refl _, rfl, .inr ⟨w, db, rfl⟩⟩

/-- A transaction is committed. -/
theorem Sound.commit {x : State} {w : Write} {db : Db} (h : Sound x) (hw : Writes x.db w db) :
    Sound (x.commit w db) :=
  h.later (later_commit x w db) rfl ⟨h.db ▸ hw, h.chained⟩ fun _ _ hv => hv

/-- A session is forgotten. -/
theorem Sound.forget {x : State} (h : Sound x) (hash : Text) : Sound (x.setCache hash none) := by
  refine h.later (later_setCache x hash none) h.db h.chained fun hash' v hv => ?_
  unfold State.setCache at hv
  by_cases hh : hash' = hash
  · rw [hh] at hv
    simp only [Function.update_self, reduceCtorEq] at hv
  · simp only [Function.update_of_ne hh] at hv
    exact hv

/-- An answer is kept, under the clock read before the database was asked. -/
theorem Sound.keep {x : State} (h : Sound x) {hash : Text} {info : Info} {now : ℚ}
    (hnow : now ≤ x.clock) (hseen : Seen x hash info now) :
    Sound (x.setCache hash (some (info, now + session_ttl_cache))) := by
  refine ⟨h.db, h.chained, fun hash' info' u hu => ?_⟩
  unfold State.setCache at hu
  by_cases hh : hash' = hash
  · rw [hh] at hu ⊢
    simp only [Function.update_self, Option.some.injEq, Prod.mk.injEq] at hu
    obtain ⟨rfl, rfl⟩ := hu
    exact ⟨now, rfl, hnow, hseen⟩
  · simp only [Function.update_of_ne hh] at hu
    exact h.cache hash' info' u hu

variable {tokenHash : Text → Text}

theorem info_of_row {db : Db} {hash : Text} {r : Session × Account} (h : db.row hash = some r) :
    db.info hash = some ⟨r.2.username, r.2.role⟩ := by
  unfold Db.info
  rw [h]
  rfl

/-- The cache and the calls say what some version said. -/
theorem invariant {s : Threads State Pc}
    (h : System.Reachable (sessions tokenHash).system s) :
    Sound s.shared ∧ ∀ u, Knows s.shared (s.pc u) := by
  refine Program.every (C := sessions tokenHash) (I := Sound) (Q := Knows)
    (fun x hx => ?_) (fun s t e x p hI hQ _ hs => ?_) h
  · obtain ⟨hdb, hnone, hcache⟩ := hx
    refine ⟨⟨?_, ?_, fun hash info u hu => ?_⟩, trivial⟩
    · rw [hnone]
      exact hdb
    · rw [hnone]
      trivial
    · rw [hcache hash] at hu
      cases hu
  generalize hpc : s.pc t = q at hs
  have hq : Knows s.shared q := hpc ▸ hQ t
  have hothers {x : State} (hl : Later s.shared x) : ∀ u, u ≠ t → Knows x (s.pc u) :=
    fun u _ => (hQ u).later hl
  -- a step that leaves the shared state
  have hsame (p : Pc) (hp : Knows s.shared p) :
      Sound s.shared ∧ Knows s.shared p ∧ ∀ u, u ≠ t → Knows s.shared (s.pc u) :=
    ⟨hI, hp, fun u _ => hQ u⟩
  cases hs with
  | @tick _ d hd =>
    have hl : Later s.shared { s.shared with clock := s.shared.clock + d } :=
      ⟨by dsimp only; linarith, rfl, .inl rfl⟩
    exact ⟨hI.later hl hI.db hI.chained fun _ _ hv => hv, hq.later hl, hothers hl⟩
  | call token htoken => exact hsame _ (le_refl _)
  | now => exact hsame _ ⟨hq, le_refl _⟩
  | @cached b now u hash info hhit hfresh =>
    refine hsame _ fun info' hinfo => ?_
    obtain rfl := Option.some.inj hinfo
    obtain ⟨stamp, hu, hstamp, hseen⟩ := hI.cache _ _ _ hhit
    exact ⟨stamp, hq.1.trans_lt (hu ▸ hfresh), hstamp, hseen⟩
  | notCached hmiss => exact hsame _ hq
  | noRow hrow => exact hsame _ trivial
  | expired hrow hold => exact hsame _ trivial
  | @stale b now hash r hrow hlive hseen =>
    exact hsame _ ⟨hq.1, hq.2, Seen.now hI now (info_of_row hrow)⟩
  | @live b now hash r hrow hlive hseen =>
    exact hsame _ ⟨hq.1, hq.2, Seen.now hI now (info_of_row hrow)⟩
  | unanswered => exact hsame _ trivial
  | @forget b hash =>
    exact ⟨hI.forget hash, (fun info hinfo => nomatch hinfo), hothers (later_setCache ..)⟩
  | @touch b now hash info db hw =>
    exact ⟨hI.commit hw, hq.later (later_commit ..), hothers (later_commit ..)⟩
  | notTouched => exact hsame _ trivial
  | @keep b now hash info =>
    obtain ⟨hb, hnow, hseen⟩ := hq
    refine ⟨hI.keep hnow hseen, fun info' hinfo => ?_, hothers (later_setCache ..)⟩
    obtain rfl := Option.some.inj hinfo
    have hpos : (0 : ℚ) < session_ttl_cache := by norm_num [session_ttl_cache]
    exact ⟨now, by linarith, hnow, hseen.later (later_setCache ..) hnow⟩
  | answer => exact hsame _ trivial
  | accounts hbegin => exact hsame _ trivial
  | goesOn he => exact hsame _ trivial
  | @commits todo db hw =>
    refine ⟨hI.commit hw, ?_, hothers (later_commit ..)⟩
    cases todo <;> exact trivial
  | clear =>
    have hl : Later s.shared { s.shared with cache := fun _ => none } := ⟨le_refl _, rfl, .inl rfl⟩
    exact ⟨hI.later hl hI.db hI.chained (fun _ _ hv => nomatch hv), trivial, hothers hl⟩
  | delete token htoken => exact hsame _ trivial
  | deletes hw => exact ⟨hI.commit hw, trivial, hothers (later_commit ..)⟩
  | forgets => exact ⟨hI.forget _, trivial, hothers (later_setCache ..)⟩
  | revokeOthers token => exact hsame _ trivial
  | keeps => exact hsame _ trivial
  | kills hne => exact ⟨hI.forget _, trivial, hothers (later_setCache ..)⟩
  | revoked hw => exact ⟨hI.commit hw, trivial, hothers (later_commit ..)⟩
  | revokeOne hid hfound => exact ⟨hI.forget _, trivial, hothers (later_setCache ..)⟩
  | revokedOne hw => exact ⟨hI.commit hw, trivial, hothers (later_commit ..)⟩
  | create token user_id ip ua => exact hsame _ trivial
  | creates hw => exact ⟨hI.commit hw, trivial, hothers (later_commit ..)⟩
  | leave => exact hsame _ trivial

/-! ### Revocation -/

/-- The session is not among the database's. -/
def Gone (hash : Text) (db : Db) : Prop := ∀ r ∈ db.sessions, r.token_hash ≠ hash

/-- The write deletes the session. -/
def Write.ends (before : Db) (hash : Text) : Write → Prop
  | .delete hashes => hash ∈ hashes
  | .users (.delete id) => ∃ r ∈ before.sessions, r.token_hash = hash ∧ r.user_id = id
  | _ => False

/-- The account has the role, if there is such an account. -/
def HasRole (username : Text) (role : Role) (db : Db) : Prop :=
  ∀ a ∈ db.users.rows, a.username = username → a.role = role

/-- The write says what an account may do. -/
def Write.sets (username : Text) : Write → Prop
  | .users (.updateRole _ name) | .users (.insert name ..) => name = username
  | _ => False

theorem Gone.info {hash : Text} {db : Db} (h : Gone hash db) : db.info hash = none := by
  have hfind : db.sessions.find? (fun s => decide (s.token_hash = hash)) = none := by
    rw [List.find?_eq_none]
    exact fun r hr hhash => h r hr (of_decide_eq_true hhash)
  unfold Db.info Db.row
  rw [hfind]
  rfl

theorem HasRole.info {username hash : Text} {role : Role} {db : Db} {info : Info}
    (h : HasRole username role db) (hinfo : db.info hash = some info)
    (hname : info.user = username) : info.role = role := by
  obtain ⟨r, hrow, rfl⟩ := Option.map_eq_some_iff.mp hinfo
  unfold Db.row at hrow
  obtain ⟨s, -, hrow⟩ := Option.bind_eq_some_iff.mp hrow
  obtain ⟨a, ha, hrow⟩ := Option.bind_eq_some_iff.mp hrow
  cases hrow
  exact h a (List.mem_of_find?_eq_some ha) hname

theorem gone_of_ends {hash : Text} {db db' : Db} {w : Write} (h : w.ends db hash)
    (hw : Writes db w db') : Gone hash db' := by
  cases hw with
  | deleteUser he =>
    obtain ⟨s, hs, hhash, hid⟩ := h
    intro r hr hrhash
    obtain ⟨hr, hkept⟩ := mem_deleteSessions.mp hr
    -- the hash is the session's alone
    obtain rfl : r = s := List.inj_on_of_nodup_map db.keys hr hs (hrhash.trans hhash.symm)
    exact of_decide_eq_false hkept hid
  | @users todo t he hne =>
    cases todo with
    | delete id => exact absurd rfl (hne id)
    | _ => exact h.elim
  | delete hashes =>
    intro r hr hrhash
    have hkept := of_decide_eq_false (mem_deleteSessions.mp hr).2
    rw [hrhash] at hkept
    exact hkept h
  | create row now hnew => exact h.elim
  | touch hash' now => exact h.elim

theorem Gone.writes {hash : Text} {db db' : Db} {w : Write} (h : Gone hash db)
    (hw : Writes db w db') (hcreate : ∀ row, w = .create row → row.token_hash ≠ hash) :
    Gone hash db' := by
  cases hw with
  | deleteUser he => exact fun r hr => h r (mem_deleteSessions.mp hr).1
  | users he hne => exact h
  | delete hashes => exact fun r hr => h r (mem_deleteSessions.mp hr).1
  | create row now hnew =>
    intro r hr
    cases List.mem_append.mp hr with
    | inl hold => exact h r (mem_deleteSessions.mp hold).1
    | inr hrow => exact (List.mem_singleton.mp hrow).symm ▸ hcreate row rfl
  | touch hash' now =>
    intro r hr
    obtain ⟨s, hs, rfl⟩ := List.mem_map.mp hr
    split
    · exact h s hs
    · exact h s hs

theorem HasRole.writes {username : Text} {role : Role} {db db' : Db} {w : Write}
    (h : HasRole username role db) (hw : Writes db w db') (hsets : ¬ w.sets username) :
    HasRole username role db' := by
  cases hw with
  | deleteUser he =>
    cases he
    exact fun a ha => h a (List.mem_of_mem_filter ha)
  | users he hne =>
    cases he with
    | insert id now hid hname =>
      intro a ha hu
      cases List.mem_append.mp ha with
      | inl hold => exact h a hold hu
      | inr hnew =>
        obtain rfl := List.mem_singleton.mp hnew
        exact absurd hu hsets
    | updateRole hfound =>
      intro a ha hu
      obtain ⟨b, hb, rfl⟩ := List.mem_map.mp ha
      split at hu
      · next hname => exact absurd (hname.symm.trans hu) hsets
      · next hname =>
        rw [if_neg hname]
        exact h b hb hu
    | updateSecret hfound =>
      intro a ha hu
      obtain ⟨b, hb, rfl⟩ := List.mem_map.mp ha
      split at hu
      · next hname =>
        rw [if_pos hname]
        exact h b hb hu
      · next hname =>
        rw [if_neg hname]
        exact h b hb hu
    | delete => exact fun a ha => h a (List.mem_of_mem_filter ha)
  | delete hashes => exact h
  | create row now hnew => exact h
  | touch hash now => exact h

/-- `set_role` gives the role. -/
theorem hasRole_updateRole {username : Text} {role : Role} {db db' : Db}
    (h : Writes db (.users (.updateRole role username)) db') : HasRole username role db' := by
  cases h with
  | users he hne =>
    cases he
    intro a ha hu
    obtain ⟨b, hb, rfl⟩ := List.mem_map.mp ha
    split at hu
    · next hname => rw [if_pos hname]
    · next hname => exact absurd hu hname

/-- **Revocation takes effect.** A call of `validate_session` that starts five seconds or
more after a commit answers nothing for a session that the commit deleted, unless one was
made again under the same hash; and where the commit gave an account a role, no other role
for it, unless one was given since. -/
theorem revocation_takes_effect {s s' : Threads State Pc} {t : ℕ} {started : ℚ} {hash : Text}
    {v : Option Info} {c : Commit} {later earlier : List Commit}
    (h : System.Reachable (sessions tokenHash).system s)
    (hs : (sessions tokenHash).system.step s (t, .answer started hash v) s')
    (hc : s.shared.commits = later ++ c :: earlier)
    (hlate : c.time + session_ttl_cache ≤ started) :
    (c.write.ends (dbOf s.shared.first earlier) hash → (∀ d ∈ later, ∀ row, d.write = .create row → row.token_hash ≠ hash) →
      v = none) ∧
    ∀ username role, c.write = .users (.updateRole role username) →
      (∀ d ∈ later, ¬ d.write.sets username) →
      ∀ info, v = some info → info.user = username → info.role = role := by
  obtain ⟨hI, hQ⟩ := invariant h
  have hchain : Chained s.shared.first (later ++ c :: earlier) := hc ▸ hI.chained
  -- the answer is what a version since the commit says
  have hversion (info : Info) (hv : v = some info) : ∃ later₁ later₂, later = later₁ ++ later₂ ∧
      (dbOf s.shared.first (later₂ ++ c :: earlier)).info hash = some info := by
    obtain ⟨p, x', p', hs, m⟩ := Program.step_moves hs
    have hq : Knows s.shared p := m.before ▸ hQ t
    cases hs with
    | answer =>
      obtain ⟨stamp, hstamp, -, hseen⟩ := hq info hv
      exact hseen.since hc (by linarith)
  refine ⟨fun hends hcreate => ?_, fun username role hw hsets info hv hname => ?_⟩
  · cases hv : v with
    | none => rfl
    | some info =>
      obtain ⟨later₁, later₂, rfl, hinfo⟩ := hversion info hv
      have hchain₂ : Chained s.shared.first (later₂ ++ c :: earlier) :=
        Chained.append (List.append_assoc later₁ .. ▸ hchain)
      have hgone : Gone hash c.after := gone_of_ends hends (Chained.append hchain₂).1
      have hlasts := hchain₂.lasts hgone fun d hd db hwrites hdb =>
        hdb.writes hwrites (hcreate d (List.mem_append_right _ hd))
      rw [hlasts.info] at hinfo
      cases hinfo
  · obtain ⟨later₁, later₂, rfl, hinfo⟩ := hversion info hv
    have hchain₂ : Chained s.shared.first (later₂ ++ c :: earlier) :=
      Chained.append (List.append_assoc later₁ .. ▸ hchain)
    have hgiven : HasRole username role c.after :=
      hasRole_updateRole (hw ▸ (Chained.append hchain₂).1)
    have hlasts := hchain₂.lasts hgiven fun d hd db hwrites hdb =>
      hdb.writes hwrites (hsets d (List.mem_append_right _ hd))
    exact hlasts.info hinfo hname

/-! ### A session that is deleted -/

/-- The hash of the token `t`. -/
def hashOfT : Text := "e3b98a4da31a127d4bde6e43033f66ba274cab0eb7eb1c70ec41402bf6273dd8"

/-- `root` is signed in, with the token `t`. -/
def signedIn : Db where
  users := root
  sessions := [⟨hashOfT, 1, 0, session_ttl, 0, "", ""⟩]
  keys := List.pairwise_singleton _ _

/-- Nobody, once it is deleted. -/
def signedOut : Db := signedIn.deleteSessions fun s => decide (s.token_hash ∈ [hashOfT])

def atSignIn : State := ⟨0, signedIn, fun _ => none, signedIn, []⟩

/-- Five seconds after the session was deleted. -/
def afterwards : State :=
  { (atSignIn.commit (.delete [hashOfT]) signedOut).setCache hashOfT none with
    clock := 0 + session_ttl_cache }

/-- `delete_session`, and after five seconds `validate_session` up to its answer. -/
theorem deleted_run : (sessions fun _ => hashOfT).Run atSignIn .idle
    (afterwards.setCache hashOfT none) (.returning (0 + session_ttl_cache) hashOfT none) := by
  have hidle : (sessions fun _ => hashOfT).Run atSignIn .idle atSignIn .idle := .refl
  have hdelete := hidle.step (.delete "t" (by decide))
  have hdeleted := (hdelete.step (.deletes (.delete [hashOfT]))).step .forgets
  have htick := hdeleted.step (.tick (d := session_ttl_cache) (by norm_num [session_ttl_cache]))
  have hcall := (htick.step (.call "t" (by decide))).step .now
  have hcache : afterwards.cache hashOfT = none :=
    setCache_cache (atSignIn.commit (.delete [hashOfT]) signedOut) hashOfT none
  have hmiss := hcall.step (.notCached fun info u hu => nomatch hcache.symm.trans hu)
  have hwrites : Writes signedIn (.delete [hashOfT]) signedOut := .delete [hashOfT]
  have hgone : Gone hashOfT signedOut := gone_of_ends (w := .delete [hashOfT])
    List.mem_cons_self hwrites
  have hrow : signedOut.row hashOfT = none := Option.map_eq_none_iff.mp hgone.info
  exact (hmiss.step (.noRow hrow)).step .forget

/-- `revocation_takes_effect` for a session deleted five seconds before. -/
theorem revocation_takes_effect_deleted : ∃ (s s' : Threads State Pc) (v : Option Info),
    (sessions fun _ => hashOfT).system.step s (0, .answer (0 + session_ttl_cache) hashOfT v) s' ∧
    s.shared.commits = [⟨0, .delete [hashOfT], signedOut⟩] ∧ v = none := by
  have hreach := deleted_run.reached (fun _ _ => True) (t := 0) (s := ⟨_, fun _ => .idle⟩)
    (.init ⟨⟨rfl, rfl, fun _ => rfl⟩, fun _ => rfl⟩) rfl fun _ _ _ => trivial
  have hanswer := Program.step_update (C := sessions fun _ => hashOfT) (t := 0)
    (s := ⟨afterwards.setCache hashOfT none, Function.update (fun _ => .idle) 0
      (.returning (0 + session_ttl_cache) hashOfT none)⟩) rfl .answer
  have hcommits : (afterwards.setCache hashOfT none).commits =
      [] ++ ⟨0, .delete [hashOfT], signedOut⟩ :: [] := rfl
  refine ⟨_, _, none, hanswer, hcommits, ?_⟩
  exact (revocation_takes_effect hreach hanswer hcommits (le_refl _)).1 List.mem_cons_self
    fun d hd => absurd hd List.not_mem_nil

end Auth.Sessions
