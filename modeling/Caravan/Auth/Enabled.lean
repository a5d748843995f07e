import Caravan.Auth.Accounts
import Caravan.Framework.Threads
import Mathlib.Tactic.Linarith

/-!
# Whether authentication is on

`auth_enabled` keeps its answer for three seconds, in a list of two cells that its calls
share with no lock: whether there are users, and until when that is to be believed. A call
tests the first cell, compares the second with the clock, and reads the first again for its
answer; on a miss it counts the users and stores the two cells one after the other. The
calls that write the accounts clear both, one after the other.

The answer is right while nothing comes between a call's test and its answer, or between
its two stores (`guard_closed`). Neither is kept by anything: where the cells are cleared
after the test, the answer is None, and the guard is open (`cleared_after_test`).
-/

namespace Auth.Enabled

open Python

/-- `AuthStore.enabled_ttl` -/
def enabled_ttl : ℚ := 3

structure State where
  clock : ℚ
  table : Table
  /-- `_ENABLED_CACHE[0]` -/
  enabled : Option Bool
  /-- `_ENABLED_CACHE[1]` -/
  cachedUntil : ℚ
  /-- Since when there have been users without a break, where there are any. -/
  since : ℚ
  /-- One of the cells has been stored, the other not yet. -/
  torn : Bool

/-- A write to the accounts is committed. -/
def State.commit (x : State) (t : Table) : State :=
  { x with table := t, since := if x.table.count = 0 then x.clock else x.since }

inductive Pc where
  | idle
  /-- `auth_enabled` began; it reads the clock next. -/
  | called (began : ℚ)
  /-- It tests the first cell next. -/
  | looking (began now : ℚ)
  /-- The cell was not None; it compares the second one next. -/
  | tested (began now : ℚ)
  /-- It was in time; it reads the first cell again, for its answer. -/
  | hit (began now : ℚ)
  /-- It counts the users next. -/
  | missed (began now : ℚ)
  /-- It stores the first cell next. -/
  | counted (began now : ℚ) (enabled : Bool)
  /-- It stores the second one next. -/
  | storing (began now : ℚ) (enabled : Bool)
  | stored (began : ℚ) (enabled : Bool)
  /-- A statement of a call on the accounts is next. -/
  | next (todo : Todo)
  /-- `invalidate` clears the first cell next. -/
  | clearing
  /-- It clears the second one next. -/
  | clearing'

inductive Label where
  | tick
  | go
  /-- `auth_enabled` returns; it began at `began`. -/
  | answer (began : ℚ) (v : Option Bool)
  deriving DecidableEq

/-- Where a call goes when its write is committed; `set_password` clears nothing. -/
def afterCommit : Todo → Pc
  | .updateSecret .. => .idle
  | _ => .clearing

/-- One step of a thread. -/
inductive Step (x : State) : Pc → Label → State → Pc → Prop where
  | tick {p : Pc} {d : ℚ} : 0 ≤ d → Step x p .tick { x with clock := x.clock + d } p
  | call : Step x .idle .go x (.called x.clock)
  | now {b : ℚ} : Step x (.called b) .go x (.looking b x.clock)
  | isNone {b now : ℚ} : x.enabled = none → Step x (.looking b now) .go x (.missed b now)
  | isNotNone {b now : ℚ} : x.enabled ≠ none → Step x (.looking b now) .go x (.tested b now)
  | inTime {b now : ℚ} : now < x.cachedUntil → Step x (.tested b now) .go x (.hit b now)
  | tooOld {b now : ℚ} : x.cachedUntil ≤ now → Step x (.tested b now) .go x (.missed b now)
  | cached {b now : ℚ} : Step x (.hit b now) (.answer b x.enabled) x .idle
  | count {b now : ℚ} :
    Step x (.missed b now) .go x (.counted b now (decide (0 < x.table.count)))
  | unanswered {b now : ℚ} : Step x (.missed b now) .go x .idle
  | store {b now : ℚ} {e : Bool} : Step x (.counted b now e) .go
      { x with enabled := some e, torn := true } (.storing b now e)
  | store' {b now : ℚ} {e : Bool} : Step x (.storing b now e) .go
      { x with cachedUntil := now + enabled_ttl, torn := false } (.stored b e)
  | fresh {b : ℚ} {e : Bool} : Step x (.stored b e) (.answer b (some e)) x .idle
  | write {c : Call} (secret : Secret) {todo : Todo} : c.begin secret = .ok todo →
    Step x .idle .go x (.next todo)
  | goesOn {todo todo' : Todo} : Exec x.table todo (.goesOn todo') →
    Step x (.next todo) .go x (.next todo')
  | raises {todo : Todo} {e : Ports.AppError} : Exec x.table todo (.raises e) →
    Step x (.next todo) .go x .idle
  | commits {todo : Todo} {t : Table} : Exec x.table todo (.commits t) →
    Step x (.next todo) .go (x.commit t) (afterCommit todo)
  | leave {todo : Todo} : Step x (.next todo) .go x .idle
  | clear : Step x .clearing .go { x with enabled := none } .clearing'
  | clear' : Step x .clearing' .go { x with cachedUntil := 0 } .idle

/-- Any number of threads, with nothing cached. -/
def guard : Program State Pc Label where
  init x := 0 ≤ x.clock ∧ x.since ≤ x.clock ∧ x.enabled = none ∧ x.cachedUntil = 0 ∧
    x.torn = false
  start := .idle
  step := Step

/-! ### The accesses that nothing comes between -/

/-- Between its test and its answer. -/
def Pc.reading : Pc → Bool
  | .tested .. | .hit .. => true
  | _ => false

/-- Between its two stores. -/
def Pc.halfway : Pc → Bool
  | .storing .. => true
  | _ => false

/-- Nobody begins to store while another call is between its test and its answer or
between its two stores, or clears the first cell during the former, or tests it during the
latter. -/
def Apart (s : Threads State Pc) (e : ℕ × Label) : Prop :=
  e.2 = .go → ∀ u, u ≠ e.1 → match s.pc e.1 with
    | .looking .. => (s.pc u).halfway = false
    | .counted .. => (s.pc u).halfway = false ∧ (s.pc u).reading = false
    | .clearing => (s.pc u).reading = false
    | _ => True

/-- No two calls are between their two stores. -/
theorem one_halfway {s : Threads State Pc} (h : System.Reach guard.system Apart s) {t u : ℕ}
    (htu : t ≠ u) : ¬ ((s.pc t).halfway = true ∧ (s.pc u).halfway = true) := by
  refine Program.everyPair (C := guard)
    (R := fun p q => ¬ (p.halfway = true ∧ q.halfway = true))
    (fun p q hpq hqp => hpq hqp.symm) (fun hidle => nomatch hidle.1)
    (fun s t e x p hpair hok hs u hu => ?_) h htu
  rintro ⟨hp, hhalf⟩
  generalize hpc : s.pc t = q at hs
  cases hs with
  | tick hd =>
    rw [← hpc] at hp
    exact hpair t u hu.symm ⟨hp, hhalf⟩
  | store =>
    have happart := hok rfl u hu
    rw [hpc] at happart
    exact Bool.false_ne_true (happart.1.symm.trans hhalf)
  | @commits todo t' he => cases todo <;> cases hp
  | _ => cases hp

/-- A pair of cells half stored is some call's. -/
theorem torn_halfway {s : Threads State Pc} (h : System.Reach guard.system Apart s)
    (htorn : s.shared.torn = true) : ∃ u, (s.pc u).halfway = true := by
  suffices himp : s.shared.torn = true → ∃ u, (s.pc u).halfway = true from himp htorn
  refine h.invariant (I := fun s => s.shared.torn = true → ∃ u, (s.pc u).halfway = true)
    (fun s hs htorn => ?_) fun s e s' ih hok hs htorn => ?_
  · obtain ⟨-, -, -, -, hwhole⟩ := hs.1
    rw [hwhole] at htorn
    cases htorn
  obtain ⟨hs, hframe⟩ := hs
  -- a step that leaves the ghost and begins at a place that is not halfway
  have hstays (hsame : s'.shared.torn = s.shared.torn) (hfrom : (s.pc e.1).halfway = false) :
      ∃ u, (s'.pc u).halfway = true := by
    obtain ⟨u, hu⟩ := ih (hsame ▸ htorn)
    have hne : u ≠ e.1 := fun heq => Bool.false_ne_true ((heq ▸ hfrom).symm.trans hu)
    exact ⟨u, (hframe u hne).symm ▸ hu⟩
  obtain ⟨t, l⟩ := e
  dsimp only at hs hframe hstays
  generalize hpc : s.pc t = q at hs hstays
  generalize hpc' : s'.pc t = q' at hs
  generalize s'.shared = x' at hs htorn hstays
  cases hs with
  | tick hd =>
    obtain ⟨u, hu⟩ := ih htorn
    by_cases hut : u = t
    · exact ⟨t, by rw [hpc', ← hpc, ← hut, hu]⟩
    · exact ⟨u, (hframe u hut).symm ▸ hu⟩
  | store => exact ⟨t, by rw [hpc']; rfl⟩
  | store' => cases htorn
  | _ => exact hstays rfl rfl

/-! ### The invariant -/

/-- The last moment without users. -/
def State.lastEmpty (x : State) : ℚ := if x.table.count = 0 then x.clock else x.since

/-- An answer No among the cells is believed for three seconds from a moment without
users. -/
structure Sound (x : State) : Prop where
  clock : 0 ≤ x.clock
  since : x.since ≤ x.clock
  cells : x.torn = false → x.enabled = some false →
    x.cachedUntil - enabled_ttl ≤ x.lastEmpty ∨ x.cachedUntil ≤ 0

/-- The call began, and read the clock. -/
def Timed (x : State) (began now : ℚ) : Prop := 0 ≤ began ∧ began ≤ now ∧ now ≤ x.clock

/-- What a call knows at each of its places. -/
def Knows (x : State) : Pc → Prop
  | .called b => 0 ≤ b ∧ b ≤ x.clock
  | .looking b now | .missed b now => Timed x b now
  | .tested b now => Timed x b now ∧ x.enabled ≠ none ∧ x.torn = false
  | .hit b now => Timed x b now ∧ x.enabled ≠ none ∧ x.torn = false ∧
      (x.enabled = some false → now - enabled_ttl < x.lastEmpty)
  | .counted b now e => Timed x b now ∧ (e = false → now ≤ x.lastEmpty)
  | .storing b now e => Timed x b now ∧ (e = false → now ≤ x.lastEmpty) ∧ x.torn = true ∧
      (x.enabled = some false → e = false)
  | .stored b e => e = false → b ≤ x.lastEmpty
  | .idle | .next _ | .clearing | .clearing' => True

theorem lastEmpty_tick (x : State) {d : ℚ} (hd : 0 ≤ d) :
    x.lastEmpty ≤ State.lastEmpty { x with clock := x.clock + d } := by
  unfold State.lastEmpty
  dsimp only
  split
  · linarith
  · exact le_refl _

theorem lastEmpty_commit {x : State} (t : Table) (h : x.since ≤ x.clock) :
    x.lastEmpty ≤ (x.commit t).lastEmpty := by
  unfold State.lastEmpty State.commit
  dsimp only
  by_cases hold : x.table.count = 0
  · rw [if_pos hold, ite_self]
  · rw [if_neg hold]
    split
    · exact h
    · exact le_refl _

theorem Timed.mono {x x' : State} {b now : ℚ} (h : Timed x b now) (hc : x.clock ≤ x'.clock) :
    Timed x' b now :=
  ⟨h.1, h.2.1, h.2.2.trans hc⟩

/-- Another thread's step. -/
theorem Knows.frame {x x' : State} {p : Pc} (h : Knows x p) (hc : x.clock ≤ x'.clock)
    (he : x.lastEmpty ≤ x'.lastEmpty)
    (hread : p.reading = true → x'.enabled = x.enabled ∧ x'.torn = x.torn)
    (hhalf : p.halfway = true →
      x'.torn = x.torn ∧ (x'.enabled = some false → x.enabled = some false)) : Knows x' p := by
  cases p with
  | called b => exact ⟨h.1, h.2.trans hc⟩
  | looking b now => exact Timed.mono h hc
  | missed b now => exact Timed.mono h hc
  | tested b now =>
    obtain ⟨henabled, htorn⟩ := hread rfl
    exact ⟨h.1.mono hc, henabled ▸ h.2.1, htorn ▸ h.2.2⟩
  | hit b now =>
    obtain ⟨henabled, htorn⟩ := hread rfl
    refine ⟨h.1.mono hc, henabled ▸ h.2.1, htorn ▸ h.2.2.1, fun hno => ?_⟩
    exact (h.2.2.2 (henabled ▸ hno)).trans_le he
  | counted b now e => exact ⟨h.1.mono hc, fun hno => (h.2 hno).trans he⟩
  | storing b now e =>
    obtain ⟨htimed, hempty, htorn, hvalue⟩ := h
    obtain ⟨htorn', hvalue'⟩ := hhalf rfl
    exact ⟨htimed.mono hc, fun hno => (hempty hno).trans he, htorn'.trans htorn,
      fun hno => hvalue (hvalue' hno)⟩
  | stored b e => exact fun hno => (h hno).trans he
  | idle | next todo | clearing | clearing' => trivial

/-- A step that leaves the cells, or only stores the second one. -/
theorem Sound.mono {x x' : State} (h : Sound x) (hc : x.clock ≤ x'.clock)
    (hs : x'.since ≤ x'.clock) (he : x.lastEmpty ≤ x'.lastEmpty) (htorn : x'.torn = x.torn)
    (henabled : x'.enabled = x.enabled)
    (huntil : x'.cachedUntil = x.cachedUntil ∨ x'.cachedUntil ≤ 0) : Sound x' := by
  refine ⟨h.clock.trans hc, hs, fun hwhole hno => ?_⟩
  obtain huntil | hzero := huntil
  · rw [huntil]
    exact (h.cells (htorn ▸ hwhole) (henabled ▸ hno)).imp (fun hlast => hlast.trans he) id
  · exact .inr hzero

theorem whole_of_reading {x : State} {p : Pc} (h : Knows x p) (hp : p.reading = true) :
    x.torn = false := by
  cases p with
  | tested b now => exact h.2.2
  | hit b now => exact h.2.2.1
  | _ => cases hp

/-- The cells are sound, and every call knows what it should. -/
theorem invariant {s : Threads State Pc} (h : System.Reach guard.system Apart s) :
    Sound s.shared ∧ ∀ u, Knows s.shared (s.pc u) := by
  refine Program.every_of (C := guard) (I := Sound) (Q := Knows)
    (J := fun s => (∀ t u, t ≠ u → ¬ ((s.pc t).halfway = true ∧ (s.pc u).halfway = true)) ∧
      (s.shared.torn = true → ∃ u, (s.pc u).halfway = true))
    (fun s hs => ⟨fun t u htu => one_halfway hs htu, torn_halfway hs⟩) (fun x hx => ?_)
    (fun s t e x p hJ hI hQ hok hs => ?_) h
  · obtain ⟨hclock, hsince, hnone, huntil, htorn⟩ := hx
    refine ⟨⟨hclock, hsince, fun _ hno => ?_⟩, trivial⟩
    rw [hnone] at hno
    cases hno
  obtain ⟨hone, htornOf⟩ := hJ
  generalize hpc : s.pc t = q at hs
  have hq : Knows s.shared q := hpc ▸ hQ t
  have hapart := hok
  unfold Apart at hapart
  dsimp only at hapart
  rw [hpc] at hapart
  -- a step that leaves the shared state
  have hsame (p : Pc) (hp : Knows s.shared p) :
      Sound s.shared ∧ Knows s.shared p ∧ ∀ u, u ≠ t → Knows s.shared (s.pc u) :=
    ⟨hI, hp, fun u _ => hQ u⟩
  cases hs with
  | @tick _ d hd =>
    have hc : s.shared.clock ≤ s.shared.clock + d := by linarith
    have he := lastEmpty_tick s.shared hd
    refine ⟨hI.mono hc (hI.since.trans hc) he rfl rfl (.inl rfl), ?_, fun u _ => ?_⟩
    · exact hq.frame hc he (fun _ => ⟨rfl, rfl⟩) fun _ => ⟨rfl, id⟩
    · exact (hQ u).frame hc he (fun _ => ⟨rfl, rfl⟩) fun _ => ⟨rfl, id⟩
  | call => exact hsame _ ⟨hI.clock, le_refl _⟩
  | now => exact hsame _ ⟨hq.1, hq.2, le_refl _⟩
  | isNone hnone => exact hsame _ hq
  | @isNotNone b now hsome =>
    refine hsame _ ⟨hq, hsome, ?_⟩
    -- nobody is halfway: neither the others, nor this call
    by_contra htorn
    obtain ⟨u, hu⟩ := htornOf (Bool.eq_true_of_not_eq_false htorn)
    by_cases hut : u = t
    · rw [hut, hpc] at hu
      cases hu
    · exact Bool.false_ne_true ((hapart rfl u hut).symm.trans hu)
  | @inTime b now htime =>
    refine hsame _ ⟨hq.1, hq.2.1, hq.2.2, fun hno => ?_⟩
    obtain ⟨hb, hbn, hnow⟩ := hq.1
    obtain hlast | hzero := hI.cells hq.2.2 hno
    · linarith
    · linarith
  | tooOld hold => exact hsame _ hq.1
  | cached => exact hsame _ trivial
  | @count b now =>
    refine hsame _ ⟨hq, fun hno => ?_⟩
    have hcount : s.shared.table.count = 0 := Nat.eq_zero_of_not_pos (of_decide_eq_false hno)
    unfold State.lastEmpty
    rw [if_pos hcount]
    exact hq.2.2
  | unanswered => exact hsame _ trivial
  | @store b now e =>
    refine ⟨⟨hI.clock, hI.since, fun hwhole => nomatch hwhole⟩, ⟨hq.1, hq.2, rfl, Option.some.inj⟩,
      fun u hu => ?_⟩
    obtain ⟨hhalf, hread⟩ := hapart rfl u hu
    refine (hQ u).frame (le_refl _) (le_refl _) (fun hreading => ?_) fun hhalfway => ?_
    · exact absurd (hread.symm.trans hreading) Bool.false_ne_true
    · exact absurd (hhalf.symm.trans hhalfway) Bool.false_ne_true
  | @store' b now e =>
    obtain ⟨⟨hb, hbn, hnow⟩, hempty, htorn, hvalue⟩ := hq
    refine ⟨⟨hI.clock, hI.since, fun _ hno => .inl ?_⟩, fun hno => hbn.trans (hempty hno),
      fun u hu => ?_⟩
    · have hlast : now ≤ s.shared.lastEmpty := hempty (hvalue hno)
      have hback : now + enabled_ttl - enabled_ttl = now := add_sub_cancel_right _ _
      exact hback.trans_le hlast
    -- a call between its test and its answer saw both cells whole; and no two calls store
    · refine (hQ u).frame (le_refl _) (le_refl _) (fun hreading => ?_) fun hhalfway => ?_
      · exact absurd ((whole_of_reading (hQ u) hreading).symm.trans htorn) Bool.false_ne_true
      · exact absurd ⟨by rw [hpc]; rfl, hhalfway⟩ (hone t u hu.symm)
  | fresh => exact hsame _ trivial
  | write secret hbegin => exact hsame _ trivial
  | goesOn he => exact hsame _ trivial
  | raises he => exact hsame _ trivial
  | @commits todo t' he =>
    have hlast := lastEmpty_commit t' hI.since
    have hsince : (s.shared.commit t').since ≤ s.shared.clock := by
      unfold State.commit
      dsimp only
      split
      · exact le_refl _
      · exact hI.since
    refine ⟨hI.mono (le_refl _) hsince hlast rfl rfl (.inl rfl), ?_, fun u _ => ?_⟩
    · cases todo <;> exact trivial
    · exact (hQ u).frame (le_refl _) hlast (fun _ => ⟨rfl, rfl⟩) fun _ => ⟨rfl, id⟩
  | leave => exact hsame _ trivial
  | clear =>
    refine ⟨⟨hI.clock, hI.since, fun _ hno => nomatch hno⟩, trivial, fun u hu => ?_⟩
    refine (hQ u).frame (le_refl _) (le_refl _) (fun hreading => ?_) fun _ => ⟨rfl, nofun⟩
    exact absurd ((hapart rfl u hu).symm.trans hreading) Bool.false_ne_true
  | clear' =>
    refine ⟨hI.mono (le_refl _) hI.since (le_refl _) rfl rfl (.inr (le_refl _)), trivial,
      fun u _ => ?_⟩
    exact (hQ u).frame (le_refl _) (le_refl _) (fun _ => ⟨rfl, rfl⟩) fun _ => ⟨rfl, id⟩

/-- **The guard fails closed.** Where nothing comes between the accesses of a call, a call
that begins three seconds or more after the first of the users that are there still answers
True. -/
theorem guard_closed {s s' : Threads State Pc} {t : ℕ} {began : ℚ} {v : Option Bool}
    (h : System.Reach guard.system Apart s)
    (hs : guard.system.step s (t, .answer began v) s') (husers : 0 < s.shared.table.count)
    (hsince : s.shared.since ≤ began - enabled_ttl) : v = some true := by
  obtain ⟨hI, hQ⟩ := invariant h
  have hlast : s.shared.lastEmpty = s.shared.since := by
    unfold State.lastEmpty
    rw [if_neg (Nat.ne_of_gt husers)]
  have hq := hQ t
  obtain ⟨hs, -⟩ := hs
  dsimp only at hs
  generalize s.pc t = q at hs hq
  generalize s'.shared = x' at hs
  generalize s'.pc t = q' at hs
  cases hs with
  | @cached _ now =>
    obtain ⟨⟨-, hbn, -⟩, hsome, -, hno⟩ := hq
    cases hv : s.shared.enabled with
    | none => exact absurd hv hsome
    | some e =>
      cases e with
      | true => rfl
      | false =>
        have := hno hv
        rw [hlast] at this
        linarith
  | @fresh _ e =>
    cases e with
    | true => rfl
    | false =>
      have hb : began ≤ s.shared.lastEmpty := hq rfl
      rw [hlast] at hb
      have hpos : (0 : ℚ) < enabled_ttl := by norm_num [enabled_ttl]
      linarith

/-! ### A guard that opens -/

/-- Nothing is cached, and a hundred seconds have passed. -/
def atFirst : State := ⟨100, root, none, 0, 0, false⟩

/-- `auth_enabled` has stored its answer. -/
def cachedTrue : State := ⟨100, root, some true, 103, 0, false⟩

theorem apart_alone {x : State} {p : Pc} {l : Label} : Apart (guard.alone x p) (0, l) := by
  intro _ u hu
  rw [Program.alone_others hu]
  split
  · rfl
  · exact ⟨rfl, rfl⟩
  · rfl
  · trivial

/-- One call alone, up to its answer. -/
theorem stored_reached : System.Reach guard.system Apart (guard.alone cachedTrue (.stored 100 true)) := by
  have hinit : System.Reach guard.system Apart (guard.alone atFirst .idle) :=
    .init (Program.alone_init ⟨by norm_num [atFirst], by norm_num [atFirst], rfl, rfl, rfl⟩)
  have hcall := hinit.next (Program.alone_step (.call : Step atFirst _ _ _ _)) apart_alone
  have hnow := hcall.next (Program.alone_step .now) apart_alone
  have hnone := hnow.next (Program.alone_step (.isNone rfl)) apart_alone
  have hcount := hnone.next (Program.alone_step .count) apart_alone
  have hstore := hcount.next (Program.alone_step .store) apart_alone
  have hstore' := hstore.next (Program.alone_step .store') apart_alone
  have heq : (100 : ℚ) + enabled_ttl = 103 := by norm_num [enabled_ttl]
  have hstate : ({ atFirst with enabled := some true, cachedUntil := 100 + enabled_ttl } : State) =
      cachedTrue := by
    rw [heq]
    rfl
  rw [← hstate]
  exact hstore'

/-- A second call, which finds it. -/
theorem hit_reached : System.Reach guard.system Apart (guard.alone cachedTrue (.hit 100 100)) := by
  have hstored := stored_reached.next (Program.alone_step .fresh) apart_alone
  have hcall := hstored.next (Program.alone_step .call) apart_alone
  have hnow := hcall.next (Program.alone_step .now) apart_alone
  have htest := hnow.next (Program.alone_step (.isNotNone nofun)) apart_alone
  exact htest.next (Program.alone_step (.inTime (by norm_num [cachedTrue]))) apart_alone

/-- `guard_closed` at the answer of the second call. -/
theorem guard_closed_cached : cachedTrue.enabled = some true :=
  guard_closed hit_reached (Program.alone_step (.cached : Step cachedTrue _ _ cachedTrue _))
    (by decide) (by norm_num [Program.alone, cachedTrue, enabled_ttl])

/-- **The cells cleared after the test.** There has been a user all along; a call finds the
cell set, another thread's `set_role` clears it, and the call answers None. -/
theorem cleared_after_test : ¬ ∀ (s s' : Threads State Pc) (t : ℕ) (began : ℚ) (v : Option Bool),
    System.Reachable guard.system s → guard.system.step s (t, .answer began v) s' →
    0 < s.shared.table.count → s.shared.since ≤ began - enabled_ttl → v = some true := by
  intro h
  have hwrite := hit_reached.reachable.next (Program.step_update (t := 1) rfl
    (.write (c := .setRole "root" "admin") ⟨[], [], 0⟩ rfl)) trivial
  have hcommit := hwrite.next (Program.step_update (t := 1) rfl (.commits (.updateRole rfl))) trivial
  have hclear := hcommit.next (Program.step_update (t := 1) rfl .clear) trivial
  have hsince : (cachedTrue.commit (root.setRole .admin "root")).since ≤ 100 - enabled_ttl := by
    have h0 : (cachedTrue.commit (root.setRole .admin "root")).since = 0 := rfl
    rw [h0]
    norm_num [enabled_ttl]
  have hanswer := h _ _ 0 100 none hclear (Program.step_update rfl .cached) (by decide) hsince
  cases hanswer

end Auth.Enabled
