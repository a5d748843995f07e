import Caravan.Python.Rounding

/-!
# Where a request's time went

`RequestClock` has one pair of marks around the queue, `queue_entered` and `admitted`, and `prepMs`
leaves out what lies between the two. The handler sets them around its queue loop: what the loop
does between two waits lies between them too, and the wait in the queue of a pool row's cell comes
after them, in the loop of the legs.

A request's `Way` says how long it took from place to place and how each wait ended; `firstAttempt`
is the handler on that way, up to the first upstream attempt. Times are rational, in seconds.

* `firstAttempt_accounts` — the marks of the clock, from what the request spent where;
* `prep_exact` — what `prepMs` says, and when it is the request's own time: where the loop spent as
  long outside the waits as the pool's rows made the request wait, up to the rounding;
* `poolWait_counted` — a pool row's wait of five seconds is counted as the caravan's own work.
-/

namespace Prep

open Python

/-- `round(x, 1)` -/
def tenths (x : ℚ) : ℚ := Float.roundEven (x * 10) / 10

theorem tenths_error (x : ℚ) : |tenths x - x| ≤ 1 / 20 := by
  have h := Float.roundEven_error (x * 10)
  rw [abs_le] at h ⊢
  unfold tenths
  constructor <;> linarith

/-- Numbers that are further apart than a tenth are told apart. -/
theorem tenths_ne {x y : ℚ} (h : 1 / 10 < |x - y|) : tenths x ≠ tenths y := by
  intro he
  have hx := abs_le.mp (tenths_error x)
  have hy := abs_le.mp (tenths_error y)
  rw [he] at hx
  rcases lt_abs.mp h with h | h <;> linarith

/-! ### The clock -/

/-- `RequestClock`, with the moments of its marks. -/
structure RequestClock where
  cpuStarted : ℚ
  received : ℚ
  queueEntered : Option ℚ := none
  admitted : Option ℚ := none
  legStarted : Option ℚ := none
  connectMs : Option ℚ := none
  reused : Option Bool := none
  sent : Option ℚ := none
  headers : Option ℚ := none
  /-- `first_bytes_at` of the response, where there is a response. -/
  response : Option (Option ℚ) := none
  deriving DecidableEq

namespace RequestClock

/-- A call of the clock but for the two around the queue: each reads the time once. -/
inductive Call where
  | leg_started
  /-- `connected(began, reused)` -/
  | connected (began : ℚ) (reused : Option Bool)
  | sent
  | answered
  /-- The relay has read something, or the end. -/
  | noted (data : Bool)

/-- What a call leaves. -/
def call (clock : RequestClock) (now : ℚ) : Call → RequestClock
  | .leg_started => { clock with legStarted := some (clock.legStarted.getD now) }
  | .connected began reused => { clock with
      connectMs := some (if reused = some true then 0 else (now - began) * 1000), reused }
  | .sent => { clock with sent := some now, headers := none, response := none }
  | .answered => { clock with headers := some now, response := some none }
  | .noted data => { clock with
      response := clock.response.map fun first => if data then some (first.getD now) else first }

/-- What `as_dict` returns. -/
structure Latency where
  prepMs : Option ℚ
  connectMs : Option ℚ
  connReused : Option Bool
  headersMs : Option ℚ
  firstChunkMs : Option ℚ
  cpuMs : ℚ

/-- `prep` in `as_dict`, before it is rounded. -/
def prep (clock : RequestClock) : Option ℚ :=
  clock.legStarted.map fun leg =>
    match clock.queueEntered, clock.admitted with
    | some entered, some admitted => (entered - clock.received) + (leg - admitted)
    | _, _ => leg - clock.received

/-- `as_dict` -/
def as_dict (clock : RequestClock) (cpuNow : ℚ) : Latency :=
  let since_sent (mark : Option ℚ) : Option ℚ := do
    return tenths (((← mark) - (← clock.sent)) * 1000)
  { prepMs := clock.prep.map fun prep => tenths (max 0 prep * 1000)
    connectMs := clock.connectMs.map tenths
    connReused := clock.reused
    headersMs := since_sent clock.headers
    firstChunkMs := since_sent clock.response.join
    cpuMs := tenths ((cpuNow - clock.cpuStarted) * 1000) }

/-- Later legs keep the end of the preparation. -/
theorem prep_call (clock : RequestClock) (now : ℚ) (c : Call) (h : clock.legStarted.isSome) :
    (clock.call now c).prep = clock.prep := by
  obtain ⟨leg, hleg⟩ := Option.isSome_iff_exists.mp h
  cases c with
  | leg_started => simp [call, prep, hleg]
  | connected => rfl
  | sent => rfl
  | answered => rfl
  | noted => rfl

theorem legStarted_call (clock : RequestClock) (now : ℚ) (c : Call)
    (h : clock.legStarted.isSome) : (clock.call now c).legStarted.isSome := by
  cases c with
  | leg_started => rfl
  | connected => exact h
  | sent => exact h
  | answered => exact h
  | noted => exact h

theorem prep_calls (clock : RequestClock) (calls : List (ℚ × Call)) (h : clock.legStarted.isSome) :
    (calls.foldl (fun clock c => clock.call c.1 c.2) clock).prep = clock.prep := by
  induction calls generalizing clock with
  | nil => rfl
  | cons c calls ih =>
    rw [List.foldl_cons, ih _ (clock.legStarted_call c.1 c.2 h), clock.prep_call c.1 c.2 h]

end RequestClock

/-! ### The way of a request -/

/-- How `wait_for_proxy_slot` ends in the queue loop. -/
inductive QueueEnd where
  | admitted
  /-- `ProxyQueueSpill`: whether the new route is a cloud's, none where it cannot be routed. -/
  | spill (target : Option Bool)
  | cloudFallback
  /-- `ProxyClientDisconnected` and `ProxyRequestBlocked` -/
  | ended

/-- One turn of the queue loop: what it does before the wait, the wait, and what it does after. -/
structure Turn where
  before : ℚ≥0
  wait : ℚ≥0
  how : QueueEnd
  after : ℚ≥0

/-- How the wait in the queue of a pool row's cell ends. -/
inductive RowEnd where
  | admitted
  /-- The queue gave up, and the pool's next row is asked. -/
  | nextRow
  /-- The queue gave up with no row left, or the client is gone. -/
  | ended

/-- One pass of the leg loop, as far as it gets before an upstream attempt. -/
inductive Leg where
  /-- A provider, or a cell whose queue admitted the request before: at once. -/
  | direct (work : ℚ≥0)
  /-- A pool's row of a local model: the cell's queue, and what follows the wait. -/
  | localRow (before wait : ℚ≥0) (how : RowEnd) (after : ℚ≥0)
  /-- The pool refuses, and the next exit is taken. -/
  | refused (work : ℚ≥0)

structure Way where
  /-- From the receipt to `queue_entered`. -/
  first : ℚ≥0
  /-- `route_is_cloud` -/
  cloud : Bool
  /-- A cloud's route is paused, or is being drained. -/
  paused : Bool
  turns : List Turn
  /-- From the end of the loop to `admitted`. -/
  last : ℚ≥0
  legs : List Leg

/-- A request on its way: the moment, and what it has spent where. -/
structure Spent where
  now : ℚ
  /-- Its own work outside the queue loop. -/
  work : ℚ
  /-- In the queue loop, outside the waits. -/
  loop : ℚ
  /-- In `wait_for_proxy_slot`, from the loop. -/
  queue : ℚ
  /-- In `wait_for_proxy_slot`, from a pool's leg. -/
  row : ℚ

namespace Spent

def working (s : Spent) (d : ℚ≥0) : Spent := { s with now := s.now + d, work := s.work + d }

def looping (s : Spent) (d : ℚ≥0) : Spent := { s with now := s.now + d, loop := s.loop + d }

def queueing (s : Spent) (d : ℚ≥0) : Spent := { s with now := s.now + d, queue := s.queue + d }

def rowWait (s : Spent) (d : ℚ≥0) : Spent := { s with now := s.now + d, row := s.row + d }

end Spent

/-- The queue loop of the handler: none where the request ends in it. -/
def queueLoop : Bool → ℕ → List Turn → Spent → Option Spent
  | true, _, _, s => some s
  | false, _, [], _ => none
  | false, spill_guard, turn :: turns, s =>
    let s := (s.looping turn.before).queueing turn.wait
    match turn.how with
    | .admitted => some (s.looping turn.after)
    | .cloudFallback => some (s.looping turn.after)
    | .ended => none
    | .spill none => none
    | .spill (some cloud) =>
      if 8 < spill_guard + 1 then none
      else queueLoop cloud (spill_guard + 1) turns (s.looping turn.after)

/-- The leg loop, up to the first upstream attempt: none where there is none. -/
def legLoop : List Leg → Spent → Option Spent
  | [], _ => none
  | .direct work :: _, s => some (s.working work)
  | .localRow before wait how after :: legs, s =>
    let s := (s.working before).rowWait wait
    match how with
    | .admitted => some (s.working after)
    | .nextRow => legLoop legs (s.working after)
    | .ended => none
  | .refused work :: legs, s => legLoop legs (s.working work)

/-- The handler, from the receipt to its first upstream attempt. -/
def firstAttempt (way : Way) (received cpuStarted : ℚ) : Option (RequestClock × Spent) := do
  let s : Spent := (⟨received, 0, 0, 0, 0⟩ : Spent).working way.first
  let clock : RequestClock := { cpuStarted, received, queueEntered := some s.now }
  guard (¬(way.cloud ∧ way.paused))
  let s ← queueLoop way.cloud 0 way.turns s
  let s := s.looping way.last
  let clock := { clock with admitted := some s.now }
  let s ← legLoop way.legs s
  return (clock.call s.now .leg_started, s)

/-! ### What the marks say -/

variable {s s' : Spent}

/-- The queue loop spends time in its waits and outside them, and nowhere else. -/
theorem queueLoop_spends {turns : List Turn} {cloud : Bool} {spill_guard : ℕ}
    (h : queueLoop cloud spill_guard turns s = some s') :
    s'.now - s.now = (s'.loop - s.loop) + (s'.queue - s.queue) ∧ s'.work = s.work ∧
      s'.row = s.row := by
  induction turns generalizing cloud spill_guard s with
  | nil =>
    cases cloud with
    | true =>
      obtain rfl := Option.some.inj h
      exact ⟨by ring, rfl, rfl⟩
    | false => exact nomatch h
  | cons turn turns ih =>
    cases cloud with
    | true =>
      obtain rfl := Option.some.inj h
      exact ⟨by ring, rfl, rfl⟩
    | false =>
      rw [queueLoop] at h
      -- one turn, and what it leaves after its wait
      have hturn (d : ℚ≥0) : let t := ((s.looping turn.before).queueing turn.wait).looping d
          t.now - s.now = (t.loop - s.loop) + (t.queue - s.queue) := by
        simp only [Spent.looping, Spent.queueing]
        ring
      split at h
      · obtain rfl := Option.some.inj h
        exact ⟨hturn turn.after, rfl, rfl⟩
      · obtain rfl := Option.some.inj h
        exact ⟨hturn turn.after, rfl, rfl⟩
      · exact nomatch h
      · exact nomatch h
      · split_ifs at h
        obtain ⟨htime, hwork, hrow⟩ := ih h
        have ht := hturn turn.after
        dsimp only at ht
        exact ⟨by linarith, hwork, hrow⟩

/-- The leg loop spends time in its own work and in the waits of the pool's rows. -/
theorem legLoop_spends {legs : List Leg} (h : legLoop legs s = some s') :
    s'.now - s.now = (s'.work - s.work) + (s'.row - s.row) ∧ s'.loop = s.loop ∧
      s'.queue = s.queue ∧ s.work ≤ s'.work ∧ s.row ≤ s'.row := by
  induction legs generalizing s with
  | nil => exact nomatch h
  | cons leg legs ih =>
    cases leg with
    | direct work =>
      obtain rfl := Option.some.inj h
      have := work.coe_nonneg
      simp only [Spent.working]
      exact ⟨by ring, trivial, trivial, by linarith, le_rfl⟩
    | refused work =>
      obtain ⟨htime, hloop, hqueue, hwork, hrow⟩ := ih h
      have := work.coe_nonneg
      simp only [Spent.working] at htime hloop hqueue hwork hrow
      exact ⟨by linarith, hloop, hqueue, by linarith, hrow⟩
    | localRow before wait how after =>
      have hbefore := before.coe_nonneg
      have hwait := wait.coe_nonneg
      have hafter := after.coe_nonneg
      cases how with
      | admitted =>
        obtain rfl := Option.some.inj h
        simp only [Spent.working, Spent.rowWait]
        exact ⟨by ring, trivial, trivial, by linarith, by linarith⟩
      | nextRow =>
        obtain ⟨htime, hloop, hqueue, hwork, hrow⟩ := ih h
        simp only [Spent.working, Spent.rowWait] at htime hloop hqueue hwork hrow
        exact ⟨by linarith, hloop, hqueue, by linarith, by linarith⟩
      | ended => exact nomatch h

/-- **What the marks say.** Every moment before the attempt was spent in one of four ways, and the
clock takes the handler's own work outside the loop and the waits for a pool's rows. -/
theorem firstAttempt_accounts {way : Way} {received cpuStarted : ℚ} {clock : RequestClock}
    (h : firstAttempt way received cpuStarted = some (clock, s)) :
    clock.legStarted.isSome ∧ clock.prep = some (s.work + s.row) ∧ 0 ≤ s.work + s.row ∧
      s.now = received + (s.work + s.loop + s.queue + s.row) := by
  unfold firstAttempt at h
  obtain ⟨-, -, h⟩ := Option.bind_eq_some_iff.mp h
  obtain ⟨q, hq, h⟩ := Option.bind_eq_some_iff.mp h
  obtain ⟨l, hl, h⟩ := Option.bind_eq_some_iff.mp h
  obtain ⟨rfl, rfl⟩ := Prod.mk.inj (Option.some.inj h)
  obtain ⟨hqtime, hqwork, hqrow⟩ := queueLoop_spends hq
  obtain ⟨htime, hloop, hqueue, hwork, hrow⟩ := legLoop_spends hl
  have hfirst := way.first.coe_nonneg
  simp only [Spent.working, Spent.looping] at hqtime hqwork hqrow htime hloop hqueue hwork hrow
  refine ⟨rfl, ?_, by linarith, by linarith⟩
  simp only [RequestClock.call, RequestClock.prep, Option.map_some, Option.getD_none,
    Spent.working, Spent.looping, Option.some.injEq]
  linarith

/-- **The preparation of a request.** Take any way to a first upstream attempt, and any calls of
the clock after it. `prepMs` is the time from the receipt to the attempt less the waits exactly
when the pool's rows made the request wait as long as the queue loop took outside its waits, up to
the rounding to a tenth: it is where the two are the same, and it is not where they are more than
a tenth of a millisecond apart. -/
theorem prep_exact (way : Way) {received cpuStarted : ℚ} {clock : RequestClock}
    (h : firstAttempt way received cpuStarted = some (clock, s))
    (later : List (ℚ × RequestClock.Call)) (cpuNow : ℚ) :
    let prepMs := ((later.foldl (fun clock c => clock.call c.1 c.2) clock).as_dict cpuNow).prepMs
    let own := (s.now - received) - (s.queue + s.row)
    (prepMs = some (tenths (own * 1000)) ↔
        tenths ((own + (s.row - s.loop)) * 1000) = tenths (own * 1000)) ∧
      (s.row = s.loop → prepMs = some (tenths (own * 1000))) ∧
      (prepMs = some (tenths (own * 1000)) → |s.row - s.loop| ≤ 1 / 10000) := by
  obtain ⟨hleg, hprep, hnonneg, hnow⟩ := firstAttempt_accounts h
  intro prepMs own
  have hown : own + (s.row - s.loop) = s.work + s.row := by
    show (s.now - received) - (s.queue + s.row) + (s.row - s.loop) = _
    linarith
  have hms : prepMs = some (tenths ((own + (s.row - s.loop)) * 1000)) := by
    show Option.map _ (RequestClock.prep _) = _
    rw [RequestClock.prep_calls clock later hleg, hprep, Option.map_some, max_eq_right hnonneg,
      hown]
  have hiff : prepMs = some (tenths (own * 1000)) ↔
      tenths ((own + (s.row - s.loop)) * 1000) = tenths (own * 1000) := by
    rw [hms, Option.some.injEq]
  refine ⟨hiff, fun he => ?_, fun he => ?_⟩
  · rw [hiff, he, sub_self, add_zero]
  · by_contra hfar
    refine tenths_ne ?_ (hiff.mp he)
    have hdiff : (own + (s.row - s.loop)) * 1000 - own * 1000 = (s.row - s.loop) * 1000 := by ring
    rw [hdiff, abs_mul, abs_of_pos (by norm_num : (0 : ℚ) < 1000)]
    rw [not_le] at hfar
    linarith

/-! ### Two requests -/

/-- A request that waits three seconds in its queue, and then goes to the cell. -/
def queued : Way := ⟨0, false, false, [⟨0, 3, .admitted, 0⟩], 0, [.direct 0]⟩

/-- A pool's request, whose row of a local model waits five seconds for its cell. -/
def pooled : Way := ⟨0, true, false, [], 0, [.localRow 0 5 .admitted 0]⟩

/-- The wait in the queue is left out. -/
theorem prep_queued :
    ∃ clock s, firstAttempt queued 0 0 = some (clock, s) ∧ s.queue = 3 ∧
      (clock.as_dict 0).prepMs = some (tenths (((s.now - 0) - (s.queue + s.row)) * 1000)) := by
  have hrun : firstAttempt queued 0 0 = some (_, _) := rfl
  refine ⟨_, _, hrun, ?_, (prep_exact queued hrun [] 0).2.1 ?_⟩
  · show (0 : ℚ) + ((3 : ℚ≥0) : ℚ) = 3
    norm_num
  · show (0 : ℚ) = 0 + ((0 : ℚ≥0) : ℚ) + ((0 : ℚ≥0) : ℚ) + ((0 : ℚ≥0) : ℚ)
    norm_num

/-- **A pool row's wait is counted.** The request did nothing but wait for the cell, and `prepMs`
says that the caravan worked for five seconds. -/
theorem poolWait_counted :
    ∃ clock s, firstAttempt pooled 0 0 = some (clock, s) ∧ (s.now - 0) - (s.queue + s.row) = 0 ∧
      (clock.as_dict 0).prepMs = some (tenths (5 * 1000)) ∧
      tenths (5 * 1000) ≠ tenths (((s.now - 0) - (s.queue + s.row)) * 1000) := by
  have hrun : firstAttempt pooled 0 0 = some (_, _) := rfl
  obtain ⟨-, hprep, hnonneg, -⟩ := firstAttempt_accounts hrun
  refine ⟨_, _, hrun, ?_, ?_, ?_⟩
  · simp only [Spent.working, Spent.looping, Spent.rowWait, pooled]
    norm_num
  · rw [RequestClock.as_dict, hprep, Option.map_some, max_eq_right hnonneg]
    simp only [Spent.working, Spent.looping, Spent.rowWait, pooled]
    norm_num
  · refine tenths_ne ?_
    simp only [Spent.working, Spent.looping, Spent.rowWait, pooled]
    norm_num

end Prep
