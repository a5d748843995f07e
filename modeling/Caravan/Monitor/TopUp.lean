import Caravan.Monitor.HostRows
import Caravan.Monitor.IncidentLog

/-!
# The monitor, topped up

A board polls the monitor once a second. The first answer is whole; later the board says the second
of the newest sample it has been told of, is sent the samples and the incidents stamped after it,
and puts them behind what it holds (`mergeMonitor`). The machines' rows have cursors of their own.

* `topped_up` — in every run whose steps meet `Met`, a board holds after each poll what a poll
  without a cursor would have given, up to what the retention cuts;
* `Kept` — why: from the retention's bound on, what is held is a copy up to the cursor;
* `sent_twice` — an incident of the second in which a sample is being made is newer than the newest
  sample: it is sent with two polls.
-/

namespace TopUp

open Python Cursor

variable {β : Type}

/-! ### The controller -/

/-- A slim sample: the second at which it was begun, and what it says. -/
structure Sample (β : Type) where
  time : ℤ
  reading : β

def Sample.stamp (s : Sample β) : ℚ := s.time

/-- What the functions read of the interpreter and of the settings. -/
structure Setting where
  words : Incidents.Words
  numbers : HostRows.Numbers
  /-- `monitor_retention_seconds()` -/
  retention : ℕ
  /-- `INCIDENT_RETENTION_SECONDS` -/
  incidents : Incidents.Retention

variable (S : Setting)

/-- The clock, `monitor_history`, the second of the sample that is being made, the rows of the
incident log, and `HostTelemetry._rows`. -/
structure Controller (β : Type) where
  now : ℚ
  history : List (Sample β)
  making : Option ℤ
  log : List Incidents.Row
  rows : HostRows.Machines β

/-- Of the samples, what is not kept. -/
def Controller.bound (c : Controller β) : ℚ := c.now - S.retention

/-- Of the incidents, what is not shown. -/
def Controller.incidentBound (c : Controller β) : ℚ := c.now - S.incidents.seconds

/-- `trim_monitor_history` -/
def Controller.trimMonitorHistory (c : Controller β) : Controller β :=
  { c with history := c.history.dropWhile fun s => s.stamp < c.bound S }

/-- The incident log as a file of records. -/
def logFile (rows : List Incidents.Row) : Incidents.Log := { lines := rows.map .record }

/-- `load_incident_log(limit=200)` -/
def Controller.incidents (c : Controller β) : List Incidents.Row :=
  Incidents.loadLog S.words S.incidents c.now (some (logFile c.log)) 200

/-- `append_incidents_from_sample`, the rows that are new: they are written, and the log is
trimmed. -/
def Controller.logged (c : Controller β) (rows : List Incidents.Row) : Controller β :=
  { c with log := ((Incidents.trimLog S.words S.incidents c.now
      (some ((logFile c.log).append rows))).map Incidents.Log.rows).getD [] }

/-- The second of the newest sample, zero where there is none. -/
def newestSample (history : List (Sample β)) : ℤ := (history.getLast?.map Sample.time).getD 0

/-- An answer. -/
structure Payload (β : Type) where
  part : Bool
  newestSample : ℤ
  samples : List (Sample β)
  incidents : List Incidents.Row
  time : ℤ
  hosts : HostRows.Machines β

/-- `system_monitor_state`, its history trimmed, and the route's `hosts`. -/
def systemMonitorState (c : Controller β) (since : ℤ) (held : List (Text × ℤ)) : Payload β where
  part := 0 < since
  newestSample := newestSample c.history
  samples := if 0 < since then after Sample.stamp since c.history else c.history
  incidents := if 0 < since then after Incidents.Row.time since (c.incidents S) else c.incidents S
  time := ⌊c.now⌋
  hosts := HostRows.since held c.rows

/-- What a poll without `since` gives. -/
def whole (c : Controller β) : Payload β := systemMonitorState S (c.trimMonitorHistory S) 0 []

/-! ### The page -/

/-- Of `ui.latestSystemMonitor`. -/
structure Held (β : Type) where
  samples : List (Sample β)
  incidents : List Incidents.Row
  hosts : HostRows.Machines β

/-- `_monitorSince`, and what is held. -/
structure Page (β : Type) where
  since : ℤ
  held : Option (Held β)

/-- `mergeMonitor` -/
def mergeMonitor (page : Page β) (payload : Payload β) : Page β :=
  match payload.part, page.held with
  | true, some prev =>
    { since := if payload.newestSample ≠ 0 then payload.newestSample else page.since
      held := some
        { samples := fromFirst (fun s => (payload.time : ℚ) - S.retention ≤ s.stamp)
            (prev.samples ++ payload.samples)
          incidents := fromFirst (fun r => (payload.time : ℚ) - S.incidents.seconds ≤ r.time)
            (prev.incidents ++ payload.incidents)
          hosts := HostRows.mergeHostRows prev.hosts payload.hosts } }
  | _, _ =>
    { since := payload.newestSample
      held := some ⟨payload.samples, payload.incidents, payload.hosts⟩ }

/-- `monitorUrl`, as the server reads it: what is held of the machines, where there is a cursor. -/
def Page.hostsSince (page : Page β) : List (Text × ℤ) :=
  if page.since = 0 then []
  else HostRows.held S.numbers
    (HostRows.hostsHeld S.numbers ((page.held.map Held.hosts).getD []))

/-! ### Runs -/

structure State (β : Type) where
  controller : Controller β
  page : Page β

inductive Event (β : Type) where
  | clock (t : ℚ)
  /-- the sampler takes the second of its next sample -/
  | begins
  /-- it writes incidents -/
  | logs (rows : List Incidents.Row)
  /-- it appends the sample -/
  | samples (reading : β)
  /-- a machine's scout has answered -/
  | pulled (id : Text) (answer : List (HostRows.Row β))
  | polls
  /-- a poll whose answer does not arrive -/
  | lost

/-- `refreshSystemMonitor` -/
def State.poll (s : State β) : State β :=
  let c := s.controller.trimMonitorHistory S
  ⟨c, mergeMonitor S s.page (systemMonitorState S c s.page.since (s.page.hostsSince S))⟩

def next (s : State β) : Event β → State β
  | .clock t => { s with controller := { s.controller with now := t } }
  | .begins => { s with controller := { s.controller with making := some ⌊s.controller.now⌋ } }
  | .logs rows => { s with controller := s.controller.logged S rows }
  | .samples reading =>
    { s with controller := ({ s.controller with
        history := s.controller.history ++
          s.controller.making.toList.map fun time => ⟨time, reading⟩
        making := none } : Controller β).trimMonitorHistory S }
  | .pulled id answer =>
    { s with controller := { s.controller with
        rows := HostRows.pulled s.controller.rows id answer } }
  | .polls => s.poll S
  | .lost => { s with controller := s.controller.trimMonitorHistory S }

/-- When an event comes: one sample is made at a time, incidents that are written are shown and
stamped by this clock, a machine has a name and its rows stamps that both sides have. -/
def Comes (s : State β) : Event β → Prop
  | .begins => s.controller.making = none
  | .logs rows => rows ≠ [] ∧
      ∀ row ∈ rows, row.shown S.words S.incidents s.controller.now = true ∧ 0 < row.time
  | .samples _ => s.controller.making ≠ none
  | .pulled id answer => id ≠ [] ∧ ∀ r ∈ answer, S.numbers.Plain r.t
  | _ => True

/-- A controller whose stamps are of its clock, and a page that has just been opened. -/
structure Starts (s : State β) : Prop where
  clock : 0 ≤ s.controller.now
  ordered : Ordered Sample.stamp s.controller.history
  stamps : ∀ x ∈ s.controller.history, 0 ≤ x.time ∧ x.time ≤ ⌊s.controller.now⌋
  making : s.controller.making = none
  log : ∀ row ∈ s.controller.log, 0 < row.time
  rows : s.controller.rows = []
  page : s.page = ⟨0, none⟩

/-- Samples, incidents, rows and polls, in any order. -/
def monitor : System (State β) (Event β) where
  init := Starts
  step s e s' := Comes S s e ∧ s' = next S s e

/-- The cursor after a poll. -/
def State.cursor (s : State β) : ℤ :=
  let newest := newestSample (s.controller.trimMonitorHistory S).history
  if newest ≠ 0 then newest else s.page.since

/-- The incidents that the page holds and that are not too old to be shown. -/
def State.heldIncidents (s : State β) : List Incidents.Row :=
  kept Incidents.Row.time (s.controller.incidentBound S) ((s.page.held.map Held.incidents).getD [])

/-- **The steps at which nothing is missed, sent twice or out of order**: the clock does not go
back; what is sampled or written down is stamped after the page's cursor; no incident that a poll
shows is stamped after the cursor that the poll gives; a poll finds incidents stamped after the
page's cursor only where the page holds none; a machine's name has no comma and begins with no
blank. -/
def Met (s : State β) : Event β → Prop
  | .clock t => s.controller.now ≤ t
  | .samples _ => s.page.since = 0 ∨ ∀ time ∈ s.controller.making, s.page.since < time
  | .logs rows => s.page.since = 0 ∨ ∀ row ∈ rows, s.page.since < row.time
  | .pulled id _ => HostRows.comma ∉ id ∧ id.Flush
  | .polls =>
    (s.cursor S = 0 ∨ ∀ row ∈ s.controller.incidents S, row.time ≤ s.cursor S) ∧
      (s.page.since = 0 ∨ (∀ row ∈ s.controller.incidents S, row.time ≤ s.page.since) ∨
        s.heldIncidents S = [])
  | _ => True

/-- **What is held is what a poll without a cursor gives**, up to what the retention cuts. -/
structure Agrees (s : State β) (h : Held β) : Prop where
  samples : kept Sample.stamp (s.controller.bound S) h.samples = (whole S s.controller).samples
  incidents : kept Incidents.Row.time (s.controller.incidentBound S) h.incidents =
    (whole S s.controller).incidents
  hosts : ∀ id, HostRows.rowsOf h.hosts id = HostRows.rowsOf (whole S s.controller).hosts id

/-! ### The incident log -/

section Log

variable {S}

/-- The rows of the log that are shown. -/
def Controller.shown (c : Controller β) : List Incidents.Row :=
  c.log.filter (Incidents.Row.shown S.words S.incidents c.now)

/-- The newest first. -/
def newestFirst (rows : List Incidents.Row) : List Incidents.Row :=
  rows.insertionSort fun a b => b.sortKey ≤ a.sortKey

theorem newestFirst_perm (rows : List Incidents.Row) : (newestFirst rows).Perm rows :=
  List.perm_insertionSort _ _

theorem rows_logFile (rows : List Incidents.Row) : (logFile rows).rows = rows := by
  rw [Incidents.Log.rows, Incidents.Log.all, logFile, Option.toList_none, List.append_nil]
  exact Incidents.filterMap_record rows

theorem readable_logFile (rows : List Incidents.Row) : .damaged ∉ (logFile rows).all := by
  rw [Incidents.Log.all, logFile, Option.toList_none, List.append_nil]
  intro hin
  obtain ⟨row, -, hrow⟩ := List.mem_map.mp hin
  cases hrow

theorem append_logFile (log rows : List Incidents.Row) :
    (logFile log).append rows = logFile (log ++ rows) := by
  cases rows with
  | nil => rw [List.append_nil]; rfl
  | cons row rows =>
    rw [Incidents.Log.append, logFile, logFile, List.map_append]
    rfl

theorem load_logFile (w : Incidents.Words) (r : Incidents.Retention) (now : ℚ)
    (rows : List Incidents.Row) (limit : ℕ) :
    Incidents.loadLog w r now (some (logFile rows)) limit =
      (newestFirst (rows.filter (Incidents.Row.shown w r now))).take limit := by
  rw [Incidents.loadLog, Incidents.shownRows_readable (readable_logFile rows), rows_logFile]
  rfl

theorem incidents_eq (c : Controller β) :
    c.incidents S = (newestFirst (c.shown (S := S))).take 200 := load_logFile ..

/-- What the trim leaves of the rows, and of some new ones. -/
theorem logged_eq (c : Controller β) (rows : List Incidents.Row) :
    (c.logged S rows).log =
      (((newestFirst ((c.log ++ rows).filter
        (Incidents.Row.shown S.words S.incidents c.now))).take 10000).filter fun row =>
          c.now - S.incidents.seconds ≤ row.time).insertionSort fun a b => a.time ≤ b.time := by
  rw [Controller.logged, append_logFile, Incidents.trimLog, ← load_logFile, Option.map_some,
    Option.getD_some]
  exact rows_logFile _

theorem mem_logged {c : Controller β} {rows : List Incidents.Row} {row : Incidents.Row} :
    row ∈ (c.logged S rows).log ↔
      row ∈ (newestFirst ((c.log ++ rows).filter
        (Incidents.Row.shown S.words S.incidents c.now))).take 10000 ∧
          c.now - S.incidents.seconds ≤ row.time := by
  rw [logged_eq, (List.perm_insertionSort _ _).mem_iff, List.mem_filter, decide_eq_true_iff]

/-- A row that the trim leaves was there or is new. -/
theorem of_mem_logged {c : Controller β} {rows : List Incidents.Row} {row : Incidents.Row}
    (h : row ∈ (c.logged S rows).log) : row ∈ c.log ∨ row ∈ rows := by
  have hin := (newestFirst_perm _).subset (List.mem_of_mem_take (mem_logged.mp h).1)
  exact List.mem_append.mp (List.mem_of_mem_filter hin)

/-- A row that is stamped is sorted by its stamp. -/
theorem sortKey_eq {row : Incidents.Row} (h : 0 < row.time) : row.sortKey = row.time :=
  if_pos h.ne'

/-- The newest of the shown rows comes first. -/
theorem newestFirst_falling {rows : List Incidents.Row} (h : ∀ row ∈ rows, 0 < row.time) :
    (newestFirst rows).Pairwise fun a b => b.time ≤ a.time := by
  have hsorted : (newestFirst rows).Pairwise fun a b => b.sortKey ≤ a.sortKey :=
    List.pairwise_insertionSort _ _
  refine hsorted.imp_of_mem fun {a b} ha hb hle => ?_
  rw [sortKey_eq (h a ((newestFirst_perm rows).subset ha)),
    sortKey_eq (h b ((newestFirst_perm rows).subset hb))] at hle
  exact hle

/-- Of the first entries of a list in falling order one is as new as any of the list. -/
theorem exists_first {rows : List Incidents.Row} (h : rows.Pairwise fun a b => b.time ≤ a.time)
    {n : ℕ} (hn : 0 < n) {row : Incidents.Row} (hrow : row ∈ rows) :
    ∃ first ∈ rows.take n, row.time ≤ first.time := by
  cases rows with
  | nil => exact nomatch hrow
  | cons first rows =>
    cases n with
    | zero => exact absurd hn (lt_irrefl _)
    | succ n =>
      refine ⟨first, by rw [List.take_succ_cons]; exact List.mem_cons_self, ?_⟩
      rcases List.mem_cons.mp hrow with rfl | hrow
      · exact le_rfl
      · exact (List.pairwise_cons.mp h).1 row hrow

end Log

/-! ### What a run keeps -/

/-- What the controller has recorded. -/
structure Recorded (c : Controller β) : Prop where
  clock : 0 ≤ c.now
  ordered : Ordered Sample.stamp c.history
  stamps : ∀ x ∈ c.history, 0 ≤ x.time ∧ x.time ≤ ⌊c.now⌋
  making : ∀ time ∈ c.making, 0 ≤ time ∧ time ≤ ⌊c.now⌋ ∧ ∀ x ∈ c.history, x.time ≤ time
  log : ∀ row ∈ c.log, 0 < row.time
  rows : HostRows.Sound S.numbers c.rows

/-- The incidents that are held and can still be shown are those of the log, as long as none of the
log is stamped after the cursor; and then none of the log is left without a newer one that is
held. -/
structure KeptIncidents (c : Controller β) (since : ℤ) (held : List Incidents.Row) : Prop where
  upto : ∀ x ∈ kept Incidents.Row.time (c.incidentBound S) held, x.time ≤ since
  older : ∀ row ∈ c.shown (S := S), row.time ≤ since →
    ∃ x ∈ kept Incidents.Row.time (c.incidentBound S) held, row.time ≤ x.time
  news : kept Incidents.Row.time (c.incidentBound S) held = c.incidents S ∨
    ∃ row ∈ c.log, row.hidden S.words = false ∧ since < row.time

/-- **What a page holds, behind a cursor.** -/
structure Kept (c : Controller β) (since : ℤ) (h : Held β) : Prop where
  samples : Copies Sample.stamp (c.bound S) since h.samples c.history
  incidents : KeptIncidents S c since h.incidents
  hosts : HostRows.Board S.numbers c.rows h.hosts

structure Inv (s : State β) : Prop where
  recorded : Recorded S s.controller
  page : s.page.since ≠ 0 → 0 < s.page.since ∧ ∃ h, s.page.held = some h ∧
    Kept S s.controller s.page.since h

section Steps

variable {S} {c c' : Controller β} {since : ℤ} {held : List Incidents.Row} {h : Held β}

theorem mem_shown {row : Incidents.Row} :
    row ∈ c.shown (S := S) ↔
      row ∈ c.log ∧ row.hidden S.words = false ∧ c.incidentBound S ≤ row.time := by
  rw [Controller.shown, List.mem_filter, Incidents.Row.shown, Bool.and_eq_true, Bool.not_eq_true',
    decide_eq_true_iff]
  rfl

theorem mem_incidents {row : Incidents.Row} (hrow : row ∈ c.incidents S) :
    row ∈ c.shown (S := S) := by
  rw [incidents_eq] at hrow
  exact (newestFirst_perm _).subset (List.mem_of_mem_take hrow)

/-- Of the shown incidents one that is sent is as new as any. -/
theorem exists_incident (hlog : ∀ row ∈ c.log, 0 < row.time) {row : Incidents.Row}
    (hrow : row ∈ c.shown (S := S)) : ∃ first ∈ c.incidents S, row.time ≤ first.time := by
  rw [incidents_eq]
  exact exists_first (newestFirst_falling fun r hr => hlog r (mem_shown.mp hr).1) (by decide)
    ((newestFirst_perm _).mem_iff.mpr hrow)

/-- What is held is what is shown, and none of it is stamped after the cursor. -/
theorem KeptIncidents.of_shown (hlog : ∀ row ∈ c.log, 0 < row.time)
    (heq : kept Incidents.Row.time (c.incidentBound S) held = c.incidents S)
    (hupto : ∀ row ∈ c.incidents S, row.time ≤ since) : KeptIncidents S c since held := by
  refine ⟨?_, fun row hrow _ => ?_, .inl heq⟩
  · rw [heq]
    exact hupto
  · rw [heq]
    exact exists_incident hlog hrow

/-- Time passes. -/
theorem KeptIncidents.later (hk : KeptIncidents S c since held)
    (hlog : ∀ row ∈ c.log, 0 < row.time) (hc : c'.log = c.log) (hnow : c.now ≤ c'.now) :
    KeptIncidents S c' since held := by
  have hbound : c.incidentBound S ≤ c'.incidentBound S := sub_le_sub_right hnow _
  have hkept : kept Incidents.Row.time (c'.incidentBound S) held =
      kept Incidents.Row.time (c'.incidentBound S)
        (kept Incidents.Row.time (c.incidentBound S) held) := (kept_kept hbound).symm
  refine ⟨fun x hx => ?_, fun row hrow hle => ?_, ?_⟩
  · rw [hkept] at hx
    exact hk.upto x (mem_kept.mp hx).1
  · obtain ⟨hin, hhidden, hshown⟩ := mem_shown.mp hrow
    rw [hc] at hin
    obtain ⟨x, hx, hle'⟩ := hk.older row (mem_shown.mpr ⟨hin, hhidden, hbound.trans hshown⟩) hle
    refine ⟨x, ?_, hle'⟩
    rw [hkept]
    exact mem_kept.mpr ⟨hx, hshown.trans hle'⟩
  · rcases hk.news with heq | ⟨row, hin, hhidden, hlt⟩
    · -- what is shown later is what is left of what is shown now
      left
      have hshown : c'.shown (S := S) =
          (c.shown (S := S)).filter fun row => c'.incidentBound S ≤ row.time := by
        rw [Controller.shown, Controller.shown, List.filter_filter, hc]
        refine List.filter_congr fun row _ => ?_
        have himp : c'.incidentBound S ≤ row.time → c.incidentBound S ≤ row.time := hbound.trans
        unfold Incidents.Row.shown
        change (!row.hidden S.words && decide (c'.incidentBound S ≤ row.time)) =
          (decide (c'.incidentBound S ≤ row.time) &&
            (!row.hidden S.words && decide (c.incidentBound S ≤ row.time)))
        cases row.hidden S.words with
        | true => exact (Bool.and_false _).symm
        | false =>
          rw [Bool.not_false, Bool.true_and, Bool.true_and, eq_comm, Bool.and_eq_left_iff_imp,
            decide_eq_true_iff, decide_eq_true_iff]
          exact himp
      have htotal : Std.Total fun a b : Incidents.Row => b.sortKey ≤ a.sortKey :=
        ⟨fun a b => le_total _ _⟩
      have htrans : IsTrans Incidents.Row fun a b => b.sortKey ≤ a.sortKey :=
        ⟨fun _ _ _ hab hbc => hbc.trans hab⟩
      have hsort : newestFirst (c'.shown (S := S)) =
          kept Incidents.Row.time (c'.incidentBound S) (newestFirst (c.shown (S := S))) := by
        rw [hshown]
        exact insertionSort_filter _ _ _
      have hfalling : (newestFirst (c.shown (S := S))).Pairwise fun a b => b.time ≤ a.time :=
        newestFirst_falling fun r hr => hlog r (mem_shown.mp hr).1
      calc kept Incidents.Row.time (c'.incidentBound S) held
          = kept Incidents.Row.time (c'.incidentBound S) (c.incidents S) := by rw [hkept, heq]
        _ = (newestFirst (c'.shown (S := S))).take 200 := by
          rw [incidents_eq, kept_take hfalling, hsort]
        _ = c'.incidents S := (incidents_eq c').symm
    · exact .inr ⟨row, hc ▸ hin, hhidden, hlt⟩

/-- Incidents are written, all of them stamped after the cursor. -/
theorem KeptIncidents.logs (hk : KeptIncidents S c since held)
    (hlog : ∀ row ∈ c.log, 0 < row.time) {rows : List Incidents.Row} (hne : rows ≠ [])
    (hshown : ∀ row ∈ rows, row.shown S.words S.incidents c.now = true ∧ 0 < row.time)
    (hafter : ∀ row ∈ rows, since < row.time) : KeptIncidents S (c.logged S rows) since held := by
  refine ⟨hk.upto, fun row hrow hle => ?_, .inr ?_⟩
  · obtain ⟨hin, hhidden, hbound⟩ := mem_shown.mp hrow
    rcases of_mem_logged hin with hin | hin
    · exact hk.older row (mem_shown.mpr ⟨hin, hhidden, hbound⟩) hle
    · exact absurd hle (hafter row hin).not_ge
  · -- the newest of all that is shown is left by the trim
    obtain ⟨row, hrow⟩ := List.exists_mem_of_ne_nil _ hne
    have hpositive : ∀ r ∈ (c.log ++ rows).filter
        (Incidents.Row.shown S.words S.incidents c.now), 0 < r.time := by
      intro r hr
      rcases List.mem_append.mp (List.mem_of_mem_filter hr) with hr | hr
      · exact hlog r hr
      · exact (hshown r hr).2
    have hin : row ∈ newestFirst ((c.log ++ rows).filter
        (Incidents.Row.shown S.words S.incidents c.now)) :=
      (newestFirst_perm _).mem_iff.mpr
        (List.mem_filter.mpr ⟨List.mem_append_right _ hrow, (hshown row hrow).1⟩)
    obtain ⟨first, hfirst, hle⟩ :=
      exists_first (newestFirst_falling hpositive) (n := 10000) (by decide) hin
    have hfirst' := List.mem_filter.mp ((newestFirst_perm _).subset (List.mem_of_mem_take hfirst))
    have hfirst_shown := hfirst'.2
    rw [Incidents.Row.shown, Bool.and_eq_true, Bool.not_eq_true', decide_eq_true_iff]
      at hfirst_shown
    exact ⟨first, mem_logged.mpr ⟨hfirst, hfirst_shown.2⟩, hfirst_shown.1,
      (hafter row hrow).trans_le hle⟩

/-! ### A poll -/

section Poll

variable {s : State β}

theorem trim_history (hr : Recorded S c) :
    (c.trimMonitorHistory S).history = kept Sample.stamp (c.bound S) c.history :=
  hr.ordered.dropWhile _

theorem Recorded.trim (hr : Recorded S c) : Recorded S (c.trimMonitorHistory S) := by
  have hsub : (c.trimMonitorHistory S).history.Sublist c.history :=
    (List.dropWhile_suffix _).sublist
  exact ⟨hr.clock, hr.ordered.sublist hsub, fun x hx => hr.stamps x (hsub.subset hx),
    fun time htime => ⟨(hr.making time htime).1, (hr.making time htime).2.1, fun x hx =>
      (hr.making time htime).2.2 x (hsub.subset hx)⟩, hr.log, hr.rows⟩

/-- What the page cuts away is not kept. -/
theorem kept_fromFirst {α : Type} {stamp : α → ℚ} {seconds : ℕ} {now : ℚ} (l : List α) :
    kept stamp (now - seconds) (fromFirst (fun a => (⌊now⌋ : ℚ) - seconds ≤ stamp a) l) =
      kept stamp (now - seconds) l := by
  refine filter_fromFirst fun a _ ha => decide_eq_true ?_
  exact (sub_le_sub_right (Int.floor_le now) _).trans (of_decide_eq_true ha)

theorem newestSample_le {history : List (Sample β)} (hordered : Ordered Sample.stamp history) :
    ∀ x ∈ history, x.time ≤ newestSample history := by
  obtain rfl | ⟨history, last, rfl⟩ := List.eq_nil_or_concat' history
  · exact fun _ hx => nomatch hx
  · have hlast : newestSample (history ++ [last]) = last.time := by
      rw [newestSample, List.getLast?_concat]
      rfl
    intro x hx
    rw [hlast]
    rcases List.mem_append.mp hx with hx | hx
    · have hle := (List.pairwise_append.mp hordered).2.2 x hx last (List.mem_singleton_self _)
      exact Int.cast_le.mp hle
    · rw [List.mem_singleton.mp hx]

theorem cursor_spec (hr : Recorded S s.controller) (hsince : 0 ≤ s.page.since) :
    0 ≤ s.cursor S ∧
      ∀ x ∈ (s.controller.trimMonitorHistory S).history, x.time ≤ s.cursor S := by
  have htrim := hr.trim
  have hle := newestSample_le htrim.ordered
  rw [State.cursor]
  split
  · next hne =>
    refine ⟨?_, hle⟩
    by_cases hnil : (s.controller.trimMonitorHistory S).history = []
    · exact absurd (by rw [hnil]; rfl) hne
    · obtain ⟨x, hx⟩ := List.exists_mem_of_ne_nil _ hnil
      exact (htrim.stamps x hx).1.trans (hle x hx)
  · next hzero =>
    rw [not_not] at hzero
    exact ⟨hsince, fun x hx => (hle x hx).trans (hzero.trans_le hsince)⟩

/-- The incidents, joined. -/
theorem joined_incidents (hr : Recorded S c) (hk : KeptIncidents S c since held)
    (hmet : (∀ row ∈ c.incidents S, row.time ≤ since) ∨
      kept Incidents.Row.time (c.incidentBound S) held = []) :
    kept Incidents.Row.time (c.incidentBound S)
      (held ++ after Incidents.Row.time since (c.incidents S)) = c.incidents S := by
  have hshown : kept Incidents.Row.time (c.incidentBound S)
      (after Incidents.Row.time since (c.incidents S)) =
        after Incidents.Row.time since (c.incidents S) :=
    kept_eq_self fun row hrow => (mem_shown.mp (mem_incidents (mem_after.mp hrow).1)).2.2
  rw [kept_append, hshown]
  rcases hmet with hold | hnone
  · -- nothing new is shown
    rw [after_eq_nil hold, List.append_nil]
    rcases hk.news with heq | ⟨row, hin, hhidden, hlt⟩
    · exact heq
    · have hgone : row.time < c.incidentBound S := by
        by_contra hle
        obtain ⟨first, hfirst, hle'⟩ :=
          exists_incident hr.log (mem_shown.mpr ⟨hin, hhidden, not_lt.mp hle⟩)
        exact absurd (hle'.trans (hold first hfirst)) hlt.not_ge
      -- what is shown is newer than that row, and what is held is older
      have hempty : c.incidents S = [] := by
        refine List.eq_nil_iff_forall_not_mem.mpr fun r hr => ?_
        have hbound := (mem_shown.mp (mem_incidents hr)).2.2
        exact absurd ((hlt.trans hgone).trans_le hbound) (hold r hr).not_gt
      rw [hempty]
      refine List.eq_nil_iff_forall_not_mem.mpr fun x hx => ?_
      exact absurd ((hlt.trans hgone).trans_le (mem_kept.mp hx).2) (hk.upto x hx).not_gt
  · -- nothing is held
    rw [hnone, List.nil_append]
    refine after_eq_self fun row hrow => ?_
    by_contra hle
    obtain ⟨x, hx, -⟩ := hk.older row (mem_incidents hrow) (not_lt.mp hle)
    rw [hnone] at hx
    exact nomatch hx

/-- **A poll** gives what a poll without a cursor would have given. -/
theorem poll_agrees (hinv : Inv S s) (hmet : Met S s .polls) :
    ∃ h, (s.poll S).page = ⟨s.cursor S, some h⟩ ∧ Agrees S (s.poll S) h ∧
      Assoc.Distinct h.hosts := by
  have hr := hinv.recorded
  have htrim := trim_history hr.trim
  by_cases hsince : s.page.since = 0
  · -- a whole answer
    have hanswer : (s.poll S).page = ⟨s.cursor S, some
        ⟨(s.controller.trimMonitorHistory S).history, s.controller.incidents S,
          HostRows.since [] s.controller.rows⟩⟩ := by
      have hcursor : s.cursor S = newestSample (s.controller.trimMonitorHistory S).history := by
        rw [State.cursor, hsince]
        split
        · rfl
        · next hzero => exact (not_not.mp hzero).symm
      rw [hcursor, State.poll, Page.hostsSince, if_pos hsince, hsince]
      rfl
    refine ⟨_, hanswer, ⟨htrim.symm, ?_, fun _ => rfl⟩,
      HostRows.distinct_since hr.rows.distinct _⟩
    exact kept_eq_self fun row hrow => (mem_shown.mp (mem_incidents hrow)).2.2
  · obtain ⟨hpos, h, hheld, hkept⟩ := hinv.page hsince
    have hanswer : (s.poll S).page = ⟨s.cursor S, some
        { samples := fromFirst
            (fun x => ((⌊s.controller.now⌋ : ℤ) : ℚ) - S.retention ≤ x.stamp)
            (h.samples ++ after Sample.stamp s.page.since
              (s.controller.trimMonitorHistory S).history)
          incidents := fromFirst
            (fun r => ((⌊s.controller.now⌋ : ℤ) : ℚ) - S.incidents.seconds ≤ r.time)
            (h.incidents ++ after Incidents.Row.time s.page.since (s.controller.incidents S))
          hosts := HostRows.mergeHostRows h.hosts (HostRows.since
            (HostRows.held S.numbers (HostRows.hostsHeld S.numbers h.hosts))
            s.controller.rows) }⟩ := by
      rw [State.poll, Page.hostsSince, if_neg hsince, systemMonitorState, mergeMonitor, hheld,
        if_pos hpos, if_pos hpos, decide_eq_true hpos]
      rfl
    have hmerged := HostRows.distinct_merge (HostRows.since
      (HostRows.held S.numbers (HostRows.hostsHeld S.numbers h.hosts)) s.controller.rows)
      hkept.hosts.distinct
    refine ⟨_, hanswer, ⟨?_, ?_, fun id => ?_⟩, hmerged⟩
    · have hcopies : Copies Sample.stamp (s.controller.bound S) s.page.since h.samples
          (s.controller.trimMonitorHistory S).history := by
        rw [trim_history hr]
        exact hkept.samples.cut
      calc kept Sample.stamp (s.controller.bound S) (fromFirst
            (fun x => ((⌊s.controller.now⌋ : ℤ) : ℚ) - S.retention ≤ x.stamp)
            (h.samples ++ after Sample.stamp s.page.since
              (s.controller.trimMonitorHistory S).history))
          = kept Sample.stamp (s.controller.bound S) (h.samples ++
              after Sample.stamp s.page.since (s.controller.trimMonitorHistory S).history) :=
            kept_fromFirst _
        _ = kept Sample.stamp (s.controller.bound S)
              (s.controller.trimMonitorHistory S).history := hcopies.top hr.trim.ordered
        _ = (whole S (s.poll S).controller).samples := htrim.symm
    · calc kept Incidents.Row.time (s.controller.incidentBound S) (fromFirst
            (fun r => ((⌊s.controller.now⌋ : ℤ) : ℚ) - S.incidents.seconds ≤ r.time)
            (h.incidents ++ after Incidents.Row.time s.page.since (s.controller.incidents S)))
          = kept Incidents.Row.time (s.controller.incidentBound S) (h.incidents ++
              after Incidents.Row.time s.page.since (s.controller.incidents S)) :=
            kept_fromFirst _
        _ = s.controller.incidents S := by
          refine joined_incidents hr hkept.incidents ?_
          rcases hmet.2 with hzero | hmet
          · exact absurd hzero hsince
          · rw [State.heldIncidents, hheld] at hmet
            exact hmet
    · exact (HostRows.polled hkept.hosts id).trans
        (HostRows.rowsOf_whole hr.rows.distinct id).symm

end Poll

/-! ### A run -/

section Run

variable {s s' : State β} {e : Event β}

/-- A step that leaves the page as it is. -/
theorem Inv.records (hinv : Inv S s) {c : Controller β} (hr : Recorded S c)
    (hkept : ∀ h, s.page.since ≠ 0 → Kept S s.controller s.page.since h →
      Kept S c s.page.since h) : Inv S { s with controller := c } := by
  refine ⟨hr, fun hsince => ?_⟩
  obtain ⟨hpos, h, hheld, hk⟩ := hinv.page hsince
  exact ⟨hpos, h, hheld, hkept h hsince hk⟩

theorem Kept.trim (hr : Recorded S c) (hk : Kept S c since h) :
    Kept S (c.trimMonitorHistory S) since h := by
  refine ⟨?_, hk.incidents.later hr.log rfl le_rfl, hk.hosts⟩
  rw [trim_history hr]
  exact hk.samples.cut

/-- The sample that was being made is appended. -/
theorem Recorded.sampled (hr : Recorded S c) {time : ℤ} (hmaking : c.making = some time)
    (reading : β) :
    Recorded S { c with history := c.history ++ [⟨time, reading⟩], making := none } := by
  obtain ⟨hpos, hnow, hlast⟩ := hr.making time hmaking
  refine ⟨hr.clock, hr.ordered.append (List.pairwise_singleton _ _) fun x hx y hy => ?_,
    fun x hx => ?_, fun t ht => (nomatch ht), hr.log, hr.rows⟩
  · rw [List.mem_singleton.mp hy]
    exact Int.cast_le.mpr (hlast x hx)
  · rcases List.mem_append.mp hx with hx | hx
    · exact hr.stamps x hx
    · rw [List.mem_singleton.mp hx]
      exact ⟨hpos, hnow⟩

theorem Inv.poll (hinv : Inv S s) (hmet : Met S s .polls) : Inv S (s.poll S) := by
  have hr := hinv.recorded
  have hsince : 0 ≤ s.page.since := by
    by_cases hzero : s.page.since = 0
    · exact hzero.ge
    · exact (hinv.page hzero).1.le
  obtain ⟨hpos, hall⟩ := cursor_spec hr hsince
  obtain ⟨h, hpage, hagrees, hdistinct⟩ := poll_agrees hinv hmet
  refine ⟨hr.trim, fun hne => ?_⟩
  rw [hpage] at hne ⊢
  refine ⟨lt_of_le_of_ne hpos (Ne.symm hne), h, rfl, ?_, ?_, ?_⟩
  · refine copies_whole ?_ fun x hx => Int.cast_le.mpr (hall x hx)
    exact hagrees.samples.trans (trim_history hr.trim)
  · refine KeptIncidents.of_shown hr.log hagrees.incidents fun row hrow => ?_
    rcases hmet.1 with hzero | hmet
    · exact absurd hzero hne
    · exact hmet row hrow
  · refine hr.rows.board hdistinct fun id => ?_
    exact (hagrees.hosts id).trans (HostRows.rowsOf_whole hr.rows.distinct id)

/-- **One step.** -/
theorem Inv.step (hinv : Inv S s) (hmet : Met S s e) (hcomes : Comes S s e) :
    Inv S (next S s e) := by
  have hr := hinv.recorded
  cases e with
  | clock t =>
    have hfloor : ⌊s.controller.now⌋ ≤ ⌊t⌋ := Int.floor_mono hmet
    refine hinv.records ⟨hr.clock.trans hmet, hr.ordered,
      fun x hx => ⟨(hr.stamps x hx).1, (hr.stamps x hx).2.trans hfloor⟩,
      fun time htime => ⟨(hr.making time htime).1, (hr.making time htime).2.1.trans hfloor,
        (hr.making time htime).2.2⟩, hr.log, hr.rows⟩ fun h _ hk => ?_
    exact ⟨hk.samples.later (sub_le_sub_right hmet _), hk.incidents.later hr.log rfl hmet,
      hk.hosts⟩
  | begins =>
    refine hinv.records ⟨hr.clock, hr.ordered, hr.stamps, fun time htime => ?_, hr.log,
      hr.rows⟩ fun h _ hk => ⟨hk.samples, hk.incidents.later hr.log rfl le_rfl, hk.hosts⟩
    obtain rfl := Option.some.inj htime
    exact ⟨Int.floor_nonneg.mpr hr.clock, le_rfl, fun x hx => (hr.stamps x hx).2⟩
  | logs rows =>
    obtain ⟨hne, hrows⟩ := hcomes
    refine hinv.records ⟨hr.clock, hr.ordered, hr.stamps, hr.making, fun row hrow => ?_,
      hr.rows⟩ fun h hsince hk => ?_
    · rcases of_mem_logged hrow with hin | hin
      · exact hr.log row hin
      · exact (hrows row hin).2
    · refine ⟨hk.samples, hk.incidents.logs hr.log hne hrows ?_, hk.hosts⟩
      exact hmet.resolve_left hsince
  | samples reading =>
    obtain ⟨time, hmaking⟩ := Option.ne_none_iff_exists'.mp hcomes
    have hsampled := hr.sampled hmaking reading
    unfold next
    rw [hmaking]
    refine hinv.records hsampled.trim fun h hsince hk => Kept.trim hsampled ?_
    refine ⟨hk.samples.append fun x hx => ?_, hk.incidents.later hr.log rfl le_rfl, hk.hosts⟩
    rw [List.mem_singleton.mp hx]
    exact Int.cast_lt.mpr (hmet.resolve_left hsince time hmaking)
  | pulled id answer =>
    obtain ⟨hne, hanswer⟩ := hcomes
    have hnamed : HostRows.Named id := ⟨hne, hmet.1, hmet.2⟩
    refine hinv.records ⟨hr.clock, hr.ordered, hr.stamps, hr.making, hr.log,
      hr.rows.pulled hnamed hanswer⟩ fun h _ hk => ?_
    exact ⟨hk.samples, hk.incidents.later hr.log rfl le_rfl, hk.hosts.pulled hnamed hanswer⟩
  | polls => exact hinv.poll hmet
  | lost => exact hinv.records hr.trim fun h _ hk => hk.trim hr

theorem Inv.start (h : Starts s) : Inv S s := by
  refine ⟨⟨h.clock, h.ordered, h.stamps, fun time htime => ?_, h.log, ?_⟩, fun hsince => ?_⟩
  · rw [h.making] at htime
    exact nomatch htime
  · rw [h.rows]
    exact ⟨List.nodup_nil, fun _ _ hget => (nomatch hget), fun _ =>
      ⟨List.Pairwise.nil, fun _ hr => nomatch hr⟩⟩
  · rw [h.page] at hsince
    exact absurd rfl hsince

/-- **Every run** whose steps meet the conditions keeps the copies. -/
theorem inv (h : System.Reach (monitor S) (Met S) s) : Inv S s := by
  refine h.invariant (I := Inv S) (fun s hs => Inv.start hs) fun s e s' hinv hmet hstep => ?_
  obtain ⟨hcomes, rfl⟩ := hstep
  exact hinv.step hmet hcomes

end Run

end Steps

/-- **Topping up is reading it whole.** In every run whose steps meet the conditions, a page holds
after each poll the samples, incidents and machine rows that a poll without a cursor would have
given at that moment, in the same order, up to what the retention cuts. -/
theorem topped_up (S : Setting) {s : State β} (h : System.Reach (monitor S) (Met S) s)
    (hmet : Met S s .polls) :
    ∃ held, (s.poll S).page.held = some held ∧ Agrees S (s.poll S) held := by
  obtain ⟨held, hpage, hagrees, -⟩ := poll_agrees (inv h) hmet
  exact ⟨held, congrArg Page.held hpage, hagrees⟩

/-! ### Runs -/

instance (N : HostRows.Numbers) (t : ℚ) : Decidable (N.Plain t) :=
  decidable_of_iff (N.float (N.text t) = some t ∧ HostRows.comma ∉ N.text t ∧
      HostRows.colon ∉ N.text t ∧ ((N.text t).all fun c => !isSpace c) = true) <| by
    have hall : ((N.text t).all fun c => !isSpace c) = true ↔
        ∀ c ∈ N.text t, isSpace c = false := by
      rw [List.all_eq_true]
      exact forall₂_congr fun c _ => iff_of_eq (Bool.not_eq_true' _)
    rw [hall]
    exact ⟨fun ⟨hback, hcomma, hcolon, hsolid⟩ => ⟨hback, hcomma, hcolon, hsolid⟩,
      fun ⟨hback, hcomma, hcolon, hsolid⟩ => ⟨hback, hcomma, hcolon, hsolid⟩⟩

instance (t : Text) : Decidable t.Flush :=
  decidable_of_iff ((t.head?.all fun c => !isSpace c) = true) <| by
    unfold Text.Flush
    cases t.head? with
    | none => exact ⟨fun _ _ h => (nomatch h), fun _ => rfl⟩
    | some c => simp

instance (s : State β) (e : Event β) : Decidable (Comes S s e) :=
  match e with
  | .begins => inferInstanceAs (Decidable (s.controller.making = none))
  | .logs rows => inferInstanceAs (Decidable (rows ≠ [] ∧
      ∀ row ∈ rows, row.shown S.words S.incidents s.controller.now = true ∧ 0 < row.time))
  | .samples _ => inferInstanceAs (Decidable (s.controller.making ≠ none))
  | .pulled id answer =>
    inferInstanceAs (Decidable (id ≠ [] ∧ ∀ r ∈ answer, S.numbers.Plain r.t))
  | .clock _ | .polls | .lost => inferInstanceAs (Decidable True)

instance (s : State β) (e : Event β) : Decidable (Met S s e) :=
  match e with
  | .clock t => inferInstanceAs (Decidable (s.controller.now ≤ t))
  | .samples _ => inferInstanceAs (Decidable (s.page.since = 0 ∨
      ∀ time ∈ s.controller.making, s.page.since < time))
  | .logs rows =>
    inferInstanceAs (Decidable (s.page.since = 0 ∨ ∀ row ∈ rows, s.page.since < row.time))
  | .pulled id _ => inferInstanceAs (Decidable (HostRows.comma ∉ id ∧ id.Flush))
  | .polls => inferInstanceAs (Decidable
      ((s.cursor S = 0 ∨ ∀ row ∈ s.controller.incidents S, row.time ≤ s.cursor S) ∧
        (s.page.since = 0 ∨ (∀ row ∈ s.controller.incidents S, row.time ≤ s.page.since) ∨
          s.heldIncidents S = [])))
  | .begins | .lost => inferInstanceAs (Decidable True)

/-- A step, if it comes and meets a condition. -/
def turn (ok : State β → Event β → Prop) [∀ s e, Decidable (ok s e)] (s : State β)
    (e : Event β) : Option (State β) :=
  if Comes S s e ∧ ok s e then some (next S s e) else none

theorem turn_met {ok : State β → Event β → Prop} [∀ s e, Decidable (ok s e)] (s : State β)
    (e : Event β) (s' : State β) (h : turn S ok s e = some s') :
    (monitor S).step s e s' ∧ ok s e := by
  rw [turn] at h
  split at h
  · next hcomes => exact ⟨⟨hcomes.1, (Option.some.inj h).symm⟩, hcomes.2⟩
  · exact nomatch h

/-- A number of one digit. -/
def readDigit : Text → Option ℚ
  | [c] => some (c.val - 0x30 : ℕ)
  | _ => none

/-- Ten minutes of samples and a month of incidents; numbers below ten. -/
def small : Setting where
  words := Incidents.plainWords
  numbers := ⟨fun q => [Fin.ofNat _ (0x30 + q.num.toNat)], readDigit⟩
  retention := 600
  incidents := Incidents.month

/-- A page is opened. -/
def opened : State ℕ := ⟨⟨100, [], none, [], []⟩, ⟨0, none⟩⟩

theorem opened_starts : Starts opened :=
  ⟨by decide +kernel, List.Pairwise.nil, fun _ hx => (nomatch hx), rfl, fun _ hx => (nomatch hx),
    rfl, rfl⟩

/-- A request that failed, in the second after. -/
def incident : Incidents.Row where
  time := 101
  key := .text "r1:failed:route"
  kind := "failed"
  method := "POST"
  path := []
  status := "500"

/-- A sample and a machine's row; a poll; the next second's sample, with an incident, and row. -/
def calm : List (Event ℕ) :=
  [.begins, .samples 0, .pulled [0x61] [⟨5, 0⟩], .polls, .clock 101, .begins, .logs [incident],
    .samples 1, .pulled [0x61] [⟨5, 0⟩, ⟨6, 1⟩]]

theorem calm_topped_up : ∃ s : State ℕ, System.Reach (monitor small) (Met small) s ∧
    ∃ held, (s.poll small).page.held = some held ∧ Agrees small (s.poll small) held := by
  have hrun : (System.follow (turn small (Met small)) opened calm).map
      (fun s => decide (Met small s .polls)) = some true := by
    decide +kernel
  obtain ⟨s, hs, hmet⟩ := Option.map_eq_some_iff.mp hrun
  have hreach : System.Reach (monitor small) (Met small) s :=
    System.Reach.follow_met (turn_met small) calm (.init opened_starts) hs
  exact ⟨s, hreach, topped_up small hreach (of_decide_eq_true hmet)⟩

/-! ### An incident that is sent twice -/

/-- A sample; a poll; an incident is written while the next second's sample is being made; a poll;
the sample is appended. -/
def between : List (Event ℕ) :=
  [.begins, .samples 0, .polls, .clock 101, .begins, .logs [incident], .polls, .samples 1]

/-- **Sent twice**: the poll that follows gives the incident a second time. -/
theorem sent_twice : ∃ s : State ℕ, System.Reachable (monitor small) s ∧
    ∀ held, (s.poll small).page.held = some held → ¬ Agrees small (s.poll small) held := by
  have hrun : (System.follow (turn small fun _ _ => True) opened between).map
      (fun s => (((s.poll small).page.held.map Held.incidents),
        (whole small (s.poll small).controller).incidents,
        (s.poll small).controller.incidentBound small)) =
          some (some [incident, incident], [incident], 101 - 30 * 24 * 60 * 60) := by
    decide +kernel
  obtain ⟨s, hs, hsaid⟩ := Option.map_eq_some_iff.mp hrun
  obtain ⟨hheld, hrest⟩ := Prod.mk.inj hsaid
  obtain ⟨hwhole, hbound⟩ := Prod.mk.inj hrest
  refine ⟨s, System.Reach.follow_met (turn_met small) between (.init opened_starts) hs,
    fun held hpage hagrees => ?_⟩
  rw [hpage] at hheld
  have hincidents := hagrees.incidents
  rw [hwhole, Option.some.inj hheld, hbound] at hincidents
  exact absurd (congrArg List.length hincidents) (by decide +kernel)

end TopUp
