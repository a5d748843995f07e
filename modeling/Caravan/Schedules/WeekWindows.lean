import Caravan.Framework.Intervals
import Mathlib.Algebra.Order.Group.Int
import Mathlib.Algebra.GroupWithZero.Nat

/-!
# When a model is open

A schedule is a list of windows of weekdays and times of day, in the caravan's wall clock. A
window belongs to the days it starts on: one whose end is not after its beginning runs past
midnight, and past the end of the week into the next.

* `Window.Covers` says of the minutes of all time which of them a window holds;
* `WeekWindows.runs` folds the windows into one week, and `WeekWindows.covers_iff` says that a
  minute lies in the week's runs exactly when some window holds it;
* `WeekWindows.state_exact` — what is said of a moment, and of the moment at which it changes.

A zone keeps one offset from UTC. A moment is a number of microseconds since the epoch, which is
what a `datetime` resolves; a wall-clock minute is the number of it since 1970-01-01 00:00.
-/

namespace Schedules

open Intervals

/-! ### The windows -/

instance hours_neZero : NeZero 24 := ⟨by decide⟩

instance minutes_neZero : NeZero 60 := ⟨by decide⟩

/-- "HH:MM" as `hhmm` leaves it. -/
structure TimeOfDay where
  hour : Fin 24
  minute : Fin 60
  deriving DecidableEq, Repr

/-- `minutes_of_day` -/
def minutes_of_day (t : TimeOfDay) : ℤ := t.hour * 60 + t.minute

theorem minutes_of_day_nonneg (t : TimeOfDay) : 0 ≤ minutes_of_day t := by
  unfold minutes_of_day
  omega

theorem minutes_of_day_lt (t : TimeOfDay) : minutes_of_day t < 1440 := by
  have := t.hour.isLt
  have := t.minute.isLt
  unfold minutes_of_day
  omega

theorem minutes_of_day_inj {t t' : TimeOfDay} :
    minutes_of_day t = minutes_of_day t' ↔ t = t' := by
  refine ⟨fun h => ?_, congrArg _⟩
  obtain ⟨⟨hour, hh⟩, ⟨minute, hm⟩⟩ := t
  obtain ⟨⟨hour', hh'⟩, ⟨minute', hm'⟩⟩ := t'
  simp only [minutes_of_day] at h
  obtain ⟨rfl, rfl⟩ : hour = hour' ∧ minute = minute' := by omega
  rfl

/-- A weekday is a number, Monday being 0. -/
def IsDay (d : ℤ) : Prop := 0 ≤ d ∧ d ≤ 6

/-- A window of `WeekWindows`, as it is kept: `days` is sorted, and empty for every day. -/
structure Window where
  days : List ℤ
  inWeek : ∀ d ∈ days, IsDay d
  sorted : days.Pairwise (· < ·)
  /-- `from` -/
  fromTime : TimeOfDay
  /-- `to` -/
  toTime : TimeOfDay

/-- `WeekWindows.DAY` -/
def DAY : ℤ := 1440

/-- `WeekWindows.WEEK` -/
def WEEK : ℤ := 7 * DAY

/-- `range(7)` -/
def everyDay : List ℤ := [0, 1, 2, 3, 4, 5, 6]

theorem mem_everyDay {d : ℤ} : d ∈ everyDay ↔ IsDay d := by
  simp only [everyDay, List.mem_cons, List.not_mem_nil, or_false, IsDay]
  omega

namespace Window

variable (w : Window)

/-- `window["days"] or range(7)` -/
def onDays : List ℤ := if w.days = [] then everyDay else w.days

/-- `minutes_of_day(window["from"])` -/
def start : ℤ := minutes_of_day w.fromTime

/-- `(minutes_of_day(window["to"]) - start) % self.DAY or self.DAY` -/
def length : ℤ :=
  let length := (minutes_of_day w.toTime - w.start) % DAY
  if length = 0 then DAY else length

theorem onDays_isDay {d : ℤ} (h : d ∈ w.onDays) : IsDay d := by
  unfold onDays at h
  split at h
  · exact mem_everyDay.mp h
  · exact w.inWeek d h

theorem start_bounds : 0 ≤ w.start ∧ w.start < 1440 :=
  ⟨minutes_of_day_nonneg _, minutes_of_day_lt _⟩

theorem length_bounds : 0 < w.length ∧ w.length ≤ 1440 := by
  unfold length DAY
  dsimp only
  split <;> omega

end Window

/-! ### The runs of the week -/

/-- The pieces of the week that a window is open on one of its days. -/
def piecesOn (start length day : ℤ) : List (ℤ × ℤ) :=
  let begin_ := day * DAY + start
  let end_ := begin_ + length
  if end_ ≤ WEEK then [(begin_, end_)] else [(begin_, WEEK), (0, end_ - WEEK)]

/-- The pieces that a window gives to the week. -/
def Window.pieces (w : Window) : List (ℤ × ℤ) :=
  w.onDays.flatMap (piecesOn w.start w.length)

/-- `WeekWindows`: the windows that `clean` took. -/
structure WeekWindows where
  windows : List Window

/-- `WeekWindows.runs` -/
def WeekWindows.runs (s : WeekWindows) : List (ℤ × ℤ) := merged (s.windows.flatMap Window.pieces)

theorem piecesOn_within {start length day : ℤ} (h : day * DAY + start + length ≤ WEEK) :
    piecesOn start length day = [(day * DAY + start, day * DAY + start + length)] := if_pos h

theorem piecesOn_over {start length day : ℤ} (h : ¬ day * DAY + start + length ≤ WEEK) :
    piecesOn start length day =
      [(day * DAY + start, WEEK), (0, day * DAY + start + length - WEEK)] := if_neg h

section Pieces

variable {start length day : ℤ} (hstart : 0 ≤ start ∧ start < 1440)
  (hlength : 0 < length ∧ length ≤ 1440) (hday : IsDay day)

include hstart hlength hday

theorem piecesOn_proper : ∀ r ∈ piecesOn start length day, r.1 < r.2 := by
  obtain ⟨hmonday, hsunday⟩ := hday
  intro r hr
  by_cases h : day * DAY + start + length ≤ WEEK
  · rw [piecesOn_within h, List.mem_singleton] at hr
    rw [hr]
    dsimp only
    omega
  · rw [piecesOn_over h] at hr
    unfold WEEK DAY at h hr
    rcases List.mem_cons.mp hr with rfl | hr
    · dsimp only
      omega
    · rw [List.mem_singleton.mp hr]
      dsimp only
      omega

/-- A minute of the week lies in the pieces if the window holds it, or holds it a week later. -/
theorem covered_piecesOn {m : ℤ} : Covered (piecesOn start length day) m ↔
    (0 ≤ m ∧ m < 10080) ∧
      (day * 1440 + start ≤ m ∧ m < day * 1440 + start + length ∨
        day * 1440 + start ≤ m + 10080 ∧ m + 10080 < day * 1440 + start + length) := by
  obtain ⟨hmonday, hsunday⟩ := hday
  by_cases h : day * DAY + start + length ≤ WEEK
  · rw [piecesOn_within h]
    simp only [covered_cons, not_covered_nil, or_false, Holds]
    unfold WEEK DAY at *
    omega
  · rw [piecesOn_over h]
    simp only [covered_cons, not_covered_nil, or_false, Holds]
    unfold WEEK DAY at *
    omega

end Pieces

/-! ### The wall clock -/

/-- `CaravanZone` of one offset, in seconds. -/
structure Zone where
  offset : ℤ

/-- `CaravanZone.wall`, cut to the minute. -/
def Zone.wall (zone : Zone) (now : ℤ) : ℤ := (now + zone.offset * 1000000) / 60000000

/-- `CaravanZone.epoch` -/
def Zone.epoch (zone : Zone) (wall : ℤ) : ℤ := wall * 60 - zone.offset

/-- The moment a wall-clock minute begins. -/
def Zone.moment (zone : Zone) (wall : ℤ) : ℤ := zone.epoch wall * 1000000

/-- `datetime.weekday`: the first day of the epoch is a Thursday. -/
def weekday (wall : ℤ) : ℤ := (wall / DAY + 3) % 7

theorem weekday_isDay (wall : ℤ) : IsDay (weekday wall) := by
  unfold IsDay weekday
  omega

theorem Zone.wall_lt {zone : Zone} {now m : ℤ} : zone.wall now < m ↔ now < zone.moment m := by
  unfold Zone.wall Zone.moment Zone.epoch
  omega

@[simp] theorem Zone.wall_moment (zone : Zone) (m : ℤ) : zone.wall (zone.moment m) = m := by
  unfold Zone.wall Zone.moment Zone.epoch
  omega

/-- **The window holds the minute**: it has started on one of its days and is not yet over. -/
def Window.Covers (w : Window) (wall : ℤ) : Prop :=
  ∃ day : ℤ, weekday (day * DAY) ∈ w.onDays ∧ day * DAY + w.start ≤ wall ∧
    wall < day * DAY + (if w.start < minutes_of_day w.toTime then minutes_of_day w.toTime
      else minutes_of_day w.toTime + DAY)

/-- Some window holds the minute. -/
def WeekWindows.Covers (s : WeekWindows) (wall : ℤ) : Prop := ∃ w ∈ s.windows, w.Covers wall

/-! ### What is said at a moment -/

/-- The answer of `WeekWindows.state`. -/
structure State where
  /-- `open` -/
  isOpen : Bool
  «until» : Option ℤ
  opensAt : Option ℤ
  deriving DecidableEq, Repr

/-- This week and the next, merged across the joint. -/
def WeekWindows.ahead (s : WeekWindows) : List (ℤ × ℤ) :=
  merged (s.runs ++ s.runs.map fun r => (r.1 + WEEK, r.2 + WEEK))

/-- `WeekWindows.state` -/
def WeekWindows.state (s : WeekWindows) (now : ℤ) (zone : Zone) : State :=
  let runs := s.runs
  if runs = [] then ⟨false, none, none⟩
  else if runs = [(0, WEEK)] then ⟨true, none, none⟩
  else
    let wall := zone.wall now
    let minute := weekday wall * DAY + wall % DAY
    let monday := wall - minute
    match next minute s.ahead with
    | .ends e => ⟨true, some (zone.epoch (monday + e)), none⟩
    | .begins b => ⟨false, none, some (zone.epoch (monday + b))⟩
    | .nothing => ⟨false, none, none⟩

/-! ### One week -/

theorem weekday_day (day : ℤ) : weekday (day * DAY) = (day + 3) % 7 := by
  unfold weekday DAY
  omega

/-- The minute of the week, of which Monday 00:00 is the first. -/
theorem minute_eq (wall : ℤ) : weekday wall * DAY + wall % DAY = (wall + 4320) % 10080 := by
  unfold weekday DAY
  omega

theorem Window.end_eq (w : Window) : w.start + w.length =
    if w.start < minutes_of_day w.toTime then minutes_of_day w.toTime
    else minutes_of_day w.toTime + DAY := by
  have hstart := w.start_bounds
  have hto := minutes_of_day_nonneg w.toTime
  have hlt := minutes_of_day_lt w.toTime
  unfold Window.length DAY
  dsimp only
  split <;> split <;> omega

/-- A window holds a minute when the minute of the week lies in the window's pieces. -/
theorem Window.covers_iff (w : Window) (wall : ℤ) :
    w.Covers wall ↔ Covered w.pieces ((wall + 4320) % 10080) := by
  have hstart := w.start_bounds
  have hlength := w.length_bounds
  unfold Window.Covers Window.pieces
  rw [covered_flatMap]
  simp only [weekday_day, ← w.end_eq]
  constructor
  · rintro ⟨day, hday, hfrom, hto⟩
    refine ⟨_, hday, (covered_piecesOn hstart hlength (w.onDays_isDay hday)).mpr ?_⟩
    unfold DAY at hfrom hto
    omega
  · rintro ⟨d, hd, hcovered⟩
    have hday := w.onDays_isDay hd
    rw [covered_piecesOn hstart hlength hday] at hcovered
    obtain ⟨hmonday, hsunday⟩ := hday
    -- the window started in the minute's own week, or in the week before
    obtain ⟨-, hthis | hlast⟩ := hcovered
    · have hweekday : ((wall + 4320) / 10080 * 7 + d - 3 + 3) % 7 = d := by omega
      refine ⟨(wall + 4320) / 10080 * 7 + d - 3, by rwa [hweekday], ?_⟩
      unfold DAY
      omega
    · have hweekday : ((wall + 4320) / 10080 * 7 - 7 + d - 3 + 3) % 7 = d := by omega
      refine ⟨(wall + 4320) / 10080 * 7 - 7 + d - 3, by rwa [hweekday], ?_⟩
      unfold DAY
      omega

theorem Window.pieces_proper (w : Window) : ∀ r ∈ w.pieces, r.1 < r.2 := by
  intro r hr
  obtain ⟨d, hd, hr⟩ := List.mem_flatMap.mp hr
  exact piecesOn_proper w.start_bounds w.length_bounds (w.onDays_isDay hd) r hr

namespace WeekWindows

variable (s : WeekWindows)

theorem pieces_proper : ∀ r ∈ s.windows.flatMap Window.pieces, r.1 < r.2 := by
  intro r hr
  obtain ⟨w, -, hr⟩ := List.mem_flatMap.mp hr
  exact w.pieces_proper r hr

theorem runs_apart : Apart s.runs := merged_apart s.pieces_proper

/-- **The week's runs** hold the minutes of the week that some window holds. -/
theorem covers_iff (wall : ℤ) : s.Covers wall ↔ Covered s.runs ((wall + 4320) % 10080) := by
  rw [runs, covered_merged s.pieces_proper, covered_flatMap]
  simp only [Covers, Window.covers_iff]

/-- The runs keep to the week. -/
theorem covered_within {m : ℤ} (h : Covered s.runs m) : 0 ≤ m ∧ m < 10080 := by
  rw [runs, covered_merged s.pieces_proper, covered_flatMap] at h
  obtain ⟨w, -, h⟩ := h
  obtain ⟨d, hd, h⟩ := covered_flatMap.mp h
  exact ((covered_piecesOn w.start_bounds w.length_bounds (w.onDays_isDay hd)).mp h).1

/-! ### This week and the next -/

theorem ahead_proper :
    ∀ r ∈ s.runs ++ s.runs.map (fun r => (r.1 + WEEK, r.2 + WEEK)), r.1 < r.2 := by
  intro r hr
  rcases List.mem_append.mp hr with hr | hr
  · exact s.runs_apart.proper r hr
  · obtain ⟨q, hq, rfl⟩ := List.mem_map.mp hr
    exact Int.add_lt_add_right (s.runs_apart.proper q hq) WEEK

theorem ahead_apart : Apart s.ahead := merged_apart s.ahead_proper

/-- The two weeks hold a minute when one week holds that minute of it. -/
theorem covered_ahead {m : ℤ} :
    Covered s.ahead m ↔ (0 ≤ m ∧ m < 20160) ∧ Covered s.runs (m % 10080) := by
  rw [ahead, covered_merged s.ahead_proper, covered_append, covered_map_add (A := ℤ)]
  unfold WEEK DAY
  constructor
  · rintro (h | h)
    · have hm := s.covered_within h
      have hmod : m % 10080 = m := by omega
      rw [hmod]
      exact ⟨by omega, h⟩
    · have hm := s.covered_within h
      have hmod : m % 10080 = m - 7 * 1440 := by omega
      rw [hmod]
      exact ⟨by omega, h⟩
  · rintro ⟨hm, h⟩
    by_cases hfirst : m < 10080
    · have hmod : m % 10080 = m := by omega
      exact .inl (hmod ▸ h)
    · have hmod : m % 10080 = m - 7 * 1440 := by omega
      exact .inr (hmod ▸ h)

theorem exists_covered (h : s.runs ≠ []) : ∃ m, Covered s.runs m := by
  obtain ⟨r, runs, hruns⟩ := List.exists_cons_of_ne_nil h
  have hmem : r ∈ s.runs := hruns ▸ List.mem_cons_self
  exact ⟨r.1, r, hmem, le_rfl, s.runs_apart.proper r hmem⟩

theorem exists_not_covered (h : s.runs ≠ [(0, WEEK)]) :
    ∃ m, (0 ≤ m ∧ m < 10080) ∧ ¬ Covered s.runs m := by
  by_contra hall
  push Not at hall
  exact h (eq_singleton s.runs_apart (by decide) fun x =>
    ⟨s.covered_within, fun hx => hall x hx⟩)

/-- What is said at a minute of the wall clock. -/
theorem state_wall (now : ℤ) (zone : Zone) :
    ∃ change, FirstChange s.Covers (zone.wall now) change ∧
      (s.Covers (zone.wall now) ∧ s.state now zone = ⟨true, change.map zone.epoch, none⟩ ∨
        ¬ s.Covers (zone.wall now) ∧ s.state now zone = ⟨false, none, change.map zone.epoch⟩) := by
  set wall := zone.wall now with hwall
  unfold state
  dsimp only
  rw [← hwall, minute_eq]
  by_cases hnone : s.runs = []
  · -- no minute is held
    have hno : ∀ m, ¬ s.Covers m := fun m => by
      rw [s.covers_iff, hnone]
      exact not_covered_nil _
    rw [if_pos hnone]
    exact ⟨none, fun z _ => iff_of_false (hno z) (hno wall), .inr ⟨hno wall, rfl⟩⟩
  rw [if_neg hnone]
  by_cases hfull : s.runs = [(0, WEEK)]
  · -- every minute is held
    have hall : ∀ m, s.Covers m := fun m => by
      rw [s.covers_iff, hfull, covered_cons]
      refine .inl ⟨?_, ?_⟩
      · exact Int.emod_nonneg _ (by decide)
      · exact Int.emod_lt_of_pos _ (by decide)
    rw [if_pos hfull]
    exact ⟨none, fun z _ => iff_of_true (hall z) (hall wall), .inl ⟨hall wall, rfl⟩⟩
  rw [if_neg hfull]
  set minute := (wall + 4320) % 10080 with hminute
  obtain ⟨open_, hopen⟩ := s.exists_covered hnone
  obtain ⟨shut, hbounds, hshut⟩ := s.exists_not_covered hfull
  have hopenb := s.covered_within hopen
  -- the two weeks ahead are the minutes from this Monday on
  have hahead : ∀ m, Covered s.ahead m ↔
      (0 ≤ m ∧ m < 20160) ∧ s.Covers (wall - minute + m) := by
    intro m
    have hmod : (wall - minute + m + 4320) % 10080 = m % 10080 := by omega
    rw [s.covered_ahead, s.covers_iff, hmod]
  have hat : s.Covers wall ↔ s.Covers (wall - minute + minute) := by rw [sub_add_cancel]
  have hmeets := next_meets s.ahead_apart minute
  generalize next minute s.ahead = found at hmeets
  cases found with
  | ends e =>
    obtain ⟨hlt, hopened, hend⟩ := hmeets
    -- it ends before the two weeks do, for a minute of the second one is not held
    have hbefore : e < 20160 := by
      by_contra hlate
      have hcov := (s.covered_ahead.mp (hopened (shut + 10080) (by omega) (by omega))).2
      have hmod : (shut + 10080) % 10080 = shut := by omega
      exact hshut (hmod ▸ hcov)
    have hnow : s.Covers wall := hat.mpr ((hahead minute).mp (hopened minute le_rfl hlt)).2
    refine ⟨some (wall - minute + e), ⟨by omega, fun z hz hze => ?_, ?_⟩, .inl ⟨hnow, rfl⟩⟩
    · have hheld := ((hahead (z - wall + minute)).mp (hopened _ (by omega) (by omega))).2
      have hz' : wall - minute + (z - wall + minute) = z := by omega
      exact iff_of_true (hz' ▸ hheld) hnow
    · exact fun hsame => hend ((hahead e).mpr ⟨by omega, hsame.mpr hnow⟩)
  | begins b =>
    obtain ⟨hlt, hclosed, hbegin⟩ := hmeets
    have hheld := (hahead b).mp hbegin
    have hnow : ¬ s.Covers wall := fun hcov =>
      hclosed minute le_rfl hlt ((hahead minute).mpr ⟨by omega, hat.mp hcov⟩)
    refine ⟨some (wall - minute + b), ⟨by omega, fun z hz hzb => ?_, ?_⟩, .inr ⟨hnow, rfl⟩⟩
    · refine iff_of_false (fun hcov => ?_) hnow
      have hz' : wall - minute + (z - wall + minute) = z := by omega
      exact hclosed (z - wall + minute) (by omega) (by omega)
        ((hahead _).mpr ⟨by omega, hz'.symm ▸ hcov⟩)
    · exact fun hsame => hnow (hsame.mp hheld.2)
  | nothing =>
    -- some minute of the second week is held
    have hmod : (open_ + 10080) % 10080 = open_ := by omega
    exact absurd (s.covered_ahead.mpr ⟨by omega, hmod.symm ▸ hopen⟩)
      (hmeets (open_ + 10080) (by omega))

/-- When it is open is when some window holds the wall clock's minute. -/
theorem state_isOpen (now : ℤ) (zone : Zone) :
    (s.state now zone).isOpen = true ↔ s.Covers (zone.wall now) := by
  obtain ⟨change, -, ⟨hcov, hstate⟩ | ⟨hcov, hstate⟩⟩ := s.state_wall now zone
  · exact iff_of_true (by rw [hstate]) hcov
  · exact iff_of_false (by simp [hstate]) hcov

/-- **What is said is exact.** It is open when some window holds the minute, and the moment it
gives is the first later one at which that answer is another, none where there is none. -/
theorem state_exact (zone : Zone) (now : ℤ) :
    ((s.state now zone).isOpen = true ↔ s.Covers (zone.wall now)) ∧
      ((s.state now zone).isOpen = true → (s.state now zone).opensAt = none) ∧
      ((s.state now zone).isOpen = false → (s.state now zone).until = none) ∧
      FirstChange (fun t => (s.state t zone).isOpen = true) now
        ((if (s.state now zone).isOpen then (s.state now zone).until
          else (s.state now zone).opensAt).map (· * 1000000)) := by
  refine ⟨s.state_isOpen now zone, ?_⟩
  obtain ⟨change, hchange, hcases⟩ := s.state_wall now zone
  -- the minute's first change is the moment's, since a moment's answer is its minute's
  have hmoment : FirstChange (fun t => (s.state t zone).isOpen = true) now
      (change.map zone.moment) := by
    simp only [state_isOpen]
    cases change with
    | none =>
      intro t ht
      refine hchange (zone.wall t) ?_
      exact Int.ediv_le_ediv (by decide) (by omega)
    | some m =>
      obtain ⟨hlt, hsame, hother⟩ := hchange
      refine ⟨zone.wall_lt.mp hlt, fun t ht htm => hsame _ ?_ (zone.wall_lt.mpr htm), ?_⟩
      · exact Int.ediv_le_ediv (by decide) (by omega)
      · simpa only [zone.wall_moment] using hother
  have hmap : change.map zone.moment = (change.map zone.epoch).map (· * 1000000) := by
    rw [Option.map_map]
    rfl
  rw [hmap] at hmoment
  rcases hcases with ⟨-, hstate⟩ | ⟨-, hstate⟩
  · rw [hstate]
    exact ⟨fun _ => rfl, fun h => (nomatch h), hmoment⟩
  · rw [hstate]
    exact ⟨fun h => (nomatch h), fun _ => rfl, hmoment⟩

end WeekWindows

/-- A night that runs over the week's end is in the runs at both ends of the week. -/
example : (WeekWindows.mk [⟨[6], by simp [IsDay], List.pairwise_singleton _ _, ⟨22, 0⟩,
    ⟨2, 0⟩⟩]).runs = [(0, 120), (9960, 10080)] := by decide

end Schedules
