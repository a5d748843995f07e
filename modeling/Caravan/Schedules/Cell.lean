import Caravan.Schedules.WeekWindows

/-!
# When a cell runs

A cell's slot has a schedule of its own: one window, on some days, in the local time. Here are its
two readings, `in_window` and `minutes_to_window`, as the once-a-minute tick makes them.

* `Schedule.in_window_iff` — the cell is in its window at the minutes that the same window of a
  model's schedule holds, so the two schedules tell one time (`in_window_state`);
* `Schedule.minutes_to_window_least` — the minutes to the window are the fewest after which the
  cell comes to be in it.
-/

namespace Schedules

/-- What is read of `time.localtime()`. -/
structure LocalTime where
  tm_wday : ℤ
  tm_hour : ℤ
  tm_min : ℤ
  deriving DecidableEq, Repr

/-- The local time at a minute of the wall clock. -/
def localtime (wall : ℤ) : LocalTime := ⟨weekday wall, wall % DAY / 60, wall % 60⟩

/-- A cell's schedule, as `normalize_schedule` leaves it. -/
structure Schedule where
  enabled : Bool
  start : TimeOfDay
  stop : TimeOfDay
  days : List ℤ
  inWeek : ∀ d ∈ days, IsDay d
  sorted : days.Pairwise (· < ·)
  /-- "start and stop must differ" -/
  differ : enabled = true → start ≠ stop

namespace Schedule

variable (sched : Schedule)

/-- `sched.get("days") or list(range(7))` -/
def onDays : List ℤ := if sched.days = [] then everyDay else sched.days

/-- `in_window` -/
def in_window (now : LocalTime) : Bool :=
  let days := sched.onDays
  let cur := now.tm_hour * 60 + now.tm_min
  let start := minutes_of_day sched.start
  let stop := minutes_of_day sched.stop
  let day := now.tm_wday
  if start = stop then false
  else if start < stop then decide (day ∈ days ∧ start ≤ cur ∧ cur < stop)
  else if day ∈ days ∧ start ≤ cur then true
  else decide ((day - 1) % 7 ∈ days ∧ cur < stop)

/-- `minutes_to_window` -/
def minutes_to_window (now : LocalTime) : Option ℤ :=
  let days := sched.onDays
  let start := minutes_of_day sched.start
  if start = minutes_of_day sched.stop ∨ days = [] then none
  else
    let cur := now.tm_hour * 60 + now.tm_min
    (List.range 8).findSome? fun ahead : ℕ =>
      if (now.tm_wday + ahead) % 7 ∉ days then none
      else
        let left := ahead * 1440 + start - cur
        if 0 ≤ left then some left else none

/-- The same window in a model's schedule, which says all seven days as none. -/
def window : Window where
  days := if sched.days.length = 7 then [] else sched.days
  inWeek d hd := by
    split at hd
    · exact nomatch hd
    · exact sched.inWeek d hd
  sorted := by
    split
    · exact .nil
    · exact sched.sorted
  fromTime := sched.start
  toTime := sched.stop

end Schedule

/-! ### One time -/

theorem localtime_cur (wall : ℤ) :
    (localtime wall).tm_hour * 60 + (localtime wall).tm_min = wall % 1440 := by
  unfold localtime DAY
  dsimp only
  omega

theorem weekday_before (wall : ℤ) : (weekday wall - 1) % 7 = weekday ((wall / DAY - 1) * DAY) := by
  unfold weekday DAY
  omega

/-- Seven weekdays in order are all of them. -/
theorem eq_everyDay {days : List ℤ} (hin : ∀ d ∈ days, IsDay d) (hsorted : days.Pairwise (· < ·))
    (hseven : days.length = 7) : days = everyDay := by
  have hnodup : days.Nodup := hsorted.imp ne_of_lt
  have hsub : days ⊆ everyDay := fun d hd => mem_everyDay.mpr (hin d hd)
  have hperm : days.Perm everyDay :=
    (List.subperm_of_subset hnodup hsub).perm_of_length_le (by rw [hseven]; rfl)
  exact hperm.eq_of_pairwise (fun _ _ _ _ h h' => absurd h h'.not_gt) hsorted (by decide)

namespace Schedule

variable (sched : Schedule)

theorem onDays_isDay {d : ℤ} (h : d ∈ sched.onDays) : IsDay d := by
  unfold onDays at h
  split at h
  · exact mem_everyDay.mp h
  · exact sched.inWeek d h

theorem window_days :
    sched.window.days = if sched.days.length = 7 then [] else sched.days := rfl

@[simp] theorem window_onDays : sched.window.onDays = sched.onDays := by
  unfold Window.onDays onDays
  rw [window_days]
  by_cases hseven : sched.days.length = 7
  · have hall := eq_everyDay sched.inWeek sched.sorted hseven
    rw [if_pos hseven, if_pos rfl, hall]
    rfl
  · rw [if_neg hseven]

variable {sched} (hne : sched.start ≠ sched.stop)

include hne

/-- What `in_window` reads of the minute. -/
theorem in_window_read (wall : ℤ) : sched.in_window (localtime wall) = true ↔
    if minutes_of_day sched.start < minutes_of_day sched.stop then
      weekday wall ∈ sched.onDays ∧ minutes_of_day sched.start ≤ wall % 1440 ∧
        wall % 1440 < minutes_of_day sched.stop
    else weekday wall ∈ sched.onDays ∧ minutes_of_day sched.start ≤ wall % 1440 ∨
      (weekday wall - 1) % 7 ∈ sched.onDays ∧ wall % 1440 < minutes_of_day sched.stop := by
  have hdiffer := minutes_of_day_inj.not.mpr hne
  have hwday : (localtime wall).tm_wday = weekday wall := rfl
  unfold in_window
  dsimp only
  rw [localtime_cur, if_neg hdiffer]
  simp only [hwday]
  split
  · exact decide_eq_true_iff
  · split
    · next htail => exact iff_of_true rfl (.inl htail)
    · next htail => rw [decide_eq_true_iff, or_iff_right htail]

/-- **In its window** is where the same window of a model's schedule is open. -/
theorem in_window_iff (wall : ℤ) :
    sched.in_window (localtime wall) = true ↔ sched.window.Covers wall := by
  have hstart := minutes_of_day_nonneg sched.start
  have hstartlt := minutes_of_day_lt sched.start
  have hstop := minutes_of_day_nonneg sched.stop
  have hstoplt := minutes_of_day_lt sched.stop
  have htoday : weekday wall = weekday (wall / DAY * DAY) := by
    unfold weekday DAY
    omega
  rw [in_window_read hne, weekday_before, htoday]
  unfold Window.Covers
  rw [window_onDays]
  change _ ↔ ∃ day : ℤ, weekday (day * DAY) ∈ sched.onDays ∧
    day * DAY + minutes_of_day sched.start ≤ wall ∧ wall < day * DAY +
      (if minutes_of_day sched.start < minutes_of_day sched.stop then minutes_of_day sched.stop
        else minutes_of_day sched.stop + DAY)
  generalize minutes_of_day sched.start = start at *
  generalize minutes_of_day sched.stop = stop at *
  split
  · -- within a day: the window that holds the minute started on the minute's own day
    constructor
    · rintro ⟨hday, hfrom, hto⟩
      exact ⟨_, hday, by unfold DAY; omega, by unfold DAY; omega⟩
    · rintro ⟨day, hday, hfrom, hto⟩
      have hown : day = wall / DAY := by unfold DAY at *; omega
      exact ⟨hown ▸ hday, by unfold DAY at *; omega, by unfold DAY at *; omega⟩
  · -- past midnight: on the minute's own day, or on the day before
    constructor
    · rintro (⟨hday, hfrom⟩ | ⟨hday, hto⟩)
      · exact ⟨_, hday, by unfold DAY; omega, by unfold DAY; omega⟩
      · exact ⟨_, hday, by unfold DAY; omega, by unfold DAY; omega⟩
    · rintro ⟨day, hday, hfrom, hto⟩
      obtain htail | hmorning : day = wall / DAY ∨ day = wall / DAY - 1 := by
        unfold DAY at *
        omega
      · exact .inl ⟨htail ▸ hday, by unfold DAY at *; omega⟩
      · exact .inr ⟨hmorning ▸ hday, by unfold DAY at *; omega⟩

/-- **The two schedules tell one time.** -/
theorem in_window_state (now : ℤ) (zone : Zone) :
    sched.in_window (localtime (zone.wall now)) =
      ((WeekWindows.mk [sched.window]).state now zone).isOpen := by
  rw [Bool.eq_iff_iff, in_window_iff hne, WeekWindows.state_isOpen]
  simp [WeekWindows.Covers]

/-! ### The minutes to the window -/

omit hne in
/-- The cell comes to be in its window: it is in it now, and was not a minute ago. -/
def Opens (sched : Schedule) (wall : ℤ) : Prop :=
  sched.in_window (localtime wall) = true ∧ sched.in_window (localtime (wall - 1)) = false

omit hne in
theorem onDays_ne_nil (sched : Schedule) : sched.onDays ≠ [] := by
  unfold onDays
  split
  · exact List.cons_ne_nil _ _
  · assumption

/-- The window opens at its start, on its days. -/
theorem opens_iff (wall : ℤ) :
    sched.Opens wall ↔ weekday wall ∈ sched.onDays ∧ wall % 1440 = minutes_of_day sched.start := by
  have hdiffer := minutes_of_day_inj.not.mpr hne
  have hstart := minutes_of_day_nonneg sched.start
  have hstartlt := minutes_of_day_lt sched.start
  have hstop := minutes_of_day_nonneg sched.stop
  have hstoplt := minutes_of_day_lt sched.stop
  have hcur : 0 ≤ wall % 1440 ∧ wall % 1440 < 1440 := by omega
  rw [Opens, ← Bool.not_eq_true, in_window_read hne, in_window_read hne]
  -- a minute ago was on the same day, unless it is midnight
  have hago : wall % 1440 ≠ 0 ∧ weekday (wall - 1) = weekday wall ∧
        (wall - 1) % 1440 = wall % 1440 - 1 ∨
      wall % 1440 = 0 ∧ weekday (wall - 1) = (weekday wall - 1) % 7 ∧
        (wall - 1) % 1440 = 1439 := by
    unfold weekday DAY
    omega
  generalize minutes_of_day sched.start = start at *
  generalize minutes_of_day sched.stop = stop at *
  generalize wall % 1440 = cur at *
  rcases hago with ⟨hmidnight, hday, hago⟩ | ⟨hmidnight, hday, hago⟩
  · rw [hday, hago]
    by_cases hlt : start < stop
    · rw [if_pos hlt, if_pos hlt]
      grind
    · rw [if_neg hlt, if_neg hlt]
      grind
  · rw [hday, hago, hmidnight]
    by_cases hlt : start < stop
    · rw [if_pos hlt, if_pos hlt]
      grind
    · rw [if_neg hlt, if_neg hlt]
      grind

omit hne in
/-- The first number for which `f` gives something gives the answer. -/
theorem findSome_range {B : Type*} {f : ℕ → Option B} {n : ℕ} {b : B}
    (h : (List.range n).findSome? f = some b) : ∃ a < n, f a = some b ∧ ∀ a' < a, f a' = none := by
  obtain ⟨before, a, after, hsplit, ha, hnone⟩ := List.findSome?_eq_some_iff.mp h
  have hmem {a' : ℕ} : a' < n ↔ a' ∈ before ∨ a' = a ∨ a' ∈ after := by
    rw [← List.mem_range, hsplit, List.mem_append, List.mem_cons]
  have hsorted : (before ++ a :: after).Pairwise (· < ·) := hsplit ▸ List.pairwise_lt_range
  have hlt := hmem.mpr (.inr (.inl rfl))
  refine ⟨a, hlt, ha, fun a' ha' => ?_⟩
  rcases hmem.mp (ha'.trans hlt) with hbefore | rfl | hafter
  · exact hnone a' hbefore
  · exact absurd ha' (lt_irrefl _)
  · have hlater := (List.pairwise_cons.mp (List.pairwise_append.mp hsorted).2.1).1 a' hafter
    exact absurd ha' hlater.not_gt

/-- The days that are looked through have one on which the window opens. -/
theorem minutes_to_window_ahead (wall : ℤ) : ∃ ahead : ℕ,
    sched.minutes_to_window (localtime wall) =
      some (ahead * 1440 + minutes_of_day sched.start - wall % 1440) ∧
    (weekday wall + ahead) % 7 ∈ sched.onDays ∧
    0 ≤ (ahead : ℤ) * 1440 + minutes_of_day sched.start - wall % 1440 ∧
    ∀ a < ahead, (weekday wall + a) % 7 ∈ sched.onDays →
      (a : ℤ) * 1440 + minutes_of_day sched.start - wall % 1440 < 0 := by
  have hdiffer := minutes_of_day_inj.not.mpr hne
  have hstart := minutes_of_day_nonneg sched.start
  have hwday : (localtime wall).tm_wday = weekday wall := rfl
  unfold minutes_to_window
  dsimp only
  rw [if_neg (not_or.mpr ⟨hdiffer, sched.onDays_ne_nil⟩), localtime_cur]
  simp only [hwday, ite_not]
  generalize hfound : List.findSome? _ (List.range 8) = found
  cases found with
  | none =>
    -- from tomorrow on every weekday comes within a week, and its start is still to come
    rw [List.findSome?_eq_none_iff] at hfound
    obtain ⟨d, hd⟩ := List.exists_mem_of_ne_nil _ sched.onDays_ne_nil
    obtain ⟨hmonday, hsunday⟩ := sched.onDays_isDay hd
    obtain ⟨hwall, hwall'⟩ := weekday_isDay wall
    have hin : ((d - weekday wall - 1) % 7 + 1).toNat ∈ List.range 8 := by
      rw [List.mem_range]
      omega
    have hday : (weekday wall + ((d - weekday wall - 1) % 7 + 1).toNat) % 7 = d := by omega
    have hnone := hfound _ hin
    rw [hday, if_pos hd, if_pos (by omega)] at hnone
    exact nomatch hnone
  | some k =>
    obtain ⟨ahead, -, hahead, hbefore⟩ := findSome_range hfound
    split at hahead
    · next hday =>
      split at hahead
      · next hleft =>
        refine ⟨ahead, hahead.symm, hday, hleft, fun a ha hday => ?_⟩
        have hnone := hbefore a ha
        rw [if_pos hday] at hnone
        by_contra hge
        rw [if_pos (not_lt.mp hge)] at hnone
        exact nomatch hnone
      · exact nomatch hahead
    · exact nomatch hahead

/-- **The minutes to the window** are the fewest after which the cell comes to be in its window;
for a cell that is not in it, the fewest after which it is. -/
theorem minutes_to_window_least (wall : ℤ) : ∃ k,
    sched.minutes_to_window (localtime wall) = some k ∧ 0 ≤ k ∧ sched.Opens (wall + k) ∧
    (∀ j, 0 ≤ j → j < k → ¬ sched.Opens (wall + j)) ∧
    (sched.in_window (localtime wall) = false →
      ∀ j, 0 ≤ j → j < k → sched.in_window (localtime (wall + j)) = false) := by
  obtain ⟨ahead, hk, hday, hleft, hbefore⟩ := minutes_to_window_ahead hne wall
  have hstart := minutes_of_day_nonneg sched.start
  have hstartlt := minutes_of_day_lt sched.start
  refine ⟨_, hk, hleft, ?_, ?_⟩
  · rw [opens_iff hne]
    have hweekday : weekday (wall + (ahead * 1440 + minutes_of_day sched.start - wall % 1440)) =
        (weekday wall + ahead) % 7 := by
      unfold weekday DAY
      omega
    exact ⟨hweekday ▸ hday, by omega⟩
  have hnone : ∀ j, 0 ≤ j → j < ahead * 1440 + minutes_of_day sched.start - wall % 1440 →
      ¬ sched.Opens (wall + j) := by
    intro j hj hjk hopens
    rw [opens_iff hne] at hopens
    obtain ⟨hopenday, hat⟩ := hopens
    -- an earlier opening would be on an earlier day, and that day's start is over
    have hearlier : (((wall + j) / 1440 - wall / 1440).toNat : ℤ) =
        (wall + j) / 1440 - wall / 1440 := by omega
    have hdayj : (weekday wall + ((wall + j) / 1440 - wall / 1440).toNat) % 7 =
        weekday (wall + j) := by
      unfold weekday DAY
      omega
    have hpast := hbefore ((wall + j) / 1440 - wall / 1440).toNat (by omega) (hdayj ▸ hopenday)
    omega
  refine ⟨hnone, fun hoff j hj hjk => ?_⟩
  -- a cell that is off comes to be on by an opening, and there is none before
  induction j, hj using Int.leInduction with
  | base => rwa [add_zero]
  | succ j hj ih =>
    have hoffj := ih (by omega)
    by_contra hon
    refine hnone (j + 1) (by omega) hjk ⟨Bool.eq_true_of_not_eq_false hon, ?_⟩
    have hback : wall + (j + 1) - 1 = wall + j := by omega
    rwa [hback]

/-- **One window, one time.** At every minute the cell is in its window when the model's schedule
of the same window is open, and the minutes to the window are the fewest after which the cell
comes to be in it. -/
theorem one_time (now : ℤ) (zone : Zone) :
    sched.in_window (localtime (zone.wall now)) =
        ((WeekWindows.mk [sched.window]).state now zone).isOpen ∧
      ∃ k, sched.minutes_to_window (localtime (zone.wall now)) = some k ∧ 0 ≤ k ∧
        sched.Opens (zone.wall now + k) ∧
        (∀ j, 0 ≤ j → j < k → ¬ sched.Opens (zone.wall now + j)) ∧
        (sched.in_window (localtime (zone.wall now)) = false →
          ∀ j, 0 ≤ j → j < k → sched.in_window (localtime (zone.wall now + j)) = false) :=
  ⟨in_window_state hne now zone, minutes_to_window_least hne (zone.wall now)⟩

omit hne in
/-- Friday evenings, from 22:00 to 08:00. -/
def friday : Schedule where
  enabled := true
  start := ⟨22, 0⟩
  stop := ⟨8, 0⟩
  days := [4]
  inWeek := by simp [IsDay]
  sorted := List.pairwise_singleton _ _
  differ := by decide

omit hne in
/-- At the epoch, a Thursday's midnight, the window of Friday opens in 46 hours. -/
theorem one_time_friday : friday.in_window (localtime (Zone.wall ⟨0⟩ 0)) = false ∧
    friday.minutes_to_window (localtime (Zone.wall ⟨0⟩ 0)) = some 2760 ∧
    ((WeekWindows.mk [friday.window]).state 0 ⟨0⟩).isOpen = false := by
  obtain ⟨hsame, -⟩ := one_time (show friday.start ≠ friday.stop by decide) 0 ⟨0⟩
  have hoff : friday.in_window (localtime (Zone.wall ⟨0⟩ 0)) = false := by decide
  exact ⟨hoff, by decide, hsame ▸ hoff⟩

end Schedule

end Schedules
