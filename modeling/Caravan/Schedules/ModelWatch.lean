import Caravan.Schedules.Daytime

/-!
# The daily check of the models

Once a day, at a time of its own, the controller looks whether a model of the disk was re-issued.
`set_watch_settings` keeps the time and the switches, and `model_watch_tick`, called once a
minute, decides whether the pass is to be made. One remembered date, `lastCheckDay`, says "done
today" to the tick; the save writes it where the time of the day has passed, and takes it away
where the time is still ahead. Where it is missing, the tick takes the day for the first one under
the schedule and lets it go by.

* `fires_iff` — which ticks fire after a save: on every date *after* a first one, the date of the
  save or that of the first tick, the first tick at the time or past it;
* `daily_iff` — the ticks that are due since the save are the ones that fire exactly when the time
  had passed at the save, or no tick of the first tick's date comes at the time or after it;
* `ahead_skipped` — a check that is set half an hour ahead does not come.
-/

namespace Schedules

open Python

/-! ### The settings -/

/-- `modelWatch` of the admin state. -/
structure ModelWatch where
  check : Bool := false
  download : Bool := false
  keepPrev : Bool := false
  /-- `at`, null for none. -/
  time : Value := .null
  lastCheckDay : Option Text := none
  lastCheckAt : ℕ := 0
  lastError : Text := []
  /-- The `path` and the `result` of the rows. -/
  lastFetched : List (Text × Text) := []

/-- What `watch_settings` returns. -/
structure WatchSettings where
  check : Bool
  download : Bool
  keepPrev : Bool
  /-- `at` -/
  time : TimeOfDay
  lastCheckDay : Text
  lastCheckAt : ℕ
  lastError : Text
  lastFetched : List (Text × Text)

/-- `DEFAULT_WATCH_AT` -/
def DEFAULT_WATCH_AT : TimeOfDay := ⟨3, 0⟩

variable (I : Interp)

/-- `_saved_at` -/
def saved_at (saved : ModelWatch) : TimeOfDay :=
  match hhmm I saved.time DEFAULT_WATCH_AT.text with
  | .ok t => t
  | .error _ => DEFAULT_WATCH_AT

/-- `watch_settings` -/
def watch_settings (saved : ModelWatch) : WatchSettings where
  check := saved.check
  download := saved.download
  keepPrev := saved.keepPrev
  time := saved_at I saved
  lastCheckDay := saved.lastCheckDay.getD []
  lastCheckAt := saved.lastCheckAt
  lastError := saved.lastError
  lastFetched := saved.lastFetched

/-- `set_watch_settings`: what it leaves as `modelWatch`. A refusal leaves all as it was. -/
def set_watch_settings (payload : Dict) (stamp : Stamp) (saved : ModelWatch) :
    Except Raise ModelWatch := do
  let time ← hhmm I (payload.get "at") (saved_at I saved).text
  let download := (payload.get "download").truthy
  -- the lower tier turns on the one above it
  let check := (payload.get "check").truthy || download
  return { saved with
    check, download
    keepPrev := (payload.get "keepPrev").truthy
    time := .str time.text
    lastCheckDay :=
      if check then
        if minutes_of_day time ≤ stamp.minute then some stamp.date.text else none
      else saved.lastCheckDay }

/-- `_stamp_day` -/
def stamp_day (day : Text) (saved : ModelWatch) : ModelWatch := { saved with lastCheckDay := day }

/-- What a pass comes to, as far as it is remembered. -/
structure Pass where
  stamp : ℕ
  /-- `len(errors)` -/
  errors : ℕ
  /-- What `_autofetch` returns where the download is on. -/
  fetched : List (Text × Text)

/-- What `check_pass` leaves as `modelWatch`: nothing new where it raises. -/
def check_pass (settings : WatchSettings) (saved : ModelWatch) : Option Pass → ModelWatch
  | none => saved
  | some pass => { saved with
      lastCheckAt := pass.stamp
      lastError :=
        if pass.errors ≠ 0 then decimal pass.errors ++ Text.of " repo(s) unreachable" else []
      lastFetched := if settings.download then pass.fetched.take 20 else saved.lastFetched }

/-- What `model_watch_tick` says. -/
inductive Tick where
  | idle (reason : Text)
  | fired (time : TimeOfDay)
  deriving DecidableEq

/-- `model_watch_tick` -/
def model_watch_tick (stamp : Stamp) (pass : Option Pass) (saved : ModelWatch) :
    Tick × ModelWatch :=
  let settings := watch_settings I saved
  let today := stamp.date.text
  if settings.check = false then (.idle "auto-check off", saved)
  else if settings.lastCheckDay = today then (.idle "already checked today", saved)
  else if settings.lastCheckDay = [] then
    -- on this schedule for the first time: nothing was missed
    (.idle "first day under the schedule", stamp_day today saved)
  else if stamp.minute < minutes_of_day settings.time then (.idle "not yet", saved)
  else (.fired settings.time, check_pass settings (stamp_day today saved) pass)

/-! ### The log -/

/-- A call of `set_watch_settings`, or one of `model_watch_tick` and what its pass would be. -/
inductive Call where
  | save (payload : Dict) (stamp : Stamp)
  | tick (stamp : Stamp) (pass : Option Pass)

/-- `now` -/
def Call.stamp : Call → Stamp
  | .save _ stamp => stamp
  | .tick stamp _ => stamp

/-- What a call leaves. -/
def Call.leaves (saved : ModelWatch) : Call → ModelWatch
  | .save payload stamp =>
    match set_watch_settings I payload stamp saved with
    | .ok saved' => saved'
    | .error _ => saved
  | .tick stamp pass => (model_watch_tick I stamp pass saved).2

/-- What a log of calls leaves. -/
def after (saved : ModelWatch) (log : List Call) : ModelWatch := log.foldl (Call.leaves I) saved

/-- The calls of a log come at nondecreasing times. -/
def Clocked (log : List Call) : Prop :=
  log.Pairwise fun c c' => c.stamp.number ≤ c'.stamp.number

/-- Every save of a log is refused. -/
def NoSave (saved : ModelWatch) (log : List Call) : Prop :=
  ∀ before payload stamp later, log = before ++ .save payload stamp :: later →
    ∃ e, set_watch_settings I payload stamp (after I saved before) = .error e

/-- A tick starts the pass. -/
def Fires (stamp : Stamp) (pass : Option Pass) (saved : ModelWatch) : Prop :=
  ∃ time, (model_watch_tick I stamp pass saved).1 = .fired time

variable {I}

/-- No tick of these came at a time of the date, or past it. -/
def Unmet (t : TimeOfDay) (d : Date) (calls : List Call) : Prop :=
  ∀ stamp pass, .tick stamp pass ∈ calls → stamp.date = d → stamp.minute < minutes_of_day t

/-- A tick is due since a save: the moment of its date lies ahead of the save, the tick comes at
the time or past it, and no tick of the date did so before it. -/
def Due (t : TimeOfDay) (save : Stamp) (before : List Call) (stamp : Stamp) : Prop :=
  save.number < (moment stamp.date t).number ∧ minutes_of_day t ≤ stamp.minute ∧
    Unmet t stamp.date before

variable (I)

/-- Of the ticks since a save, exactly those fire that are due. -/
def Daily (saved : ModelWatch) (save : Stamp) (log : List Call) : Prop :=
  ∀ before stamp pass later, log = before ++ .tick stamp pass :: later →
    (Fires I stamp pass (after I saved before) ↔ Due (saved_at I saved) save before stamp)

variable {I} {saved : ModelWatch} {stamp : Stamp} {pass : Option Pass} {d : Date}

/-! ### One call -/

@[simp] theorem after_nil : after I saved [] = saved := rfl

@[simp] theorem after_append (log log' : List Call) :
    after I saved (log ++ log') = after I (after I saved log) log' := List.foldl_append

@[simp] theorem after_one (c : Call) : after I saved [c] = c.leaves I saved := rfl

@[simp] theorem check_pass_check (settings : WatchSettings) :
    (check_pass settings saved pass).check = saved.check := by
  cases pass <;> rfl

@[simp] theorem check_pass_time (settings : WatchSettings) :
    (check_pass settings saved pass).time = saved.time := by
  cases pass <;> rfl

@[simp] theorem check_pass_day (settings : WatchSettings) :
    (check_pass settings saved pass).lastCheckDay = saved.lastCheckDay := by
  cases pass <;> rfl

/-- A tick writes the date alone, and the record of the pass. -/
theorem tick_keeps (stamp : Stamp) (pass : Option Pass) (saved : ModelWatch) :
    (model_watch_tick I stamp pass saved).2.check = saved.check ∧
      (model_watch_tick I stamp pass saved).2.time = saved.time := by
  unfold model_watch_tick
  dsimp only
  split_ifs <;> simp [stamp_day]

/-- **A tick under the schedule.** With a date remembered, a tick fires on any other date at the
time or past it, and remembers its date then. -/
theorem tick_day (stamp : Stamp) (pass : Option Pass) (hcheck : saved.check = true)
    (hday : saved.lastCheckDay = some d.text) :
    (Fires I stamp pass saved ↔
      d ≠ stamp.date ∧ minutes_of_day (saved_at I saved) ≤ stamp.minute) ∧
    (Fires I stamp pass saved →
      (model_watch_tick I stamp pass saved).2.lastCheckDay = some stamp.date.text) ∧
    (¬Fires I stamp pass saved →
      (model_watch_tick I stamp pass saved).2.lastCheckDay = some d.text) := by
  have hon : (watch_settings I saved).check = true := hcheck
  have hlast : (watch_settings I saved).lastCheckDay = d.text := by
    rw [watch_settings, hday, Option.getD_some]
  have htime : (watch_settings I saved).time = saved_at I saved := rfl
  unfold Fires model_watch_tick
  dsimp only
  rw [hon, hlast, htime, if_neg (by simp), if_neg d.text_ne_nil]
  simp only [Date.text_inj]
  split_ifs with hd hm
  · exact ⟨by simp [hd], by simp, fun _ => hday⟩
  · exact ⟨by simp [hd]; omega, by simp, fun _ => hday⟩
  · exact ⟨by simp [hd]; omega, fun _ => by simp [stamp_day], by simp⟩

/-- Where no date is remembered, a tick writes its own and does not fire. -/
theorem tick_first (stamp : Stamp) (pass : Option Pass) (hcheck : saved.check = true)
    (hday : saved.lastCheckDay = none) :
    ¬Fires I stamp pass saved ∧
      (model_watch_tick I stamp pass saved).2.lastCheckDay = some stamp.date.text := by
  have hon : (watch_settings I saved).check = true := hcheck
  have hlast : (watch_settings I saved).lastCheckDay = [] := by
    rw [watch_settings, hday, Option.getD_none]
  unfold Fires model_watch_tick
  dsimp only
  rw [hon, hlast, if_neg (by simp), if_neg fun h => stamp.date.text_ne_nil h.symm, if_pos rfl]
  exact ⟨by simp, rfl⟩

/-- **A save.** What is saved is read back, and the date is remembered where the time of the day
has passed. -/
theorem set_spec (hI : I.Ascii) {payload : Dict} {saved' : ModelWatch}
    (h : set_watch_settings I payload stamp saved = .ok saved') (hcheck : saved'.check = true) :
    saved'.lastCheckDay = if minutes_of_day (saved_at I saved') ≤ stamp.minute
      then some stamp.date.text else none := by
  unfold set_watch_settings at h
  obtain ⟨time, htime, h⟩ := Except.bind_eq_ok h
  obtain rfl := Except.ok.inj h
  have hread : hhmm I (.str time.text) DEFAULT_WATCH_AT.text = .ok time :=
    hhmm_text hI rfl
  dsimp only at hcheck ⊢
  rw [if_pos hcheck, saved_at]
  dsimp only
  rw [hread]

/-! ### The calls since a save -/

/-- What the calls since a save have left, where `base` is the first date under the schedule: the
date that is remembered is `base`, or the last one with a tick at the time or past it. -/
structure Kept (I : Interp) (t : TimeOfDay) (base : Date) (calls : List Call)
    (saved : ModelWatch) : Prop where
  check : saved.check = true
  time : saved_at I saved = t
  day : ∃ d, saved.lastCheckDay = some d.text ∧ base.number ≤ d.number ∧
    (d = base ∨ ¬Unmet t d calls) ∧
    ∀ stamp pass, .tick stamp pass ∈ calls → minutes_of_day t ≤ stamp.minute →
      stamp.date.number ≤ d.number

variable {t : TimeOfDay} {base : Date} {calls : List Call}

theorem Unmet.append {calls' : List Call} :
    Unmet t d (calls ++ calls') ↔ Unmet t d calls ∧ Unmet t d calls' := by
  simp only [Unmet, List.mem_append, or_imp, forall_and]

/-- Under the schedule a tick fires on a date after the first one, where it is the first tick of
its date at the time or past it. -/
theorem Kept.fires_iff (h : Kept I t base calls saved) (hbase : base.number ≤ stamp.date.number)
    (hlate : ∀ c ∈ calls, c.stamp.date.number ≤ stamp.date.number) :
    Fires I stamp pass saved ↔ base ≠ stamp.date ∧ minutes_of_day t ≤ stamp.minute ∧
      Unmet t stamp.date calls := by
  obtain ⟨d, hday, hle, hmet, hlast⟩ := h.day
  rw [(tick_day stamp pass h.check hday).1, h.time]
  constructor
  · rintro ⟨hne, hmin⟩
    -- the remembered date is an earlier one: nothing since came at the time on the tick's date
    have hlt : d.number < stamp.date.number := by
      have hnum : d.number ≠ stamp.date.number := fun he => hne (Date.number_inj.mp he)
      rcases hmet with rfl | hmet
      · omega
      · simp only [Unmet, not_forall, not_lt] at hmet
        obtain ⟨s, p, hmem, rfl, -⟩ := hmet
        have : s.date.number ≤ stamp.date.number := hlate (.tick s p) hmem
        omega
    refine ⟨fun he => ?_, hmin, fun s p hmem hs => ?_⟩
    · rw [he] at hle
      omega
    · by_contra hm
      have := hlast s p hmem (not_lt.mp hm)
      rw [hs] at this
      omega
  · rintro ⟨hne, hmin, hunmet⟩
    refine ⟨?_, hmin⟩
    rintro rfl
    rcases hmet with rfl | hmet
    · exact hne rfl
    · exact hmet hunmet

/-- What a tick keeps. -/
theorem Kept.tick (h : Kept I t base calls saved) (hbase : base.number ≤ stamp.date.number)
    (hlate : ∀ c ∈ calls, c.stamp.date.number ≤ stamp.date.number) :
    Kept I t base (calls ++ [.tick stamp pass]) (model_watch_tick I stamp pass saved).2 := by
  obtain ⟨hcheck, htime⟩ := tick_keeps (I := I) stamp pass saved
  refine ⟨hcheck.trans h.check, ?_, ?_⟩
  · rw [← h.time, saved_at, saved_at, htime]
  obtain ⟨d, hday, hle, hmet, hlast⟩ := h.day
  obtain ⟨hfires, hyes, hno⟩ := tick_day (I := I) stamp pass h.check hday
  by_cases hf : Fires I stamp pass saved
  · -- the tick's date is remembered, and the tick is one at the time
    obtain ⟨-, hmin⟩ := hfires.mp hf
    rw [h.time] at hmin
    refine ⟨stamp.date, hyes hf, hbase, .inr fun hun => ?_, fun s p hmem hs => ?_⟩
    · exact absurd (hun stamp pass (by simp) rfl) (not_lt.mpr hmin)
    · rcases List.mem_append.mp hmem with hmem | hmem
      · exact hlate (.tick s p) hmem
      · obtain ⟨rfl, -⟩ := Call.tick.inj (List.mem_singleton.mp hmem)
        exact le_rfl
  · refine ⟨d, hno hf, hle, hmet.imp_right fun hmet hun => hmet (Unmet.append.mp hun).1,
      fun s p hmem hs => ?_⟩
    rcases List.mem_append.mp hmem with hmem | hmem
    · exact hlast s p hmem hs
    · -- a tick at the time that does not fire is one of the remembered date
      obtain ⟨rfl, -⟩ := Call.tick.inj (List.mem_singleton.mp hmem)
      rw [hfires, h.time] at hf
      rw [not_and_or, not_not] at hf
      rcases hf with rfl | hf
      · exact le_rfl
      · exact absurd hs hf

/-! ### Runs -/

variable {log before later : List Call} {save : Stamp}

/-- The date of a tick. -/
def Call.tickDate? : Call → Option Date
  | .tick stamp _ => some stamp.date
  | .save .. => none

/-- The first date under the schedule: that of the save where the time of the day has passed, else
that of the first tick. -/
def firstDate (t : TimeOfDay) (save : Stamp) (log : List Call) : Option Date :=
  if minutes_of_day t ≤ save.minute then some save.date else log.findSome? Call.tickDate?

theorem NoSave.refused {payload : Dict} {c : Call} (h : NoSave I saved (c :: log))
    (hc : c = .save payload stamp) : c.leaves I saved = saved := by
  obtain rfl := hc
  obtain ⟨e, he⟩ := h [] payload stamp log rfl
  rw [Call.leaves]
  rw [after_nil] at he
  rw [he]

theorem NoSave.tail {c : Call} (h : NoSave I saved (c :: log)) :
    NoSave I (c.leaves I saved) log := by
  rintro before payload stamp later rfl
  exact h (c :: before) payload stamp later rfl

theorem NoSave.left (h : NoSave I saved (before ++ later)) : NoSave I saved before := by
  rintro b payload stamp l rfl
  exact h b payload stamp (l ++ later) (by rw [List.append_assoc, List.cons_append])

theorem noSave_of_ticks (h : ∀ c ∈ log, c.tickDate?.isSome = true) : NoSave I saved log := by
  rintro before payload stamp later rfl
  exact nomatch h (.save payload stamp) (by simp)

/-- Refused saves leave all as it was. -/
theorem after_noTick (hno : NoSave I saved log) (hlog : log.findSome? Call.tickDate? = none) :
    after I saved log = saved := by
  induction log with
  | nil => rfl
  | cons c log ih =>
    rw [List.findSome?_cons] at hlog
    cases c with
    | save payload stamp =>
      have hsame := hno.refused rfl
      show after I (Call.leaves I saved (.save payload stamp)) log = saved
      rw [hsame]
      exact ih (hsame ▸ hno.tail) hlog
    | tick stamp pass => exact nomatch hlog

/-- What a run of calls keeps. -/
theorem Kept.run (h : Kept I t base calls saved) (hclock : Clocked (calls ++ log))
    (hbase : ∀ c ∈ log, base.number ≤ c.stamp.date.number) (hno : NoSave I saved log) :
    Kept I t base (calls ++ log) (after I saved log) := by
  induction log generalizing calls saved with
  | nil => exact (List.append_nil calls).symm ▸ h
  | cons c log ih =>
    have hnext : Kept I t base (calls ++ [c]) (c.leaves I saved) := by
      cases c with
      | save payload stamp =>
        rw [hno.refused rfl]
        have hmem {s : Stamp} {p : Option Pass}
            (hs : .tick s p ∈ calls ++ [Call.save payload stamp]) : .tick s p ∈ calls := by
          simpa using hs
        obtain ⟨d, hday, hle, hmet, hlast⟩ := h.day
        exact ⟨h.check, h.time, d, hday, hle,
          hmet.imp_right fun hmet hun => hmet (Unmet.append.mp hun).1,
          fun s p hs => hlast s p (hmem hs)⟩
      | tick stamp pass =>
        refine h.tick (hbase (.tick stamp pass) List.mem_cons_self) fun c hc => ?_
        have := (List.pairwise_append.mp hclock).2.2 c hc (.tick stamp pass) List.mem_cons_self
        exact Stamp.date_le this
    have hsplit : calls ++ c :: log = (calls ++ [c]) ++ log := (List.append_cons calls c log)
    rw [hsplit] at hclock ⊢
    exact ih hnext hclock (fun c' hc' => hbase c' (List.mem_cons_of_mem c hc')) hno.tail

/-- A log whose first tick is known. -/
theorem firstTick_split (h : log.findSome? Call.tickDate? = some d) :
    ∃ before stamp pass later, log = before ++ .tick stamp pass :: later ∧ stamp.date = d ∧
      before.findSome? Call.tickDate? = none := by
  obtain ⟨before, c, later, rfl, hc, hbefore⟩ := List.findSome?_eq_some_iff.mp h
  cases c with
  | save => exact nomatch hc
  | tick stamp pass =>
    exact ⟨before, stamp, pass, later, rfl, Option.some.inj hc,
      List.findSome?_eq_none_iff.mpr hbefore⟩

/-- **Which ticks fire.** After a save with the check on, a tick fires where its date is not the
first one under the schedule, and where it is the first tick of its date at the time or past
it. -/
theorem fires_iff (hI : I.Ascii) {payload : Dict} {saved₀ : ModelWatch}
    (hset : set_watch_settings I payload save saved₀ = .ok saved) (hcheck : saved.check = true)
    (hclock : Clocked (.save payload save :: (before ++ .tick stamp pass :: later)))
    (hno : NoSave I saved (before ++ .tick stamp pass :: later)) :
    Fires I stamp pass (after I saved before) ↔
      firstDate (saved_at I saved) save (before ++ .tick stamp pass :: later) ≠ some stamp.date ∧
        minutes_of_day (saved_at I saved) ≤ stamp.minute ∧
        Unmet (saved_at I saved) stamp.date before := by
  obtain ⟨hsave, hrest⟩ := List.pairwise_cons.mp hclock
  obtain ⟨hbefore, -, hcross⟩ := List.pairwise_append.mp hrest
  have hlate : ∀ c ∈ before, c.stamp.date.number ≤ stamp.date.number := fun c hc =>
    Stamp.date_le (hcross c hc (.tick stamp pass) List.mem_cons_self)
  have hday := set_spec hI hset hcheck
  unfold firstDate
  split_ifs at hday ⊢ with hpassed
  · -- the time had passed: the schedule starts with the date of the save
    have hkept : Kept I (saved_at I saved) save.date [] saved :=
      ⟨hcheck, rfl, save.date, hday, le_rfl, .inl rfl, by simp⟩
    have hrun := hkept.run hbefore
      (fun c hc => Stamp.date_le (hsave c (List.mem_append_left _ hc))) hno.left
    have hbase : save.date.number ≤ stamp.date.number :=
      Stamp.date_le (hsave (.tick stamp pass) (by simp))
    rw [hrun.fires_iff hbase hlate, List.nil_append]
    simp only [ne_eq, Option.some.injEq]
  · -- the time is ahead: the schedule starts with the date of the first tick
    rw [List.findSome?_append]
    cases hfirst : before.findSome? Call.tickDate? with
    | none =>
      rw [after_noTick hno.left hfirst]
      refine iff_of_false (tick_first stamp pass hcheck hday).1 fun h => h.1 ?_
      rfl
    | some d =>
      obtain ⟨b, s, p, l, rfl, rfl, hb⟩ := firstTick_split hfirst
      have hnob : NoSave I saved (b ++ .tick s p :: l) := hno.left
      obtain ⟨hcheck', htime'⟩ := tick_keeps (I := I) s p saved
      have hbl := List.pairwise_append.mp hbefore
      -- what the first tick leaves, and then the run that follows it
      have hkept : Kept I (saved_at I saved) s.date (b ++ [.tick s p])
          (after I saved (b ++ [.tick s p])) := by
        rw [after_append, after_noTick hnob.left hb]
        refine ⟨hcheck'.trans hcheck, ?_, s.date, (tick_first s p hcheck hday).2, le_rfl, .inl rfl,
          fun s' p' hmem _ => ?_⟩
        · rw [after_one, saved_at, saved_at, Call.leaves, htime']
        · rcases List.mem_append.mp hmem with hmem | hmem
          · exact Stamp.date_le (hbl.2.2 (.tick s' p') hmem (.tick s p) List.mem_cons_self)
          · obtain ⟨rfl, -⟩ := Call.tick.inj (List.mem_singleton.mp hmem)
            exact le_rfl
      have hsplit : b ++ Call.tick s p :: l = (b ++ [.tick s p]) ++ l := List.append_cons b _ l
      have hnol : NoSave I (after I saved (b ++ [.tick s p])) l := by
        rintro b' payload' stamp' l' rfl
        obtain ⟨e, he⟩ := hnob (b ++ .tick s p :: b') payload' stamp' l' (by simp)
        refine ⟨e, ?_⟩
        rw [← after_append, ← List.append_cons]
        exact he
      have hrun := hkept.run (hsplit ▸ hbefore)
        (fun c hc => Stamp.date_le ((List.pairwise_cons.mp hbl.2.1).1 c hc)) hnol
      rw [← after_append, ← hsplit] at hrun
      rw [hrun.fires_iff (hlate (.tick s p) (by simp)) hlate]
      simp

/-- The first call of a log of which something holds. -/
theorem first_split {p : Call → Prop} {c : Call} (hmem : c ∈ log) (hc : p c) :
    ∃ before c later, log = before ++ c :: later ∧ p c ∧ ∀ c' ∈ before, ¬p c' := by
  induction log with
  | nil => exact absurd hmem List.not_mem_nil
  | cons c₀ log ih =>
    by_cases h₀ : p c₀
    · exact ⟨[], c₀, log, rfl, h₀, by simp⟩
    · rcases List.mem_cons.mp hmem with rfl | hmem
      · exact absurd hc h₀
      · obtain ⟨before, c', later, rfl, hc', hbefore⟩ := ih hmem
        refine ⟨c₀ :: before, c', later, rfl, hc', fun c'' hc'' => ?_⟩
        rcases List.mem_cons.mp hc'' with rfl | hc''
        · exact h₀
        · exact hbefore c'' hc''

/-- The first tick of a date at the time or past it, where there is one. -/
theorem firstMet_split (h : ¬Unmet t d log) :
    ∃ before stamp pass later, log = before ++ .tick stamp pass :: later ∧ stamp.date = d ∧
      minutes_of_day t ≤ stamp.minute ∧ Unmet t d before := by
  simp only [Unmet, not_forall, not_lt] at h
  obtain ⟨stamp, pass, hmem, hdate, hmin⟩ := h
  obtain ⟨before, c, later, rfl, ⟨s, p, rfl, hs, hm⟩, hbefore⟩ :=
    first_split (p := fun c => ∃ s p, c = .tick s p ∧ s.date = d ∧ minutes_of_day t ≤ s.minute)
      hmem ⟨stamp, pass, rfl, hdate, hmin⟩
  refine ⟨before, s, p, later, rfl, hs, hm, fun s' p' hmem' hs' => ?_⟩
  by_contra hlt
  exact hbefore _ hmem' ⟨s', p', rfl, hs', not_lt.mp hlt⟩

/-- **The daily check.** Take any run, in it a save that leaves the check on, and the calls since
that save. The ticks that fire are the first ones at the time or past it of the dates whose moment
lies ahead of the save exactly when the time of the day had passed at the save, or the date of the
first tick has no tick at the time or past it. -/
theorem daily_iff (hI : I.Ascii) (saved₀ : ModelWatch) {earlier : List Call} {payload : Dict}
    (hclock : Clocked (earlier ++ .save payload save :: log))
    (hset : set_watch_settings I payload save (after I saved₀ earlier) = .ok saved)
    (hcheck : saved.check = true) (hno : NoSave I saved log) :
    Daily I saved save log ↔
      minutes_of_day (saved_at I saved) ≤ save.minute ∨
        ∀ first, log.findSome? Call.tickDate? = some first →
          Unmet (saved_at I saved) first log := by
  have hclock : Clocked (.save payload save :: log) := (List.pairwise_append.mp hclock).2.1
  obtain ⟨hsave, hrest⟩ := List.pairwise_cons.mp hclock
  constructor
  · intro hdaily
    rw [or_iff_not_imp_left, not_le]
    intro hahead first hfirst
    by_contra hmet
    -- the first tick at the time on the first date is due, and does not fire
    obtain ⟨before, stamp, pass, later, rfl, rfl, hmin, hunmet⟩ := firstMet_split hmet
    have hle : save.date.number ≤ stamp.date.number :=
      Stamp.date_le (hsave (.tick stamp pass) (by simp))
    have hdue : Due (saved_at I saved) save before stamp :=
      ⟨(lt_moment_iff hle).mpr (.inr hahead), hmin, hunmet⟩
    have hfires := (hdaily before stamp pass later rfl).mpr hdue
    have hother := ((fires_iff hI hset hcheck hclock hno).mp hfires).1
    rw [firstDate, if_neg (not_le.mpr hahead)] at hother
    exact hother hfirst
  · rintro hcond before stamp pass later rfl
    have hle : save.date.number ≤ stamp.date.number :=
      Stamp.date_le (hsave (.tick stamp pass) (by simp))
    rw [fires_iff hI hset hcheck hclock hno, Due, lt_moment_iff hle, firstDate]
    refine and_congr_left fun ⟨hmin, hunmet⟩ => ?_
    split_ifs with hpassed
    · -- the time had passed: its moment is ahead on the later dates
      rw [ne_eq, Option.some.injEq, ← Date.number_inj]
      omega
    · have hfirst := hcond.resolve_left hpassed
      refine iff_of_true (fun hdate => ?_) (.inr (not_le.mp hpassed))
      -- a tick at the time is not one of the first date
      have := hfirst stamp.date hdate stamp pass (by simp) rfl
      omega

/-! ### Two saves -/

/-- `{"check": True, "at": at}` -/
def watchAt (time : String) : Dict := [("check", .bool true), ("at", time)]

/-- What such a save leaves of a new state, with the date that it remembers. -/
def watched (time : String) (day : Option Text) : ModelWatch :=
  { check := true, time, lastCheckDay := day }

def sept (day : Fin 32) (hour : Fin 24) (minute : Fin 60) : Stamp :=
  ⟨⟨2026, 9, day⟩, hour, minute, 0⟩

/-- A time of the night that is saved in the evening: the check comes in the next night. -/
theorem daily_night :
    Daily Interp.ascii (watched "03:00" (some (Date.text ⟨2026, 9, 7⟩))) (sept 7 18 0)
      [.tick (sept 7 18 1) none, .tick (sept 8 3 0) none, .tick (sept 8 3 1) none] := by
  have hset : set_watch_settings Interp.ascii (watchAt "03:00") (sept 7 18 0)
      (after Interp.ascii {} []) = .ok (watched "03:00" (some (Date.text ⟨2026, 9, 7⟩))) := rfl
  refine (daily_iff Interp.ascii_ascii {} ?_ hset rfl ?_).mpr (.inl ?_)
  · unfold Clocked
    decide
  · exact noSave_of_ticks (by decide)
  · show minutes_of_day ⟨3, 0⟩ ≤ (sept 7 18 0).minute
    decide

/-- **"Set it 30 minutes out."** At six the check is set to half past, the scheduler ticks a minute
later, and at half past it lets the day go by. -/
theorem ahead_skipped :
    set_watch_settings Interp.ascii (watchAt "18:30") (sept 7 18 0) {} =
        .ok (watched "18:30" none) ∧
      Clocked [.save (watchAt "18:30") (sept 7 18 0), .tick (sept 7 18 1) none,
        .tick (sept 7 18 30) none] ∧
      Due ⟨18, 30⟩ (sept 7 18 0) [.tick (sept 7 18 1) none] (sept 7 18 30) ∧
      ¬Daily Interp.ascii (watched "18:30" none) (sept 7 18 0)
        [.tick (sept 7 18 1) none, .tick (sept 7 18 30) none] := by
  have hset : set_watch_settings Interp.ascii (watchAt "18:30") (sept 7 18 0) {} =
      .ok (watched "18:30" none) := rfl
  have hclock : Clocked [.save (watchAt "18:30") (sept 7 18 0), .tick (sept 7 18 1) none,
      .tick (sept 7 18 30) none] := by
    unfold Clocked
    decide
  have hdue : Due ⟨18, 30⟩ (sept 7 18 0) [.tick (sept 7 18 1) none] (sept 7 18 30) := by
    refine ⟨by decide, by decide, fun s p hmem _ => ?_⟩
    obtain ⟨rfl, -⟩ := Call.tick.inj (List.mem_singleton.mp hmem)
    decide
  refine ⟨hset, hclock, hdue, fun hdaily => ?_⟩
  have hfires := (hdaily [.tick (sept 7 18 1) none] (sept 7 18 30) none [] rfl).mpr hdue
  have hno : NoSave Interp.ascii (watched "18:30" none)
      ([.tick (sept 7 18 1) none] ++ [.tick (sept 7 18 30) none]) :=
    noSave_of_ticks (by decide)
  exact ((fires_iff Interp.ascii_ascii hset rfl hclock hno).mp hfires).1 rfl

end Schedules
