import Caravan.Framework.System
import Caravan.Schedules.Daytime

/-!
# The scheduled power-off

A host may be powered off at a time of the day, every day or once. The once-a-minute tick fires in
the three minutes from that time on, and remembers the date in the schedule, in memory; the
document is saved after the whole loop. Between the two the power-off itself can end the process.

A `State` has the schedules in memory and those of the saved document, the tick where one is
running, and the power-offs sent so far. Each schedule carries the number of the operator's save
that it comes from, which is what a shot is counted by.

* `Inv` — every schedule in memory remembers the shots of its save, and so does every one of the
  saved document while nothing is unsaved;
* `fires_once` — while no crash comes between a shot and the next save, and the dates never go
  back, no save fires twice on a date, and a one-shot schedule never fires twice; and the move of
  the controller's schedule (`adopt`) keeps what stands on the other nodes;
* `crash_fires_again` — a crash in between, and the machine is powered off twice.
-/

namespace PowerOff

open Python Ports Schedules Assoc

/-! ### The schedules -/

/-- `powerSchedule` of a host. -/
structure PowerSchedule where
  enabled : Bool
  /-- `at` -/
  time : TimeOfDay
  daily : Bool
  lastFired : Option Text
  /-- The save of the operator's that it comes from. It is not a field of the document. -/
  save : ℕ
  deriving DecidableEq

/-- `hostPowerSchedules` -/
abbrev Table := List (Text × PowerSchedule)

variable (I : Interp)

/-- `normalize_power_schedule` -/
def normalize_power_schedule (payload : Value) (save : ℕ) : Except Raise PowerSchedule :=
  match payload with
  | .dict body => do
    let payload : Dict := body
    let time ← hhmm I (payload.get "at") (Text.of "03:00")
    return { enabled := (payload.get "enabled").truthy
             time
             daily := if payload.has "daily" then (payload.get "daily").truthy else true
             lastFired := none
             save }
  | _ => .error (.app ⟨"schedule must be an object", 400⟩)

/-- A fresh enable does not fire for a time that has passed. -/
def PowerSchedule.stamped (sched : PowerSchedule) (now : Stamp) : PowerSchedule :=
  if sched.enabled ∧ minutes_of_day sched.time ≤ now.minute then
    { sched with lastFired := now.date.text }
  else sched

/-- `set_host_power_schedule`, up to its save. -/
def set_host_power_schedule (body : Dict) (now : Stamp) (save : ℕ) (schedules : Table) :
    Except Raise Table := do
  let host_id ← (strOf I ((body.get "hostId").or "")).mapError Raise.python
  if host_id.strip = [] then .error (.app ⟨"hostId is required", 400⟩)
  else do
    let sched ← normalize_power_schedule I ((body.get "schedule").or (.dict [])) save
    return set schedules host_id.strip (sched.stamped now)

/-- One key of `_adopt_controller_schedule`. -/
def adoptKey (target : Text) (schedules : Table) (key : Text) : Table :=
  match get schedules key with
  | none => schedules
  | some sched =>
    if (get (del schedules key) target).isSome then del schedules key
    else set (del schedules key) target sched

/-- The keys that mean the controller. -/
def controllerKeys (schedules : Table) : List Text :=
  (schedules.map Prod.fst).filter fun key => isControllerHost key

/-- `_adopt_controller_schedule`, where the controller's machine is `target`, blank for none. -/
def adopt (target : Text) (schedules : Table) : Table × Bool :=
  let keys := controllerKeys schedules
  if keys = [] then (schedules, false)
  else if target = [] then (schedules, false)
  else (keys.foldl (adoptKey target) schedules, true)

/-- Whether `power_schedule_tick` fires a schedule. -/
def PowerSchedule.due (sched : PowerSchedule) (now : Stamp) : Bool :=
  let at_min := minutes_of_day sched.time
  sched.enabled && sched.lastFired ≠ some now.date.text &&
    (at_min ≤ now.minute && now.minute < min (at_min + 3) (24 * 60))

/-- What it writes into the schedule before the shot. -/
def PowerSchedule.marked (sched : PowerSchedule) (now : Stamp) : PowerSchedule :=
  { sched with lastFired := now.date.text, enabled := sched.enabled && sched.daily }

/-! ### The system -/

/-- A power-off that was sent. -/
structure Shot where
  host : Text
  save : ℕ
  date : Date
  daily : Bool
  deriving DecidableEq

/-- `power_schedule_tick` while it runs. -/
structure Running where
  now : Stamp
  /-- What is left of `list(schedules.items())`. -/
  todo : Table
  /-- The schedule that is marked and not yet fired. -/
  aim : Option (Text × PowerSchedule)
  changed : Bool

structure State where
  memory : Table
  /-- The schedules of the last saved document. -/
  disk : Table
  running : Option Running
  shots : List Shot
  /-- The number of the operator's next save. -/
  saves : ℕ
  /-- The date that was read last. -/
  today : Date
  /-- A shot came since the last save of the document. -/
  unsaved : Bool

inductive Event where
  /-- `set_host_power_schedule`, up to its save. -/
  | set (body : Dict) (now : Stamp)
  /-- The document is saved, whoever does it. -/
  | save
  /-- A tick begins: `target` is the controller's machine, if its scout has reported. -/
  | start (now : Stamp) (target : Text)
  /-- The next schedule of the loop, up to its shot. -/
  | mark
  /-- `host_power({"hostId": host_id}, "poweroff")` -/
  | shoot
  /-- The loop has ended. -/
  | finish
  /-- The process ends, and the controller starts from the saved document. -/
  | crash

/-- What an event leads to, where it may happen. -/
def next (s : State) : Event → Option State
  | .set body now =>
    match s.running with
    | some _ => none
    | none =>
      match set_host_power_schedule I body now s.saves s.memory with
      | .error _ => some { s with today := now.date }
      | .ok memory => some { s with memory, today := now.date, saves := s.saves + 1 }
  | .save => some { s with disk := s.memory, unsaved := false }
  | .start now target =>
    match s.running with
    | some _ => none
    | none =>
      if s.memory = [] then some { s with today := now.date }
      else
        let (memory, changed) := adopt target s.memory
        some { s with
          memory, today := now.date, running := some ⟨now, memory, none, changed⟩ }
  | .mark =>
    match s.running with
    | some ⟨now, (host, sched) :: todo, none, changed⟩ =>
      if sched.due now then
        some { s with
          memory := Assoc.set s.memory host (sched.marked now)
          running := some ⟨now, todo, some (host, sched.marked now), true⟩ }
      else some { s with running := some ⟨now, todo, none, changed⟩ }
    | _ => none
  | .shoot =>
    match s.running with
    | some ⟨now, todo, some (host, sched), changed⟩ =>
      some { s with
        shots := s.shots ++ [⟨host, sched.save, now.date, sched.daily⟩]
        running := some ⟨now, todo, none, changed⟩
        unsaved := true }
    | _ => none
  | .finish =>
    match s.running with
    | some ⟨_, [], none, changed⟩ =>
      if changed then some { s with disk := s.memory, running := none, unsaved := false }
      else some { s with running := none }
    | _ => none
  | .crash => some { s with memory := s.disk, running := none }

/-- A document is well kept: a host has one schedule, and a save made one. -/
structure Kept (saves : ℕ) (schedules : Table) : Prop where
  distinct : Distinct schedules
  saves_nodup : (schedules.map fun p => p.2.save).Nodup
  saves_lt : ∀ p ∈ schedules, p.2.save < saves

/-- The controller starts from any document, with nothing fired yet. -/
def system : System State Event where
  init s := s.memory = s.disk ∧ Kept s.saves s.disk ∧ s.running = none ∧ s.shots = []
  step s e s' := next I s e = some s'

/-- The condition: the process does not end between a shot and the next save of the document, and
no call reads an earlier date than one before it. -/
def ok (s : State) : Event → Prop
  | .crash => s.unsaved = false
  | .set _ now => s.today.number ≤ now.date.number
  | .start now _ => s.today.number ≤ now.date.number
  | _ => True

/-- What is to hold of two shots of one save. -/
def Apart (a b : Shot) : Prop :=
  a.save = b.save → a.date ≠ b.date ∧ a.daily = true ∧ b.daily = true

variable {I}

/-! ### The tables -/

variable {schedules : Table} {host key target : Text} {sched : PowerSchedule} {saves : ℕ}

/-- The schedules of one save are one. -/
theorem Kept.eq_of_save (h : Kept saves schedules) {p q : Text × PowerSchedule}
    (hp : p ∈ schedules) (hq : q ∈ schedules) (he : p.2.save = q.2.save) : p = q :=
  List.inj_on_of_nodup_map h.saves_nodup hp hq he

/-- A table with one schedule written anew, as the same save or a new one. -/
theorem Kept.set (h : Kept saves schedules) {saves' : ℕ} (hle : saves ≤ saves')
    (hlt : sched.save < saves')
    (hnew : ∀ p ∈ schedules, p.2.save = sched.save → p.1 = host) :
    Kept saves' (set schedules host sched) := by
  have hperm := perm_set h.distinct host sched
  refine ⟨h.distinct.set host sched, ?_, fun p hp => ?_⟩
  · rw [(hperm.map _).nodup_iff]
    refine List.nodup_cons.mpr ⟨fun hmem => ?_, ?_⟩
    · obtain ⟨p, hp, hsave⟩ := List.mem_map.mp hmem
      obtain ⟨hp, hne⟩ := List.mem_filter.mp hp
      exact of_decide_eq_true hne (hnew p hp hsave)
    · exact h.saves_nodup.sublist (List.filter_sublist.map _)
  · rcases mem_set hp with rfl | hp
    · exact hlt
    · exact (h.saves_lt p hp).trans_le hle

/-- What is left of the schedules beside a rewritten one. -/
theorem Kept.mem_set (h : Kept saves schedules) {p : Text × PowerSchedule} (hp : p ∈ schedules)
    (hne : p.1 ≠ host) : p ∈ Assoc.set schedules host sched := by
  rw [(h.distinct.set host sched).mem_iff_get, get_set, if_neg hne, ← h.distinct.mem_iff_get]
  exact hp

/-! ### The move of the controller's schedule -/

theorem adoptKey_of_none (h : get schedules key = none) :
    adoptKey target schedules key = schedules := by
  rw [adoptKey, h]

/-- The target's own schedule stays; else it is the one that is moved. -/
theorem get_adoptKey_target (target key : Text) (schedules : Table) :
    get (adoptKey target schedules key) target = (get schedules target).or (get schedules key) := by
  unfold adoptKey
  cases hkey : get schedules key with
  | none => exact (Option.or_none).symm
  | some sched =>
    dsimp only
    by_cases hself : target = key
    · subst hself
      rw [get_del_self, Option.isSome_none, if_neg Bool.false_ne_true, get_set, if_pos rfl, hkey]
      rfl
    · rw [get_del_of_ne schedules hself]
      cases htarget : get schedules target with
      | none => rw [Option.isSome_none, if_neg Bool.false_ne_true, get_set, if_pos rfl]; rfl
      | some own => rw [Option.isSome_some, if_pos rfl, get_del_of_ne schedules hself, htarget]; rfl

theorem get_adoptKey_other (hkey : host ≠ key) (htarget : host ≠ target) :
    get (adoptKey target schedules key) host = get schedules host := by
  unfold adoptKey
  cases get schedules key with
  | none => rfl
  | some sched =>
    dsimp only
    split_ifs
    · exact get_del_of_ne schedules hkey
    · rw [get_set, if_neg htarget, get_del_of_ne schedules hkey]

theorem get_adoptKeys_target (keys : List Text) (schedules : Table) :
    get (keys.foldl (adoptKey target) schedules) target =
      (get schedules target).or (keys.findSome? (get schedules)) := by
  induction keys generalizing schedules with
  | nil => exact (Option.or_none).symm
  | cons key keys ih =>
    rw [List.foldl_cons, ih, List.findSome?_cons]
    cases hkey : get schedules key with
    | none => rw [adoptKey_of_none hkey]
    | some sched =>
      rw [get_adoptKey_target, hkey]
      cases get schedules target <;> rfl

theorem get_adoptKeys_other {keys : List Text} (hkeys : host ∉ keys) (htarget : host ≠ target)
    (schedules : Table) :
    get (keys.foldl (adoptKey target) schedules) host = get schedules host := by
  induction keys generalizing schedules with
  | nil => rfl
  | cons key keys ih =>
    rw [List.mem_cons, not_or] at hkeys
    rw [List.foldl_cons, ih hkeys.2, get_adoptKey_other hkeys.1 htarget]

/-- What moves is moved as it is: no schedule comes to stand twice. -/
theorem adoptKey_subperm (h : Distinct schedules) (target key : Text) :
    Distinct (adoptKey target schedules key) ∧
      List.Subperm ((adoptKey target schedules key).map Prod.snd) (schedules.map Prod.snd) := by
  unfold adoptKey
  cases hkey : get schedules key with
  | none => exact ⟨h, .refl _⟩
  | some sched =>
    dsimp only
    have hdel : (del schedules key).Sublist schedules := List.filter_sublist
    split_ifs with htarget
    · exact ⟨h.del key, (hdel.map _).subperm⟩
    · refine ⟨(h.del key).set target sched, List.Perm.subperm ?_⟩
      have hnone := Option.not_isSome_iff_eq_none.mp htarget
      rw [set_of_get_none hnone, List.map_append]
      exact (List.perm_append_comm).trans ((perm_of_get h hkey).map Prod.snd).symm

theorem adoptKeys_subperm (h : Distinct schedules) (target : Text) (keys : List Text) :
    Distinct (keys.foldl (adoptKey target) schedules) ∧
      List.Subperm ((keys.foldl (adoptKey target) schedules).map Prod.snd)
        (schedules.map Prod.snd) := by
  induction keys generalizing schedules with
  | nil => exact ⟨h, .refl _⟩
  | cons key keys ih =>
    obtain ⟨hd, hs⟩ := adoptKey_subperm h target key
    obtain ⟨hd', hs'⟩ := ih hd
    exact ⟨hd', hs'.trans hs⟩

theorem adopt_subperm (h : Distinct schedules) (target : Text) :
    Distinct (adopt target schedules).1 ∧
      List.Subperm ((adopt target schedules).1.map Prod.snd) (schedules.map Prod.snd) := by
  unfold adopt
  dsimp only
  split_ifs
  · exact ⟨h, .refl _⟩
  · exact ⟨h, .refl _⟩
  · exact adoptKeys_subperm h target _

/-- What the operator sees of a move: the other nodes keep their schedules, and the controller's
machine has its own one, or else the first of the controller's. -/
def Seen (target : Text) (before after : Table) : Prop :=
  (∀ host, isControllerHost host = false → host ≠ target → get after host = get before host) ∧
    (target ≠ [] → get after target =
      (get before target).or ((controllerKeys before).findSome? (get before)))

theorem adopt_seen (target : Text) (schedules : Table) :
    Seen target schedules (adopt target schedules).1 := by
  unfold adopt
  dsimp only
  split_ifs with hkeys htarget
  · refine ⟨fun _ _ _ => rfl, fun _ => ?_⟩
    rw [hkeys]
    exact (Option.or_none).symm
  · exact ⟨fun _ _ _ => rfl, fun h => absurd htarget h⟩
  · refine ⟨fun host hhost hne => ?_, fun _ => get_adoptKeys_target _ schedules⟩
    refine get_adoptKeys_other (fun hmem => ?_) hne schedules
    rw [(List.mem_filter.mp hmem).2] at hhost
    exact Bool.noConfusion hhost

theorem Kept.adopt (h : Kept saves schedules) (target : Text) :
    Kept saves (adopt target schedules).1 ∧
      ∀ p ∈ (PowerOff.adopt target schedules).1, ∃ q ∈ schedules, q.2 = p.2 := by
  obtain ⟨hd, hs⟩ := adopt_subperm h.distinct target
  have hmem : ∀ p ∈ (PowerOff.adopt target schedules).1, ∃ q ∈ schedules, q.2 = p.2 :=
    fun p hp => List.mem_map.mp (hs.subset (List.mem_map_of_mem hp))
  refine ⟨⟨hd, ?_, fun p hp => ?_⟩, hmem⟩
  · obtain ⟨l, hperm, hsub⟩ := hs
    have hnodup : (schedules.map Prod.snd).map PowerSchedule.save |>.Nodup := by
      rw [List.map_map]
      exact h.saves_nodup
    have := (hnodup.sublist (hsub.map _))
    rw [(hperm.map _).nodup_iff, List.map_map] at this
    exact this
  · obtain ⟨q, hq, he⟩ := hmem p hp
    rw [← he]
    exact h.saves_lt q hq

/-! ### The invariant -/

/-- A schedule remembers the shots of its save: the date it keeps is not before theirs, and one
that is not for every day is off. -/
def Marked (shots : List Shot) (today : Date) (sched : PowerSchedule) : Prop :=
  ∀ shot ∈ shots, shot.save = sched.save →
    shot.daily = sched.daily ∧ (sched.daily = true ∨ sched.enabled = false) ∧
      ∃ d : Date, sched.lastFired = some d.text ∧ shot.date.number ≤ d.number ∧
        d.number ≤ today.number

/-- What holds of the schedule that is about to be fired. -/
structure Aimed (s : State) (host : Text) (sched : PowerSchedule) : Prop where
  mem : (host, sched) ∈ s.memory
  fired : sched.lastFired = some s.today.text
  off : sched.daily = true ∨ sched.enabled = false
  new : ∀ shot ∈ s.shots, shot.save = sched.save →
    shot.date ≠ s.today ∧ shot.daily = true ∧ sched.daily = true

/-- What holds while a tick runs. -/
structure Loop (s : State) (r : Running) : Prop where
  today : r.now.date = s.today
  distinct : Distinct r.todo
  mem : ∀ p ∈ r.todo, p ∈ s.memory
  aim : ∀ host sched, r.aim = some (host, sched) → Aimed s host sched

structure Inv (s : State) : Prop where
  memory : Kept s.saves s.memory
  disk : Kept s.saves s.disk
  late : ∀ shot ∈ s.shots, shot.date.number ≤ s.today.number ∧ shot.save < s.saves
  apart : s.shots.Pairwise Apart
  marked : ∀ p ∈ s.memory, Marked s.shots s.today p.2
  saved : s.unsaved = false → ∀ p ∈ s.disk, Marked s.shots s.today p.2
  loop : ∀ r, s.running = some r → Loop s r

variable {s s' : State} {shots : List Shot} {today today' : Date} {now : Stamp}

theorem Marked.mono (h : Marked shots today sched) (hle : today.number ≤ today'.number) :
    Marked shots today' sched := by
  intro shot hshot hsave
  obtain ⟨hdaily, hoff, d, hd, hdate, hlast⟩ := h shot hshot hsave
  exact ⟨hdaily, hoff, d, hd, hdate, hlast.trans hle⟩

/-- The schedule that is marked remembers the shots of its save. -/
theorem Marked.fire (h : Marked shots now.date sched)
    (hlate : ∀ shot ∈ shots, shot.date.number ≤ now.date.number) :
    Marked shots now.date (sched.marked now) := by
  intro shot hshot hsave
  obtain ⟨hdaily, -, -⟩ := h shot hshot hsave
  refine ⟨hdaily, ?_, now.date, rfl, hlate shot hshot, le_rfl⟩
  cases hd : sched.daily with
  | true => exact .inl hd
  | false =>
    refine .inr ?_
    simp only [PowerSchedule.marked, hd, Bool.and_false]

/-- **Why no shot is the second one.** A schedule that is due has fired on earlier dates only, and
only where it is for every day. -/
theorem Marked.due (h : Marked shots now.date sched) (hdue : sched.due now = true)
    {shot : Shot} (hshot : shot ∈ shots) (hsave : shot.save = sched.save) :
    shot.date ≠ now.date ∧ shot.daily = true ∧ sched.daily = true := by
  obtain ⟨hdaily, hoff, d, hd, hdate, hlast⟩ := h shot hshot hsave
  simp only [PowerSchedule.due, Bool.and_eq_true, decide_eq_true_eq] at hdue
  obtain ⟨⟨henabled, hne⟩, -⟩ := hdue
  have hon : sched.daily = true := by
    refine hoff.resolve_right fun hoff => ?_
    rw [henabled] at hoff
    exact Bool.noConfusion hoff
  refine ⟨?_, hdaily.trans hon, hon⟩
  rintro he
  -- the date it keeps would be the one of the tick
  have hd' : d = now.date := Date.number_inj.mp (le_antisymm hlast (he ▸ hdate))
  rw [hd, hd'] at hne
  exact hne rfl

theorem Inv.of_init (h : system I |>.init s) : Inv s := by
  obtain ⟨hsame, hkept, hrun, hshots⟩ := h
  refine ⟨hsame ▸ hkept, hkept, ?_, ?_, ?_, ?_, ?_⟩
  · simp [hshots]
  · simp [hshots]
  · simp [Marked, hshots]
  · simp [Marked, hshots]
  · simp [hrun]

/-- A later date is read, outside a tick. -/
theorem Inv.read (h : Inv s) (hrun : s.running = none) {date : Date}
    (hle : s.today.number ≤ date.number) : Inv { s with today := date } where
  memory := h.memory
  disk := h.disk
  late shot hshot := ⟨(h.late shot hshot).1.trans hle, (h.late shot hshot).2⟩
  apart := h.apart
  marked p hp := (h.marked p hp).mono hle
  saved hs p hp := (h.saved hs p hp).mono hle
  loop r hr := by
    rw [show s.running = some r from hr] at hrun
    exact nomatch hrun

theorem normalize_save {payload : Value} {save : ℕ}
    (h : normalize_power_schedule I payload save = .ok sched) : sched.save = save := by
  unfold normalize_power_schedule at h
  split at h
  · obtain ⟨time, -, h⟩ := Except.bind_eq_ok h
    obtain rfl := Except.ok.inj h
    rfl
  · exact nomatch h

@[simp] theorem stamped_save (sched : PowerSchedule) (now : Stamp) :
    (sched.stamped now).save = sched.save := by
  unfold PowerSchedule.stamped
  split <;> rfl

/-- What the operator saves is one schedule, of a new save. -/
theorem set_spec {body : Dict} {save : ℕ} {memory : Table}
    (h : set_host_power_schedule I body now save schedules = .ok memory) :
    ∃ host sched, sched.save = save ∧ memory = Assoc.set schedules host sched := by
  obtain ⟨host_id, -, h⟩ := Except.bind_eq_ok h
  split_ifs at h
  obtain ⟨sched, hsched, h⟩ := Except.bind_eq_ok h
  obtain rfl := Except.ok.inj h
  exact ⟨_, _, (stamped_save sched now).trans (normalize_save hsched), rfl⟩

/-- The operator's save makes a schedule that has not fired. -/
theorem Inv.set (h : Inv s) (hrun : s.running = none) {body : Dict} {memory : Table}
    (hset : set_host_power_schedule I body now s.saves s.memory = .ok memory) :
    Inv { s with memory, saves := s.saves + 1 } := by
  obtain ⟨host, sched, hsave, rfl⟩ := set_spec hset
  have hnone : ∀ shot ∈ s.shots, shot.save ≠ sched.save := fun shot hshot he =>
    (h.late shot hshot).2.ne (he.trans hsave)
  refine ⟨?_, ?_, fun shot hshot => ?_, h.apart, fun p hp => ?_, h.saved, fun r hr => ?_⟩
  · refine h.memory.set (Nat.le_succ _) (hsave.trans_lt (Nat.lt_succ_self _)) fun p hp he => ?_
    exact absurd (he.trans hsave) (h.memory.saves_lt p hp).ne
  · exact ⟨h.disk.distinct, h.disk.saves_nodup, fun p hp =>
      Nat.lt_succ_of_lt (h.disk.saves_lt p hp)⟩
  · exact ⟨(h.late shot hshot).1, Nat.lt_succ_of_lt (h.late shot hshot).2⟩
  · rcases mem_set hp with rfl | hp
    · exact fun shot hshot he => absurd he (hnone shot hshot)
    · exact h.marked p hp
  · rw [show s.running = some r from hr] at hrun
    exact nomatch hrun

/-- A tick takes its list after the move of the controller's schedule. -/
theorem Inv.start (h : Inv s) (target : Text) (hnow : now.date = s.today) :
    Inv { s with
      memory := (adopt target s.memory).1
      running := some ⟨now, (adopt target s.memory).1, none, (adopt target s.memory).2⟩ } := by
  obtain ⟨hkept, hmem⟩ := h.memory.adopt target
  refine ⟨hkept, h.disk, h.late, h.apart, fun p hp => ?_, h.saved, fun r hr => ?_⟩
  · obtain ⟨q, hq, he⟩ := hmem p hp
    exact he ▸ h.marked q hq
  · obtain rfl := Option.some.inj hr
    exact ⟨hnow, hkept.distinct, fun p hp => hp, fun _ _ haim => nomatch haim⟩

/-- The mark comes before the shot, in memory. -/
theorem Inv.mark (h : Inv s) {todo : Table} {changed : Bool}
    (hrun : s.running = some ⟨now, (host, sched) :: todo, none, changed⟩)
    (hdue : sched.due now = true) :
    Inv { s with
      memory := Assoc.set s.memory host (sched.marked now)
      running := some ⟨now, todo, some (host, sched.marked now), true⟩ } := by
  have hloop := h.loop _ hrun
  have htoday : now.date = s.today := hloop.today
  have hmem : (host, sched) ∈ s.memory := hloop.mem _ List.mem_cons_self
  obtain ⟨hhost, hrest⟩ := List.nodup_cons.mp hloop.distinct
  have hown := h.memory.distinct.mem_iff_get.mp hmem
  have hlate : ∀ shot ∈ s.shots, shot.date.number ≤ now.date.number := fun shot hshot =>
    htoday ▸ (h.late shot hshot).1
  have hfire : Marked s.shots now.date (sched.marked now) :=
    Marked.fire (htoday ▸ h.marked _ hmem) hlate
  refine ⟨?_, h.disk, h.late, h.apart, fun p hp => ?_, h.saved, fun r hr => ?_⟩
  · refine h.memory.set le_rfl (h.memory.saves_lt _ hmem) fun p hp he => ?_
    exact congrArg Prod.fst (h.memory.eq_of_save hp hmem he)
  · rcases mem_set hp with rfl | hp
    · exact htoday ▸ hfire
    · exact h.marked p hp
  · obtain rfl := Option.some.inj hr
    refine ⟨htoday, hrest, fun p hp => ?_, fun host' sched' haim => ?_⟩
    · refine h.memory.mem_set (hloop.mem p (List.mem_cons_of_mem _ hp)) ?_
      rintro rfl
      exact hhost (List.mem_map.mpr ⟨p, hp, rfl⟩)
    · obtain ⟨rfl, rfl⟩ := Prod.mk.inj (Option.some.inj haim)
      refine ⟨?_, congrArg (fun d : Date => some d.text) htoday, ?_, fun shot hshot he => ?_⟩
      · rw [(h.memory.distinct.set _ _).mem_iff_get, get_set, if_pos rfl]
      · cases hd : sched.daily with
        | true => exact .inl hd
        | false => exact .inr (by simp only [PowerSchedule.marked, hd, Bool.and_false])
      · exact htoday ▸ Marked.due (htoday ▸ h.marked _ hmem) hdue hshot he

/-- The shot is one that its schedule remembers. -/
theorem Inv.shoot (h : Inv s) {todo : Table} {changed : Bool}
    (hrun : s.running = some ⟨now, todo, some (host, sched), changed⟩) :
    Inv { s with
      shots := s.shots ++ [⟨host, sched.save, now.date, sched.daily⟩]
      running := some ⟨now, todo, none, changed⟩
      unsaved := true } := by
  have hloop := h.loop _ hrun
  have htoday : now.date = s.today := hloop.today
  have haim := hloop.aim host sched rfl
  refine ⟨h.memory, h.disk, fun shot hshot => ?_, ?_, fun p hp => ?_, ?_, fun r hr => ?_⟩
  · rcases List.mem_append.mp hshot with hshot | hshot
    · exact h.late shot hshot
    · obtain rfl := List.mem_singleton.mp hshot
      exact ⟨by rw [htoday], h.memory.saves_lt _ haim.mem⟩
  · refine List.pairwise_append.mpr ⟨h.apart, List.pairwise_singleton _ _, ?_⟩
    rintro shot hshot _ hnew hsave
    obtain rfl := List.mem_singleton.mp hnew
    rw [htoday]
    exact haim.new shot hshot hsave
  · intro shot hshot hsave
    rcases List.mem_append.mp hshot with hshot | hshot
    · exact h.marked p hp shot hshot hsave
    · -- the new shot is of the schedule that was marked
      obtain rfl := List.mem_singleton.mp hshot
      obtain rfl : (host, sched) = p := h.memory.eq_of_save haim.mem hp hsave
      exact ⟨rfl, haim.off, s.today, haim.fired, by rw [htoday], le_rfl⟩
  · intro hs
    exact nomatch hs
  · obtain rfl := Option.some.inj hr
    exact ⟨htoday, hloop.distinct, hloop.mem, fun _ _ haim => nomatch haim⟩

/-- **What a step keeps.** -/
theorem Inv.step (h : Inv s) {e : Event} (hok : ok s e) (hnext : next I s e = some s') :
    Inv s' := by
  cases e with
  | set body now =>
    simp only [next] at hnext
    split at hnext
    · exact nomatch hnext
    · next hrun =>
      have hread := h.read hrun hok
      split at hnext
      · obtain rfl := Option.some.inj hnext
        exact hread
      · next memory hset =>
        obtain rfl := Option.some.inj hnext
        exact hread.set hrun hset
  | save =>
    obtain rfl := Option.some.inj hnext
    exact { h with
      disk := h.memory
      saved := fun _ => h.marked
      loop := fun r hr => { h.loop r hr with aim := fun host sched haim =>
        { (h.loop r hr).aim host sched haim with } } }
  | start now target =>
    simp only [next] at hnext
    split at hnext
    · exact nomatch hnext
    · next hrun =>
      have hread := h.read hrun hok
      split_ifs at hnext
      · obtain rfl := Option.some.inj hnext
        exact hread
      · obtain rfl := Option.some.inj hnext
        exact hread.start target rfl
  | mark =>
    simp only [next] at hnext
    split at hnext
    · next now host sched todo changed hrun =>
      split_ifs at hnext with hdue
      · obtain rfl := Option.some.inj hnext
        exact h.mark hrun hdue
      · -- the schedule is passed over
        obtain rfl := Option.some.inj hnext
        have hloop := h.loop _ hrun
        refine ⟨h.memory, h.disk, h.late, h.apart, h.marked, h.saved, fun r hr => ?_⟩
        obtain rfl := Option.some.inj hr
        exact ⟨hloop.today, (List.nodup_cons.mp hloop.distinct).2,
          fun p hp => hloop.mem p (List.mem_cons_of_mem _ hp), fun _ _ haim => nomatch haim⟩
    · exact nomatch hnext
  | shoot =>
    simp only [next] at hnext
    split at hnext
    · next now todo host sched changed hrun =>
      obtain rfl := Option.some.inj hnext
      exact h.shoot hrun
    · exact nomatch hnext
  | finish =>
    simp only [next] at hnext
    split at hnext
    · split_ifs at hnext
      · obtain rfl := Option.some.inj hnext
        exact ⟨h.memory, h.memory, h.late, h.apart, h.marked, fun _ => h.marked,
          fun _ hr => nomatch hr⟩
      · obtain rfl := Option.some.inj hnext
        exact ⟨h.memory, h.disk, h.late, h.apart, h.marked, h.saved, fun _ hr => nomatch hr⟩
    · exact nomatch hnext
  | crash =>
    -- nothing was unsaved: the saved document remembers every shot
    obtain rfl := Option.some.inj hnext
    exact ⟨h.disk, h.disk, h.late, h.apart, h.saved hok, h.saved, fun _ hr => nomatch hr⟩

theorem reach_inv (h : (system I).Reach ok s) : Inv s :=
  h.invariant (fun _ hinit => Inv.of_init hinit) fun _ _ _ hinv hok hstep => hinv.step hok hstep

/-- **At most one power-off.** In every run in which no crash comes between a shot and the next
save of the document, and no call reads an earlier date than one before it: two shots that come
from one save of the operator's are on two dates and of a schedule for every day. And whenever a
tick may begin, the move of the controller's schedule keeps what the operator sees, and every
schedule as it is. -/
theorem fires_once (h : (system I).Reach ok s) :
    s.shots.Pairwise Apart ∧
      ∀ target, Seen target s.memory (adopt target s.memory).1 ∧
        List.Subperm ((adopt target s.memory).1.map Prod.snd) (s.memory.map Prod.snd) :=
  ⟨(reach_inv h).apart, fun target =>
    ⟨adopt_seen target s.memory, (adopt_subperm (reach_inv h).memory.distinct target).2⟩⟩

/-! ### One night -/

/-- A machine that goes off at three every night. -/
def nightly : PowerSchedule := ⟨true, ⟨3, 0⟩, true, none, 0⟩

def night : Date := ⟨2026, 9, 8⟩

/-- Some minutes past three. -/
def past (minute : Fin 60) : Stamp := ⟨night, 3, minute, 0⟩

/-- The controller, with the nightly schedule in its document. -/
def evening : State :=
  ⟨[("box", nightly)], [("box", nightly)], none, [], 1, night, false⟩

/-- The tick has begun, it has marked the schedule, and it has fired. -/
def begun : State := { evening with running := some ⟨past 0, [("box", nightly)], none, false⟩ }

def aimed : State := { evening with
  memory := [("box", nightly.marked (past 0))]
  running := some ⟨past 0, [], some ("box", nightly.marked (past 0)), true⟩ }

def fired : State := { aimed with
  running := some ⟨past 0, [], none, true⟩
  shots := [⟨"box", 0, night, true⟩]
  unsaved := true }

/-- The document is saved after the loop. -/
def kept : State := { fired with disk := fired.memory, running := none, unsaved := false }

theorem evening_init : (system I).init evening := by
  refine ⟨rfl, ⟨?_, ?_, ?_⟩, rfl, rfl⟩
  · show [Text.of "box"].Nodup
    exact List.nodup_singleton _
  · exact List.nodup_singleton _
  · rintro p hp
    obtain rfl := List.mem_singleton.mp hp
    decide

theorem fired_reached : (system Interp.ascii).Reach ok fired := by
  have hbegun : (system Interp.ascii).Reach ok begun :=
    (System.Reach.init evening_init).next
      (show next Interp.ascii evening (.start (past 0) []) = some begun from rfl) le_rfl
  have haimed : (system Interp.ascii).Reach ok aimed :=
    hbegun.next (show next Interp.ascii begun .mark = some aimed from rfl) trivial
  exact haimed.next (show next Interp.ascii aimed .shoot = some fired from rfl) trivial

/-- A run that saves what it has fired, and then ends and starts again. -/
theorem fires_once_night :
    [(⟨"box", 0, night, true⟩ : Shot)].Pairwise Apart ∧
      ∀ target, Seen target kept.disk (adopt target kept.disk).1 ∧
        List.Subperm ((adopt target kept.disk).1.map Prod.snd) (kept.disk.map Prod.snd) := by
  have hkept : (system Interp.ascii).Reach ok kept :=
    fired_reached.next (show next Interp.ascii fired .finish = some kept from rfl) trivial
  have hagain : (system Interp.ascii).Reach ok { kept with memory := kept.disk, running := none } :=
    hkept.next (show next Interp.ascii kept .crash = some _ from rfl) rfl
  exact fires_once hagain

/-- **A crash after the shot.** The machine goes off at three before the document is saved, the
controller on it with it; it is started at once, and two minutes past three the schedule of the
saved document fires again. -/
theorem crash_fires_again :
    ∃ s, (system Interp.ascii).Reachable s ∧
      s.shots = [⟨"box", 0, night, true⟩, ⟨"box", 0, night, true⟩] ∧ ¬s.shots.Pairwise Apart := by
  have hagain : (system Interp.ascii).Reachable { evening with
      shots := fired.shots, unsaved := true } :=
    fired_reached.reachable.next (show next Interp.ascii fired .crash = some _ from rfl) trivial
  have htwice : (system Interp.ascii).Reachable { fired with
      memory := [("box", nightly.marked (past 2))]
      running := some ⟨past 2, [], none, true⟩
      shots := [⟨"box", 0, night, true⟩, ⟨"box", 0, night, true⟩] } :=
    .follow (fun _ _ _ h => h) [.start (past 2) [], .mark, .shoot] hagain rfl
      fun _ _ _ => trivial
  refine ⟨_, htwice, rfl, fun h => ?_⟩
  exact ((List.pairwise_cons.mp h).1 _ (List.mem_singleton_self _) rfl).1 rfl

end PowerOff
