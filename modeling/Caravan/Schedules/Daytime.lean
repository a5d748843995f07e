import Caravan.Ports.Registers
import Caravan.Python.Int
import Caravan.Schedules.WeekWindows

/-!
# Dates, moments and the time of the day

What the schedules read of the clock, and the one rule by which a time of the day is parsed. A
time that was written is read back as it was (`hhmm_text`), and no two dates are written alike
(`Date.text_inj`).
-/

namespace Schedules

open Python Ports

/-! ### Dates and moments -/

instance months_neZero : NeZero 13 := ⟨by decide⟩

instance days_neZero : NeZero 32 := ⟨by decide⟩

/-- The date of a `time.struct_time`. -/
structure Date where
  tm_year : ℕ
  tm_mon : Fin 13
  tm_mday : Fin 32
  deriving DecidableEq, Repr

/-- `f"{n:02d}"`, of a number below 100. -/
def twoDigits (n : ℕ) : Text := [digit (n / 10), digit n]

namespace Date

/-- A number by which the dates are in order. -/
def number (d : Date) : ℤ := (d.tm_year * 13 + d.tm_mon) * 32 + d.tm_mday

theorem number_inj {d d' : Date} : d.number = d'.number ↔ d = d' := by
  refine ⟨fun h => ?_, congrArg _⟩
  obtain ⟨year, ⟨mon, hmon⟩, ⟨mday, hmday⟩⟩ := d
  obtain ⟨year', ⟨mon', hmon'⟩, ⟨mday', hmday'⟩⟩ := d'
  simp only [number] at h
  obtain ⟨rfl, rfl, rfl⟩ : year = year' ∧ mon = mon' ∧ mday = mday' := by omega
  rfl

/-- `time.strftime("%Y-%m-%d", stamp)` -/
def text (d : Date) : Text :=
  decimal d.tm_year ++ (codePoint '-' :: twoDigits d.tm_mon ++ codePoint '-' :: twoDigits d.tm_mday)

theorem text_ne_nil (d : Date) : d.text ≠ [] := by
  unfold text
  intro h
  exact List.cons_ne_nil _ _ (List.append_eq_nil_iff.mp h).2

end Date

theorem twoDigits_inj {n m : ℕ} (hn : n < 100) (hm : m < 100) :
    twoDigits n = twoDigits m ↔ n = m := by
  refine ⟨fun h => ?_, congrArg _⟩
  simp only [twoDigits, List.cons.injEq, and_true] at h
  have htens := digit_injOn (by omega) (by omega) h.1
  have hones := congrArg Fin.val h.2
  simp only [digit] at hones
  omega

/-- No two dates are written alike. -/
theorem Date.text_inj {d d' : Date} : d.text = d'.text ↔ d = d' := by
  refine ⟨fun h => ?_, congrArg _⟩
  obtain ⟨year, ⟨mon, hmon⟩, ⟨mday, hmday⟩⟩ := d
  obtain ⟨year', ⟨mon', hmon'⟩, ⟨mday', hmday'⟩⟩ := d'
  -- what follows the year is six characters long
  obtain ⟨hyear, hrest⟩ := List.append_inj' h rfl
  obtain ⟨hm, hd⟩ := List.append_inj hrest rfl
  have hm := (twoDigits_inj (by omega) (by omega)).mp (List.cons.inj hm).2
  have hd := (twoDigits_inj (by omega) (by omega)).mp (List.cons.inj hd).2
  obtain rfl := decimal_injective hyear
  obtain rfl : mon = mon' := hm
  obtain rfl : mday = mday' := hd
  rfl

/-- What is read of a `time.struct_time`. -/
structure Stamp where
  date : Date
  tm_hour : Fin 24
  tm_min : Fin 60
  tm_sec : Fin 60
  deriving DecidableEq, Repr

namespace Stamp

/-- `stamp.tm_hour * 60 + stamp.tm_min` -/
def minute (s : Stamp) : ℤ := s.tm_hour * 60 + s.tm_min

/-- A number by which the moments are in order. -/
def number (s : Stamp) : ℤ := (s.date.number * 1440 + s.minute) * 60 + s.tm_sec

theorem minute_bounds (s : Stamp) : 0 ≤ s.minute ∧ s.minute < 1440 := by
  unfold minute
  omega

/-- An earlier moment lies on an earlier date or on the same one. -/
theorem date_le {s s' : Stamp} (h : s.number ≤ s'.number) : s.date.number ≤ s'.date.number := by
  have := s.minute_bounds
  have := s'.minute_bounds
  unfold number at h
  omega

end Stamp

/-- The moment of a date at a time of the day. -/
def moment (d : Date) (t : TimeOfDay) : Stamp := ⟨d, t.hour, t.minute, 0⟩

/-- A moment lies ahead where its date does, or on the same date where its time has not come. -/
theorem lt_moment_iff {s : Stamp} {d : Date} {t : TimeOfDay} (h : s.date.number ≤ d.number) :
    s.number < (moment d t).number ↔
      s.date.number < d.number ∨ s.minute < minutes_of_day t := by
  have hm : (moment d t).number = (d.number * 1440 + minutes_of_day t) * 60 := by
    simp [moment, Stamp.number, Stamp.minute, minutes_of_day]
  have := s.minute_bounds
  have := minutes_of_day_nonneg t
  have := minutes_of_day_lt t
  rw [hm, Stamp.number]
  omega

/-! ### The time of the day -/

/-- What a call may raise. -/
inductive Raise where
  | app (e : AppError)
  | python (e : Error)
  deriving DecidableEq, Repr

variable (I : Interp)

/-- `_PATTERN.match(raw)`, of a text that was stripped: the hour and the minute. -/
def clockGroups : Text → Option (ℕ × ℕ)
  | [h, colon, m, m'] => do
    guard (colon = codePoint ':')
    return ((← I.digit h).val, (← I.digit m).val * 10 + (← I.digit m').val)
  | [h, h', colon, m, m'] => do
    guard (colon = codePoint ':')
    return ((← I.digit h).val * 10 + (← I.digit h').val,
      (← I.digit m).val * 10 + (← I.digit m').val)
  | _ => none

/-- `value not in (None, "")` -/
def isGiven : Value → Bool
  | .null => false
  | .str [] => false
  | _ => true

/-- `hhmm` -/
def hhmm (value : Value) (dflt : Text) : Except Raise TimeOfDay := do
  let raw ← ((strOf I (if isGiven value then value else .str dflt)).mapError Raise.python)
  let raw := raw.strip
  match clockGroups I raw with
  | none => .error (.app ⟨"time must look like HH:MM, got: " ++ raw, 400⟩)
  | some (hour, minute) =>
    if h : hour < 24 ∧ minute < 60 then .ok ⟨⟨hour, h.1⟩, ⟨minute, h.2⟩⟩
    else .error (.app ⟨"time out of range: " ++ raw, 400⟩)

/-- `f"{hour:02d}:{minute:02d}"` -/
def TimeOfDay.text (t : TimeOfDay) : Text :=
  twoDigits t.hour ++ codePoint ':' :: twoDigits t.minute

variable {I}

theorem TimeOfDay.strip_text (t : TimeOfDay) : t.text.strip = t.text := by
  have hfront : t.text.lstrip = t.text := Text.Flush.lstrip fun c hc => by
    obtain rfl : _ = c := Option.some.inj hc
    exact digit_not_space _
  rw [Text.strip, hfront, Text.rstrip, List.rdropWhile, List.reverse_eq_iff]
  show List.dropWhile isSpace (digit t.minute :: _) = _
  rw [List.dropWhile_cons_of_neg (by rw [digit_not_space]; exact Bool.false_ne_true)]
  rfl

theorem digit_twoDigits (hI : I.Ascii) {n : ℕ} (h : n < 100) :
    I.digit (digit (n / 10)) = some ⟨n / 10, by omega⟩ ∧
      I.digit (digit n) = some ⟨n % 10, by omega⟩ := by
  refine ⟨hI ⟨n / 10, by omega⟩, ?_⟩
  rw [← hI ⟨n % 10, by omega⟩]
  congr 1
  simp [digit]

theorem clockGroups_text (hI : I.Ascii) (t : TimeOfDay) :
    clockGroups I t.text = some (t.hour.val, t.minute.val) := by
  obtain ⟨hh, hh'⟩ := digit_twoDigits hI (show t.hour.val < 100 by omega)
  obtain ⟨hm, hm'⟩ := digit_twoDigits hI (show t.minute.val < 100 by omega)
  show clockGroups I [_, _, _, _, _] = _
  rw [clockGroups, hh, hh', hm, hm']
  simp only [guard, if_true, Option.pure_def, Option.bind_eq_bind, Option.bind_some]
  congr 2 <;> omega

/-- A time that was written is read back, given as it is or as what stands for none. -/
theorem hhmm_text (hI : I.Ascii) {v : Value} {dflt : Text} {t : TimeOfDay}
    (h : (if isGiven v then v else .str dflt) = .str t.text) : hhmm I v dflt = .ok t := by
  unfold hhmm
  rw [h]
  show (match clockGroups I t.text.strip with
    | none => _
    | some (hour, minute) => _) = _
  rw [t.strip_text, clockGroups_text hI t]
  exact dif_pos ⟨t.hour.isLt, t.minute.isLt⟩

end Schedules
