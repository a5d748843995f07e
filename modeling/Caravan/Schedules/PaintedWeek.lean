import Caravan.Schedules.WeekWindows
import Mathlib.Data.Fintype.Card

/-!
# The painted week

The page edits a schedule as a week of minutes: an hour of the grid opens or closes its sixty,
and the windows are written back from the mask. It reads a window as the server does
(`WeekWindows.runs`), so what it writes has to be the week that was painted.

* `covers_cut` — the pieces of a stretch are the stretch, cut at midnights or not;
* `scan_spec` — one turn of the week, from a closed minute on, has every open minute in a piece;
* `painted` — however the week is painted, the windows are the mask.
-/

namespace Schedules.Painted

open Intervals

/-- One flag for each minute of the week. -/
abbrev Mask := Fin 10080 → Bool

/-- The flag of a minute, which may be counted on past the end of the week. -/
def Mask.isOpen (mask : Mask) (m : ℤ) : Bool := mask ⟨(m % 10080).toNat, by omega⟩

/-- `mask`: the runs of the windows, filled in. -/
def maskOf (windows : List Window) : Mask := fun m =>
  decide (∃ r ∈ WeekWindows.runs ⟨windows⟩, r.1 ≤ (m : ℤ) ∧ (m : ℤ) < r.2)

/-- `paint`: an hour of the grid, all sixty minutes of it. -/
def paint (mask : Mask) (stroke : Fin 7 × Fin 24 × Bool) : Mask := fun m =>
  if m.val / 60 = stroke.1 * 24 + stroke.2.1 then stroke.2.2 else mask m

/-- `hhmm` -/
def hhmm (m : ℤ) : TimeOfDay := ⟨⟨(m % DAY / 60).toNat, by unfold DAY; omega⟩,
  ⟨(m % DAY % 60).toNat, by unfold DAY; omega⟩⟩

/-- One piece of an open stretch. -/
structure Piece where
  day : Fin 7
  /-- `from`, `to` -/
  times : TimeOfDay × TimeOfDay

/-- What `cut` pushes: so many minutes from a minute on. -/
def pieceAt (m length : ℤ) : Piece :=
  ⟨⟨(m % WEEK / DAY).toNat, by unfold WEEK DAY; omega⟩, hhmm m, hhmm (m + length)⟩

/-- The loop of `cut`. -/
def midnights (at_ left : ℤ) : List Piece :=
  if 0 < left then
    let take := min left (DAY - at_ % DAY)
    pieceAt at_ take :: midnights ((at_ + take) % WEEK) (left - take)
  else []
termination_by left.toNat
decreasing_by unfold DAY; omega

/-- `cut` -/
def cut (start length : ℤ) : List Piece :=
  if length ≤ DAY then [pieceAt start length] else midnights start length

/-- One step around the week: where the stretch that is open began, and the pieces so far. -/
def scan (mask : Mask) (s : Option ℤ × List Piece) (m : ℤ) : Option ℤ × List Piece :=
  match s.1, mask.isOpen m with
  | none, true => (some m, s.2)
  | some start, false => (none, s.2 ++ cut start ((m - start) % WEEK))
  | _, _ => s

/-- The window of two times on some days: sorted, and all seven are every day. -/
def windowOf (times : TimeOfDay × TimeOfDay) (days : List (Fin 7)) : Window where
  days := if days.dedup.length = 7 then []
    else (days.dedup.insertionSort (· ≤ ·)).map fun d : Fin 7 => (d.val : ℤ)
  inWeek d hd := by
    split at hd
    · cases hd
    · obtain ⟨d, -, rfl⟩ := List.mem_map.mp hd
      exact ⟨by omega, by omega⟩
  sorted := by
    split
    · exact List.Pairwise.nil
    · have hnodup := (List.perm_insertionSort (· ≤ ·) days.dedup).nodup_iff.mpr (List.nodup_dedup _)
      refine List.pairwise_map.mpr ((List.pairwise_insertionSort (· ≤ ·) _).and hnodup |>.imp ?_)
      intro a b h
      have := Fin.val_ne_of_ne h.2
      have := Fin.le_def.mp h.1
      omega
  fromTime := times.1
  toTime := times.2

/-- The order of the windows: by their first day, then by their times. -/
def Before (v w : Window) : Prop :=
  v.days.headD (-1) < w.days.headD (-1) ∨ v.days.headD (-1) = w.days.headD (-1) ∧
    Intervals.Before (v.start, minutes_of_day v.toTime) (w.start, minutes_of_day w.toTime)

instance Before.decidable : DecidableRel Before := fun _ _ => inferInstanceAs (Decidable (_ ∨ _))

/-- `fromMask` -/
def fromMask (mask : Mask) : List Window :=
  if ∀ m, mask m = true then [windowOf (hhmm 0, hhmm 0) []]
  else
    match (List.finRange 10080).find? fun m => !mask m with
    | none => []
    | some closed =>
      let pieces := ((List.range 10080).foldl (fun s step =>
        scan mask s ((closed + (step + 1 : ℕ)) % WEEK)) (none, [])).2
      ((pieces.map Piece.times).dedup.map fun times => windowOf times
        ((pieces.filter fun p => p.times = times).map Piece.day)).insertionSort Before

/-! ### The minutes of a piece -/

/-- So many minutes from one on, the week going round. -/
def During (start length m : ℤ) : Prop := (m - start) % 10080 < length

theorem covered_runs {windows : List Window} {m : ℤ} (hm : 0 ≤ m ∧ m < 10080) :
    Covered (WeekWindows.runs ⟨windows⟩) m ↔
      ∃ w ∈ windows, ∃ d ∈ w.onDays, During (d * 1440 + w.start) w.length m := by
  rw [WeekWindows.runs, covered_merged (WeekWindows.pieces_proper ⟨windows⟩), covered_flatMap]
  refine exists_congr fun w => and_congr_right fun _ => covered_flatMap.trans ?_
  refine exists_congr fun d => and_congr_right fun hd => ?_
  have hday := w.onDays_isDay hd
  have hstart := w.start_bounds
  have hlength := w.length_bounds
  rw [covered_piecesOn hstart hlength hday]
  unfold IsDay at hday
  unfold During
  omega

/-- The minutes of a piece. -/
def Piece.Covers (p : Piece) (m : ℤ) : Prop :=
  During (p.day.val * 1440 + minutes_of_day p.times.1) (windowOf p.times []).length m

theorem minutes_hhmm (m : ℤ) : minutes_of_day (hhmm m) = m % 1440 := by
  unfold minutes_of_day hhmm DAY
  dsimp only
  omega

theorem covers_pieceAt {start length m : ℤ} (h : 0 < length ∧ length ≤ 1440) :
    (pieceAt start length).Covers m ↔ During start length m := by
  have hlength : (windowOf (pieceAt start length).times []).length = length := by
    simp only [Window.length, Window.start, windowOf, pieceAt, minutes_hhmm, DAY]
    split <;> omega
  rw [Piece.Covers, hlength]
  simp only [pieceAt, minutes_hhmm, During, WEEK, DAY]
  omega

theorem covers_midnights {m : ℤ} (at_ left : ℤ) (h : left ≤ 10080) :
    (∃ p ∈ midnights at_ left, p.Covers m) ↔ During at_ left m := by
  fun_induction midnights at_ left with
  | case1 at_ left hpos take ih =>
    have htake : take = min left (1440 - at_ % 1440) := rfl
    rw [List.exists_mem_cons_iff, covers_pieceAt (by omega), ih (by omega)]
    unfold During WEEK DAY
    omega
  | case2 at_ left hleft =>
    refine iff_of_false (fun ⟨_, hp, _⟩ => List.not_mem_nil hp) ?_
    unfold During
    omega

/-- **A stretch is its pieces**, whole or cut at the midnights. -/
theorem covers_cut {m : ℤ} (start length : ℤ) (h : 0 < length ∧ length ≤ 10080) :
    (∃ p ∈ cut start length, p.Covers m) ↔ During start length m := by
  unfold cut
  split
  · next hday =>
    simp only [List.mem_singleton, exists_eq_left]
    exact covers_pieceAt ⟨h.1, hday⟩
  · exact covers_midnights start length h.2

/-! ### Once around the week -/

/-- How far a minute is behind the closed one. -/
def behind (closed m : ℤ) : ℤ := (m - closed - 1) % 10080

/-- After `k` steps the pieces hold the open minutes of the first `j`, and from there on all are
open: the stretch that is not yet written. -/
def Around (mask : Mask) (closed k : ℤ) (s : Option ℤ × List Piece) : Prop :=
  ∃ j, 0 ≤ j ∧ j ≤ k ∧ s.1 = (if j = k then none else some ((closed + 1 + j) % WEEK)) ∧
    (∀ m, (∃ p ∈ s.2, p.Covers m) ↔ mask.isOpen m = true ∧ behind closed m < j) ∧
    ∀ m, j ≤ behind closed m → behind closed m < k → mask.isOpen m = true

theorem isOpen_congr {mask : Mask} {m m' : ℤ} (h : m % 10080 = m' % 10080) :
    mask.isOpen m = mask.isOpen m' := by
  unfold Mask.isOpen
  congr 3

/-- The stretch of the open minutes from one on, up to the closed one that ends it. -/
theorem covers_stretch {closed j k m : ℤ} (h : 0 ≤ j ∧ j < k ∧ k < 10080) :
    (∃ p ∈ cut ((closed + 1 + j) % WEEK)
      (((closed + (k + 1)) % WEEK - (closed + 1 + j) % WEEK) % WEEK), p.Covers m) ↔
      j ≤ behind closed m ∧ behind closed m < k := by
  rw [covers_cut _ _ (by unfold WEEK DAY; omega)]
  unfold During behind WEEK DAY
  omega

theorem scan_around {mask : Mask} {closed k : ℤ} {s : Option ℤ × List Piece} (hk : 0 ≤ k)
    (hweek : k < 10080) (h : Around mask closed k s) :
    Around mask closed (k + 1) (scan mask s ((closed + (k + 1)) % WEEK)) := by
  obtain ⟨j, hj, hjk, hfirst, hcovers, hrest⟩ := h
  -- the minute of this step is the one `k` behind
  have hhere : ∀ m, behind closed m = k →
      mask.isOpen m = mask.isOpen ((closed + (k + 1)) % WEEK) := by
    intro m hm
    refine isOpen_congr ?_
    unfold behind at hm
    unfold WEEK DAY
    omega
  unfold scan
  cases hopen : mask.isOpen ((closed + (k + 1)) % WEEK) with
  | true =>
    have hopened : ∀ m, j ≤ behind closed m → behind closed m < k + 1 → mask.isOpen m = true := by
      intro m hm hlt
      rcases eq_or_ne (behind closed m) k with he | he
      · exact (hhere m he).trans hopen
      · exact hrest m hm (by omega)
    split_ifs at hfirst <;> rw [hfirst] <;> refine ⟨j, hj, by omega, ?_, hcovers, hopened⟩ <;>
      rw [if_neg (by omega)]
    · rw [show closed + 1 + j = closed + (k + 1) by omega]
    · exact hfirst
  | false =>
    have hclosed : ∀ m, mask.isOpen m = true → behind closed m ≠ k := by
      intro m hm he
      rw [hhere m he, hopen] at hm
      cases hm
    split_ifs at hfirst <;> rw [hfirst] <;>
      refine ⟨k + 1, by omega, le_rfl, by rw [if_pos rfl]; try exact hfirst, fun m => ?_,
        fun m hm hlt => absurd hm (by omega)⟩
    · rw [hcovers m]
      refine and_congr_right fun hm => ?_
      have := hclosed m hm
      omega
    · -- the stretch from `j` on ends here, and is written
      simp only [List.mem_append, or_and_right, exists_or, hcovers m,
        covers_stretch ⟨hj, by omega, hweek⟩]
      constructor
      · rintro (⟨hm, hlt⟩ | ⟨hm, hlt⟩)
        · exact ⟨hm, by omega⟩
        · exact ⟨hrest m hm hlt, by omega⟩
      · rintro ⟨hm, hlt⟩
        have := hclosed m hm
        rcases lt_or_ge (behind closed m) j with hj | hj
        · exact .inl ⟨hm, hj⟩
        · exact .inr ⟨hj, by omega⟩

/-! ### The windows of a mask -/

theorem mem_onDays {times : TimeOfDay × TimeOfDay} {days : List (Fin 7)} (hne : days ≠ []) {d : ℤ} :
    d ∈ (windowOf times days).onDays ↔ ∃ e ∈ days, (e.val : ℤ) = d := by
  unfold Window.onDays windowOf
  by_cases hall : days.dedup.length = 7
  · -- seven days are every day
    have huniv : days.toFinset = Finset.univ :=
      Finset.eq_univ_of_card _ ((List.card_toFinset days).trans hall)
    rw [if_pos (if_pos hall), mem_everyDay]
    constructor
    · intro h
      refine ⟨⟨d.toNat, by have := h.2; omega⟩, ?_, Int.toNat_of_nonneg h.1⟩
      rw [← List.mem_toFinset, huniv]
      exact Finset.mem_univ _
    · rintro ⟨e, -, rfl⟩
      exact ⟨by omega, by omega⟩
  · have hsome : (days.dedup.insertionSort (· ≤ ·)).map (fun d : Fin 7 => (d.val : ℤ)) ≠ [] := by
      obtain ⟨e, he⟩ := List.exists_mem_of_ne_nil days hne
      refine List.ne_nil_of_mem (List.mem_map_of_mem ?_) (a := (e.val : ℤ))
      rwa [List.mem_insertionSort, List.mem_dedup]
    simp only [if_neg hall, if_neg hsome, List.mem_map, List.mem_insertionSort, List.mem_dedup]

/-- The windows hold what the pieces hold. -/
theorem grouped {pieces : List Piece} {m : ℤ} :
    (∃ w ∈ ((pieces.map Piece.times).dedup.map fun times => windowOf times
      ((pieces.filter fun p => p.times = times).map Piece.day)).insertionSort Before,
      ∃ d ∈ w.onDays, During (d * 1440 + w.start) w.length m) ↔ ∃ p ∈ pieces, p.Covers m := by
  simp only [List.mem_insertionSort, List.mem_map, List.mem_dedup]
  constructor
  · rintro ⟨_, ⟨times, ⟨q, hq, rfl⟩, rfl⟩, d, hd, hm⟩
    obtain ⟨e, he, rfl⟩ := (mem_onDays (List.ne_nil_of_mem (List.mem_map_of_mem
      (List.mem_filter.mpr ⟨hq, decide_eq_true rfl⟩)))).mp hd
    obtain ⟨p, hp, rfl⟩ := List.mem_map.mp he
    obtain ⟨hp, htimes⟩ := List.mem_filter.mp hp
    refine ⟨p, hp, ?_⟩
    rw [Piece.Covers, of_decide_eq_true htimes]
    exact hm
  · rintro ⟨p, hp, hm⟩
    have hday : p.day ∈ (pieces.filter fun q => q.times = p.times).map Piece.day :=
      List.mem_map_of_mem (List.mem_filter.mpr ⟨hp, decide_eq_true rfl⟩)
    exact ⟨_, ⟨p.times, ⟨p, hp, rfl⟩, rfl⟩, _, (mem_onDays (List.ne_nil_of_mem hday)).mpr
      ⟨_, hday, rfl⟩, hm⟩

theorem isOpen_val (mask : Mask) (m : Fin 10080) : mask.isOpen m = mask m := by
  unfold Mask.isOpen
  congr 1
  ext
  dsimp only
  omega

theorem maskOf_eq_true {windows : List Window} {m : Fin 10080} : maskOf windows m = true ↔
    ∃ w ∈ windows, ∃ d ∈ w.onDays, During (d * 1440 + w.start) w.length m := by
  rw [← covered_runs ⟨by omega, by omega⟩]
  exact decide_eq_true_iff

/-- The windows that are written of a mask are the mask. -/
theorem maskOf_written (mask : Mask) : maskOf (fromMask mask) = mask := by
  funext m
  rw [Bool.eq_iff_iff, maskOf_eq_true]
  unfold fromMask
  split
  · next hall =>
    -- every minute is in the day that it begins
    refine iff_of_true ⟨_, List.mem_singleton_self _, (m : ℤ) / 1440, ?_, ?_⟩ (hall m)
    · exact mem_everyDay.mpr ⟨by omega, by omega⟩
    · simp only [Window.start, Window.length, windowOf, minutes_hhmm, During, DAY]
      split <;> omega
  · next hsome =>
    split
    · next hnone =>
      refine absurd (fun m => ?_) hsome
      simpa using List.find?_eq_none.mp hnone m (List.mem_finRange m)
    · next closed hclosed =>
      have hclosed : mask closed = false := by simpa using List.find?_some hclosed
      have hsteps : ∀ k : ℕ, k ≤ 10080 → Around mask closed k ((List.range k).foldl (fun s step =>
          scan mask s ((closed + (step + 1 : ℕ)) % WEEK)) (none, [])) := by
        intro k
        induction k with
        | zero =>
          refine fun _ => ⟨0, le_rfl, le_rfl, rfl, fun m => iff_of_false ?_ ?_, fun m h hlt => ?_⟩
          · exact fun ⟨_, hp, _⟩ => List.not_mem_nil hp
          · unfold behind
            omega
          · exact absurd (h.trans_lt hlt) (lt_irrefl _)
        | succ k ih =>
          intro hk
          rw [List.range_succ, List.foldl_append]
          exact scan_around (by omega) (by omega) (ih (by omega))
      obtain ⟨j, hj, hjk, -, hcovers, hrest⟩ := hsteps 10080 le_rfl
      -- the last step is the closed minute, so no stretch is left
      have hend : j = 10080 := by
        by_contra hne
        have hlast : behind closed closed = 10079 := by
          unfold behind
          omega
        have := hrest closed (by omega) (by omega)
        rw [isOpen_val, hclosed] at this
        cases this
      rw [grouped, hcovers, isOpen_val]
      refine and_iff_left ?_
      unfold behind
      omega

/-- **The painted week is the served week.** However hours are painted, with the windows written
back after each, the mask of the windows is the mask that is painted alone, and a minute of the
wall clock is in a window exactly if its flag is set. -/
theorem painted (windows : List Window) (strokes : List (Fin 7 × Fin 24 × Bool)) :
    let written := strokes.foldl (fun ws stroke => fromMask (paint (maskOf ws) stroke)) windows
    let week := strokes.foldl paint (maskOf windows)
    maskOf written = week ∧
      ∀ wall, (⟨written⟩ : WeekWindows).Covers wall ↔ week.isOpen (wall + 4320) = true := by
  have hmask : maskOf (strokes.foldl (fun ws stroke => fromMask (paint (maskOf ws) stroke))
      windows) = strokes.foldl paint (maskOf windows) := by
    induction strokes generalizing windows with
    | nil => rfl
    | cons stroke strokes ih => rw [List.foldl_cons, ih, maskOf_written, List.foldl_cons]
  refine ⟨hmask, fun wall => ?_⟩
  rw [WeekWindows.covers_iff, ← hmask, covered_runs ⟨by omega, by omega⟩, Mask.isOpen,
    maskOf_eq_true, Int.toNat_of_nonneg (by omega)]

end Schedules.Painted
