import Caravan.Proxy.Pools
import Caravan.Python.Except
import Caravan.Python.Int

/-!
# The verdict of a level

`UsageReserve.verdict`, of a page of windows as the file keeps it: a record that does not read is
passed over, and an infinite number is the one thing that stops the reading.

* `verdict_until` — a level that closes a row opens it at the reset it names, and no sooner;
* `last_spec` — the reset it names is the last among the windows that close the row.
-/

namespace Levels

open Python Proxy.Pool Proxy.Pool.UsageReserve

variable (I : Interp)

/-! ### Reading a page -/

/-- `except (TypeError, ValueError)`: nothing was read. -/
def caught {A : Type} : Except Error A → Except Error (Option A)
  | .ok a => .ok (some a)
  | .error .type | .error .value => .ok none
  | .error e => .error e

/-- A record of the page. -/
def readWindow : Value → Except Error (Option Window)
  | .dict window => caught do
    let seconds ← intOf I (Dict.get window "seconds")
    let used ← intOf I (Dict.get window "usedPct")
    let reset_at ← intOf I ((Dict.get window "resetAt").or (.int 0))
    return ⟨seconds, used, some reset_at⟩
  | _ => .ok none

/-- `UsageReserve.verdict`, of the records of a page. -/
def verdictOf (r : UsageReserve) (page : List Value) (now : ℚ) : Except Error (Option Hit) := do
  let windows ← page.mapM (readWindow I)
  return r.verdict (windows.filterMap id) now

/-! ### The window that keeps the row shut -/

theorem last_spec {hits : List Hit} {h : Hit} (hlast : last hits = some h) :
    h ∈ hits ∧ ∀ h' ∈ hits, h'.resetAt ≤ h.resetAt := by
  induction hits generalizing h with
  | nil => cases hlast
  | cons first rest ih =>
    unfold last at hlast
    cases hrest : last rest with
    | none =>
      rw [hrest] at hlast
      obtain rfl := Option.some.inj hlast
      rw [last_eq_none.mp hrest]
      exact ⟨List.mem_cons_self, fun h' hh' => (List.mem_singleton.mp hh') ▸ le_rfl⟩
    | some later =>
      obtain ⟨hmem, hmax⟩ := ih hrest
      rw [hrest] at hlast
      dsimp only at hlast
      split at hlast
      · next hlt =>
        obtain rfl := Option.some.inj hlast
        refine ⟨List.mem_cons_of_mem _ hmem, fun h' hh' => ?_⟩
        rcases List.mem_cons.mp hh' with rfl | hh'
        · exact hlt.le
        · exact hmax h' hh'
      · next hge =>
        obtain rfl := Option.some.inj hlast
        refine ⟨List.mem_cons_self, fun h' hh' => ?_⟩
        rcases List.mem_cons.mp hh' with rfl | hh'
        · exact le_rfl
        · exact (hmax h' hh').trans (not_lt.mp hge)

/-- A window closes the row until its reset. -/
theorem hit_eq_some {r : UsageReserve} {now : ℚ} {w : Window} {h : Hit} :
    r.hit now w = some h ↔ ∃ level, r.get w.seconds = some level ∧ now < (w.resetAt.getD 0 : ℤ) ∧
      max 0 (100 - w.usedPct) ≤ (level : ℤ) ∧
        h = ⟨w.seconds, max 0 (100 - w.usedPct), level, w.resetAt.getD 0⟩ := by
  unfold hit
  cases r.get w.seconds with
  | none =>
    refine ⟨fun h => (by cases h), ?_⟩
    rintro ⟨_, h, -⟩
    cases h
  | some level =>
    dsimp only
    constructor
    · intro hhit
      split at hhit
      · cases hhit
      · next hahead =>
        split at hhit
        · next hdown => exact ⟨level, rfl, not_le.mp hahead, hdown, (Option.some.inj hhit).symm⟩
        · cases hhit
    · rintro ⟨_, hlevel, hahead, hdown, rfl⟩
      obtain rfl := Option.some.inj hlevel
      rw [if_neg (not_le.mpr hahead), if_pos hdown]

/-- Later on, the windows that close the row are those of them whose reset is ahead. -/
theorem hit_later {r : UsageReserve} {now t : ℚ} (ht : now ≤ t) {w : Window} {h : Hit} :
    r.hit t w = some h ↔ r.hit now w = some h ∧ t < h.resetAt := by
  rw [hit_eq_some, hit_eq_some]
  constructor
  · rintro ⟨level, hget, hahead, hdown, rfl⟩
    exact ⟨⟨level, hget, ht.trans_lt hahead, hdown, rfl⟩, hahead⟩
  · rintro ⟨⟨level, hget, -, hdown, rfl⟩, hahead⟩
    exact ⟨level, hget, hahead, hdown, rfl⟩

theorem verdict_eq_none {r : UsageReserve} {windows : List Window} {now : ℚ} :
    r.verdict windows now = none ↔ ∀ w ∈ windows, r.hit now w = none := by
  rw [verdict, last_eq_none, List.filterMap_eq_nil_iff]

theorem verdict_mem {r : UsageReserve} {windows : List Window} {now : ℚ} {h : Hit}
    (hv : r.verdict windows now = some h) : (∃ w ∈ windows, r.hit now w = some h) ∧
      ∀ w ∈ windows, ∀ h', r.hit now w = some h' → h'.resetAt ≤ h.resetAt := by
  obtain ⟨hmem, hmax⟩ := last_spec hv
  exact ⟨List.mem_filterMap.mp hmem,
    fun w hw h' hh' => hmax h' (List.mem_filterMap.mpr ⟨w, hw, hh'⟩)⟩

theorem verdict_later {r : UsageReserve} {windows : List Window} {now t : ℚ} {h : Hit}
    (hv : r.verdict windows now = some h) (ht : now ≤ t) :
    r.verdict windows t = none ↔ (h.resetAt : ℚ) ≤ t := by
  obtain ⟨⟨w, hw, hhit⟩, hmax⟩ := verdict_mem hv
  rw [verdict_eq_none]
  constructor
  · -- the window that is named holds the row shut until its reset
    intro hopen
    by_contra hahead
    have hstill := (hit_later ht).mpr ⟨hhit, not_le.mp hahead⟩
    rw [hopen w hw] at hstill
    cases hstill
  · -- and no other window does so for longer
    intro hreset w' hw'
    rw [Option.eq_none_iff_forall_ne_some]
    intro h' hh'
    obtain ⟨hnow, hahead⟩ := (hit_later ht).mp hh'
    have hle : (h'.resetAt : ℚ) ≤ h.resetAt := Int.cast_le.mpr (hmax w' hw' h' hnow)
    exact absurd hahead (not_lt.mpr (hle.trans hreset))

/-! ### Results -/

/-- What a verdict is on the windows that read. -/
theorem verdictOf_eq {r : UsageReserve} {page : List Value} {now : ℚ} {v : Option Hit}
    (h : verdictOf I r page now = .ok v) : ∃ windows : List (Option Window),
      page.mapM (readWindow I) = .ok windows ∧ r.verdict (windows.filterMap id) now = v := by
  obtain ⟨windows, hwindows, hv⟩ := Except.bind_eq_ok h
  exact ⟨windows, hwindows, Except.ok.inj hv⟩

/-- **The reset a verdict names is exact**: from then on the row is open, and before it is not. -/
theorem verdict_until {r : UsageReserve} {page : List Value} {now t : ℚ} {h : Hit}
    (hv : verdictOf I r page now = .ok (some h)) (ht : now ≤ t) :
    verdictOf I r page t = .ok none ↔ (h.resetAt : ℚ) ≤ t := by
  obtain ⟨windows, hwindows, hverdict⟩ := verdictOf_eq I hv
  rw [← verdict_later hverdict ht, verdictOf, hwindows]
  exact ⟨fun hopen => Except.ok.inj hopen, fun hopen => congrArg Except.ok hopen⟩

/-- A page of five hours and a week that are both spent, and of a window of no length. -/
def spent : List Value :=
  [.dict [("seconds", .int 18000), ("usedPct", .int 95), ("resetAt", .int 100)],
    .dict [("seconds", .str "604800"), ("usedPct", .int 90), ("resetAt", .int 300)],
    .dict [("seconds", .null), ("usedPct", .int 100), ("resetAt", .int 900)]]

/-- The week keeps the row shut, and it is open when the week is over. -/
theorem verdict_until_week : verdictOf Interp.ascii NEW_STEP spent 300 = .ok none := by
  have hweek : verdictOf Interp.ascii NEW_STEP spent 0 = .ok (some ⟨604800, 10, 10, 300⟩) := by
    decide
  exact (verdict_until _ hweek (by norm_num)).mpr (by norm_num)

end Levels
