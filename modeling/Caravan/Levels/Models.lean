import Caravan.Levels.Reserve
import Caravan.Python.Dict

/-!
# The stop and the switch of a model

The two levels of a subscription's model, as the file keeps them and as `ModelLevels` reads them:
`UsageReserve.normalize`, of whatever stands in the file, `ModelLevels.clean` and
`ModelLevels.stricter`.

* `closed_for_switch` — a row its stop closes is closed for its switch too;
* `clean_entry` — a pair that was cleaned is cleaned to itself.
-/

namespace Levels

open Python Proxy.Pool

variable (I : Interp)

/-! ### Maps of levels -/

/-- `self.by_seconds.get(seconds, 0)` -/
def level (r : UsageReserve) (seconds : ℤ) : ℕ := (Assoc.get r.bySeconds seconds).getD 0

theorem level_eq (r : UsageReserve) (seconds : ℤ) :
    level r seconds = (r.get seconds).getD 0 := by
  rw [level, ← Assoc.lookup_eq_get]
  rfl

theorem UsageReserve.ext {r r' : UsageReserve} (h : r.bySeconds = r'.bySeconds) : r = r' := by
  obtain ⟨bySeconds, kept⟩ := r
  obtain rfl : bySeconds = _ := h
  rfl

/-- No level of any window. -/
def lifted : UsageReserve := ⟨[], fun _ h => (nomatch h)⟩

/-- `if seconds > 0 and pct > 0: out[str(seconds)] = min(pct, cls.MAX_PCT)` -/
def keepLevel (out : UsageReserve) (seconds pct : ℤ) : UsageReserve :=
  if h : 0 < seconds ∧ 0 < pct then {
    bySeconds := Assoc.set out.bySeconds seconds (min pct.toNat MAX_PCT)
    kept p hp := by
      rcases Assoc.mem_set hp with rfl | hp
      · exact ⟨h.1, lt_min (by omega) (by decide), min_le_right _ _⟩
      · exact out.kept p hp }
  else out

/-- One entry of `UsageReserve.normalize`. -/
def normalizeEntry (out : UsageReserve) (entry : Text × Value) : Except Error UsageReserve :=
  match entry.2 with
  | .bool _ => .ok out
  | value => do
    let read ← caught do
      let seconds ← intOfText I entry.1
      let pct ← intOf I value
      return (seconds, pct)
    match read with
    | none => return out
    | some (seconds, pct) => return keepLevel out seconds pct

/-- `UsageReserve.normalize` -/
def normalize : Value → Except Error UsageReserve
  | .dict raw => raw.foldlM (normalizeEntry I) lifted
  | _ => .ok lifted

/-- The map as the file keeps it. -/
def valueOf (r : UsageReserve) : Value :=
  .dict (r.bySeconds.map fun p => (intRepr p.1, .int p.2))

/-- A map that was read: no window stands twice, and the lengths can be written and read. -/
structure Tidy (r : UsageReserve) : Prop where
  distinct : Assoc.Distinct r.bySeconds
  short : ∀ p ∈ r.bySeconds, p.1 < 10 ^ MAX_STR_DIGITS

theorem lifted_tidy : Tidy lifted := ⟨List.nodup_nil, fun _ h => (nomatch h)⟩

theorem Tidy.keepLevel {out : UsageReserve} (h : Tidy out) {seconds : ℤ}
    (hs : seconds < 10 ^ MAX_STR_DIGITS) (pct : ℤ) : Tidy (keepLevel out seconds pct) := by
  unfold Levels.keepLevel
  split
  · refine ⟨h.distinct.set _ _, fun p hp => ?_⟩
    rcases Assoc.mem_set hp with rfl | hp
    · exact hs
    · exact h.short p hp
  · exact h

variable {I}

theorem caught_some {A : Type} {x : Except Error A} {a : A} (h : caught x = .ok (some a)) :
    x = .ok a := by
  cases x with
  | ok b => exact congrArg Except.ok (Option.some.inj (Except.ok.inj h))
  | error e => cases e <;> cases h

theorem normalizeEntry_tidy {out out' : UsageReserve} {entry : Text × Value} (h : Tidy out)
    (he : normalizeEntry I out entry = .ok out') : Tidy out' := by
  unfold normalizeEntry at he
  split at he
  · exact Except.ok.inj he ▸ h
  · obtain ⟨read, hread, he⟩ := Except.bind_eq_ok he
    cases read with
    | none => exact Except.ok.inj he ▸ h
    | some p =>
      obtain ⟨seconds, hseconds, hp⟩ := Except.bind_eq_ok (caught_some hread)
      obtain ⟨pct, -, hp⟩ := Except.bind_eq_ok hp
      obtain rfl := Except.ok.inj hp
      exact Except.ok.inj he ▸ h.keepLevel (intOfText_lt hseconds) pct

theorem normalize_tidy {raw : Value} {r : UsageReserve} (h : normalize I raw = .ok r) :
    Tidy r := by
  cases raw with
  | dict d =>
    exact Except.foldlM_inv (fun _ _ _ _ hout hr => normalizeEntry_tidy hout hr) lifted_tidy h
  | _ => exact Except.ok.inj h ▸ lifted_tidy

/-! ### Reading back -/

theorem intRepr_natCast (n : ℕ) : intRepr n = decimal n := by
  unfold intRepr
  rw [if_neg (by omega), Int.natAbs_natCast, List.nil_append]

theorem normalizeEntry_written (hI : I.Ascii) (out : UsageReserve) {p : ℤ × ℕ} (hpos : 0 < p.1)
    (hshort : p.1 < 10 ^ MAX_STR_DIGITS) :
    normalizeEntry I out (intRepr p.1, .int p.2) = .ok (keepLevel out p.1 p.2) := by
  obtain ⟨n, hn⟩ := Int.eq_ofNat_of_zero_le hpos.le
  have hread : intOfText I (intRepr p.1) = .ok p.1 := by
    rw [hn, intRepr_natCast]
    exact intOfText_decimal hI (by exact_mod_cast hn ▸ hshort)
  unfold normalizeEntry
  dsimp only
  rw [hread]
  rfl

/-- **A map is read as it was written.** -/
theorem normalize_valueOf (hI : I.Ascii) {r : UsageReserve} (h : Tidy r) :
    normalize I (valueOf r) = .ok r := by
  have hfold : ∀ (l : List (ℤ × ℕ)) (out : UsageReserve), (∀ p ∈ l, 0 < p.1 ∧ 0 < p.2 ∧
      p.2 ≤ MAX_PCT ∧ p.1 < 10 ^ MAX_STR_DIGITS) → Assoc.Distinct (out.bySeconds ++ l) →
      ∃ r', (l.map fun p => (intRepr p.1, Value.int p.2)).foldlM (normalizeEntry I) out = .ok r' ∧
        r'.bySeconds = out.bySeconds ++ l := by
    intro l
    induction l with
    | nil => exact fun out _ _ => ⟨out, rfl, (List.append_nil _).symm⟩
    | cons p l ih =>
      intro out hl hdistinct
      obtain ⟨hpos, hpct, hmax, hshort⟩ := hl p List.mem_cons_self
      -- the window is not there yet, so it goes to the end with its level as it is
      have hnew : Assoc.get out.bySeconds p.1 = none := by
        rw [Option.eq_none_iff_forall_ne_some]
        intro v hv
        rw [Assoc.Distinct, List.map_append, List.nodup_append] at hdistinct
        exact hdistinct.2.2 p.1 (List.mem_map.mpr ⟨_, Assoc.mem_of_get hv, rfl⟩) p.1
          (List.mem_map.mpr ⟨p, List.mem_cons_self, rfl⟩) rfl
      have hkept : (keepLevel out p.1 p.2).bySeconds = out.bySeconds ++ [p] := by
        unfold keepLevel
        rw [dif_pos ⟨hpos, by exact_mod_cast hpct⟩]
        dsimp only
        rw [Assoc.set_of_get_none hnew, Int.toNat_natCast, min_eq_left hmax]
      obtain ⟨r', hr', hby⟩ := ih (keepLevel out p.1 p.2)
        (fun q hq => hl q (List.mem_cons_of_mem _ hq)) (by
          rw [hkept, List.append_assoc]
          exact hdistinct)
      refine ⟨r', ?_, ?_⟩
      · rw [List.map_cons, List.foldlM_cons, normalizeEntry_written hI out hpos hshort]
        exact hr'
      · rw [hby, hkept, List.append_assoc]
        rfl
  obtain ⟨r', hr', hby⟩ := hfold r.bySeconds lifted
    (fun p hp => ⟨(r.kept p hp).1, (r.kept p hp).2.1, (r.kept p hp).2.2, h.short p hp⟩) h.distinct
  have hsame : r' = r := UsageReserve.ext hby
  exact hsame ▸ hr'

/-! ### Two maps together -/

/-- `sorted({*a, *b}, key=int)` -/
def secondsOf (a b : UsageReserve) : List ℤ :=
  ((a.bySeconds ++ b.bySeconds).map Prod.fst).dedup.insertionSort (· ≤ ·)

theorem mem_secondsOf {a b : UsageReserve} {k : ℤ} :
    k ∈ secondsOf a b ↔ k ∈ a.bySeconds.map Prod.fst ∨ k ∈ b.bySeconds.map Prod.fst := by
  rw [secondsOf, List.mem_insertionSort, List.mem_dedup, List.map_append, List.mem_append]

theorem secondsOf_sorted (a b : UsageReserve) : (secondsOf a b).Pairwise (· < ·) := by
  have hnodup : (secondsOf a b).Nodup :=
    (List.perm_insertionSort _ _).nodup_iff.mpr (List.nodup_dedup _)
  exact (List.pairwise_insertionSort (· ≤ ·) _).imp₂ (fun _ _ => lt_of_le_of_ne) hnodup

theorem level_pos {r : UsageReserve} {k : ℤ} :
    0 < level r k ↔ k ∈ r.bySeconds.map Prod.fst := by
  unfold level
  constructor
  · intro h
    cases hget : Assoc.get r.bySeconds k with
    | none => rw [hget] at h; exact absurd h (lt_irrefl 0)
    | some v => exact List.mem_map.mpr ⟨_, Assoc.mem_of_get hget, rfl⟩
  · intro h
    cases hget : Assoc.get r.bySeconds k with
    | none =>
      obtain ⟨p, hp, rfl⟩ := List.mem_map.mp h
      exact absurd hget (Assoc.get_ne_none_of_mem hp)
    | some v => exact (r.kept _ (Assoc.mem_of_get hget)).2.1

theorem level_le (r : UsageReserve) (k : ℤ) : level r k ≤ MAX_PCT := by
  unfold level
  cases hget : Assoc.get r.bySeconds k with
  | none => exact Nat.zero_le _
  | some v => exact (r.kept _ (Assoc.mem_of_get hget)).2.2

/-- `{key: max(a.get(key, 0), b.get(key, 0)) for key in sorted({*a, *b}, key=int)}` -/
def highest (a b : UsageReserve) : UsageReserve where
  bySeconds := (secondsOf a b).map fun k => (k, max (level a k) (level b k))
  kept p hp := by
    obtain ⟨k, hk, rfl⟩ := List.mem_map.mp hp
    rcases mem_secondsOf.mp hk with h | h
    · obtain ⟨q, hq, rfl⟩ := List.mem_map.mp h
      exact ⟨(a.kept q hq).1, lt_max_of_lt_left (level_pos.mpr h),
        max_le (level_le _ _) (level_le _ _)⟩
    · obtain ⟨q, hq, rfl⟩ := List.mem_map.mp h
      exact ⟨(b.kept q hq).1, lt_max_of_lt_right (level_pos.mpr h),
        max_le (level_le _ _) (level_le _ _)⟩

@[simp] theorem level_highest (a b : UsageReserve) (k : ℤ) :
    level (highest a b) k = max (level a k) (level b k) := by
  unfold level highest
  dsimp only
  rw [Assoc.get_map_pair]
  split
  · rfl
  · next h =>
    rw [mem_secondsOf, ← level_pos, ← level_pos, not_or, Nat.not_lt, Nat.not_lt] at h
    exact (Nat.eq_zero_of_le_zero (max_le h.1 h.2)).symm

theorem keys_highest (a b : UsageReserve) :
    (highest a b).bySeconds.map Prod.fst = secondsOf a b := by
  unfold highest
  rw [List.map_map]
  exact List.map_id _

/-- Raising a map a second time leaves it as it is. -/
theorem highest_highest (a b : UsageReserve) : highest (highest a b) b = highest a b := by
  have hmem : ∀ k, k ∈ secondsOf (highest a b) b ↔ k ∈ secondsOf a b := fun k => by
    rw [mem_secondsOf, keys_highest, mem_secondsOf, or_assoc, or_self]
  have hkeys : secondsOf (highest a b) b = secondsOf a b :=
    ((List.perm_ext_iff_of_nodup ((secondsOf_sorted _ _).imp ne_of_lt)
      ((secondsOf_sorted _ _).imp ne_of_lt)).mpr hmem).eq_of_pairwise
        (fun _ _ _ _ h h' => absurd h h'.not_gt) (secondsOf_sorted _ _) (secondsOf_sorted _ _)
  refine UsageReserve.ext ?_
  show (secondsOf (highest a b) b).map _ = (secondsOf a b).map _
  rw [hkeys]
  refine List.map_congr_left fun k _ => ?_
  rw [level_highest, max_assoc, max_self]

theorem Tidy.highest {a b : UsageReserve} (ha : Tidy a) (hb : Tidy b) : Tidy (highest a b) := by
  refine ⟨?_, fun p hp => ?_⟩
  · rw [Assoc.Distinct, keys_highest]
    exact (secondsOf_sorted a b).imp ne_of_lt
  · have hk : p.1 ∈ secondsOf a b := keys_highest a b ▸ List.mem_map.mpr ⟨p, hp, rfl⟩
    rcases mem_secondsOf.mp hk with h | h
    · obtain ⟨q, hq, heq⟩ := List.mem_map.mp h
      exact heq ▸ ha.short q hq
    · obtain ⟨q, hq, heq⟩ := List.mem_map.mp h
      exact heq ▸ hb.short q hq

/-! ### Pairs -/

/-- The stop and the switch. -/
structure Pair where
  stopAt : UsageReserve
  switchAt : UsageReserve

variable (I) in
/-- `ModelLevels.clean` -/
def clean (entry : Dict) : Except Error Pair := do
  let stop ← normalize I
    (if Dict.has entry "stopAt" then Dict.get entry "stopAt" else Dict.get entry "switchAt")
  let switch ← normalize I (Dict.get entry "switchAt")
  return ⟨stop, highest switch stop⟩

/-- A pair as the file keeps it. -/
def Pair.entry (p : Pair) : Dict := [("stopAt", valueOf p.stopAt), ("switchAt", valueOf p.switchAt)]

variable (I) in
/-- `ModelLevels.stricter` -/
def stricter (a b : Pair) : Except Error Pair :=
  clean I (Pair.entry ⟨highest a.stopAt b.stopAt, highest a.switchAt b.switchAt⟩)

/-- A pair that was cleaned: the switch is nowhere below the stop. -/
structure Pair.Clean (p : Pair) : Prop where
  stop : Tidy p.stopAt
  switch : Tidy p.switchAt
  raised : highest p.switchAt p.stopAt = p.switchAt

theorem clean_clean {entry : Dict} {p : Pair} (h : clean I entry = .ok p) : p.Clean := by
  obtain ⟨stop, hstop, h⟩ := Except.bind_eq_ok h
  obtain ⟨switch, hswitch, h⟩ := Except.bind_eq_ok h
  obtain rfl := Except.ok.inj h
  have hs := normalize_tidy hstop
  exact ⟨hs, (normalize_tidy hswitch).highest hs, highest_highest switch stop⟩

/-- **Cleaning is idempotent.** -/
theorem clean_entry (hI : I.Ascii) {p : Pair} (h : p.Clean) : clean I p.entry = .ok p := by
  have hhas : Dict.has p.entry "stopAt" = true := rfl
  have hstop : Dict.get p.entry "stopAt" = valueOf p.stopAt := rfl
  have hswitch : Dict.get p.entry "switchAt" = valueOf p.switchAt := by
    rw [Pair.entry, Dict.get, List.lookup_cons, beq_eq_false_iff_ne.mpr (by decide)]
    rfl
  unfold clean
  rw [hhas, if_pos rfl, hstop, hswitch, normalize_valueOf hI h.stop, normalize_valueOf hI h.switch]
  show Except.ok _ = _
  rw [h.raised]

theorem Pair.Clean.level_le {p : Pair} (h : p.Clean) (k : ℤ) :
    level p.stopAt k ≤ level p.switchAt k := by
  rw [← h.raised, level_highest]
  exact le_max_right _ _

/-- **A row its stop closes** is closed for its switch too. -/
theorem closed_for_switch {p : Pair} (h : p.Clean) {page : List Value} {now : ℚ}
    {hit : UsageReserve.Hit} (hv : verdictOf I p.stopAt page now = .ok (some hit)) :
    ∃ hit', verdictOf I p.switchAt page now = .ok (some hit') := by
  obtain ⟨windows, hwindows, hverdict⟩ := verdictOf_eq I hv
  obtain ⟨⟨w, hw, hhit⟩, -⟩ := verdict_mem hverdict
  obtain ⟨stop, hstop, hahead, hdown, -⟩ := hit_eq_some.mp hhit
  -- the window that reaches the stop reaches the switch, which is no lower
  have hle : stop ≤ level p.switchAt w.seconds := by
    have hlevel := h.level_le w.seconds
    rwa [level_eq, hstop] at hlevel
  have hpos : 0 < stop := by
    have hmem := Assoc.mem_of_get ((Assoc.lookup_eq_get _ _).symm.trans hstop)
    exact (p.stopAt.kept _ hmem).2.1
  rw [level_eq] at hle
  cases hswitch : p.switchAt.get w.seconds with
  | none =>
    rw [hswitch] at hle
    exact absurd hle (not_le.mpr hpos)
  | some switch =>
    rw [hswitch] at hle
    have hreach := hit_eq_some.mpr
      ⟨switch, hswitch, hahead, hdown.trans (Int.ofNat_le.mpr hle), rfl⟩
    cases hother : p.switchAt.verdict (windows.filterMap id) now with
    | none =>
      rw [verdict_eq_none.mp hother w hw] at hreach
      cases hreach
    | some hit' =>
      refine ⟨hit', ?_⟩
      rw [verdictOf, hwindows]
      exact congrArg Except.ok hother

end Levels
