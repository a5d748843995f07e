import Caravan.Cloud.Spend
import Caravan.Python.Int

/-!
# What was spent is counted once

Each step of the two loops finds the file of a day, and every row of the file that the words let
through is counted (`held`). The figures are the sums over the rows that the steps find
(`window_counts`, `usage_counts`). These are the rows that are due, each once, if and only if the
steps lead to each of the days once, no row comes apart at a line end inside of it, and no row of
another event has the word `"finished"` in it (`counted_once`). A day of 25 hours is found twice
(`long_day_twice`).
-/

namespace Spend

open Python Visits

variable {H : Host} {D : Data}

/-! ### One row -/

theorem get_update_of_not_has {k : Text} : ∀ {patch d : Dict}, patch.has k = false →
    Dict.get (Dict.update d patch) k = Dict.get d k := by
  intro patch
  induction patch with
  | nil => exact fun _ => rfl
  | cons p patch ih =>
    intro d h
    have hboth : k ≠ p.1 ∧ Dict.has patch k = false := by
      rw [Dict.has, List.lookup_cons] at h
      split at h
      · cases h
      · next hk =>
        refine ⟨fun he => ?_, h⟩
        rw [he, beq_self_eq_true] at hk
        cases hk
    have hrest := ih (d := Dict.set d p.1 p.2) hboth.2
    rw [Dict.get_set, if_neg hboth.1] at hrest
    exact hrest

theorem get_item (r : Row H) : r.1.row.get "item" = .dict r.1.item :=
  (get_update_of_not_has (r.2.own "item" (by decide))).trans rfl

theorem get_time (r : Row H) : r.1.row.get "time" = .int r.1.time :=
  (get_update_of_not_has (r.2.own "time" (by decide))).trans rfl

theorem get_event (r : Row H) : r.1.row.get "event" = .str r.1.event :=
  (get_update_of_not_has (r.2.own "event" (by decide))).trans rfl

theorem mem_of_get {d : Dict} {k : Text} {v : Value} (h : d.get k = v) (hv : v ≠ .null) :
    (k, v) ∈ d := by
  unfold Dict.get at h
  cases hlookup : d.lookup k with
  | none =>
    rw [hlookup] at h
    exact absurd h.symm hv
  | some w =>
    rw [hlookup] at h
    obtain ⟨l₁, l₂, hd, -⟩ := List.lookup_eq_some_iff.mp hlookup
    rw [hd, ← h]
    exact List.mem_append_right _ List.mem_cons_self

/-- A text stands in the line between quotes. -/
theorem contains_text {d : Dict} {k t : Text} (h : d.get k = .str t) :
    dumpsText t <:+: Style.raw.write (.dict d) := by
  have hin := Style.write_infix .raw (mem_of_get h (fun h => nomatch h))
  rwa [Style.write] at hin

/-- **The row of a finished request** has the word in its line. -/
theorem contains_finished {r : Row H} (h : r.1.event = "finished") :
    r.1.line.contains "\"finished\"" = true := by
  have hin : dumpsText r.1.event <:+: r.1.line := contains_text (get_event r)
  rw [h] at hin
  exact Text.contains_iff.mpr hin

theorem contains_cloud {r : Row H} (h : r.1.item.get "upstreamType" = .str "cloud") :
    r.1.line.contains "\"cloud\"" = true := by
  have hitem : dumpsText "cloud" <:+: Style.raw.write (.dict r.1.item) := contains_text h
  have hrow : Style.raw.write (.dict r.1.item) <:+: r.1.line :=
    Style.write_infix _ (mem_of_get (get_item r) (fun h => nomatch h))
  exact Text.contains_iff.mpr (hitem.trans hrow)

/-- No text of the row holds a line end that `json.dumps` leaves as it is. -/
def Event.whole (e : Event) : Bool := (Value.dict e.row).all Loads.unbroken fun _ => true

theorem whole_iff {e : Event} : e.whole = true ↔ e.line.OneLine :=
  (Loads.oneLine_write (.dict e.row)).symm

/-! ### What a row was spent on -/

theorem textOr_ok {v : Value} (h : v = .null ∨ ∃ t, v = .str t) :
    ∃ t, textOr H v = .ok t := by
  rcases h with rfl | ⟨t, rfl⟩
  · exact ⟨[], rfl⟩
  · cases t with
    | nil => exact ⟨[], rfl⟩
    | cons c t => exact ⟨c :: t, rfl⟩

theorem countOr_ok {v : Value} (h : v = .null ∨ ∃ n, v = .int n) : ∃ n, countOr H v = .ok n := by
  rcases h with rfl | ⟨n, rfl⟩
  · exact ⟨0, rfl⟩
  · unfold countOr Value.or
    split
    · exact ⟨n, rfl⟩
    · exact ⟨0, rfl⟩

theorem countOr_int (n : ℤ) : countOr H (.int n) = .ok n := by
  unfold countOr Value.or
  split
  · rfl
  · next h =>
    obtain rfl : n = 0 := by simpa [Value.truthy] using h
    rfl

theorem dictOr_dict (d : Dict) : dictOr (.dict d) = .ok d := by
  unfold dictOr Value.or
  cases d with
  | nil => rfl
  | cons p d => rfl

theorem legOf_ok {it : Dict} (h : Readable it) : ∃ p, legOf H D it = .ok p := by
  obtain ⟨account, haccount⟩ := textOr_ok (H := H) (h.texts "cloudAccountId" (by decide))
  obtain ⟨model, hmodel⟩ := textOr_ok (H := H) (h.texts "cloudModel" (by decide))
  obtain ⟨kind, hkind⟩ := textOr_ok (H := H) (h.texts "errorKind" (by decide))
  obtain ⟨providerId, hprovider⟩ := textOr_ok (H := H) (h.texts "providerId" (by decide))
  obtain ⟨own, hown⟩ := textOr_ok (H := H) (h.texts "model" (by decide))
  unfold legOf
  rw [haccount, hmodel, hkind, hprovider, hown]
  dsimp only [bind, Except.bind, pure, Except.pure]
  split_ifs <;> exact ⟨_, rfl⟩

/-- The `upstreamType`, as both functions read it. -/
theorem upstream_ok {it : Dict} (h : Readable it) :
    ∃ t t', strOf H.I (it.get "upstreamType") = .ok t ∧
      strOf H.I ((it.get "upstreamType").or "llama") = .ok t' ∧
      (t = "cloud" ↔ it.get "upstreamType" = .str "cloud") ∧
      (t' = "cloud" ↔ it.get "upstreamType" = .str "cloud") := by
  rcases h.texts "upstreamType" (by decide) with hnull | ⟨t, ht⟩
  · rw [hnull]
    refine ⟨reprValue H.I .null, Text.of "llama", rfl, rfl, ?_, ?_⟩
    · exact iff_of_false (by rw [reprValue]; decide) (fun h => nomatch h)
    · exact iff_of_false (by decide) (fun h => nomatch h)
  · rw [ht]
    have hsame : ∀ t : Text, (t = Text.of "cloud" ↔ Value.str t = .str (Text.of "cloud")) :=
      fun t => ⟨fun h => by rw [h], fun h => Value.str.inj h⟩
    cases t with
    | nil =>
      refine ⟨[], Text.of "llama", rfl, rfl, hsame [], ?_⟩
      exact iff_of_false (by decide) (fun h => by cases h)
    | cons c t => exact ⟨c :: t, c :: t, rfl, rfl, hsame _, hsame _⟩

theorem usage_ok {it : Dict} (h : Readable it) : ∃ (u : Dict) (a b c d : ℤ),
    dictOr (it.get "usage") = .ok u ∧ countOr H (u.get "prompt") = .ok a ∧
    countOr H (u.get "completion") = .ok b ∧ countOr H (u.get "cacheRead") = .ok c ∧
    countOr H (u.get "cacheWrite") = .ok d := by
  rcases h.usage with hnull | ⟨u, hu, hcounts⟩
  · exact ⟨[], 0, 0, 0, 0, by rw [hnull]; rfl, rfl, rfl, rfl, rfl⟩
  · obtain ⟨a, ha⟩ := countOr_ok (H := H) (hcounts "prompt" (by decide))
    obtain ⟨b, hb⟩ := countOr_ok (H := H) (hcounts "completion" (by decide))
    obtain ⟨c, hc⟩ := countOr_ok (H := H) (hcounts "cacheRead" (by decide))
    obtain ⟨d, hd⟩ := countOr_ok (H := H) (hcounts "cacheWrite" (by decide))
    exact ⟨u, a, b, c, d, by rw [hu, dictOr_dict], ha, hb, hc, hd⟩

variable (H D) in
/-- What a row was spent on. -/
def spent (r : Row H) : Option Spent :=
  match cloudSpent H D r.1.item with
  | .ok o => o
  | .error _ => none

theorem cloudSpent_ok (r : Row H) : cloudSpent H D r.1.item = .ok (spent H D r) := by
  obtain ⟨t, t', ht, -, -, -⟩ := upstream_ok r.2.readable
  obtain ⟨p, hp⟩ := legOf_ok (D := D) r.2.readable
  obtain ⟨u, a, b, c, d, hu, ha, hb, hc, hd⟩ := usage_ok r.2.readable
  have hok : ∃ o, cloudSpent H D r.1.item = .ok o := by
    unfold cloudSpent
    rw [ht, hp, hu]
    dsimp only [bind, Except.bind, pure, Except.pure]
    rw [ha, hb, hc, hd]
    dsimp only
    split_ifs <;> exact ⟨_, rfl⟩
  obtain ⟨o, ho⟩ := hok
  rw [spent, ho]

/-- What is spent is spent on the cloud. -/
theorem cloud_of_spent {r : Row H} {s : Spent} (h : spent H D r = some s) :
    r.1.item.get "upstreamType" = .str "cloud" := by
  obtain ⟨t, t', ht, -, hcloud, -⟩ := upstream_ok r.2.readable
  have hread := cloudSpent_ok (D := D) r
  rw [h] at hread
  unfold cloudSpent at hread
  rw [ht] at hread
  dsimp only [bind, Except.bind, pure, Except.pure] at hread
  by_contra hno
  rw [if_pos (fun he => hno (hcloud.mp he))] at hread
  cases hread

/-! ### The lines of a row -/

/-- A reader of lines that passes over what has not the word, and over what is no JSON. -/
structure Passes (H : Host) {σ : Type} (f : σ → Text → Except Error σ) : Prop where
  word : ∀ b ln, ln.contains "\"finished\"" = false → f b ln = .ok b
  json : ∀ b ln e, Loads.loads H.toFloat H.limit H.nesting ln = .error e → f b ln = .ok b

theorem loads_line (r : Row H) :
    Loads.loads H.toFloat H.limit H.nesting r.1.line = .ok (.dict r.1.row) :=
  Loads.loads_write Loads.reads_raw r.2.back r.2.depth

/-- **A row is read as its line, or not at all.** -/
theorem foldlM_lines {σ : Type} {f : σ → Text → Except Error σ} (hf : Passes H f) (r : Row H)
    (b : σ) : (r.1.line ++ [Text.LF]).splitlines.foldlM f b =
      if r.1.whole && r.1.line.contains "\"finished\"" then f b r.1.line else .ok b := by
  by_cases hwhole : r.1.whole = true
  · rw [hwhole, Bool.true_and, Text.splitlines_line (whole_iff.mp hwhole) []]
    have hone : [r.1.line].foldlM f b = f b r.1.line := by
      rw [List.foldlM_cons]
      cases f b r.1.line <;> rfl
    split
    · exact hone
    · next hword => exact hone.trans (hf.word b _ (Bool.eq_false_iff.mpr hword))
  · rw [Bool.eq_false_iff.mpr hwhole, Bool.false_and, if_neg Bool.false_ne_true]
    -- the parts of a line that comes apart
    have hpart : ∀ ln ∈ (r.1.line ++ [Text.LF]).splitlines, ∀ b, f b ln = .ok b := by
      intro ln hln b
      by_cases hword : ln.contains "\"finished\"" = true
      · have hh : codePoint 'h' ∈ ln :=
          (Text.contains_iff.mp hword).subset (by decide)
        cases hloads : Loads.loads H.toFloat H.limit H.nesting ln with
        | error e => exact hf.json b ln e hloads
        | ok v =>
          have hbroken : ¬ (Style.raw.write (.dict r.1.row)).OneLine := fun h =>
            hwhole (whole_iff.mpr h)
          exact absurd hloads (Loads.torn hbroken hln hh)
      · exact hf.word b ln (Bool.eq_false_iff.mpr hword)
    generalize (r.1.line ++ [Text.LF]).splitlines = lns at hpart
    induction lns with
    | nil => rfl
    | cons ln lns ih =>
      rw [List.foldlM_cons, hpart ln List.mem_cons_self b]
      exact ih fun ln' h => hpart ln' (List.mem_cons_of_mem ln h)

/-- **A file is read row by row.** -/
theorem foldlM_file {σ : Type} {f : σ → Text → Except Error σ} (hf : Passes H f)
    {g : σ → Row H → σ}
    (hg : ∀ b r, r.1.whole = true → r.1.line.contains "\"finished\"" = true →
      f b r.1.line = .ok (g b r))
    (rows : List (Row H)) (b : σ) : (unlines (rows.map fun r => r.1.line)).splitlines.foldlM f b =
      .ok ((rows.filter fun r => r.1.whole && r.1.line.contains "\"finished\"").foldl g b) := by
  induction rows generalizing b with
  | nil => rfl
  | cons r rows ih =>
    have hcons := unlines_cons r.1.line (rows.map fun r => r.1.line) []
    rw [List.append_nil, List.append_nil] at hcons
    rw [List.map_cons, hcons, Text.splitlines_ended, List.foldlM_append, foldlM_lines hf,
      List.filter_cons]
    split
    · next h =>
      rw [Bool.and_eq_true] at h
      rw [hg b r h.1 h.2]
      exact ih _
    · exact ih b

/-! ### What is entered -/

/-- Whether a row is stamped at the credit of its account or behind it. -/
def sinceCredit (D : Data) (time : ℤ) (s : Spent) : Bool :=
  match Assoc.get D.credits s.account with
  | none => false
  | some asOf => asOf ≤ time

/-- What a step makes of a record. -/
def take (D : Data) (days : ℤ) (i : ℕ) (time : ℤ) (s : Spent) (record : SpendRecord) :
    SpendRecord :=
  let record := if sinceCredit D time s then record.addSinceCredit s else record
  if (i : ℤ) < days then record.add s else record

variable (H D) in
/-- A row that a step has found is entered under its account. -/
def enter (days : ℤ) (i : ℕ) (records : List (Text × SpendRecord)) (r : Row H) :
    List (Text × SpendRecord) :=
  match spent H D r with
  | none => records
  | some s => Assoc.set records s.account
      (take D days i r.1.time s ((Assoc.get records s.account).getD {}))

variable (H D) in
/-- The same for the panel. -/
def enterUsage (accounts : List (Text × AccountStats)) (r : Row H) :
    List (Text × AccountStats) :=
  match spent H D r with
  | none => accounts
  | some s => Assoc.set accounts s.account (((Assoc.get accounts s.account).getD {}).add s)

theorem spendLine_passes (days : ℤ) (i : ℕ) : Passes H (spendLine H D days i) where
  word b ln h := by
    rw [spendLine, h]
    rfl
  json b ln e h := by
    unfold spendLine
    rw [h]
    split <;> rfl

theorem usageLine_passes : Passes H (usageLine H D) where
  word b ln h := by
    rw [usageLine, h]
    rfl
  json b ln e h := by
    unfold usageLine
    rw [h]
    split <;> rfl

theorem spendLine_row (days : ℤ) (i : ℕ) (records : List (Text × SpendRecord)) (r : Row H)
    (hword : r.1.line.contains "\"finished\"" = true) :
    spendLine H D days i records r.1.line = .ok (enter H D days i records r) := by
  unfold spendLine
  rw [hword, Bool.not_true, Bool.false_or]
  split
  · next hcloud =>
    -- a row without the second word was not spent on the cloud
    rw [Bool.not_eq_true'] at hcloud
    cases hspent : spent H D r with
    | none => rw [enter, hspent]
    | some s =>
      rw [contains_cloud (cloud_of_spent hspent)] at hcloud
      cases hcloud
  · rw [loads_line]
    dsimp only
    rw [get_item, dictOr_dict]
    dsimp only [bind, Except.bind]
    rw [cloudSpent_ok]
    dsimp only
    cases hspent : spent H D r with
    | none => rw [enter, hspent]; rfl
    | some s =>
      rw [enter, hspent]
      dsimp only
      unfold take sinceCredit
      cases hcredit : Assoc.get D.credits s.account with
      | none => rfl
      | some asOf =>
        dsimp only
        rw [get_time, countOr_int]
        dsimp only [pure, Except.pure]
        simp only [decide_eq_true_eq]

theorem usageLine_row (accounts : List (Text × AccountStats)) (r : Row H)
    (hword : r.1.line.contains "\"finished\"" = true) :
    usageLine H D accounts r.1.line = .ok (enterUsage H D accounts r) := by
  obtain ⟨t, t', ht, ht', hcloud, hcloud'⟩ := upstream_ok r.2.readable
  obtain ⟨⟨account, model⟩, hp⟩ := legOf_ok (D := D) r.2.readable
  obtain ⟨u, a, b, c, d, hu, ha, hb, hc, hd⟩ := usage_ok r.2.readable
  have hspent := cloudSpent_ok (D := D) r
  unfold cloudSpent at hspent
  rw [ht, hp, hu] at hspent
  dsimp only [bind, Except.bind, pure, Except.pure] at hspent
  rw [ha, hb, hc, hd] at hspent
  dsimp only at hspent
  unfold usageLine
  rw [hword, Bool.not_true, if_neg Bool.false_ne_true, loads_line]
  dsimp only
  rw [get_item, dictOr_dict]
  dsimp only [bind, Except.bind, pure, Except.pure]
  rw [ht', hu]
  dsimp only
  rw [ha, hb]
  dsimp only
  rw [hp]
  dsimp only
  rw [hc, hd]
  dsimp only
  unfold enterUsage
  by_cases h : t = "cloud"
  · have h' : t' = "cloud" := hcloud'.mpr (hcloud.mp h)
    rw [if_neg (not_not.mpr h)] at hspent
    rw [if_pos h']
    by_cases hempty : account = []
    · rw [if_pos hempty] at hspent ⊢
      rw [← Except.ok.inj hspent]
    · rw [if_neg hempty] at hspent ⊢
      rw [← Except.ok.inj hspent]
  · have h' : t' ≠ "cloud" := fun he => h (hcloud.mpr (hcloud'.mp he))
    rw [if_pos h] at hspent
    rw [if_neg h', ← Except.ok.inj hspent]

/-! ### The loops -/

variable (H D)

/-- A row that the words let through, that stays one line, and that was spent on an account. -/
def seen (r : Row H) : Bool :=
  (r.1.whole && r.1.line.contains "\"finished\"") && (spent H D r).isSome

/-- Whether a row counts for the credit of its account. -/
def credited (r : Row H) : Bool := (spent H D r).any (sinceCredit D r.1.time)

variable (J : Journal H)

/-- The rows of a day, each with its place in the file. -/
def rowsAt (day : ℤ) : List (Row H × ℕ) := ((J day).getD []).zipIdx

/-- The rows that are counted of a day. -/
def held (day : ℤ) : List (Row H × ℕ) := (rowsAt H J day).filter fun p => seen H D p.1

/-- Those that are counted for a credit. -/
def heldSince (day : ℤ) : List (Row H × ℕ) := (held H D J day).filter fun p => credited H D p.1

/-- How many steps back the window has. -/
def windowSteps (days now : ℤ) : ℕ := min (reach D days now) days.toNat

variable {H D J}

theorem foldl_ignore {α σ : Type} {g : σ → α → σ} {p q : α → Bool}
    (h : ∀ b a, q a = false → g b a = b) (l : List α) (b : σ) :
    (l.filter fun a => p a && q a).foldl g b = (l.filter p).foldl g b := by
  induction l generalizing b with
  | nil => rfl
  | cons a l ih =>
    rw [List.filter_cons, List.filter_cons]
    cases hp : p a with
    | false => exact ih b
    | true =>
      cases hq : q a with
      | false =>
        rw [Bool.true_and, if_neg Bool.false_ne_true, if_pos rfl, List.foldl_cons, h b a hq, ih]
      | true => rw [Bool.true_and, if_pos rfl, if_pos rfl, List.foldl_cons, List.foldl_cons, ih]

/-- The file of a day is read as the rows that are held there. -/
theorem foldl_held {σ : Type} {g : σ → Row H → σ}
    (hg : ∀ b r, spent H D r = none → g b r = b) (rows : List (Row H)) (b : σ) :
    (rows.filter fun r => r.1.whole && r.1.line.contains "\"finished\"").foldl g b =
      ((rows.zipIdx.filter fun p => seen H D p.1).foldl (fun b p => g b p.1) b) := by
  have hmap : rows.zipIdx.map Prod.fst = rows := List.zipIdx_map_fst 0 rows
  have hseen := foldl_ignore (p := fun r : Row H => r.1.whole && r.1.line.contains "\"finished\"")
    (q := fun r => (spent H D r).isSome)
    (fun b r h => hg b r (Option.not_isSome_iff_eq_none.mp (Bool.eq_false_iff.mp h))) rows b
  rw [← hseen]
  conv_lhs => rw [← hmap]
  rw [List.filter_map, List.foldl_map]
  rfl

/-- **A loop over the days** enters what its steps find. -/
theorem loop_steps {σ : Type} {f : ℕ → σ → Text → Except Error σ} {g : ℕ → σ → Row H → σ}
    (hf : ∀ i, Passes H (f i))
    (hrow : ∀ i b r, r.1.line.contains "\"finished\"" = true → f i b r.1.line = .ok (g i b r))
    (hg : ∀ i b r, spent H D r = none → g i b r = b) (place : ℕ → ℤ) (n : ℕ) (b : σ) :
    (List.range n).foldlM (fun (b : σ) (i : ℕ) =>
      match J.file (place i) with
      | none => (.ok b : Except Error σ)
      | some text => text.splitlines.foldlM (f i) b) b =
    .ok ((steps place (held H D J) n).foldl
      (fun (b : σ) (p : ℕ × Row H × ℕ) => g p.1 b p.2.1) b) := by
  have hday : ∀ (b : σ), ∀ i ∈ List.range n, (match J.file (place i) with
      | none => (.ok b : Except Error σ)
      | some text => text.splitlines.foldlM (f i) b) =
      .ok ((held H D J (place i)).foldl (fun (b : σ) (p : Row H × ℕ) => g i b p.1) b) := by
    intro b i _
    unfold held rowsAt Journal.file
    cases J (place i) with
    | none => rfl
    | some rows =>
      have hread := foldlM_file (hf i) (g := g i) (fun b r _ => hrow i b r) rows b
      rw [foldl_held (hg i)] at hread
      exact hread
  rw [Except.foldlM_ok hday, steps, List.foldl_flatMap]
  simp only [List.foldl_map]

theorem enter_none (days : ℤ) (i : ℕ) (records : List (Text × SpendRecord)) (r : Row H)
    (h : spent H D r = none) : enter H D days i records r = records := by
  rw [enter, h]

theorem enterUsage_none (accounts : List (Text × AccountStats)) (r : Row H)
    (h : spent H D r = none) : enterUsage H D accounts r = accounts := by
  rw [enterUsage, h]

theorem spendRecords_eq (days now : ℤ) : spendRecords H D J.file days now =
    .ok ((steps (dayAt H now) (held H D J) (reach D days now)).foldl
      (fun records p => enter H D days p.1 records p.2.1) (D.credits.map fun c => (c.1, {}))) :=
  loop_steps (fun i => spendLine_passes days i)
    (fun i records r hword => spendLine_row days i records r hword)
    (fun i records r h => enter_none days i records r h) _ _ _

theorem usageStats_eq (days now : ℤ) : usageStats H D J.file days now =
    .ok ((steps (dayAt H now) (held H D J) (windowOf days).toNat).foldl
      (fun accounts p => enterUsage H D accounts p.2.1) []) :=
  loop_steps (f := fun _ => usageLine H D) (g := fun _ => enterUsage H D)
    (fun _ => usageLine_passes)
    (fun _ accounts r hword => usageLine_row accounts r hword)
    (fun _ accounts r h => enterUsage_none accounts r h) _ _ _

/-! ### The sums -/

/-- A record is the sum over the requests of the window, and over those since the credit. -/
structure Adds (r : SpendRecord) (window since : List Spent) : Prop where
  total : r.total = (window.map Spent.cost).sum
  requests : r.requests = window.length
  promptTokens : r.promptTokens = (window.map Spent.prompt).sum
  completionTokens : r.completionTokens = (window.map Spent.completion).sum
  unpriced : r.unpriced = window.countP fun s => !s.known
  byModel : r.byModel = Assoc.tally (window.map fun s => (s.model, s.cost, 1))
  sinceTotal : r.since.total = (since.map Spent.cost).sum
  sinceRequests : r.since.requests = since.length
  sinceUnpriced : r.since.unpriced = since.countP fun s => !s.known

theorem Adds.empty : Adds {} [] [] := ⟨rfl, rfl, rfl, rfl, rfl, rfl, rfl, rfl, rfl⟩

theorem tally_append {K M : Type} [DecidableEq K] [AddCommMonoid M] (l : List (K × M)) (p : K × M) :
    Assoc.tally (l ++ [p]) = Assoc.add (Assoc.tally l) p.1 p.2 := by
  rw [Assoc.tally, List.foldl_append]
  rfl

theorem countP_unknown (l : List Spent) (s : Spent) : (l ++ [s]).countP (fun s => !s.known) =
    l.countP (fun s => !s.known) + if s.known then 0 else 1 := by
  rw [List.countP_append, List.countP_singleton]
  cases s.known <;> rfl

theorem Adds.add {r : SpendRecord} {ws ss : List Spent} (h : Adds r ws ss) (s : Spent) :
    Adds (r.add s) (ws ++ [s]) ss where
  total := by rw [List.map_append, List.sum_append, ← h.total]; simp [SpendRecord.add]
  requests := by rw [List.length_append, ← h.requests]; rfl
  promptTokens := by
    rw [List.map_append, List.sum_append, ← h.promptTokens]; simp [SpendRecord.add]
  completionTokens := by
    rw [List.map_append, List.sum_append, ← h.completionTokens]; simp [SpendRecord.add]
  unpriced := by rw [countP_unknown, ← h.unpriced]; rfl
  byModel := by
    rw [List.map_append, List.map_singleton, tally_append, ← h.byModel]
    rfl
  sinceTotal := h.sinceTotal
  sinceRequests := h.sinceRequests
  sinceUnpriced := h.sinceUnpriced

theorem Adds.addSinceCredit {r : SpendRecord} {ws ss : List Spent} (h : Adds r ws ss) (s : Spent) :
    Adds (r.addSinceCredit s) ws (ss ++ [s]) where
  total := h.total
  requests := h.requests
  promptTokens := h.promptTokens
  completionTokens := h.completionTokens
  unpriced := h.unpriced
  byModel := h.byModel
  sinceTotal := by
    rw [List.map_append, List.sum_append, ← h.sinceTotal]; simp [SpendRecord.addSinceCredit]
  sinceRequests := by rw [List.length_append, ← h.sinceRequests]; rfl
  sinceUnpriced := by rw [countP_unknown, ← h.sinceUnpriced]; rfl

theorem Adds.take {r : SpendRecord} {ws ss : List Spent} (h : Adds r ws ss) (days : ℤ) (i : ℕ)
    (time : ℤ) (s : Spent) : Adds (take D days i time s r)
      (ws ++ if (i : ℤ) < days then [s] else [])
      (ss ++ if sinceCredit D time s then [s] else []) := by
  have hsince : Adds (if sinceCredit D time s then r.addSinceCredit s else r) ws
      (ss ++ if sinceCredit D time s then [s] else []) := by
    split
    · exact h.addSinceCredit s
    · rwa [List.append_nil]
  unfold Spend.take
  dsimp only
  generalize (if sinceCredit D time s then r.addSinceCredit s else r) = r' at hsince
  split
  · exact hsince.add s
  · rwa [List.append_nil]

/-- **The models of an account add up to its totals.** -/
theorem Adds.models {r : SpendRecord} {ws ss : List Spent} (h : Adds r ws ss) :
    (r.byModel.map Prod.snd).sum = (r.total, r.requests) := by
  rw [h.byModel, Assoc.sum_tally, h.total, h.requests, List.map_map]
  clear h
  induction ws with
  | nil => rfl
  | cons s ws ih =>
    rw [List.map_cons, List.sum_cons, ih, List.map_cons, List.sum_cons, List.length_cons]
    exact Prod.ext rfl (Nat.add_comm _ _)

/-- The same for the panel. -/
structure AddsUsage (r : AccountStats) (window : List Spent) : Prop where
  total : r.total = (window.map Spent.cost).sum
  requests : r.requests = window.length
  promptTokens : r.promptTokens = (window.map Spent.prompt).sum
  completionTokens : r.completionTokens = (window.map Spent.completion).sum
  byModel : r.byModel =
    Assoc.tally (window.map fun s => (s.model, s.cost, 1, s.prompt, s.completion))

theorem AddsUsage.empty : AddsUsage {} [] := ⟨rfl, rfl, rfl, rfl, rfl⟩

theorem AddsUsage.add {r : AccountStats} {ws : List Spent} (h : AddsUsage r ws) (s : Spent) :
    AddsUsage (r.add s) (ws ++ [s]) where
  total := by rw [List.map_append, List.sum_append, ← h.total]; simp [AccountStats.add]
  requests := by rw [List.length_append, ← h.requests]; rfl
  promptTokens := by
    rw [List.map_append, List.sum_append, ← h.promptTokens]; simp [AccountStats.add]
  completionTokens := by
    rw [List.map_append, List.sum_append, ← h.completionTokens]; simp [AccountStats.add]
  byModel := by
    rw [List.map_append, List.map_singleton, tally_append, ← h.byModel]
    rfl

theorem AddsUsage.models {r : AccountStats} {ws : List Spent} (h : AddsUsage r ws) :
    (r.byModel.map Prod.snd).sum = (r.total, r.requests, r.promptTokens, r.completionTokens) := by
  rw [h.byModel, Assoc.sum_tally, h.total, h.requests, h.promptTokens, h.completionTokens,
    List.map_map]
  clear h
  induction ws with
  | nil => rfl
  | cons s ws ih =>
    rw [List.map_cons, List.sum_cons, ih]
    simp only [List.map_cons, List.sum_cons, List.length_cons]
    exact Prod.ext rfl (Prod.ext (Nat.add_comm _ _) rfl)

/-! ### An account's share -/

variable (H D) in
/-- What some rows spent on an account. -/
def ofAccount (account : Text) (rows : List (Row H)) : List Spent :=
  (rows.filterMap (spent H D)).filter fun s => s.account = account

theorem ofAccount_append (account : Text) (rows rows' : List (Row H)) :
    ofAccount H D account (rows ++ rows') =
      ofAccount H D account rows ++ ofAccount H D account rows' := by
  rw [ofAccount, List.filterMap_append, List.filter_append]
  rfl

/-- One row more: it counts for its account only. -/
theorem ofAccount_snoc (account : Text) (rows : List (Row H)) (r : Row H) (c : Bool) :
    ofAccount H D account (rows ++ if c then [r] else []) = ofAccount H D account rows ++
      match spent H D r with
      | none => []
      | some s => if s.account = account then if c then [s] else [] else [] := by
  rw [ofAccount_append]
  congr 1
  cases c with
  | false => cases spent H D r <;> simp [ofAccount]
  | true =>
    cases hspent : spent H D r with
    | none => simp [ofAccount, hspent]
    | some s => by_cases h : s.account = account <;> simp [ofAccount, hspent, h]

theorem filter_snoc {α : Type} (p : α → Bool) (l : List α) (a : α) :
    (l ++ [a]).filter p = l.filter p ++ if p a then [a] else [] := by
  rw [List.filter_append, List.filter_singleton]
  cases p a <;> rfl

/-- **A record is the sum** over what the steps have found of its account. -/
theorem records_adds (days : ℤ) {init : List (Text × SpendRecord)}
    (hinit : ∀ a, (Assoc.get init a).getD {} = {}) (l : List (ℕ × Row H × ℕ)) (a : Text) :
    Adds ((Assoc.get (l.foldl (fun records p => enter H D days p.1 records p.2.1) init) a).getD {})
      (ofAccount H D a ((l.filter fun p => (p.1 : ℤ) < days).map fun p => p.2.1))
      (ofAccount H D a ((l.filter fun p => credited H D p.2.1).map fun p => p.2.1)) := by
  induction l using List.reverseRecOn with
  | nil =>
    rw [List.foldl_nil, hinit a]
    exact .empty
  | append_singleton l p ih =>
    obtain ⟨i, r, j⟩ := p
    have hone : ∀ c : Bool, (if c then [(i, r, j)] else []).map (fun p => p.2.1) =
        if c then [r] else [] := fun c => by cases c <;> rfl
    rw [List.foldl_append, List.foldl_cons, List.foldl_nil, filter_snoc, filter_snoc,
      List.map_append, List.map_append, hone, hone, ofAccount_snoc, ofAccount_snoc]
    generalize l.foldl (fun records p => enter H D days p.1 records p.2.1) init = records at ih ⊢
    unfold enter credited
    cases hspent : spent H D r with
    | none => rwa [List.append_nil, List.append_nil]
    | some s =>
      dsimp only [Option.any_some]
      rw [Assoc.get_set]
      by_cases ha : s.account = a
      · subst ha
        rw [if_pos rfl, if_pos rfl, if_pos rfl, Option.getD_some]
        have htake := ih.take (D := D) days i r.1.time s
        simp only [decide_eq_true_eq]
        exact htake
      · rw [if_neg (Ne.symm ha), if_neg ha, if_neg ha, List.append_nil, List.append_nil]
        exact ih

theorem usage_adds (l : List (ℕ × Row H × ℕ)) (a : Text) :
    AddsUsage ((Assoc.get (l.foldl (fun accounts p => enterUsage H D accounts p.2.1) []) a).getD {})
      (ofAccount H D a (l.map fun p => p.2.1)) := by
  induction l using List.reverseRecOn with
  | nil => exact .empty
  | append_singleton l p ih =>
    obtain ⟨i, r, j⟩ := p
    have hsnoc := ofAccount_snoc (D := D) a (l.map fun p => p.2.1) r true
    rw [if_pos rfl] at hsnoc
    rw [List.foldl_append, List.foldl_cons, List.foldl_nil, List.map_append, List.map_singleton,
      hsnoc]
    generalize l.foldl (fun accounts p => enterUsage H D accounts p.2.1) [] = accounts at ih ⊢
    unfold enterUsage
    cases hspent : spent H D r with
    | none => rwa [List.append_nil]
    | some s =>
      dsimp only
      rw [Assoc.get_set]
      by_cases ha : s.account = a
      · subst ha
        rw [if_pos rfl, if_pos rfl, if_pos rfl, Option.getD_some]
        exact ih.add s
      · rw [if_neg (Ne.symm ha), if_neg ha, List.append_nil]
        exact ih

/-! ### Which rows are counted -/

variable (H D) in
/-- The rows that the window's figures are the sums over, with the day of each. -/
def windowRows (J : Journal H) (days now : ℤ) : List (ℤ × Row H × ℕ) :=
  visits (dayAt H now) (held H D J) (windowSteps D days now)

variable (H D) in
/-- The rows that the figures since the credits are the sums over. -/
def sinceRows (J : Journal H) (days now : ℤ) : List (ℤ × Row H × ℕ) :=
  visits (dayAt H now) (heldSince H D J) (reach D days now)

theorem map_visits {α D : Type} (place : ℕ → D) (held : D → List α) (n : ℕ) :
    (visits place held n).map Prod.snd = (steps place held n).map Prod.snd := by
  rw [visits, List.map_map]
  rfl

variable {J : Journal H}

/-- **The board's figures** are sums over the rows that its steps find. -/
theorem window_counts (days now : ℤ) : ∃ records,
    spendRecords H D J.file days now = .ok records ∧ ∀ a,
      Adds ((Assoc.get records a).getD {})
        (ofAccount H D a ((windowRows H D J days now).map fun p => p.2.1))
        (ofAccount H D a ((sinceRows H D J days now).map fun p => p.2.1)) := by
  refine ⟨_, spendRecords_eq days now, fun a => ?_⟩
  have hinit : ∀ a,
      (Assoc.get (D.credits.map fun c => (c.1, ({} : SpendRecord))) a).getD {} = {} := by
    intro a
    induction D.credits with
    | nil => rfl
    | cons c credits ih =>
      rw [List.map_cons, Assoc.get_cons]
      split
      · rfl
      · exact ih
  have hadds := records_adds (H := H) (D := D) days hinit
    (steps (dayAt H now) (held H D J) (reach D days now)) a
  have hwindow : ((steps (dayAt H now) (held H D J) (reach D days now)).filter
      fun p => (p.1 : ℤ) < days).map (fun p => p.2.1) =
      (windowRows H D J days now).map fun p => p.2.1 := by
    have hlt : ∀ p : ℕ × Row H × ℕ, decide ((p.1 : ℤ) < days) = decide (p.1 < days.toNat) :=
      fun p => decide_eq_decide.mpr Int.lt_toNat.symm
    have hsnd := congrArg (List.map Prod.fst)
      (map_visits (dayAt H now) (held H D J) (windowSteps D days now))
    rw [List.map_map, List.map_map] at hsnd
    simp only [hlt]
    rw [filter_steps]
    exact hsnd.symm
  have hsince : ((steps (dayAt H now) (held H D J) (reach D days now)).filter
      fun p => credited H D p.2.1).map (fun p => p.2.1) =
      (sinceRows H D J days now).map fun p => p.2.1 := by
    have hsnd := congrArg (List.map Prod.fst)
      (map_visits (dayAt H now) (heldSince H D J) (reach D days now))
    rw [List.map_map, List.map_map] at hsnd
    have hheld : (steps (dayAt H now) (held H D J) (reach D days now)).filter
        (fun p => credited H D p.2.1) =
        steps (dayAt H now) (heldSince H D J) (reach D days now) :=
      filter_held (fun q : Row H × ℕ => credited H D q.1) _
    rw [hheld]
    exact hsnd.symm
  rw [hwindow, hsince] at hadds
  exact hadds

/-- **The panel's figures** are sums over the rows that its steps find. -/
theorem usage_counts (days now : ℤ) : ∃ accounts,
    usageStats H D J.file days now = .ok accounts ∧ ∀ a,
      AddsUsage ((Assoc.get accounts a).getD {}) (ofAccount H D a
        ((visits (dayAt H now) (held H D J) (windowOf days).toNat).map fun p => p.2.1)) := by
  refine ⟨_, usageStats_eq days now, fun a => ?_⟩
  have hsnd := congrArg (List.map Prod.fst)
    (map_visits (dayAt H now) (held H D J) (windowOf days).toNat)
  rw [List.map_map, List.map_map] at hsnd
  have hadds := usage_adds (H := H) (D := D)
    (steps (dayAt H now) (held H D J) (windowOf days).toNat) a
  have hrows : (fun p : ℤ × Row H × ℕ => p.2.1) = Prod.fst ∘ Prod.snd := rfl
  rw [hrows, hsnd]
  exact hadds

/-- A window of ten years at most has a step for each of its days. -/
theorem windowSteps_of_le {days : ℤ} (h : days ≤ 3650) (now : ℤ) :
    windowSteps D days now = days.toNat := by
  have hge : ∀ (l : List (Text × ℤ)) (m : ℤ), m ≤ l.foldl (fun m c =>
      max m ((now - c.2 * 10 ^ 6) / (86400 * 10 ^ 6) + 1)) m := by
    intro l
    induction l with
    | nil => exact fun m => le_rfl
    | cons c l ih => exact fun m => (le_max_left _ _).trans (ih _)
  exact min_eq_right (Int.toNat_le_toNat (le_min h (hge D.credits days)))

theorem windowOf_le (days : ℤ) : windowOf days ≤ 3650 :=
  max_le (by decide) ((min_le_right _ _).trans (by decide))

/-! ### Which rows are due -/

/-- The rows that are to be counted: of finished requests, of the kind that counts, and on the days
that count. -/
structure Due (J : Journal H) (counts : Row H → Bool) (inside : ℤ → Prop)
    (p : ℤ × Row H × ℕ) : Prop where
  row : p.2 ∈ rowsAt H J p.1
  finished : p.2.1.1.event = "finished"
  counted : counts p.2.1 = true
  inside : inside p.1

/-- A row whose line is read: it stays one line, and has the word in it. -/
def Read (r : Row H) : Prop := r.1.whole = true ∧ r.1.line.contains "\"finished\"" = true

/-- Where the figures are those of the rows that are due: the steps lead to each day of such a row,
and to it once, and what they read is due. -/
structure Clear (J : Journal H) (now : ℤ) (n : ℕ) (counts : Row H → Bool) (inside : ℤ → Prop) :
    Prop where
  reached : ∀ p, Due J counts inside p → ∃ i < n, dayAt H now i = p.1
  whole : ∀ p, Due J counts inside p → p.2.1.1.whole = true
  apart : ∀ i j, i < j → j < n → dayAt H now i = dayAt H now j →
    ∀ p ∈ rowsAt H J (dayAt H now i), Read p.1 → counts p.1 = false
  inside : ∀ i < n, ∀ p ∈ rowsAt H J (dayAt H now i), Read p.1 → counts p.1 = true →
    inside (dayAt H now i)
  finished : ∀ i < n, ∀ p ∈ rowsAt H J (dayAt H now i), Read p.1 → counts p.1 = true →
    p.1.1.event = "finished"

theorem nodup_rowsAt (day : ℤ) : (rowsAt H J day).Nodup := by
  refine List.Nodup.of_map Prod.snd ?_
  rw [rowsAt, List.zipIdx_map_snd]
  exact List.nodup_range'

theorem once_iff_clear {now : ℤ} {n : ℕ} {counts : Row H → Bool} {inside : ℤ → Prop}
    {held : ℤ → List (Row H × ℕ)} (hnodup : ∀ d, (held d).Nodup)
    (hmem : ∀ d p, p ∈ held d ↔ p ∈ rowsAt H J d ∧ Read p.1 ∧ counts p.1 = true) :
    Once (visits (dayAt H now) held n) (Due J counts inside) ↔ Clear J now n counts inside := by
  rw [once_iff hnodup]
  constructor
  · intro h
    refine ⟨fun p hp => (h.reached p.1 p.2 hp).2, fun p hp => ?_,
      fun i j hij hj heq p hp hread => ?_,
      fun i hi p hp hread hc => ?_, fun i hi p hp hread hc => ?_⟩
    · exact ((hmem _ _).mp (h.reached p.1 p.2 hp).1).2.1.1
    · refine Bool.eq_false_iff.mpr fun hc => ?_
      have hin := (hmem _ _).mpr ⟨hp, hread, hc⟩
      rw [h.apart i j hij hj heq] at hin
      exact absurd hin List.not_mem_nil
    · exact (h.only i hi p ((hmem _ _).mpr ⟨hp, hread, hc⟩)).inside
    · exact (h.only i hi p ((hmem _ _).mpr ⟨hp, hread, hc⟩)).finished
  · intro h
    refine ⟨fun d a hdue => ⟨?_, h.reached _ hdue⟩, fun i hi a ha => ?_, fun i j hij hj heq => ?_⟩
    · have hread : Read a.1 := ⟨h.whole _ hdue, contains_finished hdue.finished⟩
      exact (hmem _ _).mpr ⟨hdue.row, hread, hdue.counted⟩
    · obtain ⟨hrow, hread, hc⟩ := (hmem _ _).mp ha
      exact ⟨hrow, h.finished i hi a hrow hread hc, hc, h.inside i hi a hrow hread hc⟩
    · refine List.eq_nil_iff_forall_not_mem.mpr fun a ha => ?_
      obtain ⟨hrow, hread, hc⟩ := (hmem _ _).mp ha
      rw [h.apart i j hij hj heq a hrow hread] at hc
      cases hc

variable (H D) in
/-- A row that was spent on an account. -/
def onAccount (r : Row H) : Bool := (spent H D r).isSome

theorem mem_held {d : ℤ} {p : Row H × ℕ} : p ∈ held H D J d ↔
    p ∈ rowsAt H J d ∧ Read p.1 ∧ onAccount H D p.1 = true := by
  rw [held, List.mem_filter, seen, Bool.and_eq_true, Bool.and_eq_true]
  rfl

theorem mem_heldSince {d : ℤ} {p : Row H × ℕ} : p ∈ heldSince H D J d ↔
    p ∈ rowsAt H J d ∧ Read p.1 ∧ credited H D p.1 = true := by
  rw [heldSince, List.mem_filter, mem_held]
  constructor
  · exact fun ⟨⟨hrow, hread, _⟩, hc⟩ => ⟨hrow, hread, hc⟩
  · rintro ⟨hrow, hread, hc⟩
    refine ⟨⟨hrow, hread, ?_⟩, hc⟩
    unfold credited at hc
    unfold onAccount
    cases hspent : spent H D p.1 with
    | none => rw [hspent] at hc; cases hc
    | some s => rfl

variable (H) in
/-- The last so many days, today's with them. -/
def InWindow (days now day : ℤ) : Prop := dayAt H now 0 - days < day ∧ day ≤ dayAt H now 0

/-- The same figures. -/
structure Same (a : AccountStats) (r : SpendRecord) : Prop where
  total : a.total = r.total
  requests : a.requests = r.requests
  promptTokens : a.promptTokens = r.promptTokens
  completionTokens : a.completionTokens = r.completionTokens

/-- **What was spent is counted once**, if and only if the steps back lead to each day that counts
once and to no other that has rows, no row that is due comes apart, and no row of another event is
read. The figures are the sums over the rows that are found, the models of an account add up to
its totals, and the panel's figures are those of the board. -/
theorem counted_once (J : Journal H) (days now : ℤ) :
    (∃ records, cloudSpendSummary H D J.file days now = .ok (records.map fun r =>
        (r.1, r.2.shown H days (Assoc.get D.credits r.1) now)) ∧
      ∀ a, Adds ((Assoc.get records a).getD {})
          (ofAccount H D a ((windowRows H D J days now).map fun p => p.2.1))
          (ofAccount H D a ((sinceRows H D J days now).map fun p => p.2.1)) ∧
        (((Assoc.get records a).getD {}).byModel.map Prod.snd).sum =
          (((Assoc.get records a).getD {}).total, ((Assoc.get records a).getD {}).requests)) ∧
    (∃ records accounts, spendRecords H D J.file (windowOf days) now = .ok records ∧
      usageStats H D J.file days now = .ok accounts ∧
      ∀ a, Same ((Assoc.get accounts a).getD {}) ((Assoc.get records a).getD {}) ∧
        (((Assoc.get accounts a).getD {}).byModel.map Prod.snd).sum =
          (((Assoc.get accounts a).getD {}).total, ((Assoc.get accounts a).getD {}).requests,
            ((Assoc.get accounts a).getD {}).promptTokens,
            ((Assoc.get accounts a).getD {}).completionTokens)) ∧
    ((Once (windowRows H D J days now) (Due J (onAccount H D) (InWindow H days now)) ∧
        Once (sinceRows H D J days now) (Due J (credited H D) fun _ => True)) ↔
      Clear J now (windowSteps D days now) (onAccount H D) (InWindow H days now) ∧
        Clear J now (reach D days now) (credited H D) fun _ => True) := by
  refine ⟨?_, ?_, ?_⟩
  · obtain ⟨records, hrecords, hadds⟩ := window_counts (H := H) (D := D) (J := J) days now
    refine ⟨records, ?_, fun a => ⟨hadds a, (hadds a).models⟩⟩
    rw [cloudSpendSummary, hrecords]
    rfl
  · obtain ⟨records, hrecords, hadds⟩ :=
      window_counts (H := H) (D := D) (J := J) (windowOf days) now
    obtain ⟨accounts, haccounts, husage⟩ := usage_counts (H := H) (D := D) (J := J) days now
    refine ⟨records, accounts, hrecords, haccounts, fun a => ?_⟩
    have hboard := hadds a
    rw [windowRows, windowSteps_of_le (windowOf_le days)] at hboard
    have hpanel := husage a
    refine ⟨⟨hpanel.total.trans hboard.total.symm, hpanel.requests.trans hboard.requests.symm,
      hpanel.promptTokens.trans hboard.promptTokens.symm,
      hpanel.completionTokens.trans hboard.completionTokens.symm⟩, hpanel.models⟩
  · have hheld : ∀ d, (held H D J d).Nodup := fun d => (nodup_rowsAt d).filter _
    have hsince : ∀ d, (heldSince H D J d).Nodup := fun d => (hheld d).filter _
    exact and_congr (once_iff_clear hheld fun d p => mem_held)
      (once_iff_clear hsince fun d p => mem_heldSince)

/-! ### A clock that is never changed -/

/-! ### A day of 25 hours -/

/-- A host whose clock goes back an hour on the second day of all. -/
def clockBack : Host where
  I := .ascii
  toFloat _ := .nan
  limit := none
  nesting := 3
  zone t := if t < 90000 then 3600 else 0
  round4 q := q
  retentionDays := 30

/-- One request that went to an account. -/
def oneRequest : Event where
  time := 100000
  timeIso := []
  event := "finished"
  route := []
  requestId := []
  item := [("upstreamType", .str "cloud"), ("cloudAccountId", .str "a"), ("cloudModel", .str "m")]
  active := .list []
  queue := .list []
  fields := []

theorem oneRequest_written : oneRequest.Written clockBack where
  own := by decide
  readable := by
    refine ⟨?_, .inl rfl⟩
    simp only [List.forall_mem_cons]
    exact ⟨.inr ⟨_, rfl⟩, .inr ⟨_, rfl⟩, .inr ⟨_, rfl⟩, .inl rfl, .inl rfl, .inl rfl,
      fun _ h => nomatch h⟩
  back := by
    have hrow : Assoc.Distinct oneRequest.row := by unfold Assoc.Distinct; decide
    have hitem : Assoc.Distinct oneRequest.item := by unfold Assoc.Distinct; decide
    refine ⟨hrow, trivial, fun _ h => (nomatch h), trivial, trivial, trivial, trivial, trivial,
      trivial, trivial, trivial, trivial, ⟨hitem, ?_⟩, trivial, trivial, trivial, trivial, trivial⟩
    exact ⟨trivial, trivial, trivial, trivial, trivial, trivial, trivial⟩
  depth := by decide

def oneRow : Row clockBack := ⟨oneRequest, oneRequest_written⟩

/-- It stands in the file of its day. -/
def oneDay : Journal clockBack := fun day => if day = 1 then some [oneRow] else none

theorem oneRow_spent : ∃ s, spent clockBack {} oneRow = some s ∧ s.account = "a" :=
  ⟨_, rfl, rfl⟩

theorem oneRow_whole : oneRow.1.whole = true := by decide

/-- Half an hour before the end of the day of 25 hours, both steps lead to it. -/
def lateEvening : ℤ := 171000 * 10 ^ 6

theorem held_oneDay : held clockBack {} oneDay 1 = [(oneRow, 0)] := by
  obtain ⟨s, hs, -⟩ := oneRow_spent
  have hseen : seen clockBack {} oneRow = true := by
    rw [seen, oneRow_whole, contains_finished rfl, hs]
    rfl
  have hrows : rowsAt clockBack oneDay 1 = [(oneRow, 0)] := rfl
  rw [held, hrows, List.filter_cons, if_pos hseen, List.filter_nil]

theorem windowRows_oneDay :
    windowRows clockBack {} oneDay 2 lateEvening = [(1, oneRow, 0), (1, oneRow, 0)] := by
  have hfirst : dayAt clockBack lateEvening 0 = 1 := by decide
  have hsecond : dayAt clockBack lateEvening 1 = 1 := by decide
  have hsteps : windowSteps {} 2 lateEvening = 2 := by decide
  have hrange : List.range 2 = [0, 1] := rfl
  rw [windowRows, visits, hsteps, steps, hrange]
  simp only [List.flatMap_cons, List.flatMap_nil, hfirst, hsecond, held_oneDay, List.map_cons,
    List.map_nil, List.append_nil, List.cons_append, List.nil_append]

/-- What is made of each value, under its key. -/
theorem get_map_value {K V W : Type} [DecidableEq K] (f : K → V → W) (m : List (K × V)) (k : K) :
    Assoc.get (m.map fun p => (p.1, f p.1 p.2)) k = (Assoc.get m k).map (f k) := by
  induction m with
  | nil => rfl
  | cons p m ih =>
    rw [List.map_cons, Assoc.get_cons, Assoc.get_cons, ih]
    by_cases hp : p.1 = k
    · rw [if_pos hp, if_pos hp, hp, Option.map_some]
    · rw [if_neg hp, if_neg hp]

/-- **One request is counted as two** on the day on which the clock goes back. -/
theorem long_day_twice :
    (∃ shown, cloudSpendSummary clockBack {} oneDay.file 2 lateEvening = .ok shown ∧
      (Assoc.get shown "a").map Shown.requests = some 2) ∧
    ∀ p, Due oneDay (onAccount clockBack {}) (InWindow clockBack 2 lateEvening) p ↔
      p = (1, oneRow, 0) := by
  obtain ⟨s, hs, haccount⟩ := oneRow_spent
  constructor
  · obtain ⟨records, hrecords, hadds⟩ :=
      window_counts (H := clockBack) (D := {}) (J := oneDay) 2 lateEvening
    refine ⟨_, by rw [cloudSpendSummary, hrecords]; rfl, ?_⟩
    have hrequests := (hadds "a").requests
    have hshare : ofAccount clockBack {} "a" [oneRow, oneRow] = [s, s] := by
      simp only [ofAccount, List.filterMap_cons, hs, List.filterMap_nil, List.filter_cons,
        haccount, decide_true, if_true, List.filter_nil]
    rw [windowRows_oneDay] at hrequests
    simp only [List.map_cons, List.map_nil] at hrequests
    rw [hshare] at hrequests
    -- the account has an entry, since it has requests
    cases hget : Assoc.get records "a" with
    | none =>
      rw [hget] at hrequests
      cases hrequests
    | some r =>
      rw [hget, Option.getD_some] at hrequests
      rw [get_map_value (fun a r => SpendRecord.shown clockBack r 2
        (Assoc.get (Data.credits {}) a) lateEvening), hget]
      exact congrArg some hrequests
  · rintro ⟨day, r, j⟩
    constructor
    · intro h
      have hrow := h.row
      unfold rowsAt oneDay at hrow
      dsimp only at hrow
      by_cases hday : day = 1
      · rw [if_pos hday] at hrow
        obtain rfl := hday
        rw [List.mem_singleton.mp hrow]
      · rw [if_neg hday] at hrow
        cases hrow
    · rintro h
      rw [h]
      have hcounted : onAccount clockBack {} oneRow = true := by
        rw [onAccount, hs]
        rfl
      exact ⟨List.mem_singleton.mpr rfl, rfl, hcounted, by unfold InWindow; decide⟩

end Spend
