import Caravan.Framework.Assoc
import Caravan.Framework.Cursor
import Caravan.Python.Text
import Mathlib.Data.Rat.Floor

/-!
# The machines, second by second

`HostTelemetry` keeps the rows of each machine with a scout, ten minutes of them by that machine's
own clock; a board holds a copy and says, as a text, the stamp of the newest row it holds of each
(`hostsHeld`). The text is read as whole seconds (`held`), so a row may be sent again, and
`mergeHostRows` passes it over.

* `polled` — where no machine's name has a comma or begins with a blank, what the board holds after
  a poll is what a board that holds nothing would be sent;
* `Topped` — why: a copy from which rows are missing at its end only.
-/

namespace HostRows

open Python Cursor

variable {β : Type}

/-! ### The rows -/

/-- A second of a machine. -/
structure Row (β : Type) where
  t : ℚ
  reading : β

/-- `{id: rows}` -/
abbrev Machines (β : Type) := List (Text × List (Row β))

/-- `RETENTION`, and the page's `retention`. -/
def RETENTION : ℚ := 600

/-- The stamp of the last row, zero where there is none. -/
def newest (rows : List (Row β)) : ℚ := (rows.getLast?.map Row.t).getD 0

/-- A row of the scout's answer. -/
def add (rows : List (Row β)) (row : Row β) : List (Row β) :=
  if rows.isEmpty || newest rows < row.t then rows ++ [row] else rows

/-- `_pull`, once the scout has answered. -/
def pull (rows answer : List (Row β)) : List (Row β) :=
  let rows := answer.foldl add rows
  rows.dropWhile fun r => r.t < newest rows - RETENTION

/-- `since` -/
def since (held : List (Text × ℤ)) (all : Machines β) : Machines β :=
  (all.map fun p => (p.1, after Row.t ((Assoc.get held p.1).getD 0 : ℚ) p.2)).filter
    fun p => !p.2.isEmpty

/-- `mergeHostRows`, one machine. -/
def mergeRows (old rows : List (Row β)) : List (Row β) :=
  let joined := old ++ after Row.t (newest old) rows
  fromFirst (fun r => newest joined - RETENTION ≤ r.t) joined

/-- `mergeHostRows` -/
def mergeHostRows (old add : Machines β) : Machines β :=
  add.foldl (fun out p => Assoc.set out p.1 (mergeRows ((Assoc.get out p.1).getD []) p.2)) old

/-! ### What the board says it holds -/

/-- The text of a number in JavaScript, and `float` of a text, where it is a finite number. -/
structure Numbers where
  text : ℚ → Text
  float : Text → Option ℚ

def comma : CodePoint := codePoint ','

def colon : CodePoint := codePoint ':'

/-- A number that both sides have: its text is read back, and has no comma, colon or blank. -/
structure Numbers.Plain (N : Numbers) (t : ℚ) : Prop where
  back : N.float (N.text t) = some t
  comma : comma ∉ N.text t
  colon : colon ∉ N.text t
  solid : ∀ c ∈ N.text t, isSpace c = false

variable (N : Numbers)

/-- `hostsHeld` -/
def hostsHeld (hosts : Machines β) : Text :=
  [comma].intercalate (hosts.filterMap fun p =>
    p.2.getLast?.map fun row => p.1 ++ colon :: N.text row.t)

/-- `int` of a finite number. -/
def truncate (q : ℚ) : ℤ := if 0 ≤ q then ⌊q⌋ else ⌈q⌉

/-- The second of a machine's last row. -/
def second (_ : Text) (rows : List (Row β)) : Option ℤ :=
  rows.getLast?.map fun row => truncate row.t

/-- `held`, one part: what stands before the last colon, and the number behind it. -/
def heldPart (held : List (Text × ℤ)) (part : Text) : List (Text × ℤ) :=
  let part := part.strip
  let hostId := (part.rdropWhile (· ≠ colon)).dropLast
  if hostId = [] then held
  else match N.float (part.rtakeWhile (· ≠ colon)) with
    | none => held
    | some t => Assoc.set held hostId (truncate t)

/-- `held` -/
def held (raw : Text) : List (Text × ℤ) := (raw.splitOn comma).foldl (heldPart N) []

/-- A name that stands in the text as it is. -/
structure Named (id : Text) : Prop where
  ne_nil : id ≠ []
  comma : comma ∉ id
  flush : id.Flush

/-- The rows that there are have stamps that both sides have, and their machines names. -/
def Legible (all : Machines β) : Prop :=
  ∀ id rows, Assoc.get all id = some rows → rows ≠ [] → Named id ∧ ∀ r ∈ rows, N.Plain r.t

section Text

variable {N}

/-- A part is read as its name and its number. -/
theorem heldPart_named {id : Text} {t : ℚ} (hid : Named id) (ht : N.Plain t)
    (held : List (Text × ℤ)) :
    heldPart N held (id ++ colon :: N.text t) = Assoc.set held id (truncate t) := by
  have hstrip : Text.strip (id ++ colon :: N.text t) = id ++ colon :: N.text t := by
    have hflush : Text.Flush (id ++ colon :: N.text t) := by
      obtain ⟨c, rest, rfl⟩ := List.exists_cons_of_ne_nil hid.ne_nil
      exact hid.flush
    rw [Text.strip, hflush.lstrip, Text.rstrip, List.rdropWhile_eq_self_iff]
    intro hne
    have hlast : (id ++ colon :: N.text t).getLast hne ∈ colon :: N.text t := by
      rw [List.getLast_append_of_ne_nil _ (List.cons_ne_nil _ _)]
      exact List.getLast_mem _
    rcases List.mem_cons.mp hlast with hcolon | hin
    · rw [hcolon]
      decide
    · rw [ht.solid _ hin]
      exact Bool.false_ne_true
  have hnot : ∀ c ∈ (N.text t).reverse, decide (c ≠ colon) = true := by
    intro c hc
    exact decide_eq_true fun h => ht.colon (h ▸ List.mem_reverse.mp hc)
  have hreverse : (id ++ colon :: N.text t).reverse =
      (N.text t).reverse ++ colon :: id.reverse := by
    rw [List.reverse_append, List.reverse_cons, List.append_assoc]
    rfl
  have hname : (id ++ colon :: N.text t).rdropWhile (· ≠ colon) = id ++ [colon] := by
    rw [List.rdropWhile, hreverse, List.dropWhile_append_of_pos hnot,
      List.dropWhile_cons_of_neg (by simp), List.reverse_cons, List.reverse_reverse]
  have hnumber : (id ++ colon :: N.text t).rtakeWhile (· ≠ colon) = N.text t := by
    rw [List.rtakeWhile, hreverse, List.takeWhile_append_of_pos hnot,
      List.takeWhile_cons_of_neg (by simp), List.append_nil, List.reverse_reverse]
  rw [heldPart, hstrip, hname, hnumber, List.dropLast_concat, if_neg hid.ne_nil, ht.back]

/-- What the text lists has names and stamps that can be read. -/
def Listed (hosts : Machines β) : Prop :=
  ∀ p ∈ hosts, ∀ row, p.2.getLast? = some row → Named p.1 ∧ N.Plain row.t

theorem listed_of_legible {hosts : Machines β} (hdistinct : Assoc.Distinct hosts)
    (h : Legible N hosts) : Listed (N := N) hosts := by
  intro p hp row hrow
  have hin := List.mem_of_getLast? hrow
  obtain ⟨hname, hplain⟩ := h p.1 p.2 (hdistinct.mem_iff_get.mp hp) (List.ne_nil_of_mem hin)
  exact ⟨hname, hplain row hin⟩

/-- The parts of the text, one after the other. -/
theorem foldl_heldPart {hosts : Machines β} (h : Listed (N := N) hosts)
    (held : List (Text × ℤ)) :
    (hosts.filterMap fun p => p.2.getLast?.map fun row =>
        p.1 ++ colon :: N.text row.t).foldl (heldPart N) held =
      (hosts.filterMap fun p => (second p.1 p.2).map fun t => (p.1, t)).foldl
        (fun held e => Assoc.set held e.1 e.2) held := by
  induction hosts generalizing held with
  | nil => rfl
  | cons p hosts ih =>
    have ih := ih (fun q hq => h q (List.mem_cons_of_mem _ hq))
    rw [List.filterMap_cons, List.filterMap_cons, second]
    cases hrow : p.2.getLast? with
    | none => exact ih held
    | some row =>
      obtain ⟨hname, hplain⟩ := h p List.mem_cons_self row hrow
      rw [Option.map_some, Option.map_some, Option.map_some]
      dsimp only
      rw [List.foldl_cons, List.foldl_cons, heldPart_named hname hplain, ih]

theorem held_listed {hosts : Machines β} (h : Listed (N := N) hosts) :
    held N (hostsHeld N hosts) =
      (hosts.filterMap fun p => (second p.1 p.2).map fun t => (p.1, t)).foldl
        (fun held e => Assoc.set held e.1 e.2) [] := by
  rw [← foldl_heldPart h, held, hostsHeld]
  by_cases hnone : (hosts.filterMap fun p =>
      p.2.getLast?.map fun row => p.1 ++ colon :: N.text row.t) = []
  · rw [hnone]
    rfl
  · rw [List.splitOn_intercalate _ _ hnone]
    intro part hpart
    obtain ⟨p, hp, hrow⟩ := List.mem_filterMap.mp hpart
    obtain ⟨row, hlast, rfl⟩ := Option.map_eq_some_iff.mp hrow
    obtain ⟨hname, hplain⟩ := h p hp row hlast
    rw [List.mem_append, List.mem_cons]
    rintro (hin | heq | hin)
    · exact hname.comma hin
    · exact absurd heq (by decide)
    · exact hplain.comma hin

/-- What is read is the whole seconds of what was said. -/
theorem held_hostsHeld {hosts : Machines β} (hdistinct : Assoc.Distinct hosts)
    (hlegible : Legible N hosts) (id : Text) :
    Assoc.get (held N (hostsHeld N hosts)) id = (Assoc.get hosts id).bind (second id) := by
  rw [held_listed (listed_of_legible hdistinct hlegible),
    Assoc.get_foldl_set (hdistinct.filterMap second), Assoc.get_filterMap hdistinct second]
  exact Option.or_none

end Text

/-! ### The rows of one machine -/

section Rows

variable {rows more : List (Row β)}

theorem newest_concat (rows : List (Row β)) (row : Row β) : newest (rows ++ [row]) = row.t := by
  rw [newest, List.getLast?_concat]
  rfl

theorem newest_append (rows : List (Row β)) (hmore : more ≠ []) :
    newest (rows ++ more) = newest more := by
  obtain rfl | ⟨more, row, rfl⟩ := List.eq_nil_or_concat' more
  · exact absurd rfl hmore
  · rw [← List.append_assoc, newest_concat, newest_concat]

theorem newest_mem (h : rows ≠ []) : ∃ r ∈ rows, r.t = newest rows := by
  obtain rfl | ⟨rows, row, rfl⟩ := List.eq_nil_or_concat' rows
  · exact absurd rfl h
  · exact ⟨row, List.mem_append_right _ (List.mem_singleton_self _), (newest_concat rows row).symm⟩

theorem le_newest (h : Ordered Row.t rows) : ∀ r ∈ rows, r.t ≤ newest rows := by
  obtain rfl | ⟨rows, row, rfl⟩ := List.eq_nil_or_concat' rows
  · exact fun _ hr => nomatch hr
  · intro r hr
    rw [newest_concat]
    rcases List.mem_append.mp hr with hr | hr
    · exact (List.pairwise_append.mp h).2.2 r hr row (List.mem_singleton_self _)
    · rw [List.mem_singleton.mp hr]

/-- A part of the rows with the last one among them. -/
theorem newest_filter {p : Row β → Bool} (h : ∀ r, r.t = newest rows → p r = true) :
    newest (rows.filter p) = newest rows := by
  obtain rfl | ⟨rows, row, rfl⟩ := List.eq_nil_or_concat' rows
  · rfl
  · have hrow : p row = true := h row (newest_concat rows row).symm
    rw [List.filter_append, List.filter_cons_of_pos hrow, List.filter_nil, newest_concat,
      newest_concat]

/-- Rows in order, of the last ten minutes. -/
structure Trimmed (rows : List (Row β)) : Prop where
  ordered : Ordered Row.t rows
  bound : ∀ r ∈ rows, newest rows - RETENTION ≤ r.t

theorem trimmed_kept (h : Ordered Row.t rows) :
    Trimmed (kept Row.t (newest rows - RETENTION) rows) ∧
      newest (kept Row.t (newest rows - RETENTION) rows) = newest rows := by
  have hnewest : newest (kept Row.t (newest rows - RETENTION) rows) = newest rows := by
    refine newest_filter fun r hr => decide_eq_true ?_
    rw [hr]
    exact sub_le_self _ (by decide +kernel)
  refine ⟨⟨h.sublist List.filter_sublist, fun r hr => ?_⟩, hnewest⟩
  rw [hnewest]
  exact (mem_kept.mp hr).2

/-- What an answer adds is newer than what there is. -/
theorem foldl_add (rows answer : List (Row β)) (h : Ordered Row.t rows) :
    ∃ more, answer.foldl add rows = rows ++ more ∧ Ordered Row.t (rows ++ more) ∧
      (rows ≠ [] → ∀ r ∈ more, newest rows < r.t) := by
  induction answer generalizing rows with
  | nil => exact ⟨[], (List.append_nil _).symm, by rwa [List.append_nil], fun _ _ hr => nomatch hr⟩
  | cons row answer ih =>
    rw [List.foldl_cons, add]
    split
    · next hnew =>
      have hnewer : rows ≠ [] → newest rows < row.t := fun hne => by
        rcases Bool.or_eq_true_iff.mp hnew with hempty | hlt
        · exact absurd (List.isEmpty_iff.mp hempty) hne
        · exact of_decide_eq_true hlt
      have hrow : Ordered Row.t (rows ++ [row]) := by
        refine h.append (List.pairwise_singleton _ _) fun r hr r' hr' => ?_
        rw [List.mem_singleton.mp hr']
        exact (le_newest h r hr).trans (hnewer (List.ne_nil_of_mem hr)).le
      obtain ⟨more, heq, hordered, hmore⟩ := ih (rows ++ [row]) hrow
      refine ⟨row :: more, ?_, ?_, fun hne r hr => ?_⟩
      · rw [heq, List.append_assoc]
        rfl
      · rwa [List.append_assoc] at hordered
      · rcases List.mem_cons.mp hr with rfl | hr
        · exact hnewer hne
        · have hlater := hmore (by simp) r hr
          rw [newest_concat] at hlater
          exact (hnewer hne).trans hlater
    · exact ih rows h

/-! ### A copy -/

/-- A copy from which rows are missing at its end, and which has rows too many at its front. -/
structure Ahead (rows held : List (Row β)) : Prop where
  positive : 0 < newest held
  behind : newest held ≤ newest rows
  trimmed : Trimmed held
  copies : Copies Row.t (newest rows - RETENTION) (newest held) held (after Row.t 0 rows)

/-- What a board holds of a machine: nothing yet, or such a copy. -/
structure Topped (rows held : List (Row β)) : Prop where
  trimmed : Trimmed rows
  holds : held = [] ∨ Ahead rows held

variable {held : List (Row β)}

theorem after_append {c : ℚ} (rows more : List (Row β)) :
    after Row.t c (rows ++ more) = after Row.t c rows ++ after Row.t c more :=
  List.filter_append ..

/-- **A pull** leaves the copy one. -/
theorem Topped.pull (h : Topped rows held) (answer : List (Row β)) :
    Topped (HostRows.pull rows answer) held := by
  obtain ⟨more, heq, hordered, hmore⟩ := foldl_add rows answer h.trimmed.ordered
  have hpull : HostRows.pull rows answer =
      kept Row.t (newest (rows ++ more) - RETENTION) (rows ++ more) := by
    rw [HostRows.pull, heq]
    exact hordered.dropWhile _
  obtain ⟨htrimmed, hnewest⟩ := trimmed_kept hordered
  rw [hpull]
  refine ⟨htrimmed, h.holds.imp_right fun hahead => ?_⟩
  have hne : rows ≠ [] := by
    rintro rfl
    exact absurd (hahead.positive.trans_le hahead.behind) (lt_irrefl _)
  have hgrows : newest rows ≤ newest (rows ++ more) := by
    obtain ⟨r, hr, hlast⟩ := newest_mem hne
    rw [← hlast]
    exact le_newest hordered r (List.mem_append_left _ hr)
  refine ⟨hahead.positive, ?_, hahead.trimmed, ?_⟩
  · rw [hnewest]
    exact hahead.behind.trans hgrows
  · rw [hnewest, ← kept_after, after_append]
    refine ((hahead.copies.later (sub_le_sub_right hgrows _)).append fun r hr => ?_).cut
    exact hahead.behind.trans_lt (hmore hne r (mem_after.mp hr).1)

/-- The rows that are sent to a board that holds nothing, as a copy. -/
theorem topped_whole (h : Trimmed rows) : Topped rows (after Row.t 0 rows) := by
  refine ⟨h, ?_⟩
  by_cases hempty : after Row.t 0 rows = []
  · exact .inl hempty
  · obtain ⟨r, hr⟩ := List.exists_mem_of_ne_nil _ hempty
    obtain ⟨hin, hpos⟩ := mem_after.mp hr
    have hlast : 0 < newest rows := hpos.trans_le (le_newest h.ordered r hin)
    have hnewest : newest (after Row.t 0 rows) = newest rows :=
      newest_filter fun r hr => decide_eq_true (by rwa [hr])
    refine .inr ⟨by rwa [hnewest], hnewest.le, ⟨h.ordered.sublist List.filter_sublist, ?_⟩, ?_⟩
    · intro r hr
      rw [hnewest]
      exact h.bound r (mem_after.mp hr).1
    · refine copies_whole rfl fun r hr => ?_
      rw [hnewest]
      exact le_newest h.ordered r (mem_after.mp hr).1

/-- **Merging** what is newer than the last whole second of the copy makes the copy whole. -/
theorem Topped.merge (h : Topped rows held) :
    mergeRows held (after Row.t (⌊newest held⌋ : ℚ) rows) = after Row.t 0 rows := by
  have hnonneg : 0 ≤ newest held := by
    rcases h.holds with rfl | hahead
    · exact le_rfl
    · exact hahead.positive.le
  have hsent : after Row.t (newest held) (after Row.t (⌊newest held⌋ : ℚ) rows) =
      after Row.t (newest held) (after Row.t 0 rows) := by
    rw [after_after (Int.floor_le _), after_after hnonneg]
  have hbound : kept Row.t (newest rows - RETENTION) (after Row.t 0 rows) = after Row.t 0 rows :=
    kept_eq_self fun r hr => h.trimmed.bound r (mem_after.mp hr).1
  rw [mergeRows, hsent]
  by_cases hjoined : held ++ after Row.t (newest held) (after Row.t 0 rows) = []
  · -- nothing is held, and nothing comes
    obtain ⟨rfl, hnone⟩ := List.append_eq_nil_iff.mp hjoined
    rw [hjoined]
    rw [show newest ([] : List (Row β)) = 0 from rfl, after_after le_rfl] at hnone
    exact hnone.symm
  · have htop : kept Row.t (newest rows - RETENTION)
        (held ++ after Row.t (newest held) (after Row.t 0 rows)) =
          kept Row.t (newest rows - RETENTION) (after Row.t 0 rows) := by
      have hordered : Ordered Row.t (after Row.t 0 rows) :=
        h.trimmed.ordered.sublist List.filter_sublist
      rcases h.holds with rfl | hahead
      · rw [List.nil_append, show newest ([] : List (Row β)) = 0 from rfl, after_after le_rfl]
      · exact hahead.copies.top hordered
    have hnewest : newest (held ++ after Row.t (newest held) (after Row.t 0 rows)) =
        newest rows := by
      rw [after_after hnonneg] at hjoined ⊢
      by_cases hnew : after Row.t (newest held) rows = []
      · -- the last row is held already
        rw [hnew, List.append_nil] at hjoined ⊢
        rcases h.holds with rfl | hahead
        · exact absurd rfl hjoined
        · refine le_antisymm hahead.behind ?_
          have hne : rows ≠ [] := by
            rintro rfl
            exact absurd (hahead.positive.trans_le hahead.behind) (lt_irrefl _)
          obtain ⟨r, hr, hlast⟩ := newest_mem hne
          rw [← hlast]
          by_contra hlt
          exact List.ne_nil_of_mem (mem_after.mpr ⟨hr, not_le.mp hlt⟩) hnew
      · rw [newest_append _ hnew]
        obtain ⟨r, hr⟩ := List.exists_mem_of_ne_nil _ hnew
        obtain ⟨hin, hlt⟩ := mem_after.mp hr
        refine newest_filter fun r' hr' => decide_eq_true ?_
        rw [hr']
        exact hlt.trans_le (le_newest h.trimmed.ordered r hin)
    have hordered : Ordered Row.t (held ++ after Row.t (newest held) (after Row.t 0 rows)) := by
      have hrows : Ordered Row.t (after Row.t (newest held) (after Row.t 0 rows)) :=
        h.trimmed.ordered.sublist (List.filter_sublist.trans List.filter_sublist)
      rcases h.holds with rfl | hahead
      · exact hrows
      · refine hahead.trimmed.ordered.append hrows fun r hr r' hr' => ?_
        exact (le_newest hahead.trimmed.ordered r hr).trans (mem_after.mp hr').2.le
    rw [hnewest, hordered.fromFirst, htop, hbound]
    obtain ⟨r, hr, hlast⟩ := newest_mem hjoined
    refine ⟨r, hr, ?_⟩
    rw [hlast, hnewest]
    exact sub_le_self _ (by decide +kernel)

/-- A poll that brings nothing of a machine. -/
theorem Topped.merge_nil (h : Topped rows held)
    (hnone : after Row.t (⌊newest held⌋ : ℚ) rows = []) : held = after Row.t 0 rows := by
  have hmerge := h.merge
  rw [hnone, mergeRows, show after Row.t (newest held) ([] : List (Row β)) = [] from rfl,
    List.append_nil] at hmerge
  rw [← hmerge]
  rcases h.holds with rfl | hahead
  · rfl
  · have hne : held ≠ [] := by
      rintro rfl
      exact absurd hahead.positive (lt_irrefl _)
    obtain ⟨r, hr, -⟩ := newest_mem hne
    rw [hahead.trimmed.ordered.fromFirst ⟨r, hr, hahead.trimmed.bound r hr⟩]
    exact (kept_eq_self hahead.trimmed.bound).symm

end Rows

/-! ### All machines -/

section Machines

variable {N} {all page : Machines β}

/-- What is sent of one machine. -/
def sent (held : List (Text × ℤ)) (id : Text) (rows : List (Row β)) : Option (List (Row β)) :=
  let new := after Row.t ((Assoc.get held id).getD 0 : ℚ) rows
  if new.isEmpty then none else some new

theorem since_eq (held : List (Text × ℤ)) (all : Machines β) :
    since held all = all.filterMap fun p => (sent held p.1 p.2).map fun rows => (p.1, rows) := by
  induction all with
  | nil => rfl
  | cons p all ih =>
    rw [List.filterMap_cons, ← ih, since, List.map_cons, List.filter_cons, sent]
    cases (after Row.t ((Assoc.get held p.1).getD 0 : ℚ) p.2).isEmpty <;> rfl

theorem get_since (hall : Assoc.Distinct all) (held : List (Text × ℤ)) (id : Text) :
    Assoc.get (since held all) id = (Assoc.get all id).bind (sent held id) := by
  rw [since_eq, Assoc.get_filterMap hall (sent held)]

theorem distinct_since (hall : Assoc.Distinct all) (held : List (Text × ℤ)) :
    Assoc.Distinct (since held all) := by
  rw [since_eq]
  exact hall.filterMap (sent held)

theorem get_merge {new : Machines β} (hnew : Assoc.Distinct new) (old : Machines β) (id : Text) :
    Assoc.get (mergeHostRows old new) id = match Assoc.get new id with
      | none => Assoc.get old id
      | some rows => some (mergeRows ((Assoc.get old id).getD []) rows) := by
  induction new generalizing old with
  | nil => rfl
  | cons p new ih =>
    have hp : p.1 ∉ new.map Prod.fst ∧ (new.map Prod.fst).Nodup := List.nodup_cons.mp hnew
    have ih := ih hp.2 (Assoc.set old p.1 (mergeRows ((Assoc.get old p.1).getD []) p.2))
    rw [mergeHostRows, List.foldl_cons, ← mergeHostRows, ih, Assoc.get_set, Assoc.get_cons]
    by_cases hid : id = p.1
    · -- no later entry is this machine's
      have hnone : Assoc.get new id = none := by
        rw [Option.eq_none_iff_forall_ne_some]
        intro rows hrows
        exact hp.1 (List.mem_map.mpr ⟨_, Assoc.mem_of_get hrows, hid⟩)
      rw [hnone, if_pos hid, if_pos hid.symm, ← hid]
    · rw [if_neg hid, if_neg (Ne.symm hid)]

theorem distinct_merge (new : Machines β) {old : Machines β} (hold : Assoc.Distinct old) :
    Assoc.Distinct (mergeHostRows old new) := by
  induction new generalizing old with
  | nil => exact hold
  | cons p new ih => exact ih (hold.set _ _)

/-- The rows of a machine. -/
def rowsOf (all : Machines β) (id : Text) : List (Row β) := (Assoc.get all id).getD []

/-- The rows that there are: of each machine the last ten minutes, in order. -/
structure Sound (N : Numbers) (all : Machines β) : Prop where
  distinct : Assoc.Distinct all
  legible : Legible N all
  trimmed : ∀ id, Trimmed (rowsOf all id)

/-- And what a board holds of them. -/
structure Board (N : Numbers) (all page : Machines β) : Prop where
  sound : Sound N all
  distinct : Assoc.Distinct page
  legible : Legible N page
  topped : ∀ id, Topped (rowsOf all id) (rowsOf page id)

theorem rowsOf_since (hall : Assoc.Distinct all) (held : List (Text × ℤ)) (id : Text) :
    rowsOf (since held all) id = after Row.t ((Assoc.get held id).getD 0 : ℚ) (rowsOf all id) := by
  rw [rowsOf, get_since hall, rowsOf]
  cases Assoc.get all id with
  | none => rfl
  | some rows =>
    rw [Option.bind_some, Option.getD_some, sent]
    split
    · next hempty => rw [List.isEmpty_iff.mp hempty]; rfl
    · rfl

/-- **What a board that holds nothing is sent.** -/
theorem rowsOf_whole (hall : Assoc.Distinct all) (id : Text) :
    rowsOf (since [] all) id = after Row.t 0 (rowsOf all id) := by
  rw [rowsOf_since hall]
  rfl

/-- The cursor of a machine is the whole second of the newest row that is held. -/
theorem Board.cursor (h : Board N all page) (id : Text) :
    ((Assoc.get (held N (hostsHeld N page)) id).getD 0) = ⌊newest (rowsOf page id)⌋ := by
  have hnonneg : 0 ≤ newest (rowsOf page id) := by
    rcases (h.topped id).holds with hnil | hahead
    · rw [hnil]
      exact le_rfl
    · exact hahead.positive.le
  rw [held_hostsHeld h.distinct h.legible]
  unfold rowsOf newest at hnonneg ⊢
  cases hget : Assoc.get page id with
  | none => rfl
  | some rows =>
    rw [hget, Option.getD_some] at hnonneg
    rw [Option.bind_some, Option.getD_some, second]
    cases hlast : rows.getLast? with
    | none => rfl
    | some row =>
      rw [hlast] at hnonneg
      exact if_pos hnonneg

/-- **After a poll** a board holds what a board that holds nothing would be sent. -/
theorem polled (h : Board N all page) (id : Text) :
    rowsOf (mergeHostRows page (since (held N (hostsHeld N page)) all)) id =
      after Row.t 0 (rowsOf all id) := by
  have hsent := rowsOf_since h.sound.distinct (held N (hostsHeld N page)) id
  rw [h.cursor] at hsent
  rw [rowsOf, get_merge (distinct_since h.sound.distinct _)]
  unfold rowsOf at hsent
  cases hget : Assoc.get (since (held N (hostsHeld N page)) all) id with
  | none =>
    rw [hget] at hsent
    exact (h.topped id).merge_nil hsent.symm
  | some rows =>
    rw [hget, Option.getD_some] at hsent
    dsimp only
    rw [Option.getD_some, hsent]
    exact (h.topped id).merge

/-- What is sent of rows that can be read can be read. -/
theorem legible_of_rows (hall : Legible N all)
    (hrows : ∀ id, rowsOf page id = after Row.t 0 (rowsOf all id)) : Legible N page := by
  intro id rows hget hne
  have heq : rows = after Row.t 0 (rowsOf all id) := by
    rw [← hrows, rowsOf, hget, Option.getD_some]
  have hsub : ∀ r ∈ rows, r ∈ rowsOf all id := fun r hr => (mem_after.mp (heq ▸ hr)).1
  obtain ⟨r, hr⟩ := List.exists_mem_of_ne_nil _ hne
  unfold rowsOf at hsub
  cases hall' : Assoc.get all id with
  | none =>
    rw [hall'] at hsub
    exact nomatch hsub r hr
  | some rows' =>
    rw [hall', Option.getD_some] at hsub
    obtain ⟨hname, hplain⟩ := hall id rows' hall' (List.ne_nil_of_mem (hsub r hr))
    exact ⟨hname, fun r hr => hplain r (hsub r hr)⟩

/-- What a board holds is such a copy where it holds what a whole answer gives. -/
theorem Sound.board (h : Sound N all) (hpage : Assoc.Distinct page)
    (hrows : ∀ id, rowsOf page id = after Row.t 0 (rowsOf all id)) : Board N all page := by
  refine ⟨h, hpage, legible_of_rows h.legible hrows, fun id => ?_⟩
  rw [hrows]
  exact topped_whole (h.trimmed id)

/-! ### A pull -/

/-- A scout has answered. -/
def pulled (all : Machines β) (id : Text) (answer : List (Row β)) : Machines β :=
  Assoc.set all id (pull (rowsOf all id) answer)

theorem rowsOf_pulled (all : Machines β) (id : Text) (answer : List (Row β)) (id' : Text) :
    rowsOf (pulled all id answer) id' =
      if id' = id then pull (rowsOf all id) answer else rowsOf all id' := by
  rw [rowsOf, pulled, Assoc.get_set]
  split
  · rfl
  · rfl

theorem mem_pull {rows answer : List (Row β)} {r : Row β} (h : r ∈ pull rows answer) :
    r ∈ rows ∨ r ∈ answer := by
  have hin : r ∈ answer.foldl add rows := (List.dropWhile_suffix _).subset h
  clear h
  induction answer generalizing rows with
  | nil => exact .inl hin
  | cons row answer ih =>
    rcases ih hin with hin | hin
    · rw [add] at hin
      split at hin
      · rcases List.mem_append.mp hin with hin | hin
        · exact .inl hin
        · exact .inr (List.mem_cons.mpr (.inl (List.mem_singleton.mp hin)))
      · exact .inl hin
    · exact .inr (List.mem_cons_of_mem _ hin)

theorem trimmed_pull {rows : List (Row β)} (h : Trimmed rows) (answer : List (Row β)) :
    Trimmed (pull rows answer) :=
  (Topped.pull ⟨h, .inl rfl⟩ answer).trimmed

variable {id : Text} {answer : List (Row β)}

theorem Sound.pulled (h : Sound N all) (hid : Named id) (hanswer : ∀ r ∈ answer, N.Plain r.t) :
    Sound N (pulled all id answer) := by
  refine ⟨h.distinct.set _ _, fun id' rows hget hne => ?_, fun id' => ?_⟩
  · rw [HostRows.pulled, Assoc.get_set] at hget
    split at hget
    · next heq =>
      subst heq
      obtain rfl := Option.some.inj hget
      refine ⟨hid, fun r hr => ?_⟩
      rcases mem_pull hr with hr | hr
      · unfold rowsOf at hr
        cases hold : Assoc.get all id' with
        | none =>
          rw [hold] at hr
          cases hr
        | some rows =>
          rw [hold, Option.getD_some] at hr
          exact (h.legible id' rows hold (List.ne_nil_of_mem hr)).2 r hr
      · exact hanswer r hr
    · exact h.legible id' rows hget hne
  · rw [rowsOf_pulled]
    split
    · exact trimmed_pull (h.trimmed id) answer
    · exact h.trimmed id'

/-- **A pull** leaves every copy one. -/
theorem Board.pulled (h : Board N all page) (hid : Named id)
    (hanswer : ∀ r ∈ answer, N.Plain r.t) : Board N (pulled all id answer) page := by
  refine ⟨h.sound.pulled hid hanswer, h.distinct, h.legible, fun id' => ?_⟩
  rw [rowsOf_pulled]
  split
  · next heq =>
    rw [heq]
    exact (h.topped id).pull answer
  · exact h.topped id'

end Machines

end HostRows
