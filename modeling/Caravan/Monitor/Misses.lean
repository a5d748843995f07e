import Caravan.Framework.Assoc
import Caravan.Python.Bytes
import Caravan.Python.Except
import Caravan.Python.Value

/-!
# The errors that clients were answered with

A day of the proxy's journal is folded line by line into the errors of each client: how often, when
last, and why. A reading takes the whole lines only, and the next one goes on behind them.

* `splitlines_append`, `whole_append` — what is cut off behind a line feed, and what comes after it,
  are read as the two together;
* `readOn_whole` — what a reading makes of what was folded before it and of the rest of the file is
  the fold of all its whole lines;
* `reading` — the answer for some ports, of the files as they stand.
-/

namespace ClientMisses

open Python

/-! ### Lines -/

def isEnd (c : UInt8) : Bool := c = Bytes.LF || c = Bytes.CR

/-- `bytes.splitlines()` -/
def splitlines : Bytes → List Bytes
  | [] => []
  | [c] => if isEnd c then [[]] else [[c]]
  | c :: d :: b =>
    if c = Bytes.CR ∧ d = Bytes.LF then [] :: splitlines b
    else if isEnd c then [] :: splitlines (d :: b)
    else
      match splitlines (d :: b) with
      | [] => [[c]]
      | l :: ls => (c :: l) :: ls

/-- `chunk[:chunk.rfind(b"\n") + 1]` -/
def whole (chunk : Bytes) : Bytes := chunk.rdropWhile (· ≠ Bytes.LF)

/-- Nothing, or whole lines. -/
def AtLine (b : Bytes) : Prop := b = [] ∨ b.getLast? = some Bytes.LF

theorem splitlines_ne_nil {b : Bytes} (h : b ≠ []) : splitlines b ≠ [] := by
  unfold splitlines
  split
  · exact absurd rfl h
  · split <;> exact List.cons_ne_nil _ _
  · split
    · exact List.cons_ne_nil _ _
    · split
      · exact List.cons_ne_nil _ _
      · split <;> exact List.cons_ne_nil _ _

/-- **Behind a line feed** the lines begin anew. -/
theorem splitlines_append {a : Bytes} (h : AtLine a) (b : Bytes) :
    splitlines (a ++ b) = splitlines a ++ splitlines b := by
  induction a using splitlines.induct with
  | case1 => rfl
  | case2 c hend =>
    cases b with
    | nil => rw [List.append_nil, show splitlines [] = [] from rfl, List.append_nil]
    | cons d b =>
      have hc : c = Bytes.LF := by
        rcases h with h | h
        · exact nomatch h
        · exact Option.some.inj h
      subst hc
      rfl
  | case3 c hend =>
    rcases h with h | h
    · exact nomatch h
    · have hc : c = Bytes.LF := Option.some.inj h
      exact absurd (hc ▸ rfl) hend
  | case4 c d a hcr ih =>
    have ha : AtLine a := by
      rcases h with h | h
      · exact nomatch h
      · cases a with
        | nil => exact .inl rfl
        | cons e a => exact .inr h
    show splitlines (c :: d :: (a ++ b)) = _
    rw [splitlines, splitlines, if_pos hcr, if_pos hcr, ih ha]
    rfl
  | case5 c d a hcr hend ih =>
    have ha : AtLine (d :: a) := h.imp (fun h => nomatch h) fun h => h
    show splitlines (c :: d :: (a ++ b)) = _
    rw [splitlines, splitlines, if_neg hcr, if_neg hcr, if_pos hend, if_pos hend]
    exact congrArg ([] :: ·) (ih ha)
  | case6 c d a hcr hend hnil ih => exact absurd hnil (splitlines_ne_nil (List.cons_ne_nil d a))
  | case7 c d a hcr hend l ls hlines ih =>
    have ha : AtLine (d :: a) := h.imp (fun h => nomatch h) fun h => h
    have hboth : splitlines (d :: (a ++ b)) = l :: (ls ++ splitlines b) := by
      rw [← List.cons_append, ih ha, hlines]
      rfl
    show splitlines (c :: d :: (a ++ b)) = _
    rw [splitlines, splitlines, if_neg hcr, if_neg hcr, if_neg hend, if_neg hend, hboth, hlines]
    rfl

theorem whole_concat (b : Bytes) (c : UInt8) :
    whole (b ++ [c]) = if c = Bytes.LF then b ++ [c] else whole b := by
  unfold whole
  rw [List.rdropWhile_concat]
  by_cases hc : c = Bytes.LF <;> simp [hc]

theorem whole_atLine (b : Bytes) : AtLine (whole b) := by
  induction b using List.reverseRecOn with
  | nil => exact .inl rfl
  | append_singleton b c ih =>
    rw [whole_concat]
    split
    · next hc => exact .inr (by rw [List.getLast?_concat, hc])
    · exact ih

theorem whole_of_atLine {b : Bytes} (h : AtLine b) : whole b = b := by
  rcases h with rfl | h
  · rfl
  · refine List.rdropWhile_eq_self_iff.mpr fun hne => ?_
    rw [List.getLast?_eq_some_getLast hne] at h
    simp [Option.some.inj h]

/-- What comes after whole lines is cut as it is by itself. -/
theorem whole_append {a : Bytes} (h : AtLine a) (b : Bytes) : whole (a ++ b) = a ++ whole b := by
  induction b using List.reverseRecOn with
  | nil => rw [List.append_nil, whole_of_atLine h]; exact (List.append_nil a).symm
  | append_singleton b c ih =>
    rw [← List.append_assoc, whole_concat, whole_concat]
    split
    · exact List.append_assoc _ _ _
    · exact ih

/-! ### One row -/

/-- `(port, method, path, status)` -/
structure Key where
  port : ℤ
  method : Text
  path : Text
  status : ℤ
  deriving DecidableEq

/-- What a row says of an error. -/
structure Miss where
  key : Key
  reason : Text
  time : ℤ

/-- `KeyEntry.PROBE_CLIENTS` -/
def PROBE_CLIENTS : List Text := ["routing-probe", "kanban-probe"]

def isText (v : Value) (t : Text) : Bool :=
  match v with
  | .str s => s = t
  | _ => false

variable (I : Interp)

/-- `int(v)` in a `try` that takes what is no number for none. -/
def intOrNone (v : Value) : Except Error (Option ℤ) :=
  match intOf I v with
  | .ok n => .ok (some n)
  | .error .type => .ok none
  | .error .value => .ok none
  | .error e => .error e

/-- `miss_of`, once the event is known: its `status` and the rest of the row. -/
def missWith (row item : Dict) (status : Value) : Except Error (Option Miss) := do
  match ← intOrNone I status with
  | none => .ok none
  | some status =>
    match ← intOrNone I (item.get "port") with
    | none => .ok none
    | some port =>
      if status < 400 ∨ port ≤ 0 then .ok none
      else do
        let method ← strOf I ((item.get "method").or (.str []))
        let path ← strOf I ((item.get "path").or (.str []))
        let reason ← strOf I ((item.get "reason").or ((row.get "errorKind").or (.str [])))
        let time ← intOf I ((row.get "time").or (.int 0))
        return some ⟨⟨port, method, path, status⟩, reason, time⟩

/-- `miss_of` -/
def miss_of (row : Value) : Except Error (Option Miss) :=
  match row with
  | .dict row =>
    let row : Dict := row
    let item := (row.get "item").asDict
    if PROBE_CLIENTS.any (isText (item.get "client")) then .ok none
    else if isText (row.get "event") "blocked" then missWith I row item (item.get "status")
    else if isText (row.get "event") "finished" then
      missWith I row item (if row.has "status" then row.get "status" else item.get "status")
    else .ok none
  | _ => .ok none

/-! ### One day -/

/-- How often, when last, and why. -/
structure Line where
  count : ℕ
  last : ℤ
  reason : Text
  deriving DecidableEq

abbrev Misses := List (Key × Line)

/-- An error more. -/
def Misses.count (misses : Misses) (m : Miss) : Misses :=
  let was := (Assoc.get misses m.key).getD ⟨0, 0, []⟩
  Assoc.set misses m.key
    ⟨was.count + 1, max was.last m.time, if was.last ≤ m.time then m.reason else was.reason⟩

/-- `json.loads` of a line. -/
abbrev Parse := Bytes → Except Error Value

variable (parse : Parse)

/-- What a line says; a line that raises a `ValueError` says nothing. -/
def lineMiss (line : Bytes) : Except Error (Option Miss) :=
  match parse line >>= miss_of I with
  | .error .value => .ok none
  | .error .unicodeEncode => .ok none
  | found => found

/-- A line more. -/
def addLine (misses : Misses) (line : Bytes) : Except Error Misses := do
  match ← lineMiss I parse line with
  | none => .ok misses
  | some m => .ok (misses.count m)

/-- The whole lines of a day, folded. -/
def wholeDay (file : Bytes) : Except Error Misses :=
  (splitlines (whole file)).foldlM (addLine I parse) []

/-- What was read of a day: the bytes, and their errors. -/
structure Seen where
  offset : ℕ
  misses : Misses

def Seen.none : Seen := ⟨0, []⟩

/-- What a reading makes of the bytes behind those that were read. -/
def readOn (seen : Seen) (chunk : Bytes) : Except Error Seen := do
  let misses ← (splitlines (whole chunk)).foldlM (addLine I parse) seen.misses
  return ⟨seen.offset + (whole chunk).length, misses⟩

/-- What was read of a file: whole lines, and their fold. -/
structure Good (file : Bytes) (seen : Seen) : Prop where
  within : seen.offset ≤ file.length
  atLine : AtLine (file.take seen.offset)
  fold : (splitlines (file.take seen.offset)).foldlM (addLine I parse) [] = .ok seen.misses

variable {I parse} {file file' : Bytes} {seen seen' : Seen}

theorem good_none : Good I parse file Seen.none := ⟨Nat.zero_le _, .inl rfl, rfl⟩

/-- What was read stays read while the file grows. -/
theorem Good.mono (h : Good I parse file seen) (hgrown : file <+: file') :
    Good I parse file' seen := by
  have htake : file'.take seen.offset = file.take seen.offset := by
    obtain ⟨more, rfl⟩ := hgrown
    exact List.take_append_of_le_length h.within
  exact ⟨h.within.trans hgrown.length_le, htake ▸ h.atLine, htake ▸ h.fold⟩

/-- What was read of a file, of one that had all of it. -/
theorem Good.shorter (h : Good I parse file' seen) (hgrown : file <+: file')
    (hle : seen.offset ≤ file.length) : Good I parse file seen := by
  have htake : file'.take seen.offset = file.take seen.offset := by
    obtain ⟨more, rfl⟩ := hgrown
    exact List.take_append_of_le_length hle
  exact ⟨hle, htake ▸ h.atLine, htake ▸ h.fold⟩

/-- A file that was read to its end. -/
theorem Good.whole (h : Good I parse file seen) (hend : seen.offset = file.length) :
    wholeDay I parse file = .ok seen.misses := by
  have hline := h.atLine
  have hfold := h.fold
  rw [hend, List.take_length] at hline hfold
  rw [wholeDay, whole_of_atLine hline]
  exact hfold

/-- **A further reading** folds the rest of the file on: what comes out is the fold of all its
whole lines. -/
theorem readOn_whole (h : Good I parse file seen) :
    (readOn I parse seen (file.drop seen.offset)).map Seen.misses = wholeDay I parse file := by
  have hcut : file = file.take seen.offset ++ file.drop seen.offset :=
    (List.take_append_drop _ _).symm
  have hlines : ClientMisses.whole file =
      file.take seen.offset ++ ClientMisses.whole (file.drop seen.offset) := by
    conv_lhs => rw [hcut]
    exact whole_append h.atLine _
  rw [wholeDay, hlines, splitlines_append h.atLine, List.foldlM_append, h.fold, readOn,
    Except.map_bind]
  show _ = (splitlines (ClientMisses.whole (file.drop seen.offset))).foldlM _ seen.misses
  cases (splitlines (ClientMisses.whole (file.drop seen.offset))).foldlM (addLine I parse)
    seen.misses <;> rfl

theorem readOn_good (h : Good I parse file seen)
    (hread : readOn I parse seen (file.drop seen.offset) = .ok seen') :
    Good I parse file seen' := by
  obtain ⟨misses, hfold, hseen⟩ := Except.bind_eq_ok hread
  obtain rfl := Except.ok.inj hseen
  have hwhole : ClientMisses.whole (file.drop seen.offset) <+: file.drop seen.offset :=
    List.rdropWhile_prefix _ _
  have hle := hwhole.length_le
  rw [List.length_drop] at hle
  -- the bytes that are read now
  have htake : file.take (seen.offset + (ClientMisses.whole (file.drop seen.offset)).length) =
      file.take seen.offset ++ ClientMisses.whole (file.drop seen.offset) := by
    rw [List.take_add, ← List.prefix_iff_eq_take.mp hwhole]
  have hin := h.within
  refine ⟨?_, ?_, ?_⟩
  · show seen.offset + _ ≤ _
    omega
  · show AtLine (file.take (seen.offset + _))
    rw [htake, ← whole_append h.atLine, List.take_append_drop]
    exact whole_atLine file
  · show (splitlines (file.take (seen.offset + _))).foldlM _ [] = _
    rw [htake, splitlines_append h.atLine, List.foldlM_append, h.fold]
    exact hfold

/-! ### The answer -/

/-- A line of a client's card. -/
structure Item where
  method : Text
  path : Text
  status : ℤ
  line : Line
  deriving DecidableEq

def SHOWN : ℕ := 8

/-- A client's card. -/
structure Card where
  port : ℤ
  items : List Item
  more : ℕ
  deriving DecidableEq

/-- A day's line put to the days' after it. -/
def addDay (wanted : List ℤ) (total : Misses) (x : Key × Line) : Misses :=
  if x.1.port ∉ wanted then total
  else match Assoc.get total x.1 with
    | none => Assoc.set total x.1 x.2
    | some was =>
      if was.last ≤ x.2.last then Assoc.set total x.1 ⟨x.2.count + was.count, x.2.last, x.2.reason⟩
      else Assoc.set total x.1 { was with count := was.count + x.2.count }

/-- `(-last, path)`, as an order. -/
def Item.before (a b : Item) : Bool :=
  b.line.last < a.line.last || b.line.last = a.line.last && a.path ≤ b.path

/-- The cards of the ports that were asked for, of the days' errors, the newest day first. -/
def cards (ports : List ℤ) (days : List (Option Misses)) : List Card :=
  let wanted := ports.dedup
  let total := (days.flatMap fun m => m.getD []).foldl (addDay wanted) []
  wanted.map fun port =>
    let lines := (total.filter fun x => x.1.port = port).map fun x =>
      (⟨x.1.method, x.1.path, x.1.status, x.2⟩ : Item)
    ⟨port, (lines.mergeSort Item.before).take SHOWN, lines.length - SHOWN⟩

variable (I parse) in
/-- A day's file, if there is one. -/
def readDay : Option Bytes → Except Error (Option Misses)
  | none => .ok none
  | some file => (wholeDay I parse file).map some

variable (I parse) in
/-- **One reading** of the days' files as they stand: the newest first, none where none is. -/
def reading (ports : List ℤ) (files : List (Option Bytes)) : Except Error (List Card) := do
  let days ← files.mapM (readDay I parse)
  return cards ports days

end ClientMisses
