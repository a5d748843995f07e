import Caravan.Python.Float
import Caravan.Routing.Graph

/-!
# What is known of the outputs' health

The proxy notes of each output whether it answered or failed, and when. A backup node takes its
exit by these verdicts: a request by the fresh ones (`next_exit`), a client's question by the last
words, however old (`discovery_exit`). The controller resolves the same routes in a process of its
own, where nothing is noted, from the proxy's snapshot.

What is noted after the epoch is mirrored whole (`mirrored`), so a mirror that keeps verdicts as
long as the original answers as the original does (`mirror_exact`). A verdict of an earlier time
is left out of a mirror, as one without a time is.
-/

namespace Proxy

open Python

/-! ### The verdicts -/

namespace OutputHealth

inductive State where
  | ok
  | error
  deriving DecidableEq

/-- An output's row. -/
structure Row where
  state : State
  status : Option ℤ
  kind : Text
  message : Text
  checkedAt : ℚ
  lastOkAt : Option ℚ
  source : Text
  deriving DecidableEq

end OutputHealth

structure OutputHealth where
  ttl_seconds : ℤ
  rows : Text → Option OutputHealth.Row

def DEAD_STATUSES : List ℤ := [401, 402, 403, 404, 408, 429, 500, 502, 503, 504]

namespace OutputHealth

/-- An `OutputHealth` as it begins. -/
def new (ttl_seconds : ℤ) : OutputHealth := ⟨ttl_seconds, fun _ => none⟩

/-- `_put`; a failure keeps when the output last answered. -/
def put (h : OutputHealth) (output_id : Text) (row : Option ℚ → Row) : OutputHealth :=
  let key := output_id.strip
  if key = [] then h
  else { h with rows := Function.update h.rows key (some (row ((h.rows key).bind Row.lastOkAt))) }

def note_ok (h : OutputHealth) (output_id source : Text) (now : ℚ) : OutputHealth :=
  h.put output_id fun _ => ⟨.ok, none, [], [], now, some now, source⟩

-- `\d` of the regular expressions
variable (isDecimal : CodePoint → Bool)

/-- A message without the kind that it begins with: `^\s*http\s+\d{3}\s*:\s*` taken off. -/
def trimmed (message : Text) : Text :=
  let http := message.dropWhile isSpace
  let blanks := http.drop 4
  let digits := blanks.dropWhile isSpace
  let colon := (digits.drop 3).dropWhile isSpace
  if http.take 4 = Text.of "http" ∧ blanks.head?.any isSpace ∧ (digits.take 3).length = 3 ∧
      (digits.take 3).all isDecimal ∧ colon.head? = some (codePoint ':') then
    colon.tail.dropWhile isSpace
  else message

def note_error (h : OutputHealth) (output_id : Text) (status : Option ℤ)
    (kind message source : Text) (now : ℚ) : OutputHealth :=
  let status := status.filter (· ≠ 0)
  let kind := if kind ≠ [] then kind
    else match status with
      | some code => Text.of "http " ++ intRepr code
      | none => Text.of "error"
  h.put output_id fun last =>
    ⟨.error, status, kind, (trimmed isDecimal message).take 200, now, last, source⟩

def note_status (h : OutputHealth) (output_id : Text) (status : ℤ) (message source : Text)
    (now : ℚ) : OutputHealth :=
  if status ∈ DEAD_STATUSES then
    h.note_error isDecimal output_id (some status) [] message source now
  else h.note_ok output_id source now

/-! ### The questions -/

def is_fresh (h : OutputHealth) (row : Row) (now : ℚ) : Bool := now - row.checkedAt < h.ttl_seconds

/-- Dead is a fresh error; an expired one is only a memory. -/
def is_dead (h : OutputHealth) (output_id : Text) (now : ℚ) : Bool :=
  (h.rows output_id).any fun found => found.state = .error && h.is_fresh found now

/-- An exit of a backup node. -/
inductive Exit where
  | main
  | backup
  deriving DecidableEq

/-- `found.get('kind') or 'error'` -/
def kindOf (found : Option Row) : Text :=
  match found with
  | some row => if row.kind ≠ [] then row.kind else Text.of "error"
  | none => Text.of "error"

def next_exit (h : OutputHealth) (main_id backup_id : Text) (now : ℚ) : Exit × Text :=
  if main_id = [] ∨ backup_id = [] then (.main, [])
  else if h.is_dead main_id now && !h.is_dead backup_id now then
    (.backup, Text.of "main is down: " ++ kindOf (h.rows main_id))
  else (.main, [])

/-- `_last_word` -/
def last_word (h : OutputHealth) (output_id : Text) : Routing.Word × Option ℚ :=
  match h.rows output_id with
  | none => (.silent, none)
  | some found => (if found.state = .ok then .answered else .failed, found.lastOkAt)

def discovery_exit (h : OutputHealth) (main_id backup_id : Text) : Exit × Text :=
  if main_id = [] ∨ backup_id = [] then (.main, [])
  else
    let (main_word, main_ok_at) := h.last_word main_id
    let (backup_word, backup_ok_at) := h.last_word backup_id
    if main_word.rank < backup_word.rank then
      if main_word = .failed then
        (.backup, Text.of "main is not answering: " ++ kindOf (h.rows main_id))
      else (.backup, Text.of "main has not answered yet")
    else if main_word = .failed ∧ backup_word = .failed ∧
        backup_ok_at.any fun b => main_ok_at.all fun m => m < b then
      (.backup, Text.of "backup answered more recently")
    else (.main, [])

/-! ### The snapshot -/

/-- A row of a state document; what is missing from it, or not what it should be, is `none`. -/
structure Doc where
  state : Option State
  status : Option ℤ
  kind : Text
  message : Text
  checkedAt : Option ℚ
  lastOkAt : Option ℚ
  source : Text
  ageSec : ℤ
  fresh : Bool
  retryInSec : ℤ

/-- `int` of a float. -/
def truncate (q : ℚ) : ℤ := if 0 ≤ q then ⌊q⌋ else ⌈q⌉

def snapshot (h : OutputHealth) (now : ℚ) : Text → Option Doc := fun key =>
  (h.rows key).map fun row =>
    let age := max 0 (truncate (now - row.checkedAt))
    { state := some row.state
      status := row.status
      kind := row.kind
      message := row.message
      checkedAt := some row.checkedAt
      lastOkAt := row.lastOkAt
      source := row.source
      ageSec := age
      fresh := age < h.ttl_seconds
      retryInSec := max 0 (h.ttl_seconds - age) }

/-- A row of a snapshot, read. -/
def readDoc (row : Doc) : Option Row :=
  match row.state with
  | none => none
  | some state =>
    let checked_at := row.checkedAt.getD 0
    if checked_at ≤ 0 then none
    else
      let last_ok_at := row.lastOkAt.getD 0
      let last_ok_at := if state = .ok then max last_ok_at checked_at else last_ok_at
      some {
        state := state
        status := row.status.filter (· ≠ 0)
        kind := row.kind
        message := row.message.take 200
        checkedAt := checked_at
        lastOkAt := if 0 < last_ok_at then some last_ok_at else none
        source := if row.source ≠ [] then row.source else Text.of "proxy" }

def load_snapshot (h : OutputHealth) (rows : Text → Option Doc) : OutputHealth :=
  { h with rows := fun output_id => (rows output_id).bind readDoc }

/-! ### What is noted -/

/-- A note of an answer or of a failure. -/
inductive Note where
  | ok (output_id source : Text) (now : ℚ)
  | error (output_id : Text) (status : Option ℤ) (kind message source : Text) (now : ℚ)
  | status (output_id : Text) (status : ℤ) (message source : Text) (now : ℚ)

def Note.now : Note → ℚ
  | ok _ _ now | error _ _ _ _ _ now | status _ _ _ _ now => now

def note (h : OutputHealth) : Note → OutputHealth
  | .ok output_id source now => h.note_ok output_id source now
  | .error output_id status kind message source now =>
    h.note_error isDecimal output_id status kind message source now
  | .status output_id status message source now =>
    h.note_status isDecimal output_id status message source now

def notes (h : OutputHealth) (ns : List Note) : OutputHealth := ns.foldl (note isDecimal) h

/-- A row that was noted after the epoch. -/
structure Sound (row : Row) : Prop where
  checked : 0 < row.checkedAt
  answered : ∀ t ∈ row.lastOkAt, 0 < t
  ok : row.state = .ok → row.lastOkAt = some row.checkedAt
  status : row.status.filter (· ≠ 0) = row.status
  message : row.message.take 200 = row.message

/-- The rows of an `OutputHealth` that were noted after the epoch. -/
def Kept (h : OutputHealth) : Prop := ∀ output_id, ∀ row ∈ h.rows output_id, Sound row

variable {isDecimal}
variable {h other : OutputHealth}

theorem put_kept (hkept : h.Kept) (output_id : Text) {row : Option ℚ → Row}
    (hrow : ∀ last : Option ℚ, (∀ t ∈ last, 0 < t) → Sound (row last)) :
    (h.put output_id row).Kept := by
  unfold put
  dsimp only
  split
  · exact hkept
  intro id r hr
  dsimp only at hr
  by_cases hid : id = output_id.strip
  · subst hid
    rw [Function.update_self, Option.mem_some_iff] at hr
    rw [← hr]
    refine hrow _ fun t ht => ?_
    obtain ⟨old, hold, hlast⟩ := Option.bind_eq_some_iff.mp ht
    exact (hkept _ old hold).answered t hlast
  · rw [Function.update_of_ne hid] at hr
    exact hkept id r hr

theorem note_ok_kept (hkept : h.Kept) (output_id source : Text) {now : ℚ} (hnow : 0 < now) :
    (h.note_ok output_id source now).Kept := by
  refine put_kept hkept output_id fun last _ => ⟨hnow, ?_, fun _ => rfl, rfl, rfl⟩
  intro t ht
  rw [← Option.some.inj ht]
  exact hnow

theorem note_error_kept (hkept : h.Kept) (output_id : Text) (status : Option ℤ)
    (kind message source : Text) {now : ℚ} (hnow : 0 < now) :
    (h.note_error isDecimal output_id status kind message source now).Kept := by
  refine put_kept hkept output_id fun last hlast => ⟨hnow, hlast, State.noConfusion, ?_, ?_⟩
  · rw [Option.filter_filter]
    simp only [Bool.and_self]
  · exact List.take_of_length_le (List.length_take_le _ _)

/-- **A note** at a time after the epoch keeps the rows sound. -/
theorem note_kept (hkept : h.Kept) {n : Note} (hnow : 0 < n.now) :
    (h.note isDecimal n).Kept := by
  cases n with
  | ok output_id source now => exact note_ok_kept hkept output_id source hnow
  | error output_id status kind message source now =>
    exact note_error_kept hkept output_id status kind message source hnow
  | status output_id status message source now =>
    show (h.note_status isDecimal output_id status message source now).Kept
    unfold note_status
    split
    · exact note_error_kept hkept output_id _ _ message source hnow
    · exact note_ok_kept hkept output_id source hnow

theorem put_ttl (h : OutputHealth) (output_id : Text) (row : Option ℚ → Row) :
    (h.put output_id row).ttl_seconds = h.ttl_seconds := by
  unfold put
  dsimp only
  split <;> rfl

theorem notes_ttl (ns : List Note) (h : OutputHealth) :
    (h.notes isDecimal ns).ttl_seconds = h.ttl_seconds := by
  induction ns generalizing h with
  | nil => rfl
  | cons n ns ih =>
    refine (ih (h.note isDecimal n)).trans ?_
    cases n with
    | ok | error => exact put_ttl h _ _
    | status output_id status message source now =>
      show (h.note_status isDecimal output_id status message source now).ttl_seconds = _
      unfold note_status
      split <;> exact put_ttl h _ _

theorem notes_kept {ns : List Note} (hkept : h.Kept) (hns : ∀ n ∈ ns, 0 < n.now) :
    (h.notes isDecimal ns).Kept := by
  induction ns generalizing h with
  | nil => exact hkept
  | cons n ns ih =>
    exact ih (note_kept hkept (hns n List.mem_cons_self))
      fun m hm => hns m (List.mem_cons_of_mem n hm)

theorem new_kept (ttl_seconds : ℤ) : (new ttl_seconds).Kept := fun _ _ hrow => nomatch hrow

/-! ### The mirror -/

/-- A row in a mirror: who noted it is told always. -/
def Row.mirrored (row : Row) : Row :=
  { row with source := if row.source ≠ [] then row.source else Text.of "proxy" }

/-- **A row is mirrored whole**, once it was noted after the epoch. -/
theorem load_snapshot_rows (hkept : h.Kept) (other : OutputHealth) (moment : ℚ)
    (output_id : Text) :
    (other.load_snapshot (h.snapshot moment)).rows output_id =
      (h.rows output_id).map Row.mirrored := by
  unfold load_snapshot snapshot
  dsimp only
  cases hrow : h.rows output_id with
  | none => rfl
  | some row =>
    obtain ⟨hchecked, hanswered, hok, hstatus, hmessage⟩ := hkept output_id row hrow
    have hlast : (if 0 < (if row.state = .ok then max (row.lastOkAt.getD 0) row.checkedAt
        else row.lastOkAt.getD 0) then
          some (if row.state = .ok then max (row.lastOkAt.getD 0) row.checkedAt
            else row.lastOkAt.getD 0) else none) = row.lastOkAt := by
      by_cases hstate : row.state = .ok
      · rw [if_pos hstate, hok hstate, Option.getD_some, max_self, if_pos hchecked]
      · rw [if_neg hstate]
        cases hrowLast : row.lastOkAt with
        | none => exact if_neg (lt_irrefl 0)
        | some t => exact if_pos (hanswered t hrowLast)
    rw [Option.map_some, Option.bind_some, readDoc]
    dsimp only
    rw [Option.getD_some, if_neg (not_le.mpr hchecked), hlast, hstatus, hmessage]
    rfl

/-- What the questions read of the rows is the same in a mirror. -/
theorem is_dead_mirror (hkept : h.Kept) (httl : other.ttl_seconds = h.ttl_seconds)
    (moment : ℚ) (output_id : Text) (now : ℚ) :
    (other.load_snapshot (h.snapshot moment)).is_dead output_id now = h.is_dead output_id now := by
  unfold is_dead is_fresh
  rw [load_snapshot_rows hkept, Option.any_map]
  change (h.rows output_id).any (fun row => row.state = .error &&
    now - row.checkedAt < other.ttl_seconds) = _
  rw [httl]

theorem kindOf_mirror (hkept : h.Kept) (moment : ℚ) (output_id : Text) :
    kindOf ((other.load_snapshot (h.snapshot moment)).rows output_id) =
      kindOf (h.rows output_id) := by
  rw [load_snapshot_rows hkept]
  cases h.rows output_id <;> rfl

theorem last_word_mirror (hkept : h.Kept) (moment : ℚ) (output_id : Text) :
    (other.load_snapshot (h.snapshot moment)).last_word output_id = h.last_word output_id := by
  unfold last_word
  rw [load_snapshot_rows hkept]
  cases h.rows output_id <;> rfl

/-- **A mirror answers as the original**: whatever is noted, and when, after the epoch, and
whatever the mirror has held before, each question has the same answer at every moment. -/
theorem mirror_exact {ttl_seconds : ℤ} {ns : List Note} (hns : ∀ n ∈ ns, 0 < n.now)
    (httl : other.ttl_seconds = ttl_seconds) (moment : ℚ) :
    let original := (new ttl_seconds).notes isDecimal ns
    let mirror := other.load_snapshot (original.snapshot moment)
    ∀ (output_id main_id backup_id : Text) (now : ℚ),
      mirror.is_dead output_id now = original.is_dead output_id now ∧
      mirror.next_exit main_id backup_id now = original.next_exit main_id backup_id now ∧
      mirror.discovery_exit main_id backup_id = original.discovery_exit main_id backup_id := by
  intro original mirror output_id main_id backup_id now
  have hkept : original.Kept := notes_kept (new_kept ttl_seconds) hns
  have hsame : other.ttl_seconds = original.ttl_seconds := by
    rw [httl]
    exact (notes_ttl ns (new ttl_seconds)).symm
  have hdead := is_dead_mirror hkept hsame moment
  refine ⟨hdead output_id now, ?_, ?_⟩
  · unfold next_exit
    rw [hdead main_id now, hdead backup_id now, kindOf_mirror hkept]
  · unfold discovery_exit
    rw [last_word_mirror hkept, last_word_mirror hkept, kindOf_mirror hkept]

/-- An output that answered, and then failed. -/
def WENT_DOWN : List Note :=
  [.ok (Text.of "a") (Text.of "traffic") 10,
    .error (Text.of "a") (some 429) [] [] (Text.of "probe") 20]

def went_down : OutputHealth := (new 300).notes (fun _ => false) WENT_DOWN

theorem mirror_exact_went_down :
    (∀ n ∈ WENT_DOWN, 0 < n.now) ∧ (new 300).ttl_seconds = 300 ∧
      ((new 300).load_snapshot (went_down.snapshot 30)).is_dead (Text.of "a") 40 =
        went_down.is_dead (Text.of "a") 40 ∧
      ((new 300).load_snapshot (went_down.snapshot 30)).next_exit (Text.of "a") (Text.of "b") 40 =
        went_down.next_exit (Text.of "a") (Text.of "b") 40 ∧
      ((new 300).load_snapshot (went_down.snapshot 30)).discovery_exit (Text.of "a")
        (Text.of "b") = went_down.discovery_exit (Text.of "a") (Text.of "b") := by
  have hns : ∀ n ∈ WENT_DOWN, 0 < n.now := by
    unfold WENT_DOWN
    simp [Note.now]
  exact ⟨hns, rfl, mirror_exact hns rfl 30 (Text.of "a") (Text.of "a") (Text.of "b") 40⟩

/-- A failure that is noted at the epoch is not in the mirror, and a mirror that keeps verdicts for
a shorter time has forgotten one that the original still holds to. -/
theorem mirror_forgets :
    ((new 300).notes (fun _ => false) [.error (Text.of "a") none [] [] [] 0]).is_dead
        (Text.of "a") 1 = true ∧
      ((new 300).load_snapshot (((new 300).notes (fun _ => false)
        [.error (Text.of "a") none [] [] [] 0]).snapshot 1)).is_dead (Text.of "a") 1 = false ∧
      went_down.is_dead (Text.of "a") 100 = true ∧
      ((new 60).load_snapshot (went_down.snapshot 30)).is_dead (Text.of "a") 100 = false := by
  decide +kernel

/-! ### What a router reads of it -/

end OutputHealth

end Proxy
