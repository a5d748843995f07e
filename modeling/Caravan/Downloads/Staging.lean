import Caravan.Cloud.PoolDesk
import Caravan.Framework.Inodes
import Caravan.Python.Value

/-!
# A model file's update

`start_update` checks what the freshness report says of a file, keeps the present build under
`<file>.prev` and starts the download that will replace it. `link_prev` takes an older kept build
away first, and links or copies then; what comes after it may still refuse, and the download may
fail long after it. `restore_prev` and `drop_prev` are the two other calls.

This is one file with its `.prev`, the calls one after another, each operation a step that may fail
or be the last before the process dies. The downloads run beside them: a download puts its build
under the file's name at any moment.
-/

namespace Staging

open Python Inodes Ports

/-- The file and its `.prev`. -/
inductive Name
  | file
  | prev
  deriving DecidableEq, Repr

/-- A file's row of the freshness report, with its repository. -/
structure Row where
  repo : Text
  state : Option Text
  remotePath : Text
  remoteSize : ℕ

/-- `DISK_MARGIN_BYTES` -/
def DISK_MARGIN_BYTES : ℕ := 2 * 1024 ^ 3

variable (I : Interp)

/-- `check_room` -/
def check_room (needed free : ℕ) : Except AppError Unit :=
  let need := needed + DISK_MARGIN_BYTES
  if free < need then
    .error ⟨Text.of "not enough room: need " ++ Cloud.digits (need / 2 ^ 30) ++
      Text.of " GB (new build + " ++ Cloud.digits (DISK_MARGIN_BYTES / 2 ^ 30) ++
      Text.of " GB margin), free " ++ Cloud.digits (free / 2 ^ 30) ++ Text.of " GB", 409⟩
  else .ok ()

/-- What `start_update` checks before it touches the disk. -/
def check (key : Text) (row : Option Row) (isFile : Bool) (free : ℕ) : Except AppError Row :=
  match row with
  | none =>
    .error ⟨key ++ Text.of ": not in the last freshness report — run a check first", 404⟩
  | some row => do
    if row.state ≠ some (Text.of "size") ∧ row.state ≠ some (Text.of "date") then
      .error ⟨key ++ Text.of ": nothing newer to fetch (state " ++
        (row.state.map (reprText I)).getD (Text.of "None") ++ Text.of ")", 409⟩
    else if ¬ isFile then
      .error ⟨key ++ Text.of ": the local file is gone — re-run the check", 404⟩
    else if row.remotePath = [] then
      .error ⟨key ++ Text.of ": the report has no path on HF", 409⟩
    else
      check_room row.remoteSize free
      return row

/-! ### The state -/

/-- A running job of this file: `_download_jobs` has it by its repository and destination. -/
structure Job where
  id : ℕ
  repo : Text
  destDir : Text
  deriving DecidableEq

/-- What an update was called with, and what it found. -/
structure Update where
  key : Text
  row : Option Row
  /-- `live.parent.relative_to(models_dir)`, none where it raises -/
  destDir : Option Text
  /-- the build that the file held when the call began -/
  held : Option Bytes
  /-- the build that was kept when the call began -/
  kept : Option Bytes

/-- Where `start_update` is. -/
inductive Place
  | checking
  | looking
  | unlinking
  | linking
  /-- `shutil.copy2`, before it has opened the two -/
  | opening
  | copying (source : ℕ)
  | placing
  | starting
  deriving DecidableEq, Repr

inductive Call
  | idle
  | update (u : Update) (place : Place)
  | restoring
  | replacing
  | dropping
  | removing

structure State where
  disk : Disk Name Bytes
  jobs : List Job
  issued : ℕ
  call : Call
  /-- the update that returned last, with its job, until the next call begins -/
  started : Option (Update × ℕ)

/-- One operation of a call, or of a download, with how it went. -/
inductive Event
  | start_update (key : Text) (row : Option Row) (destDir : Option Text)
  | restore_prev
  | drop_prev
  /-- the checks, with the free space that is found -/
  | checks (free : ℕ)
  /-- the next operation succeeds -/
  | goes
  /-- the next operation raises -/
  | fails
  /-- `copy2` writes some more bytes -/
  | copies (n : ℕ)
  /-- the job is entered, and its thread cannot be started -/
  | threadless
  /-- a download puts a build under the file's name -/
  | lands (job : ℕ) (build : Bytes)
  /-- a download is done -/
  | finishes (job : ℕ)
  /-- a download ends with an error, or is cancelled -/
  | stops (job : ℕ)
  | crash

/-! ### The steps -/

namespace State

variable (s : State)

/-- The call returns, or raises. -/
def ends : State := { s with call := .idle }

def on (u : Update) (p : Place) : State := { s with call := .update u p }

/-- One call begins. -/
def begins (c : Call) : State := { s with call := c, started := none }

/-- The job that a start hands back. -/
def same (u : Update) (destDir : Text) : Option Job :=
  s.jobs.find? fun j => u.row.any (·.repo = j.repo) ∧ j.destDir = destDir

/-- A job is entered. -/
def entered (u : Update) (destDir : Text) : State :=
  { s with
    jobs := s.jobs ++ [⟨s.issued, (u.row.map Row.repo).getD [], destDir⟩]
    issued := s.issued + 1 }

/-- `start_update` and `link_prev`, operation by operation. -/
def update (u : Update) : Place → Event → Option State
  | .checking, .checks free =>
    match check I u.key u.row (s.disk.node .file).isSome free with
    | .error _ => some s.ends
    | .ok _ => some (s.on u .looking)
  | .looking, .goes =>
    some (if s.disk.node .file = none then s.on u .placing
      else if s.disk.node .prev ≠ none then s.on u .unlinking
      else s.on u .linking)
  | .unlinking, .goes => some { s.on u .linking with disk := s.disk.unlink .prev }
  | .linking, .goes => some { s.on u .placing with disk := s.disk.link .file .prev }
  | .linking, .fails => some (s.on u .opening)
  | .opening, .goes => (s.disk.node .file).map fun source =>
    { s.on u (.copying source) with disk := s.disk.place .prev [] }
  | .copying source, .copies n => some { s with
      disk := s.disk.write .prev fun b => b ++ ((s.disk.data source).drop b.length).take n }
  | .copying source, .goes =>
    if s.disk.content .prev = some (s.disk.data source) then some (s.on u .placing) else none
  | .placing, .goes => some (match u.destDir with
    | none => s.ends
    | some _ => s.on u .starting)
  | .starting, .goes => u.destDir.map fun destDir => match s.same u destDir with
    | some job => { s.ends with started := some (u, job.id) }
    | none => { (s.entered u destDir).ends with started := some (u, s.issued) }
  | .starting, .threadless => u.destDir.bind fun destDir => match s.same u destDir with
    | some _ => none
    | none => some (s.entered u destDir).ends
  | _, .fails => some s.ends
  | _, _ => none

/-- One step. -/
def next (e : Event) : Option State :=
  match e with
  | .crash => some { s.ends with jobs := [] }
  | .lands job build =>
    if s.jobs.any (·.id = job) then some { s with disk := s.disk.place .file build } else none
  | .finishes job | .stops job =>
    if s.jobs.any (·.id = job) then some { s with jobs := s.jobs.filter (·.id ≠ job) } else none
  | e =>
    match s.call with
    | .idle =>
      match e with
      | .start_update key row destDir =>
        some (s.begins (.update
          ⟨key, row, destDir, s.disk.content .file, s.disk.content .prev⟩ .checking))
      | .restore_prev => some (s.begins .restoring)
      | .drop_prev => some (s.begins .dropping)
      | _ => none
    | .update u p => s.update I u p e
    | .restoring =>
      match e with
      | .goes => some (if s.disk.node .prev = none then s.ends else { s with call := .replacing })
      | _ => none
    | .replacing =>
      match e with
      | .goes => some { s.ends with disk := s.disk.rename .prev .file }
      | .fails => some s.ends
      | _ => none
    | .dropping =>
      match e with
      | .goes => some (if s.disk.node .prev = none then s.ends else { s with call := .removing })
      | .fails => some s.ends
      | _ => none
    | .removing =>
      match e with
      | .goes => some { s.ends with disk := s.disk.unlink .prev }
      | .fails => some s.ends
      | _ => none

end State

/-- The file's runs: from any disk, with no job of it running. -/
def runs : System State Event where
  init s := s.call = .idle ∧ s.jobs = [] ∧ s.started = none
  step s e s' := s.next I e = some s'

end Staging
