import Caravan.StoreMoves.Io
import Mathlib.Algebra.GroupWithZero.Nat

/-!
# The mover

`Mover` of `caravan/admin/store_moves.py`, method by method, over the operations
of `LocalIo`. An item and a file are passed by their places in the job, since the
source passes the records themselves and assigns to their fields; `self.job` is
the state's `job`. `sha` stands for SHA-256.

`work` is one pass of the runner's worker: it runs the job it holds and closes it
as failed when something other than its own exceptions comes out. `life` is one
process: the job is read back from the manifest and, unless it is finished, run.
-/

namespace StoreMoves

open Crash

variable {D : Type} [DecidableEq D]

namespace Mover

open World Io

/-! ### Variables of the process -/

def jobItem (i : ℕ) : Mover D (MoveItem D) := .read fun w => w.job.item i

def jobFile (i j : ℕ) : Mover D (MoveFile D) := .read fun w => (w.job.item i).file j

def setJob (g : MoveJob D → MoveJob D) : Mover D Unit :=
  .assign fun w => { w with job := g w.job }

def setItem (i : ℕ) (g : MoveItem D → MoveItem D) : Mover D Unit :=
  setJob fun job => job.setItem i g

def setFile (i j : ℕ) (g : MoveFile D → MoveFile D) : Mover D Unit :=
  setItem i fun item => item.setFile j g

/-- `for x in xs: if not step(x): return False`. -/
def untilFalse {A : Type} (xs : List A) (step : A → Mover D Bool) : Mover D Bool :=
  match xs with
  | [] => pure true
  | x :: xs => do
    if ← step x then untilFalse xs step else return false

/-- `for x in xs: step(x)`. -/
def each {A : Type} (xs : List A) (step : A → Mover D Unit) : Mover D Unit :=
  match xs with
  | [] => pure ()
  | x :: xs => do
    step x
    each xs step

/-- `except OSError as exc`. -/
def exceptOs {A : Type} (m : Mover D A) (h : OsError → Mover D A) : Mover D A :=
  m.handle fun
    | .os x => h x
    | .cancelled => .raise .cancelled

def checkCancel : Mover D Unit := do
  if ← .read (fun w => w.job.cancel) then .raise .cancelled

/-! ### Closing an item -/

def discard (path : String) : Mover D Unit :=
  exceptOs (do if ← exists_ .target path then unlink .target path) fun _ => pure ()

/-- `_close`: always `False`, so a caller can return it. -/
def close (i : ℕ) (state : ItemState) (note detail : String) : Mover D Bool := do
  if state ≠ .done then
    each (← jobItem i).files fun f => do
      if f.state ≠ .proven then discard (f.rel ++ PART_SUFFIX)
  setItem i fun item => { item with state, note, detail }
  save
  return false

/-! ### Trouble -/

def oneSecond : Mover D Unit := do
  checkCancel
  sleep 1

def wait (detail : String) : Mover D Unit := do
  setJob fun job => { job with status := .waiting, reason := detail }
  save
  Prog.loop around (fun _ => do
    each (List.replicate WAIT_S ()) fun _ => oneSecond
    return if ← ask then .inr () else .inl ()) ()
  setJob fun job => { job with status := .running, reason := "" }
  save

def trouble (i : ℕ) (x : OsError) : Mover D Bool := do
  if ← ask then
    setItem i fun item => { item with errors := item.errors + 1 }
    if (← jobItem i).errors ≥ MAX_ERRORS then
      return ← close i .skipped "errors" x.text
  wait x.text
  return true

/-! ### The copy and its proof -/

/-- `_stores_here`: a library end that does not carry its mark raises. -/
def markHere (side : Side) (e : End) : Mover D Unit := do
  if e.kind = .library then
    if (← mark side) ≠ e.id then
      .raise (.os ⟨false, e.root ++ " does not carry this library's mark"⟩)

def storesHere : Mover D Unit := do
  markHere .source (← .read fun w => w.job.source)
  markHere .target (← .read fun w => w.job.target)

/-- The read–write loop of `_copy`; `since` counts the bytes written after the
last checkpoint. -/
def copyLoop (i j : ℕ) (reader writer : Handle) : ℕ × ℕ → Mover D Unit :=
  Prog.loop around fun (offset, since) => do
    checkCancel
    let block ← readBlock .source reader offset CHUNK
    if block = [] then return .inr ()
    write writer block
    setFile i j fun f => { f with done := f.done + block.length }
    if since + block.length ≥ CHECKPOINT_BYTES then
      fsync writer
      setFile i j fun f => { f with synced := f.done }
      save
      return .inl (offset + block.length, 0)
    return .inl (offset + block.length, since + block.length)

/-- Where a copy begun earlier is taken up: at its last confirmed byte. -/
def resumeAt (f : MoveFile D) (part : String) : Mover D ℕ := do
  let there ← if ← exists_ .target part then size .target part else pure 0
  if there > f.synced then truncate part f.synced
  return min there f.synced

def copy (i j : ℕ) (src part : String) : Mover D Unit := do
  let f ← jobFile i j
  let offset ← resumeAt f part
  setFile i j fun f => { f with phase := .copying, done := offset }
  save
  let reader ← openRead .source src
  let writer ← openAppend part
  copyLoop i j reader writer (offset, 0)
  fsync writer
  setFile i j fun f => { f with synced := f.done }
  let now ← .read fun w => w.now
  setFile i j fun f => { f with copiedAt := now }
  let landed ← size .target part
  if landed ≠ f.size then
    .raise (.os ⟨false, "the library copy is not whole"⟩)

/-- `for block in reader.chunks(dst)`: the bytes read back. -/
def chunks (i j : ℕ) (h : Handle) : Bytes → Mover D Bytes :=
  Prog.loop around fun got => do
    let block ← readBlock .target h got.length CHUNK
    if block = [] then return .inr got
    checkCancel
    setFile i j fun f => { f with done := got.length + block.length }
    return .inl (got ++ block)

/-- `_prove`. The thread that hashes the source is joined after the copy was
read, and its one reading of the source stands there. -/
def prove (sha : Bytes → D) (bypasses : Bool) (i j : ℕ) (src dst : String) : Mover D Bool := do
  setFile i j fun f => { f with phase := .checking, done := 0 }
  save
  let h ← openRead .target dst
  let got ← chunks i j h []
  let localSha ← hashSource sha src
  setFile i j fun f => { f with sha256 := some localSha, bypassed := bypasses }
  let f ← jobFile i j
  return got.length = f.size ∧ sha got = localSha

def proven (i j : ℕ) : Mover D Bool := do
  setFile i j fun f => { f with state := .proven, phase := .proven }
  save
  return true

def keepAge (final : String) (i j : ℕ) : Mover D Unit :=
  exceptOs (do
    match (← jobFile i j).stamp with
    | some st => setMtime final st.mtime
    | none => pure ()) fun _ => pure ()

/-- A file planned without a stamp takes the one it is first read with. -/
def takeStamp (i j : ℕ) (src : String) : Mover D Unit := do
  if (← jobFile i j).stamp = none then
    let st ← stamp .source src
    setFile i j fun f => { f with stamp := some st }
    save

/-- One attempt of `_bring`: `some` is its return, `none` goes round again. -/
def attempt (sha : Bytes → D) (bypasses : Bool) (i j : ℕ) (src final : String) :
    Mover D (Option Bool) := do
  let part := final ++ PART_SUFFIX
  if !(← exists_ .source src) then
    return some (← close i .skipped "local-gone" "")
  takeStamp i j src
  if some (← stamp .source src) ≠ (← jobFile i j).stamp then
    return some (← close i .skipped "local-changed" "")
  storesHere
  if ← exists_ .target final then
    if ← prove sha bypasses i j src final then
      return some (← proven i j)
    return some (← close i .skipped "name-taken" "")
  makedirs (dirname part)
  copy i j src part
  if ← prove sha bypasses i j src part then
    replace part final
    keepAge final i j
    return some (← proven i j)
  discard part
  setFile i j fun f => { f with synced := 0, attempts := f.attempts + 1 }
  if (← jobFile i j).attempts ≥ MAX_ATTEMPTS then
    return some (← close i .skipped "mismatch" "")
  return none

def bring (sha : Bytes → D) (bypasses : Bool) (i j : ℕ) : Mover D Bool := do
  let f ← jobFile i j
  Prog.loop around (fun _ => do
    checkCancel
    let r ← exceptOs (attempt sha bypasses i j f.rel f.rel) fun x => do
      return if ← trouble i x then none else some false
    return match r with | some b => .inr b | none => .inl ()) ()

/-! ### A folder -/

/-- What a scan has found so far: files, links, directories. -/
abbrev Found (D : Type) := List (MoveFile D) × List (String × String) × List String

/-- The sorting of one walked entry; `none` closes the item. -/
def scanEntry (i : ℕ) (folder root : String) (found : Found D) (e : Entry) :
    Mover D (Option (Found D)) := do
  let path := within folder e.rel
  let (files, links, dirs) := found
  match e.kind with
  | .file =>
    let st ← stamp .source path
    return some (files ++ [newFile path e.size (some st)], links, dirs)
  | .link =>
    if linkOut root folder e.rel e.text then
      let _ ← close i .skipped "link-out" (path ++ " → " ++ e.text)
      return none
    return some (files, links ++ [(path, e.text)], dirs)
  | .dir => return some (files, links, dirs ++ [path])
  | .other =>
    let _ ← close i .skipped "folder-odd" path
    return none

def scanEntries (i : ℕ) (folder root : String) : List Entry → Found D → Mover D (Option (Found D))
  | [], found => pure (some found)
  | e :: es, found => do
    match ← scanEntry i folder root found e with
    | some found => scanEntries i folder root es found
    | none => return none

/-- The walk of `_scan`, until it succeeds; `none` when the item was closed. -/
def scanWalk (i : ℕ) (folder : String) : Mover D (Option (List Entry)) :=
  Prog.loop around (fun _ =>
    exceptOs (do
      storesHere
      return .inr (some (← walk folder)))
      fun x => do
        if x.missing then
          let _ ← close i .skipped "local-gone" ""
          return .inr none
        return if ← trouble i x then .inl () else .inr none) ()

/-- `_scan` of the item whose folder this is. -/
def scan (i : ℕ) (folder : String) : Mover D Bool := do
  let root ← .read fun w => w.job.source.root
  let some entries ← scanWalk i folder | return false
  let some (files, links, dirs) ← scanEntries i folder root entries ([], [], [])
    | return false
  setItem i fun item =>
    { item with files, links, dirs, scanned := true }
  setItem i fun item =>
    let total := (files.map (·.size)).sum
    { item with size := if total = 0 then item.size else total }
  save
  return true

/-- `exists(path) or is_link(path)` at the target. -/
def taken (path : String) : Mover D Bool := do
  if ← exists_ .target path then return true else isLink .target path

/-- One link of `_plant`. What already stands at its path is left there. -/
def plantLink (rel text : String) : Mover D Unit := do
  if ← taken rel then
    .assign fun w => w.faultIf (Assoc.get w.target.tree rel ≠ some (.link text)) .linkTaken
  else
    makedirs (dirname rel)
    symlink text rel

def plant (i : ℕ) : Mover D Unit := do
  let item ← jobItem i
  each item.dirs fun rel => makedirs rel
  each item.links fun p => plantLink p.1 p.2

def settle (i : ℕ) : Mover D Unit := do
  let last := ((← jobItem i).files.map (·.copiedAt)).foldl max 0
  Prog.loop around (fun _ => do
    if (← .read fun w => w.now) - last < SETTLE_S then
      oneSecond
      return .inl ()
    return .inr ()) ()

/-! ### The last look, and the removal -/

/-- The file is at the source, with another stamp than the planned one. -/
def changed (inFolder : Bool) (f : MoveFile D) : Mover D Bool := do
  if ← sourceExists inFolder f.rel then return some (← stamp .source f.rel) ≠ f.stamp
  else return false

/-- The size of the copy, `none` where there is none. -/
def landed (f : MoveFile D) : Mover D (Option ℕ) :=
  exceptOs (do return some (← size .target f.rel)) fun x => do
    if x.missing then return none else .raise (.os x)

/-- The loop of `_why_keep` over the files of the item. -/
def whyKeepFiles (inFolder : Bool) : List (MoveFile D) → Mover D String
  | [] => pure ""
  | f :: fs => do
    if ← changed inFolder f then return "local-changed"
    if (← landed f) ≠ some f.size then return "copy-missing"
    whyKeepFiles inFolder fs

/-- The files a walk of the folder finds are those the scan planned. -/
def sameFiles (item : MoveItem D) (here : List Entry) : Bool :=
  let found := (here.filter (fun e => e.kind = .file)).map (·.rel)
  let planned := item.files.map fun f => String.ofList (f.rel.toList.drop (item.folder.length + 1))
  (found.all fun r => r ∈ planned) && (planned.all fun r => r ∈ found)

/-- A folder has other files than the planned ones. -/
def folderChanged (item : MoveItem D) : Mover D Bool := do
  if item.folder ≠ "" then return !(sameFiles item (← walk item.folder)) else return false

def whyKeep (i : ℕ) : Mover D String := do
  let item ← jobItem i
  if ← folderChanged item then return "folder-changed"
  let why ← whyKeepFiles (item.folder ≠ "") item.files
  if why ≠ "" then return why
  if ← ask then return "in-use"
  return ""

/-- `_plant`, until it succeeds; `false` when the item was closed. -/
def plantAll (i : ℕ) : Mover D Bool :=
  Prog.loop around (fun _ =>
    exceptOs (do
      plant i
      return .inr true)
      fun x => do return if ← trouble i x then .inl () else .inr false) ()

/-- The last look, until it succeeds; `none` when the item was closed. -/
def lastLook (i : ℕ) : Mover D (Option String) :=
  Prog.loop around (fun _ =>
    exceptOs (do
      storesHere
      return .inr (some (← whyKeep i)))
      fun x => do return if ← trouble i x then .inl () else .inr none) ()

/-- `_prune_dirs`: the emptied directories above a path of the source go. -/
def pruneDirs : List String → Mover D Unit
  | [] => pure ()
  | dir :: dirs => do
    if ← exceptOs (do rmdir dir; return true) (fun _ => return false) then pruneDirs dirs

/-- An `OSError` of a removal: `FileNotFoundError` is passed over, any other
closes the item. -/
def removing (i : ℕ) (m : Mover D Unit) : Mover D Bool :=
  exceptOs (do m; return true) fun x => do
    if x.missing then return true
    close i .skipped "unlink-failed" x.text

def removeFile (i j : ℕ) : Mover D Bool := do
  let f ← jobFile i j
  if !(← removing i (unlink .source f.rel)) then return false
  setFile i j fun f => { f with phase := .removed }
  pruneDirs (dirsAbove f.rel)
  return true

def removeFolder (i : ℕ) (folder : String) : Mover D Bool := do
  if !(← removing i (rmtree folder)) then return false
  setItem i fun item =>
    { item with files := item.files.map fun f => { f with phase := .removed } }
  pruneDirs (dirsAbove folder)
  return true

def remove (i : ℕ) : Mover D Bool := do
  let item ← jobItem i
  if item.folder ≠ "" then removeFolder i item.folder
  else untilFalse (List.range item.files.length) fun j => removeFile i j

/-! ### The item, the job, the process -/

def bringAll (sha : Bytes → D) (bypasses : Bool) (i : ℕ) : Mover D Bool := do
  let item ← jobItem i
  untilFalse (List.range item.files.length) fun j => do
    if (← jobFile i j).state ≠ .proven then bring sha bypasses i j else return true

/-- A folder not yet read is read first. -/
def scanFirst (i : ℕ) (item : MoveItem D) : Mover D Bool :=
  if item.folder ≠ "" ∧ !item.scanned then scan i item.folder else return true

def plantFolder (i : ℕ) (item : MoveItem D) : Mover D Bool :=
  if item.folder ≠ "" then plantAll i else return true

def settleLibrary (i : ℕ) : Mover D Unit := do
  if (← .read fun w => w.job.target.kind) = .library then settle i

/-- `Mover._item`. -/
def runItem (sha : Bytes → D) (bypasses : Bool) (i : ℕ) : Mover D Unit := do
  let item ← jobItem i
  if !(← scanFirst i item) then return
  if !(← bringAll sha bypasses i) then return
  if !(← plantFolder i item) then return
  settleLibrary i
  let some why ← lastLook i | return
  if why ≠ "" then
    let _ ← close i .skipped why ""
    return
  setItem i fun item => { item with state := .removing }
  save
  if !(← remove i) then return
  let _ ← close i .done "" ""

def finish (status : JobStatus) : Mover D Unit := do
  let now ← .read fun w => w.now
  setJob fun job => { job with status, reason := "", finishedAt := now }
  save

def runItems (sha : Bytes → D) (bypasses : Bool) : List ℕ → Mover D Unit
  | [] => pure ()
  | i :: is => do
    if !(← jobItem i).state.final then runItem sha bypasses i
    runItems sha bypasses is

def run (sha : Bytes → D) (bypasses : Bool) : Mover D Unit := do
  let n ← .read fun w => w.job.items.length
  let ended ← Prog.handle (do
    checkCancel
    setJob fun job => { job with status := .running, reason := "" }
    save
    runItems sha bypasses (List.range n)
    return JobStatus.done) fun
      | .cancelled => do
        each (List.range n) fun i => do
          if !(← jobItem i).state.final then
            let _ ← close i .cancelled "" ""
        return JobStatus.cancelled
      | .os x => .raise (.os x)
  finish ended

/-- `MoveRunner._work` with the job it holds. -/
def work (sha : Bytes → D) (bypasses : Bool) : Mover D Unit :=
  exceptOs (run sha bypasses) fun x => do
    let now ← .read fun w => w.now
    setJob fun job => { job with status := .failed, reason := x.text, finishedAt := now }
    save

/-- `MoveRunner.resume` and the worker of the new process. -/
def life (sha : Bytes → D) (bypasses : Bool) : Mover D Unit := do
  .assign fun w => { w with job := MoveJob.fromJson w.saved }
  if !(← .read fun w => w.job.finished) then
    setJob fun job => { job with status := .queued, reason := "" }
    work sha bypasses

end Mover

end StoreMoves
